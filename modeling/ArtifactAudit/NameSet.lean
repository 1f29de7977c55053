import ArtifactAudit.Text.Order

/-!
This module contains finite sets of names. A set is kept as the increasing list of its names, by
code points, so two sets with the same names are equal.
-/

namespace ArtifactAudit

structure NameSet where
  names : List String
  /-- No name is listed twice, and the order is the one of code points. -/
  increasing : names.Pairwise Text.Precedes
deriving DecidableEq

namespace NameSet

instance : Membership String NameSet where
  mem set name := name ∈ set.names

instance (name : String) (set : NameSet) : Decidable (name ∈ set) :=
  inferInstanceAs (Decidable (name ∈ set.names))

def empty : NameSet := ⟨[], .nil⟩

instance : EmptyCollection NameSet := ⟨empty⟩

instance : Inhabited NameSet := ⟨empty⟩

instance : LT NameSet where
  lt left right := Text.listPrecedes left.names right.names

instance (left right : NameSet) : Decidable (left < right) :=
  inferInstanceAs (Decidable (Text.listPrecedes left.names right.names = true))

def isEmpty (set : NameSet) : Bool := set.names.isEmpty

def size (set : NameSet) : Nat := set.names.length

theorem mem_iff {name : String} {set : NameSet} : name ∈ set ↔ name ∈ set.names := Iff.rfl

@[simp]
theorem not_mem_empty (name : String) : name ∉ (∅ : NameSet) := by
  intro h
  cases h

def insertIncreasing (name : String) : List String → List String
  | [] => [name]
  | other :: rest =>
    if Text.Precedes name other then name :: other :: rest
    else if Text.Precedes other name then other :: insertIncreasing name rest
    else other :: rest

theorem mem_insertIncreasing {name x : String} {names : List String} :
    x ∈ insertIncreasing name names ↔ x = name ∨ x ∈ names := by
  induction names with
  | nil => simp [insertIncreasing]
  | cons other rest ih =>
    unfold insertIncreasing
    split
    . simp
    . split
      . simp only [List.mem_cons, ih]
        grind
      -- Neither name stands before the other, so they are one.
      . next h h' =>
        have := Text.Precedes.eq_of_not h h'
        subst this
        simp

theorem pairwise_insertIncreasing {name : String} {names : List String}
    (h : names.Pairwise Text.Precedes) : (insertIncreasing name names).Pairwise Text.Precedes := by
  induction names with
  | nil => simp [insertIncreasing]
  | cons other rest ih =>
    have hall := List.pairwise_cons.1 h
    unfold insertIncreasing
    split
    . next hlt =>
      refine List.pairwise_cons.2 ⟨?_, h⟩
      intro x hx
      rcases List.mem_cons.1 hx with rfl | hx
      . exact hlt
      . exact Text.Precedes.trans hlt (hall.1 x hx)
    . split
      . next hlt =>
        refine List.pairwise_cons.2 ⟨?_, ih hall.2⟩
        intro x hx
        rcases mem_insertIncreasing.1 hx with rfl | hx
        . exact hlt
        . exact hall.1 x hx
      . exact h

def insert (name : String) (set : NameSet) : NameSet :=
  ⟨insertIncreasing name set.names, pairwise_insertIncreasing set.increasing⟩

@[simp]
theorem mem_insert {name x : String} {set : NameSet} : x ∈ set.insert name ↔ x = name ∨ x ∈ set :=
  mem_insertIncreasing

def ofList (names : List String) : NameSet :=
  names.foldr insert ∅

@[simp]
theorem mem_ofList {x : String} {names : List String} : x ∈ ofList names ↔ x ∈ names := by
  unfold ofList
  induction names with
  | nil => simp
  | cons name rest ih => simp [ih]

def unionIncreasing : List String → List String → List String
  | [], right => right
  | left, [] => left
  | a :: left, b :: right =>
    if Text.Precedes a b then a :: unionIncreasing left (b :: right)
    else if Text.Precedes b a then b :: unionIncreasing (a :: left) right
    else a :: unionIncreasing left right
termination_by left right => left.length + right.length

theorem mem_unionIncreasing {x : String} {left right : List String} :
    x ∈ unionIncreasing left right ↔ x ∈ left ∨ x ∈ right := by
  fun_induction unionIncreasing left right with
  | case1 => simp
  | case2 => simp
  | case3 a left b right h ih => simp [ih, or_assoc]
  | case4 a left b right h h' ih => simp only [List.mem_cons, ih]; grind
  | case5 a left b right h h' ih =>
    have := Text.Precedes.eq_of_not h h'
    subst this
    simp only [List.mem_cons, ih]; grind

theorem pairwise_unionIncreasing {left right : List String} (hleft : left.Pairwise Text.Precedes)
    (hright : right.Pairwise Text.Precedes) :
    (unionIncreasing left right).Pairwise Text.Precedes := by
  fun_induction unionIncreasing left right with
  | case1 => exact hright
  | case2 => exact hleft
  | case3 a left b right h ih =>
    have hl := List.pairwise_cons.1 hleft
    have hr := List.pairwise_cons.1 hright
    refine List.pairwise_cons.2 ⟨?_, ih hl.2 hright⟩
    intro x hx
    rcases mem_unionIncreasing.1 hx with hx | hx
    -- The head of the left list is below the one of the right list, so below all of it.
    . exact hl.1 x hx
    . rcases List.mem_cons.1 hx with rfl | hx
      . exact h
      . exact Text.Precedes.trans h (hr.1 x hx)
  | case4 a left b right _ h ih =>
    have hl := List.pairwise_cons.1 hleft
    have hr := List.pairwise_cons.1 hright
    refine List.pairwise_cons.2 ⟨?_, ih hleft hr.2⟩
    intro x hx
    rcases mem_unionIncreasing.1 hx with hx | hx
    . rcases List.mem_cons.1 hx with rfl | hx
      . exact h
      . exact Text.Precedes.trans h (hl.1 x hx)
    . exact hr.1 x hx
  | case5 a left b right h h' ih =>
    have := Text.Precedes.eq_of_not h h'
    subst this
    have hl := List.pairwise_cons.1 hleft
    have hr := List.pairwise_cons.1 hright
    refine List.pairwise_cons.2 ⟨?_, ih hl.2 hr.2⟩
    intro x hx
    rcases mem_unionIncreasing.1 hx with hx | hx
    . exact hl.1 x hx
    . exact hr.1 x hx

def union (left right : NameSet) : NameSet :=
  ⟨unionIncreasing left.names right.names,
    pairwise_unionIncreasing left.increasing right.increasing⟩

instance : Union NameSet := ⟨union⟩

@[simp]
theorem mem_union {x : String} {left right : NameSet} : x ∈ left ∪ right ↔ x ∈ left ∨ x ∈ right :=
  mem_unionIncreasing

def dropBelow (name : String) : List String → List String
  | [] => []
  | other :: rest => if Text.Precedes other name then dropBelow name rest else other :: rest

theorem mem_dropBelow {name x : String} {names : List String} (h : names.Pairwise Text.Precedes) :
    x ∈ dropBelow name names ↔ x ∈ names ∧ ¬ Text.Precedes x name := by
  induction names with
  | nil => simp [dropBelow]
  | cons other rest ih =>
    have hall := List.pairwise_cons.1 h
    unfold dropBelow
    split
    . rw [ih hall.2, List.mem_cons]
      grind
    . next hge =>
      -- From here on all names are even greater, so nothing else is dropped.
      have hrest : ∀ y ∈ rest, ¬ Text.Precedes y name := fun y hy hlt =>
        hge (Text.Precedes.trans (hall.1 y hy) hlt)
      rw [List.mem_cons]
      grind

theorem pairwise_dropBelow {name : String} {names : List String}
    (h : names.Pairwise Text.Precedes) :
    (dropBelow name names).Pairwise Text.Precedes := by
  induction names with
  | nil => simp [dropBelow]
  | cons other rest ih =>
    have hall := List.pairwise_cons.1 h
    unfold dropBelow
    split
    . exact ih hall.2
    . exact h

def selectIncreasing (keep : Bool → Bool) : List String → List String → List String
  | [], _ => []
  | name :: rest, others =>
    let others := dropBelow name others
    let shared := others.head? == some name
    if keep shared then name :: selectIncreasing keep rest others
    else selectIncreasing keep rest others

theorem head?_dropBelow_eq_some_iff {name : String} {names : List String}
    (h : names.Pairwise Text.Precedes) :
    (dropBelow name names).head? = some name ↔ name ∈ names := by
  have hmem : name ∈ dropBelow name names ↔ name ∈ names := by
    simp [mem_dropBelow h, Text.Precedes.irrefl]
  constructor
  . intro hhead
    exact hmem.1 (List.mem_of_head? hhead)
  . intro hin
    have hin' := hmem.2 hin
    have hpair := @pairwise_dropBelow name _ h
    have hbelow : ∀ y ∈ dropBelow name names, ¬ Text.Precedes y name :=
      fun y hy => ((mem_dropBelow h).1 hy).2
    generalize dropBelow name names = kept at *
    cases kept with
    | nil => cases hin'
    | cons first rest =>
      rcases List.mem_cons.1 hin' with rfl | hrest
      . rfl
      . exact absurd ((List.pairwise_cons.1 hpair).1 name hrest) (hbelow first (by simp))

theorem mem_selectIncreasing {keep : Bool → Bool} {x : String} {names others : List String}
    (hnames : names.Pairwise Text.Precedes) (hothers : others.Pairwise Text.Precedes) :
    x ∈ selectIncreasing keep names others ↔ x ∈ names ∧ keep (decide (x ∈ others)) = true := by
  induction names generalizing others with
  | nil => simp [selectIncreasing]
  | cons name rest ih =>
    have hall := List.pairwise_cons.1 hnames
    have hdrop := @pairwise_dropBelow name _ hothers
    -- The head tells about all of the list, which has only names from `name` on.
    have hshared : ((dropBelow name others).head? == some name) = decide (name ∈ others) := by
      rw [Bool.eq_iff_iff]
      simp [head?_dropBelow_eq_some_iff hothers]
    have hrest : x ∈ rest → (x ∈ dropBelow name others ↔ x ∈ others) := fun hx => by
      rw [mem_dropBelow hothers]
      exact ⟨fun h => h.1,
        fun h => ⟨h, fun hlt => Text.Precedes.irrefl _ (Text.Precedes.trans hlt (hall.1 x hx))⟩⟩
    simp only [selectIncreasing, hshared]
    split
    . next hkeep =>
      simp only [List.mem_cons, ih hall.2 hdrop]
      constructor
      . rintro (rfl | ⟨hx, hk⟩)
        . exact ⟨.inl rfl, hkeep⟩
        . exact ⟨.inr hx, by simpa [hrest hx] using hk⟩
      . rintro ⟨rfl | hx, hk⟩
        . exact .inl rfl
        . exact .inr ⟨hx, by simpa [hrest hx] using hk⟩
    . next hkeep =>
      simp only [List.mem_cons, ih hall.2 hdrop]
      constructor
      . rintro ⟨hx, hk⟩
        exact ⟨.inr hx, by simpa [hrest hx] using hk⟩
      . rintro ⟨rfl | hx, hk⟩
        . exact absurd hk hkeep
        . exact ⟨hx, by simpa [hrest hx] using hk⟩

theorem selectIncreasing_sublist {keep : Bool → Bool} {names others : List String} :
    (selectIncreasing keep names others).Sublist names := by
  induction names generalizing others with
  | nil => simp [selectIncreasing]
  | cons name rest ih =>
    simp only [selectIncreasing]
    split
    . exact ih.cons_cons name
    . exact ih.cons name

def inter (left right : NameSet) : NameSet :=
  ⟨selectIncreasing id left.names right.names, left.increasing.sublist selectIncreasing_sublist⟩

instance : Inter NameSet := ⟨inter⟩

@[simp]
theorem mem_inter {x : String} {left right : NameSet} : x ∈ left ∩ right ↔ x ∈ left ∧ x ∈ right :=
  (mem_selectIncreasing left.increasing right.increasing).trans (by simp [mem_iff])

def diff (left right : NameSet) : NameSet :=
  ⟨selectIncreasing not left.names right.names, left.increasing.sublist selectIncreasing_sublist⟩

instance : SDiff NameSet := ⟨diff⟩

@[simp]
theorem mem_sdiff {x : String} {left right : NameSet} : x ∈ left \ right ↔ x ∈ left ∧ x ∉ right :=
  (mem_selectIncreasing left.increasing right.increasing).trans (by simp [mem_iff])

@[ext]
theorem ext {left right : NameSet} (h : ∀ name, name ∈ left ↔ name ∈ right) : left = right := by
  obtain ⟨ls, hl⟩ := left
  obtain ⟨rs, hr⟩ := right
  have h : ∀ name, name ∈ ls ↔ name ∈ rs := h
  have : ls = rs := by
    induction ls generalizing rs with
    | nil =>
      cases rs with
      | nil => rfl
      | cons b rs => exact absurd ((h b).2 (by simp)) (by simp)
    | cons a ls ih =>
      cases rs with
      | nil => exact absurd ((h a).1 (by simp)) (by simp)
      | cons b rs =>
        have hla := List.pairwise_cons.1 hl
        have hrb := List.pairwise_cons.1 hr
        -- The least names agree, since each of them is in the other set.
        have hab : a = b := by
          rcases List.mem_cons.1 ((h a).1 (by simp)) with hab | ha
          . exact hab
          . rcases List.mem_cons.1 ((h b).2 (by simp)) with hba | hb
            . exact hba.symm
            . exact absurd (hla.1 b hb) (Text.Precedes.asymm (hrb.1 a ha))
        subst hab
        have hrest : ∀ name, name ∈ ls ↔ name ∈ rs := by
          intro name
          have := h name
          simp only [List.mem_cons] at this
          constructor
          . intro hn
            rcases this.1 (.inr hn) with rfl | hn'
            . exact absurd (hla.1 _ hn) (Text.Precedes.irrefl _)
            . exact hn'
          . intro hn
            rcases this.2 (.inr hn) with rfl | hn'
            . exact absurd (hrb.1 _ hn) (Text.Precedes.irrefl _)
            . exact hn'
        rw [ih hla.2 rs hrb.2 hrest hrest]
  subst this
  rfl

end NameSet

end ArtifactAudit
