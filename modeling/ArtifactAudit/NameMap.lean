import ArtifactAudit.NameSet

/-!
This module contains finite maps from names. A map is kept as the list of its entries by increasing
name.
-/

namespace ArtifactAudit

structure NameMap (α : Type) where
  entries : List (String × α)
  /-- No name has two entries, and the order is the one of code points. -/
  increasing : (entries.map Prod.fst).Pairwise Text.Precedes

namespace NameMap

variable {α β : Type}

instance [DecidableEq α] : DecidableEq (NameMap α) := fun left right =>
  if h : left.entries = right.entries then
    .isTrue (by cases left; cases right; simp_all)
  else
    .isFalse (fun heq => h (congrArg entries heq))

def empty : NameMap α := ⟨[], .nil⟩

instance : EmptyCollection (NameMap α) := ⟨empty⟩

instance : Inhabited (NameMap α) := ⟨empty⟩

def size (map : NameMap α) : Nat := map.entries.length

def keys (map : NameMap α) : List String := map.entries.map Prod.fst

def get? (map : NameMap α) (name : String) : Option α := map.entries.lookup name

@[simp]
theorem get?_empty (name : String) : (∅ : NameMap α).get? name = none := rfl

def insertEntry (name : String) (value : α) : List (String × α) → List (String × α)
  | [] => [(name, value)]
  | (other, old) :: rest =>
    if Text.Precedes name other then (name, value) :: (other, old) :: rest
    else if Text.Precedes other name then (other, old) :: insertEntry name value rest
    else (name, value) :: rest

theorem map_fst_insertEntry {name : String} {value : α} {entries : List (String × α)} :
    (insertEntry name value entries).map Prod.fst =
      NameSet.insertIncreasing name (entries.map Prod.fst) := by
  induction entries with
  | nil => rfl
  | cons entry rest ih =>
    obtain ⟨other, old⟩ := entry
    simp only [insertEntry, NameSet.insertIncreasing, List.map_cons]
    split
    . rfl
    . split
      . simp [ih]
      . next h h' => simp [Text.Precedes.eq_of_not h h']

theorem lookup_insertEntry {name x : String} {value : α} {entries : List (String × α)} :
    (insertEntry name value entries).lookup x =
      if x = name then some value else entries.lookup x := by
  -- The equality of texts that `lookup` compares with is the one of the logic.
  have hbeq (a b : String) : (a == b) = decide (a = b) := by rw [Bool.eq_iff_iff]; simp
  induction entries with
  | nil => by_cases h : x = name <;> simp [insertEntry, h, List.lookup_cons, hbeq]
  | cons entry rest ih =>
    obtain ⟨other, old⟩ := entry
    simp only [insertEntry]
    split
    . by_cases h : x = name <;> simp [List.lookup_cons, h, hbeq]
    . split
      . next h h' =>
        have hne : name ≠ other := fun heq => Text.Precedes.irrefl _ (heq ▸ h')
        by_cases hx : x = name
        . subst hx
          simp [List.lookup_cons, ih, hne, hbeq]
        . simp [List.lookup_cons, ih, hx]
      . next h h' =>
        have := Text.Precedes.eq_of_not h h'
        subst this
        by_cases hx : x = name <;> simp [List.lookup_cons, hx, hbeq]

theorem mem_insertEntry {name : String} {value : α} {entry : String × α}
    {entries : List (String × α)} (h : entry ∈ insertEntry name value entries) :
    entry = (name, value) ∨ entry ∈ entries := by
  induction entries with
  | nil => simpa [insertEntry] using h
  | cons other rest ih =>
    simp only [insertEntry] at h
    split at h
    . simpa using h
    . split at h
      . obtain rfl | h := List.mem_cons.1 h
        . simp
        . cases ih h <;> simp [*]
      . obtain rfl | h := List.mem_cons.1 h <;> simp [*]

theorem nodup_of_increasing {entries : List (String × α)}
    (h : (entries.map Prod.fst).Pairwise Text.Precedes) : (entries.map Prod.fst).Nodup := by
  refine List.Pairwise.imp ?_ h
  intro left right hlt heq
  exact Text.Precedes.irrefl right (heq ▸ hlt)

theorem mem_iff_lookup_of_nodup {entries : List (String × α)} {name : String} {value : α}
    (h : (entries.map Prod.fst).Nodup) :
    (name, value) ∈ entries ↔ entries.lookup name = some value := by
  induction entries with
  | nil => simp
  | cons entry rest ih =>
    obtain ⟨other, old⟩ := entry
    rw [List.map_cons, List.nodup_cons] at h
    rw [List.mem_cons, List.lookup_cons]
    by_cases hname : name = other
    . subst hname
      have hnot : (name, value) ∉ rest := fun hmem => h.1 (List.mem_map.2 ⟨_, hmem, rfl⟩)
      simp [hnot, eq_comm]
    . have hne : (name, value) ≠ (other, old) := fun heq => hname (congrArg Prod.fst heq)
      simp [hne, beq_false_of_ne hname, ih h.2]

theorem mem_iff_lookup {entries : List (String × α)} {name : String} {value : α}
    (h : (entries.map Prod.fst).Pairwise Text.Precedes) :
    (name, value) ∈ entries ↔ entries.lookup name = some value :=
  mem_iff_lookup_of_nodup (nodup_of_increasing h)

theorem lookup_reverse {entries : List (String × α)} {name : String}
    (h : (entries.map Prod.fst).Pairwise Text.Precedes) :
    entries.reverse.lookup name = entries.lookup name := by
  have hreverse : (entries.reverse.map Prod.fst).Nodup := by
    rw [List.map_reverse, List.Nodup, List.pairwise_reverse]
    exact (nodup_of_increasing h).imp Ne.symm
  ext value
  rw [← mem_iff_lookup_of_nodup hreverse, ← mem_iff_lookup h, List.mem_reverse]

def insert (map : NameMap α) (name : String) (value : α) : NameMap α :=
  ⟨insertEntry name value map.entries, by
    rw [map_fst_insertEntry]
    exact NameSet.pairwise_insertIncreasing map.increasing⟩

theorem get?_insert {map : NameMap α} {name x : String} {value : α} :
    (map.insert name value).get? x = if x = name then some value else map.get? x :=
  lookup_insertEntry

def ofList (entries : List (String × α)) : NameMap α :=
  entries.foldl (fun map entry => map.insert entry.1 entry.2) ∅

theorem get?_foldl_insert {entries : List (String × α)} {map : NameMap α} {name : String} :
    (entries.foldl (fun map entry => map.insert entry.1 entry.2) map).get? name =
      (entries.reverse.lookup name).or (map.get? name) := by
  induction entries generalizing map with
  | nil => simp
  | cons entry rest ih =>
    obtain ⟨other, value⟩ := entry
    rw [List.foldl_cons, ih, get?_insert, List.reverse_cons, List.lookup_append, Option.or_assoc]
    by_cases h : name = other
    . simp [h]
    . simp [h, List.lookup_cons, beq_false_of_ne h]

theorem get?_ofList {entries : List (String × α)} {name : String} :
    (ofList entries).get? name = entries.reverse.lookup name := by
  rw [ofList, get?_foldl_insert, get?_empty, Option.or_none]

theorem mem_entries {map : NameMap α} {name : String} {value : α} :
    (name, value) ∈ map.entries ↔ map.get? name = some value :=
  mem_iff_lookup map.increasing

theorem nodup_entries (map : NameMap α) : map.entries.Nodup :=
  List.Pairwise.of_map Prod.fst (fun _ _ hne heq => hne (congrArg Prod.fst heq))
    (nodup_of_increasing map.increasing)

theorem ext_get? {left right : NameMap α} (h : ∀ name, left.get? name = right.get? name) :
    left = right := by
  have hperm : left.entries.Perm right.entries := by
    rw [List.perm_ext_iff_of_nodup left.nodup_entries right.nodup_entries]
    rintro ⟨name, value⟩
    rw [mem_entries, mem_entries, h]
  have hentries : left.entries = right.entries := by
    refine hperm.eq_of_pairwise ?_ (List.pairwise_map.1 left.increasing)
      (List.pairwise_map.1 right.increasing)
    intro first second _ _ hlt hlt'
    exact absurd hlt' (Text.Precedes.asymm hlt)
  cases left
  cases right
  cases hentries
  rfl

theorem insert_comm (map : NameMap α) {name other : String} (h : name ≠ other) (value more : α) :
    (map.insert name value).insert other more = (map.insert other more).insert name value := by
  apply ext_get?
  intro x
  simp only [get?_insert]
  split
  . next hother => rw [if_neg (hother ▸ h.symm)]
  . rfl

theorem insert_insert (map : NameMap α) (name : String) (value more : α) :
    (map.insert name value).insert name more = map.insert name more := by
  apply ext_get?
  intro x
  simp only [get?_insert]
  split <;> rfl

end NameMap

end ArtifactAudit
