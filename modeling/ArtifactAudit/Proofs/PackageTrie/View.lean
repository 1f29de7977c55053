import ArtifactAudit.Proofs.DottedName

/-!
This module contains the view of a package trie as a map from dotted names, which are given by the
path to a package and a simple name, and what insertion does to it.
-/

namespace ArtifactAudit
namespace PackageTrie

variable {α : Type}

def labelAt (name : String) : List String → PackageTrie α → Option α
  | [], .node classes _ => classes.lookup name
  | segment :: path, .node _ packages => (packages.lookup segment).bind (labelAt name path)

@[simp]
theorem labelAt_empty (name : String) (path : List String)
    : labelAt name path (empty : PackageTrie α) = none := by
  cases path <;> rfl

theorem labelAt_insertAt (name x : String) (label : α) (path : List String)
    : ∀ (other : List String) (trie : PackageTrie α),
        labelAt x other (insertAt name label path trie)
          =
        if other = path ∧ x = name then some label else labelAt x other trie := by
  induction path with
  | nil =>
    intro other trie
    cases trie
    cases other with
    | nil => simp [insertAt, labelAt, NameMap.lookup_insertEntry]
    | cons => simp [insertAt, labelAt]
  | cons segment path ih =>
    intro other trie
    cases trie with
    | node classes packages =>
      cases other with
      | nil => simp [insertAt, labelAt]
      | cons head other =>
        simp only [insertAt, labelAt, NameMap.lookup_insertEntry]
        by_cases h : head = segment
        . subst h
          simp only [↓reduceIte, Option.bind_some, ih, List.cons.injEq, true_and]
          cases packages.lookup head <;> simp
        . simp [h]

theorem labelAt_insert (trie : PackageTrie α) (name x : String) (label : α)
    : labelAt (segments x).2 (segments x).1 (trie.insert name label)
        =
      if x = name then some label else labelAt (segments x).2 (segments x).1 trie := by
  have hsame : ((segments x).1 = (segments name).1 ∧ (segments x).2 = (segments name).2)
      ↔ x = name := by
    rw [← Prod.ext_iff]
    apply segments_injective.eq_iff
  simp only [insert, labelAt_insertAt, hsame]

theorem labelAt_foldl_insert (entries : List (String × α)) (x : String)
    : ∀ (trie : PackageTrie α),
        labelAt (segments x).2 (segments x).1
          (entries.foldl (fun trie entry => trie.insert entry.1 entry.2) trie)
          =
        (entries.reverse.lookup x).or (labelAt (segments x).2 (segments x).1 trie) := by
  induction entries with
  | nil => simp
  | cons entry rest ih =>
    intro trie
    rcases entry with ⟨name, label⟩
    rw [List.foldl_cons, ih, labelAt_insert, List.reverse_cons, List.lookup_append,
      Option.or_assoc]
    by_cases h : x = name
    . simp [h]
    . simp [h, List.lookup_cons, beq_false_of_ne h]

theorem labelAt_ofList (entries : List (String × α)) (x : String)
    : labelAt (segments x).2 (segments x).1 (ofList entries) = entries.reverse.lookup x := by
  unfold ofList
  rw [labelAt_foldl_insert]
  simp

/--
A trie that lists all names in increasing order, each of them a segment.
-/
inductive WellFormed : PackageTrie α → Prop where
  | node {classes : List (String × α)} {packages : List (String × PackageTrie α)}
    (classesIncreasing : (classes.map Prod.fst).Pairwise Text.Precedes)
    (packagesIncreasing : (packages.map Prod.fst).Pairwise Text.Precedes)
    (classesSegments : ∀ entry ∈ classes, IsSegment entry.1)
    (packagesSegments : ∀ entry ∈ packages, IsSegment entry.1)
    (inner : ∀ entry ∈ packages, WellFormed entry.2)
    : WellFormed (.node classes packages)

theorem wellFormed_empty : WellFormed (empty : PackageTrie α) := by
  apply WellFormed.node <;> simp

theorem WellFormed.insertAt {name : String} {label : α} {path : List String}
    (hpath : ∀ segment ∈ path, IsSegment segment) (hname : IsSegment name)
    : ∀ {trie : PackageTrie α}, WellFormed trie → WellFormed (trie.insertAt name label path) := by
  induction path with
  | nil =>
    intro trie h
    cases h with
    | node hclasses hpackages hnames hsegments hinner =>
      apply WellFormed.node
      . rw [NameMap.map_fst_insertEntry]
        apply NameSet.pairwise_insertIncreasing hclasses
      . exact hpackages
      . intro entry hentry
        cases NameMap.mem_insertEntry hentry with
        | inl heq => exact heq ▸ hname
        | inr hmem => exact hnames entry hmem
      . exact hsegments
      . exact hinner
  | cons segment path ih =>
    intro trie h
    cases h with
    | node hclasses hpackages hnames hsegments hinner =>
      rename_i classes packages
      -- The package is one of the trie, or it is new and has no classes yet.
      have hpackage : WellFormed ((packages.lookup segment).getD empty) := by
        cases hlookup : packages.lookup segment with
        | none => exact wellFormed_empty
        | some package =>
          rw [← NameMap.mem_iff_lookup hpackages] at hlookup
          exact hinner _ hlookup
      apply WellFormed.node
      . exact hclasses
      . rw [NameMap.map_fst_insertEntry]
        apply NameSet.pairwise_insertIncreasing hpackages
      . exact hnames
      . intro entry hentry
        cases NameMap.mem_insertEntry hentry with
        | inl heq => exact heq ▸ hpath segment (by simp)
        | inr hmem => exact hsegments entry hmem
      . intro entry hentry
        cases NameMap.mem_insertEntry hentry with
        | inl heq =>
          subst heq
          apply ih _ hpackage
          intro other hother
          exact hpath other (by simp [hother])
        | inr hmem => exact hinner entry hmem

theorem WellFormed.insert {trie : PackageTrie α} (h : WellFormed trie) (name : String) (label : α)
    : WellFormed (trie.insert name label) := by
  apply WellFormed.insertAt _ _ h
  . apply isSegment_path
  . apply isSegment_simpleName

theorem wellFormed_foldl_insert (entries : List (String × α))
    : ∀ {trie : PackageTrie α},
        WellFormed trie
          →
        WellFormed (entries.foldl (fun trie entry => trie.insert entry.1 entry.2) trie) := by
  induction entries with
  | nil => exact id
  | cons entry rest ih =>
    intro trie h
    apply ih
    apply h.insert

theorem wellFormed_ofList (entries : List (String × α)) : WellFormed (ofList entries) := by
  apply wellFormed_foldl_insert
  apply wellFormed_empty

end PackageTrie
end ArtifactAudit
