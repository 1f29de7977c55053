import ArtifactAudit.Proofs.PackageTrie.View

/-!
This module contains the theory of flattening a package trie: the map of a trie gives each dotted
name the label that the trie has at the segments of the name.
-/

namespace ArtifactAudit
namespace PackageTrie

open UsageMap

variable {α : Type}

theorem entriesBelowAll_eq_flatMap (name : String) (packages : List (String × PackageTrie α))
    : entriesBelowAll name packages
        =
      packages.flatMap fun entry => entriesBelow (joinName name entry.1) entry.2 := by
  induction packages with
  | nil => simp [entriesBelowAll]
  | cons entry rest ih => simp [entriesBelowAll, ih]

/--
A trie has no package with an empty name outside of all other packages. Below such a package the
names could not be told from those of the root.
-/
def Rooted (trie : PackageTrie α) : Prop := "" ∉ trie.packages.map Prod.fst

theorem Rooted.insert {trie : PackageTrie α} (h : Rooted trie) (label : α) {name : String}
    (hname : Text.startsWith name "." = false)
    : Rooted (trie.insert name label) := by
  cases trie with
  | node classes packages =>
    unfold PackageTrie.insert
    cases hpath : (segments name).1 with
    | nil => simpa [hpath, PackageTrie.insertAt, Rooted, PackageTrie.packages] using h
    | cons segment path =>
      have : segment ≠ "" := by
        intro heq
        subst heq
        simp [startsWith_of_head_segments hpath] at hname
      simp only [hpath, PackageTrie.insertAt, Rooted, PackageTrie.packages,
        NameMap.map_fst_insertEntry, NameSet.mem_insertIncreasing, not_or]
      exact ⟨this.symm, h⟩

theorem rooted_foldl_insert {entries : List (String × α)}
    (hnames : ∀ entry ∈ entries, Text.startsWith entry.1 "." = false)
    : ∀ {trie : PackageTrie α},
        Rooted trie
          →
        Rooted (entries.foldl (fun trie entry => trie.insert entry.1 entry.2) trie) := by
  induction entries with
  | nil => exact id
  | cons entry rest ih =>
    intro trie h
    rw [List.forall_mem_cons] at hnames
    apply ih hnames.2
    exact h.insert entry.2 hnames.1

theorem rooted_ofList {entries : List (String × α)}
    (hnames : ∀ entry ∈ entries, Text.startsWith entry.1 "." = false)
    : Rooted (ofList entries) := by
  apply rooted_foldl_insert hnames
  simp [Rooted, empty, packages]

theorem joinName_joinName {name segment : String} (h : name = "" → segment ≠ "") (member : String)
    : joinName (joinName name segment) member = joinName name (segment ++ "." ++ member) := by
  by_cases hname : name = ""
  . simp [joinName, hname, h hname]
  . simp [joinName, hname, String.append_assoc]

theorem joinName_eq_empty {name segment : String} (h : joinName name segment = "")
    : name = "" ∧ segment = "" := by
  by_cases hname : name = ""
  . simpa [joinName, hname] using h
  . simp [joinName, hname] at h

theorem mem_entriesBelow {trie : PackageTrie α} (hwf : WellFormed trie)
    : ∀ {name : String}, (name = "" → Rooted trie) → ∀ {x : String} {label : α},
        (x, label) ∈ entriesBelow name trie
          ↔
        ∃ path member, labelAt member path trie = some label
          ∧ x = joinName name (pattern path member) := by
  induction hwf with
  | @node classes packages hclasses hpackages _ _ _ ih =>
    intro name hroot x label
    have hsegment : ∀ entry ∈ packages, name = "" → entry.1 ≠ "" := by
      intro entry hentry hname heq
      exact hroot hname (heq ▸ List.mem_map_of_mem hentry)
    have hinner : ∀ entry ∈ packages, joinName name entry.1 = "" → Rooted entry.2 := by
      intro entry hentry hjoin
      rcases joinName_eq_empty hjoin with ⟨hname, heq⟩
      exact absurd heq (hsegment entry hentry hname)
    rw [entriesBelow, List.mem_append, entriesBelowAll_eq_flatMap, List.mem_flatMap]
    constructor
    . intro h
      cases h with
      | inl h =>
        rw [List.mem_map] at h
        rcases h with ⟨⟨member, label⟩, hmem, heq⟩
        cases heq
        refine ⟨[], member, ?_, by rw [pattern_nil]⟩
        exact (NameMap.mem_iff_lookup hclasses).1 hmem
      | inr h =>
        rcases h with ⟨⟨segment, package⟩, hmem, hx⟩
        rw [ih _ hmem (hinner _ hmem)] at hx
        rcases hx with ⟨path, member, hlabel, rfl⟩
        refine ⟨segment :: path, member, ?_, ?_⟩
        . simp [labelAt, (NameMap.mem_iff_lookup hpackages).1 hmem, hlabel]
        . rw [joinName_joinName (hsegment _ hmem), pattern_cons]
    . rintro ⟨path, member, hlabel, rfl⟩
      cases path with
      | nil =>
        rw [pattern_nil]
        exact .inl (List.mem_map.2 ⟨(member, label), (NameMap.mem_iff_lookup hclasses).2 hlabel, rfl⟩)
      | cons segment path =>
        rcases Option.bind_eq_some_iff.1 hlabel with ⟨package, hpackage, hlabel⟩
        have hmem := (NameMap.mem_iff_lookup hpackages).2 hpackage
        refine .inr ⟨(segment, package), hmem, ?_⟩
        rw [ih _ hmem (hinner _ hmem)]
        exact ⟨path, member, hlabel, by rw [joinName_joinName (hsegment _ hmem), pattern_cons]⟩

theorem isSegment_of_labelAt {trie : PackageTrie α} (hwf : WellFormed trie) {member : String}
    {label : α}
    : ∀ {path : List String},
        labelAt member path trie = some label
          →
        (∀ segment ∈ path, IsSegment segment) ∧ IsSegment member := by
  induction hwf with
  | node hclasses hpackages hnames hsegments _ ih =>
    intro path h
    cases path with
    | nil => simpa using hnames _ ((NameMap.mem_iff_lookup hclasses).2 h)
    | cons segment path =>
      rcases Option.bind_eq_some_iff.1 h with ⟨package, hpackage, hlabel⟩
      have hmem := (NameMap.mem_iff_lookup hpackages).2 hpackage
      rcases ih _ hmem hlabel with ⟨hpath, hmember⟩
      exact ⟨List.forall_mem_cons.2 ⟨hsegments _ hmem, hpath⟩, hmember⟩

theorem mem_entriesBelow_root {trie : PackageTrie α} (hwf : WellFormed trie) (hroot : Rooted trie)
    {x : String} {label : α}
    : (x, label) ∈ entriesBelow "" trie
        ↔
      labelAt (segments x).2 (segments x).1 trie = some label := by
  rw [mem_entriesBelow hwf fun _ => hroot]
  constructor
  . rintro ⟨path, member, hlabel, rfl⟩
    rcases isSegment_of_labelAt hwf hlabel with ⟨hpath, hmember⟩
    simpa [joinName, segments_pattern hpath hmember] using hlabel
  . intro h
    exact ⟨_, _, h, by simp [joinName, pattern_segments]⟩

theorem get?_flatten {trie : PackageTrie α} (hwf : WellFormed trie) (hroot : Rooted trie)
    (x : String)
    : trie.flatten.get? x = labelAt (segments x).2 (segments x).1 trie := by
  -- A label of the map is one of the trie, and a label of the trie has an entry in the map.
  have hsound : ∀ label, trie.flatten.get? x = some label
      → labelAt (segments x).2 (segments x).1 trie = some label := by
    intro label h
    rw [flatten, NameMap.get?_ofList] at h
    rcases List.lookup_eq_some_iff.1 h with ⟨before, after, heq, _⟩
    rw [← mem_entriesBelow_root hwf hroot, ← List.mem_reverse, heq]
    simp
  cases hget : trie.flatten.get? x with
  | some label => rw [hsound label hget]
  | none =>
    cases hlabel : labelAt (segments x).2 (segments x).1 trie with
    | none => rfl
    | some label =>
      rw [← mem_entriesBelow_root hwf hroot, ← List.mem_reverse] at hlabel
      rw [flatten, NameMap.get?_ofList, List.lookup_eq_none_iff] at hget
      simpa using hget _ hlabel

end PackageTrie
end ArtifactAudit
