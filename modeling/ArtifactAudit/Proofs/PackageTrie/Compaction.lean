import Mathlib.Data.List.Basic
import ArtifactAudit.Proofs.PackageTrie.Flatten

/-!
This module contains the proof that the compaction of a package trie keeps all labels: a class is
found in the compacted trie under its own name, under the pattern for its package, or under the one
for the innermost package around it that is labelled as a whole.
-/

namespace ArtifactAudit
namespace PackageTrie

open UsageMap

variable {α : Type}

theorem labelsOfAll_eq_flatMap (packages : List (String × PackageTrie α))
    : labelsOfAll packages = packages.flatMap fun entry => labels entry.2 := by
  induction packages with
  | nil => simp [labelsOfAll]
  | cons entry rest ih => simp [labelsOfAll, ih]

theorem mem_labels_of_labelAt {name : String} {label : α} {path : List String}
    : ∀ {trie : PackageTrie α}, labelAt name path trie = some label → label ∈ labels trie := by
  induction path with
  | nil =>
    intro trie h
    cases trie with
    | node classes packages =>
      rcases List.lookup_eq_some_iff.1 h with ⟨before, after, heq, _⟩
      simp [labels, heq]
  | cons segment path ih =>
    intro trie h
    cases trie with
    | node classes packages =>
      rcases Option.bind_eq_some_iff.1 h with ⟨package, hpackage, hlabel⟩
      rcases List.lookup_eq_some_iff.1 hpackage with ⟨before, after, heq, _⟩
      rw [labels, labelsOfAll_eq_flatMap, heq]
      simp [ih hlabel]

/--
The label that a trie has for the member of a package: under the member's own name, under the
pattern for the package, or under the pattern for everything below a package around it.
-/
def attributedAt (name : String) (path : List String) (trie : PackageTrie α) : Option α :=
  (labelAt name path trie).or <|
    (labelAt packageWildcard path trie).or <|
      (enclosing path).findSome? fun outer => labelAt subtreeWildcard outer trie

theorem mem_labels_of_attributedAt {name : String} {label : α} {path : List String}
    {trie : PackageTrie α} (h : attributedAt name path trie = some label)
    : label ∈ labels trie := by
  unfold attributedAt at h
  rw [Option.or_eq_some_iff, Option.or_eq_some_iff] at h
  rcases h with h | ⟨_, h | ⟨_, h⟩⟩
  . exact mem_labels_of_labelAt h
  . exact mem_labels_of_labelAt h
  . rcases List.exists_of_findSome?_eq_some h with ⟨outer, _, h⟩
    exact mem_labels_of_labelAt h

theorem enclosing_cons (segment : String) (path : List String)
    : enclosing (segment :: path) = (enclosing path).map (segment :: ·) ++ [[]] := by
  unfold enclosing
  rw [List.length_cons, List.range_succ_eq_map]
  simp [List.map_reverse, Function.comp_def]

theorem attributedAt_cons (name segment : String) (path : List String)
    (classes : List (String × α)) (packages : List (String × PackageTrie α))
    : attributedAt name (segment :: path) (.node classes packages)
        =
      ((packages.lookup segment).bind (attributedAt name path)).or
        (classes.lookup subtreeWildcard) := by
  unfold attributedAt
  rw [enclosing_cons, List.findSome?_append, List.findSome?_map]
  simp only [labelAt, Function.comp_def]
  cases packages.lookup segment with
  | none =>
    have hnone : (enclosing path).findSome? (fun _ => (none : Option α)) = none := by simp
    simp [labelAt, hnone]
  | some package => simp [labelAt, Option.or_assoc]

theorem attributedAt_subtreeWildcard (name : String) (path : List String) (label : α)
    : attributedAt name path (.node [(subtreeWildcard, label)] []) = some label := by
  cases path with
  | nil =>
    have hpackage : packageWildcard ≠ subtreeWildcard := by decide
    by_cases h : name = subtreeWildcard
    . simp [attributedAt, labelAt, h]
    . simp [attributedAt, labelAt, enclosing, List.lookup_cons, beq_false_of_ne h,
        beq_false_of_ne hpackage]
  | cons segment path => simp [attributedAt_cons]

variable [DecidableEq α]

theorem eq_of_single? {ls : List α} {label : α} (h : single? ls = some label)
    : ∀ l ∈ ls, l = label := by
  cases ls with
  | nil => simp
  | cons head rest =>
    simp only [single?] at h
    split at h
    . next hall =>
      cases h
      simpa using hall
    . cases h

theorem compactAll_eq_map (packages : List (String × PackageTrie α))
    : compactAll packages = packages.map fun entry => (entry.1, compact entry.2) := by
  induction packages with
  | nil => simp [compactAll]
  | cons entry rest ih => simp [compactAll, ih]

theorem lookup_compactAll (packages : List (String × PackageTrie α)) (segment : String)
    : (compactAll packages).lookup segment = (packages.lookup segment).map compact := by
  induction packages with
  | nil => simp [compactAll]
  | cons entry rest ih =>
    rcases entry with ⟨other, package⟩
    rw [compactAll, List.lookup_cons, List.lookup_cons, ih]
    cases segment == other <;> rfl

theorem collapse_cases (classes : List (String × α)) (packages : List (String × PackageTrie α))
    : (∃ label, (∀ l ∈ labels (.node classes packages), l = label)
        ∧ collapse classes packages = .node [(subtreeWildcard, label)] [])
        ∨
      (∃ label, (∀ l ∈ classes.map Prod.snd, l = label)
        ∧ collapse classes packages = .node [(packageWildcard, label)] packages)
        ∨
      collapse classes packages = .node classes packages := by
  unfold collapse
  split
  . next label hall => exact .inl ⟨label, eq_of_single? hall, rfl⟩
  . split
    . next label hall => exact .inr (.inl ⟨label, eq_of_single? hall, rfl⟩)
    . exact .inr (.inr rfl)

theorem WellFormed.collapse {classes : List (String × α)} {packages : List (String × PackageTrie α)}
    (h : WellFormed (.node classes packages))
    : WellFormed (PackageTrie.collapse classes packages) := by
  cases h with
  | node hclasses hpackages hnames hsegments hinner =>
    rcases collapse_cases classes packages with ⟨label, _, heq⟩ | ⟨label, _, heq⟩ | heq
    . rw [heq]
      apply WellFormed.node <;> simp [isSegment_subtreeWildcard]
    . rw [heq]
      apply WellFormed.node _ hpackages _ hsegments hinner <;> simp [isSegment_packageWildcard]
    . rw [heq]
      exact .node hclasses hpackages hnames hsegments hinner

theorem WellFormed.compact {trie : PackageTrie α} (h : WellFormed trie)
    : WellFormed trie.compact := by
  induction h with
  | node hclasses hpackages hnames hsegments _ ih =>
    apply WellFormed.collapse
    rw [compactAll_eq_map]
    apply WellFormed.node hclasses _ hnames
    . rw [List.forall_mem_map]
      exact hsegments
    . rw [List.forall_mem_map]
      exact ih
    . simpa [List.map_map, Function.comp_def] using hpackages

theorem Rooted.compact {trie : PackageTrie α} (h : Rooted trie) : Rooted trie.compact := by
  cases trie with
  | node classes packages =>
    have hsegments : "" ∉ (compactAll packages).map Prod.fst := by
      rw [compactAll_eq_map, List.map_map]
      exact h
    rw [PackageTrie.compact]
    rcases collapse_cases classes (compactAll packages) with ⟨label, _, heq⟩ | ⟨label, _, heq⟩ | heq
    . simp [heq, Rooted, PackageTrie.packages]
    . rwa [heq]
    . rwa [heq]

/--
Compaction keeps the label of every class, whatever stands for the class afterwards.
-/
theorem attributedAt_compact {name : String} {label : α} {path : List String}
    : ∀ {trie : PackageTrie α},
        labelAt name path trie = some label
          →
        attributedAt name path trie.compact = some label := by
  induction path with
  | nil =>
    intro trie h
    cases trie with
    | node classes packages =>
      rcases List.lookup_eq_some_iff.1 h with ⟨before, after, hclasses, _⟩
      rw [compact]
      rcases collapse_cases classes (compactAll packages) with
        ⟨other, hall, heq⟩ | ⟨other, hall, heq⟩ | heq
      . rw [heq, attributedAt_subtreeWildcard, hall label (by simp [labels, hclasses])]
      . rw [heq, hall label (by simp [hclasses])]
        by_cases hname : name = packageWildcard
        . simp [attributedAt, labelAt, hname]
        . simp [attributedAt, labelAt, List.lookup_cons, beq_false_of_ne hname]
      . rw [heq, attributedAt]
        simp only [labelAt] at h ⊢
        rw [h, Option.some_or]
  | cons segment path ih =>
    intro trie h
    cases trie with
    | node classes packages =>
      rcases Option.bind_eq_some_iff.1 h with ⟨package, hpackage, hlabel⟩
      have hattributed := ih hlabel
      have hcompact : (compactAll packages).lookup segment = some package.compact := by
        rw [lookup_compactAll, hpackage, Option.map_some]
      rw [compact]
      rcases collapse_cases classes (compactAll packages) with
        ⟨other, hall, heq⟩ | ⟨other, _, heq⟩ | heq
      . -- The label is still one of the package when all below the one around it collapses.
        have hmem : label ∈ labels (.node classes (compactAll packages)) := by
          rcases List.lookup_eq_some_iff.1 hcompact with ⟨before, after, hsplit, _⟩
          rw [labels, labelsOfAll_eq_flatMap, hsplit]
          simp [mem_labels_of_attributedAt hattributed]
        rw [heq, attributedAt_subtreeWildcard, hall label hmem]
      . rw [heq, attributedAt_cons, hcompact, Option.bind_some, hattributed, Option.some_or]
      . rw [heq, attributedAt_cons, hcompact, Option.bind_some, hattributed, Option.some_or]

end PackageTrie

namespace UsageMap

open PackageTrie

theorem lookup_flatten {trie : PackageTrie NameSet} (hwf : WellFormed trie) (hroot : Rooted trie)
    (className : String)
    : lookup trie.flatten className
        =
      attributedAt (segments className).2 (segments className).1 trie := by
  have hpattern : ∀ path, (∀ segment ∈ path, IsSegment segment) → ∀ wildcard, IsSegment wildcard →
      trie.flatten.get? (pattern path wildcard) = labelAt wildcard path trie := by
    intro path hpath wildcard hwildcard
    rw [get?_flatten hwf hroot, segments_pattern hpath hwildcard]
  have henclosing : ∀ outer ∈ enclosing (segments className).1,
      trie.flatten.get? (pattern outer subtreeWildcard) = labelAt subtreeWildcard outer trie := by
    intro outer houter
    simp only [enclosing, List.mem_map] at houter
    rcases houter with ⟨n, _, rfl⟩
    apply hpattern _ _ _ isSegment_subtreeWildcard
    intro segment hsegment
    exact isSegment_path className segment (List.mem_of_mem_take hsegment)
  unfold attributedAt
  simp only [lookup]
  rw [get?_flatten hwf hroot, hpattern _ (isSegment_path className) _ isSegment_packageWildcard]
  rw [← List.head?_filterMap, List.filterMap_congr henclosing, List.head?_filterMap]

/--
The patterns that a map of classes is compacted to attribute each class to the same artifacts as the
map does, also where a class or a package is called like a wildcard.
-/
theorem lookup_compactEntries (map : UsageMap)
    (hnames : ∀ name ∈ map.keys, Text.startsWith name "." = false)
    : ∀ (className : String) (origins : NameSet),
        map.get? className = some origins
          →
        lookup (compactEntries map.entries) className = some origins := by
  intro className origins h
  have hentries : ∀ entry ∈ map.entries, Text.startsWith entry.1 "." = false := by
    intro entry hentry
    exact hnames _ (List.mem_map_of_mem hentry)
  have hlabel : labelAt (segments className).2 (segments className).1 (ofList map.entries)
      = some origins := by
    rw [labelAt_ofList, NameMap.lookup_reverse map.increasing]
    exact h
  unfold compactEntries
  rw [lookup_flatten (wellFormed_ofList _).compact (rooted_ofList hentries).compact]
  exact attributedAt_compact hlabel

theorem lookup_compactEntries_literalWildcard :
    let map : UsageMap := .ofList [("a.*", .ofList ["x"]), ("a.B", .ofList ["y"]),
      ("a.c.**", .ofList ["z"]), ("a.c.D", .ofList ["z"])]
    lookup (compactEntries map.entries) "a.*" = some (.ofList ["x"])
      ∧ lookup (compactEntries map.entries) "a.B" = some (.ofList ["y"])
      ∧ lookup (compactEntries map.entries) "a.c.D" = some (.ofList ["z"]) := by
  intro map
  have hnames : ∀ name ∈ map.keys, Text.startsWith name "." = false := by decide +kernel
  exact ⟨lookup_compactEntries map hnames "a.*" _ (by decide +kernel),
    lookup_compactEntries map hnames "a.B" _ (by decide +kernel),
    lookup_compactEntries map hnames "a.c.D" _ (by decide +kernel)⟩

end UsageMap
end ArtifactAudit
