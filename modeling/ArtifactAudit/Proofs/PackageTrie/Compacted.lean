import ArtifactAudit.Proofs.PackageTrie.Place

/-!
This module contains the tries in which nothing is left to compact, told without compaction: every
package whose labels are all the same is nothing but a pattern. Compaction gives such a trie, and it
leaves such a trie as it is.
-/

namespace ArtifactAudit
namespace PackageTrie

variable {α : Type}

def Uniform (ls : List α) (label : α) : Prop :=
  label ∈ ls ∧ ∀ l ∈ ls, l = label

/--
Whether no package of a trie can be written with fewer patterns, as far as its classes have the same
label. Classes that are called like a wildcard count as any others.
-/
inductive Compacted : PackageTrie α → Prop where
  | subtree (label : α) : Compacted (.node [(subtreeWildcard, label)] [])
  | package {label : α} {packages : List (String × PackageTrie α)}
    (mixed : ∀ l, ¬ Uniform (labels (.node [(packageWildcard, label)] packages)) l)
    (inner : ∀ entry ∈ packages, Compacted entry.2)
    : Compacted (.node [(packageWildcard, label)] packages)
  | mixed {classes : List (String × α)} {packages : List (String × PackageTrie α)}
    (mixed : ∀ l, ¬ Uniform (labels (.node classes packages)) l)
    (mixed_classes : ∀ l, ¬ Uniform (classes.map Prod.snd) l)
    (inner : ∀ entry ∈ packages, Compacted entry.2)
    : Compacted (.node classes packages)

theorem uniform_singleton (label : α) : Uniform [label] label :=
  ⟨List.mem_singleton_self label, fun _ => List.mem_singleton.1⟩

theorem uniform_append_iff {part rest : List α} {label l : α} (h : Uniform part label)
    : Uniform (part ++ rest) l ↔ Uniform (label :: rest) l := by
  have hpart : (∀ x ∈ part, x = l) ↔ label = l := by
    constructor
    . exact fun hall => hall label h.1
    . rintro rfl
      exact h.2
  rw [Uniform, Uniform, List.forall_mem_append, List.forall_mem_cons, hpart]
  apply and_congr_left
  rintro ⟨rfl, _⟩
  exact iff_of_true (List.mem_append_left rest h.1) List.mem_cons_self

variable [DecidableEq α]

theorem single?_eq_none_iff {ls : List α} : single? ls = none ↔ ∀ l, ¬ Uniform ls l := by
  rw [Option.eq_none_iff_forall_ne_some]
  exact forall_congr' fun l => not_congr single?_eq_some_iff

theorem compacted_collapse {classes : List (String × α)} {packages : List (String × PackageTrie α)}
    (h : ∀ entry ∈ packages, Compacted entry.2)
    : Compacted (collapse classes packages) := by
  rw [collapse]
  cases hall : single? (labels (.node classes packages)) with
  | some label => exact .subtree label
  | none =>
    have hmixed := single?_eq_none_iff.1 hall
    cases hclasses : single? (classes.map Prod.snd) with
    | some label =>
      refine .package ?_ h
      intro l hl
      -- With one class for all of them the package has the same labels as before.
      rw [labels] at hmixed hl
      exact hmixed l ((uniform_append_iff (single?_eq_some_iff.1 hclasses)).2 hl)
    | none => exact .mixed hmixed (single?_eq_none_iff.1 hclasses) h

mutual

theorem compacted_compact : ∀ trie : PackageTrie α, Compacted trie.compact
  | .node classes packages => by
    rw [compact]
    exact compacted_collapse (compacted_compactAll packages)

theorem compacted_compactAll
    : ∀ packages : List (String × PackageTrie α), ∀ entry ∈ compactAll packages, Compacted entry.2
  | [] => by simp [compactAll]
  | (segment, package) :: rest => by
    rw [compactAll, List.forall_mem_cons]
    exact ⟨compacted_compact package, compacted_compactAll rest⟩

end

theorem compactAll_eq_self {packages : List (String × PackageTrie α)}
    (h : ∀ entry ∈ packages, compact entry.2 = entry.2)
    : compactAll packages = packages := by
  have heq : packages.map (fun entry => (entry.1, compact entry.2)) = packages.map id :=
    List.map_congr_left fun entry hentry => by rw [h entry hentry, id_eq]
  rw [compactAll_eq_map, heq, List.map_id]

theorem Compacted.compact_eq_self {trie : PackageTrie α} (h : Compacted trie)
    : trie.compact = trie := by
  induction h with
  | subtree label =>
    have hall : single? (labels (.node [(subtreeWildcard, label)] [])) = some label :=
      single?_eq_some_iff.2 (uniform_singleton label)
    rw [compact, compactAll, collapse, hall]
  | @package label packages hmixed _ ih =>
    have hclasses : single? [label] = some label := single?_eq_some_iff.2 (uniform_singleton label)
    rw [compact, compactAll_eq_self ih, collapse_of_mixed (single?_eq_none_iff.2 hmixed),
      compactClasses]
    dsimp only [List.map]
    rw [hclasses]
  | mixed hmixed hclasses _ ih =>
    rw [compact, compactAll_eq_self ih, collapse_of_mixed (single?_eq_none_iff.2 hmixed),
      compactClasses, single?_eq_none_iff.2 hclasses]

/--
Compaction has nothing to do in a compacted trie, whatever the classes and packages of the trie are
called.
-/
theorem compact_compact (trie : PackageTrie α) : trie.compact.compact = trie.compact :=
  (compacted_compact trie).compact_eq_self

end PackageTrie
end ArtifactAudit
