import Mathlib.Data.List.Nodup
import ArtifactAudit.Proofs.PackageTrie.Compaction

/-!
This module contains the theory of the labels of a package trie: insertion, compaction and flattening
bring in no label, so the patterns that some classes are compacted to have no other labels than the
classes.
-/

namespace ArtifactAudit
namespace PackageTrie

variable {α : Type}

theorem mem_labels {classes : List (String × α)} {packages : List (String × PackageTrie α)} {x : α}
    : x ∈ labels (.node classes packages)
        ↔
      x ∈ classes.map Prod.snd ∨ ∃ entry ∈ packages, x ∈ labels entry.2 := by
  rw [labels, labelsOfAll_eq_flatMap, List.mem_append, List.mem_flatMap]

theorem mem_labels_insertAt {name : String} {label x : α} {path : List String}
    : ∀ {trie : PackageTrie α},
        x ∈ labels (trie.insertAt name label path) → x = label ∨ x ∈ labels trie := by
  induction path with
  | nil =>
    intro trie h
    cases trie with
    | node classes packages =>
      rw [insertAt, mem_labels] at h
      rw [mem_labels]
      rcases h with h | h
      . rcases List.mem_map.1 h with ⟨entry, hentry, rfl⟩
        rcases NameMap.mem_insertEntry hentry with rfl | hmem
        . exact .inl rfl
        . exact .inr (.inl (List.mem_map_of_mem hmem))
      . exact .inr (.inr h)
  | cons segment path ih =>
    intro trie h
    cases trie with
    | node classes packages =>
      rw [insertAt, mem_labels] at h
      rw [mem_labels]
      rcases h with h | ⟨entry, hentry, hx⟩
      . exact .inr (.inl h)
      . rcases NameMap.mem_insertEntry hentry with rfl | hmem
        . rcases ih hx with rfl | hx
          . exact .inl rfl
          . cases hlookup : packages.lookup segment with
            | none => simp [hlookup, empty, labels, labelsOfAll] at hx
            | some package =>
              rw [hlookup, Option.getD_some] at hx
              rcases List.lookup_eq_some_iff.1 hlookup with ⟨before, after, heq, _⟩
              exact .inr (.inr ⟨(segment, package), by simp [heq], hx⟩)
        . exact .inr (.inr ⟨entry, hmem, hx⟩)

theorem mem_labels_foldl_insert {entries : List (String × α)} {x : α}
    : ∀ {trie : PackageTrie α},
        x ∈ labels (entries.foldl (fun trie entry => trie.insert entry.1 entry.2) trie)
          →
        x ∈ entries.map Prod.snd ∨ x ∈ labels trie := by
  induction entries with
  | nil => exact .inr
  | cons entry rest ih =>
    intro trie h
    rw [List.map_cons, List.mem_cons]
    rcases ih h with h | h
    . exact .inl (.inr h)
    . rcases mem_labels_insertAt h with rfl | h
      . exact .inl (.inl rfl)
      . exact .inr h

theorem mem_labels_ofList {entries : List (String × α)} {x : α} (h : x ∈ labels (ofList entries))
    : x ∈ entries.map Prod.snd := by
  simpa [empty, labels, labelsOfAll] using mem_labels_foldl_insert h

mutual

theorem map_snd_entriesBelow (name : String)
    : ∀ trie : PackageTrie α, (entriesBelow name trie).map Prod.snd = labels trie
  | .node classes packages => by
    rw [entriesBelow, labels, List.map_append, map_snd_entriesBelowAll name packages]
    simp

theorem map_snd_entriesBelowAll (name : String)
    : ∀ packages : List (String × PackageTrie α),
        (entriesBelowAll name packages).map Prod.snd = labelsOfAll packages
  | [] => rfl
  | (segment, package) :: rest => by
    rw [entriesBelowAll, labelsOfAll, List.map_append, map_snd_entriesBelow _ package,
      map_snd_entriesBelowAll name rest]

end

theorem mem_labels_of_mem_flatten {trie : PackageTrie α} {key : String} {x : α}
    (h : (key, x) ∈ trie.flatten.entries)
    : x ∈ labels trie := by
  rw [NameMap.mem_entries, flatten, NameMap.get?_ofList] at h
  rcases List.lookup_eq_some_iff.1 h with ⟨before, after, heq, _⟩
  have hmem : (key, x) ∈ trie.entriesBelow "" := by
    rw [← List.mem_reverse, heq]
    simp
  rw [← map_snd_entriesBelow ""]
  exact List.mem_map_of_mem hmem

variable [DecidableEq α]

theorem mem_of_single? {ls : List α} {label : α} (h : single? ls = some label)
    : label ∈ ls := by
  cases ls with
  | nil => cases h
  | cons head rest =>
    simp only [single?] at h
    split at h
    . cases h
      simp
    . cases h

theorem mem_labels_collapse {classes : List (String × α)} {packages : List (String × PackageTrie α)}
    {x : α} (h : x ∈ labels (collapse classes packages))
    : x ∈ labels (.node classes packages) := by
  unfold collapse at h
  split at h
  . next label hall =>
    simp only [labels, labelsOfAll, List.map_cons, List.map_nil, List.append_nil,
      List.mem_singleton] at h
    exact h ▸ mem_of_single? hall
  . split at h
    . next label hall =>
      rw [mem_labels] at h ⊢
      rcases h with h | h
      . rw [List.map_singleton, List.mem_singleton] at h
        exact .inl (h ▸ mem_of_single? hall)
      . exact .inr h
    . exact h

mutual

theorem labels_compact_subset : ∀ trie : PackageTrie α, labels trie.compact ⊆ labels trie
  | .node classes packages => by
    intro x h
    rw [compact] at h
    have h := mem_labels_collapse h
    rw [labels, List.mem_append] at h ⊢
    rcases h with h | h
    . exact .inl h
    . exact .inr (labelsOfAll_compactAll_subset packages h)

theorem labelsOfAll_compactAll_subset
    : ∀ packages : List (String × PackageTrie α),
        labelsOfAll (compactAll packages) ⊆ labelsOfAll packages
  | [] => by simp [compactAll]
  | (segment, package) :: rest => by
    intro x h
    rw [compactAll, labelsOfAll, List.mem_append] at h
    rw [labelsOfAll, List.mem_append]
    rcases h with h | h
    . exact .inl (labels_compact_subset package h)
    . exact .inr (labelsOfAll_compactAll_subset rest h)

end

theorem mem_of_mem_compactEntries {entries : List (String × α)} {key : String} {x : α}
    (h : (key, x) ∈ (compactEntries entries).entries)
    : x ∈ entries.map Prod.snd :=
  mem_labels_ofList (labels_compact_subset _ (mem_labels_of_mem_flatten h))

end PackageTrie

namespace UsageMap

open PackageTrie

theorem lookup_compactEntries_of_mem {entries : List (String × NameSet)}
    (hnodup : (entries.map Prod.fst).Nodup)
    (hnames : ∀ entry ∈ entries, Text.startsWith entry.1 "." = false) {className : String}
    {origins : NameSet} (h : (className, origins) ∈ entries)
    : lookup (compactEntries entries) className = some origins := by
  have hreverse : (entries.reverse.map Prod.fst).Nodup := by
    rw [List.map_reverse, List.nodup_reverse]
    exact hnodup
  have hlabel : labelAt (segments className).2 (segments className).1 (ofList entries)
      = some origins := by
    rw [labelAt_ofList, ← NameMap.mem_iff_lookup_of_nodup hreverse, List.mem_reverse]
    exact h
  unfold compactEntries
  rw [lookup_flatten (wellFormed_ofList _).compact (rooted_ofList hnames).compact]
  exact attributedAt_compact hlabel

theorem exists_of_lookup {map : UsageMap} {className : String} {origins : NameSet}
    (h : lookup map className = some origins)
    : ∃ key, (key, origins) ∈ map.entries := by
  unfold lookup at h
  dsimp only at h
  rw [Option.or_eq_some_iff, Option.or_eq_some_iff] at h
  rcases h with h | ⟨_, h | ⟨_, h⟩⟩
  . exact ⟨_, NameMap.mem_entries.2 h⟩
  . exact ⟨_, NameMap.mem_entries.2 h⟩
  . rcases List.exists_of_findSome?_eq_some h with ⟨outer, _, h⟩
    exact ⟨_, NameMap.mem_entries.2 h⟩

end UsageMap
end ArtifactAudit
