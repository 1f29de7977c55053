import Mathlib.Data.List.Induction
import Mathlib.Data.List.Nodup
import ArtifactAudit.DependencySet

/-!
This module contains the theory of sets of summaries: which members and which coordinates insertion
and closure give, and that no coordinate comes twice.
-/

namespace ArtifactAudit
namespace DependencySet

theorem contains_iff {set : DependencySet} {c : Coordinate}
    : contains set c = true ↔ c ∈ coordinates set := by
  simp [contains, coordinates]

theorem mem_coordinates {set : DependencySet} {c : Coordinate}
    : c ∈ coordinates set ↔ ∃ d ∈ set, d.coordinate = c := by
  simp [coordinates]

theorem mem_names {set : DependencySet} {name : String}
    : name ∈ names set ↔ ∃ d ∈ set, d.coordinate.name = name := by
  simp [names, NameSet.mem_ofList]

theorem mem_insert {set : DependencySet} {summary x : Summary} (h : x ∈ insert set summary)
    : x ∈ set ∨ x = summary := by
  unfold insert at h
  split at h
  . exact .inl h
  . simpa using h

theorem nodup_insert {set : DependencySet} (h : (coordinates set).Nodup) (summary : Summary)
    : (coordinates (insert set summary)).Nodup := by
  unfold insert
  split
  . exact h
  . next hnew =>
    rw [contains_iff] at hnew
    unfold coordinates at *
    rw [List.map_append, List.nodup_append]
    refine ⟨h, by simp, ?_⟩
    intro c hc d hd heq
    rw [List.map_singleton, List.mem_singleton] at hd
    exact hnew (hd ▸ heq ▸ hc)

theorem mem_insertAll {summaries : List Summary} {x : Summary}
    : ∀ {set : DependencySet}, x ∈ insertAll set summaries → x ∈ set ∨ x ∈ summaries := by
  induction summaries with
  | nil => exact fun h => .inl h
  | cons summary rest ih =>
    intro set h
    cases ih h with
    | inl h =>
      cases mem_insert h with
      | inl h => exact .inl h
      | inr h => simp [h]
    | inr h => simp [h]

theorem nodup_insertAll {summaries : List Summary}
    : ∀ {set : DependencySet},
        (coordinates set).Nodup → (coordinates (insertAll set summaries)).Nodup := by
  induction summaries with
  | nil => exact id
  | cons summary rest ih =>
    intro set h
    apply ih
    apply nodup_insert h

theorem coordinates_insert (set : DependencySet) (summary : Summary)
    : coordinates (insert set summary)
        =
      coordinates set
        ++ if summary.coordinate ∈ coordinates set then [] else [summary.coordinate] := by
  unfold insert
  simp only [contains_iff]
  split <;> simp [coordinates]

theorem mem_coordinates_insert {set : DependencySet} {summary : Summary} {c : Coordinate}
    : c ∈ coordinates (insert set summary) ↔ c ∈ coordinates set ∨ c = summary.coordinate := by
  rw [coordinates_insert, List.mem_append]
  split
  . next hold =>
    constructor
    . rintro (h | h)
      . exact .inl h
      . cases h
    . rintro (h | rfl)
      . exact .inl h
      . exact .inl hold
  . simp

theorem mem_coordinates_insertAll {summaries : List Summary} {c : Coordinate}
    : ∀ {set : DependencySet},
        c ∈ coordinates (insertAll set summaries)
          ↔
        c ∈ coordinates set ∨ c ∈ coordinates summaries := by
  induction summaries with
  | nil => simp [insertAll, coordinates]
  | cons summary rest ih =>
    intro set
    have hcons : c ∈ coordinates (summary :: rest)
        ↔ c = summary.coordinate ∨ c ∈ coordinates rest := List.mem_cons
    change c ∈ coordinates (insertAll (insert set summary) rest) ↔ _
    rw [ih, mem_coordinates_insert, hcons, or_assoc]

theorem mem_of_mem_ofList {summaries : List Summary} {x : Summary} (h : x ∈ ofList summaries)
    : x ∈ summaries := by
  simpa using mem_insertAll h

theorem nodup_ofList (summaries : List Summary) : (coordinates (ofList summaries)).Nodup := by
  apply nodup_insertAll
  simp [coordinates]

theorem mem_coordinates_ofList {summaries : List Summary} {c : Coordinate}
    : c ∈ coordinates (ofList summaries) ↔ c ∈ coordinates summaries := by
  rw [ofList, mem_coordinates_insertAll]
  simp [coordinates]

theorem coordinates_ofList (summaries : List Summary)
    : coordinates (ofList summaries) = (coordinates summaries).eraseDups := by
  induction summaries using List.reverseRecOn with
  | nil => rfl
  | append_singleton summaries summary ih =>
    have hlast : ofList (summaries ++ [summary]) = insert (ofList summaries) summary := by
      simp [ofList, insertAll]
    have happend : coordinates (summaries ++ [summary])
        = coordinates summaries ++ [summary.coordinate] := by
      simp [coordinates]
    rw [hlast, happend, coordinates_insert, List.eraseDups_append, ih]
    by_cases h : summary.coordinate ∈ coordinates summaries <;>
      simp [List.removeAll, List.eraseDups_cons, h]

theorem insert_of_mem {set : DependencySet} {summary : Summary}
    (h : summary.coordinate ∈ coordinates set)
    : insert set summary = set := by
  rw [insert, if_pos (contains_iff.2 h)]

theorem insert_of_notMem {set : DependencySet} {summary : Summary}
    (h : summary.coordinate ∉ coordinates set)
    : insert set summary = set ++ [summary] := by
  rw [insert, if_neg (mt contains_iff.1 h)]

theorem insertAll_append (set : DependencySet) (summaries rest : List Summary)
    : insertAll set (summaries ++ rest) = insertAll (insertAll set summaries) rest := by
  apply List.foldl_append

theorem insertAll_concat (set : DependencySet) (summaries : List Summary) (summary : Summary)
    : insertAll set (summaries ++ [summary]) = insert (insertAll set summaries) summary := by
  apply insertAll_append

theorem insertAll_of_subset {summaries : List Summary} {set : DependencySet}
    (h : coordinates summaries ⊆ coordinates set)
    : insertAll set summaries = set := by
  induction summaries with
  | nil => rfl
  | cons summary rest ih =>
    have hcons : summary.coordinate ∈ coordinates set ∧ coordinates rest ⊆ coordinates set := by
      simpa [coordinates] using h
    change insertAll (insert set summary) rest = set
    rw [insert_of_mem hcons.1, ih hcons.2]

theorem exists_insertAll_eq_append (summaries : List Summary)
    : ∀ set : DependencySet, ∃ new ⊆ summaries, insertAll set summaries = set ++ new := by
  induction summaries with
  | nil => exact fun set => ⟨[], by simp, by simp [insertAll]⟩
  | cons summary rest ih =>
    intro set
    change ∃ new ⊆ summary :: rest, insertAll (insert set summary) rest = set ++ new
    rcases ih (insert set summary) with ⟨new, hnew, heq⟩
    rw [heq, insert]
    split
    . exact ⟨new, List.subset_cons_of_subset _ hnew, rfl⟩
    . exact ⟨summary :: new, List.cons_subset_cons _ hnew, by simp⟩

theorem insertAll_ofList (set : DependencySet) (summaries : List Summary)
    : insertAll set (ofList summaries) = insertAll set summaries := by
  induction summaries using List.reverseRecOn with
  | nil => rfl
  | append_singleton summaries summary ih =>
    rw [insertAll_concat, ← ih]
    change insertAll set (insertAll [] (summaries ++ [summary])) = _
    rw [insertAll_concat]
    change insertAll set (insert (ofList summaries) summary) = _
    by_cases h : summary.coordinate ∈ coordinates (ofList summaries)
    . rw [insert_of_mem h, insert_of_mem (mem_coordinates_insertAll.2 (.inr h))]
    . rw [insert_of_notMem h, insertAll_concat]

theorem ofList_of_nodup {summaries : List Summary} (h : (coordinates summaries).Nodup)
    : ofList summaries = summaries := by
  induction summaries using List.reverseRecOn with
  | nil => rfl
  | append_singleton summaries summary ih =>
    rw [coordinates, List.map_append, List.nodup_append] at h
    have hnew : summary.coordinate ∉ coordinates summaries := by
      intro hmem
      exact h.2.2 _ hmem _ (by simp) rfl
    rw [ofList, insertAll_concat]
    change insert (ofList summaries) summary = _
    rw [ih h.1, insert_of_notMem hnew]

def expanded (set : DependencySet) : List Summary :=
  set.flatMap fun d => d :: d.flattened

theorem mem_expanded {set : DependencySet} {x : Summary}
    : x ∈ expanded set ↔ ∃ d ∈ set, x = d ∨ x ∈ d.flattened := by
  simp [expanded]

@[simp]
theorem mem_expanded_singleton {summary x : Summary}
    : x ∈ expanded [summary] ↔ x = summary ∨ x ∈ summary.flattened := by
  simp [mem_expanded]

theorem expanded_subset {part whole : DependencySet} (h : part ⊆ whole)
    : expanded part ⊆ expanded whole := by
  intro x hx
  rcases mem_expanded.1 hx with ⟨d, hd, hx⟩
  exact mem_expanded.2 ⟨d, h hd, hx⟩

theorem closure_eq_ofList (set : DependencySet) : closure set = ofList (expanded set) := by
  unfold closure ofList insertAll expanded
  rw [List.foldl_flatMap]
  rfl

theorem closure_append (set rest : DependencySet)
    : closure (set ++ rest) = insertAll (closure set) (expanded rest) := by
  rw [closure_eq_ofList, closure_eq_ofList, expanded, List.flatMap_append]
  apply insertAll_append

theorem mem_closure {set : DependencySet} {x : Summary} (h : x ∈ closure set)
    : ∃ summary ∈ set, x = summary ∨ x ∈ summary.flattened := by
  rw [closure_eq_ofList] at h
  exact mem_expanded.1 (mem_of_mem_ofList h)

theorem nodup_closure (set : DependencySet) : (coordinates (closure set)).Nodup := by
  rw [closure_eq_ofList]
  apply nodup_ofList

theorem mem_coordinates_closure {set : DependencySet} {c : Coordinate}
    : c ∈ coordinates (closure set)
        ↔
      ∃ d ∈ set, c = d.coordinate ∨ c ∈ coordinates d.flattened := by
  rw [closure_eq_ofList, mem_coordinates_ofList]
  simp only [coordinates, expanded, List.mem_map, List.mem_flatMap, List.mem_cons]
  constructor
  . rintro ⟨x, ⟨d, hd, rfl | hx⟩, rfl⟩
    . exact ⟨x, hd, .inl rfl⟩
    . exact ⟨d, hd, .inr ⟨x, hx, rfl⟩⟩
  . rintro ⟨d, hd, rfl | ⟨x, hx, rfl⟩⟩
    . exact ⟨d, ⟨d, hd, .inl rfl⟩, rfl⟩
    . exact ⟨x, ⟨d, hd, .inr hx⟩, rfl⟩

theorem eq_of_mem_closure {set : DependencySet} {x y : Summary} (hx : x ∈ closure set)
    (hy : y ∈ closure set) (h : x.coordinate = y.coordinate)
    : x = y := by
  exact List.inj_on_of_nodup_map (nodup_closure set) hx hy h

end DependencySet
end ArtifactAudit
