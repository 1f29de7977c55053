import ArtifactAudit.Catalog
import ArtifactAudit.Proofs.DependencySet

/-!
This module contains the theory of catalogs, which list a summary for each coordinate that they are
made of.
-/

namespace ArtifactAudit

namespace Coordinate

theorem lt_iff_lex {a b : Coordinate} : a < b ↔ List.Lex Text.Precedes a.fields b.fields := by
  change Text.listPrecedes a.fields b.fields = true ↔ _
  simp [Text.listPrecedes, List.lex_eq_true_iff_lex]

theorem eq_of_fields_eq {a b : Coordinate} (h : a.fields = b.fields) : a = b := by
  cases a
  cases b
  simpa [fields] using h

theorem eq_of_not_lt {a b : Coordinate} (hab : ¬ a < b) (hba : ¬ b < a) : a = b := by
  rw [lt_iff_lex] at hab hba
  apply eq_of_fields_eq
  exact List.lex_trichotomous (fun _ _ => Text.Precedes.eq_of_not) hba hab

end Coordinate

namespace Catalog

open DependencySet

theorem mem_insert {catalog : Catalog} {summary x : Summary} (h : x ∈ insert summary catalog)
    : x = summary ∨ x ∈ catalog := by
  induction catalog with
  | nil => simpa [insert] using h
  | cons other rest ih =>
    unfold insert at h
    split at h
    . simpa using h
    . split at h
      . rcases List.mem_cons.1 h with rfl | h
        . simp
        . rcases ih h with rfl | h <;> simp [*]
      . rcases List.mem_cons.1 h with rfl | h <;> simp [*]

theorem mem_coordinates_insert {catalog : Catalog} {summary : Summary} {c : Coordinate}
    : c ∈ coordinates (insert summary catalog)
        ↔
      c = summary.coordinate ∨ c ∈ coordinates catalog := by
  induction catalog with
  | nil => simp [insert, coordinates]
  | cons other rest ih =>
    unfold coordinates at *
    unfold insert
    split
    . simp
    . next hnot =>
      split
      . rw [List.map_cons, List.mem_cons, ih, List.map_cons, List.mem_cons, or_left_comm]
      . next hnot' =>
        -- The summary stands in place of the one with its coordinate.
        rw [List.map_cons, List.map_cons, Coordinate.eq_of_not_lt hnot hnot']
        simp

theorem ofList_concat (summaries : List Summary) (summary : Summary)
    : ofList (summaries ++ [summary]) = insert summary (ofList summaries) := by
  simp [ofList]

theorem mem_of_mem_ofList {summaries : List Summary} {x : Summary} (h : x ∈ ofList summaries)
    : x ∈ summaries := by
  induction summaries using List.reverseRecOn with
  | nil => exact h
  | append_singleton summaries summary ih =>
    rw [ofList_concat] at h
    rcases mem_insert h with rfl | h
    . simp
    . simp [ih h]

theorem mem_coordinates_ofList {summaries : List Summary} {c : Coordinate}
    : c ∈ coordinates (ofList summaries) ↔ c ∈ coordinates summaries := by
  induction summaries using List.reverseRecOn with
  | nil => rfl
  | append_singleton summaries summary ih =>
    rw [ofList_concat, mem_coordinates_insert, ih]
    simp [coordinates, or_comm]

end Catalog
end ArtifactAudit
