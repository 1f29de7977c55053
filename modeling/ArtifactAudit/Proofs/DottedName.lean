import ArtifactAudit.Proofs.Text.Parts
import ArtifactAudit.UsageMap

/-!
This module contains the theory of dotted names: cutting a name into segments and joining segments
into a pattern undo each other.
-/

namespace ArtifactAudit
namespace UsageMap

theorem pattern_nil (name : String) : pattern [] name = name := by
  simp [pattern]

theorem pattern_cons (segment : String) (path : List String) (name : String)
    : pattern (segment :: path) name = segment ++ "." ++ pattern path name := by
  unfold pattern
  rw [List.cons_append, String.intercalate_cons_of_ne_nil]
  simp

end UsageMap

namespace PackageTrie

open UsageMap

def IsSegment (s : String) : Prop := '.' ∉ s.toList

instance (s : String) : Decidable (IsSegment s) := inferInstanceAs (Decidable ('.' ∉ s.toList))

theorem isSegment_packageWildcard : IsSegment packageWildcard := by
  decide

theorem isSegment_subtreeWildcard : IsSegment subtreeWildcard := by
  decide

theorem segments_append (name : String)
    : (segments name).1 ++ [(segments name).2] = Text.parts '.' name := by
  have hparts : Text.parts '.' name ≠ [] := by simp [Text.parts]
  simp only [segments]
  rw [List.getLastD_eq_getLast?, List.getLast?_eq_some_getLast hparts]
  apply List.dropLast_concat_getLast

theorem isSegment_of_mem_parts (name : String)
    : ∀ part ∈ Text.parts '.' name, IsSegment part :=
  fun _ => Text.notMem_of_mem_parts

theorem isSegment_path (name : String) : ∀ segment ∈ (segments name).1, IsSegment segment := by
  intro segment h
  apply isSegment_of_mem_parts name
  rw [← segments_append]
  simp [h]

theorem isSegment_simpleName (name : String) : IsSegment (segments name).2 := by
  apply isSegment_of_mem_parts name
  rw [← segments_append]
  simp

theorem pattern_segments (name : String)
    : pattern (segments name).1 (segments name).2 = name := by
  unfold pattern
  rw [segments_append]
  apply String.toList_injective
  rw [String.toList_intercalate]
  apply Text.intercalate_map_toList_parts

theorem segments_injective : Function.Injective segments := by
  intro a b h
  rw [← pattern_segments a, h, pattern_segments]

theorem segments_pattern {path : List String} {name : String}
    (hpath : ∀ segment ∈ path, IsSegment segment) (hname : IsSegment name)
    : segments (pattern path name) = (path, name) := by
  have hparts : Text.parts '.' (pattern path name) = path ++ [name] := by
    unfold Text.parts pattern
    rw [String.toList_intercalate]
    have hdot : ".".toList = ['.'] := by decide
    rw [hdot, List.splitOn_intercalate]
    . simp [List.map_map, Function.comp_def]
    . intro cs hcs
      rw [List.mem_map] at hcs
      rcases hcs with ⟨segment, hsegment, rfl⟩
      rw [List.mem_append, List.mem_singleton] at hsegment
      cases hsegment with
      | inl h => exact hpath segment h
      | inr h => exact h ▸ hname
    . simp
  simp [segments, hparts]

theorem startsWith_of_head_segments {name : String} {path : List String}
    (h : (segments name).1 = "" :: path)
    : Text.startsWith name "." = true := by
  have := pattern_segments name
  rw [h, pattern_cons] at this
  rw [← this]
  simp [Text.startsWith]

end PackageTrie
end ArtifactAudit
