import Mathlib.Data.List.Perm.Basic
import Mathlib.Data.List.Perm.Subperm
import ArtifactAudit.Proofs.DependencySet

/-!
This module contains when two sets of summaries are the same: the test compares numbers of members
and looks for the ones of one set in the other, which is enough because no coordinate comes twice in
a set, however it is obtained.
-/

namespace ArtifactAudit
namespace DependencySet

/--
How sets are obtained. A filter leaves a part of a set, whatever it makes of the members before. To
collect that part again changes nothing, by `ofList_of_nodup`.
-/
inductive Made : DependencySet → Prop where
  | empty : Made []
  | insert {set : DependencySet} (made : Made set) (summary : Summary)
    : Made (DependencySet.insert set summary)
  | ofList (summaries : List Summary) : Made (ofList summaries)
  | filtered {set part : DependencySet} (made : Made set) (kept : part.Sublist set) : Made part
  | closure {set : DependencySet} (made : Made set) : Made (closure set)

theorem Made.nodup {set : DependencySet} (h : Made set) : (coordinates set).Nodup := by
  induction h with
  | empty => exact List.nodup_nil
  | insert _ summary ih => exact nodup_insert ih summary
  | ofList summaries => exact nodup_ofList summaries
  | filtered _ kept ih => exact (kept.map Summary.coordinate).nodup ih
  | @closure set _ _ => exact nodup_closure set

theorem same_iff {left right : DependencySet}
    : same left right = true
        ↔
      left.length = right.length ∧ coordinates left ⊆ coordinates right := by
  rw [same, Bool.and_eq_true, beq_iff_eq, List.all_eq_true]
  simp only [contains_iff]
  exact and_congr_right fun _ => List.forall_mem_map.symm

theorem same_iff_perm {left right : DependencySet} (hleft : (coordinates left).Nodup)
    : same left right = true ↔ (coordinates left).Perm (coordinates right) := by
  -- Without repetitions there is no room for more members than those that are found.
  rw [same_iff]
  constructor
  . rintro ⟨hlength, hsubset⟩
    apply (List.subperm_of_subset hleft hsubset).perm_of_length_le
    simp [coordinates, hlength]
  . intro hperm
    refine ⟨?_, hperm.subset⟩
    simpa [coordinates] using hperm.length_eq

theorem perm_coordinates_insertAll {set : DependencySet} (h : (coordinates set).Nodup)
    {summaries others : List Summary} (hperm : summaries.Perm others)
    : (coordinates (insertAll set summaries)).Perm (coordinates (insertAll set others)) := by
  rw [List.perm_ext_iff_of_nodup (nodup_insertAll h) (nodup_insertAll h)]
  intro c
  rw [mem_coordinates_insertAll, mem_coordinates_insertAll, coordinates, coordinates, coordinates,
    (hperm.map Summary.coordinate).mem_iff]

/--
The test whether two sets are the same finds out whether they contain the same coordinates, so it can
be made from either side, may be chained, and does not depend on the order in which members came.
What else the summaries say makes no difference.
-/
theorem same_of_made {left right : DependencySet} (hleft : Made left) (hright : Made right)
    : (same left right = true ↔ ∀ c, contains left c = contains right c)
        ∧ same left right = same right left
        ∧ (∀ other, same left right = true → same right other = true → same left other = true)
        ∧ ∀ summaries others : List Summary, summaries.Perm others →
          same (insertAll left summaries) right = same (insertAll left others) right := by
  refine ⟨?_, ?_, ?_, ?_⟩
  . rw [same_iff_perm hleft.nodup, List.perm_ext_iff_of_nodup hleft.nodup hright.nodup]
    refine forall_congr' fun c => ?_
    rw [← contains_iff, ← contains_iff, ← Bool.eq_iff_iff]
  . rw [Bool.eq_iff_iff, same_iff_perm hleft.nodup, same_iff_perm hright.nodup]
    exact List.perm_comm
  . intro other hfirst hsecond
    rw [same_iff_perm hleft.nodup] at hfirst ⊢
    exact hfirst.trans ((same_iff_perm hright.nodup).1 hsecond)
  . intro summaries others hperm
    have hcoordinates := perm_coordinates_insertAll hleft.nodup hperm
    rw [Bool.eq_iff_iff, same_iff_perm (nodup_insertAll hleft.nodup),
      same_iff_perm (nodup_insertAll hleft.nodup)]
    exact ⟨hcoordinates.symm.trans, hcoordinates.trans⟩

namespace Layered

def summary (artifact : String) (defined : List String) (flattened : DependencySet) : Summary :=
  ⟨.ofParts "g" artifact "1", flattened, flattened, .ofList defined, ∅, [], []⟩

def base : Summary := summary "base" ["b/B"] []

def bare : Summary := summary "base" [] []

def upper : Summary := summary "upper" ["u/U"] [base]

def tool : Summary := summary "tool" [] []

def left : DependencySet := closure [upper]

def right : DependencySet :=
  (ofList [bare, tool, upper, base]).filter (·.coordinate ≠ tool.coordinate)

theorem made_left : Made left := .closure (.insert .empty upper)

theorem made_right : Made right := .filtered (.ofList _) List.filter_sublist

end Layered

open Layered in
theorem same_of_made_layered
    : Made left ∧ Made right ∧ coordinates left ≠ coordinates right ∧ base.defined ≠ bare.defined
        ∧ (∀ c, contains left c = contains right c) ∧ same right left = true
        ∧ same (insertAll left [tool, bare]) (insertAll left [bare, tool]) = true := by
  have hmade := same_of_made made_left made_right
  have hmore : Made (insertAll left [bare, tool]) := .insert (.insert made_left bare) tool
  have hsame : same left right = true := by decide
  refine ⟨made_left, made_right, by decide, by decide, hmade.1.1 hsame, ?_, ?_⟩
  . rw [← hmade.2.1, hsame]
  . rw [(same_of_made made_left hmore).2.2.2 [tool, bare] [bare, tool] (List.Perm.swap ..)]
    exact (same_of_made hmore hmore).1.2 fun _ => rfl

end DependencySet
end ArtifactAudit
