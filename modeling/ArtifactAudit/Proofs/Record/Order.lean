import Mathlib.Data.List.Perm.Subperm
import ArtifactAudit.Proofs.Record

/-!
This module contains the order in which a record names the direct dependencies of an artifact. It is the
order in which they are met when each declared dependency is followed by what is below it, and not always
the one in which they are declared.
-/

namespace ArtifactAudit
namespace Record

open ClassFile DependencySet

section FirstMet

variable {α : Type} [DecidableEq α] {part whole : List α}

def firstMet (part whole : List α) : List α :=
  whole.eraseDups.filter (· ∈ part)

theorem mem_firstMet {x : α} : x ∈ firstMet part whole ↔ x ∈ whole ∧ x ∈ part := by
  simp [firstMet]

theorem firstMet_concat (met : List α) (x : α)
    : firstMet part (met ++ [x])
        =
      firstMet part met ++ if x ∈ part ∧ x ∉ met then [x] else [] := by
  rw [firstMet, List.eraseDups_append, List.filter_append]
  by_cases hmet : x ∈ met <;> by_cases hpart : x ∈ part <;>
    simp [firstMet, List.removeAll, List.eraseDups_cons, hmet, hpart]

theorem firstMet_isPrefix (met rest : List α) : firstMet part met <+: firstMet part (met ++ rest) := by
  induction rest using List.reverseRecOn with
  | nil => simp
  | append_singleton rest x ih =>
    rw [← List.append_assoc, firstMet_concat]
    exact ih.trans (List.prefix_append _ _)

theorem firstMet_eq_before {met before after : List α} {x : α} (hnodup : part.Nodup)
    (hpart : part = before ++ x :: after) (hold : firstMet part met <+: part)
    (hbefore : ∀ y ∈ before, y ∈ met) (hx : x ∉ met)
    : firstMet part met = before := by
  have hnew : x ∉ firstMet part met := fun hmem => hx (mem_firstMet.1 hmem).1
  have hlong : before ⊆ firstMet part met :=
    fun y hy => mem_firstMet.2 ⟨hbefore y hy, by simp [hpart, hy]⟩
  have hlength : before.length ≤ (firstMet part met).length := by
    rw [hpart, List.nodup_append] at hnodup
    exact (hnodup.1.subperm hlong).length_le
  have hshort : firstMet part met <+: before := by
    have hnext : before ++ [x] <+: part := ⟨after, by simp [hpart]⟩
    rcases List.prefix_or_prefix_of_prefix hold hnext with hshort | hlong
    . rcases List.prefix_concat_iff.1 hshort with heq | hshort
      . exact absurd (heq ▸ List.mem_concat_self) hnew
      . exact hshort
    . exact absurd (hlong.subset List.mem_concat_self) hnew
  exact hshort.eq_of_length_le hlength

theorem firstMet_eq_iff (hnodup : part.Nodup) (hsubset : ∀ x ∈ part, x ∈ whole)
    : firstMet part whole = part
        ↔
      ∀ met x rest, whole = met ++ x :: rest →
        ∀ before after, part = before ++ x :: after → ∀ y ∈ before, y ∈ met := by
  constructor
  . intro heq met x rest hwhole before after hpart y hy
    have hmet : firstMet part (met ++ [x]) <+: part := by
      rw [hwhole, List.append_cons] at heq
      calc firstMet part (met ++ [x])
        _ <+: firstMet part (met ++ [x] ++ rest) := firstMet_isPrefix (met ++ [x]) rest
        _ = part := heq
    have hx : x ∈ firstMet part (met ++ [x]) := mem_firstMet.2 ⟨by simp, by simp [hpart]⟩
    have hnew : x ∉ before := by
      rw [hpart, List.nodup_append] at hnodup
      exact fun hold => hnodup.2.2 x hold x List.mem_cons_self rfl
    rcases List.prefix_or_prefix_of_prefix hmet ⟨x :: after, hpart.symm⟩ with hshort | hlong
    . exact absurd (hshort.subset hx) hnew
    . have hy' := (mem_firstMet.1 (hlong.subset hy)).1
      rw [List.mem_append, List.mem_singleton] at hy'
      exact hy'.resolve_right fun heq => hnew (heq ▸ hy)
  . intro h
    have hmet : ∀ met rest, whole = met ++ rest → firstMet part met <+: part := by
      intro met
      induction met using List.reverseRecOn with
      | nil => exact fun _ _ => List.nil_prefix
      | append_singleton met x ih =>
        intro rest hwhole
        rw [← List.append_cons] at hwhole
        have hold := ih (x :: rest) hwhole
        rw [firstMet_concat]
        split
        . next hx =>
          rcases List.append_of_mem hx.1 with ⟨before, after, hpart⟩
          have hbefore := h met x rest hwhole before after hpart
          rw [firstMet_eq_before hnodup hpart hold hbefore hx.2]
          exact ⟨after, by simp [hpart]⟩
        . rwa [List.append_nil]
    have hall : part ⊆ firstMet part whole := fun x hx => mem_firstMet.2 ⟨hsubset x hx, hx⟩
    exact (hmet whole [] (by simp)).eq_of_length_le (hnodup.subperm hall).length_le

end FirstMet

theorem direct_ofSummary_eq_firstMet (createdAt : Nat) {summary : Summary}
    (h : summary.flattened = closure summary.declared)
    : (ofSummary createdAt summary).direct
        =
      firstMet (coordinates summary.declared) (coordinates (expanded summary.declared)) := by
  have hflattened : (coordinates (expanded summary.declared)).eraseDups
      = coordinates summary.flattened := by
    rw [h, closure_eq_ofList, coordinates_ofList]
  have hcontains : ∀ x, contains summary.declared x = decide (x ∈ coordinates summary.declared) := by
    intro x
    rw [Bool.eq_iff_iff, contains_iff, decide_eq_true_iff]
  rw [direct_ofSummary, firstMet, hflattened]
  simp only [hcontains, coordinates, List.filter_map, Function.comp_def]

/--
A record names the direct dependencies of an artifact, each once, in the order in which they are met
when each declared dependency is followed by what is below it. This is the order in which they are
declared exactly where each of them is met after all that are declared before it.
-/
theorem direct_ofSummary_eq_iff (createdAt : Nat) (c : Coordinate) (summaries : List Summary)
    (symbols : Symbols)
    : let summary := Summary.ofSymbols c (ofList summaries) symbols
      let direct := (ofSummary createdAt summary).direct
      direct = firstMet (coordinates summary.declared) (coordinates (expanded summary.declared))
        ∧ direct.Perm (coordinates summary.declared)
        ∧ (direct = coordinates summary.declared
            ↔
          ∀ met x rest, coordinates (expanded summary.declared) = met ++ x :: rest →
            ∀ before after, coordinates summary.declared = before ++ x :: after →
              ∀ y ∈ before, y ∈ met) := by
  intro summary direct
  have hdirect : direct
      = firstMet (coordinates summary.declared) (coordinates (expanded summary.declared)) :=
    direct_ofSummary_eq_firstMet createdAt rfl
  have hdeclared : (coordinates summary.declared).Nodup := nodup_ofList summaries
  have hnodup : direct.Nodup := by
    change (ofSummary createdAt summary).direct.Nodup
    rw [direct_ofSummary]
    exact (nodup_closure summary.declared).sublist (List.filter_sublist.map _)
  have hsubset : ∀ x ∈ coordinates summary.declared, x ∈ coordinates (expanded summary.declared) := by
    intro x hx
    rcases mem_coordinates.1 hx with ⟨d, hd, rfl⟩
    exact mem_coordinates.2 ⟨d, mem_expanded.2 ⟨d, hd, .inl rfl⟩, rfl⟩
  refine ⟨hdirect, ?_, ?_⟩
  . rw [List.perm_ext_iff_of_nodup hnodup hdeclared]
    intro x
    rw [hdirect, mem_firstMet]
    exact ⟨And.right, fun hx => ⟨hsubset x hx, hx⟩⟩
  . rw [hdirect]
    exact firstMet_eq_iff hdeclared hsubset

/--
The last declared dependency is met below the first one, before the one between them.
-/
theorem direct_ofSummary_below :
    let b := Summary.ofSymbols (.ofParts "g" "b" "1") (ofList []) ⟨.ofList ["b/B"], ∅⟩
    let c := Summary.ofSymbols (.ofParts "g" "c" "1") (ofList []) ⟨.ofList ["c/C"], ∅⟩
    let a := Summary.ofSymbols (.ofParts "g" "a" "1") (ofList [c]) ⟨.ofList ["a/A"], ∅⟩
    let summary := Summary.ofSymbols (.ofParts "g" "s" "1") (ofList [a, b, c]) ⟨.ofList ["s/S"], ∅⟩
    coordinates summary.declared = [a.coordinate, b.coordinate, c.coordinate]
      ∧ (ofSummary 0 summary).direct = [a.coordinate, c.coordinate, b.coordinate] := by
  decide +kernel

end Record
end ArtifactAudit
