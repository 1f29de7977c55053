import Mathlib.Logic.Relation
import ArtifactAudit.Attribution
import ArtifactAudit.Record
import ArtifactAudit.Proofs.DependencySet

/-!
This module contains the invariants of summaries: however a summary is built up from symbols and from
records, its sets of dependencies fit together, also where the summaries below it disagree about an
artifact.
-/

namespace ArtifactAudit
namespace Summary

open ClassFile DependencySet

/--
A summary that is made from symbols or from a record on top of summaries that are made so themselves.
-/
inductive Built : Summary → Prop where
  | ofSymbols (c : Coordinate) (symbols : Symbols) {summaries : List Summary}
    (members : ∀ d ∈ summaries, Built d)
    : Built (.ofSymbols c (.ofList summaries) symbols)
  | complete (record : Record) {summaries : List Summary} (members : ∀ d ∈ summaries, Built d)
    : Built (record.complete (.ofList summaries))

def Declares (summary d : Summary) : Prop :=
  d ∈ summary.declared

structure Assembled (summary : Summary) : Prop where
  declared : ∃ summaries, summary.declared = ofList summaries
  flattened : summary.flattened = closure summary.declared
  unused : summary.unused.Sublist summary.declared
  undeclared : summary.undeclared.Sublist summary.flattened
  undeclared_new : ∀ d ∈ summary.undeclared, d.coordinate ∉ coordinates summary.declared

theorem assembled_ofSymbols (c : Coordinate) (summaries : List Summary) (symbols : Symbols)
    : Assembled (ofSymbols c (ofList summaries) symbols) where
  declared := ⟨summaries, rfl⟩
  flattened := rfl
  unused := List.filter_sublist
  undeclared := List.filter_sublist.trans List.filter_sublist
  undeclared_new d hd := by
    simp only [ofSymbols, List.mem_filter] at hd
    change d.coordinate ∉ coordinates (ofList summaries)
    rw [← contains_iff]
    simpa using hd.2

theorem assembled_complete (record : Record) (summaries : List Summary)
    : Assembled (record.complete (ofList summaries)) where
  declared := ⟨summaries, rfl⟩
  flattened := rfl
  unused := List.filter_sublist
  undeclared := List.filter_sublist
  undeclared_new d hd := by
    simp only [Record.complete, List.mem_filter, Bool.and_eq_true] at hd
    change d.coordinate ∉ coordinates (ofList summaries)
    rw [← contains_iff]
    simpa using hd.2.1

theorem Built.assembled {summary : Summary} (h : Built summary) : Assembled summary := by
  cases h with
  | ofSymbols c symbols _ => exact assembled_ofSymbols c _ symbols
  | complete record _ => exact assembled_complete record _

theorem Built.induction {motive : Summary → Prop}
    (step : ∀ summary, Assembled summary → (∀ d ∈ summary.declared, motive d) → motive summary)
    {summary : Summary} (h : Built summary)
    : motive summary := by
  induction h with
  | ofSymbols c symbols _ ih =>
    apply step _ (assembled_ofSymbols c _ symbols)
    intro d hd
    exact ih d (mem_of_mem_ofList hd)
  | complete record _ ih =>
    apply step _ (assembled_complete record _)
    intro d hd
    exact ih d (mem_of_mem_ofList hd)

theorem Built.of_declares {summary d : Summary} (h : Built summary) (hd : Declares summary d)
    : Built d := by
  cases h with
  | ofSymbols _ _ hmembers => exact hmembers d (mem_of_mem_ofList hd)
  | complete _ hmembers => exact hmembers d (mem_of_mem_ofList hd)

theorem Built.of_transGen {summary d : Summary} (h : Built summary)
    (hd : Relation.TransGen Declares summary d)
    : Built d := by
  induction hd with
  | single hdeclares => exact h.of_declares hdeclares
  | tail _ hdeclares ih => exact ih.of_declares hdeclares

theorem Built.transGen_of_mem_flattened {summary : Summary} (h : Built summary)
    : ∀ d ∈ summary.flattened, Relation.TransGen Declares summary d := by
  apply h.induction
  intro summary hassembled ih d hd
  rw [hassembled.flattened] at hd
  rcases mem_closure hd with ⟨e, he, rfl | hflattened⟩
  . exact .single he
  . exact .head he (ih e he d hflattened)

theorem Built.mem_flattened_of_transGen {summary : Summary} (h : Built summary)
    : ∀ d, Relation.TransGen Declares summary d →
        d.coordinate ∈ coordinates summary.flattened := by
  apply h.induction
  intro summary hassembled ih d hd
  rcases Relation.TransGen.head'_iff.1 hd with ⟨e, he, hreaches⟩
  rw [hassembled.flattened, mem_coordinates_closure]
  refine ⟨e, he, ?_⟩
  rcases Relation.reflTransGen_iff_eq_or_transGen.1 hreaches with rfl | hreaches
  . exact .inl rfl
  . exact .inr (ih e he d hreaches)

theorem Built.mem_flattened_iff {summary : Summary} (h : Built summary) (c : Coordinate)
    : c ∈ coordinates summary.flattened
        ↔
      ∃ d, Relation.TransGen Declares summary d ∧ d.coordinate = c := by
  constructor
  . intro hc
    rcases mem_coordinates.1 hc with ⟨d, hd, rfl⟩
    exact ⟨d, h.transGen_of_mem_flattened d hd, rfl⟩
  . rintro ⟨d, hd, rfl⟩
    exact h.mem_flattened_of_transGen d hd

/--
What holds of the sets of dependencies of a summary. Members are compared by their coordinates, since
two summaries below it can have the same one.
-/
structure Coherent (summary : Summary) : Prop where
  declared_nodup : (coordinates summary.declared).Nodup
  flattened_nodup : (coordinates summary.flattened).Nodup
  unused_nodup : (coordinates summary.unused).Nodup
  undeclared_nodup : (coordinates summary.undeclared).Nodup
  mem_flattened : ∀ c, c ∈ coordinates summary.flattened ↔
    ∃ d, Relation.TransGen Declares summary d ∧ d.coordinate = c
  declared_subset : coordinates summary.declared ⊆ coordinates summary.flattened
  flattened_closed : ∀ d, d ∈ summary.declared ∨ d ∈ summary.flattened →
    coordinates d.flattened ⊆ coordinates summary.flattened
  unused_subset : summary.unused ⊆ summary.declared
  undeclared_subset : summary.undeclared ⊆ summary.flattened
  undeclared_disjoint : (coordinates summary.undeclared).Disjoint (coordinates summary.declared)

/--
The sets of dependencies of a summary fit together, however the summary was built.
-/
theorem Built.coherent {summary : Summary} (h : Built summary) : Coherent summary := by
  have hassembled := h.assembled
  have hdeclared : (coordinates summary.declared).Nodup := by
    rcases hassembled.declared with ⟨summaries, heq⟩
    rw [heq]
    apply nodup_ofList
  have hflattened : (coordinates summary.flattened).Nodup := by
    rw [hassembled.flattened]
    apply nodup_closure
  have hmember : ∀ d, d ∈ summary.declared ∨ d ∈ summary.flattened →
      Relation.TransGen Declares summary d := by
    rintro d (hd | hd)
    . exact .single hd
    . exact h.transGen_of_mem_flattened d hd
  refine {
    declared_nodup := hdeclared
    flattened_nodup := hflattened
    unused_nodup := hdeclared.sublist (hassembled.unused.map _)
    undeclared_nodup := hflattened.sublist (hassembled.undeclared.map _)
    mem_flattened := h.mem_flattened_iff
    declared_subset := ?_
    flattened_closed := ?_
    unused_subset := hassembled.unused.subset
    undeclared_subset := hassembled.undeclared.subset
    undeclared_disjoint := ?_ }
  . intro c hc
    rcases mem_coordinates.1 hc with ⟨d, hd, rfl⟩
    exact h.mem_flattened_of_transGen d (.single hd)
  . intro d hd c hc
    have hreaches := hmember d hd
    rcases ((h.of_transGen hreaches).mem_flattened_iff c).1 hc with ⟨e, he, rfl⟩
    exact h.mem_flattened_of_transGen e (hreaches.trans he)
  . intro c hc hc'
    rcases mem_coordinates.1 hc with ⟨d, hd, rfl⟩
    exact hassembled.undeclared_new d hd hc'

theorem coherent_sharedCoordinate :
    let x := Coordinate.ofParts "g" "x" "1"
    let y := ofSymbols (.ofParts "g" "y" "1") (ofList []) ⟨.ofList ["y/Y"], ∅⟩
    let z := ofSymbols (.ofParts "g" "z" "1") (ofList []) ⟨.ofList ["z/Z"], ∅⟩
    let first := ofSymbols x (ofList [y]) ⟨.ofList ["x/X"], ∅⟩
    let second := ofSymbols x (ofList [z]) ⟨.ofList ["x/X"], .ofList ["z/Z"]⟩
    let record : Record :=
      { metadata := .absent
        coordinate := .ofParts "g" "b" "1"
        classes := ∅
        usages := ∅
        unused := .ofList ["g:x", "g:z"]
        undeclared := .ofList ["g:x", "g:z"]
        dependencies := [⟨.ofParts "g" "q" "1", true⟩] }
    let middle := record.complete (ofList [first, y])
    let summary := ofSymbols (.ofParts "g" "a" "1") (ofList [middle, second, middle])
      ⟨∅, .ofList ["y/Y", "z/Z"]⟩
    Built summary ∧ Coherent summary
      ∧ coordinates summary.flattened
        = [.ofParts "g" "b" "1", x, .ofParts "g" "y" "1", .ofParts "g" "z" "1"] := by
  intro x y z first second record middle summary
  have hy : Built y := .ofSymbols _ _ (by simp)
  have hz : Built z := .ofSymbols _ _ (by simp)
  have hfirst : Built first := .ofSymbols _ _ (by simpa using hy)
  have hsecond : Built second := .ofSymbols _ _ (by simpa using hz)
  have hmiddle : Built middle := .complete record (by simpa using ⟨hfirst, hy⟩)
  have hsummary : Built summary := .ofSymbols _ _ (by simpa using ⟨hmiddle, hsecond, hmiddle⟩)
  exact ⟨hsummary, hsummary.coherent, by decide +kernel⟩

end Summary
end ArtifactAudit
