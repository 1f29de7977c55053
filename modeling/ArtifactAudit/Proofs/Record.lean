import ArtifactAudit.Attribution
import ArtifactAudit.Record
import ArtifactAudit.Proofs.Cache.Entry
import ArtifactAudit.Proofs.DependencySet
import ArtifactAudit.Proofs.Summary.Family

/-!
This module contains the comparison of a summary with the one that its own record is completed to.
Records name artifacts without their versions, so the two can differ where the dependencies of an
artifact contain several versions of one artifact. They name the direct dependencies in the order of
the closure, and this makes no difference for what is recorded.
-/

namespace ArtifactAudit
namespace Record

open Attribution ClassFile DependencySet

theorem unused_complete_ofSummary (createdAt : Nat) (c : Coordinate) (declared : DependencySet)
    (symbols : Symbols)
    : ((ofSummary createdAt (.ofSymbols c declared symbols)).complete declared).unused
        =
      (Summary.ofSymbols c declared symbols).unused := by
  unfold complete
  apply List.filter_congr
  intro d hd
  rw [Bool.eq_iff_iff, decide_eq_true_iff, decide_eq_true_iff]
  change d.coordinate.name ∈ names (Summary.ofSymbols c declared symbols).unused ↔ _
  rw [mem_names]
  constructor
  . rintro ⟨other, hother, hname⟩
    rw [Summary.ofSymbols, List.mem_filter, hname, decide_eq_true_iff] at hother
    exact hother.2
  . intro hunused
    refine ⟨d, ?_, rfl⟩
    rw [Summary.ofSymbols, List.mem_filter, decide_eq_true_iff]
    exact ⟨hd, hunused⟩

theorem mem_undeclared_ofSymbols (c : Coordinate) (declared : DependencySet) (symbols : Symbols)
    (d : Summary)
    : d ∈ (Summary.ofSymbols c declared symbols).undeclared
        ↔
      d ∈ closure declared ∧ d.coordinate ∉ coordinates declared
        ∧ supplies symbols.withoutDefined.used d = true := by
  simp only [Summary.ofSymbols, List.mem_filter, Bool.not_eq_true', ← Bool.not_eq_true,
    contains_iff, and_assoc]
  tauto

theorem mem_undeclared_complete (createdAt : Nat) (summary d : Summary)
    (declared : DependencySet)
    : d ∈ ((ofSummary createdAt summary).complete declared).undeclared
        ↔
      d ∈ closure declared ∧ d.coordinate ∉ coordinates declared
        ∧ ∃ other ∈ summary.undeclared, other.coordinate.name = d.coordinate.name := by
  simp only [complete, ofSummary, List.mem_filter, Bool.and_eq_true, Bool.not_eq_true',
    decide_eq_true_eq, ← Bool.not_eq_true, contains_iff, mem_names]

/--
Completing a record of a summary gives the summary back, but for undeclared dependencies that are
too many: the ones that share their name with an undeclared dependency and supply no used class.
-/
theorem complete_ofSummary (createdAt : Nat) (c : Coordinate) (declared : DependencySet)
    (symbols : Symbols)
    : let summary := Summary.ofSymbols c declared symbols
      let again := (ofSummary createdAt summary).complete summary.declared
      again.coordinate = summary.coordinate
        ∧ again.defined = summary.defined
        ∧ again.usages = summary.usages
        ∧ again.declared = summary.declared
        ∧ again.flattened = summary.flattened
        ∧ again.unused = summary.unused
        ∧ (∀ d ∈ summary.undeclared, d ∈ again.undeclared)
        ∧ ((∀ x, x ∈ coordinates again.undeclared ↔ x ∈ coordinates summary.undeclared)
            ↔
          ∀ d ∈ summary.flattened, d.coordinate ∉ coordinates summary.declared →
            (∃ other ∈ summary.undeclared, other.coordinate.name = d.coordinate.name) →
            supplies symbols.withoutDefined.used d = true) := by
  intro summary again
  have hsuperset : ∀ d ∈ summary.undeclared, d ∈ again.undeclared := by
    intro d hd
    rcases (mem_undeclared_ofSymbols c declared symbols d).1 hd with ⟨hmem, hnew, _⟩
    exact (mem_undeclared_complete createdAt summary d declared).2 ⟨hmem, hnew, d, hd, rfl⟩
  refine ⟨rfl, rfl, rfl, rfl, rfl, unused_complete_ofSummary createdAt c declared symbols,
    hsuperset, ?_⟩
  constructor
  . intro hsame d hmem hnew hshared
    have hagain : d ∈ again.undeclared :=
      (mem_undeclared_complete createdAt summary d declared).2 ⟨hmem, hnew, hshared⟩
    have hcoordinate := (hsame d.coordinate).1 (mem_coordinates.2 ⟨d, hagain, rfl⟩)
    rcases mem_coordinates.1 hcoordinate with ⟨other, hother, heq⟩
    rcases (mem_undeclared_ofSymbols c declared symbols other).1 hother with
      ⟨hclosure, _, hsupplies⟩
    -- The closure has one member for the coordinate.
    rwa [eq_of_mem_closure hclosure hmem heq] at hsupplies
  . intro hsupplies x
    rw [mem_coordinates, mem_coordinates]
    constructor
    . rintro ⟨d, hd, rfl⟩
      rcases (mem_undeclared_complete createdAt summary d declared).1 hd with ⟨hmem, hnew, hshared⟩
      exact ⟨d, (mem_undeclared_ofSymbols c declared symbols d).2
        ⟨hmem, hnew, hsupplies d hmem hnew hshared⟩, rfl⟩
    . rintro ⟨d, hd, rfl⟩
      exact ⟨d, hsuperset d hd, rfl⟩

theorem complete_ofSummary_twoVersions :
    let first := Summary.ofSymbols (.ofParts "g" "x" "1") [] ⟨.ofList ["c/C"], ∅⟩
    let second := Summary.ofSymbols (.ofParts "g" "x" "2") [] ⟨.ofList ["d/D"], ∅⟩
    let middle := Summary.ofSymbols (.ofParts "g" "b" "1") [first, second] ⟨.ofList ["b/B"], ∅⟩
    let summary := Summary.ofSymbols (.ofParts "g" "a" "1") [middle]
      ⟨.ofList ["a/A"], .ofList ["c/C"]⟩
    coordinates summary.undeclared = [.ofParts "g" "x" "1"]
      ∧ coordinates ((ofSummary 0 summary).complete summary.declared).undeclared
        = [.ofParts "g" "x" "1", .ofParts "g" "x" "2"] := by
  decide +kernel

theorem direct_ofSummary (createdAt : Nat) (summary : Summary)
    : (ofSummary createdAt summary).direct
        =
      coordinates (summary.flattened.filter fun d => contains summary.declared d.coordinate) := by
  simp [direct, ofSummary, coordinates, List.filter_map, Function.comp_def]

def relinked (record : Record) (dependencies : DependencySet) : DependencySet :=
  ofList (record.direct.filterMap (get? dependencies))

theorem relinked_ofSummary {member : Summary → Prop} (hfamily : Summary.Family member)
    {declared : DependencySet} (hmember : ∀ d ∈ declared, member d) (createdAt : Nat)
    (c : Coordinate) (symbols : Symbols)
    : (ofSummary createdAt (.ofSymbols c declared symbols)).relinked declared
        =
      (closure declared).filter fun d => contains declared d.coordinate := by
  have hget : ∀ d ∈ (closure declared).filter (fun d => contains declared d.coordinate),
      get? declared d.coordinate = some d := by
    intro d hd
    rw [List.mem_filter, contains_iff] at hd
    exact hfamily.get?_eq_some hmember (hfamily.of_mem_closure hmember hd.1) hd.2
  calc (ofSummary createdAt (.ofSymbols c declared symbols)).relinked declared
    _ = ofList (((closure declared).filter fun d => contains declared d.coordinate).filterMap
        fun d => get? declared d.coordinate) := by
      rw [relinked, direct_ofSummary, coordinates, List.filterMap_map]
      rfl
    _ = ofList ((closure declared).filter fun d => contains declared d.coordinate) := by
      rw [List.filterMap_congr hget, List.filterMap_some]
    _ = _ := ofList_of_nodup ((nodup_closure declared).sublist (List.filter_sublist.map _))

theorem names_filter_names {whole part : DependencySet}
    (h : coordinates part ⊆ coordinates whole)
    : names (whole.filter fun d => d.coordinate.name ∈ names part) = names part := by
  apply NameSet.ext
  intro name
  rw [mem_names]
  simp only [List.mem_filter, decide_eq_true_eq]
  constructor
  . rintro ⟨d, ⟨_, hname⟩, rfl⟩
    exact hname
  . intro hname
    rcases mem_names.1 hname with ⟨d, hd, rfl⟩
    rcases mem_coordinates.1 (h (mem_coordinates.2 ⟨d, hd, rfl⟩)) with ⟨e, he, heq⟩
    exact ⟨e, ⟨he, heq ▸ hname⟩, heq ▸ rfl⟩

theorem mem_coordinates_direct {member : Summary → Prop} (hfamily : Summary.Family member)
    {declared : DependencySet} (hmember : ∀ d ∈ declared, member d) {x : Coordinate}
    : x ∈ coordinates ((closure declared).filter fun d => contains declared d.coordinate)
        ↔ x ∈ coordinates declared := by
  rw [mem_coordinates]
  simp only [List.mem_filter, contains_iff]
  constructor
  . rintro ⟨d, ⟨_, hd⟩, rfl⟩
    exact hd
  . intro hx
    rcases mem_coordinates.1 hx with ⟨d, hd, rfl⟩
    exact ⟨d, ⟨(hfamily.mem_closure_iff hmember).2 (mem_expanded.2 ⟨d, hd, .inl rfl⟩), hx⟩, rfl⟩

section

variable {declared again : DependencySet} (hclosure : closure again = closure declared)
  (hsame : ∀ x, x ∈ coordinates again ↔ x ∈ coordinates declared)

include hsame

theorem contains_eq (x : Coordinate) : contains again x = contains declared x := by
  rw [Bool.eq_iff_iff, contains_iff, contains_iff, hsame]

theorem names_unused_complete (createdAt : Nat) (c : Coordinate) (symbols : Symbols)
    : names ((ofSummary createdAt (.ofSymbols c declared symbols)).complete again).unused
        =
      names (Summary.ofSymbols c declared symbols).unused := by
  apply names_filter_names
  intro x hx
  rcases mem_coordinates.1 hx with ⟨d, hd, rfl⟩
  exact (hsame _).2 (mem_coordinates.2 ⟨d, List.mem_of_mem_filter hd, rfl⟩)

include hclosure

theorem names_undeclared_complete (createdAt : Nat) (c : Coordinate) (symbols : Symbols)
    : names ((ofSummary createdAt (.ofSymbols c declared symbols)).complete again).undeclared
        =
      names (Summary.ofSymbols c declared symbols).undeclared := by
  have hfilter : ((ofSummary createdAt (.ofSymbols c declared symbols)).complete again).undeclared
      = ((closure declared).filter fun d => !contains declared d.coordinate).filter
        fun d => d.coordinate.name ∈ names (Summary.ofSymbols c declared symbols).undeclared := by
    change (closure again).filter (fun d => !contains again d.coordinate
      && d.coordinate.name ∈ names (Summary.ofSymbols c declared symbols).undeclared) = _
    simp only [hclosure, contains_eq hsame, List.filter_filter, Bool.and_comm]
  rw [hfilter]
  apply names_filter_names
  apply List.map_subset
  intro d hd
  rcases (mem_undeclared_ofSymbols c _ symbols d).1 hd with ⟨hmem, hnew, _⟩
  rw [← contains_iff, Bool.not_eq_true] at hnew
  exact List.mem_filter.2 ⟨hmem, by rw [Bool.not_eq_true']; exact hnew⟩

theorem ofSummary_complete (createdAt later : Nat) (c : Coordinate) (symbols : Symbols)
    : let record := ofSummary createdAt (.ofSymbols c declared symbols)
      { ofSummary later (record.complete again) with metadata := record.metadata } = record := by
  intro record
  have hdependencies : (ofSummary later (record.complete again)).dependencies
      = record.dependencies := by
    change (closure again).map
      (fun d => DependencyRecord.mk d.coordinate (!contains again d.coordinate)) = _
    simp only [hclosure, contains_eq hsame]
    rfl
  change mk _ _ _ _ _ _ _ = mk _ _ _ _ _ _ _
  rw [mk.injEq]
  exact ⟨rfl, rfl, rfl, rfl, names_unused_complete hsame createdAt c symbols,
    names_undeclared_complete hclosure hsame createdAt c symbols, hdependencies⟩

end

/--
The record of a summary is read back from its entry, and the record of the summary that is completed
from it is that record again, whatever order the dependencies were declared in, if a coordinate
always denotes the same dependency.
-/
theorem ofSummary_complete_relinked (createdAt later : Nat) (c : Coordinate)
    {summaries : List Summary} (symbols : Symbols) (hbuilt : ∀ d ∈ summaries, Summary.Built d)
    (hunivocal : Summary.Univocal summaries)
    : let summary := Summary.ofSymbols c (ofList summaries) symbols
      let record := ofSummary createdAt summary
      let completed := record.complete (record.relinked summary.declared)
      (createdAt < UInt64.size → Cache.decode? (Cache.encode record) = some record)
        ∧ coordinates completed.declared = record.direct
        ∧ (∀ x, x ∈ record.direct ↔ x ∈ coordinates summary.declared)
        ∧ completed.flattened = summary.flattened
        ∧ { ofSummary later completed with metadata := record.metadata } = record := by
  intro summary record completed
  have hfamily := hunivocal.family hbuilt
  have hmember : ∀ d ∈ summary.declared, Summary.Below summaries d := by
    intro d hd
    exact Summary.below_of_mem (mem_of_mem_ofList hd)
  have hdeclared : completed.declared
      = summary.flattened.filter fun d => contains summary.declared d.coordinate :=
    relinked_ofSummary hfamily hmember createdAt c symbols
  have hdirect : coordinates completed.declared = record.direct := by
    rw [hdeclared, direct_ofSummary]
  have hsame : ∀ x, x ∈ coordinates completed.declared ↔ x ∈ coordinates summary.declared := by
    intro x
    rw [hdeclared]
    exact mem_coordinates_direct hfamily hmember
  have hflattened : completed.flattened = summary.flattened := by
    change closure completed.declared = _
    rw [hdeclared]
    apply hfamily.closure_filter_closure hmember
    intro d hd
    rw [contains_iff, mem_coordinates]
    exact ⟨d, hd, rfl⟩
  have hdecode (htime : createdAt < UInt64.size)
      : Cache.decode? (Cache.encode record) = some record :=
    Cache.decode?_encode_ofSummary htime summary
  exact ⟨hdecode, hdirect, fun x => hdirect ▸ hsame x, hflattened,
    ofSummary_complete hflattened hsame createdAt later c symbols⟩

theorem ofSummary_complete_relinked_reordered :
    let x := Summary.ofSymbols (.ofParts "g" "x" "1") (ofList []) ⟨.ofList ["x/X"], ∅⟩
    let b := Summary.ofSymbols (.ofParts "g" "b" "1") (ofList []) ⟨.ofList ["b/B"], ∅⟩
    let c := Summary.ofSymbols (.ofParts "g" "c" "1") (ofList [x]) ⟨.ofList ["c/C"], .ofList ["x/X"]⟩
    let a := Summary.ofSymbols (.ofParts "g" "a" "1") (ofList [c]) ⟨.ofList ["a/A"], ∅⟩
    let symbols : Symbols := ⟨.ofList ["s/S"], .ofList ["b/B", "x/X"]⟩
    let summary := Summary.ofSymbols (.ofParts "g" "s" "1") (ofList [a, b, c]) symbols
    let record := ofSummary 1 summary
    let completed := record.complete (record.relinked summary.declared)
    (∀ d ∈ [a, b, c], Summary.Built d) ∧ Summary.Univocal [a, b, c]
      ∧ Cache.decode? (Cache.encode record) = some record
      ∧ coordinates summary.declared = [a.coordinate, b.coordinate, c.coordinate]
      ∧ coordinates completed.declared = [a.coordinate, c.coordinate, b.coordinate]
      ∧ completed.flattened = summary.flattened
      ∧ { ofSummary 2 completed with metadata := record.metadata } = record := by
  intro x b c a symbols summary record completed
  have hx : Summary.Built x := .ofSymbols _ _ (by simp)
  have hb : Summary.Built b := .ofSymbols _ _ (by simp)
  have hc : Summary.Built c := .ofSymbols _ _ (by simpa using hx)
  have ha : Summary.Built a := .ofSymbols _ _ (by simpa using hc)
  have hbuilt : ∀ d ∈ [a, b, c], Summary.Built d := by simpa using ⟨ha, hb, hc⟩
  have hunivocal : Summary.Univocal [a, b, c] := by
    have hleaf : b.declared = [] ∧ x.declared = [] := ⟨rfl, rfl⟩
    have hinner : a.declared = [c] ∧ c.declared = [x] := ⟨rfl, rfl⟩
    apply Summary.univocal_of_nodup [a, b, c, x] (by simp)
    . simp [hleaf, hinner]
    . decide +kernel
  rcases ofSummary_complete_relinked 1 2 (.ofParts "g" "s" "1") symbols hbuilt hunivocal with
    ⟨hdecode, hdeclared, _, hflattened, hrecord⟩
  refine ⟨hbuilt, hunivocal, hdecode (by decide), by decide +kernel, ?_, hflattened, hrecord⟩
  rw [hdeclared]
  decide +kernel

end Record
end ArtifactAudit
