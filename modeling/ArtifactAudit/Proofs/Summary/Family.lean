import ArtifactAudit.Proofs.Summary

/-!
This module contains families of summaries: summaries with all that they are made on top of, of which
no two have the same coordinate. In a family the closure of a summary holds just what is below it.
-/

namespace ArtifactAudit
namespace Summary

open DependencySet

theorem sizeOf_declared_lt (summary : Summary) : sizeOf summary.declared < sizeOf summary := by
  cases summary
  simp only [mk.sizeOf_spec]
  omega

theorem sizeOf_lt_of_declares {summary d : Summary} (h : Declares summary d)
    : sizeOf d < sizeOf summary :=
  Nat.lt_trans (List.sizeOf_lt_of_mem h) (sizeOf_declared_lt summary)

theorem sizeOf_lt_of_transGen {summary d : Summary} (h : Relation.TransGen Declares summary d)
    : sizeOf d < sizeOf summary := by
  induction h with
  | single hdeclares => exact sizeOf_lt_of_declares hdeclares
  | tail _ hdeclares ih => exact Nat.lt_trans (sizeOf_lt_of_declares hdeclares) ih

/--
Summaries with all that they are made on top of, which are told apart by their coordinates.
-/
structure Family (member : Summary → Prop) : Prop where
  built : ∀ summary, member summary → Built summary
  declared : ∀ summary, member summary → ∀ d ∈ summary.declared, member d
  eq_of_coordinate : ∀ x y, member x → member y → x.coordinate = y.coordinate → x = y

/--
What some summaries are made on top of, themselves included.
-/
def Below (summaries : List Summary) (x : Summary) : Prop :=
  ∃ summary ∈ summaries, Relation.ReflTransGen Declares summary x

/--
Whether a coordinate always denotes the same summary in what some summaries are made on top of.
-/
def Univocal (summaries : List Summary) : Prop :=
  ∀ x y, Below summaries x → Below summaries y → x.coordinate = y.coordinate → x = y

theorem below_of_mem {summaries : List Summary} {summary : Summary} (h : summary ∈ summaries)
    : Below summaries summary :=
  ⟨summary, h, .refl⟩

theorem univocal_of_nodup {summaries : List Summary} (all : List Summary) (hsubset : summaries ⊆ all)
    (hclosed : ∀ summary ∈ all, summary.declared ⊆ all) (hnodup : (coordinates all).Nodup)
    : Univocal summaries := by
  have hbelow : ∀ x, Below summaries x → x ∈ all := by
    rintro x ⟨summary, hsummary, hreaches⟩
    induction hreaches with
    | refl => exact hsubset hsummary
    | tail _ hdeclares ih => exact hclosed _ ih hdeclares
  intro x y hx hy heq
  exact List.inj_on_of_nodup_map hnodup (hbelow x hx) (hbelow y hy) heq

theorem Univocal.family {summaries : List Summary} (h : Univocal summaries)
    (hbuilt : ∀ d ∈ summaries, Built d)
    : Family (Below summaries) where
  built := by
    rintro x ⟨summary, hsummary, hreaches⟩
    rcases Relation.reflTransGen_iff_eq_or_transGen.1 hreaches with rfl | hreaches
    . exact hbuilt _ hsummary
    . exact (hbuilt summary hsummary).of_transGen hreaches
  declared := by
    rintro x ⟨summary, hsummary, hreaches⟩ d hd
    exact ⟨summary, hsummary, hreaches.tail hd⟩
  eq_of_coordinate := h

variable {member : Summary → Prop}

theorem Family.of_transGen (h : Family member) {summary d : Summary} (hmember : member summary)
    (hd : Relation.TransGen Declares summary d)
    : member d := by
  induction hd with
  | single hdeclares => exact h.declared _ hmember _ hdeclares
  | tail _ hdeclares ih => exact h.declared _ ih _ hdeclares

theorem Family.transGen_of_coordinate (h : Family member) {summary x : Summary}
    (hmember : member summary) (hx : member x)
    (hcoordinate : x.coordinate ∈ coordinates summary.flattened)
    : Relation.TransGen Declares summary x := by
  rcases ((h.built _ hmember).mem_flattened_iff x.coordinate).1 hcoordinate with ⟨d, hd, heq⟩
  rwa [← h.eq_of_coordinate d x (h.of_transGen hmember hd) hx heq]

theorem Family.mem_flattened (h : Family member) {summary : Summary} (hmember : member summary)
    {d : Summary}
    : d ∈ summary.flattened ↔ Relation.TransGen Declares summary d := by
  have hbuilt := h.built _ hmember
  constructor
  . exact hbuilt.transGen_of_mem_flattened d
  . intro hd
    rcases mem_coordinates.1 (hbuilt.mem_flattened_of_transGen d hd) with ⟨e, he, heq⟩
    have hmember' := h.of_transGen hmember (hbuilt.transGen_of_mem_flattened e he)
    rwa [← h.eq_of_coordinate e d hmember' (h.of_transGen hmember hd) heq]

theorem Family.of_mem_flattened (h : Family member) {summary d : Summary} (hmember : member summary)
    (hd : d ∈ summary.flattened)
    : member d :=
  h.of_transGen hmember ((h.mem_flattened hmember).1 hd)

theorem Family.flattened_subset (h : Family member) {summary d : Summary} (hmember : member summary)
    (hd : d ∈ summary.flattened)
    : d.flattened ⊆ summary.flattened := by
  intro e he
  have hmember' := h.of_mem_flattened hmember hd
  rw [h.mem_flattened hmember] at hd ⊢
  exact hd.trans ((h.mem_flattened hmember').1 he)

theorem Family.coordinate_not_mem (h : Family member) {summary : Summary} (hmember : member summary)
    : summary.coordinate ∉ coordinates summary.flattened := by
  intro hmem
  have := sizeOf_lt_of_transGen (h.transGen_of_coordinate hmember hmember hmem)
  omega

theorem Family.get?_eq_some (h : Family member) {set : DependencySet}
    (hmember : ∀ d ∈ set, member d) {x : Summary} (hx : member x)
    (hcoordinate : x.coordinate ∈ coordinates set)
    : get? set x.coordinate = some x := by
  have hsome : (get? set x.coordinate).isSome := by
    simpa [get?, mem_coordinates] using hcoordinate
  rcases Option.isSome_iff_exists.1 hsome with ⟨y, hy⟩
  have heq : y.coordinate = x.coordinate := by simpa using List.find?_some hy
  rw [hy, h.eq_of_coordinate y x (hmember y (List.mem_of_find?_eq_some hy)) hx heq]

theorem Family.of_mem_closure (h : Family member) {set : DependencySet}
    (hmember : ∀ d ∈ set, member d) {x : Summary} (hx : x ∈ closure set)
    : member x := by
  rcases mem_closure hx with ⟨d, hd, rfl | hflattened⟩
  . exact hmember _ hd
  . exact h.of_mem_flattened (hmember d hd) hflattened

theorem Family.mem_closure_iff (h : Family member) {set : DependencySet}
    (hmember : ∀ d ∈ set, member d) {x : Summary}
    : x ∈ closure set ↔ x ∈ expanded set := by
  rw [mem_expanded]
  constructor
  . exact mem_closure
  . intro hx
    have hx' : member x := by
      rcases hx with ⟨d, hd, rfl | hflattened⟩
      . exact hmember _ hd
      . exact h.of_mem_flattened (hmember d hd) hflattened
    have hcoordinate : x.coordinate ∈ coordinates (closure set) := by
      rw [mem_coordinates_closure]
      rcases hx with ⟨d, hd, rfl | hflattened⟩
      . exact ⟨_, hd, .inl rfl⟩
      . exact ⟨d, hd, .inr (mem_coordinates.2 ⟨x, hflattened, rfl⟩)⟩
    rcases mem_coordinates.1 hcoordinate with ⟨y, hy, heq⟩
    rwa [← h.eq_of_coordinate y x (h.of_mem_closure hmember hy) hx' heq]

theorem Family.flattened_eq (h : Family member) {summary : Summary} (hmember : member summary)
    : summary.flattened = closure summary.declared :=
  (h.built _ hmember).assembled.flattened

theorem Family.expanded_declared_subset (h : Family member) {summary : Summary}
    (hmember : member summary)
    : expanded summary.declared ⊆ summary.flattened := by
  intro x hx
  rw [h.flattened_eq hmember]
  exact (h.mem_closure_iff (h.declared _ hmember)).2 hx

theorem Family.expanded_subset_closure (h : Family member) {set rest : DependencySet}
    (hmember : ∀ d ∈ set, member d) (hrest : rest ⊆ closure set)
    : expanded rest ⊆ closure set := by
  intro x hx
  rcases mem_expanded.1 hx with ⟨d, hd, rfl | hflattened⟩
  . exact hrest hd
  . rw [h.mem_closure_iff hmember, mem_expanded]
    rcases mem_closure (hrest hd) with ⟨e, he, rfl | hd⟩
    . exact ⟨_, he, .inr hflattened⟩
    . exact ⟨e, he, .inr (h.flattened_subset (hmember e he) hd hflattened)⟩

theorem Family.closure_filter_closure (h : Family member) {set : DependencySet}
    {keep : Summary → Bool} (hmember : ∀ d ∈ set, member d) (hkeep : ∀ d ∈ set, keep d = true)
    : closure ((closure set).filter keep) = closure set := by
  induction set using List.reverseRecOn with
  | nil => rfl
  | append_singleton set d ih =>
    simp only [List.forall_mem_append, List.forall_mem_singleton] at hmember hkeep
    have ih := ih hmember.1 hkeep.1
    by_cases hold : d.coordinate ∈ coordinates (closure set)
    . -- All that is below the last member has been there before.
      have hd : [d] ⊆ closure set := by
        rcases mem_coordinates.1 hold with ⟨x, hx, heq⟩
        rw [h.eq_of_coordinate x d (h.of_mem_closure hmember.1 hx) hmember.2 heq] at hx
        simpa using hx
      have hsubset := h.expanded_subset_closure hmember.1 hd
      rw [closure_append, insertAll_of_subset (List.map_subset _ hsubset), ih]
    . -- The last member adds itself and some things below it.
      rcases exists_insertAll_eq_append d.flattened (closure set ++ [d]) with ⟨new, hnew, heq⟩
      have hclosure : closure (set ++ [d]) = closure set ++ [d] ++ new := by
        rw [← heq, ← insert_of_notMem hold, closure_append]
        simp [expanded, insertAll]
      have hkept : new.filter keep ⊆ closure (set ++ [d]) := by
        intro x hx
        rw [hclosure]
        exact List.mem_append_right _ (List.mem_of_mem_filter hx)
      have hmember' : ∀ x ∈ set ++ [d], member x := by
        rw [List.forall_mem_append, List.forall_mem_singleton]
        exact hmember
      have hsubset := h.expanded_subset_closure hmember' hkept
      calc closure ((closure (set ++ [d])).filter keep)
        _ = closure ((closure set).filter keep ++ [d] ++ new.filter keep) := by
          rw [hclosure]
          simp [hkeep.2]
        _ = insertAll (closure (set ++ [d])) (expanded (new.filter keep)) := by
          rw [closure_append, closure_append, ih, ← closure_append]
        _ = closure (set ++ [d]) := insertAll_of_subset (List.map_subset _ hsubset)

end Summary
end ArtifactAudit
