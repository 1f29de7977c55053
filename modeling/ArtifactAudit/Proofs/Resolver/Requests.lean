import ArtifactAudit.Proofs.Resolver.Invariant

/-!
This module contains the invariant of resolvers between requests: whatever has been asked for, the
table, the order and the roots of a resolver agree, and what is done stays as it is.
-/

namespace ArtifactAudit
namespace Resolver

variable {Memory : Type}

inductive Request where
  | addLocal (c : Coordinate) (artifact : Artifact)
  | resolve (c : Coordinate)
  | addRoot (c : Coordinate)

def perform (resolver : Resolver Memory) : Request → Resolver Memory
  | .addLocal c artifact => resolver.addLocal c artifact
  | .resolve c => ((resolve c).run resolver).2
  | .addRoot c => ((addRoot c).run resolver).2

def performAll (resolver : Resolver Memory) (requests : List Request) : Resolver Memory :=
  requests.foldl perform resolver

def fresh (resolver : Resolver Memory) : Resolver Memory :=
  { resolver with table := ∅, order := [], roots := [] }

/--
What holds of a resolver between requests.
-/
structure Consistent (resolver : Resolver Memory) : Prop extends Sound resolver where
  settled : ∀ c, resolver.table.get? c ≠ some .inProgress

theorem consistent_fresh (resolver : Resolver Memory) : Consistent resolver.fresh := by
  constructor
  . constructor <;> simp [fresh, get?, DependencySet.coordinates]
  . simp [fresh]

theorem resolve_run (c : Coordinate) (resolver : Resolver Memory)
    : (resolve? c resolver = some ((resolve c).run resolver))
        ∨
      (∃ error, (resolve c).run resolver = (.error error, resolver)) := by
  change _ ∨ ∃ error, (resolve? c resolver).getD _ = _
  cases h : resolve? c resolver with
  | none => exact .inr ⟨_, rfl⟩
  | some ended =>
    left
    change _ = some ((resolve? c resolver).getD _)
    rw [h]
    rfl

theorem Consistent.extends {before after : Resolver Memory} (hbefore : Consistent before)
    (hafter : Sound after) (hextends : Extends before after)
    : Consistent after where
  toSound := hafter
  settled c := by
    rw [Ne, hextends.inProgress]
    exact hbefore.settled c

theorem Consistent.resolve {before : Resolver Memory} (h : Consistent before) (c : Coordinate)
    : Consistent ((Resolver.resolve c).run before).2
        ∧ Extends before ((Resolver.resolve c).run before).2
        ∧ ∀ summary, ((Resolver.resolve c).run before).1 = .ok summary →
          ((Resolver.resolve c).run before).2.get? c = some summary := by
  rcases resolve_run c before with hended | ⟨error, hrun⟩
  . rcases resolve?_sound c before _ hended h.toSound with ⟨hafter, hextends, hok⟩
    exact ⟨h.extends hafter hextends, hextends, hok⟩
  . rw [hrun]
    refine ⟨h, .refl before, ?_⟩
    intro summary heq
    cases heq

theorem run_addRoot (c : Coordinate) (resolver : Resolver Memory)
    : (addRoot c).run resolver
        =
      match (resolve c).run resolver with
      | (.ok summary, after) =>
        (.ok summary,
          if DependencySet.contains after.roots c then after
          else { after with roots := after.roots ++ [summary] })
      | (.error error, after) => (.error error, after) := by
  unfold addRoot
  rw [Resolving.run_bind]
  rcases (resolve c).run resolver with ⟨answer | answer, after⟩ <;> rfl

section

variable {keeps : Resolver Memory → Prop} {c : Coordinate} {before : Resolver Memory}
  (h : ∀ ended, resolve? c before = some ended → keeps ended.2) (hbefore : keeps before)

include h hbefore

theorem resolve_keeps : keeps ((resolve c).run before).2 := by
  rcases resolve_run c before with hended | ⟨error, hrun⟩
  . exact h _ hended
  . rw [hrun]
    exact hbefore

theorem addRoot_keeps
    (hroots : ∀ {resolver : Resolver Memory} (roots : DependencySet),
      keeps resolver → keeps { resolver with roots })
    : keeps ((addRoot c).run before).2 := by
  have hresolve := resolve_keeps h hbefore
  rw [run_addRoot]
  revert hresolve
  rcases (resolve c).run before with ⟨error | summary, after⟩
  . exact id
  . intro hresolve
    dsimp only at hresolve ⊢
    split
    . exact hresolve
    . exact hroots _ hresolve

end

theorem Consistent.appendRoot {resolver : Resolver Memory} (h : Consistent resolver)
    {summary : Summary} (hget : resolver.get? summary.coordinate = some summary)
    (hnew : summary.coordinate ∉ DependencySet.coordinates resolver.roots)
    : Consistent { resolver with roots := resolver.roots ++ [summary] } where
  order_nodup := h.order_nodup
  mem_order := h.mem_order
  coordinate_eq := h.coordinate_eq
  dependency_done := h.dependency_done
  roots_nodup := by
    rw [DependencySet.coordinates, List.map_append, List.nodup_append]
    refine ⟨h.roots_nodup, by simp, ?_⟩
    intro c hc d hd heq
    rw [List.map_singleton, List.mem_singleton] at hd
    exact hnew (hd ▸ heq ▸ hc)
  roots_done := by
    intro root hroot
    rw [List.mem_append, List.mem_singleton] at hroot
    cases hroot with
    | inl hold => exact h.roots_done root hold
    | inr heq => exact heq ▸ hget
  settled := h.settled

theorem Consistent.addRoot {before : Resolver Memory} (h : Consistent before) (c : Coordinate)
    : Consistent ((Resolver.addRoot c).run before).2
        ∧ ∀ d summary, before.get? d = some summary →
          ((Resolver.addRoot c).run before).2.get? d = some summary := by
  have hresolve := h.resolve c
  rw [run_addRoot]
  cases hrun : (Resolver.resolve c).run before with
  | mk answer after =>
    rw [hrun] at hresolve
    rcases hresolve with ⟨hafter, hextends, hok⟩
    cases answer with
    | error error => exact ⟨hafter, hextends.done⟩
    | ok summary =>
      have hget := hok summary rfl
      have hcoordinate := hafter.coordinate_eq c summary hget
      dsimp only
      split
      . exact ⟨hafter, hextends.done⟩
      . next hnew =>
        rw [DependencySet.contains_iff, ← hcoordinate] at hnew
        exact ⟨hafter.appendRoot (hcoordinate ▸ hget) hnew, hextends.done⟩

theorem Consistent.addLocal {before : Resolver Memory} (h : Consistent before) (c : Coordinate)
    (artifact : Artifact)
    : Consistent (before.addLocal c artifact) where
  order_nodup := h.order_nodup
  mem_order := h.mem_order
  coordinate_eq := h.coordinate_eq
  dependency_done := h.dependency_done
  roots_nodup := h.roots_nodup
  roots_done := h.roots_done
  settled := h.settled

theorem Consistent.perform {before : Resolver Memory} (h : Consistent before) (request : Request)
    : Consistent (before.perform request)
        ∧ ∀ c summary, before.get? c = some summary →
          (before.perform request).get? c = some summary := by
  cases request with
  | addLocal c artifact => exact ⟨h.addLocal c artifact, fun _ _ => id⟩
  | resolve c =>
    rcases h.resolve c with ⟨hafter, hextends, _⟩
    exact ⟨hafter, hextends.done⟩
  | addRoot c => exact h.addRoot c

theorem Consistent.performAll (requests : List Request)
    : ∀ {before : Resolver Memory}, Consistent before →
        Consistent (before.performAll requests)
          ∧ ∀ c summary, before.get? c = some summary →
            (before.performAll requests).get? c = some summary := by
  induction requests with
  | nil => exact fun h => ⟨h, fun _ _ => id⟩
  | cons request rest ih =>
    intro before h
    rcases h.perform request with ⟨hnext, hdone⟩
    rcases ih hnext with ⟨hafter, hdone'⟩
    exact ⟨hafter, fun c summary hget => hdone' c summary (hdone c summary hget)⟩

theorem Sound.map_coordinate_summaries {resolver : Resolver Memory} (h : Sound resolver)
    : resolver.summaries.map Summary.coordinate = resolver.order := by
  have hlisted : ∀ c ∈ resolver.order, (resolver.get? c).map Summary.coordinate = some c := by
    intro c hc
    rcases Option.isSome_iff_exists.1 ((h.mem_order c).1 hc) with ⟨summary, hget⟩
    rw [hget, Option.map_some, h.coordinate_eq c summary hget]
  unfold summaries
  rw [List.map_filterMap, List.filterMap_congr hlisted, List.filterMap_some]

theorem Sound.not_mem_flattened {resolver : Resolver Memory} (h : Sound resolver) {c : Coordinate}
    {summary : Summary} (hget : resolver.get? c = some summary)
    : c ∉ DependencySet.coordinates summary.flattened := by
  intro hmem
  rcases DependencySet.mem_coordinates.1 hmem with ⟨d, hd, rfl⟩
  have := (h.dependency_done _ _ hget d (.inr hd)).2
  omega

/--
After any requests to a fresh resolver nothing is in progress, the order lists the artifacts that
are done, each after all it depends on, the roots are among them, and further requests change
nothing of what is done.
-/
theorem consistent_performAll_fresh (resolver : Resolver Memory) (requests : List Request)
    : let after := resolver.fresh.performAll requests
      Consistent after
        ∧ after.summaries.map Summary.coordinate = after.order
        ∧ (∀ c summary, after.get? c = some summary →
          c ∉ DependencySet.coordinates summary.flattened)
        ∧ ∀ later c summary, after.get? c = some summary →
          (after.performAll later).get? c = some summary := by
  intro after
  have hafter : Consistent after := ((consistent_fresh resolver).performAll requests).1
  refine ⟨hafter, hafter.map_coordinate_summaries, ?_, ?_⟩
  . intro c summary hget
    exact hafter.not_mem_flattened hget
  . intro later
    exact (hafter.performAll later).2

end Resolver
end ArtifactAudit
