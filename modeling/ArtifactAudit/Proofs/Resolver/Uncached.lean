import ArtifactAudit.Proofs.Provider
import ArtifactAudit.Proofs.Resolver.Requests
import ArtifactAudit.Proofs.Supply

/-!
This module contains the theory of resolutions without a cache. All that such a resolution comes to
know is fixed from the start, and only its table and its provider's memory change.
-/

namespace ArtifactAudit
namespace Resolver

variable {Memory : Type}

open Supply

/--
What a resolver can come to know: an artifact of the overlay counts, and any other one is as the
provider says.
-/
def supply (resolver : Resolver Memory) : Supply where
  artifact c :=
    match resolver.overlay.get? c with
    | some artifact => .ok artifact
    | none => resolver.provider.answer resolver.tree resolver.memory c
  symbols := ClassSource.symbolsAt resolver.tree resolver.skipDebug

def setting (resolver : Resolver Memory)
    : Provider Memory × FileTree × Bool × CoordinateMap Artifact × Option Cache :=
  (resolver.provider, resolver.tree, resolver.skipDebug, resolver.overlay, resolver.cache)

structure Going (base : Resolver Memory) (above : List Coordinate) (resolver : Resolver Memory)
    : Prop where
  setting_eq : resolver.setting = base.setting
  memory : ∃ asked, resolver.memory = base.provider.memoryAfter base.tree base.memory asked
  inProgress : ∀ c, resolver.table.get? c = some .inProgress ↔ c ∈ above
  done : ∀ c summary, resolver.table.get? c = some (.done summary) → Clean base.supply c

theorem going_fresh (resolver : Resolver Memory) : Going resolver [] resolver.fresh where
  setting_eq := rfl
  memory := ⟨[], rfl⟩
  inProgress c := by simp [fresh]
  done c summary h := by cases h

theorem Going.find {base before : Resolver Memory} {above : List Coordinate}
    (h : Going base above before)
    (hdependable : base.provider.Dependable base.tree base.memory) (c : Coordinate)
    : ((Resolver.find c).run before).1.map Prod.fst = base.supply.artifact c
        ∧ Going base above ((Resolver.find c).run before).2 := by
  rcases h.memory with ⟨asked, hmemory⟩
  have hsetting := h.setting_eq
  simp only [setting, Prod.mk.injEq] at hsetting
  rcases hsetting with ⟨hprovider, htree, _, hoverlay, _⟩
  simp only [run_find, supply, hoverlay]
  cases base.overlay.get? c with
  | some artifact => exact ⟨rfl, h⟩
  | none =>
    dsimp only
    have hfetch : (before.provider.fetch before.tree c).run before.memory
        = (base.provider.fetch base.tree c).run
          (base.provider.memoryAfter base.tree base.memory asked) := by
      rw [hprovider, htree, hmemory]
    rw [hfetch]
    refine ⟨?_, ⟨?_, ⟨asked ++ [c], ?_⟩, h.inProgress, h.done⟩⟩
    . rw [← hdependable.steady asked c, Provider.answer]
      cases ((base.provider.fetch base.tree c).run
        (base.provider.memoryAfter base.tree base.memory asked)).1 <;> rfl
    . rw [← h.setting_eq, ← hoverlay]
      rfl
    . simp [Provider.memoryAfter]

theorem Going.mark {base before : Resolver Memory} {above : List Coordinate}
    (h : Going base above before) (c : Coordinate)
    : Going base (c :: above) (before.mark c .inProgress) where
  setting_eq := h.setting_eq
  memory := h.memory
  inProgress := inProgress_mark h.inProgress c
  done d summary hget := by
    rw [table_mark] at hget
    split at hget
    . cases hget
    . exact h.done d summary hget

theorem Going.finish {base after : Resolver Memory} {above : List Coordinate} {c : Coordinate}
    (h : Going base (c :: above) after) (hnew : c ∉ above) (hclean : Clean base.supply c)
    (summary : Summary)
    : Going base above (after.finish c summary) where
  setting_eq := h.setting_eq
  memory := h.memory
  inProgress := inProgress_finish h.inProgress hnew _
  done d other hget := by
    rw [table_finish] at hget
    split at hget
    . next heq => exact heq ▸ hclean
    . exact h.done d other hget

theorem Going.unmark {base after : Resolver Memory} {above : List Coordinate} {c : Coordinate}
    (h : Going base (c :: above) after) (hnew : c ∉ above)
    : Going base above (after.unmark c) where
  setting_eq := h.setting_eq
  memory := h.memory
  inProgress := inProgress_unmark h.inProgress hnew
  done d other hget := by
    rw [table_unmark] at hget
    split at hget
    . cases hget
    . exact h.done d other hget

theorem run_recordOf_uncached {resolver : Resolver Memory} (h : resolver.cache = none)
    (c : Coordinate) (cacheable : Bool)
    : (recordOf c cacheable).run resolver = (.ok none, resolver) := by
  rw [run_recordOf, h]
  cases cacheable <;> rfl

theorem run_compute_uncached {resolver : Resolver Memory} (h : resolver.cache = none)
    (c : Coordinate) (artifact : Artifact) (cacheable : Bool) (declared : DependencySet)
    : (compute c artifact cacheable declared).run resolver
        =
      (analyze resolver.tree resolver.skipDebug c declared artifact.location, resolver) := by
  have hstore : ∀ summary, (store summary).run resolver = (.ok (), resolver) := by
    intro summary
    rw [run_store, h]
  rw [run_compute]
  cases analyze resolver.tree resolver.skipDebug c declared artifact.location with
  | error error => rfl
  | ok summary =>
    dsimp only
    rw [hstore]
    cases cacheable <;> rfl

theorem summarize?_uncached {c : Coordinate} {before located linked : Resolver Memory}
    {artifact : Artifact} {cacheable : Bool} {declared : DependencySet}
    (hfind : (find c).run before = (.ok (artifact, cacheable), located))
    (hrun : resolveAll? artifact.dependencies [] located = some (.ok declared, linked))
    (hcache : linked.cache = none)
    : summarize? c before
        =
      some (analyze linked.tree linked.skipDebug c declared artifact.location, linked) := by
  rw [summarize?_computed hfind hrun (run_recordOf_uncached hcache ..), run_compute_uncached hcache]

end Resolver
end ArtifactAudit
