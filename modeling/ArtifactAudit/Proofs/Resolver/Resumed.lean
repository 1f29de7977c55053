import ArtifactAudit.Proofs.Resolver.Restored

/-!
This module contains the proof that a resolution with the cache that another one has left gives what
that one gave, whatever the settings of the two are, and that it succeeds if artifacts still declare
the same dependencies.
-/

namespace ArtifactAudit
namespace Resolver

variable {Memory : Type}

open DependencySet Record

structure Resumes (base : Resolver Memory) (filed : Coordinate → Option Summary) (cache : Cache)
    (above : List Coordinate) (resolver : Resolver Memory)
    : Prop extends Restoring filed cache resolver where
  provider_eq : resolver.provider = base.provider
  tree_eq : resolver.tree = base.tree
  memory_eq : ∃ asked, resolver.memory = base.provider.memoryAfter base.tree base.memory asked
  inProgress : ∀ c, resolver.table.get? c = some .inProgress ↔ c ∈ above

variable {base before : Resolver Memory} {filed : Coordinate → Option Summary} {cache : Cache}
  {above : List Coordinate} {c : Coordinate}

theorem Resumes.mark (h : Resumes base filed cache above before) (c : Coordinate)
    : Resumes base filed cache (c :: above) (before.mark c .inProgress) where
  toRestoring := h.toRestoring.mark c
  provider_eq := h.provider_eq
  tree_eq := h.tree_eq
  memory_eq := h.memory_eq
  inProgress := inProgress_mark h.inProgress c

theorem Resumes.finish (h : Resumes base filed cache (c :: above) before) (hnew : c ∉ above)
    {again : Summary}
    (hagain : again.coordinate = c ∧ ∀ summary, filed c = some summary → Restores again summary)
    : Resumes base filed cache above (before.finish c again) where
  toRestoring := h.toRestoring.finish hagain
  provider_eq := h.provider_eq
  tree_eq := h.tree_eq
  memory_eq := h.memory_eq
  inProgress := inProgress_finish h.inProgress hnew _

theorem Resumes.find (h : Resumes base filed cache above before)
    (hsteady : base.provider.Steady base.tree base.memory) {artifact : Artifact}
    (hanswer : base.provider.answer base.tree base.memory c = .ok artifact)
    : ∃ located, (Resolver.find c).run before = (.ok (artifact, true), located)
        ∧ Resumes base filed cache above located := by
  rcases h.memory_eq with ⟨asked, hmemory⟩
  have hanswer' : before.provider.answer before.tree before.memory c = .ok artifact := by
    rw [h.provider_eq, h.tree_eq, hmemory, ← hanswer]
    exact hsteady asked c
  refine ⟨_, run_find_of_answer h.overlay_eq hanswer', ?_⟩
  refine ⟨⟨h.cache_eq, h.overlay_eq, h.recorded, h.restores⟩, h.provider_eq, h.tree_eq, ?_,
    h.inProgress⟩
  refine ⟨asked ++ [c], ?_⟩
  rw [Provider.memoryAfter_append, ← hmemory, ← h.provider_eq, ← h.tree_eq]
  rfl

/--
Whether some summaries are of artifacts that are still found, with no dependencies that the summaries
do not declare, and whether there is an order in which dependencies come first.
-/
structure StillFound (base : Resolver Memory) (filed : Coordinate → Option Summary)
    (rank : Coordinate → Nat)
    : Prop where
  found : ∀ c summary, filed c = some summary → ∃ artifact,
    base.provider.answer base.tree base.memory c = .ok artifact
      ∧ artifact.dependencies ⊆ coordinates summary.declared
  lower : ∀ c summary, filed c = some summary →
    ∀ d ∈ summary.declared, filed d.coordinate = some d ∧ rank d.coordinate < rank c

theorem StillFound.closed {rank : Coordinate → Nat} (h : StillFound base filed rank)
    : Closed filed :=
  fun c summary hfiled d hd => (h.lower c summary hfiled d hd).1

end Resolver
end ArtifactAudit
