import ArtifactAudit.Proofs.Resolver.Recorded

/-!
This module contains the theory of resolutions with the cache that another resolution has left. What
has a record is given back as it was recorded, whatever the settings of the resolution are.
-/

namespace ArtifactAudit
namespace Resolver

variable {Memory : Type}

open DependencySet Record

def Closed (filed : Coordinate → Option Summary) : Prop :=
  ∀ c summary, filed c = some summary → ∀ d ∈ summary.declared, filed d.coordinate = some d

structure Restoring (filed : Coordinate → Option Summary) (cache : Cache)
    (resolver : Resolver Memory)
    : Prop where
  cache_eq : ∃ own, resolver.cache = some own ∧ own.directory = cache.directory
  overlay_eq : resolver.overlay = ∅
  recorded : ∀ c summary, filed c = some summary → HasRecord cache c resolver summary
  restores : ∀ c again, resolver.get? c = some again →
    again.coordinate = c ∧ ∀ summary, filed c = some summary → Restores again summary

variable {filed : Coordinate → Option Summary} {cache : Cache} {before : Resolver Memory}
  {c : Coordinate}

theorem Restoring.mark (h : Restoring filed cache before) (c : Coordinate)
    : Restoring filed cache (before.mark c .inProgress) where
  cache_eq := h.cache_eq
  overlay_eq := h.overlay_eq
  recorded := h.recorded
  restores := forall_get?_mark h.restores c

theorem Restoring.finish (h : Restoring filed cache before) {again : Summary}
    (hagain : again.coordinate = c ∧ ∀ summary, filed c = some summary → Restores again summary)
    : Restoring filed cache (before.finish c again) where
  cache_eq := h.cache_eq
  overlay_eq := h.overlay_eq
  recorded := h.recorded
  restores := forall_get?_finish h.restores hagain

theorem Restoring.find (h : Restoring filed cache before) {artifact : Artifact} {cacheable : Bool}
    {located : Resolver Memory}
    (hfind : (Resolver.find c).run before = (.ok (artifact, cacheable), located))
    : cacheable = true ∧ Restoring filed cache located := by
  rcases run_find_provided h.overlay_eq hfind with ⟨hcacheable, _, rfl⟩
  exact ⟨hcacheable, h.cache_eq, h.overlay_eq, h.recorded, h.restores⟩

theorem Restoring.run_recordOf (h : Restoring filed cache before) (c : Coordinate)
    : (recordOf c true).run before = (.ok (cache.recordIn? before.tree c), before) := by
  rcases h.cache_eq with ⟨own, hown, hdirectory⟩
  rw [run_recordOf_cached hown, Cache.recordIn?_congr hdirectory]

theorem Restoring.recordIn?_of_recordOf (h : Restoring filed cache before) {after : Resolver Memory}
    {found : Option Record} (hrecord : (recordOf c true).run before = (.ok found, after))
    : cache.recordIn? before.tree c = found := by
  rcases h.cache_eq with ⟨own, hown, hdirectory⟩
  rw [← Cache.recordIn?_congr hdirectory]
  exact Resolver.recordIn?_of_recordOf hown hrecord

theorem Restoring.compute (h : Restoring filed cache before) (hnone : filed c = none)
    {artifact : Artifact} {declared : DependencySet} {summary : Summary} {after : Resolver Memory}
    (hcompute : (Resolver.compute c artifact true declared).run before = (.ok summary, after))
    : Restoring filed cache after ∧ summary.coordinate = c := by
  rcases h.cache_eq with ⟨own, hown, hdirectory⟩
  rcases run_compute_cached hown hcompute with ⟨symbols, path, tree, _, rfl, hstore, rfl⟩
  refine ⟨⟨h.cache_eq, h.overlay_eq, ?_, h.restores⟩, rfl⟩
  intro d other hfiled
  have hne : d ≠ c := by
    rintro rfl
    rw [hnone] at hfiled
    cases hfiled
  rcases h.recorded d other hfiled with ⟨record, hrecord, htells⟩
  refine ⟨record, ?_, htells⟩
  rw [← Cache.recordIn?_congr hdirectory] at hrecord ⊢
  exact (Cache.recordIn?_store_of_ne hstore hne).trans (Cache.recordIn?_prepared hrecord)

end Resolver
end ArtifactAudit
