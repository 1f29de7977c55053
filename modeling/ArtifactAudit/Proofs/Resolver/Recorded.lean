import ArtifactAudit.Proofs.Cache.Store
import ArtifactAudit.Proofs.Provider
import ArtifactAudit.Proofs.Record.Restored
import ArtifactAudit.Proofs.Resolver.Requests

/-!
This module contains the theory of resolutions with a cache, whatever it has at first: all that is
done has a record that tells the same, and records stay while their artifacts wait.
-/

namespace ArtifactAudit
namespace Resolver

variable {Memory : Type}

open DependencySet

theorem run_recordOf_cached {resolver : Resolver Memory} {cache : Cache}
    (h : resolver.cache = some cache) (c : Coordinate)
    : (recordOf c true).run resolver = (.ok (cache.recordIn? resolver.tree c), resolver) := by
  rw [run_recordOf, h]
  dsimp only
  rcases cache.load_cases resolver.tree c with hload | ⟨error, hload, hrecoverable, hnone⟩
  . rw [hload]
  . rw [hload, hnone]
    dsimp only
    rw [if_pos hrecoverable]

theorem recordIn?_of_recordOf {resolver after : Resolver Memory} {cache : Cache} {c : Coordinate}
    {found : Option Record} (hcache : resolver.cache = some cache)
    (h : (recordOf c true).run resolver = (.ok found, after))
    : cache.recordIn? resolver.tree c = found := by
  rw [run_recordOf_cached hcache] at h
  exact Except.ok.inj (congrArg Prod.fst h)

theorem run_compute_cached {resolver after : Resolver Memory} {cache : Cache} {c : Coordinate}
    {artifact : Artifact} {declared : DependencySet} {summary : Summary}
    (hcache : resolver.cache = some cache)
    (h : (compute c artifact true declared).run resolver = (.ok summary, after))
    : ∃ symbols path tree,
        ClassSource.symbolsAt resolver.tree resolver.skipDebug artifact.location = .ok symbols
          ∧ summary = .ofSymbols c declared symbols
          ∧ cache.store resolver.tree summary = (.ok path, tree)
          ∧ after = { resolver with tree } := by
  rw [run_compute, analyze_eq] at h
  cases hsymbols : ClassSource.symbolsAt resolver.tree resolver.skipDebug artifact.location with
  | error error =>
    rw [hsymbols] at h
    cases h
  | ok symbols =>
    rw [hsymbols] at h
    change ((((store (.ofSymbols c declared symbols)).run resolver).1.map _, _) : Ended _ _) = _ at h
    rw [run_store, hcache] at h
    dsimp only at h
    cases hstore : cache.store resolver.tree (.ofSymbols c declared symbols) with
    | mk result tree =>
      rw [hstore] at h
      cases result with
      | error error => cases h
      | ok path =>
        cases h
        exact ⟨symbols, path, tree, rfl, rfl, hstore, by rw [hcache]⟩

theorem run_find_provided {resolver located : Resolver Memory} {c : Coordinate} {artifact : Artifact}
    {cacheable : Bool} (hoverlay : resolver.overlay = ∅)
    (h : (find c).run resolver = (.ok (artifact, cacheable), located))
    : cacheable = true
        ∧ resolver.provider.answer resolver.tree resolver.memory c = .ok artifact
        ∧ located = { resolver with
          memory := ((resolver.provider.fetch resolver.tree c).run resolver.memory).2 } := by
  rcases find_eq_ok h with ⟨_, hlocal, _⟩ | ⟨hcacheable, _, hanswer, hlocated⟩
  . rw [hoverlay, CoordinateMap.get?_empty] at hlocal
    cases hlocal
  . exact ⟨hcacheable, hanswer, hlocated⟩

theorem run_find_of_answer {resolver : Resolver Memory} {c : Coordinate} {artifact : Artifact}
    (hoverlay : resolver.overlay = ∅)
    (hanswer : resolver.provider.answer resolver.tree resolver.memory c = .ok artifact)
    : (find c).run resolver
        =
      (.ok (artifact, true),
        { resolver with
          memory := ((resolver.provider.fetch resolver.tree c).run resolver.memory).2 }) := by
  rw [run_find, hoverlay, CoordinateMap.get?_empty]
  dsimp only
  rw [Provider.answer] at hanswer
  rw [hanswer, ← hoverlay]
  rfl

theorem resolve?_stored {c : Coordinate} {artifact : Artifact} {cache : Cache}
    {before located linked : Resolver Memory} {declared : DependencySet}
    {symbols : ClassFile.Symbols} {path : Path} {tree : FileTree}
    (hnone : before.table.get? c = none)
    (hfind : (find c).run (before.mark c .inProgress) = (.ok (artifact, true), located))
    (hrun : resolveAll? artifact.dependencies [] located = some (.ok declared, linked))
    (hcache : linked.cache = some cache) (hrecord : cache.recordIn? linked.tree c = none)
    (hsymbols : ClassSource.symbolsAt linked.tree linked.skipDebug artifact.location = .ok symbols)
    (hstore : cache.store linked.tree (.ofSymbols c declared symbols) = (.ok path, tree))
    : resolve? c before
        = some (.ok (.ofSymbols c declared symbols),
          { linked with tree }.finish c (.ofSymbols c declared symbols)) := by
  have hcompute : (compute c artifact true declared).run linked
      = (.ok (.ofSymbols c declared symbols), { linked with tree }) := by
    rw [run_compute, analyze_eq, hsymbols]
    change ((((store (.ofSymbols c declared symbols)).run linked).1.map _, _) : Ended _ _) = _
    rw [run_store, hcache]
    dsimp only
    rw [hstore]
    rfl
  rw [resolve?, hnone]
  dsimp only
  rw [summarize?, hfind]
  dsimp only
  rw [hrun, Option.bind_eq_bind, Option.bind_eq_bind, Option.bind_some]
  dsimp only
  rw [run_recordOf_cached hcache, hrecord]
  dsimp only
  rw [hcompute]
  rfl

def HasRecord (cache : Cache) (c : Coordinate) (resolver : Resolver Memory) (summary : Summary)
    : Prop :=
  ∃ record, cache.recordIn? resolver.tree c = some record ∧ record.Tells summary

/--
A resolver with a cache in which all that is done has a record.
-/
structure Recorded (cache : Cache) (resolver : Resolver Memory) : Prop where
  cache_eq : resolver.cache = some cache
  overlay_eq : resolver.overlay = ∅
  recorded : ∀ c summary, resolver.get? c = some summary → HasRecord cache c resolver summary

/--
Whether what has been met in one state of a resolver has been met in another one, with the same record
if it had one.
-/
structure Keeps (cache : Cache) (before after : Resolver Memory) : Prop where
  met : ∀ c, before.table.get? c ≠ none → after.table.get? c ≠ none
  record_eq : ∀ c record, before.table.get? c ≠ none →
    cache.recordIn? before.tree c = some record → cache.recordIn? after.tree c = some record

variable {cache : Cache} {before after : Resolver Memory} {c : Coordinate}

theorem Keeps.refl (cache : Cache) (resolver : Resolver Memory) : Keeps cache resolver resolver :=
  ⟨fun _ => id, fun _ _ _ => id⟩

theorem Keeps.trans {between : Resolver Memory} (h : Keeps cache before between)
    (h' : Keeps cache between after)
    : Keeps cache before after where
  met c hmet := h'.met c (h.met c hmet)
  record_eq c record hmet hrecord :=
    h'.record_eq c record (h.met c hmet) (h.record_eq c record hmet hrecord)

theorem Recorded.mark (h : Recorded cache before) (c : Coordinate)
    : Recorded cache (before.mark c .inProgress) ∧ Keeps cache before (before.mark c .inProgress) := by
  refine ⟨⟨h.cache_eq, h.overlay_eq, forall_get?_mark h.recorded c⟩, ⟨?_, fun _ _ _ => id⟩⟩
  intro d hmet
  rw [table_mark]
  split
  . simp
  . exact hmet

theorem Recorded.finish (h : Recorded cache before) {summary : Summary}
    (hrecord : HasRecord cache c before summary)
    : Recorded cache (before.finish c summary) ∧ Keeps cache before (before.finish c summary) := by
  refine ⟨⟨h.cache_eq, h.overlay_eq, forall_get?_finish h.recorded hrecord⟩,
    ⟨?_, fun _ _ _ => id⟩⟩
  intro d hmet
  rw [table_finish]
  split
  . simp
  . exact hmet

theorem Recorded.find (h : Recorded cache before) {artifact : Artifact} {cacheable : Bool}
    {located : Resolver Memory}
    (hfind : (Resolver.find c).run before = (.ok (artifact, cacheable), located))
    : cacheable = true ∧ Recorded cache located ∧ Keeps cache before located := by
  rcases run_find_provided h.overlay_eq hfind with ⟨hcacheable, _, rfl⟩
  exact ⟨hcacheable, ⟨h.cache_eq, h.overlay_eq, h.recorded⟩, ⟨fun _ => id, fun _ _ _ => id⟩⟩

theorem HasRecord.coordinate_eq {summary : Summary} (h : HasRecord cache c before summary)
    : summary.coordinate = c := by
  rcases h with ⟨record, hrecord, htells⟩
  rw [← htells.coordinate_eq]
  exact (Cache.recordIn?_eq_some.1 hrecord).2.2

theorem Recorded.compute (h : Recorded cache before) (htime : cache.time < UInt64.size)
    (hnone : cache.recordIn? before.tree c = none) {artifact : Artifact} {declared : DependencySet}
    {summary : Summary}
    (hcompute : (Resolver.compute c artifact true declared).run before = (.ok summary, after))
    : Recorded cache after ∧ Keeps cache before after ∧ HasRecord cache c after summary := by
  rcases run_compute_cached h.cache_eq hcompute with ⟨symbols, path, tree, _, rfl, hstore, rfl⟩
  have hkept : ∀ d record, cache.recordIn? before.tree d = some record →
      cache.recordIn? tree d = some record := by
    intro d record hrecord
    have hne : d ≠ c := by
      rintro rfl
      rw [hnone] at hrecord
      cases hrecord
    exact (Cache.recordIn?_store_of_ne hstore hne).trans (Cache.recordIn?_prepared hrecord)
  have hself := Cache.recordIn?_store_self htime hstore
  have hstored : HasRecord cache c { before with tree } (.ofSymbols c declared symbols) :=
    ⟨_, hself, Record.tells_ofSummary _ c declared symbols⟩
  refine ⟨⟨h.cache_eq, h.overlay_eq, ?_⟩, ⟨fun _ => id, fun d record _ => hkept d record⟩, hstored⟩
  intro d other hget
  rcases h.recorded d other hget with ⟨record, hrecord, htells⟩
  exact ⟨record, hkept d record hrecord, htells⟩

end Resolver
end ArtifactAudit
