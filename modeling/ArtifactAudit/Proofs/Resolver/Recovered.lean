import ArtifactAudit.Proofs.Cache.Apart
import ArtifactAudit.Proofs.Resolver.Reused

/-!
This module contains the proof that a resolution ends in the same way whether the entry of its artifact
in the cache is of no use or is missing, and that the entry is a good one afterwards.
-/

namespace ArtifactAudit
namespace Resolver

variable {Memory : Type}

/--
Two trees after the same summaries of other artifacts were stored in both.
-/
inductive Alongside (cache : Cache) (c : Coordinate) (tree bare : FileTree)
    : FileTree → FileTree → Prop where
  | start : Alongside cache c tree bare tree bare
  | stored {first second first' second' : FileTree} {summary : Summary} {path : Path}
    (alongside : Alongside cache c tree bare first second) (ne : summary.coordinate ≠ c)
    (store_eq : cache.store first summary = (.ok path, first'))
    (store_eq' : cache.store second summary = (.ok path, second'))
    : Alongside cache c tree bare first' second'

theorem Alongside.symm {cache : Cache} {c : Coordinate} {tree bare first second : FileTree}
    (h : Alongside cache c tree bare first second)
    : Alongside cache c bare tree second first := by
  induction h with
  | start => exact .start
  | stored _ ne store_eq store_eq' ih => exact .stored ih ne store_eq' store_eq

theorem Alongside.recordIn?_eq {cache : Cache} {c : Coordinate} {location : List String}
    {tree bare first second : FileTree} (h : Alongside cache c tree bare first second)
    (hapart : cache.Apart c location tree bare)
    : cache.Apart c location first second ∧ cache.recordIn? first c = cache.recordIn? tree c := by
  induction h with
  | start => exact ⟨hapart, rfl⟩
  | @stored _ _ _ _ summary _ _ ne store_eq store_eq' ih =>
    rcases ih with ⟨hbetween, hrecord⟩
    refine ⟨?_, ?_⟩
    . rcases hbetween.store summary with
        ⟨error, tree, tree', hstore, _⟩ | ⟨path, tree, tree', hstore, hstore', hafter⟩
      . rw [store_eq] at hstore
        cases hstore
      . rw [store_eq] at hstore
        rw [store_eq'] at hstore'
        cases hstore
        cases hstore'
        exact hafter
    . rw [Cache.recordIn?_store_of_ne store_eq ne.symm, hbetween.prepared_eq, hrecord]

def Serves (base : Resolver Memory) (cache : Cache) (c : Coordinate) (bare : FileTree)
    (artifact : Artifact)
    : Prop :=
  (∃ d, base.overlay.get? d = some artifact)
    ∨ ∃ first second memory d, Alongside cache c base.tree bare first second
      ∧ base.provider.answer first memory d = .ok artifact

/--
Whether neither the provider nor the class files of any artifact tell the two trees apart.
-/
structure Overlooks (base : Resolver Memory) (cache : Cache) (c : Coordinate) (bare : FileTree)
    : Prop where
  fetch_eq : ∀ {first second : FileTree}, Alongside cache c base.tree bare first second →
    base.provider.fetch second = base.provider.fetch first
  symbolsAt_eq : ∀ {first second : FileTree}, Alongside cache c base.tree bare first second →
    ∀ {artifact : Artifact}, Serves base cache c bare artifact →
      ClassSource.symbolsAt second base.skipDebug artifact.location
        = ClassSource.symbolsAt first base.skipDebug artifact.location

theorem Overlooks.symm {base : Resolver Memory} {cache : Cache} {c : Coordinate} {bare : FileTree}
    (h : Overlooks base cache c bare)
    : Overlooks { base with tree := bare } cache c base.tree where
  fetch_eq halongside := (h.fetch_eq halongside.symm).symm
  symbolsAt_eq halongside := by
    intro artifact hserves
    refine (h.symbolsAt_eq halongside.symm ?_).symm
    rcases hserves with hlocal | ⟨first, second, memory, d, hbetween, hanswer⟩
    . exact .inl hlocal
    . refine .inr ⟨second, first, memory, d, hbetween.symm, ?_⟩
      rw [Provider.answer] at hanswer ⊢
      rw [← hanswer, h.fetch_eq hbetween.symm]

/--
Two resolvers in the middle of the same resolution, whose trees differ in nothing but the entry of an
artifact that waits for what it depends on.
-/
structure Twins (base : Resolver Memory) (cache : Cache) (c : Coordinate) (bare : FileTree)
    (location : List String) (resolver twin : Resolver Memory)
    : Prop where
  eq : twin = { resolver with tree := twin.tree }
  provider_eq : resolver.provider = base.provider
  overlay_eq : resolver.overlay = base.overlay
  skipDebug_eq : resolver.skipDebug = base.skipDebug
  cache_eq : resolver.cache = some cache
  alongside : Alongside cache c base.tree bare resolver.tree twin.tree
  apart : cache.Apart c location resolver.tree twin.tree
  met : resolver.table.get? c ≠ none

variable {base before twin : Resolver Memory} {cache : Cache} {bare : FileTree} {c d : Coordinate}
  {location : List String}

theorem Twins.table_eq (h : Twins base cache c bare location before twin)
    : twin.table = before.table := by
  rw [h.eq]

theorem Twins.mark (h : Twins base cache c bare location before twin) (d : Coordinate)
    : Twins base cache c bare location (before.mark d .inProgress) (twin.mark d .inProgress) where
  eq := by rw [h.eq]; rfl
  provider_eq := h.provider_eq
  overlay_eq := h.overlay_eq
  skipDebug_eq := h.skipDebug_eq
  cache_eq := h.cache_eq
  alongside := h.alongside
  apart := h.apart
  met := by
    rw [table_mark]
    split
    . simp
    . exact h.met

theorem Twins.finish (h : Twins base cache c bare location before twin) (d : Coordinate)
    (summary : Summary)
    : Twins base cache c bare location (before.finish d summary) (twin.finish d summary) where
  eq := by rw [h.eq]; rfl
  provider_eq := h.provider_eq
  overlay_eq := h.overlay_eq
  skipDebug_eq := h.skipDebug_eq
  cache_eq := h.cache_eq
  alongside := h.alongside
  apart := h.apart
  met := by
    rw [table_finish]
    split
    . simp
    . exact h.met

theorem Twins.find (h : Twins base cache c bare location before twin)
    (hoverlooks : Overlooks base cache c bare) {answer : Except AuditError (Artifact × Bool)}
    {located : Resolver Memory} (hfind : (find d).run before = (answer, located))
    : ∃ located', (Resolver.find d).run twin = (answer, located')
        ∧ Twins base cache c bare location located located'
        ∧ ∀ artifact cacheable, answer = .ok (artifact, cacheable) →
          Serves base cache c bare artifact := by
  have hserves : ∀ artifact cacheable, answer = .ok (artifact, cacheable) →
      Serves base cache c bare artifact := by
    rintro artifact cacheable rfl
    rcases find_eq_ok hfind with ⟨_, hlocal, _⟩ | ⟨_, _, hanswer, _⟩
    . exact .inl ⟨d, h.overlay_eq ▸ hlocal⟩
    . exact .inr ⟨before.tree, twin.tree, before.memory, d, h.alongside, h.provider_eq ▸ hanswer⟩
  rw [run_find] at hfind ⊢
  rw [h.eq]
  dsimp only
  cases hlocal : before.overlay.get? d with
  | some artifact =>
    rw [hlocal] at hfind
    cases hfind
    refine ⟨_, rfl, ?_, hserves⟩
    rw [← h.eq]
    exact h
  | none =>
    rw [hlocal] at hfind
    dsimp only at hfind ⊢
    rw [h.provider_eq, hoverlooks.fetch_eq h.alongside, ← h.provider_eq]
    cases hfind
    exact ⟨_, rfl, ⟨rfl, h.provider_eq, h.overlay_eq, h.skipDebug_eq, h.cache_eq, h.alongside,
      h.apart, h.met⟩, hserves⟩

theorem Twins.recordOf (h : Twins base cache c bare location before twin) (hd : d ≠ c)
    {cacheable : Bool} {answer : Except AuditError (Option Record)} {after : Resolver Memory}
    (hrecord : (Resolver.recordOf d cacheable).run before = (answer, after))
    : (Resolver.recordOf d cacheable).run twin = (answer, twin) := by
  have hcache : twin.cache = before.cache := by rw [h.eq]
  rw [run_recordOf, Prod.mk.injEq] at hrecord
  rw [run_recordOf, ← hrecord.1, hcache, h.cache_eq]
  cases cacheable with
  | false => rfl
  | true =>
    dsimp only
    rw [h.apart.load_eq hd]

theorem Twins.compute (h : Twins base cache c bare location before twin)
    (hoverlooks : Overlooks base cache c bare) {artifact : Artifact}
    (hserves : Serves base cache c bare artifact) {cacheable : Bool} {declared : DependencySet}
    {answer : Except AuditError Summary} {after : Resolver Memory}
    (hcompute : (Resolver.compute d artifact cacheable declared).run before = (answer, after))
    : ∃ after', (Resolver.compute d artifact cacheable declared).run twin = (answer, after')
        ∧ (d ≠ c → ∀ summary, answer = .ok summary →
          Twins base cache c bare location after after') := by
  have hskip : twin.skipDebug = before.skipDebug := by rw [h.eq]
  have hcache : twin.cache = some cache := by rw [h.eq, h.cache_eq]
  have hsymbols := hoverlooks.symbolsAt_eq h.alongside hserves
  rw [← h.skipDebug_eq] at hsymbols
  rw [run_compute, analyze_eq] at hcompute ⊢
  rw [hskip, hsymbols]
  cases hread : ClassSource.symbolsAt before.tree before.skipDebug artifact.location with
  | error error =>
    rw [hread] at hcompute
    cases hcompute
    exact ⟨twin, rfl, fun _ _ heq => by cases heq⟩
  | ok symbols =>
    rw [hread] at hcompute
    cases cacheable with
    | false =>
      cases hcompute
      exact ⟨twin, rfl, fun _ _ _ => h⟩
    | true =>
      change ((((Resolver.store (.ofSymbols d declared symbols)).run before).1.map _, _)
        : Ended _ _) = _ at hcompute
      change ∃ after', ((((Resolver.store (.ofSymbols d declared symbols)).run twin).1.map _, _)
        : Ended _ _) = _ ∧ _
      rw [run_store, h.cache_eq] at hcompute
      rw [run_store, hcache]
      dsimp only at hcompute ⊢
      rcases h.apart.store (.ofSymbols d declared symbols) with
        ⟨error, tree, tree', hstore, hstore'⟩ | ⟨path, tree, tree', hstore, hstore', hapart⟩
      . rw [hstore] at hcompute
        rw [hstore']
        cases hcompute
        exact ⟨_, rfl, fun _ _ heq => by cases heq⟩
      . rw [hstore] at hcompute
        rw [hstore']
        cases hcompute
        refine ⟨_, rfl, fun hd _ _ => ⟨?_, h.provider_eq, h.overlay_eq, h.skipDebug_eq, rfl,
          .stored h.alongside hd hstore hstore', hapart, h.met⟩⟩
        rw [h.eq, h.cache_eq]

def EndsAlike {α : Type} (base : Resolver Memory) (cache : Cache) (c : Coordinate) (bare : FileTree)
    (location : List String) (run : Resolver Memory → Option (Ended Memory α))
    (before : Resolver Memory) (ended : Ended Memory α)
    : Prop :=
  ∀ twin, Twins base cache c bare location before twin →
    ∃ after', run twin = some (ended.1, after')
      ∧ ∀ a, ended.1 = .ok a → Twins base cache c bare location ended.2 after'

theorem EndsAlike.below {artifact : Artifact} {cacheable : Bool} {located linked : Resolver Memory}
    {answer : Except AuditError DependencySet}
    (hlinked : EndsAlike base cache c bare location (resolveAll? artifact.dependencies []) located
      (answer, linked))
    (hoverlooks : Overlooks base cache c bare)
    (hfind : (find d).run before = (.ok (artifact, cacheable), located))
    (h : Twins base cache c bare location before twin)
    : ∃ located' linked', (find d).run twin = (.ok (artifact, cacheable), located')
        ∧ resolveAll? artifact.dependencies [] located' = some (answer, linked')
        ∧ (∀ declared, answer = .ok declared → Twins base cache c bare location linked linked')
        ∧ Serves base cache c bare artifact := by
  rcases h.find hoverlooks hfind with ⟨located', hfind', hlocated, hserves⟩
  rcases hlinked located' hlocated with ⟨linked', hrun, htwins⟩
  exact ⟨located', linked', hfind', hrun, htwins, hserves artifact cacheable rfl⟩

theorem resolve?_endsAlike (hoverlooks : Overlooks base cache c bare)
    : ∀ d before ended, resolve? d before = some ended →
        EndsAlike base cache c bare location (resolve? d) before ended := by
  apply run_induction (fun d => EndsAlike base cache c bare location (resolve? d))
    (fun ds found => EndsAlike base cache c bare location (resolveAll? ds found))
    (fun d before ended => d ≠ c → EndsAlike base cache c bare location (summarize? d) before ended)
  case done =>
    intro d before summary hget twin h
    refine ⟨twin, ?_, fun _ _ => h⟩
    rw [resolve?, h.table_eq, hget]
  case cycle =>
    intro d before hget twin h
    refine ⟨twin, ?_, fun _ heq => by cases heq⟩
    rw [resolve?, h.table_eq, hget]
  case finished =>
    intro d before summary after hnone ih twin h
    have hd : d ≠ c := by
      rintro rfl
      exact h.met hnone
    rcases ih hd _ (h.mark d) with ⟨after', hrun, hafter⟩
    refine ⟨after'.finish d summary, ?_, fun _ _ => (hafter summary rfl).finish d summary⟩
    rw [resolve?, h.table_eq, hnone]
    dsimp only
    rw [hrun]
    rfl
  case failed =>
    intro d before error after hnone ih twin h
    have hd : d ≠ c := by
      rintro rfl
      exact h.met hnone
    rcases ih hd _ (h.mark d) with ⟨after', hrun, _⟩
    refine ⟨after'.unmark d, ?_, fun _ heq => by cases heq⟩
    rw [resolve?, h.table_eq, hnone]
    dsimp only
    rw [hrun]
    rfl
  case nil =>
    intro found before twin h
    refine ⟨twin, ?_, fun _ _ => h⟩
    rw [resolveAll?]
  case cons =>
    intro d ds found before summary between ended ih ihAll twin h
    rcases ih twin h with ⟨between', hrun, hbetween⟩
    rcases ihAll between' (hbetween summary rfl) with ⟨after', hrun', hafter⟩
    refine ⟨after', ?_, hafter⟩
    rw [resolveAll?, hrun]
    exact hrun'
  case consFailed =>
    intro d ds found before error after ih twin h
    rcases ih twin h with ⟨after', hrun, _⟩
    refine ⟨after', ?_, fun _ heq => by cases heq⟩
    rw [resolveAll?, hrun]
    rfl
  case notFound =>
    intro d before error after hfind _ twin h
    rcases h.find hoverlooks hfind with ⟨located', hfind', _⟩
    exact ⟨located', summarize?_notFound hfind', fun _ heq => by cases heq⟩
  case dependencyFailed =>
    intro d before artifact cacheable located error after hfind ih _ twin h
    rcases ih.below hoverlooks hfind h with ⟨_, after', hfind', hrun, _⟩
    exact ⟨after', summarize?_failed hfind' hrun, fun _ heq => by cases heq⟩
  case recordFailed =>
    intro d before artifact cacheable located declared linked error hfind ih hrecord hd twin h
    rcases ih.below hoverlooks hfind h with ⟨_, linked', hfind', hrun, hlinked, _⟩
    have hrecord' := (hlinked declared rfl).recordOf hd hrecord
    exact ⟨linked', summarize?_recordFailed hfind' hrun hrecord', fun _ heq => by cases heq⟩
  case computed =>
    intro d before artifact cacheable located declared linked hfind ih hrecord hd twin h
    rcases ih.below hoverlooks hfind h with ⟨_, linked', hfind', hrun, hlinked, hserves⟩
    have hrecord' := (hlinked declared rfl).recordOf hd hrecord
    rcases (hlinked declared rfl).compute hoverlooks hserves rfl with ⟨after', hcompute, hafter⟩
    exact ⟨after', (summarize?_computed hfind' hrun hrecord').trans (congrArg some hcompute),
      hafter hd⟩
  case relinkFailed =>
    intro d before artifact cacheable located declared linked record error after hfind ih hrecord
      ihDirect hd twin h
    rcases ih.below hoverlooks hfind h with ⟨_, linked', hfind', hrun, hlinked, _⟩
    have hrecord' := (hlinked declared rfl).recordOf hd hrecord
    rcases ihDirect linked' (hlinked declared rfl) with ⟨after', hdirect, _⟩
    exact ⟨after', summarize?_relinked hfind' hrun hrecord' hdirect, fun _ heq => by cases heq⟩
  case relinked =>
    intro d before artifact cacheable located declared linked record direct after hfind ih hrecord
      ihDirect hd twin h
    rcases ih.below hoverlooks hfind h with ⟨_, linked', hfind', hrun, hlinked, _⟩
    have hrecord' := (hlinked declared rfl).recordOf hd hrecord
    rcases ihDirect linked' (hlinked declared rfl) with ⟨after', hdirect, hafter⟩
    exact ⟨after', summarize?_relinked hfind' hrun hrecord' hdirect, fun _ _ => hafter direct rfl⟩

theorem resolveAll?_endsAlike (hoverlooks : Overlooks base cache c bare) (ds : List Coordinate)
    : ∀ found before ended, resolveAll? ds found before = some ended →
        EndsAlike base cache c bare location (resolveAll? ds found) before ended := by
  induction ds with
  | nil =>
    intro found before ended hrun twin h
    rw [resolveAll?] at hrun ⊢
    cases hrun
    exact ⟨twin, rfl, fun _ _ => h⟩
  | cons d ds ih =>
    intro found before ended hrun twin h
    rw [resolveAll?] at hrun ⊢
    rcases Option.bind_eq_some_iff.1 hrun with ⟨⟨answer, between⟩, hone, hrun⟩
    rcases resolve?_endsAlike hoverlooks d before _ hone twin h with ⟨between', hone', hbetween⟩
    rw [hone']
    cases answer with
    | error error =>
      cases hrun
      exact ⟨between', rfl, fun _ heq => by cases heq⟩
    | ok summary => exact ih _ between ended hrun between' (hbetween summary rfl)

theorem cacheable_of_find {artifact : Artifact} {cacheable : Bool} {located : Resolver Memory}
    (hoverlay : before.overlay.get? c = none)
    (hfind : (find c).run before = (.ok (artifact, cacheable), located))
    : cacheable = true := by
  rcases find_eq_ok hfind with ⟨_, hlocal, _⟩ | ⟨hcacheable, _⟩
  . rw [hoverlay] at hlocal
    cases hlocal
  . exact hcacheable

structure Recoverable (base : Resolver Memory) (cache : Cache) (c : Coordinate) (bare : FileTree)
    (location : List String)
    : Prop where
  cache_eq : base.cache = some cache
  table_eq : base.table.get? c = none
  overlay_eq : base.overlay.get? c = none
  apart : cache.Apart c location base.tree bare
  recordIn?_eq : cache.recordIn? base.tree c = none
  recordIn?_eq' : cache.recordIn? bare c = none
  overlooks : Overlooks base cache c bare

theorem Recoverable.symm (h : Recoverable base cache c bare location)
    : Recoverable { base with tree := bare } cache c base.tree location where
  cache_eq := h.cache_eq
  table_eq := h.table_eq
  overlay_eq := h.overlay_eq
  apart := h.apart.symm
  recordIn?_eq := h.recordIn?_eq'
  recordIn?_eq' := h.recordIn?_eq
  overlooks := h.overlooks.symm

theorem Recoverable.twins (h : Recoverable base cache c bare location)
    : Twins base cache c bare location (base.mark c .inProgress)
        ({ base with tree := bare }.mark c .inProgress) where
  eq := rfl
  provider_eq := rfl
  overlay_eq := rfl
  skipDebug_eq := rfl
  cache_eq := h.cache_eq
  alongside := .start
  apart := h.apart
  met := by simp

theorem Recoverable.summarize? (h : Recoverable base cache c bare location)
    (htime : cache.time < UInt64.size) {ended : Ended Memory Summary}
    (hrun : Resolver.summarize? c (base.mark c .inProgress) = some ended)
    : (∃ after', Resolver.summarize? c ({ base with tree := bare }.mark c .inProgress)
          = some (ended.1, after'))
        ∧ ∀ summary, ended.1 = .ok summary →
          cache.recordIn? ended.2.tree c = some (.ofSummary cache.time summary) := by
  rw [Resolver.summarize?] at hrun
  rcases hfind : (Resolver.find c).run (base.mark c .inProgress) with ⟨answer, located⟩
  rw [hfind] at hrun
  rcases h.twins.find h.overlooks hfind with ⟨located', hfind', hlocated, hserves⟩
  cases answer with
  | error error =>
    cases hrun
    exact ⟨⟨located', summarize?_notFound hfind'⟩, fun _ heq => by cases heq⟩
  | ok found =>
    rcases found with ⟨artifact, cacheable⟩
    have hoverlay : (base.mark c .inProgress).overlay.get? c = none := h.overlay_eq
    obtain rfl := cacheable_of_find hoverlay hfind
    dsimp only at hrun
    rcases Option.bind_eq_some_iff.1 hrun with ⟨⟨answer, linked⟩, hlinked, hrun⟩
    rcases resolveAll?_endsAlike h.overlooks _ _ _ _ hlinked located' hlocated with
      ⟨linked', hlinked', htwins⟩
    cases answer with
    | error error =>
      cases hrun
      exact ⟨⟨linked', summarize?_failed hfind' hlinked'⟩, fun _ heq => by cases heq⟩
    | ok declared =>
      have htwins : Twins base cache c bare location linked linked' := htwins declared rfl
      have hcache' : linked'.cache = some cache := by rw [htwins.eq, htwins.cache_eq]
      have hrecord : (Resolver.recordOf c true).run linked = (.ok none, linked) := by
        rw [run_recordOf_cached htwins.cache_eq, (htwins.alongside.recordIn?_eq h.apart).2,
          h.recordIn?_eq]
      have hrecord' : (Resolver.recordOf c true).run linked' = (.ok none, linked') := by
        rw [run_recordOf_cached hcache', (htwins.alongside.symm.recordIn?_eq h.apart.symm).2,
          h.recordIn?_eq']
      dsimp only at hrun
      rw [hrecord] at hrun
      rcases hcompute : (Resolver.compute c artifact true declared).run linked with ⟨answer, after⟩
      dsimp only at hrun
      rw [hcompute] at hrun
      obtain rfl : (answer, after) = ended := Option.some.inj hrun
      rcases htwins.compute h.overlooks (hserves artifact true rfl) hcompute with
        ⟨after', hcompute', _⟩
      refine ⟨⟨after', (summarize?_computed hfind' hlinked' hrecord').trans
        (congrArg some hcompute')⟩, ?_⟩
      rintro summary rfl
      rcases run_compute_cached htwins.cache_eq hcompute with
        ⟨symbols, path, tree, _, rfl, hstore, rfl⟩
      have hcoordinate : (Summary.ofSymbols c declared symbols).coordinate = c := rfl
      have hstored := Cache.recordIn?_store_self htime hstore
      rwa [hcoordinate] at hstored

theorem Recoverable.resolve? (h : Recoverable base cache c bare location)
    (htime : cache.time < UInt64.size) {ended : Ended Memory Summary}
    (hrun : Resolver.resolve? c base = some ended)
    : (∃ after', Resolver.resolve? c { base with tree := bare } = some (ended.1, after'))
        ∧ ∀ summary, ended.1 = .ok summary →
          cache.recordIn? ended.2.tree c = some (.ofSummary cache.time summary) := by
  rw [Resolver.resolve?, h.table_eq] at hrun ⊢
  rcases Option.bind_eq_some_iff.1 hrun with ⟨⟨answer, after⟩, hsummarize, hrun⟩
  rcases h.summarize? htime hsummarize with ⟨⟨after', hsummarize'⟩, hrecord⟩
  dsimp only
  rw [hsummarize']
  cases answer with
  | error error =>
    cases hrun
    exact ⟨⟨_, rfl⟩, fun _ heq => by cases heq⟩
  | ok summary =>
    cases hrun
    exact ⟨⟨_, rfl⟩, hrecord⟩

theorem Recoverable.resolve (h : Recoverable base cache c bare location)
    (htime : cache.time < UInt64.size)
    : ((Resolver.resolve c).run base).1 = ((Resolver.resolve c).run { base with tree := bare }).1
        ∧ ∀ summary after, (Resolver.resolve c).run base = (.ok summary, after) →
          cache.recordIn? after.tree c = some (.ofSummary cache.time summary) := by
  change ((Resolver.resolve? c base).getD _).1
    = ((Resolver.resolve? c { base with tree := bare }).getD _).1
      ∧ ∀ summary after, (Resolver.resolve? c base).getD _ = (.ok summary, after) → _
  cases hrun : Resolver.resolve? c base with
  | some ended =>
    rcases h.resolve? htime hrun with ⟨⟨after', hrun'⟩, hrecord⟩
    rw [hrun']
    refine ⟨rfl, ?_⟩
    rintro summary after rfl
    exact hrecord summary rfl
  | none =>
    have hrun' : Resolver.resolve? c { base with tree := bare } = none := by
      rw [Option.eq_none_iff_forall_ne_some]
      intro ended hended
      rcases (h.symm.resolve? htime hended).1 with ⟨after', hafter⟩
      change Resolver.resolve? c base = _ at hafter
      rw [hrun] at hafter
      cases hafter
    rw [hrun']
    exact ⟨rfl, fun _ _ heq => by cases heq⟩

theorem recoverable_of_remove? {resolver : Resolver Memory} {content : ByteArray}
    (hcache : resolver.cache = some cache) (htable : resolver.table.get? c = none)
    (hoverlay : resolver.overlay.get? c = none)
    (hcontent : resolver.tree.read? (cache.entryPath c) = some content)
    (hbad : ∀ record, Cache.decode? content = some record → record.metadata.compatible = true →
      record.coordinate ≠ c)
    (hremove : resolver.tree.remove? (cache.entryPath c) = some bare)
    (hoverlooks : Overlooks resolver cache c bare)
    : ∃ location, Recoverable resolver cache c bare location := by
  have hsplits := Cache.splits_entryPath cache c
  rcases FileTree.remove?_eq_some hsplits hcontent hremove with ⟨location, hinside, hremoved⟩
  rcases (FileTree.read?_eq_some hsplits).1 hcontent with ⟨_, again, hagain, hfile⟩
  rw [hinside, Option.some.injEq] at hagain
  subst hagain
  have hapart : cache.Apart c location resolver.tree bare :=
    ⟨hinside, hremoved.apart (by rw [hfile]; simp) (by simp)⟩
  have hrecord : cache.recordIn? resolver.tree c = none := by
    rw [Option.eq_none_iff_forall_ne_some]
    intro record hrecord
    rcases Cache.recordIn?_eq_some.1 hrecord with ⟨hdecode, hcompatible, hcoordinate⟩
    rw [hcontent] at hdecode
    exact hbad record hdecode hcompatible hcoordinate
  have hrecord' : cache.recordIn? bare c = none := by
    rw [Option.eq_none_iff_forall_ne_some]
    intro record hrecord
    rcases Option.bind_eq_some_iff.1 (Cache.recordIn?_eq_some.1 hrecord).1 with ⟨bytes, hread, _⟩
    rcases (FileTree.read?_eq_some hsplits).1 hread with ⟨_, again, hagain, hfile'⟩
    rw [hapart.apart.inside?_eq hsplits, hinside, Option.some.injEq] at hagain
    subst hagain
    rw [hremoved.standing_eq, Function.update_self] at hfile'
    cases hfile'
  exact ⟨location, hcache, htable, hoverlay, hapart, hrecord, hrecord', hoverlooks⟩

theorem Alongside.read?_eq {tree first second : FileTree} (h : Alongside cache c tree bare first second)
    {file : Path} {last : Char} {bytes : ByteArray}
    (hlast : file.text.toList.getLast? = some last) (hother : last ∉ ['z', 'p', '.', '/'])
    (hread : tree.read? file = some bytes)
    : first.read? file = some bytes := by
  induction h with
  | start => exact hread
  | stored _ _ store_eq _ ih => exact Cache.read?_store hlast hother ih store_eq

theorem overlooks_inventory {inventory : Inventory} (hprovider : base.provider = inventory.provider)
    (hoverlay : base.overlay = ∅)
    (hfiles : ∀ d artifact, inventory.get? d = some artifact → ∃ bytes last,
      base.tree.read? artifact.location = some bytes ∧ bare.read? artifact.location = some bytes
        ∧ artifact.location.text.toList.getLast? = some last ∧ last ∉ ['z', 'p', '.', '/'])
    : Overlooks base cache c bare where
  fetch_eq _ := by
    rw [hprovider]
    rfl
  symbolsAt_eq := by
    intro first second halongside artifact hserves
    have hget : ∃ d, inventory.get? d = some artifact := by
      rcases hserves with ⟨d, hlocal⟩ | ⟨_, _, _, d, _, hanswer⟩
      . rw [hoverlay, CoordinateMap.get?_empty] at hlocal
        cases hlocal
      . rw [hprovider] at hanswer
        exact ⟨d, Provider.get?_of_answer_inventory hanswer⟩
    rcases hget with ⟨d, hget⟩
    rcases hfiles d artifact hget with ⟨bytes, last, hread, hread', hlast, hother⟩
    exact ClassSource.symbolsAt_eq_of_read? (halongside.symm.read?_eq hlast hother hread')
      (halongside.read?_eq hlast hother hread) base.skipDebug

theorem fst_run_compute_failed {resolver : Resolver Memory} {artifact : Artifact}
    {declared : DependencySet} {error : AuditError}
    (hsymbols : ClassSource.symbolsAt resolver.tree resolver.skipDebug artifact.location
      = .error error)
    : ((compute c artifact true declared).run resolver).1 = .error error := by
  rw [run_compute, analyze_eq, hsymbols]
  rfl

theorem fst_run_compute_stored {resolver : Resolver Memory} {artifact : Artifact}
    {declared : DependencySet} {symbols : ClassFile.Symbols} {path : Path}
    (hcache : resolver.cache = some cache)
    (hsymbols : ClassSource.symbolsAt resolver.tree resolver.skipDebug artifact.location
      = .ok symbols)
    (hstore : (cache.store resolver.tree (.ofSymbols c declared symbols)).1 = .ok path)
    : ((compute c artifact true declared).run resolver).1 = .ok (.ofSymbols c declared symbols) := by
  rw [run_compute, analyze_eq, hsymbols]
  change ((store (.ofSymbols c declared symbols)).run resolver).1.map _ = _
  rw [run_store, hcache]
  dsimp only
  rw [hstore]
  rfl

theorem fst_run_resolve_alone {resolver : Resolver Memory} {location : Path}
    (htable : resolver.table.get? c = none)
    (hfind : (find c).run (resolver.mark c .inProgress)
      = (.ok (⟨location, []⟩, true), resolver.mark c .inProgress))
    (hcache : resolver.cache = some cache) (hrecord : cache.recordIn? resolver.tree c = none)
    : ((resolve c).run resolver).1
        =
      ((compute c ⟨location, []⟩ true []).run (resolver.mark c .inProgress)).1.mapError
        (·.within c) := by
  have hrun : resolveAll? [] [] (resolver.mark c .inProgress)
      = some (.ok [], resolver.mark c .inProgress) := by
    rw [resolveAll?]
  have hmarked : (resolver.mark c .inProgress).cache = some cache := hcache
  have hrecord' : cache.recordIn? (resolver.mark c .inProgress).tree c = none := hrecord
  have hrecordOf := run_recordOf_cached hmarked c
  rw [hrecord'] at hrecordOf
  change ((resolve? c resolver).getD _).1 = _
  rw [resolve?, htable]
  dsimp only
  rw [summarize?_computed hfind hrun hrecordOf]
  rcases (compute c ⟨location, []⟩ true []).run (resolver.mark c .inProgress) with
    ⟨error | summary, after⟩
  . rfl
  . rfl

/--
An entry of the cache that is of no use counts as none, and it is replaced by a good one.
-/
theorem resolve_recovered {resolver : Resolver Memory} {content : ByteArray}
    (hcache : resolver.cache = some cache) (htable : resolver.table.get? c = none)
    (hoverlay : resolver.overlay.get? c = none) (htime : cache.time < UInt64.size)
    (hcontent : resolver.tree.read? (cache.entryPath c) = some content)
    (hbad : ∀ record, Cache.decode? content = some record → record.metadata.compatible = true →
      record.coordinate ≠ c)
    (hremove : resolver.tree.remove? (cache.entryPath c) = some bare)
    (hoverlooks : Overlooks resolver cache c bare)
    : ((resolve c).run resolver).1 = ((resolve c).run { resolver with tree := bare }).1
        ∧ ∀ summary after, (resolve c).run resolver = (.ok summary, after) →
          cache.load after.tree c = .ok (some (.ofSummary cache.time summary)) := by
  rcases recoverable_of_remove? hcache htable hoverlay hcontent hbad hremove hoverlooks with
    ⟨location, hrecoverable⟩
  rcases hrecoverable.resolve htime with ⟨hsame, hrecord⟩
  refine ⟨hsame, ?_⟩
  intro summary after hrun
  exact Cache.load_of_recordIn? (hrecord summary after hrun)

namespace DebugOnly

def spoiled : FileTree :=
  { files with root := .directory (files.root.entries
      ++ [("cache", .directory [("g_b_1.json.gz", .file ⟨#[]⟩)])]) }

def cleared : FileTree :=
  { files with root := .directory (files.root.entries ++ [("cache", .directory [])]) }

theorem resolve_cleared : ((resolve leaf).run (resolver false cleared)).1 = .ok leafSummary := by
  have hfind : (find leaf).run ((resolver false cleared).mark leaf .inProgress)
      = (.ok (⟨⟨"b.class"⟩, []⟩, true), (resolver false cleared).mark leaf .inProgress) :=
    run_find_published (CoordinateMap.get?_empty leaf) rfl
  have hrecord : ownCache.recordIn? cleared leaf = none := by decide +kernel
  have hsymbols : ClassSource.symbolsAt cleared false ⟨"b.class"⟩ = .ok ⟨.ofList ["b/B"], ∅⟩ := by
    decide +kernel
  have hstore : (ownCache.store cleared leafSummary).1 = .ok ⟨"cache/g_b_1.json.gz"⟩ := by
    decide +kernel
  have hcompute : ((compute leaf ⟨⟨"b.class"⟩, []⟩ true []).run
      ((resolver false cleared).mark leaf .inProgress)).1 = .ok leafSummary :=
    fst_run_compute_stored rfl hsymbols hstore
  rw [fst_run_resolve_alone rfl hfind rfl hrecord, hcompute]
  rfl

end DebugOnly

open DebugOnly in
theorem resolve_recovered_spoiled
    : ∃ after, (resolve leaf).run (resolver false spoiled) = (.ok leafSummary, after)
        ∧ ownCache.load after.tree leaf = .ok (some (.ofSummary 0 leafSummary)) := by
  have hcontent : spoiled.read? (ownCache.entryPath leaf) = some ⟨#[]⟩ := by decide +kernel
  have hremove : spoiled.remove? (ownCache.entryPath leaf) = some cleared := rfl
  have hbad : ∀ record, Cache.decode? ⟨#[]⟩ = some record → record.metadata.compatible = true →
      record.coordinate ≠ leaf := by
    have hdecode : Cache.decode? ⟨#[]⟩ = none := by decide +kernel
    intro record hrecord
    rw [hdecode] at hrecord
    cases hrecord
  have hoverlooks : Overlooks (resolver false spoiled) ownCache leaf cleared := by
    apply overlooks_inventory rfl rfl
    intro c artifact hget
    rw [inventory, CoordinateMap.get?_insert, CoordinateMap.get?_insert, CoordinateMap.get?_empty]
      at hget
    split at hget
    . cases hget
      exact ⟨_, 's', rfl, rfl, by decide, by decide⟩
    . split at hget
      . cases hget
        exact ⟨_, 's', rfl, rfl, by decide, by decide⟩
      . cases hget
  have hoverlay : (resolver false spoiled).overlay.get? leaf = none := CoordinateMap.get?_empty leaf
  have hrecovered : ((resolve leaf).run (resolver false spoiled)).1
        = ((resolve leaf).run (resolver false cleared)).1
      ∧ ∀ summary after, (resolve leaf).run (resolver false spoiled) = (.ok summary, after) →
        ownCache.load after.tree leaf = .ok (some (.ofSummary 0 summary)) :=
    resolve_recovered rfl rfl hoverlay (by decide) hcontent hbad hremove hoverlooks
  rcases hrun : (resolve leaf).run (resolver false spoiled) with ⟨answer, after⟩
  rw [hrun, resolve_cleared] at hrecovered
  rcases hrecovered with ⟨rfl, hload⟩
  exact ⟨after, rfl, hload leafSummary after rfl⟩

def emptyArchive : ByteArray :=
  ⟨#[80, 75, 5, 6, 0, 0, 0, 0, 0, 0, 0, 0, 0, 0, 0, 0, 0, 0, 0, 0, 0, 0]⟩

def occupied : FileTree :=
  ⟨.directory [("cache", .directory [("g_a_1.json.gz", .file emptyArchive)])], []⟩

def vacated : FileTree := ⟨.directory [("cache", .directory [])], []⟩

open DebugOnly in
/--
A resolver for which the classes of the root are where the cache has the entry of the root.
-/
def misplaced (tree : FileTree) : Resolver Unit :=
  { provider := Inventory.provider (CoordinateMap.insert ∅ root ⟨ownCache.entryPath root, []⟩)
    memory := ()
    tree
    cache := some ownCache }

open DebugOnly in
/--
An entry that is of no use to the cache is of use to the provider, so the root is only found with it.
-/
theorem resolve_misplaced_differs
    : (occupied.read? (ownCache.entryPath root)).bind Cache.decode? = none
        ∧ occupied.remove? (ownCache.entryPath root) = some vacated
        ∧ ((resolve root).run (misplaced occupied)).1 = .ok (.ofSymbols root [] ∅)
        ∧ ((resolve root).run (misplaced vacated)).1
          = .error (.unreadableArtifact (ownCache.entryPath root) .missing) := by
  have hremove : occupied.remove? (ownCache.entryPath root) = some vacated := rfl
  have hfind (tree : FileTree)
      : (find root).run ((misplaced tree).mark root .inProgress)
        = (.ok (⟨ownCache.entryPath root, []⟩, true), (misplaced tree).mark root .inProgress) :=
    run_find_published (CoordinateMap.get?_empty root) rfl
  refine ⟨by decide +kernel, hremove, ?_, ?_⟩
  . have hrecord : ownCache.recordIn? occupied root = none := by decide +kernel
    have hsymbols : ClassSource.symbolsAt occupied false (ownCache.entryPath root) = .ok ∅ := by
      decide +kernel
    have hstore : (ownCache.store occupied (.ofSymbols root [] ∅)).1
        = .ok ⟨"cache/g_a_1.json.gz"⟩ := by
      decide +kernel
    have hcompute : ((compute root ⟨ownCache.entryPath root, []⟩ true []).run
        ((misplaced occupied).mark root .inProgress)).1 = .ok (.ofSymbols root [] ∅) :=
      fst_run_compute_stored rfl hsymbols hstore
    rw [fst_run_resolve_alone rfl (hfind occupied) rfl hrecord, hcompute]
    rfl
  . have hrecord : ownCache.recordIn? vacated root = none := by decide +kernel
    have hsymbols : ClassSource.symbolsAt vacated false (ownCache.entryPath root)
        = .error (.unreadableArtifact (ownCache.entryPath root) .missing) := by
      decide +kernel
    rw [fst_run_resolve_alone rfl (hfind vacated) rfl hrecord, fst_run_compute_failed hsymbols]
    rfl

end Resolver
end ArtifactAudit
