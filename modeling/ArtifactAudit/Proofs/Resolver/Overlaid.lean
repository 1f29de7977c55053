import ArtifactAudit.Proofs.Resolver.Reused

/-!
This module contains what resolutions with local artifacts leave in a cache. A local artifact is never
stored, and what is stored of an artifact that depends on none is what is stored without them. What
is stored of an artifact that depends on a local one tells of the local classes.
-/

namespace ArtifactAudit

namespace Supply

variable {supply : Supply} {records : Coordinate → Option Record}

/--
The summary of an artifact if there are some records at first. A record counts, on top of the
summaries of the dependencies that it tells. Without one the artifact and its symbols do.
-/
inductive Derives (supply : Supply) (records : Coordinate → Option Record)
    : Coordinate → Summary → Prop where
  | computed {c : Coordinate} {artifact : Artifact} {symbols : ClassFile.Symbols}
    {summaries : Coordinate → Summary}
    (record_eq : records c = none)
    (artifact_eq : supply.artifact c = .ok artifact)
    (symbols_eq : supply.symbols artifact.location = .ok symbols)
    (dependencies : ∀ d ∈ artifact.dependencies, Derives supply records d (summaries d))
    : Derives supply records c (.ofSymbols c (.ofList (artifact.dependencies.map summaries)) symbols)
  | restored {c : Coordinate} {record : Record} {summaries : Coordinate → Summary}
    (record_eq : records c = some record)
    (dependencies : ∀ d ∈ record.direct, Derives supply records d (summaries d))
    : Derives supply records c (record.complete (.ofList (record.direct.map summaries)))

theorem Derives.unique {c : Coordinate} {first : Summary} (h : Derives supply records c first)
    : ∀ {second : Summary}, Derives supply records c second → first = second := by
  induction h with
  | computed hrecord hartifact hsymbols _ ih =>
    intro second h
    cases h with
    | computed _ hartifact' hsymbols' hdependencies' =>
      rw [hartifact, Except.ok.injEq] at hartifact'
      subst hartifact'
      rw [hsymbols, Except.ok.injEq] at hsymbols'
      subst hsymbols'
      congr 2
      apply List.map_congr_left
      intro d hd
      exact ih d hd (hdependencies' d hd)
    | restored hrecord' _ =>
      rw [hrecord] at hrecord'
      cases hrecord'
  | restored hrecord _ ih =>
    intro second h
    cases h with
    | computed hrecord' _ _ _ =>
      rw [hrecord] at hrecord'
      cases hrecord'
    | restored hrecord' hdependencies' =>
      rw [hrecord, Option.some.injEq] at hrecord'
      subst hrecord'
      congr 2
      apply List.map_congr_left
      intro d hd
      exact ih d hd (hdependencies' d hd)

end Supply

namespace Cache

/--
Whether the records that a cache has are seen before its directory is made. Where the directory is
only found once others on its path are there, they may not be.
-/
def Shows (cache : Cache) (tree : FileTree) : Prop :=
  ∀ c, cache.recordIn? (cache.prepared tree) c = cache.recordIn? tree c

theorem HasNoRecords.shows {cache : Cache} {tree : FileTree} (h : cache.HasNoRecords tree)
    : cache.Shows tree := by
  intro c
  cases hrecord : cache.recordIn? tree c with
  | none => exact h c
  | some record => exact recordIn?_prepared hrecord

theorem Shows.of_directory {cache own : Cache} {tree : FileTree} (h : cache.Shows tree)
    (hdirectory : own.directory = cache.directory)
    : own.Shows tree := by
  intro c
  rw [recordIn?_congr hdirectory, prepared, hdirectory]
  exact h c

end Cache

namespace Resolver

variable {Memory : Type}

open DependencySet Supply

def Untouched (overlay : CoordinateMap Artifact) (c : Coordinate) (summary : Summary) : Prop :=
  ∀ d ∈ c :: coordinates summary.flattened, overlay.get? d = none

theorem Untouched.dependency {overlay : CoordinateMap Artifact} {c : Coordinate} {summary : Summary}
    (h : Untouched overlay c summary) {ds : List Coordinate} {summaries : Coordinate → Summary}
    (hflattened : summary.flattened = closure (ofList (ds.map summaries)))
    (hcoordinate : ∀ d ∈ ds, (summaries d).coordinate = d)
    : ∀ d ∈ ds, Untouched overlay d (summaries d) := by
  intro d hd e he
  have hlisted : d ∈ coordinates (ofList (ds.map summaries)) := by
    rw [mem_coordinates_ofList, mem_coordinates]
    exact ⟨summaries d, List.mem_map_of_mem hd, hcoordinate d hd⟩
  rcases mem_coordinates.1 hlisted with ⟨member, hmember, heq⟩
  have hsame : member = summaries d := by
    rcases List.mem_map.1 (mem_of_mem_ofList hmember) with ⟨other, hother, rfl⟩
    rw [hcoordinate other hother] at heq
    rw [heq]
  subst hsame
  apply h e
  rw [hflattened, List.mem_cons, mem_coordinates_closure]
  refine .inr ⟨_, hmember, ?_⟩
  rw [hcoordinate d hd]
  exact List.mem_cons.1 he

def published (base : Resolver Memory) (cache : Cache) : Resolver Memory :=
  { base with overlay := ∅, cache := some cache }

def Stores (base : Resolver Memory) (cache : Cache) (c : Coordinate) : Prop :=
  base.overlay.get? c = none ∧ cache.recordIn? base.tree c = none

/--
A resolver in the middle of a resolution with a cache and local artifacts. What is stored has been
resolved, and what no local artifact is part of is as it is without them.
-/
structure Layered (base : Resolver Memory) (cache : Cache) (resolver : Resolver Memory) : Prop where
  provider_eq : resolver.provider = base.provider
  skipDebug_eq : resolver.skipDebug = base.skipDebug
  overlay_eq : resolver.overlay = base.overlay
  cache_eq : resolver.cache = some cache
  visited : Visited base.provider cache base.tree base.memory resolver.tree resolver.memory
  coordinate_eq : ∀ c summary, resolver.get? c = some summary → summary.coordinate = c
  shows : cache.Shows resolver.tree
  kept : ∀ c, resolver.get? c = none ∨ ¬ Stores base cache c →
    cache.recordIn? resolver.tree c = cache.recordIn? base.tree c
  written : ∀ c summary, resolver.get? c = some summary → Stores base cache c →
    cache.recordIn? resolver.tree c = some (.ofSummary cache.time summary)
  derives : ∀ c summary, resolver.get? c = some summary → Untouched base.overlay c summary →
    Derives (base.published cache).supply (cache.recordIn? base.tree) c summary

variable {base before after : Resolver Memory} {cache : Cache} {c : Coordinate}

theorem layered_fresh (hcache : base.cache = some cache) (hshows : cache.Shows base.tree)
    : Layered base cache base.fresh where
  provider_eq := rfl
  skipDebug_eq := rfl
  overlay_eq := rfl
  cache_eq := hcache
  visited := .start
  coordinate_eq _ _ h := by cases h
  shows := hshows
  kept _ _ := rfl
  written _ _ h := by cases h
  derives _ _ h := by cases h

theorem Layered.mark (h : Layered base cache before) (hnone : before.table.get? c = none)
    : Layered base cache (before.mark c .inProgress) where
  provider_eq := h.provider_eq
  skipDebug_eq := h.skipDebug_eq
  overlay_eq := h.overlay_eq
  cache_eq := h.cache_eq
  visited := h.visited
  coordinate_eq := forall_get?_mark h.coordinate_eq c
  shows := h.shows
  kept d hd := by
    apply h.kept d
    rw [get?_mark] at hd
    by_cases heq : d = c
    . exact .inl (get?_eq_none (by simp [heq, hnone]))
    . simpa [heq] using hd
  written := forall_get?_mark h.written c
  derives := forall_get?_mark h.derives c

theorem Layered.find (h : Layered base cache before) (hunchanging : base.Unchanging cache)
    {artifact : Artifact} {cacheable : Bool} {located : Resolver Memory}
    (hfind : (Resolver.find c).run before = (.ok (artifact, cacheable), located))
    : Layered base cache located
        ∧ ((cacheable = false ∧ base.overlay.get? c = some artifact)
          ∨ cacheable = true ∧ base.overlay.get? c = none
            ∧ base.provider.answer base.tree base.memory c = .ok artifact) := by
  rcases find_eq_ok hfind with ⟨rfl, hlocal, rfl⟩ | ⟨rfl, hnone, hanswer, rfl⟩
  . exact ⟨h, .inl ⟨rfl, h.overlay_eq ▸ hlocal⟩⟩
  . rw [h.provider_eq, hunchanging.answer_eq _ _ h.visited] at hanswer
    refine ⟨⟨h.provider_eq, h.skipDebug_eq, h.overlay_eq, h.cache_eq, ?_, h.coordinate_eq, h.shows,
      h.kept, h.written, h.derives⟩, .inr ⟨rfl, h.overlay_eq ▸ hnone, hanswer⟩⟩
    rw [h.provider_eq]
    exact h.visited.asked c

theorem Layered.derives_below (h : Layered base cache before) {ds : List Coordinate}
    {summaries : Coordinate → Summary}
    (hsummaries : ∀ d ∈ ds, before.get? d = some (summaries d)) {summary : Summary}
    (hflattened : summary.flattened
      = DependencySet.closure (DependencySet.ofList (ds.map summaries)))
    (huntouched : Untouched base.overlay c summary)
    : ∀ d ∈ ds, Derives (base.published cache).supply (cache.recordIn? base.tree) d (summaries d) := by
  intro d hd
  have hcoordinate : ∀ d ∈ ds, (summaries d).coordinate = d :=
    fun d hd => h.coordinate_eq d _ (hsummaries d hd)
  exact h.derives d _ (hsummaries d hd) (huntouched.dependency hflattened hcoordinate d hd)

theorem Layered.finish (h : Layered base cache before) {tree : FileTree} {summary : Summary}
    (hvisited : Visited base.provider cache base.tree base.memory tree before.memory)
    (hshows : cache.Shows tree)
    (hother : ∀ d, d ≠ c → cache.recordIn? tree d = cache.recordIn? before.tree d)
    (hkept : ¬ Stores base cache c → cache.recordIn? tree c = cache.recordIn? base.tree c)
    (hwritten : Stores base cache c →
      cache.recordIn? tree c = some (.ofSummary cache.time summary))
    (hcoordinate : summary.coordinate = c)
    (hderives : Untouched base.overlay c summary →
      Derives (base.published cache).supply (cache.recordIn? base.tree) c summary)
    : Layered base cache (Resolver.finish c summary { before with tree }) where
  provider_eq := h.provider_eq
  skipDebug_eq := h.skipDebug_eq
  overlay_eq := h.overlay_eq
  cache_eq := h.cache_eq
  visited := hvisited
  coordinate_eq d other hget := forall_get?_finish h.coordinate_eq hcoordinate d other hget
  shows := hshows
  kept d hd := by
    rw [get?_finish] at hd
    by_cases heq : d = c
    . subst heq
      exact hkept (hd.resolve_left (by simp))
    . rw [if_neg heq] at hd
      exact (hother d heq).trans (h.kept d hd)
  written d other hget hstores := by
    rw [get?_finish] at hget
    split at hget
    . next heq =>
      cases hget
      subst heq
      exact hwritten hstores
    . next heq => exact (hother d heq).trans (h.written d other hget hstores)
  derives d other hget := forall_get?_finish h.derives hderives d other hget

theorem Layered.finish_kept (h : Layered base cache before) {summary : Summary}
    (hnone : before.get? c = none) (hstores : ¬ Stores base cache c)
    (hcoordinate : summary.coordinate = c)
    (hderives : Untouched base.overlay c summary →
      Derives (base.published cache).supply (cache.recordIn? base.tree) c summary)
    : Layered base cache (before.finish c summary) :=
  h.finish h.visited h.shows (fun _ _ => rfl) (fun _ => h.kept c (.inl hnone))
    (fun h => absurd h hstores) hcoordinate hderives

theorem Layered.finish_stored (h : Layered base cache before) (htime : cache.time < UInt64.size)
    {summary : Summary} {path : Path} {tree : FileTree} (hstores : Stores base cache c)
    (hstore : cache.store before.tree summary = (.ok path, tree))
    (hcoordinate : summary.coordinate = c)
    (hderives : Untouched base.overlay c summary →
      Derives (base.published cache).supply (cache.recordIn? base.tree) c summary)
    : Layered base cache (Resolver.finish c summary { before with tree }) := by
  have hother : ∀ d, d ≠ c → cache.recordIn? tree d = cache.recordIn? before.tree d := by
    intro d hd
    exact (Cache.recordIn?_store_of_ne hstore (hcoordinate ▸ hd)).trans (h.shows d)
  have hself := Cache.recordIn?_store_self htime hstore
  rw [hcoordinate] at hself
  exact h.finish (h.visited.stored hstore) (Cache.recordIn?_prepared_store hstore) hother
    (absurd hstores) (fun _ => hself) hcoordinate hderives

def LayersOne (base : Resolver Memory) (cache : Cache) (c : Coordinate) (before : Resolver Memory)
    (ended : Ended Memory Summary)
    : Prop :=
  ∀ summary, Layered base cache before → ended.1 = .ok summary →
    Layered base cache ended.2 ∧ Extends before ended.2 ∧ ended.2.get? c = some summary

def LayersAll (base : Resolver Memory) (cache : Cache) (cs : List Coordinate)
    (found : DependencySet) (before : Resolver Memory) (ended : Ended Memory DependencySet)
    : Prop :=
  ∀ set, Layered base cache before → ended.1 = .ok set →
    Layered base cache ended.2 ∧ Extends before ended.2
      ∧ ∃ summaries : Coordinate → Summary,
        (∀ d ∈ cs, ended.2.get? d = some (summaries d)) ∧ set = insertAll found (cs.map summaries)

def LayersSummary (base : Resolver Memory) (cache : Cache) (c : Coordinate)
    (before : Resolver Memory) (ended : Ended Memory Summary)
    : Prop :=
  ∀ summary, Layered base cache before → before.table.get? c = some .inProgress →
    ended.1 = .ok summary →
      Layered base cache (ended.2.finish c summary) ∧ Extends before ended.2

theorem run_compute_local {artifact : Artifact} {declared : DependencySet} {summary : Summary}
    (h : (compute c artifact false declared).run before = (.ok summary, after))
    : after = before := by
  rw [run_compute] at h
  split at h <;> cases h
  rfl

theorem Extends.get?_eq_none_of_inProgress (h : Extends before after)
    (hwaits : before.table.get? c = some .inProgress)
    : after.get? c = none := by
  apply Resolver.get?_eq_none
  simp [(h.inProgress c).2 hwaits]

theorem Layered.compute (h : Layered base cache before) (htime : cache.time < UInt64.size)
    (hunchanging : base.Unchanging cache) {artifact : Artifact} {cacheable : Bool}
    {summaries : Coordinate → Summary} {summary : Summary} (hnone : before.get? c = none)
    (hsource : (cacheable = false ∧ base.overlay.get? c = some artifact)
      ∨ cacheable = true ∧ base.overlay.get? c = none
        ∧ base.provider.answer base.tree base.memory c = .ok artifact)
    (hrecord : (recordOf c cacheable).run before = (.ok none, before))
    (hsummaries : ∀ d ∈ artifact.dependencies, before.get? d = some (summaries d))
    (hcompute : (Resolver.compute c artifact cacheable
      (insertAll [] (artifact.dependencies.map summaries))).run before = (.ok summary, after))
    : Layered base cache (after.finish c summary) := by
  rcases hsource with ⟨rfl, hlocal⟩ | ⟨rfl, hpublished, hanswer⟩
  . rcases compute_ok (congrArg Prod.fst hcompute) with ⟨symbols, rfl⟩
    rw [run_compute_local hcompute]
    apply h.finish_kept hnone (by simp [Stores, hlocal]) rfl
    intro huntouched
    rw [huntouched c List.mem_cons_self] at hlocal
    cases hlocal
  . have hunrecorded := recordIn?_of_recordOf h.cache_eq hrecord
    rw [h.kept c (.inl hnone)] at hunrecorded
    rcases run_compute_cached h.cache_eq hcompute with
      ⟨symbols, path, tree, hsymbols, rfl, hstore, rfl⟩
    rw [h.skipDebug_eq, hunchanging.symbols_eq _ _ h.visited c artifact hanswer] at hsymbols
    apply h.finish_stored htime ⟨hpublished, hunrecorded⟩ hstore rfl
    intro huntouched
    have hartifact : (base.published cache).supply.artifact c = .ok artifact :=
      (supply_artifact rfl c).trans hanswer
    exact .computed hunrecorded hartifact hsymbols (h.derives_below hsummaries rfl huntouched)

theorem resolve?_layers (htime : cache.time < UInt64.size) (hunchanging : base.Unchanging cache)
    : ∀ (c : Coordinate) (before : Resolver Memory) (ended : Ended Memory Summary),
        resolve? c before = some ended → LayersOne base cache c before ended := by
  apply run_induction_ok (LayersOne base cache) (LayersAll base cache) (LayersSummary base cache)
  case fails => exact fun _ _ _ _ _ _ => nofun
  case failsAll => exact fun _ _ _ _ _ _ _ => nofun
  case failsSummary => exact fun _ _ _ _ _ _ _ => nofun
  case done =>
    intro c before summary hget other hbefore heq
    cases heq
    exact ⟨hbefore, .refl before, get?_eq_some_iff.2 hget⟩
  case finished =>
    intro c before summary after hnone ih other hbefore heq
    cases heq
    rcases ih summary (hbefore.mark hnone) (by simp) rfl with ⟨hafter, hextends⟩
    exact ⟨hafter, hextends.finish summary hnone, by simp⟩
  case nil =>
    intro found before set hbefore heq
    cases heq
    exact ⟨hbefore, .refl before, fun c => .ofSymbols c [] ∅, by simp, rfl⟩
  case cons =>
    intro c cs found before summary between set after ih ihAll other hbefore heq
    cases heq
    rcases ih summary hbefore rfl with ⟨hbetween, hextends, hget⟩
    rcases ihAll set hbetween rfl with ⟨hafter, hextends', summaries, hall, rfl⟩
    have hcons : ∀ d ∈ c :: cs, after.get? d = some (Function.update summaries c summary d) := by
      intro d hd
      rw [Function.update_apply]
      split
      . next heq => exact heq ▸ hextends'.done c summary hget
      . next hne => exact hall d ((List.mem_cons.1 hd).resolve_left hne)
    -- If the artifact comes once more it is done there.
    have hmap : cs.map (Function.update summaries c summary) = cs.map summaries := by
      apply List.map_congr_left
      intro d hd
      exact Option.some.inj ((hcons d (by simp [hd])).symm.trans (hall d hd))
    refine ⟨hafter, hextends.trans hextends', Function.update summaries c summary, hcons, ?_⟩
    rw [List.map_cons, hmap, Function.update_self]
    rfl
  case computed =>
    intro c before artifact cacheable located declared linked summary after hfind ih hrecord hcompute
      other hbefore hwaits heq
    cases heq
    have hextends := (find_sameTable hfind).extends
    rcases hbefore.find hunchanging hfind with ⟨hlocated, hsource⟩
    rcases ih declared hlocated rfl with ⟨hlinked, hextends', summaries, hsummaries, rfl⟩
    have hnone := (hextends.trans hextends').get?_eq_none_of_inProgress hwaits
    have hsame := congrArg Prod.snd hcompute ▸ compute_sameTable c artifact cacheable _ linked
    exact ⟨hlinked.compute htime hunchanging hnone hsource hrecord hsummaries hcompute,
      (hextends.trans hextends').trans hsame.extends⟩
  case relinked =>
    intro c before artifact cacheable located declared linked record direct after hfind ih hrecord
      ihDirect summary hbefore hwaits heq
    cases heq
    have hextends := (find_sameTable hfind).extends
    rcases hbefore.find hunchanging hfind with ⟨hlocated, hsource⟩
    rcases ih declared hlocated rfl with ⟨hlinked, hextends', _⟩
    have hextends' := hextends.trans hextends'
    rcases ihDirect direct hlinked rfl with ⟨hafter, hextends'', summaries, hsummaries, rfl⟩
    refine ⟨?_, hextends'.trans hextends''⟩
    have hcoordinate := recordOf_coordinate hrecord
    rcases hsource with ⟨rfl, _⟩ | ⟨rfl, _⟩
    . rw [run_recordOf] at hrecord
      cases hrecord
    . have hrecorded := recordIn?_of_recordOf hlinked.cache_eq hrecord
      rw [hlinked.kept c (.inl (hextends'.get?_eq_none_of_inProgress hwaits))] at hrecorded
      apply hafter.finish_kept
        ((hextends'.trans hextends'').get?_eq_none_of_inProgress hwaits)
        (by simp [Stores, hrecorded]) hcoordinate
      intro huntouched
      exact .restored hrecorded (hafter.derives_below hsummaries rfl huntouched)

section

variable {first left : Resolver Memory}

theorem discard_addRoot (r : Coordinate)
    : (discard (addRoot r) : Resolving Memory Unit) = addRoot r >>= fun _ => pure () := by
  rw [bind_pure_comp]
  rfl

theorem run_addRoots (r : Coordinate) (rs : List Coordinate) (resolver : Resolver Memory)
    : (addRoots (r :: rs)).run resolver
        =
      match (addRoot r).run resolver with
      | (.ok _, between) => (addRoots rs).run between
      | (.error error, between) => (.error error, between) := by
  change (discard (addRoot r) >>= fun _ => addRoots rs).run resolver = _
  rw [Resolving.run_bind, discard_addRoot, Resolving.run_bind]
  rcases (addRoot r).run resolver with ⟨error | summary, between⟩ <;> rfl

theorem run_addRoots_cons {r : Coordinate} {rs : List Coordinate}
    (h : (addRoots (r :: rs)).run before = (.ok (), after))
    : ∃ summary between, (addRoot r).run before = (.ok summary, between)
        ∧ (addRoots rs).run between = (.ok (), after) := by
  rw [run_addRoots] at h
  rcases hrun : (addRoot r).run before with ⟨error | summary, between⟩
  . rw [hrun] at h
    cases h
  . rw [hrun] at h
    exact ⟨summary, between, rfl, h⟩

theorem Layered.addRoots (htime : cache.time < UInt64.size) (hunchanging : base.Unchanging cache)
    {rs : List Coordinate}
    : ∀ {before : Resolver Memory}, Layered base cache before →
        (Resolver.addRoots rs).run before = (.ok (), after) → Layered base cache after := by
  induction rs with
  | nil =>
    intro before h hrun
    cases hrun
    exact h
  | cons r rs ih =>
    intro before h hrun
    rcases run_addRoots_cons hrun with ⟨summary, between, hroot, hrest⟩
    rcases resolve?_of_addRoot hroot with ⟨ended, roots, hended, rfl⟩
    have hafter := (resolve?_layers htime hunchanging r before _ hended summary h rfl).1
    have hnext : Layered base cache { ended with roots } :=
      ⟨hafter.provider_eq, hafter.skipDebug_eq, hafter.overlay_eq, hafter.cache_eq, hafter.visited,
        hafter.coordinate_eq, hafter.shows, hafter.kept, hafter.written, hafter.derives⟩
    exact ih hnext hrest

/--
What is stored while some artifacts are resolved is the summary of an artifact that is not local. It
is what is stored without local artifacts, the time aside, if the artifact depends on none, directly
or through others.
-/
theorem recordIn?_addRoots_overlaid (hcache : first.cache = some cache)
    (htime : cache.time < UInt64.size) (hshows : cache.Shows first.tree)
    (hunchanging : first.Unchanging cache) {rs : List Coordinate}
    (hleft : (addRoots rs).run first.fresh = (.ok (), left)) {record : Record}
    (hrecord : cache.recordIn? left.tree c = some record)
    (hnew : cache.recordIn? first.tree c ≠ some record)
    : first.overlay.get? c = none
        ∧ ∃ summary, left.get? c = some summary ∧ record = .ofSummary cache.time summary
          ∧ (Untouched first.overlay c summary →
              ∀ (own : Cache) (others : List Coordinate) (after : Resolver Memory),
                own.directory = cache.directory → own.time < UInt64.size →
                (first.published own).Unchanging own →
                (addRoots others).run (first.published own).fresh = (.ok (), after) →
                (after.get? c).isSome →
                  ∃ entry, own.recordIn? after.tree c = some entry
                    ∧ { entry with metadata := record.metadata } = record) := by
  have hlayered := (layered_fresh hcache hshows).addRoots htime hunchanging hleft
  have hkept : ¬ (left.get? c = none ∨ ¬ Stores first cache c) := by
    intro hkept
    rw [hlayered.kept c hkept] at hrecord
    exact hnew hrecord
  rw [not_or, not_not] at hkept
  rcases Option.ne_none_iff_exists'.1 hkept.1 with ⟨summary, hget⟩
  have hwritten := hlayered.written c summary hget hkept.2
  rw [hrecord, Option.some.injEq] at hwritten
  subst hwritten
  refine ⟨hkept.2.1, summary, hget, rfl, ?_⟩
  intro huntouched own others after hdirectory htime' hunchanging' hafter hdone
  have hstart : Layered (first.published own) own (first.published own).fresh :=
    layered_fresh rfl (hshows.of_directory hdirectory)
  have hplain := hstart.addRoots htime' hunchanging' hafter
  rcases Option.isSome_iff_exists.1 hdone with ⟨again, hagain⟩
  have hstores : Stores (first.published own) own c := by
    refine ⟨CoordinateMap.get?_empty c, ?_⟩
    rw [Cache.recordIn?_congr hdirectory]
    exact hkept.2.2
  have hderives := hlayered.derives c summary hget huntouched
  have hderives' := hplain.derives c again hagain (fun _ _ => CoordinateMap.get?_empty _)
  rw [Cache.recordIn?_congr hdirectory] at hderives'
  obtain rfl : summary = again := hderives.unique hderives'
  exact ⟨_, hplain.written c summary hagain hstores, rfl⟩

end

theorem resolve?_local {artifact : Artifact} {linked : Resolver Memory} {declared : DependencySet}
    {symbols : ClassFile.Symbols} (hnone : before.table.get? c = none)
    (hlocal : before.overlay.get? c = some artifact)
    (hrun : resolveAll? artifact.dependencies [] (before.mark c .inProgress)
      = some (.ok declared, linked))
    (hsymbols : ClassSource.symbolsAt linked.tree linked.skipDebug artifact.location = .ok symbols)
    : resolve? c before
        = some (.ok (.ofSymbols c declared symbols),
          linked.finish c (.ofSymbols c declared symbols)) := by
  have hfind : (find c).run (before.mark c .inProgress)
      = (.ok (artifact, false), before.mark c .inProgress) :=
    run_find_local hlocal
  have hcompute : (compute c artifact false declared).run linked
      = (.ok (.ofSymbols c declared symbols), linked) := by
    rw [run_compute, analyze_eq, hsymbols]
    rfl
  rw [resolve?, hnone]
  dsimp only
  rw [summarize?, hfind]
  dsimp only
  rw [hrun, Option.bind_eq_bind, Option.bind_eq_bind, Option.bind_some]
  dsimp only
  rw [run_recordOf]
  dsimp only
  rw [hcompute]
  rfl

theorem run_addRoots_singleton {r : Coordinate} {summary : Summary} {after : Resolver Memory}
    (h : (addRoot r).run before = (.ok summary, after))
    : (addRoots [r]).run before = (.ok (), after) := by
  rw [run_addRoots, h]
  rfl

namespace DebugOnly

def localRoot : Resolver Unit := (resolver false files).addLocal root ⟨⟨"a.class"⟩, [leaf]⟩

/--
A resolver for which the leaf is local. It has the class of the root there, so the root uses nothing.
-/
def localLeaf : Resolver Unit := (resolver false files).addLocal leaf ⟨⟨"a.class"⟩, []⟩

theorem overlay_localRoot : localRoot.overlay.get? leaf = none := by
  change (CoordinateMap.insert ∅ root _).get? leaf = none
  rw [CoordinateMap.get?_insert, if_neg (by decide), CoordinateMap.get?_empty]

theorem overlay_localLeaf : localLeaf.overlay.get? root = none := by
  change (CoordinateMap.insert ∅ leaf _).get? root = none
  rw [CoordinateMap.get?_insert, if_neg (by decide), CoordinateMap.get?_empty]

theorem unchanging_addLocal (c : Coordinate) (artifact : Artifact)
    : ((resolver false files).addLocal c artifact).Unchanging ownCache :=
  ⟨(unchanging false).answer_eq, (unchanging false).symbols_eq⟩

def strayedSummary : Summary :=
  .ofSymbols root (.ofList [.ofSymbols leaf [] ⟨.ofList ["a/A"], .ofList ["b/B"]⟩])
    ⟨.ofList ["a/A"], .ofList ["b/B"]⟩

theorem exists_addRoot_localRoot
    : ∃ left, (addRoot root).run localRoot.fresh = (.ok (rootSummary (.ofList ["b/B"])), left) := by
  let marked := localRoot.fresh.mark root .inProgress
  have hnone : marked.table.get? leaf = none := by
    rw [table_mark, if_neg (by decide)]
    rfl
  have hpublished : marked.overlay.get? leaf = none := overlay_localRoot
  rcases resolve?_leaf rfl rfl rfl hpublished hnone with ⟨_, between, hstore, hleaf⟩
  have hlocal : localRoot.overlay.get? root = some ⟨⟨"a.class"⟩, [leaf]⟩ := by
    change (CoordinateMap.insert ∅ root _).get? root = _
    rw [CoordinateMap.get?_insert, if_pos rfl]
  have hsymbols : ClassSource.symbolsAt between false ⟨"a.class"⟩
      = .ok ⟨.ofList ["a/A"], .ofList ["b/B"]⟩ :=
    ((unchanging false).symbols_eq between () (.stored .start hstore) root _ rfl).trans
      symbolsAt_files.2.1
  exact exists_addRoot_of_resolve?
    (resolve?_local rfl hlocal (resolveAll?_singleton hleaf) hsymbols)

theorem exists_addRoot_localLeaf
    : ∃ left, (addRoot root).run localLeaf.fresh = (.ok strayedSummary, left) := by
  let marked := localLeaf.fresh.mark root .inProgress
  have hnone : marked.table.get? leaf = none := by
    rw [table_mark, if_neg (by decide)]
    rfl
  have hlocal : localLeaf.overlay.get? leaf = some ⟨⟨"a.class"⟩, []⟩ := by
    change (CoordinateMap.insert ∅ leaf _).get? leaf = _
    rw [CoordinateMap.get?_insert, if_pos rfl]
  have hrun : resolveAll? [] [] (marked.mark leaf .inProgress)
      = some (.ok [], marked.mark leaf .inProgress) := by
    rw [resolveAll?]
  have hleaf := resolve?_local hnone hlocal hrun symbolsAt_files.2.1
  have hfind : (find root).run marked = (.ok (⟨⟨"a.class"⟩, [leaf]⟩, true), marked) :=
    run_find_published overlay_localLeaf rfl
  have hok : (ownCache.store files strayedSummary).1 = .ok ⟨"cache/g_a_1.json.gz"⟩ := by
    decide +kernel
  rcases hstore : ownCache.store files strayedSummary with ⟨result, after⟩
  rw [hstore] at hok
  dsimp only at hok
  subst hok
  have hrecord : ownCache.recordIn? files root = none := by decide +kernel
  exact exists_addRoot_of_resolve? (resolve?_stored rfl hfind (resolveAll?_singleton hleaf) rfl hrecord
    symbolsAt_files.2.1 hstore)

end DebugOnly

open DebugOnly in
theorem recordIn?_addRoots_overlaid_localRoot
    : ∃ left after record entry,
        (addRoots [root]).run localRoot.fresh = (.ok (), left)
          ∧ ownCache.recordIn? left.tree leaf = some record
          ∧ (addRoots [leaf]).run (localRoot.published ownCache).fresh = (.ok (), after)
          ∧ ownCache.recordIn? after.tree leaf = some entry
          ∧ { entry with metadata := record.metadata } = record := by
  have hshows : ownCache.Shows localRoot.tree := hasNoRecords.shows
  have hunchanging := unchanging_addLocal root ⟨⟨"a.class"⟩, [leaf]⟩
  have hnone : ownCache.recordIn? localRoot.tree leaf = none := by
    rw [← hshows]
    exact hasNoRecords leaf
  rcases exists_addRoot_localRoot with ⟨left, hleft⟩
  have hget : left.get? leaf = some leafSummary := by
    have hflattened : (rootSummary (.ofList ["b/B"])).flattened = [leafSummary] := rfl
    exact (done_of_addRoot hleft).2.2 leafSummary (by simp [hflattened])
  have hleft := run_addRoots_singleton hleft
  have hrecord := ((layered_fresh rfl hshows).addRoots (by decide) hunchanging hleft).written leaf
    leafSummary hget ⟨overlay_localRoot, hnone⟩
  have hplain : (localRoot.published ownCache).fresh.overlay.get? leaf = none :=
    CoordinateMap.get?_empty leaf
  have hfresh : (localRoot.published ownCache).fresh.table.get? leaf = none := rfl
  rcases resolve?_leaf rfl rfl rfl hplain hfresh with ⟨_, _, _, hrun⟩
  rcases exists_addRoot_of_resolve? hrun with ⟨after, hafter⟩
  rcases recordIn?_addRoots_overlaid rfl (by decide) hshows hunchanging hleft hrecord
    (by rw [hnone]; simp) with ⟨_, summary, hsummary, _, hsame⟩
  obtain rfl : leafSummary = summary := Option.some.inj (hget.symm.trans hsummary)
  have huntouched : Untouched localRoot.overlay leaf leafSummary := by
    have hflattened : leaf :: coordinates leafSummary.flattened = [leaf] := by decide +kernel
    rw [Untouched, hflattened]
    simpa using overlay_localRoot
  have hdone := (done_of_addRoot hafter).2.1
  rcases hsame huntouched ownCache [leaf] after rfl (by decide) (unchanging false)
    (run_addRoots_singleton hafter) (by rw [hdone]; rfl) with ⟨entry, hentry, heq⟩
  exact ⟨left, after, _, entry, hleft, hrecord, run_addRoots_singleton hafter, hentry, heq⟩

open DebugOnly in
/--
The root is published, but what is stored of it while the leaf is local is not what is stored without
the local leaf.
-/
theorem recordIn?_addRoots_localLeaf_differs
    : ∃ left after record entry,
        localLeaf.Unchanging ownCache
          ∧ localLeaf.overlay.get? root = none
          ∧ (addRoots [root]).run localLeaf.fresh = (.ok (), left)
          ∧ ownCache.recordIn? left.tree root = some record
          ∧ (addRoots [root]).run (localLeaf.published ownCache).fresh = (.ok (), after)
          ∧ ownCache.recordIn? after.tree root = some entry
          ∧ { entry with metadata := record.metadata } ≠ record := by
  have hshows : ownCache.Shows files := hasNoRecords.shows
  have hunchanging := unchanging_addLocal leaf ⟨⟨"a.class"⟩, []⟩
  have hnone : ownCache.recordIn? files root = none := by
    rw [← hshows]
    exact hasNoRecords root
  rcases exists_addRoot_localLeaf with ⟨left, hleft⟩
  have hget := (done_of_addRoot hleft).2.1
  have hleft := run_addRoots_singleton hleft
  have hstart : Layered localLeaf ownCache localLeaf.fresh := layered_fresh rfl hshows
  have hlocal := hstart.addRoots (by decide) hunchanging hleft
  have hrecord := hlocal.written root _ hget ⟨overlay_localLeaf, hnone⟩
  have hok : (ownCache.store (ownCache.store files leafSummary).2
      (rootSummary (.ofList ["b/B"]))).1 = .ok ⟨"cache/g_a_1.json.gz"⟩ := by
    decide +kernel
  rcases exists_addRoot_of_symbolsAt symbolsAt_files.2.1 hok with ⟨after, hafter⟩
  have hget' := (done_of_addRoot hafter).2.1
  have hafter := run_addRoots_singleton hafter
  have hstart' : Layered (resolver false files) ownCache (resolver false files).fresh :=
    layered_fresh rfl hshows
  have hplain := hstart'.addRoots (by decide) (unchanging false) hafter
  have hentry := hplain.written root _ hget' ⟨CoordinateMap.get?_empty root, hnone⟩
  refine ⟨left, after, _, _, hunchanging, overlay_localLeaf, hleft, hrecord, hafter, hentry, ?_⟩
  decide +kernel

end Resolver
end ArtifactAudit
