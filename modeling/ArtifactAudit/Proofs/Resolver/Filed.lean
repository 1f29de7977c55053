import ArtifactAudit.Proofs.ClassSource
import ArtifactAudit.Proofs.Resolver.Recorded
import ArtifactAudit.Proofs.Resolver.Walk

/-!
This module contains the theory of resolutions with a cache that has no records yet. What such a
resolution has done is what the artifacts and their symbols say.
-/

namespace ArtifactAudit
namespace Resolver

variable {Memory : Type}

open Supply

/--
The files and memories that a resolution with a cache can come to, while it asks the provider and
stores summaries.
-/
inductive Visited (provider : Provider Memory) (cache : Cache) (tree : FileTree) (memory : Memory)
    : FileTree → Memory → Prop where
  | start : Visited provider cache tree memory tree memory
  | asked {between : FileTree} {remembered : Memory} (c : Coordinate)
    (h : Visited provider cache tree memory between remembered)
    : Visited provider cache tree memory between ((provider.fetch between c).run remembered).2
  | stored {between after : FileTree} {remembered : Memory} {summary : Summary} {path : Path}
    (h : Visited provider cache tree memory between remembered)
    (hstore : cache.store between summary = (.ok path, after))
    : Visited provider cache tree memory after remembered

/--
Whether artifacts and their class files never change, whatever is asked for and stored.
-/
structure Unchanging (resolver : Resolver Memory) (cache : Cache) : Prop where
  answer_eq : ∀ tree memory,
    Visited resolver.provider cache resolver.tree resolver.memory tree memory → ∀ c,
      resolver.provider.answer tree memory c
        = resolver.provider.answer resolver.tree resolver.memory c
  symbols_eq : ∀ tree memory,
    Visited resolver.provider cache resolver.tree resolver.memory tree memory → ∀ c artifact,
      resolver.provider.answer resolver.tree resolver.memory c = .ok artifact →
        ClassSource.symbolsAt tree resolver.skipDebug artifact.location
          = ClassSource.symbolsAt resolver.tree resolver.skipDebug artifact.location

theorem Visited.unasked {provider : Provider Memory} {cache : Cache} {tree after : FileTree}
    {memory remembered : Memory} (h : Visited provider cache tree memory after remembered)
    : Visited provider cache tree memory after memory := by
  induction h with
  | start => exact .start
  | asked _ _ ih => exact ih
  | stored _ hstore ih => exact ih.stored hstore

theorem Visited.read?_eq {provider : Provider Memory} {cache : Cache} {tree after : FileTree}
    {memory remembered : Memory} (h : Visited provider cache tree memory after remembered)
    {file : Path} {last : Char} {bytes : ByteArray}
    (hlast : file.text.toList.getLast? = some last) (hother : last ∉ ['z', 'p', '.', '/'])
    (hread : tree.read? file = some bytes)
    : after.read? file = some bytes := by
  induction h with
  | start => exact hread
  | asked _ _ ih => exact ih
  | stored _ hstore ih => exact Cache.read?_store hlast hother ih hstore

theorem unchanging_inventory {resolver : Resolver Memory} {inventory : Inventory}
    (hprovider : resolver.provider = inventory.provider)
    (hfiles : ∀ c artifact, inventory.get? c = some artifact → ∃ bytes last,
      resolver.tree.read? artifact.location = some bytes
        ∧ artifact.location.text.toList.getLast? = some last ∧ last ∉ ['z', 'p', '.', '/'])
    (cache : Cache)
    : resolver.Unchanging cache where
  answer_eq tree memory _ c := by
    rw [hprovider]
    rfl
  symbols_eq tree memory hvisited c artifact hanswer := by
    rw [hprovider] at hanswer
    rcases hfiles c artifact (Provider.get?_of_answer_inventory hanswer) with ⟨bytes, last, hread, hlast, hother⟩
    have hread' := hvisited.read?_eq hlast hother hread
    exact ClassSource.symbolsAt_eq_of_read? hread' hread resolver.skipDebug

/--
A resolver in the middle of a resolution with a cache, while the artifacts `above` wait for what they
depend on. Only artifacts that are done have records.
-/
structure Files (base : Resolver Memory) (cache : Cache) (above : List Coordinate)
    (resolver : Resolver Memory)
    : Prop extends Knows base.supply above resolver where
  provider_eq : resolver.provider = base.provider
  skipDebug_eq : resolver.skipDebug = base.skipDebug
  overlay_eq : resolver.overlay = ∅
  cache_eq : resolver.cache = some cache
  visited : Visited base.provider cache base.tree base.memory resolver.tree resolver.memory
  unrecorded : ∀ c, resolver.get? c = none →
    cache.recordIn? (cache.prepared resolver.tree) c = none

theorem supply_artifact {resolver : Resolver Memory} (h : resolver.overlay = ∅) (c : Coordinate)
    : resolver.supply.artifact c
        = resolver.provider.answer resolver.tree resolver.memory c := by
  rw [supply, h]
  rfl

variable {base before after : Resolver Memory} {cache : Cache} {above : List Coordinate}
  {c : Coordinate}

theorem files_fresh (hoverlay : base.overlay = ∅) (hcache : base.cache = some cache)
    (hempty : cache.HasNoRecords base.tree)
    : Files base cache [] base.fresh where
  toKnows := knows_fresh base.supply base
  provider_eq := rfl
  skipDebug_eq := rfl
  overlay_eq := hoverlay
  cache_eq := hcache
  visited := .start
  unrecorded c _ := hempty c

theorem Files.mark (h : Files base cache above before) (hnone : before.table.get? c = none)
    : Files base cache (c :: above) (before.mark c .inProgress) where
  toKnows := h.toKnows.mark c
  provider_eq := h.provider_eq
  skipDebug_eq := h.skipDebug_eq
  overlay_eq := h.overlay_eq
  cache_eq := h.cache_eq
  visited := h.visited
  unrecorded d hget := by
    rw [get?_mark] at hget
    split at hget
    . next heq =>
      subst heq
      exact h.unrecorded d (get?_eq_none (by simp [hnone]))
    . exact h.unrecorded d hget

theorem Files.get?_eq_none (h : Files base cache (c :: above) before) : before.get? c = none := by
  apply Resolver.get?_eq_none
  simp [(h.inProgress c).2 List.mem_cons_self]

theorem Files.find (h : Files base cache above before) (hunchanging : base.Unchanging cache)
    {artifact : Artifact} {cacheable : Bool} {located : Resolver Memory}
    (hfind : (Resolver.find c).run before = (.ok (artifact, cacheable), located))
    : cacheable = true ∧ base.provider.answer base.tree base.memory c = .ok artifact
        ∧ Files base cache above located := by
  rcases run_find_provided h.overlay_eq hfind with ⟨hcacheable, hanswer, rfl⟩
  rw [h.provider_eq, hunchanging.answer_eq _ _ h.visited] at hanswer
  refine ⟨hcacheable, hanswer, ⟨h.toKnows.of_table rfl, h.provider_eq, h.skipDebug_eq, h.overlay_eq,
    h.cache_eq, ?_, h.unrecorded⟩⟩
  rw [h.provider_eq]
  exact h.visited.asked c

theorem Files.finish (h : Files base cache (c :: above) before) (hnew : c ∉ above)
    {summary : Summary} {path : Path} {tree : FileTree}
    (hstore : cache.store before.tree summary = (.ok path, tree))
    (hyields : Yields base.supply c summary)
    : Files base cache above (finish c summary { before with tree }) := by
  have hknows : Knows base.supply (c :: above) { before with tree } := h.toKnows.of_table rfl
  have hcoordinate := hyields.coordinate_eq
  refine ⟨hknows.finish hnew hyields, h.provider_eq, h.skipDebug_eq, h.overlay_eq, h.cache_eq,
    h.visited.stored hstore, ?_⟩
  intro d hget
  rw [get?_finish] at hget
  split at hget
  . cases hget
  . next hne =>
    have hrecord := h.unrecorded d hget
    exact (Cache.recordIn?_prepared_store hstore d).trans
      ((Cache.recordIn?_store_of_ne hstore (hcoordinate ▸ hne)).trans hrecord)

def FilesOne (base : Resolver Memory) (cache : Cache) (c : Coordinate) (before : Resolver Memory)
    (ended : Ended Memory Summary)
    : Prop :=
  ∀ above summary, Files base cache above before → ended.1 = .ok summary →
    Files base cache above ended.2 ∧ Yields base.supply c summary

def FilesAll (base : Resolver Memory) (cache : Cache) (cs : List Coordinate) (found : DependencySet)
    (before : Resolver Memory) (ended : Ended Memory DependencySet)
    : Prop :=
  ∀ above set, Files base cache above before → ended.1 = .ok set →
    Files base cache above ended.2 ∧ GivesAll base.supply above cs found (.ok set)

def FilesSummary (base : Resolver Memory) (cache : Cache) (c : Coordinate) (before : Resolver Memory)
    (ended : Ended Memory Summary)
    : Prop :=
  ∀ above summary, c ∉ above → Files base cache (c :: above) before → ended.1 = .ok summary →
    Files base cache above (ended.2.finish c summary) ∧ Yields base.supply c summary

theorem resolve?_files (hoverlay : base.overlay = ∅) (hunchanging : base.Unchanging cache)
    : ∀ (c : Coordinate) (before : Resolver Memory) (ended : Ended Memory Summary),
        resolve? c before = some ended → FilesOne base cache c before ended := by
  apply run_induction_ok (FilesOne base cache) (FilesAll base cache) (FilesSummary base cache)
  case fails => exact fun _ _ _ _ _ _ _ => nofun
  case failsAll => exact fun _ _ _ _ _ _ _ _ => nofun
  case failsSummary => exact fun _ _ _ _ _ _ _ _ => nofun
  case done =>
    intro c before summary hget above other hbefore heq
    cases heq
    exact ⟨hbefore, hbefore.yields c summary (get?_eq_some_iff.2 hget)⟩
  case finished =>
    intro c before summary after hnone ih above other hbefore heq
    cases heq
    have hnew := notMem_of_none hbefore.inProgress hnone
    exact ih above summary hnew (hbefore.mark hnone) rfl
  case nil =>
    intro found before above set hbefore heq
    cases heq
    exact ⟨hbefore, givesAll_nil above found⟩
  case cons =>
    intro c cs found before summary between set after ih ihAll above other hbefore heq
    cases heq
    rcases ih above summary hbefore rfl with ⟨hbetween, hyields⟩
    rcases ihAll above set hbetween rfl with ⟨hafter, hgives⟩
    exact ⟨hafter, hgives.cons hyields⟩
  case computed =>
    intro c before artifact cacheable located declared linked summary after hfind ih hrecord hcompute
      above other hnew hbefore heq
    cases heq
    rcases hbefore.find hunchanging hfind with ⟨rfl, hanswer, hlocated⟩
    rcases ih (c :: above) declared hlocated rfl with ⟨hlinked, summaries, hsummaries, rfl⟩
    rcases run_compute_cached hlinked.cache_eq hcompute with
      ⟨symbols, path, tree, hsymbols, rfl, hstore, rfl⟩
    rw [hlinked.skipDebug_eq, hunchanging.symbols_eq _ _ hlinked.visited c artifact hanswer]
      at hsymbols
    have hyields := Yields.intro ((supply_artifact hoverlay c).trans hanswer) hsymbols hsummaries
    exact ⟨hlinked.finish hnew hstore hyields, hyields⟩
  case relinked =>
    intro c before artifact cacheable located declared linked record direct after hfind ih hrecord _
      above summary hnew hbefore heq
    rcases hbefore.find hunchanging hfind with ⟨rfl, hanswer, hlocated⟩
    rcases ih (c :: above) declared hlocated rfl with ⟨hlinked, _⟩
    -- The artifact is not done, so it has no record.
    have hnone := hlinked.unrecorded c hlinked.get?_eq_none
    have hsome := recordIn?_of_recordOf hlinked.cache_eq hrecord
    rw [Cache.recordIn?_prepared hsome] at hnone
    cases hnone

end Resolver
end ArtifactAudit
