import ArtifactAudit.Proofs.Repository
import ArtifactAudit.Proofs.Resolver.Filed
import ArtifactAudit.Proofs.Resolver.Reachable
import ArtifactAudit.Proofs.Resolver.Resumed

/-!
This module contains what audits give over the cache that another audit has left. Records tell
nothing of the settings that they were made with, so the answers are those of the other audit.
-/

namespace ArtifactAudit
namespace Resolver

variable {Memory Memory' : Type}

open DependencySet Record Supply

/--
Whether a resolver has the files that another one has left and the same cache directory.
-/
structure Reuses (second : Resolver Memory') (left : Resolver Memory) (cache : Cache) : Prop where
  cache_eq : ∃ own, second.cache = some own ∧ own.directory = cache.directory
  overlay_eq : second.overlay = ∅
  tree_eq : second.tree = left.tree

/--
Whether a resolver finds the artifacts that another one has resolved, and tells no dependencies that
they had not there.
-/
def TellsNoMore (second : Resolver Memory') (left : Resolver Memory) : Prop :=
  ∀ c summary, left.get? c = some summary → ∃ artifact,
    second.provider.answer second.tree second.memory c = .ok artifact
      ∧ artifact.dependencies ⊆ coordinates summary.declared

section

variable {first left : Resolver Memory} {second : Resolver Memory'} {cache : Cache}
  {r : Coordinate} {answer : Summary}

theorem done_of_addRoot (h : (addRoot r).run first.fresh = (.ok answer, left))
    : Sound left ∧ left.get? r = some answer
        ∧ ∀ d ∈ answer.flattened, left.get? d.coordinate = some d := by
  have hafter := ((consistent_fresh first).addRoot r).1
  rw [h] at hafter
  rcases resolve?_of_addRoot h with ⟨ended, roots, hrun, rfl⟩
  have hget := (resolve?_sound r first.fresh _ hrun (consistent_fresh first).toSound).2.2 answer rfl
  exact ⟨hafter.toSound, hget, fun d hd => (hafter.dependency_done r answer hget d (.inr hd)).1⟩

theorem Unchanging.steady (h : first.Unchanging cache)
    : first.provider.Steady first.tree first.memory := by
  intro asked c
  apply h.answer_eq
  induction asked using List.reverseRecOn with
  | nil => exact .start
  | append_singleton asked d ih =>
    rw [Provider.memoryAfter_append]
    exact ih.asked d

theorem files_of_addRoot (hcache : first.cache = some cache) (hoverlay : first.overlay = ∅)
    (hunchanging : first.Unchanging cache) (hempty : cache.HasNoRecords first.tree)
    (h : (addRoot r).run first.fresh = (.ok answer, left))
    : Knows first.supply [] left
        ∧ Visited first.provider cache first.tree first.memory left.tree left.memory := by
  rcases resolve?_of_addRoot h with ⟨ended, roots, hrun, rfl⟩
  have hfiles := (resolve?_files hoverlay hunchanging r _ _ hrun [] answer
    (files_fresh hoverlay hcache hempty) rfl).1
  exact ⟨hfiles.toKnows.of_table rfl, hfiles.visited⟩

theorem tellsNoMore_of_knows (h : Knows first.supply [] left)
    (hless : ∀ c artifact, first.supply.artifact c = .ok artifact →
      ∃ dependencies ⊆ artifact.dependencies,
        second.provider.answer second.tree second.memory c = .ok { artifact with dependencies })
    : TellsNoMore second left := by
  intro c summary hget
  rcases (h.yields c summary hget).coordinates_declared with ⟨artifact, hartifact, hdeclared⟩
  rcases hless c artifact hartifact with ⟨dependencies, hsubset, hanswer⟩
  refine ⟨_, hanswer, ?_⟩
  intro d hd
  rw [hdeclared, List.mem_eraseDups]
  exact hsubset hd

end

/--
A resolver over the same repository tells no more if it follows no more scopes.
-/
theorem tellsNoMore_of_scopes {first left second : Resolver Pom.Memo} {cache : Cache} {r : Coordinate}
    {answer : Summary} {repository : Repository} {scopes : List String}
    (hprovider : first.provider = repository.provider) (hcache : first.cache = some cache)
    (hoverlay : first.overlay = ∅) (hunchanging : first.Unchanging cache)
    (hempty : cache.HasNoRecords first.tree)
    (h : (addRoot r).run first.fresh = (.ok answer, left)) (hreuses : Reuses second left cache)
    (hless : second.provider = ({ repository with scopes } : Repository).provider)
    (hscopes : scopes ⊆ repository.scopes) (hmemory : second.memory = first.memory)
    : TellsNoMore second left := by
  rcases files_of_addRoot hcache hoverlay hunchanging hempty h with ⟨hknows, hvisited⟩
  apply tellsNoMore_of_knows hknows
  intro c artifact hartifact
  have hsame := hunchanging.answer_eq left.tree first.memory hvisited.unasked c
  rw [supply_artifact hoverlay] at hartifact
  rw [hartifact, hprovider] at hsame
  rw [hless, hmemory, hreuses.tree_eq]
  exact Repository.answer_of_scopes hscopes hsame

theorem resolveAll?_singleton {c : Coordinate} {before after : Resolver Memory} {summary : Summary}
    (h : resolve? c before = some (.ok summary, after))
    : resolveAll? [c] [] before = some (.ok (.ofList [summary]), after) := by
  rw [resolveAll?, h, Option.bind_eq_bind, Option.bind_some]
  dsimp only
  rw [resolveAll?]
  rfl

namespace DebugOnly

/--
The class files of two artifacts. The class of the root names the one of the leaf in a debug table
only, so it depends on the setting whether the root uses the leaf.
-/
def files : FileTree :=
  ⟨.directory
    [("a.class", .file ⟨#[202, 254, 186, 190, 0, 0, 0, 61, 0, 9, 1, 0, 3, 97, 47, 65, 7, 0, 1, 1, 0, 1,
        109, 1, 0, 3, 40, 41, 86, 1, 0, 4, 67, 111, 100, 101, 1, 0, 18, 76, 111, 99, 97, 108, 86, 97,
        114, 105, 97, 98, 108, 101, 84, 97, 98, 108, 101, 1, 0, 1, 120, 1, 0, 5, 76, 98, 47, 66, 59,
        0, 33, 0, 2, 0, 0, 0, 0, 0, 0, 0, 1, 0, 9, 0, 3, 0, 4, 0, 1, 0, 5, 0, 0, 0, 31, 0, 0, 0, 1, 0,
        0, 0, 1, 177, 0, 0, 0, 1, 0, 6, 0, 0, 0, 12, 0, 1, 0, 0, 0, 1, 0, 7, 0, 8, 0, 0, 0, 0]⟩),
      ("b.class", .file ⟨#[202, 254, 186, 190, 0, 0, 0, 61, 0, 3, 1, 0, 3, 98, 47, 66, 7, 0, 1, 0, 33,
        0, 2, 0, 0, 0, 0, 0, 0, 0, 0, 0, 0]⟩)], []⟩

def root : Coordinate := .ofParts "g" "a" "1"

def leaf : Coordinate := .ofParts "g" "b" "1"

def inventory : Inventory :=
  (CoordinateMap.insert ∅ root ⟨⟨"a.class"⟩, [leaf]⟩).insert leaf ⟨⟨"b.class"⟩, []⟩

def ownCache : Cache where
  directory := ⟨"cache"⟩

def resolver (skipDebug : Bool) (tree : FileTree) : Resolver Unit :=
  { provider := inventory.provider, memory := (), tree, cache := some ownCache, skipDebug }

def leafSummary : Summary := .ofSymbols leaf [] ⟨.ofList ["b/B"], ∅⟩

def rootSummary (used : NameSet) : Summary :=
  .ofSymbols root (.ofList [leafSummary]) ⟨.ofList ["a/A"], used⟩

theorem symbolsAt_files
    : ClassSource.symbolsAt files true ⟨"a.class"⟩ = .ok ⟨.ofList ["a/A"], ∅⟩
        ∧ ClassSource.symbolsAt files false ⟨"a.class"⟩ = .ok ⟨.ofList ["a/A"], .ofList ["b/B"]⟩
        ∧ ∀ skipDebug, ClassSource.symbolsAt files skipDebug ⟨"b.class"⟩ = .ok ⟨.ofList ["b/B"], ∅⟩ := by
  decide +kernel

theorem unchanging (skipDebug : Bool) : (resolver skipDebug files).Unchanging ownCache := by
  apply unchanging_inventory rfl
  intro c artifact hget
  rw [inventory, CoordinateMap.get?_insert, CoordinateMap.get?_insert, CoordinateMap.get?_empty]
    at hget
  split at hget
  . cases hget
    exact ⟨_, 's', rfl, by decide, by decide⟩
  . split at hget
    . cases hget
      exact ⟨_, 's', rfl, by decide, by decide⟩
    . cases hget

theorem hasNoRecords : ownCache.HasNoRecords files := by
  have hinside : (ownCache.prepared files).inside? ownCache.directory.front = some ["cache"] := by
    decide +kernel
  apply Cache.hasNoRecords_of_standing? hinside
  intro name bytes h
  cases h

theorem resolve?_leaf {before : Resolver Unit} (hprovider : before.provider = inventory.provider)
    (htree : before.tree = files) (hcache : before.cache = some ownCache)
    (hoverlay : before.overlay.get? leaf = none) (hnone : before.table.get? leaf = none)
    : ∃ path tree, ownCache.store files leafSummary = (.ok path, tree)
        ∧ resolve? leaf before
          = some (.ok leafSummary,
            Resolver.finish leaf leafSummary { before.mark leaf .inProgress with tree }) := by
  have hok : (ownCache.store files leafSummary).1 = .ok ⟨"cache/g_b_1.json.gz"⟩ := by decide +kernel
  rcases hstore : ownCache.store files leafSummary with ⟨result, tree⟩
  rw [hstore] at hok
  dsimp only at hok
  subst hok
  refine ⟨_, tree, rfl, ?_⟩
  have hanswer : (before.provider.fetch before.tree leaf).run before.memory
      = (.ok ⟨⟨"b.class"⟩, []⟩, ()) := by
    rw [hprovider]
    rfl
  have hfind : (find leaf).run (before.mark leaf .inProgress)
      = (.ok (⟨⟨"b.class"⟩, []⟩, true), before.mark leaf .inProgress) :=
    run_find_published hoverlay hanswer
  have hrun : resolveAll? [] [] (before.mark leaf .inProgress)
      = some (.ok [], before.mark leaf .inProgress) := by
    rw [resolveAll?]
  have hrecord : ownCache.recordIn? before.tree leaf = none := by
    rw [htree]
    decide +kernel
  have hsymbols : ClassSource.symbolsAt before.tree before.skipDebug ⟨"b.class"⟩
      = .ok ⟨.ofList ["b/B"], ∅⟩ := by
    rw [htree]
    exact symbolsAt_files.2.2 before.skipDebug
  exact resolve?_stored hnone hfind hrun hcache hrecord hsymbols (htree.symm ▸ hstore)

theorem exists_addRoot_of_symbolsAt {skipDebug : Bool} {used : NameSet} {path : Path}
    (hsymbols : ClassSource.symbolsAt files skipDebug ⟨"a.class"⟩ = .ok ⟨.ofList ["a/A"], used⟩)
    (hok : (ownCache.store (ownCache.store files leafSummary).2 (rootSummary used)).1 = .ok path)
    : ∃ left, (addRoot root).run (resolver skipDebug files).fresh
        = (.ok (rootSummary used), left) := by
  let marked := (resolver skipDebug files).fresh.mark root .inProgress
  have hnone : marked.table.get? leaf = none := by
    rw [table_mark, if_neg (by decide)]
    rfl
  have hoverlay : marked.overlay.get? leaf = none := CoordinateMap.get?_empty leaf
  rcases resolve?_leaf rfl rfl rfl hoverlay hnone with ⟨_, between, hstore, hleaf⟩
  rw [hstore] at hok
  dsimp only at hok
  rcases hstore' : ownCache.store between (rootSummary used) with ⟨result, after⟩
  rw [hstore'] at hok
  dsimp only at hok
  subst hok
  have hfind : (find root).run marked = (.ok (⟨⟨"a.class"⟩, [leaf]⟩, true), marked) :=
    run_find_of_answer rfl rfl
  have hrecord : ownCache.recordIn? between root = none :=
    (Cache.recordIn?_store_of_ne hstore (by decide)).trans (hasNoRecords root)
  have hsymbols' : ClassSource.symbolsAt between skipDebug ⟨"a.class"⟩ = .ok ⟨.ofList ["a/A"], used⟩ :=
    ((unchanging skipDebug).symbols_eq between () (.stored .start hstore) root _ rfl).trans hsymbols
  exact exists_addRoot_of_resolve? (resolve?_stored rfl hfind (resolveAll?_singleton hleaf) rfl hrecord
    hsymbols' hstore')

end DebugOnly

end Resolver
end ArtifactAudit
