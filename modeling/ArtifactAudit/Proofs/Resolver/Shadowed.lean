import ArtifactAudit.Proofs.Resolver.Overlaid

/-!
This module contains what resolutions with an overlay take from it: an artifact of the overlay is
read where the overlay says, and the provider is asked for all other artifacts and for no others.
-/

namespace ArtifactAudit
namespace Resolver

variable {Memory : Type}

open DependencySet

/--
The files and memories that a resolution can come to while it asks the provider only for artifacts
that are not in the overlay, and stores only those.
-/
inductive Outside (base : Resolver Memory) : FileTree → Memory → Prop where
  | start : Outside base base.tree base.memory
  | asked {tree : FileTree} {memory : Memory} {c : Coordinate} (outside : Outside base tree memory)
    (overlay_eq : base.overlay.get? c = none)
    : Outside base tree ((base.provider.fetch tree c).run memory).2
  | stored {tree : FileTree} {memory : Memory} {cache : Cache} {summary : Summary}
    (outside : Outside base tree memory) (cache_eq : base.cache = some cache)
    (overlay_eq : base.overlay.get? summary.coordinate = none)
    : Outside base (cache.store tree summary).2 memory

inductive Source (base : Resolver Memory) (c : Coordinate) : Artifact → Bool → Prop where
  | overlay {artifact : Artifact} (overlay_eq : base.overlay.get? c = some artifact)
    : Source base c artifact false
  | provider {artifact : Artifact} {tree : FileTree} {memory : Memory}
    (overlay_eq : base.overlay.get? c = none) (outside : Outside base tree memory)
    (answer_eq : base.provider.answer tree memory c = .ok artifact)
    : Source base c artifact true

/--
Whether a summary tells of the classes where the overlay says, and of the dependencies that the
overlay says, if its artifact is in the overlay. If not the provider has an answer for the artifact.
-/
def Supplied (base : Resolver Memory) (c : Coordinate) (summary : Summary) : Prop :=
  summary.coordinate = c
    ∧ ∃ tree memory, Outside base tree memory
      ∧ match base.overlay.get? c with
        | some artifact =>
          (∃ symbols, ClassSource.symbolsAt tree base.skipDebug artifact.location = .ok symbols
              ∧ summary = .ofSymbols c summary.declared symbols)
            ∧ ∀ d, d ∈ coordinates summary.declared ↔ d ∈ artifact.dependencies
        | none => ∃ artifact, base.provider.answer tree memory c = .ok artifact

structure Shadowed (base resolver : Resolver Memory) : Prop where
  provider_eq : resolver.provider = base.provider
  skipDebug_eq : resolver.skipDebug = base.skipDebug
  overlay_eq : resolver.overlay = base.overlay
  cache_eq : resolver.cache = base.cache
  outside : Outside base resolver.tree resolver.memory
  supplied : ∀ c summary, resolver.get? c = some summary → Supplied base c summary

variable {base before after : Resolver Memory} {c : Coordinate}

theorem shadowed_fresh (base : Resolver Memory) : Shadowed base base.fresh where
  provider_eq := rfl
  skipDebug_eq := rfl
  overlay_eq := rfl
  cache_eq := rfl
  outside := .start
  supplied _ _ h := by cases h

theorem Shadowed.mark (h : Shadowed base before) (c : Coordinate)
    : Shadowed base (before.mark c .inProgress) where
  provider_eq := h.provider_eq
  skipDebug_eq := h.skipDebug_eq
  overlay_eq := h.overlay_eq
  cache_eq := h.cache_eq
  outside := h.outside
  supplied := forall_get?_mark h.supplied c

theorem Shadowed.unmark (h : Shadowed base before) (c : Coordinate)
    : Shadowed base (before.unmark c) where
  provider_eq := h.provider_eq
  skipDebug_eq := h.skipDebug_eq
  overlay_eq := h.overlay_eq
  cache_eq := h.cache_eq
  outside := h.outside
  supplied := forall_get?_unmark h.supplied c

theorem Shadowed.finish (h : Shadowed base before) {summary : Summary}
    (hsummary : Supplied base c summary)
    : Shadowed base (before.finish c summary) where
  provider_eq := h.provider_eq
  skipDebug_eq := h.skipDebug_eq
  overlay_eq := h.overlay_eq
  cache_eq := h.cache_eq
  outside := h.outside
  supplied := forall_get?_finish h.supplied hsummary

theorem Shadowed.find (h : Shadowed base before) {located : Resolver Memory}
    {answer : Except AuditError (Artifact × Bool)}
    (hfind : (Resolver.find c).run before = (answer, located))
    : Shadowed base located
        ∧ ∀ artifact cacheable, answer = .ok (artifact, cacheable) →
          Source base c artifact cacheable := by
  constructor
  . rw [run_find, h.overlay_eq, h.provider_eq] at hfind
    split at hfind
    . cases hfind
      exact h
    . next hnone =>
      cases hfind
      exact ⟨rfl, h.skipDebug_eq, rfl, h.cache_eq, h.outside.asked hnone, h.supplied⟩
  . rintro artifact cacheable rfl
    rcases find_eq_ok hfind with ⟨rfl, hlocal, _⟩ | ⟨rfl, hnone, hanswer, _⟩
    . exact .overlay (h.overlay_eq ▸ hlocal)
    . exact .provider (h.overlay_eq ▸ hnone) h.outside (h.provider_eq ▸ hanswer)

theorem Shadowed.compute (h : Shadowed base before) {artifact : Artifact} {cacheable : Bool}
    {declared : DependencySet}
    (hsource : Source base c artifact cacheable)
    (hdeclared : ∀ d, d ∈ coordinates declared ↔ d ∈ artifact.dependencies)
    : Shadowed base ((Resolver.compute c artifact cacheable declared).run before).2
        ∧ ∀ summary,
          ((Resolver.compute c artifact cacheable declared).run before).1 = .ok summary →
            Supplied base c summary := by
  rw [run_compute]
  cases hanalyze : analyze before.tree before.skipDebug c declared artifact.location with
  | error error => exact ⟨h, fun _ => nofun⟩
  | ok summary =>
    rw [analyze_eq, h.skipDebug_eq] at hanalyze
    cases hsymbols : ClassSource.symbolsAt before.tree base.skipDebug artifact.location with
    | error error =>
      rw [hsymbols] at hanalyze
      cases hanalyze
    | ok symbols =>
      rw [hsymbols] at hanalyze
      cases hanalyze
      cases hsource with
      | overlay hoverlay =>
        refine ⟨h, ?_⟩
        intro other heq
        cases heq
        refine ⟨rfl, before.tree, before.memory, h.outside, ?_⟩
        rw [hoverlay]
        exact ⟨⟨symbols, hsymbols, rfl⟩, hdeclared⟩
      | @provider tree memory hoverlay houtside hanswer =>
        have hsupplied : Supplied base c (.ofSymbols c declared symbols) := by
          refine ⟨rfl, tree, memory, houtside, ?_⟩
          rw [hoverlay]
          exact ⟨artifact, hanswer⟩
        dsimp only
        rw [if_pos rfl, run_store, h.cache_eq]
        cases hcache : base.cache with
        | none =>
          refine ⟨h, ?_⟩
          intro other heq
          cases heq
          exact hsupplied
        | some cache =>
          refine ⟨⟨h.provider_eq, h.skipDebug_eq, h.overlay_eq, hcache.symm,
            h.outside.stored hcache hoverlay, h.supplied⟩, ?_⟩
          intro other heq
          dsimp only at heq
          cases hresult : (cache.store before.tree (.ofSymbols c declared symbols)).1 with
          | error error =>
            rw [hresult] at heq
            cases heq
          | ok path =>
            rw [hresult] at heq
            cases heq
            exact hsupplied

def ShadowsOne (base : Resolver Memory) (c : Coordinate) (before : Resolver Memory)
    (ended : Ended Memory Summary)
    : Prop :=
  Shadowed base before → Shadowed base ended.2
    ∧ ∀ summary, ended.1 = .ok summary → Supplied base c summary

def ShadowsAll (base : Resolver Memory) (cs : List Coordinate) (found : DependencySet)
    (before : Resolver Memory) (ended : Ended Memory DependencySet)
    : Prop :=
  Shadowed base before → Shadowed base ended.2
    ∧ ∀ set, ended.1 = .ok set → ∀ d, d ∈ coordinates set ↔ d ∈ coordinates found ∨ d ∈ cs

theorem Source.supplied_of_record {artifact : Artifact} {cacheable : Bool} {record : Record}
    {direct : DependencySet} (h : Source base c artifact cacheable)
    (hrecord : (recordOf c cacheable).run before = (.ok (some record), after))
    : Supplied base c (record.complete direct) := by
  have hcoordinate := recordOf_coordinate hrecord
  cases h with
  | overlay _ =>
    rw [run_recordOf] at hrecord
    cases hrecord
  | @provider tree memory hoverlay houtside hanswer =>
    refine ⟨hcoordinate, tree, memory, houtside, ?_⟩
    rw [hoverlay]
    exact ⟨artifact, hanswer⟩

theorem resolve?_shadows (base : Resolver Memory)
    : ∀ (c : Coordinate) (before : Resolver Memory) (ended : Ended Memory Summary),
        resolve? c before = some ended → ShadowsOne base c before ended := by
  apply run_induction (ShadowsOne base) (ShadowsAll base) (ShadowsOne base)
  case done =>
    intro c before summary hget hbefore
    refine ⟨hbefore, ?_⟩
    intro other heq
    cases heq
    exact hbefore.supplied c summary (get?_eq_some_iff.2 hget)
  case cycle => exact fun _ _ _ hbefore => ⟨hbefore, fun _ => nofun⟩
  case finished =>
    intro c before summary after _ ih hbefore
    rcases ih (hbefore.mark c) with ⟨hafter, hsummary⟩
    refine ⟨hafter.finish (hsummary summary rfl), ?_⟩
    intro other heq
    cases heq
    exact hsummary summary rfl
  case failed =>
    intro c before error after _ ih hbefore
    exact ⟨(ih (hbefore.mark c)).1.unmark c, fun _ => nofun⟩
  case nil =>
    intro found before hbefore
    refine ⟨hbefore, ?_⟩
    intro set heq
    cases heq
    simp
  case cons =>
    intro c cs found before summary between ended ih ihAll hbefore
    rcases ih hbefore with ⟨hbetween, hsummary⟩
    rcases ihAll hbetween with ⟨hafter, hset⟩
    refine ⟨hafter, ?_⟩
    intro set heq d
    rw [hset set heq, mem_coordinates_insert, (hsummary summary rfl).1, List.mem_cons, or_assoc]
  case consFailed =>
    intro c cs found before error after ih hbefore
    exact ⟨(ih hbefore).1, fun _ => nofun⟩
  case notFound =>
    intro c before error after hfind hbefore
    exact ⟨(hbefore.find hfind).1, fun _ => nofun⟩
  case dependencyFailed =>
    intro c before artifact cacheable located error after hfind ih hbefore
    exact ⟨(ih (hbefore.find hfind).1).1, fun _ => nofun⟩
  case recordFailed =>
    intro c before artifact cacheable located declared linked error hfind ih _ hbefore
    exact ⟨(ih (hbefore.find hfind).1).1, fun _ => nofun⟩
  case computed =>
    intro c before artifact cacheable located declared linked hfind ih _ hbefore
    rcases hbefore.find hfind with ⟨hlocated, hsource⟩
    rcases ih hlocated with ⟨hlinked, hdeclared⟩
    apply hlinked.compute (hsource artifact cacheable rfl)
    intro d
    rw [hdeclared declared rfl]
    simp [coordinates]
  case relinkFailed =>
    intro c before artifact cacheable located declared linked record error after hfind ih _ ihDirect
      hbefore
    exact ⟨(ihDirect (ih (hbefore.find hfind).1).1).1, fun _ => nofun⟩
  case relinked =>
    intro c before artifact cacheable located declared linked record direct after hfind ih hrecord
      ihDirect hbefore
    rcases hbefore.find hfind with ⟨hlocated, hsource⟩
    refine ⟨(ihDirect (ih hlocated).1).1, ?_⟩
    intro summary heq
    cases heq
    exact (hsource artifact cacheable rfl).supplied_of_record hrecord

theorem Shadowed.addRoot (h : Shadowed base before) (r : Coordinate)
    : Shadowed base ((Resolver.addRoot r).run before).2 := by
  apply addRoot_keeps (fun ended hrun => (resolve?_shadows base r before ended hrun h).1) h
  intro after roots hafter
  exact ⟨hafter.provider_eq, hafter.skipDebug_eq, hafter.overlay_eq, hafter.cache_eq, hafter.outside,
    hafter.supplied⟩

theorem Shadowed.addRoots (rs : List Coordinate)
    : ∀ {before : Resolver Memory}, Shadowed base before →
        Shadowed base ((Resolver.addRoots rs).run before).2 := by
  induction rs with
  | nil => exact id
  | cons r rs ih =>
    intro before h
    have hroot := h.addRoot r
    rw [run_addRoots]
    revert hroot
    rcases (Resolver.addRoot r).run before with ⟨error | summary, between⟩
    . exact id
    . exact ih

theorem Consistent.addRoots (rs : List Coordinate)
    : ∀ {before : Resolver Memory}, Consistent before →
        (Resolver.addRoots rs).run before = (.ok (), after) →
          Consistent after
            ∧ (∀ c summary, before.get? c = some summary → after.get? c = some summary)
            ∧ ∀ r ∈ rs, ∃ summary, after.get? r = some summary := by
  induction rs with
  | nil =>
    intro before h hrun
    cases hrun
    exact ⟨h, fun _ _ => id, by simp⟩
  | cons r rs ih =>
    intro before h hrun
    rcases run_addRoots_cons hrun with ⟨summary, between, hroot, hrest⟩
    have hbetween := h.addRoot r
    rw [hroot] at hbetween
    have hdone : between.get? r = some summary := by
      rcases resolve?_of_addRoot hroot with ⟨ended, roots, hended, rfl⟩
      exact (resolve?_sound r before _ hended h.toSound).2.2 summary rfl
    rcases ih hbetween.1 hrest with ⟨hafter, hkept, hroots⟩
    refine ⟨hafter, fun c other hget => hkept c other (hbetween.2 c other hget), ?_⟩
    rw [List.forall_mem_cons]
    exact ⟨⟨summary, hkept r summary hdone⟩, hroots⟩

def withModules (modules : List ProjectModule) (resolver : Resolver Memory) : Resolver Memory :=
  modules.foldl (fun resolver part => resolver.addLocal part.coordinate part.artifact) resolver

/--
The artifact of the last of some modules that have a coordinate.
-/
def moduleOf? (modules : List ProjectModule) (c : Coordinate) : Option Artifact :=
  (modules.reverse.find? (·.coordinate = c)).map (·.artifact)

theorem overlay_withModules (modules : List ProjectModule)
    : ∀ (resolver : Resolver Memory) (c : Coordinate),
        (resolver.withModules modules).overlay.get? c
          = (moduleOf? modules c).or (resolver.overlay.get? c) := by
  induction modules with
  | nil => exact fun _ _ => rfl
  | cons part modules ih =>
    intro resolver c
    change (withModules modules
      (resolver.addLocal part.coordinate part.artifact)).overlay.get? c = _
    rw [ih, moduleOf?, moduleOf?, List.reverse_cons, List.find?_append, addLocal,
      CoordinateMap.get?_insert, List.find?_singleton]
    cases modules.reverse.find? (·.coordinate = c) with
    | some other => rfl
    | none =>
      by_cases heq : c = part.coordinate
      . simp [heq]
      . simp [heq, Ne.symm heq]

theorem exists_moduleOf? {modules : List ProjectModule} {part : ProjectModule}
    (h : part ∈ modules)
    : ∃ other ∈ modules, other.coordinate = part.coordinate
        ∧ moduleOf? modules part.coordinate = some other.artifact := by
  rw [moduleOf?]
  cases hfind : modules.reverse.find? (·.coordinate = part.coordinate) with
  | none =>
    rw [List.find?_eq_none] at hfind
    exact absurd (decide_eq_true rfl) (hfind part (List.mem_reverse.2 h))
  | some other =>
    have hother := List.find?_some hfind
    exact ⟨other, List.mem_reverse.1 (List.mem_of_find?_eq_some hfind), by simpa using hother, rfl⟩

theorem moduleOf?_eq_none {modules : List ProjectModule} {c : Coordinate}
    : moduleOf? modules c = none ↔ ∀ part ∈ modules, part.coordinate ≠ c := by
  simp [moduleOf?]

theorem run_addModules (modules : List ProjectModule) (resolver : Resolver Memory)
    : (addModules modules).run resolver
        = (addRoots (modules.map (·.coordinate))).run (resolver.withModules modules) := by
  have hlocal : ∀ resolver : Resolver Memory,
      (modules.forM fun part => (modify (addLocal part.coordinate part.artifact) :
          Resolving Memory Unit)).run resolver
        = (.ok (), resolver.withModules modules) := by
    induction modules with
    | nil => exact fun _ => rfl
    | cons part modules ih =>
      intro resolver
      change (modify _ >>= fun _ => _ : Resolving Memory Unit).run resolver = _
      rw [Resolving.run_bind]
      exact ih (resolver.addLocal part.coordinate part.artifact)
  rw [addModules, Resolving.run_bind, hlocal]

theorem withModules_fresh (modules : List ProjectModule)
    : ∀ resolver : Resolver Memory,
        resolver.fresh.withModules modules = (resolver.withModules modules).fresh := by
  induction modules with
  | nil => exact fun _ => rfl
  | cons part modules ih => exact fun resolver => ih (resolver.addLocal _ _)

theorem addModules_shadowed (resolver : Resolver Memory) (modules : List ProjectModule)
    : Shadowed (resolver.withModules modules) ((addModules modules).run resolver.fresh).2
        ∧ ∀ after, (addModules modules).run resolver.fresh = (.ok (), after) →
          ∀ part ∈ modules, moduleOf? modules part.coordinate = some part.artifact →
            ∀ d ∈ part.artifact.dependencies, ∃ summary, after.get? d = some summary
              ∧ Supplied (resolver.withModules modules) d summary := by
  have hrun : (addModules modules).run resolver.fresh
      = (addRoots (modules.map (·.coordinate))).run (resolver.withModules modules).fresh := by
    rw [run_addModules, withModules_fresh]
  have hshadowed := (shadowed_fresh (resolver.withModules modules)).addRoots
    (modules.map (·.coordinate))
  rw [hrun]
  refine ⟨hshadowed, ?_⟩
  intro after hafter part hpart hlast d hd
  rw [hafter] at hshadowed
  rcases (consistent_fresh (resolver.withModules modules)).addRoots _ hafter with
    ⟨hconsistent, _, hroots⟩
  rcases hroots part.coordinate (List.mem_map_of_mem hpart) with ⟨summary, hget⟩
  rcases hshadowed.supplied part.coordinate summary hget with ⟨_, tree, memory, _, hsource⟩
  rw [overlay_withModules, hlast, Option.some_or] at hsource
  rcases mem_coordinates.1 ((hsource.2 d).2 hd) with ⟨member, hmember, rfl⟩
  have hdone := (hconsistent.dependency_done _ _ hget member (.inl hmember)).1
  exact ⟨member, hdone, hshadowed.supplied _ _ hdone⟩

theorem exists_addRoots_of_clean (hcache : base.cache = none)
    (hsteady : base.provider.Steady base.tree base.memory) (rs : List Coordinate)
    : ∀ {before : Resolver Memory}, (∀ r ∈ rs, Supply.Clean base.supply r) →
        Recalls base [] before → Consistent before →
          ∃ after, (Resolver.addRoots rs).run before = (.ok (), after)
            ∧ Knows base.supply [] after := by
  induction rs with
  | nil => exact fun _ hrecalls _ => ⟨_, rfl, hrecalls.toKnows⟩
  | cons r rs ih =>
    intro before hrs hrecalls hconsistent
    rw [List.forall_mem_cons] at hrs
    rcases hrs.1.exists_yields with ⟨summary, hyields⟩
    rcases resolve?_of_yields hcache hsteady hyields hrecalls (by simp) with ⟨_, hended⟩
    rcases exists_addRoot_of_resolve? hended with ⟨between, hroot⟩
    have hbetween := (hconsistent.addRoot r).1
    rw [hroot] at hbetween
    rcases resolve?_of_addRoot hroot with ⟨ended, roots, hended, rfl⟩
    have hrecalls := (hrecalls.of_resolve? hcache hsteady hended).1
    rw [run_addRoots, hroot]
    exact ih hrs.2 ⟨hbetween.toSound, hrecalls.toKnows.of_table rfl, hrecalls.setting_eq,
      hrecalls.memory_eq⟩ hbetween

theorem exists_addModules_of_clean {resolver : Resolver Memory} {modules : List ProjectModule}
    (hcache : (resolver.withModules modules).cache = none)
    (hsteady : (resolver.withModules modules).provider.Steady (resolver.withModules modules).tree
      (resolver.withModules modules).memory)
    (hclean : ∀ part ∈ modules, Supply.Clean (resolver.withModules modules).supply part.coordinate)
    : ∃ after, (addModules modules).run resolver.fresh = (.ok (), after)
        ∧ Knows (resolver.withModules modules).supply [] after := by
  rw [run_addModules, withModules_fresh]
  apply exists_addRoots_of_clean hcache hsteady _ _ (recalls_fresh _) (consistent_fresh _)
  simpa using hclean

end Resolver
end ArtifactAudit
