import ArtifactAudit.Proofs.Resolver.Walk

/-!
This module contains the proof that requests do not see earlier ones: without a cache, a resolution
gives the same result whatever has been resolved, or has failed, before it.
-/

namespace ArtifactAudit
namespace Resolver

variable {Memory : Type}

open Supply

/--
A resolver in the middle of a resolution without a cache, while the artifacts `above` wait for what
they depend on. All that it knows is what `base` can come to know.
-/
structure Recalls (base : Resolver Memory) (above : List Coordinate) (resolver : Resolver Memory)
    : Prop extends Sound resolver, Knows base.supply above resolver where
  setting_eq : resolver.setting = base.setting
  memory_eq : ∃ asked, resolver.memory = base.provider.memoryAfter base.tree base.memory asked

theorem recalls_fresh (resolver : Resolver Memory) : Recalls resolver [] resolver.fresh where
  toSound := (consistent_fresh resolver).toSound
  toKnows := knows_fresh resolver.supply resolver
  setting_eq := rfl
  memory_eq := ⟨[], rfl⟩

theorem Recalls.mark {base before : Resolver Memory} {above : List Coordinate} {c : Coordinate}
    (h : Recalls base above before) (hnone : before.table.get? c = none)
    : Recalls base (c :: above) (before.mark c .inProgress) where
  toSound := h.toSound.mark (get?_eq_none (by simp [hnone]))
  toKnows := h.toKnows.mark c
  setting_eq := h.setting_eq
  memory_eq := h.memory_eq

theorem Recalls.of_passes {base before after : Resolver Memory} {above asked new : List Coordinate}
    (h : Recalls base above before) (hpasses : Passes before after asked new)
    (hsound : Sound after) (hknows : Knows base.supply above after)
    : Recalls base above after where
  toSound := hsound
  toKnows := hknows
  setting_eq := hpasses.setting_eq.trans h.setting_eq
  memory_eq := by
    rcases setting_eq_iff.1 h.setting_eq with ⟨hprovider, htree, _⟩
    rcases h.memory_eq with ⟨earlier, hmemory⟩
    refine ⟨earlier ++ asked, ?_⟩
    rw [hpasses.memory_eq, hprovider, htree, hmemory, Provider.memoryAfter_append]

theorem Recalls.cache_eq {base before : Resolver Memory} {above : List Coordinate}
    (h : Recalls base above before)
    : before.cache = base.cache := by
  rcases setting_eq_iff.1 h.setting_eq with ⟨_, _, _, _, hcache⟩
  exact hcache

theorem Recalls.not_reaches {base before : Resolver Memory} {above : List Coordinate}
    {c : Coordinate} {summary : Summary} (h : Recalls base above before)
    (hget : before.get? c = some summary)
    : ∀ x ∈ above, ¬ Reaches base.supply c x := by
  -- All that a done artifact reaches is done too, and none of those that wait is.
  intro x hx hreaches
  have hdone : ∃ other, before.get? x = some other := by
    clear hx
    induction hreaches with
    | refl => exact ⟨summary, hget⟩
    | tail _ hdepends ih =>
      rcases ih with ⟨other, hother⟩
      rw [← (h.yields _ other hother).mem_declared, DependencySet.mem_coordinates] at hdepends
      rcases hdepends with ⟨d, hd, rfl⟩
      exact ⟨d, (h.dependency_done _ other hother d (.inl hd)).1⟩
  rcases hdone with ⟨other, hother⟩
  rw [get?_eq_some_iff, (h.inProgress x).2 hx] at hother
  cases hother

theorem Recalls.table_eq_none {base before : Resolver Memory} {above : List Coordinate}
    {c : Coordinate} {error : AuditError} (h : Recalls base above before)
    (hfails : Fails base.supply above c error) (hnew : c ∉ above)
    : before.table.get? c = none := by
  cases hget : before.table.get? c with
  | none => rfl
  | some resolution =>
    cases resolution with
    | inProgress => exact absurd ((h.inProgress c).1 hget) hnew
    | done summary =>
      have hget := get?_eq_some_iff.2 hget
      exact absurd hfails ((h.yields c summary hget).clean.not_fails (h.not_reaches hget))

theorem resolve?_of_summarize? {c : Coordinate} {before after : Resolver Memory}
    {outcome : Except AuditError Summary} (hnone : before.table.get? c = none)
    (h : summarize? c (before.mark c .inProgress) = some (outcome, after))
    : ∃ ended, resolve? c before = some (outcome.mapError (·.within c), ended) := by
  rw [resolve?, hnone]
  dsimp only
  rw [h]
  cases outcome with
  | ok summary => exact ⟨_, rfl⟩
  | error error => exact ⟨_, rfl⟩

theorem resolveAll?_append {cs ds : List Coordinate} {set : DependencySet}
    {between : Resolver Memory}
    : ∀ {found : DependencySet} {before : Resolver Memory},
        resolveAll? cs found before = some (.ok set, between)
          →
        resolveAll? (cs ++ ds) found before = resolveAll? ds set between := by
  induction cs with
  | nil =>
    intro found before h
    rw [resolveAll?] at h
    cases h
    rfl
  | cons c cs ih =>
    intro found before h
    rw [resolveAll?] at h
    rw [List.cons_append, resolveAll?]
    rcases Option.bind_eq_some_iff.1 h with ⟨⟨answer, next⟩, hone, h⟩
    rw [hone]
    cases answer with
    | ok summary => exact ih h
    | error error => cases h

section

variable {base : Resolver Memory} (hcache : base.cache = none)
  (hsteady : base.provider.Steady base.tree base.memory)

include hsteady

theorem Recalls.agrees {before : Resolver Memory} {above : List Coordinate}
    (h : Recalls base above before) (asked : List Coordinate)
    : Agrees base.supply before asked := by
  rcases setting_eq_iff.1 h.setting_eq with ⟨hprovider, htree, hskipDebug, hoverlay, _⟩
  constructor
  . intro c artifact hget
    simp [supply, ← hoverlay, hget]
  . intro earlier c _ hget
    rcases h.memory_eq with ⟨before, hmemory⟩
    rw [hprovider, htree, hmemory, ← Provider.memoryAfter_append, hsteady]
    simp [supply, ← hoverlay, hget]
  . rw [htree, hskipDebug]
    rfl

theorem Recalls.find {before located : Resolver Memory} {above : List Coordinate} {c : Coordinate}
    {answer : Except AuditError (Artifact × Bool)} (h : Recalls base above before)
    (hfind : (Resolver.find c).run before = (answer, located))
    : answer.map Prod.fst = base.supply.artifact c ∧ Recalls base above located := by
  rcases find_passes hfind with ⟨asked, hpasses, _, hanswer⟩
  have hsame := find_sameTable hfind
  refine ⟨hanswer _ (h.agrees hsteady asked), ?_⟩
  exact h.of_passes hpasses (hsame.sound h.toSound) (h.toKnows.of_table hsame.table)

include hcache

theorem Recalls.of_resolve? {before after : Resolver Memory} {above : List Coordinate}
    {c : Coordinate} {outcome : Except AuditError Summary} (h : Recalls base above before)
    (hrun : resolve? c before = some (outcome, after))
    : Recalls base above after ∧ Gives base.supply above c outcome := by
  rcases resolve?_rightly c before _ hrun (h.cache_eq.trans hcache) with
    ⟨asked, new, hpasses, _, hright⟩
  rcases hright base.supply above (h.agrees hsteady asked) h.toKnows with ⟨hknows, hgives, _⟩
  have hsound := (resolve?_sound c before _ hrun h.toSound).1
  exact ⟨h.of_passes hpasses hsound hknows, hgives⟩

theorem resolveAll?_of_resolves {above cs : List Coordinate} {summaries : Coordinate → Summary}
    (h : ∀ c ∈ cs, ∀ before, Recalls base above before →
      ∃ after, resolve? c before = some (.ok (summaries c), after))
    : ∀ {before : Resolver Memory} (found : DependencySet), Recalls base above before →
        ∃ after,
          resolveAll? cs found before
              = some (.ok (DependencySet.insertAll found (cs.map summaries)), after)
            ∧ Recalls base above after := by
  induction cs with
  | nil =>
    intro before found hbefore
    refine ⟨before, ?_, hbefore⟩
    rw [resolveAll?]
    rfl
  | cons c cs ih =>
    intro before found hbefore
    rw [List.forall_mem_cons] at h
    rcases h.1 before hbefore with ⟨between, hrun⟩
    have hbetween := (hbefore.of_resolve? hcache hsteady hrun).1
    rcases ih h.2 (DependencySet.insert found (summaries c)) hbetween with ⟨after, hrun', hafter⟩
    refine ⟨after, ?_, hafter⟩
    rw [resolveAll?, hrun]
    exact hrun'

theorem summarize?_of_resolveAll? {above : List Coordinate} {c : Coordinate}
    {before : Resolver Memory} {artifact : Artifact} {result : Except AuditError DependencySet}
    (hbefore : Recalls base above before) (hartifact : base.supply.artifact c = .ok artifact)
    (h : ∀ located, Recalls base above located →
      ∃ linked, resolveAll? artifact.dependencies [] located = some (result, linked)
        ∧ Recalls base above linked)
    : ∃ after, summarize? c before
        = some (result.bind fun declared =>
          (base.supply.symbols artifact.location).map (.ofSymbols c declared), after) := by
  cases hfind : (find c).run before with
  | mk answer located =>
    rcases hbefore.find hsteady hfind with ⟨hanswer, hlocated⟩
    rw [hartifact] at hanswer
    cases answer with
    | error error => cases hanswer
    | ok found =>
      rcases found with ⟨other, cacheable⟩
      have heq : artifact = other := (Except.ok.inj hanswer).symm
      subst heq
      rcases h located hlocated with ⟨linked, hrun, hlinked⟩
      refine ⟨linked, ?_⟩
      cases result with
      | error error => exact summarize?_failed hfind hrun
      | ok declared =>
        rcases setting_eq_iff.1 hlinked.setting_eq with ⟨_, htree, hskipDebug, _, hcache'⟩
        rw [summarize?_uncached hfind hrun (hcache'.trans hcache), analyze_eq, htree, hskipDebug]
        rfl

theorem resolve?_of_yields {c : Coordinate} {summary : Summary}
    (h : Yields base.supply c summary)
    : ∀ {above : List Coordinate} {before : Resolver Memory}, Recalls base above before →
        (∀ x ∈ above, ¬ Reaches base.supply c x) →
          ∃ after, resolve? c before = some (.ok summary, after) := by
  induction h with
  | @intro c artifact symbols summaries hartifact hsymbols hdependencies ih =>
    have hyields := Yields.intro hartifact hsymbols hdependencies
    intro above before hbefore habove
    cases hget : before.table.get? c with
    | some resolution =>
      rw [resolve?, hget]
      cases resolution with
      | inProgress => exact absurd .refl (habove c ((hbefore.inProgress c).1 hget))
      | done other =>
        have hother := hbefore.yields c other (get?_eq_some_iff.2 hget)
        exact ⟨before, by rw [hother.unique hyields]⟩
    | none =>
      have hall : ∀ d ∈ artifact.dependencies, ∀ before, Recalls base (c :: above) before →
          ∃ after, resolve? d before = some (.ok (summaries d), after) := by
        intro d hd before hbefore
        have hdepends : DependsOn base.supply c d := ⟨artifact, hartifact, hd⟩
        apply ih d hd hbefore
        intro x hx hreaches
        rcases List.mem_cons.1 hx with rfl | hx
        . exact hyields.clean.not_cyclic (.head' hdepends hreaches)
        . exact habove x hx (.head hdepends hreaches)
      rcases summarize?_of_resolveAll? hcache hsteady (hbefore.mark hget) hartifact
        (fun _ h => resolveAll?_of_resolves hcache hsteady hall [] h) with ⟨after, hrun⟩
      rw [hsymbols] at hrun
      exact resolve?_of_summarize? hget hrun

theorem exists_resolve?_of_clean {above cs : List Coordinate} {c : Coordinate}
    (hdepends : ∀ d ∈ cs, DependsOn base.supply c d) (hclean : ∀ d ∈ cs, Clean base.supply d)
    (habove : ∀ x ∈ above, Reaches base.supply x c)
    : ∃ summaries : Coordinate → Summary, ∀ d ∈ cs, ∀ before, Recalls base (c :: above) before →
        ∃ after, resolve? d before = some (.ok (summaries d), after) := by
  rcases exists_summaries fun d hd => (hclean d hd).exists_yields with ⟨summaries, hsummaries⟩
  refine ⟨summaries, ?_⟩
  intro d hd before hbefore
  apply resolve?_of_yields hcache hsteady (hsummaries d hd) hbefore
  intro x hx hreaches
  -- What waits leads to the dependency, so it would close a cycle.
  have hback : Reaches base.supply d c := by
    rcases List.mem_cons.1 hx with rfl | hx
    . exact hreaches
    . exact hreaches.trans (habove x hx)
  exact (hclean d hd).not_cyclic (.tail' hback (hdepends d hd))

theorem resolve?_of_fails {above : List Coordinate} {c : Coordinate} {error : AuditError}
    (h : Fails base.supply above c error)
    : ∀ {before : Resolver Memory}, Recalls base above before →
        (∀ x ∈ above, Reaches base.supply x c) →
          ∃ after, resolve? c before = some (.error error, after) := by
  induction h with
  | @cycle above c hmem =>
    intro before hbefore _
    refine ⟨before, ?_⟩
    rw [resolve?, (hbefore.inProgress c).2 hmem]
  | @notFound above c error hnew hartifact =>
    intro before hbefore _
    have hget := hbefore.table_eq_none (.notFound hnew hartifact) hnew
    cases hfind : (find c).run (before.mark c .inProgress) with
    | mk answer located =>
      have hanswer := ((hbefore.mark hget).find hsteady hfind).1
      rw [hartifact] at hanswer
      cases answer with
      | ok found => cases hanswer
      | error other =>
        cases hanswer
        exact resolve?_of_summarize? hget (summarize?_notFound hfind)
  | @dependency above c d artifact earlier later error hnew hartifact heq hclean hfails ih =>
    intro before hbefore habove
    have hget := hbefore.table_eq_none (.dependency hnew hartifact heq hclean hfails) hnew
    have hdepends : ∀ x ∈ earlier ++ d :: later, DependsOn base.supply c x := by
      intro x hx
      exact ⟨artifact, hartifact, heq ▸ hx⟩
    rcases exists_resolve?_of_clean hcache hsteady
      (fun x hx => hdepends x (List.mem_append_left _ hx)) hclean habove with ⟨summaries, hall⟩
    have hdeclared : ∀ located, Recalls base (c :: above) located →
        ∃ linked, resolveAll? artifact.dependencies [] located = some (.error error, linked)
          ∧ Recalls base (c :: above) linked := by
      intro located hlocated
      rcases resolveAll?_of_resolves hcache hsteady hall [] hlocated with
        ⟨between, hrun, hbetween⟩
      have hreaches : ∀ x ∈ c :: above, Reaches base.supply x d := by
        intro x hx
        have hd := hdepends d (by simp)
        rcases List.mem_cons.1 hx with rfl | hx
        . exact .single hd
        . exact (habove x hx).tail hd
      rcases ih hbetween hreaches with ⟨linked, hrun'⟩
      refine ⟨linked, ?_, (hbetween.of_resolve? hcache hsteady hrun').1⟩
      rw [heq, resolveAll?_append hrun, resolveAll?, hrun']
      rfl
    rcases summarize?_of_resolveAll? hcache hsteady (hbefore.mark hget) hartifact hdeclared with
      ⟨after, hrun⟩
    exact resolve?_of_summarize? hget hrun
  | @unreadable above c artifact error hnew hartifact hclean hsymbols =>
    intro before hbefore habove
    have hget := hbefore.table_eq_none (.unreadable hnew hartifact hclean hsymbols) hnew
    rcases exists_resolve?_of_clean hcache hsteady (fun d hd => ⟨artifact, hartifact, hd⟩) hclean
      habove with ⟨summaries, hall⟩
    rcases summarize?_of_resolveAll? hcache hsteady (hbefore.mark hget) hartifact
      (fun _ h => resolveAll?_of_resolves hcache hsteady hall [] h) with ⟨after, hrun⟩
    rw [hsymbols] at hrun
    exact resolve?_of_summarize? hget hrun

theorem Recalls.outcome_eq {first second : Resolver Memory} (h : Recalls base [] first)
    (h' : Recalls base [] second) (c : Coordinate)
    : (resolve? c first).map Prod.fst = (resolve? c second).map Prod.fst := by
  have hgives : ∀ {before after other : Resolver Memory} {outcome : Except AuditError Summary},
      Recalls base [] before → Recalls base [] other →
        resolve? c before = some (outcome, after) →
          (resolve? c other).map Prod.fst = some outcome := by
    intro before after other outcome hbefore hother hrun
    have houtcome := (hbefore.of_resolve? hcache hsteady hrun).2
    cases outcome with
    | ok summary =>
      rcases resolve?_of_yields hcache hsteady houtcome hother (by simp) with ⟨_, hrun'⟩
      rw [hrun']
      rfl
    | error error =>
      rcases resolve?_of_fails hcache hsteady houtcome hother (by simp) with ⟨_, hrun'⟩
      rw [hrun']
      rfl
  cases hfirst : resolve? c first with
  | some ended => exact (hgives h h' hfirst).symm
  | none =>
    cases hsecond : resolve? c second with
    | none => rfl
    | some ended =>
      have := hgives h' h hsecond
      rw [hfirst] at this
      cases this

theorem Recalls.performAll (cs : List Coordinate)
    : ∀ {before : Resolver Memory}, Recalls base [] before →
        Recalls base [] (before.performAll (cs.map .resolve)) := by
  induction cs with
  | nil => exact id
  | cons c cs ih =>
    intro before h
    apply ih
    exact resolve_keeps (fun _ hended => (h.of_resolve? hcache hsteady hended).1) h

end

theorem outcome_resolve (c : Coordinate) (resolver : Resolver Memory)
    : ((resolve c).run resolver).1
        =
      ((resolve? c resolver).map Prod.fst).getD
        (.error (.provider c.text (.other "dependencies without end"))) := by
  change ((resolve? c resolver).getD _).1 = _
  cases resolve? c resolver <;> rfl

/--
Without a cache a resolution ends in the same way after any other ones as it does on a fresh resolver:
with the same summary, with the same failure, or not at all.
-/
theorem resolve_performAll_fresh (resolver : Resolver Memory) (hcache : resolver.cache = none)
    (hsteady : resolver.provider.Steady resolver.tree resolver.memory) (cs : List Coordinate)
    (c : Coordinate)
    : let later := resolver.fresh.performAll (cs.map .resolve)
      (resolve? c later).map Prod.fst = (resolve? c resolver.fresh).map Prod.fst
        ∧ ((resolve c).run later).1 = ((resolve c).run resolver.fresh).1 := by
  intro later
  have hfresh := recalls_fresh resolver
  have houtcome := (hfresh.performAll hcache hsteady cs).outcome_eq hcache hsteady hfresh c
  refine ⟨houtcome, ?_⟩
  rw [outcome_resolve, outcome_resolve, houtcome]

theorem resolve_performAll_fresh_ring :
    let a := Coordinate.ofParts "g" "a" "1"
    let b := Coordinate.ofParts "g" "b" "1"
    let leaf := Coordinate.ofParts "g" "leaf" "1"
    let inventory : Inventory :=
      ((CoordinateMap.insert ∅ a ⟨⟨"x.pom"⟩, [leaf, b]⟩).insert b ⟨⟨"x.pom"⟩, [leaf, a]⟩).insert leaf
        ⟨⟨"x.pom"⟩, []⟩
    let ring : Resolver Unit :=
      { provider := inventory.provider
        memory := ()
        tree := ⟨.directory [("x.pom", .file .empty)], []⟩ }
    ring.cache = none ∧ ring.provider.Steady ring.tree ring.memory
      ∧ (resolve? b (ring.fresh.performAll [.resolve a, .resolve leaf])).map Prod.fst
        = (resolve? b ring.fresh).map Prod.fst
      ∧ ((resolve b).run (ring.fresh.performAll [.resolve a, .resolve leaf])).1
        = ((resolve b).run ring.fresh).1 := by
  intro a b leaf inventory ring
  have hsteady : ring.provider.Steady ring.tree ring.memory := fun _ _ => rfl
  exact ⟨rfl, hsteady, resolve_performAll_fresh ring rfl hsteady [a, leaf] b⟩

end Resolver
end ArtifactAudit
