import ArtifactAudit.Proofs.ClassSource
import ArtifactAudit.Proofs.Resolver.Uncached

/-!
This module contains the proof that resolutions find cycles: a resolution ends, it fails for a
cycle only if one is reached, and the path that it gives then leads once around the cycle and out to
the artifact that was asked for.
-/

namespace ArtifactAudit

namespace Resolver

variable {Memory : Type}

open Supply

inductive Explains (supply : Supply) (above : List Coordinate) (c : Coordinate) : AuditError → Prop
    where
  | cycle {path : List Coordinate} (h : CyclePath supply above c path)
    : Explains supply above c (.cyclicalDependency path)
  | unavailable {error : AuditError} {x : Coordinate}
    (plain : ∀ path, error ≠ .cyclicalDependency path) (reaches : Reaches supply c x)
    (unavailable : ¬ Available supply x)
    : Explains supply above c error

theorem Explains.within {supply : Supply} {above : List Coordinate} {c d : Coordinate}
    {error : AuditError} (h : Explains supply (c :: above) d error) (hdepends : DependsOn supply c d)
    : Explains supply above c (error.within c) := by
  cases h with
  | cycle hpath => exact .cycle hpath.within
  | unavailable hplain hreaches hunavailable =>
    rw [AuditError.within_eq_self hplain]
    exact .unavailable hplain (.head hdepends hreaches) hunavailable

theorem Explains.of_not_available {supply : Supply} {above : List Coordinate} {c : Coordinate}
    {error : AuditError} (hplain : ∀ path, error ≠ .cyclicalDependency path)
    (h : ¬ Available supply c)
    : Explains supply above c (error.within c) := by
  rw [AuditError.within_eq_self hplain]
  exact .unavailable hplain .refl h

def Ends (base : Resolver Memory) (above : List Coordinate) (c : Coordinate)
    (before : Resolver Memory)
    : Prop :=
  ∃ outcome after, resolve? c before = some (outcome, after) ∧ Going base above after
    ∧ match outcome with
      | .ok _ => Clean base.supply c
      | .error error => Explains base.supply above c error

def EndsAll (base : Resolver Memory) (above cs : List Coordinate) (found : DependencySet)
    (before : Resolver Memory)
    : Prop :=
  ∃ outcome after, resolveAll? cs found before = some (outcome, after) ∧ Going base above after
    ∧ match outcome with
      | .ok _ => ∀ c ∈ cs, Clean base.supply c
      | .error error => ∃ c ∈ cs, Explains base.supply above c error

theorem endsAll_of_ends {base : Resolver Memory} {above : List Coordinate} {cs : List Coordinate}
    (h : ∀ c ∈ cs, ∀ before, Going base above before → Ends base above c before)
    : ∀ {before : Resolver Memory} (found : DependencySet),
        Going base above before → EndsAll base above cs found before := by
  induction cs with
  | nil =>
    intro before found hbefore
    refine ⟨.ok found, before, ?_, hbefore, by simp⟩
    rw [resolveAll?]
  | cons c cs ih =>
    intro before found hbefore
    rw [List.forall_mem_cons] at h
    rcases h.1 before hbefore with ⟨outcome, between, hrun, hbetween, houtcome⟩
    unfold EndsAll
    rw [resolveAll?, hrun]
    cases outcome with
    | error error => exact ⟨.error error, between, rfl, hbetween, c, by simp, houtcome⟩
    | ok summary =>
      rcases ih h.2 (DependencySet.insert found summary) hbetween with
        ⟨outcome, after, hrun', hafter, houtcome'⟩
      refine ⟨outcome, after, hrun', hafter, ?_⟩
      cases outcome with
      | ok set => exact List.forall_mem_cons.2 ⟨houtcome, houtcome'⟩
      | error error =>
        rcases houtcome' with ⟨d, hd, hexplains⟩
        exact ⟨d, by simp [hd], hexplains⟩

theorem notCyclical_artifact {base : Resolver Memory}
    (hdependable : base.provider.Dependable base.tree base.memory) (c : Coordinate)
    : NotCyclical (base.supply.artifact c) := by
  unfold supply
  dsimp only
  split
  . exact .ok _
  . exact hdependable.notCyclical c

theorem ends_of_endsAll {base before : Resolver Memory} {above : List Coordinate} {c : Coordinate}
    (hcache : base.cache = none) (hdependable : base.provider.Dependable base.tree base.memory)
    (hbefore : Going base above before) (hnew : c ∉ above) (hnone : before.table.get? c = none)
    (hdependencies : ∀ artifact, base.supply.artifact c = .ok artifact →
      ∀ located, Going base (c :: above) located →
        EndsAll base (c :: above) artifact.dependencies [] located)
    : Ends base above c before := by
  unfold Ends
  rw [resolve?, hnone]
  dsimp only
  rcases (hbefore.mark c).find hdependable c with ⟨hanswer, hlocated⟩
  cases hfind : (find c).run (before.mark c .inProgress) with
  | mk answer located =>
    rw [hfind] at hanswer hlocated
    cases answer with
    | error error =>
      have hplain : ∀ path, error ≠ .cyclicalDependency path := by
        intro path heq
        exact notCyclical_artifact hdependable c path (heq ▸ hanswer.symm)
      rw [summarize?_notFound hfind]
      refine ⟨_, _, rfl, hlocated.unmark hnew, .of_not_available hplain ?_⟩
      rintro ⟨artifact, symbols, hartifact, _⟩
      rw [← hanswer] at hartifact
      cases hartifact
    | ok found =>
      rcases found with ⟨artifact, cacheable⟩
      have hartifact : base.supply.artifact c = .ok artifact := hanswer.symm
      rcases hdependencies artifact hartifact located hlocated with
        ⟨outcome, linked, hrun, hlinked, houtcome⟩
      cases outcome with
      | error error =>
        rcases houtcome with ⟨d, hd, hexplains⟩
        rw [summarize?_failed hfind hrun]
        exact ⟨_, _, rfl, hlinked.unmark hnew, hexplains.within ⟨artifact, hartifact, hd⟩⟩
      | ok declared =>
        have hsetting := hlinked.setting_eq
        simp only [setting, Prod.mk.injEq] at hsetting
        rcases hsetting with ⟨_, htree, hskipDebug, _, hcache'⟩
        have hread : ClassSource.symbolsAt base.tree base.skipDebug artifact.location
            = base.supply.symbols artifact.location := rfl
        rw [summarize?_uncached hfind hrun (hcache'.trans hcache), analyze_eq, htree, hskipDebug,
          hread]
        cases hsymbols : base.supply.symbols artifact.location with
        | error error =>
          have hplain : ∀ path, error ≠ .cyclicalDependency path := by
            intro path heq
            exact ClassSource.notCyclical_symbolsAt _ _ _ path (heq ▸ hsymbols)
          refine ⟨_, _, rfl, hlinked.unmark hnew, .of_not_available hplain ?_⟩
          rintro ⟨other, symbols, hother, hsymbols'⟩
          rw [hartifact, Except.ok.injEq] at hother
          rw [← hother, hsymbols] at hsymbols'
          cases hsymbols'
        | ok symbols =>
          have hclean : Clean base.supply c := .intro hartifact hsymbols houtcome
          exact ⟨_, _, rfl, hlinked.finish hnew hclean _, hclean⟩

def unmet (listed above : List Coordinate) : List Coordinate :=
  listed.filter (· ∉ above)

theorem length_unmet_lt {listed above : List Coordinate} {c : Coordinate} (h : c ∈ listed)
    (hnew : c ∉ above)
    : (unmet listed (c :: above)).length < (unmet listed above).length := by
  have hsub : unmet listed (c :: above) = (unmet listed above).filter (· ≠ c) := by
    simp [unmet, List.filter_filter, not_or]
  rw [hsub]
  apply List.length_filter_lt_length_iff_exists.2
  exact ⟨c, by simp [unmet, h, hnew], by simp⟩

theorem ends_of_listed {base : Resolver Memory} (hcache : base.cache = none)
    (hdependable : base.provider.Dependable base.tree base.memory) {listed : List Coordinate}
    (hlisted : ∀ c artifact, base.supply.artifact c = .ok artifact → artifact.dependencies ⊆ listed)
    (n : Nat)
    : ∀ {above : List Coordinate} {c : Coordinate} {before : Resolver Memory},
        (unmet listed above).length < n
          →
        c ∈ listed
          →
        above.Nodup
          →
        (c :: above).IsChain (fun d c => DependsOn base.supply c d)
          →
        Going base above before
          →
        Ends base above c before := by
  -- Those that wait are different ones of the listed artifacts, so there is a bound to them.
  induction n with
  | zero =>
    intro above c before hlt
    omega
  | succ n ih =>
    intro above c before hlt hmem hnodup hlinked hbefore
    cases hget : before.table.get? c with
    | some resolution =>
      unfold Ends
      rw [resolve?, hget]
      cases resolution with
      | inProgress =>
        have hwaits := (hbefore.inProgress c).1 hget
        exact ⟨_, _, rfl, hbefore, .cycle (.singleton hwaits hlinked hnodup)⟩
      | done summary => exact ⟨_, _, rfl, hbefore, hbefore.done c summary hget⟩
    | none =>
      have hnew := notMem_of_none hbefore.inProgress hget
      apply ends_of_endsAll hcache hdependable hbefore hnew hget
      intro artifact hartifact located hlocated
      apply endsAll_of_ends _ _ hlocated
      intro d hd between hbetween
      have hlt' := length_unmet_lt hmem hnew
      apply ih (by omega) (hlisted c artifact hartifact hd) _ _ hbetween
      . exact List.nodup_cons.2 ⟨hnew, hnodup⟩
      . exact List.isChain_cons_cons.2 ⟨⟨artifact, hartifact, hd⟩, hlinked⟩

theorem exists_listed {base : Resolver Memory}
    (hdependable : base.provider.Dependable base.tree base.memory)
    : ∃ listed : List Coordinate, ∀ c artifact,
        base.supply.artifact c = .ok artifact → artifact.dependencies ⊆ listed := by
  rcases hdependable.finite with ⟨declared, hdeclared⟩
  refine ⟨(base.overlay.entries.flatMap fun entry => entry.2.dependencies) ++ declared, ?_⟩
  intro c artifact h d hd
  unfold supply at h
  dsimp only at h
  rw [List.mem_append]
  split at h
  . next found hget =>
    cases h
    exact .inl (List.mem_flatMap_of_mem (CoordinateMap.mem_entries.2 hget) hd)
  . exact .inr (hdeclared c artifact h hd)

/--
A fresh resolver without a cache comes to an end for every artifact. If all that the artifact reaches
is available it fails exactly if the artifact reaches a cycle, and fails for the cycle then. The path
that it gives for a cycle leads from an artifact that comes once more on the path to the one that was
asked for, each artifact depending on the one before it.
-/
theorem resolve_fresh (resolver : Resolver Memory) (r : Coordinate) (hcache : resolver.cache = none)
    (hdependable : resolver.provider.Dependable resolver.tree resolver.memory)
    : ∃ outcome after,
        resolve? r resolver.fresh = some (outcome, after)
          ∧ (resolve r).run resolver.fresh = (outcome, after)
          ∧ ((∀ c, Reaches resolver.supply r c → Available resolver.supply c) →
              ((∃ error, outcome = .error error)
                ↔ ∃ c, Reaches resolver.supply r c ∧ Cyclic resolver.supply c)
                ∧ ∀ error, outcome = .error error → ∃ path, error = .cyclicalDependency path)
          ∧ ∀ path, outcome = .error (.cyclicalDependency path) →
              2 ≤ path.length
                ∧ path.getLast? = some r
                ∧ (∀ i d c, path[i]? = some d → path[i + 1]? = some c →
                  DependsOn resolver.supply c d)
                ∧ path.tail.Nodup
                ∧ ∃ d, path.head? = some d ∧ d ∈ path.tail := by
  rcases exists_listed hdependable with ⟨listed, hlisted⟩
  have hends : Ends resolver [] r resolver.fresh :=
    ends_of_listed hcache hdependable
      (fun c artifact hartifact => List.subset_cons_of_subset r (hlisted c artifact hartifact)) _
      (Nat.lt_succ_self _) List.mem_cons_self List.nodup_nil (.singleton r) (going_fresh resolver)
  rcases hends with ⟨outcome, after, hrun, _, houtcome⟩
  have hresolve : (resolve r).run resolver.fresh = (outcome, after) := by
    change (resolve? r resolver.fresh).getD _ = _
    rw [hrun]
    rfl
  refine ⟨outcome, after, hrun, hresolve, ?_, ?_⟩
  . intro havailable
    cases outcome with
    | ok summary =>
      refine ⟨⟨by simp, ?_⟩, by simp⟩
      rintro ⟨c, hreaches, hcyclic⟩
      exact absurd hcyclic (Clean.of_reaches houtcome hreaches).not_cyclic
    | error error =>
      cases houtcome with
      | cycle hpath =>
        refine ⟨⟨fun _ => hpath.exists_cyclic, fun _ => ⟨_, rfl⟩⟩, ?_⟩
        intro other heq
        cases heq
        exact ⟨_, rfl⟩
      | unavailable _ hreaches hunavailable => exact absurd (havailable _ hreaches) hunavailable
  . rintro path rfl
    cases houtcome with
    | unavailable hplain _ _ => exact absurd rfl (hplain path)
    | cycle hpath =>
      rcases hpath.repeated with ⟨d, hhead, hmem⟩
      have hlinked := hpath.linked
      have hnodup := hpath.nodup
      rw [List.append_nil] at hmem hlinked hnodup
      refine ⟨?_, hpath.last, ?_, hnodup, d, hhead, hmem⟩
      . have := List.length_pos_of_mem hmem
        rw [List.length_tail] at this
        omega
      . intro i d c hd hc
        rcases List.getElem?_eq_some_iff.1 hd with ⟨_, rfl⟩
        rcases List.getElem?_eq_some_iff.1 hc with ⟨hi, rfl⟩
        exact List.isChain_iff_getElem.1 hlinked i hi

theorem resolve_fresh_ring :
    let a := Coordinate.ofParts "g" "a" "1"
    let b := Coordinate.ofParts "g" "b" "1"
    let inventory : Inventory :=
      (CoordinateMap.insert ∅ a ⟨⟨"x.pom"⟩, [b]⟩).insert b ⟨⟨"x.pom"⟩, [a]⟩
    let ring : Resolver Unit :=
      { provider := inventory.provider
        memory := ()
        tree := ⟨.directory [("x.pom", .file .empty)], []⟩ }
    ∃ path after, (resolve a).run ring.fresh = (.error (.cyclicalDependency path), after)
      ∧ path.getLast? = some a ∧ ∃ d, path.head? = some d ∧ d ∈ path.tail := by
  intro a b inventory ring
  have hartifact : ∀ c, ring.supply.artifact c
      = if c = b then .ok ⟨⟨"x.pom"⟩, [a]⟩ else if c = a then .ok ⟨⟨"x.pom"⟩, [b]⟩
        else .error (.provider c.text .artifactNotFound) := by
    intro c
    change inventory.fetch c = _
    simp only [Inventory.fetch, inventory, CoordinateMap.get?_insert, CoordinateMap.get?_empty]
    split <;> split <;> simp_all
  have hsymbols : ring.supply.symbols ⟨"x.pom"⟩ = .ok ∅ := by decide +kernel
  have hb : ring.supply.artifact b = .ok ⟨⟨"x.pom"⟩, [a]⟩ := by rw [hartifact, if_pos rfl]
  have ha : ring.supply.artifact a = .ok ⟨⟨"x.pom"⟩, [b]⟩ := by
    rw [hartifact, if_neg (by decide), if_pos rfl]
  have hreached : ∀ c, Reaches ring.supply a c → c = a ∨ c = b := by
    intro c h
    induction h with
    | refl => exact .inl rfl
    | tail _ hdepends ih =>
      rcases hdepends with ⟨artifact, hother, hmem⟩
      rcases ih with rfl | rfl
      . rw [ha, Except.ok.injEq] at hother
        rw [← hother] at hmem
        exact .inr (List.mem_singleton.1 hmem)
      . rw [hb, Except.ok.injEq] at hother
        rw [← hother] at hmem
        exact .inl (List.mem_singleton.1 hmem)
  have havailable : ∀ c, Reaches ring.supply a c → Available ring.supply c := by
    intro c h
    rcases hreached c h with rfl | rfl
    . exact ⟨_, _, ha, hsymbols⟩
    . exact ⟨_, _, hb, hsymbols⟩
  have hcycle : Cyclic ring.supply a :=
    .tail (.single ⟨_, ha, by simp⟩) ⟨_, hb, by simp⟩
  rcases resolve_fresh ring a rfl (Provider.dependable_inventory inventory _ _) with
    ⟨outcome, after, _, hrun, hfails, hpath⟩
  rcases (hfails havailable).1.2 ⟨a, .refl, hcycle⟩ with ⟨error, rfl⟩
  rcases (hfails havailable).2 error rfl with ⟨path, rfl⟩
  rcases hpath path rfl with ⟨_, hlast, _, _, hrepeated⟩
  exact ⟨path, after, hrun, hlast, hrepeated⟩

end Resolver
end ArtifactAudit
