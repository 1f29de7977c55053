import ArtifactAudit.Proofs.Resolver.Uncached
import ArtifactAudit.Proofs.Supply.Outcome

/-!
This module contains the proof that a resolution without a cache gives what the artifacts and their
symbols say, whatever is done before it. A provider counts as it has answered on the way.
-/

namespace ArtifactAudit
namespace Resolver

variable {Memory : Type}

open Supply

/--
What a resolution without a cache has done: it has asked the provider for some artifacts in turn, and
some artifacts are done since.
-/
structure Passes (before after : Resolver Memory) (asked new : List Coordinate) : Prop where
  setting_eq : after.setting = before.setting
  memory_eq : after.memory = before.provider.memoryAfter before.tree before.memory asked
  order_eq : after.order = before.order ++ new

theorem Passes.refl (resolver : Resolver Memory) : Passes resolver resolver [] [] :=
  ⟨rfl, rfl, (List.append_nil _).symm⟩

theorem setting_eq_iff {left right : Resolver Memory}
    : left.setting = right.setting
        ↔
      left.provider = right.provider ∧ left.tree = right.tree ∧ left.skipDebug = right.skipDebug
        ∧ left.overlay = right.overlay ∧ left.cache = right.cache := by
  simp [setting]

theorem Passes.trans {first second third : Resolver Memory} {asked asked' new new' : List Coordinate}
    (h : Passes first second asked new) (h' : Passes second third asked' new')
    : Passes first third (asked ++ asked') (new ++ new') := by
  rcases setting_eq_iff.1 h.setting_eq with ⟨hprovider, htree, _⟩
  constructor
  . rw [h'.setting_eq, h.setting_eq]
  . rw [h'.memory_eq, hprovider, htree, h.memory_eq, Provider.memoryAfter_append]
  . rw [h'.order_eq, h.order_eq, List.append_assoc]

theorem Passes.finish {before after : Resolver Memory} {asked new : List Coordinate} {c : Coordinate}
    (h : Passes (before.mark c .inProgress) after asked new) (summary : Summary)
    : Passes before (after.finish c summary) asked (new ++ [c]) where
  setting_eq := h.setting_eq
  memory_eq := h.memory_eq
  order_eq := by
    change after.order ++ [c] = _
    rw [h.order_eq, List.append_assoc]
    rfl

theorem Passes.unmark {before after : Resolver Memory} {asked new : List Coordinate} {c : Coordinate}
    (h : Passes (before.mark c .inProgress) after asked new)
    : Passes before (after.unmark c) asked new where
  setting_eq := h.setting_eq
  memory_eq := h.memory_eq
  order_eq := h.order_eq

def provided (resolver : Resolver Memory) (cs : List Coordinate) : List Coordinate :=
  cs.filter fun c => (resolver.overlay.get? c).isNone

theorem provided_append (resolver : Resolver Memory) (cs ds : List Coordinate)
    : resolver.provided (cs ++ ds) = resolver.provided cs ++ resolver.provided ds :=
  List.filter_append cs ds

theorem Passes.provided_eq {before after : Resolver Memory} {asked new : List Coordinate}
    (h : Passes before after asked new) (cs : List Coordinate)
    : after.provided cs = before.provided cs := by
  rcases setting_eq_iff.1 h.setting_eq with ⟨_, _, _, hoverlay, _⟩
  unfold provided
  rw [hoverlay]

theorem Passes.cache_eq_none {before after : Resolver Memory} {asked new : List Coordinate}
    (h : Passes before after asked new) (hcache : before.cache = none)
    : after.cache = none := by
  rcases setting_eq_iff.1 h.setting_eq with ⟨_, _, _, _, heq⟩
  rw [heq, hcache]

structure Agrees (supply : Supply) (resolver : Resolver Memory) (asked : List Coordinate) : Prop where
  overlay : ∀ c artifact,
    resolver.overlay.get? c = some artifact → supply.artifact c = .ok artifact
  answers : ∀ earlier c, earlier ++ [c] <+: asked → resolver.overlay.get? c = none →
    supply.artifact c = resolver.provider.answer resolver.tree
      (resolver.provider.memoryAfter resolver.tree resolver.memory earlier) c
  symbols : supply.symbols = ClassSource.symbolsAt resolver.tree resolver.skipDebug

theorem Agrees.left {supply : Supply} {resolver : Resolver Memory} {asked more : List Coordinate}
    (h : Agrees supply resolver (asked ++ more))
    : Agrees supply resolver asked where
  overlay := h.overlay
  answers earlier c hstart := h.answers earlier c (hstart.trans (List.prefix_append _ _))
  symbols := h.symbols

theorem Agrees.right {supply : Supply} {before after : Resolver Memory}
    {asked more new : List Coordinate} (h : Agrees supply before (asked ++ more))
    (hpasses : Passes before after asked new)
    : Agrees supply after more := by
  rcases setting_eq_iff.1 hpasses.setting_eq with ⟨hprovider, htree, hskipDebug, hoverlay, _⟩
  constructor
  . rw [hoverlay]
    exact h.overlay
  . intro earlier c hstart hnone
    rw [hoverlay] at hnone
    have hstart' : (asked ++ earlier) ++ [c] <+: asked ++ more := by
      rw [List.append_assoc]
      exact (List.prefix_append_right_inj asked).2 hstart
    rw [h.answers (asked ++ earlier) c hstart' hnone, hprovider, htree, hpasses.memory_eq,
      Provider.memoryAfter_append]
  . rw [h.symbols, htree, hskipDebug]

theorem Agrees.mark {supply : Supply} {resolver : Resolver Memory} {asked : List Coordinate}
    {c : Coordinate} {resolution : Resolution} (h : Agrees supply resolver asked)
    : Agrees supply (resolver.mark c resolution) asked where
  overlay := h.overlay
  answers := h.answers
  symbols := h.symbols

/--
A table that knows which artifacts wait for what they depend on, and that knows nothing wrong of the
ones that are done.
-/
structure Knows (supply : Supply) (above : List Coordinate) (resolver : Resolver Memory) : Prop where
  inProgress : ∀ c, resolver.table.get? c = some .inProgress ↔ c ∈ above
  yields : ∀ c summary, resolver.get? c = some summary → Yields supply c summary

theorem Knows.of_table {supply : Supply} {above : List Coordinate} {before after : Resolver Memory}
    (h : Knows supply above before) (htable : after.table = before.table)
    : Knows supply above after where
  inProgress := by
    rw [htable]
    exact h.inProgress
  yields := by
    unfold Resolver.get?
    rw [htable]
    exact h.yields

theorem Knows.mark {supply : Supply} {above : List Coordinate} {before : Resolver Memory}
    (h : Knows supply above before) (c : Coordinate)
    : Knows supply (c :: above) (before.mark c .inProgress) where
  inProgress := inProgress_mark h.inProgress c
  yields := forall_get?_mark h.yields c

theorem Knows.finish {supply : Supply} {above : List Coordinate} {after : Resolver Memory}
    {c : Coordinate} {summary : Summary} (h : Knows supply (c :: above) after) (hnew : c ∉ above)
    (hyields : Yields supply c summary)
    : Knows supply above (after.finish c summary) where
  inProgress := inProgress_finish h.inProgress hnew _
  yields := forall_get?_finish h.yields hyields

theorem Knows.unmark {supply : Supply} {above : List Coordinate} {after : Resolver Memory}
    {c : Coordinate} (h : Knows supply (c :: above) after) (hnew : c ∉ above)
    : Knows supply above (after.unmark c) where
  inProgress := inProgress_unmark h.inProgress hnew
  yields := forall_get?_unmark h.yields c

theorem knows_fresh (supply : Supply) (resolver : Resolver Memory)
    : Knows supply [] resolver.fresh where
  inProgress c := by simp [fresh]
  yields c summary h := by cases h

theorem find_passes {c : Coordinate} {before located : Resolver Memory}
    {answer : Except AuditError (Artifact × Bool)} (h : (find c).run before = (answer, located))
    : ∃ asked : List Coordinate, Passes before located asked [] ∧ before.provided [c] = asked
        ∧ ∀ supply, Agrees supply before asked → answer.map Prod.fst = supply.artifact c := by
  rw [run_find] at h
  split at h
  . next artifact hget =>
    cases h
    refine ⟨[], .refl before, by simp [provided, hget], ?_⟩
    intro supply hagrees
    rw [hagrees.overlay c artifact hget]
    rfl
  . next hget =>
    cases h
    refine ⟨[c], ⟨rfl, rfl, (List.append_nil _).symm⟩, by simp [provided, hget], ?_⟩
    intro supply hagrees
    rw [hagrees.answers [] c List.prefix_rfl hget]
    change _ = ((before.provider.fetch before.tree c).run before.memory).1
    cases ((before.provider.fetch before.tree c).run before.memory).1 <;> rfl

def ResolvesRightly (c : Coordinate) (before : Resolver Memory) (ended : Ended Memory Summary)
    : Prop :=
  before.cache = none → ∃ asked new, Passes before ended.2 asked new
    ∧ (∀ summary, ended.1 = .ok summary → asked.Perm (before.provided new))
    ∧ ∀ supply above, Agrees supply before asked → Knows supply above before →
      Knows supply above ended.2 ∧ Gives supply above c ended.1 ∧ ∀ x ∈ new, Reaches supply c x

def ResolvesAllRightly (cs : List Coordinate) (found : DependencySet) (before : Resolver Memory)
    (ended : Ended Memory DependencySet)
    : Prop :=
  before.cache = none → ∃ asked new, Passes before ended.2 asked new
    ∧ (∀ set, ended.1 = .ok set → asked.Perm (before.provided new))
    ∧ ∀ supply above, Agrees supply before asked → Knows supply above before →
      Knows supply above ended.2 ∧ GivesAll supply above cs found ended.1
        ∧ ∀ x ∈ new, ∃ d ∈ cs, Reaches supply d x

def SummarizesRightly (c : Coordinate) (before : Resolver Memory) (ended : Ended Memory Summary)
    : Prop :=
  before.cache = none → ∃ asked new, Passes before ended.2 asked new
    ∧ (∀ summary, ended.1 = .ok summary → asked.Perm (before.provided (c :: new)))
    ∧ ∀ supply above, c ∉ above → Agrees supply before asked → Knows supply (c :: above) before →
      Knows supply (c :: above) ended.2
        ∧ Gives supply above c (ended.1.mapError (·.within c))
        ∧ ∀ x ∈ new, Reaches supply c x

theorem ResolvesAllRightly.below {c : Coordinate} {artifact : Artifact} {cacheable : Bool}
    {before located linked : Resolver Memory} {answer : Except AuditError DependencySet}
    (h : ResolvesAllRightly artifact.dependencies [] located (answer, linked))
    (hfind : (find c).run before = (.ok (artifact, cacheable), located))
    (hcache : before.cache = none)
    : ∃ asked new, Passes before linked asked new
        ∧ (∀ set, answer = .ok set → asked.Perm (before.provided (c :: new)))
        ∧ ∀ supply above, Agrees supply before asked → Knows supply (c :: above) before →
          supply.artifact c = .ok artifact ∧ Knows supply (c :: above) linked
            ∧ GivesAll supply (c :: above) artifact.dependencies [] answer
            ∧ ∀ x ∈ new, Reaches supply c x := by
  rcases find_passes hfind with ⟨asked, hpasses, hone, hanswer⟩
  rcases h (hpasses.cache_eq_none hcache) with ⟨asked', new, hpasses', hasked, hright⟩
  refine ⟨asked ++ asked', new, hpasses.trans hpasses', ?_, ?_⟩
  . intro set heq
    rw [← List.singleton_append, provided_append, hone, ← hpasses.provided_eq new]
    exact (hasked set heq).append_left asked
  . intro supply above hagrees hknows
    have hartifact := (hanswer supply hagrees.left).symm
    rcases hright supply (c :: above) (hagrees.right hpasses)
      (hknows.of_table (find_sameTable hfind).table) with ⟨hafter, hgives, hreaches⟩
    refine ⟨hartifact, hafter, hgives, ?_⟩
    intro x hx
    rcases hreaches x hx with ⟨d, hd, hreach⟩
    exact .head ⟨artifact, hartifact, hd⟩ hreach

theorem recordOf_eq_none {c : Coordinate} {artifact : Artifact} {cacheable : Bool}
    {declared : DependencySet} {before located linked checked : Resolver Memory}
    {answer : Except AuditError (Option Record)} (hcache : before.cache = none)
    (hfind : (find c).run before = (.ok (artifact, cacheable), located))
    (hlinked : ResolvesAllRightly artifact.dependencies [] located (.ok declared, linked))
    (hrecord : (recordOf c cacheable).run linked = (answer, checked))
    : answer = .ok none := by
  rcases hlinked.below hfind hcache with ⟨_, _, hpasses, _, _⟩
  rw [run_recordOf_uncached (hpasses.cache_eq_none hcache)] at hrecord
  exact (congrArg Prod.fst hrecord).symm

theorem resolve?_rightly
    : ∀ (c : Coordinate) (before : Resolver Memory) (ended : Ended Memory Summary),
        resolve? c before = some ended → ResolvesRightly c before ended := by
  -- The supply comes after the artifacts that are asked for, as each call inside a run is told only
  -- those answers that it gets itself.
  apply run_induction ResolvesRightly ResolvesAllRightly SummarizesRightly
  case done =>
    intro c before summary hget _
    refine ⟨[], [], .refl before, fun _ _ => .rfl, ?_⟩
    intro supply above _ hknows
    exact ⟨hknows, hknows.yields c summary (get?_eq_some_iff.2 hget), by simp⟩
  case cycle =>
    intro c before hget _
    refine ⟨[], [], .refl before, fun _ _ => .rfl, ?_⟩
    intro supply above _ hknows
    exact ⟨hknows, .cycle ((hknows.inProgress c).1 hget), by simp⟩
  case finished =>
    intro c before summary after hnone ih hcache
    rcases ih hcache with ⟨asked, new, hpasses, hasked, hright⟩
    refine ⟨asked, new ++ [c], hpasses.finish summary, ?_, ?_⟩
    . intro _ _
      exact (hasked summary rfl).trans ((List.perm_append_singleton c new).symm.filter _)
    . intro supply above hagrees hknows
      have hnew := notMem_of_none hknows.inProgress hnone
      rcases hright supply above hnew hagrees.mark (hknows.mark c) with ⟨hafter, hgives, hreaches⟩
      refine ⟨hafter.finish hnew hgives, hgives, ?_⟩
      intro x hx
      rcases List.mem_append.1 hx with hx | hx
      . exact hreaches x hx
      . rw [List.mem_singleton.1 hx]
        exact .refl
  case failed =>
    intro c before error after hnone ih hcache
    rcases ih hcache with ⟨asked, new, hpasses, _, hright⟩
    refine ⟨asked, new, hpasses.unmark, by simp, ?_⟩
    intro supply above hagrees hknows
    have hnew := notMem_of_none hknows.inProgress hnone
    rcases hright supply above hnew hagrees.mark (hknows.mark c) with ⟨hafter, hgives, hreaches⟩
    exact ⟨hafter.unmark hnew, hgives, hreaches⟩
  case nil =>
    intro found before _
    refine ⟨[], [], .refl before, fun _ _ => .rfl, ?_⟩
    intro supply above _ hknows
    exact ⟨hknows, givesAll_nil above found, by simp⟩
  case cons =>
    intro c cs found before summary between ended ih ihAll hcache
    rcases ih hcache with ⟨asked, new, hpasses, hasked, hright⟩
    rcases ihAll (hpasses.cache_eq_none hcache) with ⟨asked', new', hpasses', hasked', hright'⟩
    refine ⟨asked ++ asked', new ++ new', hpasses.trans hpasses', ?_, ?_⟩
    . intro set heq
      rw [provided_append, ← hpasses.provided_eq new']
      exact (hasked summary rfl).append (hasked' set heq)
    . intro supply above hagrees hknows
      rcases hright supply above hagrees.left hknows with ⟨hbetween, hgives, hreaches⟩
      rcases hright' supply above (hagrees.right hpasses) hbetween with
        ⟨hafter, hgives', hreaches'⟩
      refine ⟨hafter, hgives'.cons hgives, ?_⟩
      intro x hx
      rcases List.mem_append.1 hx with hx | hx
      . exact ⟨c, by simp, hreaches x hx⟩
      . rcases hreaches' x hx with ⟨d, hd, hreach⟩
        exact ⟨d, by simp [hd], hreach⟩
  case consFailed =>
    intro c cs found before error after ih hcache
    rcases ih hcache with ⟨asked, new, hpasses, _, hright⟩
    refine ⟨asked, new, hpasses, by simp, ?_⟩
    intro supply above hagrees hknows
    rcases hright supply above hagrees hknows with ⟨hafter, hgives, hreaches⟩
    exact ⟨hafter, .of_fails hgives cs found, fun x hx => ⟨c, by simp, hreaches x hx⟩⟩
  case notFound =>
    intro c before error after hfind _
    rcases find_passes hfind with ⟨asked, hpasses, _, hanswer⟩
    refine ⟨asked, [], hpasses, by simp, ?_⟩
    intro supply above hnew hagrees hknows
    have hartifact := hanswer supply hagrees
    exact ⟨hknows.of_table (find_sameTable hfind).table, .notFound hnew hartifact.symm, by simp⟩
  case dependencyFailed =>
    intro c before artifact cacheable located error after hfind ih hcache
    rcases ih.below hfind hcache with ⟨asked, new, hpasses, _, hright⟩
    refine ⟨asked, new, hpasses, by simp, ?_⟩
    intro supply above hnew hagrees hknows
    rcases hright supply above hagrees hknows with ⟨hartifact, hafter, hgives, hreaches⟩
    rcases hgives with ⟨earlier, d, later, heq, hclean, hfails⟩
    exact ⟨hafter, .dependency hnew hartifact heq hclean hfails, hreaches⟩
  case recordFailed =>
    intro c before artifact cacheable located declared linked error hfind ih hrecord hcache
    cases recordOf_eq_none hcache hfind ih hrecord
  case computed =>
    intro c before artifact cacheable located declared linked hfind ih _ hcache
    rcases ih.below hfind hcache with ⟨asked, new, hpasses, hasked, hright⟩
    rw [run_compute_uncached (hpasses.cache_eq_none hcache), analyze_eq]
    refine ⟨asked, new, hpasses, fun _ _ => hasked declared rfl, ?_⟩
    intro supply above hnew hagrees hknows
    rcases hright supply above hagrees hknows with ⟨hartifact, hafter, hgives, hreaches⟩
    rcases hgives with ⟨summaries, hsummaries, rfl⟩
    refine ⟨hafter, ?_, hreaches⟩
    rcases setting_eq_iff.1 hpasses.setting_eq with ⟨_, htree, hskipDebug, _⟩
    rw [htree, hskipDebug, ← hagrees.symbols]
    cases hsymbols : supply.symbols artifact.location with
    | ok symbols => exact .intro hartifact hsymbols hsummaries
    | error error =>
      exact .unreadable hnew hartifact (fun d hd => (hsummaries d hd).clean) hsymbols
  case relinkFailed =>
    intro c before artifact cacheable located declared linked record error after hfind ih hrecord _
      hcache
    cases recordOf_eq_none hcache hfind ih hrecord
  case relinked =>
    intro c before artifact cacheable located declared linked record direct after hfind ih hrecord _
      hcache
    cases recordOf_eq_none hcache hfind ih hrecord

end Resolver
end ArtifactAudit
