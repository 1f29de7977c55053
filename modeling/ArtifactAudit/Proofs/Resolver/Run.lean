import ArtifactAudit.Proofs.Provider
import ArtifactAudit.Resolver

/-!
This module contains the theory of what resolutions do: the equations of their operations, and the
induction over all that a resolution with an end has gone through.
-/

namespace ArtifactAudit

namespace Resolving

variable {Memory α β : Type}

theorem run_bind (x : Resolving Memory α) (f : α → Resolving Memory β) (resolver : Resolver Memory)
    : (x >>= f).run resolver
        =
      match x.run resolver with
      | (.ok a, after) => (f a).run after
      | (.error error, after) => (.error error, after) := by
  change StateT.run (x >>= f).run resolver = _
  rw [ExceptT.run_bind, StateT.run_bind]
  cases hx : x.run resolver with
  | mk answer after =>
    have hx : StateT.run x.run resolver = (answer, after) := hx
    rw [hx]
    cases answer <;> rfl

theorem run_get (resolver : Resolver Memory)
    : (get : Resolving Memory (Resolver Memory)).run resolver = (.ok resolver, resolver) := rfl

theorem run_mk_pure (answer : Except AuditError α) (resolver : Resolver Memory)
    : (ExceptT.mk (pure answer) : Resolving Memory α).run resolver = (answer, resolver) := rfl

end Resolving

namespace Resolver

variable {Memory : Type}

open Resolving

theorem run_ask {α : Type}
    (question : Provider Memory → FileTree → ExceptT AuditError (StateM Memory) α)
    (resolver : Resolver Memory)
    : (ask question).run resolver
        =
      let ended := (question resolver.provider resolver.tree).run resolver.memory
      (ended.1, { resolver with memory := ended.2 }) := rfl

theorem run_find (c : Coordinate) (resolver : Resolver Memory)
    : (find c).run resolver
        =
      match resolver.overlay.get? c with
      | some artifact => (.ok (artifact, false), resolver)
      | none =>
        let ended := (resolver.provider.fetch resolver.tree c).run resolver.memory
        (ended.1.map (·, true), { resolver with memory := ended.2 }) := by
  unfold find
  rw [run_bind, run_get]
  dsimp only
  cases resolver.overlay.get? c with
  | some artifact => rfl
  | none =>
    dsimp only
    rw [run_bind, run_ask]
    dsimp only
    rcases (resolver.provider.fetch resolver.tree c).run resolver.memory with
      ⟨answer | answer, memory⟩ <;> rfl

theorem run_find_local {c : Coordinate} {artifact : Artifact} {resolver : Resolver Memory}
    (h : resolver.overlay.get? c = some artifact)
    : (find c).run resolver = (.ok (artifact, false), resolver) := by
  rw [run_find, h]

theorem run_find_published {c : Coordinate} {artifact : Artifact} {memory : Memory}
    {resolver : Resolver Memory} (h : resolver.overlay.get? c = none)
    (hfetch : (resolver.provider.fetch resolver.tree c).run resolver.memory = (.ok artifact, memory))
    : (find c).run resolver = (.ok (artifact, true), { resolver with memory }) := by
  rw [run_find, h]
  dsimp only
  rw [hfetch]
  rfl

theorem find_eq_ok {c : Coordinate} {artifact : Artifact} {cacheable : Bool}
    {before located : Resolver Memory}
    (h : (find c).run before = (.ok (artifact, cacheable), located))
    : (cacheable = false ∧ before.overlay.get? c = some artifact ∧ located = before)
        ∨
      (cacheable = true ∧ before.overlay.get? c = none
        ∧ before.provider.answer before.tree before.memory c = .ok artifact
        ∧ located = { before with
          memory := ((before.provider.fetch before.tree c).run before.memory).2 }) := by
  rw [run_find] at h
  split at h
  . next found hfound =>
    cases h
    exact .inl ⟨rfl, hfound, rfl⟩
  . next hnone =>
    rw [Provider.answer]
    generalize (before.provider.fetch before.tree c).run before.memory = ended at h ⊢
    rcases ended with ⟨error | found, memory⟩
    . cases h
    . cases h
      exact .inr ⟨rfl, hnone, rfl, rfl⟩

theorem run_recordOf (c : Coordinate) (cacheable : Bool) (resolver : Resolver Memory)
    : (recordOf c cacheable).run resolver
        =
      (match cacheable, resolver.cache with
        | true, some cache =>
          match cache.load resolver.tree c with
          | .ok record => .ok record
          | .error error => if error.recoverable then .ok none else .error error
        | _, _ => .ok none, resolver) := by
  unfold recordOf
  rw [run_bind, run_get]
  dsimp only
  generalize resolver.cache = cache
  cases cacheable with
  | false => rfl
  | true =>
    cases cache with
    | none => rfl
    | some cache =>
      dsimp only
      cases cache.load resolver.tree c with
      | ok record => rfl
      | error error =>
        dsimp only
        cases error.recoverable <;> rfl

theorem recordOf_state {c : Coordinate} {cacheable : Bool} {before after : Resolver Memory}
    {answer : Except AuditError (Option Record)}
    (h : (recordOf c cacheable).run before = (answer, after))
    : after = before := by
  rw [run_recordOf] at h
  cases h
  rfl

theorem analyze_eq (tree : FileTree) (skipDebug : Bool) (c : Coordinate)
    (declared : DependencySet) (location : Path)
    : analyze tree skipDebug c declared location
        =
      (ClassSource.symbolsAt tree skipDebug location).map (.ofSymbols c declared) := by
  unfold analyze
  cases ClassSource.symbolsAt tree skipDebug location <;> rfl

theorem run_store (summary : Summary) (resolver : Resolver Memory)
    : (store summary).run resolver
        =
      match resolver.cache with
      | none => (.ok (), resolver)
      | some cache =>
        let stored := cache.store resolver.tree summary
        (stored.1.map fun _ => (), { resolver with tree := stored.2 }) := by
  change (match resolver.cache with
    | none => _
    | some cache => _ : StateM (Resolver Memory) (Except AuditError Unit)) resolver = _
  cases resolver.cache <;> rfl

theorem run_compute (c : Coordinate) (artifact : Artifact) (cacheable : Bool)
    (declared : DependencySet) (resolver : Resolver Memory)
    : (compute c artifact cacheable declared).run resolver
        =
      match analyze resolver.tree resolver.skipDebug c declared artifact.location with
      | .error error => (.error error, resolver)
      | .ok summary =>
        if cacheable then
          let stored := (store summary).run resolver
          (stored.1.map fun _ => summary, stored.2)
        else (.ok summary, resolver) := by
  unfold compute
  rw [run_bind, run_get]
  dsimp only
  rw [run_bind, run_mk_pure]
  cases analyze resolver.tree resolver.skipDebug c declared artifact.location with
  | error error => rfl
  | ok summary =>
    cases cacheable with
    | false => rfl
    | true =>
      dsimp only
      rw [if_pos rfl, if_pos rfl, run_bind]
      rcases (store summary).run resolver with ⟨answer | answer, after⟩ <;> rfl

/--
What holds of each single thing that a resolution can do, if it holds of what is done on the way,
holds of every resolution with an end.
-/
theorem run_induction
    (resolves : Coordinate → Resolver Memory → Ended Memory Summary → Prop)
    (resolvesAll : List Coordinate → DependencySet → Resolver Memory →
      Ended Memory DependencySet → Prop)
    (summarizes : Coordinate → Resolver Memory → Ended Memory Summary → Prop)
    (done : ∀ c before summary,
      before.table.get? c = some (.done summary) → resolves c before (.ok summary, before))
    (cycle : ∀ c before,
      before.table.get? c = some .inProgress →
      resolves c before (.error (.cyclicalDependency [c]), before))
    (finished : ∀ c before summary after,
      before.table.get? c = none →
      summarizes c (before.mark c .inProgress) (.ok summary, after) →
      resolves c before (.ok summary, after.finish c summary))
    (failed : ∀ c before error after,
      before.table.get? c = none →
      summarizes c (before.mark c .inProgress) (.error error, after) →
      resolves c before (.error (error.within c), after.unmark c))
    (nil : ∀ found before, resolvesAll [] found before (.ok found, before))
    (cons : ∀ c cs found before summary between ended,
      resolves c before (.ok summary, between) →
      resolvesAll cs (DependencySet.insert found summary) between ended →
      resolvesAll (c :: cs) found before ended)
    (consFailed : ∀ c cs found before error after,
      resolves c before (.error error, after) →
      resolvesAll (c :: cs) found before (.error error, after))
    (notFound : ∀ c before error after,
      (find c).run before = (.error error, after) → summarizes c before (.error error, after))
    (dependencyFailed : ∀ c before artifact cacheable located error after,
      (find c).run before = (.ok (artifact, cacheable), located) →
      resolvesAll artifact.dependencies [] located (.error error, after) →
      summarizes c before (.error error, after))
    (recordFailed : ∀ c before artifact cacheable located declared linked error,
      (find c).run before = (.ok (artifact, cacheable), located) →
      resolvesAll artifact.dependencies [] located (.ok declared, linked) →
      (recordOf c cacheable).run linked = (.error error, linked) →
      summarizes c before (.error error, linked))
    (computed : ∀ c before artifact cacheable located declared linked,
      (find c).run before = (.ok (artifact, cacheable), located) →
      resolvesAll artifact.dependencies [] located (.ok declared, linked) →
      (recordOf c cacheable).run linked = (.ok none, linked) →
      summarizes c before ((compute c artifact cacheable declared).run linked))
    (relinkFailed : ∀ c before artifact cacheable located declared linked record error after,
      (find c).run before = (.ok (artifact, cacheable), located) →
      resolvesAll artifact.dependencies [] located (.ok declared, linked) →
      (recordOf c cacheable).run linked = (.ok (some record), linked) →
      resolvesAll record.direct [] linked (.error error, after) →
      summarizes c before (.error error, after))
    (relinked : ∀ c before artifact cacheable located declared linked record direct after,
      (find c).run before = (.ok (artifact, cacheable), located) →
      resolvesAll artifact.dependencies [] located (.ok declared, linked) →
      (recordOf c cacheable).run linked = (.ok (some record), linked) →
      resolvesAll record.direct [] linked (.ok direct, after) →
      summarizes c before (.ok (record.complete direct), after))
    : ∀ c before ended, resolve? c before = some ended → resolves c before ended := by
  refine resolve?.partial_correctness resolves summarizes resolvesAll ?_ ?_ ?_
  . intro summarize? ih c before ended h
    split at h
    . next summary hget =>
      cases h
      exact done c before summary hget
    . next hget =>
      cases h
      exact cycle c before hget
    . next hget =>
      rcases Option.bind_eq_some_iff.1 h with ⟨⟨answer, after⟩, hrun, h⟩
      cases answer with
      | ok summary =>
        cases h
        exact finished c before summary after hget (ih _ _ _ hrun)
      | error error =>
        cases h
        exact failed c before error after hget (ih _ _ _ hrun)
  . intro resolveAll? ih c before ended h
    cases hfind : (find c).run before with
    | mk answer located =>
      rw [hfind] at h
      cases answer with
      | error error =>
        cases h
        exact notFound c before error located hfind
      | ok found =>
        rcases found with ⟨artifact, cacheable⟩
        rcases Option.bind_eq_some_iff.1 h with ⟨⟨answer, linked⟩, hlinked, h⟩
        cases answer with
        | error error =>
          cases h
          exact dependencyFailed c before _ _ _ error linked hfind (ih _ _ _ _ hlinked)
        | ok declared =>
          dsimp only at h
          cases hrecord : (recordOf c cacheable).run linked with
          | mk answer checked =>
            obtain rfl : linked = checked := (recordOf_state hrecord).symm
            rw [hrecord] at h
            cases answer with
            | error error =>
              cases h
              exact recordFailed c before _ _ _ _ _ error hfind (ih _ _ _ _ hlinked) hrecord
            | ok record =>
              cases record with
              | none =>
                cases h
                exact computed c before _ _ _ _ _ hfind (ih _ _ _ _ hlinked) hrecord
              | some record =>
                rcases Option.bind_eq_some_iff.1 h with ⟨⟨answer, after⟩, hdirect, h⟩
                cases answer with
                | error error =>
                  cases h
                  exact relinkFailed c before _ _ _ _ _ _ error _ hfind (ih _ _ _ _ hlinked)
                    hrecord (ih _ _ _ _ hdirect)
                | ok direct =>
                  cases h
                  exact relinked c before _ _ _ _ _ _ _ _ hfind (ih _ _ _ _ hlinked)
                    hrecord (ih _ _ _ _ hdirect)
  . intro resolve? resolveAll? ih ihAll cs found before ended h
    cases cs with
    | nil =>
      cases h
      exact nil found before
    | cons c cs =>
      rcases Option.bind_eq_some_iff.1 h with ⟨⟨answer, between⟩, hone, h⟩
      cases answer with
      | error error =>
        cases h
        exact consFailed c cs found before error between (ih _ _ _ hone)
      | ok summary =>
        exact cons c cs found before summary between ended (ih _ _ _ hone) (ihAll _ _ _ _ h)

section

variable {c : Coordinate} {before located linked checked : Resolver Memory} {artifact : Artifact}
  {cacheable : Bool} {declared : DependencySet}

theorem summarize?_notFound {error : AuditError}
    (hfind : (find c).run before = (.error error, located))
    : summarize? c before = some (.error error, located) := by
  rw [summarize?, hfind]

theorem summarize?_failed {error : AuditError}
    (hfind : (find c).run before = (.ok (artifact, cacheable), located))
    (hrun : resolveAll? artifact.dependencies [] located = some (.error error, linked))
    : summarize? c before = some (.error error, linked) := by
  rw [summarize?, hfind]
  dsimp only
  rw [hrun]
  rfl

variable (hfind : (find c).run before = (.ok (artifact, cacheable), located))
  (hrun : resolveAll? artifact.dependencies [] located = some (.ok declared, linked))

include hfind hrun

theorem summarize?_linked
    : summarize? c before
        =
      match (recordOf c cacheable).run linked with
      | (.error error, checked) => some (.error error, checked)
      | (.ok none, checked) => some ((compute c artifact cacheable declared).run checked)
      | (.ok (some record), checked) =>
        (resolveAll? record.direct [] checked).map fun ended =>
          (ended.1.map record.complete, ended.2) := by
  rw [summarize?, hfind]
  dsimp only
  rw [hrun, Option.bind_eq_bind, Option.bind_some]
  dsimp only
  rcases (recordOf c cacheable).run linked with ⟨error | record, checked⟩
  . rfl
  . cases record with
    | none => rfl
    | some record =>
      dsimp only
      rcases resolveAll? record.direct [] checked with _ | ⟨error | direct, after⟩ <;> rfl

theorem summarize?_recordFailed {error : AuditError}
    (hrecord : (recordOf c cacheable).run linked = (.error error, checked))
    : summarize? c before = some (.error error, checked) := by
  rw [summarize?_linked hfind hrun, hrecord]

theorem summarize?_computed (hrecord : (recordOf c cacheable).run linked = (.ok none, checked))
    : summarize? c before = some ((compute c artifact cacheable declared).run checked) := by
  rw [summarize?_linked hfind hrun, hrecord]

theorem summarize?_relinked {record : Record} {result : Except AuditError DependencySet}
    {after : Resolver Memory}
    (hrecord : (recordOf c cacheable).run linked = (.ok (some record), checked))
    (hdirect : resolveAll? record.direct [] checked = some (result, after))
    : summarize? c before = some (result.map record.complete, after) := by
  rw [summarize?_linked hfind hrun, hrecord]
  dsimp only
  rw [hdirect]
  rfl

end

end Resolver
end ArtifactAudit
