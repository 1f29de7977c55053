import ArtifactAudit.Proofs.Resolver.Run

/-!
This module contains what the operations of a resolution do to the table of a resolver: marking and
finishing an artifact change its entry only, and all other operations leave the table as it is. The
induction over resolutions with a result follows from it.
-/

namespace ArtifactAudit
namespace Resolver

variable {Memory : Type}

@[simp]
theorem table_mark (resolver : Resolver Memory) (c d : Coordinate) (resolution : Resolution)
    : (resolver.mark c resolution).table.get? d
        =
      if d = c then some resolution else resolver.table.get? d := by
  apply CoordinateMap.get?_insert

@[simp]
theorem table_unmark (resolver : Resolver Memory) (c d : Coordinate)
    : (resolver.unmark c).table.get? d = if d = c then none else resolver.table.get? d := by
  apply CoordinateMap.get?_erase

@[simp]
theorem table_finish (resolver : Resolver Memory) (c d : Coordinate) (summary : Summary)
    : (resolver.finish c summary).table.get? d
        =
      if d = c then some (.done summary) else resolver.table.get? d := by
  apply CoordinateMap.get?_insert

theorem get?_eq_some_iff {resolver : Resolver Memory} {c : Coordinate} {summary : Summary}
    : resolver.get? c = some summary ↔ resolver.table.get? c = some (.done summary) := by
  unfold get?
  split
  . next other h => simp [h]
  . next h =>
    constructor
    . intro heq
      cases heq
    . intro heq
      exact absurd heq (h summary)

theorem get?_eq_none {resolver : Resolver Memory} {c : Coordinate}
    (h : ∀ summary, resolver.table.get? c ≠ some (.done summary))
    : resolver.get? c = none := by
  rw [Option.eq_none_iff_forall_ne_some]
  intro summary hget
  exact h summary (get?_eq_some_iff.1 hget)

@[simp]
theorem get?_mark (resolver : Resolver Memory) (c d : Coordinate)
    : (resolver.mark c .inProgress).get? d = if d = c then none else resolver.get? d := by
  simp only [get?, table_mark]
  by_cases h : d = c <;> simp [h]

@[simp]
theorem get?_unmark (resolver : Resolver Memory) (c d : Coordinate)
    : (resolver.unmark c).get? d = if d = c then none else resolver.get? d := by
  simp only [get?, table_unmark]
  by_cases h : d = c <;> simp [h]

@[simp]
theorem get?_finish (resolver : Resolver Memory) (c d : Coordinate) (summary : Summary)
    : (resolver.finish c summary).get? d = if d = c then some summary else resolver.get? d := by
  simp only [get?, table_finish]
  by_cases h : d = c <;> simp [h]

section

variable {resolver : Resolver Memory} {above : List Coordinate} {c : Coordinate}

theorem inProgress_mark (h : ∀ d, resolver.table.get? d = some .inProgress ↔ d ∈ above)
    (c d : Coordinate)
    : (resolver.mark c .inProgress).table.get? d = some .inProgress ↔ d ∈ c :: above := by
  rw [table_mark, List.mem_cons]
  by_cases heq : d = c <;> simp [heq, h]

theorem notMem_of_none (h : ∀ d, resolver.table.get? d = some .inProgress ↔ d ∈ above)
    (hnone : resolver.table.get? c = none)
    : c ∉ above := by
  rw [← h, hnone]
  simp

theorem inProgress_left (h : ∀ d, resolver.table.get? d = some .inProgress ↔ d ∈ c :: above)
    (hnew : c ∉ above) {after : Resolver Memory} {entry : Option Resolution}
    (htable : ∀ d, after.table.get? d = if d = c then entry else resolver.table.get? d)
    (hentry : entry ≠ some .inProgress) (d : Coordinate)
    : after.table.get? d = some .inProgress ↔ d ∈ above := by
  have hold := h d
  rw [List.mem_cons] at hold
  rw [htable]
  by_cases heq : d = c
  . simp [heq, hnew, hentry]
  . simpa [heq] using hold

theorem inProgress_finish (h : ∀ d, resolver.table.get? d = some .inProgress ↔ d ∈ c :: above)
    (hnew : c ∉ above) (summary : Summary) (d : Coordinate)
    : (resolver.finish c summary).table.get? d = some .inProgress ↔ d ∈ above :=
  inProgress_left h hnew (table_finish resolver c · summary) nofun d

theorem inProgress_unmark (h : ∀ d, resolver.table.get? d = some .inProgress ↔ d ∈ c :: above)
    (hnew : c ∉ above) (d : Coordinate)
    : (resolver.unmark c).table.get? d = some .inProgress ↔ d ∈ above :=
  inProgress_left h hnew (table_unmark resolver c) nofun d

end

section

variable {resolver : Resolver Memory} {holds : Coordinate → Summary → Prop}
  (h : ∀ c summary, resolver.get? c = some summary → holds c summary)

include h

theorem forall_get?_mark (c d : Coordinate) (summary : Summary)
    (hget : (resolver.mark c .inProgress).get? d = some summary)
    : holds d summary := by
  rw [get?_mark] at hget
  split at hget
  . cases hget
  . exact h d summary hget

theorem forall_get?_unmark (c d : Coordinate) (summary : Summary)
    (hget : (resolver.unmark c).get? d = some summary)
    : holds d summary := by
  rw [get?_unmark] at hget
  split at hget
  . cases hget
  . exact h d summary hget

theorem forall_get?_finish {c : Coordinate} {summary : Summary} (hsummary : holds c summary)
    (d : Coordinate) (other : Summary) (hget : (resolver.finish c summary).get? d = some other)
    : holds d other := by
  rw [get?_finish] at hget
  split at hget
  . next heq =>
    rw [← Option.some.inj hget, heq]
    exact hsummary
  . exact h d other hget

end

structure SameTable (before after : Resolver Memory) : Prop where
  table : after.table = before.table
  order : after.order = before.order
  roots : after.roots = before.roots

theorem SameTable.get?_eq {before after : Resolver Memory} (h : SameTable before after)
    (c : Coordinate)
    : after.get? c = before.get? c := by
  simp only [get?, h.table]

theorem find_sameTable {c : Coordinate} {before after : Resolver Memory}
    {answer : Except AuditError (Artifact × Bool)} (h : (find c).run before = (answer, after))
    : SameTable before after := by
  rw [run_find] at h
  split at h <;> cases h <;> exact ⟨rfl, rfl, rfl⟩

theorem load_coordinate {cache : Cache} {tree : FileTree} {c : Coordinate} {record : Record}
    (h : cache.load tree c = .ok (some record))
    : record.coordinate = c := by
  unfold Cache.load at h
  dsimp only at h
  split at h
  . split at h
    . cases h
    . split at h
      . cases h
      . split at h
        . cases h
        . next hcoordinate =>
          cases h
          simpa using hcoordinate
  . cases h

theorem recordOf_coordinate {c : Coordinate} {cacheable : Bool} {before after : Resolver Memory}
    {record : Record} (h : (recordOf c cacheable).run before = (.ok (some record), after))
    : record.coordinate = c := by
  rw [run_recordOf, Prod.mk.injEq] at h
  replace h := h.1
  split at h
  . split at h
    . next hload =>
      cases h
      exact load_coordinate hload
    . split at h <;> cases h
  . cases h

theorem store_sameTable (summary : Summary) (resolver : Resolver Memory)
    : SameTable resolver ((store summary).run resolver).2 := by
  rw [run_store]
  split <;> exact ⟨rfl, rfl, rfl⟩

theorem compute_sameTable (c : Coordinate) (artifact : Artifact) (cacheable : Bool)
    (declared : DependencySet) (resolver : Resolver Memory)
    : SameTable resolver ((compute c artifact cacheable declared).run resolver).2 := by
  rw [run_compute]
  split
  . exact ⟨rfl, rfl, rfl⟩
  . split
    . apply store_sameTable
    . exact ⟨rfl, rfl, rfl⟩

theorem analyze_ok {tree : FileTree} {skipDebug : Bool} {c : Coordinate}
    {declared : DependencySet} {location : Path} {summary : Summary}
    (h : analyze tree skipDebug c declared location = .ok summary)
    : ∃ symbols, summary = .ofSymbols c declared symbols := by
  rw [analyze_eq] at h
  cases hsymbols : ClassSource.symbolsAt tree skipDebug location with
  | error error =>
    rw [hsymbols] at h
    cases h
  | ok symbols =>
    rw [hsymbols] at h
    cases h
    exact ⟨symbols, rfl⟩

theorem compute_ok {c : Coordinate} {artifact : Artifact} {cacheable : Bool}
    {declared : DependencySet} {resolver : Resolver Memory} {summary : Summary}
    (h : ((compute c artifact cacheable declared).run resolver).1 = .ok summary)
    : ∃ symbols, summary = .ofSymbols c declared symbols := by
  rw [run_compute] at h
  split at h
  . cases h
  . next other hanalyze =>
    have heq : other = summary := by
      split at h
      . cases hstore : ((store other).run resolver).1 with
        | error error => simp [hstore, Except.map] at h
        | ok _ => simpa [hstore, Except.map] using h
      . simpa using h
    exact analyze_ok (heq ▸ hanalyze)

theorem run_induction_ok
    (resolves : Coordinate → Resolver Memory → Ended Memory Summary → Prop)
    (resolvesAll : List Coordinate → DependencySet → Resolver Memory →
      Ended Memory DependencySet → Prop)
    (summarizes : Coordinate → Resolver Memory → Ended Memory Summary → Prop)
    (fails : ∀ c before error after, resolves c before (.error error, after))
    (failsAll : ∀ cs found before error after, resolvesAll cs found before (.error error, after))
    (failsSummary : ∀ c before error after, summarizes c before (.error error, after))
    (done : ∀ c before summary,
      before.table.get? c = some (.done summary) → resolves c before (.ok summary, before))
    (finished : ∀ c before summary after,
      before.table.get? c = none →
      summarizes c (before.mark c .inProgress) (.ok summary, after) →
      resolves c before (.ok summary, after.finish c summary))
    (nil : ∀ found before, resolvesAll [] found before (.ok found, before))
    (cons : ∀ c cs found before summary between set after,
      resolves c before (.ok summary, between) →
      resolvesAll cs (DependencySet.insert found summary) between (.ok set, after) →
      resolvesAll (c :: cs) found before (.ok set, after))
    (computed : ∀ c before artifact cacheable located declared linked summary after,
      (find c).run before = (.ok (artifact, cacheable), located) →
      resolvesAll artifact.dependencies [] located (.ok declared, linked) →
      (recordOf c cacheable).run linked = (.ok none, linked) →
      (compute c artifact cacheable declared).run linked = (.ok summary, after) →
      summarizes c before (.ok summary, after))
    (relinked : ∀ c before artifact cacheable located declared linked record direct after,
      (find c).run before = (.ok (artifact, cacheable), located) →
      resolvesAll artifact.dependencies [] located (.ok declared, linked) →
      (recordOf c cacheable).run linked = (.ok (some record), linked) →
      resolvesAll record.direct [] linked (.ok direct, after) →
      summarizes c before (.ok (record.complete direct), after))
    : ∀ c before ended, resolve? c before = some ended → resolves c before ended := by
  apply run_induction resolves resolvesAll summarizes
  case done => exact done
  case cycle => exact fun c before _ => fails c before _ before
  case finished => exact finished
  case failed => exact fun c before _ _ _ _ => fails c before _ _
  case nil => exact nil
  case cons =>
    intro c cs found before summary between ended hone hall
    rcases ended with ⟨error | set, after⟩
    . exact failsAll (c :: cs) found before error after
    . exact cons c cs found before summary between set after hone hall
  case consFailed => exact fun c cs found before error after _ => failsAll _ found before error after
  case notFound => exact fun c before error after _ => failsSummary c before error after
  case dependencyFailed =>
    exact fun c before _ _ _ error after _ _ => failsSummary c before error after
  case recordFailed =>
    exact fun c before _ _ _ _ linked error _ _ _ => failsSummary c before error linked
  case computed =>
    intro c before artifact cacheable located declared linked hfind hlinked hrecord
    rcases hcompute : (compute c artifact cacheable declared).run linked with
      ⟨error | summary, after⟩
    . exact failsSummary c before error after
    . exact computed c before artifact cacheable located declared linked summary after hfind hlinked
        hrecord hcompute
  case relinkFailed =>
    exact fun c before _ _ _ _ _ _ error after _ _ _ _ => failsSummary c before error after
  case relinked => exact relinked

end Resolver
end ArtifactAudit
