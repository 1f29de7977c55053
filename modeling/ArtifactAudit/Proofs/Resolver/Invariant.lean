import ArtifactAudit.Proofs.DependencySet
import ArtifactAudit.Proofs.Resolver.Table

/-!
This module contains the invariant of resolvers: the artifacts that are done are listed in an order
in which each one stands after all that it depends on. It is kept by every request, whether the
request succeeds or fails.
-/

namespace ArtifactAudit
namespace Resolver

variable {Memory : Type}

/--
What holds of a resolver at any time, also in the middle of a resolution.
-/
structure Sound (resolver : Resolver Memory) : Prop where
  order_nodup : resolver.order.Nodup
  mem_order : ∀ c, c ∈ resolver.order ↔ (resolver.get? c).isSome
  coordinate_eq : ∀ c summary, resolver.get? c = some summary → summary.coordinate = c
  /-- The dependencies of an artifact are the ones that are done, and were so before it. -/
  dependency_done : ∀ c summary, resolver.get? c = some summary →
    ∀ d, d ∈ summary.declared ∨ d ∈ summary.flattened →
      resolver.get? d.coordinate = some d
        ∧ resolver.order.idxOf d.coordinate < resolver.order.idxOf c
  roots_nodup : (DependencySet.coordinates resolver.roots).Nodup
  roots_done : ∀ summary ∈ resolver.roots, resolver.get? summary.coordinate = some summary

structure Extends (before after : Resolver Memory) : Prop where
  done : ∀ c summary, before.get? c = some summary → after.get? c = some summary
  inProgress : ∀ c,
    after.table.get? c = some .inProgress ↔ before.table.get? c = some .inProgress
  order : before.order <+: after.order
  roots : after.roots = before.roots

theorem Extends.refl (resolver : Resolver Memory) : Extends resolver resolver :=
  ⟨fun _ _ => id, fun _ => Iff.rfl, List.prefix_rfl, rfl⟩

theorem Extends.trans {first second third : Resolver Memory} (h : Extends first second)
    (h' : Extends second third)
    : Extends first third where
  done c summary hget := h'.done c summary (h.done c summary hget)
  inProgress c := (h'.inProgress c).trans (h.inProgress c)
  order := h.order.trans h'.order
  roots := h'.roots.trans h.roots

theorem Sound.congr {before after : Resolver Memory} (hsound : Sound before)
    (hget : ∀ c, after.get? c = before.get? c) (horder : after.order = before.order)
    (hroots : after.roots = before.roots)
    : Sound after := by
  constructor
  . rw [horder]
    exact hsound.order_nodup
  . simpa only [horder, hget] using hsound.mem_order
  . simpa only [hget] using hsound.coordinate_eq
  . simpa only [horder, hget] using hsound.dependency_done
  . rw [hroots]
    exact hsound.roots_nodup
  . simpa only [hroots, hget] using hsound.roots_done

theorem SameTable.sound {before after : Resolver Memory} (h : SameTable before after)
    (hsound : Sound before)
    : Sound after :=
  hsound.congr h.get?_eq h.order h.roots

theorem SameTable.extends {before after : Resolver Memory} (h : SameTable before after)
    : Extends before after where
  done c summary hget := (h.get?_eq c).trans hget
  inProgress c := by rw [h.table]
  order := ⟨[], by rw [h.order, List.append_nil]⟩
  roots := h.roots

theorem Sound.mark {resolver : Resolver Memory} (hsound : Sound resolver) {c : Coordinate}
    (h : resolver.get? c = none)
    : Sound (resolver.mark c .inProgress) := by
  apply Sound.congr hsound
  . intro d
    rw [get?_mark]
    split
    . next heq => rw [heq, h]
    . rfl
  . rfl
  . rfl

theorem Sound.unmark {resolver : Resolver Memory} (hsound : Sound resolver) {c : Coordinate}
    (h : resolver.get? c = none)
    : Sound (resolver.unmark c) := by
  apply Sound.congr hsound
  . intro d
    rw [get?_unmark]
    split
    . next heq => rw [heq, h]
    . rfl
  . rfl
  . rfl

theorem Sound.finish {resolver : Resolver Memory} (hsound : Sound resolver) {c : Coordinate}
    {summary : Summary} (h : resolver.get? c = none) (hcoordinate : summary.coordinate = c)
    (hdone : ∀ d, d ∈ summary.declared ∨ d ∈ summary.flattened →
      resolver.get? d.coordinate = some d)
    : Sound (resolver.finish c summary) := by
  have hnew : c ∉ resolver.order := by
    rw [hsound.mem_order, h]
    simp
  have hne : ∀ d other, resolver.get? d = some other → d ≠ c := by
    intro d other hget heq
    rw [heq, h] at hget
    cases hget
  have hold : ∀ d, resolver.get? d.coordinate = some d → d.coordinate ∈ resolver.order := by
    intro d hget
    rw [hsound.mem_order, hget]
    rfl
  have horder : (resolver.finish c summary).order = resolver.order ++ [c] := rfl
  constructor
  . rw [horder, List.nodup_append]
    refine ⟨hsound.order_nodup, by simp, ?_⟩
    intro d hd e he heq
    rw [List.mem_singleton] at he
    exact hnew (he ▸ heq ▸ hd)
  . intro d
    rw [horder, get?_finish, List.mem_append, List.mem_singleton, hsound.mem_order]
    split <;> simp [*]
  . intro d other hget
    rw [get?_finish] at hget
    split at hget
    . next heq =>
      cases hget
      rw [heq, hcoordinate]
    . exact hsound.coordinate_eq d other hget
  . intro d other hget dependency hdependency
    rw [get?_finish] at hget
    rw [get?_finish, horder]
    split at hget
    . -- The new summary comes last, and what it depends on is done before.
      next heq =>
      cases hget
      have hget := hdone dependency hdependency
      rw [if_neg (hne _ _ hget), heq, List.idxOf_append_of_mem (hold _ hget),
        List.idxOf_append_of_notMem hnew]
      exact ⟨hget, by have := List.idxOf_lt_length_of_mem (hold _ hget); omega⟩
    . have ⟨hget', hlt⟩ := hsound.dependency_done d other hget dependency hdependency
      have hd : d ∈ resolver.order := by
        rw [hsound.mem_order, hget]
        rfl
      rw [if_neg (hne _ _ hget'), List.idxOf_append_of_mem (hold _ hget'),
        List.idxOf_append_of_mem hd]
      exact ⟨hget', hlt⟩
  . exact hsound.roots_nodup
  . intro root hroot
    have hget := hsound.roots_done root hroot
    rw [get?_finish, if_neg (hne _ _ hget)]
    exact hget

theorem Extends.left {before after left : Resolver Memory} {c : Coordinate}
    {entry : Option Resolution} (hnone : before.table.get? c = none)
    (h : Extends (before.mark c .inProgress) after)
    (htable : ∀ d, left.table.get? d = if d = c then entry else after.table.get? d)
    (hentry : entry ≠ some .inProgress) (horder : after.order <+: left.order)
    (hroots : left.roots = after.roots)
    : Extends before left where
  done d other hget := by
    have hne : d ≠ c := by
      intro heq
      rw [get?_eq_some_iff, heq, hnone] at hget
      cases hget
    rw [get?_eq_some_iff, htable, if_neg hne, ← get?_eq_some_iff]
    apply h.done
    rw [get?_mark, if_neg hne]
    exact hget
  inProgress d := by
    have := h.inProgress d
    rw [table_mark] at this
    rw [htable]
    by_cases heq : d = c
    . simp [heq, hnone, hentry]
    . simpa [heq] using this
  order := h.order.trans horder
  roots := hroots.trans h.roots

theorem Extends.finish {before after : Resolver Memory} {c : Coordinate} (summary : Summary)
    (hnone : before.table.get? c = none) (h : Extends (before.mark c .inProgress) after)
    : Extends before (after.finish c summary) :=
  h.left hnone (table_finish after c · summary) nofun (List.prefix_append _ _) rfl

theorem Extends.unmark {before after : Resolver Memory} {c : Coordinate}
    (hnone : before.table.get? c = none) (h : Extends (before.mark c .inProgress) after)
    : Extends before (after.unmark c) :=
  h.left hnone (table_unmark after c) nofun List.prefix_rfl rfl

theorem Extends.get?_eq_none {before after : Resolver Memory} {c : Coordinate}
    (h : Extends (before.mark c .inProgress) after)
    : after.get? c = none := by
  apply Resolver.get?_eq_none
  intro summary hget
  have : after.table.get? c = some .inProgress := by
    rw [h.inProgress]
    simp
  rw [this] at hget
  cases hget

def AllDone (resolver : Resolver Memory) (set : DependencySet) : Prop :=
  ∀ d ∈ set, resolver.get? d.coordinate = some d

theorem AllDone.extends {before after : Resolver Memory} {set : DependencySet}
    (h : AllDone before set) (hextends : Extends before after)
    : AllDone after set :=
  fun d hd => hextends.done _ _ (h d hd)

theorem AllDone.closure {resolver : Resolver Memory} {set : DependencySet}
    (h : AllDone resolver set) (hsound : Sound resolver)
    : AllDone resolver (DependencySet.closure set) := by
  intro d hd
  rcases DependencySet.mem_closure hd with ⟨summary, hsummary, rfl | hmem⟩
  . exact h d hsummary
  . exact (hsound.dependency_done _ _ (h summary hsummary) d (.inr hmem)).1

theorem AllDone.insert {resolver : Resolver Memory} {set : DependencySet} {summary : Summary}
    (h : AllDone resolver set) (hget : resolver.get? summary.coordinate = some summary)
    : AllDone resolver (DependencySet.insert set summary) := by
  intro d hd
  cases DependencySet.mem_insert hd with
  | inl hmem => exact h d hmem
  | inr heq => exact heq ▸ hget

def ResolvesSoundly (c : Coordinate) (before : Resolver Memory) (ended : Ended Memory Summary)
    : Prop :=
  Sound before → Sound ended.2 ∧ Extends before ended.2
    ∧ ∀ summary, ended.1 = .ok summary → ended.2.get? c = some summary

def ResolvesAllSoundly (_cs : List Coordinate) (found : DependencySet) (before : Resolver Memory)
    (ended : Ended Memory DependencySet)
    : Prop :=
  Sound before → AllDone before found → Sound ended.2 ∧ Extends before ended.2
    ∧ ∀ set, ended.1 = .ok set → AllDone ended.2 set

def SummarizesSoundly (c : Coordinate) (before : Resolver Memory) (ended : Ended Memory Summary)
    : Prop :=
  Sound before → Sound ended.2 ∧ Extends before ended.2
    ∧ ∀ summary, ended.1 = .ok summary → summary.coordinate = c
      ∧ AllDone ended.2 summary.declared ∧ AllDone ended.2 summary.flattened

theorem ResolvesAllSoundly.below {c : Coordinate} {artifact : Artifact} {cacheable : Bool}
    {before located linked : Resolver Memory} {answer : Except AuditError DependencySet}
    (h : ResolvesAllSoundly artifact.dependencies [] located (answer, linked))
    (hfind : (find c).run before = (.ok (artifact, cacheable), located)) (hsound : Sound before)
    : Sound linked ∧ Extends before linked ∧ ∀ set, answer = .ok set → AllDone linked set := by
  have hsame := find_sameTable hfind
  rcases h (hsame.sound hsound) nofun with ⟨hlinked, hextends, hdone⟩
  exact ⟨hlinked, hsame.extends.trans hextends, hdone⟩

theorem resolve?_sound
    : ∀ (c : Coordinate) (before : Resolver Memory) (ended : Ended Memory Summary),
        resolve? c before = some ended → ResolvesSoundly c before ended := by
  apply run_induction ResolvesSoundly ResolvesAllSoundly SummarizesSoundly
  case done =>
    intro c before summary hget hsound
    refine ⟨hsound, .refl before, ?_⟩
    intro other heq
    cases heq
    exact get?_eq_some_iff.2 hget
  case cycle => exact fun c before _ hsound => ⟨hsound, .refl before, fun _ => nofun⟩
  case finished =>
    intro c before summary after hnone ih hsound
    have hget : before.get? c = none := get?_eq_none (by simp [hnone])
    rcases ih (hsound.mark hget) with ⟨hafter, hextends, hok⟩
    rcases hok summary rfl with ⟨hcoordinate, hdeclared, hflattened⟩
    refine ⟨hafter.finish hextends.get?_eq_none hcoordinate ?_, hextends.finish summary hnone, ?_⟩
    . rintro d (hd | hd)
      . exact hdeclared d hd
      . exact hflattened d hd
    . intro other heq
      cases heq
      simp
  case failed =>
    intro c before error after hnone ih hsound
    have hget : before.get? c = none := get?_eq_none (by simp [hnone])
    rcases ih (hsound.mark hget) with ⟨hafter, hextends, _⟩
    exact ⟨hafter.unmark hextends.get?_eq_none, hextends.unmark hnone, fun _ => nofun⟩
  case nil =>
    intro found before hsound hfound
    refine ⟨hsound, .refl before, ?_⟩
    intro set heq
    cases heq
    exact hfound
  case cons =>
    intro c cs found before summary between ended ih ihAll hsound hfound
    rcases ih hsound with ⟨hbetween, hextends, hok⟩
    have hget := hok summary rfl
    have hcoordinate := hbetween.coordinate_eq c summary hget
    have hfound' := (hfound.extends hextends).insert (hcoordinate ▸ hget)
    rcases ihAll hbetween hfound' with ⟨hafter, hextends', hset⟩
    exact ⟨hafter, hextends.trans hextends', hset⟩
  case consFailed =>
    intro c cs found before error after ih hsound _
    rcases ih hsound with ⟨hafter, hextends, _⟩
    exact ⟨hafter, hextends, fun _ => nofun⟩
  case notFound =>
    intro c before error after hfind hsound
    have hsame := find_sameTable hfind
    exact ⟨hsame.sound hsound, hsame.extends, fun _ => nofun⟩
  case dependencyFailed =>
    intro c before artifact cacheable located error after hfind ih hsound
    rcases ih.below hfind hsound with ⟨hafter, hextends, _⟩
    exact ⟨hafter, hextends, fun _ => nofun⟩
  case recordFailed =>
    intro c before artifact cacheable located declared linked error hfind ih _ hsound
    rcases ih.below hfind hsound with ⟨hlinked, hextends, _⟩
    exact ⟨hlinked, hextends, fun _ => nofun⟩
  case computed =>
    intro c before artifact cacheable located declared linked hfind ih _ hsound
    rcases ih.below hfind hsound with ⟨hlinked, hextends, hdeclared⟩
    have hsame := compute_sameTable c artifact cacheable declared linked
    have hafter := hsame.sound hlinked
    have hall := (hdeclared declared rfl).extends hsame.extends
    refine ⟨hafter, hextends.trans hsame.extends, ?_⟩
    intro summary heq
    rcases compute_ok heq with ⟨symbols, rfl⟩
    exact ⟨rfl, hall, hall.closure hafter⟩
  case relinkFailed =>
    intro c before artifact cacheable located declared linked record error after hfind ih _ ihDirect
      hsound
    rcases ih.below hfind hsound with ⟨hlinked, hextends, _⟩
    rcases ihDirect hlinked nofun with ⟨hafter, hextends', _⟩
    exact ⟨hafter, hextends.trans hextends', fun _ => nofun⟩
  case relinked =>
    intro c before artifact cacheable located declared linked record direct after hfind ih hrecord
      ihDirect hsound
    rcases ih.below hfind hsound with ⟨hlinked, hextends, _⟩
    rcases ihDirect hlinked nofun with ⟨hafter, hextends', hdirect⟩
    refine ⟨hafter, hextends.trans hextends', ?_⟩
    intro summary heq
    cases heq
    have hall := hdirect direct rfl
    exact ⟨recordOf_coordinate hrecord, hall, hall.closure hafter⟩

end Resolver
end ArtifactAudit
