import ArtifactAudit.Proofs.Resolver.Requests
import ArtifactAudit.Proofs.Summary.Family

/-!
This module contains the proof that what a resolver has done is a family of summaries, whatever its
provider serves and its cache holds.
-/

namespace ArtifactAudit
namespace Resolver

variable {Memory : Type}

open DependencySet Summary

def Collected (set : DependencySet) : Prop :=
  ∃ summaries, set = ofList summaries ∧ ∀ d ∈ summaries, Built d

theorem collected_nil : Collected [] :=
  ⟨[], rfl, by simp⟩

theorem Collected.insert {set : DependencySet} {summary : Summary} (h : Collected set)
    (hsummary : Built summary)
    : Collected (DependencySet.insert set summary) := by
  rcases h with ⟨summaries, rfl, hbuilt⟩
  refine ⟨summaries ++ [summary], ?_, ?_⟩
  . rw [ofList, ofList, insertAll_concat]
  . rw [List.forall_mem_append, List.forall_mem_singleton]
    exact ⟨hbuilt, hsummary⟩

def AllBuilt (resolver : Resolver Memory) : Prop :=
  ∀ c summary, resolver.get? c = some summary → Built summary

theorem AllBuilt.of_sameTable {before after : Resolver Memory} (h : AllBuilt before)
    (hsame : SameTable before after)
    : AllBuilt after := by
  intro c summary hget
  rw [hsame.get?_eq] at hget
  exact h c summary hget

theorem AllBuilt.mark {resolver : Resolver Memory} (h : AllBuilt resolver) (c : Coordinate)
    : AllBuilt (resolver.mark c .inProgress) :=
  forall_get?_mark h c

theorem AllBuilt.unmark {resolver : Resolver Memory} (h : AllBuilt resolver) (c : Coordinate)
    : AllBuilt (resolver.unmark c) :=
  forall_get?_unmark h c

theorem AllBuilt.finish {resolver : Resolver Memory} (h : AllBuilt resolver) (c : Coordinate)
    {summary : Summary} (hsummary : Built summary)
    : AllBuilt (resolver.finish c summary) :=
  forall_get?_finish h hsummary

def BuildsOne (_c : Coordinate) (before : Resolver Memory) (ended : Ended Memory Summary) : Prop :=
  AllBuilt before → AllBuilt ended.2 ∧ ∀ summary, ended.1 = .ok summary → Built summary

def BuildsAll (_cs : List Coordinate) (found : DependencySet) (before : Resolver Memory)
    (ended : Ended Memory DependencySet)
    : Prop :=
  AllBuilt before → Collected found →
    AllBuilt ended.2 ∧ ∀ set, ended.1 = .ok set → Collected set

theorem resolve?_builds
    : ∀ (c : Coordinate) (before : Resolver Memory) (ended : Ended Memory Summary),
        resolve? c before = some ended → BuildsOne c before ended := by
  apply run_induction BuildsOne BuildsAll BuildsOne
  case done =>
    intro c before summary hget hbuilt
    refine ⟨hbuilt, ?_⟩
    intro other heq
    cases heq
    exact hbuilt c summary (get?_eq_some_iff.2 hget)
  case cycle =>
    intro c before _ hbuilt
    exact ⟨hbuilt, nofun⟩
  case finished =>
    intro c before summary after _ ih hbuilt
    rcases ih (hbuilt.mark c) with ⟨hafter, hsummary⟩
    refine ⟨hafter.finish c (hsummary summary rfl), ?_⟩
    intro other heq
    cases heq
    exact hsummary summary rfl
  case failed =>
    intro c before error after _ ih hbuilt
    exact ⟨(ih (hbuilt.mark c)).1.unmark c, nofun⟩
  case nil =>
    intro found before hbuilt hfound
    refine ⟨hbuilt, ?_⟩
    intro set heq
    cases heq
    exact hfound
  case cons =>
    intro c cs found before summary between ended ih ihAll hbuilt hfound
    rcases ih hbuilt with ⟨hbetween, hsummary⟩
    exact ihAll hbetween (hfound.insert (hsummary summary rfl))
  case consFailed =>
    intro c cs found before error after ih hbuilt _
    exact ⟨(ih hbuilt).1, nofun⟩
  case notFound =>
    intro c before error after hfind hbuilt
    exact ⟨hbuilt.of_sameTable (find_sameTable hfind), nofun⟩
  case dependencyFailed =>
    intro c before artifact cacheable located error after hfind ih hbuilt
    exact ⟨(ih (hbuilt.of_sameTable (find_sameTable hfind)) collected_nil).1, nofun⟩
  case recordFailed =>
    intro c before artifact cacheable located declared linked error hfind ih _ hbuilt
    exact ⟨(ih (hbuilt.of_sameTable (find_sameTable hfind)) collected_nil).1, nofun⟩
  case computed =>
    intro c before artifact cacheable located declared linked hfind ih _ hbuilt
    rcases ih (hbuilt.of_sameTable (find_sameTable hfind)) collected_nil with ⟨hlinked, hdeclared⟩
    refine ⟨hlinked.of_sameTable (compute_sameTable c artifact cacheable declared linked), ?_⟩
    intro summary heq
    rcases compute_ok heq with ⟨symbols, rfl⟩
    rcases hdeclared declared rfl with ⟨summaries, rfl, hsummaries⟩
    exact .ofSymbols c symbols hsummaries
  case relinkFailed =>
    intro c before artifact cacheable located declared linked record error after hfind ih _ ihDirect
      hbuilt
    have hlinked := (ih (hbuilt.of_sameTable (find_sameTable hfind)) collected_nil).1
    exact ⟨(ihDirect hlinked collected_nil).1, nofun⟩
  case relinked =>
    intro c before artifact cacheable located declared linked record direct after hfind ih _ ihDirect
      hbuilt
    have hlinked := (ih (hbuilt.of_sameTable (find_sameTable hfind)) collected_nil).1
    rcases ihDirect hlinked collected_nil with ⟨hafter, hdirect⟩
    refine ⟨hafter, ?_⟩
    intro summary heq
    cases heq
    rcases hdirect direct rfl with ⟨summaries, rfl, hsummaries⟩
    exact .complete record hsummaries

theorem AllBuilt.perform {before : Resolver Memory} (h : AllBuilt before) (request : Request)
    : AllBuilt (before.perform request) := by
  have hended : ∀ {c ended}, resolve? c before = some ended → AllBuilt ended.2 :=
    fun hrun => (resolve?_builds _ before _ hrun h).1
  cases request with
  | addLocal c artifact => exact h
  | resolve c => exact resolve_keeps (fun _ => hended) h
  | addRoot c => exact addRoot_keeps (fun _ => hended) h fun _ => id

theorem AllBuilt.performAll (requests : List Request)
    : ∀ {before : Resolver Memory}, AllBuilt before → AllBuilt (before.performAll requests) := by
  induction requests with
  | nil => exact id
  | cons request rest ih => exact fun h => ih (h.perform request)

theorem allBuilt_fresh (resolver : Resolver Memory) : AllBuilt resolver.fresh := by
  intro c summary hget
  cases hget

theorem family_performAll_fresh (resolver : Resolver Memory) (requests : List Request)
    : let after := resolver.fresh.performAll requests
      Family fun summary => after.get? summary.coordinate = some summary := by
  intro after
  have hafter : Consistent after := ((consistent_fresh resolver).performAll requests).1
  constructor
  . intro summary hget
    exact (allBuilt_fresh resolver).performAll requests _ _ hget
  . intro summary hget d hd
    exact (hafter.dependency_done _ _ hget d (.inl hd)).1
  . intro x y hx hy heq
    rw [heq, hy, Option.some.injEq] at hx
    exact hx.symm

end Resolver
end ArtifactAudit
