import ArtifactAudit.Repository
import ArtifactAudit.Proofs.Pom.Memoised
import ArtifactAudit.Proofs.Provider

/-!
This module contains the proof that repositories are dependable providers: what they remember cannot
be told from their answers. Where fewer scopes are followed artifacts have fewer dependencies.
-/

namespace ArtifactAudit
namespace Repository

open Pom Loader Provider

variable {repository : Repository} {tree : FileTree} {met : Path → Prop} {memo : Memo}

theorem run_fetch (repository : Repository) (tree : FileTree) (memo : Memo) (c : Coordinate)
    : (repository.provider.fetch tree c).run memo
        =
      if tree.exists? (repository.pathOf c) then
        match ((repository.loader tree).perform (.coordinate c)).run memo with
        | (.ok pom, after) =>
          (.ok ⟨repository.pathOf c, pom.dependenciesIn repository.scopes⟩, after)
        | (.error error, after) => (.error error, after)
      else (.error (.provider c.text (.artifactNotFoundAt (repository.pathOf c))), memo) := by
  change (repository.fetch tree c).run memo = _
  rw [fetch]
  split
  . rw [Loading.run_bind, perform]
    rcases ((repository.loader tree).load c).run memo with ⟨error | pom, after⟩ <;> rfl
  . rfl

theorem answer_eq (repository : Repository) (tree : FileTree) (memo : Memo) (c : Coordinate)
    : repository.provider.answer tree memo c
        =
      if tree.exists? (repository.pathOf c) then
        (((repository.loader tree).perform (.coordinate c)).run memo).1.map fun pom =>
          ⟨repository.pathOf c, pom.dependenciesIn repository.scopes⟩
      else .error (.provider c.text (.artifactNotFoundAt (repository.pathOf c))) := by
  rw [answer, run_fetch]
  split
  . rcases ((repository.loader tree).perform (.coordinate c)).run memo with ⟨error | pom, after⟩ <;>
      rfl
  . rfl

theorem answer_eq_ok {c : Coordinate} {artifact : Artifact}
    (h : repository.provider.answer tree memo c = .ok artifact)
    : tree.exists? (repository.pathOf c) = true
        ∧ ∃ pom, (((repository.loader tree).perform (.coordinate c)).run memo).1 = .ok pom
          ∧ artifact = ⟨repository.pathOf c, pom.dependenciesIn repository.scopes⟩ := by
  rw [answer_eq] at h
  split at h
  . next hexists =>
    cases hrun : (((repository.loader tree).perform (.coordinate c)).run memo).1 with
    | error error =>
      rw [hrun] at h
      cases h
    | ok pom =>
      rw [hrun] at h
      cases h
      exact ⟨hexists, pom, rfl, rfl⟩
  . cases h

/--
A repository that follows fewer scopes has the same artifacts, with no more dependencies.
-/
theorem answer_of_scopes {scopes : List String} (hscopes : scopes ⊆ repository.scopes)
    {c : Coordinate} {artifact : Artifact}
    (h : repository.provider.answer tree memo c = .ok artifact)
    : ∃ dependencies ⊆ artifact.dependencies,
        ({ repository with scopes } : Repository).provider.answer tree memo c
          = .ok { artifact with dependencies } := by
  rcases answer_eq_ok h with ⟨hexists, pom, hrun, rfl⟩
  refine ⟨pom.dependenciesIn scopes, ?_, ?_⟩
  . apply List.map_subset
    intro d hd
    rw [List.mem_filter, Bool.and_eq_true, List.contains_iff_mem] at hd ⊢
    exact ⟨hd.1, hd.2.1, hscopes hd.2.2⟩
  . rw [answer_eq]
    change (if tree.exists? (repository.pathOf c) then _ else _) = _
    rw [if_pos hexists]
    change Except.map _ (((repository.loader tree).perform (.coordinate c)).run memo).1 = _
    rw [hrun]
    rfl

theorem exists_declaredAt (huniform : (repository.loader tree).Uniform met)
    (locations : List (List String))
    : ∃ declared : List Coordinate, ∀ location ∈ locations, ∀ found,
        (repository.loader tree).Obtains met location found →
          found.dependenciesIn repository.scopes ⊆ declared := by
  induction locations with
  | nil => exact ⟨[], nofun⟩
  | cons location locations ih =>
    rcases ih with ⟨declared, hdeclared⟩
    by_cases hobtains : ∃ found, (repository.loader tree).Obtains met location found
    . rcases hobtains with ⟨found, hfound⟩
      refine ⟨found.dependenciesIn repository.scopes ++ declared, List.forall_mem_cons.2 ⟨?_, ?_⟩⟩
      . intro other hother
        rw [hother.unique huniform hfound]
        exact List.subset_append_left _ _
      . intro other hmem found hfound
        exact List.subset_append_of_subset_right _ (hdeclared other hmem found hfound)
    . refine ⟨declared, List.forall_mem_cons.2 ⟨?_, hdeclared⟩⟩
      exact fun found hfound => absurd ⟨found, hfound⟩ hobtains

section

variable (hclosed : (repository.loader tree).Closed met)
  (hmet : ∀ c, met ((repository.loader tree).pathFor (.coordinate c)))
include hclosed hmet

theorem sound_memoryAfter (hmemo : (repository.loader tree).Sound met memo) (asked : List Coordinate)
    : (repository.loader tree).Sound met (repository.provider.memoryAfter tree memo asked) := by
  induction asked using List.reverseRecOn with
  | nil => exact hmemo
  | append_singleton asked c ih =>
    rw [memoryAfter_append]
    change (repository.loader tree).Sound met ((repository.provider.fetch tree c).run _).2
    rw [run_fetch]
    split
    . have hafter := (sound_perform hclosed (hmet c) ih).1
      rcases hrun : ((repository.loader tree).perform (.coordinate c)).run
        (repository.provider.memoryAfter tree memo asked) with ⟨error | pom, after⟩
      all_goals rwa [hrun] at hafter
    . exact ih

variable (huniform : (repository.loader tree).Uniform met)
include huniform

theorem steady_provider (hmemo : (repository.loader tree).Sound met memo)
    : repository.provider.Steady tree memo := by
  intro asked c
  rw [answer_eq, answer_eq,
    perform_agree huniform hclosed (hmet c) (sound_memoryAfter hclosed hmet hmemo asked) hmemo]

theorem exists_declared (hmemo : (repository.loader tree).Sound met memo)
    : ∃ declared : List Coordinate, ∀ c artifact,
        repository.provider.answer tree memo c = .ok artifact →
          artifact.dependencies ⊆ declared := by
  rcases exists_declaredAt huniform tree.root.fileLocations with ⟨declared, hdeclared⟩
  refine ⟨declared, ?_⟩
  intro c artifact h
  rcases answer_eq_ok h with ⟨_, pom, hrun, rfl⟩
  rcases (sound_perform hclosed (hmet c) hmemo).2 pom hrun with ⟨location, _, hobtains⟩
  exact hdeclared location hobtains.mem_fileLocations pom hobtains

/--
A repository is dependable if what it remembers is right and its descriptors lead to the same
candidates for their parents by whatever paths they are asked for.
-/
theorem dependable_provider (hmemo : (repository.loader tree).Sound met memo)
    : repository.provider.Dependable tree memo where
  steady := steady_provider hclosed hmet huniform hmemo
  finite := exists_declared hclosed hmet huniform hmemo
  notCyclical c path h := by
    have hany : (repository.loader tree).Sound anyPath memo :=
      fun location found hlookup => (hmemo location found hlookup).mono fun _ _ => trivial
    rw [answer_eq] at h
    split at h
    . cases hrun : (((repository.loader tree).perform (.coordinate c)).run memo).1 with
      | ok pom =>
        rw [hrun] at h
        cases h
      | error error =>
        rw [hrun] at h
        cases h
        rcases exists_cause_of_perform hany hrun with ⟨_, _, heq⟩
        cases heq
    . cases h

end

theorem dependable_of_parentFile? (h : ∀ path model parent,
      (repository.loader tree).modelAt path = .ok model → model.parent = some parent →
      (repository.loader tree).parentFile? path parent = none)
    : repository.provider.Dependable tree [] :=
  dependable_provider closed_anyPath (fun _ => trivial)
    (uniform_of_parentFile? fun path model parent _ => h path model parent) (sound_nil _ _)

end Repository
end ArtifactAudit
