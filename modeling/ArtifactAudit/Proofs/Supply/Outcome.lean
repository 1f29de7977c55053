import Mathlib.Logic.Function.Basic
import ArtifactAudit.Proofs.DependencySet
import ArtifactAudit.Proofs.Supply

/-!
This module contains what the resolution of an artifact has to give, told without a table of what is
done: the summary of an artifact on top of those of its dependencies, or the failure that is met
first.
-/

namespace ArtifactAudit
namespace Supply

open DependencySet

variable {supply : Supply}

/--
The summary of an artifact on top of the summaries of its dependencies.
-/
inductive Yields (supply : Supply) : Coordinate → Summary → Prop where
  | intro {c : Coordinate} {artifact : Artifact} {symbols : ClassFile.Symbols}
    {summaries : Coordinate → Summary}
    (artifact_eq : supply.artifact c = .ok artifact)
    (symbols_eq : supply.symbols artifact.location = .ok symbols)
    (dependencies : ∀ d ∈ artifact.dependencies, Yields supply d (summaries d))
    : Yields supply c (.ofSymbols c (.ofList (artifact.dependencies.map summaries)) symbols)

/--
The failure of an artifact while those above it wait for what they depend on. The dependencies are
looked at in turn and the first one that fails counts.
-/
inductive Fails (supply : Supply) : List Coordinate → Coordinate → AuditError → Prop where
  | cycle {above : List Coordinate} {c : Coordinate} (mem : c ∈ above)
    : Fails supply above c (.cyclicalDependency [c])
  | notFound {above : List Coordinate} {c : Coordinate} {error : AuditError} (new : c ∉ above)
    (artifact_eq : supply.artifact c = .error error)
    : Fails supply above c (error.within c)
  | dependency {above : List Coordinate} {c d : Coordinate} {artifact : Artifact}
    {earlier later : List Coordinate} {error : AuditError} (new : c ∉ above)
    (artifact_eq : supply.artifact c = .ok artifact)
    (dependencies_eq : artifact.dependencies = earlier ++ d :: later)
    (clean : ∀ x ∈ earlier, Clean supply x) (fails : Fails supply (c :: above) d error)
    : Fails supply above c (error.within c)
  | unreadable {above : List Coordinate} {c : Coordinate} {artifact : Artifact}
    {error : AuditError} (new : c ∉ above) (artifact_eq : supply.artifact c = .ok artifact)
    (clean : ∀ d ∈ artifact.dependencies, Clean supply d)
    (symbols_eq : supply.symbols artifact.location = .error error)
    : Fails supply above c (error.within c)

theorem Yields.unique {c : Coordinate} {first : Summary} (h : Yields supply c first)
    : ∀ {second : Summary}, Yields supply c second → first = second := by
  induction h with
  | intro hartifact hsymbols _ ih =>
    intro second h
    cases h with
    | intro hartifact' hsymbols' hdependencies' =>
      rw [hartifact, Except.ok.injEq] at hartifact'
      subst hartifact'
      rw [hsymbols, Except.ok.injEq] at hsymbols'
      subst hsymbols'
      congr 2
      apply List.map_congr_left
      intro d hd
      exact ih d hd (hdependencies' d hd)

theorem Yields.clean {c : Coordinate} {summary : Summary} (h : Yields supply c summary)
    : Clean supply c := by
  induction h with
  | intro hartifact hsymbols _ ih => exact .intro hartifact hsymbols ih

theorem exists_summaries {cs : List Coordinate} (h : ∀ c ∈ cs, ∃ summary, Yields supply c summary)
    : ∃ summaries : Coordinate → Summary, ∀ c ∈ cs, Yields supply c (summaries c) := by
  -- An artifact that is not asked for may be given any summary.
  have hchoice : ∀ c, ∃ summary, c ∈ cs → Yields supply c summary := by
    intro c
    by_cases hc : c ∈ cs
    . rcases h c hc with ⟨summary, hsummary⟩
      exact ⟨summary, fun _ => hsummary⟩
    . exact ⟨.ofSymbols c [] ∅, fun h => absurd h hc⟩
  choose summaries hsummaries using hchoice
  exact ⟨summaries, hsummaries⟩

theorem Clean.exists_yields {c : Coordinate} (h : Clean supply c)
    : ∃ summary, Yields supply c summary := by
  induction h with
  | intro hartifact hsymbols _ ih =>
    rcases exists_summaries ih with ⟨summaries, hsummaries⟩
    exact ⟨_, .intro hartifact hsymbols hsummaries⟩

theorem Yields.coordinate_eq {c : Coordinate} {summary : Summary} (h : Yields supply c summary)
    : summary.coordinate = c := by
  cases h
  rfl

theorem coordinates_map_summaries {cs : List Coordinate} {summaries : Coordinate → Summary}
    (h : ∀ c ∈ cs, Yields supply c (summaries c))
    : coordinates (cs.map summaries) = cs := by
  rw [coordinates, List.map_map]
  conv => rhs; rw [← List.map_id cs]
  apply List.map_congr_left
  intro c hc
  exact (h c hc).coordinate_eq

theorem Yields.coordinates_declared {c : Coordinate} {summary : Summary}
    (h : Yields supply c summary)
    : ∃ artifact, supply.artifact c = .ok artifact
        ∧ coordinates summary.declared = artifact.dependencies.eraseDups := by
  cases h with
  | @intro _ artifact symbols summaries hartifact _ hdependencies =>
    refine ⟨artifact, hartifact, ?_⟩
    change coordinates (ofList (artifact.dependencies.map summaries)) = _
    rw [coordinates_ofList, coordinates_map_summaries hdependencies]

theorem Yields.mem_declared {c d : Coordinate} {summary : Summary} (h : Yields supply c summary)
    : d ∈ coordinates summary.declared ↔ DependsOn supply c d := by
  rcases h.coordinates_declared with ⟨artifact, hartifact, hdeclared⟩
  rw [hdeclared, List.mem_eraseDups, dependsOn_iff hartifact]

theorem Yields.mem_flattened {c : Coordinate} {summary : Summary} (h : Yields supply c summary)
    : ∀ {x : Coordinate},
        x ∈ coordinates summary.flattened ↔ Relation.TransGen supply.DependsOn c x := by
  induction h with
  | @intro c artifact symbols summaries hartifact hsymbols hdependencies ih =>
    have hyields := Yields.intro hartifact hsymbols hdependencies
    intro x
    have hmember : ∀ d ∈ ofList (artifact.dependencies.map summaries),
        DependsOn supply c d.coordinate
          ∧ (x ∈ coordinates d.flattened ↔ Relation.TransGen supply.DependsOn d.coordinate x) := by
      intro d hd
      rcases List.mem_map.1 (mem_of_mem_ofList hd) with ⟨e, he, rfl⟩
      rw [(hdependencies e he).coordinate_eq]
      exact ⟨⟨artifact, hartifact, he⟩, ih e he⟩
    change x ∈ coordinates (closure (ofList (artifact.dependencies.map summaries))) ↔ _
    rw [mem_coordinates_closure]
    constructor
    . rintro ⟨d, hd, rfl | hx⟩
      . exact .single (hmember d hd).1
      . exact .head (hmember d hd).1 ((hmember d hd).2.1 hx)
    . intro hreaches
      rcases Relation.TransGen.head'_iff.1 hreaches with ⟨e, hdepends, hreaches⟩
      rcases mem_coordinates.1 (hyields.mem_declared.2 hdepends) with ⟨d, hd, rfl⟩
      refine ⟨d, hd, ?_⟩
      rcases Relation.reflTransGen_iff_eq_or_transGen.1 hreaches with rfl | hreaches
      . exact .inl rfl
      . exact .inr ((hmember d hd).2.2 hreaches)

theorem Clean.not_fails {c : Coordinate} (h : Clean supply c)
    : ∀ {above : List Coordinate} {error : AuditError},
        (∀ x ∈ above, ¬ Reaches supply c x) → ¬ Fails supply above c error := by
  induction h with
  | @intro c artifact symbols hartifact hsymbols hdependencies ih =>
    have hclean : Clean supply c := .intro hartifact hsymbols hdependencies
    intro above error habove h
    cases h with
    | cycle hmem => exact habove c hmem .refl
    | notFound _ hother =>
      rw [hartifact] at hother
      cases hother
    | @dependency _ _ d other earlier later error _ hother heq _ hfails =>
      rw [hartifact, Except.ok.injEq] at hother
      have hd : d ∈ artifact.dependencies := by
        rw [hother, heq]
        simp
      have hdepends : DependsOn supply c d := ⟨artifact, hartifact, hd⟩
      refine ih d hd ?_ hfails
      intro x hx hreaches
      rcases List.mem_cons.1 hx with rfl | hx
      . exact hclean.not_cyclic (.head' hdepends hreaches)
      . exact habove x hx (.head hdepends hreaches)
    | unreadable _ hother _ hsymbols' =>
      rw [hartifact, Except.ok.injEq] at hother
      rw [← hother, hsymbols] at hsymbols'
      cases hsymbols'

def Gives (supply : Supply) (above : List Coordinate) (c : Coordinate)
    : Except AuditError Summary → Prop
  | .ok summary => Yields supply c summary
  | .error error => Fails supply above c error

def GivesAll (supply : Supply) (above cs : List Coordinate) (found : DependencySet)
    : Except AuditError DependencySet → Prop
  | .ok set => ∃ summaries : Coordinate → Summary,
    (∀ c ∈ cs, Yields supply c (summaries c)) ∧ set = insertAll found (cs.map summaries)
  | .error error => ∃ earlier c later, cs = earlier ++ c :: later
    ∧ (∀ x ∈ earlier, Clean supply x) ∧ Fails supply above c error

theorem givesAll_nil (above : List Coordinate) (found : DependencySet)
    : GivesAll supply above [] found (.ok found) :=
  ⟨fun c => .ofSymbols c [] ∅, by simp, rfl⟩

theorem GivesAll.cons {above cs : List Coordinate} {c : Coordinate} {found : DependencySet}
    {summary : Summary} {result : Except AuditError DependencySet} (hsummary : Yields supply c summary)
    (h : GivesAll supply above cs (DependencySet.insert found summary) result)
    : GivesAll supply above (c :: cs) found result := by
  cases result with
  | ok set =>
    rcases h with ⟨summaries, hsummaries, rfl⟩
    have hall : ∀ d ∈ c :: cs, Yields supply d (Function.update summaries c summary d) := by
      intro d hd
      rw [Function.update_apply]
      split
      . next heq => exact heq ▸ hsummary
      . next hne =>
        exact hsummaries d ((List.mem_cons.1 hd).resolve_left hne)
    refine ⟨Function.update summaries c summary, hall, ?_⟩
    -- If the artifact comes once more it has the same summary there.
    have hmap : cs.map (Function.update summaries c summary) = cs.map summaries := by
      apply List.map_congr_left
      intro d hd
      exact (hall d (by simp [hd])).unique (hsummaries d hd)
    rw [List.map_cons, hmap, Function.update_self]
    rfl
  | error error =>
    rcases h with ⟨earlier, d, later, rfl, hclean, hfails⟩
    exact ⟨c :: earlier, d, later, rfl, List.forall_mem_cons.2 ⟨hsummary.clean, hclean⟩, hfails⟩

theorem GivesAll.of_fails {above : List Coordinate} {c : Coordinate} {error : AuditError}
    (h : Fails supply above c error) (cs : List Coordinate) (found : DependencySet)
    : GivesAll supply above (c :: cs) found (.error error) :=
  ⟨[], c, cs, rfl, by simp, h⟩

end Supply
end ArtifactAudit
