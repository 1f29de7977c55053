import Mathlib.Data.List.Chain
import Mathlib.Logic.Relation
import ArtifactAudit.Attribution
import ArtifactAudit.Provider

/-!
This module contains the theory of what artifacts depend on: which artifacts can be summarized
because nothing that they depend on is missing or depends on itself, and what the path of a cycle
looks like while it grows outwards.
-/

namespace ArtifactAudit

structure Supply where
  artifact : Coordinate → Except AuditError Artifact
  symbols : Path → Except AuditError ClassFile.Symbols

namespace Supply

variable {supply : Supply}

def DependsOn (supply : Supply) (c d : Coordinate) : Prop :=
  ∃ artifact, supply.artifact c = .ok artifact ∧ d ∈ artifact.dependencies

theorem dependsOn_iff {c d : Coordinate} {artifact : Artifact} (h : supply.artifact c = .ok artifact)
    : DependsOn supply c d ↔ d ∈ artifact.dependencies := by
  constructor
  . rintro ⟨other, hother, hd⟩
    rw [h, Except.ok.injEq] at hother
    exact hother ▸ hd
  . intro hd
    exact ⟨artifact, h, hd⟩

def Reaches (supply : Supply) : Coordinate → Coordinate → Prop :=
  Relation.ReflTransGen supply.DependsOn

def Cyclic (supply : Supply) (c : Coordinate) : Prop :=
  Relation.TransGen supply.DependsOn c c

def Available (supply : Supply) (c : Coordinate) : Prop :=
  ∃ artifact symbols, supply.artifact c = .ok artifact
    ∧ supply.symbols artifact.location = .ok symbols

/--
An artifact that can be summarized: it is available, and so are, without end, its dependencies.
-/
inductive Clean (supply : Supply) : Coordinate → Prop where
  | intro {c : Coordinate} {artifact : Artifact} {symbols : ClassFile.Symbols}
    (artifact_eq : supply.artifact c = .ok artifact)
    (symbols_eq : supply.symbols artifact.location = .ok symbols)
    (dependencies : ∀ d ∈ artifact.dependencies, Clean supply d)
    : Clean supply c

theorem Clean.of_dependsOn {c d : Coordinate} (h : Clean supply c) (hdepends : DependsOn supply c d)
    : Clean supply d := by
  cases h with
  | intro hartifact _ hdependencies =>
    rcases hdepends with ⟨artifact, hother, hmem⟩
    rw [hartifact, Except.ok.injEq] at hother
    exact hdependencies d (hother ▸ hmem)

theorem Clean.of_reaches {c d : Coordinate} (h : Clean supply c) (hreaches : Reaches supply c d)
    : Clean supply d := by
  induction hreaches with
  | refl => exact h
  | tail _ hdepends ih => exact ih.of_dependsOn hdepends

theorem Clean.not_cyclic {c : Coordinate} (h : Clean supply c) : ¬ Cyclic supply c := by
  induction h with
  | intro hartifact _ _ ih =>
    intro hcycle
    rcases Relation.TransGen.head'_iff.1 hcycle with ⟨d, hdepends, hback⟩
    rcases hdepends with ⟨artifact, hother, hmem⟩
    rw [hartifact, Except.ok.injEq] at hother
    -- The cycle also leads from the dependency back to itself.
    apply ih d (hother ▸ hmem)
    exact Relation.TransGen.tail' hback ⟨artifact, hother ▸ hartifact, hmem⟩

/--
The path of a cycle that was met while an artifact was resolved in place of the first one of those
above it, each of which depends on the one before.
-/
structure CyclePath (supply : Supply) (above : List Coordinate) (c : Coordinate)
    (path : List Coordinate)
    : Prop where
  last : path.getLast? = some c
  linked : (path ++ above).IsChain fun d c => DependsOn supply c d
  nodup : (path.tail ++ above).Nodup
  repeated : ∃ d, path.head? = some d ∧ d ∈ path.tail ++ above

theorem CyclePath.singleton {above : List Coordinate} {c : Coordinate} (h : c ∈ above)
    (hlinked : (c :: above).IsChain fun d c => DependsOn supply c d) (hnodup : above.Nodup)
    : CyclePath supply above c [c] where
  last := rfl
  linked := hlinked
  nodup := hnodup
  repeated := ⟨c, rfl, h⟩

theorem CyclePath.within {above : List Coordinate} {c d : Coordinate} {path : List Coordinate}
    (h : CyclePath supply (c :: above) d path)
    : CyclePath supply above c (path ++ [c]) := by
  have hne : path ≠ [] := by
    intro heq
    have := h.last
    simp [heq] at this
  constructor
  . simp
  . simpa using h.linked
  . rw [List.tail_append_of_ne_nil hne]
    simpa using h.nodup
  . rcases h.repeated with ⟨first, hfirst, hmem⟩
    refine ⟨first, ?_, ?_⟩
    . rw [List.head?_append_of_ne_nil _ hne, hfirst]
    . rw [List.tail_append_of_ne_nil hne]
      simpa using hmem

theorem transGen_of_isChain {path : List Coordinate}
    : ∀ {d : Coordinate},
        (d :: path).IsChain (fun d c => DependsOn supply c d)
          →
        ∀ c ∈ path, Relation.TransGen supply.DependsOn c d := by
  induction path with
  | nil => simp
  | cons next path ih =>
    intro d h c hc
    rw [List.isChain_cons_cons] at h
    rcases List.mem_cons.1 hc with rfl | hc
    . exact .single h.1
    . exact (ih h.2 c hc).tail h.1

theorem CyclePath.exists_cyclic {c : Coordinate} {path : List Coordinate}
    (h : CyclePath supply [] c path)
    : ∃ d, Reaches supply c d ∧ Cyclic supply d := by
  cases path with
  | nil => cases h.last
  | cons d path =>
    rcases h.repeated with ⟨first, hfirst, hmem⟩
    cases hfirst
    have hlinked := h.linked
    rw [List.append_nil] at hlinked hmem
    have htrans := transGen_of_isChain hlinked
    refine ⟨d, ?_, htrans d hmem⟩
    have hlast : c ∈ path := by
      have hne : path ≠ [] := List.ne_nil_of_mem hmem
      apply List.mem_of_getLast?
      rw [← h.last, List.getLast?_cons_of_ne_nil hne]
    exact (htrans c hlast).to_reflTransGen

end Supply
end ArtifactAudit
