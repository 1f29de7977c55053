import ArtifactAudit.Proofs.Attribution
import ArtifactAudit.Proofs.Graph

/-!
This module contains when a declared dependency counts as used, in a summary and in the graphs that the
summary is part of. Dependencies are compared by the names of their artifacts there, so one of which no
class is used still counts as used next to one with the same name of which a class is.
-/

namespace ArtifactAudit

open ClassFile DependencySet

namespace Summary

open Attribution

/--
Whether a class of a dependency is used, other than one that the artifact defines itself.
-/
def Supplies (d : Summary) (symbols : Symbols) : Prop :=
  ∃ className ∈ symbols.used, className ∉ symbols.defined ∧ className ∈ d.defined

instance (d : Summary) (symbols : Symbols) : Decidable (d.Supplies symbols) :=
  inferInstanceAs (Decidable (∃ className ∈ symbols.used.names,
    className ∉ symbols.defined ∧ className ∈ d.defined))

theorem supplies_withoutDefined_iff {d : Summary} {symbols : Symbols}
    : supplies symbols.withoutDefined.used d = true ↔ d.Supplies symbols := by
  have hused : ∀ name, name ∈ symbols.withoutDefined.used
      ↔ name ∈ symbols.used ∧ name ∉ symbols.defined := fun name => NameSet.mem_sdiff
  simp only [supplies_iff, hused, and_assoc, Supplies]

theorem notMem_unused_iff {c : Coordinate} {declared : DependencySet} {symbols : Symbols} {d : Summary}
    (hd : d ∈ declared)
    : d ∉ (ofSymbols c declared symbols).unused
        ↔
      ∃ e ∈ closure declared, e.coordinate.name = d.coordinate.name ∧ e.Supplies symbols := by
  simp only [ofSymbols, List.mem_filter, hd, true_and, decide_eq_true_eq, not_not, mem_names,
    supplies_withoutDefined_iff]
  constructor
  . rintro ⟨e, ⟨he, hsupplies⟩, hname⟩
    exact ⟨e, he, hname, hsupplies⟩
  . rintro ⟨e, he, hname, hsupplies⟩
    exact ⟨e, ⟨he, hsupplies⟩, hname⟩

end Summary

namespace Graph

open Summary

theorem used_mem_edges_iff {artifacts : Catalog} (hnodup : (coordinates artifacts).Nodup)
    (hbuilt : ∀ x ∈ artifacts, Built x) {summary d : Summary} (hsummary : summary ∈ artifacts)
    (hd : d ∈ summary.declared)
    : ⟨summary.coordinate, d.coordinate, .used⟩ ∈ (ofCatalog artifacts).edges
        ↔
      d ∉ summary.unused := by
  have hassembled : ∀ x ∈ artifacts, Assembled x := fun x hx => (hbuilt x hx).assembled
  have hunique : ∀ x y, x ∈ artifacts → y ∈ artifacts → x.coordinate = y.coordinate → x = y :=
    fun x y hx hy => List.inj_on_of_nodup_map hnodup hx hy
  have hcoherent := (hbuilt summary hsummary).coherent
  have hunused : contains summary.unused d.coordinate = true ↔ d ∈ summary.unused := by
    rw [contains_iff, mem_coordinates]
    constructor
    . rintro ⟨e, he, heq⟩
      rwa [← List.inj_on_of_nodup_map hcoherent.declared_nodup (hcoherent.unused_subset he) hd heq]
    . exact fun h => ⟨d, h, rfl⟩
  have hkind : ⟨summary.coordinate, d.coordinate, .used⟩ = declaredEdge summary d
      ↔ d ∉ summary.unused := by
    rw [← hunused, declaredEdge]
    split <;> simp [*]
  rw [← hkind, ← eq_declaredEdge_iff hassembled hunique hsummary hd]
  simp only [and_true]

/--
A declared dependency counts as used, by its summary and in each graph, if something with the name of
its artifact is used. This agrees with whether it is used itself exactly where nothing else with this
name is used without it.
-/
theorem used_edge_iff (c : Coordinate) (summaries : List Summary) (symbols : Symbols)
    : let summary := ofSymbols c (ofList summaries) symbols
      ∀ d ∈ summary.declared,
        (d ∉ summary.unused
          ↔ ∃ e ∈ summary.flattened, e.coordinate.name = d.coordinate.name ∧ e.Supplies symbols)
        ∧ (d ∈ summary.flattened →
          ((d ∉ summary.unused ↔ d.Supplies symbols)
            ↔ ∀ e ∈ summary.flattened, e.coordinate.name = d.coordinate.name →
              e.Supplies symbols → d.Supplies symbols))
        ∧ ∀ artifacts : Catalog, (coordinates artifacts).Nodup → (∀ x ∈ artifacts, Built x) →
          summary ∈ artifacts →
            (⟨c, d.coordinate, .used⟩ ∈ (ofCatalog artifacts).edges ↔ d ∉ summary.unused) := by
  intro summary d hd
  have hunused : d ∉ summary.unused
      ↔ ∃ e ∈ summary.flattened, e.coordinate.name = d.coordinate.name ∧ e.Supplies symbols :=
    notMem_unused_iff hd
  refine ⟨hunused, ?_, ?_⟩
  . intro hflattened
    rw [hunused]
    constructor
    . intro h e he hname hsupplies
      exact h.1 ⟨e, he, hname, hsupplies⟩
    . intro h
      constructor
      . rintro ⟨e, he, hname, hsupplies⟩
        exact h e he hname hsupplies
      . exact fun hsupplies => ⟨d, hflattened, rfl, hsupplies⟩
  . intro artifacts hnodup hbuilt hsummary
    exact used_mem_edges_iff hnodup hbuilt hsummary hd

theorem used_edge_iff_twoVersions :
    let x := ofSymbols (.ofParts "g" "x" "1") (ofList []) ⟨.ofList ["x/X"], ∅⟩
    let y := ofSymbols (.ofParts "g" "x" "2") (ofList []) ⟨.ofList ["x/X", "x/Y"], ∅⟩
    let symbols : Symbols := ⟨.ofList ["a/A", "x/Y"], .ofList ["x/X", "x/Y"]⟩
    let summary := ofSymbols (.ofParts "g" "a" "1") (ofList [x, y]) symbols
    x.Supplies symbols ∧ x ∉ summary.unused
      ∧ ⟨.ofParts "g" "a" "1", .ofParts "g" "x" "1", .used⟩ ∈ (ofCatalog [summary, x, y]).edges := by
  intro x y symbols summary
  have hx : Built x := .ofSymbols _ _ (by simp)
  have hy : Built y := .ofSymbols _ _ (by simp)
  have hsummary : Built summary := .ofSymbols _ _ (by simpa using ⟨hx, hy⟩)
  have hsupplies : x.Supplies symbols := by decide +kernel
  rcases used_edge_iff (.ofParts "g" "a" "1") [x, y] symbols x List.mem_cons_self with
    ⟨_, hiff, hedge⟩
  have hused : x ∉ summary.unused :=
    ((hiff List.mem_cons_self).2 fun _ _ _ _ => hsupplies).2 hsupplies
  have hnodup : (coordinates [summary, x, y]).Nodup := by decide +kernel
  have hbuilt : ∀ d ∈ [summary, x, y], Built d := by simpa using ⟨hsummary, hx, hy⟩
  exact ⟨hsupplies, hused, (hedge _ hnodup hbuilt List.mem_cons_self).2 hused⟩

/--
The classes of an artifact next to its tests, of which alone something is used.
-/
theorem used_edge_besideTests :
    let x := ofSymbols (.ofParts "g" "x" "1") (ofList []) ⟨.ofList ["d/D"], ∅⟩
    let tests := ofSymbols ⟨"g", "x", "1", "jar", "tests"⟩ (ofList []) ⟨.ofList ["c/C"], ∅⟩
    let symbols : Symbols := ⟨.ofList ["a/A"], .ofList ["c/C"]⟩
    let summary := ofSymbols (.ofParts "g" "a" "1") (ofList [x, tests]) symbols
    x ∈ summary.declared ∧ ¬ x.Supplies symbols ∧ x ∉ summary.unused
      ∧ ⟨.ofParts "g" "a" "1", .ofParts "g" "x" "1", .used⟩
        ∈ (ofCatalog [summary, x, tests]).edges := by
  intro x tests symbols summary
  have hunused : coordinates summary.unused = [] := by decide +kernel
  refine ⟨List.mem_cons_self, by decide +kernel, ?_, List.mem_mergeSort.2 (by decide +kernel)⟩
  rw [List.map_eq_nil_iff.1 hunused]
  exact List.not_mem_nil

end Graph
end ArtifactAudit
