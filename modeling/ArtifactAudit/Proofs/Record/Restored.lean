import ArtifactAudit.Proofs.Record

/-!
This module contains the summaries that records are completed to on top of dependencies that were
completed from records themselves. They tell the same coordinates as the summaries that were
recorded, except that undeclared dependencies are told by the names of their artifacts.
-/

namespace ArtifactAudit

open DependencySet

/--
What two summaries of an artifact have in common, as far as classes and coordinates tell, if they may
differ in what is undeclared.
-/
structure Summary.Alike (again summary : Summary) : Prop where
  coordinate_eq : again.coordinate = summary.coordinate
  defined_eq : again.defined = summary.defined
  usages_eq : again.usages = summary.usages
  declared : ∀ x, x ∈ coordinates again.declared ↔ x ∈ coordinates summary.declared
  flattened : ∀ x, x ∈ coordinates again.flattened ↔ x ∈ coordinates summary.flattened
  unused : ∀ x, x ∈ coordinates again.unused ↔ x ∈ coordinates summary.unused

theorem mem_coordinates_filter (set : DependencySet) (keep : Coordinate → Bool) (x : Coordinate)
    : x ∈ coordinates (set.filter fun d => keep d.coordinate)
        ↔ x ∈ coordinates set ∧ keep x = true := by
  simp only [mem_coordinates, List.mem_filter]
  constructor
  . rintro ⟨d, ⟨hd, hkeep⟩, rfl⟩
    exact ⟨⟨d, hd, rfl⟩, hkeep⟩
  . rintro ⟨⟨d, hd, rfl⟩, hkeep⟩
    exact ⟨d, ⟨hd, hkeep⟩, rfl⟩

namespace Record

/--
A summary and a record that tell the same of an artifact. What is undeclared is among the
dependencies that are not declared, and there the record tells it by the names of artifacts.
-/
structure Tells (record : Record) (summary : Summary) : Prop where
  coordinate_eq : record.coordinate = summary.coordinate
  classes_eq : record.classes = summary.defined
  usages_eq : record.usages = summary.usages
  direct : ∀ x, x ∈ record.direct ↔ x ∈ coordinates summary.declared
  flattened_eq : summary.flattened = closure summary.declared
  unused : ∀ x, x ∈ coordinates summary.unused
    ↔ x ∈ coordinates summary.declared ∧ x.name ∈ record.unused
  undeclared : ∀ x ∈ coordinates summary.undeclared,
    x ∈ coordinates summary.flattened ∧ x ∉ coordinates summary.declared
  undeclared_names : ∀ x ∈ coordinates summary.flattened, x ∉ coordinates summary.declared →
    (x.name ∈ record.undeclared ↔ x.name ∈ names summary.undeclared)

theorem mem_unused_complete (record : Record) (declared : DependencySet) (x : Coordinate)
    : x ∈ coordinates (record.complete declared).unused
        ↔ x ∈ coordinates declared ∧ x.name ∈ record.unused := by
  have h := mem_coordinates_filter declared (fun x => decide (x.name ∈ record.unused)) x
  rwa [decide_eq_true_iff] at h

theorem mem_direct_ofSummary {createdAt : Nat} {c : Coordinate} {declared : DependencySet}
    {symbols : ClassFile.Symbols} {x : Coordinate}
    : x ∈ (ofSummary createdAt (.ofSymbols c declared symbols)).direct ↔ x ∈ coordinates declared := by
  rw [direct_ofSummary]
  change x ∈ coordinates ((closure declared).filter fun d => contains declared d.coordinate) ↔ _
  rw [mem_coordinates_filter _ (contains declared), contains_iff, mem_coordinates_closure]
  constructor
  . exact And.right
  . intro hx
    rcases mem_coordinates.1 hx with ⟨d, hd, rfl⟩
    exact ⟨⟨d, hd, .inl rfl⟩, hx⟩

theorem tells_ofSummary (createdAt : Nat) (c : Coordinate) (declared : DependencySet)
    (symbols : ClassFile.Symbols)
    : Tells (ofSummary createdAt (.ofSymbols c declared symbols)) (.ofSymbols c declared symbols) where
  coordinate_eq := rfl
  classes_eq := rfl
  usages_eq := rfl
  direct _ := mem_direct_ofSummary
  flattened_eq := rfl
  unused x := by
    -- What is unused is told by names in any case.
    rw [← unused_complete_ofSummary createdAt c declared symbols]
    exact mem_unused_complete _ declared x
  undeclared x hx := by
    rcases mem_coordinates.1 hx with ⟨d, hd, rfl⟩
    rcases (mem_undeclared_ofSymbols c declared symbols d).1 hd with ⟨hmem, hnew, _⟩
    exact ⟨mem_coordinates.2 ⟨d, hmem, rfl⟩, hnew⟩
  undeclared_names _ _ _ := .rfl

structure Restores (again summary : Summary) : Prop extends Summary.Alike again summary where
  undeclared : ∀ x, x ∈ coordinates again.undeclared
    ↔ x ∈ coordinates summary.flattened ∧ x ∉ coordinates summary.declared
      ∧ x.name ∈ names summary.undeclared

end Record
end ArtifactAudit
