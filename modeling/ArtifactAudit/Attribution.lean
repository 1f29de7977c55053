import ArtifactAudit.ClassFile.Symbols
import ArtifactAudit.DependencySet

/-!
This module contains the attribution of used classes to the dependencies that define them, from
which unused and undeclared dependencies follow.
-/

namespace ArtifactAudit

open ClassFile

namespace Attribution

def origins (dependencies : DependencySet) (className : String) : NameSet :=
  DependencySet.names (dependencies.filter fun d => className ∈ d.defined)

def supplies (used : NameSet) (dependency : Summary) : Bool :=
  !(dependency.defined ∩ used).isEmpty

def usages (dependencies : DependencySet) (used : NameSet) : UsageMap :=
  PackageTrie.compactEntries (used.names.map fun className =>
    (externalName className, origins dependencies className))

end Attribution

open Attribution in
/--
The summary of an artifact with some declared dependencies and some symbols. A class that the
artifact itself defines is not attributed.
-/
def Summary.ofSymbols (c : Coordinate) (declared : DependencySet) (symbols : Symbols) : Summary :=
  let used := symbols.withoutDefined.used
  let flattened := DependencySet.closure declared
  let suppliers := flattened.filter (supplies used)
  let suppliedNames := DependencySet.names suppliers
  { coordinate := c
    declared
    flattened
    defined := symbols.defined
    usages := Attribution.usages flattened used
    -- Another version of a declared dependency makes it used, but is itself undeclared.
    unused := declared.filter fun d => d.coordinate.name ∉ suppliedNames
    undeclared := suppliers.filter fun d => !DependencySet.contains declared d.coordinate }

end ArtifactAudit
