import ArtifactAudit.ClassFile.Descriptor
import ArtifactAudit.NameSet

/-!
This module contains the symbols of class files: the classes that are defined and the classes that
are used, by their internal names such as `java/lang/String`.
-/

namespace ArtifactAudit

def externalName (name : String) : String :=
  String.ofList (name.toList.map fun c => if c = '/' then '.' else c)

namespace ClassFile

structure Symbols where
  defined : NameSet
  used : NameSet
deriving DecidableEq

def moduleInfo : String := "module-info"

/--
Whether a type is an array type. Where a class is expected these stand under their descriptors.
-/
def isArrayName (name : String) : Bool :=
  name.toList.head? == some '['

def plainClass (name : String) : Except Fault (List String) :=
  if isArrayName name then .error (.arrayClassName name) else .ok [name]

def ownerClasses (owner : String) : Except Fault (List String) :=
  if isArrayName owner then Descriptor.classes owner else plainClass owner

def definition (name : String) : List String :=
  if name = moduleInfo then [] else [name]

namespace Symbols

def empty : Symbols := ⟨∅, ∅⟩

instance : EmptyCollection Symbols := ⟨empty⟩

instance : Inhabited Symbols := ⟨empty⟩

def use (symbols : Symbols) (names : List String) : Symbols :=
  { symbols with used := symbols.used ∪ .ofList names }

def define (symbols : Symbols) (names : List String) : Symbols :=
  { symbols with defined := symbols.defined ∪ .ofList names }

def merge (left right : Symbols) : Symbols :=
  ⟨left.defined ∪ right.defined, left.used ∪ right.used⟩

def withoutDefined (symbols : Symbols) : Symbols :=
  { symbols with used := symbols.used \ symbols.defined }

end Symbols

end ClassFile

end ArtifactAudit
