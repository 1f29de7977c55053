import ArtifactAudit.ClassFile.Code

/-!
This module contains the extraction of the symbols of one class file. Only classes that have to be
loaded count as used, so generic signatures, class literals and declared exceptions do not.
-/

namespace ArtifactAudit.ClassFile

structure Attribute where
  name : String
  body : Cursor
deriving DecidableEq, Repr

structure Member where
  descriptor : String
  attributes : List Attribute
deriving DecidableEq, Repr

structure Layout where
  pool : ConstantPool
  name : String
  supertypes : List String
  fields : List Member
  methods : List Member
  attributes : List Attribute

def magic : Nat := 0xCAFEBABE

def attributes (pool : ConstantPool) : Reader (List Attribute) :=
  Reader.table do
    let name ← pool.utf8 (← Reader.u16)
    return ⟨name, ← Reader.part (← Reader.u32)⟩

def members (pool : ConstantPool) : Reader (List Member) :=
  Reader.table do
    -- These are the access flags and the name.
    Reader.skip 4
    let descriptor ← pool.utf8 (← Reader.u16)
    return ⟨descriptor, ← attributes pool⟩

def layout : Reader Layout := do
  let number ← Reader.u32
  if number ≠ magic then throw (.badMagic number)
  -- This is the version of the format.
  Reader.skip 4
  let pool ← ConstantPool.read
  -- These are the access flags.
  Reader.skip 2
  let name ← pool.className (← Reader.u16)
  let superclass ← Reader.u16
  let extended ← if superclass = 0 then pure [] else do plainClass (← pool.className superclass)
  let implemented ← Reader.table do plainClass (← pool.className (← Reader.u16))
  let fields ← members pool
  let methods ← members pool
  let attributes ← attributes pool
  return { pool, name, supertypes := extended ++ implemented.flatten, fields, methods, attributes }

def annotationAttribute (pool : ConstantPool) (part : Attribute) :
    Except Fault (List String) :=
  match part.name with
  | "RuntimeVisibleAnnotations" | "RuntimeInvisibleAnnotations" =>
    Reader.within part.body (Annotations.annotations pool)
  | "RuntimeVisibleTypeAnnotations" | "RuntimeInvisibleTypeAnnotations" =>
    Reader.within part.body (Annotations.typeAnnotations pool)
  | _ => .ok []

def bootstrapHandles : Reader (List Nat) :=
  Reader.table do
    let handle ← Reader.u16
    Reader.skip ((← Reader.u16) * 2)
    return handle

def isDeclaredBy (pool : ConstantPool) (name : String) (outer : Nat) : Except Fault Bool :=
  if outer = 0 then .ok true else (pool.className outer).map (· == name)

def innerClass (pool : ConstantPool) (name : String) : Reader (List String) := do
  let inner ← Reader.u16
  let outer ← Reader.u16
  -- This is the simple name, with access flags.
  Reader.skip 4
  if ← isDeclaredBy pool name outer then return definition (← pool.className inner)
  return []

def innerClasses (pool : ConstantPool) (name : String) : Reader (List String) := do
  return (← Reader.table (innerClass pool name)).flatten

structure ClassAttributes where
  bootstraps : List Nat := []
  defined : List String := []
  used : List String := []
deriving DecidableEq, Repr

/--
Adds what an attribute of a class tells. Of several tables of bootstrap methods the last one counts.
-/
def ClassAttributes.add (file : Layout) (told : ClassAttributes) (part : Attribute) :
    Except Fault ClassAttributes :=
  match part.name with
  | "BootstrapMethods" => do
    return { told with bootstraps := ← Reader.within part.body bootstrapHandles }
  | "InnerClasses" => do
    let inner ← Reader.within part.body (innerClasses file.pool file.name)
    return { told with defined := told.defined ++ inner }
  | _ => do
    return { told with used := told.used ++ (← annotationAttribute file.pool part) }

def fieldClasses (pool : ConstantPool) (field : Member) : Except Fault (List String) := do
  let type ← Descriptor.classes field.descriptor
  let annotations ← field.attributes.mapM (annotationAttribute pool)
  return type ++ annotations.flatten

def methodAttribute (context : Code.Context) (part : Attribute) :
    Except Fault (List String) :=
  match part.name with
  | "Code" => Reader.within part.body (Code.body context)
  | "AnnotationDefault" => Reader.within part.body (Annotations.elementValue context.pool)
  | "RuntimeVisibleParameterAnnotations" | "RuntimeInvisibleParameterAnnotations" =>
    Reader.within part.body (Annotations.parameterAnnotations context.pool)
  | _ => annotationAttribute context.pool part

def methodClasses (context : Code.Context) (method : Member) : Except Fault (List String) := do
  let type ← Descriptor.classes method.descriptor
  let attributes ← method.attributes.mapM (methodAttribute context)
  return type ++ attributes.flatten

/--
The symbols of a class file whose parts have been told apart. The bodies of methods come last,
because the bootstrap methods that they refer to stand behind them in the file.
-/
def Layout.symbols (file : Layout) (skipDebug : Bool) : Except Fault Symbols := do
  let told ← file.attributes.foldlM (ClassAttributes.add file) {}
  let fields ← file.fields.mapM (fieldClasses file.pool)
  let context : Code.Context := { pool := file.pool, bootstraps := told.bootstraps, skipDebug }
  let methods ← file.methods.mapM (methodClasses context)
  return {
    defined := .ofList (definition file.name ++ told.defined)
    used := .ofList (file.supertypes ++ told.used ++ fields.flatten ++ methods.flatten) }

def extract (skipDebug : Bool) (bytes : List UInt8) : Except Fault Symbols := do
  let file ← Reader.within (.start bytes) layout
  file.symbols skipDebug

end ArtifactAudit.ClassFile
