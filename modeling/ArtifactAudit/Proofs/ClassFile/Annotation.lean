import ArtifactAudit.ClassFile.Annotations
import ArtifactAudit.Proofs.ClassFile.Descriptor
import ArtifactAudit.Proofs.ClassFile.Pool
import ArtifactAudit.Proofs.ClassFile.Written

/-!
This module contains annotations as trees, how they are laid out in bytes, and which of the types in
them count as used. Its main statement is that reading annotations as they are laid out takes just their
bytes and finds the classes of these types, and no others.
-/

namespace ArtifactAudit.ClassFile.Annotations

open Reader

/--
The value of an element of an annotation. All that it mentions are indices of the constant pool.
-/
inductive Element where
  | primitive (type : Descriptor.Primitive) (index : UInt16)
  | string (index : UInt16)
  | classLiteral (index : UInt16)
  | enumConstant (type name : UInt16)
  | nested (type count : UInt16) (names : Fin count.toNat → UInt16)
    (values : Fin count.toNat → Element)
  | array (count : UInt16) (values : Fin count.toNat → Element)

structure Annotation where
  type : UInt16
  count : UInt16
  names : Fin count.toNat → UInt16
  values : Fin count.toNat → Element

def layout (type count : UInt16) (names : Fin count.toNat → UInt16)
    (valueBytes : Fin count.toNat → List UInt8) : List UInt8 :=
  numberBytes 2 type.toNat ++
    tableBytes (fun i => numberBytes 2 (names i).toNat ++ valueBytes i) (List.finRange count.toNat)

namespace Element

def bytes : Element → List UInt8
  | .primitive type index => UInt8.ofNat type.letter.toNat :: numberBytes 2 index.toNat
  | .string index => 0x73 :: numberBytes 2 index.toNat
  | .classLiteral index => 0x63 :: numberBytes 2 index.toNat
  | .enumConstant type name => 0x65 :: (numberBytes 2 type.toNat ++ numberBytes 2 name.toNat)
  | .nested type count names values => 0x40 :: layout type count names fun i => (values i).bytes
  | .array count values => 0x5B :: tableBytes (fun i => (values i).bytes) (List.finRange count.toNat)

def types : Element → List UInt16
  | .primitive _ _ | .string _ | .classLiteral _ => []
  | .enumConstant type _ => [type]
  | .nested type count _ values =>
    type :: (List.finRange count.toNat).flatMap fun i => (values i).types
  | .array count values => (List.finRange count.toNat).flatMap fun i => (values i).types

end Element

namespace Annotation

def bytes (a : Annotation) : List UInt8 :=
  layout a.type a.count a.names fun i => (a.values i).bytes

def types (a : Annotation) : List UInt16 :=
  a.type :: (List.finRange a.count.toNat).flatMap fun i => (a.values i).types

end Annotation

/--
What a type annotation belongs to. Where several kinds are told in the same way, it has its kind.
-/
inductive TargetInfo where
  | typeParameter (kind index : UInt8) (listed : kind ∈ [0x00, 0x01])
  | supertype (index : UInt16)
  | typeParameterBound (kind parameter bound : UInt8) (listed : kind ∈ [0x11, 0x12])
  | empty (kind : UInt8) (listed : kind ∈ [0x13, 0x14, 0x15])
  | formalParameter (index : UInt8)
  | throws (index : UInt16)
  | localVariables (kind : UInt8) (ranges : List (UInt16 × UInt16 × UInt16))
    (listed : kind ∈ [0x40, 0x41]) (length_lt : ranges.length < 2 ^ 16)
  | exception (index : UInt16)
  | instruction (kind : UInt8) (position : UInt16) (listed : kind ∈ [0x43, 0x44, 0x45, 0x46])
  | typeArgument (kind : UInt8) (position : UInt16) (index : UInt8)
    (listed : kind ∈ [0x47, 0x48, 0x49, 0x4A, 0x4B])

namespace TargetInfo

def kind : TargetInfo → UInt8
  | .typeParameter kind .. | .typeParameterBound kind .. | .empty kind _ | .localVariables kind ..
  | .instruction kind .. | .typeArgument kind .. => kind
  | .supertype _ => 0x10
  | .formalParameter _ => 0x16
  | .throws _ => 0x17
  | .exception _ => 0x42

def bytes : TargetInfo → List UInt8
  | .typeParameter _ index _ | .formalParameter index => [index]
  | .supertype index | .throws index | .exception index => numberBytes 2 index.toNat
  | .typeParameterBound _ parameter bound _ => [parameter, bound]
  | .empty _ _ => []
  | .localVariables _ ranges _ _ =>
    tableBytes (fun (start, length, slot) =>
      numberBytes 2 start.toNat ++ numberBytes 2 length.toNat ++ numberBytes 2 slot.toNat) ranges
  | .instruction _ position _ => numberBytes 2 position.toNat
  | .typeArgument _ position index _ => numberBytes 2 position.toNat ++ [index]

def isInstruction : TargetInfo → Bool
  | .instruction .. | .typeArgument .. => true
  | _ => false

def form : TargetInfo → Target
  | .typeParameter .. | .formalParameter _ => .declaration 1
  | .supertype _ | .throws _ | .exception _ | .typeParameterBound .. => .declaration 2
  | .empty .. => .declaration 0
  | .localVariables .. => .localVariables
  | .instruction .. => .instruction 2
  | .typeArgument .. => .instruction 3

end TargetInfo

structure TypeAnnotation where
  target : TargetInfo
  path : List (UInt8 × UInt8)
  length_path_lt : path.length < 2 ^ 8
  body : Annotation

namespace TypeAnnotation

def bytes (a : TypeAnnotation) : List UInt8 :=
  [a.target.kind] ++ (a.target.bytes ++ ([UInt8.ofNat a.path.length] ++
    (a.path.flatMap (fun (kind, argument) => [kind, argument]) ++ a.body.bytes)))

def recorded (a : TypeAnnotation) : List UInt16 :=
  if a.target.isInstruction then [] else a.body.types

end TypeAnnotation

inductive Attribute where
  | annotations (entries : List Annotation) (length_lt : entries.length < 2 ^ 16)
  | parameterAnnotations (parameters : List (List Annotation)) (length_lt : parameters.length < 2 ^ 8)
    (length_parameter_lt : ∀ entries ∈ parameters, entries.length < 2 ^ 16)
  | typeAnnotations (entries : List TypeAnnotation) (length_lt : entries.length < 2 ^ 16)

namespace Attribute

def bytes : Attribute → List UInt8
  | .annotations entries _ => tableBytes Annotation.bytes entries
  | .parameterAnnotations parameters _ _ =>
    [UInt8.ofNat parameters.length] ++ parameters.flatMap (tableBytes Annotation.bytes)
  | .typeAnnotations entries _ => tableBytes TypeAnnotation.bytes entries

def types : Attribute → List UInt16
  | .annotations entries _ => entries.flatMap Annotation.types
  | .parameterAnnotations parameters _ _ => parameters.flatMap (List.flatMap Annotation.types)
  | .typeAnnotations entries _ => entries.flatMap fun a => a.body.types

/--
The types that count as used: all but those of annotations that belong to an instruction.
-/
def recorded : Attribute → List UInt16
  | .annotations entries _ => entries.flatMap Annotation.types
  | .parameterAnnotations parameters _ _ => parameters.flatMap (List.flatMap Annotation.types)
  | .typeAnnotations entries _ => entries.flatMap TypeAnnotation.recorded

def reader (pool : ConstantPool) : Attribute → Reader (List String)
  | .annotations .. => Annotations.annotations pool
  | .parameterAnnotations .. => Annotations.parameterAnnotations pool
  | .typeAnnotations .. => Annotations.typeAnnotations pool

end Attribute

section

variable {pool : ConstantPool} {describe : UInt16 → Descriptor.MemberType}

def classesAt (describe : UInt16 → Descriptor.MemberType) (indices : List UInt16) : List String :=
  indices.flatMap fun i => (describe i).classes

theorem flatten_map_classesAt {α : Type} (types : α → List UInt16) (entries : List α)
    : (entries.map fun entry => classesAt describe (types entry)).flatten
        =
      classesAt describe (entries.flatMap types) := by
  unfold classesAt
  rw [List.flatMap_assoc, List.flatMap_def]

theorem consumes_descriptorAt {i : UInt16} (h : pool.HasText i.toNat (describe i).text)
    : Consumes (descriptorAt pool) (numberBytes 2 i.toNat) (describe i).classes := by
  apply (consumes_u16 i.toNat_lt).bind_nil
  apply Consumes.of_ok (ConstantPool.utf8_eq_ok h)
  rw [Descriptor.classes_text]
  apply consumes_pure

theorem consumes_table_classesAt {α : Type} {reader : Reader (List String)}
    {entryBytes : α → List UInt8} {types : α → List UInt16} {entries : List α}
    (hlength : entries.length < 2 ^ 16)
    (h : ∀ entry ∈ entries, Consumes reader (entryBytes entry) (classesAt describe (types entry)))
    : Consumes (do return (← table reader).flatten) (tableBytes entryBytes entries)
        (classesAt describe (entries.flatMap types)) := by
  have hread := (Consumes.table hlength h).map List.flatten
  rwa [flatten_map_classesAt] at hread

theorem length_le_length_layout (type : UInt16) {count : UInt16} (names : Fin count.toNat → UInt16)
    (valueBytes : Fin count.toNat → List UInt8) (i : Fin count.toNat)
    : (valueBytes i).length ≤ (layout type count names valueBytes).length := by
  let entryBytes i := numberBytes 2 (names i).toNat ++ valueBytes i
  have hentry : (entryBytes i).length ≤ (tableBytes entryBytes (List.finRange count.toNat)).length :=
    length_le_length_tableBytes entryBytes (List.mem_finRange i)
  rw [List.length_append] at hentry
  rw [layout, List.length_append]
  exact Nat.le_add_left_of_le (Nat.le_trans (Nat.le_add_left _ _) hentry)

theorem length_finRange_lt (count : UInt16) : (List.finRange count.toNat).length < 2 ^ 16 := by
  rw [List.length_finRange]
  exact count.toNat_lt

theorem consumes_annotationWith {element : Reader (List String)} {type count : UInt16}
    {names : Fin count.toNat → UInt16} {valueBytes : Fin count.toNat → List UInt8}
    {valueTypes : Fin count.toNat → List UInt16}
    (htypes : ∀ t ∈ type :: (List.finRange count.toNat).flatMap valueTypes,
      pool.HasText t.toNat (describe t).text)
    (h : ∀ i, (∀ t ∈ valueTypes i, pool.HasText t.toNat (describe t).text) →
      Consumes element (valueBytes i) (classesAt describe (valueTypes i)))
    : Consumes (annotationWith pool element) (layout type count names valueBytes)
        (classesAt describe (type :: (List.finRange count.toNat).flatMap valueTypes)) := by
  have hentry : ∀ i ∈ List.finRange count.toNat, Consumes (do skip 2; element)
      (numberBytes 2 (names i).toNat ++ valueBytes i) (classesAt describe (valueTypes i)) := by
    intro i hi
    apply (consumes_skip (length_numberBytes 2 (names i).toNat)).bind
    apply h
    intro t ht
    exact htypes t (List.mem_cons_of_mem type (List.mem_flatMap.2 ⟨i, hi, ht⟩))
  have hvalues := (Consumes.table (length_finRange_lt count) hentry).map fun values =>
    (describe type).classes ++ values.flatten
  rw [flatten_map_classesAt] at hvalues
  exact (consumes_descriptorAt (htypes type List.mem_cons_self)).bind hvalues

theorem consumes_of_tag {size : Nat} {tag : UInt8} {taken : List UInt8} {names : List String}
    (hsize : taken.length < size)
    (h : ∀ smaller, taken.length ≤ smaller →
      Consumes (elementValueWithin pool (smaller + 1)) (tag :: taken) names)
    : Consumes (elementValueWithin pool size) (tag :: taken) names := by
  -- What follows the tag is shorter than the value, so there is a level left to read it at.
  cases size with
  | zero => exact absurd hsize (Nat.not_lt_zero _)
  | succ smaller => exact h smaller (Nat.le_of_lt_succ hsize)

theorem consumes_constant {size : Nat} {tag : UInt8} {taken : List UInt8}
    (htag : Char.ofNat tag.toNat ∈ ['B', 'C', 'D', 'F', 'I', 'J', 'S', 'Z', 's', 'c'])
    (hlength : taken.length = 2) (hsize : taken.length < size)
    : Consumes (elementValueWithin pool size) (tag :: taken) [] := by
  apply consumes_of_tag hsize
  intro smaller _
  apply (consumes_byte tag).bind
  dsimp only
  rw [if_pos htag]
  exact (consumes_skip hlength).map fun _ => []

namespace Element

theorem consumes (e : Element) (h : ∀ i ∈ e.types, pool.HasText i.toNat (describe i).text)
    : ∀ size, e.bytes.length ≤ size →
        Consumes (elementValueWithin pool size) e.bytes (classesAt describe e.types) := by
  induction e with
  | primitive type index =>
    intro size hsize
    have htag : Char.ofNat (UInt8.ofNat type.letter.toNat).toNat
        ∈ ['B', 'C', 'D', 'F', 'I', 'J', 'S', 'Z', 's', 'c'] := by
      cases type <;> decide
    exact consumes_constant htag (length_numberBytes 2 index.toNat) hsize
  | string index =>
    intro size hsize
    exact consumes_constant (by decide) (length_numberBytes 2 index.toNat) hsize
  | classLiteral index =>
    intro size hsize
    exact consumes_constant (by decide) (length_numberBytes 2 index.toNat) hsize
  | enumConstant type name =>
    intro size hsize
    apply consumes_of_tag hsize
    intro smaller _
    apply (consumes_byte 0x65).bind
    dsimp only
    rw [if_neg (by decide), if_pos (by decide)]
    apply (consumes_u16 type.toNat_lt).bind
    apply (consumes_skip (length_numberBytes 2 name.toNat)).bind_nil
    apply Consumes.of_ok (ConstantPool.utf8_eq_ok (h type List.mem_cons_self))
    rw [Descriptor.classes_text, types, classesAt, List.flatMap_singleton]
    apply consumes_pure
  | nested type count names values ih =>
    intro size hsize
    apply consumes_of_tag hsize
    intro smaller hsmaller
    apply (consumes_byte 0x40).bind
    dsimp only
    rw [if_neg (by decide), if_neg (by decide), if_pos (by decide)]
    apply consumes_annotationWith h
    intro i hi
    have hle := length_le_length_layout type names (fun i => (values i).bytes) i
    exact ih i hi smaller (Nat.le_trans hle hsmaller)
  | array count values ih =>
    intro size hsize
    apply consumes_of_tag hsize
    intro smaller hsmaller
    apply (consumes_byte 0x5B).bind
    dsimp only
    rw [if_neg (by decide), if_neg (by decide), if_neg (by decide), if_pos (by decide)]
    apply consumes_table_classesAt (length_finRange_lt count)
    intro i hi
    have hle := length_le_length_tableBytes (fun i => (values i).bytes) hi
    apply ih i _ smaller (Nat.le_trans hle hsmaller)
    intro t ht
    exact h t (List.mem_flatMap.2 ⟨i, hi, ht⟩)

end Element

theorem Annotation.consumes (a : Annotation)
    (h : ∀ i ∈ a.types, pool.HasText i.toNat (describe i).text) {size : Nat}
    (hsize : a.bytes.length ≤ size)
    : Consumes (annotationWithin pool size) a.bytes (classesAt describe a.types) := by
  apply consumes_annotationWith h
  intro i hi
  have hle := length_le_length_layout a.type a.names (fun i => (a.values i).bytes) i
  exact (a.values i).consumes hi size (Nat.le_trans hle hsize)

theorem consumes_annotationsWithin {entries : List Annotation} (hlength : entries.length < 2 ^ 16)
    (h : ∀ i ∈ entries.flatMap Annotation.types, pool.HasText i.toNat (describe i).text) {size : Nat}
    (hsize : (tableBytes Annotation.bytes entries).length ≤ size)
    : Consumes (annotationsWithin pool size) (tableBytes Annotation.bytes entries)
        (classesAt describe (entries.flatMap Annotation.types)) := by
  apply consumes_table_classesAt hlength
  intro a ha
  apply a.consumes
  . intro i hi
    exact h i (List.mem_flatMap.2 ⟨a, ha, hi⟩)
  . exact Nat.le_trans (length_le_length_tableBytes _ ha) hsize

namespace TargetInfo

theorem ofKind?_kind (info : TargetInfo) : Target.ofKind? info.kind = some info.form := by
  cases info with
  | typeParameter kind _ listed =>
    have hkinds : ∀ kind ∈ [0x00, 0x01], Target.ofKind? kind = some (.declaration 1) := by
      decide +kernel
    exact hkinds kind listed
  | typeParameterBound kind _ _ listed =>
    have hkinds : ∀ kind ∈ [0x11, 0x12], Target.ofKind? kind = some (.declaration 2) := by
      decide +kernel
    exact hkinds kind listed
  | empty kind listed =>
    have hkinds : ∀ kind ∈ [0x13, 0x14, 0x15], Target.ofKind? kind = some (.declaration 0) := by
      decide +kernel
    exact hkinds kind listed
  | localVariables kind _ listed _ =>
    have hkinds : ∀ kind ∈ [0x40, 0x41], Target.ofKind? kind = some .localVariables := by
      decide +kernel
    exact hkinds kind listed
  | instruction kind _ listed =>
    have hkinds : ∀ kind ∈ [0x43, 0x44, 0x45, 0x46],
        Target.ofKind? kind = some (.instruction 2) := by
      decide +kernel
    exact hkinds kind listed
  | typeArgument kind _ _ listed =>
    have hkinds : ∀ kind ∈ [0x47, 0x48, 0x49, 0x4A, 0x4B],
        Target.ofKind? kind = some (.instruction 3) := by
      decide +kernel
    exact hkinds kind listed
  | supertype _ | formalParameter _ | throws _ | exception _ => rfl

theorem consumes_skip_form (info : TargetInfo) : Consumes info.form.skip info.bytes () := by
  cases info with
  | localVariables _ ranges _ hlt =>
    have hlength : (ranges.flatMap fun (start, length, slot) => numberBytes 2 start.toNat ++
        numberBytes 2 length.toNat ++ numberBytes 2 slot.toNat).length = ranges.length * 6 := by
      simp [List.length_flatMap]
    exact (consumes_u16 hlt).bind (consumes_skip hlength)
  | typeParameter _ _ _ | typeParameterBound _ _ _ _ | empty _ _ | formalParameter _ =>
    exact consumes_skip rfl
  | supertype index | throws index | exception index =>
    exact consumes_skip (length_numberBytes 2 index.toNat)
  | instruction _ position _ => exact consumes_skip (length_numberBytes 2 position.toNat)
  | typeArgument _ position index _ =>
    have hlength : (numberBytes 2 position.toNat ++ [index]).length = 3 := by simp
    exact consumes_skip hlength

end TargetInfo

theorem TypeAnnotation.consumes (a : TypeAnnotation)
    (h : ∀ i ∈ a.body.types, pool.HasText i.toNat (describe i).text) {size : Nat}
    (hsize : a.bytes.length ≤ size)
    : Consumes (typeAnnotationWithin pool size) a.bytes (classesAt describe a.recorded) := by
  apply (consumes_byte a.target.kind).bind
  rw [TargetInfo.ofKind?_kind]
  apply a.target.consumes_skip_form.bind
  apply (consumes_byte (UInt8.ofNat a.path.length)).bind
  have hpath : (a.path.flatMap fun (kind, argument) => [kind, argument]).length
      = (UInt8.ofNat a.path.length).toNat * 2 := by
    rw [UInt8.toNat_ofNat_of_lt' a.length_path_lt]
    simp [List.length_flatMap]
  have hbody : a.body.bytes.length ≤ size := by
    simp only [bytes, List.length_append] at hsize
    omega
  apply (consumes_skip hpath).bind
  apply (a.body.consumes h hbody).bind_nil
  unfold recorded
  cases a.target <;> exact consumes_pure _

theorem consumes_depthBound {α : Type} {next : Nat → Reader α} {taken : List UInt8} {a : α}
    (h : ∀ size, taken.length ≤ size → Consumes (next size) taken a)
    : Consumes (depthBound >>= next) taken a := by
  intro offset rest
  apply h (taken ++ rest).length
  rw [List.length_append]
  apply Nat.le_add_right

theorem consumes_annotations {entries : List Annotation} (hlength : entries.length < 2 ^ 16)
    (h : ∀ i ∈ entries.flatMap Annotation.types, pool.HasText i.toNat (describe i).text)
    : Consumes (annotations pool) (tableBytes Annotation.bytes entries)
        (classesAt describe (entries.flatMap Annotation.types)) := by
  apply consumes_depthBound
  intro size hsize
  exact consumes_annotationsWithin hlength h hsize

theorem consumes_parameterAnnotations {parameters : List (List Annotation)}
    (hlength : parameters.length < 2 ^ 8) (hparameters : ∀ entries ∈ parameters, entries.length < 2 ^ 16)
    (h : ∀ i ∈ parameters.flatMap (List.flatMap Annotation.types),
      pool.HasText i.toNat (describe i).text)
    : Consumes (parameterAnnotations pool)
        (UInt8.ofNat parameters.length :: parameters.flatMap (tableBytes Annotation.bytes))
        (classesAt describe (parameters.flatMap (List.flatMap Annotation.types))) := by
  apply consumes_depthBound
  intro size hsize
  apply (consumes_byte (UInt8.ofNat parameters.length)).bind
  rw [UInt8.toNat_ofNat_of_lt' hlength, ← flatten_map_classesAt]
  apply (Consumes.times _).map List.flatten
  intro entries hentries
  apply consumes_annotationsWithin (hparameters entries hentries)
  . intro i hi
    exact h i (List.mem_flatMap.2 ⟨entries, hentries, hi⟩)
  . have hle := length_le_length_flatMap (tableBytes Annotation.bytes) hentries
    exact Nat.le_trans hle (Nat.le_of_succ_le hsize)

theorem consumes_typeAnnotations {entries : List TypeAnnotation} (hlength : entries.length < 2 ^ 16)
    (h : ∀ i ∈ entries.flatMap fun a => a.body.types,
      pool.HasText i.toNat (describe i).text)
    : Consumes (typeAnnotations pool) (tableBytes TypeAnnotation.bytes entries)
        (classesAt describe (entries.flatMap TypeAnnotation.recorded)) := by
  apply consumes_depthBound
  intro size hsize
  apply consumes_table_classesAt hlength
  intro a ha
  apply a.consumes
  . intro i hi
    exact h i (List.mem_flatMap.2 ⟨a, ha, hi⟩)
  . exact Nat.le_trans (length_le_length_tableBytes _ ha) hsize

/--
Reading annotations, wherever they stand, takes just the bytes that they are laid out in. It finds the
classes of the types that count as used, and no others.
-/
theorem reader_consumes (a : Attribute)
    (h : ∀ i ∈ a.types, pool.HasText i.toNat (describe i).text)
    : Consumes (a.reader pool) a.bytes
        (a.recorded.flatMap fun i => (describe i).classes) := by
  cases a with
  | annotations _ hlength => exact consumes_annotations hlength h
  | parameterAnnotations _ hlength hparameters =>
    exact consumes_parameterAnnotations hlength hparameters h
  | typeAnnotations _ hlength => exact consumes_typeAnnotations hlength h

end

theorem reader_consumes_localVariables :
    let pool : ConstantPool :=
      ⟨#[none, some (.utf8 "La/A;"), some (.utf8 "Lb/B;"), some (.utf8 "Lc/C;")]⟩
    let describe (i : UInt16) : Descriptor.MemberType :=
      if i = 1 then .field (.object "a/A" (by decide) (by decide))
      else if i = 2 then .field (.object "b/B" (by decide) (by decide))
      else .field (.object "c/C" (by decide) (by decide))
    let values : Fin 2 → Element := fun i =>
      if i = 0 then .array 1 fun _ => .nested 2 0 nofun nofun else .classLiteral 3
    let a : Attribute := .typeAnnotations [
      ⟨.localVariables 0x40 [(0, 9, 1)] (by decide) (by decide), [(0, 0)], by decide,
        1, 2, fun _ => 4, values⟩,
      ⟨.typeArgument 0x47 3 0 (by decide), [], by decide, 3, 0, nofun, nofun⟩] (by decide)
    (∀ i ∈ a.types, pool.HasText i.toNat (describe i).text)
      ∧ Consumes (a.reader pool) a.bytes ["a/A", "b/B"] := by
  intro pool describe values a
  have htypes : a.types = [1, 2, 3] := rfl
  have h : ∀ i ∈ a.types, pool.HasText i.toNat (describe i).text := by
    simp only [htypes, List.forall_mem_cons]
    exact ⟨rfl, rfl, rfl, nofun⟩
  exact ⟨h, reader_consumes a h⟩

end ArtifactAudit.ClassFile.Annotations
