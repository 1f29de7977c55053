import ArtifactAudit.ClassFile.Symbols
import ArtifactAudit.Proofs.ClassFile.Pool

/-!
This module contains the grammar of descriptors: the types of fields and methods, how they are written,
and which classes they name. Its main statement is that the texts that are written for types are the only
ones that are read without a fault, and that reading one finds the classes that its type names.
-/

namespace ArtifactAudit.ClassFile
namespace Descriptor

inductive Primitive where
  | byte
  | char
  | double
  | float
  | int
  | long
  | short
  | boolean
deriving DecidableEq, Repr

def Primitive.letter : Primitive → Char
  | .byte => 'B'
  | .char => 'C'
  | .double => 'D'
  | .float => 'F'
  | .int => 'I'
  | .long => 'J'
  | .short => 'S'
  | .boolean => 'Z'

inductive FieldType where
  | primitive (type : Primitive)
  | object (name : String) (name_ne : name ≠ "") (no_semicolon : ';' ∉ name.toList)
  | array (element : FieldType)
deriving DecidableEq, Repr

namespace FieldType

def chars : FieldType → List Char
  | .primitive type => [type.letter]
  | .object name _ _ => 'L' :: name.toList ++ [';']
  | .array element => '[' :: element.chars

def class? : FieldType → Option String
  | .primitive _ => none
  | .object name _ _ => some name
  | .array element => element.class?

end FieldType

inductive MemberType where
  | field (type : FieldType)
  | method (arguments : List FieldType) (result : Option FieldType)
deriving DecidableEq, Repr

namespace MemberType

def chars : MemberType → List Char
  | .field type => type.chars
  | .method arguments result =>
    '(' :: arguments.flatMap FieldType.chars ++ ')' :: result.elim ['V'] FieldType.chars

def text (type : MemberType) : String :=
  String.ofList type.chars

def classes : MemberType → List String
  | .field type => type.class?.toList
  | .method arguments result =>
    arguments.filterMap FieldType.class? ++ (result.bind FieldType.class?).toList

end MemberType

theorem fieldType?_bracket (cs : List Char) : fieldType? ('[' :: cs) = fieldType? cs := by
  simp [fieldType?]

theorem fieldType?_letter (type : Primitive) (rest : List Char)
    : fieldType? (type.letter :: rest) = some (none, rest) := by
  cases type <;> simp [fieldType?, Primitive.letter, isPrimitive]

theorem fieldType?_object {name : String} (hname : name ≠ "") (hplain : ';' ∉ name.toList)
    (rest : List Char)
    : fieldType? ('L' :: name.toList ++ ';' :: rest) = some (some name, rest) := by
  have hall : ∀ c ∈ name.toList, decide (c ≠ ';') = true := by
    intro c hc
    rw [decide_eq_true_iff]
    exact fun heq => hplain (heq ▸ hc)
  have htake : (name.toList ++ ';' :: rest).takeWhile (· ≠ ';') = name.toList := by
    rw [List.takeWhile_append_of_pos hall]
    simp
  have hdrop : (name.toList ++ ';' :: rest).dropWhile (· ≠ ';') = ';' :: rest := by
    rw [List.dropWhile_append_of_pos hall]
    simp
  have hempty : name.toList.isEmpty = false := by
    rw [List.isEmpty_eq_false_iff, ne_eq, String.toList_eq_nil_iff]
    exact hname
  have hletter : ('L' :: name.toList ++ ';' :: rest).dropWhile (· = '[')
      = 'L' :: (name.toList ++ ';' :: rest) := by
    simp
  unfold fieldType?
  simp only [hletter, htake, hdrop, hempty]
  simp

theorem fieldType?_chars (type : FieldType) (rest : List Char)
    : fieldType? (type.chars ++ rest) = some (type.class?, rest) := by
  induction type with
  | primitive type => exact fieldType?_letter type rest
  | object name hname hplain =>
    rw [FieldType.chars, List.append_assoc]
    apply fieldType?_object hname hplain
  | array element ih =>
    rw [FieldType.chars, List.cons_append, fieldType?_bracket, ih]
    rfl

theorem exists_chars_eq_cons (type : FieldType)
    : ∃ c cs, type.chars = c :: cs ∧ c ≠ '(' ∧ c ≠ ')' ∧ c ≠ 'V' := by
  cases type with
  | primitive type =>
    refine ⟨type.letter, [], rfl, ?_⟩
    cases type <;> decide
  | object name _ _ => exact ⟨'L', name.toList ++ [';'], rfl, by decide⟩
  | array element => exact ⟨'[', element.chars, rfl, by decide⟩

theorem arguments_parenthesis (rest : List Char) : arguments (')' :: rest) = ([], some rest) := by
  rw [arguments]

theorem arguments_chars (type : FieldType) (rest : List Char)
    : arguments (type.chars ++ rest)
        =
      (type.class?.toList ++ (arguments rest).1, (arguments rest).2) := by
  rcases exists_chars_eq_cons type with ⟨c, cs, hchars, _, hparenthesis, _⟩
  have hread := fieldType?_chars type rest
  rw [hchars, List.cons_append] at *
  rw [arguments]
  . split
    . next hnone => rw [hread] at hnone; cases hnone
    . next hsome =>
      rw [hread] at hsome
      cases hsome
      rfl
  . exact fun heq => hparenthesis heq

theorem arguments_flatMap_chars (types : List FieldType) (rest : List Char)
    : arguments (types.flatMap FieldType.chars ++ ')' :: rest)
        =
      (types.filterMap FieldType.class?, some rest) := by
  induction types with
  | nil => exact arguments_parenthesis rest
  | cons type types ih =>
    rw [List.flatMap_cons, List.append_assoc, arguments_chars, ih, List.filterMap_cons]
    cases type.class? <;> rfl

theorem scanField_chars (type : FieldType) : scanField type.chars = (type.class?.toList, true) := by
  have hread := fieldType?_chars type []
  rw [List.append_nil] at hread
  rw [scanField, hread]
  rfl

theorem scan_chars (type : MemberType) : scan type.chars = (type.classes, true) := by
  cases type with
  | field type =>
    rcases exists_chars_eq_cons type with ⟨c, cs, hchars, hopen, _, _⟩
    have hfield := scanField_chars type
    change scan type.chars = _
    rw [hchars] at *
    unfold scan
    split
    . next heq =>
      cases heq
      exact absurd rfl hopen
    . exact hfield
  | method args result =>
    change scan ('(' :: (args.flatMap FieldType.chars ++ ')' :: _)) = _
    unfold scan
    simp only [arguments_flatMap_chars]
    cases result with
    | none => simp [MemberType.classes]
    | some type =>
      rcases exists_chars_eq_cons type with ⟨c, cs, hchars, _, _, hvoid⟩
      have hfield := scanField_chars type
      rw [Option.elim_some, hchars] at *
      split
      . next heq => cases heq
      . next heq =>
        cases heq
        exact absurd rfl hvoid
      . next heq =>
        cases heq
        rw [hfield]
        rfl

theorem classes_text (type : MemberType) : classes type.text = .ok type.classes := by
  rw [classes, MemberType.text, String.toList_ofList, scan_chars]

theorem exists_letter_eq {c : Char} (h : isPrimitive c = true)
    : ∃ type : Primitive, type.letter = c := by
  simp only [isPrimitive, List.mem_cons, List.not_mem_nil, or_false, decide_eq_true_iff] at h
  rcases h with rfl | rfl | rfl | rfl | rfl | rfl | rfl | rfl
  . exact ⟨.byte, rfl⟩
  . exact ⟨.char, rfl⟩
  . exact ⟨.double, rfl⟩
  . exact ⟨.float, rfl⟩
  . exact ⟨.int, rfl⟩
  . exact ⟨.long, rfl⟩
  . exact ⟨.short, rfl⟩
  . exact ⟨.boolean, rfl⟩

theorem exists_object_of_dropWhile {cs rest : List Char} {c : Char}
    (hdrop : cs.dropWhile (· ≠ ';') = c :: rest) (hname : cs.takeWhile (· ≠ ';') ≠ [])
    : ∃ type : FieldType, type.chars ++ rest = 'L' :: cs
        ∧ type.class? = some (String.ofList (cs.takeWhile (· ≠ ';'))) := by
  have hsemicolon : c = ';' := by
    have hhead := List.head?_dropWhile_not (· ≠ ';') cs
    rw [hdrop] at hhead
    simpa using hhead
  have hplain : ';' ∉ cs.takeWhile (· ≠ ';') := by
    intro hmem
    have hall := List.all_eq_true.1 (List.all_takeWhile (p := (· ≠ ';')) (l := cs)) ';' hmem
    simp at hall
  refine ⟨.object (String.ofList (cs.takeWhile (· ≠ ';'))) ?_ ?_, ?_, rfl⟩
  . intro hempty
    rw [← String.toList_eq_nil_iff, String.toList_ofList] at hempty
    exact hname hempty
  . rwa [String.toList_ofList]
  . have hsplit := List.takeWhile_append_dropWhile (p := (· ≠ ';')) (l := cs)
    rw [hdrop, hsemicolon] at hsplit
    rw [FieldType.chars, String.toList_ofList]
    simpa using hsplit

theorem exists_of_fieldType? {cs rest : List Char} {name : Option String}
    (h : fieldType? cs = some (name, rest))
    : ∃ type : FieldType, type.chars ++ rest = cs ∧ type.class? = name := by
  induction cs with
  | nil => cases h
  | cons c cs ih =>
    by_cases hbracket : c = '['
    . rw [hbracket, fieldType?_bracket] at h
      rcases ih h with ⟨element, hchars, hclass⟩
      exact ⟨.array element, by rw [FieldType.chars, List.cons_append, hchars, hbracket], hclass⟩
    . have hdrop : (c :: cs).dropWhile (· = '[') = c :: cs := by simp [hbracket]
      unfold fieldType? at h
      rw [hdrop] at h
      split at h
      . next tail heq =>
        cases heq
        dsimp only at h
        split at h
        . next heq =>
          split at h
          . cases h
          . next hname =>
            cases h
            rw [List.isEmpty_iff] at hname
            exact exists_object_of_dropWhile heq hname
        . cases h
      . next heq =>
        cases heq
        split at h
        . next hprimitive =>
          rcases exists_letter_eq hprimitive with ⟨type, rfl⟩
          cases h
          exact ⟨.primitive type, rfl, rfl⟩
        . cases h
      . cases h

theorem exists_of_arguments {cs rest : List Char} {names : List String}
    (h : arguments cs = (names, some rest))
    : ∃ types : List FieldType, types.flatMap FieldType.chars ++ ')' :: rest = cs
        ∧ types.filterMap FieldType.class? = names := by
  fun_induction arguments cs generalizing names with
  | case1 => cases h
  | case2 => cases h; exact ⟨[], rfl, rfl⟩
  | case3 => cases h
  | case4 c tail hparen name after hread more found harguments ih =>
    cases h
    rcases exists_of_fieldType? hread with ⟨type, hchars, rfl⟩
    rcases ih harguments with ⟨types, hrest, rfl⟩
    refine ⟨type :: types, ?_, ?_⟩
    . rw [List.flatMap_cons, List.append_assoc, hrest, hchars]
    . rw [List.filterMap_cons]
      cases type.class? <;> rfl

theorem exists_of_scanField {cs : List Char} {names : List String}
    (h : scanField cs = (names, true))
    : ∃ type : FieldType, type.chars = cs ∧ type.class?.toList = names := by
  unfold scanField at h
  split at h
  . next rest heq =>
    rcases exists_of_fieldType? heq with ⟨type, rfl, rfl⟩
    rw [Prod.mk.injEq, List.isEmpty_iff] at h
    rcases h with ⟨rfl, rfl⟩
    exact ⟨type, (List.append_nil _).symm, rfl⟩
  . cases h

theorem exists_of_scan {cs : List Char} {names : List String} (h : scan cs = (names, true))
    : ∃ type : MemberType, type.chars = cs ∧ type.classes = names := by
  unfold scan at h
  split at h
  . next rest =>
    split at h
    . cases h
    . next heq =>
      rcases exists_of_arguments heq with ⟨args, rfl, rfl⟩
      cases h
      exact ⟨.method args none, by simp [MemberType.chars], by simp [MemberType.classes]⟩
    . next heq =>
      rcases exists_of_arguments heq with ⟨args, rfl, rfl⟩
      rw [Prod.mk.injEq] at h
      rcases h with ⟨rfl, hformed⟩
      rcases exists_of_scanField (Prod.ext rfl hformed) with ⟨result, rfl, _⟩
      exact ⟨.method args (some result), rfl, by rw [scanField_chars]; rfl⟩
  . rcases exists_of_scanField h with ⟨type, hchars, hclass⟩
    exact ⟨.field type, hchars, hclass⟩

/--
The texts that are written for types are the only descriptors, and reading one finds the classes that
its type names.
-/
theorem classes_eq_ok_iff (descriptor : String) (names : List String)
    : classes descriptor = .ok names
        ↔ ∃ type : MemberType, type.text = descriptor ∧ type.classes = names := by
  constructor
  . intro h
    unfold classes at h
    split at h
    . next heq =>
      cases h
      rcases exists_of_scan heq with ⟨type, hchars, hnames⟩
      exact ⟨type, by rw [MemberType.text, hchars, String.ofList_toList], hnames⟩
    . cases h
  . rintro ⟨type, rfl, rfl⟩
    exact classes_text type

theorem exists_hasText_of_classes {pool : ConstantPool} {index : Nat} {descriptor : String}
    {names : List String} (hindex : pool.utf8 index = .ok descriptor)
    (h : classes descriptor = .ok names)
    : ∃ type : MemberType, pool.HasText index type.text ∧ type.classes = names := by
  unfold classes at h
  split at h
  . next heq =>
    cases h
    rcases exists_of_scan heq with ⟨type, hchars, hnames⟩
    refine ⟨type, ?_, hnames⟩
    rw [MemberType.text, hchars, String.ofList_toList]
    exact ConstantPool.utf8_eq_ok_iff.1 hindex
  . cases h

end Descriptor

/--
What the owner of a member or the type of an object is told by: the name of a class, or an array type.
-/
inductive ClassType where
  | named (name : String) (no_array : isArrayName name = false)
  | array (element : Descriptor.FieldType)
deriving DecidableEq, Repr

namespace ClassType

def text : ClassType → String
  | .named name _ => name
  | .array element => (Descriptor.MemberType.field (.array element)).text

def classes : ClassType → List String
  | .named name _ => [name]
  | .array element => element.class?.toList

end ClassType

theorem ownerClasses_text (type : ClassType) : ownerClasses type.text = .ok type.classes := by
  cases type with
  | named name hname =>
    rw [ownerClasses, ClassType.text, hname]
    simp [plainClass, hname, ClassType.classes]
  | array element =>
    have harray : isArrayName (ClassType.array element).text = true := by
      simp [isArrayName, ClassType.text, Descriptor.MemberType.text, Descriptor.MemberType.chars,
        Descriptor.FieldType.chars]
    rw [ownerClasses, harray, if_pos rfl]
    apply Descriptor.classes_text

end ArtifactAudit.ClassFile
