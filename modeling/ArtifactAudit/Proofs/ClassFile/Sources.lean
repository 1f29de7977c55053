import ArtifactAudit.Proofs.ClassFile.AttributeOrder
import ArtifactAudit.Proofs.ClassFile.Descriptor

/-!
This module contains where the names of the classes that a class file uses come from. Its main statement
is that an array type is never taken for a class, unless a descriptor gives its name to one.
-/

namespace ArtifactAudit.ClassFile

variable {α β : Type} {pool : ConstantPool} {index : Nat} {names : List String}

namespace Reader

/--
Whether all that a reader can find has a property.
-/
def Finds (p : α → Prop) (reader : Reader α) : Prop :=
  ∀ c a after, reader c = .ok (a, after) → p a

variable {p : α → Prop} {q : β → Prop}

theorem Finds.bind {reader : Reader α} {next : α → Reader β} (h : Finds p reader)
    (hnext : ∀ a, p a → Finds q (next a))
    : Finds q (reader >>= next) := by
  intro c b after hrun
  rcases exists_of_bind hrun with ⟨a, between, hfirst, hrest⟩
  exact hnext a (h c a between hfirst) between b after hrest

theorem finds_bind {reader : Reader α} {next : α → Reader β} (hnext : ∀ a, Finds q (next a))
    : Finds q (reader >>= next) := by
  have htrivial : Finds (fun _ => True) reader := fun _ _ _ _ => trivial
  exact htrivial.bind fun a _ => hnext a

theorem finds_pure {a : α} (h : p a) : Finds p (pure a) := by
  intro c b after hrun
  cases hrun
  exact h

theorem finds_throw (fault : Fault) : Finds p (throw fault) :=
  fun _ _ _ => nofun

theorem finds_liftM {x : Except Fault α} (h : ∀ a, x = .ok a → p a) : Finds p (liftM x) := by
  cases x with
  | ok a => exact finds_pure (h a rfl)
  | error fault => exact finds_throw fault

theorem finds_liftM_bind {x : Except Fault α} {next : α → Reader β}
    (hnext : ∀ a, x = .ok a → Finds q (next a))
    : Finds q (liftM x >>= next) := by
  intro c b after hrun
  rcases exists_of_liftM_bind hrun with ⟨a, ha, hrest⟩
  exact hnext a ha c b after hrest

theorem Finds.times {reader : Reader α} (h : Finds p reader) (count : Nat)
    : Finds (∀ a ∈ ·, p a) (times count reader) := by
  induction count with
  | zero => exact finds_pure nofun
  | succ count ih =>
    rw [times_succ]
    refine h.bind fun a ha => ih.bind fun as has => ?_
    exact finds_pure (List.forall_mem_cons.2 ⟨ha, has⟩)

theorem Finds.table {reader : Reader α} (h : Finds p reader) : Finds (∀ a ∈ ·, p a) (table reader) :=
  finds_bind h.times

theorem Finds.within {reader : Reader α} (h : Finds p reader) {c : Cursor} {a : α}
    (hrun : within c reader = .ok a)
    : p a := by
  rcases exists_of_within hrun with ⟨after, hrun⟩
  exact h c a after hrun

end Reader

open Reader

namespace ConstantPool

/--
Whether a constant pool names a class: as a class that is no array type, or in a descriptor.
-/
inductive Names (pool : ConstantPool) (name : String) : Prop where
  | plain {index : Nat} (constant : pool.HasClass index name) (no_array : isArrayName name = false)
  | described {index : Nat} {type : Descriptor.MemberType} (text : pool.HasText index type.text)
      (mem : name ∈ type.classes)

def NamesAll (pool : ConstantPool) (names : List String) : Prop :=
  ∀ name ∈ names, pool.Names name

theorem namesAll_nil : pool.NamesAll [] :=
  nofun

theorem NamesAll.append {others : List String} (h : pool.NamesAll names) (h' : pool.NamesAll others)
    : pool.NamesAll (names ++ others) :=
  List.forall_mem_append.2 ⟨h, h'⟩

theorem NamesAll.flatten {found : List (List String)} (h : ∀ names ∈ found, pool.NamesAll names)
    : pool.NamesAll found.flatten := by
  intro name hname
  rcases List.mem_flatten.1 hname with ⟨names, hnames, hmem⟩
  exact h names hnames name hmem

theorem namesAll_of_classes {descriptor : String} (hindex : pool.HasText index descriptor)
    (h : Descriptor.classes descriptor = .ok names)
    : pool.NamesAll names := by
  rcases Descriptor.exists_hasText_of_classes (utf8_eq_ok hindex) h with ⟨type, htext, rfl⟩
  exact fun name hname => .described htext hname

theorem namesAll_of_plainClass {name : String} (hindex : pool.HasClass index name)
    (h : plainClass name = .ok names)
    : pool.NamesAll names := by
  unfold plainClass at h
  split at h
  . cases h
  . next hname =>
    cases h
    rw [Bool.not_eq_true] at hname
    exact List.forall_mem_singleton.2 (.plain hindex hname)

theorem namesAll_of_ownerClasses {owner : String} (hindex : pool.HasClass index owner)
    (h : ownerClasses owner = .ok names)
    : pool.NamesAll names := by
  unfold ownerClasses at h
  split at h
  . rcases hindex with ⟨place, _, htext⟩
    exact namesAll_of_classes htext h
  . exact namesAll_of_plainClass hindex h

end ConstantPool

open ConstantPool

namespace Annotations

theorem finds_descriptorAt (pool : ConstantPool) : Finds pool.NamesAll (descriptorAt pool) := by
  refine finds_bind fun index => finds_liftM_bind fun descriptor hindex => ?_
  exact finds_liftM fun names h => namesAll_of_classes (utf8_eq_ok_iff.1 hindex) h

theorem finds_annotationWith {element : Reader (List String)} (h : Finds pool.NamesAll element)
    : Finds pool.NamesAll (annotationWith pool element) := by
  refine (finds_descriptorAt pool).bind fun type htype => ?_
  have hvalues : Finds pool.NamesAll (do Reader.skip 2; element) := finds_bind fun _ => h
  exact hvalues.table.bind fun values hfound => finds_pure (htype.append (.flatten hfound))

theorem finds_elementValueWithin (pool : ConstantPool) (size : Nat)
    : Finds pool.NamesAll (elementValueWithin pool size) := by
  induction size with
  | zero => exact finds_bind fun _ => finds_pure namesAll_nil
  | succ size ih =>
    refine finds_bind fun tag => ?_
    dsimp only
    split
    . exact finds_bind fun _ => finds_pure namesAll_nil
    . split
      . refine finds_bind fun type => finds_bind fun _ => finds_liftM_bind fun descriptor htype => ?_
        exact finds_liftM fun names h => namesAll_of_classes (utf8_eq_ok_iff.1 htype) h
      . split
        . exact finds_annotationWith ih
        . split
          . exact ih.table.bind fun values hfound => finds_pure (.flatten hfound)
          . exact finds_throw _

theorem finds_elementValue (pool : ConstantPool) : Finds pool.NamesAll (elementValue pool) :=
  finds_bind (finds_elementValueWithin pool)

theorem finds_annotationWithin (pool : ConstantPool) (size : Nat)
    : Finds pool.NamesAll (annotationWithin pool size) :=
  finds_annotationWith (finds_elementValueWithin pool size)

theorem finds_annotationsWithin (pool : ConstantPool) (size : Nat)
    : Finds pool.NamesAll (annotationsWithin pool size) :=
  (finds_annotationWithin pool size).table.bind fun _ hfound => finds_pure (.flatten hfound)

theorem finds_annotations (pool : ConstantPool) : Finds pool.NamesAll (annotations pool) :=
  finds_bind (finds_annotationsWithin pool)

theorem finds_parameterAnnotations (pool : ConstantPool)
    : Finds pool.NamesAll (parameterAnnotations pool) := by
  refine finds_bind fun size => finds_bind fun count => ?_
  exact ((finds_annotationsWithin pool size).times _).bind fun _ hfound => finds_pure (.flatten hfound)

theorem finds_typeAnnotationWithin (pool : ConstantPool) (size : Nat)
    : Finds pool.NamesAll (typeAnnotationWithin pool size) := by
  refine finds_bind fun kind => ?_
  split
  . exact finds_throw _
  . refine finds_bind fun _ => finds_bind fun count => finds_bind fun _ => ?_
    refine (finds_annotationWithin pool size).bind fun found hfound => ?_
    split
    . exact finds_pure namesAll_nil
    . exact finds_pure hfound

theorem finds_typeAnnotations (pool : ConstantPool) : Finds pool.NamesAll (typeAnnotations pool) := by
  refine finds_bind fun size => ?_
  exact (finds_typeAnnotationWithin pool size).table.bind fun _ hfound => finds_pure (.flatten hfound)

end Annotations

namespace Code

variable {context : Context}

theorem Operands.finds_read (position : Nat) (operands : Operands)
    : Finds context.pool.NamesAll (operands.read context position) := by
  cases operands with
  | plain length => exact finds_bind fun _ => finds_pure namesAll_nil
  | type length =>
    refine finds_bind fun index => finds_liftM_bind fun owner howner => ?_
    refine finds_liftM_bind fun found hfound => finds_bind fun _ => finds_pure ?_
    exact namesAll_of_ownerClasses (hasClass_of_className howner) hfound
  | member length =>
    refine finds_bind fun index => finds_liftM_bind fun (owner, descriptor) hmember => ?_
    refine finds_liftM_bind fun owners howners => finds_liftM_bind fun found hfound => ?_
    refine finds_bind fun _ => finds_pure ?_
    rcases hasMember_of_member hmember with ⟨_, _, _, howner, _, _, _, _, htype⟩
    exact (namesAll_of_ownerClasses howner howners).append (namesAll_of_classes htype hfound)
  | callSite =>
    refine finds_bind fun index => finds_liftM_bind fun (bootstrap, descriptor) hsite => ?_
    refine finds_bind fun _ => finds_liftM_bind fun found hfound => ?_
    dsimp only
    split
    . exact finds_throw _
    . refine finds_liftM_bind fun (owner, described) hhandle => ?_
      refine finds_liftM_bind fun owners howners => finds_liftM_bind fun more hmore => finds_pure ?_
      rcases hasCallSite_of_callSite hsite with ⟨_, _, _, _, _, _, htype⟩
      rcases hasHandle_of_handle hhandle with ⟨_, _, _, _, _, _, howner, _, _, _, _, htype'⟩
      have hnames := namesAll_of_classes htype hfound
      exact (hnames.append (namesAll_of_plainClass howner howners)).append
        (namesAll_of_classes htype' hmore)
  | wide => exact finds_bind fun _ => finds_bind fun _ => finds_pure namesAll_nil
  | tableSwitch =>
    refine finds_bind fun _ => finds_bind fun _ => finds_bind fun low => finds_bind fun high => ?_
    extract_lets targets rest
    have hrest : ∀ u, Finds context.pool.NamesAll (rest u) :=
      fun _ => finds_bind fun _ => finds_pure namesAll_nil
    split
    . exact finds_bind hrest
    . exact hrest ()
  | lookupSwitch =>
    refine finds_bind fun _ => finds_bind fun _ => finds_bind fun pairs => ?_
    extract_lets rest
    have hrest : ∀ u, Finds context.pool.NamesAll (rest u) :=
      fun _ => finds_bind fun _ => finds_pure namesAll_nil
    split
    . exact finds_bind hrest
    . exact hrest ()

theorem finds_instruction (position : Nat)
    : Finds context.pool.NamesAll (instruction context position) := by
  refine finds_bind fun opcode => ?_
  split
  . next operands _ => exact operands.finds_read position
  . exact finds_throw _

theorem namesAll_of_instructions {code : Cursor} (h : instructions context code = .ok names)
    : context.pool.NamesAll names := by
  suffices hgo : ∀ count found c, context.pool.NamesAll found →
      instructions.go context code count found c = .ok names → context.pool.NamesAll names from
    hgo _ _ _ namesAll_nil h
  clear h
  intro count
  induction count with
  | zero =>
    intro found c hfound h
    cases h
    exact hfound
  | succ count ih =>
    intro found c hfound h
    rw [instructions.go] at h
    split at h
    . cases h
      exact hfound
    . split at h
      . next new after hrun =>
        have hnew : context.pool.NamesAll new := finds_instruction _ _ _ _ hrun
        exact ih _ _ (hnew.append hfound) h
      . cases h

theorem finds_handler (pool : ConstantPool) : Finds pool.NamesAll (handler pool) := by
  refine finds_bind fun _ => finds_bind fun type => ?_
  split
  . exact finds_pure namesAll_nil
  . refine finds_liftM_bind fun name hname => finds_liftM fun names h => ?_
    exact namesAll_of_plainClass (hasClass_of_className hname) h

theorem finds_localVariable (pool : ConstantPool) : Finds pool.NamesAll (localVariable pool) := by
  refine finds_bind fun _ => finds_bind fun index => finds_bind fun _ => ?_
  refine finds_liftM_bind fun descriptor hindex => finds_liftM fun names h => ?_
  exact namesAll_of_classes (utf8_eq_ok_iff.1 hindex) h

theorem namesAll_of_nestedAttribute {name : String} {part : Cursor}
    (h : nestedAttribute context name part = .ok names)
    : context.pool.NamesAll names := by
  unfold nestedAttribute at h
  split at h
  . have hvariables : Finds context.pool.NamesAll
        (do return (← table (localVariable context.pool)).flatten) :=
      (finds_localVariable context.pool).table.bind fun _ hfound => finds_pure (.flatten hfound)
    exact hvariables.within h
  . split at h
    . exact (Annotations.finds_typeAnnotations context.pool).within h
    . cases h
      exact namesAll_nil

theorem finds_body (context : Context) : Finds context.pool.NamesAll (body context) := by
  refine finds_bind fun _ => finds_bind fun length => finds_bind fun code => ?_
  refine finds_liftM_bind fun used hused => ?_
  refine (finds_handler context.pool).table.bind fun caught hcaught => ?_
  have hattribute : Finds context.pool.NamesAll (do
      let name ← context.pool.utf8 (← u16)
      let part ← part (← u32)
      nestedAttribute context name part) := by
    refine finds_bind fun index => finds_bind fun name => finds_bind fun length => ?_
    exact finds_bind fun part => finds_liftM fun names h => namesAll_of_nestedAttribute h
  refine hattribute.table.bind fun more hmore => finds_pure ?_
  exact ((namesAll_of_instructions hused).append (.flatten hcaught)).append (.flatten hmore)

end Code

theorem namesAll_of_annotationAttribute {part : Attribute}
    (h : annotationAttribute pool part = .ok names)
    : pool.NamesAll names := by
  unfold annotationAttribute at h
  split at h
  . exact (Annotations.finds_annotations pool).within h
  . exact (Annotations.finds_annotations pool).within h
  . exact (Annotations.finds_typeAnnotations pool).within h
  . exact (Annotations.finds_typeAnnotations pool).within h
  . cases h
    exact namesAll_nil

theorem namesAll_of_methodAttribute {context : Code.Context} {part : Attribute}
    (h : methodAttribute context part = .ok names)
    : context.pool.NamesAll names := by
  unfold methodAttribute at h
  split at h
  . exact (Code.finds_body context).within h
  . exact (Annotations.finds_elementValue context.pool).within h
  . exact (Annotations.finds_parameterAnnotations context.pool).within h
  . exact (Annotations.finds_parameterAnnotations context.pool).within h
  . exact namesAll_of_annotationAttribute h

theorem namesAll_of_member {visit : Attribute → Except Fault (List String)} {m : Member}
    (hdescriptor : ∃ index, pool.HasText index m.descriptor)
    (hvisit : ∀ part found, visit part = .ok found → pool.NamesAll found)
    (h : (do
        let type ← Descriptor.classes m.descriptor
        let found ← m.attributes.mapM visit
        return type ++ found.flatten) = .ok names)
    : pool.NamesAll names := by
  rcases hdescriptor with ⟨index, hindex⟩
  rcases exists_of_bind_eq_ok h with ⟨type, htype, h⟩
  rcases exists_of_bind_eq_ok h with ⟨found, hfound, h⟩
  cases h
  have hparts := forall_mem_of_mapM_eq_ok hfound fun part _ => hvisit part
  exact (namesAll_of_classes hindex htype).append (.flatten hparts)

theorem namesAll_of_tell {name : String} {part : Attribute} {new : Told}
    (h : tell pool name part = .ok new)
    : pool.NamesAll new.used := by
  unfold tell at h
  split at h
  . rcases exists_of_bind_eq_ok h with ⟨handles, _, h⟩
    cases h
    exact namesAll_nil
  . split at h
    . rcases exists_of_bind_eq_ok h with ⟨inner, _, h⟩
      cases h
      exact namesAll_nil
    . rcases exists_of_bind_eq_ok h with ⟨used, hused, h⟩
      cases h
      exact namesAll_of_annotationAttribute hused

theorem namesAll_of_told {file : Layout} {told : ClassAttributes} (h : file.told = .ok told)
    : file.pool.NamesAll told.used := by
  rw [Layout.told, ClassAttributes.foldlM_add_eq] at h
  rcases exists_of_bind_eq_ok h with ⟨news, hnews, h⟩
  cases h
  have hused := forall_mem_of_mapM_eq_ok hnews fun part _ _ => namesAll_of_tell
  rw [ClassAttributes.foldl_join_eq, List.nil_append]
  intro name hname
  rcases List.mem_flatMap.1 hname with ⟨new, hnew, hmem⟩
  exact hused new hnew name hmem

structure Layout.Sourced (file : Layout) : Prop where
  supertypes : file.pool.NamesAll file.supertypes
  fields : ∀ m ∈ file.fields, ∃ index, file.pool.HasText index m.descriptor
  methods : ∀ m ∈ file.methods, ∃ index, file.pool.HasText index m.descriptor

theorem Layout.Sourced.namesAll_used {file : Layout} (hfile : file.Sourced) {skipDebug : Bool}
    {symbols : Symbols} (h : file.symbols skipDebug = .ok symbols)
    : ∀ name ∈ symbols.used, file.pool.Names name := by
  rcases symbols_eq_ok_iff.1 h with ⟨told, fields, methods, htold, hfields, hmethods, rfl⟩
  have hfields := forall_mem_of_mapM_eq_ok hfields fun m hm _ =>
    namesAll_of_member (hfile.fields m hm) fun _ _ => namesAll_of_annotationAttribute
  have hmethods := forall_mem_of_mapM_eq_ok hmethods fun m hm _ =>
    namesAll_of_member (hfile.methods m hm) fun _ _ => namesAll_of_methodAttribute
  have hclass := hfile.supertypes.append (namesAll_of_told htold)
  intro name hname
  rw [NameSet.mem_ofList] at hname
  exact ((hclass.append (.flatten hfields)).append (.flatten hmethods)) name hname

namespace WrittenClass

variable {f : WrittenClass}

theorem namesAll_of_extended (h : f.extended = .ok names) : f.pool.NamesAll names := by
  unfold extended at h
  split at h
  . cases h
    exact namesAll_nil
  . rcases exists_of_bind_eq_ok h with ⟨name, hname, h⟩
    exact namesAll_of_plainClass (hasClass_of_className hname) h

theorem namesAll_of_implemented {found : List (List String)} (h : f.implemented = .ok found)
    : f.pool.NamesAll found.flatten := by
  refine .flatten (forall_mem_of_mapM_eq_ok h ?_)
  intro i _ names hnames
  rcases exists_of_bind_eq_ok hnames with ⟨name, hname, hplain⟩
  exact namesAll_of_plainClass (hasClass_of_className hname) hplain

theorem sourced_of_layout {file : Layout} (h : f.layout = .ok file)
    : file.pool = f.pool ∧ file.Sourced := by
  rcases exists_of_layout h with
    ⟨_, _, hextended, himplemented, hfields, hmethods, hpool, hsupertypes⟩
  have hdescriptor : ∀ (m : WrittenMember) (member : Member), m.meaning f.pool = .ok member →
      ∃ index, f.pool.HasText index member.descriptor :=
    fun _ _ hmember => ⟨_, (WrittenMember.hasText_of_meaning hmember).1⟩
  rw [← hpool] at hdescriptor hfields hmethods
  refine ⟨hpool, ?_, ?_, ?_⟩
  . rw [hpool, hsupertypes]
    exact (namesAll_of_extended hextended).append (namesAll_of_implemented himplemented)
  . exact forall_mem_of_mapM_eq_ok hfields fun m _ => hdescriptor m
  . exact forall_mem_of_mapM_eq_ok hmethods fun m _ => hdescriptor m

end WrittenClass

theorem exists_namesAll_of_extract {skipDebug : Bool} {bytes : List UInt8} {symbols : Symbols}
    (h : extract skipDebug bytes = .ok symbols)
    : ∃ f : WrittenClass, f.bytes = bytes ∧ ∀ name ∈ symbols.used, f.pool.Names name := by
  rcases exists_bytes_eq_of_extract h with ⟨f, rfl⟩
  rcases extract_bytes_eq_ok_iff.1 h with ⟨file, hfile, hsymbols⟩
  rcases WrittenClass.sourced_of_layout hfile with ⟨hpool, hsourced⟩
  exact ⟨f, rfl, hpool ▸ hsourced.namesAll_used hsymbols⟩

/--
A class that is used under the name of an array type is named so by a descriptor, as the class of an
object type. The names of classes and of the owners of members are never taken for such a class.
-/
theorem exists_descriptor_of_isArrayName {skipDebug : Bool} {bytes : List UInt8} {symbols : Symbols}
    (h : extract skipDebug bytes = .ok symbols)
    : ∃ f : WrittenClass, f.bytes = bytes ∧ ∀ name ∈ symbols.used, isArrayName name = true →
        ∃ index, ∃ type : Descriptor.MemberType, f.pool.HasText index type.text
          ∧ name ∈ type.classes := by
  rcases exists_namesAll_of_extract h with ⟨f, hbytes, hnames⟩
  refine ⟨f, hbytes, fun name hname harray => ?_⟩
  cases hnames name hname with
  | plain _ no_array =>
    rw [harray] at no_array
    cases no_array
  | described text mem => exact ⟨_, _, text, mem⟩

theorem exists_descriptor_of_isArrayName_field :
    let bytes : List UInt8 := [202, 254, 186, 190, 0, 0, 0, 61, 0, 6, 1, 0, 3, 98, 47, 66, 7, 0, 1, 1,
      0, 1, 102, 1, 0, 4, 76, 91, 97, 59, 1, 0, 6, 91, 76, 97, 47, 65, 59, 0, 33, 0, 2, 0, 0, 0, 0, 0,
      2, 0, 0, 0, 3, 0, 4, 0, 0, 0, 0, 0, 3, 0, 5, 0, 0, 0, 0, 0, 0]
    extract true bytes = .ok ⟨.ofList ["b/B"], .ofList ["[a", "a/A"]⟩
      ∧ ∃ f : WrittenClass, f.bytes = bytes ∧ ∀ name ∈ NameSet.ofList ["[a", "a/A"],
        isArrayName name = true → ∃ index, ∃ type : Descriptor.MemberType,
          f.pool.HasText index type.text ∧ name ∈ type.classes := by
  intro bytes
  have h : extract true bytes = .ok ⟨.ofList ["b/B"], .ofList ["[a", "a/A"]⟩ := by decide +kernel
  exact ⟨h, exists_descriptor_of_isArrayName h⟩

/--
Not every class that is used is told apart from array types.
-/
theorem extract_isArrayName :
    ¬ ∀ (skipDebug : Bool) (bytes : List UInt8) (symbols : Symbols),
        extract skipDebug bytes = .ok symbols → ∀ name ∈ symbols.used, isArrayName name = false := by
  intro hall
  let bytes : List UInt8 := [202, 254, 186, 190, 0, 0, 0, 61, 0, 5, 1, 0, 3, 98, 47, 66, 7, 0, 1, 1, 0,
    1, 102, 1, 0, 4, 76, 91, 97, 59, 0, 33, 0, 2, 0, 0, 0, 0, 0, 1, 0, 0, 0, 3, 0, 4, 0, 0, 0, 0, 0, 0]
  have h : extract false bytes = .ok ⟨.ofList ["b/B"], .ofList ["[a"]⟩ := by decide +kernel
  have hname := hall _ _ _ h "[a" (by decide)
  cases hname

end ArtifactAudit.ClassFile
