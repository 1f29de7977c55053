import ArtifactAudit.Proofs.ClassFile.Alike
import ArtifactAudit.Proofs.ClassFile.Constants
import ArtifactAudit.Proofs.ClassFile.Spelled

/-!
This module contains that neither the order of attributes matters nor those that nothing is read from.
Its main statement is that class files have the same symbols if they are written with rearranged
attributes: those of the class, of its fields and methods, and of the bodies of its methods. No class file
with symbols is left out by this, as `exists_bytes_eq_of_extract` says.
-/

namespace ArtifactAudit.ClassFile

open Reader

variable {skipDebug : Bool} {f g : WrittenClass}

def WrittenAttribute.Unknown (pool : ConstantPool) (names : List String) (a : WrittenAttribute) : Prop :=
  ∃ name, pool.HasText a.name.toNat name ∧ name ∉ names

/--
The attributes of the body of a method that something is read from. Those of local variables are there
for debugging only.
-/
def codeNames (skipDebug : Bool) : List String :=
  (if skipDebug then [] else ["LocalVariableTable"]) ++
    ["RuntimeVisibleTypeAnnotations", "RuntimeInvisibleTypeAnnotations"]

structure WrittenCode.Rearranged (pool : ConstantPool) (skipDebug : Bool) (c c' : WrittenCode)
    : Prop where
  apart : { c with attributes := c'.attributes } = c'
  attributes : ClassFile.Rearranged Eq (·.Unknown pool (codeNames skipDebug)) c.attributes.entries
    c'.attributes.entries

inductive WrittenAttribute.Rearranged (pool : ConstantPool) (skipDebug : Bool)
    : WrittenAttribute → WrittenAttribute → Prop where
  | same (a : WrittenAttribute) : Rearranged pool skipDebug a a
  | code {a a' : WrittenAttribute} {c c' : WrittenCode} (name : a.name = a'.name)
    (code : pool.HasText a.name.toNat "Code") (body : a.body = c.bytes) (body' : a'.body = c'.bytes)
    (rearranged : c.Rearranged pool skipDebug c')
    : Rearranged pool skipDebug a a'

structure WrittenMember.Rearranged (pool : ConstantPool)
    (Same : WrittenAttribute → WrittenAttribute → Prop) (names : List String) (m m' : WrittenMember)
    : Prop where
  apart : { m with attributes := m'.attributes } = m'
  attributes : ClassFile.Rearranged Same (·.Unknown pool names) m.attributes.entries
    m'.attributes.entries

/--
Whether two class files differ at most in the attributes of the class and of its members, which are
rearranged.
-/
structure WrittenClass.Rearranged (skipDebug : Bool) (f g : WrittenClass) : Prop where
  apart : { f with fields := g.fields, methods := g.methods, attributes := g.attributes } = g
  fields : List.Forall₂ (WrittenMember.Rearranged f.pool Eq annotationNames) f.fields.entries
    g.fields.entries
  methods : List.Forall₂
    (WrittenMember.Rearranged f.pool (WrittenAttribute.Rearranged f.pool skipDebug) methodNames)
    f.methods.entries g.methods.entries
  attributes : ClassFile.Rearranged Eq (·.Unknown f.pool classNames) f.attributes.entries
    g.attributes.entries

def WrittenClass.bootstrapCount (f : WrittenClass) : Nat :=
  f.attributes.entries.countP fun a => f.pool.HasText a.name.toNat "BootstrapMethods"

theorem nestedAttribute_eq_nil {context : Code.Context} {name : String}
    (h : name ∉ codeNames context.skipDebug) (c : Cursor)
    : Code.nestedAttribute context name c = .ok [] := by
  unfold codeNames at h
  rcases hskip : context.skipDebug with _ | _ <;> simp_all [Code.nestedAttribute]

theorem WrittenAttribute.meaning_eq_ok {pool : ConstantPool} {a : WrittenAttribute} {name : String}
    (h : pool.HasText a.name.toNat name)
    : a.meaning pool = .ok ⟨name, .start a.body⟩ := by
  rw [meaning, ConstantPool.utf8_eq_ok h]
  rfl

theorem WrittenAttribute.Unknown.exists_meaning_eq {pool : ConstantPool} {names : List String}
    {a : WrittenAttribute} (h : a.Unknown pool names)
    : ∃ part, a.meaning pool = .ok part ∧ part.name ∉ names := by
  rcases h with ⟨name, hname, hunknown⟩
  exact ⟨_, meaning_eq_ok hname, hunknown⟩

theorem WrittenCode.Rearranged.classes_agree (context : Code.Context) {c c' : WrittenCode}
    (h : c.Rearranged context.pool context.skipDebug c')
    : Agree List.Perm (c.classes context) (c'.classes context) := by
  rw [← h.apart]
  apply Agree.bind_same
  intro used
  apply Agree.bind_same
  intro caught
  have hmore := h.attributes.mapM_flatten (f := attributeClasses context) (g := attributeClasses context)
    ?_ ?_
  . exact hmore.bind fun _ _ hperm => .ok (hperm.append_left _)
  . rintro a _ rfl
    exact .refl List.Perm.refl _
  . rintro a ⟨name, hname, hunknown⟩
    rw [attributeClasses, ConstantPool.utf8_eq_ok hname]
    exact nestedAttribute_eq_nil hunknown _

theorem WrittenCode.methodAttribute_agree (context : Code.Context) (c : WrittenCode)
    : Agree Eq (methodAttribute context ⟨"Code", .start c.bytes⟩) (c.classes context) :=
  (c.reads context).within 0 c.trailing

theorem WrittenAttribute.Rearranged.meaning_agree {pool : ConstantPool} {a a' : WrittenAttribute}
    (h : a.Rearranged pool skipDebug a')
    : Agree (Attribute.AlikeInMethod pool skipDebug) (a.meaning pool) (a'.meaning pool) := by
  cases h with
  | same => exact .refl (fun _ _ => .refl List.Perm.refl _) _
  | @code _ c c' name code body body' rearranged =>
    rw [meaning_eq_ok code, meaning_eq_ok (name ▸ code), body, body']
    apply Agree.ok
    intro bootstraps
    apply (c.methodAttribute_agree _).congr (c'.methodAttribute_agree _)
    exact WrittenCode.Rearranged.classes_agree ⟨pool, bootstraps, skipDebug⟩ rearranged

theorem WrittenMember.Rearranged.meaning_agree {pool : ConstantPool}
    {SameWritten : WrittenAttribute → WrittenAttribute → Prop} {Same : Attribute → Attribute → Prop}
    {names : List String} {m m' : WrittenMember} (h : m.Rearranged pool SameWritten names m')
    (hsame : ∀ a a', SameWritten a a' → Agree Same (a.meaning pool) (a'.meaning pool))
    : Agree (Member.Alike Same (·.name ∉ names)) (m.meaning pool) (m'.meaning pool) := by
  rw [← h.apart]
  apply Agree.bind_same
  intro descriptor
  apply (h.attributes.mapM hsame fun a ha => ha.exists_meaning_eq).bind
  exact fun as as' hattributes => .ok ⟨rfl, hattributes⟩

theorem WrittenAttribute.meaning_agree_of_eq {pool : ConstantPool} {a a' : WrittenAttribute} (h : a = a')
    : Agree Attribute.Same (a.meaning pool) (a'.meaning pool) :=
  h ▸ .refl (fun _ => ⟨rfl, rfl⟩) _

theorem WrittenAttribute.name_eq_iff_hasText {pool : ConstantPool} {a : WrittenAttribute}
    {part : Attribute} {name : String} (h : a.meaning pool = .ok part)
    : part.name = name ↔ pool.HasText a.name.toNat name := by
  rcases exists_of_bind_eq_ok h with ⟨text, htext, hpart⟩
  cases hpart
  rw [← ConstantPool.utf8_eq_ok_iff, htext, Except.ok.injEq]

theorem WrittenMember.hasText_of_meaning {pool : ConstantPool} {m : WrittenMember} {member : Member}
    (h : m.meaning pool = .ok member)
    : pool.HasText m.descriptor.toNat member.descriptor
        ∧ m.attributes.entries.mapM (WrittenAttribute.meaning pool) = .ok member.attributes := by
  rcases exists_of_bind_eq_ok h with ⟨descriptor, hdescriptor, h⟩
  rcases exists_of_bind_eq_ok h with ⟨attributes, hattributes, h⟩
  cases h
  exact ⟨ConstantPool.utf8_eq_ok_iff.1 hdescriptor, hattributes⟩

theorem WrittenClass.exists_of_layout {f : WrittenClass} {file : Layout} (h : f.layout = .ok file)
    : ∃ extended implemented, f.extended = .ok extended ∧ f.implemented = .ok implemented
        ∧ f.fields.entries.mapM (WrittenMember.meaning f.pool) = .ok file.fields
        ∧ f.methods.entries.mapM (WrittenMember.meaning f.pool) = .ok file.methods
        ∧ file.pool = f.pool ∧ file.supertypes = extended ++ implemented.flatten := by
  rcases exists_of_bind_eq_ok h with ⟨name, _, h⟩
  rcases exists_of_bind_eq_ok h with ⟨extended, hextended, h⟩
  rcases exists_of_bind_eq_ok h with ⟨implemented, himplemented, h⟩
  rcases exists_of_bind_eq_ok h with ⟨fields, hfields, h⟩
  rcases exists_of_bind_eq_ok h with ⟨methods, hmethods, h⟩
  rcases exists_of_bind_eq_ok h with ⟨attributes, _, h⟩
  cases h
  exact ⟨extended, implemented, hextended, himplemented, hfields, hmethods, rfl, rfl⟩

theorem bootstrapCount_eq {pool : ConstantPool} {entries : List WrittenAttribute} {as : List Attribute}
    (h : entries.mapM (WrittenAttribute.meaning pool) = .ok as)
    : bootstrapCount as = entries.countP fun a => pool.HasText a.name.toNat "BootstrapMethods" :=
  countP_of_mapM_eq_ok h fun _ _ hpart => decide_eq_decide.2 (WrittenAttribute.name_eq_iff_hasText hpart)

theorem WrittenClass.Rearranged.layout_agree (h : f.Rearranged skipDebug g)
    (hcount : f.bootstrapCount ≤ 1)
    : Agree (Layout.Alike skipDebug) f.layout g.layout := by
  rw [← h.apart]
  apply Agree.bind_same
  intro name
  apply Agree.bind_same
  intro extended
  apply Agree.bind_same
  intro implemented
  apply (Agree.mapM h.fields fun _ _ hfield =>
    hfield.meaning_agree fun _ _ => WrittenAttribute.meaning_agree_of_eq).bind
  intro fields fields' hfields
  apply (Agree.mapM h.methods fun _ _ hmethod =>
    hmethod.meaning_agree fun _ _ => WrittenAttribute.Rearranged.meaning_agree).bind
  intro methods methods' hmethods
  have hattributes := h.attributes.mapM (fun _ _ => WrittenAttribute.meaning_agree_of_eq)
    fun a ha => ha.exists_meaning_eq
  apply hattributes.attach.bind
  rintro attributes attributes' ⟨hread, _, hrearranged⟩
  rw [WrittenClass.bootstrapCount, ← bootstrapCount_eq hread] at hcount
  exact .ok ⟨rfl, rfl, rfl, told_agree rfl rfl hrearranged hcount, hfields, hmethods⟩

theorem extract_agree_layout (skipDebug : Bool) (f : WrittenClass)
    : Agree Eq (extract skipDebug f.bytes) (f.layout >>= fun file => file.symbols skipDebug) :=
  ((reads_layout f).within 0 f.trailing).bind fun _ _ hsame => hsame.alike.symbols_agree

theorem extract_bytes_eq_ok_iff {f : WrittenClass} {skipDebug : Bool} {symbols : Symbols}
    : extract skipDebug f.bytes = .ok symbols
        ↔ ∃ file, f.layout = .ok file ∧ file.symbols skipDebug = .ok symbols := by
  rw [(extract_agree_layout skipDebug f).eq_ok_iff]
  constructor
  . exact exists_of_bind_eq_ok
  . rintro ⟨file, hfile, hsymbols⟩
    rw [hfile]
    exact hsymbols

/--
Class files that are written with rearranged attributes have the same symbols, or both of them have none.
Only several tables of bootstrap methods could be told apart by their order.
-/
theorem extract_toOption_eq_of_rearranged (h : f.Rearranged skipDebug g) (hcount : f.bootstrapCount ≤ 1)
    : (extract skipDebug f.bytes).toOption = (extract skipDebug g.bytes).toOption := by
  have hlayout := (h.layout_agree hcount).bind fun _ _ halike => halike.symbols_agree
  exact ((extract_agree_layout skipDebug f).congr (extract_agree_layout skipDebug g) hlayout).toOption_eq

theorem extract_toOption_eq_of_rearranged_callSite :
    let utf8 (s : String) : List UInt8 := s.toList.flatMap String.utf8EncodeChar
    let constants : List WrittenConstant := [.utf8 (utf8 "Code") (by decide),
      .utf8 (utf8 "BootstrapMethods") (by decide), .utf8 (utf8 "LocalVariableTable") (by decide),
      .utf8 (utf8 "X") (by decide), .utf8 (utf8 "()V") (by decide), .utf8 (utf8 "La/A;") (by decide),
      .utf8 (utf8 "b/B") (by decide), .classRef 7, .nameAndType 4 5, .memberRef 10 8 9 (by decide),
      .methodHandle 6 10, .invokeDynamic 0 9]
    let pool := ConstantPool.ofConstants constants
    let unknown : WrittenAttribute := ⟨4, [1, 2, 3], by decide⟩
    let bootstraps : WrittenAttribute := ⟨2, [0, 1, 0, 11, 0, 0], by decide⟩
    let slots : WrittenAttribute := ⟨3, [0, 1, 0, 0, 0, 6, 0, 4, 0, 6, 0, 0], by decide⟩
    let body (attributes : WrittenAttributes) : WrittenCode :=
      ⟨1, 1, [0xBA, 0, 12, 0, 0, 0xB1], by decide, ⟨[], by decide⟩, attributes, []⟩
    let code : WrittenCode := body ⟨[slots], by decide⟩
    let code' : WrittenCode := body ⟨[unknown, slots], by decide⟩
    let method (attributes : WrittenAttributes) : WrittenMember := ⟨1, 4, 5, attributes⟩
    let file (methods : WrittenMembers) (attributes : WrittenAttributes) : WrittenClass :=
      ⟨0, 61, ConstantPool.bytes constants, pool, ConstantPool.consumes_read (by decide), 33, 8, 0,
        ⟨[], by decide⟩, ⟨[], by decide⟩, methods, attributes, []⟩
    let f := file ⟨[method ⟨[⟨1, code.bytes, by decide⟩], by decide⟩], by decide⟩
      ⟨[bootstraps], by decide⟩
    let g := file ⟨[method ⟨[unknown, ⟨1, code'.bytes, by decide⟩], by decide⟩], by decide⟩
      ⟨[unknown, bootstraps], by decide⟩
    extract false f.bytes = .ok ⟨.ofList ["b/B"], .ofList ["a/A", "b/B"]⟩
      ∧ f.Rearranged false g ∧ f.bootstrapCount ≤ 1
      ∧ (extract false f.bytes).toOption = (extract false g.bytes).toOption := by
  intro utf8 constants pool unknown bootstraps slots body code code' method file f g
  have hread : extract false f.bytes = .ok ⟨.ofList ["b/B"], .ofList ["a/A", "b/B"]⟩ := by
    decide +kernel
  have hunknown : ∀ names, "X" ∉ names → ∀ a ∈ [unknown], a.Unknown pool names := by
    intro names hnames a ha
    rw [List.mem_singleton.1 ha]
    exact ⟨"X", by decide +kernel, hnames⟩
  have hcode : code.Rearranged pool false code' :=
    ⟨rfl, [slots], [unknown], .cons rfl .nil, hunknown _ (by decide), .swap _ _ _⟩
  have hrearranged : f.Rearranged false g := by
    refine ⟨rfl, .nil, .cons ⟨rfl, ?_⟩ .nil, ?_⟩
    . refine ⟨[_], [unknown], .cons ?_ .nil, hunknown _ (by decide), .swap _ _ _⟩
      exact .code rfl (by decide +kernel) rfl rfl hcode
    . exact ⟨[bootstraps], [unknown], .cons rfl .nil, hunknown _ (by decide), .swap _ _ _⟩
  have hcount : f.bootstrapCount ≤ 1 := by decide +kernel
  exact ⟨hread, hrearranged, hcount, extract_toOption_eq_of_rearranged hrearranged hcount⟩

end ArtifactAudit.ClassFile
