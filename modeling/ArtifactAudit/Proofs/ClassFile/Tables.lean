import ArtifactAudit.Proofs.ClassFile.Steady
import ArtifactAudit.Proofs.ClassFile.Written

/-!
This module contains how the tables of a class file are written: its members, the attributes of a class
and of its members, and the bodies of methods with attributes of their own. What is written is read back,
up to where the bodies of attributes stand.
-/

namespace ArtifactAudit.ClassFile

variable {α β γ δ ω : Type}

namespace Reader

/--
Whether a reader takes some bytes, whatever stands before and behind them, and finds what they mean.
They may be taken and mean nothing.
-/
def Reads (R : α → β → Prop) (reader : Reader α) (taken : List UInt8) (meaning : Except Fault β)
    : Prop :=
  ∀ offset rest, Agree (fun p b => R p.1 b ∧ p.2 = ⟨rest, offset + taken.length⟩)
    (reader ⟨taken ++ rest, offset⟩) meaning

theorem Reads.bind {R : α → β → Prop} {S : γ → δ → Prop} {reader : Reader α} {next : α → Reader γ}
    {taken more : List UInt8} {x : Except Fault β} {f : β → Except Fault δ}
    (h : Reads R reader taken x) (hnext : ∀ a b, R a b → Reads S (next a) more (f b))
    : Reads S (reader >>= next) (taken ++ more) (x >>= f) := by
  intro offset rest
  change Agree _ (Except.bind (reader _) _) _
  rw [List.append_assoc]
  apply (h offset (more ++ rest)).bind
  rintro ⟨a, _⟩ b ⟨hab, rfl⟩
  rw [List.length_append, ← Nat.add_assoc]
  exact hnext a b hab (offset + taken.length) rest

theorem Consumes.bind_reads {S : γ → δ → Prop} {reader : Reader α} {next : α → Reader γ}
    {taken more : List UInt8} {a : α} {x : Except Fault δ} (h : Consumes reader taken a)
    (hnext : Reads S (next a) more x)
    : Reads S (reader >>= next) (taken ++ more) x := by
  intro offset rest
  rw [run_bind, List.append_assoc, h, List.length_append, ← Nat.add_assoc]
  exact hnext (offset + taken.length) rest

theorem reads_pure {R : α → β → Prop} {a : α} {b : β} (h : R a b) : Reads R (pure a) [] (pure b) :=
  fun _ _ => .ok ⟨h, rfl⟩

theorem reads_throw {R : α → β → Prop} (fault fault' : Fault)
    : Reads R (throw fault) [] (throw fault') :=
  fun _ _ => .error

theorem reads_liftM {R : α → β → Prop} {x : Except Fault α} {y : Except Fault β} (h : Agree R x y)
    : Reads R (liftM x) [] y := by
  cases h with
  | ok hab => exact reads_pure hab
  | error => exact reads_throw _ _

theorem reads_liftM_self (x : Except Fault α) : Reads Eq (liftM x) [] x :=
  reads_liftM (.refl (fun _ => rfl) x)

theorem reads_liftM_bind {S : γ → δ → Prop} {x : Except Fault α} {next : α → Reader γ}
    {taken : List UInt8} {f : α → Except Fault δ} (hnext : ∀ a, Reads S (next a) taken (f a))
    : Reads S (liftM x >>= next) taken (x >>= f) := by
  apply (reads_liftM_self x).bind
  rintro a _ rfl
  exact hnext a

theorem Reads.map {R : α → β → Prop} {S : γ → δ → Prop} {reader : Reader α} {taken : List UInt8}
    {x : Except Fault β} {g : α → γ} {f : β → δ} (h : Reads R reader taken x)
    (hmap : ∀ a b, R a b → S (g a) (f b))
    : Reads S (reader >>= fun a => pure (g a)) taken (x >>= fun b => pure (f b)) := by
  have hread := h.bind fun a b hab => reads_pure (hmap a b hab)
  rwa [List.append_nil] at hread

theorem reads_part_bind {S : γ → δ → Prop} {next : Cursor → Reader γ} {body more : List UInt8}
    {x : Except Fault δ} (hnext : ∀ c : Cursor, c.Same (.start body) → Reads S (next c) more x)
    : Reads S (part body.length >>= next) (body ++ more) x := by
  intro offset rest
  have hbytes : Consumes (bytes body.length) body body := consumes_bytes rfl
  have hpart := (hbytes.map fun taken => (⟨taken, offset⟩ : Cursor)) offset (more ++ rest)
  rw [run_bind, List.append_assoc, run_part, hpart, List.length_append, ← Nat.add_assoc]
  exact hnext ⟨body, offset⟩ rfl (offset + body.length) rest

theorem reads_part_bind_nil {S : γ → δ → Prop} {next : Cursor → Reader γ} {body : List UInt8}
    {x : Except Fault δ} (hnext : ∀ c : Cursor, c.Same (.start body) → Reads S (next c) [] x)
    : Reads S (part body.length >>= next) body x := by
  have hread := reads_part_bind hnext
  rwa [List.append_nil] at hread

theorem Reads.times {R : α → β → Prop} {reader : Reader α} {entryBytes : ω → List UInt8}
    {meaning : ω → Except Fault β} {entries : List ω}
    (h : ∀ entry, Reads R reader (entryBytes entry) (meaning entry))
    : Reads (List.Forall₂ R) (times entries.length reader) (entries.flatMap entryBytes)
        (entries.mapM meaning) := by
  induction entries with
  | nil => exact reads_pure .nil
  | cons entry entries ih =>
    rw [List.length_cons, times_succ, List.flatMap_cons, List.mapM_cons]
    apply (h entry).bind
    intro a b hab
    apply ih.map
    intro as bs hasbs
    exact .cons hab hasbs

theorem Reads.within {R : α → β → Prop} {reader : Reader α} {taken : List UInt8}
    {x : Except Fault β} (h : Reads R reader taken x) (offset : Nat) (rest : List UInt8)
    : Agree R (within ⟨taken ++ rest, offset⟩ reader) x := by
  have hrun := (h offset rest).map (f := Prod.fst) (g := id) (S := R) fun _ _ hrelated => hrelated.1
  have hid : x.map id = x := by cases x <;> rfl
  rwa [hid] at hrun

end Reader

open Reader

structure WrittenTable (ω : Type) where
  entries : List ω
  length_lt : entries.length < 2 ^ 16

namespace WrittenTable

def bytes (entryBytes : ω → List UInt8) (t : WrittenTable ω) : List UInt8 :=
  tableBytes entryBytes t.entries

theorem reads {R : α → β → Prop} {reader : Reader α} {entryBytes : ω → List UInt8}
    {meaning : ω → Except Fault β} (t : WrittenTable ω)
    (h : ∀ entry, Reads R reader (entryBytes entry) (meaning entry))
    : Reads (List.Forall₂ R) (table reader) (t.bytes entryBytes) (t.entries.mapM meaning) :=
  (consumes_u16 t.length_lt).bind_reads (Reads.times h)

end WrittenTable

/--
An attribute as it is written. Its name is an index of the constant pool.
-/
structure WrittenAttribute where
  name : UInt16
  body : List UInt8
  length_lt : body.length < 2 ^ 32

namespace WrittenAttribute

def bytes (a : WrittenAttribute) : List UInt8 :=
  numberBytes 2 a.name.toNat ++ (numberBytes 4 a.body.length ++ a.body)

def meaning (pool : ConstantPool) (a : WrittenAttribute) : Except Fault Attribute := do
  return ⟨← pool.utf8 a.name.toNat, .start a.body⟩

end WrittenAttribute

abbrev WrittenAttributes : Type := WrittenTable WrittenAttribute

theorem reads_attributes (pool : ConstantPool) (t : WrittenAttributes)
    : Reads (List.Forall₂ Attribute.Same) (attributes pool) (t.bytes WrittenAttribute.bytes)
        (t.entries.mapM (WrittenAttribute.meaning pool)) := by
  apply t.reads
  intro a
  refine (consumes_u16 a.name.toNat_lt).bind_reads (reads_liftM_bind fun name => ?_)
  apply (consumes_u32 a.length_lt).bind_reads
  exact reads_part_bind_nil fun c hsame => reads_pure ⟨rfl, hsame⟩

structure WrittenMember where
  flags : UInt16
  name : UInt16
  descriptor : UInt16
  attributes : WrittenAttributes

namespace WrittenMember

def bytes (m : WrittenMember) : List UInt8 :=
  (numberBytes 2 m.flags.toNat ++ numberBytes 2 m.name.toNat) ++
    (numberBytes 2 m.descriptor.toNat ++ m.attributes.bytes WrittenAttribute.bytes)

def meaning (pool : ConstantPool) (m : WrittenMember) : Except Fault Member := do
  let descriptor ← pool.utf8 m.descriptor.toNat
  return ⟨descriptor, ← m.attributes.entries.mapM (WrittenAttribute.meaning pool)⟩

end WrittenMember

abbrev WrittenMembers : Type := WrittenTable WrittenMember

theorem reads_members (pool : ConstantPool) (t : WrittenMembers)
    : Reads (List.Forall₂ Member.Same) (members pool) (t.bytes WrittenMember.bytes)
        (t.entries.mapM (WrittenMember.meaning pool)) := by
  apply t.reads
  intro m
  apply (consumes_skip (by simp)).bind_reads
  refine (consumes_u16 m.descriptor.toNat_lt).bind_reads (reads_liftM_bind fun descriptor => ?_)
  apply (reads_attributes pool m.attributes).map
  exact fun as bs hsame => ⟨rfl, hsame⟩

/--
A class file as it is written. The pool is told by what is read for it. Bytes may trail after the last
table.
-/
structure WrittenClass where
  minor : UInt16
  major : UInt16
  poolBytes : List UInt8
  pool : ConstantPool
  consumes : Consumes ConstantPool.read poolBytes pool
  flags : UInt16
  name : UInt16
  superclass : UInt16
  interfaces : WrittenTable UInt16
  fields : WrittenMembers
  methods : WrittenMembers
  attributes : WrittenAttributes
  trailing : List UInt8

namespace WrittenClass

def tables (f : WrittenClass) : List UInt8 :=
  f.interfaces.bytes (fun i => numberBytes 2 i.toNat) ++ (f.fields.bytes WrittenMember.bytes ++
    (f.methods.bytes WrittenMember.bytes ++ f.attributes.bytes WrittenAttribute.bytes))

def outline (f : WrittenClass) : List UInt8 :=
  numberBytes 4 magic ++ ((numberBytes 2 f.minor.toNat ++ numberBytes 2 f.major.toNat) ++
    (f.poolBytes ++ (numberBytes 2 f.flags.toNat ++ (numberBytes 2 f.name.toNat ++
      (numberBytes 2 f.superclass.toNat ++ f.tables)))))

def bytes (f : WrittenClass) : List UInt8 :=
  f.outline ++ f.trailing

def extended (f : WrittenClass) : Except Fault (List String) :=
  if f.superclass.toNat = 0 then .ok [] else do plainClass (← f.pool.className f.superclass.toNat)

def implemented (f : WrittenClass) : Except Fault (List (List String)) :=
  f.interfaces.entries.mapM fun i => do plainClass (← f.pool.className i.toNat)

def tablesLayout (f : WrittenClass) (name : String) (extended : List String) : Except Fault Layout := do
  let implemented ← f.implemented
  let fields ← f.fields.entries.mapM (WrittenMember.meaning f.pool)
  let methods ← f.methods.entries.mapM (WrittenMember.meaning f.pool)
  let attributes ← f.attributes.entries.mapM (WrittenAttribute.meaning f.pool)
  return {
    pool := f.pool, name, supertypes := extended ++ implemented.flatten, fields, methods, attributes }

def layout (f : WrittenClass) : Except Fault Layout := do
  let name ← f.pool.className f.name.toNat
  f.tablesLayout name (← f.extended)

end WrittenClass

theorem reads_layout (f : WrittenClass) : Reads Layout.Same layout f.outline f.layout := by
  have hmagic : magic < 2 ^ 32 := by decide
  apply (consumes_u32 hmagic).bind_reads
  rw [if_neg (by simp)]
  refine (consumes_skip (by simp)).bind_reads (f.consumes.bind_reads ?_)
  apply (consumes_skip (length_numberBytes 2 f.flags.toNat)).bind_reads
  refine (consumes_u16 f.name.toNat_lt).bind_reads (reads_liftM_bind fun name => ?_)
  apply (consumes_u16 f.superclass.toNat_lt).bind_reads
  extract_lets more
  have hmore : ∀ extended,
      Reads Layout.Same (more extended) f.tables (f.tablesLayout name extended) := by
    intro extended
    have hinterface : ∀ i : UInt16, Reads Eq (do plainClass (← f.pool.className (← u16)))
        (numberBytes 2 i.toNat) (do plainClass (← f.pool.className i.toNat)) := by
      intro i
      rw [← List.append_nil (numberBytes 2 i.toNat)]
      apply (consumes_u16 i.toNat_lt).bind_reads
      exact reads_liftM_bind fun name => reads_liftM_self (plainClass name)
    refine (f.interfaces.reads hinterface).bind fun implemented implemented' himplemented => ?_
    refine (reads_members f.pool f.fields).bind fun fields fields' hfields => ?_
    refine (reads_members f.pool f.methods).bind fun methods methods' hmethods => ?_
    refine (reads_attributes f.pool f.attributes).map fun attributes attributes' hattributes => ?_
    rw [List.forall₂_eq_eq_eq] at himplemented
    exact ⟨rfl, rfl, by rw [himplemented], hfields, hmethods, hattributes⟩
  unfold WrittenClass.extended
  split
  . exact hmore []
  . rw [bind_assoc]
    exact reads_liftM_bind fun _ => reads_liftM_bind hmore

structure WrittenHandler where
  start : UInt16
  stop : UInt16
  target : UInt16
  type : UInt16

namespace WrittenHandler

def bytes (h : WrittenHandler) : List UInt8 :=
  (numberBytes 2 h.start.toNat ++ numberBytes 2 h.stop.toNat ++ numberBytes 2 h.target.toNat) ++
    numberBytes 2 h.type.toNat

def classes (pool : ConstantPool) (h : WrittenHandler) : Except Fault (List String) := do
  if h.type.toNat = 0 then return []
  plainClass (← pool.className h.type.toNat)

theorem reads (pool : ConstantPool) (h : WrittenHandler)
    : Reads Eq (Code.handler pool) h.bytes (h.classes pool) := by
  apply (consumes_skip (by simp)).bind_reads
  rw [← List.append_nil (numberBytes 2 h.type.toNat)]
  apply (consumes_u16 h.type.toNat_lt).bind_reads
  unfold classes
  split
  . exact reads_pure rfl
  . exact reads_liftM_bind fun name => reads_liftM_self (plainClass name)

end WrittenHandler

structure WrittenCode where
  stack : UInt16
  locals : UInt16
  code : List UInt8
  length_code_lt : code.length < 2 ^ 32
  handlers : WrittenTable WrittenHandler
  attributes : WrittenAttributes
  trailing : List UInt8

namespace WrittenCode

def outline (c : WrittenCode) : List UInt8 :=
  (numberBytes 2 c.stack.toNat ++ numberBytes 2 c.locals.toNat) ++
    (numberBytes 4 c.code.length ++ (c.code ++ (c.handlers.bytes WrittenHandler.bytes ++
      c.attributes.bytes WrittenAttribute.bytes)))

def bytes (c : WrittenCode) : List UInt8 :=
  c.outline ++ c.trailing

def attributeClasses (context : Code.Context) (a : WrittenAttribute) : Except Fault (List String) := do
  Code.nestedAttribute context (← context.pool.utf8 a.name.toNat) (.start a.body)

def classes (context : Code.Context) (c : WrittenCode) : Except Fault (List String) := do
  let used ← Code.instructions context (.start c.code)
  let caught ← c.handlers.entries.mapM (WrittenHandler.classes context.pool)
  let more ← c.attributes.entries.mapM (attributeClasses context)
  return used ++ caught.flatten ++ more.flatten

theorem reads_attribute (context : Code.Context) (a : WrittenAttribute)
    : Reads Eq
        (do
          let name ← context.pool.utf8 (← u16)
          let part ← part (← u32)
          Code.nestedAttribute context name part)
        a.bytes (attributeClasses context a) := by
  refine (consumes_u16 a.name.toNat_lt).bind_reads (reads_liftM_bind fun name => ?_)
  apply (consumes_u32 a.length_lt).bind_reads
  exact reads_part_bind_nil fun d hsame => reads_liftM (Code.nestedAttribute_agree context name hsame)

theorem reads (context : Code.Context) (c : WrittenCode)
    : Reads Eq (Code.body context) c.outline (c.classes context) := by
  apply (consumes_skip (by simp)).bind_reads
  apply (consumes_u32 c.length_code_lt).bind_reads
  apply reads_part_bind
  intro d hsame
  apply (reads_liftM (Code.instructions_agree context hsame)).bind
  rintro used _ rfl
  apply (c.handlers.reads (WrittenHandler.reads context.pool)).bind
  intro caught caught' hcaught
  apply (c.attributes.reads (reads_attribute context)).map
  intro more more' hmore
  rw [List.forall₂_eq_eq_eq] at hcaught hmore
  rw [hcaught, hmore]

end WrittenCode
end ArtifactAudit.ClassFile
