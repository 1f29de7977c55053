import ArtifactAudit.Proofs.ClassFile.Descriptor
import ArtifactAudit.Proofs.ClassFile.Spelled

/-!
This module contains how the local variables of a method body are written, and that reading a table of
them finds the classes that their types name.
-/

namespace ArtifactAudit.ClassFile

open Reader

variable {pool : ConstantPool}

structure WrittenVariable where
  start : UInt16
  length : UInt16
  name : UInt16
  descriptor : UInt16
  slot : UInt16

namespace WrittenVariable

def bytes (v : WrittenVariable) : List UInt8 :=
  (numberBytes 2 v.start.toNat ++ numberBytes 2 v.length.toNat ++ numberBytes 2 v.name.toNat) ++
    (numberBytes 2 v.descriptor.toNat ++ numberBytes 2 v.slot.toNat)

def classes (pool : ConstantPool) (v : WrittenVariable) : Except Fault (List String) := do
  Descriptor.classes (← pool.utf8 v.descriptor.toNat)

def Names (pool : ConstantPool) (v : WrittenVariable) (name : String) : Prop :=
  ∃ type : Descriptor.MemberType, pool.HasText v.descriptor.toNat type.text ∧ name ∈ type.classes

theorem reads (pool : ConstantPool) (v : WrittenVariable)
    : Reads Eq (Code.localVariable pool) v.bytes (v.classes pool) := by
  apply (consumes_skip (by simp)).bind_reads
  apply (consumes_u16 v.descriptor.toNat_lt).bind_reads
  rw [← List.append_nil (numberBytes 2 v.slot.toNat)]
  apply (consumes_skip (length_numberBytes 2 v.slot.toNat)).bind_reads
  exact reads_liftM_bind fun descriptor => reads_liftM_self (Descriptor.classes descriptor)

end WrittenVariable

theorem spells_variables (pool : ConstantPool)
    : Spells (table (Code.localVariable pool)) (WrittenTable.bytes WrittenVariable.bytes) := by
  apply Spells.table
  intro c found after h
  rcases exists_of_skip_bind h with ⟨range, c₁, hlength, hrange, h⟩
  have hextent : (range.take 4).length = 4 := by rw [List.length_take]; omega
  have hname : (range.drop 4).length = 2 := by rw [List.length_drop]; omega
  rcases exists_of_length_eq_four hextent with ⟨start, length, hextent⟩
  rcases exists_of_length_eq_two hname with ⟨name, _, hname⟩
  rcases exists_of_u16_bind h with ⟨descriptor, c₂, hdescriptor, h⟩
  rcases exists_of_skip_bind h with ⟨place, c₃, hlength, hplace, h⟩
  rcases exists_of_length_eq_two hlength with ⟨slot, _, rfl⟩
  rcases exists_of_liftM_bind h with ⟨text, _, h⟩
  refine ⟨⟨start, length, name, descriptor, slot⟩, ?_⟩
  rw [hrange, hdescriptor, hplace, ← List.take_append_drop 4 range, hextent, hname,
    eq_of_liftM_eq_ok h]
  simp only [WrittenVariable.bytes, List.append_assoc]

namespace WrittenVariable

variable {v : WrittenVariable} {names : List String}

theorem names_iff_mem (h : v.classes pool = .ok names) (name : String)
    : v.Names pool name ↔ name ∈ names := by
  constructor
  . rintro ⟨type, htype, hname⟩
    rw [classes, ConstantPool.utf8_eq_ok htype] at h
    have hnames := (Descriptor.classes_text type).symm.trans h
    cases hnames
    exact hname
  . intro hname
    rcases exists_of_bind_eq_ok h with ⟨descriptor, hdescriptor, hclasses⟩
    rcases Descriptor.exists_hasText_of_classes hdescriptor hclasses with ⟨type, htype, rfl⟩
    exact ⟨type, htype, hname⟩

theorem exists_names_iff_mem {t : WrittenTable WrittenVariable} {body : List UInt8}
    (hbody : t.bytes bytes <+: body)
    (h : within (.start body) (do return (← table (Code.localVariable pool)).flatten) = .ok names)
    (name : String)
    : (∃ v ∈ t.entries, v.Names pool name) ↔ name ∈ names := by
  rcases hbody with ⟨rest, rfl⟩
  have hreads : Reads Eq (do return (← table (Code.localVariable pool)).flatten) (t.bytes bytes)
      (t.entries.mapM (classes pool) >>= fun found => pure found.flatten) := by
    apply (t.reads (reads pool)).map
    intro found found' hfound
    rw [List.forall₂_eq_eq_eq] at hfound
    rw [hfound]
  rcases exists_of_bind_eq_ok ((hreads.within 0 rest).eq_ok_iff.1 h) with ⟨found, hfound, hpure⟩
  cases hpure
  rw [List.mem_flatten]
  exact exists_mem_iff_of_mapM_eq_ok hfound fun v names hv => names_iff_mem hv name

end WrittenVariable

def WrittenAttribute.NamesVariable (pool : ConstantPool) (a : WrittenAttribute) (name : String) : Prop :=
  pool.HasText a.name.toNat "LocalVariableTable"
    ∧ ∃ t : WrittenTable WrittenVariable, t.bytes WrittenVariable.bytes <+: a.body
        ∧ ∃ v ∈ t.entries, v.Names pool name

def WrittenCode.NamesVariable (pool : ConstantPool) (c : WrittenCode) (name : String) : Prop :=
  ∃ a ∈ c.attributes.entries, a.NamesVariable pool name

def Attribute.NamesVariable (pool : ConstantPool) (part : Attribute) (name : String) : Prop :=
  part.name = "Code" ∧ ∃ c : WrittenCode, c.bytes = part.body.rest ∧ c.NamesVariable pool name

/--
Whether a method of a class file has a body in which the type of a local variable names a class.
-/
def WrittenClass.NamesVariable (f : WrittenClass) (name : String) : Prop :=
  ∃ m ∈ f.methods.entries, ∃ a ∈ m.attributes.entries, f.pool.HasText a.name.toNat "Code"
    ∧ ∃ c : WrittenCode, c.bytes = a.body ∧ c.NamesVariable f.pool name

end ArtifactAudit.ClassFile
