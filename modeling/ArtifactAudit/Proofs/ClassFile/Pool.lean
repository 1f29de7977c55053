import ArtifactAudit.ClassFile.ConstantPool
import ArtifactAudit.Proofs.ClassFile.Agree

/-!
This module contains what the indices of a constant pool stand for, read off the constants themselves,
and that the pool finds it and nothing else.
-/

namespace ArtifactAudit.ClassFile.ConstantPool

variable {pool : ConstantPool} {index : Nat} {owner descriptor : String}

def Has (pool : ConstantPool) (index : Nat) (constant : Constant) : Prop :=
  pool.places[index]? = some (some constant)

instance (pool : ConstantPool) (index : Nat) (constant : Constant)
    : Decidable (pool.Has index constant) :=
  inferInstanceAs (Decidable (pool.places[index]? = some (some constant)))

abbrev HasText (pool : ConstantPool) (index : Nat) (text : String) : Prop :=
  pool.Has index (.utf8 text)

def HasClass (pool : ConstantPool) (index : Nat) (name : String) : Prop :=
  ∃ place, pool.Has index (.classRef place) ∧ pool.HasText place name

def HasType (pool : ConstantPool) (index : Nat) (descriptor : String) : Prop :=
  ∃ name type, pool.Has index (.nameAndType name type) ∧ (∃ text, pool.HasText name text)
    ∧ pool.HasText type descriptor

def HasMember (pool : ConstantPool) (index : Nat) (owner descriptor : String) : Prop :=
  ∃ place type, pool.Has index (.memberRef place type) ∧ pool.HasClass place owner
    ∧ pool.HasType type descriptor

def HasHandle (pool : ConstantPool) (index : Nat) (owner descriptor : String) : Prop :=
  ∃ kind place, pool.Has index (.methodHandle kind place) ∧ pool.HasMember place owner descriptor

def HasCallSite (pool : ConstantPool) (index bootstrap : Nat) (descriptor : String) : Prop :=
  ∃ type, pool.Has index (.invokeDynamic bootstrap type) ∧ pool.HasType type descriptor

theorem get_eq_ok {constant : Constant} (h : pool.Has index constant)
    : pool.get index = .ok constant := by
  unfold Has at h
  rw [get, h]

theorem utf8_eq_ok {text : String} (h : pool.HasText index text) : pool.utf8 index = .ok text := by
  rw [utf8, get_eq_ok h]
  rfl

theorem utf8_eq_ok_iff {text : String} : pool.utf8 index = .ok text ↔ pool.HasText index text := by
  refine ⟨fun h => ?_, utf8_eq_ok⟩
  unfold utf8 get at h
  split at h
  . next constant hplace =>
    cases constant with
    | utf8 other =>
      cases h
      exact hplace
    | _ => cases h
  . cases h

theorem HasText.unique {index : Nat} {text other : String} (h : pool.HasText index text)
    (h' : pool.HasText index other)
    : text = other := by
  have htexts := (utf8_eq_ok h).symm.trans (utf8_eq_ok h')
  exact Except.ok.inj htexts

theorem className_eq_ok {name : String} (h : pool.HasClass index name)
    : pool.className index = .ok name := by
  rcases h with ⟨place, hindex, hplace⟩
  rw [className, get_eq_ok hindex]
  apply utf8_eq_ok hplace

theorem typeOf_eq_ok (h : pool.HasType index descriptor) : pool.typeOf index = .ok descriptor := by
  rcases h with ⟨name, type, hindex, ⟨text, hname⟩, htype⟩
  rw [typeOf, get_eq_ok hindex]
  change (discard (pool.utf8 name) >>= fun _ => pool.utf8 type) = _
  rw [utf8_eq_ok hname, utf8_eq_ok htype]
  rfl

theorem member_eq_ok (h : pool.HasMember index owner descriptor)
    : pool.member index = .ok (owner, descriptor) := by
  rcases h with ⟨place, type, hindex, howner, htype⟩
  rw [member, get_eq_ok hindex]
  change (pool.className place >>= fun owner => pool.typeOf type >>= fun descriptor => _) = _
  rw [className_eq_ok howner, typeOf_eq_ok htype]
  rfl

theorem handle_eq_ok (h : pool.HasHandle index owner descriptor)
    : pool.handle index = .ok (owner, descriptor) := by
  rcases h with ⟨kind, place, hindex, hmember⟩
  rw [handle, get_eq_ok hindex]
  apply member_eq_ok hmember

theorem callSite_eq_ok {bootstrap : Nat} (h : pool.HasCallSite index bootstrap descriptor)
    : pool.callSite index = .ok (bootstrap, descriptor) := by
  rcases h with ⟨type, hindex, htype⟩
  rw [callSite, get_eq_ok hindex]
  change (pool.typeOf type >>= fun descriptor => _) = _
  rw [typeOf_eq_ok htype]
  rfl

theorem has_of_get {constant : Constant} (h : pool.get index = .ok constant)
    : pool.Has index constant := by
  unfold get at h
  split at h
  . next hplace =>
    cases h
    exact hplace
  . cases h

theorem hasClass_of_className {name : String} (h : pool.className index = .ok name)
    : pool.HasClass index name := by
  rcases exists_of_bind_eq_ok h with ⟨constant, hconstant, h⟩
  split at h
  . exact ⟨_, has_of_get hconstant, utf8_eq_ok_iff.1 h⟩
  . cases h

theorem hasType_of_typeOf (h : pool.typeOf index = .ok descriptor)
    : pool.HasType index descriptor := by
  rcases exists_of_bind_eq_ok h with ⟨constant, hconstant, h⟩
  split at h
  . next name type =>
    change (discard (pool.utf8 name) >>= fun _ => pool.utf8 type) = _ at h
    rcases exists_of_bind_eq_ok h with ⟨_, hname, htype⟩
    rcases exists_of_bind_eq_ok hname with ⟨text, htext, _⟩
    exact ⟨name, type, has_of_get hconstant, ⟨text, utf8_eq_ok_iff.1 htext⟩, utf8_eq_ok_iff.1 htype⟩
  . cases h

theorem hasMember_of_member (h : pool.member index = .ok (owner, descriptor))
    : pool.HasMember index owner descriptor := by
  rcases exists_of_bind_eq_ok h with ⟨constant, hconstant, h⟩
  split at h
  . rcases exists_of_bind_eq_ok h with ⟨_, howner, h⟩
    rcases exists_of_bind_eq_ok h with ⟨_, htype, h⟩
    cases h
    exact ⟨_, _, has_of_get hconstant, hasClass_of_className howner, hasType_of_typeOf htype⟩
  . cases h

theorem hasHandle_of_handle (h : pool.handle index = .ok (owner, descriptor))
    : pool.HasHandle index owner descriptor := by
  rcases exists_of_bind_eq_ok h with ⟨constant, hconstant, h⟩
  split at h
  . exact ⟨_, _, has_of_get hconstant, hasMember_of_member h⟩
  . cases h

theorem hasCallSite_of_callSite {bootstrap : Nat} (h : pool.callSite index = .ok (bootstrap, descriptor))
    : pool.HasCallSite index bootstrap descriptor := by
  rcases exists_of_bind_eq_ok h with ⟨constant, hconstant, h⟩
  split at h
  . rcases exists_of_bind_eq_ok h with ⟨_, htype, h⟩
    cases h
    exact ⟨_, has_of_get hconstant, hasType_of_typeOf htype⟩
  . cases h

end ArtifactAudit.ClassFile.ConstantPool
