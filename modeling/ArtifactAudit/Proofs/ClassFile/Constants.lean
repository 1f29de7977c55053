import ArtifactAudit.Proofs.ClassFile.Pool
import ArtifactAudit.Proofs.ClassFile.Written

/-!
This module contains how constants are written and which indices they get. Its main statement is that
the constants of a pool are found at these indices, whatever their sizes, and that no other index leads
anywhere.
-/

namespace ArtifactAudit.ClassFile

open Reader

/--
A constant as it is written. Several tags can stand for constants that are told in the same way.
-/
inductive WrittenConstant where
  | utf8 (text : List UInt8) (length_lt : text.length < 2 ^ 16)
  | number (tag : UInt8) (value : UInt32) (listed : tag ∈ [3, 4])
  | wideNumber (tag : UInt8) (value : UInt64) (listed : tag ∈ [5, 6])
  | classRef (name : UInt16)
  | string (value : UInt16)
  | memberRef (tag : UInt8) (owner type : UInt16) (listed : tag ∈ [9, 10, 11])
  | nameAndType (name descriptor : UInt16)
  | methodHandle (kind : UInt8) (reference : UInt16)
  | methodType (descriptor : UInt16)
  | dynamic (bootstrap type : UInt16)
  | invokeDynamic (bootstrap type : UInt16)
  | moduleRef (name : UInt16)
  | packageRef (name : UInt16)

namespace WrittenConstant

def tag : WrittenConstant → UInt8
  | .utf8 .. => 1
  | .number tag .. | .wideNumber tag .. | .memberRef tag .. => tag
  | .classRef _ => 7
  | .string _ => 8
  | .nameAndType .. => 12
  | .methodHandle .. => 15
  | .methodType _ => 16
  | .dynamic .. => 17
  | .invokeDynamic .. => 18
  | .moduleRef _ => 19
  | .packageRef _ => 20

def content : WrittenConstant → List UInt8
  | .utf8 text _ => numberBytes 2 text.length ++ text
  | .number _ value _ => numberBytes 4 value.toNat
  | .wideNumber _ value _ => numberBytes 8 value.toNat
  | .classRef i | .string i | .methodType i | .moduleRef i | .packageRef i => numberBytes 2 i.toNat
  | .memberRef _ i j _ | .nameAndType i j | .dynamic i j | .invokeDynamic i j =>
    numberBytes 2 i.toNat ++ numberBytes 2 j.toNat
  | .methodHandle kind i => kind :: numberBytes 2 i.toNat

def bytes (w : WrittenConstant) : List UInt8 :=
  w.tag :: w.content

def width : WrittenConstant → Nat
  | .wideNumber .. => 2
  | _ => 1

def constant : WrittenConstant → Constant
  | .utf8 text _ => .utf8 (ModifiedUtf8.decode text)
  | .number .. => .number
  | .wideNumber .. => .wideNumber
  | .classRef name => .classRef name.toNat
  | .string value => .string value.toNat
  | .memberRef _ owner type _ => .memberRef owner.toNat type.toNat
  | .nameAndType name descriptor => .nameAndType name.toNat descriptor.toNat
  | .methodHandle kind reference => .methodHandle kind reference.toNat
  | .methodType descriptor => .methodType descriptor.toNat
  | .dynamic bootstrap type => .dynamic bootstrap.toNat type.toNat
  | .invokeDynamic bootstrap type => .invokeDynamic bootstrap.toNat type.toNat
  | .moduleRef name => .moduleRef name.toNat
  | .packageRef name => .packageRef name.toNat

theorem width_constant (w : WrittenConstant) : w.constant.width = w.width := by
  cases w <;> rfl

theorem places_constant (w : WrittenConstant)
    : w.constant.places.toList = some w.constant :: List.replicate (w.width - 1) none := by
  cases w <;> rfl

theorem width_pos (w : WrittenConstant) : 0 < w.width := by
  cases w <;> exact Nat.zero_lt_succ _

theorem consumes_pair {α : Type} (make : Nat → Nat → α) (i j : UInt16)
    : Consumes (do return make (← u16) (← u16)) (numberBytes 2 i.toNat ++ numberBytes 2 j.toNat)
        (make i.toNat j.toNat) :=
  (consumes_u16 i.toNat_lt).bind ((consumes_u16 j.toNat_lt).map (make i.toNat))

theorem consumes (w : WrittenConstant) (index : Nat)
    : Consumes (Constant.read index) w.bytes w.constant := by
  apply (consumes_byte w.tag).bind
  cases w with
  | utf8 text hlength =>
    apply (consumes_u16 hlength).bind
    exact (consumes_bytes rfl).map fun text => Constant.utf8 (ModifiedUtf8.decode text)
  | number tag value listed =>
    have hread := (consumes_skip (length_numberBytes 4 value.toNat)).map fun _ => Constant.number
    simp only [List.mem_cons, List.not_mem_nil, or_false] at listed
    rcases listed with rfl | rfl <;> exact hread
  | wideNumber tag value listed =>
    have hread := (consumes_skip (length_numberBytes 8 value.toNat)).map fun _ => Constant.wideNumber
    simp only [List.mem_cons, List.not_mem_nil, or_false] at listed
    rcases listed with rfl | rfl <;> exact hread
  | memberRef tag i j listed =>
    have hread := consumes_pair Constant.memberRef i j
    simp only [List.mem_cons, List.not_mem_nil, or_false] at listed
    rcases listed with rfl | rfl | rfl <;> exact hread
  | methodHandle kind i =>
    apply (consumes_byte kind).bind
    exact (consumes_u16 i.toNat_lt).map (Constant.methodHandle kind)
  | nameAndType i j => exact consumes_pair Constant.nameAndType i j
  | dynamic i j => exact consumes_pair Constant.dynamic i j
  | invokeDynamic i j => exact consumes_pair Constant.invokeDynamic i j
  | classRef i => exact (consumes_u16 i.toNat_lt).map Constant.classRef
  | string i => exact (consumes_u16 i.toNat_lt).map Constant.string
  | methodType i => exact (consumes_u16 i.toNat_lt).map Constant.methodType
  | moduleRef i => exact (consumes_u16 i.toNat_lt).map Constant.moduleRef
  | packageRef i => exact (consumes_u16 i.toNat_lt).map Constant.packageRef

end WrittenConstant

namespace ConstantPool

def totalWidth : List WrittenConstant → Nat
  | [] => 0
  | w :: ws => w.width + totalWidth ws

/--
A pool, which starts with the number of its indices. The index zero counts.
-/
def bytes (ws : List WrittenConstant) : List UInt8 :=
  numberBytes 2 (1 + totalWidth ws) ++ ws.flatMap WrittenConstant.bytes

/--
The index of the constant at a position, which stands behind those that the constants before it take.
-/
def indexOf (ws : List WrittenConstant) (position : Nat) : Nat :=
  1 + totalWidth (ws.take position)

def placesOf (ws : List WrittenConstant) : List (Option Constant) :=
  ws.flatMap fun w => w.constant.places.toList

def ofConstants (ws : List WrittenConstant) : ConstantPool :=
  ⟨#[none] ++ (placesOf ws).toArray⟩

theorem placesOf_cons (w : WrittenConstant) (ws : List WrittenConstant)
    : placesOf (w :: ws) = some w.constant :: (List.replicate (w.width - 1) none ++ placesOf ws) := by
  rw [placesOf, List.flatMap_cons, w.places_constant, List.cons_append, placesOf]

theorem consumes_readPlaces (ws : List WrittenConstant)
    : ∀ taken, Consumes (readPlaces (totalWidth ws) taken : Reader (Array (Option Constant)))
        (ws.flatMap WrittenConstant.bytes) (taken ++ (placesOf ws).toArray) := by
  induction ws with
  | nil =>
    intro taken offset rest
    rw [readPlaces]
    simp [totalWidth, placesOf]
  | cons w ws ih =>
    intro taken offset rest
    have hpos := w.width_pos
    have hrest := ih (taken ++ w.constant.places) (offset + w.bytes.length) rest
    have hplaces : taken ++ w.constant.places ++ (placesOf ws).toArray
        = taken ++ (placesOf (w :: ws)).toArray := by
      rw [← Array.toList_inj]
      simp [placesOf]
    rw [totalWidth, readPlaces, dif_neg (by omega), List.flatMap_cons, List.append_assoc,
      w.consumes]
    dsimp only
    rw [w.width_constant, Nat.add_sub_cancel_left, hrest, hplaces, List.length_append, Nat.add_assoc]

theorem getElem?_placesOf_totalWidth {ws : List WrittenConstant} {position : Nat}
    (h : position < ws.length)
    : (placesOf ws)[totalWidth (ws.take position)]? = some (some ws[position].constant) := by
  induction ws generalizing position with
  | nil => exact absurd h (Nat.not_lt_zero _)
  | cons w ws ih =>
    cases position with
    | zero => rw [placesOf_cons]; rfl
    | succ position =>
      have hpos := w.width_pos
      have hskip : w.width + totalWidth (ws.take position)
          = totalWidth (ws.take position) + (w.width - 1) + 1 := by omega
      rw [List.take_succ_cons, totalWidth, hskip, placesOf_cons, List.getElem?_cons_succ,
        List.getElem?_append_right (by rw [List.length_replicate]; omega), List.length_replicate,
        Nat.add_sub_cancel, ih (Nat.lt_of_succ_lt_succ h)]
      rfl

theorem exists_of_getElem?_placesOf {ws : List WrittenConstant} {i : Nat} {c : Constant}
    (h : (placesOf ws)[i]? = some (some c))
    : ∃ position < ws.length, i = totalWidth (ws.take position) := by
  -- The second index of a wide constant leads nowhere.
  induction ws generalizing i with
  | nil => cases h
  | cons w ws ih =>
    cases i with
    | zero => exact ⟨0, Nat.zero_lt_succ _, rfl⟩
    | succ i =>
      have hpos := w.width_pos
      rw [placesOf_cons, List.getElem?_cons_succ] at h
      by_cases hi : i < w.width - 1
      . rw [List.getElem?_append_left (by rw [List.length_replicate]; exact hi),
          List.getElem?_replicate_of_lt hi] at h
        cases h
      . rw [List.getElem?_append_right (by rw [List.length_replicate]; omega),
          List.length_replicate] at h
        rcases ih h with ⟨position, hposition, hi'⟩
        refine ⟨position + 1, Nat.succ_lt_succ hposition, ?_⟩
        rw [List.take_succ_cons, totalWidth]
        omega

theorem consumes_read {ws : List WrittenConstant} (h : 1 + totalWidth ws ≤ 65535)
    : Consumes ConstantPool.read (bytes ws) (ofConstants ws) := by
  apply (consumes_u16 (Nat.lt_succ_of_le h)).bind
  rw [Nat.add_sub_cancel_left]
  exact (consumes_readPlaces ws #[none]).map ConstantPool.mk

theorem has_ofConstants_iff {ws : List WrittenConstant} {i : Nat} {c : Constant}
    : (ofConstants ws).Has (1 + i) c ↔ (placesOf ws)[i]? = some (some c) := by
  rw [Has, ofConstants, Nat.add_comm]
  simp

theorem get_eq_error {pool : ConstantPool} {index : Nat} (h : ∀ constant, ¬ pool.Has index constant)
    : pool.get index = .error (.badConstant index .usableEntry) := by
  unfold get
  split
  . next hplace => exact absurd hplace (h _)
  . rfl

theorem get_ofConstants_indexOf {ws : List WrittenConstant} {j : Nat} (hj : j < ws.length)
    : (ofConstants ws).get (indexOf ws j) = .ok ws[j].constant := by
  apply get_eq_ok
  rw [indexOf, has_ofConstants_iff, getElem?_placesOf_totalWidth hj]

theorem get_ofConstants_eq_error {ws : List WrittenConstant} {i : Nat}
    (h : ∀ j < ws.length, i ≠ indexOf ws j)
    : (ofConstants ws).get i = .error (.badConstant i .usableEntry) := by
  apply get_eq_error
  intro constant hhas
  cases i with
  | zero => simp [Has, ofConstants] at hhas
  | succ i =>
    rw [Nat.add_comm, has_ofConstants_iff] at hhas
    rcases exists_of_getElem?_placesOf hhas with ⟨j, hj, rfl⟩
    exact h j hj (Nat.add_comm _ _)

/--
Every constant is found at the index behind those that the constants before it take, and no other index
leads to a constant, whatever follows the pool.
-/
theorem exists_consumes_read_get_indexOf (ws : List WrittenConstant) (h : 1 + totalWidth ws ≤ 65535)
    : ∃ pool, Consumes ConstantPool.read (bytes ws) pool
        ∧ (∀ j, ∀ hj : j < ws.length, pool.get (indexOf ws j) = .ok ws[j].constant)
        ∧ ∀ i, (∀ j < ws.length, i ≠ indexOf ws j) →
            pool.get i = .error (.badConstant i .usableEntry) :=
  ⟨ofConstants ws, consumes_read h, fun _ => get_ofConstants_indexOf, fun _ => get_ofConstants_eq_error⟩

theorem exists_consumes_read_get_indexOf_wide :
    let ws : List WrittenConstant := [.wideNumber 5 7 (by decide), .utf8 [0x61] (by decide),
      .wideNumber 6 0 (by decide), .classRef 3, .wideNumber 5 9 (by decide)]
    1 + totalWidth ws ≤ 65535
      ∧ ∃ pool, Consumes ConstantPool.read (bytes ws) pool
        ∧ (∀ j, ∀ hj : j < ws.length, pool.get (indexOf ws j) = .ok ws[j].constant)
        ∧ ∀ i, (∀ j < ws.length, i ≠ indexOf ws j) →
            pool.get i = .error (.badConstant i .usableEntry) := by
  intro ws
  have h : 1 + totalWidth ws ≤ 65535 := by decide
  exact ⟨h, exists_consumes_read_get_indexOf ws h⟩

end ConstantPool
end ArtifactAudit.ClassFile
