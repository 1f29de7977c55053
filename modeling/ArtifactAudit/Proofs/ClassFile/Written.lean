import Mathlib.Algebra.Group.Nat.Defs
import Mathlib.Data.List.Basic
import ArtifactAudit.Proofs.ClassFile.Reader

/-!
This module contains how the numbers and tables of class files are written, and that a reader takes
just what is written, whatever follows it.
-/

namespace ArtifactAudit.ClassFile

variable {α β : Type}

def numberBytes : (count : Nat) → (n : Nat) → List UInt8
  | 0, _ => []
  | count + 1, n => numberBytes count (n / 256) ++ [UInt8.ofNat n]

def tableBytes (entryBytes : α → List UInt8) (entries : List α) : List UInt8 :=
  numberBytes 2 entries.length ++ entries.flatMap entryBytes

@[simp]
theorem length_numberBytes (count n : Nat) : (numberBytes count n).length = count := by
  induction count generalizing n with
  | zero => rfl
  | succ count ih => simp [numberBytes, ih]

theorem length_le_length_flatMap (entryBytes : α → List UInt8) {entries : List α}
    {entry : α} (h : entry ∈ entries)
    : (entryBytes entry).length ≤ (entries.flatMap entryBytes).length := by
  apply List.Sublist.length_le
  rw [List.flatMap_def]
  exact List.sublist_flatten_of_mem (List.mem_map_of_mem h)

theorem length_le_length_tableBytes (entryBytes : α → List UInt8) {entries : List α}
    {entry : α} (h : entry ∈ entries)
    : (entryBytes entry).length ≤ (tableBytes entryBytes entries).length := by
  rw [tableBytes, List.length_append]
  exact Nat.le_add_left_of_le (length_le_length_flatMap entryBytes h)

namespace Reader

theorem bigEndian_numberBytes (count : Nat)
    : ∀ n, n < 256 ^ count → bigEndian (numberBytes count n) = n := by
  induction count with
  | zero =>
    intro n hn
    rw [Nat.pow_zero, Nat.lt_one_iff] at hn
    rw [hn]
    rfl
  | succ count ih =>
    intro n hn
    rw [Nat.pow_succ, Nat.mul_comm] at hn
    have hhigh : bigEndian (numberBytes count (n / 256)) = n / 256 :=
      ih _ (Nat.div_lt_of_lt_mul hn)
    unfold bigEndian at *
    rw [numberBytes, List.foldl_append, hhigh, List.foldl_cons, List.foldl_nil, UInt8.toNat_ofNat']
    omega

/--
Whether a reader takes some bytes for a result, whatever stands before and behind them.
-/
def Consumes (reader : Reader α) (taken : List UInt8) (a : α) : Prop :=
  ∀ offset rest, reader ⟨taken ++ rest, offset⟩ = .ok (a, ⟨rest, offset + taken.length⟩)

theorem Consumes.bind {reader : Reader α} {next : α → Reader β} {taken more : List UInt8} {a : α}
    {b : β} (h : Consumes reader taken a) (hnext : Consumes (next a) more b)
    : Consumes (reader >>= next) (taken ++ more) b := by
  intro offset rest
  rw [run_bind, List.append_assoc, h]
  dsimp only
  rw [hnext, List.length_append, Nat.add_assoc]

theorem consumes_pure (a : α) : Consumes (pure a : Reader α) [] a :=
  fun _ _ => rfl

theorem Consumes.bind_nil {reader : Reader α} {next : α → Reader β} {taken : List UInt8} {a : α}
    {b : β} (h : Consumes reader taken a) (hnext : Consumes (next a) [] b)
    : Consumes (reader >>= next) taken b := by
  have hbind := h.bind hnext
  rwa [List.append_nil] at hbind

theorem Consumes.map {reader : Reader α} {taken : List UInt8} {a : α}
    (h : Consumes reader taken a) (f : α → β)
    : Consumes (reader >>= fun a => pure (f a)) taken (f a) :=
  h.bind_nil (consumes_pure (f a))

theorem Consumes.of_ok {result : Except Fault α} {next : α → Reader β} {taken : List UInt8} {a : α}
    {b : β} (h : result = .ok a) (hnext : Consumes (next a) taken b)
    : Consumes (liftM result >>= next) taken b := by
  subst h
  exact hnext

theorem consumes_bytes {count : Nat} {taken : List UInt8} (h : taken.length = count)
    : Consumes (bytes count) taken taken := by
  intro offset rest
  simp [bytes, ← h]

theorem consumes_skip {count : Nat} {taken : List UInt8} (h : taken.length = count)
    : Consumes (skip count) taken () :=
  (consumes_bytes h).map fun _ => ()

theorem consumes_byte (b : UInt8) : Consumes byte [b] b :=
  fun _ _ => rfl

theorem consumes_u16 {n : Nat} (h : n < 2 ^ 16) : Consumes u16 (numberBytes 2 n) n := by
  have hread := (consumes_bytes (length_numberBytes 2 n)).map bigEndian
  rwa [bigEndian_numberBytes 2 n h] at hread

theorem consumes_u32 {n : Nat} (h : n < 2 ^ 32) : Consumes u32 (numberBytes 4 n) n := by
  have hread := (consumes_bytes (length_numberBytes 4 n)).map bigEndian
  rwa [bigEndian_numberBytes 4 n h] at hread

theorem consumes_i32 (n : Int32) : Consumes i32 (numberBytes 4 n.toUInt32.toNat) n.toInt := by
  have hread := (consumes_u32 n.toUInt32.toNat_lt).map fun m => Int.bmod m UInt32.size
  have hvalue : Int.bmod n.toUInt32.toNat UInt32.size = n.toInt :=
    (BitVec.toInt_eq_toNat_bmod n.toBitVec).symm
  rwa [hvalue] at hread

theorem consumes_i32_of_lt {n : Nat} (h : n < 2 ^ 31) : Consumes i32 (numberBytes 4 n) n := by
  have hread := (consumes_u32 (Nat.lt_trans h (by decide))).map fun m => Int.bmod m UInt32.size
  have hvalue : Int.bmod n UInt32.size = n := by
    apply Int.bmod_eq_of_le
    . omega
    . unfold UInt32.size
      omega
  rwa [hvalue] at hread

theorem Consumes.times {reader : Reader β} {entryBytes : α → List UInt8} {result : α → β}
    {entries : List α} (h : ∀ entry ∈ entries, Consumes reader (entryBytes entry) (result entry))
    : Consumes (times entries.length reader) (entries.flatMap entryBytes) (entries.map result) := by
  induction entries with
  | nil => exact consumes_pure []
  | cons entry entries ih =>
    rw [List.length_cons, times_succ]
    apply (h entry List.mem_cons_self).bind
    apply Consumes.map
    exact ih fun other hother => h other (List.mem_cons_of_mem _ hother)

theorem Consumes.table {reader : Reader β} {entryBytes : α → List UInt8} {result : α → β}
    {entries : List α} (hlength : entries.length < 2 ^ 16)
    (h : ∀ entry ∈ entries, Consumes reader (entryBytes entry) (result entry))
    : Consumes (table reader) (tableBytes entryBytes entries) (entries.map result) :=
  (consumes_u16 hlength).bind (Consumes.times h)

end Reader
end ArtifactAudit.ClassFile
