import Mathlib.Algebra.Group.Nat.Defs
import ArtifactAudit.Archive.Gzip

/-!
This module contains the proof that what is written in the gzip format is read back.
-/

namespace ArtifactAudit.Archive

namespace LittleEndian

theorem length_bytes (count n : Nat) : (bytes count n).length = count := by
  induction count generalizing n with
  | zero => rfl
  | succ count ih => rw [bytes, List.length_cons, ih]

theorem value_bytes {count n : Nat} (h : n < 256 ^ count) : value (bytes count n) = n := by
  induction count generalizing n with
  | zero =>
    rw [Nat.pow_zero, Nat.lt_one_iff] at h
    rw [h]
    rfl
  | succ count ih =>
    have hrest : n / 256 < 256 ^ count := by
      rw [Nat.pow_succ] at h
      exact Nat.div_lt_of_lt_mul (by omega)
    have hcons : value (bytes (count + 1) n)
        = n.toUInt8.toNat + 256 * value (bytes count (n / 256)) := rfl
    rw [hcons, ih hrest, Nat.toUInt8, UInt8.toNat_ofNat']
    omega

end LittleEndian

theorem BitReader.run_bind {α β : Type} {reader : BitReader α} {next : α → BitReader β} {a : α}
    {bits after : Bits} (h : reader.run bits = .ok (a, after))
    : (reader >>= next).run bits = (next a).run after := by
  rw [StateT.run_bind, h]
  rfl

namespace Bits

theorem run_bytes (pending : List Bool) (data rest : List UInt8)
    : (bytes data.length).run ⟨pending, data ++ rest⟩ = .ok (data, ⟨[], rest⟩) := by
  change bytes data.length ⟨pending, data ++ rest⟩ = _
  simp [bytes]

theorem run_u16 (pending : List Bool) {n : Nat} (h : n < 256 ^ 2) (rest : List UInt8)
    : u16.run ⟨pending, LittleEndian.bytes 2 n ++ rest⟩ = .ok (n, ⟨[], rest⟩) := by
  have hbytes := run_bytes pending (LittleEndian.bytes 2 n) rest
  have hvalue : n.toUInt8.toNat + 256 * (n / 256).toUInt8.toNat = n :=
    LittleEndian.value_bytes h
  rw [LittleEndian.length_bytes] at hbytes
  rw [u16, BitReader.run_bind hbytes]
  change Except.ok (_, _) = _
  rw [hvalue]

theorem run_bit_header (last : Bool) (rest : List UInt8)
    : bit.run ⟨[], (if last then 1 else 0) :: rest⟩
        = .ok (last, ⟨List.replicate 7 false, rest⟩) := by
  cases last <;> rfl

theorem run_number_header (rest : List UInt8)
    : (number 2).run ⟨List.replicate 7 false, rest⟩
        = .ok (0, ⟨List.replicate 5 false, rest⟩) := rfl

end Bits

namespace Inflate

theorem run_storedLength (pending : List Bool) {n : Nat} (h : n ≤ 0xFFFF) (rest : List UInt8)
    : storedLength.run ⟨pending,
        LittleEndian.bytes 2 n ++ (LittleEndian.bytes 2 (0xFFFF - n) ++ rest)⟩
      = .ok (n, ⟨[], rest⟩) := by
  have hfirst := Bits.run_u16 pending (show n < 256 ^ 2 by omega)
    (LittleEndian.bytes 2 (0xFFFF - n) ++ rest)
  have hsecond := Bits.run_u16 [] (show 0xFFFF - n < 256 ^ 2 by omega) rest
  have hsum : n + (0xFFFF - n) = 0xFFFF := by omega
  rw [storedLength, BitReader.run_bind hfirst, BitReader.run_bind hsecond, hsum]
  rfl

theorem run_storedBlock (pending : List Bool) {data : List UInt8} (h : data.length ≤ 0xFFFF)
    (out : Array UInt8) (rest : List UInt8)
    : (storedBlock out).run ⟨pending, LittleEndian.bytes 2 data.length ++
        (LittleEndian.bytes 2 (0xFFFF - data.length) ++ (data ++ rest))⟩
      = .ok (out ++ data, ⟨[], rest⟩) := by
  rw [storedBlock, BitReader.run_bind (run_storedLength pending h (data ++ rest)),
    BitReader.run_bind (Bits.run_bytes [] data rest)]
  rfl

theorem run_blocks_storedBlock (limit steps : Nat) (last : Bool) {data : List UInt8}
    (h : data.length ≤ Gzip.blockLimit) (out : Array UInt8) (rest : List UInt8)
    : (blocks limit (steps + 1) out).run ⟨[], Gzip.storedBlock last data ++ rest⟩
      = if last then .ok (out ++ data, ⟨[], rest⟩)
        else (blocks limit steps (out ++ data)).run ⟨[], rest⟩ := by
  have hblock : (block 0 limit out).run ⟨List.replicate 5 false, LittleEndian.bytes 2 data.length ++
      (LittleEndian.bytes 2 (0xFFFF - data.length) ++ (data ++ rest))⟩
      = .ok (out ++ data, ⟨[], rest⟩) :=
    run_storedBlock (List.replicate 5 false) h out rest
  have hbytes : Gzip.storedBlock last data ++ rest
      = (if last then 1 else 0) :: (LittleEndian.bytes 2 data.length ++
          (LittleEndian.bytes 2 (0xFFFF - data.length) ++ (data ++ rest))) := by
    simp [Gzip.storedBlock]
  rw [blocks, hbytes, BitReader.run_bind (Bits.run_bit_header last _),
    BitReader.run_bind (Bits.run_number_header _), BitReader.run_bind hblock]
  cases last <;> rfl

theorem run_blocks_storedBlocks (limit : Nat) {steps count : Nat} {data : List UInt8}
    (hsteps : data.length < steps) (hcount : steps ≤ count) (out : Array UInt8)
    (rest : List UInt8)
    : (blocks limit count out).run ⟨[], Gzip.storedBlocks steps data ++ rest⟩
      = .ok (out ++ data, ⟨[], rest⟩) := by
  -- There are more steps than bytes, so the steps reach to the last block.
  induction steps generalizing count data out with
  | zero => omega
  | succ steps ih =>
    rcases Nat.exists_eq_succ_of_ne_zero (show count ≠ 0 by omega) with ⟨count, rfl⟩
    rw [Gzip.storedBlocks]
    split
    . next hlast =>
      rw [run_blocks_storedBlock limit count true hlast, if_pos rfl]
    . next hmore =>
      have htake : (data.take Gzip.blockLimit).length ≤ Gzip.blockLimit := by
        rw [List.length_take]
        omega
      have hdrop : (data.drop Gzip.blockLimit).length < steps := by
        rw [List.length_drop, Gzip.blockLimit]
        rw [Gzip.blockLimit] at hmore
        omega
      rw [List.append_assoc, run_blocks_storedBlock limit count false htake, if_neg (by decide),
        ih hdrop (by omega)]
      have hdata : out ++ data.take Gzip.blockLimit ++ data.drop Gzip.blockLimit = out ++ data := by
        apply Array.ext'
        simp
      rw [hdata]

end Inflate

namespace Gzip

theorem length_le_storedBlock (last : Bool) (data : List UInt8)
    : data.length ≤ (storedBlock last data).length := by
  rw [storedBlock, List.length_append]
  exact Nat.le_add_left _ _

theorem length_le_storedBlocks {steps : Nat} {data : List UInt8} (h : data.length < steps)
    : data.length ≤ (storedBlocks steps data).length := by
  induction steps generalizing data with
  | zero => omega
  | succ steps ih =>
    rw [storedBlocks]
    split
    . exact length_le_storedBlock true data
    . next hmore =>
      have htake := length_le_storedBlock false (data.take blockLimit)
      have hdrop : (data.drop blockLimit).length < steps := by
        rw [List.length_drop, blockLimit]
        rw [blockLimit] at hmore
        omega
      have hrest := ih hdrop
      rw [List.length_append]
      rw [List.length_take] at htake
      rw [List.length_drop] at hrest
      omega

theorem run_encoded (data rest : List UInt8)
    : Inflate.run (storedBlocks (data.length + 1) data ++ rest) = .ok (data, rest) := by
  have hlength := length_le_storedBlocks (Nat.lt_add_one data.length)
  have hlimit : data.length + 1 ≤ 8 * (storedBlocks (data.length + 1) data ++ rest).length + 1 := by
    rw [List.length_append]
    omega
  have hblocks := Inflate.run_blocks_storedBlocks
    (8 * (storedBlocks (data.length + 1) data ++ rest).length + 1) (Nat.lt_add_one data.length)
    hlimit #[] rest
  rw [Inflate.run, hblocks]
  change Except.ok ((#[] ++ data : Array UInt8).toList, rest) = _
  rw [Array.toList_appendList, List.nil_append]

theorem take_append {count : Nat} {bytes : List UInt8} (h : bytes.length = count)
    (rest : List UInt8)
    : take count (bytes ++ rest) = .ok (bytes, rest) := by
  subst h
  simp [take]

theorem skipHeader_append (rest : List UInt8)
    : skipHeader ([0x1F, 0x8B, 8, 0, 0, 0, 0, 0, 0, 255] ++ rest) = .ok rest := by
  have hstart := take_append (show [0x1F, 0x8B, 8, 0, 0, 0, 0, 0, 0, 255].length = 10 from rfl) rest
  rw [skipHeader, hstart]
  rfl

theorem decode_encode (data : List UInt8) : decode (encode data) = .ok data := by
  have hrun := run_encoded data (LittleEndian.bytes 4 (crc32 data).toNat ++
    LittleEndian.bytes 4 (data.length % UInt32.size))
  have hchecksum := take_append (LittleEndian.length_bytes 4 (crc32 data).toNat)
    (LittleEndian.bytes 4 (data.length % UInt32.size))
  have hlength := take_append (LittleEndian.length_bytes 4 (data.length % UInt32.size)) []
  have hcrc : LittleEndian.value (LittleEndian.bytes 4 (crc32 data).toNat) = (crc32 data).toNat :=
    LittleEndian.value_bytes (crc32 data).toNat_lt
  have hsize : LittleEndian.value (LittleEndian.bytes 4 (data.length % UInt32.size))
      = data.length % UInt32.size :=
    LittleEndian.value_bytes (Nat.mod_lt _ (by decide))
  rw [List.append_nil] at hlength
  rw [decode, encode, List.append_assoc, List.append_assoc, skipHeader_append]
  simp only [bind, Except.bind, hrun, hchecksum, hlength, hcrc, hsize, ne_eq, not_true,
    decide_false, Bool.or_self, Bool.false_eq_true, if_false]
  rfl

end Gzip
end ArtifactAudit.Archive
