import Mathlib.Algebra.Group.Nat.Defs
import ArtifactAudit.ClassFile.ModifiedUtf8
import ArtifactAudit.Proofs.Text.Utf8

/-!
This module contains how the virtual machine writes texts. Its main statement is that a text is read back
from what is written for it, whether or not the bytes happen to be UTF-8 as they stand.
-/

namespace ArtifactAudit.ClassFile.ModifiedUtf8

def highSurrogate (c : Char) : UInt16 :=
  UInt16.ofNat (0xD800 + (c.toNat - 0x10000) / 0x400)

def lowSurrogate (c : Char) : UInt16 :=
  UInt16.ofNat (0xDC00 + (c.toNat - 0x10000) % 0x400)

def charUnits (c : Char) : List UInt16 :=
  if c.toNat < 0x10000 then [UInt16.ofNat c.toNat] else [highSurrogate c, lowSurrogate c]

/--
The bytes of a code unit. Zero takes two of them, so that none is zero.
-/
def unitBytes (u : UInt16) : List UInt8 :=
  let n := u.toNat
  if n ≠ 0 ∧ n < 0x80 then [UInt8.ofNat n]
  else if n < 0x800 then [UInt8.ofNat (0xC0 + n / 64), UInt8.ofNat (0x80 + n % 64)]
  else
    [UInt8.ofNat (0xE0 + n / 4096), UInt8.ofNat (0x80 + n / 64 % 64), UInt8.ofNat (0x80 + n % 64)]

def charBytes (c : Char) : List UInt8 :=
  (charUnits c).flatMap unitBytes

def textBytes (s : String) : List UInt8 :=
  s.toList.flatMap charBytes

theorem toNat_lt_or (c : Char) : c.toNat < 0xD800 ∨ (0xDFFF < c.toNat ∧ c.toNat < 0x110000) :=
  c.valid

theorem toNat_highSurrogate (c : Char)
    : (highSurrogate c).toNat = 0xD800 + (c.toNat - 0x10000) / 0x400 := by
  have hvalid := toNat_lt_or c
  rw [highSurrogate, UInt16.toNat_ofNat']
  omega

theorem toNat_lowSurrogate (c : Char)
    : (lowSurrogate c).toNat = 0xDC00 + (c.toNat - 0x10000) % 0x400 := by
  rw [lowSurrogate, UInt16.toNat_ofNat']
  omega

theorem toNat_following : ∀ k < 64, (UInt8.ofNat (0x80 + k) &&& 0x3F).toNat = k := by
  decide

theorem toNat_shiftLeft_or {high low width : UInt16} (hwidth : width.toNat < 16)
    (hhigh : high.toNat * 2 ^ width.toNat < 2 ^ 16) (hlow : low.toNat < 2 ^ width.toNat)
    : (high <<< width ||| low).toNat = high.toNat * 2 ^ width.toNat + low.toNat := by
  rw [UInt16.toNat_or, UInt16.toNat_shiftLeft, Nat.mod_eq_of_lt hwidth, Nat.shiftLeft_eq,
    Nat.mod_eq_of_lt hhigh, ← Nat.shiftLeft_eq, Nat.shiftLeft_add_eq_or_of_lt hlow]

theorem toNat_two_parts {high low : UInt8} (hhigh : high.toNat < 32) (hlow : low.toNat < 64)
    : (high.toUInt16 <<< 6 ||| low.toUInt16).toNat = high.toNat * 64 + low.toNat := by
  have hroom : high.toNat * 2 ^ 6 < 2 ^ 16 := by omega
  exact toNat_shiftLeft_or (by decide) hroom hlow

theorem toNat_three_parts {high middle low : UInt8} (hhigh : high.toNat < 16)
    (hmiddle : middle.toNat < 64) (hlow : low.toNat < 64)
    : (high.toUInt16 <<< 12 ||| middle.toUInt16 <<< 6 ||| low.toUInt16).toNat
        =
      high.toNat * 4096 + (middle.toNat * 64 + low.toNat) := by
  have hrest : (middle.toUInt16 <<< 6 ||| low.toUInt16).toNat = middle.toNat * 64 + low.toNat := by
    have hroom : middle.toNat * 2 ^ 6 < 2 ^ 16 := by omega
    exact toNat_shiftLeft_or (by decide) hroom hlow
  have hroom : high.toNat * 2 ^ 12 < 2 ^ 16 := by omega
  have hlower : (middle.toUInt16 <<< 6 ||| low.toUInt16).toNat < 2 ^ 12 := by omega
  rw [UInt16.or_assoc, ← hrest]
  exact toNat_shiftLeft_or (by decide) hroom hlower

theorem units_single {b : UInt8} (hb : b < 0x80) (rest : List UInt8)
    : units (b :: rest) = b.toUInt16 :: units rest := by
  rw [units.eq_def]
  dsimp only
  rw [if_pos hb]

theorem units_double {b₀ b₁ : UInt8} (hfirst : ¬ b₀ < 0x80) (hmark : (b₀ &&& 0xE0 == 0xC0) = true)
    (rest : List UInt8)
    : units (b₀ :: b₁ :: rest)
        =
      (((b₀ &&& 0x1F).toUInt16 <<< 6) ||| (b₁ &&& 0x3F).toUInt16) :: units rest := by
  rw [units, if_neg hfirst, if_pos hmark]

theorem units_triple {b₀ b₁ b₂ : UInt8} (hfirst : ¬ b₀ < 0x80)
    (hother : ¬ (b₀ &&& 0xE0 == 0xC0) = true) (hmark : (b₀ &&& 0xF0 == 0xE0) = true) (rest : List UInt8)
    : units (b₀ :: b₁ :: b₂ :: rest)
        =
      (((b₀ &&& 0x0F).toUInt16 <<< 12) ||| ((b₁ &&& 0x3F).toUInt16 <<< 6) |||
        (b₂ &&& 0x3F).toUInt16) :: units rest := by
  rw [units, if_neg hfirst, if_neg hother, if_pos hmark]

theorem units_unitBytes (u : UInt16) (rest : List UInt8)
    : units (unitBytes u ++ rest) = u :: units rest := by
  have hbound : u.toNat < 65536 := u.toNat_lt
  unfold unitBytes
  extract_lets n
  split
  . have hsingle : ∀ k < 0x80, UInt8.ofNat k < 0x80 ∧ (UInt8.ofNat k).toNat = k := by decide
    rcases hsingle n (by omega) with ⟨hfirst, hvalue⟩
    rw [List.singleton_append, units_single hfirst]
    congr 1
    rw [← UInt16.toNat_inj, UInt8.toNat_toUInt16, hvalue]
  . split
    . have hlead : ∀ k < 32, ¬ UInt8.ofNat (0xC0 + k) < 0x80
          ∧ (UInt8.ofNat (0xC0 + k) &&& 0xE0 == 0xC0) = true
          ∧ (UInt8.ofNat (0xC0 + k) &&& 0x1F).toNat = k := by decide
      rcases hlead (n / 64) (by omega) with ⟨hfirst, hmark, hhigh⟩
      have hlow := toNat_following (n % 64) (by omega)
      rw [List.cons_append, List.cons_append, List.nil_append, units_double hfirst hmark]
      congr 1
      rw [← UInt16.toNat_inj, toNat_two_parts (by omega) (by omega), hhigh, hlow]
      omega
    . have hlead : ∀ k < 16, ¬ UInt8.ofNat (0xE0 + k) < 0x80
          ∧ ¬ (UInt8.ofNat (0xE0 + k) &&& 0xE0 == 0xC0) = true
          ∧ (UInt8.ofNat (0xE0 + k) &&& 0xF0 == 0xE0) = true
          ∧ (UInt8.ofNat (0xE0 + k) &&& 0x0F).toNat = k := by decide
      rcases hlead (n / 4096) (by omega) with ⟨hfirst, hother, hmark, hhigh⟩
      have hmiddle := toNat_following (n / 64 % 64) (by omega)
      have hlow := toNat_following (n % 64) (by omega)
      rw [List.cons_append, List.cons_append, List.cons_append, List.nil_append,
        units_triple hfirst hother hmark]
      congr 1
      rw [← UInt16.toNat_inj, toNat_three_parts (by omega) (by omega) (by omega), hhigh, hmiddle, hlow]
      omega

theorem units_flatMap_unitBytes (us : List UInt16) : units (us.flatMap unitBytes) = us := by
  induction us with
  | nil => rw [List.flatMap_nil, units]
  | cons u us ih => rw [List.flatMap_cons, units_unitBytes, ih]

theorem isHighSurrogate_iff {u : UInt16}
    : isHighSurrogate u = true ↔ 0xD800 ≤ u.toNat ∧ u.toNat < 0xDC00 := by
  simp [isHighSurrogate, UInt16.le_iff_toNat_le, UInt16.lt_iff_toNat_lt]

theorem isLowSurrogate_iff {u : UInt16}
    : isLowSurrogate u = true ↔ 0xDC00 ≤ u.toNat ∧ u.toNat < 0xE000 := by
  simp [isLowSurrogate, UInt16.le_iff_toNat_le, UInt16.lt_iff_toNat_lt]

theorem chars_charUnits (c : Char) (rest : List UInt16)
    : chars (charUnits c ++ rest) = c :: chars rest := by
  have hvalid := toNat_lt_or c
  unfold charUnits
  split
  . next hbasic =>
    have hunit : (UInt16.ofNat c.toNat).toNat = c.toNat := UInt16.toNat_ofNat_of_lt' hbasic
    have hhigh : ¬ isHighSurrogate (UInt16.ofNat c.toNat) = true := by
      rw [isHighSurrogate_iff, hunit]
      omega
    have hlow : ¬ isLowSurrogate (UInt16.ofNat c.toNat) = true := by
      rw [isLowSurrogate_iff, hunit]
      omega
    rw [List.singleton_append, chars.eq_def]
    dsimp only
    rw [if_neg hhigh, if_neg hlow, hunit, Char.ofNat_toNat]
  . have hhigh : isHighSurrogate (highSurrogate c) = true := by
      rw [isHighSurrogate_iff, toNat_highSurrogate]
      omega
    have hlow : isLowSurrogate (lowSurrogate c) = true := by
      rw [isLowSurrogate_iff, toNat_lowSurrogate]
      omega
    have hpair : pairChar (highSurrogate c) (lowSurrogate c) = c := by
      rw [pairChar, toNat_highSurrogate, toNat_lowSurrogate]
      have hsum : 0x10000 + (0xD800 + (c.toNat - 0x10000) / 0x400 - 0xD800) * 0x400
          + (0xDC00 + (c.toNat - 0x10000) % 0x400 - 0xDC00) = c.toNat := by omega
      rw [hsum, Char.ofNat_toNat]
    rw [List.cons_append, List.singleton_append, chars, if_pos hhigh, if_pos hlow, hpair]

theorem chars_flatMap_charUnits (cs : List Char) : chars (cs.flatMap charUnits) = cs := by
  induction cs with
  | nil => rw [List.flatMap_nil, chars]
  | cons c cs ih => rw [List.flatMap_cons, chars_charUnits, ih]

theorem charBytes_eq_utf8EncodeChar {c : Char} (hzero : c.toNat ≠ 0) (hbasic : c.toNat < 0x10000)
    : charBytes c = String.utf8EncodeChar c := by
  have hunit : (UInt16.ofNat c.toNat).toNat = c.toNat := UInt16.toNat_ofNat_of_lt' hbasic
  rw [charBytes, charUnits, if_pos hbasic, List.flatMap_singleton, unitBytes, hunit,
    String.utf8EncodeChar, Char.toNat_val]
  generalize c.toNat = n at *
  have hsingle : (n ≠ 0 ∧ n < 0x80) ↔ n ≤ 127 := by omega
  have hdouble : n < 0x800 ↔ n ≤ 2047 := by omega
  have htriple : n ≤ 65535 := by omega
  simp only [hsingle, hdouble, htriple, if_true]
  split
  . rfl
  . split
    . have hlead : n / 64 % 32 + 192 = 0xC0 + n / 64 := by omega
      rw [hlead, Nat.add_comm 0x80]
    . have hlead : n / 4096 % 16 + 224 = 0xE0 + n / 4096 := by omega
      rw [hlead, Nat.add_comm 0x80, Nat.add_comm 0x80]

theorem exists_utf8EncodeChar_eq_cons (c : Char)
    : ∃ first rest, String.utf8EncodeChar c = first :: rest ∧ first.toNat ≠ 0xC0
        ∧ (first.toNat = 0xED → ∃ second tail, rest = second :: tail ∧ second.toNat < 0xA0) := by
  have hvalid := toNat_lt_or c
  rw [String.utf8EncodeChar, Char.toNat_val]
  generalize c.toNat = n at *
  split
  . refine ⟨_, _, rfl, ?_⟩
    rw [UInt8.toNat_ofNat']
    omega
  . split
    . refine ⟨_, _, rfl, ?_⟩
      rw [UInt8.toNat_ofNat']
      omega
    . split
      . refine ⟨_, _, rfl, ?_, fun hfirst => ⟨_, _, rfl, ?_⟩⟩
        . rw [UInt8.toNat_ofNat']
          omega
        . rw [UInt8.toNat_ofNat'] at *
          omega
      . refine ⟨_, _, rfl, ?_⟩
        rw [UInt8.toNat_ofNat']
        omega

theorem exists_charBytes_eq_cons {c : Char} (h : 0x10000 ≤ c.toNat)
    : ∃ first second tail, charBytes c = first :: second :: tail ∧ first.toNat = 0xED
        ∧ 0xA0 ≤ second.toNat := by
  have hvalid := toNat_lt_or c
  rw [charBytes, charUnits, if_neg (by omega), List.flatMap_cons, unitBytes, toNat_highSurrogate,
    if_neg (by omega), if_neg (by omega)]
  refine ⟨_, _, _, rfl, ?_, ?_⟩
  . rw [UInt8.toNat_ofNat']
    omega
  . rw [UInt8.toNat_ofNat']
    omega

theorem eq_of_utf8EncodeChar_append {c d : Char} {rest tail : List UInt8}
    (h : String.utf8EncodeChar c ++ rest = charBytes d ++ tail)
    : c = d ∧ rest = tail := by
  rcases exists_utf8EncodeChar_eq_cons c with ⟨first, others, hutf8, hnull, hsurrogate⟩
  by_cases hzero : d.toNat = 0
  . have hd : d = '\x00' := by rw [← Char.toNat_inj, hzero]; rfl
    have hbytes : charBytes '\x00' = [0xC0, 0x80] := rfl
    rw [hd, hbytes, hutf8, List.cons_append, List.cons_append] at h
    injection h with hfirst _
    rw [hfirst] at hnull
    exact absurd rfl hnull
  by_cases hbasic : d.toNat < 0x10000
  . rw [charBytes_eq_utf8EncodeChar hzero hbasic] at h
    have hc := ByteArray.utf8DecodeChar?_utf8EncodeChar_append (b := rest.toByteArray) (c := c)
    have hd := ByteArray.utf8DecodeChar?_utf8EncodeChar_append (b := tail.toByteArray) (c := d)
    rw [← List.toByteArray_append] at hc hd
    rw [h, hd, Option.some.injEq] at hc
    subst hc
    exact ⟨rfl, List.append_cancel_left h⟩
  . rcases exists_charBytes_eq_cons (Nat.le_of_not_lt hbasic)
      with ⟨lead, second, more, hbytes, hlead, hsecond⟩
    rw [hbytes, hutf8, List.cons_append, List.cons_append] at h
    injection h with hfirst hrest
    rcases hsurrogate (hfirst ▸ hlead) with ⟨follower, after, rfl, hfollower⟩
    injection hrest with hfollower_eq _
    rw [hfollower_eq] at hfollower
    omega

theorem unitBytes_ne_nil (u : UInt16) : unitBytes u ≠ [] := by
  unfold unitBytes
  extract_lets
  split
  . exact List.cons_ne_nil _ _
  . split <;> exact List.cons_ne_nil _ _

theorem charBytes_ne_nil (c : Char) : charBytes c ≠ [] := by
  unfold charBytes charUnits
  split <;> simp [unitBytes_ne_nil]

theorem eq_of_flatMap_utf8EncodeChar {cs ds : List Char}
    (h : cs.flatMap String.utf8EncodeChar = ds.flatMap charBytes)
    : cs = ds := by
  induction cs generalizing ds with
  | nil =>
    cases ds with
    | nil => rfl
    | cons d ds =>
      rw [List.flatMap_nil, List.flatMap_cons] at h
      exact absurd (List.append_eq_nil_iff.1 h.symm).1 (charBytes_ne_nil d)
  | cons c cs ih =>
    cases ds with
    | nil =>
      rw [List.flatMap_nil, List.flatMap_cons] at h
      exact absurd (List.append_eq_nil_iff.1 h).1 String.utf8EncodeChar_ne_nil
    | cons d ds =>
      rw [List.flatMap_cons, List.flatMap_cons] at h
      rcases eq_of_utf8EncodeChar_append h with ⟨rfl, hrest⟩
      rw [ih hrest]

/--
A text is read back from what is written for it. The bytes may be UTF-8 as they stand, but then they
are the UTF-8 of this text and of no other.
-/
theorem decode_textBytes (s : String) : decode (textBytes s) = s := by
  unfold decode
  split
  . next t heq =>
    have hvalid : t.toByteArray = (textBytes s).toByteArray := by
      unfold String.fromUTF8? at heq
      split at heq
      . cases heq
        rfl
      . cases heq
    have hbytes : t.toList.flatMap String.utf8EncodeChar = s.toList.flatMap charBytes := by
      rw [← Text.toUTF8_eq_flatMap, String.toUTF8_eq_toByteArray, hvalid, List.data_toByteArray]
      rfl
    rw [← String.toList_inj, eq_of_flatMap_utf8EncodeChar hbytes]
  . have hunits : textBytes s = (s.toList.flatMap charUnits).flatMap unitBytes :=
      List.flatMap_assoc.symm
    rw [hunits, units_flatMap_unitBytes, chars_flatMap_charUnits, String.ofList_toList]

example : textBytes "a\x00é😀" = [0x61, 0xC0, 0x80, 0xC3, 0xA9, 0xED, 0xA0, 0xBD, 0xED, 0xB8, 0x80] := by
  decide

end ArtifactAudit.ClassFile.ModifiedUtf8
