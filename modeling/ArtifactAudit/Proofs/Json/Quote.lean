import ArtifactAudit.Json.Parser
import ArtifactAudit.Json.Printer
import ArtifactAudit.Proofs.Text.Utf8

/-!
This module contains the proof that a text in quotes is read back.
-/

namespace ArtifactAudit
namespace Json

def ofByte (byte : UInt8) : Char :=
  Char.ofNat byte.toNat

def raw (s : String) : List Char :=
  s.toUTF8.data.toList.map ofByte

def rawChar (c : Char) : List Char :=
  (String.utf8EncodeChar c).map ofByte

theorem toNat_ofByte (byte : UInt8) : (ofByte byte).toNat = byte.toNat := by
  have hvalid : byte.toNat.isValidChar := .inl (Nat.lt_trans byte.toNat_lt (by decide))
  rw [ofByte, Char.ofNat, dif_pos hvalid]
  rfl

theorem raw_eq_flatMap (s : String) : raw s = s.toList.flatMap rawChar := by
  rw [raw, Text.toUTF8_eq_flatMap, List.map_flatMap]
  rfl

theorem raw_append (s t : String) : raw (s ++ t) = raw s ++ raw t := by
  rw [raw_eq_flatMap, String.toList_append, List.flatMap_append, ← raw_eq_flatMap,
    ← raw_eq_flatMap]

theorem rawChar_of_lt {c : Char} (h : c.toNat < 128) : rawChar c = [c] := by
  have hlt : c.toNat < UInt8.size := Nat.lt_trans h (by decide)
  rw [rawChar, Text.utf8EncodeChar_of_lt h, List.map_singleton, ofByte, UInt8.toNat_ofNat',
    Nat.mod_eq_of_lt hlt, Char.ofNat_toNat]

theorem raw_of_lt {s : String} (h : ∀ c ∈ s.toList, c.toNat < 128) : raw s = s.toList := by
  rw [raw_eq_flatMap]
  generalize s.toList = cs at h
  induction cs with
  | nil => rfl
  | cons c cs ih =>
    rw [List.forall_mem_cons] at h
    rw [List.flatMap_cons, rawChar_of_lt h.1, ih h.2, List.singleton_append]

theorem le_of_mem_utf8EncodeChar {c : Char} (h : 128 ≤ c.toNat) {byte : UInt8}
    (hbyte : byte ∈ String.utf8EncodeChar c)
    : 128 ≤ byte.toNat := by
  have hnot : ¬ c.val.toNat ≤ 127 := Nat.not_le.2 h
  simp only [String.utf8EncodeChar, hnot, if_false] at hbyte
  generalize c.val.toNat = v at hbyte
  split at hbyte
  . simp only [List.mem_cons, List.not_mem_nil, or_false] at hbyte
    rcases hbyte with rfl | rfl <;> rw [UInt8.toNat_ofNat'] <;> omega
  . split at hbyte <;> simp only [List.mem_cons, List.not_mem_nil, or_false] at hbyte
    . rcases hbyte with rfl | rfl | rfl <;> rw [UInt8.toNat_ofNat'] <;> omega
    . rcases hbyte with rfl | rfl | rfl | rfl <;> rw [UInt8.toNat_ofNat'] <;> omega

def IsPlain (byte : UInt8) : Prop :=
  32 ≤ byte.toNat ∧ byte.toNat ≠ '"'.toNat ∧ byte.toNat ≠ '\\'.toNat

theorem stringPieces_ofByte (found : List Piece) {byte : UInt8} (h : IsPlain byte)
    (rest : List Char)
    : stringPieces found (ofByte byte :: rest) = stringPieces (.byte byte :: found) rest := by
  have hquote : ofByte byte ≠ '"' := fun heq => h.2.1 (by rw [← heq, toNat_ofByte])
  have hslash : ofByte byte ≠ '\\' := fun heq => h.2.2 (by rw [← heq, toNat_ofByte])
  have hlow : ¬ byte.toNat < 32 := Nat.not_lt.2 h.1
  rw [stringPieces]
  . rw [toNat_ofByte, if_neg hlow, UInt8.ofNat_toNat]
  . simp [hquote]
  . simp [hslash]
  . simp [hslash]

theorem stringPieces_map_ofByte (found : List Piece) {bytes : List UInt8}
    (h : ∀ byte ∈ bytes, IsPlain byte) (rest : List Char)
    : stringPieces found (bytes.map ofByte ++ rest)
        = stringPieces ((bytes.map Piece.byte).reverse ++ found) rest := by
  induction bytes generalizing found with
  | nil => rfl
  | cons byte bytes ih =>
    rw [List.forall_mem_cons] at h
    rw [List.map_cons, List.cons_append, stringPieces_ofByte found h.1, ih _ h.2]
    simp

def IsEscaped (c : Char) : Prop :=
  c.toNat < 32 ∨ c = '"' ∨ c = '\\'

instance (c : Char) : Decidable (IsEscaped c) :=
  inferInstanceAs (Decidable (_ ∨ _))

def charPieces (c : Char) : List Piece :=
  if IsEscaped c then [.char c] else (String.utf8EncodeChar c).map Piece.byte

theorem isPlain_of_mem_utf8EncodeChar {c : Char} (h : ¬ IsEscaped c) {byte : UInt8}
    (hbyte : byte ∈ String.utf8EncodeChar c)
    : IsPlain byte := by
  simp only [IsEscaped, not_or] at h
  by_cases hlt : c.toNat < 128
  . rw [Text.utf8EncodeChar_of_lt hlt, List.mem_singleton] at hbyte
    have hnat : byte.toNat = c.toNat := by
      rw [hbyte, UInt8.toNat_ofNat', Nat.mod_eq_of_lt (Nat.lt_trans hlt (by decide))]
    refine ⟨by omega, ?_, ?_⟩
    . rw [hnat]
      exact fun heq => h.2.1 (Char.toNat_inj.1 heq)
    . rw [hnat]
      exact fun heq => h.2.2 (Char.toNat_inj.1 heq)
  . have hle := le_of_mem_utf8EncodeChar (Nat.le_of_not_lt hlt) hbyte
    exact ⟨by omega, Nat.ne_of_gt (Nat.lt_of_lt_of_le (by decide) hle),
      Nat.ne_of_gt (Nat.lt_of_lt_of_le (by decide) hle)⟩

def isEscapeOf (c : Char) : List Char → Bool
  | ['\\', x] => escaped? x = some c
  | ['\\', 'u', x, y, z, w] => (hexUnit? x y z w).map Piece.ofUnit = some (.char c)
  | _ => false

theorem stringPieces_of_isEscapeOf (found : List Piece) {c : Char} {cs : List Char}
    (h : isEscapeOf c cs = true) (rest : List Char)
    : stringPieces found (cs ++ rest) = stringPieces (.char c :: found) rest := by
  unfold isEscapeOf at h
  split at h
  . next x =>
    have hx : escaped? x = some c := of_decide_eq_true h
    have hne : x ≠ 'u' := by
      rintro rfl
      cases hx
    simp only [List.cons_append, List.nil_append]
    rw [stringPieces]
    . simp only [hx]
    . simp [hne]
  . next x y z w =>
    have hunit := of_decide_eq_true h
    rw [Option.map_eq_some_iff] at hunit
    rcases hunit with ⟨unit, hunit, hpiece⟩
    simp only [List.cons_append, List.nil_append]
    rw [stringPieces]
    simp only [hunit, hpiece]
  . cases h

theorem escapeChar_isEscapeOf {c : Char} (h : IsEscaped c)
    : isEscapeOf c (escapeChar c).toList = true ∧ ∀ x ∈ (escapeChar c).toList, x.toNat < 128 := by
  have hlow : ∀ n < 32, isEscapeOf (Char.ofNat n) (escapeChar (Char.ofNat n)).toList = true
      ∧ (escapeChar (Char.ofNat n)).toList.all (·.toNat < 128) = true := by
    decide
  -- Stated with `all` the texts are looked at, and not all characters that there are.
  have hfound : isEscapeOf c (escapeChar c).toList = true
      ∧ (escapeChar c).toList.all (·.toNat < 128) = true := by
    rcases h with h | rfl | rfl
    . have hc := hlow c.toNat h
      rwa [Char.ofNat_toNat] at hc
    . decide
    . decide
  simpa using hfound

theorem escapeChar_of_not_isEscaped {c : Char} (h : ¬ IsEscaped c) : escapeChar c = c.toString := by
  simp only [IsEscaped, not_or] at h
  -- The controls with names of their own are below 32 as well.
  have hne {x : Char} (hx : x.toNat < 32) : c ≠ x := by
    rintro rfl
    exact h.1 hx
  simp only [escapeChar, h.2.1, h.2.2, hne (x := '\x08') (by decide), hne (x := '\x0C') (by decide),
    hne (x := '\n') (by decide), hne (x := '\r') (by decide), hne (x := '\t') (by decide),
    h.1, if_false]

theorem stringPieces_escapeChar (found : List Piece) (c : Char) (rest : List Char)
    : stringPieces found (raw (escapeChar c) ++ rest)
        = stringPieces ((charPieces c).reverse ++ found) rest := by
  by_cases h : IsEscaped c
  . rcases escapeChar_isEscapeOf h with ⟨hescape, hascii⟩
    rw [raw_of_lt hascii, stringPieces_of_isEscapeOf found hescape, charPieces, if_pos h]
    rfl
  . rw [escapeChar_of_not_isEscaped h, raw_eq_flatMap, Char.toString_eq_singleton,
      String.toList_singleton, List.flatMap_singleton, charPieces, if_neg h]
    exact stringPieces_map_ofByte found (fun byte => isPlain_of_mem_utf8EncodeChar h) rest

theorem bytes?_charPieces (c : Char) (rest : List Piece)
    : Piece.bytes? (charPieces c ++ rest)
        = (Piece.bytes? rest).map (String.utf8EncodeChar c ++ ·) := by
  rw [charPieces]
  split
  . rfl
  . generalize String.utf8EncodeChar c = bytes
    induction bytes with
    | nil => simp
    | cons byte bytes ih => simp [Piece.bytes?, ih, Function.comp_def]

theorem bytes?_flatMap_charPieces (cs : List Char)
    : Piece.bytes? (cs.flatMap charPieces) = some (cs.flatMap String.utf8EncodeChar) := by
  induction cs with
  | nil => rfl
  | cons c cs ih =>
    rw [List.flatMap_cons, bytes?_charPieces, ih, Option.map_some, List.flatMap_cons]

theorem stringPieces_flatMap_escapeChar (found : List Piece) (cs : List Char) (rest : List Char)
    : stringPieces found (cs.flatMap (fun c => raw (escapeChar c)) ++ rest)
        = stringPieces ((cs.flatMap charPieces).reverse ++ found) rest := by
  induction cs generalizing found with
  | nil => rfl
  | cons c cs ih =>
    rw [List.flatMap_cons, List.append_assoc, stringPieces_escapeChar, ih, List.flatMap_cons,
      List.reverse_append, List.append_assoc]

theorem raw_quote (s : String)
    : raw (quote s) = '"' :: (s.toList.flatMap (fun c => raw (escapeChar c)) ++ ['"']) := by
  have hraw : raw "\"" = ['"'] := by decide
  have hjoin (cs : List Char)
      : raw (String.join (cs.map escapeChar)) = cs.flatMap (fun c => raw (escapeChar c)) := by
    induction cs with
    | nil => rfl
    | cons c cs ih => rw [List.map_cons, String.join_cons, raw_append, ih, List.flatMap_cons]
  rw [quote, raw_append, raw_append, hraw, hjoin, List.singleton_append, List.cons_append]

theorem stringRest?_quote (s : String) (rest : List Char)
    : stringRest? (s.toList.flatMap (fun c => raw (escapeChar c)) ++ '"' :: rest)
        = some (some s, rest) := by
  have hpieces := stringPieces_flatMap_escapeChar [] s.toList ('"' :: rest)
  rw [List.append_nil, stringPieces, List.reverse_reverse] at hpieces
  simp only [stringRest?, hpieces, Option.bind_eq_bind, Option.bind_some,
    bytes?_flatMap_charPieces, Text.fromUTF8?_flatMap]
  rfl

end Json
end ArtifactAudit
