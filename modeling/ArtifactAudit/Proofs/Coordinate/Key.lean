import Mathlib.Data.List.Basic
import ArtifactAudit.Coordinate.Key
import ArtifactAudit.Proofs.Text.Utf8

/-!
This module contains the theory of cache keys: which characters they have, and that they tell
coordinates apart.
-/

namespace ArtifactAudit
namespace Coordinate

def IsKept (c : Char) : Prop :=
  (c.isAlphanum || c = '.' || c = '-') = true

instance (c : Char) : Decidable (IsKept c) :=
  inferInstanceAs (Decidable (_ = true))

theorem keyChar_of_isKept {c : Char} (h : IsKept c) : keyChar c = [c] :=
  if_pos h

theorem keyChar_of_not_isKept {c : Char} (h : ¬ IsKept c)
    : keyChar c = (String.utf8EncodeChar c).flatMap percentByte :=
  if_neg h

theorem IsKept.toNat_lt {c : Char} (h : IsKept c) : c.toNat < 128 := by
  simp only [IsKept, Bool.or_eq_true, decide_eq_true_eq] at h
  rcases h with (h | rfl) | rfl
  . unfold Char.isAlphanum Char.isAlpha Char.isUpper Char.isLower Char.isDigit at h
    simp only [Bool.or_eq_true, Bool.and_eq_true, decide_eq_true_eq, ge_iff_le,
      UInt32.le_iff_toNat_le] at h
    change (((65 ≤ c.toNat ∧ c.toNat ≤ 90) ∨ (97 ≤ c.toNat ∧ c.toNat ≤ 122)) ∨
      (48 ≤ c.toNat ∧ c.toNat ≤ 57)) at h
    omega
  . decide
  . decide

theorem isKept_upperHexDigit : ∀ n < 16, IsKept (upperHexDigit n) := by
  decide

def digitValue (c : Char) : Nat :=
  (List.range 16).findIdx fun n => upperHexDigit n = c

theorem digitValue_upperHexDigit : ∀ n < 16, digitValue (upperHexDigit n) = n := by
  decide

def keyBytes : List Char → List UInt8
  | '%' :: high :: low :: rest =>
    UInt8.ofNat (digitValue high * 16 + digitValue low) :: keyBytes rest
  | c :: rest => UInt8.ofNat c.toNat :: keyBytes rest
  | [] => []

theorem keyBytes_cons_of_ne {c : Char} (h : c ≠ '%') (rest : List Char)
    : keyBytes (c :: rest) = UInt8.ofNat c.toNat :: keyBytes rest := by
  rw [keyBytes]
  intro _ _ _ heq
  exact absurd heq h

theorem keyBytes_percentByte (b : UInt8) (rest : List Char)
    : keyBytes (percentByte b ++ rest) = b :: keyBytes rest := by
  have hb := b.toNat_lt
  simp only [percentByte, List.cons_append, List.nil_append]
  rw [keyBytes, digitValue_upperHexDigit _ (by omega), digitValue_upperHexDigit _ (by omega)]
  have heq : b.toNat / 16 * 16 + b.toNat % 16 = b.toNat := by omega
  rw [heq, UInt8.ofNat_toNat]

theorem keyBytes_flatMap_percentByte (bytes : List UInt8) (rest : List Char)
    : keyBytes (bytes.flatMap percentByte ++ rest) = bytes ++ keyBytes rest := by
  induction bytes with
  | nil => rfl
  | cons b bytes ih =>
    rw [List.flatMap_cons, List.append_assoc, keyBytes_percentByte, ih, List.cons_append]

theorem keyBytes_keyChar (c : Char) (rest : List Char)
    : keyBytes (keyChar c ++ rest) = String.utf8EncodeChar c ++ keyBytes rest := by
  by_cases h : IsKept c
  . have hne : c ≠ '%' := by
      rintro rfl
      exact absurd h (by decide)
    rw [keyChar_of_isKept h, List.singleton_append, keyBytes_cons_of_ne hne,
      Text.utf8EncodeChar_of_lt h.toNat_lt, List.singleton_append]
  . rw [keyChar_of_not_isKept h, keyBytes_flatMap_percentByte]

theorem keyBytes_keyPart (s : String)
    : keyBytes (keyPart s) = s.toList.flatMap String.utf8EncodeChar := by
  unfold keyPart
  induction s.toList with
  | nil => rfl
  | cons c cs ih => rw [List.flatMap_cons, keyBytes_keyChar, ih, List.flatMap_cons]

theorem keyPart_injective : Function.Injective keyPart := by
  intro s t h
  apply Text.eq_of_flatMap_utf8EncodeChar
  rw [← keyBytes_keyPart, h, keyBytes_keyPart]

theorem mem_percentByte {b : UInt8} {c : Char} (h : c ∈ percentByte b)
    : IsKept c ∨ c = '%' := by
  have hb := b.toNat_lt
  simp only [percentByte, List.mem_cons, List.not_mem_nil, or_false] at h
  rcases h with rfl | rfl | rfl
  . exact .inr rfl
  . exact .inl (isKept_upperHexDigit _ (by omega))
  . exact .inl (isKept_upperHexDigit _ (by omega))

theorem mem_keyPart {s : String} {c : Char} (h : c ∈ keyPart s) : IsKept c ∨ c = '%' := by
  rcases List.mem_flatMap.1 h with ⟨d, _, hc⟩
  by_cases hd : IsKept d
  . rw [keyChar_of_isKept hd, List.mem_singleton] at hc
    exact .inl (hc ▸ hd)
  . rw [keyChar_of_not_isKept hd] at hc
    rcases List.mem_flatMap.1 hc with ⟨b, _, hc⟩
    exact mem_percentByte hc

theorem toList_key (c : Coordinate)
    : c.key.toList = List.intercalate ['_'] (c.keyFields.map keyPart) := by
  rw [key, String.toList_ofList]

theorem mem_intercalate {sep x : Char} {parts : List (List Char)}
    (h : x ∈ List.intercalate [sep] parts)
    : x = sep ∨ ∃ part ∈ parts, x ∈ part := by
  rw [List.intercalate, List.mem_flatten] at h
  rcases h with ⟨part, hpart, hx⟩
  induction parts with
  | nil => cases hpart
  | cons first rest ih =>
    cases rest with
    | nil => exact .inr ⟨part, hpart, hx⟩
    | cons second rest =>
      rw [List.intersperse_cons_cons, List.mem_cons, List.mem_cons] at hpart
      rcases hpart with rfl | rfl | hpart
      . exact .inr ⟨part, by simp, hx⟩
      . exact .inl (List.mem_singleton.1 hx)
      . rcases ih hpart with rfl | ⟨other, hother, hmem⟩
        . exact .inl rfl
        . exact .inr ⟨other, by simp [hother], hmem⟩

theorem mem_key {c : Coordinate} {x : Char} (h : x ∈ c.key.toList)
    : IsKept x ∨ x = '%' ∨ x = '_' := by
  rw [toList_key] at h
  rcases mem_intercalate h with rfl | ⟨part, hpart, hx⟩
  . exact .inr (.inr rfl)
  . rcases List.mem_map.1 hpart with ⟨field, _, rfl⟩
    rcases mem_keyPart hx with hkept | hpercent
    . exact .inl hkept
    . exact .inr (.inl hpercent)

theorem keyFields_injective : Function.Injective keyFields := by
  intro c d h
  rcases c with ⟨group, artifact, version, packaging, classifier⟩
  rcases d with ⟨group', artifact', version', packaging', classifier'⟩
  simp only [keyFields] at h
  split at h <;> split at h <;> (try split at h) <;> (try split at h) <;> simp_all

theorem key_injective : Function.Injective key := by
  have hfields : ∀ c : Coordinate, c.key.toList.splitOn '_' = c.keyFields.map keyPart := by
    intro c
    rw [toList_key, List.splitOn_intercalate]
    . intro part hpart hmem
      rcases List.mem_map.1 hpart with ⟨field, _, rfl⟩
      exact absurd (mem_keyPart hmem) (by decide)
    . simp [keyFields]
  intro c d h
  apply keyFields_injective
  apply keyPart_injective.list_map
  rw [← hfields, h, hfields]

theorem slash_notMem_key (c : Coordinate) : '/' ∉ c.key.toList := by
  intro h
  exact absurd (mem_key h) (by decide)

theorem count_intercalate {sep : Char} {parts : List (List Char)} (h : ∀ part ∈ parts, sep ∉ part)
    : (List.intercalate [sep] parts).count sep = parts.length - 1 := by
  induction parts with
  | nil => rfl
  | cons first rest ih =>
    rw [List.forall_mem_cons] at h
    have hfirst : first.count sep = 0 := List.count_eq_zero.2 h.1
    cases rest with
    | nil => rw [List.intercalate_singleton, hfirst, List.length_singleton]
    | cons second rest =>
      rw [List.intercalate_cons_cons, List.count_append, List.count_append, ih h.2, hfirst]
      simp [Nat.add_comm]

theorem three_le_length_keyFields (c : Coordinate) : 3 ≤ c.keyFields.length := by
  simp [keyFields]

theorem count_key (c : Coordinate) : c.key.toList.count '_' = c.keyFields.length - 1 := by
  rw [toList_key, count_intercalate, List.length_map]
  intro part hpart hmem
  rcases List.mem_map.1 hpart with ⟨field, _, rfl⟩
  exact absurd (mem_keyPart hmem) (by decide)

/--
Whatever the fields of coordinates hold, their keys tell them apart, and a key is a file name without
path: it has no other characters than ASCII letters and digits, `.`, `-`, `%` and `_`, and the last
stands at least between group, artifact and version.
-/
theorem key_tells_apart
    : (∀ c d : Coordinate, c.key = d.key → c = d)
        ∧ ∀ c : Coordinate,
            (∀ x ∈ c.key.toList, x.isAlphanum = true ∨ x ∈ ['.', '-', '%', '_'])
              ∧ 2 ≤ c.key.toList.count '_' := by
  refine ⟨fun c d h => key_injective h, fun c => ⟨?_, ?_⟩⟩
  . intro x hx
    rcases mem_key hx with hkept | rfl | rfl
    . simp only [IsKept, Bool.or_eq_true, decide_eq_true_eq] at hkept
      rcases hkept with (hletter | rfl) | rfl
      . exact .inl hletter
      . exact .inr (by decide)
      . exact .inr (by decide)
    . exact .inr (by decide)
    . exact .inr (by decide)
  . have hfields := three_le_length_keyFields c
    rw [count_key]
    omega

end Coordinate
end ArtifactAudit
