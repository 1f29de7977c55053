import Mathlib.Data.Fintype.BigOperators

/-!
This module contains the theory of the bytes of texts: they are those of the characters one after the
other, the text can be read back from them, and there are only so many texts of few bytes.
-/

namespace ArtifactAudit
namespace Text

theorem toUTF8_eq_flatMap (s : String)
    : s.toUTF8.data.toList = s.toList.flatMap String.utf8EncodeChar := by
  rw [String.toUTF8_eq_toByteArray, ← String.utf8Encode_toList, List.utf8Encode,
    List.data_toByteArray]

theorem fromUTF8?_flatMap (s : String)
    : String.fromUTF8? ⟨(s.toList.flatMap String.utf8EncodeChar).toArray⟩ = some s := by
  have hbytes : (⟨(s.toList.flatMap String.utf8EncodeChar).toArray⟩ : ByteArray) = s.toByteArray := by
    rw [← String.utf8Encode_toList, List.utf8Encode]
    ext1
    rw [List.data_toByteArray]
  rw [hbytes, String.fromUTF8?, dif_pos s.isValidUTF8]
  rfl

theorem eq_of_flatMap_utf8EncodeChar {s t : String}
    (h : s.toList.flatMap String.utf8EncodeChar = t.toList.flatMap String.utf8EncodeChar)
    : s = t := by
  have hsome := fromUTF8?_flatMap s
  rw [h, fromUTF8?_flatMap, Option.some.injEq] at hsome
  exact hsome.symm

theorem utf8EncodeChar_of_lt {c : Char} (h : c.toNat < 128)
    : String.utf8EncodeChar c = [UInt8.ofNat c.toNat] := by
  have hle : c.val.toNat ≤ 127 := Nat.le_of_lt_succ h
  simp only [String.utf8EncodeChar, hle, if_true]
  rfl

def byteAt (bytes : List UInt8) (i : Nat) : Fin 257 :=
  bytes[i]?.elim 0 fun b => b.toFin.succ

theorem byteAt_inj {first second : List UInt8} {i : Nat}
    : byteAt first i = byteAt second i ↔ first[i]? = second[i]? := by
  rw [byteAt, byteAt]
  rcases first[i]? with _ | b <;> rcases second[i]? with _ | c
  . simp
  . exact iff_of_false (Fin.succ_ne_zero _).symm nofun
  . exact iff_of_false (Fin.succ_ne_zero _) nofun
  . simp [UInt8.toFin_inj]

theorem length_utf8 (s : String)
    : (s.toList.flatMap String.utf8EncodeChar).length = s.utf8ByteSize := by
  rw [← toUTF8_eq_flatMap]
  rfl

/--
There are no more different texts up to a length than there are ways to put a byte or nothing at each
place.
-/
theorem length_le_of_utf8ByteSize_le {texts : List String} {limit : Nat} (hnodup : texts.Nodup)
    (hsize : ∀ s ∈ texts, s.utf8ByteSize ≤ limit)
    : texts.length ≤ 257 ^ limit := by
  let places (s : String) (i : Fin limit) : Fin 257 :=
    byteAt (s.toList.flatMap String.utf8EncodeChar) i
  have hinjective : ∀ s ∈ texts, ∀ t ∈ texts, places s = places t → s = t := by
    intro s hs t ht heq
    apply eq_of_flatMap_utf8EncodeChar
    apply List.ext_getElem?
    intro i
    by_cases hi : i < limit
    . exact byteAt_inj.1 (congrFun heq ⟨i, hi⟩)
    . have hend : ∀ s ∈ texts, (s.toList.flatMap String.utf8EncodeChar).length ≤ i := by
        intro s hs
        rw [length_utf8]
        exact le_trans (hsize s hs) (Nat.le_of_not_lt hi)
      rw [List.getElem?_eq_none (hend s hs), List.getElem?_eq_none (hend t ht)]
  have hcard := (hnodup.map_on hinjective).length_le_card
  rwa [List.length_map, Fintype.card_pi_const, Fintype.card_fin] at hcard

end Text
end ArtifactAudit
