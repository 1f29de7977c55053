import Mathlib.Data.List.DropRight
import Mathlib.Data.List.TakeWhile
import ArtifactAudit.Text.Blank
import ArtifactAudit.Text.Split

/-!
This module contains the theory of the parts of a text between separators, and of texts without blanks
around them.
-/

namespace ArtifactAudit
namespace Text

variable {sep : Char} {s first last : String} {segments : List String}

theorem notMem_of_mem_splitOn (sep : Char) (cs : List Char)
    : ∀ part ∈ cs.splitOn sep, sep ∉ part := by
  induction cs with
  | nil => simp
  | cons c cs ih =>
    intro part hpart
    rw [List.splitOn_cons_eq_if_modifyHead] at hpart
    split at hpart
    . rcases List.mem_cons.1 hpart with rfl | hpart
      . simp
      . exact ih part hpart
    . next hc =>
      -- The first part grows by a character that is not the separator.
      cases hparts : cs.splitOn sep with
      | nil => exact absurd hparts (List.splitOn_ne_nil _ _)
      | cons head parts =>
        rw [hparts] at hpart ih
        rw [List.modifyHead_cons] at hpart
        rcases List.mem_cons.1 hpart with rfl | hpart
        . have := ih head (by simp)
          have : sep ≠ c := by
            intro heq
            simp [heq] at hc
          simp [*]
        . exact ih part (by simp [hpart])

theorem parts_ne_nil (sep : Char) (s : String) : parts sep s ≠ [] := by
  rw [parts, Ne, List.map_eq_nil_iff]
  exact List.splitOn_ne_nil _ _

theorem notMem_of_mem_parts {part : String} (h : part ∈ parts sep s) : sep ∉ part.toList := by
  rcases List.mem_map.1 h with ⟨cs, hcs, rfl⟩
  rw [String.toList_ofList]
  exact notMem_of_mem_splitOn sep s.toList cs hcs

theorem parts_of_notMem (h : sep ∉ s.toList) : parts sep s = [s] := by
  rw [parts, List.splitOn_eq_singleton h, List.map_singleton, String.ofList_toList]

theorem parts_append (sep : Char) (s rest : String)
    : parts sep (s ++ String.singleton sep ++ rest) = parts sep s ++ parts sep rest := by
  rw [parts, String.toList_append, String.toList_append, String.toList_singleton,
    List.append_assoc, List.singleton_append, List.splitOn_append_cons_self, List.map_append]
  rfl

theorem parts_concat (sep : Char) (s : String)
    : parts sep (s ++ String.singleton sep) = parts sep s ++ [""] := by
  have happend := parts_append sep s ""
  rwa [String.append_empty] at happend

theorem intercalate_map_toList_parts (sep : Char) (s : String)
    : List.intercalate [sep] ((parts sep s).map String.toList) = s.toList := by
  have hid : String.toList ∘ String.ofList = id := by
    funext cs
    exact String.toList_ofList
  rw [parts, List.map_map, hid, List.map_id]
  exact List.intercalate_splitOn ..

theorem head?_eq_of_parts (h : parts sep s = first :: segments) (hne : first ≠ "")
    : s.toList.head? = first.toList.head? := by
  have hfirst : first.toList ≠ [] := by rwa [Ne, String.toList_eq_nil_iff]
  rw [← intercalate_map_toList_parts sep s, h, List.map_cons]
  cases segments with
  | nil => rw [List.map_nil, List.intercalate_singleton]
  | cons second segments =>
    rw [List.map_cons, List.intercalate_cons_cons, List.append_assoc,
      List.head?_append_of_ne_nil _ hfirst]

theorem getLast?_eq_of_parts (h : parts sep s = segments ++ [last]) (hne : last ≠ "")
    : s.toList.getLast? = last.toList.getLast? := by
  have hlast : last.toList ≠ [] := by rwa [Ne, String.toList_eq_nil_iff]
  rw [← intercalate_map_toList_parts sep s, h]
  clear h
  induction segments with
  | nil => rw [List.nil_append, List.map_singleton, List.intercalate_singleton]
  | cons first segments ih =>
    rw [List.cons_append, List.map_cons, List.intercalate_cons_of_ne_nil (by simp),
      List.getLast?_append, ih, List.getLast?_eq_some_getLast hlast, Option.some_or]

structure IsTrimmed (s : String) : Prop where
  head : ∀ c ∈ s.toList.head?, isBlank c = false
  last : ∀ c ∈ s.toList.getLast?, isBlank c = false

theorem trimChars_eq (cs : List Char) : trimChars cs = (cs.dropWhile isBlank).rdropWhile isBlank :=
  rfl

theorem trim_eq_self (h : IsTrimmed s) : trim s = s := by
  have hhead : s.toList.dropWhile isBlank = s.toList := by
    rcases hchars : s.toList with _ | ⟨c, cs⟩
    . rfl
    . exact List.dropWhile_cons_of_neg (by simp [h.head c (by rw [hchars]; rfl)])
  have hlast : s.toList.rdropWhile isBlank = s.toList := by
    rw [List.rdropWhile_eq_self_iff]
    intro hne
    simp [h.last _ (List.getLast?_eq_some_getLast hne)]
  rw [trim, trimChars_eq, hhead, hlast, String.ofList_toList]

theorem isTrimmed_trim (s : String) : IsTrimmed (trim s) := by
  unfold trim
  constructor
  . rw [String.toList_ofList, trimChars_eq]
    intro c hc
    -- What is cut off at the end does not reach the start.
    rcases List.rdropWhile_prefix isBlank (s.toList.dropWhile isBlank) with ⟨rest, hrest⟩
    have hhead : (s.toList.dropWhile isBlank).head? = some c := by
      rw [← hrest, List.head?_append, hc, Option.some_or]
    have hfirst := List.head?_dropWhile_not isBlank s.toList
    rwa [hhead] at hfirst
  . rw [String.toList_ofList, trimChars_eq]
    intro c hc
    have hne : (s.toList.dropWhile isBlank).rdropWhile isBlank ≠ [] := by
      intro hnil
      rw [hnil] at hc
      cases hc
    have hlast := List.rdropWhile_last_not isBlank (s.toList.dropWhile isBlank) hne
    rw [List.getLast?_eq_some_getLast hne, Option.mem_some_iff] at hc
    rwa [hc, Bool.not_eq_true] at hlast

theorem IsTrimmed.of_parts {other : String} {middle rest : List String} (h : IsTrimmed s)
    (hparts : parts sep s = first :: (middle ++ [last]))
    (hparts' : parts sep other = first :: (rest ++ [last])) (hfirst : first ≠ "") (hlast : last ≠ "")
    : IsTrimmed other := by
  have hhead : other.toList.head? = s.toList.head? := by
    rw [head?_eq_of_parts hparts hfirst, head?_eq_of_parts hparts' hfirst]
  have hend : other.toList.getLast? = s.toList.getLast? := by
    rw [← List.cons_append] at hparts hparts'
    rw [getLast?_eq_of_parts hparts hlast, getLast?_eq_of_parts hparts' hlast]
  exact ⟨hhead ▸ h.head, hend ▸ h.last⟩

end Text
end ArtifactAudit
