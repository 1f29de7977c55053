import ArtifactAudit.Proofs.Json.Quote

/-!
This module contains the proof that a value is read back from its text on one line.
-/

namespace ArtifactAudit
namespace Json

def EndsNumber (rest : List Char) : Prop :=
  ∀ c ∈ rest.head?, c.isDigit = false ∧ c ≠ '.' ∧ c ≠ 'e' ∧ c ≠ 'E'

theorem endsNumber_nil : EndsNumber [] :=
  nofun

theorem endsNumber_cons {c : Char} (h : c.isDigit = false ∧ c ≠ '.' ∧ c ≠ 'e' ∧ c ≠ 'E')
    (rest : List Char)
    : EndsNumber (c :: rest) := by
  rintro x hx
  cases hx
  exact h

theorem endsNumber_comma (rest : List Char) : EndsNumber (',' :: rest) :=
  endsNumber_cons (by decide) rest

theorem fraction?_of_endsNumber {rest : List Char} (h : EndsNumber rest)
    : fraction? rest = some ([], rest) := by
  unfold fraction?
  split
  . next rest => exact absurd rfl (h '.' rfl).2.1
  . rfl

theorem exponent?_of_endsNumber {rest : List Char} (h : EndsNumber rest)
    : exponent? rest = some ([], rest) := by
  cases rest with
  | nil => rfl
  | cons c rest =>
    rcases h c rfl with ⟨_, _, hlower, hupper⟩
    simp [exponent?, hlower, hupper]

theorem dropWhile_isDigit {digits rest : List Char} (hdigits : ∀ c ∈ digits, c.isDigit = true)
    (h : EndsNumber rest)
    : (digits ++ rest).takeWhile Char.isDigit = digits
        ∧ (digits ++ rest).dropWhile Char.isDigit = rest := by
  have hrest : rest.takeWhile Char.isDigit = [] ∧ rest.dropWhile Char.isDigit = rest := by
    cases rest with
    | nil => exact ⟨rfl, rfl⟩
    | cons c rest =>
      have hc := (h c rfl).1
      rw [List.takeWhile_cons, List.dropWhile_cons, hc]
      exact ⟨rfl, rfl⟩
  rw [List.takeWhile_append_of_pos hdigits, List.dropWhile_append_of_pos hdigits, hrest.1, hrest.2,
    List.append_nil]
  exact ⟨rfl, rfl⟩

theorem decimalValue_toDigits (n : Nat) : decimalValue (Nat.toDigits 10 n) = n := by
  have h := Nat.ofDigitChars_ten_toDigits (n := n)
  rw [Nat.ofDigitChars_eq_foldl] at h
  simp only [Nat.mul_comm 10] at h
  exact h

theorem toDigits_head {n : Nat} (h : n ≠ 0)
    : ∃ c cs, Nat.toDigits 10 n = c :: cs ∧ c ≠ '0' := by
  induction n using Nat.strongRecOn with
  | ind n ih =>
    by_cases hlt : n < 10
    . have hdigit : ∀ m < 10, m ≠ 0 → Nat.digitChar m ≠ '0' := by decide
      exact ⟨Nat.digitChar n, [], Nat.toDigits_of_lt_base hlt, hdigit n hlt h⟩
    . rcases ih (n / 10) (by omega) (by omega) with ⟨c, cs, hdigits, hc⟩
      refine ⟨c, cs ++ [Nat.digitChar (n % 10)], ?_, hc⟩
      rw [Nat.toDigits_of_base_le (by decide) (Nat.le_of_not_lt hlt), hdigits, List.cons_append]

theorem isDigit_of_mem_toDigits {n : Nat} {c : Char} (h : c ∈ Nat.toDigits 10 n)
    : c.isDigit = true :=
  Nat.isDigit_of_mem_toDigits (by decide) (by decide) h

theorem digits?_toDigits (n : Nat) {rest : List Char} (h : EndsNumber rest)
    : digits? (Nat.toDigits 10 n ++ rest) = some (Nat.toDigits 10 n, rest) := by
  rcases dropWhile_isDigit (fun c => isDigit_of_mem_toDigits) h with ⟨htake, hdrop⟩
  rw [digits?, htake, hdrop]
  simp [Nat.toDigits_ne_nil]

theorem number?_natural (n : Nat) {rest : List Char} (h : EndsNumber rest)
    : number? (Nat.toDigits 10 n ++ rest) = some (.number n, rest) := by
  by_cases hn : n = 0
  . subst hn
    have hdigit : (rest.head?.map Char.isDigit).getD false = false := by
      cases rest with
      | nil => rfl
      | cons c rest => exact (h c rfl).1
    simp [number?, Nat.toDigits_zero, hdigit, fraction?_of_endsNumber h, exponent?_of_endsNumber h,
      decimalValue]
  . rcases toDigits_head hn with ⟨c, cs, hdigits, hc⟩
    have hread := digits?_toDigits n h
    have hvalue := decimalValue_toDigits n
    have hdigit : c.isDigit = true := isDigit_of_mem_toDigits (n := n) (by simp [hdigits])
    have hminus : c ≠ '-' := by
      rintro rfl
      cases hdigit
    rw [hdigits] at hread hvalue ⊢
    rw [List.cons_append] at hread ⊢
    simp [number?, hminus, hc, hread, fraction?_of_endsNumber h, exponent?_of_endsNumber h, hvalue]

theorem number?_negative {n : Nat} (hn : n ≠ 0) {rest : List Char} (h : EndsNumber rest)
    : number? ('-' :: (Nat.toDigits 10 n ++ rest)) = some (.number (-n), rest) := by
  rcases toDigits_head hn with ⟨c, cs, hdigits, hc⟩
  have hread := digits?_toDigits n h
  have hvalue := decimalValue_toDigits n
  rw [hdigits] at hread hvalue ⊢
  rw [List.cons_append] at hread ⊢
  simp [number?, hc, hread, fraction?_of_endsNumber h, exponent?_of_endsNumber h, hvalue]

theorem ne_of_isDigit {c x : Char} (h : c.isDigit = true) (hx : x.isDigit = false) : c ≠ x := by
  rintro rfl
  rw [h] at hx
  cases hx

theorem lt_of_isDigit {c : Char} (h : c.isDigit = true) : c.toNat < 128 := by
  simp only [Char.isDigit, Bool.and_eq_true, decide_eq_true_eq, ge_iff_le,
    UInt32.le_iff_toNat_le] at h
  exact Nat.lt_of_le_of_lt h.2 (by decide)

theorem raw_repr (n : Nat) : raw n.repr = Nat.toDigits 10 n := by
  have hascii : ∀ c ∈ n.repr.toList, c.toNat < 128 := by
    rw [Nat.toList_repr]
    exact fun c hc => lt_of_isDigit (isDigit_of_mem_toDigits hc)
  rw [raw_of_lt hascii, Nat.toList_repr]

theorem raw_compact_natural (n : Nat) : raw (compact (.number n)) = Nat.toDigits 10 n := by
  rw [compact, Int.toString_eq_repr, Int.repr_eq_if, if_pos (Int.natCast_nonneg n), Int.toNat_natCast,
    raw_repr]

theorem raw_compact_negative (n : Nat)
    : raw (compact (.number (.negSucc n))) = '-' :: Nat.toDigits 10 (n + 1) := by
  have hminus : raw "-" = ['-'] := by decide
  have habs : (-Int.negSucc n).toNat = n + 1 := rfl
  rw [compact, Int.toString_eq_repr, Int.repr_eq_if, if_neg (Int.negSucc_not_nonneg n).1, habs,
    raw_append, hminus, raw_repr, List.singleton_append]

mutual

/--
Whether a value can be read back: its numbers are integers, and its strings and names are texts.
-/
def Readable : Json → Prop
  | .null => True
  | .bool _ => True
  | .number _ => True
  | .decimal _ => False
  | .string s => s.isSome = true
  | .array items => ReadableItems items
  | .object members => ReadableMembers members

def ReadableItems : List Json → Prop
  | [] => True
  | item :: rest => Readable item ∧ ReadableItems rest

def ReadableMembers : List (Option String × Json) → Prop
  | [] => True
  | (name, value) :: rest => name.isSome = true ∧ Readable value ∧ ReadableMembers rest

end

theorem skipSpace_cons {c : Char} (h : isSpace c = false) (cs : List Char)
    : skipSpace (c :: cs) = c :: cs := by
  rw [skipSpace, List.dropWhile_cons, h]
  rfl

theorem raw_compact_array (items : List Json)
    : raw (compact (.array items))
        = '[' :: (raw (",".intercalate (compactItems items)) ++ [']']) := by
  have hopen : raw "[" = ['['] := by decide
  have hclose : raw "]" = [']'] := by decide
  rw [compact, raw_append, raw_append, hopen, hclose, List.singleton_append, List.cons_append]

theorem raw_compact_object (members : List (Option String × Json))
    : raw (compact (.object members))
        = '\x7b' :: (raw (",".intercalate (compactMembers members)) ++ ['\x7d']) := by
  have hopen : raw "\x7b" = ['\x7b'] := by decide
  have hclose : raw "\x7d" = ['\x7d'] := by decide
  rw [compact, raw_append, raw_append, hopen, hclose, List.singleton_append, List.cons_append]

def behindFirst : List String → List Char
  | [] => []
  | text :: texts => ',' :: raw (",".intercalate (text :: texts))

theorem raw_intercalate (text : String) (texts : List String)
    : raw (",".intercalate (text :: texts)) = raw text ++ behindFirst texts := by
  have hcomma : raw "," = [','] := by decide
  cases texts with
  | nil => rw [behindFirst, List.append_nil, String.intercalate_singleton]
  | cons next texts =>
    rw [behindFirst, String.intercalate_cons_cons, raw_append, raw_append, hcomma,
      List.append_assoc, List.singleton_append]

theorem raw_member (name : String) (value : Json)
    : raw (quote name ++ ":" ++ value.compact)
        = '"' :: (name.toList.flatMap (fun c => raw (escapeChar c)) ++
            '"' :: ':' :: raw value.compact) := by
  have hcolon : raw ":" = [':'] := by decide
  rw [raw_append, raw_append, raw_quote, hcolon]
  simp

theorem raw_compact_head {value : Json} (h : Readable value)
    : ∃ c cs, raw value.compact = c :: cs ∧ isSpace c = false ∧ c ≠ ']' := by
  cases value with
  | null => exact ⟨'n', ['u', 'l', 'l'], by decide, rfl, by decide⟩
  | bool value =>
    cases value with
    | true => exact ⟨'t', ['r', 'u', 'e'], by decide, rfl, by decide⟩
    | false => exact ⟨'f', ['a', 'l', 's', 'e'], by decide, rfl, by decide⟩
  | number n =>
    cases n with
    | ofNat n =>
      rcases List.exists_cons_of_ne_nil (Nat.toDigits_ne_nil (n := n) (b := 10)) with
        ⟨c, cs, hdigits⟩
      have hdigit : c.isDigit = true := isDigit_of_mem_toDigits (n := n) (by simp [hdigits])
      refine ⟨c, cs, (raw_compact_natural n).trans hdigits, ?_, ne_of_isDigit hdigit (by decide)⟩
      simp [isSpace, ne_of_isDigit hdigit]
    | negSucc n => exact ⟨'-', _, raw_compact_negative n, rfl, by decide⟩
  | decimal text => exact h.elim
  | string s =>
    rw [compact, raw_quote]
    exact ⟨'"', _, rfl, rfl, by decide⟩
  | array items =>
    rw [raw_compact_array]
    exact ⟨'[', _, rfl, rfl, by decide⟩
  | object members =>
    rw [raw_compact_object]
    exact ⟨'\x7b', _, rfl, rfl, by decide⟩

theorem valueWithin_natural (steps n : Nat) {rest : List Char} (h : EndsNumber rest)
    : valueWithin (steps + 1) (Nat.toDigits 10 n ++ rest) = some (.number n, rest) := by
  have hread := number?_natural n h
  rcases List.exists_cons_of_ne_nil (Nat.toDigits_ne_nil (n := n) (b := 10)) with ⟨c, cs, hdigits⟩
  have hdigit : c.isDigit = true := isDigit_of_mem_toDigits (n := n) (by simp [hdigits])
  rw [hdigits, List.cons_append] at hread ⊢
  rw [valueWithin]
  . exact hread
  all_goals simp [ne_of_isDigit hdigit]

theorem valueWithin_quote (steps : Nat) (s : String) (rest : List Char)
    : valueWithin (steps + 1) (raw (quote s) ++ rest) = some (.string (some s), rest) := by
  rw [raw_quote, List.cons_append, List.append_assoc, List.singleton_append, valueWithin]
  simp only [stringRest?_quote]
  rfl

theorem valueWithin_array (steps : Nat) {c : Char} (hspace : isSpace c = false) (hc : c ≠ ']')
    (cs : List Char)
    : valueWithin (steps + 1) ('[' :: c :: cs) = itemsWithin steps [] (c :: cs) := by
  rw [valueWithin]
  simp only [skipSpace_cons hspace]
  split
  . next heq =>
    cases heq
    exact absurd rfl hc
  . rfl

theorem itemsWithin_last {steps : Nat} {cs : List Char} {item : Json} {rest : List Char}
    (h : valueWithin steps cs = some (item, ']' :: rest)) (found : List Json)
    : itemsWithin (steps + 1) found cs = some (.array (found.reverse ++ [item]), rest) := by
  rw [itemsWithin, h]
  simp only [skipSpace_cons (show isSpace ']' = false from rfl), List.reverse_cons]

theorem itemsWithin_more {steps : Nat} {cs : List Char} {item : Json} {c : Char}
    (hc : isSpace c = false) {rest : List Char}
    (h : valueWithin steps cs = some (item, ',' :: c :: rest)) (found : List Json)
    : itemsWithin (steps + 1) found cs = itemsWithin steps (item :: found) (c :: rest) := by
  rw [itemsWithin, h]
  simp only [skipSpace_cons (show isSpace ',' = false from rfl), skipSpace_cons hc]

theorem membersWithin_last {steps : Nat} {name : String} {cs : List Char} {value : Json} {c : Char}
    (hc : isSpace c = false) {rest : List Char}
    (h : valueWithin steps (c :: cs) = some (value, '\x7d' :: rest))
    (found : List (Option String × Json))
    : membersWithin (steps + 1) found
        ('"' :: (name.toList.flatMap (fun c => raw (escapeChar c)) ++ '"' :: ':' :: c :: cs))
          = some (.object (found.reverse ++ [(some name, value)]), rest) := by
  rw [membersWithin, stringRest?_quote]
  simp only [skipSpace_cons (show isSpace ':' = false from rfl), skipSpace_cons hc, h,
    skipSpace_cons (show isSpace '\x7d' = false from rfl), List.reverse_cons]

theorem membersWithin_more {steps : Nat} {name : String} {cs : List Char} {value : Json} {c : Char}
    (hc : isSpace c = false) {next : Char} (hnext : isSpace next = false) {rest : List Char}
    (h : valueWithin steps (c :: cs) = some (value, ',' :: next :: rest))
    (found : List (Option String × Json))
    : membersWithin (steps + 1) found
        ('"' :: (name.toList.flatMap (fun c => raw (escapeChar c)) ++ '"' :: ':' :: c :: cs))
          = membersWithin steps ((some name, value) :: found) (next :: rest) := by
  rw [membersWithin, stringRest?_quote]
  simp only [skipSpace_cons (show isSpace ':' = false from rfl), skipSpace_cons hc, h,
    skipSpace_cons (show isSpace ',' = false from rfl), skipSpace_cons hnext]

theorem raw_items_head {item : Json} (h : Readable item) (items : List Json)
    : ∃ c cs, raw (",".intercalate (compactItems (item :: items))) = c :: cs
        ∧ isSpace c = false ∧ c ≠ ']' := by
  rcases raw_compact_head h with ⟨c, cs, hhead, hspace, hne⟩
  refine ⟨c, cs ++ behindFirst (compactItems items), ?_, hspace, hne⟩
  rw [compactItems, raw_intercalate, hhead, List.cons_append]

theorem raw_members_head (name : Option String) (value : Json)
    (members : List (Option String × Json))
    : ∃ cs, raw (",".intercalate (compactMembers ((name, value) :: members))) = '"' :: cs := by
  rw [compactMembers, raw_intercalate, raw_member]
  exact ⟨_, List.cons_append⟩

theorem length_raw_compact_pos {value : Json} (h : Readable value)
    : 0 < (raw value.compact).length := by
  rcases raw_compact_head h with ⟨c, cs, hhead, -⟩
  rw [hhead]
  exact Nat.succ_pos _

/--
What some steps are enough for: values whose texts have half as many characters, and the items and
members of such values.
-/
structure ReadsWithin (steps : Nat) : Prop where
  value (value : Json) (h : Readable value) (hsteps : 2 * (raw value.compact).length ≤ steps)
    (rest : List Char) (hrest : EndsNumber rest)
    : valueWithin steps (raw value.compact ++ rest) = some (value, rest)
  items (item : Json) (items : List Json) (h : ReadableItems (item :: items))
    (hsteps : 2 * (raw (",".intercalate (compactItems (item :: items)))).length < steps)
    (found : List Json) (rest : List Char)
    : itemsWithin steps found
        (raw (",".intercalate (compactItems (item :: items))) ++ ']' :: rest)
          = some (.array (found.reverse ++ item :: items), rest)
  members (name : String) (value : Json) (members : List (Option String × Json))
    (h : ReadableMembers ((some name, value) :: members))
    (hsteps : 2 * (raw (",".intercalate
      (compactMembers ((some name, value) :: members)))).length < steps)
    (found : List (Option String × Json)) (rest : List Char)
    : membersWithin steps found
        (raw (",".intercalate (compactMembers ((some name, value) :: members))) ++ '\x7d' :: rest)
          = some (.object (found.reverse ++ (some name, value) :: members), rest)

variable {steps : Nat}

theorem ReadsWithin.array (h : ReadsWithin steps) (items : List Json) (hitems : ReadableItems items)
    (hsteps : 2 * (raw (compact (.array items))).length ≤ steps + 1) (rest : List Char)
    : valueWithin (steps + 1) (raw (compact (.array items)) ++ rest)
        = some (.array items, rest) := by
  cases items with
  | nil =>
    have htext : raw (compact (.array [])) = ['[', ']'] := by decide
    rw [htext]
    rfl
  | cons item items =>
    rcases raw_items_head hitems.1 items with ⟨c, cs, htext, hspace, hne⟩
    rw [raw_compact_array, List.length_cons, List.length_append] at hsteps
    have hread := h.items item items hitems (by omega) [] rest
    rw [htext, List.cons_append] at hread
    rw [raw_compact_array, htext, List.cons_append, List.append_assoc, List.cons_append,
      List.singleton_append, valueWithin_array steps hspace hne, hread]
    rfl

theorem ReadsWithin.object (h : ReadsWithin steps) (members : List (Option String × Json))
    (hmembers : ReadableMembers members)
    (hsteps : 2 * (raw (compact (.object members))).length ≤ steps + 1) (rest : List Char)
    : valueWithin (steps + 1) (raw (compact (.object members)) ++ rest)
        = some (.object members, rest) := by
  match members, hmembers with
  | [], _ =>
    have htext : raw (compact (.object [])) = ['\x7b', '\x7d'] := by decide
    rw [htext]
    rfl
  | (some name, value) :: members, hmembers =>
    rcases raw_members_head (some name) value members with ⟨cs, htext⟩
    rw [raw_compact_object, List.length_cons, List.length_append] at hsteps
    have hread := h.members name value members hmembers (by omega) [] rest
    rw [htext, List.cons_append] at hread
    rw [raw_compact_object, htext, List.cons_append, List.append_assoc, List.cons_append,
      List.singleton_append]
    exact hread

theorem ReadsWithin.value_succ (h : ReadsWithin steps) (value : Json) (hvalue : Readable value)
    (hsteps : 2 * (raw value.compact).length ≤ steps + 1) (rest : List Char)
    (hrest : EndsNumber rest)
    : valueWithin (steps + 1) (raw value.compact ++ rest) = some (value, rest) := by
  cases value with
  | null =>
    have hword : raw (compact .null) = ['n', 'u', 'l', 'l'] := by decide
    rw [hword]
    rfl
  | bool value =>
    have htrue : raw (compact (.bool true)) = ['t', 'r', 'u', 'e'] := by decide
    have hfalse : raw (compact (.bool false)) = ['f', 'a', 'l', 's', 'e'] := by decide
    cases value with
    | true => rw [htrue]; rfl
    | false => rw [hfalse]; rfl
  | number n =>
    cases n with
    | ofNat n =>
      have htext : raw (compact (.number (.ofNat n))) = Nat.toDigits 10 n := raw_compact_natural n
      rw [htext]
      exact valueWithin_natural steps n hrest
    | negSucc n =>
      rw [raw_compact_negative, List.cons_append, valueWithin]
      . exact number?_negative (Nat.succ_ne_zero n) hrest
      all_goals simp
  | decimal text => exact hvalue.elim
  | string s =>
    rcases Option.isSome_iff_exists.1 hvalue with ⟨s, rfl⟩
    exact valueWithin_quote steps s rest
  | array items => exact h.array items hvalue hsteps rest
  | object members => exact h.object members hvalue hsteps rest

theorem ReadsWithin.items_succ (h : ReadsWithin steps) (item : Json) (items : List Json)
    (hitems : ReadableItems (item :: items))
    (hsteps : 2 * (raw (",".intercalate (compactItems (item :: items)))).length < steps + 1)
    (found : List Json) (rest : List Char)
    : itemsWithin (steps + 1) found
        (raw (",".intercalate (compactItems (item :: items))) ++ ']' :: rest)
          = some (.array (found.reverse ++ item :: items), rest) := by
  rw [compactItems, raw_intercalate, List.length_append] at hsteps
  rw [compactItems, raw_intercalate, List.append_assoc]
  cases items with
  | nil =>
    rw [compactItems, behindFirst, List.nil_append]
    exact itemsWithin_last (h.value item hitems.1 (by omega) _ (endsNumber_cons (by decide) rest))
      found
  | cons next items =>
    rcases raw_items_head hitems.2.1 items with ⟨c, cs, htext, hspace, -⟩
    rw [compactItems, behindFirst, ← compactItems, List.length_cons] at hsteps
    have hnext := h.items next items hitems.2 (by omega) (item :: found) rest
    have hitem := h.value item hitems.1 (by omega) _
      (endsNumber_comma (raw (",".intercalate (compactItems (next :: items))) ++ ']' :: rest))
    rw [htext, List.cons_append] at hitem hnext
    rw [compactItems, behindFirst, ← compactItems, htext, List.cons_append, List.cons_append,
      itemsWithin_more hspace hitem, hnext]
    simp

theorem ReadsWithin.members_succ (h : ReadsWithin steps) (name : String) (value : Json)
    (members : List (Option String × Json)) (hmembers : ReadableMembers ((some name, value) :: members))
    (hsteps : 2 * (raw (",".intercalate
      (compactMembers ((some name, value) :: members)))).length < steps + 1)
    (found : List (Option String × Json)) (rest : List Char)
    : membersWithin (steps + 1) found
        (raw (",".intercalate (compactMembers ((some name, value) :: members))) ++ '\x7d' :: rest)
          = some (.object (found.reverse ++ (some name, value) :: members), rest) := by
  rcases raw_compact_head hmembers.2.1 with ⟨c, cs, hvalue, hspace, -⟩
  rw [compactMembers, raw_intercalate, Option.getD_some, raw_member] at hsteps ⊢
  simp only [List.length_append, List.length_cons] at hsteps
  match members, hmembers with
  | [], hmembers =>
    have hread := h.value value hmembers.2.1 (by omega) _
      (endsNumber_cons (by decide) rest : EndsNumber ('\x7d' :: rest))
    rw [hvalue, List.cons_append] at hread
    rw [compactMembers, behindFirst, List.append_nil, hvalue, List.cons_append, List.append_assoc]
    exact membersWithin_last hspace hread found
  | (some next, nextValue) :: members, hmembers =>
    rcases raw_members_head (some next) nextValue members with ⟨ds, htext⟩
    rw [compactMembers, behindFirst, ← compactMembers, List.length_cons] at hsteps
    have hnext := h.members next nextValue members hmembers.2.2 (by omega)
      ((some name, value) :: found) rest
    have hread := h.value value hmembers.2.1 (by omega) _
      (endsNumber_comma
        (raw (",".intercalate (compactMembers ((some next, nextValue) :: members))) ++
          '\x7d' :: rest))
    rw [htext, List.cons_append] at hread hnext
    rw [hvalue, List.cons_append] at hread
    rw [compactMembers, behindFirst, ← compactMembers, htext, hvalue]
    simp only [List.cons_append, List.append_assoc]
    rw [membersWithin_more hspace (show isSpace '"' = false from rfl) hread, hnext]
    simp

theorem readsWithin (steps : Nat) : ReadsWithin steps := by
  induction steps with
  | zero =>
    refine ⟨?_, nofun, nofun⟩
    intro value h hsteps
    have hpos := length_raw_compact_pos h
    omega
  | succ steps ih => exact ⟨ih.value_succ, ih.items_succ, ih.members_succ⟩

theorem ofBytes?_compact {value : Json} (h : Readable value)
    : ofBytes? value.compact.toUTF8.data.toList = some value := by
  rcases raw_compact_head h with ⟨c, cs, htext, hspace, -⟩
  have hskip : skipSpace (raw value.compact) = raw value.compact := by
    rw [htext, skipSpace_cons hspace]
  have hread := (readsWithin (2 * (raw value.compact).length + 2)).value value h (by omega) []
    endsNumber_nil
  rw [List.append_nil] at hread
  change (valueWithin (2 * (skipSpace (raw value.compact)).length + 2)
    (skipSpace (raw value.compact)) >>= _) = _
  rw [hskip, hread]
  rfl

end Json
end ArtifactAudit
