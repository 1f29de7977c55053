import Mathlib.Data.List.Nodup
import Mathlib.Data.Option.Basic
import ArtifactAudit.Pom.Interpolation

/-!
This module contains what references to properties stand for: the values of the properties with the
references in these expanded in turn. Replacing all references of a text again and again comes to
that if no chain of references is longer than the number of passes, and to nothing otherwise.
-/

namespace ArtifactAudit.Pom

variable {properties : Properties}

/--
Whether a text consists of references to some properties, in this order, and of other characters
than dollar signs. The name in a reference ends at the first brace.
-/
inductive Template : List Char → List String → Prop where
  | nil : Template [] []
  | plain {c : Char} {cs : List Char} {names : List String} (ne : c ≠ '$') (rest : Template cs names)
    : Template (c :: cs) names
  | reference {name : String} {cs : List Char} {names : List String} (ends : '\x7d' ∉ name.toList)
    (rest : Template cs names)
    : Template ('$' :: '\x7b' :: (name.toList ++ '\x7d' :: cs)) (name :: names)

/--
What a text stands for: each reference stands for what the value of its property stands for.
-/
inductive Expands (properties : Properties) : List Char → List Char → Prop where
  | nil : Expands properties [] []
  | plain {c : Char} {cs expanded : List Char} (ne : c ≠ '$') (rest : Expands properties cs expanded)
    : Expands properties (c :: cs) (c :: expanded)
  | reference {name value : String} {cs inner expanded : List Char} (ends : '\x7d' ∉ name.toList)
    (get_eq : properties.get? name = some value) (value_expands : Expands properties value.toList inner)
    (rest : Expands properties cs expanded)
    : Expands properties ('$' :: '\x7b' :: (name.toList ++ '\x7d' :: cs)) (inner ++ expanded)

def written (properties : Properties) (name : String) : List Char :=
  (properties.get? name).elim [] String.toList

inductive Chain (properties : Properties) : List Char → List String → Prop where
  | nil {cs : List Char} : Chain properties cs []
  | cons {cs : List Char} {names names' : List String} {name : String} (template : Template cs names)
    (mem : name ∈ names) (rest : Chain properties (written properties name) names')
    : Chain properties cs (name :: names')

/--
Whether all properties that a text refers to, itself or through others, are defined, and no chain of
references from it is longer than a limit.
-/
def Bounded (properties : Properties) (limit : Nat) (cs : List Char) : Prop :=
  ∀ names, Chain properties cs names →
    names.length ≤ limit ∧ ∀ name ∈ names, properties.get? name ≠ none

theorem takeWhile_append_brace {name : List Char} (h : '\x7d' ∉ name) (cs : List Char)
    : (name ++ '\x7d' :: cs).takeWhile (· ≠ '\x7d') = name := by
  rw [List.takeWhile_append_of_pos, List.takeWhile_cons_of_neg (by simp), List.append_nil]
  intro c hc
  exact decide_eq_true fun heq => h (heq ▸ hc)

theorem dropWhile_append_brace {name : List Char} (h : '\x7d' ∉ name) (cs : List Char)
    : (name ++ '\x7d' :: cs).dropWhile (· ≠ '\x7d') = '\x7d' :: cs := by
  rw [List.dropWhile_append_of_pos, List.dropWhile_cons_of_neg (by simp)]
  intro c hc
  exact decide_eq_true fun heq => h (heq ▸ hc)

theorem replaceReferences_plain {c : Char} (h : c ≠ '$') (cs : List Char)
    : replaceReferences properties (c :: cs) = (replaceReferences properties cs).map (c :: ·) := by
  rw [replaceReferences]
  rintro rest rfl
  exact absurd rfl h

theorem replaceReferences_reference {name : String} (h : '\x7d' ∉ name.toList) (cs : List Char)
    : replaceReferences properties ('$' :: '\x7b' :: (name.toList ++ '\x7d' :: cs))
        =
      (properties.get? name).bind fun value =>
        (replaceReferences properties cs).map (value.toList ++ ·) := by
  rw [replaceReferences]
  split
  . next c after hdrop =>
    rw [dropWhile_append_brace h] at hdrop
    obtain ⟨rfl, rfl⟩ := List.cons.inj hdrop
    rw [takeWhile_append_brace h, String.ofList_toList]
    simp only [Option.map_eq_bind]
    rfl
  . next hdrop =>
    rw [dropWhile_append_brace h] at hdrop
    cases hdrop

theorem Template.append {cs ds : List Char} {names names' : List String} (h : Template cs names)
    (h' : Template ds names')
    : Template (cs ++ ds) (names ++ names') := by
  induction h with
  | nil => exact h'
  | plain ne _ ih => exact .plain ne ih
  | @reference name cs names ends _ ih =>
    simpa using Template.reference ends ih

theorem reference_inj {name other : String} {cs ds : List Char} (h : '\x7d' ∉ name.toList)
    (h' : '\x7d' ∉ other.toList)
    (heq : '$' :: '\x7b' :: (name.toList ++ '\x7d' :: cs)
      = '$' :: '\x7b' :: (other.toList ++ '\x7d' :: ds))
    : name = other ∧ cs = ds := by
  have heq := (List.cons.inj (List.cons.inj heq).2).2
  have hname := congrArg (List.takeWhile (· ≠ '\x7d')) heq
  have hrest := congrArg (List.dropWhile (· ≠ '\x7d')) heq
  rw [takeWhile_append_brace h, takeWhile_append_brace h'] at hname
  rw [dropWhile_append_brace h, dropWhile_append_brace h'] at hrest
  exact ⟨String.toList_inj.1 hname, (List.cons.inj hrest).2⟩

theorem Template.unique {cs : List Char} {names : List String} (h : Template cs names)
    : ∀ {others : List String}, Template cs others → names = others := by
  induction h with
  | nil =>
    intro others h
    cases h
    rfl
  | plain ne _ ih =>
    intro others h
    cases h with
    | plain _ rest => exact ih rest
    | reference => exact absurd rfl ne
  | @reference name cs names ends _ ih =>
    intro others h
    generalize htext : '$' :: '\x7b' :: (name.toList ++ '\x7d' :: cs) = text at h
    cases h with
    | nil => cases htext
    | plain ne _ => exact absurd (List.cons.inj htext).1.symm ne
    | reference ends' rest =>
      obtain ⟨rfl, rfl⟩ := reference_inj ends ends' htext
      rw [ih rest]

theorem Expands.of_plain {c : Char} (ne : c ≠ '$') {cs expanded : List Char}
    (h : Expands properties (c :: cs) expanded)
    : ∃ rest, expanded = c :: rest ∧ Expands properties cs rest := by
  cases h with
  | plain _ rest => exact ⟨_, rfl, rest⟩
  | reference => exact absurd rfl ne

theorem Expands.of_reference {name : String} (ends : '\x7d' ∉ name.toList)
    {cs expanded : List Char}
    (h : Expands properties ('$' :: '\x7b' :: (name.toList ++ '\x7d' :: cs)) expanded)
    : ∃ value inner rest, properties.get? name = some value
        ∧ Expands properties value.toList inner ∧ Expands properties cs rest
        ∧ expanded = inner ++ rest := by
  generalize htext : '$' :: '\x7b' :: (name.toList ++ '\x7d' :: cs) = text at h
  cases h with
  | nil => cases htext
  | plain ne _ => exact absurd (List.cons.inj htext).1.symm ne
  | reference ends' get_eq value_expands rest =>
    obtain ⟨rfl, rfl⟩ := reference_inj ends ends' htext
    exact ⟨_, _, _, get_eq, value_expands, rest, rfl⟩

theorem Expands.unique {cs expanded : List Char} (h : Expands properties cs expanded)
    : ∀ {other : List Char}, Expands properties cs other → expanded = other := by
  induction h with
  | nil =>
    intro other h
    cases h
    rfl
  | plain ne _ ih =>
    intro other h
    rcases h.of_plain ne with ⟨rest, rfl, hrest⟩
    rw [ih hrest]
  | reference ends get_eq _ _ ih_value ih =>
    intro other h
    rcases h.of_reference ends with ⟨value, inner, rest, hget, hinner, hrest, rfl⟩
    obtain rfl := Option.some.inj (get_eq.symm.trans hget)
    rw [ih_value hinner, ih hrest]

theorem Template.expands_append {cs ds : List Char} {names : List String} (h : Template cs names)
    : ∀ {expanded : List Char}, Expands properties (cs ++ ds) expanded →
        ∃ first rest, expanded = first ++ rest ∧ Expands properties cs first
          ∧ Expands properties ds rest := by
  induction h with
  | nil => exact fun h => ⟨[], _, rfl, .nil, h⟩
  | @plain c cs names ne _ ih =>
    intro expanded h
    rw [List.cons_append] at h
    rcases h.of_plain ne with ⟨rest, rfl, hrest⟩
    rcases ih hrest with ⟨first, last, rfl, hfirst, hlast⟩
    exact ⟨c :: first, last, rfl, .plain ne hfirst, hlast⟩
  | @reference name cs names ends _ ih =>
    intro expanded h
    rw [List.cons_append, List.cons_append, List.append_assoc, List.cons_append] at h
    rcases h.of_reference ends with ⟨value, inner, rest, hget, hinner, hrest, rfl⟩
    rcases ih hrest with ⟨first, last, rfl, hfirst, hlast⟩
    refine ⟨inner ++ first, last, ?_, .reference ends hget hinner hfirst, hlast⟩
    rw [List.append_assoc]

theorem hasReference_template {cs : List Char} {names : List String} (h : Template cs names)
    : hasReference cs = true ↔ names ≠ [] := by
  induction h with
  | nil => simp [hasReference, Text.occursIn]
  | @plain c cs names ne _ ih =>
    rw [← ih, hasReference, Text.occursIn, Bool.or_eq_true, hasReference]
    simp [List.isPrefixOf, ne.symm]
  | reference => simp [hasReference, Text.occursIn, List.isPrefixOf]

theorem replaceReferences_undefined {cs : List Char} {names : List String} {name : String}
    (h : Template cs names) (hmem : name ∈ names) (hnone : properties.get? name = none)
    : replaceReferences properties cs = none := by
  induction h with
  | nil => cases hmem
  | plain ne _ ih => rw [replaceReferences_plain ne, ih hmem, Option.map_none]
  | reference ends _ ih =>
    rw [replaceReferences_reference ends]
    rcases List.mem_cons.1 hmem with rfl | hmem
    . rw [hnone, Option.bind_none]
    . simp only [ih hmem, Option.map_none, Option.bind_fun_none]

section

variable (hvalues : ∀ name value, properties.get? name = some value →
  ∃ names, Template value.toList names)

include hvalues

theorem replaceReferences_template {cs : List Char} {names : List String} (h : Template cs names)
    (hdefined : ∀ name ∈ names, properties.get? name ≠ none)
    : ∃ next inner, replaceReferences properties cs = some next ∧ Template next inner
        ∧ (∀ x, x ∈ inner ↔ ∃ name ∈ names, ∃ further,
          Template (written properties name) further ∧ x ∈ further)
        ∧ ∀ expanded, Expands properties next expanded → Expands properties cs expanded := by
  induction h with
  | nil =>
    refine ⟨[], [], ?_, .nil, by simp, fun _ => id⟩
    rw [replaceReferences]
  | @plain c cs names ne _ ih =>
    rcases ih hdefined with ⟨next, inner, hnext, htemplate, hinner, hexpands⟩
    refine ⟨c :: next, inner, ?_, .plain ne htemplate, hinner, ?_⟩
    . rw [replaceReferences_plain ne, hnext, Option.map_some]
    . intro expanded h
      cases h with
      | plain _ rest => exact .plain ne (hexpands _ rest)
      | reference => exact absurd rfl ne
  | @reference name cs names ends _ ih =>
    rw [List.forall_mem_cons] at hdefined
    rcases ih hdefined.2 with ⟨next, inner, hnext, htemplate, hinner, hexpands⟩
    rcases Option.ne_none_iff_exists'.1 hdefined.1 with ⟨value, hvalue⟩
    rcases hvalues name value hvalue with ⟨further, hfurther⟩
    have hwritten : written properties name = value.toList := by rw [written, hvalue]; rfl
    refine ⟨value.toList ++ next, further ++ inner, ?_, hfurther.append htemplate, ?_, ?_⟩
    . rw [replaceReferences_reference ends, hvalue, hnext]
      rfl
    . intro x
      rw [List.mem_append, List.exists_mem_cons_iff, ← hinner, hwritten]
      refine or_congr_left ⟨fun hx => ⟨further, hfurther, hx⟩, ?_⟩
      rintro ⟨other, hother, hx⟩
      rwa [hfurther.unique hother]
    . intro expanded h
      rcases hfurther.expands_append h with ⟨first, rest, rfl, hfirst, hrest⟩
      exact .reference ends hvalue hfirst (hexpands _ hrest)

end

theorem bounded_succ {limit : Nat} {cs : List Char} {names : List String} (h : Template cs names)
    : Bounded properties (limit + 1) cs
        ↔
      ∀ name ∈ names, properties.get? name ≠ none
        ∧ Bounded properties limit (written properties name) := by
  constructor
  . intro hbounded name hname
    refine ⟨(hbounded [name] (.cons h hname .nil)).2 name List.mem_cons_self, ?_⟩
    intro chain hchain
    rcases hbounded (name :: chain) (.cons h hname hchain) with ⟨hlength, hdefined⟩
    exact ⟨Nat.le_of_succ_le_succ hlength, (List.forall_mem_cons.1 hdefined).2⟩
  . rintro hbounded chain (_ | ⟨htemplate, hname, hchain⟩)
    . exact ⟨Nat.zero_le _, nofun⟩
    . rcases hbounded _ (h.unique htemplate ▸ hname) with ⟨hdefined, hinner⟩
      rcases hinner _ hchain with ⟨hlength, hall⟩
      exact ⟨Nat.succ_le_succ hlength, List.forall_mem_cons.2 ⟨hdefined, hall⟩⟩

theorem bounded_zero {cs : List Char} {names : List String} (h : Template cs names)
    : Bounded properties 0 cs ↔ names = [] := by
  constructor
  . intro hbounded
    rw [List.eq_nil_iff_forall_not_mem]
    intro name hname
    exact Nat.not_succ_le_zero 0 (hbounded [name] (.cons h hname .nil)).1
  . rintro rfl chain (_ | ⟨htemplate, hname, _⟩)
    . exact ⟨Nat.le_refl 0, nofun⟩
    . rw [← h.unique htemplate] at hname
      cases hname

theorem bounded_iff_of_mem_iff {limit : Nat} {next : List Char} {names inner : List String}
    (h : Template next inner)
    (hinner : ∀ x, x ∈ inner ↔ ∃ name ∈ names, ∃ further,
      Template (written properties name) further ∧ x ∈ further)
    : Bounded properties limit next
        ↔ ∀ name ∈ names, Bounded properties limit (written properties name) := by
  constructor
  . rintro hbounded name hname chain (_ | ⟨htemplate, hx, hchain⟩)
    . exact ⟨Nat.zero_le _, nofun⟩
    . exact hbounded _ (.cons h ((hinner _).2 ⟨name, hname, _, htemplate, hx⟩) hchain)
  . rintro hbounded chain (_ | ⟨htemplate, hx, hchain⟩)
    . exact ⟨Nat.zero_le _, nofun⟩
    . rw [← h.unique htemplate] at hx
      rcases (hinner _).1 hx with ⟨name, hname, further, hfurther, hx⟩
      exact hbounded name hname _ (.cons hfurther hx hchain)

theorem Template.expands_self {cs : List Char} {names : List String} (h : Template cs names)
    : names = [] → Expands properties cs cs := by
  induction h with
  | nil => exact fun _ => .nil
  | plain ne _ ih => exact fun hnames => .plain ne (ih hnames)
  | reference => exact nofun

theorem Template.plain_spec {cs : List Char} {names : List String} (h : Template cs names)
    (hnames : names = []) (limit : Nat)
    : Bounded properties limit cs
        ∧ ∃ expanded, resolveWithin properties limit cs = some expanded
          ∧ Expands properties cs expanded := by
  have hnone : ¬ hasReference cs = true := by simp [hasReference_template h, hnames]
  cases limit with
  | zero =>
    refine ⟨(bounded_zero h).2 hnames, cs, ?_, h.expands_self hnames⟩
    rw [resolveWithin, if_neg hnone]
  | succ limit =>
    refine ⟨(bounded_succ h).2 (by simp [hnames]), cs, ?_, h.expands_self hnames⟩
    rw [resolveWithin, if_neg hnone]

theorem resolveWithin_template
    (hvalues : ∀ name value, properties.get? name = some value →
      ∃ names, Template value.toList names)
    (limit : Nat)
    : ∀ {cs : List Char} {names : List String}, Template cs names →
        (Bounded properties limit cs →
          ∃ expanded, resolveWithin properties limit cs = some expanded
            ∧ Expands properties cs expanded)
        ∧ (¬ Bounded properties limit cs → resolveWithin properties limit cs = none) := by
  induction limit with
  | zero =>
    intro cs names h
    by_cases hnames : names = []
    . rcases h.plain_spec hnames 0 with ⟨hbounded, hresolve⟩
      exact ⟨fun _ => hresolve, absurd hbounded⟩
    . refine ⟨fun hbounded => absurd ((bounded_zero h).1 hbounded) hnames, fun _ => ?_⟩
      rw [resolveWithin, if_pos ((hasReference_template h).2 hnames)]
  | succ limit ih =>
    intro cs names h
    by_cases hnames : names = []
    . rcases h.plain_spec hnames (limit + 1) with ⟨hbounded, hresolve⟩
      exact ⟨fun _ => hresolve, absurd hbounded⟩
    . rw [resolveWithin, if_pos ((hasReference_template h).2 hnames), bounded_succ h]
      by_cases hdefined : ∀ name ∈ names, properties.get? name ≠ none
      . rcases replaceReferences_template hvalues h hdefined with
          ⟨next, inner, hnext, htemplate, hinner, hexpands⟩
        have hbounded : (∀ name ∈ names, properties.get? name ≠ none
              ∧ Bounded properties limit (written properties name))
            ↔ Bounded properties limit next := by
          rw [bounded_iff_of_mem_iff htemplate hinner]
          exact forall₂_congr fun name hname => and_iff_right (hdefined name hname)
        rw [hbounded, hnext, Option.bind_some]
        refine ⟨fun hbounded => ?_, (ih htemplate).2⟩
        rcases (ih htemplate).1 hbounded with ⟨expanded, hresolve, hexpanded⟩
        exact ⟨expanded, hresolve, hexpands expanded hexpanded⟩
      . push Not at hdefined
        rcases hdefined with ⟨name, hname, hnone⟩
        refine ⟨fun hbounded => absurd hnone (hbounded name hname).1, fun _ => ?_⟩
        rw [replaceReferences_undefined h hname hnone, Option.bind_none]

theorem Chain.append {cs : List Char} {names names' : List String} {name : String}
    (h : Chain properties cs (names ++ [name])) (h' : Chain properties (written properties name) names')
    : Chain properties cs (names ++ name :: names') := by
  induction names generalizing cs with
  | nil =>
    cases h with
    | cons template mem _ => exact .cons template mem h'
  | cons first names ih =>
    cases h with
    | cons template mem rest => exact .cons template mem (ih rest)

theorem Chain.of_append {cs : List Char} {names names' : List String} {name : String}
    (h : Chain properties cs (names ++ name :: names'))
    : Chain properties cs (names ++ [name]) ∧ Chain properties (written properties name) names' := by
  induction names generalizing cs with
  | nil =>
    cases h with
    | cons template mem rest => exact ⟨.cons template mem .nil, rest⟩
  | cons first names ih =>
    cases h with
    | cons template mem rest => exact ⟨.cons template mem (ih rest).1, (ih rest).2⟩

theorem Chain.not_bounded {cs : List Char} {names : List String} (h : Chain properties cs names)
    (hcycle : ¬ names.Nodup) (limit : Nat)
    : ¬ Bounded properties limit cs := by
  rw [List.nodup_iff_sublist, not_forall] at hcycle
  rcases hcycle with ⟨name, hcycle⟩
  rcases List.cons_sublist_iff.1 (not_not.1 hcycle) with ⟨start, rest, rfl, hstart, hrest⟩
  rcases List.append_of_mem hstart with ⟨before, between, rfl⟩
  rcases List.append_of_mem (List.singleton_sublist.1 hrest) with ⟨more, after, rfl⟩
  rw [List.append_assoc, List.cons_append, ← List.append_assoc] at h
  rcases h.of_append with ⟨hto, hfrom⟩
  have hround : ∀ n, ∃ chain, Chain properties (written properties name) chain ∧ n ≤ chain.length := by
    intro n
    induction n with
    | zero => exact ⟨[], .nil, Nat.le_refl 0⟩
    | succ n ih =>
      rcases ih with ⟨chain, hchain, hlength⟩
      refine ⟨_, hfrom.of_append.1.append hchain, ?_⟩
      rw [List.length_append, List.length_cons]
      omega
  rcases hround limit with ⟨chain, hchain, hlength⟩
  intro hbounded
  have htoo := (hbounded _ (hto.append hchain)).1
  rw [List.length_append, List.length_cons] at htoo
  omega

/--
What a text with references to properties comes to, if it has no blanks around it and if dollar signs
only start references in it and in the values of the properties. All references are expanded if all
properties that are referred to are defined and no chain of references has more than eight of them.
There is no value otherwise, in particular if a chain comes back to a property.
-/
theorem resolve_template
    (hvalues : ∀ name value, properties.get? name = some value →
      ∃ names, Template value.toList names)
    {text : String} {names : List String} (htext : Template text.toList names)
    (htrimmed : Text.trim text = text) (hne : text ≠ "")
    : (Bounded properties 8 text.toList →
          ∃ value, resolve properties text = some value
            ∧ Expands properties text.toList value.toList
            ∧ ∀ other, Expands properties text.toList other → other = value.toList)
        ∧ (¬ Bounded properties 8 text.toList → resolve properties text = none)
        ∧ ∀ chain, Chain properties text.toList chain → ¬ chain.Nodup →
          resolve properties text = none := by
  have hresolve : resolve properties text
      = (resolveWithin properties maxPasses text.toList).map String.ofList := by
    have hchars : Text.trimChars text.toList = text.toList := by
      rw [← String.toList_inj, Text.trim, String.toList_ofList] at htrimmed
      exact htrimmed
    rw [resolve, hchars, if_neg]
    rwa [List.isEmpty_iff, String.toList_eq_nil_iff]
  have hpasses := resolveWithin_template hvalues maxPasses htext
  have hunbounded : ¬ Bounded properties 8 text.toList → resolve properties text = none := by
    intro hbounded
    rw [hresolve, hpasses.2 hbounded, Option.map_none]
  refine ⟨?_, hunbounded, ?_⟩
  . intro hbounded
    rcases hpasses.1 hbounded with ⟨expanded, hexpanded, hexpands⟩
    refine ⟨String.ofList expanded, ?_, ?_, ?_⟩
    . rw [hresolve, hexpanded, Option.map_some]
    . rwa [String.toList_ofList]
    . intro other hother
      rw [String.toList_ofList, hother.unique hexpands]
  . exact fun chain hchain hcycle => hunbounded (hchain.not_bounded hcycle 8)

namespace Circular

/--
The properties of the example: one refers to another one, and two refer to each other.
-/
def table : Properties :=
  .ofList [("a", "1"), ("b", "$\x7ba\x7d.2"), ("c", "$\x7bd\x7d"), ("d", "x$\x7bc\x7d")]

def text : String := "$\x7bb\x7d-x"

theorem template_reference {name : String} (h : '\x7d' ∉ name.toList) {cs : List Char}
    (hcs : '$' ∉ cs)
    : Template ('$' :: '\x7b' :: (name.toList ++ '\x7d' :: cs)) [name] := by
  apply Template.reference h
  induction cs with
  | nil => exact .nil
  | cons c cs ih =>
    rw [List.mem_cons, not_or] at hcs
    exact .plain (Ne.symm hcs.1) (ih hcs.2)

theorem template_text : Template text.toList ["b"] := by
  have heq : text.toList = '$' :: '\x7b' :: ("b".toList ++ '\x7d' :: ['-', 'x']) := by decide
  exact heq ▸ template_reference (by decide) (by decide)

theorem template_a : Template (written table "a") [] := by
  have heq : written table "a" = ['1'] := by decide
  exact heq ▸ .plain (by decide) .nil

theorem template_b : Template (written table "b") ["a"] := by
  have heq : written table "b" = '$' :: '\x7b' :: ("a".toList ++ '\x7d' :: ['.', '2']) := by decide
  exact heq ▸ template_reference (by decide) (by decide)

theorem template_c : Template (written table "c") ["d"] := by
  have heq : written table "c" = '$' :: '\x7b' :: ("d".toList ++ '\x7d' :: []) := by decide
  exact heq ▸ template_reference (by decide) (by decide)

theorem template_d : Template (written table "d") ["c"] := by
  have heq : written table "d" = 'x' :: '$' :: '\x7b' :: ("c".toList ++ '\x7d' :: []) := by decide
  exact heq ▸ .plain (by decide) (template_reference (by decide) (by decide))

theorem template_value
    : ∀ name value, table.get? name = some value → ∃ names, Template value.toList names := by
  intro name value hget
  have hmem : name ∈ ["a", "b", "c", "d"] := by
    have hkeys : table.entries.map Prod.fst = ["a", "b", "c", "d"] := by decide
    rw [← hkeys]
    exact List.mem_map_of_mem (NameMap.mem_entries.2 hget)
  have hwritten : written table name = value.toList := by
    rw [written, hget]
    rfl
  rw [← hwritten]
  simp only [List.mem_cons, List.not_mem_nil, or_false] at hmem
  rcases hmem with rfl | rfl | rfl | rfl
  . exact ⟨_, template_a⟩
  . exact ⟨_, template_b⟩
  . exact ⟨_, template_c⟩
  . exact ⟨_, template_d⟩

theorem bounded_text : Bounded table 8 text.toList := by
  rw [bounded_succ template_text, List.forall_mem_singleton, bounded_succ template_b,
    List.forall_mem_singleton, bounded_succ template_a]
  exact ⟨by decide, by decide, nofun⟩

theorem expands_text : Expands table text.toList "1.2-x".toList := by
  have ha : '\x7d' ∉ "a".toList := by decide
  have hb : '\x7d' ∉ "b".toList := by decide
  have hone : Expands table "1".toList ['1'] := .plain (by decide) .nil
  have hvalue : Expands table "$\x7ba\x7d.2".toList (['1'] ++ ['.', '2']) :=
    .reference ha (by decide) hone (.plain (by decide) (.plain (by decide) .nil))
  exact .reference hb (by decide) hvalue (.plain (by decide) (.plain (by decide) .nil))

end Circular

open Circular in
theorem resolve_template_circular
    : (∀ name value, table.get? name = some value → ∃ names, Template value.toList names)
        ∧ Template text.toList ["b"] ∧ Text.trim text = text ∧ text ≠ ""
        ∧ Bounded table 8 text.toList ∧ resolve table text = some "1.2-x"
        ∧ resolve table "$\x7bd\x7d" = none := by
  have htrimmed : Text.trim text = text := by decide
  refine ⟨template_value, template_text, htrimmed, by decide, bounded_text, ?_, ?_⟩
  . rcases (resolve_template template_value template_text htrimmed (by decide)).1 bounded_text with
      ⟨value, hvalue, _, hunique⟩
    rw [hvalue, String.toList_inj.1 (hunique _ expands_text)]
  . have htext : Template "$\x7bd\x7d".toList ["d"] := template_c
    have hchain : Chain table "$\x7bd\x7d".toList ["d", "c", "d"] :=
      .cons htext List.mem_cons_self
        (.cons template_d List.mem_cons_self (.cons template_c List.mem_cons_self .nil))
    exact (resolve_template template_value htext (by decide) (by decide)).2.2 _ hchain (by decide)

end ArtifactAudit.Pom
