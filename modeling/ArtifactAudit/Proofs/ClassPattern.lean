import Mathlib.Data.List.Dedup
import Mathlib.Data.List.Infix
import Mathlib.Data.List.Perm.Subperm
import ArtifactAudit.Proofs.PackageTrie.Place

/-!
This module contains patterns of class names and the one that compaction picks for a class, told
without tries: the widest pattern around the class whose classes all have one label. The patterns
that are picked are as few as any that give each class its label.
-/

namespace ArtifactAudit

open PackageTrie UsageMap

/--
What a key of a compacted map of classes stands for.
-/
inductive ClassPattern where
  | single (name : String)
  | package (path : List String)
  | subtree (path : List String)
deriving DecidableEq, Repr

namespace ClassPattern

variable {α : Type}

def text : ClassPattern → String
  | .single name => name
  | .package path => pattern path packageWildcard
  | .subtree path => pattern path subtreeWildcard

def Covers (name : String) : ClassPattern → Prop
  | .single other => name = other
  | .package path => (segments name).1 = path
  | .subtree path => path <+: (segments name).1

instance (name : String) : (p : ClassPattern) → Decidable (p.Covers name)
  | .single other => inferInstanceAs (Decidable (name = other))
  | .package path => inferInstanceAs (Decidable ((segments name).1 = path))
  | .subtree path => inferInstanceAs (Decidable (path <+: (segments name).1))

def IsUniform (map : NameMap α) (p : ClassPattern) : Prop :=
  ∀ first ∈ map.entries, ∀ second ∈ map.entries,
    p.Covers first.1 → p.Covers second.1 → first.2 = second.2

instance [DecidableEq α] (map : NameMap α) (p : ClassPattern) : Decidable (p.IsUniform map) :=
  inferInstanceAs (Decidable (∀ first ∈ map.entries, ∀ second ∈ map.entries,
    p.Covers first.1 → p.Covers second.1 → first.2 = second.2))

/--
The pattern for the outermost package around a class whose classes all have one label, those of its
subpackages included. If there is none it is the one for the classes directly in the package of the
class, if these have one label, and else the one for the class alone.
-/
def widest [DecidableEq α] (map : NameMap α) (name : String) : ClassPattern :=
  let path := (segments name).1
  ((path.inits.map subtree ++ [package path]).find? (IsUniform map ·)).getD (.single name)

section

variable {map : NameMap α} {path : List String}

theorem labelAt_ofList_entries {name : String} {label : α}
    : labelAt name path (ofList map.entries) = some label
        ↔
      ∃ entry ∈ map.entries, segments entry.1 = (path, name) ∧ entry.2 = label := by
  have hlabel : ∀ other, labelAt (segments other).2 (segments other).1 (ofList map.entries)
      = map.get? other := by
    intro other
    rw [labelAt_ofList, NameMap.lookup_reverse map.increasing]
    rfl
  constructor
  . intro h
    rcases isSegment_of_labelAt (wellFormed_ofList _) h with ⟨hpath, hname⟩
    have hsegments := segments_pattern hpath hname
    refine ⟨(pattern path name, label), ?_, hsegments, rfl⟩
    rw [NameMap.mem_entries, ← hlabel, hsegments]
    exact h
  . rintro ⟨entry, hentry, hsegments, rfl⟩
    have h := (hlabel entry.1).trans (NameMap.mem_entries.1 hentry)
    rwa [hsegments] at h

theorem mem_labels_iff_covers {inner : PackageTrie α} (label : α)
    (h : packageAt path (ofList map.entries) = some inner)
    : label ∈ labels inner
        ↔
      ∃ entry ∈ map.entries, (subtree path).Covers entry.1 ∧ entry.2 = label := by
  rw [mem_labels_iff_labelAt ((wellFormed_ofList _).packageAt h)]
  have hlabel : ∀ rest name, labelAt name rest inner
      = labelAt name (path ++ rest) (ofList map.entries) := by
    intro rest name
    rw [labelAt_append, h, Option.bind_some]
  simp only [hlabel, labelAt_ofList_entries]
  constructor
  . rintro ⟨rest, name, entry, hentry, hsegments, hlabel⟩
    refine ⟨entry, hentry, ⟨rest, ?_⟩, hlabel⟩
    rw [hsegments]
  . rintro ⟨entry, hentry, ⟨rest, hrest⟩, hlabel⟩
    exact ⟨rest, (segments entry.1).2, entry, hentry, Prod.ext hrest.symm rfl, hlabel⟩

theorem mem_classes_iff_covers {inner : PackageTrie α} (label : α)
    (h : packageAt path (ofList map.entries) = some inner)
    : label ∈ inner.classes.map Prod.snd
        ↔
      ∃ entry ∈ map.entries, (package path).Covers entry.1 ∧ entry.2 = label := by
  have hlabel : ∀ name, inner.classes.lookup name = labelAt name path (ofList map.entries) := by
    intro name
    have happend := labelAt_append name path [] (ofList map.entries)
    rw [List.append_nil, h, Option.bind_some] at happend
    rw [happend]
    cases inner
    rfl
  have hclasses : (inner.classes.map Prod.fst).Pairwise Text.Precedes := by
    cases (wellFormed_ofList _).packageAt h with
    | node hclasses => exact hclasses
  have hmem : label ∈ inner.classes.map Prod.snd
      ↔ ∃ name, inner.classes.lookup name = some label := by
    simp only [← NameMap.mem_iff_lookup hclasses, List.mem_map, Prod.exists, exists_eq_right]
  simp only [hmem, hlabel, labelAt_ofList_entries]
  constructor
  . rintro ⟨name, entry, hentry, hsegments, hlabel⟩
    exact ⟨entry, hentry, congrArg Prod.fst hsegments, hlabel⟩
  . rintro ⟨entry, hentry, hpath, hlabel⟩
    exact ⟨(segments entry.1).2, entry, hentry, Prod.ext hpath rfl, hlabel⟩

theorem isUniform_iff {p : ClassPattern} {ls : List α}
    (h : ∀ label, label ∈ ls ↔ ∃ entry ∈ map.entries, p.Covers entry.1 ∧ entry.2 = label)
    : p.IsUniform map ↔ ∀ first ∈ ls, ∀ second ∈ ls, first = second := by
  constructor
  . intro huniform first hfirst second hsecond
    rcases (h first).1 hfirst with ⟨entry, hentry, hcovers, rfl⟩
    rcases (h second).1 hsecond with ⟨other, hother, hcovers', rfl⟩
    exact huniform entry hentry other hother hcovers hcovers'
  . intro hall entry hentry other hother hcovers hcovers'
    exact hall _ ((h _).2 ⟨entry, hentry, hcovers, rfl⟩) _ ((h _).2 ⟨other, hother, hcovers', rfl⟩)

theorem uniform_single (map : NameMap α) (name : String) : (single name).IsUniform map := by
  rintro ⟨_, first⟩ hfirst ⟨_, second⟩ hsecond rfl heq
  cases heq
  rw [NameMap.mem_entries] at hfirst hsecond
  exact Option.some.inj (hfirst.symm.trans hsecond)

theorem exists_packageAt {entry : String × α} (hentry : entry ∈ map.entries)
    (hpath : path <+: (segments entry.1).1)
    : ∃ inner, packageAt path (ofList map.entries) = some inner := by
  rcases hpath with ⟨rest, hrest⟩
  have hlabel : labelAt (segments entry.1).2 (path ++ rest) (ofList map.entries) = some entry.2 :=
    labelAt_ofList_entries.2 ⟨entry, hentry, Prod.ext hrest.symm rfl, rfl⟩
  rw [labelAt_append] at hlabel
  rcases Option.bind_eq_some_iff.1 hlabel with ⟨inner, hinner, _⟩
  exact ⟨inner, hinner⟩

variable [DecidableEq α]

section

variable {entry : String × α} (hentry : entry ∈ map.entries)

include hentry

theorem isSome_labelBelow?_iff (hpath : path <+: (segments entry.1).1)
    : (labelBelow? (ofList map.entries) path).isSome ↔ (subtree path).IsUniform map := by
  rcases exists_packageAt hentry hpath with ⟨inner, hinner⟩
  have hmem := fun label => mem_labels_iff_covers label hinner
  rw [labelBelow?, hinner, Option.bind_some, isUniform_iff hmem,
    isSome_single?_iff ((hmem entry.2).2 ⟨entry, hentry, hpath, rfl⟩)]

theorem isSome_labelIn?_iff
    : (labelIn? (ofList map.entries) (segments entry.1).1).isSome
        ↔
      (package (segments entry.1).1).IsUniform map := by
  rcases exists_packageAt hentry (List.prefix_refl _) with ⟨inner, hinner⟩
  have hmem := fun label => mem_classes_iff_covers label hinner
  rw [labelIn?, hinner, Option.bind_some, isUniform_iff hmem,
    isSome_single?_iff ((hmem entry.2).2 ⟨entry, hentry, rfl, rfl⟩)]

theorem segments_text_widest
    : segments (widest map entry.1).text
        = place (ofList map.entries) (segments entry.1).1 (segments entry.1).2 := by
  have hfind : (segments entry.1).1.inits.find?
        (fun path => (labelBelow? (ofList map.entries) path).isSome)
      = (segments entry.1).1.inits.find? fun path => (subtree path).IsUniform map := by
    rw [← List.head?_filter, ← List.head?_filter]
    congr 1
    apply List.filter_congr
    intro path hpath
    rw [Bool.eq_iff_iff, isSome_labelBelow?_iff hentry ((List.mem_inits _ _).1 hpath),
      decide_eq_true_iff]
  have hpath := isSegment_path entry.1
  rw [widest, place, hfind, List.find?_append, List.find?_map]
  cases houter : (segments entry.1).1.inits.find? fun path => (subtree path).IsUniform map with
  | some path =>
    have houtermost : path <+: (segments entry.1).1 :=
      (List.mem_inits _ _).1 (List.mem_of_find?_eq_some houter)
    simp only [Function.comp_def, houter, Option.map_some, Option.some_or, Option.getD_some, text]
    apply segments_pattern _ isSegment_subtreeWildcard
    exact fun segment hsegment => hpath segment (houtermost.subset hsegment)
  | none =>
    simp only [Function.comp_def, houter, Option.map_none, Option.none_or, List.find?_singleton,
      isSome_labelIn?_iff hentry, decide_eq_true_iff]
    split
    . exact segments_pattern hpath isSegment_packageWildcard
    . rfl

end

theorem labelAt_compact_ofList {key : String} {label : α}
    : labelAt (segments key).2 (segments key).1 (ofList map.entries).compact = some label
        ↔
      ∃ entry ∈ map.entries, (widest map entry.1).text = key ∧ entry.2 = label := by
  rw [labelAt_compact (wellFormed_ofList _)]
  simp only [labelAt_ofList_entries]
  constructor
  . rintro ⟨_, _, ⟨entry, hentry, hsegments, hlabel⟩, hplace⟩
    refine ⟨entry, hentry, segments_injective ?_, hlabel⟩
    rw [segments_text_widest hentry, hsegments]
    exact hplace
  . rintro ⟨entry, hentry, rfl, hlabel⟩
    refine ⟨(segments entry.1).1, (segments entry.1).2, ⟨entry, hentry, rfl, hlabel⟩, ?_⟩
    rw [← segments_text_widest hentry]

theorem get?_compactEntries (hnames : ∀ name ∈ map.keys, Text.startsWith name "." = false)
    (key : String)
    : (compactEntries map.entries).get? key
        = labelAt (segments key).2 (segments key).1 (ofList map.entries).compact := by
  have hentries : ∀ entry ∈ map.entries, Text.startsWith entry.1 "." = false := by
    intro entry hentry
    exact hnames _ (List.mem_map_of_mem hentry)
  exact get?_flatten (wellFormed_ofList _).compact (rooted_ofList hentries).compact key

/--
The compaction of a map of classes has the widest pattern for each class, with the label of the
class, and no other patterns.
-/
theorem mem_compactEntries_iff_widest (map : NameMap α)
    (hnames : ∀ name ∈ map.keys, Text.startsWith name "." = false)
    : ∀ (key : String) (label : α),
        (key, label) ∈ (compactEntries map.entries).entries
          ↔
        ∃ name, map.get? name = some label ∧ (widest map name).text = key := by
  intro key label
  rw [NameMap.mem_entries, get?_compactEntries hnames, labelAt_compact_ofList]
  constructor
  . rintro ⟨entry, hentry, htext, rfl⟩
    exact ⟨entry.1, NameMap.mem_entries.1 hentry, htext⟩
  . rintro ⟨name, hlabel, htext⟩
    exact ⟨(name, label), NameMap.mem_entries.2 hlabel, htext, rfl⟩

theorem mem_compactEntries_iff_widest_nested :
    let map : UsageMap := .ofList [("a.*", .ofList ["x"]), ("a.B", .ofList ["y"]),
      ("a.c", .ofList ["y"]), ("a.c.**", .ofList ["z"]), ("a.c.d.E", .ofList ["z"]),
      ("a.f.G", .ofList ["x"]), ("a.f.H", .ofList ["x"]), ("a.f.i.J", .ofList [])]
    (∀ name ∈ map.keys, Text.startsWith name "." = false)
      ∧ ("a.*", .ofList ["x"]) ∈ (compactEntries map.entries).entries
      ∧ ("a.c.**", .ofList ["z"]) ∈ (compactEntries map.entries).entries
      ∧ ("a.f.*", .ofList ["x"]) ∈ (compactEntries map.entries).entries := by
  intro map
  have hnames : ∀ name ∈ map.keys, Text.startsWith name "." = false := by decide
  refine ⟨hnames, ?_, ?_, ?_⟩
  . apply (mem_compactEntries_iff_widest map hnames _ _).2
    exact ⟨"a.*", by decide⟩
  . apply (mem_compactEntries_iff_widest map hnames _ _).2
    exact ⟨"a.c.d.E", by decide⟩
  . apply (mem_compactEntries_iff_widest map hnames _ _).2
    exact ⟨"a.f.H", by decide⟩

theorem widest_cases (map : NameMap α) (name : String)
    : (∃ path, path <+: (segments name).1 ∧ widest map name = .subtree path
          ∧ (widest map name).IsUniform map)
        ∨ (widest map name = .package (segments name).1 ∧ (widest map name).IsUniform map)
        ∨ widest map name = .single name := by
  simp only [widest]
  cases hfind : ((segments name).1.inits.map subtree ++ [package (segments name).1]).find?
      (IsUniform map ·) with
  | none => exact .inr (.inr rfl)
  | some p =>
    have huniform : p.IsUniform map := by simpa using List.find?_some hfind
    have hmem := List.mem_of_find?_eq_some hfind
    rw [List.mem_append, List.mem_map, List.mem_singleton] at hmem
    rcases hmem with ⟨path, hpath, rfl⟩ | rfl
    . exact .inl ⟨path, (List.mem_inits _ _).1 hpath, rfl, huniform⟩
    . exact .inr (.inl ⟨rfl, huniform⟩)

theorem covers_widest (map : NameMap α) (name : String) : (widest map name).Covers name := by
  rcases widest_cases map name with ⟨path, hpath, heq, _⟩ | ⟨heq, _⟩ | heq
  . rw [heq]
    exact hpath
  . rw [heq]
    rfl
  . rw [heq]
    rfl

theorem uniform_widest (map : NameMap α) (name : String) : (widest map name).IsUniform map := by
  rcases widest_cases map name with ⟨_, _, _, h⟩ | ⟨_, h⟩ | heq
  . exact h
  . exact h
  . rw [heq]
    exact uniform_single map name

theorem widest_eq_of_covers {p : ClassPattern} (huniform : p.IsUniform map) {name other : String}
    (hname : p.Covers name) (hother : p.Covers other)
    : widest map name = widest map other := by
  cases p with
  | single => rw [hname, hother]
  | package path =>
    -- The packages around the classes are the same, and some pattern for these is uniform.
    cases hname
    have hfind : (((segments name).1.inits.map subtree ++ [package (segments name).1]).find?
        (IsUniform map ·)).isSome := by
      rw [List.find?_isSome]
      exact ⟨_, List.mem_append_right _ List.mem_cons_self, by simpa using huniform⟩
    rcases Option.isSome_iff_exists.1 hfind with ⟨p, hp⟩
    rw [widest, widest, hother, hp, Option.getD_some, Option.getD_some]
  | subtree path =>
    have hfind : ((path.inits.map subtree).find? (IsUniform map ·)).isSome := by
      rw [List.find?_isSome]
      exact ⟨_, List.mem_map_of_mem ((List.mem_inits _ _).2 (List.prefix_refl path)),
        by simpa using huniform⟩
    rcases Option.isSome_iff_exists.1 hfind with ⟨p, hp⟩
    -- The packages around this one are the outermost ones around each class that it covers.
    have hwidest : ∀ name, (subtree path).Covers name → widest map name = p := by
      rintro name ⟨rest, hrest⟩
      rw [widest, ← hrest, List.inits_append, List.map_append, List.append_assoc, List.find?_append,
        hp, Option.some_or, Option.getD_some]
    rw [hwidest name hname, hwidest other hother]

end

/--
Whether the classes that a pattern stands for have one label, and all classes of a map have a
pattern.
-/
structure IsCovering (map : NameMap α) (patterns : List ClassPattern) : Prop where
  uniform : ∀ p ∈ patterns, p.IsUniform map
  covers : ∀ name ∈ map.keys, ∃ p ∈ patterns, p.Covers name

variable [DecidableEq α] {map : NameMap α}

theorem mem_keys_compactEntries (hnames : ∀ name ∈ map.keys, Text.startsWith name "." = false)
    {key : String}
    : key ∈ (compactEntries map.entries).keys
        ↔ ∃ name ∈ map.keys, (widest map name).text = key := by
  have hkeys : key ∈ (compactEntries map.entries).keys
      ↔ ∃ label, (compactEntries map.entries).get? key = some label := by
    simp only [← NameMap.mem_entries, NameMap.keys, List.mem_map, Prod.exists, exists_and_right,
      exists_eq_right]
  simp only [hkeys, get?_compactEntries hnames, labelAt_compact_ofList]
  constructor
  . rintro ⟨_, entry, hentry, htext, _⟩
    exact ⟨entry.1, List.mem_map_of_mem hentry, htext⟩
  . rintro ⟨name, hname, htext⟩
    rcases List.mem_map.1 hname with ⟨entry, hentry, rfl⟩
    exact ⟨entry.2, entry, hentry, htext, rfl⟩

theorem widest_eq_single_or (map : NameMap α) (name : String)
    : widest map name = .single name
        ∨ ∃ path wildcard, segments (widest map name).text = (path, wildcard)
          ∧ widest map name
            = if wildcard = subtreeWildcard then .subtree path else .package path := by
  have hsegments := isSegment_path name
  rcases widest_cases map name with ⟨path, hpath, heq, _⟩ | ⟨heq, _⟩ | heq
  . refine .inr ⟨path, subtreeWildcard, ?_, ?_⟩
    . rw [heq]
      apply segments_pattern _ isSegment_subtreeWildcard
      exact fun segment hsegment => hsegments segment (hpath.subset hsegment)
    . rw [heq, if_pos rfl]
  . refine .inr ⟨(segments name).1, packageWildcard, ?_, ?_⟩
    . rw [heq]
      exact segments_pattern hsegments isSegment_packageWildcard
    . rw [heq, if_neg (by decide)]
  . exact .inl heq

theorem covers_text (map : NameMap α) (name : String)
    : (widest map name).Covers (widest map name).text := by
  rcases widest_eq_single_or map name with heq | ⟨path, wildcard, hsegments, heq⟩
  . rw [heq]
    rfl
  . generalize (widest map name).text = text at hsegments
    rw [heq]
    split
    . rw [Covers, hsegments]
    . rw [Covers, hsegments]

theorem widest_eq_of_text_eq {name other : String}
    (h : (widest map name).text = (widest map other).text)
    : widest map name = widest map other := by
  rcases widest_eq_single_or map name with heq | ⟨path, wildcard, hsegments, heq⟩
  . apply widest_eq_of_covers (uniform_widest map other) _ (covers_widest map other)
    have hcovers := covers_text map other
    rwa [← h, heq] at hcovers
  . rcases widest_eq_single_or map other with heq' | ⟨path', wildcard', hsegments', heq'⟩
    . apply widest_eq_of_covers (uniform_widest map name) (covers_widest map name)
      have hcovers := covers_text map name
      rwa [h, heq'] at hcovers
    . rw [h, hsegments'] at hsegments
      cases hsegments
      rw [heq, heq']

/--
No patterns that give each class of a map its label are fewer than those that the map is compacted
to, which do so.
-/
theorem compactEntries_fewest (map : NameMap α)
    (hnames : ∀ name ∈ map.keys, Text.startsWith name "." = false)
    : (∃ patterns, IsCovering map patterns
        ∧ (patterns.map text).Perm (compactEntries map.entries).keys)
      ∧ ∀ patterns, IsCovering map patterns
        → (compactEntries map.entries).size ≤ patterns.length := by
  have hnodup : (compactEntries map.entries).keys.Nodup :=
    NameMap.nodup_of_increasing (compactEntries map.entries).increasing
  constructor
  . refine ⟨(map.keys.map (widest map)).dedup, ⟨?_, ?_⟩, ?_⟩
    . intro p hp
      rcases List.mem_map.1 (List.mem_dedup.1 hp) with ⟨name, _, rfl⟩
      exact uniform_widest map name
    . intro name hname
      exact ⟨_, List.mem_dedup.2 (List.mem_map_of_mem hname), covers_widest map name⟩
    . apply (List.perm_ext_iff_of_nodup _ hnodup).2
      . intro key
        rw [mem_keys_compactEntries hnames]
        simp
      . apply List.Nodup.map_on _ (List.nodup_dedup _)
        intro p hp q hq heq
        rcases List.mem_map.1 (List.mem_dedup.1 hp) with ⟨name, _, rfl⟩
        rcases List.mem_map.1 (List.mem_dedup.1 hq) with ⟨other, _, rfl⟩
        exact widest_eq_of_text_eq heq
  . -- Each key is the widest pattern for the first class that some pattern covers.
    intro patterns hcovering
    have hsubset : (compactEntries map.entries).keys.map some ⊆ patterns.map fun p =>
        (map.keys.find? (p.Covers ·)).map fun name => (widest map name).text := by
      intro _ hmem
      rcases List.mem_map.1 hmem with ⟨key, hkey, rfl⟩
      rcases (mem_keys_compactEntries hnames).1 hkey with ⟨name, hname, rfl⟩
      rcases hcovering.covers name hname with ⟨p, hp, hcovers⟩
      refine List.mem_map.2 ⟨p, hp, ?_⟩
      cases hfirst : map.keys.find? (p.Covers ·) with
      | none => simpa [hcovers] using List.find?_eq_none.1 hfirst name hname
      | some first =>
        have hfirst : p.Covers first := by simpa using List.find?_some hfirst
        rw [Option.map_some, widest_eq_of_covers (hcovering.uniform p hp) hfirst hcovers]
    have hsome := hnodup.map fun _ _ => Option.some.inj
    have hlength := (List.subperm_of_subset hsome hsubset).length_le
    simpa [NameMap.size, NameMap.keys] using hlength

theorem compactEntries_fewest_overlapping :
    let map : UsageMap := .ofList [("a.*", .ofList ["x"]), ("a.B", .ofList ["y"]),
      ("a.c.D", .ofList ["x"]), ("a.c.E", .ofList ["x"]), ("a.c.f.G", .ofList ["y"])]
    let patterns : List ClassPattern := [.single "a.*", .single "a.B", .package ["a", "c"],
      .single "a.c.E", .subtree ["a", "c", "f"]]
    (∀ name ∈ map.keys, Text.startsWith name "." = false)
      ∧ IsCovering map patterns
      ∧ (compactEntries map.entries).size ≤ patterns.length := by
  intro map patterns
  have hnames : ∀ name ∈ map.keys, Text.startsWith name "." = false := by decide
  have hcovering : IsCovering map patterns := ⟨by decide, by decide +kernel⟩
  exact ⟨hnames, hcovering, (compactEntries_fewest map hnames).2 patterns hcovering⟩

end ClassPattern
end ArtifactAudit
