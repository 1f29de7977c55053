import Mathlib.Data.List.Infix
import ArtifactAudit.Proofs.PackageTrie.Labels

/-!
This module contains what compaction makes of a package trie, place by place: a class goes to the
pattern for the outermost package around it that has one label, else to the one for its own package
if the classes directly in it have one label, else it stays where it is.
-/

namespace ArtifactAudit
namespace PackageTrie

variable {α : Type}

def packageAt : List String → PackageTrie α → Option (PackageTrie α)
  | [], trie => some trie
  | segment :: path, .node _ packages => (packages.lookup segment).bind (packageAt path)

theorem labelAt_append (name : String) (path rest : List String)
    : ∀ trie : PackageTrie α,
        labelAt name (path ++ rest) trie = (packageAt path trie).bind (labelAt name rest) := by
  induction path with
  | nil => exact fun _ => rfl
  | cons segment path ih =>
    rintro ⟨classes, packages⟩
    rw [List.cons_append, labelAt, packageAt, Option.bind_assoc]
    congr
    funext package
    apply ih

theorem WellFormed.packageAt {path : List String}
    : ∀ {trie package : PackageTrie α},
        WellFormed trie → PackageTrie.packageAt path trie = some package → WellFormed package := by
  induction path with
  | nil =>
    intro trie package hwf h
    cases h
    exact hwf
  | cons segment path ih =>
    intro trie package hwf h
    cases hwf with
    | node _ hpackages _ _ hinner =>
      rcases Option.bind_eq_some_iff.1 h with ⟨inner, hlookup, h⟩
      exact ih (hinner _ ((NameMap.mem_iff_lookup hpackages).2 hlookup)) h

theorem mem_labels_iff_labelAt {trie : PackageTrie α} {label : α} (hwf : WellFormed trie)
    : label ∈ labels trie ↔ ∃ path name, labelAt name path trie = some label := by
  constructor
  . induction hwf with
    | node hclasses hpackages _ _ _ ih =>
      intro h
      rcases mem_labels.1 h with h | ⟨entry, hentry, h⟩
      . rcases List.mem_map.1 h with ⟨⟨name, _⟩, hentry, rfl⟩
        exact ⟨[], name, (NameMap.mem_iff_lookup hclasses).1 hentry⟩
      . rcases ih entry hentry h with ⟨path, name, hlabel⟩
        refine ⟨entry.1 :: path, name, ?_⟩
        rw [labelAt, (NameMap.mem_iff_lookup hpackages).1 hentry]
        exact hlabel
  . rintro ⟨path, name, h⟩
    exact mem_labels_of_labelAt h

theorem lookup_singleton_eq_some {name other : String} {label one : α}
    : [(other, one)].lookup name = some label ↔ label = one ∧ name = other := by
  rw [List.lookup_cons, List.lookup_nil]
  by_cases h : name = other
  . simp [h, eq_comm]
  . simp [h, beq_false_of_ne h]

variable [DecidableEq α]

theorem single?_eq_some_iff {ls : List α} {label : α}
    : single? ls = some label ↔ label ∈ ls ∧ ∀ other ∈ ls, other = label := by
  constructor
  . exact fun h => ⟨mem_of_single? h, eq_of_single? h⟩
  . rintro ⟨hmem, hall⟩
    cases ls with
    | nil => cases hmem
    | cons head rest =>
      have hrest : ∀ other ∈ rest, other = head := by
        intro other hother
        rw [hall other (List.mem_cons_of_mem head hother), hall head List.mem_cons_self]
      rw [single?, if_pos (by simpa using hrest), hall head List.mem_cons_self]

theorem single?_congr {ls others : List α} (h : ∀ label, label ∈ ls ↔ label ∈ others)
    : single? ls = single? others := by
  ext label
  simp only [single?_eq_some_iff, h]

theorem isSome_single?_iff {ls : List α} {label : α} (h : label ∈ ls)
    : (single? ls).isSome ↔ ∀ first ∈ ls, ∀ second ∈ ls, first = second := by
  rw [Option.isSome_iff_exists]
  constructor
  . rintro ⟨one, hone⟩ first hfirst second hsecond
    rw [eq_of_single? hone first hfirst, eq_of_single? hone second hsecond]
  . intro hall
    exact ⟨label, single?_eq_some_iff.2 ⟨h, fun other hother => hall other hother label h⟩⟩

theorem mem_labels_compact {trie : PackageTrie α} {label : α} (hwf : WellFormed trie)
    : label ∈ labels trie.compact ↔ label ∈ labels trie := by
  constructor
  . exact fun h => labels_compact_subset trie h
  . intro h
    rcases (mem_labels_iff_labelAt hwf).1 h with ⟨path, name, hlabel⟩
    exact mem_labels_of_attributedAt (attributedAt_compact hlabel)

def labelBelow? (trie : PackageTrie α) (path : List String) : Option α :=
  (packageAt path trie).bind fun package => single? package.labels

def labelIn? (trie : PackageTrie α) (path : List String) : Option α :=
  (packageAt path trie).bind fun package => single? (package.classes.map Prod.snd)

/--
Where compaction puts the class `name` of the package that `path` leads to.
-/
def place (trie : PackageTrie α) (path : List String) (name : String) : List String × String :=
  match path.inits.find? fun package => (trie.labelBelow? package).isSome with
  | some package => (package, subtreeWildcard)
  | none => (path, if (trie.labelIn? path).isSome then packageWildcard else name)

def compactClasses (classes : List (String × α)) : List (String × α) :=
  match single? (classes.map Prod.snd) with
  | some label => [(packageWildcard, label)]
  | none => classes

variable {classes : List (String × α)} {packages : List (String × PackageTrie α)}

theorem collapse_of_mixed (h : single? (labels (.node classes packages)) = none)
    : collapse classes packages = .node (compactClasses classes) packages := by
  rw [collapse, h, compactClasses]
  cases single? (classes.map Prod.snd) <;> rfl

theorem place_of_uniform {trie : PackageTrie α} {label : α} (h : single? trie.labels = some label)
    (path : List String) (name : String)
    : trie.place path name = ([], subtreeWildcard) := by
  have hroot : (trie.labelBelow? []).isSome = true := by
    rw [labelBelow?, packageAt, Option.bind_some, h, Option.isSome_some]
  cases path <;> simp [place, hroot]

theorem place_nil {trie : PackageTrie α} (h : single? trie.labels = none) (name : String)
    : trie.place [] name
        =
      ([], if (single? (trie.classes.map Prod.snd)).isSome then packageWildcard else name) := by
  have hroot : (trie.labelBelow? []).isSome = false := by
    rw [labelBelow?, packageAt, Option.bind_some, h, Option.isSome_none]
  rw [place, List.inits, List.find?_singleton, hroot, labelIn?, packageAt, Option.bind_some]
  rfl

theorem place_cons {segment : String} {package : PackageTrie α}
    (h : single? (labels (.node classes packages)) = none)
    (hlookup : packages.lookup segment = some package) (path : List String) (name : String)
    : place (.node classes packages) (segment :: path) name
        = (segment :: (package.place path name).1, (package.place path name).2) := by
  have hbelow : ∀ rest, labelBelow? (.node classes packages) (segment :: rest)
      = package.labelBelow? rest := by
    intro rest
    rw [labelBelow?, packageAt, hlookup, Option.bind_some, labelBelow?]
  have hin : labelIn? (.node classes packages) (segment :: path) = package.labelIn? path := by
    rw [labelIn?, packageAt, hlookup, Option.bind_some, labelIn?]
  have hroot : (labelBelow? (.node classes packages) []).isSome = false := by
    rw [labelBelow?, packageAt, Option.bind_some, h, Option.isSome_none]
  rw [place, List.inits, List.find?_cons, hroot, List.find?_map, hin]
  simp only [Function.comp_def, hbelow, place]
  cases path.inits.find? fun package' => (package.labelBelow? package').isSome <;> rfl

theorem single?_labels_compactAll (hwf : WellFormed (.node classes packages))
    : single? (labels (.node classes (compactAll packages)))
        = single? (labels (.node classes packages)) := by
  apply single?_congr
  intro label
  cases hwf with
  | node _ _ _ _ hinner =>
    rw [mem_labels, mem_labels, compactAll_eq_map]
    apply or_congr_right
    constructor
    . rintro ⟨_, hmem, h⟩
      rcases List.mem_map.1 hmem with ⟨entry, hentry, rfl⟩
      exact ⟨entry, hentry, (mem_labels_compact (hinner entry hentry)).1 h⟩
    . rintro ⟨entry, hentry, h⟩
      exact ⟨_, List.mem_map_of_mem hentry, (mem_labels_compact (hinner entry hentry)).2 h⟩

theorem labelAt_compact_of_uniform {trie : PackageTrie α} {one : α} (hwf : WellFormed trie)
    (h : single? trie.labels = some one) {path : List String} {member : String} {label : α}
    : labelAt member path (.node [(subtreeWildcard, one)] []) = some label
        ↔
      ∃ inner name, labelAt name inner trie = some label
        ∧ trie.place inner name = (path, member) := by
  have hlabel : (∃ inner name, labelAt name inner trie = some label) ↔ label = one := by
    rw [← mem_labels_iff_labelAt hwf]
    rcases single?_eq_some_iff.1 h with ⟨hmem, heq⟩
    exact ⟨heq label, fun heq => heq ▸ hmem⟩
  have hroot : labelAt member path (.node [(subtreeWildcard, one)] []) = some label
      ↔ label = one ∧ ([], subtreeWildcard) = (path, member) := by
    cases path with
    | nil => rw [labelAt, lookup_singleton_eq_some]; simp [eq_comm]
    | cons segment path => simp [labelAt]
  rw [hroot, ← hlabel]
  simp only [place_of_uniform h, ← exists_and_right]

theorem lookup_compactClasses (hwf : WellFormed (.node classes packages))
    (h : single? (labels (.node classes packages)) = none) {member : String} {label : α}
    : (compactClasses classes).lookup member = some label
        ↔
      ∃ name, classes.lookup name = some label
        ∧ place (.node classes packages) [] name = ([], member) := by
  have hplace : ∀ name, place (.node classes packages) [] name = ([], member)
      ↔ (if (single? (classes.map Prod.snd)).isSome then packageWildcard else name) = member := by
    intro name
    rw [place_nil h]
    exact ⟨fun heq => (Prod.mk.inj heq).2, fun heq => Prod.ext rfl heq⟩
  simp only [hplace, compactClasses]
  cases hone : single? (classes.map Prod.snd) with
  | none => simp
  | some one =>
    rcases single?_eq_some_iff.1 hone with ⟨hmem, heq⟩
    have hlabel : (∃ name, classes.lookup name = some label) ↔ label = one := by
      cases hwf with
      | node hclasses =>
        simp only [← NameMap.mem_iff_lookup hclasses]
        constructor
        . rintro ⟨name, hmem⟩
          exact heq label (List.mem_map.2 ⟨_, hmem, rfl⟩)
        . rintro rfl
          rcases List.mem_map.1 hmem with ⟨entry, hentry, rfl⟩
          exact ⟨entry.1, hentry⟩
    rw [lookup_singleton_eq_some, ← hlabel]
    simp [eq_comm]

theorem labelAt_compact {trie : PackageTrie α} (hwf : WellFormed trie)
    : ∀ {path : List String} {member : String} {label : α},
        labelAt member path trie.compact = some label
          ↔
        ∃ inner name, labelAt name inner trie = some label
          ∧ trie.place inner name = (path, member) := by
  induction hwf with
  | @node classes packages hclasses hpackages hnames hsegments hinner ih =>
    intro path member label
    have hwf : WellFormed (.node classes packages) :=
      .node hclasses hpackages hnames hsegments hinner
    have hlabels := single?_labels_compactAll hwf
    rw [compact]
    cases hall : single? (labels (.node classes packages)) with
    | some one =>
      rw [collapse, hlabels, hall]
      exact labelAt_compact_of_uniform hwf hall
    | none =>
      rw [collapse_of_mixed (hlabels.trans hall)]
      cases path with
      | nil =>
        rw [labelAt, lookup_compactClasses hwf hall]
        constructor
        . rintro ⟨name, hlabel, hplace⟩
          exact ⟨[], name, hlabel, hplace⟩
        . rintro ⟨inner, name, hlabel, hplace⟩
          cases inner with
          | nil => exact ⟨name, hlabel, hplace⟩
          | cons segment inner =>
            rcases Option.bind_eq_some_iff.1 hlabel with ⟨package, hlookup, _⟩
            rw [place_cons hall hlookup] at hplace
            cases hplace
      | cons segment path =>
        rw [labelAt, lookup_compactAll, Option.bind_map]
        constructor
        . intro h
          rcases Option.bind_eq_some_iff.1 h with ⟨package, hlookup, h⟩
          have hmem := (NameMap.mem_iff_lookup hpackages).2 hlookup
          rcases (ih _ hmem).1 h with ⟨inner, name, hlabel, hplace⟩
          refine ⟨segment :: inner, name, ?_, ?_⟩
          . rw [labelAt, hlookup]
            exact hlabel
          . rw [place_cons hall hlookup, hplace]
        . rintro ⟨inner, name, hlabel, hplace⟩
          cases inner with
          | nil =>
            rw [place_nil hall] at hplace
            cases hplace
          | cons other inner =>
            rcases Option.bind_eq_some_iff.1 hlabel with ⟨package, hlookup, hlabel⟩
            have hmem := (NameMap.mem_iff_lookup hpackages).2 hlookup
            rw [place_cons hall hlookup, Prod.mk.injEq, List.cons.injEq] at hplace
            rcases hplace with ⟨⟨rfl, hpath⟩, hmember⟩
            rw [hlookup, Option.bind_some]
            exact (ih _ hmem).2 ⟨inner, name, hlabel, Prod.ext hpath hmember⟩

end PackageTrie
end ArtifactAudit
