import ArtifactAudit.Proofs.Pom.Concrete
import ArtifactAudit.Proofs.Pom.Memoised
import ArtifactAudit.Proofs.Text.Parts

/-!
This module contains the proof that the orders in which tables list their entries cannot be told from
what is loaded, unless a table is imported with entries that contradict each other when they are read
again.
-/

namespace ArtifactAudit.Pom

variable {α β : Type}

/--
Whether two entries do not contradict each other: they say nothing different about the dependencies of
a name, and if both are refused then for the same reason.
-/
structure RawDependency.Agrees (properties : Properties) (first second : RawDependency) : Prop where
  tells : ∀ name managed more, first.managed? properties name = some managed →
    second.managed? properties name = some more → managed = more
  refuses : ∀ c error other, nameOf c properties first = .error error →
    nameOf c properties second = .error other → error = other

/--
Whether the entries of a table do not contradict each other when they are read again, as they are where
the table is imported. All references have been replaced in them, so no properties count there.
-/
def Management.Unambiguous (table : Management) : Prop :=
  ∀ first ∈ table.entries, ∀ second ∈ table.entries, (Loader.rawOf first).Agrees ∅ (Loader.rawOf second)

section

variable {c : Coordinate} {properties : Properties} {first second entry : RawDependency}

theorem RawDependency.Agrees.refl (properties : Properties) (entry : RawDependency)
    : entry.Agrees properties entry where
  tells _ _ _ h h' := Option.some.inj (h.symm.trans h')
  refuses _ _ _ h h' := Except.error.inj (h.symm.trans h')

theorem RawDependency.managed?_eq_some {name : String × String} {version : String}
    (hname : nameOf c properties entry = .ok name)
    (hversion : resolve? properties entry.version = some version)
    : entry.managed? properties name = some ⟨version, entry.scope, entry.classifier⟩ := by
  rw [managed?, if_pos (nameOf_eq_ok.1 hname), hversion, Option.map_some]

theorem RawDependency.isFor_of_managed? {name : String × String} {managed : Managed}
    (h : entry.managed? properties name = some managed)
    : entry.IsFor properties name := by
  by_contra hnot
  rw [managed?, if_neg hnot] at h
  cases h

theorem RawDependency.IsFor.unique {name other : String × String} (h : entry.IsFor properties name)
    (hother : entry.IsFor properties other)
    : name = other :=
  Prod.ext (Option.some.inj (h.1.symm.trans hother.1)) (Option.some.inj (h.2.symm.trans hother.2))

/--
What does not contradict each other can be put into a table in either order.
-/
theorem manage_swap (h : first.Agrees properties second) (table : Management)
    : (manage c properties table first >>= fun table => manage c properties table second)
        = manage c properties table second >>= fun table => manage c properties table first := by
  have htells := h.tells
  have hrefuses := h.refuses c
  unfold manage
  cases hfirst : nameOf c properties first with
  | error error =>
    cases hsecond : nameOf c properties second with
    | error other =>
      rw [hrefuses error other hfirst hsecond]
      rfl
    | ok name => cases resolve? properties second.version <;> rfl
  | ok name =>
    cases hsecond : nameOf c properties second with
    | error error => cases resolve? properties first.version <;> rfl
    | ok other =>
      cases hversion : resolve? properties first.version with
      | none => cases resolve? properties second.version <;> rfl
      | some version =>
        cases hversion' : resolve? properties second.version with
        | none => rfl
        | some more =>
          refine congrArg Except.ok ?_
          by_cases hname : name = other
          . subst hname
            rw [htells name _ _ (RawDependency.managed?_eq_some hfirst hversion)
              (RawDependency.managed?_eq_some hsecond hversion')]
          . exact table.insert_comm hname _ _

theorem foldlM_manage_perm {entries more : List RawDependency} (hperm : entries.Perm more)
    (h : ∀ first ∈ entries, ∀ second ∈ entries, first.Agrees properties second)
    (table : Management)
    : entries.foldlM (manage c properties) table = more.foldlM (manage c properties) table := by
  rw [List.foldlM_eq_foldl, List.foldlM_eq_foldl]
  apply hperm.foldl_eq'
  intro first hfirst second hsecond result
  cases result with
  | error error => rfl
  | ok between => exact manage_swap (h first hfirst second hsecond) between

structure Rearranged (properties : Properties) (entries more : List RawDependency) : Prop where
  perm : entries.Perm more
  agrees : ∀ first ∈ entries, ∀ second ∈ entries, first.Agrees properties second

theorem foldlM_manage_flatten {groups more : List (List RawDependency)}
    (h : List.Forall₂ (Rearranged properties) groups more)
    : ∀ table : Management, groups.flatten.foldlM (manage c properties) table
        = more.flatten.foldlM (manage c properties) table := by
  induction h with
  | nil => exact fun _ => rfl
  | cons hgroup _ ih =>
    intro table
    rw [List.flatten_cons, List.flatten_cons, List.foldlM_append, List.foldlM_append,
      foldlM_manage_perm hgroup.perm hgroup.agrees, funext ih]

end

section

open Loader (rawOf)

variable {properties : Properties}

theorem isConcrete_trim {text : String} (h : IsConcrete text)
    : hasReference (Text.trimChars text.toList) = false := by
  have htrim : Text.trimChars text.toList <:+: text.toList := by
    rw [Text.trimChars_eq]
    exact (List.rdropWhile_prefix _ _).isInfix.trans (List.dropWhile_suffix _).isInfix
  rw [← Bool.not_eq_true, hasReference, Text.occursIn_iff]
  exact fun hoccurs => h (hoccurs.trans htrim)

theorem resolve_of_isConcrete {text : String} (h : IsConcrete text)
    : resolve properties text = resolve ∅ text := by
  rw [resolve, resolve, resolveWithin_eq_self (isConcrete_trim h),
    resolveWithin_eq_self (isConcrete_trim h)]

variable {name other : String × String} {managed more : Managed}

theorem nameOf_rawOf (h : managed.IsConcrete name) (c : Coordinate)
    : nameOf c properties (rawOf (name, managed)) = nameOf c ∅ (rawOf (name, managed)) := by
  have hgroup : resolve? properties (rawOf (name, managed)).group
      = resolve? ∅ (rawOf (name, managed)).group :=
    resolve_of_isConcrete h.group
  have hartifact : resolve? properties (rawOf (name, managed)).artifact
      = resolve? ∅ (rawOf (name, managed)).artifact :=
    resolve_of_isConcrete h.artifact
  rw [nameOf, nameOf]
  dsimp only
  rw [hgroup, hartifact]

theorem managed?_rawOf (h : managed.IsConcrete name) (other : String × String)
    : (rawOf (name, managed)).managed? properties other
        = (rawOf (name, managed)).managed? ∅ other := by
  have hversion : resolve? properties (rawOf (name, managed)).version
      = resolve? ∅ (rawOf (name, managed)).version :=
    resolve_of_isConcrete h.version
  have hfor : (rawOf (name, managed)).IsFor properties other
      ↔ (rawOf (name, managed)).IsFor ∅ other := by
    rw [← nameOf_eq_ok (c := default), ← nameOf_eq_ok (c := default), nameOf_rawOf h]
  rw [RawDependency.managed?, RawDependency.managed?, hversion]
  simp only [hfor]

theorem agrees_rawOf (h : managed.IsConcrete name) (h' : more.IsConcrete other)
    (hagrees : (rawOf (name, managed)).Agrees ∅ (rawOf (other, more)))
    : (rawOf (name, managed)).Agrees properties (rawOf (other, more)) where
  tells x _ _ htells htells' := hagrees.tells x _ _ (managed?_rawOf h x ▸ htells)
    (managed?_rawOf h' x ▸ htells')
  refuses c _ _ hrefuses hrefuses' := hagrees.refuses c _ _ (nameOf_rawOf h c ▸ hrefuses)
    (nameOf_rawOf h' c ▸ hrefuses')

structure IsPlain (name : String) : Prop where
  trimmed : Text.trim name = name
  nonempty : name ≠ ""
  concrete : IsConcrete name

instance (name : String) : Decidable (IsPlain name) :=
  decidable_of_iff (Text.trim name = name ∧ name ≠ "" ∧ IsConcrete name)
    ⟨fun ⟨htrim, hne, hconcrete⟩ => ⟨htrim, hne, hconcrete⟩,
      fun ⟨htrim, hne, hconcrete⟩ => ⟨htrim, hne, hconcrete⟩⟩

theorem IsPlain.resolve_eq {name : String} (h : IsPlain name)
    : resolve properties name = some name :=
  resolve_eq_self h.trimmed h.nonempty h.concrete

theorem Management.unambiguous_of_plain {table : Management}
    (h : ∀ entry ∈ table.entries, IsPlain entry.1.1 ∧ IsPlain entry.1.2)
    : table.Unambiguous := by
  have hfor : ∀ entry ∈ table.entries, (rawOf entry).IsFor ∅ entry.1 :=
    fun entry hentry => ⟨(h entry hentry).1.resolve_eq, (h entry hentry).2.resolve_eq⟩
  intro first hfirst second hsecond
  constructor
  case tells =>
    intro name managed more hmanaged hmore
    have hname : first.1 = name := (hfor first hfirst).unique (RawDependency.isFor_of_managed? hmanaged)
    have hname' : second.1 = name := (hfor second hsecond).unique (RawDependency.isFor_of_managed? hmore)
    have heq : first = second := by
      refine Prod.ext (hname.trans hname'.symm) (Option.some.inj ?_)
      rw [← Management.mem_entries.1 hfirst, ← Management.mem_entries.1 hsecond, hname, hname']
    rw [heq, hmore] at hmanaged
    exact (Option.some.inj hmanaged).symm
  case refuses =>
    intro c error other hrefuses
    cases (nameOf_eq_ok.2 (hfor first hfirst)).symm.trans hrefuses

end

namespace Inquiry

/--
Whether two inquiries ask for the same files and, if the answers are as they should be, come to related
results or fail in the same way.
-/
inductive Matches (answers : Path → Effective → Prop) (related : α → β → Prop)
    : Inquiry α → Inquiry β → Prop where
  | ok {a : α} {b : β} (related_results : related a b)
    : Matches answers related (.done (.ok a)) (.done (.ok b))
  | error (cause : AuditError) : Matches answers related (.done (.error cause)) (.done (.error cause))
  | ask {path : Path} {next : Effective → Inquiry α} {next' : Effective → Inquiry β}
    (rest : ∀ found, answers path found → Matches answers related (next found) (next' found))
    : Matches answers related (.ask path next) (.ask path next')

variable {answers : Path → Effective → Prop} {related : α → β → Prop}
  {first : Inquiry α} {second : Inquiry β}

theorem Matches.mono {other : α → β → Prop} (h : Matches answers related first second)
    (hother : ∀ a b, related a b → other a b)
    : Matches answers other first second := by
  induction h with
  | ok hrelated => exact .ok (hother _ _ hrelated)
  | error cause => exact .error cause
  | ask _ ih => exact .ask ih

theorem Matches.done (result : Except AuditError α)
    : Matches answers Eq (.done result) (.done result) := by
  cases result with
  | ok a => exact .ok rfl
  | error cause => exact .error cause

theorem Matches.self
    : ∀ inquiry : Inquiry α,
        Matches answers (fun a b => a = b ∧ inquiry.Ends answers a) inquiry inquiry
  | .done (.ok _) => .ok ⟨rfl, .done⟩
  | .done (.error cause) => .error cause
  | .ask _ next => .ask fun found hfound =>
    (self (next found)).mono fun _ _ ⟨heq, hends⟩ => ⟨heq, .ask hfound hends⟩

theorem Matches.bind {α' β' : Type} {next : α → Inquiry α'} {next' : β → Inquiry β'}
    {other : α' → β' → Prop} (h : Matches answers related first second)
    (hnext : ∀ a b, related a b → Matches answers other (next a) (next' b))
    : Matches answers other (first.bind next) (second.bind next') := by
  induction h with
  | ok hrelated => exact hnext _ _ hrelated
  | error cause => exact .error cause
  | ask _ ih => exact .ask ih

theorem Matches.forAll {γ : Type} {next : γ → Inquiry α} {next' : γ → Inquiry β} {cs : List γ}
    (h : ∀ c ∈ cs, Matches answers related (next c) (next' c))
    : Matches answers (List.Forall₂ related) (forAll next cs) (forAll next' cs) := by
  induction cs with
  | nil => exact .ok .nil
  | cons c cs ih =>
    rw [List.forall_mem_cons] at h
    apply h.1.bind
    intro a b hfirst
    apply (ih h.2).bind
    intro as bs hrest
    exact .ok (.cons hfirst hrest)

theorem Matches.run_eq {good : Memo → Prop} {load load' : Path → Loading Effective}
    {first second : Inquiry α} (h : Matches answers Eq first second)
    : (∀ path, first.Asks answers path → ∀ memo, good memo →
        (load' path).run memo = (load path).run memo ∧ good ((load path).run memo).2
          ∧ ∀ found, ((load path).run memo).1 = .ok found → answers path found)
        →
      ∀ memo, good memo → (second.run load').run memo = (first.run load).run memo := by
  induction h with
  | ok heq =>
    cases heq
    exact fun _ _ _ => rfl
  | error cause => exact fun _ _ _ => rfl
  | @ask path next next' _ ih =>
    intro hload memo hmemo
    rcases hload path .now memo hmemo with ⟨heq, hafter, hanswer⟩
    rw [run_ask, run_ask, heq]
    rcases hrun : (load path).run memo with ⟨error | found, after⟩
    . rfl
    . rw [hrun] at hafter hanswer
      have hfound := hanswer found rfl
      exact ih found hfound (fun asked hasked => hload asked (.later hfound hasked)) after hafter

end Inquiry

namespace Loader

open Inquiry

variable {loader : Loader} {met : Path → Prop}

def listedBy (loader : Loader) (listing : Listing) : Loader :=
  { loader with listing }

@[simp]
theorem tree_listedBy (loader : Loader) (listing : Listing)
    : (loader.listedBy listing).tree = loader.tree := rfl

@[simp]
theorem modelAt_listedBy (loader : Loader) (listing : Listing) (path : Path)
    : (loader.listedBy listing).modelAt path = loader.modelAt path := rfl

@[simp]
theorem pathOf_listedBy (loader : Loader) (listing : Listing) (group artifact version : String)
    : (loader.listedBy listing).pathOf group artifact version
        = loader.pathOf group artifact version := rfl

/--
Whether the tables that files import are unambiguous, if the files are asked for by one of some paths.
-/
def Unambiguous (loader : Loader) (met : Path → Prop) : Prop :=
  ∀ path asked found, met path → loader.Imports path asked → loader.Gives asked found →
    found.management.Unambiguous

theorem rearranged_listed {path : Path} {found : Effective} (hgives : loader.Gives path found)
    (h : found.management.Unambiguous) (listing : Listing) (properties : Properties)
    : Rearranged properties ((loader.listed path found).map rawOf)
        (((loader.listedBy listing).listed path found).map rawOf) := by
  have hperm : (loader.listed path found).Perm found.management.entries := loader.listing.perm _ _
  have hperm' : ((loader.listedBy listing).listed path found).Perm found.management.entries :=
    listing.perm _ _
  rcases hgives with ⟨location, _, hobtains⟩
  rcases exists_lineage hobtains with ⟨layers, hlineage⟩
  have hconcrete : ∀ entry ∈ found.management.entries, entry.2.IsConcrete entry.1 :=
    fun entry hentry => hlineage.isConcrete (Management.mem_entries.1 hentry)
  refine ⟨(hperm.trans hperm'.symm).map rawOf, ?_⟩
  intro first hfirst second hsecond
  rcases List.mem_map.1 hfirst with ⟨entry, hentry, rfl⟩
  rcases List.mem_map.1 hsecond with ⟨entry', hentry', rfl⟩
  have hentry := hperm.mem_iff.1 hentry
  have hentry' := hperm.mem_iff.1 hentry'
  exact agrees_rawOf (hconcrete entry hentry) (hconcrete entry' hentry')
    (h entry hentry entry' hentry')

variable {answers : Path → Effective → Prop}

theorem matches_importInquiry (hanswers : ∀ path found, answers path found → loader.Gives path found)
    {c : Coordinate} {properties : Properties} {entry : RawDependency}
    (h : ∀ group artifact version, isImport entry = true →
      nameOf c properties entry = .ok (group, artifact) →
      resolve? properties entry.version = some version → ∀ found,
        loader.Gives (loader.pathOf group artifact version) found → found.management.Unambiguous)
    (listing : Listing)
    : Matches answers (Rearranged properties) (loader.importInquiry c properties entry)
        ((loader.listedBy listing).importInquiry c properties entry) := by
  rw [importInquiry, importInquiry]
  split
  . next himport =>
    apply (Matches.self (.done (nameOf c properties entry))).bind
    rintro ⟨group, artifact⟩ _ ⟨rfl, hends⟩
    have hname := ends_done hends
    dsimp only
    split
    . exact .error _
    . next version hversion =>
      change Matches _ _ (if loader.tree.exists? (loader.pathOf group artifact version) then _ else _)
        (if loader.tree.exists? (loader.pathOf group artifact version) then _ else _)
      split
      . apply Matches.ask
        intro found hfound
        have hgives := hanswers _ _ hfound
        exact .ok (rearranged_listed hgives (h group artifact version himport hname hversion found hgives)
          listing properties)
      . exact .error _
  . refine .ok ⟨.rfl, ?_⟩
    simp only [List.mem_singleton]
    rintro first rfl second rfl
    exact .refl properties _

theorem matches_inquiryBelow (hunambiguous : loader.Unambiguous met)
    (hanswers : ∀ path found, answers path found → loader.Gives path found) {path : Path}
    {model : Model} {parent : Option Effective} (hmet : met path)
    (hmodel : loader.modelAt path = .ok model) (hinherits : loader.Inherits path model parent)
    (listing : Listing)
    : Matches answers Eq (loader.inquiryBelow path model parent)
        ((loader.listedBy listing).inquiryBelow path model parent) := by
  apply (Matches.self (.done (coordinateOf path model parent))).bind
  rintro c _ ⟨rfl, hends⟩
  have hcoordinate := ends_done hends
  have himports : Matches answers (List.Forall₂ (Rearranged (propertiesOf c model parent)))
      (forAll (loader.importInquiry c (propertiesOf c model parent)) model.management)
      (forAll ((loader.listedBy listing).importInquiry c (propertiesOf c model parent))
        model.management) := by
    apply Matches.forAll
    intro entry hentry
    apply matches_importInquiry hanswers _ listing
    intro group artifact version himport hname hversion found
    exact hunambiguous path _ found hmet
      (.intro hmodel hinherits hcoordinate hentry himport hname hversion)
  apply himports.bind
  intro groups more hgroups
  have hsame : Effective.ofModel c (propertiesOf c model parent)
        { model with management := groups.flatten } parent
      = Effective.ofModel c (propertiesOf c model parent)
        { model with management := more.flatten } parent := by
    rw [Effective.ofModel, Effective.ofModel]
    dsimp only
    rw [foldlM_manage_flatten hgroups]
  rw [hsame]
  exact .done _

theorem matches_inquiry (hunambiguous : loader.Unambiguous met)
    (hanswers : ∀ path found, answers path found → loader.Gives path found) {path : Path}
    {model : Model} (hmet : met path) (hmodel : loader.modelAt path = .ok model) (listing : Listing)
    : Matches answers Eq (loader.inquiry path model) ((loader.listedBy listing).inquiry path model) := by
  rw [inquiry, inquiry]
  split
  . next hparent => exact matches_inquiryBelow hunambiguous hanswers hmet hmodel (.none hparent) listing
  . next parent hparent =>
    apply (Matches.self (loader.parentInquiry path parent)).bind
    rintro found _ ⟨rfl, hends⟩
    have hinherits := ends_parentInquiry hparent (hends.mono hanswers)
    exact matches_inquiryBelow hunambiguous hanswers hmet hmodel hinherits listing

theorem run_loadWithin_listedBy (hclosed : loader.Closed met) (hunambiguous : loader.Unambiguous met)
    (listing : Listing) (steps : Nat)
    : ∀ (visiting : List (List String)) (path : Path) (memo : Memo), met path →
        loader.Sound met memo →
          ((loader.listedBy listing).loadWithin steps visiting path).run memo
            = (loader.loadWithin steps visiting path).run memo := by
  have hgives : ∀ path found, Located loader.tree (loader.Obtains met) path found →
      loader.Gives path found :=
    fun _ _ ⟨location, hlocate, hobtains⟩ =>
      ⟨location, hlocate, hobtains.mono fun _ _ => trivial⟩
  induction steps with
  | zero => exact fun _ _ _ _ _ => rfl
  | succ steps ih =>
    intro visiting path memo hmet hmemo
    rw [run_loadWithin, run_loadWithin, tree_listedBy, modelAt_listedBy]
    cases loader.tree.locate? path with
    | none => rfl
    | some location =>
      dsimp only
      cases hmodel : loader.modelAt path with
      | error error => rfl
      | ok model =>
        have hmatches := matches_inquiry hunambiguous hgives hmet hmodel listing
        have hload : ∀ asked, (loader.inquiry path model).Asks
            (Located loader.tree (loader.Obtains met)) asked → ∀ memo, loader.Sound met memo → _ :=
          fun asked hasked memo hmemo =>
            have hmet' := hclosed path asked hmet ⟨model, hmodel, hasked⟩
            And.intro (ih (location :: visiting) asked memo hmet' hmemo)
              (sound_loadWithin hclosed steps (location :: visiting) asked memo hmet' hmemo)
        dsimp only
        rw [hmatches.run_eq hload memo hmemo]

theorem run_perform_listedBy (hclosed : loader.Closed met) (hunambiguous : loader.Unambiguous met)
    (listing : Listing) {request : Request} (hmet : met (loader.pathFor request)) {memo : Memo}
    (hmemo : loader.Sound met memo)
    : ((loader.listedBy listing).perform request).run memo = (loader.perform request).run memo := by
  have hload : ∀ path, met path →
      ((loader.listedBy listing).loadFile path).run memo = (loader.loadFile path).run memo :=
    fun path hpath => run_loadWithin_listedBy hclosed hunambiguous listing _ [] path memo hpath hmemo
  cases request with
  | file path => exact hload path hmet
  | coordinate c =>
    rw [perform, perform, load, load, pathOf_listedBy, tree_listedBy]
    split
    . exact hload _ hmet
    . rfl

end Loader

end ArtifactAudit.Pom
