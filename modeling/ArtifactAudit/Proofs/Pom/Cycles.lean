import Mathlib.Logic.Relation
import ArtifactAudit.Proofs.Except
import ArtifactAudit.Proofs.Pom.Obtained

/-!
This module contains the proof that loading ends, and that it fails because of a cycle only if files
ask for each other in one. A file in the project that turns out not to be the parent is asked for as
well, so such a cycle need not be one of parents and imports.
-/

namespace ArtifactAudit.Pom

variable {α β : Type}

inductive Loopless : AuditError → Prop where
  | intro (text : String) {cause : ProviderCause} (h : cause ≠ .descriptorCycle)
    : Loopless (.provider text cause)

theorem Loopless.ne {error : AuditError} (h : Loopless error) (text : String)
    : error ≠ .provider text .descriptorCycle := by
  rintro rfl
  cases h with
  | intro _ hcause => exact hcause rfl

def FailsLoopless (result : Except AuditError α) : Prop :=
  ∀ error, result = .error error → Loopless error

namespace FailsLoopless

theorem ok (a : α) : FailsLoopless (.ok a) :=
  fun _ => nofun

theorem of_cause {text : String} {cause : ProviderCause} (h : cause ≠ .descriptorCycle)
    : FailsLoopless (.error (.provider text cause) : Except AuditError α) := by
  intro error heq
  cases heq
  exact .intro text h

theorem bind {result : Except AuditError α} {f : α → Except AuditError β} (h : FailsLoopless result)
    (hf : ∀ a, FailsLoopless (f a))
    : FailsLoopless (result >>= f) := by
  intro error heq
  rcases error_of_bind_eq_error heq with hfails | ⟨a, hfails⟩
  . exact h error hfails
  . exact hf a error hfails

theorem mapM {f : α → Except AuditError β} (hf : ∀ a, FailsLoopless (f a)) (as : List α)
    : FailsLoopless (as.mapM f) := by
  intro error heq
  rcases error_of_mapM_eq_error heq with ⟨a, hfails⟩
  exact hf a error hfails

theorem foldlM {f : β → α → Except AuditError β} (hf : ∀ b a, FailsLoopless (f b a)) (as : List α)
    : ∀ b, FailsLoopless (as.foldlM f b) := by
  induction as with
  | nil => exact .ok
  | cons a as ih =>
    intro b
    rw [List.foldlM_cons]
    exact (hf b a).bind ih

end FailsLoopless

theorem loopless_required (path : Path) (field : RequiredField) (value : Option String)
    : FailsLoopless (required path field value) := by
  cases value with
  | none => exact .of_cause (by simp)
  | some value => exact .ok value

theorem loopless_coordinateOf (path : Path) (model : Model) (parent : Option Effective)
    : FailsLoopless (coordinateOf path model parent) := by
  rw [coordinateOf]
  apply FailsLoopless.bind (loopless_required _ _ _)
  intro group
  apply FailsLoopless.bind (loopless_required _ _ _)
  intro artifact
  apply FailsLoopless.bind (loopless_required _ _ _)
  intro version
  apply FailsLoopless.bind (loopless_required _ _ _)
  intro group
  apply FailsLoopless.bind (loopless_required _ _ _)
  intro version
  exact .ok _

theorem loopless_nameOf (c : Coordinate) (properties : Properties) (entry : RawDependency)
    : FailsLoopless (nameOf c properties entry) := by
  rw [nameOf]
  dsimp only
  apply FailsLoopless.bind
  . split
    . exact .ok _
    . exact .of_cause (by simp)
  . intro group
    apply FailsLoopless.bind
    . split
      . exact .ok _
      . exact .of_cause (by simp)
    . intro artifact
      exact .ok _

theorem loopless_manage (c : Coordinate) (properties : Properties) (table : Management)
    (entry : RawDependency)
    : FailsLoopless (manage c properties table entry) := by
  rw [manage]
  apply FailsLoopless.bind (loopless_nameOf _ _ _)
  intro name
  split <;> exact .ok _

theorem loopless_dependencyOf (c : Coordinate) (properties : Properties) (table : Management)
    (entry : RawDependency)
    : FailsLoopless (dependencyOf c properties table entry) := by
  rw [dependencyOf]
  apply FailsLoopless.bind (loopless_nameOf _ _ _)
  intro name
  dsimp only
  split
  . exact .of_cause (by simp)
  . exact .ok _

theorem loopless_ofModel (c : Coordinate) (properties : Properties) (model : Model)
    (parent : Option Effective)
    : FailsLoopless (Effective.ofModel c properties model parent) := by
  rw [Effective.ofModel]
  apply FailsLoopless.bind (FailsLoopless.foldlM (loopless_manage c properties) _ _)
  intro management
  apply FailsLoopless.bind (FailsLoopless.mapM (loopless_dependencyOf c properties management) _)
  intro own
  exact .ok _

theorem ofXml_ne_cycle (node : Xml) : Parent.ofXml node ≠ .error .descriptorCycle := by
  intro h
  simp only [Parent.ofXml, bind, Except.bind, pure, Except.pure] at h
  grind

theorem ofProject_ne_cycle (project : Xml) : Model.ofProject project ≠ .error .descriptorCycle := by
  intro h
  rw [Model.ofProject] at h
  cases hparent : project.child? "parent" with
  | none =>
    rw [hparent] at h
    cases h
  | some node =>
    have hnode := ofXml_ne_cycle node
    rw [hparent, Option.mapM_some] at h
    cases hxml : Parent.ofXml node with
    | error cause =>
      rw [hxml] at h hnode
      cases h
      exact hnode rfl
    | ok parent =>
      rw [hxml] at h
      cases h

theorem parse_ne_cycle (text : String) : Model.parse text ≠ .error .descriptorCycle := by
  rw [Model.parse]
  split
  . nofun
  . split
    . nofun
    . apply ofProject_ne_cycle

/--
Whether an inquiry fails by itself in no other way than a provider does without a cycle, whatever the
answers are.
-/
def Inquiry.Harmless (inquiry : Inquiry α) : Prop :=
  ∀ answers error, inquiry.Fails answers error → Loopless error

namespace Inquiry.Harmless

theorem done {result : Except AuditError α} (h : FailsLoopless result)
    : Harmless (.done result) := by
  intro answers error hfails
  cases hfails
  exact h error rfl

theorem ask {path : Path} {next : Effective → Inquiry α} (h : ∀ found, Harmless (next found))
    : Harmless (.ask path next) := by
  intro answers error hfails
  cases hfails with
  | @ask _ _ found _ _ hfails => exact h found answers error hfails

theorem bind {inquiry : Inquiry α} {f : α → Inquiry β} (h : Harmless inquiry)
    (hf : ∀ a, Harmless (f a))
    : Harmless (inquiry.bind f) := by
  intro answers error hfails
  rcases hfails.of_bind with hfails | ⟨a, _, hfails⟩
  . exact h answers error hfails
  . exact hf a answers error hfails

theorem forAll {f : α → Inquiry β} (hf : ∀ a, Harmless (f a)) (as : List α)
    : Harmless (forAll f as) := by
  intro answers error hfails
  rcases hfails.of_forAll with ⟨a, _, hfails⟩
  exact hf a answers error hfails

end Inquiry.Harmless

section

variable {c : Coordinate} {properties : Properties} {model : Model} {parent : Option Effective}
  {found : Effective}

theorem exists_of_ofModel (h : Effective.ofModel c properties model parent = .ok found)
    : ∃ management own,
        model.management.foldlM (manage c properties) (parent.elim ∅ (·.management))
            = .ok management
          ∧ model.dependencies.mapM (dependencyOf c properties management) = .ok own
          ∧ found = {
            coordinate := c
            properties
            management
            dependencies := (parent.elim [] fun parent =>
              parent.dependencies.filter (!replaces model.dependencies ·)) ++ own
            modules := model.modules } := by
  rcases exists_of_bind_eq_ok h with ⟨management, hmanagement, h⟩
  rcases exists_of_bind_eq_ok h with ⟨own, hown, h⟩
  exact ⟨management, own, hmanagement, hown, (Except.ok.inj h).symm⟩

theorem coordinate_ofModel (h : Effective.ofModel c properties model parent = .ok found)
    : found.coordinate = c := by
  rcases exists_of_ofModel h with ⟨_, _, _, _, rfl⟩
  rfl

theorem properties_ofModel (h : Effective.ofModel c properties model parent = .ok found)
    : found.properties = properties := by
  rcases exists_of_ofModel h with ⟨_, _, _, _, rfl⟩
  rfl

end

namespace Loader

open Inquiry Relation

variable {loader : Loader}

theorem loopless_modelAt (path : Path) : FailsLoopless (loader.modelAt path) := by
  rw [modelAt]
  split
  . exact .of_cause (by simp)
  . next content _ =>
    split
    . exact .ok _
    . next cause hcause => exact .of_cause fun heq => parse_ne_cycle content (heq ▸ hcause)

theorem harmless_publishedInquiry (parent : Parent)
    : Harmless (loader.publishedInquiry parent) := by
  rw [publishedInquiry]
  split
  . exact .ask fun found => .done (.ok found)
  . exact .done (.of_cause (by simp))

theorem harmless_parentInquiry (path : Path) (parent : Parent)
    : Harmless (loader.parentInquiry path parent) := by
  rw [parentInquiry]
  split
  . apply harmless_publishedInquiry
  . apply Harmless.ask
    intro found
    split
    . exact .done (.ok found)
    . apply harmless_publishedInquiry

theorem harmless_importInquiry (c : Coordinate) (properties : Properties) (entry : RawDependency)
    : Harmless (loader.importInquiry c properties entry) := by
  rw [importInquiry]
  split
  . apply Harmless.bind (.done (loopless_nameOf c properties entry))
    intro name
    dsimp only
    split
    . exact .done (.of_cause (by simp))
    . split
      . exact .ask fun found => .done (.ok _)
      . exact .done (.of_cause (by simp))
  . exact .done (.ok _)

theorem harmless_inquiryBelow (path : Path) (model : Model) (parent : Option Effective)
    : Harmless (loader.inquiryBelow path model parent) := by
  apply Harmless.bind (.done (loopless_coordinateOf path model parent))
  intro c
  apply Harmless.bind (.forAll (harmless_importInquiry c _) _)
  intro management
  exact .done (loopless_ofModel _ _ _ _)

theorem harmless_inquiry (path : Path) (model : Model) : Harmless (loader.inquiry path model) := by
  rw [inquiry]
  split
  . apply harmless_inquiryBelow
  . apply Harmless.bind (harmless_parentInquiry path _)
    intro found
    apply harmless_inquiryBelow

/--
Whether some file that a relation leads to from a path is led to from itself.
-/
def Loops (loader : Loader) (related : Path → Path → Prop) (path : Path) : Prop :=
  ∃ first last location, ReflTransGen related path first ∧ TransGen related first last
    ∧ loader.tree.locate? first = some location ∧ loader.tree.locate? last = some location

def anyPath : Path → Prop := fun _ => True

theorem closed_anyPath : loader.Closed anyPath :=
  fun _ _ _ _ => trivial

/--
Why loading fails: by itself, because of a file that is being loaded, or because something that is
asked for fails.
-/
theorem error_of_loadWithin {steps : Nat} {visiting : List (List String)} {path : Path} {memo : Memo}
    {error : AuditError} (hmemo : loader.Sound anyPath memo)
    (h : ((loader.loadWithin (steps + 1) visiting path).run memo).1 = .error error)
    : Loopless error
        ∨ ∃ location, loader.tree.locate? path = some location
          ∧ (location ∈ visiting ∧ error = .provider path.text .descriptorCycle
            ∨ location ∉ visiting ∧ (∃ model, loader.modelAt path = .ok model)
              ∧ ∃ asked between, loader.Asks anyPath path asked ∧ loader.Sound anyPath between
                ∧ ((loader.loadWithin steps (location :: visiting) asked).run between).1
                  = .error error) := by
  rw [run_loadWithin] at h
  split at h
  . cases h
    exact .inl (.intro _ (by simp))
  . next location hlocate =>
    split at h
    . cases h
    . split at h
      . next hmem =>
        cases h
        exact .inr ⟨location, hlocate, .inl ⟨hmem, rfl⟩⟩
      . next hnew =>
        split at h
        . next _ hmodel =>
          cases h
          exact .inl (loopless_modelAt path _ hmodel)
        . next model hmodel =>
          rcases run_spec (loader.inquiry path model) (fun asked _ memo hmemo =>
            sound_loadWithin closed_anyPath steps (location :: visiting) asked memo trivial hmemo)
            memo hmemo with ⟨_, _, hfailed⟩
          split at h
          . cases h
          . next _ _ hrun =>
            cases h
            rw [hrun] at hfailed
            rcases hfailed _ rfl with hfails | ⟨asked, between, hasks, hbetween, hfailed⟩
            . exact .inl (harmless_inquiry path model _ _ hfails)
            . exact .inr ⟨location, hlocate, .inr ⟨hnew, ⟨model, hmodel⟩, asked, between,
                ⟨model, hmodel, hasks⟩, hbetween, hfailed⟩⟩

theorem loops_of_loadWithin (steps : Nat)
    : ∀ (visiting : List (List String)) (path : Path) (memo : Memo) (text : String),
        Room loader.tree steps visiting → loader.Sound anyPath memo →
        ((loader.loadWithin steps visiting path).run memo).1
          = .error (.provider text .descriptorCycle) →
          loader.Loops (loader.Asks anyPath) path
            ∨ ∃ last, ReflTransGen (loader.Asks anyPath) path last
              ∧ ∃ location ∈ visiting, loader.tree.locate? last = some location := by
  induction steps with
  | zero => exact fun _ _ _ _ hroom => absurd hroom.pos (Nat.lt_irrefl 0)
  | succ steps ih =>
    intro visiting path memo text hroom hmemo heq
    rcases error_of_loadWithin hmemo heq with hloopless | ⟨location, hlocate, ⟨hmem, _⟩ |
      ⟨hnew, ⟨model, hmodel⟩, asked, between, hasked, hbetween, hfailed⟩⟩
    . exact absurd rfl (hloopless.ne text)
    . exact .inr ⟨path, .refl, location, hmem, hlocate⟩
    . rcases ih _ asked between text (hroom.next hlocate hnew hmodel) hbetween hfailed with
        ⟨first, last, target, hreaches, hcycle⟩ | ⟨last, hreaches, target, hmem, htarget⟩
      . exact .inl ⟨first, last, target, hreaches.head hasked, hcycle⟩
      . rcases List.mem_cons.1 hmem with rfl | hmem
        . exact .inl ⟨path, last, target, .refl, .head' hasked hreaches, hlocate, htarget⟩
        . exact .inr ⟨last, hreaches.head hasked, target, hmem, htarget⟩

theorem exists_cause_of_loadWithin (steps : Nat)
    : ∀ {visiting : List (List String)} {path : Path} {memo : Memo} {error : AuditError},
        loader.Sound anyPath memo →
        ((loader.loadWithin steps visiting path).run memo).1 = .error error →
          ∃ text cause, error = .provider text cause := by
  induction steps with
  | zero =>
    intro visiting path memo error _ heq
    cases heq
    exact ⟨_, _, rfl⟩
  | succ steps ih =>
    intro visiting path memo error hmemo heq
    rcases error_of_loadWithin hmemo heq with ⟨text, _⟩ |
      ⟨_, _, ⟨_, rfl⟩ | ⟨_, _, _, _, _, hbetween, hfailed⟩⟩
    . exact ⟨text, _, rfl⟩
    . exact ⟨_, _, rfl⟩
    . exact ih hbetween hfailed

theorem exists_cause_of_perform {request : Request} {memo : Memo} {error : AuditError}
    (hmemo : loader.Sound anyPath memo)
    (h : ((loader.perform request).run memo).1 = .error error)
    : ∃ text cause, error = .provider text cause := by
  cases request with
  | file path => exact exists_cause_of_loadWithin _ hmemo h
  | coordinate c =>
    rw [perform, load] at h
    split at h
    . exact exists_cause_of_loadWithin _ hmemo h
    . cases h
      exact ⟨_, _, rfl⟩

def Gives (loader : Loader) : Path → Effective → Prop :=
  Located loader.tree (loader.Obtains anyPath)

/--
Whether a file says itself that it is the parent that another one means. What it leaves to its own
parent counts as it is written there.
-/
def Claims (loader : Loader) (file : Path) (parent : Parent) : Prop :=
  ∃ model, loader.modelAt file = .ok model
    ∧ (model.group <|> model.parent.map (·.group)) = some parent.group
    ∧ model.artifact = some parent.artifact

/--
Whether a file is the parent that another one means. Where the file gives no descriptor it counts what
it says itself.
-/
def Fits (loader : Loader) (file : Path) (parent : Parent) : Prop :=
  (∃ found, loader.Gives file found ∧ found.IsFor parent)
    ∨ (¬ ∃ found, loader.Gives file found) ∧ loader.Claims file parent

@[inherit_doc Fits]
def Unfit (loader : Loader) (file : Path) (parent : Parent) : Prop :=
  (∃ found, loader.Gives file found ∧ ¬ found.IsFor parent)
    ∨ (¬ ∃ found, loader.Gives file found) ∧ ¬ loader.Claims file parent

/--
What the parent of a descriptor gives: the file in the project where it should be if that is the
parent, and the published one otherwise.
-/
inductive Inherits (loader : Loader) (path : Path) (model : Model) : Option Effective → Prop where
  | none (parent_eq : model.parent = none) : Inherits loader path model none
  | inProject {parent : Parent} {file : Path} {found : Effective}
    (parent_eq : model.parent = some parent)
    (file_eq : loader.parentFile? path parent = some file) (gives : loader.Gives file found)
    (fits : found.IsFor parent)
    : Inherits loader path model (some found)
  | published {parent : Parent} {found : Effective} (parent_eq : model.parent = some parent)
    (unfit : ∀ file, loader.parentFile? path parent = some file → loader.Unfit file parent)
    (gives : loader.Gives (loader.published parent) found)
    : Inherits loader path model (some found)

inductive Imports (loader : Loader) (path : Path) : Path → Prop where
  | intro {model : Model} {parent : Option Effective} {c : Coordinate} {entry : RawDependency}
    {group artifact version : String}
    (model_eq : loader.modelAt path = .ok model) (inherits : loader.Inherits path model parent)
    (coordinate_eq : coordinateOf path model parent = .ok c) (mem : entry ∈ model.management)
    (isImport_eq : isImport entry = true)
    (name_eq : nameOf c (propertiesOf c model parent) entry = .ok (group, artifact))
    (version_eq : resolve? (propertiesOf c model parent) entry.version = some version)
    : Imports loader path (loader.pathOf group artifact version)

inductive Related (loader : Loader) (path : Path) : Path → Prop where
  | inProject {model : Model} {parent : Parent} {file : Path}
    (model_eq : loader.modelAt path = .ok model) (parent_eq : model.parent = some parent)
    (file_eq : loader.parentFile? path parent = some file) (fits : loader.Fits file parent)
    : Related loader path file
  | published {model : Model} {parent : Parent}
    (model_eq : loader.modelAt path = .ok model) (parent_eq : model.parent = some parent)
    (unfit : ∀ file, loader.parentFile? path parent = some file → loader.Unfit file parent)
    : Related loader path (loader.published parent)
  | imported {file : Path} (imports : loader.Imports path file) : Related loader path file

/--
The file that a descriptor would have for its parent, but that is not the parent.
-/
inductive Stray (loader : Loader) (path : Path) : Path → Prop where
  | intro {model : Model} {parent : Parent} {file : Path}
    (model_eq : loader.modelAt path = .ok model) (parent_eq : model.parent = some parent)
    (file_eq : loader.parentFile? path parent = some file) (unfit : loader.Unfit file parent)
    : Stray loader path file

theorem fits_or_unfit (file : Path) (parent : Parent)
    : loader.Fits file parent ∨ loader.Unfit file parent := by
  by_cases hgives : ∃ found, loader.Gives file found
  . rcases hgives with ⟨found, hfound⟩
    by_cases hfor : found.IsFor parent
    . exact .inl (.inl ⟨found, hfound, hfor⟩)
    . exact .inr (.inl ⟨found, hfound, hfor⟩)
  . by_cases hclaims : loader.Claims file parent
    . exact .inl (.inr ⟨hgives, hclaims⟩)
    . exact .inr (.inr ⟨hgives, hclaims⟩)

theorem ends_done {answers : Path → Effective → Prop} {result : Except AuditError α} {a : α}
    (h : (Inquiry.done result).Ends answers a)
    : result = .ok a := by
  cases h
  rfl

theorem asks_publishedInquiry {answers : Path → Effective → Prop} {parent : Parent} {asked : Path}
    (h : (loader.publishedInquiry parent).Asks answers asked)
    : asked = loader.published parent := by
  rw [publishedInquiry] at h
  split at h
  . cases h with
    | now => rfl
    | later _ h => cases h
  . cases h

theorem ends_publishedInquiry {answers : Path → Effective → Prop} {parent : Parent}
    {found : Effective} (h : (loader.publishedInquiry parent).Ends answers found)
    : answers (loader.published parent) found := by
  rw [publishedInquiry] at h
  split at h
  . cases h with
    | ask answer ends =>
      cases ends
      exact answer
  . cases h

theorem asks_importInquiry {answers : Path → Effective → Prop} {c : Coordinate}
    {properties : Properties} {entry : RawDependency} {asked : Path}
    (h : (loader.importInquiry c properties entry).Asks answers asked)
    : isImport entry = true
        ∧ ∃ group artifact version, nameOf c properties entry = .ok (group, artifact)
          ∧ resolve? properties entry.version = some version
          ∧ asked = loader.pathOf group artifact version := by
  rw [importInquiry] at h
  split at h
  . next himport =>
    rcases h.of_bind with h | ⟨⟨group, artifact⟩, hends, h⟩
    . cases h
    . have hname := ends_done hends
      dsimp only at h
      split at h
      . cases h
      . next version hversion =>
        split at h
        . cases h with
          | now => exact ⟨himport, group, artifact, version, hname, hversion, rfl⟩
          | later _ h => cases h
        . cases h
  . cases h

theorem asks_parentInquiry {path asked : Path} {model : Model} {parent : Parent}
    (hmodel : loader.modelAt path = .ok model) (hparent : model.parent = some parent)
    (h : (loader.parentInquiry path parent).Asks loader.Gives asked)
    : loader.Related path asked ∨ loader.Stray path asked := by
  rw [parentInquiry] at h
  split at h
  . next hfile =>
    rw [asks_publishedInquiry h]
    exact .inl (.published hmodel hparent (by simp [hfile]))
  . next file hfile =>
    cases h with
    | now =>
      rcases fits_or_unfit asked parent with hfits | hunfit
      . exact .inl (.inProject hmodel hparent hfile hfits)
      . exact .inr (.intro hmodel hparent hfile hunfit)
    | @later _ _ _ found hgives h =>
      dsimp only at h
      split at h
      . cases h
      . next hfor =>
        rw [asks_publishedInquiry h]
        refine .inl (.published hmodel hparent ?_)
        intro other hother
        rw [hfile, Option.some.injEq] at hother
        exact .inl ⟨found, hother ▸ hgives, hfor⟩

theorem ends_parentInquiry {path : Path} {model : Model} {parent : Parent} {found : Effective}
    (hparent : model.parent = some parent)
    (h : (loader.parentInquiry path parent).Ends loader.Gives found)
    : loader.Inherits path model (some found) := by
  rw [parentInquiry] at h
  split at h
  . next hfile => exact .published hparent (by simp [hfile]) (ends_publishedInquiry h)
  . next file hfile =>
    cases h with
    | @ask _ _ other _ hgives h =>
      dsimp only at h
      split at h
      . next hfor =>
        cases h
        exact .inProject hparent hfile hgives hfor
      . next hfor =>
        refine .published hparent ?_ (ends_publishedInquiry h)
        intro last hlast
        rw [hfile, Option.some.injEq] at hlast
        exact .inl ⟨other, hlast ▸ hgives, hfor⟩

theorem related_of_asks_inquiryBelow {path asked : Path} {model : Model}
    {parent : Option Effective} (hmodel : loader.modelAt path = .ok model)
    (hinherits : loader.Inherits path model parent)
    (h : (loader.inquiryBelow path model parent).Asks loader.Gives asked)
    : loader.Related path asked := by
  rcases h.of_bind with h | ⟨c, hends, h⟩
  . cases h
  . have hcoordinate := ends_done hends
    rcases h.of_bind with h | ⟨management, _, h⟩
    . rcases h.of_forAll with ⟨entry, hentry, h⟩
      rcases asks_importInquiry h with ⟨himport, group, artifact, version, hname, hversion, rfl⟩
      exact .imported (.intro hmodel hinherits hcoordinate hentry himport hname hversion)
    . cases h

theorem related_or_stray_of_asks {path asked : Path} (h : loader.Asks anyPath path asked)
    : loader.Related path asked ∨ loader.Stray path asked := by
  rcases h with ⟨model, hmodel, h⟩
  rw [inquiry] at h
  split at h
  . next hparent => exact .inl (related_of_asks_inquiryBelow hmodel (.none hparent) h)
  . next parent hparent =>
    rcases h.of_bind with h | ⟨found, hends, h⟩
    . exact asks_parentInquiry hmodel hparent h
    . exact .inl (related_of_asks_inquiryBelow hmodel (ends_parentInquiry hparent hends) h)

theorem Loops.mono {related other : Path → Path → Prop} {path : Path} (h : loader.Loops related path)
    (hother : ∀ first second, related first second → other first second)
    : loader.Loops other path := by
  rcases h with ⟨first, last, location, hreaches, hcycle, hlocate⟩
  exact ⟨first, last, location, ReflTransGen.mono hother _ _ hreaches, TransGen.mono hother _ _ hcycle,
    hlocate⟩

theorem Loops.of_no_strays {path : Path}
    (h : loader.Loops (fun first second => loader.Related first second ∨ loader.Stray first second)
      path)
    (hstray : ∀ first, ReflTransGen loader.Related path first →
      ∀ second, ¬ loader.Stray first second)
    : loader.Loops loader.Related path := by
  have hreaches : ∀ {last}, ReflTransGen
      (fun first second => loader.Related first second ∨ loader.Stray first second) path last →
      ReflTransGen loader.Related path last := by
    intro last hlast
    induction hlast with
    | refl => exact .refl
    | tail _ hstep ih => exact ih.tail (hstep.resolve_right (hstray _ ih _))
  have hcycle : ∀ {first last}, ReflTransGen loader.Related path first → TransGen
      (fun first second => loader.Related first second ∨ loader.Stray first second) first last →
      TransGen loader.Related first last := by
    intro first last hfirst hlast
    induction hlast with
    | single hstep => exact .single (hstep.resolve_right (hstray _ hfirst _))
    | tail _ hstep ih =>
      exact ih.tail (hstep.resolve_right (hstray _ (hfirst.trans ih.to_reflTransGen) _))
  rcases h with ⟨first, last, location, hfirst, hlast, hlocate⟩
  exact ⟨first, last, location, hreaches hfirst, hcycle (hreaches hfirst) hlast, hlocate⟩

theorem Gives.coordinate_eq {path : Path} {found : Effective} (h : loader.Gives path found)
    : ∃ model parent, loader.modelAt path = .ok model
        ∧ coordinateOf path model parent = .ok found.coordinate := by
  rcases h with ⟨location, hlocate, h⟩
  cases h with
  | @intro other _ model _ answers _ hother hmodel hends _ =>
    have hbelow : ∃ parent, (loader.inquiryBelow other model parent).Ends
        (Located loader.tree answers) found := by
      rw [inquiry] at hends
      split at hends
      . exact ⟨none, hends⟩
      . rcases hends.of_bind with ⟨above, _, hends⟩
        exact ⟨some above, hends⟩
    rcases hbelow with ⟨parent, hbelow⟩
    refine ⟨model, parent, modelAt_of_locate? hother hlocate hmodel, ?_⟩
    rcases hbelow.of_bind with ⟨c, hc, hbelow⟩
    rcases hbelow.of_bind with ⟨management, _, hdone⟩
    have hcoordinate := coordinate_ofModel (ends_done hdone)
    rw [hcoordinate, coordinateOf_eq_ok]
    exact coordinateOf_eq_ok.1 (ends_done hc)

theorem Gives.of_plain {path : Path} {found : Effective} {model : Model} {group artifact : String}
    (h : loader.Gives path found) (hmodel : loader.modelAt path = .ok model)
    (hgroup : model.group = some group) (hartifact : model.artifact = some artifact)
    (hplain : ∀ properties, resolve properties group = some group)
    : found.coordinate.group = group ∧ found.coordinate.artifact = artifact := by
  rcases h.coordinate_eq with ⟨other, parent, hother, hcoordinate⟩
  obtain rfl : model = other := Except.ok.inj (hmodel.symm.trans hother)
  rcases coordinateOf_eq_ok.1 hcoordinate with ⟨g, a, version, hg, ha, _, hc⟩
  rw [hgroup] at hg
  change resolve _ group = some g at hg
  rw [hplain, Option.some.injEq] at hg
  rw [hartifact, Option.some.injEq] at ha
  rw [hc, hg, ha]
  exact ⟨rfl, rfl⟩

theorem located_of_modelAt {path : Path} {model : Model} (h : loader.modelAt path = .ok model)
    : ∃ location, loader.tree.locate? path = some location := by
  cases hlocate : loader.tree.locate? path with
  | some location => exact ⟨location, rfl⟩
  | none =>
    rw [modelAt, FileTree.readText?, FileTree.read?, find?_eq, hlocate] at h
    cases h

theorem Related.located {path other : Path} (h : loader.Related path other)
    : ∃ location, loader.tree.locate? path = some location := by
  cases h with
  | inProject model_eq _ _ _ => exact located_of_modelAt model_eq
  | published model_eq _ _ => exact located_of_modelAt model_eq
  | imported imports =>
    cases imports with
    | intro model_eq => exact located_of_modelAt model_eq

theorem not_imports_of_plain {path other : Path} {model : Model}
    (hmodel : loader.modelAt path = .ok model)
    (hplain : ∀ entry ∈ model.management, isImport entry = false)
    : ¬ loader.Imports path other := by
  rintro ⟨model_eq, _, _, mem, isImport_eq, _, _⟩
  obtain rfl := Except.ok.inj (hmodel.symm.trans model_eq)
  rw [hplain _ mem] at isImport_eq
  cases isImport_eq

theorem Related.of_unmanaged {path other : Path} {model : Model} (h : loader.Related path other)
    (hmodel : loader.modelAt path = .ok model) (hmanagement : model.management = [])
    : ∃ parent, model.parent = some parent
        ∧ ((loader.parentFile? path parent = some other ∧ loader.Fits other parent)
          ∨ other = loader.published parent) := by
  cases h with
  | inProject model_eq parent_eq file_eq fits =>
    obtain rfl := Except.ok.inj (hmodel.symm.trans model_eq)
    exact ⟨_, parent_eq, .inl ⟨file_eq, fits⟩⟩
  | published model_eq parent_eq _ =>
    obtain rfl := Except.ok.inj (hmodel.symm.trans model_eq)
    exact ⟨_, parent_eq, .inr rfl⟩
  | imported imports => exact absurd imports (not_imports_of_plain hmodel (by simp [hmanagement]))

theorem not_unfit_of_plain {file : Path} {model : Model} {parent : Parent}
    (hmodel : loader.modelAt file = .ok model) (hgroup : model.group = some parent.group)
    (hartifact : model.artifact = some parent.artifact)
    (hplain : ∀ properties, resolve properties parent.group = some parent.group)
    : ¬ loader.Unfit file parent := by
  rintro (⟨found, hgives, hfor⟩ | ⟨_, hclaims⟩)
  . exact hfor (hgives.of_plain hmodel hgroup hartifact hplain)
  . exact hclaims ⟨model, hmodel, by rw [hgroup]; rfl, hartifact⟩

/--
Loading ends: it takes no more steps than there are files, and more of them change nothing. It fails
because of a cycle only if files are in one through their parents, their imports and the files that
they would have for their parents. If none of the latter are met that are not the parents, the cycle
is one of parents and imports.
-/
theorem loadFile_loops (loader : Loader) (requests : List Request) (path : Path)
    : (∀ extra, loader.loadWithin (loader.tree.root.fileCount + 2 + extra) [] = loader.loadFile)
        ∧ ∀ text,
          ((loader.loadFile path).run ((loader.performAll requests).run []).2).1
              = .error (.provider text .descriptorCycle)
            →
          loader.Loops (fun first second => loader.Related first second ∨ loader.Stray first second)
              path
            ∧ ((∀ first, ReflTransGen loader.Related path first →
                ∀ second, ¬ loader.Stray first second) →
              loader.Loops loader.Related path) := by
  refine ⟨fun extra => loadWithin_add extra (room_start loader.tree), ?_⟩
  intro text heq
  have hmemo : loader.Sound anyPath ((loader.performAll requests).run []).2 :=
    sound_performAll closed_anyPath (fun _ _ => trivial) (sound_nil loader anyPath)
  have hloops : loader.Loops (loader.Asks anyPath) path := by
    rcases loops_of_loadWithin _ [] path _ text (room_start loader.tree) hmemo heq with
      hloops | ⟨_, _, location, hmem, _⟩
    . exact hloops
    . cases hmem
  have hboth := hloops.mono fun _ _ => related_or_stray_of_asks
  exact ⟨hboth, hboth.of_no_strays⟩

def element (name content : String) : String :=
  "<" ++ name ++ ">" ++ content ++ "</" ++ name ++ ">"

def descriptor (group artifact rest : String) : String :=
  element "project" (element "groupId" group ++ element "artifactId" artifact ++ rest)

theorem toList_element (name content : String)
    : (element name content).toList
        = '<' :: (name.toList ++ '>' :: (content.toList ++ '<' :: '/' :: (name.toList ++ ['>']))) := by
  simp [element, String.toList_append]

theorem modelAt_of_toList {path : Path} {text : String} {cs : List Char} {model : Model}
    (hread : loader.tree.read? path = some text.toUTF8) (htext : text.toList = cs)
    (hparse : Model.parse (String.ofList cs) = .ok model)
    : loader.modelAt path = .ok model := by
  have hreadText : loader.tree.readText? path = some text := by
    rw [FileTree.readText?, hread]
    exact dif_pos text.isValidUTF8
  rw [← htext, String.ofList_toList] at hparse
  rw [modelAt, hreadText]
  dsimp only
  rw [hparse]

namespace OwnParent

/--
The project of the example: its parent is itself.
-/
def tree : FileTree :=
  let text := descriptor "g" "a" (element "parent" (element "groupId" "g" ++
    element "artifactId" "a" ++ element "version" "1" ++ element "relativePath" "pom.xml"))
  ⟨.directory [("pom.xml", .file text.toUTF8)], []⟩

def project : Loader := ⟨tree, ⟨"repo"⟩⟩

def parent : Parent := ⟨"g", "a", "1", some "pom.xml"⟩

set_option maxRecDepth 2000 in
theorem modelAt_project : project.modelAt ⟨"pom.xml"⟩
    = .ok ⟨some "g", some "a", none, none, some parent, [], [], [], []⟩ := by
  apply modelAt_of_toList
  . rfl
  . simp [descriptor, toList_element]
    rfl
  . rw [Model.parse, Xml.parse?, String.toList_ofList]
    rfl

theorem parentFile?_project : project.parentFile? ⟨"pom.xml"⟩ parent = some ⟨"pom.xml"⟩ := by
  rfl

theorem not_unfit : ¬ project.Unfit ⟨"pom.xml"⟩ parent :=
  not_unfit_of_plain modelAt_project rfl rfl fun _ => rfl

theorem not_stray {path other : Path} (h : ReflTransGen project.Related ⟨"pom.xml"⟩ path)
    : ¬ project.Stray path other := by
  have hpath : path = ⟨"pom.xml"⟩ := by
    induction h with
    | refl => rfl
    | tail _ hstep ih =>
      subst ih
      cases hstep with
      | inProject model_eq parent_eq file_eq _ =>
        obtain rfl := Except.ok.inj (modelAt_project.symm.trans model_eq)
        cases parent_eq
        exact Option.some.inj (file_eq.symm.trans parentFile?_project)
      | published model_eq parent_eq unfit =>
        obtain rfl := Except.ok.inj (modelAt_project.symm.trans model_eq)
        cases parent_eq
        exact absurd (unfit _ parentFile?_project) not_unfit
      | imported imports => exact absurd imports (not_imports_of_plain modelAt_project nofun)
  subst hpath
  rintro ⟨model_eq, parent_eq, file_eq, unfit⟩
  obtain rfl := Except.ok.inj (modelAt_project.symm.trans model_eq)
  cases parent_eq
  obtain rfl := Option.some.inj (parentFile?_project.symm.trans file_eq)
  exact not_unfit unfit

end OwnParent

theorem loadFile_loops_ownParent
    : ((OwnParent.project.loadFile ⟨"pom.xml"⟩).run ((OwnParent.project.performAll []).run []).2).1
          = .error (.provider "pom.xml" .descriptorCycle)
        ∧ (∀ first, ReflTransGen OwnParent.project.Related ⟨"pom.xml"⟩ first →
          ∀ second, ¬ OwnParent.project.Stray first second)
        ∧ OwnParent.project.Loops OwnParent.project.Related ⟨"pom.xml"⟩ := by
  have hfails : ((OwnParent.project.loadFile ⟨"pom.xml"⟩).run
      ((OwnParent.project.performAll []).run []).2).1
        = .error (.provider "pom.xml" .descriptorCycle) := by
    have hlocate : OwnParent.project.tree.locate? ⟨"pom.xml"⟩ = some ["pom.xml"] := rfl
    have hrun : (OwnParent.project.loadWithin 3 [] ⟨"pom.xml"⟩).run []
        = (.error (.provider "pom.xml" .descriptorCycle), []) :=
      run_loadWithin_parent hlocate rfl List.not_mem_nil OwnParent.modelAt_project rfl
        OwnParent.parentFile?_project (run_loadWithin_cycle hlocate rfl List.mem_cons_self)
    exact congrArg Prod.fst hrun
  have hstray : ∀ first, ReflTransGen OwnParent.project.Related ⟨"pom.xml"⟩ first →
      ∀ second, ¬ OwnParent.project.Stray first second :=
    fun _ hfirst _ => OwnParent.not_stray hfirst
  exact ⟨hfails, hstray,
    ((loadFile_loops OwnParent.project [] ⟨"pom.xml"⟩).2 "pom.xml" hfails).2 hstray⟩

namespace Aside

/--
The project of the example: its parent stands in a directory of it, and the parent of that one is
published. Where the latter would be in the project there is the project itself.
-/
def tree : FileTree :=
  let root := descriptor "g" "root" (element "parent" (element "groupId" "g" ++
    element "artifactId" "base" ++ element "version" "1" ++ element "relativePath" "base/pom.xml"))
  let base := descriptor "g" "base" (element "parent" (element "groupId" "x" ++
    element "artifactId" "company" ++ element "version" "1"))
  let company := descriptor "x" "company" (element "version" "1")
  ⟨.directory
    [("base", .directory [("pom.xml", .file base.toUTF8)]),
      ("pom.xml", .file root.toUTF8),
      ("repo", .directory [("x", .directory [("company", .directory [("1", .directory
        [("company-1.pom", .file company.toUTF8)])])])])], []⟩

def project : Loader := ⟨tree, ⟨"repo"⟩⟩

def rootParent : Parent := ⟨"g", "base", "1", some "base/pom.xml"⟩

def baseParent : Parent := ⟨"x", "company", "1", none⟩

set_option maxRecDepth 2000 in
theorem modelAt_root : project.modelAt ⟨"pom.xml"⟩
    = .ok ⟨some "g", some "root", none, none, some rootParent, [], [], [], []⟩ := by
  apply modelAt_of_toList
  . rfl
  . simp [descriptor, toList_element]
    rfl
  . rw [Model.parse, Xml.parse?, String.toList_ofList]
    rfl

set_option maxRecDepth 2000 in
theorem modelAt_base : project.modelAt ⟨"base/pom.xml"⟩
    = .ok ⟨some "g", some "base", none, none, some baseParent, [], [], [], []⟩ := by
  apply modelAt_of_toList
  . rfl
  . simp [descriptor, toList_element]
    rfl
  . rw [Model.parse, Xml.parse?, String.toList_ofList]
    rfl

theorem modelAt_company : project.modelAt ⟨"repo/x/company/1/company-1.pom"⟩
    = .ok ⟨some "x", some "company", some "1", none, none, [], [], [], []⟩ := by
  apply modelAt_of_toList
  . rfl
  . simp [descriptor, toList_element]
    rfl
  . rw [Model.parse, Xml.parse?, String.toList_ofList]
    rfl

theorem locate?_root : project.tree.locate? ⟨"pom.xml"⟩ = some ["pom.xml"] := by
  rfl

theorem locate?_above : project.tree.locate? ⟨"base/../pom.xml"⟩ = some ["pom.xml"] := by
  rfl

theorem parentFile?_root : project.parentFile? ⟨"pom.xml"⟩ rootParent = some ⟨"base/pom.xml"⟩ := by
  rfl

theorem parentFile?_base
    : project.parentFile? ⟨"base/pom.xml"⟩ baseParent = some ⟨"base/../pom.xml"⟩ := by
  rfl

theorem loadFile_root
    : (project.loadFile ⟨"pom.xml"⟩).run []
        = (.error (.provider "base/../pom.xml" .descriptorCycle), []) := by
  have hbase : project.tree.locate? ⟨"base/pom.xml"⟩ = some ["base", "pom.xml"] := rfl
  have habove : (project.loadWithin 3 [["base", "pom.xml"], ["pom.xml"]] ⟨"base/../pom.xml"⟩).run []
      = (.error (.provider "base/../pom.xml" .descriptorCycle), []) :=
    run_loadWithin_cycle locate?_above rfl (by decide)
  have hbelow : (project.loadWithin 4 [["pom.xml"]] ⟨"base/pom.xml"⟩).run []
      = (.error (.provider "base/../pom.xml" .descriptorCycle), []) :=
    run_loadWithin_parent hbase rfl (by decide) modelAt_base rfl parentFile?_base habove
  exact run_loadWithin_parent locate?_root rfl List.not_mem_nil modelAt_root rfl parentFile?_root hbelow

theorem unfit_root : ¬ project.Fits ⟨"base/../pom.xml"⟩ baseParent := by
  have hmodel := modelAt_of_locate? locate?_root locate?_above modelAt_root
  rintro (⟨found, hgives, hfor⟩ | ⟨_, model, hclaims, hgroup, _⟩)
  . have hgroup := (hgives.of_plain hmodel rfl rfl fun _ => rfl).1
    exact absurd (hgroup.symm.trans hfor.1) (by decide)
  . obtain rfl := Except.ok.inj (hmodel.symm.trans hclaims)
    exact absurd hgroup (by decide)

def height (path : Path) : Nat :=
  match project.tree.locate? path with
  | some ["pom.xml"] => 2
  | some ["base", "pom.xml"] => 1
  | _ => 0

theorem height_eq {first last : Path} {location : List String}
    (hfirst : project.tree.locate? first = some location)
    (hlast : project.tree.locate? last = some location)
    : height first = height last := by
  rw [height, height, hfirst, hlast]

def led : List Path :=
  [⟨"pom.xml"⟩, ⟨"base/pom.xml"⟩, project.published rootParent, project.published baseParent]

theorem height_lt {first second : Path} (hfirst : first ∈ led) (h : project.Related first second)
    : second ∈ led ∧ height second < height first := by
  have hmissing : project.tree.locate? (project.published rootParent) = none := by
    rfl
  simp only [led, List.mem_cons, List.not_mem_nil, or_false] at hfirst
  rcases hfirst with rfl | rfl | rfl | rfl
  . rcases h.of_unmanaged modelAt_root rfl with ⟨parent, hparent, ⟨hfile, _⟩ | rfl⟩
    . cases hparent
      obtain rfl := Option.some.inj (parentFile?_root.symm.trans hfile)
      exact ⟨by simp [led], by decide⟩
    . cases hparent
      exact ⟨by simp [led], by decide⟩
  . rcases h.of_unmanaged modelAt_base rfl with ⟨parent, hparent, ⟨hfile, hfits⟩ | rfl⟩
    . cases hparent
      obtain rfl := Option.some.inj (parentFile?_base.symm.trans hfile)
      exact absurd hfits unfit_root
    . cases hparent
      exact ⟨by simp [led], by decide⟩
  . rcases h.located with ⟨location, hlocation⟩
    rw [hmissing] at hlocation
    cases hlocation
  . rcases h.of_unmanaged modelAt_company rfl with ⟨parent, hparent, _⟩
    cases hparent

theorem led_of_reaches {path : Path} (h : ReflTransGen project.Related ⟨"pom.xml"⟩ path)
    : path ∈ led := by
  induction h with
  | refl => exact List.mem_cons_self
  | tail _ hstep ih => exact (height_lt ih hstep).1

theorem height_lt_of_reaches {first last : Path} (hfirst : first ∈ led)
    (h : TransGen project.Related first last)
    : height last < height first := by
  have hboth : last ∈ led ∧ height last < height first := by
    induction h with
    | single hstep => exact height_lt hfirst hstep
    | tail _ hstep ih =>
      have hnext := height_lt ih.1 hstep
      exact ⟨hnext.1, Nat.lt_trans hnext.2 ih.2⟩
  exact hboth.2

end Aside

/--
The project's parent is asked for the project itself, which is not its parent.
-/
theorem loadFile_aside_strays
    : ((Aside.project.loadFile ⟨"pom.xml"⟩).run []).1
          = .error (.provider "base/../pom.xml" .descriptorCycle)
        ∧ ¬ Aside.project.Loops Aside.project.Related ⟨"pom.xml"⟩ := by
  refine ⟨congrArg Prod.fst Aside.loadFile_root, ?_⟩
  rintro ⟨first, last, location, hfirst, hlast, hlocate, hlocate'⟩
  have hled := Aside.led_of_reaches hfirst
  have hlower := Aside.height_lt_of_reaches hled hlast
  rw [Aside.height_eq hlocate hlocate'] at hlower
  exact Nat.lt_irrefl _ hlower

end Loader

end ArtifactAudit.Pom
