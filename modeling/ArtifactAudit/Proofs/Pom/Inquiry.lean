import Mathlib.Logic.Basic
import ArtifactAudit.Pom.Loader

/-!
This module contains inquiries: what the loading of a descriptor asks for, one descriptor after
another, told without how those are loaded and what is remembered of them.
-/

namespace ArtifactAudit.Pom

variable {α β : Type}

theorem Loading.run_bind (x : Loading α) (f : α → Loading β) (memo : Memo)
    : (x >>= f).run memo
        =
      match x.run memo with
      | (.ok a, after) => (f a).run after
      | (.error error, after) => (.error error, after) := by
  change StateT.run (x >>= f).run memo = _
  rw [ExceptT.run_bind, StateT.run_bind]
  cases hx : x.run memo with
  | mk answer after =>
    have hx : StateT.run x.run memo = (answer, after) := hx
    rw [hx]
    cases answer <;> rfl

theorem Loading.run_mk (result : Except AuditError α) (memo : Memo)
    : (ExceptT.mk (pure result) : Loading α).run memo = (result, memo) := rfl

/--
What is asked for until there is a result, which may be a failure.
-/
inductive Inquiry (α : Type) where
  | done (result : Except AuditError α)
  | ask (path : Path) (next : Effective → Inquiry α)

namespace Inquiry

def bind (f : α → Inquiry β) : Inquiry α → Inquiry β
  | .done (.ok a) => f a
  | .done (.error error) => .done (.error error)
  | .ask path next => .ask path fun found => (next found).bind f

def forAll (f : α → Inquiry β) : List α → Inquiry (List β)
  | [] => .done (.ok [])
  | a :: as => (f a).bind fun b => (forAll f as).bind fun bs => .done (.ok (b :: bs))

def run (load : Path → Loading Effective) : Inquiry α → Loading α
  | .done result => ExceptT.mk (pure result)
  | .ask path next => do (next (← load path)).run load

theorem run_bind (load : Path → Loading Effective) (f : α → Inquiry β)
    : ∀ inquiry : Inquiry α, (inquiry.bind f).run load = inquiry.run load >>= fun a => (f a).run load
  | .done (.ok a) => rfl
  | .done (.error error) => rfl
  | .ask path next => by
    rw [bind, run, run, bind_assoc]
    congr
    funext found
    exact run_bind load f (next found)

theorem run_forAll (load : Path → Loading Effective) (f : α → Inquiry β) (as : List α)
    : (forAll f as).run load = as.mapM fun a => (f a).run load := by
  induction as with
  | nil => rfl
  | cons a as ih =>
    rw [forAll, run_bind, List.mapM_cons]
    congr
    funext b
    rw [run_bind, ih]
    rfl

inductive Ends (answers : Path → Effective → Prop) : Inquiry α → α → Prop where
  | done {a : α} : Ends answers (.done (.ok a)) a
  | ask {path : Path} {next : Effective → Inquiry α} {found : Effective} {a : α}
    (answer : answers path found) (ends : Ends answers (next found) a)
    : Ends answers (.ask path next) a

inductive Fails (answers : Path → Effective → Prop) : Inquiry α → AuditError → Prop where
  | done {error : AuditError} : Fails answers (.done (.error error)) error
  | ask {path : Path} {next : Effective → Inquiry α} {found : Effective} {error : AuditError}
    (answer : answers path found) (fails : Fails answers (next found) error)
    : Fails answers (.ask path next) error

inductive Asks (answers : Path → Effective → Prop) : Inquiry α → Path → Prop where
  | now {path : Path} {next : Effective → Inquiry α} : Asks answers (.ask path next) path
  | later {path asked : Path} {next : Effective → Inquiry α} {found : Effective}
    (answer : answers path found) (asks : Asks answers (next found) asked)
    : Asks answers (.ask path next) asked

variable {answers : Path → Effective → Prop} {inquiry : Inquiry α}

theorem Ends.of_bind {f : α → Inquiry β} {b : β}
    : ∀ {inquiry : Inquiry α}, Ends answers (inquiry.bind f) b →
        ∃ a, Ends answers inquiry a ∧ Ends answers (f a) b
  | .done (.ok a), h => ⟨a, .done, h⟩
  | .done (.error _), h => by cases h
  | .ask _ _, .ask answer ends => by
    rcases of_bind ends with ⟨a, hends, hrest⟩
    exact ⟨a, .ask answer hends, hrest⟩

theorem Fails.of_bind {f : α → Inquiry β} {error : AuditError}
    : ∀ {inquiry : Inquiry α}, Fails answers (inquiry.bind f) error →
        Fails answers inquiry error ∨ ∃ a, Ends answers inquiry a ∧ Fails answers (f a) error
  | .done (.ok a), h => .inr ⟨a, .done, h⟩
  | .done (.error _), h => by
    cases h
    exact .inl .done
  | .ask _ _, .ask answer fails => by
    rcases of_bind fails with hfails | ⟨a, hends, hrest⟩
    . exact .inl (.ask answer hfails)
    . exact .inr ⟨a, .ask answer hends, hrest⟩

theorem Asks.of_bind {f : α → Inquiry β} {asked : Path}
    : ∀ {inquiry : Inquiry α}, Asks answers (inquiry.bind f) asked →
        Asks answers inquiry asked ∨ ∃ a, Ends answers inquiry a ∧ Asks answers (f a) asked
  | .done (.ok a), h => .inr ⟨a, .done, h⟩
  | .done (.error _), h => by cases h
  | .ask _ _, .now => .inl .now
  | .ask _ _, .later answer asks => by
    rcases of_bind asks with hasks | ⟨a, hends, hrest⟩
    . exact .inl (.later answer hasks)
    . exact .inr ⟨a, .ask answer hends, hrest⟩

theorem Asks.of_forAll {f : α → Inquiry β} {asked : Path} {as : List α}
    (h : Asks answers (forAll f as) asked)
    : ∃ a ∈ as, Asks answers (f a) asked := by
  induction as with
  | nil => cases h
  | cons a as ih =>
    rcases h.of_bind with h | ⟨b, _, h⟩
    . exact ⟨a, List.mem_cons_self, h⟩
    . rcases h.of_bind with h | ⟨bs, _, h⟩
      . rcases ih h with ⟨x, hx, h⟩
        exact ⟨x, List.mem_cons_of_mem a hx, h⟩
      . cases h

theorem Fails.of_forAll {f : α → Inquiry β} {error : AuditError} {as : List α}
    (h : Fails answers (forAll f as) error)
    : ∃ a ∈ as, Fails answers (f a) error := by
  induction as with
  | nil => cases h
  | cons a as ih =>
    rcases h.of_bind with h | ⟨b, _, h⟩
    . exact ⟨a, List.mem_cons_self, h⟩
    . rcases h.of_bind with h | ⟨bs, _, h⟩
      . rcases ih h with ⟨x, hx, h⟩
        exact ⟨x, List.mem_cons_of_mem a hx, h⟩
      . cases h

theorem Ends.mono {more : Path → Effective → Prop} {a : α} (h : Ends answers inquiry a)
    (hmore : ∀ path found, answers path found → more path found)
    : Ends more inquiry a := by
  induction h with
  | done => exact .done
  | ask answer _ ih => exact .ask (hmore _ _ answer) ih

theorem Asks.mono {more : Path → Effective → Prop} {asked : Path} (h : Asks answers inquiry asked)
    (hmore : ∀ path found, answers path found → more path found)
    : Asks more inquiry asked := by
  induction h with
  | now => exact .now
  | later answer _ ih => exact .later (hmore _ _ answer) ih

theorem Ends.unique {others : Path → Effective → Prop} {a b : α} (h : Ends answers inquiry a)
    (hsame : ∀ path found other, answers path found → others path other → found = other)
    : Ends others inquiry b → a = b := by
  induction h with
  | done =>
    intro h
    cases h
    rfl
  | ask answer _ ih =>
    intro h
    cases h with
    | ask other ends =>
      obtain rfl := hsame _ _ _ answer other
      exact ih ends

theorem Ends.answered {others : Path → Effective → Prop} {a : α} {asked : Path}
    (h : Ends answers inquiry a)
    (hsame : ∀ path found other, answers path found → others path other → found = other)
    : Asks others inquiry asked → ∃ found, answers asked found := by
  induction h with
  | done =>
    intro h
    cases h
  | ask answer _ ih =>
    intro h
    cases h with
    | now => exact ⟨_, answer⟩
    | later other asks =>
      obtain rfl := hsame _ _ _ answer other
      exact ih asks

end Inquiry

/--
Whether a descriptor is the one that another one calls its parent, as far as group and artifact tell.
-/
def Effective.IsFor (found : Effective) (parent : Parent) : Prop :=
  found.coordinate.group = parent.group ∧ found.coordinate.artifact = parent.artifact

instance (found : Effective) (parent : Parent) : Decidable (found.IsFor parent) :=
  inferInstanceAs (Decidable (_ ∧ _))

namespace Loader

open Inquiry

variable (loader : Loader)

def published (parent : Parent) : Path :=
  loader.pathOf parent.group parent.artifact parent.version

def publishedInquiry (parent : Parent) : Inquiry Effective :=
  if loader.tree.exists? (loader.published parent) then
    .ask (loader.published parent) fun found => .done (.ok found)
  else
    let c := Coordinate.withPackaging parent.group parent.artifact parent.version "pom"
    .done (.error (.provider c.text (.parentNotFound (loader.published parent))))

def parentInquiry (path : Path) (parent : Parent) : Inquiry Effective :=
  match loader.parentFile? path parent with
  | none => loader.publishedInquiry parent
  | some file => .ask file fun found =>
    if found.IsFor parent then .done (.ok found) else loader.publishedInquiry parent

def importInquiry (c : Coordinate) (properties : Properties) (entry : RawDependency)
    : Inquiry (List RawDependency) :=
  if isImport entry then
    .bind (fun (group, artifact) =>
      match resolve? properties entry.version with
      | none => .done (.error (.provider c.text (.importWithoutVersion group artifact)))
      | some version =>
        let published := loader.pathOf group artifact version
        if loader.tree.exists? published then
          .ask published fun found => .done (.ok ((loader.listed published found).map rawOf))
        else
          let imported := Coordinate.withPackaging group artifact version "pom"
          .done (.error (.provider imported.text (.importNotFound published))))
      (.done (nameOf c properties entry))
  else .done (.ok [entry])

def inquiryBelow (path : Path) (model : Model) (parent : Option Effective) : Inquiry Effective :=
  .bind (fun c =>
    .bind (fun management =>
        .done (Effective.ofModel c (propertiesOf c model parent)
          { model with management := management.flatten } parent))
      (forAll (loader.importInquiry c (propertiesOf c model parent)) model.management))
    (.done (coordinateOf path model parent))

def inquiry (path : Path) (model : Model) : Inquiry Effective :=
  match model.parent with
  | none => loader.inquiryBelow path model none
  | some parent =>
    .bind (fun found => loader.inquiryBelow path model (some found))
      (loader.parentInquiry path parent)

variable {loader}

theorem run_parentInquiry (load : Path → Loading Effective) (path : Path) (parent : Parent)
    : (loader.parentInquiry path parent).run load = loader.parentOf load path parent := by
  have hpublished : (loader.publishedInquiry parent).run load
      = (if loader.tree.exists? (loader.published parent) then load (loader.published parent)
        else throw (.provider
          (Coordinate.withPackaging parent.group parent.artifact parent.version "pom").text
          (.parentNotFound (loader.published parent)))) := by
    rw [publishedInquiry]
    split
    . apply bind_pure
    . rfl
  rw [parentInquiry, parentOf]
  cases loader.parentFile? path parent with
  | none => exact hpublished
  | some file =>
    dsimp only
    rw [Inquiry.run]
    congr
    funext found
    by_cases h : found.IsFor parent
    . rw [if_pos h, if_pos (by simpa [Effective.IsFor] using h)]
      rfl
    . rw [if_neg h, if_neg (by simpa [Effective.IsFor] using h)]
      exact hpublished

theorem run_importInquiry (load : Path → Loading Effective) (c : Coordinate)
    (properties : Properties) (entry : RawDependency)
    : (loader.importInquiry c properties entry).run load
        =
      loader.expandImport load c properties entry := by
  rw [importInquiry, expandImport]
  by_cases h : isImport entry
  . rw [if_pos h, run_bind, if_neg (by simpa using h)]
    congr
    funext name
    cases resolve? properties entry.version with
    | none => rfl
    | some version =>
      dsimp only
      split <;> rfl
  . rw [if_neg h, if_pos (by simpa using h)]
    rfl

theorem run_inquiry (load : Path → Loading Effective) (path : Path) (model : Model)
    : (loader.inquiry path model).run load = loader.effective load path model := by
  have hbelow : ∀ parent, (loader.inquiryBelow path model parent).run load = (do
      let c ← ExceptT.mk (pure (coordinateOf path model parent))
      let properties := propertiesOf c model parent
      let management ← model.management.mapM (loader.expandImport load c properties)
      let complete := { model with management := management.flatten }
      ExceptT.mk (pure (Effective.ofModel c properties complete parent))) := by
    intro parent
    rw [inquiryBelow, run_bind]
    congr
    funext c
    rw [run_bind, run_forAll]
    congr
    funext entry
    apply run_importInquiry
  rw [inquiry, effective]
  cases model.parent with
  | none =>
    rw [Option.mapM_none, pure_bind]
    exact hbelow none
  | some parent =>
    rw [run_bind, Option.mapM_some, run_parentInquiry, bind_map_left]
    congr
    funext found
    exact hbelow (some found)

end Loader

end ArtifactAudit.Pom
