import Mathlib.Logic.Relation
import ArtifactAudit.Proofs.FileTree.Beside
import ArtifactAudit.Proofs.Pom.Cycles

/-!
This module contains the proof that it cannot be told from what is loaded whether descriptors have been
loaded before: a file gives the same descriptor whatever path it is loaded by and whatever files are
being loaded meanwhile, as long as its paths lead on to one candidate for its parent. They do if none
becomes too long on the way.
-/

namespace ArtifactAudit.Pom

variable {α β : Type}

namespace Inquiry

/--
Whether two inquiries ask for the same files and come to the same results. Paths and messages may
differ.
-/
inductive Alike (tree : FileTree) : Inquiry α → Inquiry α → Prop where
  | done {first second : Except AuditError α} (same : ∀ a, first = .ok a ↔ second = .ok a)
    : Alike tree (.done first) (.done second)
  | ask {path other : Path} {next next' : Effective → Inquiry α}
    (locate_eq : tree.locate? path = tree.locate? other)
    (same : ∀ found, Alike tree (next found) (next' found))
    : Alike tree (.ask path next) (.ask other next')

variable {tree : FileTree}

theorem Alike.refl : ∀ inquiry : Inquiry α, Alike tree inquiry inquiry
  | .done _ => .done fun _ => Iff.rfl
  | .ask _ next => .ask rfl fun found => refl (next found)

theorem Alike.bind {first second : Inquiry α} {f g : α → Inquiry β} (h : Alike tree first second)
    (hf : ∀ a, Alike tree (f a) (g a))
    : Alike tree (first.bind f) (second.bind g) := by
  induction h with
  | @done first second same =>
    cases first with
    | ok a =>
      rw [(same a).1 rfl]
      exact hf a
    | error error =>
      cases second with
      | ok a => cases (same a).2 rfl
      | error other => exact .done fun _ => ⟨nofun, nofun⟩
  | ask locate_eq _ ih => exact .ask locate_eq ih

theorem Alike.ends {holds : List String → Effective → Prop} {first second : Inquiry α} {a : α}
    (h : Alike tree first second)
    : first.Ends (Located tree holds) a → second.Ends (Located tree holds) a := by
  induction h with
  | done same =>
    intro hends
    rw [(same a).1 (Loader.ends_done hends)]
    exact .done
  | ask locate_eq _ ih =>
    rintro (_ | ⟨⟨location, hlocation, hfound⟩, hends⟩)
    exact .ask ⟨location, locate_eq ▸ hlocation, hfound⟩ (ih _ hends)

end Inquiry

namespace Loader

open Inquiry Relation

variable {loader : Loader} {met : Path → Prop} {memo : Memo}

def candidate (path : Path) (parent : Parent) : Path :=
  (path.parent?.getD ⟨"."⟩).join ⟨parent.relativePath.getD defaultParentPath⟩

def candidateFile (loader : Loader) (path : Path) (parent : Parent) : Path :=
  if loader.tree.isDirectory (candidate path parent) then (candidate path parent).child fileName
  else candidate path parent

/--
Whether the way from a descriptor to its parent in the project makes no path that is too long.
-/
def Short (loader : Loader) (path : Path) : Prop :=
  ∀ model parent, loader.modelAt path = .ok model → model.parent = some parent →
    parent.relativePath ≠ some "" →
      FileTree.isUsable (candidate path parent) = true
        ∧ FileTree.isUsable (loader.candidateFile path parent) = true

theorem parentFile?_eq (loader : Loader) (path : Path) (parent : Parent)
    : loader.parentFile? path parent
        =
      if parent.relativePath = some "" then none
      else if loader.tree.isFile (loader.candidateFile path parent) then
        some (loader.candidateFile path parent)
      else none := by
  have hempty : (parent.relativePath.getD defaultParentPath).isEmpty = true
      ↔ parent.relativePath = some "" := by
    cases parent.relativePath with
    | none => decide
    | some relative => rw [Option.getD_some, String.isEmpty_iff, Option.some.injEq]
  rw [parentFile?]
  by_cases h : parent.relativePath = some ""
  . rw [if_pos h, if_pos (hempty.2 h)]
  . rw [if_neg h, if_neg (mt hempty.1 h)]
    rfl

theorem isDirectory_congr {tree : FileTree} {path other : Path}
    (h : tree.locate? path = tree.locate? other)
    : tree.isDirectory path = tree.isDirectory other := by
  rw [FileTree.isDirectory, FileTree.isDirectory, find?_eq, find?_eq, h]

theorem locate?_of_isDirectory {tree : FileTree} {path : Path} (h : tree.isDirectory path = true)
    : ∃ location, tree.locate? path = some location := by
  rw [FileTree.isDirectory, find?_eq] at h
  cases hlocate : tree.locate? path with
  | some location => exact ⟨location, rfl⟩
  | none =>
    rw [hlocate] at h
    cases h

theorem isFile_congr {tree : FileTree} {path other : Path}
    (h : tree.locate? path = tree.locate? other)
    : tree.isFile path = tree.isFile other := by
  rw [FileTree.isFile, FileTree.isFile, find?_eq, find?_eq, h]

theorem parentFile?_congr {path other : Path} {location : List String} {model : Model}
    {parent : Parent} (hpath : loader.tree.locate? path = some location)
    (hother : loader.tree.locate? other = some location) (hmodel : loader.modelAt path = .ok model)
    (hshort : loader.Short path) (hshort' : loader.Short other)
    (hparent : model.parent = some parent)
    : Option.Rel (fun file file' => loader.tree.locate? file = loader.tree.locate? file')
        (loader.parentFile? path parent) (loader.parentFile? other parent) := by
  rw [parentFile?_eq, parentFile?_eq]
  by_cases hrelative : parent.relativePath = some ""
  . rw [if_pos hrelative, if_pos hrelative]
    exact .none
  . have hmodel' := modelAt_of_locate? hpath hother hmodel
    rcases hshort model parent hmodel hparent hrelative with ⟨husable, hchild⟩
    rcases hshort' model parent hmodel' hparent hrelative with ⟨husable', hchild'⟩
    rcases standing?_of_modelAt hpath hmodel with ⟨bytes, hbytes⟩
    have hcandidate : loader.tree.locate? (candidate path parent)
        = loader.tree.locate? (candidate other parent) :=
      FileTree.locate?_join_parent_eq hpath hother (by rw [hbytes]; nofun) husable husable'
    have hdirectory := isDirectory_congr hcandidate
    have hfile : loader.tree.locate? (loader.candidateFile path parent)
        = loader.tree.locate? (loader.candidateFile other parent) := by
      rw [candidateFile] at hchild hchild' ⊢
      rw [candidateFile, ← hdirectory]
      rw [← hdirectory] at hchild'
      split
      . next his =>
        rw [if_pos his] at hchild hchild'
        rcases locate?_of_isDirectory his with ⟨target, htarget⟩
        have hname : '/' ∉ fileName.toList := by decide
        rw [FileTree.locate?_child htarget hname hchild,
          FileTree.locate?_child (hcandidate.symm.trans htarget) hname hchild']
      . exact hcandidate
    rw [if_neg hrelative, if_neg hrelative, isFile_congr hfile]
    split
    . exact .some hfile
    . exact .none

/--
Whether the paths that lead to a file lead on to one candidate for its parent in the project.
-/
def Uniform (loader : Loader) (met : Path → Prop) : Prop :=
  ∀ path other location model parent, met path → met other →
    loader.tree.locate? path = some location → loader.tree.locate? other = some location →
    loader.modelAt path = .ok model → model.parent = some parent →
      Option.Rel (fun file file' => loader.tree.locate? file = loader.tree.locate? file')
        (loader.parentFile? path parent) (loader.parentFile? other parent)

theorem uniform_of_short (h : ∀ path, met path → loader.Short path) : loader.Uniform met :=
  fun path other _ _ _ hpath hother hlocate hlocate' hmodel hparent =>
    parentFile?_congr hlocate hlocate' hmodel (h path hpath) (h other hother) hparent

theorem uniform_of_parentFile? (h : ∀ path model parent, met path →
      loader.modelAt path = .ok model → model.parent = some parent →
      loader.parentFile? path parent = none)
    : loader.Uniform met := by
  intro path other location model parent hpath hother hlocate hlocate' hmodel hparent
  rw [h path model parent hpath hmodel hparent,
    h other model parent hother (modelAt_of_locate? hlocate hlocate' hmodel) hparent]
  exact .none

theorem alike_inquiry (huniform : loader.Uniform met) {path other : Path} {location : List String}
    {model : Model} (hmet : met path) (hother : met other)
    (hlocate : loader.tree.locate? path = some location)
    (hlocate' : loader.tree.locate? other = some location) (hmodel : loader.modelAt path = .ok model)
    : Alike loader.tree (loader.inquiry path model) (loader.inquiry other model) := by
  have hbelow : ∀ parent, Alike loader.tree (loader.inquiryBelow path model parent)
      (loader.inquiryBelow other model parent) := by
    intro parent
    apply Alike.bind
    . apply Alike.done
      intro c
      rw [coordinateOf_eq_ok, coordinateOf_eq_ok]
    . exact fun _ => .refl _
  rw [inquiry, inquiry]
  split
  . exact hbelow none
  . next parent hparent =>
    apply Alike.bind _ fun found => hbelow (some found)
    have hfile := huniform path other location model parent hmet hother hlocate hlocate' hmodel hparent
    rw [parentInquiry, parentInquiry]
    generalize loader.parentFile? path parent = file at hfile ⊢
    generalize loader.parentFile? other parent = file' at hfile ⊢
    cases hfile with
    | none => exact .refl _
    | some hsame => exact .ask hsame fun _ => .refl _

def Needs (loader : Loader) (met : Path → Prop) (location needed : List String) : Prop :=
  ∃ path asked, met path ∧ loader.tree.locate? path = some location ∧ loader.Asks met path asked
    ∧ loader.tree.locate? asked = some needed

section

variable (huniform : loader.Uniform met)

include huniform

theorem ends_of_met {path other : Path} {location : List String} {model : Model} {found : Effective}
    {answers : List String → Effective → Prop} (hmet : met path)
    (hlocate : loader.tree.locate? path = some location) (hmodel : loader.modelAt path = .ok model)
    (hends : (loader.inquiry path model).Ends (Located loader.tree answers) found)
    (hother : met other) (hlocate' : loader.tree.locate? other = some location)
    : loader.modelAt other = .ok model
        ∧ (loader.inquiry other model).Ends (Located loader.tree answers) found :=
  ⟨modelAt_of_locate? hlocate hlocate' hmodel,
    (alike_inquiry huniform hmet hother hlocate hlocate' hmodel).ends hends⟩

theorem Obtains.unique {location : List String} {found : Effective}
    (h : loader.Obtains met location found)
    : ∀ {other : Effective}, loader.Obtains met location other → found = other := by
  induction h with
  | intro hmet hlocate hmodel hends _ ih =>
    intro other h
    cases h with
    | intro hmet' hlocate' hmodel' hends' hobtains' =>
      rcases ends_of_met huniform hmet hlocate hmodel hends hmet' hlocate' with ⟨hsame, hends⟩
      obtain rfl := Except.ok.inj (hsame.symm.trans hmodel')
      refine hends.unique ?_ hends'
      rintro asked answer answer' ⟨target, htarget, hanswer⟩ ⟨target', htarget', hanswer'⟩
      obtain rfl := Option.some.inj (htarget.symm.trans htarget')
      exact ih _ _ hanswer (hobtains' _ _ hanswer')

theorem Obtains.acc {location : List String} {found : Effective}
    (h : loader.Obtains met location found)
    : Acc (Function.swap (loader.Needs met)) location := by
  induction h with
  | @intro path location model found answers hmet hlocate hmodel hends hobtains ih =>
    constructor
    rintro needed ⟨other, asked, hother, hlocate', ⟨model', hmodel', hasks⟩, hneeded⟩
    rcases ends_of_met huniform hmet hlocate hmodel hends hother hlocate' with ⟨hsame, hends⟩
    obtain rfl := Except.ok.inj (hsame.symm.trans hmodel')
    have hone : ∀ path found found', Located loader.tree answers path found →
        Located loader.tree (loader.Obtains met) path found' → found = found' := by
      rintro path found found' ⟨target, htarget, hanswer⟩ ⟨target', htarget', hanswer'⟩
      obtain rfl := Option.some.inj (htarget.symm.trans htarget')
      exact (hobtains _ _ hanswer).unique huniform hanswer'
    rcases hends.answered hone hasks with ⟨answer, target, htarget, hanswer⟩
    obtain rfl := Option.some.inj (hneeded.symm.trans htarget)
    exact ih _ _ hanswer

theorem Obtains.not_needs {location : List String} {found : Effective}
    (h : loader.Obtains met location found)
    : ¬ TransGen (loader.Needs met) location location := by
  -- What is needed comes before in the order in which files give descriptors.
  have hacc := (h.acc huniform).transGen
  clear h
  intro hcycle
  rw [← transGen_swap] at hcycle
  induction hacc with
  | intro location _ ih => exact ih location hcycle hcycle

theorem run_loadWithin_of_obtains (hclosed : loader.Closed met) (steps : Nat)
    : ∀ (visiting : List (List String)) (path : Path) (memo : Memo) (location : List String)
        (found : Effective),
        Room loader.tree steps visiting → met path → loader.Sound met memo →
        loader.tree.locate? path = some location → loader.Obtains met location found →
        (∀ above ∈ visiting, ¬ ReflTransGen (loader.Needs met) location above) →
          ((loader.loadWithin steps visiting path).run memo).1 = .ok found := by
  induction steps with
  | zero => exact fun _ _ _ _ _ hroom => absurd hroom.pos (Nat.lt_irrefl 0)
  | succ steps ih =>
    intro visiting path memo location found hroom hmet hmemo hlocate hfound hvisiting
    cases hlookup : memo.lookup location with
    | some other =>
      rw [run_loadWithin_found hlocate hlookup,
        (hmemo location other hlookup).unique huniform hfound]
    | none =>
      have hnew : location ∉ visiting := fun hmem => hvisiting location hmem .refl
      have hends : ∃ model, loader.modelAt path = .ok model ∧ (loader.inquiry path model).Ends
          (Located loader.tree (loader.Obtains met)) found := by
        cases hfound with
        | intro hmet' hlocate' hmodel hends hobtains =>
          rcases ends_of_met huniform hmet' hlocate' hmodel hends hmet hlocate with ⟨hmodel, hends⟩
          refine ⟨_, hmodel, hends.mono ?_⟩
          rintro asked answer ⟨target, htarget, hanswer⟩
          exact ⟨target, htarget, hobtains _ _ hanswer⟩
      rcases hends with ⟨model, hmodel, hends⟩
      rw [fst_loadWithin_new hlocate hlookup hnew hmodel]
      refine run_of_ends hends ?_ memo hmemo
      rintro asked answer hasked ⟨target, htarget, hanswer⟩ between hbetween
      have hasks : loader.Asks met path asked := ⟨model, hmodel, hasked⟩
      have hneeds : loader.Needs met location target := ⟨path, asked, hmet, hlocate, hasks, htarget⟩
      have hmet' := hclosed path asked hmet hasks
      refine ⟨?_, (sound_loadWithin hclosed steps _ asked between hmet' hbetween).1⟩
      apply ih _ asked between target answer (hroom.next hlocate hnew hmodel) hmet' hbetween htarget
        hanswer
      intro above habove hreaches
      rcases List.mem_cons.1 habove with rfl | habove
      . exact hfound.not_needs huniform (.head' hneeds hreaches)
      . exact hvisiting above habove (hreaches.head hneeds)

theorem loadWithin_agree_of_obtains (hclosed : loader.Closed met) {steps : Nat}
    {visiting : List (List String)} {path : Path} {memo other : Memo} {location : List String}
    {found : Effective} (hroom : Room loader.tree steps visiting) (hmet : met path)
    (hmemo : loader.Sound met memo) (hother : loader.Sound met other)
    (hlocate : loader.tree.locate? path = some location)
    (hfound : loader.Obtains met location found)
    (hvisiting : ∀ above ∈ visiting, TransGen (loader.Needs met) above location)
    : ((loader.loadWithin steps visiting path).run memo).1
        = ((loader.loadWithin steps visiting path).run other).1 := by
  have hfree : ∀ above ∈ visiting, ¬ ReflTransGen (loader.Needs met) location above :=
    fun above habove hreaches =>
      hfound.not_needs huniform (.trans_right hreaches (hvisiting above habove))
  rw [run_loadWithin_of_obtains huniform hclosed _ _ _ _ _ _ hroom hmet hmemo hlocate hfound hfree,
    run_loadWithin_of_obtains huniform hclosed _ _ _ _ _ _ hroom hmet hother hlocate hfound hfree]

theorem loadWithin_agree (hclosed : loader.Closed met) (steps : Nat)
    : ∀ (visiting : List (List String)) (path : Path) (memo other : Memo),
        Room loader.tree steps visiting → met path → loader.Sound met memo →
        loader.Sound met other →
        (∀ location, loader.tree.locate? path = some location →
          ∀ above ∈ visiting, TransGen (loader.Needs met) above location) →
          ((loader.loadWithin steps visiting path).run memo).1
            = ((loader.loadWithin steps visiting path).run other).1 := by
  induction steps with
  | zero => exact fun _ _ _ _ hroom => absurd hroom.pos (Nat.lt_irrefl 0)
  | succ steps ih =>
    intro visiting path memo other hroom hmet hmemo hother hvisiting
    cases hlocate : loader.tree.locate? path with
    | none => rw [run_loadWithin, run_loadWithin, hlocate]
    | some location =>
      have hvisiting := hvisiting location hlocate
      by_cases hobtains : ∃ found, loader.Obtains met location found
      . rcases hobtains with ⟨found, hfound⟩
        exact loadWithin_agree_of_obtains huniform hclosed hroom hmet hmemo hother hlocate hfound
          hvisiting
      . have hforgotten : ∀ {memo : Memo}, loader.Sound met memo → memo.lookup location = none := by
          intro memo hmemo
          rw [Option.eq_none_iff_forall_ne_some]
          exact fun found hlookup => hobtains ⟨found, hmemo location found hlookup⟩
        by_cases hnew : location ∈ visiting
        . rw [run_loadWithin, run_loadWithin, hlocate]
          dsimp only
          rw [hforgotten hmemo, hforgotten hother]
          simp only [if_pos hnew]
        . cases hmodel : loader.modelAt path with
          | error error =>
            rw [run_loadWithin, run_loadWithin, hlocate]
            dsimp only
            rw [hforgotten hmemo, hforgotten hother, hmodel]
            simp only [if_neg hnew]
          | ok model =>
            have hmet' : ∀ asked, (loader.inquiry path model).Asks
                (Located loader.tree (loader.Obtains met)) asked → met asked :=
              fun asked hasked => hclosed path asked hmet ⟨model, hmodel, hasked⟩
            rw [fst_loadWithin_new hlocate (hforgotten hmemo) hnew hmodel,
              fst_loadWithin_new hlocate (hforgotten hother) hnew hmodel]
            refine run_agree _ (fun asked hasked memo hmemo =>
              sound_loadWithin hclosed steps _ asked memo (hmet' asked hasked) hmemo) ?_ memo other
              hmemo hother
            intro asked hasked between between' hbetween hbetween'
            apply ih _ asked between between' (hroom.next hlocate hnew hmodel) (hmet' asked hasked)
              hbetween hbetween'
            intro target htarget above habove
            have hneeds : loader.Needs met location target :=
              ⟨path, asked, hmet, hlocate, ⟨model, hmodel, hasked⟩, htarget⟩
            rcases List.mem_cons.1 habove with rfl | habove
            . exact .single hneeds
            . exact (hvisiting above habove).tail hneeds

end

theorem asks_inquiry {answers : Path → Effective → Prop} {path asked : Path} {model : Model}
    (h : (loader.inquiry path model).Asks answers asked)
    : (∃ parent, model.parent = some parent
          ∧ (loader.parentFile? path parent = some asked ∨ asked = loader.published parent))
        ∨ ∃ entry ∈ model.management, isImport entry = true ∧ ∃ c properties group artifact version,
          nameOf c properties entry = .ok (group, artifact)
            ∧ resolve? properties entry.version = some version
            ∧ asked = loader.pathOf group artifact version := by
  have hbelow : ∀ parent, (loader.inquiryBelow path model parent).Asks answers asked →
      ∃ entry ∈ model.management, isImport entry = true ∧ ∃ c properties group artifact version,
        nameOf c properties entry = .ok (group, artifact)
          ∧ resolve? properties entry.version = some version
          ∧ asked = loader.pathOf group artifact version := by
    intro parent h
    rcases h.of_bind with h | ⟨c, _, h⟩
    . cases h
    . rcases h.of_bind with h | ⟨_, _, h⟩
      . rcases h.of_forAll with ⟨entry, hentry, h⟩
        rcases asks_importInquiry h with ⟨himport, group, artifact, version, hasked⟩
        exact ⟨entry, hentry, himport, c, _, group, artifact, version, hasked⟩
      . cases h
  rw [inquiry] at h
  split at h
  . exact .inr (hbelow none h)
  . next parent hparent =>
    rcases h.of_bind with h | ⟨found, _, h⟩
    . refine .inl ⟨parent, hparent, ?_⟩
      rw [parentInquiry] at h
      split at h
      . exact .inr (asks_publishedInquiry h)
      . next file hfile =>
        cases h with
        | now => exact .inl hfile
        | later _ h =>
          dsimp only at h
          split at h
          . cases h
          . exact .inr (asks_publishedInquiry h)
    . exact .inr (hbelow _ h)

theorem asks_of_plain {answers : Path → Effective → Prop} {path asked : Path} {model : Model}
    (himports : ∀ entry ∈ model.management, isImport entry = false)
    (h : (loader.inquiry path model).Asks answers asked)
    : ∃ parent, model.parent = some parent
        ∧ (loader.parentFile? path parent = some asked ∨ asked = loader.published parent) := by
  rcases asks_inquiry h with hparent | ⟨entry, hentry, himport, _⟩
  . exact hparent
  . rw [himports entry hentry] at himport
    cases himport

theorem Obtains.mono {more : Path → Prop} (hmore : ∀ path, met path → more path)
    {location : List String} {found : Effective} (h : loader.Obtains met location found)
    : loader.Obtains more location found := by
  induction h with
  | intro hmet hlocate hmodel hends _ ih => exact .intro (hmore _ hmet) hlocate hmodel hends ih

/--
Whether a path is one that some requests or the files that they need are asked for by.
-/
def Tried (loader : Loader) (requests : List Request) (path : Path) : Prop :=
  ∀ met : Path → Prop, loader.Closed met → (∀ request ∈ requests, met (loader.pathFor request)) →
    met path

theorem closed_forall {kind : (Path → Prop) → Prop}
    : loader.Closed fun path => ∀ met : Path → Prop, loader.Closed met → kind met → met path := by
  rintro path asked hpath ⟨model, hmodel, hasks⟩ met hclosed hkind
  refine hclosed path asked (hpath met hclosed hkind) ⟨model, hmodel, hasks.mono ?_⟩
  rintro other answer ⟨target, htarget, hanswer⟩
  exact ⟨target, htarget, hanswer.mono fun path hpath => hpath met hclosed hkind⟩

theorem closed_tried (loader : Loader) (requests : List Request)
    : loader.Closed (loader.Tried requests) :=
  closed_forall

theorem perform_agree (huniform : loader.Uniform met) (hclosed : loader.Closed met)
    {request : Request} (hmet : met (loader.pathFor request)) {other : Memo}
    (hmemo : loader.Sound met memo) (hother : loader.Sound met other)
    : ((loader.perform request).run memo).1 = ((loader.perform request).run other).1 := by
  rcases run_perform loader request with hrun | ⟨error, hrun⟩
  . rw [hrun, hrun]
    exact loadWithin_agree huniform hclosed _ [] _ memo other (room_start loader.tree) hmet hmemo hother
      fun _ _ _ => nofun
  . rw [hrun, hrun]

theorem performAll_eq_map (loader : Loader) (requests : List Request)
    (hshort : ∀ path, loader.Tried requests path → loader.Short path)
    : ((loader.performAll requests).run []).1
        = requests.map fun request => ((loader.perform request).run []).1 := by
  have hclosed := closed_tried loader requests
  have hall : ∀ rest, (∀ request ∈ rest, loader.Tried requests (loader.pathFor request)) →
      ∀ memo, loader.Sound (loader.Tried requests) memo →
        ((loader.performAll rest).run memo).1
          = rest.map fun request => ((loader.perform request).run []).1 := by
    intro rest
    induction rest with
    | nil => exact fun _ _ _ => rfl
    | cons request rest ih =>
      intro htried memo hmemo
      rw [List.forall_mem_cons] at htried
      rw [run_performAll_cons, List.map_cons,
        perform_agree (uniform_of_short hshort) hclosed htried.1 (sound_nil _ _) hmemo]
      exact congrArg (_ :: ·) (ih htried.2 _ (sound_perform hclosed htried.1 hmemo).1)
  apply hall requests _ [] (sound_nil _ _)
  exact fun request hmem met _ hrequests => hrequests request hmem

end Loader

end ArtifactAudit.Pom
