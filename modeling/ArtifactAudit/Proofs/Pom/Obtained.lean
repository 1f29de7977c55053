import ArtifactAudit.Proofs.FileTree.Files
import ArtifactAudit.Proofs.FileTree.Places
import ArtifactAudit.Proofs.Pom.Inquiry

/-!
This module contains what loading gives, told without what is remembered and without what is being
loaded meanwhile: the descriptor of a file is made of the descriptors that it asks for. All that is
loaded or remembered is such a descriptor, and the bound on the steps of loading is never met.
-/

namespace ArtifactAudit.Pom

variable {α : Type}

namespace Inquiry

theorem run_ask (load : Path → Loading Effective) (path : Path) (next : Effective → Inquiry α)
    (memo : Memo)
    : ((ask path next).run load).run memo
        =
      match (load path).run memo with
      | (.ok found, after) => ((next found).run load).run after
      | (.error error, after) => (.error error, after) := by
  rw [run, Loading.run_bind]
  rcases (load path).run memo with ⟨error | found, after⟩ <;> rfl

/--
What loading keeps is kept by an inquiry, which ends with the answers that are loaded. It fails by
itself or because something that it asks for fails.
-/
theorem run_spec {good : Memo → Prop} {load : Path → Loading Effective}
    {answers : Path → Effective → Prop}
    : ∀ (inquiry : Inquiry α),
        (∀ path, inquiry.Asks answers path → ∀ memo, good memo →
          good ((load path).run memo).2
            ∧ ∀ found, ((load path).run memo).1 = .ok found → answers path found)
          →
        ∀ memo, good memo →
          good ((inquiry.run load).run memo).2
            ∧ (∀ a, ((inquiry.run load).run memo).1 = .ok a → inquiry.Ends answers a)
            ∧ ∀ error, ((inquiry.run load).run memo).1 = .error error →
              inquiry.Fails answers error
                ∨ ∃ path between, inquiry.Asks answers path ∧ good between
                  ∧ ((load path).run between).1 = .error error
  | .done (.ok a), _, memo, hmemo => by
    refine ⟨hmemo, ?_, fun _ => nofun⟩
    intro b heq
    cases heq
    exact .done
  | .done (.error error), _, memo, hmemo => by
    refine ⟨hmemo, fun _ => nofun, ?_⟩
    intro other heq
    cases heq
    exact .inl .done
  | .ask path next, hload, memo, hmemo => by
    rcases hload path .now memo hmemo with ⟨hafter, hanswer⟩
    rw [run_ask]
    rcases hrun : (load path).run memo with ⟨error | found, after⟩
    . refine ⟨by rwa [hrun] at hafter, fun _ => nofun, ?_⟩
      intro other heq
      cases heq
      exact .inr ⟨path, memo, .now, hmemo, by rw [hrun]⟩
    . rw [hrun] at hafter hanswer
      have hfound := hanswer found rfl
      have hnext : ∀ asked, (next found).Asks answers asked → ∀ memo, good memo →
          good ((load asked).run memo).2
            ∧ ∀ found, ((load asked).run memo).1 = .ok found → answers asked found :=
        fun asked hasked => hload asked (.later hfound hasked)
      rcases run_spec (next found) hnext after hafter with ⟨hgood, hends, hfails⟩
      refine ⟨hgood, fun a heq => .ask hfound (hends a heq), ?_⟩
      intro error heq
      rcases hfails error heq with hfails | ⟨asked, between, hasked, hbetween, hfailed⟩
      . exact .inl (.ask hfound hfails)
      . exact .inr ⟨asked, between, .later hfound hasked, hbetween, hfailed⟩

theorem run_agree {good : Memo → Prop} {load : Path → Loading Effective}
    {answers : Path → Effective → Prop}
    : ∀ (inquiry : Inquiry α),
        (∀ path, inquiry.Asks answers path → ∀ memo, good memo →
          good ((load path).run memo).2
            ∧ ∀ found, ((load path).run memo).1 = .ok found → answers path found)
          →
        (∀ path, inquiry.Asks answers path → ∀ memo other, good memo → good other →
          ((load path).run memo).1 = ((load path).run other).1)
          →
        ∀ memo other, good memo → good other →
          ((inquiry.run load).run memo).1 = ((inquiry.run load).run other).1
  | .done _, _, _, _, _, _, _ => rfl
  | .ask path next, hload, hsame, memo, other, hmemo, hother => by
    have heq := hsame path .now memo other hmemo hother
    have hspec := hload path .now
    rw [run_ask, run_ask]
    rcases hrun : (load path).run memo with ⟨answer, after⟩
    rcases hrun' : (load path).run other with ⟨answer', after'⟩
    rw [hrun, hrun'] at heq
    dsimp only at heq
    subst heq
    cases answer with
    | error error => rfl
    | ok found =>
      have hafter := hspec memo hmemo
      have hafter' := (hspec other hother).1
      rw [hrun] at hafter
      rw [hrun'] at hafter'
      have hfound := hafter.2 found rfl
      exact run_agree (next found) (fun asked hasked => hload asked (.later hfound hasked))
        (fun asked hasked => hsame asked (.later hfound hasked)) after after' hafter.1 hafter'

theorem run_of_ends {good : Memo → Prop} {load : Path → Loading Effective}
    {answers : Path → Effective → Prop} {inquiry : Inquiry α} {a : α}
    (h : inquiry.Ends answers a)
    : (∀ path found, inquiry.Asks answers path → answers path found → ∀ memo, good memo →
        ((load path).run memo).1 = .ok found ∧ good ((load path).run memo).2)
        →
      ∀ memo, good memo → ((inquiry.run load).run memo).1 = .ok a := by
  induction h with
  | done => exact fun _ _ _ => rfl
  | @ask path next found a answer _ ih =>
    intro hload memo hmemo
    rcases hload path found .now answer memo hmemo with ⟨heq, hafter⟩
    rw [run_ask]
    rcases hrun : (load path).run memo with ⟨result, after⟩
    rw [hrun] at heq hafter
    dsimp only at heq
    subst heq
    exact ih (fun asked found hasked => hload asked found (.later answer hasked)) after hafter

end Inquiry

theorem coordinateOf_eq_ok {path : Path} {model : Model} {parent : Option Effective} {c : Coordinate}
    : coordinateOf path model parent = .ok c
        ↔
      ∃ group artifact version,
        (model.group <|> parent.map (·.coordinate.group)).bind
            (resolve (addProperties (inherited parent) model.properties)) = some group
          ∧ model.artifact = some artifact
          ∧ (model.version <|> parent.map (·.coordinate.version)).bind
            (resolve (addProperties (inherited parent) model.properties)) = some version
          ∧ c = .withPackaging group artifact version
            (model.packaging.getD Coordinate.defaultPackaging) := by
  rw [coordinateOf]
  generalize (model.group <|> parent.map (·.coordinate.group)) = group
  generalize (model.version <|> parent.map (·.coordinate.version)) = version
  generalize addProperties (inherited parent) model.properties = properties
  cases group with
  | none => simp [required, bind, Except.bind]
  | some group =>
    cases model.artifact with
    | none => simp [required, bind, Except.bind]
    | some artifact =>
      cases version with
      | none => simp [required, bind, Except.bind]
      | some version =>
        cases hgroup : resolve properties group with
        | none => simp [required, bind, Except.bind, hgroup]
        | some group =>
          cases hversion : resolve properties version with
          | none => simp [required, bind, Except.bind, hgroup, hversion]
          | some version =>
            simp [required, bind, Except.bind, hgroup, hversion, pure, Except.pure, eq_comm]

inductive Request where
  | file (path : Path)
  | coordinate (c : Coordinate)

def Located (tree : FileTree) (holds : List String → Effective → Prop) (path : Path)
    (found : Effective)
    : Prop :=
  ∃ location, tree.locate? path = some location ∧ holds location found

namespace Loader

/--
Whether the file at a location gives a descriptor if it is asked for by one of some paths, and so is
all that it asks for.
-/
inductive Obtains (loader : Loader) (met : Path → Prop) : List String → Effective → Prop where
  | intro {path : Path} {location : List String} {model : Model} {found : Effective}
    {answers : List String → Effective → Prop} (met_path : met path)
    (locate_eq : loader.tree.locate? path = some location)
    (model_eq : loader.modelAt path = .ok model)
    (ends : (loader.inquiry path model).Ends (Located loader.tree answers) found)
    (obtains : ∀ other answer, answers other answer → Obtains loader met other answer)
    : Obtains loader met location found

def Asks (loader : Loader) (met : Path → Prop) (path asked : Path) : Prop :=
  ∃ model, loader.modelAt path = .ok model
    ∧ (loader.inquiry path model).Asks (Located loader.tree (loader.Obtains met)) asked

/--
Whether what is asked for by one of some paths has one of these paths as well.
-/
def Closed (loader : Loader) (met : Path → Prop) : Prop :=
  ∀ path asked, met path → loader.Asks met path asked → met asked

/--
Whether all that is remembered is what its file gives.
-/
def Sound (loader : Loader) (met : Path → Prop) (memo : Memo) : Prop :=
  ∀ location found, memo.lookup location = some found → loader.Obtains met location found

theorem sound_nil (loader : Loader) (met : Path → Prop) : loader.Sound met [] :=
  fun _ _ => nofun

variable {loader : Loader} {met : Path → Prop} {memo : Memo}

theorem Sound.cons (h : loader.Sound met memo) {location : List String} {found : Effective}
    (hfound : loader.Obtains met location found)
    : loader.Sound met ((location, found) :: memo) := by
  intro other answer hlookup
  rw [List.lookup_cons] at hlookup
  split at hlookup
  . next heq =>
    rw [beq_iff_eq] at heq
    rw [heq, ← Option.some.inj hlookup]
    exact hfound
  . exact h other answer hlookup

theorem run_loadWithin (loader : Loader) (steps : Nat) (visiting : List (List String)) (path : Path)
    (memo : Memo)
    : (loader.loadWithin (steps + 1) visiting path).run memo
        =
      match loader.tree.locate? path with
      | none => (.error (.provider path.text (.unreadableDescriptor "not found")), memo)
      | some location =>
        match memo.lookup location with
        | some found => (.ok found, memo)
        | none =>
          if location ∈ visiting then (.error (.provider path.text .descriptorCycle), memo)
          else
            match loader.modelAt path with
            | .error error => (.error error, memo)
            | .ok model =>
              match ((loader.inquiry path model).run
                (loader.loadWithin steps (location :: visiting))).run memo with
              | (.ok found, after) => (.ok found, (location, found) :: after)
              | (.error error, after) => (.error error, after) := by
  have hget : (get : Loading Memo).run memo = (.ok memo, memo) := rfl
  rw [loadWithin]
  cases loader.tree.locate? path with
  | none => rfl
  | some location =>
    dsimp only
    rw [Loading.run_bind, hget]
    dsimp only
    cases memo.lookup location with
    | some found => rfl
    | none =>
      dsimp only
      split
      . rfl
      . rw [Loading.run_bind, Loading.run_mk]
        cases loader.modelAt path with
        | error error => rfl
        | ok model =>
          dsimp only
          rw [Loading.run_bind, run_inquiry]
          rcases (loader.effective (loader.loadWithin steps (location :: visiting)) path model).run
            memo with ⟨error | found, after⟩ <;> rfl

theorem run_loadWithin_new {steps : Nat} {visiting : List (List String)} {path : Path}
    {location : List String} {model : Model} (hlocate : loader.tree.locate? path = some location)
    (hforgotten : memo.lookup location = none) (hnew : location ∉ visiting)
    (hmodel : loader.modelAt path = .ok model)
    : (loader.loadWithin (steps + 1) visiting path).run memo
        =
      match ((loader.inquiry path model).run
        (loader.loadWithin steps (location :: visiting))).run memo with
      | (.ok found, after) => (.ok found, (location, found) :: after)
      | (.error error, after) => (.error error, after) := by
  rw [run_loadWithin, hlocate]
  dsimp only
  rw [hforgotten]
  dsimp only
  rw [if_neg hnew, hmodel]

theorem fst_loadWithin_new {steps : Nat} {visiting : List (List String)} {path : Path}
    {location : List String} {model : Model} (hlocate : loader.tree.locate? path = some location)
    (hforgotten : memo.lookup location = none) (hnew : location ∉ visiting)
    (hmodel : loader.modelAt path = .ok model)
    : ((loader.loadWithin (steps + 1) visiting path).run memo).1
        =
      (((loader.inquiry path model).run
        (loader.loadWithin steps (location :: visiting))).run memo).1 := by
  rw [run_loadWithin_new hlocate hforgotten hnew hmodel]
  rcases ((loader.inquiry path model).run
    (loader.loadWithin steps (location :: visiting))).run memo with ⟨error | found, after⟩ <;> rfl

theorem run_loadWithin_found {steps : Nat} {visiting : List (List String)} {path : Path}
    {location : List String} {found : Effective} (hlocate : loader.tree.locate? path = some location)
    (hfound : memo.lookup location = some found)
    : (loader.loadWithin (steps + 1) visiting path).run memo = (.ok found, memo) := by
  rw [run_loadWithin, hlocate]
  dsimp only
  rw [hfound]

theorem run_loadWithin_cycle {steps : Nat} {visiting : List (List String)} {path : Path}
    {location : List String} (hlocate : loader.tree.locate? path = some location)
    (hforgotten : memo.lookup location = none) (hmem : location ∈ visiting)
    : (loader.loadWithin (steps + 1) visiting path).run memo
        = (.error (.provider path.text .descriptorCycle), memo) := by
  rw [run_loadWithin, hlocate]
  dsimp only
  rw [hforgotten]
  dsimp only
  rw [if_pos hmem]

theorem run_loadWithin_parent {steps : Nat} {visiting : List (List String)} {path file : Path}
    {location : List String} {model : Model} {parent : Parent} {error : AuditError} {after : Memo}
    (hlocate : loader.tree.locate? path = some location) (hforgotten : memo.lookup location = none)
    (hnew : location ∉ visiting) (hmodel : loader.modelAt path = .ok model)
    (hparent : model.parent = some parent) (hfile : loader.parentFile? path parent = some file)
    (hfails : (loader.loadWithin steps (location :: visiting) file).run memo = (.error error, after))
    : (loader.loadWithin (steps + 1) visiting path).run memo = (.error error, after) := by
  have hinquiry : ∃ next, loader.inquiry path model = .ask file next := by
    rw [inquiry, hparent]
    dsimp only
    rw [parentInquiry, hfile]
    exact ⟨_, rfl⟩
  rcases hinquiry with ⟨next, hinquiry⟩
  rw [run_loadWithin_new hlocate hforgotten hnew hmodel, hinquiry, Inquiry.run_ask, hfails]

theorem sound_loadWithin (hclosed : loader.Closed met) (steps : Nat)
    : ∀ (visiting : List (List String)) (path : Path) (memo : Memo), met path →
        loader.Sound met memo →
          loader.Sound met ((loader.loadWithin steps visiting path).run memo).2
            ∧ ∀ found, ((loader.loadWithin steps visiting path).run memo).1 = .ok found →
              Located loader.tree (loader.Obtains met) path found := by
  induction steps with
  | zero => exact fun _ _ _ _ hmemo => ⟨hmemo, fun _ => nofun⟩
  | succ steps ih =>
    intro visiting path memo hmet hmemo
    rw [run_loadWithin]
    split
    . exact ⟨hmemo, fun _ => nofun⟩
    . next location hlocate =>
      split
      . next found hlookup =>
        refine ⟨hmemo, ?_⟩
        intro other heq
        cases heq
        exact ⟨location, hlocate, hmemo location found hlookup⟩
      . split
        . exact ⟨hmemo, fun _ => nofun⟩
        . split
          . exact ⟨hmemo, fun _ => nofun⟩
          . next model hmodel =>
            have hload : ∀ asked, (loader.inquiry path model).Asks
                (Located loader.tree (loader.Obtains met)) asked → _ :=
              fun asked hasked memo hmemo =>
                ih (location :: visiting) asked memo (hclosed path asked hmet ⟨model, hmodel, hasked⟩)
                  hmemo
            rcases Inquiry.run_spec _ hload memo hmemo with ⟨hafter, hends, _⟩
            split
            . next found after hrun =>
              rw [hrun] at hafter hends
              have hfound : loader.Obtains met location found :=
                .intro hmet hlocate hmodel (hends found rfl) fun _ _ => id
              refine ⟨hafter.cons hfound, ?_⟩
              intro other heq
              cases heq
              exact ⟨location, hlocate, hfound⟩
            . next error after hrun =>
              rw [hrun] at hafter
              exact ⟨hafter, fun _ => nofun⟩

theorem find?_eq (tree : FileTree) (path : Path)
    : tree.find? path = (tree.locate? path).bind fun location => tree.root.at? location := rfl

theorem modelAt_of_locate? {path other : Path} {location : List String} {model : Model}
    (hpath : loader.tree.locate? path = some location)
    (hother : loader.tree.locate? other = some location) (h : loader.modelAt path = .ok model)
    : loader.modelAt other = .ok model := by
  have hread : loader.tree.readText? other = loader.tree.readText? path := by
    rw [FileTree.readText?, FileTree.readText?, FileTree.read?, FileTree.read?, find?_eq, find?_eq,
      hpath, hother]
  rw [modelAt] at h
  rw [modelAt, hread]
  split at h
  . cases h
  . split at h
    . exact h
    . cases h

theorem standing?_of_modelAt {path : Path} {location : List String} {model : Model}
    (hlocate : loader.tree.locate? path = some location) (h : loader.modelAt path = .ok model)
    : ∃ bytes, loader.tree.standing? location = some (.file bytes) := by
  have hstanding := FileTree.find?_standing loader.tree path
  rw [hlocate, Option.bind_some] at hstanding
  cases hfind : loader.tree.find? path with
  | none =>
    rw [modelAt, FileTree.readText?, FileTree.read?, hfind] at h
    cases h
  | some node =>
    rw [hfind] at hstanding
    cases node with
    | file bytes => exact ⟨bytes, hstanding.symm⟩
    | directory entries =>
      rw [modelAt, FileTree.readText?, FileTree.read?, hfind] at h
      cases h

theorem Obtains.mem_fileLocations {location : List String} {found : Effective}
    (h : loader.Obtains met location found)
    : location ∈ loader.tree.root.fileLocations := by
  cases h with
  | intro _ hlocate hmodel _ _ =>
    rcases standing?_of_modelAt hlocate hmodel with ⟨bytes, hfile⟩
    exact FileNode.mem_fileLocations hfile

/--
Whether there are steps left to load all files that are not being loaded, which are different ones.
-/
structure Room (tree : FileTree) (steps : Nat) (visiting : List (List String)) : Prop where
  nodup : visiting.Nodup
  files : ∀ location ∈ visiting, ∃ bytes, tree.standing? location = some (.file bytes)
  enough : tree.root.fileCount + 2 ≤ steps + visiting.length

theorem room_start (tree : FileTree) : Room tree (tree.root.fileCount + 2) [] where
  nodup := List.nodup_nil
  files := by simp
  enough := Nat.le_refl _

theorem Room.pos {tree : FileTree} {steps : Nat} {visiting : List (List String)}
    (h : Room tree steps visiting)
    : 0 < steps := by
  have hlength := FileTree.length_le_fileCount h.nodup h.files
  have henough := h.enough
  omega

theorem Room.next {steps : Nat} {visiting : List (List String)} {path : Path} {model : Model}
    {location : List String} (h : Room loader.tree (steps + 1) visiting)
    (hlocate : loader.tree.locate? path = some location) (hnew : location ∉ visiting)
    (hmodel : loader.modelAt path = .ok model)
    : Room loader.tree steps (location :: visiting) where
  nodup := List.nodup_cons.2 ⟨hnew, h.nodup⟩
  files := List.forall_mem_cons.2 ⟨standing?_of_modelAt hlocate hmodel, h.files⟩
  enough := by
    have henough := h.enough
    rw [List.length_cons]
    omega

theorem loadWithin_add (extra : Nat) {steps : Nat}
    : ∀ {visiting : List (List String)}, Room loader.tree steps visiting →
        loader.loadWithin (steps + extra) visiting = loader.loadWithin steps visiting := by
  induction steps with
  | zero => exact fun h => absurd h.pos (Nat.lt_irrefl 0)
  | succ steps ih =>
    intro visiting hroom
    funext path memo
    change (loader.loadWithin _ visiting path).run memo = (loader.loadWithin _ visiting path).run memo
    rw [Nat.add_right_comm, run_loadWithin, run_loadWithin]
    cases hlocate : loader.tree.locate? path with
    | none => rfl
    | some location =>
      dsimp only
      by_cases hnew : location ∈ visiting
      . simp only [if_pos hnew]
      . cases hmodel : loader.modelAt path with
        | error error => rfl
        | ok model =>
          dsimp only
          rw [ih (hroom.next hlocate hnew hmodel)]

def pathFor (loader : Loader) : Request → Path
  | .file path => path
  | .coordinate c => loader.pathOf c.group c.artifact c.version

def perform (loader : Loader) : Request → Loading Effective
  | .file path => loader.loadFile path
  | .coordinate c => loader.load c

def performAll (loader : Loader) (requests : List Request)
    : StateM Memo (List (Except AuditError Effective)) :=
  requests.mapM fun request => (loader.perform request).run

theorem run_perform (loader : Loader) (request : Request)
    : (∀ memo, (loader.perform request).run memo
          = (loader.loadFile (loader.pathFor request)).run memo)
        ∨ ∃ error, ∀ memo, (loader.perform request).run memo = (.error error, memo) := by
  cases request with
  | file path => exact .inl fun _ => rfl
  | coordinate c =>
    rw [perform, load]
    split
    . exact .inl fun _ => rfl
    . exact .inr ⟨_, fun _ => rfl⟩

theorem run_performAll_cons (loader : Loader) (request : Request) (requests : List Request)
    (memo : Memo)
    : (loader.performAll (request :: requests)).run memo
        =
      let ended := (loader.perform request).run memo
      let rest := (loader.performAll requests).run ended.2
      (ended.1 :: rest.1, rest.2) := by
  rw [performAll, List.mapM_cons]
  rfl

theorem sound_perform (hclosed : loader.Closed met) {request : Request}
    (hmet : met (loader.pathFor request)) (hmemo : loader.Sound met memo)
    : loader.Sound met ((loader.perform request).run memo).2
        ∧ ∀ found, ((loader.perform request).run memo).1 = .ok found →
          Located loader.tree (loader.Obtains met) (loader.pathFor request) found := by
  rcases run_perform loader request with hrun | ⟨error, hrun⟩
  . rw [hrun]
    exact sound_loadWithin hclosed _ [] _ memo hmet hmemo
  . rw [hrun]
    exact ⟨hmemo, fun _ => nofun⟩

theorem sound_performAll (hclosed : loader.Closed met) {requests : List Request}
    (hmet : ∀ request ∈ requests, met (loader.pathFor request))
    : ∀ {memo : Memo}, loader.Sound met memo →
        loader.Sound met ((loader.performAll requests).run memo).2 := by
  induction requests with
  | nil => exact id
  | cons request requests ih =>
    intro memo hmemo
    rw [List.forall_mem_cons] at hmet
    rw [run_performAll_cons]
    exact ih hmet.2 (sound_perform hclosed hmet.1 hmemo).1

end Loader

end ArtifactAudit.Pom
