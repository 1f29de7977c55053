import Mathlib.Data.List.Induction
import ArtifactAudit.Proofs.FileTree
import ArtifactAudit.Proofs.Text.Parts

/-!
This module contains the theory of the changes of file trees by paths: the place that a path leads to,
and what a change of the file there leaves at all locations.
-/

namespace ArtifactAudit

namespace Text

theorem cutLast?_go {sep : Char} {cs : List Char} (h : sep ∉ cs) (before : List Char)
    : ∀ after, cutLast?.go sep after (cs.reverse ++ before)
        = cutLast?.go sep (cs ++ after) before := by
  induction cs using List.reverseRecOn with
  | nil => exact fun _ => rfl
  | append_singleton cs c ih =>
    intro after
    rw [List.mem_append, not_or, List.mem_singleton] at h
    rw [List.reverse_append, List.reverse_singleton, List.append_assoc, List.singleton_append,
      cutLast?.go, if_neg (Ne.symm h.2), ih h.1, List.append_assoc, List.singleton_append]

theorem cutLast?_of_notMem {sep : Char} {s : String} (h : sep ∉ s.toList)
    : cutLast? sep s = none := by
  have hgo := cutLast?_go h [] []
  rw [List.append_nil] at hgo
  rw [cutLast?, hgo]
  rfl

theorem cutLast?_append {sep : Char} (front : String) {s : String} (h : sep ∉ s.toList)
    : cutLast? sep (front ++ String.singleton sep ++ s) = some (front, s) := by
  rw [cutLast?, String.toList_append, String.toList_append, String.toList_singleton,
    List.append_assoc, List.singleton_append, List.reverse_append, List.reverse_cons,
    List.append_assoc, cutLast?_go h, List.singleton_append, cutLast?.go, if_pos rfl]
  simp

end Text

namespace Path

/--
Whether a path ends in a plain name behind a front, which is empty or ends with a slash.
-/
structure Splits (path : Path) (front name : String) : Prop where
  text_eq : path.text = front ++ name
  front_eq : front = "" ∨ ∃ rest, front = rest ++ "/"
  noSlash : '/' ∉ name.toList
  notIdle : isIdle name = false
  notUp : name ≠ ".."

variable {path : Path} {front name : String}

theorem Splits.name_ne (h : path.Splits front name) : name.toList ≠ [] := by
  intro hempty
  have hidle := h.notIdle
  rw [String.toList_eq_nil_iff] at hempty
  subst hempty
  cases hidle

theorem Splits.parts_eq (h : path.Splits front name)
    : ∃ before, Text.parts '/' front = before ++ [""]
        ∧ Text.parts '/' path.text = before ++ [name] := by
  rw [h.text_eq]
  rcases h.front_eq with rfl | ⟨rest, rfl⟩
  . exact ⟨[], by decide, by rw [String.empty_append, Text.parts_of_notMem h.noSlash]; rfl⟩
  . refine ⟨Text.parts '/' rest, ?_, ?_⟩
    . exact Text.parts_concat '/' rest
    . have hparts := Text.parts_append '/' rest name
      rwa [Text.parts_of_notMem h.noSlash] at hparts

theorem Splits.isAbsolute_eq (h : path.Splits front name)
    : path.isAbsolute = isAbsolute ⟨front⟩ := by
  unfold isAbsolute
  rw [h.text_eq, String.toList_append]
  rcases h.front_eq with rfl | ⟨rest, rfl⟩
  . rcases List.exists_cons_of_ne_nil h.name_ne with ⟨c, cs, hname⟩
    have hc : c ≠ '/' := by
      rintro rfl
      exact h.noSlash (by rw [hname]; exact List.mem_cons_self)
    rw [hname]
    simp [hc]
  . rw [String.toList_append, List.append_assoc]
    cases rest.toList <;> rfl

theorem Splits.trimmed_eq (h : path.Splits front name)
    : (path.text.toList.reverse.dropWhile (· = '/')).reverse = path.text.toList := by
  rw [h.text_eq, String.toList_append, List.reverse_append]
  rcases List.eq_nil_or_concat name.toList with hname | ⟨cs, c, hname⟩
  . exact absurd hname h.name_ne
  . have hc : c ≠ '/' := by
      rintro rfl
      exact h.noSlash (by rw [hname]; simp)
    rw [hname]
    simp [hc]

end Path

namespace FileTree

variable {tree : FileTree} {path : Path} {front name : String}

def inside? (tree : FileTree) (front : String) : Option (List String) :=
  tree.follow (Text.parts '/' front)
    (if Path.isAbsolute ⟨front⟩ then [] else tree.workingDirectory)

theorem follow_empty {tree : FileTree} {location target : List String}
    : tree.follow [""] location = some target
        ↔
      location = target ∧ tree.standing? target = some .directory := by
  by_cases h : tree.standing? location = some .directory
  . rw [follow_cons _ _ h, if_pos (by decide), follow_nil, Option.some.injEq]
    constructor
    . rintro rfl
      exact ⟨rfl, h⟩
    . exact And.left
  . rw [follow_cons_of_ne _ _ h]
    constructor
    . nofun
    . rintro ⟨rfl, hdirectory⟩
      exact absurd hdirectory h

theorem follow_name {tree : FileTree} {name : String} {location target : List String}
    (hidle : Path.isIdle name = false) (hup : name ≠ "..")
    (hlocation : tree.standing? location = some .directory)
    : tree.follow [name] location = some target
        ↔
      target = location ++ [name] ∧ (tree.standing? target).isSome := by
  rw [follow_cons _ _ hlocation, if_neg (by rw [hidle]; simp), if_neg hup]
  split
  . next hsome =>
    rw [follow_nil, Option.some.injEq]
    constructor
    . rintro rfl
      exact ⟨rfl, hsome⟩
    . rintro ⟨rfl, _⟩
      rfl
  . next hnone =>
    constructor
    . nofun
    . rintro ⟨rfl, hsome⟩
      exact absurd hsome hnone

theorem inside?_eq_some (h : path.Splits front name) {location : List String}
    : tree.inside? front = some location
        ↔
      ∃ before, Text.parts '/' path.text = before ++ [name]
        ∧ tree.follow before (if path.isAbsolute then [] else tree.workingDirectory)
          = some location
        ∧ tree.standing? location = some .directory := by
  rcases h.parts_eq with ⟨before, hfront, hpath⟩
  rw [inside?, hfront, ← h.isAbsolute_eq, follow_append, Option.bind_eq_some_iff]
  constructor
  . rintro ⟨between, hbefore, hlast⟩
    rcases follow_empty.1 hlast with ⟨rfl, hdirectory⟩
    exact ⟨before, hpath, hbefore, hdirectory⟩
  . rintro ⟨before', hpath', hbefore, hdirectory⟩
    rw [hpath] at hpath'
    rcases List.append_inj' hpath' rfl with ⟨rfl, _⟩
    exact ⟨location, hbefore, follow_empty.2 ⟨rfl, hdirectory⟩⟩

theorem locate?_eq_some (h : path.Splits front name) (husable : isUsable path)
    {target : List String}
    : tree.locate? path = some target
        ↔
      ∃ location, tree.inside? front = some location ∧ target = location ++ [name]
        ∧ (tree.standing? target).isSome := by
  rcases h.parts_eq with ⟨before, _, hpath⟩
  rw [locate?, if_pos husable, hpath, follow_append, Option.bind_eq_some_iff]
  constructor
  . rintro ⟨location, hbefore, hname⟩
    have hdirectory : tree.standing? location = some .directory := by
      by_contra hne
      rw [follow_cons_of_ne _ _ hne] at hname
      cases hname
    rcases (follow_name h.notIdle h.notUp hdirectory).1 hname with ⟨rfl, hsome⟩
    exact ⟨location, (inside?_eq_some h).2 ⟨before, hpath, hbefore, hdirectory⟩, rfl, hsome⟩
  . rintro ⟨location, hinside, rfl, hsome⟩
    rcases (inside?_eq_some h).1 hinside with ⟨before', hpath', hbefore, hdirectory⟩
    rw [hpath] at hpath'
    rcases List.append_inj' hpath' rfl with ⟨rfl, _⟩
    exact ⟨location, hbefore, (follow_name h.notIdle h.notUp hdirectory).2 ⟨rfl, hsome⟩⟩

theorem find?_standing (tree : FileTree) (path : Path)
    : (tree.find? path).map FileNode.standing = (tree.locate? path).bind tree.standing? := by
  rw [find?, Option.map_bind]
  rfl

def found? (tree : FileTree) (path : Path) : Option Standing :=
  (tree.find? path).map FileNode.standing

theorem read?_eq_some_iff {bytes : ByteArray}
    : tree.read? path = some bytes ↔ tree.found? path = some (.file bytes) := by
  rw [read?, found?]
  cases tree.find? path with
  | none => simp
  | some node => cases node <;> simp [FileNode.standing]

theorem read?_eq_some (h : path.Splits front name) {bytes : ByteArray}
    : tree.read? path = some bytes
        ↔
      isUsable path = true ∧ ∃ location, tree.inside? front = some location
        ∧ tree.standing? (location ++ [name]) = some (.file bytes) := by
  rw [read?_eq_some_iff, found?, find?_standing, Option.bind_eq_some_iff]
  constructor
  . rintro ⟨target, hlocate, hfile⟩
    have husable : isUsable path = true := by
      by_contra hnot
      rw [locate?, if_neg hnot] at hlocate
      cases hlocate
    rcases (locate?_eq_some h husable).1 hlocate with ⟨location, hinside, rfl, _⟩
    exact ⟨husable, location, hinside, hfile⟩
  . rintro ⟨husable, location, hinside, hfile⟩
    refine ⟨_, (locate?_eq_some h husable).2 ⟨location, hinside, rfl, ?_⟩, hfile⟩
    rw [hfile]
    rfl

theorem standing?_of_inside? (h : path.Splits front name) {location : List String}
    (hinside : tree.inside? front = some location)
    : tree.standing? location = some .directory := by
  rcases (inside?_eq_some h).1 hinside with ⟨_, _, _, hdirectory⟩
  exact hdirectory

theorem KeepsDirectories.inside? {before after : FileTree} (hkeeps : KeepsDirectories before after)
    (h : path.Splits front name) {location : List String}
    (hinside : before.inside? front = some location)
    : after.inside? front = some location := by
  rw [FileTree.inside?, hkeeps.workingDirectory_eq]
  exact hkeeps.follow (standing?_of_inside? h hinside) _ hinside

theorem find?_standing_of_inside? (h : path.Splits front name) (husable : isUsable path)
    {location : List String} (hinside : tree.inside? front = some location)
    : (tree.find? path).map FileNode.standing = tree.standing? (location ++ [name]) := by
  rw [find?_standing]
  cases hstanding : tree.standing? (location ++ [name]) with
  | some standing =>
    have hsome : (tree.standing? (location ++ [name])).isSome := by rw [hstanding]; rfl
    rw [(locate?_eq_some h husable).2 ⟨location, hinside, rfl, hsome⟩, Option.bind_some, hstanding]
  | none =>
    rw [Option.bind_eq_none_iff]
    intro target hlocate
    rcases (locate?_eq_some h husable).1 hlocate with ⟨other, hother, rfl, hsome⟩
    rw [hinside, Option.some.injEq] at hother
    rw [← hother, hstanding]

theorem found?_eq {front name : String} (h : path.Splits front name)
    : tree.found? path
        = if isUsable path then
            (tree.inside? front).bind fun location => tree.standing? (location ++ [name])
          else none := by
  rw [found?, find?_standing]
  split
  . next husable =>
    cases hinside : tree.inside? front with
    | some location => rw [← find?_standing, find?_standing_of_inside? h husable hinside]; rfl
    | none =>
      rw [Option.bind_none, Option.bind_eq_none_iff]
      intro target htarget
      rcases (locate?_eq_some h husable).1 htarget with ⟨location, hlocation, _⟩
      rw [hinside] at hlocation
      cases hlocation
  . next husable =>
    rw [locate?, if_neg husable]
    rfl

theorem read?_eq_of_found?_eq {other : FileTree} (h : other.found? path = tree.found? path)
    : other.read? path = tree.read? path := by
  ext1 bytes
  rw [read?_eq_some_iff, read?_eq_some_iff, h]

theorem exists?_eq_of_found?_eq {other : FileTree} (h : other.found? path = tree.found? path)
    : other.exists? path = tree.exists? path := by
  have hexists : ∀ tree : FileTree, tree.exists? path = (tree.found? path).isSome := by
    intro tree
    rw [exists?, found?, Option.isSome_map]
  rw [hexists, hexists, h]

def cut (path : Path) : String × String :=
  let text := String.ofList (path.text.toList.reverse.dropWhile (· = '/')).reverse
  (Text.cutLast? '/' text).getD (".", text)

theorem place?_eq_locate? (tree : FileTree) (path : Path)
    : tree.place? path
        = if isUsable path then (tree.locate? ⟨(cut path).1 ++ "/"⟩).map (·, (cut path).2)
          else none := by
  unfold place? cut
  cases isUsable path with
  | false => rfl
  | true =>
    generalize (path.text.toList.reverse.dropWhile (· = '/')).reverse = text
    dsimp only
    generalize (Text.cutLast? '/' (String.ofList text)).getD (".", String.ofList text) = cut
    cases tree.locate? ⟨cut.1 ++ "/"⟩ <;> rfl

theorem isUsable_iff
    : isUsable path = true ↔ path.text ≠ "" ∧ path.text.utf8ByteSize < pathLimit := by
  rw [isUsable, Bool.and_eq_true, Bool.not_eq_true', ← Bool.not_eq_true, String.isEmpty_iff,
    decide_eq_true_iff]

theorem locate?_slash {front : String} {location : List String}
    : tree.locate? ⟨front ++ "/"⟩ = some location
        ↔
      isUsable ⟨front ++ "/"⟩ = true
        ∧ tree.follow (Text.parts '/' front)
          (if Path.isAbsolute ⟨front ++ "/"⟩ then [] else tree.workingDirectory) = some location
        ∧ tree.standing? location = some .directory := by
  have hparts : Text.parts '/' (front ++ "/") = Text.parts '/' front ++ [""] :=
    Text.parts_concat '/' front
  rw [locate?]
  split
  . next husable =>
    rw [hparts, follow_append, Option.bind_eq_some_iff]
    constructor
    . rintro ⟨between, hbetween, hlast⟩
      rcases follow_empty.1 hlast with ⟨rfl, hdirectory⟩
      exact ⟨husable, hbetween, hdirectory⟩
    . rintro ⟨_, hlocation, hdirectory⟩
      exact ⟨location, hlocation, follow_empty.2 ⟨rfl, hdirectory⟩⟩
  . next husable => simp [husable]

theorem standing?_of_locate?_slash {front : String} {location : List String}
    (h : tree.locate? ⟨front ++ "/"⟩ = some location)
    : tree.standing? location = some .directory :=
  (locate?_slash.1 h).2.2

theorem standing?_of_place? {location : List String}
    (hplace : tree.place? path = some (location, name))
    : tree.standing? location = some .directory := by
  rw [place?_eq_locate?] at hplace
  split at hplace
  . rcases Option.map_eq_some_iff.1 hplace with ⟨_, hlocate, htarget⟩
    cases htarget
    exact standing?_of_locate?_slash hlocate
  . cases hplace

theorem place?_eq (h : path.Splits front name) (husable : isUsable path)
    : tree.place? path = (tree.inside? front).map (·, name) := by
  have hcut : cut path = (Text.cutLast? '/' path.text).getD (".", path.text) := by
    rw [cut, h.trimmed_eq, String.ofList_toList]
  rw [place?_eq_locate?, if_pos husable, hcut, h.text_eq]
  rcases h.front_eq with rfl | ⟨rest, rfl⟩
  . rw [String.empty_append, Text.cutLast?_of_notMem h.noSlash, Option.getD_none]
    have hdot : tree.locate? ⟨"./"⟩ = tree.inside? "" := by
      change tree.follow [".", ""] tree.workingDirectory = tree.follow [""] tree.workingDirectory
      by_cases hdirectory : tree.standing? tree.workingDirectory = some .directory
      . rw [follow_cons _ _ hdirectory, if_pos (by decide)]
      . rw [follow_cons_of_ne _ _ hdirectory, follow_cons_of_ne _ _ hdirectory]
    exact congrArg (Option.map (·, name)) hdot
  . have hfront : isUsable ⟨rest ++ "/"⟩ = true := by
      have hlimit := (isUsable_iff.1 husable).2
      rw [h.text_eq, String.utf8ByteSize_append] at hlimit
      exact isUsable_iff.2 ⟨by simp, by dsimp only; omega⟩
    have hcut : Text.cutLast? '/' (rest ++ "/" ++ name) = some (rest, name) :=
      Text.cutLast?_append rest h.noSlash
    rw [hcut, Option.getD_some, locate?, if_pos hfront]
    rfl

/--
What a change of a tree leaves, and that the tree is seen from the same directory as before.
-/
structure Leaves (before after : FileTree) (standing : List String → Option Standing) : Prop where
  standing_eq : after.standing? = standing
  workingDirectory_eq : after.workingDirectory = before.workingDirectory

theorem isUsable_of_place? {place : List String × String} (h : tree.place? path = some place)
    : isUsable path = true := by
  by_contra hnot
  rw [place?_eq_locate?, if_neg hnot] at h
  cases h

theorem write?_eq_some (h : path.Splits front name) {bytes : ByteArray} {after : FileTree}
    (hwrite : tree.write? path bytes = some after)
    : isUsable path = true ∧ ∃ location, tree.inside? front = some location
        ∧ tree.standing? (location ++ [name]) ≠ some .directory
        ∧ Leaves tree after
          (Function.update tree.standing? (location ++ [name]) (some (.file bytes))) := by
  rw [write?] at hwrite
  rcases Option.bind_eq_some_iff.1 hwrite with ⟨⟨location, last⟩, hplace, hwrite⟩
  have husable := isUsable_of_place? hplace
  rw [place?_eq h husable, Option.map_eq_some_iff] at hplace
  rcases hplace with ⟨_, hinside, heq⟩
  cases heq
  have hdirectory := standing?_of_inside? h hinside
  have hfind := find?_standing_of_inside? h husable hinside
  refine ⟨husable, location, hinside, ?_⟩
  have hwritten : tree.standing? (location ++ [name]) ≠ some .directory
      ∧ after = tree.put location name (.file bytes) := by
    dsimp only at hwrite
    split at hwrite
    . next old hold =>
      cases hwrite
      rw [hold] at hfind
      exact ⟨by rw [← hfind]; simp [FileNode.standing], rfl⟩
    . cases hwrite
    . next hnone =>
      split at hwrite
      . cases hwrite
        rw [hnone] at hfind
        exact ⟨by rw [← hfind]; simp, rfl⟩
      . cases hwrite
  rcases hwritten with ⟨hfree, rfl⟩
  exact ⟨hfree, standing?_put hdirectory hfree rfl, rfl⟩

theorem eq_of_rename?_file {target : Path} {location location' : List String} {name' : String}
    {bytes : ByteArray} {after : FileTree}
    (hnode : tree.find? path = some (.file bytes))
    (hplace : tree.place? path = some (location, name))
    (hplace' : tree.place? target = some (location', name'))
    (hrename : tree.rename? path target = some after)
    : tree.standing? (location' ++ [name']) ≠ some .directory
      ∧ after = (tree.erase location name).put location' name' (.file bytes) := by
  simp only [rename?, hnode, hplace, hplace', Option.bind_eq_bind, Option.bind_some] at hrename
  rw [standing?, FileNode.standing?]
  generalize (tree.root.at? (location' ++ [name'])) = taken at hrename ⊢
  split at hrename
  . cases hrename
  . rcases taken with _ | old | entries <;> dsimp only at hrename
    . split at hrename
      . cases hrename
        exact ⟨by simp, rfl⟩
      . cases hrename
    . split at hrename
      . cases hrename
        exact ⟨by simp [FileNode.standing], rfl⟩
      . cases hrename
    . cases hrename

theorem rename?_eq_some (h : path.Splits front name) {target : Path} {front' name' : String}
    (h' : target.Splits front' name') {bytes : ByteArray} {after : FileTree}
    (hread : tree.read? path = some bytes) (hrename : tree.rename? path target = some after)
    : isUsable target = true ∧ ∃ location location', tree.inside? front = some location
        ∧ tree.inside? front' = some location'
        ∧ tree.standing? (location' ++ [name']) ≠ some .directory
        ∧ Leaves tree after
          (Function.update (Function.update tree.standing? (location ++ [name]) none)
            (location' ++ [name']) (some (.file bytes))) := by
  rcases (read?_eq_some h).1 hread with ⟨husable, location, hinside, hfile⟩
  have hplace : tree.place? path = some (location, name) := by
    rw [place?_eq h husable, hinside, Option.map_some]
  have hmoved := hrename
  rw [rename?] at hmoved
  rcases Option.bind_eq_some_iff.1 hmoved with ⟨node, hnode, hmoved⟩
  rcases Option.bind_eq_some_iff.1 hmoved with ⟨_, _, hmoved⟩
  rcases Option.bind_eq_some_iff.1 hmoved with ⟨place', hplace', _⟩
  have husable' := isUsable_of_place? hplace'
  have hlocated := hplace'
  rw [place?_eq h' husable', Option.map_eq_some_iff] at hlocated
  rcases hlocated with ⟨location', hinside', rfl⟩
  have hfind := find?_standing_of_inside? h husable hinside
  rw [hnode, hfile] at hfind
  cases node with
  | directory entries => cases hfind
  | file other =>
    cases hfind
    rcases eq_of_rename?_file hnode hplace hplace' hrename with ⟨hfree, rfl⟩
    have hdirectory := standing?_of_inside? h hinside
    have hdirectory' := standing?_of_inside? h' hinside'
    have hnot : tree.standing? (location ++ [name]) ≠ some .directory := by
      rw [hfile]
      simp
    have herase := standing?_erase hdirectory hnot
    have hne : location' ≠ location ++ [name] := by
      rintro rfl
      exact hnot hdirectory'
    refine ⟨husable', location, location', hinside, hinside', hfree, ?_, rfl⟩
    rw [← herase]
    apply standing?_put _ _ rfl
    . rw [herase, Function.update_of_ne hne, hdirectory']
    . rw [herase, Function.update_apply]
      split
      . simp
      . exact hfree

theorem remove?_eq_some (h : path.Splits front name) {bytes : ByteArray} {after : FileTree}
    (hread : tree.read? path = some bytes) (hremove : tree.remove? path = some after)
    : ∃ location, tree.inside? front = some location
        ∧ Leaves tree after (Function.update tree.standing? (location ++ [name]) none) := by
  rcases (read?_eq_some h).1 hread with ⟨husable, location, hinside, hfile⟩
  rw [remove?] at hremove
  rcases Option.bind_eq_some_iff.1 hremove with ⟨node, _, hremove⟩
  rcases Option.bind_eq_some_iff.1 hremove with ⟨place, hplace, hremove⟩
  rw [place?_eq h husable, hinside] at hplace
  cases hplace
  dsimp only at hremove
  split at hremove
  . cases hremove
    exact ⟨location, hinside,
      standing?_erase (standing?_of_inside? h hinside) (by rw [hfile]; simp), rfl⟩
  . cases hremove

structure Grows (before after : FileTree) : Prop where
  workingDirectory_eq : after.workingDirectory = before.workingDirectory
  standing : ∀ location standing, before.standing? location = some standing →
    after.standing? location = some standing
  file : ∀ location bytes, after.standing? location = some (.file bytes) →
    before.standing? location = some (.file bytes)

theorem Grows.refl (tree : FileTree) : Grows tree tree where
  workingDirectory_eq := rfl
  standing _ _ h := h
  file _ _ h := h

theorem Grows.trans {first second third : FileTree} (h : Grows first second)
    (h' : Grows second third)
    : Grows first third where
  workingDirectory_eq := h'.workingDirectory_eq.trans h.workingDirectory_eq
  standing location standing hstanding :=
    h'.standing location standing (h.standing location standing hstanding)
  file location bytes hfile := h.file location bytes (h'.file location bytes hfile)

theorem Grows.keepsDirectories {before after : FileTree} (h : Grows before after)
    : KeepsDirectories before after where
  workingDirectory_eq := h.workingDirectory_eq
  standing location hlocation := h.standing location _ hlocation

theorem makeDirectory_eq_made {after : FileTree} (h : tree.makeDirectory path = .made after)
    : ∃ location name, tree.place? path = some (location, name) ∧ isName name = true
        ∧ tree.standing? (location ++ [name]) = none
        ∧ Leaves tree after
          (Function.update tree.standing? (location ++ [name]) (some .directory)) := by
  rw [makeDirectory] at h
  split at h
  . split at h
    . cases h
    . next location name hplace =>
      split at h
      . next hfree =>
        cases h
        rw [Bool.and_eq_true, Option.isNone_iff_eq_none] at hfree
        have hnone : tree.standing? (location ++ [name]) = none := by
          rw [standing?, FileNode.standing?, hfree.2]
          rfl
        refine ⟨location, name, hplace, hfree.1, hnone, ?_, rfl⟩
        exact standing?_put (standing?_of_place? hplace) (by rw [hnone]; simp) rfl
      . cases h
  . cases h

theorem makeDirectory_grows {after : FileTree} (hmake : tree.makeDirectory path = .made after)
    : Grows tree after := by
  rcases makeDirectory_eq_made hmake with ⟨location, name, _, _, hnone, hmade⟩
  constructor
  . exact hmade.workingDirectory_eq
  . intro other standing hother
    rw [hmade.standing_eq, Function.update_of_ne, hother]
    rintro rfl
    rw [hnone] at hother
    cases hother
  . intro other bytes hother
    rw [hmade.standing_eq, Function.update_apply] at hother
    split at hother
    . cases hother
    . exact hother

theorem Grows.read?_eq {before after : FileTree} (hgrows : Grows before after)
    (h : path.Splits front name) {location : List String}
    (hinside : before.inside? front = some location)
    : after.read? path = before.read? path := by
  have hinside' := hgrows.keepsDirectories.inside? h hinside
  ext1 bytes
  rw [read?_eq_some h, read?_eq_some h, hinside, hinside']
  simp only [Option.some.injEq, exists_eq_left']
  constructor
  . rintro ⟨husable, hfile⟩
    exact ⟨husable, hgrows.file _ _ hfile⟩
  . rintro ⟨husable, hfile⟩
    exact ⟨husable, hgrows.standing _ _ hfile⟩

end FileTree

namespace Path

def front (directory : Path) : String :=
  if directory.text.isEmpty || Text.endsWith directory.text "/" then directory.text
  else directory.text ++ "/"

theorem text_child (directory : Path) {name : String} (h : '/' ∉ name.toList)
    : (directory.child name).text = directory.front ++ name := by
  have habsolute : isAbsolute ⟨name⟩ = false := by
    rw [isAbsolute]
    cases hname : name.toList with
    | nil => rfl
    | cons c cs =>
      have hc : c ≠ '/' := by
        rintro rfl
        exact h (by rw [hname]; exact List.mem_cons_self)
      simp [hc]
  rw [child, join, habsolute, if_neg (by decide), front]
  split <;> rfl

theorem getLast?_child (directory : Path) {name : String} {c : Char}
    (h : name.toList.getLast? = some c)
    : (directory.child name).text.toList.getLast? = some c := by
  have hne : name.toList ≠ [] := by
    intro hempty
    rw [hempty] at h
    cases h
  have happend (s : String) : (s ++ name).toList.getLast? = some c := by
    rw [String.toList_append, List.getLast?_append_of_ne_nil _ hne, h]
  rw [child, join]
  split
  . exact h
  . split
    . exact happend _
    . exact happend _

theorem front_eq (directory : Path)
    : directory.front = "" ∨ ∃ rest, directory.front = rest ++ "/" := by
  rw [front]
  split
  . next h =>
    rcases Bool.or_eq_true_iff.1 h with hempty | hslash
    . exact .inl (String.isEmpty_iff.1 hempty)
    . rcases List.isSuffixOf_iff_suffix.1 hslash with ⟨cs, hcs⟩
      refine .inr ⟨String.ofList cs, ?_⟩
      apply String.toList_inj.1
      rw [String.toList_append, String.toList_ofList, hcs]
  . exact .inr ⟨directory.text, rfl⟩

theorem notIdle_of_getLast? {name : String} {c : Char} (h : name.toList.getLast? = some c)
    (hc : c ≠ '.')
    : isIdle name = false ∧ name ≠ ".." := by
  have hne {other : String} (hother : other.toList.getLast? ≠ some c) : name ≠ other := by
    rintro rfl
    exact hother h
  refine ⟨?_, hne (by simpa using hc.symm)⟩
  rw [isIdle, Bool.or_eq_false_iff]
  constructor
  . rw [← Bool.not_eq_true, String.isEmpty_iff]
    exact hne (by simp)
  . exact beq_false_of_ne (hne (by simpa using hc.symm))

theorem splits_child (directory : Path) {name : String} {c : Char} (h : '/' ∉ name.toList)
    (hlast : name.toList.getLast? = some c) (hc : c ≠ '.')
    : (directory.child name).Splits directory.front name where
  text_eq := text_child directory h
  front_eq := front_eq directory
  noSlash := h
  notIdle := (notIdle_of_getLast? hlast hc).1
  notUp := (notIdle_of_getLast? hlast hc).2

theorem exists_lastSlash (cs : List Char)
    : ∃ before name, cs = before ++ name ∧ (before = [] ∨ ∃ rest, before = rest ++ ['/'])
        ∧ '/' ∉ name := by
  induction cs using List.reverseRecOn with
  | nil => exact ⟨[], [], rfl, .inl rfl, by simp⟩
  | append_singleton cs c ih =>
    by_cases hc : c = '/'
    . subst hc
      exact ⟨cs ++ ['/'], [], by simp, .inr ⟨cs, rfl⟩, by simp⟩
    . rcases ih with ⟨before, name, rfl, hbefore, hname⟩
      refine ⟨before, name ++ [c], by simp, hbefore, ?_⟩
      rw [List.mem_append, List.mem_singleton, not_or]
      exact ⟨hname, Ne.symm hc⟩

theorem exists_splits {path : Path} {c : Char} (h : path.text.toList.getLast? = some c)
    (hc : c ≠ '.') (hslash : c ≠ '/')
    : ∃ front name, path.Splits front name ∧ name.toList.getLast? = some c := by
  rcases exists_lastSlash path.text.toList with ⟨before, name, htext, hbefore, hname⟩
  have hne : name ≠ [] := by
    rintro rfl
    rw [htext, List.append_nil] at h
    rcases hbefore with rfl | ⟨rest, rfl⟩
    . cases h
    . rw [List.getLast?_concat, Option.some.injEq] at h
      exact hslash h.symm
  have hlast : (String.ofList name).toList.getLast? = some c := by
    rw [htext, List.getLast?_append_of_ne_nil _ hne] at h
    rw [String.toList_ofList, h]
  refine ⟨String.ofList before, String.ofList name, ⟨?_, ?_, ?_, ?_, ?_⟩, hlast⟩
  . rw [← String.ofList_append, ← htext, String.ofList_toList]
  . rcases hbefore with rfl | ⟨rest, rfl⟩
    . exact .inl rfl
    . exact .inr ⟨String.ofList rest, String.ofList_append⟩
  . rw [String.toList_ofList]
    exact hname
  . exact (notIdle_of_getLast? hlast hc).1
  . exact (notIdle_of_getLast? hlast hc).2

end Path

namespace FileTree

open Function

theorem update_directory {standing : List String → Option Standing} {location other : List String}
    (h : standing location ≠ some .directory) (hother : standing other = some .directory)
    (value : Option Standing)
    : update standing location value other = some .directory := by
  rw [update_of_ne, hother]
  rintro rfl
  exact h hother

theorem update_ne_directory {standing : List String → Option Standing} {value : Option Standing}
    {other : List String} (h : value ≠ some .directory) (hother : standing other ≠ some .directory)
    (location : List String)
    : update standing location value other ≠ some .directory := by
  rw [update_apply]
  split
  . exact h
  . exact hother

end FileTree

end ArtifactAudit
