import ArtifactAudit.Proofs.FileTree.Making

/-!
This module contains the theory of trees that differ in nothing but one file: all that paths lead to
elsewhere is the same in them.
-/

namespace ArtifactAudit

namespace FileTree

/--
Whether two trees differ in nothing but the file at one place, which may be missing in one of them.
-/
structure Apart (place : List String) (tree other : FileTree) : Prop where
  workingDirectory_eq : other.workingDirectory = tree.workingDirectory
  standing_eq : ∀ location, location ≠ place → other.standing? location = tree.standing? location
  noDirectory : tree.standing? place ≠ some .directory
  noDirectory_other : other.standing? place ≠ some .directory

variable {place : List String} {tree other : FileTree}

theorem Apart.symm (h : Apart place tree other) : Apart place other tree where
  workingDirectory_eq := h.workingDirectory_eq.symm
  standing_eq location hlocation := (h.standing_eq location hlocation).symm
  noDirectory := h.noDirectory_other
  noDirectory_other := h.noDirectory

theorem Apart.trans {third : FileTree} (h : Apart place tree other) (h' : Apart place other third)
    : Apart place tree third where
  workingDirectory_eq := h'.workingDirectory_eq.trans h.workingDirectory_eq
  standing_eq location hlocation :=
    (h'.standing_eq location hlocation).trans (h.standing_eq location hlocation)
  noDirectory := h.noDirectory
  noDirectory_other := h'.noDirectory_other

theorem Leaves.apart {value : Option Standing}
    (h : Leaves tree other (Function.update tree.standing? place value))
    (hplace : tree.standing? place ≠ some .directory) (hvalue : value ≠ some .directory)
    : Apart place tree other where
  workingDirectory_eq := h.workingDirectory_eq
  standing_eq location hlocation := by rw [h.standing_eq, Function.update_of_ne hlocation]
  noDirectory := hplace
  noDirectory_other := by rwa [h.standing_eq, Function.update_self]

theorem Apart.update_eq (h : Apart place tree other) (value : Option Standing)
    : Function.update other.standing? place value = Function.update tree.standing? place value := by
  funext location
  rw [Function.update_apply, Function.update_apply]
  split
  . rfl
  . next hlocation => exact h.standing_eq location hlocation

theorem Apart.keepsDirectories (h : Apart place tree other) : KeepsDirectories tree other where
  workingDirectory_eq := h.workingDirectory_eq
  standing location hlocation := by
    rw [h.standing_eq, hlocation]
    rintro rfl
    exact h.noDirectory hlocation

variable {path : Path} {front name : String}

theorem Apart.inside?_eq (h : Apart place tree other) (hsplits : path.Splits front name)
    : other.inside? front = tree.inside? front := by
  ext1 location
  exact ⟨h.symm.keepsDirectories.inside? hsplits, h.keepsDirectories.inside? hsplits⟩

theorem Apart.found?_eq (h : Apart place tree other) (hsplits : path.Splits front name)
    (hne : ∀ location, tree.inside? front = some location → location ++ [name] ≠ place)
    : other.found? path = tree.found? path := by
  rw [FileTree.found?_eq hsplits, FileTree.found?_eq hsplits, h.inside?_eq hsplits]
  cases hinside : tree.inside? front with
  | none => rfl
  | some location =>
    rw [Option.bind_some, Option.bind_some, h.standing_eq _ (hne location hinside)]

theorem read?_write? {bytes : ByteArray} (hsplits : path.Splits front name)
    (h : tree.write? path bytes = some other)
    : other.read? path = some bytes := by
  rcases write?_eq_some hsplits h with ⟨husable, location, hinside, hfree, hwritten⟩
  have hapart := hwritten.apart hfree nofun
  rw [read?_eq_some hsplits, hapart.inside?_eq hsplits]
  refine ⟨husable, location, hinside, ?_⟩
  rw [hwritten.standing_eq, Function.update_self]

theorem KeepsDirectories.locate? {before after : FileTree} (h : KeepsDirectories before after)
    {target : List String} (hlocate : before.locate? path = some target)
    (htarget : before.standing? target = some .directory)
    : after.locate? path = some target := by
  rw [FileTree.locate?] at hlocate ⊢
  split at hlocate
  . next husable =>
    rw [if_pos husable, h.workingDirectory_eq]
    exact h.follow htarget _ hlocate
  . cases hlocate

theorem Apart.locate?_slash_eq (h : Apart place tree other) (front : String)
    : other.locate? ⟨front ++ "/"⟩ = tree.locate? ⟨front ++ "/"⟩ := by
  ext1 target
  constructor
  . intro hlocate
    exact h.symm.keepsDirectories.locate? hlocate (standing?_of_locate?_slash hlocate)
  . intro hlocate
    exact h.keepsDirectories.locate? hlocate (standing?_of_locate?_slash hlocate)

theorem Apart.place?_eq (h : Apart place tree other) (path : Path)
    : other.place? path = tree.place? path := by
  rw [place?_eq_locate?, place?_eq_locate?, h.locate?_slash_eq]

theorem KeepsDirectories.isDirectory {before after : FileTree} (h : KeepsDirectories before after)
    (hdirectory : before.isDirectory path = true)
    : after.isDirectory path = true := by
  rw [← found?_eq_directory, found?, find?_standing, Option.bind_eq_some_iff] at hdirectory ⊢
  rcases hdirectory with ⟨target, hlocate, htarget⟩
  exact ⟨target, h.locate? hlocate htarget, h.standing target htarget⟩

theorem Apart.isDirectory_eq (h : Apart place tree other) (path : Path)
    : other.isDirectory path = tree.isDirectory path := by
  rw [Bool.eq_iff_iff]
  exact ⟨h.symm.keepsDirectories.isDirectory, h.keepsDirectories.isDirectory⟩

theorem makeDirectory_eq_unplaced
    : tree.makeDirectory path = .unplaced
        ↔
      path.text.utf8ByteSize < pathLimit ∧ tree.place? path = none := by
  rw [makeDirectory]
  split
  . next hsize =>
    cases hplace : tree.place? path with
    | none => simp [hsize]
    | some place =>
      dsimp only
      split <;> simp
  . next hsize => simp [hsize]

theorem Apart.snd_makeDirectories_eq (h : Apart place tree other) {directory : Path}
    (hsplits : path.Splits directory.front name)
    (hinside : (tree.inside? directory.front).isSome)
    : (other.makeDirectories directory).2 = (tree.makeDirectories directory).2 := by
  have hinside' : (other.inside? directory.front).isSome := by rwa [h.inside?_eq hsplits]
  have hunplaced : other.makeDirectory directory = .unplaced
      ↔ tree.makeDirectory directory = .unplaced := by
    rw [makeDirectory_eq_unplaced, makeDirectory_eq_unplaced, h.place?_eq]
  rw [makeDirectories, makeDirectories, makeDirectoriesWithin, makeDirectoriesWithin]
  by_cases hempty : directory.text.isEmpty = true
  . rw [if_pos hempty, if_pos hempty]
  . have hne : directory.text ≠ "" := by rwa [String.isEmpty_iff] at hempty
    rw [if_neg hempty, if_neg hempty]
    rcases makeDirectory_of_inside? hne hinside with hmake | ⟨hmake, hparent⟩
    . rcases makeDirectory_of_inside? hne hinside' with hmake' | ⟨hmake', _⟩
      . rw [hmake, hmake']
        exact h.isDirectory_eq directory
      . rw [hunplaced, hmake] at hmake'
        cases hmake'
    . rw [hmake, hunplaced.2 hmake, hparent]

theorem isSome_write? (hsplits : path.Splits front name) (husable : isUsable path = true)
    {location : List String} (hinside : tree.inside? front = some location) (bytes : ByteArray)
    : (tree.write? path bytes).isSome = true
        ↔
      (∃ old, tree.standing? (location ++ [name]) = some (.file old))
        ∨ (tree.standing? (location ++ [name]) = none ∧ isName name = true
          ∧ Text.endsWith path.text "/" = false) := by
  have hfind := find?_standing_of_inside? hsplits husable hinside
  rw [write?, place?_eq hsplits husable, hinside, ← hfind]
  cases hnode : tree.find? path with
  | some node => cases node <;> simp [FileNode.standing]
  | none =>
    have hnone : tree.root.at? (location ++ [name]) = none := by
      rw [hnode, Option.map_none, standing?, FileNode.standing?] at hfind
      exact Option.map_eq_none_iff.1 hfind.symm
    simp [hnone]

theorem isSome_rename? (hsplits : path.Splits front name) {target : Path} {front' name' : String}
    (hsplits' : target.Splits front' name') (husable' : isUsable target = true)
    {location location' : List String} (hinside : tree.inside? front = some location)
    (hinside' : tree.inside? front' = some location') {bytes : ByteArray}
    (hread : tree.read? path = some bytes)
    : (tree.rename? path target).isSome = true
        ↔
      isName name = true ∧ isName name' = true
        ∧ (location ++ [name]).isPrefixOf location' = false
        ∧ tree.standing? (location' ++ [name']) ≠ some .directory
        ∧ Text.endsWith target.text "/" = false := by
  have husable := ((read?_eq_some hsplits).1 hread).1
  have hfind : tree.find? path = some (.file bytes) := by
    rw [read?] at hread
    split at hread
    . next found hfound =>
      cases hread
      exact hfound
    . cases hread
  rw [rename?, hfind, place?_eq hsplits husable, place?_eq hsplits' husable', hinside, hinside',
    standing?, FileNode.standing?]
  dsimp only [Option.map_some, Option.bind_eq_bind, Option.bind_some]
  generalize tree.root.at? (location' ++ [name']) = taken
  cases hnames : isName name && isName name' with
  | false =>
    rw [Bool.and_eq_false_iff] at hnames
    rcases hnames with hname | hname <;> simp [hname]
  | true =>
    rw [Bool.and_eq_true] at hnames
    cases (location ++ [name]).isPrefixOf location' with
    | true => simp
    | false =>
      rcases taken with _ | old | entries
      . simp [hnames]
      . simp [hnames, FileNode.standing]
      . simp [FileNode.standing]

theorem Apart.of_leaves (h : Apart place tree other) {first second : List String}
    {bytes : ByteArray} {after after' : FileTree}
    (hafter : Leaves tree after (Function.update (Function.update tree.standing? first none) second
      (some (.file bytes))))
    (hafter' : Leaves other after' (Function.update (Function.update other.standing? first none)
      second (some (.file bytes))))
    : Apart place after after' := by
  have hfree : ∀ {tree : FileTree}, tree.standing? place ≠ some .directory →
      Function.update (Function.update tree.standing? first none) second (some (.file bytes)) place
        ≠ some .directory :=
    fun h => update_ne_directory (by simp) (update_ne_directory (by simp) h _) _
  constructor
  . rw [hafter'.workingDirectory_eq, hafter.workingDirectory_eq, h.workingDirectory_eq]
  . intro location hlocation
    rw [hafter'.standing_eq, hafter.standing_eq, Function.update_apply, Function.update_apply,
      Function.update_apply, Function.update_apply, h.standing_eq location hlocation]
  . rw [hafter.standing_eq]
    exact hfree h.noDirectory
  . rw [hafter'.standing_eq]
    exact hfree h.noDirectory_other

theorem Apart.exists_write? (h : Apart place tree other) (hsplits : path.Splits front name)
    (hne : ∀ location, tree.inside? front = some location → location ++ [name] ≠ place)
    {bytes : ByteArray} {after : FileTree} (hwrite : tree.write? path bytes = some after)
    : ∃ after', other.write? path bytes = some after' ∧ Apart place after after' := by
  rcases write?_eq_some hsplits hwrite with ⟨husable, location, hinside, hfree, hwritten⟩
  have hinside' : other.inside? front = some location := by rwa [h.inside?_eq hsplits]
  have hstanding := h.standing_eq _ (hne location hinside)
  have hsome : (other.write? path bytes).isSome = true := by
    rw [isSome_write? hsplits husable hinside', hstanding,
      ← isSome_write? hsplits husable hinside bytes, hwrite]
    rfl
  rcases Option.isSome_iff_exists.1 hsome with ⟨after', hwrite'⟩
  refine ⟨after', hwrite', ?_⟩
  rcases write?_eq_some hsplits hwrite' with ⟨_, again, hagain, _, hwritten'⟩
  rw [hinside', Option.some.injEq] at hagain
  subst hagain
  have hupdate (standing : List String → Option Standing)
      : Function.update standing (location ++ [name]) (some (.file bytes))
        = Function.update (Function.update standing (location ++ [name]) none) (location ++ [name])
          (some (.file bytes)) :=
    (Function.update_idem ..).symm
  rw [hupdate] at hwritten hwritten'
  exact h.of_leaves hwritten hwritten'

theorem Apart.exists_rename? (h : Apart place tree other) (hsplits : path.Splits front name)
    {target : Path} {front' name' : String} (hsplits' : target.Splits front' name')
    {bytes : ByteArray} (hread : tree.read? path = some bytes)
    (hread' : other.read? path = some bytes) {after : FileTree}
    (hrename : tree.rename? path target = some after)
    : ∃ after', other.rename? path target = some after' ∧ Apart place after after' := by
  rcases rename?_eq_some hsplits hsplits' hread hrename with
    ⟨husable, location, location', hinside, hinside', hfree, hmoved⟩
  have hotherInside : other.inside? front = some location := by rwa [h.inside?_eq hsplits]
  have hotherInside' : other.inside? front' = some location' := by rwa [h.inside?_eq hsplits']
  have hotherFree : other.standing? (location' ++ [name']) ≠ some .directory :=
    fun hdirectory => hfree (h.symm.keepsDirectories.standing _ hdirectory)
  have hsome : (other.rename? path target).isSome = true := by
    have htree := isSome_rename? hsplits hsplits' husable hinside hinside' hread
    rw [hrename] at htree
    rcases htree.1 rfl with ⟨hname, hname', hprefix, _, hend⟩
    rw [isSome_rename? hsplits hsplits' husable hotherInside hotherInside' hread']
    exact ⟨hname, hname', hprefix, hotherFree, hend⟩
  rcases Option.isSome_iff_exists.1 hsome with ⟨after', hrename'⟩
  refine ⟨after', hrename', ?_⟩
  rcases rename?_eq_some hsplits hsplits' hread' hrename' with
    ⟨_, again, again', hagain, hagain', _, hmoved'⟩
  rw [hotherInside, Option.some.injEq] at hagain
  rw [hotherInside', Option.some.injEq] at hagain'
  subst hagain hagain'
  exact h.of_leaves hmoved hmoved'

end FileTree

end ArtifactAudit
