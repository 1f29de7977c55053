import Mathlib.Logic.Relation
import ArtifactAudit.Project
import ArtifactAudit.Proofs.FileTree.Tidy
import ArtifactAudit.Proofs.Pom.Memoised

/-!
This module contains the modules that the file of a project lists: where they are does not depend on
how the path of the file is spelled, but how their paths are spelled does.
-/

namespace ArtifactAudit

open Relation

namespace FileTree

variable {tree : FileTree} {path : Path}

theorem isFile_iff_locate?
    : tree.isFile path = true
        ↔ ∃ location bytes, tree.locate? path = some location
          ∧ tree.standing? location = some (.file bytes) := by
  rw [isFile, find?]
  cases tree.locate? path with
  | none => simp
  | some location =>
    simp only [Option.bind_some, standing?, FileNode.standing?, Option.some.injEq]
    rcases hnode : tree.root.at? location with _ | _ | _ <;>
      simp [hnode, FileNode.standing, FileNode.isDirectory]

theorem isDirectory_iff_locate?
    : tree.isDirectory path = true
        ↔ ∃ location, tree.locate? path = some location
          ∧ tree.standing? location = some .directory := by
  rw [isDirectory, find?]
  cases tree.locate? path with
  | none => simp
  | some location =>
    simp only [Option.bind_some, standing?, FileNode.standing?, Option.some.injEq]
    rcases hnode : tree.root.at? location with _ | _ | _ <;>
      simp [hnode, FileNode.standing, FileNode.isDirectory]

theorem isUsable_of_locate? {location : List String} (h : tree.locate? path = some location)
    : isUsable path = true := by
  rw [locate?] at h
  split at h
  . assumption
  . cases h

end FileTree

namespace ProjectBuilder

open Pom Loader

variable {tree : FileTree} {file other : Path} {name : String}

def moduleFile (tree : FileTree) (file : Path) (name : String) : Path :=
  projectFile tree ((directoryOf file).join ⟨name⟩)

/--
Whether there is a file where a name leads to from the directory of a file, or a descriptor in the
directory that is there.
-/
def Names (tree : FileTree) (file : Path) (name : String) : Prop :=
  ∃ location target, tree.locate? file = some location
    ∧ tree.follow (Text.parts '/' name)
        (if Path.isAbsolute ⟨name⟩ then [] else location.dropLast) = some target
    ∧ ∃ bytes, tree.standing? target = some (.file bytes)
      ∨ tree.standing? (target ++ [fileName]) = some (.file bytes)

theorem locate?_join_directoryOf {location : List String} {bytes : ByteArray}
    (hfile : tree.locate? file = some location)
    (hbytes : tree.standing? location = some (.file bytes))
    (husable : FileTree.isUsable ((directoryOf file).join ⟨name⟩) = true)
    : tree.locate? ((directoryOf file).join ⟨name⟩)
        = tree.follow (Text.parts '/' name)
          (if Path.isAbsolute ⟨name⟩ then [] else location.dropLast) := by
  cases hname : Path.isAbsolute ⟨name⟩ with
  | true =>
    rw [Path.join, if_pos hname] at husable ⊢
    rw [FileTree.locate?, if_pos husable, hname]
    rfl
  | false => exact FileTree.locate?_join_parent hfile (by simp [hbytes]) hname husable

theorem Names.isFile_moduleFile (h : Names tree file name) (hfile : tree.isFile file = true)
    (husable : FileTree.isUsable (moduleFile tree file name) = true)
    : tree.isFile (moduleFile tree file name) = true := by
  rcases h with ⟨location, target, hlocate, htarget, bytes, hbytes⟩
  rcases FileTree.isFile_iff_locate?.1 hfile with ⟨_, own, hlocate', hown⟩
  cases hlocate.symm.trans hlocate'
  have hjoin : FileTree.isUsable ((directoryOf file).join ⟨name⟩) = true →
      tree.locate? ((directoryOf file).join ⟨name⟩) = some target :=
    fun husable => (locate?_join_directoryOf hlocate hown husable).trans htarget
  rw [moduleFile, projectFile] at husable ⊢
  split at husable
  . next hdirectory =>
    rw [if_pos hdirectory]
    rcases FileTree.isDirectory_iff_locate?.1 hdirectory with ⟨found, hfound, hstanding⟩
    cases hfound.symm.trans (hjoin (FileTree.isUsable_of_locate? hfound))
    rcases hbytes with hbytes | hbytes
    . rw [hstanding] at hbytes
      cases hbytes
    . rw [FileTree.isFile_iff_locate?]
      refine ⟨target ++ [fileName], bytes, ?_, hbytes⟩
      rw [FileTree.locate?_child hfound (by decide) husable, FileTree.follow_cons _ _ hstanding,
        if_neg (by decide), if_neg (by decide), if_pos (by rw [hbytes]; rfl)]
      rfl
  . next hdirectory =>
    rw [if_neg hdirectory, FileTree.isFile_iff_locate?]
    have hfound := hjoin husable
    rcases hbytes with hbytes | hbytes
    . exact ⟨target, bytes, hfound, hbytes⟩
    . have hstanding := FileTree.standing?_of_append (by rw [hbytes]; rfl) (List.cons_ne_nil _ _)
      exact absurd (FileTree.isDirectory_iff_locate?.2 ⟨target, hfound, hstanding⟩) hdirectory

theorem segments_join_directoryOf (hfile : tree.isFile file = true)
    (hother : tree.isFile other = true) (h : file.segments = other.segments) (name : String)
    : ((directoryOf file).join ⟨name⟩).segments = ((directoryOf other).join ⟨name⟩).segments := by
  cases hname : Path.isAbsolute ⟨name⟩ with
  | true => rw [Path.join, Path.join, if_pos hname, if_pos hname]
  | false =>
    have hends : ∀ {path : Path}, tree.isFile path = true →
        ∃ before last, Text.parts '/' path.text = before ++ [last] ∧ Path.isIdle last = false := by
      intro path hpath
      rcases FileTree.isFile_iff_locate?.1 hpath with ⟨location, bytes, hlocate, hbytes⟩
      rcases FileTree.exists_of_locate? hlocate (by simp [hbytes]) with
        ⟨before, last, hparts, hlast, _⟩
      exact ⟨before, last, hparts, hlast⟩
    rcases hends hfile with ⟨before, last, hparts, hlast⟩
    rcases hends hother with ⟨before', last', hparts', hlast'⟩
    rw [directoryOf, directoryOf, Path.segments_join_parent hparts hlast hname,
      Path.segments_join_parent hparts' hlast' hname, h]

theorem tidy_moduleFile (hfile : tree.isFile file = true) (hother : tree.isFile other = true)
    (h : file.tidy = other.tidy) (hmodule : tree.isFile (moduleFile tree file name) = true)
    (hmodule' : tree.isFile (moduleFile tree other name) = true)
    : (moduleFile tree file name).tidy = (moduleFile tree other name).tidy := by
  have hjoin := segments_join_directoryOf hfile hother (Path.tidy_eq_iff.1 h) name
  rw [Path.tidy_eq_iff]
  rw [moduleFile, projectFile] at hmodule hmodule' ⊢
  rw [moduleFile, projectFile]
  generalize (directoryOf file).join ⟨name⟩ = path at *
  generalize (directoryOf other).join ⟨name⟩ = path' at *
  -- If only one of them is found to be a directory then the other one is a file.
  have hone : ∀ {path path' : Path}, path.segments = path'.segments →
      tree.isDirectory path = true → tree.isFile path' ≠ true := by
    intro path path' heq hpath hpath'
    rcases FileTree.isDirectory_iff_locate?.1 hpath with ⟨location, hlocate, hstanding⟩
    rcases FileTree.isFile_iff_locate?.1 hpath' with ⟨target, bytes, htarget, hbytes⟩
    rw [FileTree.locate?_unique_of_segments hlocate htarget heq, hbytes] at hstanding
    cases hstanding
  split at hmodule <;> split at hmodule'
  . next hpath hpath' =>
    rw [if_pos hpath, if_pos hpath', Path.segments_child path (by decide) (by decide),
      Path.segments_child path' (by decide) (by decide), hjoin]
  . next hpath _ => exact absurd hmodule' (hone hjoin hpath)
  . next _ hpath' => exact absurd hmodule (hone hjoin.symm hpath')
  . next hpath hpath' => rw [if_neg hpath, if_neg hpath', hjoin]

variable {loader : Loader} {start : Path} {pom : Effective}

def Loads (loader : Loader) (file : Path) (pom : Effective) : Prop :=
  ((loader.loadFile file).run []).1 = .ok pom

def Lists (loader : Loader) (file child : Path) : Prop :=
  ∃ pom, Loads loader file pom ∧ ∃ name ∈ pom.modules, moduleFile loader.tree file name = child

def Reaches (loader : Loader) : Path → Path → Prop :=
  ReflTransGen (Lists loader)

/--
Whether a path is one by which a module that is reached from a file is asked for, or what it needs.
-/
def Met (loader : Loader) (start path : Path) : Prop :=
  ∀ met : Path → Prop, loader.Closed met → (∀ file, Reaches loader start file → met file) → met path

theorem closed_met : loader.Closed (Met loader start) :=
  closed_forall

theorem met_of_reaches (h : Reaches loader start file) : Met loader start file :=
  fun _ _ hreaches => hreaches file h

theorem Loads.obtains (h : Loads loader file pom) (hfile : Reaches loader start file)
    : Located loader.tree (loader.Obtains (Met loader start)) file pom :=
  (sound_loadWithin closed_met _ [] file [] (met_of_reaches hfile) (sound_nil _ _)).2 pom h

theorem Loads.isFile (h : Loads loader file pom) : loader.tree.isFile file = true := by
  rcases h.obtains (ReflTransGen.refl : Reaches loader file file) with ⟨location, hlocate, hfound⟩
  rw [FileTree.isFile_iff_locate?]
  cases hfound with
  | intro _ hlocate' hmodel _ _ =>
    rcases standing?_of_modelAt hlocate' hmodel with ⟨bytes, hbytes⟩
    exact ⟨location, bytes, hlocate, hbytes⟩

section

variable (hshort : ∀ path, Met loader start path → loader.Short path)

include hshort

theorem Loads.unique {found : Effective} (h : Loads loader file pom)
    (hfound : Loads loader other found) (hfile : Reaches loader start file)
    (hother : Reaches loader start other) (heq : file.tidy = other.tidy)
    : pom = found := by
  rcases h.obtains hfile with ⟨location, hlocate, hpom⟩
  rcases hfound.obtains hother with ⟨target, htarget, hanswer⟩
  obtain rfl := FileTree.locate?_unique_of_segments hlocate htarget (Path.tidy_eq_iff.1 heq)
  exact hpom.unique (uniform_of_short hshort) hanswer

theorem Loads.run_loadFile (h : Loads loader file pom) (hfile : Reaches loader start file)
    {memo : Memo} (hmemo : loader.Sound (Met loader start) memo)
    : loader.Sound (Met loader start) ((loader.loadFile file).run memo).2
        ∧ ((loader.loadFile file).run memo).1 = .ok pom := by
  have hmet := met_of_reaches hfile
  refine ⟨(sound_loadWithin closed_met _ [] file memo hmet hmemo).1, ?_⟩
  rw [← h]
  exact loadWithin_agree (uniform_of_short hshort) closed_met _ [] file memo [] (room_start loader.tree)
    hmet hmemo (sound_nil _ _) fun _ _ _ => nofun

end

end ProjectBuilder
end ArtifactAudit
