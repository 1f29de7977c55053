import Mathlib.Data.List.Forall2
import Mathlib.Data.List.Nodup
import ArtifactAudit.Proofs.Project
import ArtifactAudit.Proofs.Project.Listed
import ArtifactAudit.Proofs.Text.Utf8

/-!
This module contains the order in which the modules of a project come, and that each path counts
once: paths that are spelled alike are one module, and paths of one file that are spelled differently
are as many.
-/

namespace ArtifactAudit

namespace ProjectBuilder

open Pom Loader Loading

variable {builder : ProjectBuilder} {loader : Loader} {start file : Path} {row files : List Path}
  {walk : Walk}

theorem length_lt_rowLimit {paths : List Path} (hnodup : (paths.map Path.tidy).Nodup)
    (husable : ∀ path ∈ paths, FileTree.isUsable path = true)
    : paths.length < rowLimit := by
  have htexts : (paths.map Path.text).Nodup := by
    have hinjective : Function.Injective Path.text := by
      rintro ⟨first⟩ ⟨second⟩ heq
      exact congrArg Path.mk heq
    exact (List.Nodup.of_map _ hnodup).map hinjective
  have hsize : ∀ text ∈ paths.map Path.text, text.utf8ByteSize ≤ FileTree.pathLimit - 1 := by
    intro text htext
    rcases List.mem_map.1 htext with ⟨path, hpath, rfl⟩
    have hlimit := husable path hpath
    rw [FileTree.isUsable, Bool.and_eq_true, decide_eq_true_iff] at hlimit
    exact Nat.le_sub_one_of_lt hlimit.2
  have hlength := Text.length_le_of_utf8ByteSize_le htexts hsize
  rw [List.length_map] at hlength
  have hlimit : 0 < FileTree.pathLimit := by decide
  unfold rowLimit
  generalize FileTree.pathLimit = limit at hlength hlimit ⊢
  exact lt_of_le_of_lt hlength (Nat.pow_lt_pow_right (by decide) (Nat.sub_one_lt_of_lt hlimit))

def MadeOf (builder : ProjectBuilder) (loader : Loader) (file : Path) (part : ProjectModule)
    : Prop :=
  ∃ pom, Loads loader file pom ∧ part = builder.moduleOf loader.tree file pom

/--
Whether each module that a file lists has its file there, and comes before the file or reaches it.
-/
def Settled (loader : Loader) (before : List Path) (file : Path) (after : List Path) : Prop :=
  ∀ child, Lists loader file child → loader.tree.isFile child = true
    ∧ ((∃ listed ∈ before, listed.tidy = child.tidy)
      ∨ ∃ listed ∈ file :: after, listed.tidy = child.tidy ∧ Reaches loader listed file)

/--
What holds while modules are collected: some files are done, and those in a row are not, each of
which was met on the way from the next one.
-/
structure Walking (builder : ProjectBuilder) (loader : Loader) (start : Path)
    (row files : List Path) (walk : Walk)
    : Prop where
  visited : ∀ key, key ∈ walk.visited ↔ key ∈ (files ++ row).map Path.tidy
  nodup : ((files ++ row).map Path.tidy).Nodup
  reached : ∀ file ∈ files ++ row, Reaches loader start file ∧ loader.tree.isFile file = true
  found : List.Forall₂ (MadeOf builder loader) files walk.found
  settled : ∀ before file after, files = before ++ file :: after →
    Settled loader before file (after ++ row)

theorem walking_nil : Walking builder loader start [] [] ⟨[], []⟩ where
  visited := by simp
  nodup := List.nodup_nil
  reached := by simp
  found := .nil
  settled := by simp

theorem Walking.length_lt (h : Walking builder loader start row files walk)
    : (files ++ row).length < rowLimit := by
  apply length_lt_rowLimit h.nodup
  intro file hfile
  rcases FileTree.isFile_iff_locate?.1 (h.reached file hfile).2 with ⟨location, _, hlocate, _⟩
  exact FileTree.isUsable_of_locate? hlocate

theorem Settled.mono {before after more : List Path} (h : Settled loader before file after)
    (hmore : after ⊆ more)
    : Settled loader before file more := by
  intro child hchild
  rcases h child hchild with ⟨hfile, hlisted | ⟨listed, hlisted, htidy⟩⟩
  . exact ⟨hfile, .inl hlisted⟩
  . exact ⟨hfile, .inr ⟨listed, List.cons_subset_cons file hmore hlisted, htidy⟩⟩

theorem Walking.enter (h : Walking builder loader start row files walk)
    (hnew : file.tidy ∉ walk.visited) (hreached : Reaches loader start file)
    (hfile : loader.tree.isFile file = true)
    : Walking builder loader start (file :: row) files
        { walk with visited := file.tidy :: walk.visited } where
  visited key := by
    rw [List.mem_cons, h.visited]
    simp only [List.map_append, List.map_cons, List.mem_append, List.mem_cons]
    tauto
  nodup := by
    rw [h.visited] at hnew
    rw [List.map_append] at hnew ⊢
    rw [List.map_cons, List.nodup_middle, List.nodup_cons, ← List.map_append]
    exact ⟨by simpa using hnew, h.nodup⟩
  reached other hother := by
    rw [List.mem_append, List.mem_cons] at hother
    rcases hother with hother | rfl | hother
    . exact h.reached other (List.mem_append_left _ hother)
    . exact ⟨hreached, hfile⟩
    . exact h.reached other (List.mem_append_right _ hother)
  found := h.found
  settled before other after hsplit := by
    apply (h.settled before other after hsplit).mono
    exact ((List.sublist_cons_self file row).append_left after).subset

theorem Walking.leave {part : ProjectModule}
    (h : Walking builder loader start (file :: row) files walk)
    (hpart : MadeOf builder loader file part) (hsettled : Settled loader files file row)
    : Walking builder loader start row (files ++ [file])
        { walk with found := walk.found ++ [part] } where
  visited := by
    rw [← List.append_cons]
    exact h.visited
  nodup := by
    rw [← List.append_cons]
    exact h.nodup
  reached := by
    rw [← List.append_cons]
    exact h.reached
  found := List.rel_append h.found (.cons hpart .nil)
  settled before other after hsplit := by
    rcases List.eq_nil_or_concat after with rfl | ⟨after, last, rfl⟩
    . rcases List.append_inj' hsplit rfl with ⟨rfl, heq⟩
      cases heq
      exact hsettled
    . rw [List.concat_eq_append, ← List.cons_append, ← List.append_assoc] at hsplit
      rcases List.append_inj' hsplit rfl with ⟨rfl, heq⟩
      cases heq
      rw [List.concat_eq_append, ← List.append_cons]
      exact h.settled before other after rfl

def Missing (loader : Loader) (start : Path) (error : AuditError) : Prop :=
  ∃ file pom name, Reaches loader start file ∧ Loads loader file pom ∧ name ∈ pom.modules
    ∧ loader.tree.isFile (moduleFile loader.tree file name) = false
    ∧ error = .build file (.moduleWithoutFile name)

def Collected (builder : ProjectBuilder) (loader : Loader) (start file : Path)
    (row files : List Path) (names : List String) (walk : Walk)
    : Prop :=
  ∃ more, Walking builder loader start (file :: row) (files ++ more) walk
    ∧ ∀ name ∈ names, loader.tree.isFile (moduleFile loader.tree file name) = true
      ∧ (moduleFile loader.tree file name).tidy ∈ (files ++ more ++ file :: row).map Path.tidy

theorem Collected.next {names : List String} {name : String} {more others : List Path}
    (hnames : ∀ name ∈ names, loader.tree.isFile (moduleFile loader.tree file name) = true
      ∧ (moduleFile loader.tree file name).tidy ∈ (files ++ more ++ file :: row).map Path.tidy)
    (hfile : loader.tree.isFile (moduleFile loader.tree file name) = true)
    (h : Walking builder loader start (file :: row) (files ++ more ++ others) walk)
    (hmem : (moduleFile loader.tree file name).tidy
      ∈ (files ++ more ++ others ++ file :: row).map Path.tidy)
    : Collected builder loader start file row files (names ++ [name]) walk := by
  refine ⟨more ++ others, ?_, ?_⟩
  . rwa [← List.append_assoc]
  . rw [← List.append_assoc, List.forall_mem_append, List.forall_mem_singleton]
    refine ⟨?_, hfile, hmem⟩
    intro other hother
    have hsublist := (List.sublist_append_left (files ++ more) others).append_right (file :: row)
    exact ⟨(hnames other hother).1, (hsublist.map Path.tidy).subset (hnames other hother).2⟩

theorem settled_of_listed {pom : Effective} (hpom : Loads loader file pom)
    (habove : ∀ above ∈ row, Reaches loader above file)
    (hlisted : ∀ name ∈ pom.modules, loader.tree.isFile (moduleFile loader.tree file name) = true
      ∧ (moduleFile loader.tree file name).tidy ∈ (files ++ file :: row).map Path.tidy)
    : Settled loader files file row := by
  rintro _ ⟨found, hfound, name, hname, rfl⟩
  obtain rfl := Except.ok.inj (hpom.symm.trans hfound)
  rcases hlisted name hname with ⟨hfile, hmem⟩
  rcases List.mem_map.1 hmem with ⟨listed, hmem, htidy⟩
  refine ⟨hfile, ?_⟩
  rcases List.mem_append.1 hmem with hmem | hmem
  . exact .inl ⟨listed, hmem, htidy⟩
  . refine .inr ⟨listed, hmem, htidy, ?_⟩
    rcases List.mem_cons.1 hmem with rfl | hmem
    . exact .refl
    . exact habove listed hmem

/--
Whether modules are made of the files that are reached from one, each path once as far as it is
spelled alike, and after the modules that its file lists unless these come back to it.
-/
structure Arranged (builder : ProjectBuilder) (loader : Loader) (start : Path) (files : List Path)
    (modules : List ProjectModule)
    : Prop where
  found : List.Forall₂ (MadeOf builder loader) files modules
  nodup : (files.map Path.tidy).Nodup
  reached : ∀ file ∈ files, Reaches loader start file ∧ loader.tree.isFile file = true
  complete : ∀ file, Reaches loader start file → loader.tree.isFile file = true →
    ∃ listed ∈ files, listed.tidy = file.tidy
  settled : ∀ before file after, files = before ++ file :: after → Settled loader before file after

section

variable (hshort : ∀ path, Met loader start path → loader.Short path)
  (hloads : ∀ file, Reaches loader start file → loader.tree.isFile file = true →
    ∃ pom, Loads loader file pom)

include hshort hloads

theorem comes_collect (steps : Nat)
    : ∀ {row files : List Path} {walk : Walk} {file : Path},
        Walking builder loader start row files walk → Reaches loader start file →
        loader.tree.isFile file = true → (∀ above ∈ row, Reaches loader above file) →
        rowLimit ≤ steps + (files ++ row).length →
          Comes (loader.Sound (Met loader start)) (Missing loader start)
            (fun after => ∃ more, Walking builder loader start row (files ++ more) after
              ∧ file.tidy ∈ (files ++ more ++ row).map Path.tidy)
            (builder.collect loader steps walk file) := by
  induction steps with
  | zero =>
    intro row files walk file hwalk _ _ _ hsteps
    rw [Nat.zero_add] at hsteps
    exact absurd hwalk.length_lt (Nat.not_lt_of_le hsteps)
  | succ steps ih =>
    intro row files walk file hwalk hreached hfile habove hsteps
    by_cases hnew : file.tidy ∈ walk.visited
    . rw [collect, if_pos hnew]
      apply Comes.pure
      refine ⟨[], ?_⟩
      rw [List.append_nil]
      exact ⟨hwalk, (hwalk.visited _).1 hnew⟩
    . rw [collect_new hnew]
      rcases hloads file hreached hfile with ⟨pom, hpom⟩
      have hload : Comes (loader.Sound (Met loader start)) (Missing loader start) (· = pom)
          (loader.loadFile file) := by
        intro memo hmemo
        rcases hpom.run_loadFile hshort hreached hmemo with ⟨hafter, hrun⟩
        exact ⟨hafter, .inl ⟨pom, hrun, rfl⟩⟩
      apply hload.bind
      rintro _ rfl
      have hstart : Collected builder loader start file row files []
          { walk with visited := file.tidy :: walk.visited } := by
        refine ⟨[], ?_, by simp⟩
        rw [List.append_nil]
        exact hwalk.enter hnew hreached hfile
      refine Comes.bind (Comes.foldlM ?_ _ hstart) ?_
      . rintro names name between hname ⟨more, hbetween, hnames⟩
        have hchild : Lists loader file (moduleFile loader.tree file name) :=
          ⟨_, hpom, name, hname, rfl⟩
        rw [collectModule]
        split
        . next hfile' =>
          have habove' : ∀ above ∈ file :: row,
              Reaches loader above (moduleFile loader.tree file name) :=
            List.forall_mem_cons.2
              ⟨.single hchild, fun above hmem => (habove above hmem).tail hchild⟩
          have hsteps' : rowLimit ≤ steps + (files ++ more ++ file :: row).length := by
            simp only [List.length_append, List.length_cons] at hsteps ⊢
            omega
          apply (ih hbetween (hreached.tail hchild) hfile' habove' hsteps').mono
          rintro after ⟨others, hafter, hmem⟩
          exact .next hnames hfile' hafter hmem
        . next hmissing =>
          exact .throw _ ⟨file, _, name, hreached, hpom, hname,
            Bool.eq_false_of_not_eq_true hmissing, rfl⟩
      . rintro ended ⟨more, hended, hnames⟩
        apply Comes.pure
        refine ⟨more ++ [file], ?_, ?_⟩
        . rw [← List.append_assoc]
          exact hended.leave ⟨_, hpom, rfl⟩ (settled_of_listed hpom habove hnames)
        . simp

theorem Walking.exists_tidy_eq (h : Walking builder loader start [] files walk)
    (hstart : start.tidy ∈ files.map Path.tidy) (hreached : Reaches loader start file)
    (hfile : loader.tree.isFile file = true)
    : ∃ listed ∈ files, listed.tidy = file.tidy := by
  induction hreached with
  | refl => exact List.mem_map.1 hstart
  | @tail above _ habove hlists ih =>
    rcases hlists with ⟨pom, hpom, name, hname, rfl⟩
    rcases ih hpom.isFile with ⟨same, hsame, htidy⟩
    -- The file that is done gives the same modules as the one it is spelled like.
    rcases h.reached same (List.mem_append_left [] hsame) with ⟨hreached, his⟩
    rcases hloads same hreached his with ⟨found, hfound⟩
    obtain rfl := hfound.unique hshort hpom hreached habove htidy
    rcases List.append_of_mem hsame with ⟨before, after, hsplit⟩
    have hchild : Lists loader same (moduleFile loader.tree same name) :=
      ⟨found, hfound, name, hname, rfl⟩
    rcases h.settled before same after hsplit _ hchild with ⟨hmodule, hlisted⟩
    rw [tidy_moduleFile hpom.isFile his htidy.symm hfile hmodule, hsplit]
    rw [List.append_nil] at hlisted
    rcases hlisted with ⟨listed, hmem, heq⟩ | ⟨listed, hmem, heq, _⟩
    . exact ⟨listed, List.mem_append_left _ hmem, heq⟩
    . exact ⟨listed, List.mem_append_right _ hmem, heq⟩

theorem Walking.arranged (h : Walking builder loader start [] files walk)
    (hstart : start.tidy ∈ files.map Path.tidy)
    : Arranged builder loader start files walk.found where
  found := h.found
  nodup := by
    have hnodup := h.nodup
    rwa [List.append_nil] at hnodup
  reached file hfile := h.reached file (List.mem_append_left [] hfile)
  complete file hreached hfile := h.exists_tidy_eq hshort hloads hstart hreached hfile
  settled before file after hsplit := by
    have hsettled := h.settled before file after hsplit
    rwa [List.append_nil] at hsettled

end

theorem locate?_eq_of_tidy {tree : FileTree} {other : Path} (hfile : tree.isFile file = true)
    (hother : tree.isFile other = true) (h : file.tidy = other.tidy)
    : tree.locate? file = tree.locate? other := by
  rcases FileTree.isFile_iff_locate?.1 hfile with ⟨location, _, hlocate, _⟩
  rcases FileTree.isFile_iff_locate?.1 hother with ⟨target, _, htarget, _⟩
  rw [hlocate, htarget, FileTree.locate?_unique_of_segments hlocate htarget (Path.tidy_eq_iff.1 h)]

def OneSpelling (loader : Loader) (start : Path) : Prop :=
  ∀ first second, Reaches loader start first → Reaches loader start second →
    loader.tree.isFile first = true → loader.tree.locate? first = loader.tree.locate? second →
      first.tidy = second.tidy

theorem Arranged.nodup_locate? {modules : List ProjectModule}
    (h : Arranged builder loader start files modules)
    : (files.map loader.tree.locate?).Nodup ↔ OneSpelling loader start := by
  have hnodup := List.Nodup.of_map _ h.nodup
  rw [List.nodup_map_iff_inj_on hnodup]
  constructor
  . intro hinjective first second hfirst hsecond hfile hlocate
    have hfile' : loader.tree.isFile second = true := by rwa [← isFile_congr hlocate]
    rcases h.complete first hfirst hfile with ⟨one, hone, htidy⟩
    rcases h.complete second hsecond hfile' with ⟨other, hother, htidy'⟩
    rw [← htidy, ← htidy', hinjective one hone other hother]
    rw [locate?_eq_of_tidy (h.reached one hone).2 hfile htidy, hlocate,
      locate?_eq_of_tidy (h.reached other hother).2 hfile' htidy']
  . intro hall first hfirst second hsecond hlocate
    rcases h.reached first hfirst with ⟨hreached, hfile⟩
    have htidy := hall first second hreached (h.reached second hsecond).1 hfile hlocate
    exact List.inj_on_of_nodup_map h.nodup hfirst hsecond htidy

section

variable {tree : FileTree} {project : Path} (hcommand : builder.command = none)
  (hfile : tree.isFile (projectFile tree project) = true)

include hcommand hfile

theorem build_of_isFile
    : builder.build tree project
        = ((builder.collect (builder.loaderOf tree) rowLimit ⟨[], []⟩
            (projectFile tree project)).run []).1.map Walk.found := by
  rw [build, hfile, compile, hcommand]
  simp only [Bool.not_true, Bool.false_eq_true, if_false]
  dsimp only [Bind.bind, Except.bind]
  cases ((builder.collect (builder.loaderOf tree) rowLimit ⟨[], []⟩
      (projectFile tree project)).run []).1 <;> rfl

/--
Each path that is reached from the file of a project is one module of it, after the modules that its
file lists, unless these come back to it. The project is refused only if a module has no file, and if
the module is there then only because its path cannot be used.
-/
theorem build_arranged
    (hloads : ∀ file, Reaches (builder.loaderOf tree) (projectFile tree project) file →
      tree.isFile file = true → ∃ pom, Loads (builder.loaderOf tree) file pom)
    (hshort : ∀ path, Met (builder.loaderOf tree) (projectFile tree project) path →
      (builder.loaderOf tree).Short path)
    : (∃ files modules, builder.build tree project = .ok modules
          ∧ Arranged builder (builder.loaderOf tree) (projectFile tree project) files modules
          ∧ ((files.map tree.locate?).Nodup
            ↔ OneSpelling (builder.loaderOf tree) (projectFile tree project)))
        ∨ ∃ file pom name, Reaches (builder.loaderOf tree) (projectFile tree project) file
          ∧ Loads (builder.loaderOf tree) file pom ∧ name ∈ pom.modules
          ∧ tree.isFile (moduleFile tree file name) = false
          ∧ (Names tree file name → FileTree.isUsable (moduleFile tree file name) = false)
          ∧ builder.build tree project = .error (.build file (.moduleWithoutFile name)) := by
  have hstart : Walking builder (builder.loaderOf tree) (projectFile tree project) [] [] ⟨[], []⟩ :=
    walking_nil
  have hcomes := comes_collect hshort hloads rowLimit hstart .refl hfile (fun _ => nofun)
    (Nat.le_add_right _ _) [] (sound_nil _ _)
  rw [build_of_isFile hcommand hfile]
  rcases hcomes.2 with ⟨walk, hrun, files, hwalk, hmem⟩ |
    ⟨error, hrun, file, pom, name, hreached, hpom, hname, hmissing, rfl⟩
  . rw [List.nil_append] at hwalk hmem
    rw [List.append_nil] at hmem
    have harranged := hwalk.arranged hshort hloads hmem
    refine .inl ⟨files, walk.found, ?_, harranged, harranged.nodup_locate?⟩
    rw [hrun]
    rfl
  . refine .inr ⟨file, pom, name, hreached, hpom, hname, hmissing, ?_, ?_⟩
    . intro hnames
      rw [← Bool.not_eq_true]
      intro husable
      cases (hnames.isFile_moduleFile hpom.isFile husable).symm.trans hmissing
    . rw [hrun]
      rfl

end

end ProjectBuilder

namespace ProjectBuilder.Crossed

open Pom Loader Loading

open Bundled (builder root model effective)

def rootText : String :=
  descriptor "g" "root" (element "version" "1" ++ element "packaging" "pom" ++
    element "modules" (element "module" "a" ++ element "module" "b"))

def aText : String :=
  descriptor "g" "a" (element "version" "1")

def bText : String :=
  descriptor "g" "b" (element "version" "1" ++ element "packaging" "pom" ++
    element "modules" (element "module" "../a"))

/--
The project of the example: one of its modules lists the other one as well.
-/
def tree : FileTree :=
  ⟨.directory
    [("a", .directory [("pom.xml", .file aText.toUTF8)]),
      ("b", .directory [("pom.xml", .file bText.toUTF8)]),
      ("pom.xml", .file rootText.toUTF8)], []⟩

def loader : Loader := builder.loaderOf tree

def rootFile : Path := ⟨"./pom.xml"⟩

def aFile : Path := ⟨"./a/pom.xml"⟩

def bFile : Path := ⟨"./b/pom.xml"⟩

def aAcross : Path := ⟨"./b/../a/pom.xml"⟩

def a : Coordinate := .ofParts "g" "a" "1"

def b : Coordinate := .withPackaging "g" "b" "1" "pom"

def rootModel : Model := model root (some "pom") [] ["a", "b"]

def aModel : Model := model a none [] []

def bModel : Model := model b (some "pom") [] ["../a"]

set_option maxRecDepth 4000 in
theorem modelAt_eq
    : loader.modelAt rootFile = .ok rootModel ∧ loader.modelAt aFile = .ok aModel
        ∧ loader.modelAt bFile = .ok bModel ∧ loader.modelAt aAcross = .ok aModel := by
  refine ⟨?_, ?_, ?_, ?_⟩
  all_goals
    apply modelAt_of_toList
    . rfl
    . simp [rootText, aText, bText, descriptor, toList_element]
      rfl
    . rw [Model.parse, Xml.parse?, String.toList_ofList]
      rfl

def rootPom : Effective := effective root rootModel []

def aPom : Effective := effective a aModel []

def bPom : Effective := effective b bModel []

theorem plain_eq
    : plain rootFile rootModel none = .ok rootPom ∧ plain aFile aModel none = .ok aPom
        ∧ plain bFile bModel none = .ok bPom ∧ plain aAcross aModel none = .ok aPom := by
  decide

theorem locate?_eq
    : loader.tree.locate? rootFile = some ["pom.xml"]
        ∧ loader.tree.locate? aFile = some ["a", "pom.xml"]
        ∧ loader.tree.locate? bFile = some ["b", "pom.xml"]
        ∧ loader.tree.locate? aAcross = some ["a", "pom.xml"] := by
  decide

theorem moduleFile_eq
    : projectFile loader.tree ⟨"."⟩ = rootFile ∧ moduleFile loader.tree rootFile "a" = aFile
        ∧ moduleFile loader.tree rootFile "b" = bFile
        ∧ moduleFile loader.tree bFile "../a" = aAcross := by
  decide

theorem isFile_eq
    : loader.tree.isFile rootFile = true ∧ loader.tree.isFile aFile = true
        ∧ loader.tree.isFile bFile = true
        ∧ loader.tree.isFile aAcross = true := by
  decide

def aPart : ProjectModule := ⟨a, ⟨⟨"./a/target/classes"⟩, []⟩⟩

def aAgain : ProjectModule := ⟨a, ⟨⟨"./b/../a/target/classes"⟩, []⟩⟩

def bPart : ProjectModule := ⟨b, ⟨⟨"./b/pom.xml"⟩, []⟩⟩

def rootPart : ProjectModule := ⟨root, ⟨⟨"./pom.xml"⟩, []⟩⟩

theorem moduleOf_eq
    : builder.moduleOf loader.tree rootFile rootPom = rootPart
        ∧ builder.moduleOf loader.tree aFile aPom = aPart
        ∧ builder.moduleOf loader.tree bFile bPom = bPart
        ∧ builder.moduleOf loader.tree aAcross aPom = aAgain := by
  decide

theorem loads_eq
    : Loads loader rootFile rootPom ∧ Loads loader aFile aPom ∧ Loads loader bFile bPom
        ∧ Loads loader aAcross aPom := by
  rcases modelAt_eq with ⟨hrootModel, haModel, hbModel, hacrossModel⟩
  rcases plain_eq with ⟨hrootPlain, haPlain, hbPlain, hacrossPlain⟩
  rcases locate?_eq with ⟨hrootAt, haAt, hbAt, hacrossAt⟩
  refine ⟨?_, ?_, ?_, ?_⟩
  . rw [Loads, run_loadFile_plain hrootAt List.lookup_nil hrootModel rfl (by decide) hrootPlain]
  . rw [Loads, run_loadFile_plain haAt List.lookup_nil haModel rfl (by decide) haPlain]
  . rw [Loads, run_loadFile_plain hbAt List.lookup_nil hbModel rfl (by decide) hbPlain]
  . rw [Loads, run_loadFile_plain hacrossAt List.lookup_nil hacrossModel rfl (by decide)
      hacrossPlain]

theorem collect_eq (steps : Nat)
    : ∃ walk, ((builder.collect loader (steps + 3) ⟨[], []⟩ rootFile).run []).1 = .ok walk
        ∧ walk.found = [aPart, aAgain, bPart, rootPart] := by
  rcases modelAt_eq with ⟨hrootModel, haModel, hbModel, _⟩
  rcases plain_eq with ⟨hrootPlain, haPlain, hbPlain, _⟩
  rcases locate?_eq with ⟨hrootAt, haAt, hbAt, hacrossAt⟩
  rcases moduleFile_eq with ⟨_, haChild, hbChild, hacrossChild⟩
  rcases isFile_eq with ⟨_, haFile, hbFile, hacrossFile⟩
  rcases moduleOf_eq with ⟨hrootPart, haPart, hbPart, haAgain⟩
  have hroot := run_loadFile_plain hrootAt List.lookup_nil hrootModel rfl (by decide) hrootPlain
  have ha : (builder.collectModule loader (steps + 2) rootFile ⟨[rootFile.tidy], []⟩ "a").run
        [(["pom.xml"], rootPom)]
      = (.ok ⟨[aFile.tidy, rootFile.tidy], [aPart]⟩,
        [(["a", "pom.xml"], aPom), (["pom.xml"], rootPom)]) := by
    have hforgotten : List.lookup ["a", "pom.xml"] [(["pom.xml"], rootPom)] = none := rfl
    have hload := run_loadFile_plain haAt hforgotten haModel rfl (by decide) haPlain
    rw [@collectModule_eq builder loader _ _ _ _ _ haChild haFile]
    exact run_collect_leaf (by decide) hload rfl haPart
  have hacross : (builder.collectModule loader (steps + 1) bFile
        ⟨[bFile.tidy, aFile.tidy, rootFile.tidy], [aPart]⟩ "../a").run
        [(["b", "pom.xml"], bPom), (["a", "pom.xml"], aPom), (["pom.xml"], rootPom)]
      = (.ok ⟨[aAcross.tidy, bFile.tidy, aFile.tidy, rootFile.tidy], [aPart, aAgain]⟩,
        [(["b", "pom.xml"], bPom), (["a", "pom.xml"], aPom), (["pom.xml"], rootPom)]) := by
    have hfound : List.lookup ["a", "pom.xml"]
        [(["b", "pom.xml"], bPom), (["a", "pom.xml"], aPom), (["pom.xml"], rootPom)]
          = some aPom := rfl
    have hload : (loader.loadFile aAcross).run _ = _ := run_loadWithin_found hacrossAt hfound
    rw [@collectModule_eq builder loader _ _ _ _ _ hacrossChild hacrossFile]
    exact run_collect_leaf (by decide) hload rfl haAgain
  have hb : (builder.collectModule loader (steps + 2) rootFile
        ⟨[aFile.tidy, rootFile.tidy], [aPart]⟩ "b").run
        [(["a", "pom.xml"], aPom), (["pom.xml"], rootPom)]
      = (.ok ⟨[aAcross.tidy, bFile.tidy, aFile.tidy, rootFile.tidy], [aPart, aAgain, bPart]⟩,
        [(["b", "pom.xml"], bPom), (["a", "pom.xml"], aPom), (["pom.xml"], rootPom)]) := by
    have hforgotten : List.lookup ["b", "pom.xml"]
        [(["a", "pom.xml"], aPom), (["pom.xml"], rootPom)] = none := rfl
    have hload := run_loadFile_plain hbAt hforgotten hbModel rfl (by decide) hbPlain
    have hnames : bPom.modules = ["../a"] := rfl
    have hmodules : (bPom.modules.foldlM (builder.collectModule loader (steps + 1) bFile)
          ⟨[bFile.tidy, aFile.tidy, rootFile.tidy], [aPart]⟩).run
          [(["b", "pom.xml"], bPom), (["a", "pom.xml"], aPom), (["pom.xml"], rootPom)]
        = (.ok ⟨[aAcross.tidy, bFile.tidy, aFile.tidy, rootFile.tidy], [aPart, aAgain]⟩,
          [(["b", "pom.xml"], bPom), (["a", "pom.xml"], aPom), (["pom.xml"], rootPom)]) := by
      rw [hnames, Loading.run_foldlM_cons hacross]
      rfl
    let walk : Walk := ⟨[aFile.tidy, rootFile.tidy], [aPart]⟩
    have hnew : bFile.tidy ∉ walk.visited := by decide
    rw [@collectModule_eq builder loader _ _ _ _ _ hbChild hbFile]
    exact @run_collect_new builder loader _ walk _ _ _ _ _ _ _ hnew hload hmodules hbPart
  have hnames : rootPom.modules = ["a", "b"] := rfl
  have hmodules : (rootPom.modules.foldlM (builder.collectModule loader (steps + 2) rootFile)
        ⟨[rootFile.tidy], []⟩).run [(["pom.xml"], rootPom)]
      = (.ok ⟨[aAcross.tidy, bFile.tidy, aFile.tidy, rootFile.tidy], [aPart, aAgain, bPart]⟩,
        [(["b", "pom.xml"], bPom), (["a", "pom.xml"], aPom), (["pom.xml"], rootPom)]) := by
    rw [hnames, Loading.run_foldlM_cons ha, Loading.run_foldlM_cons hb]
    rfl
  have hrun : (builder.collect loader (steps + 3) ⟨[], []⟩ rootFile).run [] = _ :=
    run_collect_new List.not_mem_nil hroot hmodules hrootPart
  rw [hrun]
  exact ⟨_, rfl, rfl⟩

theorem build_eq : builder.build tree ⟨"."⟩ = .ok [aPart, aAgain, bPart, rootPart] := by
  have hlimit : 3 ≤ rowLimit := le_trans (by decide) le_rowLimit
  rcases Nat.exists_eq_add_of_le' hlimit with ⟨steps, hsteps⟩
  have hfile : projectFile tree ⟨"."⟩ = rootFile := moduleFile_eq.1
  rw [build_eq_ok, hfile, hsteps]
  exact ⟨isFile_eq.1, rfl, collect_eq steps⟩

def files : List Path := [rootFile, aFile, bFile, aAcross]

theorem listed_of_mem {file : Path} (h : file ∈ files)
    : ∃ pom, Loads loader file pom ∧ ∀ name ∈ pom.modules, Names tree file name
        ∧ moduleFile tree file name ∈ files := by
  rcases loads_eq with ⟨hroot, ha, hb, hacross⟩
  rcases locate?_eq with ⟨hrootAt, _, hbAt, _⟩
  rcases moduleFile_eq with ⟨_, haChild, hbChild, hacrossChild⟩
  have haNames : Names tree rootFile "a" :=
    ⟨_, ["a"], hrootAt, by decide, aText.toUTF8, .inr rfl⟩
  have hbNames : Names tree rootFile "b" :=
    ⟨_, ["b"], hrootAt, by decide, bText.toUTF8, .inr rfl⟩
  have hacrossNames : Names tree bFile "../a" :=
    ⟨_, ["a"], hbAt, by decide, aText.toUTF8, .inr rfl⟩
  simp only [files, List.mem_cons, List.not_mem_nil, or_false] at h
  rcases h with rfl | rfl | rfl | rfl
  . refine ⟨rootPom, hroot, List.forall_mem_cons.2 ⟨⟨haNames, ?_⟩,
      List.forall_mem_singleton.2 ⟨hbNames, ?_⟩⟩⟩
    . exact haChild ▸ by decide
    . exact hbChild ▸ by decide
  . exact ⟨aPom, ha, fun _ => nofun⟩
  . refine ⟨bPom, hb, List.forall_mem_singleton.2 ⟨hacrossNames, ?_⟩⟩
    exact hacrossChild ▸ by decide
  . exact ⟨aPom, hacross, fun _ => nofun⟩

theorem mem_of_reaches {file : Path} (h : Reaches loader rootFile file) : file ∈ files := by
  induction h with
  | refl => exact List.mem_cons_self
  | tail _ hlists ih =>
    rcases hlists with ⟨found, hfound, name, hname, rfl⟩
    rcases listed_of_mem ih with ⟨pom, hpom, hlisted⟩
    obtain rfl := Except.ok.inj (hpom.symm.trans hfound)
    exact (hlisted name hname).2

theorem modelAt_of_mem {file : Path} {model : Model} (h : file ∈ files)
    (hmodel : loader.modelAt file = .ok model)
    : model.parent = none ∧ model.management = [] := by
  rcases modelAt_eq with ⟨hroot, ha, hb, hacross⟩
  simp only [files, List.mem_cons, List.not_mem_nil, or_false] at h
  rcases h with rfl | rfl | rfl | rfl
  . cases hroot.symm.trans hmodel
    exact ⟨rfl, rfl⟩
  . cases ha.symm.trans hmodel
    exact ⟨rfl, rfl⟩
  . cases hb.symm.trans hmodel
    exact ⟨rfl, rfl⟩
  . cases hacross.symm.trans hmodel
    exact ⟨rfl, rfl⟩

theorem short_of_met {path : Path} (h : Met loader rootFile path) : loader.Short path := by
  have hclosed : loader.Closed (· ∈ files) := by
    rintro file asked hfile ⟨model, hmodel, hasks⟩
    rcases modelAt_of_mem hfile hmodel with ⟨hparent, hmanagement⟩
    rcases asks_of_plain (by simp [hmanagement]) hasks with ⟨parent, hsome, _⟩
    rw [hparent] at hsome
    cases hsome
  have hmem := h (· ∈ files) hclosed fun _ => mem_of_reaches
  intro model parent hmodel hparent
  rw [(modelAt_of_mem hmem hmodel).1] at hparent
  cases hparent

end ProjectBuilder.Crossed

namespace ProjectBuilder

open Bundled (builder)

theorem build_arranged_crossed
    : builder.command = none
        ∧ Crossed.tree.isFile (projectFile Crossed.tree ⟨"."⟩) = true
        ∧ (∀ file, Reaches Crossed.loader (projectFile Crossed.tree ⟨"."⟩) file →
          Crossed.tree.isFile file = true → ∃ pom, Loads Crossed.loader file pom)
        ∧ (∀ path, Met Crossed.loader (projectFile Crossed.tree ⟨"."⟩) path →
          Crossed.loader.Short path)
        ∧ ∃ files modules, builder.build Crossed.tree ⟨"."⟩ = .ok modules
          ∧ Arranged builder Crossed.loader (projectFile Crossed.tree ⟨"."⟩) files modules := by
  have hfile : projectFile Crossed.tree ⟨"."⟩ = Crossed.rootFile := Crossed.moduleFile_eq.1
  have his : Crossed.tree.isFile (projectFile Crossed.tree ⟨"."⟩) = true := by decide
  have hloads : ∀ file, Reaches Crossed.loader (projectFile Crossed.tree ⟨"."⟩) file →
      Crossed.tree.isFile file = true → ∃ pom, Loads Crossed.loader file pom := by
    intro file hreached _
    rw [hfile] at hreached
    rcases Crossed.listed_of_mem (Crossed.mem_of_reaches hreached) with ⟨pom, hpom, _⟩
    exact ⟨pom, hpom⟩
  have hshort : ∀ path, Met Crossed.loader (projectFile Crossed.tree ⟨"."⟩) path →
      Crossed.loader.Short path := by
    rw [hfile]
    exact fun _ => Crossed.short_of_met
  refine ⟨rfl, his, hloads, hshort, ?_⟩
  rcases build_arranged rfl his hloads hshort with
    ⟨files, modules, hbuild, harranged, _⟩ | ⟨_, _, _, _, _, _, _, _, hbuild⟩
  . exact ⟨files, modules, hbuild, harranged⟩
  . cases Crossed.build_eq.symm.trans hbuild

/--
All modules of the example are there, and one of them is given twice.
-/
theorem build_crossed_twice
    : (∀ file, Reaches Crossed.loader Crossed.rootFile file → ∃ pom, Loads Crossed.loader file pom
          ∧ ∀ name ∈ pom.modules, Names Crossed.tree file name)
        ∧ projectFile Crossed.tree ⟨"."⟩ = Crossed.rootFile
        ∧ Crossed.tree.locate? Crossed.aFile = Crossed.tree.locate? Crossed.aAcross
        ∧ MadeOf builder Crossed.loader Crossed.aFile Crossed.aPart
        ∧ MadeOf builder Crossed.loader Crossed.aAcross Crossed.aAgain
        ∧ builder.build Crossed.tree ⟨"."⟩
          = .ok [Crossed.aPart, Crossed.aAgain, Crossed.bPart, Crossed.rootPart] := by
  rcases Crossed.loads_eq with ⟨_, ha, _, hacross⟩
  rcases Crossed.locate?_eq with ⟨_, haAt, _, hacrossAt⟩
  rcases Crossed.moduleOf_eq with ⟨_, haPart, _, haAgain⟩
  refine ⟨?_, Crossed.moduleFile_eq.1, haAt.trans hacrossAt.symm, ⟨_, ha, haPart.symm⟩,
    ⟨_, hacross, haAgain.symm⟩, Crossed.build_eq⟩
  intro file hreached
  rcases Crossed.listed_of_mem (Crossed.mem_of_reaches hreached) with ⟨pom, hpom, hlisted⟩
  exact ⟨pom, hpom, fun name hname => (hlisted name hname).1⟩

end ProjectBuilder
end ArtifactAudit
