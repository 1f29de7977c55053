import ArtifactAudit.Proofs.Pom.Management
import ArtifactAudit.Proofs.Resolver.Shadowed

/-!
This module contains what local projects consist of: each module is made of the descriptor that its
file gives. It is found in place of what the provider has by those that depend on it, if they name
it by its packaging.
-/

namespace ArtifactAudit

namespace Pom.Loading

variable {α β : Type} {good : Memo → Prop} {fails : AuditError → Prop}

/--
Whether a computation keeps what holds of all that is remembered, and something holds of its result
then, or of its error.
-/
def Comes (good : Memo → Prop) (fails : AuditError → Prop) (holds : α → Prop) (x : Loading α)
    : Prop :=
  ∀ memo, good memo → good (x.run memo).2
    ∧ ((∃ a, (x.run memo).1 = .ok a ∧ holds a)
      ∨ ∃ error, (x.run memo).1 = .error error ∧ fails error)

theorem Comes.pure {holds : α → Prop} {a : α} (h : holds a)
    : Comes good fails holds (Pure.pure a) :=
  fun _ hmemo => ⟨hmemo, .inl ⟨a, rfl, h⟩⟩

theorem Comes.throw (holds : α → Prop) {error : AuditError} (h : fails error)
    : Comes good fails holds (MonadExcept.throw error) :=
  fun _ hmemo => ⟨hmemo, .inr ⟨error, rfl, h⟩⟩

theorem Comes.mono {holds ends : α → Prop} {x : Loading α} (h : Comes good fails holds x)
    (hends : ∀ a, holds a → ends a)
    : Comes good fails ends x := by
  intro memo hmemo
  rcases h memo hmemo with ⟨hafter, ⟨a, ha, hholds⟩ | hfails⟩
  . exact ⟨hafter, .inl ⟨a, ha, hends a hholds⟩⟩
  . exact ⟨hafter, .inr hfails⟩

theorem Comes.bind {holds : α → Prop} {ends : β → Prop} {x : Loading α} {f : α → Loading β}
    (h : Comes good fails holds x) (hf : ∀ a, holds a → Comes good fails ends (f a))
    : Comes good fails ends (x >>= f) := by
  intro memo hmemo
  have hx := h memo hmemo
  rw [run_bind]
  generalize x.run memo = ended at hx ⊢
  rcases ended with ⟨result, after⟩
  rcases hx with ⟨hafter, ⟨a, ha, hholds⟩ | ⟨error, herror, hfails⟩⟩
  . cases ha
    exact hf a hholds after hafter
  . cases herror
    exact ⟨hafter, .inr ⟨error, rfl, hfails⟩⟩

theorem Comes.foldlM {holds : List α → β → Prop} {f : β → α → Loading β} {as : List α}
    : ∀ {done : List α}, (∀ before a b, a ∈ as → holds before b →
          Comes good fails (holds (before ++ [a])) (f b a)) →
        ∀ b, holds done b → Comes good fails (holds (done ++ as)) (as.foldlM f b) := by
  induction as with
  | nil =>
    intro done _ b hb
    rw [List.append_nil]
    exact .pure hb
  | cons a as ih =>
    intro done hf b hb
    rw [List.foldlM_cons, List.append_cons]
    apply (hf done a b List.mem_cons_self hb).bind
    exact ih fun before a b ha => hf before a b (List.mem_cons_of_mem _ ha)

theorem run_foldlM_cons {f : β → α → Loading β} {a : α} {b next : β} {memo after : Memo}
    (h : (f b a).run memo = (.ok next, after)) (as : List α)
    : ((a :: as).foldlM f b).run memo = (as.foldlM f next).run after := by
  rw [List.foldlM_cons, run_bind, h]

end Pom.Loading

namespace ProjectBuilder

open Pom Loader Loading

variable {builder : ProjectBuilder} {loader : Loader}

theorem le_rowLimit : 257 ≤ rowLimit := by
  have hlimit : FileTree.pathLimit ≠ 0 := by decide
  unfold rowLimit
  generalize FileTree.pathLimit = limit at hlimit ⊢
  exact Nat.le_self_pow hlimit 257

def Reads (builder : ProjectBuilder) (loader : Loader) (part : ProjectModule) : Prop :=
  ∃ file pom, loader.Gives file pom ∧ part = builder.moduleOf loader.tree file pom

theorem Reads.coordinate_eq {part : ProjectModule} (h : builder.Reads loader part)
    : part.coordinate = .withPackaging part.coordinate.group part.coordinate.artifact
        part.coordinate.version part.coordinate.packaging := by
  rcases h with ⟨file, pom, hgives, rfl⟩
  rcases hgives.coordinate_eq with ⟨model, parent, _, hcoordinate⟩
  rcases coordinateOf_eq_ok.1 hcoordinate with ⟨group, artifact, version, _, _, _, heq⟩
  change pom.coordinate = .withPackaging pom.coordinate.group pom.coordinate.artifact
    pom.coordinate.version pom.coordinate.packaging
  rw [heq]
  rfl

def collectModule (builder : ProjectBuilder) (loader : Loader) (steps : Nat) (file : Path)
    (walk : Walk) (name : String) : Loading Walk :=
  let child := projectFile loader.tree ((directoryOf file).join ⟨name⟩)
  if loader.tree.isFile child then builder.collect loader steps walk child
  else throw (.build file (.moduleWithoutFile name))

theorem collectModule_eq {steps : Nat} {file child : Path} {walk : Walk} {name : String}
    (hchild : projectFile loader.tree ((directoryOf file).join ⟨name⟩) = child)
    (hfile : loader.tree.isFile child = true)
    : builder.collectModule loader steps file walk name
        = builder.collect loader steps walk child := by
  rw [collectModule, hchild]
  exact if_pos hfile

theorem collect_new {steps : Nat} {walk : Walk} {file : Path} (h : file.tidy ∉ walk.visited)
    : builder.collect loader (steps + 1) walk file = (do
        let pom ← loader.loadFile file
        let ended ← pom.modules.foldlM (builder.collectModule loader steps file)
          { walk with visited := file.tidy :: walk.visited }
        return { ended with found := ended.found ++ [builder.moduleOf loader.tree file pom] }) := by
  rw [collect, if_neg h]
  rfl

theorem comes_loadFile (loader : Loader) (file : Path)
    : Comes (loader.Sound anyPath) (fun _ => True) (loader.Gives file) (loader.loadFile file) := by
  intro memo hmemo
  rcases sound_loadWithin closed_anyPath _ [] file memo trivial hmemo with ⟨hafter, hgives⟩
  refine ⟨hafter, ?_⟩
  change (∃ pom, ((loader.loadFile file).run memo).1 = .ok pom ∧ _) ∨ _
  cases hrun : ((loader.loadFile file).run memo).1 with
  | ok pom => exact .inl ⟨pom, rfl, hgives pom hrun⟩
  | error error => exact .inr ⟨error, rfl, trivial⟩

def AllRead (builder : ProjectBuilder) (loader : Loader) (walk : Walk) : Prop :=
  ∀ part ∈ walk.found, builder.Reads loader part

theorem comes_collect_allRead (steps : Nat)
    : ∀ (walk : Walk) (file : Path), builder.AllRead loader walk →
        Comes (loader.Sound anyPath) (fun _ => True) (builder.AllRead loader)
          (builder.collect loader steps walk file) := by
  induction steps with
  | zero =>
    intro walk file _
    rw [collect]
    exact .throw _ trivial
  | succ steps ih =>
    intro walk file hwalk
    by_cases hnew : file.tidy ∈ walk.visited
    . rw [collect, if_pos hnew]
      exact .pure hwalk
    . rw [collect_new hnew]
      apply (comes_loadFile loader file).bind
      intro pom hpom
      have hstart : builder.AllRead loader { walk with visited := file.tidy :: walk.visited } :=
        hwalk
      have hloop := @Comes.foldlM _ _ (loader.Sound anyPath) (fun _ => True)
        (fun _ => builder.AllRead loader) (builder.collectModule loader steps file) pom.modules []
      refine (hloop ?_ _ hstart).bind ?_
      . intro _ name walk _ hwalk
        rw [collectModule]
        split
        . exact ih walk _ hwalk
        . exact .throw _ trivial
      . intro walk hwalk
        apply Comes.pure
        intro part hpart
        rcases List.mem_append.1 hpart with hpart | hpart
        . exact hwalk part hpart
        . rw [List.mem_singleton.1 hpart]
          exact ⟨file, pom, hpom, rfl⟩

theorem build_eq_ok {tree : FileTree} {project : Path} {modules : List ProjectModule}
    : builder.build tree project = .ok modules
        ↔
      tree.isFile (projectFile tree project) ∧ builder.compile (projectFile tree project) = .ok ()
        ∧ ∃ walk,
          ((builder.collect (builder.loaderOf tree) rowLimit ⟨[], []⟩
              (projectFile tree project)).run []).1 = .ok walk
            ∧ walk.found = modules := by
  rw [build]
  cases hfile : tree.isFile (projectFile tree project) with
  | false => simp [throw, Bind.bind, Except.bind]
  | true =>
    simp only [Bool.not_true, Bool.false_eq_true, if_false, true_and]
    cases builder.compile (projectFile tree project) with
    | error error => simp [Bind.bind, Except.bind]
    | ok _ =>
      dsimp only [Bind.bind, Except.bind]
      cases ((builder.collect (builder.loaderOf tree) rowLimit ⟨[], []⟩
          (projectFile tree project)).run []).1 with
      | error error => simp
      | ok walk => simp [pure, Except.pure]

theorem reads_of_build {tree : FileTree} {project : Path} {modules : List ProjectModule}
    (h : builder.build tree project = .ok modules)
    : ∀ part ∈ modules, builder.Reads (builder.loaderOf tree) part := by
  rcases build_eq_ok.1 h with ⟨_, _, walk, hwalk, rfl⟩
  have hmemo := sound_nil (builder.loaderOf tree) anyPath
  have hstart : builder.AllRead (builder.loaderOf tree) ⟨[], []⟩ := fun _ => nofun
  rcases (comes_collect_allRead _ _ _ hstart [] hmemo).2 with
    ⟨after, hafter, hread⟩ | ⟨_, hfails, _⟩
  . cases hafter.symm.trans hwalk
    exact hread
  . cases hfails.symm.trans hwalk

theorem run_collect_new {steps : Nat} {walk ended : Walk} {file : Path} {memo loaded after : Memo}
    {pom : Effective} {part : ProjectModule} (hnew : file.tidy ∉ walk.visited)
    (hload : (loader.loadFile file).run memo = (.ok pom, loaded))
    (hmodules : (pom.modules.foldlM (builder.collectModule loader steps file)
        { walk with visited := file.tidy :: walk.visited }).run loaded = (.ok ended, after))
    (hpart : builder.moduleOf loader.tree file pom = part)
    : (builder.collect loader (steps + 1) walk file).run memo
        = (.ok { ended with found := ended.found ++ [part] }, after) := by
  rw [collect_new hnew, Loading.run_bind, hload]
  dsimp only
  rw [Loading.run_bind, hmodules, ← hpart]
  rfl

theorem run_collect_leaf {steps : Nat} {walk : Walk} {file : Path} {memo after : Memo}
    {pom : Effective} {part : ProjectModule} (hnew : file.tidy ∉ walk.visited)
    (hload : (loader.loadFile file).run memo = (.ok pom, after)) (hleaf : pom.modules = [])
    (hpart : builder.moduleOf loader.tree file pom = part)
    : (builder.collect loader (steps + 1) walk file).run memo
        = (.ok ⟨file.tidy :: walk.visited, walk.found ++ [part]⟩, after) := by
  have hmodules : (pom.modules.foldlM (builder.collectModule loader steps file)
      { walk with visited := file.tidy :: walk.visited }).run after
        = (.ok { walk with visited := file.tidy :: walk.visited }, after) := by
    rw [hleaf]
    rfl
  exact run_collect_new hnew hload hmodules hpart

end ProjectBuilder

def ProjectModule.IsFor (part : ProjectModule) (c : Coordinate) : Prop :=
  part.coordinate.group = c.group ∧ part.coordinate.artifact = c.artifact
    ∧ part.coordinate.version = c.version

namespace Resolver

variable {Memory : Type} {builder : ProjectBuilder} {resolver : Resolver Memory} {project : Path}
  {modules : List ProjectModule}

theorem withModules_eq (modules : List ProjectModule)
    : ∀ resolver : Resolver Memory,
        ∃ overlay, resolver.withModules modules = { resolver with overlay } := by
  induction modules with
  | nil => exact fun resolver => ⟨resolver.overlay, rfl⟩
  | cons part modules ih =>
    intro resolver
    rcases ih (resolver.addLocal part.coordinate part.artifact) with ⟨overlay, heq⟩
    exact ⟨overlay, heq⟩

theorem coordinate_eq_iff_of_build (hbuild : builder.build resolver.tree project = .ok modules)
    {part : ProjectModule} (hpart : part ∈ modules) {d : Coordinate}
    (hd : d = .ofParts d.group d.artifact d.version)
    : part.coordinate = d
        ↔ part.IsFor d ∧ part.coordinate.packaging = Coordinate.defaultPackaging := by
  constructor
  . rintro rfl
    refine ⟨⟨rfl, rfl, rfl⟩, ?_⟩
    rw [hd]
    rfl
  . rintro ⟨⟨hgroup, hartifact, hversion⟩, hpackaging⟩
    rw [(ProjectBuilder.reads_of_build hbuild part hpart).coordinate_eq, hd, hgroup, hartifact,
      hversion, hpackaging]
    rfl

/--
A dependency of a module that leaves packaging and classifier to the defaults is found among the
modules if one that it names has the default packaging: the last such module counts then, and the
provider is not asked. It is taken from the provider if all modules that it names have another
packaging.
-/
theorem addModules_build (hbuild : builder.build resolver.tree project = .ok modules)
    (hoverlay : resolver.overlay = ∅)
    : Outside (resolver.withModules modules) ((addModules modules).run resolver.fresh).2.tree
          ((addModules modules).run resolver.fresh).2.memory
        ∧ ∀ after, (addModules modules).run resolver.fresh = (.ok (), after) →
          ∀ part ∈ modules, moduleOf? modules part.coordinate = some part.artifact →
            ∀ d ∈ part.artifact.dependencies, d = .ofParts d.group d.artifact d.version →
              ∃ summary tree memory, after.get? d = some summary
                ∧ Outside (resolver.withModules modules) tree memory
                ∧ ((∃ sibling ∈ modules, sibling.IsFor d
                    ∧ sibling.coordinate.packaging = Coordinate.defaultPackaging) →
                  (resolver.withModules modules).overlay.get? d ≠ none
                    ∧ ∃ sibling ∈ modules, sibling.coordinate = d
                      ∧ moduleOf? modules d = some sibling.artifact
                      ∧ ∃ symbols,
                        ClassSource.symbolsAt tree resolver.skipDebug sibling.artifact.location
                            = .ok symbols
                          ∧ summary = .ofSymbols d summary.declared symbols)
                ∧ ((∀ sibling ∈ modules, sibling.IsFor d →
                    sibling.coordinate.packaging ≠ Coordinate.defaultPackaging) →
                  ∃ artifact, resolver.provider.answer tree memory d = .ok artifact) := by
  rcases addModules_shadowed resolver modules with ⟨hshadowed, hdone⟩
  refine ⟨hshadowed.outside, ?_⟩
  intro after hafter part hpart hlast d hd hdefault
  rcases hdone after hafter part hpart hlast d hd with
    ⟨summary, hget, _, tree, memory, houtside, hsource⟩
  have hnames := fun sibling (hsibling : sibling ∈ modules) =>
    coordinate_eq_iff_of_build hbuild hsibling hdefault
  have hoverlay : (resolver.withModules modules).overlay.get? d = moduleOf? modules d := by
    rw [overlay_withModules, hoverlay, CoordinateMap.get?_empty, Option.or_none]
  rcases withModules_eq modules resolver with ⟨overlay, heq⟩
  refine ⟨summary, tree, memory, hget, houtside, ?_, ?_⟩
  . rintro ⟨sibling, hsibling, hfor⟩
    obtain rfl := (hnames sibling hsibling).2 hfor
    rcases exists_moduleOf? hsibling with ⟨other, hother, hcoordinate, hmodule⟩
    rw [hoverlay, hmodule] at hsource ⊢
    rw [heq] at hsource
    exact ⟨by simp, other, hother, hcoordinate, rfl, hsource.1⟩
  . intro hother
    have hnone : moduleOf? modules d = none := by
      rw [moduleOf?_eq_none]
      intro sibling hsibling hsame
      have hfor := (hnames sibling hsibling).1 hsame
      exact hother sibling hsibling hfor.1 hfor.2
    rw [hoverlay, hnone, heq] at hsource
    exact hsource

end Resolver

namespace ProjectBuilder.Bundled

open Pom Loader

def rootText : String :=
  descriptor "g" "root" (element "version" "1" ++ element "packaging" "pom" ++
    element "modules" (element "module" "lib" ++ element "module" "app") ++
    element "dependencies" (element "dependency" (element "groupId" "g" ++
      element "artifactId" "app" ++ element "version" "1")))

def libText : String :=
  descriptor "g" "lib" (element "version" "1" ++ element "packaging" "bundle")

def appText : String :=
  descriptor "g" "app" (element "version" "1" ++
    element "dependencies" (element "dependency" (element "groupId" "g" ++
      element "artifactId" "lib" ++ element "version" "1")))

def classFile : ByteArray :=
  ⟨#[202, 254, 186, 190, 0, 0, 0, 61, 0, 3, 1, 0, 3, 98, 47, 66, 7, 0, 1, 0, 33, 0, 2, 0, 0, 0, 0,
    0, 0, 0, 0, 0, 0]⟩

/--
The project of the example: a module depends on another one, which has a packaging of its own. What
was published of that one before has no classes.
-/
def tree : FileTree :=
  let classes (entries : List (String × FileNode)) : String × FileNode :=
    ("target", .directory [("classes", .directory entries)])
  ⟨.directory
    [("app", .directory [("pom.xml", .file appText.toUTF8), classes []]),
      ("lib", .directory
        [("pom.xml", .file libText.toUTF8), classes [("b.class", .file classFile)]]),
      ("old", .directory []),
      ("pom.xml", .file rootText.toUTF8)], []⟩

def loader : Loader := ⟨tree, ⟨"repo"⟩⟩

def builder : ProjectBuilder where
  repository := ⟨"repo"⟩

def root : Coordinate := .withPackaging "g" "root" "1" "pom"

def bundle : Coordinate := .withPackaging "g" "lib" "1" "bundle"

def app : Coordinate := .ofParts "g" "app" "1"

def lib : Coordinate := .ofParts "g" "lib" "1"

def model (c : Coordinate) (packaging : Option String) (dependencies modules : List String) :
    Model where
  group := some c.group
  artifact := some c.artifact
  version := some c.version
  packaging := packaging
  parent := none
  properties := []
  management := []
  dependencies := dependencies.map fun artifact =>
    { group := some "g", artifact := some artifact, version := some "1" }
  modules := modules

def rootModel : Model := model root (some "pom") ["app"] ["lib", "app"]

def libModel : Model := model bundle (some "bundle") [] []

def appModel : Model := model app none ["lib"] []

set_option maxRecDepth 4000 in
theorem modelAt_eq
    : loader.modelAt ⟨"./pom.xml"⟩ = .ok rootModel
        ∧ loader.modelAt ⟨"./lib/pom.xml"⟩ = .ok libModel
        ∧ loader.modelAt ⟨"./app/pom.xml"⟩ = .ok appModel := by
  refine ⟨?_, ?_, ?_⟩
  all_goals
    apply modelAt_of_toList
    . rfl
    . simp [rootText, libText, appText, descriptor, toList_element]
      rfl
    . rw [Model.parse, Xml.parse?, String.toList_ofList]
      rfl

def effective (c : Coordinate) (model : Model) (dependencies : List Coordinate) : Effective where
  coordinate := c
  properties := propertiesOf c model none
  management := ∅
  dependencies := dependencies.map (⟨·, "compile", false⟩)
  modules := model.modules

def rootPom : Effective := effective root rootModel [app]

def libPom : Effective := effective bundle libModel []

def appPom : Effective := effective app appModel [lib]

theorem plain_eq
    : plain ⟨"./pom.xml"⟩ rootModel none = .ok rootPom
        ∧ plain ⟨"./lib/pom.xml"⟩ libModel none = .ok libPom
        ∧ plain ⟨"./app/pom.xml"⟩ appModel none = .ok appPom := by
  decide

theorem locate?_eq
    : loader.tree.locate? ⟨"./pom.xml"⟩ = some ["pom.xml"]
        ∧ loader.tree.locate? ⟨"./lib/pom.xml"⟩ = some ["lib", "pom.xml"]
        ∧ loader.tree.locate? ⟨"./app/pom.xml"⟩ = some ["app", "pom.xml"] := by
  decide

theorem projectFile_eq
    : projectFile loader.tree ⟨"."⟩ = ⟨"./pom.xml"⟩
        ∧ projectFile loader.tree ((directoryOf ⟨"./pom.xml"⟩).join ⟨"lib"⟩)
          = ⟨"./lib/pom.xml"⟩
        ∧ projectFile loader.tree ((directoryOf ⟨"./pom.xml"⟩).join ⟨"app"⟩)
          = ⟨"./app/pom.xml"⟩ := by
  decide

theorem isFile_eq
    : loader.tree.isFile ⟨"./pom.xml"⟩ = true ∧ loader.tree.isFile ⟨"./lib/pom.xml"⟩ = true
        ∧ loader.tree.isFile ⟨"./app/pom.xml"⟩ = true := by
  decide

def libPart : ProjectModule := ⟨bundle, ⟨⟨"./lib/target/classes"⟩, []⟩⟩

def appPart : ProjectModule := ⟨app, ⟨⟨"./app/target/classes"⟩, [lib]⟩⟩

def rootPart : ProjectModule := ⟨root, ⟨⟨"./pom.xml"⟩, [app]⟩⟩

def modules : List ProjectModule := [libPart, appPart, rootPart]

theorem moduleOf_eq
    : builder.moduleOf loader.tree ⟨"./lib/pom.xml"⟩ libPom = libPart
        ∧ builder.moduleOf loader.tree ⟨"./app/pom.xml"⟩ appPom = appPart
        ∧ builder.moduleOf loader.tree ⟨"./pom.xml"⟩ rootPom = rootPart := by
  decide

theorem collect_eq (steps : Nat)
    : ∃ walk, ((builder.collect loader (steps + 2) ⟨[], []⟩ ⟨"./pom.xml"⟩).run []).1 = .ok walk
        ∧ walk.found = modules := by
  rcases modelAt_eq with ⟨hrootModel, hlibModel, happModel⟩
  rcases plain_eq with ⟨hrootPlain, hlibPlain, happPlain⟩
  rcases locate?_eq with ⟨hrootAt, hlibAt, happAt⟩
  rcases projectFile_eq with ⟨_, hlibChild, happChild⟩
  rcases isFile_eq with ⟨_, hlibFile, happFile⟩
  rcases moduleOf_eq with ⟨hlibPart, happPart, hrootPart⟩
  let rootFile : Path := ⟨"./pom.xml"⟩
  let libFile : Path := ⟨"./lib/pom.xml"⟩
  let appFile : Path := ⟨"./app/pom.xml"⟩
  have hroot := run_loadFile_plain hrootAt List.lookup_nil hrootModel rfl (by decide) hrootPlain
  have hlib : (builder.collectModule loader (steps + 1) rootFile ⟨[rootFile.tidy], []⟩ "lib").run
        [(["pom.xml"], rootPom)]
      = (.ok ⟨[libFile.tidy, rootFile.tidy], [libPart]⟩,
        [(["lib", "pom.xml"], libPom), (["pom.xml"], rootPom)]) := by
    have hforgotten : List.lookup ["lib", "pom.xml"] [(["pom.xml"], rootPom)] = none := rfl
    have hload := run_loadFile_plain hlibAt hforgotten hlibModel rfl (by decide) hlibPlain
    rw [collectModule_eq hlibChild hlibFile]
    exact run_collect_leaf (by decide) hload rfl hlibPart
  have happ : (builder.collectModule loader (steps + 1) rootFile
        ⟨[libFile.tidy, rootFile.tidy], [libPart]⟩ "app").run
        [(["lib", "pom.xml"], libPom), (["pom.xml"], rootPom)]
      = (.ok ⟨[appFile.tidy, libFile.tidy, rootFile.tidy], [libPart, appPart]⟩,
        [(["app", "pom.xml"], appPom), (["lib", "pom.xml"], libPom), (["pom.xml"], rootPom)]) := by
    have hforgotten : List.lookup ["app", "pom.xml"]
        [(["lib", "pom.xml"], libPom), (["pom.xml"], rootPom)] = none := rfl
    have hload := run_loadFile_plain happAt hforgotten happModel rfl (by decide) happPlain
    rw [collectModule_eq happChild happFile]
    exact run_collect_leaf (by decide) hload rfl happPart
  have hnames : rootPom.modules = ["lib", "app"] := rfl
  have hmodules : (rootPom.modules.foldlM (builder.collectModule loader (steps + 1) rootFile)
        ⟨[rootFile.tidy], []⟩).run [(["pom.xml"], rootPom)]
      = (.ok ⟨[appFile.tidy, libFile.tidy, rootFile.tidy], [libPart, appPart]⟩,
        [(["app", "pom.xml"], appPom), (["lib", "pom.xml"], libPom), (["pom.xml"], rootPom)]) := by
    rw [hnames, Loading.run_foldlM_cons hlib, Loading.run_foldlM_cons happ]
    rfl
  have hrun : (builder.collect loader (steps + 2) ⟨[], []⟩ rootFile).run [] = _ :=
    run_collect_new List.not_mem_nil hroot hmodules hrootPart
  rw [hrun]
  exact ⟨_, rfl, rfl⟩

theorem build_eq : builder.build tree ⟨"."⟩ = .ok modules := by
  have hlimit : 2 ≤ rowLimit := le_trans (by decide) le_rowLimit
  rcases Nat.exists_eq_add_of_le' hlimit with ⟨steps, hsteps⟩
  have hfile : projectFile tree ⟨"."⟩ = ⟨"./pom.xml"⟩ := projectFile_eq.1
  rw [build_eq_ok, hfile, hsteps]
  exact ⟨isFile_eq.1, rfl, collect_eq steps⟩

theorem symbolsAt_lib
    : ClassSource.symbolsAt tree false ⟨"./lib/target/classes"⟩ = .ok ⟨.ofList ["b/B"], ∅⟩ := by
  have hfind : tree.find? ⟨"./lib/target/classes"⟩
      = some (.directory [("b.class", .file classFile)]) := by
    rfl
  have hfiles : ClassSource.visible ⟨"./lib/target/classes"⟩
        (.directory [("b.class", .file classFile)])
      = .ok [(⟨"./lib/target/classes/b.class"⟩, classFile)] := by
    have husable : FileTree.isUsable ⟨"./lib/target/classes"⟩ = true := by decide
    rw [ClassSource.visible, if_pos husable]
    rfl
  have hsources : ([((⟨"./lib/target/classes/b.class"⟩ : Path), classFile)].mapM
        fun file => ClassSource.ofMember file.1 file.2)
      = .ok [[⟨"./lib/target/classes/b.class", classFile.data.toList⟩]] := by
    decide
  rw [ClassSource.symbolsAt_directory hfind hfiles hsources]
  decide +kernel

theorem symbolsAt_empty {location : Path} (hfind : tree.find? location = some (.directory []))
    (husable : FileTree.isUsable location = true)
    : ClassSource.symbolsAt tree false location = .ok ∅ := by
  have hfiles : ClassSource.visible location (.directory []) = .ok [] := by
    rw [ClassSource.visible, if_pos husable]
    rfl
  rw [ClassSource.symbolsAt_directory hfind hfiles List.mapM_nil, List.flatten_nil,
    List.mergeSort_nil]
  rfl

def resolver : Resolver Unit where
  provider := Inventory.provider (CoordinateMap.insert ∅ lib ⟨⟨"old"⟩, []⟩)
  memory := ()
  tree := tree

theorem moduleOf?_modules
    : ∀ part ∈ modules, Resolver.moduleOf? modules part.coordinate = some part.artifact := by
  decide

theorem artifact_module
    : ∀ part ∈ modules,
        (resolver.withModules modules).supply.artifact part.coordinate = .ok part.artifact := by
  intro part hpart
  rw [Resolver.supply]
  dsimp only
  rw [Resolver.overlay_withModules, moduleOf?_modules part hpart, Option.some_or]

theorem artifact_lib
    : (resolver.withModules modules).supply.artifact lib = .ok ⟨⟨"old"⟩, []⟩ := by
  have hmodule : Resolver.moduleOf? modules lib = none := by decide
  have hoverlay : resolver.overlay.get? lib = none := CoordinateMap.get?_empty lib
  rw [Resolver.supply]
  dsimp only
  rw [Resolver.overlay_withModules, hmodule, hoverlay]
  change Inventory.fetch (CoordinateMap.insert ∅ lib ⟨⟨"old"⟩, []⟩) lib = _
  rw [Inventory.fetch, CoordinateMap.get?_insert, if_pos rfl]

theorem yields_lib
    : Supply.Yields (resolver.withModules modules).supply lib (.ofSymbols lib [] ∅) := by
  have hfind : tree.find? ⟨"old"⟩ = some (.directory []) := by rfl
  have hsymbols := symbolsAt_empty hfind (by decide)
  exact .intro artifact_lib hsymbols (List.forall_mem_nil fun d =>
    Supply.Yields (resolver.withModules modules).supply d (.ofSymbols lib [] ∅))

theorem clean_module
    : ∀ part ∈ modules, Supply.Clean (resolver.withModules modules).supply part.coordinate := by
  have hlib : Supply.Clean (resolver.withModules modules).supply bundle :=
    .intro (artifact_module libPart (by simp [modules])) symbolsAt_lib (by simp [libPart])
  have happ : Supply.Clean (resolver.withModules modules).supply app := by
    have hfind : tree.find? appPart.artifact.location = some (.directory []) := by rfl
    have hsymbols := symbolsAt_empty hfind (by decide)
    refine .intro (artifact_module appPart (by simp [modules])) hsymbols ?_
    simpa [appPart] using yields_lib.clean
  have hroot : Supply.Clean (resolver.withModules modules).supply root := by
    have hsymbols : ClassSource.symbolsAt tree false rootPart.artifact.location = .ok ∅ := by
      decide +kernel
    refine .intro (artifact_module rootPart (by simp [modules])) hsymbols ?_
    simpa [rootPart] using happ
  intro part hpart
  rcases hpart with _ | ⟨_, _ | ⟨_, _ | ⟨_, _ | ⟨_, _⟩⟩⟩⟩
  . exact hlib
  . exact happ
  . exact hroot

theorem exists_addModules
    : ∃ after, (Resolver.addModules modules).run resolver.fresh = (.ok (), after)
        ∧ after.get? lib = some (.ofSymbols lib [] ∅) := by
  rcases Resolver.exists_addModules_of_clean rfl (fun _ _ => rfl) clean_module with
    ⟨after, hafter, hknows⟩
  have hmem : appPart ∈ modules := by simp [modules]
  rcases (Resolver.addModules_shadowed resolver modules).2 after hafter appPart hmem
    (moduleOf?_modules appPart hmem) lib List.mem_cons_self with ⟨summary, hget, _⟩
  refine ⟨after, hafter, ?_⟩
  rw [hget, (hknows.yields lib summary hget).unique yields_lib]

end ProjectBuilder.Bundled

namespace Resolver

open ProjectBuilder Bundled

theorem addModules_build_bundled
    : builder.build resolver.tree ⟨"."⟩ = .ok Bundled.modules
        ∧ resolver.overlay = ∅
        ∧ ∃ after, (addModules Bundled.modules).run resolver.fresh = (.ok (), after)
          ∧ (∃ summary symbols, after.get? app = some summary
            ∧ (∃ tree memory, Outside (resolver.withModules Bundled.modules) tree memory
              ∧ ClassSource.symbolsAt tree false ⟨"./app/target/classes"⟩ = .ok symbols)
            ∧ summary = .ofSymbols app summary.declared symbols)
          ∧ ∃ summary tree memory artifact, after.get? lib = some summary
            ∧ Outside (resolver.withModules Bundled.modules) tree memory
            ∧ resolver.provider.answer tree memory lib = .ok artifact := by
  have hbuild : builder.build resolver.tree ⟨"."⟩ = .ok Bundled.modules := build_eq
  have hoverlay : resolver.overlay = ∅ := rfl
  rcases exists_addModules with ⟨after, hafter, _⟩
  have hall := (addModules_build hbuild hoverlay).2 after hafter
  refine ⟨hbuild, hoverlay, after, hafter, ?_, ?_⟩
  . have hmem : rootPart ∈ Bundled.modules := by simp [Bundled.modules]
    rcases hall rootPart hmem (moduleOf?_modules rootPart hmem) app List.mem_cons_self rfl with
      ⟨summary, tree, memory, hget, houtside, hlocal, _⟩
    have hsibling : appPart ∈ Bundled.modules := by simp [Bundled.modules]
    rcases (hlocal ⟨appPart, hsibling, ⟨rfl, rfl, rfl⟩, rfl⟩).2 with
      ⟨sibling, _, _, hmodule, symbols, hsymbols, heq⟩
    have hsame := Option.some.inj ((moduleOf?_modules appPart hsibling).symm.trans hmodule)
    rw [← hsame] at hsymbols
    exact ⟨summary, symbols, hget, ⟨tree, memory, houtside, hsymbols⟩, heq⟩
  . have hmem : appPart ∈ Bundled.modules := by simp [Bundled.modules]
    rcases hall appPart hmem (moduleOf?_modules appPart hmem) lib List.mem_cons_self rfl with
      ⟨summary, tree, memory, hget, houtside, _, hother⟩
    have hnone : ∀ sibling ∈ Bundled.modules, sibling.IsFor lib →
        sibling.coordinate.packaging ≠ Coordinate.defaultPackaging := by
      have hpackaging : ∀ sibling ∈ Bundled.modules, sibling.coordinate.artifact = lib.artifact →
          sibling.coordinate.packaging ≠ Coordinate.defaultPackaging := by decide
      exact fun sibling hsibling hfor => hpackaging sibling hsibling hfor.2.1
    rcases hother hnone with ⟨artifact, hanswer⟩
    exact ⟨summary, tree, memory, artifact, hget, houtside, hanswer⟩

/--
A module has the packaging that stands for a bundle, and another one depends on it. What was
published before is taken, not what the module is made of.
-/
theorem addModules_bundled_differs
    : builder.build resolver.tree ⟨"."⟩ = .ok Bundled.modules
        ∧ (∃ part ∈ Bundled.modules, Coordinate.ofParts "g" "lib" "1" ∈ part.artifact.dependencies)
        ∧ (∃ sibling ∈ Bundled.modules, sibling.IsFor (.ofParts "g" "lib" "1")
          ∧ sibling.coordinate.packaging = "bundle"
          ∧ ClassSource.symbolsAt resolver.tree false sibling.artifact.location
            = .ok ⟨.ofList ["b/B"], ∅⟩)
        ∧ ∃ after summary, (addModules Bundled.modules).run resolver.fresh = (.ok (), after)
          ∧ after.get? (.ofParts "g" "lib" "1") = some summary
          ∧ summary.defined ≠ .ofList ["b/B"] := by
  rcases exists_addModules with ⟨after, hafter, hget⟩
  refine ⟨build_eq, ⟨appPart, by simp [Bundled.modules], List.mem_cons_self⟩, ?_, ?_⟩
  . exact ⟨libPart, by simp [Bundled.modules], ⟨rfl, rfl, rfl⟩, rfl, symbolsAt_lib⟩
  . exact ⟨after, _, hafter, hget, by decide⟩

end Resolver
end ArtifactAudit
