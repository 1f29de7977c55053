import ArtifactAudit.Proofs.Pom.Listing

/-!
This module contains what some requests in turn come to: what each of them comes to where nothing has
been loaded before, with two provisos and an example for each of them.
-/

namespace ArtifactAudit.Pom

namespace Loader

open Inquiry

/--
Each of some requests in turn gives what it would give first, as long as the way from a descriptor to
its parent in the project makes no path that is too long. It would give the same in all other orders
of tables if the tables that are imported are unambiguous.
-/
theorem performAll_eq_map_fresh (loader : Loader) (requests : List Request)
    (hshort : ∀ path, loader.Tried requests path → loader.Short path)
    : ((loader.performAll requests).run []).1
          = requests.map (fun request => ((loader.perform request).run []).1)
        ∧ (loader.Unambiguous (loader.Tried requests) → ∀ listing,
            ((loader.performAll requests).run []).1
              = requests.map fun request =>
                (((loader.listedBy listing).perform request).run []).1) := by
  have hfresh := performAll_eq_map loader requests hshort
  refine ⟨hfresh, ?_⟩
  intro hunambiguous listing
  rw [hfresh]
  apply List.map_congr_left
  intro request hrequest
  have htried : loader.Tried requests (loader.pathFor request) :=
    fun met _ hrequests => hrequests request hrequest
  rw [run_perform_listedBy (closed_tried loader requests) hunambiguous listing htried
    (sound_nil _ _)]

namespace Below

/--
The project of the example: the descriptor in a directory has the one above it for its parent, and
imports a table from the repository.
-/
def tree : FileTree :=
  let root := descriptor "g" "root" (element "version" "1")
  let inner := descriptor "g" "a" (element "version" "1" ++ element "parent"
      (element "groupId" "g" ++ element "artifactId" "root" ++ element "version" "1") ++
    element "dependencyManagement" (element "dependencies" (element "dependency"
      (element "groupId" "g" ++ element "artifactId" "bom" ++ element "version" "1" ++
        element "type" "pom" ++ element "scope" "import"))) ++
    element "dependencies" (element "dependency"
      (element "groupId" "g" ++ element "artifactId" "c")))
  let bom := descriptor "g" "bom" (element "version" "1" ++
    element "dependencyManagement" (element "dependencies"
      (element "dependency" (element "groupId" "g" ++ element "artifactId" "c" ++
          element "version" "1") ++
        element "dependency" (element "groupId" "g" ++ element "artifactId" "d" ++
          element "version" "2"))))
  ⟨.directory
    [("a", .directory [("pom.xml", .file inner.toUTF8)]), ("pom.xml", .file root.toUTF8),
      ("repo", .directory [("g", .directory [("bom", .directory [("1", .directory
        [("bom-1.pom", .file bom.toUTF8)])])])])], []⟩

def project : Loader := ⟨tree, ⟨"repo"⟩⟩

def parent : Parent := ⟨"g", "root", "1", none⟩

def inner : Path := ⟨"a/pom.xml"⟩

def bom : Path := project.pathOf "g" "bom" "1"

def imported : RawDependency where
  group := some "g"
  artifact := some "bom"
  version := some "1"
  scope := some "import"
  packaging := some "pom"

def used : RawDependency where
  group := some "g"
  artifact := some "c"

def managed (artifact version : String) : RawDependency where
  group := some "g"
  artifact := some artifact
  version := some version

def innerModel : Model :=
  ⟨some "g", some "a", some "1", none, some parent, [], [imported], [used], []⟩

def bomModel : Model :=
  ⟨some "g", some "bom", some "1", none, none, [], [managed "c" "1", managed "d" "2"], [], []⟩

def rootModel : Model := ⟨some "g", some "root", some "1", none, none, [], [], [], []⟩

def above : Path := ⟨"a/../pom.xml"⟩

def requests : List Request :=
  [.file inner, .coordinate (.withPackaging "g" "root" "1" "jar"),
    .coordinate (.withPackaging "g" "bom" "1" "pom"), .file inner]

set_option maxRecDepth 4000 in
theorem modelAt_inner : project.modelAt inner = .ok innerModel := by
  apply modelAt_of_toList
  . rfl
  . simp [descriptor, toList_element]
    rfl
  . rw [Model.parse, Xml.parse?, String.toList_ofList]
    rfl

theorem modelAt_above : project.modelAt above = .ok rootModel := by
  apply modelAt_of_toList
  . rfl
  . simp [descriptor, toList_element]
    rfl
  . rw [Model.parse, Xml.parse?, String.toList_ofList]
    rfl

set_option maxRecDepth 4000 in
theorem modelAt_bom : project.modelAt bom = .ok bomModel := by
  apply modelAt_of_toList
  . rfl
  . simp [descriptor, toList_element]
    rfl
  . rw [Model.parse, Xml.parse?, String.toList_ofList]
    rfl

theorem parentFile?_inner : project.parentFile? inner parent = some above := rfl

def tried : List Path := [inner, above, project.published parent, bom]

theorem eq_bom {c : Coordinate} {properties : Properties} {group artifact version : String}
    (hname : nameOf c properties imported = .ok (group, artifact))
    (hversion : resolve? properties imported.version = some version)
    : project.pathOf group artifact version = bom := by
  have hname' : nameOf c properties imported = .ok ("g", "bom") := rfl
  have hversion' : resolve? properties imported.version = some "1" := rfl
  cases hname'.symm.trans hname
  cases hversion'.symm.trans hversion
  rfl

theorem modelAt_of_tried {path : Path} {model : Model} (h : path ∈ tried)
    (hmodel : project.modelAt path = .ok model)
    : (path = inner ∧ model = innerModel)
        ∨ model.parent = none ∧ ∀ entry ∈ model.management, isImport entry = false := by
  have hmissing : project.tree.locate? (project.published parent) = none := rfl
  simp only [tried, List.mem_cons, List.not_mem_nil, or_false] at h
  rcases h with rfl | rfl | rfl | rfl
  . exact .inl ⟨rfl, Except.ok.inj (hmodel.symm.trans modelAt_inner)⟩
  . obtain rfl := Except.ok.inj (modelAt_above.symm.trans hmodel)
    exact .inr ⟨rfl, nofun⟩
  . rcases located_of_modelAt hmodel with ⟨location, hlocation⟩
    rw [hmissing] at hlocation
    cases hlocation
  . obtain rfl := Except.ok.inj (modelAt_bom.symm.trans hmodel)
    exact .inr ⟨rfl, by decide⟩

theorem closed_tried : project.Closed (· ∈ tried) := by
  rintro path asked hpath ⟨model, hmodel, hasks⟩
  rcases modelAt_of_tried hpath hmodel with ⟨rfl, rfl⟩ | ⟨hnone, hplain⟩
  . rcases asks_inquiry hasks with ⟨_, hparent, hasked | rfl⟩ |
      ⟨entry, hentry, _, c, properties, group, artifact, version, hname, hversion, rfl⟩
    . cases hparent
      obtain rfl := Option.some.inj (parentFile?_inner.symm.trans hasked)
      simp [tried]
    . cases hparent
      simp [tried]
    . obtain rfl := List.mem_singleton.1 hentry
      rw [eq_bom hname hversion]
      simp [tried]
  . rcases asks_of_plain hplain hasks with ⟨_, hparent, _⟩
    rw [hnone] at hparent
    cases hparent

theorem short {path : Path} (h : path ∈ tried) : project.Short path := by
  intro model own hmodel hparent _
  rcases modelAt_of_tried h hmodel with ⟨rfl, rfl⟩ | ⟨hnone, _⟩
  . cases hparent
    exact ⟨rfl, rfl⟩
  . rw [hnone] at hparent
    cases hparent

theorem unambiguous : project.Unambiguous (· ∈ tried) := by
  intro path asked found hpath himports hgives
  have hasked : asked = bom := by
    cases himports with
    | intro model_eq _ _ mem isImport_eq name_eq version_eq =>
      rcases modelAt_of_tried hpath model_eq with ⟨rfl, rfl⟩ | ⟨_, hplain⟩
      . obtain rfl := List.mem_singleton.1 mem
        exact eq_bom name_eq version_eq
      . rw [hplain _ mem] at isImport_eq
        cases isImport_eq
  subst hasked
  have hplain : (plain bom bomModel none).toOption.map
        (fun found => decide (∀ entry ∈ found.management.entries,
          IsPlain entry.1.1 ∧ IsPlain entry.1.2))
      = some true := by
    decide +kernel
  rw [hgives.plain_eq modelAt_bom rfl (by decide)] at hplain
  exact Management.unambiguous_of_plain (of_decide_eq_true (Option.some.inj hplain))

end Below

theorem performAll_eq_map_fresh_below
    : (∀ path, Below.project.Tried Below.requests path → Below.project.Short path)
        ∧ Below.project.Unambiguous (Below.project.Tried Below.requests)
        ∧ ∀ listing, ((Below.project.performAll Below.requests).run []).1
          = Below.requests.map fun request =>
            (((Below.project.listedBy listing).perform request).run []).1 := by
  have htried : ∀ path, Below.project.Tried Below.requests path → path ∈ Below.tried := by
    intro path htried
    apply htried (· ∈ Below.tried) Below.closed_tried
    decide
  have hshort : ∀ path, Below.project.Tried Below.requests path → Below.project.Short path :=
    fun path hpath => Below.short (htried path hpath)
  have hunambiguous : Below.project.Unambiguous (Below.project.Tried Below.requests) :=
    fun path asked found hpath => Below.unambiguous path asked found (htried path hpath)
  exact ⟨hshort, hunambiguous,
    (performAll_eq_map_fresh Below.project Below.requests hshort).2 hunambiguous⟩

namespace Below

/--
A path to the inner directory that leads into it and out again some times before.
-/
def roundabout : Nat → String
  | 0 => "././a"
  | times + 1 => "a" ++ String.singleton '/' ++ (".." ++ String.singleton '/' ++ roundabout times)

def roundaboutFile (times : Nat) : Path :=
  ⟨roundabout times ++ String.singleton '/' ++ "pom.xml"⟩

theorem parts_roundabout (times : Nat)
    : ∃ before, Text.parts '/' (roundabout times) = before ++ ["a"] := by
  induction times with
  | zero => exact ⟨[".", "."], by decide⟩
  | succ times ih =>
    rcases ih with ⟨before, hbefore⟩
    refine ⟨"a" :: ".." :: before, ?_⟩
    rw [roundabout, Text.parts_append, Text.parts_append, hbefore]
    rfl

theorem utf8ByteSize_roundabout (times : Nat)
    : (roundabout times).utf8ByteSize = 5 * times + 5 := by
  induction times with
  | zero => rfl
  | succ times ih =>
    have hslash : (String.singleton '/').utf8ByteSize = 1 := rfl
    have ha : "a".utf8ByteSize = 1 := rfl
    have hup : "..".utf8ByteSize = 2 := rfl
    rw [roundabout, String.utf8ByteSize_append, String.utf8ByteSize_append,
      String.utf8ByteSize_append, String.utf8ByteSize_append, ih, hslash, ha, hup]
    omega

theorem follow_roundabout (times : Nat)
    : tree.follow (Text.parts '/' (roundabout times)) [] = some ["a"] := by
  induction times with
  | zero => decide +kernel
  | succ times ih =>
    have ha : Text.parts '/' "a" = ["a"] := by decide
    have hup : Text.parts '/' ".." = [".."] := by decide
    have hturn : tree.follow ["a", ".."] [] = some [] := rfl
    rw [roundabout, Text.parts_append, Text.parts_append, ha, hup, ← List.append_assoc,
      FileTree.follow_append]
    exact (congrArg (Option.bind · (tree.follow _)) hturn).trans ih

theorem locate?_roundaboutFile {times : Nat} (h : 5 * times + 13 < FileTree.pathLimit)
    : tree.locate? (roundaboutFile times) = some ["a", "pom.xml"] := by
  have hsize : (roundaboutFile times).text.utf8ByteSize = 5 * times + 13 := by
    have hrest : (String.singleton '/').utf8ByteSize + "pom.xml".utf8ByteSize = 8 := rfl
    rw [roundaboutFile, String.utf8ByteSize_append, String.utf8ByteSize_append,
      utf8ByteSize_roundabout]
    omega
  have husable : FileTree.isUsable (roundaboutFile times) = true := by
    rw [FileTree.isUsable, hsize, Bool.and_eq_true, decide_eq_true_iff]
    refine ⟨?_, h⟩
    rw [Bool.not_eq_true', ← Bool.not_eq_true, String.isEmpty_iff]
    intro hempty
    rw [hempty, String.utf8ByteSize_empty] at hsize
    omega
  have hname : tree.follow (Text.parts '/' "pom.xml") ["a"] = some ["a", "pom.xml"] := by
    rfl
  have hstart : (if (roundaboutFile times).isAbsolute then [] else tree.workingDirectory) = [] :=
    ite_self []
  rw [FileTree.locate?, if_pos husable, hstart, roundaboutFile, Text.parts_append,
    FileTree.follow_append, follow_roundabout]
  exact hname

theorem candidate_roundaboutFile (times : Nat)
    : candidate (roundaboutFile (times + 1)) parent
        = ⟨roundabout (times + 1) ++ String.singleton '/' ++ "../pom.xml"⟩ := by
  rcases parts_roundabout times with ⟨before, hbefore⟩
  have hparts : Text.parts '/' (roundabout (times + 1)) = "a" :: ".." :: before ++ ["a"] := by
    rw [roundabout, Text.parts_append, Text.parts_append, hbefore]
    rfl
  have hfile : Text.parts '/' (roundaboutFile (times + 1)).text
      = "a" :: ".." :: before ++ ["a"] ++ ["pom.xml"] := by
    have hname : Text.parts '/' "pom.xml" = ["pom.xml"] := by decide
    rw [roundaboutFile, Text.parts_append, hparts, hname]
  have hparent : (roundaboutFile (times + 1)).parent? = some ⟨roundabout (times + 1)⟩ := by
    rcases Path.split_cases (roundaboutFile (times + 1)) with
      ⟨_, _, hother⟩ | ⟨_, _, hother⟩ | ⟨hsplit, _⟩
    . rw [hfile] at hother
      exact absurd (List.cons.inj hother).1 (by decide)
    . rw [hfile] at hother
      exact absurd (List.cons.inj hother).1 (by decide)
    . rw [hfile] at hsplit
      rw [Path.parent?_eq hsplit (by decide), Path.dropIdleEnd_concat (by decide), ← hparts,
        Text.intercalate_parts]
      rfl
  rw [candidate, hparent]
  exact Path.join_eq hparts (by decide) (by decide)

theorem parentFile?_roundaboutFile {times : Nat} (h : FileTree.pathLimit ≤ 5 * times + 21)
    : project.parentFile? (roundaboutFile (times + 1)) parent = none := by
  have hnone : project.tree.locate? (candidate (roundaboutFile (times + 1)) parent) = none := by
    have hsize : (candidate (roundaboutFile (times + 1)) parent).text.utf8ByteSize
        = 5 * times + 21 := by
      have hrest : (String.singleton '/').utf8ByteSize + "../pom.xml".utf8ByteSize = 11 := rfl
      rw [candidate_roundaboutFile, String.utf8ByteSize_append, String.utf8ByteSize_append,
        utf8ByteSize_roundabout]
      omega
    rw [FileTree.locate?, FileTree.isUsable, hsize, if_neg]
    simpa using fun _ => h
  have hdirectory : project.tree.isDirectory (candidate (roundaboutFile (times + 1)) parent)
      = false := by
    rw [FileTree.isDirectory, find?_eq, hnone]
    rfl
  have hfile : project.tree.isFile (candidate (roundaboutFile (times + 1)) parent) = false := by
    rw [FileTree.isFile, find?_eq, hnone]
    rfl
  rw [parentFile?_eq, candidateFile, hdirectory, if_neg (by decide), if_neg Bool.false_ne_true, hfile]
  rfl

def far : Path := roundaboutFile 816

theorem loadFile_far_fresh : ∃ error, (project.loadFile far).run [] = (.error error, []) := by
  have hlocate : project.tree.locate? far = some ["a", "pom.xml"] :=
    locate?_roundaboutFile (by decide)
  have hmodel := modelAt_of_locate? rfl hlocate modelAt_inner
  have hparent : project.parentFile? far parent = none := parentFile?_roundaboutFile (by decide)
  have hmissing : project.tree.exists? (project.published parent) = false := rfl
  have hinquiry : ∀ model, model.parent = some parent → ∃ error,
      project.inquiry far model = .done (.error error) := by
    intro model hown
    rw [inquiry, hown]
    dsimp only
    rw [parentInquiry, hparent]
    dsimp only
    rw [publishedInquiry, hmissing]
    exact ⟨_, rfl⟩
  rcases hinquiry innerModel rfl with ⟨error, hinquiry⟩
  refine ⟨error, ?_⟩
  change (project.loadWithin (project.tree.root.fileCount + 1 + 1) [] far).run [] = _
  rw [run_loadWithin_new hlocate List.lookup_nil List.not_mem_nil hmodel, hinquiry]
  rfl

theorem importInquiry_imported {loader : Loader} {path : Path}
    (hpath : loader.pathOf "g" "bom" "1" = path) (h : loader.tree.exists? path = true)
    (c : Coordinate) (properties : Properties)
    : loader.importInquiry c properties imported
        = .ask path fun found => .done (.ok ((loader.listed path found).map rawOf)) := by
  subst hpath
  have hname : nameOf c properties imported = .ok ("g", "bom") := rfl
  have hversion : resolve? properties imported.version = some "1" := rfl
  rw [importInquiry, if_pos (by decide), hname]
  dsimp only [Inquiry.bind]
  rw [hversion]
  exact if_pos h

def root : Coordinate := .ofParts "g" "root" "1"

def rootPom : Effective := ⟨root, propertiesOf root rootModel none, ∅, [], []⟩

def innerWith (table : Effective) : Except AuditError Effective :=
  plain inner { innerModel with management := (project.listed bom table).map rawOf } (some rootPom)

theorem run_inquiry_inner {load : Path → Loading Effective} {memo after : Memo} {table : Effective}
    (habove : (load above).run [] = (.ok rootPom, memo))
    (hbom : (load bom).run memo = (.ok table, after))
    : ((project.inquiry inner innerModel).run load).run []
        = (innerWith table, after) := by
  have hcoordinate : coordinateOf inner innerModel (some rootPom) = .ok (.ofParts "g" "a" "1") := by
    decide
  have hpath : project.pathOf "g" "bom" "1" = bom := rfl
  have hexists : project.tree.exists? bom = true := by decide
  have hbelow := inquiryBelow_eq_ask rfl hcoordinate (importInquiry_imported hpath hexists _ _)
  have hparent : project.inquiry inner innerModel = .ask above fun found =>
      .bind (fun found => project.inquiryBelow inner innerModel (some found))
        (if found.IsFor parent then .done (.ok found) else project.publishedInquiry parent) := by
    change Inquiry.bind _ (project.parentInquiry inner parent) = _
    rw [parentInquiry, parentFile?_inner]
    rfl
  rw [hparent, run_ask, habove]
  dsimp only
  rw [if_pos (by decide)]
  change ((project.inquiryBelow inner innerModel (some rootPom)).run load).run memo = _
  rw [hbelow, run_ask, hbom]
  rfl

theorem exists_table
    : ∃ table found, plain bom bomModel none = .ok table ∧ innerWith table = .ok found := by
  have hok : ((plain bom bomModel none).bind innerWith).isOk = true := by decide +kernel
  rcases hended : (plain bom bomModel none).bind innerWith with error | found
  . rw [hended] at hok
    cases hok
  . rcases exists_of_bind_eq_ok hended with ⟨table, htable, hfound⟩
    exact ⟨table, found, htable, hfound⟩

theorem loadFile_inner
    : ∃ found after,
        (project.loadFile inner).run [] = (.ok found, (["a", "pom.xml"], found) :: after) := by
  rcases exists_table with ⟨table, found, htable, hfound⟩
  have hlocate : project.tree.locate? inner = some ["a", "pom.xml"] := rfl
  have hlocateAbove : project.tree.locate? above = some ["pom.xml"] := rfl
  have hlocateBom : project.tree.locate? bom = some ["repo", "g", "bom", "1", "bom-1.pom"] := rfl
  have hroot : plain above rootModel none = .ok rootPom := by decide
  have hforgotten : List.lookup ["repo", "g", "bom", "1", "bom-1.pom"] [(["pom.xml"], rootPom)]
      = none := rfl
  have habove : ∀ steps, (project.loadWithin (steps + 1) [["a", "pom.xml"]] above).run []
      = (.ok rootPom, [(["pom.xml"], rootPom)]) :=
    fun _ => run_loadWithin_plain hlocateAbove List.lookup_nil (by decide) modelAt_above rfl nofun
      hroot
  have hbom : ∀ steps, (project.loadWithin (steps + 1) [["a", "pom.xml"]] bom).run
        [(["pom.xml"], rootPom)]
      = (.ok table, [(["repo", "g", "bom", "1", "bom-1.pom"], table), (["pom.xml"], rootPom)]) :=
    fun _ => run_loadWithin_plain hlocateBom hforgotten (by decide) modelAt_bom rfl (by decide) htable
  refine ⟨found, [(["repo", "g", "bom", "1", "bom-1.pom"], table), (["pom.xml"], rootPom)], ?_⟩
  change (project.loadWithin (project.tree.root.fileCount + 1 + 1) [] inner).run [] = _
  generalize project.tree.root.fileCount = steps
  rw [run_loadWithin_new hlocate List.lookup_nil List.not_mem_nil modelAt_inner,
    run_inquiry_inner (habove steps) (hbom steps)]
  rw [hfound]

theorem loadFile_far_found {memo : Memo} {found : Effective}
    (h : memo.lookup ["a", "pom.xml"] = some found)
    : (project.loadFile far).run memo = (.ok found, memo) := by
  have hlocate : project.tree.locate? far = some ["a", "pom.xml"] :=
    locate?_roundaboutFile (by decide)
  exact run_loadWithin_found hlocate h

end Below

theorem performAll_far_differs
    : ((Below.project.performAll [.file Below.far, .file Below.inner, .file Below.far]).run []).1
        ≠ [.file Below.far, .file Below.inner, .file Below.far].map fun request =>
          ((Below.project.perform request).run []).1 := by
  rcases Below.loadFile_far_fresh with ⟨error, hfresh⟩
  rcases Below.loadFile_inner with ⟨found, after, hinner⟩
  have hlast := Below.loadFile_far_found (List.lookup_cons_self : ((_, found) :: after).lookup _ = _)
  have hperform : ∀ path, Below.project.perform (.file path) = Below.project.loadFile path :=
    fun _ => rfl
  generalize Below.far = far at hfresh hlast ⊢
  intro heq
  have hthird := congrArg (·[2]?) heq
  simp [run_performAll_cons, hperform, hfresh, hinner, hlast] at hthird

namespace Contrary

/--
The project of the example: it imports a table in which two names differ in a blank only, which a blank
property leaves at the end of the one.
-/
def tree : FileTree :=
  let root := descriptor "g" "a" (element "version" "1" ++
    element "dependencyManagement" (element "dependencies" (element "dependency"
      (element "groupId" "g" ++ element "artifactId" "bom" ++ element "version" "1" ++
        element "type" "pom" ++ element "scope" "import"))) ++
    element "dependencies" (element "dependency"
      (element "groupId" "g" ++ element "artifactId" "c")))
  let bom := descriptor "g" "bom" (element "version" "1" ++ element "properties" (element "e" " ") ++
    element "dependencyManagement" (element "dependencies"
      (element "dependency" (element "groupId" "g" ++ element "artifactId" "c" ++
          element "version" "1") ++
        element "dependency" (element "groupId" "g" ++ element "artifactId" "c $\x7be\x7d" ++
          element "version" "2"))))
  ⟨.directory
    [("pom.xml", .file root.toUTF8),
      ("repo", .directory [("g", .directory [("bom", .directory [("1", .directory
        [("bom-1.pom", .file bom.toUTF8)])])])])], []⟩

def project : Loader := ⟨tree, ⟨"repo"⟩⟩

open Below (imported used managed importInquiry_imported)

def bom : Path := project.pathOf "g" "bom" "1"

def model : Model := ⟨some "g", some "a", some "1", none, none, [], [imported], [used], []⟩

def bomModel : Model :=
  ⟨some "g", some "bom", some "1", none, none, [("e", "")],
    [managed "c" "1", managed "c $\x7be\x7d" "2"], [], []⟩

set_option maxRecDepth 4000 in
theorem modelAt_root : project.modelAt ⟨"pom.xml"⟩ = .ok model := by
  apply modelAt_of_toList
  . rfl
  . simp [descriptor, toList_element]
    rfl
  . rw [Model.parse, Xml.parse?, String.toList_ofList]
    rfl

set_option maxRecDepth 4000 in
theorem modelAt_bom : project.modelAt bom = .ok bomModel := by
  apply modelAt_of_toList
  . rfl
  . simp [descriptor, toList_element]
    rfl
  . rw [Model.parse, Xml.parse?, String.toList_ofList]
    rfl

abbrev reversed : Listing where
  entries _ table := table.entries.reverse
  perm _ table := table.entries.reverse_perm

def found (entries : List ((String × String) × Managed)) : Except AuditError Effective :=
  plain ⟨"pom.xml"⟩ { model with management := entries.map rawOf } none

theorem fst_loadFile (listing : Listing)
    : (((project.listedBy listing).loadFile ⟨"pom.xml"⟩).run []).1
        = (plain bom bomModel none).bind fun imported =>
          found ((project.listedBy listing).listed bom imported) := by
  have hmodel := (modelAt_listedBy project listing ⟨"pom.xml"⟩).trans modelAt_root
  have hmodel' := (modelAt_listedBy project listing bom).trans modelAt_bom
  have hlocate : (project.listedBy listing).tree.locate? ⟨"pom.xml"⟩ = some ["pom.xml"] := rfl
  have hlocate' : (project.listedBy listing).tree.locate? bom
      = some ["repo", "g", "bom", "1", "bom-1.pom"] := rfl
  have hcoordinate : coordinateOf ⟨"pom.xml"⟩ model none = .ok (.ofParts "g" "a" "1") := by decide
  have hexists : (project.listedBy listing).tree.exists? bom = true := by
    rw [tree_listedBy]
    decide
  have hpath : (project.listedBy listing).pathOf "g" "bom" "1" = bom :=
    pathOf_listedBy project listing "g" "bom" "1"
  have hasked := inquiryBelow_eq_ask rfl hcoordinate (importInquiry_imported hpath hexists _ _)
  have hdone : (project.listedBy listing).inquiry bom bomModel = .done (plain bom bomModel none) :=
    inquiryBelow_eq_plain (by decide)
  rw [loadFile, fst_loadWithin_ask hlocate List.lookup_nil List.not_mem_nil hmodel hasked,
    fst_loadWithin_done hlocate' List.lookup_nil (by decide) hmodel' hdone]
  rfl

theorem dependencies_loadFile
    : (((project.loadFile ⟨"pom.xml"⟩).run []).1.toOption.map (·.dependencies)
          = some [⟨.ofParts "g" "c" "2", "compile", false⟩])
        ∧ ((((project.listedBy reversed).loadFile ⟨"pom.xml"⟩).run []).1.toOption.map (·.dependencies)
          = some [⟨.ofParts "g" "c" "1", "compile", false⟩]) := by
  have hown : ((project.loadFile ⟨"pom.xml"⟩).run []).1 = _ := fst_loadFile project.listing
  rw [hown, fst_loadFile reversed]
  decide +kernel

end Contrary

theorem performAll_contrary_differs
    : ((Contrary.project.performAll [.file ⟨"pom.xml"⟩]).run []).1
        ≠ [.file ⟨"pom.xml"⟩].map fun request =>
          (((Contrary.project.listedBy Contrary.reversed).perform request).run []).1 := by
  intro heq
  rw [run_performAll_cons] at heq
  have hfirst := (List.cons.inj heq).1
  have hsame := congrArg (fun result => result.toOption.map (·.dependencies)) hfirst
  dsimp only at hsame
  rw [perform, perform, Contrary.dependencies_loadFile.1, Contrary.dependencies_loadFile.2] at hsame
  exact absurd hsame (by decide)

/--
What is loaded can be told from what has been loaded before where a path is too long, and from the
orders of tables where an imported one contradicts itself.
-/
theorem performAll_fresh_differs
    : (((Below.project.performAll [.file Below.far, .file Below.inner, .file Below.far]).run []).1
          ≠ [.file Below.far, .file Below.inner, .file Below.far].map fun request =>
            ((Below.project.perform request).run []).1)
        ∧ ((Contrary.project.performAll [.file ⟨"pom.xml"⟩]).run []).1
          ≠ [.file ⟨"pom.xml"⟩].map fun request =>
            (((Contrary.project.listedBy Contrary.reversed).perform request).run []).1 :=
  ⟨performAll_far_differs, performAll_contrary_differs⟩

end Loader

end ArtifactAudit.Pom
