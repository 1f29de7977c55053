import ArtifactAudit.Proofs.Pom.Concrete
import ArtifactAudit.Proofs.Text.Parts

/-!
This module contains what a descriptor takes over from the dependencies of its parent: all that it does
not declare itself. A declared dependency replaces an inherited one only if its names are written out,
so one that refers to a property for a name stands beside the other.
-/

namespace ArtifactAudit

theorem Xml.value?_eq_some {node : Xml} {name value : String} (h : node.value? name = some value)
    : Text.trim value = value ∧ value ≠ "" := by
  rcases Option.bind_eq_some_iff.1 h with ⟨child, _, h⟩
  rcases Option.bind_eq_some_iff.1 h with ⟨content, hcontent, h⟩
  split at h
  . cases h
  . next hempty =>
    cases h
    rw [Xml.content?] at hcontent
    split at hcontent
    . cases hcontent
      exact ⟨Text.trim_eq_self (Text.isTrimmed_trim _), by simpa using hempty⟩
    . cases hcontent

namespace Pom

theorem exists_node_of_dependenciesIn {node : Xml} {entry : RawDependency}
    (h : entry ∈ dependenciesIn node) : ∃ written, entry = .ofXml written := by
  rw [dependenciesIn] at h
  split at h
  . rcases List.mem_map.1 h with ⟨written, _, rfl⟩
    exact ⟨written, rfl⟩
  . cases h

theorem exists_node_of_parse {text : String} {model : Model} {entry : RawDependency}
    (h : Model.parse text = .ok model) (hentry : entry ∈ model.dependencies)
    : ∃ written, entry = .ofXml written := by
  rw [Model.parse] at h
  split at h
  . cases h
  . split at h
    . cases h
    . rcases exists_of_bind_eq_ok h with ⟨parent, _, h⟩
      cases h
      exact exists_node_of_dependenciesIn hentry

/--
Whether a dependency is declared by one of some entries, whatever way its names are written.
-/
def Redeclared (properties : Properties) (entries : List RawDependency) (d : Dependency) : Prop :=
  ∃ entry ∈ entries, entry.IsFor properties (d.coordinate.group, d.coordinate.artifact)

instance (properties : Properties) (entries : List RawDependency) (d : Dependency)
    : Decidable (Redeclared properties entries d) :=
  inferInstanceAs (Decidable (∃ entry ∈ entries, _))

theorem replaces_iff {entries : List RawDependency} {d : Dependency}
    : replaces entries d = true ↔ ∃ entry ∈ entries,
        entry.group = some d.coordinate.group ∧ entry.artifact = some d.coordinate.artifact := by
  rw [replaces, List.any_eq_true]
  simp only [Bool.and_eq_true, decide_eq_true_eq]

theorem redeclared_of_replaces {properties : Properties} {entries : List RawDependency}
    {d : Dependency} (hwritten : ∀ entry ∈ entries, ∃ written, entry = .ofXml written)
    (hgroup : IsConcrete d.coordinate.group) (hartifact : IsConcrete d.coordinate.artifact)
    (h : replaces entries d = true)
    : Redeclared properties entries d := by
  rcases replaces_iff.1 h with ⟨entry, hentry, hgroup', hartifact'⟩
  refine ⟨entry, hentry, ?_, ?_⟩
  all_goals rcases hwritten entry hentry with ⟨written, rfl⟩
  . have hvalue := Xml.value?_eq_some hgroup'
    rw [hgroup']
    exact resolve_eq_self hvalue.1 hvalue.2 hgroup
  . have hvalue := Xml.value?_eq_some hartifact'
    rw [hartifact']
    exact resolve_eq_self hvalue.1 hvalue.2 hartifact

theorem filter_replaces_eq_iff {properties : Properties} {entries : List RawDependency}
    {ds : List Dependency}
    (h : ∀ d ∈ ds, replaces entries d = true → Redeclared properties entries d)
    : ds.filter (!replaces entries ·) = ds.filter (¬ Redeclared properties entries ·)
        ↔ ∀ d ∈ ds, Redeclared properties entries d → replaces entries d = true := by
  constructor
  . intro heq d hd hredeclared
    by_contra hreplaces
    have hkept : d ∈ ds.filter (!replaces entries ·) :=
      List.mem_filter.2 ⟨hd, by simpa using hreplaces⟩
    rw [heq] at hkept
    exact of_decide_eq_true (List.mem_filter.1 hkept).2 hredeclared
  . intro hback
    apply List.filter_congr
    intro d hd
    have hboth : replaces entries d = decide (Redeclared properties entries d) := by
      rw [Bool.eq_iff_iff, decide_eq_true_eq]
      exact ⟨h d hd, hback d hd⟩
    rw [hboth, decide_not]

namespace Loader

variable {loader : Loader}

theorem modelAt_eq_ok {path : Path} {model : Model} (h : loader.modelAt path = .ok model)
    : ∃ text, Model.parse text = .ok model := by
  rw [modelAt] at h
  split at h
  . cases h
  . next text _ =>
    split at h
    . next hparse =>
      cases h
      exact ⟨text, hparse⟩
    . cases h

theorem exists_parent_of_obtains {location : List String} {child : Effective}
    (h : loader.Obtains anyPath location child)
    : ∃ path model, loader.tree.locate? path = some location ∧ loader.modelAt path = .ok model
        ∧ (model.parent.isSome →
          ∃ file parent layer, loader.ParentAt path model file parent ∧ loader.Gives file parent
            ∧ loader.Composed path model (some parent) layer child) := by
  cases h with
  | @intro path _ model _ answers _ hlocate hmodel hends hobtains =>
    refine ⟨path, model, hlocate, hmodel, ?_⟩
    intro hparent
    rw [inquiry] at hends
    split at hends
    . next hnone =>
      rw [hnone] at hparent
      cases hparent
    . next parent hparent =>
      have hgives : ∀ file other, Located loader.tree answers file other →
          loader.Gives file other := by
        rintro file other ⟨above, habove, hother⟩
        exact ⟨above, habove, hobtains above other hother⟩
      rcases hends.of_bind with ⟨other, hother, hbelow⟩
      rcases parentAt_of_ends hparent hgives hother with ⟨file, hfile, hparentAt⟩
      rcases composed_of_ends hmodel (hbelow.mono hgives) with ⟨layer, hlayer⟩
      exact ⟨file, other, layer, hparentAt, hgives file other hfile, hlayer⟩

/--
A descriptor has those dependencies of its parent that it does not declare itself in the same writing,
and behind them those that it declares, each in order. These are the ones that it does not declare at
all just if the descriptor writes out the names of all that it declares again.
-/
theorem perform_inherited (loader : Loader) (requests : List Request) (request : Request)
    {model : Model} {child : Effective}
    (hmodel : loader.modelAt (loader.pathFor request) = .ok model) (hparent : model.parent.isSome)
    (hchild : ((loader.perform request).run ((loader.performAll requests).run []).2).1 = .ok child)
    : ∃ path file parent own,
        loader.tree.locate? path = loader.tree.locate? (loader.pathFor request)
          ∧ loader.ParentAt path model file parent ∧ loader.Gives file parent
          ∧ List.Forall₂ (fun entry d =>
              dependencyOf child.coordinate child.properties child.management entry = .ok d)
            model.dependencies own
          ∧ child.dependencies = parent.dependencies.filter (!replaces model.dependencies ·) ++ own
          ∧ (∀ d ∈ parent.dependencies, replaces model.dependencies d = true →
              Redeclared child.properties model.dependencies d)
          ∧ (child.dependencies
                = parent.dependencies.filter (¬ Redeclared child.properties model.dependencies ·)
                  ++ own
              ↔ ∀ d ∈ parent.dependencies, Redeclared child.properties model.dependencies d →
                replaces model.dependencies d = true) := by
  rcases gives_of_perform hchild with ⟨location, hlocate, hobtains⟩
  rcases exists_parent_of_obtains hobtains with ⟨path, other, hpath, hother, hinherits⟩
  obtain rfl := Except.ok.inj (hmodel.symm.trans (modelAt_of_locate? hpath hlocate hother))
  rcases hinherits hparent with ⟨file, parent, layer, hparentAt, hgives, hcomposed⟩
  rcases exists_own_of_ofModel hcomposed.ofModel_eq with ⟨own, hown, hdependencies⟩
  have hproperties := properties_ofModel hcomposed.ofModel_eq
  have hredeclared : ∀ d ∈ parent.dependencies, replaces model.dependencies d = true →
      Redeclared child.properties model.dependencies d := by
    intro d hd
    rcases hgives with ⟨above, _, habove⟩
    rcases exists_lineage habove with ⟨layers, hlineage⟩
    have hsettled := hlineage.settled d hd
    rcases modelAt_eq_ok hmodel with ⟨text, htext⟩
    exact redeclared_of_replaces (fun _ => exists_node_of_parse htext) hsettled.group
      hsettled.artifact
  rw [← hproperties] at hown
  refine ⟨path, file, parent, own, hpath.trans hlocate.symm, hparentAt, hgives,
    forall₂_of_mapM_eq_ok hown, hdependencies, hredeclared, ?_⟩
  rw [hdependencies]
  exact List.append_left_inj own |>.trans (filter_replaces_eq_iff hredeclared)

namespace Respelled

/--
The project of the example: it declares a dependency of its parent with another version, and refers to
its own group for the group of it.
-/
def tree : FileTree :=
  let child := descriptor "g" "child" (element "parent" (element "groupId" "p" ++
      element "artifactId" "parent" ++ element "version" "1" ++ element "relativePath" "") ++
    element "dependencies" (element "dependency" (element "groupId" "$\x7bproject.groupId\x7d" ++
      element "artifactId" "a" ++ element "version" "2")))
  let parent := descriptor "p" "parent" (element "version" "1" ++
    element "dependencies" (element "dependency" (element "groupId" "g" ++
      element "artifactId" "a" ++ element "version" "1")))
  ⟨.directory
    [("pom.xml", .file child.toUTF8),
      ("repo", .directory [("p", .directory [("parent", .directory [("1", .directory
        [("parent-1.pom", .file parent.toUTF8)])])])])], []⟩

def project : Loader := ⟨tree, ⟨"repo"⟩⟩

def parent : Parent := ⟨"p", "parent", "1", some ""⟩

def inherited : RawDependency where
  group := some "g"
  artifact := some "a"
  version := some "1"

def declared : RawDependency where
  group := some "$\x7bproject.groupId\x7d"
  artifact := some "a"
  version := some "2"

def childModel : Model :=
  ⟨some "g", some "child", none, none, some parent, [], [], [declared], []⟩

def parentModel : Model :=
  ⟨some "p", some "parent", some "1", none, none, [], [], [inherited], []⟩

set_option maxRecDepth 4000 in
theorem modelAt_child : project.modelAt ⟨"pom.xml"⟩ = .ok childModel := by
  apply modelAt_of_toList
  . rfl
  . simp [descriptor, toList_element]
    rfl
  . rw [Model.parse, Xml.parse?, String.toList_ofList]
    decide +kernel

set_option maxRecDepth 4000 in
theorem modelAt_parent : project.modelAt (project.published parent) = .ok parentModel := by
  apply modelAt_of_toList
  . rfl
  . simp [descriptor, toList_element]
    rfl
  . rw [Model.parse, Xml.parse?, String.toList_ofList]
    decide +kernel

theorem plain_parent
    : (plain (project.published parent) parentModel none).toOption.map (·.dependencies)
        = some [⟨.ofParts "g" "a" "1", "compile", false⟩] := by
  decide +kernel

theorem plain_child
    : ((plain (project.published parent) parentModel none).bind fun found =>
          plain ⟨"pom.xml"⟩ childModel (some found)).toOption.map
            (fun child => (decide (declared.IsFor child.properties ("g", "a")), child.dependencies))
        = some (true, [⟨.ofParts "g" "a" "1", "compile", false⟩,
          ⟨.ofParts "g" "a" "2", "compile", false⟩]) := by
  decide +kernel

theorem locate?_child : project.tree.locate? ⟨"pom.xml"⟩ = some ["pom.xml"] := by
  rfl

theorem locate?_parent : project.tree.locate? (project.published parent)
    = some ["repo", "p", "parent", "1", "parent-1.pom"] := by
  rfl

theorem exists_parent
    : ∃ found, ((project.loadFile (project.published parent)).run []).1 = .ok found
        ∧ found.dependencies = [⟨.ofParts "g" "a" "1", "compile", false⟩] := by
  rcases exists_of_map_toOption plain_parent with ⟨found, hfound, hdependencies⟩
  have hrun := run_loadFile_plain locate?_parent (List.lookup_nil ..) modelAt_parent rfl nofun hfound
  exact ⟨found, congrArg Prod.fst hrun, hdependencies⟩

theorem exists_child
    : ∃ child, ((project.loadFile ⟨"pom.xml"⟩).run []).1 = .ok child
        ∧ declared.IsFor child.properties ("g", "a")
        ∧ child.dependencies = [⟨.ofParts "g" "a" "1", "compile", false⟩,
          ⟨.ofParts "g" "a" "2", "compile", false⟩] := by
  have hload := fst_loadFile_published locate?_child modelAt_child rfl nofun (by decide) (by decide)
    locate?_parent (by decide) modelAt_parent rfl nofun
  rcases exists_of_map_toOption plain_child with ⟨child, hchild, heq⟩
  rcases Prod.ext_iff.1 heq with ⟨hfor, hdependencies⟩
  exact ⟨child, hload.trans hchild, of_decide_eq_true hfor, hdependencies⟩

end Respelled

theorem perform_inherited_respelled
    : Respelled.project.modelAt ⟨"pom.xml"⟩ = .ok Respelled.childModel
        ∧ Respelled.childModel.parent.isSome
        ∧ ∃ child,
          ((Respelled.project.perform (.file ⟨"pom.xml"⟩)).run
              ((Respelled.project.performAll []).run []).2).1 = .ok child
            ∧ ∃ inherited own : List Dependency,
              child.dependencies = inherited.filter (!replaces [Respelled.declared] ·) ++ own
                ∧ ∃ d ∈ inherited, d.coordinate = .ofParts "g" "a" "1"
                  ∧ Redeclared child.properties [Respelled.declared] d := by
  rcases Respelled.exists_child with ⟨child, hchild, hfor, hboth⟩
  refine ⟨Respelled.modelAt_child, rfl, child, hchild, ?_⟩
  rcases perform_inherited Respelled.project [] (.file ⟨"pom.xml"⟩) Respelled.modelAt_child rfl
    hchild with ⟨_, _, parent, own, _, _, _, hown, hdependencies, _⟩
  have hparts : [(⟨.ofParts "g" "a" "1", "compile", false⟩ : Dependency)]
        ++ [⟨.ofParts "g" "a" "2", "compile", false⟩]
      = parent.dependencies.filter (!replaces [Respelled.declared] ·) ++ own :=
    hboth.symm.trans hdependencies
  have hkept := (List.append_inj' hparts hown.length_eq).1
  refine ⟨parent.dependencies, own, hdependencies, ⟨.ofParts "g" "a" "1", "compile", false⟩, ?_, rfl,
    Respelled.declared, List.mem_cons_self, hfor⟩
  exact (List.mem_filter.1 (hkept ▸ List.mem_cons_self)).1

/--
The child declares the dependency of its parent again, with its own group written as a reference. It
has both.
-/
theorem loadFile_respelled_differs
    : Respelled.project.modelAt ⟨"pom.xml"⟩ = .ok Respelled.childModel
        ∧ ∃ parent child,
          ((Respelled.project.loadFile (Respelled.project.published Respelled.parent)).run []).1
              = .ok parent
            ∧ ((Respelled.project.loadFile ⟨"pom.xml"⟩).run []).1 = .ok child
            ∧ child.dependencies
              ≠ parent.dependencies.filter
                  (¬ Redeclared child.properties Respelled.childModel.dependencies ·)
                ++ [⟨.ofParts "g" "a" "2", "compile", false⟩] := by
  rcases Respelled.exists_parent with ⟨parent, hparent, hinherited⟩
  rcases Respelled.exists_child with ⟨child, hchild, hfor, hboth⟩
  refine ⟨Respelled.modelAt_child, parent, child, hparent, hchild, ?_⟩
  have hredeclared : Redeclared child.properties Respelled.childModel.dependencies
      ⟨.ofParts "g" "a" "1", "compile", false⟩ :=
    ⟨Respelled.declared, List.mem_cons_self, hfor⟩
  rw [hboth, hinherited, List.filter_cons_of_neg (by simpa using hredeclared),
    List.filter_nil, List.nil_append]
  decide

end Loader
end Pom
end ArtifactAudit
