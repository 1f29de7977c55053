import Mathlib.Data.Option.Basic
import ArtifactAudit.Proofs.Pom.Management

/-!
This module contains what is left open in the coordinates of dependencies: no reference stands in them
but in a classifier that an entry of the project or of a parent says, and none of the names and the
version is empty unless a property is.
-/

namespace ArtifactAudit

theorem Text.occursIn_iff {part : List Char} (cs : List Char)
    : Text.occursIn part cs = true ↔ part <:+: cs := by
  induction cs with
  | nil => rw [Text.occursIn, List.isEmpty_iff, List.infix_nil]
  | cons c cs ih =>
    rw [Text.occursIn, Bool.or_eq_true, ih, List.isPrefixOf_iff_prefix, List.infix_cons_iff]

namespace Pom

/--
Whether no reference starts in a text.
-/
def IsConcrete (text : String) : Prop := ¬ ['$', '\x7b'] <:+: text.toList

instance (text : String) : Decidable (IsConcrete text) :=
  decidable_of_iff (hasReference text.toList = false)
    (by rw [IsConcrete, ← Text.occursIn_iff, Bool.not_eq_true, hasReference])

variable {properties : Properties}

theorem hasReference_resolveWithin {passes : Nat}
    : ∀ {cs value : List Char}, resolveWithin properties passes cs = some value →
        hasReference value = false := by
  induction passes with
  | zero =>
    intro cs value h
    rw [resolveWithin] at h
    split at h
    . cases h
    . next hreference =>
      cases h
      exact Bool.not_eq_true _ ▸ hreference
  | succ passes ih =>
    intro cs value h
    rw [resolveWithin] at h
    split at h
    . rcases Option.bind_eq_some_iff.1 h with ⟨next, _, hnext⟩
      exact ih hnext
    . next hreference =>
      cases h
      exact Bool.not_eq_true _ ▸ hreference

theorem resolve_eq_some {text value : String} (h : resolve properties text = some value)
    : Text.trimChars text.toList ≠ []
        ∧ resolveWithin properties maxPasses (Text.trimChars text.toList) = some value.toList := by
  rw [resolve] at h
  split at h
  . cases h
  . next hempty =>
    rcases Option.map_eq_some_iff.1 h with ⟨cs, hcs, rfl⟩
    rw [List.isEmpty_iff] at hempty
    rw [String.toList_ofList]
    exact ⟨hempty, hcs⟩

theorem isConcrete_of_resolve {text value : String} (h : resolve properties text = some value)
    : IsConcrete value := by
  rw [IsConcrete, ← Text.occursIn_iff, Bool.not_eq_true]
  exact hasReference_resolveWithin (resolve_eq_some h).2

theorem resolveWithin_eq_self {cs : List Char}
    (h : hasReference cs = false) (passes : Nat)
    : resolveWithin properties passes cs = some cs := by
  cases passes <;> rw [resolveWithin, h, if_neg Bool.false_ne_true]

theorem resolve_eq_self {value : String} (htrim : Text.trim value = value)
    (hne : value ≠ "") (hconcrete : IsConcrete value) : resolve properties value = some value := by
  have hchars : Text.trimChars value.toList = value.toList := by
    rw [← String.toList_ofList (l := Text.trimChars value.toList)]
    exact congrArg String.toList htrim
  have hreference : hasReference value.toList = false := by
    rw [IsConcrete, ← Text.occursIn_iff, Bool.not_eq_true] at hconcrete
    exact hconcrete
  rw [resolve, hchars, if_neg (by simpa using hne), resolveWithin_eq_self hreference,
    Option.map_some, String.ofList_toList]

theorem exists_blank_of_replaceReferences {cs : List Char} (hne : cs ≠ [])
    (h : replaceReferences properties cs = some []) : ∃ name, properties.get? name = some "" := by
  rw [replaceReferences.eq_def] at h
  split at h
  . split at h
    . rcases Option.bind_eq_some_iff.1 h with ⟨value, hvalue, h⟩
      rcases Option.bind_eq_some_iff.1 h with ⟨rest, _, h⟩
      have hempty : value = "" :=
        String.toList_eq_nil_iff.1 (List.append_eq_nil_iff.1 (Option.some.inj h)).1
      exact ⟨_, hempty ▸ hvalue⟩
    . cases h
  . rcases Option.map_eq_some_iff.1 h with ⟨rest, _, h⟩
    cases h
  . exact absurd rfl hne

theorem exists_blank_of_resolveWithin {passes : Nat}
    : ∀ {cs : List Char}, cs ≠ [] → resolveWithin properties passes cs = some [] →
        ∃ name, properties.get? name = some "" := by
  induction passes with
  | zero =>
    intro cs hne h
    rw [resolveWithin] at h
    split at h
    . cases h
    . exact absurd (Option.some.inj h) hne
  | succ passes ih =>
    intro cs hne h
    rw [resolveWithin] at h
    split at h
    . rcases Option.bind_eq_some_iff.1 h with ⟨next, hreplace, hnext⟩
      by_cases hempty : next = []
      . exact exists_blank_of_replaceReferences hne (hempty ▸ hreplace)
      . exact ih hempty hnext
    . exact absurd (Option.some.inj h) hne

theorem exists_blank_of_resolve {text : String} (h : resolve properties text = some "")
    : ∃ name, properties.get? name = some "" :=
  exists_blank_of_resolveWithin (resolve_eq_some h).1 (resolve_eq_some h).2

theorem isConcrete_of_resolve? {text : Option String} {value : String}
    (h : resolve? properties text = some value) : IsConcrete value := by
  rcases Option.bind_eq_some_iff.1 h with ⟨written, _, hwritten⟩
  exact isConcrete_of_resolve hwritten

theorem exists_blank_of_resolve? {text : Option String} (h : resolve? properties text = some "")
    : ∃ name, properties.get? name = some "" := by
  rcases Option.bind_eq_some_iff.1 h with ⟨written, _, hwritten⟩
  exact exists_blank_of_resolve hwritten

theorem Layer.exists_of_managed? {layer : Layer} {name : String × String} {managed : Managed}
    (h : layer.managed? name = some managed)
    : ∃ said ∈ layer.entries, said.IsFor layer.properties name
        ∧ resolve? layer.properties said.version = some managed.version
        ∧ said.classifier = managed.classifier := by
  rcases List.exists_of_findSome?_eq_some h with ⟨said, hsaid, hmanaged⟩
  rw [RawDependency.managed?] at hmanaged
  split at hmanaged
  . next hfor =>
    rcases Option.map_eq_some_iff.1 hmanaged with ⟨version, hversion, rfl⟩
    exact ⟨said, List.mem_reverse.1 hsaid, hfor, hversion, rfl⟩
  . cases hmanaged

theorem coordinate_dependencyOf {c : Coordinate} {table : Management} {entry : RawDependency}
    {d : Dependency} (h : dependencyOf c properties table entry = .ok d)
    : entry.IsFor properties (d.coordinate.group, d.coordinate.artifact)
        ∧ (resolve? properties entry.version = some d.coordinate.version
          ∨ ∃ managed, table.lookup (d.coordinate.group, d.coordinate.artifact) = some managed
            ∧ managed.version = d.coordinate.version)
        ∧ d.coordinate.packaging
          = (resolve? properties entry.packaging).getD Coordinate.defaultPackaging
        ∧ (resolve? properties entry.classifier = some d.coordinate.classifier
          ∨ (∃ managed, table.lookup (d.coordinate.group, d.coordinate.artifact) = some managed
            ∧ managed.classifier = some d.coordinate.classifier)
          ∨ d.coordinate.classifier = Coordinate.defaultClassifier d.coordinate.packaging) := by
  rcases exists_of_bind_eq_ok h with ⟨⟨group, artifact⟩, hname, hrest⟩
  have hfor := nameOf_eq_ok.1 hname
  dsimp only at hrest
  split at hrest
  . cases hrest
  . next version hversion =>
    cases hrest
    refine ⟨hfor, ?_, rfl, ?_⟩
    . rcases (Option.orElse_eq_some _ _ _).1 hversion with hown | ⟨_, hmanaged⟩
      . exact .inl hown
      . exact .inr (Option.map_eq_some_iff.1 hmanaged)
    . cases hown : resolve? properties entry.classifier with
      | some classifier => exact .inl rfl
      | none =>
        cases hmanaged : (table.lookup (group, artifact)).bind (·.classifier) with
        | some classifier => exact .inr (.inl (Option.bind_eq_some_iff.1 hmanaged))
        | none => exact .inr (.inr rfl)

theorem exists_own_of_ofModel {c : Coordinate} {model : Model} {parent : Option Effective}
    {found : Effective} (h : Effective.ofModel c properties model parent = .ok found)
    : ∃ own, model.dependencies.mapM (dependencyOf c properties found.management) = .ok own
        ∧ found.dependencies
          = (parent.elim [] fun parent =>
              parent.dependencies.filter (!replaces model.dependencies ·)) ++ own := by
  rcases exists_of_ofModel h with ⟨management, own, _, hown, rfl⟩
  exact ⟨own, hown, rfl⟩

/--
What is known of the coordinate of a dependency from what a descriptor and its parents say. A
classifier that is managed is taken as it is written.
-/
structure Settled (layers : List Layer) (c : Coordinate) : Prop where
  group : IsConcrete c.group
  artifact : IsConcrete c.artifact
  version : IsConcrete c.version
  packaging : IsConcrete c.packaging
  classifier : IsConcrete c.classifier ∨ ∃ layer ∈ layers, ∃ said ∈ layer.entries,
    said.IsFor layer.properties (c.group, c.artifact) ∧ said.classifier = some c.classifier
  blank : c.group = "" ∨ c.artifact = "" ∨ c.version = "" →
    ∃ layer ∈ layers, ∃ name, layer.properties.get? name = some ""

theorem Settled.cons {layer : Layer} {layers : List Layer} {c : Coordinate} (h : Settled layers c)
    : Settled (layer :: layers) c where
  group := h.group
  artifact := h.artifact
  version := h.version
  packaging := h.packaging
  classifier := h.classifier.imp_right fun ⟨other, hother, hsaid⟩ =>
    ⟨other, List.mem_cons_of_mem layer hother, hsaid⟩
  blank hempty :=
    have ⟨other, hother, hname⟩ := h.blank hempty
    ⟨other, List.mem_cons_of_mem layer hother, hname⟩

theorem isConcrete_defaultClassifier (packaging : String)
    : IsConcrete (Coordinate.defaultClassifier packaging) := by
  rw [Coordinate.defaultClassifier]
  split <;> decide

theorem settled_of_dependencyOf {c : Coordinate} {table : Management} {entry : RawDependency}
    {d : Dependency} {layers : List Layer}
    (hown : ∃ layer ∈ layers, layer.properties = properties)
    (htable : ∀ name, table.lookup name = layers.findSome? (·.managed? name))
    (h : dependencyOf c properties table entry = .ok d)
    : Settled layers d.coordinate := by
  rcases coordinate_dependencyOf h with ⟨hfor, hversion, hpackaging, hclassifier⟩
  have hblank : ∀ text, resolve? properties text = some "" →
      ∃ layer ∈ layers, ∃ name, layer.properties.get? name = some "" := by
    intro text htext
    rcases hown with ⟨layer, hlayer, rfl⟩
    exact ⟨layer, hlayer, exists_blank_of_resolve? htext⟩
  have hmanaged : ∀ name managed, table.lookup name = some managed →
      ∃ layer ∈ layers, ∃ said ∈ layer.entries, said.IsFor layer.properties name
        ∧ resolve? layer.properties said.version = some managed.version
        ∧ said.classifier = managed.classifier := by
    intro name managed hlookup
    rcases List.exists_of_findSome?_eq_some (htable name ▸ hlookup) with ⟨layer, hlayer, hsaid⟩
    exact ⟨layer, hlayer, layer.exists_of_managed? hsaid⟩
  constructor
  case group => exact isConcrete_of_resolve? hfor.1
  case artifact => exact isConcrete_of_resolve? hfor.2
  case version =>
    rcases hversion with hversion | ⟨managed, hlookup, heq⟩
    . exact isConcrete_of_resolve? hversion
    . rcases hmanaged _ managed hlookup with ⟨_, _, _, _, _, hversion, _⟩
      exact heq ▸ isConcrete_of_resolve? hversion
  case packaging =>
    rw [hpackaging]
    cases hresolve : resolve? properties entry.packaging with
    | some packaging => exact isConcrete_of_resolve? hresolve
    | none => decide
  case classifier =>
    rcases hclassifier with hclassifier | ⟨managed, hlookup, heq⟩ | hclassifier
    . exact .inl (isConcrete_of_resolve? hclassifier)
    . rcases hmanaged _ managed hlookup with ⟨layer, hlayer, said, hsaid, hfor, _, hclassifier⟩
      exact .inr ⟨layer, hlayer, said, hsaid, hfor, hclassifier.trans heq⟩
    . exact .inl (hclassifier ▸ isConcrete_defaultClassifier _)
  case blank =>
    rintro (hempty | hempty | hempty)
    . exact hblank _ (hempty ▸ hfor.1)
    . exact hblank _ (hempty ▸ hfor.2)
    . rcases hversion with hversion | ⟨managed, hlookup, heq⟩
      . exact hblank _ (hempty ▸ hversion)
      . rcases hmanaged _ managed hlookup with ⟨layer, hlayer, said, _, _, hversion, _⟩
        rw [heq, hempty] at hversion
        exact ⟨layer, hlayer, exists_blank_of_resolve? hversion⟩

structure Managed.IsConcrete (name : String × String) (managed : Managed) : Prop where
  group : Pom.IsConcrete name.1
  artifact : Pom.IsConcrete name.2
  version : Pom.IsConcrete managed.version

namespace Loader

variable {loader : Loader}

theorem Lineage.isConcrete {location : List String} {found : Effective} {layers : List Layer}
    (h : loader.Lineage location found layers) {name : String × String} {managed : Managed}
    (hlookup : found.management.lookup name = some managed)
    : managed.IsConcrete name := by
  rw [h.lookup_management] at hlookup
  rcases List.exists_of_findSome?_eq_some hlookup with ⟨layer, _, hsaid⟩
  rcases layer.exists_of_managed? hsaid with ⟨_, _, hfor, hversion, _⟩
  exact ⟨isConcrete_of_resolve? hfor.1, isConcrete_of_resolve? hfor.2,
    isConcrete_of_resolve? hversion⟩

theorem Lineage.settled {location : List String} {found : Effective} {layers : List Layer}
    (h : loader.Lineage location found layers)
    : ∀ d ∈ found.dependencies, Settled layers d.coordinate := by
  induction h with
  | root locate_eq parent_eq composed =>
    have htable := Lineage.lookup_management (.root locate_eq parent_eq composed)
    rcases exists_own_of_ofModel composed.ofModel_eq with ⟨own, hown, hdependencies⟩
    rw [hdependencies]
    exact forall_mem_of_mapM_eq_ok hown fun _ _ _ =>
      settled_of_dependencyOf ⟨_, List.mem_cons_self, rfl⟩ htable
  | child locate_eq parentAt file_locate_eq lineage composed ih =>
    have htable :=
      Lineage.lookup_management (.child locate_eq parentAt file_locate_eq lineage composed)
    rcases exists_own_of_ofModel composed.ofModel_eq with ⟨own, hown, hdependencies⟩
    rw [hdependencies]
    intro d hd
    rcases List.mem_append.1 hd with hinherited | hd
    . exact (ih d (List.mem_filter.1 hinherited).1).cons
    . exact forall_mem_of_mapM_eq_ok hown (fun _ _ _ =>
        settled_of_dependencyOf ⟨_, List.mem_cons_self, rfl⟩ htable) d hd

theorem gives_of_perform {requests : List Request} {request : Request} {found : Effective}
    (h : ((loader.perform request).run ((loader.performAll requests).run []).2).1 = .ok found)
    : loader.Gives (loader.pathFor request) found := by
  have hmemo : loader.Sound anyPath ((loader.performAll requests).run []).2 :=
    sound_performAll closed_anyPath (fun _ _ => trivial) (sound_nil loader anyPath)
  exact (sound_perform closed_anyPath trivial hmemo).2 found h

/--
No reference is left in the coordinates of the dependencies that a descriptor has, unless it stands in a
classifier that an entry of the descriptor or of a parent says. They have a group, an artifact and a
version, unless a property of one of these is blank.
-/
theorem perform_settled (loader : Loader) (requests : List Request) (request : Request)
    {found : Effective}
    (h : ((loader.perform request).run ((loader.performAll requests).run []).2).1 = .ok found)
    : ∃ location layers, loader.tree.locate? (loader.pathFor request) = some location
        ∧ loader.Lineage location found layers
        ∧ ∀ d ∈ found.dependencies, Settled layers d.coordinate := by
  rcases gives_of_perform h with ⟨location, hlocate, hobtains⟩
  rcases exists_lineage hobtains with ⟨layers, hlineage⟩
  exact ⟨location, layers, hlocate, hlineage, hlineage.settled⟩

namespace Unsettled

/--
The project of the example: it refers to its group in a classifier that it manages, and to a blank
property in a version.
-/
def tree : FileTree :=
  let name := element "groupId" "g" ++ element "artifactId" "a"
  let text := descriptor "g" "b" (element "version" "1" ++ element "properties" (element "e" " ") ++
    element "dependencyManagement" (element "dependencies" (element "dependency" (name ++
      element "version" "1" ++ element "classifier" "$\x7bproject.groupId\x7d"))) ++
    element "dependencies" (element "dependency" (name ++ element "version" "$\x7be\x7d")))
  ⟨.directory [("pom.xml", .file text.toUTF8)], []⟩

def project : Loader := ⟨tree, ⟨"repo"⟩⟩

def managed : RawDependency where
  group := some "g"
  artifact := some "a"
  version := some "1"
  classifier := some "$\x7bproject.groupId\x7d"

def used : RawDependency where
  group := some "g"
  artifact := some "a"
  version := some "$\x7be\x7d"

def model : Model :=
  ⟨some "g", some "b", some "1", none, none, [("e", "")], [managed], [used], []⟩

set_option maxRecDepth 4000 in
theorem modelAt_project : project.modelAt ⟨"pom.xml"⟩ = .ok model := by
  apply modelAt_of_toList
  . rfl
  . simp [descriptor, toList_element]
    rfl
  . rw [Model.parse, Xml.parse?, String.toList_ofList]
    decide +kernel

theorem plain_project
    : (plain ⟨"pom.xml"⟩ model none).toOption.map (·.dependencies)
        = some [⟨⟨"g", "a", "", "jar", "$\x7bproject.groupId\x7d"⟩, "compile", false⟩] := by
  decide +kernel

theorem exists_found
    : ∃ found, ((project.loadFile ⟨"pom.xml"⟩).run []).1 = .ok found
        ∧ found.dependencies
          = [⟨⟨"g", "a", "", "jar", "$\x7bproject.groupId\x7d"⟩, "compile", false⟩] := by
  rcases exists_of_map_toOption plain_project with ⟨found, hfound, hdependencies⟩
  have hlocate : project.tree.locate? ⟨"pom.xml"⟩ = some ["pom.xml"] := rfl
  have hrun := run_loadFile_plain hlocate (List.lookup_nil ..) modelAt_project rfl (by decide) hfound
  exact ⟨found, congrArg Prod.fst hrun, hdependencies⟩

end Unsettled

theorem perform_settled_managedClassifier
    : ∃ found, ((Unsettled.project.perform (.file ⟨"pom.xml"⟩)).run
            ((Unsettled.project.performAll []).run []).2).1 = .ok found
        ∧ ∃ location layers, Unsettled.project.Lineage location found layers
          ∧ ∃ layer ∈ layers, ∃ said ∈ layer.entries,
            said.IsFor layer.properties ("g", "a")
              ∧ said.classifier = some "$\x7bproject.groupId\x7d" := by
  rcases Unsettled.exists_found with ⟨found, hfound, hdependencies⟩
  rcases perform_settled Unsettled.project [] (.file ⟨"pom.xml"⟩) hfound with
    ⟨location, layers, _, hlineage, hsettled⟩
  have hfirst := hsettled _ (hdependencies ▸ List.mem_cons_self)
  refine ⟨found, hfound, location, layers, hlineage, ?_⟩
  exact hfirst.classifier.resolve_left (by decide)

/--
The dependency of the example has a reference for its classifier and no version.
-/
theorem loadFile_unsettled
    : Unsettled.project.modelAt ⟨"pom.xml"⟩ = .ok Unsettled.model
        ∧ ∃ found, ((Unsettled.project.loadFile ⟨"pom.xml"⟩).run []).1 = .ok found
          ∧ ∃ d ∈ found.dependencies,
            d.coordinate.version = "" ∧ ['$', '\x7b'] <:+: d.coordinate.classifier.toList := by
  rcases Unsettled.exists_found with ⟨found, hfound, hdependencies⟩
  refine ⟨Unsettled.modelAt_project, found, hfound, ?_⟩
  rw [hdependencies]
  exact ⟨_, List.mem_cons_self, rfl, by decide⟩

end Loader
end Pom
end ArtifactAudit
