import ArtifactAudit.Proofs.Pom.Cycles

/-!
This module contains what comes of the entries by which descriptors manage the versions of
dependencies: a dependency without a version has the one that the nearest of the descriptor and its
parents says, in terms of that one's own properties.
-/

namespace ArtifactAudit.Pom

/--
Whether an entry is about the dependencies of a name if it refers to some properties.
-/
def RawDependency.IsFor (entry : RawDependency) (properties : Properties) (name : String × String)
    : Prop :=
  resolve? properties entry.group = some name.1 ∧ resolve? properties entry.artifact = some name.2

instance (entry : RawDependency) (properties : Properties) (name : String × String)
    : Decidable (entry.IsFor properties name) :=
  inferInstanceAs (Decidable (_ ∧ _))

def RawDependency.managed? (entry : RawDependency) (properties : Properties)
    (name : String × String)
    : Option Managed :=
  if entry.IsFor properties name then
    (resolve? properties entry.version).map fun version => ⟨version, entry.scope, entry.classifier⟩
  else none

/--
What a descriptor says about dependencies without its parents: entries of its own and of the
descriptors that it imports, with the properties that they refer to.
-/
structure Layer where
  properties : Properties
  entries : List RawDependency

def Layer.managed? (layer : Layer) (name : String × String) : Option Managed :=
  layer.entries.reverse.findSome? (·.managed? layer.properties name)

theorem Layer.managed?_append {before after : List RawDependency} {said : RawDependency}
    {properties : Properties} {name : String × String} (hfor : said.IsFor properties name)
    (hafter : ∀ later ∈ after, ¬ later.IsFor properties name)
    : Layer.managed? ⟨properties, before ++ said :: after⟩ name
        =
      match resolve? properties said.version with
      | some version => some ⟨version, said.scope, said.classifier⟩
      | none => Layer.managed? ⟨properties, before⟩ name := by
  have hnone : after.reverse.findSome? (·.managed? properties name) = none := by
    rw [List.findSome?_eq_none_iff]
    intro later hlater
    rw [RawDependency.managed?, if_neg (hafter later (List.mem_reverse.1 hlater))]
  rw [managed?, List.reverse_append, List.reverse_cons, List.append_assoc,
    List.findSome?_append, hnone, Option.none_or, List.findSome?_append, List.findSome?_singleton,
    RawDependency.managed?, if_pos hfor]
  cases resolve? properties said.version <;> rfl

theorem nameOf_eq_ok {c : Coordinate} {properties : Properties} {entry : RawDependency}
    {name : String × String}
    : nameOf c properties entry = .ok name ↔ entry.IsFor properties name := by
  rw [nameOf, RawDependency.IsFor]
  cases hgroup : resolve? properties entry.group with
  | none => simp [hgroup, bind, Except.bind]
  | some group =>
    cases hartifact : resolve? properties entry.artifact with
    | none => simp [hgroup, hartifact, bind, Except.bind]
    | some artifact =>
      simp [hgroup, hartifact, bind, Except.bind, pure, Except.pure, Prod.ext_iff]

variable {c : Coordinate} {properties : Properties} {name : String × String}

theorem lookup_manage {table after : Management} {entry : RawDependency}
    (h : manage c properties table entry = .ok after)
    : after.lookup name = (entry.managed? properties name).or (table.lookup name) := by
  rcases exists_of_bind_eq_ok h with ⟨other, hname, h⟩
  have hother := nameOf_eq_ok.1 hname
  have hfor : entry.IsFor properties name ↔ name = other := by
    rw [RawDependency.IsFor, hother.1, hother.2, Option.some.injEq, Option.some.injEq,
      Prod.ext_iff]
    simp only [eq_comm]
  simp only [RawDependency.managed?, hfor]
  split at h
  . next version hversion =>
    cases h
    rw [Management.lookup_insert, hversion]
    split <;> rfl
  . next hversion =>
    cases h
    rw [hversion]
    split <;> rfl

theorem lookup_foldlM_manage (entries : List RawDependency)
    : ∀ {table after : Management}, entries.foldlM (manage c properties) table = .ok after →
        after.lookup name
          = (Layer.managed? ⟨properties, entries⟩ name).or (table.lookup name) := by
  induction entries with
  | nil =>
    intro table after h
    cases h
    rfl
  | cons entry entries ih =>
    intro table after h
    rw [List.foldlM_cons] at h
    rcases exists_of_bind_eq_ok h with ⟨between, hmanage, hrest⟩
    rw [ih hrest, lookup_manage hmanage, Layer.managed?, Layer.managed?, List.reverse_cons,
      List.findSome?_append, List.findSome?_singleton, Option.or_assoc]

theorem management_ofModel {model : Model} {parent : Option Effective} {found : Effective}
    (h : Effective.ofModel c properties model parent = .ok found)
    : found.management.lookup name
        = (Layer.managed? ⟨properties, model.management⟩ name).or
          ((parent.elim ∅ (·.management)).lookup name) := by
  rcases exists_of_ofModel h with ⟨management, own, hmanagement, _, rfl⟩
  exact lookup_foldlM_manage model.management hmanagement

theorem dependencies_ofModel {model : Model} {parent : Option Effective} {found : Effective}
    (h : Effective.ofModel c properties model parent = .ok found)
    : ∀ entry ∈ model.dependencies, ∃ d ∈ found.dependencies,
        dependencyOf c properties found.management entry = .ok d := by
  rcases exists_of_ofModel h with ⟨management, own, _, hown, rfl⟩
  intro entry hentry
  rcases exists_mem_of_mapM_eq_ok hown entry hentry with ⟨d, hd, heq⟩
  exact ⟨d, List.mem_append_right _ hd, heq⟩

theorem dependencyOf_unversioned {table : Management} {entry : RawDependency} {d : Dependency}
    (h : dependencyOf c properties table entry = .ok d) (hfor : entry.IsFor properties name)
    (hversion : resolve? properties entry.version = none)
    : d.coordinate.group = name.1 ∧ d.coordinate.artifact = name.2
        ∧ ∃ managed, table.lookup name = some managed ∧ d.coordinate.version = managed.version := by
  rw [dependencyOf, nameOf_eq_ok.2 hfor] at h
  simp only [Bind.bind, Except.bind, hversion] at h
  cases hlookup : table.lookup name with
  | none =>
    rw [hlookup] at h
    cases h
  | some managed =>
    rw [hlookup] at h
    cases h
    exact ⟨rfl, rfl, managed, rfl, rfl⟩

namespace Loader

open Inquiry

/--
What a descriptor is made of: what its file says, and the descriptor of its parent if it has one.
-/
structure Composed (loader : Loader) (path : Path) (model : Model) (parent : Option Effective)
    (layer : Layer) (found : Effective) : Prop where
  model_eq : loader.modelAt path = .ok model
  coordinate_eq : coordinateOf path model parent = .ok found.coordinate
  properties_eq : layer.properties = propertiesOf found.coordinate model parent
  expands : ∃ groups, layer.entries = groups.flatten
    ∧ (forAll (loader.importInquiry found.coordinate layer.properties) model.management).Ends
      loader.Gives groups
  ofModel_eq : Effective.ofModel found.coordinate layer.properties
    { model with management := layer.entries } parent = .ok found

inductive ParentAt (loader : Loader) (path : Path) (model : Model) (file : Path)
    (found : Effective) : Prop where
  | inProject {parent : Parent} (parent_eq : model.parent = some parent)
    (file_eq : loader.parentFile? path parent = some file) (fits : found.IsFor parent)
  | published {parent : Parent} (parent_eq : model.parent = some parent)
    (unfit : ∀ file, loader.parentFile? path parent = some file → loader.Unfit file parent)
    (file_eq : file = loader.published parent)

/--
What a descriptor and its parents say about dependencies, beginning with itself.
-/
inductive Lineage (loader : Loader) : List String → Effective → List Layer → Prop where
  | root {path : Path} {location : List String} {model : Model} {layer : Layer} {found : Effective}
    (locate_eq : loader.tree.locate? path = some location) (parent_eq : model.parent = none)
    (composed : loader.Composed path model none layer found)
    : Lineage loader location found [layer]
  | child {path file : Path} {location above : List String} {model : Model} {layer : Layer}
    {layers : List Layer} {parent found : Effective}
    (locate_eq : loader.tree.locate? path = some location)
    (parentAt : loader.ParentAt path model file parent)
    (file_locate_eq : loader.tree.locate? file = some above)
    (lineage : Lineage loader above parent layers)
    (composed : loader.Composed path model (some parent) layer found)
    : Lineage loader location found (layer :: layers)

variable {loader : Loader}

theorem Lineage.lookup_management {location : List String} {found : Effective}
    {layers : List Layer} (h : loader.Lineage location found layers) (name : String × String)
    : found.management.lookup name = layers.findSome? (·.managed? name) := by
  induction h with
  | root _ _ composed =>
    rw [management_ofModel composed.ofModel_eq, List.findSome?_singleton]
    exact Option.or_none
  | child _ _ _ _ composed ih =>
    rw [management_ofModel composed.ofModel_eq, List.findSome?_cons]
    dsimp only [Option.elim]
    rw [ih]
    cases Layer.managed? _ name <;> rfl

theorem composed_of_ends {path : Path} {model : Model} {parent : Option Effective}
    {found : Effective} (hmodel : loader.modelAt path = .ok model)
    (h : (loader.inquiryBelow path model parent).Ends loader.Gives found)
    : ∃ layer, loader.Composed path model parent layer found := by
  rcases h.of_bind with ⟨c, hc, hbelow⟩
  rcases hbelow.of_bind with ⟨groups, hgroups, hdone⟩
  have hfound := ends_done hdone
  obtain rfl := coordinate_ofModel hfound
  exact ⟨⟨_, groups.flatten⟩, hmodel, ends_done hc, rfl, ⟨groups, rfl, hgroups⟩, hfound⟩

theorem parentAt_of_ends {path : Path} {model : Model} {parent : Parent} {found : Effective}
    {answers : Path → Effective → Prop} (hparent : model.parent = some parent)
    (hanswers : ∀ file other, answers file other → loader.Gives file other)
    (h : (loader.parentInquiry path parent).Ends answers found)
    : ∃ file, answers file found ∧ loader.ParentAt path model file found := by
  rw [parentInquiry] at h
  split at h
  . next hfile =>
    exact ⟨_, ends_publishedInquiry h, .published hparent (by simp [hfile]) rfl⟩
  . next file hfile =>
    cases h with
    | @ask _ _ other _ hother h =>
      dsimp only at h
      split at h
      . next hfor =>
        cases h
        exact ⟨file, hother, .inProject hparent hfile hfor⟩
      . next hfor =>
        refine ⟨_, ends_publishedInquiry h, .published hparent ?_ rfl⟩
        intro last hlast
        rw [hfile, Option.some.injEq] at hlast
        exact .inl ⟨other, hlast ▸ hanswers file other hother, hfor⟩

theorem exists_lineage {location : List String} {found : Effective}
    (h : loader.Obtains anyPath location found)
    : ∃ layers, loader.Lineage location found layers := by
  induction h with
  | @intro path location model found answers _ hlocate hmodel hends hobtains ih =>
    let traced : Path → Effective → Prop := Located loader.tree fun above other =>
      loader.Obtains anyPath above other ∧ ∃ layers, loader.Lineage above other layers
    have hgives : ∀ file other, traced file other → loader.Gives file other :=
      fun _ _ ⟨above, habove, hother, _⟩ => ⟨above, habove, hother⟩
    have htraced : (loader.inquiry path model).Ends traced found :=
      hends.mono fun _ _ ⟨above, habove, hother⟩ =>
        ⟨above, habove, hobtains above _ hother, ih above _ hother⟩
    rw [inquiry] at htraced
    split at htraced
    . next hparent =>
      rcases composed_of_ends hmodel (htraced.mono hgives) with ⟨layer, hlayer⟩
      exact ⟨[layer], .root hlocate hparent hlayer⟩
    . next parent hparent =>
      rcases htraced.of_bind with ⟨other, hother, hbelow⟩
      rcases parentAt_of_ends hparent hgives hother with
        ⟨file, ⟨above, habove, _, layers, hlayers⟩, hparentAt⟩
      rcases composed_of_ends hmodel (hbelow.mono hgives) with ⟨layer, hlayer⟩
      exact ⟨layer :: layers, .child hlocate hparentAt habove hlayers hlayer⟩

/--
A version that a parent manages is told in terms of that parent's own properties, whatever the
properties of the child are. Where they do not tell it the entry counts for nothing, and what stands
before it or is said further above counts instead.
-/
theorem perform_managedAbove (loader : Loader) (requests : List Request) (request : Request)
    {model : Model} {child : Effective}
    (hmodel : loader.modelAt (loader.pathFor request) = .ok model) (hparent : model.parent.isSome)
    (hchild : ((loader.perform request).run ((loader.performAll requests).run []).2).1 = .ok child)
    : ∃ location own above rest,
        loader.tree.locate? (loader.pathFor request) = some location
          ∧ loader.Lineage location child (own :: above :: rest)
          ∧ ∀ entry ∈ model.dependencies, ∀ name, entry.IsFor own.properties name →
            resolve? own.properties entry.version = none → own.managed? name = none →
              ∃ d ∈ child.dependencies,
                d.coordinate.group = name.1 ∧ d.coordinate.artifact = name.2
                  ∧ ∀ before said after, above.entries = before ++ said :: after →
                    said.IsFor above.properties name →
                    (∀ later ∈ after, ¬ later.IsFor above.properties name) →
                      match resolve? above.properties said.version with
                      | some version => d.coordinate.version = version
                      | none =>
                        ∃ managed,
                          (⟨above.properties, before⟩ :: rest).findSome? (·.managed? name)
                              = some managed
                            ∧ d.coordinate.version = managed.version := by
  have hmemo : loader.Sound anyPath ((loader.performAll requests).run []).2 :=
    sound_performAll closed_anyPath (fun _ _ => trivial) (sound_nil loader anyPath)
  have hgives : loader.Gives (loader.pathFor request) child := by
    rcases run_perform loader request with hrun | ⟨error, hrun⟩
    . rw [hrun] at hchild
      exact (sound_loadWithin closed_anyPath _ [] _ _ trivial hmemo).2 child hchild
    . rw [hrun] at hchild
      cases hchild
  rcases hgives with ⟨location, hlocate, hobtains⟩
  rcases exists_lineage hobtains with ⟨layers, hlineage⟩
  cases hlineage with
  | root hother hroot composed =>
    obtain rfl := Except.ok.inj
      (hmodel.symm.trans (modelAt_of_locate? hother hlocate composed.model_eq))
    rw [hroot] at hparent
    cases hparent
  | @child _ _ _ _ _ own layers _ _ hother parentAt habove lineage composed =>
    obtain rfl := Except.ok.inj
      (hmodel.symm.trans (modelAt_of_locate? hother hlocate composed.model_eq))
    have hlayers : ∃ above rest, layers = above :: rest := by
      cases lineage with
      | root => exact ⟨_, _, rfl⟩
      | child => exact ⟨_, _, rfl⟩
    rcases hlayers with ⟨above, rest, rfl⟩
    have hlineage : loader.Lineage location child (own :: above :: rest) :=
      .child hother parentAt habove lineage composed
    refine ⟨location, own, above, rest, hlocate, hlineage, ?_⟩
    intro entry hentry name hfor hversion hown
    rcases dependencies_ofModel composed.ofModel_eq entry hentry with ⟨d, hd, heq⟩
    rcases dependencyOf_unversioned heq hfor hversion with
      ⟨hgroup, hartifact, managed, hlookup, hmanaged⟩
    refine ⟨d, hd, hgroup, hartifact, ?_⟩
    intro before said after hentries hsaid hafter
    rw [hlineage.lookup_management, List.findSome?_cons, hown, List.findSome?_cons] at hlookup
    have habove : above.managed? name = _ :=
      (congrArg (Layer.managed? ⟨above.properties, ·⟩ name) hentries).trans
        (Layer.managed?_append hsaid hafter)
    rw [habove] at hlookup
    cases hsome : resolve? above.properties said.version with
    | some version =>
      rw [hsome] at hlookup
      dsimp only at hlookup ⊢
      rw [hmanaged, ← Option.some.inj hlookup]
    | none =>
      rw [hsome] at hlookup
      exact ⟨managed, hlookup, hmanaged⟩

def plain (path : Path) (model : Model) (parent : Option Effective) :
    Except AuditError Effective := do
  let c ← coordinateOf path model parent
  Effective.ofModel c (propertiesOf c model parent) model parent

theorem importInquiry_of_not_isImport {loader : Loader} {c : Coordinate} {properties : Properties}
    {entry : RawDependency} (h : isImport entry = false)
    : loader.importInquiry c properties entry = .done (.ok [entry]) := by
  rw [importInquiry, h, if_neg Bool.false_ne_true]

theorem forAll_importInquiry {loader : Loader} {c : Coordinate} {properties : Properties}
    {entries : List RawDependency} (h : ∀ entry ∈ entries, isImport entry = false)
    : forAll (loader.importInquiry c properties) entries = .done (.ok (entries.map ([·]))) := by
  induction entries with
  | nil => rfl
  | cons entry entries ih =>
    rw [List.forall_mem_cons] at h
    rw [forAll, importInquiry_of_not_isImport h.1, ih h.2]
    rfl

theorem inquiryBelow_eq_plain {loader : Loader} {path : Path} {model : Model}
    {parent : Option Effective} (h : ∀ entry ∈ model.management, isImport entry = false)
    : loader.inquiryBelow path model parent = .done (plain path model parent) := by
  rw [inquiryBelow, plain]
  cases coordinateOf path model parent with
  | error error => rfl
  | ok c =>
    change Inquiry.bind _ (forAll _ _) = _
    rw [forAll_importInquiry h]
    change Inquiry.done (Effective.ofModel c _ { model with management := _ } parent) = _
    have hentries : (model.management.map ([·])).flatten = model.management := by
      rw [← List.flatMap_def, List.flatMap_singleton']
    rw [hentries]
    rfl

theorem inquiryBelow_eq_ask {loader : Loader} {path asked : Path} {model : Model}
    {parent : Option Effective} {c : Coordinate} {entry : RawDependency}
    {entries : Effective → List RawDependency} (hmanagement : model.management = [entry])
    (hcoordinate : coordinateOf path model parent = .ok c)
    (himport : loader.importInquiry c (propertiesOf c model parent) entry
      = .ask asked fun found => .done (.ok (entries found)))
    : loader.inquiryBelow path model parent
        = .ask asked fun found =>
          .done (plain path { model with management := entries found } parent) := by
  rw [inquiryBelow, hcoordinate]
  dsimp only [Inquiry.bind]
  rw [hmanagement, forAll, himport]
  dsimp only [Inquiry.bind, forAll]
  congr
  funext found
  have hcoordinate : coordinateOf path { model with management := entries found } parent = .ok c :=
    hcoordinate
  rw [List.flatten_cons, List.flatten_nil, List.append_nil, plain, hcoordinate]
  rfl

theorem Gives.plain_eq {loader : Loader} {path : Path} {model : Model} {found : Effective}
    (h : loader.Gives path found) (hmodel : loader.modelAt path = .ok model)
    (hparent : model.parent = none) (hplain : ∀ entry ∈ model.management, isImport entry = false)
    : plain path model none = .ok found := by
  rcases h with ⟨location, hlocate, h⟩
  cases h with
  | @intro other _ _ _ answers _ hother hmodel' hends _ =>
    obtain rfl := Except.ok.inj (hmodel.symm.trans (modelAt_of_locate? hother hlocate hmodel'))
    rw [inquiry, hparent] at hends
    dsimp only at hends
    rw [inquiryBelow_eq_plain hplain] at hends
    rcases exists_of_bind_eq_ok (ends_done hends) with ⟨c, hcoordinate, hfound⟩
    have hcoordinate : coordinateOf path model none = .ok c :=
      coordinateOf_eq_ok.2 (coordinateOf_eq_ok.1 hcoordinate)
    rw [plain, hcoordinate]
    exact hfound

theorem fst_loadWithin_done {loader : Loader} {memo : Memo} {steps : Nat}
    {visiting : List (List String)} {path : Path} {location : List String} {model : Model}
    {result : Except AuditError Effective} (hlocate : loader.tree.locate? path = some location)
    (hforgotten : memo.lookup location = none) (hnew : location ∉ visiting)
    (hmodel : loader.modelAt path = .ok model) (hinquiry : loader.inquiry path model = .done result)
    : ((loader.loadWithin (steps + 1) visiting path).run memo).1 = result := by
  rw [fst_loadWithin_new hlocate hforgotten hnew hmodel, hinquiry]
  rfl

theorem fst_loadWithin_ask {loader : Loader} {memo : Memo} {steps : Nat}
    {visiting : List (List String)} {path asked : Path} {location : List String} {model : Model}
    {next : Effective → Except AuditError Effective}
    (hlocate : loader.tree.locate? path = some location)
    (hforgotten : memo.lookup location = none) (hnew : location ∉ visiting)
    (hmodel : loader.modelAt path = .ok model)
    (hinquiry : loader.inquiry path model = .ask asked fun found => .done (next found))
    : ((loader.loadWithin (steps + 1) visiting path).run memo).1
        = (((loader.loadWithin steps (location :: visiting) asked).run memo).1).bind next := by
  rw [fst_loadWithin_new hlocate hforgotten hnew hmodel, hinquiry, Inquiry.run_ask]
  rcases (loader.loadWithin steps (location :: visiting) asked).run memo with
    ⟨error | found, after⟩ <;> rfl

theorem run_loadWithin_plain {loader : Loader} {memo : Memo} {steps : Nat}
    {visiting : List (List String)} {file : Path} {location : List String} {model : Model}
    {found : Effective} (hlocate : loader.tree.locate? file = some location)
    (hforgotten : memo.lookup location = none) (hnew : location ∉ visiting)
    (hmodel : loader.modelAt file = .ok model) (hparent : model.parent = none)
    (himports : ∀ entry ∈ model.management, isImport entry = false)
    (hplain : plain file model none = .ok found)
    : (loader.loadWithin (steps + 1) visiting file).run memo
        = (.ok found, (location, found) :: memo) := by
  rw [run_loadWithin_new hlocate hforgotten hnew hmodel, inquiry, hparent]
  dsimp only
  rw [inquiryBelow_eq_plain himports, hplain]
  rfl

theorem run_loadFile_plain {loader : Loader} {memo : Memo} {file : Path} {location : List String}
    {model : Model} {found : Effective} (hlocate : loader.tree.locate? file = some location)
    (hforgotten : memo.lookup location = none) (hmodel : loader.modelAt file = .ok model)
    (hparent : model.parent = none) (himports : ∀ entry ∈ model.management, isImport entry = false)
    (hplain : plain file model none = .ok found)
    : (loader.loadFile file).run memo = (.ok found, (location, found) :: memo) :=
  run_loadWithin_plain hlocate hforgotten List.not_mem_nil hmodel hparent himports hplain

theorem fst_loadFile_published {file : Path} {location above : List String} {model : Model}
    {parent : Parent} {parentModel : Model} (hlocate : loader.tree.locate? file = some location)
    (hmodel : loader.modelAt file = .ok model) (hparent : model.parent = some parent)
    (hplain : ∀ entry ∈ model.management, isImport entry = false)
    (hfile : loader.parentFile? file parent = none)
    (hexists : loader.tree.exists? (loader.published parent) = true)
    (habove : loader.tree.locate? (loader.published parent) = some above) (hne : above ≠ location)
    (hparentModel : loader.modelAt (loader.published parent) = .ok parentModel)
    (hroot : parentModel.parent = none)
    (hplain' : ∀ entry ∈ parentModel.management, isImport entry = false)
    : ((loader.loadFile file).run []).1
        = (plain (loader.published parent) parentModel none).bind fun found =>
          plain file model (some found) := by
  have hasked : loader.inquiry file model
      = .ask (loader.published parent) fun found => .done (plain file model (some found)) := by
    rw [inquiry, hparent]
    dsimp only
    rw [parentInquiry, hfile]
    dsimp only
    rw [publishedInquiry, if_pos hexists]
    simp only [inquiryBelow_eq_plain hplain]
    rfl
  have hdone : loader.inquiry (loader.published parent) parentModel
      = .done (plain (loader.published parent) parentModel none) := by
    rw [inquiry, hroot]
    exact inquiryBelow_eq_plain hplain'
  rw [loadFile, fst_loadWithin_ask hlocate List.lookup_nil List.not_mem_nil hmodel hasked,
    fst_loadWithin_done habove List.lookup_nil (by simpa using hne) hparentModel hdone]

namespace Redefined

/--
The project of the example: its parent is published. Both set the property that the parent uses for
the version of a dependency.
-/
def tree : FileTree :=
  let dependency := element "groupId" "g" ++ element "artifactId" "a"
  let child := descriptor "g" "child" (element "parent" (element "groupId" "p" ++
      element "artifactId" "parent" ++ element "version" "1" ++ element "relativePath" "") ++
    element "properties" (element "k" "2") ++
    element "dependencies" (element "dependency" dependency))
  let parent := descriptor "p" "parent" (element "version" "1" ++
    element "properties" (element "k" "1") ++
    element "dependencyManagement" (element "dependencies" (element "dependency"
      (dependency ++ element "version" "$\x7bk\x7d"))))
  ⟨.directory
    [("pom.xml", .file child.toUTF8),
      ("repo", .directory [("p", .directory [("parent", .directory [("1", .directory
        [("parent-1.pom", .file parent.toUTF8)])])])])], []⟩

def project : Loader := ⟨tree, ⟨"repo"⟩⟩

def parent : Parent := ⟨"p", "parent", "1", some ""⟩

def used : RawDependency where
  group := some "g"
  artifact := some "a"

def managed : RawDependency := { used with version := some "$\x7bk\x7d" }

def childModel : Model :=
  ⟨some "g", some "child", none, none, some parent, [("k", "2")], [], [used], []⟩

def parentModel : Model :=
  ⟨some "p", some "parent", some "1", none, none, [("k", "1")], [managed], [], []⟩

set_option maxRecDepth 4000 in
theorem modelAt_child : project.modelAt ⟨"pom.xml"⟩ = .ok childModel := by
  apply modelAt_of_toList
  . rfl
  . simp [descriptor, toList_element]
    rfl
  . rw [Model.parse, Xml.parse?, String.toList_ofList]
    rfl

set_option maxRecDepth 4000 in
theorem modelAt_parent : project.modelAt (project.published parent) = .ok parentModel := by
  apply modelAt_of_toList
  . rfl
  . simp [descriptor, toList_element]
    rfl
  . rw [Model.parse, Xml.parse?, String.toList_ofList]
    rfl

theorem locate?_child : project.tree.locate? ⟨"pom.xml"⟩ = some ["pom.xml"] := by
  rfl

theorem locate?_parent : project.tree.locate? (project.published parent)
    = some ["repo", "p", "parent", "1", "parent-1.pom"] := by
  rfl

def above : Effective where
  coordinate := .ofParts "p" "parent" "1"
  properties := .ofList [("k", "1"), ("project.groupId", "p"), ("project.artifactId", "parent"),
    ("project.version", "1")]
  management := .insert ∅ ("g", "a") ⟨"1", none, none⟩
  dependencies := []
  modules := []

theorem plain_parent
    : (plain (project.published parent) parentModel none).toOption = some above := by
  decide +kernel

theorem plain_child
    : (plain ⟨"pom.xml"⟩ childModel (some above)).toOption.map
          (fun child => (child.properties.get? "k", child.dependencies))
        = some (some "2", [⟨.ofParts "g" "a" "1", "compile", false⟩]) := by
  decide

theorem exists_child
    : ∃ child, ((project.loadFile ⟨"pom.xml"⟩).run []).1 = .ok child
        ∧ child.properties.get? "k" = some "2"
        ∧ child.dependencies = [⟨.ofParts "g" "a" "1", "compile", false⟩] := by
  have hload := fst_loadFile_published locate?_child modelAt_child rfl (by decide) (by decide)
    (by decide) locate?_parent (by decide) modelAt_parent rfl (by decide)
  rcases exists_of_map_toOption plain_child with ⟨child, hchild, heq⟩
  rcases Prod.ext_iff.1 heq with ⟨hproperty, hdependencies⟩
  rw [eq_ok_of_toOption plain_parent] at hload
  exact ⟨child, hload.trans hchild, hproperty, hdependencies⟩

theorem composed_child {path : Path} {found : Effective} {own : Layer} {other : Effective}
    (h : project.Composed path childModel (some other) own found)
    : own.entries = [] := by
  rcases h.expands with ⟨groups, hentries, hends⟩
  obtain rfl := Except.ok.inj (ends_done hends)
  exact hentries

theorem composed_parent {path : Path} {found : Effective} {layer : Layer}
    (h : project.Composed path parentModel none layer found)
    : layer.entries = [managed] ∧ resolve layer.properties "$\x7bk\x7d" = some "1" := by
  rcases h.expands with ⟨groups, hentries, hends⟩
  rw [forAll_importInquiry (by decide)] at hends
  obtain rfl := Except.ok.inj (ends_done hends)
  refine ⟨hentries, ?_⟩
  rcases coordinateOf_eq_ok.1 h.coordinate_eq with ⟨group, artifact, version, hg, ha, hv, hc⟩
  have hgroup : some "p" = some group := hg
  have hversion : some "1" = some version := hv
  cases hgroup
  cases hversion
  cases ha
  rw [h.properties_eq, hc]
  decide +kernel

theorem parentAt_child {path file : Path} {found : Effective}
    (h : project.ParentAt path childModel file found)
    : file = project.published parent := by
  cases h with
  | inProject parent_eq file_eq _ =>
    cases parent_eq
    cases file_eq
  | published parent_eq _ file_eq =>
    cases parent_eq
    exact file_eq

end Redefined

theorem perform_managedAbove_redefined
    : Redefined.project.modelAt ⟨"pom.xml"⟩ = .ok Redefined.childModel
        ∧ Redefined.childModel.parent.isSome
        ∧ ∃ child,
          ((Redefined.project.perform (.file ⟨"pom.xml"⟩)).run
              ((Redefined.project.performAll []).run []).2).1 = .ok child
            ∧ ∃ d ∈ child.dependencies, d.coordinate.group = "g" ∧ d.coordinate.artifact = "a"
              ∧ d.coordinate.version = "1" := by
  rcases Redefined.exists_child with ⟨child, hchild, _⟩
  refine ⟨Redefined.modelAt_child, rfl, child, hchild, ?_⟩
  rcases perform_managedAbove Redefined.project [] (.file ⟨"pom.xml"⟩) Redefined.modelAt_child rfl
    hchild with ⟨location, own, above, rest, hlocate, hlineage, hversions⟩
  cases hlineage with
  | @child path file _ target model _ _ found _ hpath hparentAt hfile hlineage hcomposed =>
    obtain rfl := Except.ok.inj (Redefined.modelAt_child.symm.trans
      (modelAt_of_locate? hpath hlocate hcomposed.model_eq))
    obtain rfl := Redefined.parentAt_child hparentAt
    have hown : own.managed? ("g", "a") = none := by
      rw [Layer.managed?, Redefined.composed_child hcomposed]
      rfl
    rcases hversions Redefined.used List.mem_cons_self ("g", "a") ⟨rfl, rfl⟩ rfl hown with
      ⟨d, hd, hgroup, hartifact, hversion⟩
    refine ⟨d, hd, hgroup, hartifact, ?_⟩
    cases hlineage with
    | root hother _ hcomposed =>
      obtain rfl := Except.ok.inj (Redefined.modelAt_parent.symm.trans
        (modelAt_of_locate? hother hfile hcomposed.model_eq))
      rcases Redefined.composed_parent hcomposed with ⟨hentries, hresolve⟩
      have hsaid := hversion [] Redefined.managed [] hentries ⟨rfl, rfl⟩ (by simp)
      have hmanaged : resolve? above.properties Redefined.managed.version = some "1" := hresolve
      rw [hmanaged] at hsaid
      exact hsaid
    | child hother hparentAt _ _ hcomposed =>
      obtain rfl := Except.ok.inj (Redefined.modelAt_parent.symm.trans
        (modelAt_of_locate? hother hfile hcomposed.model_eq))
      cases hparentAt with
      | inProject parent_eq _ _ => cases parent_eq
      | published parent_eq _ _ => cases parent_eq

/--
The child gives the property another value than its parent, which manages the version by it. The
version is the one of the parent.
-/
theorem loadFile_redefined_differs
    : Redefined.project.modelAt (Redefined.project.published Redefined.parent)
          = .ok ⟨some "p", some "parent", some "1", none, none, [("k", "1")],
            [{ Redefined.used with version := some "$\x7bk\x7d" }], [], []⟩
        ∧ Redefined.project.modelAt ⟨"pom.xml"⟩
          = .ok ⟨some "g", some "child", none, none, some Redefined.parent, [("k", "2")], [],
            [Redefined.used], []⟩
        ∧ ∃ child, ((Redefined.project.loadFile ⟨"pom.xml"⟩).run []).1 = .ok child
          ∧ child.properties.get? "k" = some "2"
          ∧ child.dependencies.map (·.coordinate.version) ≠ ["2"] := by
  rcases Redefined.exists_child with ⟨child, hchild, hproperty, hdependencies⟩
  refine ⟨Redefined.modelAt_parent, Redefined.modelAt_child, child, hchild, hproperty, ?_⟩
  rw [hdependencies]
  decide

end Loader

end ArtifactAudit.Pom
