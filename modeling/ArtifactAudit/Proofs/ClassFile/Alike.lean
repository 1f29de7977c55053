import ArtifactAudit.Proofs.ClassFile.Steady

/-!
This module contains when two class files that have been told apart into their parts are alike: they have
the same attributes in another order, up to some that nothing is read from. Its main statement is that
such class files have the same symbols.
-/

namespace ArtifactAudit.ClassFile

open Reader

variable {pool : ConstantPool} {skipDebug : Bool}

def annotationNames : List String :=
  ["RuntimeVisibleAnnotations", "RuntimeInvisibleAnnotations", "RuntimeVisibleTypeAnnotations",
    "RuntimeInvisibleTypeAnnotations"]

def classNames : List String :=
  ["BootstrapMethods", "InnerClasses"] ++ annotationNames

def methodNames : List String :=
  ["Code", "AnnotationDefault", "RuntimeVisibleParameterAnnotations",
    "RuntimeInvisibleParameterAnnotations"] ++ annotationNames

theorem annotationAttribute_eq_nil {a : Attribute} (h : a.name ∉ annotationNames)
    : annotationAttribute pool a = .ok [] := by
  have hne : ∀ name ∈ annotationNames, a.name ≠ name := fun name hname heq => h (heq ▸ hname)
  unfold annotationAttribute
  split
  . next heq => exact absurd heq (hne _ (by decide))
  . next heq => exact absurd heq (hne _ (by decide))
  . next heq => exact absurd heq (hne _ (by decide))
  . next heq => exact absurd heq (hne _ (by decide))
  . rfl

theorem methodAttribute_eq_nil {context : Code.Context} {a : Attribute} (h : a.name ∉ methodNames)
    : methodAttribute context a = .ok [] := by
  have hne : ∀ name ∈ methodNames, a.name ≠ name := fun name hname heq => h (heq ▸ hname)
  unfold methodAttribute
  split
  . next heq => exact absurd heq (hne _ (by decide))
  . next heq => exact absurd heq (hne _ (by decide))
  . next heq => exact absurd heq (hne _ (by decide))
  . next heq => exact absurd heq (hne _ (by decide))
  . exact annotationAttribute_eq_nil fun hname => h (List.mem_append_right _ hname)

structure Member.Alike (Same : Attribute → Attribute → Prop) (New : Attribute → Prop) (m m' : Member)
    : Prop where
  descriptor : m.descriptor = m'.descriptor
  attributes : Rearranged Same New m.attributes m'.attributes

theorem Member.Alike.agree {Same : Attribute → Attribute → Prop} {New : Attribute → Prop}
    {visit : Attribute → Except Fault (List String)} {m m' : Member} (h : m.Alike Same New m')
    (hsame : ∀ a b, Same a b → Agree List.Perm (visit a) (visit b)) (hnew : ∀ b, New b → visit b = .ok [])
    : Agree List.Perm
        (do
          let type ← Descriptor.classes m.descriptor
          let found ← m.attributes.mapM visit
          return type ++ found.flatten)
        (do
          let type ← Descriptor.classes m'.descriptor
          let found ← m'.attributes.mapM visit
          return type ++ found.flatten) := by
  rw [h.descriptor]
  apply Agree.bind_same
  intro type
  apply (h.attributes.mapM_flatten hsame hnew).bind
  intro found found' hfound
  exact .ok (.append_left type hfound)

structure Told where
  bootstraps : Option (List Nat) := none
  defined : List String := []
  used : List String := []

def tell (pool : ConstantPool) (name : String) (part : Attribute) : Except Fault Told :=
  if part.name = "BootstrapMethods" then do
    return { bootstraps := some (← within part.body bootstrapHandles) }
  else if part.name = "InnerClasses" then do
    return { defined := ← within part.body (innerClasses pool name) }
  else do
    return { used := ← annotationAttribute pool part }

def ClassAttributes.join (told : ClassAttributes) (new : Told) : ClassAttributes where
  bootstraps := new.bootstraps.getD told.bootstraps
  defined := told.defined ++ new.defined
  used := told.used ++ new.used

theorem tell_eq_empty {name : String} {a : Attribute} (h : a.name ∉ classNames)
    : tell pool name a = .ok {} := by
  rw [classNames, List.mem_append, not_or, List.mem_pair, not_or] at h
  rcases h with ⟨⟨hbootstraps, hinner⟩, hannotations⟩
  rw [tell, if_neg hbootstraps, if_neg hinner, annotationAttribute_eq_nil hannotations]
  rfl

theorem tell_agree (name : String) {a b : Attribute} (h : a.Same b)
    : Agree Eq (tell pool name a) (tell pool name b) := by
  unfold tell
  rw [h.name]
  split
  . exact (steady_bootstrapHandles.within h.body).bind fun _ _ heq => .ok (by rw [heq])
  . split
    . exact ((steady_innerClasses pool name).within h.body).bind fun _ _ heq => .ok (by rw [heq])
    . exact (annotationAttribute_agree pool h).bind fun _ _ heq => .ok (by rw [heq])

theorem ClassAttributes.add_eq (file : Layout) (told : ClassAttributes) (part : Attribute)
    : told.add file part = tell file.pool file.name part >>= fun new => pure (told.join new) := by
  unfold add
  split
  . next hname =>
    rw [tell, if_pos hname]
    rcases within part.body bootstrapHandles with fault | handles
    . rfl
    . simp [join]
  . next hname =>
    rw [tell, if_neg (by rw [hname]; decide), if_pos hname]
    rcases within part.body (innerClasses file.pool file.name) with fault | inner
    . rfl
    . simp [join]
  . next hbootstraps hinner =>
    rw [tell, if_neg hbootstraps, if_neg hinner]
    rcases annotationAttribute file.pool part with fault | found
    . rfl
    . simp [join]

theorem ClassAttributes.foldlM_add_eq (file : Layout) (as : List Attribute)
    : ∀ told : ClassAttributes, as.foldlM (add file) told
        =
      as.mapM (tell file.pool file.name) >>= fun news => pure (news.foldl join told) := by
  induction as with
  | nil => exact fun told => rfl
  | cons a as ih =>
    intro told
    rw [List.foldlM_cons, List.mapM_cons, add_eq]
    simp only [bind_assoc, pure_bind, ih, List.foldl_cons]

structure ClassAttributes.Alike (told told' : ClassAttributes) : Prop where
  bootstraps : told.bootstraps = told'.bootstraps
  defined : told.defined.Perm told'.defined
  used : told.used.Perm told'.used

namespace ClassAttributes

theorem join_empty (told : ClassAttributes) : told.join {} = told := by
  simp [join]

theorem foldl_join_of_forall_eq_empty {news : List Told} (h : ∀ new ∈ news, new = {})
    (told : ClassAttributes)
    : news.foldl join told = told := by
  induction news with
  | nil => rfl
  | cons new news ih =>
    rw [List.foldl_cons, h new List.mem_cons_self, join_empty]
    exact ih fun other hother => h other (List.mem_cons_of_mem new hother)

theorem foldl_join_eq (news : List Told)
    : ∀ told : ClassAttributes, news.foldl join told
        =
      { bootstraps := (news.filterMap Told.bootstraps).getLast?.getD told.bootstraps
        defined := told.defined ++ news.flatMap Told.defined
        used := told.used ++ news.flatMap Told.used } := by
  induction news with
  | nil => exact fun told => by simp
  | cons new news ih =>
    intro told
    rw [List.foldl_cons, ih]
    rcases hnew : new.bootstraps with _ | handles <;> simp [join, hnew, List.getLast?_cons]

theorem foldl_join_alike_of_perm {news news' : List Told} (h : news.Perm news')
    (hlength : (news.filterMap Told.bootstraps).length ≤ 1) (told : ClassAttributes)
    : Alike (news.foldl join told) (news'.foldl join told) := by
  have hbootstraps := h.filterMap Told.bootstraps
  have heq : news.filterMap Told.bootstraps = news'.filterMap Told.bootstraps := by
    generalize news.filterMap Told.bootstraps = tables at *
    rcases tables with _ | ⟨handles, _ | _⟩
    . exact hbootstraps.nil_eq
    . exact (List.perm_singleton.1 hbootstraps.symm).symm
    . simp at hlength
  rw [foldl_join_eq, foldl_join_eq, heq]
  exact ⟨rfl, (h.flatMap_right _).append_left _, (h.flatMap_right _).append_left _⟩

theorem foldl_join_alike {news news' : List Told} (h : Rearranged Eq (· = {}) news news')
    (hlength : (news.filterMap Told.bootstraps).length ≤ 1) (told : ClassAttributes)
    : Alike (news.foldl join told) (news'.foldl join told) := by
  rcases h with ⟨kept, added, hkept, hadded, hperm⟩
  rw [List.forall₂_eq_eq_eq] at hkept
  subst hkept
  have hnone : added.filterMap Told.bootstraps = [] := by
    rw [List.filterMap_eq_nil_iff]
    intro new hnew
    rw [hadded new hnew]
  have hfold : (news ++ added).foldl join told = news.foldl join told := by
    rw [List.foldl_append, foldl_join_of_forall_eq_empty hadded]
  rw [← hfold]
  apply foldl_join_alike_of_perm hperm.symm
  rwa [List.filterMap_append, hnone, List.append_nil]

end ClassAttributes

def bootstrapCount (as : List Attribute) : Nat :=
  as.countP fun a => a.name = "BootstrapMethods"

theorem isSome_bootstraps {name : String} {a : Attribute} {new : Told} (h : tell pool name a = .ok new)
    : new.bootstraps.isSome = decide (a.name = "BootstrapMethods") := by
  unfold tell at h
  split at h
  . next hname =>
    rcases exists_of_bind_eq_ok h with ⟨handles, _, hnew⟩
    cases hnew
    exact (decide_eq_true hname).symm
  . next hname =>
    -- Neither of the other kinds tells of bootstrap methods.
    rw [decide_eq_false hname]
    split at h
    . rcases exists_of_bind_eq_ok h with ⟨inner, _, hnew⟩
      cases hnew
      rfl
    . rcases exists_of_bind_eq_ok h with ⟨found, _, hnew⟩
      cases hnew
      rfl

theorem length_filterMap_bootstraps {name : String} {as : List Attribute} {news : List Told}
    (h : as.mapM (tell pool name) = .ok news)
    : (news.filterMap Told.bootstraps).length = bootstrapCount as := by
  rw [List.length_filterMap_eq_countP]
  exact countP_of_mapM_eq_ok h fun _ _ => isSome_bootstraps

def Layout.told (file : Layout) : Except Fault ClassAttributes :=
  file.attributes.foldlM (ClassAttributes.add file) {}

theorem Layout.symbols_eq_ok_iff {file : Layout} {skipDebug : Bool} {symbols : Symbols}
    : file.symbols skipDebug = .ok symbols
        ↔ ∃ told fields methods, file.told = .ok told
          ∧ file.fields.mapM (fieldClasses file.pool) = .ok fields
          ∧ file.methods.mapM (methodClasses ⟨file.pool, told.bootstraps, skipDebug⟩) = .ok methods
          ∧ symbols = {
            defined := .ofList (definition file.name ++ told.defined)
            used := .ofList (file.supertypes ++ told.used ++ fields.flatten ++ methods.flatten) } := by
  constructor
  . intro h
    rcases exists_of_bind_eq_ok h with ⟨told, htold, h⟩
    rcases exists_of_bind_eq_ok h with ⟨fields, hfields, h⟩
    rcases exists_of_bind_eq_ok h with ⟨methods, hmethods, h⟩
    exact ⟨told, fields, methods, htold, hfields, hmethods, (Except.ok.inj h).symm⟩
  . rintro ⟨told, fields, methods, htold, hfields, hmethods, rfl⟩
    unfold Layout.told at htold
    rw [symbols, htold]
    change (file.fields.mapM _ >>= _ : Except Fault Symbols) = _
    rw [hfields]
    change (file.methods.mapM _ >>= _ : Except Fault Symbols) = _
    rw [hmethods]
    rfl

def Attribute.AlikeInMethod (pool : ConstantPool) (skipDebug : Bool) (a b : Attribute) : Prop :=
  ∀ bootstraps, Agree List.Perm (methodAttribute ⟨pool, bootstraps, skipDebug⟩ a)
    (methodAttribute ⟨pool, bootstraps, skipDebug⟩ b)

/--
Whether two class files have the same parts up to the attributes of their members, and tell the same.
-/
structure Layout.Alike (skipDebug : Bool) (file file' : Layout) : Prop where
  pool : file.pool = file'.pool
  name : file.name = file'.name
  supertypes : file.supertypes = file'.supertypes
  told : Agree ClassAttributes.Alike file.told file'.told
  fields : List.Forall₂ (Member.Alike Attribute.Same (·.name ∉ annotationNames)) file.fields file'.fields
  methods : List.Forall₂
    (Member.Alike (Attribute.AlikeInMethod file.pool skipDebug) (·.name ∉ methodNames))
    file.methods file'.methods

theorem told_agree {file file' : Layout} (hpool : file.pool = file'.pool) (hname : file.name = file'.name)
    (h : Rearranged Attribute.Same (·.name ∉ classNames) file.attributes file'.attributes)
    (hcount : bootstrapCount file.attributes ≤ 1)
    : Agree ClassAttributes.Alike file.told file'.told := by
  have hnews : Agree (Rearranged Eq (· = {})) (file.attributes.mapM (tell file.pool file.name))
      (file'.attributes.mapM (tell file.pool file.name)) :=
    h.mapM (fun a b => tell_agree file.name) fun b hb => ⟨{}, tell_eq_empty hb, rfl⟩
  unfold Layout.told
  rw [ClassAttributes.foldlM_add_eq, ClassAttributes.foldlM_add_eq, ← hpool, ← hname]
  apply hnews.attach.bind
  rintro news news' ⟨htold, _, hrearranged⟩
  rw [← length_filterMap_bootstraps htold] at hcount
  exact .ok (ClassAttributes.foldl_join_alike hrearranged hcount {})

theorem fieldClasses_agree {field field' : Member}
    (h : field.Alike Attribute.Same (·.name ∉ annotationNames) field')
    : Agree List.Perm (fieldClasses pool field) (fieldClasses pool field') := by
  apply h.agree
  . exact fun a b hsame => (annotationAttribute_agree pool hsame).mono fun _ _ => List.Perm.of_eq
  . exact fun b hb => annotationAttribute_eq_nil hb

theorem methodClasses_agree {bootstraps : List Nat} {method method' : Member}
    (h : method.Alike (Attribute.AlikeInMethod pool skipDebug) (·.name ∉ methodNames) method')
    : Agree List.Perm (methodClasses ⟨pool, bootstraps, skipDebug⟩ method)
        (methodClasses ⟨pool, bootstraps, skipDebug⟩ method') := by
  apply h.agree
  . exact fun a b hsame => hsame bootstraps
  . exact fun b hb => methodAttribute_eq_nil hb

theorem ofList_eq_of_perm {names others : List String} (h : names.Perm others)
    : NameSet.ofList names = NameSet.ofList others := by
  apply NameSet.ext
  intro name
  rw [NameSet.mem_ofList, NameSet.mem_ofList, h.mem_iff]

theorem Attribute.Same.alikeInMethod {a b : Attribute} (h : a.Same b)
    : a.AlikeInMethod pool skipDebug b :=
  fun _ => (methodAttribute_agree _ h).mono fun _ _ => List.Perm.of_eq

theorem ClassAttributes.Alike.refl (told : ClassAttributes) : told.Alike told := ⟨rfl, .rfl, .rfl⟩

theorem Layout.Same.alike {file file' : Layout} (h : file.Same file') : file.Alike skipDebug file' where
  pool := h.pool
  name := h.name
  supertypes := h.supertypes
  told := by
    unfold Layout.told
    rw [ClassAttributes.foldlM_add_eq, ClassAttributes.foldlM_add_eq, ← h.pool, ← h.name]
    apply (Agree.mapM h.attributes fun _ _ => tell_agree file.name).bind
    intro news news' hnews
    rw [List.forall₂_eq_eq_eq] at hnews
    exact .ok (hnews ▸ ClassAttributes.Alike.refl _)
  fields := h.fields.imp fun _ _ hfield => ⟨hfield.descriptor, .of_forall₂ hfield.attributes⟩
  methods := h.methods.imp fun _ _ hmethod =>
    ⟨hmethod.descriptor, .of_forall₂ (hmethod.attributes.imp fun _ _ => Attribute.Same.alikeInMethod)⟩

theorem Layout.Alike.symbols_agree {file file' : Layout} (h : file.Alike skipDebug file')
    : Agree Eq (file.symbols skipDebug) (file'.symbols skipDebug) := by
  apply h.told.bind
  intro told told' htold
  rw [← h.pool, ← h.name, ← h.supertypes, ← htold.bootstraps]
  apply (Agree.mapM h.fields fun _ _ => fieldClasses_agree).bind
  intro fields fields' hfields
  apply (Agree.mapM h.methods fun _ _ => methodClasses_agree).bind
  intro methods methods' hmethods
  have hdefined := htold.defined.append_left (definition file.name)
  have hused := ((htold.used.append_left file.supertypes).append (flatten_perm_of_forall₂ hfields)).append
    (flatten_perm_of_forall₂ hmethods)
  rw [ofList_eq_of_perm hdefined, ofList_eq_of_perm hused]
  exact .ok rfl

end ArtifactAudit.ClassFile
