import ArtifactAudit.ClassFile.Extract
import ArtifactAudit.Proofs.ClassFile.Agree
import ArtifactAudit.Proofs.ClassFile.Reader

/-!
This module contains that it does not matter where in a file a part stands: reading the same bytes at two
places fails at both of them or finds the same at both of them.
-/

namespace ArtifactAudit.ClassFile

variable {α β γ δ : Type}

def Cursor.Same (c d : Cursor) : Prop :=
  c.rest = d.rest

structure Cursor.Moved (c d after after' : Cursor) : Prop where
  same : after.Same after'
  offset_add : after.offset + d.offset = after'.offset + c.offset

theorem Cursor.Moved.trans {c d e f g h : Cursor} (hmoved : Cursor.Moved c d e f)
    (hmoved' : Cursor.Moved e f g h)
    : Cursor.Moved c d g h where
  same := hmoved'.same
  offset_add := by
    have := hmoved.offset_add
    have := hmoved'.offset_add
    omega

namespace Reader

def Parallel (R : α → β → Prop) (reader : Reader α) (other : Reader β) : Prop :=
  ∀ c d : Cursor, c.Same d →
    Agree (fun p q => R p.1 q.1 ∧ Cursor.Moved c d p.2 q.2) (reader c) (other d)

/--
Whether a reader finds the same at any two places with the same bytes.
-/
abbrev Steady (reader : Reader α) : Prop := Parallel Eq reader reader

theorem Parallel.bind {R : α → β → Prop} {S : γ → δ → Prop} {reader : Reader α} {other : Reader β}
    {next : α → Reader γ} {next' : β → Reader δ} (h : Parallel R reader other)
    (hnext : ∀ a b, R a b → Parallel S (next a) (next' b))
    : Parallel S (reader >>= next) (other >>= next') := by
  intro c d hsame
  change Agree _ (Except.bind (reader c) _) (Except.bind (other d) _)
  apply (h c d hsame).bind
  rintro ⟨a, after⟩ ⟨b, after'⟩ ⟨hab, hmoved⟩
  apply (hnext a b hab after after' hmoved.same).mono
  rintro p q ⟨hpq, hmoved'⟩
  exact ⟨hpq, hmoved.trans hmoved'⟩

@[simp]
theorem Steady.bind {reader : Reader α} {next : α → Reader β} (h : Steady reader)
    (hnext : ∀ a, Steady (next a))
    : Steady (reader >>= next) :=
  Parallel.bind h fun a _ hab => hab ▸ hnext a

theorem parallel_pure {R : α → β → Prop} {a : α} {b : β} (h : R a b)
    : Parallel R (pure a) (pure b) :=
  fun _ _ hsame => .ok ⟨h, hsame, Nat.add_comm _ _⟩

theorem parallel_liftM {R : α → β → Prop} {x : Except Fault α} {y : Except Fault β}
    (h : Agree R x y)
    : Parallel R (liftM x) (liftM y) := by
  cases h with
  | ok hab => exact parallel_pure hab
  | error => exact fun _ _ _ => .error

theorem parallel_throw {R : α → β → Prop} (fault fault' : Fault)
    : Parallel R (throw fault) (throw fault') :=
  fun _ _ _ => .error

@[simp]
theorem steady_pure (a : α) : Steady (pure a) :=
  parallel_pure rfl

@[simp]
theorem Steady.map {reader : Reader α} (h : Steady reader) (f : α → β) : Steady (f <$> reader) := by
  rw [map_eq_pure_bind]
  exact h.bind fun a => steady_pure (f a)

@[simp]
theorem steady_liftM (x : Except Fault α) : Steady (liftM x) :=
  parallel_liftM (.refl (fun _ => rfl) x)

@[simp]
theorem steady_throw (fault : Fault) : Steady (throw fault : Reader α) :=
  parallel_throw fault fault

@[simp]
theorem steady_bytes (count : Nat) : Steady (bytes count) := by
  intro c d hsame
  have hsame : c.rest = d.rest := hsame
  unfold bytes
  rw [hsame]
  dsimp only
  split
  . refine .ok ⟨rfl, rfl, ?_⟩
    dsimp only
    omega
  . exact .error

@[simp]
theorem steady_byte : Steady byte := by
  intro c d hsame
  have hsame : c.rest = d.rest := hsame
  unfold byte
  rw [hsame]
  split
  . refine .ok ⟨rfl, rfl, ?_⟩
    dsimp only
    omega
  . exact .error

@[simp]
theorem steady_skip (count : Nat) : Steady (skip count) :=
  (steady_bytes count).bind fun _ => steady_pure ()

@[simp]
theorem steady_u16 : Steady u16 :=
  (steady_bytes 2).bind fun _ => steady_pure _

theorem steady_u32 : Steady u32 :=
  (steady_bytes 4).bind fun _ => steady_pure _

theorem steady_i32 : Steady i32 :=
  steady_u32.bind fun _ => steady_pure _

theorem parallel_part (length : Nat) : Parallel Cursor.Same (part length) (part length) := by
  intro c d hsame
  rw [run_part, run_part]
  apply Parallel.bind (steady_bytes length) _ c d hsame
  rintro taken _ rfl
  exact parallel_pure (R := Cursor.Same) rfl

theorem Parallel.times {R : α → β → Prop} {reader : Reader α} {other : Reader β}
    (h : Parallel R reader other) (count : Nat)
    : Parallel (List.Forall₂ R) (times count reader) (times count other) := by
  induction count with
  | zero => exact parallel_pure .nil
  | succ count ih =>
    rw [times_succ, times_succ]
    apply h.bind
    intro a b hab
    apply ih.bind
    intro as bs hasbs
    exact parallel_pure (.cons hab hasbs)

theorem Steady.times {reader : Reader α} (h : Steady reader) (count : Nat)
    : Steady (times count reader) := by
  have htimes := Parallel.times h count
  rwa [List.forall₂_eq_eq_eq] at htimes

theorem Steady.table {reader : Reader α} (h : Steady reader) : Steady (table reader) :=
  steady_u16.bind h.times

theorem Parallel.within {R : α → β → Prop} {reader : Reader α} {other : Reader β}
    (h : Parallel R reader other) {c d : Cursor} (hsame : c.Same d)
    : Agree R (within c reader) (within d other) := by
  have hrun := (h c d hsame).map (f := Prod.fst) (g := Prod.fst) (S := R) fun _ _ hrelated => hrelated.1
  exact hrun

end Reader

open Reader

namespace Annotations

theorem steady_depthBound : Steady depthBound := by
  intro c d hsame
  have hsame : c.rest = d.rest := hsame
  exact .ok ⟨congrArg List.length hsame, hsame, Nat.add_comm _ _⟩

theorem steady_descriptorAt (pool : ConstantPool) : Steady (descriptorAt pool) :=
  steady_u16.bind fun _ => (steady_liftM _).bind fun _ => steady_liftM _

theorem steady_annotationWith (pool : ConstantPool) {element : Reader (List String)}
    (h : Steady element)
    : Steady (annotationWith pool element) := by
  apply (steady_descriptorAt pool).bind
  intro type
  exact (Steady.table ((steady_skip 2).bind fun _ => h)).bind fun _ => steady_pure _

theorem steady_elementValueWithin (pool : ConstantPool) (size : Nat)
    : Steady (elementValueWithin pool size) := by
  induction size with
  | zero => exact (steady_byte.bind fun _ => steady_pure _).bind fun _ => steady_pure _
  | succ size ih =>
    refine steady_byte.bind fun tag => ?_
    dsimp only
    split
    . exact (steady_skip 2).bind fun _ => steady_pure _
    . split
      . refine steady_u16.bind fun type => (steady_skip 2).bind fun _ => ?_
        exact (steady_liftM _).bind fun _ => steady_liftM _
      . split
        . exact steady_annotationWith pool ih
        . split
          . exact ih.table.bind fun _ => steady_pure _
          . exact steady_throw _

theorem steady_elementValue (pool : ConstantPool) : Steady (elementValue pool) :=
  steady_depthBound.bind (steady_elementValueWithin pool)

theorem steady_annotationWithin (pool : ConstantPool) (size : Nat)
    : Steady (annotationWithin pool size) :=
  steady_annotationWith pool (steady_elementValueWithin pool size)

theorem steady_annotationsWithin (pool : ConstantPool) (size : Nat)
    : Steady (annotationsWithin pool size) :=
  (steady_annotationWithin pool size).table.bind fun _ => steady_pure _

theorem steady_annotations (pool : ConstantPool) : Steady (annotations pool) :=
  steady_depthBound.bind (steady_annotationsWithin pool)

theorem steady_parameterAnnotations (pool : ConstantPool) : Steady (parameterAnnotations pool) := by
  refine steady_depthBound.bind fun size => steady_byte.bind fun count => ?_
  exact ((steady_annotationsWithin pool size).times count.toNat).bind fun _ => steady_pure _

theorem Target.steady_skip (target : Target) : Steady target.skip := by
  cases target with
  | declaration length => exact Reader.steady_skip length
  | localVariables => exact steady_u16.bind fun _ => Reader.steady_skip _
  | instruction length => exact Reader.steady_skip length

theorem steady_typeAnnotationWithin (pool : ConstantPool) (size : Nat)
    : Steady (typeAnnotationWithin pool size) := by
  refine steady_byte.bind fun kind => ?_
  split
  . exact steady_throw _
  . next target _ =>
    refine target.steady_skip.bind fun _ => steady_byte.bind fun count => ?_
    refine (steady_skip _).bind fun _ => (steady_annotationWithin pool size).bind fun found => ?_
    split <;> exact steady_pure _

theorem steady_typeAnnotations (pool : ConstantPool) : Steady (typeAnnotations pool) := by
  refine steady_depthBound.bind fun size => ?_
  exact (steady_typeAnnotationWithin pool size).table.bind fun _ => steady_pure _

end Annotations

theorem steady_bootstrapHandles : Steady bootstrapHandles := by
  refine Steady.table (steady_u16.bind fun handle => steady_u16.bind fun count => ?_)
  exact (steady_skip _).bind fun _ => steady_pure handle

theorem steady_innerClasses (pool : ConstantPool) (name : String)
    : Steady (innerClasses pool name) := by
  refine Steady.bind (Steady.table ?_) fun _ => steady_pure _
  refine steady_u16.bind fun inner => steady_u16.bind fun outer => (steady_skip 4).bind fun _ => ?_
  refine (steady_liftM _).bind fun declared => ?_
  split
  . exact (steady_liftM _).bind fun _ => steady_pure _
  . exact steady_pure []

namespace Code

theorem Operands.steady_read (context : Context) (position : Nat) (operands : Operands)
    : Steady (operands.read context position) := by
  cases operands with
  | plain length => exact (steady_skip length).bind fun _ => steady_pure []
  | type length =>
    refine steady_u16.bind fun index => (steady_liftM _).bind fun owner => ?_
    exact (steady_liftM _).bind fun found => (steady_skip length).bind fun _ => steady_pure found
  | member length =>
    refine steady_u16.bind fun index => (steady_liftM _).bind fun (owner, descriptor) => ?_
    refine (steady_liftM _).bind fun owners => (steady_liftM _).bind fun found => ?_
    exact (steady_skip length).bind fun _ => steady_pure _
  | callSite =>
    refine steady_u16.bind fun index => (steady_liftM _).bind fun (bootstrap, descriptor) => ?_
    refine (steady_skip 2).bind fun _ => (steady_liftM _).bind fun found => ?_
    dsimp only
    split
    . exact steady_throw _
    . refine (steady_liftM _).bind fun (owner, descriptor) => ?_
      exact (steady_liftM _).bind fun owners => (steady_liftM _).bind fun _ => steady_pure _
  | wide => exact steady_byte.bind fun _ => (steady_skip _).bind fun _ => steady_pure []
  | tableSwitch =>
    refine (steady_skip _).bind fun _ => (steady_skip 4).bind fun _ => ?_
    refine steady_i32.bind fun low => steady_i32.bind fun high => ?_
    extract_lets targets rest
    have hrest : ∀ u, Steady (rest u) := fun _ => (steady_skip _).bind fun _ => steady_pure []
    split
    . exact (steady_throw _).bind hrest
    . exact hrest ()
  | lookupSwitch =>
    refine (steady_skip _).bind fun _ => (steady_skip 4).bind fun _ => steady_i32.bind fun pairs => ?_
    extract_lets rest
    have hrest : ∀ u, Steady (rest u) := fun _ => (steady_skip _).bind fun _ => steady_pure []
    split
    . exact (steady_throw _).bind hrest
    . exact hrest ()

theorem steady_instruction (context : Context) (position : Nat)
    : Steady (instruction context position) := by
  refine steady_byte.bind fun opcode => ?_
  split
  . next operands _ => exact operands.steady_read context position
  . exact steady_throw _

theorem instructions_agree (context : Context) {code code' : Cursor} (hsame : code.Same code')
    : Agree Eq (instructions context code) (instructions context code') := by
  -- Positions count from the start of the code, so moving the code moves none of them.
  suffices hgo : ∀ count found c d, Cursor.Moved code code' c d →
      Agree Eq (instructions.go context code count found c)
        (instructions.go context code' count found d) by
    have hlength : code.rest.length = code'.rest.length := congrArg List.length hsame
    unfold instructions
    rw [hlength]
    exact hgo _ _ _ _ ⟨hsame, Nat.add_comm _ _⟩
  intro count
  induction count with
  | zero => exact fun found c d _ => .ok rfl
  | succ count ih =>
    intro found c d hmoved
    have hrest : c.rest = d.rest := hmoved.same
    have hposition : c.offset - code.offset = d.offset - code'.offset := by
      have := hmoved.offset_add
      omega
    rw [instructions.go, instructions.go, hrest, hposition]
    split
    . exact .ok rfl
    . have hstep := steady_instruction context (d.offset - code'.offset) c d hmoved.same
      generalize instruction context (d.offset - code'.offset) c = x at hstep
      generalize instruction context (d.offset - code'.offset) d = y at hstep
      cases hstep with
      | ok hrelated =>
        dsimp only
        rw [hrelated.1]
        exact ih _ _ _ (hmoved.trans hrelated.2)
      | error => exact .error

theorem steady_handler (pool : ConstantPool) : Steady (handler pool) := by
  refine (steady_skip 6).bind fun _ => steady_u16.bind fun type => ?_
  split
  . exact steady_pure []
  . exact (steady_liftM _).bind fun _ => steady_liftM _

theorem steady_localVariable (pool : ConstantPool) : Steady (localVariable pool) := by
  refine (steady_skip 6).bind fun _ => steady_u16.bind fun descriptor => (steady_skip 2).bind fun _ => ?_
  exact (steady_liftM _).bind fun _ => steady_liftM _

theorem nestedAttribute_agree (context : Context) (name : String) {c d : Cursor} (hsame : c.Same d)
    : Agree Eq (nestedAttribute context name c) (nestedAttribute context name d) := by
  unfold nestedAttribute
  split
  . exact ((steady_localVariable context.pool).table.bind fun _ => steady_pure _).within hsame
  . split
    . exact (Annotations.steady_typeAnnotations context.pool).within hsame
    . exact .ok rfl

theorem steady_body (context : Context) : Steady (body context) := by
  refine (steady_skip 4).bind fun _ => steady_u32.bind fun length => ?_
  apply (parallel_part length).bind
  intro code code' hcode
  apply (parallel_liftM (instructions_agree context hcode)).bind
  rintro used _ rfl
  apply (steady_handler context.pool).table.bind
  intro caught
  refine Steady.bind (Steady.table ?_) fun _ => steady_pure _
  refine steady_u16.bind fun index => (steady_liftM _).bind fun name => steady_u32.bind fun length => ?_
  apply (parallel_part length).bind
  intro c d hsame
  exact parallel_liftM (nestedAttribute_agree context name hsame)

end Code

structure Attribute.Same (a b : Attribute) : Prop where
  name : a.name = b.name
  body : a.body.Same b.body

structure Member.Same (m m' : Member) : Prop where
  descriptor : m.descriptor = m'.descriptor
  attributes : List.Forall₂ Attribute.Same m.attributes m'.attributes

structure Layout.Same (file file' : Layout) : Prop where
  pool : file.pool = file'.pool
  name : file.name = file'.name
  supertypes : file.supertypes = file'.supertypes
  fields : List.Forall₂ Member.Same file.fields file'.fields
  methods : List.Forall₂ Member.Same file.methods file'.methods
  attributes : List.Forall₂ Attribute.Same file.attributes file'.attributes

theorem annotationAttribute_agree (pool : ConstantPool) {a b : Attribute} (h : a.Same b)
    : Agree Eq (annotationAttribute pool a) (annotationAttribute pool b) := by
  unfold annotationAttribute
  rw [h.name]
  split
  . exact (Annotations.steady_annotations pool).within h.body
  . exact (Annotations.steady_annotations pool).within h.body
  . exact (Annotations.steady_typeAnnotations pool).within h.body
  . exact (Annotations.steady_typeAnnotations pool).within h.body
  . exact .ok rfl

theorem methodAttribute_agree (context : Code.Context) {a b : Attribute} (h : a.Same b)
    : Agree Eq (methodAttribute context a) (methodAttribute context b) := by
  unfold methodAttribute
  rw [h.name]
  split
  . exact (Code.steady_body context).within h.body
  . exact (Annotations.steady_elementValue context.pool).within h.body
  . exact (Annotations.steady_parameterAnnotations context.pool).within h.body
  . exact (Annotations.steady_parameterAnnotations context.pool).within h.body
  . exact annotationAttribute_agree context.pool h

end ArtifactAudit.ClassFile
