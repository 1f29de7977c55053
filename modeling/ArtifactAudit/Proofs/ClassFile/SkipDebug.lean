import ArtifactAudit.Proofs.ClassFile.AttributeOrder
import ArtifactAudit.Proofs.ClassFile.Variables

/-!
This module contains what is lost where the tables of local variables are skipped. Its main statement is
that a class file with symbols has symbols without these tables too, and that of its classes only those
are lost that nothing but the types of local variables name.
-/

namespace ArtifactAudit.ClassFile

open Reader

variable {α ι : Type} {pool : ConstantPool}

/--
Whether there is a second result whenever there is a first one, and all names but some are found again.
-/
def LeavesOut (left : String → Prop) (whole rest : Except Fault (List String)) : Prop :=
  ∀ names, whole = .ok names →
    ∃ kept, rest = .ok kept ∧ ∀ name, name ∈ names ↔ name ∈ kept ∨ left name

namespace LeavesOut

variable {left : String → Prop} {x y : Except Fault (List String)}

theorem refl (h : ∀ name, ¬ left name) (x : Except Fault (List String)) : LeavesOut left x x :=
  fun names hnames => ⟨names, hnames, fun name => by simp [h name]⟩

theorem congr {x' y' : Except Fault (List String)} (hx : Agree Eq x x') (hy : Agree Eq y y')
    (h : LeavesOut left x' y')
    : LeavesOut left x y := by
  intro names hnames
  rcases h names (hx.eq_ok_iff.1 hnames) with ⟨kept, hkept, hiff⟩
  exact ⟨kept, hy.eq_ok_iff.2 hkept, hiff⟩

theorem bind_same {x : Except Fault α} {f g : α → Except Fault (List String)}
    (h : ∀ a, LeavesOut left (f a) (g a))
    : LeavesOut left (x >>= f) (x >>= g) := by
  cases x with
  | ok a => exact h a
  | error => exact fun _ => nofun

theorem of_exists {p : ι → Prop} {left : ι → String → Prop} (h : ∀ i, p i → LeavesOut (left i) x y)
    (hexists : ∀ names, x = .ok names → ∃ i, p i)
    : LeavesOut (fun name => ∃ i, p i ∧ left i name) x y := by
  intro names hnames
  rcases hexists names hnames with ⟨i, hi⟩
  rcases h i hi names hnames with ⟨kept, hkept, hiff⟩
  refine ⟨kept, hkept, fun name => ⟨fun hname => ?_, ?_⟩⟩
  . exact ((hiff name).1 hname).imp_right fun hleft => ⟨i, hi, hleft⟩
  . rintro (hname | ⟨j, hj, hleft⟩)
    . exact (hiff name).2 (.inl hname)
    . rcases h j hj names hnames with ⟨_, _, hiff'⟩
      exact (hiff' name).2 (.inr hleft)

theorem exists_mapM {left : α → String → Prop} {f g : α → Except Fault (List String)} {as : List α}
    (h : ∀ a, LeavesOut (left a) (f a) (g a)) {found : List (List String)}
    (hfound : as.mapM f = .ok found)
    : ∃ kept, as.mapM g = .ok kept
        ∧ ∀ name, name ∈ found.flatten ↔ name ∈ kept.flatten ∨ ∃ a ∈ as, left a name := by
  induction as generalizing found with
  | nil =>
    cases hfound
    exact ⟨[], rfl, by simp⟩
  | cons a as ih =>
    rw [List.mapM_cons] at hfound
    rcases exists_of_bind_eq_ok hfound with ⟨names, hnames, hrest⟩
    rcases exists_of_bind_eq_ok hrest with ⟨more, hmore, hpure⟩
    cases hpure
    rcases h a names hnames with ⟨kept, hkept, hiff⟩
    rcases ih hmore with ⟨keptMore, hkeptMore, hiffMore⟩
    refine ⟨kept :: keptMore, ?_, ?_⟩
    . rw [List.mapM_cons, hkept, hkeptMore]
      rfl
    . intro name
      simp only [List.flatten_cons, List.mem_append, List.exists_mem_cons_iff, hiff, hiffMore]
      exact or_or_or_comm

theorem mapM_flatten {left : α → String → Prop} {f g : α → Except Fault (List String)} {as : List α}
    (h : ∀ a, LeavesOut (left a) (f a) (g a)) (front : List String)
    : LeavesOut (fun name => ∃ a ∈ as, left a name)
        (as.mapM f >>= fun found => pure (front ++ found.flatten))
        (as.mapM g >>= fun found => pure (front ++ found.flatten)) := by
  intro names hnames
  rcases exists_of_bind_eq_ok hnames with ⟨found, hfound, hpure⟩
  cases hpure
  rcases exists_mapM h hfound with ⟨kept, hkept, hiff⟩
  refine ⟨front ++ kept.flatten, by rw [hkept]; rfl, fun name => ?_⟩
  rw [List.mem_append, List.mem_append, hiff, or_assoc]

end LeavesOut

namespace Code

theorem instruction_skipDebug (bootstraps : List Nat) (skipDebug skipDebug' : Bool) (position : Nat)
    : instruction ⟨pool, bootstraps, skipDebug⟩ position
        =
      instruction ⟨pool, bootstraps, skipDebug'⟩ position := by
  have hread : ∀ operands : Operands, operands.read ⟨pool, bootstraps, skipDebug⟩ position
      = operands.read ⟨pool, bootstraps, skipDebug'⟩ position := by
    intro operands
    cases operands <;> rfl
  unfold instruction
  simp only [hread]

theorem instructions_skipDebug (bootstraps : List Nat) (skipDebug skipDebug' : Bool) (code : Cursor)
    : instructions ⟨pool, bootstraps, skipDebug⟩ code
        =
      instructions ⟨pool, bootstraps, skipDebug'⟩ code := by
  unfold instructions
  generalize code.rest.length = count
  generalize ([] : List String) = found
  suffices hgo : ∀ c, instructions.go ⟨pool, bootstraps, skipDebug⟩ code count found c
      = instructions.go ⟨pool, bootstraps, skipDebug'⟩ code count found c from hgo code
  induction count generalizing found with
  | zero => exact fun _ => rfl
  | succ count ih =>
    intro c
    simp only [instructions.go, instruction_skipDebug bootstraps skipDebug skipDebug', ih]

end Code

namespace LeavesOut

variable {bootstraps : List Nat}

theorem variableTable (body : List UInt8)
    : LeavesOut
        (fun name => ∃ t : WrittenTable WrittenVariable, t.bytes WrittenVariable.bytes <+: body
          ∧ ∃ v ∈ t.entries, v.Names pool name)
        (within (.start body) do return (← table (Code.localVariable pool)).flatten) (.ok []) := by
  apply of_exists
  . intro t ht names hnames
    refine ⟨[], rfl, fun name => ?_⟩
    rw [← WrittenVariable.exists_names_iff_mem ht hnames, or_iff_right List.not_mem_nil]
  . intro names hnames
    rcases exists_of_within hnames with ⟨after, hrun⟩
    rcases exists_of_bind hrun with ⟨found, between, htable, _⟩
    rcases spells_variables pool _ _ _ htable with ⟨t, ht⟩
    exact ⟨t, between.rest, ht.symm⟩

theorem attributeClasses (a : WrittenAttribute)
    : LeavesOut (a.NamesVariable pool) (WrittenCode.attributeClasses ⟨pool, bootstraps, false⟩ a)
        (WrittenCode.attributeClasses ⟨pool, bootstraps, true⟩ a) := by
  unfold WrittenAttribute.NamesVariable WrittenCode.attributeClasses
  rcases hread : pool.utf8 a.name.toNat with fault | text
  . exact fun _ => nofun
  . have htext := ConstantPool.utf8_eq_ok_iff.1 hread
    by_cases hname : text = "LocalVariableTable"
    . subst hname
      simp only [htext, true_and]
      exact variableTable a.body
    . have hsame : Code.nestedAttribute ⟨pool, bootstraps, false⟩ text (.start a.body)
          = Code.nestedAttribute ⟨pool, bootstraps, true⟩ text (.start a.body) := by
        simp [Code.nestedAttribute, hname]
      change LeavesOut _ (Code.nestedAttribute _ text _) (Code.nestedAttribute _ text _)
      rw [hsame]
      exact refl (fun name hleft => hname (htext.unique hleft.1)) _

theorem codeClasses (c : WrittenCode)
    : LeavesOut (c.NamesVariable pool) (c.classes ⟨pool, bootstraps, false⟩)
        (c.classes ⟨pool, bootstraps, true⟩) := by
  unfold WrittenCode.classes
  rw [Code.instructions_skipDebug bootstraps false true]
  refine bind_same fun used => bind_same fun caught => ?_
  exact mapM_flatten attributeClasses (used ++ caught.flatten)

theorem methodAttribute (part : Attribute)
    : LeavesOut (part.NamesVariable pool) (methodAttribute ⟨pool, bootstraps, false⟩ part)
        (methodAttribute ⟨pool, bootstraps, true⟩ part) := by
  unfold Attribute.NamesVariable
  by_cases hname : part.name = "Code"
  . simp only [hname, true_and]
    apply of_exists
    . intro c hc
      have hagree : ∀ context,
          Agree Eq (ClassFile.methodAttribute context part) (c.classes context) := by
        intro context
        have hsame : part.Same ⟨"Code", .start c.bytes⟩ := ⟨hname, hc.symm⟩
        apply (methodAttribute_agree context hsame).trans (c.methodAttribute_agree context)
        exact fun _ _ _ => Eq.trans
      exact (codeClasses c).congr (hagree _) (hagree _)
    . intro names hnames
      simp only [ClassFile.methodAttribute, hname] at hnames
      rcases exists_of_within hnames with ⟨after, hrun⟩
      exact exists_bytes_eq_of_body hrun
  . have hsame : ClassFile.methodAttribute ⟨pool, bootstraps, false⟩ part
        = ClassFile.methodAttribute ⟨pool, bootstraps, true⟩ part := by
      unfold ClassFile.methodAttribute
      split
      . next heq => exact absurd heq hname
      all_goals rfl
    rw [hsame]
    exact refl (fun name hleft => hname hleft.1) _

theorem methodClasses (method : Member)
    : LeavesOut (fun name => ∃ part ∈ method.attributes, part.NamesVariable pool name)
        (methodClasses ⟨pool, bootstraps, false⟩ method)
        (methodClasses ⟨pool, bootstraps, true⟩ method) :=
  bind_same fun type => mapM_flatten methodAttribute type

end LeavesOut

theorem Layout.exists_symbols_skipDebug {file : Layout} {symbols : Symbols}
    (h : file.symbols false = .ok symbols)
    : ∃ skipped, file.symbols true = .ok skipped ∧ skipped.defined = symbols.defined
        ∧ ∀ name, name ∈ symbols.used ↔ name ∈ skipped.used
          ∨ ∃ method ∈ file.methods, ∃ part ∈ method.attributes, part.NamesVariable file.pool name := by
  rcases symbols_eq_ok_iff.1 h with ⟨told, fields, methods, htold, hfields, hmethods, rfl⟩
  rcases LeavesOut.exists_mapM LeavesOut.methodClasses hmethods with ⟨kept, hkept, hiff⟩
  refine ⟨_, symbols_eq_ok_iff.2 ⟨told, fields, kept, htold, hfields, hkept, rfl⟩, rfl, ?_⟩
  intro name
  generalize file.supertypes ++ told.used ++ fields.flatten = others
  rw [NameSet.mem_ofList, NameSet.mem_ofList, List.mem_append, hiff, List.mem_append, or_assoc]

theorem WrittenAttribute.namesVariable_iff {a : WrittenAttribute} {part : Attribute}
    (h : a.meaning pool = .ok part) (name : String)
    : (pool.HasText a.name.toNat "Code"
          ∧ ∃ c : WrittenCode, c.bytes = a.body ∧ c.NamesVariable pool name)
        ↔ part.NamesVariable pool name := by
  rw [Attribute.NamesVariable, name_eq_iff_hasText h]
  rcases exists_of_bind_eq_ok h with ⟨_, _, hpart⟩
  cases hpart
  rfl

theorem WrittenClass.namesVariable_iff {f : WrittenClass} {file : Layout} (h : f.layout = .ok file)
    (name : String)
    : f.NamesVariable name
        ↔ ∃ method ∈ file.methods, ∃ part ∈ method.attributes, part.NamesVariable file.pool name := by
  rcases WrittenClass.exists_of_layout h with ⟨_, _, _, _, _, hmethods, hpool, _⟩
  rw [hpool]
  apply exists_mem_iff_of_mapM_eq_ok hmethods
  intro m method hmethod
  have hparts := (WrittenMember.hasText_of_meaning hmethod).2
  exact exists_mem_iff_of_mapM_eq_ok hparts fun a part ha => WrittenAttribute.namesVariable_iff ha name

/--
A class file with symbols has symbols without its tables of local variables too. It defines the same
classes, and of those that it uses only such are lost that the type of a local variable of some method
names, unless something else names them as well.
-/
theorem extract_skipDebug {bytes : List UInt8} {symbols : Symbols}
    (h : extract false bytes = .ok symbols)
    : ∃ f : WrittenClass, f.bytes = bytes
        ∧ ∃ skipped, extract true bytes = .ok skipped ∧ skipped.defined = symbols.defined
          ∧ ∀ name, name ∈ symbols.used ↔ name ∈ skipped.used ∨ f.NamesVariable name := by
  rcases exists_bytes_eq_of_extract h with ⟨f, rfl⟩
  rcases extract_bytes_eq_ok_iff.1 h with ⟨file, hfile, hsymbols⟩
  rcases Layout.exists_symbols_skipDebug hsymbols with ⟨skipped, hskipped, hdefined, hiff⟩
  refine ⟨f, rfl, skipped, extract_bytes_eq_ok_iff.2 ⟨file, hfile, hskipped⟩, hdefined, ?_⟩
  intro name
  rw [hiff, WrittenClass.namesVariable_iff hfile]

theorem extract_skipDebug_argument :
    let bytes : List UInt8 := [202, 254, 186, 190, 0, 0, 0, 61, 0, 9, 1, 0, 3, 98, 47, 66, 7, 0, 1, 1,
      0, 1, 109, 1, 0, 8, 40, 76, 97, 47, 65, 59, 41, 86, 1, 0, 4, 67, 111, 100, 101, 1, 0, 18, 76, 111,
      99, 97, 108, 86, 97, 114, 105, 97, 98, 108, 101, 84, 97, 98, 108, 101, 1, 0, 5, 76, 97, 47, 65,
      59, 1, 0, 6, 91, 76, 99, 47, 67, 59, 0, 33, 0, 2, 0, 0, 0, 0, 0, 0, 0, 1, 0, 1, 0, 3, 0, 4, 0, 1,
      0, 5, 0, 0, 0, 41, 0, 1, 0, 2, 0, 0, 0, 1, 177, 0, 0, 0, 1, 0, 6, 0, 0, 0, 22, 0, 2, 0, 0, 0, 1,
      0, 3, 0, 7, 0, 0, 0, 0, 0, 1, 0, 3, 0, 8, 0, 1, 0, 0]
    extract false bytes = .ok ⟨.ofList ["b/B"], .ofList ["a/A", "c/C"]⟩
      ∧ extract true bytes = .ok ⟨.ofList ["b/B"], .ofList ["a/A"]⟩
      ∧ ∃ f : WrittenClass, f.bytes = bytes
        ∧ ∃ skipped, extract true bytes = .ok skipped ∧ skipped.defined = .ofList ["b/B"]
          ∧ ∀ name, name ∈ NameSet.ofList ["a/A", "c/C"]
            ↔ name ∈ skipped.used ∨ f.NamesVariable name := by
  intro bytes
  have h : extract false bytes = .ok ⟨.ofList ["b/B"], .ofList ["a/A", "c/C"]⟩ := by decide +kernel
  have hskipped : extract true bytes = .ok ⟨.ofList ["b/B"], .ofList ["a/A"]⟩ := by decide +kernel
  exact ⟨h, hskipped, extract_skipDebug h⟩

end ArtifactAudit.ClassFile
