import ArtifactAudit.ClassFile.Code
import ArtifactAudit.Proofs.ClassFile.Descriptor
import ArtifactAudit.Proofs.ClassFile.Pool
import ArtifactAudit.Proofs.ClassFile.Written

/-!
This module contains the instructions of the virtual machine, how a sequence of them is laid out in
bytes, and which classes they name. Its main statement is that reading a sequence as it is laid out
finds the classes that its instructions name, and no others.
-/

namespace ArtifactAudit.ClassFile.Code

open Descriptor Reader

/--
The operands of the instructions in the order of their opcodes.
-/
def instructionSet : List Operands :=
  List.flatten [
    -- Constants: `nop` to `dconst_1`, then `bipush`, `sipush`, `ldc`, `ldc_w`, `ldc2_w`.
    .replicate 16 (.plain 0), [.plain 1, .plain 2, .plain 1, .plain 2, .plain 2],
    -- Loads: `iload` to `aload`, their short forms, and `iaload` to `saload`.
    .replicate 5 (.plain 1), .replicate 20 (.plain 0), .replicate 8 (.plain 0),
    -- Stores: `istore` to `astore`, their short forms, and `iastore` to `sastore`.
    .replicate 5 (.plain 1), .replicate 20 (.plain 0), .replicate 8 (.plain 0),
    -- Stack: `pop` to `swap`.
    .replicate 9 (.plain 0),
    -- Math: `iadd` to `lxor`, then `iinc`.
    .replicate 36 (.plain 0), [.plain 2],
    -- Conversions: `i2l` to `i2s`.
    .replicate 15 (.plain 0),
    -- Comparisons: `lcmp` to `dcmpg`, then `ifeq` to `if_acmpne`.
    .replicate 5 (.plain 0), .replicate 14 (.plain 2),
    -- Control: `goto`, `jsr`, `ret`, `tableswitch`, `lookupswitch`, then `ireturn` to `return`.
    [.plain 2, .plain 2, .plain 1, .tableSwitch, .lookupSwitch], .replicate 6 (.plain 0),
    -- References: `getstatic` to `putfield`, then `invokevirtual` to `invokestatic`.
    .replicate 4 (.member 0), .replicate 3 (.member 0),
    -- `invokeinterface`, `invokedynamic`, `new`, `newarray`, `anewarray`.
    [.member 2, .callSite, .type 0, .plain 1, .type 0],
    -- `arraylength`, `athrow`, `checkcast`, `instanceof`, `monitorenter`, `monitorexit`.
    [.plain 0, .plain 0, .type 0, .type 0, .plain 0, .plain 0],
    -- Extended: `wide`, `multianewarray`, `ifnull`, `ifnonnull`, `goto_w`, `jsr_w`.
    [.wide, .type 1, .plain 2, .plain 2, .plain 4, .plain 4]]

def widenable : List UInt8 :=
  [0x15, 0x16, 0x17, 0x18, 0x19, 0x36, 0x37, 0x38, 0x39, 0x3A, 0xA9]

def increment : UInt8 := 0x84

/--
An instruction with its operands. The bytes that align the targets of a switch are arbitrary.
-/
inductive Instruction where
  | plain (opcode : UInt8) (operands : List UInt8)
    (listed : instructionSet[opcode.toNat]? = some (.plain operands.length))
  | type (opcode : UInt8) (index : UInt16) (operands : List UInt8)
    (listed : instructionSet[opcode.toNat]? = some (.type operands.length))
  | member (opcode : UInt8) (index : UInt16) (operands : List UInt8)
    (listed : instructionSet[opcode.toNat]? = some (.member operands.length))
  | callSite (opcode : UInt8) (index : UInt16)
    (listed : instructionSet[opcode.toNat]? = some .callSite)
  | wide (opcode widened : UInt8) (slot : UInt16)
    (listed : instructionSet[opcode.toNat]? = some .wide) (mem_widenable : widened ∈ widenable)
  | wideIncrement (opcode : UInt8) (slot amount : UInt16)
    (listed : instructionSet[opcode.toNat]? = some .wide)
  | tableSwitch (opcode : UInt8) (alignment : Fin 3 → UInt8) (fallback : UInt32) (low high : Int32)
    (targets : List UInt32) (listed : instructionSet[opcode.toNat]? = some .tableSwitch)
    (low_le_high : low.toInt ≤ high.toInt)
    (length_targets : targets.length = (high.toInt - low.toInt).toNat + 1)
  | lookupSwitch (opcode : UInt8) (alignment : Fin 3 → UInt8) (fallback : UInt32)
    (pairs : List (UInt32 × UInt32)) (listed : instructionSet[opcode.toNat]? = some .lookupSwitch)
    (length_pairs_lt : pairs.length < 2 ^ 31)

/--
How many bytes stand between the opcode of a switch at a position and the next multiple of four.
-/
def gap (position : Nat) : Nat := (4 - (position + 1) % 4) % 4

namespace Instruction

def opcode : Instruction → UInt8
  | .plain opcode .. | .type opcode .. | .member opcode .. | .callSite opcode ..
  | .wide opcode .. | .wideIncrement opcode .. | .tableSwitch opcode ..
  | .lookupSwitch opcode .. => opcode

def operandBytes (position : Nat) : Instruction → List UInt8
  | .plain _ operands _ => operands
  | .type _ index operands _ => numberBytes 2 index.toNat ++ operands
  | .member _ index operands _ => numberBytes 2 index.toNat ++ operands
  | .callSite _ index _ => numberBytes 2 index.toNat ++ [0, 0]
  | .wide _ widened slot _ _ => widened :: numberBytes 2 slot.toNat
  | .wideIncrement _ slot amount _ =>
    increment :: (numberBytes 2 slot.toNat ++ numberBytes 2 amount.toNat)
  | .tableSwitch _ alignment fallback low high targets _ _ _ =>
    (List.ofFn alignment).take (gap position) ++ (numberBytes 4 fallback.toNat ++
      (numberBytes 4 low.toUInt32.toNat ++ (numberBytes 4 high.toUInt32.toNat ++
        targets.flatMap fun target => numberBytes 4 target.toNat)))
  | .lookupSwitch _ alignment fallback pairs _ _ =>
    (List.ofFn alignment).take (gap position) ++ (numberBytes 4 fallback.toNat ++
      (numberBytes 4 pairs.length ++
        pairs.flatMap fun pair => numberBytes 4 pair.1.toNat ++ numberBytes 4 pair.2.toNat))

def bytes (position : Nat) (i : Instruction) : List UInt8 :=
  i.opcode :: i.operandBytes position

/--
Whether an instruction names some classes. It has to lead to constants that tell them.
-/
inductive Names (context : Context) : Instruction → List String → Prop where
  | plain {opcode operands listed} : Names context (.plain opcode operands listed) []
  | type {opcode index operands listed} {type : ClassType}
    (has_class : context.pool.HasClass index.toNat type.text)
    : Names context (.type opcode index operands listed) type.classes
  | member {opcode index operands listed} {owner : ClassType} {type : MemberType}
    (has_member : context.pool.HasMember index.toNat owner.text type.text)
    : Names context (.member opcode index operands listed) (owner.classes ++ type.classes)
  | callSite {opcode index listed bootstrap handle} {type handleType : MemberType} {owner : String}
    (has_callSite : context.pool.HasCallSite index.toNat bootstrap type.text)
    (declared : context.bootstraps[bootstrap]? = some handle)
    (has_handle : context.pool.HasHandle handle owner handleType.text)
    (no_array : isArrayName owner = false)
    : Names context (.callSite opcode index listed) (type.classes ++ [owner] ++ handleType.classes)
  | wide {opcode widened slot listed mem_widenable}
    : Names context (.wide opcode widened slot listed mem_widenable) []
  | wideIncrement {opcode slot amount listed}
    : Names context (.wideIncrement opcode slot amount listed) []
  | tableSwitch {opcode alignment fallback low high targets listed low_le_high length_targets}
    : Names context (.tableSwitch opcode alignment fallback low high targets listed low_le_high
        length_targets) []
  | lookupSwitch {opcode alignment fallback pairs listed length_pairs_lt}
    : Names context (.lookupSwitch opcode alignment fallback pairs listed length_pairs_lt) []

theorem exists_opcode_eq_iff {opcode : UInt8}
    : (∃ i : Instruction, i.opcode = opcode) ↔ opcode ≤ 0xC9 := by
  have hbound : opcode ≤ 0xC9 ↔ instructionSet[opcode.toNat]?.isSome := by
    have hlength : instructionSet.length = 0xCA := rfl
    rw [isSome_getElem?, hlength, UInt8.le_iff_toNat_le]
    exact Nat.lt_succ_iff.symm
  rw [hbound]
  constructor
  . rintro ⟨i, rfl⟩
    cases i <;> (apply Option.isSome_of_eq_some; assumption)
  . intro hsome
    rcases Option.isSome_iff_exists.1 hsome with ⟨operands, listed⟩
    cases operands with
    | plain n => exact ⟨.plain opcode (.replicate n 0) (by rw [listed, List.length_replicate]), rfl⟩
    | type n => exact ⟨.type opcode 0 (.replicate n 0) (by rw [listed, List.length_replicate]), rfl⟩
    | member n =>
      exact ⟨.member opcode 0 (.replicate n 0) (by rw [listed, List.length_replicate]), rfl⟩
    | callSite => exact ⟨.callSite opcode 0 listed, rfl⟩
    | wide => exact ⟨.wideIncrement opcode 0 0 listed, rfl⟩
    | tableSwitch =>
      exact ⟨.tableSwitch opcode (fun _ => 0) 0 0 0 [0] listed (Int.le_refl _) (by decide), rfl⟩
    | lookupSwitch => exact ⟨.lookupSwitch opcode (fun _ => 0) 0 [] listed (by decide), rfl⟩

end Instruction

def codeBytes (position : Nat) : List Instruction → List UInt8
  | [] => []
  | i :: is => i.bytes position ++ codeBytes (position + (i.bytes position).length) is

theorem ofOpcode?_eq (opcode : UInt8)
    : Operands.ofOpcode? opcode = instructionSet[opcode.toNat]? := by
  have hall : ∀ n < 256, Operands.ofOpcode? (UInt8.ofNat n) = instructionSet[n]? := by
    decide +kernel
  rw [← hall opcode.toNat opcode.toNat_lt, UInt8.ofNat_toNat]

theorem gap_eq_padding (position : Nat) : gap position = padding position := by
  unfold gap padding
  omega

theorem length_alignment (alignment : Fin 3 → UInt8) (position : Nat)
    : ((List.ofFn alignment).take (gap position)).length = padding position := by
  rw [List.length_take, List.length_ofFn, gap_eq_padding, padding]
  omega

theorem consumes_instruction {context : Context} {position : Nat} {opcode : UInt8}
    {operands : Operands} {taken : List UInt8} {names : List String}
    (hlisted : instructionSet[opcode.toNat]? = some operands)
    (hread : Consumes (operands.read context position) taken names)
    : Consumes (instruction context position) (opcode :: taken) names := by
  unfold instruction
  apply (consumes_byte opcode).bind
  rw [ofOpcode?_eq, hlisted]
  exact hread

namespace Instruction

theorem Names.consumes {context : Context} {i : Instruction} {names : List String}
    (h : i.Names context names) (position : Nat)
    : Consumes (instruction context position) (i.bytes position) names := by
  cases h with
  | plain =>
    next listed =>
    apply consumes_instruction listed
    exact (consumes_skip rfl).map fun _ => []
  | type hclass =>
    next index _ listed type =>
    apply consumes_instruction listed
    apply (consumes_u16 index.toNat_lt).bind
    apply Consumes.of_ok (ConstantPool.className_eq_ok hclass)
    apply Consumes.of_ok (ownerClasses_text type)
    exact (consumes_skip rfl).map fun _ => type.classes
  | member hmember =>
    next index _ listed owner type =>
    apply consumes_instruction listed
    apply (consumes_u16 index.toNat_lt).bind
    apply Consumes.of_ok (ConstantPool.member_eq_ok hmember)
    apply Consumes.of_ok (ownerClasses_text owner)
    apply Consumes.of_ok (classes_text type)
    exact (consumes_skip rfl).map fun _ => owner.classes ++ type.classes
  | callSite hsite hdeclared hhandle hplain =>
    next index listed bootstrap handle type handleType owner =>
    have hzeros : Consumes (skip 2) [0, 0] () := consumes_skip rfl
    have howner : plainClass owner = .ok [owner] := by
      rw [plainClass, hplain]
      rfl
    apply consumes_instruction listed
    apply (consumes_u16 index.toNat_lt).bind
    apply Consumes.of_ok (ConstantPool.callSite_eq_ok hsite)
    dsimp only
    apply hzeros.bind_nil
    apply Consumes.of_ok (classes_text type)
    rw [hdeclared]
    apply Consumes.of_ok (ConstantPool.handle_eq_ok hhandle)
    apply Consumes.of_ok howner
    apply Consumes.of_ok (classes_text handleType)
    apply consumes_pure
  | wide =>
    next widened slot listed hmem =>
    have hne : widened ≠ 0x84 := by
      rintro rfl
      revert hmem
      decide
    apply consumes_instruction listed
    apply (consumes_byte widened).bind
    rw [if_neg hne]
    exact (consumes_skip (length_numberBytes 2 slot.toNat)).map fun _ => []
  | wideIncrement =>
    next slot amount listed =>
    have hlength : (numberBytes 2 slot.toNat ++ numberBytes 2 amount.toNat).length = 4 := by simp
    apply consumes_instruction listed
    apply (consumes_byte increment).bind
    exact (consumes_skip hlength).map fun _ => []
  | tableSwitch =>
    next alignment fallback low high targets listed hle hlength =>
    have hcount : ¬ high.toInt - low.toInt + 1 < 0 := by omega
    have htargets : (targets.flatMap fun target => numberBytes 4 target.toNat).length
        = (high.toInt - low.toInt + 1).toNat * 4 := by
      simp [List.length_flatMap]
      omega
    apply consumes_instruction listed
    apply (consumes_skip (length_alignment alignment position)).bind
    apply (consumes_skip (length_numberBytes 4 fallback.toNat)).bind
    apply (consumes_i32 low).bind
    apply (consumes_i32 high).bind
    extract_lets count rest
    rw [if_neg hcount]
    exact (consumes_skip htargets).map fun _ => []
  | lookupSwitch =>
    next alignment fallback pairs listed hlt =>
    have hcount : ¬ (pairs.length : Int) < 0 := by omega
    have hpairs : (pairs.flatMap fun pair =>
        numberBytes 4 pair.1.toNat ++ numberBytes 4 pair.2.toNat).length
          = (pairs.length : Int).toNat * 8 := by
      simp [List.length_flatMap]
    apply consumes_instruction listed
    apply (consumes_skip (length_alignment alignment position)).bind
    apply (consumes_skip (length_numberBytes 4 fallback.toNat)).bind
    apply (consumes_i32_of_lt hlt).bind
    extract_lets rest
    rw [if_neg hcount]
    exact (consumes_skip hpairs).map fun _ => []

theorem Names.unique {context : Context} {i : Instruction} {names others : List String}
    (h : i.Names context names) (hother : i.Names context others)
    : names = others := by
  have hread := h.consumes 0 0 []
  rw [hother.consumes 0 0 []] at hread
  cases hread
  rfl

end Instruction

/--
Reading goes on behind each instruction at the position where the next one has been laid out, so that
the gaps of switches are found where they are.
-/
theorem instructions_go {context : Context} (code : Cursor) {is : List Instruction}
    (h : ∀ i ∈ is, ∃ names, i.Names context names)
    : ∀ position count found, (codeBytes position is).length ≤ count →
        ∃ used, instructions.go context code count found
            ⟨codeBytes position is, code.offset + position⟩ = .ok used
          ∧ ∀ name, name ∈ used ↔
            name ∈ found ∨ ∃ i ∈ is, ∃ names, i.Names context names ∧ name ∈ names := by
  induction is with
  | nil =>
    intro position count found _
    refine ⟨found, ?_, by simp⟩
    cases count <;> rfl
  | cons i is ih =>
    intro position count found hcount
    rcases h i List.mem_cons_self with ⟨names, hnames⟩
    have hrun := hnames.consumes position (code.offset + position)
      (codeBytes (position + (i.bytes position).length) is)
    have hpositive : 0 < (i.bytes position).length := Nat.zero_lt_succ _
    rw [codeBytes, List.length_append] at hcount
    cases count with
    | zero => omega
    | succ count =>
      rcases ih (fun other hother => h other (List.mem_cons_of_mem _ hother))
        (position + (i.bytes position).length) count (names ++ found) (by omega)
        with ⟨used, hused, hmem⟩
      refine ⟨used, ?_, ?_⟩
      . rw [← hused, instructions.go, codeBytes]
        dsimp only
        rw [Nat.add_sub_cancel_left, hrun, Nat.add_assoc]
        rfl
      . intro name
        rw [hmem, List.mem_append]
        constructor
        . rintro ((hname | hname) | ⟨other, hother, others, hothers, hname⟩)
          . exact .inr ⟨i, List.mem_cons_self, names, hnames, hname⟩
          . exact .inl hname
          . exact .inr ⟨other, List.mem_cons_of_mem _ hother, others, hothers, hname⟩
        . rintro (hname | ⟨other, hother, others, hothers, hname⟩)
          . exact .inl (.inr hname)
          . rcases List.mem_cons.1 hother with rfl | hother
            . rw [hnames.unique hothers]
              exact .inl (.inl hname)
            . exact .inr ⟨other, hother, others, hothers, hname⟩

/--
Reading the instructions of a method never loses its place. It finds the classes that the instructions
name, and no others, whatever opcodes they have and wherever the switches among them stand.
-/
theorem instructions_codeBytes (context : Context)
    : (∀ opcode, (∃ i : Instruction, i.opcode = opcode) ↔ opcode ≤ 0xC9)
        ∧ ∀ (is : List Instruction) (offset : Nat), (∀ i ∈ is, ∃ names, i.Names context names) →
          ∃ used, instructions context ⟨codeBytes 0 is, offset⟩ = .ok used
            ∧ ∀ name, name ∈ used ↔ ∃ i ∈ is, ∃ names, i.Names context names ∧ name ∈ names := by
  refine ⟨fun _ => Instruction.exists_opcode_eq_iff, ?_⟩
  intro is offset h
  rcases instructions_go ⟨codeBytes 0 is, offset⟩ h 0 _ [] (Nat.le_refl _)
    with ⟨used, hused, hmem⟩
  exact ⟨used, hused, by simpa using hmem⟩

theorem instructions_codeBytes_switches :
    let pool : ConstantPool := ⟨#[none, some (.utf8 "a/A"), some (.classRef 1), some (.utf8 "[[Lb/B;"),
      some (.classRef 3), some (.utf8 "m"), some (.utf8 "(Lc/C;I)V"), some (.nameAndType 5 6),
      some (.memberRef 2 7), some (.methodHandle 6 8), some (.invokeDynamic 0 7)]⟩
    let context : Context := ⟨pool, [9], false⟩
    let is : List Instruction := [.plain 0x00 [] rfl,
      .tableSwitch 0xAA (fun _ => 0xBB) 0 (-1) 1 [7, 8, 9] rfl (by decide) (by decide),
      .type 0xC5 4 [2] rfl, .callSite 0xBA 10 rfl,
      .lookupSwitch 0xAB (fun _ => 0xBB) 0 [] rfl (by decide), .wideIncrement 0xC4 1 300 rfl]
    (∀ i ∈ is, ∃ names, i.Names context names)
      ∧ ∃ used, instructions context ⟨codeBytes 0 is, 14⟩ = .ok used
        ∧ ∀ name, name ∈ used ↔ ∃ i ∈ is, ∃ names, i.Names context names ∧ name ∈ names := by
  intro pool context is
  let element : FieldType := .array (.object "b/B" (by decide) (by decide))
  let type : MemberType := .method [.object "c/C" (by decide) (by decide), .primitive .int] none
  have hclass : pool.HasClass 4 (ClassType.array element).text := ⟨3, by decide, by decide⟩
  have htype : pool.HasType 7 type.text := ⟨5, 6, by decide, ⟨"m", by decide⟩, by decide⟩
  have hsite : pool.HasCallSite 10 0 type.text := ⟨7, by decide, htype⟩
  have hhandle : pool.HasHandle 9 "a/A" type.text :=
    ⟨6, 8, by decide, 2, 7, by decide, ⟨1, by decide, by decide⟩, htype⟩
  have h : ∀ i ∈ is, ∃ names, i.Names context names := by
    simp only [is, List.forall_mem_cons]
    exact ⟨⟨_, .plain⟩, ⟨_, .tableSwitch⟩, ⟨_, .type hclass⟩, ⟨_, .callSite hsite rfl hhandle rfl⟩,
      ⟨_, .lookupSwitch⟩, ⟨_, .wideIncrement⟩, nofun⟩
  exact ⟨h, (instructions_codeBytes context).2 is 14 h⟩

end ArtifactAudit.ClassFile.Code
