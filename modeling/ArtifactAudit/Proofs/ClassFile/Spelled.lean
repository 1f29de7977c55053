import Mathlib.Data.List.Induction
import ArtifactAudit.Proofs.ClassFile.Layout
import ArtifactAudit.Proofs.ClassFile.Tables

/-!
This module contains that nothing else is read than what is written: the bytes that a reader takes are
those that are written for something. Its main statement is that every class file with symbols is written
from its tables.
-/

namespace ArtifactAudit.ClassFile

variable {α β ω : Type}

namespace Reader

def Spells (reader : Reader α) (written : ω → List UInt8) : Prop :=
  ∀ c a after, reader c = .ok (a, after) → ∃ w, c.rest = written w ++ after.rest

theorem exists_of_bind {reader : Reader α} {next : α → Reader β} {c after : Cursor} {b : β}
    (h : (reader >>= next) c = .ok (b, after))
    : ∃ a between, reader c = .ok (a, between) ∧ next a between = .ok (b, after) := by
  rw [run_bind] at h
  split at h
  . next a between hrun => exact ⟨a, between, hrun, h⟩
  . cases h

theorem exists_of_liftM_bind {x : Except Fault α} {next : α → Reader β} {c after : Cursor} {b : β}
    (h : (liftM x >>= next) c = .ok (b, after))
    : ∃ a, x = .ok a ∧ next a c = .ok (b, after) := by
  cases x with
  | ok a => exact ⟨a, rfl, h⟩
  | error => cases h

theorem eq_of_liftM_eq_ok {x : Except Fault α} {c after : Cursor} {a : α}
    (h : (liftM x : Reader α) c = .ok (a, after))
    : after = c := by
  rw [← bind_pure (liftM x)] at h
  rcases exists_of_liftM_bind h with ⟨_, _, hpure⟩
  cases hpure
  rfl

theorem exists_of_within {reader : Reader α} {c : Cursor} {a : α} (h : within c reader = .ok a)
    : ∃ after, reader c = .ok (a, after) := by
  change Except.map Prod.fst (reader c) = .ok a at h
  rcases hrun : reader c with fault | ⟨b, after⟩
  . rw [hrun] at h
    cases h
  . rw [hrun] at h
    cases h
    exact ⟨after, rfl⟩

theorem exists_of_bytes_bind {count : Nat} {next : List UInt8 → Reader β} {c after : Cursor} {b : β}
    (h : (bytes count >>= next) c = .ok (b, after))
    : ∃ taken between, taken.length = count ∧ c.rest = taken ++ between.rest
        ∧ next taken between = .ok (b, after) := by
  rcases exists_of_bind h with ⟨taken, between, htaken, hnext⟩
  unfold bytes at htaken
  dsimp only at htaken
  split at htaken
  . next hcount =>
    cases htaken
    exact ⟨_, _, hcount, (List.take_append_drop _ _).symm, hnext⟩
  . cases htaken

theorem exists_of_skip_bind {count : Nat} {next : Unit → Reader β} {c after : Cursor} {b : β}
    (h : (skip count >>= next) c = .ok (b, after))
    : ∃ taken between, taken.length = count ∧ c.rest = taken ++ between.rest
        ∧ next () between = .ok (b, after) := by
  have hskip : skip count >>= next = bytes count >>= fun _ => next () := by
    change (bytes count >>= fun _ => pure ()) >>= next = _
    rw [bind_assoc]
    rfl
  rw [hskip] at h
  exact exists_of_bytes_bind h

theorem numberBytes_bigEndian (bs : List UInt8)
    : bigEndian bs < 256 ^ bs.length ∧ numberBytes bs.length (bigEndian bs) = bs := by
  induction bs using List.reverseRecOn with
  | nil => exact ⟨Nat.one_pos, rfl⟩
  | append_singleton bs b ih =>
    have hvalue : bigEndian (bs ++ [b]) = bigEndian bs * 256 + b.toNat := by
      simp [bigEndian]
    have hbound := b.toNat_lt
    have hhigh : (bigEndian bs * 256 + b.toNat) / 256 = bigEndian bs := by omega
    have hlow : UInt8.ofNat (bigEndian bs * 256 + b.toNat) = b := by
      rw [← UInt8.toNat_inj, UInt8.toNat_ofNat']
      omega
    rw [hvalue, List.length_append, List.length_singleton, Nat.pow_succ, numberBytes, hhigh, hlow, ih.2]
    exact ⟨by omega, rfl⟩

theorem exists_of_length_eq_two {bs : List UInt8} (h : bs.length = 2)
    : ∃ i : UInt16, bigEndian bs = i.toNat ∧ bs = numberBytes 2 i.toNat := by
  rcases numberBytes_bigEndian bs with ⟨hlt, hbytes⟩
  rw [h] at hlt hbytes
  have hvalue : (UInt16.ofNat (bigEndian bs)).toNat = bigEndian bs := UInt16.toNat_ofNat_of_lt' hlt
  exact ⟨UInt16.ofNat (bigEndian bs), hvalue.symm, by rw [hvalue, hbytes]⟩

theorem exists_of_length_eq_four {bs : List UInt8} (h : bs.length = 4)
    : ∃ i j : UInt16, bs = numberBytes 2 i.toNat ++ numberBytes 2 j.toNat := by
  have hfirst : (bs.take 2).length = 2 := by rw [List.length_take]; omega
  have hsecond : (bs.drop 2).length = 2 := by rw [List.length_drop]; omega
  rcases exists_of_length_eq_two hfirst with ⟨i, _, hi⟩
  rcases exists_of_length_eq_two hsecond with ⟨j, _, hj⟩
  exact ⟨i, j, by rw [← hi, ← hj, List.take_append_drop]⟩

theorem exists_of_u16_bind {next : Nat → Reader β} {c after : Cursor} {b : β}
    (h : (u16 >>= next) c = .ok (b, after))
    : ∃ (i : UInt16) (between : Cursor), c.rest = numberBytes 2 i.toNat ++ between.rest
        ∧ next i.toNat between = .ok (b, after) := by
  have hu16 : u16 >>= next = bytes 2 >>= fun taken => next (bigEndian taken) := by
    unfold u16
    rw [bind_assoc]
    rfl
  rw [hu16] at h
  rcases exists_of_bytes_bind h with ⟨taken, between, hlength, hrest, hnext⟩
  rcases exists_of_length_eq_two hlength with ⟨i, hi, rfl⟩
  rw [hi] at hnext
  exact ⟨i, between, hrest, hnext⟩

theorem exists_of_u32_bind {next : Nat → Reader β} {c after : Cursor} {b : β}
    (h : (u32 >>= next) c = .ok (b, after))
    : ∃ n between, n < 2 ^ 32 ∧ c.rest = numberBytes 4 n ++ between.rest
        ∧ next n between = .ok (b, after) := by
  have hu32 : u32 >>= next = bytes 4 >>= fun taken => next (bigEndian taken) := by
    unfold u32
    rw [bind_assoc]
    rfl
  rw [hu32] at h
  rcases exists_of_bytes_bind h with ⟨taken, between, hlength, hrest, hnext⟩
  rcases numberBytes_bigEndian taken with ⟨hlt, htaken⟩
  rw [hlength] at hlt htaken
  exact ⟨bigEndian taken, between, hlt, by rw [htaken, hrest], hnext⟩

theorem exists_of_u32_part_bind {next : Cursor → Reader β} {c after : Cursor} {b : β}
    (h : (u32 >>= fun length => part length >>= next) c = .ok (b, after))
    : ∃ (body : List UInt8) (found between : Cursor), body.length < 2 ^ 32
        ∧ c.rest = numberBytes 4 body.length ++ (body ++ between.rest)
        ∧ next found between = .ok (b, after) := by
  rcases exists_of_u32_bind h with ⟨length, c', hlt, hrest, hpart⟩
  rw [run_bind, run_part, ← run_bind, bind_assoc] at hpart
  rcases exists_of_bytes_bind hpart with ⟨body, between, rfl, hbody, hnext⟩
  exact ⟨body, _, between, hlt, by rw [hrest, hbody], hnext⟩

theorem Spells.exists_of_times {reader : Reader α} {written : ω → List UInt8} (h : Spells reader written)
    (count : Nat)
    : ∀ {c after : Cursor} {as : List α}, times count reader c = .ok (as, after) →
        ∃ ws : List ω, ws.length = count ∧ c.rest = ws.flatMap written ++ after.rest := by
  induction count with
  | zero =>
    intro c after as hrun
    cases hrun
    exact ⟨[], rfl, rfl⟩
  | succ count ih =>
    intro c after as hrun
    rw [times_succ] at hrun
    rcases exists_of_bind hrun with ⟨a, between, hfirst, hrest⟩
    rcases exists_of_bind hrest with ⟨more, last, hmore, hpure⟩
    cases hpure
    rcases h c a between hfirst with ⟨w, hw⟩
    rcases ih hmore with ⟨ws, hlength, hws⟩
    refine ⟨w :: ws, by rw [List.length_cons, hlength], ?_⟩
    rw [hw, hws, List.flatMap_cons, List.append_assoc]

theorem Spells.table {reader : Reader α} {written : ω → List UInt8} (h : Spells reader written)
    : Spells (table reader) (WrittenTable.bytes written) := by
  intro c as after hrun
  rcases exists_of_u16_bind hrun with ⟨count, between, hrest, htimes⟩
  rcases h.exists_of_times count.toNat htimes with ⟨ws, hlength, hws⟩
  have hlt : ws.length < 2 ^ 16 := hlength ▸ count.toNat_lt
  refine ⟨⟨ws, hlt⟩, ?_⟩
  rw [hrest, hws, ← hlength, WrittenTable.bytes, tableBytes, List.append_assoc]

end Reader

open Reader

theorem spells_attributes (pool : ConstantPool)
    : Spells (attributes pool) (WrittenTable.bytes WrittenAttribute.bytes) := by
  apply Spells.table
  intro c part after h
  rcases exists_of_u16_bind h with ⟨name, c₁, hname, h⟩
  rcases exists_of_liftM_bind h with ⟨text, _, h⟩
  rcases exists_of_u32_part_bind h with ⟨body, found, c₂, hlt, hbody, h⟩
  cases h
  refine ⟨⟨name, body, hlt⟩, ?_⟩
  rw [hname, hbody]
  simp only [WrittenAttribute.bytes, List.append_assoc]

theorem spells_members (pool : ConstantPool)
    : Spells (members pool) (WrittenTable.bytes WrittenMember.bytes) := by
  apply Spells.table
  intro c member after h
  rcases exists_of_skip_bind h with ⟨head, c₁, hlength, hhead, h⟩
  rcases exists_of_length_eq_four hlength with ⟨flags, name, rfl⟩
  rcases exists_of_u16_bind h with ⟨descriptor, c₂, hdescriptor, h⟩
  rcases exists_of_liftM_bind h with ⟨text, _, h⟩
  rcases exists_of_bind h with ⟨found, c₃, hattributes, h⟩
  rcases spells_attributes pool _ _ _ hattributes with ⟨attributes, hrest⟩
  cases h
  refine ⟨⟨flags, name, descriptor, attributes⟩, ?_⟩
  rw [hhead, hdescriptor, hrest]
  simp only [WrittenMember.bytes, List.append_assoc]

theorem spells_interfaces (pool : ConstantPool)
    : Spells (table do plainClass (← pool.className (← u16)))
        (WrittenTable.bytes fun i : UInt16 => numberBytes 2 i.toNat) := by
  apply Spells.table
  intro c found after h
  rcases exists_of_u16_bind h with ⟨index, c₁, hindex, h⟩
  rcases exists_of_liftM_bind h with ⟨name, _, h⟩
  exact ⟨index, eq_of_liftM_eq_ok h ▸ hindex⟩

theorem steady_constant (index : Nat) : Steady (Constant.read index) := by
  refine steady_byte.bind fun tag => ?_
  split <;> simp

theorem steady_readPlaces (count : Nat)
    : ∀ taken, Steady (ConstantPool.readPlaces count taken : Reader (Array (Option Constant))) := by
  induction count using Nat.strongRecOn with
  | ind count ih =>
    intro taken
    rw [readPlaces_eq]
    split
    . exact steady_pure taken
    . next hne =>
      refine (steady_constant _).bind fun constant => ?_
      have := constant.width_pos
      exact ih (count - constant.width) (by omega) _

theorem steady_pool : Steady ConstantPool.read :=
  steady_u16.bind fun count => (steady_readPlaces (count - 1) _).bind fun _ => steady_pure _

theorem Reader.Steady.exists_consumes {reader : Reader α} (h : Steady reader) (hexact : Exact reader)
    {c after : Cursor} {a : α} (hrun : reader c = .ok (a, after))
    : ∃ taken, c.rest = taken ++ after.rest ∧ Consumes reader taken a := by
  rcases hexact c a after hrun with ⟨taken, hrest, htakes⟩
  refine ⟨taken, hrest, fun offset rest => ?_⟩
  have hagree := h ⟨taken ++ rest, c.offset⟩ ⟨taken ++ rest, offset⟩ rfl
  rw [htakes.any_rest] at hagree
  rcases hother : reader ⟨taken ++ rest, offset⟩ with fault | ⟨b, other⟩
  . rw [hother] at hagree
    cases hagree
  . rw [hother] at hagree
    cases hagree with
    | ok hrelated =>
      rcases hrelated with ⟨rfl, hmoved⟩
      have hsame : rest = other.rest := hmoved.same
      have hoffset := hmoved.offset_add
      dsimp only at hoffset
      have hplace : other.offset = offset + taken.length := by omega
      rw [hsame, ← hplace]

theorem exists_bytes_eq_of_layout {bytes : List UInt8} {file : Layout} {after : Cursor}
    (h : layout (.start bytes) = .ok (file, after))
    : ∃ f : WrittenClass, f.bytes = bytes := by
  rcases exists_of_u32_bind h with ⟨number, c₁, _, hmagic, h⟩
  split at h
  . cases h
  . next heq =>
    rw [not_not] at heq
    subst heq
    rcases exists_of_skip_bind h with ⟨version, c₂, hlength, hversion, h⟩
    rcases exists_of_length_eq_four hlength with ⟨minor, major, rfl⟩
    rcases exists_of_bind h with ⟨pool, c₃, hpool, h⟩
    rcases steady_pool.exists_consumes exact_pool hpool with ⟨poolBytes, hpoolBytes, hconsumes⟩
    rcases exists_of_skip_bind h with ⟨access, c₄, hlength, haccess, h⟩
    rcases exists_of_length_eq_two hlength with ⟨flags, _, rfl⟩
    rcases exists_of_u16_bind h with ⟨name, c₅, hname, h⟩
    rcases exists_of_liftM_bind h with ⟨_, _, h⟩
    rcases exists_of_u16_bind h with ⟨superclass, c₆, hsuperclass, h⟩
    extract_lets more at h
    have hmore : ∃ extended, more extended c₆ = .ok (file, after) := by
      split at h
      . exact ⟨[], h⟩
      . rcases exists_of_liftM_bind h with ⟨_, _, h⟩
        rcases exists_of_liftM_bind h with ⟨extended, _, h⟩
        exact ⟨extended, h⟩
    rcases hmore with ⟨extended, h⟩
    rcases exists_of_bind h with ⟨_, c₇, hinterfaces, h⟩
    rcases spells_interfaces pool _ _ _ hinterfaces with ⟨interfaces, hinterfaces⟩
    rcases exists_of_bind h with ⟨_, c₈, hfields, h⟩
    rcases spells_members pool _ _ _ hfields with ⟨fields, hfields⟩
    rcases exists_of_bind h with ⟨_, c₉, hmethods, h⟩
    rcases spells_members pool _ _ _ hmethods with ⟨methods, hmethods⟩
    rcases exists_of_bind h with ⟨_, c₁₀, hattributes, h⟩
    rcases spells_attributes pool _ _ _ hattributes with ⟨attributes, hattributes⟩
    refine ⟨⟨minor, major, poolBytes, pool, hconsumes, flags, name, superclass, interfaces, fields,
      methods, attributes, c₁₀.rest⟩, ?_⟩
    have hbytes : bytes = _ := hmagic
    rw [hbytes, hversion, hpoolBytes, haccess, hname, hsuperclass, hinterfaces, hfields, hmethods,
      hattributes]
    simp only [WrittenClass.bytes, WrittenClass.outline, WrittenClass.tables, List.append_assoc]

/--
Every class file with symbols is written from its tables.
-/
theorem exists_bytes_eq_of_extract {skipDebug : Bool} {bytes : List UInt8} {symbols : Symbols}
    (h : extract skipDebug bytes = .ok symbols)
    : ∃ f : WrittenClass, f.bytes = bytes := by
  rw [extract_eq] at h
  split at h
  . next file after hlayout => exact exists_bytes_eq_of_layout hlayout
  . cases h

theorem spells_handlers (pool : ConstantPool)
    : Spells (table (Code.handler pool)) (WrittenTable.bytes WrittenHandler.bytes) := by
  apply Spells.table
  intro c found after h
  rcases exists_of_skip_bind h with ⟨range, c₁, hlength, hrange, h⟩
  have hends : (range.take 4).length = 4 := by rw [List.length_take]; omega
  have htarget : (range.drop 4).length = 2 := by rw [List.length_drop]; omega
  rcases exists_of_length_eq_four hends with ⟨start, stop, hends⟩
  rcases exists_of_length_eq_two htarget with ⟨target, _, htarget⟩
  rcases exists_of_u16_bind h with ⟨type, c₂, htype, h⟩
  have hafter : after = c₂ := by
    split at h
    . cases h
      rfl
    . rcases exists_of_liftM_bind h with ⟨name, _, h⟩
      exact eq_of_liftM_eq_ok h
  refine ⟨⟨start, stop, target, type⟩, ?_⟩
  rw [hrange, htype, ← List.take_append_drop 4 range, hends, htarget, hafter]
  simp only [WrittenHandler.bytes, List.append_assoc]

theorem spells_nestedAttributes (context : Code.Context)
    : Spells
        (table do
          let name ← context.pool.utf8 (← u16)
          let part ← part (← u32)
          Code.nestedAttribute context name part)
        (WrittenTable.bytes WrittenAttribute.bytes) := by
  apply Spells.table
  intro c found after h
  rcases exists_of_u16_bind h with ⟨name, c₁, hname, h⟩
  rcases exists_of_liftM_bind h with ⟨text, _, h⟩
  rcases exists_of_u32_part_bind h with ⟨body, _, c₂, hlt, hbody, h⟩
  refine ⟨⟨name, body, hlt⟩, ?_⟩
  rw [hname, hbody, eq_of_liftM_eq_ok h]
  simp only [WrittenAttribute.bytes, List.append_assoc]

theorem exists_bytes_eq_of_body {context : Code.Context} {c after : Cursor} {found : List String}
    (h : Code.body context c = .ok (found, after))
    : ∃ w : WrittenCode, w.bytes = c.rest := by
  rcases exists_of_skip_bind h with ⟨sizes, c₁, hlength, hsizes, h⟩
  rcases exists_of_length_eq_four hlength with ⟨stack, locals, rfl⟩
  rcases exists_of_u32_part_bind h with ⟨code, _, c₂, hlt, hcode, h⟩
  rcases exists_of_liftM_bind h with ⟨_, _, h⟩
  rcases exists_of_bind h with ⟨_, c₃, hhandlers, h⟩
  rcases spells_handlers context.pool _ _ _ hhandlers with ⟨handlers, hhandlers⟩
  rcases exists_of_bind h with ⟨_, c₄, hattributes, h⟩
  rcases spells_nestedAttributes context _ _ _ hattributes with ⟨attributes, hattributes⟩
  refine ⟨⟨stack, locals, code, hlt, handlers, attributes, c₄.rest⟩, ?_⟩
  rw [hsizes, hcode, hhandlers, hattributes]
  simp only [WrittenCode.bytes, WrittenCode.outline, List.append_assoc]

end ArtifactAudit.ClassFile
