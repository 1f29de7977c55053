import Mathlib.Data.List.Basic
import ArtifactAudit.ClassFile.Extract
import ArtifactAudit.Proofs.ClassFile.Reader

/-!
This module contains the theory of how class files are laid out. Its main statement is that a class
file cannot be cut short: its symbols are fixed by some first bytes, and with fewer bytes than these
there are none.
-/

namespace ArtifactAudit.ClassFile

open Reader

theorem exact_constant (index : Nat) : Exact (Constant.read index) := by
  refine exact_byte.bind fun tag => ?_
  split <;> simp

theorem readPlaces_eq (count : Nat) (taken : Array (Option Constant))
    : (ConstantPool.readPlaces count taken : Reader (Array (Option Constant)))
        =
      if count = 0 then pure taken
      else
        Constant.read taken.size >>= fun constant =>
          ConstantPool.readPlaces (count - constant.width) (taken ++ constant.places) := by
  funext c
  rw [ConstantPool.readPlaces]
  split
  . rfl
  . rw [run_bind]
    rcases Constant.read taken.size c with fault | ⟨constant, after⟩ <;> rfl

theorem exact_readPlaces (count : Nat)
    : ∀ taken, Exact (ConstantPool.readPlaces count taken : Reader (Array (Option Constant))) := by
  induction count using Nat.strongRecOn with
  | ind count ih =>
    intro taken
    rw [readPlaces_eq]
    split
    . exact exact_pure taken
    . next hne =>
      refine (exact_constant _).bind fun constant => ?_
      have := constant.width_pos
      exact ih (count - constant.width) (by omega) _

theorem exact_pool : Exact ConstantPool.read :=
  exact_u16.bind fun count => (exact_readPlaces (count - 1) _).bind fun _ => exact_pure _

theorem exact_attributes (pool : ConstantPool) : Exact (attributes pool) := by
  refine Exact.table (exact_u16.bind fun name => (exact_liftM _).bind fun _ => ?_)
  exact exact_u32.bind fun length => (exact_part length).bind fun _ => exact_pure _

theorem exact_members (pool : ConstantPool) : Exact (members pool) := by
  refine Exact.table ((exact_skip 4).bind fun _ => exact_u16.bind fun descriptor => ?_)
  exact (exact_liftM _).bind fun _ => (exact_attributes pool).bind fun _ => exact_pure _

theorem exact_layout : Exact layout := by
  unfold layout
  refine exact_u32.bind fun number => ?_
  extract_lets rest
  have hrest : ∀ u, Exact (rest u) := by
    intro u
    refine (exact_skip 4).bind fun _ => exact_pool.bind fun pool => (exact_skip 2).bind fun _ => ?_
    refine exact_u16.bind fun index => (exact_liftM _).bind fun name => ?_
    refine exact_u16.bind fun superclass => ?_
    extract_lets more
    have hmore : ∀ extended, Exact (more extended) := by
      intro extended
      refine Exact.bind (Exact.table ?_) fun implemented => ?_
      . exact exact_u16.bind fun index => (exact_liftM _).bind fun name => exact_liftM _
      . refine (exact_members pool).bind fun fields => (exact_members pool).bind fun methods => ?_
        exact (exact_attributes pool).bind fun _ => exact_pure _
    split
    . exact (exact_pure []).bind hmore
    . exact (exact_liftM _).bind fun name => (exact_liftM _).bind hmore
  split
  . exact (exact_throw _).bind hrest
  . exact hrest ()

/--
The outermost tables are read before anything else, so they alone decide whether bytes are missing.
-/
theorem extract_eq (skipDebug : Bool) (bytes : List UInt8)
    : extract skipDebug bytes
        =
      match layout (.start bytes) with
      | .ok (file, _) => file.symbols skipDebug
      | .error fault => .error fault := by
  change Except.bind (Except.map _ (layout (.start bytes))) _ = _
  rcases layout (.start bytes) with fault | ⟨file, after⟩ <;> rfl

/--
A class file cannot be cut short. If it has symbols they are fixed by some first bytes of it, whatever
follows these, and with fewer bytes reading fails because the bytes end.
-/
theorem extract_take_truncated {skipDebug : Bool} {bytes : List UInt8} {symbols : Symbols}
    (h : extract skipDebug bytes = .ok symbols)
    : ∃ n ≤ bytes.length,
        (∀ other, bytes.take n <+: other → extract skipDebug other = .ok symbols)
          ∧ ∀ k < n, ∃ offset, extract skipDebug (bytes.take k) = .error (.truncated offset) := by
  rw [extract_eq] at h
  split at h
  . next file after hlayout =>
    rcases exact_layout _ _ _ hlayout with ⟨taken, hbytes, htakes⟩
    have hbytes : bytes = taken ++ after.rest := hbytes
    refine ⟨taken.length, ?_, ?_, ?_⟩
    . rw [hbytes, List.length_append]
      omega
    . intro other hprefix
      rw [hbytes, List.take_left'  rfl] at hprefix
      rcases hprefix with ⟨rest, rfl⟩
      have hrun : layout (.start (taken ++ rest)) = _ := htakes.any_rest rest
      rw [extract_eq, hrun]
      exact h
    . intro k hk
      rcases htakes.truncated k hk with ⟨offset, hrun⟩
      have hrun : layout (.start (taken.take k)) = _ := hrun
      rw [hbytes, List.take_append_of_le_length (by omega), extract_eq, hrun]
      exact ⟨offset, rfl⟩
  . cases h

theorem extract_take_truncated_trailingByte :
    let bytes : List UInt8 := [202, 254, 186, 190, 0, 0, 0, 61, 0, 3, 1, 0, 3, 98, 47, 66, 7, 0, 1, 0, 33,
      0, 2, 0, 0, 0, 0, 0, 0, 0, 0, 0, 0, 7]
    extract false bytes = .ok ⟨.ofList ["b/B"], ∅⟩
      ∧ ∃ n ≤ bytes.length,
        (∀ other, bytes.take n <+: other → extract false other = .ok ⟨.ofList ["b/B"], ∅⟩)
          ∧ ∀ k < n, ∃ offset, extract false (bytes.take k) = .error (.truncated offset) := by
  intro bytes
  have h : extract false bytes = .ok ⟨.ofList ["b/B"], ∅⟩ := by decide +kernel
  exact ⟨h, extract_take_truncated h⟩

end ArtifactAudit.ClassFile
