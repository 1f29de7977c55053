import ArtifactAudit.ClassFile.Reader

/-!
This module contains the theory of readers that need exactly the bytes that they take: what follows
these bytes does not matter, and without all of them the reader fails because the bytes end.
-/

namespace ArtifactAudit.ClassFile.Reader

variable {α β : Type}

/--
Whether a reader takes some bytes for a result wherever they stand, and fails in front of a part of
them.
-/
structure Takes (reader : Reader α) (offset : Nat) (taken : List UInt8) (a : α) : Prop where
  any_rest : ∀ rest, reader ⟨taken ++ rest, offset⟩ = .ok (a, ⟨rest, offset + taken.length⟩)
  truncated : ∀ k < taken.length, ∃ place, reader ⟨taken.take k, offset⟩ = .error (.truncated place)

/--
Whether a reader needs exactly the bytes that it takes.
-/
def Exact (reader : Reader α) : Prop :=
  ∀ c a after, reader c = .ok (a, after) →
    ∃ taken, c.rest = taken ++ after.rest ∧ Takes reader c.offset taken a

theorem run_bind (reader : Reader α) (next : α → Reader β) (c : Cursor)
    : (reader >>= next) c
        =
      match reader c with
      | .ok (a, after) => next a after
      | .error fault => .error fault := by
  change Except.bind (reader c) _ = _
  cases reader c <;> rfl

theorem Takes.bind {reader : Reader α} {next : α → Reader β} {offset : Nat}
    {taken more : List UInt8} {a : α} {b : β} (h : Takes reader offset taken a)
    (hnext : Takes (next a) (offset + taken.length) more b)
    : Takes (reader >>= next) offset (taken ++ more) b where
  any_rest rest := by
    rw [run_bind, List.append_assoc, h.any_rest]
    dsimp only
    rw [hnext.any_rest, List.length_append, Nat.add_assoc]
  truncated k hk := by
    rw [run_bind, List.take_append]
    by_cases hlt : k < taken.length
    . rcases h.truncated k hlt with ⟨place, hfail⟩
      have hzero : k - taken.length = 0 := by omega
      rw [hzero, List.take_zero, List.append_nil, hfail]
      exact ⟨place, rfl⟩
    . -- The first reader has all that it takes, so the second one is short of bytes.
      rw [List.take_of_length_le (by omega), h.any_rest]
      rw [List.length_append] at hk
      exact hnext.truncated (k - taken.length) (by omega)

theorem exact_of_isEmpty {reader : Reader α} (h : ∀ c a after, reader c ≠ .ok (a, after))
    : Exact reader :=
  fun c a after hrun => absurd hrun (h c a after)

@[simp]
theorem exact_pure (a : α) : Exact (pure a : Reader α) := by
  intro c other after h
  cases h
  exact ⟨[], rfl, fun _ => rfl, fun _ hk => absurd hk (Nat.not_lt_zero _)⟩

@[simp]
theorem exact_throw (fault : Fault) : Exact (throw fault : Reader α) :=
  exact_of_isEmpty fun _ _ _ => nofun

@[simp]
theorem exact_liftM (result : Except Fault α) : Exact (liftM result : Reader α) := by
  cases result with
  | ok a => exact exact_pure a
  | error fault => exact exact_throw fault

@[simp]
theorem Exact.bind {reader : Reader α} {next : α → Reader β} (h : Exact reader)
    (hnext : ∀ a, Exact (next a))
    : Exact (reader >>= next) := by
  intro c b after hrun
  rw [run_bind] at hrun
  split at hrun
  . next a between heq =>
    rcases h c a between heq with ⟨taken, hrest, htakes⟩
    rcases hnext a between b after hrun with ⟨more, hmore, htakes'⟩
    have hbetween : between = ⟨between.rest, c.offset + taken.length⟩ := by
      have hagain := htakes.any_rest between.rest
      rw [← hrest, heq] at hagain
      exact congrArg Prod.snd (Except.ok.inj hagain)
    rw [hbetween] at htakes'
    exact ⟨taken ++ more, by rw [hrest, hmore, List.append_assoc], htakes.bind htakes'⟩
  . cases hrun

@[simp]
theorem Exact.map {reader : Reader α} (h : Exact reader) (f : α → β) : Exact (f <$> reader) := by
  rw [map_eq_pure_bind]
  exact h.bind fun a => exact_pure (f a)

@[simp]
theorem exact_bytes (count : Nat) : Exact (bytes count) := by
  intro c taken after h
  unfold bytes at h
  dsimp only at h
  split at h
  . next hcount =>
    cases h
    refine ⟨c.rest.take count, (List.take_append_drop _ _).symm, ⟨?_, ?_⟩⟩
    . intro rest
      simp [bytes, hcount]
    . intro k hk
      refine ⟨c.offset, ?_⟩
      rw [bytes]
      dsimp only
      rw [if_neg]
      simp only [List.length_take] at hk ⊢
      omega
  . cases h

@[simp]
theorem exact_byte : Exact byte := by
  intro c b after h
  unfold byte at h
  split at h
  . next heq =>
    cases h
    refine ⟨[b], heq, fun _ => rfl, ?_⟩
    intro k hk
    rw [Nat.lt_one_iff.1 hk]
    exact ⟨c.offset, rfl⟩
  . cases h

@[simp]
theorem exact_skip (count : Nat) : Exact (skip count) :=
  (exact_bytes count).bind fun _ => exact_pure ()

@[simp]
theorem exact_u16 : Exact u16 :=
  (exact_bytes 2).bind fun _ => exact_pure _

@[simp]
theorem exact_u32 : Exact u32 :=
  (exact_bytes 4).bind fun _ => exact_pure _

theorem run_part (length : Nat) (c : Cursor)
    : part length c = (bytes length >>= fun taken => pure ⟨taken, c.offset⟩ : Reader Cursor) c :=
  rfl

@[simp]
theorem exact_part (length : Nat) : Exact (part length) := by
  intro c found after h
  rw [run_part] at h
  rcases ((exact_bytes length).bind fun _ => exact_pure _) c found after h with ⟨taken, hrest, htakes⟩
  refine ⟨taken, hrest, ⟨?_, ?_⟩⟩
  . intro rest
    rw [run_part]
    exact htakes.any_rest rest
  . intro k hk
    rw [run_part]
    exact htakes.truncated k hk

theorem times_go_succ (reader : Reader α) (count : Nat) (found : List α)
    : (times.go reader (count + 1) found : Reader (List α))
        =
      reader >>= fun a => times.go reader count (a :: found) := by
  funext c
  rcases hread : reader c with fault | ⟨a, after⟩ <;> simp only [run_bind, times.go, hread]

theorem times_go_eq (reader : Reader α) (count : Nat)
    : ∀ found, (times.go reader count found : Reader (List α))
        =
      times count reader >>= fun more => pure (found.reverse ++ more) := by
  unfold times
  induction count with
  | zero =>
    intro found
    have hend : (times.go reader 0 found : Reader (List α))
        = (pure (found.reverse ++ []) : Reader (List α)) := by
      rw [List.append_nil]
      rfl
    exact hend
  | succ count ih =>
    intro found
    rw [times_go_succ, times_go_succ, bind_assoc]
    congr 1
    funext a
    rw [ih (a :: found), ih [a], bind_assoc]
    simp only [pure_bind, List.reverse_cons, List.append_assoc, List.reverse_nil, List.nil_append]

theorem times_succ (count : Nat) (reader : Reader α)
    : times (count + 1) reader
        =
      reader >>= fun a => times count reader >>= fun more => pure (a :: more) := by
  -- What has been found is turned around only at the end.
  have hfirst : times (count + 1) reader = reader >>= fun a => times.go reader count [a] :=
    times_go_succ reader count []
  rw [hfirst]
  congr 1
  funext a
  exact times_go_eq reader count [a]

theorem Exact.times {reader : Reader α} (h : Exact reader) (count : Nat)
    : Exact (times count reader) := by
  induction count with
  | zero => exact exact_pure []
  | succ count ih =>
    rw [times_succ]
    exact h.bind fun a => ih.bind fun more => exact_pure (a :: more)

theorem Exact.table {reader : Reader α} (h : Exact reader) : Exact (table reader) :=
  exact_u16.bind fun count => h.times count

end ArtifactAudit.ClassFile.Reader
