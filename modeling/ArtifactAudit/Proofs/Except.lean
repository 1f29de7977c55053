import Mathlib.Data.List.Forall2

/-!
This module contains the steps of computations that may fail: when a computation has a result, so have
all its steps, and when it fails one of them does.
-/

namespace ArtifactAudit

variable {ε α β : Type}

theorem exists_of_bind_eq_ok {x : Except ε α} {f : α → Except ε β} {b : β} (h : x >>= f = .ok b)
    : ∃ a, x = .ok a ∧ f a = .ok b := by
  cases x with
  | ok a => exact ⟨a, rfl, h⟩
  | error => cases h

theorem error_of_bind_eq_error {x : Except ε α} {f : α → Except ε β} {error : ε}
    (h : x >>= f = .error error)
    : x = .error error ∨ ∃ a, f a = .error error := by
  cases x with
  | ok a => exact .inr ⟨a, h⟩
  | error => exact .inl (by cases h; rfl)

theorem error_of_mapM_eq_error {f : α → Except ε β} {as : List α} {error : ε}
    (h : as.mapM f = .error error)
    : ∃ a, f a = .error error := by
  induction as with
  | nil => cases h
  | cons a as ih =>
    rw [List.mapM_cons] at h
    rcases error_of_bind_eq_error h with hfails | ⟨b, hrest⟩
    . exact ⟨a, hfails⟩
    . rcases error_of_bind_eq_error hrest with hfails | ⟨bs, hdone⟩
      . exact ih hfails
      . cases hdone

theorem eq_ok_of_toOption {x : Except ε α} {a : α} (h : x.toOption = some a) : x = .ok a := by
  cases x with
  | ok other => rw [Option.some.inj h]
  | error => cases h

theorem exists_of_map_toOption {x : Except ε α} {f : α → β} {b : β}
    (h : x.toOption.map f = some b)
    : ∃ a, x = .ok a ∧ f a = b := by
  rcases Option.map_eq_some_iff.1 h with ⟨a, ha, hb⟩
  exact ⟨a, eq_ok_of_toOption ha, hb⟩

theorem forall₂_of_mapM_eq_ok {f : α → Except ε β} {as : List α} {bs : List β}
    (h : as.mapM f = .ok bs)
    : List.Forall₂ (fun a b => f a = .ok b) as bs := by
  induction as generalizing bs with
  | nil =>
    cases h
    exact .nil
  | cons a as ih =>
    rw [List.mapM_cons] at h
    rcases exists_of_bind_eq_ok h with ⟨b, hb, hrest⟩
    rcases exists_of_bind_eq_ok hrest with ⟨more, hmore, hbs⟩
    cases hbs
    exact .cons hb (ih hmore)

theorem exists_mem_of_mapM_eq_ok {f : α → Except ε β} {as : List α} {bs : List β}
    (h : as.mapM f = .ok bs)
    : ∀ a ∈ as, ∃ b ∈ bs, f a = .ok b := by
  have hfound := forall₂_of_mapM_eq_ok h
  clear h
  induction hfound with
  | nil => exact nofun
  | cons hb _ ih =>
    refine List.forall_mem_cons.2 ⟨⟨_, List.mem_cons_self, hb⟩, ?_⟩
    intro a ha
    rcases ih a ha with ⟨b, hmem, heq⟩
    exact ⟨b, List.mem_cons_of_mem _ hmem, heq⟩

theorem forall_mem_of_mapM_eq_ok {f : α → Except ε β} {as : List α} {bs : List β} {q : β → Prop}
    (h : as.mapM f = .ok bs) (hentry : ∀ a ∈ as, ∀ b, f a = .ok b → q b)
    : ∀ b ∈ bs, q b := by
  have hfound := forall₂_of_mapM_eq_ok h
  clear h
  induction hfound with
  | nil => exact nofun
  | cons hb _ ih =>
    rw [List.forall_mem_cons] at hentry
    exact List.forall_mem_cons.2 ⟨hentry.1 _ hb, ih hentry.2⟩

end ArtifactAudit
