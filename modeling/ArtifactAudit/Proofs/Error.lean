import ArtifactAudit.Error
import ArtifactAudit.Proofs.Except

/-!
This module contains the theory of failures that are not for an artifact that depends on itself. Only
resolutions give that one.
-/

namespace ArtifactAudit

variable {α β : Type}

def NotCyclical (result : Except AuditError α) : Prop :=
  ∀ path, result ≠ .error (.cyclicalDependency path)

namespace NotCyclical

theorem ok (a : α) : NotCyclical (.ok a) := by
  intro path h
  cases h

theorem map {result : Except AuditError α} (h : NotCyclical result) (f : α → β)
    : NotCyclical (result.map f) := by
  intro path heq
  cases result with
  | ok a => cases heq
  | error error =>
    cases heq
    exact h path rfl

theorem bind {result : Except AuditError α} {f : α → Except AuditError β} (h : NotCyclical result)
    (hf : ∀ a, NotCyclical (f a))
    : NotCyclical (result >>= f) := by
  intro path heq
  rcases error_of_bind_eq_error heq with hfails | ⟨a, hfails⟩
  . exact h path hfails
  . exact hf a path hfails

theorem mapM {f : α → Except AuditError β} (hf : ∀ a, NotCyclical (f a)) (as : List α)
    : NotCyclical (as.mapM f) := by
  intro path heq
  rcases error_of_mapM_eq_error heq with ⟨a, hfails⟩
  exact hf a path hfails

end NotCyclical

theorem AuditError.within_eq_self {error : AuditError} (h : ∀ path, error ≠ .cyclicalDependency path)
    (c : Coordinate)
    : error.within c = error := by
  cases error with
  | cyclicalDependency path => exact absurd rfl (h path)
  | _ => rfl

end ArtifactAudit
