import ArtifactAudit.ClassFile.Fault
import ArtifactAudit.Proofs.Except

/-!
This module contains when two results of reading agree, whatever faults there are, and that reading the
entries of a list gives results that agree if the list is rearranged.
-/

namespace ArtifactAudit.ClassFile

variable {α β γ δ σ : Type}

theorem exists_mapM_eq_ok {f : α → Except Fault β} {as : List α} {holds : β → Prop}
    (h : ∀ a ∈ as, ∃ b, f a = .ok b ∧ holds b)
    : ∃ bs, as.mapM f = .ok bs ∧ ∀ b ∈ bs, holds b := by
  induction as with
  | nil => exact ⟨[], rfl, nofun⟩
  | cons a as ih =>
    rcases List.forall_mem_cons.1 h with ⟨⟨b, hb, hholds⟩, hrest⟩
    rcases ih hrest with ⟨bs, hbs, hall⟩
    refine ⟨b :: bs, ?_, List.forall_mem_cons.2 ⟨hholds, hall⟩⟩
    rw [List.mapM_cons, hb, hbs]
    rfl

theorem countP_of_mapM_eq_ok {f : α → Except Fault β} {as : List α} {bs : List β} {p : α → Bool}
    {q : β → Bool} (h : as.mapM f = .ok bs) (hentry : ∀ a b, f a = .ok b → q b = p a)
    : bs.countP q = as.countP p := by
  have hfound := forall₂_of_mapM_eq_ok h
  clear h
  induction hfound with
  | nil => rfl
  | cons hb _ ih => rw [List.countP_cons, List.countP_cons, hentry _ _ hb, ih]

theorem exists_mem_iff_of_mapM_eq_ok {f : α → Except Fault β} {as : List α} {bs : List β}
    {p : α → Prop} {q : β → Prop} (h : as.mapM f = .ok bs) (hentry : ∀ a b, f a = .ok b → (p a ↔ q b))
    : (∃ a ∈ as, p a) ↔ ∃ b ∈ bs, q b := by
  have hfound := forall₂_of_mapM_eq_ok h
  clear h
  induction hfound with
  | nil => simp
  | cons hb _ ih => simp only [List.exists_mem_cons_iff, hentry _ _ hb, ih]

/--
Whether two results are both faults, or related to each other.
-/
inductive Agree (R : α → β → Prop) : Except Fault α → Except Fault β → Prop where
  | ok {a : α} {b : β} (related : R a b) : Agree R (.ok a) (.ok b)
  | error {fault other : Fault} : Agree R (.error fault) (.error other)

namespace Agree

theorem refl {R : α → α → Prop} (h : ∀ a, R a a) : ∀ x : Except Fault α, Agree R x x
  | .ok a => .ok (h a)
  | .error _ => .error

theorem symm {R : α → β → Prop} {S : β → α → Prop} {x : Except Fault α} {y : Except Fault β}
    (h : Agree R x y) (hswap : ∀ a b, R a b → S b a)
    : Agree S y x := by
  cases h with
  | ok hab => exact .ok (hswap _ _ hab)
  | error => exact .error

theorem trans {R : α → β → Prop} {S : β → γ → Prop} {T : α → γ → Prop} {x : Except Fault α}
    {y : Except Fault β} {z : Except Fault γ} (h : Agree R x y) (h' : Agree S y z)
    (hjoin : ∀ a b c, R a b → S b c → T a c)
    : Agree T x z := by
  cases h with
  | ok hab =>
    cases h' with
    | ok hbc => exact .ok (hjoin _ _ _ hab hbc)
  | error =>
    cases h' with
    | error => exact .error

theorem mono {R S : α → β → Prop} {x : Except Fault α} {y : Except Fault β} (h : Agree R x y)
    (himp : ∀ a b, R a b → S a b)
    : Agree S x y := by
  cases h with
  | ok hab => exact .ok (himp _ _ hab)
  | error => exact .error

theorem congr {R : α → β → Prop} {x x' : Except Fault α} {y y' : Except Fault β} (hx : Agree Eq x x')
    (hy : Agree Eq y y') (h : Agree R x' y')
    : Agree R x y := by
  have hleft : Agree R x y' := hx.trans h fun _ _ _ heq hab => heq ▸ hab
  have hright : Agree Eq y' y := hy.symm fun _ _ => Eq.symm
  exact hleft.trans hright fun _ _ _ hab heq => heq ▸ hab

theorem toOption_eq {x y : Except Fault α} (h : Agree Eq x y) : x.toOption = y.toOption := by
  cases h with
  | ok hab => rw [hab]
  | error => rfl

theorem eq_ok_iff {x y : Except Fault α} (h : Agree Eq x y) {a : α} : x = .ok a ↔ y = .ok a := by
  cases h with
  | ok heq => rw [heq]
  | error => exact ⟨nofun, nofun⟩

theorem attach {R : α → β → Prop} {x : Except Fault α} {y : Except Fault β} (h : Agree R x y)
    : Agree (fun a b => x = .ok a ∧ y = .ok b ∧ R a b) x y := by
  cases h with
  | ok hab => exact .ok ⟨rfl, rfl, hab⟩
  | error => exact .error

theorem bind {R : α → β → Prop} {S : γ → δ → Prop} {x : Except Fault α} {y : Except Fault β}
    {f : α → Except Fault γ} {g : β → Except Fault δ} (h : Agree R x y)
    (hnext : ∀ a b, R a b → Agree S (f a) (g b))
    : Agree S (x >>= f) (y >>= g) := by
  cases h with
  | ok hab => exact hnext _ _ hab
  | error => exact .error

theorem bind_same {S : γ → δ → Prop} {x : Except Fault α} {f : α → Except Fault γ}
    {g : α → Except Fault δ} (hnext : ∀ a, Agree S (f a) (g a))
    : Agree S (x >>= f) (x >>= g) := by
  cases x with
  | ok a => exact hnext a
  | error => exact .error

theorem map {R : α → β → Prop} {S : γ → δ → Prop} {x : Except Fault α} {y : Except Fault β}
    {f : α → γ} {g : β → δ} (h : Agree R x y) (hmap : ∀ a b, R a b → S (f a) (g b))
    : Agree S (x.map f) (y.map g) := by
  cases h with
  | ok hab => exact .ok (hmap _ _ hab)
  | error => exact .error

theorem mapM {R : α → β → Prop} {S : γ → δ → Prop} {f : α → Except Fault γ} {g : β → Except Fault δ}
    {as : List α} {bs : List β} (h : List.Forall₂ R as bs)
    (hentry : ∀ a b, R a b → Agree S (f a) (g b))
    : Agree (List.Forall₂ S) (as.mapM f) (bs.mapM g) := by
  induction h with
  | nil => exact .ok .nil
  | cons hab _ ih =>
    rw [List.mapM_cons, List.mapM_cons]
    apply (hentry _ _ hab).bind
    intro c d hcd
    apply ih.bind
    intro cs ds hcds
    exact .ok (.cons hcd hcds)

theorem mapM_perm {f : α → Except Fault β} {as bs : List α} (h : as.Perm bs)
    : Agree List.Perm (as.mapM f) (bs.mapM f) := by
  induction h with
  | nil => exact .ok .nil
  | cons a _ ih =>
    rw [List.mapM_cons, List.mapM_cons]
    apply bind_same
    intro c
    apply ih.bind
    intro cs ds hcds
    exact .ok (hcds.cons c)
  | swap a b as =>
    simp only [List.mapM_cons]
    rcases f a with fault | c <;> rcases f b with fault' | d <;> rcases as.mapM f with fault'' | cs
    . exact .error
    . exact .error
    . exact .error
    . exact .error
    . exact .error
    . exact .error
    . exact .error
    . exact .ok (.swap c d cs)
  | trans _ _ ih ih' => exact ih.trans ih' fun _ _ _ => List.Perm.trans

end Agree

theorem flatten_perm_of_forall₂ {xs ys : List (List α)} (h : List.Forall₂ List.Perm xs ys)
    : xs.flatten.Perm ys.flatten := by
  induction h with
  | nil => exact .nil
  | cons hxy _ ih =>
    rw [List.flatten_cons, List.flatten_cons]
    exact hxy.append ih

/--
Whether a list is rearranged: its entries may change among the same ones and stand in another order, and
there may be new ones among them.
-/
def Rearranged (Same : α → β → Prop) (New : β → Prop) (as : List α) (bs : List β) : Prop :=
  ∃ kept added, List.Forall₂ Same as kept ∧ (∀ b ∈ added, New b) ∧ bs.Perm (kept ++ added)

namespace Rearranged

theorem of_forall₂ {Same : α → β → Prop} {New : β → Prop} {as : List α} {bs : List β}
    (h : List.Forall₂ Same as bs)
    : Rearranged Same New as bs :=
  ⟨bs, [], h, nofun, by rw [List.append_nil]⟩

theorem mapM {Same : α → β → Prop} {New : β → Prop} {Same' : γ → δ → Prop} {New' : δ → Prop}
    {f : α → Except Fault γ} {g : β → Except Fault δ} {as : List α} {bs : List β}
    (h : Rearranged Same New as bs) (hsame : ∀ a b, Same a b → Agree Same' (f a) (g b))
    (hnew : ∀ b, New b → ∃ d, g b = .ok d ∧ New' d)
    : Agree (Rearranged Same' New') (as.mapM f) (bs.mapM g) := by
  rcases h with ⟨kept, added, hkept, hadded, hperm⟩
  rcases exists_mapM_eq_ok fun b hb => hnew b (hadded b hb) with ⟨ds, hds, hnewds⟩
  have happend : (kept ++ added).mapM g = (kept.mapM g >>= fun cs => pure (cs ++ ds)) := by
    rw [List.mapM_append, hds]
    rfl
  have hall : Agree (Rearranged Same' New') (as.mapM f) ((kept ++ added).mapM g) := by
    rw [happend, ← bind_pure (as.mapM f)]
    apply (Agree.mapM hkept hsame).bind
    intro cs cs' hcs
    exact .ok ⟨cs', ds, hcs, hnewds, .rfl⟩
  apply hall.trans (Agree.mapM_perm hperm.symm)
  rintro xs ys zs ⟨kept, added, hkept, hadded, hperm⟩ hzs
  exact ⟨kept, added, hkept, hadded, hzs.symm.trans hperm⟩

theorem flatten_perm {xs ys : List (List α)} (h : Rearranged List.Perm (· = []) xs ys)
    : xs.flatten.Perm ys.flatten := by
  rcases h with ⟨kept, added, hkept, hadded, hperm⟩
  have hempty : added.flatten = [] := List.flatten_eq_nil_iff.2 hadded
  have hys : ys.flatten.Perm (kept ++ added).flatten := hperm.flatten
  rw [List.flatten_append, hempty, List.append_nil] at hys
  exact (flatten_perm_of_forall₂ hkept).trans hys.symm

theorem mapM_flatten {Same : α → β → Prop} {New : β → Prop} {f : α → Except Fault (List γ)}
    {g : β → Except Fault (List γ)} {as : List α} {bs : List β} (h : Rearranged Same New as bs)
    (hsame : ∀ a b, Same a b → Agree List.Perm (f a) (g b)) (hnew : ∀ b, New b → g b = .ok [])
    : Agree (fun xs ys => xs.flatten.Perm ys.flatten) (as.mapM f) (bs.mapM g) := by
  have hfound : Agree (Rearranged List.Perm (· = [])) (as.mapM f) (bs.mapM g) :=
    h.mapM hsame fun b hb => ⟨[], hnew b hb, rfl⟩
  exact hfound.mono fun _ _ => flatten_perm

end Rearranged
end ArtifactAudit.ClassFile
