import Mathlib.Tactic.Common

/-!
# Programs that may fail

A program that may fail is a value of `Except ε α`. This file collects what is needed to argue
about how one ends.

* `bind_eq_ok` — what the parts of a program that succeeds have given
* `Yields` — the results and the errors that a program can end with
* `Yields.bind`, `Yields.mono` — the rules of composition and of consequence
-/

namespace OpenAmq.Lib

universe u

variable {ε : Type*} {α β : Type u} {x : Except ε α} {a : α}

theorem bind_eq_ok {f : α → Except ε β} {b : β} :
    (x >>= f) = .ok b ↔ ∃ a, x = .ok a ∧ f a = .ok b := by
  cases x with
  | error e | ok a => simp [bind, Except.bind]

@[simp] theorem pure_eq_ok {b : α} : (pure a : Except ε α) = .ok b ↔ a = b := by
  simp [pure, Except.pure]

theorem toOption_eq_some : x.toOption = some a ↔ x = .ok a := by
  cases x with
  | error e | ok b => simp [Except.toOption]

/-- The program yields a result that meets `P` or an error that meets `E`. -/
def Yields (x : Except ε α) (P : α → Prop) (E : ε → Prop) : Prop :=
  match x with
  | .ok a => P a
  | .error e => E e

section Rules

variable {P Q : α → Prop} {E F : ε → Prop}

theorem yields_ok (h : P a) : Yields (.ok a : Except ε α) P E := h

theorem yields_pure (h : P a) : Yields (pure a : Except ε α) P E := h

theorem yields_error {e : ε} (h : E e) : Yields (.error e : Except ε α) P E := h

theorem Yields.bind {f : α → Except ε β} {R : β → Prop} (hx : Yields x P E)
    (hf : ∀ a, P a → Yields (f a) R E) : Yields (x >>= f) R E := by
  cases x with
  | error e => exact hx
  | ok a => exact hf a hx

theorem Yields.mono (h : Yields x P E) (hP : ∀ a, P a → Q a) (hE : ∀ e, E e → F e) :
    Yields x Q F := by
  cases x with
  | error e => exact hE e h
  | ok a => exact hP a h

theorem Yields.imp (h : Yields x P E) (hP : ∀ a, P a → Q a) : Yields x Q E :=
  h.mono hP fun _ h => h

theorem Yields.of_ok (h : Yields x P E) (hx : x = .ok a) : P a := by
  rw [hx] at h
  exact h

theorem Yields.of_error (h : Yields x P E) {e : ε} (hx : x = .error e) : E e := by
  rw [hx] at h
  exact h

theorem Yields.exists_ok (h : Yields x P fun _ => False) : ∃ a, x = .ok a ∧ P a := by
  cases x with
  | error e => exact h.elim
  | ok a => exact ⟨a, rfl, h⟩

theorem Yields.and_ok (h : Yields x P E) (hQ : ∀ a, x = .ok a → Q a) :
    Yields x (fun a => P a ∧ Q a) E := by
  cases x with
  | error e => exact h
  | ok a => exact ⟨h, hQ a rfl⟩

theorem yields_mapM {f : β → Except ε α} {bs : List β} (h : ∀ b ∈ bs, Yields (f b) P E) :
    Yields (bs.mapM f) (fun as => ∀ a ∈ as, P a) E := by
  induction bs with
  | nil => exact yields_pure nofun
  | cons b bs ih =>
    rw [List.forall_mem_cons] at h
    rw [List.mapM_cons]
    refine h.1.bind fun a ha => (ih h.2).bind fun as has => yields_pure ?_
    exact List.forall_mem_cons.mpr ⟨ha, has⟩

end Rules

end OpenAmq.Lib
