import Mathlib.Tactic.Common

/-!
# Loops that stop at a decision

A loop over a list whose body may decide, which ends the loop, or fail.

* `unlessDecided`, `untilDecided` — what comes after a decision, and the loop
* `SameDecision` — two outcomes with the same decision and related states
* `untilDecided_rel` — two loops over one list that decide the same
-/

namespace OpenAmq.Lib

open List

variable {α δ σ τ : Type*}

/-- Goes on with `next` when no decision has been taken. -/
def unlessDecided (r : Option (Option δ × σ)) (next : σ → Option (Option δ × σ)) :
    Option (Option δ × σ) :=
  match r with
  | none => none
  | some (some decision, s) => some (some decision, s)
  | some (none, s) => next s

/-- The loop, whose body decides with `some`; `none` when the body fails. -/
def untilDecided (body : α → σ → Option (Option δ × σ)) : List α → σ → Option (Option δ × σ)
  | [], s => some (none, s)
  | x :: xs, s => unlessDecided (body x s) (untilDecided body xs)

/-- The loop comes only to elements, and in states, of which `P` holds. -/
def Wherever (body : α → σ → Option (Option δ × σ)) (P : α → σ → Prop) : List α → σ → Prop
  | [], _ => True
  | x :: xs, s => P x s ∧ ∀ s', body x s = some (none, s') → Wherever body P xs s'

/-- Both fail, or both return the same decision in states that are related. -/
abbrev SameDecision (R : σ → τ → Prop) : Option (δ × σ) → Option (δ × τ) → Prop :=
  Option.Rel fun r r' => r.1 = r'.1 ∧ R r.2 r'.2

variable {body : α → σ → Option (Option δ × σ)} {body' : α → τ → Option (Option δ × τ)}
  {P : α → τ → Prop} {R : σ → τ → Prop} {xs : List α} {s : σ} {t : τ}

theorem wherever_of_forall (h : ∀ x ∈ xs, ∀ t, P x t) (t : τ) : Wherever body' P xs t := by
  induction xs generalizing t with
  | nil => trivial
  | cons x xs ih =>
    exact ⟨h x mem_cons_self t,
      fun t' _ => ih (fun y hy => h y (mem_cons_of_mem _ hy)) t'⟩

theorem unlessDecided_rel {r : Option (Option δ × σ)} {r' : Option (Option δ × τ)}
    {next : σ → Option (Option δ × σ)} {next' : τ → Option (Option δ × τ)}
    (h : SameDecision R r r')
    (hnext : ∀ s t, r' = some (none, t) → R s t → SameDecision R (next s) (next' t)) :
    SameDecision R (unlessDecided r next) (unlessDecided r' next') := by
  cases h with
  | none => exact .none
  | @some a a' hrel =>
    obtain ⟨decision, s⟩ := a
    obtain ⟨decision', t⟩ := a'
    obtain ⟨hdecision, hR⟩ := hrel
    obtain rfl : decision = decision' := hdecision
    cases decision with
    | none => exact hnext s t rfl hR
    | some decision => exact .some ⟨rfl, hR⟩

theorem untilDecided_rel
    (hbody : ∀ x ∈ xs, ∀ s t, R s t → P x t → SameDecision R (body x s) (body' x t))
    (hP : Wherever body' P xs t) (hR : R s t) :
    SameDecision R (untilDecided body xs s) (untilDecided body' xs t) := by
  induction xs generalizing s t with
  | nil => exact .some ⟨rfl, hR⟩
  | cons x xs ih =>
    obtain ⟨hx, hrest⟩ := hP
    refine unlessDecided_rel (hbody x mem_cons_self s t hR hx) fun s' t' ht hR' => ?_
    exact ih (fun y hy => hbody y (mem_cons_of_mem _ hy)) (hrest t' ht) hR'

end OpenAmq.Lib
