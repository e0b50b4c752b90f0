import Mathlib.Data.Nat.Init
import Mathlib.Logic.Basic

/-!
# Loops with fuel

A loop that need not end is a function of the fuel that it is given. It returns what all runs with
enough fuel return, and does not return when there is no such value.

* `Settles` — what a computation returns, given enough fuel
* `limit` — that value, `none` where there is none
-/

namespace OpenAmq.Lib

variable {α β : Type*}

/-- Given enough fuel, the computation returns `a`. -/
def Settles (f : Nat → Option α) (a : α) : Prop := ∃ n, ∀ m, n ≤ m → f m = some a

variable {f : Nat → Option α} {a : α}

theorem Settles.of_add (n : Nat) (h : ∀ k, f (k + n) = some a) : Settles f a := by
  refine ⟨n, fun m hm => ?_⟩
  obtain ⟨k, rfl⟩ := Nat.exists_eq_add_of_le' hm
  exact h k

theorem Settles.of_forall (h : ∀ n, f n = some a) : Settles f a :=
  ⟨0, fun m _ => h m⟩

theorem Settles.unique {b : α} (ha : Settles f a) (hb : Settles f b) : a = b := by
  obtain ⟨n, hn⟩ := ha
  obtain ⟨m, hm⟩ := hb
  have h := (hn (max n m) (Nat.le_max_left n m)).symm.trans (hm (max n m) (Nat.le_max_right n m))
  exact Option.some.inj h

theorem Settles.bind {g : Nat → α → Option β} {b : β} (hf : Settles f a) (hg : Settles (g · a) b) :
    Settles (fun n => (f n).bind (g n)) b := by
  obtain ⟨n, hn⟩ := hf
  obtain ⟨m, hm⟩ := hg
  refine ⟨max n m, fun k hk => ?_⟩
  simp only [hn k (by omega), Option.bind_some]
  exact hm k (by omega)

theorem Settles.map (hf : Settles f a) (g : α → β) : Settles (fun n => (f n).map g) (g a) := by
  obtain ⟨n, hn⟩ := hf
  exact ⟨n, fun m hm => by simp only [hn m hm, Option.map_some]⟩

theorem Settles.succ {g : Nat → Option α} (hf : Settles f a) (h : ∀ n, g (n + 1) = f n) :
    Settles g a := by
  obtain ⟨n, hn⟩ := hf
  refine ⟨n + 1, fun m hm => ?_⟩
  obtain ⟨k, rfl⟩ : ∃ k, m = k + 1 := ⟨m - 1, by omega⟩
  rw [h]
  exact hn k (by omega)

open Classical in
/-- What the computation returns, if it does -/
noncomputable def limit (f : Nat → Option α) : Option α :=
  if h : ∃ a, Settles f a then some h.choose else none

theorem limit_eq_some : limit f = some a ↔ Settles f a := by
  unfold limit
  constructor
  · intro h
    split at h
    · next hex =>
      cases h
      exact hex.choose_spec
    · cases h
  · intro h
    have hex : ∃ a, Settles f a := ⟨a, h⟩
    rw [dif_pos hex, hex.choose_spec.unique h]

theorem limit_eq_none (n : Nat) (h : ∀ m, n ≤ m → f m = none) : limit f = none := by
  rw [Option.eq_none_iff_forall_ne_some]
  intro a ha
  obtain ⟨m, hm⟩ := limit_eq_some.mp ha
  cases (h (max n m) (Nat.le_max_left n m)).symm.trans (hm (max n m) (Nat.le_max_right n m))

end OpenAmq.Lib
