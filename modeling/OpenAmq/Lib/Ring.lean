import Mathlib.Data.List.Nodup
import Mathlib.GroupTheory.Perm.Basic

/-!
# Rings of nodes

Doubly linked rings: every node has a successor and a predecessor, and these are inverse to each
other. Exchanging the successors of two nodes takes a node out of its ring or puts it into
another one.

* `Path` — the way along the successors from one node to another
* `Path.reverse` — the way back along the predecessors
* `exchange`, `Inverse.exchange` — two successors exchanged, and two predecessors in step
* `Path.remove`, `Path.insert` — what an exchange makes of a path
-/

namespace OpenAmq.Lib

open List

variable {α β : Type*}

/-! ## Successors and predecessors -/

/-- `prev` leads back from where `next` leads, and the other way round. -/
structure Inverse (next prev : α → α) : Prop where
  prev_next : ∀ x, prev (next x) = x
  next_prev : ∀ x, next (prev x) = x

section Inverse

variable {next prev : α → α}

theorem inverse_id : Inverse (fun x : α => x) fun x => x where
  prev_next _ := rfl
  next_prev _ := rfl

/-- The successors as a permutation of the nodes. -/
def Inverse.perm (h : Inverse next prev) : Equiv.Perm α where
  toFun := next
  invFun := prev
  left_inv := h.prev_next
  right_inv := h.next_prev

theorem Inverse.next_eq_iff (h : Inverse next prev) {x y : α} : next x = y ↔ prev y = x := by
  constructor
  · rintro rfl
    exact h.prev_next x
  · rintro rfl
    exact h.next_prev y

end Inverse

/-! ## Paths -/

/-- The successors lead from `a` through the nodes of the list to `b`. -/
def Path (next : α → α) (a : α) : List α → α → Prop
  | [], b => next a = b
  | x :: l, b => next a = x ∧ Path next x l b

section Path

variable {next next' prev : α → α} {a a' b x y : α} {l l1 l2 : List α}

@[simp] theorem path_nil : Path next a [] b ↔ next a = b := Iff.rfl

@[simp] theorem path_cons : Path next a (x :: l) b ↔ next a = x ∧ Path next x l b := Iff.rfl

theorem path_append : Path next a (l1 ++ x :: l2) b ↔ Path next a l1 x ∧ Path next x l2 b := by
  induction l1 generalizing a with
  | nil => simp
  | cons y l1 ih => simp [ih, and_assoc]

theorem Path.congr (h : Path next a l b) (ha : next' a' = next a)
    (heq : ∀ z ∈ l, next' z = next z) : Path next' a' l b := by
  induction l generalizing a a' with
  | nil => exact ha.trans h
  | cons y l ih =>
    obtain ⟨hy, hl⟩ := h
    refine ⟨ha.trans hy, ih hl (heq y mem_cons_self) ?_⟩
    intro z hz
    exact heq z (mem_cons_of_mem y hz)

theorem Path.reverse (hinv : Inverse next prev) (h : Path next a l b) :
    Path prev b l.reverse a := by
  induction l generalizing a with
  | nil => exact hinv.next_eq_iff.mp h
  | cons y l ih =>
    obtain ⟨hy, hl⟩ := h
    rw [reverse_cons, path_append]
    exact ⟨ih hl, hinv.next_eq_iff.mp hy⟩

theorem Path.next_getLast (h : Path next a (l1 ++ x :: l2) b) :
    next ((a :: l1).getLast (cons_ne_nil a l1)) = x := by
  induction l1 generalizing a with
  | nil => exact h.1
  | cons y l1 ih => exact ih h.2

theorem Path.next_getLast_end (h : Path next a l b) :
    next ((a :: l).getLast (cons_ne_nil a l)) = b := by
  induction l generalizing a with
  | nil => exact h
  | cons y l ih => exact ih h.2

end Path

/-! ## Exchanging two values -/

variable [DecidableEq α]

/-- The function `f` with its values at `a` and `b` exchanged. -/
def exchange (f : α → β) (a b : α) : α → β :=
  Function.update (Function.update f a (f b)) b (f a)

section Exchange

variable {f : α → β} {next prev : α → α} {a b x y : α} {l l1 l2 : List α}

theorem exchange_apply : exchange f a b x = if x = b then f a else if x = a then f b else f x := by
  simp only [exchange, Function.update_apply]

theorem exchange_of_ne (ha : x ≠ a) (hb : x ≠ b) : exchange f a b x = f x := by
  simp [exchange_apply, ha, hb]

@[simp] theorem exchange_right : exchange f a b b = f a := by
  simp [exchange_apply]

@[simp] theorem exchange_left : exchange f a b a = f b := by
  by_cases h : a = b <;> simp [exchange_apply, h]

@[simp] theorem exchange_self : exchange f a a = f := by
  simp [exchange]

theorem exchange_comp_swap : exchange f a b = f ∘ Equiv.swap a b := by
  funext x
  by_cases ha : x = a
  · simp [ha]
  · by_cases hb : x = b
    · simp [hb]
    · simp [exchange_of_ne ha hb, Equiv.swap_apply_of_ne_of_ne ha hb]

/--
Where the successors of `a` and `b` are exchanged, and the predecessors of the two nodes that these
lead to, the two functions remain inverse to each other.
-/
theorem Inverse.exchange (h : Inverse next prev) {c d : α}
    (hnext : next a = c ∧ next b = d ∨ next a = d ∧ next b = c) :
    Inverse (exchange next a b) (Lib.exchange prev c d) := by
  have hswap : h.perm * Equiv.swap a b = Equiv.swap c d * h.perm := by
    rw [Equiv.mul_swap_eq_swap_mul]
    show Equiv.swap (next a) (next b) * _ = _
    rcases hnext with ⟨hc, hd⟩ | ⟨hd, hc⟩
    · rw [hc, hd]
    · rw [hc, hd, Equiv.swap_comm]
  have hpoint : ∀ x, next (Equiv.swap a b x) = Equiv.swap c d (next x) := by
    intro x
    exact Equiv.congr_fun hswap x
  have hback : ∀ x, prev (Equiv.swap c d x) = Equiv.swap a b (prev x) := by
    intro x
    rw [← h.next_eq_iff, hpoint, h.next_prev]
  refine ⟨fun x => ?_, fun x => ?_⟩
  · simp [exchange_comp_swap, hpoint, h.prev_next]
  · simp [exchange_comp_swap, hback, h.next_prev]

theorem Path.remove (h : Path next a (l1 ++ x :: l2) b) (hnd : (a :: (l1 ++ x :: l2)).Nodup) :
    Path (exchange next ((a :: l1).getLast (cons_ne_nil a l1)) x) a (l1 ++ l2) b := by
  induction l1 generalizing a with
  | nil =>
    obtain ⟨-, h⟩ := h
    refine h.congr exchange_left ?_
    intro z hz
    refine exchange_of_ne ?_ ?_
    · rintro rfl
      simp [hz] at hnd
    · rintro rfl
      simp [hz] at hnd
  | cons z l1 ih =>
    obtain ⟨hz, h⟩ := h
    obtain ⟨hnot, hnd⟩ := nodup_cons.mp hnd
    refine ⟨?_, ih h hnd⟩
    refine (exchange_of_ne ?_ ?_).trans hz
    · intro ha
      have hmem := getLast_mem (cons_ne_nil z l1)
      exact hnot (mem_append_left _ (ha.symm ▸ hmem))
    · rintro rfl
      simp at hnot

theorem Path.insert (h : Path next a (l1 ++ l2) b) (hx : next x = x)
    (hnd : (a :: (l1 ++ x :: l2)).Nodup) :
    Path (exchange next ((a :: l1).getLast (cons_ne_nil a l1)) x) a (l1 ++ x :: l2) b := by
  induction l1 generalizing a with
  | nil =>
    refine ⟨exchange_left.trans hx, h.congr exchange_right ?_⟩
    intro z hz
    rw [nil_append] at hz
    refine exchange_of_ne ?_ ?_
    · rintro rfl
      simp [hz] at hnd
    · rintro rfl
      simp [hz] at hnd
  | cons z l1 ih =>
    obtain ⟨hz, h⟩ := h
    obtain ⟨hnot, hnd⟩ := nodup_cons.mp hnd
    refine ⟨?_, ih h hnd⟩
    refine (exchange_of_ne ?_ ?_).trans hz
    · intro ha
      have hmem := getLast_mem (cons_ne_nil z l1)
      exact hnot (mem_append_left _ (ha.symm ▸ hmem))
    · rintro rfl
      simp at hnot

theorem Path.exchange_other (h : Path next a l b) (hx : x ∉ a :: l) (hy : y ∉ a :: l) :
    Path (exchange next y x) a l b := by
  have hne : ∀ z ∈ a :: l, exchange next y x z = next z := by
    intro z hz
    refine exchange_of_ne ?_ ?_
    · rintro rfl
      exact hy hz
    · rintro rfl
      exact hx hz
  exact h.congr (hne a mem_cons_self) fun z hz => hne z (mem_cons_of_mem a hz)

end Exchange

/-! ## Walks -/

/-- The items that a cursor meets, one after the other, until it comes to an end. -/
def walk (next : α → Option α) : (fuel : Nat) → Option α → Option (List α)
  | 0, _ => none
  | _ + 1, none => some []
  | fuel + 1, some x => (walk next fuel (next x)).map (x :: ·)

end OpenAmq.Lib
