import Mathlib.Data.List.Induction

/-!
# Queues that overflow

A queue in front of a reader, with a policy for what comes in when it is full.

* `Policy.push` — one more entry
* `Fifo` — what has been given to the reader, and the queue
* `length_queue_le`, `given_sublist`, `given_eq_puts` — the queue does not grow too long, the
  reader gets the entries in their order, and all of them where nothing goes
-/

namespace OpenAmq.Lib

open List

/-- What goes when the queue is full: nothing, the oldest entry, or the new one. -/
inductive Policy where
  | keep
  | trim
  | drop
deriving DecidableEq

variable {α : Type*}

def Policy.push (policy : Policy) (capacity : Nat) (queue : List α) (entry : α) : List α :=
  if queue.length = capacity then
    match policy with
    | .keep => queue ++ [entry]
    | .trim => queue.tail ++ [entry]
    | .drop => queue
  else queue ++ [entry]

/-- Something is put into the queue, or the reader takes its first entry. -/
inductive QueueOp (α : Type*) where
  | put (entry : α)
  | take

/-- What the reader has got, oldest first, and what it can still get. -/
structure Fifo (α : Type*) where
  given : List α := []
  queue : List α := []

namespace Fifo

variable {policy : Policy} {capacity : Nat}

def op (policy : Policy) (capacity : Nat) (t : Fifo α) : QueueOp α → Fifo α
  | .put entry => { t with queue := policy.push capacity t.queue entry }
  | .take => ⟨t.given ++ t.queue.head?.toList, t.queue.tail⟩

/-- The entries that are put in, in their order. -/
def puts (ops : List (QueueOp α)) : List α :=
  ops.filterMap fun
    | .put entry => some entry
    | .take => none

def after (policy : Policy) (capacity : Nat) (ops : List (QueueOp α)) : Fifo α :=
  ops.foldl (op policy capacity) {}

/-! ## One more entry -/

variable (queue : List α) (ops : List (QueueOp α))

theorem push_keep (entry : α) : Policy.keep.push capacity queue entry = queue ++ [entry] := by
  unfold Policy.push
  split <;> rfl

theorem push_sublist (entry : α) :
    (policy.push capacity queue entry).Sublist (queue ++ [entry]) := by
  unfold Policy.push
  split
  · cases policy with
    | keep => exact .refl _
    | trim => exact (tail_sublist queue).append_right _
    | drop => exact sublist_append_left queue [entry]
  · exact .refl _

theorem length_le_push (entry : α) : queue.length ≤ (policy.push capacity queue entry).length := by
  unfold Policy.push
  split
  · cases policy with
    | keep => exact (sublist_append_left queue [entry]).length_le
    | trim =>
      rw [length_append, length_tail, length_singleton]
      omega
    | drop => exact Nat.le_refl _
  · exact (sublist_append_left queue [entry]).length_le

theorem length_push_le (hpolicy : policy ≠ .keep) (hcapacity : 0 < capacity) {queue : List α}
    (h : queue.length ≤ capacity) (entry : α) :
    (policy.push capacity queue entry).length ≤ capacity := by
  unfold Policy.push
  split
  · next hfull =>
    cases policy with
    | keep => exact absurd rfl hpolicy
    | trim =>
      rw [length_append, length_tail, length_singleton]
      omega
    | drop => exact h
  · rw [length_append, length_singleton]
    omega

/-! ## Many operations -/

theorem length_queue_op_le (hpolicy : policy ≠ .keep) (hcapacity : 0 < capacity) {t : Fifo α}
    (h : t.queue.length ≤ capacity) (o : QueueOp α) :
    (op policy capacity t o).queue.length ≤ capacity := by
  cases o with
  | put entry => exact length_push_le hpolicy hcapacity h entry
  | take =>
    show t.queue.tail.length ≤ capacity
    rw [length_tail]
    exact Nat.le_trans (Nat.sub_le _ _) h

theorem after_concat (o : QueueOp α) :
    after policy capacity (ops ++ [o]) = op policy capacity (after policy capacity ops) o := by
  rw [after, foldl_append]
  rfl

theorem given_append_op_take (t : Fifo α) :
    (op policy capacity t .take).given ++ (op policy capacity t .take).queue =
      t.given ++ t.queue := by
  show t.given ++ t.queue.head?.toList ++ t.queue.tail = t.given ++ t.queue
  rw [append_assoc]
  cases t.queue <;> rfl

theorem puts_concat (o : QueueOp α) : puts (ops ++ [o]) = puts ops ++ puts [o] := filterMap_append

theorem length_queue_le (hpolicy : policy ≠ .keep) (hcapacity : 0 < capacity)
    (ops : List (QueueOp α)) : (after policy capacity ops).queue.length ≤ capacity := by
  induction ops using reverseRecOn with
  | nil => exact Nat.zero_le _
  | append_singleton ops o ih =>
    rw [after_concat]
    exact length_queue_op_le hpolicy hcapacity ih o

theorem given_sublist :
    ((after policy capacity ops).given ++ (after policy capacity ops).queue).Sublist
      (puts ops) := by
  induction ops using reverseRecOn with
  | nil => exact .refl _
  | append_singleton ops o ih =>
    rw [after_concat, puts_concat]
    cases o with
    | put entry =>
      show ((after policy capacity ops).given ++
        policy.push capacity (after policy capacity ops).queue entry).Sublist _
      refine ((push_sublist _ entry).append_left _).trans ?_
      rw [← append_assoc]
      exact ih.append_right [entry]
    | take =>
      rw [given_append_op_take]
      exact ih.trans (sublist_append_left _ _)

theorem given_eq_puts :
    (after .keep capacity ops).given ++ (after .keep capacity ops).queue = puts ops := by
  induction ops using reverseRecOn with
  | nil => rfl
  | append_singleton ops o ih =>
    rw [after_concat, puts_concat]
    cases o with
    | put entry =>
      show (after .keep capacity ops).given ++
        Policy.keep.push capacity (after .keep capacity ops).queue entry = _
      rw [push_keep, ← append_assoc, ih]
      rfl
    | take =>
      rw [given_append_op_take, ih]
      exact (append_nil _).symm

end Fifo

end OpenAmq.Lib
