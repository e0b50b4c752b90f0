import Mathlib.Data.List.Basic

/-!
# Transducers

A transducer reads a list from the left, in a state, and writes a list for each element that it
reads. At the end it writes what the state still holds.

* `after` — the state after a list
* `emitted`, `output` — what has been written, without and with what the state still holds
* `Outputs` — a relation between the outputs of two transducers with the same states
-/

namespace OpenAmq.Lib

open List

/-- A machine with states `σ` that reads an `α` and writes a list of `β`. -/
structure Transducer (σ α β : Type*) where
  next : σ → α → List β × σ
  finish : σ → List β

namespace Transducer

variable {σ α β : Type*} (T : Transducer σ α β)

def after : σ → List α → σ
  | st, [] => st
  | st, a :: l => after (T.next st a).2 l

/-- What is written while a list is read. -/
def emitted : σ → List α → List β
  | _, [] => []
  | st, a :: l => (T.next st a).1 ++ emitted (T.next st a).2 l

def output (st : σ) (l : List α) : List β := T.emitted st l ++ T.finish (T.after st l)

variable (st : σ)

@[simp] theorem output_nil : T.output st [] = T.finish st := rfl

theorem output_cons (a : α) (l : List α) :
    T.output st (a :: l) = (T.next st a).1 ++ T.output (T.next st a).2 l :=
  append_assoc _ _ _

@[simp] theorem after_append (l m : List α) : T.after st (l ++ m) = T.after (T.after st l) m := by
  induction l generalizing st with
  | nil => rfl
  | cons a l ih => exact ih _

theorem output_append (l m : List α) :
    T.output st (l ++ m) = T.emitted st l ++ T.output (T.after st l) m := by
  induction l generalizing st with
  | nil => rfl
  | cons a l ih => rw [cons_append, output_cons, ih, emitted, append_assoc, after]

/-- Where the output for the second list goes on from what the state holds, so does that for
both. -/
theorem output_append_of_finish {st : σ} {l m : List α} {out : List β}
    (h : T.output (T.after st l) m = T.finish (T.after st l) ++ out) :
    T.output st (l ++ m) = T.output st l ++ out := by
  rw [output_append, h, output, append_assoc]

theorem forall_mem_output {p : β → Prop} {good : α → Prop}
    (hnext : ∀ st a, good a → ∀ b ∈ (T.next st a).1, p b)
    (hfinish : ∀ st, ∀ b ∈ T.finish st, p b) {l : List α} (hl : ∀ a ∈ l, good a) (st : σ) :
    ∀ b ∈ T.output st l, p b := by
  induction l generalizing st with
  | nil => exact hfinish st
  | cons a l ih =>
    intro b hb
    rw [output_cons] at hb
    rcases mem_append.mp hb with hb | hb
    · exact hnext st a (hl a mem_cons_self) b hb
    · exact ih (fun d hd => hl d (mem_cons_of_mem _ hd)) _ b hb

end Transducer

end OpenAmq.Lib
