import Mathlib.Data.List.Basic
import Mathlib.Logic.Function.Basic

/-!
# Sunday's search for a pattern

The window of the search is lined up with the text at some position. When the pattern is not
there, the symbol right after the window says how far the window can be shifted.

* `OccursAt` — the pattern stands in the text
* `shiftTable` — the shift for each symbol, built by one loop over the pattern
* `Aligned` — the positions that the window is shifted to
* `OccursAt.shift_le` — shifting never jumps over an occurrence
-/

namespace OpenAmq.Lib

open List

variable {α : Type*}

/-- The pattern stands in the text at `i`. -/
def OccursAt (text : Nat → α) (pattern : List α) (i : Nat) : Prop :=
  ∀ k (h : k < pattern.length), text (i + k) = pattern[k]

theorem occursAt_cons {text : Nat → α} {p : α} {pattern : List α} {i : Nat} :
    OccursAt text (p :: pattern) i ↔ text i = p ∧ OccursAt text pattern (i + 1) := by
  constructor
  · intro h
    refine ⟨h 0 (Nat.succ_pos _), ?_⟩
    intro k hk
    have hk' : text (i + (k + 1)) = pattern[k] := h (k + 1) (Nat.succ_lt_succ hk)
    rwa [Nat.add_comm k 1, ← Nat.add_assoc] at hk'
  · rintro ⟨h0, h⟩ k hk
    cases k with
    | zero => exact h0
    | succ k =>
      have hk' := h k (Nat.lt_of_succ_lt_succ hk)
      rw [Nat.add_assoc, Nat.add_comm 1 k] at hk'
      exact hk'

theorem occursAt_nil {text : Nat → α} {i : Nat} : OccursAt text [] i :=
  fun _ h => absurd h (Nat.not_lt_zero _)

/--
`r` is the least position from `start` onwards at which the pattern stands in the first `size`
symbols of the text, or `none` when there is none.
-/
def Leftmost (text : Nat → α) (size start : Nat) (pattern : List α) : Option Nat → Prop
  | none => ∀ j, start ≤ j → j + pattern.length ≤ size → ¬ OccursAt text pattern j
  | some i => start ≤ i ∧ i + pattern.length ≤ size ∧ OccursAt text pattern i ∧
      ∀ j, start ≤ j → j < i → ¬ OccursAt text pattern j

/-! ## The shifts -/

variable [DecidableEq α]

/--
The loop that goes over the pattern after every entry has been set to one more than its length:
`size - k` for the last `k` at which the symbol stands.
-/
def shiftTable (size : Nat) : (k : Nat) → List α → (α → Nat) → α → Nat
  | _, [], shift => shift
  | k, p :: pattern, shift =>
    shiftTable size (k + 1) pattern (Function.update shift p (size - k))

/-- The shift when `c` comes right after the window. -/
def shift (pattern : List α) : α → Nat :=
  shiftTable pattern.length 0 pattern fun _ => pattern.length + 1

theorem shiftTable_cases (size : Nat) (c : α) : ∀ (pattern : List α) (k : Nat) (shift : α → Nat),
      (c ∉ pattern ∧ shiftTable size k pattern shift c = shift c) ∨
        ∃ i, ∃ h : i < pattern.length, pattern[i] = c ∧
          (∀ j, i < j → ∀ hj : j < pattern.length, pattern[j] ≠ c) ∧
          shiftTable size k pattern shift c = size - (k + i) := by
  intro pattern
  induction pattern with
  | nil =>
    intro k shift
    exact .inl ⟨by simp, rfl⟩
  | cons p pattern ih =>
    intro k shift
    rcases ih (k + 1) (Function.update shift p (size - k)) with
      ⟨hmem, heq⟩ | ⟨i, hi, hc, hlast, heq⟩
    · by_cases hp : p = c
      · refine .inr ⟨0, Nat.succ_pos _, hp, ?_, ?_⟩
        · intro j hj hlt hjc
          obtain ⟨j, rfl⟩ := Nat.exists_eq_add_of_lt hj
          refine hmem ?_
          rw [← hjc]
          simp
        · rw [shiftTable, heq, hp]
          simp
      · refine .inl ⟨?_, ?_⟩
        · simp only [mem_cons, not_or]
          exact ⟨fun h => hp h.symm, hmem⟩
        · rw [shiftTable, heq, Function.update_of_ne (fun h => hp h.symm)]
    · refine .inr ⟨i + 1, Nat.succ_lt_succ hi, hc, ?_, ?_⟩
      · intro j hj hlt
        obtain ⟨j, rfl⟩ := Nat.exists_eq_succ_of_ne_zero (show j ≠ 0 by omega)
        exact hlast j (Nat.lt_of_succ_lt_succ hj) (Nat.lt_of_succ_lt_succ hlt)
      · rw [shiftTable, heq]
        omega

theorem shift_bounds (pattern : List α) (c : α) :
    0 < shift pattern c ∧ shift pattern c ≤ pattern.length + 1 := by
  rcases shiftTable_cases pattern.length c pattern 0 fun _ => pattern.length + 1 with
    ⟨-, heq⟩ | ⟨i, hi, -, -, heq⟩
  · rw [shift, heq]
    exact ⟨Nat.succ_pos _, Nat.le_refl _⟩
  · rw [shift, heq]
    omega

theorem shift_pos (pattern : List α) (c : α) : 0 < shift pattern c :=
  (shift_bounds pattern c).1

theorem shift_le {pattern : List α} {c : α} {d : Nat} (hd : 0 < d) (hle : d ≤ pattern.length)
    (hc : pattern[pattern.length - d]? = some c) : shift pattern c ≤ d := by
  have hlt : pattern.length - d < pattern.length := by omega
  rw [getElem?_eq_getElem hlt] at hc
  have hat : pattern[pattern.length - d] = c := Option.some.inj hc
  rcases shiftTable_cases pattern.length c pattern 0 fun _ => pattern.length + 1 with
    ⟨hmem, -⟩ | ⟨i, hi, -, hlast, heq⟩
  · exact absurd (hat ▸ getElem_mem hlt) hmem
  · rw [shift, heq]
    rcases Nat.lt_or_ge i (pattern.length - d) with h | h
    · exact absurd hat (hlast _ h hlt)
    · omega

/-! ## Where the window goes -/

/-- The positions that the window comes to from `start`, when it is always shifted on. -/
inductive Aligned (text : Nat → α) (pattern : List α) (start : Nat) : Nat → Prop where
  | start : Aligned text pattern start start
  | shift {i : Nat} (h : Aligned text pattern start i) :
      Aligned text pattern start (i + Lib.shift pattern (text (i + pattern.length)))

variable {text : Nat → α} {pattern : List α} {start i j : Nat}

theorem Aligned.trans (h : Aligned text pattern start i) (h' : Aligned text pattern i j) :
    Aligned text pattern start j := by
  induction h' with
  | start => exact h
  | shift _ ih => exact ih.shift

theorem Aligned.le (h : Aligned text pattern start i) : start ≤ i := by
  induction h with
  | start => exact Nat.le_refl _
  | shift _ ih => exact Nat.le_trans ih (Nat.le_add_right _ _)

theorem Aligned.eq_or_shift (h : Aligned text pattern start i) : i = start ∨
      Aligned text pattern (start + Lib.shift pattern (text (start + pattern.length))) i := by
  induction h with
  | start => exact .inl rfl
  | shift _ ih =>
    rcases ih with rfl | ih
    · exact .inr .start
    · exact .inr ih.shift

theorem OccursAt.shift_le (h : OccursAt text pattern j) (hij : i < j) :
    i + shift pattern (text (i + pattern.length)) ≤ j := by
  rcases Nat.lt_or_ge (i + pattern.length) j with hfar | hnear
  · have hle := (shift_bounds pattern (text (i + pattern.length))).2
    omega
  · -- the symbol after the window stands in the occurrence
    have hpos : pattern.length - (j - i) < pattern.length := by omega
    have hc : pattern[pattern.length - (j - i)]? = some (text (i + pattern.length)) := by
      rw [getElem?_eq_getElem hpos, ← h _ hpos,
        show j + (pattern.length - (j - i)) = i + pattern.length by omega]
    have hle := Lib.shift_le (show 0 < j - i by omega) (show j - i ≤ pattern.length by omega) hc
    omega

end OpenAmq.Lib
