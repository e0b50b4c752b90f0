import Mathlib.Algebra.BigOperators.Group.Finset.Basic
import Mathlib.Data.Finset.Card
import Mathlib.Order.Interval.Finset.Nat

/-!
# Bitmaps

A bitmap is an array of words of `w` bits each, of which bit `i` of the bitmap is bit `i % w`
of word `i / w`. This file collects what does not depend on how the words are stored.

* `wordBit` — a bit of the bitmap, and what word operations do to it
* `bits`, `card_bits` — the set of the bits that are set, counted word by word
* `IsNext`, `IsPrev` — the next number that satisfies a predicate, and the previous one
-/

namespace OpenAmq.Lib

open List

variable {w : Nat}

/-! ## The bits of a bitmap -/

/-- Bit `i` of the bitmap. -/
def wordBit (data : Nat → BitVec w) (i : Nat) : Bool :=
  (data (i / w)).getLsbD (i % w)

theorem wordBit_word (data : Nat → BitVec w) {k j : Nat} (hj : j < w) :
    wordBit data (k * w + j) = (data k).getLsbD j := by
  have hw : 0 < w := by omega
  have hdiv : (k * w + j) / w = k := by
    rw [Nat.mul_comm, Nat.mul_add_div hw, Nat.div_eq_of_lt hj, Nat.add_zero]
  have hmod : (k * w + j) % w = j := by
    rw [Nat.mul_comm, Nat.mul_add_mod, Nat.mod_eq_of_lt hj]
  rw [wordBit, hdiv, hmod]

variable {data : Nat → BitVec w} {i n : Nat}

theorem wordBit_eq_false (h : data (i / w) = 0) : wordBit data i = false := by
  simp [wordBit, h]

theorem wordBit_update {data data' : Nat → BitVec w} (hw : 0 < w) {k j : Nat} {b : Bool}
    (hj : j < w) (hother : ∀ k', k' ≠ k → data' k' = data k')
    (hword : ∀ j', j' < w → (data' k).getLsbD j' = if j' = j then b else (data k).getLsbD j')
    (i : Nat) : wordBit data' i = if i = k * w + j then b else wordBit data i := by
  have hmod : i % w < w := Nat.mod_lt _ hw
  have hi := Nat.div_add_mod i w
  by_cases hk : i / w = k
  · rw [wordBit, hk, hword _ hmod]
    rw [hk, Nat.mul_comm] at hi
    have hiff : i % w = j ↔ i = k * w + j := by
      constructor
      · intro h
        omega
      · intro h
        omega
    by_cases h : i % w = j
    · rw [if_pos h, if_pos (hiff.mp h)]
    · rw [if_neg h, if_neg (mt hiff.mpr h), wordBit, hk]
  · have hne : i ≠ k * w + j := by
      rintro rfl
      refine hk ?_
      rw [Nat.mul_comm, Nat.mul_add_div hw, Nat.div_eq_of_lt hj, Nat.add_zero]
    rw [wordBit, hother _ hk, if_neg hne, wordBit]

/-- What holds of all entries of a table is true of a place in it. -/
theorem forall_getD {α : Type*} {table : List α} {P : Nat → α → Prop} {m : Nat} (d : α)
    (hn : n < m) (h : table.length = m ∧ ∀ p ∈ table.zipIdx, P p.2 p.1) :
    P n (table.getD n d) := by
  have hlt : n < table.length := h.1 ▸ hn
  rw [List.getD_eq_getElem?_getD, getElem?_eq_getElem hlt]
  exact h.2 (table[n], n) (mem_zipIdx_iff_getElem?.mpr (getElem?_eq_getElem hlt))

/-! ## Counting -/

/-- The bits below `n` that are set. -/
def bits (data : Nat → BitVec w) (n : Nat) : Finset Nat :=
  (Finset.range n).filter fun i => wordBit data i

theorem mem_bits : i ∈ bits data n ↔ i < n ∧ wordBit data i := by
  simp [bits]

/-- The number of bits that are set in a word. -/
def popCount (x : BitVec w) : Nat :=
  ((Finset.range w).filter fun j => x.getLsbD j).card

theorem card_bits_succ (data : Nat → BitVec w) (k : Nat) :
    (bits data ((k + 1) * w)).card = (bits data (k * w)).card + popCount (data k) := by
  have hsplit : bits data ((k + 1) * w) = (bits data (k * w)).disjUnion
        (((Finset.range w).filter fun j => (data k).getLsbD j).map (addLeftEmbedding (k * w)))
        (by
          rw [Finset.disjoint_left]
          intro i hi hmap
          obtain ⟨j, -, rfl⟩ := Finset.mem_map.mp hmap
          have hlt := (mem_bits.mp hi).1
          change k * w + j < k * w at hlt
          omega) := by
    ext i
    rw [Finset.mem_disjUnion, mem_bits, mem_bits, Finset.mem_map, Nat.succ_mul]
    constructor
    · rintro ⟨hlt, hbit⟩
      by_cases h : i < k * w
      · exact .inl ⟨h, hbit⟩
      · refine .inr ⟨i - k * w, ?_, ?_⟩
        · rw [Finset.mem_filter, Finset.mem_range, ← wordBit_word data (k := k) (by omega),
            Nat.add_sub_cancel' (by omega)]
          exact ⟨by omega, hbit⟩
        · show k * w + (i - k * w) = i
          omega
    · rintro (⟨hlt, hbit⟩ | ⟨j, hj, rfl⟩)
      · exact ⟨by omega, hbit⟩
      · rw [Finset.mem_filter, Finset.mem_range] at hj
        show k * w + j < k * w + w ∧ wordBit data (k * w + j)
        rw [wordBit_word data hj.1]
        exact ⟨by omega, hj.2⟩
  rw [hsplit, Finset.card_disjUnion, Finset.card_map]
  rfl

/-! ## From one number to the next -/

/-- `r` is the least number above `i` that satisfies `P`, or `none` if there is none. -/
def IsNext (P : Nat → Prop) (i : Nat) : Option Nat → Prop
  | none => ∀ j, i < j → ¬ P j
  | some j => i < j ∧ P j ∧ ∀ k, i < k → k < j → ¬ P k

/-- `r` is the greatest number below `i` that satisfies `P`, or `none` if there is none. -/
def IsPrev (P : Nat → Prop) (i : Nat) : Option Nat → Prop
  | none => ∀ j, j < i → ¬ P j
  | some j => j < i ∧ P j ∧ ∀ k, j < k → k < i → ¬ P k

/--
The numbers met on the way from `i`, with `next` for the one that follows.

`none` when `next` fails on the way, and when `fuel` numbers are not all.
-/
def follow (next : Nat → Option (Option Nat)) : (fuel : Nat) → (i : Nat) → Option (List Nat)
  | 0, _ => none
  | fuel + 1, i =>
    (next i).bind fun
      | none => some [i]
      | some j => (follow next fuel j).map (i :: ·)

theorem follow_spec {P : Nat → Prop} {next : Nat → Option (Option Nat)} (hP : ∀ j, P j → j < n)
    (hnext : ∀ i, P i → ∃ r, next i = some r ∧ IsNext P i r) {fuel : Nat} (hi : P i)
    (hfuel : n ≤ i + fuel) :
    ∃ l, follow next fuel i = some l ∧ l.Pairwise (· < ·) ∧ ∀ j, j ∈ l ↔ P j ∧ i ≤ j := by
  induction fuel generalizing i with
  | zero =>
    have hlt := hP i hi
    omega
  | succ fuel ih =>
    obtain ⟨r, hr, hspec⟩ := hnext i hi
    rw [follow, hr]
    cases r with
    | none =>
      refine ⟨[i], rfl, pairwise_singleton _ _, fun j => ?_⟩
      rw [mem_singleton]
      constructor
      · rintro rfl
        exact ⟨hi, le_rfl⟩
      · rintro ⟨hj, hle⟩
        rcases Nat.eq_or_lt_of_le hle with rfl | hlt
        · rfl
        · exact absurd hj (hspec j hlt)
    | some k =>
      obtain ⟨hik, hk, hbetween⟩ := hspec
      obtain ⟨l, hl, hsorted, hmem⟩ := ih hk (by omega)
      refine ⟨i :: l, ?_, ?_, fun j => ?_⟩
      · show (follow next fuel k).map (i :: ·) = some (i :: l)
        rw [hl]
        rfl
      · refine pairwise_cons.mpr ⟨fun j hj => ?_, hsorted⟩
        have hkj := ((hmem j).mp hj).2
        omega
      · rw [mem_cons, hmem]
        constructor
        · rintro (rfl | ⟨hj, hkj⟩)
          · exact ⟨hi, le_rfl⟩
          · exact ⟨hj, by omega⟩
        · rintro ⟨hj, hij⟩
          rcases Nat.eq_or_lt_of_le hij with rfl | hlt
          · exact .inl rfl
          · refine .inr ⟨hj, Nat.le_of_not_lt fun hjk => ?_⟩
            exact hbetween j hlt hjk hj

theorem follow_eq_none {P : Nat → Prop} {next : Nat → Option (Option Nat)}
    (hnext : ∀ i, P i → next i = none ∨ ∃ j, next i = some (some j) ∧ P j) {fuel : Nat} (hi : P i) :
    follow next fuel i = none := by
  induction fuel generalizing i with
  | zero => rfl
  | succ fuel ih =>
    rw [follow]
    rcases hnext i hi with h | ⟨j, h, hj⟩
    · rw [h]
      rfl
    · rw [h]
      show (follow next fuel j).map (i :: ·) = none
      rw [ih hj]
      rfl

end OpenAmq.Lib
