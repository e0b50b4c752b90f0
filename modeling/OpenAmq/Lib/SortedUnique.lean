import Mathlib.Data.List.Sort

/-!
# Sorting and skipping equal neighbours

A list is made duplicate free by sorting it and dropping every element that equals the
one visited just before it. `mem_sortUnique` and `nodup_sortUnique` say that nothing is
lost and nothing is left twice.
-/

namespace OpenAmq.Lib

open List

variable {α : Type*} [DecidableEq α]

/-- The elements of `xs` that differ from the one visited before, `last` for the first. -/
def skipEqual : Option α → List α → List α
  | _, [] => []
  | last, x :: xs => if last = some x then skipEqual last xs else x :: skipEqual (some x) xs

variable {xs : List α} {last : Option α} {x : α}

theorem mem_skipEqual : x ∈ skipEqual last xs → x ∈ xs := by
  induction xs generalizing last with
  | nil => intro h; simp [skipEqual] at h
  | cons y ys ih =>
    intro h
    rw [skipEqual] at h
    split at h
    · exact mem_cons_of_mem y (ih h)
    · rcases mem_cons.mp h with rfl | h
      · exact mem_cons_self
      · exact mem_cons_of_mem y (ih h)

theorem length_skipEqual_le : (skipEqual last xs).length ≤ xs.length := by
  induction xs generalizing last with
  | nil => exact Nat.le_refl _
  | cons y ys ih =>
    rw [skipEqual, length_cons]
    split
    · exact Nat.le_succ_of_le ih
    · exact Nat.succ_le_succ ih

theorem mem_skipEqual_of_mem (last : Option α) (hx : x ∈ xs) :
    x ∈ skipEqual last xs ∨ last = some x := by
  induction xs generalizing last with
  | nil => simp at hx
  | cons y ys ih =>
    rw [skipEqual]
    rcases mem_cons.mp hx with rfl | hx
    · by_cases h : last = some x
      · exact Or.inr h
      · rw [if_neg h]; exact Or.inl mem_cons_self
    · by_cases h : last = some y
      · rw [if_pos h]; exact ih last hx
      · rw [if_neg h]
        rcases ih (some y) hx with hm | he
        · exact Or.inl (mem_cons_of_mem y hm)
        · cases he; exact Or.inl mem_cons_self

section Sorted

variable [LinearOrder α]

theorem nodup_skipEqual (hs : xs.Pairwise (· ≤ ·)) (hl : ∀ y, last = some y → ∀ x ∈ xs, y ≤ x) :
    (skipEqual last xs).Nodup ∧ ∀ y, last = some y → y ∉ skipEqual last xs := by
  induction xs generalizing last with
  | nil => simp [skipEqual]
  | cons x xs ih =>
    obtain ⟨hx, hs'⟩ := pairwise_cons.mp hs
    rw [skipEqual]
    by_cases h : last = some x
    · rw [if_pos h]
      exact ih hs' fun y hy z hz => hl y hy z (mem_cons_of_mem x hz)
    · rw [if_neg h]
      have hle : ∀ y, some x = some y → ∀ z ∈ xs, y ≤ z := fun y hy z hz => by
        cases hy; exact hx z hz
      obtain ⟨hnd, hlast⟩ := ih hs' hle
      refine ⟨nodup_cons.mpr ⟨hlast x rfl, hnd⟩, ?_⟩
      intro y hy hmem
      have hyx : y ≤ x := hl y hy x mem_cons_self
      rcases mem_cons.mp hmem with rfl | hmem
      · exact h hy
      · have hxy : x ≤ y := hx y (mem_skipEqual hmem)
        exact h (by rw [hy, le_antisymm hyx hxy])

/-- `xs` sorted, every value once. -/
def sortUnique (xs : List α) : List α :=
  skipEqual none (xs.insertionSort (· ≤ ·))

theorem length_sortUnique_le : (sortUnique xs).length ≤ xs.length := by
  have h : (sortUnique xs).length ≤ (xs.insertionSort (· ≤ ·)).length := length_skipEqual_le
  rw [length_insertionSort] at h
  exact h

theorem mem_sortUnique : x ∈ sortUnique xs ↔ x ∈ xs := by
  constructor
  · intro h
    exact (perm_insertionSort (· ≤ ·) xs).mem_iff.mp (mem_skipEqual h)
  · intro h
    have hs := (perm_insertionSort (· ≤ ·) xs).mem_iff.mpr h
    rcases mem_skipEqual_of_mem none hs with h | h
    · exact h
    · cases h

theorem nodup_sortUnique (xs : List α) : (sortUnique xs).Nodup :=
  (nodup_skipEqual (pairwise_insertionSort (· ≤ ·) xs) (by simp)).1

end Sorted

end OpenAmq.Lib
