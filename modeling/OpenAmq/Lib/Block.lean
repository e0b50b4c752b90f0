import Mathlib.Data.List.Range

/-!
# Blocks of memory

A block is a function from offsets to what is stored there.

* `readBlock`, `writeBlock`
* `readBlock_writeBlock`, `readBlock_writeBlock_of_le` — what is read after a write
-/

namespace OpenAmq.Lib

open List

variable {α : Type*}

/-- The `n` values from `start` on -/
def readBlock (block : Nat → α) (start n : Nat) : List α :=
  (range n).map fun i => block (start + i)

/-- Stores the values from `start` on. -/
def writeBlock (block : Nat → α) (start : Nat) (values : List α) : Nat → α := fun i =>
  if start ≤ i then values[i - start]?.getD (block i) else block i

variable {block block' : Nat → α} {start n : Nat} {values : List α}

@[simp] theorem length_readBlock (block : Nat → α) (start n : Nat) :
    (readBlock block start n).length = n := by
  simp [readBlock]

@[simp] theorem readBlock_zero (block : Nat → α) (start : Nat) : readBlock block start 0 = [] := rfl

theorem readBlock_add (block : Nat → α) (start m n : Nat) :
    readBlock block start (m + n) = readBlock block start m ++ readBlock block (start + m) n := by
  unfold readBlock
  rw [range_add, map_append, map_map]
  congr 1
  refine map_congr_left fun i _ => ?_
  simp [Nat.add_assoc]

theorem readBlock_congr (h : ∀ i, i < n → block' (start + i) = block (start + i)) :
    readBlock block' start n = readBlock block start n :=
  map_congr_left fun i hi => h i (mem_range.mp hi)

theorem readBlock_writeBlock (block : Nat → α) (start : Nat) (values : List α) :
    readBlock (writeBlock block start values) start values.length = values := by
  refine ext_getElem (length_readBlock _ _ _) fun i _ hi => ?_
  simp [readBlock, writeBlock, hi]

theorem readBlock_writeBlock_of_le {start' : Nat} (h : start' + n ≤ start) :
    readBlock (writeBlock block start values) start' n = readBlock block start' n := by
  refine readBlock_congr fun i hi => ?_
  unfold writeBlock
  rw [if_neg (by omega)]

end OpenAmq.Lib
