import Mathlib.Order.Fin.Basic
import Mathlib.Tactic.Tauto
import OpenAmq.Icl

/-!
# iPR bit strings, object indices and regular expressions

* `Bits` — `ipr_bits`, a bitmap of `iprBitsSizeBits` bits
* `ObjectIndex` — `ipr_index`, which numbers objects from 1 upwards
* `csafe` — the rewriting that `ipr_regexp` applies to a pattern before compiling it
-/

namespace OpenAmq

open List

/-- `IPR_BITS_SIZE`, in octets -/
def iprBitsSize : Nat := 16384

/-- `IPR_BITS_SIZE_BITS`, which is also `IPR_INDEX_MAX` -/
def iprBitsSizeBits : Nat := iprBitsSize * 8

/-- The number of an object in an `ipr_index`, and of its bit in an `ipr_bits`. -/
abbrev ObjectNbr := Fin iprBitsSizeBits

/-! ## Bit strings -/

/-- The bits that are set, in ascending order. -/
structure Bits where
  ones : List ObjectNbr
  sorted : ones.Pairwise (· < ·)
deriving DecidableEq

variable {index : ObjectNbr}

namespace Bits

/-- `ipr_bits_new` -/
def new : Bits := ⟨[], List.Pairwise.nil⟩

def insertBit (index : ObjectNbr) : List ObjectNbr → List ObjectNbr
  | [] => [index]
  | i :: is =>
    if index < i then index :: i :: is
    else if index = i then i :: is
    else i :: insertBit index is

variable {j : ObjectNbr}

theorem mem_insertBit {is : List ObjectNbr} : j ∈ insertBit index is ↔ j = index ∨ j ∈ is := by
  induction is with
  | nil => simp [insertBit]
  | cons i is ih =>
    rw [insertBit]
    split
    · simp
    · split
      · next h =>
        subst h
        simp
      · simp only [mem_cons, ih]
        tauto

theorem insertBit_sorted {is : List ObjectNbr} (h : is.Pairwise (· < ·)) :
    (insertBit index is).Pairwise (· < ·) := by
  induction is with
  | nil => simp [insertBit]
  | cons i is ih =>
    obtain ⟨hi, his⟩ := pairwise_cons.mp h
    rw [insertBit]
    split
    · next hlt =>
      refine pairwise_cons.mpr ⟨?_, h⟩
      intro j hj
      rcases mem_cons.mp hj with rfl | hj
      · exact hlt
      · exact lt_trans hlt (hi j hj)
    · next hnlt =>
      split
      · exact h
      · next hne =>
        refine pairwise_cons.mpr ⟨?_, ih his⟩
        intro j hj
        rcases mem_insertBit.mp hj with rfl | hj
        · exact lt_of_le_of_ne (not_lt.mp hnlt) (Ne.symm hne)
        · exact hi j hj

/-- `ipr_bits_set` -/
def set (self : Bits) (index : ObjectNbr) : Bits :=
  ⟨insertBit index self.ones, insertBit_sorted self.sorted⟩

@[simp] theorem mem_ones_new : j ∉ new.ones := by simp [new]

@[simp] theorem mem_ones_set {self : Bits} :
    j ∈ (self.set index).ones ↔ j = index ∨ j ∈ self.ones :=
  mem_insertBit

theorem nodup_ones (self : Bits) : self.ones.Nodup :=
  self.sorted.imp fun h => ne_of_lt h

/--
The bits met by a loop `ipr_bits_first` … `ipr_bits_next` until -1.

`ipr_bits_next` looks at one octet after the last one in use. When the last octet of the
bitmap is in use this is no longer inside `real_data`, and what the loop meets is not
determined.
-/
def scan (self : Bits) : Option (List ObjectNbr) :=
  if self.ones.all fun i => decide (i.val < iprBitsSizeBits - 8) then some self.ones else none

theorem scan_eq_some {self : Bits} (h : ∀ i ∈ self.ones, i.val < iprBitsSizeBits - 8) :
    self.scan = some self.ones := by
  unfold scan
  rw [if_pos]
  rw [all_eq_true]
  intro i hi
  exact decide_eq_true (h i hi)

end Bits

/-! ## Object indices -/

/-- `ipr_index`: the objects, by the address of each. -/
structure ObjectIndex where
  size : Nat
  data : Nat → Option Nat

namespace ObjectIndex

/-- `ipr_index_new` -/
def new : ObjectIndex := ⟨0, fun _ => none⟩

/--
The first free entry from `hash_index` upwards, 0 when there is none.

`fuel` is the number of entries left before the end of the table. Entry 0 is never in use,
so the search stops there when it wraps around.
-/
def probe (data : Nat → Option Nat) : (fuel : Nat) → (hashIndex : Nat) → Nat
  | 0, _ => 0
  | fuel + 1, hashIndex =>
    if (data hashIndex).isSome then probe data fuel (hashIndex + 1) else hashIndex

/-- `hash_range`: the variable part of the table that an insertion hashes across. -/
def hashRange (self : ObjectIndex) : Nat :=
  if self.size * 2 > iprBitsSizeBits then iprBitsSizeBits
  else if self.size * 2 < 16 then 16
  else self.size * 2

/-- The entry at which the search for a free one starts. -/
def hashIndex (self : ObjectIndex) (object : Nat) : Nat :=
  object % (self.hashRange - 1) + 1

/--
`ipr_index_insert`

`none` when the assertion on the size fails and when the returned index is zero, which
every caller in the broker dereferences as if the object had been indexed.
-/
def insert (self : ObjectIndex) (object : Nat) : Option (ObjectIndex × ObjectNbr) :=
  if self.size < iprBitsSizeBits then
    let start := self.hashIndex object
    let index := probe self.data (iprBitsSizeBits - start) start
    if h : 0 < index ∧ index < iprBitsSizeBits then
      some (⟨self.size + 1, fun i => if i = index then some object else self.data i⟩, ⟨index, h.2⟩)
    else none
  else none

/-- `ipr_index_delete` -/
def delete (self : ObjectIndex) (index : ObjectNbr) : ObjectIndex :=
  if self.size > 0 then
    ⟨self.size - 1, fun i => if i = index.val then none else self.data i⟩
  else self

theorem probe_free {data : Nat → Option Nat} {fuel start : Nat}
    (h : 0 < probe data fuel start) : data (probe data fuel start) = none := by
  induction fuel generalizing start with
  | zero => simp [probe] at h
  | succ fuel ih =>
    rw [probe] at h ⊢
    split at h
    · next hs => rw [if_pos hs]; exact ih h
    · next hs => rw [if_neg hs]; simpa using hs

theorem insert_spec {self self' : ObjectIndex} {object : Nat}
    (h : self.insert object = some (self', index)) :
    0 < index.val ∧ self.data index = none ∧ self'.size = self.size + 1 ∧
      ∀ i, self'.data i = if i = index.val then some object else self.data i := by
  unfold insert at h
  split at h
  · simp only at h
    split at h
    · next hpos =>
      obtain ⟨rfl, rfl⟩ := h
      exact ⟨hpos.1, probe_free hpos.1, rfl, fun i => rfl⟩
    · cases h
  · cases h

end ObjectIndex

/-! ## Regular expressions -/

/--
`ipr_regexp_compile` with `csafe` set: a backquote stands for a backslash, and of two
backquotes the second is kept.
-/
def csafe : Str → Str
  | [] => []
  | '`' :: '`' :: cs => '\\' :: '`' :: csafe cs
  | c :: cs => (if c = '`' then '\\' else c) :: csafe cs

theorem csafe_cons_of_ne {c : Char} (h : c ≠ '`') (cs : Str) : csafe (c :: cs) = c :: csafe cs := by
  rw [csafe]
  · rw [if_neg h]
  · exact fun _ hc _ => h hc

end OpenAmq
