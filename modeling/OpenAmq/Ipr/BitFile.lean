import OpenAmq.Ipr.Bits
import OpenAmq.Lib.Octets

/-!
# Bit strings in a file

`ipr_bits_fput` writes the size of a bit string and its octets, `ipr_bits_fget` reads them into
another one. How many octets is a `sizeof` of the pointer to them, and not of the array.

* `fput`, `fget` — the two methods, with the value of `sizeof (self->data)` as a parameter
* `SameElements` — what a bit string that was read should have in common with the one written
* `fget_fput_iff` — it has, as long as the octets that were not written are the same already
-/

namespace OpenAmq

open OpenAmq.Lib List

namespace BitString

/-- `ipr_bits_fput`: what is written to the file. -/
def fput (sizeofData : Nat) (self : BitString) : List UInt8 :=
  bigEndian 4 self.size ++ (range sizeofData).map fun i => UInt8.ofBitVec (self.data i)

/-- `ipr_bits_fget`, with the octets from the position in the file onwards. -/
def fget (sizeofData : Nat) (self : BitString) (file : List UInt8) : BitString :=
  match readBigEndian 4 file with
  | none => self
  | some (netSize, file) =>
    -- octets that were read are stored, also when there are too few of them
    { size := if 0 < sizeofData ∧ sizeofData ≤ file.length then netSize else self.size
      data := fun i =>
        if i < sizeofData then (file[i]?).elim (self.data i) UInt8.toBitVec else self.data i }

/-- Two bit strings cannot be told apart by what they contain. -/
structure SameElements (b c : BitString) : Prop where
  test : ∀ index : ObjectNbr, b.test index.val = c.test index.val
  ones : b.ones = c.ones
  elements : b.elements = c.elements

/-! ## What the methods look at -/

/-- The sizes and the octets of the arrays are the same. -/
def Same (b c : BitString) : Prop :=
  b.size = c.size ∧ ∀ i, i < iprBitsSize → b.data i = c.data i

variable {b c : BitString}

theorem Same.test_eq (h : b.Same c) (index : Nat) : b.test index = c.test index := by
  rw [test, test]
  by_cases hi : index < iprBitsSizeBits
  · rw [if_pos hi, if_pos hi, h.2 _ (bits_div_eight.mp hi)]
  · rw [if_neg hi, if_neg hi]

theorem Same.count_eq (h : b.Same c) : ∀ {n : Nat}, n ≤ iprBitsSize →
    ones.count b n = ones.count c n := by
  intro n
  induction n with
  | zero => exact fun _ => rfl
  | succ n ih =>
    intro hn
    rw [ones.count, ones.count, ih (Nat.le_of_succ_le hn), h.2 n hn]

theorem Same.ones_eq (h : b.Same c) : b.ones = c.ones := by
  rw [ones, ones, ← h.1]
  by_cases hsize : b.size ≤ iprBitsSize
  · rw [if_pos hsize, if_pos hsize, h.count_eq hsize]
  · rw [if_neg hsize, if_neg hsize]

theorem Same.scan_eq (h : b.Same c) : ∀ {left byteNbr : Nat} {curByte : BitVec 8},
    b.scan left byteNbr curByte = c.scan left byteNbr curByte := by
  intro left
  induction left with
  | zero => exact fun {_ _} => rfl
  | succ left ih =>
    intro byteNbr curByte
    rw [scan, scan]
    by_cases hnext : byteNbr + 1 < iprBitsSize
    · rw [if_pos hnext, if_pos hnext, h.2 _ hnext, ih]
    · rw [if_neg hnext, if_neg hnext]

theorem Same.next_eq (h : b.Same c) : b.next = c.next := by
  funext index
  rw [next, next]
  by_cases hi : index < iprBitsSizeBits
  · rw [if_pos hi, if_pos hi, h.1, h.2 _ (bits_div_eight.mp hi), h.scan_eq]
  · rw [if_neg hi, if_neg hi]

theorem Same.elements_eq (h : b.Same c) : b.elements = c.elements := by
  rw [elements, elements, first, first, h.test_eq, h.next_eq]

theorem Same.sameElements (h : b.Same c) : b.SameElements c where
  test index := h.test_eq index.val
  ones := h.ones_eq
  elements := h.elements_eq

theorem SameElements.data_eq (h : b.SameElements c) {i : Nat} (hi : i < iprBitsSize) :
    b.data i = c.data i := by
  refine BitVec.eq_of_getLsbD_eq fun j hj => ?_
  have hindex : i * 8 + j < iprBitsSizeBits := bits_div_eight.mpr (by omega)
  have htest := h.test ⟨i * 8 + j, hindex⟩
  rw [BitString.test_eq b hindex, BitString.test_eq c hindex, Option.some.injEq,
    wordBit_word _ hj, wordBit_word _ hj] at htest
  exact htest

/-! ## Through a file -/

variable {sizeofData : Nat}

theorem fget_fput (hpos : 0 < sizeofData) (hsize : b.size < 2 ^ 32) :
    c.fget sizeofData (b.fput sizeofData) =
      ⟨b.size, fun i => if i < sizeofData then b.data i else c.data i⟩ := by
  have hword : b.size % wordSize 4 = b.size := Nat.mod_eq_of_lt hsize
  rw [fget, fput, readBigEndian_bigEndian, hword]
  simp only [length_map, length_range, hpos, Nat.le_refl, and_self, if_true]
  congr 1
  funext i
  by_cases hi : i < sizeofData
  · simp [hi]
  · rw [if_neg hi, if_neg hi]

/--
What is read back contains what was written exactly when the target held the same octets from
`sizeof (self->data)` onwards.
-/
theorem fget_fput_iff (b c : BitString) (sizeofData : Nat) (hpos : 0 < sizeofData)
    (hsize : b.size < 2 ^ 32) :
    (c.fget sizeofData (b.fput sizeofData)).SameElements b ↔
      ∀ i, sizeofData ≤ i → i < iprBitsSize → c.data i = b.data i := by
  rw [fget_fput hpos hsize]
  constructor
  · intro h i hle hi
    have hdata := h.data_eq hi
    simp only [if_neg (Nat.not_lt.mpr hle)] at hdata
    exact hdata
  · intro h
    have hsame : Same ⟨b.size, fun i => if i < sizeofData then b.data i else c.data i⟩ b := by
      refine ⟨rfl, fun i hi => ?_⟩
      by_cases hlt : i < sizeofData
      · simp [hlt]
      · simp [hlt, h i (Nat.le_of_not_lt hlt) hi]
    exact hsame.sameElements

def single (byteNbr : Nat) : BitString :=
  ⟨byteNbr + 1, fun i => if i = byteNbr then 1 else 0⟩

/-- Eight octets are enough for the first bit. -/
theorem fget_fput_iff_sample : (new.fget 8 ((single 0).fput 8)).SameElements (single 0) := by
  refine (fget_fput_iff (single 0) new 8 (by decide) (by decide)).mpr ?_
  intro i hle _
  show (0 : BitVec 8) = if i = 0 then 1 else 0
  rw [if_neg (by omega)]

/-- With pointers of eight octets, bit 64 is lost. -/
theorem fget_fput_loses_bit : (single 8).test 64 = some true ∧
      (new.fget 8 ((single 8).fput 8)).test 64 = some false ∧
      ¬ (new.fget 8 ((single 8).fput 8)).SameElements (single 8) := by
  have hwritten : (single 8).test 64 = some true := by decide
  have hread : (new.fget 8 ((single 8).fput 8)).test 64 = some false := by
    decide
  refine ⟨hwritten, hread, fun h => ?_⟩
  have htest := h.test ⟨64, by decide⟩
  cases htest

end BitString

end OpenAmq
