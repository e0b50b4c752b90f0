import Mathlib.Data.Finset.BooleanAlgebra
import Mathlib.Data.Finset.Sort
import OpenAmq.Ipr
import OpenAmq.Lib.Bitmap
import OpenAmq.Lib.Run

/-!
# Bit strings, octet by octet

`Bits` is what the rest of the program sees of `ipr_bits`: its elements in ascending order.
Here is the object itself, with its octets and the lazily raised `size`.

* `BitString` — `ipr_bits`, and its methods
* `setStep` — the operations on sets that they stand for
* `Holds` — the set a bit string stands for, which every operation keeps but one
* `run_isSet_iff` — a bit string is a set as long as only empty ones are reset
* `holds_elements_iff` — its elements can be enumerated until the last octet is in use
-/

namespace OpenAmq

open OpenAmq.Lib Function Option List

/-- `ipr_bits`: the number of octets in use and the octets, of which there are `iprBitsSize`. -/
structure BitString where
  size : Nat
  data : Nat → BitVec 8

namespace BitString

/-- `ipr_bits_new` -/
def new : BitString := ⟨0, fun _ => 0⟩

/-! ## Lookup tables -/

/-- How many bits are set in a given number -/
def sBitCount (x : BitVec 8) : Nat :=
  [0, 1, 1, 2, 1, 2, 2, 3, 1, 2, 2, 3, 2, 3, 3, 4, 1, 2, 2, 3, 2, 3, 3, 4, 2, 3, 3, 4, 3, 4, 4, 5,
   1, 2, 2, 3, 2, 3, 3, 4, 2, 3, 3, 4, 3, 4, 4, 5,
   2, 3, 3, 4, 3, 4, 4, 5, 3, 4, 4, 5, 4, 5, 5, 6,
   1, 2, 2, 3, 2, 3, 3, 4, 2, 3, 3, 4, 3, 4, 4, 5,
   2, 3, 3, 4, 3, 4, 4, 5, 3, 4, 4, 5, 4, 5, 5, 6,
   2, 3, 3, 4, 3, 4, 4, 5, 3, 4, 4, 5, 4, 5, 5, 6,
   3, 4, 4, 5, 4, 5, 5, 6, 4, 5, 5, 6, 5, 6, 6, 7,
   1, 2, 2, 3, 2, 3, 3, 4, 2, 3, 3, 4, 3, 4, 4, 5,
   2, 3, 3, 4, 3, 4, 4, 5, 3, 4, 4, 5, 4, 5, 5, 6,
   2, 3, 3, 4, 3, 4, 4, 5, 3, 4, 4, 5, 4, 5, 5, 6,
   3, 4, 4, 5, 4, 5, 5, 6, 4, 5, 5, 6, 5, 6, 6, 7,
   2, 3, 3, 4, 3, 4, 4, 5, 3, 4, 4, 5, 4, 5, 5, 6,
   3, 4, 4, 5, 4, 5, 5, 6, 4, 5, 5, 6, 5, 6, 6, 7,
   3, 4, 4, 5, 4, 5, 5, 6, 4, 5, 5, 6, 5, 6, 6, 7,
   4, 5, 5, 6, 5, 6, 6, 7, 5, 6, 6, 7, 6, 7, 7, 8].getD x.toNat 0

/-- Lookup for value of byte when the nth bit is set -/
def sBitSet (bitNbr : Nat) : BitVec 8 :=
  [0x01, 0x02, 0x04, 0x08, 0x10, 0x20, 0x40, 0x80].getD bitNbr 0

/-- Lookup for value of byte when the nth bit is cleared -/
def sBitClear (bitNbr : Nat) : BitVec 8 :=
  [0xFE, 0xFD, 0xFB, 0xF7, 0xEF, 0xDF, 0xBF, 0x7F].getD bitNbr 0

/-- Index of first set bit in byte -/
def sFirstBitOn (x : BitVec 8) : Nat :=
  [0, 0, 1, 0, 2, 0, 1, 0, 3, 0, 1, 0, 2, 0, 1, 0, 4, 0, 1, 0, 2, 0, 1, 0, 3, 0, 1, 0, 2, 0, 1, 0,
   5, 0, 1, 0, 2, 0, 1, 0, 3, 0, 1, 0, 2, 0, 1, 0,
   4, 0, 1, 0, 2, 0, 1, 0, 3, 0, 1, 0, 2, 0, 1, 0,
   6, 0, 1, 0, 2, 0, 1, 0, 3, 0, 1, 0, 2, 0, 1, 0,
   4, 0, 1, 0, 2, 0, 1, 0, 3, 0, 1, 0, 2, 0, 1, 0,
   5, 0, 1, 0, 2, 0, 1, 0, 3, 0, 1, 0, 2, 0, 1, 0,
   4, 0, 1, 0, 2, 0, 1, 0, 3, 0, 1, 0, 2, 0, 1, 0,
   7, 0, 1, 0, 2, 0, 1, 0, 3, 0, 1, 0, 2, 0, 1, 0,
   4, 0, 1, 0, 2, 0, 1, 0, 3, 0, 1, 0, 2, 0, 1, 0,
   5, 0, 1, 0, 2, 0, 1, 0, 3, 0, 1, 0, 2, 0, 1, 0,
   4, 0, 1, 0, 2, 0, 1, 0, 3, 0, 1, 0, 2, 0, 1, 0,
   6, 0, 1, 0, 2, 0, 1, 0, 3, 0, 1, 0, 2, 0, 1, 0,
   4, 0, 1, 0, 2, 0, 1, 0, 3, 0, 1, 0, 2, 0, 1, 0,
   5, 0, 1, 0, 2, 0, 1, 0, 3, 0, 1, 0, 2, 0, 1, 0,
   4, 0, 1, 0, 2, 0, 1, 0, 3, 0, 1, 0, 2, 0, 1, 0].getD x.toNat 0

/-- Mask clears all bits up to the current bit index 0-7 -/
def clearTrailingBits (bitNbr : Nat) : BitVec 8 :=
  [254, 252, 248, 240, 224, 192, 128, 0].getD bitNbr 0

theorem sBitCount_eq_popCount (x : BitVec 8) : sBitCount x = popCount x := by
  have h : sBitCount x = popCount (BitVec.ofNat 8 x.toNat) :=
    forall_getD (P := fun n v => v = popCount (BitVec.ofNat 8 n)) 0 x.isLt (by decide +kernel)
  rwa [BitVec.ofNat_toNat, BitVec.setWidth_eq] at h

variable {j k index n : Nat} {b : BitString} {indices : List ObjectNbr}

theorem getLsbD_sBitSet (hj : j < 8) (hk : k < 8) : (sBitSet j).getLsbD k = decide (k = j) := by
  have h : ∀ j < 8, ∀ k < 8, (sBitSet j).getLsbD k = decide (k = j) := by decide
  exact h j hj k hk

theorem getLsbD_sBitClear (hj : j < 8) (hk : k < 8) : (sBitClear j).getLsbD k = decide (k ≠ j) := by
  have h : ∀ j < 8, ∀ k < 8, (sBitClear j).getLsbD k = decide (k ≠ j) := by decide
  exact h j hj k hk

theorem getLsbD_clearTrailingBits (hj : j < 8) (hk : k < 8) :
    (clearTrailingBits j).getLsbD k = decide (j < k) := by
  have h : ∀ j < 8, ∀ k < 8, (clearTrailingBits j).getLsbD k = decide (j < k) := by decide
  exact h j hj k hk

theorem sFirstBitOn_spec (x : BitVec 8) (hx : x ≠ 0) :
    sFirstBitOn x < 8 ∧ x.getLsbD (sFirstBitOn x) ∧
      ∀ k, k < sFirstBitOn x → x.getLsbD k = false := by
  have h : x.toNat = 0 ∨ sFirstBitOn x < 8 ∧ x.toNat.testBit (sFirstBitOn x) ∧
      ∀ k < sFirstBitOn x, x.toNat.testBit k = false :=
    forall_getD (P := fun n v => n = 0 ∨ v < 8 ∧ n.testBit v ∧ ∀ k < v, n.testBit k = false) 0
      x.isLt (by decide +kernel)
  exact h.resolve_left fun h0 => hx (BitVec.eq_of_toNat_eq h0)

/-! ## Single bits -/

/-- `ipr_bits_set`, `none` when its assertion fails -/
def set (self : BitString) (index : Nat) : Option BitString :=
  if index < iprBitsSizeBits then
    let byteNbr := index / 8
    some {
      size := if self.size < byteNbr + 1 then byteNbr + 1 else self.size
      data := fun i => if i = byteNbr then self.data i ||| sBitSet (index % 8) else self.data i }
  else none

/-- `ipr_bits_clear` -/
def clear (self : BitString) (index : Nat) : Option BitString :=
  if index < iprBitsSizeBits then
    some { self with
      data := fun i =>
        if i = index / 8 then self.data i &&& sBitClear (index % 8) else self.data i }
  else none

/-- `ipr_bits_test` -/
def test (self : BitString) (index : Nat) : Option Bool :=
  if index < iprBitsSizeBits then
    some (decide (self.data (index / 8) &&& sBitSet (index % 8) ≠ 0))
  else none

/-! ## Whole bit strings -/

/-- `memset`: the `n` octets from `start` onwards become `value`. -/
def memset (data : Nat → BitVec 8) (start value n : Nat) : Nat → BitVec 8 :=
  fun i => if start ≤ i ∧ i < start + n then BitVec.ofNat 8 value else data i

/-- `ipr_bits_reset`, with the arguments of `memset` in the order of the source -/
def reset (self : BitString) : BitString where
  size := 0
  data := memset self.data 0 iprBitsSize 0

/-- `ipr_bits_ones` -/
def ones (self : BitString) : Option Nat :=
  if self.size ≤ iprBitsSize then
    some (count self.size)
  else none
where
  /-- The loop on the octets in use. -/
  count : Nat → Nat
    | 0 => 0
    | curSize + 1 => count curSize + sBitCount (self.data curSize)

/--
`for (cur_size = 0; cur_size < data_size; cur_size += sizeof (int64_t))`: changes eight octets
at a time, and gives the octets and `cur_size` after the loop.

`none` when the loop leaves the bit string, or takes more than `fuel` steps.
-/
def eachWord (f : Nat → BitVec 8 → BitVec 8) (dataSize : Nat) :
    (fuel curSize : Nat) → (Nat → BitVec 8) → Option ((Nat → BitVec 8) × Nat)
  | fuel, curSize, data =>
    if curSize < dataSize then
      match fuel with
      | 0 => none
      | fuel + 1 =>
        if curSize + 8 ≤ iprBitsSize then
          eachWord f dataSize fuel (curSize + 8)
            fun i => if curSize ≤ i ∧ i < curSize + 8 then f i (data i) else data i
        else none
    else some (data, curSize)

/-- `ipr_bits_and` -/
def and (self source : BitString) : Option BitString :=
  if source.size ≤ iprBitsSize then
    let dataSize := min self.size source.size
    (eachWord (fun i x => x &&& source.data i) dataSize dataSize 0 self.data).map
      fun (data, curSize) => { self with data := memset data curSize 0 (iprBitsSize - curSize) }
  else none

/-- `ipr_bits_or` -/
def or (self source : BitString) : Option BitString :=
  if source.size ≤ iprBitsSize then
    let dataSize := max self.size source.size
    (eachWord (fun i x => x ||| source.data i) dataSize dataSize 0 self.data).map
      fun (data, _) => ⟨dataSize, data⟩
  else none

/-- `ipr_bits_xor` -/
def xor (self source : BitString) : Option BitString :=
  if source.size ≤ iprBitsSize then
    let dataSize := max self.size source.size
    (eachWord (fun i x => x ^^^ source.data i) dataSize dataSize 0 self.data).map
      fun (data, _) => ⟨dataSize, data⟩
  else none

/-- `ipr_bits_not`, which sets the rest of the bit string to 1 -/
def not (self : BitString) : Option BitString :=
  if self.size ≤ iprBitsSize then
    (eachWord (fun _ x => ~~~ x) self.size self.size 0 self.data).map fun (data, curSize) =>
      ⟨iprBitsSize, memset data curSize 0xFF (iprBitsSize - curSize)⟩
  else none

/-! ## Iteration -/

/--
`while (cur_byte == 0 && byte_nbr < self->size)`, with `left` octets before the end of those in
use, and what `ipr_bits_next` makes of the octet it stops at.

The outer `none` is a read outside the bit string, the inner one the return code -1.
-/
def scan (self : BitString) : (left byteNbr : Nat) → (curByte : BitVec 8) → Option (Option Nat)
  | 0, byteNbr, curByte =>
    some (if curByte = 0 then none else some (byteNbr * 8 + sFirstBitOn curByte))
  | left + 1, byteNbr, curByte =>
    if curByte = 0 then
      if byteNbr + 1 < iprBitsSize then
        self.scan left (byteNbr + 1) (self.data (byteNbr + 1))
      else none
    else some (some (byteNbr * 8 + sFirstBitOn curByte))

/-- `ipr_bits_next` -/
def next (self : BitString) (index : Nat) : Option (Option Nat) :=
  if index < iprBitsSizeBits then
    self.scan (self.size - index / 8) (index / 8)
      (self.data (index / 8) &&& clearTrailingBits (index % 8))
  else none

/-- `ipr_bits_first` -/
def first (self : BitString) : Option (Option Nat) :=
  (self.test 0).bind fun bit => if bit then some (some 0) else self.next 0

/-- The loop `ipr_bits_first` … `ipr_bits_next` until -1. -/
def elements (self : BitString) : Option (List Nat) :=
  self.first.bind fun
    | none => some []
    | some index => follow self.next iprBitsSizeBits index

/-! ## Any number of bit strings -/

/-- An operation on the bit strings that are named by `ν`. The source may be the target. -/
inductive Op (ν : Type*) where
  | set (target : ν) (index : ObjectNbr)
  | clear (target : ν) (index : ObjectNbr)
  | reset (target : ν)
  | and (target source : ν)
  | or (target source : ν)
  | xor (target source : ν)
  | not (target : ν)
deriving DecidableEq

section Names

variable {ν : Type*}

/-- The bit string that an operation changes. -/
def Op.target : Op ν → ν
  | .set target _ => target
  | .clear target _ => target
  | .reset target => target
  | .and target _ => target
  | .or target _ => target
  | .xor target _ => target
  | .not target => target

/-- What an operation makes of its target. -/
def result (s : ν → BitString) : Op ν → Option BitString
  | .set target index => (s target).set index.val
  | .clear target index => (s target).clear index.val
  | .reset target => some (s target).reset
  | .and target source => (s target).and (s source)
  | .or target source => (s target).or (s source)
  | .xor target source => (s target).xor (s source)
  | .not target => (s target).not

/-- The operation on sets that an operation stands for. -/
def setResult (sets : ν → Finset ObjectNbr) : Op ν → Finset ObjectNbr
  | .set target index => Insert.insert index (sets target)
  | .clear target index => (sets target).erase index
  | .reset _ => ∅
  | .and target source => sets target ∩ sets source
  | .or target source => sets target ∪ sets source
  | .xor target source => symmDiff (sets target) (sets source)
  | .not target => (sets target)ᶜ

variable [DecidableEq ν]

/-- One operation. -/
def step (s : ν → BitString) (op : Op ν) : Option (ν → BitString) :=
  (result s op).map (update s op.target)

def setStep (sets : ν → Finset ObjectNbr) (op : Op ν) : ν → Finset ObjectNbr :=
  update sets op.target (setResult sets op)

end Names

/-! ## What the methods do -/

/-- `size` bounds the octets in use, and those beyond are zero. -/
structure WellFormed (b : BitString) : Prop where
  size_le : b.size ≤ iprBitsSize
  unused : ∀ i, b.size ≤ i → b.data i = 0

/-- The bit string stands for the set `S`. -/
structure Holds (b : BitString) (S : Finset ObjectNbr) : Prop extends WellFormed b where
  bit : ∀ i, wordBit b.data i = true ↔ ∃ h : i < iprBitsSizeBits, (⟨i, h⟩ : ObjectNbr) ∈ S

theorem bits_div_eight {i : Nat} : i < iprBitsSizeBits ↔ i / 8 < iprBitsSize := by
  have hbits : iprBitsSizeBits = iprBitsSize * 8 := rfl
  omega

theorem WellFormed.wordBit_eq_false (h : b.WellFormed) {i : Nat} (hi : b.size ≤ i / 8) :
    wordBit b.data i = false :=
  Lib.wordBit_eq_false (h.unused _ hi)

theorem new_holds : Holds new ∅ where
  size_le := Nat.zero_le _
  unused _ _ := rfl
  bit i := by simp [new, wordBit]

theorem test_eq (b : BitString) (h : index < iprBitsSizeBits) :
    b.test index = some (wordBit b.data index) := by
  have hmod : index % 8 < 8 := Nat.mod_lt _ (by omega)
  rw [test, if_pos h, some.injEq, Bool.eq_iff_iff, decide_eq_true_iff, wordBit]
  constructor
  · intro hne
    by_contra hbit
    refine hne (BitVec.eq_of_getLsbD_eq fun k hk => ?_)
    rw [BitVec.getLsbD_and, getLsbD_sBitSet hmod hk]
    by_cases heq : k = index % 8
    · subst heq
      simpa using hbit
    · simp [heq]
  · intro hbit hzero
    have h0 := congrArg (fun x => x.getLsbD (index % 8)) hzero
    simp [hbit, getLsbD_sBitSet hmod hmod] at h0

/-- The octets that the loop in steps of eight octets changes, up to `n`. -/
def wordsEnd (n : Nat) : Nat := (n + 7) / 8 * 8

theorem wordsEnd_bounds (h : n ≤ iprBitsSize) : n ≤ wordsEnd n ∧ wordsEnd n ≤ iprBitsSize := by
  have hsize : iprBitsSize = 16384 := rfl
  unfold wordsEnd
  omega

theorem eachWord_eq {f : Nat → BitVec 8 → BitVec 8} (hn : n ≤ iprBitsSize) {fuel curSize : Nat}
    {data : Nat → BitVec 8} (hcur : curSize % 8 = 0) (hend : curSize ≤ wordsEnd n)
    (hfuel : n ≤ curSize + fuel) :
    eachWord f n fuel curSize data =
      some (fun i => if curSize ≤ i ∧ i < wordsEnd n then f i (data i) else data i,
        wordsEnd n) := by
  have hsize : iprBitsSize = 16384 := rfl
  induction fuel generalizing curSize data with
  | zero =>
    have hcur_eq : curSize = wordsEnd n := by
      unfold wordsEnd at hend ⊢
      omega
    rw [eachWord, if_neg (by omega), ← hcur_eq, some.injEq, Prod.mk.injEq]
    refine ⟨funext fun i => ?_, rfl⟩
    rw [if_neg (by omega)]
  | succ fuel ih =>
    rw [eachWord]
    by_cases hlt : curSize < n
    · have hnext : curSize + 8 ≤ wordsEnd n := by
        unfold wordsEnd at hend ⊢
        omega
      have hinside := (wordsEnd_bounds hn).2
      rw [if_pos hlt]
      rw [if_pos (by omega), ih (by omega) hnext (by omega), some.injEq, Prod.mk.injEq]
      refine ⟨funext fun i => ?_, rfl⟩
      by_cases hw : curSize + 8 ≤ i ∧ i < wordsEnd n
      · rw [if_pos hw, if_neg (by omega), if_pos (by omega)]
      · by_cases hi : curSize ≤ i ∧ i < curSize + 8
        · rw [if_neg hw, if_pos hi, if_pos (by omega)]
        · rw [if_neg hw, if_neg hi, if_neg (by omega)]
    · have hcur_eq : curSize = wordsEnd n := by
        unfold wordsEnd at hend ⊢
        omega
      rw [if_neg hlt, ← hcur_eq, some.injEq, Prod.mk.injEq]
      refine ⟨funext fun i => ?_, rfl⟩
      rw [if_neg (by omega)]

theorem eachWord_all {f : Nat → BitVec 8 → BitVec 8} (hn : n ≤ iprBitsSize)
    (data : Nat → BitVec 8) :
    eachWord f n n 0 data =
      some (fun i => if i < wordsEnd n then f i (data i) else data i, wordsEnd n) := by
  rw [eachWord_eq hn rfl (Nat.zero_le _) (by omega)]
  simp

variable {self source : BitString}

theorem WellFormed.and_eq (h : self.WellFormed) (hs : source.WellFormed) :
    self.and source = some ⟨self.size, fun i => self.data i &&& source.data i⟩ := by
  have hmin : min self.size source.size ≤ iprBitsSize := by
    have := h.size_le
    omega
  rw [BitString.and, if_pos hs.size_le]
  show (eachWord _ _ _ _ _).map _ = _
  rw [eachWord_all hmin, map_some, some.injEq, mk.injEq]
  refine ⟨rfl, funext fun i => ?_⟩
  have hwords := wordsEnd_bounds hmin
  by_cases hi : i < wordsEnd (min self.size source.size)
  · rw [memset, if_neg (by omega), if_pos hi]
  · -- one of the two is zero here
    have hzero : self.data i &&& source.data i = 0 := by
      by_cases hle : self.size ≤ i
      · rw [h.unused i hle]
        exact BitVec.zero_and
      · rw [hs.unused i (by omega)]
        exact BitVec.and_zero
    rw [memset, hzero]
    split
    · rfl
    · have := h.size_le
      exact h.unused i (by omega)

theorem WellFormed.eachWord_max (h : self.WellFormed) (hs : source.WellFormed)
    {f : BitVec 8 → BitVec 8 → BitVec 8} (hf : f 0 0 = 0) :
    (eachWord (fun i x => f x (source.data i)) (max self.size source.size)
      (max self.size source.size) 0 self.data).map
        (fun r => (⟨max self.size source.size, r.1⟩ : BitString)) =
      some ⟨max self.size source.size, fun i => f (self.data i) (source.data i)⟩ := by
  have hmax : max self.size source.size ≤ iprBitsSize := max_le h.size_le hs.size_le
  rw [eachWord_all hmax, map_some, some.injEq, mk.injEq]
  refine ⟨rfl, funext fun i => ?_⟩
  have hwords := wordsEnd_bounds hmax
  show (if _ then _ else _) = _
  by_cases hi : i < wordsEnd (max self.size source.size)
  · rw [if_pos hi]
  · rw [if_neg hi, h.unused i (by omega), hs.unused i (by omega), hf]

theorem WellFormed.or_eq (h : self.WellFormed) (hs : source.WellFormed) : self.or source =
      some ⟨max self.size source.size, fun i => self.data i ||| source.data i⟩ := by
  rw [BitString.or, if_pos hs.size_le]
  exact h.eachWord_max hs (f := (· ||| ·)) rfl

theorem WellFormed.xor_eq (h : self.WellFormed) (hs : source.WellFormed) : self.xor source =
      some ⟨max self.size source.size, fun i => self.data i ^^^ source.data i⟩ := by
  rw [BitString.xor, if_pos hs.size_le]
  exact h.eachWord_max hs (f := (· ^^^ ·)) rfl

theorem WellFormed.not_eq (h : self.WellFormed) :
    self.not = some ⟨iprBitsSize, fun i => if i < iprBitsSize then ~~~ self.data i else 0⟩ := by
  rw [BitString.not, if_pos h.size_le, eachWord_all h.size_le, map_some, some.injEq, mk.injEq]
  refine ⟨rfl, funext fun i => ?_⟩
  have hwords := wordsEnd_bounds h.size_le
  by_cases hi : i < wordsEnd self.size
  · rw [memset, if_neg (by omega), if_pos hi, if_pos (by omega)]
  · have hzero := h.unused i (by omega)
    rw [memset, if_neg hi, hzero]
    by_cases hin : i < iprBitsSize
    · rw [if_pos (by omega), if_pos hin]
      rfl
    · rw [if_neg (by omega), if_neg hin]

/-! ## What the methods do to the set -/

variable {S T : Finset ObjectNbr}

theorem Holds.bit_val (h : self.Holds S) (index : ObjectNbr) :
    wordBit self.data index.val = true ↔ index ∈ S := by
  rw [h.bit]
  exact ⟨fun ⟨_, hmem⟩ => hmem, fun hmem => ⟨index.isLt, hmem⟩⟩

theorem WellFormed.holds (h : self.WellFormed)
    (hbit : ∀ index : ObjectNbr, wordBit self.data index.val = true ↔ index ∈ S) :
    self.Holds S := by
  refine ⟨h, fun i => ?_⟩
  constructor
  · intro hi
    have hlt : i < iprBitsSizeBits := by
      by_contra hge
      rw [bits_div_eight] at hge
      rw [h.wordBit_eq_false (le_trans h.size_le (by omega))] at hi
      cases hi
    exact ⟨hlt, (hbit ⟨i, hlt⟩).mp hi⟩
  · intro ⟨hlt, hmem⟩
    exact (hbit ⟨i, hlt⟩).mpr hmem

theorem wordBit_changed {b : Bool} {index : Nat} {data : Nat → BitVec 8} (f : BitVec 8 → BitVec 8)
    (hf : ∀ x k, k < 8 → (f x).getLsbD k = if k = index % 8 then b else x.getLsbD k) (i : Nat) :
    wordBit (fun k => if k = index / 8 then f (data k) else data k) i =
      if i = index then b else wordBit data i := by
  have hmod : index % 8 < 8 := Nat.mod_lt _ (by omega)
  have hword : ∀ k, k < 8 →
      (if index / 8 = index / 8 then f (data (index / 8)) else data (index / 8)).getLsbD k =
        if k = index % 8 then b else (data (index / 8)).getLsbD k := fun k hk => by
    rw [if_pos rfl, hf _ k hk]
  have h := @wordBit_update _ _ (fun k => if k = index / 8 then f (data k) else data k) (by omega)
    _ _ b hmod (fun k hk => if_neg hk) hword i
  have hindex : index / 8 * 8 + index % 8 = index := by omega
  rw [h, hindex]

theorem Holds.set (h : self.Holds S) (index : ObjectNbr) :
    ∃ b, self.set index.val = some b ∧ b.Holds (Insert.insert index S) := by
  have hmod : index.val % 8 < 8 := Nat.mod_lt _ (by omega)
  have hbyte := bits_div_eight.mp index.isLt
  have hle := h.size_le
  refine ⟨_, if_pos index.isLt, WellFormed.holds ⟨?_, ?_⟩ fun j => ?_⟩
  · show (if self.size < index.val / 8 + 1 then index.val / 8 + 1 else self.size) ≤ iprBitsSize
    split <;> omega
  · intro i hi
    change (if self.size < index.val / 8 + 1 then index.val / 8 + 1 else self.size) ≤ i at hi
    have hbeyond : self.size ≤ i ∧ i ≠ index.val / 8 := by
      split at hi <;> omega
    show (if i = index.val / 8 then _ else self.data i) = _
    rw [if_neg hbeyond.2]
    exact h.unused i hbeyond.1
  · have hset : ∀ (x : BitVec 8) k, k < 8 → (x ||| sBitSet (index.val % 8)).getLsbD k =
        if k = index.val % 8 then true else x.getLsbD k := fun x k hk => by
      rw [BitVec.getLsbD_or, getLsbD_sBitSet hmod hk]
      by_cases heq : k = index.val % 8 <;> simp [heq]
    have hbit := @wordBit_changed _ _ self.data _ hset j.val
    rw [hbit, Finset.mem_insert]
    by_cases hj : j = index
    · simp [hj]
    · rw [if_neg (fun heq => hj (Fin.ext heq)), h.bit_val]
      simp [hj]

theorem Holds.clear (h : self.Holds S) (index : ObjectNbr) :
    ∃ b, self.clear index.val = some b ∧ b.Holds (S.erase index) := by
  have hmod : index.val % 8 < 8 := Nat.mod_lt _ (by omega)
  refine ⟨_, if_pos index.isLt, WellFormed.holds ⟨h.size_le, ?_⟩ fun j => ?_⟩
  · intro i hi
    have hzero := h.unused i hi
    show (if _ then _ else _) = _
    rw [hzero]
    split
    · exact BitVec.zero_and
    · rfl
  · have hclear : ∀ (x : BitVec 8) k, k < 8 → (x &&& sBitClear (index.val % 8)).getLsbD k =
        if k = index.val % 8 then false else x.getLsbD k := fun x k hk => by
      rw [BitVec.getLsbD_and, getLsbD_sBitClear hmod hk]
      by_cases heq : k = index.val % 8 <;> simp [heq]
    have hbit := @wordBit_changed _ _ self.data _ hclear j.val
    rw [hbit, Finset.mem_erase]
    by_cases hj : j = index
    · simp [hj]
    · rw [if_neg (fun heq => hj (Fin.ext heq)), h.bit_val]
      simp [hj]

theorem WellFormed.reset (h : self.WellFormed) (hzero : ∀ i, i < iprBitsSize → self.data i = 0) :
    self.reset.Holds ∅ := by
  have hall : ∀ i, self.reset.data i = 0 := by
    intro i
    show memset self.data 0 iprBitsSize 0 i = 0
    rw [memset, if_neg (by omega)]
    by_cases hi : i < iprBitsSize
    · exact hzero i hi
    · have := h.size_le
      exact h.unused i (by omega)
  refine WellFormed.holds ⟨Nat.zero_le _, fun i _ => hall i⟩ fun index => ?_
  simp [wordBit, hall]

theorem Holds.and (h : self.Holds S) (hs : source.Holds T) :
    ∃ b, self.and source = some b ∧ b.Holds (S ∩ T) := by
  refine ⟨_, h.toWellFormed.and_eq hs.toWellFormed, WellFormed.holds ⟨h.size_le, ?_⟩ fun j => ?_⟩
  · intro i hi
    show _ &&& _ = _
    rw [h.unused i hi]
    exact BitVec.zero_and
  · rw [Finset.mem_inter, ← h.bit_val, ← hs.bit_val]
    simp [wordBit]

theorem Holds.or (h : self.Holds S) (hs : source.Holds T) :
    ∃ b, self.or source = some b ∧ b.Holds (S ∪ T) := by
  refine ⟨_, h.toWellFormed.or_eq hs.toWellFormed,
    WellFormed.holds ⟨max_le h.size_le hs.size_le, ?_⟩ fun j => ?_⟩
  · intro i hi
    have hmax := max_le_iff.mp hi
    show _ ||| _ = _
    rw [h.unused i hmax.1, hs.unused i hmax.2]
    rfl
  · rw [Finset.mem_union, ← h.bit_val, ← hs.bit_val]
    simp [wordBit]

theorem Holds.xor (h : self.Holds S) (hs : source.Holds T) :
    ∃ b, self.xor source = some b ∧ b.Holds (symmDiff S T) := by
  refine ⟨_, h.toWellFormed.xor_eq hs.toWellFormed,
    WellFormed.holds ⟨max_le h.size_le hs.size_le, ?_⟩ fun j => ?_⟩
  · intro i hi
    have hmax := max_le_iff.mp hi
    show _ ^^^ _ = _
    rw [h.unused i hmax.1, hs.unused i hmax.2]
    rfl
  · rw [Finset.mem_symmDiff, ← h.bit_val, ← hs.bit_val]
    cases hS : wordBit self.data j.val <;> cases hT : wordBit source.data j.val <;>
      simp_all [wordBit]

theorem Holds.not (h : self.Holds S) : ∃ b, self.not = some b ∧ b.Holds Sᶜ := by
  refine ⟨_, h.toWellFormed.not_eq, WellFormed.holds ⟨le_rfl, ?_⟩ fun j => ?_⟩
  · intro i hi
    exact if_neg (Nat.not_lt.mpr hi)
  · have hbyte := bits_div_eight.mp j.isLt
    have hmod : j.val % 8 < 8 := Nat.mod_lt _ (by omega)
    rw [Finset.mem_compl, ← h.bit_val]
    simp [wordBit, hbyte, hmod]

theorem Holds.ones_eq (h : self.Holds S) : self.ones = some S.card := by
  have hcount : ∀ n, ones.count self n = (bits self.data (n * 8)).card := by
    intro n
    induction n with
    | zero => rfl
    | succ n ih => rw [ones.count, ih, card_bits_succ, sBitCount_eq_popCount]
  have hbits : bits self.data (self.size * 8) = S.map Fin.valEmbedding := by
    ext i
    rw [mem_bits, h.bit, Finset.mem_map]
    constructor
    · rintro ⟨-, hlt, hmem⟩
      exact ⟨⟨i, hlt⟩, hmem, rfl⟩
    · rintro ⟨index, hmem, rfl⟩
      refine ⟨Nat.lt_of_not_le fun hle => ?_, index.isLt, hmem⟩
      change self.size * 8 ≤ index.val at hle
      have hbit := h.toWellFormed.wordBit_eq_false (i := index.val) (by omega)
      rw [(h.bit_val index).mpr hmem] at hbit
      cases hbit
  rw [ones, if_pos h.size_le, hcount, hbits, Finset.card_map]

/-! ## Iteration -/

theorem isNext_octet {data : Nat → BitVec 8} {byteNbr : Nat} {curByte : BitVec 8}
    (hcur : ∀ j, index < j → j < (byteNbr + 1) * 8 →
      (wordBit data j = true ↔ byteNbr * 8 ≤ j ∧ curByte.getLsbD (j - byteNbr * 8) = true))
    (habove : ∀ k, k < 8 → curByte.getLsbD k = true → index < byteNbr * 8 + k) (hne : curByte ≠ 0) :
    IsNext (fun j => wordBit data j = true) index (some (byteNbr * 8 + sFirstBitOn curByte)) := by
  obtain ⟨hlt, hbit, hfirst⟩ := sFirstBitOn_spec curByte hne
  have hindex := habove _ hlt hbit
  refine ⟨hindex, (hcur _ hindex (by omega)).mpr ⟨by omega, ?_⟩, fun j hij hj hbitj => ?_⟩
  · rw [Nat.add_sub_cancel_left]
    exact hbit
  · obtain ⟨hle, hj'⟩ := (hcur j hij (by omega)).mp hbitj
    rw [hfirst _ (by omega)] at hj'
    cases hj'

/--
The loop of `ipr_bits_next` ends at the next bit. When there is none it has looked at the octet
after the last one in use, which is outside when all are.
-/
theorem WellFormed.scan_spec (h : self.WellFormed) {left byteNbr : Nat} {curByte : BitVec 8}
    (hleft : left = self.size - byteNbr) (hinside : byteNbr < iprBitsSize)
    (hindex : index < (byteNbr + 1) * 8)
    (hcur : ∀ j, index < j → j < (byteNbr + 1) * 8 →
      (wordBit self.data j = true ↔ byteNbr * 8 ≤ j ∧ curByte.getLsbD (j - byteNbr * 8) = true))
    (habove : ∀ k, k < 8 → curByte.getLsbD k = true → index < byteNbr * 8 + k) :
    (∃ j, self.scan left byteNbr curByte = some (some j) ∧
      IsNext (fun j => wordBit self.data j = true) index (some j)) ∨
    (self.scan left byteNbr curByte = (if self.size < iprBitsSize then some none else none) ∧
      IsNext (fun j => wordBit self.data j = true) index none) := by
  induction left generalizing byteNbr curByte with
  | zero =>
    rw [scan]
    by_cases hzero : curByte = 0
    · refine .inr ⟨?_, fun j hij hbit => ?_⟩
      · rw [if_pos hzero, if_pos (by omega)]
      · change wordBit self.data j = true at hbit
        by_cases hj : j < (byteNbr + 1) * 8
        · have hcurj := ((hcur j hij hj).mp hbit).2
          simp [hzero] at hcurj
        · rw [h.wordBit_eq_false (by omega)] at hbit
          cases hbit
    · rw [if_neg hzero]
      exact .inl ⟨_, rfl, isNext_octet hcur habove hzero⟩
  | succ left ih =>
    rw [scan]
    by_cases hzero : curByte = 0
    · have hnone : ∀ j, index < j → j < (byteNbr + 1) * 8 → wordBit self.data j = false := by
        intro j hij hj
        have hbit := hcur j hij hj
        simp [hzero] at hbit
        exact hbit
      rw [if_pos hzero]
      by_cases hnext : byteNbr + 1 < iprBitsSize
      · rw [if_pos hnext]
        refine ih (by omega) hnext (by omega) (fun j hij hj => ?_) (fun k _ _ => by omega)
        by_cases hbefore : j < (byteNbr + 1) * 8
        · rw [hnone j hij hbefore]
          simp only [Bool.false_eq_true, false_iff]
          omega
        · have hword := wordBit_word self.data (k := byteNbr + 1) (j := j - (byteNbr + 1) * 8)
            (by omega)
          rw [Nat.add_sub_cancel' (by omega)] at hword
          rw [hword]
          exact ⟨fun hb => ⟨by omega, hb⟩, fun hb => hb.2⟩
      · -- every octet has been looked at
        have hle := h.size_le
        rw [if_neg hnext, if_neg (by omega)]
        refine .inr ⟨rfl, fun j hij hbit => ?_⟩
        change wordBit self.data j = true at hbit
        by_cases hj : j < (byteNbr + 1) * 8
        · rw [hnone j hij hj] at hbit
          cases hbit
        · rw [h.wordBit_eq_false (by omega)] at hbit
          cases hbit
    · rw [if_neg hzero]
      exact .inl ⟨_, rfl, isNext_octet hcur habove hzero⟩

theorem WellFormed.next_spec (h : self.WellFormed) (hi : index < iprBitsSizeBits) :
    (∃ j, self.next index = some (some j) ∧
      IsNext (fun j => wordBit self.data j = true) index (some j)) ∨
    (self.next index = (if self.size < iprBitsSize then some none else none) ∧
      IsNext (fun j => wordBit self.data j = true) index none) := by
  have hmod : index % 8 < 8 := Nat.mod_lt _ (by omega)
  rw [next, if_pos hi]
  refine h.scan_spec rfl (bits_div_eight.mp hi) (by omega) (fun j hij hj => ?_)
    (fun k hk hbit => ?_)
  · have hword := wordBit_word self.data (k := index / 8) (j := j - index / 8 * 8) (by omega)
    rw [Nat.add_sub_cancel' (by omega)] at hword
    rw [hword, BitVec.getLsbD_and, getLsbD_clearTrailingBits hmod (by omega)]
    simp only [Bool.and_eq_true, decide_eq_true_eq]
    constructor
    · intro hb
      exact ⟨by omega, hb, by omega⟩
    · intro hb
      exact hb.2.1
  · rw [BitVec.getLsbD_and, getLsbD_clearTrailingBits hmod hk] at hbit
    simp only [Bool.and_eq_true, decide_eq_true_eq] at hbit
    omega

/-- The loop from the first element to the last one meets exactly the elements of `S`. -/
def Enumerates (b : BitString) (S : Finset ObjectNbr) : Prop :=
  ∃ l, b.elements = some l ∧ l.Pairwise (· < ·) ∧
    ∀ i, i ∈ l ↔ ∃ h : i < iprBitsSizeBits, (⟨i, h⟩ : ObjectNbr) ∈ S

theorem Holds.first_spec (h : self.Holds S) :
    (∃ j, self.first = some (some j) ∧ wordBit self.data j = true ∧
      ∀ k, wordBit self.data k = true → j ≤ k) ∨
    (self.first = (if self.size < iprBitsSize then some none else none) ∧
      ∀ k, wordBit self.data k = false) := by
  have hpos : 0 < iprBitsSizeBits := by decide
  rw [first, test_eq self hpos, bind_some]
  by_cases h0 : wordBit self.data 0 = true
  · exact .inl ⟨0, if_pos h0, h0, fun k _ => Nat.zero_le k⟩
  · rw [if_neg h0]
    rcases h.toWellFormed.next_spec hpos with ⟨j, hj, -, hbit, hbetween⟩ | ⟨hnone, hall⟩
    · refine .inl ⟨j, hj, hbit, fun k hk => Nat.le_of_not_lt fun hlt => ?_⟩
      rcases Nat.eq_zero_or_pos k with rfl | hk0
      · exact h0 hk
      · exact hbetween k hk0 hlt hk
    · refine .inr ⟨hnone, fun k => ?_⟩
      rcases Nat.eq_zero_or_pos k with rfl | hk0
      · simpa using h0
      · simpa using hall k hk0

theorem Holds.elements_eq_none (h : self.Holds S) (hsize : ¬ self.size < iprBitsSize) :
    self.elements = none := by
  have hnext : ∀ i, wordBit self.data i = true →
      self.next i = none ∨ ∃ j, self.next i = some (some j) ∧ wordBit self.data j = true := by
    intro i hi
    obtain ⟨hlt, -⟩ := (h.bit i).mp hi
    rcases h.toWellFormed.next_spec hlt with ⟨k, hk, hspec⟩ | ⟨hk, -⟩
    · exact .inr ⟨k, hk, hspec.2.1⟩
    · rw [if_neg hsize] at hk
      exact .inl hk
  rw [elements]
  rcases h.first_spec with ⟨j, hj, hbit, -⟩ | ⟨hnone, -⟩
  · rw [hj]
    exact follow_eq_none hnext hbit
  · rw [hnone, if_neg hsize]
    rfl

theorem Holds.enumerates_iff (h : self.Holds S) : self.Enumerates S ↔ self.size < iprBitsSize := by
  constructor
  · intro ⟨l, hl, _⟩
    by_contra hsize
    rw [h.elements_eq_none hsize] at hl
    cases hl
  · intro hsize
    rcases h.first_spec with ⟨j, hj, hbit, hleast⟩ | ⟨hnone, hall⟩
    · have hnext : ∀ i, wordBit self.data i = true →
          ∃ r, self.next i = some r ∧ IsNext (fun j => wordBit self.data j = true) i r := by
        intro i hi
        obtain ⟨hlt, -⟩ := (h.bit i).mp hi
        rcases h.toWellFormed.next_spec hlt with ⟨k, hk, hspec⟩ | ⟨hk, hspec⟩
        · exact ⟨_, hk, hspec⟩
        · rw [if_pos hsize] at hk
          exact ⟨_, hk, hspec⟩
      have hfuel : iprBitsSizeBits ≤ j + iprBitsSizeBits := Nat.le_add_left _ _
      obtain ⟨l, hl, hsorted, hmem⟩ :=
        follow_spec (fun i hi => ((h.bit i).mp hi).1) hnext hbit hfuel
      refine ⟨l, ?_, hsorted, fun i => ?_⟩
      · rw [elements, hj]
        exact hl
      · rw [hmem, ← h.bit]
        exact ⟨fun hi => hi.1, fun hi => ⟨hi, hleast i hi⟩⟩
    · rw [if_pos hsize] at hnone
      refine ⟨[], ?_, List.Pairwise.nil, fun i => ?_⟩
      · rw [elements, hnone]
        rfl
      · rw [← h.bit, hall]
        simp

/-! ## Runs -/

/-- What is promised of a bit string that stands for `S`. -/
structure AsSet (b : BitString) (S : Finset ObjectNbr) : Prop where
  test : ∀ index : ObjectNbr, b.test index.val = some (decide (index ∈ S))
  ones : b.ones = some S.card
  enumerates : b.Enumerates S

theorem Holds.test_eq (h : self.Holds S) (index : ObjectNbr) :
    self.test index.val = some (decide (index ∈ S)) := by
  rw [BitString.test_eq self index.isLt, some.injEq, Bool.eq_iff_iff, decide_eq_true_iff]
  exact h.bit_val index

theorem Holds.asSet_iff (h : self.Holds S) : self.AsSet S ↔ self.size < iprBitsSize := by
  constructor
  · intro hset
    exact h.enumerates_iff.mp hset.enumerates
  · intro hsize
    exact ⟨h.test_eq, h.ones_eq, h.enumerates_iff.mpr hsize⟩

section Runs

variable {ν : Type*} [DecidableEq ν] {s : ν → BitString} {sets : ν → Finset ObjectNbr}

def ResetsEmpty (s : ν → BitString) : Op ν → Prop
  | .reset target => ∀ i, i < iprBitsSize → (s target).data i = 0
  | _ => True

variable {op : Op ν}

/-- A step does to the bits what it does to the sets, if only empty ones are reset. -/
theorem step_holds (h : ∀ n, (s n).Holds (sets n)) (hop : ResetsEmpty s op) :
    ∃ s', step s op = some s' ∧ ∀ n, (s' n).Holds (setStep sets op n) := by
  have hresult : ∃ b, result s op = some b ∧ b.Holds (setResult sets op) := by
    cases op with
    | set target index => exact (h target).set index
    | clear target index => exact (h target).clear index
    | reset target => exact ⟨_, rfl, (h target).toWellFormed.reset hop⟩
    | and target source => exact (h target).and (h source)
    | or target source => exact (h target).or (h source)
    | xor target source => exact (h target).xor (h source)
    | not target => exact (h target).not
  obtain ⟨b, hb, hholds⟩ := hresult
  refine ⟨_, by rw [step, hb]; rfl, fun n => ?_⟩
  rw [setStep]
  by_cases hn : n = op.target
  · subst hn
    rwa [update_self, update_self]
  · rw [update_of_ne hn, update_of_ne hn]
    exact h n

/-- After a run the bits are those of the sets. -/
theorem run_holds {ops : List (Op ν)} (hok : Along step ResetsEmpty (fun _ => new) ops) :
    ∃ s, run step (fun _ : ν => new) ops = some s ∧
      ∀ n, (s n).Holds (ops.foldl setStep (fun _ => ∅) n) := by
  have hstep : ∀ (s : ν → BitString) (sets : ν → Finset ObjectNbr) op,
      (∀ n, (s n).Holds (sets n)) → ResetsEmpty s op →
      ∃ s', step s op = some s' ∧ ∀ n, (s' n).Holds (setStep sets op n) :=
    fun _ _ _ h hop => step_holds h hop
  exact run_simulates hstep (fun _ => new_holds) hok

/--
The operations after which bit strings still are sets: only empty ones are reset, and the last
octet is not used, neither by a bit in it nor by `not`.
-/
def KeepsSets (s : ν → BitString) : Op ν → Prop
  | .set _ index => index.val < iprBitsSizeBits - 8
  | .reset target => ∀ i, i < iprBitsSize → (s target).data i = 0
  | .not _ => False
  | _ => True

omit [DecidableEq ν] in
theorem KeepsSets.resetsEmpty (h : KeepsSets s op) : ResetsEmpty s op := by
  cases op with
  | reset target => exact h
  | _ => trivial

omit [DecidableEq ν] in
theorem result_size_lt_iff (h : ∀ n, (s n).Holds (sets n)) (hsize : ∀ n, (s n).size < iprBitsSize)
    (hop : ResetsEmpty s op) (hb : result s op = some b) :
    b.size < iprBitsSize ↔ KeepsSets s op := by
  cases op with
  | set target index =>
    have hbits : iprBitsSizeBits = iprBitsSize * 8 := rfl
    have hlt := hsize target
    have hbyte := bits_div_eight.mp index.isLt
    obtain rfl := some.inj ((if_pos index.isLt).symm.trans hb)
    show (if (s target).size < index.val / 8 + 1 then index.val / 8 + 1 else (s target).size) <
      iprBitsSize ↔ index.val < iprBitsSizeBits - 8
    split <;> omega
  | clear target index =>
    obtain rfl := some.inj ((if_pos index.isLt).symm.trans hb)
    exact iff_of_true (hsize target) trivial
  | reset target =>
    cases hb
    exact iff_of_true (show 0 < iprBitsSize by decide) hop
  | and target source =>
    rw [result, (h target).toWellFormed.and_eq (h source).toWellFormed] at hb
    cases hb
    exact iff_of_true (hsize target) trivial
  | or target source =>
    rw [result, (h target).toWellFormed.or_eq (h source).toWellFormed] at hb
    cases hb
    exact iff_of_true (max_lt (hsize target) (hsize source)) trivial
  | xor target source =>
    rw [result, (h target).toWellFormed.xor_eq (h source).toWellFormed] at hb
    cases hb
    exact iff_of_true (max_lt (hsize target) (hsize source)) trivial
  | not target =>
    rw [result, (h target).toWellFormed.not_eq] at hb
    cases hb
    exact iff_of_false (lt_irrefl iprBitsSize) id

/-- A step that keeps sets can be taken, and leaves the last octet unused. -/
theorem step_keeps (h : ∀ n, (s n).Holds (sets n) ∧ (s n).size < iprBitsSize)
    (hop : KeepsSets s op) :
    ∃ s', step s op = some s' ∧
      ∀ n, (s' n).Holds (setStep sets op n) ∧ (s' n).size < iprBitsSize := by
  have hholds := fun n => (h n).1
  have hsize := fun n => (h n).2
  obtain ⟨s', hs, hholds'⟩ := step_holds hholds hop.resetsEmpty
  obtain ⟨b, hb, rfl⟩ := map_eq_some_iff.mp hs
  refine ⟨_, hs, fun n => ⟨hholds' n, ?_⟩⟩
  by_cases hn : n = op.target
  · subst hn
    rw [update_self]
    exact (result_size_lt_iff hholds hsize hop.resetsEmpty hb).mpr hop
  · rw [update_of_ne hn]
    exact hsize n

theorem zero_of_reset (h : ∀ index : ObjectNbr, b.reset.test index.val = some false) :
    ∀ i, i < iprBitsSize → b.data i = 0 := by
  intro i hi
  refine BitVec.eq_of_getLsbD_eq fun k hk => ?_
  have hbits : iprBitsSizeBits = iprBitsSize * 8 := rfl
  have htest := h ⟨i * 8 + k, by omega⟩
  have hdata : b.reset.data i = b.data i := by
    show memset b.data 0 iprBitsSize 0 i = b.data i
    exact if_neg (by omega)
  rw [BitString.test_eq _ (by omega), wordBit_word _ hk, some.injEq, hdata] at htest
  rw [htest]
  exact BitVec.getLsbD_zero.symm

theorem keepsSets_of_asSet (h : ∀ n, (s n).Holds (sets n) ∧ (s n).size < iprBitsSize)
    {s' : ν → BitString} (hs : step s op = some s') (hset : ∀ n, (s' n).AsSet (setStep sets op n)) :
    KeepsSets s op := by
  have hholds := fun n => (h n).1
  have hsize := fun n => (h n).2
  have hop : ResetsEmpty s op := by
    cases op with
    | reset target =>
      cases hs
      refine zero_of_reset fun index => ?_
      have htest := (hset target).test index
      rw [show (Op.reset target).target = target from rfl, update_self] at htest
      rw [htest, setStep, Op.target, update_self]
      rfl
    | _ => trivial
  obtain ⟨s1, hs1, hholds'⟩ := step_holds hholds hop
  obtain rfl := some.inj (hs.symm.trans hs1)
  obtain ⟨b, hb, rfl⟩ := map_eq_some_iff.mp hs
  have hlt := (hholds' op.target).asSet_iff.mp (hset op.target)
  rw [update_self] at hlt
  exact (result_size_lt_iff hholds hsize hop hb).mp hlt

/--
The bit strings are sets after every operation of a run exactly when no bit string is reset in
which a bit is set, and the last octet is never used.
-/
theorem run_asSet_iff (ops : List (Op ν)) :
    (∀ before, before <+: ops → ∃ s, run step (fun _ : ν => new) before = some s ∧
      ∀ n, (s n).AsSet (before.foldl setStep (fun _ => ∅) n)) ↔
    Along step KeepsSets (fun _ : ν => new) ops := by
  have hstep : ∀ (s : ν → BitString) (sets : ν → Finset ObjectNbr) op,
      (∀ n, (s n).Holds (sets n) ∧ (s n).size < iprBitsSize) → KeepsSets s op →
      ∃ s', step s op = some s' ∧
        ∀ n, (s' n).Holds (setStep sets op n) ∧ (s' n).size < iprBitsSize :=
    fun _ _ _ h hop => step_keeps h hop
  have honly : ∀ (s : ν → BitString) (sets : ν → Finset ObjectNbr) op s',
      (∀ n, (s n).Holds (sets n) ∧ (s n).size < iprBitsSize) → step s op = some s' →
      (∀ n, (s' n).AsSet (setStep sets op n)) → KeepsSets s op :=
    fun _ _ _ _ h hs hset => keepsSets_of_asSet h hs hset
  exact run_prefixes_iff
    (G := fun (s : ν → BitString) (sets : ν → Finset ObjectNbr) => ∀ n, (s n).AsSet (sets n))
    (fun _ _ h n => (h n).1.asSet_iff.mpr (h n).2) hstep honly
    (fun _ => ⟨new_holds, by decide⟩)

/-- After setting a bit and resetting the bit string, the bit is still set. -/
theorem reset_keeps_bit : ¬ (∀ before, before <+: [Op.set () ⟨3, by decide⟩, Op.reset ()] →
      ∃ s, run step (fun _ : Unit => new) before = some s ∧
        ∀ n, (s n).AsSet (before.foldl setStep (fun _ => ∅) n)) := by
  intro h
  obtain ⟨s, hrun, hset⟩ := h _ (prefix_refl _)
  have htest := (hset ()).test ⟨3, by decide⟩
  have hbit : (s ()).test 3 = some true := by
    cases hrun
    decide
  rw [hbit] at htest
  exact absurd htest (by decide)

end Runs

/-! ## The elements in order -/

theorem size_sets {s s' : Unit → BitString}
    (hrun : run step s (indices.map (Op.set ())) = some s') :
    (s' ()).size < iprBitsSize ↔
      (s ()).size < iprBitsSize ∧ ∀ i ∈ indices, i.val < iprBitsSizeBits - 8 := by
  have hbits : iprBitsSizeBits = iprBitsSize * 8 := rfl
  induction indices generalizing s with
  | nil =>
    cases hrun
    simp
  | cons index indices ih =>
    obtain ⟨s1, hs, hrun1⟩ := run_cons_eq_some hrun
    have hsize : (s1 ()).size < iprBitsSize ↔
        (s ()).size < iprBitsSize ∧ index.val < iprBitsSizeBits - 8 := by
      obtain ⟨b, hb, rfl⟩ := map_eq_some_iff.mp hs
      obtain rfl := some.inj ((if_pos index.isLt).symm.trans hb)
      show (if (s ()).size < index.val / 8 + 1 then index.val / 8 + 1 else (s ()).size) <
        iprBitsSize ↔ _
      split <;> omega
    refine (ih hrun1).trans ?_
    rw [hsize, forall_mem_cons, and_assoc]

theorem mem_sets {sets : Unit → Finset ObjectNbr} {j : ObjectNbr} :
    j ∈ (indices.map (Op.set ())).foldl setStep sets () ↔ j ∈ indices ∨ j ∈ sets () := by
  induction indices generalizing sets with
  | nil => simp
  | cons index indices ih =>
    rw [map_cons, foldl_cons, ih]
    simp only [setStep, setResult, Op.target, update_self, Finset.mem_insert, mem_cons]
    tauto

theorem mem_ones_sets {b : Bits} {j : ObjectNbr} :
    j ∈ (indices.foldl Bits.set b).ones ↔ j ∈ indices ∨ j ∈ b.ones := by
  induction indices generalizing b with
  | nil => simp
  | cons index indices ih =>
    rw [foldl_cons, ih, Bits.mem_ones_set, mem_cons]
    tauto

theorem scan_eq_elements (indices : List ObjectNbr) :
    ∃ s, run step (fun _ : Unit => new) (indices.map (Op.set ())) = some s ∧
      (indices.foldl Bits.set Bits.new).scan.map (·.map Fin.val) = (s ()).elements := by
  have hok : Along step ResetsEmpty (fun _ : Unit => new) (indices.map (Op.set ())) :=
    along_of_forall (fun op hop s => by
      obtain ⟨index, -, rfl⟩ := mem_map.mp hop
      trivial) _
  obtain ⟨s, hrun, hholds⟩ := run_holds hok
  have hsize := size_sets hrun
  have hmem : ∀ j, j ∈ (indices.foldl Bits.set Bits.new).ones ↔ j ∈ indices := by
    intro j
    simp [mem_ones_sets]
  refine ⟨s, hrun, ?_⟩
  by_cases hlast : ∀ i ∈ indices, i.val < iprBitsSizeBits - 8
  · obtain ⟨l, hl, hsorted, hl_mem⟩ := (hholds ()).enumerates_iff.mpr (hsize.mpr ⟨by decide, hlast⟩)
    rw [Bits.scan_eq_some fun i hi => hlast i ((hmem i).mp hi), hl, map_some]
    have hones := (indices.foldl Bits.set Bits.new).sorted.map (R := (· < ·)) (S := (· < ·))
      Fin.val (fun _ _ h => h)
    refine congrArg some (hones.eq_of_mem_iff hsorted fun i => ?_)
    rw [hl_mem, List.mem_map]
    constructor
    · rintro ⟨j, hj, rfl⟩
      exact ⟨j.isLt, mem_sets.mpr (.inl ((hmem j).mp hj))⟩
    · rintro ⟨hi, hin⟩
      rcases mem_sets.mp hin with hin | hin
      · exact ⟨⟨i, hi⟩, (hmem _).mpr hin, rfl⟩
      · cases hin
  · rw [(hholds ()).elements_eq_none fun hlt => hlast (hsize.mp hlt).2]
    have hscan : (indices.foldl Bits.set Bits.new).scan = none := by
      refine if_neg fun hall => hlast fun i hi => ?_
      exact of_decide_eq_true (all_eq_true.mp hall i ((hmem i).mpr hi))
    rw [hscan]
    rfl

end BitString

end OpenAmq
