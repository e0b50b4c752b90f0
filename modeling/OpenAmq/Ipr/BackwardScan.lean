import OpenAmq.Ipr.Bits

/-!
# Scanning a bit string backwards, and for zeros

`ipr_bits_last`, `prev`, `next_zero` and `prev_zero` mask the octet of the index, look for the
next octet with something in it and take a bit of that octet from a table.

* `last`, `prev`, `nextZero`, `prevZero` — the four methods
* `Scans` — what the methods are for, and that they stay inside the bit string
* `InReach` — the bit strings and indices for which they do so
* `scans_iff` — the scans are right for these and no others

The backward scans use the table of the lowest bit, so that they miss the bits above it.
-/

namespace OpenAmq

open OpenAmq.Lib Option

namespace BitString

/-! ## The methods -/

/-- Index of first zero bit in byte -/
def sFirstBitOff (x : BitVec 8) : Nat :=
  [0, 1, 0, 2, 0, 1, 0, 3, 0, 1, 0, 2, 0, 1, 0, 4, 0, 1, 0, 2, 0, 1, 0, 3, 0, 1, 0, 2, 0, 1, 0, 5,
   0, 1, 0, 2, 0, 1, 0, 3, 0, 1, 0, 2, 0, 1, 0, 4,
   0, 1, 0, 2, 0, 1, 0, 3, 0, 1, 0, 2, 0, 1, 0, 6,
   0, 1, 0, 2, 0, 1, 0, 3, 0, 1, 0, 2, 0, 1, 0, 4,
   0, 1, 0, 2, 0, 1, 0, 3, 0, 1, 0, 2, 0, 1, 0, 5,
   0, 1, 0, 2, 0, 1, 0, 3, 0, 1, 0, 2, 0, 1, 0, 4,
   0, 1, 0, 2, 0, 1, 0, 3, 0, 1, 0, 2, 0, 1, 0, 7,
   0, 1, 0, 2, 0, 1, 0, 3, 0, 1, 0, 2, 0, 1, 0, 4,
   0, 1, 0, 2, 0, 1, 0, 3, 0, 1, 0, 2, 0, 1, 0, 5,
   0, 1, 0, 2, 0, 1, 0, 3, 0, 1, 0, 2, 0, 1, 0, 4,
   0, 1, 0, 2, 0, 1, 0, 3, 0, 1, 0, 2, 0, 1, 0, 6,
   0, 1, 0, 2, 0, 1, 0, 3, 0, 1, 0, 2, 0, 1, 0, 4,
   0, 1, 0, 2, 0, 1, 0, 3, 0, 1, 0, 2, 0, 1, 0, 5,
   0, 1, 0, 2, 0, 1, 0, 3, 0, 1, 0, 2, 0, 1, 0, 4,
   0, 1, 0, 2, 0, 1, 0, 3, 0, 1, 0, 2, 0, 1, 0, 0].getD x.toNat 0

/-- Mask clears all bits higher than current bit index 0-7 -/
def clearLeadingBits (bitNbr : Nat) : BitVec 8 :=
  [0, 1, 3, 7, 15, 31, 63, 127].getD bitNbr 0

/-- Mask sets all bits lower than current bit index 0-7 -/
def setTrailingBits (bitNbr : Nat) : BitVec 8 :=
  [0, 1, 3, 7, 15, 31, 63, 127].getD bitNbr 0

/-- Mask sets all bits higher than current bit index 0-7 -/
def setLeadingBits (bitNbr : Nat) : BitVec 8 :=
  [254, 252, 248, 240, 224, 192, 128, 0].getD bitNbr 0

/--
`while (cur_byte == blank && byte_nbr < self->size) cur_byte = self->data [++byte_nbr];`, with
`left` octets before the end of those in use. `none` is a read outside the bit string.
-/
def ascend (self : BitString) (blank : BitVec 8) :
    (left byteNbr : Nat) → (curByte : BitVec 8) → Option (Nat × BitVec 8)
  | 0, byteNbr, curByte => some (byteNbr, curByte)
  | left + 1, byteNbr, curByte =>
    if curByte = blank then
      if byteNbr + 1 < iprBitsSize then
        self.ascend blank left (byteNbr + 1) (self.data (byteNbr + 1))
      else none
    else some (byteNbr, curByte)

/--
`while (cur_byte == blank && byte_nbr < self->size) cur_byte = self->data [--byte_nbr];`. Below
zero `byte_nbr` becomes the largest unsigned integer, which is outside the bit string.
-/
def descend (self : BitString) (blank : BitVec 8) :
    (byteNbr : Nat) → (curByte : BitVec 8) → Option (Nat × BitVec 8)
  | 0, curByte => if curByte = blank ∧ 0 < self.size then none else some (0, curByte)
  | byteNbr + 1, curByte =>
    if curByte = blank ∧ byteNbr + 1 < self.size then
      self.descend blank byteNbr (self.data byteNbr)
    else some (byteNbr + 1, curByte)

/-- `ipr_bits_prev`: as for `next`, the inner `none` is the return code -1. -/
def prev (self : BitString) (index : Nat) : Option (Option Nat) :=
  if index < iprBitsSizeBits then
    (self.descend 0 (index / 8)
      (self.data (index / 8) &&& clearLeadingBits (index % 8))).map fun (byteNbr, curByte) =>
        if curByte > 0 then some (byteNbr * 8 + sFirstBitOn curByte) else none
  else none

/-- `ipr_bits_last` -/
def last (self : BitString) : Option (Option Nat) :=
  (self.test (iprBitsSizeBits - 1)).bind fun bit =>
    if bit then some (some 0) else self.prev (iprBitsSizeBits - 1)

/-- `ipr_bits_next_zero` -/
def nextZero (self : BitString) (index : Nat) : Option (Option Nat) :=
  if index < iprBitsSizeBits then
    (self.ascend 255 (self.size - index / 8) (index / 8)
      (self.data (index / 8) ||| setTrailingBits (index % 8))).map fun (byteNbr, curByte) =>
        if curByte < 255 then some (byteNbr * 8 + sFirstBitOff curByte) else none
  else none

/-- `ipr_bits_prev_zero` -/
def prevZero (self : BitString) (index : Nat) : Option (Option Nat) :=
  if index < iprBitsSizeBits then
    (self.descend 255 (index / 8)
      (self.data (index / 8) ||| setLeadingBits (index % 8))).map fun (byteNbr, curByte) =>
        if curByte < 255 then some (byteNbr * 8 + sFirstBitOff curByte) else none
  else none

/-! ## What they are for -/

/-- A scan stays inside the bit string and gives what it should. -/
def Gives (r : Option (Option Nat)) (spec : Option Nat → Prop) : Prop :=
  ∃ s, r = some s ∧ spec s

theorem gives_some {r : Option Nat} {spec : Option Nat → Prop} : Gives (some r) spec ↔ spec r := by
  constructor
  · rintro ⟨s, hs, hspec⟩
    cases hs
    exact hspec
  · intro hspec
    exact ⟨r, rfl, hspec⟩

theorem not_gives_none {spec : Option Nat → Prop} : ¬ Gives none spec := by
  rintro ⟨s, hs, -⟩
  cases hs

def IsOne (self : BitString) (i : Nat) : Prop :=
  wordBit self.data i = true

def IsZero (self : BitString) (i : Nat) : Prop :=
  wordBit self.data i = false

structure Scans (b : BitString) (index : ObjectNbr) : Prop where
  last : Gives b.last (IsPrev b.IsOne iprBitsSizeBits)
  prev : Gives (b.prev index.val) (IsPrev b.IsOne index.val)
  nextZero : Gives (b.nextZero index.val)
    (IsNext (fun i => i < iprBitsSizeBits ∧ b.IsZero i) index.val)
  prevZero : Gives (b.prevZero index.val) (IsPrev b.IsZero index.val)

/--
A backward scan for `P` comes to the bit it should: the only one of its octet below the index,
in the octet of the index or with that one in use. When `free` is false the bit at the index is
taken for one below it. With no bit to come to, the octet of the index must not be in use.
-/
def Backward (self : BitString) (P : Nat → Prop) (free : Prop) (index : Nat) : Prop :=
  (∃ m, IsPrev P index (some m) ∧ (∀ k, k / 8 = m / 8 → k < index → P k → k = m) ∧
    (m / 8 = index / 8 ∨ free ∧ index / 8 < self.size)) ∨
  (IsPrev P index none ∧ free ∧ self.size ≤ index / 8)

/-- A forward scan for zeros comes to the bit it should. -/
def Forward (self : BitString) (index : Nat) : Prop :=
  self.IsOne index ∧ ((∃ m, IsNext (fun i => i < iprBitsSizeBits ∧ self.IsZero i) index (some m) ∧
      (m / 8 = index / 8 ∨ m / 8 ≤ self.size)) ∨
    (IsNext (fun i => i < iprBitsSizeBits ∧ self.IsZero i) index none ∧ self.size < iprBitsSize))

/-- The four scans come to the bits they should. -/
structure InReach (b : BitString) (index : ObjectNbr) : Prop where
  last : b.IsZero (iprBitsSizeBits - 1) ∧ b.Backward b.IsOne True (iprBitsSizeBits - 1)
  prev : b.Backward b.IsOne True index.val
  nextZero : b.Forward index.val
  prevZero : b.Backward b.IsZero (b.IsOne index.val) index.val

/-! ## Ones and zeros -/

/-- What a scan looks for in an octet, and the table that gives the lowest place of it. -/
structure Finder where
  blank : BitVec 8
  hit : BitVec 8 → Nat → Bool
  first : BitVec 8 → Nat
  blank_iff : ∀ x, x = blank ↔ ∀ k < 8, hit x k = false
  first_spec : ∀ x, x ≠ blank →
    first x < 8 ∧ hit x (first x) = true ∧ ∀ k < first x, hit x k = false

variable {k j byteNbr index : Nat} {curByte : BitVec 8} {free : Prop}

theorem sFirstBitOff_spec (x : BitVec 8) (hx : x ≠ 255) : sFirstBitOff x < 8 ∧
    (!x.getLsbD (sFirstBitOff x)) = true ∧
      ∀ k < sFirstBitOff x, (!x.getLsbD k) = false := by
  have h : x.toNat = 255 ∨ sFirstBitOff x < 8 ∧ (!x.toNat.testBit (sFirstBitOff x)) = true ∧
      ∀ k < sFirstBitOff x, (!x.toNat.testBit k) = false :=
    forall_getD (P := fun n v => n = 255 ∨ v < 8 ∧ (!n.testBit v) = true ∧
      ∀ k < v, (!n.testBit k) = false) 0 x.isLt (by decide +kernel)
  exact h.resolve_left fun h0 => hx (BitVec.eq_of_toNat_eq h0)

namespace Finder

/-- The scans for bits that are set. -/
def ones : Finder where
  blank := 0
  hit x k := x.getLsbD k
  first := sFirstBitOn
  blank_iff x := by
    refine ⟨fun h k _ => by rw [h]; exact BitVec.getLsbD_zero, fun h => ?_⟩
    refine BitVec.eq_of_getLsbD_eq fun k hk => ?_
    rw [h k hk]
    exact BitVec.getLsbD_zero.symm
  first_spec := sFirstBitOn_spec

/-- The scans for bits that are clear. -/
def zeros : Finder where
  blank := 255
  hit x k := !x.getLsbD k
  first := sFirstBitOff
  blank_iff x := by
    have hones : ∀ k < 8, (255 : BitVec 8).getLsbD k = true := by decide
    refine ⟨fun h k hk => by rw [h, hones k hk]; rfl, fun h => ?_⟩
    refine BitVec.eq_of_getLsbD_eq fun k hk => ?_
    rw [hones k hk]
    simpa using h k hk
  first_spec := sFirstBitOff_spec

/-- The bit of a bit string is one that the scan looks for. -/
def Holds (F : Finder) (data : Nat → BitVec 8) (i : Nat) : Prop :=
  F.hit (data (i / 8)) (i % 8) = true

/-- The bit number that a scan gives for the octet it stops at. -/
def found (F : Finder) (r : Nat × BitVec 8) : Option Nat :=
  if r.2 = F.blank then none else some (r.1 * 8 + F.first r.2)

variable {F : Finder} {data : Nat → BitVec 8} {i : Nat}

theorem hit_of_first {x : BitVec 8} (h : x ≠ F.blank) : F.hit x (F.first x) = true :=
  (F.first_spec x h).2.1

theorem first_le {x : BitVec 8} (h : x ≠ F.blank) (hk : F.hit x k = true) : F.first x ≤ k := by
  refine Nat.le_of_not_lt fun hlt => ?_
  rw [(F.first_spec x h).2.2 k hlt] at hk
  cases hk

theorem holds_word (hj : j < 8) : F.Holds data (k * 8 + j) ↔ F.hit (data k) j = true := by
  rw [Holds, show (k * 8 + j) / 8 = k by omega, show (k * 8 + j) % 8 = j by omega]

theorem not_blank_of_holds (h : F.Holds data i) : data (i / 8) ≠ F.blank := by
  intro hblank
  rw [Holds, (F.blank_iff _).mp hblank _ (Nat.mod_lt _ (by omega))] at h
  cases h

theorem holds_first (h : data k ≠ F.blank) : F.Holds data (k * 8 + F.first (data k)) :=
  (holds_word (F.first_spec _ h).1).mpr (hit_of_first h)

theorem first_le_of_holds (h : data k ≠ F.blank) (hi : F.Holds data i) (hk : i / 8 = k) :
    k * 8 + F.first (data k) ≤ i := by
  subst hk
  have hle := first_le h hi
  omega

end Finder

@[simp] theorem zeros_holds {data : Nat → BitVec 8} {i : Nat} :
    Finder.zeros.Holds data i ↔ wordBit data i = false := by
  rw [Finder.Holds, wordBit]
  simp [Finder.zeros]

/-! ## The loops -/

variable {self : BitString} {F : Finder}

theorem descend_of_ne (h : curByte ≠ F.blank) :
    self.descend F.blank byteNbr curByte = some (byteNbr, curByte) := by
  cases byteNbr with
  | zero | succ byteNbr => simp [descend, h]

theorem descend_of_unused (h : self.size ≤ byteNbr) :
    self.descend F.blank byteNbr curByte = some (byteNbr, curByte) := by
  cases byteNbr with
  | zero | succ byteNbr => rw [descend, if_neg (by omega)]

theorem descend_of_blank : ∀ {byteNbr : Nat}, byteNbr < self.size →
    (∃ j, j < byteNbr ∧ self.data j ≠ F.blank ∧ (∀ k, j < k → k < byteNbr → self.data k = F.blank) ∧
      self.descend F.blank byteNbr F.blank = some (j, self.data j)) ∨
    ((∀ k, k < byteNbr → self.data k = F.blank) ∧ self.descend F.blank byteNbr F.blank = none) := by
  intro byteNbr
  induction byteNbr with
  | zero =>
    intro hsize
    refine .inr ⟨fun k hk => absurd hk (Nat.not_lt_zero _), ?_⟩
    rw [descend, if_pos ⟨rfl, hsize⟩]
  | succ byteNbr ih =>
    intro hsize
    rw [descend, if_pos ⟨rfl, hsize⟩]
    by_cases hblank : self.data byteNbr = F.blank
    · rw [hblank]
      rcases ih (by omega) with ⟨j, hj, hne, hbetween, heq⟩ | ⟨hall, heq⟩
      · refine .inl ⟨j, by omega, hne, ?_, heq⟩
        intro k hjk hk
        rcases Nat.eq_or_lt_of_le (Nat.le_of_lt_succ hk) with rfl | hlt
        · exact hblank
        · exact hbetween k hjk hlt
      · refine .inr ⟨?_, heq⟩
        intro k hk
        rcases Nat.eq_or_lt_of_le (Nat.le_of_lt_succ hk) with rfl | hlt
        · exact hblank
        · exact hall k hlt
    · refine .inl ⟨byteNbr, Nat.lt_succ_self _, hblank, ?_, descend_of_ne hblank⟩
      intro k hjk hk
      omega

theorem ascend_of_ne {left : Nat} (h : curByte ≠ F.blank) :
    self.ascend F.blank left byteNbr curByte = some (byteNbr, curByte) := by
  cases left with
  | zero => rfl
  | succ left => rw [ascend, if_neg h]

/-- From an octet with nothing in it, on to the next one or to the end of those in use. -/
theorem ascend_of_blank : ∀ {left byteNbr : Nat}, left = self.size - byteNbr →
    byteNbr < iprBitsSize →
    (∃ j, byteNbr < j ∧ j ≤ self.size ∧ j < iprBitsSize ∧ self.data j ≠ F.blank ∧
      (∀ k, byteNbr < k → k < j → self.data k = F.blank) ∧
      self.ascend F.blank left byteNbr F.blank = some (j, self.data j)) ∨
    ((∀ k, byteNbr < k → k ≤ self.size → k < iprBitsSize → self.data k = F.blank) ∧
      (self.ascend F.blank left byteNbr F.blank).map F.found =
        if self.size < iprBitsSize then some none else none) := by
  intro left
  induction left with
  | zero =>
    intro byteNbr hleft hinside
    refine .inr ⟨fun k hk hsize _ => by omega, ?_⟩
    rw [if_pos (by omega)]
    simp [ascend, Finder.found]
  | succ left ih =>
    intro byteNbr hleft hinside
    rw [ascend, if_pos rfl]
    by_cases hnext : byteNbr + 1 < iprBitsSize
    · rw [if_pos hnext]
      by_cases hblank : self.data (byteNbr + 1) = F.blank
      · rw [hblank]
        rcases @ih (byteNbr + 1) (by omega) hnext with
          ⟨j, hj, hsize, hjinside, hne, hbetween, heq⟩ | ⟨hall, heq⟩
        · refine .inl ⟨j, by omega, hsize, hjinside, hne, ?_, heq⟩
          intro k hk hkj
          rcases Nat.eq_or_lt_of_le (Nat.succ_le_of_lt hk) with rfl | hlt
          · exact hblank
          · exact hbetween k hlt hkj
        · refine .inr ⟨?_, heq⟩
          intro k hk hksize hkinside
          rcases Nat.eq_or_lt_of_le (Nat.succ_le_of_lt hk) with rfl | hlt
          · exact hblank
          · exact hall k hlt hksize hkinside
      · refine .inl ⟨byteNbr + 1, Nat.lt_succ_self _, by omega, hnext, hblank, ?_,
          ascend_of_ne hblank⟩
        intro k hk hkj
        omega
    · rw [if_neg hnext, if_neg (by omega)]
      exact .inr ⟨fun k hk _ hkinside => by omega, rfl⟩

/-! ## Backward scans -/

/-- What the octet at the index holds below `bound`, once the mask has been applied. -/
def Masked (F : Finder) (self : BitString) (index bound : Nat) (curByte : BitVec 8) : Prop :=
  ∀ k < 8, F.hit curByte k = true ↔
    F.hit (self.data (index / 8)) k = true ∧ index / 8 * 8 + k < bound

theorem backward_masked {bound : Nat} (hbound : index ≤ bound)
    (hfree : free ↔ ∀ i, index ≤ i → i < bound → ¬ F.Holds self.data i)
    (hcur : Masked F self index bound curByte) (hne : curByte ≠ F.blank) :
    IsPrev (F.Holds self.data) index (some (index / 8 * 8 + F.first curByte)) ↔
      self.Backward (F.Holds self.data) free index := by
  obtain ⟨hlt, hhit, -⟩ := F.first_spec curByte hne
  obtain ⟨hbit, hbelow⟩ := (hcur _ hlt).mp hhit
  generalize hl : index / 8 * 8 + F.first curByte = l at hbelow
  have hl8 : l / 8 = index / 8 := by omega
  have hholds : F.Holds self.data l := by
    rw [← hl]
    exact (Finder.holds_word hlt).mpr hbit
  -- the table gives the lowest bit of the octet
  have hlowest : ∀ k, k / 8 = index / 8 → k < index → F.Holds self.data k → l ≤ k := by
    intro k hk hkindex hkbit
    rw [Finder.Holds, hk] at hkbit
    have hle := Finder.first_le hne ((hcur (k % 8) (Nat.mod_lt _ (by omega))).mpr ⟨hkbit, by omega⟩)
    omega
  constructor
  · rintro ⟨hindex, -, hbetween⟩
    refine .inl ⟨l, ⟨hindex, hholds, hbetween⟩, ?_, .inl hl8⟩
    intro k hk hkindex hkbit
    have hle := hlowest k (hk.trans hl8) hkindex hkbit
    rcases Nat.eq_or_lt_of_le hle with rfl | hlk
    · rfl
    · exact absurd hkbit (hbetween k hlk hkindex)
  · rintro (⟨m, ⟨hm, hmbit, hbetween⟩, hlone, hm8 | ⟨hf, -⟩⟩ | ⟨hnone, hf, -⟩)
    · have hle := hlowest m hm8 hm hmbit
      have hlm := hlone l (hl8.trans hm8.symm) (by omega) hholds
      rw [hlm]
      exact ⟨hm, hmbit, hbetween⟩
    · have hlindex : l < index := by
        refine Nat.lt_of_not_le fun hle => ?_
        exact hfree.mp hf l hle hbelow hholds
      have hlm : l ≤ m := by
        refine Nat.le_of_not_lt fun hml => ?_
        exact hbetween l hml hlindex hholds
      have hm8 : m / 8 = index / 8 := by omega
      rw [hlone l (hl8.trans hm8.symm) hlindex hholds]
      exact ⟨hm, hmbit, hbetween⟩
    · rcases Nat.lt_or_ge l index with h | h
      · exact absurd hholds (hnone l h)
      · exact absurd hholds (hfree.mp hf l h hbelow)

theorem backward_octet (hf : free) (hsize : index / 8 < self.size) (hj : j < index / 8)
    (hne : self.data j ≠ F.blank) (hbetween : ∀ k, j < k → k < index / 8 → self.data k = F.blank)
    (hhere : ∀ i, i / 8 = index / 8 → i < index → ¬ F.Holds self.data i) :
    IsPrev (F.Holds self.data) index (some (j * 8 + F.first (self.data j))) ↔
      self.Backward (F.Holds self.data) free index := by
  have hlt := (F.first_spec _ hne).1
  have hholds := Finder.holds_first hne
  generalize hl : j * 8 + F.first (self.data j) = l at hholds
  have hl8 : l / 8 = j := by omega
  have hlowest : ∀ k, k / 8 = j → F.Holds self.data k → l ≤ k := by
    intro k hk hkbit
    rw [← hl]
    exact Finder.first_le_of_holds hne hkbit hk
  -- a bit below the index stands in that octet or before it
  have hle : ∀ k, k < index → F.Holds self.data k → k / 8 ≤ j := by
    intro k hk hkbit
    refine Nat.le_of_not_lt fun hjk => ?_
    rcases Nat.eq_or_lt_of_le (Nat.div_le_div_right (Nat.le_of_lt hk)) with h8 | h8
    · exact hhere k h8 hk hkbit
    · exact Finder.not_blank_of_holds hkbit (hbetween _ hjk h8)
  constructor
  · rintro ⟨hindex, -, hnone⟩
    refine .inl ⟨l, ⟨hindex, hholds, hnone⟩, ?_, .inr ⟨hf, hsize⟩⟩
    intro k hk hkindex hkbit
    rcases Nat.eq_or_lt_of_le (hlowest k (hk.trans hl8) hkbit) with rfl | hlk
    · rfl
    · exact absurd hkbit (hnone k hlk hkindex)
  · rintro (⟨m, ⟨hm, hmbit, hnone⟩, hlone, -⟩ | ⟨hnone, -, hunused⟩)
    · have hlm : l ≤ m := by
        refine Nat.le_of_not_lt fun hml => ?_
        exact hnone l hml (by omega) hholds
      have hm8 := hle m hm hmbit
      rw [hlone l (by omega) (by omega) hholds]
      exact ⟨hm, hmbit, hnone⟩
    · omega

/-- The descent finds the previous position just if it stays in the data. -/
theorem descend_iff {bound : Nat} (hindex : index ≤ bound) (hbound : bound ≤ index / 8 * 8 + 8)
    (hfree : free ↔ ∀ i, index ≤ i → i < bound → ¬ F.Holds self.data i)
    (hcur : Masked F self index bound curByte) :
    Gives ((self.descend F.blank (index / 8) curByte).map F.found)
        (IsPrev (F.Holds self.data) index) ↔
      self.Backward (F.Holds self.data) free index := by
  by_cases hne : curByte = F.blank
  · have hhere : ∀ i, i / 8 = index / 8 → i < bound → ¬ F.Holds self.data i := by
      intro i hi hibound hbit
      have hmod : i % 8 < 8 := Nat.mod_lt _ (by omega)
      have hhit := (F.blank_iff curByte).mp hne (i % 8) hmod
      rw [Finder.Holds, hi] at hbit
      rw [(hcur _ hmod).mpr ⟨hbit, by omega⟩] at hhit
      cases hhit
    have hf : free := by
      rw [hfree]
      intro i hi hibound
      exact hhere i (by omega) hibound
    have hbelow : ∀ i, i / 8 = index / 8 → i < index → ¬ F.Holds self.data i := by
      intro i hi hiindex
      exact hhere i hi (by omega)
    rcases Nat.lt_or_ge (index / 8) self.size with hsize | hsize
    · rw [hne]
      rcases descend_of_blank (F := F) hsize with ⟨j, hj, hjne, hbetween, heq⟩ | ⟨hall, heq⟩
      · rw [heq, map_some, Finder.found, if_neg hjne,
          ← backward_octet hf hsize hj hjne hbetween hbelow]
        exact gives_some
      · -- the loop leaves the bit string, and no bit is below the index
        rw [heq]
        constructor
        · intro hnone
          exact absurd hnone not_gives_none
        · rintro (⟨m, ⟨hm, hmbit, -⟩, -⟩ | ⟨-, -, hunused⟩)
          · rcases Nat.eq_or_lt_of_le (Nat.div_le_div_right (Nat.le_of_lt hm)) with h8 | h8
            · exact absurd hmbit (hbelow m h8 hm)
            · exact absurd (hall _ h8) (Finder.not_blank_of_holds hmbit)
          · omega
    · rw [descend_of_unused hsize, map_some, Finder.found, if_pos hne]
      rw [gives_some]
      constructor
      · intro hs
        exact .inr ⟨hs, hf, hsize⟩
      · rintro (⟨m, ⟨hm, hmbit, -⟩, -, hm8 | ⟨-, hused⟩⟩ | ⟨hnone, -⟩)
        · exact absurd hmbit (hbelow m hm8 hm)
        · omega
        · exact hnone
  · rw [descend_of_ne hne, map_some, Finder.found, if_neg hne,
      ← backward_masked hindex hfree hcur hne]
    exact gives_some

/-! ## The masks -/

theorem getLsbD_clearLeadingBits (hj : j < 8) (hk : k < 8) :
    (clearLeadingBits j).getLsbD k = decide (k < j) := by
  have h : ∀ j < 8, ∀ k < 8, (clearLeadingBits j).getLsbD k = decide (k < j) := by decide
  exact h j hj k hk

theorem getLsbD_setTrailingBits (hj : j < 8) (hk : k < 8) :
    (setTrailingBits j).getLsbD k = decide (k < j) :=
  getLsbD_clearLeadingBits hj hk

theorem getLsbD_setLeadingBits (hj : j < 8) (hk : k < 8) :
    (setLeadingBits j).getLsbD k = decide (j < k) :=
  getLsbD_clearTrailingBits hj hk

theorem prev_masked (self : BitString) (index : Nat) : Masked .ones self index index
      (self.data (index / 8) &&& clearLeadingBits (index % 8)) := by
  intro k hk
  simp only [Finder.ones, BitVec.getLsbD_and,
    getLsbD_clearLeadingBits (Nat.mod_lt index (by decide : 0 < 8)) hk, Bool.and_eq_true,
    decide_eq_true_eq]
  refine and_congr_right fun _ => ?_
  omega

theorem prevZero_masked (self : BitString) (index : Nat) : Masked .zeros self index (index + 1)
      (self.data (index / 8) ||| setLeadingBits (index % 8)) := by
  intro k hk
  simp only [Finder.zeros, BitVec.getLsbD_or,
    getLsbD_setLeadingBits (Nat.mod_lt index (by decide : 0 < 8)) hk, Bool.not_or,
    Bool.and_eq_true, Bool.not_eq_true', decide_eq_false_iff_not]
  refine and_congr_right fun _ => ?_
  omega

theorem nextZero_masked (self : BitString) (hk : k < 8) :
    Finder.zeros.hit (self.data (index / 8) ||| setTrailingBits (index % 8)) k = true ↔
      Finder.zeros.hit (self.data (index / 8)) k = true ∧ index ≤ index / 8 * 8 + k := by
  simp only [Finder.zeros, BitVec.getLsbD_or,
    getLsbD_setTrailingBits (Nat.mod_lt index (by decide : 0 < 8)) hk, Bool.not_or,
    Bool.and_eq_true, Bool.not_eq_true', decide_eq_false_iff_not]
  refine and_congr_right fun _ => ?_
  omega

theorem ones_found (r : Nat × BitVec 8) :
    (if r.2 > 0 then some (r.1 * 8 + sFirstBitOn r.2) else none) = Finder.ones.found r := by
  have h : ∀ x : BitVec 8, x > 0 ↔ ¬ x = 0 := fun x => by bv_omega
  simp only [h, ite_not]
  rfl

theorem zeros_found (r : Nat × BitVec 8) :
    (if r.2 < 255 then some (r.1 * 8 + sFirstBitOff r.2) else none) = Finder.zeros.found r := by
  have h : ∀ x : BitVec 8, x < 255 ↔ ¬ x = 255 := fun x => by bv_omega
  simp only [h, ite_not]
  rfl

/-! ## When the scans are right -/

theorem isZero_iff {i : Nat} : Finder.zeros.Holds self.data i ↔ self.IsZero i :=
  zeros_holds

theorem prev_iff (self : BitString) (h : index < iprBitsSizeBits) :
    Gives (self.prev index) (IsPrev self.IsOne index) ↔ self.Backward self.IsOne True index := by
  rw [prev, if_pos h]
  simp only [ones_found]
  refine descend_iff (F := Finder.ones) (Nat.le_refl _) (by omega) ?_ (prev_masked self index)
  refine ⟨fun _ i hle hlt => ?_, fun _ => trivial⟩
  omega

theorem prevZero_iff (self : BitString) (h : index < iprBitsSizeBits) :
    Gives (self.prevZero index) (IsPrev self.IsZero index) ↔
      self.Backward self.IsZero (self.IsOne index) index := by
  have hholds : Finder.zeros.Holds self.data = self.IsZero := by
    funext i
    exact propext isZero_iff
  rw [prevZero, if_pos h, ← hholds]
  simp only [zeros_found]
  refine descend_iff (F := Finder.zeros) (Nat.le_succ _) (by omega) ?_ (prevZero_masked self index)
  constructor
  · intro hone i hle hlt hzero
    obtain rfl : i = index := by omega
    rw [zeros_holds, hone] at hzero
    cases hzero
  · intro hno
    have hat := hno index (Nat.le_refl _) (Nat.lt_succ_self _)
    rw [zeros_holds, Bool.not_eq_false] at hat
    exact hat

theorem last_iff (self : BitString) : Gives self.last (IsPrev self.IsOne iprBitsSizeBits) ↔
      self.IsZero (iprBitsSizeBits - 1) ∧ self.Backward self.IsOne True (iprBitsSizeBits - 1) := by
  have hlt : iprBitsSizeBits - 1 < iprBitsSizeBits := by decide
  rw [last, test_eq self hlt, bind_some]
  by_cases hbit : wordBit self.data (iprBitsSizeBits - 1) = true
  · -- the last bit is set, and 0 is given for it
    rw [if_pos hbit, gives_some]
    constructor
    · rintro ⟨-, -, hnone⟩
      exact absurd hbit (hnone _ (by decide) hlt)
    · rintro ⟨hzero, -⟩
      rw [IsZero, hbit] at hzero
      cases hzero
  · have hzero : self.IsZero (iprBitsSizeBits - 1) := Bool.eq_false_iff.mpr hbit
    rw [if_neg hbit, and_iff_right hzero, ← prev_iff self hlt]
    -- as it is not set, the bits below it are all there are
    have hsame : ∀ r, IsPrev self.IsOne iprBitsSizeBits r ↔
        IsPrev self.IsOne (iprBitsSizeBits - 1) r := by
      have hstep : ∀ k, k < iprBitsSizeBits → self.IsOne k → k < iprBitsSizeBits - 1 := by
        intro k hk hone
        refine Nat.lt_of_le_of_ne (Nat.le_pred_of_lt hk) ?_
        rintro rfl
        exact hbit hone
      intro r
      cases r with
      | none => exact ⟨fun h j hj => h j (by omega), fun h j hj hone => h j (hstep j hj hone) hone⟩
      | some m =>
        constructor
        · rintro ⟨hm, hone, hnone⟩
          exact ⟨hstep m hm hone, hone, fun k hmk hk => hnone k hmk (by omega)⟩
        · rintro ⟨hm, hone, hnone⟩
          exact ⟨by omega, hone, fun k hmk hk hk1 => hnone k hmk (hstep k hk hk1) hk1⟩
    simp only [Gives, hsame]

/-- The octet that `ipr_bits_next_zero` begins with. -/
def firstOctet (self : BitString) (index : Nat) : BitVec 8 :=
  self.data (index / 8) ||| setTrailingBits (index % 8)

theorem not_isZero_of_firstOctet {i : Nat} (hblank : self.firstOctet index = Finder.zeros.blank)
    (hi : i / 8 = index / 8) (hle : index ≤ i) : ¬ self.IsZero i := by
  intro hzero
  have hmod : i % 8 < 8 := Nat.mod_lt _ (by omega)
  have hhit := (Finder.zeros.blank_iff _).mp hblank (i % 8) hmod
  rw [← isZero_iff, Finder.Holds, hi] at hzero
  rw [firstOctet, (nextZero_masked self hmod).mpr ⟨hzero, by omega⟩] at hhit
  cases hhit

theorem isNext_of_octet (hblank : self.firstOctet index = Finder.zeros.blank) (hj : index / 8 < j)
    (hinside : j < iprBitsSize) (hne : self.data j ≠ Finder.zeros.blank)
    (hbetween : ∀ k, index / 8 < k → k < j → self.data k = Finder.zeros.blank) :
    IsNext (fun i => i < iprBitsSizeBits ∧ self.IsZero i) index
      (some (j * 8 + Finder.zeros.first (self.data j))) := by
  have hlt := (Finder.zeros.first_spec _ hne).1
  have hzero := isZero_iff.mp (Finder.holds_first hne)
  refine ⟨by omega, ⟨bits_div_eight.mpr (by omega), hzero⟩, ?_⟩
  rintro k hk hkl ⟨-, hkzero⟩
  have hkholds := isZero_iff.mpr hkzero
  rcases Nat.lt_trichotomy (k / 8) j with h8 | h8 | h8
  · rcases Nat.eq_or_lt_of_le (Nat.div_le_div_right (Nat.le_of_lt hk)) with h8' | h8'
    · exact not_isZero_of_firstOctet hblank h8'.symm (Nat.le_of_lt hk) hkzero
    · exact Finder.not_blank_of_holds hkholds (hbetween _ h8' h8)
  · have hle := Finder.first_le_of_holds hne hkholds h8
    omega
  · omega

/-- With nothing in the first octet, the zero to come to is in one up to the last one read. -/
theorem forward_of_blank (hinside : index / 8 < iprBitsSize)
    (hblank : self.firstOctet index = Finder.zeros.blank) :
    Gives ((self.ascend Finder.zeros.blank (self.size - index / 8) (index / 8)
        Finder.zeros.blank).map Finder.zeros.found)
        (IsNext (fun i => i < iprBitsSizeBits ∧ self.IsZero i) index) ↔
      self.Forward index := by
  have hone : self.IsOne index := by
    have hat := not_isZero_of_firstOctet hblank rfl (Nat.le_refl _)
    rwa [IsZero, Bool.not_eq_false] at hat
  rw [Forward, and_iff_right hone]
  rcases ascend_of_blank (F := Finder.zeros) rfl hinside with
    ⟨j, hj, hsize, hjinside, hne, hbetween, heq⟩ | ⟨hall, heq⟩
  · have hlt := (Finder.zeros.first_spec _ hne).1
    have hnext := isNext_of_octet hblank hj hjinside hne hbetween
    rw [heq, map_some, Finder.found, if_neg hne, gives_some]
    exact ⟨fun _ => .inl ⟨_, hnext, .inr (by omega)⟩, fun _ => hnext⟩
  · rw [heq]
    constructor
    · intro hgives
      by_cases hsize : self.size < iprBitsSize
      · rw [if_pos hsize, gives_some] at hgives
        exact .inr ⟨hgives, hsize⟩
      · rw [if_neg hsize] at hgives
        exact absurd hgives not_gives_none
    · rintro (⟨m, ⟨hm, ⟨hmbits, hmzero⟩, -⟩, hm8⟩ | ⟨hnone, hsize⟩)
      · -- a zero up to the octet after those in use would have been come to
        rcases Nat.eq_or_lt_of_le (Nat.div_le_div_right (c := 8) (Nat.le_of_lt hm)) with h8 | h8
        · exact absurd hmzero (not_isZero_of_firstOctet hblank h8.symm (Nat.le_of_lt hm))
        · exact absurd (hall _ h8 (by omega) (bits_div_eight.mp hmbits))
            (Finder.not_blank_of_holds (isZero_iff.mpr hmzero))
      · rw [if_pos hsize, gives_some]
        exact hnone

theorem forward_of_ne (hinside : index / 8 < iprBitsSize)
    (hne : self.firstOctet index ≠ Finder.zeros.blank) :
    IsNext (fun i => i < iprBitsSizeBits ∧ self.IsZero i) index
        (some (index / 8 * 8 + Finder.zeros.first (self.firstOctet index))) ↔
      self.Forward index := by
  obtain ⟨hlt, hhit, hfirst⟩ := Finder.zeros.first_spec _ hne
  obtain ⟨hbit, hle⟩ := (nextZero_masked self hlt).mp hhit
  have hzero := isZero_iff.mp ((Finder.holds_word hlt).mpr hbit)
  generalize hl : index / 8 * 8 + Finder.zeros.first (self.firstOctet index) = l at hzero hle
  constructor
  · intro hs
    refine ⟨?_, .inl ⟨l, hs, .inl (by omega)⟩⟩
    -- a zero at the index would have been given for the next one
    rw [IsOne, ← Bool.not_eq_false]
    intro hat
    have hmod : index % 8 < 8 := Nat.mod_lt _ (by omega)
    have hle' := Finder.first_le hne ((nextZero_masked self hmod).mpr
      ⟨isZero_iff.mpr hat, by omega⟩)
    have hindex := hs.1
    omega
  · rintro ⟨hone, -⟩
    refine ⟨Nat.lt_of_le_of_ne hle ?_, ⟨bits_div_eight.mpr (by omega), hzero⟩, ?_⟩
    · rintro rfl
      rw [IsZero, hone] at hzero
      cases hzero
    · rintro k hk hkl ⟨-, hkzero⟩
      have hmod : k % 8 < 8 := Nat.mod_lt _ (by omega)
      have hmiss := hfirst (k % 8) (by omega)
      rw [← isZero_iff, Finder.Holds, show k / 8 = index / 8 by omega] at hkzero
      rw [firstOctet, (nextZero_masked self hmod).mpr ⟨hkzero, by omega⟩] at hmiss
      cases hmiss

theorem nextZero_iff (self : BitString) (h : index < iprBitsSizeBits) :
    Gives (self.nextZero index) (IsNext (fun i => i < iprBitsSizeBits ∧ self.IsZero i) index) ↔
      self.Forward index := by
  have hinside := bits_div_eight.mp h
  rw [nextZero, if_pos h]
  simp only [zeros_found]
  change Gives ((self.ascend Finder.zeros.blank (self.size - index / 8) (index / 8)
    (self.firstOctet index)).map Finder.zeros.found) _ ↔ _
  by_cases hblank : self.firstOctet index = Finder.zeros.blank
  · rw [hblank]
    exact forward_of_blank hinside hblank
  · rw [ascend_of_ne hblank, map_some, Finder.found, if_neg hblank, ← forward_of_ne hinside hblank]
    exact gives_some

/-- The four scans are right exactly when they come to the bits they should. -/
theorem scans_iff (self : BitString) (index : ObjectNbr) :
    self.Scans index ↔ self.InReach index := by
  constructor
  · rintro ⟨hlast, hprev, hnextZero, hprevZero⟩
    exact ⟨(last_iff self).mp hlast, (prev_iff self index.isLt).mp hprev,
      (nextZero_iff self index.isLt).mp hnextZero, (prevZero_iff self index.isLt).mp hprevZero⟩
  · rintro ⟨hlast, hprev, hnextZero, hprevZero⟩
    exact ⟨(last_iff self).mpr hlast, (prev_iff self index.isLt).mpr hprev,
      (nextZero_iff self index.isLt).mpr hnextZero,
      (prevZero_iff self index.isLt).mpr hprevZero⟩

/-- The bits 0 and 1 are set, and one octet is in use. -/
def zeroAndOne : BitString :=
  ⟨1, fun i => if i = 0 then 3 else 0⟩

/--
From bit 2, `prev` gives 0 and not 1, and both scans for zeros give bit 2 itself. The last bit
is not found at all.
-/
theorem not_scans_zeroAndOne : zeroAndOne.last = some none ∧ zeroAndOne.prev 2 = some (some 0) ∧
      zeroAndOne.nextZero 2 = some (some 2) ∧ zeroAndOne.prevZero 2 = some (some 2) ∧
      ¬ zeroAndOne.Scans ⟨2, by decide⟩ := by
  have hprev : zeroAndOne.prev 2 = some (some 0) := by decide
  refine ⟨by decide, hprev, by decide, by decide, ?_⟩
  intro h
  obtain ⟨s, hs, hright⟩ := h.prev
  obtain rfl := some.inj (hprev.symm.trans hs)
  exact hright.2.2 1 (by decide) (by decide) rfl

end BitString

end OpenAmq
