import OpenAmq.Lib.Block

/-!
# Mother buckets

A mother is a block of memory into which a stream is read, and from which slaves are claimed that
hold parts of it.

* `Mother` — the block with its counters
* `Mother.unfilled`, `overhang`
* `Mother.allocate`, `claim`, `fill`
-/

namespace OpenAmq

open Lib

def iprMotherBucketSize : Nat := 65536

/-- An `ipr_mother`. The slaves are not counted. -/
structure Mother where
  allocated : Nat := 0
  filled : Nat := 0
  claimed : Nat := 0
  closed : Bool := false
  data : Nat → UInt8 := fun _ => 0

/-- What `ipr_mother_allocate` leaves -/
structure Allocation where
  /-- the mother as it has been closed, if a new one has been started -/
  closed : Option Mother
  /-- the mother that the caller goes on with -/
  mother : Mother
  /-- where the space begins in its data -/
  data : Nat

namespace Mother

variable {self : Mother} {size : Nat}

/-- The mother when nothing more is allocated in it -/
def ended (self : Mother) : Mother :=
  { self with filled := min self.filled self.allocated, closed := true }

/-- A new mother, which takes over what has been filled and not allocated -/
def successor (self : Mother) (size : Nat) : Mother :=
  let octets := readBlock self.data self.allocated (self.filled - self.allocated)
  { allocated := size, filled := octets.length, data := writeBlock (fun _ => 0) 0 octets }

/-- `none`: the system panics. -/
def allocate (self : Mother) (size : Nat) : Option Allocation :=
  if iprMotherBucketSize < self.allocated - self.claimed + size then none
  else
    some <|
      if iprMotherBucketSize - self.allocated < size then
        { closed := some self.ended, mother := self.successor size, data := 0 }
      else
        { closed := none,
          mother := { self with allocated := self.allocated + size },
          data := self.allocated }

def unfilled (self : Mother) : Nat :=
  if self.closed then self.allocated - self.filled else iprMotherBucketSize - self.filled

def overhang (self : Mother) : Nat := self.filled - self.claimed

/-- Returns where the slave begins, if there is one. `none`: the assertion fails. -/
def claim (self : Mother) (size : Nat) : Option (Option Nat × Mother) :=
  if size ≤ self.overhang then
    if self.claimed + size ≤ self.allocated then
      some (some self.claimed, { self with claimed := self.claimed + size })
    else none
  else some (none, self)

/-- `none`: an assertion fails. -/
def fill (self : Mother) (size : Nat) : Option Mother :=
  if self.filled + size ≤ (if self.closed then self.allocated else iprMotherBucketSize) then
    some { self with filled := self.filled + size }
  else none

/-! ## The cases that succeed -/

theorem allocate_here (h : self.allocated + size ≤ iprMotherBucketSize) : self.allocate size =
      some ⟨none, { self with allocated := self.allocated + size }, self.allocated⟩ := by
  unfold allocate
  rw [if_neg (by omega), if_neg (by omega)]

theorem allocate_new (hclaimed : self.allocated = self.claimed)
    (hallocated : self.allocated ≤ iprMotherBucketSize) (hsize : size ≤ iprMotherBucketSize)
    (h : ¬self.allocated + size ≤ iprMotherBucketSize) :
    self.allocate size = some ⟨some self.ended, self.successor size, 0⟩ := by
  unfold allocate
  rw [if_neg (by omega), if_pos (by omega)]

theorem successor_ahead (self : Mother) (size : Nat) (hclaimed : self.allocated = self.claimed) :
    readBlock (self.successor size).data (self.successor size).claimed
      (self.successor size).overhang = readBlock self.data self.claimed self.overhang := by
  have hread := readBlock_writeBlock (fun _ => 0) 0 (readBlock self.data self.claimed self.overhang)
  unfold successor
  rw [hclaimed]
  exact hread

theorem claim_some (hsize : size ≤ self.overhang)
    (hallocated : self.claimed + size ≤ self.allocated) :
    self.claim size = some (some self.claimed, { self with claimed := self.claimed + size }) := by
  unfold claim
  rw [if_pos hsize, if_pos hallocated]

theorem claim_none (hsize : self.overhang < size) : self.claim size = some (none, self) :=
  if_neg (Nat.not_le.mpr hsize)

theorem fill_open (hclosed : self.closed = false) (h : self.filled + size ≤ iprMotherBucketSize) :
    self.fill size = some { self with filled := self.filled + size } := by
  unfold fill
  rw [hclosed]
  exact if_pos h

end Mother

end OpenAmq
