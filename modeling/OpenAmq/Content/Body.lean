import Mathlib.Algebra.BigOperators.Group.List.Basic
import Mathlib.Algebra.GroupWithZero.Nat
import OpenAmq.Content.Model
import OpenAmq.Lib.Run

/-!
# Content bodies

A content holds its body as one block that the application has set, or as the buckets that
were recorded. A reader goes over either in pieces of a frame. Here a method returns nothing
when an assertion fails in it, or when it uses a block that has been freed.

* `recordBody`, `setBody`, `getBody` — the methods that change and copy the body
* `setReader`, `replayBody`, `pass` — a reader, and a pass with it up to the end
* `body_replayed` — after any calls a pass gives the body that they describe
-/

namespace OpenAmq

open List

/-- `ASL_FRAME_MIN_SIZE` -/
def frameMinSize : Nat := 4096

/-- `asl_reader_t`; the iterator is the list of buckets from the current one on. -/
structure Reader where
  iterator : List (List UInt8)
  processed : Nat
  frameMax : Nat
  count : Nat

/-- A bucket of `size` octets has been returned. -/
def Reader.advance (reader : Reader) (size : Nat) : Option Reader :=
  if reader.count + 1 < 999999 then
    some { reader with processed := reader.processed + size, count := reader.count + 1 }
  else none

variable {self : Body}

namespace Body

/-! ## The methods -/

def new : Body := ⟨none, 0, .null, false⟩

/-- `free_fn (body_data)` when there are both, of which the second one is a fault. -/
def freeData (self : Body) : Option BodyData :=
  match self.freeFn, self.bodyData with
  | true, .block _ => some .freed
  | true, .freed => none
  | _, bodyData => some bodyData

/-- `record body` -/
def recordBody (self : Body) (bucket : List UInt8) : Option Body := do
  let buckets := self.bucketList.getD [] ++ [bucket]
  match self.bodyData with
  | .null => return { self with
      bucketList := some buckets, bodySize := self.bodySize + bucket.length }
  | _ =>
    -- a block that is freed is not forgotten
    let bodyData ← self.freeData
    return { self with
      bucketList := some buckets, bodySize := bucket.length,
      bodyData := if self.freeFn then bodyData else .null }

/-- `set body`, for a null pointer without data. -/
def setBody (self : Body) (data : Option (List UInt8)) (freeFn : Bool) : Option Body := do
  let _ ← self.freeData
  return {
    bucketList := self.bucketList.map fun _ => []
    bodySize := (data.getD []).length
    bodyData := data.elim .null .block
    freeFn := freeFn }

/-- The loop of `get body`. The offset into the buffer is an `int`. -/
def copyBuckets : List (List UInt8) → (buffer : List UInt8) → Option (List UInt8)
  | [], buffer => some buffer
  | bucket :: buckets, buffer =>
    if buffer.length < 0x80000000 then copyBuckets buckets (buffer ++ bucket) else none

/-- `get body`: the return code, and what has been copied. -/
def getBody (self : Body) (maxsize : Nat) : Option (Int × List UInt8) :=
  if self.bodySize ≤ maxsize then
    match self.bodyData with
    | .block octets => some (toInt32 (self.bodySize % 0x100000000), octets.take self.bodySize)
    | .freed => none
    | .null => (copyBuckets (self.bucketList.getD []) []).map fun buffer =>
        (toInt32 (buffer.length % 0x100000000), buffer)
  else some (-1, [])

/-- `set reader` -/
def setReader (self : Body) (frameMax : Nat) : Option Reader :=
  if frameMax < frameMinSize then none
  else
    match self.bodyData with
    | .null => some ⟨self.bucketList.getD [], 0, frameMax, 0⟩
    | _ => some ⟨[], 0, frameMax, 0⟩

/-- The branch of `replay body` for recorded buckets; empty ones are passed over. -/
def replayBuckets : (iterator : List (List UInt8)) → Reader → Option (Option (List UInt8) × Reader)
  | [], reader => some (none, { reader with iterator := [] })
  | fromBucket :: rest, reader =>
    let remainder := fromBucket.length - reader.processed
    if 0 < remainder then do
      let bucket := (fromBucket.drop reader.processed).take (min reader.frameMax remainder)
      let reader ← Reader.advance { reader with iterator := fromBucket :: rest } bucket.length
      return (some bucket, reader)
    else replayBuckets rest { reader with processed := 0 }

/-- `replay body`: the bucket, null at the end, and the reader after it. -/
def replayBody (self : Body) (reader : Reader) : Option (Option (List UInt8) × Reader) :=
  match self.bodyData with
  | .null => replayBuckets reader.iterator reader
  | .block octets =>
    let remainder := self.bodySize - reader.processed
    if 0 < remainder then do
      let bucket := (octets.drop reader.processed).take (min reader.frameMax remainder)
      let reader ← reader.advance bucket.length
      return (some bucket, reader)
    else some (none, reader)
  | .freed => if 0 < self.bodySize - reader.processed then none else some (none, reader)

/-- `replay body` until it returns null: the buckets, and the reader at the end. -/
def replayAll (self : Body) : (fuel : Nat) → Reader → Option (List (List UInt8) × Reader)
  | 0, _ => none
  | fuel + 1, reader => do
    match ← self.replayBody reader with
    | (none, reader) => return ([], reader)
    | (some bucket, reader) =>
      let r ← self.replayAll fuel reader
      return (bucket :: r.1, r.2)

/-- A pass over the body, which takes an octet for every turn. -/
def pass (self : Body) (frameMax : Nat) : Option (List (List UInt8) × Reader) := do
  self.replayAll (self.bodySize + 1) (← self.setReader frameMax)

/-! ## A pass -/

/-- The body is not a block that has been freed. -/
def Sound (self : Body) : Prop :=
  match self.bodyData with
  | .null => True
  | .block octets => self.bodySize = octets.length
  | .freed => False

/-- The pieces that the body is in: the block, or the recorded buckets. -/
def pieces (self : Body) : List (List UInt8) :=
  match self.bodyData with
  | .block octets => [octets]
  | _ => self.bucketList.getD []

/-- How many buckets a piece makes. -/
def frames (frameMax size : Nat) : Nat := (size + frameMax - 1) / frameMax

/-- How many buckets a pass gives. -/
def passFrames (self : Body) (frameMax : Nat) : Nat :=
  (self.pieces.map fun piece => frames frameMax piece.length).sum

variable {frameMax : Nat}

theorem frames_zero (hf : 0 < frameMax) : frames frameMax 0 = 0 :=
  Nat.div_eq_of_lt (by omega)

theorem frames_pos {size : Nat} (hf : 0 < frameMax) (hs : 0 < size) :
    frames frameMax size = 1 + frames frameMax (size - min frameMax size) := by
  unfold frames
  by_cases hle : size ≤ frameMax
  · rw [Nat.min_eq_right hle, Nat.sub_self, Nat.zero_add,
      Nat.div_eq_of_lt (show frameMax - 1 < frameMax by omega), Nat.add_zero]
    exact Nat.div_eq_of_lt_le (by omega) (by omega)
  · rw [Nat.min_eq_left (by omega), Nat.div_eq_sub_div hf (by omega), Nat.add_comm 1]
    congr 2
    omega

/-- The pieces that the reader has before it, the first of them in part. -/
def ahead (self : Body) (reader : Reader) : List (List UInt8) :=
  match self.bodyData with
  | .block octets => [octets]
  | _ => reader.iterator

/-- The octets of the pieces when some of the first have been processed. -/
def octetsLeft : (pieces : List (List UInt8)) → (processed : Nat) → List UInt8
  | [], _ => []
  | piece :: pieces, processed => piece.drop processed ++ pieces.flatten

def framesLeft (frameMax : Nat) : (pieces : List (List UInt8)) → (processed : Nat) → Nat
  | [], _ => 0
  | piece :: pieces, processed => frames frameMax (piece.length - processed) +
      (pieces.map fun piece => frames frameMax piece.length).sum

theorem octetsLeft_zero (pieces : List (List UInt8)) : octetsLeft pieces 0 = pieces.flatten := by
  cases pieces <;> rfl

theorem framesLeft_zero (frameMax : Nat) (pieces : List (List UInt8)) :
    framesLeft frameMax pieces 0 = (pieces.map fun piece => frames frameMax piece.length).sum := by
  cases pieces <;> rfl

/-- One call: there is nothing left, or a bucket of it is returned. -/
def Step (self : Body) (reader : Reader) (r : Option (Option (List UInt8) × Reader)) : Prop :=
  (octetsLeft (self.ahead reader) reader.processed = [] ∧
      ∃ reader', r = some (none, reader') ∧ self.replayBody reader' = some (none, reader')) ∨
    ∃ bucket reader',
      r = (if reader.count + 1 < 999999 then some (some bucket, reader') else none) ∧
      octetsLeft (self.ahead reader) reader.processed =
        bucket ++ octetsLeft (self.ahead reader') reader'.processed ∧
      framesLeft reader.frameMax (self.ahead reader) reader.processed =
        1 + framesLeft reader.frameMax (self.ahead reader') reader'.processed ∧
      1 ≤ bucket.length ∧ bucket.length ≤ reader.frameMax ∧
      reader'.frameMax = reader.frameMax ∧ reader'.count = reader.count + 1

/-- A frame takes some of the octets that are left, and not more than fit. -/
theorem piece_step {piece : List UInt8} {processed : Nat} (hf : 0 < frameMax)
    (h : 0 < piece.length - processed) (pieces : List (List UInt8)) :
    ∃ bucket, (piece.drop processed).take (min frameMax (piece.length - processed)) = bucket ∧
      octetsLeft (piece :: pieces) processed =
        bucket ++ octetsLeft (piece :: pieces) (processed + bucket.length) ∧
      framesLeft frameMax (piece :: pieces) processed =
        1 + framesLeft frameMax (piece :: pieces) (processed + bucket.length) ∧
      1 ≤ bucket.length ∧ bucket.length ≤ frameMax := by
  have hlen : ((piece.drop processed).take (min frameMax (piece.length - processed))).length =
      min frameMax (piece.length - processed) := by
    rw [length_take, length_drop]
    omega
  refine ⟨_, rfl, ?_, ?_, ?_, ?_⟩
  · rw [hlen, octetsLeft, octetsLeft, ← drop_drop, ← append_assoc, take_append_drop]
  · rw [hlen, framesLeft, framesLeft, frames_pos hf h, ← Nat.sub_sub, Nat.add_assoc]
  · omega
  · omega

/-- A replay of buckets is a step of the reader. -/
theorem replayBuckets_step (hn : self.bodyData = .null) (iterator : List (List UInt8))
    {reader : Reader} (hf : 0 < reader.frameMax) :
    Step self { reader with iterator := iterator } (replayBuckets iterator reader) := by
  have hahead : ∀ r : Reader, self.ahead r = r.iterator := by
    intro r
    rw [ahead, hn]
  induction iterator generalizing reader with
  | nil =>
    refine .inl ⟨?_, _, rfl, ?_⟩
    · rw [hahead]
      rfl
    · rw [replayBody, hn]
      rfl
  | cons piece pieces ih =>
    rw [replayBuckets]
    by_cases hr : 0 < piece.length - reader.processed
    · obtain ⟨bucket, hbucket, hoctets, hframes, hpos, hle⟩ := piece_step hf hr pieces
      rw [if_pos hr, hbucket]
      refine .inr ⟨bucket, ⟨piece :: pieces, reader.processed + bucket.length, reader.frameMax,
        reader.count + 1⟩, ?_, ?_, ?_, hpos, hle, rfl, rfl⟩
      · unfold Reader.advance
        split <;> rfl
      · rw [hahead, hahead]
        exact hoctets
      · rw [hahead, hahead]
        exact hframes
    · rw [if_neg hr]
      have hskip : piece.length ≤ reader.processed := by omega
      have hzero : piece.length - reader.processed = 0 := by omega
      have := @ih { reader with processed := 0 } hf
      unfold Step at this ⊢
      simp only [hahead] at this ⊢
      rw [octetsLeft_zero, framesLeft_zero] at this
      rw [octetsLeft, framesLeft, drop_eq_nil_of_le hskip, nil_append, hzero,
        frames_zero hf, Nat.zero_add]
      exact this

/-- A replay from either form of the body is a step of the reader. -/
theorem replayBody_step (hs : self.Sound) {reader : Reader} (hf : 0 < reader.frameMax) :
    Step self reader (self.replayBody reader) := by
  cases hd : self.bodyData with
  | freed =>
    rw [Sound, hd] at hs
    exact hs.elim
  | null =>
    have := replayBuckets_step hd reader.iterator hf
    rw [replayBody, hd]
    exact this
  | block octets =>
    rw [Sound, hd] at hs
    have hahead : ∀ r : Reader, self.ahead r = [octets] := by
      intro r
      rw [ahead, hd]
    have hreplay : ∀ r : Reader, octets.length - r.processed = 0 →
        self.replayBody r = some (none, r) := by
      intro r hr
      rw [replayBody, hd]
      simp only
      rw [hs, if_neg (by omega)]
    by_cases hr : 0 < octets.length - reader.processed
    · obtain ⟨bucket, hbucket, hoctets, hframes, hpos, hle⟩ := piece_step hf hr []
      refine .inr ⟨bucket, ⟨reader.iterator, reader.processed + bucket.length, reader.frameMax,
        reader.count + 1⟩, ?_, ?_, ?_, hpos, hle, rfl, rfl⟩
      · rw [replayBody, hd]
        simp only
        rw [hs, if_pos hr, hbucket]
        unfold Reader.advance
        split <;> rfl
      · rw [hahead, hahead]
        exact hoctets
      · rw [hahead, hahead]
        exact hframes
    · have hzero : octets.length - reader.processed = 0 := by omega
      refine .inl ⟨?_, reader, hreplay reader hzero, hreplay reader hzero⟩
      rw [hahead, octetsLeft, drop_eq_nil_of_le (by omega)]
      rfl

/-- What a pass gives: the octets in buckets of a frame each, and null from then on. -/
def Passes (self : Body) (frameMax : Nat) (octets : List UInt8)
    (r : Option (List (List UInt8) × Reader)) : Prop :=
  ∃ buckets reader, r = some (buckets, reader) ∧ buckets.flatten = octets ∧
    (∀ bucket ∈ buckets, 1 ≤ bucket.length ∧ bucket.length ≤ frameMax) ∧
    self.replayBody reader = some (none, reader)

theorem replayAll_passes (hs : self.Sound) (fuel : Nat) (reader : Reader) (hf : 0 < reader.frameMax)
    (hfuel : (octetsLeft (self.ahead reader) reader.processed).length < fuel)
    (hcount :
      reader.count + framesLeft reader.frameMax (self.ahead reader) reader.processed < 999999)
    :
    Passes self reader.frameMax (octetsLeft (self.ahead reader) reader.processed)
      (self.replayAll fuel reader) := by
  induction fuel generalizing reader with
  | zero => omega
  | succ fuel ih =>
    rw [replayAll]
    rcases replayBody_step hs hf with ⟨hnil, reader', hr, hend⟩ |
      ⟨bucket, reader', hr, hoctets, hframes, hpos, hle, hfm, hc⟩
    · rw [hr, hnil]
      exact ⟨[], reader', rfl, rfl, nofun, hend⟩
    · rw [hframes] at hcount
      rw [hoctets, length_append] at hfuel
      rw [← hfm] at hcount hf
      obtain ⟨buckets, last, hall, hflat, hbound, hend⟩ :=
        ih reader' hf (by omega) (by rw [hc]; omega)
      rw [hr, if_pos (by omega)]
      simp only [bind, Option.bind, hall]
      refine ⟨bucket :: buckets, last, rfl, ?_, ?_, hend⟩
      · rw [hoctets, flatten_cons, hflat]
      · rw [forall_mem_cons, ← hfm]
        exact ⟨⟨hpos, by omega⟩, hbound⟩

theorem framesLeft_of_octetsLeft {pieces : List (List UInt8)} {processed : Nat}
    (hf : 0 < frameMax) (h : octetsLeft pieces processed = []) :
    framesLeft frameMax pieces processed = 0 := by
  cases pieces with
  | nil => rfl
  | cons piece pieces =>
    obtain ⟨hpiece, hpieces⟩ := append_eq_nil_iff.mp h
    have hlen := congrArg length hpiece
    rw [length_drop, length_nil] at hlen
    have hrest : ∀ n ∈ pieces.map fun piece => frames frameMax piece.length, n = 0 := by
      intro n hn
      obtain ⟨piece, hmem, rfl⟩ := mem_map.mp hn
      rw [flatten_eq_nil_iff.mp hpieces piece hmem, length_nil, frames_zero hf]
    rw [framesLeft, hlen, frames_zero hf, sum_eq_zero hrest, Nat.add_zero]

theorem replayAll_eq_none (hs : self.Sound) (fuel : Nat) (reader : Reader)
    (hf : 0 < reader.frameMax) (hc : reader.count < 999999)
    (hcount :
      999999 ≤ reader.count + framesLeft reader.frameMax (self.ahead reader) reader.processed)
    : self.replayAll fuel reader = none := by
  induction fuel generalizing reader with
  | zero => rfl
  | succ fuel ih =>
    rw [replayAll]
    rcases replayBody_step hs hf with ⟨hnil, -⟩ |
      ⟨bucket, reader', hr, -, hframes, -, -, hfm, hnext⟩
    · rw [framesLeft_of_octetsLeft hf hnil] at hcount
      omega
    · rw [hr]
      by_cases hlt : reader.count + 1 < 999999
      · rw [hframes] at hcount
        rw [← hfm] at hcount hf
        rw [if_pos hlt]
        simp only [bind, Option.bind, ih reader' hf (by omega) (by omega)]
      · rw [if_neg hlt]
        rfl

theorem setReader_sound (hs : self.Sound) (hf : frameMinSize ≤ frameMax) :
    ∃ reader, self.setReader frameMax = some reader ∧ reader.frameMax = frameMax ∧
      reader.count = 0 ∧ reader.processed = 0 ∧ self.ahead reader = self.pieces := by
  rw [setReader, if_neg (Nat.not_lt_of_le hf)]
  cases hd : self.bodyData with
  | null | block octets => exact ⟨_, rfl, rfl, rfl, rfl, by rw [ahead, pieces, hd]⟩
  | freed =>
    rw [Sound, hd] at hs
    exact hs.elim

theorem pass_passes (hs : self.Sound) (hsize : self.bodySize = self.pieces.flatten.length)
    (hf : frameMinSize ≤ frameMax) (hcount : self.passFrames frameMax < 999999) :
    Passes self frameMax self.pieces.flatten (self.pass frameMax) := by
  have hpos : 0 < frameMax := Nat.lt_of_lt_of_le (by decide) hf
  obtain ⟨reader, hset, hfm, hcnt, hproc, hahead⟩ := setReader_sound hs hf
  have hall := replayAll_passes hs (self.bodySize + 1) reader (by rw [hfm]; exact hpos)
    (by rw [hproc, hahead, octetsLeft_zero, hsize]; exact Nat.lt_succ_self _)
    (by rw [hproc, hahead, framesLeft_zero, hcnt, hfm, Nat.zero_add]; exact hcount)
  rw [hproc, hahead, octetsLeft_zero, hfm] at hall
  rw [pass, hset]
  exact hall

theorem passFrames_lt (hs : self.Sound) {r : List (List UInt8) × Reader}
    (hpass : self.pass frameMax = some r) :
    frameMinSize ≤ frameMax ∧ self.passFrames frameMax < 999999 := by
  by_cases hf : frameMinSize ≤ frameMax
  · refine ⟨hf, Nat.lt_of_not_le fun hcount => ?_⟩
    obtain ⟨reader, hset, hfm, hcnt, hproc, hahead⟩ := setReader_sound hs hf
    have hpos : 0 < frameMax := Nat.lt_of_lt_of_le (by decide) hf
    have hnone := replayAll_eq_none hs (self.bodySize + 1) reader
      (by rw [hfm]; exact hpos) (by rw [hcnt]; decide)
      (by rw [hproc, hahead, framesLeft_zero, hcnt, hfm, Nat.zero_add]; exact hcount)
    rw [pass, hset] at hpass
    exact absurd (hnone.symm.trans hpass) nofun
  · rw [pass, setReader, if_pos (Nat.lt_of_not_le hf)] at hpass
    cases hpass

end Body

/-! ## Any calls -/

inductive BodyCall where
  | recordBody (bucket : List UInt8)
  | setBody (data : Option (List UInt8)) (freeFn : Bool)
  /-- `set reader`, and `replay body` up to the end. -/
  | pass (frameMax : Nat)

namespace Body

def call (self : Body) : BodyCall → Option Body
  | .recordBody bucket => self.recordBody bucket
  | .setBody data freeFn => self.setBody data freeFn
  | .pass frameMax => (self.pass frameMax).map fun _ => self

/-- The frame size of a pass is the least one at least, and its buckets are fewer than the code
has set as its limit. No bucket is recorded while there is a block with a function to free it. -/
def Admits (self : Body) : BodyCall → Prop
  | .recordBody _ => self.bodyData = .null ∨ self.freeFn = false
  | .setBody _ _ => True
  | .pass frameMax => frameMinSize ≤ frameMax ∧ self.passFrames frameMax < 999999

/-- The body is the one of the octets, whichever its representation. -/
def Replays (self : Body) (octets : List UInt8) : Prop :=
  self.bodySize = octets.length ∧
    (∀ frameMax, self.Admits (.pass frameMax) → Passes self frameMax octets (self.pass frameMax)) ∧
    (octets.length < 0x80000000 → ∀ maxsize, octets.length ≤ maxsize →
      self.getBody maxsize = some ((octets.length : Int), octets))

end Body

/-- What the calls say that a body is. -/
structure DescribedBody where
  octets : List UInt8
  /-- It has been set, and nothing recorded since. -/
  isSet : Bool

/-- The first bucket that is recorded replaces a body that was set, the others are added. -/
def DescribedBody.call (self : DescribedBody) : BodyCall → DescribedBody
  | .recordBody bucket => ⟨if self.isSet then bucket else self.octets ++ bucket, false⟩
  | .setBody data _ => ⟨data.getD [], data.isSome⟩
  | .pass _ => self

namespace Body

/-- The body in its representation; a block that is set leaves no buckets beside it. -/
structure Represents (body : Body) (described : DescribedBody) : Prop where
  octets : body.pieces.flatten = described.octets
  size : body.bodySize = described.octets.length
  data : if described.isSet then body.bodyData = .block described.octets else body.bodyData = .null
  cleared : described.isSet → (body.bucketList.getD []).flatten = []

variable {described : DescribedBody}

theorem Represents.sound (h : self.Represents described) : self.Sound := by
  have hd := h.data
  unfold Sound
  split at hd
  · rw [hd]
    exact h.size
  · rw [hd]
    trivial

theorem copyBuckets_eq {buckets : List (List UInt8)} {buffer : List UInt8}
    (h : (buffer ++ buckets.flatten).length < 0x80000000) :
    copyBuckets buckets buffer = some (buffer ++ buckets.flatten) := by
  induction buckets generalizing buffer with
  | nil =>
    rw [flatten_nil, append_nil]
    rfl
  | cons bucket buckets ih =>
    rw [flatten_cons, ← append_assoc] at h ⊢
    have hlt : buffer.length < 0x80000000 := by
      rw [length_append, length_append] at h
      omega
    rw [copyBuckets, if_pos hlt, ih h]

theorem Represents.getBody (h : self.Represents described)
    (hlt : described.octets.length < 0x80000000) (maxsize : Nat)
    (hm : described.octets.length ≤ maxsize) :
    self.getBody maxsize = some ((described.octets.length : Int), described.octets) := by
  have hint : toInt32 (described.octets.length % 0x100000000) = described.octets.length := by
    rw [Nat.mod_eq_of_lt (by omega), toInt32, if_pos hlt]
  rw [Body.getBody, h.size, if_pos hm]
  have hd := h.data
  have hp := h.octets
  split at hd
  · rw [hd]
    simp only
    rw [take_length, hint]
  · rw [pieces, hd] at hp
    rw [hd]
    rw [copyBuckets_eq (by rw [nil_append, hp]; exact hlt), nil_append, hp, Option.map_some, hint]

theorem Represents.replays (h : self.Represents described) : self.Replays described.octets := by
  refine ⟨h.size, ?_, fun hlt maxsize hm => h.getBody hlt maxsize hm⟩
  rintro frameMax ⟨hf, hcount⟩
  have := pass_passes h.sound (by rw [h.size, h.octets]) hf hcount
  rwa [h.octets] at this

theorem Represents.recordBody {bucket : List UInt8} (h : self.Represents described)
    (hok : self.Admits (.recordBody bucket)) :
    ∃ self', self.recordBody bucket = some self' ∧
      self'.Represents (described.call (.recordBody bucket)) := by
  have hd := h.data
  have hp := h.octets
  cases hset : described.isSet with
  | false =>
    rw [hset, if_neg Bool.false_ne_true] at hd
    rw [pieces, hd] at hp
    rw [Body.recordBody, hd]
    have hcall : described.call (.recordBody bucket) = ⟨described.octets ++ bucket, false⟩ := by
      rw [DescribedBody.call, hset, if_neg Bool.false_ne_true]
    rw [hcall]
    refine ⟨_, rfl, ⟨?_, ?_, ?_, nofun⟩⟩
    · rw [pieces]
      simp only [Option.getD_some, flatten_append, hp, flatten_singleton]
    · simp only [h.size, length_append]
    · rw [if_neg Bool.false_ne_true]
  | true =>
    rw [hset, if_pos rfl] at hd
    have hfree : self.freeFn = false := by
      rcases hok with hnull | hfree
      · rw [hd] at hnull
        cases hnull
      · exact hfree
    have hcall : described.call (.recordBody bucket) = ⟨bucket, false⟩ := by
      rw [DescribedBody.call, hset, if_pos rfl]
    rw [Body.recordBody, hd, hcall]
    have hdata : self.freeData = some self.bodyData := by
      rw [freeData, hfree]
    simp only [hdata, hfree]
    refine ⟨_, rfl, ⟨?_, rfl, rfl, nofun⟩⟩
    show (self.bucketList.getD [] ++ [bucket]).flatten = bucket
    rw [flatten_append, h.cleared hset, nil_append, flatten_singleton]

theorem Represents.setBody {data : Option (List UInt8)} {freeFn : Bool}
    (h : self.Represents described) :
    ∃ self', self.setBody data freeFn = some self' ∧
      self'.Represents (described.call (.setBody data freeFn)) := by
  have hcleared : ((self.bucketList.map fun _ => []).getD []).flatten = ([] : List UInt8) := by
    cases self.bucketList <;> rfl
  have hfree : ∃ bodyData, self.freeData = some bodyData := by
    have hs := h.sound
    unfold Sound at hs
    unfold freeData
    split
    · exact ⟨_, rfl⟩
    · next hd =>
      rw [hd] at hs
      exact hs.elim
    · exact ⟨_, rfl⟩
  obtain ⟨bodyData, hfree⟩ := hfree
  rw [Body.setBody, hfree]
  refine ⟨_, rfl, ?_⟩
  cases data with
  | none =>
    refine ⟨?_, rfl, rfl, nofun⟩
    exact hcleared
  | some data =>
    refine ⟨?_, rfl, rfl, fun _ => hcleared⟩
    show [data].flatten = data
    rw [flatten_singleton]

theorem Represents.call {c : BodyCall} (h : self.Represents described) (hok : self.Admits c) :
    ∃ self', self.call c = some self' ∧ self'.Represents (described.call c) := by
  cases c with
  | recordBody bucket => exact h.recordBody hok
  | setBody data freeFn => exact h.setBody
  | pass frameMax =>
    obtain ⟨buckets, reader, hpass, -⟩ := h.replays.2.1 frameMax hok
    rw [Body.call, hpass]
    exact ⟨self, rfl, h⟩

theorem represents_new : Body.new.Represents ⟨[], false⟩ :=
  ⟨rfl, rfl, rfl, nofun⟩

/-- After any calls that are admitted, a pass gives the body that they describe. -/
theorem body_replayed (calls : List BodyCall) (h : Lib.Along Body.call Body.Admits Body.new calls) :
    ∃ self, Lib.run Body.call Body.new calls = some self ∧
      self.Replays (calls.foldl DescribedBody.call ⟨[], false⟩).octets := by
  have hstep : ∀ self described call, Represents self described → Body.Admits self call →
      ∃ next, Body.call self call = some next ∧
        Represents next (DescribedBody.call described call) := fun _ _ _ hR hok => hR.call hok
  obtain ⟨self, hrun, hr⟩ := Lib.run_simulates hstep represents_new h
  exact ⟨self, hrun, hr.replays⟩

/-- A body that is recorded in three buckets, one of them empty, and then set. -/
theorem body_replayed_recorded :
    Lib.Along Body.call Body.Admits Body.new [.recordBody [1, 2], .recordBody [], .recordBody [3],
        .pass frameMinSize, .setBody (some [4]) true] ∧
      ∃ self, Lib.run Body.call Body.new [.recordBody [1, 2], .recordBody [], .recordBody [3],
          .pass frameMinSize, .setBody (some [4]) true] = some self ∧
        self.Replays [4] := by
  have h : Lib.Along Body.call Body.Admits Body.new [.recordBody [1, 2], .recordBody [],
      .recordBody [3], .pass frameMinSize, .setBody (some [4]) true] := by
    refine ⟨.inl rfl, fun s h => ?_⟩
    cases h
    refine ⟨.inl rfl, fun s h => ?_⟩
    cases h
    refine ⟨.inl rfl, fun s h => ?_⟩
    cases h
    refine ⟨⟨Nat.le_refl _, by decide⟩, fun s h => ⟨trivial, fun _ _ => trivial⟩⟩
  exact ⟨h, body_replayed _ h⟩

/-- A bucket that is recorded does not follow the body that was set, but replaces it. -/
theorem recordBody_replaces :
    ∃ self reader, Lib.run Body.call Body.new [.setBody (some [1, 2]) false, .recordBody [3]] =
        some self ∧ self.pass frameMinSize = some ([[3]], reader) ∧ [[3]].flatten ≠ [1, 2] ++ [3] :=
  ⟨_, _, rfl, rfl, by decide⟩

end Body

end OpenAmq
