import OpenAmq.Content.Chrono
import OpenAmq.Content.Chunks

/-!
# The input of a direct connection

The agent of a sink, and the client's agent of a feed, read into one bucket. As long as a chunk
is not complete they ask for the octets that are pending, then they sink the contents of the
bucket, each with a delta in its chronometer, and begin again. Nothing keeps what is pending to the
room that is left.

* `DirectInput.read` — one read that has returned
* `read_sinks` — a read that ends behind whole chunks, or in one that ends in the bucket
* `direct_input` — while all reads are of that kind, the contents of the stream are sunk
-/

namespace OpenAmq

open ContentObject List

/-- The agent between two reads: `bucket_in`, the request to the socket, and what has been sunk. -/
structure DirectInput where
  data : List UInt8
  minimum : Nat
  maximum : Nat
  sunk : List (ContentObject basicClass × UInt8)

/-- A read that has returned: its octets, and the clock as it is read for its contents. -/
structure DirectRead where
  octets : List UInt8
  times : Nat → Int

namespace DirectInput

variable {cls : ContentClass}

/-- `check direct lease`, and `prepare direct connection` at the client. -/
def start : DirectInput := ⟨[], 12, iprBucketMaxSize, []⟩

/-- `chrono add` on the contents that have been got, before each is sunk. -/
def chronoAddAll : (times : Nat → Int) → List (ContentObject basicClass × UInt8) →
    Except Violation (List (ContentObject basicClass × UInt8))
  | _, [] => .ok []
  | times, (content, options) :: contents => do
    let content ← content.chronoAdd (times 0)
    return (content, options) :: (← chronoAddAll (fun k => times (k + 1)) contents)

/-- `deliver direct contents`: nothing when the read or one of the three methods goes wrong. -/
def read (self : DirectInput) (read : DirectRead) : Option DirectInput :=
  let data := self.data ++ read.octets
  if iprBucketMaxSize < data.length then none
  else
    match wirePending data with
    | .error _ => none
    | .ok pending =>
      if pending ≠ 0 then
        some { self with data := data, minimum := pending.toNat, maximum := pending.toNat }
      else
        match getAll basicClass data (data.length + 1) 0 with
        | .error _ => none
        | .ok (contents, _) =>
          match chronoAddAll read.times contents with
          | .error _ => none
          | .ok contents =>
            some {
              data := []
              minimum := 12
              maximum := iprBucketMaxSize
              sunk := self.sunk ++ contents }

/-- The request does not go over the end of the bucket. -/
def RequestFits (self : DirectInput) : Prop :=
  self.data.length + self.maximum ≤ iprBucketMaxSize

/-- The octets begin a chunk that stands at `start` and ends in the bucket. -/
def Begins (start : Nat) (tail : List UInt8) : Prop :=
  tail ≠ [] ∧ (tail.length < 4 ∧ start + 4 ≤ iprBucketMaxSize ∨
    ∃ (size : Nat) (part : List UInt8), tail = putLong size ++ part ∧ part.length < size ∧
      size < 0x80000000 ∧ start + 4 + size ≤ iprBucketMaxSize)

/-! ## The contents of a stream -/

def chunkContent (cls : ContentClass) (chunk : List UInt8) : Option (ContentObject cls × UInt8) :=
  match takeContent cls chunk with
  | .ok (content, _) => some content
  | .error _ => none

def chunkContents (cls : ContentClass) (chunks : List (List UInt8)) :
    List (ContentObject cls × UInt8) := chunks.filterMap (chunkContent cls)

def wholeChunks : (fuel : Nat) → (stream : List UInt8) → List (List UInt8)
  | 0, _ => []
  | fuel + 1, stream =>
    match getWord 4 stream with
    | .error _ => []
    | .ok (size, rest) =>
      if rest.length < size then [] else rest.take size :: wholeChunks fuel (rest.drop size)

/-- What there is to sink in a stream. -/
def streamContents (cls : ContentClass) (stream : List UInt8) : List (ContentObject cls × UInt8) :=
  chunkContents cls (wholeChunks stream.length stream)

/-- There is room in each content for its delta. -/
def DeltasFit : (times : Nat → Int) → List (ContentObject basicClass × UInt8) → Prop
  | _, [] => True
  | times, (content, _) :: contents =>
    content.DeltaFits (times 0) ∧ DeltasFit (fun k => times (k + 1)) contents

/--
The read is one that was asked for. It ends in a chunk that ends in the bucket, or behind chunks
that are one content each, in which there is room for a delta.
-/
def Admits (self : DirectInput) (read : DirectRead) : Prop :=
  (self.minimum ≤ read.octets.length ∧ read.octets.length ≤ self.maximum) ∧
    ∃ chunks start tail, self.data ++ read.octets = start ++ tail ∧ Complete start chunks ∧
      (Begins start.length tail ∨ tail = [] ∧
        (∀ chunk ∈ chunks, chunk ≠ [] → WholeContent basicClass chunk) ∧
        DeltasFit read.times (chunkContents basicClass chunks))

/-- What is sunk for a content of the stream: the content with a delta in its chronometer. -/
def Sunk (sunk streamed : ContentObject basicClass × UInt8) : Prop :=
  sunk.2 = streamed.2 ∧ ∃ now, sunk.1 = streamed.1.stamped now

variable {chunks : List (List UInt8)}

theorem wholeChunks_eq {fuel : Nat} (hc : ∀ chunk ∈ chunks, chunk.length < 0x80000000)
    (hf : chunks.length ≤ fuel) : wholeChunks fuel (chunks.flatMap framed) = chunks := by
  induction chunks generalizing fuel with
  | nil =>
    cases fuel with
    | zero | succ fuel => rfl
  | cons chunk chunks ih =>
    cases fuel with
    | zero => cases hf
    | succ fuel =>
      rw [forall_mem_cons] at hc
      have hlt : chunk.length < 0x100000000 := by omega
      rw [flatMap_cons, framed, append_assoc, wholeChunks, getWord_putLong hlt]
      simp only
      rw [if_neg (by simp), take_left, drop_left, ih hc.2 (Nat.le_of_succ_le_succ hf)]

theorem streamContents_complete {stream : List UInt8} (h : Complete stream chunks) :
    streamContents cls stream = chunkContents cls chunks := by
  obtain ⟨rfl, hc⟩ := h
  rw [streamContents, wholeChunks_eq hc (Lib.length_le_length_flatMap framed_ne_nil chunks)]

/-! ## One read -/

theorem getAll_of_getsChunks {bucket : List UInt8} {fuel offset dataPtr : Nat}
    (h : GetsChunks cls bucket chunks offset dataPtr) (hf : chunks.length < fuel) :
    ∃ last, getAll cls bucket fuel offset = .ok (chunkContents cls chunks, last) := by
  induction chunks generalizing fuel offset dataPtr with
  | nil =>
    cases fuel with
    | zero => cases hf
    | succ fuel =>
      replace h : wireGet cls bucket offset = .ok (none, offset) := h
      rw [getAll, h]
      exact ⟨offset, rfl⟩
  | cons chunk chunks ih =>
    cases chunk with
    | nil =>
      obtain ⟨last, hall⟩ := ih h (Nat.lt_of_succ_lt hf)
      exact ⟨last, hall⟩
    | cons b chunk =>
      cases fuel with
      | zero => cases hf
      | succ fuel =>
        obtain ⟨⟨content, ht, hget⟩, hrest⟩ := h
        obtain ⟨last, hall⟩ := ih hrest (Nat.lt_of_succ_lt_succ hf)
        have hcontent : chunkContent cls (b :: chunk) = some content := by
          rw [chunkContent, ht]
        have hcons : chunkContents cls ((b :: chunk) :: chunks) =
            content :: chunkContents cls chunks := by
          rw [chunkContents, filterMap_cons, hcontent]
          rfl
        rw [getAll, hget]
        simp only [bind, Except.bind, hall]
        rw [hcons]
        exact ⟨last, rfl⟩

theorem pendingFrom_append (bucket : List UInt8) {tail : List UInt8} (fuel dataPtr : Nat)
    (h : bucket.drop dataPtr = chunks.flatMap framed ++ tail) (hn : dataPtr ≤ bucket.length)
    (ht : tail ≠ []) (hc : ∀ chunk ∈ chunks, chunk.length < 0x80000000) :
    pendingFrom bucket (fuel + chunks.length) dataPtr =
        pendingFrom bucket fuel (dataPtr + (chunks.flatMap framed).length) ∧
      dataPtr + (chunks.flatMap framed).length ≤ bucket.length := by
  induction chunks generalizing dataPtr with
  | nil => exact ⟨rfl, hn⟩
  | cons chunk chunks ih =>
    rw [forall_mem_cons] at hc
    rw [flatMap_cons, append_assoc] at h
    obtain ⟨hle, -, hrest⟩ := drop_framed h hn
    have hpos : dataPtr + ((chunk :: chunks).flatMap framed).length =
        dataPtr + 4 + chunk.length + (chunks.flatMap framed).length := by
      rw [flatMap_cons, length_append, length_framed]
      omega
    rw [length_cons, ← Nat.add_assoc, pendingFrom_framed h hn hc.1, hpos, if_neg (by simp [ht])]
    exact ih _ hrest hle hc.2

theorem wirePending_begins {start tail : List UInt8} (hc : Complete start chunks)
    (h : Begins start.length tail) :
    ∃ rc : Int, wirePending (start ++ tail) = .ok rc ∧ 0 < rc ∧
      (start ++ tail).length + rc.toNat ≤ iprBucketMaxSize := by
  obtain ⟨rfl, hc⟩ := hc
  obtain ⟨hne, h⟩ := h
  have hcount := Lib.length_le_length_flatMap framed_ne_nil chunks
  obtain ⟨fuel, hfuel⟩ : ∃ fuel, (chunks.flatMap framed ++ tail).length + 1 =
      fuel + 1 + chunks.length := by
    refine ⟨(chunks.flatMap framed ++ tail).length - chunks.length, ?_⟩
    rw [length_append]
    omega
  obtain ⟨hp, -⟩ := pendingFrom_append (chunks.flatMap framed ++ tail) (fuel + 1) 0 rfl
    (Nat.zero_le _) hne hc
  rw [wirePending, hfuel, hp, Nat.zero_add, length_append]
  rcases h with ⟨hshort, hroom⟩ | ⟨size, part, rfl, hpart, hsmall, hroom⟩
  · have hat : getWordAt (chunks.flatMap framed ++ tail) (chunks.flatMap framed ++ tail).length 4
        (chunks.flatMap framed).length = .ok none := by
      refine getWordAt_of_short ?_
      rw [length_append]
      omega
    refine ⟨4 - tail.length, ?_, by omega, by omega⟩
    rw [pendingFrom, hat]
    simp only [bind, Except.bind, pure, Except.pure, length_append]
    rw [if_pos (by omega)]
    congr 1
    omega
  · have hlen : (putLong (size : Nat)).length = 4 := Lib.length_bigEndian 4 _
    have hword : getWord 4 (window (chunks.flatMap framed ++ (putLong size ++ part))
        (chunks.flatMap framed ++ (putLong size ++ part)).length
        (chunks.flatMap framed).length) = .ok (size, part) := by
      rw [window_length, drop_left, getWord_putLong (by omega)]
    have hat : getWordAt (chunks.flatMap framed ++ (putLong size ++ part))
        (chunks.flatMap framed ++ (putLong size ++ part)).length 4
        (chunks.flatMap framed).length = .ok (some (size, (chunks.flatMap framed).length + 4)) := by
      refine (getWordAt_of_ok (Nat.le_refl _) ?_ hword).1
      rw [length_append]
      omega
    refine ⟨(size : Int) - part.length, ?_, by omega, ?_⟩
    · rw [pendingFrom, hat]
      simp only [bind, Except.bind, pure, Except.pure, toInt32_of_lt hsmall, length_append, hlen]
      rw [if_pos (by omega)]
      congr 1
      omega
    · rw [length_append, hlen]
      omega

theorem chronoAddAll_sunk {times : Nat → Int} {contents : List (ContentObject basicClass × UInt8)}
    (h : DeltasFit times contents) :
    ∃ sunk, chronoAddAll times contents = .ok sunk ∧ List.Forall₂ Sunk sunk contents := by
  induction contents generalizing times with
  | nil => exact ⟨[], rfl, .nil⟩
  | cons head contents ih =>
    obtain ⟨content, options⟩ := head
    obtain ⟨hfits, hrest⟩ := h
    obtain ⟨sunk, hall, hsunk⟩ := ih hrest
    refine ⟨(content.stamped (times 0), options) :: sunk, ?_, .cons ⟨rfl, times 0, rfl⟩ hsunk⟩
    rw [chronoAddAll, content.chronoAdd_of_fits hfits, hall]
    rfl

theorem read_pending (self : DirectInput) (read : DirectRead) {pending : Int}
    (hroom : (self.data ++ read.octets).length ≤ iprBucketMaxSize)
    (hp : wirePending (self.data ++ read.octets) = .ok pending) (hne : pending ≠ 0) :
    self.read read = some { self with
      data := self.data ++ read.octets, minimum := pending.toNat, maximum := pending.toNat } := by
  rw [DirectInput.read, if_neg (Nat.not_lt.mpr hroom), hp]
  exact if_pos hne

theorem wirePending_whole {data : List UInt8} (hc : Complete data chunks) (hne : chunks ≠ [])
    (hw : ∀ chunk ∈ chunks, chunk ≠ [] → WholeContent cls chunk) :
    wirePending data = .ok 0 ∧
      ∃ last, getAll cls data (data.length + 1) 0 = .ok (chunkContents cls chunks, last) := by
  refine ⟨wirePending_complete hc hne, ?_⟩
  have hgets := (@getsChunks_iff cls data chunks 0 0 hc.1 (Nat.zero_le _) hc.2).mpr hw
  refine getAll_of_getsChunks hgets (Nat.lt_succ_of_le ?_)
  rw [hc.1]
  exact Lib.length_le_length_flatMap framed_ne_nil chunks

/-- What has been received is sunk, or in the bucket, and the request is for the room left. -/
structure Holds (input : DirectInput) (stream : List UInt8) : Prop where
  received : ∃ behind chunks, stream = behind ++ input.data ∧ Complete behind chunks ∧
    List.Forall₂ Sunk input.sunk (chunkContents basicClass chunks)
  asks : 0 < input.minimum
  fits : input.RequestFits

theorem start_holds : start.Holds [] where
  received := ⟨[], [], rfl, ⟨rfl, nofun⟩, .nil⟩
  asks := Nat.zero_lt_succ 11
  fits := by
    show (0 + iprBucketMaxSize ≤ iprBucketMaxSize)
    omega

theorem read_sinks {self : DirectInput} {stream : List UInt8} {read : DirectRead}
    (h : self.Holds stream) (hok : self.Admits read) :
    ∃ next, self.read read = some next ∧ next.Holds (stream ++ read.octets) := by
  obtain ⟨⟨behind, sunk, hstream, hsunk, hcontents⟩, hasks, hfits⟩ := h
  obtain ⟨⟨hmin, hmax⟩, chunks, start, tail, hdata, hc, hcase⟩ := hok
  have hroom : (self.data ++ read.octets).length ≤ iprBucketMaxSize := by
    have : self.data.length + self.maximum ≤ iprBucketMaxSize := hfits
    rw [length_append]
    omega
  rcases hcase with hbegins | ⟨rfl, hw, hdeltas⟩
  · -- the read ends in a chunk: the bucket is kept, and the rest is asked for
    obtain ⟨rc, hrc, hpos, hle⟩ := wirePending_begins hc hbegins
    rw [← hdata] at hrc hle
    refine ⟨_, read_pending self read hroom hrc (by omega),
      ⟨behind, sunk, ?_, hsunk, hcontents⟩, ?_, hle⟩
    · rw [hstream, append_assoc]
    · show 0 < rc.toNat
      omega
  · -- the chunks are sunk, and the bucket is empty
    rw [append_nil] at hdata
    rw [← hdata] at hc
    have hne : chunks ≠ [] := by
      rintro rfl
      have hlen := congrArg length hc.1
      rw [length_append, flatMap_nil, length_nil] at hlen
      omega
    obtain ⟨hrc, last, hall⟩ := wirePending_whole hc hne hw
    obtain ⟨added, hadded, hnew⟩ := chronoAddAll_sunk hdeltas
    rw [DirectInput.read, if_neg (Nat.not_lt.mpr hroom), hrc]
    simp only [ne_eq, not_true_eq_false, if_false, hall, hadded]
    refine ⟨_, rfl, ⟨behind ++ (self.data ++ read.octets), sunk ++ chunks, ?_, ⟨?_, ?_⟩, ?_⟩,
      Nat.zero_lt_succ 11, ?_⟩
    · rw [hstream, append_nil, append_assoc]
    · rw [flatMap_append, ← hsunk.1, ← hc.1]
    · intro chunk hm
      rcases mem_append.mp hm with hm | hm
      · exact hsunk.2 chunk hm
      · exact hc.2 chunk hm
    · rw [chunkContents, filterMap_append]
      exact rel_append hcontents hnew
    · show (0 + iprBucketMaxSize ≤ iprBucketMaxSize)
      omega

/-! ## All reads -/

theorem sunk_eq {sunk streamed : List (ContentObject basicClass × UInt8)}
    (h : List.Forall₂ Sunk sunk streamed)
    (hplain : ∀ content ∈ streamed, ¬ Chrono.Marked content.1.chronoText) : sunk = streamed := by
  induction h with
  | nil => rfl
  | cons hsunk _ ih =>
    obtain ⟨hrc, now, hnow⟩ := hsunk
    rw [forall_mem_cons] at hplain
    rw [ContentObject.stamped_of_not_marked _ _ hplain.1] at hnow
    rw [ih hplain.2, Prod.ext hnow hrc]

/--
While every read ends behind chunks that are one content each, with room for its delta, or in a
chunk that ends in the bucket, all reads return, no request goes over the end of the bucket, and
what is sunk are the contents of the octets received but for those in the bucket, whatever the
reads were: a content with a chronometer with one more delta, the others as they are.
-/
theorem direct_input {reads : List DirectRead} (h : Lib.Along read Admits start reads) :
    ∃ self stream, Lib.run read start reads = some self ∧ self.RequestFits ∧
      reads.flatMap DirectRead.octets = stream ++ self.data ∧
      List.Forall₂ Sunk self.sunk (streamContents basicClass stream) ∧
      ((∀ content ∈ streamContents basicClass stream, ¬ Chrono.Marked content.1.chronoText) →
        self.sunk = streamContents basicClass stream) := by
  obtain ⟨self, hrun, ⟨stream, chunks, hstream, hc, hsunk⟩, -, hfits⟩ :=
    Lib.run_progress (I := fun reads self => Holds self (reads.flatMap DirectRead.octets))
      (fun reads self read hholds hok => by
        rw [flatMap_append, flatMap_singleton]
        exact read_sinks hholds hok) [] start_holds h
  rw [← streamContents_complete hc] at hsunk
  exact ⟨self, stream, hrun, hfits, hstream, hsunk, sunk_eq hsunk⟩

/-- A content for the exchange "q" with a chronometer -/
def timed : Sent basicClass where
  content := ContentObject.setCorrelationId
    { ContentObject.new basicClass with
      exchange := .ofOctets [113], body := ⟨some [[7]], 1, .null, false⟩ }
    (.ofOctets (stringOctets "Chrono-0".toList))
  options := 0
  described := ⟨[7], false⟩
  represents := ⟨rfl, rfl, rfl, nofun⟩
  bodyLimit := by decide

theorem takeContent_timed : takeContent basicClass timed.chunk = .ok (timed.received, []) :=
  timed.takeContent_chunk (by decide +kernel)

theorem deltasFit_timed :
    DeltasFit (fun _ => 1000000) (chunkContents basicClass [timed.chunk]) := by
  exact ⟨by decide +kernel, trivial⟩

/-- All but the last three octets of it -/
def firstRead : DirectRead :=
  ⟨[0, 0, 0, 19, 1, 113, 0, 4, 0, 8, 67, 104, 114, 111, 110, 111, 45, 48, 0, 0], fun _ => 0⟩

def splitReads : List DirectRead := [firstRead, ⟨[0, 1, 7], fun _ => 1000000⟩]

/-- A content with a chronometer is sunk when the second read has brought its last octets. -/
theorem direct_input_split : ∃ self stream, Lib.run read start splitReads = some self ∧
      self.RequestFits ∧ splitReads.flatMap DirectRead.octets = stream ++ self.data ∧
      List.Forall₂ Sunk self.sunk (streamContents basicClass stream) ∧
      ((∀ content ∈ streamContents basicClass stream, ¬ Chrono.Marked content.1.chronoText) →
        self.sunk = streamContents basicClass stream) := by
  refine direct_input ⟨⟨⟨by decide, by decide⟩, [], [], _, rfl, ⟨rfl, nofun⟩,
    .inl ⟨by decide, .inr ⟨19, _, rfl, by decide, by decide, by decide⟩⟩⟩, ?_⟩
  intro next hread
  have hpending : wirePending (start.data ++ firstRead.octets) = .ok 3 := by decide +kernel
  rw [read_pending start firstRead (by decide +kernel) hpending (by decide)] at hread
  cases hread
  refine ⟨⟨⟨by decide, by decide⟩, [timed.chunk], _, [], (append_nil _).symm,
    ⟨by decide +kernel, ?_⟩, .inr ⟨rfl, ?_, deltasFit_timed⟩⟩, fun _ _ => trivial⟩
  · rw [forall_mem_singleton]
    decide +kernel
  · rw [forall_mem_singleton]
    intro _
    exact takeContent_whole_iff.mp ⟨_, takeContent_timed⟩

/-- The first twelve octets begin a chunk of 2^31 - 1 octets, and the rest of it is asked for. -/
theorem read_goesOver : ∃ self, read start
        ⟨[0x7F, 0xFF, 0xFF, 0xFF, 0, 0, 0, 0, 0, 0, 0, 0], fun _ => 0⟩ = some self ∧
      self.data.length = 12 ∧ self.maximum = 2147483639 ∧ ¬ self.RequestFits := by
  have hpending : wirePending [0x7F, 0xFF, 0xFF, 0xFF, 0, 0, 0, 0, 0, 0, 0, 0] =
      .ok 2147483639 := by decide +kernel
  refine ⟨_, read_pending start _ (by decide) hpending (by decide), rfl, rfl, ?_⟩
  show ¬ 12 + 2147483639 ≤ iprBucketMaxSize
  decide

end DirectInput

end OpenAmq
