import OpenAmq.Agent.FrameOutput

/-!
# A content from one side to the other

What `send content body if any` writes on one side is what `read basic content` reads on the other.

* `Frame.arrival` — a frame as it is read
* `run_bodies` — the body frames, one after the other
* `content_transmitted` — the whole content, with heartbeats anywhere between its frames
-/

namespace OpenAmq

open List Option

/-! ## Frames -/

/-- The frame as the peer reads it. -/
def Frame.arrival (self : Frame) : Arrival where
  header := ⟨self.type, self.channel, UInt32.ofNat self.payload.length⟩
  octets := self.payload ++ [frameEnd]
  exceptionRaised := false

/-- The frame in the stream. -/
def Arrival.wire (self : Arrival) : List UInt8 :=
  self.header.type :: (putShort self.header.channel.toNat ++
    (putLong self.header.size.toNat ++ self.octets))

/-- A frame on channel 1 that is small enough to be read. -/
structure Frame.Readable (frame : Frame) (frameMax : UInt32) : Prop where
  le : frame.payload.length ≤ frameMax.toNat
  lt : frame.payload.length < iprBucketMaxSize
  channel_eq : frame.channel = 1

variable {frame : Frame} {frameMax : UInt32}

theorem Frame.size_arrival (h : frame.Readable frameMax) :
    frame.arrival.header.size.toNat = frame.payload.length :=
  Nat.mod_eq_of_lt (Nat.lt_trans h.lt (by decide))

theorem Frame.wire_arrival (h : frame.Readable frameMax) : frame.arrival.wire = frame.octets := by
  rw [Arrival.wire, size_arrival h]
  rfl

/-! ## The thread -/

namespace ContentInput

variable {call : ContentCall}

theorem readFrame_arrival {self : ContentInput}
    (expect : FrameHeader → List UInt8 → Option ContentInput)
    (h : frame.Readable call.frameMax)
    (htype : frame.type = frameHeader ∨ frame.type = frameBody) :
    readFrame call self frame.arrival expect = expect frame.arrival.header frame.payload := by
  have hsum : (frame.arrival.header.size + 1).toNat = frame.payload.length + 1 := by
    rw [UInt32.toNat_add, frame.size_arrival h]
    exact Nat.mod_eq_of_lt (Nat.lt_of_le_of_lt h.lt (by decide))
  have hread : readFramePayload call.frameMax frame.arrival.header =
      .ok (frame.payload.length + 1) := by
    rw [readFramePayload, if_neg, hsum]
    · exact if_pos h.lt
    · exact UInt32.not_lt.mpr (UInt32.le_iff_toNat_le.mpr (frame.size_arrival h ▸ h.le))
  have hformat : checkFrameFormat frame.arrival.octets = .ok frame.payload := by
    simp [checkFrameFormat, Frame.arrival]
  rw [readFrame, hread]
  simp only [hformat, expectFrame]
  rcases htype with htype | htype <;> simp [Frame.arrival, htype, h.channel_eq, frameHeartbeat,
    frameMethod, frameHeader, frameBody]

/-- A heartbeat changes nothing in the content that is being read. -/
theorem step_heartbeat (self : ContentInput) : step call self heartbeat = some self := by
  have hread : readFramePayload call.frameMax heartbeat.header = .ok 1 :=
    if_neg (UInt32.not_lt.mpr (UInt32.le_iff_toNat_le.mpr (Nat.zero_le _)))
  cases self with
  | header | body content =>
    rfl
  | complete | exceptionMethod | raised => rfl

/-- Heartbeats may be left out of what arrives. -/
theorem run_filter {arrivals : List Arrival} (self : ContentInput)
    (h : ∀ arrival ∈ arrivals, arrival.header.type = frameHeartbeat → arrival = heartbeat) :
    Lib.run (step call) self arrivals =
      Lib.run (step call) self (arrivals.filter (·.header.type != frameHeartbeat)) := by
  induction arrivals generalizing self with
  | nil => rfl
  | cons arrival arrivals ih =>
    rw [forall_mem_cons] at h
    by_cases htype : arrival.header.type = frameHeartbeat
    · rw [filter_cons_of_neg (by simp [htype]), h.1 htype, Lib.run_cons, step_heartbeat]
      exact ih self h.2
    · rw [filter_cons_of_pos (by simp [htype])]
      exact congrArg (bind _) (funext fun next => ih next h.2)

/-- Nothing changes a content that is complete. -/
theorem run_complete {content : ContentObject basicClass} {channel : UInt16}
    (arrivals : List Arrival) :
    Lib.run (step call) (complete content channel) arrivals = some (complete content channel) := by
  induction arrivals with
  | nil => rfl
  | cons arrival arrivals ih => exact ih

/-- The body frames that are missing complete the content. -/
theorem run_bodies {content : ContentObject basicClass} {buckets : List (List UInt8)}
    {bodies : List Frame} {octets : List UInt8}
    (hrecorded : content.body.Recorded buckets)
    (hflat : buckets.flatten ++ bodies.flatMap Frame.payload = octets)
    (hexpect : content.bodyExpect.toInt = octets.length)
    (hbodies : ∀ frame ∈ bodies, frame.type = frameBody ∧ frame.Readable call.frameMax) :
    ∃ body, Lib.run (step call) (checkComplete content 1) (bodies.map Frame.arrival) =
      some (.complete { content with body := body } 1) ∧ body.Represents ⟨octets, false⟩ := by
  have hlength := congrArg length hflat
  rw [length_append, ← hrecorded.size] at hlength
  by_cases hlt : (content.body.bodySize : Int) < content.bodyExpect.toInt
  · cases bodies with
    | nil =>
      rw [flatMap_nil, length_nil] at hlength
      omega
    | cons frame bodies =>
      rw [forall_mem_cons] at hbodies
      obtain ⟨⟨htype, hframe⟩, hbodies⟩ := hbodies
      obtain ⟨next, hnext, hnext_recorded, -⟩ := hrecorded.recordBody frame.payload
      have hstep : step call (checkComplete content 1) frame.arrival =
          some (checkComplete { content with body := next } 1) := by
        rw [checkComplete, if_pos hlt, step, readFrame_arrival _ hframe (.inr htype), expectBody,
          if_pos (show frame.arrival.header.type = frameBody from htype), hnext]
        exact congrArg (fun channel => some (checkComplete _ channel)) hframe.channel_eq
      rw [map_cons, Lib.run_cons, hstep]
      refine run_bodies hnext_recorded ?_ hexpect hbodies
      rw [← hflat, flatten_append, flatten_singleton, append_assoc, flatMap_cons]
  · -- the frames that are left are empty, and not read
    have hnil : bodies.flatMap Frame.payload = [] := length_eq_zero_iff.mp (by omega)
    rw [hnil, append_nil] at hflat
    refine ⟨content.body, ?_, ?_⟩
    · rw [checkComplete, if_neg hlt]
      exact run_complete _
    · exact ⟨by rw [Body.pieces, hrecorded.data, hrecorded.list, hflat], hflat ▸ hrecorded.size,
        hrecorded.data, nofun⟩

/-- A correlation id is read as it is written, and so is what a delta makes of it. -/
theorem stamped_unsetEmpty {content received : ContentObject basicClass}
    (h : received.properties = content.properties.unsetEmpty) (now : Int) :
    (received.stamped now).properties = (content.stamped now).properties.unsetEmpty := by
  rw [ContentObject.stamped, ContentObject.stamped, ContentObject.chronoText,
    ContentObject.correlationId, ContentObject.setCorrelationId, h]
  rfl

theorem deltaFits_unsetEmpty {content received : ContentObject basicClass} {now : Int}
    (h : received.properties = content.properties.unsetEmpty) (hfits : content.DeltaFits now) :
    received.DeltaFits now := by
  rw [ContentObject.DeltaFits, ContentObject.chronoText, ContentObject.correlationId, h]
  exact hfits

/-- The header frame of a content, read at the time of the call. -/
theorem expectHeader_headerOctets {sent : SoundContent} {header : Frame}
    (htype : header.type = frameHeader) (hchannel : header.channel = 1)
    (hpayload : header.payload = sent.content.headerOctets
      (calcPropertyFlags sent.content.properties 16 14 0).2)
    (hclass : sent.content.classId = basicClass.index)
    (hroom : sent.content.DeltaFits call.now)
    (hsmall : 14 + sent.content.properties.setSize ≤ 2097152)
    (hsize : sent.described.octets.length < 0x8000000000000000) :
    ∃ content : ContentObject basicClass,
      expectHeader call header.arrival.header header.payload = some (checkComplete content 1) ∧
        content.bodyExpect.toInt = sent.described.octets.length ∧
        content.properties = (sent.content.stamped call.now).properties.unsetEmpty ∧
        content.body.Recorded [] := by
  have hbody := sent.represents.size
  obtain ⟨content, hrecord, hid, hexpect, hproperties, hrecorded⟩ :
      ∃ content : ContentObject basicClass,
        (ContentObject.new basicClass).recordHeader header.payload = .ok (content, 0) ∧
          content.classId = basicClass.index ∧
          content.bodyExpect.toInt = sent.described.octets.length ∧
          content.properties = sent.content.properties.unsetEmpty ∧
          content.body.Recorded [] := by
    have hrecord := (ContentObject.new basicClass).recordHeader_agrees header.payload
    rw [hpayload, ContentObject.takeHeader_headerOctets
      (Properties.small_of_setSize (by omega)), ← hpayload] at hrecord
    exact ⟨_, hrecord, hclass, (toInt_of_lt (hbody ▸ hsize)).trans (congrArg _ hbody), rfl,
      Body.new_recorded⟩
  refine ⟨content.stamped call.now, ?_, hexpect, stamped_unsetEmpty hproperties call.now,
    hrecorded⟩
  rw [expectHeader, if_pos (show header.arrival.header.type = frameHeader from htype), hrecord]
  simp only [content.chronoAdd_of_fits (deltaFits_unsetEmpty hproperties hroom), ne_eq,
    not_true_eq_false, if_false]
  have hclassId : (content.stamped call.now).classId = basicClass.index := hid
  rw [if_neg (not_not_intro hclassId), show header.arrival.header.channel = 1 from hchannel]

/--
A content that one side sends at the time `now` is the content that the other side reads, with
heartbeats anywhere between its frames: the properties that are not empty, with the deltas of both
sides in a chronometer, and the octets of the body.
-/
theorem content_transmitted (call : ContentCall) (sent : SoundContent) (now : Int)
    (hclass : sent.content.classId = basicClass.index)
    (hdelta : sent.content.DeltaFits now)
    (hroom : (sent.content.stamped now).DeltaFits call.now)
    (hfits : Send.ContentFits (tuneOk frameMax) (sent.content.stamped now))
    (hlimit : tuneOk frameMax ≤ call.frameMax)
    (hbucket : (tuneOk frameMax).toNat < iprBucketMaxSize)
    (hsize : sent.described.octets.length < 0x8000000000000000) :
    ∃ frames : List Arrival, sendContent (tuneOk frameMax) now sent.content =
        some (frames.flatMap Arrival.wire) ∧
      ∀ arrivals, arrivals.filter (·.header.type != frameHeartbeat) = frames →
        (∀ arrival ∈ arrivals, arrival.header.type = frameHeartbeat → arrival = heartbeat) →
          ∃ content, Lib.run (step call) header arrivals = some (.complete content 1) ∧
            content.properties =
              ((sent.content.stamped now).stamped call.now).properties.unsetEmpty ∧
            content.body.Represents ⟨sent.described.octets, false⟩ := by
  obtain ⟨header, bodies, ⟨⟨htype, hchannel, hle, -⟩, hbodies, hflat, -⟩, hsend, hpayload⟩ :=
    @Send.writeContent_eq _ (sent.stamped now) hfits
  have hreadable {frame : Frame} (hle : frame.payload.length ≤ (tuneOk frameMax).toNat)
      (hchannel : frame.channel = 1) : frame.Readable call.frameMax :=
    ⟨Nat.le_trans hle (UInt32.le_iff_toNat_le.mp hlimit), Nat.lt_of_le_of_lt hle hbucket, hchannel⟩
  have hheader := hreadable hle hchannel
  have hread : ∀ frame ∈ bodies, frame.type = frameBody ∧ frame.Readable call.frameMax := by
    intro frame hmem
    obtain ⟨htype, hchannel, hle⟩ := hbodies frame hmem
    exact ⟨htype, hreadable hle hchannel⟩
  refine ⟨header.arrival :: bodies.map Frame.arrival, ?_, fun arrivals hframes hbeat => ?_⟩
  · rw [Send.sendContent_of_fits hdelta]
    refine hsend.trans ?_
    rw [flatMap_cons, header.wire_arrival hheader, flatMap_map]
    congr 2
    exact flatMap_congr fun frame hmem => (frame.wire_arrival (hread frame hmem).2).symm
  obtain ⟨content, hexpectHeader, hexpect, hproperties, hrecorded⟩ := @expectHeader_headerOctets
    call (sent.stamped now) header htype hchannel hpayload hclass hroom hfits.1 hsize
  obtain ⟨body, hrun, hbody⟩ := run_bodies hrecorded hflat hexpect hread
  refine ⟨{ content with body := body }, ?_, hproperties, hbody⟩
  rw [run_filter _ hbeat, hframes, Lib.run_cons, step, readFrame_arrival _ hheader (.inl htype),
    hexpectHeader]
  exact hrun

/-- A content in two buckets with a chronometer -/
def timedContent : SoundContent where
  content := ContentObject.setCorrelationId
    { ContentObject.new basicClass with body := ⟨some [[1, 2], [3]], 3, .null, false⟩ }
    (.ofOctets (stringOctets "Chrono-0".toList))
  described := ⟨[1, 2, 3], false⟩
  represents := ⟨rfl, rfl, rfl, nofun⟩

/-- It is sent a second after it has been stamped, and read two seconds later. -/
theorem content_transmitted_timed :
    ∃ frames : List Arrival, sendContent (tuneOk 4096) 1000000 timedContent.content =
        some (frames.flatMap Arrival.wire) ∧
      ∀ arrivals, arrivals.filter (·.header.type != frameHeartbeat) = frames →
        (∀ arrival ∈ arrivals, arrival.header.type = frameHeartbeat → arrival = heartbeat) →
          ∃ content, Lib.run (step { basicCall with now := 3000000 }) header arrivals =
              some (.complete content 1) ∧
            content.properties = ((timedContent.content.stamped 1000000).stamped
              3000000).properties.unsetEmpty ∧
            content.body.Represents ⟨[1, 2, 3], false⟩ :=
  content_transmitted { basicCall with now := 3000000 } timedContent 1000000 rfl
    (by decide +kernel) (by decide +kernel) ⟨by decide +kernel, by decide +kernel, by decide⟩
    (by decide) (by decide) (by decide)

end ContentInput

end OpenAmq
