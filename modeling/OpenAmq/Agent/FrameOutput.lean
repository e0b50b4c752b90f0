import OpenAmq.Agent.ContentInput

/-!
# Writing frames

`tune ok` takes the largest size of a frame from the client, and raises it when it is small and
not zero. What is larger than that is left out on the way to the socket: `s_write_payload` says so
and returns. A content is written as three or more payloads, one by one.

* `writePayload` — a frame, or nothing
* `sendContent` — the header frame and the body frames
* `frames_wellFormed_iff` — when all that is sent is written as whole frames
-/

namespace OpenAmq

open List Option

/-- A frame as it stands in the stream. -/
structure Frame where
  type : UInt8
  channel : UInt16
  payload : List UInt8

def Frame.octets (self : Frame) : List UInt8 :=
  self.type :: (putShort self.channel.toNat ++ (putLong self.payload.length ++
    (self.payload ++ [frameEnd])))

/-- `tune ok` of the connection: its `frame_max`. -/
def tuneOk (frameMax : UInt32) : UInt32 :=
  if frameMax.toNat < frameMinSize ∧ 0 < frameMax then 4096 else frameMax

/-- `s_write_payload`: the octets that are written. -/
def writePayload (frameMax : UInt32) (frame : Frame) : List UInt8 :=
  if frameMax.toNat < frame.payload.length then [] else frame.octets

/-- `s_send_method_out`, nothing when `method_encode` writes more than its bucket holds. -/
def sendMethodOut {protocol : Protocol} (frameMax : UInt32) (channel : UInt16)
    (method : MethodObject protocol) : Option (List UInt8) :=
  (encode method).map fun payload => writePayload frameMax ⟨frameMethod, channel, payload⟩

/-- The header and the body of a content, once the chronometer has been added to. -/
def writeContent (frameMax : UInt32) (content : ContentObject basicClass) : Option (List UInt8) :=
  match content.replayHeader with
  | .error _ => none
  | .ok (content, payload) =>
    (content.body.pass frameMax.toNat).map fun r =>
      writePayload frameMax ⟨frameHeader, 1, payload⟩ ++
        r.1.flatMap fun payload => writePayload frameMax ⟨frameBody, 1, payload⟩

/--
`send content body if any`: `send content header`, at the time `now`, and `send content body frame`
to the end.
-/
def sendContent (frameMax : UInt32) (now : Int) (content : ContentObject basicClass) :
    Option (List UInt8) :=
  match content.chronoAdd now with
  | .error _ => none
  | .ok content => writeContent frameMax content

/-- A content whose body is what has been recorded or set. -/
structure SoundContent where
  content : ContentObject basicClass
  described : DescribedBody
  represents : content.body.Represents described

/-- The content with a delta. -/
def SoundContent.stamped (now : Int) (self : SoundContent) : SoundContent where
  content := self.content.stamped now
  described := self.described
  represents := self.represents

/-- What the connection thread sends, a content with the time when its header is sent. -/
inductive Send (protocol : Protocol) where
  | method (channel : UInt16) (method : MethodObject protocol)
  | content (method : MethodObject protocol) (content : SoundContent) (now : Int)
  /-- `send heartbeat frame` -/
  | heartbeat

namespace Send

variable {protocol : Protocol}

/-- The octets that are written for it. -/
def write (frameMax : UInt32) : Send protocol → Option (List UInt8)
  | .method channel object => sendMethodOut frameMax channel object
  | .content object sent now => do
    return (← sendMethodOut frameMax 1 object) ++ (← sendContent frameMax now sent.content)
  | .heartbeat => some (Frame.octets ⟨frameHeartbeat, 0, []⟩)

def writeAll (frameMax : UInt32) : List (Send protocol) → Option (List UInt8)
  | [] => some []
  | send :: sends => do
    return (← write frameMax send) ++ (← writeAll frameMax sends)

/-! ## What is well formed -/

def MethodFrame (frameMax : UInt32) (channel : UInt16) (object : MethodObject protocol)
    (frame : Frame) : Prop :=
  encode object = some frame.payload ∧ frame.type = frameMethod ∧ frame.channel = channel ∧
    frame.payload.length ≤ frameMax.toNat

/-- A content is a header frame with the size of the body, and body frames of that size. -/
def ContentFrames (frameMax : UInt32) (content : SoundContent) (header : Frame)
    (bodies : List Frame) : Prop :=
  (header.type = frameHeader ∧ header.channel = 1 ∧ header.payload.length ≤ frameMax.toNat ∧
    ∃ propertyFlags, header.payload = content.content.headerOctets propertyFlags) ∧
  (∀ frame ∈ bodies, frame.type = frameBody ∧ frame.channel = 1 ∧
    frame.payload.length ≤ frameMax.toNat) ∧
  bodies.flatMap Frame.payload = content.described.octets ∧
  content.content.body.bodySize = content.described.octets.length

def IsFrames (frameMax : UInt32) : Send protocol → List Frame → Prop
  | .method channel object, frames => ∃ frame, frames = [frame] ∧
      MethodFrame frameMax channel object frame
  | .content object sent now, frames => ∃ frame header bodies,
      frames = frame :: header :: bodies ∧ MethodFrame frameMax 1 object frame ∧
        ContentFrames frameMax (sent.stamped now) header bodies
  | .heartbeat, frames => frames = [⟨frameHeartbeat, 0, []⟩]

/-- What has been written are the frames of all that was sent, in order. -/
def WellFormed (frameMax : UInt32) (sends : List (Send protocol)) : Prop :=
  ∃ frames, List.Forall₂ (IsFrames frameMax) sends frames ∧
    writeAll frameMax sends = some (frames.flatten.flatMap Frame.octets)

/-- The method fits in the bucket that is allocated for it, and in a frame. -/
def MethodFits (frameMax : UInt32) : MethodObject protocol → Prop
  | .known c _ m _ payload => FitsBucket c m payload ∧
      (encodeOctets c m payload).length ≤ frameMax.toNat
  | .unknown _ _ => False

/-- The header fits in a bucket and in a frame, and the body in less than 999999 frames. -/
def ContentFits (frameMax : UInt32) (content : ContentObject basicClass) : Prop :=
  14 + content.properties.setSize ≤ 2097152 ∧ 14 + content.properties.setSize ≤ frameMax.toNat ∧
    content.body.passFrames frameMax.toNat < 999999

def Fits (frameMax : UInt32) : Send protocol → Prop
  | .method _ object => MethodFits frameMax object
  | .content object sent now => MethodFits frameMax object ∧ sent.content.DeltaFits now ∧
      ContentFits frameMax (sent.content.stamped now)
  | .heartbeat => True

/-! ## One send -/

variable {frameMax : UInt32}

theorem writePayload_eq {frame : Frame} (h : frame.payload.length ≤ frameMax.toNat) :
    writePayload frameMax frame = frame.octets :=
  if_neg (Nat.not_lt_of_le h)

theorem methodFits_iff {method : MethodObject protocol} : MethodFits frameMax method ↔
      ∃ payload, encode method = some payload ∧ payload.length ≤ frameMax.toNat := by
  cases method with
  | known c hc m hm payload =>
    constructor
    · rintro ⟨hfits, hle⟩
      exact ⟨_, encode_eq_some hfits, hle⟩
    · rintro ⟨octets, hencode, hle⟩
      by_cases hfits : FitsBucket c m payload
      · rw [encode_eq_some hfits] at hencode
        cases hencode
        exact ⟨hfits, hle⟩
      · rw [show encode (.known c hc m hm payload) = none from if_neg hfits] at hencode
        cases hencode
  | unknown classId methodId =>
    constructor
    · exact False.elim
    · rintro ⟨payload, hencode, -⟩
      cases hencode

theorem sendMethodOut_eq (channel : UInt16) {method : MethodObject protocol}
    (h : MethodFits frameMax method) :
    ∃ frame, MethodFrame frameMax channel method frame ∧
      sendMethodOut frameMax channel method = some frame.octets := by
  obtain ⟨payload, hencode, hle⟩ := methodFits_iff.mp h
  refine ⟨⟨frameMethod, channel, payload⟩, ⟨hencode, rfl, rfl, hle⟩, ?_⟩
  rw [sendMethodOut, hencode, map_some, writePayload_eq hle]

theorem frameMinSize_le_tuneOk (h : 0 < (tuneOk frameMax).toNat) :
    frameMinSize ≤ (tuneOk frameMax).toNat := by
  unfold tuneOk at h ⊢
  split at h
  · next hsmall =>
    rw [if_pos hsmall]
    decide
  · next hsmall =>
    rw [if_neg hsmall]
    refine Nat.le_of_not_lt fun hlt => hsmall ⟨hlt, ?_⟩
    exact h

theorem writeContent_eq {content : SoundContent}
    (h : ContentFits (tuneOk frameMax) content.content) :
    ∃ header bodies, ContentFrames (tuneOk frameMax) content header bodies ∧
      writeContent (tuneOk frameMax) content.content =
        some (header.octets ++ bodies.flatMap Frame.octets) ∧
      header.payload = content.content.headerOctets
        (calcPropertyFlags content.content.properties 16 14 0).2 := by
  obtain ⟨hbucket, hle, hcount⟩ := h
  have hsound := content.represents.sound
  have hsize := content.represents.size
  have hoctets := content.represents.octets
  obtain ⟨buckets, reader, hpass, hflat, hbound, -⟩ := Body.pass_passes hsound
    (by rw [hoctets, hsize]) (frameMinSize_le_tuneOk (by omega)) hcount
  have hlen := content.content.length_headerOctets
    (calcPropertyFlags content.content.properties 16 14 0).2
  refine ⟨⟨frameHeader, 1, _⟩, buckets.map (⟨frameBody, 1, ·⟩),
    ⟨⟨rfl, rfl, hlen ▸ hle, _, rfl⟩, ?_, ?_, hsize⟩, ?_, rfl⟩
  · intro frame hframe
    obtain ⟨bucket, hm, rfl⟩ := mem_map.mp hframe
    exact ⟨rfl, rfl, (hbound bucket hm).2⟩
  · rw [flatMap_map, ← hoctets, ← hflat]
    exact flatMap_id'
  · rw [writeContent, content.content.replayHeader_eq, if_neg (Nat.not_lt_of_le hbucket)]
    simp only [hpass, map_some]
    rw [writePayload_eq (hlen ▸ hle), flatMap_map]
    congr 2
    exact flatMap_congr fun bucket hm => writePayload_eq (hbound bucket hm).2

theorem sendContent_of_fits {content : ContentObject basicClass} {now : Int}
    (h : content.DeltaFits now) :
    sendContent frameMax now content = writeContent frameMax (content.stamped now) := by
  rw [sendContent, content.chronoAdd_of_fits h]

theorem write_isFrames {send : Send protocol} (h : send.Fits (tuneOk frameMax)) :
    ∃ frames, send.IsFrames (tuneOk frameMax) frames ∧
      send.write (tuneOk frameMax) = some (frames.flatMap Frame.octets) := by
  cases send with
  | method channel object =>
    obtain ⟨frame, hframe, hsend⟩ := sendMethodOut_eq channel h
    refine ⟨[frame], ⟨frame, rfl, hframe⟩, ?_⟩
    rw [write, hsend, flatMap_singleton]
  | content object sent now =>
    obtain ⟨hmethod, hdelta, hcontent⟩ := h
    obtain ⟨frame, hframe, hsend⟩ := sendMethodOut_eq 1 hmethod
    obtain ⟨header, bodies, hframes, hbody, -⟩ := @writeContent_eq _ (sent.stamped now) hcontent
    refine ⟨frame :: header :: bodies, ⟨frame, header, bodies, rfl, hframe, hframes⟩, ?_⟩
    replace hbody : writeContent (tuneOk frameMax) (sent.content.stamped now) = _ := hbody
    rw [write, hsend, sendContent_of_fits hdelta, hbody, flatMap_cons, flatMap_cons]
    rfl
  | heartbeat => exact ⟨_, rfl, rfl⟩

theorem fits_of_isFrames {send : Send protocol} {frames : List Frame} {octets : List UInt8}
    (h : send.IsFrames frameMax frames) (hwrite : send.write frameMax = some octets) :
    send.Fits frameMax := by
  cases send with
  | method channel object =>
    obtain ⟨frame, -, hencode, -, -, hle⟩ := h
    exact methodFits_iff.mpr ⟨frame.payload, hencode, hle⟩
  | content object sent now =>
    obtain ⟨frame, header, bodies, -, ⟨hencode, -, -, hle⟩,
      ⟨-, -, hheader, flags, hpayload⟩, -⟩ := h
    refine ⟨methodFits_iff.mpr ⟨frame.payload, hencode, hle⟩, ?_⟩
    obtain ⟨method, -, hrest⟩ := bind_eq_some_iff.mp hwrite
    obtain ⟨content, hcontent, -⟩ := bind_eq_some_iff.mp hrest
    have hdelta : sent.content.DeltaFits now := by
      by_contra hno
      rw [sendContent, sent.content.chronoAdd_of_not_fits hno] at hcontent
      cases hcontent
    refine ⟨hdelta, ?_⟩
    rw [hpayload, ContentObject.length_headerOctets] at hheader
    rw [sendContent_of_fits hdelta, writeContent, ContentObject.replayHeader_eq] at hcontent
    by_cases hbucket : 2097152 < 14 + (sent.content.stamped now).properties.setSize
    · rw [if_pos hbucket] at hcontent
      cases hcontent
    · rw [if_neg hbucket] at hcontent
      obtain ⟨r, hpass, -⟩ := map_eq_some_iff.mp hcontent
      exact ⟨Nat.le_of_not_lt hbucket, hheader, (Body.passFrames_lt sent.represents.sound hpass).2⟩
  | heartbeat => trivial

/-! ## All that is sent -/

theorem writeAll_isFrames {sends : List (Send protocol)}
    (h : ∀ send ∈ sends, send.Fits (tuneOk frameMax)) : WellFormed (tuneOk frameMax) sends := by
  induction sends with
  | nil => exact ⟨[], .nil, rfl⟩
  | cons send sends ih =>
    rw [forall_mem_cons] at h
    obtain ⟨first, hfirst, hsend⟩ := write_isFrames h.1
    obtain ⟨frames, hframes, hwrite⟩ := ih h.2
    refine ⟨first :: frames, .cons hfirst hframes, ?_⟩
    rw [writeAll, hsend, hwrite, flatten_cons, flatMap_append]
    rfl

theorem fits_of_writeAll {sends : List (Send protocol)} {frames : List (List Frame)}
    (h : List.Forall₂ (IsFrames frameMax) sends frames) {octets : List UInt8}
    (hwrite : writeAll frameMax sends = some octets) : ∀ send ∈ sends, send.Fits frameMax := by
  induction h generalizing octets with
  | nil => exact fun _ hsend => absurd hsend not_mem_nil
  | cons hsend _ ih =>
    obtain ⟨first, hfirst, hwrite⟩ := bind_eq_some_iff.mp hwrite
    obtain ⟨rest, hrest, -⟩ := bind_eq_some_iff.mp hwrite
    rw [forall_mem_cons]
    exact ⟨fits_of_isFrames hsend hfirst, ih hrest⟩

/--
All that is sent is written as whole frames when each method and each header fits in a frame and
its bucket, each correlation id has room for its delta, and each body fits in less than 999999
frames, and only then. Under a limit of zero, which is kept, nothing fits.
-/
theorem frames_wellFormed_iff (protocol : Protocol) (frameMax : UInt32)
    (sends : List (Send protocol)) :
    WellFormed (tuneOk frameMax) sends ↔ ∀ send ∈ sends, send.Fits (tuneOk frameMax) :=
  ⟨fun ⟨_, hframes, hwrite⟩ => fits_of_writeAll hframes hwrite, writeAll_isFrames⟩

/-- `basic.deliver` -/
def basicDeliver : Grammar.Method :=
  ⟨"deliver".toList, 60, false,
    [⟨"consumer_tag".toList, .data .shortstr, []⟩, ⟨"delivery_tag".toList, .data .longlong, []⟩,
     ⟨"redelivered".toList, .bit, []⟩, ⟨"exchange".toList, .data .shortstr, [.length 127]⟩,
     ⟨"routing_key".toList, .data .shortstr, []⟩]⟩

/-- `basic`, of which one method is given. -/
def deliverClass : Grammar.Class := ⟨"basic".toList, 60, [basicDeliver]⟩

def deliverProtocol : Protocol where
  classes := [deliverClass]
  classes_nodup := by decide
  methods_nodup := by decide
  class_index := by
    intro c hc
    cases mem_singleton.mp hc
    exact ⟨by decide, by decide⟩
  method_index := by
    intro c hc m hm
    cases mem_singleton.mp hc
    cases mem_singleton.mp hm
    exact ⟨by decide, by decide⟩

/-- A message that is delivered -/
def deliver : MethodObject deliverProtocol :=
  .known deliverClass mem_cons_self basicDeliver mem_cons_self
    (DataType.shortstr.unset, (1 : Int64), true, DataType.shortstr.unset, DataType.shortstr.unset,
      ())

/-- A content of three octets, with headers of this size -/
def headedContent (size : Nat) : SoundContent where
  content := { ContentObject.withHeaders (replicate size 0) with
    body := ⟨some [[1, 2, 3]], 3, .null, false⟩ }
  described := ⟨[1, 2, 3], false⟩
  represents := ⟨rfl, rfl, rfl, nofun⟩

theorem setSize_headedContent {size : Nat} (hpos : 0 < size) :
    (headedContent size).content.properties.setSize = 4 + size := by
  have h := ContentObject.setSize_withHeaders (replicate size 0)
    (by rw [ne_eq, replicate_eq_nil_iff]; omega)
  rw [length_replicate] at h
  exact h

theorem not_marked_headedContent (size : Nat) :
    ¬ Chrono.Marked (headedContent size).content.chronoText := by
  change ¬ Chrono.Marked (cstring DataType.shortstr.unset.octets)
  decide

theorem sendContent_headedContent {size : Nat} (hsize : size ≤ 100000)
    (hlarge : 4096 < 18 + size) (now : Int) :
    sendContent (tuneOk 4096) now (headedContent size).content =
      some (Frame.octets ⟨frameBody, 1, [1, 2, 3]⟩) := by
  have hset := @setSize_headedContent size (by omega)
  have hmax : (tuneOk 4096).toNat = 4096 := rfl
  have hbody : (headedContent size).content.body.pass 4096 =
      some ([[1, 2, 3]], _) := rfl
  have hheader : 4096 < ((headedContent size).content.headerOctets
      (calcPropertyFlags (headedContent size).content.properties 16 14 0).2).length := by
    rw [ContentObject.length_headerOctets, hset]
    omega
  rw [sendContent, ContentObject.chronoAdd_of_not_marked _ _ (not_marked_headedContent size)]
  simp only [writeContent]
  rw [ContentObject.replayHeader_eq, if_neg (by omega)]
  simp only [hmax, hbody, map_some, writePayload, if_pos hheader]
  rfl

theorem sendMethodOut_deliver : ∃ method,
    sendMethodOut (tuneOk 4096) 1 deliver = some (Frame.octets method) :=
  ⟨⟨frameMethod, 1, _⟩, rfl⟩

/-- A header that is larger than a frame is left out, and the body is written behind the method. -/
theorem writeAll_withoutHeader : ∃ method,
    sendMethodOut (tuneOk 4096) 1 deliver = some (Frame.octets method) ∧
      writeAll (tuneOk 4096) [.content deliver (headedContent 5000) 0] =
        some (method.octets ++ Frame.octets ⟨frameBody, 1, [1, 2, 3]⟩) ∧
      ¬ WellFormed (tuneOk 4096) [.content deliver (headedContent 5000) 0] := by
  obtain ⟨method, hmethod⟩ := sendMethodOut_deliver
  have hcontent := @sendContent_headedContent 5000 (by decide) (by decide) 0
  have hwrite : writeAll (tuneOk 4096) [.content deliver (headedContent 5000) 0] =
      some (method.octets ++ Frame.octets ⟨frameBody, 1, [1, 2, 3]⟩) := by
    rw [writeAll, write, hmethod, hcontent, writeAll]
    simp only [Option.bind_eq_bind, Option.bind_some, Option.pure_def, append_nil]
  refine ⟨method, hmethod, hwrite, ?_⟩
  rintro ⟨frames, hframes, -⟩
  obtain ⟨-, hfits⟩ := fits_of_writeAll hframes hwrite _ mem_cons_self
  have hlarge : 14 + ((headedContent 5000).content.stamped 0).properties.setSize ≤ 4096 :=
    hfits.2.2.1
  rw [ContentObject.stamped_of_not_marked _ _ (not_marked_headedContent 5000),
    setSize_headedContent (by decide)] at hlarge
  omega

end Send

end OpenAmq
