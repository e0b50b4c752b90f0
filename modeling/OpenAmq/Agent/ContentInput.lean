import OpenAmq.Asl.MethodMemory
import OpenAmq.Content.Body
import OpenAmq.Content.Chrono
import OpenAmq.Content.Header
import OpenAmq.Server.Model

/-!
# Reading a content

The input thread calls `read basic content` when it has a method that carries a content. It reads
a header frame and then body frames until the body is not smaller than the header says. Heartbeats
are passed over, and a method frame has to be an exception.

* `readFramePayload`, `checkFrameFormat` — the frame
* `ContentInput.step` — one frame in the state that the thread is in
* `content_reassembled` — what has been received when the method is executed
-/

namespace OpenAmq

open List ContentObject

/-! ## Frames -/

/-- `ASL_FRAME_METHOD` and the other types -/
def frameMethod : UInt8 := 1

@[inherit_doc frameMethod]
def frameHeader : UInt8 := 2

@[inherit_doc frameMethod]
def frameBody : UInt8 := 3

@[inherit_doc frameMethod]
def frameHeartbeat : UInt8 := 8

/-- `ASL_FRAME_END` -/
def frameEnd : UInt8 := 206

def aslFrameError : Nat := 501

def aslChannelError : Nat := 504

/-- `asl_frame_header_t` -/
structure FrameHeader where
  type : UInt8
  channel : UInt16
  size : UInt32

inductive InputException where
  | connectionError (replyCode : Nat) (replyText : Str) (classId methodId : Nat)
  | connectionAbort (replyCode : Nat) (replyText : Str)
  | asyncConnectionError

/-- `s_socket_read_bucket`: how many octets the socket is asked for. -/
def socketReadBucket (size : Nat) : Except InputException Nat :=
  if size ≤ iprBucketMaxSize then .ok size
  else .error (.connectionAbort aslFrameError "Illegal frame size specified".toList)

/-- The number as `%d` prints it. -/
def printInt (n : UInt32) : Str := (toString (toInt32 n.toNat)).toList

/-- `read frame payload`; the size and one is a sum of 32 bits. -/
def readFramePayload (frameMax : UInt32) (header : FrameHeader) : Except InputException Nat :=
  if frameMax < header.size then
    .error (.connectionAbort aslFrameError ("Peer sent oversized frame (".toList ++
      printInt header.size ++ " > ".toList ++ printInt frameMax ++ ")".toList))
  else socketReadBucket (header.size + 1).toNat

/-- `check frame format`: the bucket without the frame-end octet. -/
def checkFrameFormat (octets : List UInt8) : Except InputException (List UInt8) :=
  if octets.getLast? = some frameEnd then .ok octets.dropLast
  else .error (.connectionAbort aslSyntaxError (
    if octets.isEmpty then "Badly-formatted method frame - zero-sized frame".toList
    else "Badly-formatted method frame - missing frame-end octet".toList))

/-- A frame that arrives: its header, and the octets that the socket brings for it. -/
structure Arrival where
  header : FrameHeader
  octets : List UInt8
  /-- Whether an exception has been raised on the connection when the frame is looked at. -/
  exceptionRaised : Bool

/-- The octets before the frame-end. -/
def Arrival.payload (self : Arrival) : List UInt8 := self.octets.dropLast

def MethodObject.indices {protocol : Protocol} : MethodObject protocol → Nat × Nat
  | known c _ m _ _ => (c.index, m.index)
  | unknown classId methodId => (classId, methodId)

/-! ## The thread -/

/--
What the thread has when it calls `read basic content`; the indices are those of `method_in`. The
clock is looked at when a header has been recorded, which is once in a call.
-/
structure ContentCall where
  protocol : Protocol
  regexpMatch : Str → List UInt8 → Bool
  frameMax : UInt32
  classId : Nat
  methodId : Nat
  now : Int

inductive ContentInput where
  /-- Before the header frame. -/
  | header
  /-- Before a body frame. -/
  | body (content : ContentObject basicClass)
  /-- Back from the call, with the channel of the last frame; the method is executed next. -/
  | complete (content : ContentObject basicClass) (channel : UInt16)
  /-- At an exception method. -/
  | exceptionMethod (classId methodId : Nat)
  | raised (exception : InputException)

/-- `connection.close`, `connection.close-ok` and `channel.close` -/
def exceptionMethods : List (Nat × Nat) := [(10, 50), (10, 51), (20, 40)]

namespace ContentInput

/-- `s_connection_exception` with the method that the content is for. -/
def connectionException (call : ContentCall) (replyCode : Nat) (replyText : String) :
    ContentInput :=
  .raised (.connectionError replyCode replyText.toList call.classId call.methodId)

/-- `check if basic body complete` -/
def checkComplete (content : ContentObject basicClass) (channel : UInt16) : ContentInput :=
  if (content.body.bodySize : Int) < content.bodyExpect.toInt then .body content
  else .complete content channel

/-- `decode method` and `expect exception method`, nothing when the decoder leaves the bucket. -/
def expectExceptionMethod (call : ContentCall) (bucket : List UInt8) : Option ContentInput :=
  match decodeAt call.protocol call.regexpMatch bucket with
  | .error _ => none
  | .ok (.null strerror _ _) => some (.raised (.connectionAbort aslSyntaxError strerror))
  | .ok (.method method _) =>
    if method.indices ∈ exceptionMethods then
      some (.exceptionMethod method.indices.1 method.indices.2)
    else
      some (.raised (.connectionError aslSyntaxError "Method not allowed".toList method.indices.1
        method.indices.2))

/-- `expect content basic header` on a frame that is not for the other two branches. -/
def expectHeader (call : ContentCall) (header : FrameHeader) (bucket : List UInt8) :
    Option ContentInput :=
  if header.type = frameHeader then
    match (new basicClass).recordHeader bucket with
    | .error _ => none
    | .ok (content, rc) =>
      -- whether or not the header is valid, the chronometer is added to
      match content.chronoAdd call.now with
      | .error _ => none
      | .ok content =>
        if rc ≠ 0 then
          some (connectionException call aslSyntaxError "Invalid content header frame")
        else if content.classId ≠ basicClass.index then
          some (connectionException call aslSyntaxError "Content class does not match method class")
        else some (checkComplete content header.channel)
  else some (connectionException call aslSyntaxError "Expected a content header frame")

/-- `expect content basic body` on a frame that is not for the other two branches. -/
def expectBody (call : ContentCall) (content : ContentObject basicClass) (header : FrameHeader)
    (bucket : List UInt8) : Option ContentInput :=
  if header.type = frameBody then
    (content.body.recordBody bucket).map fun body =>
      checkComplete { content with body := body } header.channel
  else some (connectionException call aslSyntaxError "Expected a content body frame")

/-- A frame whose format has been checked, in the state `self`, for which `expect` is the rest. -/
def expectFrame (call : ContentCall) (self : ContentInput) (arrival : Arrival)
    (bucket : List UInt8) (expect : FrameHeader → List UInt8 → Option ContentInput) :
    Option ContentInput :=
  if arrival.header.type = frameHeartbeat then some self
  else if arrival.header.type = frameMethod then expectExceptionMethod call bucket
  else if arrival.exceptionRaised then some (.raised .asyncConnectionError)
  else if arrival.header.channel ≠ 1 then
    some (connectionException call aslChannelError "Invalid channel")
  else expect arrival.header bucket

/-- `read frame header`, `read frame payload`, `check frame format`, and what is expected. -/
def readFrame (call : ContentCall) (self : ContentInput) (arrival : Arrival)
    (expect : FrameHeader → List UInt8 → Option ContentInput) : Option ContentInput :=
  match readFramePayload call.frameMax arrival.header with
  | .error exception => some (.raised exception)
  | .ok _ =>
    match checkFrameFormat arrival.octets with
    | .error exception => some (.raised exception)
    | .ok bucket => expectFrame call self arrival bucket expect

/--
One frame. Nothing is left of the thread when the header or a method is read outside the bucket,
or a delta is written past the correlation id.
A frame that comes when the call is over is not read in it.
-/
def step (call : ContentCall) (self : ContentInput) (arrival : Arrival) :
    Option ContentInput :=
  match self with
  | header => readFrame call header arrival (expectHeader call)
  | body content => readFrame call (body content) arrival (expectBody call content)
  | complete _ _ => some self
  | exceptionMethod _ _ => some self
  | raised _ => some self

/-! ## What has been received -/

end ContentInput

/-- The octets are those that the socket has been asked for. -/
def Arrival.Delivered (self : Arrival) (frameMax : UInt32) : Prop :=
  ∀ size, readFramePayload frameMax self.header = .ok size → self.octets.length = size

structure Arrival.IsFrame (arrival : Arrival) (type : UInt8) : Prop where
  type_eq : arrival.header.type = type
  channel_eq : arrival.header.channel = 1
  octets_eq : arrival.octets = arrival.payload ++ [frameEnd]
  length_eq : arrival.payload.length = arrival.header.size.toNat

structure Body.Recorded (body : Body) (buckets : List (List UInt8)) : Prop where
  data : body.bodyData = .null
  list : body.bucketList.getD [] = buckets
  size : body.bodySize = buckets.flatten.length

/--
Apart from heartbeats, a header frame of the class and body frames. The content is that of the
header, with a delta of the time when the header was recorded.
-/
def ReceivedContent (now : Int) (arrivals : List Arrival) (content : ContentObject basicClass) :
    Prop :=
  ∃ first bodies, arrivals.filter (·.header.type != frameHeartbeat) = first :: bodies ∧
    first.IsFrame frameHeader ∧ (∀ arrival ∈ bodies, arrival.IsFrame frameBody) ∧
    (∃ recorded, (new basicClass).recordHeader first.payload = .ok (recorded, 0) ∧
      { content with body := .new } = recorded.stamped now) ∧
    content.classId = basicClass.index ∧ content.body.Recorded (bodies.map Arrival.payload)

variable {arrival : Arrival} {call : ContentCall}

namespace ContentInput

/--
The method is executed with a content only when its body is as large as the header says. Before,
the frames are the beginning of a content, and otherwise there is an exception.
-/
def Holds (now : Int) (arrivals : List Arrival) : ContentInput → Prop
  | header => arrivals.filter (·.header.type != frameHeartbeat) = []
  | body content => ReceivedContent now arrivals content ∧
      (content.body.bodySize : Int) < content.bodyExpect.toInt
  | complete content channel => channel = 1 ∧ ∃ taken rest, arrivals = taken ++ rest ∧
      ReceivedContent now taken content ∧
      (content.body.bodySize : Int) = content.bodyExpect.toInt
  | exceptionMethod classId methodId => (classId, methodId) ∈ exceptionMethods
  | raised _ => True

/-- The correlation id in the header, as far as it is read, has room for a delta. -/
def HeaderHasRoom (now : Int) (payload : List UInt8) : Prop :=
  ∀ content rc, (new basicClass).recordHeader payload = .ok (content, rc) → content.DeltaFits now

/-- The frame declares no negative size, and the body does not go over the size declared. -/
def Exact (call : ContentCall) : ContentInput → Arrival → Prop
  | header, arrival =>
    (arrival.header.type = frameMethod → MethodHoldsStrings call.protocol arrival.payload) ∧
      (arrival.header.type = frameHeader →
        ¬ ContentObject.NegativeHeader basicClass arrival.payload ∧
        (∀ expect rest, getWord 8 (arrival.payload.drop 4) = .ok (expect, rest) →
          expect < 0x8000000000000000) ∧
        HeaderHasRoom call.now arrival.payload)
  | body content, arrival =>
    (arrival.header.type = frameMethod → MethodHoldsStrings call.protocol arrival.payload) ∧
      (arrival.header.type = frameBody →
        (content.body.bodySize + arrival.payload.length : Int) ≤ content.bodyExpect.toInt)
  | _, _ => True

/-! ## One frame -/

theorem readFramePayload_eq_ok {frameMax : UInt32} {header : FrameHeader} {size : Nat}
    (h : readFramePayload frameMax header = .ok size) :
    header.size ≤ frameMax ∧ size = (header.size + 1).toNat ∧ size ≤ iprBucketMaxSize := by
  unfold readFramePayload socketReadBucket at h
  split at h
  · cases h
  next hle =>
  split at h
  · next hmax =>
    cases h
    exact ⟨UInt32.not_lt.mp hle, rfl, hmax⟩
  · cases h

variable {bucket : List UInt8}

theorem checkFrameFormat_eq_ok {octets : List UInt8} (h : checkFrameFormat octets = .ok bucket) :
    bucket = octets.dropLast ∧ octets = octets.dropLast ++ [frameEnd] := by
  unfold checkFrameFormat at h
  split at h
  · next hlast =>
    cases h
    exact ⟨rfl, (dropLast_append_getLast? frameEnd hlast).symm⟩
  · cases h

theorem length_payload {size : UInt32} (hoctets : arrival.octets = arrival.payload ++ [frameEnd])
    (hlen : arrival.octets.length = (size + 1).toNat) : arrival.payload.length = size.toNat := by
  have hle := size.toNat_lt
  have hsum : (size + 1).toNat = (size.toNat + 1) % 4294967296 := UInt32.toNat_add size 1
  rw [hoctets, length_append, length_singleton, hsum] at hlen
  omega

theorem expectExceptionMethod_cases
    (h : MethodHoldsStrings call.protocol bucket) :
    (∃ exception, expectExceptionMethod call bucket = some (.raised exception : ContentInput)) ∨
      ∃ classId methodId, (classId, methodId) ∈ exceptionMethods ∧
        expectExceptionMethod call bucket =
          some (.exceptionMethod classId methodId : ContentInput) := by
  unfold expectExceptionMethod
  rcases (decodeAt_safe_iff call.protocol call.regexpMatch bucket).mpr h with
    ⟨method, net, hd⟩ | ⟨strerror, allocated, hd⟩
  · rw [hd]
    by_cases hm : method.indices ∈ exceptionMethods
    · exact .inr ⟨_, _, hm, if_pos hm⟩
    · exact .inl ⟨_, if_neg hm⟩
  · rw [hd]
    exact .inl ⟨_, rfl⟩

theorem readFrame_cases {self : ContentInput}
    (expect : FrameHeader → List UInt8 → Option ContentInput)
    (hd : arrival.Delivered call.frameMax)
    (hm : arrival.header.type = frameMethod → MethodHoldsStrings call.protocol arrival.payload) :
    (arrival.header.type = frameHeartbeat ∧ readFrame call self arrival expect = some self) ∨
      (∃ exception, readFrame call self arrival expect = some (.raised exception)) ∨
      (∃ classId methodId, (classId, methodId) ∈ exceptionMethods ∧
        readFrame call self arrival expect = some (.exceptionMethod classId methodId)) ∨
      arrival.header.type ≠ frameHeartbeat ∧ arrival.IsFrame arrival.header.type ∧
        readFrame call self arrival expect = expect arrival.header arrival.payload := by
  unfold readFrame
  cases hsize : readFramePayload call.frameMax arrival.header with
  | error exception => exact .inr (.inl ⟨exception, rfl⟩)
  | ok size =>
    cases hformat : checkFrameFormat arrival.octets with
    | error exception => exact .inr (.inl ⟨exception, rfl⟩)
    | ok bucket =>
      obtain ⟨rfl, hoctets⟩ := checkFrameFormat_eq_ok hformat
      simp only [expectFrame]
      by_cases hheartbeat : arrival.header.type = frameHeartbeat
      · rw [if_pos hheartbeat]
        exact .inl ⟨hheartbeat, rfl⟩
      rw [if_neg hheartbeat]
      by_cases hmethod : arrival.header.type = frameMethod
      · rw [if_pos hmethod]
        rcases expectExceptionMethod_cases (hm hmethod) with h | h
        · exact .inr (.inl h)
        · exact .inr (.inr (.inl h))
      rw [if_neg hmethod]
      by_cases hraised : arrival.exceptionRaised
      · rw [if_pos hraised]
        exact .inr (.inl ⟨_, rfl⟩)
      rw [if_neg hraised]
      by_cases hchannel : arrival.header.channel ≠ 1
      · rw [if_pos hchannel]
        exact .inr (.inl ⟨_, rfl⟩)
      rw [if_neg hchannel]
      have hlen := (hd size hsize).trans (readFramePayload_eq_ok hsize).2.1
      exact .inr (.inr (.inr ⟨hheartbeat,
        ⟨rfl, Decidable.not_not.mp hchannel, hoctets, length_payload hoctets hlen⟩, rfl⟩))

theorem expectHeader_cases (call : ContentCall) {header : FrameHeader}
    (h : header.type = frameHeader → ¬ ContentObject.NegativeHeader basicClass bucket)
    (hroom : header.type = frameHeader → HeaderHasRoom call.now bucket) :
    (∃ exception, expectHeader call header bucket = some (.raised exception)) ∨
      header.type = frameHeader ∧ ∃ content : ContentObject basicClass,
        (new basicClass).takeHeader bucket = .ok content ∧
        (new basicClass).recordHeader bucket = .ok (content, 0) ∧
        content.classId = basicClass.index ∧ expectHeader call header bucket =
          some (checkComplete (content.stamped call.now) header.channel) := by
  unfold expectHeader
  by_cases htype : header.type = frameHeader
  · rw [if_pos htype]
    have hr := recordHeader_agrees (new basicClass) bucket
    cases ht : (new basicClass).takeHeader bucket with
    | ok content =>
      rw [ht] at hr
      have hadd := content.chronoAdd_of_fits (hroom htype content 0 hr)
      rw [show _ = _ from hr]
      simp only [hadd, ne_eq, not_true_eq_false, if_false]
      by_cases hclass : content.classId = basicClass.index
      · exact .inr ⟨htype, content, rfl, rfl, hclass, if_neg fun h => h hclass⟩
      · exact .inl ⟨_, if_pos hclass⟩
    | error e =>
      rw [ht] at hr
      cases e with
      | underflow =>
        obtain ⟨content, hr⟩ := hr
        have hadd := content.chronoAdd_of_fits (hroom htype content _ hr)
        simp only [hr, hadd]
        exact .inl ⟨_, if_pos (by decide)⟩
      | fault => exact absurd ((takeHeader_fault_iff _ _).mp ht) (h htype)
  · rw [if_neg htype]
    exact .inl ⟨_, rfl⟩

end ContentInput

theorem Body.new_recorded : Body.new.Recorded [] := ⟨rfl, rfl, rfl⟩

theorem Body.Recorded.recordBody {self : Body} {buckets : List (List UInt8)}
    (h : self.Recorded buckets) (bucket : List UInt8) :
    ∃ next, self.recordBody bucket = some next ∧ next.Recorded (buckets ++ [bucket]) ∧
      next.bodySize = self.bodySize + bucket.length := by
  obtain ⟨hdata, hlist, hsize⟩ := h
  unfold Body.recordBody
  rw [hdata]
  refine ⟨_, rfl, ⟨rfl, ?_, ?_⟩, rfl⟩
  · rw [← hlist]
    rfl
  · rw [flatten_append, length_append, flatten_singleton, ← hsize]

namespace ContentInput

theorem toInt_of_lt {n : Nat} (h : n < 0x8000000000000000) :
    (UInt64.ofNat n).toInt64.toInt = n := by
  show (BitVec.ofNat 64 n).toInt = n
  have hn : (BitVec.ofNat 64 n).toNat = n := by
    rw [BitVec.toNat_ofNat, Nat.mod_eq_of_lt (by omega)]
  rw [BitVec.toInt_eq_toNat_of_lt (by omega), hn]

variable {arrivals : List Arrival}

theorem checkComplete_holds {content : ContentObject basicClass} {channel : UInt16} {now : Int}
    (h : ReceivedContent now arrivals content) (hchannel : channel = 1)
    (hle : (content.body.bodySize : Int) ≤ content.bodyExpect.toInt) :
    Holds now arrivals (checkComplete content channel) := by
  unfold checkComplete
  split
  · next hlt => exact ⟨h, hlt⟩
  · next hge => exact ⟨hchannel, arrivals, [], (append_nil _).symm, h, by omega⟩

theorem filter_heartbeat (h : arrival.header.type = frameHeartbeat) :
    (arrivals ++ [arrival]).filter (·.header.type != frameHeartbeat) =
      arrivals.filter (·.header.type != frameHeartbeat) := by
  rw [filter_append, filter_singleton, h]
  exact append_nil _

theorem filter_frame (h : arrival.header.type ≠ frameHeartbeat) :
    (arrivals ++ [arrival]).filter (·.header.type != frameHeartbeat) =
      arrivals.filter (·.header.type != frameHeartbeat) ++ [arrival] := by
  rw [filter_append, filter_singleton, bne_iff_ne.mpr h]
  rfl

/-- One frame in each of the states, by what the frames before it have been. -/
theorem step_holds {self : ContentInput} (h : Holds call.now arrivals self)
    (hd : arrival.Delivered call.frameMax) (hok : Exact call self arrival) :
    ∃ next, step call self arrival = some next ∧ Holds call.now (arrivals ++ [arrival]) next := by
  cases self with
  | header =>
    obtain ⟨hmethod, hheader⟩ := hok
    rcases readFrame_cases (expectHeader call) hd hmethod with
      ⟨hheartbeat, hread⟩ | ⟨exception, hread⟩ | ⟨classId, methodId, hm, hread⟩ |
        ⟨hne, hframe, hread⟩
    · exact ⟨_, hread, (filter_heartbeat hheartbeat).trans h⟩
    · exact ⟨_, hread, trivial⟩
    · exact ⟨_, hread, hm⟩
    · rcases expectHeader_cases call (fun htype => (hheader htype).1)
          (fun htype => (hheader htype).2.2) with
        ⟨exception, hexpect⟩ | ⟨htype, content, htake, hrecord, hclass, hexpect⟩
      · exact ⟨_, hread.trans hexpect, trivial⟩
      · obtain ⟨hbody, expect, rest, hword, hdeclared⟩ := takeHeader_eq_ok htake
        refine ⟨_, hread.trans hexpect, checkComplete_holds ?_ hframe.channel_eq ?_⟩
        · refine ⟨arrival, [], ?_, htype ▸ hframe, nofun, ⟨content, hrecord, ?_⟩, hclass, ?_⟩
          · rw [filter_frame hne, show _ = _ from h]
            rfl
          · rw [show Body.new = (content.stamped call.now).body from hbody.symm]
          · rw [show (content.stamped call.now).body = Body.new from hbody]
            exact Body.new_recorded
        · show (content.body.bodySize : Int) ≤ content.bodyExpect.toInt
          rw [hbody, hdeclared, toInt_of_lt ((hheader htype).2.1 expect rest hword)]
          show (0 : Int) ≤ _
          omega
  | body content =>
    obtain ⟨hmethod, hover⟩ := hok
    obtain ⟨⟨first, bodies, hfilter, hfirst, hbodies, hrecord, hclass, hrecorded⟩, hlt⟩ := h
    rcases readFrame_cases (expectBody call content) hd hmethod with
      ⟨hheartbeat, hread⟩ | ⟨exception, hread⟩ | ⟨classId, methodId, hm, hread⟩ |
        ⟨hne, hframe, hread⟩
    · exact ⟨_, hread, ⟨first, bodies, (filter_heartbeat hheartbeat).trans hfilter, hfirst, hbodies,
        hrecord, hclass, hrecorded⟩, hlt⟩
    · exact ⟨_, hread, trivial⟩
    · exact ⟨_, hread, hm⟩
    · unfold expectBody at hread
      by_cases htype : arrival.header.type = frameBody
      · obtain ⟨next, hnext, hrec, hsize⟩ := hrecorded.recordBody arrival.payload
        rw [if_pos htype, hnext] at hread
        refine ⟨_, hread, checkComplete_holds ?_ hframe.channel_eq ?_⟩
        · refine ⟨first, bodies ++ [arrival], ?_, hfirst, ?_, hrecord, hclass, ?_⟩
          · rw [filter_frame hne, hfilter]
            rfl
          · intro frame hmem
            rcases mem_append.mp hmem with hmem | hmem
            · exact hbodies frame hmem
            · obtain rfl := mem_singleton.mp hmem
              exact htype ▸ hframe
          · rw [map_append]
            exact hrec
        · show (next.bodySize : Int) ≤ content.bodyExpect.toInt
          rw [hsize]
          exact hover htype
      · rw [if_neg htype] at hread
        exact ⟨_, hread, trivial⟩
  | complete content channel =>
    obtain ⟨hchannel, taken, rest, rfl, hreceived, hexact⟩ := h
    exact ⟨_, rfl, hchannel, taken, rest ++ [arrival], append_assoc _ _ _, hreceived, hexact⟩
  | exceptionMethod classId methodId => exact ⟨_, rfl, h⟩
  | raised exception => exact ⟨_, rfl, trivial⟩

/-! ## All frames -/

theorem readFramePayload_iff (frameMax : UInt32) (header : FrameHeader) :
    (∀ size, readFramePayload frameMax header = .ok size →
        size = header.size.toNat + 1 ∧ size ≤ iprBucketMaxSize) ↔
      ¬ (frameMax = 0xFFFFFFFF ∧ header.size = 0xFFFFFFFF) := by
  constructor
  · rintro h ⟨rfl, hsize⟩
    have hread : readFramePayload 0xFFFFFFFF header = .ok 0 := by
      rw [readFramePayload, hsize]
      rfl
    have := (h 0 hread).1
    omega
  · intro h size hread
    obtain ⟨hle, rfl, hmax⟩ := readFramePayload_eq_ok hread
    refine ⟨?_, hmax⟩
    have hsum : (header.size + 1).toNat = (header.size.toNat + 1) % 4294967296 :=
      UInt32.toNat_add header.size 1
    have hlt := header.size.toNat_lt
    by_cases hlast : header.size.toNat = 0xFFFFFFFF
    · have hsize : header.size = 0xFFFFFFFF := UInt32.toNat_inj.mp hlast
      refine absurd ⟨?_, hsize⟩ h
      have hmax : frameMax.toNat ≤ 0xFFFFFFFF := Nat.le_of_lt_succ frameMax.toNat_lt
      exact UInt32.le_antisymm hmax (hsize ▸ hle)
    · omega

/--
While the header frame declares no negative size and leaves room for a delta, and the body frames
do not go over the declared size, the thread comes to the method with the content that has been
received, or to an exception.
-/
theorem content_reassembled (call : ContentCall) {arrivals : List Arrival}
    (hd : ∀ arrival ∈ arrivals, arrival.Delivered call.frameMax)
    (h : Lib.Along (step call) (Exact call) header arrivals) :
    (∃ self, Lib.run (step call) header arrivals = some self ∧ Holds call.now arrivals self) ∧
      ∀ header : FrameHeader, (∀ size, readFramePayload call.frameMax header = .ok size →
          size = header.size.toNat + 1 ∧ size ≤ iprBucketMaxSize) ↔
        ¬ (call.frameMax = 0xFFFFFFFF ∧ header.size = 0xFFFFFFFF) := by
  refine ⟨?_, readFramePayload_iff call.frameMax⟩
  exact Lib.run_progress (fun _ _ _ hholds hok => step_holds hholds hok.1 hok.2) [] rfl
    (Lib.along_and_forall hd h)

/-- A call of a `basic` method with the limit of the configuration. -/
def basicCall : ContentCall := ⟨channelProtocol, fun _ _ => true, 32768, 60, 40, 0⟩

def heartbeat : Arrival := ⟨⟨frameHeartbeat, 0, 0⟩, [frameEnd], false⟩

/-- A header frame without properties. -/
def bareHeader (expect : Int64) : Arrival where
  header := ⟨frameHeader, 1, 14⟩
  octets := putShort 60 ++ putShort 0 ++ putLlong expect ++ putShort 0 ++ [frameEnd]
  exceptionRaised := false

def bodyFrame (octets : List UInt8) : Arrival where
  header := ⟨frameBody, 1, UInt32.ofNat octets.length⟩
  octets := octets ++ [frameEnd]
  exceptionRaised := false

/-- A content of three octets in two body frames, with heartbeats between them -/
def threeOctets : List Arrival :=
  [heartbeat, bareHeader 3, bodyFrame [1, 2], heartbeat, bodyFrame [3]]

theorem content_reassembled_three :
    (∃ self, Lib.run (step basicCall) header threeOctets = some self ∧
        Holds basicCall.now threeOctets self) ∧
      ∀ header : FrameHeader, (∀ size, readFramePayload basicCall.frameMax header = .ok size →
          size = header.size.toNat + 1 ∧ size ≤ iprBucketMaxSize) ↔
        ¬ (basicCall.frameMax = 0xFFFFFFFF ∧ header.size = 0xFFFFFFFF) := by
  refine content_reassembled basicCall ?_ ⟨⟨nofun, nofun⟩, ?_⟩
  · intro arrival hmem size hsize
    rw [(readFramePayload_eq_ok hsize).2.1]
    simp only [threeOctets, mem_cons, not_mem_nil, or_false] at hmem
    rcases hmem with rfl | rfl | rfl | rfl | rfl <;> rfl
  · intro next hstep
    cases hstep
    refine ⟨⟨nofun, fun _ => ⟨fun hnegative => ?_, fun expect rest hword => ?_,
      fun content rc hrecord => ?_⟩⟩, ?_⟩
    · have hfault := (takeHeader_fault_iff (new basicClass) _).mpr hnegative
      cases hfault
    · have hthree : getWord 8 ((bareHeader 3).payload.drop 4) = .ok (3, [0, 0]) := rfl
      cases hword
      decide
    · have hbare : (new basicClass).recordHeader (bareHeader 3).payload =
          .ok ({ new basicClass with bodyExpect := 3 }, 0) := rfl
      obtain rfl := (Prod.mk.inj (Except.ok.inj hrecord)).1
      decide +kernel
    · intro next hstep
      cases hstep
      refine ⟨⟨nofun, fun _ => by decide⟩, fun next hstep => ?_⟩
      cases hstep
      refine ⟨⟨nofun, nofun⟩, fun next hstep => ?_⟩
      cases hstep
      exact ⟨⟨nofun, fun _ => by decide⟩, fun _ _ => trivial⟩

/-- The size 2^64 - 1 is taken as -1, and the content without a body is executed. -/
theorem complete_negative :
    ∃ content, step basicCall header (bareHeader (-1)) = some (.complete content 1) ∧
      content.bodyExpect = -1 ∧ content.body.bodySize = 0 ∧
      ¬ Holds basicCall.now [bareHeader (-1)] (.complete content 1) := by
  refine ⟨{ new basicClass with bodyExpect := -1 }, rfl, rfl, rfl, ?_⟩
  rintro ⟨-, taken, rest, -, -, hexact⟩
  have hsize : ((0 : Nat) : Int) = (-1 : Int64).toInt := hexact
  revert hsize
  decide

end ContentInput

end OpenAmq
