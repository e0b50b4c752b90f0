import OpenAmq.Smt.ReadMother

/-!
# Reading with a minimum and a maximum

A read request is answered at once when the socket has what it needs, and waits otherwise. What
arrives later goes to the first request that waits, behind what it was given already.

* `ReadSocket.read`, `ReadSocket.readBucket` — a request, and the attempt to answer it at once
* `ReadSocket.readData` — the poll loop serves the first request
* `ReadDelivers` — what has been placed, and what has been reported
* `read_delivers` — **over any run nothing is lost, repeated or out of place**
-/

namespace OpenAmq

open Lib List

/-! ## Receiving -/

inductive AprStatus where
  | success | eof | again | failed
deriving DecidableEq

/-- What there is on the socket when it is asked -/
inductive SocketInput where
  /-- `more + 1` octets have arrived, unless the stream ends before them -/
  | arrived (more : Nat)
  | wouldBlock
  | failed
deriving DecidableEq

/-- A buffer and a stream after octets have been received -/
structure Received where
  status : AprStatus
  size : Nat
  buffer : List UInt8
  stream : List UInt8

/-- `apr_socket_recv`, which does not return when it is asked for more than there is room for. It
reports the end when there is no octet that it could give. -/
def aprSocketRecv (buffer : List UInt8) (offset asked : Nat) (stream : List UInt8)
    (input : SocketInput) : Option Received :=
  if buffer.length < offset + asked then none
  else
    match input with
    | .arrived more =>
      let octets := stream.take (min (more + 1) asked)
      some ⟨if octets.isEmpty then .eof else .success, octets.length,
        buffer.take offset ++ octets ++ buffer.drop (offset + octets.length),
        stream.drop octets.length⟩
    | .wouldBlock => some ⟨.again, 0, buffer, stream⟩
    | .failed => some ⟨.failed, 0, buffer, stream⟩

/-- What was received stands in the buffer behind what was there, and has left the stream. -/
structure Received.Follows (received : Received) (buffer : List UInt8) (offset asked : Nat)
    (stream : List UInt8) : Prop where
  length : received.buffer.length = buffer.length
  size : received.size ≤ asked
  placed : received.buffer.take (offset + received.size) ++ received.stream =
    buffer.take offset ++ stream
  empty : received.status ≠ .success → received.size = 0

theorem recv_follows {buffer stream : List UInt8} {offset asked : Nat}
    (h : offset + asked ≤ buffer.length) (input : SocketInput) :
    ∃ r, aprSocketRecv buffer offset asked stream input = some r ∧
      r.Follows buffer offset asked stream := by
  unfold aprSocketRecv
  rw [if_neg (Nat.not_lt.mpr h)]
  match input with
  | .wouldBlock => exact ⟨_, rfl, rfl, Nat.zero_le _, by simp, fun _ => rfl⟩
  | .failed => exact ⟨_, rfl, rfl, Nat.zero_le _, by simp, fun _ => rfl⟩
  | .arrived more =>
    have hlen : (stream.take (min (more + 1) asked)).length ≤ asked := by
      rw [length_take]
      omega
    have hpre : (buffer.take offset).length = offset := length_take_of_le (by omega)
    refine ⟨_, rfl, ?_, hlen, ?_, ?_⟩
    · simp only [length_append, hpre, length_drop]
      omega
    · change take _ (_ ++ _ ++ _) ++ _ = _
      rw [take_left' (by rw [length_append, hpre]), append_assoc,
        prefix_iff_eq_append.mp <| take_prefix _ _]
    · intro hs
      cases hoctets : stream.take (min (more + 1) asked) with
      | nil => rfl
      | cons octet octets => simp [hoctets] at hs

/-! ## Requests -/

/-- The arguments of a read. The minimum is not above the maximum, and the buffer, or the data of
the bucket that is created, has that size. -/
structure ReadSizes where
  minSize : Nat
  maxSize : Nat
  msecs : Nat
  buffer : List UInt8
  min_le_max : minSize ≤ maxSize
  max_le_length : maxSize ≤ buffer.length

/-- An `smt_socket_request` of the type `SOCK_READ` without a mother -/
structure ReadRequest where
  /-- in order of issue -/
  number : Nat
  minSize : Nat
  maxSize : Nat
  curSize : Nat
  msecs : Nat
  timerRequest : Bool
  buffer : List UInt8

def ReadSizes.request (self : ReadSizes) (number : Nat) : ReadRequest :=
  ⟨number, self.minSize, self.maxSize, 0, self.msecs, false, self.buffer⟩

/-- The octets that have been placed in the buffer -/
def ReadRequest.placed (self : ReadRequest) : List UInt8 := self.buffer.take self.curSize

/-- `smt_socket_request_timer` -/
def ReadRequest.timer (self : ReadRequest) : ReadRequest :=
  { self with timerRequest := self.timerRequest || self.msecs != 0 }

inductive ReadResult where
  | ok | socketClosing | socketError | timeout | illegalArgument
deriving DecidableEq

/-- A request that was returned, with the `io_size` of the socket at that time -/
structure ReadReply where
  request : ReadRequest
  result : ReadResult
  ioSize : Nat

structure ReadSocket where
  ioSize : Nat := 0
  isOpen : Bool := true
  /-- `APR_POLLIN` is requested. -/
  pollIn : Bool := false
  requestList : List ReadRequest := []
  /-- the number of requests that have been made -/
  issued : Nat := 0
  /-- what the peer sends, as far as it has not been received -/
  stream : List UInt8
  replies : List ReadReply := []

namespace ReadSocket

/-- `smt_socket_request_new`. The first request gets a timer. -/
def new (self : ReadSocket) (request : ReadRequest) : ReadSocket :=
  let request := if self.requestList.isEmpty || !self.pollIn then request.timer else request
  { self with pollIn := true, requestList := self.requestList ++ [request] }

/-- The timer of the succeeding request is activated, if there is one. -/
def succeeding : List ReadRequest → List ReadRequest
  | [] => []
  | request :: requests => request.timer :: requests

/-- `smt_socket_request_destroy` of the request at `i`. Input is no longer polled for when none
comes after it. -/
def destroy (self : ReadSocket) (i : Nat) : ReadSocket :=
  let next := self.requestList.drop (i + 1)
  { self with
    pollIn := self.pollIn && !next.isEmpty
    requestList := self.requestList.take i ++ succeeding next }

/-- The result is given to the threadlet. -/
def reply (self : ReadSocket) (request : ReadRequest) (result : ReadResult) : ReadSocket :=
  { self with replies := self.replies ++ [⟨request, result, self.ioSize⟩] }

/-- `smt_socket_request_reply_error_to_all_requests` -/
def replyErrorToAllRequests (self : ReadSocket) (result : ReadResult) : ReadSocket :=
  { self with
    replies := self.replies ++ self.requestList.map fun request => ⟨request, result, self.ioSize⟩
    requestList := []
    pollIn := self.pollIn && self.requestList.isEmpty
    isOpen := false }

def immediate (self : ReadSocket) (request : ReadRequest) : AprStatus → ReadSocket × ReadResult
  | .success =>
    if request.minSize ≤ request.curSize then
      ({ self with ioSize := request.curSize }.reply request .ok, .ok)
    else (self, .ok)
  | .eof => (self, .socketClosing)
  | .again => (self, .ok)
  | .failed => (self.replyErrorToAllRequests .socketError, .socketError)

/-- The immediate read, which is possible if no other request waits -/
def readNow (self : ReadSocket) (request : ReadRequest) (input : SocketInput) :
    Option (ReadSocket × ReadRequest × ReadResult) :=
  if self.pollIn then some (self, request, .ok)
  else
    (aprSocketRecv request.buffer 0 request.maxSize self.stream input).map fun r =>
      let request := { request with buffer := r.buffer, curSize := r.size }
      let s := { self with stream := r.stream }.immediate request r.status
      (s.1, request, s.2)

/-- A request is answered or made, or has failed. -/
def settle (self : ReadSocket) (request : ReadRequest) (rc : ReadResult) : ReadSocket :=
  if rc = .ok then
    if request.curSize < request.minSize then self.new request else self
  else self.reply request rc

/-- What both kinds of read do with a socket that can be read from -/
def readInto (self : ReadSocket) (sizes : ReadSizes) (input : SocketInput) : Option ReadSocket :=
  let s := { self with ioSize := 0, issued := self.issued + 1 }
  (s.readNow (sizes.request self.issued) input).map fun r => r.1.settle r.2.1 r.2.2

/-- `smt_socket_request_read`, refused under a monitor and when the socket is closed -/
def read (self : ReadSocket) (monitor : Bool) (sizes : ReadSizes) (input : SocketInput) :
    Option ReadSocket :=
  if monitor || !self.isOpen then some self else self.readInto sizes input

/-- `smt_socket_request_read_bucket`, where a size that is too big is refused as well -/
def readBucket (self : ReadSocket) (monitor : Bool) (sizes : ReadSizes) (input : SocketInput) :
    Option ReadSocket :=
  if monitor || decide (iprBucketMaxSize < sizes.maxSize) || !self.isOpen then some self
  else self.readInto sizes input

/-- `smt_socket_request_read_data` of the first request, after which others are skipped -/
def readData (self : ReadSocket) (input : SocketInput) : Option ReadSocket :=
  match self.requestList with
  | [] => some self
  | request :: rest =>
    let bytesReq := sizeSub request.maxSize request.curSize
    (aprSocketRecv request.buffer request.curSize bytesReq self.stream input).map fun r =>
      let s := { self with stream := r.stream }
      let request := { request with buffer := r.buffer }
      match r.status with
      | .success =>
        let request := { request with curSize := request.curSize + r.size }
        if request.minSize ≤ request.curSize then
          ({ s with ioSize := request.curSize }.reply request .ok).destroy 0
        else { s with requestList := request.timer :: rest }
      | .eof => ({ s with ioSize := request.curSize }.reply request .socketClosing).destroy 0
      | .again | .failed => (s.reply request .socketError).destroy 0

/-- The timer request of a socket request has expired. -/
def expire (self : ReadSocket) (i : Nat) : ReadSocket :=
  match self.requestList[i]? with
  | none => self
  | some request => if request.timerRequest then (self.reply request .timeout).destroy i else self

end ReadSocket

/-- What happens to a socket -/
inductive ReadEvent where
  | read (monitor : Bool) (sizes : ReadSizes) (input : SocketInput)
  | readBucket (monitor : Bool) (sizes : ReadSizes) (input : SocketInput)
  | poll (input : SocketInput)
  | expire (i : Nat)
  /-- `APR_POLLNVAL` -/
  | invalid

def ReadSocket.step (self : ReadSocket) : ReadEvent → Option ReadSocket
  | .read monitor sizes input => self.read monitor sizes input
  | .readBucket monitor sizes input => self.readBucket monitor sizes input
  | .poll input => self.readData input
  | .expire i => some (self.expire i)
  | .invalid => some (self.replyErrorToAllRequests .illegalArgument)

/-! ## What is delivered -/

/-- What is reported is what was placed, and an answer has no less and no more than asked for. -/
structure ReadReply.Right (reply : ReadReply) : Prop where
  ok : reply.result = .ok →
    reply.request.minSize ≤ reply.ioSize ∧ reply.ioSize ≤ reply.request.maxSize ∧
      reply.ioSize = reply.request.placed.length
  ended : reply.result = .socketClosing → reply.ioSize = reply.request.placed.length

/-- The requests that were returned, and those that wait -/
def ReadSocket.requests (self : ReadSocket) : List ReadRequest :=
  self.replies.map ReadReply.request ++ self.requestList

/-- The octets of the stream are in the buffers in order of issue, up to those not received, and
what is reported is right. -/
structure ReadDelivers (stream : List UInt8) (socket : ReadSocket) : Prop where
  placed : socket.requests.flatMap ReadRequest.placed ++ socket.stream = stream
  in_order : (socket.requests.map ReadRequest.number).Pairwise (· < ·)
  right : ∀ reply ∈ socket.replies, reply.Right

/-- At the end of the stream the first request is returned, and reports what was placed for it. -/
def ReadSocket.Ends (self : ReadSocket) : Prop :=
  ∀ request requests more, self.requestList = request :: requests → self.stream = [] →
    ∃ s reply, self.readData (.arrived more) = some s ∧ s.replies = self.replies ++ [reply] ∧
      reply.request.number = request.number ∧ reply.result = .socketClosing ∧
      reply.ioSize = request.placed.length

structure ReadRequest.Waits (request : ReadRequest) : Prop where
  unfilled : request.curSize < request.minSize
  min_le_max : request.minSize ≤ request.maxSize
  max_le_length : request.maxSize ≤ request.buffer.length

/-- Only the first request has octets or a timer, and input is polled for while any waits. -/
structure Reading (stream : List UInt8) (socket : ReadSocket) : Prop
    extends ReadDelivers stream socket where
  numbered : ∀ number ∈ socket.requests.map ReadRequest.number, number < socket.issued
  pollIn : socket.pollIn = !socket.requestList.isEmpty
  waiting : ∀ request ∈ socket.requestList, request.Waits
  behind : ∀ request ∈ socket.requestList.tail, request.curSize = 0 ∧ request.timerRequest = false

namespace Reading

open ReadSocket

variable {stream rest : List UInt8} {self : ReadSocket} {request : ReadRequest}
  {requests : List ReadRequest} {result : ReadResult} {k : Nat}

theorem placed_of_behind (h : ∀ request ∈ requests,
    request.curSize = 0 ∧ request.timerRequest = false) :
    requests.flatMap ReadRequest.placed = [] := by
  rw [flatMap_eq_nil_iff]
  intro request hr
  rw [ReadRequest.placed, (h request hr).1, take_zero]

@[simp] theorem succeeding_isEmpty : (succeeding requests).isEmpty = requests.isEmpty := by
  cases requests <;> rfl

@[simp] theorem succeeding_tail : (succeeding requests).tail = requests.tail := by
  cases requests <;> rfl

@[simp] theorem succeeding_number :
    (succeeding requests).map ReadRequest.number = requests.map ReadRequest.number := by
  cases requests <;> rfl

@[simp] theorem succeeding_placed :
    (succeeding requests).flatMap ReadRequest.placed = requests.flatMap ReadRequest.placed := by
  cases requests <;> rfl

theorem timer_waits (h : request.Waits) : request.timer.Waits := ⟨h.1, h.2, h.3⟩

theorem succeeding_waits (h : ∀ r ∈ requests, r.Waits) : ∀ r ∈ succeeding requests, r.Waits := by
  cases requests with
  | nil => exact h
  | cons first others =>
    rw [forall_mem_cons] at h
    exact forall_mem_cons.mpr ⟨timer_waits h.1, h.2⟩

/-- A read that is answered while no other waits -/
theorem answered (h : Reading stream self) (hl : self.requestList = [])
    (hn : request.number = self.issued) (hp : request.placed ++ rest = self.stream)
    (hr : ReadReply.Right ⟨request, result, k⟩) :
    Reading stream ({ self with ioSize := k, issued := self.issued + 1, stream := rest }.reply
      request result) := by
  generalize hs : ReadSocket.reply _ request result = s
  have hreq : s.requests = self.requests ++ [request] := by
    simp [← hs, requests, reply, hl]
  subst hs
  refine ⟨⟨?_, ?_, ?_⟩, ?_, h.pollIn, h.waiting, h.behind⟩
  · rw [hreq, flatMap_append, append_assoc, ← h.placed, ← hp]
    simp [reply]
  · rw [hreq, map_append, map_singleton, pairwise_append]
    exact ⟨h.in_order, pairwise_singleton _ _, by simpa [hn] using h.numbered⟩
  · exact forall_mem_append.mpr ⟨h.right, by simpa using hr⟩
  · rw [hreq, map_append, forall_mem_append]
    exact ⟨fun n hm => Nat.lt_succ_of_lt (h.numbered n hm), by simp [hn, reply]⟩

/-- A request that is made waits behind the others, or with octets when it is the first. -/
theorem queued (h : Reading stream self) (hn : request.number = self.issued)
    (hw : request.Waits) (ht : request.timerRequest = false)
    (hp : request.placed ++ rest = self.stream)
    (hc : self.requestList ≠ [] → request.curSize = 0) :
    Reading stream ({ self with ioSize := k, issued := self.issued + 1, stream := rest }.new
      request) := by
  generalize hs : ReadSocket.new _ request = s
  obtain ⟨q, hlist, hnumber, hplaced, hwaits, hq⟩ : ∃ q : ReadRequest,
      s.requestList = self.requestList ++ [q] ∧ q.number = self.issued ∧
      q.placed ++ rest = self.stream ∧ q.Waits ∧ (self.requestList ≠ [] → q = request) := by
    refine ⟨_, by rw [← hs, new], ?_⟩
    cases hl : self.requestList with
    | nil => exact ⟨hn, hp, timer_waits hw, fun hne => absurd rfl hne⟩
    | cons first others =>
      simp only [h.pollIn, hl, isEmpty_cons, Bool.not_false, Bool.not_true, Bool.or_self,
        Bool.false_eq_true, if_false]
      exact ⟨hn, hp, hw, fun _ => trivial⟩
  have hreq : s.requests = self.requests ++ [q] := by
    rw [requests, hlist, requests, append_assoc, ← hs]
    rfl
  subst hs
  refine ⟨⟨?_, ?_, h.right⟩, ?_, ?_, ?_, ?_⟩
  · rw [hreq, flatMap_append, append_assoc, ← h.placed, ← hplaced]
    simp [new]
  · rw [hreq, map_append, map_singleton, pairwise_append]
    exact ⟨h.in_order, pairwise_singleton _ _, by simpa [hnumber] using h.numbered⟩
  · rw [hreq, map_append, forall_mem_append]
    exact ⟨fun n hm => Nat.lt_succ_of_lt (h.numbered n hm), by simp [hnumber, new]⟩
  · rw [hlist]
    simp [new]
  · rw [hlist]
    exact forall_mem_append.mpr ⟨h.waiting, by simpa using hwaits⟩
  · rw [hlist]
    cases hl : self.requestList with
    | nil => exact fun r hr => absurd hr not_mem_nil
    | cons first others =>
      have hbehind := h.behind
      rw [hl] at hbehind
      have hne : self.requestList ≠ [] := by simp [hl]
      rw [hq hne]
      exact forall_mem_append.mpr ⟨hbehind, by simpa using ⟨hc hne, ht⟩⟩

/-- The first request is served with what is received, and returned. -/
theorem destroyed (h : Reading stream self) (request' : ReadRequest)
    (hl : self.requestList = request :: requests) (hn : request'.number = request.number)
    (hp : request'.placed ++ rest = request.placed ++ self.stream)
    (hr : ReadReply.Right ⟨request', result, k⟩) :
    Reading stream
      (({ self with ioSize := k, stream := rest }.reply request' result).destroy 0) := by
  generalize hs : ({ self with ioSize := k, stream := rest }.reply request' result).destroy 0 = s
  have hlist : s.requestList = succeeding requests := by simp [← hs, destroy, reply, hl]
  have hself : self.requests = self.replies.map ReadReply.request ++ request :: requests := by
    rw [ReadSocket.requests, hl]
  have hreq : s.requests =
      self.replies.map ReadReply.request ++ request' :: succeeding requests := by
    rw [ReadSocket.requests, hlist]
    simp [← hs, destroy, reply]
  have hbehind : ∀ r ∈ requests, r.curSize = 0 ∧ r.timerRequest = false := by
    simpa [hl] using h.behind
  have hnumbers : s.requests.map ReadRequest.number = self.requests.map ReadRequest.number := by
    simp [hreq, hself, hn]
  subst hs
  refine ⟨⟨?_, hnumbers ▸ h.in_order, forall_mem_append.mpr ⟨h.right, by simpa using hr⟩⟩,
    hnumbers ▸ h.numbered, ?_, ?_, ?_⟩
  · rw [hreq, ← h.placed, hself]
    simp only [flatMap_append, flatMap_cons, succeeding_placed, placed_of_behind hbehind,
      append_nil, append_assoc]
    exact congrArg _ hp
  · rw [hlist, succeeding_isEmpty]
    simp [destroy, reply, hl, h.pollIn]
  · rw [hlist]
    exact succeeding_waits fun r hm => h.waiting r (hl ▸ mem_cons_of_mem _ hm)
  · rw [hlist, succeeding_tail]
    exact fun r hm => hbehind r (mem_of_mem_tail hm)

/-- The first request goes on waiting with what is received. -/
theorem filled (h : Reading stream self) (request' : ReadRequest)
    (hl : self.requestList = request :: requests) (hn : request'.number = request.number)
    (hp : request'.placed ++ rest = request.placed ++ self.stream) (hw : request'.Waits) :
    Reading stream { self with stream := rest, requestList := request' :: requests } := by
  have hself : self.requests = self.replies.map ReadReply.request ++ request :: requests := by
    rw [ReadSocket.requests, hl]
  have hbehind : ∀ r ∈ requests, r.curSize = 0 ∧ r.timerRequest = false := by
    simpa [hl] using h.behind
  have hnumbers : (self.replies.map ReadReply.request ++ request' :: requests).map
      ReadRequest.number = self.requests.map ReadRequest.number := by
    simp [hself, hn]
  refine ⟨⟨?_, hnumbers ▸ h.in_order, h.right⟩, hnumbers ▸ h.numbered, ?_, ?_, hbehind⟩
  · rw [ReadSocket.requests, ← h.placed, hself]
    simp only [flatMap_append, flatMap_cons, placed_of_behind hbehind, append_nil, append_assoc]
    exact congrArg _ hp
  · rw [h.pollIn, hl]
    rfl
  · exact forall_mem_cons.mpr ⟨hw, fun r hm => h.waiting r (hl ▸ mem_cons_of_mem _ hm)⟩

theorem placed_length (hw : k ≤ request.buffer.length) (hk : request.curSize = k) :
    k = request.placed.length := by
  rw [ReadRequest.placed, length_take_of_le (hk ▸ hw), hk]

theorem of_poll (h : Reading stream self) (input : SocketInput) :
    ∃ s, self.readData input = some s ∧ Reading stream s := by
  unfold readData
  cases hl : self.requestList with
  | nil => exact ⟨self, rfl, h⟩
  | cons request requests =>
    have hw := h.waiting request (hl ▸ mem_cons_self)
    have hlt := hw.unfilled
    have hmax := hw.min_le_max
    have hlen := hw.max_le_length
    have hsub : sizeSub request.maxSize request.curSize = request.maxSize - request.curSize :=
      if_pos (by omega)
    obtain ⟨r, hr, hf⟩ := @recv_follows request.buffer self.stream request.curSize
      (request.maxSize - request.curSize) (by omega) input
    have hsize := hf.size
    simp only [hsub, hr, Option.map_some]
    refine ⟨_, rfl, ?_⟩
    rw [← hl]
    -- the buffer is as it was if nothing was received
    have hnone : r.status ≠ .success →
        ({ request with buffer := r.buffer } : ReadRequest).placed ++ r.stream =
          request.placed ++ self.stream := by
      intro hs
      have := hf.placed
      rwa [hf.empty hs, Nat.add_zero] at this
    have hheld : request.curSize ≤ r.buffer.length := by
      rw [hf.length]
      omega
    cases hs : r.status with
    | success =>
      simp only
      split
      case isTrue hmin =>
        have hfilled : request.curSize + r.size ≤ request.maxSize := by omega
        refine h.destroyed { request with buffer := r.buffer, curSize := _ } hl rfl hf.placed
          ⟨fun _ => ⟨hmin, hfilled, placed_length ?_ rfl⟩, nofun⟩
        exact hf.length ▸ hfilled.trans hlen
      case isFalse hmin =>
        exact h.filled { request with buffer := r.buffer, curSize := _, timerRequest := _ } hl rfl
          hf.placed ⟨Nat.lt_of_not_le hmin, hmax, hf.length ▸ hlen⟩
    | eof =>
      exact h.destroyed { request with buffer := r.buffer } hl rfl (hnone (by simp [hs]))
        ⟨nofun, fun _ => placed_length hheld rfl⟩
    | again | failed =>
      exact h.destroyed { request with buffer := r.buffer } hl rfl (hnone (by simp [hs]))
        ⟨nofun, nofun⟩

/-- What was placed for the first request is reported at the end of the stream. -/
theorem ends (h : Reading stream self) : self.Ends := by
  intro request requests more hl hstream
  have hw := h.waiting request (hl ▸ mem_cons_self)
  have hlt := hw.unfilled
  have hmax := hw.min_le_max
  have hlen := hw.max_le_length
  have hsub : sizeSub request.maxSize request.curSize = request.maxSize - request.curSize :=
    if_pos (by omega)
  have hroom : ¬request.buffer.length < request.curSize + (request.maxSize - request.curSize) := by
    omega
  simp only [readData, hl, hsub, aprSocketRecv, if_neg hroom, hstream, take_nil, Option.map_some]
  exact ⟨_, _, rfl, rfl, rfl, rfl, placed_length (hlt.le.trans (hmax.trans hlen)) rfl⟩

theorem of_expire (h : Reading stream self) (i : Nat) : Reading stream (self.expire i) := by
  unfold expire
  cases hi : self.requestList[i]? with
  | none => exact h
  | some request =>
    simp only
    split
    case isFalse => exact h
    case isTrue ht =>
      cases hl : self.requestList with
      | nil => simp [hl] at hi
      | cons first requests =>
        rw [hl] at hi
        cases i with
        | zero =>
          obtain rfl : first = request := by simpa using hi
          exact h.destroyed first hl rfl rfl ⟨nofun, nofun⟩
        | succ i =>
          have hbehind := h.behind request
          rw [hl] at hbehind
          simp [(hbehind (mem_of_getElem? hi)).2] at ht

theorem of_error (h : Reading stream self)
    (hr : ∀ request k, ReadReply.Right ⟨request, result, k⟩) :
    Reading stream (self.replyErrorToAllRequests result) := by
  have hreq : (self.replyErrorToAllRequests result).requests = self.requests := by
    simp [ReadSocket.requests, replyErrorToAllRequests, Function.comp_def]
  refine ⟨⟨hreq ▸ h.placed, hreq ▸ h.in_order, ?_⟩, hreq ▸ h.numbered, ?_, nofun, nofun⟩
  · refine forall_mem_append.mpr ⟨h.right, ?_⟩
    intro reply hm
    obtain ⟨request, -, rfl⟩ := mem_map.mp hm
    exact hr request _
  · simp [replyErrorToAllRequests, h.pollIn]

theorem skipped (h : Reading stream self) (k : Nat) :
    Reading stream { self with ioSize := k, issued := self.issued + 1 } :=
  ⟨⟨h.placed, h.in_order, h.right⟩, fun n hm => Nat.lt_succ_of_lt (h.numbered n hm), h.pollIn,
    h.waiting, h.behind⟩

theorem closed (h : Reading stream self) : Reading stream { self with isOpen := false } :=
  ⟨⟨h.placed, h.in_order, h.right⟩, h.numbered, h.pollIn, h.waiting, h.behind⟩

/-- A read can be made, and leaves the requests reading on. -/
theorem of_read (h : Reading stream self) (sizes : ReadSizes) (input : SocketInput) :
    ∃ s, self.readInto sizes input = some s ∧ Reading stream s := by
  have hmax := sizes.min_le_max
  have hlen := sizes.max_le_length
  unfold readInto readNow
  cases hpoll : self.pollIn with
  | true =>
    refine ⟨_, rfl, ?_⟩
    simp only [settle, if_true]
    rw [← hpoll]
    split
    case isTrue hmin => exact h.queued rfl ⟨hmin, hmax, hlen⟩ rfl rfl fun _ => rfl
    case isFalse => exact h.skipped 0
  | false =>
    have hl : self.requestList = [] := by simpa [hpoll] using h.pollIn
    obtain ⟨r, hr, hf⟩ := @recv_follows sizes.buffer self.stream 0 sizes.maxSize (by omega) input
    have hsize := hf.size
    have hplaced := hf.placed
    rw [Nat.zero_add, take_zero, nil_append] at hplaced
    have hr' : aprSocketRecv (sizes.request self.issued).buffer 0
        (sizes.request self.issued).maxSize self.stream input = some r := hr
    simp only [Bool.false_eq_true, if_false, hr', Option.map_some]
    refine ⟨_, rfl, ?_⟩
    rw [← hpoll]
    -- what there is when nothing was received
    have hnone : r.status ≠ .success → r.stream = self.stream := by
      intro hs
      rwa [hf.empty hs, take_zero, nil_append] at hplaced
    cases hs : r.status with
    | success =>
      simp only [immediate]
      split
      case isTrue hmin =>
        simp only [settle, if_true]
        rw [if_neg (Nat.not_lt.mpr hmin)]
        refine h.answered hl rfl hplaced ⟨fun _ => ⟨hmin, hsize, placed_length ?_ rfl⟩, nofun⟩
        exact hf.length ▸ hsize.trans hlen
      case isFalse hmin =>
        simp only [settle, if_true]
        rw [if_pos (Nat.lt_of_not_le hmin)]
        exact h.queued rfl ⟨Nat.lt_of_not_le hmin, hmax, hf.length ▸ hlen⟩ rfl hplaced
          fun hne => absurd hl hne
    | eof =>
      exact h.answered hl rfl hplaced
        ⟨nofun, fun _ => placed_length (Nat.zero_le _) (hf.empty (by simp [hs]))⟩
    | again =>
      simp only [immediate, settle, if_true]
      split
      case isTrue hmin =>
        exact h.queued rfl ⟨hmin, hmax, hf.length ▸ hlen⟩ rfl hplaced fun hne => absurd hl hne
      case isFalse =>
        rw [hnone (by simp [hs])]
        exact h.skipped 0
    | failed =>
      simp only [immediate, settle, replyErrorToAllRequests, hl, map_nil, append_nil, isEmpty_nil,
        Bool.and_true]
      rw [if_neg nofun, ← hl]
      exact h.closed.answered hl rfl hplaced ⟨nofun, nofun⟩

/-- An event can be taken, and the requests read on in the stream. -/
theorem of_step (h : Reading stream self) (e : ReadEvent) :
    ∃ s, self.step e = some s ∧ Reading stream s := by
  cases e with
  | read monitor sizes input =>
    rw [step, ReadSocket.read]
    split
    · exact ⟨_, rfl, h⟩
    · exact h.of_read sizes input
  | readBucket monitor sizes input =>
    rw [step, readBucket]
    split
    · exact ⟨_, rfl, h⟩
    · exact h.of_read sizes input
  | poll input => exact h.of_poll input
  | expire i => exact ⟨_, rfl, h.of_expire i⟩
  | invalid => exact ⟨_, rfl, h.of_error fun _ _ => ⟨nofun, nofun⟩⟩

end Reading

/-- Whatever is read, singly or while others wait, and however the stream arrives, no receive asks
for more than there is room for, the stream is in the buffers in order of issue up to what has not
been received, an answer reports what was placed between its minimum and its maximum, and at the
end of the stream what was placed is reported. -/
theorem read_delivers (stream : List UInt8) (es : List ReadEvent) :
    ∃ s, run ReadSocket.step { stream := stream } es = some s ∧ ReadDelivers stream s ∧
      s.Ends := by
  have hinit : Reading stream { stream := stream } :=
    ⟨⟨rfl, Pairwise.nil, nofun⟩, nofun, rfl, nofun, nofun⟩
  obtain ⟨s, hrun, hs⟩ := run_progress (I := fun _ => Reading stream)
    (fun _ _ e h (_ : True) => h.of_step e) [] hinit (along_of_forall (fun _ _ _ => trivial) _)
  exact ⟨s, hrun, hs.toReadDelivers, hs.ends⟩

def twoToFour : ReadSizes where
  minSize := 2
  maxSize := 4
  msecs := 0
  buffer := [0, 0, 0, 0]
  min_le_max := by decide
  max_le_length := by decide

/-- Two reads wait for five octets that come in three parts. -/
example : (run ReadSocket.step { stream := [1, 2, 3, 4, 5] }
      [.read false twoToFour (.arrived 0), .read false twoToFour (.arrived 0),
        .poll (.arrived 0), .poll (.arrived 2)]).map
    (fun s => s.replies.map fun reply => (reply.result, reply.request.placed, reply.ioSize)) =
    some [(.ok, [1, 2], 2), (.ok, [3, 4, 5], 3)] := by decide

end OpenAmq
