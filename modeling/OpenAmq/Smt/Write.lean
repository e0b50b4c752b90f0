import Mathlib.Data.List.Infix
import Mathlib.Data.List.Range
import OpenAmq.Lib.Run

/-!
# Write requests

The write requests on a socket are kept in a list in order of issue. A send is given the buffers
of several of them, and the network takes as many octets of these as it likes.

* `WriteSocket` — a socket on which threadlets only write, and what the network has of it
* `WriteSocket.writeData` — a send, and what is done about its result
* `WriteSocket.manage` — a threadlet runs, and its first request is sent at once if it can be
* `Streaming`, `streaming_step` — what is accepted and what is left, over one step
* `write_stream` — over any run in which nothing is accepted after the pipe has broken
-/

namespace OpenAmq

open List

def smtSocketVectorMax : Nat := 16

/-- What `apr_socket_sendv` returns -/
inductive SendStatus where
  /-- `APR_SUCCESS`, with the number of octets that have been accepted -/
  | success (bytesWritten : Nat)
  | again
  | brokenPipe
  /-- any other error -/
  | failed
deriving DecidableEq

/-- The network accepts something. -/
def SendStatus.accepts : SendStatus → Bool
  | success bytesWritten => decide (bytesWritten ≠ 0)
  | again | brokenPipe | failed => false

/-- An error, for which it is also taken that nothing has been accepted -/
def SendStatus.Fails (status : SendStatus) : Prop :=
  status = brokenPipe ∨ status = failed ∨ status = success 0

/-- The result of a request that is returned -/
inductive WriteResult where
  | ok
  | socketClosing
  | socketError
deriving DecidableEq

/-- An `smt_socket_request` of the type `SOCK_WRITE` -/
structure WriteRequest where
  /-- in order of issue -/
  number : Nat
  /-- `max_size` octets -/
  buffer : List UInt8
  curSize : Nat := 0
deriving DecidableEq

open WriteRequest

def WriteRequest.left (self : WriteRequest) : List UInt8 := self.buffer.drop self.curSize

structure WriteSocket where
  requestList : List WriteRequest := []
  /-- the descriptor is not null -/
  isOpen : Bool := true
  /-- the buffers of all requests -/
  issued : List (List UInt8) := []
  /-- what the network has accepted -/
  accepted : List UInt8 := []
  /-- a send has ended with a broken pipe -/
  broken : Bool := false
  returned : List (Nat × WriteResult) := []
deriving DecidableEq

namespace WriteSocket

/-! ## Requests -/

/--
`smt_socket_request_new` for a write request, with `thread->write_request`. The request becomes
this one if there is none and no output request is in the list.
-/
def newWrite (self : WriteSocket) (buffer : List UInt8) (writeRequest : Option Nat) :
    WriteSocket × Option Nat :=
  let number := self.issued.length
  ({ self with
      requestList := self.requestList ++ [⟨number, buffer, 0⟩]
      issued := self.issued ++ [buffer] },
    if writeRequest = none ∧ self.requestList = [] then some number else writeRequest)

/-- `smt_socket_request_write`; a request that is not made is answered with an error. -/
def write (self : WriteSocket) (monitor : Bool) (buffer : List UInt8) (writeRequest : Option Nat) :
    WriteSocket × Option Nat :=
  if monitor ∨ self.isOpen = false ∨ buffer.length = 0 then (self, writeRequest)
  else self.newWrite buffer writeRequest

/-- `smt_socket_request_write_bucket`, with the octets that are in the bucket -/
def writeBucket (self : WriteSocket) (monitor : Bool) (bucket : List UInt8)
    (writeRequest : Option Nat) : WriteSocket × Option Nat :=
  self.write monitor bucket writeRequest

/-! ## Sending -/

/-- The octets of the vector: of the first request what is left, of others the whole buffers -/
def vector : List WriteRequest → List UInt8
  | [] => []
  | request :: requests =>
    request.left ++ ((requests.take (smtSocketVectorMax - 1)).map buffer).flatten

/-- The loop through the requests that were performed: those returned, and those left in the list -/
def perform : (bytesWritten : Nat) → List WriteRequest →
    List (Nat × WriteResult) × List WriteRequest
  | _, [] => ([], [])
  | bytesWritten, request :: requests =>
    let size := request.buffer.length - request.curSize
    if size ≤ bytesWritten then
      let performed := perform (bytesWritten - size) requests
      ((request.number, .ok) :: performed.1, performed.2)
    else ([], { request with curSize := request.curSize + bytesWritten } :: requests)

def returnAll (self : WriteSocket) (result : WriteResult) : WriteSocket :=
  { self with
    requestList := []
    returned := self.returned ++ self.requestList.map fun request => (request.number, result) }

/-- What is done about the result of a send from the start of the list. The requests behind it are
all output requests, so that none is left for which there is something else to do. -/
def serve (self : WriteSocket) (status : SendStatus) : WriteSocket :=
  match status with
  | .success bytesWritten =>
    let octets := (vector self.requestList).take bytesWritten
    -- nothing accepted is taken for a broken pipe
    if octets.length = 0 then { self.returnAll .socketClosing with broken := true }
    else
      let performed := perform octets.length self.requestList
      { self with
        requestList := performed.2
        accepted := self.accepted ++ octets
        returned := self.returned ++ performed.1 }
  | .again => self
  | .brokenPipe => { self.returnAll .socketClosing with broken := true }
  | .failed => { self.returnAll .socketError with isOpen := false }

/-- `smt_socket_request_write_data`, which is not to be called for a request that is gone -/
def writeData (self : WriteSocket) (number : Nat) (status : SendStatus) : Option WriteSocket :=
  match self.requestList with
  | [] => none
  | request :: _ => if request.number = number then some (self.serve status) else none

/-- The requests that the manager of a threadlet makes, each with or without a bucket, and the one
of them that it sends -/
def managed (self : WriteSocket) (monitor : Bool) (requests : List (Bool × List UInt8)) :
    WriteSocket × Option Nat :=
  requests.foldl (fun s request =>
      if request.1 then s.1.writeBucket monitor request.2 s.2 else s.1.write monitor request.2 s.2)
    (self, none)

/-- The manager of a threadlet runs and makes these requests. Then the first of them is sent if it
stands at the start of the list. -/
def manage (self : WriteSocket) (monitor : Bool) (requests : List (Bool × List UInt8))
    (status : SendStatus) : Option WriteSocket :=
  match (self.managed monitor requests).2 with
  | none => some (self.managed monitor requests).1
  | some number => (self.managed monitor requests).1.writeData number status

/-- What happens to a socket -/
inductive Event where
  | manage (monitor : Bool) (requests : List (Bool × List UInt8)) (status : SendStatus)
  /-- the socket can be written to, or is in an error condition -/
  | poll (status : SendStatus)
deriving DecidableEq

/-- The result of the send, if there is one -/
def Event.status : Event → SendStatus
  | .manage _ _ status | .poll status => status

def step (self : WriteSocket) : Event → Option WriteSocket
  | .manage monitor requests status => self.manage monitor requests status
  | .poll status =>
    match self.requestList with
    | [] => some self
    | request :: _ => self.writeData request.number status

/-- Whether there is a send at all -/
def Sends (self : WriteSocket) : Event → Prop
  | .manage monitor requests _ => (self.managed monitor requests).2 ≠ none
  | .poll _ => self.requestList ≠ []

/-- The network accepts nothing once the pipe has broken. -/
def Settled (self : WriteSocket) (event : Event) : Prop :=
  self.broken = true → event.status.accepts = false

instance decidableSettled (self : WriteSocket) (event : Event) : Decidable (self.Settled event) :=
  inferInstanceAs (Decidable (_ → _))

/-! ## What a send does to a list -/

def leftOf (requests : List WriteRequest) : List UInt8 := (requests.map left).flatten

/-- No request is finished, and only the first may have been started. -/
structure InOrder (requests : List WriteRequest) : Prop where
  unfinished : ∀ request ∈ requests, request.curSize < request.buffer.length
  unstarted : ∀ request ∈ requests.tail, request.curSize = 0

variable {request : WriteRequest} {requests : List WriteRequest} {bytesWritten : Nat}

@[simp] theorem leftOf_nil : leftOf [] = [] := rfl

@[simp] theorem leftOf_cons : leftOf (request :: requests) = request.left ++ leftOf requests := rfl

theorem left_eq_buffer (h : request.curSize = 0) : request.left = request.buffer := by
  rw [left, h, drop_zero]

theorem left_length : request.left.length = request.buffer.length - request.curSize :=
  length_drop

theorem leftOf_append (requests requests' : List WriteRequest) :
    leftOf (requests ++ requests') = leftOf requests ++ leftOf requests' := by
  rw [leftOf, map_append, flatten_append]
  rfl

theorem leftOf_length_le (requests : List WriteRequest) :
    (leftOf requests).length ≤ (requests.map buffer).flatten.length := by
  induction requests with
  | nil => exact Nat.le_refl 0
  | cons request requests ih =>
    rw [leftOf_cons, map_cons, flatten_cons, length_append, length_append, left_length]
    omega

theorem InOrder.tail (h : InOrder (request :: requests)) : InOrder requests where
  unfinished := fun r hr => h.unfinished r (mem_cons_of_mem _ hr)
  unstarted := fun r hr => h.unstarted r (mem_of_mem_tail hr)

theorem InOrder.leftOf_tail (h : InOrder (request :: requests)) :
    leftOf requests = (requests.map buffer).flatten := by
  exact congrArg flatten (map_congr_left fun r hr => left_eq_buffer (h.unstarted r hr))

theorem vector_begins (h : InOrder requests) : vector requests <+: leftOf requests := by
  cases requests with
  | nil => exact prefix_rfl
  | cons request requests =>
    rw [leftOf_cons, h.leftOf_tail]
    refine (prefix_append_right_inj _).mpr ?_
    conv_rhs => rw [← take_append_drop (smtSocketVectorMax - 1) requests, map_append,
      flatten_append]
    exact prefix_append _ _

/-- What the loop does when `bytesWritten` octets of those left have been accepted -/
structure Performs (requests : List WriteRequest) (bytesWritten finished : Nat) : Prop where
  returned : (perform bytesWritten requests).1 =
    (requests.take finished).map fun request => (request.number, .ok)
  finished_le : finished ≤ requests.length
  numbers : (perform bytesWritten requests).2.map number = (requests.drop finished).map number
  buffers : (perform bytesWritten requests).2.map buffer = (requests.drop finished).map buffer
  written : (leftOf (requests.take finished)).length ≤ bytesWritten
  left : leftOf (perform bytesWritten requests).2 = (leftOf requests).drop bytesWritten
  inOrder : InOrder (perform bytesWritten requests).2

theorem exists_performs (h : InOrder requests) (hle : bytesWritten ≤ (leftOf requests).length) :
    ∃ finished, Performs requests bytesWritten finished := by
  induction requests generalizing bytesWritten with
  | nil =>
    refine ⟨0, rfl, Nat.le_refl 0, rfl, rfl, Nat.zero_le _, ?_,
      ⟨by simp [perform], by simp [perform]⟩⟩
    simp [perform]
  | cons request requests ih =>
    rw [leftOf_cons, length_append, left_length] at hle
    by_cases hsize : request.buffer.length - request.curSize ≤ bytesWritten
    · obtain ⟨finished, hrest⟩ := @ih
        (bytesWritten - (request.buffer.length - request.curSize)) h.tail (by omega)
      have hperform : perform bytesWritten (request :: requests) = ((request.number, .ok) ::
            (perform (bytesWritten - (request.buffer.length - request.curSize)) requests).1,
            (perform (bytesWritten - (request.buffer.length - request.curSize)) requests).2) :=
        if_pos hsize
      refine ⟨finished + 1, ?_, ?_, ?_, ?_, ?_, ?_, ?_⟩
      · rw [hperform, hrest.returned]
        rfl
      · exact Nat.succ_le_succ hrest.finished_le
      · rw [hperform]
        exact hrest.numbers
      · rw [hperform]
        exact hrest.buffers
      · have := hrest.written
        rw [take_succ_cons, leftOf_cons, length_append, left_length]
        omega
      · rw [hperform, leftOf_cons, drop_append, left_length,
          drop_eq_nil_of_le (by rw [left_length]; exact hsize), nil_append]
        exact hrest.left
      · rw [hperform]
        exact hrest.inOrder
    · have hperform : perform bytesWritten (request :: requests) =
          ([], { request with curSize := request.curSize + bytesWritten } :: requests) :=
        if_neg hsize
      refine ⟨0, ?_, Nat.zero_le _, ?_, ?_, Nat.zero_le _, ?_, ?_⟩
      · rw [hperform]
        rfl
      · rw [hperform]
        rfl
      · rw [hperform]
        rfl
      · rw [hperform, leftOf_cons, leftOf_cons, drop_append, left_length,
          Nat.sub_eq_zero_of_le (by omega), drop_zero]
        congr 1
        simp [left]
      · rw [hperform]
        refine ⟨?_, h.unstarted⟩
        intro r hr
        rcases mem_cons.mp hr with rfl | hr
        · show request.curSize + bytesWritten < request.buffer.length
          omega
        · exact h.unfinished r (mem_cons_of_mem _ hr)

/-! ## One step -/

/-- What has been accepted, returned and issued -/
structure Streaming (socket : WriteSocket) : Prop where
  inOrder : InOrder socket.requestList
  /-- the requests have been returned in order of issue -/
  first : socket.returned.map Prod.fst = range socket.returned.length
  listed : socket.requestList.map number = range' socket.returned.length socket.requestList.length
  buffers : socket.issued.drop socket.returned.length = socket.requestList.map buffer
  total : socket.issued.length = socket.returned.length + socket.requestList.length
  accepted : socket.accepted <+: socket.issued.flatten
  written : ∀ number, (number, .ok) ∈ socket.returned →
    (socket.issued.take (number + 1)).flatten <+: socket.accepted
  completed : ∀ number < socket.issued.length,
    (socket.issued.take (number + 1)).flatten <+: socket.accepted → (number, .ok) ∈ socket.returned
  flowing : socket.broken = false → socket.isOpen = true →
    socket.accepted ++ leftOf socket.requestList = socket.issued.flatten
  closed : socket.isOpen = false → socket.requestList = []

variable {self next : WriteSocket} {status : SendStatus}

theorem streaming_new : Streaming {} where
  inOrder := ⟨by simp, by simp⟩
  first := rfl
  listed := rfl
  buffers := rfl
  total := rfl
  accepted := prefix_rfl
  written := by simp
  completed := fun _ h => absurd h (Nat.not_lt_zero _)
  flowing := fun _ _ => rfl
  closed := fun _ => rfl

theorem Streaming.newWrite (h : Streaming self) (hopen : self.isOpen = true) {buffer : List UInt8}
    (hbuffer : buffer.length ≠ 0) (writeRequest : Option Nat) :
    Streaming (self.newWrite buffer writeRequest).1 where
  inOrder := by
    refine ⟨?_, ?_⟩
    · intro r hr
      rcases mem_append.mp hr with hr | hr
      · exact h.inOrder.unfinished r hr
      · rw [mem_singleton.mp hr]
        exact Nat.pos_of_ne_zero hbuffer
    · intro r hr
      have hr : r ∈ (self.requestList ++
        [(⟨self.issued.length, buffer, 0⟩ : WriteRequest)]).tail := hr
      by_cases hnil : self.requestList = []
      · simp [hnil] at hr
      · rw [tail_append_of_ne_nil hnil] at hr
        rcases mem_append.mp hr with hr | hr
        · exact h.inOrder.unstarted r hr
        · rw [mem_singleton.mp hr]
  first := h.first
  listed := by
    show (self.requestList ++ [_]).map number =
      range' self.returned.length (self.requestList ++ [_]).length
    rw [map_append, h.listed, length_append, length_singleton, range'_concat,
      map_singleton, h.total]
    simp
  buffers := by
    show (self.issued ++ [buffer]).drop self.returned.length = (self.requestList ++ [_]).map _
    rw [drop_append_of_le_length (by have := h.total; omega), h.buffers, map_append]
    rfl
  total := by
    show (self.issued ++ [buffer]).length = self.returned.length + (self.requestList ++ [_]).length
    have := h.total
    simp
    omega
  accepted := by
    show self.accepted <+: (self.issued ++ [buffer]).flatten
    rw [flatten_append]
    exact h.accepted.trans (prefix_append _ _)
  written := by
    intro number hnumber
    show ((self.issued ++ [buffer]).take (number + 1)).flatten <+: self.accepted
    have hmem : number ∈ self.returned.map Prod.fst := mem_map.mpr ⟨_, hnumber, rfl⟩
    rw [h.first, mem_range] at hmem
    rw [take_append_of_le_length (by have := h.total; omega)]
    exact h.written number hnumber
  completed := by
    intro number hlt hall
    have hlt : number < (self.issued ++ [buffer]).length := hlt
    have hall : ((self.issued ++ [buffer]).take (number + 1)).flatten <+: self.accepted := hall
    rw [length_append, length_singleton] at hlt
    rcases Nat.lt_succ_iff_lt_or_eq.mp hlt with hlt | rfl
    · rw [take_append_of_le_length hlt] at hall
      exact h.completed number hlt hall
    · -- the network cannot have accepted octets that are new
      have hlong := hall.length_le
      have hshort := h.accepted.length_le
      rw [take_of_length_le (by simp), flatten_append, length_append] at hlong
      have hone : [buffer].flatten.length = buffer.length := by simp
      omega
  flowing := by
    intro hbroken hopen
    show self.accepted ++ leftOf (self.requestList ++ [_]) = (self.issued ++ [buffer]).flatten
    rw [leftOf, map_append, flatten_append, ← append_assoc, flatten_append]
    congr 1
    · exact h.flowing hbroken hopen
  closed := by
    intro hclosed
    have hclosed : self.isOpen = false := hclosed
    rw [hopen] at hclosed
    cases hclosed

theorem Streaming.returnAll (h : Streaming self) {result : WriteResult} (hresult : result ≠ .ok)
    {broken isOpen : Bool} (hend : broken = true ∨ isOpen = false) :
    Streaming { self.returnAll result with broken, isOpen } where
  inOrder := ⟨by simp [WriteSocket.returnAll], by simp [WriteSocket.returnAll]⟩
  first := by
    show (self.returned ++ self.requestList.map _).map Prod.fst =
      range (self.returned ++ self.requestList.map _).length
    rw [map_append, h.first, map_map, length_append, length_map]
    have hnumbers : self.requestList.map (Prod.fst ∘ fun request => (request.number, result)) =
        range' self.returned.length self.requestList.length := h.listed
    rw [hnumbers, range_eq_range', range_eq_range', ← range'_append_1, Nat.zero_add]
  listed := by simp [WriteSocket.returnAll]
  buffers := by
    show self.issued.drop (self.returned ++ self.requestList.map _).length = []
    rw [length_append, length_map, ← h.total, drop_length]
  total := by
    show self.issued.length = (self.returned ++ self.requestList.map _).length + 0
    rw [length_append, length_map, h.total, Nat.add_zero]
  accepted := h.accepted
  written := by
    intro number hnumber
    rcases mem_append.mp hnumber with hnumber | hnumber
    · exact h.written number hnumber
    · obtain ⟨request, -, heq⟩ := mem_map.mp hnumber
      exact absurd (Prod.mk.inj heq).2 hresult
  completed := fun number hlt hall => mem_append.mpr (.inl (h.completed number hlt hall))
  flowing := by
    intro hbroken hopen
    have hbroken : broken = false := hbroken
    have hopen : isOpen = true := hopen
    simp [hbroken, hopen] at hend
  closed := fun _ => rfl

/-- What is left of the requests in the list has not been accepted. -/
theorem accepted_short {issued : List (List UInt8)} {accepted : List UInt8} {start number : Nat}
    (hin : InOrder requests) (hbuffers : issued.drop start = requests.map buffer)
    (hflow : accepted ++ leftOf requests = issued.flatten) (hle : start ≤ number)
    (hlt : number < issued.length) :
    accepted.length < (issued.take (number + 1)).flatten.length := by
  obtain ⟨j, rfl⟩ := Nat.exists_eq_add_of_le hle
  cases requests with
  | nil =>
    have hnone := congrArg length hbuffers
    rw [length_drop, map_nil, length_nil] at hnone
    omega
  | cons request requests =>
    have hdrop : issued.drop (start + j + 1) = (requests.drop j).map buffer := by
      rw [Nat.add_assoc, ← drop_drop, hbuffers, ← map_drop, drop_succ_cons]
    have hrest : leftOf (requests.drop j) = ((requests.drop j).map buffer).flatten :=
      congrArg flatten (map_congr_left fun r hr =>
        left_eq_buffer (hin.unstarted r (mem_of_mem_drop hr)))
    have hissued : issued.flatten.length = (issued.take (start + j + 1)).flatten.length +
        (leftOf (requests.drop j)).length := by
      rw [hrest, ← hdrop, ← length_append, ← flatten_append, take_append_drop]
    have hleft : (leftOf requests).length =
        (leftOf (requests.take j)).length + (leftOf (requests.drop j)).length := by
      rw [← length_append, ← leftOf_append, take_append_drop]
    have hfirst := hin.unfinished request mem_cons_self
    have hflow := congrArg length hflow
    rw [leftOf_cons, length_append, length_append, left_length] at hflow
    omega

theorem flatten_take_begins (buffers : List (List UInt8)) {m n : Nat} (h : m ≤ n) :
    (buffers.take m).flatten <+: (buffers.take n).flatten := by
  obtain ⟨k, rfl⟩ := Nat.exists_eq_add_of_le h
  rw [take_add, flatten_append]
  exact prefix_append _ _

theorem Performs.prefix_accepted (h : Streaming self) {octets : List UInt8} {finished : Nat}
    (hflow : self.accepted ++ leftOf self.requestList = self.issued.flatten)
    (hp : Performs self.requestList octets.length finished)
    (hoctets : octets <+: leftOf self.requestList) :
    (self.issued.take (self.returned.length + finished)).flatten <+: self.accepted ++ octets := by
  have hall : self.accepted ++ octets <+: self.issued.flatten := by
    rw [← hflow]
    exact (prefix_append_right_inj _).mpr hoctets
  have hbuffers : (self.issued.take (self.returned.length + finished)).flatten <+:
      self.issued.flatten := by
    conv_rhs => rw [← take_append_drop (self.returned.length + finished) self.issued,
      flatten_append]
    exact prefix_append _ _
  refine prefix_of_prefix_length_le hbuffers hall ?_
  -- both end before what is left of the requests behind
  have hsplit : (self.issued.drop (self.returned.length + finished)).flatten =
      ((self.requestList.drop finished).map buffer).flatten := by
    rw [← drop_drop, h.buffers, map_drop]
  have hlength : self.issued.flatten.length =
      (self.issued.take (self.returned.length + finished)).flatten.length +
        ((self.requestList.drop finished).map buffer).flatten.length := by
    rw [← hsplit, ← length_append, ← flatten_append, take_append_drop]
  have hleft : (leftOf self.requestList).length = (leftOf (self.requestList.take finished)).length +
      (leftOf (self.requestList.drop finished)).length := by
    rw [← length_append, ← leftOf_append, take_append_drop]
  have htotal := congrArg length hflow
  have hle := leftOf_length_le (self.requestList.drop finished)
  have hwritten := hp.written
  rw [length_append] at htotal ⊢
  omega

/-- Octets that are accepted finish the requests that they reach the end of. -/
theorem Streaming.perform (h : Streaming self) {octets : List UInt8}
    (hflow : self.accepted ++ leftOf self.requestList = self.issued.flatten)
    (hoctets : octets <+: leftOf self.requestList) :
    Streaming { self with
      requestList := (WriteSocket.perform octets.length self.requestList).2
      accepted := self.accepted ++ octets
      returned := self.returned ++ (WriteSocket.perform octets.length self.requestList).1 } := by
  obtain ⟨finished, hp⟩ := exists_performs h.inOrder hoctets.length_le
  have hreturned : (self.returned ++
      (WriteSocket.perform octets.length self.requestList).1).length =
        self.returned.length + finished := by
    rw [length_append, hp.returned, length_map, length_take, Nat.min_eq_left hp.finished_le]
  have hlisted : (WriteSocket.perform octets.length self.requestList).2.length =
      self.requestList.length - finished := by
    rw [← length_map number, hp.numbers, length_map, length_drop]
  have hnumbers : ((self.requestList.take finished).map fun request =>
      (request.number, WriteResult.ok)).map Prod.fst = range' self.returned.length finished := by
    rw [map_map]
    show (self.requestList.take finished).map number = _
    rw [map_take, h.listed, take_range'_of_length_ge hp.finished_le]
  have hbuffers : self.issued.drop (self.returned.length + finished) =
      (WriteSocket.perform octets.length self.requestList).2.map buffer := by
    rw [← drop_drop, h.buffers, ← map_drop]
    exact hp.buffers.symm
  have hflow' : self.accepted ++ octets ++
      leftOf (WriteSocket.perform octets.length self.requestList).2 = self.issued.flatten := by
    rw [hp.left, append_assoc, ← hflow]
    congr 1
    obtain ⟨rest, hrest⟩ := hoctets
    rw [← hrest, drop_left]
  refine ⟨hp.inOrder, ?_, ?_, ?_, ?_, ?_, ?_, ?_, ?_, ?_⟩
  · show (self.returned ++ _).map Prod.fst = range (self.returned ++ _).length
    rw [hreturned, map_append, h.first, hp.returned, hnumbers, range_eq_range',
      range_eq_range', ← range'_append_1, Nat.zero_add]
  · show (WriteSocket.perform octets.length self.requestList).2.map _ =
      range' (self.returned ++ _).length _
    rw [hreturned, hlisted, hp.numbers, map_drop, h.listed, drop_range']
    simp
  · show self.issued.drop (self.returned ++ _).length = _
    rw [hreturned]
    exact hbuffers
  · show self.issued.length = (self.returned ++ _).length + _
    have := h.total
    have := hp.finished_le
    rw [hreturned, hlisted]
    omega
  · show self.accepted ++ octets <+: self.issued.flatten
    rw [← hflow]
    exact (prefix_append_right_inj _).mpr hoctets
  · intro number hnumber
    rcases mem_append.mp hnumber with hnumber | hnumber
    · exact (h.written number hnumber).trans (prefix_append _ _)
    · -- one of those that are finished now
      have hmem : number ∈ range' self.returned.length finished := by
        rw [← hnumbers, ← hp.returned]
        exact mem_map.mpr ⟨_, hnumber, rfl⟩
      rw [mem_range'_1] at hmem
      exact (flatten_take_begins self.issued (by omega)).trans (hp.prefix_accepted h hflow hoctets)
  · intro number hlt hall
    refine mem_append.mpr ?_
    rcases Nat.lt_or_ge number self.returned.length with hold | hge
    · -- one that had been returned before, when all its octets had been accepted
      obtain ⟨k, hk⟩ := exists_performs h.inOrder (Nat.zero_le _)
      have hbefore := @Performs.prefix_accepted _ h [] k hflow hk nil_prefix
      rw [append_nil] at hbefore
      refine .inl (h.completed number hlt ?_)
      exact (flatten_take_begins self.issued (by omega)).trans hbefore
    · rcases Nat.lt_or_ge number (self.returned.length + finished) with hnow | hlater
      · have hmem : number ∈ range' self.returned.length finished := mem_range'_1.mpr ⟨hge, hnow⟩
        rw [← hnumbers] at hmem
        obtain ⟨⟨_, result⟩, hpair, rfl⟩ := mem_map.mp hmem
        obtain ⟨request, -, heq⟩ := mem_map.mp hpair
        obtain rfl := (Prod.mk.inj heq).2
        exact .inr (hp.returned ▸ hpair)
      · exact absurd hall.length_le
          (Nat.not_le.mpr (accepted_short hp.inOrder hbuffers hflow' hlater hlt))
  · exact fun _ _ => hflow'
  · intro hclosed
    rw [h.closed hclosed]
    rfl

theorem Streaming.serve (h : Streaming self)
    (hsettled : self.broken = true → status.accepts = false) : Streaming (self.serve status) := by
  cases status with
  | success bytesWritten =>
    unfold WriteSocket.serve
    simp only
    split
    · exact h.returnAll (by simp) (.inl rfl)
    · next hne =>
      have hoctets : (vector self.requestList).take bytesWritten <+: leftOf self.requestList :=
        (List.take_prefix _ _).trans (vector_begins h.inOrder)
      have hbroken : self.broken = false := by
        refine Bool.eq_false_iff.mpr fun hbroken => hne ?_
        have hzero : bytesWritten = 0 := by simpa [SendStatus.accepts] using hsettled hbroken
        rw [hzero]
        rfl
      have hopen : self.isOpen = true := by
        by_contra hclosed
        rw [h.closed (Bool.eq_false_iff.mpr hclosed), vector, take_nil] at hne
        exact hne rfl
      exact h.perform (h.flowing hbroken hopen) hoctets
  | again => exact h
  | brokenPipe => exact h.returnAll (by simp) (.inl rfl)
  | failed => exact h.returnAll (by simp) (.inr rfl)

theorem Streaming.issue (h : Streaming self) (monitor : Bool) (requests : List (Bool × List UInt8))
    (writeRequest : Option Nat)
    (hfirst : ∀ number, writeRequest = some number →
      ∃ request rest, self.requestList = request :: rest ∧ request.number = number) :
    let managed := requests.foldl (fun s request =>
        if request.1 then s.1.writeBucket monitor request.2 s.2
          else s.1.write monitor request.2 s.2)
      (self, writeRequest)
    Streaming managed.1 ∧ managed.1.broken = self.broken ∧ managed.1.returned = self.returned ∧
      ∀ number, managed.2 = some number →
        ∃ request rest, managed.1.requestList = request :: rest ∧ request.number = number := by
  induction requests generalizing self writeRequest with
  | nil => exact ⟨h, rfl, rfl, hfirst⟩
  | cons request requests ih =>
    have hone : (if request.1 then self.writeBucket monitor request.2 writeRequest
        else self.write monitor request.2 writeRequest) =
          self.write monitor request.2 writeRequest := by
      split
      · rfl
      · rfl
    rw [foldl_cons, hone]
    unfold WriteSocket.write
    split
    · exact ih h _ hfirst
    · next hgood =>
      rw [not_or, not_or, Bool.not_eq_false] at hgood
      refine ih (h.newWrite hgood.2.1 hgood.2.2 writeRequest) _ ?_
      intro number hnumber
      replace hnumber : (if writeRequest = none ∧ self.requestList = [] then
        some self.issued.length else writeRequest) = some number := hnumber
      split at hnumber
      · next hnew =>
        refine ⟨⟨self.issued.length, request.2, 0⟩, [], ?_, Option.some.inj hnumber⟩
        show self.requestList ++ _ = _
        rw [hnew.2]
        rfl
      · obtain ⟨first, rest, hlist, hfirst⟩ := hfirst number hnumber
        refine ⟨first, rest ++ [⟨self.issued.length, request.2, 0⟩], ?_, hfirst⟩
        show self.requestList ++ _ = _
        rw [hlist]
        rfl

theorem writeData_first {number : Nat} (status : SendStatus)
    (h : ∃ request rest, self.requestList = request :: rest ∧ request.number = number) :
    self.writeData number status = some (self.serve status) := by
  obtain ⟨request, rest, hlist, hnumber⟩ := h
  unfold writeData
  rw [hlist]
  exact if_pos hnumber

/-- An event can be taken, and what is accepted is the start of the stream. -/
theorem streaming_step (h : Streaming self) {event : Event} (hsettled : self.Settled event) :
    ∃ next, self.step event = some next ∧ Streaming next := by
  cases event with
  | manage monitor requests status =>
    obtain ⟨hmanaged, hbroken, -, hfirst⟩ := h.issue monitor requests none (by simp)
    show ∃ next, self.manage monitor requests status = some next ∧ _
    unfold manage
    split
    · exact ⟨_, rfl, hmanaged⟩
    · next number hnumber =>
      rw [managed, writeData_first status (hfirst number hnumber)]
      refine ⟨_, rfl, hmanaged.serve ?_⟩
      rw [hbroken]
      exact hsettled
  | poll status =>
    unfold step
    simp only
    split
    · exact ⟨self, rfl, h⟩
    · next request rest hlist =>
      rw [writeData_first status ⟨request, rest, hlist, rfl⟩]
      exact ⟨_, rfl, h.serve hsettled⟩

/-! ## Errors -/

/-- An error is the result of all requests that are left. -/
def ReturnsAll (before after : WriteSocket) : Prop :=
  after.requestList = [] ∧ ∃ result, result ≠ .ok ∧ after.returned = before.returned ++
    (range' before.returned.length (after.issued.length - before.returned.length)).map
      fun number => (number, result)

theorem Streaming.serve_fails (h : Streaming self) (hfails : status.Fails) :
    ReturnsAll self (self.serve status) := by
  have hnumbers : ∀ result : WriteResult,
      self.requestList.map (fun request => (request.number, result)) =
        (range' self.returned.length (self.issued.length - self.returned.length)).map
          fun number => (number, result) := by
    intro result
    rw [h.total, Nat.add_sub_cancel_left, ← h.listed, map_map]
    rfl
  rcases hfails with rfl | rfl | rfl
  · exact ⟨rfl, .socketClosing, by simp, congrArg (self.returned ++ ·) (hnumbers _)⟩
  · exact ⟨rfl, .socketError, by simp, congrArg (self.returned ++ ·) (hnumbers _)⟩
  · exact ⟨rfl, .socketClosing, by simp, congrArg (self.returned ++ ·) (hnumbers _)⟩

/-- Whoever sends, an error goes to all requests, those made just now included. -/
theorem Streaming.step_fails (h : Streaming self) {event : Event} (hfails : event.status.Fails)
    (hsends : self.Sends event) : ∃ next, self.step event = some next ∧ ReturnsAll self next := by
  cases event with
  | manage monitor requests status =>
    obtain ⟨hmanaged, -, hreturned, hfirst⟩ := h.issue monitor requests none (by simp)
    obtain ⟨number, hnumber⟩ := Option.ne_none_iff_exists'.mp hsends
    refine ⟨(self.managed monitor requests).1.serve status, ?_, ?_⟩
    · show self.manage monitor requests status = _
      unfold manage
      rw [hnumber]
      exact writeData_first status (hfirst number hnumber)
    · have hall := Streaming.serve_fails hmanaged hfails
      unfold ReturnsAll at hall ⊢
      rwa [hreturned] at hall
  | poll status =>
    obtain ⟨request, rest, hlist⟩ := exists_cons_of_ne_nil hsends
    refine ⟨self.serve status, ?_, h.serve_fails hfails⟩
    show (match self.requestList with
      | [] => some self
      | request :: _ => self.writeData request.number status) = _
    rw [hlist]
    exact writeData_first status ⟨request, rest, hlist, rfl⟩

/-! ## Runs -/

theorem Streaming.count_ok (h : Streaming self) {number : Nat} (hlt : number < self.issued.length) :
    self.returned.count (number, .ok) =
      if (self.issued.take (number + 1)).flatten <+: self.accepted then 1 else 0 := by
  have hnumbers : (self.returned.map Prod.fst).Nodup := by
    rw [h.first]
    exact nodup_range
  have hnodup : self.returned.Nodup :=
    Pairwise.of_map Prod.fst (fun _ _ hne heq => hne (congrArg Prod.fst heq)) hnumbers
  rw [hnodup.count]
  exact if_congr ⟨h.written number, h.completed number hlt⟩ rfl rfl

/--
Any threadlets write any buffers, and the network answers each send as it likes, only that it
accepts nothing more after the pipe has broken. Then it has the start of what was issued. All
requests are returned once, in order, with success once it has all their octets and not before,
and an error of any send is the answer to all that are left.
-/
theorem write_stream (events : List Event) (hsettled : Lib.Along step Settled {} events) :
    ∃ socket, Lib.run step {} events = some socket ∧ socket.accepted <+: socket.issued.flatten ∧
      socket.returned.map Prod.fst ++ socket.requestList.map number = range socket.issued.length ∧
      (∀ number < socket.issued.length, socket.returned.count (number, .ok) =
        if (socket.issued.take (number + 1)).flatten <+: socket.accepted then 1 else 0) ∧
      ∀ event : Event, event.status.Fails → socket.Sends event →
        ∃ socket', socket.step event = some socket' ∧ ReturnsAll socket socket' := by
  obtain ⟨socket, hrun, h⟩ := Lib.run_progress (I := fun _ => Streaming)
    (fun _ s e hs hok => streaming_step hs hok) [] streaming_new hsettled
  refine ⟨socket, hrun, h.accepted, ?_, fun _ => h.count_ok, fun event => h.step_fails⟩
  rw [h.first, h.listed, h.total, range_eq_range', range_eq_range',
    ← range'_append_1, Nat.zero_add]

/-- Two requests, of which the first is returned and the other waits for its last octet -/
theorem write_stream_sample :
    ∃ socket, Lib.run step {} [.manage false [(false, [1, 2]), (true, [3, 4])] (.success 1),
        .poll .again, .poll (.success 2)] = some socket ∧
      socket.accepted <+: socket.issued.flatten ∧ socket.returned.count (0, .ok) = 1 := by
  obtain ⟨socket, hrun, haccepted, -, hcount, -⟩ := write_stream
    [.manage false [(false, [1, 2]), (true, [3, 4])] (.success 1), .poll .again,
      .poll (.success 2)] (by decide)
  refine ⟨socket, hrun, haccepted, ?_⟩
  cases hrun
  exact hcount 0 (by decide)

/-- A request after a broken pipe is sent, so that the octets of the one before are skipped. -/
theorem broken_pipe_skips : (Lib.run step {} [.manage false [(false, [1])] .brokenPipe,
      .manage false [(false, [2])] (.success 1)]).map (fun socket =>
        (socket.issued, socket.accepted)) = some ([[1], [2]], [2]) ∧
      ¬[2] <+: [[1], [2]].flatten :=
  ⟨rfl, by decide⟩

end WriteSocket

end OpenAmq
