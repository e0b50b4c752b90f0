import Mathlib
import OpenAmq.Content.Model
import OpenAmq.Ipr.Mother
import OpenAmq.Lib.Run

/-!
# Reading into a mother

A read request with a mother is answered with a slave bucket, so that no octet is copied. What is
received goes to the place that the first request waits for, and may be more than it waits for.

* `MotherSocket` — the requests on a socket, the mothers and the slaves
* `MotherSocket.readData` — octets are received
* `Reading` — how the requests, the mother and the stream belong together
* `read_mother_delivers` — over any run in which no octet is counted twice
-/

namespace OpenAmq

open Lib List Function

/-- The difference of two `size_t`, which wraps -/
def sizeSub (a b : Nat) : Nat := if b ≤ a then a - b else a + 2 ^ 64 - b

/-- An `smt_socket_request` of the type `SOCK_READ` with a mother -/
structure MotherRequest where
  /-- in order of issue -/
  number : Nat
  /-- `min_size` and `max_size` -/
  size : Nat
  curSize : Nat
  /-- where `buffer` is in the data of the mother -/
  buffer : Nat
  mother : Nat
deriving DecidableEq

inductive StreamRequest where
  /-- an output request -/
  | write
  | read (request : MotherRequest)
deriving DecidableEq

def StreamRequest.isWrite : StreamRequest → Bool
  | write => true
  | read _ => false

/-- A slave bucket and the request that it answers -/
structure Slave where
  number : Nat
  mother : Nat
  /-- where it begins in the data of the mother -/
  data : Nat
  size : Nat
deriving DecidableEq

def MotherRequest.slave (request : MotherRequest) : Slave :=
  ⟨request.number, request.mother, request.buffer, request.size⟩

/-- A socket on which threadlets read and write. It is open, and there is no monitor. -/
structure MotherSocket where
  requestList : List StreamRequest := []
  mothers : Nat → Mother := fun _ => {}
  /-- the number of mothers that have been made -/
  made : Nat := 0
  /-- the mother pointer that is given with each request -/
  mother : Option Nat := none
  /-- in the order in which they have been claimed -/
  slaves : List Slave := []
  /-- the sizes that have been asked for -/
  issued : List Nat := []
  received : List UInt8 := []

namespace MotherSocket

def setMother (self : MotherSocket) (k : Nat) (mother : Mother) : MotherSocket :=
  { self with mothers := update self.mothers k mother }

/-- The mother is created if there is none. -/
def begun (self : MotherSocket) : MotherSocket :=
  match self.mother with
  | some _ => self
  | none => { self.setMother self.made {} with made := self.made + 1, mother := some self.made }

/-- A new output request goes before the input requests. -/
def write (self : MotherSocket) : MotherSocket :=
  { self with
    requestList := self.requestList.takeWhile StreamRequest.isWrite ++
      .write :: self.requestList.dropWhile StreamRequest.isWrite }

/-- The first output request is returned. -/
def written (self : MotherSocket) : MotherSocket :=
  match self.requestList with
  | .write :: rest => { self with requestList := rest }
  | _ => self

/-- The space is allocated from mother `k`. Returns the number of the mother to go on with, and the
offset. -/
def allocate (self : MotherSocket) (k size : Nat) : Option (MotherSocket × Nat × Nat) :=
  match (self.mothers k).allocate size with
  | none => none
  | some ⟨none, mother, data⟩ =>
    some (self.setMother k mother, k, data)
  | some ⟨some closed, mother, data⟩ =>
    some ({ (self.setMother k closed).setMother self.made mother with made := self.made + 1 },
      self.made, data)

/-- A slave answers the request at once. -/
def claimed (self : MotherSocket) (mother : Mother) (slave : Slave) : MotherSocket :=
  { self.setMother slave.mother mother with
    slaves := self.slaves ++ [slave],
    issued := self.issued ++ [slave.size] }

def queued (self : MotherSocket) (mother : Mother) (request : MotherRequest) : MotherSocket :=
  { self.setMother request.mother mother with
    mother := some request.mother,
    requestList := self.requestList ++ [.read request],
    issued := self.issued ++ [request.size] }

def claimOrQueue (self : MotherSocket) (k data size : Nat) : Option MotherSocket :=
  match (self.mothers k).claim size with
  | none => none
  | some (some data, mother) => some (self.claimed mother ⟨self.issued.length, k, data, size⟩)
  | some (none, mother) =>
    some (self.queued mother ⟨self.issued.length, size, mother.overhang, data, k⟩)

/-- `smt_socket_request_read_mother`. A size that is too big is refused. -/
def readMother (self : MotherSocket) (size : Nat) : Option MotherSocket :=
  if iprBucketMaxSize < size then some self
  else
    match self.begun.mother with
    | none => none
    | some k => (self.begun.allocate k size).bind fun r => r.1.claimOrQueue r.2.1 r.2.2 size

def SameMother (k : Nat) : List StreamRequest → Prop
  | [] => True
  | .write :: _ => False
  | .read request :: _ => request.mother = k

instance decidableSameMother (k : Nat) (rest : List StreamRequest) :
    Decidable (SameMother k rest) :=
  match rest with
  | [] => isTrue trivial
  | .write :: _ => isFalse id
  | .read request :: _ => inferInstanceAs (Decidable (request.mother = k))

def count (request : MotherRequest) (overhang : Nat) : Nat × Nat :=
  let left := sizeSub request.size request.curSize
  if left < overhang then (request.size, overhang - left) else (request.curSize + overhang, 0)

/-- The loop over the read requests. What is left of the list, and the slaves. `none`: an assertion
fails. -/
def serve (k : Nat) : List StreamRequest → Nat → Mother →
    Option (Mother × List Slave × List StreamRequest)
  | .read request :: rest, overhang, mother =>
    let counted := count request overhang
    if request.size ≤ counted.1 then
      match mother.claim counted.1 with
      | none | some (none, _) => none
      | some (some data, mother) =>
        if SameMother k rest then
          (serve k rest counted.2 mother).map fun r =>
            (r.1, ⟨request.number, k, data, counted.1⟩ :: r.2.1, r.2.2)
        else none
    else some (mother, [], .read { request with curSize := counted.1 } :: rest)
  | rest, _, mother => some (mother, [], rest)

/-- `smt_socket_request_read_data`, for the first input request. At most the unfilled octets are
asked for. `none`: an assertion fails, or the octets may be written outside of the data. -/
def readData (self : MotherSocket) (octets : List UInt8) : Option MotherSocket :=
  match self.requestList.dropWhile StreamRequest.isWrite with
  | .read request :: rest =>
    let mother := self.mothers request.mother
    let place := request.buffer + request.curSize
    if iprMotherBucketSize < place + mother.unfilled then none
    else
      match mother.fill octets.length with
      | none => none
      | some mother =>
        (serve request.mother (.read request :: rest) mother.overhang
          { mother with data := writeBlock mother.data place octets }).map fun r =>
            { self.setMother request.mother r.1 with
              requestList := self.requestList.takeWhile StreamRequest.isWrite ++ r.2.2,
              slaves := self.slaves ++ r.2.1,
              received := self.received ++ octets }
  | _ => some self

/-- What happens to the socket -/
inductive Event where
  /-- `size` octets are asked for. -/
  | read (size : Nat)
  /-- octets are to be written. -/
  | write
  /-- an output request is done. -/
  | written
  /-- octets come in, as many as the network has. -/
  | receive (octets : List UInt8)

def step (self : MotherSocket) : Event → Option MotherSocket
  | .read size => self.readMother size
  | .write => some self.write
  | .written => some self.written
  | .receive octets => self.readData octets

def octetsOf (self : MotherSocket) (slave : Slave) : List UInt8 :=
  readBlock (self.mothers slave.mother).data slave.data slave.size

def reads (self : MotherSocket) : List MotherRequest :=
  self.requestList.filterMap fun
    | .write => none
    | .read request => some request

/-- The octets that are asked for -/
def total (requests : List MotherRequest) : Nat := (requests.map MotherRequest.size).sum

/-- What the callers and the network keep to: the sizes that are asked for fit a mother, and there
comes in at least one octet, and no more than the read asks for. -/
def Legal (self : MotherSocket) : Event → Prop
  | .read size => 1 ≤ size ∧ total self.reads + size ≤ iprMotherBucketSize
  | .receive octets => octets ≠ [] ∧ ∀ request ∈ self.reads.head?,
      octets.length ≤ (self.mothers request.mother).unfilled
  | .write | .written => True

/-- No octet is counted twice: a request that is made while others wait is not answered with what is
theirs, and finds space in the same mother; and octets are received when no request has counted any,
or else enough for all of them. -/
def CountsOnce (self : MotherSocket) : Event → Prop
  | .read size => ∀ request ∈ self.reads.head?, (self.mothers request.mother).overhang < size ∧
        (self.mothers request.mother).allocated + size ≤ iprMotherBucketSize
  | .receive octets => (∀ request ∈ self.reads, request.curSize = 0) ∨ ∀ request ∈ self.reads.head?,
        total self.reads ≤ (self.mothers request.mother).overhang + octets.length
  | .write | .written => True

/-! ## The loop -/

/-- The requests wait for consecutive parts of the data of mother `k`, from `start` on. -/
def Laid (k : Nat) : Nat → List MotherRequest → Prop
  | _, [] => True
  | start, request :: rest =>
    (request.mother = k ∧ request.buffer = start ∧ 1 ≤ request.size ∧
      request.curSize ≤ request.size) ∧
      Laid k (start + request.size) rest

/-- What the first request has counted -/
def started : List MotherRequest → Nat
  | [] => 0
  | request :: _ => request.curSize

/-- The first request has counted `n` octets. -/
def restart (n : Nat) : List MotherRequest → List MotherRequest
  | [] => []
  | request :: rest => { request with curSize := n } :: rest

variable {self next : MotherSocket} {k start overhang : Nat} {mother : Mother}
  {request : MotherRequest} {requests : List MotherRequest}

@[simp] theorem total_nil : total [] = 0 := rfl

@[simp] theorem total_cons (request : MotherRequest) (requests : List MotherRequest) :
    total (request :: requests) = request.size + total requests := rfl

@[simp] theorem total_append (requests requests' : List MotherRequest) :
    total (requests ++ requests') = total requests + total requests' := by
  simp [total]

theorem Laid.sameMother (h : Laid k start requests) : SameMother k (requests.map .read) := by
  cases requests with
  | nil => trivial
  | cons request requests => exact h.1.1

/-- What the loop does to requests that wait, of which `n` are finished -/
structure Serves (k : Nat) (mother : Mother) (requests : List MotherRequest)
    (result : Option (Mother × List Slave × List StreamRequest)) (n : Nat) : Prop where
  finished_le : n ≤ requests.length
  enough : total (requests.take n) ≤ mother.overhang
  next : ∀ request ∈ (requests.drop n).head?,
    mother.overhang < total (requests.take n) + request.size
  result : result = some ({ mother with claimed := mother.claimed + total (requests.take n) },
      (requests.take n).map MotherRequest.slave,
      (restart (mother.overhang - total (requests.take n)) (requests.drop n)).map .read)

theorem count_finished (hcur : request.curSize ≤ request.size)
    (hdone : request.size ≤ request.curSize + overhang) :
    count request overhang = (request.size, overhang - (request.size - request.curSize)) := by
  unfold count sizeSub
  rw [if_pos hcur]
  simp only
  split
  · rfl
  · exact Prod.ext (by simp only; omega) (by simp only; omega)

theorem count_unfinished (hcur : request.curSize ≤ request.size)
    (hleft : request.curSize + overhang < request.size) :
    count request overhang = (request.curSize + overhang, 0) := by
  unfold count sizeSub
  rw [if_pos hcur]
  exact if_neg (by omega)

theorem serve_finished (hmother : request.mother = k) (hbuffer : request.buffer = mother.claimed)
    (hcur : request.curSize ≤ request.size) (hnext : SameMother k (requests.map .read))
    (hdone : request.size ≤ request.curSize + overhang) (henough : request.size ≤ mother.overhang)
    (hallocated : mother.claimed + request.size ≤ mother.allocated) :
    serve k ((request :: requests).map .read) overhang mother =
      (serve k (requests.map .read) (overhang - (request.size - request.curSize))
        { mother with claimed := mother.claimed + request.size }).map fun r =>
          (r.1, request.slave :: r.2.1, r.2.2) := by
  rw [map_cons, serve, count_finished hcur hdone]
  simp only [Nat.le_refl, if_true]
  rw [Mother.claim_some henough hallocated]
  simp only [if_pos hnext, MotherRequest.slave, hmother, hbuffer]

theorem serve_unfinished (hcur : request.curSize ≤ request.size)
    (hleft : request.curSize + overhang < request.size) :
    serve k ((request :: requests).map .read) overhang mother =
      some (mother, [], .read { request with curSize := request.curSize + overhang } ::
        requests.map .read) := by
  rw [map_cons, serve, count_unfinished hcur hleft]
  exact if_neg (by simp only; omega)

theorem exists_serves (hlaid : Laid k mother.claimed requests)
    (hallocated : mother.allocated = mother.claimed + total requests)
    (hover : (∀ request ∈ requests, request.curSize = 0) ∧ overhang = mother.overhang ∨
      total requests ≤ mother.overhang ∧ total requests ≤ overhang + started requests) :
    ∃ n, Serves k mother requests (serve k (requests.map .read) overhang mother) n := by
  induction requests generalizing mother overhang with
  | nil => exact ⟨0, Nat.le_refl 0, Nat.zero_le _, by simp, rfl⟩
  | cons request requests ih =>
    obtain ⟨⟨hmother, hbuffer, hpos, hcur⟩, hlaid⟩ := hlaid
    rw [total_cons] at hallocated
    simp only [total_cons, started] at hover
    by_cases hdone : request.size ≤ request.curSize + overhang
    · have henough : request.size ≤ mother.overhang := by
        rcases hover with ⟨hzero, rfl⟩ | ⟨hall, -⟩
        · rw [hzero request mem_cons_self] at hdone
          omega
        · omega
      have hclaimed : ({ mother with claimed := mother.claimed + request.size } : Mother).overhang =
          mother.overhang - request.size := by
        simp only [Mother.overhang]
        omega
      obtain ⟨n, hle, hn, hnext, hresult⟩ := @ih (overhang - (request.size - request.curSize))
        { mother with claimed := mother.claimed + request.size } hlaid
        (by simp only; omega) (by
          rw [hclaimed]
          rcases hover with ⟨hzero, rfl⟩ | ⟨hall, hcount⟩
          · refine .inl ⟨fun r hr => hzero r (mem_cons_of_mem _ hr), ?_⟩
            rw [hzero request mem_cons_self, Nat.sub_zero]
          · refine .inr ⟨by omega, by omega⟩)
      rw [hclaimed] at hn hnext hresult
      refine ⟨n + 1, Nat.succ_le_succ hle, ?_, ?_, ?_⟩
      · rw [take_succ_cons, total_cons]
        omega
      · intro r hr
        have := hnext r hr
        rw [take_succ_cons, total_cons]
        omega
      · rw [serve_finished hmother hbuffer hcur hlaid.sameMother hdone henough (by omega),
          hresult, take_succ_cons, drop_succ_cons, total_cons, Nat.sub_add_eq,
          ← Nat.add_assoc]
        rfl
    · rcases hover with ⟨hzero, rfl⟩ | ⟨hall, hcount⟩
      · have hcur0 := hzero request mem_cons_self
        rw [hcur0, Nat.zero_add] at hdone
        refine ⟨0, Nat.zero_le _, Nat.zero_le _, ?_, ?_⟩
        · intro r hr
          cases hr
          omega
        · rw [serve_unfinished hcur (by omega), hcur0, Nat.zero_add]
          rfl
      · omega

/-! ## Requests and mother -/

/-- The counters of mother `k`, when `spare` octets are allocated for no request -/
structure Counted (mother : Mother) (k spare : Nat) (reads : List MotherRequest) : Prop where
  closed : mother.closed = false
  laid : Laid k mother.claimed reads
  allocated : mother.allocated = mother.claimed + total reads + spare
  claimed_le : mother.claimed ≤ mother.filled
  filled_le : mother.filled ≤ iprMotherBucketSize
  allocated_le : mother.allocated ≤ iprMotherBucketSize
  /-- the first request has counted what there is for it -/
  waits : ∀ request ∈ reads.head?,
    request.curSize = mother.overhang ∧ mother.overhang < request.size

/-- How the requests, mother `k` and what has been received belong together -/
structure Reading (socket : MotherSocket) (outputs : Nat) (reads : List MotherRequest)
    (k spare : Nat) : Prop where
  listed : socket.requestList = replicate outputs .write ++ reads.map .read
  made : socket.made = k + 1
  counted : Counted (socket.mothers k) k spare reads
  numbers : socket.slaves.map Slave.number ++ reads.map MotherRequest.number =
    range socket.issued.length
  sizes : socket.slaves.map Slave.size ++ reads.map MotherRequest.size = socket.issued
  /-- nothing is written any more where the slaves are -/
  past : ∀ slave ∈ socket.slaves, slave.mother < k ∨
    slave.mother = k ∧ slave.data + slave.size ≤ (socket.mothers k).claimed
  stream : socket.slaves.flatMap socket.octetsOf ++
    readBlock (socket.mothers k).data (socket.mothers k).claimed (socket.mothers k).overhang =
      socket.received

/-- No request has been made yet. -/
structure Idle (socket : MotherSocket) : Prop where
  listed : ∃ outputs, socket.requestList = replicate outputs .write
  known : socket.mother = none
  made : socket.made = 0
  slaves : socket.slaves = []
  issued : socket.issued = []
  received : socket.received = []

/-- The states that are reached -/
def Delivers (self : MotherSocket) : Prop :=
  Idle self ∨ ∃ outputs reads k, Reading self outputs reads k 0 ∧ self.mother = some k

theorem idle_new : Idle {} := ⟨⟨0, rfl⟩, rfl, rfl, rfl, rfl, rfl⟩

theorem Idle.begun (h : Idle self) :
    ∃ outputs, Reading self.begun outputs [] 0 0 ∧ self.begun.mother = some 0 := by
  obtain ⟨outputs, hlisted⟩ := h.listed
  have hbegun : self.begun = { self.setMother 0 {} with made := 1, mother := some 0 } := by
    unfold MotherSocket.begun
    rw [h.known, h.made]
  refine ⟨outputs, ?_, congrArg MotherSocket.mother hbegun⟩
  rw [hbegun]
  have hcounted : Counted {} 0 0 [] := by constructor <;> simp [Laid]
  constructor <;>
    simp [setMother, hlisted, h.slaves, h.issued, h.received, hcounted, Mother.overhang]

theorem begun_of_mother (h : self.mother = some k) : self.begun = self := by
  unfold MotherSocket.begun
  rw [h]

theorem takeWhile_isWrite (outputs : Nat) (reads : List MotherRequest) :
    (replicate outputs StreamRequest.write ++ reads.map StreamRequest.read).takeWhile
        StreamRequest.isWrite = replicate outputs .write := by
  rw [takeWhile_append_of_pos (by simp [StreamRequest.isWrite])]
  cases reads with
  | nil => simp
  | cons request reads => simp [StreamRequest.isWrite]

theorem dropWhile_isWrite (outputs : Nat) (reads : List MotherRequest) :
    (replicate outputs StreamRequest.write ++ reads.map StreamRequest.read).dropWhile
        StreamRequest.isWrite = reads.map .read := by
  rw [dropWhile_append_of_pos (by simp [StreamRequest.isWrite])]
  cases reads with
  | nil | cons request reads => rfl

theorem reads_listed {outputs : Nat} {requests : List MotherRequest}
    (h : self.requestList = replicate outputs .write ++ requests.map .read) :
    self.reads = requests := by
  unfold reads
  rw [h, filterMap_append, filterMap_map]
  simp

/-! ## Output requests -/

theorem Delivers.write (h : Delivers self) : Delivers self.write := by
  rcases h with h | ⟨outputs, reads, k, h, hknown⟩
  · obtain ⟨outputs, hlisted⟩ := h.listed
    refine .inl ⟨⟨outputs + 1, ?_⟩, h.known, h.made, h.slaves, h.issued, h.received⟩
    have htake := takeWhile_isWrite outputs []
    have hdrop := dropWhile_isWrite outputs []
    rw [map_nil, append_nil] at htake hdrop
    unfold MotherSocket.write
    rw [hlisted, htake, hdrop, replicate_succ']
  · refine .inr ⟨outputs + 1, reads, k, { h with listed := ?_ }, hknown⟩
    unfold MotherSocket.write
    rw [h.listed, takeWhile_isWrite, dropWhile_isWrite, replicate_succ', append_assoc]
    rfl

theorem written_cases (self : MotherSocket) :
    (∃ rest, self.requestList = .write :: rest ∧ self.written = { self with requestList := rest }) ∨
      self.written = self := by
  unfold MotherSocket.written
  split
  · next rest hlist => exact .inl ⟨rest, hlist, rfl⟩
  · exact .inr rfl

theorem Delivers.written (h : Delivers self) : Delivers self.written := by
  rcases self.written_cases with ⟨rest, hlist, hwritten⟩ | hwritten
  · rw [hwritten]
    rcases h with h | ⟨outputs, reads, k, h, hknown⟩
    · obtain ⟨outputs, hlisted⟩ := h.listed
      rw [hlist] at hlisted
      cases outputs with
      | zero => cases hlisted
      | succ outputs =>
        exact .inl ⟨⟨outputs, (cons.inj hlisted).2⟩, h.known, h.made, h.slaves, h.issued,
          h.received⟩
    · have hlisted := h.listed
      rw [hlist] at hlisted
      cases outputs with
      | zero =>
        cases reads with
        | nil | cons request reads => cases hlisted
      | succ outputs =>
        exact .inr ⟨outputs, reads, k, { h with listed := (cons.inj hlisted).2 }, hknown⟩
  · rw [hwritten]
    exact h

/-! ## Read requests -/

theorem octetsOf_congr {slave : Slave}
    (h : ∀ i, i < slave.size → (next.mothers slave.mother).data (slave.data + i) =
      (self.mothers slave.mother).data (slave.data + i)) :
    next.octetsOf slave = self.octetsOf slave :=
  readBlock_congr h

theorem flatMap_octetsOf_congr {slaves : List Slave}
    (h : ∀ slave ∈ slaves, next.octetsOf slave = self.octetsOf slave) :
    slaves.flatMap next.octetsOf = slaves.flatMap self.octetsOf :=
  flatMap_congr h

theorem octetsOf_setMother {slave : Slave} (hdata : mother.data = (self.mothers k).data) :
    (self.setMother k mother).octetsOf slave = self.octetsOf slave := by
  refine octetsOf_congr fun i _ => ?_
  show (update self.mothers k mother slave.mother).data _ = _
  by_cases hk : slave.mother = k
  · rw [hk, update_self, hdata]
  · rw [update_of_ne hk]

@[simp] theorem setMother_self (self : MotherSocket) (k : Nat) (mother : Mother) :
    (self.setMother k mother).mothers k = mother :=
  update_self ..

variable {outputs spare size : Nat} {reads : List MotherRequest}

theorem Reading.setMother (h : Reading self outputs reads k spare)
    (hcounted : Counted mother k size reads) (hdata : mother.data = (self.mothers k).data)
    (hclaimed : mother.claimed = (self.mothers k).claimed)
    (hfilled : mother.filled = (self.mothers k).filled) :
    Reading (self.setMother k mother) outputs reads k size := by
  refine ⟨h.listed, h.made, ?_, h.numbers, h.sizes, ?_, ?_⟩
  · rw [setMother_self]
    exact hcounted
  · rw [setMother_self, hclaimed]
    exact h.past
  · show self.slaves.flatMap (self.setMother k mother).octetsOf ++ _ = self.received
    rw [flatMap_octetsOf_congr fun slave _ => octetsOf_setMother hdata, setMother_self, hdata,
      hclaimed, Mother.overhang, hclaimed, hfilled]
    exact h.stream

theorem Reading.renew {closed fresh : Mother} (h : Reading self outputs [] k 0)
    (hcounted : Counted fresh (k + 1) size []) (hdata : closed.data = (self.mothers k).data)
    (hahead : readBlock fresh.data fresh.claimed fresh.overhang =
      readBlock (self.mothers k).data (self.mothers k).claimed (self.mothers k).overhang) :
    Reading { (self.setMother k closed).setMother (k + 1) fresh with made := k + 2 } outputs []
      (k + 1) size := by
  refine ⟨h.listed, rfl, ?_, h.numbers, h.sizes, ?_, ?_⟩
  · show Counted (((self.setMother k closed).setMother (k + 1) fresh).mothers (k + 1)) _ _ _
    rw [setMother_self]
    exact hcounted
  · intro slave hslave
    rcases h.past slave hslave with hlt | ⟨heq, -⟩
    · exact .inl (hlt.trans (Nat.lt_succ_self k))
    · exact .inl (heq ▸ Nat.lt_succ_self k)
  · show self.slaves.flatMap ((self.setMother k closed).setMother (k + 1) fresh).octetsOf ++
      readBlock (((self.setMother k closed).setMother (k + 1) fresh).mothers (k + 1)).data
        (((self.setMother k closed).setMother (k + 1) fresh).mothers (k + 1)).claimed
        (((self.setMother k closed).setMother (k + 1) fresh).mothers (k + 1)).overhang =
      self.received
    rw [setMother_self, hahead, flatMap_octetsOf_congr fun slave hslave => ?_]
    · exact h.stream
    · refine Eq.trans (octetsOf_congr fun i _ => ?_) (octetsOf_setMother hdata)
      have hne : slave.mother ≠ k + 1 := by
        have := h.past slave hslave
        omega
      exact congrArg (fun m : Mother => m.data _) (update_of_ne hne _ _)

/-- The space is allocated. When a request waits it is in the same mother. -/
theorem Reading.allocate (h : Reading self outputs reads k 0)
    (hsize : total reads + size ≤ iprMotherBucketSize)
    (honce : ∀ request ∈ reads.head?, (self.mothers k).overhang < size ∧
      (self.mothers k).allocated + size ≤ iprMotherBucketSize) :
    ∃ next k', self.allocate k size = some (next, k', (next.mothers k').claimed + total reads) ∧
      Reading next outputs reads k' size ∧ next.mother = self.mother ∧
      (k' = k ∨ (next.mothers k').overhang < size) ∧
      ∀ request ∈ reads.head?, (next.mothers k').overhang < size := by
  have hc := h.counted
  by_cases hhere : (self.mothers k).allocated + size ≤ iprMotherBucketSize
  · refine ⟨self.setMother k
      { self.mothers k with allocated := (self.mothers k).allocated + size }, k, ?_, ?_, rfl,
      .inl rfl, ?_⟩
    · unfold MotherSocket.allocate
      rw [Mother.allocate_here hhere, setMother_self, hc.allocated]
      rfl
    · refine h.setMother ?_ rfl rfl rfl
      refine ⟨hc.closed, hc.laid, ?_, hc.claimed_le, hc.filled_le, hhere, hc.waits⟩
      rw [hc.allocated]
      rfl
    · intro request hrequest
      rw [setMother_self]
      exact (honce request hrequest).1
  · -- nothing waits, so that all that is allocated has been claimed
    obtain rfl : reads = [] := by
      cases reads with
      | nil => rfl
      | cons request reads => exact absurd (honce request rfl).2 hhere
    rw [total_nil, Nat.zero_add] at hsize
    have hallocated : (self.mothers k).allocated = (self.mothers k).claimed := hc.allocated
    have hoverhang : (self.mothers k).overhang < size := by
      have := hc.claimed_le
      have := hc.filled_le
      unfold Mother.overhang
      omega
    have hsuccessor : Counted ((self.mothers k).successor size) (k + 1) size [] := by
      refine ⟨rfl, trivial, (Nat.zero_add _).symm, Nat.zero_le _, ?_, hsize, by simp⟩
      show (readBlock _ _ _).length ≤ _
      rw [length_readBlock]
      exact (Nat.sub_le _ _).trans hc.filled_le
    have hfresh := setMother_self (self.setMother k (self.mothers k).ended) (k + 1)
      ((self.mothers k).successor size)
    have hended : (self.mothers k).ended.data = (self.mothers k).data := rfl
    refine ⟨_, k + 1, ?_, h.renew hsuccessor hended (Mother.successor_ahead _ size hallocated), rfl,
      .inr ?_, by simp⟩
    · unfold MotherSocket.allocate
      rw [Mother.allocate_new hallocated hc.allocated_le hsize hhere]
      rw [h.made, hfresh]
      rfl
    · show (((self.setMother k _).setMother (k + 1) _).mothers (k + 1)).overhang < size
      rw [hfresh]
      show (readBlock _ _ _).length - 0 < size
      rw [length_readBlock, hallocated]
      exact hoverhang

theorem Laid.append (h : Laid k start requests) (hmother : request.mother = k)
    (hbuffer : request.buffer = start + total requests) (hsize : 1 ≤ request.size)
    (hcur : request.curSize ≤ request.size) : Laid k start (requests ++ [request]) := by
  induction requests generalizing start with
  | nil => exact ⟨⟨hmother, hbuffer, hsize, hcur⟩, trivial⟩
  | cons first requests ih =>
    obtain ⟨hfirst, hrest⟩ := h
    refine ⟨hfirst, ih hrest ?_⟩
    rw [hbuffer, total_cons, Nat.add_assoc]

theorem Laid.octets (h : Laid k start requests) :
    (requests.map MotherRequest.slave).flatMap self.octetsOf =
      readBlock (self.mothers k).data start (total requests) := by
  induction requests generalizing start with
  | nil => rfl
  | cons request requests ih =>
    obtain ⟨⟨hmother, hbuffer, -⟩, hrest⟩ := h
    rw [map_cons, flatMap_cons, ih hrest, total_cons, readBlock_add, octetsOf,
      MotherRequest.slave, hmother, hbuffer]

theorem stream_answer {done : List MotherRequest} (hlaid : Laid k (self.mothers k).claimed done)
    (hdata : mother.data = (self.mothers k).data)
    (hclaimed : mother.claimed = (self.mothers k).claimed + total done)
    (hfilled : mother.filled = (self.mothers k).filled)
    (henough : total done ≤ (self.mothers k).overhang) :
    (self.slaves ++ done.map MotherRequest.slave).flatMap (self.setMother k mother).octetsOf ++
        readBlock mother.data mother.claimed mother.overhang =
      self.slaves.flatMap self.octetsOf ++ readBlock (self.mothers k).data (self.mothers k).claimed
        (self.mothers k).overhang := by
  have hoverhang : (self.mothers k).overhang = total done + mother.overhang := by
    unfold Mother.overhang at henough ⊢
    omega
  rw [flatMap_octetsOf_congr fun slave _ => octetsOf_setMother hdata, flatMap_append,
    hlaid.octets, hdata, hclaimed, append_assoc, hoverhang, readBlock_add]

theorem Reading.claimed (h : Reading self outputs [] k size)
    (hdata : mother.data = (self.mothers k).data)
    (hclaimed : mother.claimed = (self.mothers k).claimed + size)
    (hfilled : mother.filled = (self.mothers k).filled) (hcounted : Counted mother k 0 [])
    (hsize : 1 ≤ size) (henough : size ≤ (self.mothers k).overhang) :
    Reading (self.claimed mother ⟨self.issued.length, k, (self.mothers k).claimed, size⟩) outputs []
      k 0 := by
  have hnumbers := h.numbers
  have hsizes := h.sizes
  rw [map_nil, append_nil] at hnumbers hsizes
  refine ⟨h.listed, h.made, ?_, ?_, ?_, ?_, ?_⟩
  · show Counted ((self.setMother k mother).mothers k) k 0 []
    rw [setMother_self]
    exact hcounted
  · simp [MotherSocket.claimed, hnumbers, range_succ]
  · simp [MotherSocket.claimed, hsizes]
  · show ∀ slave ∈ self.slaves ++ [_], _ ∨ _ ∧ _ ≤ ((self.setMother k mother).mothers k).claimed
    rw [setMother_self, hclaimed]
    intro slave hslave
    rcases mem_append.mp hslave with hslave | hslave
    · have := h.past slave hslave
      omega
    · obtain rfl := mem_singleton.mp hslave
      exact .inr ⟨rfl, Nat.le_refl _⟩
  · show _ ++ readBlock ((self.setMother k mother).mothers k).data
      ((self.setMother k mother).mothers k).claimed
      ((self.setMother k mother).mothers k).overhang = self.received
    rw [setMother_self, ← h.stream]
    have hlaid : Laid k (self.mothers k).claimed
        [⟨self.issued.length, size, 0, (self.mothers k).claimed, k⟩] :=
      ⟨⟨rfl, rfl, hsize, Nat.zero_le _⟩, trivial⟩
    exact stream_answer hlaid hdata hclaimed hfilled henough

theorem Reading.queued (h : Reading self outputs reads k size) (hsize : 1 ≤ size)
    (hwaits : (self.mothers k).overhang < size) :
    Reading (self.queued (self.mothers k) ⟨self.issued.length, size, (self.mothers k).overhang,
      (self.mothers k).claimed + total reads, k⟩) outputs (reads ++
      [⟨self.issued.length, size, (self.mothers k).overhang,
        (self.mothers k).claimed + total reads, k⟩]) k 0 := by
  have hc := h.counted
  have hlisted := h.listed
  refine ⟨?_, h.made, ?_, ?_, ?_, ?_, ?_⟩
  · show self.requestList ++ _ = _
    rw [hlisted, append_assoc, map_append]
    rfl
  · show Counted ((self.setMother k (self.mothers k)).mothers k) k 0 _
    rw [setMother_self]
    refine ⟨hc.closed, hc.laid.append rfl rfl hsize hwaits.le, ?_, hc.claimed_le, hc.filled_le,
      hc.allocated_le, ?_⟩
    · rw [hc.allocated, total_append, Nat.add_assoc]
      rfl
    · intro request hrequest
      cases reads with
      | nil =>
        cases hrequest
        exact ⟨rfl, hwaits⟩
      | cons first reads => exact hc.waits request hrequest
  · show _ = range (self.issued ++ [size]).length
    rw [length_append, length_singleton, range_succ, ← h.numbers, map_append, append_assoc]
    rfl
  · show _ = self.issued ++ [size]
    rw [← h.sizes, map_append, append_assoc]
    rfl
  · show ∀ slave ∈ self.slaves, _ ∨ _ ∧ _ ≤ ((self.setMother k (self.mothers k)).mothers k).claimed
    rw [setMother_self]
    exact h.past
  · exact (h.setMother hc rfl rfl rfl).stream

theorem Reading.claimOrQueue (h : Reading self outputs reads k size) (hsize : 1 ≤ size)
    (hknown : size ≤ (self.mothers k).overhang → self.mother = some k)
    (honce : ∀ request ∈ reads.head?, (self.mothers k).overhang < size) :
    ∃ next, self.claimOrQueue k ((self.mothers k).claimed + total reads) size = some next ∧
      next.mother = some k ∧ ∃ reads', Reading next outputs reads' k 0 := by
  have hc := h.counted
  by_cases henough : size ≤ (self.mothers k).overhang
  · -- nothing waits, or else it would be for the octets that are there
    obtain rfl : reads = [] := by
      cases reads with
      | nil => rfl
      | cons request reads => exact absurd henough (Nat.not_le.mpr (honce request rfl))
    have hallocated : (self.mothers k).claimed + size = (self.mothers k).allocated := by
      rw [hc.allocated]
      rfl
    refine ⟨self.claimed { self.mothers k with claimed := (self.mothers k).claimed + size }
      ⟨self.issued.length, k, (self.mothers k).claimed, size⟩, ?_, hknown henough, [],
      h.claimed rfl rfl rfl ?_ hsize henough⟩
    · unfold MotherSocket.claimOrQueue
      rw [Mother.claim_some henough hallocated.le]
    · refine ⟨hc.closed, trivial, hallocated.symm, ?_, hc.filled_le, hc.allocated_le, by simp⟩
      unfold Mother.overhang at henough
      simp only
      omega
  · rw [Nat.not_le] at henough
    refine ⟨_, ?_, rfl, _, h.queued hsize henough⟩
    unfold MotherSocket.claimOrQueue
    rw [Mother.claim_none henough]

theorem Delivers.cases (h : Delivers self) : (Idle self ∧ self.reads = []) ∨
      ∃ outputs k, Reading self outputs self.reads k 0 ∧ self.mother = some k := by
  rcases h with h | ⟨outputs, reads, k, h, hknown⟩
  · obtain ⟨outputs, hlisted⟩ := h.listed
    have hnone : self.requestList = replicate outputs .write ++ [].map StreamRequest.read := by
      rw [hlisted, map_nil, append_nil]
    exact .inl ⟨h, reads_listed hnone⟩
  · rw [reads_listed h.listed]
    exact .inr ⟨outputs, k, h, hknown⟩

theorem Laid.head_mother (h : Laid k start requests) :
    ∀ request ∈ requests.head?, request.mother = k := by
  intro request hrequest
  cases requests with
  | nil => cases hrequest
  | cons first requests =>
    cases hrequest
    exact h.1.1

theorem Delivers.readMother (h : Delivers self) (hlegal : self.Legal (.read size))
    (honce : self.CountsOnce (.read size)) :
    ∃ next, self.readMother size = some next ∧ Delivers next := by
  obtain ⟨hpos, hsize⟩ := hlegal
  have hsmall : ¬iprBucketMaxSize < size := by
    unfold iprBucketMaxSize
    unfold iprMotherBucketSize at hsize
    omega
  have hbegun : ∃ outputs k, Reading self.begun outputs self.reads k 0 ∧
      self.begun.mother = some k ∧ ∀ request ∈ self.reads.head?,
        (self.begun.mothers k).overhang < size ∧
          (self.begun.mothers k).allocated + size ≤ iprMotherBucketSize := by
    rcases h.cases with ⟨hidle, hreads⟩ | ⟨outputs, k, hreading, hknown⟩
    · obtain ⟨outputs, hbegun, hknown⟩ := hidle.begun
      rw [hreads]
      exact ⟨outputs, 0, hbegun, hknown, by simp⟩
    · rw [begun_of_mother hknown]
      refine ⟨outputs, k, hreading, hknown, fun request hrequest => ?_⟩
      have hrequest' := honce request hrequest
      rwa [hreading.counted.laid.head_mother request hrequest] at hrequest'
  obtain ⟨outputs, k, hreading, hknown, honce⟩ := hbegun
  obtain ⟨space, k', hallocate, hspace, hmother, hsame, honce⟩ := hreading.allocate hsize honce
  obtain ⟨next, hnext, hknown', reads', hreading'⟩ := hspace.claimOrQueue hpos (by
    intro henough
    rcases hsame with rfl | hless
    · rw [hmother, hknown]
    · omega) honce
  refine ⟨next, ?_, .inr ⟨outputs, reads', k', hreading', hknown'⟩⟩
  unfold MotherSocket.readMother
  rw [if_neg hsmall, hknown]
  simp only
  rw [hallocate]
  exact hnext

/-! ## Octets -/

@[simp] theorem setMother_setMother (self : MotherSocket) (k : Nat) (mother mother' : Mother) :
    (self.setMother k mother).setMother k mother' = self.setMother k mother' := by
  simp [setMother]

theorem Reading.stream_fill (h : Reading self outputs reads k spare) (octets : List UInt8)
    (hdata : mother.data = writeBlock (self.mothers k).data (self.mothers k).filled octets)
    (hclaimed : mother.claimed = (self.mothers k).claimed)
    (hfilled : mother.filled = (self.mothers k).filled + octets.length) :
    self.slaves.flatMap (self.setMother k mother).octetsOf ++
      readBlock mother.data mother.claimed mother.overhang = self.received ++ octets := by
  have hle := h.counted.claimed_le
  have hplace : (self.mothers k).claimed + (self.mothers k).overhang = (self.mothers k).filled :=
    Nat.add_sub_cancel' hle
  have hoverhang : mother.overhang = (self.mothers k).overhang + octets.length := by
    unfold Mother.overhang
    omega
  have hslaves : ∀ slave ∈ self.slaves,
      (self.setMother k mother).octetsOf slave = self.octetsOf slave := by
    intro slave hslave
    by_cases hk : slave.mother = k
    · have hpast := h.past slave hslave
      have hmother : (self.setMother k mother).mothers slave.mother = mother := by
        rw [hk, setMother_self]
      rw [octetsOf, octetsOf, hmother, hdata, readBlock_writeBlock_of_le (by omega), hk]
    · refine octetsOf_congr fun i _ => ?_
      exact congrArg (fun m : Mother => m.data _) (update_of_ne hk _ _)
  rw [flatMap_octetsOf_congr hslaves, hoverhang, readBlock_add, hclaimed, hplace, hdata,
    readBlock_writeBlock_of_le hplace.le, readBlock_writeBlock, ← append_assoc, h.stream]

theorem Laid.drop (h : Laid k start requests) (n : Nat) :
    Laid k (start + total (requests.take n)) (requests.drop n) := by
  induction requests generalizing start n with
  | nil => simp [Laid]
  | cons request requests ih =>
    cases n with
    | zero => exact h
    | succ n =>
      rw [take_succ_cons, drop_succ_cons, total_cons, ← Nat.add_assoc]
      exact ih h.2 n

theorem Laid.take (h : Laid k start requests) (n : Nat) : Laid k start (requests.take n) := by
  induction requests generalizing start n with
  | nil => simp [Laid]
  | cons request requests ih =>
    cases n with
    | zero => trivial
    | succ n => exact ⟨h.1, ih h.2 n⟩

theorem Laid.restart (h : Laid k start requests) {n : Nat}
    (hn : ∀ request ∈ requests.head?, n ≤ request.size) : Laid k start (restart n requests) := by
  cases requests with
  | nil => trivial
  | cons request requests =>
    obtain ⟨⟨hmother, hbuffer, hsize, -⟩, hrest⟩ := h
    exact ⟨⟨hmother, hbuffer, hsize, hn request rfl⟩, hrest⟩

theorem Laid.slave_le (h : Laid k start requests) : ∀ request ∈ requests, request.mother = k ∧
      request.buffer + request.size ≤ start + total requests := by
  induction requests generalizing start with
  | nil => simp
  | cons first requests ih =>
    obtain ⟨⟨hmother, hbuffer, -⟩, hrest⟩ := h
    intro request hrequest
    rw [total_cons]
    rcases mem_cons.mp hrequest with rfl | hrequest
    · exact ⟨hmother, by omega⟩
    · have := ih hrest request hrequest
      omega

theorem map_restart {α : Type*} (f : MotherRequest → α) (n : Nat) (requests : List MotherRequest)
    (hf : ∀ request : MotherRequest, f { request with curSize := n } = f request) :
    (restart n requests).map f = requests.map f := by
  cases requests with
  | nil => rfl
  | cons request requests => rw [MotherSocket.restart, map_cons, map_cons, hf]

theorem total_restart (n : Nat) (requests : List MotherRequest) :
    total (restart n requests) = total requests := by
  rw [total, map_restart MotherRequest.size _ _ fun _ => rfl, total]

theorem total_take_add_drop (requests : List MotherRequest) (n : Nat) :
    total (requests.take n) + total (requests.drop n) = total requests := by
  rw [← total_append, take_append_drop]

/-- The requests that are answered, and the first of the others with what there is for it -/
def answered (self : MotherSocket) (mother : Mother) (outputs k n : Nat) (octets : List UInt8)
    (reads : List MotherRequest) : MotherSocket :=
  { self.setMother k { mother with claimed := mother.claimed + total (reads.take n) } with
    requestList := replicate outputs .write ++
      (restart (mother.overhang - total (reads.take n)) (reads.drop n)).map .read,
    slaves := self.slaves ++ (reads.take n).map MotherRequest.slave,
    received := self.received ++ octets }

def filledWith (mother : Mother) (octets : List UInt8) : Mother :=
  { mother with
    filled := mother.filled + octets.length,
    data := writeBlock mother.data mother.filled octets }

theorem slave_number : Slave.number ∘ MotherRequest.slave = MotherRequest.number := rfl

theorem slave_size : Slave.size ∘ MotherRequest.slave = MotherRequest.size := rfl

variable {octets : List UInt8}

/-- The reads that the octets are enough for are answered, and the others go on. -/
theorem Reading.answered {n : Nat}
    {result : Option (Mother × List Slave × List StreamRequest)}
    (h : Reading self outputs reads k 0)
    (hroom : (self.mothers k).filled + octets.length ≤ iprMotherBucketSize)
    (hserves : Serves k (filledWith (self.mothers k) octets) reads result n) :
    Reading (self.answered (filledWith (self.mothers k) octets) outputs k n octets reads) outputs
      (restart ((filledWith (self.mothers k) octets).overhang - total (reads.take n))
        (reads.drop n)) k 0 := by
  have hc := h.counted
  have hle := hc.claimed_le
  have hallocated : (self.mothers k).allocated = (self.mothers k).claimed + total reads :=
    hc.allocated
  have henough := hserves.enough
  have hoverhang : (filledWith (self.mothers k) octets).overhang =
      (self.mothers k).filled + octets.length - (self.mothers k).claimed := rfl
  have hmother : (self.answered (filledWith (self.mothers k) octets) outputs k n octets
      reads).mothers k = { filledWith (self.mothers k) octets with
        claimed := (self.mothers k).claimed + total (reads.take n) } := setMother_self _ _ _
  constructor
  case listed => rfl
  case made => exact h.made
  case counted =>
    rw [hmother]
    refine ⟨hc.closed, ?_, ?_, ?_, hroom, hc.allocated_le, ?_⟩
    · refine (hc.laid.drop n).restart fun request hrequest => ?_
      have := hserves.next request hrequest
      omega
    · show (self.mothers k).allocated =
        (self.mothers k).claimed + total (reads.take n) + total (restart _ _) + 0
      rw [hallocated, ← total_take_add_drop reads n, total_restart, Nat.add_zero, Nat.add_assoc]
    · show (self.mothers k).claimed + total (reads.take n) ≤ (self.mothers k).filled + octets.length
      omega
    · intro request hrequest
      cases hdrop : reads.drop n with
      | nil =>
        rw [hdrop] at hrequest
        cases hrequest
      | cons first rest =>
        rw [hdrop] at hrequest
        cases hrequest
        have hnext := hserves.next first (by rw [hdrop]; rfl)
        refine ⟨Nat.sub_sub _ _ _, ?_⟩
        show (self.mothers k).filled + octets.length -
          ((self.mothers k).claimed + total (reads.take n)) < first.size
        omega
  case numbers =>
    show (self.slaves ++ _).map Slave.number ++ _ = _
    rw [map_restart MotherRequest.number _ _ fun _ => rfl, map_append, map_map,
      append_assoc, slave_number, ← map_append, take_append_drop]
    exact h.numbers
  case sizes =>
    show (self.slaves ++ _).map Slave.size ++ _ = _
    rw [map_restart MotherRequest.size _ _ fun _ => rfl, map_append, map_map,
      append_assoc, slave_size, ← map_append, take_append_drop]
    exact h.sizes
  case past =>
    rw [hmother]
    show ∀ slave ∈ self.slaves ++ _, _ ∨ _ ∧ _ ≤ (self.mothers k).claimed + total (reads.take n)
    intro slave hslave
    rcases mem_append.mp hslave with hslave | hslave
    · have := h.past slave hslave
      omega
    · obtain ⟨request, hrequest, rfl⟩ := mem_map.mp hslave
      exact .inr ((hc.laid.take n).slave_le request hrequest)
  case stream =>
    rw [hmother]
    have hfill := @Reading.stream_fill self k (filledWith (self.mothers k) octets) outputs 0 reads h
      octets rfl rfl rfl
    show _ = self.received ++ octets
    rw [← hfill]
    have hstream := @stream_answer (self.setMother k (filledWith (self.mothers k) octets)) k
      { filledWith (self.mothers k) octets with
        claimed := (self.mothers k).claimed + total (reads.take n) } (reads.take n)
    rw [setMother_self, setMother_setMother] at hstream
    exact hstream (hc.laid.take n) rfl rfl rfl henough

theorem Reading.receive (h : Reading self outputs (request :: reads) k 0)
    (hroom : octets.length ≤ (self.mothers k).unfilled)
    (honce : (∀ r ∈ request :: reads, r.curSize = 0) ∨
      total (request :: reads) ≤ (self.mothers k).overhang + octets.length) :
    ∃ next reads', self.readData octets = some next ∧ Reading next outputs reads' k 0 ∧
      next.mother = self.mother := by
  have hc := h.counted
  obtain ⟨⟨hmother, hbuffer, -, -⟩, -⟩ := hc.laid
  obtain ⟨hcur, hless⟩ := hc.waits request rfl
  have hclaimed := hc.claimed_le
  have hfilled := hc.filled_le
  have hunfilled : (self.mothers k).unfilled = iprMotherBucketSize - (self.mothers k).filled := by
    unfold Mother.unfilled
    rw [hc.closed]
    rfl
  have hplace : request.buffer + request.curSize = (self.mothers k).filled := by
    rw [hbuffer, hcur]
    exact Nat.add_sub_cancel' hclaimed
  rw [hunfilled] at hroom
  have hoverhang : (filledWith (self.mothers k) octets).overhang =
      (self.mothers k).overhang + octets.length := by
    unfold filledWith Mother.overhang
    simp only
    omega
  obtain ⟨n, hserves⟩ := @exists_serves k (filledWith (self.mothers k) octets).overhang
    (filledWith (self.mothers k) octets) (request :: reads) hc.laid hc.allocated (by
      rcases honce with hzero | hall
      · exact .inl ⟨hzero, rfl⟩
      · refine .inr ⟨hoverhang ▸ hall, ?_⟩
        rw [hoverhang]
        exact hall.trans (Nat.le_add_right _ _))
  refine ⟨_, _, ?_, h.answered (by omega) hserves, rfl⟩
  unfold readData
  rw [h.listed, dropWhile_isWrite, takeWhile_isWrite, map_cons]
  simp only
  rw [hmother, hplace, if_neg (by omega), Mother.fill_open hc.closed (by omega)]
  have hresult := hserves.result
  rw [map_cons] at hresult
  show (serve k _ _ (filledWith (self.mothers k) octets)).map _ = _
  have hopen : ({ self.mothers k with filled := (self.mothers k).filled + octets.length } :
      Mother).overhang = (filledWith (self.mothers k) octets).overhang := rfl
  rw [hopen, hresult]
  rfl

/-! ## Runs -/

theorem Delivers.readData (h : Delivers self)
    (hlegal : self.Legal (.receive octets)) (honce : self.CountsOnce (.receive octets)) :
    ∃ next, self.readData octets = some next ∧ Delivers next := by
  have hquiet : self.requestList.dropWhile StreamRequest.isWrite = [] →
      ∃ next, self.readData octets = some next ∧ Delivers next := by
    intro hnone
    refine ⟨self, ?_, h⟩
    unfold MotherSocket.readData
    rw [hnone]
  rcases h.cases with ⟨hidle, -⟩ | ⟨outputs, k, hreading, hknown⟩
  · obtain ⟨outputs, hlisted⟩ := hidle.listed
    apply hquiet
    rw [hlisted]
    simp [StreamRequest.isWrite]
  · cases hreads : self.reads with
    | nil =>
      apply hquiet
      have hlisted := hreading.listed
      rw [hreads] at hlisted
      rw [hlisted, dropWhile_isWrite]
      rfl
    | cons request reads =>
      obtain ⟨-, hroom⟩ := hlegal
      unfold CountsOnce at honce
      rw [hreads] at hreading hroom honce
      obtain ⟨⟨hmother, -⟩, -⟩ := hreading.counted.laid
      have hroom := hroom request rfl
      rw [hmother] at hroom
      obtain ⟨next, reads', hnext, hreading', hknown'⟩ := hreading.receive hroom (by
        rcases honce with hzero | hall
        · exact .inl hzero
        · exact .inr (hmother ▸ hall request rfl))
      exact ⟨next, hnext, .inr ⟨outputs, reads', k, hreading', hknown'.trans hknown⟩⟩

/-- A legal event that is counted once can be taken, and the reads are delivered. -/
theorem delivers_step {event : Event} (h : Delivers self) (hlegal : self.Legal event)
    (honce : self.CountsOnce event) : ∃ next, self.step event = some next ∧ Delivers next := by
  cases event with
  | read size => exact h.readMother hlegal honce
  | write => exact ⟨_, rfl, h.write⟩
  | written => exact ⟨_, rfl, h.written⟩
  | receive octets => exact h.readData hlegal honce

/-- The slaves hold the octets of the stream in order, each as many as were asked for. -/
structure InStream (socket : MotherSocket) : Prop where
  numbers : socket.slaves.map Slave.number = range socket.slaves.length
  sizes : (socket.slaves.map fun slave => (socket.octetsOf slave).length) =
    socket.issued.take socket.slaves.length
  octets : socket.slaves.flatMap socket.octetsOf <+: socket.received
  /-- the next request waits for octets that have not been received -/
  next : ∀ size ∈ socket.issued[socket.slaves.length]?,
    socket.received.length < (socket.slaves.flatMap socket.octetsOf).length + size

theorem Delivers.inStream (h : Delivers self) : InStream self := by
  rcases h with h | ⟨outputs, reads, k, h, -⟩
  · constructor <;> simp [h.slaves, h.issued, h.received]
  · have hsize : (fun slave => (self.octetsOf slave).length) = Slave.size :=
      funext fun slave => length_readBlock _ _ _
    have hlength : (self.slaves.map Slave.size).length = self.slaves.length := length_map _
    have hissued : self.slaves.length ≤ self.issued.length := by
      rw [← h.sizes, length_append, hlength]
      exact Nat.le_add_right _ _
    refine ⟨?_, ?_, ⟨_, h.stream⟩, ?_⟩
    · have hnumbers := congrArg (take self.slaves.length) h.numbers
      rw [take_left' (length_map _), take_range, Nat.min_eq_left hissued] at hnumbers
      exact hnumbers
    · rw [hsize, ← h.sizes, take_left' hlength]
    · intro size hsize'
      rw [← h.sizes, getElem?_append_right hlength.le, hlength, Nat.sub_self] at hsize'
      rw [← h.stream, length_append, length_readBlock]
      refine Nat.add_lt_add_left ?_ _
      cases reads with
      | nil => cases hsize'
      | cons request reads =>
        cases hsize'
        exact (h.counted.waits request rfl).2

/--
Requests of any sizes that fit the mother are made, one after another or several at a time, and what
is asked for comes in as the network likes. As long as no octet is counted twice, no assertion
fails, nothing is written outside of the data of a mother, and the slaves are the next octets of
the stream.
-/
theorem read_mother_delivers (events : List Event)
    (h : Along step (fun socket event => socket.Legal event ∧ socket.CountsOnce event) {} events) :
    ∃ socket, run step {} events = some socket ∧ InStream socket := by
  obtain ⟨socket, hrun, hsocket⟩ := run_progress (I := fun _ => Delivers)
    (fun _ s e hs hok => delivers_step hs hok.1 hok.2) [] (.inl idle_new) h
  exact ⟨socket, hrun, hsocket.inStream⟩

instance decidableLegal (self : MotherSocket) (event : Event) : Decidable (self.Legal event) :=
  match event with
  | .read _ => inferInstanceAs (Decidable (_ ∧ _))
  | .receive octets => inferInstanceAs (Decidable (octets ≠ [] ∧ ∀ request ∈ self.reads.head?, _))
  | .write | .written => isTrue trivial

instance decidableCountsOnce (self : MotherSocket) (event : Event) :
    Decidable (self.CountsOnce event) :=
  match event with
  | .read _ => inferInstanceAs (Decidable (∀ request ∈ self.reads.head?, _))
  | .receive _ =>
    inferInstanceAs (Decidable ((∀ request ∈ self.reads, _) ∨ ∀ request ∈ self.reads.head?, _))
  | .write | .written => isTrue trivial

/-- One octet too many comes in with the first request, and is the first of the second. -/
theorem read_mother_delivers_sample :
    ∃ socket, run step {} [.read 3, .write, .receive [1, 2, 3, 4], .read 2, .receive [5],
      .written] =
      some socket ∧ InStream socket :=
  read_mother_delivers _ (by decide)

/-- A request for three octets, which come in one by one: the second counts the first once more. -/
theorem octets_one_by_one_fail : Along step Legal {} [.read 3, .receive [1], .receive [2]] ∧
      run step {} [.read 3, .receive [1], .receive [2]] = none := by
  refine ⟨by decide, rfl⟩

end MotherSocket

end OpenAmq
