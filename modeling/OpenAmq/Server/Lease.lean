import OpenAmq.Server.Model

/-!
# Direct leases

A client may ask for a lease on an exchange or a queue, and then open a second connection that
shows this lease and carries contents only.

* `LeaseServer` — the server with its leases
* `LeaseServer.leaseNew`, `destroy`, `acquire` — the life of a lease
* `LeaseServer.step` — one of these, or a step of the server

A lease has links to its queue, its channel and its connection, which stay in memory as long as
the lease does.
-/

namespace OpenAmq

open Function

def amqServerDirect : Nat := 61500

def amqServerDirectPut : Nat := 10

def amqServerDirectGet : Nat := 20

/-- `DP_SINK` and `DP_FEED` -/
inductive LeaseType where
  | sink
  | feed
deriving DecidableEq

/-- The address of an `amq_lease`. -/
abbrev LeaseRef := Nat

abbrev ThreadRef := Nat

/-- An `amq_lease`. A `zombie` has been destroyed. -/
structure Lease where
  type : LeaseType
  connection : ConnectionId
  channel : ChannelRef
  name : Shortstr := .empty
  /-- by which the lease has been acquired -/
  thread : Option ThreadRef := none
  sink : Option ExchangeRef := none
  feed : Option QueueRef := none
  zombie : Bool := false
deriving DecidableEq

/-- What is sent to the client of a lease, apart from what the server sends anyway. -/
inductive LeaseAnswer where
  | server (answer : Answer)
  | directPutOk (channel : ChannelRef) (lease : Shortstr)
  | directGetOk (channel : ChannelRef) (lease : Shortstr)
  | ready (thread : ThreadRef) (lease : LeaseRef) (response : Str)
  | badLease (thread : ThreadRef) (response : Str)
deriving DecidableEq

/-- The client gets what it has asked for. -/
def LeaseAnswer.granted : LeaseAnswer → Bool
  | .directPutOk _ _ | .directGetOk _ _ | .ready _ _ _ => true
  | .server _ | .badLease _ _ => false

def LeaseAnswer.acquired? : LeaseAnswer → Option LeaseRef
  | .ready _ lease _ => some lease
  | _ => none

/-- `%08X` -/
def formatHex (n : Nat) : Str :=
  ((Nat.toDigits 16 n).map Char.toUpper).leftpad 8 '0'

/-- The name of a lease, from the time in microseconds and the name of its exchange or queue. -/
def leaseName (initial : Char) (timeNow : UInt64) (name : Shortstr) : Shortstr :=
  -- the formatter keeps the last place of the buffer free
  .ncpy (initial :: '-' :: (formatHex (timeNow.toNat / 4294967296) ++
    formatHex (timeNow.toNat % 4294967296) ++ '-' :: name.chars)) (shortstrMax - 1)

structure LeaseServer where
  server : Server
  /-- the field `lease` of a queue -/
  queueLease : QueueRef → Option LeaseRef := fun _ => none
  leases : LeaseRef → Lease := fun _ => ⟨.sink, 0, 0, .empty, none, none, none, true⟩
  leaseTable : Shortstr → Option LeaseRef := fun _ => none
  /-- the address of the next lease -/
  nextLease : LeaseRef := 0

inductive LeaseEvent where
  | server (event : ServerEvent)
  | directPut (channel : ChannelRef) (sink : Shortstr) (timeNow : UInt64)
  | directGet (channel : ChannelRef) (feed : Shortstr) (timeNow : UInt64)
  /-- a connection that has just been opened shows a lease -/
  | checkDirectLease (thread : ThreadRef) (request : Shortstr)
  | destroy (lease : LeaseRef)

/-- A client asks for something. -/
def LeaseEvent.isRequest : LeaseEvent → Bool
  | .directPut _ _ _ | .directGet _ _ _ | .checkDirectLease _ _ => true
  | .server _ | .destroy _ => false

namespace LeaseServer

/-- The body of the destructor: the queue forgets its lease, whichever that is. -/
def release (self : LeaseServer) (lease : Lease) : LeaseServer :=
  match lease.feed with
  | some queue => { self with queueLease := update self.queueLease queue none }
  | none => self

/-- The end of the constructor, which destroys the lease if there is one of that name. -/
def insert (self : LeaseServer) (lease : Lease) : LeaseServer × Option Lease :=
  if (self.leaseTable lease.name).isSome then (self.release lease, none)
  else
    ({ self with
        leases := update self.leases self.nextLease lease
        leaseTable := update self.leaseTable lease.name (some self.nextLease)
        nextLease := self.nextLease + 1 },
      some lease)

/-- `amq_lease_new` -/
def leaseNew (self : LeaseServer) (name : Shortstr) (type : LeaseType)
    (connection : ConnectionId) (channel : ChannelRef) (timeNow : UInt64) :
    LeaseServer × Option Lease :=
  let lease : Lease := { type, connection, channel }
  match type with
  | .sink =>
    match self.server.publishExchange name with
    | some sink =>
      self.insert { lease with
        sink := some sink
        name := leaseName 'S' timeNow (self.server.exchanges sink).name }
    | none => (self.release lease, none)
  | .feed =>
    match self.server.queueTable name with
    | some queue =>
      let lease := { lease with feed := some queue }
      -- only allow one lease per queue
      if self.queueLease queue = none then
        insert { self with
            queueLease := update self.queueLease queue (some self.nextLease) }
          { lease with name := leaseName 'F' timeNow (self.server.queueName queue) }
      else (self.release lease, none)
    | none => (self.release lease, none)

/-- `amq_lease_destroy` -/
def destroy (self : LeaseServer) (ref : LeaseRef) : LeaseServer :=
  let lease := self.leases ref
  if lease.zombie then self
  else
    { self.release lease with
      leases := update self.leases ref
        { lease with thread := none, sink := none, feed := none, zombie := true }
      leaseTable := update self.leaseTable lease.name none }

/-- `amq_lease_acquire`, whose result is zero or not. -/
def acquire (self : LeaseServer) (ref : LeaseRef) (thread : ThreadRef) : LeaseServer × Int :=
  let lease := self.leases ref
  if lease.zombie then (self, -1)
  else
    ({ self with leases := update self.leases ref { lease with thread := some thread } },
      if lease.thread.isSome then -1 else 0)

def directPut (self : LeaseServer) (connection : ConnectionId) (channel : ChannelRef)
    (sink : Shortstr) (timeNow : UInt64) : LeaseServer × List LeaseAnswer :=
  match self.leaseNew sink .sink connection channel timeNow with
  | (self, some lease) => (self, [.directPutOk channel lease.name])
  | (self, none) =>
    (self, (self.server.channelError channel aslNotFound "No such sink"
      amqServerDirect amqServerDirectPut).map .server)

def directGet (self : LeaseServer) (connection : ConnectionId) (channel : ChannelRef)
    (feed : Shortstr) (timeNow : UInt64) : LeaseServer × List LeaseAnswer :=
  match self.leaseNew feed .feed connection channel timeNow with
  | (self, some lease) => (self, [.directGetOk channel lease.name])
  | (self, none) =>
    (self, (self.server.channelError channel aslNotFound "No such feed"
      amqServerDirect amqServerDirectGet).map .server)

/-- The answer to a thread that has acquired a lease. -/
def readyText (self : LeaseServer) (lease : Lease) : Str :=
  match lease.type with
  | .sink =>
    "200 OK Sink '".toList ++
      (lease.sink.elim [] fun ref => (self.server.exchanges ref).name.chars) ++ "' ready".toList
  | .feed =>
    "200 OK Feed '".toList ++ (lease.feed.elim [] fun ref => (self.server.queueName ref).chars) ++
      "' ready".toList

/-- The action `check direct lease`. -/
def checkDirectLease (self : LeaseServer) (thread : ThreadRef) (request : Shortstr) :
    LeaseServer × List LeaseAnswer :=
  match self.leaseTable request with
  | some ref =>
    let acquired := self.acquire ref thread
    if acquired.2 ≠ 0 then
      (acquired.1, [.badLease thread "402 BAD-LEASE Lease already acquired".toList])
    else (acquired.1, [.ready thread ref (self.readyText (self.leases ref))])
  | none =>
    (self, [.badLease thread "402 BAD-LEASE Lease is not valid for this connection".toList])

def taking (self : LeaseServer) (channel : ChannelRef) : Option ConnectionId :=
  if (self.server.broker.store.channels channel).zombie then none
  else (self.server.broker.store.channels channel).connection

/-- One event, or `none` if it cannot happen. -/
def step (cfg : ServerConfig) (self : LeaseServer) :
    LeaseEvent → Option (LeaseServer × List LeaseAnswer)
  | .server event =>
    (self.server.step cfg event).map fun r => ({ self with server := r.1 }, r.2.map .server)
  | .directPut channel sink timeNow =>
    (self.taking channel).map fun connection => self.directPut connection channel sink timeNow
  | .directGet channel feed timeNow =>
    (self.taking channel).map fun connection => self.directGet connection channel feed timeNow
  | .checkDirectLease thread request => some (self.checkDirectLease thread request)
  | .destroy lease => some (self.destroy lease, [])

/-- A server that has not given out any leases. -/
def new (server : Server) : LeaseServer := { server }

/-- The state after a run, and the answers of all its steps. -/
def outcome (cfg : ServerConfig) (s : LeaseServer) (events : List LeaseEvent) :
    Option (LeaseServer × List LeaseAnswer) := Lib.run (Lib.logged (step cfg)) (s, []) events

end LeaseServer

end OpenAmq
