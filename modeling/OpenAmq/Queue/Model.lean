import Mathlib.Logic.Function.Basic
import OpenAmq.Icl

/-!
# Message queues

The `amq_queue_basic` class: contents waiting in a list, consumers served in turn, and the
limits of the queue. A queue runs in one thread, so an operation is not interrupted by
another operation of the same queue; the channels of its consumers run in others. A
`dispatch` is therefore taken turn by turn, and channels may change in between. One turn
(choosing a consumer, spending a credit, delivering) is one step.

* `publish`, `cancel`, `consumerAck`, `get`, `purge` — the operations
* `turn` — one turn of the loop of `amq_queue_basic_dispatch`
* `QueueSystem.step` — the machine, with what each step does to contents as its output
-/

namespace OpenAmq

/-! ## Data -/

/-- The id of an `amq_server_connection`. -/
abbrev ConnectionId := Nat

/-- The address of an `amq_server_channel`. -/
abbrev ChannelRef := Nat

/-- The address of an `amq_consumer`. -/
abbrev ConsumerRef := Nat

/--
The address of an `amq_queue`. The queue table holds one queue under each name, so the
address stands for the name as well.
-/
abbrev QueueRef := Nat

/-- `amq_content_basic` -/
structure Content where
  id : Nat
  producerId : ConnectionId
  bodySize : Nat
deriving DecidableEq

/-- `amq_consumer` -/
structure Consumer where
  channel : ChannelRef
  queue : QueueRef := 0
  tag : Shortstr := .empty
  noLocal : Bool := false
  noAck : Bool := false
  exclusive : Bool := false
  paused : Bool := false
  pendingContent : Option Content := none
deriving DecidableEq

/--
What queues read of an `amq_server_channel`.

A channel that is closing is a `zombie`. When it has been destroyed it has no connection.
-/
structure Channel where
  connection : Option ConnectionId
  zombie : Bool := false
  active : Bool := true
  credit : Nat := 0
deriving DecidableEq

/-- The objects that a queue shares with the threads of its channels. -/
structure Store where
  consumers : ConsumerRef → Consumer
  channels : ChannelRef → Channel

def Store.setConsumer (store : Store) (ref : ConsumerRef) (consumer : Consumer) : Store :=
  { store with consumers := Function.update store.consumers ref consumer }

def Store.setChannel (store : Store) (ref : ChannelRef) (channel : Channel) : Store :=
  { store with channels := Function.update store.channels ref channel }

/-- The configuration of the broker, as far as queues and channels read it. -/
structure Config where
  noAck : Bool := false
  privateCredit : Nat := 1024
  sharedCredit : Nat := 1

/-- What the thread of a queue is doing. -/
inductive QueueState where
  /-- waiting for the next request -/
  | idle
  /-- in the loop of a dispatch; `after` is the consumer that is being cancelled, if any -/
  | dispatching (after : Option ConsumerRef)
deriving DecidableEq

/-- `amq_queue_basic` with the limits and statistics of its `amq_queue`. A limit of 0 is none. -/
structure BasicQueue where
  exclusive : Bool := false
  warnLimit : Nat := 0
  dropLimit : Nat := 0
  trimLimit : Nat := 0
  killLimit : Nat := 0
  contentList : List Content := []
  consumerList : List ConsumerRef := []
  state : QueueState := .idle
  contentsIn : Nat := 0
  contentsOut : Nat := 0
  trafficIn : Nat := 0
  trafficOut : Nat := 0
  dropCount : Nat := 0
  deliveryTag : Nat := 0
  warned : Bool := false
  dropped : Bool := false
  trimmed : Bool := false
deriving DecidableEq

/-- What an operation does to a content or tells other objects. -/
inductive Output where
  /-- the content is put on the list -/
  | accepted (content : Content)
  /-- an immediate content goes back to the channel that published it, if there is one -/
  | returned (content : Content) (channel : Option ChannelRef)
  /-- the content is refused because of `drop_limit` -/
  | dropped (content : Content)
  /-- the content is taken off the list because of `trim_limit` -/
  | trimmed (content : Content)
  /-- the queue is to destroy itself because of `kill_limit` -/
  | selfDestruct
  /-- `basic.deliver`, with the consumer and the channel as the queue found them -/
  | delivered (ref : ConsumerRef) (consumer : Consumer) (channel : Channel) (content : Content)
      (deliveryTag : Nat) (held : Bool)
  /-- no consumer may have the content -/
  | discarded (content : Content)
  | acked (ref : ConsumerRef) (content : Content)
  /-- `basic.get-ok`, with the number of contents left -/
  | fetched (content : Content) (messageCount : Nat)
  | getEmpty
  | purged (content : Content)
  | attached (ref : ConsumerRef)
  | cancelled (ref : ConsumerRef)
deriving DecidableEq

/-- `amq_consumer_content_release` of what the consumer holds, and `content_hold` of `content`. -/
def Store.setPending (store : Store) (ref : ConsumerRef) (content : Option Content) : Store :=
  store.setConsumer ref { store.consumers ref with pendingContent := content }

/-- `amq_server_channel_spend` -/
def Store.spend (store : Store) (ref : ChannelRef) : Store :=
  let channel := store.channels ref
  if channel.zombie then store
  else store.setChannel ref { channel with credit := channel.credit - 1 }

/-! ## Choosing a consumer -/

/-- The test of `s_get_next_consumer`: may this consumer have a content of this producer? -/
def Store.takes (store : Store) (producerId : ConnectionId) (ref : ConsumerRef) : Bool :=
  let consumer := store.consumers ref
  let channel := store.channels consumer.channel
  match channel.connection with
  | none => false
  | some connection =>
    channel.active && decide (1 ≤ channel.credit) &&
      (!consumer.noLocal || decide (connection ≠ producerId))

/-- The result of `s_get_next_consumer`. -/
inductive NextConsumer where
  | found (ref : ConsumerRef)
  | none
  | busy
deriving DecidableEq

/--
The loop of `s_get_next_consumer`, from the return code so far.

A consumer that may not have the content because of `no_local` leaves the return code as
the consumers before it have set it.
-/
def getNextConsumer (store : Store) (producerId : ConnectionId) :
    (rc : NextConsumer) → List ConsumerRef → NextConsumer
  | rc, [] => rc
  | rc, ref :: refs =>
    let consumer := store.consumers ref
    let channel := store.channels consumer.channel
    match channel.connection with
    | .none => getNextConsumer store producerId .busy refs
    | .some connection =>
      if channel.active then
        if channel.credit < 1 then getNextConsumer store producerId .busy refs
        else if consumer.noLocal then
          if connection ≠ producerId then .found ref
          else getNextConsumer store producerId rc refs
        else .found ref
      else getNextConsumer store producerId .busy refs

/-- The consumer is neither paused nor holds a content. -/
def Store.free (store : Store) (ref : ConsumerRef) : Bool :=
  !(store.consumers ref).paused && (store.consumers ref).pendingContent.isNone

namespace BasicQueue

/-- `ipr_looseref_push` on the list of contents -/
def push (self : BasicQueue) (content : Content) : BasicQueue :=
  { self with contentList := content :: self.contentList }

/-- `ipr_looseref_pop` on the list of contents -/
def pop (self : BasicQueue) : BasicQueue := { self with contentList := self.contentList.tail }

def haveActiveConsumers (self : BasicQueue) (store : Store) : Bool :=
  self.consumerList.any store.free

/-- Does a content that is delivered to this consumer have to be acknowledged? -/
def holds (self : BasicQueue) (config : Config) (consumer : Consumer) : Bool :=
  !self.exclusive && !consumer.noAck && !config.noAck

/-! ## Dispatching -/

/-- The end of a dispatch; a consumer that was being cancelled is destroyed. -/
def finish (self : BasicQueue) (store : Store) :
    Option ConsumerRef → BasicQueue × Store × List Output
  | none => ({ self with state := .idle }, store, [])
  | some ref =>
    ({ self with state := .idle, consumerList := self.consumerList.erase ref },
      store.setPending ref none, [.cancelled ref])

/-- `amq_queue_basic_dispatch` up to its loop, which is not entered without active consumers. -/
def dispatch (self : BasicQueue) (store : Store) (after : Option ConsumerRef) :
    BasicQueue × Store × List Output :=
  if self.haveActiveConsumers store then ({ self with state := .dispatching after }, store, [])
  else self.finish store after

/-- Delivers the content to the consumer, which then goes to the end of the list. -/
def deliver (config : Config) (self : BasicQueue) (store : Store) (content : Content)
    (ref : ConsumerRef) : BasicQueue × Store × List Output :=
  let consumer := store.consumers ref
  let channel := store.channels consumer.channel
  let held := self.holds config consumer
  let store := store.spend consumer.channel
  let store := if held then store.setPending ref (some content) else store
  ({ self with
      contentsOut := self.contentsOut + 1
      trafficOut := self.trafficOut + content.bodySize
      deliveryTag := self.deliveryTag + 1
      consumerList := self.consumerList.erase ref ++ [ref] },
    store, [.delivered ref consumer channel content (self.deliveryTag + 1) held])

/-- One turn of the loop of `amq_queue_basic_dispatch`. -/
def turn (config : Config) (self : BasicQueue) (store : Store) (after : Option ConsumerRef) :
    BasicQueue × Store × List Output :=
  match self.contentList with
  | [] => self.finish store after
  | content :: _ =>
    match getNextConsumer store content.producerId .none self.consumerList with
    | .found ref => deliver config self.pop store content ref
    -- the content is pushed back, and the loop is left
    | .busy => self.finish store after
    | .none => (self.pop, store, [.discarded content])

/-! ## Operations -/

/-- The limits: the queue and the content that is left to accept. -/
def applyLimits (self : BasicQueue) (content : Content) :
    BasicQueue × Option Content × List Output :=
  let queueSize := self.contentList.length
  let self := { self with
    warned := self.warned || decide (self.warnLimit ≠ 0 ∧ self.warnLimit ≤ queueSize) }
  if self.dropLimit ≠ 0 ∧ self.dropLimit ≤ queueSize then
    ({ self with dropped := true, dropCount := self.dropCount + 1 }, none, [.dropped content])
  else if self.trimLimit ≠ 0 ∧ self.trimLimit ≤ queueSize then
    ({ self.pop with trimmed := true, dropCount := self.dropCount + 1 },
      some content, (self.contentList.take 1).map .trimmed)
  else if self.killLimit ≠ 0 ∧ self.killLimit ≤ queueSize then
    -- the link to the connection has been dropped by now, so the queue goes in either case
    (self, some content, [.selfDestruct])
  else if queueSize = 0 then
    ({ self with warned := false, dropped := false, trimmed := false }, some content, [])
  else (self, some content, [])

/-- The content that is left is accepted, unless it is immediate and no consumer is active. -/
def accept (self : BasicQueue) (store : Store) (channel : Option ChannelRef) (immediate : Bool) :
    Option Content → BasicQueue × List Output
  | none => (self, [])
  | some content =>
    if immediate && !self.haveActiveConsumers store then (self, [.returned content channel])
    else ({ self with contentList := self.contentList ++ [content] }, [.accepted content])

/-- `amq_queue_basic_publish` up to the dispatch at its end. -/
def receive (self : BasicQueue) (store : Store) (channel : Option ChannelRef) (content : Content)
    (immediate : Bool) : BasicQueue × List Output :=
  let self := { self with
    contentsIn := self.contentsIn + 1, trafficIn := self.trafficIn + content.bodySize }
  let limited := self.applyLimits content
  let accepted := limited.1.accept store channel immediate limited.2.1
  (accepted.1, limited.2.2 ++ accepted.2)

/-- `amq_queue_basic_publish` -/
def publish (self : BasicQueue) (store : Store) (channel : Option ChannelRef) (content : Content)
    (immediate : Bool) : BasicQueue × Store × List Output :=
  let received := self.receive store channel content immediate
  let dispatched := received.1.dispatch store none
  (dispatched.1, dispatched.2.1, received.2 ++ dispatched.2.2)

/-- `amq_queue_basic_consume`: a consumer that is on the list already goes to its end. -/
def consume (self : BasicQueue) (ref : ConsumerRef) : BasicQueue × List Output :=
  ({ self with consumerList := self.consumerList.erase ref ++ [ref] }, [.attached ref])

/--
`amq_queue_basic_cancel`

A content that the consumer holds goes back to the front of the list. The consumer is still
on the list of consumers, and still holds the content, while the queue dispatches.
-/
def cancel (self : BasicQueue) (store : Store) (ref : ConsumerRef) :
    BasicQueue × Store × List Output :=
  match (store.consumers ref).pendingContent with
  | some content => (self.push content).dispatch store (some ref)
  | none => self.finish store (some ref)

/-- `amq_queue_basic_consumer_ack` -/
def consumerAck (self : BasicQueue) (store : Store) (ref : ConsumerRef) :
    BasicQueue × Store × List Output :=
  match (store.consumers ref).pendingContent with
  | some content =>
    let dispatched := self.dispatch (store.setPending ref none) none
    (dispatched.1, dispatched.2.1, .acked ref content :: dispatched.2.2)
  | none => (self, store, [])

/-- `amq_queue_basic_get`: the content is taken off the list whether or not it can be sent. -/
def get (self : BasicQueue) (store : Store) (channel : Option ChannelRef) :
    BasicQueue × List Output :=
  let connection := channel.bind fun ref => (store.channels ref).connection
  (self.pop,
    match connection, self.contentList with
    | none, _ => []
    | some _, [] => [.getEmpty]
    | some _, content :: contents => [.fetched content contents.length])

/-- `amq_queue_basic_purge` -/
def purge (self : BasicQueue) : BasicQueue × List Output :=
  ({ self with contentList := [] }, self.contentList.map .purged)

end BasicQueue

/-! ## The machine -/

/-- What happens to a queue, and to the objects it shares with other threads. -/
inductive QueueEvent where
  | publish (channel : Option ChannelRef) (content : Content) (immediate : Bool)
  | dispatch
  | turn
  /-- a consumer that is new, or has been cancelled before -/
  | consume (ref : ConsumerRef) (consumer : Consumer)
  | cancel (ref : ConsumerRef)
  | consumerAck (ref : ConsumerRef)
  | get (channel : Option ChannelRef)
  | purge
  /-- another thread changes a channel: flow, credit, closing -/
  | setChannel (ref : ChannelRef) (channel : Channel)
  /-- another thread pauses or resumes a consumer -/
  | setPaused (ref : ConsumerRef) (paused : Bool)
deriving DecidableEq

/-- A queue with the objects it uses. -/
structure QueueSystem where
  queue : BasicQueue := {}
  store : Store

namespace QueueSystem

/-- The requests of the queue, which it takes when it is idle. -/
def request (self : QueueSystem) : QueueEvent → Option (BasicQueue × Store × List Output)
  | .publish channel content immediate =>
    some (self.queue.publish self.store channel content immediate)
  | .dispatch => some (self.queue.dispatch self.store none)
  | .consume ref consumer =>
    if ref ∈ self.queue.consumerList then none
    else
      let attached := self.queue.consume ref
      some (attached.1, self.store.setConsumer ref { consumer with pendingContent := none },
        attached.2)
  | .cancel ref => some (self.queue.cancel self.store ref)
  | .consumerAck ref => some (self.queue.consumerAck self.store ref)
  | .get channel =>
    let fetched := self.queue.get self.store channel
    some (fetched.1, self.store, fetched.2)
  | .purge => some (self.queue.purge.1, self.store, self.queue.purge.2)
  | _ => none

def step (config : Config) (self : QueueSystem) (event : QueueEvent) :
    Option (QueueSystem × List Output) :=
  match event with
  | .setChannel ref channel =>
    some (⟨self.queue, self.store.setChannel ref channel⟩, [])
  | .setPaused ref paused =>
    some (⟨self.queue, self.store.setConsumer ref { self.store.consumers ref with paused }⟩, [])
  | .turn =>
    match self.queue.state with
    | .idle => none
    | .dispatching after =>
      let turned := self.queue.turn config self.store after
      some (⟨turned.1, turned.2.1⟩, turned.2.2)
  | event =>
    if self.queue.state = .idle then
      (self.request event).map fun r => (⟨r.1, r.2.1⟩, r.2.2)
    else none

end QueueSystem

end OpenAmq
