import OpenAmq.Asl
import OpenAmq.Queue.Model

/-!
# Channels and queues

Server channels and queues are objects with a thread each, which take requests from an inbox
in the order in which they were sent. A channel keeps the consumers it has created, a queue
keeps those it has accepted, and both lists are kept in step by messages.

* `Broker.flow`, `Broker.consume`, `Broker.ack`, `Broker.cancel`, `Broker.destroy` — the
  requests of a channel
* `Broker.queueConsume`, `Broker.queueCancel` — the requests of a queue about consumers
* `Broker.step` — one step of one thread
-/

namespace OpenAmq

/-! ## Messages -/

/-- `basic.consume` -/
structure ConsumeMethod where
  consumerTag : Shortstr := .empty
  noLocal : Bool := false
  noAck : Bool := false
  exclusive : Bool := false
  nowait : Bool := false
deriving DecidableEq

/-- The requests of an `amq_queue`. -/
inductive QueueMessage where
  | publish (channel : Option ChannelRef) (content : Content) (immediate : Bool)
  | dispatch
  | consume (ref : ConsumerRef) (active nowait : Bool)
  | cancel (ref : ConsumerRef) (notify nowait : Bool)
  | consumerAck (ref : ConsumerRef)
deriving DecidableEq

/-- The requests of an `amq_server_channel`. -/
inductive ChannelMessage where
  | flow (active : Bool)
  | consume (queue : QueueRef) (method : ConsumeMethod)
  | ack
  | cancel (tag : Shortstr) (sync nowait : Bool)
  | destroy
deriving DecidableEq

/-- What is sent to clients, or done to contents. -/
inductive Reply where
  | flowOk (channel : ChannelRef) (active : Bool)
  | consumeOk (channel : ChannelRef) (tag : Shortstr)
  | cancelOk (channel : ChannelRef) (tag : Shortstr)
  | channelError (channel : ChannelRef) (replyCode : Nat) (replyText : Str)
      (faultingClassId faultingMethodId : Nat)
  /-- the queue has no consumer any more, and is to destroy itself -/
  | autoDelete (queue : QueueRef)
  | output (queue : QueueRef) (out : Output)
deriving DecidableEq

def aslAccessRefused : Nat := 403

def aslResourceError : Nat := 506

def aslNotAllowed : Nat := 530

def amqServerBasic : Nat := 60

def amqServerBasicConsume : Nat := 20

/-! ## Objects -/

/-- `amq_queue` -/
structure ServerQueue where
  basic : BasicQueue := {}
  connection : Option ConnectionId := none
  autoDelete : Bool := false
  locked : Bool := false
  feedOn : Bool := false
  feedNoLocal : Bool := false
  inbox : List QueueMessage := []
deriving DecidableEq

/-- What an `amq_server_channel` does not share with queues. -/
structure ServerChannel where
  consumerList : List ConsumerRef := []
  inbox : List ChannelMessage := []
deriving DecidableEq

/-- `amq_server_connection` -/
structure ServerConnection where
  consumerTable : List ConsumerRef := []
  consumerTag : UInt32 := 0
deriving DecidableEq

/-- All objects of the broker. A consumer is created at the next address. -/
structure Broker where
  store : Store
  queues : QueueRef → ServerQueue
  channels : ChannelRef → ServerChannel := fun _ => {}
  connections : ConnectionId → ServerConnection := fun _ => {}
  nextConsumer : ConsumerRef := 0

namespace Broker

def setQueue (self : Broker) (ref : QueueRef) (queue : ServerQueue) : Broker :=
  { self with queues := Function.update self.queues ref queue }

def setServerChannel (self : Broker) (ref : ChannelRef) (channel : ServerChannel) : Broker :=
  { self with channels := Function.update self.channels ref channel }

def setConnection (self : Broker) (id : ConnectionId) (connection : ServerConnection) : Broker :=
  { self with connections := Function.update self.connections id connection }

/-- Sends a request to a queue. -/
def postQueue (self : Broker) (ref : QueueRef) (message : QueueMessage) : Broker :=
  self.setQueue ref { self.queues ref with inbox := (self.queues ref).inbox ++ [message] }

/-- Sends a request to a channel, which does not take any when it is closing. -/
def postChannel (self : Broker) (ref : ChannelRef) (message : ChannelMessage) : Broker :=
  if (self.store.channels ref).zombie then self
  else self.setServerChannel ref
    { self.channels ref with inbox := (self.channels ref).inbox ++ [message] }

/-- `amq_server_channel_error` -/
def channelError (self : Broker) (ref : ChannelRef) (replyCode : Nat) (replyText : Str)
    (faultingClassId faultingMethodId : Nat) : List Reply :=
  if (self.store.channels ref).zombie then []
  else [.channelError ref replyCode replyText faultingClassId faultingMethodId]

/-! ## Consumers -/

/-- `amq_consumer_table_search` -/
def searchConsumer (self : Broker) (connection : ConnectionId) (tag : Shortstr) :
    Option ConsumerRef :=
  (self.connections connection).consumerTable.find? fun ref =>
    decide ((self.store.consumers ref).tag = tag)

/-- The tag of a new consumer: the one that the client has chosen, or the next number. -/
def takeTag (connection : ServerConnection) (tag : Shortstr) : ServerConnection × Shortstr :=
  if tag = .empty then
    ({ connection with consumerTag := connection.consumerTag + 1 },
      .cpy (counterText connection.consumerTag))
  else (connection, tag)

def addConsumer (self : Broker) (id : ConnectionId) (connection : ServerConnection)
    (consumer : Consumer) : Broker :=
  { self.setConnection id
      { connection with consumerTable := connection.consumerTable ++ [self.nextConsumer] } with
    nextConsumer := self.nextConsumer + 1
    store := self.store.setConsumer self.nextConsumer consumer }

/-- `amq_consumer_new`, which fails when the connection has a consumer with that tag. -/
def newConsumer (self : Broker) (connection : ConnectionId) (channel : ChannelRef)
    (queue : QueueRef) (method : ConsumeMethod) : Broker × Option ConsumerRef :=
  let (parent, tag) := takeTag (self.connections connection) method.consumerTag
  if (self.searchConsumer connection tag).isSome then (self.setConnection connection parent, none)
  else
    (self.addConsumer connection parent
        { channel, queue, tag, noLocal := method.noLocal, noAck := method.noAck,
          exclusive := method.exclusive },
      some self.nextConsumer)

/-- `amq_consumer_destroy`, as far as the table of its connection is concerned. -/
def forget (self : Broker) (ref : ConsumerRef) : Broker :=
  { self with connections := fun id =>
      { self.connections id with consumerTable := (self.connections id).consumerTable.erase ref } }

/-! ## Requests of channels -/

/-- What `amq_server_channel_flow` does to one consumer and its queue. -/
def flowConsumer (active : Bool) (self : Broker) (ref : ConsumerRef) : Broker :=
  let consumer := self.store.consumers ref
  let self := { self with
    store := self.store.setConsumer ref { consumer with paused := !active } }
  let self := self.setQueue consumer.queue { self.queues consumer.queue with feedOn := active }
  if active then self.postQueue consumer.queue .dispatch else self

/-- `amq_server_channel_flow` -/
def flow (self : Broker) (ref : ChannelRef) (active : Bool) : Broker × List Reply :=
  let self := { self with
    store := self.store.setChannel ref { self.store.channels ref with active } }
  ((self.channels ref).consumerList.foldl (flowConsumer active) self, [.flowOk ref active])

/-- The credit that a channel has after it has created a consumer of the queue. -/
def initialCredit (config : Config) (queue : BasicQueue) : Nat :=
  let credit := if queue.exclusive then config.privateCredit else config.sharedCredit
  if credit = 0 then 1 else credit

/-- `amq_server_channel_consume` -/
def consume (config : Config) (self : Broker) (ref : ChannelRef) (connection : ConnectionId)
    (queue : QueueRef) (method : ConsumeMethod) : Broker × List Reply :=
  let found :=
    if method.consumerTag = .empty then none else self.searchConsumer connection method.consumerTag
  match found with
  | some consumer =>
    if (self.store.consumers consumer).queue = queue then
      (self, if method.nowait then [] else [.consumeOk ref (self.store.consumers consumer).tag])
    else
      (self, self.channelError ref aslNotAllowed "Consumer tag used on other queue".toList
        amqServerBasic amqServerBasicConsume)
  | none =>
    match self.newConsumer connection ref queue method with
    | (self, some consumer) =>
      let self := self.setServerChannel ref
        { self.channels ref with consumerList := (self.channels ref).consumerList ++ [consumer] }
      let channel := self.store.channels ref
      -- the credit is overwritten, whatever it was
      let self := { self with
        store := self.store.setChannel ref
          { channel with credit := initialCredit config (self.queues queue).basic } }
      (self.postQueue queue (.consume consumer channel.active method.nowait), [])
    | (self, none) =>
      (self, self.channelError ref aslResourceError "Unable to create consumer".toList
        amqServerBasic amqServerBasicConsume)

/-- `amq_server_channel_ack` -/
def ack (self : Broker) (ref : ChannelRef) : Broker :=
  (self.channels ref).consumerList.foldl
    (fun self consumer => self.postQueue (self.store.consumers consumer).queue
      (.consumerAck consumer))
    self

def byChannelRemove (self : Broker) (ref : ConsumerRef) : Broker :=
  let channel := (self.store.consumers ref).channel
  self.setServerChannel channel
    { self.channels channel with consumerList := (self.channels channel).consumerList.erase ref }

/-- `amq_server_channel_cancel` -/
def cancel (self : Broker) (ref : ChannelRef) (connection : ConnectionId) (tag : Shortstr)
    (sync nowait : Bool) : Option (Broker × List Reply) :=
  match self.searchConsumer connection tag with
  | some consumer =>
    let self := self.byChannelRemove consumer
    let queue := (self.store.consumers consumer).queue
    if sync then some (self.postQueue queue (.cancel consumer true nowait), [])
    -- the consumer must have been removed from its per-queue list
    else if consumer ∈ (self.queues queue).basic.consumerList then none
    else
      let self := self.forget consumer
      some ({ self with store := self.store.setPending consumer none }, [])
  | none => some (self, if sync then [.cancelOk ref tag] else [])

/-- The `destroy` action of `amq_server_channel`, after which it takes no more requests. -/
def destroy (self : Broker) (ref : ChannelRef) : Broker :=
  let consumers := (self.channels ref).consumerList
  let self := self.setServerChannel ref {}
  let self := { self with
    store := self.store.setChannel ref { self.store.channels ref with connection := none } }
  consumers.foldl (fun self consumer => self.postQueue (self.store.consumers consumer).queue
      (.cancel consumer false true))
    self

/-- `amq_server_channel_earn`: queues are only told when the credit is exactly 1. -/
def earn (self : Broker) (ref : ChannelRef) : Broker :=
  let channel := self.store.channels ref
  if channel.zombie then self
  else
    let self := { self with
      store := self.store.setChannel ref { channel with credit := channel.credit + 1 } }
    if channel.credit + 1 = 1 then
      (self.channels ref).consumerList.foldl
        (fun self consumer => self.postQueue (self.store.consumers consumer).queue .dispatch) self
    else self

/-! ## Requests of queues -/

def cancelled? : Output → Option ConsumerRef
  | .cancelled ref => some ref
  | _ => none

/--
What an operation of `amq_queue_basic` leaves behind. Once a consumer has been cancelled, the
queue is not fed any more and is open to other consumers.
-/
def settle (self : Broker) (ref : QueueRef) (r : BasicQueue × Store × List Output) :
    Broker × List Reply :=
  let queue := { self.queues ref with basic := r.1 }
  let outputs := r.2.2.map (.output ref)
  match r.2.2.filterMap cancelled? with
  | [] => ({ self.setQueue ref queue with store := r.2.1 }, outputs)
  | consumers =>
    let self := consumers.foldl forget
      { self.setQueue ref { queue with feedOn := false, locked := false } with store := r.2.1 }
    (self, outputs ++ if queue.autoDelete && queue.basic.consumerList.isEmpty
      then [.autoDelete ref] else [])

def refusal (self : Broker) (ref : QueueRef) (consumer : Consumer) : Option Str :=
  let queue := self.queues ref
  if queue.basic.exclusive ∧ queue.connection ≠ (self.store.channels consumer.channel).connection
  then some "Queue is exclusive to another connection".toList
  else if consumer.exclusive then
    if queue.basic.consumerList.length = 0 then none
    else some "Exclusive access to queue not possible".toList
  else if queue.locked then some "Queue is being used exclusively by another consumer".toList
  else none

/-- The queue attaches a consumer that it does not refuse. -/
def acceptConsumer (self : Broker) (ref : QueueRef) (consumerRef : ConsumerRef)
    (active : Bool) : Broker :=
  let consumer := self.store.consumers consumerRef
  let queue := self.queues ref
  { self.setQueue ref { queue with
        basic := (queue.basic.consume consumerRef).1
        locked := queue.locked || consumer.exclusive
        feedOn := active
        feedNoLocal := consumer.noLocal } with
    store := self.store.setConsumer consumerRef { consumer with paused := !active } }

/-- `amq_queue_consume` -/
def queueConsume (self : Broker) (ref : QueueRef) (consumerRef : ConsumerRef)
    (active nowait : Bool) : Broker × List Reply :=
  let consumer := self.store.consumers consumerRef
  match self.refusal ref consumer with
  | some error =>
    (self.postChannel consumer.channel (.cancel consumer.tag false true),
      self.channelError consumer.channel aslAccessRefused error
        amqServerBasic amqServerBasicConsume)
  | none =>
    let connection := (self.store.channels consumer.channel).connection
    ((self.acceptConsumer ref consumerRef active).postQueue ref .dispatch,
      if connection.isSome && !nowait then [.consumeOk consumer.channel consumer.tag] else [])

/-- `amq_queue_cancel`. The consumer must have been removed from its per-channel list. -/
def queueCancel (self : Broker) (ref : QueueRef) (consumerRef : ConsumerRef)
    (notify nowait : Bool) : Option (Broker × List Reply) :=
  let consumer := self.store.consumers consumerRef
  if consumerRef ∈ (self.channels consumer.channel).consumerList then none
  else
    let connection := (self.store.channels consumer.channel).connection
    let settled := self.settle ref ((self.queues ref).basic.cancel self.store consumerRef)
    some (settled.1,
      (if notify && !nowait && connection.isSome then [.cancelOk consumer.channel consumer.tag]
        else []) ++ settled.2)

def queueRequest (self : Broker) (ref : QueueRef) : QueueMessage → Option (Broker × List Reply)
  | .publish channel content immediate =>
    some (self.settle ref ((self.queues ref).basic.publish self.store channel content immediate))
  | .dispatch => some (self.settle ref ((self.queues ref).basic.dispatch self.store none))
  | .consume consumer active nowait => some (self.queueConsume ref consumer active nowait)
  | .cancel consumer notify nowait => self.queueCancel ref consumer notify nowait
  | .consumerAck consumer =>
    some (self.settle ref ((self.queues ref).basic.consumerAck self.store consumer))

/-- A channel takes a request from its inbox. It has a connection until it is destroyed. -/
def channelRequest (config : Config) (self : Broker) (ref : ChannelRef)
    (connection : ConnectionId) : ChannelMessage → Option (Broker × List Reply)
  | .flow active => some (self.flow ref active)
  | .consume queue method => some (self.consume config ref connection queue method)
  | .ack => some (self.ack ref, [])
  | .cancel tag sync nowait => self.cancel ref connection tag sync nowait
  | .destroy => some (self.destroy ref, [])

end Broker

/-! ## The machine -/

/-- The requests that the connection of a channel makes for its client. -/
inductive ClientRequest where
  | flow (active : Bool)
  | consume (queue : QueueRef) (method : ConsumeMethod)
  | ack
  | cancel (tag : Shortstr) (nowait : Bool)
deriving DecidableEq

def ClientRequest.message : ClientRequest → ChannelMessage
  | .flow active => .flow active
  | .consume queue method => .consume queue method
  | .ack => .ack
  | .cancel tag nowait => .cancel tag true nowait

/-- The steps of the threads of the broker. -/
inductive BrokerEvent where
  /-- a connection sends a request of its client to the channel -/
  | request (channel : ChannelRef) (request : ClientRequest)
  /-- a connection closes its channel -/
  | close (channel : ChannelRef)
  /-- a connection has written a content to its socket -/
  | earn (channel : ChannelRef)
  /-- an exchange passes on a content -/
  | publish (queue : QueueRef) (channel : Option ChannelRef) (content : Content)
      (immediate : Bool)
  /-- a channel takes the next request -/
  | channelStep (channel : ChannelRef)
  /-- a queue takes the next request -/
  | queueStep (queue : QueueRef)
  /-- a queue makes one turn of the loop of its dispatch -/
  | turn (queue : QueueRef)
deriving DecidableEq

namespace Broker

/-- `amq_server_channel_destroy`, called by the connection. -/
def close (self : Broker) (ref : ChannelRef) : Broker :=
  if (self.store.channels ref).zombie then self
  else
    let self := self.postChannel ref .destroy
    { self with store := self.store.setChannel ref { self.store.channels ref with zombie := true } }

/-- One step of one thread, or `none` if the thread cannot make it. -/
def step (config : Config) (self : Broker) : BrokerEvent → Option (Broker × List Reply)
  | .request channel request => some (self.postChannel channel request.message, [])
  | .close channel => some (self.close channel, [])
  | .earn channel => some (self.earn channel, [])
  | .publish queue channel content immediate =>
    some (self.postQueue queue (.publish channel content immediate), [])
  | .channelStep ref =>
    match (self.store.channels ref).connection, (self.channels ref).inbox with
    | some connection, message :: inbox =>
      (self.setServerChannel ref { self.channels ref with inbox }).channelRequest config ref
        connection message
    | _, _ => none
  | .queueStep ref =>
    match (self.queues ref).basic.state, (self.queues ref).inbox with
    | .idle, message :: inbox =>
      (self.setQueue ref { self.queues ref with inbox }).queueRequest ref message
    | _, _ => none
  | .turn ref =>
    match (self.queues ref).basic.state with
    | .idle => none
    | .dispatching after =>
      some (self.settle ref ((self.queues ref).basic.turn config self.store after))

end Broker

end OpenAmq
