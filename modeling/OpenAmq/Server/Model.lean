import OpenAmq.Broker.AutoDelete
import OpenAmq.Exchange.Model

/-!
# The server

Clients refer to queues and exchanges by their names. The server looks the names up in its
tables and carries out the protocol methods of `amq_server.asl`.

* `declareName`, `queueNew`, `bindDefault`, `ownQueue`, `answerDeclare` — what `queue.declare`
  is made of
* `Server.perform` — the protocol actions
* `Server.brokerDeleteQueue` — what is left to do when a queue has destroyed itself
* `Server.step` — one action of one thread

Exchanges work off their requests at once, and so does a queue that is idle and is to be purged
or to return a content. No exchange is federated.
-/

namespace OpenAmq

open Function

/-! ## Reply codes and method numbers -/

def aslNotDelivered : Nat := 310

def aslNotFound : Nat := 404

def aslSyntaxError : Nat := 502

def aslCommandInvalid : Nat := 503

def aslNotImplemented : Nat := 540

def amqServerExchange : Nat := 40

def amqServerExchangeDeclare : Nat := 10

def amqServerExchangeDelete : Nat := 20

def amqServerQueue : Nat := 50

def amqServerQueueDeclare : Nat := 10

def amqServerQueueBind : Nat := 20

def amqServerQueuePurge : Nat := 30

def amqServerQueueDelete : Nat := 40

def amqServerQueueUnbind : Nat := 50

def amqServerBasicPublish : Nat := 40

def amqServerBasicGet : Nat := 70

/-! ## Data -/

/-- The address of an `amq_exchange`. -/
abbrev ExchangeRef := Nat

/-- `queue.declare` -/
structure DeclareMethod where
  queue : Shortstr := .empty
  passive : Bool := false
  durable : Bool := false
  exclusive : Bool := false
  autoDelete : Bool := false
  nowait : Bool := false
  arguments : Option Longstr := none
deriving DecidableEq

/-- The methods that a connection receives on a channel. -/
inductive Method where
  | channelFlow (active : Bool)
  | exchangeDeclare (exchange : Shortstr) (type : Str) (passive internal nowait : Bool)
  | exchangeDelete (exchange : Shortstr) (nowait : Bool)
  | queueDeclare (method : DeclareMethod)
  | queueBind (queue exchange routingKey : Shortstr) (arguments : Option Longstr) (nowait : Bool)
  | queueUnbind (queue exchange routingKey : Shortstr) (arguments : Option Longstr) (nowait : Bool)
  | queueDelete (queue : Shortstr) (nowait : Bool)
  | queuePurge (queue : Shortstr) (nowait : Bool)
  | basicConsume (queue : Shortstr) (method : ConsumeMethod)
  | basicPublish (exchange routingKey : Shortstr) (headers : Option Longstr) (content : Content)
      (mandatory immediate : Bool)
  | basicGet (queue : Shortstr)
  | basicAck
  | basicCancel (consumerTag : Shortstr) (nowait : Bool)
deriving DecidableEq

/-- What is sent to clients. -/
inductive Answer where
  | exchangeDeclareOk (channel : ChannelRef)
  | exchangeDeleteOk (channel : ChannelRef)
  | queueDeclareOk (channel : ChannelRef) (queue : Shortstr) (messageCount consumerCount : Nat)
  | queueBindOk (channel : ChannelRef)
  | queueUnbindOk (channel : ChannelRef)
  | queueDeleteOk (channel : ChannelRef) (messageCount : Nat)
  | queuePurgeOk (channel : ChannelRef) (messageCount : Nat)
  | basicReturn (channel : ChannelRef) (content : Content) (replyCode : Nat) (replyText : Str)
  | connectionError (connection : ConnectionId) (replyCode : Nat) (replyText : Str)
      (faultingClassId faultingMethodId : Nat)
  /-- from a channel or a queue, and all channel errors -/
  | reply (reply : Reply)
deriving DecidableEq

/-- An exception is raised. -/
def Answer.isError : Answer → Bool
  | .connectionError _ _ _ _ _ => true
  | .reply (.channelError _ _ _ _ _) => true
  | _ => false

/-- The limits of a `queue_profile`. -/
structure QueueProfile where
  warnLimit : Nat := 0
  dropLimit : Nat := 0
  trimLimit : Nat := 0
  killLimit : Nat := 0

/-- The configuration of the server, and the libraries behind it. -/
structure ServerConfig where
  queues : Config := {}
  queueTimeout : Nat := 0
  profiles : Str → Option QueueProfile
  env : Env

/-- An `amq_exchange` with its name. A `zombie` has been destroyed, and ignores requests. -/
structure ServerExchange where
  name : Shortstr
  internal : Bool := false
  zombie : Bool := false
  exchange : Exchange

/-- The tables of `amq_broker` and of its connections, and all objects. -/
structure Server where
  /-- channels, queues and consumers -/
  objects : AutoDelete
  queueName : QueueRef → Shortstr := fun _ => .empty
  queueTable : Shortstr → Option QueueRef := fun _ => none
  /-- the address of the next queue -/
  nextQueue : QueueRef := 0
  queueIndex : UInt32 := 0
  ownQueueSet : ConnectionId → List QueueRef := fun _ => []
  exchanges : ExchangeRef → ServerExchange := fun _ => ⟨.empty, false, true, { type := .direct }⟩
  exchangeTable : Shortstr → Option ExchangeRef := fun _ => none
  /-- the address of the next exchange -/
  nextExchange : ExchangeRef := 0
  defaultExchange : ExchangeRef := 0
  /-- the address of the next binding -/
  nextBinding : Nat := 0
  currentQueue : ChannelRef → Shortstr := fun _ => .empty
  currentExchange : ChannelRef → Shortstr := fun _ => .empty

namespace Server

def broker (self : Server) : Broker := self.objects.broker

def queue (self : Server) (ref : QueueRef) : ServerQueue := self.broker.queues ref

def setBroker (self : Server) (broker : Broker) : Server :=
  { self with objects := { self.objects with broker } }

/-- `amq_server_channel_error` -/
def channelError (self : Server) (channel : ChannelRef) (replyCode : Nat) (replyText : String)
    (faultingClassId faultingMethodId : Nat) : List Answer :=
  (self.broker.channelError channel replyCode replyText.toList faultingClassId
    faultingMethodId).map .reply

/-! ## Exchanges -/

/-- `amq_exchange_type_lookup` -/
def exchangeTypeLookup (type : Str) : Option ExchangeType :=
  if type = "system".toList then some .system
  else if type = "fanout".toList then some .fanout
  else if type = "direct".toList then some .direct
  else if type = "topic".toList then some .topic
  else if type = "headers".toList then some .headers
  else if type = "regexp".toList then some .regexp
  else none

/-- Names that are reserved for exchanges of the server. -/
def reserved (exchange : Shortstr) : Bool := "amq.".toList.isPrefixOf exchange.chars

/-- `amq_exchange_new` -/
def exchangeNew (self : Server) (type : ExchangeType) (name : Shortstr) (internal : Bool) :
    Server :=
  { self with
    exchanges := update self.exchanges self.nextExchange
      { name, internal, exchange := { type } }
    exchangeTable := update self.exchangeTable name (some self.nextExchange)
    nextExchange := self.nextExchange + 1 }

/-- The end of `exchange.declare`. -/
def answerExchange (self : Server) (connection : ConnectionId) (channel : ChannelRef)
    (type : ExchangeType) (nowait : Bool) (ref : ExchangeRef) : Server × List Answer :=
  if (self.exchanges ref).exchange.type = type then
    ({ self with
        currentExchange :=
          update self.currentExchange channel (self.exchanges ref).name },
      if nowait then [] else [.exchangeDeclareOk channel])
  else
    (self, [.connectionError connection aslNotAllowed
      "Exchange exists with different type".toList amqServerExchange amqServerExchangeDeclare])

def exchangeDeclare (self : Server) (connection : ConnectionId) (channel : ChannelRef)
    (exchange : Shortstr) (type : Str) (passive internal nowait : Bool) : Server × List Answer :=
  match exchangeTypeLookup type with
  | none =>
    (self, [.connectionError connection aslCommandInvalid "Unknown exchange type".toList
      amqServerExchange amqServerExchangeDeclare])
  | some exchangeType =>
    match self.exchangeTable exchange with
    | some ref => self.answerExchange connection channel exchangeType nowait ref
    | none =>
      if passive then
        (self, self.channelError channel aslNotFound "No such exchange defined"
          amqServerExchange amqServerExchangeDeclare)
      else if reserved exchange then
        (self, self.channelError channel aslAccessRefused "Exchange name not allowed"
          amqServerExchange amqServerExchangeDeclare)
      else
        (self.exchangeNew exchangeType exchange internal).answerExchange connection channel
          exchangeType nowait self.nextExchange

/-- `amq_exchange_destroy`, which takes the exchange out of the table. -/
def exchangeDestroy (self : Server) (ref : ExchangeRef) : Server :=
  { self with
    exchanges := update self.exchanges ref { self.exchanges ref with zombie := true }
    exchangeTable := update self.exchangeTable (self.exchanges ref).name none }

/-- The exchange that `exchange.delete` names, which is the current one if the name is blank. -/
def exchangeOf (self : Server) (channel : ChannelRef) (exchange : Shortstr) : Shortstr :=
  if exchange = .empty then self.currentExchange channel else exchange

def exchangeDelete (self : Server) (channel : ChannelRef) (exchange : Shortstr) (nowait : Bool) :
    Server × List Answer :=
  let exchange := self.exchangeOf channel exchange
  if reserved exchange then
    (self, self.channelError channel aslAccessRefused "Exchange name not allowed"
      amqServerExchange amqServerExchangeDeclare)
  else
    match self.exchangeTable exchange with
    | some ref =>
      (self.exchangeDestroy ref, if nowait then [] else [.exchangeDeleteOk channel])
    | none =>
      (self, self.channelError channel aslNotFound "No such exchange defined"
        amqServerExchange amqServerExchangeDelete)

/-- `amq_exchange_bind_queue` -/
def bindExchange (cfg : ServerConfig) (self : Server) (exchange : ExchangeRef)
    (channel : Option ChannelRef) (queue : QueueRef) (routingKey : Shortstr)
    (arguments : Option Longstr) : Option Server :=
  let ex := self.exchanges exchange
  if ex.zombie then some self
  else
    (ex.exchange.bindQueue cfg.env self.nextBinding channel
        ⟨queue, (self.queue queue).basic.exclusive⟩ routingKey arguments).map fun exchange' =>
      { self with
        exchanges := update self.exchanges exchange { ex with exchange := exchange' }
        nextBinding := self.nextBinding + 1 }

/-- `amq_exchange_unbind_queue` -/
def unbindExchange (self : Server) (exchange : ExchangeRef) (queue : QueueRef)
    (routingKey : Shortstr) (arguments : Option Longstr) : Option Server :=
  let ex := self.exchanges exchange
  if ex.zombie then some self
  else
    (ex.exchange.unbindQueue queue routingKey arguments).map fun exchange' =>
      { self with
        exchanges := update self.exchanges exchange { ex with exchange := exchange' } }

/-! ## Declaring a queue -/

/-- The name of the queue to declare; a blank one is replaced by a new name. -/
def declareName (self : Server) (queue : Shortstr) : Server × Shortstr :=
  if queue = .empty then
    ({ self with queueIndex := self.queueIndex + 1 },
      .cpy ("auto.".toList ++ counterText self.queueIndex))
  else (self, queue)

/-- The profile of a new queue. -/
def profileName (env : Env) (exclusive : Bool) (arguments : List Field) : Option Str :=
  match arguments.find? fun field => decide (field.name = "profile".toList) with
  | none => some (if exclusive then "private".toList else "shared".toList)
  | some field => env.fieldString field.value

/-- Enters a queue in the table. -/
def addQueue (self : Server) (name : Shortstr) (queue : ServerQueue) : Server :=
  { self.setBroker (self.broker.setQueue self.nextQueue queue) with
    queueName := update self.queueName self.nextQueue name
    queueTable := update self.queueTable name (some self.nextQueue)
    nextQueue := self.nextQueue + 1 }

/--
`amq_queue_new`

There is no new queue when the table has one of that name. `none` is the error that is raised
on a null connection when the arguments are malformed, and the address of the owner that is
looked for when a queue without owner has an unknown profile.
-/
def queueNew (cfg : ServerConfig) (self : Server) (connection : ConnectionId) (name : Shortstr)
    (method : DeclareMethod) : Option (Server × Option QueueRef × List Answer) :=
  match fieldListNew method.arguments with
  | .error _ => none
  | .ok arguments =>
    match profileName cfg.env method.exclusive arguments with
    | none => none
    | some profile =>
      match cfg.profiles profile with
      | none =>
        if method.exclusive then
          some (self, none, [.connectionError connection aslSyntaxError
            "Unknown queue profile requested".toList amqServerQueue amqServerQueueDeclare])
        else none
      | some limits =>
        if (self.queueTable name).isSome then some (self, none, [])
        else
          some (self.addQueue name
              { basic := {
                  exclusive := method.exclusive
                  warnLimit := limits.warnLimit
                  dropLimit := limits.dropLimit
                  trimLimit := limits.trimLimit
                  killLimit := limits.killLimit }
                connection := if method.exclusive then some connection else none
                -- an exclusive queue is always deleted automatically
                autoDelete := method.exclusive || method.autoDelete },
            some self.nextQueue, [])

def bindDefault (cfg : ServerConfig) (self : Server) (ref : QueueRef) : Option Server :=
  self.bindExchange cfg self.defaultExchange none ref (self.queueName ref) none

/-- `amq_server_connection_own_queue`, which asserts that the queue is exclusive. -/
def ownQueue (self : Server) (connection : ConnectionId) (ref : QueueRef) : Option Server :=
  if (self.queue ref).basic.exclusive then
    some { self with
      ownQueueSet := update self.ownQueueSet connection
        (self.ownQueueSet connection ++ [ref]) }
  else none

/-- Binds a new queue, and adds it to the list of its connection if it is exclusive. -/
def shareQueue (cfg : ServerConfig) (self : Server) (connection : ConnectionId)
    (method : DeclareMethod) (ref : QueueRef) : Option Server := do
  let self ← self.bindDefault cfg ref
  if method.exclusive then self.ownQueue connection ref else some self

/-- The outcome of the ownership test. -/
inductive Ownership where
  /-- a line on the console says so, and nothing else -/
  | aborted
  | refused
  | granted
deriving DecidableEq

/-- May the connection have the queue as it has asked for it? -/
def ownership (self : Server) (connection : ConnectionId) (exclusive : Bool) (ref : QueueRef) :
    Ownership :=
  if exclusive then
    match (self.queue ref).connection with
    | none => .aborted
    | some owner => if owner = connection then .granted else .refused
  else .granted

/-- The error when the queue does not belong to the connection. -/
def ownershipError (self : Server) (channel : ChannelRef) : List Answer :=
  self.channelError channel aslAccessRefused "Queue cannot be made exclusive to this connection"
    amqServerQueue amqServerQueueDeclare

/-- The queue becomes the current one of the channel, and the client is told. -/
def declareOk (self : Server) (channel : ChannelRef) (method : DeclareMethod) (ref : QueueRef) :
    Server × List Answer :=
  let queue := (self.queue ref).basic
  ({ self with
      currentQueue := update self.currentQueue channel (self.queueName ref) },
    if method.nowait then []
    else [.queueDeclareOk channel (self.queueName ref) queue.contentList.length
      queue.consumerList.length])

/-- The end of `queue.declare`. -/
def answerDeclare (self : Server) (connection : ConnectionId) (channel : ChannelRef)
    (method : DeclareMethod) (ref : QueueRef) : Server × List Answer :=
  match self.ownership connection method.exclusive ref with
  | .aborted => (self, [])
  | .refused => (self, self.ownershipError channel)
  | .granted => self.declareOk channel method ref

/-- Why a queue that does not exist is not created, if it is not. -/
def createError (self : Server) (channel : ChannelRef) (method : DeclareMethod) : List Answer :=
  if method.passive then
    self.channelError channel aslNotFound "No such queue defined"
      amqServerQueue amqServerQueueDeclare
  else
    self.channelError channel aslNotImplemented "Durable queues not supported"
      amqServerQueue amqServerQueueDeclare

/-- The error when there is no queue in the end. -/
def declareError (connection : ConnectionId) : Answer :=
  .connectionError connection aslResourceError "Unable to declare queue".toList
    amqServerQueue amqServerQueueDeclare

def queueDeclare (cfg : ServerConfig) (self : Server) (connection : ConnectionId)
    (channel : ChannelRef) (method : DeclareMethod) : Option (Server × List Answer) :=
  let (self, name) := self.declareName method.queue
  match self.queueTable name with
  | some ref => some (self.answerDeclare connection channel method ref)
  | none =>
    if method.passive || method.durable then some (self, self.createError channel method)
    else do
      let (self, created, answers) ← self.queueNew cfg connection name method
      -- if it has failed, the queue is looked up again
      match created.or (self.queueTable name) with
      | none => some (self, answers ++ [declareError connection])
      | some ref =>
        (self.shareQueue cfg connection method ref).map fun self =>
          let r := self.answerDeclare connection channel method ref
          (r.1, answers ++ r.2)

/-! ## Other methods -/

/-- The queue that a method names, which is the current one if the name is blank. -/
def queueOf (self : Server) (channel : ChannelRef) (queue : Shortstr) : Shortstr :=
  if queue = .empty then self.currentQueue channel else queue

/-- The routing key of a binding, which is the current queue if both names are blank. -/
def bindingKey (self : Server) (channel : ChannelRef) (queue routingKey : Shortstr) : Shortstr :=
  if queue = .empty ∧ routingKey = .empty then self.currentQueue channel else routingKey

/-- The error when there is no queue of that name. -/
def noQueue (self : Server) (channel : ChannelRef) (classId methodId : Nat) : List Answer :=
  self.channelError channel aslNotFound "No such queue defined" classId methodId

def queueBind (cfg : ServerConfig) (self : Server) (channel : ChannelRef)
    (queue exchange routingKey : Shortstr) (arguments : Option Longstr) (nowait : Bool) :
    Option (Server × List Answer) :=
  match self.exchangeTable exchange, self.queueTable (self.queueOf channel queue) with
  | none, _ =>
    some (self, self.channelError channel aslNotFound "No such exchange defined"
      amqServerQueue amqServerQueueBind)
  | some _, none => some (self, self.noQueue channel amqServerQueue amqServerQueueBind)
  | some exchange, some ref =>
    (self.bindExchange cfg exchange channel ref (self.bindingKey channel queue routingKey)
      arguments).map fun self => (self, if nowait then [] else [.queueBindOk channel])

def queueUnbind (self : Server) (channel : ChannelRef) (queue exchange routingKey : Shortstr)
    (arguments : Option Longstr) (nowait : Bool) : Option (Server × List Answer) :=
  match self.exchangeTable exchange, self.queueTable (self.queueOf channel queue) with
  | none, _ =>
    some (self, self.channelError channel aslNotFound "No such exchange defined"
      amqServerQueue amqServerQueueUnbind)
  | some _, none => some (self, self.noQueue channel amqServerQueue amqServerQueueUnbind)
  | some exchange, some ref =>
    (self.unbindExchange exchange ref (self.bindingKey channel queue routingKey) arguments).map
      fun self => (self, if nowait then [] else [.queueUnbindOk channel])

/-- `queue.delete`: the queue is asked to self-destruct. -/
def queueDelete (self : Server) (channel : ChannelRef) (queue : Shortstr) (nowait : Bool) :
    Server × List Answer :=
  match self.queueTable (self.queueOf channel queue) with
  | none => (self, self.noQueue channel amqServerQueue amqServerQueueDelete)
  | some ref =>
    ({ self with objects := self.objects.requestSelfDestruct false ref },
      if nowait then []
      else [.queueDeleteOk channel (self.queue ref).basic.contentList.length])

def queuePurge (self : Server) (channel : ChannelRef) (queue : Shortstr) (nowait : Bool) :
    Option (Server × List Answer) :=
  match self.queueTable (self.queueOf channel queue) with
  | none => some (self, self.noQueue channel amqServerQueue amqServerQueuePurge)
  | some ref =>
    match (self.queue ref).basic.state with
    | .dispatching _ => none
    | .idle =>
      some (self.setBroker (self.broker.setQueue ref
          { self.queue ref with basic := (self.queue ref).basic.purge.1 }),
        if nowait then []
        else [.queuePurgeOk channel (self.queue ref).basic.contentList.length])

def basicConsume (self : Server) (channel : ChannelRef) (queue : Shortstr)
    (method : ConsumeMethod) : Server × List Answer :=
  match self.queueTable (self.queueOf channel queue) with
  | none => (self, self.noQueue channel amqServerBasic amqServerBasicConsume)
  | some ref => (self.setBroker (self.broker.postChannel channel (.consume ref method)), [])

def basicGet (self : Server) (channel : ChannelRef) (queue : Shortstr) :
    Option (Server × List Answer) :=
  match self.queueTable (self.queueOf channel queue) with
  | none => some (self, self.noQueue channel amqServerBasic amqServerBasicGet)
  | some ref =>
    match (self.queue ref).basic.state with
    | .dispatching _ => none
    | .idle =>
      let fetched := (self.queue ref).basic.get self.broker.store (some channel)
      some (self.setBroker (self.broker.setQueue ref { self.queue ref with basic := fetched.1 }),
        fetched.2.map fun out => .reply (.output ref out))

/-- `amq_exchange_publish`, with the queues that the content goes to. -/
def exchangePublish (cfg : ServerConfig) (self : Server) (exchange : ExchangeRef)
    (routingKey : Shortstr) (headers : Option Longstr) : Option (Server × List QueueRef) :=
  let ex := self.exchanges exchange
  if ex.zombie then some (self, [])
  else
    (ex.exchange.publish cfg.env routingKey headers).map fun r =>
      ({ self with
          exchanges := update self.exchanges exchange { ex with exchange := r.1 } }, r.2)

/-- Passes a content on to its queues, and returns it if there are none but have to be. -/
def deliver (self : Server) (channel : ChannelRef) (queues : List QueueRef) (content : Content)
    (mandatory immediate : Bool) : Server × List Answer :=
  (self.setBroker (queues.foldl
      (fun broker ref => broker.postQueue ref (.publish (some channel) content immediate))
      self.broker),
    if mandatory && queues.isEmpty then
      [.basicReturn channel content aslNotDelivered
        "Message cannot be processed - no route is defined".toList]
    else [])

/-- The exchange that `basic.publish` names, which is the default one if the name is blank. -/
def publishExchange (self : Server) (exchange : Shortstr) : Option ExchangeRef :=
  if exchange = .empty then some self.defaultExchange else self.exchangeTable exchange

def basicPublish (cfg : ServerConfig) (self : Server) (channel : ChannelRef)
    (exchange routingKey : Shortstr) (headers : Option Longstr) (content : Content)
    (mandatory immediate : Bool) : Option (Server × List Answer) :=
  match self.publishExchange exchange with
  | none =>
    some (self, self.channelError channel aslNotFound "No such exchange defined"
      amqServerBasic amqServerBasicPublish)
  | some ref =>
    if (self.exchanges ref).internal ∧ exchange ≠ .empty then
      some (self, self.channelError channel aslAccessRefused "Exchange is for internal use only"
        amqServerBasic amqServerBasicPublish)
    else
      (self.exchangePublish cfg ref routingKey headers).map fun r =>
        r.1.deliver channel r.2 content mandatory immediate

def sendChannel (self : Server) (channel : ChannelRef) (request : ClientRequest) :
    Server × List Answer :=
  (self.setBroker (self.broker.postChannel channel request.message), [])

/-- The action of a protocol method. -/
def perform (cfg : ServerConfig) (self : Server) (connection : ConnectionId)
    (channel : ChannelRef) : Method → Option (Server × List Answer)
  | .channelFlow active => some (self.sendChannel channel (.flow active))
  | .exchangeDeclare exchange type passive internal nowait =>
    some (self.exchangeDeclare connection channel exchange type passive internal nowait)
  | .exchangeDelete exchange nowait => some (self.exchangeDelete channel exchange nowait)
  | .queueDeclare method => self.queueDeclare cfg connection channel method
  | .queueBind queue exchange routingKey arguments nowait =>
    self.queueBind cfg channel queue exchange routingKey arguments nowait
  | .queueUnbind queue exchange routingKey arguments nowait =>
    self.queueUnbind channel queue exchange routingKey arguments nowait
  | .queueDelete queue nowait => some (self.queueDelete channel queue nowait)
  | .queuePurge queue nowait => self.queuePurge channel queue nowait
  | .basicConsume queue method => some (self.basicConsume channel queue method)
  | .basicPublish exchange routingKey headers content mandatory immediate =>
    self.basicPublish cfg channel exchange routingKey headers content mandatory immediate
  | .basicGet queue => self.basicGet channel queue
  | .basicAck => some (self.sendChannel channel .ack)
  | .basicCancel consumerTag nowait => some (self.sendChannel channel (.cancel consumerTag nowait))

/-! ## Threads -/

/-- `amq_broker_unbind_queue`: connections drop their links to the queue. -/
def brokerUnbindQueue (self : Server) (ref : QueueRef) : Server :=
  { self with ownQueueSet := fun id => (self.ownQueueSet id).erase ref }

/-- `amq_broker_delete_queue` -/
def brokerDeleteQueue (self : Server) (ref : QueueRef) : Server :=
  let name := self.queueName ref
  -- exchanges look up the bindings of a queue by its name
  let listed := (self.queueTable name).getD ref
  { self with
    exchanges := fun exchange =>
      let ex := self.exchanges exchange
      if ex.zombie then ex
      else { ex with exchange := ex.exchange.brokerUnbindQueue listed ref }
    queueTable :=
      if self.queueTable name = some ref then update self.queueTable name none
      else self.queueTable }

/-- What the broker does when a queue has destroyed itself. -/
def selfDestructed (self : Server) (ref : QueueRef) : Server :=
  let self := self.brokerDeleteQueue ref
  if (self.queue ref).basic.exclusive then self.brokerUnbindQueue ref else self

end Server

inductive ServerEvent where
  /-- a connection takes a method that has arrived on a channel -/
  | method (channel : ChannelRef) (method : Method)
  /-- a channel, a queue or a timer -/
  | thread (event : AutoDeleteEvent)
deriving DecidableEq

/-- Requests that a client makes, or an exchange. -/
def AutoDeleteEvent.requested : AutoDeleteEvent → Bool
  | .broker (.request _ _) | .broker (.publish _ _ _ _) | .delete _ => true
  | _ => false

namespace Server

/-- The replies that channels and queues send in a step. -/
def threadAnswers (cfg : ServerConfig) (self : Server) : AutoDeleteEvent → List Answer
  | .broker event => (self.broker.step cfg.queues event).elim [] fun r => r.2.map .reply
  | _ => []

/-- One action of one thread, or `none` if the thread cannot make it. -/
def step (cfg : ServerConfig) (self : Server) : ServerEvent → Option (Server × List Answer)
  | .method channel method =>
    -- a channel that is closing takes no methods
    match (self.broker.store.channels channel).connection,
        (self.broker.store.channels channel).zombie with
    | some connection, false => self.perform cfg connection channel method
    | _, _ => none
  | .thread event =>
    if event.requested then none
    else
      (self.objects.step cfg.queues cfg.queueTimeout event).map fun r =>
        let stepped := { self with objects := r.1 }
        (match event with
          | .selfDestruct ref => stepped.selfDestructed ref
          | _ => stepped, self.threadAnswers cfg event)

/-- The state after a run, and the answers of all its steps. -/
def outcome (cfg : ServerConfig) (s : Server) (events : List ServerEvent) :
    Option (Server × List Answer) := Lib.run (Lib.logged (step cfg)) (s, []) events

/-- `s_exchange_declare` for the exchanges of the server, except for the default exchange. -/
def predeclared : List (ExchangeType × Str) :=
  [(.fanout, "amq.fanout".toList), (.direct, "amq.direct".toList), (.topic, "amq.topic".toList),
    (.headers, "amq.headers".toList), (.regexp, "amq.regexp".toList),
    (.system, "amq.system".toList), (.direct, "amq.status".toList),
    (.topic, "amq.notify".toList), (.direct, "amq.service".toList), (.topic, "amq.data".toList),
    (.headers, "amq.dataex".toList)]

def defaultName : Shortstr := .cpy "$default$".toList

/-- `amq_broker_new`, for clients that have these channels. -/
def new (channels : ChannelRef → Channel) : Server :=
  let self : Server := {
    objects := { broker := { store := ⟨fun _ => { channel := 0 }, channels⟩, queues := fun _ =>
      {} } } }
  predeclared.foldl (fun self exchange => self.exchangeNew exchange.1 (.cpy exchange.2) false)
    (self.exchangeNew .direct defaultName true)

/-! ## Two connections -/

/-- Channels that each have a connection of their own. -/
def twoClients : Server := new fun channel => { connection := some channel }

/-- A configuration whose profiles have no limits. -/
def plainConfig : ServerConfig where
  profiles _ := some {}
  env := ⟨fun _ _ => false, fun _ _ => []⟩

end Server

end OpenAmq
