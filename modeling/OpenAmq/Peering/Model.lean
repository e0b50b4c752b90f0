import OpenAmq.Exchange.Model

/-!
# Peerings

A peering keeps bindings on the exchange of another server and forwards messages to it. It works
through an agent, a thread that holds the connection to the other server; when that has ended,
the monitor of the peering starts another one.

* `Peering` — an `amq_peering` with its agents, and what has been handed to these
* `Peering.bind`, `unbind`, `forward` — what others ask of a peering
* `Peering.initialisePeering`, `terminatePeering`, `monitor` — what it does with its connection
* `Peering.step` — one request, or one event of a connection

A method is sent when an agent with an open channel takes it.
-/

namespace OpenAmq

/-- What an `amq_peer_method` for a binding holds. -/
structure PeerBinding where
  routingKey : Shortstr
  arguments : Option Longstr
deriving DecidableEq

/-- What an `amq_peer_method` for a message holds. -/
structure PeerMessage where
  routingKey : Shortstr
  content : Content
  mandatory : Bool
  immediate : Bool
deriving DecidableEq

/-- The methods that a peering sends, all to the same exchange. -/
inductive PeerMethod where
  | queueDeclare (exclusive autoDelete : Bool)
  | basicConsume (exclusive : Bool)
  | exchangeDeclare
  | queueBind (binding : PeerBinding)
  | queueUnbind (binding : PeerBinding)
  | basicPublish (message : PeerMessage)
deriving DecidableEq

/-- The thread of a connection to the peer. -/
abbrev AgentRef := Nat

/-- How far a connection is. -/
inductive AgentState where
  /-- the channel has not been opened -/
  | opening
  | active
  /-- the channel or the connection is being closed, and methods are ignored -/
  | closing
  /-- the thread has ended -/
  | zombie
deriving DecidableEq

/-- `amq_peering`, with all agents it has ever had. -/
structure Peering where
  exchange : Shortstr
  exchangeType : ExchangeType
  enabled : Bool := false
  connected : Bool := false
  /-- `peer_agent_thread` -/
  agent : Option AgentRef := none
  /-- bindings sent or pending -/
  bindings : List PeerBinding := []
  /-- messages pending -/
  messages : List PeerMessage := []
  agents : AgentRef → AgentState := fun _ => .zombie
  nextAgent : AgentRef := 0
  /-- the `channel.open-ok` methods that the peering has not looked at yet -/
  openOks : List AgentRef := []
  /-- what agents have taken, in order -/
  sent : List (AgentRef × PeerMethod) := []

inductive PeeringEvent where
  | bind (routingKey : Shortstr) (arguments : Option Longstr)
  | unbind (routingKey : Shortstr) (arguments : Option Longstr)
  | forward (message : PeerMessage)
  | start
  | stop
  /-- the monitor timer expires -/
  | monitor
  /-- the peer opens the channel of an agent, which tells the peering -/
  | agentOpens (agent : AgentRef)
  | agentCloses (agent : AgentRef)
  | agentEnds (agent : AgentRef)
  /-- the next `channel.open-ok`; the agent in use may close after some methods of the replay -/
  | channelOpenOk (cut : Option Nat)
deriving DecidableEq

namespace Peering

/-- The peering can hand methods to its agent. -/
def online (self : Peering) : Bool :=
  match self.agent with
  | some agent => decide (self.agents agent = .active)
  | none => false

/-- `amq_peer_agent_push`: an agent without an open channel, or none, takes no methods. -/
def push (self : Peering) (method : PeerMethod) : Peering :=
  match self.agent with
  | some agent =>
    if self.agents agent = .active then { self with sent := self.sent ++ [(agent, method)] }
    else self
  | none => self

theorem push_eq (self : Peering) (method : PeerMethod) :
    ∃ sent, self.push method = { self with sent } := by
  unfold push
  split
  · split
    · exact ⟨_, rfl⟩
    · exact ⟨self.sent, rfl⟩
  · exact ⟨self.sent, rfl⟩

def pushAll (self : Peering) (methods : List PeerMethod) : Peering :=
  methods.foldl push self

def setAgent (self : Peering) (agent : AgentRef) (state : AgentState) : Peering :=
  { self with agents := Function.update self.agents agent state }

/-- Propagates a method to the remote server if connected. -/
def propagate (self : Peering) (method : PeerMethod) : Peering :=
  if self.connected then self.push method else self

/-! ## Requests -/

/-- The binding that a request is about. -/
def binding (routingKey : Shortstr) (arguments : Option Longstr) : PeerBinding :=
  ⟨routingKey, Exchange.normArguments arguments⟩

/-- `amq_peering_bind` -/
def bind (self : Peering) (routingKey : Shortstr) (arguments : Option Longstr) : Peering :=
  let binding := binding routingKey arguments
  if binding ∈ self.bindings then self
  else
    { self.propagate (.queueBind binding) with bindings := self.bindings ++ [binding] }

/-- `amq_peering_unbind`, which asserts that there is such a binding. -/
def unbind (self : Peering) (routingKey : Shortstr) (arguments : Option Longstr) : Option Peering :=
  let binding := binding routingKey arguments
  if binding ∈ self.bindings then
    some { self.propagate (.queueUnbind binding) with bindings := self.bindings.erase binding }
  else none

/-- `amq_peering_forward` -/
def forward (self : Peering) (message : PeerMessage) : Peering :=
  if self.connected then self.push (.basicPublish message)
  else { self with messages := self.messages ++ [message] }

/-! ## The connection -/

/-- What is sent when the channel is open. -/
def replay (self : Peering) : List PeerMethod :=
  [.queueDeclare true true, .basicConsume true, .exchangeDeclare] ++
    self.bindings.map .queueBind ++ self.messages.map .basicPublish

/-- The agent in use stops taking methods. -/
def closeAgent (self : Peering) : Peering :=
  match self.agent with
  | some agent => if self.agents agent = .zombie then self else self.setAgent agent .closing
  | none => self

theorem closeAgent_eq (self : Peering) : ∃ agents, self.closeAgent = { self with agents } := by
  unfold closeAgent
  split
  · split
    · exact ⟨self.agents, rfl⟩
    · exact ⟨_, rfl⟩
  · exact ⟨self.agents, rfl⟩

/-- `s_initialise_peering`, during which the agent may close. -/
def initialisePeering (self : Peering) (cut : Option Nat) : Peering :=
  if self.connected then self
  else
    let self := { self with connected := true }
    let pushed :=
      match cut with
      | none => self.pushAll self.replay
      | some n => (self.pushAll (self.replay.take n)).closeAgent
    -- pending messages are taken off the list one after the other
    { pushed with messages := [] }

/-- `s_terminate_peering` -/
def terminatePeering (self : Peering) : Peering :=
  { self.closeAgent with agent := none, connected := false }

/-- `amq_peer_agent_connection_thread_new` -/
def newAgent (self : Peering) : Peering :=
  { self.setAgent self.nextAgent .opening with
    agent := some self.nextAgent
    nextAgent := self.nextAgent + 1 }

/-- The event `monitor`. -/
def monitor (self : Peering) : Peering :=
  match self.agent with
  | some agent =>
    if self.enabled = false ∨ self.agents agent = .zombie then self.terminatePeering else self
  | none => if self.enabled then self.newAgent else self

/-- One request or event, `none` if an assertion fails. -/
def step (self : Peering) : PeeringEvent → Option Peering
  | .bind routingKey arguments => some (self.bind routingKey arguments)
  | .unbind routingKey arguments => self.unbind routingKey arguments
  | .forward message => some (self.forward message)
  | .start => some { self with enabled := true }
  | .stop => some { self with enabled := false }
  | .monitor => some self.monitor
  | .agentOpens agent =>
    if self.agents agent = .opening then
      some { self.setAgent agent .active with openOks := self.openOks ++ [agent] }
    else some self
  | .agentCloses agent =>
    if self.agents agent = .zombie then some self else some (self.setAgent agent .closing)
  | .agentEnds agent => some (self.setAgent agent .zombie)
  | .channelOpenOk cut =>
    match self.openOks with
    | _ :: openOks => some { self.initialisePeering cut with openOks }
    | [] => some self

/-- `amq_peering_new` -/
def new (exchange : Shortstr) (exchangeType : ExchangeType) : Peering :=
  { exchange, exchangeType }

end Peering

end OpenAmq
