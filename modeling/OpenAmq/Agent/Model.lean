import OpenAmq.Server.Authentication

/-!
# The server agent of a connection

Two threads work on one connection. The input thread reads methods and executes them. The
connection thread takes the requests that the input thread and other objects queue for it, and
writes to the client. They share the channel and its state.

An action runs to its end, but between two actions the other thread may run, also between the
frames of a content. Exceptions that a thread raises for the other one are seen at its next turn.

* `Agent` — the two threads and what they share
* `connectionThread` — one turn of the connection thread
* `step` — all that can happen on a connection
-/

namespace OpenAmq

/-- `ASL_CHANNEL_CLOSED` and the other states -/
inductive ChannelState where
  | closed
  | opened
  | closing
  | opening
deriving DecidableEq

structure LoginConfig where
  /-- The users of the `plain` security, if there is one. -/
  security : Option (List Plain.User)
  vhost : Str

/-- What `open` asks of the broker and its failover. -/
structure BrokerView where
  locked : Bool
  failoverEnabled : Bool
  failoverAccepts : Bool

/-- A method as the input thread has it. What handlers of other classes raise is part of it. -/
inductive ClientMethod where
  /-- The response, and what comes of it where memory is read that has nothing to do with it. -/
  | connectionStartOk (response : List UInt8) (undefined : Plain.Outcome)
  | connectionTuneOk
  | connectionOpen (virtualHost : Str) (broker : BrokerView)
  | connectionClose
  | connectionCloseOk
  | connectionOther
  | channelOpen (raises : Bool)
  | channelClose (raises : Bool)
  | channelCloseOk
  | channelFlow (raises : Bool)
  | channelFlowOk (raises : Bool)
  | channelOther
  | functional (raises : Bool)

namespace Agent

/-- Requests of high priority. A channel is known by the number of its incarnation. -/
inductive Request where
  | connectionStartOk
  | connectionTuneOk
  | connectionOpen
  | sendChannelOpenOk
  | sendChannelCloseOk
  | channelError (channel : Nat)
  | connectionError
  | connectionCloseOk
  | killConnection
  | shutdown
deriving DecidableEq

/-- States of the input thread: after an exception it waits for `connection.close-ok`. -/
inductive InputState where
  | haveIncomingMethod
  | connectionClosing
  | ended
deriving DecidableEq

/-- States of the connection thread. -/
inductive Phase where
  | initialiseConnection
  | connectionActive
  /-- Within `send content body if any`, with so many frames to send. -/
  | sendContentBody (frames : Nat)
  | closeTheConnection
  | ended
deriving DecidableEq

inductive ThreadException where
  | connectionError
  | connectionClose
  | externalException
deriving DecidableEq

/-- An event that a state of the connection thread does not have. -/
inductive Unrecognised where
  | request (request : Request)
  | send
deriving DecidableEq

/-- What has been accepted and answered. -/
inductive Entry where
  /-- `start ok` has been executed without an exception. -/
  | startOk (response : List UInt8)
  | tuneOk
  /-- `open` has been executed without an exception. -/
  | open
  | active
  /-- `channel.open` has been accepted. -/
  | channelOpen
  | openOkSent
  | channelClose
  | closeOkSent
  /-- `channel.close` has been sent for an error of the first channel, to the second. -/
  | closeSent (error channel : Nat)
  /-- A functional method is executed. -/
  | functional
deriving DecidableEq

end Agent

/-- The context that the threads share, with the fields of the connection that they use. -/
structure Agent where
  exceptionRaised : Bool
  authorised : Bool
  /-- 0 until there is a valid login. -/
  group : Nat
  channelState : ChannelState
  channel : Option Nat
  nextChannel : Nat
  input : Agent.InputState
  phase : Agent.Phase
  exception : Option Agent.ThreadException
  /-- Requests of high priority, which are taken first. -/
  requests : List Agent.Request
  /-- Methods to send, with the number of body frames where there is a content. -/
  sends : List (Option Nat)
  /-- What `abort ()` has been called for. -/
  aborted : Option Agent.Unrecognised
  log : List Agent.Entry
deriving DecidableEq

namespace Agent

/-- The input thread has been started. -/
def start : Agent where
  exceptionRaised := false
  authorised := false
  group := 0
  channelState := .closed
  channel := none
  nextChannel := 0
  input := .haveIncomingMethod
  phase := .initialiseConnection
  exception := none
  requests := []
  sends := []
  aborted := none
  log := []

/-! ## Connection methods -/

/-- What `s_auth_plain` leaves in the connection, and what it returns. -/
structure AuthResult where
  raised : Bool
  group : Nat
  valid : Bool

/-- `AMQ_CONNECTION_GROUP_NORMAL` and `AMQ_CONNECTION_GROUP_SUPER` -/
def groupNumber : ConnectionGroup → Nat
  | .normal => 1
  | .super => 2

/--
`s_auth_plain`, which returns the group that the connection has in the end; an invalid group of
the user is an exception.
-/
def authPlain (config : LoginConfig) (response : List UInt8) (undefined : Plain.Outcome)
    (group : Nat) : AuthResult :=
  match (Plain.authPlain config.security response).toOption.getD undefined with
  | .missing | .noPlain => ⟨true, group, false⟩
  | .noUser => ⟨false, group, group != 0⟩
  | .invalidGroup => ⟨true, group, group != 0⟩
  | .granted _ granted => ⟨false, groupNumber granted, true⟩

/-- `start ok` -/
def startOk (config : LoginConfig) (self : Agent) (response : List UInt8)
    (undefined : Plain.Outcome) : Agent :=
  let result := authPlain config response undefined self.group
  { self with
    group := result.group
    authorised := result.valid
    exceptionRaised := self.exceptionRaised || result.raised || !result.valid }

/-- `open` -/
def openConnection (config : LoginConfig) (self : Agent) (virtualHost : Str)
    (broker : BrokerView) : Agent :=
  if broker.locked ∧ self.group = 1 then { self with exceptionRaised := true }
  else if virtualHost ≠ config.vhost then { self with exceptionRaised := true }
  else if broker.failoverEnabled ∧ self.group = 1 ∧ !broker.failoverAccepts then
    { self with exceptionRaised := true }
  else self

/-! ## The input thread -/

/-- `s_connection_exception` in the input thread, and `notify connection of error`. -/
def connectionException (self : Agent) : Agent :=
  { self with
    exceptionRaised := true, exception := some .connectionError, input := .connectionClosing }

/-- The event `async connection error` of the input thread. -/
def asyncConnectionError (self : Agent) : Agent := { self with input := .connectionClosing }

/-- `s_execute_method`, then what follows in the event when no exception has been raised. -/
def executeMethod (self : Agent) (execute : Agent → Agent) (next : Agent → Agent) : Agent :=
  if self.exceptionRaised then self.asyncConnectionError
  else if (execute self).exceptionRaised then (execute self).connectionException
  else next (execute self)

/-- A handler of another class, which may raise a connection exception. -/
def handler (raises : Bool) (self : Agent) : Agent :=
  { self with exceptionRaised := self.exceptionRaised || raises }

/-- A request of high priority is queued with the connection thread. -/
def request (self : Agent) (request : Request) : Agent :=
  { self with requests := self.requests ++ [request] }

def record (self : Agent) (entry : Entry) : Agent := { self with log := self.log ++ [entry] }

/-- `execute channel open` -/
def channelOpen (self : Agent) (raises : Bool) : Agent :=
  if self.channelState = .closed then
    { self with
      channel := some self.nextChannel
      nextChannel := self.nextChannel + 1
      channelState := .opening }.executeMethod (handler raises) fun self =>
        (self.request .sendChannelOpenOk).record .channelOpen
  else self.connectionException

/-- `execute channel close`; nothing when the handler gets a channel that has been destroyed. -/
def channelClose (self : Agent) (raises : Bool) : Option Agent :=
  if self.channelState = .opened then
    if self.channel.isNone then none
    else
      some ({ self with channelState := .closing }.executeMethod (handler raises) fun self =>
        (self.request .sendChannelCloseOk).record .channelClose)
  else some self.connectionException

/-- `execute channel close ok` -/
def channelCloseOk (self : Agent) : Agent :=
  if self.channelState = .closing then { self with channel := none, channelState := .closed }
  else self.connectionException

/-- `execute channel flow` and `execute channel flow ok` -/
def channelFlow (self : Agent) (raises : Bool) : Option Agent :=
  if self.channelState = .opened then
    if self.channel.isNone then none else some (self.executeMethod (handler raises) id)
  else some self.connectionException

/-- `execute functional method` -/
def functional (self : Agent) (frameChannel : Nat) (raises : Bool) : Option Agent :=
  if self.exceptionRaised then some self.asyncConnectionError
  else if frameChannel ≠ 1 then some self.connectionException
  else if self.channelState = .opened then
    if self.channel.isNone then none
    else some ((self.record .functional).executeMethod (handler raises) id)
  else some self

/-- `check connection method` and the event that it sets. -/
def connectionMethod (config : LoginConfig) (self : Agent) : ClientMethod → Agent
  | .connectionStartOk response undefined =>
    self.executeMethod (startOk config · response undefined) fun self =>
      (self.request .connectionStartOk).record (.startOk response)
  | .connectionTuneOk =>
    self.executeMethod id fun self => (self.request .connectionTuneOk).record .tuneOk
  | .connectionOpen virtualHost broker =>
    self.executeMethod (openConnection config · virtualHost broker) fun self =>
      (self.request .connectionOpen).record .open
  | .connectionClose => { self with exception := some .connectionClose, input := .ended }
  | .connectionCloseOk => { self.request .connectionCloseOk with input := .ended }
  | _ => self.connectionException

/-- `check channel method` and the event that it sets. -/
def channelMethod (self : Agent) : ClientMethod → Option Agent
  | .channelOpen raises => some (self.channelOpen raises)
  | .channelClose raises => self.channelClose raises
  | .channelCloseOk => some self.channelCloseOk
  | .channelFlow raises => self.channelFlow raises
  | .channelFlowOk raises => self.channelFlow raises
  | _ => some self.connectionException

/-- `check method class`: whether a method is one of the class connection. -/
def ClientMethod.isConnection : ClientMethod → Bool
  | .connectionStartOk _ _ | .connectionTuneOk | .connectionOpen _ _ | .connectionClose
  | .connectionCloseOk | .connectionOther => true
  | _ => false

/-- `have incoming method` -/
def incomingMethod (config : LoginConfig) (self : Agent) (frameChannel : Nat) :
    ClientMethod → Option Agent
  | .functional raises => self.functional frameChannel raises
  | method =>
    if ClientMethod.isConnection method then
      if frameChannel ≠ 0 then some self.connectionException
      else some (self.connectionMethod config method)
    else if frameChannel ≠ 1 then some self.connectionException
    else self.channelMethod method

/-- The input thread reads a method. While the connection is closing it waits for one only. -/
def receive (config : LoginConfig) (self : Agent) (frameChannel : Nat) (method : ClientMethod) :
    Option Agent :=
  match self.input with
  | .haveIncomingMethod => self.incomingMethod config frameChannel method
  | .connectionClosing =>
    match method with
    | .connectionCloseOk => some { self.request .connectionCloseOk with input := .ended }
    | _ => some self
  | .ended => some self

/-! ## The connection thread -/

def endThread (self : Agent) : Agent := { self with phase := .ended, input := .ended }

/-- `report_unrecognised_event_error` -/
def unrecognisedEvent (self : Agent) (event : Unrecognised) : Agent :=
  { self with aborted := some event }

def takeException (self : Agent) (exception : ThreadException) : Agent :=
  match self.phase, exception with
  | .ended, _ => { self with exception := none }
  | .closeTheConnection, _ => { self with exception := none }.endThread
  | _, .connectionError => { self with exception := none, phase := .closeTheConnection }
  | _, _ => { self with exception := none }.endThread

/-- `s_connection_exception` in the connection thread. -/
def raiseConnectionError (self : Agent) : Agent :=
  { self with exceptionRaised := true, exception := some .connectionError }

/-- A request in the state `initialise connection`. -/
def initialise (self : Agent) : Request → Agent
  | .connectionStartOk => self
  | .connectionTuneOk => self
  | .connectionOpen => { self.record .active with phase := .connectionActive }
  | .connectionError => { self with phase := .closeTheConnection }
  | .shutdown => self.endThread
  | request => self.unrecognisedEvent (.request request)

/-- `send channel close`, nothing when its assertion fails. -/
def sendChannelClose (self : Agent) (error : Nat) : Option Agent :=
  match self.channel with
  | none => none
  | some channel =>
    if error ≠ channel then none
    else if self.channelState = .opened then
      some { self.record (.closeSent error channel) with channelState := .closing }
    else some self.raiseConnectionError

/-- `send channel open ok` -/
def sendChannelOpenOk (self : Agent) : Option Agent :=
  if self.channelState = .opening then
    some { self.record .openOkSent with channelState := .opened }
  else none

/-- `send channel close ok` -/
def sendChannelCloseOk (self : Agent) : Option Agent :=
  if self.channelState = .closing then
    some { self.record .closeOkSent with channel := none, channelState := .closed }
  else none

/-- A request in the state `connection active`. -/
def active (self : Agent) : Request → Option Agent
  | .channelError channel => self.sendChannelClose channel
  | .sendChannelOpenOk => self.sendChannelOpenOk
  | .sendChannelCloseOk => self.sendChannelCloseOk
  | .connectionError => some self.raiseConnectionError
  | .killConnection => some self.raiseConnectionError
  | .shutdown => some { self with exceptionRaised := true, phase := .closeTheConnection }
  | request => some (self.unrecognisedEvent (.request request))

/-- A request in the state `close the connection`, which has a default for the others. -/
def closing (self : Agent) : Request → Agent
  | .connectionCloseOk => self.endThread
  | _ => self

/-- A request of high priority that has been taken from the queue. -/
def takeRequest (self : Agent) (request : Request) : Option Agent :=
  match self.phase with
  | .initialiseConnection => some (self.initialise request)
  | .connectionActive => self.active request
  | .closeTheConnection => some (self.closing request)
  | _ => some self

/-- A method to send that has been taken from the queue, with the frames of its content. -/
def takeSend (self : Agent) (frames : Option Nat) : Agent :=
  match self.phase with
  | .initialiseConnection => self.unrecognisedEvent .send
  | .connectionActive =>
    match frames with
    | some frames =>
      if self.channelState = .opened then { self with phase := .sendContentBody (frames + 1) }
      else self
    | none => self
  | _ => self

/-- `earn`, nothing when the channel has been destroyed. -/
def earn (self : Agent) : Option Agent :=
  if self.channel.isNone then none else some { self with phase := .connectionActive }

/-- One turn: an exception, the next frame of a content, or a request. -/
def connectionThread (self : Agent) : Option Agent :=
  match self.exception with
  | some exception => some (self.takeException exception)
  | none =>
    match self.phase with
    | .sendContentBody (frames + 1) => some { self with phase := .sendContentBody frames }
    | .sendContentBody 0 => self.earn
    | _ =>
      match self.requests, self.sends with
      | request :: requests, _ => { self with requests := requests }.takeRequest request
      | [], frames :: sends => some ({ self with sends := sends }.takeSend frames)
      | [], [] => some self

/-! ## All that can happen -/

inductive Event where
  /-- The input thread has read a method on the channel of its frame. -/
  | receive (frameChannel : Nat) (method : ClientMethod)
  /-- A connection exception while the input thread reads. -/
  | inputError
  /-- The input thread aborts the connection, or loses its socket. -/
  | inputAbort
  /-- The heartbeat thread takes the peer for dead. -/
  | peerDead
  /-- A turn of the connection thread. -/
  | connectionThread
  /-- A queue or an exchange raises an error on a channel that it knows. -/
  | channelError (channel : Nat)
  | connectionError
  | killConnection
  | shutdown
  /-- A method is to be sent, with the number of body frames of its content. -/
  | send (frames : Option Nat)
  | setupTimeout
  | closeTimeout

/-- One step; nothing when an assertion fails, or when a destroyed channel is used. -/
def step (config : LoginConfig) (self : Agent) (event : Event) : Option Agent :=
  if self.aborted.isSome then some self
  else
    match event with
    | .receive frameChannel method => self.receive config frameChannel method
    | .inputError =>
      match self.input with
      | .haveIncomingMethod => some self.connectionException
      | .connectionClosing =>
        some { self with exception := some .externalException, input := .ended }
      | .ended => some self
    | .inputAbort =>
      if self.input = .ended then some self
      else some { self with exception := some .externalException, input := .ended }
    | .peerDead => some { self with exception := some .externalException }
    | .connectionThread => self.connectionThread
    | .channelError channel => some (self.request (.channelError channel))
    | .connectionError => some (self.request .connectionError)
    | .killConnection => some (self.request .killConnection)
    | .shutdown => some (self.request .shutdown)
    | .send frames => some { self with sends := self.sends ++ [frames] }
    | .setupTimeout =>
      if self.phase = .initialiseConnection then some self.endThread else some self
    | .closeTimeout =>
      if self.phase = .closeTheConnection then some self.endThread else some self

/-! ## What most actions leave alone -/

/--
The log, the requests, the channel and the login are left alone. The input thread does not come
back, and the connection thread goes on where it is or is on its way out.
-/
structure Quiet (before after : Agent) : Prop where
  log : after.log = before.log
  requests : after.requests = before.requests
  channelState : after.channelState = before.channelState
  channel : after.channel = before.channel
  group : after.group = before.group
  aborted : after.aborted = before.aborted
  input : after.input = .haveIncomingMethod → before.input = .haveIncomingMethod
  phase : after.phase = before.phase ∨ after.phase = .closeTheConnection ∨ after.phase = .ended

variable (self : Agent)

theorem Quiet.refl : Quiet self self := ⟨rfl, rfl, rfl, rfl, rfl, rfl, id, .inl rfl⟩

theorem connectionException_quiet : Quiet self self.connectionException :=
  ⟨rfl, rfl, rfl, rfl, rfl, rfl, nofun, .inl rfl⟩

theorem asyncConnectionError_quiet : Quiet self self.asyncConnectionError :=
  ⟨rfl, rfl, rfl, rfl, rfl, rfl, nofun, .inl rfl⟩

theorem endThread_quiet : Quiet self self.endThread :=
  ⟨rfl, rfl, rfl, rfl, rfl, rfl, nofun, .inr (.inr rfl)⟩

theorem raiseConnectionError_quiet : Quiet self self.raiseConnectionError :=
  ⟨rfl, rfl, rfl, rfl, rfl, rfl, id, .inl rfl⟩

theorem executeMethod_cases (execute next : Agent → Agent) :
    self.exceptionRaised ∧ self.executeMethod execute next = self.asyncConnectionError ∨
      self.executeMethod execute next = (execute self).connectionException ∨
      (execute self).exceptionRaised = false ∧
        self.executeMethod execute next = next (execute self) := by
  unfold executeMethod
  by_cases hraised : self.exceptionRaised
  · exact .inl ⟨hraised, if_pos hraised⟩
  rw [if_neg hraised]
  by_cases hexecute : (execute self).exceptionRaised
  · exact .inr (.inl (if_pos hexecute))
  · exact .inr (.inr ⟨Bool.not_eq_true _ ▸ hexecute, if_neg hexecute⟩)

theorem handler_quiet (raises : Bool) : Quiet self (handler raises self) :=
  ⟨rfl, rfl, rfl, rfl, rfl, rfl, id, .inl rfl⟩

theorem handlerException_quiet (raises : Bool) :
    Quiet self (handler raises self).connectionException :=
  ⟨rfl, rfl, rfl, rfl, rfl, rfl, nofun, .inl rfl⟩

theorem executeHandler_quiet (raises : Bool) :
    Quiet self (self.executeMethod (handler raises) id) := by
  rcases executeMethod_cases self (handler raises) id with ⟨-, h⟩ | h | ⟨-, h⟩
  · rw [h]
    exact asyncConnectionError_quiet self
  · rw [h]
    exact handlerException_quiet self raises
  · rw [h]
    exact handler_quiet self raises

theorem takeException_quiet (exception : ThreadException) :
    Quiet self (self.takeException exception) := by
  unfold takeException
  split
  · exact ⟨rfl, rfl, rfl, rfl, rfl, rfl, id, .inl rfl⟩
  · exact ⟨rfl, rfl, rfl, rfl, rfl, rfl, nofun, .inr (.inr rfl)⟩
  · exact ⟨rfl, rfl, rfl, rfl, rfl, rfl, id, .inr (.inl rfl)⟩
  · exact ⟨rfl, rfl, rfl, rfl, rfl, rfl, nofun, .inr (.inr rfl)⟩

theorem closing_quiet (request : Request) : Quiet self (self.closing request) := by
  unfold closing
  split
  · exact endThread_quiet self
  · exact .refl self

end Agent

end OpenAmq
