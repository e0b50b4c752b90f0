import OpenAmq.Lib.Run

/-!
# The failover agent and a pair of brokers

Two brokers of a pair each run a failover agent. Each tells the other its own state from time
to time, and each asks its agent whether an application may connect. Both may be stopped and
started again.

* `Failover` — the agent of one broker
* `Failover.execute`, `contentHandler`, `connect` — what it does with an event
* `Cluster` — the two brokers, with the states that are on their way to each of them
-/

namespace OpenAmq

/-! ## One broker -/

inductive HaState where
  /-- Waiting for peer to connect. -/
  | pending
  /-- Accepting connections. -/
  | active
  /-- Not accepting connections. -/
  | passive
  deriving DecidableEq, Repr

/-- The value of the C enumeration, which is what the peer is told. -/
def HaState.code : HaState → Int
  | .pending => 1
  | .active => 2
  | .passive => 3

inductive HaEvent where
  | peerPending
  | peerActive
  | peerPassive
  | newConnection
  deriving DecidableEq, Repr

/-- `AMQ_CONNECTION_GROUP_NORMAL` is for applications, `AMQ_CONNECTION_GROUP_SUPER` is not. -/
inductive ConnectionGroup where
  | normal
  | super
  deriving DecidableEq, Repr

/-- Times are in microseconds. -/
structure Failover where
  /-- The broker is the primary one of the pair. -/
  primary : Bool
  timeout : Int
  state : HaState
  lastPeerTime : Int
  deriving DecidableEq, Repr

namespace Failover

/-- The agent of a broker that has just been started with a `backup` or a `primary` option. -/
def new (primary : Bool) (timeout : Int) : Failover :=
  { primary, timeout, state := .pending, lastPeerTime := 0 }

/-- The peer has not been heard of for longer than the failover timeout. -/
def PeerSilent (self : Failover) (now : Int) : Prop :=
  now - self.lastPeerTime > self.timeout

instance (self : Failover) (now : Int) : Decidable (self.PeerSilent now) :=
  inferInstanceAs (Decidable (_ > _))

/-- The state machine, with its answer to a new connection; `none` is a failed assertion. -/
def execute (self : Failover) (event : HaEvent) (now : Int) : Option (Failover × Bool) :=
  match self.state with
  | .pending =>
    match event with
    | .peerPending =>
      if self.primary = true then some ({ self with state := .active }, false)
      else some (self, false)
    | .peerActive => some ({ self with state := .passive }, false)
    | .peerPassive => some (self, false)
    -- a pending primary accepts connections before it has heard of the backup
    | .newConnection => some (self, self.primary)
  | .active =>
    match event with
    | .peerPending => some (self, false)
    | .peerActive => none
    | .peerPassive => some (self, false)
    | .newConnection => some (self, true)
  | .passive =>
    match event with
    | .peerPending => some ({ self with state := .active }, false)
    | .peerActive => some (self, false)
    | .peerPassive => none
    | .newConnection =>
      if self.PeerSilent now then some ({ self with state := .active }, true)
      else some (self, false)

/-- The event that stands for a state of the peer, `none` for a number that is no state. -/
def peerEvent (state : Int) : Option HaEvent :=
  if state = HaState.pending.code then some .peerPending
  else if state = HaState.active.code then some .peerActive
  else if state = HaState.passive.code then some .peerPassive
  else none

/-- The number in the message that `send state` publishes. -/
def sendState (self : Failover) : Int := self.state.code

/-- A message with the state of the peer has come in. -/
def contentHandler (self : Failover) (state now : Int) : Option Failover :=
  (peerEvent state).bind fun event =>
    (execute { self with lastPeerTime := now } event now).map Prod.fst

/-- A client opens a connection; only applications are put to the vote. -/
def connect (self : Failover) (group : ConnectionGroup) (now : Int) : Option (Failover × Bool) :=
  match group with
  | .normal => self.execute .newConnection now
  | .super => some (self, true)

end Failover

/-! ## The pair -/

inductive Role where
  | primary
  | backup
  deriving DecidableEq, Repr

def Role.peer : Role → Role
  | .primary => .backup
  | .backup => .primary

/-- A broker of the pair, with the states the other one has sent it, oldest first. -/
structure HaBroker where
  up : Bool
  failover : Failover
  inbox : List Int
  deriving DecidableEq, Repr

abbrev Cluster := Role → HaBroker

inductive ClusterEvent where
  /-- The monitor timer of a broker expires. -/
  | monitor (role : Role)
  | deliver (role : Role) (now : Int)
  | connect (role : Role) (group : ConnectionGroup) (now : Int)
  | stop (role : Role)
  | start (role : Role)
  deriving DecidableEq, Repr

namespace Cluster

/-- Both brokers have been started and have not heard of each other. -/
def initial (timeout : Role → Int) : Cluster :=
  fun role => ⟨true, .new (decide (role = .primary)) (timeout role), []⟩

def set (c : Cluster) (role : Role) (broker : HaBroker) : Cluster :=
  fun r => if r = role then broker else c r

/--
One event, `none` when a broker aborts.

A state that is sent to a broker that is not there is discarded, and a broker that stops loses
what it has not read. An event at a broker that is in no condition for it changes nothing.
-/
def step (c : Cluster) : ClusterEvent → Option Cluster
  | .monitor role =>
    if (c role).up = true ∧ (c role.peer).up = true then
      some (c.set role.peer
        { c role.peer with inbox := (c role.peer).inbox ++ [(c role).failover.sendState] })
    else some c
  | .deliver role now =>
    match (c role).up, (c role).inbox with
    | true, state :: inbox =>
      ((c role).failover.contentHandler state now).map fun failover =>
        c.set role { c role with failover, inbox }
    | _, _ => some c
  | .connect role group now =>
    if (c role).up = true then
      ((c role).failover.connect group now).map fun r =>
        c.set role { c role with failover := r.1 }
    else some c
  | .stop role => some (c.set role { c role with up := false, inbox := [] })
  | .start role =>
    if (c role).up = true then some c
    else
      some (c.set role ⟨true, .new (c role).failover.primary (c role).failover.timeout, []⟩)

/-- A broker finds its peer silent only while that is stopped. -/
def Timely (c : Cluster) : ClusterEvent → Prop
  | .connect role _ now => (c role).failover.PeerSilent now → (c role.peer).up = false
  | _ => True

instance (c : Cluster) : (e : ClusterEvent) → Decidable (c.Timely e)
  | .connect _ _ _ => inferInstanceAs (Decidable (_ → _))
  | .monitor _ | .deliver _ _ | .stop _ | .start _ => isTrue trivial

/-- An application that connects to the broker now is let in. -/
def Accepts (c : Cluster) (role : Role) : Prop :=
  (c role).up = true ∧ ∃ now failover, c.Timely (.connect role .normal now) ∧
    (c role).failover.connect .normal now = some (failover, true)

/-- Applications may connect to either of the two. -/
def SplitBrain (c : Cluster) : Prop :=
  ∀ role, c.Accepts role

end Cluster

end OpenAmq
