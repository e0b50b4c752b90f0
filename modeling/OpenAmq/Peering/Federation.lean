import OpenAmq.Peering.Model

/-!
# Federated exchanges

An exchange with a federation tells it of every binding that is created or destroyed. The
federation passes this on to its peering, according to its type, and the peering keeps a list of
the bindings. All three work on their own: what one tells the next one is taken later, in order.

* `FederationType.requests` — what a federation asks of its peering
* `FederatedExchange` — the exchange, the federation and the peering
* `FederatedExchange.step` — one of them does something
-/

namespace OpenAmq

namespace FederationType

/-- The test of `binding created`. -/
def forwards (type : FederationType) (exclusive : Bool) : Bool :=
  decide ((type = .subscriber ∨ type = .fanout) ∨ (type = .service ∧ exclusive = true))

/-- The test of `binding destroyed`. -/
def retracts (type : FederationType) : Bool :=
  decide (type = .subscriber ∨ type = .fanout ∨ type = .service)

/-- `amq_federation_binding_created` and `amq_federation_binding_destroyed` -/
def requests (type : FederationType) : Notice → List PeeringEvent
  | .federationBindingCreated routingKey arguments exclusive =>
    if type.forwards exclusive then [.bind routingKey arguments] else []
  | .federationBindingDestroyed routingKey arguments =>
    if type.retracts then [.unbind routingKey arguments] else []
  -- for a queue or a channel
  | .queueBindingRegister _ _ | .queueBindingCancel _ _ | .channelError _ _ _ _ _ => []

end FederationType

namespace Exchange

/-- One turn of `amq_exchange_broker_unbind_queue`. -/
def brokerUnbind (self : Exchange) (addr : Nat) (listed queue : QueueRef) : Exchange :=
  (self.deref addr).elim self (self.popBinding · listed queue)

/--
The destructor of an exchange, for the next binding of its list.

By then the hash is gone, so that nothing is found in it.
-/
def destroyBinding (self : Exchange) : Exchange :=
  match self.bindingList with
  | [] => self
  | binding :: _ => { self.directUnbind binding with bindingHash := fun _ => none }

end Exchange

/-- An exchange with its federation, of the type `federation`, and the peering of that. -/
structure FederatedExchange where
  /-- what the federation has not been told yet is in `exchange.sent` -/
  exchange : Exchange
  federation : FederationType
  /-- what the peering has not done yet -/
  requests : List PeeringEvent := []
  peering : Peering

inductive FederatedEvent where
  | exchange (op : ExchangeOp)
  /-- one turn for a queue that is destroyed -/
  | brokerUnbind (addr : Nat) (listed queue : QueueRef)
  /-- one turn for an exchange that is destroyed -/
  | destroyBinding
  /-- the next notice of the exchange arrives -/
  | notice
  /-- the peering takes the next request -/
  | request
  /-- anything else that the peering does -/
  | peering (event : PeeringEvent)
deriving DecidableEq

namespace FederatedExchange

/-- `amq_exchange_new` for an exchange that is federated -/
def new (type : ExchangeType) (name : Shortstr) (federation : FederationType) :
    FederatedExchange where
  exchange := { type, federation := some federation }
  federation
  peering := .new name type

def step (env : Env) (self : FederatedExchange) : FederatedEvent → Option FederatedExchange
  | .exchange op => (self.exchange.step env op).map fun exchange => { self with exchange }
  | .brokerUnbind addr listed queue =>
    some { self with exchange := self.exchange.brokerUnbind addr listed queue }
  | .destroyBinding => some { self with exchange := self.exchange.destroyBinding }
  | .notice =>
    match self.exchange.sent with
    | [] => some self
    | notice :: sent =>
      some { self with
        exchange := { self.exchange with sent }
        requests := self.requests ++ self.federation.requests notice }
  | .request =>
    match self.requests with
    | [] => some self
    | request :: requests =>
      (self.peering.step request).map fun peering => { self with requests, peering }
  -- bindings are requested by the federation alone
  | .peering (.bind _ _) | .peering (.unbind _ _) => some self
  | .peering event => (self.peering.step event).map fun peering => { self with peering }

end FederatedExchange

end OpenAmq
