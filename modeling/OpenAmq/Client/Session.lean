import OpenAmq.Icl
import OpenAmq.Lib.Run

/-!
# Sessions of the client

A session is used by one thread of the application. Its calls wait for methods of the protocol
agent, and in such a wait the contents arrive. A wait can call the session again: with
`channel.flow`, from where a content is about to be queued. The waits in progress are a stack.

* `pushArrived` — what happens to a content that arrives
* `basicArrived` — the application takes a content
* `handle` — one turn of the loop of `s_wait_for_methods`
* `step` — one thing that the agent or the application does
-/

namespace OpenAmq.Client

/-! ## Data -/

/-- `amq_content_basic_t`, with the fields that the session sets. -/
structure Content (α : Type) where
  exchange : Shortstr
  routingKey : Shortstr
  consumerTag : Shortstr
  deliveryTag : Int
  returned : Bool
  /-- everything else, with the delta that a chronometer gets on arrival -/
  message : α
deriving DecidableEq

/-- What the settings and the connection say. -/
structure Config where
  highWater : Int
  lowWater : Int
  onOverflow : Str
  /-- `connection->direct` -/
  direct : Bool

/-- What is called when a method of the protocol is executed. -/
inductive Action (α : Type) where
  /-- `basic.deliver` and `basic.get-ok`, the latter without a consumer tag -/
  | arrived (content : Content α) (exchange routingKey : Str) (consumerTag : Option Str)
      (deliveryTag : Int)
  /-- `basic.return` -/
  | returned (content : Content α) (exchange routingKey : Str)
  | other

/-- `amq_client_method_t` -/
structure Method (α : Type) where
  sync : Bool
  action : Action α

def Method.hasContent {α : Type} (method : Method α) : Bool :=
  match method.action with
  | .arrived _ _ _ _ _ | .returned _ _ _ => true
  | .other => false

/-- What the agent puts into the method queue of a session. -/
inductive Reply (α : Type) where
  | almost (method : Option (Method α))
  | intern
  | method (method : Option (Method α))
  | closed
  | directOk
  | directNg
  | directMsg (content : Content α)
  | invalid

/-- What a wait is for, and what happens when it ends. -/
inductive Caller (α : Type) where
  /-- a call of the application, which goes on -/
  | session
  /-- `channel.flow` to restart the flow, in `basic arrived` -/
  | restart
  /--
  `channel.flow` to stop the flow, in `push arrived`: the content is queued. The wait in which
  it has arrived ends or goes on then.
  -/
  | stop (content : Content α) (ends : Bool)

/-- A call of `s_wait_for_methods` in progress. -/
structure Wait (α : Type) where
  blocking : Bool
  wantContent : Bool
  gotContent : Bool
  caller : Caller α

/-- `amq_client_session_t` -/
structure Session (α : Type) where
  alive : Bool
  errorText : Str
  flowStopped : Bool
  arrived : List (Content α)
  returned : List (Content α)
  exchange : Shortstr
  routingKey : Shortstr
  consumerTag : Shortstr
  deliveryTag : Int
  /-- the waits in progress, the last one first -/
  waits : List (Wait α)
  /-- the server has been told to stop, and not to restart -/
  told : Bool

/-- What others get from a session. -/
inductive Note (α : Type) where
  /-- a content for the application -/
  | given (content : Content α)
  /-- `channel.flow` for the server -/
  | flow (active : Bool)
  /-- the return code of a call of the application -/
  | code (rc : Int)
deriving DecidableEq

variable {α : Type}

/-! ## Contents that arrive -/

/-- The fields that are stamped into an arrived content. A null pointer leaves a field. -/
def Content.stamp (self : Content α) (exchange routingKey consumerTag : Option Str)
    (deliveryTag : Int) : Content α :=
  { self with
    exchange := match exchange with
      | some (c :: text) => .cpy (c :: text)
      | _ => self.exchange
    -- the text is not tested here
    routingKey := match routingKey with
      | some text => .cpy text
      | none => self.routingKey
    consumerTag := match consumerTag with
      | some (c :: text) => .cpy (c :: text)
      | _ => self.consumerTag
    deliveryTag := deliveryTag }

namespace Session

/-- The session once `new` has returned. -/
def new : Session α where
  alive := true
  errorText := "no error".toList
  flowStopped := false
  arrived := []
  returned := []
  exchange := .empty
  routingKey := .empty
  consumerTag := .empty
  deliveryTag := 0
  waits := []
  told := false

/--
The last wait returns. A content that has been held is queued, and where the wait below is at
its end, that one returns as well.
-/
def returns (self : Session α) (rc : Int) : List (Wait α) → Session α × List (Note α)
  | [] => ({ self with waits := [] }, [])
  | wait :: waits =>
    match wait.caller with
    | .session => ({ self with waits }, [.code rc])
    | .restart => ({ self with waits }, [])
    | .stop content ends =>
      let self := { self with arrived := self.arrived ++ [content], waits }
      if ends then self.returns 0 waits else (self, [])

/-- The loop of the last wait is left, or goes on. -/
def resume (self : Session α) (ends : Bool) : Session α × List (Note α) :=
  if ends then self.returns 0 self.waits else (self, [])

def store (self : Session α) (content : Content α) (ends : Bool) : Session α × List (Note α) :=
  { self with arrived := self.arrived ++ [content] }.resume ends

/--
`channel flow`: as long as the session is alive the agent takes the method, and the session
waits for a reply.
-/
def channelFlow (self : Session α) (active : Bool) (caller : Caller α) : Session α :=
  { self with
    told := !active
    waits := ⟨true, false, false, caller⟩ :: self.waits }

/--
`push arrived` for a stamped content, and what the wait does then. `none` is the end of the
process.
-/
def pushArrived (cfg : Config) (self : Session α) (content : Content α) (ends : Bool) :
    Option (Session α × List (Note α)) :=
  if cfg.highWater ≠ 0 ∧ (self.arrived.length : Int) = cfg.highWater then
    if cfg.direct then
      if cfg.onOverflow = "warn".toList then
        some ({ self with flowStopped := true }.store content ends)
      else if cfg.onOverflow = "trim".toList then
        some ({ self with arrived := self.arrived.tail }.store content ends)
      else if cfg.onOverflow = "drop".toList then some (self.resume ends)
      else if cfg.onOverflow = "kill".toList then none
      else some (self.store content ends)
    else if self.flowStopped then some (self.store content ends)
    else
      let self := { self with flowStopped := true }
      if self.alive then some (self.channelFlow false (.stop content ends), [.flow false])
      else some ({ self with errorText := "session is closed".toList }.store content ends)
  else some (self.store content ends)

/-- `push returned` for a stamped content. -/
def pushReturned (self : Session α) (content : Content α) (ends : Bool) :
    Session α × List (Note α) :=
  { self with returned := self.returned ++ [{ content with returned := true }] }.resume ends

/-- `amq_client_method_execute`, and what the wait does then. -/
def execute (cfg : Config) (self : Session α) (action : Action α) (ends : Bool) :
    Option (Session α × List (Note α)) :=
  match action with
  | .arrived content exchange routingKey consumerTag deliveryTag =>
    self.pushArrived cfg (content.stamp exchange routingKey consumerTag deliveryTag) ends
  | .returned content exchange routingKey =>
    some (self.pushReturned (content.stamp exchange routingKey none 0) ends)
  | .other => some (self.resume ends)

/-! ## Waiting -/

/-- The wait that ends with a return code. -/
def fails (self : Session α) (errorText : String) : Session α × List (Note α) :=
  { self with errorText := errorText.toList }.returns (-1) self.waits

/-- One turn of the loop of `s_wait_for_methods`, with `pending` methods left in the queue. -/
def handle (cfg : Config) (self : Session α) (wait : Wait α) (waits : List (Wait α))
    (pending : Nat) : Reply α → Option (Session α × List (Note α))
  | .almost none => some (self, [])
  | .almost (some method) => self.execute cfg method.action false
  | .intern => some (self.returns 0 self.waits)
  | .method none => some (self.returns 0 self.waits)
  | .method (some method) =>
    let gotContent := wait.gotContent || method.hasContent
    { self with waits := { wait with gotContent } :: waits }.execute cfg method.action
      (method.sync || gotContent && wait.wantContent && pending == 0)
  | .closed => some ({ self with alive := false }.fails "session is closed")
  | .directOk => some (self.returns 0 self.waits)
  | .directNg => some (self.fails "direct connection failed")
  | .directMsg content =>
    self.pushArrived cfg (content.stamp none none none 0) (wait.wantContent && pending == 0)
  | .invalid =>
    some ({ self with
      errorText := "Internal error - invalid reply method from protocol agent".toList }, [])

/-- The method queue stays empty until the timeout, or is destroyed. -/
def timeout (self : Session α) (wait : Wait α) (zombie : Bool) : Session α × List (Note α) :=
  if wait.blocking then
    self.fails (if zombie then "No reply - method queue destroyed"
      else "No reply received - timeout")
  else self.returns 0 self.waits

/-! ## Calls of the application -/

/-- A session method, which waits for a reply or for the agent to have sent it. -/
def call (self : Session α) (blocking : Bool) : Session α × List (Note α) :=
  if self.alive then
    ({ self with waits := [⟨blocking, false, false, .session⟩] }, [])
  else ({ self with errorText := "session is closed".toList }, [.code (-1)])

/-- `channel flow`, called by the application. -/
def callChannelFlow (self : Session α) (active : Bool) : Session α × List (Note α) :=
  if self.alive then (self.channelFlow active .session, [.flow active])
  else ({ self with errorText := "session is closed".toList }, [.code (-1)])

/-- `wait`; a content of the chronometer is published before, by a call of its own. -/
def wait (self : Session α) : Session α × List (Note α) :=
  if !self.arrived.isEmpty || !self.returned.isEmpty then (self, [.code 0])
  else if self.alive then
    ({ self with waits := [⟨false, true, false, .session⟩] }, [])
  else ({ self with errorText := "session is closed".toList }, [.code (-1)])

/-- The fields of the session that are those of the last content taken. -/
def patch (self : Session α) (content : Content α) : Session α :=
  { self with
    exchange := content.exchange
    routingKey := content.routingKey
    consumerTag := if content.consumerTag = .empty then self.consumerTag else content.consumerTag
    deliveryTag := content.deliveryTag }

/-- The first part of `basic arrived`: the next content is taken off the list, if any. -/
def pop (self : Session α) : Session α × List (Note α) :=
  match self.arrived with
  | [] => (self, [])
  | content :: arrived => ({ self with arrived }.patch content, [.given content])

/-- `basic arrived` -/
def basicArrived (cfg : Config) (self : Session α) : Session α × List (Note α) :=
  let (self, notes) := self.pop
  if cfg.highWater ≠ 0 ∧ (self.arrived.length : Int) = cfg.lowWater ∧ self.flowStopped = true then
    let self := { self with flowStopped := false }
    if self.alive then (self.channelFlow true .restart, notes ++ [.flow true])
    else ({ self with errorText := "session is closed".toList }, notes)
  else (self, notes)

/-- `basic returned` -/
def basicReturned (self : Session α) : Session α :=
  { self with returned := self.returned.tail }

end Session

/-! ## Steps -/

inductive Event (α : Type) where
  /-- a wait takes a method from the queue, where `pending` are left -/
  | reply (reply : Reply α) (pending : Nat)
  | timeout (zombie : Bool)
  /-- the agent has closed the channel, and its method is still in the queue -/
  | dies
  | call (blocking : Bool)
  | channelFlow (active : Bool)
  | wait
  | basicArrived
  | basicReturned

namespace Session

/--
One event. Methods come while the session waits, and the application calls while it does not.
-/
def step (cfg : Config) (self : Session α) (event : Event α) : Option (Session α × List (Note α)) :=
  match event, self.waits with
  | .reply reply pending, wait :: waits => self.handle cfg wait waits pending reply
  | .timeout zombie, wait :: _ => some (self.timeout wait zombie)
  | .dies, _ => some ({ self with alive := false }, [])
  | .call blocking, [] => some (self.call blocking)
  | .channelFlow active, [] => some (self.callChannelFlow active)
  | .wait, [] => some self.wait
  | .basicArrived, [] => some (self.basicArrived cfg)
  | .basicReturned, [] => some (self.basicReturned, [])
  | _, _ => none

/-- The session after a run, and all notes of its steps. -/
def outcome (cfg : Config) (events : List (Event α)) : Option (Session α × List (Note α)) :=
  Lib.run (Lib.logged (step cfg)) (new, []) events

end Session

end OpenAmq.Client
