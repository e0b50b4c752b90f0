import OpenAmq.Exchange.Delivery
import OpenAmq.Peering.Federation

/-!
# Messages of a federated exchange

An exchange passes a message on to its own queues, to the parent of its federation, or to both,
and returns a mandatory one that went nowhere. What the parent delivers is published on the
exchange again, without a channel.

* `publishMessage` — `amq_exchange_publish`
* `contentHandler` — a message that arrives from the parent
* `Disposed`, `disposes_iff` — where a message goes, and when it does not go back to the parent
* `federation_disposition` — the same across the echo of a message
-/

namespace OpenAmq

open Option List

/-! ## Publishing -/

/-- What an exchange reads of a message. -/
structure Message where
  routingKey : Shortstr
  headers : Option Longstr
  content : Content
  /-- `content->returned` -/
  returned : Bool := false
deriving DecidableEq

/-- `amq_federation_message_published`, for federations of any type. -/
def FederationType.messagePublished (message : Message) (mandatory immediate : Bool) :
    List PeeringEvent :=
  [.forward ⟨message.routingKey, message.content, mandatory, immediate⟩]

/-- What has become of a message. -/
structure Outcome where
  exchange : Exchange
  /-- the queues of this server that it has been passed on to -/
  queues : List QueueRef := []
  /-- it was for the console, the one internal service -/
  console : Bool := false
  /-- what has been asked of the peering -/
  requests : List PeeringEvent := []
  /-- the connection of a `basic.return` -/
  returnedTo : Option ConnectionId := none
  message : Message
  /-- `delivered`, which goes into the statistics of the exchange -/
  delivered : Nat

namespace Exchange

/-- The routing key of the console on a system exchange. -/
def consoleKey : Str := "amq.console".toList

/-- Publishes a message locally: the exchange, the queues, and whether the console accepts it. -/
def localPublish (env : Env) (self : Exchange) (message : Message) :
    Option (Exchange × List QueueRef × Bool) :=
  (self.publish env message.routingKey message.headers).map fun r =>
    (r.1, r.2, decide (self.type = .system ∧ message.routingKey.chars = consoleKey))

/-- The test for publishing to the federation. -/
def forwards (self : Exchange) (channel : Option Channel) (delivered : Nat) : Bool :=
  decide (self.federation = some .publisher ∨ (self.federation = some .fanout ∧ channel.isSome) ∨
    (self.federation = some .locator ∧ delivered = 0) ∨
    (self.federation = some .service ∧ delivered = 0))

/-- `amq_exchange_publish` once the message has been published locally. -/
def disposeOf (self : Exchange) (channel : Option Channel) (message : Message)
    (mandatory immediate : Bool) (queues : List QueueRef) (console : Bool) (delivered : Nat) :
    Outcome :=
  let forward := self.forwards channel delivered
  let requests :=
    if forward then FederationType.messagePublished message mandatory immediate else []
  let delivered := if forward then delivered + 1 else delivered
  let returnedTo :=
    if delivered = 0 ∧ mandatory = true ∧ message.returned = false then
      channel.bind (·.connection)
    else none
  { exchange := self, queues, console, requests, returnedTo, delivered
    message := { message with returned := message.returned || returnedTo.isSome } }

/--
`amq_exchange_publish`

With a fanout federation a message from a client only goes to the parent, and its local
delivery is faked.
-/
def publishMessage (env : Env) (self : Exchange) (channel : Option Channel) (message : Message)
    (mandatory immediate : Bool) : Option Outcome :=
  if self.federation = some .fanout ∧ channel.isSome then
    some (self.disposeOf channel message mandatory immediate [] false 1)
  else
    (self.localPublish env message).map fun r =>
      r.1.disposeOf channel message mandatory immediate r.2.1 r.2.2
        (r.2.1.length + if r.2.2 then 1 else 0)

/-- `s_content_handler`, which asserts that the federation is one that binds. -/
def contentHandler (env : Env) (self : Exchange) (message : Message) : Option Outcome :=
  match self.federation with
  | some .subscriber | some .fanout | some .service =>
    self.publishMessage env none { message with returned := false } false false
  | _ => none

end Exchange

/-- Where a message comes from. -/
inductive Origin where
  /-- the channel of a client, or of its lease -/
  | client (channel : Channel)
  /-- the console or the failover of this server -/
  | internal
  /-- the peering of the federation -/
  | parent
deriving DecidableEq

namespace Origin

def channel : Origin → Option Channel
  | client channel => some channel
  | internal | parent => none

def publish (env : Env) (exchange : Exchange) (message : Message) (mandatory immediate : Bool) :
    Origin → Option Outcome
  | client channel => exchange.publishMessage env (some channel) message mandatory immediate
  | internal => exchange.publishMessage env none message mandatory immediate
  | parent => exchange.contentHandler env message

end Origin

open Exchange

/-! ## One message -/

/-- The message has been passed on to a queue, or to the console. -/
def Outcome.Local (self : Outcome) : Prop := self.queues ≠ [] ∨ self.console = true

/--
A mandatory message is returned to its originator when it went nowhere, and a message is
forwarded once at most. With a fanout federation the messages of clients are forwarded only, and
all others are delivered here. What comes from the parent does not go back to it.
-/
structure Disposed (env : Env) (exchange : Exchange) (origin : Origin) (message : Message)
    (mandatory : Bool) (outcome : Outcome) : Prop where
  returned : ∀ connection, origin.channel.bind (·.connection) = some connection →
    message.returned = false → mandatory = true →
      (outcome.returnedTo = some connection ↔ ¬ outcome.Local ∧ outcome.requests = [])
  kept : mandatory = false ∨ origin.channel.bind (·.connection) = none → outcome.returnedTo = none
  forwardedOnce : outcome.requests.length ≤ 1
  fanoutClient : exchange.federation = some .fanout → origin.channel.isSome →
    outcome.requests.length = 1 ∧ ¬ outcome.Local
  fanoutParent : exchange.federation = some .fanout → origin.channel = none →
    outcome.requests = [] ∧ ∃ exchange', exchange.localPublish env message =
      some (exchange', outcome.queues, outcome.console)
  fromParent : origin = .parent → outcome.requests = []

/-- A message from the parent of a service federation for which there is no queue. -/
def Bounces (env : Env) (exchange : Exchange) (origin : Origin) (message : Message) : Prop :=
  origin = .parent ∧ exchange.federation = some .service ∧
    ∃ exchange', exchange.localPublish env message = some (exchange', [], false)

variable {exchange' : Exchange}

namespace Exchange

variable {env : Env} {self : Exchange} {channel : Option Channel} {message : Message}
  {mandatory immediate : Bool}

variable {queues : List QueueRef}

theorem federation_of_localPublish {console : Bool}
    (h : self.localPublish env message = some (exchange', queues, console)) :
    exchange'.federation = self.federation := by
  obtain ⟨r, hr, heq⟩ := map_eq_some_iff.mp h
  obtain ⟨hits, htype, rfl⟩ := map_eq_some_iff.mp hr
  obtain ⟨⟨indices, he⟩, -⟩ := typePublish_looks htype
  cases heq
  rw [he]

/-- The deliveries that `publish` of an exchange type counts. -/
def localCount (queues : List QueueRef) (console : Bool) : Nat :=
  queues.length + if console then 1 else 0

theorem localCount_eq_zero_iff {console : Bool} :
    localCount queues console = 0 ↔ queues = [] ∧ console = false := by
  cases console with
  | false | true => simp [localCount]

variable {outcome : Outcome}

theorem publishMessage_cases
    (h : self.publishMessage env channel message mandatory immediate = some outcome) :
    (self.federation = some .fanout ∧ channel.isSome ∧
      outcome = self.disposeOf channel message mandatory immediate [] false 1) ∨
    (¬ (self.federation = some .fanout ∧ channel.isSome) ∧ ∃ exchange' queues console,
      self.localPublish env message = some (exchange', queues, console) ∧
      outcome = exchange'.disposeOf channel message mandatory immediate queues console
        (localCount queues console)) := by
  unfold publishMessage at h
  by_cases hf : self.federation = some .fanout ∧ channel.isSome
  · rw [if_pos hf] at h
    exact .inl ⟨hf.1, hf.2, (some.inj h).symm⟩
  · rw [if_neg hf] at h
    obtain ⟨⟨exchange', queues, console⟩, hr, rfl⟩ := map_eq_some_iff.mp h
    exact .inr ⟨hf, exchange', queues, console, hr, rfl⟩

variable {queues : List QueueRef} {console : Bool} {delivered : Nat}

theorem requests_disposeOf : (self.disposeOf channel message mandatory immediate queues console
      delivered).requests =
    if self.forwards channel delivered then
      FederationType.messagePublished message mandatory immediate
    else [] := rfl

theorem length_requests_disposeOf : (self.disposeOf channel message mandatory immediate queues
      console delivered).requests.length =
    if self.forwards channel delivered then 1 else 0 := by
  rw [requests_disposeOf]
  split <;> rfl

theorem returnedTo_disposeOf : (self.disposeOf channel message mandatory immediate queues console
      delivered).returnedTo =
    if (delivered = 0 ∧ self.forwards channel delivered = false) ∧ mandatory = true ∧
        message.returned = false then channel.bind (·.connection)
    else none := by
  unfold disposeOf
  cases hf : self.forwards channel delivered with
  | false | true => simp

theorem requests_disposeOf_eq_nil_iff : (self.disposeOf channel message mandatory immediate queues
      console delivered).requests = [] ↔ self.forwards channel delivered = false := by
  rw [← length_eq_zero_iff, length_requests_disposeOf]
  cases self.forwards channel delivered with
  | false | true => simp

theorem local_disposeOf_iff : (self.disposeOf channel message mandatory immediate queues
      console (localCount queues console)).Local ↔ localCount queues console ≠ 0 := by
  rw [ne_eq, localCount_eq_zero_iff, not_and_or, Bool.not_eq_false]
  rfl

/-- A message is published here, forwarded or both, as its origin and type say. -/
theorem disposed_publishMessage (origin : Origin) {outcome : Outcome}
    (h : self.publishMessage env origin.channel message mandatory immediate = some outcome)
    (hparent : origin = .parent → outcome.requests = []) :
    Disposed env self origin message mandatory outcome := by
  rcases publishMessage_cases h with
    ⟨hfanout, hclient, rfl⟩ | ⟨hnot, exchange', queues, console, hlocal, rfl⟩
  · have hforwards : self.forwards origin.channel 1 = true :=
      decide_eq_true (.inr (.inl ⟨hfanout, hclient⟩))
    have hlength := @length_requests_disposeOf self origin.channel message mandatory immediate []
      false 1
    rw [if_pos hforwards] at hlength
    have hreturned : (self.disposeOf origin.channel message mandatory immediate [] false
        1).returnedTo = none := by
      rw [returnedTo_disposeOf, if_neg (fun h => absurd h.1.1 Nat.one_ne_zero)]
    have hlocal : ¬ (self.disposeOf origin.channel message mandatory immediate [] false 1).Local :=
      fun h => h.elim (fun h => h rfl) (fun h => Bool.false_ne_true h)
    refine ⟨?_, fun _ => hreturned, Nat.le_of_eq hlength, fun _ _ => ⟨hlength, hlocal⟩, ?_, hparent⟩
    · intro connection _ _ _
      rw [hreturned]
      refine iff_of_false nofun fun h => ?_
      rw [h.2] at hlength
      cases hlength
    · intro _ hnone
      rw [hnone] at hclient
      cases hclient
  · have hfed := federation_of_localPublish hlocal
    have hlength := @length_requests_disposeOf exchange' origin.channel message mandatory immediate
      queues console (localCount queues console)
    refine ⟨?_, ?_, ?_, ?_, ?_, hparent⟩
    · intro connection horigin hfresh hmandatory
      rw [returnedTo_disposeOf, local_disposeOf_iff, requests_disposeOf_eq_nil_iff, not_not]
      split
      · next h => exact iff_of_true horigin h.1
      · next h => exact iff_of_false nofun fun hout => h ⟨hout, hmandatory, hfresh⟩
    · intro hkept
      rw [returnedTo_disposeOf]
      split
      · next h =>
        rcases hkept with hkept | hkept
        · rw [hkept] at h
          exact absurd h.2.1 Bool.false_ne_true
        · exact hkept
      · rfl
    · rw [hlength]
      split <;> decide
    · intro hfanout hclient
      exact absurd ⟨hfanout, hclient⟩ hnot
    · intro hfanout hnone
      refine ⟨?_, exchange', hlocal⟩
      rw [requests_disposeOf_eq_nil_iff]
      refine decide_eq_false ?_
      rw [hfed, hfanout, hnone]
      simp

theorem contentHandler_eq_some (h : self.contentHandler env message = some outcome) :
    (self.federation = some .subscriber ∨ self.federation = some .fanout ∨
      self.federation = some .service) ∧
    self.publishMessage env none { message with returned := false } false false = some outcome := by
  unfold contentHandler at h
  split at h
  · next hf => exact ⟨.inl hf, h⟩
  · next hf => exact ⟨.inr (.inl hf), h⟩
  · next hf => exact ⟨.inr (.inr hf), h⟩
  · cases h

/-- What comes from the parent goes back to it when there is no queue for it and the federation
is a service federation. -/
theorem requests_contentHandler (h : self.contentHandler env message = some outcome) :
    outcome.requests = [] ↔ ¬ Bounces env self .parent message := by
  obtain ⟨htype, hpublish⟩ := contentHandler_eq_some h
  rcases publishMessage_cases hpublish with
    ⟨-, hclient, -⟩ | ⟨-, exchange', queues, console, hlocal, rfl⟩
  · cases hclient
  · have hfed := federation_of_localPublish hlocal
    have hlocal' : self.localPublish env message = some (exchange', queues, console) := hlocal
    have hbounces : Bounces env self .parent message ↔
        self.federation = some .service ∧ localCount queues console = 0 := by
      unfold Bounces
      rw [hlocal', localCount_eq_zero_iff]
      constructor
      · rintro ⟨-, hservice, ex, heq⟩
        cases heq
        exact ⟨hservice, rfl, rfl⟩
      · rintro ⟨hservice, rfl, rfl⟩
        exact ⟨rfl, hservice, exchange', rfl⟩
    rw [requests_disposeOf_eq_nil_iff, hbounces, forwards, decide_eq_false_iff_not, hfed]
    refine not_congr ?_
    rcases htype with hf | hf | hf
    · rw [hf]
      simp
    · rw [hf]
      simp
    · rw [hf]
      simp

theorem disposed_contentHandler (h : self.contentHandler env message = some outcome)
    (hnil : outcome.requests = []) : Disposed env self .parent message mandatory outcome := by
  obtain ⟨-, hpublish⟩ := contentHandler_eq_some h
  have hd := @disposed_publishMessage env self { message with returned := false } false false
    .parent outcome hpublish (fun _ => hnil)
  refine ⟨?_, fun _ => hd.kept (.inl rfl), hd.forwardedOnce, hd.fanoutClient, hd.fanoutParent,
    fun _ => hnil⟩
  intro connection horigin
  cases horigin

theorem isSome_publishMessage (h : (self.localPublish env message).isSome)
    (channel : Option Channel) (mandatory immediate : Bool) :
    (self.publishMessage env channel message mandatory immediate).isSome := by
  unfold publishMessage
  split
  · rfl
  · rw [isSome_map]
    exact h

end Exchange

/-- The federation binds at the parent for some bindings, so that messages come from there. -/
def Binds (exchange : Exchange) : Prop :=
  ∃ type, exchange.federation = some type ∧ ∃ exclusive, type.forwards exclusive = true

theorem binds_iff (exchange : Exchange) : Binds exchange ↔
    exchange.federation = some .subscriber ∨ exchange.federation = some .fanout ∨
      exchange.federation = some .service := by
  constructor
  · rintro ⟨type, hf, exclusive, hforwards⟩
    cases type with
    | subscriber => exact .inl hf
    | fanout => exact .inr (.inl hf)
    | service => exact .inr (.inr hf)
    | publisher | locator => exact absurd hforwards (by simp [FederationType.forwards])
  · rintro (hf | hf | hf)
    · exact ⟨_, hf, false, rfl⟩
    · exact ⟨_, hf, false, rfl⟩
    · exact ⟨_, hf, true, rfl⟩

theorem isSome_publish {env : Env} {exchange : Exchange} {message : Message}
    (h : (exchange.localPublish env message).isSome) {origin : Origin}
    (hparent : origin = .parent → Binds exchange) (mandatory immediate : Bool) :
    (origin.publish env exchange message mandatory immediate).isSome := by
  cases origin with
  | client channel | internal => exact isSome_publishMessage h _ _ _
  | parent =>
    have hpublish : (exchange.publishMessage env none { message with returned := false } false
        false).isSome := by
      refine isSome_publishMessage ?_ _ _ _
      exact h
    show (exchange.contentHandler env message).isSome
    unfold contentHandler
    rcases (binds_iff exchange).mp (hparent rfl) with hf | hf | hf
    · rw [hf]
      exact hpublish
    · rw [hf]
      exact hpublish
    · rw [hf]
      exact hpublish

/-- A message goes where it should. -/
def Disposes (env : Env) (exchange : Exchange) (origin : Origin) (message : Message)
    (mandatory immediate : Bool) : Prop :=
  ∀ outcome, origin.publish env exchange message mandatory immediate = some outcome →
    Disposed env exchange origin message mandatory outcome

theorem disposes_iff (env : Env) (exchange : Exchange) (origin : Origin) (message : Message)
    (mandatory immediate : Bool) : Disposes env exchange origin message mandatory immediate ↔
      ¬ Bounces env exchange origin message := by
  cases origin with
  | client channel =>
    refine iff_of_true ?_ nofun
    intro outcome h
    exact disposed_publishMessage (.client channel) h nofun
  | internal =>
    refine iff_of_true ?_ nofun
    intro outcome h
    exact disposed_publishMessage .internal h nofun
  | parent =>
    constructor
    · intro h hb
      obtain ⟨-, hservice, exchange', hlocal⟩ := hb
      have hsome : (exchange.localPublish env message).isSome := by
        rw [hlocal]
        rfl
      obtain ⟨outcome, houtcome⟩ := isSome_iff_exists.mp
        (isSome_publish hsome (fun _ => (binds_iff exchange).mpr (.inr (.inr hservice))) mandatory
          immediate)
      have hnil := (h outcome houtcome).fromParent rfl
      exact (requests_contentHandler houtcome).mp hnil ⟨rfl, hservice, exchange', hlocal⟩
    · intro h outcome houtcome
      exact disposed_contentHandler houtcome ((requests_contentHandler houtcome).mpr h)

/-! ## The echo of a message -/

/-- The queues are those that a message finds on the exchange, each of them once. -/
def DeliversOnce (env : Env) (exchange : Exchange) (message : Message)
    (queues : List QueueRef) : Prop :=
  queues.Nodup ∧ ∃ exchange' console,
    exchange.localPublish env message = some (exchange', queues, console)

theorem deliversOnce_of_localPublish {env : Env} {exchange : Exchange} {message : Message}
    {console : Bool}
    (h : exchange.localPublish env message = some (exchange', queues, console)) :
    DeliversOnce env exchange message queues := by
  refine ⟨?_, exchange', console, h⟩
  obtain ⟨r, hr, heq⟩ := map_eq_some_iff.mp h
  obtain ⟨hits, -, rfl⟩ := map_eq_some_iff.mp hr
  cases heq
  exact Lib.nodup_sortUnique _

section Echo

variable {env : Env} {exchange later : Exchange} {channel : Channel} {message : Message}
  {mandatory immediate : Bool} {first second : Outcome}

theorem deliversOnce_of_not_forwarded
    (h : exchange.publishMessage env (some channel) message mandatory immediate = some first)
    (hnil : first.requests = []) : DeliversOnce env exchange message first.queues := by
  rcases publishMessage_cases h with
    ⟨hfanout, hclient, rfl⟩ | ⟨-, exchange', queues, console, hlocal, rfl⟩
  · rw [requests_disposeOf_eq_nil_iff] at hnil
    exact absurd (.inr (.inl ⟨hfanout, hclient⟩)) (of_decide_eq_false hnil)
  · exact deliversOnce_of_localPublish hlocal

theorem queues_eq_nil_of_forwarded (hbinds : Binds exchange)
    (h : exchange.publishMessage env (some channel) message mandatory immediate = some first)
    (hne : first.requests ≠ []) : first.queues = [] := by
  rcases publishMessage_cases h with
    ⟨-, -, rfl⟩ | ⟨hnot, exchange', queues, console, hlocal, rfl⟩
  · rfl
  · have hfed := federation_of_localPublish hlocal
    rw [ne_eq, requests_disposeOf_eq_nil_iff, Bool.not_eq_false, forwards, decide_eq_true_iff,
      hfed] at hne
    rcases (binds_iff exchange).mp hbinds with hf | hf | hf
    · rw [hf] at hne
      simp at hne
    · exact absurd ⟨hf, rfl⟩ hnot
    · rw [hf] at hne
      have hzero : localCount queues console = 0 := by simpa using hne
      exact (localCount_eq_zero_iff.mp hzero).1

theorem federation_of_newBinding {addr : Nat} {routingKey : Shortstr} {arguments : Option Longstr}
    {exclusive : Bool}
    (h : exchange.newBinding env addr routingKey arguments exclusive = some exchange') :
    exchange'.federation = exchange.federation := by
  obtain ⟨⟨bindingIndex, index⟩, -, h⟩ := bind_eq_some_iff.mp h
  cases hf : fieldListNew arguments with
  | error e =>
    rw [hf] at h
    cases h
  | ok fields =>
    rw [hf] at h
    obtain ⟨⟨indices, b⟩, -, h⟩ := bind_eq_some_iff.mp h
    cases h
    rfl

/-- Requests do not change the type of a federation. -/
theorem federation_of_step {op : ExchangeOp} (h : exchange.step env op = some exchange') :
    exchange'.federation = exchange.federation := by
  cases op with
  | bind addr channel queue routingKey arguments =>
    simp only [step, bindQueue] at h
    split at h
    · cases h
      rfl
    · obtain ⟨ex, hnew, rfl⟩ := map_eq_some_iff.mp h
      show ex.federation = exchange.federation
      exact federation_of_newBinding hnew
  | unbind queue routingKey arguments =>
    obtain ⟨found, -, rfl⟩ := map_eq_some_iff.mp h
    cases found with
    | none => rfl
    | some b =>
      simp only [detach_eq]
      split <;> rfl
  | publish routingKey headers =>
    obtain ⟨r, hr, rfl⟩ := map_eq_some_iff.mp h
    obtain ⟨hits, htype, rfl⟩ := map_eq_some_iff.mp hr
    obtain ⟨⟨indices, he⟩, -⟩ := typePublish_looks htype
    rw [he]

/-- Requests do not change the type of a federation. -/
theorem federation_of_run {requests : List ExchangeOp}
    (h : Lib.run (Exchange.step env) exchange requests = some later) :
    later.federation = exchange.federation := by
  have hall : Lib.Along (Exchange.step env) (fun _ _ => True) exchange requests :=
    Lib.along_of_forall (fun _ _ _ => trivial) exchange
  refine Lib.run_invariant (I := fun ex => ex.federation = exchange.federation) ?_ rfl hall h
  intro ex op ex' hfed _ hstep
  rw [federation_of_step hstep, hfed]

theorem federation_of_publishMessage
    (h : exchange.publishMessage env (some channel) message mandatory immediate = some first) :
    first.exchange.federation = exchange.federation := by
  rcases publishMessage_cases h with ⟨-, -, rfl⟩ | ⟨-, exchange', queues, console, hlocal, rfl⟩
  · rfl
  · exact federation_of_localPublish hlocal

theorem length_requests_publishMessage
    (h : exchange.publishMessage env (some channel) message mandatory immediate = some first)
    (hne : first.requests ≠ []) : first.requests.length = 1 := by
  have hd := disposed_publishMessage (.client channel) h nofun
  exact Nat.le_antisymm hd.forwardedOnce (length_pos_iff.mpr hne)

theorem deliversOnce_contentHandler (h : exchange.contentHandler env message = some second) :
    DeliversOnce env exchange message second.queues := by
  obtain ⟨-, hpublish⟩ := contentHandler_eq_some h
  rcases publishMessage_cases hpublish with
    ⟨-, hclient, -⟩ | ⟨-, exchange', queues, console, hlocal, rfl⟩
  · cases hclient
  · exact deliversOnce_of_localPublish hlocal

end Echo

/--
Each message goes where it should, unless it comes from the parent of a service federation and
finds no queue. What a client publishes is delivered here once, or forwarded; when the parent
echoes it, it is delivered then, and it has been forwarded once in all unless it goes back.
-/
theorem federation_disposition (env : Env) : (∀ exchange origin message mandatory immediate,
      (Disposes env exchange origin message mandatory immediate ↔
        ¬ Bounces env exchange origin message) ∧
      ((exchange.localPublish env message).isSome → (origin = .parent → Binds exchange) →
        (origin.publish env exchange message mandatory immediate).isSome)) ∧
    ∀ (exchange later : Exchange) channel message mandatory immediate first requests,
      exchange.publishMessage env (some channel) message mandatory immediate = some first →
      Lib.run (Exchange.step env) first.exchange requests = some later →
      (first.requests = [] → DeliversOnce env exchange message first.queues) ∧
      (first.requests ≠ [] → ∀ second, later.contentHandler env message = some second →
        DeliversOnce env later message (first.queues ++ second.queues) ∧
        ((first.requests ++ second.requests).length = 1 ↔
          ¬ Bounces env later .parent message)) := by
  refine ⟨fun exchange origin message mandatory immediate =>
    ⟨disposes_iff env exchange origin message mandatory immediate,
      fun h hparent => isSome_publish h hparent mandatory immediate⟩, ?_⟩
  intro exchange later channel message mandatory immediate first requests hfirst hrun
  refine ⟨deliversOnce_of_not_forwarded hfirst, fun hne second hsecond => ?_⟩
  have hfed := (federation_of_run hrun).trans (federation_of_publishMessage hfirst)
  have hbinds : Binds exchange := by
    have htype := (contentHandler_eq_some hsecond).1
    rw [hfed] at htype
    exact (binds_iff exchange).mpr htype
  rw [queues_eq_nil_of_forwarded hbinds hfirst hne, nil_append, length_append,
    length_requests_publishMessage hfirst hne, ← requests_contentHandler hsecond]
  refine ⟨deliversOnce_contentHandler hsecond, ?_⟩
  rw [← length_eq_zero_iff]
  omega

/-- A mandatory message, as it is when it comes from a client. -/
def plainMessage : Message := ⟨plainKey, none, ⟨1, 1, 1⟩, false⟩

def clientChannel : Channel := { connection := some 1 }

/-- A fanout exchange with a fanout federation, to which a queue is bound. -/
def boundExchange : Exchange :=
  (Exchange.step anyEnv { type := .fanout, federation := some .fanout }
    (.bind 4096 none ⟨7, false⟩ plainKey none)).getD { type := .fanout }

/-- The message of a client comes back from the parent. -/
theorem federation_disposition_echoed : ∃ first second,
      boundExchange.publishMessage anyEnv (some clientChannel) plainMessage true false =
        some first ∧
      boundExchange.contentHandler anyEnv plainMessage = some second ∧
      DeliversOnce anyEnv boundExchange plainMessage (first.queues ++ second.queues) ∧
      first.queues ++ second.queues = [7] ∧ (first.requests ++ second.requests).length = 1 := by
  obtain ⟨first, hfirst, hqueues, hne, hrun⟩ : ∃ first : Outcome,
      boundExchange.publishMessage anyEnv (some clientChannel) plainMessage true false =
        some first ∧ first.queues = [] ∧ first.requests ≠ [] ∧
      Lib.run (Exchange.step anyEnv) first.exchange [] = some boundExchange :=
    ⟨_, rfl, rfl, cons_ne_nil _ _, rfl⟩
  obtain ⟨second, hsecond, hseven⟩ : ∃ second : Outcome,
      boundExchange.contentHandler anyEnv plainMessage = some second ∧ second.queues = [7] :=
    ⟨_, rfl, rfl⟩
  obtain ⟨honce, hforwards⟩ := ((federation_disposition anyEnv).2 boundExchange boundExchange
    clientChannel plainMessage true false first [] hfirst hrun).2 hne second hsecond
  refine ⟨first, second, hfirst, hsecond, honce, by rw [hqueues, hseven]; rfl, ?_⟩
  exact hforwards.mpr fun hb => nomatch hb.2.1

/--
A service federation without a queue for a message gives it back to its parent, which it came
from.
-/
theorem service_bounces :
    (Exchange.contentHandler anyEnv { type := .direct, federation := some .service }
        plainMessage).map (fun outcome => (outcome.queues, outcome.requests)) =
      some ([], [.forward ⟨plainKey, ⟨1, 1, 1⟩, false, false⟩]) ∧
    ¬ Disposes anyEnv { type := .direct, federation := some .service } .parent plainMessage
      false false := by
  refine ⟨rfl, fun h => ?_⟩
  rw [disposes_iff] at h
  exact h ⟨rfl, rfl, _, rfl⟩

end OpenAmq
