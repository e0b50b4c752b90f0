import OpenAmq.Broker.Coherent

/-!
# Auto-deletion

A queue that is deleted automatically tests whether it has lost its last consumer, and then
sends itself a request to self-destruct. The request goes to the end of the inbox like any
other, and is not followed by a second test.

* `AutoDelete.step` — the broker with self-destructing queues and their timers
* `Vacates` — a queue that will have no consumers when it has worked off some requests
* `autoDelete_stops_none` — a queue that deletes itself has no consumers, as long as none is
  on its way in when the queue asks for its self-destruction
-/

namespace OpenAmq

open List Function

/-! ## The machine -/

/-- A self-destruct request in the inbox of a queue. -/
structure SelfDestruct where
  /-- the number of other requests before it -/
  ahead : Nat
  /-- requested by the queue itself, because of `auto_delete` -/
  auto : Bool
deriving DecidableEq

/-- The broker, with the self-destruct requests and the auto-delete timers of its queues. -/
structure AutoDelete where
  broker : Broker
  /-- oldest first -/
  selfDestructs : QueueRef → List SelfDestruct := fun _ => []
  timers : QueueRef → Nat := fun _ => 0

inductive AutoDeleteEvent where
  | broker (event : BrokerEvent)
  /-- the timer event of a queue -/
  | autoDelete (queue : QueueRef)
  /-- `queue.delete` of a client -/
  | delete (queue : QueueRef)
  /-- a queue takes a self-destruct request -/
  | selfDestruct (queue : QueueRef)
deriving DecidableEq

namespace Broker

/-- `s_free_consumer_queue` for one consumer: its channel is told, and it is destroyed. -/
def stopConsumer (self : Broker) (ref : ConsumerRef) : Broker :=
  let consumer := self.store.consumers ref
  let self := (self.postChannel consumer.channel (.cancel consumer.tag false true)).forget ref
  { self with store := self.store.setPending ref none }

/-- `amq_queue_basic_stop` -/
def stop (self : Broker) (ref : QueueRef) : Broker :=
  let queue := self.queues ref
  queue.basic.consumerList.foldl stopConsumer
    (self.setQueue ref { queue with basic := { queue.basic with consumerList := [] } })

end Broker

/-- The queue that a reply tells to destroy itself because it has no consumers. -/
def autoDeleted? : Reply → Option QueueRef
  | .autoDelete ref => some ref
  | _ => none

namespace AutoDelete

/-- `amq_queue_self_destruct`, which is asynchronous. -/
def requestSelfDestruct (self : AutoDelete) (auto : Bool) (ref : QueueRef) : AutoDelete :=
  { self with
    selfDestructs := update self.selfDestructs ref
      (self.selfDestructs ref ++ [⟨(self.broker.queues ref).inbox.length, auto⟩]) }

/-- The end of `amq_queue_cancel`, and the `kill_limit` of `amq_queue_basic_publish`. -/
def handle (timeout : Nat) (self : AutoDelete) : Reply → AutoDelete
  | .autoDelete ref =>
    if timeout = 0 then self.requestSelfDestruct true ref
    else { self with timers := update self.timers ref (self.timers ref + 1) }
  | .output ref .selfDestruct => self.requestSelfDestruct false ref
  | _ => self

/-- Is a self-destruct request the next one in the inbox? -/
def due (self : AutoDelete) (ref : QueueRef) : Bool :=
  (self.selfDestructs ref).any fun request => request.ahead == 0

/-- A queue takes another request, and those to self-destruct move up. -/
def moveUp (self : AutoDelete) (ref : QueueRef) : AutoDelete :=
  { self with
    selfDestructs := update self.selfDestructs ref ((self.selfDestructs ref).map fun request =>
        { request with ahead := request.ahead - 1 }) }

/-- The machine before a step of the broker, if it can be made. -/
def ready (self : AutoDelete) : BrokerEvent → Option AutoDelete
  | .queueStep ref => if self.due ref then none else some (self.moveUp ref)
  | _ => some self

/--
One step of one thread. The output is which consumers a queue stops when it destroys itself,
and whether that is auto-deletion.
-/
def step (config : Config) (timeout : Nat) (self : AutoDelete) :
    AutoDeleteEvent → Option (AutoDelete × List (Bool × ConsumerRef))
  | .broker event =>
    match self.ready event, self.broker.step config event with
    | some self, some (broker, replies) =>
      some (replies.foldl (handle timeout) { self with broker }, [])
    | _, _ => none
  | .autoDelete ref =>
    match (self.broker.queues ref).basic.state, self.timers ref with
    | .idle, timers + 1 =>
      let self := { self with timers := update self.timers ref timers }
      -- if there are still no consumers
      some (if (self.broker.queues ref).basic.consumerList.length = 0
        then self.requestSelfDestruct true ref else self, [])
    | _, _ => none
  | .delete ref => some (self.requestSelfDestruct false ref, [])
  | .selfDestruct ref =>
    match (self.broker.queues ref).basic.state, self.selfDestructs ref with
    | .idle, ⟨0, auto⟩ :: requests =>
      some ({ self with
          broker := self.broker.stop ref
          selfDestructs := update self.selfDestructs ref requests },
        (self.broker.queues ref).basic.consumerList.map (auto, ·))
    | _, _ => none

/-- The queues that ask for their own self-destruction in a step. -/
def asking (config : Config) (timeout : Nat) (self : AutoDelete) : AutoDeleteEvent → List QueueRef
  | .broker event =>
    if timeout = 0 then
      (self.broker.step config event).elim [] fun r => r.2.filterMap autoDeleted?
    else []
  | .autoDelete ref =>
    if (self.broker.queues ref).basic.consumerList.length = 0 then [ref] else []
  | .delete _ | .selfDestruct _ => []

end AutoDelete

/-- Every consumer that is to be attached is cancelled afterwards. -/
def Clears : List QueueMessage → Prop
  | [] => True
  | .consume ref _ _ :: messages => (∃ message ∈ messages, ref ∈ message.cancels) ∧ Clears messages
  | _ :: messages => Clears messages

instance decidableClears : ∀ messages, Decidable (Clears messages)
  | [] => isTrue trivial
  | .consume ref _ _ :: messages =>
    have := decidableClears messages
    inferInstanceAs (Decidable ((∃ message ∈ messages, ref ∈ message.cancels) ∧ Clears messages))
  | .publish _ _ _ :: messages => decidableClears messages
  | .dispatch :: messages => decidableClears messages
  | .cancel _ _ _ :: messages => decidableClears messages
  | .consumerAck _ :: messages => decidableClears messages

/-- No consumer is on its way into a queue that asks for its own self-destruction. -/
def AutoDelete.Deserted (config : Config) (timeout : Nat) (s : AutoDelete)
    (event : AutoDeleteEvent) : Prop :=
  ∀ ref ∈ s.asking config timeout event, Clears (s.broker.queues ref).inbox

instance (config : Config) (timeout : Nat) (s : AutoDelete) (event : AutoDeleteEvent) :
    Decidable (s.Deserted config timeout event) :=
  inferInstanceAs (Decidable (∀ ref ∈ s.asking config timeout event, Clears _))

/-! ## Requests that leave no new consumer -/

variable {message : QueueMessage} {r : Broker × List Reply} {event : BrokerEvent}

theorem Clears.tail {messages : List QueueMessage} (h : Clears (message :: messages)) :
    Clears messages := by
  cases message with
  | consume ref active nowait => exact h.2
  | publish channel content immediate | dispatch | cancel ref notify nowait | consumerAck ref =>
    exact h

theorem Clears.of_append {taken messages : List QueueMessage} (h : Clears (taken ++ messages)) :
    Clears messages := by
  induction taken with
  | nil => exact h
  | cons message taken ih => exact ih h.tail

namespace Broker

variable {s s' : Broker} {ref : QueueRef} {messages : List QueueMessage}

/-- When the queue has worked off the requests it has no consumers. -/
structure Vacates (s : Broker) (ref : QueueRef) (messages : List QueueMessage) : Prop where
  clears : Clears messages
  leaving : ∀ consumer ∈ (s.queues ref).basic.consumerList,
    (s.queues ref).basic.state = .dispatching (some consumer) ∨
      ∃ message ∈ messages, consumer ∈ message.cancels

theorem Vacates.of_nil (hc : Clears messages)
    (hl : (s.queues ref).basic.consumerList = []) : s.Vacates ref messages := by
  refine ⟨hc, fun consumer hm => ?_⟩
  rw [hl] at hm
  cases hm

theorem Vacates.consumerList_eq_nil (h : s.Vacates ref [])
    (hidle : (s.queues ref).basic.state = .idle) :
    (s.queues ref).basic.consumerList = [] := by
  refine eq_nil_iff_forall_not_mem.mpr fun consumer hm => ?_
  rcases h.leaving consumer hm with hst | ⟨message, hmessage, -⟩
  · rw [hidle] at hst
    cases hst
  · cases hmessage

theorem Vacates.of_basic (h : s.Vacates ref messages)
    (hb : (s'.queues ref).basic = (s.queues ref).basic) : s'.Vacates ref messages := by
  refine ⟨h.clears, fun consumer hm => ?_⟩
  rw [hb] at hm ⊢
  exact h.leaving consumer hm

/-- An operation of the queue, which is not to cancel any consumer but `after`. -/
theorem Vacates.ends (hcoherent : s.Coherent) {after : Option ConsumerRef}
    {r : BasicQueue × Store × List Output} (hends : Ends (s.queues ref).basic after r)
    (hb : (s'.queues ref).basic = r.1) (hc : Clears messages)
    (hleaving : ∀ consumer ∈ (s.queues ref).basic.consumerList,
      after = some consumer ∨ ∃ message ∈ messages, consumer ∈ message.cancels) :
    s'.Vacates ref messages := by
  refine ⟨hc, fun consumer hm => ?_⟩
  rw [hb] at hm ⊢
  rcases hleaving consumer (hends.mem hm) with rfl | hlater
  · rcases hends with ⟨-, hl, -⟩ | ⟨hst, -, -⟩
    · -- it is gone
      rw [hl, BasicQueue.without, (hcoherent.nodup ref).mem_erase_iff] at hm
      exact absurd rfl hm.1
    · exact Or.inl hst
  · exact Or.inr hlater

variable {config : Config}

theorem Vacates.queueStep (hcoherent : s.Coherent) {inbox : List QueueMessage}
    (h : s.Vacates ref (message :: messages)) (hi : (s.queues ref).inbox = message :: inbox)
    (hmove : Move config s (.queueStep ref) s') : s'.Vacates ref messages := by
  have hlater : ∀ {consumer}, consumer ∉ message.cancels →
      (∃ m ∈ message :: messages, consumer ∈ m.cancels) → ∃ m ∈ messages, consumer ∈ m.cancels := by
    rintro consumer hne ⟨m, hm, hc⟩
    rcases mem_cons.mp hm with rfl | hm
    · exact absurd hc hne
    · exact ⟨m, hm, hc⟩
  cases hmove with
  | frame hne hf => exact absurd rfl (hne ref).1
  | refuse hi' hr hs =>
    obtain ⟨rfl, rfl⟩ := cons.inj (hi.symm.trans hi')
    refine ⟨h.clears.tail, fun consumer hm => ?_⟩
    rw [hs, postChannel_queues, popQueue_basic] at hm ⊢
    exact (h.leaving consumer hm).imp_right (hlater nofun)
  | accept hidle hi' hr hs =>
    obtain ⟨rfl, rfl⟩ := cons.inj (hi.symm.trans hi')
    refine ⟨h.clears.tail, fun consumer hm => Or.inr ?_⟩
    rw [hs, postQueue, setQueue_same, acceptConsumer] at hm
    simp only [setQueue_same] at hm
    rcases BasicQueue.mem_consume.mp hm with hm | rfl
    · rw [popQueue_basic] at hm
      rcases h.leaving consumer hm with hst | hcancel
      · rw [hidle] at hst
        cases hst
      · exact hlater nofun hcancel
    · -- the new consumer has its cancel behind it
      exact h.clears.1
  | @operate _ _ _ o _ hidle hi' ho heff hs =>
    obtain ⟨rfl, rfl⟩ := cons.inj (hi.symm.trans hi')
    refine Vacates.ends (hcoherent.popQueue hi) heff.ends hs.basic h.clears.tail
      fun consumer hm => ?_
    rw [popQueue_basic] at hm
    rcases h.leaving consumer hm with hst | hcancel
    · rw [hidle] at hst
      cases hst
    · by_cases hc : consumer ∈ message.cancels
      · exact Or.inl hc
      · exact Or.inr (hlater hc hcancel)

theorem move_unchanged (hmove : Move config s event s')
    (hstep : event ≠ .queueStep ref) (hturn : event ≠ .turn ref) :
    Frame s s' ∨ s'.queues ref = s.queues ref := by
  cases hmove with
  | frame hne hf => exact Or.inl hf
  | @refuse ref' consumer active nowait inbox _ hi hr hs =>
    have hq : ref ≠ ref' := fun hq => hstep (hq ▸ rfl)
    right
    rw [hs, postChannel_queues, popQueue_other hq]
  | @accept ref' consumer active nowait inbox _ hidle hi hr hs =>
    have hq : ref ≠ ref' := fun hq => hstep (hq ▸ rfl)
    right
    rw [hs, postQueue, setQueue_other hq, acceptConsumer]
    simp only [setQueue_other hq, popQueue_other hq]
  | @operate ref' message inbox o _ hidle hi ho heff hs =>
    have hq : ref ≠ ref' := fun hq => hstep (hq ▸ rfl)
    right
    rw [hs.others ref hq, popQueue_other hq]
  | @turn ref' after _ hst heff hs =>
    have hq : ref ≠ ref' := fun hq => hturn (hq ▸ rfl)
    exact Or.inr (hs.others ref hq)

theorem Vacates.move (hcoherent : s.Coherent) (h : s.Vacates ref messages)
    (hmove : Move config s event s') (hne : event ≠ .queueStep ref) : s'.Vacates ref messages := by
  by_cases hturn : event = .turn ref
  · subst hturn
    cases hmove with
    | frame hne' hf => exact h.of_basic (hf.basic ref)
    | turn hst heff hs =>
      refine Vacates.ends hcoherent heff.ends hs.basic h.clears fun consumer hm => ?_
      refine (h.leaving consumer hm).imp_left fun hst' => ?_
      rw [hst] at hst'
      exact QueueState.dispatching.inj hst'
  · rcases move_unchanged hmove hne hturn with hf | hq
    · exact h.of_basic (hf.basic ref)
    · exact h.of_basic (by rw [hq])

/-! ## Inboxes -/

theorem queueStep_inbox (hmove : Move config s (.queueStep ref) s') :
    ∃ message inbox posts, (s.queues ref).inbox = message :: inbox ∧
      (s'.queues ref).inbox = inbox ++ posts := by
  cases hmove with
  | frame hne hf => exact absurd rfl (hne ref).1
  | refuse hi hr hs =>
    refine ⟨_, _, [], hi, ?_⟩
    rw [hs, postChannel_queues, popQueue_same, append_nil]
  | accept hidle hi hr hs =>
    refine ⟨_, _, [.dispatch], hi, ?_⟩
    rw [hs, postQueue, setQueue_same, acceptConsumer]
    simp only [setQueue_same, popQueue_same]
  | operate hidle hi ho heff hs =>
    refine ⟨_, _, [], hi, ?_⟩
    rw [hs.inbox, popQueue_same, append_nil]

theorem move_inbox (hmove : Move config s event s')
    (hne : event ≠ .queueStep ref) :
    ∃ posts, (s'.queues ref).inbox = (s.queues ref).inbox ++ posts := by
  by_cases hturn : event = .turn ref
  · subst hturn
    cases hmove with
    | frame hne' hf => exact absurd rfl (hne' ref).2
    | turn hst heff hs => exact ⟨[], by rw [hs.inbox, append_nil]⟩
  · rcases move_unchanged hmove hne hturn with hf | hq
    · obtain ⟨posts, hp, -⟩ := hf.inbox ref
      exact ⟨posts, hp⟩
    · exact ⟨[], by rw [hq, append_nil]⟩

/-! ## Queues that ask for their self-destruction -/

variable {queue : QueueRef}

theorem autoDelete_of_settle {r : BasicQueue × Store × List Output}
    (hm : .autoDelete queue ∈ (s.settle ref r).2) :
    queue = ref ∧ r.1.consumerList = [] ∧ cancelledOf r.2.2 ≠ [] := by
  have houtput : ∀ outputs : List Output, .autoDelete queue ∉ outputs.map (Reply.output ref) := by
    intro outputs ho
    obtain ⟨out, -, hout⟩ := mem_map.mp ho
    cases hout
  unfold settle at hm
  cases hc : r.2.2.filterMap cancelled? with
  | nil =>
    rw [hc] at hm
    exact absurd hm (houtput _)
  | cons consumer consumers =>
    rw [hc] at hm
    refine (mem_append.mp hm).elim (fun ho => absurd ho (houtput _)) fun hlast => ?_
    split at hlast
    · next hempty =>
      obtain rfl := Reply.autoDelete.inj (List.mem_singleton.mp hlast)
      rw [Bool.and_eq_true, List.isEmpty_iff] at hempty
      refine ⟨rfl, hempty.2, ?_⟩
      rw [cancelledOf, hc]
      exact List.cons_ne_nil _ _
    · cases hlast

/-- A queue that is told to destroy itself is idle and has no consumers. -/
structure Abandoned (s : Broker) (ref : QueueRef) : Prop where
  state : (s.queues ref).basic.state = .idle
  consumerList : (s.queues ref).basic.consumerList = []

theorem abandoned_of_settle {after : Option ConsumerRef} {r : BasicQueue × Store × List Output}
    (hends : Ends (s.queues ref).basic after r) (hm : .autoDelete queue ∈ (s.settle ref r).2) :
    queue = ref ∧ (s.settle ref r).1.Abandoned ref ∧
      ((s.settle ref r).1.queues ref).inbox = (s.queues ref).inbox := by
  obtain ⟨rfl, hl, hx⟩ := autoDelete_of_settle hm
  have hbasic := (settle_settled s queue r).basic
  refine ⟨rfl, ⟨?_, by rw [hbasic, hl]⟩, (settle_settled s queue r).inbox⟩
  rcases hends with ⟨hidle, -, -⟩ | ⟨-, -, hnone⟩
  · rw [hbasic, hidle]
  · exact absurd hnone hx

theorem autoDelete_notMem_channelError {channel : ChannelRef} {replyCode classId methodId : Nat}
    {replyText : Str} :
    .autoDelete queue ∉ s.channelError channel replyCode replyText classId methodId := by
  unfold channelError
  split <;> simp

theorem autoDelete_notMem_channelRequest {channel : ChannelRef}
    {connection : ConnectionId} {message : ChannelMessage}
    (hr : s.channelRequest config channel connection message = some r) :
    .autoDelete queue ∉ r.2 := by
  cases message with
  | flow active =>
    cases hr
    simp [flow]
  | consume ref method =>
    cases hr
    unfold consume
    simp only
    split
    · split
      · split <;> simp
      · exact autoDelete_notMem_channelError
    · split
      · simp
      · exact autoDelete_notMem_channelError
  | ack =>
    cases hr
    simp
  | cancel tag sync nowait =>
    simp only [channelRequest, cancel] at hr
    split at hr
    · split at hr
      · cases hr
        simp
      split at hr
      · cases hr
      · cases hr
        simp
    · cases hr
      split <;> simp
  | destroy =>
    cases hr
    simp

theorem autoDelete_notMem_queueConsume {consumer : ConsumerRef} {active nowait : Bool} :
    .autoDelete queue ∉ (s.queueConsume ref consumer active nowait).2 := by
  unfold queueConsume
  simp only
  split
  · exact autoDelete_notMem_channelError
  · split <;> simp

theorem abandoned_of_queueRequest (hidle : (s.queues ref).basic.state = .idle)
    (hb : ∀ consumer ∈ message.consumer?, (s.store.consumers consumer).queue = ref)
    (hr : s.queueRequest ref message = some r) (hm : .autoDelete queue ∈ r.2) :
    queue = ref ∧ r.1.Abandoned ref ∧ (r.1.queues ref).inbox = (s.queues ref).inbox := by
  have hends : ∀ o, message.operation (s.queues ref).basic s.store = some o →
      Ends (s.queues ref).basic message.cancels o :=
    fun o ho => (operation_effect hidle hb ho).ends
  cases message with
  | publish channel content immediate | dispatch =>
    cases hr
    exact abandoned_of_settle (hends _ rfl) hm
  | consume consumer active nowait =>
    cases hr
    exact absurd hm autoDelete_notMem_queueConsume
  | cancel consumer notify nowait =>
    simp only [queueRequest, queueCancel] at hr
    split at hr
    · cases hr
    · cases hr
      rcases mem_append.mp hm with hok | hm
      · split at hok
        · cases mem_singleton.mp hok
        · cases hok
      · exact abandoned_of_settle (hends _ rfl) hm
  | consumerAck consumer =>
    cases hr
    exact abandoned_of_settle (hends _ rfl) hm

/-- A queue that asks for its self-destruction has no consumer then, nor any to come. -/
theorem abandoned_of_step (h : s.Coherent) (hs : s.step config event = some r)
    (hm : .autoDelete ref ∈ r.2) :
    r.1.Abandoned ref ∧ ∃ taken, (s.queues ref).inbox = taken ++ (r.1.queues ref).inbox := by
  cases event with
  | request channel request | close channel | earn channel
  | publish queue channel content immediate =>
    cases hs
    cases hm
  | channelStep channel =>
    simp only [step] at hs
    split at hs
    · exact absurd hm (autoDelete_notMem_channelRequest hs)
    · cases hs
  | queueStep queue =>
    simp only [step] at hs
    split at hs
    · next message inbox hidle hi =>
      have hb : ∀ consumer ∈ message.consumer?, (s.store.consumers consumer).queue = queue :=
        fun consumer hc => (h.inbox queue message (hi ▸ mem_cons_self) consumer hc).1
      have hpop : ((s.popQueue queue inbox).queues queue).basic.state = .idle := by
        rw [popQueue_basic]
        exact hidle
      obtain ⟨rfl, habandoned, hinbox⟩ := abandoned_of_queueRequest hpop hb hs hm
      refine ⟨habandoned, [message], ?_⟩
      rw [hinbox, popQueue_same, hi]
      rfl
    · cases hs
  | turn queue =>
    simp only [step] at hs
    split at hs
    · cases hs
    · next after hst =>
      cases hs
      have heff : Effect queue (s.queues queue).basic s.store after
          ((s.queues queue).basic.turn config s.store after) :=
        turn_effect hst (fun c hc => (h.cancelling queue c (by rw [hst, Option.mem_def.mp hc])).1)
          fun c hc => (h.attached queue c hc).1
      obtain ⟨rfl, habandoned, hinbox⟩ := abandoned_of_settle heff.ends hm
      exact ⟨habandoned, [], hinbox.symm⟩

/-! ## Stopping consumers -/

structure Stopped (refs : List ConsumerRef) (s s' : Broker) : Prop where
  queues : s'.queues = s.queues
  nextConsumer : s'.nextConsumer = s.nextConsumer
  queue : ∀ c, (s'.store.consumers c).queue = (s.store.consumers c).queue
  pending : ∀ c, (s'.store.consumers c).pendingContent ≠ none →
    c ∉ refs ∧ (s.store.consumers c).pendingContent ≠ none
  listed : ∀ channel, (s'.channels channel).consumerList = (s.channels channel).consumerList
  table : ∀ id, ∀ c ∈ (s'.connections id).consumerTable, c ∈ (s.connections id).consumerTable

theorem postChannel_listed (s : Broker) (channel channel' : ChannelRef) (message : ChannelMessage) :
    ((s.postChannel channel message).channels channel').consumerList =
      (s.channels channel').consumerList := by
  unfold postChannel
  split
  · rfl
  · by_cases hc : channel' = channel
    · rw [hc, setServerChannel_same]
    · rw [setServerChannel_other hc]

theorem postChannel_connections (s : Broker) (channel : ChannelRef) (message : ChannelMessage) :
    (s.postChannel channel message).connections = s.connections := by
  unfold postChannel
  split <;> rfl

theorem postChannel_nextConsumer (s : Broker) (channel : ChannelRef)
    (message : ChannelMessage) : (s.postChannel channel message).nextConsumer = s.nextConsumer := by
  unfold postChannel
  split <;> rfl

theorem stopConsumer_stopped (s : Broker) (ref : ConsumerRef) :
    Stopped [ref] s (s.stopConsumer ref) where
  queues := postChannel_queues s _ _
  nextConsumer := postChannel_nextConsumer s _ _
  queue := fun c => by
    simp only [stopConsumer, forget, postChannel_store, Store.setPending, Store.setConsumer]
    by_cases hc : c = ref
    · subst hc
      rw [update_self]
    · rw [update_of_ne hc]
  pending := fun c hp => by
    simp only [stopConsumer, forget, postChannel_store, Store.setPending_pendingContent] at hp
    split at hp
    · exact absurd rfl hp
    · next hne => exact ⟨fun hm => hne (mem_singleton.mp hm), hp⟩
  listed := fun channel => postChannel_listed s _ channel _
  table := fun id c hc => by
    simp only [stopConsumer, forget, postChannel_connections] at hc
    exact mem_of_mem_erase hc

theorem foldl_stopConsumer (refs : List ConsumerRef) (s : Broker) :
    Stopped refs s (refs.foldl stopConsumer s) := by
  induction refs generalizing s with
  | nil => exact ⟨rfl, rfl, fun _ => rfl, fun c hp => ⟨not_mem_nil, hp⟩, fun _ => rfl,
      fun _ _ hc => hc⟩
  | cons ref refs ih =>
    have hfirst := stopConsumer_stopped s ref
    have hrest := ih (s.stopConsumer ref)
    refine ⟨hrest.queues.trans hfirst.queues, hrest.nextConsumer.trans hfirst.nextConsumer,
      fun c => (hrest.queue c).trans (hfirst.queue c), fun c hp => ?_,
      fun channel => (hrest.listed channel).trans (hfirst.listed channel),
      fun id c hc => hfirst.table id c (hrest.table id c hc)⟩
    obtain ⟨hn, hp'⟩ := hrest.pending c hp
    obtain ⟨hne, hp''⟩ := hfirst.pending c hp'
    refine ⟨fun hm => ?_, hp''⟩
    rcases mem_cons.mp hm with rfl | hm
    · exact hne mem_cons_self
    · exact hn hm

theorem stop_stopped (s : Broker) (ref : QueueRef) : Stopped (s.queues ref).basic.consumerList
      (s.setQueue ref { s.queues ref with
        basic := { (s.queues ref).basic with consumerList := [] } }) (s.stop ref) :=
  foldl_stopConsumer _ _

theorem stop_same (s : Broker) (ref : QueueRef) : (s.stop ref).queues ref =
    { s.queues ref with basic := { (s.queues ref).basic with consumerList := [] } } := by
  rw [(stop_stopped s ref).queues, setQueue_same]

variable {ref : QueueRef}

theorem stop_other (s : Broker) (h : queue ≠ ref) :
    (s.stop ref).queues queue = s.queues queue := by
  rw [(stop_stopped s ref).queues, setQueue_other h]

theorem stop_inbox (s : Broker) (ref queue : QueueRef) :
    ((s.stop ref).queues queue).inbox = (s.queues queue).inbox := by
  by_cases hq : queue = ref
  · rw [hq, stop_same]
  · rw [stop_other s hq]

theorem Coherent.stop (h : s.Coherent) (ref : QueueRef) : (s.stop ref).Coherent := by
  have hstop := stop_stopped s ref
  have hbelongs : ∀ {c queue}, s.Belongs c queue → (s.stop ref).Belongs c queue := by
    rintro c queue ⟨hq, hlt⟩
    exact ⟨(hstop.queue c).trans hq, by rw [hstop.nextConsumer]; exact hlt⟩
  refine ⟨fun queue => ?_, fun queue c hc => ?_, fun queue m hm c hc => ?_, fun queue c hst => ?_,
    fun channel c hc => ?_, fun id c hc => ?_, fun c hp => ?_⟩
  · by_cases hq : queue = ref
    · rw [hq, stop_same]
      exact nodup_nil
    · rw [stop_other s hq]
      exact h.nodup queue
  · by_cases hq : queue = ref
    · rw [hq, stop_same] at hc
      cases hc
    · rw [stop_other s hq] at hc
      exact hbelongs (h.attached queue c hc)
  · rw [stop_inbox] at hm
    exact hbelongs (h.inbox queue m hm c hc)
  · have hstate : ((s.stop ref).queues queue).basic.state = (s.queues queue).basic.state := by
      by_cases hq : queue = ref
      · rw [hq, stop_same]
      · rw [stop_other s hq]
    exact hbelongs (h.cancelling queue c (hstate.symm.trans hst))
  · rw [hstop.listed] at hc
    rw [hstop.nextConsumer]
    exact h.listed channel c hc
  · rw [hstop.nextConsumer]
    exact h.table id c (hstop.table id c hc)
  · obtain ⟨hn, hp'⟩ := hstop.pending c hp
    have hm := h.pending c hp'
    rw [hstop.queue]
    have hq : (s.store.consumers c).queue ≠ ref := fun hq => hn (hq ▸ hm)
    exact (stop_other s hq).symm ▸ hm

end Broker

namespace AutoDelete

variable {s s' : AutoDelete} {config : Config} {timeout : Nat}

/-! ## One step -/

/-- A queue has no consumers left when the next request is its own to self-destruct. -/
def Vacating (s : AutoDelete) (ref : QueueRef) : Prop :=
  ∀ request ∈ s.selfDestructs ref, request.auto = true →
    request.ahead ≤ (s.broker.queues ref).inbox.length ∧
      s.broker.Vacates ref ((s.broker.queues ref).inbox.take request.ahead)

/-- What holds in every run in which queues only ask for their self-destruction if deserted. -/
structure Safe (s : AutoDelete) : Prop where
  coherent : s.broker.Coherent
  vacating : ∀ ref, s.Vacating ref

theorem Vacating.of_eq (h : s.Vacating ref) (hb : s'.broker = s.broker)
    (hd : s'.selfDestructs ref = s.selfDestructs ref) : s'.Vacating ref := by
  unfold Vacating
  rw [hb, hd]
  exact h

theorem Safe.requestSelfDestruct (h : s.Safe) {auto : Bool}
    (hv : auto = true → s.broker.Vacates ref (s.broker.queues ref).inbox) :
    (s.requestSelfDestruct auto ref).Safe := by
  refine ⟨h.coherent, fun queue => ?_⟩
  by_cases hq : queue = ref
  · subst hq
    intro request hr ha
    simp only [AutoDelete.requestSelfDestruct, update_self] at hr ⊢
    rcases mem_append.mp hr with hr | hr
    · exact h.vacating queue request hr ha
    · obtain rfl := mem_singleton.mp hr
      refine ⟨Nat.le_refl _, ?_⟩
      rw [take_length]
      exact hv ha
  · exact (h.vacating queue).of_eq rfl (update_of_ne hq ..)

theorem handle_broker (timeout : Nat) (s : AutoDelete) (reply : Reply) :
    (s.handle timeout reply).broker = s.broker := by
  unfold handle
  split
  · split <;> rfl
  · rfl
  · rfl

theorem foldl_handle_broker (timeout : Nat) (replies : List Reply) (s : AutoDelete) :
    (replies.foldl (handle timeout) s).broker = s.broker := by
  induction replies generalizing s with
  | nil => rfl
  | cons reply replies ih => exact (ih _).trans (handle_broker timeout s reply)

theorem Safe.handle (h : s.Safe) {reply : Reply}
    (hv : ∀ ref, timeout = 0 → reply = .autoDelete ref →
      s.broker.Vacates ref (s.broker.queues ref).inbox) : (s.handle timeout reply).Safe := by
  unfold AutoDelete.handle
  split
  · next ref =>
    split
    · next htimeout => exact h.requestSelfDestruct fun _ => hv ref htimeout rfl
    · exact ⟨h.coherent, fun queue => (h.vacating queue).of_eq rfl rfl⟩
  · exact h.requestSelfDestruct nofun
  · exact h

theorem Safe.foldl_handle {replies : List Reply} (h : s.Safe)
    (hv : ∀ ref, timeout = 0 → .autoDelete ref ∈ replies →
      s.broker.Vacates ref (s.broker.queues ref).inbox) :
    (replies.foldl (AutoDelete.handle timeout) s).Safe := by
  induction replies generalizing s with
  | nil => exact h
  | cons reply replies ih =>
    refine ih (h.handle fun ref ht hr => hv ref ht (hr ▸ mem_cons_self)) fun ref ht hm => ?_
    rw [handle_broker]
    exact hv ref ht (mem_cons_of_mem _ hm)

theorem Vacating.queueStep (h : s.broker.Coherent) (hv : s.Vacating ref)
    (hdue : s.due ref = false) {broker : Broker}
    (hmove : Broker.Move config s.broker (.queueStep ref) broker) :
    Vacating { s.moveUp ref with broker } ref := by
  intro request hr ha
  simp only [moveUp, update_self] at hr ⊢
  obtain ⟨before, hbefore, rfl⟩ := mem_map.mp hr
  obtain ⟨message, inbox, posts, hi, hi'⟩ := Broker.queueStep_inbox hmove
  obtain ⟨hle, hvacates⟩ := hv before hbefore ha
  have hpos : before.ahead ≠ 0 := by
    have hall := any_eq_false.mp hdue before hbefore
    simpa using hall
  rw [hi, length_cons] at hle
  have hle' : before.ahead - 1 ≤ inbox.length := by omega
  have htake : (s.broker.queues ref).inbox.take before.ahead =
      message :: inbox.take (before.ahead - 1) := by
    rw [hi, ← Nat.succ_pred_eq_of_ne_zero hpos]
    rfl
  rw [hi', length_append, take_append_of_le_length hle']
  rw [htake] at hvacates
  exact ⟨Nat.le_trans hle' (Nat.le_add_right _ _), hvacates.queueStep h hi hmove⟩

theorem Vacating.move (h : s.broker.Coherent) (hv : s.Vacating ref)
    {broker : Broker} (hmove : Broker.Move config s.broker event broker)
    (hne : event ≠ .queueStep ref) {s' : AutoDelete} (hb : s'.broker = broker)
    (hd : s'.selfDestructs ref = s.selfDestructs ref) : s'.Vacating ref := by
  intro request hr ha
  rw [hd] at hr
  obtain ⟨hle, hvacates⟩ := hv request hr ha
  obtain ⟨posts, hi⟩ := Broker.move_inbox hmove hne
  rw [hb, hi, length_append, take_append_of_le_length hle]
  exact ⟨by omega, hvacates.move h hmove hne⟩

theorem Safe.move (h : s.Safe) {t : AutoDelete} (ht : s.ready event = some t)
    (hs : s.broker.step config event = some r) : Safe { t with broker := r.1 } := by
  have hmove := Broker.move_of_step h.coherent hs
  refine ⟨h.coherent.step hs, fun ref => ?_⟩
  unfold ready at ht
  split at ht
  · next queue =>
    split at ht
    · cases ht
    next hdue =>
    cases ht
    by_cases hq : ref = queue
    · subst hq
      exact (h.vacating ref).queueStep h.coherent (Bool.not_eq_true _ ▸ hdue) hmove
    · have hne : BrokerEvent.queueStep queue ≠ .queueStep ref :=
        fun he => hq (BrokerEvent.queueStep.inj he).symm
      exact (h.vacating ref).move h.coherent hmove hne rfl (update_of_ne hq ..)
  · next hother =>
    cases ht
    exact (h.vacating ref).move h.coherent hmove (hother ref) rfl rfl

theorem Safe.stop (h : s.Safe) {requests : List SelfDestruct}
    (hr : ∀ request ∈ requests, request ∈ s.selfDestructs ref) :
    Safe { s with
      broker := s.broker.stop ref
      selfDestructs := update s.selfDestructs ref requests } := by
  refine ⟨h.coherent.stop ref, fun queue request hm ha => ?_⟩
  have hold : request ∈ s.selfDestructs queue := by
    by_cases hq : queue = ref
    · subst hq
      simp only [update_self] at hm
      exact hr request hm
    · simpa only [update_of_ne hq] using hm
  obtain ⟨hle, hvacates⟩ := h.vacating queue request hold ha
  simp only [Broker.stop_inbox]
  refine ⟨hle, ?_⟩
  by_cases hq : queue = ref
  · subst hq
    exact Broker.Vacates.of_nil hvacates.clears (by rw [Broker.stop_same])
  · exact hvacates.of_basic (by rw [Broker.stop_other s.broker hq])

theorem vacates_of_asking (h : s.broker.Coherent) (hs : s.broker.step config event = some r)
    (ht : timeout = 0) (hm : .autoDelete ref ∈ r.2)
    (hok : s.Deserted config timeout (.broker event)) : r.1.Vacates ref (r.1.queues ref).inbox := by
  obtain ⟨habandoned, taken, hi⟩ := Broker.abandoned_of_step h hs hm
  have hasking : ref ∈ s.asking config timeout (.broker event) := by
    rw [asking, if_pos ht, hs]
    exact mem_filterMap.mpr ⟨_, hm, rfl⟩
  have hclears := hok ref hasking
  rw [hi] at hclears
  exact Broker.Vacates.of_nil hclears.of_append habandoned.consumerList

/-- If only deserted queues ask for their self-destruction, a step stops no consumer by it. -/
theorem safe_step (h : s.Safe) {event : AutoDeleteEvent} (hok : s.Deserted config timeout event)
    {r : AutoDelete × List (Bool × ConsumerRef)} (hs : s.step config timeout event = some r) :
    r.1.Safe ∧ ∀ ref, (true, ref) ∉ r.2 := by
  cases event with
  | broker event =>
    simp only [step] at hs
    split at hs
    · next t broker replies ht hb =>
      cases hs
      exact ⟨(h.move ht hb).foldl_handle fun ref h0 hm =>
        vacates_of_asking h.coherent hb h0 hm hok, fun _ => not_mem_nil⟩
    · cases hs
  | autoDelete ref =>
    simp only [step] at hs
    split at hs
    · next timers hidle htimers =>
      cases hs
      refine ⟨?_, fun _ => not_mem_nil⟩
      have hsame : Safe { s with timers := update s.timers ref timers } :=
        ⟨h.coherent, fun queue => (h.vacating queue).of_eq rfl rfl⟩
      split
      · next hempty =>
        refine hsame.requestSelfDestruct fun _ => Broker.Vacates.of_nil ?_
          (length_eq_zero_iff.mp hempty)
        exact hok ref (by rw [asking, if_pos hempty]; exact mem_singleton_self ref)
      · exact hsame
    · cases hs
  | delete ref =>
    cases hs
    exact ⟨h.requestSelfDestruct nofun, fun _ => not_mem_nil⟩
  | selfDestruct ref =>
    simp only [step] at hs
    split at hs
    · next auto requests hidle hr =>
      cases hs
      refine ⟨h.stop fun request hm => by rw [hr]; exact mem_cons_of_mem _ hm,
        fun consumer hm => ?_⟩
      obtain ⟨c, hc, hpair⟩ := mem_map.mp hm
      obtain ⟨rfl, rfl⟩ := Prod.mk.inj hpair
      -- the requests before this one have left no consumer
      have hvacates := (h.vacating ref ⟨0, true⟩ (hr ▸ mem_cons_self) rfl).2
      rw [hvacates.consumerList_eq_nil hidle] at hc
      cases hc
    · cases hs

/-! ## Runs -/

/-- The state after a run, and the consumers that were stopped in it. -/
def outcome (config : Config) (timeout : Nat) (s : AutoDelete) (events : List AutoDeleteEvent) :
    Option (AutoDelete × List (Bool × ConsumerRef)) :=
  Lib.run (Lib.logged (step config timeout)) (s, []) events

/-- Every step of a run is made while no consumer is on its way into a queue that gives up. -/
def AlwaysDeserted (config : Config) (timeout : Nat) (s : AutoDelete)
    (events : List AutoDeleteEvent) : Prop :=
  Lib.Along (Lib.logged (step config timeout))
    (fun t event => t.1.Deserted config timeout event) (s, []) events

instance (config : Config) (timeout : Nat) (s : AutoDelete) (events : List AutoDeleteEvent) :
    Decidable (s.AlwaysDeserted config timeout events) :=
  inferInstanceAs (Decidable (Lib.Along (Lib.logged (step config timeout))
    (fun t event => t.1.Deserted config timeout event) (s, []) events))

/-- The next request of the queue is the one it has made itself to self-destruct. -/
def DueAutoDelete (s : AutoDelete) (ref : QueueRef) : Prop :=
  (s.broker.queues ref).basic.state = .idle ∧ (s.selfDestructs ref).head? = some ⟨0, true⟩

structure Fresh (s : AutoDelete) : Prop where
  broker : s.broker.Fresh
  selfDestructs : ∀ ref, s.selfDestructs ref = []

theorem Fresh.safe (h : s.Fresh) : s.Safe := by
  refine ⟨h.broker.coherent, fun ref request hr => ?_⟩
  rw [h.selfDestructs] at hr
  cases hr

/--
Auto-deletion stops no consumer, with a timeout or without, in every run in which no consumer
is on its way into a queue when that queue asks for its self-destruction.
-/
theorem autoDelete_stops_none (config : Config) (timeout : Nat)
    {log : List (Bool × ConsumerRef)} {events : List AutoDeleteEvent} (hfresh : s.Fresh)
    (hok : s.AlwaysDeserted config timeout events)
    (hrun : s.outcome config timeout events = some (s', log)) :
    (∀ ref, s'.DueAutoDelete ref → (s'.broker.queues ref).basic.consumerList = []) ∧
      ∀ consumer, (true, consumer) ∉ log := by
  let I (t : AutoDelete × List (Bool × ConsumerRef)) : Prop :=
    t.1.Safe ∧ ∀ consumer, (true, consumer) ∉ t.2
  have hI : ∀ t event t', I t → t.1.Deserted config timeout event →
      Lib.logged (step config timeout) t event = some t' → I t' := by
    rintro t event t' ⟨hsafe, hlog⟩ hdeserted hstep
    obtain ⟨stopped, hs, hout⟩ := Lib.logged_eq_some hstep
    obtain ⟨hsafe', hstopped⟩ := safe_step hsafe hdeserted hs
    refine ⟨hsafe', fun consumer hm => ?_⟩
    rw [hout] at hm
    exact (mem_append.mp hm).elim (hlog consumer) (hstopped consumer)
  obtain ⟨hsafe, hlog⟩ := Lib.run_invariant hI ⟨hfresh.safe, fun _ => not_mem_nil⟩ hok hrun
  refine ⟨fun ref ⟨hidle, hhead⟩ => ?_, hlog⟩
  have hvacates := (hsafe.vacating ref ⟨0, true⟩ (mem_of_mem_head? hhead) rfl).2
  exact hvacates.consumerList_eq_nil hidle

def unused : AutoDelete where
  broker := { Broker.unused with queues _ := { autoDelete := true } }

theorem unused_fresh : unused.Fresh :=
  ⟨⟨fun _ => rfl, fun _ => rfl, fun _ => rfl, fun _ => rfl, fun _ => rfl, fun _ => rfl⟩,
    fun _ => rfl⟩

/-- A request of a client that its channel and the queue work off. -/
def served (channel : ChannelRef) (request : ClientRequest) : List AutoDeleteEvent :=
  [.broker (.request channel request), .broker (.channelStep channel), .broker (.queueStep 0)]

/-- A consumer comes, and is cancelled; the timer goes off, and the queue destroys itself. -/
def abandoned : List AutoDeleteEvent :=
  served 1 (.consume 0 { consumerTag := .cpy ['t'] }) ++
    [.broker (.queueStep 0), .broker (.turn 0)] ++ served 1 (.cancel (.cpy ['t']) false) ++
    [.autoDelete 0, .selfDestruct 0]

theorem autoDelete_stops_none_abandoned :
    ∃ s' log, unused.outcome {} 10 abandoned = some (s', log) ∧
      (∀ ref, s'.DueAutoDelete ref → (s'.broker.queues ref).basic.consumerList = []) ∧
        ∀ consumer, (true, consumer) ∉ log := by
  have hsome : (unused.outcome {} 10 abandoned).isSome = true := by decide +kernel
  obtain ⟨⟨s', log⟩, hrun⟩ := Option.isSome_iff_exists.mp hsome
  exact ⟨s', log, hrun, autoDelete_stops_none {} 10 unused_fresh (by decide +kernel) hrun⟩

/--
A second consumer is on its way to the queue when the cancel of the first one leaves the queue
without consumers. It is attached before the queue takes its own request to self-destruct, and
is stopped by it.
-/
def overtaken : List AutoDeleteEvent :=
  served 1 (.consume 0 { consumerTag := .cpy ['t'] }) ++
    [.broker (.request 1 (.cancel (.cpy ['t']) false)), .broker (.channelStep 1),
      .broker (.request 2 (.consume 0 {})), .broker (.channelStep 2), .broker (.queueStep 0),
      .broker (.turn 0), .broker (.queueStep 0), .broker (.queueStep 0), .selfDestruct 0]

/-- The same when the timer has found the queue without consumers. -/
def overtakenTimer : List AutoDeleteEvent :=
  served 1 (.consume 0 { consumerTag := .cpy ['t'] }) ++
    [.broker (.queueStep 0), .broker (.turn 0)] ++ served 1 (.cancel (.cpy ['t']) false) ++
    [.broker (.request 2 (.consume 0 {})), .broker (.channelStep 2), .autoDelete 0,
      .broker (.queueStep 0), .selfDestruct 0]

theorem autoDelete_stops_overtaken :
    (unused.outcome {} 0 overtaken).map Prod.snd = some [(true, 1)] ∧
      (unused.outcome {} 10 overtakenTimer).map Prod.snd = some [(true, 1)] := by
  decide +kernel

end AutoDelete

end OpenAmq
