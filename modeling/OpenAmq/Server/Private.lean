import OpenAmq.Server.Model

/-!
# Exclusive queues

An exclusive queue belongs to the connection that has declared it. Whether a method comes from
that connection is tested when the queue is declared again and when it is to have a consumer,
but not when it is bound, unbound, purged, deleted or read.

* `Foreign` — a step that handles a method of another connection on the queue
* `Guarded` — the methods that are tested
* `foreign_refused_iff` — exactly these are refused, and leave the queue alone
-/

namespace OpenAmq

open Option List

namespace Server

/-- The action of the method looks this queue up, by its name or as the current queue. -/
def Names (s : Server) (channel : ChannelRef) (ref : QueueRef) : Method → Prop
  | .queueDeclare method => s.queueTable (s.declareName method.queue).2 = some ref
  | .queueBind queue _ _ _ _ | .queueUnbind queue _ _ _ _ | .queueDelete queue _
  | .queuePurge queue _ | .basicGet queue =>
    s.queueTable (s.queueOf channel queue) = some ref
  | _ => False

/--
A step that handles a method on this queue that does not come from its owner.

`basic.consume` is passed on to the channel, which answers itself when it knows the consumer
tag, and otherwise creates a consumer and passes it on to the queue.
-/
def Foreign (s : Server) (owner : ConnectionId) (ref : QueueRef) : ServerEvent → Prop
  | .method channel method =>
    (s.broker.store.channels channel).connection ≠ some owner ∧ s.Names channel ref method
  | .thread (.broker (.channelStep channel)) =>
    ∃ connection method, (s.broker.store.channels channel).connection = some connection ∧
      connection ≠ owner ∧
      (s.broker.channels channel).inbox.head? = some (.consume ref method) ∧
      method.consumerTag ≠ .empty ∧
      (s.broker.searchConsumer connection method.consumerTag).isSome = true
  | .thread (.broker (.queueStep queue)) =>
    queue = ref ∧ ∃ consumer active nowait,
      (s.queue ref).inbox.head? = some (.consume consumer active nowait) ∧
      (s.broker.store.channels (s.broker.store.consumers consumer).channel).connection ≠ some owner
  | _ => False

/-- The channel that the method has come from is closing, so that nobody is to be told. -/
def Closing (s : Server) : ServerEvent → Prop
  | .thread (.broker (.channelStep channel)) =>
    (s.broker.store.channels channel).zombie = true
  | .thread (.broker (.queueStep queue)) =>
    ∃ consumer active nowait, (s.queue queue).inbox.head? = some (.consume consumer active nowait) ∧
      (s.broker.store.channels (s.broker.store.consumers consumer).channel).zombie = true
  | _ => False

def Refused (s : Server) (event : ServerEvent) (answers : List Answer) : Prop :=
  s.Closing event ∨ answers.any Answer.isError = true

/-- The queue has the same contents, consumers and bindings, and it exists as before. -/
structure Untouched (s s' : Server) (ref : QueueRef) : Prop where
  contentList : (s'.queue ref).basic.contentList = (s.queue ref).basic.contentList
  consumerList : (s'.queue ref).basic.consumerList = (s.queue ref).basic.consumerList
  exchanges : s'.exchanges = s.exchanges
  queueTable : s'.queueTable = s.queueTable

/--
Methods that are refused: to declare the queue as exclusive, to bind or unbind it where there is
no exchange, and to consume from it, unless the tag is that of a consumer of this queue.
-/
def Guarded (s : Server) (ref : QueueRef) : ServerEvent → Prop
  | .method _ (.queueDeclare method) => method.exclusive = true
  | .method _ (.queueBind _ exchange _ _ _) | .method _ (.queueUnbind _ exchange _ _ _) =>
    s.exchangeTable exchange = none
  | .method _ _ => False
  | .thread (.broker (.channelStep channel)) =>
    (s.broker.store.channels channel).zombie = true ∨
      ∀ connection method, (s.broker.store.channels channel).connection = some connection →
        (s.broker.channels channel).inbox.head? = some (.consume ref method) →
          ∀ consumer, s.broker.searchConsumer connection method.consumerTag = some consumer →
            (s.broker.store.consumers consumer).queue ≠ ref
  | .thread _ => True

variable {cfg : ServerConfig} {s s' : Server} {owner connection : ConnectionId}
  {channel : ChannelRef} {ref : QueueRef}

theorem Untouched.refl (s : Server) (ref : QueueRef) : s.Untouched s ref := ⟨rfl, rfl, rfl, rfl⟩

/-! ## Protocol methods -/

theorem brokerError_isError {broker : Broker} (hz : (broker.store.channels channel).zombie = false)
    {code classId methodId : Nat} {text : Str} :
    ((broker.channelError channel code text classId methodId).map Answer.reply).any
      Answer.isError = true := by
  unfold Broker.channelError
  rw [hz]
  rfl

theorem channelError_isError (hz : (s.broker.store.channels channel).zombie = false)
    {code classId methodId : Nat} {text : String} :
    (s.channelError channel code text classId methodId).any Answer.isError = true :=
  brokerError_isError hz

theorem declareName_untouched (s : Server) (queue : Shortstr) (ref : QueueRef) :
    s.Untouched (s.declareName queue).1 ref ∧ (s.declareName queue).1.queueTable = s.queueTable ∧
      (s.declareName queue).1.objects = s.objects := by
  unfold declareName
  split
  · exact ⟨⟨rfl, rfl, rfl, rfl⟩, rfl, rfl⟩
  · exact ⟨.refl s ref, rfl, rfl⟩

variable {method : DeclareMethod} {r : Server × List Answer} {queue : Shortstr} {nowait : Bool}

theorem answerDeclare_refused (hz : (s.broker.store.channels channel).zombie = false)
    (ho : (s.queue ref).connection = some owner) (hne : connection ≠ owner)
    (hx : method.exclusive = true) :
    (s.answerDeclare connection channel method ref).1 = s ∧
      (s.answerDeclare connection channel method ref).2.any Answer.isError = true := by
  have hrefused : s.ownership connection method.exclusive ref = .refused := by
    simp only [ownership, hx, if_true, ho]
    exact if_neg (Ne.symm hne)
  unfold answerDeclare
  rw [hrefused]
  exact ⟨rfl, channelError_isError hz⟩

theorem answerDeclare_granted (hx : method.exclusive = false) :
    (s.answerDeclare connection channel method ref).2.any Answer.isError = false := by
  unfold answerDeclare ownership
  simp only [hx, Bool.false_eq_true, if_false, declareOk]
  split <;> rfl

theorem queueDeclare_refused_iff (hz : (s.broker.store.channels channel).zombie = false)
    (ho : (s.queue ref).connection = some owner) (hne : connection ≠ owner)
    (hn : s.queueTable (s.declareName method.queue).2 = some ref)
    (hs : s.queueDeclare cfg connection channel method = some r) :
    (r.2.any Answer.isError = true ∧ s.Untouched r.1 ref) ↔ method.exclusive = true := by
  obtain ⟨huntouched, htable, hobjects⟩ := s.declareName_untouched method.queue ref
  unfold queueDeclare at hs
  simp only [htable, hn] at hs
  cases hs
  cases hx : method.exclusive with
  | true =>
    have hz' : ((s.declareName method.queue).1.broker.store.channels channel).zombie = false := by
      rw [broker, hobjects]
      exact hz
    have ho' : ((s.declareName method.queue).1.queue ref).connection = some owner := by
      rw [queue, broker, hobjects]
      exact ho
    obtain ⟨hsame, herror⟩ := answerDeclare_refused hz' ho' hne hx
    rw [hsame]
    exact iff_of_true ⟨herror, huntouched⟩ rfl
  | false =>
    refine iff_of_false ?_ Bool.false_ne_true
    rw [answerDeclare_granted hx]
    exact fun h => Bool.false_ne_true h.1

theorem queueBind_refused_iff (hz : (s.broker.store.channels channel).zombie = false)
    {exchange routingKey : Shortstr} {arguments : Option Longstr}
    (hn : s.queueTable (s.queueOf channel queue) = some ref)
    (hs : s.queueBind cfg channel queue exchange routingKey arguments nowait = some r) :
    (r.2.any Answer.isError = true ∧ s.Untouched r.1 ref) ↔ s.exchangeTable exchange = none := by
  unfold queueBind at hs
  cases he : s.exchangeTable exchange with
  | none =>
    rw [he] at hs
    cases hs
    exact iff_of_true ⟨channelError_isError hz, .refl s ref⟩ rfl
  | some ex =>
    rw [he, hn] at hs
    obtain ⟨bound, -, rfl⟩ := map_eq_some_iff.mp hs
    refine iff_of_false (fun h => ?_) nofun
    cases nowait <;> exact Bool.false_ne_true h.1

theorem queueUnbind_refused_iff (hz : (s.broker.store.channels channel).zombie = false)
    {exchange routingKey : Shortstr} {arguments : Option Longstr}
    (hn : s.queueTable (s.queueOf channel queue) = some ref)
    (hs : s.queueUnbind channel queue exchange routingKey arguments nowait = some r) :
    (r.2.any Answer.isError = true ∧ s.Untouched r.1 ref) ↔ s.exchangeTable exchange = none := by
  unfold queueUnbind at hs
  cases he : s.exchangeTable exchange with
  | none =>
    rw [he] at hs
    cases hs
    exact iff_of_true ⟨channelError_isError hz, .refl s ref⟩ rfl
  | some ex =>
    rw [he, hn] at hs
    obtain ⟨unbound, -, rfl⟩ := map_eq_some_iff.mp hs
    refine iff_of_false (fun h => ?_) nofun
    cases nowait <;> exact Bool.false_ne_true h.1

theorem queueDelete_accepted (hn : s.queueTable (s.queueOf channel queue) = some ref) :
    (s.queueDelete channel queue nowait).2.any Answer.isError = false := by
  unfold queueDelete
  rw [hn]
  cases nowait <;> rfl

theorem queuePurge_accepted (hn : s.queueTable (s.queueOf channel queue) = some ref)
    (hs : s.queuePurge channel queue nowait = some r) : r.2.any Answer.isError = false := by
  unfold queuePurge at hs
  rw [hn] at hs
  simp only at hs
  split at hs
  · cases hs
  · cases hs
    cases nowait <;> rfl

theorem basicGet_accepted (hn : s.queueTable (s.queueOf channel queue) = some ref)
    (hs : s.basicGet channel queue = some r) : r.2.any Answer.isError = false := by
  unfold basicGet at hs
  rw [hn] at hs
  simp only at hs
  split at hs
  · cases hs
  · cases hs
    refine any_eq_false.mpr fun answer hm => ?_
    obtain ⟨out, -, rfl⟩ := mem_map.mp hm
    exact Bool.false_ne_true

/-! ## Consumers -/

theorem threadStep_eq_some {event : BrokerEvent}
    (hs : s.step cfg (.thread (.broker event)) = some r) :
    ∃ t objects, s.broker.step cfg.queues event = some t ∧ objects.broker = t.1 ∧
      r.1 = { s with objects } ∧ r.2 = t.2.map .reply := by
  simp only [step] at hs
  split at hs
  · cases hs
  obtain ⟨o, ho, rfl⟩ := map_eq_some_iff.mp hs
  simp only [AutoDelete.step] at ho
  split at ho
  · next ready broker replies hready hb =>
    cases ho
    refine ⟨(broker, replies), _, hb, AutoDelete.foldl_handle_broker _ _ _, rfl, ?_⟩
    simp only [threadAnswers, Server.broker, hb]
    rfl
  · cases ho

/-- A tag in use is refused if the channel is closing or the queue is another one. -/
theorem channelStep_refused_iff {method : ConsumeMethod}
    (hs : s.step cfg (.thread (.broker (.channelStep channel))) = some r)
    (hc : (s.broker.store.channels channel).connection = some connection)
    (hi : (s.broker.channels channel).inbox.head? = some (.consume ref method))
    (ht : method.consumerTag ≠ .empty) {consumer : ConsumerRef}
    (hf : s.broker.searchConsumer connection method.consumerTag = some consumer) :
    (s.Refused (.thread (.broker (.channelStep channel))) r.2 ∧ s.Untouched r.1 ref) ↔
      (s.broker.store.channels channel).zombie = true ∨
        (s.broker.store.consumers consumer).queue ≠ ref := by
  obtain ⟨t, objects, hb, ho, hr1, hr2⟩ := threadStep_eq_some hs
  obtain ⟨inbox, hinbox⟩ : ∃ inbox, (s.broker.channels channel).inbox =
      .consume ref method :: inbox := by
    cases h : (s.broker.channels channel).inbox with
    | nil => rw [h] at hi; cases hi
    | cons message inbox =>
      rw [h] at hi
      cases hi
      exact ⟨inbox, rfl⟩
  have hsearch : (s.broker.setServerChannel channel
      { s.broker.channels channel with inbox }).searchConsumer connection method.consumerTag =
        some consumer := hf
  simp only [Broker.step, hc, hinbox, Broker.channelRequest, Broker.consume, ht, if_false,
    hsearch] at hb
  have huntouched : t.1.queues = s.broker.queues → s.Untouched r.1 ref := by
    intro hq
    have hqueue : r.1.queue ref = s.queue ref := by
      rw [hr1]
      show objects.broker.queues ref = s.broker.queues ref
      rw [ho, hq]
    exact ⟨by rw [hqueue], by rw [hqueue], by rw [hr1], by rw [hr1]⟩
  have hconsumer : (s.broker.setServerChannel channel { s.broker.channels channel with
      inbox }).store = s.broker.store := rfl
  rw [hconsumer] at hb
  by_cases hq : (s.broker.store.consumers consumer).queue = ref
  · rw [if_pos hq] at hb
    cases hb
    -- the channel takes it for the consumer that it has already
    have hnone : r.2.any Answer.isError = false := by
      rw [hr2]
      cases method.nowait <;> rfl
    constructor
    · rintro ⟨hclosing | herror, -⟩
      · exact Or.inl hclosing
      · rw [hnone] at herror
        cases herror
    · rintro (hclosing | hne)
      · exact ⟨Or.inl hclosing, huntouched rfl⟩
      · exact absurd hq hne
  · rw [if_neg hq] at hb
    cases hb
    refine iff_of_true ⟨?_, huntouched rfl⟩ (Or.inr hq)
    cases hz : (s.broker.store.channels channel).zombie with
    | true => exact Or.inl hz
    | false =>
      refine Or.inr ?_
      rw [hr2]
      exact brokerError_isError hz

/-- A queue refuses a consumer of another connection than its owner's. -/
theorem queueStep_refused (hs : s.step cfg (.thread (.broker (.queueStep ref))) = some r)
    (hx : (s.queue ref).basic.exclusive = true) (ho : (s.queue ref).connection = some owner)
    {consumer : ConsumerRef} {active : Bool}
    (hi : (s.queue ref).inbox.head? = some (.consume consumer active nowait))
    (hne : (s.broker.store.channels
      (s.broker.store.consumers consumer).channel).connection ≠ some owner)
    : s.Refused (.thread (.broker (.queueStep ref))) r.2 ∧ s.Untouched r.1 ref := by
  obtain ⟨t, objects, hb, hobjects, hr1, hr2⟩ := threadStep_eq_some hs
  simp only [Broker.step] at hb
  split at hb
  · next message inbox hidle hinbox =>
    have hi' : (s.broker.queues ref).inbox.head? = some (.consume consumer active nowait) := hi
    rw [hinbox] at hi'
    cases hi'
    have hrefusal : (s.broker.popQueue ref inbox).refusal ref (s.broker.store.consumers consumer) =
          some "Queue is exclusive to another connection".toList := by
      rw [Broker.popQueue_refusal, Broker.refusal]
      exact if_pos ⟨hx, by
        intro heq
        exact hne (heq.symm.trans ho)⟩
    cases hb
    have hrequest : (s.broker.popQueue ref inbox).queueConsume ref consumer active nowait =
        ((s.broker.popQueue ref inbox).postChannel (s.broker.store.consumers consumer).channel
            (.cancel (s.broker.store.consumers consumer).tag false true),
          (s.broker.popQueue ref inbox).channelError (s.broker.store.consumers consumer).channel
            aslAccessRefused "Queue is exclusive to another connection".toList
            amqServerBasic amqServerBasicConsume) := by
      unfold Broker.queueConsume
      simp only
      have hstore : (s.broker.popQueue ref inbox).store = s.broker.store := rfl
      rw [hstore, hrefusal]
    have hqueue : (r.1.queue ref).basic = (s.queue ref).basic := by
      rw [hr1]
      show (objects.broker.queues ref).basic = (s.broker.queues ref).basic
      rw [hobjects]
      show (((s.broker.popQueue ref inbox).queueConsume ref consumer active
        nowait).1.queues ref).basic = _
      rw [hrequest, Broker.postChannel_queues, Broker.popQueue_basic]
    refine ⟨?_, by rw [hqueue], by rw [hqueue], by rw [hr1], by rw [hr1]⟩
    cases hz : (s.broker.store.channels (s.broker.store.consumers consumer).channel).zombie with
    | true => exact Or.inl ⟨consumer, active, nowait, hi, hz⟩
    | false =>
      refine Or.inr ?_
      rw [hr2]
      show (map Answer.reply ((s.broker.popQueue ref inbox).queueConsume ref consumer active
        nowait).2).any Answer.isError = true
      rw [hrequest]
      exact brokerError_isError hz
  · cases hb

/-! ## Every step -/

/--
A method of another connection on an exclusive queue is refused, and leaves the queue alone,
exactly if it is one of those that are guarded.
-/
theorem foreign_refused_iff (hx : (s.queue ref).basic.exclusive = true)
    (ho : (s.queue ref).connection = some owner) {event : ServerEvent}
    {r : Server × List Answer} (hf : s.Foreign owner ref event)
    (hs : s.step cfg event = some r) :
    (s.Refused event r.2 ∧ s.Untouched r.1 ref) ↔ s.Guarded ref event := by
  cases event with
  | thread event =>
    cases event with
    | broker event =>
      cases event with
      | channelStep channel =>
        obtain ⟨connection, method, hc, -, hi, ht, hfound⟩ := hf
        obtain ⟨consumer, hconsumer⟩ := isSome_iff_exists.mp hfound
        rw [channelStep_refused_iff hs hc hi ht hconsumer]
        refine or_congr_right ⟨fun hne connection' method' hc' hi' consumer' hconsumer' => ?_,
          fun hall => hall connection method hc hi consumer hconsumer⟩
        obtain rfl := some.inj (hc.symm.trans hc')
        cases some.inj (hi.symm.trans hi')
        obtain rfl := some.inj (hconsumer.symm.trans hconsumer')
        exact hne
      | queueStep queue =>
        obtain ⟨rfl, consumer, active, nowait, hi, hne⟩ := hf
        exact iff_of_true (queueStep_refused hs hx ho hi hne) trivial
      | request channel request | close channel | earn channel
      | publish queue channel content immediate | turn queue => exact hf.elim
    | autoDelete queue | delete queue | selfDestruct queue => exact hf.elim
  | method channel method =>
    obtain ⟨hne, hn⟩ := hf
    simp only [step] at hs
    split at hs
    · next connection hc hz =>
      have hne' : connection ≠ owner := by
        rintro rfl
        exact hne hc
      have hrefused : s.Refused (.method channel method) r.2 ↔
          r.2.any Answer.isError = true := or_iff_right id
      rw [hrefused]
      cases method with
      | queueDeclare method => exact queueDeclare_refused_iff hz ho hne' hn hs
      | queueBind queue exchange routingKey arguments nowait =>
        exact queueBind_refused_iff hz hn hs
      | queueUnbind queue exchange routingKey arguments nowait =>
        exact queueUnbind_refused_iff hz hn hs
      | queueDelete queue nowait =>
        cases hs
        refine iff_of_false (fun h => ?_) id
        exact Bool.false_ne_true ((queueDelete_accepted hn).symm.trans h.1)
      | queuePurge queue nowait =>
        refine iff_of_false (fun h => ?_) id
        exact Bool.false_ne_true ((queuePurge_accepted hn hs).symm.trans h.1)
      | basicGet queue =>
        refine iff_of_false (fun h => ?_) id
        exact Bool.false_ne_true ((basicGet_accepted hn hs).symm.trans h.1)
      | channelFlow active | exchangeDeclare exchange type passive internal nowait
      | exchangeDelete exchange nowait | basicConsume queue method
      | basicPublish exchange routingKey headers content mandatory immediate | basicAck
      | basicCancel consumerTag nowait => exact hn.elim
    · cases hs

/-! ## Two connections -/

def privateName : Shortstr := .cpy "private".toList

/-- Connection 1 declares the queue as exclusive. -/
def declaring : ServerEvent :=
  .method 1 (.queueDeclare { queue := privateName, exclusive := true })

/-- Connection 2 declares it as exclusive, too. -/
def declaringAgain : ServerEvent :=
  .method 2 (.queueDeclare { queue := privateName, exclusive := true })

theorem foreign_refused_iff_declaringAgain : ∃ s r,
    (twoClients.step plainConfig declaring).map Prod.fst = some s ∧
      s.step plainConfig declaringAgain = some r ∧
      ((s.Refused declaringAgain r.2 ∧ s.Untouched r.1 0) ↔ s.Guarded 0 declaringAgain) := by
  have hfirst : ((twoClients.step plainConfig declaring).map Prod.fst).any (fun s =>
      (s.queue 0).basic.exclusive && decide ((s.queue 0).connection = some 1) &&
        decide ((s.broker.store.channels 2).connection ≠ some 1) &&
        decide (s.queueTable privateName = some 0) &&
        (s.step plainConfig declaringAgain).isSome) = true := by decide +kernel
  obtain ⟨s, hs, hall⟩ := (any_eq_true _ _).mp hfirst
  simp only [Bool.and_eq_true, decide_eq_true_eq] at hall
  obtain ⟨⟨⟨⟨hx, ho⟩, hne⟩, hname⟩, hsome⟩ := hall
  obtain ⟨r, hr⟩ := isSome_iff_exists.mp hsome
  exact ⟨s, r, hs, hr, foreign_refused_iff hx ho ⟨hne, hname⟩ hr⟩

/-- A content that is published by connection 1. -/
def privateContent : Content := ⟨0, 1, 0⟩

/-- Connection 2 takes a content from the queue, and deletes the queue. -/
def intruding : List ServerEvent :=
  [declaring, .method 1 (.basicPublish .empty privateName none privateContent false false),
    .thread (.broker (.queueStep 0)), .method 2 (.basicGet privateName),
    .method 2 (.queueDelete privateName false), .thread (.selfDestruct 0)]

theorem exclusive_queue_intruding : (twoClients.outcome plainConfig intruding).map (fun r =>
        ((r.1.queue 0).basic.exclusive, (r.1.queue 0).connection, r.1.queueTable privateName)) =
          some (true, some 1, none) ∧
      (twoClients.outcome plainConfig intruding).map Prod.snd = some [
        .queueDeclareOk 1 privateName 0 0, .reply (.output 0 (.accepted privateContent)),
        .reply (.output 0 (.fetched privateContent 0)), .queueDeleteOk 2 0] := by
  decide +kernel

end Server

end OpenAmq
