import OpenAmq.Broker.Coherent

/-!
# Exclusive consumers

A consumer with exclusive access to a queue is its only consumer, and a consumer that is
refused leaves no trace. This holds as long as no queue is told to cancel a consumer that it
has not attached while it is locked: a queue unlocks itself whatever consumer it cancels.

* `Excludes` — an exclusive consumer is alone, and has locked the queue
* `excludes_step`, `exclusive_excludes` — one step, and every run
-/

namespace OpenAmq

open List

namespace Broker

variable {s s' : Broker}

/-- An exclusive consumer is alone on a queue that is locked. -/
structure Excludes (s : Broker) (ref : QueueRef) : Prop where
  alone : ∀ consumer ∈ (s.queues ref).basic.consumerList,
    (s.store.consumers consumer).exclusive = true →
      (s.queues ref).basic.consumerList = [consumer] ∧ (s.queues ref).locked = true
  cancelling : ∀ consumer, (s.queues ref).basic.state = .dispatching (some consumer) →
    consumer ∈ (s.queues ref).basic.consumerList ∨ (s.queues ref).locked = false

/-- A queue cancels consumers that it has attached, or else it has nothing to lose. -/
def CancelsAttached (s : Broker) : BrokerEvent → Prop
  | .queueStep ref =>
    ∀ message ∈ (s.queues ref).inbox.head?, ∀ consumer ∈ message.cancels,
      consumer ∈ (s.queues ref).basic.consumerList ∨
        (s.queues ref).locked = false ∧ (s.queues ref).feedOn = false
  | _ => True

instance (s : Broker) : (event : BrokerEvent) → Decidable (s.CancelsAttached event)
  | .queueStep ref => inferInstanceAs (Decidable (∀ message ∈ (s.queues ref).inbox.head?,
      ∀ consumer ∈ message.cancels, consumer ∈ (s.queues ref).basic.consumerList ∨
        (s.queues ref).locked = false ∧ (s.queues ref).feedOn = false))
  | .request _ _ | .close _ | .earn _ | .publish _ _ _ _ | .channelStep _ | .turn _ =>
    isTrue trivial

/-! ## One step -/

variable {ref ref' : QueueRef} {config : Config} {r : Broker × List Reply}

theorem Excludes.frame (h : s.Coherent) (he : s.Excludes ref) (hf : Frame s s') :
    s'.Excludes ref where
  alone := fun consumer hm hx => by
    rw [hf.basic] at hm ⊢
    rw [hf.locked]
    obtain ⟨paused, hc⟩ := hf.consumers consumer (h.attached ref consumer hm).2
    rw [hc] at hx
    exact he.alone consumer hm hx
  cancelling := fun consumer hst => by
    rw [hf.basic] at hst ⊢
    rw [hf.locked]
    exact he.cancelling consumer hst

theorem Excludes.settled (he : s.Excludes ref) {after : Option ConsumerRef}
    {r : BasicQueue × Store × List Output}
    (heff : Effect ref (s.queues ref).basic s.store after r) (hs : Settled s ref r s')
    (ha : ∀ consumer ∈ after, consumer ∈ (s.queues ref).basic.consumerList ∨
      (s.queues ref).locked = false)
    : s'.Excludes ref := by
  have hexclusive : ∀ consumer, (s'.store.consumers consumer).exclusive =
      (s.store.consumers consumer).exclusive := by
    intro consumer
    obtain ⟨pendingContent, hc⟩ := heff.onlyQueue.consumers consumer
    rw [hs.store, hc]
  rcases heff.ends with ⟨hidle, hl, hx⟩ | ⟨hdis, hl, hx⟩
  · refine ⟨fun consumer hm hex => ?_, fun consumer hst => ?_⟩
    · rw [hs.basic] at hm ⊢
      rw [hs.locked, hx]
      rw [hexclusive] at hex
      obtain ⟨hsingle, hlocked⟩ := he.alone consumer (heff.ends.mem hm) hex
      cases after with
      | none => exact ⟨hl.trans hsingle, hlocked⟩
      | some cancelled =>
        -- the exclusive consumer is the one that is cancelled, and so it is gone
        rcases ha cancelled rfl with hc | hunlocked
        · rw [hsingle, mem_singleton] at hc
          rw [hl, BasicQueue.without, hsingle, hc, erase_cons_head] at hm
          cases hm
        · rw [hlocked] at hunlocked
          cases hunlocked
    · rw [hs.basic, hidle] at hst
      cases hst
  · refine ⟨fun consumer hm hex => ?_, fun consumer hst => ?_⟩
    · rw [hs.basic] at hm ⊢
      rw [hs.locked, hx, if_pos rfl]
      rw [hexclusive] at hex
      obtain ⟨hsingle, hlocked⟩ := he.alone consumer (heff.ends.mem hm) hex
      rw [hsingle] at hl
      exact ⟨perm_singleton.mp hl, hlocked⟩
    · rw [hs.basic, hdis] at hst
      cases hst
      rw [hs.basic, hs.locked, hx, if_pos rfl, hl.mem_iff]
      exact ha consumer rfl

theorem Excludes.settled_other (he : s.Excludes ref') {after : Option ConsumerRef}
    {r : BasicQueue × Store × List Output}
    (heff : Effect ref (s.queues ref).basic s.store after r) (hs : Settled s ref r s')
    (hne : ref' ≠ ref) : s'.Excludes ref' := by
  have hq := hs.others ref' hne
  refine ⟨fun consumer hm hex => ?_, fun consumer hst => ?_⟩
  · rw [hq] at hm ⊢
    obtain ⟨pendingContent, hc⟩ := heff.onlyQueue.consumers consumer
    rw [hs.store, hc] at hex
    exact he.alone consumer hm hex
  · rw [hq] at hst ⊢
    exact he.cancelling consumer hst

theorem refusal_eq_none {consumer : Consumer} (h : s.refusal ref consumer = none) :
    (consumer.exclusive = true ∧ (s.queues ref).basic.consumerList = []) ∨
      (consumer.exclusive = false ∧ (s.queues ref).locked = false) := by
  unfold refusal at h
  simp only at h
  split at h
  · cases h
  split at h
  · next hex =>
    split at h
    · next hlen => exact Or.inl ⟨hex, length_eq_zero_iff.mp hlen⟩
    · cases h
  · next hex =>
    split at h
    · cases h
    · next hlocked => exact Or.inr ⟨by simpa using hex, by simpa using hlocked⟩

theorem acceptConsumer_exclusive (s : Broker) (ref : QueueRef) (consumer c : ConsumerRef)
    (active : Bool) : ((s.acceptConsumer ref consumer active).store.consumers c).exclusive =
      (s.store.consumers c).exclusive := by
  by_cases hc : c = consumer
  · subst hc
    simp [Broker.acceptConsumer, Store.setConsumer]
  · simp [Broker.acceptConsumer, Store.setConsumer, hc]

theorem Excludes.acceptConsumer (he : s.Excludes ref) (hidle : (s.queues ref).basic.state = .idle)
    {consumer : ConsumerRef} (hr : s.refusal ref (s.store.consumers consumer) = none)
    (active : Bool) : (s.acceptConsumer ref consumer active).Excludes ref := by
  have hqueue : (s.acceptConsumer ref consumer active).queues ref = { s.queues ref with
        basic := ((s.queues ref).basic.consume consumer).1
        locked := (s.queues ref).locked || (s.store.consumers consumer).exclusive
        feedOn := active
        feedNoLocal := (s.store.consumers consumer).noLocal } := setQueue_same
  refine ⟨fun c hm hex => ?_, fun c hst => ?_⟩
  · rw [hqueue] at hm ⊢
    rw [acceptConsumer_exclusive] at hex
    rcases refusal_eq_none hr with ⟨hx, hl⟩ | ⟨hx, hunlocked⟩
    · have hsingle : ((s.queues ref).basic.consume consumer).1.consumerList = [consumer] := by
        rw [BasicQueue.consume, hl]
        rfl
      rw [hsingle] at hm ⊢
      rw [mem_singleton.mp hm, hx, Bool.or_true]
      exact ⟨rfl, rfl⟩
    · -- an exclusive consumer would have locked the queue
      rcases BasicQueue.mem_consume.mp hm with hm | rfl
      · rw [(he.alone c hm hex).2] at hunlocked
        cases hunlocked
      · rw [hx] at hex
        cases hex
  · rw [hqueue] at hst
    simp only [BasicQueue.consume] at hst
    rw [hidle] at hst
    cases hst

theorem Excludes.acceptConsumer_other (he : s.Excludes ref') (hne : ref' ≠ ref)
    (consumer : ConsumerRef) (active : Bool) :
    (s.acceptConsumer ref consumer active).Excludes ref' := by
  have hqueue : (s.acceptConsumer ref consumer active).queues ref' = s.queues ref' :=
    setQueue_other hne
  refine ⟨fun c hm hex => ?_, fun c hst => ?_⟩
  · rw [hqueue] at hm ⊢
    rw [acceptConsumer_exclusive] at hex
    exact he.alone c hm hex
  · rw [hqueue] at hst ⊢
    exact he.cancelling c hst

theorem Excludes.popQueue (he : s.Excludes ref') (ref : QueueRef) (inbox : List QueueMessage) :
    (s.popQueue ref inbox).Excludes ref' := by
  refine ⟨fun c hm hex => ?_, fun c hst => ?_⟩
  · rw [popQueue_basic] at hm ⊢
    rw [popQueue_locked]
    exact he.alone c hm hex
  · rw [popQueue_basic] at hst ⊢
    rw [popQueue_locked]
    exact he.cancelling c hst

/-- If the queue cancels what it has attached, an exclusive consumer stays alone. -/
theorem excludes_step (h : s.Coherent) (he : ∀ ref, s.Excludes ref) {event : BrokerEvent}
    (hok : s.CancelsAttached event) (hs : s.step config event = some r) :
    ∀ ref, r.1.Excludes ref := by
  intro ref'
  cases move_of_step h hs with
  | frame hne hf => exact (he ref').frame h hf
  | refuse hi hr hs =>
    rw [hs]
    exact ((he ref').popQueue _ _).frame (h.popQueue hi) (postChannel_frame _ _ _)
  | @accept ref consumer active nowait inbox _ hidle hi hr hs =>
    have hb : (s.popQueue ref inbox).Belongs consumer ref :=
      h.inbox ref _ (hi ▸ mem_cons_self) consumer rfl
    have hpopped := (he ref').popQueue ref inbox
    rw [hs]
    refine Excludes.frame ((h.popQueue hi).acceptConsumer hb active) ?_ (postDispatch_frame _ ref)
    by_cases hq : ref' = ref
    · subst hq
      refine hpopped.acceptConsumer ?_ ?_ active
      · rw [popQueue_basic]
        exact hidle
      · rw [popQueue_refusal]
        exact hr
    · exact hpopped.acceptConsumer_other hq consumer active
  | @operate ref message inbox o _ hidle hi ho heff hs =>
    have hpopped := (he ref').popQueue ref inbox
    by_cases hq : ref' = ref
    · subst hq
      refine hpopped.settled heff hs fun c hc => ?_
      rw [popQueue_basic, popQueue_locked]
      have hcancel : message ∈ (s.queues ref').inbox.head? := by rw [hi]; rfl
      exact (hok message hcancel c hc).imp_right And.left
    · exact hpopped.settled_other heff hs hq
  | @turn ref after _ hst heff hs =>
    by_cases hq : ref' = ref
    · subst hq
      refine (he ref').settled heff hs fun c hc => ?_
      exact (he ref').cancelling c (by rw [hst, Option.mem_def.mp hc])
    · exact (he ref').settled_other heff hs hq

/-! ## Refused consumers -/

def SameAccess (queue queue' : ServerQueue) : Prop :=
  queue'.basic.consumerList = queue.basic.consumerList ∧ queue'.locked = queue.locked ∧
    queue'.feedOn = queue.feedOn

/--
The step is about a consumer that the queue does not have: it refuses the consumer, it is told
to cancel one that it has not attached, or a channel cancels consumers or is destroyed.
-/
def Declines (s : Broker) (ref : QueueRef) : BrokerEvent → Prop
  | .queueStep ref' => ref' = ref ∧ ∃ message ∈ (s.queues ref).inbox.head?,
      (∃ consumer active nowait, message = .consume consumer active nowait ∧
        (s.refusal ref (s.store.consumers consumer)).isSome = true) ∨
      ∃ consumer ∈ message.cancels, consumer ∉ (s.queues ref).basic.consumerList
  | .channelStep channel =>
    ∃ message ∈ (s.channels channel).inbox.head?,
      message = .destroy ∨ ∃ tag sync nowait, message = .cancel tag sync nowait
  | _ => False

theorem SameAccess.refl (queue : ServerQueue) : SameAccess queue queue := ⟨rfl, rfl, rfl⟩

theorem SameAccess.trans {q1 q2 q3 : ServerQueue} (h1 : SameAccess q1 q2)
    (h2 : SameAccess q2 q3) : SameAccess q1 q3 :=
  ⟨h2.1.trans h1.1, h2.2.1.trans h1.2.1, h2.2.2.trans h1.2.2⟩

theorem postQueue_sameAccess (s : Broker) (ref ref' : QueueRef) (message : QueueMessage) :
    SameAccess (s.queues ref') ((s.postQueue ref message).queues ref') := by
  by_cases hq : ref' = ref
  · subst hq
    rw [postQueue, setQueue_same]
    exact ⟨rfl, rfl, rfl⟩
  · rw [postQueue, setQueue_other hq]
    exact SameAccess.refl _

theorem cancel_sameAccess {channel : ChannelRef} {connection : ConnectionId} {tag : Shortstr}
    {sync nowait : Bool} (hr : s.cancel channel connection tag sync nowait = some r)
    (ref : QueueRef) : SameAccess (s.queues ref) (r.1.queues ref) := by
  unfold cancel at hr
  split at hr
  · simp only at hr
    split at hr
    · cases hr
      exact postQueue_sameAccess (s.byChannelRemove _) _ ref _
    split at hr
    · cases hr
    · cases hr
      exact SameAccess.refl _
  · cases hr
    exact SameAccess.refl _

theorem destroy_sameAccess (s : Broker) (channel : ChannelRef) (ref : QueueRef) :
    SameAccess (s.queues ref) ((s.destroy channel).queues ref) := by
  have hfold : ∀ (consumers : List ConsumerRef) (t : Broker),
      SameAccess (t.queues ref) ((consumers.foldl
        (fun self consumer => self.postQueue (self.store.consumers consumer).queue
          (.cancel consumer false true)) t).queues ref) := by
    intro consumers
    induction consumers with
    | nil => exact fun t => SameAccess.refl _
    | cons consumer consumers ih =>
      exact fun t => (postQueue_sameAccess t _ ref _).trans (ih _)
  exact hfold _ _

theorem operate_sameAccess (h : s.Coherent) {message : QueueMessage} {inbox : List QueueMessage}
    (hi : (s.queues ref).inbox = message :: inbox) {o : BasicQueue × Store × List Output}
    (ho : message.operation ((s.popQueue ref inbox).queues ref).basic s.store = some o)
    (hs : Settled (s.popQueue ref inbox) ref o s') {consumer : ConsumerRef}
    (hc : consumer ∈ message.cancels) (hn : consumer ∉ (s.queues ref).basic.consumerList)
    (hopen : (s.queues ref).locked = false ∧ (s.queues ref).feedOn = false) :
    SameAccess (s.queues ref) (s'.queues ref) := by
  have hb := h.inbox ref message (hi ▸ mem_cons_self) consumer
    (QueueMessage.consumer?_of_cancels hc)
  have hnone : (s.store.consumers consumer).pendingContent = none :=
    not_imp_comm.mp (h.pending consumer) (by rw [hb.1]; exact hn)
  cases message with
  | cancel c notify nowait =>
    obtain rfl := Option.some.inj hc
    rw [QueueMessage.operation, BasicQueue.cancel_of_none hnone, popQueue_basic] at ho
    obtain rfl := Option.some.inj ho
    have hx : cancelledOf ((s.queues ref).basic.finish s.store (some c)).2.2 ≠ [] :=
      cons_ne_nil c []
    refine ⟨?_, ?_, ?_⟩
    · rw [hs.basic]
      exact erase_of_not_mem hn
    · rw [hs.locked, if_neg hx, hopen.1]
    · rw [hs.feedOn, if_neg hx, hopen.2]
  | publish channel content immediate | dispatch | consume c active nowait | consumerAck c =>
    cases hc

theorem queueStep_sameAccess (h : s.Coherent) (hok : s.CancelsAttached (.queueStep ref))
    {s' : Broker} (hs : Move config s (.queueStep ref) s') (hd : s.Declines ref (.queueStep ref)) :
    SameAccess (s.queues ref) (s'.queues ref) := by
  obtain ⟨-, message, hm, hd⟩ := hd
  cases hs with
  | frame hne hf => exact absurd rfl (hne ref).1
  | refuse hi hr hs =>
    -- its channel is told, and the queue does nothing
    rw [hs, postChannel_queues, popQueue_same]
    exact ⟨rfl, rfl, rfl⟩
  | accept hidle hi hr hs =>
    rw [hi] at hm
    cases hm
    rcases hd with ⟨c, active, nowait, hc, href⟩ | ⟨c, hc, -⟩
    · cases hc
      rw [hr] at href
      cases href
    · cases hc
  | operate hidle hi ho heff hs =>
    have hcancel := hm
    rw [hi] at hm
    cases hm
    rcases hd with ⟨c, active, nowait, rfl, -⟩ | ⟨c, hc, hn⟩
    · cases ho
    · exact operate_sameAccess h hi ho hs hc hn ((hok _ hcancel c hc).resolve_left hn)

theorem declines_sameAccess (h : s.Coherent) {event : BrokerEvent} (hok : s.CancelsAttached event)
    (hs : s.step config event = some r) (hd : s.Declines ref event) :
    SameAccess (s.queues ref) (r.1.queues ref) := by
  cases event with
  | queueStep ref' =>
    obtain rfl := hd.1
    exact queueStep_sameAccess h hok (move_of_step h hs) hd
  | channelStep channel =>
    obtain ⟨message, hm, hd⟩ := hd
    simp only [step] at hs
    split at hs
    · next connection message' inbox hconn hi =>
      rw [hi] at hm
      cases hm
      rcases hd with rfl | ⟨tag, sync, nowait, rfl⟩
      · cases hs
        exact destroy_sameAccess (s.setServerChannel channel { s.channels channel with inbox })
          channel ref
      · exact cancel_sameAccess hs ref
    · cases hs
  | request channel request | close channel | earn channel
  | publish queue channel content immediate | turn ref' => exact hd.elim

/-! ## Runs -/

/--
A consumer with exclusive access is the only one of its queue, and the queue keeps its list,
its lock and its feed when a consumer is refused and when a refused consumer is cancelled.
-/
theorem exclusive_excludes (config : Config) {log : List Reply} {events : List BrokerEvent}
    (hfresh : s.Fresh) (hok : s.Throughout config CancelsAttached events)
    (hrun : s.outcome config events = some (s', log)) :
    (∀ ref, ∀ consumer ∈ (s'.queues ref).basic.consumerList,
      (s'.store.consumers consumer).exclusive = true →
        (s'.queues ref).basic.consumerList = [consumer]) ∧
      ∀ event r, s'.CancelsAttached event → s'.step config event = some r →
        ∀ ref, s'.Declines ref event → SameAccess (s'.queues ref) (r.1.queues ref) := by
  have hstart : ∀ ref, s.Excludes ref := by
    intro ref
    refine ⟨fun consumer hm => ?_, fun consumer hst => ?_⟩
    · rw [hfresh.consumerList] at hm
      cases hm
    · rw [hfresh.state] at hst
      cases hst
  obtain ⟨hcoherent, hexcludes⟩ := invariant_of_step
    (fun _ _ _ h he hok' hs => excludes_step h he hok' hs) hfresh.coherent hstart hok hrun
  refine ⟨fun ref consumer hm hex => ((hexcludes ref).alone consumer hm hex).1, ?_⟩
  exact fun event r hok' hs ref hd => declines_sameAccess hcoherent hok' hs hd

/-- A channel consumes with exclusive access, and another one is refused. -/
def refused : List BrokerEvent :=
  [.request 1 (.consume 0 { exclusive := true }), .channelStep 1, .queueStep 0, .queueStep 0,
    .turn 0, .request 2 (.consume 0 {}), .channelStep 2, .queueStep 0, .channelStep 2]

theorem exclusive_excludes_refused : ∃ s' log, unused.outcome {} refused = some (s', log) ∧
      (∀ ref, ∀ consumer ∈ (s'.queues ref).basic.consumerList,
        (s'.store.consumers consumer).exclusive = true →
          (s'.queues ref).basic.consumerList = [consumer]) ∧
        ∀ event r, s'.CancelsAttached event → s'.step {} event = some r →
          ∀ ref, s'.Declines ref event → SameAccess (s'.queues ref) (r.1.queues ref) := by
  have hsome : (unused.outcome {} refused).isSome = true := by decide +kernel
  obtain ⟨⟨s', log⟩, hrun⟩ := Option.isSome_iff_exists.mp hsome
  exact ⟨s', log, hrun, exclusive_excludes {} unused_fresh (by decide +kernel) hrun⟩

/--
While channel 1 has exclusive access to the queue, channel 2 asks for a consumer and cancels it
before the queue has refused it. That unlocks the queue, and channel 3 gets a consumer as well.
-/
def unlocked : List BrokerEvent :=
  [.request 1 (.consume 0 { exclusive := true }), .channelStep 1, .queueStep 0, .queueStep 0,
    .turn 0, .request 2 (.consume 0 { consumerTag := .cpy ['t'] }),
    .request 2 (.cancel (.cpy ['t']) false), .channelStep 2, .channelStep 2,
    .request 3 (.consume 0 {}), .channelStep 3, .queueStep 0, .queueStep 0, .queueStep 0]

theorem exclusive_excludes_unlocked : (unused.outcome {} unlocked).map (fun r =>
      ((r.1.queues 0).basic.consumerList, (r.1.store.consumers 0).exclusive)) =
        some ([0, 2], true) := by decide +kernel

end Broker

end OpenAmq
