import OpenAmq.Broker.Model
import OpenAmq.Queue.Holding

/-!
# What an operation of a queue does to the rest of the broker

A queue changes the consumers that are its own and the credit of their channels, nothing else.
Its list of consumers stays as it is up to the order, until a dispatch ends that cancels one
of them.

* `Store.OnlyQueue` — a change of the consumers of one queue
* `Effect` — what all operations of `amq_queue_basic` have in common
-/

namespace OpenAmq

open List

/-! ## Changes of the consumers of one queue -/

/-- Contents of consumers of this queue may change hands, and credit may be spent. -/
structure Store.OnlyQueue (queue : QueueRef) (store store' : Store) : Prop where
  consumers : ∀ ref, ∃ pendingContent,
    store'.consumers ref = { store.consumers ref with pendingContent }
  others : ∀ ref, (store.consumers ref).queue ≠ queue → store'.consumers ref = store.consumers ref
  channels : ∀ ref, ∃ credit ≤ (store.channels ref).credit,
    store'.channels ref = { store.channels ref with credit }

namespace Store

theorem OnlyQueue.refl (queue : QueueRef) (store : Store) : OnlyQueue queue store store :=
  ⟨fun _ => ⟨_, rfl⟩, fun _ _ => rfl, fun _ => ⟨_, Nat.le_refl _, rfl⟩⟩

variable {queue : QueueRef}

theorem OnlyQueue.queue_eq {store store' : Store}
    (h : OnlyQueue queue store store') (ref : ConsumerRef) :
    (store'.consumers ref).queue = (store.consumers ref).queue := by
  obtain ⟨pendingContent, hc⟩ := h.consumers ref
  rw [hc]

theorem OnlyQueue.trans {store1 store2 store3 : Store}
    (h1 : OnlyQueue queue store1 store2) (h2 : OnlyQueue queue store2 store3) :
    OnlyQueue queue store1 store3 where
  consumers := fun ref => by
    obtain ⟨p1, hc1⟩ := h1.consumers ref
    obtain ⟨p2, hc2⟩ := h2.consumers ref
    exact ⟨p2, by rw [hc2, hc1]⟩
  others := fun ref hne => by
    rw [h2.others ref (by rw [h1.queue_eq]; exact hne), h1.others ref hne]
  channels := fun ref => by
    obtain ⟨c1, hle1, hc1⟩ := h1.channels ref
    obtain ⟨c2, hle2, hc2⟩ := h2.channels ref
    rw [hc1] at hle2 hc2
    exact ⟨c2, Nat.le_trans hle2 hle1, hc2⟩

theorem onlyQueue_setPending {store : Store} {ref : ConsumerRef}
    (h : (store.consumers ref).queue = queue) (content : Option Content) :
    OnlyQueue queue store (store.setPending ref content) where
  consumers := fun ref' => by
    by_cases he : ref' = ref
    · subst he
      exact ⟨content, by simp [setPending, setConsumer]⟩
    · exact ⟨(store.consumers ref').pendingContent, by simp [setPending, setConsumer, he]⟩
  others := fun ref' hne => by
    have he : ref' ≠ ref := by
      rintro rfl
      exact hne h
    simp [setPending, setConsumer, he]
  channels := fun _ => ⟨_, Nat.le_refl _, rfl⟩

theorem onlyQueue_spend (queue : QueueRef) (store : Store) (ref : ChannelRef) :
    OnlyQueue queue store (store.spend ref) where
  consumers := fun ref' => ⟨_, by rw [spend_consumers]⟩
  others := fun ref' _ => by rw [spend_consumers]
  channels := fun ref' => by
    unfold spend
    simp only
    split
    · exact ⟨_, Nat.le_refl _, rfl⟩
    · by_cases he : ref' = ref
      · subst he
        exact ⟨_, Nat.sub_le _ 1, by simp [setChannel]⟩
      · exact ⟨_, Nat.le_refl _, by simp [setChannel, he]⟩

end Store

/-! ## Operations of a queue -/

def cancelledOf (outputs : List Output) : List ConsumerRef :=
  outputs.filterMap Broker.cancelled?

/-- The operation has ended, or it is in the loop of its dispatch. -/
def Ends (queue : BasicQueue) (after : Option ConsumerRef)
    (r : BasicQueue × Store × List Output) : Prop :=
  (r.1.state = .idle ∧ r.1.consumerList = queue.without after ∧ cancelledOf r.2.2 = after.toList) ∨
    (r.1.state = .dispatching after ∧ r.1.consumerList.Perm queue.consumerList ∧
      cancelledOf r.2.2 = [])

variable {r : BasicQueue × Store × List Output} {consumer : ConsumerRef} {queue : BasicQueue}

theorem Ends.mem {after : Option ConsumerRef} (h : Ends queue after r)
    (hm : consumer ∈ r.1.consumerList) : consumer ∈ queue.consumerList := by
  rcases h with ⟨-, hl, -⟩ | ⟨-, hl, -⟩
  · rw [hl] at hm
    cases after with
    | none => exact hm
    | some cancelled => exact mem_of_mem_erase hm
  · exact hl.mem_iff.mp hm

theorem Ends.nodup {after : Option ConsumerRef} (h : Ends queue after r)
    (hn : queue.consumerList.Nodup) : r.1.consumerList.Nodup := by
  rcases h with ⟨-, hl, -⟩ | ⟨-, hl, -⟩
  · rw [hl]
    cases after with
    | none => exact hn
    | some cancelled => exact hn.erase cancelled
  · exact hl.nodup_iff.mpr hn

/-- What an operation of a queue does, if it is to cancel `after` in the end. -/
structure Effect (ref : QueueRef) (queue : BasicQueue) (store : Store)
    (after : Option ConsumerRef) (r : BasicQueue × Store × List Output) : Prop where
  ends : Ends queue after r
  exclusive : r.1.exclusive = queue.exclusive
  onlyQueue : Store.OnlyQueue ref store r.2.1
  pending : ∀ consumer, (r.2.1.consumers consumer).pendingContent ≠ none →
    consumer ∈ r.1.consumerList ∨
      consumer ∉ queue.consumerList ∧ (store.consumers consumer).pendingContent ≠ none

section Operations

variable {ref : QueueRef} {queue : BasicQueue} {store : Store} {after : Option ConsumerRef}

theorem finish_effect (h : ∀ consumer ∈ after, (store.consumers consumer).queue = ref) :
    Effect ref queue store after (queue.finish store after) := by
  cases after with
  | none =>
    refine ⟨Or.inl ⟨rfl, rfl, rfl⟩, rfl, .refl ref store, fun consumer hp => ?_⟩
    exact (Decidable.em (consumer ∈ queue.consumerList)).imp_right fun hn => ⟨hn, hp⟩
  | some cancelled =>
    refine ⟨Or.inl ⟨rfl, rfl, rfl⟩, rfl, Store.onlyQueue_setPending (h cancelled rfl) none,
      fun consumer hp => ?_⟩
    simp only [BasicQueue.finish, Store.setPending_pendingContent] at hp
    split at hp
    · exact absurd rfl hp
    · next hne =>
      by_cases hm : consumer ∈ queue.consumerList
      · exact Or.inl ((mem_erase_of_ne hne).mpr hm)
      · exact Or.inr ⟨hm, hp⟩

theorem dispatch_effect (h : ∀ consumer ∈ after, (store.consumers consumer).queue = ref) :
    Effect ref queue store after (queue.dispatch store after) := by
  rcases queue.dispatch_cases store after with hd | hd <;> rw [hd]
  · refine ⟨Or.inr ⟨rfl, List.Perm.refl _, rfl⟩, rfl, .refl ref store, fun consumer hp => ?_⟩
    exact (Decidable.em (consumer ∈ queue.consumerList)).imp_right fun hn => ⟨hn, hp⟩
  · exact finish_effect h

theorem Effect.of_sameConsumers {queue' : BasicQueue} (h : Effect ref queue' store after r)
    (hl : queue'.consumerList = queue.consumerList) (he : queue'.exclusive = queue.exclusive)
    (outputs : List Output) (ho : cancelledOf outputs = []) :
    Effect ref queue store after (r.1, r.2.1, outputs ++ r.2.2) where
  ends := by
    have hout : cancelledOf (outputs ++ r.2.2) = cancelledOf r.2.2 := by
      rw [cancelledOf, filterMap_append]
      exact (congrArg (· ++ _) ho).trans (nil_append _)
    rcases h.ends with ⟨hs, hc, hx⟩ | ⟨hs, hc, hx⟩
    · refine Or.inl ⟨hs, ?_, hout.trans hx⟩
      rw [hc]
      cases after <;> simp only [BasicQueue.without, hl]
    · exact Or.inr ⟨hs, hl ▸ hc, hout.trans hx⟩
  exclusive := h.exclusive.trans he
  onlyQueue := h.onlyQueue
  pending := hl ▸ h.pending

theorem publish_effect (channel : Option ChannelRef) (content : Content) (immediate : Bool) :
    Effect ref queue store none (queue.publish store channel content immediate) := by
  have hsame := queue.receive_same store channel content immediate
  refine Effect.of_sameConsumers (dispatch_effect fun _ h => by cases h) hsame.consumerList
    hsame.exclusive _ ?_
  refine filterMap_eq_nil_iff.mpr fun out ho => ?_
  have hout := queue.receive_ofPublish store channel content immediate out ho
  cases out <;> first | rfl | exact hout.elim

theorem cancel_effect (h : (store.consumers consumer).queue = ref) :
    Effect ref queue store (some consumer) (queue.cancel store consumer) := by
  have hafter : ∀ c ∈ some consumer, (store.consumers c).queue = ref := fun c hc => by
    cases hc
    exact h
  cases hp : (store.consumers consumer).pendingContent with
  | none =>
    rw [BasicQueue.cancel_of_none hp]
    exact finish_effect hafter
  | some content =>
    rw [BasicQueue.cancel_of_some hp]
    have hpush : Effect ref (queue.push content) store (some consumer)
        ((queue.push content).dispatch store (some consumer)) := dispatch_effect hafter
    exact hpush.of_sameConsumers (queue.push_consumerList content) rfl [] rfl

theorem consumerAck_effect (hidle : queue.state = .idle)
    (h : (store.consumers consumer).queue = ref) :
    Effect ref queue store none (queue.consumerAck store consumer) := by
  cases hp : (store.consumers consumer).pendingContent with
  | none =>
    rw [BasicQueue.consumerAck_of_none hp]
    refine ⟨Or.inl ⟨hidle, rfl, rfl⟩, rfl, .refl ref store, fun c hc => ?_⟩
    exact (Decidable.em (c ∈ queue.consumerList)).imp_right fun hn => ⟨hn, hc⟩
  | some content =>
    rw [BasicQueue.consumerAck_of_some hp]
    have hset := Store.onlyQueue_setPending h none
    have hd : Effect ref queue (store.setPending consumer none) none
        (queue.dispatch (store.setPending consumer none) none) :=
      dispatch_effect fun _ hc => by cases hc
    refine ⟨hd.ends, hd.exclusive, hset.trans hd.onlyQueue, fun c hc => ?_⟩
    refine (hd.pending c hc).imp_right fun ⟨hn, hpc⟩ => ⟨hn, ?_⟩
    rw [Store.setPending_pendingContent] at hpc
    split at hpc
    · exact absurd rfl hpc
    · exact hpc

theorem deliver_effect {config : Config} (hs : queue.state = .dispatching after)
    (h : (store.consumers consumer).queue = ref) (hm : consumer ∈ queue.consumerList)
    (content : Content) :
    Effect ref queue store after (queue.deliver config store content consumer) := by
  have hperm : (queue.consumerList.erase consumer ++ [consumer]).Perm queue.consumerList :=
    perm_append_comm.trans (perm_cons_erase hm).symm
  have hspend := Store.onlyQueue_spend ref store (store.consumers consumer).channel
  refine ⟨Or.inr ⟨hs, hperm, rfl⟩, rfl, ?_, fun c hc => ?_⟩
  · unfold BasicQueue.deliver
    simp only
    split
    · exact hspend.trans (Store.onlyQueue_setPending (by rw [Store.spend_consumers]; exact h) _)
    · exact hspend
  · rw [deliver_pendingContent] at hc
    by_cases hmc : c ∈ queue.consumerList
    · exact Or.inl (hperm.mem_iff.mpr hmc)
    · rw [if_neg] at hc
      · exact Or.inr ⟨hmc, hc⟩
      · rintro ⟨rfl, -⟩
        exact hmc hm

theorem turn_effect {config : Config} (hs : queue.state = .dispatching after)
    (hafter : ∀ consumer ∈ after, (store.consumers consumer).queue = ref)
    (hlist : ∀ consumer ∈ queue.consumerList, (store.consumers consumer).queue = ref) :
    Effect ref queue store after (queue.turn config store after) := by
  rcases queue.turn_cases config store after with
    ht | ⟨content, contents, -, ⟨consumer, hf, ht⟩ | ht⟩ <;> rw [ht]
  · exact finish_effect hafter
  · have hm := mem_of_find?_eq_some hf
    have hstate : queue.pop.state = .dispatching after := hs
    have hpop : Effect ref queue.pop store after
        (queue.pop.deliver config store content consumer) :=
      deliver_effect hstate (hlist consumer hm) hm content
    exact hpop.of_sameConsumers queue.pop_consumerList rfl [] rfl
  · refine ⟨Or.inr ⟨hs, List.Perm.refl _, rfl⟩, rfl, .refl ref store, fun c hc => ?_⟩
    exact (Decidable.em (c ∈ queue.consumerList)).imp_right fun hn => ⟨hn, hc⟩

end Operations

/-! ## Requests -/

/-- The consumer that a request is about. -/
def QueueMessage.consumer? : QueueMessage → Option ConsumerRef
  | .consume ref _ _ => some ref
  | .cancel ref _ _ => some ref
  | .consumerAck ref => some ref
  | .publish _ _ _ | .dispatch => none

/-- The operation of `amq_queue_basic` that a request asks for. -/
def QueueMessage.operation (queue : BasicQueue) (store : Store) :
    QueueMessage → Option (BasicQueue × Store × List Output)
  | .publish channel content immediate => some (queue.publish store channel content immediate)
  | .dispatch => some (queue.dispatch store none)
  | .consume _ _ _ => none
  | .cancel consumer _ _ => some (queue.cancel store consumer)
  | .consumerAck consumer => some (queue.consumerAck store consumer)

def QueueMessage.cancels : QueueMessage → Option ConsumerRef
  | .cancel consumer _ _ => some consumer
  | _ => none

theorem QueueMessage.consumer?_of_cancels {message : QueueMessage}
    (h : consumer ∈ message.cancels) : consumer ∈ message.consumer? := by
  cases message with
  | cancel ref notify nowait => exact h
  | _ => cases h

theorem operation_effect {ref : QueueRef} {store : Store}
    {message : QueueMessage} (hidle : queue.state = .idle)
    (hb : ∀ consumer ∈ message.consumer?, (store.consumers consumer).queue = ref)
    (ho : message.operation queue store = some r) : Effect ref queue store message.cancels r := by
  cases message with
  | publish channel content immediate =>
    cases ho
    exact publish_effect channel content immediate
  | dispatch =>
    cases ho
    exact dispatch_effect fun _ h => by cases h
  | consume consumer active nowait => cases ho
  | cancel consumer notify nowait =>
    cases ho
    exact cancel_effect (hb consumer rfl)
  | consumerAck consumer =>
    cases ho
    exact consumerAck_effect hidle (hb consumer rfl)

end OpenAmq
