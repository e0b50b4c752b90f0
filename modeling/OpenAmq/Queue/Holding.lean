import OpenAmq.Queue.Steps

/-!
# Consumers and the contents they hold

* `Wf` — only attached consumers hold contents, and a cancelled one is on the list to the end
* `held` — the contents that wait for an acknowledgement
* `Wf.step`, `unacked_step` — both are kept by every step
-/

namespace OpenAmq

open List

/-! ## Contents held by some consumers -/

/-- The contents that the consumers `refs` hold, in the order of `refs`. -/
def Store.heldBy (store : Store) (refs : List ConsumerRef) : List Content :=
  refs.filterMap fun ref => (store.consumers ref).pendingContent

variable {store store' : Store} {ref : ConsumerRef} {s : QueueSystem} {queue queue' : BasicQueue}
  {after : Option ConsumerRef} {config : Config} {outputs : List Output}

namespace Store

@[simp] theorem setPending_pendingContent (store : Store) (ref ref' : ConsumerRef)
    (content : Option Content) :
    ((store.setPending ref content).consumers ref').pendingContent =
      if ref' = ref then content else (store.consumers ref').pendingContent := by
  by_cases h : ref' = ref
  · subst h
    simp [setPending, setConsumer]
  · simp [setPending, setConsumer, h]

@[simp] theorem spend_consumers (store : Store) (ref : ChannelRef) :
    (store.spend ref).consumers = store.consumers := by
  unfold spend
  simp only
  split <;> rfl

@[simp] theorem setConsumer_pendingContent (store : Store) (ref ref' : ConsumerRef)
    (consumer : Consumer) :
    ((store.setConsumer ref consumer).consumers ref').pendingContent =
      if ref' = ref then consumer.pendingContent else (store.consumers ref').pendingContent := by
  by_cases h : ref' = ref
  · subst h
    simp [setConsumer]
  · simp [setConsumer, h]

theorem setPaused_pendingContent (store : Store) (ref ref' : ConsumerRef) (paused : Bool) :
    ((store.setConsumer ref { store.consumers ref with paused }).consumers ref').pendingContent =
      (store.consumers ref').pendingContent := by
  rw [setConsumer_pendingContent]
  split
  · next h => rw [h]
  · rfl

variable {refs : List ConsumerRef}

theorem heldBy_congr
    (h : ∀ ref ∈ refs, (store'.consumers ref).pendingContent = (store.consumers ref).pendingContent)
    :
    store'.heldBy refs = store.heldBy refs := filterMap_congr h

theorem heldBy_append (store : Store) (xs ys : List ConsumerRef) :
    store.heldBy (xs ++ ys) = store.heldBy xs ++ store.heldBy ys := filterMap_append

theorem heldBy_singleton (store : Store) (ref : ConsumerRef) :
    store.heldBy [ref] = (store.consumers ref).pendingContent.toList := by
  cases h : (store.consumers ref).pendingContent <;> simp [heldBy, h]

theorem heldBy_perm_erase (store : Store) (h : ref ∈ refs) : (store.heldBy refs).Perm
      ((store.consumers ref).pendingContent.toList ++ store.heldBy (refs.erase ref)) := by
  have hp : (store.heldBy refs).Perm (store.heldBy ([ref] ++ refs.erase ref)) :=
    (perm_cons_erase h).filterMap _
  rwa [heldBy_append, heldBy_singleton] at hp

theorem heldBy_setPending_of_notMem (store : Store) (h : ref ∉ refs) (content : Option Content) :
    (store.setPending ref content).heldBy refs = store.heldBy refs := by
  refine heldBy_congr fun ref' hr => ?_
  rw [setPending_pendingContent, if_neg]
  rintro rfl
  exact h hr

theorem heldBy_setPending_perm (store : Store) (hn : refs.Nodup) (h : ref ∈ refs)
    (content : Option Content) :
    ((store.setPending ref content).heldBy refs).Perm
      (content.toList ++ store.heldBy (refs.erase ref)) := by
  have hp := heldBy_perm_erase (store.setPending ref content) h
  rwa [setPending_pendingContent, if_pos rfl,
    heldBy_setPending_of_notMem store hn.not_mem_erase] at hp

end Store

/-! ## Well-formed systems -/

/-- The consumers of the queue without the one that is being cancelled. -/
def BasicQueue.without (self : BasicQueue) : Option ConsumerRef → List ConsumerRef
  | none => self.consumerList
  | some ref => self.consumerList.erase ref

/-- The consumers that hold contents: one that is being cancelled has given its content back. -/
def BasicQueue.holders (self : BasicQueue) : List ConsumerRef :=
  match self.state with
  | .idle => self.consumerList
  | .dispatching after => self.without after

/-- Consumers are on the list once, and only those hold contents. -/
structure Attached (queue : BasicQueue) (store : Store) : Prop where
  nodup : queue.consumerList.Nodup
  pending : ∀ ref, ref ∉ queue.consumerList → (store.consumers ref).pendingContent = none

/-- The consumer `after` may be cancelled at the end of a dispatch. -/
def Cancellable (queue : BasicQueue) (store : Store) (after : Option ConsumerRef) : Prop :=
  ∀ ref, after = some ref → ref ∈ queue.consumerList ∧ (store.consumers ref).pendingContent ≠ none

namespace QueueSystem

/-- What holds of the consumers of a queue in every run. -/
structure Wf (s : QueueSystem) : Prop extends Attached s.queue s.store where
  cancelling : ∀ after, s.queue.state = .dispatching after → Cancellable s.queue s.store after

/-- The contents that wait for an acknowledgement. -/
def held (s : QueueSystem) : List Content := s.store.heldBy s.queue.holders

/-- A queue before its first operation, and the consumers that will be attached to it. -/
structure Fresh (s : QueueSystem) : Prop where
  contentList : s.queue.contentList = []
  consumerList : s.queue.consumerList = []
  state : s.queue.state = .idle
  dropCount : s.queue.dropCount = 0
  pending : ∀ ref, (s.store.consumers ref).pendingContent = none

theorem Fresh.wf (h : s.Fresh) : s.Wf where
  nodup := by rw [h.consumerList]; exact nodup_nil
  pending := fun ref _ => h.pending ref
  cancelling := fun after ha => by
    rw [h.state] at ha
    cases ha

theorem Fresh.held (h : s.Fresh) : s.held = [] := by
  simp [QueueSystem.held, BasicQueue.holders, h.state, h.consumerList, Store.heldBy]

end QueueSystem

/-! ## A step keeps the system well formed -/

theorem cancellable_none (queue : BasicQueue) (store : Store) : Cancellable queue store none :=
  fun _ h => by cases h

theorem Attached.erase_setPending (h : Attached queue store)
    (hl : queue'.consumerList = queue.consumerList.erase ref) :
    Attached queue' (store.setPending ref none) where
  nodup := by
    rw [hl]
    exact h.nodup.erase ref
  pending := fun ref' hr => by
    rw [Store.setPending_pendingContent]
    split
    · rfl
    · next hne =>
      refine h.pending ref' fun hm => hr ?_
      rw [hl]
      exact (mem_erase_of_ne hne).mpr hm

theorem finish_wf (h : Attached queue store) (after : Option ConsumerRef) :
    QueueSystem.Wf ⟨(queue.finish store after).1, (queue.finish store after).2.1⟩ := by
  cases after with
  | none => exact ⟨⟨h.nodup, h.pending⟩, fun _ ha => by cases ha⟩
  | some ref => exact ⟨h.erase_setPending rfl, fun _ ha => by cases ha⟩

theorem dispatch_wf (h : Attached queue store) (hc : Cancellable queue store after) :
    QueueSystem.Wf ⟨(queue.dispatch store after).1, (queue.dispatch store after).2.1⟩ := by
  rcases queue.dispatch_cases store after with hd | hd <;> rw [hd]
  · refine ⟨⟨h.nodup, h.pending⟩, fun after' ha => ?_⟩
    cases ha
    exact hc
  · exact finish_wf h after

theorem deliver_pendingContent (config : Config) (queue : BasicQueue) (store : Store)
    (content : Content) (ref ref' : ConsumerRef) :
    ((queue.deliver config store content ref).2.1.consumers ref').pendingContent =
      if ref' = ref ∧ queue.holds config (store.consumers ref) = true then some content
      else (store.consumers ref').pendingContent := by
  unfold BasicQueue.deliver
  simp only
  cases hh : queue.holds config (store.consumers ref) with
  | true | false => simp

theorem deliver_wf (h : Attached queue store) (hs : queue.state = .dispatching after)
    (hc : Cancellable queue store after) (hr : ref ∈ queue.consumerList) (content : Content) :
    QueueSystem.Wf ⟨(queue.deliver config store content ref).1,
      (queue.deliver config store content ref).2.1⟩ := by
  have hperm : (queue.consumerList.erase ref ++ [ref]).Perm queue.consumerList :=
    perm_append_comm.trans (perm_cons_erase hr).symm
  refine ⟨⟨hperm.nodup_iff.mpr h.nodup, fun ref' hn => ?_⟩, fun after' ha ref' he => ?_⟩
  · have hn' : ref' ∉ queue.consumerList := fun hm => hn (hperm.mem_iff.mpr hm)
    rw [deliver_pendingContent, if_neg]
    · exact h.pending ref' hn'
    · rintro ⟨rfl, -⟩
      exact hn' hr
  · have hst : queue.state = .dispatching after' := ha
    rw [hs] at hst
    obtain ⟨hm, hp⟩ := hc ref' (QueueState.dispatching.inj hst ▸ he)
    refine ⟨hperm.mem_iff.mpr hm, ?_⟩
    rw [deliver_pendingContent]
    split
    · exact Option.some_ne_none content
    · exact hp

theorem turn_wf (h : Attached queue store) (hs : queue.state = .dispatching after)
    (hc : Cancellable queue store after) :
    QueueSystem.Wf ⟨(queue.turn config store after).1, (queue.turn config store after).2.1⟩ := by
  rcases queue.turn_cases config store after with
    ht | ⟨content, contents, -, ⟨ref, hf, ht⟩ | ht⟩ <;> rw [ht]
  · exact finish_wf h after
  · have hrest : Attached queue.pop store := ⟨h.nodup, h.pending⟩
    exact deliver_wf hrest hs hc (mem_of_find?_eq_some hf) content
  · refine ⟨⟨h.nodup, h.pending⟩, fun after' ha => ?_⟩
    have hst : queue.state = .dispatching after' := ha
    rw [hs] at hst
    exact QueueState.dispatching.inj hst ▸ hc

theorem Attached.congr (h : Attached queue store) (hl : queue'.consumerList = queue.consumerList)
    (hp : ∀ ref, (store'.consumers ref).pendingContent = (store.consumers ref).pendingContent) :
    Attached queue' store' :=
  ⟨by rw [hl]; exact h.nodup, fun ref hr => by rw [hp]; exact h.pending ref (hl ▸ hr)⟩

theorem Cancellable.congr (h : Cancellable queue store after)
    (hl : queue'.consumerList = queue.consumerList)
    (hp : ∀ ref, (store'.consumers ref).pendingContent = (store.consumers ref).pendingContent) :
    Cancellable queue' store' after :=
  fun ref he => ⟨by rw [hl]; exact (h ref he).1, by rw [hp]; exact (h ref he).2⟩

namespace QueueSystem

theorem wf_of_idle (h : Attached queue store) (hs : queue.state = .idle) : Wf ⟨queue, store⟩ :=
  ⟨h, fun after ha => by
    have hst : queue.state = .dispatching after := ha
    rw [hs] at hst
    cases hst⟩

/-- A step keeps the queue and its consumers in order. -/
theorem Wf.step {s' : QueueSystem} {event : QueueEvent} (h : s.Wf)
    (hs : s.step config event = some (s', outputs)) : s'.Wf := by
  cases move_of_step hs with
  | setChannel ref channel =>
    exact ⟨h.toAttached.congr rfl fun _ => rfl,
      fun after ha => (h.cancelling after ha).congr rfl fun _ => rfl⟩
  | setPaused ref paused =>
    have hp := fun ref' => s.store.setPaused_pendingContent ref ref' paused
    exact ⟨h.toAttached.congr rfl hp, fun after ha => (h.cancelling after ha).congr rfl hp⟩
  | turn hst => exact turn_wf h.toAttached hst (h.cancelling _ hst)
  | publish channel content immediate hidle =>
    have hsame := s.queue.receive_same s.store channel content immediate
    exact dispatch_wf (h.toAttached.congr hsame.consumerList fun _ => rfl) (cancellable_none _ _)
  | dispatch hidle => exact dispatch_wf h.toAttached (cancellable_none _ _)
  | @consume ref consumer hidle hnew =>
    refine wf_of_idle ⟨BasicQueue.consume_nodup h.nodup ref, fun ref' hn => ?_⟩ hidle
    have hn' : ref' ∉ s.queue.consumerList := fun hm => hn (BasicQueue.mem_consume.mpr (Or.inl hm))
    rw [Store.setConsumer_pendingContent]
    split
    · rfl
    · exact h.pending ref' hn'
  | cancelFree hidle hp => exact finish_wf h.toAttached _
  | @cancelHolder ref content hidle hp =>
    -- the consumer is on the list to the end of the dispatch, with its content
    have hback : Attached (s.queue.push content) s.store := h.toAttached.congr rfl fun _ => rfl
    refine dispatch_wf hback fun ref' he => ?_
    cases he
    have hne : (s.store.consumers ref).pendingContent ≠ none := by simp [hp]
    exact ⟨not_imp_comm.mp (h.pending ref) hne, hne⟩
  | ackFree hidle hp => exact h
  | ackHolder hidle hp =>
    refine dispatch_wf ⟨h.nodup, fun ref' hn => ?_⟩ (cancellable_none _ _)
    rw [Store.setPending_pendingContent, h.pending ref' hn, ite_self]
  | get channel hidle | purge hidle => exact wf_of_idle (h.toAttached.congr rfl fun _ => rfl) hidle

end QueueSystem

/-! ## What the outputs say about acknowledgements -/

/-- What the consumer has not acknowledged after this output. -/
def Output.unacked (ref : ConsumerRef) (contents : List Content) : Output → List Content
  | .delivered ref' _ _ content _ true => if ref' = ref then contents ++ [content] else contents
  | .acked ref' content => if ref' = ref then contents.erase content else contents
  -- the contents of a cancelled consumer are no longer its own
  | .attached ref' => if ref' = ref then [] else contents
  | .cancelled ref' => if ref' = ref then [] else contents
  | _ => contents

/-- What the consumer has not acknowledged after these outputs, from what it had not before. -/
def unackedFrom (ref : ConsumerRef) (contents : List Content) (outputs : List Output) :
    List Content := outputs.foldl (Output.unacked ref) contents

/-- What the consumer has not acknowledged, by what the queue has put out so far. -/
def unacked (ref : ConsumerRef) (outputs : List Output) : List Content :=
  unackedFrom ref [] outputs

theorem unacked_append (ref : ConsumerRef) (xs ys : List Output) :
    unacked ref (xs ++ ys) = unackedFrom ref (unacked ref xs) ys := foldl_append

/-- The outputs of a step say what it does to what its consumers hold. -/
def UnackedStep (store : Store) (outputs : List Output) (store' : Store) : Prop :=
  ∀ ref, unackedFrom ref (store.consumers ref).pendingContent.toList outputs =
    (store'.consumers ref).pendingContent.toList

theorem UnackedStep.trans {store1 store2 store3 : Store} {xs ys : List Output}
    (h1 : UnackedStep store1 xs store2) (h2 : UnackedStep store2 ys store3) :
    UnackedStep store1 (xs ++ ys) store3 := fun ref => by
  rw [unackedFrom, foldl_append]
  exact (congrArg (unackedFrom ref · ys) (h1 ref)).trans (h2 ref)

theorem UnackedStep.of_noop
    (ho : ∀ out ∈ outputs, ∀ ref contents, Output.unacked ref contents out = contents)
    (hp : ∀ ref, (store'.consumers ref).pendingContent = (store.consumers ref).pendingContent) :
    UnackedStep store outputs store' := fun ref => by
  rw [hp, unackedFrom]
  induction outputs with
  | nil => rfl
  | cons out outs ih =>
    rw [foldl_cons, ho out mem_cons_self]
    exact ih fun out' hm => ho out' (mem_cons_of_mem out hm)

theorem finish_unacked (queue : BasicQueue) (store : Store) (after : Option ConsumerRef) :
    UnackedStep store (queue.finish store after).2.2 (queue.finish store after).2.1 := by
  cases after with
  | none => exact fun ref => rfl
  | some ref =>
    intro ref'
    simp only [BasicQueue.finish, Store.setPending_pendingContent]
    by_cases h : ref' = ref
    · simp [unackedFrom, Output.unacked, h]
    · simp [unackedFrom, Output.unacked, h, Ne.symm h]

theorem dispatch_unacked (queue : BasicQueue) (store : Store) (after : Option ConsumerRef) :
    UnackedStep store (queue.dispatch store after).2.2 (queue.dispatch store after).2.1 := by
  rcases queue.dispatch_cases store after with h | h <;> rw [h]
  · exact fun ref => rfl
  · exact finish_unacked queue store after

theorem deliver_unacked (h : (store.consumers ref).pendingContent = none) (content : Content) :
    UnackedStep store (queue.deliver config store content ref).2.2
      (queue.deliver config store content ref).2.1 := by
  intro ref'
  rw [deliver_pendingContent]
  cases hh : queue.holds config (store.consumers ref) with
  | false => simp [BasicQueue.deliver, hh, unackedFrom, Output.unacked]
  | true =>
    by_cases he : ref' = ref
    · subst he
      simp [BasicQueue.deliver, hh, unackedFrom, Output.unacked, h]
    · simp [BasicQueue.deliver, hh, unackedFrom, Output.unacked, he, Ne.symm he]

/-- The consumer holds nothing. -/
def Store.emptyHanded (store : Store) (ref : ConsumerRef) : Bool :=
  (store.consumers ref).pendingContent.isNone

namespace QueueSystem

/-- A step changes what is unacknowledged as its outputs say. -/
theorem unacked_step {s' : QueueSystem} {event : QueueEvent}
    (hok : s.Offers Store.emptyHanded event) (hs : s.step config event = some (s', outputs)) :
    UnackedStep s.store outputs s'.store := by
  cases move_of_step hs with
  | setChannel ref channel => exact fun _ => rfl
  | setPaused ref paused =>
    intro ref'
    rw [Store.setPaused_pendingContent]
    rfl
  | @turn after hst =>
    rcases hok.turn_cases config after with
      ht | ⟨content, contents, -, ⟨ref, -, hfit, ht⟩ | ht⟩ <;> rw [ht]
    · exact finish_unacked s.queue s.store after
    · exact deliver_unacked (Option.isNone_iff_eq_none.mp hfit) content
    · exact fun _ => rfl
  | publish channel content immediate hidle =>
    refine UnackedStep.trans (UnackedStep.of_noop (fun out ho ref contents => ?_) fun _ => rfl)
      (dispatch_unacked _ s.store none)
    have hout := s.queue.receive_ofPublish s.store channel content immediate out ho
    cases out <;> first | rfl | exact hout.elim
  | dispatch hidle => exact dispatch_unacked s.queue s.store none
  | @consume ref consumer hidle hnew =>
    intro ref'
    rw [Store.setConsumer_pendingContent]
    by_cases h : ref' = ref
    · simp [unackedFrom, Output.unacked, h]
    · simp [unackedFrom, Output.unacked, h, Ne.symm h]
  | cancelFree hidle hp => exact finish_unacked s.queue s.store _
  | cancelHolder hidle hp => exact dispatch_unacked _ s.store _
  | ackFree hidle hp => exact fun _ => rfl
  | @ackHolder ref content hidle hp =>
    have hack : UnackedStep s.store [.acked ref content] (s.store.setPending ref none) := by
      intro ref'
      rw [Store.setPending_pendingContent]
      by_cases h : ref' = ref
      · subst h
        simp [unackedFrom, Output.unacked, hp]
      · simp [unackedFrom, Output.unacked, h, Ne.symm h]
    exact hack.trans (dispatch_unacked s.queue _ none)
  | get channel hidle =>
    refine UnackedStep.of_noop (fun out ho ref contents => ?_) fun _ => rfl
    rcases get_outputs out ho with rfl | ⟨content, messageCount, rfl⟩ <;> rfl
  | purge hidle =>
    refine UnackedStep.of_noop (fun out ho ref contents => ?_) fun _ => rfl
    obtain ⟨content, -, rfl⟩ := mem_map.mp ho
    rfl

end QueueSystem

end OpenAmq
