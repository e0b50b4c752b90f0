import OpenAmq.Queue.Holding

/-!
# No content is lost

Every accepted content is at every moment in one place: it waits on the list, a consumer
holds it, or the queue has finished with it.

A turn goes wrong when the consumer that is found for a content still holds another one,
which is released. `get` goes wrong when it takes a content that it cannot send.

* `Balanced` — what a step accepts and finishes is what changes hands
* `balanced_step`, `contents_perm` — one step, and every run
-/

namespace OpenAmq

open List BasicQueue

namespace QueueSystem

/-- Whatever was there before a step or is accepted is there after it or is finished. -/
def Balanced (s : QueueSystem) (outputs : List Output) (s' : QueueSystem) : Prop :=
  (s.queue.contentList ++ s.held ++ acceptedOf outputs).Perm
    (s'.queue.contentList ++ s'.held ++ finishedOf outputs)

variable {s : QueueSystem} {queue : BasicQueue} {after : Option ConsumerRef} {ref : ConsumerRef}
  {config : Config}

theorem balanced_iff {s' : QueueSystem} {outputs : List Output} : s.Balanced outputs s' ↔ ∀ content,
      s.queue.contentList.count content + s.held.count content +
        (acceptedOf outputs).count content =
      s'.queue.contentList.count content + s'.held.count content +
        (finishedOf outputs).count content := by
  rw [Balanced, perm_iff_count]
  simp only [count_append]

theorem Balanced.trans {s1 s2 s3 : QueueSystem} {xs ys : List Output}
    (h1 : s1.Balanced xs s2) (h2 : s2.Balanced ys s3) : s1.Balanced (xs ++ ys) s3 := by
  rw [balanced_iff] at h1 h2 ⊢
  intro content
  have hc1 := h1 content
  have hc2 := h2 content
  rw [acceptedOf_append, finishedOf_append, count_append, count_append]
  omega

/-! ## The end and the start of a dispatch -/

theorem finish_held (hn : queue.consumerList.Nodup) (store : Store) (after : Option ConsumerRef) :
    held ⟨(queue.finish store after).1, (queue.finish store after).2.1⟩ =
      store.heldBy (queue.without after) := by
  cases after with
  | none => rfl
  | some ref => exact store.heldBy_setPending_of_notMem hn.not_mem_erase none

theorem dispatch_held (hn : queue.consumerList.Nodup) (store : Store) (after : Option ConsumerRef) :
    held ⟨(queue.dispatch store after).1, (queue.dispatch store after).2.1⟩ =
      store.heldBy (queue.without after) := by
  rcases queue.dispatch_cases store after with h | h <;> rw [h]
  · rfl
  · exact finish_held hn store after

theorem held_of_idle (h : s.queue.state = .idle) :
    s.held = s.store.heldBy s.queue.consumerList := by
  rw [held, holders, h]

theorem dispatch_balanced (hn : queue.consumerList.Nodup) (store : Store)
    (hidle : queue.state = .idle) :
    Balanced ⟨queue, store⟩ (queue.dispatch store none).2.2
      ⟨(queue.dispatch store none).1, (queue.dispatch store none).2.1⟩ := by
  obtain ⟨ha, -, hf⟩ := contents_of_silent (queue.dispatch_silent store none)
  rw [Balanced, ha, hf, dispatch_held hn, queue.dispatch_contentList, held_of_idle hidle]
  exact List.Perm.refl _

/-! ## Turns -/

theorem mem_without {store : Store} (hc : Cancellable queue store after)
    (hm : ref ∈ queue.consumerList) (hp : (store.consumers ref).pendingContent = none) :
    ref ∈ queue.without after := by
  cases after with
  | none => exact hm
  | some ref' =>
    have hne : ref ≠ ref' := by
      rintro rfl
      exact (hc ref rfl).2 hp
    exact (mem_erase_of_ne hne).mpr hm

theorem without_nodup (hn : queue.consumerList.Nodup) (after : Option ConsumerRef) :
    (queue.without after).Nodup := by
  cases after with
  | none => exact hn
  | some ref => exact hn.erase ref

theorem without_perm {queue' : BasicQueue} (h : queue'.consumerList.Perm queue.consumerList)
    (after : Option ConsumerRef) : (queue'.without after).Perm (queue.without after) := by
  cases after with
  | none => exact h
  | some ref => exact h.erase ref

theorem deliver_balanced (config : Config) {store : Store} (h : Attached queue store)
    (hs : queue.state = .dispatching after) (hc : Cancellable queue store after)
    (hm : ref ∈ queue.consumerList) (hp : (store.consumers ref).pendingContent = none)
    (content : Content) :
    (content :: held ⟨queue, store⟩).Perm (held ⟨(queue.deliver config store content ref).1,
          (queue.deliver config store content ref).2.1⟩ ++
        finishedOf (queue.deliver config store content ref).2.2) := by
  have hheld : held ⟨queue, store⟩ = store.heldBy (queue.without after) := by
    rw [held, holders, hs]
  have hheld' : held ⟨(queue.deliver config store content ref).1,
      (queue.deliver config store content ref).2.1⟩ =
        (queue.deliver config store content ref).2.1.heldBy
          ((queue.deliver config store content ref).1.without after) := by
    have hs' : (queue.deliver config store content ref).1.state = .dispatching after := hs
    rw [held, holders, hs']
  have hrotate : ((queue.deliver config store content ref).1.without after).Perm
      (queue.without after) :=
    without_perm (perm_append_comm.trans (perm_cons_erase hm).symm) after
  rw [hheld, hheld']
  refine List.Perm.trans ?_ ((hrotate.filterMap _).symm.append_right _)
  cases hh : queue.holds config (store.consumers ref) with
  | false =>
    -- the queue is done with the content, and what consumers hold stays
    have hsame : (queue.deliver config store content ref).2.1.heldBy (queue.without after) =
        store.heldBy (queue.without after) :=
      Store.heldBy_congr fun ref' _ => by simp [deliver_pendingContent, hh]
    have hdone : finishedOf (queue.deliver config store content ref).2.2 = [content] := by
      simp [deliver, hh, finishedOf, Output.finished?]
    show List.Perm _ ((queue.deliver config store content ref).2.1.heldBy _ ++ _)
    rw [hsame, hdone]
    exact (perm_append_singleton content _).symm
  | true =>
    have hmem := mem_without hc hm hp
    have hset : (queue.deliver config store content ref).2.1.heldBy (queue.without after) =
        (store.setPending ref (some content)).heldBy (queue.without after) :=
      Store.heldBy_congr fun ref' _ => by simp [deliver_pendingContent, hh]
    have hnone : finishedOf (queue.deliver config store content ref).2.2 = [] := by
      simp [deliver, hh, finishedOf, Output.finished?]
    have hbefore := store.heldBy_perm_erase hmem
    rw [hp] at hbefore
    have hafter := store.heldBy_setPending_perm (without_nodup h.nodup after) hmem (some content)
    show List.Perm _ ((queue.deliver config store content ref).2.1.heldBy _ ++ _)
    rw [hset, hnone, append_nil]
    exact (hbefore.cons content).trans hafter.symm

theorem turn_balanced (hwf : s.Wf) (hst : s.queue.state = .dispatching after)
    (hok : s.Offers Store.emptyHanded .turn) :
    s.Balanced (s.queue.turn config s.store after).2.2
      ⟨(s.queue.turn config s.store after).1, (s.queue.turn config s.store after).2.1⟩ := by
  have hheld : s.held = s.store.heldBy (s.queue.without after) := by
    rw [held, holders, hst]
  rcases hok.turn_cases config after with
    ht | ⟨content, contents, hl, ⟨ref, hf, hfit, ht⟩ | ht⟩ <;> rw [ht, Balanced]
  · obtain ⟨ha, -, hf⟩ := contents_of_silent (s.queue.finish_silent s.store after)
    rw [ha, hf, finish_held hwf.nodup, s.queue.finish_contentList, hheld]
  · have hrest : Attached { s.queue with contentList := contents } s.store :=
      hwf.toAttached.congr rfl fun _ => rfl
    have hp := deliver_balanced config hrest hst (hwf.cancelling after hst)
      (mem_of_find?_eq_some hf) (Option.isNone_iff_eq_none.mp hfit) content
    have ha : acceptedOf (s.queue.pop.deliver config s.store content ref).2.2 = [] := rfl
    have hl' : (s.queue.pop.deliver config s.store content ref).1.contentList = contents :=
      congrArg tail hl
    rw [ha, append_nil, hl, hl', append_assoc]
    exact perm_middle.symm.trans (hp.append_left contents)
  · have hl' : s.queue.pop.contentList = contents := congrArg tail hl
    rw [hl, hl']
    show (content :: contents ++ s.held ++ []).Perm (contents ++ s.held ++ [content])
    rw [append_nil]
    exact (perm_append_singleton content _).symm

/-! ## Requests -/

/-- A queue that takes a content off for `get` can send it, or there is none. -/
def GetSends (s : QueueSystem) : QueueEvent → Prop
  | .get channel =>
    s.queue.contentList = [] ∨ ∃ ref ∈ channel, (s.store.channels ref).connection.isSome = true
  | _ => True

instance (s : QueueSystem) : (event : QueueEvent) → Decidable (s.GetSends event)
  | .get channel => inferInstanceAs (Decidable (s.queue.contentList = [] ∨
      ∃ ref ∈ channel, (s.store.channels ref).connection.isSome = true))
  | .publish _ _ _ | .dispatch | .turn | .consume _ _ | .cancel _ | .consumerAck _ | .purge
  | .setChannel _ _ | .setPaused _ _ => isTrue trivial

theorem publish_balanced (hwf : s.Wf) (hidle : s.queue.state = .idle)
    (channel : Option ChannelRef) (content : Content) (immediate : Bool) :
    s.Balanced (s.queue.publish s.store channel content immediate).2.2
      ⟨(s.queue.publish s.store channel content immediate).1,
        (s.queue.publish s.store channel content immediate).2.1⟩ := by
  have hsame := s.queue.receive_same s.store channel content immediate
  have hreceive : s.Balanced (s.queue.receive s.store channel content immediate).2
      ⟨(s.queue.receive s.store channel content immediate).1, s.store⟩ := by
    obtain ⟨rest, hl, hl', -⟩ := s.queue.receive_contents s.store channel content immediate
    rw [balanced_iff]
    intro content'
    have hheld : held ⟨(s.queue.receive s.store channel content immediate).1, s.store⟩ =
        s.store.heldBy s.queue.consumerList := by
      rw [held_of_idle (hsame.state.trans hidle), hsame.consumerList]
    rw [held_of_idle hidle, hheld, hl, hl', count_append, count_append]
    omega
  exact hreceive.trans (dispatch_balanced (hsame.consumerList ▸ hwf.nodup) s.store
    (hsame.state.trans hidle))

theorem cancelFree_balanced (hwf : s.Wf) (hidle : s.queue.state = .idle)
    (hp : (s.store.consumers ref).pendingContent = none) :
    s.Balanced (s.queue.finish s.store (some ref)).2.2
      ⟨(s.queue.finish s.store (some ref)).1, (s.queue.finish s.store (some ref)).2.1⟩ := by
  obtain ⟨ha, -, hf⟩ := contents_of_silent (s.queue.finish_silent s.store (some ref))
  rw [Balanced, ha, hf, finish_held hwf.nodup, s.queue.finish_contentList, held_of_idle hidle]
  refine List.Perm.append_right _ (List.Perm.append_left _ ?_)
  by_cases hmem : ref ∈ s.queue.consumerList
  · have herase := s.store.heldBy_perm_erase hmem
    rwa [hp] at herase
  · rw [without, erase_of_not_mem hmem]

theorem cancelHolder_balanced (hwf : s.Wf) (hidle : s.queue.state = .idle) {content : Content}
    (hp : (s.store.consumers ref).pendingContent = some content) :
    s.Balanced ((s.queue.push content).dispatch s.store (some ref)).2.2
      ⟨((s.queue.push content).dispatch s.store (some ref)).1,
        ((s.queue.push content).dispatch s.store (some ref)).2.1⟩ := by
  have hm : ref ∈ s.queue.consumerList := not_imp_comm.mp (hwf.pending ref) (by simp [hp])
  obtain ⟨ha, -, hf⟩ := contents_of_silent ((s.queue.push content).dispatch_silent s.store
    (some ref))
  have hback : (s.queue.push content).consumerList.Nodup := hwf.nodup
  have hheld := dispatch_held hback s.store (some ref)
  rw [Balanced, ha, hf, hheld, dispatch_contentList, held_of_idle hidle]
  have herase := s.store.heldBy_perm_erase hm
  rw [hp] at herase
  exact ((herase.append_left _).trans perm_middle).append_right _

theorem ackHolder_balanced (hwf : s.Wf) (hidle : s.queue.state = .idle) {content : Content}
    (hp : (s.store.consumers ref).pendingContent = some content) :
    s.Balanced [.acked ref content] ⟨s.queue, s.store.setPending ref none⟩ := by
  have hm : ref ∈ s.queue.consumerList := not_imp_comm.mp (hwf.pending ref) (by simp [hp])
  have hbefore := s.store.heldBy_perm_erase hm
  have hafter := s.store.heldBy_setPending_perm hwf.nodup hm none
  have hheld : held ⟨s.queue, s.store.setPending ref none⟩ =
      (s.store.setPending ref none).heldBy s.queue.consumerList := held_of_idle hidle
  rw [hp] at hbefore
  rw [Balanced, held_of_idle hidle, hheld, append_assoc, append_assoc]
  refine List.Perm.append_left _ ?_
  show (_ ++ []).Perm (_ ++ [content])
  rw [append_nil]
  exact (hbefore.trans (hafter.symm.cons content)).trans (perm_append_singleton content _).symm

theorem get_balanced {channel : Option ChannelRef} (hok : s.GetSends (.get channel))
    (hidle : s.queue.state = .idle) :
    s.Balanced (s.queue.get s.store channel).2 ⟨s.queue.pop, s.store⟩ := by
  have hheld : held ⟨s.queue.pop, s.store⟩ = s.held := by
    have hpop : held ⟨s.queue.pop, s.store⟩ = s.store.heldBy s.queue.consumerList :=
      held_of_idle hidle
    rw [hpop, held_of_idle hidle]
  rw [Balanced, hheld, BasicQueue.pop_contentList, BasicQueue.get]
  rcases hok with hl | ⟨ref, hr, hc⟩
  · rw [hl]
    cases channel.bind fun ref => (s.store.channels ref).connection <;> exact List.Perm.refl _
  · obtain ⟨connection, hc⟩ := Option.isSome_iff_exists.mp hc
    obtain rfl := Option.mem_def.mp hr
    simp only [Option.bind_some, hc]
    cases s.queue.contentList with
    | nil => exact List.Perm.refl _
    | cons content contents =>
      show (content :: contents ++ s.held ++ []).Perm (contents ++ s.held ++ [content])
      rw [append_nil]
      exact (perm_append_singleton content _).symm

theorem purge_balanced (hidle : s.queue.state = .idle) :
    s.Balanced s.queue.purge.2 ⟨s.queue.purge.1, s.store⟩ := by
  have hheld : held ⟨s.queue.purge.1, s.store⟩ = s.held := by
    have hpurge : held ⟨s.queue.purge.1, s.store⟩ = s.store.heldBy s.queue.consumerList :=
      held_of_idle hidle
    rw [hpurge, held_of_idle hidle]
  obtain ⟨ha, -, hf⟩ := purged_outputs s.queue.contentList
  rw [Balanced, hheld]
  show List.Perm (_ ++ acceptedOf (s.queue.contentList.map .purged))
    ([] ++ s.held ++ finishedOf (s.queue.contentList.map .purged))
  rw [ha, hf, append_nil]
  exact perm_append_comm

theorem consume_balanced (hidle : s.queue.state = .idle) (hnew : ref ∉ s.queue.consumerList)
    (consumer : Consumer) :
    s.Balanced (s.queue.consume ref).2 ⟨(s.queue.consume ref).1,
      s.store.setConsumer ref { consumer with pendingContent := none }⟩ := by
  have hheld : held ⟨(s.queue.consume ref).1,
      s.store.setConsumer ref { consumer with pendingContent := none }⟩ =
        (s.store.setConsumer ref { consumer with pendingContent := none }).heldBy
          (s.queue.consumerList ++ [ref]) := by
    rw [consume_of_not_mem hnew]
    exact held_of_idle hidle
  have hothers : (s.store.setConsumer ref { consumer with pendingContent := none }).heldBy
      s.queue.consumerList = s.store.heldBy s.queue.consumerList := by
    refine Store.heldBy_congr fun ref' hm => ?_
    rw [Store.setConsumer_pendingContent, if_neg]
    rintro rfl
    exact hnew hm
  rw [Balanced, hheld, held_of_idle hidle, Store.heldBy_append, Store.heldBy_singleton, hothers,
    Store.setConsumer_pendingContent, if_pos rfl]
  show List.Perm (_ ++ []) (_ ++ (_ ++ []) ++ [])
  simp only [append_nil]
  exact List.Perm.refl _

/-- What the steps of a run must meet for no content to get lost. -/
def KeepsContents (s : QueueSystem) (event : QueueEvent) : Prop :=
  s.Offers Store.emptyHanded event ∧ s.GetSends event

instance (s : QueueSystem) (event : QueueEvent) : Decidable (s.KeepsContents event) :=
  inferInstanceAs (Decidable (_ ∧ _))

/-- A step loses no content and makes none. -/
theorem balanced_step {s' : QueueSystem} {event : QueueEvent} {outputs : List Output} (hwf : s.Wf)
    (hok : s.KeepsContents event) (hs : s.step config event = some (s', outputs)) :
    s.Balanced outputs s' := by
  cases move_of_step hs with
  | setChannel ref channel => exact List.Perm.refl _
  | setPaused ref paused =>
    have hheld : held ⟨s.queue,
        s.store.setConsumer ref { s.store.consumers ref with paused }⟩ = s.held :=
      Store.heldBy_congr fun ref' _ => s.store.setPaused_pendingContent ref ref' paused
    rw [Balanced, hheld]
    exact List.Perm.refl _
  | turn hst => exact turn_balanced hwf hst hok.1
  | publish channel content immediate hidle =>
    exact publish_balanced hwf hidle channel content immediate
  | dispatch hidle => exact dispatch_balanced hwf.nodup s.store hidle
  | consume consumer hidle hnew => exact consume_balanced hidle hnew consumer
  | cancelFree hidle hp => exact cancelFree_balanced hwf hidle hp
  | cancelHolder hidle hp => exact cancelHolder_balanced hwf hidle hp
  | ackFree hidle hp => exact List.Perm.refl _
  | ackHolder hidle hp =>
    exact (ackHolder_balanced hwf hidle hp).trans (dispatch_balanced hwf.nodup _ hidle)
  | get channel hidle => exact get_balanced hok.2 hidle
  | purge hidle => exact purge_balanced hidle

/-! ## Runs -/

/-- What is kept along a run: the contents are in one place each, and so the outputs say. -/
structure Accounted (s : QueueSystem × List Output) : Prop where
  wf : s.1.Wf
  contents : (acceptedOf s.2).Perm (s.1.queue.contentList ++ s.1.held ++ finishedOf s.2)
  unacked : ∀ ref, unacked ref s.2 = (s.1.store.consumers ref).pendingContent.toList

theorem Fresh.accounted (h : s.Fresh) : Accounted (s, []) where
  wf := h.wf
  contents := by
    rw [h.contentList, h.held]
    exact List.Perm.refl _
  unacked := fun ref => by
    rw [h.pending ref]
    rfl

/-- What is accounted for before a step is so after it. -/
theorem Accounted.step {s s' : QueueSystem × List Output} {event : QueueEvent} (h : Accounted s)
    (hok : s.1.KeepsContents event) (hs : Lib.logged (QueueSystem.step config) s event = some s') :
    Accounted s' := by
  obtain ⟨outputs, hstep, hlog⟩ := Lib.logged_eq_some hs
  refine ⟨h.wf.step hstep, ?_, fun ref => ?_⟩
  · have hb := balanced_step h.wf hok hstep
    rw [hlog, acceptedOf_append, finishedOf_append]
    rw [balanced_iff] at hb
    have hc := perm_iff_count.mp h.contents
    refine perm_iff_count.mpr fun content => ?_
    have hbc := hb content
    have hcc := hc content
    simp only [count_append] at hcc ⊢
    omega
  · rw [hlog, unacked_append, h.unacked ref]
    exact unacked_step hok.1 hstep ref

/--
Every content is in one place: on the list, held by a consumer, or finished. What a consumer
holds is what it has not acknowledged, and cancelling it puts the content back.
-/
theorem contents_perm (config : Config) {s s' : QueueSystem} {log : List Output}
    {events : List QueueEvent} (hfresh : s.Fresh)
    (hok : s.Throughout config KeepsContents events)
    (hrun : s.outcome config events = some (s', log)) :
    (acceptedOf log).Perm (s'.queue.contentList ++ s'.held ++ finishedOf log) ∧
      (∀ ref, unacked ref log = (s'.store.consumers ref).pendingContent.toList) ∧
      ∀ ref content, (s'.store.consumers ref).pendingContent = some content →
        (s'.queue.cancel s'.store ref).1.contentList = content :: s'.queue.contentList := by
  have hacc : Accounted (s', log) :=
    Lib.run_invariant (fun _ _ _ hI hok' hstep => Accounted.step hI hok' hstep)
      hfresh.accounted hok hrun
  refine ⟨hacc.contents, hacc.unacked, fun ref content hp => ?_⟩
  rw [cancel_of_some hp, dispatch_contentList, push_contentList]

/-- An empty queue, whose consumers are all on one channel. -/
def oneChannel (credit : Nat) : QueueSystem where
  store := ⟨fun _ => { channel := 0 }, fun _ => { connection := some 7, credit }⟩

def firstContent : Content := ⟨1, 9, 64⟩

def secondContent : Content := ⟨2, 9, 64⟩

/-- Two contents are published, and delivered as far as the credit of the channel allows. -/
def twoPublished : List QueueEvent :=
  [.publish none firstContent false, .publish none secondContent false,
    .consume 0 { channel := 0 }, .dispatch, .turn, .turn]

theorem fresh_oneChannel (credit : Nat) : (oneChannel credit).Fresh :=
  ⟨rfl, rfl, rfl, rfl, fun _ => rfl⟩

theorem contents_perm_twoPublished :
    ∃ s log, (oneChannel 1).outcome {} (twoPublished ++ [.consumerAck 0]) = some (s, log) ∧
      (acceptedOf log).Perm (s.queue.contentList ++ s.held ++ finishedOf log) := by
  have hok : (oneChannel 1).Throughout {} KeepsContents (twoPublished ++ [.consumerAck 0]) := by
    decide +kernel
  have hsome : ((oneChannel 1).outcome {} (twoPublished ++ [.consumerAck 0])).isSome = true := by
    decide +kernel
  obtain ⟨⟨s, log⟩, hrun⟩ := Option.isSome_iff_exists.mp hsome
  exact ⟨s, log, hrun, (contents_perm {} (fresh_oneChannel 1) hok hrun).1⟩

/-- With a credit of 2 the consumer has both contents, and the first one is nowhere. -/
theorem second_content_releases_first :
    ((oneChannel 2).outcome {} twoPublished).map (fun r => (acceptedOf r.2, r.1.queue.contentList,
      r.1.held, finishedOf r.2)) =
        some ([firstContent, secondContent], [], [secondContent], []) := by
  decide +kernel

end QueueSystem

end OpenAmq
