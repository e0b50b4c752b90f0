import OpenAmq.Queue.Steps

/-!
# Contents are handed out in order

A content that is handed to a client was accepted after every content handed out before it,
as long as no consumer is cancelled that holds a content (which goes back to the front).

* `InOrder` — what a step hands out comes from the front of the list
* `inOrder_step`, `handed_sublist_accepted` — one step, and every run
-/

namespace OpenAmq

open List

namespace QueueSystem

/-- What a step hands out is taken from the front, and what it accepts goes to the end. -/
def InOrder (s : QueueSystem) (outputs : List Output) (s' : QueueSystem) : Prop :=
  (handedOf outputs ++ s'.queue.contentList).Sublist (s.queue.contentList ++ acceptedOf outputs)

theorem InOrder.trans {s1 s2 s3 : QueueSystem} {xs ys : List Output}
    (h1 : s1.InOrder xs s2) (h2 : s2.InOrder ys s3) : s1.InOrder (xs ++ ys) s3 := by
  have hleft := h2.append_left (handedOf xs)
  have hright := h1.append_right (acceptedOf ys)
  rw [InOrder, handedOf_append, acceptedOf_append]
  simp only [append_assoc] at hleft hright ⊢
  exact hleft.trans hright

variable {s s' : QueueSystem}

theorem inOrder_of_silent {outputs : List Output}
    (ho : ∀ out ∈ outputs, out.Silent) (hl : s'.queue.contentList = s.queue.contentList) :
    s.InOrder outputs s' := by
  obtain ⟨ha, hh, -⟩ := contents_of_silent ho
  rw [InOrder, ha, hh, hl, append_nil]
  exact List.Sublist.refl _

def CancelsNoHolder (s : QueueSystem) : QueueEvent → Prop
  | .cancel ref => (s.store.consumers ref).pendingContent = none
  | _ => True

instance (s : QueueSystem) : (event : QueueEvent) → Decidable (s.CancelsNoHolder event)
  | .cancel ref => inferInstanceAs (Decidable ((s.store.consumers ref).pendingContent = none))
  | .publish _ _ _ | .dispatch | .turn | .consume _ _ | .consumerAck _ | .get _ | .purge
  | .setChannel _ _ | .setPaused _ _ => isTrue trivial

theorem turn_inOrder (config : Config) (s : QueueSystem) (after : Option ConsumerRef) :
    s.InOrder (s.queue.turn config s.store after).2.2
      ⟨(s.queue.turn config s.store after).1, (s.queue.turn config s.store after).2.1⟩ := by
  rcases s.queue.turn_cases config s.store after with
    ht | ⟨content, contents, hl, ⟨ref, -, ht⟩ | ht⟩ <;> rw [ht]
  · exact inOrder_of_silent (s.queue.finish_silent s.store after)
      (s.queue.finish_contentList s.store after)
  · have hl' : (s.queue.pop.deliver config s.store content ref).1.contentList = contents :=
      congrArg tail hl
    rw [InOrder, hl, hl']
    exact sublist_append_left (content :: contents) []
  · have hl' : s.queue.pop.contentList = contents := congrArg tail hl
    rw [InOrder, hl, hl']
    exact (sublist_cons_self content contents).trans (sublist_append_left _ _)

theorem publish_inOrder (s : QueueSystem) (channel : Option ChannelRef) (content : Content)
    (immediate : Bool) :
    s.InOrder (s.queue.publish s.store channel content immediate).2.2
      ⟨(s.queue.publish s.store channel content immediate).1,
        (s.queue.publish s.store channel content immediate).2.1⟩ := by
  have hreceive : s.InOrder (s.queue.receive s.store channel content immediate).2
      ⟨(s.queue.receive s.store channel content immediate).1, s.store⟩ := by
    obtain ⟨rest, hl, hl', hh⟩ := s.queue.receive_contents s.store channel content immediate
    rw [InOrder, hh, hl, hl', append_assoc]
    exact sublist_append_right _ _
  exact hreceive.trans (inOrder_of_silent (BasicQueue.dispatch_silent _ s.store none)
    (BasicQueue.dispatch_contentList _ s.store none))

theorem get_inOrder (s : QueueSystem) (channel : Option ChannelRef) :
    s.InOrder (s.queue.get s.store channel).2 ⟨(s.queue.get s.store channel).1, s.store⟩ := by
  have htail : s.queue.contentList.tail.Sublist (s.queue.contentList ++ []) :=
    (tail_sublist _).trans (sublist_append_left _ _)
  rw [InOrder, BasicQueue.get]
  cases channel.bind fun ref => (s.store.channels ref).connection with
  | none => exact htail
  | some connection =>
    cases hl : s.queue.contentList with
    | nil =>
      rw [BasicQueue.pop_contentList, hl]
      exact List.Sublist.refl _
    | cons content contents =>
      have hl' : s.queue.pop.contentList = contents := congrArg tail hl
      rw [hl']
      exact sublist_append_left (content :: contents) []

/-- A step takes from the front and adds at the end, unless a holder is cancelled. -/
theorem inOrder_step {config : Config} {event : QueueEvent}
    {outputs : List Output} (hok : s.CancelsNoHolder event)
    (hs : s.step config event = some (s', outputs)) : s.InOrder outputs s' := by
  cases move_of_step hs with
  | setChannel ref channel | setPaused ref paused =>
    exact inOrder_of_silent (fun out ho => by cases ho) rfl
  | turn hst => exact turn_inOrder config s _
  | publish channel content immediate hidle => exact publish_inOrder s channel content immediate
  | dispatch hidle =>
    exact inOrder_of_silent (s.queue.dispatch_silent s.store none)
      (s.queue.dispatch_contentList s.store none)
  | consume consumer hidle hnew => exact sublist_append_left s.queue.contentList []
  | cancelFree hidle hp =>
    exact inOrder_of_silent (s.queue.finish_silent s.store _) (s.queue.finish_contentList s.store _)
  | @cancelHolder ref content hidle hp =>
    have hnone : (s.store.consumers ref).pendingContent = none := hok
    rw [hp] at hnone
    cases hnone
  | ackFree hidle hp => exact inOrder_of_silent (fun out ho => by cases ho) rfl
  | @ackHolder ref content hidle hp =>
    have hack : s.InOrder [.acked ref content] ⟨s.queue, s.store.setPending ref none⟩ :=
      sublist_append_left s.queue.contentList []
    exact hack.trans (inOrder_of_silent (s.queue.dispatch_silent _ none)
      (s.queue.dispatch_contentList _ none))
  | get channel hidle => exact get_inOrder s channel
  | purge hidle =>
    obtain ⟨ha, hh, -⟩ := purged_outputs s.queue.contentList
    show List.Sublist (handedOf (s.queue.contentList.map .purged) ++ []) _
    rw [hh]
    exact nil_sublist _

/-- No content overtakes an earlier one, whatever the consumers, credits and pauses. -/
theorem handed_sublist_accepted (config : Config) {s s' : QueueSystem} {log : List Output}
    {events : List QueueEvent} (hempty : s.queue.contentList = [])
    (hok : s.Throughout config CancelsNoHolder events)
    (hrun : s.outcome config events = some (s', log)) :
    (handedOf log).Sublist (acceptedOf log) := by
  -- what has been handed out and what waits, in this order, was accepted in this order
  let I (t : QueueSystem × List Output) : Prop :=
    (handedOf t.2 ++ t.1.queue.contentList).Sublist (acceptedOf t.2)
  have hI : I (s', log) := by
    refine Lib.run_invariant (fun t event t' hI hok' hstep => ?_) ?_ hok hrun
    · obtain ⟨outputs, hs, hlog⟩ := Lib.logged_eq_some hstep
      have hin := (inOrder_step hok' hs).append_left (handedOf t.2)
      show (handedOf t'.2 ++ t'.1.queue.contentList).Sublist (acceptedOf t'.2)
      rw [hlog, handedOf_append, acceptedOf_append, append_assoc]
      rw [← append_assoc _ t.1.queue.contentList] at hin
      exact hin.trans (hI.append_right _)
    · show (([] : List Content) ++ s.queue.contentList).Sublist []
      rw [hempty]
      exact List.Sublist.refl _
  exact (sublist_append_left _ _).trans hI

/-- An empty queue, whose consumers have a channel each, with a credit of 1. -/
def ownChannels : QueueSystem where
  store := ⟨fun ref => { channel := ref }, fun _ => { connection := some 7, credit := 1 }⟩

/-- Two consumers have a content each, and the first leaves once it has acknowledged. -/
def takingTurns : List QueueEvent :=
  [.consume 0 { channel := 0 }, .publish none ⟨1, 9, 64⟩ false, .turn, .turn,
    .consume 1 { channel := 1 }, .publish none ⟨2, 9, 64⟩ false, .turn, .turn,
    .consumerAck 0, .turn, .cancel 0]

theorem handed_sublist_accepted_takingTurns :
    ∃ s log, ownChannels.outcome {} takingTurns = some (s, log) ∧
      (handedOf log).Sublist (acceptedOf log) := by
  have hok : ownChannels.Throughout {} CancelsNoHolder takingTurns := by decide +kernel
  have hsome : (ownChannels.outcome {} takingTurns).isSome = true := by decide +kernel
  obtain ⟨⟨s, log⟩, hrun⟩ := Option.isSome_iff_exists.mp hsome
  exact ⟨s, log, hrun, handed_sublist_accepted {} rfl hok hrun⟩

end QueueSystem

end OpenAmq
