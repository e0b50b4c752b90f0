import OpenAmq.Queue.Holding

/-!
# Who contents are delivered to

The test before the loop of a dispatch asks whether some consumer is free, that is neither
paused nor holding a content. The consumer of each content is found with another test, which
asks for neither. A delivery is to a free consumer exactly when the consumers that may have
the content but are not free stand behind one that is.

* `Output.Eligible` — the consumer of this delivery was to have it
* `eligible_step`, `deliveries_eligible` — one step, and every run
-/

namespace OpenAmq

open List

/-- A delivery was to a consumer that is free and may have the content. -/
def Output.Eligible : Output → Prop
  | .delivered _ consumer channel content _ _ =>
    consumer.paused = false ∧ consumer.pendingContent = none ∧
      channel.active = true ∧ 1 ≤ channel.credit ∧
      ∃ connection, channel.connection = some connection ∧
        (consumer.noLocal = true → connection ≠ content.producerId)
  | _ => True

/-- The consumer of a delivery, whether it was paused, and what it held. -/
def Output.recipient? : Output → Option (ConsumerRef × Bool × Option Content)
  | .delivered ref consumer _ _ _ _ => some (ref, consumer.paused, consumer.pendingContent)
  | _ => none

theorem Output.eligible_of_silent {out : Output} (h : out.Silent) : out.Eligible := by
  cases out with
  | delivered ref consumer channel content tag held => cases h.2.1
  | _ => exact trivial

theorem Output.eligible_of_ofPublish {out : Output} (h : out.OfPublish) : out.Eligible := by
  cases out with
  | delivered ref consumer channel content tag held => exact h.elim
  | _ => exact trivial

namespace QueueSystem

/-- A step dispatches to eligible consumers only, if it is offered free ones. -/
theorem eligible_step {config : Config} {s s' : QueueSystem} {event : QueueEvent}
    {outputs : List Output} (hok : s.Offers Store.free event)
    (hs : s.step config event = some (s', outputs)) : ∀ out ∈ outputs, out.Eligible := by
  intro out ho
  cases move_of_step hs with
  | setChannel ref channel | setPaused ref paused => cases ho
  | @turn after hst =>
    rcases hok.turn_cases config after with
      ht | ⟨content, contents, -, ⟨ref, hf, hfree, ht⟩ | ht⟩ <;> rw [ht] at ho
    · exact Output.eligible_of_silent (s.queue.finish_silent _ _ out ho)
    · obtain rfl := mem_singleton.mp ho
      simp only [Store.free, Bool.and_eq_true, Bool.not_eq_true', Option.isNone_iff_eq_none]
        at hfree
      obtain ⟨connection, hc, hactive, hcredit, hlocal⟩ := takes_eq_true (find?_some hf)
      exact ⟨hfree.1, hfree.2, hactive, hcredit, connection, hc, hlocal⟩
    · obtain rfl := mem_singleton.mp ho
      exact trivial
  | publish channel content immediate hidle =>
    rcases mem_append.mp ho with ha | hd
    · exact Output.eligible_of_ofPublish (s.queue.receive_ofPublish _ _ _ _ out ha)
    · exact Output.eligible_of_silent (BasicQueue.dispatch_silent _ _ _ out hd)
  | dispatch hidle => exact Output.eligible_of_silent (s.queue.dispatch_silent _ _ out ho)
  | consume consumer hidle hnew =>
    obtain rfl := mem_singleton.mp ho
    exact trivial
  | cancelFree hidle hp => exact Output.eligible_of_silent (s.queue.finish_silent _ _ out ho)
  | cancelHolder hidle hp =>
    exact Output.eligible_of_silent (BasicQueue.dispatch_silent _ _ _ out ho)
  | ackFree hidle hp => cases ho
  | ackHolder hidle hp =>
    rcases mem_cons.mp ho with rfl | hd
    · exact trivial
    · exact Output.eligible_of_silent (s.queue.dispatch_silent _ _ out hd)
  | get channel hidle =>
    rcases get_outputs out ho with rfl | ⟨content, messageCount, rfl⟩ <;> exact trivial
  | purge hidle =>
    obtain ⟨content, -, rfl⟩ := mem_map.mp ho
    exact trivial

theorem Offers.emptyHanded {s : QueueSystem} {event : QueueEvent}
    (h : s.Offers Store.free event) : s.Offers Store.emptyHanded event := by
  rintro rfl content hc
  refine fitFirst_iff.mpr fun ref hf => ?_
  have hfree := fitFirst_iff.mp (h rfl content hc) ref hf
  exact (Bool.and_eq_true_iff.mp hfree).2

/--
Every delivery is to a consumer that is not paused, holds nothing, is on an active channel
with credit, and is not refused the content as its own producer. So no consumer has two
contents to acknowledge.
-/
theorem deliveries_eligible (config : Config) {s s' : QueueSystem} {log : List Output}
    {events : List QueueEvent} (hfresh : s.Fresh)
    (hok : s.Throughout config (Offers Store.free) events)
    (hrun : s.outcome config events = some (s', log)) :
    (∀ out ∈ log, out.Eligible) ∧ ∀ ref, (unacked ref log).length ≤ 1 := by
  let I (t : QueueSystem × List Output) : Prop :=
    (∀ out ∈ t.2, out.Eligible) ∧
      ∀ ref, unacked ref t.2 = (t.1.store.consumers ref).pendingContent.toList
  have hI : I (s', log) := by
    refine Lib.run_invariant (fun t event t' hI hok' hstep => ?_) ?_ hok hrun
    · obtain ⟨outputs, hs, hlog⟩ := Lib.logged_eq_some hstep
      refine ⟨fun out ho => ?_, fun ref => ?_⟩
      · rw [hlog] at ho
        rcases mem_append.mp ho with hold | hnew
        · exact hI.1 out hold
        · exact eligible_step hok' hs out hnew
      · rw [hlog, unacked_append, hI.2 ref]
        exact unacked_step hok'.emptyHanded hs ref
    · refine ⟨fun out ho => (by cases ho), fun ref => ?_⟩
      rw [hfresh.pending ref]
      rfl
  refine ⟨hI.1, fun ref => ?_⟩
  rw [hI.2 ref]
  cases (s'.store.consumers ref).pendingContent with
  | none => exact Nat.zero_le 1
  | some content => exact Nat.le_refl 1

/-- An empty queue, whose consumers have a channel each, with some credit. -/
def separateChannels (credit : Nat) : QueueSystem where
  store := ⟨fun ref => { channel := ref }, fun _ => { connection := some 7, credit }⟩

/-- Three contents wait for two consumers, the first of which is paused. -/
def firstPaused : List QueueEvent :=
  [.publish none ⟨1, 9, 64⟩ false, .publish none ⟨2, 9, 64⟩ false,
    .publish none ⟨3, 9, 64⟩ false, .consume 0 { channel := 0, paused := true },
    .consume 1 { channel := 1 }, .dispatch]

/-- The same where the channel of the paused consumer is inactive too. -/
def firstInactive : List QueueEvent :=
  .setChannel 0 { connection := some 7, active := false } :: firstPaused ++ [.turn, .turn]

theorem deliveries_eligible_firstInactive :
    ∃ s log, (separateChannels 1).outcome {} firstInactive = some (s, log) ∧
      (∀ out ∈ log, out.Eligible) ∧ ∀ ref, (unacked ref log).length ≤ 1 := by
  have hok : (separateChannels 1).Throughout {} (Offers Store.free) firstInactive := by
    decide +kernel
  have hsome : ((separateChannels 1).outcome {} firstInactive).isSome = true := by
    decide +kernel
  obtain ⟨⟨s, log⟩, hrun⟩ := Option.isSome_iff_exists.mp hsome
  exact ⟨s, log, hrun, deliveries_eligible {} ⟨rfl, rfl, rfl, rfl, fun _ => rfl⟩ hok hrun⟩

/-- The paused consumer has the first content, and the third while it still holds the first. -/
theorem paused_consumer_receives :
    ((separateChannels 8).outcome {} (firstPaused ++ [.turn, .turn, .turn])).map (fun r =>
      (r.2.filterMap Output.recipient?, unacked 0 r.2)) =
        some ([(0, true, none), (1, false, none), (0, true, some ⟨1, 9, 64⟩)],
          [⟨1, 9, 64⟩, ⟨3, 9, 64⟩]) := by
  decide +kernel

end QueueSystem

end OpenAmq
