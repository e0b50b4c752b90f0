import OpenAmq.Queue.Holding

/-!
# Limits of a queue

A queue with a `drop_limit` or a `trim_limit` is never longer than that, unless a consumer
that holds a content is cancelled while the queue is full: its content goes back to the list
without a test.

* `Within`, `AtLimit` — a queue that keeps its limits, or has reached one
* `publish_discarded` — a publish at a limit discards one content
* `bounded_step`, `contentList_length_le` — one step, and every run
-/

namespace OpenAmq

open List

def Output.discarded? : Output → Option Content
  | .dropped content => some content
  | .trimmed content => some content
  | _ => none

def discardedOf (outputs : List Output) : List Content := outputs.filterMap Output.discarded?

@[simp] theorem discardedOf_append (xs ys : List Output) :
    discardedOf (xs ++ ys) = discardedOf xs ++ discardedOf ys := filterMap_append

variable {outputs : List Output}

theorem discardedOf_eq_nil (h : ∀ out ∈ outputs, out.discarded? = none) :
    discardedOf outputs = [] :=
  filterMap_eq_nil_iff.mpr h

namespace BasicQueue

/-- The list is no longer than the limits allow. -/
def Within (self : BasicQueue) : Prop :=
  (self.dropLimit ≠ 0 → self.contentList.length ≤ self.dropLimit) ∧
    (self.trimLimit ≠ 0 → self.contentList.length ≤ self.trimLimit)

theorem Within.congr {q q' : BasicQueue} (h : q.Within) (hd : q'.dropLimit = q.dropLimit)
    (ht : q'.trimLimit = q.trimLimit)
    (hl : q'.contentList.length ≤ q.contentList.length) : q'.Within := by
  unfold Within
  rw [hd, ht]
  exact ⟨fun hne => Nat.le_trans hl (h.1 hne), fun hne => Nat.le_trans hl (h.2 hne)⟩

/-- There is room for one more content. -/
def HasRoom (self : BasicQueue) : Prop :=
  (self.dropLimit ≠ 0 → self.contentList.length < self.dropLimit) ∧
    (self.trimLimit ≠ 0 → self.contentList.length < self.trimLimit)

instance (self : BasicQueue) : Decidable self.HasRoom := inferInstanceAs (Decidable (_ ∧ _))

/-- What a publish discards: the new content at `drop_limit`, or else the oldest one. -/
def discards (self : BasicQueue) (content : Content) : List Content :=
  if self.dropLimit ≠ 0 ∧ self.dropLimit ≤ self.contentList.length then [content]
  else if self.trimLimit ≠ 0 ∧ self.trimLimit ≤ self.contentList.length then
    self.contentList.take 1
  else []

theorem discards_of_hasRoom {self : BasicQueue} (h : self.HasRoom) (content : Content) :
    self.discards content = [] := by
  unfold HasRoom at h
  rw [discards, if_neg (by omega), if_neg (by omega)]

theorem discards_of_full {self : BasicQueue} (h : ¬ self.HasRoom) (content : Content) :
    (self.discards content).length = 1 := by
  unfold HasRoom at h
  unfold discards
  split
  · rfl
  split
  · rw [length_take]
    omega
  · omega

/-! ## What a step does to the length of the list and to `drop_count` -/

/-- A step counts what it discards, and leaves a queue within its limits within them. -/
structure Bounded (q : BasicQueue) (outputs : List Output) (q' : BasicQueue) : Prop where
  dropLimit : q'.dropLimit = q.dropLimit
  trimLimit : q'.trimLimit = q.trimLimit
  dropCount : q'.dropCount = q.dropCount + (discardedOf outputs).length
  within : q.Within → q'.Within

theorem Bounded.trans {q1 q2 q3 : BasicQueue} {xs ys : List Output} (h1 : Bounded q1 xs q2)
    (h2 : Bounded q2 ys q3) : Bounded q1 (xs ++ ys) q3 where
  dropLimit := h2.dropLimit.trans h1.dropLimit
  trimLimit := h2.trimLimit.trans h1.trimLimit
  dropCount := by
    rw [h2.dropCount, h1.dropCount, discardedOf_append, length_append]
    omega
  within := h2.within ∘ h1.within

/-- The limits and the count are the same, and the list is not longer. -/
structure NotLonger (q q' : BasicQueue) : Prop where
  dropLimit : q'.dropLimit = q.dropLimit
  trimLimit : q'.trimLimit = q.trimLimit
  dropCount : q'.dropCount = q.dropCount
  length : q'.contentList.length ≤ q.contentList.length

theorem NotLonger.bounded {q q' : BasicQueue} (h : NotLonger q q')
    (ho : ∀ out ∈ outputs, out.discarded? = none) : Bounded q outputs q' where
  dropLimit := h.dropLimit
  trimLimit := h.trimLimit
  dropCount := by
    rw [discardedOf_eq_nil ho]
    exact h.dropCount
  within := fun hw => hw.congr h.dropLimit h.trimLimit h.length

variable (self : BasicQueue)

theorem pop_notLonger : NotLonger self self.pop :=
  ⟨rfl, rfl, rfl, by rw [pop_contentList, length_tail]; omega⟩

variable (store : Store)

variable (after : Option ConsumerRef)

theorem finish_notLonger :
    NotLonger self (self.finish store after).1 := by
  cases after <;> exact ⟨rfl, rfl, rfl, Nat.le_refl _⟩

theorem dispatch_notLonger :
    NotLonger self (self.dispatch store after).1 := by
  rcases self.dispatch_cases store after with h | h <;> rw [h]
  · exact ⟨rfl, rfl, rfl, Nat.le_refl _⟩
  · exact self.finish_notLonger store after

theorem finish_bounded :
    Bounded self (self.finish store after).2.2 (self.finish store after).1 :=
  (self.finish_notLonger store after).bounded fun out ho => by
    obtain ⟨ref, rfl⟩ := finish_outputs out ho
    rfl

theorem dispatch_bounded :
    Bounded self (self.dispatch store after).2.2 (self.dispatch store after).1 :=
  (self.dispatch_notLonger store after).bounded fun out ho => by
    obtain ⟨ref, rfl⟩ := dispatch_outputs out ho
    rfl

/-! ## Publishing -/

theorem applyLimits_discarded (content : Content) :
    discardedOf (self.applyLimits content).2.2 = self.discards content ∧
      (self.applyLimits content).1.dropCount = self.dropCount + (self.discards content).length := by
  unfold applyLimits discards
  simp only
  split
  · exact ⟨rfl, rfl⟩
  split
  · next h =>
    cases hl : self.contentList with
    | nil =>
      rw [hl, length_nil] at h
      omega
    | cons oldest contents => exact ⟨rfl, rfl⟩
  split
  · exact ⟨rfl, rfl⟩
  split
  · exact ⟨rfl, rfl⟩
  · exact ⟨rfl, rfl⟩

theorem applyLimits_hasRoom {self : BasicQueue} (hw : self.Within) {content : Content}
    (h : (self.applyLimits content).2.1 ≠ none) : (self.applyLimits content).1.HasRoom := by
  obtain ⟨hd, ht⟩ := hw
  unfold applyLimits at h ⊢
  simp only at h ⊢
  split at h
  · exact absurd rfl h
  · next hdrop =>
    rw [if_neg hdrop]
    split
    · next htrim =>
      show (self.dropLimit ≠ 0 → self.contentList.tail.length < self.dropLimit) ∧
        (self.trimLimit ≠ 0 → self.contentList.tail.length < self.trimLimit)
      rw [length_tail]
      exact ⟨fun hne => by omega, fun hne => by omega⟩
    · next htrim =>
      have hroom : self.HasRoom := ⟨fun hne => by omega, fun hne => by omega⟩
      split
      · exact hroom
      split
      · exact hroom
      · exact hroom

theorem applyLimits_length (content : Content) :
    (self.applyLimits content).1.contentList.length ≤ self.contentList.length := by
  rcases self.applyLimits_cases content with ⟨hl, -⟩ | ⟨oldest, hl, -⟩ | ⟨hl, -⟩
  · exact Nat.le_of_eq (congrArg length hl)
  · rw [hl, length_cons]
    omega
  · exact Nat.le_of_eq (congrArg length hl)

variable (channel : Option ChannelRef)

theorem accept_dropCount (immediate : Bool)
    (content : Option Content) :
    (self.accept store channel immediate content).1.dropCount = self.dropCount ∧
      discardedOf (self.accept store channel immediate content).2 = [] := by
  cases content with
  | none => exact ⟨rfl, rfl⟩
  | some content =>
    rcases self.accept_some_cases store channel immediate content with h | h <;> rw [h] <;>
      exact ⟨rfl, rfl⟩

theorem accept_within {self : BasicQueue} (hw : self.Within) (store : Store)
    (channel : Option ChannelRef) (immediate : Bool) {content : Option Content}
    (hroom : content ≠ none → self.HasRoom) :
    (self.accept store channel immediate content).1.Within := by
  cases content with
  | none => exact hw
  | some content =>
    obtain ⟨hd, ht⟩ := hroom (Option.some_ne_none content)
    rcases self.accept_some_cases store channel immediate content with h | h <;> rw [h]
    · exact hw
    · unfold Within
      simp only [length_append, length_singleton]
      exact ⟨fun hne => hd hne, fun hne => ht hne⟩

theorem receive_discarded (content : Content)
    (immediate : Bool) :
    discardedOf (self.receive store channel content immediate).2 = self.discards content := by
  show discardedOf (_ ++ _) = _
  rw [discardedOf_append, (accept_dropCount _ store channel immediate _).2, append_nil]
  exact ((self.counted content).applyLimits_discarded content).1

theorem receive_bounded (content : Content)
    (immediate : Bool) :
    Bounded self (self.receive store channel content immediate).2
      (self.receive store channel content immediate).1 where
  dropLimit := (self.receive_same store channel content immediate).dropLimit
  trimLimit := (self.receive_same store channel content immediate).trimLimit
  dropCount := by
    rw [receive_discarded]
    exact (accept_dropCount _ store channel immediate _).1.trans
      ((self.counted content).applyLimits_discarded content).2
  within := by
    intro hw
    have hcounted : (self.counted content).Within := hw
    have hsame := (self.counted content).applyLimits_same content
    have hlimited : ((self.counted content).applyLimits content).1.Within :=
      hcounted.congr hsame.dropLimit hsame.trimLimit
        ((self.counted content).applyLimits_length content)
    exact accept_within hlimited store channel immediate fun hne =>
      applyLimits_hasRoom hcounted hne

theorem turn_bounded (config : Config) (self : BasicQueue) (store : Store)
    (after : Option ConsumerRef) :
    Bounded self (self.turn config store after).2.2 (self.turn config store after).1 := by
  rcases self.turn_cases config store after with
    ht | ⟨content, contents, -, ⟨ref, -, ht⟩ | ht⟩ <;> rw [ht]
  · exact self.finish_bounded store after
  · have hdeliver : NotLonger self (self.pop.deliver config store content ref).1 :=
      ⟨rfl, rfl, rfl, self.pop_notLonger.length⟩
    exact hdeliver.bounded fun out ho => by
      obtain rfl := mem_singleton.mp ho
      rfl
  · exact self.pop_notLonger.bounded fun out ho => by
      obtain rfl := mem_singleton.mp ho
      rfl

end BasicQueue

/-! ## Steps and runs -/

namespace QueueSystem

open BasicQueue

/-- A consumer that holds a content is cancelled only where there is room for the content. -/
def CancelsWithRoom (s : QueueSystem) : QueueEvent → Prop
  | .cancel ref => (s.store.consumers ref).pendingContent = none ∨ s.queue.HasRoom
  | _ => True

instance (s : QueueSystem) : (event : QueueEvent) → Decidable (s.CancelsWithRoom event)
  | .cancel ref => inferInstanceAs
      (Decidable ((s.store.consumers ref).pendingContent = none ∨ s.queue.HasRoom))
  | .publish _ _ _ | .dispatch | .turn | .consume _ _ | .consumerAck _ | .get _ | .purge
  | .setChannel _ _ | .setPaused _ _ => isTrue trivial

/-- A step keeps within the limits, if what is cancelled has room. -/
theorem bounded_step {config : Config} {s s' : QueueSystem} {event : QueueEvent}
    (hok : s.CancelsWithRoom event) (hs : s.step config event = some (s', outputs)) :
    Bounded s.queue outputs s'.queue := by
  cases move_of_step hs with
  | setChannel ref channel | setPaused ref paused => exact ⟨rfl, rfl, rfl, id⟩
  | turn hst => exact s.queue.turn_bounded config s.store _
  | publish channel content immediate hidle =>
    exact (s.queue.receive_bounded s.store channel content immediate).trans
      (dispatch_bounded _ s.store none)
  | dispatch hidle => exact s.queue.dispatch_bounded s.store none
  | consume consumer hidle hnew => exact ⟨rfl, rfl, rfl, id⟩
  | cancelFree hidle hp => exact s.queue.finish_bounded s.store _
  | @cancelHolder ref content hidle hp =>
    have hroom : s.queue.HasRoom := hok.resolve_left (by simp [hp])
    have hpush : Bounded s.queue [] (s.queue.push content) := ⟨rfl, rfl, rfl, fun _ => hroom⟩
    exact hpush.trans ((s.queue.push content).dispatch_bounded s.store (some ref))
  | ackFree hidle hp => exact ⟨rfl, rfl, rfl, id⟩
  | @ackHolder ref content hidle hp =>
    have hack : Bounded s.queue [.acked ref content] s.queue := ⟨rfl, rfl, rfl, id⟩
    exact hack.trans (s.queue.dispatch_bounded _ none)
  | get channel hidle =>
    refine s.queue.pop_notLonger.bounded fun out ho => ?_
    rcases get_outputs out ho with rfl | ⟨content, messageCount, rfl⟩ <;> rfl
  | purge hidle =>
    have hpurge : NotLonger s.queue s.queue.purge.1 := ⟨rfl, rfl, rfl, Nat.zero_le _⟩
    refine hpurge.bounded fun out ho => ?_
    obtain ⟨content, -, rfl⟩ := mem_map.mp ho
    rfl

theorem publish_discarded (s : QueueSystem) (channel : Option ChannelRef) (content : Content)
    (immediate : Bool) :
    discardedOf (s.queue.publish s.store channel content immediate).2.2 =
      s.queue.discards content := by
  show discardedOf (_ ++ _) = _
  rw [discardedOf_append, receive_discarded, discardedOf_eq_nil, append_nil]
  intro out ho
  obtain ⟨ref, rfl⟩ := dispatch_outputs out ho
  rfl

/--
The list is never longer than the limits, `drop_count` counts what they have discarded, and
the next publish discards one content if a limit is reached and none otherwise.
-/
theorem contentList_length_le (config : Config) {s s' : QueueSystem} {log : List Output}
    {events : List QueueEvent} (hfresh : s.Fresh)
    (hok : s.Throughout config CancelsWithRoom events)
    (hrun : s.outcome config events = some (s', log)) :
    (s.queue.dropLimit ≠ 0 → s'.queue.contentList.length ≤ s.queue.dropLimit) ∧
      (s.queue.trimLimit ≠ 0 → s'.queue.contentList.length ≤ s.queue.trimLimit) ∧
      s'.queue.dropCount = (discardedOf log).length ∧
      ∀ channel content immediate,
        (discardedOf (s'.queue.publish s'.store channel content immediate).2.2).length =
          if s'.queue.HasRoom then 0 else 1 := by
  have hI : Bounded s.queue log s'.queue := by
    let I (t : QueueSystem × List Output) : Prop := Bounded s.queue t.2 t.1.queue
    have hstep : ∀ t event t', I t → t.1.CancelsWithRoom event →
        Lib.logged (QueueSystem.step config) t event = some t' → I t' := by
      intro t event t' hI hok' hlogged
      obtain ⟨outputs, hs, hlog⟩ := Lib.logged_eq_some hlogged
      show Bounded s.queue t'.2 t'.1.queue
      rw [hlog]
      exact hI.trans (bounded_step hok' hs)
    exact Lib.run_invariant (I := I) hstep ⟨rfl, rfl, rfl, id⟩ hok hrun
  have hstart : s.queue.Within := by
    unfold Within
    rw [hfresh.contentList]
    exact ⟨fun _ => Nat.zero_le _, fun _ => Nat.zero_le _⟩
  obtain ⟨hd, ht⟩ := hI.within hstart
  rw [hI.dropLimit] at hd
  rw [hI.trimLimit] at ht
  refine ⟨hd, ht, ?_, fun channel content immediate => ?_⟩
  · rw [hI.dropCount, hfresh.dropCount, Nat.zero_add]
  · rw [publish_discarded]
    split
    · next hroom => rw [discards_of_hasRoom hroom, length_nil]
    · next hfull => exact discards_of_full hfull content

/-- An empty queue with limits, whose consumers are on a channel with a credit of 1. -/
def limited (dropLimit trimLimit : Nat) : QueueSystem where
  queue := { dropLimit, trimLimit }
  store := ⟨fun _ => { channel := 0 }, fun _ => { connection := some 7, credit := 1 }⟩

/-- A consumer holds a content while three more are published. -/
def threeMore : List QueueEvent :=
  [.consume 0 { channel := 0 }, .publish none ⟨1, 9, 64⟩ false, .turn, .turn,
    .publish none ⟨2, 9, 64⟩ false, .publish none ⟨3, 9, 64⟩ false,
    .publish none ⟨4, 9, 64⟩ false]

theorem contentList_length_le_threeMore :
    ∃ s log, (limited 0 2).outcome {} (threeMore ++ [.get (some 0), .cancel 0]) = some (s, log) ∧
      s.queue.contentList.length ≤ 2 ∧ s.queue.dropCount = (discardedOf log).length := by
  have hok : (limited 0 2).Throughout {} CancelsWithRoom
      (threeMore ++ [.get (some 0), .cancel 0]) := by decide +kernel
  have hsome : ((limited 0 2).outcome {}
      (threeMore ++ [.get (some 0), .cancel 0])).isSome = true := by decide +kernel
  obtain ⟨⟨s, log⟩, hrun⟩ := Option.isSome_iff_exists.mp hsome
  have hle := contentList_length_le {} ⟨rfl, rfl, rfl, rfl, fun _ => rfl⟩ hok hrun
  exact ⟨s, log, hrun, hle.2.1 (by decide), hle.2.2.1⟩

/-- The content of a cancelled consumer goes back to a queue that is full. -/
theorem cancel_exceeds_limit : ((limited 2 0).outcome {} (threeMore ++ [.cancel 0])).map (fun r =>
      (r.1.queue.dropLimit, r.1.queue.contentList)) =
        some (2, [⟨1, 9, 64⟩, ⟨2, 9, 64⟩, ⟨3, 9, 64⟩]) := by
  decide +kernel

end QueueSystem

end OpenAmq
