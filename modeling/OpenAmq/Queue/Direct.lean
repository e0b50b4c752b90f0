import OpenAmq.Content.Model
import OpenAmq.Queue.Limits

/-!
# Direct delivery

An exchange gives the contents for a queue with a feed to the agent of the lease and not to the
queue. The limits of the queue are then tested against the contents that this agent has still to
write.

* `DirectFeed` — the queue, its lease, and the agent that has acquired the lease
* `Tallied`, `tallied_step` — what is counted, over the calls and the agent in any order
* `direct_mirrors_queue` — the limits next to those of `amq_queue_basic_publish`
-/

namespace OpenAmq

open List

/-- A line in the alert log -/
inductive DirectAlert where
  /-- `no action` -/
  | warning (queueSize : Int)
  /-- `dropping messages` -/
  | dropping (queueSize : Int)
deriving DecidableEq

/-- What the agent of a connection knows about buckets and contents -/
structure DirectConfig where
  /-- the configured size, 0 for none -/
  batching : Nat := 0
  /-- the room in a new bucket of a size -/
  bucketSize : Nat → Nat := id
  /-- `amq_content_basic_wire_size` -/
  wireSize : Content → Nat := Content.bodySize

/-- A queue with a feed that is on, and the agent that has acquired the lease -/
structure DirectFeed where
  queue : BasicQueue
  /-- `lease->pending` -/
  pending : Int := 0
  /-- the calls of `s_direct_deliver` that are behind the increment, with what it has returned -/
  calls : List (Content × Int) := []
  /-- the thread of the lease is not a zombie -/
  running : Bool := true
  /-- the `direct out` methods of the thread -/
  replies : List Content := []
  /-- the room in the bucket while more contents are put into it -/
  batch : Option Nat := none
  written : List Content := []
  alertLog : List DirectAlert := []
  directHigh : Int := 0
  directFed : Nat := 0
  directOut : Nat := 0
deriving DecidableEq

namespace BasicQueue

/-- The tests of `s_direct_deliver`: trim is processed like drop, and kill is ignored. -/
def refuses (self : BasicQueue) (queueSize : Int) : Bool :=
  decide (self.dropLimit ≠ 0 ∧ self.dropLimit ≤ queueSize ∨
    self.trimLimit ≠ 0 ∧ self.trimLimit ≤ queueSize)

/-- The warning limit is reached, and this has not been logged. -/
def warns (self : BasicQueue) (queueSize : Int) : Bool :=
  decide (self.warnLimit ≠ 0 ∧ self.warnLimit ≤ queueSize) && !self.warned

end BasicQueue

namespace DirectFeed

/-! ## Delivery -/

/-- `s_direct_deliver` up to the increment of `pending`, which returns the old value -/
def enter (self : DirectFeed) (content : Content) : DirectFeed :=
  { self with
    queue := { self.queue with
      contentsIn := self.queue.contentsIn + 1
      trafficIn := self.queue.trafficIn + content.bodySize }
    pending := self.pending + 1
    calls := self.calls ++ [(content, self.pending)]
    directHigh := max self.directHigh self.pending }

def warn (self : DirectFeed) (queueSize : Int) : DirectFeed :=
  if self.queue.warns queueSize then
    { self with
      queue := { self.queue with warned := true }
      alertLog := self.alertLog ++ [.warning queueSize] }
  else self

/-- `drop_limit` or `trim_limit` is reached. -/
def drop (self : DirectFeed) (queueSize : Int) : DirectFeed :=
  { self with
    queue := { self.queue with dropped := true, dropCount := self.queue.dropCount + 1 }
    pending := self.pending - 1
    alertLog := if self.queue.dropped then self.alertLog
      else self.alertLog ++ [.dropping queueSize] }

/-- The content goes to the agent. A method is not sent to a thread that is a zombie, and nobody
looks at what this returns. -/
def send (self : DirectFeed) (content : Content) : DirectFeed :=
  { self with
    queue := { self.queue with
      contentsOut := self.queue.contentsOut + 1
      trafficOut := self.queue.trafficOut + content.bodySize }
    replies := if self.running then self.replies ++ [content] else self.replies
    directFed := self.directFed + 1 }

/-- What a call does after the increment -/
def decided (self : DirectFeed) (content : Content) (queueSize : Int) : DirectFeed :=
  if self.queue.refuses queueSize then (self.warn queueSize).drop queueSize
  else (self.warn queueSize).send content

/-- One of the calls goes on to its end. -/
def finish (self : DirectFeed) (i : Nat) : Option DirectFeed :=
  self.calls[i]?.map fun call => { self with calls := self.calls.eraseIdx i }.decided call.1 call.2

/-- `s_direct_deliver`, with no other call at the same time -/
def deliver (self : DirectFeed) (content : Content) : DirectFeed :=
  { self.enter content with calls := self.calls }.decided content self.pending

/-! ## The agent -/

def count (self : DirectFeed) (content : Content) (replies : List Content) : DirectFeed :=
  { self with
    replies, written := self.written ++ [content]
    pending := self.pending - 1
    directOut := self.directOut + 1 }

/-- `write direct content` up to its loop -/
def take (config : DirectConfig) (self : DirectFeed) : Option DirectFeed :=
  match self.batch, self.replies with
  | none, content :: replies =>
    let size := config.wireSize content
    let room := config.bucketSize config.batching
    if config.batching ≠ 0 ∧ size ≤ room then
      some { self.count content replies with batch := some (room - size) }
    else
      -- a bucket for this content alone, and the assertion that there is one
      if size ≤ iprBucketMaxSize then some (self.count content replies) else none
  | _, _ => none

/-- One more content in the same bucket -/
def bundle (config : DirectConfig) (self : DirectFeed) : Option DirectFeed :=
  match self.batch, self.replies with
  | some room, content :: replies =>
    if config.wireSize content ≤ room then
      some { self.count content replies with batch := some (room - config.wireSize content) }
    else none
  | _, _ => none

/-! ## Runs -/

/-- What happens to a feed -/
inductive Event where
  | enter (content : Content)
  | finish (i : Nat)
  | take
  | bundle
  /-- the bucket is written: nothing fits, or the next method is not of this kind -/
  | flush
  /-- the thread ends, and its methods are destroyed -/
  | close
deriving DecidableEq

def step (config : DirectConfig) (self : DirectFeed) : Event → Option DirectFeed
  | .enter content => some (self.enter content)
  | .finish i => self.finish i
  | .take => self.take config
  | .bundle => self.bundle config
  | .flush => if self.batch.isSome then some { self with batch := none } else none
  | .close =>
    if self.running then some { self with running := false, replies := [], batch := none } else none

/-! ## What is counted -/

/-- The counts of the queue and the lease, since the queue was `start` -/
structure Tallied (start : BasicQueue) (feed : DirectFeed) : Prop where
  warnLimit : feed.queue.warnLimit = start.warnLimit
  dropLimit : feed.queue.dropLimit = start.dropLimit
  trimLimit : feed.queue.trimLimit = start.trimLimit
  contents : feed.queue.contentsIn + start.contentsOut + start.dropCount =
    start.contentsIn + feed.queue.contentsOut + feed.queue.dropCount + feed.calls.length
  atLeast : (feed.calls.length + feed.replies.length : Int) ≤ feed.pending
  pending : feed.running = true → feed.pending = feed.calls.length + feed.replies.length
  contentsOut : feed.running = true →
    feed.queue.contentsOut = start.contentsOut + feed.written.length + feed.replies.length

variable {start : BasicQueue} {self next : DirectFeed} {content : Content} {queueSize : Int}

theorem tallied_start (queue : BasicQueue) : Tallied queue { queue } where
  warnLimit := rfl
  dropLimit := rfl
  trimLimit := rfl
  contents := by simp
  atLeast := Int.le_refl _
  pending := fun _ => rfl
  contentsOut := fun _ => rfl

theorem warn_cases (self : DirectFeed) (queueSize : Int) :
    self.warn queueSize = self ∨ self.warn queueSize = { self with
        queue := { self.queue with warned := true }
        alertLog := self.alertLog ++ [.warning queueSize] } := by
  unfold warn
  split
  · exact .inr rfl
  · exact .inl rfl

/-- A content that has been counted and is neither dropped nor sent yet -/
structure Entered (start : BasicQueue) (feed : DirectFeed) : Prop where
  warnLimit : feed.queue.warnLimit = start.warnLimit
  dropLimit : feed.queue.dropLimit = start.dropLimit
  trimLimit : feed.queue.trimLimit = start.trimLimit
  contents : feed.queue.contentsIn + start.contentsOut + start.dropCount =
    start.contentsIn + feed.queue.contentsOut + feed.queue.dropCount + feed.calls.length + 1
  atLeast : (feed.calls.length + feed.replies.length + 1 : Int) ≤ feed.pending
  pending : feed.running = true → feed.pending = feed.calls.length + feed.replies.length + 1
  contentsOut : feed.running = true →
    feed.queue.contentsOut = start.contentsOut + feed.written.length + feed.replies.length

theorem Entered.warn (h : Entered start self) (queueSize : Int) :
    Entered start (self.warn queueSize) := by
  rcases self.warn_cases queueSize with hw | hw <;> rw [hw]
  · exact h
  · exact ⟨h.warnLimit, h.dropLimit, h.trimLimit, h.contents, h.atLeast, h.pending, h.contentsOut⟩

theorem Entered.drop (h : Entered start self) (queueSize : Int) :
    Tallied start (self.drop queueSize) where
  warnLimit := h.warnLimit
  dropLimit := h.dropLimit
  trimLimit := h.trimLimit
  contents := by
    have := h.contents
    simp only [DirectFeed.drop]
    omega
  atLeast := by
    have := h.atLeast
    simp only [DirectFeed.drop]
    omega
  pending := by
    intro hrunning
    have := h.pending hrunning
    simp only [DirectFeed.drop]
    omega
  contentsOut := h.contentsOut

theorem Entered.send (h : Entered start self) (content : Content) :
    Tallied start (self.send content) where
  warnLimit := h.warnLimit
  dropLimit := h.dropLimit
  trimLimit := h.trimLimit
  contents := by
    have := h.contents
    simp only [DirectFeed.send]
    omega
  atLeast := by
    have := h.atLeast
    simp only [DirectFeed.send]
    split
    · rw [length_append, length_singleton]
      omega
    · omega
  pending := by
    intro hrunning
    have hrunning : self.running = true := hrunning
    have := h.pending hrunning
    simp only [DirectFeed.send, hrunning, if_true, length_append, length_singleton]
    omega
  contentsOut := by
    intro hrunning
    have hrunning : self.running = true := hrunning
    have := h.contentsOut hrunning
    simp only [DirectFeed.send, hrunning, if_true, length_append, length_singleton]
    omega

theorem Entered.decided (h : Entered start self) (content : Content) (queueSize : Int) :
    Tallied start (self.decided content queueSize) := by
  unfold DirectFeed.decided
  split
  · exact (h.warn queueSize).drop queueSize
  · exact (h.warn queueSize).send content

theorem Tallied.enter (h : Tallied start self) (content : Content) :
    Tallied start (self.enter content) where
  warnLimit := h.warnLimit
  dropLimit := h.dropLimit
  trimLimit := h.trimLimit
  contents := by
    have := h.contents
    simp only [DirectFeed.enter, length_append, length_singleton]
    omega
  atLeast := by
    have := h.atLeast
    simp only [DirectFeed.enter, length_append, length_singleton]
    omega
  pending := by
    intro hrunning
    have := h.pending hrunning
    simp only [DirectFeed.enter, length_append, length_singleton]
    omega
  contentsOut := h.contentsOut

theorem Tallied.finish (h : Tallied start self) {i : Nat} (hs : self.finish i = some next) :
    Tallied start next := by
  obtain ⟨call, hcall, rfl⟩ := Option.map_eq_some_iff.mp hs
  obtain ⟨hi, -⟩ := List.getElem?_eq_some_iff.mp hcall
  have hlength : (self.calls.eraseIdx i).length + 1 = self.calls.length := by
    rw [List.length_eraseIdx_of_lt hi]
    omega
  refine Entered.decided ?_ call.1 call.2
  refine ⟨h.warnLimit, h.dropLimit, h.trimLimit, ?_, ?_, ?_, h.contentsOut⟩
  · have := h.contents
    show self.queue.contentsIn + start.contentsOut + start.dropCount = start.contentsIn +
      self.queue.contentsOut + self.queue.dropCount + (self.calls.eraseIdx i).length + 1
    omega
  · have := h.atLeast
    show ((self.calls.eraseIdx i).length + self.replies.length + 1 : Int) ≤ self.pending
    omega
  · intro hrunning
    have := h.pending hrunning
    show self.pending = (self.calls.eraseIdx i).length + self.replies.length + 1
    omega

theorem Tallied.count (h : Tallied start self) {replies : List Content}
    (hreplies : self.replies = content :: replies) (batch : Option Nat) :
    Tallied start { self.count content replies with batch } where
  warnLimit := h.warnLimit
  dropLimit := h.dropLimit
  trimLimit := h.trimLimit
  contents := h.contents
  atLeast := by
    have := h.atLeast
    rw [hreplies, length_cons] at this
    simp only [DirectFeed.count]
    omega
  pending := by
    intro hrunning
    have := h.pending hrunning
    rw [hreplies, length_cons] at this
    simp only [DirectFeed.count]
    omega
  contentsOut := by
    intro hrunning
    have := h.contentsOut hrunning
    rw [hreplies, length_cons] at this
    simp only [DirectFeed.count, length_append, length_singleton]
    omega

theorem Tallied.take {config : DirectConfig} (h : Tallied start self)
    (hs : self.take config = some next) : Tallied start next := by
  unfold DirectFeed.take at hs
  split at hs
  · next content replies hbatch hreplies =>
    simp only at hs
    split at hs
    · cases hs
      exact h.count hreplies _
    split at hs
    · cases hs
      exact h.count hreplies self.batch
    · cases hs
  · cases hs

theorem Tallied.bundle {config : DirectConfig} (h : Tallied start self)
    (hs : self.bundle config = some next) : Tallied start next := by
  unfold DirectFeed.bundle at hs
  split at hs
  · next room content replies hbatch hreplies =>
    split at hs
    · cases hs
      exact h.count hreplies _
    · cases hs
  · cases hs

theorem Tallied.close (h : Tallied start self) :
    Tallied start { self with running := false, replies := [], batch := none } where
  warnLimit := h.warnLimit
  dropLimit := h.dropLimit
  trimLimit := h.trimLimit
  contents := h.contents
  atLeast := by
    have := h.atLeast
    simp only [length_nil]
    omega
  pending := by
    intro hrunning
    cases hrunning
  contentsOut := by
    intro hrunning
    cases hrunning

/-- A step keeps the counts of the queue and of the lease in step. -/
theorem tallied_step (config : DirectConfig) {event : Event} (h : Tallied start self)
    (hs : self.step config event = some next) : Tallied start next := by
  cases event with
  | enter content => exact Option.some.inj hs ▸ h.enter content
  | finish i => exact h.finish hs
  | take => exact h.take hs
  | bundle => exact h.bundle hs
  | flush =>
    obtain ⟨-, hs⟩ := Option.ite_none_right_eq_some.mp hs
    cases hs
    exact ⟨h.warnLimit, h.dropLimit, h.trimLimit, h.contents, h.atLeast, h.pending, h.contentsOut⟩
  | close =>
    obtain ⟨-, hs⟩ := Option.ite_none_right_eq_some.mp hs
    exact Option.some.inj hs ▸ h.close

/-- The counts after a run, since the queue at its start -/
theorem tallied_run (config : DirectConfig) {queue : BasicQueue} {events : List Event}
    (hrun : Lib.run (step config) { queue } events = some self) : Tallied queue self := by
  refine Lib.run_invariant (I := Tallied queue) ?_ (tallied_start queue)
    (show Lib.Along (step config) (fun _ _ => True) _ events from
      Lib.along_of_forall (fun _ _ _ => trivial) _) hrun
  intro s event s' h _ hs
  exact tallied_step config h hs

/-! ## The limits -/

/-- A queue with the same limits that holds as many contents as are pending -/
structure Holds (q : BasicQueue) (feed : DirectFeed) : Prop where
  warnLimit : q.warnLimit = feed.queue.warnLimit
  dropLimit : q.dropLimit = feed.queue.dropLimit
  trimLimit : q.trimLimit = feed.queue.trimLimit
  length : (q.contentList.length : Int) = feed.pending

theorem Holds.refuses_iff {q : BasicQueue} (h : Holds q self) :
    self.queue.refuses self.pending = true ↔ ¬q.HasRoom := by
  unfold BasicQueue.refuses BasicQueue.HasRoom
  rw [decide_eq_true_iff, ← h.dropLimit, ← h.trimLimit, ← h.length]
  omega

theorem deliver_replies (content : Content) (hrunning : self.running = true) :
    (self.deliver content).replies =
      if self.queue.refuses self.pending then self.replies else self.replies ++ [content] := by
  show ({ self.enter content with calls := self.calls }.decided content self.pending).replies = _
  unfold decided
  have hrefuses : ({ self.enter content with calls := self.calls } : DirectFeed).queue.refuses
      self.pending = self.queue.refuses self.pending := rfl
  rw [hrefuses]
  rcases warn_cases { self.enter content with calls := self.calls } self.pending with hw | hw <;>
    rw [hw] <;> split
  · rfl
  · exact if_pos hrunning
  · rfl
  · exact if_pos hrunning

theorem deliver_warned :
    (self.deliver content).queue.warned = (self.queue.warned || self.queue.warns self.pending) := by
  have hwarn : ({ self.enter content with calls := self.calls } : DirectFeed).queue.warns
      self.pending = self.queue.warns self.pending := rfl
  have hwarned : ∀ feed : DirectFeed, (feed.decided content self.pending).queue.warned =
      (feed.warn self.pending).queue.warned := by
    intro feed
    unfold decided
    split
    · rfl
    · rfl
  rw [deliver, hwarned, warn, hwarn]
  split
  · next h => simp [h]
  · next h =>
    rw [Bool.eq_false_iff.mpr h, Bool.or_false]
    rfl

end DirectFeed

namespace BasicQueue

variable (self : BasicQueue) (store : Store) (channel : Option ChannelRef) (content : Content)

theorem applyLimits_content : (self.applyLimits content).2.1 =
      if self.dropLimit ≠ 0 ∧ self.dropLimit ≤ self.contentList.length then none
      else some content := by
  unfold applyLimits
  simp only
  split
  · rfl
  split
  · rfl
  split
  · rfl
  split
  · rfl
  · rfl

theorem accepted_mem_publish_iff :
    .accepted content ∈ (self.publish store channel content false).2.2 ↔
      ¬(self.dropLimit ≠ 0 ∧ self.dropLimit ≤ self.contentList.length) := by
  have hlimits : Output.accepted content ∉ ((self.counted content).applyLimits content).2.2 := by
    rcases (self.counted content).applyLimits_cases content with
      ⟨-, -, h⟩ | ⟨oldest, -, -, h⟩ | ⟨-, -, h | h⟩ <;> simp [h]
  have hdispatch : ∀ q : BasicQueue, Output.accepted content ∉ (q.dispatch store none).2.2 := by
    intro q hmem
    obtain ⟨ref, href⟩ := dispatch_outputs _ hmem
    cases href
  show Output.accepted content ∈ (_ ++ _) ++ _ ↔ _
  rw [mem_append, mem_append, or_iff_left (hdispatch _)]
  refine (or_iff_right hlimits).trans ?_
  show Output.accepted content ∈ (accept _ store channel false
    ((self.counted content).applyLimits content).2.1).2 ↔ _
  rw [applyLimits_content]
  show Output.accepted content ∈ (accept _ store channel false (if self.dropLimit ≠ 0 ∧
    self.dropLimit ≤ self.contentList.length then none else some content)).2 ↔ _
  split
  · next h => exact iff_of_false (by simp [accept]) (not_not_intro h)
  · next h => exact iff_of_true (by simp [accept]) h

theorem applyLimits_warned (h : self.warned = false) : (self.applyLimits content).1.warned =
      decide (self.warnLimit ≠ 0 ∧ self.warnLimit ≤ self.contentList.length) := by
  unfold applyLimits
  simp only [h, Bool.false_or]
  split
  · rfl
  split
  · rfl
  split
  · rfl
  split
  · next hempty =>
    -- the flags are reset, but nothing was at a limit
    refine (decide_eq_false ?_).symm
    omega
  · rfl

theorem publish_warned (immediate : Bool) (h : self.warned = false) :
    (self.publish store channel content immediate).1.warned =
      decide (self.warnLimit ≠ 0 ∧ self.warnLimit ≤ self.contentList.length) := by
  have hdispatch : ∀ q : BasicQueue, (q.dispatch store none).1.warned = q.warned := by
    intro q
    rcases q.dispatch_cases store none with hd | hd
    · rw [hd]
    · rw [hd]
      rfl
  have haccept : ∀ (q : BasicQueue) (left : Option Content),
      (q.accept store channel immediate left).1.warned = q.warned := by
    intro q left
    cases left with
    | none => rfl
    | some left =>
      rcases q.accept_some_cases store channel immediate left with ha | ha <;> rw [ha]
  refine (hdispatch _).trans ((haccept _ _).trans ?_)
  exact (self.counted content).applyLimits_warned content h

end BasicQueue

/-! ## Both paths -/

namespace DirectFeed

/--
A feed that is used in any way counts what it does, and `pending` is the number of calls and
contents that are under way as long as the agent runs. Direct delivery keeps to the limits in its
own way: at a `trim_limit` it drops the new content where the queue would discard the oldest one.
-/
theorem direct_mirrors_queue (config : DirectConfig) {queue : BasicQueue} {events : List Event}
    {feed : DirectFeed} (hrun : Lib.run (step config) { queue } events = some feed) :
    0 ≤ feed.pending ∧
    (feed.running = true → feed.pending = feed.calls.length + feed.replies.length ∧
        feed.queue.contentsOut = queue.contentsOut + feed.written.length + feed.replies.length) ∧
    feed.queue.contentsIn + queue.contentsOut + queue.dropCount = queue.contentsIn +
      feed.queue.contentsOut + feed.queue.dropCount + feed.calls.length ∧
    ∀ (content : Content) (q : BasicQueue) (store : Store) (channel : Option ChannelRef),
      Holds q feed → feed.running = true →
        ((feed.deliver content).replies = feed.replies ++ [content] ↔
          .accepted content ∈ (q.publish store channel content false).2.2 ∧
            ¬(q.trimLimit ≠ 0 ∧ q.trimLimit ≤ q.contentList.length)) ∧
        ((feed.deliver content).replies = feed.replies ↔
          discardedOf (q.publish store channel content false).2.2 ≠ []) ∧
        (q.warned = false → feed.queue.warned = false → (feed.deliver content).queue.warned =
            (q.publish store channel content false).1.warned) := by
  have hcounts := tallied_run config hrun
  refine ⟨?_, ?_, hcounts.contents, ?_⟩
  · have := hcounts.atLeast
    omega
  · intro hrunning
    exact ⟨hcounts.pending hrunning, hcounts.contentsOut hrunning⟩
  intro content q store channel hq hrunning
  have hreplies := deliver_replies content hrunning
  have hrefuses := hq.refuses_iff
  refine ⟨?_, ?_, fun hwarned hwarned' => ?_⟩
  · rw [q.accepted_mem_publish_iff, hreplies]
    split
    · next h =>
      have hfull := hrefuses.mp h
      unfold BasicQueue.HasRoom at hfull
      refine iff_of_false (by simp) ?_
      omega
    · next h =>
      have hroom := not_not.mp (mt hrefuses.mpr h)
      unfold BasicQueue.HasRoom at hroom
      refine iff_of_true rfl ?_
      omega
  · rw [QueueSystem.publish_discarded ⟨q, store⟩, hreplies]
    have hcount : q.discards content ≠ [] ↔ ¬q.HasRoom := by
      constructor
      · intro hne hroom
        exact hne (BasicQueue.discards_of_hasRoom hroom content)
      · intro hfull hnil
        have hone := BasicQueue.discards_of_full hfull content
        rw [hnil] at hone
        cases hone
    rw [hcount, ← hrefuses]
    split
    · next h => exact iff_of_true rfl h
    · next h => exact iff_of_false (by simp) h
  · rw [q.publish_warned store channel content false hwarned, deliver_warned, hwarned',
      Bool.false_or, BasicQueue.warns, hwarned', Bool.not_false, Bool.and_true, ← hq.warnLimit,
      ← hq.length]
    simp

/-- Two contents for the agent of a queue with these limits -/
def twoContents (dropLimit trimLimit : Nat) : DirectFeed where
  queue := {
    exclusive := true, dropLimit, trimLimit, contentsIn := 2, contentsOut := 2, trafficIn := 128,
    trafficOut := 128 }
  pending := 2
  replies := [⟨2, 9, 64⟩, ⟨1, 9, 64⟩]
  directHigh := 1
  directFed := 2

/-- The queue that holds them -/
def twoHeld (dropLimit trimLimit : Nat) : BasicQueue where
  dropLimit := dropLimit
  trimLimit := trimLimit
  contentList := [⟨1, 9, 64⟩, ⟨2, 9, 64⟩]

theorem direct_mirrors_queue_sample :
    ((twoContents 3 0).deliver ⟨3, 9, 64⟩).replies = [⟨2, 9, 64⟩, ⟨1, 9, 64⟩, ⟨3, 9, 64⟩] := by
  have hrun : Lib.run (step {}) { queue := { exclusive := true, dropLimit := 3 } }
      [.enter ⟨1, 9, 64⟩, .enter ⟨2, 9, 64⟩, .finish 1, .finish 0] = some (twoContents 3 0) := rfl
  have hlimits := (direct_mirrors_queue {} hrun).2.2.2 ⟨3, 9, 64⟩ (twoHeld 3 0)
    ⟨fun _ => { channel := 0 }, fun _ => { connection := some 7, credit := 1 }⟩ none
    ⟨rfl, rfl, rfl, rfl⟩ rfl
  refine hlimits.1.mpr ⟨?_, by decide⟩
  rw [BasicQueue.accepted_mem_publish_iff]
  decide

/-- At a `trim_limit` the queue has the new content and not the oldest one. The agent of a feed
gets no new content. -/
theorem trim_drops_content : Lib.run (step {}) { queue := { exclusive := true, trimLimit := 2 } }
        [.enter ⟨1, 9, 64⟩, .enter ⟨2, 9, 64⟩, .finish 1, .finish 0] = some (twoContents 0 2) ∧
      ((twoHeld 0 2).contentList.length : Int) = (twoContents 0 2).pending ∧
      ((twoHeld 0 2).publish ⟨fun _ => { channel := 0 }, fun _ =>
        { connection := some 7, credit := 1 }⟩ none
        ⟨3, 9, 64⟩ false).2.2 =
        [.trimmed ⟨1, 9, 64⟩, .accepted ⟨3, 9, 64⟩] ∧
      ((twoContents 0 2).deliver ⟨3, 9, 64⟩).replies = (twoContents 0 2).replies :=
  ⟨rfl, rfl, by decide, rfl⟩

end DirectFeed

end OpenAmq
