import OpenAmq.Broker.Coherent

/-!
# No consumer waits in vain

Where a consumer is eligible for the first content of a queue, the queue is dispatching, or has
been asked to. A queue that ends a dispatch leaves no eligible consumer behind. So consumers
become eligible through their channels only: when a channel gets its first credit, or is made
active. All queues that have a consumer to wake up then have to be asked to dispatch.

* `Store.eligible`, `BasicQueue.Served` — eligible consumers, and queues without one
* `raises` — a channel that gets its first credit, and the queues that are dispatched then
* `eligible_of_step`, `served_step` — one step
* `no_lost_wakeup` — every run
-/

namespace OpenAmq

open List QueueMessage

/-! ## Eligible consumers -/

/-- The consumer may have the content, and is free to take it. -/
def Store.eligible (store : Store) (content : Content) (ref : ConsumerRef) : Bool :=
  store.takes content.producerId ref && store.free ref

variable {ref : ConsumerRef}

theorem eligible_iff {store : Store} {content : Content} :
    store.eligible content ref = true ↔
      ∃ connection, (store.channels (store.consumers ref).channel).connection = some connection ∧
        (store.channels (store.consumers ref).channel).active = true ∧
        1 ≤ (store.channels (store.consumers ref).channel).credit ∧
        ((store.consumers ref).noLocal = true → connection ≠ content.producerId) ∧
        (store.consumers ref).paused = false ∧
        (store.consumers ref).pendingContent = none := by
  rw [Store.eligible, Bool.and_eq_true]
  constructor
  · rintro ⟨ht, hf⟩
    obtain ⟨connection, hc, hactive, hcredit, hlocal⟩ := takes_eq_true ht
    rw [Store.free, Bool.and_eq_true, Bool.not_eq_true', Option.isNone_iff_eq_none] at hf
    exact ⟨connection, hc, hactive, hcredit, hlocal, hf⟩
  · rintro ⟨connection, hc, hactive, hcredit, hlocal, hpaused, hpending⟩
    refine ⟨?_, by rw [Store.free, hpaused, hpending]; rfl⟩
    unfold Store.takes
    simp only [hc, hactive, hcredit, decide_true, Bool.true_and, Bool.or_eq_true,
      Bool.not_eq_true', decide_eq_true_eq]
    cases hl : (store.consumers ref).noLocal with
    | false => exact Or.inl rfl
    | true => exact Or.inr (hlocal hl)

/-- The channel has become no more permissive. -/
structure Channel.Restricts (channel channel' : Channel) : Prop where
  connection : ∀ connection, channel'.connection = some connection →
    channel.connection = some connection
  active : channel'.active = true → channel.active = true
  credit : 1 ≤ channel'.credit → 1 ≤ channel.credit

theorem Channel.Restricts.refl (channel : Channel) : channel.Restricts channel :=
  ⟨fun _ h => h, fun h => h, fun h => h⟩

theorem eligible_of_restricts {store store' : Store} {content : Content}
    (h : store'.eligible content ref = true) (hc : store'.consumers ref = store.consumers ref)
    (hch : (store.channels (store.consumers ref).channel).Restricts
      (store'.channels (store.consumers ref).channel)) : store.eligible content ref = true := by
  obtain ⟨connection, h1, h2, h3, h4, h5, h6⟩ := eligible_iff.mp h
  rw [hc] at h1 h2 h3 h4 h5 h6
  exact eligible_iff.mpr
    ⟨connection, hch.connection connection h1, hch.active h2, hch.credit h3, h4, h5, h6⟩

/-! ## Queues that have ended a dispatch -/

variable {config : Config}

namespace BasicQueue

/-- No consumer of the queue is eligible for its first content. -/
def Served (self : BasicQueue) (store : Store) : Prop :=
  ∀ content ∈ self.contentList.head?, ∀ ref ∈ self.consumerList, store.eligible content ref = false

variable {self : BasicQueue} {store : Store} {after : Option ConsumerRef}

theorem Served.finish (h : self.Served store) (hn : self.consumerList.Nodup)
    (after : Option ConsumerRef) :
    (self.finish store after).1.Served (self.finish store after).2.1 := by
  cases after with
  | none => exact h
  | some cancelled =>
    intro content hc ref hm
    obtain ⟨hne, hm⟩ := hn.mem_erase_iff.mp hm
    have hsame : (store.setPending cancelled none).consumers ref = store.consumers ref := by
      simp [Store.setPending, Store.setConsumer, hne]
    refine Bool.eq_false_iff.mpr fun he => ?_
    have := eligible_of_restricts he hsame (.refl _)
    rw [h content hc ref hm] at this
    cases this

theorem dispatch_served (hn : self.consumerList.Nodup)
    (hidle : (self.dispatch store after).1.state = .idle) :
    (self.dispatch store after).1.Served (self.dispatch store after).2.1 := by
  unfold dispatch at hidle ⊢
  split at hidle
  · cases hidle
  · next hnone =>
    rw [if_neg hnone]
    -- no consumer is free
    refine Served.finish (fun content _ ref hm => ?_) hn after
    rw [haveActiveConsumers, any_eq_true] at hnone
    rw [Store.eligible, Bool.and_eq_false_iff]
    exact Or.inr (Bool.eq_false_iff.mpr fun hf => hnone ⟨ref, hm, hf⟩)

theorem turn_served (hs : self.state = .dispatching after) (hn : self.consumerList.Nodup)
    (hidle : (self.turn config store after).1.state = .idle) :
    (self.turn config store after).1.Served (self.turn config store after).2.1 := by
  unfold turn at hidle ⊢
  cases hl : self.contentList with
  | nil =>
    refine Served.finish (fun content hc => ?_) hn after
    rw [hl] at hc
    cases hc
  | cons first contents =>
    rw [hl] at hidle
    simp only at hidle ⊢
    cases hnext : getNextConsumer store first.producerId .none self.consumerList with
    | found ref | none =>
      rw [hnext] at hidle
      exact absurd (hs.symm.trans hidle) (by simp)
    | busy =>
      -- the search has gone over all consumers
      refine Served.finish (fun content hc ref hm => ?_) hn after
      rw [hl] at hc
      cases hc
      rw [Store.eligible, Bool.and_eq_false_iff]
      refine Or.inl (Bool.eq_false_iff.mpr fun ht => ?_)
      obtain ⟨found, hf⟩ := Option.isSome_iff_exists.mp (find?_isSome.mpr ⟨ref, hm, ht⟩)
      rw [getNextConsumer_eq_found.mpr hf] at hnext
      cases hnext

end BasicQueue

theorem operation_served {queue : BasicQueue} {store : Store} {message : QueueMessage}
    {r : BasicQueue × Store × List Output} (hn : queue.consumerList.Nodup)
    (h : message ≠ .dispatch → queue.Served store)
    (ho : message.operation queue store = some r) (hidle : r.1.state = .idle) :
    r.1.Served r.2.1 := by
  cases message with
  | publish channel content immediate =>
    cases ho
    refine BasicQueue.dispatch_served ?_ hidle
    rw [(queue.receive_same store channel content immediate).consumerList]
    exact hn
  | dispatch =>
    cases ho
    exact BasicQueue.dispatch_served hn hidle
  | consume consumer active nowait => cases ho
  | cancel consumer notify nowait =>
    cases ho
    cases hp : (store.consumers consumer).pendingContent with
    | none =>
      rw [BasicQueue.cancel_of_none hp]
      exact (h (by simp)).finish hn (some consumer)
    | some content =>
      rw [BasicQueue.cancel_of_some hp] at hidle ⊢
      have hback : (queue.push content).consumerList.Nodup := hn
      exact BasicQueue.dispatch_served hback hidle
  | consumerAck consumer =>
    cases ho
    cases hp : (store.consumers consumer).pendingContent with
    | none =>
      rw [BasicQueue.consumerAck_of_none hp]
      exact h (by simp)
    | some content =>
      rw [BasicQueue.consumerAck_of_some hp] at hidle ⊢
      exact BasicQueue.dispatch_served hn hidle

/-! ## Channels that wake up their consumers -/

/-- The queue is not dispatching, nor has it been asked to. -/
def ServerQueue.Quiet (self : ServerQueue) : Prop :=
  self.basic.state = .idle ∧ dispatch ∉ self.inbox

instance (self : ServerQueue) : Decidable self.Quiet := inferInstanceAs (Decidable (_ ∧ _))

/-- The channel is active, and has its first credit. -/
def Store.raised (store : Store) (ref : ChannelRef) : Store :=
  store.setChannel ref { store.channels ref with active := true, credit := 1 }

namespace Broker

variable {s s' : Broker}

/-- A quiet queue has no consumer that is eligible for its first content. -/
def Served (s : Broker) (ref : QueueRef) : Prop :=
  (s.queues ref).Quiet → (s.queues ref).basic.Served s.store

/-- The consumer would be eligible, if its channel were active and had some credit. -/
def Waits (s : Broker) (channel : ChannelRef) (ref : ConsumerRef) : Prop :=
  let queue := s.queues (s.store.consumers ref).queue
  (s.store.consumers ref).channel = channel ∧ queue.Quiet ∧ ref ∈ queue.basic.consumerList ∧
    ∃ content ∈ queue.basic.contentList.head?, (s.store.raised channel).eligible content ref = true

instance (s : Broker) (channel : ChannelRef) (ref : ConsumerRef) :
    Decidable (s.Waits channel ref) := by
  unfold Waits
  infer_instance

def queuesOf (s : Broker) (channel : ChannelRef) : List QueueRef :=
  (s.channels channel).consumerList.map fun ref => (s.store.consumers ref).queue

/-- The connection has no consumer with this tag, or with the next number if there is no tag. -/
def TagFree (s : Broker) (connection : ConnectionId) (tag : Shortstr) : Prop :=
  s.searchConsumer connection (takeTag (s.connections connection) tag).2 = none

instance (s : Broker) (connection : ConnectionId) (tag : Shortstr) :
    Decidable (s.TagFree connection tag) := inferInstanceAs (Decidable (_ = none))

/--
The channel that a step gives its first credit or makes active, with the queues that it asks
to dispatch. A channel that consumes once more asks none.
-/
def raises (s : Broker) : BrokerEvent → Option (ChannelRef × List QueueRef)
  | .earn ref =>
    let channel := s.store.channels ref
    if channel.zombie = false ∧ channel.active = true ∧ channel.credit = 0 then
      some (ref, s.queuesOf ref)
    else none
  | .channelStep ref =>
    let channel := s.store.channels ref
    match channel.connection, (s.channels ref).inbox.head? with
    | some _, some (.flow true) => if 1 ≤ channel.credit then some (ref, s.queuesOf ref) else none
    | some connection, some (.consume _ method) =>
      if channel.active = true ∧ channel.credit = 0 ∧ s.TagFree connection method.consumerTag then
        some (ref, [])
      else none
    | _, _ => none
  | _ => none

/-- All queues with a consumer that waits for the channel are asked to dispatch. -/
def Wakes (s : Broker) (event : BrokerEvent) : Prop :=
  ∀ raised ∈ s.raises event, ∀ ref < s.nextConsumer, s.Waits raised.1 ref →
    (s.store.consumers ref).queue ∈ raised.2

instance (s : Broker) (event : BrokerEvent) : Decidable (s.Wakes event) :=
  inferInstanceAs (Decidable (∀ raised ∈ s.raises event, ∀ ref < s.nextConsumer,
    s.Waits raised.1 ref → (s.store.consumers ref).queue ∈ raised.2))

/-! ## Requests that go over the consumers of a channel -/

theorem postQueue_self (s : Broker) (ref : QueueRef) (message : QueueMessage) :
    message ∈ ((s.postQueue ref message).queues ref).inbox := by
  rw [postQueue, setQueue_same]
  exact mem_append_right _ (mem_singleton.mpr rfl)

theorem foldl_dispatch {f : Broker → ConsumerRef → Broker}
    (hqueue : ∀ t ref c, ((f t ref).store.consumers c).queue = (t.store.consumers c).queue)
    (hpost : ∀ t ref, dispatch ∈ ((f t ref).queues (t.store.consumers ref).queue).inbox)
    (hkeep : ∀ t ref, Frame t (f t ref)) (refs : List ConsumerRef) (s : Broker) :
    ∀ ref ∈ refs, dispatch ∈ ((refs.foldl f s).queues (s.store.consumers ref).queue).inbox := by
  induction refs generalizing s with
  | nil => exact fun _ hm => by cases hm
  | cons first refs ih =>
    intro ref hm
    rcases mem_cons.mp hm with rfl | hm
    · -- a request stays in the inbox while others follow
      have hstay : ∀ (refs : List ConsumerRef) (t : Broker) (queue : QueueRef),
          dispatch ∈ (t.queues queue).inbox → dispatch ∈ ((refs.foldl f t).queues queue).inbox := by
        intro refs
        induction refs with
        | nil => exact fun _ _ h => h
        | cons c refs ih =>
          intro t queue h
          obtain ⟨posts, hi, -⟩ := (hkeep t c).inbox queue
          exact ih _ queue (hi ▸ mem_append_left posts h)
      exact hstay refs _ _ (hpost s ref)
    · have := ih (f s first) ref hm
      rw [hqueue] at this
      exact this

theorem foldl_postQueue_store (message : ConsumerRef → QueueMessage) (refs : List ConsumerRef)
    (s : Broker) :
    (refs.foldl (fun self consumer => self.postQueue (self.store.consumers consumer).queue
      (message consumer)) s).store = s.store := by
  induction refs generalizing s with
  | nil => rfl
  | cons ref refs ih => exact ih _

theorem foldl_postDispatch (refs : List ConsumerRef) (s : Broker) :
    ∀ ref ∈ refs, dispatch ∈ ((refs.foldl (fun self consumer =>
      self.postQueue (self.store.consumers consumer).queue .dispatch) s).queues
        (s.store.consumers ref).queue).inbox := by
  refine foldl_dispatch ?_ ?_ ?_ refs s
  · exact fun _ _ _ => rfl
  · exact fun t _ => postQueue_self t _ _
  · exact fun t _ => postDispatch_frame t _

theorem flowConsumer_store (active : Bool) (s : Broker) (ref : ConsumerRef) :
    (flowConsumer active s ref).store =
      s.store.setConsumer ref { s.store.consumers ref with paused := !active } := by
  unfold flowConsumer
  split <;> rfl

theorem foldl_flowConsumer_store (active : Bool) (refs : List ConsumerRef) (s : Broker) :
    (refs.foldl (flowConsumer active) s).store.channels = s.store.channels ∧
      ∀ ref, (refs.foldl (flowConsumer active) s).store.consumers ref =
        if ref ∈ refs then { s.store.consumers ref with paused := !active }
        else s.store.consumers ref := by
  induction refs generalizing s with
  | nil => exact ⟨rfl, fun _ => rfl⟩
  | cons first refs ih =>
    obtain ⟨hch, hc⟩ := ih (flowConsumer active s first)
    rw [foldl_cons]
    refine ⟨by rw [hch, flowConsumer_store]; rfl, fun ref => ?_⟩
    rw [hc, flowConsumer_store]
    by_cases hf : ref = first
    · subst hf
      simp [Store.setConsumer]
    · simp [Store.setConsumer, hf]

/-! ## What makes a consumer eligible -/

/-- A consumer that was eligible already, or whose channel is raised. -/
def Excused (s : Broker) (event : BrokerEvent) (queue : QueueRef) (content : Content)
    (ref : ConsumerRef) : Prop :=
  s.store.eligible content ref = true ∨
    ∃ queues, s.raises event = some ((s.store.consumers ref).channel, queues) ∧
      (s.store.raised (s.store.consumers ref).channel).eligible content ref = true ∧
      queue ∉ queues

theorem raised_eligible {store store' : Store} {content : Content}
    (hc : store'.consumers ref = store.consumers ref)
    (hch : (store'.channels (store.consumers ref).channel).connection =
      (store.channels (store.consumers ref).channel).connection)
    (h : store'.eligible content ref = true) :
    (store.raised (store.consumers ref).channel).eligible content ref = true := by
  obtain ⟨connection, h1, -, -, h4, h5, h6⟩ := eligible_iff.mp h
  rw [hc] at h1 h4 h5 h6
  refine eligible_iff.mpr ⟨connection, ?_, ?_, ?_, h4, h5, h6⟩ <;>
    simp [Store.raised, Store.setChannel, ← hch, h1]

theorem setChannel_restricts {store : Store} {ref ref' : ChannelRef} {channel : Channel}
    (h : ref' = ref → (store.channels ref').Restricts channel) :
    (store.channels ref').Restricts ((store.setChannel ref channel).channels ref') := by
  by_cases he : ref' = ref
  · subst he
    simp only [Store.setChannel, Function.update_self]
    exact h rfl
  · simp only [Store.setChannel, Function.update_of_ne he]
    exact .refl _

variable {channel : ChannelRef} {queue ref' : QueueRef} {r : Broker × List Reply}
  {event : BrokerEvent}

theorem earn_dispatch (hz : (s.store.channels channel).zombie = false)
    (hc : (s.store.channels channel).credit = 0) :
    ∀ queue ∈ s.queuesOf channel, dispatch ∈ ((s.earn channel).queues queue).inbox := by
  intro queue hm
  obtain ⟨ref, hr, rfl⟩ := mem_map.mp hm
  have hone : (s.store.channels channel).credit + 1 = 1 := by omega
  rw [earn]
  simp only [hz, if_pos hone]
  exact foldl_postDispatch _ _ ref hr

theorem earn_excused {content : Content}
    (hquiet : ((s.earn channel).queues queue).Quiet)
    (h : (s.earn channel).store.eligible content ref = true) :
    s.Excused (.earn channel) queue content ref := by
  unfold earn at h
  simp only at h
  split at h
  · exact Or.inl h
  next hz =>
  split at h
  · next hone =>
    rw [foldl_postQueue_store fun _ => .dispatch] at h
    by_cases hch : (s.store.consumers ref).channel = channel
    · have hz' : (s.store.channels channel).zombie = false := by simpa using hz
      have hc : (s.store.channels channel).credit = 0 := by omega
      refine Or.inr ⟨s.queuesOf channel, ?_, raised_eligible ?_ ?_ h,
        fun hm => hquiet.2 (earn_dispatch hz' hc queue hm)⟩
      · obtain ⟨-, -, hactive, -⟩ := eligible_iff.mp h
        simp only [Store.setChannel, hch, Function.update_self] at hactive
        rw [raises, if_pos ⟨hz', hactive, hc⟩, hch]
      · rfl
      · simp [Store.setChannel, hch]
    · exact Or.inl (eligible_of_restricts h rfl (setChannel_restricts fun he => absurd he hch))
  · refine Or.inl (eligible_of_restricts h rfl (setChannel_restricts fun he => ?_))
    subst he
    exact ⟨fun _ hc => hc, fun ha => ha, fun _ => by omega⟩

theorem close_excused {content : Content}
    (h : (s.close channel).store.eligible content ref = true) :
    s.Excused (.close channel) queue content ref := by
  unfold close at h
  split at h
  · exact Or.inl h
  · simp only [postChannel_store] at h
    refine Or.inl (eligible_of_restricts h rfl (setChannel_restricts fun he => ?_))
    subst he
    exact ⟨fun _ hc => hc, fun ha => ha, fun hcr => hcr⟩

theorem foldl_flowConsumer_dispatch (refs : List ConsumerRef) (s : Broker) :
    ∀ ref ∈ refs, dispatch ∈
      ((refs.foldl (flowConsumer true) s).queues (s.store.consumers ref).queue).inbox := by
  refine foldl_dispatch (fun t ref c => ?_) (fun t ref => ?_) (flowConsumer_frame true) refs s
  · rw [flowConsumer_store]
    by_cases hc : c = ref
    · subst hc
      simp [Store.setConsumer]
    · simp [Store.setConsumer, hc]
  · exact postQueue_self _ _ _

theorem flow_dispatch (s : Broker) (channel : ChannelRef) : ∀ queue ∈ s.queuesOf channel,
      dispatch ∈ ((s.flow channel true).1.queues queue).inbox := by
  intro queue hm
  obtain ⟨ref, hr, rfl⟩ := mem_map.mp hm
  exact foldl_flowConsumer_dispatch _ _ ref hr

theorem flow_excused (h : s.Coherent) {active : Bool} {content : Content}
    (hm : ref ∈ (s.queues queue).basic.consumerList)
    (hquiet : ((s.flow channel active).1.queues queue).Quiet)
    (he : (s.flow channel active).1.store.eligible content ref = true) :
    s.store.eligible content ref = true ∨
      active = true ∧ (s.store.consumers ref).channel = channel ∧
        1 ≤ (s.store.channels channel).credit ∧
        (s.store.raised channel).eligible content ref = true ∧ queue ∉ s.queuesOf channel := by
  obtain ⟨hch, hc⟩ := foldl_flowConsumer_store active (s.channels channel).consumerList
    { s with store := s.store.setChannel channel { s.store.channels channel with active } }
  have hch' : (s.flow channel active).1.store.channels =
    (s.store.setChannel channel { s.store.channels channel with active }).channels := hch
  have hc' : (s.flow channel active).1.store.consumers ref =
    if ref ∈ (s.channels channel).consumerList
      then { s.store.consumers ref with paused := !active } else s.store.consumers ref := hc ref
  cases active with
  | false =>
    by_cases hlisted : ref ∈ (s.channels channel).consumerList
    · obtain ⟨_, -, -, -, -, hpaused, -⟩ := eligible_iff.mp he
      rw [hc', if_pos hlisted] at hpaused
      cases hpaused
    · rw [if_neg hlisted] at hc'
      refine Or.inl (eligible_of_restricts he hc' ?_)
      rw [hch']
      refine setChannel_restricts fun heq => ?_
      subst heq
      exact ⟨fun _ hconn => hconn, fun ha => (by cases ha), fun hcr => hcr⟩
  | true =>
    have hnot : queue ∉ s.queuesOf channel :=
      fun hq => hquiet.2 (flow_dispatch s channel queue hq)
    have hlisted : ref ∉ (s.channels channel).consumerList := fun hl =>
      hnot (mem_map.mpr ⟨ref, hl, (h.attached queue ref hm).1⟩)
    rw [if_neg hlisted] at hc'
    by_cases hown : (s.store.consumers ref).channel = channel
    · subst hown
      refine Or.inr ⟨rfl, rfl, ?_, raised_eligible hc' ?_ he, hnot⟩
      · obtain ⟨_, -, -, hcredit, -⟩ := eligible_iff.mp he
        rw [hch', hc'] at hcredit
        simpa [Store.setChannel] using hcredit
      · rw [hch']
        simp [Store.setChannel]
    · refine Or.inl (eligible_of_restricts he hc' ?_)
      rw [hch']
      exact setChannel_restricts fun heq => absurd heq hown

theorem consume_store (config : Config) (s : Broker) (channel : ChannelRef)
    (connection : ConnectionId) (queue : QueueRef) (method : ConsumeMethod) :
    (s.consume config channel connection queue method).1.store = s.store ∨
      s.TagFree connection method.consumerTag ∧ ∃ consumer credit,
        (s.consume config channel connection queue method).1.store =
          (s.store.setConsumer s.nextConsumer consumer).setChannel channel
            { s.store.channels channel with credit } := by
  unfold consume newConsumer
  simp only
  split
  · split
    · exact Or.inl rfl
    · exact Or.inl rfl
  by_cases hused : (s.searchConsumer connection
      (takeTag (s.connections connection) method.consumerTag).2).isSome = true
  · rw [if_pos hused]
    exact Or.inl rfl
  · rw [if_neg hused]
    refine Or.inr ⟨?_, _, _, rfl⟩
    rw [TagFree]
    simpa using hused

theorem consume_excused {connection : ConnectionId} {method : ConsumeMethod} {content : Content}
    (hlt : ref < s.nextConsumer)
    (he : (s.consume config channel connection queue method).1.store.eligible content ref = true) :
    s.store.eligible content ref = true ∨
      (s.store.consumers ref).channel = channel ∧ (s.store.channels channel).active = true ∧
        (s.store.channels channel).credit = 0 ∧ s.TagFree connection method.consumerTag ∧
        (s.store.raised channel).eligible content ref = true := by
  rcases consume_store config s channel connection queue method with
    hst | ⟨hunused, consumer, credit, hst⟩ <;> rw [hst] at he
  · exact Or.inl he
  have hsame : ((s.store.setConsumer s.nextConsumer consumer).setChannel channel
      { s.store.channels channel with credit }).consumers ref = s.store.consumers ref := by
    simp [Store.setConsumer, Store.setChannel, Nat.ne_of_lt hlt]
  by_cases hzero : (s.store.consumers ref).channel = channel ∧ (s.store.channels channel).credit = 0
  · obtain ⟨rfl, hzero⟩ := hzero
    refine Or.inr ⟨rfl, ?_, hzero, hunused, raised_eligible hsame ?_ he⟩
    · obtain ⟨_, -, hactive, -⟩ := eligible_iff.mp he
      rw [hsame] at hactive
      simpa [Store.setChannel] using hactive
    · simp [Store.setChannel]
  · -- the channel had credit before, or it is another channel
    refine Or.inl (eligible_of_restricts he hsame (setChannel_restricts fun heq => ?_))
    subst heq
    refine ⟨fun _ hc => hc, fun ha => ha, fun _ => ?_⟩
    exact Nat.one_le_iff_ne_zero.mpr fun hz => hzero ⟨rfl, hz⟩

theorem cancel_eligible (h : s.Coherent) {connection : ConnectionId} {tag : Shortstr}
    {sync nowait : Bool} (hr : s.cancel channel connection tag sync nowait = some r)
    {content : Content} (hm : ref ∈ (s.queues queue).basic.consumerList)
    (he : r.1.store.eligible content ref = true) : s.store.eligible content ref = true := by
  unfold cancel at hr
  split at hr
  · next consumer _ =>
    simp only at hr
    split at hr
    · cases hr
      exact he
    split at hr
    · cases hr
    · next hnot =>
      cases hr
      -- the consumer that is destroyed is on no list
      have hne : ref ≠ consumer := by
        rintro rfl
        have hq : (s.store.consumers ref).queue = queue := (h.attached queue ref hm).1
        exact hnot (by rw [← hq] at hm; exact hm)
      refine eligible_of_restricts he ?_ (.refl _)
      simp [Store.setPending, Store.setConsumer, hne, byChannelRemove, setServerChannel, forget]
  · cases hr
    exact he

theorem destroy_eligible {content : Content}
    (he : (s.destroy channel).store.eligible content ref = true) :
    s.store.eligible content ref = true := by
  rw [destroy] at he
  simp only [foldl_postQueue_store fun consumer => .cancel consumer false true] at he
  refine eligible_of_restricts he rfl (setChannel_restricts fun heq => ?_)
  exact ⟨fun _ hc => (by cases hc), fun ha => heq ▸ ha, fun hcr => heq ▸ hcr⟩

/-- A consumer on a quiet queue that is eligible now was so before, or has an excuse. -/
theorem eligible_of_step (h : s.Coherent) (hs : s.step config event = some r)
    (hne : ∀ ref, event ≠ .queueStep ref ∧ event ≠ .turn ref) {content : Content}
    (hm : ref ∈ (s.queues queue).basic.consumerList)
    (hquiet : (r.1.queues queue).Quiet) (he : r.1.store.eligible content ref = true) :
    s.Excused event queue content ref := by
  cases event with
  | request channel request =>
    cases hs
    simp only [postChannel_store] at he
    exact Or.inl he
  | close channel =>
    cases hs
    exact close_excused he
  | earn channel =>
    cases hs
    exact earn_excused hquiet he
  | publish queue channel content immediate =>
    cases hs
    exact Or.inl he
  | channelStep channel =>
    simp only [step] at hs
    split at hs
    · next connection message inbox hconn hi =>
      have hpop : Frame s (s.setServerChannel channel { s.channels channel with inbox }) :=
        setServerChannel_frame fun _ hc => Or.inl hc
      have hlist : (s.setServerChannel channel { s.channels channel with inbox }).queuesOf
          channel = s.queuesOf channel := by
        rw [queuesOf, setServerChannel_same]
        rfl
      cases message with
      | flow active =>
        cases hs
        rcases flow_excused (h.frame hpop) hm hquiet he with
          he | ⟨rfl, hown, hcredit, hraised, hnot⟩
        · exact Or.inl he
        · refine Or.inr ⟨s.queuesOf channel, ?_, ?_, hlist ▸ hnot⟩
          · have hcredit' : 1 ≤ (s.store.channels channel).credit := hcredit
            have hown' : (s.store.consumers ref).channel = channel := hown
            simp only [raises, hconn, hi, head?_cons, if_pos hcredit', hown']
          · rw [show (s.store.consumers ref).channel = channel from hown]
            exact hraised
      | consume queue method =>
        cases hs
        rcases consume_excused (s := s.setServerChannel channel _) (h.attached _ ref hm).2 he with
          he | ⟨hown, hactive, hcredit, hunused, hraised⟩
        · exact Or.inl he
        · have hown' : (s.store.consumers ref).channel = channel := hown
          have hraise : (s.store.channels channel).active = true ∧
            (s.store.channels channel).credit = 0 ∧ s.TagFree connection method.consumerTag :=
              ⟨hactive, hcredit, hunused⟩
          refine Or.inr ⟨[], ?_, ?_, not_mem_nil⟩
          · simp only [raises, hconn, hi, head?_cons, if_pos hraise, hown']
          · rw [hown']
            exact hraised
      | ack =>
        cases hs
        simp only [ack, foldl_postQueue_store fun consumer => .consumerAck consumer] at he
        exact Or.inl he
      | cancel tag sync nowait => exact Or.inl (cancel_eligible (h.frame hpop) hs hm he)
      | destroy =>
        cases hs
        exact Or.inl (destroy_eligible (s := s.setServerChannel channel _) he)
    · cases hs
  | queueStep ref => exact absurd rfl (hne ref).1
  | turn ref => exact absurd rfl (hne ref).2

theorem raises_dispatch (hs : s.step config event = some r) {raised : ChannelRef × List QueueRef}
    (hr : s.raises event = some raised) :
    ∀ queue ∈ raised.2, dispatch ∈ (r.1.queues queue).inbox := by
  cases event with
  | earn channel =>
    cases hs
    simp only [raises] at hr
    split at hr
    · next hc =>
      cases hr
      exact earn_dispatch hc.1 hc.2.2
    · cases hr
  | channelStep channel =>
    simp only [step] at hs
    split at hs
    · next connection message inbox hconn hi =>
      simp only [raises, hconn, hi, head?_cons] at hr
      cases message with
      | flow active =>
        cases hs
        cases active with
        | false => cases hr
        | true =>
          simp only at hr
          split at hr
          · cases hr
            have hlist : (s.setServerChannel channel { s.channels channel with inbox }).queuesOf
                channel = s.queuesOf channel := by
              rw [queuesOf, setServerChannel_same]
              rfl
            rw [← hlist]
            exact flow_dispatch _ channel
          · cases hr
      | consume queue method =>
        simp only at hr
        split at hr
        · cases hr
          exact fun _ hm => by cases hm
        · cases hr
      | ack | cancel tag sync nowait | destroy => cases hr
    · cases hs
  | request channel request | close channel | publish queue channel content immediate
  | queueStep ref | turn ref => cases hr

/-! ## One step -/

variable {ref : QueueRef}

theorem quiet_of_frame (hf : Frame s s') (h : (s'.queues ref).Quiet) :
    (s.queues ref).Quiet := by
  obtain ⟨posts, hi, -⟩ := hf.inbox ref
  refine ⟨by rw [← hf.basic ref]; exact h.1, fun hm => h.2 ?_⟩
  rw [hi]
  exact mem_append_left _ hm

theorem Served.popQueue (hserved : s.Served ref') {message : QueueMessage}
    {inbox : List QueueMessage} (hi : (s.queues ref).inbox = message :: inbox)
    (hm : ref' = ref → message ≠ .dispatch) : (s.popQueue ref inbox).Served ref' := by
  intro hquiet
  by_cases hq : ref' = ref
  · subst hq
    rw [popQueue_same] at hquiet ⊢
    refine hserved ⟨hquiet.1, fun hin => ?_⟩
    rw [hi] at hin
    rcases mem_cons.mp hin with he | hin
    · exact hm rfl he.symm
    · exact hquiet.2 hin
  · rw [popQueue_other hq] at hquiet ⊢
    exact hserved hquiet

theorem Served.settled {r : BasicQueue × Store × List Output}
    (h : dispatch ∉ (s.queues ref).inbox → r.1.state = .idle → r.1.Served r.2.1)
    (hs : Settled s ref r s') : s'.Served ref := by
  rintro ⟨hidle, hnot⟩
  rw [hs.basic] at hidle ⊢
  rw [hs.inbox] at hnot
  rw [hs.store]
  exact h hnot hidle

theorem Served.settled_other (h : s.Coherent) (hserved : s.Served ref')
    {after : Option ConsumerRef} {r : BasicQueue × Store × List Output}
    (heff : Effect ref (s.queues ref).basic s.store after r) (hs : Settled s ref r s')
    (hne : ref' ≠ ref) : s'.Served ref' := by
  intro hquiet content hc consumer hm
  rw [hs.others ref' hne] at hquiet hc hm
  refine Bool.eq_false_iff.mpr fun he => ?_
  rw [hs.store] at he
  have hother : (s.store.consumers consumer).queue ≠ ref := by
    rw [(h.attached ref' consumer hm).1]
    exact hne
  have hbefore := eligible_of_restricts he (heff.onlyQueue.others consumer hother) (by
    obtain ⟨credit, hle, hch⟩ := heff.onlyQueue.channels (s.store.consumers consumer).channel
    rw [hch]
    exact ⟨fun _ hconn => hconn, fun ha => ha, fun hcr => Nat.le_trans hcr hle⟩)
  rw [hserved hquiet content hc consumer hm] at hbefore
  cases hbefore

theorem Served.acceptConsumer_other (h : s.Coherent) (hserved : s.Served ref')
    (hne : ref' ≠ ref) {consumer : ConsumerRef} (hb : s.Belongs consumer ref) (active : Bool) :
    (s.acceptConsumer ref consumer active).Served ref' := by
  have hqueue : (s.acceptConsumer ref consumer active).queues ref' = s.queues ref' :=
    setQueue_other hne
  intro hquiet content hc c hm
  rw [hqueue] at hquiet hc hm
  refine Bool.eq_false_iff.mpr fun he => ?_
  have hnot : c ≠ consumer := by
    rintro rfl
    exact hne ((h.attached ref' c hm).1.symm.trans hb.1)
  have hbefore : s.store.eligible content c = true :=
    eligible_of_restricts he (by simp [Broker.acceptConsumer, Store.setConsumer, hnot]) (.refl _)
  rw [hserved hquiet content hc c hm] at hbefore
  cases hbefore

theorem Served.of_frame (h : s.Coherent) (hok : s.Wakes event) (hs : s.step config event = some r)
    (hne : ∀ ref, event ≠ .queueStep ref ∧ event ≠ .turn ref) (hf : Frame s r.1)
    (hserved : s.Served ref) : r.1.Served ref := by
  intro hquiet content hc consumer hm
  rw [hf.basic] at hc hm
  have hbefore := quiet_of_frame hf hquiet
  refine Bool.eq_false_iff.mpr fun he => ?_
  rcases eligible_of_step h hs hne hm hquiet he with he | ⟨queues, hr, hraised, hnot⟩
  · rw [hserved hbefore content hc consumer hm] at he
    cases he
  · obtain ⟨hq, hlt⟩ := h.attached ref consumer hm
    have hin := hok _ hr consumer hlt
      ⟨rfl, hq.symm ▸ hbefore, hq.symm ▸ hm, content, hq.symm ▸ hc, hraised⟩
    rw [hq] at hin
    exact hnot hin

/-- A step that wakes the queues leaves none that is quiet and could dispatch. -/
theorem served_step (h : s.Coherent) (hserved : ∀ ref, s.Served ref) (hok : s.Wakes event)
    (hs : s.step config event = some r) : ∀ ref, r.1.Served ref := by
  intro ref'
  have hothers : ∀ {ref message inbox}, (s.queues ref).inbox = message :: inbox → ref' ≠ ref →
      (s.popQueue ref inbox).Served ref' :=
    fun hi hq => (hserved ref').popQueue hi fun he => absurd he hq
  cases move_of_step h hs with
  | frame hne hf => exact (hserved ref').of_frame h hok hs hne hf
  | refuse hi hr hs =>
    rw [hs]
    intro hquiet
    rw [postChannel_queues] at hquiet ⊢
    rw [postChannel_store]
    exact (hserved ref').popQueue hi (fun _ => by simp) hquiet
  | @accept ref consumer active nowait inbox _ hidle hi hr hs =>
    rw [hs]
    by_cases hq : ref' = ref
    · subst hq
      exact fun hquiet => absurd (postQueue_self _ ref' .dispatch) hquiet.2
    · have hb : (s.popQueue ref inbox).Belongs consumer ref :=
        h.inbox ref _ (hi ▸ mem_cons_self) consumer rfl
      intro hquiet
      rw [postQueue, setQueue_other hq] at hquiet ⊢
      exact (hothers hi hq).acceptConsumer_other (h.popQueue hi) hq hb active hquiet
  | @operate ref message inbox o _ hidle hi ho heff hs =>
    by_cases hq : ref' = ref
    · subst hq
      refine Served.settled (fun hnot hend => ?_) hs
      refine operation_served ((h.popQueue hi).nodup ref') (fun hm => ?_) ho hend
      -- the queue was quiet, as the request is none to dispatch
      refine (hserved ref').popQueue hi (fun _ => hm) ⟨?_, hnot⟩
      rw [popQueue_basic]
      exact hidle
    · exact (hothers hi hq).settled_other (h.popQueue hi) heff hs hq
  | @turn ref after _ hst heff hs =>
    by_cases hq : ref' = ref
    · subst hq
      exact Served.settled (fun _ hend => BasicQueue.turn_served hst (h.nodup ref') hend) hs
    · exact (hserved ref').settled_other h heff hs hq

/-! ## Runs -/

/--
In every state of a run, a queue that is not dispatching and has not been asked to has no
consumer that is eligible for its first content. A step that raises a channel asks the queues
of all consumers that have waited for it.
-/
theorem no_lost_wakeup (config : Config) {log : List Reply} {events : List BrokerEvent}
    (hfresh : s.Fresh) (hok : s.Throughout config Wakes events)
    (hrun : s.outcome config events = some (s', log)) :
    (∀ ref, (s'.queues ref).Quiet → ∀ content ∈ (s'.queues ref).basic.contentList.head?,
      ∀ consumer ∈ (s'.queues ref).basic.consumerList, s'.store.eligible content consumer = false) ∧
      ∀ event r, s'.Wakes event → s'.step config event = some r →
        ∀ raised ∈ s'.raises event, ∀ consumer, s'.Waits raised.1 consumer →
          dispatch ∈ (r.1.queues (s'.store.consumers consumer).queue).inbox := by
  have hstart : ∀ ref, s.Served ref := by
    intro ref _ content _ consumer hm
    rw [hfresh.consumerList] at hm
    cases hm
  obtain ⟨hcoherent, hserved⟩ := invariant_of_step
    (fun _ _ _ h hserved hok' hs => served_step h hserved hok' hs) hfresh.coherent hstart hok hrun
  refine ⟨hserved, fun event r hok' hs raised hr consumer hw => ?_⟩
  obtain ⟨-, -, hm, -⟩ := id hw
  exact raises_dispatch hs hr _ (hok' raised hr consumer (hcoherent.attached _ consumer hm).2 hw)

/-- A consumer has had a content, and another one waits until its channel earns a credit. -/
def spent : List BrokerEvent :=
  [.request 1 (.consume 0 { noAck := true }), .channelStep 1, .queueStep 0, .queueStep 0, .turn 0,
    .publish 0 none ⟨1, 9, 64⟩ false, .queueStep 0, .turn 0, .turn 0,
    .publish 0 none ⟨2, 9, 64⟩ false, .queueStep 0, .turn 0]

/-- With its credit back, the channel empties the queue and consumes from another one. -/
def resumed : List BrokerEvent :=
  spent ++ [.earn 1, .queueStep 0, .turn 0, .turn 0, .request 1 (.consume 1 {}), .channelStep 1]

theorem no_lost_wakeup_resumed : ∃ s' log, unused.outcome {} resumed = some (s', log) ∧
      (∀ ref, (s'.queues ref).Quiet → ∀ content ∈ (s'.queues ref).basic.contentList.head?,
        ∀ consumer ∈ (s'.queues ref).basic.consumerList,
          s'.store.eligible content consumer = false) ∧
        ∀ event r, s'.Wakes event → s'.step {} event = some r →
          ∀ raised ∈ s'.raises event, ∀ consumer, s'.Waits raised.1 consumer →
            dispatch ∈ (r.1.queues (s'.store.consumers consumer).queue).inbox := by
  have hsome : (unused.outcome {} resumed).isSome = true := by decide +kernel
  obtain ⟨⟨s', log⟩, hrun⟩ := Option.isSome_iff_exists.mp hsome
  exact ⟨s', log, hrun, no_lost_wakeup {} unused_fresh (by decide +kernel) hrun⟩

/--
The channel consumes from another queue while a content waits for its credit, and only then
earns a credit. It has a credit of 2 now, but the first queue is never asked to dispatch.
-/
def stalled : List BrokerEvent :=
  spent ++ [.request 1 (.consume 1 { noAck := true }), .channelStep 1, .queueStep 1,
    .queueStep 1, .turn 1, .earn 1]

theorem no_lost_wakeup_stalled : (unused.outcome {} stalled).map (fun r =>
      (decide (r.1.queues 0).Quiet, (r.1.queues 0).basic.contentList,
        (r.1.queues 0).basic.consumerList, r.1.store.eligible ⟨2, 9, 64⟩ 0)) =
      some (true, [⟨2, 9, 64⟩], [0], true) := by
  decide +kernel

end Broker

end OpenAmq
