import OpenAmq.Broker.Effects

/-!
# Consumers belong to one queue

Every request about a consumer that is on its way to a queue, and every consumer that is on
the list of a queue, belongs to that queue. This holds in every run, whatever the order of
the messages.

* `Frame` — a step that leaves the lists and the locks of all queues alone
* `Coherent` — what holds in every run
* `Coherent.step` — it is kept by every step
-/

namespace OpenAmq

open List Function

namespace Broker

def Belongs (self : Broker) (consumer : ConsumerRef) (queue : QueueRef) : Prop :=
  (self.store.consumers consumer).queue = queue ∧ consumer < self.nextConsumer

/-- Where consumers may be found. -/
structure Coherent (s : Broker) : Prop where
  nodup : ∀ queue, (s.queues queue).basic.consumerList.Nodup
  attached : ∀ queue, ∀ ref ∈ (s.queues queue).basic.consumerList, s.Belongs ref queue
  inbox : ∀ queue, ∀ message ∈ (s.queues queue).inbox, ∀ ref ∈ message.consumer?,
    s.Belongs ref queue
  cancelling : ∀ queue ref, (s.queues queue).basic.state = .dispatching (some ref) →
    s.Belongs ref queue
  listed : ∀ channel, ∀ ref ∈ (s.channels channel).consumerList, ref < s.nextConsumer
  table : ∀ connection, ∀ ref ∈ (s.connections connection).consumerTable, ref < s.nextConsumer
  pending : ∀ ref, (s.store.consumers ref).pendingContent ≠ none →
    ref ∈ (s.queues (s.store.consumers ref).queue).basic.consumerList

/--
What requests of channels and of clients leave alone. They may create consumers, pause them,
and send requests to queues.
-/
structure Frame (s s' : Broker) : Prop where
  nextConsumer : s.nextConsumer ≤ s'.nextConsumer
  consumers : ∀ ref < s.nextConsumer, ∃ paused,
    s'.store.consumers ref = { s.store.consumers ref with paused }
  created : ∀ ref, s.nextConsumer ≤ ref → (s'.store.consumers ref).pendingContent ≠ none →
    (s.store.consumers ref).pendingContent ≠ none
  basic : ∀ queue, (s'.queues queue).basic = (s.queues queue).basic
  locked : ∀ queue, (s'.queues queue).locked = (s.queues queue).locked
  inbox : ∀ queue, ∃ posts, (s'.queues queue).inbox = (s.queues queue).inbox ++ posts ∧
    ∀ message ∈ posts, ∀ ref ∈ message.consumer?, s'.Belongs ref queue
  listed : ∀ channel, ∀ ref ∈ (s'.channels channel).consumerList,
    ref ∈ (s.channels channel).consumerList ∨ ref < s'.nextConsumer
  table : ∀ connection, ∀ ref ∈ (s'.connections connection).consumerTable,
    ref ∈ (s.connections connection).consumerTable ∨ ref < s'.nextConsumer

/-! ## Frames -/

variable {s s' s1 s2 s3 : Broker}

theorem Frame.belongs (h : Frame s s') {ref : ConsumerRef} {queue : QueueRef}
    (hb : s.Belongs ref queue) : s'.Belongs ref queue := by
  obtain ⟨paused, hc⟩ := h.consumers ref hb.2
  refine ⟨?_, Nat.lt_of_lt_of_le hb.2 h.nextConsumer⟩
  rw [hc]
  exact hb.1

theorem Frame.refl (s : Broker) : Frame s s where
  nextConsumer := Nat.le_refl _
  consumers := fun _ _ => ⟨_, rfl⟩
  created := fun _ _ hp => hp
  basic := fun _ => rfl
  locked := fun _ => rfl
  inbox := fun _ => ⟨[], (append_nil _).symm, fun _ hm => by cases hm⟩
  listed := fun _ _ hr => Or.inl hr
  table := fun _ _ hr => Or.inl hr

theorem Frame.trans (h1 : Frame s1 s2) (h2 : Frame s2 s3) : Frame s1 s3 where
  nextConsumer := Nat.le_trans h1.nextConsumer h2.nextConsumer
  consumers := fun ref hr => by
    obtain ⟨p1, hc1⟩ := h1.consumers ref hr
    obtain ⟨p2, hc2⟩ := h2.consumers ref (Nat.lt_of_lt_of_le hr h1.nextConsumer)
    exact ⟨p2, by rw [hc2, hc1]⟩
  created := fun ref hr hp => by
    by_cases hlt : ref < s2.nextConsumer
    · obtain ⟨paused, hc⟩ := h2.consumers ref hlt
      exact h1.created ref hr (by rw [hc] at hp; exact hp)
    · exact h1.created ref hr (h2.created ref (Nat.le_of_not_lt hlt) hp)
  basic := fun queue => (h2.basic queue).trans (h1.basic queue)
  locked := fun queue => (h2.locked queue).trans (h1.locked queue)
  inbox := fun queue => by
    obtain ⟨posts1, hi1, hb1⟩ := h1.inbox queue
    obtain ⟨posts2, hi2, hb2⟩ := h2.inbox queue
    refine ⟨posts1 ++ posts2, by rw [hi2, hi1, append_assoc], fun message hm ref hr => ?_⟩
    rcases mem_append.mp hm with hm | hm
    · exact h2.belongs (hb1 message hm ref hr)
    · exact hb2 message hm ref hr
  listed := fun channel ref hr => by
    rcases h2.listed channel ref hr with hr | hr
    · exact (h1.listed channel ref hr).imp_right fun hlt =>
        Nat.lt_of_lt_of_le hlt h2.nextConsumer
    · exact Or.inr hr
  table := fun connection ref hr => by
    rcases h2.table connection ref hr with hr | hr
    · exact (h1.table connection ref hr).imp_right fun hlt =>
        Nat.lt_of_lt_of_le hlt h2.nextConsumer
    · exact Or.inr hr

theorem Coherent.frame (h : s.Coherent) (hf : Frame s s') : s'.Coherent where
  nodup := fun queue => by
    rw [hf.basic]
    exact h.nodup queue
  attached := fun queue ref hr => by
    rw [hf.basic] at hr
    exact hf.belongs (h.attached queue ref hr)
  inbox := fun queue message hm ref hr => by
    obtain ⟨posts, hi, hb⟩ := hf.inbox queue
    rw [hi] at hm
    rcases mem_append.mp hm with hm | hm
    · exact hf.belongs (h.inbox queue message hm ref hr)
    · exact hb message hm ref hr
  cancelling := fun queue ref hs => by
    rw [hf.basic] at hs
    exact hf.belongs (h.cancelling queue ref hs)
  listed := fun channel ref hr => by
    rcases hf.listed channel ref hr with hr | hr
    · exact Nat.lt_of_lt_of_le (h.listed channel ref hr) hf.nextConsumer
    · exact hr
  table := fun connection ref hr => by
    rcases hf.table connection ref hr with hr | hr
    · exact Nat.lt_of_lt_of_le (h.table connection ref hr) hf.nextConsumer
    · exact hr
  pending := fun ref hp => by
    by_cases hlt : ref < s.nextConsumer
    · obtain ⟨paused, hc⟩ := hf.consumers ref hlt
      rw [hc] at hp
      rw [hc, hf.basic]
      exact h.pending ref hp
    · -- nothing is pending for a consumer that did not exist
      have hm := h.pending ref (hf.created ref (Nat.le_of_not_lt hlt) hp)
      exact absurd (h.attached _ ref hm).2 hlt

/-! ## Sending requests -/

variable {ref : QueueRef} {queue : ServerQueue} {channel : ServerChannel} {id : ConnectionId}
  {connection : ServerConnection} {message : QueueMessage} {r : Broker × List Reply}
  {config : Config} {inbox : List QueueMessage}

theorem setQueue_same : (s.setQueue ref queue).queues ref = queue := update_self ..

theorem setQueue_other {ref' : QueueRef} (h : ref' ≠ ref) :
    (s.setQueue ref queue).queues ref' = s.queues ref' := update_of_ne h ..

variable {ref : ChannelRef}

theorem setServerChannel_same :
    (s.setServerChannel ref channel).channels ref = channel := update_self ..

theorem setServerChannel_other {ref ref' : ChannelRef} (h : ref' ≠ ref) :
    (s.setServerChannel ref channel).channels ref' = s.channels ref' :=
  update_of_ne h ..

theorem setConnection_same :
    (s.setConnection id connection).connections id = connection := update_self ..

theorem setConnection_other {id' : ConnectionId} (h : id' ≠ id) :
    (s.setConnection id connection).connections id' = s.connections id' :=
  update_of_ne h ..

theorem setQueue_frame {posts : List QueueMessage} (hb : queue.basic = (s.queues ref).basic)
    (hl : queue.locked = (s.queues ref).locked) (hi : queue.inbox = (s.queues ref).inbox ++ posts)
    (hp : ∀ message ∈ posts, ∀ consumer ∈ message.consumer?, s.Belongs consumer ref) :
    Frame s (s.setQueue ref queue) where
  nextConsumer := Nat.le_refl _
  consumers := fun _ _ => ⟨_, rfl⟩
  created := fun _ _ hp => hp
  basic := fun ref' => by
    by_cases h : ref' = ref
    · rw [h, setQueue_same, hb]
    · rw [setQueue_other h]
  locked := fun ref' => by
    by_cases h : ref' = ref
    · rw [h, setQueue_same, hl]
    · rw [setQueue_other h]
  inbox := fun ref' => by
    by_cases h : ref' = ref
    · rw [h, setQueue_same]
      exact ⟨posts, hi, hp⟩
    · rw [setQueue_other h]
      exact ⟨[], (append_nil _).symm, fun _ hm => by cases hm⟩
  listed := fun _ _ hr => Or.inl hr
  table := fun _ _ hr => Or.inl hr

theorem postQueue_frame (h : ∀ consumer ∈ message.consumer?, s.Belongs consumer ref) :
    Frame s (s.postQueue ref message) :=
  setQueue_frame rfl rfl rfl fun m hm => by
    obtain rfl := mem_singleton.mp hm
    exact h

theorem setServerChannel_frame
    (h : ∀ consumer ∈ channel.consumerList, consumer ∈ (s.channels ref).consumerList ∨
      consumer < s.nextConsumer)
    : Frame s (s.setServerChannel ref channel) :=
  { Frame.refl s with
    listed := fun ref' consumer hc => by
      by_cases he : ref' = ref
      · subst he
        rw [setServerChannel_same] at hc
        exact h consumer hc
      · rw [setServerChannel_other he] at hc
        exact Or.inl hc }

theorem postChannel_queues (s : Broker) (ref : ChannelRef) (message : ChannelMessage) :
    (s.postChannel ref message).queues = s.queues := by
  unfold postChannel
  split <;> rfl

theorem postChannel_store (s : Broker) (ref : ChannelRef) (message : ChannelMessage) :
    (s.postChannel ref message).store = s.store := by
  unfold postChannel
  split <;> rfl

theorem postChannel_frame (s : Broker) (ref : ChannelRef) (message : ChannelMessage) :
    Frame s (s.postChannel ref message) := by
  unfold postChannel
  split
  · exact Frame.refl s
  · exact setServerChannel_frame fun _ hc => Or.inl hc

theorem setStore_frame {store : Store}
    (h : ∀ ref, ∃ paused, store.consumers ref = { s.store.consumers ref with paused }) :
    Frame s { s with store } :=
  { Frame.refl s with
    consumers := fun ref _ => h ref
    created := fun ref _ hp => by
      obtain ⟨paused, hc⟩ := h ref
      rw [hc] at hp
      exact hp
    inbox := fun _ => ⟨[], (append_nil _).symm, fun _ hm => by cases hm⟩ }

theorem forget_frame (s : Broker) (ref : ConsumerRef) : Frame s (s.forget ref) :=
  { Frame.refl s with table := fun _ _ hr => Or.inl (mem_of_mem_erase hr) }

/-! ## Requests of channels -/

theorem setPaused_frame (s : Broker) (ref : ConsumerRef) (paused : Bool) : Frame s { s with
      store := s.store.setConsumer ref { s.store.consumers ref with paused } } :=
  setStore_frame fun ref' => by
    by_cases he : ref' = ref
    · subst he
      exact ⟨paused, by simp [Store.setConsumer]⟩
    · exact ⟨(s.store.consumers ref').paused, by simp [Store.setConsumer, he]⟩

theorem setChannel_frame (s : Broker) (ref : ChannelRef) (channel : Channel) :
    Frame s { s with store := s.store.setChannel ref channel } :=
  setStore_frame fun _ => ⟨_, rfl⟩

theorem setFeed_frame (s : Broker) (ref : QueueRef) (feedOn : Bool) :
    Frame s (s.setQueue ref { s.queues ref with feedOn }) :=
  setQueue_frame rfl rfl (append_nil _).symm fun _ hm => by cases hm

theorem postDispatch_frame (s : Broker) (ref : QueueRef) : Frame s (s.postQueue ref .dispatch) :=
  postQueue_frame fun _ hc => by cases hc

theorem flowConsumer_frame (active : Bool) (s : Broker) (ref : ConsumerRef) :
    Frame s (flowConsumer active s ref) := by
  have hfeed := (setPaused_frame s ref !active).trans (setFeed_frame _
    (s.store.consumers ref).queue active)
  unfold flowConsumer
  split
  · exact hfeed.trans (postDispatch_frame _ _)
  · exact hfeed

theorem foldl_frame {f : Broker → ConsumerRef → Broker} {refs : List ConsumerRef}
    (hf : ∀ t, ∀ ref ∈ refs, ref < t.nextConsumer → Frame t (f t ref))
    (h : ∀ ref ∈ refs, ref < s.nextConsumer) : Frame s (refs.foldl f s) := by
  induction refs generalizing s with
  | nil => exact Frame.refl s
  | cons ref refs ih =>
    have hstep := hf s ref mem_cons_self (h ref mem_cons_self)
    refine hstep.trans (ih (fun t r hr => hf t r (mem_cons_of_mem _ hr)) fun r hr => ?_)
    exact Nat.lt_of_lt_of_le (h r (mem_cons_of_mem _ hr)) hstep.nextConsumer

theorem flow_frame (h : s.Coherent) (ref : ChannelRef) (active : Bool) :
    Frame s (s.flow ref active).1 :=
  (setChannel_frame s ref _).trans
    (foldl_frame (fun t consumer _ _ => flowConsumer_frame active t consumer) (h.listed ref))

theorem ack_frame (h : s.Coherent) (ref : ChannelRef) : Frame s (s.ack ref) :=
  foldl_frame (fun t consumer _ hlt => postQueue_frame fun c hc => by
    cases hc
    exact ⟨rfl, hlt⟩) (h.listed ref)

theorem earn_frame (h : s.Coherent) (ref : ChannelRef) : Frame s (s.earn ref) := by
  unfold earn
  simp only
  split
  · exact Frame.refl s
  have hcredit := setChannel_frame s ref
    { s.store.channels ref with credit := (s.store.channels ref).credit + 1 }
  split
  · exact hcredit.trans (foldl_frame (fun t consumer _ _ => postDispatch_frame t _) (h.listed ref))
  · exact hcredit

theorem destroy_frame (h : s.Coherent) (ref : ChannelRef) : Frame s (s.destroy ref) := by
  have hempty : Frame s (s.setServerChannel ref {}) :=
    setServerChannel_frame fun _ hc => by cases hc
  refine (hempty.trans (setChannel_frame _ ref _)).trans
    (foldl_frame (fun t consumer _ hlt => postQueue_frame fun c hc => ?_) (h.listed ref))
  cases hc
  exact ⟨rfl, hlt⟩

theorem close_frame (s : Broker) (ref : ChannelRef) : Frame s (s.close ref) := by
  unfold close
  split
  · exact Frame.refl s
  · exact (postChannel_frame s ref .destroy).trans (setChannel_frame _ ref _)

theorem byChannelRemove_frame (s : Broker) (ref : ConsumerRef) : Frame s (s.byChannelRemove ref) :=
  setServerChannel_frame fun _ hc => Or.inl (mem_of_mem_erase hc)

theorem searchConsumer_lt (h : s.Coherent) {connection : ConnectionId} {tag : Shortstr}
    {ref : ConsumerRef} (hs : s.searchConsumer connection tag = some ref) :
    ref < s.nextConsumer :=
  h.table connection ref (mem_of_find?_eq_some hs)

theorem cancel_frame (h : s.Coherent) {connection : ConnectionId}
    {tag : Shortstr} {sync nowait : Bool} (hr : s.cancel ref connection tag sync nowait = some r) :
    Frame s r.1 := by
  unfold cancel at hr
  cases hf : s.searchConsumer connection tag with
  | none =>
    rw [hf] at hr
    cases hr
    exact Frame.refl s
  | some consumer =>
    rw [hf] at hr
    have hlt := searchConsumer_lt h hf
    have hremove := byChannelRemove_frame s consumer
    simp only at hr
    split at hr
    · cases hr
      exact hremove.trans (postQueue_frame fun c hc => by
        cases hc
        exact ⟨rfl, hlt⟩)
    split at hr
    · cases hr
    · next hnot =>
      cases hr
      -- a consumer that is not on the list of its queue holds nothing
      have hnone : (s.store.consumers consumer).pendingContent = none :=
        not_imp_comm.mp (h.pending consumer) hnot
      refine (hremove.trans (forget_frame _ consumer)).trans (setStore_frame fun ref' => ?_)
      by_cases he : ref' = consumer
      · subst he
        refine ⟨(s.store.consumers ref').paused, ?_⟩
        simp [Store.setPending, Store.setConsumer, byChannelRemove, setServerChannel, forget,
          ← hnone]
      · refine ⟨(s.store.consumers ref').paused, ?_⟩
        simp [Store.setPending, Store.setConsumer, byChannelRemove, setServerChannel, forget, he]

theorem setConnection_frame
    (h : ∀ ref ∈ connection.consumerTable, ref ∈ (s.connections id).consumerTable ∨
      ref < s.nextConsumer)
    : Frame s (s.setConnection id connection) :=
  { Frame.refl s with
    table := fun id' ref hr => by
      by_cases he : id' = id
      · subst he
        rw [setConnection_same] at hr
        exact h ref hr
      · rw [setConnection_other he] at hr
        exact Or.inl hr }

theorem takeTag_consumerTable (connection : ServerConnection) (tag : Shortstr) :
    (takeTag connection tag).1.consumerTable = connection.consumerTable := by
  unfold takeTag
  split <;> rfl

theorem addConsumer_frame (h : connection.consumerTable = (s.connections id).consumerTable)
    {consumer : Consumer} (hp : consumer.pendingContent = none) :
    Frame s (s.addConsumer id connection consumer) where
  nextConsumer := Nat.le_succ _
  consumers := fun ref hr => by
    refine ⟨(s.store.consumers ref).paused, ?_⟩
    simp [addConsumer, Store.setConsumer, Nat.ne_of_lt hr]
  created := fun ref _ hne => by
    by_cases he : ref = s.nextConsumer
    · subst he
      simp [addConsumer, Store.setConsumer, hp] at hne
    · simpa [addConsumer, Store.setConsumer, he] using hne
  basic := fun _ => rfl
  locked := fun _ => rfl
  inbox := fun _ => ⟨[], (append_nil _).symm, fun _ hm => by cases hm⟩
  listed := fun _ _ hr => Or.inl hr
  table := fun id' ref hr => by
    by_cases he : id' = id
    · subst he
      simp only [addConsumer, setConnection, update_self] at hr
      rcases mem_append.mp hr with hr | hr
      · exact Or.inl (h ▸ hr)
      · exact Or.inr (mem_singleton.mp hr ▸ Nat.lt_succ_self _)
    · simp only [addConsumer, setConnection, update_of_ne he] at hr
      exact Or.inl hr

theorem newConsumer_frame (s : Broker) (connection : ConnectionId) (channel : ChannelRef)
    (queue : QueueRef) (method : ConsumeMethod) :
    Frame s (s.newConsumer connection channel queue method).1 ∧
      ∀ ref ∈ (s.newConsumer connection channel queue method).2, ref = s.nextConsumer ∧
        (s.newConsumer connection channel queue method).1.Belongs ref queue := by
  have htable := takeTag_consumerTable (s.connections connection) method.consumerTag
  unfold newConsumer
  simp only
  split
  · exact ⟨setConnection_frame fun ref hr => Or.inl (htable ▸ hr), fun ref hr => by cases hr⟩
  · refine ⟨addConsumer_frame htable rfl, fun ref hr => ?_⟩
    cases hr
    exact ⟨rfl, by simp [addConsumer, Store.setConsumer], Nat.lt_succ_self _⟩

theorem consume_frame (config : Config) (s : Broker) (ref : ChannelRef)
    (connection : ConnectionId) (queue : QueueRef) (method : ConsumeMethod) :
    Frame s (s.consume config ref connection queue method).1 := by
  unfold consume
  simp only
  split
  · split
    · exact Frame.refl s
    · exact Frame.refl s
  · obtain ⟨hf, hnew⟩ := newConsumer_frame s connection ref queue method
    split
    · next t consumer ht =>
      rw [ht] at hf hnew
      obtain ⟨-, hb⟩ := hnew consumer rfl
      have hlisted : Frame t (t.setServerChannel ref { t.channels ref with
          consumerList := (t.channels ref).consumerList ++ [consumer] }) :=
        setServerChannel_frame fun c hc => by
          rcases mem_append.mp hc with hc | hc
          · exact Or.inl hc
          · exact Or.inr (mem_singleton.mp hc ▸ hb.2)
      refine ((hf.trans hlisted).trans (setChannel_frame _ ref _)).trans
        (postQueue_frame fun c hc => ?_)
      cases hc
      exact hb
    · next t ht =>
      rw [ht] at hf
      exact hf

theorem channelRequest_frame (h : s.Coherent) {connection : ConnectionId}
    {message : ChannelMessage} (hr : s.channelRequest config ref connection message = some r) :
    Frame s r.1 := by
  cases message with
  | flow active =>
    cases hr
    exact flow_frame h ref active
  | consume queue method =>
    cases hr
    exact consume_frame config s ref connection queue method
  | ack =>
    cases hr
    exact ack_frame h ref
  | cancel tag sync nowait => exact cancel_frame h hr
  | destroy =>
    cases hr
    exact destroy_frame h ref

/-! ## Requests of queues -/

theorem foldl_forget (refs : List ConsumerRef) (s : Broker) :
    (refs.foldl forget s).queues = s.queues ∧ (refs.foldl forget s).store = s.store ∧
      (refs.foldl forget s).channels = s.channels ∧
      (refs.foldl forget s).nextConsumer = s.nextConsumer ∧
      ∀ id, ∀ ref ∈ ((refs.foldl forget s).connections id).consumerTable,
        ref ∈ (s.connections id).consumerTable := by
  induction refs generalizing s with
  | nil => exact ⟨rfl, rfl, rfl, rfl, fun _ _ hr => hr⟩
  | cons ref refs ih =>
    obtain ⟨hq, hs, hc, hn, ht⟩ := ih (s.forget ref)
    exact ⟨hq, hs, hc, hn, fun id r hr => mem_of_mem_erase (ht id r hr)⟩

/-- What is left behind by an operation of the queue `ref`. -/
structure Settled (s : Broker) (ref : QueueRef) (r : BasicQueue × Store × List Output)
    (s' : Broker) : Prop where
  basic : (s'.queues ref).basic = r.1
  inbox : (s'.queues ref).inbox = (s.queues ref).inbox
  locked : (s'.queues ref).locked =
    if cancelledOf r.2.2 = [] then (s.queues ref).locked else false
  feedOn : (s'.queues ref).feedOn =
    if cancelledOf r.2.2 = [] then (s.queues ref).feedOn else false
  others : ∀ ref', ref' ≠ ref → s'.queues ref' = s.queues ref'
  store : s'.store = r.2.1
  channels : s'.channels = s.channels
  nextConsumer : s'.nextConsumer = s.nextConsumer
  table : ∀ id, ∀ consumer ∈ (s'.connections id).consumerTable,
    consumer ∈ (s.connections id).consumerTable

theorem settle_settled (s : Broker) (ref : QueueRef) (r : BasicQueue × Store × List Output) :
    Settled s ref r (s.settle ref r).1 := by
  unfold settle
  cases hc : r.2.2.filterMap cancelled? with
  | nil =>
    have hnil : cancelledOf r.2.2 = [] := hc
    refine ⟨?_, ?_, ?_, ?_, fun _ h => setQueue_other h, rfl, rfl, rfl, fun _ _ hm => hm⟩ <;>
      simp only [setQueue_same, hnil, if_true]
  | cons consumer consumers =>
    have hcons : cancelledOf r.2.2 ≠ [] := by
      rw [cancelledOf, hc]
      exact cons_ne_nil _ _
    obtain ⟨hq, hs, hch, hn, ht⟩ := foldl_forget (consumer :: consumers)
      { s.setQueue ref { s.queues ref with basic := r.1, feedOn := false, locked := false } with
        store := r.2.1 }
    refine ⟨?_, ?_, ?_, ?_, fun ref' h => ?_, hs, hch, hn, ht⟩
    · simp only [hq, setQueue_same]
    · simp only [hq, setQueue_same]
    · simp only [hq, setQueue_same, if_neg hcons]
    · simp only [hq, setQueue_same, if_neg hcons]
    · simp only [hq]
      exact setQueue_other h

/-- An operation of a queue leaves consumers where they may be found. -/
theorem Coherent.settled (h : s.Coherent) {after : Option ConsumerRef}
    {r : BasicQueue × Store × List Output} (he : Effect ref (s.queues ref).basic s.store after r)
    (ha : ∀ consumer ∈ after, s.Belongs consumer ref) (hs : Settled s ref r s') : s'.Coherent := by
  have hbelongs : ∀ {consumer queue}, s.Belongs consumer queue → s'.Belongs consumer queue := by
    rintro consumer queue ⟨hq, hlt⟩
    refine ⟨?_, by rw [hs.nextConsumer]; exact hlt⟩
    rw [hs.store, he.onlyQueue.queue_eq]
    exact hq
  refine ⟨fun queue => ?_, fun queue c hc => ?_, fun queue m hm => ?_, fun queue c hst => ?_,
    fun channel c hc => ?_, fun id c hc => ?_, fun c hp => ?_⟩
  · by_cases hq : queue = ref
    · subst hq
      rw [hs.basic]
      exact he.ends.nodup (h.nodup queue)
    · rw [hs.others queue hq]
      exact h.nodup queue
  · by_cases hq : queue = ref
    · subst hq
      rw [hs.basic] at hc
      exact hbelongs (h.attached queue c (he.ends.mem hc))
    · rw [hs.others queue hq] at hc
      exact hbelongs (h.attached queue c hc)
  · have hinbox : (s'.queues queue).inbox = (s.queues queue).inbox := by
      by_cases hq : queue = ref
      · rw [hq, hs.inbox]
      · rw [hs.others queue hq]
    rw [hinbox] at hm
    exact fun c hc => hbelongs (h.inbox queue m hm c hc)
  · by_cases hq : queue = ref
    · subst hq
      rw [hs.basic] at hst
      rcases he.ends with ⟨hidle, -⟩ | ⟨hd, -⟩
      · rw [hidle] at hst
        cases hst
      · rw [hd] at hst
        cases hst
        exact hbelongs (ha c rfl)
    · rw [hs.others queue hq] at hst
      exact hbelongs (h.cancelling queue c hst)
  · rw [hs.channels] at hc
    rw [hs.nextConsumer]
    exact h.listed channel c hc
  · rw [hs.nextConsumer]
    exact h.table id c (hs.table id c hc)
  · rw [hs.store] at hp ⊢
    rw [he.onlyQueue.queue_eq]
    rcases he.pending c hp with hm | ⟨hn, hp'⟩
    · rw [(h.attached ref c (he.ends.mem hm)).1, hs.basic]
      exact hm
    · have hm := h.pending c hp'
      rw [hs.others]
      · exact hm
      · -- otherwise it would be on the list of this queue
        intro hq
        rw [hq] at hm
        exact hn hm

/-- The state when a queue has taken a request from its inbox. -/
def popQueue (s : Broker) (ref : QueueRef) (inbox : List QueueMessage) : Broker :=
  s.setQueue ref { s.queues ref with inbox }

theorem popQueue_same :
    (s.popQueue ref inbox).queues ref = { s.queues ref with inbox } := setQueue_same

theorem popQueue_other {ref' : QueueRef} (h : ref' ≠ ref) :
    (s.popQueue ref inbox).queues ref' = s.queues ref' := setQueue_other h

theorem popQueue_basic (s : Broker) (ref : QueueRef) (inbox : List QueueMessage)
    (ref' : QueueRef) : ((s.popQueue ref inbox).queues ref').basic = (s.queues ref').basic := by
  by_cases h : ref' = ref
  · rw [h, popQueue_same]
  · rw [popQueue_other h]

theorem popQueue_locked (s : Broker) (ref : QueueRef) (inbox : List QueueMessage)
    (ref' : QueueRef) : ((s.popQueue ref inbox).queues ref').locked = (s.queues ref').locked := by
  by_cases h : ref' = ref
  · rw [h, popQueue_same]
  · rw [popQueue_other h]

theorem popQueue_refusal (s : Broker) (ref : QueueRef) (inbox : List QueueMessage)
    (consumer : Consumer) :
      (s.popQueue ref inbox).refusal ref consumer = s.refusal ref consumer := by
  unfold refusal
  simp only [popQueue_same]
  rfl

theorem Coherent.popQueue (h : s.Coherent) (hi : (s.queues ref).inbox = message :: inbox) :
    (s.popQueue ref inbox).Coherent := by
  refine ⟨fun queue => ?_, fun queue c hc => ?_, fun queue m hm => ?_, fun queue c hst => ?_,
    h.listed, h.table, fun c hp => ?_⟩
  · rw [popQueue_basic]
    exact h.nodup queue
  · rw [popQueue_basic] at hc
    exact h.attached queue c hc
  · by_cases hq : queue = ref
    · subst hq
      rw [popQueue_same] at hm
      exact h.inbox queue m (hi ▸ mem_cons_of_mem _ hm)
    · rw [popQueue_other hq] at hm
      exact h.inbox queue m hm
  · rw [popQueue_basic] at hst
    exact h.cancelling queue c hst
  · rw [popQueue_basic]
    exact h.pending c hp

theorem queueConsume_cases (s : Broker) (ref : QueueRef) (consumerRef : ConsumerRef)
    (active nowait : Bool) :
    ((s.refusal ref (s.store.consumers consumerRef)).isSome = true ∧
      (s.queueConsume ref consumerRef active nowait).1 =
        s.postChannel (s.store.consumers consumerRef).channel
          (.cancel (s.store.consumers consumerRef).tag false true)) ∨
    (s.refusal ref (s.store.consumers consumerRef) = none ∧
      (s.queueConsume ref consumerRef active nowait).1 =
        (s.acceptConsumer ref consumerRef active).postQueue ref .dispatch) := by
  unfold queueConsume
  simp only
  cases hr : s.refusal ref (s.store.consumers consumerRef) with
  | some error => exact Or.inl ⟨rfl, rfl⟩
  | none => exact Or.inr ⟨rfl, rfl⟩

/-- A queue may accept a consumer that belongs to it. -/
theorem Coherent.acceptConsumer (h : s.Coherent) {consumer : ConsumerRef}
    (hb : s.Belongs consumer ref) (active : Bool) :
    (s.acceptConsumer ref consumer active).Coherent := by
  have hqueue : ∀ c, ((s.acceptConsumer ref consumer active).store.consumers c).queue =
      (s.store.consumers c).queue := by
    intro c
    by_cases hc : c = consumer
    · subst hc
      simp [Broker.acceptConsumer, Store.setConsumer]
    · simp [Broker.acceptConsumer, Store.setConsumer, hc]
  have hbelongs : ∀ {c queue}, s.Belongs c queue →
      (s.acceptConsumer ref consumer active).Belongs c queue :=
    fun hc => ⟨(hqueue _).trans hc.1, hc.2⟩
  refine ⟨fun queue => ?_, fun queue c hc => ?_, fun queue m hm => ?_, fun queue c hst => ?_,
    h.listed, h.table, fun c hp => ?_⟩
  · rw [Broker.acceptConsumer]
    by_cases hq : queue = ref
    · subst hq
      simp only [setQueue_same]
      exact BasicQueue.consume_nodup (h.nodup queue) consumer
    · simp only [setQueue_other hq]
      exact h.nodup queue
  · by_cases hq : queue = ref
    · subst hq
      rw [Broker.acceptConsumer] at hc
      simp only [setQueue_same] at hc
      rcases BasicQueue.mem_consume.mp hc with hc | rfl
      · exact hbelongs (h.attached queue c hc)
      · exact hbelongs hb
    · rw [Broker.acceptConsumer] at hc
      simp only [setQueue_other hq] at hc
      exact hbelongs (h.attached queue c hc)
  · rw [Broker.acceptConsumer] at hm
    by_cases hq : queue = ref
    · subst hq
      simp only [setQueue_same] at hm
      exact fun c hc => hbelongs (h.inbox queue m hm c hc)
    · simp only [setQueue_other hq] at hm
      exact fun c hc => hbelongs (h.inbox queue m hm c hc)
  · rw [Broker.acceptConsumer] at hst
    by_cases hq : queue = ref
    · subst hq
      simp only [setQueue_same] at hst
      exact hbelongs (h.cancelling queue c hst)
    · simp only [setQueue_other hq] at hst
      exact hbelongs (h.cancelling queue c hst)
  · have hpending : ((s.acceptConsumer ref consumer active).store.consumers c).pendingContent =
        (s.store.consumers c).pendingContent := by
      rw [Broker.acceptConsumer, Store.setConsumer_pendingContent]
      split
      · next he => rw [he]
      · rfl
    rw [hpending] at hp
    have hm := h.pending c hp
    rw [hqueue, Broker.acceptConsumer]
    by_cases hq : (s.store.consumers c).queue = ref
    · simp only [hq, setQueue_same]
      exact BasicQueue.mem_consume.mpr (Or.inl (hq ▸ hm))
    · simp only [setQueue_other hq]
      exact hm

theorem queueRequest_cases (hr : s.queueRequest ref message = some r) :
    (∃ consumer active nowait, message = .consume consumer active nowait ∧
      r.1 = (s.queueConsume ref consumer active nowait).1) ∨
    (∃ o, message.operation (s.queues ref).basic s.store = some o ∧ r.1 = (s.settle ref o).1) := by
  cases message with
  | publish channel content immediate | dispatch =>
    cases hr
    exact Or.inr ⟨_, rfl, rfl⟩
  | consume consumer active nowait =>
    cases hr
    exact Or.inl ⟨consumer, active, nowait, rfl, rfl⟩
  | cancel consumer notify nowait =>
    simp only [queueRequest, queueCancel] at hr
    split at hr
    · cases hr
    · cases hr
      exact Or.inr ⟨_, rfl, rfl⟩
  | consumerAck consumer =>
    cases hr
    exact Or.inr ⟨_, rfl, rfl⟩

/-! ## Steps -/

/-- What a step does, by the kind of step. -/
inductive Move (config : Config) (s : Broker) : BrokerEvent → Broker → Prop
  /-- a step of a client or of a channel -/
  | frame {event : BrokerEvent} {s' : Broker}
      (hne : ∀ ref, event ≠ .queueStep ref ∧ event ≠ .turn ref) (hf : Frame s s') :
      Move config s event s'
  /-- a queue refuses a consumer, which is for its channel to cancel -/
  | refuse {ref : QueueRef} {consumer : ConsumerRef} {active nowait : Bool}
      {inbox : List QueueMessage} {s' : Broker}
      (hi : (s.queues ref).inbox = .consume consumer active nowait :: inbox)
      (hr : (s.refusal ref (s.store.consumers consumer)).isSome = true)
      (hs : s' = (s.popQueue ref inbox).postChannel (s.store.consumers consumer).channel
        (.cancel (s.store.consumers consumer).tag false true)) :
      Move config s (.queueStep ref) s'
  /-- a queue accepts a consumer, and is to dispatch -/
  | accept {ref : QueueRef} {consumer : ConsumerRef} {active nowait : Bool}
      {inbox : List QueueMessage} {s' : Broker} (hidle : (s.queues ref).basic.state = .idle)
      (hi : (s.queues ref).inbox = .consume consumer active nowait :: inbox)
      (hr : s.refusal ref (s.store.consumers consumer) = none)
      (hs : s' = ((s.popQueue ref inbox).acceptConsumer ref consumer active).postQueue ref
        .dispatch) :
      Move config s (.queueStep ref) s'
  /-- a queue works off any other request -/
  | operate {ref : QueueRef} {message : QueueMessage} {inbox : List QueueMessage}
      {o : BasicQueue × Store × List Output} {s' : Broker}
      (hidle : (s.queues ref).basic.state = .idle)
      (hi : (s.queues ref).inbox = message :: inbox)
      (ho : message.operation ((s.popQueue ref inbox).queues ref).basic s.store = some o)
      (heff : Effect ref ((s.popQueue ref inbox).queues ref).basic s.store message.cancels o)
      (hs : Settled (s.popQueue ref inbox) ref o s') : Move config s (.queueStep ref) s'
  /-- a queue makes a turn of its dispatch -/
  | turn {ref : QueueRef} {after : Option ConsumerRef} {s' : Broker}
      (hst : (s.queues ref).basic.state = .dispatching after)
      (heff : Effect ref (s.queues ref).basic s.store after
        ((s.queues ref).basic.turn config s.store after))
      (hs : Settled s ref ((s.queues ref).basic.turn config s.store after) s') :
      Move config s (.turn ref) s'

theorem queueRequest_move (h : s.Coherent) (hidle : (s.queues ref).basic.state = .idle)
    (hi : (s.queues ref).inbox = message :: inbox)
    (hr : (s.popQueue ref inbox).queueRequest ref message = some r) :
    Move config s (.queueStep ref) r.1 := by
  have hb : ∀ consumer ∈ message.consumer?, (s.store.consumers consumer).queue = ref :=
    fun consumer hc => (h.inbox ref message (hi ▸ mem_cons_self) consumer hc).1
  have hidle' : ((s.popQueue ref inbox).queues ref).basic.state = .idle := by
    rw [popQueue_basic]
    exact hidle
  rcases queueRequest_cases hr with ⟨consumer, active, nowait, rfl, hc⟩ | ⟨o, ho, hc⟩
  · rcases queueConsume_cases (s.popQueue ref inbox) ref consumer active nowait with
      ⟨href, hq⟩ | ⟨hnone, hq⟩
    · rw [popQueue_refusal] at href
      exact .refuse hi href (hc.trans hq)
    · rw [popQueue_refusal] at hnone
      exact .accept hidle hi hnone (hc.trans hq)
  · exact .operate hidle hi ho (operation_effect hidle' hb ho) (hc ▸ settle_settled _ ref o)

/-- Each step is a move of its kind. -/
theorem move_of_step (h : s.Coherent) {event : BrokerEvent} (hs : s.step config event = some r) :
    Move config s event r.1 := by
  cases event with
  | request channel request =>
    cases hs
    exact .frame (by simp) (postChannel_frame s channel request.message)
  | close channel =>
    cases hs
    exact .frame (by simp) (close_frame s channel)
  | earn channel =>
    cases hs
    exact .frame (by simp) (earn_frame h channel)
  | publish queue channel content immediate =>
    cases hs
    exact .frame (by simp) (postQueue_frame fun _ hc => by cases hc)
  | channelStep ref =>
    simp only [step] at hs
    split at hs
    · next connection message inbox _ hi =>
      have hpop : Frame s (s.setServerChannel ref { s.channels ref with inbox }) :=
        setServerChannel_frame fun _ hc => Or.inl hc
      exact .frame (by simp) (hpop.trans (channelRequest_frame (h.frame hpop) hs))
    · cases hs
  | queueStep ref =>
    simp only [step] at hs
    split at hs
    · next message inbox hidle hi => exact queueRequest_move h hidle hi hs
    · cases hs
  | turn ref =>
    simp only [step] at hs
    split at hs
    · cases hs
    · next after hst =>
      cases hs
      refine .turn hst (turn_effect hst (fun c hc => ?_) fun c hc => ?_) (settle_settled s ref _)
      · exact (h.cancelling ref c (by rw [hst, Option.mem_def.mp hc])).1
      · exact (h.attached ref c hc).1

/-- Consumers are found after a step where they may be found. -/
theorem Coherent.step (h : s.Coherent) {event : BrokerEvent} (hs : s.step config event = some r) :
    r.1.Coherent := by
  cases move_of_step h hs with
  | frame hne hf => exact h.frame hf
  | refuse hi hr hs =>
    rw [hs]
    exact (h.popQueue hi).frame (postChannel_frame _ _ _)
  | @accept ref consumer active nowait inbox _ hidle hi hr hs =>
    have hb : (s.popQueue ref inbox).Belongs consumer ref :=
      h.inbox ref _ (hi ▸ mem_cons_self) consumer rfl
    rw [hs]
    exact ((h.popQueue hi).acceptConsumer hb active).frame (postDispatch_frame _ ref)
  | @operate ref message inbox o _ hidle hi ho heff hs =>
    refine (h.popQueue hi).settled heff (fun c hc => ?_) hs
    exact h.inbox ref message (hi ▸ mem_cons_self) c (QueueMessage.consumer?_of_cancels hc)
  | @turn ref after _ hst heff hs =>
    exact h.settled heff (fun c hc => h.cancelling ref c (by rw [hst, Option.mem_def.mp hc])) hs

/-- A broker before its first step: no consumers, and no requests. -/
structure Fresh (s : Broker) : Prop where
  consumerList : ∀ ref, (s.queues ref).basic.consumerList = []
  state : ∀ ref, (s.queues ref).basic.state = .idle
  inbox : ∀ ref, (s.queues ref).inbox = []
  listed : ∀ ref, (s.channels ref).consumerList = []
  table : ∀ id, (s.connections id).consumerTable = []
  pending : ∀ ref, (s.store.consumers ref).pendingContent = none

theorem Fresh.coherent (h : s.Fresh) : s.Coherent where
  nodup := fun queue => by
    rw [h.consumerList]
    exact nodup_nil
  attached := fun queue c hc => by
    rw [h.consumerList] at hc
    cases hc
  inbox := fun queue m hm => by
    rw [h.inbox] at hm
    cases hm
  cancelling := fun queue c hst => by
    rw [h.state] at hst
    cases hst
  listed := fun channel c hc => by
    rw [h.listed] at hc
    cases hc
  table := fun id c hc => by
    rw [h.table] at hc
    cases hc
  pending := fun c hp => absurd (h.pending c) hp

/-- Queues without consumers, and channels that each have a connection of their own. -/
def unused : Broker where
  store := ⟨fun _ => { channel := 0 }, fun ref => { connection := some ref }⟩
  queues _ := {}

theorem unused_fresh : unused.Fresh :=
  ⟨fun _ => rfl, fun _ => rfl, fun _ => rfl, fun _ => rfl, fun _ => rfl, fun _ => rfl⟩

/-! ## Runs -/

/-- The state after a run, and the replies of all its steps. -/
def outcome (config : Config) (s : Broker) (events : List BrokerEvent) :
    Option (Broker × List Reply) := Lib.run (Lib.logged (step config)) (s, []) events

/-- Every step of a run meets `ok` in the state before it. -/
def Throughout (config : Config) (ok : Broker → BrokerEvent → Prop) (s : Broker)
    (events : List BrokerEvent) : Prop :=
  Lib.Along (Lib.logged (step config)) (fun t event => ok t.1 event) (s, []) events

instance (config : Config) (ok : Broker → BrokerEvent → Prop)
    [∀ s event, Decidable (ok s event)] (s : Broker) (events : List BrokerEvent) :
    Decidable (Throughout config ok s events) :=
  inferInstanceAs (Decidable (Lib.Along (Lib.logged (step config))
    (fun t event => ok t.1 event) (s, []) events))

/-- What the steps of a coherent broker keep is kept in a whole run. -/
theorem invariant_of_step {ok : Broker → BrokerEvent → Prop} {I : Broker → Prop}
    (hstep : ∀ s event r, s.Coherent → I s → ok s event → s.step config event = some r → I r.1)
    {s s' : Broker} {log : List Reply} {events : List BrokerEvent} (h : s.Coherent) (hI : I s)
    (hok : s.Throughout config ok events) (hrun : s.outcome config events = some (s', log)) :
    s'.Coherent ∧ I s' := by
  let J (t : Broker × List Reply) : Prop := t.1.Coherent ∧ I t.1
  have hJ : ∀ t event t', J t → ok t.1 event →
      Lib.logged (Broker.step config) t event = some t' → J t' := by
    intro t event t' ht hok' hlogged
    obtain ⟨replies, hs, -⟩ := Lib.logged_eq_some hlogged
    have hcoherent := ht.1.step hs
    exact ⟨hcoherent, hstep t.1 event (t'.1, replies) ht.1 ht.2 hok' hs⟩
  have hstart : J (s, []) := ⟨h, hI⟩
  exact Lib.run_invariant hJ hstart hok hrun

/-- In every run a consumer is attached once, and only to the queue it has been made for. Requests
name consumers of the queue that they are for, and only attached consumers are handed contents. -/
theorem coherent_run {log : List Reply} {events : List BrokerEvent} (hfresh : s.Fresh)
    (hrun : s.outcome config events = some (s', log)) : s'.Coherent :=
  (@invariant_of_step _ (fun _ _ => True) (fun _ => True) (fun _ _ _ _ _ _ _ => trivial) _ _ _ _
    hfresh.coherent trivial (Lib.along_of_forall (fun _ _ _ => trivial) _) hrun).1

def consumed : List BrokerEvent := [.request 1 (.consume 0 {}), .channelStep 1, .queueStep 0]

theorem coherent_run_consumed : ∃ s' log, unused.outcome {} consumed = some (s', log) ∧
    s'.Coherent :=
  ⟨_, _, rfl, @coherent_run _ _ _ _ consumed unused_fresh rfl⟩

end Broker

end OpenAmq
