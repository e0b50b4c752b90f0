import Mathlib.Logic.Relation
import OpenAmq.Broker.AutoDelete

/-!
# Changes of the broker

A step of a thread changes several objects, one after the other. What each change of an object
leaves as it is, every step leaves as it is.

* `Broker.Change`, `Broker.Changes` — a change of one object, and any number of them
* `Broker.step_changes`, `AutoDelete.step_changes` — all steps are made of them
* `Broker.Changes.tagged` — a tag is not used twice in a connection
-/

namespace OpenAmq

open List Function

/-- The queue is as exclusive as before, and to the same connection. -/
structure ServerQueue.SameOwner (queue queue' : ServerQueue) : Prop where
  connection : queue'.connection = queue.connection
  exclusive : queue'.basic.exclusive = queue.basic.exclusive

theorem ServerQueue.SameOwner.refl (queue : ServerQueue) : queue.SameOwner queue := ⟨rfl, rfl⟩

theorem ServerQueue.SameOwner.trans {q1 q2 q3 : ServerQueue} (h1 : q1.SameOwner q2)
    (h2 : q2.SameOwner q3) : q1.SameOwner q3 :=
  ⟨h2.connection.trans h1.connection, h2.exclusive.trans h1.exclusive⟩

/-! ## Operations of a queue -/

/-- Consumers keep their tags. -/
def Store.SameTags (store store' : Store) : Prop :=
  ∀ ref, (store'.consumers ref).tag = (store.consumers ref).tag

theorem Store.SameTags.refl (store : Store) : store.SameTags store := fun _ => rfl

theorem Store.setConsumer_sameTags {store : Store} {ref : ConsumerRef} {consumer : Consumer}
    (h : consumer.tag = (store.consumers ref).tag) :
    store.SameTags (store.setConsumer ref consumer) := by
  intro ref'
  unfold setConsumer
  by_cases he : ref' = ref
  · subst he
    simp only [update_self, h]
  · simp only [update_of_ne he]

theorem Store.setPending_sameTags (store : Store) (ref : ConsumerRef)
    (content : Option Content) : store.SameTags (store.setPending ref content) :=
  setConsumer_sameTags rfl

/-- What operations of `amq_queue_basic` leave as it is. -/
structure BasicQueue.Keeps (queue : BasicQueue) (store : Store)
    (r : BasicQueue × Store × List Output) : Prop where
  exclusive : r.1.exclusive = queue.exclusive
  tags : store.SameTags r.2.1

variable (config : Config)

namespace BasicQueue

variable (self : BasicQueue)

theorem finish_keeps (store : Store) (after : Option ConsumerRef) :
    self.Keeps store (self.finish store after) := by
  cases after with
  | none => exact ⟨rfl, .refl store⟩
  | some consumer => exact ⟨rfl, store.setPending_sameTags consumer none⟩

theorem dispatch_keeps (store : Store) (after : Option ConsumerRef) :
    self.Keeps store (self.dispatch store after) := by
  rcases self.dispatch_cases store after with h | h <;> rw [h]
  · exact ⟨rfl, .refl store⟩
  · exact self.finish_keeps store after

theorem deliver_keeps (store : Store) (content : Content)
    (consumer : ConsumerRef) : self.Keeps store (self.deliver config store content consumer) := by
  refine ⟨rfl, fun ref => ?_⟩
  unfold deliver
  simp only
  split
  · rw [Store.setPending_sameTags, Store.spend_consumers]
  · rw [Store.spend_consumers]

theorem turn_keeps (store : Store) (after : Option ConsumerRef) :
    self.Keeps store (self.turn config store after) := by
  rcases self.turn_cases config store after with h | ⟨content, _, -, ⟨consumer, -, h⟩ | h⟩ <;>
    rw [h]
  · exact self.finish_keeps store after
  · have hpop := deliver_keeps config self.pop store content consumer
    exact ⟨hpop.exclusive, hpop.tags⟩
  · exact ⟨rfl, .refl store⟩

end BasicQueue

theorem operation_keeps {queue : BasicQueue} {store : Store} {message : QueueMessage}
    {r : BasicQueue × Store × List Output} (ho : message.operation queue store = some r) :
    queue.Keeps store r := by
  cases message with
  | publish channel content immediate =>
    cases ho
    have hd := (queue.receive store channel content immediate).1.dispatch_keeps store none
    have hsame := queue.receive_same store channel content immediate
    exact ⟨hd.exclusive.trans hsame.exclusive, hd.tags⟩
  | dispatch =>
    cases ho
    exact queue.dispatch_keeps store none
  | consume consumer active nowait => cases ho
  | cancel consumer notify nowait =>
    cases ho
    cases hp : (store.consumers consumer).pendingContent with
    | none =>
      rw [BasicQueue.cancel_of_none hp]
      exact queue.finish_keeps store _
    | some content =>
      rw [BasicQueue.cancel_of_some hp]
      have hd := (queue.push content).dispatch_keeps store (some consumer)
      exact ⟨hd.exclusive, hd.tags⟩
  | consumerAck consumer =>
    cases ho
    cases hp : (store.consumers consumer).pendingContent with
    | none =>
      rw [BasicQueue.consumerAck_of_none hp]
      exact ⟨rfl, .refl store⟩
    | some content =>
      rw [BasicQueue.consumerAck_of_some hp]
      have hd := queue.dispatch_keeps (store.setPending consumer none) none
      have hset := store.setPending_sameTags consumer none
      exact ⟨hd.exclusive, fun ref => (hd.tags ref).trans (hset ref)⟩

namespace Broker

inductive Change : Broker → Broker → Prop
  | queue (s : Broker) {ref : QueueRef} {queue : ServerQueue}
      (h : (s.queues ref).SameOwner queue) : Change s (s.setQueue ref queue)
  | channel (s : Broker) (ref : ChannelRef) (channel : ServerChannel) :
      Change s (s.setServerChannel ref channel)
  | store (s : Broker) {store : Store} (h : s.store.SameTags store) : Change s { s with store }
  | forget (s : Broker) (ref : ConsumerRef) : Change s (s.forget ref)
  | newConsumer (s : Broker) (connection : ConnectionId) (channel : ChannelRef)
      (queue : QueueRef) (method : ConsumeMethod) :
      Change s (s.newConsumer connection channel queue method).1

/-- Some changes, one after the other. -/
abbrev Changes : Broker → Broker → Prop := Relation.ReflTransGen Change

variable {s s' : Broker} {ref : QueueRef} {r : Broker × List Reply}

theorem setQueue_changes (s : Broker) {queue : ServerQueue} (h : (s.queues ref).SameOwner queue) :
    s.Changes (s.setQueue ref queue) :=
  .single (.queue s h)

theorem setFeed_changes (s : Broker) (ref : QueueRef) (feedOn : Bool) :
    s.Changes (s.setQueue ref { s.queues ref with feedOn }) :=
  s.setQueue_changes ⟨rfl, rfl⟩

theorem popQueue_changes (s : Broker) (ref : QueueRef) (inbox : List QueueMessage) :
    s.Changes (s.popQueue ref inbox) :=
  s.setQueue_changes ⟨rfl, rfl⟩

theorem setChannel_changes (s : Broker) (ref : ChannelRef) (channel : Channel) :
    s.Changes { s with store := s.store.setChannel ref channel } :=
  .single (.store s fun _ => rfl)

theorem postQueue_changes (s : Broker) (ref : QueueRef) (message : QueueMessage) :
    s.Changes (s.postQueue ref message) :=
  s.setQueue_changes ⟨rfl, rfl⟩

theorem postChannel_changes (s : Broker) (ref : ChannelRef) (message : ChannelMessage) :
    s.Changes (s.postChannel ref message) := by
  unfold postChannel
  split
  · exact .refl
  · exact .single (.channel s ref _)

theorem foldl_changes {α : Type*} {f : Broker → α → Broker}
    (hf : ∀ (s : Broker) x, s.Changes (f s x)) (xs : List α) (s : Broker) :
    s.Changes (xs.foldl f s) := by
  induction xs generalizing s with
  | nil => exact .refl
  | cons x xs ih => exact (hf s x).trans (ih (f s x))

/-! ## Requests of channels -/

theorem setPaused_changes (s : Broker) (ref : ConsumerRef) (paused : Bool) : s.Changes { s with
      store := s.store.setConsumer ref { s.store.consumers ref with paused } } :=
  .single (.store s (Store.setConsumer_sameTags rfl))

theorem flowConsumer_changes (active : Bool) (s : Broker) (ref : ConsumerRef) :
    s.Changes (flowConsumer active s ref) := by
  have hfeed := (s.setPaused_changes ref !active).trans (setFeed_changes _
    (s.store.consumers ref).queue active)
  unfold flowConsumer
  split
  · exact hfeed.trans (postQueue_changes _ _ _)
  · exact hfeed

theorem consume_changes (s : Broker) (ref : ChannelRef) (connection : ConnectionId)
    (queue : QueueRef) (method : ConsumeMethod) :
    s.Changes (s.consume config ref connection queue method).1 := by
  have hnew : s.Changes (s.newConsumer connection ref queue method).1 :=
    .single (.newConsumer s connection ref queue method)
  unfold consume
  simp only
  split
  · split <;> exact .refl
  · split
    · next created consumer heq =>
      rw [heq] at hnew
      refine Relation.ReflTransGen.trans ?_ (postQueue_changes _ queue _)
      refine Relation.ReflTransGen.trans ?_ (setChannel_changes _ ref _)
      exact hnew.tail (.channel created ref _)
    · next created heq =>
      rw [heq] at hnew
      exact hnew

theorem cancel_changes {ref : ChannelRef} {connection : ConnectionId} {tag : Shortstr}
    {sync nowait : Bool} (h : s.cancel ref connection tag sync nowait = some r) :
    s.Changes r.1 := by
  unfold cancel at h
  split at h
  · next consumer _ =>
    have hremove : s.Changes (s.byChannelRemove consumer) := .single (.channel s _ _)
    simp only at h
    split at h
    · cases h
      exact hremove.trans (postQueue_changes _ _ _)
    · split at h
      · cases h
      · cases h
        refine (hremove.tail (.forget _ consumer)).tail (.store _ ?_)
        exact Store.setPending_sameTags _ consumer none
  · cases h
    exact .refl

theorem channelRequest_changes {config : Config} {ref : ChannelRef} {connection : ConnectionId}
    {message : ChannelMessage} (h : s.channelRequest config ref connection message = some r) :
    s.Changes r.1 := by
  cases message with
  | flow active =>
    cases h
    exact (s.setChannel_changes ref _).trans (foldl_changes (flowConsumer_changes active) _ _)
  | consume queue method =>
    cases h
    exact consume_changes config s ref connection queue method
  | ack =>
    cases h
    exact foldl_changes (fun s consumer => postQueue_changes s _ _) _ s
  | cancel tag sync nowait => exact cancel_changes h
  | destroy =>
    cases h
    have hclear : s.Changes (s.setServerChannel ref {}) := .single (.channel s ref {})
    exact (hclear.trans (setChannel_changes _ ref _)).trans
      (foldl_changes (fun s consumer => postQueue_changes s _ _) _ _)

theorem earn_changes (s : Broker) (ref : ChannelRef) : s.Changes (s.earn ref) := by
  unfold earn
  simp only
  split
  · exact .refl
  · split
    · exact (s.setChannel_changes ref _).trans
        (foldl_changes (fun s consumer => postQueue_changes s _ _) _ _)
    · exact s.setChannel_changes ref _

theorem close_changes (s : Broker) (ref : ChannelRef) : s.Changes (s.close ref) := by
  unfold close
  split
  · exact .refl
  · exact (s.postChannel_changes ref .destroy).trans (setChannel_changes _ ref _)

/-! ## Requests of queues -/

theorem settle_changes {r : BasicQueue × Store × List Output}
    (h : (s.queues ref).basic.Keeps s.store r) : s.Changes (s.settle ref r).1 := by
  unfold settle
  split
  · have hset : s.Changes (s.setQueue ref { s.queues ref with basic := r.1 }) :=
      s.setQueue_changes ⟨rfl, h.exclusive⟩
    exact hset.tail (.store _ h.tags)
  · have hset : s.Changes (s.setQueue ref
        { s.queues ref with basic := r.1, feedOn := false, locked := false }) :=
      s.setQueue_changes ⟨rfl, h.exclusive⟩
    exact (hset.tail (.store _ h.tags)).trans
      (foldl_changes (fun s consumer => .single (.forget s consumer)) _ _)

theorem acceptConsumer_changes (s : Broker) (ref : QueueRef) (consumerRef : ConsumerRef)
    (active : Bool) : s.Changes (s.acceptConsumer ref consumerRef active) := by
  have hset : s.Changes (s.setQueue ref { s.queues ref with
      basic := ((s.queues ref).basic.consume consumerRef).1
      locked := (s.queues ref).locked || (s.store.consumers consumerRef).exclusive
      feedOn := active
      feedNoLocal := (s.store.consumers consumerRef).noLocal }) :=
    s.setQueue_changes ⟨rfl, rfl⟩
  exact hset.trans (setPaused_changes _ consumerRef !active)

theorem queueConsume_changes (s : Broker) (ref : QueueRef) (consumer : ConsumerRef)
    (active nowait : Bool) : s.Changes (s.queueConsume ref consumer active nowait).1 := by
  rcases s.queueConsume_cases ref consumer active nowait with ⟨-, h⟩ | ⟨-, h⟩ <;> rw [h]
  · exact s.postChannel_changes _ _
  · exact (s.acceptConsumer_changes ref consumer active).trans (postQueue_changes _ ref _)

theorem queueRequest_changes {message : QueueMessage} (h : s.queueRequest ref message = some r) :
    s.Changes r.1 := by
  rcases queueRequest_cases h with ⟨consumer, active, nowait, -, hr⟩ | ⟨o, ho, hr⟩ <;> rw [hr]
  · exact s.queueConsume_changes ref consumer active nowait
  · exact settle_changes (operation_keeps ho)

/-! ## Steps -/

/-- Whatever a step does to consumers, queues and channels is one of these changes. -/
theorem step_changes {config : Config} {event : BrokerEvent} (h : s.step config event = some r) :
    s.Changes r.1 := by
  cases event with
  | request channel request =>
    cases h
    exact s.postChannel_changes channel _
  | close channel =>
    cases h
    exact s.close_changes channel
  | earn channel =>
    cases h
    exact s.earn_changes channel
  | publish queue channel content immediate =>
    cases h
    exact s.postQueue_changes queue _
  | channelStep channel =>
    simp only [step] at h
    split at h
    · next connection message inbox _ _ =>
      have hpop : s.Changes (s.setServerChannel channel { s.channels channel with inbox }) :=
        .single (.channel s channel _)
      exact hpop.trans (channelRequest_changes h)
    · cases h
  | queueStep queue =>
    simp only [step] at h
    split at h
    · next message inbox _ _ =>
      exact (s.popQueue_changes queue inbox).trans (queueRequest_changes h)
    · cases h
  | turn queue =>
    simp only [step] at h
    split at h
    · cases h
    · cases h
      exact settle_changes (BasicQueue.turn_keeps _ _ _ _)

theorem stopConsumer_changes (s : Broker) (ref : ConsumerRef) : s.Changes (s.stopConsumer ref) := by
  have hpost := s.postChannel_changes (s.store.consumers ref).channel
    (.cancel (s.store.consumers ref).tag false true)
  exact (hpost.tail (.forget _ ref)).tail (.store _ (Store.setPending_sameTags _ ref none))

theorem stop_changes (s : Broker) (ref : QueueRef) : s.Changes (s.stop ref) := by
  have hset : s.Changes (s.setQueue ref { s.queues ref with
      basic := { (s.queues ref).basic with consumerList := [] } }) :=
    s.setQueue_changes ⟨rfl, rfl⟩
  exact hset.trans (foldl_changes stopConsumer_changes _ _)

end Broker

/-- What is true of the broker's steps is true with timers beside it. -/
theorem AutoDelete.step_changes {config : Config} {timeout : Nat} {s : AutoDelete}
    {event : AutoDeleteEvent} {r : AutoDelete × List (Bool × ConsumerRef)}
    (h : s.step config timeout event = some r) : s.broker.Changes r.1.broker := by
  cases event with
  | broker event =>
    simp only [step] at h
    split at h
    · next ready broker replies _ hb =>
      cases h
      rw [foldl_handle_broker]
      exact Broker.step_changes hb
    · cases h
  | autoDelete ref =>
    simp only [step] at h
    split at h
    · cases h
      split <;> exact .refl
    · cases h
  | delete ref =>
    cases h
    exact .refl
  | selfDestruct ref =>
    simp only [step] at h
    split at h
    · cases h
      exact s.broker.stop_changes ref
    · cases h

namespace Broker

variable {s s' : Broker}

/-! ## Owners -/

def SameOwners (s s' : Broker) : Prop := ∀ ref, (s.queues ref).SameOwner (s'.queues ref)

theorem SameOwners.of_queues (h : s'.queues = s.queues) : s.SameOwners s' := by
  intro ref
  rw [h]
  exact .refl (s.queues ref)

theorem newConsumer_queues (s : Broker) (connection : ConnectionId) (channel : ChannelRef)
    (queue : QueueRef) (method : ConsumeMethod) :
    (s.newConsumer connection channel queue method).1.queues = s.queues := by
  unfold newConsumer
  simp only
  split <;> rfl

theorem Change.sameOwners (h : Change s s') : s.SameOwners s' := by
  cases h with
  | @queue ref queue hsame =>
    intro ref'
    by_cases hq : ref' = ref
    · subst hq
      rw [setQueue_same]
      exact hsame
    · rw [setQueue_other hq]
      exact .refl _
  | channel ref channel | store h | forget ref => exact .of_queues rfl
  | newConsumer connection channel queue method =>
    exact .of_queues (s.newConsumer_queues connection channel queue method)

theorem Changes.sameOwners (h : s.Changes s') : s.SameOwners s' := by
  induction h with
  | refl => exact .of_queues rfl
  | tail _ hlast ih => exact fun ref => (ih ref).trans (hlast.sameOwners ref)

/-! ## Tags -/

def tags (self : Broker) (connection : ConnectionId) : List Shortstr :=
  (self.connections connection).consumerTable.map fun ref => (self.store.consumers ref).tag

/-- The consumers of a connection have been created, and their tags differ. -/
structure Tagged (s : Broker) : Prop where
  lt : ∀ connection, ∀ ref ∈ (s.connections connection).consumerTable, ref < s.nextConsumer
  nodup : ∀ connection, (s.tags connection).Nodup

theorem Tagged.of_sublist (h : s.Tagged) (hn : s'.nextConsumer = s.nextConsumer)
    (ht : s.store.SameTags s'.store)
    (hc : ∀ connection, ((s'.connections connection).consumerTable).Sublist
      (s.connections connection).consumerTable) : s'.Tagged where
  lt := fun connection ref hm => by
    rw [hn]
    exact h.lt connection ref ((hc connection).subset hm)
  nodup := fun connection => by
    unfold tags
    simp only [ht _]
    exact ((hc connection).map _).nodup (h.nodup connection)

theorem searchConsumer_eq_none {connection : ConnectionId} {tag : Shortstr} :
    s.searchConsumer connection tag = none ↔ tag ∉ s.tags connection := by
  unfold searchConsumer tags
  rw [find?_eq_none, mem_map]
  simp only [decide_eq_true_eq, not_exists, not_and]

def newTag (self : Broker) (connection : ConnectionId) (method : ConsumeMethod) : Shortstr :=
  (takeTag (self.connections connection) method.consumerTag).2

section NewConsumer

variable {connection : ConnectionId} {channel : ChannelRef} {queue : QueueRef}
  {method : ConsumeMethod}

theorem newConsumer_of_mem (h : s.newTag connection method ∈ s.tags connection) :
    s.newConsumer connection channel queue method =
      (s.setConnection connection (takeTag (s.connections connection) method.consumerTag).1,
        none) := by
  unfold newConsumer
  simp only
  rw [if_pos]
  rw [Option.isSome_iff_ne_none]
  exact fun hnone => searchConsumer_eq_none.mp hnone h

theorem newConsumer_of_notMem (h : s.newTag connection method ∉ s.tags connection) :
    s.newConsumer connection channel queue method =
      (s.addConsumer connection (takeTag (s.connections connection) method.consumerTag).1
          { channel, queue, tag := s.newTag connection method, noLocal := method.noLocal,
            noAck := method.noAck, exclusive := method.exclusive },
        some s.nextConsumer) := by
  unfold newConsumer
  simp only
  rw [if_neg]
  · rfl
  · rw [Option.not_isSome_iff_eq_none]
    exact searchConsumer_eq_none.mpr h

end NewConsumer

theorem addConsumer_tags (h : s.Tagged) {connection : ConnectionId} {parent : ServerConnection}
    (hp : parent.consumerTable = (s.connections connection).consumerTable) (consumer : Consumer) :
    (s.addConsumer connection parent consumer).tags connection =
      s.tags connection ++ [consumer.tag] := by
  unfold tags addConsumer setConnection Store.setConsumer
  simp only [update_self, hp, map_append, map_cons, map_nil]
  congr 1
  refine map_congr_left fun ref hm => ?_
  rw [update_of_ne (Nat.ne_of_lt (h.lt connection ref hm))]

theorem addConsumer_tags_other (h : s.Tagged) {connection c : ConnectionId} (hc : c ≠ connection)
    (parent : ServerConnection) (consumer : Consumer) :
    (s.addConsumer connection parent consumer).tags c = s.tags c := by
  unfold tags addConsumer setConnection Store.setConsumer
  simp only [update_of_ne hc]
  refine map_congr_left fun ref hm => ?_
  rw [update_of_ne (Nat.ne_of_lt (h.lt c ref hm))]

theorem Tagged.addConsumer (h : s.Tagged) {connection : ConnectionId} {parent : ServerConnection}
    (hp : parent.consumerTable = (s.connections connection).consumerTable) {consumer : Consumer}
    (hnew : consumer.tag ∉ s.tags connection) :
    (s.addConsumer connection parent consumer).Tagged where
  lt := fun c ref hm => by
    change ref ∈ (update s.connections connection _ c).consumerTable at hm
    by_cases hc : c = connection
    · rw [hc, update_self] at hm
      rcases mem_append.mp hm with hm | hm
      · exact Nat.lt_succ_of_lt (h.lt connection ref (hp ▸ hm))
      · exact Nat.lt_succ_of_le (Nat.le_of_eq (mem_singleton.mp hm))
    · rw [update_of_ne hc] at hm
      exact Nat.lt_succ_of_lt (h.lt c ref hm)
  nodup := fun c => by
    by_cases hc : c = connection
    · subst hc
      rw [addConsumer_tags h hp]
      refine nodup_append.mpr ⟨h.nodup c, nodup_singleton _, fun tag ht tag' ht' => ?_⟩
      obtain rfl := mem_singleton.mp ht'
      rintro rfl
      exact hnew ht
    · rw [addConsumer_tags_other h hc]
      exact h.nodup c

theorem newConsumer_tagged (h : s.Tagged) (connection : ConnectionId) (channel : ChannelRef)
    (queue : QueueRef) (method : ConsumeMethod) :
    (s.newConsumer connection channel queue method).1.Tagged := by
  have hparent := takeTag_consumerTable (s.connections connection) method.consumerTag
  by_cases hm : s.newTag connection method ∈ s.tags connection
  · rw [newConsumer_of_mem hm]
    refine h.of_sublist rfl (.refl s.store) fun c => ?_
    show (update s.connections connection _ c).consumerTable.Sublist _
    by_cases hc : c = connection
    · subst hc
      rw [update_self, hparent]
    · rw [update_of_ne hc]
  · rw [newConsumer_of_notMem hm]
    exact h.addConsumer hparent hm

theorem Change.tagged (h : Change s s') (ht : s.Tagged) : s'.Tagged := by
  cases h with
  | queue h | channel ref channel => exact ⟨ht.lt, ht.nodup⟩
  | store h => exact ht.of_sublist rfl h fun _ => .refl _
  | forget ref => exact ht.of_sublist rfl (.refl s.store) fun _ => erase_sublist
  | newConsumer connection channel queue method =>
    exact newConsumer_tagged ht connection channel queue method

theorem Changes.tagged (h : s.Changes s') (ht : s.Tagged) : s'.Tagged := by
  induction h with
  | refl => exact ht
  | tail _ hlast ih => exact hlast.tagged ih

end Broker

end OpenAmq
