import OpenAmq.Broker.Changes
import OpenAmq.Server.Model

/-!
# The registry of queues

Which queues there are, under which names, and which connection owns them. Queues are created
by `queue.declare` and are destroyed by their own threads; nothing else changes the registry.

* `Server.queueNew_cases` — what `amq_queue_new` does to it
* `Server.Aside` — what all other methods and threads do to it
* `Server.Registered`, `Server.Owned` — names, flags and owners agree
-/

namespace OpenAmq

open Function Option List

variable {r : Server × List Answer}

namespace Server

variable {cfg : ServerConfig} {s s' : Server} {connection : ConnectionId} {channel : ChannelRef}
  {ref : QueueRef} {gone : Option QueueRef}

/-! ## Creating a queue -/

/-- The arguments of the method decode, and there is a profile for them. -/
def knownProfile (cfg : ServerConfig) (method : DeclareMethod) : Bool :=
  match fieldListNew method.arguments with
  | .error _ => false
  | .ok arguments =>
    (profileName cfg.env method.exclusive arguments).any fun profile =>
      (cfg.profiles profile).isSome

theorem queueNew_cases {name : Shortstr} {method : DeclareMethod}
    {r : Server × Option QueueRef × List Answer}
    (h : s.queueNew cfg connection name method = some r) :
    (r.1 = s ∧ r.2.1 = none ∧
      (knownProfile cfg method = true → r.2.2 = [] ∧ (s.queueTable name).isSome = true)) ∨
    ∃ queue : ServerQueue, queue.basic.exclusive = method.exclusive ∧
      queue.connection = (if method.exclusive then some connection else none) ∧
      s.queueTable name = none ∧ r = (s.addQueue name queue, some s.nextQueue, []) := by
  unfold queueNew at h
  unfold knownProfile
  cases harguments : fieldListNew method.arguments with
  | error e =>
    rw [harguments] at h
    cases h
  | ok arguments =>
    simp only [harguments] at h ⊢
    cases hprofile : profileName cfg.env method.exclusive arguments with
    | none =>
      rw [hprofile] at h
      cases h
    | some profile =>
      simp only [hprofile, any_some] at h ⊢
      cases hlimits : cfg.profiles profile with
      | none =>
        simp only [hlimits] at h
        split at h
        · cases h
          exact Or.inl ⟨rfl, rfl, fun hknown => by cases hknown⟩
        · cases h
      | some limits =>
        simp only [hlimits] at h
        split at h
        · next hsome =>
          cases h
          exact Or.inl ⟨rfl, rfl, fun _ => ⟨rfl, hsome⟩⟩
        · next hnone =>
          cases h
          exact Or.inr ⟨_, rfl, rfl, not_isSome_iff_eq_none.mp hnone, rfl⟩

theorem queueNew_isSome {method : DeclareMethod} (hknown : knownProfile cfg method = true)
    (name : Shortstr) : (s.queueNew cfg connection name method).isSome = true := by
  unfold knownProfile at hknown
  unfold queueNew
  cases harguments : fieldListNew method.arguments with
  | error e =>
    rw [harguments] at hknown
    cases hknown
  | ok arguments =>
    rw [harguments] at hknown
    obtain ⟨profile, hprofile, hlimits⟩ := (any_eq_true _ _).mp hknown
    obtain ⟨limits, hlimits⟩ := isSome_iff_exists.mp hlimits
    simp only [hprofile, hlimits]
    split <;> rfl

/-! ## Other methods and threads -/

/-- At most this queue is destroyed, and none is created, renamed or given away. -/
structure Aside (gone : Option QueueRef) (s s' : Server) : Prop where
  nextQueue : s'.nextQueue = s.nextQueue
  queueName : s'.queueName = s.queueName
  queueTable : ∀ name ref, s'.queueTable name = some ref → s.queueTable name = some ref
  kept : ∀ name ref, s.queueTable name = some ref → s'.queueTable name = some ref ∨ gone = some ref
  changes : s.broker.Changes s'.broker
  ownQueueSet : ∀ connection, (s'.ownQueueSet connection).Sublist (s.ownQueueSet connection)

theorem Aside.of_changes {objects : AutoDelete} (h : s.broker.Changes objects.broker) :
    s.Aside gone { s with objects } :=
  ⟨rfl, rfl, fun _ _ h => h, fun _ _ h => .inl h, h, fun _ => .refl _⟩

theorem Aside.refl (s : Server) : s.Aside gone s := .of_changes .refl

theorem Aside.of_exchanges (s : Server) (exchanges : ExchangeRef → ServerExchange)
    (exchangeTable : Shortstr → Option ExchangeRef) (nextExchange nextBinding : Nat)
    (currentExchange : ChannelRef → Shortstr) :
    s.Aside gone { s with exchanges, exchangeTable, nextExchange, nextBinding, currentExchange } :=
  ⟨rfl, rfl, fun _ _ h => h, fun _ _ h => .inl h, .refl, fun _ => .refl _⟩

theorem Aside.trans {s'' : Server} (h : s.Aside gone s') (h' : s'.Aside gone s'') :
    s.Aside gone s'' where
  nextQueue := h'.nextQueue.trans h.nextQueue
  queueName := h'.queueName.trans h.queueName
  queueTable := fun name ref ht => h.queueTable name ref (h'.queueTable name ref ht)
  kept := fun name ref ht => (h.kept name ref ht).elim (h'.kept name ref) .inr
  changes := h.changes.trans h'.changes
  ownQueueSet := fun connection => (h'.ownQueueSet connection).trans (h.ownQueueSet connection)

theorem answerExchange_aside (s : Server) (type : ExchangeType) (nowait : Bool)
    (exchange : ExchangeRef) :
    s.Aside gone (s.answerExchange connection channel type nowait exchange).1 := by
  unfold answerExchange
  split
  · exact .of_exchanges s _ _ _ _ _
  · exact .refl s

theorem exchangeDeclare_aside (s : Server) (exchange : Shortstr) (type : Str)
    (passive internal nowait : Bool) :
    s.Aside gone
      (s.exchangeDeclare connection channel exchange type passive internal nowait).1 := by
  unfold exchangeDeclare
  split
  · exact .refl s
  · split
    · exact s.answerExchange_aside _ nowait _
    · split
      · exact .refl s
      · split
        · exact .refl s
        · exact (Aside.of_exchanges s _ _ _ _ _).trans (answerExchange_aside _ _ nowait _)

theorem exchangeDelete_aside (s : Server) (exchange : Shortstr) (nowait : Bool) :
    s.Aside gone (s.exchangeDelete channel exchange nowait).1 := by
  unfold exchangeDelete
  simp only
  split
  · exact .refl s
  · split
    · exact .of_exchanges s _ _ _ _ _
    · exact .refl s

variable {routingKey queue exchange : Shortstr} {arguments : Option Longstr} {nowait : Bool}

theorem bindExchange_aside {exchange : ExchangeRef} {sender : Option ChannelRef} {queue : QueueRef}
    (h : s.bindExchange cfg exchange sender queue routingKey arguments = some s') :
    s.Aside gone s' := by
  unfold bindExchange at h
  simp only at h
  split at h
  · cases h
    exact .refl s
  · obtain ⟨ex, -, rfl⟩ := map_eq_some_iff.mp h
    exact .of_exchanges s _ _ _ _ _

theorem bindDefault_aside (h : s.bindDefault cfg ref = some s') : s.Aside none s' :=
  bindExchange_aside h

theorem queueBind_aside
    (h : s.queueBind cfg channel queue exchange routingKey arguments nowait = some r) :
    s.Aside gone r.1 := by
  unfold queueBind at h
  split at h
  · cases h
    exact .refl s
  · cases h
    exact .refl s
  · obtain ⟨bound, hbound, rfl⟩ := map_eq_some_iff.mp h
    exact bindExchange_aside hbound

theorem queueUnbind_aside
    (h : s.queueUnbind channel queue exchange routingKey arguments nowait = some r) :
    s.Aside gone r.1 := by
  unfold queueUnbind at h
  split at h
  · cases h
    exact .refl s
  · cases h
    exact .refl s
  · obtain ⟨unbound, hunbound, rfl⟩ := map_eq_some_iff.mp h
    unfold unbindExchange at hunbound
    simp only at hunbound
    split at hunbound
    · cases hunbound
      exact .refl s
    · obtain ⟨ex, -, rfl⟩ := map_eq_some_iff.mp hunbound
      exact .of_exchanges s _ _ _ _ _

theorem queueDelete_aside (s : Server) (queue : Shortstr) (nowait : Bool) :
    s.Aside gone (s.queueDelete channel queue nowait).1 := by
  unfold queueDelete
  split
  · exact .refl s
  · exact .of_changes .refl

theorem queuePurge_aside (h : s.queuePurge channel queue nowait = some r) : s.Aside gone r.1 := by
  unfold queuePurge at h
  split at h
  · cases h
    exact .refl s
  · split at h
    · cases h
    · cases h
      exact .of_changes (s.broker.setQueue_changes ⟨rfl, rfl⟩)

theorem basicConsume_aside (s : Server) (queue : Shortstr) (method : ConsumeMethod) :
    s.Aside gone (s.basicConsume channel queue method).1 := by
  unfold basicConsume
  split
  · exact .refl s
  · exact .of_changes (s.broker.postChannel_changes channel _)

theorem basicGet_aside (h : s.basicGet channel queue = some r) : s.Aside gone r.1 := by
  unfold basicGet at h
  split at h
  · cases h
    exact .refl s
  · split at h
    · cases h
    · cases h
      exact .of_changes (s.broker.setQueue_changes ⟨rfl, rfl⟩)

theorem basicPublish_aside {headers : Option Longstr} {content : Content}
    {mandatory immediate : Bool}
    (h : s.basicPublish cfg channel exchange routingKey headers content mandatory immediate =
      some r) :
    s.Aside gone r.1 := by
  unfold basicPublish at h
  split at h
  · cases h
    exact .refl s
  · split at h
    · cases h
      exact .refl s
    · obtain ⟨published, hpublished, rfl⟩ := map_eq_some_iff.mp h
      have hexchange : s.Aside gone published.1 := by
        unfold exchangePublish at hpublished
        simp only at hpublished
        split at hpublished
        · cases hpublished
          exact .refl s
        · obtain ⟨ex, -, rfl⟩ := map_eq_some_iff.mp hpublished
          exact .of_exchanges s _ _ _ _ _
      refine hexchange.trans (.of_changes ?_)
      exact Broker.foldl_changes (fun s queue => s.postQueue_changes queue _) _ _

theorem sendChannel_aside (s : Server) (request : ClientRequest) :
    s.Aside gone (s.sendChannel channel request).1 :=
  .of_changes (s.broker.postChannel_changes channel _)

theorem selfDestructed_aside (s : Server) (ref : QueueRef) :
    s.Aside (some ref) (s.selfDestructed ref) := by
  have htable : ∀ name q, (s.brokerDeleteQueue ref).queueTable name = some q →
      s.queueTable name = some q := by
    intro name q h
    change (if s.queueTable (s.queueName ref) = some ref then
      update s.queueTable (s.queueName ref) none else s.queueTable) name = _ at h
    split at h
    · by_cases hk : name = s.queueName ref
      · rw [hk, update_self] at h
        cases h
      · rw [update_of_ne hk] at h
        exact h
    · exact h
  have hkept : ∀ name q, s.queueTable name = some q →
      (s.brokerDeleteQueue ref).queueTable name = some q ∨ some ref = some q := by
    intro name q h
    show (if s.queueTable (s.queueName ref) = some ref then
      update s.queueTable (s.queueName ref) none else s.queueTable) name = _ ∨ _
    split
    · next href =>
      by_cases hk : name = s.queueName ref
      · rw [hk, href] at h
        exact Or.inr h
      · rw [update_of_ne hk]
        exact Or.inl h
    · exact Or.inl h
  have hdeleted : s.Aside (some ref) (s.brokerDeleteQueue ref) :=
    ⟨rfl, rfl, htable, hkept, .refl, fun _ => .refl _⟩
  unfold selfDestructed
  simp only
  split
  · exact hdeleted.trans
      ⟨rfl, rfl, fun _ _ h => h, fun _ _ h => .inl h, .refl, fun _ => erase_sublist⟩
  · exact hdeleted

end Server

/-- The declare that arrives, if one does. -/
def ServerEvent.declare? : ServerEvent → Option (ChannelRef × DeclareMethod)
  | .method channel (.queueDeclare declare) => some (channel, declare)
  | _ => none

def ServerEvent.destroys? : ServerEvent → Option QueueRef
  | .thread (.selfDestruct ref) => some ref
  | _ => none

namespace Server

variable {cfg : ServerConfig} {s s' : Server} {connection : ConnectionId} {ref : QueueRef}
  {gone : Option QueueRef}

/-- A step that declares nothing destroys at most the queue it says. -/
theorem step_aside {event : ServerEvent} (hno : event.declare? = none)
    (hs : s.step cfg event = some r) : s.Aside event.destroys? r.1 := by
  cases event with
  | method channel method =>
    simp only [step] at hs
    split at hs
    · next connection _ _ =>
      cases method with
      | queueDeclare method => cases hno
      | channelFlow active =>
        cases hs
        exact s.sendChannel_aside _
      | exchangeDeclare exchange type passive internal nowait =>
        cases hs
        exact s.exchangeDeclare_aside exchange type passive internal nowait
      | exchangeDelete exchange nowait =>
        cases hs
        exact s.exchangeDelete_aside exchange nowait
      | queueBind queue exchange routingKey arguments nowait => exact queueBind_aside hs
      | queueUnbind queue exchange routingKey arguments nowait => exact queueUnbind_aside hs
      | queueDelete queue nowait =>
        cases hs
        exact s.queueDelete_aside queue nowait
      | queuePurge queue nowait => exact queuePurge_aside hs
      | basicConsume queue method =>
        cases hs
        exact s.basicConsume_aside queue method
      | basicPublish exchange routingKey headers content mandatory immediate =>
        exact basicPublish_aside hs
      | basicGet queue => exact basicGet_aside hs
      | basicAck | basicCancel consumerTag nowait =>
        cases hs
        exact s.sendChannel_aside _
    · cases hs
  | thread event =>
    simp only [step] at hs
    split at hs
    · cases hs
    · obtain ⟨stepped, hstepped, rfl⟩ := map_eq_some_iff.mp hs
      have haside : ∀ gone, s.Aside gone { s with objects := stepped.1 } :=
        fun gone => .of_changes (AutoDelete.step_changes hstepped)
      cases event with
      | selfDestruct ref => exact (haside _).trans (selfDestructed_aside _ ref)
      | broker event | autoDelete ref | delete ref => exact haside none

/-! ## Names and owners -/

/-- The table leads from the names of queues to these queues. -/
structure Named (s : Server) : Prop where
  name : ∀ name ref, s.queueTable name = some ref → s.queueName ref = name
  lt : ∀ name ref, s.queueTable name = some ref → ref < s.nextQueue

/-- Queues with an owner are exclusive, and others are not. -/
structure Registered (s : Server) : Prop extends Named s where
  exclusive : ∀ ref < s.nextQueue, (s.queue ref).basic.exclusive = (s.queue ref).connection.isSome

/-- The list of a connection has the queues that it owns, and each once. -/
structure Owned (s : Server) : Prop where
  owner : ∀ connection, ∀ ref ∈ s.ownQueueSet connection,
    ref < s.nextQueue ∧ (s.queue ref).connection = some connection
  nodup : ∀ connection, (s.ownQueueSet connection).Nodup

/-- Queues that exist keep their names and their owners. -/
structure Grows (s s' : Server) : Prop where
  nextQueue : s.nextQueue ≤ s'.nextQueue
  queueName : ∀ ref < s.nextQueue, s'.queueName ref = s.queueName ref
  owners : ∀ ref < s.nextQueue, (s.queue ref).SameOwner (s'.queue ref)

theorem Aside.grows (h : s.Aside gone s') : s.Grows s' :=
  ⟨h.nextQueue.ge, fun ref _ => by rw [h.queueName], fun ref _ => h.changes.sameOwners ref⟩

theorem Named.aside (hn : s.Named) (h : s.Aside gone s') : s'.Named where
  name := by
    rw [h.queueName]
    exact fun name ref ht => hn.name name ref (h.queueTable name ref ht)
  lt := by
    rw [h.nextQueue]
    exact fun name ref ht => hn.lt name ref (h.queueTable name ref ht)

theorem Registered.aside (hr : s.Registered) (h : s.Aside gone s') : s'.Registered where
  toNamed := hr.toNamed.aside h
  exclusive := by
    rw [h.nextQueue]
    intro ref hlt
    have hsame : (s.queue ref).SameOwner (s'.queue ref) := h.changes.sameOwners ref
    rw [hsame.exclusive, hsame.connection]
    exact hr.exclusive ref hlt

theorem Owned.aside (ho : s.Owned) (h : s.Aside gone s') : s'.Owned where
  owner := by
    rw [h.nextQueue]
    intro connection ref hm
    have hsame : (s.queue ref).SameOwner (s'.queue ref) := h.changes.sameOwners ref
    rw [hsame.connection]
    exact ho.owner connection ref ((h.ownQueueSet connection).subset hm)
  nodup := fun connection => (h.ownQueueSet connection).nodup (ho.nodup connection)

theorem addQueue_same (s : Server) (name : Shortstr) (queue : ServerQueue) :
    (s.addQueue name queue).queue s.nextQueue = queue := update_self ..

theorem addQueue_other (s : Server) (name : Shortstr) (queue : ServerQueue)
    (h : ref < s.nextQueue) : (s.addQueue name queue).queue ref = s.queue ref :=
  update_of_ne h.ne _ _

theorem addQueue_grows (s : Server) (name : Shortstr) (queue : ServerQueue) :
    s.Grows (s.addQueue name queue) where
  nextQueue := Nat.le_succ _
  queueName := fun _ h => update_of_ne h.ne _ _
  owners := fun _ h => by
    rw [addQueue_other s name queue h]
    exact .refl _

theorem Named.addQueue (hn : s.Named) (name : Shortstr) (queue : ServerQueue) :
    (s.addQueue name queue).Named where
  name := fun k ref hk => by
    change update s.queueTable name (some s.nextQueue) k = some ref at hk
    show update s.queueName s.nextQueue name ref = k
    by_cases he : k = name
    · rw [he, update_self] at hk
      rw [← some.inj hk, update_self, he]
    · rw [update_of_ne he] at hk
      rw [update_of_ne (hn.lt k ref hk).ne]
      exact hn.name k ref hk
  lt := fun k ref hk => by
    change update s.queueTable name (some s.nextQueue) k = some ref at hk
    by_cases he : k = name
    · rw [he, update_self] at hk
      exact Nat.lt_succ_of_le (Nat.le_of_eq (some.inj hk).symm)
    · rw [update_of_ne he] at hk
      exact Nat.lt_succ_of_lt (hn.lt k ref hk)

theorem Registered.addQueue (hr : s.Registered) (name : Shortstr) {queue : ServerQueue}
    (hx : queue.basic.exclusive = queue.connection.isSome) :
    (s.addQueue name queue).Registered where
  toNamed := hr.toNamed.addQueue name queue
  exclusive := fun ref hlt => by
    rcases Nat.lt_succ_iff_lt_or_eq.mp hlt with hlt | rfl
    · rw [addQueue_other s name queue hlt]
      exact hr.exclusive ref hlt
    · rw [addQueue_same]
      exact hx

theorem Owned.addQueue (ho : s.Owned) (name : Shortstr) (queue : ServerQueue) :
    (s.addQueue name queue).Owned where
  owner := fun connection ref hm => by
    obtain ⟨hlt, hc⟩ := ho.owner connection ref hm
    rw [addQueue_other s name queue hlt]
    exact ⟨Nat.lt_succ_of_lt hlt, hc⟩
  nodup := ho.nodup

theorem ownQueue_eq_some (h : s.ownQueue connection ref = some s') :
    (s.queue ref).basic.exclusive = true ∧ s' = { s with
      ownQueueSet := update s.ownQueueSet connection (s.ownQueueSet connection ++ [ref]) } := by
  unfold ownQueue at h
  split at h
  · next hx => exact ⟨hx, (some.inj h).symm⟩
  · cases h

theorem Owned.ownQueue (ho : s.Owned) (hlt : ref < s.nextQueue)
    (hc : (s.queue ref).connection = some connection) (hm : ref ∉ s.ownQueueSet connection)
    (h : s.ownQueue connection ref = some s') : s'.Owned := by
  obtain ⟨-, rfl⟩ := ownQueue_eq_some h
  refine ⟨fun c q hq => ?_, fun c => ?_⟩
  · change q ∈ update s.ownQueueSet connection _ c at hq
    by_cases he : c = connection
    · subst he
      rw [update_self] at hq
      rcases mem_append.mp hq with hq | hq
      · exact ho.owner c q hq
      · obtain rfl := mem_singleton.mp hq
        exact ⟨hlt, hc⟩
    · rw [update_of_ne he] at hq
      exact ho.owner c q hq
  · show (update s.ownQueueSet connection _ c).Nodup
    by_cases he : c = connection
    · subst he
      rw [update_self]
      exact nodup_append.mpr ⟨ho.nodup c, nodup_singleton ref, fun q hq q' hq' => by
        rintro rfl
        exact hm (mem_singleton.mp hq' ▸ hq)⟩
    · rw [update_of_ne he]
      exact ho.nodup c

/-! ## Before the first declare -/

/-- There is no queue yet. -/
structure Unused (s : Server) : Prop where
  queueTable : ∀ name, s.queueTable name = none
  nextQueue : s.nextQueue = 0
  ownQueueSet : ∀ connection, s.ownQueueSet connection = []

theorem Unused.registered (h : s.Unused) : s.Registered where
  name := fun name ref ht => by
    rw [h.queueTable] at ht
    cases ht
  lt := fun name ref ht => by
    rw [h.queueTable] at ht
    cases ht
  exclusive := fun ref hlt => by
    rw [h.nextQueue] at hlt
    exact absurd hlt (Nat.not_lt_zero ref)

theorem Unused.owned (h : s.Unused) : s.Owned where
  owner := fun connection ref hm => by
    rw [h.ownQueueSet] at hm
    cases hm
  nodup := fun connection => by
    rw [h.ownQueueSet]
    exact nodup_nil

theorem foldl_exchangeNew {P : Server → Prop}
    (hP : ∀ s type name, P s → P (s.exchangeNew type name false))
    (declared : List (ExchangeType × Str)) (h : P s) :
    P (declared.foldl (fun s exchange => s.exchangeNew exchange.1 (.cpy exchange.2) false) s) := by
  induction declared generalizing s with
  | nil => exact h
  | cons exchange declared ih => exact ih (hP s exchange.1 (.cpy exchange.2) h)

theorem new_unused (channels : ChannelRef → Channel) : (new channels).Unused := by
  unfold new
  refine foldl_exchangeNew (fun s type name h => ?_) predeclared ?_
  · exact ⟨h.queueTable, h.nextQueue, h.ownQueueSet⟩
  · exact ⟨fun _ => rfl, rfl, fun _ => rfl⟩

end Server

end OpenAmq
