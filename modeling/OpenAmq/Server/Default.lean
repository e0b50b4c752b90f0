import OpenAmq.Exchange.Runs
import OpenAmq.Server.Registry

/-!
# The default exchange

Every queue is bound to the default exchange under its name, and a client that publishes without
the name of an exchange relies on it. The default exchange stands in the same table as the
exchanges of clients, under a name that is not reserved.

* `Server.DefaultBound` — the routes of the default exchange are the table of queues
* `Server.Keeps` — a step that leaves both alone
* `Server.default_exchange_routes` — as long as there are no others, a content goes to the queue
  that the routing key names
-/

namespace OpenAmq

open Exchange List Function Option

/-! ## A direct exchange without arguments -/

variable {routingKey : Shortstr} {headers : Option Longstr}

section Keyed

variable {env : Env} {ex ex' : Exchange} {table : Set Route} {k : Shortstr}

theorem bindQueue_bindingList {addr : Nat} {channel : Option Nat} {queue : Queue}
    (ht : ex.type = .direct) (h : ex.bindQueue env addr channel queue k none = some ex') :
    (ex.findBinding k none = none → (ex.bindingIndex.insert addr).isSome) ∧
      ∀ b ∈ ex'.bindingList, b ∈ ex.bindingList ∨ b.addr = addr ∧ b.arguments = none := by
  have hkey : normKey ex.type k = k := by
    rw [ht]
    rfl
  have hargs : normArguments none = none := rfl
  unfold bindQueue at h
  simp only [hkey, hargs] at h
  cases hf : ex.findBinding k none with
  | some b =>
    rw [hf] at h
    cases h
    exact ⟨nofun, fun b' hb' => Or.inl hb'⟩
  | none =>
    rw [hf] at h
    obtain ⟨ex1, hnew, rfl⟩ := map_eq_some_iff.mp h
    obtain ⟨bindingIndex, index, indices, b, hindex, -, hcompile, hlist, -⟩ :=
      newBinding_eq_some hnew
    refine ⟨fun _ => by rw [hindex]; rfl, fun b' hb' => ?_⟩
    have hb' : b' ∈ insertBinding b ex.bindingList := hlist ▸ hb'
    simp only [compile, ht] at hcompile
    obtain ⟨-, rfl⟩ := Prod.mk.inj (some.inj hcompile)
    rcases mem_insertBinding.mp hb' with rfl | hb'
    · exact Or.inr ⟨rfl, rfl⟩
    · exact Or.inl hb'

theorem bindQueue_keyed (hR : Rel env .direct ex table)
    (hargs : ∀ b ∈ ex.bindingList, b.arguments = none) {addr : Nat}
    (hfresh : ∀ b ∈ ex.bindingList, b.addr ≠ addr) {channel : Option Nat} {queue : Queue}
    (h : ex.bindQueue env addr channel queue k none = some ex') :
    Rel env .direct ex' (insert (queue.addr, k, none) table) := by
  have hindexed := (bindQueue_bindingList hR.type_eq h).1
  have hkey : normKey ex.type k = k := by
    rw [hR.type_eq]
    rfl
  have hok : StepOk env ex (.bind addr channel queue k none) := by
    intro hf
    rw [hkey] at hf ⊢
    refine ⟨⟨hfresh, hindexed hf, rfl⟩, ?_⟩
    simp only [NewBindingOk, hR.type_eq]
    intro b hb hk
    exact hR.wf.findBinding_eq_none.mp hf b hb ⟨hk, hargs b hb⟩
  obtain ⟨ex1, heq, hR'⟩ := bindQueue_simulates hR addr channel queue k none hok
  obtain rfl := some.inj (heq.symm.trans h)
  exact hR'

theorem unbindQueue_of_not_bound (hwf : Wf ex) {queue : QueueRef} {a : Option Longstr}
    (hno : ¬ ex.Bound (queue, k, normArguments a)) : ex.unbindQueue queue k a = some ex := by
  have hlive : ∀ p ∈ ex.queueBindings queue, ∃ b ∈ ex.bindingList, b.addr = p := fun p hp =>
    hwf.set_live p queue ((hwf.bindings_iff queue p).mp hp)
  rcases hwf.searchBindings_cases hlive (k := k) (a := normArguments a) with
    ⟨hnone, -⟩ | ⟨b, hb, hmem, hk, ha, -⟩
  · rw [unbindQueue, hnone]
    rfl
  · exact absurd ⟨b, hb, hk, ha, (hwf.bindings_iff queue b.addr).mp hmem⟩ hno

theorem directPublish_eq {r : Exchange × List Binding} (h : ex.directPublish routingKey = some r) :
    r.1 = ex := by
  unfold directPublish at h
  cases hh : ex.bindingHash routingKey with
  | none =>
    rw [hh] at h
    cases h
    rfl
  | some addr =>
    rw [hh] at h
    obtain ⟨b, -, rfl⟩ := map_eq_some_iff.mp h
    rfl

theorem length_le_one {α : Type*} {l : List α} (hnd : l.Nodup)
    (hone : ∀ x ∈ l, ∀ y ∈ l, x = y) : l.length ≤ 1 := by
  cases l with
  | nil => exact Nat.zero_le _
  | cons x l =>
    cases l with
    | nil => exact Nat.le_refl _
    | cons y l =>
      have he := hone x mem_cons_self y (mem_cons_of_mem _ mem_cons_self)
      rw [he] at hnd
      exact absurd mem_cons_self (nodup_cons.mp hnd).1

theorem room_keyed (hR : Rel env .direct ex table)
    (hone : ∀ q q' a a', (q, k, a) ∈ table → (q', k, a') ∈ table → q = q') :
    Room env ex k headers := by
  have hmatch : ∀ b ∈ ex.matching env k headers, b ∈ ex.bindingList ∧ b.routingKey = k := by
    intro b hb
    obtain ⟨hb, hr⟩ := mem_filter.mp hb
    rw [hR.type_eq] at hr
    exact ⟨hb, by simpa [routes] using hr⟩
  have hlen : (ex.matching env k headers).length ≤ 1 := by
    refine length_le_one (hR.wf.nodup.filter _) fun b hb b' hb' => ?_
    obtain ⟨hb, hk⟩ := hmatch b hb
    obtain ⟨hb', hk'⟩ := hmatch b' hb'
    exact hR.wf.direct_unique hR.type_eq b hb b' hb' (hk.trans hk'.symm)
  have hset : ∀ b ∈ ex.matching env k headers, (ex.queueSet b.addr).length ≤ 1 := by
    intro b hb
    obtain ⟨hlist, rfl⟩ := hmatch b hb
    have hroute : ∀ q ∈ ex.queueSet b.addr, (q, b.routingKey, b.arguments) ∈ table :=
      fun q hq => (hR.bound _).mpr ⟨b, hlist, rfl, rfl, hq⟩
    exact length_le_one (hR.wf.set_nodup b.addr) fun q hq q' hq' =>
      hone q q' _ _ (hroute q hq) (hroute q' hq')
  unfold Room
  cases hm : ex.matching env k headers with
  | nil => exact Nat.zero_le _
  | cons b bs =>
    rw [hm, length_cons] at hlen
    obtain rfl : bs = [] := eq_nil_of_length_eq_zero (by omega)
    have h := hset b (by rw [hm]; exact mem_cons_self)
    have hmax : 1 ≤ queueSetMax := by decide
    rw [map_cons, map_nil, sum_cons, sum_nil, Nat.add_zero]
    exact h.trans hmax

end Keyed

namespace Server

/-! ## Routes of the default exchange -/

/-- Every queue under its name. -/
def defaultRoutes (s : Server) : Set Route := {r | s.queueTable r.2.1 = some r.1 ∧ r.2.2 = none}

/-- The default exchange binds the queues in the table under their names, and nothing else. -/
structure DefaultBound (env : Env) (s : Server) : Prop where
  created : s.defaultExchange < s.nextExchange
  alive : (s.exchanges s.defaultExchange).zombie = false
  rel : Rel env .direct (s.exchanges s.defaultExchange).exchange s.defaultRoutes
  arguments : ∀ b ∈ (s.exchanges s.defaultExchange).exchange.bindingList, b.arguments = none
  allocated : ∀ b ∈ (s.exchanges s.defaultExchange).exchange.bindingList, b.addr < s.nextBinding
  named : s.Named

/-- The default exchange and the table of queues are as they were. -/
structure Keeps (s s' : Server) : Prop where
  defaultExchange : s'.defaultExchange = s.defaultExchange
  exchange : s'.exchanges s.defaultExchange = s.exchanges s.defaultExchange
  queueTable : s'.queueTable = s.queueTable
  queueName : s'.queueName = s.queueName
  nextQueue : s'.nextQueue = s.nextQueue
  nextExchange : s.nextExchange ≤ s'.nextExchange
  nextBinding : s.nextBinding ≤ s'.nextBinding

/--
The methods and threads that do not get at the default exchange.

A queue that destroys itself a second time takes the bindings of the queue that has its name by
now.
-/
def SparesDefault (s : Server) : ServerEvent → Prop
  | .method channel (.exchangeDelete exchange _) =>
    s.exchangeTable (s.exchangeOf channel exchange) ≠ some s.defaultExchange
  | .method channel (.queueBind queue exchange _ _ _) =>
    s.exchangeTable exchange ≠ some s.defaultExchange ∨
      s.queueTable (s.queueOf channel queue) = none
  | .method channel (.queueUnbind queue exchange routingKey arguments _) =>
    s.exchangeTable exchange ≠ some s.defaultExchange ∨
      s.queueTable (s.queueOf channel queue) = none ∨
      s.bindingKey channel queue routingKey ≠ s.queueOf channel queue ∨
      normArguments arguments ≠ none
  | .thread (.selfDestruct ref) =>
    s.queueTable (s.queueName ref) = some ref ∨ s.queueTable (s.queueName ref) = none
  | _ => True

instance (s : Server) (event : ServerEvent) : Decidable (s.SparesDefault event) := by
  unfold SparesDefault
  split <;> infer_instance

variable {cfg : ServerConfig} {env : Env} {s s' s'' : Server} {connection : ConnectionId}
  {channel : ChannelRef}

/-! ## Steps that leave the default exchange alone -/

theorem Keeps.refl (s : Server) : s.Keeps s := ⟨rfl, rfl, rfl, rfl, rfl, le_rfl, le_rfl⟩

theorem Keeps.trans (h : s.Keeps s') (h' : s'.Keeps s'') : s.Keeps s'' where
  defaultExchange := h'.defaultExchange.trans h.defaultExchange
  exchange := by
    rw [← h.exchange, ← h.defaultExchange]
    exact h'.exchange
  queueTable := h'.queueTable.trans h.queueTable
  queueName := h'.queueName.trans h.queueName
  nextQueue := h'.nextQueue.trans h.nextQueue
  nextExchange := h.nextExchange.trans h'.nextExchange
  nextBinding := h.nextBinding.trans h'.nextBinding

theorem DefaultBound.keeps (h : s.DefaultBound env) (hk : s.Keeps s') : s'.DefaultBound env := by
  have hex : s'.exchanges s'.defaultExchange = s.exchanges s.defaultExchange := by
    rw [hk.defaultExchange]
    exact hk.exchange
  have hroutes : s'.defaultRoutes = s.defaultRoutes := by
    unfold defaultRoutes
    rw [hk.queueTable]
  constructor
  · rw [hk.defaultExchange]
    exact h.created.trans_le hk.nextExchange
  · rw [hex]
    exact h.alive
  · rw [hex, hroutes]
    exact h.rel
  · rw [hex]
    exact h.arguments
  · rw [hex]
    exact fun b hb => (h.allocated b hb).trans_le hk.nextBinding
  · constructor
    · rw [hk.queueTable, hk.queueName]
      exact h.named.name
    · rw [hk.queueTable, hk.nextQueue]
      exact h.named.lt

theorem objects_keeps (s : Server) (objects : AutoDelete) : s.Keeps { s with objects } :=
  ⟨rfl, rfl, rfl, rfl, rfl, le_rfl, le_rfl⟩

theorem exchange_keeps {ref : ExchangeRef} (hne : ref ≠ s.defaultExchange) (ex : ServerExchange) :
    s.Keeps { s with exchanges := update s.exchanges ref ex } :=
  ⟨rfl, update_of_ne hne.symm _ _, rfl, rfl, rfl, le_rfl, le_rfl⟩

theorem exchangeNew_keeps (h : s.defaultExchange < s.nextExchange) (type : ExchangeType)
    (name : Shortstr) (internal : Bool) : s.Keeps (s.exchangeNew type name internal) :=
  ⟨rfl, update_of_ne (Nat.ne_of_lt h) _ _, rfl, rfl, rfl, Nat.le_succ _, le_rfl⟩

theorem answerExchange_keeps (s : Server) (type : ExchangeType) (nowait : Bool)
    (ref : ExchangeRef) :
    s.Keeps (s.answerExchange connection channel type nowait ref).1 := by
  unfold answerExchange
  split
  · exact ⟨rfl, rfl, rfl, rfl, rfl, le_rfl, le_rfl⟩
  · exact .refl s

theorem exchangeDeclare_keeps (h : s.defaultExchange < s.nextExchange) (exchange : Shortstr)
    (type : Str) (passive internal nowait : Bool) :
    s.Keeps (s.exchangeDeclare connection channel exchange type passive internal nowait).1 := by
  unfold exchangeDeclare
  split
  · exact .refl s
  · next exchangeType _ =>
    split
    · exact answerExchange_keeps s exchangeType nowait _
    · split
      · exact .refl s
      · split
        · exact .refl s
        · exact (exchangeNew_keeps h exchangeType exchange internal).trans
            (answerExchange_keeps _ exchangeType nowait _)

variable {exchange queue : Shortstr} {nowait : Bool} {arguments : Option Longstr}
  {r : Server × List Answer}

theorem exchangeDelete_keeps
    (hok : s.SparesDefault (.method channel (.exchangeDelete exchange nowait))) :
    s.Keeps (s.exchangeDelete channel exchange nowait).1 := by
  unfold exchangeDelete
  simp only
  split
  · exact .refl s
  · split
    · next ref href =>
      have hne : ref ≠ s.defaultExchange := by
        rintro rfl
        exact hok href
      exact ⟨rfl, update_of_ne hne.symm _ _, rfl, rfl, rfl, le_rfl, le_rfl⟩
    · exact .refl s

theorem bindExchange_keeps {exchange : ExchangeRef} (hne : exchange ≠ s.defaultExchange)
    {sender : Option ChannelRef} {queue : QueueRef}
    (h : s.bindExchange cfg exchange sender queue routingKey arguments = some s') : s.Keeps s' := by
  unfold bindExchange at h
  simp only at h
  split at h
  · cases h
    exact .refl s
  · obtain ⟨ex, -, rfl⟩ := map_eq_some_iff.mp h
    exact ⟨rfl, update_of_ne hne.symm _ _, rfl, rfl, rfl, le_rfl, Nat.le_succ _⟩

theorem queueBind_keeps
    (hok : s.SparesDefault (.method channel
      (.queueBind queue exchange routingKey arguments nowait)))
    (h : s.queueBind cfg channel queue exchange routingKey arguments nowait = some r) :
    s.Keeps r.1 := by
  unfold queueBind at h
  split at h
  · cases h
    exact .refl s
  · cases h
    exact .refl s
  · next exchange' ref hexchange hqueue =>
    obtain ⟨bound, hbound, rfl⟩ := map_eq_some_iff.mp h
    refine bindExchange_keeps ?_ hbound
    rintro rfl
    rcases hok with hne | hnone
    · exact hne hexchange
    · rw [hqueue] at hnone
      cases hnone

theorem queueUnbind_keeps (hb : s.DefaultBound env)
    (hok : s.SparesDefault (.method channel
      (.queueUnbind queue exchange routingKey arguments nowait)))
    (h : s.queueUnbind channel queue exchange routingKey arguments nowait = some r) :
    s.Keeps r.1 := by
  unfold queueUnbind at h
  split at h
  · cases h
    exact .refl s
  · cases h
    exact .refl s
  · next exchange' ref hexchange hqueue =>
    obtain ⟨unbound, hunbound, rfl⟩ := map_eq_some_iff.mp h
    unfold unbindExchange at hunbound
    simp only at hunbound
    split at hunbound
    · cases hunbound
      exact .refl s
    · obtain ⟨ex, hex, rfl⟩ := map_eq_some_iff.mp hunbound
      by_cases hd : exchange' = s.defaultExchange
      · have hno : ¬ (s.exchanges exchange').exchange.Bound
            (ref, s.bindingKey channel queue routingKey, normArguments arguments) := by
          rw [hd, ← hb.rel.bound]
          rintro ⟨hkey, hargs⟩
          have hname := (hb.named.name _ _ hqueue).symm.trans (hb.named.name _ _ hkey)
          rcases hok with hne | hnone | hkey' | hargs'
          · exact hne (hd ▸ hexchange)
          · rw [hqueue] at hnone
            cases hnone
          · exact hkey' hname.symm
          · exact hargs' hargs
        have hwf : Wf (s.exchanges exchange').exchange := by
          rw [hd]
          exact hb.rel.wf
        obtain rfl := some.inj ((unbindQueue_of_not_bound hwf hno).symm.trans hex)
        refine ⟨rfl, ?_, rfl, rfl, rfl, le_rfl, le_rfl⟩
        rw [← hd]
        exact update_self ..
      · exact exchange_keeps hd _

theorem publish_direct {ex : Exchange} (ht : ex.type = .direct) {r : Exchange × List QueueRef}
    (h : ex.publish env routingKey headers = some r) : r.1 = ex := by
  obtain ⟨published, hpublished, rfl⟩ := map_eq_some_iff.mp h
  simp only [typePublish, ht] at hpublished
  exact directPublish_eq hpublished

theorem exchangePublish_keeps (hb : s.DefaultBound env) {exchange : ExchangeRef}
    {r : Server × List QueueRef} (h : s.exchangePublish cfg exchange routingKey headers = some r) :
    s.Keeps r.1 := by
  unfold exchangePublish at h
  simp only at h
  split at h
  · cases h
    exact .refl s
  · obtain ⟨published, hpublished, rfl⟩ := map_eq_some_iff.mp h
    by_cases hd : exchange = s.defaultExchange
    · subst hd
      rw [publish_direct hb.rel.type_eq hpublished]
      exact ⟨rfl, update_self .., rfl, rfl, rfl, le_rfl, le_rfl⟩
    · exact exchange_keeps hd _

theorem basicPublish_keeps (hb : s.DefaultBound env) {content : Content}
    {mandatory immediate : Bool}
    (h : s.basicPublish cfg channel exchange routingKey headers content mandatory immediate =
      some r) :
    s.Keeps r.1 := by
  unfold basicPublish at h
  split at h
  · cases h
    exact .refl s
  · split at h
    · cases h
      exact .refl s
    · obtain ⟨published, hpublished, rfl⟩ := map_eq_some_iff.mp h
      exact (exchangePublish_keeps hb hpublished).trans (objects_keeps _ _)

theorem queueDelete_keeps (s : Server) (queue : Shortstr) (nowait : Bool) :
    s.Keeps (s.queueDelete channel queue nowait).1 := by
  unfold queueDelete
  split
  · exact .refl s
  · exact objects_keeps s _

theorem queuePurge_keeps (h : s.queuePurge channel queue nowait = some r) : s.Keeps r.1 := by
  unfold queuePurge at h
  split at h
  · cases h
    exact .refl s
  · split at h
    · cases h
    · cases h
      exact objects_keeps s _

theorem basicConsume_keeps (s : Server) (queue : Shortstr) (method : ConsumeMethod) :
    s.Keeps (s.basicConsume channel queue method).1 := by
  unfold basicConsume
  split
  · exact .refl s
  · exact objects_keeps s _

theorem basicGet_keeps (h : s.basicGet channel queue = some r) : s.Keeps r.1 := by
  unfold basicGet at h
  split at h
  · cases h
    exact .refl s
  · split at h
    · cases h
    · cases h
      exact objects_keeps s _

/-! ## Declaring a queue -/

theorem declareName_keeps (s : Server) (queue : Shortstr) : s.Keeps (s.declareName queue).1 := by
  unfold declareName
  split
  · exact ⟨rfl, rfl, rfl, rfl, rfl, le_rfl, le_rfl⟩
  · exact .refl s

theorem ownQueue_keeps {ref : QueueRef} (h : s.ownQueue connection ref = some s') : s.Keeps s' := by
  unfold ownQueue at h
  split at h
  · cases h
    exact ⟨rfl, rfl, rfl, rfl, rfl, le_rfl, le_rfl⟩
  · cases h

theorem answerDeclare_keeps (s : Server) (method : DeclareMethod) (ref : QueueRef) :
    s.Keeps (s.answerDeclare connection channel method ref).1 := by
  unfold answerDeclare
  split
  · exact .refl s
  · exact .refl s
  · exact ⟨rfl, rfl, rfl, rfl, rfl, le_rfl, le_rfl⟩

theorem addQueue_bindDefault (hb : s.DefaultBound cfg.env) {name : Shortstr} {queue : ServerQueue}
    (hnone : s.queueTable name = none)
    (h : (s.addQueue name queue).bindDefault cfg s.nextQueue = some s') :
    s'.DefaultBound cfg.env := by
  have hname : (s.addQueue name queue).queueName s.nextQueue = name := update_self ..
  have halive : ¬ ((s.addQueue name queue).exchanges
      (s.addQueue name queue).defaultExchange).zombie = true :=
    fun hz => Bool.false_ne_true (hb.alive.symm.trans hz)
  have hnamed : s'.Named := (hb.named.addQueue name queue).aside (bindDefault_aside h)
  unfold bindDefault bindExchange at h
  rw [hname] at h
  simp only [if_neg halive] at h
  obtain ⟨ex, hex, hs'⟩ := map_eq_some_iff.mp h
  have hexchange : s'.exchanges s'.defaultExchange =
      { s.exchanges s.defaultExchange with exchange := ex } := by
    rw [← hs']
    show update s.exchanges s.defaultExchange _ s.defaultExchange = _
    rw [update_self]
    rfl
  have htable : s'.queueTable = update s.queueTable name (some s.nextQueue) := by
    rw [← hs']
    rfl
  have hnextBinding : s'.nextBinding = s.nextBinding + 1 := by
    rw [← hs']
    rfl
  have hroutes : s'.defaultRoutes = insert (s.nextQueue, name, none) s.defaultRoutes := by
    unfold defaultRoutes
    rw [htable]
    ext ⟨q, k, a⟩
    by_cases hk : k = name
    · subst hk
      simp [hnone, eq_comm]
    · simp [hk]
  have hfresh : ∀ b ∈ (s.exchanges s.defaultExchange).exchange.bindingList,
      b.addr ≠ s.nextBinding := fun b hm => (hb.allocated b hm).ne
  have hlist := (bindQueue_bindingList hb.rel.type_eq hex).2
  constructor
  · rw [← hs']
    exact hb.created
  · rw [hexchange]
    exact hb.alive
  · rw [hexchange, hroutes]
    exact bindQueue_keyed hb.rel hb.arguments hfresh hex
  · rw [hexchange]
    intro b hm
    rcases hlist b hm with hold | ⟨-, hargs⟩
    · exact hb.arguments b hold
    · exact hargs
  · rw [hexchange, hnextBinding]
    intro b hm
    rcases hlist b hm with hold | ⟨haddr, -⟩
    · exact Nat.lt_succ_of_lt (hb.allocated b hold)
    · exact Nat.lt_succ_of_le (Nat.le_of_eq haddr)
  · exact hnamed

theorem queueDeclare_bound (hb : s.DefaultBound cfg.env) {method : DeclareMethod}
    (h : s.queueDeclare cfg connection channel method = some r) : r.1.DefaultBound cfg.env := by
  have hn := hb.keeps (s.declareName_keeps method.queue)
  unfold queueDeclare at h
  simp only at h
  split at h
  · cases h
    exact hn.keeps (answerDeclare_keeps _ method _)
  · next hnone =>
    split at h
    · cases h
      exact hn
    · obtain ⟨⟨s1, created, answers⟩, hnew, h⟩ := bind_eq_some_iff.mp h
      rcases queueNew_cases hnew with ⟨rfl, rfl, -⟩ | ⟨queue, -, -, -, heq⟩
      · rw [none_or, hnone] at h
        cases h
        exact hn
      · cases heq
        rw [some_or] at h
        obtain ⟨s3, hshare, rfl⟩ := map_eq_some_iff.mp h
        obtain ⟨s2, hbind, hown⟩ := bind_eq_some_iff.mp hshare
        have hbound := addQueue_bindDefault hn hnone hbind
        refine DefaultBound.keeps ?_ (answerDeclare_keeps s3 method _)
        split at hown
        · exact hbound.keeps (ownQueue_keeps hown)
        · exact some.inj hown ▸ hbound

/-! ## Destroying a queue -/

/-- The bindings of a queue that destroys itself go with it. -/
theorem selfDestructed_bound (hb : s.DefaultBound env) {ref : QueueRef}
    (hok : s.SparesDefault (.thread (.selfDestruct ref))) :
    (s.selfDestructed ref).DefaultBound env := by
  have hlisted : (s.queueTable (s.queueName ref)).getD ref = ref := by
    rcases hok with hsome | hnone
    · rw [hsome]
      rfl
    · rw [hnone]
      rfl
  have hexchange : (s.brokerDeleteQueue ref).exchanges (s.brokerDeleteQueue ref).defaultExchange =
      { s.exchanges s.defaultExchange with
        exchange := (s.exchanges s.defaultExchange).exchange.brokerUnbindQueue ref ref } := by
    show (if (s.exchanges s.defaultExchange).zombie then _ else _) = _
    rw [if_neg (by rw [hb.alive]; exact Bool.false_ne_true), hlisted]
    rfl
  -- the name of the queue leads to it or to nothing
  have htable : ∀ name q, (s.brokerDeleteQueue ref).queueTable name = some q ↔
      s.queueTable name = some q ∧ q ≠ ref := by
    intro name q
    show (if s.queueTable (s.queueName ref) = some ref then _ else _ : Shortstr → _) name = _ ↔ _
    split
    · next hsome =>
      by_cases hk : name = s.queueName ref
      · rw [hk, update_self, hsome]
        refine iff_of_false nofun ?_
        rintro ⟨heq, hne⟩
        exact hne (some.inj heq).symm
      · rw [update_of_ne hk]
        refine (and_iff_left_of_imp ?_).symm
        rintro heq rfl
        exact hk (hb.named.name name q heq).symm
    · next hne =>
      refine (and_iff_left_of_imp ?_).symm
      rintro heq rfl
      rw [hb.named.name name q heq] at hne
      exact hne heq
  have hdeleted : (s.brokerDeleteQueue ref).DefaultBound env := by
    constructor
    · exact hb.created
    · rw [hexchange]
      exact hb.alive
    · have hroutes : (s.brokerDeleteQueue ref).defaultRoutes =
          {r ∈ s.defaultRoutes | r.1 ≠ ref} := by
        ext r
        show _ ∧ _ ↔ (_ ∧ _) ∧ _
        rw [htable]
        tauto
      rw [hexchange, hroutes]
      exact brokerUnbindQueue_simulates hb.rel ref
    · rw [hexchange]
      exact fun b hm => hb.arguments b ((hb.rel.wf.brokerUnbindQueue_spec ref).2.2.2.1 b hm)
    · rw [hexchange]
      exact fun b hm => hb.allocated b ((hb.rel.wf.brokerUnbindQueue_spec ref).2.2.2.1 b hm)
    · exact ⟨fun name q heq => hb.named.name name q ((htable name q).mp heq).1,
        fun name q heq => hb.named.lt name q ((htable name q).mp heq).1⟩
  unfold selfDestructed
  simp only
  split
  · exact hdeleted.keeps ⟨rfl, rfl, rfl, rfl, rfl, le_rfl, le_rfl⟩
  · exact hdeleted

/-! ## Every step -/

theorem perform_bound (hb : s.DefaultBound cfg.env) {method : Method}
    (hok : s.SparesDefault (.method channel method))
    (h : s.perform cfg connection channel method = some r) : r.1.DefaultBound cfg.env := by
  cases method with
  | queueDeclare method => exact queueDeclare_bound hb h
  | channelFlow active =>
    cases h
    exact hb.keeps (objects_keeps s _)
  | exchangeDeclare exchange type passive internal nowait =>
    cases h
    exact hb.keeps (exchangeDeclare_keeps hb.created exchange type passive internal nowait)
  | exchangeDelete exchange nowait =>
    cases h
    exact hb.keeps (exchangeDelete_keeps hok)
  | queueBind queue exchange routingKey arguments nowait =>
    exact hb.keeps (queueBind_keeps hok h)
  | queueUnbind queue exchange routingKey arguments nowait =>
    exact hb.keeps (queueUnbind_keeps hb hok h)
  | queueDelete queue nowait =>
    cases h
    exact hb.keeps (queueDelete_keeps s queue nowait)
  | queuePurge queue nowait => exact hb.keeps (queuePurge_keeps h)
  | basicConsume queue method =>
    cases h
    exact hb.keeps (basicConsume_keeps s queue method)
  | basicPublish exchange routingKey headers content mandatory immediate =>
    exact hb.keeps (basicPublish_keeps hb h)
  | basicGet queue => exact hb.keeps (basicGet_keeps h)
  | basicAck | basicCancel consumerTag nowait =>
    cases h
    exact hb.keeps (objects_keeps s _)

/-- A step that spares the default exchange leaves each queue bound to it. -/
theorem step_bound (hb : s.DefaultBound cfg.env) {event : ServerEvent}
    (hok : s.SparesDefault event) (hs : s.step cfg event = some r) : r.1.DefaultBound cfg.env := by
  cases event with
  | method channel method =>
    simp only [step] at hs
    split at hs
    · exact perform_bound hb hok hs
    · cases hs
  | thread event =>
    simp only [step] at hs
    split at hs
    · cases hs
    · obtain ⟨stepped, -, rfl⟩ := map_eq_some_iff.mp hs
      have hstepped : ({ s with objects := stepped.1 } : Server).DefaultBound cfg.env :=
        hb.keeps (objects_keeps s stepped.1)
      cases event with
      | selfDestruct ref => exact selfDestructed_bound hstepped hok
      | broker event | autoDelete ref | delete ref => exact hstepped

theorem exchangeNew_bound (hnext : s.nextExchange = s.defaultExchange)
    (hnone : ∀ name, s.queueTable name = none) (name : Shortstr) (internal : Bool) :
    (s.exchangeNew .direct name internal).DefaultBound env := by
  have hexchange : (s.exchangeNew .direct name internal).exchanges
      (s.exchangeNew .direct name internal).defaultExchange =
        { name, internal, exchange := { type := .direct } } := by
    show update s.exchanges s.nextExchange _ s.defaultExchange = _
    rw [← hnext, update_self]
  have hroutes : (s.exchangeNew .direct name internal).defaultRoutes = ∅ := by
    ext r
    refine iff_of_false (fun h => ?_) id
    have hsome : s.queueTable r.2.1 = some r.1 := h.1
    rw [hnone] at hsome
    cases hsome
  have hempty : ∀ k ref, (s.exchangeNew .direct name internal).queueTable k ≠ some ref := by
    intro k ref h
    have hsome : s.queueTable k = some ref := h
    rw [hnone] at hsome
    cases hsome
  constructor
  · exact Nat.lt_succ_of_le (Nat.le_of_eq hnext.symm)
  · rw [hexchange]
  · rw [hexchange, hroutes]
    exact rel_new env .direct
  · rw [hexchange]
    exact fun b hm => by cases hm
  · rw [hexchange]
    exact fun b hm => by cases hm
  · exact ⟨fun k ref h => absurd h (hempty k ref), fun k ref h => absurd h (hempty k ref)⟩

theorem new_bound (env : Env) (channels : ChannelRef → Channel) :
    (new channels).DefaultBound env := by
  unfold new
  refine foldl_exchangeNew (fun s type name hb => ?_) predeclared ?_
  · exact hb.keeps (exchangeNew_keeps hb.created type name false)
  · exact exchangeNew_bound rfl (fun _ => rfl) defaultName true

/-! ## Publishing to the default exchange -/

/--
A content that is published to the default exchange goes to the queue that its routing key names,
and to no other.
-/
def RoutesByName (cfg : ServerConfig) (s : Server) : Prop :=
  ∀ key headers, ∃ queues,
    (s.exchangePublish cfg s.defaultExchange key headers).map Prod.snd = some queues ∧
      ∀ q, q ∈ queues ↔ s.queueTable key = some q

theorem DefaultBound.routesByName (hb : s.DefaultBound cfg.env) : s.RoutesByName cfg := by
  intro key headers
  have hpublish : PublishOk cfg.env (s.exchanges s.defaultExchange).exchange headers := by
    unfold PublishOk
    rw [hb.rel.type_eq]
    refine ⟨fun h => ?_, nofun⟩
    rcases h with h | h | h <;> cases h
  have hroom : Room cfg.env (s.exchanges s.defaultExchange).exchange key headers := by
    refine room_keyed hb.rel fun q q' a a' hq hq' => ?_
    exact some.inj (hq.1.symm.trans hq'.1)
  obtain ⟨ex', queues, heq, -, hmem⟩ := publish_routes hb.rel hpublish hroom
  refine ⟨queues, ?_, fun q => (hmem q).trans ?_⟩
  · unfold exchangePublish
    simp only [hb.alive, Bool.false_eq_true, if_false, heq]
    rfl
  · constructor
    · rintro ⟨k, a, ⟨hq, -⟩, hr⟩
      have hk : k = key := by simpa [routes] using hr
      exact hk ▸ hq
    · exact fun hq => ⟨key, none, ⟨hq, rfl⟩, by simp [routes]⟩

/-- No step of the run gets at the default exchange. -/
def AlwaysSpares (cfg : ServerConfig) (channels : ChannelRef → Channel)
    (events : List ServerEvent) : Prop :=
  Lib.Along (Lib.logged (step cfg)) (fun s event => s.1.SparesDefault event)
    (new channels, []) events

instance (cfg : ServerConfig) (channels : ChannelRef → Channel) (events : List ServerEvent) :
    Decidable (AlwaysSpares cfg channels events) :=
  inferInstanceAs (Decidable (Lib.Along _ _ _ _))

/-- Methods that change the bindings of an exchange, or destroy it. -/
def rebinds : Method → Bool
  | .exchangeDelete _ _ | .queueBind _ _ _ _ _ | .queueUnbind _ _ _ _ _ => true
  | _ => false

/-- No method that spares the default exchange binds to it, unbinds from it or deletes it. -/
def Inaccessible (cfg : ServerConfig) (s : Server) : Prop :=
  ∀ channel method r, rebinds method = true → s.SparesDefault (.method channel method) →
    s.step cfg (.method channel method) = some r →
      r.1.exchanges s.defaultExchange = s.exchanges s.defaultExchange

theorem rebinds_keeps (hb : s.DefaultBound env) {method : Method} (hm : rebinds method = true)
    (hok : s.SparesDefault (.method channel method))
    (hs : s.step cfg (.method channel method) = some r) : s.Keeps r.1 := by
  simp only [step] at hs
  split at hs
  · cases method with
    | exchangeDelete exchange nowait =>
      cases hs
      exact exchangeDelete_keeps hok
    | queueBind queue exchange routingKey arguments nowait => exact queueBind_keeps hok hs
    | queueUnbind queue exchange routingKey arguments nowait => exact queueUnbind_keeps hb hok hs
    | _ => cases hm
  · cases hs

/--
As long as no step gets at the default exchange, it leads from the name of each queue to this
queue, and it is left alone.
-/
theorem default_exchange_routes {channels : ChannelRef → Channel} {events : List ServerEvent}
    (hok : AlwaysSpares cfg channels events) {s : Server × List Answer}
    (hs : (new channels).outcome cfg events = some s) :
    s.1.RoutesByName cfg ∧ s.1.Inaccessible cfg := by
  have hstep : ∀ (s : Server × List Answer) event s', s.1.DefaultBound cfg.env →
      s.1.SparesDefault event → Lib.logged (step cfg) s event = some s' →
        s'.1.DefaultBound cfg.env := by
    intro s event s' hb hspares hs
    obtain ⟨out, hout, -⟩ := Lib.logged_eq_some hs
    have hb' := step_bound hb hspares hout
    exact hb'
  have hb : s.1.DefaultBound cfg.env :=
    Lib.run_invariant (I := fun s => s.1.DefaultBound cfg.env) hstep (new_bound cfg.env channels)
      hok hs
  exact ⟨hb.routesByName, fun channel method r hm hspares hs =>
    (rebinds_keeps hb hm hspares hs).exchange⟩

/-! ## Getting at the default exchange -/

def ordersName : Shortstr := .cpy "orders".toList

def otherName : Shortstr := .cpy "other".toList

def declaringOrders : ServerEvent := .method 1 (.queueDeclare { queue := ordersName })

/-- A queue is bound to another exchange, and is then deleted. -/
def sparing : List ServerEvent :=
  [.method 1 (.exchangeDeclare otherName "fanout".toList false false false), declaringOrders,
    .method 2 (.queueBind ordersName otherName otherName none false),
    .method 2 (.basicPublish .empty ordersName none ⟨0, 2, 0⟩ false false),
    .method 2 (.queueDelete ordersName false), .thread (.broker (.queueStep 0)),
    .thread (.selfDestruct 0)]

theorem default_exchange_routes_sparing : ∃ s, twoClients.outcome plainConfig sparing = some s ∧
      s.1.RoutesByName plainConfig ∧ s.1.Inaccessible plainConfig := by
  have hsome : (twoClients.outcome plainConfig sparing).isSome = true := by decide +kernel
  obtain ⟨s, hs⟩ := isSome_iff_exists.mp hsome
  exact ⟨s, hs, default_exchange_routes (by decide +kernel) hs⟩

/-- The queues that a content is passed on to after a run, and the queue that it is meant for. -/
def routed (events : List ServerEvent) (key : Shortstr) :
    Option (List QueueRef × Option QueueRef) :=
  (twoClients.outcome plainConfig events).bind fun s =>
    (s.1.exchangePublish plainConfig s.1.defaultExchange key none).map fun r =>
      (r.2, s.1.queueTable key)

/-- A queue is deleted twice and declared again in between. -/
def deletingTwice : List ServerEvent :=
  [declaringOrders, .method 1 (.queueDelete ordersName true),
    .method 2 (.queueDelete ordersName true), .thread (.selfDestruct 0), declaringOrders,
    .thread (.selfDestruct 0), .method 1 (.queueDelete ordersName true),
    .thread (.selfDestruct 1)]

theorem default_exchange_misroutes : routed [declaringOrders,
      .method 2 (.queueBind ordersName defaultName otherName none true)] otherName =
        some ([0], none) ∧
      routed [declaringOrders,
        .method 2 (.queueUnbind ordersName defaultName ordersName none true)] ordersName =
          some ([], some 0) ∧
      routed [declaringOrders, .method 2 (.exchangeDelete defaultName true)] ordersName =
        some ([], some 0) ∧
      routed deletingTwice ordersName = some ([1], none) := by
  decide +kernel

end Server

end OpenAmq
