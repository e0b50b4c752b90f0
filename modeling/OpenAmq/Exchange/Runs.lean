import OpenAmq.Exchange.Routing

/-!
# Runs of an exchange

An exchange of any type refines its table of routes: as long as every request meets
`StepOk`, the requests are worked off, the table is what has been bound and not since
unbound (`run_table`), and a message goes to the queues with a matching route
(`publish_routes`).
-/

namespace OpenAmq

open Exchange

namespace Exchange

/-- The exchange is well-formed, its indices are right and it holds this table of routes. -/
structure Rel (env : Env) (type : ExchangeType) (ex : Exchange) (table : Set Route) : Prop where
  type_eq : ex.type = type
  wf : Wf ex
  compiled : Compiled env ex
  bound : ∀ r, r ∈ table ↔ ex.Bound r

/-- The allocator gives an unused address, the binding index has a free entry for it, and the
arguments decode. -/
structure AllocOk (ex : Exchange) (addr : Nat) (arguments : Option Longstr) : Prop where
  fresh : ∀ b ∈ ex.bindingList, b.addr ≠ addr
  indexed : (ex.bindingIndex.insert addr).isSome
  decoded : (fieldListNew arguments).isOk

/-- The condition under which a request is worked off as the table of routes says. -/
def StepOk (env : Env) (ex : Exchange) : ExchangeOp → Prop
  | .bind addr _ _ routingKey arguments =>
    ex.findBinding (normKey ex.type routingKey) (normArguments arguments) = none →
      AllocOk ex addr (normArguments arguments) ∧
        NewBindingOk env ex (normKey ex.type routingKey) (normArguments arguments)
  | .unbind queue routingKey arguments =>
    normKey ex.type routingKey = routingKey ∨
      ¬ ex.Bound (queue, normKey ex.type routingKey, normArguments arguments)
  | .publish _ headers => PublishOk env ex headers

instance (ex : Exchange) (addr : Nat) (arguments : Option Longstr) :
    Decidable (AllocOk ex addr arguments) :=
  decidable_of_iff ((∀ b ∈ ex.bindingList, b.addr ≠ addr) ∧
      (ex.bindingIndex.insert addr).isSome ∧ (fieldListNew arguments).isOk)
    ⟨fun h => ⟨h.1, h.2.1, h.2.2⟩, fun h => ⟨h.fresh, h.indexed, h.decoded⟩⟩

instance (ex : Exchange) (r : Route) : Decidable (ex.Bound r) := by
  unfold Bound
  infer_instance

instance (env : Env) (ex : Exchange) (op : ExchangeOp) : Decidable (StepOk env ex op) := by
  unfold StepOk
  split <;> infer_instance

theorem rel_new (env : Env) (type : ExchangeType) : Rel env type { type } ∅ where
  type_eq := rfl
  wf := wf_new type
  compiled := compiled_new env type
  bound r := by simp [Bound]

variable {env : Env} {ex : Exchange} {type : ExchangeType} {table : Set Route}
  {headers : Option Longstr}

theorem Compiled.direct {ex' : Exchange} (hc : Compiled env ex) (hd : ex.type = .direct)
    (htype : ex'.type = ex.type) (hindices : ex'.indices = ex.indices) : Compiled env ex' := by
  have hcov : ∀ k a key, covers env ex'.type k a key = false := by
    intro k a key
    rw [htype, hd]
    rfl
  refine ⟨fun key hs n => ?_, fun ht => ?_, fun ht => ?_⟩
  · rw [hindices] at hs ⊢
    rw [hc.indexed key hs, ← htype]
    simp [hcov]
  · exact absurd (hd.symm.trans (htype.symm.trans ht)) (by decide)
  · exact absurd (hd.symm.trans (htype.symm.trans ht)) (by decide)

/-! ## One request -/

theorem newBinding_spec (hR : Rel env type ex table) {addr : Nat} {k : Shortstr}
    {a : Option Longstr} (excl : Bool) (hkey : normKey ex.type k = k)
    (hargs : normArguments a = a) (hnone : ex.findBinding k a = none) (halloc : AllocOk ex addr a)
    (hok : NewBindingOk env ex k a) :
    ∃ ex', ex.newBinding env addr k a excl = some ex' ∧ Rel env type ex' table ∧
      ∃ b ∈ ex'.bindingList, b.addr = addr ∧ b.routingKey = k ∧ b.arguments = a := by
  obtain ⟨⟨bindingIndex, index⟩, hins⟩ := Option.isSome_iff_exists.mp halloc.indexed
  obtain ⟨fields, hdec⟩ : ∃ fields, fieldListNew a = .ok fields := by
    have h := halloc.decoded
    cases hf : fieldListNew a with
    | error e => rw [hf] at h; cases h
    | ok fields => exact ⟨fields, rfl⟩
  obtain ⟨indices, b, hcomp, hsame, hcompiled⟩ := compile_spec hR.compiled
    (b := { addr, routingKey := k, arguments := a, exclusive := excl, index }) rfl hok
  have haddr : b.addr = addr := hsame.addr
  have hbkey : b.routingKey = k := hsame.routingKey
  have hbargs : b.arguments = a := hsame.arguments
  have hbexcl : b.exclusive = excl := hsame.exclusive
  have hbindex : b.index = index := hsame.index
  refine ⟨ex.withBinding bindingIndex indices b, ?_, ?_, ?_⟩
  · unfold newBinding withBinding
    simp only [hins, hdec, hcomp, haddr, hbkey, hbargs, hbexcl, Option.bind_eq_bind,
      Option.bind_some]
  · have hno := hR.wf.findBinding_eq_none.mp hnone
    refine ⟨hR.type_eq, ?_, hcompiled bindingIndex, fun r => ?_⟩
    · refine withBinding_wf hR.wf haddr halloc.fresh (by rw [hbindex]; exact hins) ?_ ?_ ?_ ?_ ?_
      · rw [hbkey, hbargs]
        exact hno
      · rw [hbkey]
        exact hkey
      · rw [hbargs]
        exact hargs
      · intro ht
        rw [hbkey]
        simpa only [NewBindingOk, ht] using hok
      · intro ht
        simpa only [NewBindingOk, ht] using hok
    · rw [bound_withBinding (by rw [haddr]; exact halloc.fresh)]
      exact hR.bound r
  · exact ⟨b, mem_insertBinding.mpr (Or.inl rfl), haddr, hbkey, hbargs⟩

theorem Rel.attach (hR : Rel env type ex table) {b : Binding} (hb : b ∈ ex.bindingList)
    (queue : QueueRef) :
    Rel env type (ex.attach b.addr queue) (insert (queue, b.routingKey, b.arguments) table) where
  type_eq := hR.type_eq
  wf := hR.wf.attach hb queue
  compiled := hR.compiled.of_eq rfl rfl rfl
  bound r := by
    rw [hR.wf.bound_attach hb, Set.mem_insert_iff, hR.bound]

theorem bindQueue_simulates (hR : Rel env type ex table) (addr : Nat) (channel : Option Nat)
    (queue : Queue) (k : Shortstr) (a : Option Longstr)
    (hok : StepOk env ex (.bind addr channel queue k a)) :
    ∃ ex', ex.bindQueue env addr channel queue k a = some ex' ∧
      Rel env type ex' (insert (queue.addr, normKey type k, normArguments a) table) := by
  simp only [StepOk, hR.type_eq] at hok
  unfold bindQueue
  simp only [hR.type_eq]
  cases hf : ex.findBinding (normKey type k) (normArguments a) with
  | some b =>
    obtain ⟨hb, hkey, hargs⟩ := findBinding_eq_some hf
    refine ⟨_, rfl, ?_⟩
    have hR' : Rel env type (ex.notify (ex.bindMixError channel b queue)) table :=
      ⟨hR.type_eq, hR.wf.notify _, hR.compiled.of_eq rfl rfl rfl, hR.bound⟩
    have h := hR'.attach hb queue.addr
    rw [hkey, hargs] at h
    exact h
  | none =>
    obtain ⟨halloc, hnew⟩ := hok hf
    obtain ⟨ex', heq, hR', b, hb, rfl, hkey, hargs⟩ := newBinding_spec hR queue.exclusive
      (by rw [hR.type_eq]; exact normKey_normKey type k) (normArguments_normArguments a)
      hf halloc hnew
    refine ⟨ex'.attach b.addr queue.addr, by simp only [heq, Option.map_some], ?_⟩
    have h := hR'.attach hb queue.addr
    rw [hkey, hargs] at h
    exact h

theorem unbindQueue_simulates (hR : Rel env type ex table) (queue : QueueRef) (k : Shortstr)
    (a : Option Longstr) (hok : StepOk env ex (.unbind queue k a)) :
    ∃ ex', ex.unbindQueue queue k a = some ex' ∧
      Rel env type ex' (table \ {(queue, normKey type k, normArguments a)}) := by
  obtain ⟨ex', heq, hwf, htype, hindices, hlist, hbound⟩ := hR.wf.unbindQueue_spec queue k a
  refine ⟨ex', heq, htype.trans hR.type_eq, hwf, ?_, fun r => ?_⟩
  · by_cases hd : ex.type = .direct
    · exact hR.compiled.direct hd htype hindices
    · exact hR.compiled.of_eq htype (hlist hd) hindices
  · rw [hbound, Set.mem_sdiff, Set.mem_singleton_iff, hR.bound]
    refine and_congr_right fun hr => ?_
    simp only [StepOk, hR.type_eq] at hok
    rcases hok with hk | hno
    · rw [hk]
    · -- the key is not found as it is given, and its normal form is not bound
      constructor
      · rintro - rfl
        obtain ⟨b, hb, hkey, ha, hq⟩ := hr
        have hn := hR.wf.key_norm b hb
        rw [hR.type_eq, hkey] at hn
        exact hno ⟨b, hb, hkey.trans hn.symm, ha, hq⟩
      · rintro - rfl
        exact hno hr

theorem brokerUnbindQueue_simulates (hR : Rel env .direct ex table) (queue : QueueRef) :
    Rel env .direct (ex.brokerUnbindQueue queue queue) {r ∈ table | r.1 ≠ queue} := by
  obtain ⟨hwf, htype, hindices, -, hbound⟩ := hR.wf.brokerUnbindQueue_spec queue
  refine ⟨htype.trans hR.type_eq, hwf, hR.compiled.direct hR.type_eq htype hindices, fun r => ?_⟩
  rw [hbound, ← hR.bound]
  rfl

theorem publish_routes (hR : Rel env type ex table) {routingKey : Shortstr}
    (hok : PublishOk env ex headers) (hroom : Room env ex routingKey headers) :
    ∃ ex' queues, ex.publish env routingKey headers = some (ex', queues) ∧ Rel env type ex' table ∧
      ∀ q, q ∈ queues ↔ ∃ k a, (q, k, a) ∈ table ∧ routes env type k a routingKey headers := by
  obtain ⟨indices, hits, heq, hcompiled, hperm⟩ := typePublish_spec hR.wf hR.compiled hok routingKey
  refine ⟨{ ex with indices }, _, by rw [publish, heq]; rfl,
    ⟨hR.type_eq, { hR.wf with }, hcompiled, hR.bound⟩, fun q => ?_⟩
  have hroom' : (hits.map fun b => (ex.queueSet b.addr).length).sum ≤ queueSetMax := by
    rw [(hperm.map _).sum_nat]
    exact hroom
  have hmem : q ∈ ({ ex with indices } : Exchange).queuesOf hits ↔
      ∃ b ∈ hits, q ∈ ex.queueSet b.addr := mem_queuesOf hroom'
  rw [hmem]
  constructor
  · rintro ⟨b, hb, hq⟩
    obtain ⟨hbl, hr⟩ := List.mem_filter.mp (hperm.mem_iff.mp hb)
    rw [hR.type_eq] at hr
    exact ⟨b.routingKey, b.arguments, (hR.bound _).mpr ⟨b, hbl, rfl, rfl, hq⟩, hr⟩
  · rintro ⟨k, a, hmem, hr⟩
    obtain ⟨b, hb, rfl, rfl, hq⟩ := (hR.bound _).mp hmem
    refine ⟨b, hperm.mem_iff.mpr (List.mem_filter.mpr ⟨hb, ?_⟩), hq⟩
    rw [hR.type_eq]
    exact hr

theorem publish_simulates (hR : Rel env type ex table) (routingKey : Shortstr)
    (hok : PublishOk env ex headers) :
    ∃ ex', (ex.publish env routingKey headers).map Prod.fst = some ex' ∧
      Rel env type ex' table := by
  obtain ⟨indices, hits, heq, hcompiled, -⟩ := typePublish_spec hR.wf hR.compiled hok routingKey
  exact ⟨{ ex with indices }, by rw [publish, heq]; rfl,
    ⟨hR.type_eq, { hR.wf with }, hcompiled, hR.bound⟩⟩

/-- A step of the exchange does to its bindings what the table's step does. -/
theorem step_simulates {op : ExchangeOp} (hR : Rel env type ex table) (hok : StepOk env ex op) :
    ∃ ex', ex.step env op = some ex' ∧ Rel env type ex' (tableStep type table op) := by
  cases op with
  | bind addr channel queue k a => exact bindQueue_simulates hR addr channel queue k a hok
  | unbind queue k a => exact unbindQueue_simulates hR queue k a hok
  | publish routingKey headers => exact publish_simulates hR routingKey hok

/-! ## All requests -/

/-- Every request of the run from a new exchange meets `StepOk`. -/
def RunOk (env : Env) (type : ExchangeType) (ops : List ExchangeOp) : Prop :=
  Lib.Along (Exchange.step env) (StepOk env) { type } ops

instance (env : Env) (type : ExchangeType) (ops : List ExchangeOp) :
    Decidable (RunOk env type ops) := by
  unfold RunOk
  infer_instance

/-- After a run the exchange has the bindings of the table. -/
theorem run_table {ops : List ExchangeOp} (hok : RunOk env type ops) :
    ∃ ex, Lib.run (Exchange.step env) { type } ops = some ex ∧
      Rel env type ex (tableOf type ops) := by
  have hstep : ∀ ex table op, Rel env type ex table → StepOk env ex op →
      ∃ ex', Exchange.step env ex op = some ex' ∧ Rel env type ex' (tableStep type table op) :=
    fun _ _ _ hR h => step_simulates hR h
  exact Lib.run_simulates hstep (rel_new env type) hok

/-- The queues that a message goes to after a list of requests to a new exchange. -/
def deliveries (env : Env) (type : ExchangeType) (ops : List ExchangeOp) (routingKey : Shortstr)
    (headers : Option Longstr) : Option (List QueueRef) :=
  (Lib.run (Exchange.step env) { type } ops).bind fun ex =>
    (ex.publish env routingKey headers).map Prod.snd

/-- The run meets `StepOk`, and in the state it leads to the message is looked up correctly
and all its queues have room. -/
def DeliveryOk (env : Env) (type : ExchangeType) (ops : List ExchangeOp) (routingKey : Shortstr)
    (headers : Option Longstr) : Prop :=
  RunOk env type ops ∧ ((Lib.run (Exchange.step env) { type } ops).all fun ex =>
      decide (PublishOk env ex headers ∧ Room env ex routingKey headers)) = true

instance (env : Env) (type : ExchangeType) (ops : List ExchangeOp) (routingKey : Shortstr)
    (headers : Option Longstr) : Decidable (DeliveryOk env type ops routingKey headers) := by
  unfold DeliveryOk
  infer_instance

theorem mem_deliveries {ops : List ExchangeOp} {routingKey : Shortstr}
    (hok : DeliveryOk env type ops routingKey headers) :
    ∃ queues, deliveries env type ops routingKey headers = some queues ∧ ∀ q, q ∈ queues ↔
        ∃ k a, (q, k, a) ∈ tableOf type ops ∧ routes env type k a routingKey headers := by
  obtain ⟨hrun, hlast⟩ := hok
  obtain ⟨ex, hex, hR⟩ := run_table hrun
  rw [hex, Option.all_some, decide_eq_true_iff] at hlast
  obtain ⟨ex', queues, hpub, -, hmem⟩ := publish_routes hR hlast.1 hlast.2
  refine ⟨queues, ?_, hmem⟩
  rw [deliveries, hex, Option.bind_some, hpub]
  rfl

end Exchange

end OpenAmq
