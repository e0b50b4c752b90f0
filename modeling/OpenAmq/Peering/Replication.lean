import OpenAmq.Exchange.Routing
import OpenAmq.Peering.Federation

/-!
# Replication of bindings

Once everybody has done what it has been told, the peering of a federated exchange lists the
bindings of the exchange that are forwarded. It lists a routing key with arguments once, and
takes it off the list when any binding with these is destroyed.

* `FederatedExchange.settled` — the list of the peering, with all that is on its way to it
* `FederatedExchange.Replicated` — the bindings that are forwarded are on this list
* `FederatedExchange.Guarded` — what is destroyed has been forwarded, and nothing else like it
* `FederatedExchange.replicated_iff_guarded` — the list is right in exactly the runs of such events
-/

namespace OpenAmq

open List Option

/-! ## Requests to a peering -/

namespace Peering

variable {s s' : Peering}

/-- What an event does to the list of bindings, `none` if an assertion fails. -/
def listed (bindings : List PeerBinding) : PeeringEvent → Option (List PeerBinding)
  | .bind routingKey arguments =>
    let binding := binding routingKey arguments
    some (if binding ∈ bindings then bindings else bindings ++ [binding])
  | .unbind routingKey arguments =>
    let binding := binding routingKey arguments
    if binding ∈ bindings then some (bindings.erase binding) else none
  | .forward _ | .start | .stop | .monitor | .agentOpens _ | .agentCloses _ | .agentEnds _
  | .channelOpenOk _ => some bindings

@[simp] theorem push_bindings (method : PeerMethod) : (s.push method).bindings = s.bindings := by
  obtain ⟨sent, heq⟩ := s.push_eq method
  rw [heq]

@[simp] theorem pushAll_bindings (methods : List PeerMethod) :
    (s.pushAll methods).bindings = s.bindings := by
  unfold pushAll
  induction methods generalizing s with
  | nil => rfl
  | cons method methods ih => rw [foldl_cons, ih, push_bindings]

@[simp] theorem closeAgent_bindings : s.closeAgent.bindings = s.bindings := by
  obtain ⟨agents, heq⟩ := s.closeAgent_eq
  rw [heq]

@[simp] theorem initialisePeering_bindings (cut : Option Nat) :
    (s.initialisePeering cut).bindings = s.bindings := by
  unfold initialisePeering
  split
  · rfl
  · cases cut <;> simp

@[simp] theorem monitor_bindings : s.monitor.bindings = s.bindings := by
  unfold monitor
  split
  · split
    · exact closeAgent_bindings
    · rfl
  · split <;> rfl

@[simp] theorem forward_bindings (message : PeerMessage) :
    (s.forward message).bindings = s.bindings := by
  unfold forward
  split <;> simp

/-- The bindings of the peering are those that are listed. -/
theorem step_bindings (event : PeeringEvent) :
    (s.step event).map (·.bindings) = listed s.bindings event := by
  cases event with
  | bind routingKey arguments =>
    simp only [step, listed, map_some, bind]
    split <;> rfl
  | unbind routingKey arguments =>
    simp only [step, listed, unbind]
    split <;> rfl
  | forward message => simp [step, listed]
  | start | stop | agentEnds _ => rfl
  | monitor => simp [step, listed]
  | agentOpens agent | agentCloses agent =>
    simp only [step, listed]
    split <;> rfl
  | channelOpenOk cut =>
    simp only [step, listed]
    split
    · simp
    · rfl

end Peering

theorem FederationType.retracts_of_forwards {federation : FederationType} {exclusive : Bool}
    (h : federation.forwards exclusive = true) : federation.retracts = true := by
  simp only [forwards, retracts, decide_eq_true_eq] at h ⊢
  tauto

/-! ## What an exchange tells its federation -/

variable {b : Binding}

namespace Exchange

variable {env : Env} {federation : FederationType} {ex ex' : Exchange}

/-- What a federation will ask for when it has got all notices. -/
def announced (federation : FederationType) (ex : Exchange) : List PeeringEvent :=
  ex.sent.flatMap federation.requests

/-- A binding of a direct exchange goes with its last queue. -/
def isLast (ex : Exchange) (queue : QueueRef) (b : Binding) : Bool :=
  decide ((ex.queueSet b.addr).erase queue = [] ∧ ex.type = .direct)

def destroyed (ex : Exchange) : FederatedEvent → Option Binding
  | .exchange (.unbind queue routingKey arguments) =>
    ((ex.searchBindings routingKey (normArguments arguments)
      (ex.queueBindings queue)).join).filter (ex.isLast queue)
  | .brokerUnbind addr _ queue => (ex.deref addr).filter (ex.isLast queue)
  | .destroyBinding => ex.bindingList.head?
  | _ => none

/-- What happens to the bindings of an exchange, and what its federation asks for then. -/
inductive Changes (federation : FederationType) (ex ex' : Exchange) : Option Binding → Prop
  | same (hlist : ex'.bindingList = ex.bindingList)
      (htold : ex'.announced federation = ex.announced federation) :
      Changes federation ex ex' none
  | created (b : Binding) (haddr : ∀ b' ∈ ex.bindingList, b'.addr ≠ b.addr)
      (hlist : ex'.bindingList = insertBinding b ex.bindingList)
      (htold : ex'.announced federation = ex.announced federation ++
        if federation.forwards b.exclusive then [.bind b.routingKey b.arguments] else []) :
      Changes federation ex ex' none
  | destroyed (b : Binding) (hmem : b ∈ ex.bindingList)
      (hlist : ex'.bindingList = ex.bindingList.filter fun b' => decide (b'.addr ≠ b.addr))
      (htold : ex'.announced federation = ex.announced federation ++
        if federation.retracts then [.unbind b.routingKey b.arguments] else []) :
      Changes federation ex ex' (some b)

theorem announced_append {sent : List Notice} (h : ex'.sent = ex.sent ++ sent) :
    ex'.announced federation = ex.announced federation ++ sent.flatMap federation.requests := by
  rw [announced, h, flatMap_append]
  rfl

theorem announced_attach (addr : Nat) (queue : QueueRef) :
    (ex.attach addr queue).announced federation = ex.announced federation :=
  (announced_append rfl).trans (append_nil _)

theorem bindMixError_requests (channel : Option Nat) (b : Binding) (queue : Queue) :
    (ex.bindMixError channel b queue).flatMap federation.requests = [] := by
  unfold bindMixError
  split
  · rfl
  · split <;> rfl

theorem Changes.of_eq {ex'' : Exchange} {b : Option Binding} (h : Changes federation ex ex' b)
    (hlist : ex''.bindingList = ex'.bindingList) (hsent : ex''.sent = ex'.sent) :
    Changes federation ex ex'' b := by
  have htold : ex''.announced federation = ex'.announced federation :=
    congrArg (flatMap federation.requests) hsent
  cases h with
  | same hlist' htold' => exact .same (hlist.trans hlist') (htold.trans htold')
  | created b haddr hlist' htold' =>
    exact .created b haddr (hlist.trans hlist') (htold.trans htold')
  | destroyed b hmem hlist' htold' =>
    exact .destroyed b hmem (hlist.trans hlist') (htold.trans htold')

variable {routingKey : Shortstr} {arguments : Option Longstr}

theorem bindQueue_changes {addr : Nat} {channel : Option Nat} {queue : Queue}
    (hfed : ex.federation.isSome) (haddr : ∀ b ∈ ex.bindingList, b.addr ≠ addr)
    (h : ex.bindQueue env addr channel queue routingKey arguments = some ex') :
    ex'.federation = ex.federation ∧ Changes federation ex ex' none := by
  simp only [bindQueue] at h
  split at h
  · cases h
    refine ⟨rfl, .same rfl ?_⟩
    rw [announced_attach, announced_append rfl, bindMixError_requests, append_nil]
  · obtain ⟨ex1, hnew, rfl⟩ := map_eq_some_iff.mp h
    obtain ⟨bindingIndex, indices, b, rfl, -, -, -, rfl⟩ := newBinding_eq_withBinding hnew
    refine ⟨rfl, .created b haddr rfl ?_⟩
    rw [announced_attach, announced_append rfl, if_pos hfed, flatMap_singleton]
    rfl

theorem unbind_changes (ex' : Exchange) (queue : QueueRef) (hfed : ex.federation.isSome)
    (hmem : b ∈ ex.bindingList) (htype : ex'.type = ex.type)
    (hfed' : ex'.federation = ex.federation) (hlist : ex'.bindingList = ex.bindingList)
    (htold : ex'.announced federation = ex.announced federation) :
    let ex'' := if (ex.queueSet b.addr).erase queue = [] then ex'.unbind b else ex'
    ex''.federation = ex.federation ∧
      Changes federation ex ex'' ((some b).filter (ex.isLast queue)) := by
  cases hlast : ex.isLast queue b with
  | true =>
    obtain ⟨hset, hdirect⟩ := of_decide_eq_true hlast
    rw [if_pos hset, filter_some_pos hlast]
    have hunbind : ex'.unbind b = ex'.directUnbind b := by
      simp only [unbind, htype, hdirect]
    rw [hunbind]
    refine ⟨hfed', .destroyed b hmem ?_ ?_⟩
    · rw [← hlist]
      rfl
    · rw [announced_append rfl, htold, hfed', if_pos hfed, flatMap_singleton]
      rfl
  | false =>
    have hnot := of_decide_eq_false hlast
    rw [filter_some_neg (by simp [hlast])]
    split
    · next hset =>
      have hunbind : ex'.unbind b = ex' := by
        cases ht : ex'.type with
        | direct => exact absurd ⟨hset, htype.symm.trans ht⟩ hnot
        | system | fanout | topic | headers | regexp => simp only [unbind, ht]
      rw [hunbind]
      exact ⟨hfed', .same hlist htold⟩
    · exact ⟨hfed', .same hlist htold⟩

theorem detach_changes (queue : QueueRef) (hfed : ex.federation.isSome)
    (hmem : b ∈ ex.bindingList) :
    (ex.detach b queue).federation = ex.federation ∧
      Changes federation ex (ex.detach b queue) ((some b).filter (ex.isLast queue)) := by
  obtain ⟨hfed', hchanges⟩ := unbind_changes { ex with
    queueSet := Function.update ex.queueSet b.addr ((ex.queueSet b.addr).erase queue)
    sent := ex.sent ++ [Notice.queueBindingCancel queue b.addr] } queue hfed hmem rfl rfl rfl
    ((announced_append rfl).trans (append_nil _))
  exact ⟨hfed', hchanges.of_eq rfl rfl⟩

theorem popBinding_changes (listed queue : QueueRef) (hfed : ex.federation.isSome)
    (hmem : b ∈ ex.bindingList) :
    (ex.popBinding b listed queue).federation = ex.federation ∧
      Changes federation ex (ex.popBinding b listed queue) ((some b).filter (ex.isLast queue)) := by
  obtain ⟨hfed', hchanges⟩ := unbind_changes { ex with
    queueSet := Function.update ex.queueSet b.addr ((ex.queueSet b.addr).erase queue) } queue
    hfed hmem rfl rfl rfl rfl
  exact ⟨hfed', hchanges.of_eq rfl rfl⟩

theorem mem_of_deref {addr : Nat} (h : ex.deref addr = some b) : b ∈ ex.bindingList :=
  mem_of_find?_eq_some h

theorem mem_of_searchBindings {addrs : List Nat}
    (h : ex.searchBindings routingKey arguments addrs = some (some b)) : b ∈ ex.bindingList := by
  induction addrs with
  | nil => cases h
  | cons addr addrs ih =>
    obtain ⟨b', hb', h⟩ := bind_eq_some_iff.mp h
    split at h
    · obtain rfl := some.inj (some.inj h)
      exact mem_of_deref hb'
    · exact ih h

theorem unbindQueue_changes {queue : QueueRef} (hfed : ex.federation.isSome)
    (h : ex.unbindQueue queue routingKey arguments = some ex') :
    ex'.federation = ex.federation ∧ Changes federation ex ex'
        (ex.destroyed (.exchange (.unbind queue routingKey arguments))) := by
  obtain ⟨found, hfound, rfl⟩ := map_eq_some_iff.mp h
  rw [destroyed, hfound, join_some]
  cases found with
  | none => exact ⟨rfl, .same rfl rfl⟩
  | some b => exact detach_changes queue hfed (mem_of_searchBindings hfound)

/-- What a step does to the bindings, and what the federation asks for then -/
theorem step_changes {op : ExchangeOp} (hfed : ex.federation.isSome)
    (hop : ∀ addr channel queue routingKey arguments,
      op = .bind addr channel queue routingKey arguments → ∀ b ∈ ex.bindingList, b.addr ≠ addr)
    (h : ex.step env op = some ex') :
    ex'.federation = ex.federation ∧ Changes federation ex ex' (ex.destroyed (.exchange op)) := by
  cases op with
  | bind addr channel queue routingKey arguments =>
    exact bindQueue_changes hfed (hop addr channel queue routingKey arguments rfl) h
  | unbind queue routingKey arguments => exact unbindQueue_changes hfed h
  | publish routingKey headers =>
    obtain ⟨⟨ex1, queues⟩, hpublish, rfl⟩ := map_eq_some_iff.mp h
    obtain ⟨r, htype, hr⟩ := map_eq_some_iff.mp hpublish
    obtain ⟨⟨indices, heq⟩, -⟩ := typePublish_looks htype
    obtain ⟨rfl, -⟩ := Prod.mk.inj hr
    rw [heq]
    exact ⟨rfl, .same rfl rfl⟩

theorem brokerUnbind_changes (addr : Nat) (listed queue : QueueRef) (hfed : ex.federation.isSome) :
    (ex.brokerUnbind addr listed queue).federation = ex.federation ∧
      Changes federation ex (ex.brokerUnbind addr listed queue)
        (ex.destroyed (.brokerUnbind addr listed queue)) := by
  simp only [brokerUnbind, destroyed]
  cases hderef : ex.deref addr with
  | none => exact ⟨rfl, .same rfl rfl⟩
  | some b => exact popBinding_changes listed queue hfed (mem_of_deref hderef)

theorem destroyBinding_changes (hfed : ex.federation.isSome) :
    ex.destroyBinding.federation = ex.federation ∧
      Changes federation ex ex.destroyBinding (ex.destroyed .destroyBinding) := by
  unfold destroyBinding destroyed
  cases hlist : ex.bindingList with
  | nil => exact ⟨rfl, .same rfl rfl⟩
  | cons b bs =>
    refine ⟨rfl, .destroyed b (by rw [hlist]; exact mem_cons_self) rfl ?_⟩
    rw [announced_append rfl, if_pos hfed, flatMap_singleton]
    rfl

end Exchange

namespace FederatedExchange

variable {env : Env} {s s' : FederatedExchange} {e : FederatedEvent}

/-! ## What the peering will list -/

/-- What the peering has been asked for, or will be when the federation has got all notices. -/
def pending (s : FederatedExchange) : List PeeringEvent :=
  s.requests ++ s.exchange.announced s.federation

/-- The list of the peering when it has done all that, `none` if an assertion fails. -/
def settled (s : FederatedExchange) : Option (List PeerBinding) :=
  s.pending.foldlM Peering.listed s.peering.bindings

/-- The binding of a peering that stands for a binding of the exchange. -/
def peerBinding (b : Binding) : PeerBinding := Peering.binding b.routingKey b.arguments

def Forwarded (s : FederatedExchange) (binding : PeerBinding) : Prop :=
  ∃ b ∈ s.exchange.bindingList, s.federation.forwards b.exclusive = true ∧ peerBinding b = binding

/-- No assertion is going to fail, and the peering will list what is forwarded, once. -/
def Replicated (s : FederatedExchange) : Prop :=
  ∃ bindings, s.settled = some bindings ∧ bindings.Nodup ∧
    ∀ binding, binding ∈ bindings ↔ s.Forwarded binding

theorem Replicated.bindings (h : s.Replicated) (hrest : s.pending = []) : s.peering.bindings.Nodup ∧
      ∀ binding, binding ∈ s.peering.bindings ↔ s.Forwarded binding := by
  obtain ⟨bindings, hsettled, hnodup, hlisted⟩ := h
  rw [settled, hrest] at hsettled
  cases hsettled
  exact ⟨hnodup, hlisted⟩

/-- The peering does what it is asked for, and lists what is forwarded. -/
def Sound (env : Env) (s : FederatedExchange) (e : FederatedEvent) : Prop :=
  (e = .request → (s.step env e).isSome) ∧ ∀ s', s.step env e = some s' → s'.Replicated

/-- The binding has been forwarded, and no other one that is the same for the peering. -/
def Harmless (s : FederatedExchange) (b : Binding) : Prop :=
  s.federation.retracts = true → s.federation.forwards b.exclusive = true ∧
      ∀ b' ∈ s.exchange.bindingList, b'.addr ≠ b.addr →
        s.federation.forwards b'.exclusive = true → peerBinding b' ≠ peerBinding b

/-- A binding is destroyed only if that is harmless. -/
def Guarded (s : FederatedExchange) (e : FederatedEvent) : Prop :=
  ∀ b ∈ s.exchange.destroyed e, s.Harmless b

/-- A new binding is at an address where there is no other one. -/
def Allocates (s : FederatedExchange) : FederatedEvent → Prop
  | .exchange (.bind addr _ _ _ _) => ∀ b ∈ s.exchange.bindingList, b.addr ≠ addr
  | _ => True

instance (s : FederatedExchange) : (e : FederatedEvent) → Decidable (s.Allocates e)
  | .exchange (.bind addr _ _ _ _) =>
    inferInstanceAs (Decidable (∀ b ∈ s.exchange.bindingList, b.addr ≠ addr))
  | .exchange (.unbind _ _ _) | .exchange (.publish _ _) | .brokerUnbind _ _ _
  | .destroyBinding | .notice | .request | .peering _ => isTrue trivial

/-- What holds between all events. -/
structure Apart (s : FederatedExchange) : Prop where
  federated : s.exchange.federation.isSome
  nodup : (s.exchange.bindingList.map (·.addr)).Nodup

variable {ex : Exchange}

theorem settled_exchange {told : List PeeringEvent}
    (h : ex.announced s.federation = s.exchange.announced s.federation ++ told) :
    settled { s with exchange := ex } = s.settled.bind (told.foldlM Peering.listed ·) := by
  simp only [settled, pending, h]
  rw [← append_assoc, foldlM_append]
  rfl

theorem mem_ite_append {α : Type*} [DecidableEq α] {xs : List α} {x y : α} :
    (y ∈ if x ∈ xs then xs else xs ++ [x]) ↔ y ∈ xs ∨ y = x := by
  split
  · next hmem => exact (or_iff_left_of_imp fun h => h ▸ hmem).symm
  · rw [mem_append, mem_singleton]

theorem Replicated.created (h : s.Replicated)
    (hlist : ex.bindingList = Exchange.insertBinding b s.exchange.bindingList)
    (htold : ex.announced s.federation = s.exchange.announced s.federation ++
      if s.federation.forwards b.exclusive then [.bind b.routingKey b.arguments] else [])
    : Replicated { s with exchange := ex } := by
  obtain ⟨bindings, hsettled, hnodup, hmem⟩ := h
  have hforwarded : ∀ binding, Forwarded { s with exchange := ex } binding ↔ s.Forwarded binding ∨
        s.federation.forwards b.exclusive = true ∧ binding = peerBinding b := by
    intro binding
    simp only [Forwarded, hlist, Exchange.mem_insertBinding]
    constructor
    · rintro ⟨b', rfl | hb', hf, rfl⟩
      · exact Or.inr ⟨hf, rfl⟩
      · exact Or.inl ⟨b', hb', hf, rfl⟩
    · rintro (⟨b', hb', hf, rfl⟩ | ⟨hf, rfl⟩)
      · exact ⟨b', Or.inr hb', hf, rfl⟩
      · exact ⟨b, Or.inl rfl, hf, rfl⟩
  cases hf : s.federation.forwards b.exclusive with
  | true =>
    rw [hf, if_pos rfl] at htold
    refine ⟨if peerBinding b ∈ bindings then bindings else bindings ++ [peerBinding b],
      ?_, ?_, fun binding => ?_⟩
    · rw [settled_exchange htold, hsettled]
      rfl
    · split
      · exact hnodup
      · next hnew => exact List.Nodup.append hnodup (nodup_singleton _) (by simpa using hnew)
    · rw [mem_ite_append, hmem, hforwarded, hf]
      simp
  | false =>
    rw [hf, if_neg Bool.false_ne_true, append_nil] at htold
    refine ⟨bindings, ?_, hnodup, fun binding => ?_⟩
    · rw [settled_exchange (htold.trans (append_nil _).symm), hsettled]
      rfl
    · rw [hmem, hforwarded, hf]
      simp

theorem Apart.addr_ne_iff {b' : Binding} (hapart : s.Apart) (hb : b ∈ s.exchange.bindingList)
    (hb' : b' ∈ s.exchange.bindingList) : b'.addr ≠ b.addr ↔ b' ≠ b :=
  not_congr ⟨inj_on_of_nodup_map hapart.nodup hb' hb, congrArg _⟩

theorem Apart.forwarded_destroyed (hapart : s.Apart)
    (hmem : b ∈ s.exchange.bindingList)
    (hlist : ex.bindingList = s.exchange.bindingList.filter fun b' => decide (b'.addr ≠ b.addr))
    {binding : PeerBinding} :
    Forwarded { s with exchange := ex } binding ↔
      ∃ b' ∈ s.exchange.bindingList, b' ≠ b ∧ s.federation.forwards b'.exclusive = true ∧
        peerBinding b' = binding := by
  simp only [Forwarded, hlist, mem_filter, decide_eq_true_eq]
  constructor
  · rintro ⟨b', ⟨hb', haddr⟩, hf, heq⟩
    exact ⟨b', hb', (hapart.addr_ne_iff hmem hb').mp haddr, hf, heq⟩
  · rintro ⟨b', hb', hb, hf, heq⟩
    exact ⟨b', ⟨hb', (hapart.addr_ne_iff hmem hb').mpr hb⟩, hf, heq⟩

theorem Apart.harmless_iff (hapart : s.Apart) (hmem : b ∈ s.exchange.bindingList)
    (hr : s.federation.retracts = true) :
    s.Harmless b ↔ s.federation.forwards b.exclusive = true ∧
      ∀ b' ∈ s.exchange.bindingList, b' ≠ b → s.federation.forwards b'.exclusive = true →
        peerBinding b' ≠ peerBinding b := by
  constructor
  · intro h
    exact ⟨(h hr).1, fun b' hb' hb => (h hr).2 b' hb' ((hapart.addr_ne_iff hmem hb').mpr hb)⟩
  · intro h _
    exact ⟨h.1, fun b' hb' haddr => h.2 b' hb' ((hapart.addr_ne_iff hmem hb').mp haddr)⟩

/-- After a binding is gone the federation is right just if that did no harm. -/
theorem Apart.destroyed_iff (hapart : s.Apart) (h : s.Replicated)
    (hmem : b ∈ s.exchange.bindingList)
    (hlist : ex.bindingList = s.exchange.bindingList.filter fun b' => decide (b'.addr ≠ b.addr))
    (htold : ex.announced s.federation = s.exchange.announced s.federation ++
      if s.federation.retracts then [.unbind b.routingKey b.arguments] else [])
    : Replicated { s with exchange := ex } ↔ s.Harmless b := by
  obtain ⟨bindings, hsettled, hnodup, hlisted⟩ := h
  cases hr : s.federation.retracts with
  | true =>
    rw [hr, if_pos rfl] at htold
    rw [hapart.harmless_iff hmem hr]
    have hafter : settled { s with exchange := ex } =
        if peerBinding b ∈ bindings then some (bindings.erase (peerBinding b)) else none := by
      rw [settled_exchange htold, hsettled, bind_some]
      simp only [foldlM_cons, foldlM_nil, bind_pure]
      rfl
    constructor
    · rintro ⟨bindings', hsettled', -, hlisted'⟩
      rw [hafter] at hsettled'
      split at hsettled'
      · next hin =>
        cases hsettled'
        have hout : ¬ Forwarded { s with exchange := ex } (peerBinding b) := fun hf =>
          (hnodup.mem_erase_iff.mp ((hlisted' _).mpr hf)).1 rfl
        rw [hapart.forwarded_destroyed hmem hlist] at hout
        have hother : ∀ b' ∈ s.exchange.bindingList, b' ≠ b →
            s.federation.forwards b'.exclusive = true → peerBinding b' ≠ peerBinding b :=
          fun b' hb' hb hf heq => hout ⟨b', hb', hb, hf, heq⟩
        refine ⟨?_, hother⟩
        -- some binding has been forwarded, and there is no other one
        obtain ⟨b', hb', hf, heq⟩ := (hlisted _).mp hin
        by_cases hb : b' = b
        · exact hb ▸ hf
        · exact absurd heq (hother b' hb' hb hf)
      · cases hsettled'
    · rintro ⟨hf, hother⟩
      have hin : peerBinding b ∈ bindings := (hlisted _).mpr ⟨b, hmem, hf, rfl⟩
      rw [if_pos hin] at hafter
      refine ⟨_, hafter, hnodup.erase _, fun binding => ?_⟩
      rw [hnodup.mem_erase_iff, hlisted, hapart.forwarded_destroyed hmem hlist]
      constructor
      · rintro ⟨hne, b', hb', hf', rfl⟩
        exact ⟨b', hb', fun heq => hne (congrArg _ heq), hf', rfl⟩
      · rintro ⟨b', hb', hb, hf', rfl⟩
        exact ⟨hother b' hb' hb hf', b', hb', hf', rfl⟩
  | false =>
    rw [hr, if_neg Bool.false_ne_true] at htold
    have hnone : ∀ exclusive, s.federation.forwards exclusive = false := fun exclusive => by
      cases hf : s.federation.forwards exclusive with
      | true => exact absurd (FederationType.retracts_of_forwards hf) (by simp [hr])
      | false => rfl
    refine iff_of_true ⟨bindings, ?_, hnodup, fun binding => ?_⟩ fun hr' => ?_
    · rw [settled_exchange htold, hsettled]
      rfl
    · rw [hlisted]
      simp [Forwarded, hnone]
    · rw [hr] at hr'
      cases hr'

theorem Apart.replicated_iff {b : Option Binding} (hapart : s.Apart)
    (h : s.Replicated) (hchanges : s.exchange.Changes s.federation ex b) :
    Replicated { s with exchange := ex } ↔ ∀ b' ∈ b, s.Harmless b' := by
  cases hchanges with
  | same hlist htold =>
    refine iff_of_true ?_ (by simp)
    obtain ⟨bindings, hsettled, hnodup, hlisted⟩ := h
    refine ⟨bindings, ?_, hnodup, fun binding => ?_⟩
    · rw [settled_exchange (htold.trans (append_nil _).symm), hsettled]
      rfl
    · rw [hlisted, Forwarded, Forwarded, hlist]
  | created b haddr hlist htold => exact iff_of_true (h.created hlist htold) (by simp)
  | destroyed b hmem hlist htold =>
    rw [hapart.destroyed_iff h hmem hlist htold]
    simp

theorem Apart.changes {b : Option Binding} (hapart : s.Apart)
    (hfed : ex.federation = s.exchange.federation)
    (hchanges : s.exchange.Changes s.federation ex b) : Apart { s with exchange := ex } where
  federated := by
    rw [hfed]
    exact hapart.federated
  nodup := by
    cases hchanges with
    | same hlist _ =>
      rw [hlist]
      exact hapart.nodup
    | created b haddr hlist _ =>
      rw [hlist, ((Exchange.insertBinding_perm b _).map _).nodup_iff, map_cons, nodup_cons]
      refine ⟨fun hmem => ?_, hapart.nodup⟩
      obtain ⟨b', hb', heq⟩ := mem_map.mp hmem
      exact haddr b' hb' heq
    | destroyed b _ hlist _ =>
      rw [hlist]
      exact hapart.nodup.sublist (filter_sublist.map _)

/-! ## One event -/

/-- What an event does to the exchange, `none` if it does something else. -/
def exchangeStep (env : Env) (ex : Exchange) : FederatedEvent → Option (Option Exchange)
  | .exchange op => some (ex.step env op)
  | .brokerUnbind addr listed queue => some (some (ex.brokerUnbind addr listed queue))
  | .destroyBinding => some (some ex.destroyBinding)
  | .notice | .request | .peering _ => none

/-- An event of the exchange changes nothing else. -/
theorem step_exchange {r : Option Exchange} (he : exchangeStep env s.exchange e = some r) :
    s.step env e = r.map fun exchange => { s with exchange } := by
  cases e with
  | exchange op | brokerUnbind addr listed queue | destroyBinding =>
    cases he
    rfl
  | notice | request | peering _ => cases he

theorem Apart.exchangeStep_changes (hapart : s.Apart) (halloc : s.Allocates e)
    (he : exchangeStep env s.exchange e = some (some ex)) :
    ex.federation = s.exchange.federation ∧
      s.exchange.Changes s.federation ex (s.exchange.destroyed e) := by
  cases e with
  | exchange op =>
    refine Exchange.step_changes hapart.federated ?_ (some.inj he)
    rintro addr channel queue routingKey arguments rfl
    exact halloc
  | brokerUnbind addr listed queue =>
    obtain rfl := some.inj (some.inj he)
    exact Exchange.brokerUnbind_changes addr listed queue hapart.federated
  | destroyBinding =>
    obtain rfl := some.inj (some.inj he)
    exact Exchange.destroyBinding_changes hapart.federated
  | notice | request | peering _ => cases he

theorem exists_of_destroyed (h : ex.destroyed e = some b) :
    ∃ ex', exchangeStep env ex e = some (some ex') := by
  cases e with
  | exchange op =>
    cases op with
    | unbind queue routingKey arguments =>
      simp only [Exchange.destroyed] at h
      cases hsearch : ex.searchBindings routingKey (Exchange.normArguments arguments)
          (ex.queueBindings queue) with
      | none => simp [hsearch] at h
      | some found =>
        exact ⟨_, by simp only [exchangeStep, Exchange.step, Exchange.unbindQueue, hsearch]; rfl⟩
    | bind _ _ _ _ _ | publish _ _ => cases h
  | brokerUnbind addr listed queue | destroyBinding => exact ⟨_, rfl⟩
  | notice | request | peering _ => cases h

/-- Other events leave the exchange and its federation alone. -/
theorem step_quiet (he : exchangeStep env s.exchange e = none) (h : s.step env e = some s') :
    s'.exchange.bindingList = s.exchange.bindingList ∧
      s'.exchange.federation = s.exchange.federation ∧ s'.federation = s.federation ∧
      s'.settled = s.settled := by
  cases e with
  | exchange op | brokerUnbind addr listed queue | destroyBinding => cases he
  | notice =>
    simp only [step] at h
    split at h
    · cases h
      exact ⟨rfl, rfl, rfl, rfl⟩
    · next notice sent hsent =>
      cases h
      refine ⟨rfl, rfl, rfl, ?_⟩
      have hpending : s.pending = (s.requests ++ s.federation.requests notice) ++
          sent.flatMap s.federation.requests := by
        simp only [pending, Exchange.announced, hsent, flatMap_cons, append_assoc]
      rw [settled, settled, hpending]
      rfl
  | request =>
    simp only [step] at h
    split at h
    · cases h
      exact ⟨rfl, rfl, rfl, rfl⟩
    · next request requests hrequests =>
      obtain ⟨peering, hstep, rfl⟩ := map_eq_some_iff.mp h
      refine ⟨rfl, rfl, rfl, ?_⟩
      have hlisted : Peering.listed s.peering.bindings request = some peering.bindings := by
        rw [← Peering.step_bindings, hstep]
        rfl
      have hpending : s.pending = request :: (requests ++ s.exchange.announced s.federation) := by
        rw [pending, hrequests]
        rfl
      rw [settled, settled, hpending, foldlM_cons, hlisted]
      rfl
  | peering event =>
    have hlisted : ∀ peering, s.peering.step event = some peering →
        Peering.listed s.peering.bindings event = some peering.bindings := fun peering hstep => by
      rw [← Peering.step_bindings, hstep]
      rfl
    cases event with
    | bind _ _ | unbind _ _ =>
      cases h
      exact ⟨rfl, rfl, rfl, rfl⟩
    | forward _ | start | stop | monitor | agentOpens _ | agentCloses _ | agentEnds _
    | channelOpenOk _ =>
      simp only [step] at h
      obtain ⟨peering, hstep, rfl⟩ := map_eq_some_iff.mp h
      have hbindings : s.peering.bindings = peering.bindings := some.inj (hlisted peering hstep)
      refine ⟨rfl, rfl, rfl, ?_⟩
      simp only [settled, pending, hbindings]

theorem Replicated.request (h : s.Replicated) : (s.step env .request).isSome := by
  obtain ⟨bindings, hsettled, -⟩ := h
  simp only [step]
  split
  · rfl
  · next request requests hrequests =>
    rw [settled, pending, hrequests, cons_append, foldlM_cons] at hsettled
    obtain ⟨bindings', hlisted, -⟩ := bind_eq_some_iff.mp hsettled
    rw [← Peering.step_bindings] at hlisted
    obtain ⟨peering, hstep, -⟩ := map_eq_some_iff.mp hlisted
    rw [hstep]
    rfl

/-- An event keeps addresses of bindings apart, if new ones get a free address. -/
theorem Apart.step (hapart : s.Apart) (halloc : s.Allocates e) (h : s.step env e = some s') :
    s'.Apart := by
  cases he : exchangeStep env s.exchange e with
  | none =>
    obtain ⟨hlist, hfed, -, -⟩ := step_quiet he h
    exact ⟨by rw [hfed]; exact hapart.federated, by rw [hlist]; exact hapart.nodup⟩
  | some r =>
    rw [step_exchange he] at h
    obtain ⟨ex, rfl, rfl⟩ := map_eq_some_iff.mp h
    obtain ⟨hfed, hchanges⟩ := hapart.exchangeStep_changes halloc he
    exact hapart.changes hfed hchanges

theorem Apart.sound_iff (hapart : s.Apart) (h : s.Replicated) (halloc : s.Allocates e) :
    s.Sound env e ↔ s.Guarded e := by
  cases he : exchangeStep env s.exchange e with
  | none =>
    refine iff_of_true ⟨fun heq => heq ▸ h.request, fun s' hs => ?_⟩ fun b hb => ?_
    · obtain ⟨hlist, -, hfed, hsettled⟩ := step_quiet he hs
      obtain ⟨bindings, hbindings, hnodup, hlisted⟩ := h
      refine ⟨bindings, hsettled.trans hbindings, hnodup, fun binding => ?_⟩
      rw [hlisted, Forwarded, Forwarded, hlist, hfed]
    · obtain ⟨ex, hex⟩ := exists_of_destroyed hb
      rw [hex] at he
      cases he
  | some r =>
    have hstep := step_exchange he
    constructor
    · intro hsound b hb
      obtain ⟨ex, hex⟩ := exists_of_destroyed hb
      obtain rfl := some.inj (he.symm.trans hex)
      obtain ⟨-, hchanges⟩ := hapart.exchangeStep_changes halloc he
      exact (hapart.replicated_iff h hchanges).mp (hsound.2 _ hstep) b hb
    · intro hguard
      refine ⟨fun heq => ?_, fun s' hs => ?_⟩
      · rw [heq] at he
        cases he
      · rw [hstep] at hs
        obtain ⟨ex, rfl, rfl⟩ := map_eq_some_iff.mp hs
        obtain ⟨-, hchanges⟩ := hapart.exchangeStep_changes halloc he
        exact (hapart.replicated_iff h hchanges).mpr hguard

/-! ## Whole runs -/

/--
Whatever is bound and unbound, and whenever the federation and the peering get to hear of it: the
peering lists what is forwarded, and never fails to find a binding on its list, if and only if
no binding is destroyed that has not been forwarded or is the same as another one.
-/
theorem replicated_iff_guarded {type : ExchangeType} {name : Shortstr}
    {federation : FederationType} {es : List FederatedEvent}
    (halloc : Lib.Along (step env) Allocates (new type name federation) es) :
    Lib.Along (step env) (Sound env) (new type name federation) es ↔
      Lib.Along (step env) Guarded (new type name federation) es := by
  have hapart : Apart (new type name federation) := ⟨rfl, nodup_nil⟩
  have hreplicated : Replicated (new type name federation) :=
    ⟨[], rfl, nodup_nil, by simp [Forwarded, new]⟩
  refine Lib.along_congr (I := fun s => s.Apart ∧ s.Replicated)
    (fun _ _ h ha => h.1.sound_iff h.2 ha) ?_ ⟨hapart, hreplicated⟩ halloc
  intro s e s' h ha hguard hs
  exact ⟨h.1.step ha hs, ((h.1.sound_iff h.2 ha).mpr hguard).2 s' hs⟩

section Service

/-- A table with one void field, named `a`. -/
def voidArguments : Longstr := [1, 97, 86]

def noMatch : Env where
  pcreMatch _ _ := false
  formatDecimal _ _ := []

/-- A queue is bound and unbound, and all is told that there is to tell. -/
def boundOnce (exclusive : Bool) : List FederatedEvent :=
  [.exchange (.bind 4096 none ⟨1, exclusive⟩ .empty none), .exchange (.unbind 1 .empty none),
    .notice, .notice, .notice, .notice]

theorem replicated_boundOnce :
    Lib.Along (step noMatch) (Sound noMatch) (new .direct .empty .service)
        (boundOnce true ++ [.request, .request]) ↔
      Lib.Along (step noMatch) Guarded (new .direct .empty .service)
        (boundOnce true ++ [.request, .request]) :=
  replicated_iff_guarded (by decide +kernel)

/-- Two bindings with the same routing key and the same arguments, one of which is destroyed. -/
def boundTwice : List FederatedEvent :=
  [.exchange (.bind 4096 none ⟨1, false⟩ .empty none),
    .exchange (.bind 8192 none ⟨2, false⟩ .empty (some voidArguments)),
    -- the hash no longer leads to the second binding
    .exchange (.unbind 1 .empty none),
    .exchange (.bind 12288 none ⟨3, false⟩ .empty (some voidArguments)),
    .exchange (.unbind 3 .empty (some voidArguments))] ++
  replicate 10 .notice ++ replicate 5 .request

/--
A queue that is not exclusive is not forwarded by a service federation, but retracted; and a
binding that is still there is retracted with another one that is the same.
-/
theorem retracts_wrongly :
    (∃ s, Lib.run (step noMatch) (new .direct .empty .service) (boundOnce false) = some s ∧
      s.requests = [.unbind .empty none] ∧ (s.step noMatch .request).isNone) ∧
    ∃ s, Lib.run (step noMatch) (new .direct .empty .fanout) boundTwice = some s ∧
      s.pending = [] ∧ s.peering.bindings = [] ∧ s.exchange.bindingList.map (·.addr) = [8192] := by
  refine ⟨⟨_, rfl, ?_⟩, _, rfl, ?_⟩ <;> decide +kernel

end Service

end FederatedExchange

end OpenAmq
