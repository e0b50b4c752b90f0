import Mathlib.Data.Set.Insert
import OpenAmq.Exchange.Model

/-!
# The bindings of an exchange

What an exchange is for is a table of routes: which queue is bound with which routing key
and arguments. The code spreads this table over the binding list, the queue set of each
binding, the list of bindings of each queue, a hash by routing key and the binding index.

* `tableStep` — what a request does to the table
* `Exchange.Wf` — the five structures agree
* `Wf.attach`, `withBinding_wf`, `Wf.unbindQueue_spec`, `Wf.brokerUnbindQueue_spec` — how the
  requests act on them
-/

namespace OpenAmq

open Exchange List Function Option

/-! ## The table of routes -/

/-- A queue with the routing key and the arguments that it is bound with. -/
abbrev Route := QueueRef × Shortstr × Option Longstr

def tableStep (type : ExchangeType) (table : Set Route) : ExchangeOp → Set Route
  | .bind _ _ queue routingKey arguments =>
    insert (queue.addr, normKey type routingKey, normArguments arguments) table
  | .unbind queue routingKey arguments =>
    table \ {(queue, normKey type routingKey, normArguments arguments)}
  | .publish _ _ => table

/-- The routes after a list of requests: what has been bound and not since unbound. -/
def tableOf (type : ExchangeType) (ops : List ExchangeOp) : Set Route :=
  ops.foldl (tableStep type) ∅

/-- The fields of a binding that compiling it does not change. -/
structure Binding.SameKey (b b' : Binding) : Prop where
  addr : b'.addr = b.addr
  routingKey : b'.routingKey = b.routingKey
  arguments : b'.arguments = b.arguments
  exclusive : b'.exclusive = b.exclusive
  index : b'.index = b.index

theorem Binding.SameKey.refl (b : Binding) : Binding.SameKey b b := ⟨rfl, rfl, rfl, rfl, rfl⟩

variable {b b' : Binding}

theorem Binding.SameKey.trans {b'' : Binding} (h : Binding.SameKey b b')
    (h' : Binding.SameKey b' b'') : Binding.SameKey b b'' where
  addr := h'.addr.trans h.addr
  routingKey := h'.routingKey.trans h.routingKey
  arguments := h'.arguments.trans h.arguments
  exclusive := h'.exclusive.trans h.exclusive
  index := h'.index.trans h.index

namespace Exchange

/-- The queue is in the queue set of a binding with this routing key and these arguments. -/
def Bound (ex : Exchange) (route : Route) : Prop :=
  ∃ b ∈ ex.bindingList, b.routingKey = route.2.1 ∧ b.arguments = route.2.2 ∧
    route.1 ∈ ex.queueSet b.addr

/-- The five structures that hold the bindings agree. -/
structure Wf (ex : Exchange) : Prop where
  addr_nodup : (ex.bindingList.map (·.addr)).Nodup
  size_eq : ex.bindingIndex.size = ex.bindingList.length
  data_iff : ∀ i p, ex.bindingIndex.data i = some p ↔
    ∃ b ∈ ex.bindingList, b.index.val = i ∧ b.addr = p
  bindings_iff : ∀ q p, p ∈ ex.queueBindings q ↔ q ∈ ex.queueSet p
  bindings_nodup : ∀ q, (ex.queueBindings q).Nodup
  set_nodup : ∀ p, (ex.queueSet p).Nodup
  set_live : ∀ p q, q ∈ ex.queueSet p → ∃ b ∈ ex.bindingList, b.addr = p
  hash_sound : ∀ k p, ex.bindingHash k = some p →
    ∃ b ∈ ex.bindingList, b.addr = p ∧ b.routingKey = k
  hash_complete : ∀ b ∈ ex.bindingList, (ex.bindingHash b.routingKey).isSome
  route_unique : ∀ b ∈ ex.bindingList, ∀ b' ∈ ex.bindingList,
    b.routingKey = b'.routingKey → b.arguments = b'.arguments → b = b'
  key_norm : ∀ b ∈ ex.bindingList, normKey ex.type b.routingKey = b.routingKey
  arguments_norm : ∀ b ∈ ex.bindingList, normArguments b.arguments = b.arguments
  direct_unique : ex.type = .direct → ∀ b ∈ ex.bindingList, ∀ b' ∈ ex.bindingList,
    b.routingKey = b'.routingKey → b = b'
  fanout_single : ex.type = .fanout → ex.bindingList.length ≤ 1

theorem wf_new (type : ExchangeType) : Wf { type } where
  addr_nodup := nodup_nil
  size_eq := rfl
  data_iff := by simp [ObjectIndex.new]
  bindings_iff := by simp
  bindings_nodup := by simp
  set_nodup := by simp
  set_live := by simp
  hash_sound := by simp
  hash_complete := by simp
  route_unique := by simp
  key_norm := by simp
  arguments_norm := by simp
  direct_unique := by simp
  fanout_single := by simp

/-! ## Following addresses and numbers -/

theorem normArguments_normArguments (a : Option Longstr) :
    normArguments (normArguments a) = normArguments a := by
  unfold normArguments
  split
  · simp
  · rfl

theorem normKey_normKey (type : ExchangeType) (k : Shortstr) :
    normKey type (normKey type k) = normKey type k := by
  unfold normKey
  split <;> rfl

variable {k : Shortstr} {a : Option Longstr} {addr p : Nat} {queue q : QueueRef}
  {bs : List Binding} {bindingIndex : ObjectIndex} {indices : List Index} {env : Env}
  {ex' : Exchange}

section Lookup

variable {ex : Exchange} (hwf : Wf ex)
include hwf

theorem Wf.nodup : ex.bindingList.Nodup := hwf.addr_nodup.of_map

theorem Wf.eq_of_addr (hb : b ∈ ex.bindingList) (hb' : b' ∈ ex.bindingList) (h : b.addr = b'.addr) :
    b = b' :=
  inj_on_of_nodup_map hwf.addr_nodup hb hb' h

theorem Wf.eq_of_index (hb : b ∈ ex.bindingList) (hb' : b' ∈ ex.bindingList)
    (h : b.index = b'.index) : b = b' := by
  have hd := (hwf.data_iff b.index.val b.addr).mpr ⟨b, hb, rfl, rfl⟩
  have hd' := (hwf.data_iff b'.index.val b'.addr).mpr ⟨b', hb', rfl, rfl⟩
  rw [h, hd'] at hd
  exact hwf.eq_of_addr hb hb' (some.inj hd).symm

theorem Wf.deref_of_mem (hb : b ∈ ex.bindingList) : ex.deref b.addr = some b := by
  unfold deref
  cases hf : ex.bindingList.find? fun b' => decide (b'.addr = b.addr) with
  | none =>
    rw [find?_eq_none] at hf
    simpa using hf b hb
  | some b' =>
    have haddr : b'.addr = b.addr := by simpa using find?_some hf
    rw [hwf.eq_of_addr (mem_of_find?_eq_some hf) hb haddr]

theorem Wf.data_of_mem (hb : b ∈ ex.bindingList) : ex.bindingIndex.data b.index.val = some b.addr :=
  (hwf.data_iff _ _).mpr ⟨b, hb, rfl, rfl⟩

theorem Wf.fetch_of_mem (hb : b ∈ ex.bindingList) : ex.fetch b.index = some b := by
  unfold fetch
  rw [hwf.data_of_mem hb]
  exact hwf.deref_of_mem hb

theorem Wf.findBinding_eq_none : ex.findBinding k a = none ↔
      ∀ b ∈ ex.bindingList, ¬ (b.routingKey = k ∧ b.arguments = a) := by
  unfold findBinding
  split
  · rw [find?_eq_none]
    simp
  · next h =>
    simp only [true_iff]
    rintro b hb ⟨rfl, -⟩
    exact h (hwf.hash_complete b hb)

end Lookup

variable {ex : Exchange}

theorem findBinding_eq_some (h : ex.findBinding k a = some b) :
    b ∈ ex.bindingList ∧ b.routingKey = k ∧ b.arguments = a := by
  unfold findBinding at h
  split at h
  · have hp := find?_some h
    simp only [decide_eq_true_eq] at hp
    exact ⟨mem_of_find?_eq_some h, hp⟩
  · cases h

/-! ## Linking a queue and a binding -/

theorem Wf.notify (hwf : Wf ex) (notices : List Notice) : Wf (ex.notify notices) :=
  { hwf with }

theorem mem_queueSet_attach :
    q ∈ (ex.attach addr queue).queueSet p ↔ q ∈ ex.queueSet p ∨ (q = queue ∧ p = addr) := by
  unfold attach
  simp only
  split
  · next h =>
    constructor
    · exact Or.inl
    · rintro (hq | ⟨rfl, rfl⟩)
      · exact hq
      · exact h
  · by_cases hp : p = addr
    · subst hp
      simp
    · simp [hp]

theorem mem_queueBindings_attach : p ∈ (ex.attach addr queue).queueBindings q ↔
      p ∈ ex.queueBindings q ∨ (q = queue ∧ p = addr) := by
  unfold attach
  split
  · next h =>
    constructor
    · exact Or.inl
    · rintro (hq | ⟨rfl, rfl⟩)
      · exact hq
      · exact h
  · by_cases hq : q = queue
    · subst hq
      simp
    · simp [hq]

theorem nodup_update_append {α β : Type*} [DecidableEq α] {f : α → List β} {a : α} {x : β}
    (h : ∀ c, (f c).Nodup) (hx : x ∉ f a) (c : α) :
    (update f a (f a ++ [x]) c).Nodup := by
  by_cases hc : c = a
  · subst hc
    rw [update_self]
    exact nodup_append.mpr ⟨h c, nodup_singleton x, by
      rintro y hy z hz rfl
      rw [mem_singleton] at hz
      exact hx (hz ▸ hy)⟩
  · rw [update_of_ne hc]
    exact h c

theorem Wf.attach (hwf : Wf ex) (hb : b ∈ ex.bindingList) (queue : QueueRef) :
    Wf (ex.attach b.addr queue) where
  addr_nodup := hwf.addr_nodup
  size_eq := hwf.size_eq
  data_iff := hwf.data_iff
  bindings_iff q p := by
    rw [mem_queueSet_attach, mem_queueBindings_attach, hwf.bindings_iff]
  bindings_nodup q := by
    show (if _ then _ else _ : QueueRef → List Nat) q |>.Nodup
    split
    · exact hwf.bindings_nodup q
    · next h => exact nodup_update_append hwf.bindings_nodup h q
  set_nodup p := by
    show (if _ then _ else _ : Nat → List QueueRef) p |>.Nodup
    split
    · exact hwf.set_nodup p
    · next h => exact nodup_update_append hwf.set_nodup h p
  set_live p q h := by
    rcases mem_queueSet_attach.mp h with h | ⟨-, rfl⟩
    · exact hwf.set_live p q h
    · exact ⟨b, hb, rfl⟩
  hash_sound := hwf.hash_sound
  hash_complete := hwf.hash_complete
  route_unique := hwf.route_unique
  key_norm := hwf.key_norm
  arguments_norm := hwf.arguments_norm
  direct_unique := hwf.direct_unique
  fanout_single := hwf.fanout_single

theorem Wf.bound_attach (hwf : Wf ex) (hb : b ∈ ex.bindingList) (queue : QueueRef)
    (r : Route) :
    (ex.attach b.addr queue).Bound r ↔ r = (queue, b.routingKey, b.arguments) ∨ ex.Bound r := by
  obtain ⟨q, k, a⟩ := r
  constructor
  · rintro ⟨b', hb', hk, ha, hmem⟩
    rcases mem_queueSet_attach.mp hmem with hq | ⟨hq, haddr⟩
    · exact Or.inr ⟨b', hb', hk, ha, hq⟩
    · -- the route is on the binding at this address, which is `b`
      have he := hwf.eq_of_addr hb' hb haddr
      subst he
      exact Or.inl (Prod.ext hq (Prod.ext hk.symm ha.symm))
  · rintro (he | ⟨b', hb', hk, ha, hq⟩)
    · simp only [Prod.mk.injEq] at he
      obtain ⟨rfl, rfl, rfl⟩ := he
      exact ⟨b, hb, rfl, rfl, mem_queueSet_attach.mpr (Or.inr ⟨rfl, rfl⟩)⟩
    · exact ⟨b', hb', hk, ha, mem_queueSet_attach.mpr (Or.inl hq)⟩

/-! ## A new binding -/

theorem mem_insertBinding : b' ∈ insertBinding b bs ↔ b' = b ∨ b' ∈ bs := by
  unfold insertBinding
  split
  · exact mem_cons
  · rw [mem_append, mem_singleton, or_comm]

theorem insertBinding_perm (b : Binding) (bs : List Binding) :
    (insertBinding b bs).Perm (b :: bs) := by
  unfold insertBinding
  split
  · exact List.Perm.refl _
  · exact perm_append_singleton b bs

theorem unique_insertBinding {Same : Binding → Binding → Prop}
    (hsymm : ∀ b1 b2, Same b1 b2 → Same b2 b1) (hnew : ∀ b' ∈ bs, ¬ Same b' b)
    (h : ∀ b1 ∈ bs, ∀ b2 ∈ bs, Same b1 b2 → b1 = b2) :
    ∀ b1 ∈ insertBinding b bs, ∀ b2 ∈ insertBinding b bs, Same b1 b2 → b1 = b2 := by
  intro b1 h1 b2 h2 hsame
  rcases mem_insertBinding.mp h1 with rfl | hm1
  · rcases mem_insertBinding.mp h2 with rfl | hm2
    · rfl
    · exact absurd (hsymm _ _ hsame) (hnew b2 hm2)
  · rcases mem_insertBinding.mp h2 with rfl | hm2
    · exact absurd hsame (hnew b1 hm1)
    · exact h b1 hm1 b2 hm2 hsame

/-- The exchange with a compiled binding and its index tables. -/
def withBinding (ex : Exchange) (bindingIndex : ObjectIndex) (indices : List Index)
    (binding : Binding) : Exchange :=
  { ex with
    bindingIndex
    indices
    bindingList := insertBinding binding ex.bindingList
    queueSet := update ex.queueSet binding.addr []
    bindingHash :=
      if (ex.bindingHash binding.routingKey).isSome then ex.bindingHash
      else update ex.bindingHash binding.routingKey (some binding.addr)
    sent := ex.sent ++
      if ex.federation.isSome then
        [.federationBindingCreated binding.routingKey binding.arguments binding.exclusive]
      else [] }

theorem Wf.data_insert (hwf : Wf ex)
    (hins : ex.bindingIndex.insert b.addr = some (bindingIndex, b.index)) (i p : Nat) :
    bindingIndex.data i = some p ↔
      ∃ b' ∈ insertBinding b ex.bindingList, b'.index.val = i ∧ b'.addr = p := by
  obtain ⟨-, hfree, -, hdata⟩ := ObjectIndex.insert_spec hins
  rw [hdata]
  constructor
  · intro h
    split at h
    · next hi =>
      exact ⟨b, mem_insertBinding.mpr (Or.inl rfl), hi.symm, some.inj h⟩
    · obtain ⟨b', hb', he⟩ := (hwf.data_iff i p).mp h
      exact ⟨b', mem_insertBinding.mpr (Or.inr hb'), he⟩
  · rintro ⟨b', hb', rfl, rfl⟩
    rcases mem_insertBinding.mp hb' with rfl | hb'
    · rw [if_pos rfl]
    · have hd := hwf.data_of_mem hb'
      rw [if_neg, hd]
      -- the entry of a binding that is there is in use
      intro he
      rw [he, hfree] at hd
      cases hd

theorem Wf.hash_withBinding (hwf : Wf ex)
    (h : (ex.withBinding bindingIndex indices b).bindingHash k = some p) :
    ∃ b' ∈ insertBinding b ex.bindingList, b'.addr = p ∧ b'.routingKey = k := by
  have hold : ex.bindingHash k = some p →
      ∃ b' ∈ insertBinding b ex.bindingList, b'.addr = p ∧ b'.routingKey = k := by
    intro hs
    obtain ⟨b', hb', he⟩ := hwf.hash_sound k p hs
    exact ⟨b', mem_insertBinding.mpr (Or.inr hb'), he⟩
  change (if _ then _ else _ : Shortstr → Option Nat) k = some p at h
  split at h
  · exact hold h
  · -- the first binding on its routing key
    by_cases hk : k = b.routingKey
    · subst hk
      rw [update_self] at h
      exact ⟨b, mem_insertBinding.mpr (Or.inl rfl), some.inj h, rfl⟩
    · rw [update_of_ne hk] at h
      exact hold h

theorem Wf.isSome_hash_withBinding (hwf : Wf ex)
    (hb' : b' ∈ insertBinding b ex.bindingList) :
    ((ex.withBinding bindingIndex indices b).bindingHash b'.routingKey).isSome := by
  show ((if _ then _ else _ : Shortstr → Option Nat) b'.routingKey).isSome
  rcases mem_insertBinding.mp hb' with rfl | hb'
  · split
    · assumption
    · rw [update_self]
      rfl
  · have hs := hwf.hash_complete b' hb'
    split
    · exact hs
    · by_cases hk : b'.routingKey = b.routingKey
      · rw [hk, update_self]
        rfl
      · rw [update_of_ne hk]
        exact hs

theorem withBinding_wf (hwf : Wf ex) (haddr : b.addr = addr)
    (hfresh : ∀ b' ∈ ex.bindingList, b'.addr ≠ addr)
    (hins : ex.bindingIndex.insert addr = some (bindingIndex, b.index))
    (hnew : ∀ b' ∈ ex.bindingList, ¬ (b'.routingKey = b.routingKey ∧ b'.arguments = b.arguments))
    (hkey : normKey ex.type b.routingKey = b.routingKey)
    (hargs : normArguments b.arguments = b.arguments)
    (hdirect : ex.type = .direct → ∀ b' ∈ ex.bindingList, b'.routingKey ≠ b.routingKey)
    (hfanout : ex.type = .fanout → ex.bindingList = []) :
    Wf (ex.withBinding bindingIndex indices b) := by
  subst haddr
  obtain ⟨-, -, hsize, -⟩ := ObjectIndex.insert_spec hins
  have hperm : (insertBinding b ex.bindingList).Perm (b :: ex.bindingList) :=
    insertBinding_perm b ex.bindingList
  -- a queue set at this address would be that of a live binding
  have hempty : ∀ q, q ∉ ex.queueSet b.addr := by
    intro q hq
    obtain ⟨b', hb', he⟩ := hwf.set_live _ q hq
    exact hfresh b' hb' he
  have hroute : ∀ b1 ∈ insertBinding b ex.bindingList, ∀ b2 ∈ insertBinding b ex.bindingList,
      b1.routingKey = b2.routingKey ∧ b1.arguments = b2.arguments → b1 = b2 :=
    unique_insertBinding (fun _ _ h => ⟨h.1.symm, h.2.symm⟩) hnew
      fun b1 h1 b2 h2 h => hwf.route_unique b1 h1 b2 h2 h.1 h.2
  exact {
    addr_nodup := by
      show ((insertBinding b ex.bindingList).map (·.addr)).Nodup
      rw [(hperm.map _).nodup_iff, map_cons, nodup_cons]
      refine ⟨?_, hwf.addr_nodup⟩
      intro hmem
      obtain ⟨b', hb', he⟩ := mem_map.mp hmem
      exact hfresh b' hb' he
    size_eq := by
      show bindingIndex.size = (insertBinding b ex.bindingList).length
      rw [hsize, hperm.length_eq, length_cons, hwf.size_eq]
    data_iff := hwf.data_insert hins
    bindings_iff := fun q p => by
      show p ∈ ex.queueBindings q ↔ q ∈ update ex.queueSet b.addr [] p
      rw [hwf.bindings_iff]
      by_cases hp : p = b.addr
      · subst hp
        simp [hempty]
      · rw [update_of_ne hp]
    bindings_nodup := hwf.bindings_nodup
    set_nodup := fun p => by
      show (update ex.queueSet b.addr [] p).Nodup
      by_cases hp : p = b.addr
      · subst hp
        simp
      · rw [update_of_ne hp]
        exact hwf.set_nodup p
    set_live := fun p q h => by
      change q ∈ update ex.queueSet b.addr [] p at h
      by_cases hp : p = b.addr
      · exact ⟨b, mem_insertBinding.mpr (Or.inl rfl), hp.symm⟩
      · rw [update_of_ne hp] at h
        obtain ⟨b', hb', he⟩ := hwf.set_live p q h
        exact ⟨b', mem_insertBinding.mpr (Or.inr hb'), he⟩
    hash_sound := fun k p h => hwf.hash_withBinding h
    hash_complete := fun b' hb' => hwf.isSome_hash_withBinding hb'
    route_unique := fun b1 h1 b2 h2 hk ha => hroute b1 h1 b2 h2 ⟨hk, ha⟩
    key_norm := fun b' hb' => by
      rcases mem_insertBinding.mp hb' with rfl | hb'
      · exact hkey
      · exact hwf.key_norm b' hb'
    arguments_norm := fun b' hb' => by
      rcases mem_insertBinding.mp hb' with rfl | hb'
      · exact hargs
      · exact hwf.arguments_norm b' hb'
    direct_unique := fun ht =>
      unique_insertBinding (fun _ _ h => h.symm) (hdirect ht) (hwf.direct_unique ht)
    fanout_single := fun ht => by
      show (insertBinding b ex.bindingList).length ≤ 1
      rw [hperm.length_eq, hfanout ht, length_singleton] }

theorem newBinding_eq_some {routingKey : Shortstr} {arguments : Option Longstr}
    {exclusive : Bool} (h : ex.newBinding env addr routingKey arguments exclusive = some ex') :
    ∃ bindingIndex index indices b, ex.bindingIndex.insert addr = some (bindingIndex, index) ∧
      (fieldListNew arguments).isOk ∧
      ex.compile env { addr, routingKey, arguments, exclusive, index } = some (indices, b) ∧
      ex'.bindingList = insertBinding b ex.bindingList ∧
      ex'.queueSet = update ex.queueSet addr [] := by
  obtain ⟨⟨bindingIndex, index⟩, hindex, h⟩ := bind_eq_some_iff.mp h
  cases hf : fieldListNew arguments with
  | error e =>
    rw [hf] at h
    cases h
  | ok fields =>
    rw [hf] at h
    obtain ⟨⟨indices, b⟩, hcompile, h⟩ := bind_eq_some_iff.mp h
    cases h
    exact ⟨bindingIndex, index, indices, b, hindex, rfl, hcompile, rfl, rfl⟩

theorem headersField_sameKey {self self' : List Index × Binding} {field : Field}
    (h : headersField env self field = some self') : Binding.SameKey self.2 self'.2 := by
  unfold headersField at h
  split at h
  · split at h
    · obtain ⟨value, -, rfl⟩ := map_eq_some_iff.mp h
      split <;> exact ⟨rfl, rfl, rfl, rfl, rfl⟩
    · cases h
      exact .refl _
  · split at h
    · cases h
      exact ⟨rfl, rfl, rfl, rfl, rfl⟩
    · obtain ⟨value, -, rfl⟩ := map_eq_some_iff.mp h
      exact ⟨rfl, rfl, rfl, rfl, rfl⟩

theorem foldlM_headersField_sameKey {fields : List Field} {self self' : List Index × Binding}
    (h : fields.foldlM (headersField env) self = some self') : Binding.SameKey self.2 self'.2 := by
  induction fields generalizing self with
  | nil =>
    cases h
    exact .refl _
  | cons field fields ih =>
    obtain ⟨self1, hfield, h⟩ := bind_eq_some_iff.mp h
    exact (headersField_sameKey hfield).trans (ih h)

theorem compile_sameKey (h : ex.compile env b = some (indices, b')) :
    Binding.SameKey b b' := by
  unfold compile at h
  split at h
  · obtain ⟨-, rfl⟩ := Prod.mk.inj (some.inj h)
    exact .refl _
  · obtain ⟨-, rfl⟩ := Prod.mk.inj (some.inj h)
    exact .refl _
  · obtain ⟨-, rfl⟩ := Prod.mk.inj (some.inj h)
    exact .refl _
  · simp only [topicCompile] at h
    split at h
    · split at h
      · obtain ⟨-, rfl⟩ := Prod.mk.inj (some.inj h)
        exact ⟨rfl, rfl, rfl, rfl, rfl⟩
      · obtain ⟨-, rfl⟩ := Prod.mk.inj (some.inj h)
        exact ⟨rfl, rfl, rfl, rfl, rfl⟩
    · cases h
  · unfold headersCompile at h
    split at h
    · cases h
    · obtain ⟨self, hfields, heq⟩ := map_eq_some_iff.mp h
      have hsame := foldlM_headersField_sameKey hfields
      have hkey : Binding.SameKey b self.2 :=
        ⟨hsame.addr, hsame.routingKey, hsame.arguments, hsame.exclusive, hsame.index⟩
      split at heq
      · obtain ⟨-, rfl⟩ := Prod.mk.inj heq
        exact hkey.trans ⟨rfl, rfl, rfl, rfl, rfl⟩
      · obtain rfl := heq
        exact hkey
  · obtain ⟨-, rfl⟩ := Prod.mk.inj (some.inj h)
    exact .refl _

theorem newBinding_eq_withBinding {routingKey : Shortstr}
    {arguments : Option Longstr} {exclusive : Bool}
    (h : ex.newBinding env addr routingKey arguments exclusive = some ex') :
    ∃ bindingIndex indices b, b.addr = addr ∧ b.routingKey = routingKey ∧
      b.arguments = arguments ∧ b.exclusive = exclusive ∧
      ex' = ex.withBinding bindingIndex indices b := by
  obtain ⟨⟨bindingIndex, index⟩, -, h⟩ := bind_eq_some_iff.mp h
  simp only at h
  split at h
  · cases h
  · obtain ⟨⟨indices, b⟩, hcompile, h⟩ := bind_eq_some_iff.mp h
    cases h
    obtain ⟨rfl, rfl, rfl, rfl, -⟩ := compile_sameKey hcompile
    exact ⟨bindingIndex, indices, b, rfl, rfl, rfl, rfl, rfl⟩

theorem bound_withBinding (hfresh : ∀ b' ∈ ex.bindingList, b'.addr ≠ b.addr)
    (r : Route) : (ex.withBinding bindingIndex indices b).Bound r ↔ ex.Bound r := by
  constructor
  · rintro ⟨b', hb', hk, ha, hq⟩
    change r.1 ∈ update ex.queueSet b.addr [] b'.addr at hq
    rcases mem_insertBinding.mp hb' with rfl | hb'
    · simp at hq
    · rw [update_of_ne (hfresh b' hb')] at hq
      exact ⟨b', hb', hk, ha, hq⟩
  · rintro ⟨b', hb', hk, ha, hq⟩
    refine ⟨b', mem_insertBinding.mpr (Or.inr hb'), hk, ha, ?_⟩
    show r.1 ∈ update ex.queueSet b.addr [] b'.addr
    rw [update_of_ne (hfresh b' hb')]
    exact hq

/-! ## Unlinking a queue and a binding -/

theorem Wf.searchBindings_cases (hwf : Wf ex) {addrs : List Nat}
    (hlive : ∀ p ∈ addrs, ∃ b ∈ ex.bindingList, b.addr = p) :
    (ex.searchBindings k a addrs = some none ∧
      ∀ b ∈ ex.bindingList, b.addr ∈ addrs → ¬ (b.routingKey = k ∧ b.arguments = a)) ∨
    ∃ b ∈ ex.bindingList, b.addr ∈ addrs ∧ b.routingKey = k ∧ b.arguments = a ∧
      ex.searchBindings k a addrs = some (some b) := by
  induction addrs with
  | nil => exact Or.inl ⟨rfl, by simp⟩
  | cons p ps ih =>
    obtain ⟨b, hb, rfl⟩ := hlive p mem_cons_self
    have hd := hwf.deref_of_mem hb
    by_cases hm : b.routingKey = k ∧ b.arguments = a
    · refine Or.inr ⟨b, hb, mem_cons_self, hm.1, hm.2, ?_⟩
      simp [searchBindings, hd, hm]
    · have hs : ex.searchBindings k a (b.addr :: ps) = ex.searchBindings k a ps := by
        simp [searchBindings, hd, hm]
      rw [hs]
      rcases ih fun p hp => hlive p (mem_cons_of_mem _ hp) with ⟨hn, hno⟩ | ⟨b', hb', hp, h⟩
      · refine Or.inl ⟨hn, ?_⟩
        intro b' hb' hp
        rcases mem_cons.mp hp with he | hp
        · rw [hwf.eq_of_addr hb' hb he]
          exact hm
        · exact hno b' hb' hp
      · exact Or.inr ⟨b', hb', mem_cons_of_mem _ hp, h⟩

/-- The queue and the binding no longer refer to each other. -/
def unlink (ex : Exchange) (addr : Nat) (queue : QueueRef) : Exchange :=
  { ex with
    queueSet := update ex.queueSet addr ((ex.queueSet addr).erase queue)
    queueBindings := update ex.queueBindings queue ((ex.queueBindings queue).erase addr)
    sent := ex.sent ++ [.queueBindingCancel queue addr] }

theorem detach_eq (ex : Exchange) (b : Binding) (queue : QueueRef) : ex.detach b queue =
      if (ex.queueSet b.addr).erase queue = [] ∧ ex.type = .direct then
        (ex.unlink b.addr queue).directUnbind b
      else ex.unlink b.addr queue := by
  unfold detach unlink unbind
  by_cases he : (ex.queueSet b.addr).erase queue = []
  · cases ht : ex.type <;> simp [he, directUnbind]
  · simp [he]

theorem Wf.mem_queueSet_unlink (hwf : Wf ex) :
    q ∈ (ex.unlink addr queue).queueSet p ↔ q ∈ ex.queueSet p ∧ ¬ (q = queue ∧ p = addr) := by
  show q ∈ update ex.queueSet addr ((ex.queueSet addr).erase queue) p ↔ _
  by_cases hp : p = addr
  · subst hp
    rw [update_self, (hwf.set_nodup p).mem_erase_iff]
    tauto
  · simp [hp]

theorem Wf.mem_queueBindings_unlink (hwf : Wf ex) :
    p ∈ (ex.unlink addr queue).queueBindings q ↔
      p ∈ ex.queueBindings q ∧ ¬ (q = queue ∧ p = addr) := by
  show p ∈ update ex.queueBindings queue ((ex.queueBindings queue).erase addr) q ↔ _
  by_cases hq : q = queue
  · subst hq
    rw [update_self, (hwf.bindings_nodup q).mem_erase_iff]
    tauto
  · simp [hq]

theorem Wf.unlink (hwf : Wf ex) (addr : Nat) (queue : QueueRef) :
    Wf (ex.unlink addr queue) where
  addr_nodup := hwf.addr_nodup
  size_eq := hwf.size_eq
  data_iff := hwf.data_iff
  bindings_iff q p := by
    rw [hwf.mem_queueSet_unlink, hwf.mem_queueBindings_unlink, hwf.bindings_iff]
  bindings_nodup q := by
    show (update ex.queueBindings queue ((ex.queueBindings queue).erase addr) q).Nodup
    by_cases hq : q = queue
    · subst hq
      rw [update_self]
      exact (hwf.bindings_nodup q).erase addr
    · rw [update_of_ne hq]
      exact hwf.bindings_nodup q
  set_nodup p := by
    show (update ex.queueSet addr ((ex.queueSet addr).erase queue) p).Nodup
    by_cases hp : p = addr
    · subst hp
      rw [update_self]
      exact (hwf.set_nodup p).erase queue
    · rw [update_of_ne hp]
      exact hwf.set_nodup p
  set_live p q h := hwf.set_live p q (hwf.mem_queueSet_unlink.mp h).1
  hash_sound := hwf.hash_sound
  hash_complete := hwf.hash_complete
  route_unique := hwf.route_unique
  key_norm := hwf.key_norm
  arguments_norm := hwf.arguments_norm
  direct_unique := hwf.direct_unique
  fanout_single := hwf.fanout_single

theorem Wf.bound_unlink (hwf : Wf ex) (hb : b ∈ ex.bindingList) (queue : QueueRef)
    (r : Route) :
    (ex.unlink b.addr queue).Bound r ↔ ex.Bound r ∧ r ≠ (queue, b.routingKey, b.arguments) := by
  constructor
  · rintro ⟨b', hb', hk, ha, hmem⟩
    obtain ⟨hq, hne⟩ := hwf.mem_queueSet_unlink.mp hmem
    refine ⟨⟨b', hb', hk, ha, hq⟩, ?_⟩
    rintro rfl
    exact hne ⟨rfl, by rw [hwf.route_unique b' hb' b hb hk ha]⟩
  · rintro ⟨⟨b', hb', hk, ha, hq⟩, hne⟩
    refine ⟨b', hb', hk, ha, hwf.mem_queueSet_unlink.mpr ⟨hq, ?_⟩⟩
    rintro ⟨hqueue, haddr⟩
    have he := hwf.eq_of_addr hb' hb haddr
    subst he
    exact hne (Prod.ext hqueue (Prod.ext hk.symm ha.symm))

/-! ### Destroying a binding of a direct exchange -/

theorem mem_directUnbind :
    b' ∈ (ex.directUnbind b).bindingList ↔ b' ∈ ex.bindingList ∧ b'.addr ≠ b.addr := by
  show b' ∈ ex.bindingList.filter _ ↔ _
  simp

theorem length_filter_addr (hnd : (bs.map (·.addr)).Nodup) (hb : b ∈ bs) :
    (bs.filter fun b' => decide (b'.addr ≠ b.addr)).length + 1 = bs.length := by
  induction bs with
  | nil => simp at hb
  | cons c cs ih =>
    rw [map_cons, nodup_cons] at hnd
    obtain ⟨hc, hcs⟩ := hnd
    rcases mem_cons.mp hb with rfl | hb
    · have hkeep : (cs.filter fun b' => decide (b'.addr ≠ b.addr)) = cs := by
        rw [filter_eq_self]
        intro b' hb'
        refine decide_eq_true fun he => hc ?_
        rw [← he]
        exact mem_map_of_mem hb'
      rw [filter_cons_of_neg (by simp), hkeep, length_cons]
    · have hne : c.addr ≠ b.addr := by
        intro he
        rw [he] at hc
        exact hc (mem_map_of_mem hb)
      rw [filter_cons_of_pos (by simpa using hne), length_cons, length_cons, ih hcs hb]

/-- Taking a binding out of the index of a direct exchange leaves the others. -/
theorem Wf.directUnbind (hwf : Wf ex) (ht : ex.type = .direct)
    (hb : b ∈ ex.bindingList) (hset : ex.queueSet b.addr = []) : Wf (ex.directUnbind b) := by
  have hsize : 0 < ex.bindingIndex.size := by
    rw [hwf.size_eq]
    exact length_pos_of_mem hb
  have hdel : ex.bindingIndex.delete b.index = ⟨ex.bindingIndex.size - 1,
        fun i => if i = b.index.val then none else ex.bindingIndex.data i⟩ := if_pos hsize
  -- the set that is cleared is empty already
  have hset' : update ex.queueSet b.addr [] = ex.queueSet := by
    rw [← hset, update_eq_self]
  exact {
    addr_nodup := hwf.addr_nodup.sublist (filter_sublist.map _)
    size_eq := by
      show (ex.bindingIndex.delete b.index).size = (ex.bindingList.filter _).length
      have hlen := length_filter_addr hwf.addr_nodup hb
      rw [hdel]
      show ex.bindingIndex.size - 1 = _
      rw [hwf.size_eq]
      omega
    data_iff := fun i p => by
      show (ex.bindingIndex.delete b.index).data i = some p ↔ _
      rw [hdel]
      constructor
      · intro h
        simp only at h
        split at h
        · cases h
        · next hi =>
          obtain ⟨b', hb', rfl, rfl⟩ := (hwf.data_iff i p).mp h
          refine ⟨b', mem_directUnbind.mpr ⟨hb', ?_⟩, rfl, rfl⟩
          intro he
          exact hi (by rw [hwf.eq_of_addr hb' hb he])
      · rintro ⟨b', hb', rfl, rfl⟩
        obtain ⟨hb', hne⟩ := mem_directUnbind.mp hb'
        simp only
        rw [if_neg, hwf.data_of_mem hb']
        intro he
        exact hne (by rw [hwf.eq_of_index hb' hb (Fin.ext he)])
    bindings_iff := fun q p => by
      show p ∈ ex.queueBindings q ↔ q ∈ update ex.queueSet b.addr [] p
      rw [hset', hwf.bindings_iff]
    bindings_nodup := hwf.bindings_nodup
    set_nodup := fun p => by
      show (update ex.queueSet b.addr [] p).Nodup
      rw [hset']
      exact hwf.set_nodup p
    set_live := fun p q h => by
      change q ∈ update ex.queueSet b.addr [] p at h
      rw [hset'] at h
      obtain ⟨b', hb', he⟩ := hwf.set_live p q h
      refine ⟨b', mem_directUnbind.mpr ⟨hb', ?_⟩, he⟩
      -- the binding that goes has no queues
      intro heb
      rw [← he, heb, hset] at h
      cases h
    hash_sound := fun k p h => by
      change update ex.bindingHash b.routingKey none k = some p at h
      by_cases hk : k = b.routingKey
      · rw [hk, update_self] at h
        cases h
      · rw [update_of_ne hk] at h
        obtain ⟨b', hb', haddr, hkey⟩ := hwf.hash_sound k p h
        refine ⟨b', mem_directUnbind.mpr ⟨hb', ?_⟩, haddr, hkey⟩
        intro he
        exact hk (by rw [← hkey, hwf.eq_of_addr hb' hb he])
    hash_complete := fun b' hb' => by
      obtain ⟨hb', hne⟩ := mem_directUnbind.mp hb'
      show (update ex.bindingHash b.routingKey none b'.routingKey).isSome
      rw [update_of_ne]
      · exact hwf.hash_complete b' hb'
      · -- the entry that goes is the one of no other binding
        intro hk
        exact hne (by rw [hwf.direct_unique ht b' hb' b hb hk])
    route_unique := fun b1 h1 b2 h2 =>
      hwf.route_unique b1 (mem_directUnbind.mp h1).1 b2 (mem_directUnbind.mp h2).1
    key_norm := fun b' hb' => hwf.key_norm b' (mem_directUnbind.mp hb').1
    arguments_norm := fun b' hb' => hwf.arguments_norm b' (mem_directUnbind.mp hb').1
    direct_unique := fun ht b1 h1 b2 h2 =>
      hwf.direct_unique ht b1 (mem_directUnbind.mp h1).1 b2 (mem_directUnbind.mp h2).1
    fanout_single := fun hf => absurd (ht.symm.trans hf) (by decide) }

theorem bound_directUnbind (hset : ex.queueSet b.addr = []) (r : Route) :
    (ex.directUnbind b).Bound r ↔ ex.Bound r := by
  constructor
  · rintro ⟨b', hb', hk, ha, hq⟩
    obtain ⟨hb', hne⟩ := mem_directUnbind.mp hb'
    change r.1 ∈ update ex.queueSet b.addr [] b'.addr at hq
    rw [update_of_ne hne] at hq
    exact ⟨b', hb', hk, ha, hq⟩
  · rintro ⟨b', hb', hk, ha, hq⟩
    have hne : b'.addr ≠ b.addr := by
      intro he
      rw [he, hset] at hq
      cases hq
    refine ⟨b', mem_directUnbind.mpr ⟨hb', hne⟩, hk, ha, ?_⟩
    show r.1 ∈ update ex.queueSet b.addr [] b'.addr
    rw [update_of_ne hne]
    exact hq

theorem Wf.detach_spec (hwf : Wf ex) (hb : b ∈ ex.bindingList) (queue : QueueRef) :
    Wf (ex.detach b queue) ∧ (ex.detach b queue).type = ex.type ∧
      (ex.detach b queue).indices = ex.indices ∧
      (ex.type ≠ .direct → (ex.detach b queue).bindingList = ex.bindingList) ∧
      ∀ r, (ex.detach b queue).Bound r ↔ ex.Bound r ∧ r ≠ (queue, b.routingKey, b.arguments) := by
  have hwf' := hwf.unlink b.addr queue
  rw [detach_eq]
  split
  · next h =>
    -- the last queue of a binding of a direct exchange
    have hset : (ex.unlink b.addr queue).queueSet b.addr = [] := by
      show update ex.queueSet b.addr _ b.addr = []
      rw [update_self]
      exact h.1
    refine ⟨hwf'.directUnbind h.2 hb hset, rfl, rfl, fun hne => absurd h.2 hne, ?_⟩
    intro r
    rw [bound_directUnbind hset]
    exact hwf.bound_unlink hb queue r
  · exact ⟨hwf', rfl, rfl, fun _ => rfl, hwf.bound_unlink hb queue⟩

/--
Unbinding a route of a well-formed exchange.

The routing key is looked up as it is given, so it has to be the one that is stored.
-/
theorem Wf.unbindQueue_spec (hwf : Wf ex) (queue : QueueRef) (k : Shortstr)
    (a : Option Longstr) :
    ∃ ex', ex.unbindQueue queue k a = some ex' ∧ Wf ex' ∧ ex'.type = ex.type ∧
      ex'.indices = ex.indices ∧
      (ex.type ≠ .direct → ex'.bindingList = ex.bindingList) ∧
      ∀ r, ex'.Bound r ↔ ex.Bound r ∧ r ≠ (queue, k, normArguments a) := by
  have hlive : ∀ p ∈ ex.queueBindings queue, ∃ b ∈ ex.bindingList, b.addr = p := fun p hp =>
    hwf.set_live p queue ((hwf.bindings_iff queue p).mp hp)
  rcases hwf.searchBindings_cases hlive (k := k) (a := normArguments a) with
    ⟨hnone, hno⟩ | ⟨b, hb, hmem, rfl, hargs, hsome⟩
  · refine ⟨ex, by simp [unbindQueue, hnone], hwf, rfl, rfl, fun _ => rfl, ?_⟩
    intro r
    refine ⟨fun h => ⟨h, ?_⟩, fun h => h.1⟩
    rintro rfl
    -- the search would have found this route
    obtain ⟨b, hb, hk, ha, hq⟩ := h
    exact hno b hb ((hwf.bindings_iff _ _).mpr hq) ⟨hk, ha⟩
  · refine ⟨ex.detach b queue, by simp [unbindQueue, hsome], ?_⟩
    rw [← hargs]
    exact hwf.detach_spec hb queue

/-! ## Unlinking a queue and all its bindings -/

theorem popBinding_eq (ex : Exchange) (b : Binding) (queue : QueueRef) :
    ∃ sent, ex.popBinding b queue queue = { ex.detach b queue with sent } := by
  by_cases he : (ex.queueSet b.addr).erase queue = []
  · cases ht : ex.type <;>
      exact ⟨_, by simp only [popBinding, detach, he, if_true, unbind, ht]; rfl⟩
  · exact ⟨_, by simp only [popBinding, detach, if_neg he]; rfl⟩

theorem detach_queueBindings (ex : Exchange) (b : Binding) (queue : QueueRef) :
    (ex.detach b queue).queueBindings queue = (ex.queueBindings queue).erase b.addr := by
  rw [detach_eq]
  split <;> exact update_self ..

theorem detach_bindingList (ex : Exchange) (b : Binding) (queue : QueueRef) :
    ∀ b' ∈ (ex.detach b queue).bindingList, b' ∈ ex.bindingList := by
  intro b' hb'
  rw [detach_eq] at hb'
  split at hb'
  · exact (mem_directUnbind.mp hb').1
  · exact hb'

theorem foldl_popBinding_spec (queue : QueueRef) (addrs : List Nat) (hwf : Wf ex)
    (hl : ex.queueBindings queue = addrs)
    (heq : addrs.foldl (fun ex addr => (ex.deref addr).elim ex (ex.popBinding · queue queue)) ex =
      ex')
    :
    Wf ex' ∧ ex'.type = ex.type ∧ ex'.indices = ex.indices ∧ ex'.queueBindings queue = [] ∧
      (∀ b ∈ ex'.bindingList, b ∈ ex.bindingList) ∧
      ∀ r, r.1 ≠ queue → (ex'.Bound r ↔ ex.Bound r) := by
  induction addrs generalizing ex with
  | nil =>
    obtain rfl := heq
    exact ⟨hwf, rfl, rfl, hl, fun _ hb => hb, fun _ _ => Iff.rfl⟩
  | cons p ps ih =>
    have hp : p ∈ ex.queueBindings queue := by
      rw [hl]
      exact mem_cons_self
    obtain ⟨b, hb, rfl⟩ := hwf.set_live p queue ((hwf.bindings_iff queue p).mp hp)
    obtain ⟨sent, hpop⟩ := popBinding_eq ex b queue
    obtain ⟨hwf', htype, hindices, -, hbound⟩ := hwf.detach_spec hb queue
    rw [foldl_cons, hwf.deref_of_mem hb, elim_some, hpop] at heq
    have hl' : ({ ex.detach b queue with sent } : Exchange).queueBindings queue = ps := by
      rw [detach_queueBindings, hl, erase_cons_head]
    have hsent : Wf ({ ex.detach b queue with sent } : Exchange) := { hwf' with }
    obtain ⟨hwf'', htype', hindices', hnil, hsub, hbound'⟩ := ih hsent hl' heq
    refine ⟨hwf'', htype'.trans htype, hindices'.trans hindices, hnil,
      fun b' hb' => detach_bindingList ex b queue b' (hsub b' hb'), fun r hr => ?_⟩
    rw [hbound' r hr]
    refine (hbound r).trans (and_iff_left ?_)
    rintro rfl
    exact hr rfl

theorem Wf.brokerUnbindQueue_spec (hwf : Wf ex) (queue : QueueRef) :
    Wf (ex.brokerUnbindQueue queue queue) ∧ (ex.brokerUnbindQueue queue queue).type = ex.type ∧
      (ex.brokerUnbindQueue queue queue).indices = ex.indices ∧
      (∀ b ∈ (ex.brokerUnbindQueue queue queue).bindingList, b ∈ ex.bindingList) ∧
      ∀ r, (ex.brokerUnbindQueue queue queue).Bound r ↔ ex.Bound r ∧ r.1 ≠ queue := by
  obtain ⟨hwf', htype, hindices, hnil, hsub, hbound⟩ :=
    foldl_popBinding_spec queue (ex.queueBindings queue) hwf rfl rfl
  refine ⟨hwf', htype, hindices, hsub, fun r => ?_⟩
  by_cases hr : r.1 = queue
  · refine iff_of_false ?_ fun h => h.2 hr
    rintro ⟨b, -, -, -, hq⟩
    rw [hr] at hq
    have hp := (hwf'.bindings_iff queue b.addr).mpr hq
    rw [hnil] at hp
    cases hp
  · exact (hbound r hr).trans (and_iff_left hr).symm

end Exchange

end OpenAmq
