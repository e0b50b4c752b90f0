import Mathlib.Algebra.GroupWithZero.Nat
import OpenAmq.Exchange.Indices
import OpenAmq.Lib.Run

/-!
# Routing

An exchange passes a message on to the queues that are bound with a matching route.

* `routes` — does a message match a routing key and arguments, for each exchange type
* `Exchange.StepOk` — the condition under which a request is worked off correctly
* `run_table` — along a run that meets it, the exchange agrees with its table of routes
* `publish_routes` — then a message goes to exactly the queues with a route that matches
-/

namespace OpenAmq

open Exchange List Option

/-! ## Which messages a route matches -/

/-- The index keys of a message, `none` when its headers do not decode or have no text. -/
def keysOfMessage (env : Env) (headers : Option Longstr) : Option (List Str) :=
  match fieldListNew headers with
  | .error _ => none
  | .ok fields => messageKeys env fields

local instance strLawfulBEq : LawfulBEq Str := inferInstance

/-- Headers matching, by counting the keys of the message that the binding is indexed under. -/
def headersRoutes (env : Env) (arguments headers : Option Longstr) : Bool :=
  match keysOfMessage env headers with
  | none => false
  | some messageKeys =>
    let keys := (bindingKeys env arguments).getD []
    let hitCount := messageKeys.countP fun key => decide (key ∈ keys)
    if bindingMatchAll env arguments then decide (hitCount = keys.length) else decide (hitCount > 0)

/-- Does a message match a binding on `key` and `arguments`? -/
def routes (env : Env) (type : ExchangeType) (key : Shortstr) (arguments : Option Longstr)
    (routingKey : Shortstr) (headers : Option Longstr) : Bool :=
  match type with
  | .system => false
  | .fanout => true
  | .direct => decide (key = routingKey)
  | .topic => covers env .topic key arguments (topicKey routingKey)
  | .headers => headersRoutes env arguments headers
  | .regexp => covers env .regexp key arguments routingKey.chars

namespace Exchange

/-- The bindings that a message matches. -/
def matching (env : Env) (ex : Exchange) (routingKey : Shortstr) (headers : Option Longstr) :
    List Binding :=
  ex.bindingList.filter fun b => routes env ex.type b.routingKey b.arguments routingKey headers

/-- No binding uses the last octet of the bitmaps. -/
def InBitmap (ex : Exchange) : Prop :=
  ∀ b ∈ ex.bindingList, b.index.val < iprBitsSizeBits - 8

/-- The condition under which a message is looked up correctly. -/
def PublishOk (env : Env) (ex : Exchange) (headers : Option Longstr) : Prop :=
  (ex.type = .topic ∨ ex.type = .headers ∨ ex.type = .regexp → InBitmap ex) ∧ (ex.type = .headers →
      fieldListNew headers = .error .rejected ∨ (keysOfMessage env headers).isSome = true)

instance (ex : Exchange) : Decidable (InBitmap ex) := by
  unfold InBitmap
  infer_instance

instance (env : Env) (ex : Exchange) (headers : Option Longstr) :
    Decidable (PublishOk env ex headers) :=
  inferInstanceAs (Decidable (_ ∧ _))

/-- The queue set of the exchange has room for the queues of all matching bindings. -/
def Room (env : Env) (ex : Exchange) (routingKey : Shortstr) (headers : Option Longstr) : Prop :=
  ((ex.matching env routingKey headers).map fun b => (ex.queueSet b.addr).length).sum ≤ queueSetMax

instance (env : Env) (ex : Exchange) (routingKey : Shortstr) (headers : Option Longstr) :
    Decidable (Room env ex routingKey headers) := by
  unfold Room
  infer_instance

/-! ## Collecting -/

theorem take_append_take {α : Type*} (xs ys : List α) (n : Nat) :
    (xs.take n ++ ys).take n = (xs ++ ys).take n := by
  rw [take_append, take_append, take_take, length_take, Nat.min_self]
  congr 2
  omega

variable {ex : Exchange} {env : Env} {headers : Option Longstr} {b : Binding}
  {r : Exchange × List Binding}

theorem collect_eq_take {set : List QueueRef} (b : Binding) (h : set.length ≤ queueSetMax) :
    ex.collect set b = (set ++ ex.queueSet b.addr).take queueSetMax := by
  unfold collect
  generalize ex.queueSet b.addr = queues
  induction queues generalizing set with
  | nil => simp [take_of_length_le h]
  | cons q qs ih =>
    rw [foldl_cons]
    split
    · next hlt =>
      rw [ih (by rw [length_append, length_singleton]; omega)]
      simp
    · next hge =>
      -- no place is left, for this queue and all others
      rw [ih h, take_append_of_le_length (by omega), take_append_of_le_length (by omega)]

theorem foldl_collect_eq_take (bindings : List Binding) {set : List QueueRef}
    (h : set.length ≤ queueSetMax) :
    bindings.foldl ex.collect set =
      (set ++ bindings.flatMap fun b => ex.queueSet b.addr).take queueSetMax := by
  induction bindings generalizing set with
  | nil => simp [take_of_length_le h]
  | cons b bs ih =>
    have hlen : (ex.collect set b).length ≤ queueSetMax := by
      rw [collect_eq_take b h, length_take]
      omega
    rw [foldl_cons, ih hlen, collect_eq_take b h, take_append_take, flatMap_cons, append_assoc]

theorem foldl_collect_eq {bindings : List Binding}
    (h : (bindings.map fun b => (ex.queueSet b.addr).length).sum ≤ queueSetMax) :
    bindings.foldl ex.collect [] = bindings.flatMap fun b => ex.queueSet b.addr := by
  rw [foldl_collect_eq_take bindings (Nat.zero_le _), nil_append]
  refine take_of_length_le ?_
  rw [length_flatMap]
  exact h

theorem mem_queuesOf {bindings : List Binding}
    (h : (bindings.map fun b => (ex.queueSet b.addr).length).sum ≤ queueSetMax) {q : QueueRef} :
    q ∈ ex.queuesOf bindings ↔ ∃ b ∈ bindings, q ∈ ex.queueSet b.addr := by
  unfold queuesOf
  rw [Lib.mem_sortUnique, foldl_collect_eq h, mem_flatMap]

/-! ## Following the bits of an index -/

theorem mapM_fetch (hwf : Wf ex) {nbrs : List ObjectNbr}
    (h : ∀ n ∈ nbrs, ∃ b ∈ ex.bindingList, b.index = n) :
    ∃ hits, nbrs.mapM ex.fetch = some hits ∧ hits.map (·.index) = nbrs ∧
      ∀ b ∈ hits, b ∈ ex.bindingList := by
  induction nbrs with
  | nil => exact ⟨[], rfl, rfl, by simp⟩
  | cons n ns ih =>
    obtain ⟨b, hb, rfl⟩ := h n mem_cons_self
    obtain ⟨hits, hmap, hidx, hmem⟩ := ih fun n hn => h n (mem_cons_of_mem _ hn)
    refine ⟨b :: hits, ?_, by rw [map_cons, hidx], ?_⟩
    · rw [mapM_cons, hwf.fetch_of_mem hb, hmap]
      rfl
    · intro b' hb'
      rcases mem_cons.mp hb' with rfl | hb'
      · exact hb
      · exact hmem b' hb'

theorem fetchAll_perm (hwf : Wf ex) (hbitmap : InBitmap ex) {bindset : Bits} {test : Binding → Bool}
    (h : ∀ n, n ∈ bindset.ones ↔ ∃ b ∈ ex.bindingList, b.index = n ∧ test b = true) :
    ∃ hits, ex.fetchAll bindset = some hits ∧ hits.Perm (ex.bindingList.filter test) := by
  have hlive : ∀ n ∈ bindset.ones, ∃ b ∈ ex.bindingList, b.index = n := by
    intro n hn
    obtain ⟨b, hb, hi, -⟩ := (h n).mp hn
    exact ⟨b, hb, hi⟩
  obtain ⟨hits, hmap, hidx, hmem⟩ := mapM_fetch hwf hlive
  -- the scan ends early in the last octet of the bitmap, which is not in use
  have hscan : bindset.scan = some bindset.ones := by
    refine Bits.scan_eq_some fun n hn => ?_
    obtain ⟨b, hb, rfl⟩ := hlive n hn
    exact hbitmap b hb
  refine ⟨hits, by rw [fetchAll, hscan]; exact hmap, ?_⟩
  have hnd : hits.Nodup := by
    refine List.Nodup.of_map (·.index) ?_
    rw [hidx]
    exact bindset.nodup_ones
  -- both lists are duplicate free, so their elements decide
  refine (perm_ext_iff_of_nodup hnd (hwf.nodup.filter _)).mpr fun b => ?_
  rw [mem_filter]
  constructor
  · intro hb
    have hn : b.index ∈ bindset.ones := by
      rw [← hidx]
      exact mem_map_of_mem hb
    obtain ⟨b', hb', hi, htest⟩ := (h b.index).mp hn
    rw [hwf.eq_of_index (hmem b hb) hb' hi.symm]
    exact ⟨hb', htest⟩
  · rintro ⟨hb, htest⟩
    have hn : b.index ∈ hits.map (·.index) := by
      rw [hidx]
      exact (h b.index).mpr ⟨b, hb, rfl, htest⟩
    obtain ⟨b', hb', hi⟩ := mem_map.mp hn
    rw [← hwf.eq_of_index (hmem b' hb') hb hi]
    exact hb'

/-! ## Publishing through an index -/

theorem Compiled.addIndex (hc : Compiled env ex) {index : Index}
    (hnone : searchIndex ex.indices index.key = none)
    (hbits : ∀ n, n ∈ index.bindset.ones ↔ ∃ b ∈ ex.bindingList, b.index = n ∧
      covers env ex.type b.routingKey b.arguments index.key = true)
    : Compiled env { ex with indices := ex.indices ++ [index] } := by
  have hsearch : ∀ key, searchIndex (ex.indices ++ [index]) key =
      if key = index.key then some index else searchIndex ex.indices key := by
    intro key
    rw [searchIndex_append hnone]
    by_cases h : key = index.key
    · rw [if_pos ⟨h, rfl⟩, if_pos h]
    · rw [if_neg (fun hk => h hk.1), if_neg h, searchIndex_cons, if_neg (Ne.symm h)]
      simp [searchIndex]
  have hkeep : ∀ key, (searchIndex ex.indices key).isSome →
      (searchIndex (ex.indices ++ [index]) key).isSome := by
    intro key h
    rw [hsearch]
    split
    · rfl
    · exact h
  refine ⟨fun key hs n => ?_, fun ht => ?_, fun ht => ?_⟩
  · simp only at hs ⊢
    unfold bitsAt
    rw [hsearch] at hs ⊢
    by_cases h : key = index.key
    · rw [if_pos h, h]
      exact hbits n
    · rw [if_neg h] at hs ⊢
      exact hc.indexed key hs n
  · have hold := hc.topic ht
    exact ⟨hold.flag, hold.regexp, hold.wildcards_first,
      fun b hb hw => hkeep _ (hold.has_index b hb hw)⟩
  · have hold := hc.headers ht
    exact ⟨hold.keys, hold.match_all,
      fun b hb keys hk key hkey => hkeep _ (hold.has_index b hb keys hk key hkey)⟩

/-- What a successful `publish` of a compiled exchange amounts to. -/
def PublishSpec (env : Env) (ex : Exchange) (routingKey : Shortstr) (headers : Option Longstr)
    (result : Option (Exchange × List Binding)) : Prop :=
  ∃ indices hits, result = some ({ ex with indices }, hits) ∧
    Compiled env { ex with indices } ∧ hits.Perm (ex.matching env routingKey headers)

/-- Either way the index for `key` ends up with the right bits, and these are followed. -/
theorem publishIndex_spec (hwf : Wf ex) (hc : Compiled env ex) (hbitmap : InBitmap ex) {key : Str}
    {bindset : Bits} {routingKey : Shortstr}
    (hroutes : ∀ b ∈ ex.bindingList,
      routes env ex.type b.routingKey b.arguments routingKey headers =
      covers env ex.type b.routingKey b.arguments key)
    (hnew : searchIndex ex.indices key = none → ∀ n, n ∈ bindset.ones ↔
      ∃ b ∈ ex.bindingList, b.index = n ∧ covers env ex.type b.routingKey b.arguments key = true)
    :
    PublishSpec env ex routingKey headers (match searchIndex ex.indices key with
        | some index => (ex.fetchAll index.bindset).map fun hits => (ex, hits)
        | none => (ex.fetchAll bindset).map fun hits =>
          ({ ex with indices := ex.indices ++ [⟨key, bindset⟩] }, hits)) := by
  have hmatch : ex.matching env routingKey headers =
      ex.bindingList.filter fun b => covers env ex.type b.routingKey b.arguments key :=
    filter_congr hroutes
  unfold PublishSpec
  rw [hmatch]
  cases hs : searchIndex ex.indices key with
  | some index =>
    have hbits := hc.indexed key (by rw [hs]; rfl)
    rw [bitsAt_of_search hs] at hbits
    obtain ⟨hits, hf, hperm⟩ := fetchAll_perm hwf hbitmap hbits
    exact ⟨ex.indices, hits, by simp only [hf]; rfl, hc, hperm⟩
  | none =>
    -- the new index is kept for the messages to come
    obtain ⟨hits, hf, hperm⟩ := fetchAll_perm hwf hbitmap (hnew hs)
    exact ⟨_, hits, by simp only [hf]; rfl, hc.addIndex hs (hnew hs), hperm⟩

theorem mem_takeWhile_wildcard {bs : List Binding}
    (h : bs.Pairwise fun b b' => b'.isWildcard = true → b.isWildcard = true) :
    b ∈ bs.takeWhile (·.isWildcard) ↔ b ∈ bs ∧ b.isWildcard = true := by
  induction bs with
  | nil => simp
  | cons c cs ih =>
    obtain ⟨hc, hcs⟩ := pairwise_cons.mp h
    by_cases hw : c.isWildcard = true
    · rw [takeWhile_cons_of_pos hw, mem_cons, ih hcs, mem_cons]
      constructor
      · rintro (rfl | ⟨hb, hbw⟩)
        · exact ⟨Or.inl rfl, hw⟩
        · exact ⟨Or.inr hb, hbw⟩
      · rintro ⟨rfl | hb, hbw⟩
        · exact Or.inl rfl
        · exact Or.inr ⟨hb, hbw⟩
    · rw [takeWhile_cons_of_neg hw]
      constructor
      · intro hb
        cases hb
      · rintro ⟨hb, hbw⟩
        rcases mem_cons.mp hb with rfl | hb
        · exact absurd hbw hw
        · exact absurd (hc b hb hbw) hw

theorem topicPublish_spec (hwf : Wf ex) (hc : Compiled env ex) (htype : ex.type = .topic)
    (hbitmap : InBitmap ex) (routingKey : Shortstr) (headers : Option Longstr) :
    PublishSpec env ex routingKey headers (ex.topicPublish env routingKey) := by
  have ht := hc.topic htype
  refine publishIndex_spec hwf hc hbitmap (fun b hb => ?_) (fun hnone n => ?_)
  · rw [htype]
    rfl
  · rw [mem_scanBindings, htype]
    constructor
    · -- the scan stops at the first binding without wildcards
      rintro ⟨b, hb, hi, hmatch⟩
      obtain ⟨hb, hw⟩ := (mem_takeWhile_wildcard ht.wildcards_first).mp hb
      refine ⟨b, hb, hi, ?_⟩
      simp only [covers]
      rw [if_pos (by rw [← ht.flag b hb]; exact hw), ← ht.regexp b hb]
      exact hmatch
    · rintro ⟨b, hb, hi, hcov⟩
      simp only [covers] at hcov
      rw [← ht.flag b hb] at hcov
      by_cases hw : b.isWildcard = true
      · rw [if_pos hw, ← ht.regexp b hb] at hcov
        exact ⟨b, (mem_takeWhile_wildcard ht.wildcards_first).mpr ⟨hb, hw⟩, hi, hcov⟩
      · -- a binding on the key itself has made the index
        rw [if_neg hw, decide_eq_true_iff] at hcov
        have hsome := ht.has_index b hb (by simpa using hw)
        rw [hcov, hnone] at hsome
        cases hsome

theorem regexpPublish_spec (hwf : Wf ex) (hc : Compiled env ex) (htype : ex.type = .regexp)
    (hbitmap : InBitmap ex) (routingKey : Shortstr) (headers : Option Longstr) :
    PublishSpec env ex routingKey headers (ex.regexpPublish env routingKey) := by
  refine publishIndex_spec hwf hc hbitmap (fun b hb => ?_) (fun _ n => ?_)
  · rw [htype]
    rfl
  · rw [mem_scanBindings, htype]
    rfl

/-! ## Publishing to a headers exchange -/

theorem keysOfFields_ne_nil {fields : List Field} {keys : List Str}
    (h : keysOfFields env fields = some keys) : keys ≠ [] := by
  obtain ⟨ks, -, rfl⟩ := map_eq_some_iff.mp h
  split
  · simp
  · next hne => exact hne

theorem bindingKeys_ne_nil {arguments : Option Longstr} {keys : List Str}
    (h : bindingKeys env arguments = some keys) : keys ≠ [] := by
  unfold bindingKeys at h
  split at h
  · cases h
  · exact keysOfFields_ne_nil h

theorem foldlM_hitsetCollect (hc : Compiled env ex) (hbitmap : InBitmap ex) (keys : List Str)
    (hitset : List ObjectNbr) :
    keys.foldlM (hitsetCollect ex.indices) hitset =
      some (hitset ++ keys.flatMap (bitsAt ex.indices)) := by
  induction keys generalizing hitset with
  | nil => simp
  | cons key keys ih =>
    have hstep : hitsetCollect ex.indices hitset key = some (hitset ++ bitsAt ex.indices key) := by
      unfold hitsetCollect
      cases hs : searchIndex ex.indices key with
      | none => simp [bitsAt, hs]
      | some index =>
        have hscan : index.bindset.scan = some index.bindset.ones := by
          refine Bits.scan_eq_some fun n hn => ?_
          rw [← bitsAt_of_search hs] at hn
          obtain ⟨b, hb, rfl, -⟩ := (hc.indexed key (by rw [hs]; rfl) n).mp hn
          exact hbitmap b hb
        rw [bitsAt_of_search hs]
        simp only [hscan, map_some]
    rw [foldlM_cons, hstep]
    simp only [bind_eq_bind, bind_some]
    rw [ih, flatMap_cons, append_assoc]

theorem mem_bitsAt_headers (hwf : Wf ex) (hc : Compiled env ex) (htype : ex.type = .headers)
    (hb : b ∈ ex.bindingList) (key : Str) :
    b.index ∈ bitsAt ex.indices key ↔ key ∈ (bindingKeys env b.arguments).getD [] := by
  have hh := hc.headers htype
  cases hs : searchIndex ex.indices key with
  | some index =>
    rw [hc.indexed key (by rw [hs]; rfl), htype]
    constructor
    · rintro ⟨b', hb', hi, hcov⟩
      rw [hwf.eq_of_index hb' hb hi] at hcov
      simpa [covers] using hcov
    · intro hkey
      exact ⟨b, hb, rfl, by simpa [covers] using hkey⟩
  | none =>
    constructor
    · intro h
      simp [bitsAt, hs] at h
    · intro hkey
      obtain ⟨keys, hkeys, -⟩ := hh.keys b hb
      rw [hkeys, getD_some] at hkey
      have hi := hh.has_index b hb keys hkeys key hkey
      rw [hs] at hi
      cases hi

theorem nodup_bitsAt (indices : List Index) (key : Str) : (bitsAt indices key).Nodup := by
  unfold bitsAt
  cases searchIndex indices key with
  | none => exact nodup_nil
  | some index => exact index.bindset.nodup_ones

theorem hitCount_eq (hwf : Wf ex) (hc : Compiled env ex) (htype : ex.type = .headers)
    (hb : b ∈ ex.bindingList) (keys : List Str) :
    (keys.flatMap (bitsAt ex.indices)).countP (fun n => decide (n.val = b.index.val)) =
      keys.countP fun key => decide (key ∈ (bindingKeys env b.arguments).getD []) := by
  have heq : ∀ ns : List ObjectNbr,
      ns.countP (fun n => decide (n.val = b.index.val)) = ns.count b.index := by
    intro ns
    refine countP_congr fun n _ => ?_
    simp [Fin.ext_iff]
  rw [heq]
  induction keys with
  | nil => rfl
  | cons key keys ih =>
    rw [flatMap_cons, count_append, countP_cons, ih, Nat.add_comm]
    congr 1
    by_cases hmem : b.index ∈ bitsAt ex.indices key
    · rw [count_eq_one_of_mem (nodup_bitsAt _ _) hmem]
      have hkey := (mem_bitsAt_headers hwf hc htype hb key).mp hmem
      rw [if_pos (decide_eq_true hkey)]
    · rw [count_eq_zero_of_not_mem hmem]
      have hkey := mt (mem_bitsAt_headers hwf hc htype hb key).mpr hmem
      rw [if_neg (by simpa using hkey)]

theorem foldl_min_le (hitset : List ObjectNbr) (m : Nat) :
    hitset.foldl (fun lowest nbr => min lowest nbr.val) m ≤ m ∧
      ∀ n ∈ hitset, hitset.foldl (fun lowest nbr => min lowest nbr.val) m ≤ n.val := by
  induction hitset generalizing m with
  | nil => simp
  | cons n ns ih =>
    rw [foldl_cons]
    obtain ⟨hm, hns⟩ := ih (min m n.val)
    refine ⟨by omega, fun k hk => ?_⟩
    rcases mem_cons.mp hk with rfl | hk
    · omega
    · exact hns k hk

theorem le_foldl_max (hitset : List ObjectNbr) (m : Nat) :
    m ≤ hitset.foldl (fun bound nbr => max bound (nbr.val + 1)) m ∧
      ∀ n ∈ hitset, n.val < hitset.foldl (fun bound nbr => max bound (nbr.val + 1)) m := by
  induction hitset generalizing m with
  | nil => simp
  | cons n ns ih =>
    rw [foldl_cons]
    obtain ⟨hm, hns⟩ := ih (max m (n.val + 1))
    refine ⟨by omega, fun k hk => ?_⟩
    rcases mem_cons.mp hk with rfl | hk
    · omega
    · exact hns k hk

theorem mem_hitsetRange {hitset : List ObjectNbr} {n : ObjectNbr} (h : n ∈ hitset) :
    n.val ∈ range' (hitsetRange hitset).1 ((hitsetRange hitset).2 - (hitsetRange hitset).1) := by
  have hlo := (foldl_min_le hitset iprBitsSizeBits).2 n h
  have hhi := (le_foldl_max hitset 0).2 n h
  rw [mem_range'_1]
  unfold hitsetRange
  omega

/-- The bindings selected are those that are hit as often as they ask for. -/
theorem selectHits_spec (hwf : Wf ex) (hitset : List ObjectNbr) (nbrs : List Nat)
    (hnd : nbrs.Nodup) :
    ∃ hits, ex.selectHits hitset nbrs = some hits ∧ hits.Nodup ∧
      ∀ b, b ∈ hits ↔ b ∈ ex.bindingList ∧ b.index.val ∈ nbrs ∧
        hitsMatch b (hitset.countP fun n => decide (n.val = b.index.val)) = true := by
  induction nbrs with
  | nil => exact ⟨[], rfl, nodup_nil, by simp⟩
  | cons nbr nbrs ih =>
    obtain ⟨hnot, hnd⟩ := nodup_cons.mp hnd
    obtain ⟨hits, hsel, hhits, hmem⟩ := ih hnd
    rw [selectHits]
    cases hd : ex.bindingIndex.data nbr with
    | none =>
      -- no binding has this number, so it is passed by
      refine ⟨hits, hsel, hhits, fun b => ?_⟩
      rw [hmem]
      refine and_congr_right fun hb => and_congr_left fun _ => ?_
      rw [mem_cons]
      constructor
      · exact Or.inr
      · rintro (rfl | h)
        · rw [hwf.data_of_mem hb] at hd
          cases hd
        · exact h
    | some addr =>
      obtain ⟨c, hc, rfl, rfl⟩ := (hwf.data_iff nbr addr).mp hd
      have hother : ∀ b ∈ ex.bindingList, b.index.val = c.index.val → b = c :=
        fun b hb hi => hwf.eq_of_index hb hc (Fin.ext hi)
      simp only [hwf.deref_of_mem hc, hsel, bind_eq_bind, bind_some]
      by_cases hm : hitsMatch c (hitset.countP fun n => decide (n.val = c.index.val)) = true
      · refine ⟨c :: hits, by rw [if_pos hm], ?_, fun b => ?_⟩
        · refine nodup_cons.mpr ⟨fun hmc => hnot ((hmem c).mp hmc).2.1, hhits⟩
        · rw [mem_cons, hmem, mem_cons]
          constructor
          · rintro (rfl | ⟨hb, hi, hbm⟩)
            · exact ⟨hc, Or.inl rfl, hm⟩
            · exact ⟨hb, Or.inr hi, hbm⟩
          · rintro ⟨hb, hi | hi, hbm⟩
            · exact Or.inl (hother b hb hi)
            · exact Or.inr ⟨hb, hi, hbm⟩
      · refine ⟨hits, by rw [if_neg hm], hhits, fun b => ?_⟩
        rw [hmem, mem_cons]
        constructor
        · rintro ⟨hb, hi, hbm⟩
          exact ⟨hb, Or.inr hi, hbm⟩
        · rintro ⟨hb, hi | hi, hbm⟩
          · rw [hother b hb hi] at hbm
            exact absurd hbm hm
          · exact ⟨hb, hi, hbm⟩

/-- A headers exchange publishes to the queues of the bindings that match. -/
theorem headersPublish_spec (hwf : Wf ex) (hc : Compiled env ex) (htype : ex.type = .headers)
    (hok : PublishOk env ex headers) (routingKey : Shortstr) :
    PublishSpec env ex routingKey headers (ex.headersPublish env headers) := by
  have hbitmap := hok.1 (Or.inr (Or.inl htype))
  have hdecode := hok.2 htype
  have hh := hc.headers htype
  unfold PublishSpec headersPublish
  cases hf : fieldListNew headers with
  | error e =>
    -- headers that are rejected match nothing
    have hrej : e = .rejected := by
      rcases hdecode with h | h
      · rw [hf] at h
        exact Except.error.inj h
      · simp [keysOfMessage, hf] at h
    subst hrej
    refine ⟨ex.indices, [], rfl, hc, ?_⟩
    have hnil : ex.matching env routingKey headers = [] := by
      unfold matching
      rw [filter_eq_nil_iff]
      intro b _
      simp [routes, htype, headersRoutes, keysOfMessage, hf]
    rw [hnil]
  | ok fields =>
    have hkeys : ∃ keys, messageKeys env fields = some keys := by
      rcases hdecode with h | h
      · rw [hf] at h
        cases h
      · simpa [keysOfMessage, hf, isSome_iff_exists] using h
    obtain ⟨keys, hkeys⟩ := hkeys
    have hmk : keysOfMessage env headers = some keys := by
      simp [keysOfMessage, hf, hkeys]
    let hitset := keys.flatMap (bitsAt ex.indices)
    have hcollect : keys.foldlM (hitsetCollect ex.indices) [] = some hitset :=
      foldlM_hitsetCollect hc hbitmap keys []
    obtain ⟨hits, hsel, hnd, hmem⟩ := selectHits_spec hwf hitset
      (range' (hitsetRange hitset).1 ((hitsetRange hitset).2 - (hitsetRange hitset).1))
      nodup_range'
    refine ⟨ex.indices, hits, ?_, hc, ?_⟩
    · simp only [hkeys, hcollect, hsel, bind_eq_bind, bind_some]
    · refine (perm_ext_iff_of_nodup hnd (hwf.nodup.filter _)).mpr fun b => ?_
      rw [hmem, mem_filter]
      refine and_congr_right fun hb => ?_
      obtain ⟨ks, hks, hcount⟩ := hh.keys b hb
      rw [hitCount_eq hwf hc htype hb, htype]
      simp only [routes, headersRoutes, hmk, hks, getD_some, hitsMatch, hh.match_all b hb, hcount]
      constructor
      · exact fun h => h.2
      · intro h
        refine ⟨?_, h⟩
        -- a binding that matches has at least one hit, so the loop reaches it
        have hpos : 0 < keys.countP fun key => decide (key ∈ ks) := by
          have hlen : 0 < ks.length := length_pos_of_ne_nil (bindingKeys_ne_nil hks)
          split at h <;> simp only [decide_eq_true_eq] at h <;> omega
        obtain ⟨key, hkey, hin⟩ := countP_pos_iff.mp hpos
        refine mem_hitsetRange (mem_flatMap.mpr ⟨key, hkey, ?_⟩)
        rw [mem_bitsAt_headers hwf hc htype hb, hks]
        simpa using hin

/-! ## Publishing to the other exchanges -/

theorem fanoutPublish_spec (hwf : Wf ex) (hc : Compiled env ex) (htype : ex.type = .fanout)
    (routingKey : Shortstr) (headers : Option Longstr) :
    PublishSpec env ex routingKey headers ex.fanoutPublish := by
  refine ⟨ex.indices, ex.bindingList.take 1, rfl, hc, ?_⟩
  have hall : ex.matching env routingKey headers = ex.bindingList := by
    unfold matching
    rw [filter_eq_self, htype]
    intro b _
    rfl
  rw [hall, take_of_length_le (hwf.fanout_single htype)]

theorem directPublish_spec (hwf : Wf ex) (hc : Compiled env ex) (htype : ex.type = .direct)
    (routingKey : Shortstr) (headers : Option Longstr) :
    PublishSpec env ex routingKey headers (ex.directPublish routingKey) := by
  have hmem : ∀ b, b ∈ ex.matching env routingKey headers ↔
      b ∈ ex.bindingList ∧ b.routingKey = routingKey := by
    intro b
    unfold matching
    rw [mem_filter, htype]
    simp [routes]
  unfold PublishSpec directPublish
  cases hhash : ex.bindingHash routingKey with
  | none =>
    refine ⟨ex.indices, [], rfl, hc, ?_⟩
    have hnil : ex.matching env routingKey headers = [] := by
      rw [eq_nil_iff_forall_not_mem]
      intro b hmatch
      obtain ⟨hb, rfl⟩ := (hmem b).mp hmatch
      have hsome := hwf.hash_complete b hb
      rw [hhash] at hsome
      cases hsome
    rw [hnil]
  | some addr =>
    obtain ⟨b, hb, rfl, rfl⟩ := hwf.hash_sound _ _ hhash
    refine ⟨ex.indices, [b], by simp only [hwf.deref_of_mem hb]; rfl, hc, ?_⟩
    have hnd : (ex.matching env b.routingKey headers).Nodup := hwf.nodup.filter _
    refine (perm_ext_iff_of_nodup (nodup_singleton b) hnd).mpr fun b' => ?_
    rw [mem_singleton, hmem]
    constructor
    · rintro rfl
      exact ⟨hb, rfl⟩
    · rintro ⟨hb', hk⟩
      exact hwf.direct_unique htype b' hb' b hb hk

theorem typePublish_spec (hwf : Wf ex) (hc : Compiled env ex) (hok : PublishOk env ex headers)
    (routingKey : Shortstr) :
    PublishSpec env ex routingKey headers (ex.typePublish env routingKey headers) := by
  unfold typePublish
  cases htype : ex.type with
  | system =>
    refine ⟨ex.indices, [], rfl, hc, ?_⟩
    have hnil : ex.matching env routingKey headers = [] := by
      unfold matching
      rw [filter_eq_nil_iff, htype]
      intro b _
      simp [routes]
    rw [hnil]
  | fanout => exact fanoutPublish_spec hwf hc htype routingKey headers
  | direct => exact directPublish_spec hwf hc htype routingKey headers
  | topic =>
    exact topicPublish_spec hwf hc htype (hok.1 (Or.inl htype)) routingKey headers
  | headers => exact headersPublish_spec hwf hc htype hok routingKey
  | regexp =>
    exact regexpPublish_spec hwf hc htype (hok.1 (Or.inr (Or.inr htype))) routingKey headers

/-! ## Publishing to any exchange -/

/-- How an exchange finds the bindings whose queues it collects. -/
inductive Finds (ex : Exchange) : List Binding → Prop
  | none : Finds ex []
  | one (b : Binding) : Finds ex [b]
  | fetch {bindset : Bits} {hits : List Binding} (h : ex.fetchAll bindset = some hits) :
      Finds ex hits
  | select {hitset : List ObjectNbr} {low count : Nat} {hits : List Binding}
      (h : ex.selectHits hitset (range' low count) = some hits) : Finds ex hits

/-- An exchange finds bindings, and changes nothing but its indices. -/
def Looks (ex : Exchange) (r : Exchange × List Binding) : Prop :=
  (∃ indices, r.1 = { ex with indices }) ∧ Finds ex r.2

theorem publishIndex_looks {found : Option Index} {new : Bits} {indices : List Index}
    (h : (match found with
      | some index => (ex.fetchAll index.bindset).map fun hits => (ex, hits)
      | none => (ex.fetchAll new).map fun hits => ({ ex with indices }, hits)) = some r)
    : ex.Looks r := by
  cases found with
  | some index =>
    obtain ⟨hits, hf, rfl⟩ := map_eq_some_iff.mp h
    exact ⟨⟨ex.indices, rfl⟩, .fetch hf⟩
  | none =>
    obtain ⟨hits, hf, rfl⟩ := map_eq_some_iff.mp h
    exact ⟨⟨indices, rfl⟩, .fetch hf⟩

theorem headersPublish_looks (h : ex.headersPublish env headers = some r) : ex.Looks r := by
  unfold headersPublish at h
  split at h
  · cases h
    exact ⟨⟨ex.indices, rfl⟩, .none⟩
  · cases h
  · obtain ⟨keys, -, h⟩ := bind_eq_some_iff.mp h
    obtain ⟨hitset, -, h⟩ := bind_eq_some_iff.mp h
    obtain ⟨hits, hsel, h⟩ := bind_eq_some_iff.mp h
    cases h
    exact ⟨⟨ex.indices, rfl⟩, .select hsel⟩

theorem typePublish_looks {routingKey : Shortstr}
    (h : ex.typePublish env routingKey headers = some r) : ex.Looks r := by
  unfold typePublish at h
  cases htype : ex.type with
  | system =>
    rw [htype] at h
    cases h
    exact ⟨⟨ex.indices, rfl⟩, .none⟩
  | fanout =>
    rw [htype] at h
    cases h
    refine ⟨⟨ex.indices, rfl⟩, ?_⟩
    cases ex.bindingList with
    | nil => exact .none
    | cons b bs => exact .one b
  | direct =>
    rw [htype] at h
    simp only [directPublish] at h
    split at h
    · cases h
      exact ⟨⟨ex.indices, rfl⟩, .none⟩
    · obtain ⟨b, -, rfl⟩ := map_eq_some_iff.mp h
      exact ⟨⟨ex.indices, rfl⟩, .one b⟩
  | topic =>
    rw [htype] at h
    exact publishIndex_looks h
  | headers =>
    rw [htype] at h
    exact headersPublish_looks h
  | regexp =>
    rw [htype] at h
    exact publishIndex_looks h

end Exchange

end OpenAmq
