import Mathlib.Data.Set.Card
import OpenAmq.Exchange.Undo

/-!
# Every queue once

A queue that is bound through several matching bindings comes up several times in the queue
set of a message. The set is sorted and equal neighbours are skipped, so that the queue is
passed the message once, and the number of these queues is what `publish` returns.

* `publishCount` — the queues that a message is passed on to, with the return value
* `candidates` — the queue sets of all matching bindings, in the order of collection
* `publish_eachOnce_iff` — when it is each of these queues once
-/

namespace OpenAmq

open Exchange List Option

namespace Exchange

/-! ## The footer of publish -/

/-- The loop over the sorted queue set: the queues published to, and `delivered`. -/
def publishUnique : (lastQueue : Option QueueRef) → List QueueRef → List QueueRef × Nat
  | _, [] => ([], 0)
  | lastQueue, queue :: queues =>
    if lastQueue = some queue then publishUnique lastQueue queues
    else
      let r := publishUnique (some queue) queues
      (queue :: r.1, r.2 + 1)

/-- The `publish` method of an exchange with its return value, the number of deliveries. -/
def publishCount (env : Env) (self : Exchange) (routingKey : Shortstr)
    (headers : Option Longstr) : Option (List QueueRef × Nat) :=
  (self.typePublish env routingKey headers).map fun r =>
    publishUnique none ((r.2.foldl r.1.collect []).insertionSort (· ≤ ·))

theorem publishUnique_eq (lastQueue : Option QueueRef) (queues : List QueueRef) :
    publishUnique lastQueue queues =
      (Lib.skipEqual lastQueue queues, (Lib.skipEqual lastQueue queues).length) := by
  induction queues generalizing lastQueue with
  | nil => rfl
  | cons q qs ih =>
    rw [publishUnique, Lib.skipEqual]
    split
    · exact ih lastQueue
    · rw [ih (some q)]
      rfl

theorem publishCount_eq (env : Env) (ex : Exchange) (routingKey : Shortstr)
    (headers : Option Longstr) :
    ex.publishCount env routingKey headers =
      (ex.publish env routingKey headers).map fun r => (r.2, r.2.length) := by
  unfold publishCount publish
  rw [Option.map_map]
  congr 1
  funext r
  exact publishUnique_eq none _

/-! ## The order of collection -/

/-- The bindings that a message matches, by their numbers. -/
def matchingByIndex (env : Env) (ex : Exchange) (routingKey : Shortstr)
    (headers : Option Longstr) : List Binding :=
  (ex.matching env routingKey headers).insertionSort fun b b' => b.index ≤ b'.index

/-- The queue sets of all matching bindings, in the order of collection. -/
def candidates (env : Env) (ex : Exchange) (routingKey : Shortstr) (headers : Option Longstr) :
    List QueueRef :=
  (ex.matchingByIndex env routingKey headers).flatMap fun b => ex.queueSet b.addr

variable {ex : Exchange} {hits : List Binding} {env : Env} {headers : Option Longstr}

theorem Wf.index_of_data (hwf : Wf ex) {i addr : Nat} {b : Binding}
    (hd : ex.bindingIndex.data i = some addr) (hb : ex.deref addr = some b) : b.index.val = i := by
  obtain ⟨b', hb', hi, rfl⟩ := (hwf.data_iff i addr).mp hd
  rw [hwf.deref_of_mem hb', some.injEq] at hb
  rw [← hb]
  exact hi

theorem fetchAll_sorted (hwf : Wf ex) {bindset : Bits} (h : ex.fetchAll bindset = some hits) :
    hits.Pairwise fun b b' => b.index < b'.index := by
  obtain ⟨nbrs, hscan, hmap⟩ := bind_eq_some_iff.mp h
  have hnbrs : nbrs.Pairwise (· < ·) := by
    unfold Bits.scan at hscan
    split at hscan
    · cases hscan
      exact bindset.sorted
    · cases hscan
  have hidx : hits.map (·.index) = nbrs := by
    clear h hscan hnbrs
    induction nbrs generalizing hits with
    | nil =>
      cases hmap
      rfl
    | cons n ns ih =>
      rw [mapM_cons] at hmap
      obtain ⟨b, hb, hmap⟩ := bind_eq_some_iff.mp hmap
      obtain ⟨bs, hbs, hmap⟩ := bind_eq_some_iff.mp hmap
      cases hmap
      obtain ⟨addr, hd, hderef⟩ := bind_eq_some_iff.mp hb
      rw [map_cons, ih hbs, Fin.ext (hwf.index_of_data hd hderef)]
  rw [← hidx, pairwise_map] at hnbrs
  exact hnbrs

theorem selectHits_sorted (hwf : Wf ex) {hitset : List ObjectNbr} {nbrs : List Nat}
    (hnbrs : nbrs.Pairwise (· < ·)) (h : ex.selectHits hitset nbrs = some hits) :
    hits.Pairwise (fun b b' => b.index < b'.index) ∧ ∀ b ∈ hits, b.index.val ∈ nbrs := by
  induction nbrs generalizing hits with
  | nil =>
    cases h
    exact ⟨List.Pairwise.nil, by simp⟩
  | cons nbr nbrs ih =>
    obtain ⟨hlt, hnbrs⟩ := pairwise_cons.mp hnbrs
    rw [selectHits] at h
    split at h
    · -- no binding has this number
      obtain ⟨hsorted, hmem⟩ := ih hnbrs h
      exact ⟨hsorted, fun b hb => mem_cons_of_mem _ (hmem b hb)⟩
    · next addr hd =>
      obtain ⟨b, hb, h⟩ := bind_eq_some_iff.mp h
      obtain ⟨bs, hbs, h⟩ := bind_eq_some_iff.mp h
      obtain ⟨hsorted, hmem⟩ := ih hnbrs hbs
      have hi : b.index.val = nbr := hwf.index_of_data hd hb
      split at h
      · cases h
        refine ⟨pairwise_cons.mpr ⟨fun b' hb' => ?_, hsorted⟩, fun b' hb' => ?_⟩
        · have hlt' := hlt _ (hmem b' hb')
          rw [← hi] at hlt'
          exact hlt'
        · rcases mem_cons.mp hb' with rfl | hb'
          · rw [hi]
            exact mem_cons_self
          · exact mem_cons_of_mem _ (hmem b' hb')
      · cases h
        exact ⟨hsorted, fun b hb => mem_cons_of_mem _ (hmem b hb)⟩

variable {routingKey : Shortstr}

theorem typePublish_sorted (hwf : Wf ex) {r : Exchange × List Binding}
    (h : ex.typePublish env routingKey headers = some r) :
    r.2.Pairwise fun b b' => b.index < b'.index := by
  obtain ⟨ex', hits⟩ := r
  have hfinds : Finds ex hits := (typePublish_looks h).2
  cases hfinds with
  | none => exact List.Pairwise.nil
  | one b => exact pairwise_singleton _ b
  | fetch hf => exact fetchAll_sorted hwf hf
  | select hsel => exact (selectHits_sorted hwf pairwise_lt_range' hsel).1

theorem eq_matchingByIndex (hwf : Wf ex)
    (hperm : hits.Perm (ex.matching env routingKey headers))
    (hsorted : hits.Pairwise fun b b' => b.index < b'.index) :
    hits = ex.matchingByIndex env routingKey headers := by
  have : Std.Total fun b b' : Binding => b.index ≤ b'.index := ⟨fun b b' => le_total _ _⟩
  have : IsTrans Binding fun b b' => b.index ≤ b'.index := ⟨fun _ _ _ => le_trans⟩
  have hsort := perm_insertionSort (fun b b' : Binding => b.index ≤ b'.index)
    (ex.matching env routingKey headers)
  have hle : hits.Pairwise fun b b' => b.index ≤ b'.index := hsorted.imp fun h => le_of_lt h
  refine List.Perm.eq_of_pairwise ?_ hle (pairwise_insertionSort _ _) (hperm.trans hsort.symm)
  intro b b' hb hb' hle hge
  have hbl := (mem_filter.mp (hperm.mem_iff.mp hb)).1
  have hbl' := (mem_filter.mp (hsort.mem_iff.mp hb')).1
  exact hwf.eq_of_index hbl hbl' (le_antisymm hle hge)

theorem publish_candidates (hwf : Wf ex) (hc : Compiled env ex) (hok : PublishOk env ex headers)
    (routingKey : Shortstr) :
    (ex.publish env routingKey headers).map Prod.snd =
      some (Lib.sortUnique ((ex.candidates env routingKey headers).take queueSetMax)) := by
  obtain ⟨indices, hits, heq, -, hperm⟩ := typePublish_spec hwf hc hok routingKey
  have hhits : hits = ex.matchingByIndex env routingKey headers :=
    eq_matchingByIndex hwf hperm (typePublish_sorted hwf heq)
  have hcollect : ({ ex with indices } : Exchange).queuesOf hits =
      Lib.sortUnique ((ex.candidates env routingKey headers).take queueSetMax) := by
    unfold queuesOf candidates
    rw [foldl_collect_eq_take hits (Nat.zero_le _), ← hhits]
    rfl
  rw [publish, heq, map_some, hcollect]
  rfl

/-! ## Every queue once -/

/-- Each of these queues gets the message once and no other queue does, and the return value
is the number of these queues. -/
structure EachOnce (matched : Set QueueRef) (r : List QueueRef × Nat) : Prop where
  once : ∀ q ∈ matched, r.1.count q = 1
  only : ∀ q ∉ matched, r.1.count q = 0
  count : r.2 = matched.ncard

theorem EachOnce.mem {matched : Set QueueRef} {r : List QueueRef × Nat}
    (h : EachOnce matched r) {q : QueueRef} (hq : q ∈ matched) : q ∈ r.1 := by
  have hcount := h.once q hq
  exact count_pos_iff.mp (hcount ▸ Nat.one_pos)

/-- The queues that are bound with a route that the message matches. -/
def matchedQueues (env : Env) (type : ExchangeType) (ops : List ExchangeOp)
    (routingKey : Shortstr) (headers : Option Longstr) : Set QueueRef :=
  {q | ∃ k a, (q, k, a) ∈ tableOf type ops ∧ routes env type k a routingKey headers}

/-- Every candidate comes up among those that the queue set has room for. -/
def WithinSet (env : Env) (ex : Exchange) (routingKey : Shortstr) (headers : Option Longstr) :
    Prop :=
  ∀ q ∈ ex.candidates env routingKey headers,
    q ∈ (ex.candidates env routingKey headers).take queueSetMax

instance (env : Env) (ex : Exchange) (routingKey : Shortstr) (headers : Option Longstr) :
    Decidable (WithinSet env ex routingKey headers) := by
  unfold WithinSet
  infer_instance

theorem eachOnce_iff {matched : Set QueueRef} {queues : List QueueRef} (hnd : queues.Nodup)
    (hsub : ∀ q ∈ queues, q ∈ matched) :
    EachOnce matched (queues, queues.length) ↔ ∀ q ∈ matched, q ∈ queues := by
  constructor
  · intro h q hq
    exact h.mem hq
  · intro hall
    refine ⟨fun q hq => count_eq_one_of_mem hnd (hall q hq),
      fun q hq => count_eq_zero_of_not_mem fun hmem => hq (hsub q hmem), ?_⟩
    have hset : matched = (queues.toFinset : Set QueueRef) := by
      ext q
      rw [coe_toFinset, Set.mem_ofPred_eq]
      exact ⟨hall q, hsub q⟩
    rw [hset, Set.ncard_coe_finset, toFinset_card_of_nodup hnd]

/--
On exchanges of every type a message goes to each queue with a matching route once, and their
number is returned, exactly if the queue set has room for all of them.

The queues of all matching bindings are put into the set, repetitions included, until it is
full; the repetitions are only taken out afterwards. The condition on the run is that the
bindings are looked up correctly, which is stated for each exchange type in `NewBindingOk`,
`StepOk` and `PublishOk`.
-/
theorem publish_eachOnce_iff {env : Env} {type : ExchangeType} {ops : List ExchangeOp}
    {routingKey : Shortstr} {headers : Option Longstr} (hrun : RunOk env type ops)
    (hlast : (Lib.run (Exchange.step env) { type } ops).all fun ex =>
      decide (PublishOk env ex headers)) :
    ∃ ex r, Lib.run (Exchange.step env) { type } ops = some ex ∧
      ex.publishCount env routingKey headers = some r ∧
      (EachOnce (matchedQueues env type ops routingKey headers) r ↔
        WithinSet env ex routingKey headers) := by
  obtain ⟨ex, hex, hR⟩ := run_table hrun
  rw [hex, all_some, decide_eq_true_iff] at hlast
  have hpub := publish_candidates hR.wf hR.compiled hlast routingKey
  obtain ⟨r, hr, hqueues⟩ := map_eq_some_iff.mp hpub
  refine ⟨ex, (r.2, r.2.length), hex, by rw [publishCount_eq, hr]; rfl, ?_⟩
  rw [hqueues]
  -- the candidates are the queues with a matching route
  have hmatched : ∀ q, q ∈ ex.candidates env routingKey headers ↔
      q ∈ matchedQueues env type ops routingKey headers := by
    intro q
    unfold candidates matchingByIndex
    rw [mem_flatMap]
    constructor
    · rintro ⟨b, hb, hq⟩
      obtain ⟨hbl, hroutes⟩ := mem_filter.mp ((mem_insertionSort _).mp hb)
      rw [hR.type_eq] at hroutes
      exact ⟨b.routingKey, b.arguments, (hR.bound _).mpr ⟨b, hbl, rfl, rfl, hq⟩, hroutes⟩
    · rintro ⟨k, a, hmem, hroutes⟩
      obtain ⟨b, hb, rfl, rfl, hq⟩ := (hR.bound _).mp hmem
      refine ⟨b, (mem_insertionSort _).mpr (mem_filter.mpr ⟨hb, ?_⟩), hq⟩
      rw [hR.type_eq]
      exact hroutes
  rw [eachOnce_iff (Lib.nodup_sortUnique _) fun q hq =>
    (hmatched q).mp (mem_of_mem_take (Lib.mem_sortUnique.mp hq))]
  constructor
  · intro h q hq
    exact Lib.mem_sortUnique.mp (h q ((hmatched q).mp hq))
  · intro h q hq
    exact Lib.mem_sortUnique.mpr (h q ((hmatched q).mpr hq))

/-- A queue is bound with two patterns that match the message, another with one of them. -/
def overlapping : List ExchangeOp :=
  [.bind 4096 none ⟨1, false⟩ plainKey none, .bind 8192 none ⟨1, false⟩ starKey none,
    .bind 12288 none ⟨2, false⟩ starKey none]

theorem publish_eachOnce_overlapping :
    ∃ ex r, Lib.run (Exchange.step anyEnv) { type := .regexp } overlapping = some ex ∧
      ex.publishCount anyEnv plainKey none = some r ∧
      (EachOnce (matchedQueues anyEnv .regexp overlapping plainKey none) r ↔
        WithinSet anyEnv ex plainKey none) :=
  publish_eachOnce_iff (by decide +kernel) (by decide +kernel)

theorem fanout_bindQueues {n : Nat} (hn : queueSetMax < n) :
    ∃ ex r, Lib.run (Exchange.step anyEnv) { type := .fanout } (bindQueues n .empty) = some ex ∧
      ex.publishCount anyEnv plainKey none = some r ∧
      ¬ EachOnce (matchedQueues anyEnv .fanout (bindQueues n .empty) plainKey none) r := by
  obtain ⟨ex, hrun, hR, -⟩ := run_bindQueues anyEnv .fanout .empty n rfl rfl (by decide +kernel)
  have hok : PublishOk anyEnv ex none := by
    refine ⟨fun h => ?_, fun h => ?_⟩
    · rw [hR.type_eq] at h
      simp at h
    · rw [hR.type_eq] at h
      cases h
  obtain ⟨ex', hpub, -⟩ := publish_simulates hR plainKey hok
  obtain ⟨r, hr, -⟩ := map_eq_some_iff.mp hpub
  refine ⟨ex, (r.2, r.2.length), hrun, by rw [publishCount_eq, hr]; rfl, fun h => ?_⟩
  have hdel : deliveries anyEnv .fanout (bindQueues n .empty) plainKey none = some r.2 := by
    rw [deliveries, hrun, bind_some, hr]
    rfl
  obtain ⟨q, hq, hnot⟩ := exists_not_mem_deliveries hn hdel
  exact hnot (h.mem ⟨.empty, none, mem_tableOf_bindQueues rfl hq, rfl⟩)

/-- Of 16001 queues bound to a fanout exchange, not each gets the message. -/
theorem fanout_misses_queue :
    ∃ ex r, Lib.run (Exchange.step anyEnv) { type := .fanout } (bindQueues 16001 .empty) = some ex ∧
      ex.publishCount anyEnv plainKey none = some r ∧
      ¬ EachOnce (matchedQueues anyEnv .fanout (bindQueues 16001 .empty) plainKey none) r :=
  fanout_bindQueues (n := 16001) (by decide)

end Exchange

end OpenAmq
