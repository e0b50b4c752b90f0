import OpenAmq.Exchange.Runs

/-!
# Deliveries of topic, direct, fanout and regexp exchanges

What the table of routes means for the exchanges that do not look at headers, and the
requests on which they lose a message. `exists_not_mem_deliveries` is about all of them: a
message goes to no more than `queueSetMax` queues.
-/

namespace OpenAmq

open Exchange List

/-! ## Topic exchange -/

/-- A binding key matches a routing key: it is the same text, or a pattern that PCRE accepts. -/
def TopicMatches (env : Env) (bindingKey routingKey : Shortstr) : Prop :=
  (topicIsWildcard bindingKey.chars = false ∧ bindingKey = routingKey) ∨
    (topicIsWildcard bindingKey.chars = true ∧
      env.regexpMatch (topicToRegexp bindingKey.chars) routingKey.chars = true)

variable {env : Env} {key routingKey : Shortstr} {headers : Option Longstr} {type : ExchangeType}
  {n : Nat}

theorem routes_topic_iff {a : Option Longstr} (hk : routingKey.chars ≠ []) :
    routes env .topic key a routingKey headers = true ↔ TopicMatches env key routingKey := by
  have htk : topicKey routingKey = routingKey.chars := if_neg hk
  simp only [routes, covers, htk, TopicMatches]
  by_cases hw : topicIsWildcard key.chars = true
  · simp [hw]
  · rw [if_neg hw, decide_eq_true_iff]
    constructor
    · intro h
      exact Or.inl ⟨by simpa using hw, Shortstr.eq_of_chars_eq h⟩
    · rintro (⟨-, rfl⟩ | ⟨hw', -⟩)
      · rfl
      · exact absurd hw' hw

variable {ops : List ExchangeOp} {headers : Option Longstr} {routingKey : Shortstr} {env : Env}

/--
A topic exchange delivers to the queues that are bound with a matching key, in whatever
order bindings and messages came.

The condition on the run is that a binding without wildcards is compiled while there is
already an index for its key, or no older wildcard binding matches it.
-/
theorem mem_deliveries_topic {env : Env} {ops : List ExchangeOp} {routingKey : Shortstr}
    {headers : Option Longstr} (hk : routingKey.chars ≠ [])
    (hok : DeliveryOk env .topic ops routingKey headers) :
    ∃ queues, deliveries env .topic ops routingKey headers = some queues ∧ ∀ q, q ∈ queues ↔
        ∃ key a, (q, key, a) ∈ tableOf .topic ops ∧ TopicMatches env key routingKey := by
  obtain ⟨queues, hdel, hmem⟩ := mem_deliveries hok
  refine ⟨queues, hdel, fun q => ?_⟩
  rw [hmem]
  simp only [routes_topic_iff hk]

section Topic

/-- PCRE, as far as the pattern for `a.*` and the routing key `a.b` go. -/
def starEnv : Env where
  pcreMatch pattern subject :=
    decide (pattern = "^a\\.(?: |\\w*)$".toList ∧ subject = "a.b".toList)
  formatDecimal _ _ := []

def starKey : Shortstr := ⟨"a.*".toList, by decide⟩

def plainKey : Shortstr := ⟨"a.b".toList, by decide⟩

/-- The index is made by a message, before the binding without wildcards. -/
def messageFirst : List ExchangeOp :=
  [.bind 4096 none ⟨1, false⟩ starKey none, .publish plainKey none,
    .bind 8192 none ⟨2, false⟩ plainKey none]

theorem mem_deliveries_topic_messageFirst :
    ∃ queues, deliveries starEnv .topic messageFirst plainKey none = some queues ∧
      ∀ q, q ∈ queues ↔ ∃ key a, (q, key, a) ∈ tableOf .topic messageFirst ∧
        TopicMatches starEnv key plainKey :=
  mem_deliveries_topic (by decide) (by decide +kernel)

/-- The index is made by the binding without wildcards. -/
def bindingFirst : List ExchangeOp :=
  [.bind 4096 none ⟨1, false⟩ starKey none, .bind 8192 none ⟨2, false⟩ plainKey none]

/-- Queue 1 is bound with `a.*`, but a message with routing key `a.b` passes it by. -/
theorem topic_index_misses_wildcard :
    deliveries starEnv .topic bindingFirst plainKey none = some [2] ∧
      (1, starKey, none) ∈ tableOf .topic bindingFirst ∧
      TopicMatches starEnv starKey plainKey := by
  refine ⟨by decide +kernel, ?_, Or.inr (by decide +kernel)⟩
  exact Set.mem_insert_of_mem _ (Set.mem_insert _ _)

end Topic

/-! ## Direct exchange -/

/--
A direct exchange delivers to the queues that are bound with the routing key of the message.

The condition on the run is that a new binding has a routing key that no other binding has,
since the hash holds one binding for each key.
-/
theorem mem_deliveries_direct {env : Env} {ops : List ExchangeOp} {routingKey : Shortstr}
    {headers : Option Longstr} (hok : DeliveryOk env .direct ops routingKey headers) :
    ∃ queues, deliveries env .direct ops routingKey headers = some queues ∧
      ∀ q, q ∈ queues ↔ ∃ a, (q, routingKey, a) ∈ tableOf .direct ops := by
  obtain ⟨queues, hdel, hmem⟩ := mem_deliveries hok
  refine ⟨queues, hdel, fun q => ?_⟩
  rw [hmem]
  simp only [routes, decide_eq_true_iff]
  constructor
  · rintro ⟨k, a, ha, rfl⟩
    exact ⟨a, ha⟩
  · rintro ⟨a, ha⟩
    exact ⟨routingKey, a, ha, rfl⟩

section Direct

/-- An arguments table with the field `a`, without a value. -/
def voidArguments : Longstr := [1, 97, 86]

/-- Two queues share a binding, and one of them is unbound again. -/
def sharedBinding : List ExchangeOp :=
  [.bind 4096 none ⟨1, false⟩ plainKey none, .bind 8192 none ⟨2, false⟩ plainKey none,
    .unbind 1 plainKey none]

theorem mem_deliveries_direct_sharedBinding :
    ∃ queues, deliveries starEnv .direct sharedBinding plainKey none = some queues ∧
      ∀ q, q ∈ queues ↔ ∃ a, (q, plainKey, a) ∈ tableOf .direct sharedBinding :=
  mem_deliveries_direct (by decide +kernel)

/-- Two bindings with the same routing key and different arguments. -/
def twoBindings : List ExchangeOp :=
  [.bind 4096 none ⟨1, false⟩ plainKey none,
    .bind 8192 none ⟨2, false⟩ plainKey (some voidArguments)]

/-- Queue 2 is bound with the routing key of the message, which goes to queue 1 only. -/
theorem direct_hash_misses_binding :
    deliveries starEnv .direct twoBindings plainKey none = some [1] ∧
      (2, plainKey, some voidArguments) ∈ tableOf .direct twoBindings := by
  refine ⟨by decide +kernel, ?_⟩
  exact Set.mem_insert _ _

end Direct

/-! ## Fanout exchange -/

/--
A fanout exchange delivers to the queues that are bound, with whatever key.

The condition on the run is that every binding has the same arguments, since only the first
binding is looked at, and that an unbind comes with an empty routing key or for a queue that
is not bound, since the key of a binding is empty and is compared with the one given.
-/
theorem mem_deliveries_fanout {env : Env} {ops : List ExchangeOp} {routingKey : Shortstr}
    {headers : Option Longstr} (hok : DeliveryOk env .fanout ops routingKey headers) :
    ∃ queues, deliveries env .fanout ops routingKey headers = some queues ∧
      ∀ q, q ∈ queues ↔ ∃ key a, (q, key, a) ∈ tableOf .fanout ops := by
  obtain ⟨queues, hdel, hmem⟩ := mem_deliveries hok
  refine ⟨queues, hdel, fun q => ?_⟩
  rw [hmem]
  simp only [routes, and_true]

section Fanout

/-- Two queues are bound with different keys, and one of them is unbound with the empty key. -/
def fanoutKeys : List ExchangeOp :=
  [.bind 4096 none ⟨1, false⟩ plainKey none, .bind 8192 none ⟨2, false⟩ .empty none,
    .unbind 1 .empty none]

theorem mem_deliveries_fanout_keys :
    ∃ queues, deliveries starEnv .fanout fanoutKeys plainKey none = some queues ∧
      ∀ q, q ∈ queues ↔ ∃ key a, (q, key, a) ∈ tableOf .fanout fanoutKeys :=
  mem_deliveries_fanout (by decide +kernel)

/-- Two queues are bound with different arguments. -/
def fanoutArguments : List ExchangeOp :=
  [.bind 4096 none ⟨1, false⟩ .empty none, .bind 8192 none ⟨2, false⟩ .empty (some voidArguments)]

/-- Queue 2 is bound, but on the second binding of the exchange. -/
theorem fanout_misses_second_binding :
    deliveries starEnv .fanout fanoutArguments plainKey none = some [1] ∧
      (2, Shortstr.empty, some voidArguments) ∈ tableOf .fanout fanoutArguments := by
  refine ⟨by decide +kernel, ?_⟩
  exact Set.mem_insert _ _

end Fanout

/-! ## Regexp exchange -/

/--
A regexp exchange delivers to the queues that are bound with a pattern that matches the
routing key, in whatever order bindings and messages came.

The condition is one on resources only: the address and the number of a new binding, its
arguments, and the room for queues.
-/
theorem mem_deliveries_regexp {env : Env} {ops : List ExchangeOp} {routingKey : Shortstr}
    {headers : Option Longstr} (hok : DeliveryOk env .regexp ops routingKey headers) :
    ∃ queues, deliveries env .regexp ops routingKey headers = some queues ∧
      ∀ q, q ∈ queues ↔ ∃ pattern a, (q, pattern, a) ∈ tableOf .regexp ops ∧
        env.pcreMatch pattern.chars routingKey.chars = true := by
  obtain ⟨queues, hdel, hmem⟩ := mem_deliveries hok
  refine ⟨queues, hdel, fun q => ?_⟩
  rw [hmem]
  simp only [routes, covers]

/-! ## More queues than a message can go to -/

theorem length_deliveries_le {queues : List QueueRef}
    (h : deliveries env type ops routingKey headers = some queues) :
    queues.length ≤ queueSetMax := by
  obtain ⟨ex, -, hpub⟩ := Option.bind_eq_some_iff.mp h
  obtain ⟨r, hr, rfl⟩ := Option.map_eq_some_iff.mp hpub
  obtain ⟨hits, -, rfl⟩ := Option.map_eq_some_iff.mp hr
  refine Nat.le_trans Lib.length_sortUnique_le ?_
  rw [foldl_collect_eq_take hits.2 (Nat.zero_le _), length_take]
  exact Nat.min_le_left _ _

/-- Queues 0 to `n - 1` are bound with the same key. -/
def bindQueues (n : Nat) (key : Shortstr) : List ExchangeOp :=
  (range n).map fun q => .bind 4096 none ⟨q, false⟩ key none

theorem bindQueues_succ (n : Nat) (key : Shortstr) :
    bindQueues (n + 1) key = bindQueues n key ++ [.bind 4096 none ⟨n, false⟩ key none] := by
  unfold bindQueues
  rw [range_succ, map_append, map_singleton]

theorem mem_tableOf_bindQueues {q : Nat} (hkey : normKey type key = key) (hq : q < n) :
    (q, key, none) ∈ tableOf type (bindQueues n key) := by
  induction n with
  | zero => omega
  | succ n ih =>
    unfold tableOf at ih ⊢
    rw [bindQueues_succ, foldl_append]
    show _ ∈ insert (n, normKey type key, normArguments none) _
    rw [hkey]
    by_cases hn : q = n
    · subst hn
      exact Set.mem_insert _ _
    · exact Set.mem_insert_of_mem _ (ih (by omega))

theorem bindQueue_existing {ex : Exchange} {addr : Nat} {channel : Option Nat} {queue : Queue}
    {k : Shortstr} {a : Option Longstr} {b : Binding}
    (h : ex.findBinding (normKey ex.type k) (normArguments a) = some b) :
    ex.bindQueue env addr channel queue k a =
      some ((ex.notify (ex.bindMixError channel b queue)).attach b.addr queue.addr) := by
  unfold bindQueue
  simp only [h]

/-- Any number of queues can be bound with one key that is new. -/
theorem run_bindQueues (env : Env) (type : ExchangeType) (key : Shortstr) (n : Nat)
    (hkey : normKey type key = key) (hnew : NewBindingOk env { type } key none)
    (hbitmap : (Exchange.step env { type } (.bind 4096 none ⟨0, false⟩ key none)).all fun ex =>
      decide (InBitmap ex)) :
    ∃ ex, Lib.run (Exchange.step env) { type } (bindQueues n key) = some ex ∧
      Rel env type ex (tableOf type (bindQueues n key)) ∧ InBitmap ex ∧
      (n = 0 → ex = { type }) := by
  induction n with
  | zero =>
    have hin : InBitmap ({ type } : Exchange) := by
      intro b hb
      cases hb
    exact ⟨{ type }, rfl, rel_new env type, hin, fun _ => rfl⟩
  | succ n ih =>
    obtain ⟨ex, hrun, hR, hin, hzero⟩ := ih
    have hstep : StepOk env ex (.bind 4096 none ⟨n, false⟩ key none) ∧
        ∀ ex', ex.step env (.bind 4096 none ⟨n, false⟩ key none) = some ex' → InBitmap ex' := by
      by_cases hn : n = 0
      · rw [hzero hn, hn]
        have hindexed : (ObjectIndex.new.insert 4096).isSome := by decide +kernel
        refine ⟨fun _ => ⟨⟨by simp, hindexed, rfl⟩, ?_⟩, fun ex' hs => ?_⟩
        · show NewBindingOk env { type } (normKey type key) none
          rw [hkey]
          exact hnew
        · rw [hs] at hbitmap
          exact of_decide_eq_true hbitmap
      · -- queue 0 is bound already, so the binding is found
        obtain ⟨b, hb, hbkey, hbargs, -⟩ := (hR.bound _).mp
          (mem_tableOf_bindQueues (q := 0) hkey (Nat.pos_of_ne_zero hn))
        cases hf : ex.findBinding (normKey ex.type key) (normArguments none) with
        | none =>
          rw [hR.type_eq, hkey] at hf
          exact absurd ⟨hbkey, hbargs⟩ (hR.wf.findBinding_eq_none.mp hf b hb)
        | some b' =>
          refine ⟨fun hnone => ?_, fun ex' hs => ?_⟩
          · rw [hf] at hnone
            cases hnone
          · obtain rfl := Option.some.inj ((bindQueue_existing hf).symm.trans hs)
            exact hin
    obtain ⟨ex', hs, hR'⟩ := step_simulates hR hstep.1
    refine ⟨ex', ?_, ?_, hstep.2 ex' hs, fun h => by omega⟩
    · rw [bindQueues_succ, Lib.run_append, hrun]
      show Lib.run (Exchange.step env) ex _ = some ex'
      rw [Lib.run_cons, hs]
      rfl
    · unfold tableOf at hR' ⊢
      rw [bindQueues_succ, foldl_append]
      exact hR'

theorem exists_not_mem_deliveries {queues : List QueueRef} (hn : queueSetMax < n)
    (hdel : deliveries env type (bindQueues n key) routingKey headers = some queues) :
    ∃ q < n, q ∉ queues := by
  by_contra hall
  have hsub : range n ⊆ queues := by
    intro q hq
    by_contra hnot
    exact hall ⟨q, mem_range.mp hq, hnot⟩
  have hlen := (subperm_of_subset nodup_range hsub).length_le
  have hmax := length_deliveries_le hdel
  rw [length_range] at hlen
  omega

section Regexp

/-- A queue is bound with two patterns, one of them after a message, and with one of them
taken back. -/
def regexpPatterns : List ExchangeOp :=
  [.bind 4096 none ⟨1, false⟩ plainKey none, .publish plainKey none,
    .bind 8192 none ⟨1, false⟩ starKey none, .bind 12288 none ⟨2, false⟩ starKey none,
    .unbind 1 plainKey none]

theorem mem_deliveries_regexp_patterns :
    ∃ queues, deliveries starEnv .regexp regexpPatterns plainKey none = some queues ∧
      ∀ q, q ∈ queues ↔ ∃ pattern a, (q, pattern, a) ∈ tableOf .regexp regexpPatterns ∧
        starEnv.pcreMatch pattern.chars plainKey.chars = true :=
  mem_deliveries_regexp (by decide +kernel)

/-- PCRE, where every pattern matches. -/
def anyEnv : Env where
  pcreMatch _ _ := true
  formatDecimal _ _ := []

theorem regexp_bindQueues (hn : queueSetMax < n) :
    ∃ queues, deliveries anyEnv .regexp (bindQueues n starKey) plainKey none = some queues ∧
      ∃ q, q ∉ queues ∧ (q, starKey, none) ∈ tableOf .regexp (bindQueues n starKey) ∧
        anyEnv.pcreMatch starKey.chars plainKey.chars = true := by
  obtain ⟨ex, hrun, hR, hin, -⟩ := run_bindQueues anyEnv .regexp starKey n rfl trivial
    (by decide +kernel)
  have hok : PublishOk anyEnv ex none := ⟨fun _ => hin, fun h => by rw [hR.type_eq] at h; cases h⟩
  obtain ⟨ex', hpub, -⟩ := publish_simulates hR plainKey hok
  obtain ⟨⟨ex2, queues⟩, hr, -⟩ := Option.map_eq_some_iff.mp hpub
  have hdel : deliveries anyEnv .regexp (bindQueues n starKey) plainKey none = some queues := by
    rw [deliveries, hrun, Option.bind_some, hr]
    rfl
  obtain ⟨q, hq, hnot⟩ := exists_not_mem_deliveries hn hdel
  exact ⟨queues, hdel, q, hnot, mem_tableOf_bindQueues rfl hq, rfl⟩

/-- Of 16001 queues bound with a pattern that matches, one gets no message. -/
theorem regexp_misses_queue :
    ∃ queues, deliveries anyEnv .regexp (bindQueues 16001 starKey) plainKey none = some queues ∧
      ∃ q, q ∉ queues ∧ (q, starKey, none) ∈ tableOf .regexp (bindQueues 16001 starKey) ∧
        anyEnv.pcreMatch starKey.chars plainKey.chars = true :=
  regexp_bindQueues (n := 16001) (by decide)

end Regexp

end OpenAmq
