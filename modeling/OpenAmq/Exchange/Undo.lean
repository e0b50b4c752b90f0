import OpenAmq.Exchange.Delivery

/-!
# Unbinding undoes binding

Binding a queue with a new route and unbinding it again leaves the table of routes as it
was, so later messages go where they would have gone. What may differ between the two runs
is the memory that the allocator hands out.
-/

namespace OpenAmq

open Exchange List

/-- The request as the client made it, without the address that the allocator chose. -/
def ExchangeOp.request : ExchangeOp → ExchangeOp
  | .bind _ channel queue routingKey arguments => .bind 0 channel queue routingKey arguments
  | op => op

theorem tableStep_request (type : ExchangeType) (table : Set Route) (op : ExchangeOp) :
    tableStep type table op.request = tableStep type table op := by
  cases op <;> rfl

variable {type : ExchangeType}

theorem foldl_tableStep_eq {ops ops' : List ExchangeOp}
    (h : ops.map (·.request) = ops'.map (·.request)) (table : Set Route) :
    ops.foldl (tableStep type) table = ops'.foldl (tableStep type) table := by
  have hmap : ∀ os : List ExchangeOp,
      (os.map (·.request)).foldl (tableStep type) table = os.foldl (tableStep type) table := by
    intro os
    rw [foldl_map]
    congr 1
    funext t op
    exact tableStep_request type t op
  rw [← hmap ops, ← hmap ops', h]

theorem tableStep_bind_unbind {table : Set Route} {queue : Queue}
    {k : Shortstr} {a : Option Longstr} (addr : Nat) (channel : Option Nat)
    (h : (queue.addr, normKey type k, normArguments a) ∉ table) :
    tableStep type (tableStep type table (.bind addr channel queue k a))
      (.unbind queue.addr k a) = table := by
  simp only [tableStep]
  rw [Set.insert_sdiff_self_of_notMem h]

/--
Binding a new route and unbinding it again makes no difference to later deliveries, on
exchanges of every type.

The two runs are `ops` followed by `later`, and the same requests with the pair in between.
Both have to meet the condition that is stated for each exchange type in `NewBindingOk` and
`StepOk`: the fanout exchange keeps to one set of arguments and is unbound with an empty
routing key.
-/
theorem bind_unbind_deliveries {env : Env} {type : ExchangeType}
    {ops later later' : List ExchangeOp} {addr : Nat} {channel : Option Nat} {queue : Queue}
    {k : Shortstr} {a : Option Longstr} {routingKey : Shortstr} {headers : Option Longstr}
    (hnew : (queue.addr, normKey type k, normArguments a) ∉ tableOf type ops)
    (hlater : later'.map (·.request) = later.map (·.request))
    (hwithout : DeliveryOk env type (ops ++ later) routingKey headers)
    (hwith : DeliveryOk env type
      (ops ++ [.bind addr channel queue k a, .unbind queue.addr k a] ++ later')
      routingKey headers) :
    ∃ queues queues', deliveries env type (ops ++ later) routingKey headers = some queues ∧
      deliveries env type (ops ++ [.bind addr channel queue k a, .unbind queue.addr k a] ++ later')
        routingKey headers = some queues' ∧
      ∀ q, q ∈ queues ↔ q ∈ queues' := by
  obtain ⟨queues, hdel, hmem⟩ := mem_deliveries hwithout
  obtain ⟨queues', hdel', hmem'⟩ := mem_deliveries hwith
  refine ⟨queues, queues', hdel, hdel', fun q => ?_⟩
  have htable : tableOf type
      (ops ++ [.bind addr channel queue k a, .unbind queue.addr k a] ++ later') =
        tableOf type (ops ++ later) := by
    unfold tableOf at hnew ⊢
    simp only [foldl_append, foldl_cons, foldl_nil]
    rw [tableStep_bind_unbind addr channel hnew]
    exact foldl_tableStep_eq hlater _
  rw [hmem, hmem', htable]

section Fanout

def fanoutBound : List ExchangeOp := [.bind 4096 none ⟨1, false⟩ .empty none]

theorem bind_unbind_deliveries_fanoutBound : ∃ queues queues',
      deliveries starEnv .fanout (fanoutBound ++ [.publish plainKey none]) plainKey none =
        some queues ∧
      deliveries starEnv .fanout
        (fanoutBound ++ [.bind 8192 none ⟨2, false⟩ .empty none, .unbind 2 .empty none] ++
          [.publish plainKey none]) plainKey none = some queues' ∧
      ∀ q, q ∈ queues ↔ q ∈ queues' := by
  refine bind_unbind_deliveries ?_ rfl (by decide +kernel) (by decide +kernel)
  intro hmem
  have he : ((2 : QueueRef), Shortstr.empty, (none : Option Longstr)) ∈
      insert ((1 : QueueRef), Shortstr.empty, (none : Option Longstr)) (∅ : Set Route) := hmem
  rcases he with he | he
  · exact absurd (Prod.mk.inj he).1 (by decide)
  · exact he

/-- With a routing key that is not empty, a fanout binding is made but not found again. -/
theorem fanout_unbind_keeps_binding : (1, normKey .fanout plainKey, none) ∉ tableOf .fanout [] ∧
      deliveries starEnv .fanout [] plainKey none = some [] ∧
      deliveries starEnv .fanout
        [.bind 4096 none ⟨1, false⟩ plainKey none, .unbind 1 plainKey none] plainKey none =
          some [1] :=
  ⟨Set.notMem_empty _, by decide +kernel, by decide +kernel⟩

end Fanout

end OpenAmq
