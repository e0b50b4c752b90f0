import OpenAmq.Asl
import OpenAmq.Ipr
import OpenAmq.Lib.SortedUnique
import OpenAmq.Queue.Model

/-!
# Exchanges

The `amq_exchange` class and its bindings, with the `compile`, `publish` and `unbind`
methods of every exchange type. A binding is known by its address; `none` stands for a
failed assertion or a read of memory that does not hold what the code expects.

* `bindQueue`, `unbindQueue` — the queue operations, the same for all types
* `compile` — enters a new binding in the tables of the exchange type
* `publish` — the queues a message is passed on to
-/

namespace OpenAmq

open Function

/-! ## Data -/

/-- `AMQ_EXCHANGE_SYSTEM` to `AMQ_EXCHANGE_REGEXP` -/
inductive ExchangeType where
  | system | fanout | direct | topic | headers | regexp
deriving DecidableEq

/-- `AMQ_FEDERATION_SUBSCRIBER` to `AMQ_FEDERATION_SERVICE` -/
inductive FederationType where
  | subscriber | publisher | locator | fanout | service
deriving DecidableEq

/-- What an exchange reads of an `amq_queue`. -/
structure Queue where
  addr : QueueRef
  exclusive : Bool
deriving DecidableEq

/-- `amq_binding`. Its queue set is kept in `Exchange.queueSet`. -/
structure Binding where
  addr : Nat
  routingKey : Shortstr
  arguments : Option Longstr
  exclusive : Bool
  index : ObjectNbr
  isWildcard : Bool := false
  regexp : Str := []
  fieldCount : Nat := 0
  matchAll : Bool := false
deriving DecidableEq

/-- `amq_index`: a text that messages are matched on, with the bindings that match it. -/
structure Index where
  key : Str
  bindset : Bits
deriving DecidableEq

/-- What an exchange tells other objects. -/
inductive Notice where
  | queueBindingRegister (queue : QueueRef) (binding : Nat)
  | queueBindingCancel (queue : QueueRef) (binding : Nat)
  | federationBindingCreated (routingKey : Shortstr) (arguments : Option Longstr) (exclusive : Bool)
  | federationBindingDestroyed (routingKey : Shortstr) (arguments : Option Longstr)
  | channelError (channel : Nat) (replyCode : Nat) (replyText : String) (classId methodId : Nat)
deriving DecidableEq

/-- `amq_exchange`, with the index tables of the object that implements its type. -/
structure Exchange where
  type : ExchangeType
  federation : Option FederationType := none
  bindingList : List Binding := []
  /-- the bindings of each queue, by address -/
  queueBindings : QueueRef → List Nat := fun _ => []
  /-- `queue_set` of the binding at each address -/
  queueSet : Nat → List QueueRef := fun _ => []
  bindingHash : Shortstr → Option Nat := fun _ => none
  bindingIndex : ObjectIndex := .new
  /-- `index_array`; `index_hash` holds the same indices by key -/
  indices : List Index := []
  sent : List Notice := []

/-- The libraries behind the broker: PCRE and the `%g` format of the C library. -/
structure Env where
  pcreMatch : (pattern subject : Str) → Bool
  formatDecimal : (decimals : UInt8) → (value : Int) → Str

/-- `AMQ_QUEUE_SET_MAX` -/
def queueSetMax : Nat := 16000

/-! ## Index tables -/

/-- `amq_index_hash_search` -/
def searchIndex (indices : List Index) (key : Str) : Option Index :=
  indices.find? fun index => decide (index.key = key)

def Index.set (index : Index) (nbr : ObjectNbr) : Index :=
  { index with bindset := index.bindset.set nbr }

/-- Sets the bit of a binding in every index whose key passes `test`. -/
def scanIndices (indices : List Index) (nbr : ObjectNbr) (test : Str → Bool) : List Index :=
  indices.map fun index => if test index.key then index.set nbr else index

/-- Sets the bit of a binding in the index for `key`, which is created when there is none. -/
def crossReference (key : Str) (nbr : ObjectNbr) : List Index → List Index
  | [] => [⟨key, Bits.new.set nbr⟩]
  | index :: indices =>
    if index.key = key then index.set nbr :: indices
    else index :: crossReference key nbr indices

/-- The bits of all bindings in a list that pass `test`, for an index that is being created. -/
def scanBindings (test : Binding → Bool) (bindings : List Binding) : Bits :=
  bindings.foldl (fun bits b => if test b then bits.set b.index else bits) Bits.new

/-! ## Topic exchange -/

/-- `S_WILDCARD_SINGLE` -/
def wildcardSingle : Str := "(?: |`w*)".toList

/-- `S_WILDCARD_MULTIPLE` -/
def wildcardMultiple : Str := "( |(?:`w*(?:`.`w*)*))".toList

/-- `isprint` in the C locale -/
def isprint (c : Char) : Bool := decide (32 ≤ c.toNat ∧ c.toNat ≤ 126)

/-- What `s_topic_to_regexp` puts out for one character of the topic. -/
def topicChar (c : Char) : Str :=
  if c = '.' then "`.".toList
  else if c = '*' then wildcardSingle
  else if c = '#' then wildcardMultiple
  else if isprint c then [c]
  else []

/-- The regular expression that `s_topic_to_regexp` builds. -/
def topicToRegexp (topic : Str) : Str :=
  '^' :: topic.flatMap topicChar ++ ['$']

/-- The return value of `s_topic_to_regexp`. -/
def topicIsWildcard (topic : Str) : Bool :=
  topic.any fun c => decide (c = '*' ∨ c = '#')

/-- `ipr_regexp_match` with `ipr_regexp_new (pattern)` -/
def Env.regexpMatch (env : Env) (pattern subject : Str) : Bool :=
  env.pcreMatch (csafe pattern) subject

/-- `amq_exchange_topic_compile`; `regexp` has room for 255 characters. -/
def topicCompile (env : Env) (indices : List Index) (binding : Binding) :
    Option (List Index × Binding) :=
  let regexp := topicToRegexp binding.routingKey.chars
  let isWildcard := topicIsWildcard binding.routingKey.chars
  if regexp.length ≤ shortstrMax then
    let binding := { binding with regexp, isWildcard }
    if isWildcard then
      some (scanIndices indices binding.index (env.regexpMatch regexp), binding)
    else
      some (crossReference binding.routingKey.chars binding.index indices, binding)
  else none

/-- The key that `amq_exchange_topic_publish` looks up. -/
def topicKey (routingKey : Shortstr) : Str :=
  if routingKey.chars = [] then " ".toList else routingKey.chars

/-! ## Headers exchange -/

def fieldNameMax : Nat := 30

def fieldValueMax : Nat := 30

def matchAllKey : Str := "*".toList

/-- The index key that stands for the presence of a field. -/
def nameKey (name : Str) : Str :=
  (Shortstr.ncpy name fieldNameMax).chars

def valueKey (name value : Str) : Str :=
  (((Shortstr.ncpy name fieldNameMax).cat "=".toList).ncat value fieldValueMax).chars

/-- Fields whose name starts with `x-` or `X-` are not matched on. -/
def isOption (name : Str) : Bool :=
  match name with
  | c :: '-' :: _ => decide (c = 'X' ∨ c = 'x')
  | _ => false

/-- The option that says whether all or any of the fields have to match. -/
def isMatchOption (name : Str) : Bool :=
  decide (name = "x-match".toList ∨ name = "X-match".toList)

def matchAny : Str := "any".toList

def Env.fieldString (env : Env) (value : FieldValue) : Option Str :=
  OpenAmq.fieldString env.formatDecimal value

/-- `s_compile_binding` -/
def compileBinding (indices : List Index) (binding : Binding) (indexKey : Str) :
    List Index × Binding :=
  (crossReference indexKey binding.index indices,
    { binding with fieldCount := binding.fieldCount + 1 })

/-- One turn of the field loop of `amq_exchange_headers_compile`. -/
def headersField (env : Env) (self : List Index × Binding) (field : Field) :
    Option (List Index × Binding) :=
  if isOption field.name then
    if isMatchOption field.name then
      (env.fieldString field.value).map fun value =>
        if value = matchAny then (self.1, { self.2 with matchAll := false }) else self
    else some self
  else if field.value = .void then
    some (compileBinding self.1 self.2 (nameKey field.name))
  else
    (env.fieldString field.value).map fun value =>
      compileBinding self.1 self.2 (valueKey field.name value)

/--
`amq_exchange_headers_compile`

The constructor of the binding has decoded the same arguments, so they decode here too, and
every binding number is below the size of the bitmap: neither error path is taken.
-/
def headersCompile (env : Env) (indices : List Index) (binding : Binding) :
    Option (List Index × Binding) :=
  match fieldListNew binding.arguments with
  | .error _ => none
  | .ok fields =>
    (fields.foldlM (headersField env) (indices, { binding with matchAll := true })).map fun self =>
      if self.2.fieldCount = 0 then compileBinding self.1 self.2 matchAllKey else self

/-- The index keys that `amq_exchange_headers_publish` looks up for one header field. -/
def headerKeys (env : Env) (field : Field) : Option (List Str) :=
  (env.fieldString field.value).map fun value => [nameKey field.name, valueKey field.name value]

/-- All index keys that a message is looked up under, the automatic one last. -/
def messageKeys (env : Env) (headers : List Field) : Option (List Str) :=
  (headers.mapM (headerKeys env)).map fun keys => keys.flatten ++ [matchAllKey]

/-- `amq_hitset_collect`; a hitset is the list of the hits counted so far. -/
def hitsetCollect (indices : List Index) (hitset : List ObjectNbr) (indexKey : Str) :
    Option (List ObjectNbr) :=
  match searchIndex indices indexKey with
  | none => some hitset
  | some index => index.bindset.scan.map (hitset ++ ·)

/-- `lowest` and the number after `highest`. -/
def hitsetRange (hitset : List ObjectNbr) : Nat × Nat :=
  (hitset.foldl (fun lowest nbr => min lowest nbr.val) iprBitsSizeBits,
    hitset.foldl (fun bound nbr => max bound (nbr.val + 1)) 0)

/-- The test of `amq_exchange_headers_publish` on the hit count of a binding. -/
def hitsMatch (binding : Binding) (hitCount : Nat) : Bool :=
  if binding.matchAll then decide (hitCount = binding.fieldCount) else decide (hitCount > 0)

namespace Exchange

/-! ## Looking up bindings -/

def deref (self : Exchange) (addr : Nat) : Option Binding :=
  self.bindingList.find? fun b => decide (b.addr = addr)

/-- `binding_index->data [nbr]`, which the callers assert not to be null. -/
def fetch (self : Exchange) (nbr : ObjectNbr) : Option Binding :=
  (self.bindingIndex.data nbr.val).bind self.deref

/-- The bindings met while going through the bits of an index. -/
def fetchAll (self : Exchange) (bindset : Bits) : Option (List Binding) :=
  bindset.scan.bind fun nbrs => nbrs.mapM self.fetch

/-- The bindings that the loop of `amq_exchange_headers_publish` over the hitset selects. -/
def selectHits (self : Exchange) (hitset : List ObjectNbr) : List Nat → Option (List Binding)
  | [] => some []
  | nbr :: nbrs =>
    match self.bindingIndex.data nbr with
    | none => selectHits self hitset nbrs
    | some addr => do
      let binding ← self.deref addr
      let bindings ← selectHits self hitset nbrs
      if hitsMatch binding (hitset.countP fun n => decide (n.val = nbr)) then
        some (binding :: bindings)
      else some bindings

/-! ## Publishing -/

/-- `amq_binding_collect` -/
def collect (self : Exchange) (queueSet : List QueueRef) (binding : Binding) : List QueueRef :=
  (self.queueSet binding.addr).foldl
    (fun set queue => if set.length < queueSetMax then set ++ [queue] else set) queueSet

/-- `amq_exchange_topic_publish`: the bindings whose queues are collected, in order. -/
def topicPublish (env : Env) (self : Exchange) (routingKey : Shortstr) :
    Option (Exchange × List Binding) :=
  let key := topicKey routingKey
  match searchIndex self.indices key with
  | some index => (self.fetchAll index.bindset).map fun hits => (self, hits)
  | none =>
    -- the wildcard bindings are at the front of the list
    let bindset := scanBindings (fun b => env.regexpMatch b.regexp key)
      (self.bindingList.takeWhile (·.isWildcard))
    (self.fetchAll bindset).map fun hits =>
      ({ self with indices := self.indices ++ [⟨key, bindset⟩] }, hits)

/-- `amq_exchange_regexp_publish` -/
def regexpPublish (env : Env) (self : Exchange) (routingKey : Shortstr) :
    Option (Exchange × List Binding) :=
  match searchIndex self.indices routingKey.chars with
  | some index => (self.fetchAll index.bindset).map fun hits => (self, hits)
  | none =>
    let bindset := scanBindings
      (fun b => env.pcreMatch b.routingKey.chars routingKey.chars) self.bindingList
    (self.fetchAll bindset).map fun hits =>
      ({ self with indices := self.indices ++ [⟨routingKey.chars, bindset⟩] }, hits)

/-- `amq_exchange_headers_publish`; a table that is rejected matches nothing. -/
def headersPublish (env : Env) (self : Exchange) (headers : Option Longstr) :
    Option (Exchange × List Binding) :=
  match fieldListNew headers with
  | .error .rejected => some (self, [])
  | .error .fault => none
  | .ok fields => do
    let keys ← messageKeys env fields
    let hitset ← keys.foldlM (hitsetCollect self.indices) []
    let range := hitsetRange hitset
    let hits ← self.selectHits hitset (List.range' range.1 (range.2 - range.1))
    some (self, hits)

/-- `amq_exchange_fanout_publish`: the first binding is taken for the only one. -/
def fanoutPublish (self : Exchange) : Option (Exchange × List Binding) :=
  some (self, self.bindingList.take 1)

/-- `amq_exchange_direct_publish` -/
def directPublish (self : Exchange) (routingKey : Shortstr) : Option (Exchange × List Binding) :=
  match self.bindingHash routingKey with
  | none => some (self, [])
  | some addr => (self.deref addr).map fun binding => (self, [binding])

/--
The `publish` method of each exchange type: the bindings whose queues it collects.

A system exchange hands the message to the console and to no queue.
-/
def typePublish (env : Env) (self : Exchange) (routingKey : Shortstr) (headers : Option Longstr) :
    Option (Exchange × List Binding) :=
  match self.type with
  | .system => some (self, [])
  | .fanout => self.fanoutPublish
  | .direct => self.directPublish routingKey
  | .topic => self.topicPublish env routingKey
  | .headers => self.headersPublish env headers
  | .regexp => self.regexpPublish env routingKey

/-- The queues of some bindings, sorted by address, every queue once. -/
def queuesOf (self : Exchange) (bindings : List Binding) : List QueueRef :=
  Lib.sortUnique (bindings.foldl self.collect [])

/-- The `publish` method of an exchange, with the queues that the message is passed on to. -/
def publish (env : Env) (self : Exchange) (routingKey : Shortstr) (headers : Option Longstr) :
    Option (Exchange × List QueueRef) :=
  (self.typePublish env routingKey headers).map fun r => (r.1, r.1.queuesOf r.2)

/-! ## Binding -/

/-- The `compile` method of an exchange. -/
def compile (env : Env) (self : Exchange) (binding : Binding) : Option (List Index × Binding) :=
  match self.type with
  | .system | .fanout | .direct => some (self.indices, binding)
  | .topic => topicCompile env self.indices binding
  | .headers => headersCompile env self.indices binding
  | .regexp =>
    some (scanIndices self.indices binding.index (env.pcreMatch binding.routingKey.chars), binding)

/-- Empty arguments are stored as null. -/
def normArguments (arguments : Option Longstr) : Option Longstr :=
  if arguments = some [] then none else arguments

/-- All fanout bindings are forced to a single routing key. -/
def normKey (type : ExchangeType) (routingKey : Shortstr) : Shortstr :=
  if type = .fanout then .empty else routingKey

/-- The existing binding with a given routing key and given arguments. -/
def findBinding (self : Exchange) (routingKey : Shortstr) (arguments : Option Longstr) :
    Option Binding :=
  if (self.bindingHash routingKey).isSome then
    self.bindingList.find? fun b => decide (b.routingKey = routingKey ∧ b.arguments = arguments)
  else none

def notify (self : Exchange) (notices : List Notice) : Exchange :=
  { self with sent := self.sent ++ notices }

/-- Puts 'wildcard' bindings at the front of the list and the others at its end. -/
def insertBinding (binding : Binding) (bindings : List Binding) : List Binding :=
  if binding.isWildcard then binding :: bindings else bindings ++ [binding]

/-- `amq_binding_new` at the address `addr`, and the first half of `amq_exchange_bind_queue`. -/
def newBinding (env : Env) (self : Exchange) (addr : Nat) (routingKey : Shortstr)
    (arguments : Option Longstr) (exclusive : Bool) : Option Exchange := do
  let (bindingIndex, index) ← self.bindingIndex.insert addr
  match fieldListNew arguments with
  | .error _ => none
  | .ok _ =>
    let (indices, binding) ← self.compile env { addr, routingKey, arguments, exclusive, index }
    some { self with
      bindingIndex
      indices
      bindingList := insertBinding binding self.bindingList
      queueSet := update self.queueSet addr []
      bindingHash :=
        if (self.bindingHash routingKey).isSome then self.bindingHash
        else update self.bindingHash routingKey (some addr)
      sent := self.sent ++
        if self.federation.isSome then
          [.federationBindingCreated routingKey arguments exclusive]
        else [] }

/-- The second half of `amq_exchange_bind_queue`: the queue and the binding are linked once. -/
def attach (self : Exchange) (addr : Nat) (queue : QueueRef) : Exchange :=
  { self with
    queueBindings :=
      if addr ∈ self.queueBindings queue then self.queueBindings
      else update self.queueBindings queue (self.queueBindings queue ++ [addr])
    queueSet :=
      if queue ∈ self.queueSet addr then self.queueSet
      else update self.queueSet addr (self.queueSet addr ++ [queue])
    sent := self.sent ++ [.queueBindingRegister queue addr] }

/-- A service federation does not mix exclusive and other queues on a binding. -/
def bindMixError (self : Exchange) (channel : Option Nat) (binding : Binding) (queue : Queue) :
    List Notice :=
  match channel with
  | none => []
  | some channel =>
    if self.federation = some .service ∧ binding.exclusive ≠ queue.exclusive then
      [.channelError channel 530 "Invalid bind mix for service federation" 50 20]
    else []

/--
`amq_exchange_bind_queue`

`addr` is the address that the allocator gives to a new binding.
-/
def bindQueue (env : Env) (self : Exchange) (addr : Nat) (channel : Option Nat) (queue : Queue)
    (routingKey : Shortstr) (arguments : Option Longstr) : Option Exchange :=
  let arguments := normArguments arguments
  let routingKey := normKey self.type routingKey
  match self.findBinding routingKey arguments with
  | some binding =>
    some ((self.notify (self.bindMixError channel binding queue)).attach binding.addr queue.addr)
  | none =>
    (self.newBinding env addr routingKey arguments queue.exclusive).map
      fun ex => ex.attach addr queue.addr

/-! ## Unbinding -/

/-- The first binding of a queue with the given routing key and arguments. -/
def searchBindings (self : Exchange) (routingKey : Shortstr) (arguments : Option Longstr) :
    List Nat → Option (Option Binding)
  | [] => some none
  | addr :: addrs => do
    let binding ← self.deref addr
    if binding.routingKey = routingKey ∧ binding.arguments = arguments then some (some binding)
    else searchBindings self routingKey arguments addrs

/-- `amq_exchange_direct_unbind`, with the destructor of the binding. -/
def directUnbind (self : Exchange) (binding : Binding) : Exchange :=
  { self with
    bindingHash := update self.bindingHash binding.routingKey none
    bindingList := self.bindingList.filter fun b => decide (b.addr ≠ binding.addr)
    bindingIndex := self.bindingIndex.delete binding.index
    queueSet := update self.queueSet binding.addr []
    sent := self.sent ++
      if self.federation.isSome then
        [.federationBindingDestroyed binding.routingKey binding.arguments]
      else [] }

/-- The `unbind` method of an exchange, called for a binding without queues. -/
def unbind (self : Exchange) (binding : Binding) : Exchange :=
  match self.type with
  | .direct => self.directUnbind binding
  | _ => self

def detach (self : Exchange) (binding : Binding) (queue : QueueRef) : Exchange :=
  let queueSet := (self.queueSet binding.addr).erase queue
  let ex := { self with
    queueSet := update self.queueSet binding.addr queueSet
    sent := self.sent ++ [Notice.queueBindingCancel queue binding.addr] }
  let ex := if queueSet = [] then ex.unbind binding else ex
  { ex with
    queueBindings := update ex.queueBindings queue ((ex.queueBindings queue).erase binding.addr) }

/-- `amq_exchange_unbind_queue`, which looks for the routing key as it is given. -/
def unbindQueue (self : Exchange) (queue : QueueRef) (routingKey : Shortstr)
    (arguments : Option Longstr) : Option Exchange :=
  (self.searchBindings routingKey (normArguments arguments) (self.queueBindings queue)).map
    fun found =>
      match found with
      | none => self
      | some binding => self.detach binding queue

/--
Takes a binding off the list `listed`, and the queue out of its queue set.

The list is found by the name of the queue, so it may be that of another queue.
-/
def popBinding (self : Exchange) (binding : Binding) (listed queue : QueueRef) : Exchange :=
  let queueSet := (self.queueSet binding.addr).erase queue
  let ex := { self with queueSet := update self.queueSet binding.addr queueSet }
  let ex := if queueSet = [] then ex.unbind binding else ex
  { ex with
    queueBindings := update ex.queueBindings listed ((ex.queueBindings listed).erase binding.addr) }

/-- `amq_exchange_broker_unbind_queue` -/
def brokerUnbindQueue (self : Exchange) (listed queue : QueueRef) : Exchange :=
  (self.queueBindings listed).foldl
    (fun self addr => (self.deref addr).elim self (self.popBinding · listed queue)) self

end Exchange

/-! ## Operations -/

/-- The requests that an exchange works off one after the other. -/
inductive ExchangeOp where
  | bind (addr : Nat) (channel : Option Nat) (queue : Queue) (routingKey : Shortstr)
      (arguments : Option Longstr)
  | unbind (queue : QueueRef) (routingKey : Shortstr) (arguments : Option Longstr)
  | publish (routingKey : Shortstr) (headers : Option Longstr)
deriving DecidableEq

/-- The exchange after one request. -/
def Exchange.step (env : Env) (self : Exchange) : ExchangeOp → Option Exchange
  | .bind addr channel queue routingKey arguments =>
    self.bindQueue env addr channel queue routingKey arguments
  | .unbind queue routingKey arguments => self.unbindQueue queue routingKey arguments
  | .publish routingKey headers => (self.publish env routingKey headers).map Prod.fst

end OpenAmq
