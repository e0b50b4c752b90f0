import Mathlib.Logic.Function.Basic
import OpenAmq.Content.Model
import OpenAmq.Ipr.Config
import OpenAmq.Ipr.Mime

/-!
# RestMS resources

`zyre_restms` holds a tree of resources in a table that is keyed by their paths. Resources and
the objects of their classes are numbered in the order in which they are created, and one that
has been destroyed is no more in the heap; using it is a fault.

* `Server` — the objects behind the resources: feeds, pipes, joins, messages and contents
* `Resource`, `Tree` — `zyre_resource` and the state of `zyre_restms`
* `Tree.create`, `Tree.destroy`, `Tree.detachFromParent` — the life of a resource
* `etag`, `modified`, `unmodified` — the predicates for conditional requests
-/

namespace OpenAmq.Zyre

open Function

/-- What a request can run into. -/
inductive Fault where
  /-- A resource is used that has been destroyed. -/
  | destroyed
  /-- A null pointer is dereferenced, the object of one class taken for one of another, or memory
  read or written that is not part of an object. -/
  | pointer
  /-- An assertion fails. -/
  | assertion
deriving DecidableEq

/-- A `zyre_resource_t *`. -/
abbrev ResourceId := Nat

/-- The HTTP context of a request. Requests are numbered as they come in. -/
abbrev ContextId := Nat

/-- `icl_shortstr_cpy`: what does not fit is cut off. -/
def cut (s : Str) : Str := s.take shortstrMax

/-- `icl_shortstr_fmt`, which keeps one character less. -/
def fmtCut (s : Str) : Str := s.take (shortstrMax - 1)

/-! ## The objects behind the resources -/

/-- A list of joins, each with its key: the argument and the object of a looseref. -/
abbrev JoinList := List (Str × ResourceId)

/-- `zyre_feed` -/
structure Feed where
  dynamic : Bool
  type : Str
  title : Str
  license : Str
  joins : JoinList

/-- `zyre_pipe`; there is no asynclet before the pipe is configured. -/
structure Pipe where
  type : Str
  title : Str
  joins : JoinList
  asynclet : Option ResourceId

/-- `zyre_join` -/
structure Join where
  dynamic : Bool
  address : Str
  pipe : ResourceId
  feed : ResourceId

/-- A context that waits for a message, with what the reply takes from its request. -/
structure Waiting where
  context : ContextId
  rootUri : Str
  accept : Str

/-- `zyre_message` -/
structure Message where
  address : Str
  replyTo : Str
  feed : Str
  correlationId : Str
  expiration : Str
  messageId : Str
  timestamp : Str
  type : Str
  userId : Str
  appId : Str
  senderId : Str
  priority : Nat
  deliveryMode : Nat
  /-- Null when the field table has been rejected. -/
  headers : Option (List Field)
  pending : Bool
  context : Option Waiting

/-- `zyre_message_new`: no content yet, and no list of headers -/
def Message.new : Message where
  address := []
  replyTo := []
  feed := []
  correlationId := []
  expiration := []
  messageId := []
  timestamp := []
  type := []
  userId := []
  appId := []
  senderId := []
  priority := 0
  deliveryMode := 0
  headers := none
  pending := true
  context := none

/-- `zyre_content` -/
structure Content where
  type : Str
  length : Nat
  bucket : Option (List UInt8)

/-- The `server_object` of a resource, which also decides its type. -/
inductive Server where
  | domain
  | feed (feed : Feed)
  | pipe (pipe : Pipe)
  | join (join : Join)
  | message (message : Message)
  | content (content : Content)

namespace Server

def joins : Server → JoinList
  | feed f => f.joins
  | pipe p => p.joins
  | _ => []

def setJoins (l : JoinList) : Server → Server
  | feed f => feed { f with joins := l }
  | pipe p => pipe { p with joins := l }
  | server => server

end Server

/-! ## Resources -/

/-- `zyre_resource` -/
structure Resource where
  parent : Option ResourceId
  name : Str
  path : Str
  /-- Not discoverable -/
  isPrivate : Bool
  children : List ResourceId
  modified : Nat
  server : Server

/-- The running execution of the program, and what the code leaves to other libraries. -/
structure Env where
  /-- `s_instance` -/
  execution : Nat
  /-- The random part of the name that is generated as the n-th, by `ipr_str_random`. -/
  letters : Nat → Str
  length_letters : ∀ n, (letters n).length = 8
  letters_plain : ∀ n, '%' ∉ letters n
  /-- `ipr_time_mime` -/
  mime : Nat → Str
  /-- What `apr_vsnprintf` prints of a format when there are no arguments. `none` when the format
  asks for one. -/
  format : Str → Option Str
  format_plain : ∀ s, '%' ∉ s → format s = some s
  /-- `%g` of a decimal field -/
  formatDecimal : UInt8 → Int → Str
  /-- What a new block holds -/
  memory : Nat → UInt8
  /-- What the variables of `ipr_time_mime_decode` hold -/
  locals : Mime.Locals

/-- The state of `zyre_restms` and of the resources. -/
structure Tree where
  heap : ResourceId → Option Resource
  next : ResourceId
  /-- `s_current` -/
  current : Nat
  /-- `resources`, the table of resource URIs -/
  table : Str → Option ResourceId
  /-- The items and the slots of the table -/
  nbrItems : Nat
  maxItems : Nat

def isAlnum (c : Char) : Bool := c.isAlphanum

def cleanName (name : Str) : Str :=
  (cut name).map fun c => if !isAlnum c && c != '.' then '-' else c

def namedPath (type name : Str) : Str :=
  fmtCut ("/".toList ++ type ++ "/".toList ++ cleanName name)

/-- Else generate a new unique hash as name. It is much too short to be cut off. -/
def hashName (env : Env) (current : Nat) : Str :=
  "ZYRE-".toList ++ env.letters current ++ "-".toList ++ Nat.toDigits 10 env.execution ++
    Nat.toDigits 10 current

def resourcePath (name : Str) : Str := "/resource/".toList ++ name

/-- The key of a join: address@feed in the pipe, address@pipe in the feed -/
def joinKey (address path : Str) : Str := fmtCut (address ++ "@".toList ++ path)

namespace Tree

/-- The loop of `ipr_hash_table` when its load factor was exceeded. -/
def grow (self : Tree) : Nat :=
  if self.nbrItems ≥ self.maxItems * 75 / 100 then self.maxItems * 200 / 100 else self.maxItems

def get (self : Tree) (id : ResourceId) : Except Fault Resource :=
  match self.heap id with
  | some r => .ok r
  | none => .error .destroyed

/-- Exchanges a resource of the heap. -/
def put (self : Tree) (id : ResourceId) (resource : Resource) : Tree :=
  { self with heap := update self.heap id (some resource) }

def setServer (self : Tree) (id : ResourceId) (server : Server) : Except Fault Tree := do
  let r ← self.get id
  return self.put id { r with server := server }

/-- `zyre_resource_attach_to_parent` -/
def attachToParent (self : Tree) (id parent : ResourceId) : Except Fault Tree := do
  let r ← self.get parent
  return self.put parent { r with children := r.children ++ [id] }

/-- `zyre_resource_new` for a path that is not in the table, with the object of its class. -/
def enter (self : Tree) (parent : ResourceId) (name path : Str) (isPrivate : Bool) (now : Nat)
    (server : Server) : Except Fault (Tree × ResourceId) := do
  let tree ← self.attachToParent self.next parent
  return ({ tree with
    heap := update tree.heap self.next (some ⟨some parent, name, path, isPrivate, [], now, server⟩)
    next := self.next + 1
    table := update self.table path (some self.next)
    nbrItems := self.nbrItems + 1
    maxItems := self.grow }, self.next)

/--
`zyre_resource_new` without a name. The callers do not expect that there is a resource of the
path already: then the new one has no list of children and no parent.
-/
def create (env : Env) (self : Tree) (parent : ResourceId) (isPrivate : Bool) (now : Nat)
    (server : Server) : Except Fault (Tree × ResourceId) :=
  let current := self.current + 1
  let name := hashName env current
  match self.table (resourcePath name) with
  | none =>
    { self with current := current }.enter parent name (resourcePath name) isPrivate now server
  | some _ => .error .pointer

/-- `zyre_resource_destroy` -/
def destroy (self : Tree) (id : ResourceId) : Except Fault Tree := do
  let r ← self.get id
  return { self with
    heap := update self.heap id none
    table := update self.table r.path none
    nbrItems := self.nbrItems - 1 }

/--
`zyre_resource_detach_from_parent`

The reference in the list of the parent has been destroyed with it if the parent has.
-/
def detachFromParent (self : Tree) (id : ResourceId) : Except Fault Tree := do
  let r ← self.get id
  match r.parent with
  | none => return self
  | some parent =>
    let p ← self.get parent
    return self.put parent { p with children := p.children.erase id }

/-- `ipr_hash_lookup` -/
def lookup (self : Tree) (path : Str) : Option ResourceId := self.table path

/-- `ipr_str_defix` -/
def defix (string pre : Str) : Option Str :=
  if pre.isPrefixOf string then some (string.drop pre.length) else none

/-- `zyre_resource_parse_uri`, with `RESTMS_ROOT` -/
def parseUri (self : Tree) (rootUri uri : Str) : Option ResourceId := do
  let path ← defix uri rootUri
  let path ← defix path "restms".toList
  self.lookup path

def setJoins (self : Tree) (id : ResourceId) (f : JoinList → JoinList) : Except Fault Tree := do
  let r ← self.get id
  return self.put id { r with server := r.server.setJoins (f r.server.joins) }

/-- `attach` of a pipe or a feed -/
def attachJoin (self : Tree) (owner join : ResourceId) (key : Str) : Except Fault Tree :=
  self.setJoins owner fun l => l ++ [(key, join)]

/-- `detach` of a pipe or a feed: takes out the first entry of the key. -/
def detachJoin (self : Tree) (owner : ResourceId) (key : Str) : Except Fault Tree :=
  self.setJoins owner fun l => l.eraseP fun e => e.1 == key

/-! ## Conditional requests -/

/-- Torek hashing function, in an unsigned integer of 32 bits -/
def keyHash (key : Str) (hashSize : Nat) : Nat :=
  key.foldl (fun hash c => (hash * 33 + c.toNat) % 0x100000000) 0 % hashSize

/-- `table_index` of the hash of a resource -/
def tableIndex (self : Tree) (r : Resource) : Nat := keyHash r.path self.maxItems

end Tree

/-- Encode content type into ETag -/
def mimeType (type : Str) : Str :=
  if "application/restms+json".toList.isPrefixOf type then "1".toList
  else if "application/restms+xml".toList.isPrefixOf type then "2".toList
  else "3".toList

/-- `zyre_resource_etag`, for a resource that is at `index` in the table -/
def etag (r : Resource) (index : Nat) (type : Str) : Str :=
  Nat.toDigits 16 r.modified ++ "-".toList ++ Nat.toDigits 16 index ++ "-".toList ++ mimeType type

/-- The headers of a request that its handling looks at. Times are in microseconds. -/
structure Conditions where
  accept : Str
  ifMatch : Str
  ifNoneMatch : Str
  /-- `ipr_time_mime_decode`, 0 for a header that is missing or is no time. A header that goes over
  the blocks of that method (`Mime.Fits`) does not come this far. -/
  ifModifiedSince : Nat
  ifUnmodifiedSince : Nat

/-- `zyre_resource_modified` -/
def modified (r : Resource) (index : Nat) (request : Conditions) : Bool :=
  let ifModified := request.ifModifiedSince / 1000000
  !(etag r index request.accept == request.ifNoneMatch ||
    (ifModified != 0 && r.modified / 1000000 == ifModified))

/-- `zyre_resource_unmodified` -/
def unmodified (r : Resource) (index : Nat) (request : Conditions) : Bool :=
  let ifUnmodified := request.ifUnmodifiedSince / 1000000
  etag r index request.accept == request.ifMatch ||
    (ifUnmodified != 0 && r.modified / 1000000 == ifUnmodified)

end OpenAmq.Zyre
