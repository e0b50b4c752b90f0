import OpenAmq.Content.Body
import OpenAmq.Zyre.Published

/-!
# RestMS requests

The requests that HTTP clients make on resources and the messages that the backend delivers, as
`zyre_restms` and the classes of the resources handle them, or the fault they run into.

* `Work` — the state while a request is being handled
* `Work.get`, `Work.putRequest`, `Work.deleteRequest`, `Work.post` — the requests
* `arrived` — a delivery
* `step` — all of it, from `State.new` on
-/

namespace OpenAmq.Zyre

def restmsRoot : Str := "restms".toList

/-! ## What comes in and what goes out -/

/-- The method of an HTTP request. -/
inductive Method where
  | get | put | post | delete | head | move | copy
deriving DecidableEq

/-- A bucket with the content of a request, and the tree `ipr_xml_load_bucket` makes of it. -/
structure Bucket where
  octets : List UInt8
  tree : Option Xml

/-- `http_request`, as the driver context passes it. -/
structure Request where
  method : Method
  pathinfo : Str
  rootUri : Str
  contentType : Str
  contentLength : Nat
  /-- Null when the content does not fit into a bucket. -/
  content : Option Bucket
  conditions : Conditions
  /-- `context->failed`, as the requests before it on the same connection have left it. -/
  failed : Bool
  now : Nat

/-- A `basic_deliver` with its content. -/
structure Delivery where
  consumerTag : Str
  exchange : Str
  routingKey : Str
  contentType : Str
  contentEncoding : Str
  /-- The field table, null when there is none -/
  headers : Option Longstr
  deliveryMode : Nat
  priority : Nat
  correlationId : Str
  replyTo : Str
  expiration : Str
  messageId : Str
  timestamp : Nat
  type : Str
  userId : Str
  appId : Str
  senderId : Str
  body : Body
  now : Nat

/-- The body of an HTTP response. -/
inductive Answer where
  | nothing
  | document (document : Xml) (etag : Str)
  | content (octets : List UInt8) (type : Str)

/-- A reply to the context of a request. -/
structure Reply where
  context : ContextId
  code : Nat
  answer : Answer

/-- The requests to `zyre_backend`, in which a null or default feed name is empty. -/
inductive BackendRequest where
  | pipeCreate (type name : Str)
  | pipeDelete (name : Str)
  | feedCreate (type name : Str)
  | feedDelete (name : Str)
  | joinCreate (pipe feed address : Str)
  | joinDelete (pipe feed address : Str)
  | addressPost (address feed : Str)
deriving DecidableEq

/-- `http_driver_context`, with the response that it is going to send. -/
structure Context where
  id : ContextId
  failed : Bool
  replied : Bool
  code : Nat
  answer : Answer

/-- The state while a request or a delivery is being handled. -/
structure Work where
  tree : Tree
  context : Context
  replies : List Reply
  requests : List BackendRequest

namespace Work

/-! ## Replies -/

/-- `http_driver_context_reply` -/
def reply (self : Work) : Except Fault Work :=
  if self.context.replied then .error .assertion
  else .ok { self with
    context := { self.context with replied := true }
    replies := self.replies ++ [⟨self.context.id, self.context.code, self.context.answer⟩] }

/-- `http_driver_context_reply_error` -/
def replyError (self : Work) (code : Nat) : Except Fault Work :=
  { self with context := { self.context with code := code, failed := true } }.reply

/-- `http_driver_context_reply_success` -/
def replySuccess (self : Work) (code : Nat) : Except Fault Work :=
  { self with context := { self.context with code := code } }.reply

/-- `http_driver_context_reply_void` -/
def replyVoid (self : Work) : Except Fault Work :=
  if self.context.replied then .error .assertion
  else .ok { self with context := { self.context with replied := true } }

def send (self : Work) (request : BackendRequest) : Work :=
  { self with requests := self.requests ++ [request] }

/-- The children of the document root, or the code of the error that is reported. -/
def parsed (request : Request) (item : Option Str) : Except Fault (Except Nat (List Xml)) :=
  if request.contentLength ≠ 0 then
    match request.content with
    | none => .ok (.error 413)
    | some bucket =>
      match bucket.tree.map Xml.children with
      | none => .ok (.error 400)
      | some [] => .ok (.error 400)
      -- a text has no name to compare
      | some (.text _ :: _) => .error .pointer
      | some (.item root _ items :: _) =>
        if root ≠ restmsRoot then .ok (.error 400)
        else
          match item, items with
          | none, _ => .ok (.ok items)
          | some _, [] => .ok (.error 400)
          | some _, .text _ :: _ => .error .pointer
          | some item, .item name _ _ :: _ =>
            if name ≠ item then .ok (.error 400) else .ok (.ok items)
  else .ok (.ok (item.map fun name => Xml.item name .empty []).toList)

/-- `http_driver_context_xml_parse`: the children of the document root when it returns 0. -/
def xmlParse (self : Work) (request : Request) (item : Option Str) :
    Except Fault (Work × Option (List Xml)) := do
  match ← parsed request item with
  | .error code => return (← self.replyError code, none)
  | .ok items => return (self, if self.context.failed then none else some items)

/-- `zyre_restms_parse_document` -/
def parseDocument (self : Work) (request : Request) (required : Option Str) :
    Except Fault (Work × Option (List Xml)) := do
  if request.contentType = "application/restms+xml".toList then self.xmlParse request required
  else return (← self.replyError 400, none)

/-! ## GET -/

/-- The decimal digits of a number. -/
def decimal (n : Nat) : Str := Nat.toDigits 10 n

/-- What `ipr_tree_leaf` is given: a value that is itself the format, or one for which there is a
format. -/
inductive Leaf where
  | format (value : Str)
  | text (value : Str)

/-- The value of the leaf. `apr_vsnprintf` keeps to the size and returns less, so that the string is
never made larger. -/
def Leaf.print (env : Env) : Leaf → Except Fault Str
  | format value =>
    match env.format value with
    | some value => .ok (vsnprintf 1024 value)
    | none => .error .pointer
  | text value => .ok (vsnprintf 1024 value)

/-- The leaves of an element, where the option is there -/
def leaves (env : Env) (attrs : List (String × Option Leaf)) : Except Fault Attrs :=
  attrs.foldlM (fun tree attr =>
    match attr.2 with
    | none => return tree
    | some leaf => return tree.set attr.1.toList (← leaf.print env)) .empty

/-- A leaf that is left out when its value is empty. -/
def filled (value : Str) : Option Leaf := (present value).map .format

def href (rootUri path : Str) : Leaf := .text (rootUri ++ restmsRoot ++ path)

/-- `report` of a resource: the element and its leaves, with the path of the feed of a join -/
def reportLeaves (rootUri feedPath : Str) (r : Resource) :
    Option (String × List (String × Option Leaf)) :=
  let uri := some (href rootUri r.path)
  match r.server with
  | .domain => none
  | .feed feed => some ("feed", [("type", some (.format feed.type)),
      ("name", some (.format r.name)), ("title", filled feed.title),
      ("license", filled feed.license), ("href", uri)])
  | .pipe pipe => some ("pipe", [("type", some (.format pipe.type)),
      ("name", some (.format r.name)), ("title", filled pipe.title), ("href", uri)])
  | .join join => some ("join", [("address", some (.format join.address)),
      ("feed", some (href rootUri feedPath)), ("href", uri)])
  | .message message => some ("message", [("href", uri),
      ("async", if message.pending then some (.text "1".toList) else none),
      ("message_id", filled message.messageId)])
  | .content content => some ("content", [("type", filled content.type),
      ("length", some (.text (decimal content.length))), ("href", uri)])

/-- The path that the document of a join shows -/
def feedPath (tree : Tree) : Server → Except Fault Str
  | .join join => do
    let feed ← tree.get join.feed
    return feed.path
  | _ => .ok []

/-- `report`, nothing for a private one -/
def report (env : Env) (tree : Tree) (rootUri : Str) (id : ResourceId) :
    Except Fault (Option Xml) := do
  let r ← tree.get id
  if r.isPrivate then return none
  else
    let path ← feedPath tree r.server
    match reportLeaves rootUri path r with
    | none => return none
    | some (name, attrs) => return some (.item name.toList (← leaves env attrs) [])

def reportAll (env : Env) (tree : Tree) (rootUri : Str) :
    (children : List ResourceId) → Except Fault (List Xml)
  | [] => return []
  | id :: ids => do
    let item ← report env tree rootUri id
    let items ← reportAll env tree rootUri ids
    return item.toList ++ items

/-- `get` of a resource that has a document: the element and its leaves -/
def documentLeaves (rootUri feedPath : Str) (r : Resource) :
    Option (String × List (String × Option Leaf)) :=
  match r.server with
  | .domain => some ("domain", [("name", some (.format r.name)),
      ("title", some (.format "Default domain".toList))])
  | .feed feed => some ("feed", [("type", some (.format feed.type)),
      ("name", some (.format r.name)), ("title", filled feed.title),
      ("license", filled feed.license)])
  | .pipe pipe => some ("pipe", [("type", some (.format pipe.type)),
      ("name", some (.format r.name)), ("title", filled pipe.title)])
  | .join join => some ("join", [("address", some (.format join.address)),
      ("feed", some (href rootUri feedPath))])
  | .message message => some ("message", [("feed", some (.format message.feed)),
      ("address", filled message.address), ("reply_to", filled message.replyTo),
      ("delivery_mode", if message.deliveryMode = 0 then none
        else some (.text (decimal message.deliveryMode))),
      ("priority", if message.priority = 0 then none else some (.text (decimal message.priority))),
      ("correlation_id", filled message.correlationId), ("expiration", filled message.expiration),
      ("message_id", filled message.messageId), ("type", filled message.type),
      ("user_id", filled message.userId), ("app_id", filled message.appId),
      ("sender_id", filled message.senderId), ("timestamp", filled message.timestamp)])
  | .content _ => none

/-- The element of a header. The format for a time does not go with its arguments, and what it
prints is not determined. -/
def headerElement (env : Env) (field : Field) : Except Fault Xml :=
  match fieldString env.formatDecimal field.value with
  | none => .error .pointer
  | some value => do
    let attrs ← leaves env [("name", some (.format field.name)), ("value", some (.format value))]
    return .item "header".toList attrs []

/-- The elements of the headers; `asl_field_list_first` asserts that there is a list. -/
def headerElements (env : Env) : Server → Except Fault (List Xml)
  | .message message =>
    match message.headers with
    | none => .error .assertion
    | some fields => fields.mapM (headerElement env)
  | _ => .ok []

/-- The document of a resource, with the reports of all children; a content is sent as it is. -/
def documentOf (env : Env) (tree : Tree) (rootUri : Str) (r : Resource) : Except Fault Xml := do
  let path ← feedPath tree r.server
  match documentLeaves rootUri path r with
  | none => .error .pointer
  | some (name, attrs) =>
    let attrs ← leaves env attrs
    let headers ← headerElements env r.server
    let reports ← reportAll env tree rootUri r.children
    return .item restmsRoot
      (Attrs.empty.set "xmlns".toList "http://www.restms.org/schema/restms".toList)
      [.item name.toList attrs (headers ++ reports)]

/-- The end of `zyre_resource_to_document`: the document goes to the client. -/
def replyDocument (env : Env) (self : Work) (rootUri accept : Str) (r : Resource) :
    Except Fault Work := do
  let document ← documentOf env self.tree rootUri r
  let answer := .document document (etag r (self.tree.tableIndex r) accept)
  { self with context := { self.context with answer := answer } }.reply

/-- Save the context for a backend arrival call -/
def hold (self : Work) (id : ResourceId) (message : Message) (waiting : Waiting) :
    Except Fault Work := do
  let self ← self.replyVoid
  let tree ← self.tree.setServer id (.message { message with context := some waiting })
  return { self with tree := tree }

/-- `get` of a resource, for the context of a request -/
def getResource (env : Env) (self : Work) (request : Request) (accept : Str) (id : ResourceId) :
    Except Fault Work := do
  let r ← self.tree.get id
  match r.server with
  | .content content =>
    return { self with context := { self.context with
      answer := content.bucket.elim .nothing fun octets => .content octets content.type } }
  | .message message =>
    if message.pending then self.hold id message ⟨self.context.id, request.rootUri, accept⟩
    else replyDocument env self request.rootUri accept r
  | _ => replyDocument env self request.rootUri accept r

/-- `if (!context->replied) reply_success (HTTP_REPLY_OK)` -/
def finish (self : Work) : Except Fault Work :=
  if self.context.replied then .ok self else self.replySuccess 200

/-- `zyre_restms_check_path` -/
def checkPath (pathinfo : Str) : Bool :=
  "/domain/".toList.isPrefixOf pathinfo || "/feed/".toList.isPrefixOf pathinfo ||
    "/pipe/".toList.isPrefixOf pathinfo || "/resource/".toList.isPrefixOf pathinfo

/-- `zyre_restms_get`, for a resource of the table -/
def get (env : Env) (self : Work) (request : Request) (id : ResourceId) : Except Fault Work := do
  let r ← self.tree.get id
  if modified r (self.tree.tableIndex r) request.conditions then
    let self ← getResource env self request request.conditions.accept id
    self.finish
  else self.replyError 304

/-! ## PUT -/

def overwrite (attrs : Attrs) (name : String) (value : Str) : Str :=
  (attrs.get name.toList).elim value cut

/-- `put` of a feed or a pipe: the document is parsed and `change` applied to its first element. -/
def putDocument (self : Work) (request : Request) (id : ResourceId) (type : String)
    (change : Attrs → Server) : Except Fault Work :=
  if request.contentLength = 0 then self.replySuccess 204
  else do
    let (self, items) ← self.parseDocument request (some type.toList)
    match items with
    | none => return self
    | some items =>
      let tree ← self.tree.setServer id (change ((items.head?.map Xml.attrs).getD .empty))
      return { self with tree := tree }

/-- `put` of a resource -/
def putResource (self : Work) (request : Request) (id : ResourceId) : Except Fault Work := do
  let r ← self.tree.get id
  match r.server with
  | .feed feed =>
    if feed.dynamic then
      self.putDocument request id "feed" fun attrs => .feed { feed with
        title := overwrite attrs "title" feed.title
        license := overwrite attrs "license" feed.license }
    else self.replyError 403
  | .pipe pipe =>
    self.putDocument request id "pipe" fun attrs => .pipe { pipe with
      title := overwrite attrs "title" pipe.title }
  | _ => self.replyError 403

/-- `zyre_restms_put`, for a resource of the table -/
def putRequest (self : Work) (request : Request) (id : ResourceId) : Except Fault Work := do
  let r ← self.tree.get id
  if unmodified r (self.tree.tableIndex r) request.conditions then self.replyError 412
  else
    let self ← self.putResource request id
    self.finish

/-! ## DELETE -/

/-- `delete` of a join, which is made internally when the context is null -/
def joinDelete (self : Work) (hasContext : Bool) (id : ResourceId) : Except Fault Work := do
  let r ← self.tree.get id
  match r.server with
  | .join join =>
    if join.dynamic || !hasContext then
      let pipe ← self.tree.get join.pipe
      let feed ← self.tree.get join.feed
      let tree ← self.tree.detachJoin join.pipe (joinKey join.address feed.path)
      let tree ← tree.detachJoin join.feed (joinKey join.address pipe.path)
      let self := { self with tree := tree }
      -- a default join has no backend
      return if join.dynamic then
        self.send (.joinDelete pipe.name feed.name join.address)
      else self
    else self.replyError 403
  | _ => .error .pointer

/--
The loop in `delete` of a pipe or a feed: each of its joins is deleted and destroyed. When that
does not shorten the list, the next round uses a join that has been destroyed.
-/
def deleteJoins (hasContext : Bool) (owner : ResourceId) : (fuel : Nat) → Work → Except Fault Work
  | fuel, self => do
    let r ← self.tree.get owner
    match r.server.joins with
    | [] => return self
    | (_, join) :: _ =>
      match fuel with
      | 0 => .error .destroyed
      | fuel + 1 =>
        let self ← self.joinDelete hasContext join
        let tree ← self.tree.destroy join
        deleteJoins hasContext owner fuel { self with tree := tree }

/-- `delete` of a resource -/
def deleteResource (self : Work) (id : ResourceId) : Except Fault Work := do
  let r ← self.tree.get id
  match r.server with
  | .domain => self.replyError 403
  | .feed feed =>
    if feed.dynamic then
      let self ← deleteJoins true id feed.joins.length self
      return self.send (.feedDelete r.name)
    else self.replyError 403
  | .pipe pipe =>
    let self ← deleteJoins false id pipe.joins.length self
    return self.send (.pipeDelete r.name)
  | .join _ => self.joinDelete true id
  | .message _ => return self
  | .content _ => return self

/-- `zyre_resource_detach_from_parent` and `zyre_resource_destroy` -/
def discard (tree : Tree) (id : ResourceId) : Except Fault Tree := do
  let tree ← tree.detachFromParent id
  tree.destroy id

/-- `zyre_restms_delete`, for a resource of the table -/
def deleteRequest (self : Work) (request : Request) (id : ResourceId) : Except Fault Work := do
  let r ← self.tree.get id
  if unmodified r (self.tree.tableIndex r) request.conditions then self.replyError 412
  else
    let self ← self.deleteResource id
    if self.context.failed then return self
    let tree ← discard self.tree id
    { self with tree := tree }.replySuccess 200

/-! ## POST -/

/-- `zyre_join_new` and its configuration, which attaches it to its pipe and to its feed -/
def enterJoin (env : Env) (tree : Tree) (now : Nat) (join : Join) :
    Except Fault (Tree × ResourceId) := do
  let (tree, id) ← tree.create env join.pipe false now (.join join)
  let pipe ← tree.get join.pipe
  let feed ← tree.get join.feed
  let tree ← tree.attachJoin join.pipe id (joinKey join.address feed.path)
  let tree ← tree.attachJoin join.feed id (joinKey join.address pipe.path)
  return (tree, id)

def createAsynclet (env : Env) (tree : Tree) (now : Nat) (id : ResourceId) : Except Fault Tree := do
  let (tree, asynclet) ← tree.create env id false now (.message Message.new)
  let r ← tree.get id
  match r.server with
  | .pipe pipe => tree.setServer id (.pipe { pipe with asynclet := some asynclet })
  | _ => .error .pointer

/-- A pipe is created and configured, with a join to the default feed and an asynclet. -/
def createPipe (env : Env) (self : Work) (now : Nat) (parent : ResourceId) (attrs : Attrs) :
    Except Fault (Work × ResourceId) := do
  let type := cut ((attrs.get "type".toList).getD "topic".toList)
  let title := cut ((attrs.get "title".toList).getD [])
  let (tree, id) ← self.tree.create env parent true now (.pipe ⟨type, title, [], none⟩)
  let r ← tree.get id
  match tree.lookup "/feed/default".toList with
  | some feed => do
    let (tree, _) ← enterJoin env tree now ⟨false, cut r.name, id, feed⟩
    let tree ← createAsynclet env tree now id
    return ({ self with tree := tree }.send (.pipeCreate type r.name), id)
  | none => .error .assertion

/-- A feed is created and configured. The flag tells whether there was one of its path already. -/
def createFeed (env : Env) (self : Work) (now : Nat) (parent : ResourceId) (attrs : Attrs) :
    Except Fault (Work × ResourceId × Bool) := do
  let type := cut ((attrs.get "type".toList).getD "topic".toList)
  let server := Server.feed ⟨true, type, cut ((attrs.get "title".toList).getD []),
    cut ((attrs.get "license".toList).getD []), []⟩
  let name := (attrs.get "name".toList).getD []
  if name.isEmpty then
    let (tree, id) ← self.tree.create env parent true now server
    let r ← tree.get id
    return ({ self with tree := tree }.send (.feedCreate type r.name), id, true)
  else
    let path := namedPath "feed".toList name
    match self.tree.lookup path with
    | some id =>
      -- the duplicate is destroyed
      return ({ self with tree := { self.tree with maxItems := self.tree.grow } }, id, false)
    | none =>
      let (tree, id) ← self.tree.enter parent (cleanName name) path false now server
      return ({ self with tree := tree }.send (.feedCreate type (cleanName name)), id, true)

/-- The end of `child add`: reports a resource to the client. -/
def added (env : Env) (self : Work) (request : Request) (id : ResourceId) (isNew : Bool) :
    Except Fault Work :=
  let code := if isNew then 201 else self.context.code
  getResource env { self with context := { self.context with code := code } } request
    request.contentType id

/-- `zyre_pipe_spec_valid` -/
def pipeSpecValid (attrs : Attrs) : Bool :=
  ["", "fifo"].any fun type => (attrs.get "type".toList).getD [] == type.toList

/-- `zyre_feed_spec_valid` -/
def feedSpecValid (attrs : Attrs) : Bool :=
  ["", "fanout", "direct", "topic", "headers", "service", "rotator", "system"].any fun type =>
    (attrs.get "type".toList).getD [] == type.toList

/-- `post` of the domain -/
def postDomain (env : Env) (self : Work) (request : Request) (id : ResourceId) :
    Except Fault Work := do
  let (self, items) ← self.parseDocument request none
  match items with
  | none => return self
  | some [] => self.replyError 400
  | some (.text _ :: _) => .error .pointer
  | some (.item name attrs _ :: _) =>
    if name = "pipe".toList then
      if pipeSpecValid attrs then
        let (self, pipe) ← createPipe env self request.now id attrs
        added env self request pipe true
      else self.replyError 403
    else if name = "feed".toList then
      if feedSpecValid attrs then
        let (self, feed, isNew) ← createFeed env self request.now id attrs
        added env self request feed isNew
      else self.replyError 403
    else self.replyError 403

/-- `post` of a pipe -/
def postPipe (env : Env) (self : Work) (request : Request) (id : ResourceId) (r : Resource)
    (pipe : Pipe) : Except Fault Work := do
  let (self, items) ← self.parseDocument request none
  match items with
  | none => return self
  -- neither null nor a text has a name
  | some [] => .error .pointer
  | some (.text _ :: _) => .error .pointer
  | some (.item name attrs _ :: _) =>
    if name = "join".toList then
      let address := (attrs.get "address".toList).getD "*".toList
      match self.tree.parseUri request.rootUri ((attrs.get "feed".toList).getD []) with
      | none => self.replyError 404
      | some feed => do
        let f ← self.tree.get feed
        match f.server with
        | .feed _ =>
          -- Check if we already have same join, key is address@feed
          match pipe.joins.find? fun e => e.1 == joinKey address f.path with
          | some (_, join) => getResource env self request [] join
          | none =>
            if f.name = "default".toList then self.replyError 403
            else do
              let (tree, join) ← enterJoin env self.tree request.now ⟨true, cut address, id, feed⟩
              let self := { self with tree := tree }.send (.joinCreate r.name f.name (cut address))
              added env self request join true
        | _ => self.replyError 404
    else self.replyError 403

/-- Parse content element if any -/
def contentOf (env : Env) (request : Request) (message : Xml) (self : Work) :
    Except Fault (Work × Part) :=
  match findItem "content" message with
  | none => .ok (self, .new)
  | some element =>
    match element.attrs.get "href".toList with
    | none => do
      let part ← partOfElement env element
      return (self, part)
    | some uri =>
      match self.tree.parseUri request.rootUri uri with
      | none => do
        let self ← self.replyError 404
        return (self, .new)
      | some id => do
        let r ← self.tree.get id
        match r.server with
        | .content x => do
          let part ← partOfResource env x
          let tree ← discard self.tree id
          return ({ self with tree := tree }, part)
        | _ => .error .pointer

/-- `s_send_message`. The object of a resource that is no content is taken for one, and what is read
from it is not determined. -/
def sendMessage (env : Env) (self : Work) (request : Request) (feedName : Str) (message : Xml) :
    Except Fault Work := do
  let (self, part) ← contentOf env request message self
  let published ← publish env feedName message part
  return self.send (.addressPost published.address published.feed)

def sendMessages (env : Env) (request : Request) (feedName : Str) :
    (messages : List Xml) → Work → Except Fault Work
  | [], self => .ok self
  | message :: messages, self => do
    let self ← sendMessage env self request feedName message
    sendMessages env request feedName messages self

/-- `post` of a feed -/
def postFeed (env : Env) (self : Work) (request : Request) (id : ResourceId) (r : Resource) :
    Except Fault Work :=
  if request.contentType = "application/restms+xml".toList then do
    let (self, items) ← self.xmlParse request (some "message".toList)
    match items with
    | none => return self
    | some items => sendMessages env request r.name items self
  else do
    let content : Content := ⟨cut request.contentType, request.contentLength,
      request.content.map Bucket.octets⟩
    let (tree, _) ← self.tree.create env id true request.now (.content content)
    { self with tree := tree }.replySuccess 201

/-- `zyre_restms_post`, for a resource of the table -/
def post (env : Env) (self : Work) (request : Request) (id : ResourceId) : Except Fault Work := do
  let r ← self.tree.get id
  let self ← match r.server with
    | .domain => postDomain env self request id
    | .feed _ => postFeed env self request id r
    | .pipe pipe => postPipe env self request id r pipe
    | _ => self.replyError 403
  self.finish

/-! ## Any request -/

/-- The requests of `http_driver_module`, as `zyre_restms` handles them. -/
def handle (env : Env) (self : Work) (request : Request) : Except Fault Work :=
  match request.method with
  | .head | .move | .copy => self.replyError 403
  | .get =>
    if checkPath request.pathinfo then
      match self.tree.lookup request.pathinfo with
      | some id => get env self request id
      | none => self.replyError 404
    else self.replyError 400
  | .put =>
    if checkPath request.pathinfo then
      match self.tree.lookup request.pathinfo with
      | some id => self.putRequest request id
      | none => self.replyError 404
    else self.replyError 400
  | .delete =>
    if checkPath request.pathinfo then
      match self.tree.lookup request.pathinfo with
      | some id => self.deleteRequest request id
      -- Idempotent delete -> OK
      | none => self.replySuccess 200
    else self.replyError 400
  | .post =>
    if checkPath request.pathinfo then
      match self.tree.lookup request.pathinfo with
      | some id => post env self request id
      | none => self.replyError 404
    else self.replyError 400

end Work

/-! ## Deliveries -/

/-- `asl_field_list_new` for the headers, null when the table is rejected -/
def Delivery.fieldList (self : Delivery) : Except Fault (Option (List Field)) :=
  match fieldListNew self.headers with
  | .ok fields => .ok (some fields)
  | .error .rejected => .ok none
  | .error .fault => .error .pointer

/-- `attach` of a message, with its list of headers -/
def Message.attach (env : Env) (self : Message) (delivery : Delivery)
    (headers : Option (List Field)) : Message where
  address := cut delivery.routingKey
  feed := cut delivery.exchange
  replyTo := cut delivery.replyTo
  correlationId := cut delivery.correlationId
  expiration := cut delivery.expiration
  messageId := cut delivery.messageId
  type := cut delivery.type
  userId := cut delivery.userId
  appId := cut delivery.appId
  senderId := cut delivery.senderId
  timestamp := if delivery.timestamp = 0 then self.timestamp else env.mime delivery.timestamp
  priority := delivery.priority
  deliveryMode := delivery.deliveryMode
  headers := headers
  pending := false
  context := self.context

/-- `attach` of a content: the first piece of the body that the reader gives -/
def Content.attach (delivery : Delivery) : Except Fault Content :=
  match delivery.body.setReader iprBucketMaxSize with
  | none => .error .assertion
  | some reader =>
    match delivery.body.replayBody reader with
    | none => .error .assertion
    | some (bucket, _) => .ok ⟨cut delivery.contentType, delivery.body.bodySize, bucket⟩

/-- The pipe that a consumer tag of the form prefix:pipe-name stands for. -/
def Tree.pipeOfTag (self : Tree) (consumerTag : Str) : Option ResourceId :=
  match consumerTag.dropWhile (· != ':') with
  | [] => none
  | _ :: name => self.lookup (fmtCut (resourcePath name))

/-- Re-send the message if the client is waiting, unless its connection has been closed. -/
def replySaved (env : Env) (tree : Tree) (shut : ContextId → Bool) (id : ResourceId) :
    Except Fault (List Reply) := do
  let r ← tree.get id
  match r.server with
  | .message message =>
    match message.context with
    | none => return []
    | some waiting =>
      if shut waiting.context then return []
      else
        let document ← Work.documentOf env tree waiting.rootUri r
        return [⟨waiting.context, 200,
          .document document (etag r (tree.tableIndex r) waiting.accept)⟩]
  | _ => .error .pointer

/-- The message and its content take over what has been delivered. -/
def fillAsynclet (env : Env) (tree : Tree) (delivery : Delivery) (asynclet : ResourceId) :
    Except Fault Tree := do
  let content ← Content.attach delivery
  let (tree, _) ← tree.create env asynclet false delivery.now (.content content)
  let r ← tree.get asynclet
  match r.server with
  | .message message => do
    let headers ← delivery.fieldList
    tree.setServer asynclet (.message (message.attach env delivery headers))
  | _ => .error .pointer

/-- `zyre_restms_arrived` -/
def arrived (env : Env) (tree : Tree) (shut : ContextId → Bool) (delivery : Delivery) :
    Except Fault (Tree × List Reply) :=
  match tree.pipeOfTag delivery.consumerTag with
  | none => .ok (tree, [])
  | some id => do
    let r ← tree.get id
    match r.server with
    | .pipe pipe =>
      match pipe.asynclet with
      | some asynclet => do
        let tree ← fillAsynclet env tree delivery asynclet
        -- Re-configure the pipe, which creates a new asynclet
        let tree ← Work.createAsynclet env tree delivery.now id
        let replies ← replySaved env tree shut asynclet
        return (tree, replies)
      | none => .error .pointer
    | _ => .error .pointer

/-! ## Steps -/

/-- Everything that happens to `zyre_restms`. -/
inductive Event where
  | request (request : Request)
  | deliver (delivery : Delivery)
  /-- The connection of a request is closed. -/
  | close (context : ContextId)

/-- The state between events. -/
structure State where
  tree : Tree
  /-- The number of requests so far -/
  requests : Nat
  /-- The contexts whose connections have been closed -/
  shut : ContextId → Bool

/-- What a step leads to, and sends. -/
structure Outcome where
  state : State
  replies : List Reply
  requests : List BackendRequest

/-- The context in which the next request is handled. -/
def State.work (s : State) (request : Request) : Work where
  tree := s.tree
  context := ⟨s.requests, request.failed, false, 200, .nothing⟩
  replies := []
  requests := []

def step (env : Env) (s : State) : Event → Except Fault Outcome
  | .request request => do
    let work ← Work.handle env (s.work request) request
    return ⟨{ s with tree := work.tree, requests := s.requests + 1 }, work.replies, work.requests⟩
  | .deliver delivery => do
    let (tree, replies) ← arrived env s.tree s.shut delivery
    return ⟨{ s with tree := tree }, replies, []⟩
  | .close context => .ok ⟨{ s with shut := Function.update s.shut context true }, [], []⟩

def domainId : ResourceId := 0

def defaultFeedId : ResourceId := 1

/-- `zyre_restms_new`: the tree with the default domain and the default feed. -/
def Tree.new (now : Nat) : Tree where
  heap id :=
    if id = domainId then some ⟨none, "default".toList, "/domain/default".toList, false,
      [defaultFeedId], now, .domain⟩
    else if id = defaultFeedId then some ⟨some domainId, "default".toList,
      "/feed/default".toList, false, [], now,
      .feed ⟨false, "direct".toList, "Default feed".toList, [], []⟩⟩
    else none
  next := 2
  current := 0
  table path :=
    if path = "/domain/default".toList then some domainId
    else if path = "/feed/default".toList then some defaultFeedId
    else none
  nbrItems := 2
  maxItems := 255

/-- Before the first event. -/
def State.new (now : Nat) : State where
  tree := Tree.new now
  requests := 0
  shut _ := false

end OpenAmq.Zyre
