import OpenAmq.Zyre.Handling

/-!
# How resources and messages are posted

The POST requests on the domain, on pipes and on feeds, in the manner of the other requests.

* `Posted` — what a POST adds to the tree, or takes out of it
* `Consumed` — the contents that the messages of a document have referred to
* `Fits` — the messages that can be published
* `yields_post` — and that this is all
* `Handled`, `yields_handle` — any request
-/

namespace OpenAmq.Zyre

open OpenAmq.Lib OpenAmq.Zyre.Tree List Option

variable {env : Env} {E : Fault → Prop} {c : ContextId} {failed : Bool} {request : Request}
  {A : Attrs → Prop}

/-- Messages have been sent to the backend, and the contents they refer to are gone. -/
inductive Sent (feedName : Str) : Tree → Tree → List BackendRequest → Prop
  | nil {t : Tree} : Sent feedName t t []
  | plain {t t' : Tree} {address : Str} {requests : List BackendRequest}
    (h : Sent feedName t t' requests) :
    Sent feedName t t' (.addressPost address feedName :: requests)
  | used {t t1 t' : Tree} {i : ResourceId} {content : Content} {address : Str}
    {requests : List BackendRequest} (hcontent : t.server i = some (.content content))
    (hdiscarded : Discarded t t1 i) (h : Sent feedName t1 t' requests) :
    Sent feedName t t' (.addressPost address feedName :: requests)

/-- The elements of the document of a request that are looked at. -/
def Elements (failed : Bool) (request : Request) (item : Option Str) (items : List Xml) : Prop :=
  failed = false ∧ request.contentType = restmsXml ∧ Work.parsed request item = .ok (.ok items)

def AsksFeed (failed : Bool) (request : Request) (attrs : Attrs) : Prop :=
  (∃ children rest, Elements failed request none (.item "feed".toList attrs children :: rest)) ∧
  Work.feedSpecValid attrs = true

/-- What a POST on the resource `i` does to the tree, and what the backend is told. A feed is only
created with attributes for which `A` holds. -/
inductive Posted (env : Env) (A : Attrs → Prop) (t : Tree) (i : ResourceId) :
    Tree → List BackendRequest → Prop
  | nothing : Posted env A t i t []
  | known {maxItems : Nat} : Posted env A t i { t with maxItems := maxItems } []
  | unnamedFeed {t' : Tree} {k : ResourceId} {attrs : Attrs} (hasks : A attrs)
    (hdomain : t.server i = some .domain) (hname : (feedAttr attrs).isEmpty = true)
    (h : Created env t t' k i (.feed (newFeed attrs))) :
    Posted env A t i t' [.feedCreate (newFeed attrs).type (hashName env (t.current + 1))]
  | namedFeed {t' : Tree} {k : ResourceId} {attrs : Attrs} (hasks : A attrs)
    (hdomain : t.server i = some .domain) (hname : (feedAttr attrs).isEmpty = false)
    (h : Added t t' k i (cleanName (feedAttr attrs)) (namedPath "feed".toList (feedAttr attrs))
      (.feed (newFeed attrs)))
    (hcurrent : t'.current = t.current) (hfresh : t'.FreshOk) :
    Posted env A t i t' [.feedCreate (newFeed attrs).type (cleanName (feedAttr attrs))]
  | pipe {t' : Tree} {k : ResourceId} {type title : Str} (hdomain : t.server i = some .domain)
    (h : PipeAdded env t t' k i type title) :
    Posted env A t i t' [.pipeCreate type (hashName env (t.current + 1))]
  | join {t' : Tree} {k : ResourceId} {x : Join} {p : Pipe} {f : Feed} {pipeName feedName : Str}
    {feedPath : Str} (hx : x.pipe = i ∧ x.dynamic = true) (hpipe : t.server i = some (.pipe p))
    (hfeed : t.server x.feed = some (.feed f)) (hpipeName : t.name i = some pipeName)
    (hfeedName : t.name x.feed = some feedName) (hdefault : feedName ≠ "default".toList)
    (hpath : t.path x.feed = some feedPath)
    (hnew : ∀ e ∈ p.joins, e.1 ≠ joinKey x.address feedPath) (h : JoinAdded env t t' k x) :
    Posted env A t i t' [.joinCreate pipeName feedName x.address]
  | content {t' : Tree} {k : ResourceId} {f : Feed} {x : Content}
    (hfeed : t.server i = some (.feed f)) (h : Created env t t' k i (.content x)) :
    Posted env A t i t' []
  | messages {t' : Tree} {f : Feed} {name : Str} {requests : List BackendRequest}
    (hfeed : t.server i = some (.feed f)) (hname : t.name i = some name)
    (h : Sent (backendName name) t t' requests) : Posted env A t i t' requests

/-! ## Messages -/

/-- The content that a message refers to, if it refers to one and it is there. -/
def reference (t : Tree) (rootUri : Str) (message : Xml) : Option (Option ResourceId) :=
  (findItem "content" message).bind fun element =>
    (element.attrs.get "href".toList).map fun uri => t.parseUri rootUri uri

/-- The references that lead nowhere. That to a content which a message before has referred to
does, since the content has gone with it. -/
def missing (t : Tree) (rootUri : Str) : (used : List ResourceId) → List Xml → Nat
  | _, [] => 0
  | used, message :: messages =>
    match reference t rootUri message with
    | none => missing t rootUri used messages
    | some none => missing t rootUri used messages + 1
    | some (some i) =>
      if i ∈ used then missing t rootUri used messages + 1
      else missing t rootUri (i :: used) messages

/-- The content of an element has a text, and its attributes can be printed. -/
def ElementFits (env : Env) (element : Xml) : Prop :=
  textOf element ≠ none ∧
  (∀ encoding, element.attrs.get "encoding".toList = some encoding →
    encoding ≠ "base64".toList → Printable env encoding) ∧
  ∀ type, element.attrs.get "type".toList = some type → Printable env type

/-- A message refers to a content with a bucket, or has one that is not empty. -/
def PartFits (env : Env) (t : Tree) (rootUri : Str) (message : Xml) : Prop :=
  ∀ element, findItem "content" message = some element →
    match element.attrs.get "href".toList with
    | some uri => ∀ i, t.parseUri rootUri uri = some i →
      ∃ x, t.server i = some (.content x) ∧ x.bucket ≠ none ∧ Printable env x.type
    | none => ElementFits env element

/-- No text is among the elements that follow the first header, and the names fit. -/
def HeadersKept (message : Xml) : Prop :=
  ∀ child ∈ message.children.dropWhile fun child => !isElement "header" child,
    (∀ value, child ≠ .text value) ∧
    ∀ header, headerOf child = some header → header.1.length ≤ aslFieldNameMax

/-- A message can be published. -/
structure Fits (env : Env) (t : Tree) (rootUri : Str) (message : Xml) : Prop where
  part : PartFits env t rootUri message
  properties : ∀ name ∈ messageProperties, Printable env (attrOf message name "")
  timestamp : Mime.Fits (attrOf message "timestamp" "")
  headers : HeadersKept message

/-- The contents in `used` are gone. -/
structure Consumed (t t' : Tree) (used : List ResourceId) : Prop where
  contents : ∀ k ∈ used, ∃ x, t.server k = some (.content x)
  server : ∀ k, t'.server k = if k ∈ used then none else t.server k
  parent : ∀ k, t'.parent k = if k ∈ used then none else t.parent k
  path : ∀ k, t'.path k = if k ∈ used then none else t.path k
  table : ∀ q, t'.table q = (t.table q).bind fun k => if k ∈ used then none else some k

theorem Consumed.refl (t : Tree) : Consumed t t [] where
  contents := by nofun
  server _ := rfl
  parent _ := rfl
  path _ := rfl
  table q := by cases t.table q <;> rfl

theorem Consumed.next {t t1 t2 : Tree} {used : List ResourceId} {i : ResourceId} {x : Content}
    (h : Consumed t t1 used) (htable : t.TableOk) (hi : t1.server i = some (.content x))
    (hd : Gone t1 t2 i) : Consumed t t2 (i :: used) := by
  have hserver := h.server i
  rw [hi] at hserver
  have hused : i ∉ used := by
    intro hmem
    rw [if_pos hmem] at hserver
    cases hserver
  rw [if_neg hused] at hserver
  refine ⟨fun k hk => ?_, fun k => ?_, fun k => ?_, fun k => ?_, fun q => ?_⟩
  · rcases mem_cons.mp hk with rfl | hk
    · exact ⟨x, hserver.symm⟩
    · exact h.contents k hk
  · rw [hd.server, h.server]
    by_cases hk : k = i <;> simp [hk]
  · rw [hd.parent, h.parent]
    by_cases hk : k = i <;> simp [hk]
  · rw [hd.path, h.path]
    by_cases hk : k = i <;> simp [hk]
  · rw [hd.table, h.table, h.path, if_neg hused]
    split
    · next hpath =>
      rw [(htable q i).mpr hpath]
      simp
    · next hpath =>
      cases hq : t.table q with
      | none => rfl
      | some k =>
        have hne : k ≠ i := by
          rintro rfl
          exact hpath ((htable q k).mp hq)
        simp [hne]

variable {t : Tree} {used : List ResourceId} {i : ResourceId} {w : Work} {n : Nat}

theorem Consumed.parseUri {t1 : Tree} (h : Consumed t t1 used) (rootUri uri : Str) :
    t1.parseUri rootUri uri =
      (t.parseUri rootUri uri).bind fun k => if k ∈ used then none else some k := by
  unfold Tree.parseUri
  cases Tree.defix uri rootUri with
  | none => rfl
  | some path =>
    show (Tree.defix path "restms".toList >>= _) = bind (Tree.defix path _ >>= _) _
    cases Tree.defix path "restms".toList with
    | none => rfl
    | some path => exact h.table path

theorem Consumed.attached {t1 : Tree} (h : Consumed t t1 used) (hi : Detachable t i)
    (hused : i ∉ used) : t1.Attached i := by
  refine ⟨?_, fun p hp => ?_⟩
  · rw [live_iff_server, h.server, if_neg hused, ← live_iff_server]
    exact hi.1
  · rw [h.parent, if_neg hused] at hp
    obtain ⟨s, hs, hparental⟩ := hi.2 p hp
    have hp : p ∉ used := by
      intro hmem
      obtain ⟨x, hx⟩ := h.contents p hmem
      rw [bare, hx] at hs
      cases hs
      exact hparental
    rw [live_iff_server, h.server, if_neg hp, ← live_iff_server]
    exact live_iff_bare.mpr ⟨s, hs⟩

/-- How many references may still lead nowhere: one while there has been no reply. -/
def Allows (c : ContextId) (failed : Bool) (w : Work) (n : Nat) : Prop :=
  n = 0 ∨ n = 1 ∧ Open c failed w

/-- Messages are sent on until there is no answer yet, or one. -/
def Sending (c : ContextId) (failed : Bool) (w : Work) : Prop :=
  Open c failed w ∨ Closed c Plain w

theorem Sending.congr {w' : Work} (h : Sending c failed w) (hcontext : w'.context = w.context)
    (hreplies : w'.replies = w.replies) : Sending c failed w' :=
  h.imp (fun h => h.congr hcontext hreplies) fun h =>
    ⟨hcontext ▸ h.replied, hreplies ▸ h.replies⟩

theorem Allows.congr {w' : Work} (h : Allows c failed w n) (hcontext : w'.context = w.context)
    (hreplies : w'.replies = w.replies) : Allows c failed w' n :=
  h.imp_right fun ⟨hn, h⟩ => ⟨hn, h.congr hcontext hreplies⟩

theorem yields_refuse (h : Sending c failed w)
    (hmissing : Allows c failed w (n + 1) ∨ E .assertion) :
    Yields (w.replyError 404) (fun w' => Untouched w w' ∧ Sending c failed w' ∧
      (n = 0 ∨ E .assertion)) E := by
  rcases h with hopen | hclosed
  · refine (yields_replyError hopen (C := Plain) fun _ _ => ⟨by decide, by decide⟩).imp
      fun w' hw' => ?_
    rcases hmissing with hallows | hE
    · have hn : n = 0 := by
        rcases hallows with h | ⟨h, _⟩
        · cases h
        · exact Nat.succ.inj h
      exact ⟨hw'.2.1, .inr hw'.1, .inl hn⟩
    · exact ⟨hw'.2.1, .inr hw'.1, .inr hE⟩
  · unfold Work.replyError Work.reply
    rw [hclosed.replied, if_pos rfl]
    refine yields_error (hmissing.resolve_left fun hallows => ?_)
    rcases hallows with h | ⟨_, hopen⟩
    · cases h
    · exact absurd (hclosed.replied.symm.trans hopen.replied) (by decide)

/-- One message has been sent, and a content may have gone with it. -/
def MessageSent (feedName : Str) (w w' : Work) : Prop :=
  (w'.tree = w.tree ∨ ∃ i content, w.tree.server i = some (.content content) ∧
    Discarded w.tree w'.tree i) ∧
  ∃ address, w'.requests = w.requests ++ [.addressPost address (backendName feedName)]

theorem live_of_parseUri (htable : t.TableOk) {rootUri uri : Str}
    (h : t.parseUri rootUri uri = some i) : t.Live i := by
  obtain ⟨path, -, h⟩ := bind_eq_some_iff.mp h
  obtain ⟨path', -, h⟩ := bind_eq_some_iff.mp h
  exact htable.live h

theorem yields_envPrint {value : Str} (h : Printable env value ∨ E .pointer) :
    Yields (env.print value) (fun _ => True) E := by
  rw [Env.print]
  cases hvalue : env.format value with
  | none => exact yields_error (h.resolve_left fun h => h hvalue)
  | some text => exact yields_ok trivial

theorem yields_partOfResource {x : Content}
    (h : x.bucket ≠ none ∧ Printable env x.type ∨ E .pointer) :
    Yields (partOfResource env x) (fun _ => True) E := by
  unfold partOfResource
  cases hbucket : x.bucket with
  | none => exact yields_error (h.resolve_left fun h => h.1 hbucket)
  | some octets =>
    exact (yields_envPrint (h.imp_left And.right)).bind fun _ _ => yields_pure trivial

theorem yields_partOfElement {element : Xml} (h : ElementFits env element ∨ E .pointer) :
    Yields (partOfElement env element) (fun _ => True) E := by
  unfold partOfElement
  cases htext : textOf element with
  | none => exact yields_error (h.resolve_left fun h => h.1 htext)
  | some value =>
    have hbody : Yields (bodyOf env value (element.attrs.get "encoding".toList))
        (fun _ => True) E := by
      unfold bodyOf
      cases hencoding : element.attrs.get "encoding".toList with
      | none => exact yields_ok trivial
      | some encoding =>
        dsimp only
        split
        · exact yields_ok trivial
        · next hother =>
          refine (yields_envPrint (h.imp_left fun h => h.2.1 encoding hencoding hother)).bind
            (f := fun encoding => .ok (stringOctets value, encoding)) fun _ _ => yields_ok trivial
    refine hbody.bind fun _ _ => ?_
    have htype : Yields (contentTypeOf env (element.attrs.get "type".toList))
        (fun _ => True) E := by
      cases htype : element.attrs.get "type".toList with
      | none => exact yields_ok trivial
      | some type => exact yields_envPrint (h.imp_left fun h => h.2.2 type htype)
    exact htype.bind fun _ _ => yields_pure trivial

theorem yields_headerLoop {children : List Xml}
    (h : (∀ child ∈ children, (∀ value, child ≠ .text value) ∧
      ∀ header, headerOf child = some header → header.1.length ≤ aslFieldNameMax) ∨
      E .pointer ∧ E .assertion) :
    Yields (headerLoop children) (fun _ => True) E := by
  induction children with
  | nil => exact yields_ok trivial
  | cons child children ih =>
    have hrest := ih (h.imp_left fun h => (forall_mem_cons.mp h).2)
    cases child with
    | text value =>
      exact yields_error (h.elim (fun h => absurd rfl ((forall_mem_cons.mp h).1.1 value)) And.left)
    | item itemName attrs items =>
      rw [headerLoop]
      cases hheader : headerOf (.item itemName attrs items) with
      | none => exact hrest
      | some header =>
        dsimp only
        split
        · exact hrest.bind (f := fun fields => .ok (stringField header :: fields))
            fun _ _ => yields_ok trivial
        · next hlong =>
          refine yields_error (h.elim (fun h => ?_) And.right)
          exact absurd ((forall_mem_cons.mp h).1.2 header hheader) hlong

theorem yields_publish {feedName : Str} {x : Xml} {part : Part}
    (hfits : Fits env t request.rootUri x ∨ E .pointer ∧ E .assertion) :
    Yields (publish env feedName x part) (fun q => q.feed = backendName feedName) E := by
  have hproperties : Yields (messageProperties.mapM fun name => env.print (attrOf x name ""))
      (fun _ => True) E :=
    (yields_mapM (P := fun _ => True) fun name hname => yields_envPrint
      (hfits.imp (fun h => h.properties name hname) And.left)).imp fun _ _ => trivial
  refine hproperties.bind fun _ _ => ?_
  have htimestamp : Yields (env.timestampOf (attrOf x "timestamp" "")) (fun _ => True) E := by
    unfold Env.timestampOf
    cases htime : mimeDecode env.locals (attrOf x "timestamp" "") with
    | none =>
      refine yields_error (hfits.elim (fun h => ?_) And.left)
      have hsome := (mimeDecode_isSome_iff env.locals).mpr h.timestamp
      rw [htime] at hsome
      cases hsome
    | some time => exact yields_ok trivial
  refine htimestamp.bind fun _ _ => ?_
  exact (yields_headerLoop (hfits.imp_left fun h => h.headers)).bind fun _ _ => yields_pure rfl

/-- What `contentOf` leaves of the work: as many references as are allowed may still lead
nowhere. -/
def PartTaken (c : ContextId) (failed : Bool) (request : Request) (E : Fault → Prop) (t : Tree)
    (xs : List Xml) (w w' : Work) : Prop :=
  (w'.tree = w.tree ∨ ∃ i content, w.tree.server i = some (.content content) ∧
    Discarded w.tree w'.tree i) ∧ w'.requests = w.requests ∧ Sending c failed w' ∧
  ∃ used, Consumed t w'.tree used ∧
    (Allows c failed w' (missing t request.rootUri used xs) ∨ E .assertion)

/-- The content of a message is found, refused or missing. -/
theorem yields_contentOf {x : Xml} {xs : List Xml} (htable : t.TableOk)
    (hconsumed : Consumed t w.tree used) (h : Sending c failed w)
    (hdetach : (∀ i, reference t request.rootUri x = some (some i) → Detachable t i) ∨ E .destroyed)
    (hfits : PartFits env t request.rootUri x ∨ E .pointer)
    (hmissing : Allows c failed w (missing t request.rootUri used (x :: xs)) ∨ E .assertion) :
    Yields (Work.contentOf env request x w)
      (fun r => PartTaken c failed request E t xs w r.1) E := by
  unfold Work.contentOf
  cases helement : findItem "content" x with
  | none =>
    have hreference : reference t request.rootUri x = none := by rw [reference, helement]; rfl
    simp only [missing, hreference] at hmissing
    exact yields_ok ⟨.inl rfl, rfl, h, used, hconsumed, hmissing⟩
  | some element =>
    dsimp only
    cases huri : element.attrs.get "href".toList with
    | none =>
      have hreference : reference t request.rootUri x = none := by
        rw [reference, helement, bind_some, huri]
        rfl
      simp only [missing, hreference] at hmissing
      refine (yields_partOfElement (hfits.imp_left fun h => ?_)).bind fun _ _ =>
        yields_pure ⟨.inl rfl, rfl, ‹_›, used, hconsumed, hmissing⟩
      have hfits := h element helement
      rwa [huri] at hfits
    | some uri =>
      have hreference : reference t request.rootUri x = some (t.parseUri request.rootUri uri) := by
        rw [reference, helement, bind_some, huri]
        rfl
      have hparse := hconsumed.parseUri request.rootUri uri
      dsimp only
      cases hlookup : w.tree.parseUri request.rootUri uri with
      | none =>
        have hmissing' : Allows c failed w (missing t request.rootUri used xs + 1) ∨
            E .assertion := by
          refine hmissing.imp_left fun h => ?_
          rw [hlookup] at hparse
          cases hti : t.parseUri request.rootUri uri with
          | none => simpa only [missing, hreference, hti] using h
          | some i =>
            have hused : i ∈ used := by
              by_contra hused
              rw [hti, bind_some, if_neg hused] at hparse
              cases hparse
            simpa only [missing, hreference, hti, if_pos hused] using h
        refine (yields_refuse h hmissing').bind fun w1 hw1 => yields_pure ?_
        obtain ⟨huntouched, hsending, hn⟩ := hw1
        refine ⟨.inl huntouched.1, huntouched.2, hsending, used, ?_, hn.imp_left .inl⟩
        exact huntouched.1 ▸ hconsumed
      | some i =>
        rw [hlookup] at hparse
        obtain ⟨i', hti, hi'⟩ := bind_eq_some_iff.mp hparse.symm
        have hused : i' ∉ used ∧ i' = i := by
          split at hi'
          · cases hi'
          · next hused => exact ⟨hused, some.inj hi'⟩
        obtain ⟨hused, rfl⟩ := hused
        rw [hti] at hreference
        have hserver := hconsumed.server i'
        rw [if_neg hused] at hserver
        have hlive : w.tree.Live i' := by
          rw [live_iff_server, hserver, ← live_iff_server]
          exact live_of_parseUri htable hti
        have hcontent : (∃ x, t.server i' = some (.content x) ∧ x.bucket ≠ none ∧
            Printable env x.type) ∨ E .pointer := by
          refine hfits.imp_left fun h => ?_
          have hfits := h element helement
          rw [huri] at hfits
          exact hfits i' hti
        refine (yields_get (.inl hlive)).bind fun r hr => ?_
        have hr' := server_of_heap hr
        cases hs : r.server with
        | content content =>
          rw [hs] at hr'
          refine (yields_partOfResource (hcontent.imp_left ?_)).bind fun _ _ => ?_
          · rintro ⟨y, hy, hfits⟩
            rw [hserver, hy] at hr'
            obtain rfl := Server.content.inj (some.inj hr')
            exact hfits
          refine (yields_discard (hdetach.imp_left fun h =>
            hconsumed.attached (h i' hreference) hused)).bind fun t1 hd => yields_pure ?_
          refine ⟨.inr ⟨i', content, hr', hd⟩, rfl, h.congr rfl rfl, i' :: used,
            hconsumed.next htable hr' hd.toGone, hmissing.imp_left fun h => ?_⟩
          simp only [missing, hreference, if_neg hused] at h
          exact h.congr rfl rfl
        | domain | feed | pipe | join | message =>
          refine yields_error (hcontent.resolve_left ?_)
          rintro ⟨y, hy, -⟩
          rw [hserver, hy, hs] at hr'
          cases hr'

theorem yields_sendMessage {feedName : Str} {x : Xml} {xs : List Xml} (htable : t.TableOk)
    (hconsumed : Consumed t w.tree used) (h : Sending c failed w)
    (hdetach : (∀ i, reference t request.rootUri x = some (some i) → Detachable t i) ∨ E .destroyed)
    (hfits : Fits env t request.rootUri x ∨ E .pointer ∧ E .assertion)
    (hmissing : Allows c failed w (missing t request.rootUri used (x :: xs)) ∨ E .assertion) :
    Yields (w.sendMessage env request feedName x) (fun w' => MessageSent feedName w w' ∧
      Sending c failed w' ∧ ∃ used', Consumed t w'.tree used' ∧
        (Allows c failed w' (missing t request.rootUri used' xs) ∨ E .assertion)) E := by
  refine (yields_contentOf htable hconsumed h hdetach (hfits.imp Fits.part And.left)
    hmissing).bind ?_
  rintro ⟨w1, part⟩ ⟨htree, hrequests, hsending, used', hconsumed', hallows⟩
  refine (yields_publish hfits).bind fun q hq => yields_pure ?_
  refine ⟨⟨htree, q.address, ?_⟩, hsending.congr rfl rfl, used', hconsumed',
    hallows.imp_left (·.congr rfl rfl)⟩
  show w1.requests ++ _ = _
  rw [hrequests, hq]

theorem yields_sendMessages {feedName : Str} {messages : List Xml} (htable : t.TableOk)
    (hconsumed : Consumed t w.tree used) (h : Sending c failed w)
    (hdetach : (∀ x ∈ messages, ∀ i, reference t request.rootUri x = some (some i) →
      Detachable t i) ∨ E .destroyed)
    (hfits : (∀ x ∈ messages, Fits env t request.rootUri x) ∨ E .pointer ∧ E .assertion)
    (hmissing : Allows c failed w (missing t request.rootUri used messages) ∨ E .assertion) :
    Yields (Work.sendMessages env request feedName messages w) (fun w' => Sending c failed w' ∧
      ∃ requests, Sent (backendName feedName) w.tree w'.tree requests ∧
        w'.requests = w.requests ++ requests) E := by
  induction messages generalizing w used with
  | nil => exact yields_ok ⟨h, [], .nil, (append_nil _).symm⟩
  | cons x xs ih =>
    refine (yields_sendMessage htable hconsumed h (hdetach.imp_left fun h => h x mem_cons_self)
      (hfits.imp_left fun h => h x mem_cons_self) hmissing).bind ?_
    rintro w1 ⟨⟨htree, address, hrequests⟩, hsending, used', hconsumed', hmissing'⟩
    refine (ih hconsumed' hsending (hdetach.imp_left fun h y hy => h y (mem_cons_of_mem _ hy))
      (hfits.imp_left fun h y hy => h y (mem_cons_of_mem _ hy)) hmissing').imp ?_
    rintro w' ⟨hsending', requests, hsent, hrequests'⟩
    refine ⟨hsending', .addressPost address (backendName feedName) :: requests, ?_, ?_⟩
    · rcases htree with htree | ⟨i, content, hcontent, hd⟩
      · rw [← htree]
        exact .plain hsent
      · exact .used hcontent hd hsent
    · rw [hrequests', hrequests, append_assoc]
      rfl

/-! ## POST -/

/-- The first element is none that has no name. -/
def Named (items : List Xml) : Prop := ∀ value rest, items ≠ .text value :: rest

/-- The resource that a POST on `i` reports for an element of this name, since it is there
already. -/
inductive Known (t : Tree) (i : ResourceId) (request : Request) (name : Str) (attrs : Attrs) :
    ResourceId → Prop
  | feed {k : ResourceId} (hname : name = "feed".toList) (hvalid : Work.feedSpecValid attrs = true)
    (hdomain : t.server i = some .domain) (hnamed : (feedAttr attrs).isEmpty = false)
    (h : t.table (namedPath "feed".toList (feedAttr attrs)) = some k) :
    Known t i request name attrs k
  | join {p : Pipe} {f : ResourceId} {path k : Str} {j : ResourceId} (hname : name = "join".toList)
    (hpipe : t.server i = some (.pipe p))
    (hfeed : t.parseUri request.rootUri ((attrs.get "feed".toList).getD []) = some f)
    (hpath : t.path f = some path)
    (h : p.joins.find? (fun e => e.1 == joinKey ((attrs.get "address".toList).getD "*".toList)
      path) = some (k, j)) : Known t i request name attrs j

/-- The values, but for names and types, that are printed of what a POST on `i` creates. -/
inductive Creates (t : Tree) (i : ResourceId) (request : Request) (name : Str) (attrs : Attrs) :
    Str → Prop
  | pipe (hname : name = "pipe".toList) (hvalid : Work.pipeSpecValid attrs = true)
    (hdomain : t.server i = some .domain) :
    Creates t i request name attrs (cut ((attrs.get "title".toList).getD []))
  | feed {value : Str} (hname : name = "feed".toList) (hvalid : Work.feedSpecValid attrs = true)
    (hdomain : t.server i = some .domain) (hnew : ∀ k, ¬ Known t i request name attrs k)
    (hvalue : value = (newFeed attrs).title ∨ value = (newFeed attrs).license) :
    Creates t i request name attrs value
  | join {p : Pipe} {f : ResourceId} {x : Feed} {feedName : Str} (hname : name = "join".toList)
    (hpipe : t.server i = some (.pipe p))
    (hparse : t.parseUri request.rootUri ((attrs.get "feed".toList).getD []) = some f)
    (hfeed : t.server f = some (.feed x)) (hfeedName : t.name f = some feedName)
    (hdefault : feedName ≠ "default".toList) (hnew : ∀ k, ¬ Known t i request name attrs k) :
    Creates t i request name attrs (cut ((attrs.get "address".toList).getD "*".toList))

/-- What a POST on a domain or a pipe reports can be printed. -/
structure PostPrints (env : Env) (t : Tree) (i : ResourceId) (failed : Bool) (request : Request) :
    Prop where
  created : ∀ name attrs children rest,
    Elements failed request none (.item name attrs children :: rest) →
    ∀ value, Creates t i request name attrs value → Printable env value
  known : ∀ name attrs children rest,
    Elements failed request none (.item name attrs children :: rest) →
    ∀ k, Known t i request name attrs k → Prints env t k

/-- The document of a POST can be parsed, its first element has a name, and what is made of it can
be printed. -/
structure PostParses (env : Env) (t : Tree) (i : ResourceId) (failed : Bool) (request : Request) :
    Prop where
  domain : t.server i = some .domain → (request.contentType = restmsXml → Parses request none) ∧
    ∀ items, Elements failed request none items → Named items
  pipe : ∀ p, t.server i = some (.pipe p) →
    (request.contentType = restmsXml → Parses request none) ∧
    ∀ items, Elements failed request none items → items ≠ [] ∧ Named items
  feed : ∀ f, t.server i = some (.feed f) → request.contentType = restmsXml →
    Parses request (some "message".toList) ∧
    ∀ items, Elements failed request (some "message".toList) items →
      ∀ x ∈ items, Fits env t request.rootUri x
  prints : PostPrints env t i failed request

/-- Nothing that has been destroyed is used when the document of a POST is handled. -/
structure PostReads (t : Tree) (i : ResourceId) (failed : Bool) (request : Request) : Prop where
  known : ∀ name attrs children rest,
    Elements failed request none (.item name attrs children :: rest) →
    ∀ k, Known t i request name attrs k → Reads t k
  contents : ∀ f, t.server i = some (.feed f) →
    ∀ items, Elements failed request (some "message".toList) items →
    ∀ x ∈ items, ∀ k, reference t request.rootUri x = some (some k) → Detachable t k

/-- One reference in the document at most leads nowhere. -/
def PostRefers (t : Tree) (failed : Bool) (request : Request) : Prop :=
  ∀ items, Elements failed request (some "message".toList) items →
    missing t request.rootUri [] items ≤ 1

/-- What a POST does, before the request is answered if it has not been. -/
def Posting (env : Env) (A : Attrs → Prop) (c : ContextId) (w : Work) (i : ResourceId)
    (w' : Work) : Prop :=
  Settled c w' ∧ ∃ requests, Posted env A w.tree i w'.tree requests ∧
    w'.requests = w.requests ++ requests

theorem Posting.of_untouched {w' : Work} (h : Untouched w w') (hsettled : Settled c w') :
    Posting env A c w i w' :=
  ⟨hsettled, [], by rw [h.1]; exact .nothing, by rw [h.2, append_nil]⟩

theorem yields_refused {code : Nat} (h : Open c failed w) (hcode : code ≠ 304 ∧ code ≠ 412) :
    Yields (w.replyError code) (Posting env A c w i) E :=
  (yields_replyError h (C := Plain) fun _ _ => hcode).imp
    fun _ hw' => Posting.of_untouched hw'.2.1 (.inr hw'.1)

theorem yields_added {w1 : Work} {k : ResourceId} {isNew : Bool} {requests : List BackendRequest}
    (h : Open c failed w) (hcontext : w1.context = w.context) (hreplies : w1.replies = w.replies)
    (hposted : Posted env A w.tree i w1.tree requests)
    (hrequests : w1.requests = w.requests ++ requests) (hreads : Reads w1.tree k ∨ E .destroyed)
    (hprints : Prints env w1.tree k ∨ E .pointer ∧ E .assertion)
    (hmessage : ∀ m, w1.tree.server k ≠ some (.message m)) :
    Yields (w1.added env request k isNew) (Posting env A c w i) E := by
  have hopen : Open c failed { w1 with context := { w1.context with
      code := if isNew then 201 else w1.context.code } } := by
    refine ⟨hcontext ▸ h.id, hcontext ▸ h.failed, hcontext ▸ h.replied, hreplies.trans h.replies,
      ?_, hcontext ▸ h.answer⟩
    cases isNew with
    | true => exact (show 201 ≠ 304 ∧ 201 ≠ 412 by decide)
    | false => exact hcontext ▸ h.code
  refine (yields_getResource hopen hreads (hprints.imp_left fun h _ => h)).imp fun w' hgot => ?_
  obtain ⟨huntouched, hsettled⟩ := hgot.settled hmessage
  exact ⟨hsettled, requests, by rw [huntouched.1]; exact hposted, by rw [huntouched.2, hrequests]⟩

theorem pipeType_plain {attrs : Attrs} (h : Work.pipeSpecValid attrs = true) :
    '%' ∉ cut ((attrs.get "type".toList).getD "topic".toList) := by
  refine fun hmem => absurd (mem_of_mem_take hmem) ?_
  cases htype : attrs.get "type".toList with
  | none => decide
  | some type =>
    simp only [Work.pipeSpecValid, htype, any_cons, any_nil, getD_some, Bool.or_false,
      Bool.or_eq_true, beq_iff_eq] at h ⊢
    rcases h with rfl | rfl <;> decide

theorem feedType_plain {attrs : Attrs} (h : Work.feedSpecValid attrs = true) :
    '%' ∉ (newFeed attrs).type := by
  refine fun hmem => absurd (mem_of_mem_take hmem) ?_
  cases htype : attrs.get "type".toList with
  | none => decide
  | some type =>
    simp only [Work.feedSpecValid, htype, any_cons, any_nil, getD_some, Bool.or_false,
      Bool.or_eq_true, beq_iff_eq] at h ⊢
    rcases h with rfl | rfl | rfl | rfl | rfl | rfl | rfl | rfl <;> decide

theorem Prints.sameHeap {maxItems : Nat} (h : Prints env t i) :
    Prints env { t with maxItems := maxItems } i :=
  ⟨h.document, h.headers, h.children⟩

/-- A POST on a domain creates what its document names, or refuses it. -/
theorem yields_postDomain (h : Open c failed w) (hbase : Base env w.tree)
    (hdomain : w.tree.server i = some .domain)
    (hparses : PostParses env w.tree i failed request ∨ E .pointer ∧ E .assertion)
    (hreads : PostReads w.tree i failed request ∨ E .destroyed) :
    Yields (Work.postDomain env w request i) (Posting env (AsksFeed failed request) c w i) E := by
  refine (yields_parseDocument h (hparses.imp (fun h => (h.domain hdomain).1) And.left)).bind ?_
  rintro ⟨w1, _⟩ ⟨⟨huntouched, rfl, hsettled⟩ | ⟨items, heq, hfailed, hparsed⟩, htype⟩
  · exact yields_pure (Posting.of_untouched huntouched hsettled)
  obtain ⟨rfl, rfl⟩ := Prod.mk.inj heq
  have helements : Elements failed request none items := ⟨hfailed, htype nofun, hparsed⟩
  have hlive := live_of_server hdomain
  match items with
  | [] => exact yields_refused h ⟨by decide, by decide⟩
  | .text value :: rest =>
    exact yields_error (hparses.elim
      (fun h => ((h.domain hdomain).2 _ helements value rest rfl).elim) And.left)
  | .item name attrs children :: rest =>
    have hcreated := hparses.imp_left fun h => h.prints.created name attrs children rest helements
    have hknown := hparses.imp_left fun h => h.prints.known name attrs children rest helements
    dsimp only
    split
    · next hname =>
      split
      · next hvalid =>
        refine (yields_createPipe hbase hlive).bind ?_
        rintro ⟨w2, k⟩ ⟨t', hadded, heq⟩
        obtain rfl := heq
        refine yields_added h rfl rfl (.pipe hdomain hadded) rfl (.inl (hadded.reads hbase))
          (hcreated.imp_left fun h => hadded.prints hbase (pipeType_plain hvalid)
            (h _ (.pipe hname hvalid hdomain))) fun m hm => ?_
        obtain ⟨t1, t2, j, a, -, -, ha⟩ := hadded
        obtain ⟨-, ⟨pipe, -, hpipe⟩, -⟩ := ha.views
        rw [hpipe] at hm
        cases hm
      · exact yields_refused h ⟨by decide, by decide⟩
    · split
      · next hfeed =>
        split
        · next hvalid =>
          have hasks : AsksFeed failed request attrs := by
            rw [hfeed] at helements
            exact ⟨⟨children, rest, helements⟩, hvalid⟩
          -- what is new has a title and a license that can be printed
          have htitle := fun hnew => hcreated.imp_left fun h =>
            And.intro (h _ (.feed hfeed hvalid hdomain hnew (.inl rfl)))
              (h _ (.feed hfeed hvalid hdomain hnew (.inr rfl)))
          refine (yields_createFeed hbase hlive).bind fun r hr => ?_
          cases hr with
          | unnamed hname hc =>
            refine yields_added h rfl rfl (.unnamedFeed hasks hdomain hname hc) rfl
              (.inl hc.added.reads_feed) ((htitle fun k hk => ?_).imp_left fun h =>
                hc.added.prints_feed (hashName_plain _) (feedType_plain hvalid) h.1 h.2)
              fun m hm => ?_
            · cases hk with
              | feed _ _ _ hnamed => exact absurd (hname.symm.trans hnamed) (by decide)
              | join _ hpipe => cases hdomain.symm.trans hpipe
            rw [hc.added.server, if_pos rfl] at hm
            cases hm
          | named hname ha hcurrent hfresh =>
            refine yields_added h rfl rfl (.namedFeed hasks hdomain hname ha hcurrent hfresh) rfl
              (.inl ha.reads_feed) ((htitle fun k hk => ?_).imp_left fun h =>
                ha.prints_feed (cleanName_plain _) (feedType_plain hvalid) h.1 h.2) fun m hm => ?_
            · cases hk with
              | feed _ _ _ _ hk =>
                rw [ha.unused] at hk
                cases hk
              | join _ hpipe => cases hdomain.symm.trans hpipe
            rw [ha.server, if_pos rfl] at hm
            cases hm
          | @known k hname hk =>
            have hthere : Known w1.tree i request name attrs k :=
              .feed hfeed hvalid hdomain hname hk
            have hreads' : Reads w1.tree k ∨ E .destroyed := hreads.imp_left fun h =>
              h.known name attrs children rest helements k hthere
            refine yields_added h rfl rfl .known (append_nil _).symm hreads'
              (hknown.imp_left fun h => (h k hthere).sameHeap) fun m hm => ?_
            obtain ⟨f, hf⟩ := hbase.classes.feeds (feedAttr attrs) k hk
            have hbare := bare_of_server (t := w1.tree) hm
            rw [hf] at hbare
            cases hbare
        · exact yields_refused h ⟨by decide, by decide⟩
      · exact yields_refused h ⟨by decide, by decide⟩

/-- The key is cut off before the address that it is made from is. -/
theorem joinKey_cut (address path : Str) : joinKey (cut address) path = joinKey address path := by
  rw [joinKey, joinKey, append_assoc, append_assoc]
  rcases Nat.le_total address.length shortstrMax with hle | hle
  · rw [show cut address = address from take_of_length_le hle]
  · have hkept : shortstrMax - 1 ≤ (cut address).length := by
      rw [cut, length_take]
      exact Nat.le_trans (Nat.sub_le _ _) (le_min le_rfl hle)
    have hshort : shortstrMax - 1 ≤ address.length := Nat.le_trans (Nat.sub_le _ _) hle
    show (cut address ++ _).take (shortstrMax - 1) = (address ++ _).take (shortstrMax - 1)
    rw [take_append_of_le_length hkept, take_append_of_le_length hshort, cut, take_take,
      Nat.min_eq_left (Nat.sub_le _ _)]

/-- A POST on a pipe creates a join, or refuses it. -/
theorem yields_postPipe {r : Resource} {p : Pipe} (h : Open c failed w) (hbase : Base env w.tree)
    (hr : w.tree.heap i = some r) (hpipe : r.server = .pipe p)
    (hparses : PostParses env w.tree i failed request ∨ E .pointer ∧ E .assertion)
    (hreads : PostReads w.tree i failed request ∨ E .destroyed) :
    Yields (Work.postPipe env w request i r p) (Posting env (AsksFeed failed request) c w i) E := by
  have hserver : w.tree.server i = some (.pipe p) := by rw [server_of_heap hr, hpipe]
  refine (yields_parseDocument h (hparses.imp (fun h => (h.pipe p hserver).1) And.left)).bind ?_
  rintro ⟨w1, _⟩ ⟨⟨huntouched, rfl, hsettled⟩ | ⟨items, heq, hfailed, hparsed⟩, htype⟩
  · exact yields_pure (Posting.of_untouched huntouched hsettled)
  obtain ⟨rfl, rfl⟩ := Prod.mk.inj heq
  have helements : Elements failed request none items := ⟨hfailed, htype nofun, hparsed⟩
  match items with
  | [] => exact yields_error (hparses.elim
      (fun h => absurd rfl ((h.pipe p hserver).2 _ helements).1) And.left)
  | .text value :: rest => exact yields_error (hparses.elim
      (fun h => (((h.pipe p hserver).2 _ helements).2 value rest rfl).elim) And.left)
  | .item name attrs children :: rest =>
    dsimp only
    split
    · next hname =>
      cases hparse : w1.tree.parseUri request.rootUri ((attrs.get "feed".toList).getD []) with
      | none => exact yields_refused h ⟨by decide, by decide⟩
      | some feed =>
        have hlive := live_of_parseUri hbase.table hparse
        refine (yields_get (.inl hlive)).bind fun f hf => ?_
        have hfserver := server_of_heap hf
        cases hs : f.server with
        | feed feedServer =>
          rw [hs] at hfserver
          cases hfind : p.joins.find? fun e =>
              e.1 == joinKey ((attrs.get "address".toList).getD "*".toList) f.path with
          | some e =>
            obtain ⟨k, j⟩ := e
            have hknown : Known w1.tree i request name attrs j :=
              .join hname hserver hparse (views hf).2.2.2.1 hfind
            have hreads' := hreads.imp_left fun h =>
              h.known name attrs children rest helements j hknown
            have hprints := hparses.imp_left fun h (_ : Displays w1.tree j) =>
              h.prints.known name attrs children rest helements j hknown
            refine (yields_getResource h hreads' hprints).imp fun w' hgot => ?_
            have hentry : (k, j) ∈ w1.tree.joins i := by
              rw [joins_of_server hserver]
              exact mem_of_find?_eq_some hfind
            obtain ⟨huntouched, hsettled⟩ := hgot.settled fun m hm => by
              obtain ⟨x, hx⟩ := (hbase.classes.entries i (k, j) hentry).2 _ (bare_of_server hm)
              cases hx
            exact Posting.of_untouched huntouched hsettled
          | none =>
            dsimp only
            split
            · exact yields_refused h ⟨by decide, by decide⟩
            · next hdefault =>
              have hnew : ∀ k, ¬ Known w1.tree i request name attrs k := by
                rintro k (⟨_, _, hdomain, _⟩ | ⟨_, hpipe', hparse', hpath', hfind'⟩)
                · cases hserver.symm.trans hdomain
                · cases hserver.symm.trans hpipe'
                  cases hparse.symm.trans hparse'
                  cases hpath'.symm.trans (views hf).2.2.2.1
                  cases hfind.symm.trans hfind'
              refine (yields_enterJoin hbase (.inl (live_of_server hserver)) hlive).bind ?_
              rintro ⟨t', j⟩ hadded
              have hjoin : t'.server j = some (.join _) :=
                server_eq_join.mpr ((hadded.views.2.2.1 j).trans (if_pos rfl))
              refine yields_added (w := w1) h rfl rfl (.join ⟨rfl, rfl⟩ hserver hfserver
                (views hr).2.2.2.2.1 (views hf).2.2.2.2.1 hdefault (views hf).2.2.2.1 ?_ hadded)
                rfl (.inl (hadded.reads hlive)) (hparses.imp_left fun h => hadded.prints
                  (h.prints.created name attrs children rest helements _ (.join hname hserver hparse
                    hfserver (views hf).2.2.2.2.1 hdefault hnew))) fun m hm => ?_
              · intro e he
                rw [joinKey_cut]
                simpa using find?_eq_none.mp hfind e he
              · have hne := hjoin.symm.trans hm
                cases hne
        | domain | pipe | join | message | content => exact yields_refused h ⟨by decide, by decide⟩
    · exact yields_refused h ⟨by decide, by decide⟩

theorem yields_postFeed {r : Resource} {f : Feed} (h : Open c failed w) (hbase : Base env w.tree)
    (hr : w.tree.heap i = some r) (hfeed : r.server = .feed f)
    (hparses : PostParses env w.tree i failed request ∨ E .pointer ∧ E .assertion)
    (hreads : PostReads w.tree i failed request ∨ E .destroyed)
    (hrefers : PostRefers w.tree failed request ∨ E .assertion) :
    Yields (Work.postFeed env w request i r) (Posting env (AsksFeed failed request) c w i) E := by
  have hserver : w.tree.server i = some (.feed f) := by rw [server_of_heap hr, hfeed]
  unfold Work.postFeed
  split
  · next htype =>
    refine (yields_xmlParse h (hparses.imp (fun h => (h.feed f hserver htype).1) And.left)).bind ?_
    rintro ⟨w1, _⟩ (⟨huntouched, rfl, hsettled⟩ | ⟨items, heq, hfailed, hparsed⟩)
    · exact yields_pure (Posting.of_untouched huntouched hsettled)
    obtain ⟨rfl, rfl⟩ := Prod.mk.inj heq
    have helements : Elements failed request (some "message".toList) items :=
      ⟨hfailed, htype, hparsed⟩
    refine (yields_sendMessages hbase.table (.refl _) (.inl h)
      (hreads.imp_left fun h => h.contents f hserver items helements)
      (hparses.imp_left fun h => (h.feed f hserver htype).2 items helements)
      (hrefers.imp_left fun h' => ?_)).imp fun w' hw' => ?_
    · exact (Nat.le_one_iff_eq_zero_or_eq_one.mp (h' items helements)).imp id fun hn => ⟨hn, h⟩
    · obtain ⟨hsending, requests, hsent, hrequests⟩ := hw'
      exact ⟨hsending.imp_left fun h => ⟨failed, h⟩, requests,
        .messages hserver (views hr).2.2.2.2.1 hsent, hrequests⟩
  · refine (yields_create hbase.fresh (.inl (live_of_server hserver)) (.inl hbase.names)).bind
      fun ⟨t', k⟩ hc => ?_
    have hopen : Open c failed { w with tree := t' } := h.congr rfl rfl
    refine (yields_replySuccess hopen (C := Plain) fun _ _ => ⟨by decide, by decide⟩).imp
      fun w' hw' => ?_
    refine ⟨.inr hw'.1, [], ?_, ?_⟩
    · rw [hw'.2.1]
      exact .content hserver hc
    · rw [hw'.2.2, append_nil]

/-- What a POST on a resource does. -/
def PostDone (env : Env) (c : ContextId) (failed : Bool) (w : Work) (request : Request)
    (i : ResourceId) (w' : Work) : Prop :=
  Closed c Plain w' ∧ ∃ requests, Posted env (AsksFeed failed request) w.tree i w'.tree requests ∧
    w'.requests = w.requests ++ requests

theorem yields_post (h : Open c failed w) (hbase : Base env w.tree) (hlive : w.tree.Live i)
    (hparses : PostParses env w.tree i failed request ∨ E .pointer ∧ E .assertion)
    (hreads : PostReads w.tree i failed request ∨ E .destroyed)
    (hrefers : PostRefers w.tree failed request ∨ E .assertion) :
    Yields (Work.post env w request i) (PostDone env c failed w request i) E := by
  refine (yields_get (.inl hlive)).bind fun r hr => ?_
  have hfinish : ∀ w1, Posting env (AsksFeed failed request) c w i w1 →
      Yields w1.finish (PostDone env c failed w request i) E := by
    rintro w1 ⟨hsettled, requests, hposted, hrequests⟩
    refine (yields_finish hsettled).imp fun w' hw' => ⟨hw'.1, requests, ?_, ?_⟩
    · rw [hw'.2.1]
      exact hposted
    · rw [hw'.2.2, hrequests]
  cases hs : r.server with
  | domain =>
    exact (yields_postDomain h hbase (by rw [server_of_heap hr, hs]) hparses hreads).bind hfinish
  | feed f => exact (yields_postFeed h hbase hr hs hparses hreads hrefers).bind hfinish
  | pipe p => exact (yields_postPipe h hbase hr hs hparses hreads).bind hfinish
  | join | message | content => exact (yields_refused h ⟨by decide, by decide⟩).bind hfinish

/-! ## Any request -/

def Target (t : Tree) (request : Request) (i : ResourceId) : Prop :=
  Work.checkPath request.pathinfo = true ∧ t.lookup request.pathinfo = some i

/-- The resources that a GET or a POST uses are live. -/
structure RequestReads (t : Tree) (request : Request) : Prop where
  get : request.method = .get → ∀ i, Target t request i → Modified t i request → Reads t i
  post : request.method = .post → ∀ i, Target t request i → PostReads t i request.failed request

/-- The document of a PUT or a POST can be taken apart, and that which a GET or a POST is answered
with can be printed. -/
structure RequestParses (env : Env) (t : Tree) (request : Request) : Prop where
  get : request.method = .get → ∀ i, Target t request i → Modified t i request → Displays t i →
    Prints env t i
  put : request.method = .put → ∀ i, Target t request i → ¬ Unmodified t i request →
    PutParses t request i
  post : request.method = .post → ∀ i, Target t request i →
    PostParses env t i request.failed request

/-- The resources that a DELETE uses are live. -/
def RequestDeletes (t : Tree) (request : Request) : Prop :=
  request.method = .delete → ∀ i, Target t request i → ¬ Unmodified t i request →
    Deletes t request.failed i

/-- A document that is posted has one reference at most that leads nowhere. -/
def RequestRefers (t : Tree) (request : Request) : Prop :=
  request.method = .post → PostRefers t request.failed request

inductive Handled (env : Env) (c : ContextId) (w : Work) (request : Request) (w' : Work) : Prop
  | answered (hmethod : ∀ i, Target w.tree request i → request.method ≠ .get ∧
      request.method ≠ .put ∧ request.method ≠ .delete ∧ request.method ≠ .post)
    (huntouched : Untouched w w') (hclosed : Closed c Plain w')
  | get {i : ResourceId} (hmethod : request.method = .get) (htarget : Target w.tree request i)
    (h : GetDone env c w request i w')
  | put {i : ResourceId} (hmethod : request.method = .put) (htarget : Target w.tree request i)
    (h : PutDone c w request i w')
  | delete {i : ResourceId} (hmethod : request.method = .delete)
    (htarget : Target w.tree request i) (h : DeleteDone c request.failed w request i w')
  | post {i : ResourceId} (hmethod : request.method = .post) (htarget : Target w.tree request i)
    (h : PostDone env c request.failed w request i w')

theorem yields_target {P : Work → Prop} {done : ResourceId → Except Fault Work}
    {missing : Except Fault Work}
    (hrefused : (∀ i, ¬ Target w.tree request i) → Yields (w.replyError 400) P E)
    (hmissing : (∀ i, ¬ Target w.tree request i) → Yields missing P E)
    (hdone : ∀ i, Target w.tree request i → Yields (done i) P E) :
    Yields (if Work.checkPath request.pathinfo = true then
        match w.tree.lookup request.pathinfo with
        | some i => done i
        | none => missing
      else w.replyError 400) P E := by
  split
  · next hcheck =>
    cases hlookup : w.tree.lookup request.pathinfo with
    | none => exact hmissing fun i hi => nomatch hlookup.symm.trans hi.2
    | some i => exact hdone i ⟨hcheck, hlookup⟩
  · next hcheck => exact hrefused fun i hi => hcheck hi.1

theorem yields_handle (h : Open c request.failed w) (hbase : Base env w.tree)
    (hreads : RequestReads w.tree request ∨ E .destroyed)
    (hparses : RequestParses env w.tree request ∨ E .pointer ∧ E .assertion)
    (hdeletes : RequestDeletes w.tree request ∨ ∀ e, E e)
    (hrefers : RequestRefers w.tree request ∨ E .assertion) :
    Yields (w.handle env request) (Handled env c w request) E := by
  have hlive : ∀ {i}, Target w.tree request i → w.tree.Live i := fun htarget =>
    hbase.table.live htarget.2
  -- no resource: an error, or nothing to delete
  have herror : ∀ code, code ≠ 304 ∧ code ≠ 412 → (∀ i, ¬ Target w.tree request i) →
      Yields (w.replyError code) (Handled env c w request) E := fun _ hcode hnone =>
    (yields_replyError h (C := Plain) fun _ _ => hcode).imp
      fun w' hw' => .answered (fun i hi => absurd hi (hnone i)) hw'.2.1 hw'.1
  have hrefused := herror 400 ⟨by decide, by decide⟩
  have hmissing := herror 404 ⟨by decide, by decide⟩
  unfold Work.handle
  cases hmethod : request.method with
  | head | move | copy =>
    refine (yields_replyError h (C := Plain) fun _ _ => ⟨by decide, by decide⟩).imp
      fun w' hw' => .answered (fun i _ => ?_) hw'.2.1 hw'.1
    rw [hmethod]
    exact ⟨nofun, nofun, nofun, nofun⟩
  | get =>
    exact yields_target hrefused hmissing fun i htarget =>
      (yields_getRequest h (hlive htarget) (hreads.imp_left fun h => h.get hmethod i htarget)
        (hparses.imp_left fun h => h.get hmethod i htarget)).imp
          fun w' hw' => .get hmethod htarget hw'
  | put =>
    exact yields_target hrefused hmissing fun i htarget =>
      (yields_putRequest h (hlive htarget)
        (hparses.imp (fun h => h.put hmethod i htarget) And.left)).imp
          fun w' hw' => .put hmethod htarget hw'
  | delete =>
    refine yields_target hrefused (fun hnone => ?_) fun i htarget =>
      (yields_deleteRequest h (hlive htarget) (hdeletes.imp_left fun h => h hmethod i htarget)).imp
        fun w' hw' => .delete hmethod htarget hw'
    exact (yields_replySuccess h (C := Plain) fun _ _ => ⟨by decide, by decide⟩).imp
      fun w' hw' => .answered (fun i hi => absurd hi (hnone i)) hw'.2 hw'.1
  | post =>
    exact yields_target hrefused hmissing fun i htarget =>
      (yields_post h hbase (hlive htarget) (hparses.imp_left fun h => h.post hmethod i htarget)
        (hreads.imp_left fun h => h.post hmethod i htarget)
        (hrefers.imp_left fun h => h hmethod)).imp fun w' hw' => .post hmethod htarget hw'

end OpenAmq.Zyre
