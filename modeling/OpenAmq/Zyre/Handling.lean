import OpenAmq.Zyre.Changes

/-!
# How requests are handled

Each of the functions that handle a request is described once: what it does to the tree, what it
sends to the backend, whether and how the request is answered, and when it can fail. What can
fail is left to a predicate on faults: a function does not run into a fault when the resources
it uses are live and the document is one it can take.

* `Open`, `Closed` — a request before and after its answer
* `Got`, `PutDone`, `DeleteDone`, `Posted` — what the methods do
* `yields_get`, `yields_putRequest`, `yields_deleteRequest`, `yields_post` — and that they do
-/

namespace OpenAmq.Zyre

open OpenAmq.Lib OpenAmq.Zyre.Tree Work Option List

variable {env : Env} {E : Fault → Prop} {c : ContextId} {failed : Bool} {request : Request}

/-! ## Replies -/

/-- What is sent as the code and the body of a reply. -/
abbrev ReplySpec := Nat → Answer → Prop

/-- A reply that neither tells of a precondition nor of an unchanged document. -/
def Plain : ReplySpec := fun code _ => code ≠ 304 ∧ code ≠ 412

def NoDocument (answer : Answer) : Prop := ∀ d e, answer ≠ .document d e

/-- Nothing has been sent for the request `c`. -/
structure Open (c : ContextId) (failed : Bool) (w : Work) : Prop where
  id : w.context.id = c
  failed : w.context.failed = failed
  replied : w.context.replied = false
  replies : w.replies = []
  code : w.context.code ≠ 304 ∧ w.context.code ≠ 412
  answer : NoDocument w.context.answer

/-- The request `c` has been answered as `C` tells. -/
structure Closed (c : ContextId) (C : ReplySpec) (w : Work) : Prop where
  replied : w.context.replied = true
  replies : ∃ code answer, C code answer ∧ w.replies = [⟨c, code, answer⟩]

/-- The request has been answered, or will be when its handling ends. -/
def Settled (c : ContextId) (w : Work) : Prop := (∃ failed, Open c failed w) ∨ Closed c Plain w

/-- The tree is as before, and the backend has been sent nothing. -/
def Untouched (w w' : Work) : Prop := w'.tree = w.tree ∧ w'.requests = w.requests

variable {C : ReplySpec} {w : Work} {code : Nat} {item : Option Str} {i : ResourceId}
  {accept : Str} {t : Tree}

theorem Open.congr {w' : Work} (h : Open c failed w) (hcontext : w'.context = w.context)
    (hreplies : w'.replies = w.replies) : Open c failed w' :=
  ⟨hcontext ▸ h.id, hcontext ▸ h.failed, hcontext ▸ h.replied, hreplies.trans h.replies,
    hcontext ▸ h.code, hcontext ▸ h.answer⟩

theorem Closed.mono {C' : ReplySpec} (h : Closed c C w)
    (hC : ∀ code answer, C code answer → C' code answer) : Closed c C' w := by
  obtain ⟨hreplied, code, answer, hcode, hreplies⟩ := h
  exact ⟨hreplied, code, answer, hC code answer hcode, hreplies⟩

theorem Closed.reply (h : Closed c C w) :
    ∃ reply, w.replies = [reply] ∧ reply.context = c ∧ C reply.code reply.answer := by
  obtain ⟨-, code, answer, hcode, hreplies⟩ := h
  exact ⟨_, hreplies, rfl, hcode⟩

theorem Closed.mem (h : Closed c C w) {reply : Reply} (hreply : reply ∈ w.replies) :
    C reply.code reply.answer := by
  obtain ⟨_, hreplies, -, hcode⟩ := h.reply
  rw [hreplies, mem_singleton] at hreply
  exact hreply ▸ hcode

theorem yields_replyError (h : Open c failed w) (hC : ∀ answer, NoDocument answer → C code answer) :
    Yields (w.replyError code) (fun w' => Closed c C w' ∧ Untouched w w' ∧
      w'.context.failed = true) E := by
  unfold replyError reply
  rw [h.replied, if_neg Bool.false_ne_true, h.id, h.replies]
  exact yields_ok ⟨⟨rfl, _, _, hC _ h.answer, rfl⟩, ⟨rfl, rfl⟩, rfl⟩

theorem yields_replySuccess (h : Open c failed w)
    (hC : ∀ answer, NoDocument answer → C code answer) :
    Yields (w.replySuccess code) (fun w' => Closed c C w' ∧ Untouched w w') E := by
  unfold replySuccess reply
  rw [h.replied, if_neg Bool.false_ne_true, h.id, h.replies]
  exact yields_ok ⟨⟨rfl, _, _, hC _ h.answer, rfl⟩, rfl, rfl⟩

theorem yields_finish (h : Settled c w) :
    Yields w.finish (fun w' => Closed c Plain w' ∧ Untouched w w') E := by
  unfold finish
  rcases h with ⟨_, hopen⟩ | hclosed
  · rw [hopen.replied, if_neg Bool.false_ne_true]
    exact yields_replySuccess hopen fun _ _ => ⟨by decide, by decide⟩
  · rw [hclosed.replied, if_pos rfl]
    exact yields_ok ⟨hclosed, rfl, rfl⟩

/-! ## Documents that are received -/

/-- The document of the request has no text where an element is expected. -/
def Parses (request : Request) (item : Option Str) : Prop := ∃ r, parsed request item = .ok r

/-- What a parser leaves behind: a reply at most, or the elements of the document. -/
def Parsing (c : ContextId) (failed : Bool) (w : Work) (request : Request) (item : Option Str)
    (r : Work × Option (List Xml)) : Prop :=
  Untouched w r.1 ∧ r.2 = none ∧ Settled c r.1 ∨ ∃ items, r = (w, some items) ∧ failed = false ∧
      parsed request item = .ok (.ok items)

theorem yields_parsed (request : Request) (item : Option Str) : Yields (parsed request item)
    (fun r => ∀ code, r = .error code → code = 400 ∨ code = 413) (· = .pointer) := by
  have hrefused : ∀ {n : Nat}, n = 400 ∨ n = 413 → ∀ code,
      (.error n : Except Nat (List Xml)) = .error code → code = 400 ∨ code = 413 := by
    rintro n h code ⟨⟩
    exact h
  unfold parsed
  split
  · split
    · exact hrefused (.inr rfl)
    · split
      · exact hrefused (.inl rfl)
      · exact hrefused (.inl rfl)
      · exact rfl
      · split
        · exact hrefused (.inl rfl)
        · split
          · exact nofun
          · exact hrefused (.inl rfl)
          · exact rfl
          · split
            · exact hrefused (.inl rfl)
            · exact nofun
  · exact nofun

theorem parsed_code (h : parsed request item = .ok (.error code)) : code = 400 ∨ code = 413 :=
  (yields_parsed request item).of_ok h code rfl

theorem yields_xmlParse (h : Open c failed w) (hparses : Parses request item ∨ E .pointer) :
    Yields (w.xmlParse request item) (Parsing c failed w request item) E := by
  unfold xmlParse
  cases hparsed : parsed request item with
  | error e =>
    obtain rfl := (yields_parsed request item).of_error hparsed
    refine yields_error (hparses.resolve_left fun ⟨r, hr⟩ => ?_)
    rw [hr] at hparsed
    cases hparsed
  | ok r =>
    cases r with
    | error code =>
      refine (yields_replyError h (C := Plain) fun _ _ => ?_).bind
        fun w' hw' => yields_pure (.inl ⟨hw'.2.1, rfl, .inr hw'.1⟩)
      rcases parsed_code hparsed with rfl | rfl <;> exact ⟨by decide, by decide⟩
    | ok items =>
      refine yields_pure ?_
      cases failed with
      | true =>
        rw [h.failed]
        exact .inl ⟨⟨rfl, rfl⟩, rfl, .inl ⟨_, h⟩⟩
      | false =>
        rw [h.failed]
        exact .inr ⟨items, rfl, rfl, hparsed⟩

/-- `application/restms+xml` -/
def restmsXml : Str := "application/restms+xml".toList

theorem yields_parseDocument (h : Open c failed w)
    (hparses : (request.contentType = restmsXml → Parses request item) ∨ E .pointer) :
    Yields (w.parseDocument request item) (fun r => Parsing c failed w request item r ∧
      (r.2 ≠ none → request.contentType = restmsXml)) E := by
  unfold parseDocument
  split
  · next htype =>
    exact (yields_xmlParse h (hparses.imp_left fun h => h htype)).imp
      fun _ h => ⟨h, fun _ => htype⟩
  · exact (yields_replyError h (C := Plain) fun _ _ =>
      ⟨by decide, by decide⟩).bind fun w' hw' =>
        yields_pure ⟨.inl ⟨hw'.2.1, rfl, .inr hw'.1⟩, fun h => absurd rfl h⟩

/-! ## GET -/

/-- The document of a resource as a GET with the given Accept header is answered with it. -/
def Shows (env : Env) (t : Tree) (i : ResourceId) (rootUri accept : Str) (d : Xml) (tag : Str) :
    Prop :=
  ∃ r, t.heap i = some r ∧ documentOf env t rootUri r = .ok d ∧
    tag = etag r (t.tableIndex r) accept

/-- A reply that has no document or the one of the resource. -/
def ShowsOnly (env : Env) (t : Tree) (i : ResourceId) (rootUri accept : Str) : ReplySpec :=
  fun code answer => Plain code answer ∧ ∀ d tag, answer = .document d tag →
    Shows env t i rootUri accept d tag

/-- The context waits in the message `i` for a delivery. -/
def HeldAt (t t' : Tree) (i : ResourceId) (waiting : Waiting) : Prop :=
  ∃ message, t.server i = some (.message message) ∧ message.pending = true ∧
    ServerSet t t' i (.message { message with context := some waiting })

def Awaited (t : Tree) (i : ResourceId) : Prop :=
  ∃ message, t.server i = some (.message message) ∧ message.pending = true

/-- A GET on the resource is answered with its document. -/
def Displays (t : Tree) (i : ResourceId) : Prop :=
  ¬ Awaited t i ∧ ∀ content, t.server i ≠ some (.content content)

/-- What `getResource` does: an answer, perhaps still to be sent, or one when a message comes. -/
def Got (env : Env) (c : ContextId) (w : Work) (i : ResourceId) (rootUri accept : Str)
    (w' : Work) : Prop :=
  ¬ Awaited w.tree i ∧ Untouched w w' ∧ ((∃ failed, Open c failed w') ∨
    Closed c (ShowsOnly env w.tree i rootUri accept) w') ∨
  w'.context.replied = true ∧ w'.replies = [] ∧ w'.requests = w.requests ∧
    HeldAt w.tree w'.tree i ⟨c, rootUri, accept⟩

theorem yields_replyDocument {r : Resource} {rootUri : Str} (h : Open c failed w)
    (hr : w.tree.heap i = some r) (hreads : Reads w.tree i ∨ E .destroyed)
    (hprints : Prints env w.tree i ∨ E .pointer ∧ E .assertion)
    (hcontent : ∀ content, r.server ≠ .content content) :
    Yields (w.replyDocument env rootUri accept r) (fun w' =>
      Closed c (ShowsOnly env w.tree i rootUri accept) w' ∧ Untouched w w') E := by
  have hends : Yields (documentOf env w.tree rootUri r) (fun _ => True) E :=
    yields_documentOf hr hreads hprints hcontent
  refine (hends.and_ok (Q := fun d => documentOf env w.tree rootUri r = .ok d)
    fun _ h => h).bind fun d ⟨_, hd⟩ => ?_
  unfold reply
  dsimp only
  rw [h.replied, if_neg Bool.false_ne_true, h.id, h.replies]
  refine yields_ok ⟨⟨rfl, _, _, ⟨h.code, fun d' tag ht => ?_⟩, rfl⟩, rfl, rfl⟩
  obtain ⟨rfl, rfl⟩ := Answer.document.inj ht
  exact ⟨r, hr, hd, rfl⟩

theorem yields_getResource (h : Open c failed w) (hreads : Reads w.tree i ∨ E .destroyed)
    (hprints : (Displays w.tree i → Prints env w.tree i) ∨ E .pointer ∧ E .assertion) :
    Yields (w.getResource env request accept i) (Got env c w i request.rootUri accept) E := by
  refine (yields_get (hreads.imp_left fun h => h.1.1)).bind fun r hr => ?_
  have hserver := server_of_heap hr
  have hsent : ¬ Awaited w.tree i → (∀ content, r.server ≠ .content content) →
      Yields (w.replyDocument env request.rootUri accept r)
        (Got env c w i request.rootUri accept) E :=
    fun hnot hcontent => (yields_replyDocument h hr hreads (hprints.imp_left fun h => h ⟨hnot,
      fun content hc => hcontent content (some.inj (hserver.symm.trans hc))⟩) hcontent).imp
        fun _ hw => .inl ⟨hnot, hw.2, .inr hw.1⟩
  have hnot : (∀ message, r.server ≠ .message message) → ¬ Awaited w.tree i := by
    rintro hother ⟨message, hm, -⟩
    exact hother message (some.inj (hserver.symm.trans hm))
  cases hs : r.server with
  | content content =>
    refine yields_pure (.inl ⟨hnot fun _ h => ?_, ⟨rfl, rfl⟩, .inl ⟨failed, h.id, h.failed,
      h.replied, h.replies, h.code, ?_⟩⟩)
    · rw [hs] at h
      cases h
    · intro d tag
      cases content.bucket <;> nofun
  | message message =>
    rw [hs] at hserver
    dsimp only
    split
    · next hpending =>
      unfold hold replyVoid
      rw [h.replied, if_neg Bool.false_ne_true, h.id]
      refine (yields_setServer (.inl (live_of_server hserver)) _).bind fun t' ht' => yields_pure ?_
      exact .inr ⟨rfl, h.replies, rfl, message, hserver, hpending, ht'⟩
    · next hpending =>
      refine hsent ?_ fun content => by rw [hs]; nofun
      rintro ⟨message', hm, hpending'⟩
      obtain rfl := Server.message.inj (some.inj (hserver.symm.trans hm))
      exact hpending hpending'
  | domain | feed | pipe | join =>
    exact hsent (hnot fun _ => by rw [hs]; nofun) fun content => by rw [hs]; nofun

theorem Got.settled {w' : Work} {rootUri : Str} (h : Got env c w i rootUri accept w')
    (hmessage : ∀ m, w.tree.server i ≠ some (.message m)) : Untouched w w' ∧ Settled c w' := by
  rcases h with ⟨_, huntouched, hopen | hclosed⟩ | ⟨_, _, _, m, hm, _⟩
  · exact ⟨huntouched, .inl hopen⟩
  · exact ⟨huntouched, .inr (hclosed.mono fun _ _ h => h.1)⟩
  · exact absurd hm (hmessage m)

def GetDone (env : Env) (c : ContextId) (w : Work) (request : Request) (i : ResourceId)
    (w' : Work) : Prop :=
  ∃ r, w.tree.heap i = some r ∧
    (modified r (w.tree.tableIndex r) request.conditions = false ∧ Untouched w w' ∧
        Closed c (fun code answer => code = 304 ∧ NoDocument answer) w' ∨
      modified r (w.tree.tableIndex r) request.conditions = true ∧
        (¬ Awaited w.tree i ∧ Untouched w w' ∧
          Closed c (ShowsOnly env w.tree i request.rootUri request.conditions.accept) w' ∨
        w'.context.replied = true ∧ w'.replies = [] ∧ w'.requests = w.requests ∧
          HeldAt w.tree w'.tree i ⟨c, request.rootUri, request.conditions.accept⟩))

/-- A GET on the resource `i` finds it modified. -/
def Modified (t : Tree) (i : ResourceId) (request : Request) : Prop :=
  ∃ r, t.heap i = some r ∧ modified r (t.tableIndex r) request.conditions = true

theorem yields_getRequest (h : Open c failed w) (hlive : w.tree.Live i)
    (hreads : (Modified w.tree i request → Reads w.tree i) ∨ E .destroyed)
    (hprints : (Modified w.tree i request → Displays w.tree i → Prints env w.tree i) ∨
      E .pointer ∧ E .assertion) :
    Yields (w.get env request i) (GetDone env c w request i) E := by
  refine (yields_get (.inl hlive)).bind fun r hr => ?_
  split
  · next hmodified =>
    have hreads := hreads.imp_left fun h => h ⟨r, hr, hmodified⟩
    have hprints := hprints.imp_left fun h => h ⟨r, hr, hmodified⟩
    refine (yields_getResource h hreads hprints).bind fun w1 hgot => ?_
    rcases hgot with ⟨hnot, huntouched, ⟨failed', hopen⟩ | hclosed⟩ | hheld
    · unfold finish
      rw [hopen.replied, if_neg Bool.false_ne_true]
      refine (yields_replySuccess hopen fun answer hanswer => ?_).imp
        fun w' hw' => ⟨r, hr, .inr ⟨hmodified, .inl ⟨hnot, ?_, hw'.1⟩⟩⟩
      · exact ⟨⟨by decide, by decide⟩, fun d tag hd => absurd hd (hanswer d tag)⟩
      · exact ⟨hw'.2.1.trans huntouched.1, hw'.2.2.trans huntouched.2⟩
    · unfold finish
      rw [hclosed.replied, if_pos rfl]
      exact yields_ok ⟨r, hr, .inr ⟨hmodified, .inl ⟨hnot, huntouched, hclosed⟩⟩⟩
    · unfold finish
      rw [hheld.1, if_pos rfl]
      exact yields_ok ⟨r, hr, .inr ⟨hmodified, .inr hheld⟩⟩
  · next hmodified =>
    refine (yields_replyError h fun answer hanswer => ⟨rfl, hanswer⟩).imp
      fun w' hw' => ⟨r, hr, .inl ⟨by simpa using hmodified, hw'.2.1, hw'.1⟩⟩

/-! ## PUT -/

/-- Another title or license of a feed, or another title of a pipe. -/
inductive Retitled : Server → Server → Prop
  | feed {f : Feed} (title license : Str) :
    Retitled (.feed f) (.feed { f with title := title, license := license })
  | pipe {p : Pipe} (title : Str) : Retitled (.pipe p) (.pipe { p with title := title })

theorem Retitled.sameClass {s s' : Server} (h : Retitled s s') : SameClass s s' := by
  cases h with
  | feed => exact ⟨rfl, rfl⟩
  | pipe => exact rfl

/-- A PUT or a DELETE on the resource `i` finds it unmodified. -/
def Unmodified (t : Tree) (i : ResourceId) (request : Request) : Prop :=
  ∃ r, t.heap i = some r ∧ unmodified r (t.tableIndex r) request.conditions = true

/-- A reply to a PUT or a DELETE that tells of a precondition just when the resource is
unmodified. -/
def Conditional (t : Tree) (i : ResourceId) (request : Request) : ReplySpec := fun code _ =>
  code ≠ 304 ∧ (code = 412 ↔ Unmodified t i request)

theorem conditional_of_plain {answer : Answer} (hunmodified : ¬ Unmodified t i request)
    (h : Plain code answer) : Conditional t i request code answer :=
  ⟨h.1, iff_of_false h.2 hunmodified⟩

/-- A title has been changed, or nothing. -/
def TitleSet (t t' : Tree) (i : ResourceId) : Prop :=
  t' = t ∨ ∃ s s', t.server i = some s ∧ Retitled s s' ∧ ServerSet t t' i s'

def PutParses (t : Tree) (request : Request) (i : ResourceId) : Prop :=
  request.contentLength ≠ 0 → request.contentType = restmsXml →
    (∀ f, t.server i = some (.feed f) → f.dynamic = true → Parses request (some "feed".toList)) ∧
    (∀ p, t.server i = some (.pipe p) → Parses request (some "pipe".toList))

theorem yields_putDocument {s : Server} {type : String} {change : Attrs → Server}
    (h : Open c failed w) (hs : w.tree.server i = some s)
    (hchange : ∀ attrs, Retitled s (change attrs))
    (hparses : (request.contentLength ≠ 0 → request.contentType = restmsXml →
      Parses request (some type.toList)) ∨ E .pointer)
    :
    Yields (w.putDocument request i type change) (fun w' => Settled c w' ∧
      w'.requests = w.requests ∧ TitleSet w.tree w'.tree i) E := by
  unfold putDocument
  split
  · exact (yields_replySuccess h (C := Plain) fun _ _ => ⟨by decide, by decide⟩).imp
      fun w' hw' => ⟨.inr hw'.1, hw'.2.2, .inl hw'.2.1⟩
  · next hlength =>
    refine (yields_parseDocument h (hparses.imp_left fun h => h hlength)).bind ?_
    rintro ⟨w1, _⟩ ⟨⟨huntouched, rfl, hsettled⟩ | ⟨items, heq, _, _⟩, -⟩
    · exact yields_pure ⟨hsettled, huntouched.2, .inl huntouched.1⟩
    · obtain ⟨rfl, rfl⟩ := Prod.mk.inj heq
      refine (yields_setServer (.inl (live_of_server hs)) _).bind fun t' ht' => yields_pure ?_
      exact ⟨.inl ⟨failed, h.congr rfl rfl⟩, rfl, .inr ⟨s, _, hs, hchange _, ht'⟩⟩

theorem yields_putResource (h : Open c failed w) (hlive : w.tree.Live i)
    (hparses : PutParses w.tree request i ∨ E .pointer) :
    Yields (w.putResource request i) (fun w' => Settled c w' ∧ w'.requests = w.requests ∧
      TitleSet w.tree w'.tree i) E := by
  refine (yields_get (.inl hlive)).bind fun r hr => ?_
  have hserver := server_of_heap hr
  have hrefused : Yields (w.replyError 403) (fun w' => Settled c w' ∧ w'.requests = w.requests ∧
      TitleSet w.tree w'.tree i) E :=
    (yields_replyError h (C := Plain) fun _ _ => ⟨by decide, by decide⟩).imp
      fun w' hw' => ⟨.inr hw'.1, hw'.2.1.2, .inl hw'.2.1.1⟩
  cases hs : r.server with
  | feed f =>
    rw [hs] at hserver
    dsimp only
    split
    · next hdynamic =>
      exact yields_putDocument h hserver (fun attrs => .feed _ _)
        (hparses.imp_left fun h hlength htype => (h hlength htype).1 f hserver hdynamic)
    · exact hrefused
  | pipe p =>
    rw [hs] at hserver
    exact yields_putDocument h hserver (fun attrs => .pipe _)
      (hparses.imp_left fun h hlength htype => (h hlength htype).2 p hserver)
  | domain | join | message | content => exact hrefused

def PutDone (c : ContextId) (w : Work) (request : Request) (i : ResourceId) (w' : Work) : Prop :=
  Closed c (Conditional w.tree i request) w' ∧ w'.requests = w.requests ∧ TitleSet w.tree w'.tree i

theorem yields_putRequest (h : Open c failed w) (hlive : w.tree.Live i)
    (hparses : (¬ Unmodified w.tree i request → PutParses w.tree request i) ∨ E .pointer) :
    Yields (w.putRequest request i) (PutDone c w request i) E := by
  refine (yields_get (.inl hlive)).bind fun r hr => ?_
  split
  · next hunmodified =>
    exact (yields_replyError h (C := Conditional w.tree i request) fun _ _ =>
      ⟨by decide, iff_of_true rfl ⟨r, hr, hunmodified⟩⟩).imp
        fun w' hw' => ⟨hw'.1, hw'.2.1.2, .inl hw'.2.1.1⟩
  · next hmodified =>
    have hnot : ¬ Unmodified w.tree i request := by
      rintro ⟨r', hr', h⟩
      obtain rfl := some.inj (hr.symm.trans hr')
      exact hmodified h
    refine (yields_putResource h hlive (hparses.imp_left fun h => h hnot)).bind fun w1 hw1 => ?_
    refine (yields_finish hw1.1).imp fun w' hw' => ⟨?_, ?_, ?_⟩
    · exact hw'.1.mono fun _ _ => conditional_of_plain hnot
    · exact hw'.2.2.trans hw1.2.1
    · rw [hw'.2.1]
      exact hw1.2.2

/-! ## DELETE -/

/-- What is done before a resource is destroyed, with what the backend is told. -/
inductive Deleting (t : Tree) (i : ResourceId) : Tree → List BackendRequest → Prop
  | feed {f : Feed} {t' : Tree} {requests : List BackendRequest} (h : t.server i = some (.feed f))
    (hdynamic : f.dynamic = true) (hjoins : JoinsDeleted i t t' requests) :
    Deleting t i t' (requests ++ [.feedDelete ((t.name i).getD [])])
  | pipe {p : Pipe} {t' : Tree} {requests : List BackendRequest} (h : t.server i = some (.pipe p))
    (hjoins : JoinsDeleted i t t' requests) :
    Deleting t i t' (requests ++ [.pipeDelete ((t.name i).getD [])])
  | join {x : Join} {t' : Tree} (h : t.server i = some (.join x)) (hdynamic : x.dynamic = true)
    (hunlisted : Unlisted t t' x) : Deleting t i t' (joinDeleted t x)
  | message {m : Message} (h : t.server i = some (.message m)) : Deleting t i t []
  | content {x : Content} (h : t.server i = some (.content x)) : Deleting t i t []

/-- The resource may have children. -/
def Parental : Server → Prop
  | .join _ | .content _ => False
  | _ => True

/-- A resource can be taken out of the list of its parent, if it has one. -/
def Detachable (t : Tree) (i : ResourceId) : Prop :=
  t.Live i ∧ ∀ p, t.parent i = some p → ∃ s, t.bare p = some s ∧ Parental s

/-- Nothing that has been destroyed is used when the resource is deleted. -/
structure Deletes (t : Tree) (failed : Bool) (i : ResourceId) : Prop where
  detachable : failed = false → Detachable t i
  feed : ∀ f, t.server i = some (.feed f) → f.dynamic = true → Sound true t i
  pipe : ∀ p, t.server i = some (.pipe p) → Sound false t i
  join : ∀ x, t.server i = some (.join x) → x.dynamic = true → t.Live x.pipe ∧ t.Live x.feed

theorem JoinsDeleted.bare {o : ResourceId} {t' : Tree} {requests : List BackendRequest}
    (h : JoinsDeleted o t t' requests) {k : ResourceId} (hk : ∀ x, t.bare k ≠ some (.join x)) :
    t'.bare k = t.bare k ∧ t'.parent k = t.parent k := by
  induction h with
  | done => exact ⟨rfl, rfl⟩
  | @next t t1 t2 t' _ j rest join requests hjoins hjoin hu hr hrest ih =>
    have hkj : k ≠ j := by
      rintro rfl
      exact hk join (server_eq_join.mp hjoin)
    have hbare : t2.bare k = t.bare k := by rw [hr.bare, if_neg hkj, hu.bare]
    have hparent : t2.parent k = t.parent k := by rw [hr.parent, if_neg hkj, hu.sameShape.parent]
    obtain ⟨h1, h2⟩ := ih fun x => by rw [hbare]; exact hk x
    exact ⟨h1.trans hbare, h2.trans hparent⟩

theorem Deleting.attached {t' : Tree} {requests : List BackendRequest}
    (h : Deleting t i t' requests) (hi : Detachable t i) : t'.Attached i := by
  have hjoins : ∀ {s : Server} {requests : List BackendRequest}, t.bare i = some s →
      Parental s → JoinsDeleted i t t' requests → t'.Attached i := by
    intro s requests hs hparental hdeleted
    obtain ⟨hbare, hparent⟩ := hdeleted.bare (k := i) fun x hx => by
      obtain rfl := some.inj (hs.symm.trans hx)
      exact hparental
    refine ⟨live_iff_bare.mpr ⟨s, hbare.trans hs⟩, fun p hp => ?_⟩
    obtain ⟨s', hs', hparental'⟩ := hi.2 p (hparent.symm.trans hp)
    have hbare' := (hdeleted.bare (k := p) fun x hx => by
      obtain rfl := some.inj (hs'.symm.trans hx)
      exact hparental').1
    exact live_iff_bare.mpr ⟨s', hbare'.trans hs'⟩
  have hsame : t'.bare = t.bare → t'.parent = t.parent → t'.Attached i := by
    intro hbare hparent
    refine ⟨live_iff_bare.mpr ?_, fun p hp => live_iff_bare.mpr ?_⟩
    · rw [hbare]
      exact live_iff_bare.mp hi.1
    · rw [hparent] at hp
      rw [hbare]
      obtain ⟨s, hs, -⟩ := hi.2 p hp
      exact ⟨s, hs⟩
  cases h with
  | feed h _ hdeleted | pipe h hdeleted => exact hjoins (bare_of_server h) trivial hdeleted
  | join _ _ hu => exact hsame hu.bare hu.sameShape.parent
  | message | content => exact hsame rfl rfl

/-- Clients cannot delete the domain, and no feeds and joins that are not dynamic. -/
def Lasting : Server → Prop
  | .domain => True
  | .feed f => f.dynamic = false
  | .join x => x.dynamic = false
  | _ => False

/-- The resource stays when clients delete it. -/
def Lasts (t : Tree) (i : ResourceId) : Prop := ∃ s, t.server i = some s ∧ Lasting s

/-- The resource goes, or the request has been answered with an error. -/
def DeletingOrRefused (c : ContextId) (failed : Bool) (w : Work) (i : ResourceId) (w' : Work) :
    Prop :=
  Lasts w.tree i ∧ Untouched w w' ∧ Closed c Plain w' ∧ w'.context.failed = true ∨
    Open c failed w' ∧ ∃ requests, Deleting w.tree i w'.tree requests ∧
      w'.requests = w.requests ++ requests

/-- A resource is deleted, with what goes with it, or the request is refused. -/
theorem yields_deleteResource (h : Open c failed w) (hlive : w.tree.Live i)
    (hdeletes : Deletes w.tree failed i ∨ ∀ e, E e) :
    Yields (w.deleteResource i) (DeletingOrRefused c failed w i) E := by
  refine (yields_get (.inl hlive)).bind fun r hr => ?_
  have hserver := server_of_heap hr
  have hname : (w.tree.name i).getD [] = r.name := by rw [(views hr).2.2.2.2.1]; rfl
  have hrefused : Lasting r.server →
      Yields (w.replyError 403) (DeletingOrRefused c failed w i) E := fun hlasting =>
    (yields_replyError h (C := Plain) fun _ _ => ⟨by decide, by decide⟩).imp
      fun w' hw' => .inl ⟨⟨_, hserver, hlasting⟩, hw'.2.1, hw'.1, hw'.2.2⟩
  cases hs : r.server with
  | domain => exact hrefused (by rw [hs]; trivial)
  | feed f =>
    rw [hs] at hserver
    dsimp only
    split
    · next hdynamic =>
      refine (yields_deleteJoins
        (hdeletes.imp_left fun h => ⟨h.feed f hserver hdynamic, ?_⟩)).bind ?_
      · rw [joins_of_server hserver]
        exact le_rfl
      · rintro w' ⟨t', requests, hdeleted, rfl⟩
        refine yields_pure (.inr ⟨h.congr rfl rfl, _, .feed hserver hdynamic hdeleted, ?_⟩)
        rw [hname]
        exact append_assoc ..
    · next hdynamic =>
      refine hrefused ?_
      rw [hs]
      exact Bool.eq_false_iff.mpr hdynamic
  | pipe p =>
    rw [hs] at hserver
    refine (yields_deleteJoins (hdeletes.imp_left fun h => ⟨h.pipe p hserver, ?_⟩)).bind ?_
    · rw [joins_of_server hserver]
      exact le_rfl
    · rintro w' ⟨t', requests, hdeleted, rfl⟩
      refine yields_pure (.inr ⟨h.congr rfl rfl, _, .pipe hserver hdeleted, ?_⟩)
      rw [hname]
      exact append_assoc ..
  | join x =>
    rw [hs] at hserver
    by_cases hdynamic : x.dynamic = true
    · refine (yields_joinDelete hserver (by rw [hdynamic]; rfl)
        (hdeletes.imp (fun h => (h.join x hserver hdynamic).1) fun h => h _)
        (hdeletes.imp (fun h => (h.join x hserver hdynamic).2) fun h => h _)).imp ?_
      rintro w' ⟨t', hunlisted, rfl⟩
      exact .inr ⟨h.congr rfl rfl, _, .join hserver hdynamic hunlisted, rfl⟩
    · unfold joinDelete
      refine (yields_get (.inl hlive)).bind fun r' hr' => ?_
      obtain rfl := some.inj (hr.symm.trans hr')
      rw [hs]
      dsimp only
      rw [if_neg (by simpa using hdynamic)]
      refine hrefused ?_
      rw [hs]
      exact Bool.eq_false_iff.mpr hdynamic
  | message m =>
    rw [hs] at hserver
    exact yields_pure (.inr ⟨h, [], .message hserver, (append_nil _).symm⟩)
  | content x =>
    rw [hs] at hserver
    exact yields_pure (.inr ⟨h, [], .content hserver, (append_nil _).symm⟩)

/-- What a DELETE on a resource does. After a failed request on the same connection the resource
stays and there is no reply. -/
def DeleteDone (c : ContextId) (failed : Bool) (w : Work) (request : Request) (i : ResourceId)
    (w' : Work) : Prop :=
  (Unmodified w.tree i request ∨ Lasts w.tree i) ∧ Untouched w w' ∧
      Closed c (Conditional w.tree i request) w' ∨
    ¬ Unmodified w.tree i request ∧ ∃ t1 requests, Deleting w.tree i t1 requests ∧
      w'.requests = w.requests ++ requests ∧
      (failed = true ∧ Open c failed w' ∧ w'.tree = t1 ∨
        failed = false ∧ Closed c (Conditional w.tree i request) w' ∧ Discarded t1 w'.tree i)

theorem yields_deleteRequest (h : Open c failed w) (hlive : w.tree.Live i)
    (hdeletes : (¬ Unmodified w.tree i request → Deletes w.tree failed i) ∨ ∀ e, E e) :
    Yields (w.deleteRequest request i) (DeleteDone c failed w request i) E := by
  refine (yields_get (.inl hlive)).bind fun r hr => ?_
  split
  · next hunmodified =>
    exact (yields_replyError h (C := Conditional w.tree i request) fun _ _ =>
      ⟨by decide, iff_of_true rfl ⟨r, hr, hunmodified⟩⟩).imp
        fun w' hw' => .inl ⟨.inl ⟨r, hr, hunmodified⟩, hw'.2.1, hw'.1⟩
  · next hmodified =>
    have hnot : ¬ Unmodified w.tree i request := by
      rintro ⟨r', hr', h⟩
      obtain rfl := some.inj (hr.symm.trans hr')
      exact hmodified h
    have hdeletes := hdeletes.imp_left fun h => h hnot
    refine (yields_deleteResource h hlive hdeletes).bind fun w1 hw1 => ?_
    rcases hw1 with ⟨hlasts, huntouched, hclosed, hfailed⟩ | ⟨hopen, requests, hdeleting, hrequests⟩
    · rw [hfailed, if_pos rfl]
      exact yields_ok (.inl ⟨.inr hlasts, huntouched,
        hclosed.mono fun _ _ => conditional_of_plain hnot⟩)
    · rw [hopen.failed]
      cases failed with
      | true =>
        exact yields_ok (.inr ⟨hnot, _, requests, hdeleting, hrequests, .inl ⟨rfl, hopen, rfl⟩⟩)
      | false =>
        refine (yields_discard (hdeletes.imp (fun h => hdeleting.attached (h.detachable rfl))
          fun h => h _)).bind fun t2 hd => ?_
        have hopen2 : Open c false { w1 with tree := t2 } := hopen.congr rfl rfl
        refine (yields_replySuccess hopen2 (C := Conditional w.tree i request) fun _ _ =>
          conditional_of_plain hnot ⟨by decide, by decide⟩).imp fun w' hw' => ?_
        refine .inr ⟨hnot, w1.tree, requests, hdeleting, hw'.2.2.trans hrequests,
          .inr ⟨rfl, hw'.1, ?_⟩⟩
        rw [hw'.2.1]
        exact hd

end OpenAmq.Zyre
