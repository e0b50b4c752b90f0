import OpenAmq.Zyre.Conditional

/-!
# Requests on one connection

All requests of a connection are handled with one driver context, which `http_driver_context_init`
prepares for each of them. It does not touch `failed`: a GET that is answered with 304 leaves the
flag set, and the connection open.

* `Grows` — the flag is set only with an error reply
* `ReadsFailed` — the requests that look at the flag
* `Connection.step` — a connection, and all that happens on the others
* `requests_independent` — requests are independent unless one that looks at the flag follows a 304
-/

namespace OpenAmq.Zyre

open OpenAmq.Lib OpenAmq.Zyre.Tree List

variable {env : Env} {w w' : Work} {request : Request} {i : ResourceId}

/-! ## What sets the flag -/

/-- The code of a reply that `http_driver_context_reply_error` sends. -/
def ErrorCode (code : Nat) : Prop := code = 304 ∨ 400 ≤ code

/-- The replies are kept, and the flag has been set only with an error reply. -/
structure Grows (w w' : Work) : Prop where
  replies : w.replies ⊆ w'.replies
  failed : w'.context.failed = true →
    w.context.failed = true ∨ ∃ reply ∈ w'.replies, ErrorCode reply.code

theorem Grows.refl (w : Work) : Grows w w := ⟨List.Subset.refl _, Or.inl⟩

theorem Grows.trans {w1 w2 w3 : Work} (h1 : Grows w1 w2) (h2 : Grows w2 w3) : Grows w1 w3 := by
  refine ⟨List.Subset.trans h1.replies h2.replies, fun hfailed => ?_⟩
  rcases h2.failed hfailed with hfailed | hreply
  · refine (h1.failed hfailed).imp_right ?_
    rintro ⟨reply, hmem, hcode⟩
    exact ⟨reply, h2.replies hmem, hcode⟩
  · exact Or.inr hreply

/-- Whatever the program ends with has grown from `w`. -/
def GrowsTo (w : Work) (x : Except Fault Work) : Prop := Yields x (Grows w) fun _ => True

theorem yields_any {α : Type} (x : Except Fault α) : Yields x (fun _ => True) fun _ => True := by
  cases x <;> trivial

theorem GrowsTo.trans {x : Except Fault Work} (h : GrowsTo w' x) (hw : Grows w w') : GrowsTo w x :=
  h.imp fun _ h => hw.trans h

theorem growsTo_pure (h : Grows w w') : GrowsTo w (pure w') := h

theorem Grows.of_eq (hreplies : w'.replies = w.replies)
    (hfailed : w'.context.failed = w.context.failed) : Grows w w' := by
  refine ⟨hreplies ▸ List.Subset.refl _, fun h => Or.inl ?_⟩
  rwa [hfailed] at h

theorem growsTo_reply (w : Work) : GrowsTo w w.reply := by
  unfold Work.reply
  split
  · trivial
  · exact ⟨subset_append_left _ _, Or.inl⟩

variable {code : Nat} {item : Option Str}

theorem growsTo_replyError (w : Work) (hcode : ErrorCode code) : GrowsTo w (w.replyError code) := by
  unfold Work.replyError Work.reply
  split
  · trivial
  · exact ⟨subset_append_left _ _, fun _ => Or.inr ⟨_, mem_append_right _
      (mem_singleton_self _), hcode⟩⟩

theorem growsTo_replySuccess (w : Work) (code : Nat) : GrowsTo w (w.replySuccess code) :=
  (growsTo_reply _).trans (.of_eq rfl rfl)

theorem growsTo_replyVoid (w : Work) : GrowsTo w w.replyVoid := by
  unfold Work.replyVoid
  split
  · trivial
  · exact Grows.of_eq rfl rfl

theorem errorCode_of_parsed (h : Work.parsed request item = .ok (.error code)) :
    ErrorCode code := by
  rcases parsed_code h with rfl | rfl <;> exact Or.inr (by decide)

theorem growsTo_xmlParse (w : Work) (request : Request) (item : Option Str) :
    Yields (w.xmlParse request item) (fun r => Grows w r.1) fun _ => True := by
  unfold Work.xmlParse
  cases hparsed : Work.parsed request item with
  | error e => trivial
  | ok r =>
    cases r with
    | error code =>
      exact (growsTo_replyError w (errorCode_of_parsed hparsed)).bind fun _ h => yields_pure h
    | ok items => exact Grows.refl w

theorem growsTo_parseDocument (w : Work) (request : Request) (item : Option Str) :
    Yields (w.parseDocument request item) (fun r => Grows w r.1) fun _ => True := by
  unfold Work.parseDocument
  split
  · exact growsTo_xmlParse w request item
  · exact (growsTo_replyError w (Or.inr (by decide))).bind fun _ h => yields_pure h

theorem growsTo_finish (w : Work) : GrowsTo w w.finish := by
  unfold Work.finish
  split
  · exact Grows.refl w
  · exact growsTo_replySuccess w 200

theorem growsTo_getResource (w : Work) (request : Request) (accept : Str) (i : ResourceId) :
    GrowsTo w (w.getResource env request accept i) := by
  have hdocument : ∀ r, GrowsTo w (w.replyDocument env request.rootUri accept r) := by
    intro r
    refine (yields_any _).bind fun document _ => ?_
    exact (growsTo_reply _).trans (.of_eq rfl rfl)
  refine (yields_any _).bind fun r _ => ?_
  split
  · exact growsTo_pure (.of_eq rfl rfl)
  · split
    · refine (growsTo_replyVoid w).bind fun w' h => ?_
      refine (yields_any _).bind fun tree _ => ?_
      exact growsTo_pure (h.trans (.of_eq rfl rfl))
    · exact hdocument r
  · exact hdocument r

theorem growsTo_get (w : Work) (request : Request) (i : ResourceId) :
    GrowsTo w (w.get env request i) := by
  refine (yields_any _).bind fun r _ => ?_
  split
  · refine (growsTo_getResource w request _ i).bind fun w' h => ?_
    exact (growsTo_finish w').trans h
  · exact growsTo_replyError w (Or.inl rfl)

theorem growsTo_putDocument (w : Work) (request : Request) (i : ResourceId) (type : String)
    (change : Attrs → Server) : GrowsTo w (w.putDocument request i type change) := by
  unfold Work.putDocument
  split
  · exact growsTo_replySuccess w 204
  · refine (growsTo_parseDocument w request _).bind fun r h => ?_
    obtain ⟨w', items⟩ := r
    cases items with
    | none => exact growsTo_pure h
    | some items =>
      refine (yields_any _).bind fun tree _ => ?_
      exact growsTo_pure (h.trans (.of_eq rfl rfl))

theorem growsTo_putRequest (w : Work) (request : Request) (i : ResourceId) :
    GrowsTo w (w.putRequest request i) := by
  have hput : GrowsTo w (w.putResource request i) := by
    refine (yields_any _).bind fun r _ => ?_
    split
    · split
      · exact growsTo_putDocument w request i _ _
      · exact growsTo_replyError w (Or.inr (by decide))
    · exact growsTo_putDocument w request i _ _
    · exact growsTo_replyError w (Or.inr (by decide))
  refine (yields_any _).bind fun r _ => ?_
  split
  · exact growsTo_replyError w (Or.inr (by decide))
  · exact hput.bind fun w' h => (growsTo_finish w').trans h

theorem growsTo_joinDelete (w : Work) (hasContext : Bool) (i : ResourceId) :
    GrowsTo w (w.joinDelete hasContext i) := by
  refine (yields_any _).bind fun r _ => ?_
  split
  · split
    · refine (yields_any _).bind fun pipe _ => (yields_any _).bind fun feed _ => ?_
      refine (yields_any _).bind fun tree _ => (yields_any _).bind fun tree _ => ?_
      split <;> exact growsTo_pure (.of_eq rfl rfl)
    · exact growsTo_replyError w (Or.inr (by decide))
  · trivial

theorem growsTo_deleteJoins (hasContext : Bool) (owner : ResourceId) (fuel : Nat) (w : Work) :
    GrowsTo w (Work.deleteJoins hasContext owner fuel w) := by
  induction fuel generalizing w with
  | zero =>
    unfold Work.deleteJoins
    refine (yields_any _).bind fun r _ => ?_
    split
    · exact growsTo_pure (.refl w)
    · trivial
  | succ fuel ih =>
    unfold Work.deleteJoins
    refine (yields_any _).bind fun r _ => ?_
    split
    · exact growsTo_pure (.refl w)
    · refine (growsTo_joinDelete w hasContext _).bind fun w' h => ?_
      refine (yields_any _).bind fun tree _ => ?_
      exact (ih _).trans (h.trans (.of_eq rfl rfl))

theorem growsTo_deleteRequest (w : Work) (request : Request) (i : ResourceId) :
    GrowsTo w (w.deleteRequest request i) := by
  have hdelete : GrowsTo w (w.deleteResource i) := by
    refine (yields_any _).bind fun r _ => ?_
    split
    · exact growsTo_replyError w (Or.inr (by decide))
    · split
      · refine (growsTo_deleteJoins true i _ w).bind fun w' h => ?_
        exact growsTo_pure (h.trans (.of_eq rfl rfl))
      · exact growsTo_replyError w (Or.inr (by decide))
    · refine (growsTo_deleteJoins false i _ w).bind fun w' h => ?_
      exact growsTo_pure (h.trans (.of_eq rfl rfl))
    · exact growsTo_joinDelete w true i
    · exact growsTo_pure (.refl w)
    · exact growsTo_pure (.refl w)
  refine (yields_any _).bind fun r _ => ?_
  split
  · exact growsTo_replyError w (Or.inr (by decide))
  · refine hdelete.bind fun w' h => ?_
    split
    · exact growsTo_pure h
    · refine (yields_any _).bind fun tree _ => ?_
      exact (growsTo_replySuccess _ 200).trans (h.trans (.of_eq rfl rfl))

theorem growsTo_added (w : Work) (request : Request) (i : ResourceId) (isNew : Bool) :
    GrowsTo w (w.added env request i isNew) :=
  (growsTo_getResource _ request _ i).trans (.of_eq rfl rfl)

theorem growsTo_postDomain (w : Work) (request : Request) (i : ResourceId) :
    GrowsTo w (w.postDomain env request i) := by
  refine (growsTo_parseDocument w request none).bind fun r h => ?_
  obtain ⟨w', items⟩ := r
  have herror : ∀ code, ErrorCode code → GrowsTo w (w'.replyError code) := fun code hcode =>
    (growsTo_replyError w' hcode).trans h
  have hpipe : ∀ attrs, Yields (Work.createPipe env w' request.now i attrs)
      (fun r => Grows w' r.1) fun _ => True := by
    intro attrs
    refine (yields_any _).bind fun r _ => (yields_any _).bind fun _ _ => ?_
    split
    · refine (yields_any _).bind fun r _ => (yields_any _).bind fun tree _ => ?_
      exact yields_pure (.of_eq rfl rfl)
    · trivial
  have hfeed : ∀ attrs, Yields (Work.createFeed env w' request.now i attrs)
      (fun r => Grows w' r.1) fun _ => True := by
    intro attrs
    unfold Work.createFeed
    dsimp only
    split
    · refine (yields_any _).bind fun r _ => (yields_any _).bind fun _ _ => ?_
      exact yields_pure (.of_eq rfl rfl)
    · split
      · exact yields_pure (.of_eq rfl rfl)
      · refine (yields_any _).bind fun r _ => ?_
        exact yields_pure (.of_eq rfl rfl)
  dsimp only
  split
  · exact growsTo_pure h
  · exact herror 400 (Or.inr (by decide))
  · trivial
  · split
    · split
      · refine (hpipe _).bind fun r hr => ?_
        exact (growsTo_added r.1 request r.2 true).trans (h.trans hr)
      · exact herror 403 (Or.inr (by decide))
    · split
      · split
        · refine (hfeed _).bind fun r hr => ?_
          exact (growsTo_added r.1 request r.2.1 r.2.2).trans (h.trans hr)
        · exact herror 403 (Or.inr (by decide))
      · exact herror 403 (Or.inr (by decide))

theorem growsTo_postPipe (w : Work) (request : Request) (i : ResourceId) (r : Resource)
    (pipe : Pipe) : GrowsTo w (w.postPipe env request i r pipe) := by
  refine (growsTo_parseDocument w request none).bind fun parsed h => ?_
  obtain ⟨w', items⟩ := parsed
  have herror : ∀ code, ErrorCode code → GrowsTo w (w'.replyError code) := fun code hcode =>
    (growsTo_replyError w' hcode).trans h
  dsimp only
  split
  · exact growsTo_pure h
  · trivial
  · trivial
  · split
    · split
      · exact herror 404 (Or.inr (by decide))
      · refine (yields_any _).bind fun f _ => ?_
        split
        · split
          · exact (growsTo_getResource w' request _ _).trans h
          · split
            · exact herror 403 (Or.inr (by decide))
            · refine (yields_any _).bind fun r _ => ?_
              exact (growsTo_added _ request r.2 true).trans (h.trans (.of_eq rfl rfl))
        · exact herror 404 (Or.inr (by decide))
    · exact herror 403 (Or.inr (by decide))

theorem growsTo_sendMessage (w : Work) (request : Request) (feedName : Str) (message : Xml) :
    GrowsTo w (w.sendMessage env request feedName message) := by
  have hcontent : Yields (Work.contentOf env request message w) (fun r => Grows w r.1)
      fun _ => True := by
    unfold Work.contentOf
    split
    · exact yields_ok (.refl w)
    · split
      · exact (yields_any _).bind fun part _ => yields_pure (.refl w)
      · split
        · exact (growsTo_replyError w (Or.inr (by decide))).bind fun w' h => yields_pure h
        · refine (yields_any _).bind fun r _ => ?_
          split
          · refine (yields_any _).bind fun part _ => (yields_any _).bind fun tree _ => ?_
            exact yields_pure (.of_eq rfl rfl)
          · trivial
  refine hcontent.bind fun r h => (yields_any _).bind fun published _ => ?_
  exact growsTo_pure (h.trans (.of_eq rfl rfl))

theorem growsTo_sendMessages (request : Request) (feedName : Str) (messages : List Xml) (w : Work) :
    GrowsTo w (Work.sendMessages env request feedName messages w) := by
  induction messages generalizing w with
  | nil => exact Grows.refl w
  | cons message messages ih =>
    exact (growsTo_sendMessage w request feedName message).bind fun w' h => (ih w').trans h

theorem growsTo_postFeed (w : Work) (request : Request) (i : ResourceId) (r : Resource) :
    GrowsTo w (w.postFeed env request i r) := by
  unfold Work.postFeed
  split
  · refine (growsTo_xmlParse w request _).bind fun parsed h => ?_
    obtain ⟨w', items⟩ := parsed
    cases items with
    | none => exact growsTo_pure h
    | some items => exact (growsTo_sendMessages request r.name items w').trans h
  · refine (yields_any _).bind fun tree _ => ?_
    exact (growsTo_replySuccess _ 201).trans (.of_eq rfl rfl)

theorem growsTo_post (w : Work) (request : Request) (i : ResourceId) :
    GrowsTo w (w.post env request i) := by
  refine (yields_any _).bind fun r _ => ?_
  have hfinish : ∀ w', Grows w w' → GrowsTo w w'.finish := fun w' h => (growsTo_finish w').trans h
  split
  · exact (growsTo_postDomain w request i).bind hfinish
  · exact (growsTo_postFeed w request i r).bind hfinish
  · exact (growsTo_postPipe w request i r _).bind hfinish
  · exact (growsTo_replyError w (Or.inr (by decide))).bind hfinish

theorem growsTo_handle (w : Work) (request : Request) : GrowsTo w (w.handle env request) := by
  have herror : ∀ code, 400 ≤ code → GrowsTo w (w.replyError code) := fun _ hcode =>
    growsTo_replyError w (Or.inr hcode)
  have hrefused := fun (_ : ∀ i, ¬ Target w.tree request i) => herror 400 le_rfl
  have hmissing := fun (_ : ∀ i, ¬ Target w.tree request i) => herror 404 (by decide)
  unfold Work.handle
  cases request.method with
  | head | move | copy => exact herror 403 (by decide)
  | get => exact yields_target hrefused hmissing fun i _ => growsTo_get w request i
  | put => exact yields_target hrefused hmissing fun i _ => growsTo_putRequest w request i
  | delete =>
    exact yields_target hrefused (fun _ => growsTo_replySuccess w 200) fun i _ =>
      growsTo_deleteRequest w request i
  | post => exact yields_target hrefused hmissing fun i _ => growsTo_post w request i

/-! ## What looks at the flag -/

/-- The same state, where a request before has set the flag. -/
def Work.mark (failed : Bool) (w : Work) : Work :=
  { w with context := { w.context with failed := failed || w.context.failed } }

/-- The program does the same in both states. -/
def Blind (failed : Bool) (f : Work → Except Fault Work) (w : Work) : Prop :=
  f (w.mark failed) = (f w).map (Work.mark failed)

/-- The element that a document for `put` of the resource must begin with. -/
def Server.putElement : Server → Option Str
  | .feed f => if f.dynamic then some "feed".toList else none
  | .pipe _ => some "pipe".toList
  | _ => none

/-- The element that a document for `post` of the resource must begin with, where it takes one. -/
def Server.postElement : Server → Option (Option Str)
  | .domain | .pipe _ => some none
  | .feed _ => some (some "message".toList)
  | _ => none

/-- `delete` of the resource does not refuse. -/
def Server.deletable : Server → Bool
  | .domain => false
  | .feed f => f.dynamic
  | .join j => j.dynamic
  | .pipe _ | .message _ | .content _ => true

def Documented (request : Request) (item : Option Str) : Prop :=
  request.contentType = "application/restms+xml".toList ∧
    ∃ items, Work.parsed request item = .ok (.ok items)

/--
The request looks at the flag: a PUT or a POST with a document that has been read, and a DELETE
that is not refused.
-/
def ReadsFailed (t : Tree) (request : Request) : Prop :=
  ∃ i r, Target t request i ∧ t.get i = .ok r ∧
    (request.method = .put ∧ unmodified r (t.tableIndex r) request.conditions = false ∧
        request.contentLength ≠ 0 ∧
        (∃ item, r.server.putElement = some item ∧ Documented request (some item)) ∨
      request.method = .delete ∧ unmodified r (t.tableIndex r) request.conditions = false ∧
        r.server.deletable = true ∨
      request.method = .post ∧ ∃ item, r.server.postElement = some item ∧ Documented request item)

section Blind

variable {failed : Bool} {f g : Work → Except Fault Work}

theorem Blind.bind (hf : Blind failed f w) (hg : ∀ w', Blind failed g w') :
    Blind failed (fun w => f w >>= g) w := by
  unfold Blind at hf ⊢
  dsimp only
  rw [hf]
  cases f w with
  | error e => rfl
  | ok w' => exact hg w'

theorem blind_read {α : Type} {x : Work → Except Fault α} {h : α → Work → Except Fault Work}
    (hx : x (w.mark failed) = x w) (hh : ∀ a, x w = .ok a → Blind failed (h a) w) :
    Blind failed (fun w => x w >>= fun a => h a w) w := by
  unfold Blind
  dsimp only
  rw [hx]
  cases hxw : x w with
  | error e => rfl
  | ok a => exact hh a hxw

theorem Blind.comp {h : Work → Work} (hf : Blind failed f (h w))
    (hmark : h (w.mark failed) = (h w).mark failed) : Blind failed (fun w => f (h w)) w := by
  unfold Blind at hf ⊢
  dsimp only
  rw [hmark, hf]

theorem blind_ite {c : Work → Bool} (hc : c (w.mark failed) = c w)
    (hf : c w = true → Blind failed f w) (hg : c w = false → Blind failed g w) :
    Blind failed (fun w => if c w = true then f w else g w) w := by
  unfold Blind at hf hg ⊢
  dsimp only
  rw [hc]
  cases hcw : c w with
  | true => exact hf hcw
  | false => exact hg hcw

theorem blind_reply (w : Work) : Blind failed Work.reply w := by
  unfold Blind Work.reply
  cases hreplied : w.context.replied <;> simp [Work.mark, hreplied, Except.map]

theorem blind_replyError (w : Work) (code : Nat) : Blind failed (Work.replyError · code) w := by
  unfold Blind Work.replyError Work.reply
  cases hreplied : w.context.replied <;> simp [Work.mark, hreplied, Except.map]

theorem blind_replySuccess (w : Work) (code : Nat) : Blind failed (Work.replySuccess · code) w :=
  (blind_reply _).comp rfl

theorem blind_replyVoid (w : Work) : Blind failed Work.replyVoid w := by
  unfold Blind Work.replyVoid
  cases hreplied : w.context.replied <;> simp [Work.mark, hreplied, Except.map]

theorem blind_finish (w : Work) : Blind failed Work.finish w :=
  blind_ite rfl (fun _ => rfl) fun _ => blind_replySuccess w 200

theorem blind_getResource (w : Work) (request : Request) (accept : Str) (i : ResourceId) :
    Blind failed (Work.getResource env · request accept i) w := by
  have hdocument : ∀ r, Blind failed (Work.replyDocument env · request.rootUri accept r) w := by
    intro r
    refine blind_read rfl fun document _ => ?_
    exact (blind_reply _).comp rfl
  refine blind_read rfl fun r _ => ?_
  split
  · rfl
  · split
    · refine (blind_replyVoid w).bind fun w' => ?_
      refine blind_read rfl fun tree _ => ?_
      rfl
    · exact hdocument r
  · exact hdocument r

theorem blind_get (w : Work) (request : Request) (i : ResourceId) :
    Blind failed (Work.get env · request i) w := by
  refine blind_read rfl fun r _ => ?_
  refine blind_ite rfl (fun _ => ?_) fun _ => blind_replyError w 304
  exact (blind_getResource w request _ i).bind blind_finish

theorem xmlParse_refused (hno : ∀ items, Work.parsed request item ≠ .ok (.ok items)) :
    (∃ e, ∀ w : Work, w.xmlParse request item = .error e) ∨
      ∃ code, ∀ w : Work, w.xmlParse request item =
        w.replyError code >>= fun w => pure (w, none) := by
  unfold Work.xmlParse
  cases hparsed : Work.parsed request item with
  | error e => exact Or.inl ⟨e, fun _ => rfl⟩
  | ok r =>
    cases r with
    | error code => exact Or.inr ⟨code, fun _ => rfl⟩
    | ok items => exact absurd hparsed (hno items)

theorem parseDocument_refused (hno : ¬ Documented request item) :
    (∃ e, ∀ w : Work, w.parseDocument request item = .error e) ∨
      ∃ code, ∀ w : Work, w.parseDocument request item =
        w.replyError code >>= fun w => pure (w, none) := by
  unfold Work.parseDocument
  by_cases htype : request.contentType = "application/restms+xml".toList
  · simp only [if_pos htype]
    exact xmlParse_refused fun items hitems => hno ⟨htype, items, hitems⟩
  · simp only [if_neg htype]
    exact Or.inr ⟨400, fun _ => rfl⟩

theorem blind_refused {parse : Work → Except Fault (Work × Option (List Xml))}
    {next : Work × Option (List Xml) → Except Fault Work}
    (hparse : (∃ e, ∀ w, parse w = .error e) ∨
      ∃ code, ∀ w, parse w = w.replyError code >>= fun w => pure (w, none))
    (hnext : ∀ w', next (w', none) = pure w') : Blind failed (fun w => parse w >>= next) w := by
  rcases hparse with ⟨e, herror⟩ | ⟨code, hrefused⟩
  · simp only [herror]
    rfl
  · have hsame : (fun w => parse w >>= next) = (Work.replyError · code) := by
      funext w'
      rw [hrefused]
      cases w'.replyError code with
      | error e => rfl
      | ok w'' => exact hnext w''
    rw [hsame]
    exact blind_replyError w code

theorem blind_putDocument {type : String} {change : Attrs → Server}
    (hno : request.contentLength ≠ 0 → ¬ Documented request (some type.toList)) :
    Blind failed (Work.putDocument · request i type change) w := by
  unfold Work.putDocument
  by_cases hlength : request.contentLength = 0
  · simp only [if_pos hlength]
    exact blind_replySuccess w 204
  · simp only [if_neg hlength]
    exact blind_refused (parseDocument_refused (hno hlength)) fun _ => rfl

theorem blind_putRequest (hno : ∀ r, w.tree.get i = .ok r →
      unmodified r (w.tree.tableIndex r) request.conditions = false → request.contentLength ≠ 0 →
        ∀ item, r.server.putElement = some item → ¬ Documented request (some item)) :
    Blind failed (Work.putRequest · request i) w := by
  refine blind_read rfl fun r hr => ?_
  refine blind_ite rfl (fun _ => blind_replyError w 412) fun hunmodified => ?_
  have hno := hno r hr hunmodified
  refine Blind.bind (f := (Work.putResource · request i)) ?_ blind_finish
  refine blind_read rfl fun r' hr' => ?_
  obtain rfl := Except.ok.inj (hr.symm.trans hr')
  cases hserver : r.server with
  | feed f =>
    rw [hserver] at hno
    by_cases hdynamic : f.dynamic = true
    · simp only [if_pos hdynamic]
      refine blind_putDocument fun hlength => hno hlength _ ?_
      simp [Server.putElement, hdynamic]
    · simp only [if_neg hdynamic]
      exact blind_replyError w 403
  | pipe p =>
    rw [hserver] at hno
    exact blind_putDocument fun hlength => hno hlength _ rfl
  | domain | join | message | content => exact blind_replyError w 403

theorem deleteResource_refused {r : Resource} (hr : w.tree.get i = .ok r)
    (hno : r.server.deletable = false) : w.deleteResource i = w.replyError 403 := by
  simp only [Work.deleteResource, hr, bind, Except.bind]
  cases hserver : r.server with
  | domain => rfl
  | feed f =>
    have hdynamic : f.dynamic = false := by simpa [hserver, Server.deletable] using hno
    simp [hdynamic]
  | join j =>
    have hdynamic : j.dynamic = false := by simpa [hserver, Server.deletable] using hno
    simp [Work.joinDelete, hr, hserver, hdynamic, bind, Except.bind]
  | pipe | message | content => simp [hserver, Server.deletable] at hno

theorem replyError_failed (h : w.replyError code = .ok w') : w'.context.failed = true := by
  unfold Work.replyError Work.reply at h
  split at h
  · cases h
  · exact Except.ok.inj h ▸ rfl

theorem blind_deleteRequest (hno : ∀ r, w.tree.get i = .ok r →
      unmodified r (w.tree.tableIndex r) request.conditions = false → r.server.deletable = false) :
    Blind failed (Work.deleteRequest · request i) w := by
  refine blind_read rfl fun r hr => ?_
  refine blind_ite rfl (fun _ => blind_replyError w 412) fun hunmodified => ?_
  have hrefused : ∀ v : Work, v.tree = w.tree → (do
      let self ← v.deleteResource i
      if self.context.failed then return self
      let tree ← Work.discard self.tree i
      { self with tree := tree }.replySuccess 200) = v.replyError 403 := by
    intro v htree
    rw [deleteResource_refused (htree ▸ hr) (hno r hr hunmodified)]
    cases hreply : v.replyError 403 with
    | error e => rfl
    | ok v' =>
      show (if v'.context.failed = true then _ else _) = _
      rw [replyError_failed hreply, if_pos rfl]
      rfl
  unfold Blind
  dsimp only
  rw [hrefused (w.mark failed) rfl, hrefused w rfl]
  exact blind_replyError w 403

theorem blind_post (hno : ∀ r, w.tree.get i = .ok r →
      ∀ item, r.server.postElement = some item → ¬ Documented request item) :
    Blind failed (Work.post env · request i) w := by
  refine blind_read rfl fun r hr => ?_
  have hno := hno r hr
  cases hserver : r.server with
  | domain =>
    rw [hserver] at hno
    refine Blind.bind (f := (Work.postDomain env · request i)) ?_ blind_finish
    exact blind_refused (parseDocument_refused (hno none rfl)) fun _ => rfl
  | pipe p =>
    rw [hserver] at hno
    refine Blind.bind (f := (Work.postPipe env · request i r p)) ?_ blind_finish
    exact blind_refused (parseDocument_refused (hno none rfl)) fun _ => rfl
  | feed f =>
    rw [hserver] at hno
    have hno := hno _ rfl
    refine Blind.bind (f := (Work.postFeed env · request i r)) ?_ blind_finish
    unfold Work.postFeed
    by_cases htype : request.contentType = "application/restms+xml".toList
    · simp only [if_pos htype]
      refine blind_refused (xmlParse_refused fun items hitems => ?_) fun _ => rfl
      exact hno ⟨htype, items, hitems⟩
    · simp only [if_neg htype]
      refine blind_read rfl fun tree _ => ?_
      exact (blind_replySuccess _ 201).comp rfl
  | join | message | content =>
    exact Blind.bind (f := (Work.replyError · 403)) (blind_replyError w 403) blind_finish

theorem blind_target {done : Work → ResourceId → Except Fault Work}
    {missing : Work → Except Fault Work} (hmissing : Blind failed missing w)
    (hdone : ∀ i, Target w.tree request i → Blind failed (done · i) w) :
    Blind failed (fun w =>
      if Work.checkPath request.pathinfo = true then
        match w.tree.lookup request.pathinfo with
        | some i => done w i
        | none => missing w
      else w.replyError code) w := by
  refine blind_ite rfl (fun hcheck => ?_) fun _ => blind_replyError w code
  have hmark : (w.mark failed).tree.lookup request.pathinfo = w.tree.lookup request.pathinfo := rfl
  unfold Blind
  dsimp only
  rw [hmark]
  cases hlookup : w.tree.lookup request.pathinfo with
  | none => exact hmissing
  | some i => exact hdone i ⟨hcheck, hlookup⟩

theorem blind_handle (hno : ¬ ReadsFailed w.tree request) :
    Blind failed (Work.handle env · request) w := by
  unfold Work.handle
  cases hmethod : request.method with
  | head | move | copy => exact blind_replyError w 403
  | get => exact blind_target (blind_replyError w 404) fun i _ => blind_get w request i
  | put =>
    refine blind_target (blind_replyError w 404) fun i htarget => ?_
    refine blind_putRequest fun r hr hunmodified hlength item hitem hdocument => hno ?_
    exact ⟨i, r, htarget, hr, Or.inl ⟨hmethod, hunmodified, hlength, item, hitem, hdocument⟩⟩
  | delete =>
    refine blind_target (blind_replySuccess w 200) fun i htarget => ?_
    refine blind_deleteRequest fun r hr hunmodified => ?_
    by_contra hdeletable
    exact hno ⟨i, r, htarget, hr, Or.inr (Or.inl ⟨hmethod, hunmodified, by simpa using hdeletable⟩)⟩
  | post =>
    refine blind_target (blind_replyError w 404) fun i htarget => ?_
    refine blind_post fun r hr item hitem hdocument => hno ?_
    exact ⟨i, r, htarget, hr, Or.inr (Or.inr ⟨hmethod, item, hitem, hdocument⟩)⟩

/-! ## The flag in a request -/

theorem sendMessages_failed (w : Work) (feedName : Str) (messages : List Xml) :
    Work.sendMessages env { request with failed := failed } feedName messages w =
      Work.sendMessages env request feedName messages w := by
  induction messages generalizing w with
  | nil => rfl
  | cons message messages ih =>
    unfold Work.sendMessages
    simp only [ih]
    rfl

theorem postFeed_failed (w : Work) (i : ResourceId) (r : Resource) :
    w.postFeed env { request with failed := failed } i r = w.postFeed env request i r := by
  unfold Work.postFeed
  simp only [sendMessages_failed]
  rfl

theorem handle_failed (w : Work) (request : Request) (failed : Bool) :
    w.handle env { request with failed := failed } = w.handle env request := by
  unfold Work.handle Work.post
  simp only [postFeed_failed]
  rfl

end Blind

/-! ## Connections -/

/-- Whether the next request of a connection is read. -/
inductive ConnectionPhase where
  | ready
  /-- The context waits for a message; the client may wish to keep the connection open. -/
  | waiting (context : ContextId) (keepAlive : Bool)
  | closed
deriving DecidableEq

/-- A connection, with the server that it is a connection to. -/
structure Connection where
  server : State
  /-- `context->failed` -/
  failed : Bool
  phase : ConnectionPhase
  /-- The codes that its requests have been answered with -/
  codes : List Nat

/-- What happens on the connection, and elsewhere in the server. -/
inductive ConnectionEvent where
  | request (request : Request) (keepAlive : Bool)
  | other (event : Event)

namespace Connection

/-- A connection before its first request. -/
def new (server : State) : Connection := ⟨server, false, .ready, []⟩

/-- After a reply the connection is kept open if the client wishes so, and there is no error. -/
def phaseAfter (keepAlive : Bool) (codes : List Nat) : ConnectionPhase :=
  if keepAlive ∧ ∀ code ∈ codes, code < 400 then .ready else .closed

/-- The connection after a request of its own has been handled. -/
def handled (self : Connection) (keepAlive : Bool) (work : Work) : Connection where
  server := { self.server with tree := work.tree, requests := self.server.requests + 1 }
  failed := work.context.failed
  phase :=
    if work.replies = [] then .waiting work.context.id keepAlive
    else phaseAfter keepAlive (work.replies.map Reply.code)
  codes := self.codes ++ work.replies.map Reply.code

/-- The connection after an event elsewhere, which can be what its context waits for. -/
def overtaken (self : Connection) (out : Outcome) : Connection :=
  match self.phase with
  | .waiting context keepAlive =>
    let codes := (out.replies.filter fun reply => reply.context = context).map Reply.code
    { self with
      server := out.state
      phase := if codes = [] then self.phase else phaseAfter keepAlive codes
      codes := self.codes ++ codes }
  | _ => { self with server := out.state }

/-- One event, `none` for a fault. What is sent while no request is read has no effect. -/
def step (env : Env) (self : Connection) : ConnectionEvent → Option Connection
  | .request request keepAlive =>
    if self.phase = .ready then
      let request := { request with failed := self.failed }
      ((self.server.work request).handle env request).toOption.map (self.handled keepAlive)
    else some self
  | .other event => (Zyre.step env self.server event).toOption.map self.overtaken

/-- No request that looks at the flag follows a 304. -/
def Spares (self : Connection) : ConnectionEvent → Prop
  | .request request _ =>
    self.phase = .ready → 304 ∈ self.codes → ¬ ReadsFailed self.server.tree request
  | .other _ => True

/-- The request has the effect and the replies that it has on a new connection. -/
def Independent (env : Env) (self : Connection) (request : Request) : Prop :=
  Zyre.step env self.server (.request { request with failed := self.failed }) =
    Zyre.step env self.server (.request { request with failed := false })

end Connection

/-- While a connection is not closed, the flag tells of a 304. -/
def FlagTold (c : Connection) : Prop :=
  c.phase ≠ .closed → c.failed = true → 304 ∈ c.codes

theorem phaseAfter_ne_closed {keepAlive : Bool} {codes : List Nat}
    (h : Connection.phaseAfter keepAlive codes ≠ .closed) : ∀ code ∈ codes, code < 400 := by
  unfold Connection.phaseAfter at h
  split at h
  · next hcodes => exact hcodes.2
  · exact absurd rfl h

/-- An event leaves the flag telling of a 304. -/
theorem FlagTold.step {c c' : Connection} {e : ConnectionEvent} (h : FlagTold c)
    (hstep : c.step env e = some c') : FlagTold c' := by
  cases e with
  | request request keepAlive =>
    simp only [Connection.step] at hstep
    split at hstep
    · next hready =>
      obtain ⟨work, hwork, rfl⟩ := Option.map_eq_some_iff.mp hstep
      have hgrows := (growsTo_handle _ _).of_ok (toOption_eq_some.mp hwork)
      intro hopen hfailed
      rcases hgrows.failed hfailed with hbefore | ⟨reply, hmem, hcode⟩
      · have hold := h (by rw [hready]; decide) (by simpa [State.work] using hbefore)
        exact mem_append_left _ hold
      · have hreply : reply.code ∈ work.replies.map Reply.code := mem_map_of_mem hmem
        refine mem_append_right _ ?_
        rcases hcode with h304 | h400
        · exact h304 ▸ hreply
        · have hne : work.replies ≠ [] := ne_nil_of_mem hmem
          simp only [Connection.handled, if_neg hne] at hopen
          exact absurd (phaseAfter_ne_closed hopen _ hreply) (Nat.not_lt.mpr h400)
    · exact Option.some.inj hstep ▸ h
  | other event =>
    obtain ⟨out, -, rfl⟩ := Option.map_eq_some_iff.mp hstep
    unfold Connection.overtaken
    cases hphase : c.phase with
    | waiting context keepAlive =>
      intro _ hfailed
      exact mem_append_left _ (h (by rw [hphase]; exact nofun) hfailed)
    | ready =>
      intro _ hfailed
      exact h (by rw [hphase]; exact nofun) hfailed
    | closed =>
      intro hopen
      exact absurd rfl hopen

theorem Connection.independent {c : Connection} (h : FlagTold c) (hready : c.phase = .ready)
    (hspares : 304 ∈ c.codes → ¬ ReadsFailed c.server.tree request) :
      c.Independent env request := by
  unfold Connection.Independent
  cases hfailed : c.failed with
  | false => rfl
  | true =>
    have hno := hspares (h (by rw [hready]; exact nofun) hfailed)
    have hblind : Blind true (Work.handle env · request)
        (c.server.work { request with failed := false }) := blind_handle hno
    have hmark : (c.server.work { request with failed := false }).mark true =
        c.server.work { request with failed := true } := rfl
    unfold Blind at hblind
    rw [hmark] at hblind
    simp only [Zyre.step, handle_failed, hblind]
    cases (c.server.work { request with failed := false }).handle env request <;> rfl

/--
On every connection, whatever happens on others in between, each request that is read has the
effect and the replies that it would have on a new connection in the same state of the server,
provided that no PUT or POST with a document and no DELETE that is carried out follows a request
that was answered with 304.
-/
theorem requests_independent {server : State} {es before after : List ConnectionEvent}
    {keepAlive : Bool} {c : Connection}
    (hspares : Along (Connection.step env) Connection.Spares (Connection.new server) es)
    (hes : es = before ++ .request request keepAlive :: after)
    (hrun : run (Connection.step env) (Connection.new server) before = some c)
    (hready : c.phase = .ready) : c.Independent env request := by
  subst hes
  have hflag : FlagTold c := by
    have hall : Along (Connection.step env) (fun _ _ => True) (Connection.new server) before :=
      along_of_forall (fun _ _ _ => trivial) _
    refine run_invariant (I := FlagTold) (fun _ _ _ h _ => h.step) ?_ hall hrun
    intro _ hfailed
    cases hfailed
  exact Connection.independent hflag hready ((hspares.of_append hrun).1 hready)

/-- A GET of the default domain that is answered with 304. -/
def domainUnchanged : Request := taggedRequest .get "/domain/default" "0-8a-3"

def feedWanted : Request :=
  sampleRequest .post "/domain/default" [sampleElement "feed" [("name", "a")]]

theorem not_readsFailed_of_get (hmethod : request.method = .get) (t : Tree) :
    ¬ ReadsFailed t request := by
  rintro ⟨_, _, _, _, ⟨hput, -⟩ | ⟨hdelete, -⟩ | ⟨hpost, -⟩⟩
  · rw [hmethod] at hput
    cases hput
  · rw [hmethod] at hdelete
    cases hdelete
  · rw [hmethod] at hpost
    cases hpost

/-- The codes that the request for a feed is answered with, and the feed that it creates. -/
def feedOutcome (c : Connection) (failed : Bool) : Option (List Nat × Option ResourceId) :=
  (Zyre.step sampleEnv c.server
    (.request { feedWanted with failed := failed })).toOption.map fun out =>
    (out.replies.map Reply.code, out.state.tree.lookup "/feed/a".toList)

theorem unchanged_told : ∃ c, run (Connection.step sampleEnv) (Connection.new (State.new 0))
      [.request domainUnchanged true] = some c ∧
    (c.failed, c.phase) = (true, .ready) ∧
    feedOutcome c true = some ([200], none) ∧ feedOutcome c false = some ([201], some 2) := by
  have hstate : (run (Connection.step sampleEnv) (Connection.new (State.new 0))
      [.request domainUnchanged true]).map (fun c => (c.failed, c.phase)) =
        some (true, .ready) := by
    decide +kernel
  have hfeeds : (run (Connection.step sampleEnv) (Connection.new (State.new 0))
      [.request domainUnchanged true]).map (fun c => (feedOutcome c true, feedOutcome c false)) =
      some (some ([200], none), some ([201], some 2)) := by
    decide +kernel
  obtain ⟨c, hrun, hstate⟩ := Option.map_eq_some_iff.mp hstate
  rw [hrun, Option.map_some] at hfeeds
  exact ⟨c, hrun, hstate, Prod.mk.inj (Option.some.inj hfeeds)⟩

/-- Two GET requests, the first of which is answered with 304. -/
theorem requests_independent_get : ∃ c,
    run (Connection.step sampleEnv) (Connection.new (State.new 0))
      [.request domainUnchanged true] = some c ∧
    c.failed = true ∧ c.Independent sampleEnv (sampleRequest .get "/domain/default" []) := by
  obtain ⟨c, hrun, hstate, -⟩ := unchanged_told
  obtain ⟨hfailed, hready⟩ := Prod.mk.inj hstate
  have hes : [ConnectionEvent.request domainUnchanged true,
      .request (sampleRequest .get "/domain/default" []) true] = [.request domainUnchanged true] ++
          .request (sampleRequest .get "/domain/default" []) true :: [] := rfl
  refine ⟨c, hrun, hfailed, requests_independent ?_ hes hrun hready⟩
  exact ⟨fun _ _ => not_readsFailed_of_get rfl _, fun _ _ =>
    ⟨fun _ _ => not_readsFailed_of_get rfl _, fun _ _ => trivial⟩⟩

/-- A feed that is asked for after a 304 is not created, though the reply is 200. -/
theorem post_after_unchanged_ignored : ∃ c,
    run (Connection.step sampleEnv) (Connection.new (State.new 0))
      [.request domainUnchanged true] = some c ∧ c.phase = .ready ∧
    feedOutcome c c.failed = some ([200], none) ∧ ¬ c.Independent sampleEnv feedWanted := by
  obtain ⟨c, hrun, hstate, htold, hnew⟩ := unchanged_told
  obtain ⟨hfailed, hready⟩ := Prod.mk.inj hstate
  refine ⟨c, hrun, hready, hfailed ▸ htold, fun hsame => ?_⟩
  unfold Connection.Independent at hsame
  rw [hfailed] at hsame
  unfold feedOutcome at htold hnew
  rw [hsame, hnew] at htold
  cases htold

end OpenAmq.Zyre
