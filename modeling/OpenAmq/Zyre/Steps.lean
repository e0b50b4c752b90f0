import OpenAmq.Zyre.Posting

/-!
# What a step does

A delivery in the manner of the requests, and what holds of the tree after any steps.

* `Stepped`, `step_ok` — what a step has done when it ends
* `Tree.Base.step` — the table is as it should be after it
* `next`, `base_of_run` — and after all steps of a run
-/

namespace OpenAmq.Zyre

open OpenAmq.Lib OpenAmq.Zyre.Tree Option List

variable {env : Env} {E : Fault → Prop} {t t' : Tree} {i : ResourceId}

/-! ## Deliveries -/

/-- The asynclet `a` of the pipe `i` has become a message, and the pipe has a new one. -/
structure MessageArrived (env : Env) (t t' : Tree) (delivery : Delivery) (i a : ResourceId)
    (pipe : Pipe) (message : Message) (headers : Option (List Field)) : Prop where
  hpipe : t.server i = some (.pipe pipe)
  hasynclet : pipe.asynclet = some a
  hmessage : t.server a = some (.message message)
  hheaders : delivery.fieldList = .ok headers
  steps : ∃ t1 t2 k a' x, Content.attach delivery = .ok x ∧ Created env t t1 k a (.content x) ∧
    ServerSet t1 t2 a (.message (message.attach env delivery headers)) ∧
    AsyncletAdded env t2 t' a' i

/-- The replies to a client that has been waiting in the message `a`, if there is one. -/
inductive SavedReply (env : Env) (t : Tree) (shut : ContextId → Bool) (a : ResourceId) :
    Option Waiting → List Reply → Prop
  | nobody : SavedReply env t shut a none []
  | gone {waiting : Waiting} (h : shut waiting.context = true) :
    SavedReply env t shut a (some waiting) []
  | sent {waiting : Waiting} {d : Xml} {tag : Str} (h : shut waiting.context = false)
    (hshows : Shows env t a waiting.rootUri waiting.accept d tag) :
    SavedReply env t shut a (some waiting) [⟨waiting.context, 200, .document d tag⟩]

inductive Arrived (env : Env) (t : Tree) (shut : ContextId → Bool) (delivery : Delivery) :
    Tree × List Reply → Prop
  | undeliverable (h : t.pipeOfTag delivery.consumerTag = none) :
    Arrived env t shut delivery (t, [])
  | message {t' : Tree} {i a : ResourceId} {pipe : Pipe} {message : Message}
    {headers : Option (List Field)} {replies : List Reply}
    (htag : t.pipeOfTag delivery.consumerTag = some i)
    (h : MessageArrived env t t' delivery i a pipe message headers)
    (hreplies : SavedReply env t' shut a message.context replies) :
    Arrived env t shut delivery (t', replies)

variable {a : ResourceId} {message : Message} {delivery : Delivery} {pipe : Pipe}
  {headers : Option (List Field)}
  {requests : List BackendRequest} {e : Event} {out : Outcome} {s' : State} (now : Nat)

theorem yields_replySaved {shut : ContextId → Bool}
    (hmessage : t.server a = some (.message message)) (hreads : Reads t a ∨ E .destroyed)
    (hprints : (∀ waiting, message.context = some waiting → shut waiting.context = false →
      Prints env t a) ∨ E .pointer ∧ E .assertion) :
    Yields (replySaved env t shut a) (SavedReply env t shut a message.context) E := by
  refine (yields_get (.inl (live_of_server hmessage))).bind fun r hr => ?_
  have hs : r.server = .message message := some.inj ((server_of_heap hr).symm.trans hmessage)
  rw [hs]
  dsimp only
  cases hcontext : message.context with
  | none => exact yields_pure .nobody
  | some waiting =>
    dsimp only
    split
    · next hshut => exact yields_pure (.gone hshut)
    · next hshut =>
      have hshut : shut waiting.context = false := by simpa using hshut
      have hends : Yields (Work.documentOf env t waiting.rootUri r) (fun _ => True) E :=
        yields_documentOf hr hreads (hprints.imp_left fun h => h waiting hcontext hshut)
          fun content => by rw [hs]; nofun
      refine (hends.and_ok (Q := fun d => Work.documentOf env t waiting.rootUri r = .ok d)
        fun _ h => h).bind fun d ⟨_, hd⟩ => yields_pure ?_
      exact .sent hshut ⟨r, hr, hd, rfl⟩

theorem yields_fieldList (h : (∃ headers, delivery.fieldList = .ok headers) ∨ E .pointer) :
    Yields delivery.fieldList (fun headers => delivery.fieldList = .ok headers) E := by
  cases hlist : delivery.fieldList with
  | ok headers => exact yields_ok rfl
  | error e =>
    have he : e = .pointer := by
      unfold Delivery.fieldList at hlist
      split at hlist
      · cases hlist
      · cases hlist
      · exact (Except.error.inj hlist).symm
    rw [he]
    exact yields_error (h.resolve_left fun ⟨headers, h⟩ => by rw [hlist] at h; cases h)

theorem yields_fillAsynclet (hbase : Base env t)
    (hmessage : (∃ message, t.server a = some (.message message)) ∨ ∀ e, E e)
    (hbody : (∃ x, Content.attach delivery = .ok x) ∨ E .assertion)
    (hheaders : (∃ headers, delivery.fieldList = .ok headers) ∨ E .pointer) :
    Yields (fillAsynclet env t delivery a) (fun t2 => ∃ t1 k x message headers,
      t.server a = some (.message message) ∧ Content.attach delivery = .ok x ∧
      delivery.fieldList = .ok headers ∧ Created env t t1 k a (.content x) ∧
      ServerSet t1 t2 a (.message (message.attach env delivery headers))) E := by
  have hends : Yields (Content.attach delivery) (fun x => Content.attach delivery = .ok x) E := by
    cases hx : Content.attach delivery with
    | ok x => exact yields_ok rfl
    | error e =>
      have he : e = .assertion := by
        unfold Content.attach at hx
        split at hx
        · exact (Except.error.inj hx).symm
        · split at hx
          · exact (Except.error.inj hx).symm
          · cases hx
      rw [he]
      exact yields_error (hbody.resolve_left fun ⟨x, h⟩ => by rw [hx] at h; cases h)
  refine hends.bind fun x hx => ?_
  have hlive : t.Live a ∨ E .destroyed := hmessage.imp (fun ⟨_, h⟩ => live_of_server h) fun h => h _
  refine (yields_create hbase.fresh hlive (.inl hbase.names)).bind fun ⟨t1, k⟩ hc => ?_
  have hserver : t1.server a = t.server a := by
    rw [hc.added.server, if_neg (hc.added.ne_of_live hc.added.live)]
  refine (yields_get (.inl (hc.added.live_of_live hc.added.live))).bind fun r hr => ?_
  have hr' := server_of_heap hr
  cases hs : r.server with
  | message message =>
    rw [hs] at hr'
    refine (yields_fieldList hheaders).bind fun headers hheaders => ?_
    exact (yields_setServer (.inl (live_of_server hr')) _).imp fun t2 ht2 =>
      ⟨t1, k, x, message, headers, by rw [← hserver, hr'], hx, hheaders, hc, ht2⟩
  | domain | feed | pipe | join | content =>
    refine yields_error (hmessage.elim (fun ⟨m, hm⟩ => ?_) fun h => h _)
    rw [hserver, hm, hs] at hr'
    cases hr'

/-- A delivery finds a pipe, its asynclet and what is below that. -/
def Delivers (t : Tree) (delivery : Delivery) : Prop :=
  ∀ i, t.pipeOfTag delivery.consumerTag = some i → ∀ pipe, t.server i = some (.pipe pipe) →
    ∃ a message, pipe.asynclet = some a ∧ t.server a = some (.message message) ∧ Reads t a

section

variable (h : MessageArrived env t t' delivery i a pipe message headers)

include h

theorem MessageArrived.ne : a ≠ i := by
  rintro rfl
  have hpipe := h.hpipe
  rw [h.hmessage] at hpipe
  cases hpipe

theorem MessageArrived.views :
    ∃ k a' x, Content.attach delivery = .ok x ∧ t.heap k = none ∧ t.heap a' = none ∧ k ≠ a' ∧
      (∀ j, t'.server j = if j = a' then some (.message Message.new)
        else if j = i then some (.pipe { pipe with asynclet := some a' })
        else if j = a then some (.message (message.attach env delivery headers))
        else if j = k then some (.content x) else t.server j) ∧
      (∀ j, t'.parent j = if j = a' then some i else if j = k then some a else t.parent j) ∧
      (∀ j, t'.children j = if j = i then t.children j ++ [a']
        else if j = a then t.children j ++ [k] else t.children j) ∧
      t.next ≤ a' ∧ a' < t'.next ∧ t.next ≤ t'.next := by
  have hai := h.ne
  obtain ⟨hpipe, -, hmessage, -, t1, t2, k, a', x, hx, hc, hset, hadded⟩ := h
  obtain ⟨hafresh, ⟨p2, hp2, hp'⟩, hserver', hparent', hchildren'⟩ := hadded.views
  have hlive2 : ∀ j s, t2.server j = some s → j ≠ a' := by
    rintro j s hj rfl
    rw [Tree.server, hafresh] at hj
    cases hj
  have hki : k ≠ i := (hc.added.ne_of_live (live_of_server hpipe)).symm
  have hka : k ≠ a := (hc.added.ne_of_live (live_of_server hmessage)).symm
  have hk2 : t2.server k = some (.content x) := by
    rw [hset.server, if_neg hka, hc.added.server, if_pos rfl]
  have hka' : k ≠ a' := hlive2 k _ hk2
  have hpipe2 : t2.server i = some (.pipe pipe) := by
    rw [hset.server, if_neg hai.symm, hc.added.server, if_neg hki.symm, hpipe]
  obtain rfl := Server.pipe.inj (some.inj (hp2.symm.trans hpipe2))
  have hia' : i ≠ a' := hlive2 i _ hp2
  have hfresh : t.heap a' = none := by
    have hpath : t2.path a' = none := by rw [path, hafresh]; rfl
    rw [hset.path, hc.added.path, if_neg hka'.symm, path, map_eq_none_iff] at hpath
    exact hpath
  obtain ⟨hids, hnext⟩ := hadded.ids
  have hle : t.next < t2.next := by
    rw [hset.next, hc.added.next.2]
    exact Nat.lt_succ_self _
  refine ⟨k, a', x, hx, hc.added.fresh, hfresh, hka', fun j => ?_, fun j => ?_, fun j => ?_,
    hids ▸ hle.le, ?_, ?_⟩
  · by_cases hji : j = i
    · rw [hji, hp', if_neg hia', if_pos rfl]
    · rw [hserver' j hji, hset.server, hc.added.server, if_neg hji]
  · rw [hparent', hset.parent, hc.added.parent]
  · rw [hchildren', hset.children, hc.added.children]
    by_cases hji : j = i
    · rw [if_pos hji, if_pos hji, if_neg (by rw [hji]; exact hai.symm)]
    · rw [if_neg hji, if_neg hji]
  · rw [hnext, hids]
    exact Nat.lt_succ_self _
  · rw [hnext]
    exact hle.le.trans (Nat.le_succ _)

theorem MessageArrived.server :
    t'.server a = some (.message (message.attach env delivery headers)) := by
  obtain ⟨k, a', x, -, -, hafresh, -, hserver, -⟩ := h.views
  have hne : a ≠ a' := by
    rintro rfl
    have hlive := live_of_server h.hmessage
    rw [Live, hafresh] at hlive
    cases hlive
  rw [hserver, if_neg hne, if_neg h.ne, if_pos rfl]

theorem MessageArrived.reads
    (hreads : Reads t a) : Reads t' a := by
  have hlast := h.server
  obtain ⟨k, a', x, -, hkfresh, hafresh, hka', hserver, -, hchildren, -⟩ := h.views
  have hdead : ∀ c, t.Live c → c ≠ a' ∧ c ≠ k := by
    intro c hlive
    constructor
    · rintro rfl
      rw [Live, hafresh] at hlive
      cases hlive
    · rintro rfl
      rw [Live, hkfresh] at hlive
      cases hlive
  -- what has been reported still is
  have hkeeps : ∀ c, t.Live c → t'.Live c ∧ ∀ join, t'.server c = some (.join join) →
      t.server c = some (.join join) := by
    intro c hlive
    have hc := hserver c
    rw [if_neg (hdead c hlive).1] at hc
    split at hc
    · refine ⟨live_of_server hc, fun join hjoin => ?_⟩
      rw [hc] at hjoin
      cases hjoin
    · split at hc
      · refine ⟨live_of_server hc, fun join hjoin => ?_⟩
        rw [hc] at hjoin
        cases hjoin
      · rw [if_neg (hdead c hlive).2] at hc
        exact ⟨by rwa [live_iff_server, hc, ← live_iff_server], fun join hjoin => hc ▸ hjoin⟩
  refine ⟨⟨live_of_server hlast, fun join hjoin => ?_⟩, fun c hmem => ?_⟩
  · rw [hlast] at hjoin
    cases hjoin
  · rw [hchildren, if_neg h.ne, if_pos rfl, mem_append, mem_singleton] at hmem
    rcases hmem with hmem | rfl
    · obtain ⟨hlive, hfeed⟩ := hreads.2 c hmem
      obtain ⟨hlive', hjoin'⟩ := hkeeps c hlive
      exact ⟨hlive', fun join hjoin => (hkeeps _ (hfeed join (hjoin' join hjoin))).1⟩
    · have hci := (hdead i (live_of_server h.hpipe)).2.symm
      have hca := (hdead a (live_of_server h.hmessage)).2.symm
      have hcontent : t'.server c = some (.content x) := by
        rw [hserver, if_neg hka', if_neg hci, if_neg hca, if_pos rfl]
      refine ⟨live_of_server hcontent, fun join hjoin => ?_⟩
      rw [hcontent] at hjoin
      cases hjoin

end

/-- The message that the asynclet `a` becomes can be printed. -/
structure MessagePrints (env : Env) (t : Tree) (a : ResourceId) (message : Message)
    (delivery : Delivery) : Prop where
  values : ∀ value ∈ documentFormats [] (.message (message.attach env delivery none)),
    Printable env value
  headers : ∃ fields, delivery.fieldList = .ok (some fields) ∧ ∀ field ∈ fields,
    FieldPrints env field
  content : Printable env (cut delivery.contentType)
  children : ∀ c ∈ t.children a, ReportPrints env t c

/-- The headers of a delivery can be read, and the message that it becomes can be printed when
somebody who is still connected waits for it. -/
structure DeliveryPrints (env : Env) (t : Tree) (shut : ContextId → Bool) (delivery : Delivery) :
    Prop where
  headers : ∃ headers, delivery.fieldList = .ok headers
  document : ∀ i pipe a message waiting, t.pipeOfTag delivery.consumerTag = some i →
    t.server i = some (.pipe pipe) → pipe.asynclet = some a →
    t.server a = some (.message message) → message.context = some waiting →
    shut waiting.context = false → MessagePrints env t a message delivery

theorem type_of_attach {x : Content} (h : Content.attach delivery = .ok x) :
    x.type = cut delivery.contentType := by
  unfold Content.attach at h
  split at h
  · cases h
  · split at h
    · cases h
    · rw [← Except.ok.inj h]

theorem MessageArrived.prints (h : MessageArrived env t t' delivery i a pipe message headers)
    (hprints : MessagePrints env t a message delivery) : Prints env t' a := by
  have hserver := h.server
  have hai := h.ne
  obtain ⟨hpipe, -, -, hheaders, t1, t2, k, a', x, hx, hc, hset, t3, pipe', ha, hpipe', hset'⟩ := h
  refine ⟨fun s name hs _ => ?_, fun m hm => ?_, fun c hmem s name hs hn => ?_⟩
  · obtain rfl := some.inj (hserver.symm.trans hs)
    exact hprints.values
  · obtain rfl := Server.message.inj (some.inj (hserver.symm.trans hm))
    obtain ⟨fields, hfields, hall⟩ := hprints.headers
    exact ⟨fields, Except.ok.inj (hheaders.symm.trans hfields), hall⟩
  · have hik := hc.added.ne_of_live (live_of_server hpipe)
    have hpipe2 : t2.server i = some (.pipe pipe) := by
      rw [hset.server, if_neg hai.symm, hc.added.server, if_neg hik, hpipe]
    have hia' := ha.added.ne_of_live (live_of_server hpipe2)
    obtain rfl := Server.pipe.inj (some.inj (hpipe'.symm.trans hpipe2))
    rw [hset'.children, ha.added.children, if_neg hai, hset.children, hc.added.children, if_pos rfl,
      mem_append, mem_singleton] at hmem
    rw [hset'.server, ha.added.server, hset.server, hc.added.server] at hs
    rw [hset'.name, ha.added.name, hset.name, hc.added.name] at hn
    split at hs
    · next hci =>
      subst hci
      rw [if_neg hia', if_neg hik] at hn
      cases hs
      exact hprints.children c (hmem.resolve_right hik) (.pipe pipe') name hpipe hn
    split at hs
    · cases hs
      simp [reportFormats, Message.new, printable_of_plain]
    · next hca' =>
      rw [if_neg hca'] at hn
      split at hs
      · cases hs
        refine forall_mem_singleton.mpr (hprints.values _ ?_)
        simp [documentFormats, Message.attach]
      split at hs
      · cases hs
        refine forall_mem_singleton.mpr ?_
        rw [type_of_attach hx]
        exact hprints.content
      · next hck =>
        rw [if_neg hck] at hn
        exact hprints.children c (hmem.resolve_right hck) s name hs hn

/-- A delivery is stored in the asynclet of its pipe, and a new one is made. -/
theorem yields_arrived (hbase : Base env t) {shut : ContextId → Bool}
    (hpipe : (∀ i, t.pipeOfTag delivery.consumerTag = some i → ∃ p, t.server i = some (.pipe p)) ∨
      E .pointer)
    (hdelivers : Delivers t delivery ∨ ∀ e, E e)
    (hbody : (∃ x, Content.attach delivery = .ok x) ∨ E .assertion)
    (hprints : DeliveryPrints env t shut delivery ∨ E .pointer ∧ E .assertion) :
    Yields (arrived env t shut delivery) (Arrived env t shut delivery) E := by
  unfold arrived
  cases htag : t.pipeOfTag delivery.consumerTag with
  | none => exact yields_ok (.undeliverable htag)
  | some i =>
    have hlive : t.Live i := by
      unfold Tree.pipeOfTag at htag
      split at htag
      · cases htag
      · exact hbase.table.live htag
    refine (yields_get (.inl hlive)).bind fun r hr => ?_
    have hserver := server_of_heap hr
    cases hs : r.server with
    | pipe pipe =>
      rw [hs] at hserver
      have hfound := hdelivers.imp_left fun h => h i htag pipe hserver
      dsimp only
      cases hasynclet : pipe.asynclet with
      | none =>
        refine yields_error (hfound.elim (fun ⟨a, _, ha, _⟩ => ?_) fun h => h _)
        rw [hasynclet] at ha
        cases ha
      | some a =>
        have hreads : (∃ message, t.server a = some (.message message)) ∧ Reads t a ∨ ∀ e, E e := by
          refine hfound.imp_left fun ⟨a', m, ha', hm, hreads⟩ => ?_
          rw [hasynclet] at ha'
          cases ha'
          exact ⟨⟨m, hm⟩, hreads⟩
        refine (yields_fillAsynclet hbase (hreads.imp_left fun h => h.1) hbody
          (hprints.imp DeliveryPrints.headers And.left)).bind
          fun t2 ⟨t1, k, x, message, headers, hmessage, hx, hheaders, hc, hset⟩ => ?_
        have hai : i ≠ a := by
          rintro rfl
          rw [hmessage] at hserver
          cases hserver
        have hbase2 : Base env t2 := by
          refine (hbase.created hc trivial).serverSet hset fun s hs => ?_
          rw [hc.added.server, if_neg (hc.added.ne_of_live (live_of_server hmessage)),
            hmessage] at hs
          rw [← some.inj hs]
          exact trivial
        have hpipe2 : t2.server i = some (.pipe pipe) := by
          rw [hset.server, if_neg hai, hc.added.server, if_neg (hc.added.ne_of_live hlive), hserver]
        refine (yields_createAsynclet hbase2 hpipe2).bind fun t' ⟨a', ha'⟩ => ?_
        have harrived : MessageArrived env t t' delivery i a pipe message headers :=
          ⟨hserver, hasynclet, hmessage, hheaders, t1, t2, k, a', x, hx, hc, hset, ha'⟩
        refine (yields_replySaved harrived.server (hreads.imp (fun h => harrived.reads h.2)
          fun h => h _) (hprints.imp_left fun h waiting hwaiting hshut => ?_)).bind
          fun replies hreplies => yields_pure (.message htag harrived hreplies)
        exact harrived.prints (h.document i pipe a message waiting htag hserver hasynclet hmessage
          hwaiting hshut)
    | domain | feed | join | message | content =>
      refine yields_error (hpipe.resolve_left fun h => ?_)
      obtain ⟨p, hp⟩ := h i htag
      rw [hserver, hs] at hp
      cases hp

/-! ## The table after a step -/

theorem Tree.Base.heldAt (h : Base env t) {waiting : Waiting} (hheld : HeldAt t t' i waiting) :
    Base env t' := by
  obtain ⟨message, hmessage, -, hset⟩ := hheld
  refine h.serverSet hset fun s hs => ?_
  rw [hmessage] at hs
  rw [← some.inj hs]
  exact trivial

theorem Tree.Base.titleSet (h : Base env t) (htitle : TitleSet t t' i) : Base env t' := by
  rcases htitle with rfl | ⟨s, s', hs, hretitled, hset⟩
  · exact h
  · refine h.serverSet hset fun s0 hs0 => ?_
    rw [hs] at hs0
    rw [← some.inj hs0]
    exact hretitled.sameClass

theorem Tree.Base.unlisted {join : Join} (h : Base env t) (hu : Unlisted t t' join) :
    Base env t' := by
  obtain ⟨t1, _, _, _, _, h1, h2⟩ := hu
  exact (h.joinsSet h1 fun e he => .inl (mem_of_mem_eraseP he)).joinsSet h2
    fun e he => .inl (mem_of_mem_eraseP he)

theorem deletable_of_bare {s : Server} (h : t.bare i = some s) (hs : ∀ f, s ≠ .feed f) :
    t.Deletable i := by
  intro f hf
  exact absurd (some.inj (h.symm.trans hf)) (hs f)

theorem Tree.Base.joinsDeleted {o : ResourceId} (h : Base env t)
    (hdeleted : JoinsDeleted o t t' requests) : Base env t' := by
  induction hdeleted with
  | done => exact h
  | next hjoins hjoin hunlisted hremoved hrest ih =>
    refine ih ((h.unlisted hunlisted).gone hremoved.toGone ?_)
    have hbare := server_eq_join.mp hjoin
    rw [← hunlisted.bare] at hbare
    exact deletable_of_bare hbare fun _ h => by cases h

theorem Deleting.base (hd : Deleting t i t' requests) (h : Base env t) :
    Base env t' ∧ t'.Deletable i := by
  cases hd with
  | feed hf hdynamic hjoins =>
    refine ⟨h.joinsDeleted hjoins, fun f hf' => ?_⟩
    have hbare := bare_of_server hf
    rw [(hjoins.bare (k := i) (by rw [hbare]; nofun)).1, hbare] at hf'
    rw [← Server.feed.inj (some.inj hf')]
    exact hdynamic
  | pipe hp hjoins =>
    have hbare := bare_of_server hp
    have hbare' := (hjoins.bare (k := i) (by rw [hbare]; nofun)).1.trans hbare
    exact ⟨h.joinsDeleted hjoins, deletable_of_bare hbare' fun _ h => by cases h⟩
  | join hx _ hunlisted =>
    have hbare := server_eq_join.mp hx
    rw [← hunlisted.bare] at hbare
    exact ⟨h.unlisted hunlisted, deletable_of_bare hbare fun _ h => by cases h⟩
  | message hm => exact ⟨h, deletable_of_bare (bare_of_server hm) fun _ h => by cases h⟩
  | content hx => exact ⟨h, deletable_of_bare (bare_of_server hx) fun _ h => by cases h⟩

theorem Tree.Base.sent {feedName : Str} {requests : List BackendRequest} (h : Base env t)
    (hsent : Sent feedName t t' requests) : Base env t' := by
  induction hsent with
  | nil => exact h
  | plain _ ih => exact ih h
  | used hcontent hd _ ih =>
    exact ih (h.gone hd.toGone (deletable_of_bare (bare_of_server hcontent) fun _ h => by cases h))

theorem Tree.Base.asyncletAdded (h : Base env t) (ha : AsyncletAdded env t t' a i) :
    Base env t' := by
  obtain ⟨t1, pipe, hc, hpipe, hset⟩ := ha
  refine (h.created hc trivial).serverSet hset fun s hs => ?_
  rw [hc.added.server, if_neg (hc.added.ne_of_live (live_of_server hpipe)), hpipe] at hs
  rw [← some.inj hs]
  exact rfl

theorem Tree.Base.pipeAdded {p : ResourceId} {type title : Str} (h : Base env t)
    (ha : PipeAdded env t t' i p type title) : Base env t' := by
  obtain ⟨t1, t2, j, a, hc, hj, ha⟩ := ha
  exact ((h.created hc rfl).joinAdded hj).asyncletAdded ha

theorem Tree.Base.posted (h : Base env t) {A : Attrs → Prop}
    (hposted : Posted env A t i t' requests) : Base env t' := by
  cases hposted with
  | nothing => exact h
  | known => exact ⟨h.fresh, h.table, h.names, ⟨h.default.table, h.default.server, h.default.name⟩,
      ⟨h.classes.feeds, h.classes.dynamic, h.classes.entries⟩⟩
  | unnamedFeed _ _ _ hc => exact h.created hc ⟨rfl, rfl⟩
  | namedFeed _ _ _ ha hcurrent hfresh => exact h.named ha ⟨rfl, rfl⟩ hcurrent hfresh
  | pipe _ hadded => exact h.pipeAdded hadded
  | join _ _ _ _ _ _ _ _ hj => exact h.joinAdded hj
  | content _ hc => exact h.created hc trivial
  | messages _ _ hsent => exact h.sent hsent

theorem Tree.Base.handled {c : ContextId} {w w' : Work} {request : Request}
    (h : Base env w.tree) (hhandled : Handled env c w request w') : Base env w'.tree := by
  cases hhandled with
  | answered _ huntouched _ => exact huntouched.1 ▸ h
  | get _ _ hget =>
    obtain ⟨r, _, ⟨_, huntouched, _⟩ | ⟨_, ⟨_, huntouched, _⟩ | ⟨_, _, _, hheld⟩⟩⟩ := hget
    · exact huntouched.1 ▸ h
    · exact huntouched.1 ▸ h
    · exact h.heldAt hheld
  | put _ _ hput => exact h.titleSet hput.2.2
  | delete _ _ hdelete =>
    rcases hdelete with ⟨_, huntouched, _⟩ | ⟨_, t1, requests, hdeleting, _, hend⟩
    · exact huntouched.1 ▸ h
    · obtain ⟨hbase, hdeletable⟩ := hdeleting.base h
      rcases hend with ⟨_, _, htree⟩ | ⟨_, _, hd⟩
      · exact htree ▸ hbase
      · exact hbase.gone hd.toGone hdeletable
  | post _ _ hpost =>
    obtain ⟨_, requests, hposted, _⟩ := hpost
    exact h.posted hposted

theorem Tree.Base.messageArrived (h : Base env t)
    (ha : MessageArrived env t t' delivery i a pipe message headers) : Base env t' := by
  obtain ⟨hpipe, hasynclet, hmessage, -, t1, t2, k, a', x, hx, hc, hset, hadded⟩ := ha
  refine ((h.created hc trivial).serverSet hset fun s hs => ?_).asyncletAdded hadded
  rw [hc.added.server, if_neg (hc.added.ne_of_live (live_of_server hmessage)), hmessage] at hs
  rw [← some.inj hs]
  exact trivial

/-! ## Steps -/

/-- What a step has done when it ends. -/
inductive Stepped (env : Env) (s : State) : Event → Outcome → Prop
  | request {request : Request} {w : Work}
    (h : Handled env s.requests (s.work request) request w) :
    Stepped env s (.request request)
      ⟨{ s with tree := w.tree, requests := s.requests + 1 }, w.replies, w.requests⟩
  | deliver {delivery : Delivery} {t' : Tree} {replies : List Reply}
    (h : Arrived env s.tree s.shut delivery (t', replies)) :
    Stepped env s (.deliver delivery) ⟨{ s with tree := t' }, replies, []⟩
  | close {context : ContextId} : Stepped env s (.close context)
      ⟨{ s with shut := Function.update s.shut context true }, [], []⟩

theorem open_work (s : State) (request : Request) :
    Open s.requests request.failed (s.work request) :=
  ⟨rfl, rfl, rfl, rfl, (show 200 ≠ 304 ∧ 200 ≠ 412 by decide), nofun⟩

variable {s : State}

/-- What a step that fails nowhere has done -/
theorem step_ok (hbase : Base env s.tree) (h : step env s e = .ok out) :
    Stepped env s e out := by
  cases e with
  | request request =>
    obtain ⟨w, hw, hout⟩ := bind_eq_ok.mp h
    obtain rfl := pure_eq_ok.mp hout
    have hends := yields_handle (E := fun _ => True) (open_work s request) hbase (.inr trivial)
      (.inr ⟨trivial, trivial⟩) (.inr fun _ => trivial) (.inr trivial)
    exact .request (hends.of_ok hw)
  | deliver delivery =>
    obtain ⟨r, hr, hout⟩ := bind_eq_ok.mp h
    obtain rfl := pure_eq_ok.mp hout
    have hends : Yields (arrived env s.tree s.shut delivery) (Arrived env s.tree s.shut delivery)
        fun _ => True :=
      yields_arrived hbase (.inr trivial) (.inr fun _ => trivial) (.inr trivial)
        (.inr ⟨trivial, trivial⟩)
    exact .deliver (hends.of_ok hr)
  | close context =>
    obtain rfl := Except.ok.inj h
    exact .close

section Requests

variable {s : State} {request : Request}

/-- A request that fails nowhere is handled, and answered from its work. -/
theorem handled_of_step (hbase : Base env s.tree) (h : step env s (.request request) = .ok out) :
    ∃ w, Handled env s.requests (s.work request) request w ∧ out.state.tree = w.tree ∧
      out.replies = w.replies := by
  cases step_ok hbase h with
  | request hw => exact ⟨_, hw, rfl, rfl⟩

theorem exists_handled (hbase : Base env s.tree) (hreads : RequestReads s.tree request)
    (hparses : RequestParses env s.tree request) (hdeletes : RequestDeletes s.tree request)
    (hrefers : RequestRefers s.tree request) :
    ∃ out w, step env s (.request request) = .ok out ∧
      out.state = { s with tree := w.tree, requests := s.requests + 1 } ∧
      out.replies = w.replies ∧ Handled env s.requests (s.work request) request w := by
  have hends : Yields ((s.work request).handle env request)
      (Handled env s.requests (s.work request) request) fun _ => False :=
    yields_handle (open_work s request) hbase (.inl hreads) (.inl hparses) (.inl hdeletes)
      (.inl hrefers)
  obtain ⟨w, hw, hhandled⟩ := hends.exists_ok
  exact ⟨_, w, bind_eq_ok.mpr ⟨w, hw, rfl⟩, rfl, rfl, hhandled⟩

theorem target_unique {t : Tree} {i' : ResourceId} (h : Target t request i)
    (h' : Target t request i') : i' = i :=
  some.inj (h'.2.symm.trans h.2)

end Requests

theorem Tree.Base.stepped (h : Base env s.tree) (hstep : Stepped env s e out) :
    Base env out.state.tree := by
  cases hstep with
  | request hhandled => exact h.handled hhandled
  | deliver harrived =>
    cases harrived with
    | undeliverable => exact h
    | message _ ha _ => exact h.messageArrived ha
  | close => exact h

/-! ## From the operations to a step -/

/-- A relation that holds of what each operation makes of a tree, and of several in a row. -/
structure Compatible (R : Tree → Tree → Prop) : Prop where
  trans : ∀ {t t' t'' : Tree}, R t t' → R t' t'' → R t t''
  shape : ∀ {t t' : Tree}, SameShape t t' → R t t'
  added : ∀ {t t' : Tree} {i p : ResourceId} {n q : Str} {s : Server}, Added t t' i p n q s → R t t'
  gone : ∀ {t t' : Tree} {i : ResourceId}, Gone t t' i → R t t'

namespace Compatible

variable {R : Tree → Tree → Prop} (h : Compatible R)

include h

theorem refl (t : Tree) : R t t := h.shape (.refl t)

theorem joinAdded {j : ResourceId} {join : Join} (hj : JoinAdded env t t' j join) : R t t' := by
  obtain ⟨t1, t2, _, _, hc, -, -, h1, h2⟩ := hj
  exact h.trans (h.added hc.added) (h.shape (h1.sameShape.trans h2.sameShape))

theorem asyncletAdded (ha : AsyncletAdded env t t' a i) : R t t' := by
  obtain ⟨t1, _, hc, -, hset⟩ := ha
  exact h.trans (h.added hc.added) (h.shape hset.toSameShape)

theorem joinsDeleted {o : ResourceId} (hd : JoinsDeleted o t t' requests) : R t t' := by
  induction hd with
  | done => exact h.refl _
  | next _ _ hunlisted hremoved _ ih =>
    exact h.trans (h.trans (h.shape hunlisted.sameShape) (h.gone hremoved.toGone)) ih

theorem deleting (hd : Deleting t i t' requests) : R t t' := by
  cases hd with
  | feed _ _ hjoins | pipe _ hjoins => exact h.joinsDeleted hjoins
  | join _ _ hunlisted => exact h.shape hunlisted.sameShape
  | message | content => exact h.refl _

theorem sent {feedName : Str} {requests : List BackendRequest}
    (hs : Sent feedName t t' requests) : R t t' := by
  induction hs with
  | nil => exact h.refl _
  | plain _ ih => exact ih
  | used _ hd _ ih => exact h.trans (h.gone hd.toGone) ih

theorem posted {A : Attrs → Prop} (hp : Posted env A t i t' requests) : R t t' := by
  cases hp with
  | nothing => exact h.refl _
  | known => exact h.shape ⟨rfl, rfl, rfl, rfl, rfl, rfl, rfl, rfl⟩
  | unnamedFeed _ _ _ hc => exact h.added hc.added
  | namedFeed _ _ _ ha => exact h.added ha
  | pipe _ hadded =>
    obtain ⟨t1, t2, j, a, hc, hj, ha⟩ := hadded
    exact h.trans (h.trans (h.added hc.added) (h.joinAdded hj)) (h.asyncletAdded ha)
  | join _ _ _ _ _ _ _ _ hj => exact h.joinAdded hj
  | content _ hc => exact h.added hc.added
  | messages _ _ hsent => exact h.sent hsent

theorem handled {c : ContextId} {w w' : Work} {request : Request}
    (hh : Handled env c w request w') : R w.tree w'.tree := by
  cases hh with
  | answered _ huntouched _ => exact huntouched.1 ▸ h.refl _
  | get _ _ hget =>
    obtain ⟨r, _, ⟨_, huntouched, _⟩ | ⟨_, ⟨_, huntouched, _⟩ | ⟨_, _, _, _, _, _, hset⟩⟩⟩ := hget
    · exact huntouched.1 ▸ h.refl _
    · exact huntouched.1 ▸ h.refl _
    · exact h.shape hset.toSameShape
  | put _ _ hput =>
    rcases hput.2.2 with htree | ⟨_, _, _, _, hset⟩
    · exact htree ▸ h.refl _
    · exact h.shape hset.toSameShape
  | delete _ _ hdelete =>
    rcases hdelete with ⟨_, huntouched, _⟩ | ⟨_, t1, requests, hdeleting, _, hend⟩
    · exact huntouched.1 ▸ h.refl _
    · rcases hend with ⟨_, _, htree⟩ | ⟨_, _, hd⟩
      · exact htree ▸ h.deleting hdeleting
      · exact h.trans (h.deleting hdeleting) (h.gone hd.toGone)
  | post _ _ hpost =>
    obtain ⟨_, requests, hposted, _⟩ := hpost
    exact h.posted hposted

theorem messageArrived (ha : MessageArrived env t t' delivery i a pipe message headers) :
    R t t' := by
  obtain ⟨-, -, -, -, t1, t2, k, a', x, -, hc, hset, hadded⟩ := ha
  exact h.trans (h.trans (h.added hc.added) (h.shape hset.toSameShape)) (h.asyncletAdded hadded)

theorem stepped (hs : Stepped env s e out) : R s.tree out.state.tree := by
  cases hs with
  | request hhandled => exact h.handled hhandled
  | deliver harrived =>
    cases harrived with
    | undeliverable => exact h.refl _
    | message _ ha _ => exact h.messageArrived ha
  | close => exact h.refl _

end Compatible

/-- The state after a step that ends. -/
def next (env : Env) (s : State) (e : Event) : Option State :=
  (step env s e).toOption.map Outcome.state

theorem next_eq_some :
    next env s e = some s' ↔ ∃ out, step env s e = .ok out ∧ out.state = s' := by
  rw [next]
  cases step env s e <;> simp [Except.toOption]

theorem new_server (i : ResourceId) : (Tree.new now).server i =
    if i = domainId then some .domain
    else if i = defaultFeedId then
      some (.feed ⟨false, "direct".toList, "Default feed".toList, [], []⟩)
    else none := by
  rw [Tree.server]
  show Option.map _ (if i = domainId then _ else if i = defaultFeedId then _ else none) = _
  split
  · rfl
  · split <;> rfl

theorem new_path (i : ResourceId) : (Tree.new now).path i =
    if i = domainId then some "/domain/default".toList
    else if i = defaultFeedId then some "/feed/default".toList else none := by
  rw [Tree.path]
  show Option.map _ (if i = domainId then _ else if i = defaultFeedId then _ else none) = _
  split
  · rfl
  · split <;> rfl

theorem new_table (q : Str) : (Tree.new now).table q =
    if q = "/domain/default".toList then some domainId
    else if q = "/feed/default".toList then some defaultFeedId else none := rfl

theorem new_joins (i : ResourceId) : (Tree.new now).joins i = [] := by
  rw [Tree.joins, new_server]
  split
  · rfl
  · split <;> rfl

theorem base_new : Base env (Tree.new now) := by
  refine ⟨fun i hi => ?_, fun q i => ?_, fun n hn => ?_, ⟨rfl, ⟨_, rfl, rfl⟩, rfl⟩,
    ⟨fun name i hi => ?_, fun i f hf _ => ?_, fun o e he => ?_⟩⟩
  · have h0 : i ≠ domainId := (Nat.lt_of_lt_of_le Nat.zero_lt_two hi).ne'
    have h1 : i ≠ defaultFeedId := (Nat.lt_of_lt_of_le Nat.one_lt_two hi).ne'
    have hpath := new_path now i
    rwa [if_neg h0, if_neg h1, Tree.path, map_eq_none_iff] at hpath
  · rw [new_path, new_table]
    constructor
    · intro hq
      split at hq
      · next h =>
        cases hq
        rw [if_pos rfl, h]
      · split at hq
        · next h =>
          cases hq
          rw [if_neg (by decide), if_pos rfl, h]
        · cases hq
    · intro hi
      split at hi
      · next h =>
        cases hi
        rw [if_pos rfl, h]
      · split at hi
        · next h =>
          cases hi
          rw [if_neg (by decide), if_pos rfl, h]
        · cases hi
  · have hdomain : resourcePath (hashName env n) ≠ "/domain/default".toList := by
      refine ne_of_second ?_
      rw [resourcePath_second]
      decide
    have hfeed : resourcePath (hashName env n) ≠ "/feed/default".toList := by
      refine ne_of_second ?_
      rw [resourcePath_second]
      decide
    rw [new_table, if_neg hdomain, if_neg hfeed]
  · have hdomain : namedPath "feed".toList name ≠ "/domain/default".toList := by
      refine ne_of_second ?_
      rw [namedPath_second]
      decide
    rw [new_table, if_neg hdomain] at hi
    split at hi
    · cases hi
      exact ⟨_, rfl⟩
    · cases hi
  · rw [Tree.bare, new_server] at hf
    split at hf
    · cases hf
    · split at hf
      · next h => exact h
      · cases hf
  · rw [new_joins] at he
    cases he

/-- A run keeps the tree in shape. -/
theorem base_of_run {es : List Event} (h : Base env s.tree)
    (hrun : run (next env) s es = some s') : Base env s'.tree := by
  refine run_invariant (I := fun s => Base env s.tree) (fun s e s' hbase _ hs => ?_) h
    (along_of_forall (fun _ _ _ => trivial) s : Along (next env) (fun _ _ => True) s es) hrun
  obtain ⟨out, hout, rfl⟩ := next_eq_some.mp hs
  exact hbase.stepped (step_ok hbase hout)

/-- A relation that all changes respect holds between the ends of a run. -/
theorem Compatible.run {R : Tree → Tree → Prop} (h : Compatible R) {es : List Event}
    (hbase : Base env s.tree) (hrun : run (next env) s es = some s') : R s.tree s'.tree := by
  refine (run_invariant (I := fun s1 => Base env s1.tree ∧ R s.tree s1.tree)
    (fun s1 e s2 hs1 _ hs => ?_) ⟨hbase, h.refl _⟩
    (along_of_forall (fun _ _ _ => trivial) s : Along (next env) (fun _ _ => True) s es) hrun).2
  obtain ⟨out, hout, rfl⟩ := next_eq_some.mp hs
  have hstepped := step_ok hs1.1 hout
  exact ⟨hs1.1.stepped hstepped, h.trans hs1.2 (h.stepped hstepped)⟩

/-! ## A sample -/

/-- An execution in which the letters of all names are the same, with formats without conversions -/
def sampleEnv : Env where
  execution := 1
  letters _ := "AAAAAAAA".toList
  length_letters _ := rfl
  letters_plain _ := by decide
  mime _ := []
  format s := if '%' ∈ s then none else some s
  format_plain _ h := if_neg h
  formatDecimal _ _ := []
  memory _ := 0
  locals := ⟨⟨0, 0, 0, 0, 0, 0, 0, 0⟩, fun _ => '\x00', fun _ => '\x00'⟩

def sampleAttrs (attrs : List (String × String)) : Attrs :=
  attrs.foldl (fun tree attr => tree.set attr.1.toList attr.2.toList) .empty

def sampleElement (name : String) (attrs : List (String × String)) : Xml :=
  .item name.toList (sampleAttrs attrs) []

/-- A request with a document of the given elements. -/
def sampleRequest (method : Method) (path : String) (items : List Xml) : Request where
  method := method
  pathinfo := path.toList
  rootUri := "http://h/".toList
  contentType := restmsXml
  contentLength := items.length
  content := some ⟨[], some (.item [] .empty [.item restmsRoot .empty items])⟩
  conditions := ⟨[], [], [], 0, 0⟩
  failed := false
  now := 7000000

end OpenAmq.Zyre
