import OpenAmq.Zyre.Steps

/-!
# Conditional requests

The ETag of a resource is made of the time at which it was created, of its place in the table and
of the content type. No change of a document shows in it, but a table that grows does; and a PUT
or a DELETE is refused when its If-Match header is the ETag, not when it is another one.

* `etag_eq_iff` — when two ETags of a resource are the same
* `Given` — a client has been sent a document and its ETag
* `conditional_right_iff` — when conditional requests are handled as they should be
-/

namespace OpenAmq.Zyre

open OpenAmq.Lib OpenAmq.Zyre.Tree List Option

/-! ## ETags -/

theorem digitChar_injective {m n : Nat} (hm : m < 16) (hn : n < 16)
    (h : Nat.digitChar m = Nat.digitChar n) : m = n := by
  have hall : ∀ m < 16, ∀ n < 16, Nat.digitChar m = Nat.digitChar n → m = n := by decide
  exact hall m hm n hn h

theorem toDigits_sixteen_injective {m n : Nat} (h : Nat.toDigits 16 m = Nat.toDigits 16 n) :
    m = n := by
  induction m using Nat.strongRecOn generalizing n with
  | ind m ih =>
    have hone : ∀ a b, a < 16 → 16 ≤ b → Nat.toDigits 16 a ≠ Nat.toDigits 16 b := by
      intro a b ha hb heq
      have hlength := congrArg length heq
      rw [Nat.toDigits_of_lt_base ha, Nat.toDigits_of_base_le (by decide) hb,
        length_append] at hlength
      exact absurd (Nat.succ.inj hlength) (Nat.ne_of_lt Nat.length_toDigits_pos)
    rcases Nat.lt_or_ge m 16 with hm | hm
    · rcases Nat.lt_or_ge n 16 with hn | hn
      · rw [Nat.toDigits_of_lt_base hm, Nat.toDigits_of_lt_base hn] at h
        exact digitChar_injective hm hn (head_eq_of_cons_eq h)
      · exact absurd h (hone m n hm hn)
    · rcases Nat.lt_or_ge n 16 with hn | hn
      · exact absurd h.symm (hone n m hn hm)
      · rw [Nat.toDigits_of_base_le (by decide) hm, Nat.toDigits_of_base_le (by decide) hn] at h
        obtain ⟨hdiv, hmod⟩ := append_inj' h rfl
        have hdiv := ih (m / 16) (Nat.div_lt_self (by omega) (by decide)) hdiv
        have hmod := digitChar_injective (Nat.mod_lt m (by decide)) (Nat.mod_lt n (by decide))
          (head_eq_of_cons_eq hmod)
        rw [← Nat.div_add_mod m 16, ← Nat.div_add_mod n 16, hdiv, hmod]

theorem etag_eq_iff {r r' : Resource} {index index' : Nat} {type : Str}
    (h : r'.modified = r.modified) : etag r' index' type = etag r index type ↔ index' = index := by
  constructor
  · intro heq
    rw [etag, etag, h] at heq
    have heq := append_cancel_right (append_cancel_right heq)
    exact toDigits_sixteen_injective (append_cancel_left heq)
  · rintro rfl
    rw [etag, etag, h]

theorem etag_ne_nil (r : Resource) (index : Nat) (type : Str) : etag r index type ≠ [] := by
  intro h
  have hdigits := (append_eq_nil_iff.mp h).1
  simp at hdigits

/-! ## A resource stays as it is -/

/-- Resources that are still there have their path, and are not modified. -/
def Kept (t t' : Tree) : Prop :=
  t.next ≤ t'.next ∧ ∀ k, k < t.next → t'.Live k → t'.path k = t.path k ∧ t'.stamp k = t.stamp k

theorem compatible_kept : Compatible Kept where
  trans := by
    rintro t t' t'' ⟨hle, h⟩ ⟨hle', h'⟩
    refine ⟨hle.trans hle', fun k hk hlive => ?_⟩
    obtain ⟨hpath', hstamp'⟩ := h' k (Nat.lt_of_lt_of_le hk hle) hlive
    have hlive' : t'.Live k := by
      rw [live_iff_path] at hlive ⊢
      rwa [← hpath']
    obtain ⟨hpath, hstamp⟩ := h k hk hlive'
    exact ⟨hpath'.trans hpath, hstamp'.trans hstamp⟩
  shape h := ⟨h.next.ge, fun k _ _ => ⟨congrFun h.path k, congrFun h.stamp k⟩⟩
  added {t t' i p n q s} h := by
    refine ⟨by rw [h.next.2]; exact Nat.le_succ _, fun k hk _ => ?_⟩
    have hne : k ≠ i := h.next.1 ▸ Nat.ne_of_lt hk
    exact ⟨by rw [h.path, if_neg hne], h.stamp k hne⟩
  gone {t t' i} h := by
    refine ⟨h.next.ge, fun k _ hlive => ?_⟩
    have hne : k ≠ i := by
      rintro rfl
      rw [live_iff_path, h.path, if_pos rfl] at hlive
      obtain ⟨_, hnone⟩ := hlive
      cases hnone
    exact ⟨by rw [h.path, if_neg hne], by rw [h.stamp, if_neg hne]⟩

/-! ## What a conditional request is answered with -/

variable {env : Env} {s : State} {request : Request} {i : ResourceId}

def Answers (env : Env) (s : State) (request : Request) (code : Nat) : Prop :=
  ∃ out, step env s (.request request) = .ok out ∧
    ∃ reply ∈ out.replies, reply.context = s.requests ∧ reply.code = code

theorem answers_notModified_iff (hbase : Base env s.tree) (hmethod : request.method = .get)
    (htarget : Target s.tree request i) :
    Answers env s request 304 ↔ ¬ Modified s.tree i request := by
  constructor
  · rintro ⟨out, hout, reply, hreply, -, hcode⟩ ⟨r, hr, hmodified⟩
    obtain ⟨w, hhandled, -, hreplies⟩ := handled_of_step hbase hout
    rw [hreplies] at hreply
    cases hhandled with
    | answered hnone => exact (hnone i htarget).1 hmethod
    | @get i' _ htarget' hget =>
      obtain rfl := target_unique htarget htarget'
      obtain ⟨r', hr', ⟨hnot, _⟩ | ⟨_, ⟨_, _, hclosed⟩ | ⟨_, hnil, _⟩⟩⟩ := hget
      · obtain rfl := some.inj (hr.symm.trans hr')
        exact absurd (hnot.symm.trans hmodified) (by decide)
      · exact (hclosed.mem hreply).1.1 hcode
      · rw [hnil] at hreply
        cases hreply
    | put h | delete h | post h =>
      rw [hmethod] at h
      cases h
  · intro hnot
    obtain ⟨out, w, hout, -, hreplies, hhandled⟩ := exists_handled hbase
      ⟨fun _ k hk hmodified => absurd (target_unique htarget hk ▸ hmodified) hnot,
        fun h => absurd (hmethod.symm.trans h) (by decide)⟩
      ⟨fun _ k hk hmodified => absurd (target_unique htarget hk ▸ hmodified) hnot,
        fun h => absurd (hmethod.symm.trans h) (by decide),
        fun h => absurd (hmethod.symm.trans h) (by decide)⟩
      (fun h => absurd (hmethod.symm.trans h) (by decide))
      fun h => absurd (hmethod.symm.trans h) (by decide)
    refine ⟨out, hout, ?_⟩
    rw [hreplies]
    cases hhandled with
    | answered hnone => exact absurd hmethod (hnone i htarget).1
    | @get i' _ htarget' hget =>
      obtain rfl := target_unique htarget htarget'
      obtain ⟨r, hr, ⟨_, _, hclosed⟩ | ⟨hmodified, _⟩⟩ := hget
      · obtain ⟨reply, hlist, hcontext, hcode, -⟩ := hclosed.reply
        exact ⟨reply, hlist ▸ mem_singleton_self _, hcontext, hcode⟩
      · exact absurd ⟨r, hr, hmodified⟩ hnot
    | put h | delete h | post h =>
      rw [hmethod] at h
      cases h

/-- A change is answered with 412 just if the resource is not as expected. -/
theorem answers_precondition_iff (hbase : Base env s.tree)
    (hmethod : request.method = .put ∨ request.method = .delete)
    (htarget : Target s.tree request i) :
    Answers env s request 412 ↔ Unmodified s.tree i request := by
  constructor
  · rintro ⟨out, hout, reply, hreply, -, hcode⟩
    obtain ⟨w, hhandled, -, hreplies⟩ := handled_of_step hbase hout
    rw [hreplies] at hreply
    have hclosed : ∀ {i' : ResourceId}, Target s.tree request i' →
        Closed s.requests (Conditional s.tree i' request) w → Unmodified s.tree i request := by
      intro i' htarget' h
      obtain rfl := target_unique htarget htarget'
      exact (h.mem hreply).2.mp hcode
    cases hhandled with
    | answered hnone => exact (hmethod.elim (hnone i htarget).2.1 (hnone i htarget).2.2.1).elim
    | put _ htarget' hput => exact hclosed htarget' hput.1
    | delete _ htarget' hdelete =>
      rcases hdelete with ⟨_, _, h⟩ | ⟨_, _, _, _, _, ⟨_, hopen, _⟩ | ⟨_, h, _⟩⟩
      · exact hclosed htarget' h
      · rw [hopen.replies] at hreply
        cases hreply
      · exact hclosed htarget' h
    | get h | post h =>
      rw [h] at hmethod
      rcases hmethod with h | h <;> cases h
  · intro hunmodified
    obtain ⟨out, w, hout, -, hreplies, hhandled⟩ := exists_handled hbase
      ⟨fun h => absurd (hmethod.imp h.symm.trans h.symm.trans) (by decide),
        fun h => absurd (hmethod.imp h.symm.trans h.symm.trans) (by decide)⟩
      ⟨fun h => absurd (hmethod.imp h.symm.trans h.symm.trans) (by decide),
        fun _ k hk hnot => absurd (target_unique htarget hk ▸ hunmodified) hnot,
        fun h => absurd (hmethod.imp h.symm.trans h.symm.trans) (by decide)⟩
      (fun _ k hk hnot => absurd (target_unique htarget hk ▸ hunmodified) hnot)
      fun h => absurd (hmethod.imp h.symm.trans h.symm.trans) (by decide)
    refine ⟨out, hout, ?_⟩
    rw [hreplies]
    have hclosed : ∀ {i' : ResourceId}, Target s.tree request i' →
        Closed s.requests (Conditional s.tree i' request) w →
        ∃ reply ∈ w.replies, reply.context = s.requests ∧ reply.code = 412 := by
      intro i' htarget' h
      obtain rfl := target_unique htarget htarget'
      obtain ⟨reply, hlist, hcontext, hcode⟩ := h.reply
      exact ⟨reply, hlist ▸ mem_singleton_self _, hcontext, hcode.2.mpr hunmodified⟩
    cases hhandled with
    | answered hnone => exact (hmethod.elim (hnone i htarget).2.1 (hnone i htarget).2.2.1).elim
    | put _ htarget' hput => exact hclosed htarget' hput.1
    | delete _ htarget' hdelete =>
      rcases hdelete with ⟨_, _, h⟩ | ⟨hnot, _⟩
      · exact hclosed htarget' h
      · obtain rfl := target_unique htarget htarget'
        exact absurd hunmodified hnot
    | get h | post h =>
      rw [h] at hmethod
      rcases hmethod with h | h <;> cases h

/-- The request has none of the headers that make it a conditional one. -/
structure Unconditional (request : Request) : Prop where
  ifMatch : request.conditions.ifMatch = []
  ifNoneMatch : request.conditions.ifNoneMatch = []
  ifModifiedSince : request.conditions.ifModifiedSince = 0
  ifUnmodifiedSince : request.conditions.ifUnmodifiedSince = 0

variable {t : Tree}

theorem unconditional_modified (h : Unconditional request) (hlive : t.Live i) :
    Modified t i request ∧ ¬ Unmodified t i request := by
  obtain ⟨r, hr⟩ := isSome_iff_exists.mp hlive
  refine ⟨⟨r, hr, ?_⟩, ?_⟩
  · have hne := etag_ne_nil r (t.tableIndex r) request.conditions.accept
    simp [modified, h.ifNoneMatch, h.ifModifiedSince, hne]
  · rintro ⟨r', hr', hunmodified⟩
    have hne := etag_ne_nil r' (t.tableIndex r') request.conditions.accept
    simp [unmodified, h.ifMatch, h.ifUnmodifiedSince, hne] at hunmodified

theorem unconditional_answers (hbase : Base env s.tree) (h : Unconditional request) :
    ¬ Answers env s request 412 ∧ ¬ Answers env s request 304 := by
  have hall : ∀ code, Answers env s request code → code ≠ 304 ∧ code ≠ 412 := by
    rintro code ⟨out, hout, reply, hreply, -, rfl⟩
    obtain ⟨w, hhandled, -, hreplies⟩ := handled_of_step hbase hout
    rw [hreplies] at hreply
    have hclosed : ∀ {C : ReplySpec}, Closed s.requests C w →
        (∀ code answer, C code answer → code ≠ 304 ∧ code ≠ 412) →
        reply.code ≠ 304 ∧ reply.code ≠ 412 := fun h himp => himp _ _ (h.mem hreply)
    have hconditional : ∀ {i}, Target s.tree request i → ∀ code answer,
        Conditional s.tree i request code answer → code ≠ 304 ∧ code ≠ 412 :=
      fun htarget code answer hcode => ⟨hcode.1, fun h412 =>
        (unconditional_modified h (hbase.table.live htarget.2)).2 (hcode.2.mp h412)⟩
    cases hhandled with
    | answered _ _ h => exact hclosed h fun _ _ h => h
    | @get i _ htarget hget =>
      obtain ⟨r, hr, ⟨hnot, _⟩ | ⟨_, ⟨_, _, h⟩ | ⟨_, hnil, _⟩⟩⟩ := hget
      · obtain ⟨⟨r', hr', hmodified⟩, -⟩ := unconditional_modified h (hbase.table.live htarget.2)
        obtain rfl := some.inj (hr.symm.trans hr')
        exact absurd (hnot.symm.trans hmodified) (by decide)
      · exact hclosed h fun _ _ h => h.1
      · rw [hnil] at hreply
        cases hreply
    | put _ htarget hput => exact hclosed hput.1 (hconditional htarget)
    | delete _ htarget hdelete =>
      rcases hdelete with ⟨_, _, h⟩ | ⟨_, _, _, _, _, ⟨_, hopen, _⟩ | ⟨_, h, _⟩⟩
      · exact hclosed h (hconditional htarget)
      · rw [hopen.replies] at hreply
        cases hreply
      · exact hclosed h (hconditional htarget)
    | post _ _ hpost => exact hclosed hpost.1 fun _ _ h => h
  exact ⟨fun h => (hall 412 h).2 rfl, fun h => (hall 304 h).1 rfl⟩

/-! ## When they are handled as they should be -/

/-- A client that has asked for the resource `i` with the Accept header is sent the document `d`
with its ETag, at once or when a message has come. -/
inductive Given (s : State) (out : Outcome) (i : ResourceId) (accept : Str) (d : Xml) (tag : Str) :
    Event → Prop
  | get {request : Request} {code : Nat} (hmethod : request.method = .get)
    (htarget : Target s.tree request i) (haccept : request.conditions.accept = accept)
    (hreply : ⟨s.requests, code, .document d tag⟩ ∈ out.replies) :
    Given s out i accept d tag (.request request)
  | waited {delivery : Delivery} {p : ResourceId} {pipe : Pipe} {message : Message}
    {waiting : Waiting} (htag : s.tree.pipeOfTag delivery.consumerTag = some p)
    (hpipe : s.tree.server p = some (.pipe pipe)) (hasynclet : pipe.asynclet = some i)
    (hmessage : s.tree.server i = some (.message message))
    (hcontext : message.context = some waiting) (haccept : waiting.accept = accept)
    (hreply : ⟨waiting.context, 200, .document d tag⟩ ∈ out.replies) :
    Given s out i accept d tag (.deliver delivery)

theorem Given.shows {out : Outcome} {accept tag : Str} {d : Xml} {e : Event}
    (h : Given s out i accept d tag e) (hbase : Base env s.tree) (hout : step env s e = .ok out) :
    ∃ rootUri, Shows env out.state.tree i rootUri accept d tag := by
  cases h with
  | @get request code hmethod htarget haccept hreply =>
    obtain ⟨w, hhandled, htree, hreplies⟩ := handled_of_step hbase hout
    rw [hreplies] at hreply
    refine ⟨request.rootUri, ?_⟩
    rw [htree, ← haccept]
    cases hhandled with
    | answered hnone => exact absurd hmethod (hnone i htarget).1
    | @get i' _ htarget' hget =>
      obtain rfl := target_unique htarget htarget'
      obtain ⟨r, hr, ⟨_, _, h⟩ | ⟨_, ⟨_, huntouched, h⟩ | ⟨_, hnil, _⟩⟩⟩ := hget
      · exact absurd rfl ((h.mem hreply).2 d tag)
      · rw [huntouched.1]
        exact (h.mem hreply).2 d tag rfl
      · rw [hnil] at hreply
        cases hreply
    | put h | delete h | post h =>
      rw [hmethod] at h
      cases h
  | @waited delivery p pipe message waiting htag hpipe hasynclet hmessage hcontext haccept hreply =>
    cases step_ok hbase hout with
    | deliver harrived =>
      cases harrived with
      | undeliverable => cases hreply
      | message htag' harrived hreplies =>
        obtain rfl := some.inj (htag.symm.trans htag')
        obtain rfl := Server.pipe.inj (some.inj (hpipe.symm.trans harrived.hpipe))
        obtain rfl := some.inj (hasynclet.symm.trans harrived.hasynclet)
        obtain rfl := Server.message.inj (some.inj (hmessage.symm.trans harrived.hmessage))
        rw [hcontext] at hreplies
        cases hreplies with
        | gone => cases hreply
        | sent _ hshows =>
          rw [mem_singleton] at hreply
          obtain ⟨rfl, rfl⟩ := Answer.document.inj (congrArg Reply.answer hreply)
          exact ⟨_, haccept ▸ hshows⟩

/-- The document of the resource is `d`. -/
def HasDocument (env : Env) (t : Tree) (i : ResourceId) (rootUri : Str) (d : Xml) : Prop :=
  ∃ r, t.heap i = some r ∧ Work.documentOf env t rootUri r = .ok d

def place (t : Tree) (i : ResourceId) : Option Nat := (t.heap i).map t.tableIndex

/-- The If-Modified-Since header of the request is the second in which the resource has been
created. -/
def SinceSecond (t : Tree) (i : ResourceId) (request : Request) : Prop :=
  request.conditions.ifModifiedSince / 1000000 ≠ 0 ∧
    (t.stamp i).map (· / 1000000) = some (request.conditions.ifModifiedSince / 1000000)

/-- The If-Unmodified-Since header of the request is the second in which the resource has been
created. -/
def UntilSecond (t : Tree) (i : ResourceId) (request : Request) : Prop :=
  request.conditions.ifUnmodifiedSince / 1000000 ≠ 0 ∧
    (t.stamp i).map (· / 1000000) = some (request.conditions.ifUnmodifiedSince / 1000000)

/-- The ETag that a GET with the Accept header would be answered with. -/
def IsTag (t : Tree) (i : ResourceId) (accept tag : Str) : Prop :=
  ∃ r, t.heap i = some r ∧ tag = etag r (t.tableIndex r) accept

theorem modified_iff (hlive : t.Live i) :
    ¬ Modified t i request ↔ IsTag t i request.conditions.accept request.conditions.ifNoneMatch ∨
      SinceSecond t i request := by
  obtain ⟨r, hr⟩ := isSome_iff_exists.mp hlive
  have hstamp : t.stamp i = some r.modified := (views hr).2.2.2.2.2
  simp only [Modified, IsTag, SinceSecond, hstamp, hr, some.injEq, exists_eq_left',
    modified, map_some, Bool.not_eq_true', Bool.not_eq_false, Bool.or_eq_true,
    Bool.and_eq_true, beq_iff_eq, bne_iff_ne]
  exact or_congr eq_comm Iff.rfl

theorem unmodified_iff (hlive : t.Live i) :
    Unmodified t i request ↔ IsTag t i request.conditions.accept request.conditions.ifMatch ∨
      UntilSecond t i request := by
  obtain ⟨r, hr⟩ := isSome_iff_exists.mp hlive
  have hstamp : t.stamp i = some r.modified := (views hr).2.2.2.2.2
  simp only [Unmodified, IsTag, UntilSecond, hstamp, hr, some.injEq, exists_eq_left',
    unmodified, map_some, Bool.or_eq_true, Bool.and_eq_true, beq_iff_eq, bne_iff_ne]
  exact or_congr eq_comm Iff.rfl

/-- A PUT or a DELETE with an If-Match header is refused just when that is no ETag which the
resource has now, for whatever content type. -/
def MatchRight (env : Env) (s : State) (request : Request) (i : ResourceId) : Prop :=
  Answers env s request 412 ↔ ¬ ∃ accept, IsTag s.tree i accept request.conditions.ifMatch

/-- A GET is answered with 304 just when the document is still `d`. -/
def NoneMatchRight (env : Env) (s : State) (request : Request) (i : ResourceId) (d : Xml) : Prop :=
  Answers env s request 304 ↔ HasDocument env s.tree i request.rootUri d

theorem matchRight_iff (hbase : Base env s.tree)
    (hmethod : request.method = .put ∨ request.method = .delete)
    (htarget : Target s.tree request i) :
    MatchRight env s request i ↔
      ¬ IsTag s.tree i request.conditions.accept request.conditions.ifMatch ∧
      ((∃ accept, IsTag s.tree i accept request.conditions.ifMatch) ↔
        ¬ UntilSecond s.tree i request) := by
  have hcurrent : IsTag s.tree i request.conditions.accept request.conditions.ifMatch →
      ∃ accept, IsTag s.tree i accept request.conditions.ifMatch := fun h => ⟨_, h⟩
  rw [MatchRight, answers_precondition_iff hbase hmethod htarget,
    unmodified_iff (hbase.table.live htarget.2)]
  tauto

theorem isTag_iff_place {t' : Tree} {rootUri accept tag : Str} {d : Xml} (hfresh : t.FreshOk)
    (hkept : Kept t t') (h : Shows env t i rootUri accept d tag) (hlive : t'.Live i) :
    IsTag t' i accept tag ↔ place t' i = place t i := by
  obtain ⟨r, hr, -, rfl⟩ := h
  obtain ⟨r', hr'⟩ := isSome_iff_exists.mp hlive
  have hlt : i < t.next := by
    by_contra hge
    rw [hfresh i (Nat.le_of_not_lt hge)] at hr
    cases hr
  have hmodified : r'.modified = r.modified := by
    have hstamp := (hkept.2 i hlt hlive).2
    rw [(views hr').2.2.2.2.2, (views hr).2.2.2.2.2] at hstamp
    exact some.inj hstamp
  rw [place, place, hr, hr', map_some, map_some, some.injEq, ← etag_eq_iff hmodified]
  constructor
  · rintro ⟨r1, hr1, htag⟩
    obtain rfl := some.inj (hr'.symm.trans hr1)
    exact htag.symm
  · intro htag
    exact ⟨r', hr', htag.symm⟩

/--
Conditional requests in any state that a run leads to.

A PUT or a DELETE with an If-Match header is handled as it should be just when the header is not
the ETag for the Accept header of the request, and either one for another content type or the
request is refused for its If-Unmodified-Since header. A GET with an ETag that has been given
before is when the document is the same just if the place of the resource in the table is, or
for its If-Modified-Since header. Requests without such headers always are.
-/
theorem conditional_right_iff {now : Nat} {es : List Event}
    (hrun : run (next env) (State.new now) es = some s) :
    (∀ request i, request.method = .put ∨ request.method = .delete → Target s.tree request i →
      request.conditions.ifMatch ≠ [] →
      (MatchRight env s request i ↔
        ¬ IsTag s.tree i request.conditions.accept request.conditions.ifMatch ∧
        ((∃ accept, IsTag s.tree i accept request.conditions.ifMatch) ↔
          ¬ UntilSecond s.tree i request))) ∧
    (∀ e out i accept d tag, step env s e = .ok out → Given s out i accept d tag e →
      ∀ es' s', run (next env) out.state es' = some s' → ∀ request, request.method = .get →
      Target s'.tree request i → request.conditions.accept = accept →
      request.conditions.ifNoneMatch = tag →
      (NoneMatchRight env s' request i d ↔
        (place s'.tree i = place out.state.tree i ∨ SinceSecond s'.tree i request ↔
          HasDocument env s'.tree i request.rootUri d))) ∧
    ∀ request, Unconditional request →
      ¬ Answers env s request 412 ∧ ¬ Answers env s request 304 := by
  have hbase : Base env s.tree := base_of_run (base_new now) hrun
  refine ⟨fun request i hmethod htarget _ => matchRight_iff hbase hmethod htarget, ?_,
    fun request h => unconditional_answers hbase h⟩
  rintro e out i _ d _ hout hgiven es' s' hrun' request hmethod htarget rfl rfl
  have hbase1 : Base env out.state.tree := hbase.stepped (step_ok hbase hout)
  have hbase' := base_of_run hbase1 hrun'
  have hlive := hbase'.table.live htarget.2
  obtain ⟨rootUri, hshows⟩ := hgiven.shows hbase hout
  rw [NoneMatchRight, answers_notModified_iff hbase' hmethod htarget, modified_iff hlive,
    isTag_iff_place hbase1.fresh (compatible_kept.run hbase1 hrun') hshows hlive]

/-- A named feed is created. -/
def feedPosted : Event :=
  .request (sampleRequest .post "/domain/default" [sampleElement "feed" [("name", "a")]])

/-- A request with an ETag in its headers. -/
def taggedRequest (method : Method) (path tag : String) : Request :=
  { sampleRequest method path [] with conditions := ⟨[], tag.toList, tag.toList, 0, 0⟩ }

def tagOf : Answer → Option Str
  | .document _ tag => some tag
  | _ => none

/-- The default domain in a new tree, which is asked for twice, and updated. -/
theorem conditional_right_iff_domain :
    (MatchRight sampleEnv (State.new 0) (taggedRequest .put "/domain/default" "x") 0 ↔
      ¬ IsTag (Tree.new 0) 0 [] "x".toList ∧ ((∃ accept, IsTag (Tree.new 0) 0 accept "x".toList) ↔
        ¬ UntilSecond (Tree.new 0) 0 (taggedRequest .put "/domain/default" "x"))) ∧
    (∃ out d, step sampleEnv (State.new 0) (.request (sampleRequest .get "/domain/default" [])) =
        .ok out ∧
      (NoneMatchRight sampleEnv out.state (taggedRequest .get "/domain/default" "0-8a-3") 0 d ↔
        (place out.state.tree 0 = place out.state.tree 0 ∨
          SinceSecond out.state.tree 0 (taggedRequest .get "/domain/default" "0-8a-3") ↔
          HasDocument sampleEnv out.state.tree 0 "http://h/".toList d))) ∧
    ¬ Answers sampleEnv (State.new 0) (sampleRequest .delete "/feed/default" []) 412 := by
  have hrun : run (next sampleEnv) (State.new 0) [] = some (State.new 0) := rfl
  refine ⟨(conditional_right_iff hrun).1 _ 0 (.inl rfl) ⟨by decide, rfl⟩ (by decide), ?_,
    ((conditional_right_iff hrun).2.2 _ ⟨rfl, rfl, rfl, rfl⟩).1⟩
  have hget : (step sampleEnv (State.new 0)
      (.request (sampleRequest .get "/domain/default" []))).toOption.map (fun out =>
        (out.state.tree.lookup "/domain/default".toList,
          out.replies.map fun r => (r.context, tagOf r.answer))) =
      some (some 0, [(0, some "0-8a-3".toList)]) := by
    decide +kernel
  obtain ⟨out, hout, hfacts⟩ := map_eq_some_iff.mp hget
  obtain ⟨hlookup, hreplies⟩ := Prod.mk.inj hfacts
  have hstep := toOption_eq_some.mp hout
  obtain ⟨⟨context, code, answer⟩, hreply, hfields⟩ := map_eq_singleton_iff.mp hreplies
  obtain ⟨hcontext, htag⟩ := Prod.mk.inj hfields
  cases answer with
  | document d tag =>
    obtain rfl : tag = "0-8a-3".toList := some.inj htag
    obtain rfl : context = 0 := hcontext
    have hgiven : Given (State.new 0) out 0 [] d "0-8a-3".toList
        (.request (sampleRequest .get "/domain/default" [])) :=
      .get rfl ⟨by decide, rfl⟩ rfl (by rw [hreply]; exact mem_singleton_self _)
    exact ⟨out, d, hstep, (conditional_right_iff hrun).2.1 _ out 0 [] d _ hstep hgiven [] _ rfl
      _ rfl ⟨by decide, hlookup⟩ rfl rfl⟩
  | nothing | content => cases htag

/-- A PUT on a feed whose If-Match header is the ETag of the feed is refused. -/
theorem matching_put_refused : ∃ s, run (next sampleEnv) (State.new 0) [feedPosted] = some s ∧
    Target s.tree (taggedRequest .put "/feed/a" "6acfc0-fa-3") 2 ∧
    IsTag s.tree 2 [] "6acfc0-fa-3".toList ∧
    ¬ MatchRight sampleEnv s (taggedRequest .put "/feed/a" "6acfc0-fa-3") 2 := by
  have hrun : (run (next sampleEnv) (State.new 0) [feedPosted]).map (fun s =>
      (s.tree.lookup "/feed/a".toList,
        (s.tree.heap 2).map fun r => etag r (s.tree.tableIndex r) [])) =
      some (some 2, some "6acfc0-fa-3".toList) := by
    decide +kernel
  obtain ⟨s, hs, hfacts⟩ := map_eq_some_iff.mp hrun
  obtain ⟨hlookup, htag⟩ := Prod.mk.inj hfacts
  obtain ⟨r, hr, htag⟩ := map_eq_some_iff.mp htag
  have htarget : Target s.tree (taggedRequest .put "/feed/a" "6acfc0-fa-3") 2 :=
    ⟨by decide, hlookup⟩
  have hcurrent : IsTag s.tree 2 [] "6acfc0-fa-3".toList := ⟨r, hr, htag.symm⟩
  refine ⟨s, hs, htarget, hcurrent, fun hright => ?_⟩
  exact ((matchRight_iff (base_of_run (base_new 0) hs) (.inl rfl) htarget).mp hright).1 hcurrent

end OpenAmq.Zyre
