import OpenAmq.Zyre.Asynclets

/-!
# Feeds, pipes and joins

A join is listed by its pipe and by its feed, under keys that are made of its address and of the
path of the other one. A join is unlisted by these keys, so it must be the first that has them.

* `JoinsOk` — the lists hold exactly the joins that are there
* `First`, `Unmixed` — a join can be found by its key in the list of its feed
* `JoinsOk.joinNew`, `JoinsOk.unjoined`, `JoinsOk.posted`, … — the operations keep it
-/

namespace OpenAmq.Zyre

open OpenAmq.Lib OpenAmq.Zyre.Tree List Option

variable {env : Env} {t t' t'' : Tree} {i j : ResourceId}

/-! ## Lists with keys -/

section Lists

variable {α : Type*} {p q : α → Bool} {a e : α} {l : List α}

theorem mem_eraseP_of_find (hn : l.Nodup) (h : l.find? p = some e) :
    a ∈ l.eraseP p ↔ a ∈ l ∧ a ≠ e := by
  induction l with
  | nil => cases h
  | cons b l ih =>
    obtain ⟨hb, hn⟩ := nodup_cons.mp hn
    cases hp : p b with
    | true =>
      rw [find?_cons_of_pos hp] at h
      cases h
      rw [eraseP_cons_of_pos hp, mem_cons]
      constructor
      · exact fun ha => ⟨.inr ha, ne_of_mem_of_not_mem ha hb⟩
      · exact fun ⟨ha, hne⟩ => ha.resolve_left hne
    | false =>
      have hp' : ¬ p b = true := Bool.eq_false_iff.mp hp
      rw [find?_cons_of_neg hp'] at h
      have hbe : b ≠ e := by
        rintro rfl
        exact hp' (find?_some h)
      rw [eraseP_cons_of_neg hp', mem_cons, mem_cons, ih hn h]
      constructor
      · rintro (rfl | ⟨ha, hne⟩)
        · exact ⟨.inl rfl, hbe⟩
        · exact ⟨.inr ha, hne⟩
      · rintro ⟨rfl | ha, hne⟩
        · exact .inl rfl
        · exact .inr ⟨ha, hne⟩

theorem find_eraseP (h : ∀ a ∈ l, p a = true → q a = false) : (l.eraseP q).find? p = l.find? p := by
  induction l with
  | nil => rfl
  | cons b l ih =>
    have ih := ih fun a ha => h a (mem_cons_of_mem _ ha)
    cases hq : q b with
    | true =>
      have hp : ¬ p b = true := fun hp =>
        absurd ((h b mem_cons_self hp).symm.trans hq) (by decide)
      rw [eraseP_cons_of_pos hq, find?_cons_of_neg hp]
    | false =>
      rw [eraseP_cons_of_neg (Bool.eq_false_iff.mp hq)]
      cases hp : p b with
      | true => rw [find?_cons_of_pos hp, find?_cons_of_pos hp]
      | false =>
        have hp' := Bool.eq_false_iff.mp hp
        rw [find?_cons_of_neg hp', find?_cons_of_neg hp', ih]

theorem find_of_nodup_keys {l : JoinList} {e : Str × ResourceId} (hn : (l.map Prod.fst).Nodup)
    (he : e ∈ l) : l.find? (fun e' => e'.1 == e.1) = some e := by
  induction l with
  | nil => cases he
  | cons b l ih =>
    rw [map_cons, nodup_cons] at hn
    rcases mem_cons.mp he with rfl | he
    · exact find?_cons_of_pos (beq_self_eq_true _)
    · have hne : b.1 ≠ e.1 := fun heq => hn.1 (heq ▸ mem_map_of_mem he)
      exact (find?_cons_of_neg (by simpa using hne)).trans (ih hn.2 he)

end Lists

/-! ## What feeds, pipes and joins are -/

/-- A feed, a pipe or a join. -/
inductive Kind where
  | feed (dynamic : Bool) (type : Str)
  | pipe (type : Str)
  | join (join : Join)

/-- Of a server object, what a feed, a pipe or a join is. -/
def Server.kind : Server → Option Kind
  | feed f => some (.feed f.dynamic f.type)
  | pipe p => some (.pipe p.type)
  | join x => some (.join x)
  | _ => none

/-- The feed, the pipe or the join that a resource is. -/
def Tree.kind (t : Tree) (i : ResourceId) : Option Kind := (t.server i).bind Server.kind

theorem Server.kind_setJoins (s : Server) (l : JoinList) : (s.setJoins l).kind = s.kind := by
  cases s <;> rfl

theorem kind_eq_bare : t.kind i = (t.bare i).bind Server.kind := by
  rw [Tree.kind, Tree.bare]
  cases t.server i with
  | none => rfl
  | some s => exact (s.kind_setJoins []).symm

variable {s : Server} {x : Join} {type n pp fp pp' fp' : Str}

theorem kind_of_server (h : t.server i = some s) : t.kind i = s.kind := by
  rw [Tree.kind, h]
  rfl

theorem kind_of_fresh (h : t.heap i = none) : t.kind i = none := by
  rw [Tree.kind, Tree.server, h]
  rfl

theorem live_of_kind {x : Kind} (h : t.kind i = some x) : t.Live i := by
  obtain ⟨s, hs, -⟩ := bind_eq_some_iff.mp h
  exact live_of_server hs

theorem kind_join_iff : t.kind i = some (.join x) ↔ t.server i = some (.join x) := by
  rw [Tree.kind]
  cases t.server i with
  | none => simp
  | some s => cases s <;> simp [Server.kind]

theorem kind_pipe_iff :
    t.kind i = some (.pipe type) ↔ ∃ p, t.bare i = some (.pipe p) ∧ p.type = type := by
  rw [kind_eq_bare]
  cases t.bare i with
  | none => simp
  | some s => cases s <;> simp [Server.kind]

theorem kind_feed_iff {dynamic : Bool} : t.kind i = some (.feed dynamic type) ↔
    ∃ f, t.bare i = some (.feed f) ∧ f.dynamic = dynamic ∧ f.type = type := by
  rw [kind_eq_bare]
  cases t.bare i with
  | none => simp
  | some s => cases s <;> simp [Server.kind]

/-! ## Steps that change nothing of that -/

/-- No feeds, pipes or joins change. -/
structure Still (t t' : Tree) : Prop where
  kind : ∀ k, t'.kind k = t.kind k
  joins : ∀ k, t'.joins k = t.joins k
  name : ∀ k, t.kind k ≠ none → t'.name k = t.name k
  path : ∀ k, t.kind k ≠ none → t'.path k = t.path k

theorem Still.refl (t : Tree) : Still t t :=
  ⟨fun _ => rfl, fun _ => rfl, fun _ _ => rfl, fun _ _ => rfl⟩

theorem Still.trans (h : Still t t') (h' : Still t' t'') : Still t t'' where
  kind k := (h'.kind k).trans (h.kind k)
  joins k := (h'.joins k).trans (h.joins k)
  name k hk := (h'.name k (by rwa [h.kind])).trans (h.name k hk)
  path k hk := (h'.path k (by rwa [h.kind])).trans (h.path k hk)

theorem Tree.ServerSet.still {s' : Server} (h : ServerSet t t' i s') (hs : t.server i = some s)
    (hkind : s'.kind = s.kind) (hjoins : s'.joins = s.joins) : Still t t' where
  kind k := by
    rw [Tree.kind, h.server]
    split
    · next hk => rw [hk, kind_of_server hs, ← hkind]; rfl
    · rfl
  joins k := by
    rw [h.joins]
    split
    · next hk => rw [hk, joins_of_server hs, hjoins]
    · rfl
  name k _ := congrFun h.name k
  path k _ := congrFun h.path k

variable {p : ResourceId}

theorem Tree.Added.kind {q : Str} (h : Added t t' i p n q s) (k : ResourceId) :
    t'.kind k = if k = i then s.kind else t.kind k := by
  rw [Tree.kind, h.server]
  split <;> rfl

theorem joins_of_fresh (h : t.heap i = none) : t.joins i = [] := by
  rw [Tree.joins, Tree.server, h]
  rfl

theorem Server.joins_of_kind (h : s.kind = none) : s.joins = [] := by
  cases s with
  | feed | pipe | join => cases h
  | domain | message | content => rfl

theorem Tree.Added.ne_of_kind {q : Str} (h : Added t t' i p n q s)
    {k : ResourceId} (hk : t.kind k ≠ none) : k ≠ i := by
  rintro rfl
  exact hk (kind_of_fresh h.fresh)

theorem Tree.Added.still {q : Str} (h : Added t t' i p n q s)
    (hs : s.kind = none) : Still t t' where
  kind k := by
    rw [h.kind, hs]
    split
    · next hk => rw [hk, kind_of_fresh h.fresh]
    · rfl
  joins k := by
    rw [h.joins, Server.joins_of_kind hs]
    split
    · next hk => rw [hk, joins_of_fresh h.fresh]
    · rfl
  name k hk := by rw [h.name, if_neg (h.ne_of_kind hk)]
  path k hk := by rw [h.path, if_neg (h.ne_of_kind hk)]

theorem Tree.Gone.kind (h : Gone t t' i) (k : ResourceId) :
    t'.kind k = if k = i then none else t.kind k := by
  rw [Tree.kind, h.server]
  split <;> rfl

theorem joins_of_kind (h : t.kind i = none) : t.joins i = [] := by
  rw [Tree.joins]
  cases hs : t.server i with
  | none => rfl
  | some s =>
    rw [kind_of_server hs] at h
    exact Server.joins_of_kind h

theorem Tree.Gone.still (h : Gone t t' i) (hi : t.kind i = none) : Still t t' where
  kind k := by
    rw [h.kind]
    split
    · next hk => rw [hk, hi]
    · rfl
  joins k := by
    rw [h.joins]
    split
    · next hk => rw [hk, joins_of_kind hi]
    · rfl
  name k hk := by
    rw [h.name, if_neg]
    rintro rfl
    exact hk hi
  path k hk := by
    rw [h.path, if_neg]
    rintro rfl
    exact hk hi

theorem Sent.still {feedName : Str} {requests : List BackendRequest}
    (h : Sent feedName t t' requests) : Still t t' := by
  induction h with
  | nil => exact .refl _
  | plain _ ih => exact ih
  | used hcontent hd _ ih => exact (hd.toGone.still (kind_of_server hcontent)).trans ih

theorem TitleSet.still (h : TitleSet t t' i) : Still t t' := by
  rcases h with rfl | ⟨s, s', hs, hretitled, hset⟩
  · exact .refl _
  · refine hset.still hs ?_ hretitled.sameClass.joins
    cases hretitled <;> rfl

theorem HeldAt.still {waiting : Waiting} (h : HeldAt t t' i waiting) : Still t t' := by
  obtain ⟨m, hm, -, hset⟩ := h
  exact hset.still hm rfl rfl

theorem AsyncletAdded.still {a : ResourceId} (h : AsyncletAdded env t t' a i) : Still t t' := by
  obtain ⟨t1, pipe, hc, hpipe, hset⟩ := h
  refine (hc.added.still rfl).trans (hset.still (s := .pipe pipe) ?_ rfl rfl)
  rw [hc.added.server, if_neg (hc.added.ne_of_live (live_of_server hpipe)), hpipe]

theorem MessageArrived.still {delivery : Delivery} {a : ResourceId} {pipe : Pipe}
    {message : Message} (h : MessageArrived env t t' delivery i a pipe message headers) :
    Still t t' := by
  obtain ⟨-, -, hmessage, -, t1, t2, k, a', x, -, hc, hset, hadded⟩ := h
  refine ((hc.added.still rfl).trans (hset.still (s := .message message) ?_ rfl rfl)).trans
    hadded.still
  rw [hc.added.server, if_neg (hc.added.ne_of_live (live_of_server hmessage)), hmessage]

/-! ## The lists of joins -/

structure Joining (t : Tree) (x : Join) (pipePath feedPath : Str) : Prop where
  pipe : ∃ type, t.kind x.pipe = some (.pipe type)
  feed : ∃ dynamic type, t.kind x.feed = some (.feed dynamic type)
  pipePath : t.path x.pipe = some pipePath
  feedPath : t.path x.feed = some feedPath

/-- An entry of the list of `o` is one of the two of a join. -/
def IsEntry (o : ResourceId) (e : Str × ResourceId) (j : ResourceId) (x : Join)
    (pipePath feedPath : Str) : Prop :=
  e.2 = j ∧ (o = x.pipe ∧ e.1 = joinKey x.address feedPath ∨
    o = x.feed ∧ e.1 = joinKey x.address pipePath)

/-- The lists hold exactly the joins that are there, each once, and those of a pipe all have
different keys. -/
structure JoinsOk (t : Tree) : Prop where
  entry : ∀ o e, e ∈ t.joins o → ∃ j x pp fp, t.kind j = some (.join x) ∧ Joining t x pp fp ∧
    IsEntry o e j x pp fp
  listed : ∀ j x, t.kind j = some (.join x) → ∃ pp fp, Joining t x pp fp ∧
    ∀ o e, IsEntry o e j x pp fp → e ∈ t.joins o
  nodup : ∀ o, ((t.joins o).map Prod.snd).Nodup
  keys : ∀ o type, t.kind o = some (.pipe type) → ((t.joins o).map Prod.fst).Nodup

theorem Still.joining (h : Still t t') (hx : Joining t x pp fp) : Joining t' x pp fp := by
  obtain ⟨⟨_, hpipe⟩, ⟨_, _, hfeed⟩, hpp, hfp⟩ := hx
  refine ⟨⟨_, (h.kind _).trans hpipe⟩, ⟨_, _, (h.kind _).trans hfeed⟩, ?_, ?_⟩
  · rw [h.path _ (by rw [hpipe]; nofun), hpp]
  · rw [h.path _ (by rw [hfeed]; nofun), hfp]

theorem JoinsOk.still (h : JoinsOk t) (hs : Still t t') : JoinsOk t' := by
  refine ⟨fun o e he => ?_, fun j x hj => ?_, fun o => ?_, fun o type ho => ?_⟩
  · rw [hs.joins] at he
    obtain ⟨j, x, pp, fp, hj, hx, hentry⟩ := h.entry o e he
    exact ⟨j, x, pp, fp, (hs.kind j).trans hj, hs.joining hx, hentry⟩
  · rw [hs.kind] at hj
    obtain ⟨pp, fp, hx, hlisted⟩ := h.listed j x hj
    refine ⟨pp, fp, hs.joining hx, fun o e he => ?_⟩
    rw [hs.joins]
    exact hlisted o e he
  · rw [hs.joins]
    exact h.nodup o
  · rw [hs.kind] at ho
    rw [hs.joins]
    exact h.keys o type ho

theorem Joining.unique (h : Joining t x pp fp) (h' : Joining t x pp' fp') : pp' = pp ∧ fp' = fp :=
  ⟨some.inj (h'.pipePath.symm.trans h.pipePath), some.inj (h'.feedPath.symm.trans h.feedPath)⟩

theorem Joining.ne (h : Joining t x pp fp) : x.pipe ≠ x.feed := by
  obtain ⟨_, hpipe⟩ := h.pipe
  obtain ⟨_, _, hfeed⟩ := h.feed
  intro heq
  rw [heq, hfeed] at hpipe
  cases hpipe

theorem Joining.ne_join {x' : Join} (h : Joining t x pp fp) (hj : t.kind j = some (.join x')) :
    x.pipe ≠ j ∧ x.feed ≠ j := by
  obtain ⟨_, hpipe⟩ := h.pipe
  obtain ⟨_, _, hfeed⟩ := h.feed
  constructor
  · intro heq
    rw [heq, hj] at hpipe
    cases hpipe
  · intro heq
    rw [heq, hj] at hfeed
    cases hfeed

theorem JoinsOk.added {q : Str} (h : JoinsOk t) (ha : Added t t' i p n q s)
    (hs : s.joins = []) (hjoin : ∀ x, s ≠ .join x) : JoinsOk t' := by
  have hold : ∀ {k x}, t.kind k = some x → t'.kind k = some x ∧ t'.path k = t.path k := by
    intro k x hk
    have hne := ha.ne_of_kind (by rw [hk]; nofun)
    exact ⟨by rw [ha.kind, if_neg hne, hk], by rw [ha.path, if_neg hne]⟩
  have hjoins : ∀ o, t'.joins o = t.joins o := by
    intro o
    rw [ha.joins, hs]
    split
    · next ho => rw [ho, joins_of_fresh ha.fresh]
    · rfl
  have hkeeps : ∀ {x : Join} {pp fp : Str}, Joining t x pp fp → Joining t' x pp fp := by
    rintro x pp fp ⟨⟨_, hpipe⟩, ⟨_, _, hfeed⟩, hpp, hfp⟩
    exact ⟨⟨_, (hold hpipe).1⟩, ⟨_, _, (hold hfeed).1⟩, (hold hpipe).2.trans hpp,
      (hold hfeed).2.trans hfp⟩
  refine ⟨fun o e he => ?_, fun j x hj => ?_, fun o => ?_, fun o type ho => ?_⟩
  · rw [hjoins] at he
    obtain ⟨j, x, pp, fp, hj, hx, hentry⟩ := h.entry o e he
    exact ⟨j, x, pp, fp, (hold hj).1, hkeeps hx, hentry⟩
  · rw [ha.kind] at hj
    split at hj
    · cases s with
      | join x' => exact absurd rfl (hjoin x')
      | domain | feed | pipe | message | content => cases hj
    · obtain ⟨pp, fp, hx, hlisted⟩ := h.listed j x hj
      exact ⟨pp, fp, hkeeps hx, fun o e he => by rw [hjoins]; exact hlisted o e he⟩
  · rw [hjoins]
    exact h.nodup o
  · rw [hjoins]
    rw [ha.kind] at ho
    split at ho
    · next hoi => rw [hoi, joins_of_fresh ha.fresh]; exact nodup_nil
    · exact h.keys o type ho

theorem JoinsOk.gone (h : JoinsOk t) (hg : Gone t t' i) (hi : t.joins i = [])
    (hjoin : ∀ x, t.kind i ≠ some (.join x)) : JoinsOk t' := by
  have hjoins : ∀ o, t'.joins o = t.joins o := by
    intro o
    rw [hg.joins]
    split
    · next ho => rw [ho, hi]
    · rfl
  -- no join that is still there was one of it
  have hkeeps : ∀ {j : ResourceId} {x : Join} {pp fp : Str}, t.kind j = some (.join x) →
      Joining t x pp fp → Joining t' x pp fp := by
    intro j x pp fp hj hx
    obtain ⟨pp', fp', hx', hlisted⟩ := h.listed j x hj
    have hne : ∀ o, o = x.pipe ∨ o = x.feed → o ≠ i := by
      rintro o ho rfl
      have hmem : ∃ e, e ∈ t.joins o := by
        rcases ho with rfl | rfl
        · exact ⟨_, hlisted x.pipe (_, j) ⟨rfl, .inl ⟨rfl, rfl⟩⟩⟩
        · exact ⟨_, hlisted x.feed (_, j) ⟨rfl, .inr ⟨rfl, rfl⟩⟩⟩
      obtain ⟨e, he⟩ := hmem
      rw [hi] at he
      cases he
    obtain ⟨⟨_, hpipe⟩, ⟨_, _, hfeed⟩, hpp, hfp⟩ := hx
    have hp := hne x.pipe (.inl rfl)
    have hf := hne x.feed (.inr rfl)
    exact ⟨⟨_, by rw [hg.kind, if_neg hp, hpipe]⟩, ⟨_, _, by rw [hg.kind, if_neg hf, hfeed]⟩,
      by rw [hg.path, if_neg hp, hpp], by rw [hg.path, if_neg hf, hfp]⟩
  refine ⟨fun o e he => ?_, fun j x hj => ?_, fun o => ?_, fun o type ho => ?_⟩
  · rw [hjoins] at he
    obtain ⟨j, x, pp, fp, hj, hx, hentry⟩ := h.entry o e he
    refine ⟨j, x, pp, fp, ?_, hkeeps hj hx, hentry⟩
    rw [hg.kind, if_neg, hj]
    rintro rfl
    exact hjoin x hj
  · rw [hg.kind] at hj
    split at hj
    · cases hj
    · obtain ⟨pp, fp, hx, hlisted⟩ := h.listed j x hj
      exact ⟨pp, fp, hkeeps hj hx, fun o e he => by rw [hjoins]; exact hlisted o e he⟩
  · rw [hjoins]
    exact h.nodup o
  · rw [hjoins]
    rw [hg.kind] at ho
    split at ho
    · cases ho
    · exact h.keys o type ho

/-! ## Joins that come and go -/

/-- The join `j` is new, and listed by its pipe and its feed. -/
structure JoinNew (t t' : Tree) (j : ResourceId) (x : Join) (pp fp : Str) : Prop where
  fresh : t.heap j = none
  joining : Joining t x pp fp
  kind : ∀ k, t'.kind k = if k = j then some (.join x) else t.kind k
  joins : ∀ k, t'.joins k = if k = x.pipe then t.joins k ++ [(joinKey x.address fp, j)]
    else if k = x.feed then t.joins k ++ [(joinKey x.address pp, j)] else t.joins k
  name : ∀ k, t.kind k ≠ none → t'.name k = t.name k
  path : ∀ k, t.kind k ≠ none → t'.path k = t.path k

theorem hasJoins_of_pipe (h : t.kind i = some (.pipe type)) :
    ∀ s, t.bare i = some s → s.HasJoins := by
  obtain ⟨p, hp, -⟩ := kind_pipe_iff.mp h
  intro s hs
  obtain rfl := some.inj (hp.symm.trans hs)
  trivial

theorem hasJoins_of_feed {dynamic : Bool} (h : t.kind i = some (.feed dynamic type)) :
    ∀ s, t.bare i = some s → s.HasJoins := by
  obtain ⟨f, hf, -⟩ := kind_feed_iff.mp h
  intro s hs
  obtain rfl := some.inj (hf.symm.trans hs)
  trivial

theorem JoinAdded.joinNew (h : JoinAdded env t t' j x)
    (hpipe : ∃ type, t.kind x.pipe = some (.pipe type))
    (hfeed : ∃ dynamic type, t.kind x.feed = some (.feed dynamic type)) :
    ∃ pp fp, JoinNew t t' j x pp fp := by
  obtain ⟨t1, t2, pp, fp, hc, hpp, hfp, h1, h2⟩ := h
  have hx : Joining t x pp fp := ⟨hpipe, hfeed, hpp, hfp⟩
  have ha := hc.added
  have hpipe1 : ∃ type, t1.kind x.pipe = some (.pipe type) := by
    obtain ⟨type, hk⟩ := hpipe
    exact ⟨type, by rw [ha.kind, if_neg (ha.ne_of_kind (by rw [hk]; nofun)), hk]⟩
  have hfeed2 : ∃ dynamic type, t2.kind x.feed = some (.feed dynamic type) := by
    obtain ⟨dynamic, type, hk⟩ := hfeed
    refine ⟨dynamic, type, ?_⟩
    rw [kind_eq_bare, h1.bare, ← kind_eq_bare, ha.kind, if_neg (ha.ne_of_kind (by rw [hk]; nofun)),
      hk]
  obtain ⟨_, hpipe1⟩ := hpipe1
  obtain ⟨_, _, hfeed2⟩ := hfeed2
  have hold : ∀ k, t1.joins k = t.joins k := by
    intro k
    rw [ha.joins]
    split
    · next hk => rw [hk, joins_of_fresh ha.fresh]; rfl
    · rfl
  refine ⟨pp, fp, ha.fresh, hx, fun k => ?_, fun k => ?_, fun k hk => ?_, fun k hk => ?_⟩
  · rw [kind_eq_bare, h2.bare, h1.bare, ← kind_eq_bare, ha.kind]
    rfl
  · rw [h2.joins (hasJoins_of_feed hfeed2), h1.joins (hasJoins_of_pipe hpipe1), hold]
    by_cases hkp : k = x.pipe
    · rw [if_pos hkp, if_neg (by rw [hkp]; exact hx.ne), if_pos hkp]
    · rw [if_neg hkp, if_neg hkp]
  · rw [h2.sameShape.name, h1.sameShape.name, ha.name, if_neg (ha.ne_of_kind hk)]
  · rw [h2.sameShape.path, h1.sameShape.path, ha.path, if_neg (ha.ne_of_kind hk)]

theorem JoinNew.mem_joins (h : JoinNew t t' j x pp fp) (o : ResourceId) (e : Str × ResourceId) :
    e ∈ t'.joins o ↔ e ∈ t.joins o ∨ IsEntry o e j x pp fp := by
  have hne := h.joining.ne
  obtain ⟨k, i⟩ := e
  rw [h.joins, IsEntry]
  by_cases hop : o = x.pipe
  · rw [if_pos hop, mem_append, mem_singleton, Prod.mk.injEq]
    simp [hop, hne, and_comm]
  · rw [if_neg hop]
    by_cases hof : o = x.feed
    · rw [if_pos hof, mem_append, mem_singleton, Prod.mk.injEq]
      simp [hof, hne.symm, and_comm]
    · rw [if_neg hof]
      simp [hop, hof]

theorem JoinNew.kind_of_kind (h : JoinNew t t' j x pp fp) {k : ResourceId} {y : Kind}
    (hk : t.kind k = some y) : t'.kind k = some y := by
  rw [h.kind, if_neg, hk]
  rintro rfl
  rw [kind_of_fresh h.fresh] at hk
  cases hk

theorem JoinNew.keeps {y : Join} (h : JoinNew t t' j x pp fp) (hy : Joining t y pp' fp') :
    Joining t' y pp' fp' := by
  obtain ⟨⟨_, hpipe⟩, ⟨_, _, hfeed⟩, hpp, hfp⟩ := hy
  refine ⟨⟨_, h.kind_of_kind hpipe⟩, ⟨_, _, h.kind_of_kind hfeed⟩, ?_, ?_⟩
  · rw [h.path _ (by rw [hpipe]; nofun), hpp]
  · rw [h.path _ (by rw [hfeed]; nofun), hfp]

/-- A new join is listed with its feed and its pipe. -/
theorem JoinsOk.joinNew (h : JoinsOk t) (hn : JoinNew t t' j x pp fp)
    (hkey : ∀ e ∈ t.joins x.pipe, e.1 ≠ joinKey x.address fp) : JoinsOk t' := by
  have hself : t'.kind j = some (.join x) := (hn.kind j).trans (if_pos rfl)
  have hnew : ∀ o e, e ∈ t.joins o → e.2 ≠ j := by
    rintro o e he rfl
    obtain ⟨j', x', _, _, hj', _, heq, _⟩ := h.entry o e he
    rw [← heq, kind_of_fresh hn.fresh] at hj'
    cases hj'
  refine ⟨fun o e he => ?_, fun j' x' hj' => ?_, fun o => ?_, fun o type ho => ?_⟩
  · rcases (hn.mem_joins o e).mp he with he | hentry
    · obtain ⟨j', x', pp', fp', hj', hx', hentry⟩ := h.entry o e he
      exact ⟨j', x', pp', fp', hn.kind_of_kind hj', hn.keeps hx', hentry⟩
    · exact ⟨j, x, pp, fp, hself, hn.keeps hn.joining, hentry⟩
  · rw [hn.kind] at hj'
    split at hj'
    · next hjj =>
      cases hj'
      exact ⟨pp, fp, hn.keeps hn.joining, fun o e he => (hn.mem_joins o e).mpr (.inr (hjj ▸ he))⟩
    · obtain ⟨pp', fp', hx', hlisted⟩ := h.listed j' x' hj'
      exact ⟨pp', fp', hn.keeps hx', fun o e he => (hn.mem_joins o e).mpr (.inl (hlisted o e he))⟩
  · have happend : ∀ k, ((t.joins o ++ [(k, j)]).map Prod.snd).Nodup := by
      intro k
      rw [map_append, map_singleton]
      refine nodup_append.mpr ⟨h.nodup o, nodup_singleton _, fun a ha b hb => ?_⟩
      obtain ⟨e, he, rfl⟩ := mem_map.mp ha
      rw [mem_singleton.mp hb]
      exact hnew o e he
    rw [hn.joins]
    split
    · exact happend _
    · split
      · exact happend _
      · exact h.nodup o
  · rw [hn.kind] at ho
    split at ho
    · cases ho
    · rw [hn.joins]
      split
      · next hop =>
        rw [map_append, map_singleton]
        refine nodup_append.mpr ⟨h.keys o type ho, nodup_singleton _, fun a ha b hb => ?_⟩
        obtain ⟨e, he, rfl⟩ := mem_map.mp ha
        rw [mem_singleton.mp hb]
        exact hkey e (hop ▸ he)
      · split
        · next hof =>
          obtain ⟨_, _, hfeed⟩ := hn.joining.feed
          rw [hof, hfeed] at ho
          cases ho
        · exact h.keys o type ho

/-- The join `j` has been unlisted by its keys, and is gone. -/
structure JoinLost (t t' : Tree) (j : ResourceId) (x : Join) (pp fp : Str) : Prop where
  join : t.kind j = some (.join x)
  joining : Joining t x pp fp
  kind : ∀ k, t'.kind k = if k = j then none else t.kind k
  joins : ∀ k, t'.joins k =
    if k = x.pipe then (t.joins k).eraseP fun e => e.1 == joinKey x.address fp
    else if k = x.feed then (t.joins k).eraseP fun e => e.1 == joinKey x.address pp
    else t.joins k
  name : ∀ k, k ≠ j → t'.name k = t.name k
  path : ∀ k, k ≠ j → t'.path k = t.path k

theorem JoinsOk.joinLost {t1 : Tree} (h : JoinsOk t) (hj : t.server j = some (.join x))
    (hu : Unlisted t t1 x) (hg : Gone t1 t' j) : ∃ pp fp, JoinLost t t' j x pp fp := by
  obtain ⟨pp, fp, hx, -⟩ := h.listed j x (kind_join_iff.mpr hj)
  obtain ⟨⟨_, hpipe⟩, ⟨_, _, hfeed⟩, hpp, hfp⟩ := id hx
  obtain ⟨p, hp, -⟩ := kind_pipe_iff.mp hpipe
  obtain ⟨f, hf, -⟩ := kind_feed_iff.mp hfeed
  refine ⟨pp, fp, kind_join_iff.mpr hj, hx, fun k => ?_, fun k => ?_, fun k hk => ?_,
    fun k hk => ?_⟩
  · rw [hg.kind, kind_eq_bare, hu.bare, ← kind_eq_bare]
  · rw [hg.joins, ← hu.joins hp hf hpp hfp]
    split
    · next hk =>
      rw [hk]
      refine (joins_of_server (s := .join x) ?_).symm
      exact server_eq_join.mpr ((congrFun hu.bare j).trans (server_eq_join.mp hj))
    · rfl
  · rw [hg.name, if_neg hk, hu.sameShape.name]
  · rw [hg.path, if_neg hk, hu.sameShape.path]

/-- In the list of its feed, the entry of the join is the first with its key. -/
def First (t : Tree) (j : ResourceId) (x : Join) (pp : Str) : Prop :=
  (t.joins x.feed).find? (fun e => e.1 == joinKey x.address pp) = some (joinKey x.address pp, j)

theorem JoinsOk.find_pipe (h : JoinsOk t) (hj : t.kind j = some (.join x))
    (hx : Joining t x pp fp) : (t.joins x.pipe).find? (fun e => e.1 == joinKey x.address fp) =
      some (joinKey x.address fp, j) := by
  obtain ⟨_, hpipe⟩ := hx.pipe
  obtain ⟨pp', fp', hx', hlisted⟩ := h.listed j x hj
  obtain ⟨rfl, rfl⟩ := hx'.unique hx
  exact find_of_nodup_keys (h.keys _ _ hpipe)
    (hlisted x.pipe (joinKey x.address fp, j) ⟨rfl, .inl ⟨rfl, rfl⟩⟩)

theorem JoinLost.mem_joins (h : JoinLost t t' j x pp fp) (hok : JoinsOk t)
    (hfirst : First t j x pp) (o : ResourceId) (e : Str × ResourceId) :
    e ∈ t'.joins o ↔ e ∈ t.joins o ∧ e.2 ≠ j := by
  -- an entry with the identifier of the join is one of the two
  have hown : e ∈ t.joins o → e.2 = j → IsEntry o e j x pp fp := by
    intro he hej
    obtain ⟨j', x', pp', fp', hj', hx', hentry⟩ := hok.entry o e he
    obtain rfl : j' = j := hentry.1.symm.trans hej
    obtain rfl := Kind.join.inj (some.inj (hj'.symm.trans h.join))
    obtain ⟨rfl, rfl⟩ := h.joining.unique hx'
    exact hentry
  have hnodup : (t.joins o).Nodup := List.Nodup.of_map _ (hok.nodup o)
  have hne := h.joining.ne
  rw [h.joins]
  split
  · next hop =>
    rw [mem_eraseP_of_find hnodup (hop ▸ hok.find_pipe h.join h.joining)]
    refine and_congr_right fun he => not_congr ⟨fun heq => by rw [heq], fun hej => ?_⟩
    obtain ⟨-, ⟨-, hkey⟩ | ⟨hof, -⟩⟩ := hown he hej
    · exact Prod.ext hkey hej
    · exact absurd (hop.symm.trans hof) hne
  · next hop =>
    split
    · next hof =>
      rw [First, ← hof] at hfirst
      rw [mem_eraseP_of_find hnodup hfirst]
      refine and_congr_right fun he => not_congr ⟨fun heq => by rw [heq], fun hej => ?_⟩
      obtain ⟨-, ⟨hop', -⟩ | ⟨-, hkey⟩⟩ := hown he hej
      · exact absurd hop' hop
      · exact Prod.ext hkey hej
    · next hof =>
      refine (and_iff_left_of_imp fun he hej => ?_).symm
      obtain ⟨-, ⟨hop', -⟩ | ⟨hof', -⟩⟩ := hown he hej
      · exact hop hop'
      · exact hof hof'

theorem JoinLost.keeps {y : Join} (h : JoinLost t t' j x pp fp) (hy : Joining t y pp' fp') :
    Joining t' y pp' fp' := by
  obtain ⟨hpj, hfj⟩ := hy.ne_join h.join
  obtain ⟨⟨_, hpipe⟩, ⟨_, _, hfeed⟩, hpp, hfp⟩ := hy
  exact ⟨⟨_, by rw [h.kind, if_neg hpj, hpipe]⟩, ⟨_, _, by rw [h.kind, if_neg hfj, hfeed]⟩,
    by rw [h.path _ hpj, hpp], by rw [h.path _ hfj, hfp]⟩

theorem JoinLost.sublist (h : JoinLost t t' j x pp fp) (o : ResourceId) :
    (t'.joins o).Sublist (t.joins o) := by
  rw [h.joins]
  split
  · exact eraseP_sublist
  · split
    · exact eraseP_sublist
    · exact List.Sublist.refl _

theorem JoinsOk.unjoined (h : JoinsOk t) (hl : JoinLost t t' j x pp fp) (hfirst : First t j x pp) :
    JoinsOk t' := by
  have hmem := hl.mem_joins h hfirst
  refine ⟨fun o e he => ?_, fun j' x' hj' => ?_, fun o => ?_, fun o type ho => ?_⟩
  · obtain ⟨he, hej⟩ := (hmem o e).mp he
    obtain ⟨j', x', pp', fp', hj', hx', hentry⟩ := h.entry o e he
    refine ⟨j', x', pp', fp', ?_, hl.keeps hx', hentry⟩
    rw [hl.kind, if_neg, hj']
    exact hentry.1 ▸ hej
  · rw [hl.kind] at hj'
    split at hj'
    · cases hj'
    · next hjj =>
      obtain ⟨pp', fp', hx', hlisted⟩ := h.listed j' x' hj'
      refine ⟨pp', fp', hl.keeps hx', fun o e he => (hmem o e).mpr ⟨hlisted o e he, ?_⟩⟩
      exact he.1 ▸ hjj
  · exact ((hl.sublist o).map _).nodup (h.nodup o)
  · rw [hl.kind] at ho
    split at ho
    · cases ho
    · exact ((hl.sublist o).map _).nodup (h.keys o type ho)

theorem JoinLost.first {x' : Join} {j' : ResourceId} (h : JoinLost t t' j x pp fp)
    (hfirst : First t j x pp) (hx' : Joining t x' pp' fp') (hfirst' : First t j' x' pp')
    (hne : j' ≠ j) : First t' j' x' pp' := by
  have hpipe : x'.feed ≠ x.pipe := by
    obtain ⟨_, _, hfeed⟩ := hx'.feed
    obtain ⟨_, hpipe⟩ := h.joining.pipe
    intro heq
    rw [heq, hpipe] at hfeed
    cases hfeed
  rw [First, h.joins, if_neg hpipe]
  split
  · next hfeed =>
    rw [find_eraseP, hfirst']
    intro a _ ha
    rw [beq_iff_eq] at ha
    rw [beq_eq_false_iff_ne, ha]
    intro hkey
    rw [First, hfeed, hkey, hfirst] at hfirst'
    exact hne (congrArg Prod.snd (some.inj hfirst')).symm
  · exact hfirst'

/-- The joins that go with the resource `i` are found by their keys in the lists of their feeds. -/
def Unmixed (t : Tree) (i : ResourceId) : Prop :=
  ∀ j x pp, t.kind j = some (.join x) → j = i ∨ x.pipe = i → t.path x.pipe = some pp →
    First t j x pp

theorem Unmixed.head {o : ResourceId} (h : Unmixed t o) (hok : JoinsOk t) {k : Str}
    {rest : JoinList} (hjoins : t.joins o = (k, j) :: rest) (hj : t.kind j = some (.join x))
    (hx : Joining t x pp fp) : First t j x pp := by
  obtain ⟨j', x', pp', fp', hj', hx', hjj, hentry⟩ :=
    hok.entry o (k, j) (by rw [hjoins]; exact mem_cons_self)
  obtain rfl : j = j' := hjj
  obtain rfl := Kind.join.inj (some.inj (hj'.symm.trans hj))
  obtain ⟨rfl, rfl⟩ := hx.unique hx'
  rcases hentry with ⟨hpipe, -⟩ | ⟨hfeed, hkey⟩
  · exact h j x' pp' hj (.inr hpipe.symm) hx.pipePath
  · obtain rfl : k = joinKey x'.address pp' := hkey
    rw [First, ← hfeed, hjoins]
    exact find?_cons_of_pos (beq_self_eq_true _)

theorem Unmixed.joinLost {o : ResourceId} (h : Unmixed t o) (hok : JoinsOk t)
    (hlost : JoinLost t t' j x pp fp) (hfirst : First t j x pp) : Unmixed t' o := by
  intro j' x' pp' hj' ho hpath
  have hjj : j' ≠ j := by
    rintro rfl
    rw [hlost.kind, if_pos rfl] at hj'
    cases hj'
  rw [hlost.kind, if_neg hjj] at hj'
  obtain ⟨pp0, fp0, hx', -⟩ := hok.listed j' x' hj'
  rw [hlost.path _ (hx'.ne_join hlost.join).1] at hpath
  obtain rfl := some.inj (hpath.symm.trans hx'.pipePath)
  exact hlost.first hfirst hx' (h j' x' pp' hj' ho hpath) hjj

/-! ## Everything that is posted -/

theorem JoinsOk.pipeAdded {title : Str} (h : JoinsOk t) (hbase : Base env t)
    (ha : PipeAdded env t t' i p type title) : JoinsOk t' := by
  obtain ⟨t1, t2, j, a, hc, hj, ha⟩ := ha
  have h1 := h.added hc.added rfl fun _ => nofun
  obtain ⟨f, hf, -⟩ := (hbase.created hc rfl).default.server
  obtain ⟨pp, fp, hnew⟩ := hj.joinNew
    ⟨type, by rw [hc.added.kind, if_pos (by rfl)]; rfl⟩ ⟨_, _, kind_feed_iff.mpr ⟨f, hf, rfl, rfl⟩⟩
  refine (h1.joinNew hnew fun e he => ?_).still ha.still
  have hempty : t1.joins i = [] := (hc.added.joins i).trans (if_pos rfl)
  have hmem : e ∈ t1.joins i := he
  rw [hempty] at hmem
  cases hmem

theorem JoinsOk.posted {A : Attrs → Prop} {requests : List BackendRequest} (h : JoinsOk t)
    (hbase : Base env t) (hp : Posted env A t i t' requests) : JoinsOk t' := by
  cases hp with
  | nothing => exact h
  | known => exact h.still ⟨fun _ => rfl, fun _ => rfl, fun _ _ => rfl, fun _ _ => rfl⟩
  | unnamedFeed _ _ _ hc => exact h.added hc.added rfl fun _ => nofun
  | namedFeed _ _ _ ha => exact h.added ha rfl fun _ => nofun
  | pipe _ ha => exact h.pipeAdded hbase ha
  | join hx hpipe hfeed _ _ _ hpath hnew hadded =>
    obtain ⟨rfl, -⟩ := hx
    obtain ⟨pp, fp, hjoinNew⟩ :=
      hadded.joinNew ⟨_, kind_of_server hpipe⟩ ⟨_, _, kind_of_server hfeed⟩
    obtain rfl := some.inj (hpath.symm.trans hjoinNew.joining.feedPath)
    exact h.joinNew hjoinNew (by rwa [joins_of_server hpipe])
  | content _ hc => exact h.still (hc.added.still rfl)
  | messages _ _ hs => exact h.still hs.still

theorem new_kind (now : Nat) (i : ResourceId) : (Tree.new now).kind i =
    if i = defaultFeedId then some (.feed false "direct".toList) else none := by
  rw [Tree.kind, new_server]
  split
  · next hi =>
    rw [hi]
    rfl
  · split <;> rfl

theorem new_kind_eq {now : Nat} {x : Kind} (h : (Tree.new now).kind i = some x) :
    x = .feed false "direct".toList := by
  rw [new_kind] at h
  split at h
  · exact (some.inj h).symm
  · cases h

theorem joinsOk_new (now : Nat) : JoinsOk (Tree.new now) := by
  refine ⟨fun o e he => ?_, fun j x hj => ?_, fun o => ?_, fun o _ _ => ?_⟩
  · rw [new_joins] at he
    cases he
  · cases new_kind_eq hj
  · rw [new_joins]
    exact nodup_nil
  · rw [new_joins]
    exact nodup_nil

end OpenAmq.Zyre
