import OpenAmq.Zyre.Table

/-!
# What the operations on the tree do

Joins, asynclets and pipes are created in several steps, and so are joins deleted. Each of the
functions for that is described by the effects it is made of.

* `JoinAdded`, `AsyncletAdded`, `PipeAdded` — something is created
* `Sound` — the joins of a feed or a pipe can be deleted one after the other
* `Reads` — a resource whose document only mentions live resources
* `Prints` — one whose document can be printed
-/

namespace OpenAmq.Zyre

open OpenAmq.Lib OpenAmq.Zyre.Tree Work List Option

variable {env : Env} {t t' : Tree} {E : Fault → Prop}

theorem Tree.SameShape.live_iff (h : SameShape t t') (k : ResourceId) : t'.Live k ↔ t.Live k := by
  rw [live_iff_path, live_iff_path, h.path]

variable {i p k j o : ResourceId} {n q rootUri type title : Str} {s : Server} {join : Join}
  {now : Nat} {w : Work} {hasContext : Bool}

theorem Tree.Added.live_of_live (h : Added t t' i p n q s) (hk : t.Live k) : t'.Live k := by
  rw [live_iff_path] at hk ⊢
  rw [h.path]
  split
  · exact ⟨q, rfl⟩
  · exact hk

theorem Tree.Added.live_self (h : Added t t' i p n q s) : t'.Live i :=
  live_of_server (by rw [h.server, if_pos rfl])

theorem Tree.Added.ne_of_live (h : Added t t' i p n q s) (hk : t.Live k) : k ≠ i := by
  rintro rfl
  rw [Live, h.fresh] at hk
  cases hk

/-! ## Joins -/

/-- A join has been created, and put into the lists of its pipe and of its feed. -/
def JoinAdded (env : Env) (t t' : Tree) (j : ResourceId) (join : Join) : Prop :=
  ∃ t1 t2 pipePath feedPath, Created env t t1 j join.pipe (.join join) ∧
    t.path join.pipe = some pipePath ∧ t.path join.feed = some feedPath ∧
    JoinsSet t1 t2 join.pipe (· ++ [(joinKey join.address feedPath, j)]) ∧
    JoinsSet t2 t' join.feed (· ++ [(joinKey join.address pipePath, j)])

theorem JoinAdded.views (h : JoinAdded env t t' j join) : t.heap j = none ∧ t.Live join.pipe ∧
      (∀ k, t'.bare k = if k = j then some (.join join) else t.bare k) ∧
      (∀ k, t'.parent k = if k = j then some join.pipe else t.parent k) ∧
      (∀ k, t'.children k = if k = join.pipe then t.children k ++ [j] else t.children k) := by
  obtain ⟨t1, t2, _, _, hc, -, -, h1, h2⟩ := h
  refine ⟨hc.added.fresh, hc.added.live, fun k => ?_, fun k => ?_, fun k => ?_⟩
  · rw [h2.bare, h1.bare, hc.added.bare]
    rfl
  · rw [h2.sameShape.parent, h1.sameShape.parent, hc.added.parent]
  · rw [h2.sameShape.children, h1.sameShape.children, hc.added.children]

theorem Tree.Base.joinAdded (h : Base env t) (hj : JoinAdded env t t' j join) : Base env t' := by
  obtain ⟨t1, t2, _, _, hc, -, -, h1, h2⟩ := hj
  have hnext : j < t1.next := by
    rw [hc.added.next.2, ← hc.added.next.1]
    exact Nat.lt_succ_self j
  have hbare : t1.bare j = some (.join join) := (hc.added.bare j).trans (if_pos rfl)
  have hbare2 : t2.bare j = some (.join join) := by rw [h1.bare, hbare]
  refine ((h.created hc trivial).joinsSet h1 fun e he => ?_).joinsSet h2 fun e he => ?_
  · refine (mem_append.mp he).imp_right fun he => ?_
    obtain rfl := mem_singleton.mp he
    exact ⟨hnext, join, hbare⟩
  · refine (mem_append.mp he).imp_right fun he => ?_
    obtain rfl := mem_singleton.mp he
    exact ⟨h1.sameShape.next ▸ hnext, join, hbare2⟩

theorem yields_enterJoin (hbase : Base env t) (hpipe : t.Live join.pipe ∨ E .destroyed)
    (hfeed : t.Live join.feed) :
    Yields (Work.enterJoin env t now join) (fun r => JoinAdded env t r.1 r.2 join) E := by
  refine (yields_create hbase.fresh hpipe (.inl hbase.names)).bind fun ⟨t1, j⟩ hc => ?_
  have hpipe' := hc.added.live
  refine (yields_get (.inl (hc.added.live_of_live hpipe'))).bind fun pipe hp => ?_
  refine (yields_get (.inl (hc.added.live_of_live hfeed))).bind fun feed hf => ?_
  refine (yields_setJoins (.inl (hc.added.live_of_live hpipe')) _).bind fun t2 ht2 => ?_
  refine (yields_setJoins (.inl ?_) _).bind fun t3 ht3 => yields_pure
    ⟨t1, t2, pipe.path, feed.path, hc, ?_, ?_, ht2, ht3⟩
  · exact (ht2.sameShape.live_iff _).mpr (hc.added.live_of_live hfeed)
  · have hpath := (views hp).2.2.2.1
    rwa [hc.added.path, if_neg (hc.added.ne_of_live hpipe')] at hpath
  · have hpath := (views hf).2.2.2.1
    rwa [hc.added.path, if_neg (hc.added.ne_of_live hfeed)] at hpath

/-- A join has been taken out of the lists of its pipe and of its feed, by its keys. -/
def Unlisted (t t' : Tree) (join : Join) : Prop :=
  ∃ t1 pipePath feedPath, t.path join.pipe = some pipePath ∧ t.path join.feed = some feedPath ∧
    JoinsSet t t1 join.pipe (·.eraseP fun e => e.1 == joinKey join.address feedPath) ∧
    JoinsSet t1 t' join.feed (·.eraseP fun e => e.1 == joinKey join.address pipePath)

theorem Unlisted.sameShape (h : Unlisted t t' join) : SameShape t t' := by
  obtain ⟨t1, _, _, _, _, h1, h2⟩ := h
  exact h1.sameShape.trans h2.sameShape

theorem Unlisted.bare (h : Unlisted t t' join) : t'.bare = t.bare := by
  obtain ⟨t1, _, _, _, _, h1, h2⟩ := h
  exact h2.bare.trans h1.bare

def joinDeleted (t : Tree) (join : Join) : List BackendRequest :=
  if join.dynamic then
    [.joinDelete ((t.name join.pipe).getD []) ((t.name join.feed).getD []) join.address]
  else []

/-- The joins of `o` have been deleted and destroyed, one after the other. -/
inductive JoinsDeleted (o : ResourceId) : Tree → Tree → List BackendRequest → Prop
  | done {t : Tree} (h : t.joins o = []) : JoinsDeleted o t t []
  | next {t t1 t2 t' : Tree} {k : Str} {j : ResourceId} {rest : JoinList} {join : Join}
      {requests : List BackendRequest} (hjoins : t.joins o = (k, j) :: rest)
      (hjoin : t.server j = some (.join join)) (hunlisted : Unlisted t t1 join)
      (hremoved : Removed t1 t2 j) (hrest : JoinsDeleted o t2 t' requests) :
      JoinsDeleted o t t' (joinDeleted t join ++ requests)

theorem yields_joinDelete (hjoin : w.tree.server j = some (.join join))
    (hdelete : join.dynamic || !hasContext) (hpipe : w.tree.Live join.pipe ∨ E .destroyed)
    (hfeed : w.tree.Live join.feed ∨ E .destroyed) :
    Yields (w.joinDelete hasContext j) (fun w' => ∃ t', Unlisted w.tree t' join ∧
      w' = { w with tree := t', requests := w.requests ++ joinDeleted w.tree join }) E := by
  refine (yields_get (.inl (live_of_server hjoin))).bind fun r hr => ?_
  obtain ⟨r', hr', hserver⟩ := heap_of_server hjoin
  obtain rfl : r = r' := some.inj (hr.symm.trans hr')
  rw [hserver]
  dsimp only
  rw [if_pos hdelete]
  refine (yields_get hpipe).bind fun pipe hp => ?_
  refine (yields_get hfeed).bind fun feed hf => ?_
  refine (yields_setJoins hpipe _).bind fun t1 ht1 => ?_
  refine (yields_setJoins (hfeed.imp_left (ht1.sameShape.live_iff _).mpr) _).bind fun t2 ht2 => ?_
  refine yields_pure ⟨t2, ⟨t1, pipe.path, feed.path, (views hp).2.2.2.1, (views hf).2.2.2.1, ht1,
    ht2⟩, ?_⟩
  rw [joinDeleted, (views hp).2.2.2.2.1, (views hf).2.2.2.2.1]
  cases join.dynamic with
  | true => rfl
  | false =>
    show _ = { w with tree := t2, requests := w.requests ++ [] }
    rw [append_nil]
    rfl

/-! ## All joins of a feed or a pipe -/

/-- The join of an entry knows its owner, which knows it under the key it will be asked for. -/
def Linked (t : Tree) (o : ResourceId) (k : Str) (join : Join) : Prop :=
  ∃ pipe feed pipePath feedPath, t.bare join.pipe = some (.pipe pipe) ∧
    t.bare join.feed = some (.feed feed) ∧
    t.path join.pipe = some pipePath ∧ t.path join.feed = some feedPath ∧
    (o = join.pipe ∧ k = joinKey join.address feedPath ∨
      o = join.feed ∧ k = joinKey join.address pipePath)

/-- All joins of a feed or a pipe can be deleted, one after the other. -/
structure Sound (hasContext : Bool) (t : Tree) (o : ResourceId) : Prop where
  live : t.Live o
  entry : ∀ k j, (k, j) ∈ t.joins o → ∃ join, t.server j = some (.join join) ∧
    (join.dynamic || !hasContext) ∧ Linked t o k join
  nodup : ((t.joins o).map Prod.snd).Nodup

theorem server_eq_join : t.server j = some (.join join) ↔ t.bare j = some (.join join) := by
  rw [bare]
  cases t.server j with
  | none => exact Iff.rfl
  | some s => cases s <;> simp [Server.setJoins]

theorem Linked.ne {k : Str} (h : Linked t o k join) : join.pipe ≠ join.feed := by
  obtain ⟨pipe, feed, _, _, hpipe, hfeed, _⟩ := h
  intro heq
  rw [heq, hfeed] at hpipe
  cases hpipe

theorem Linked.ne_join {k : Str} {join' : Join} (h : Linked t o k join)
    (hj : t.server j = some (.join join')) : join.pipe ≠ j ∧ join.feed ≠ j := by
  obtain ⟨pipe, feed, _, _, hpipe, hfeed, _⟩ := h
  rw [server_eq_join] at hj
  constructor
  · intro heq
    rw [heq, hj] at hpipe
    cases hpipe
  · intro heq
    rw [heq, hj] at hfeed
    cases hfeed

theorem Linked.owner {k : Str} (h : Linked t o k join) : o = join.pipe ∨ o = join.feed := by
  obtain ⟨_, _, _, _, _, _, _, _, h | h⟩ := h
  · exact .inl h.1
  · exact .inr h.1

/-- The lists of other feeds and pipes stay as they are, and two lose the first of their key. -/
theorem Unlisted.joins (h : Unlisted t t' join) {pipe : Pipe} {feed : Feed}
    {pipePath feedPath : Str} (hpipe : t.bare join.pipe = some (.pipe pipe))
    (hfeed : t.bare join.feed = some (.feed feed)) (hpp : t.path join.pipe = some pipePath)
    (hfp : t.path join.feed = some feedPath) (k : ResourceId) :
    t'.joins k =
      if k = join.pipe then (t.joins k).eraseP fun e => e.1 == joinKey join.address feedPath
      else if k = join.feed then (t.joins k).eraseP fun e => e.1 == joinKey join.address pipePath
      else t.joins k := by
  obtain ⟨t1, pp, fp, hpp', hfp', h1, h2⟩ := h
  obtain rfl := some.inj (hpp.symm.trans hpp')
  obtain rfl := some.inj (hfp.symm.trans hfp')
  have hne : join.pipe ≠ join.feed := by
    intro heq
    rw [heq, hfeed] at hpipe
    cases hpipe
  have hpipe' : ∀ s, t.bare join.pipe = some s → s.HasJoins := fun s hs => by
    obtain rfl := some.inj (hpipe.symm.trans hs)
    trivial
  have hfeed' : ∀ s, t1.bare join.feed = some s → s.HasJoins := fun s hs => by
    rw [h1.bare] at hs
    obtain rfl := some.inj (hfeed.symm.trans hs)
    trivial
  rw [h2.joins hfeed', h1.joins hpipe']
  by_cases hk : k = join.pipe
  · rw [if_neg (by rw [hk]; exact hne), if_pos hk, if_pos hk]
  · rw [if_neg hk, if_neg hk]

theorem Linked.of_next {t1 t2 : Tree} {k : Str} {join' : Join} (h : Linked t o k join)
    (hj : t.server j = some (.join join')) (hu : Unlisted t t1 join') (hr : Gone t1 t2 j) :
    Linked t2 o k join := by
  obtain ⟨hpj, hfj⟩ := h.ne_join hj
  obtain ⟨pipe, feed, pipePath, feedPath, hpipe, hfeed, hpp, hfp, howner⟩ := h
  refine ⟨pipe, feed, pipePath, feedPath, ?_, ?_, ?_, ?_, howner⟩
  · rw [hr.bare, if_neg hpj, hu.bare, hpipe]
  · rw [hr.bare, if_neg hfj, hu.bare, hfeed]
  · rw [hr.path, if_neg hpj, hu.sameShape.path, hpp]
  · rw [hr.path, if_neg hfj, hu.sameShape.path, hfp]

theorem Sound.next {t1 t2 : Tree} {hasContext : Bool} {o j : ResourceId} {k : Str}
    {rest : JoinList} {join : Join} (h : Sound hasContext t o)
    (hjoins : t.joins o = (k, j) :: rest) (hj : t.server j = some (.join join))
    (hu : Unlisted t t1 join) (hr : Gone t1 t2 j) :
    Sound hasContext t2 o ∧ t2.joins o = rest := by
  obtain ⟨join', hjoin', -, hlinked⟩ := h.entry k j (by rw [hjoins]; exact mem_cons_self)
  obtain rfl : join' = join := Server.join.inj (some.inj (hjoin'.symm.trans hj))
  have hoj : o ≠ j := by
    rcases hlinked.owner with rfl | rfl
    · exact (hlinked.ne_join hj).1
    · exact (hlinked.ne_join hj).2
  have hjoins' : t2.joins o = rest := by
    obtain ⟨pipe, feed, pipePath, feedPath, hpipe, hfeed, hpp, hfp, howner⟩ := id hlinked
    rw [hr.joins, if_neg hoj, hu.joins hpipe hfeed hpp hfp, hjoins]
    rcases howner with ⟨rfl, rfl⟩ | ⟨rfl, rfl⟩
    · rw [if_pos rfl, eraseP_cons_of_pos (by simp)]
    · rw [if_neg hlinked.ne.symm, if_pos rfl, eraseP_cons_of_pos (by simp)]
  have hnodup := h.nodup
  rw [hjoins, map_cons, nodup_cons] at hnodup
  refine ⟨⟨?_, fun k' j' hmem => ?_, ?_⟩, hjoins'⟩
  · rw [live_iff_bare, hr.bare, if_neg hoj, hu.bare, ← live_iff_bare]
    exact h.live
  · rw [hjoins'] at hmem
    obtain ⟨join1, hj1, hdelete, hlinked1⟩ :=
      h.entry k' j' (by rw [hjoins]; exact mem_cons_of_mem _ hmem)
    refine ⟨join1, ?_, hdelete, hlinked1.of_next hj hu hr⟩
    have hne : j' ≠ j := by
      rintro rfl
      exact hnodup.1 (mem_map.mpr ⟨(k', j'), hmem, rfl⟩)
    rw [server_eq_join] at hj1 ⊢
    rw [hr.bare, if_neg hne, hu.bare, hj1]
  · rw [hjoins']
    exact hnodup.2

theorem deleteJoins_dead {k : Str} {rest : JoinList} {fuel : Nat}
    (hjoins : w.tree.joins o = (k, j) :: rest) (hdead : w.tree.heap j = none) (hE : ∀ e, E e)
    {P : Work → Prop} : Yields (Work.deleteJoins hasContext o fuel w) P E := by
  unfold Work.deleteJoins
  refine (yields_get (.inr (hE _))).bind fun r hr => ?_
  have hlist : r.server.joins = (k, j) :: rest := by
    rw [← joins_of_server (server_of_heap hr), hjoins]
  rw [hlist]
  cases fuel with
  | zero => exact yields_error (hE _)
  | succ fuel =>
    refine Yields.bind (P := fun _ => False) ?_ fun _ h => h.elim
    refine Yields.bind (P := fun _ => False) ?_ fun _ h => h.elim
    rw [Tree.get, hdead]
    exact yields_error (hE _)

/-- The loop deletes all joins of the resource, and tells the backend of each. -/
theorem yields_deleteJoins {fuel : Nat}
    (h : Sound hasContext w.tree o ∧ (w.tree.joins o).length ≤ fuel ∨ ∀ e, E e) :
    Yields (Work.deleteJoins hasContext o fuel w) (fun w' => ∃ t' requests,
      JoinsDeleted o w.tree t' requests ∧
      w' = { w with tree := t', requests := w.requests ++ requests }) E := by
  induction fuel generalizing w with
  | zero =>
    unfold Work.deleteJoins
    refine (yields_get (h.imp (fun h => h.1.live) fun h => h _)).bind fun r hr => ?_
    have hlist := joins_of_server (server_of_heap hr)
    cases hjoins : r.server.joins with
    | nil =>
      rw [hjoins] at hlist
      exact yields_pure ⟨w.tree, [], .done hlist, by rw [append_nil]⟩
    | cons e rest =>
      refine yields_error (h.elim (fun h => ?_) fun h => h _)
      rw [hlist, hjoins] at h
      exact absurd h.2 (Nat.not_succ_le_zero _)
  | succ fuel ih =>
    unfold Work.deleteJoins
    refine (yields_get (h.imp (fun h => h.1.live) fun h => h _)).bind fun r hr => ?_
    have hlist := joins_of_server (server_of_heap hr)
    cases hjoins : r.server.joins with
    | nil =>
      rw [hjoins] at hlist
      exact yields_pure ⟨w.tree, [], .done hlist, by rw [append_nil]⟩
    | cons e rest =>
      obtain ⟨k, j⟩ := e
      rw [hjoins] at hlist
      have hentry : (∃ join, w.tree.server j = some (.join join) ∧ (join.dynamic || !hasContext) ∧
          Linked w.tree o k join) ∨ ∀ e, E e :=
        h.imp_left fun h => h.1.entry k j (by rw [hlist]; exact mem_cons_self)
      by_cases hj : ∃ join, w.tree.server j = some (.join join) ∧ (join.dynamic || !hasContext)
      · obtain ⟨join, hj, hdelete⟩ := hj
        have hlive : (w.tree.Live join.pipe ∧ w.tree.Live join.feed) ∨ ∀ e, E e := by
          refine hentry.imp_left fun ⟨join', hj', _, _, _, _, _, hpipe, hfeed, _⟩ => ?_
          obtain rfl := Server.join.inj (some.inj (hj.symm.trans hj'))
          exact ⟨live_iff_bare.mpr ⟨_, hpipe⟩, live_iff_bare.mpr ⟨_, hfeed⟩⟩
        refine (yields_joinDelete hj hdelete (hlive.imp (fun h => h.1) fun h => h _)
          (hlive.imp (fun h => h.2) fun h => h _)).bind ?_
        rintro w1 ⟨t1, hu, rfl⟩
        have hlive1 : t1.Live j := (hu.sameShape.live_iff j).mpr (live_of_server hj)
        refine (yields_destroy (.inl hlive1)).bind fun t2 hremoved => ?_
        have hnext : Sound hasContext t2 o ∧ (t2.joins o).length ≤ fuel ∨ ∀ e, E e := by
          refine h.imp_left fun ⟨hsound, hfuel⟩ => ?_
          obtain ⟨hsound', hrest⟩ := hsound.next hlist hj hu hremoved.toGone
          rw [hlist] at hfuel
          exact ⟨hsound', by rw [hrest]; exact Nat.le_of_succ_le_succ hfuel⟩
        refine (ih hnext).imp ?_
        rintro w' ⟨t', requests, hdeleted, rfl⟩
        exact ⟨t', _, .next hlist hj hu hremoved hdeleted, by rw [append_assoc]⟩
      · have hE : ∀ e, E e :=
          hentry.resolve_left fun ⟨join, hserver, hdelete, _⟩ => hj ⟨join, hserver, hdelete⟩
        -- the join is not one, or not to be deleted by a client: the list stays as it is
        have hsame : Yields (w.joinDelete hasContext j)
            (fun w' => w'.tree = w.tree ∧ ∃ join, w.tree.server j = some (.join join)) E := by
          refine (yields_get (.inr (hE _))).bind fun r1 hr1 => ?_
          cases hs : r1.server with
          | join join =>
            have hserver : w.tree.server j = some (.join join) :=
              (server_of_heap hr1).trans (by rw [hs])
            dsimp only
            rw [if_neg fun hdelete => hj ⟨join, hserver, hdelete⟩]
            unfold Work.replyError Work.reply
            split
            · exact yields_error (hE _)
            · exact yields_ok ⟨rfl, join, hserver⟩
          | domain | feed | pipe | message | content => exact yields_error (hE _)
        refine hsame.bind fun w1 ⟨hw1, join, hserver⟩ => ?_
        refine (yields_destroy (.inr (hE _))).bind fun t2 hremoved => ?_
        rw [hw1] at hremoved
        have hoj : o ≠ j := by
          rintro rfl
          rw [joins_of_server hserver] at hlist
          cases hlist
        refine deleteJoins_dead (k := k) (j := j) (?_ : t2.joins o = (k, j) :: rest) ?_ hE
        · rw [hremoved.joins, if_neg hoj, hlist]
        · have hpath := hremoved.path j
          rwa [if_pos rfl, path, map_eq_none_iff] at hpath

/-! ## Pipes and feeds -/

/-- A pipe has got a new asynclet. -/
def AsyncletAdded (env : Env) (t t' : Tree) (a i : ResourceId) : Prop :=
  ∃ t1 pipe, Created env t t1 a i (.message Message.new) ∧ t.server i = some (.pipe pipe) ∧
    ServerSet t1 t' i (.pipe { pipe with asynclet := some a })

theorem AsyncletAdded.views {a : ResourceId} (h : AsyncletAdded env t t' a i) :
    t.heap a = none ∧ (∃ pipe, t.server i = some (.pipe pipe) ∧
        t'.server i = some (.pipe { pipe with asynclet := some a })) ∧
      (∀ k, k ≠ i → t'.server k = if k = a then some (.message Message.new) else t.server k) ∧
      (∀ k, t'.parent k = if k = a then some i else t.parent k) ∧
      (∀ k, t'.children k = if k = i then t.children k ++ [a] else t.children k) := by
  obtain ⟨t1, pipe, hc, hpipe, hset⟩ := h
  refine ⟨hc.added.fresh, ⟨pipe, hpipe, (hset.server i).trans (if_pos rfl)⟩, fun k hk => ?_,
    fun k => ?_, fun k => ?_⟩
  · rw [hset.server, if_neg hk, hc.added.server]
  · rw [hset.parent, hc.added.parent]
  · rw [hset.children, hc.added.children]

theorem AsyncletAdded.ids {a : ResourceId} (h : AsyncletAdded env t t' a i) :
    a = t.next ∧ t'.next = t.next + 1 := by
  obtain ⟨t1, pipe, hc, -, hset⟩ := h
  rw [hset.next]
  exact hc.added.next

theorem yields_createAsynclet (hbase : Base env t) {pipe : Pipe}
    (hpipe : t.server i = some (.pipe pipe)) :
    Yields (Work.createAsynclet env t now i) (fun t' => ∃ a, AsyncletAdded env t t' a i) E := by
  refine (yields_create hbase.fresh (.inl (live_of_server hpipe)) (.inl hbase.names)).bind
    fun ⟨t1, a⟩ hc => ?_
  have hne := hc.added.ne_of_live (live_of_server hpipe)
  have hpipe' : t1.server i = some (.pipe pipe) := by rw [hc.added.server, if_neg hne, hpipe]
  refine (yields_get (.inl (live_of_server hpipe'))).bind fun r hr => ?_
  obtain ⟨r', hr', hserver⟩ := heap_of_server hpipe'
  obtain rfl : r = r' := some.inj (hr.symm.trans hr')
  rw [hserver]
  exact (yields_setServer (.inl (live_of_server hpipe')) _).imp
    fun t2 ht2 => ⟨a, t1, pipe, hc, hpipe, ht2⟩

/-- The join to the default feed that every pipe has. -/
def defaultJoin (name : Str) (i : ResourceId) : Join := ⟨false, cut name, i, defaultFeedId⟩

/-- A pipe has been created, with its default join and its asynclet. -/
def PipeAdded (env : Env) (t t' : Tree) (i p : ResourceId) (type title : Str) : Prop :=
  ∃ t1 t2 j a, Created env t t1 i p (.pipe ⟨type, title, [], none⟩) ∧
    JoinAdded env t1 t2 j (defaultJoin (hashName env (t.current + 1)) i) ∧
    AsyncletAdded env t2 t' a i

theorem JoinAdded.server_of_ne (h : JoinAdded env t t' j join) (hk : t.Live k)
    (hfeed : k ≠ join.feed) :
    ∃ s, t.server k = some s ∧ ∃ l, t'.server k = some (s.setJoins l) ∧
      (k ≠ join.pipe → t'.server k = some s) := by
  obtain ⟨t1, t2, pp, fp, hc, -, -, ⟨s1, hs1, h1⟩, ⟨s2, hs2, h2⟩⟩ := h
  obtain ⟨s, hs⟩ := live_iff_server.mp hk
  have hserver : t1.server k = some s := by
    rw [hc.added.server, if_neg (hc.added.ne_of_live hk), hs]
  rw [h2.server, if_neg hfeed, h1.server]
  refine ⟨s, hs, ?_⟩
  split
  · next hk =>
    rw [hk, hs1] at hserver
    cases hserver
    exact ⟨_, rfl, fun hne => absurd hk hne⟩
  · refine ⟨s.joins, ?_, fun _ => hserver⟩
    rw [hserver]
    cases s <;> rfl

/-- What `createPipe` returns. -/
def PipeCreated (env : Env) (w : Work) (p : ResourceId) (attrs : Attrs) (r : Work × ResourceId) :
    Prop :=
  ∃ t', PipeAdded env w.tree t' r.2 p (cut ((attrs.get "type".toList).getD "topic".toList))
      (cut ((attrs.get "title".toList).getD [])) ∧
    r.1 = { w with
      tree := t'
      requests := w.requests ++ [.pipeCreate (cut ((attrs.get "type".toList).getD "topic".toList))
        (hashName env (w.tree.current + 1))] }

theorem yields_createPipe (hbase : Base env w.tree) (hp : w.tree.Live p) {attrs : Attrs} :
    Yields (Work.createPipe env w now p attrs) (PipeCreated env w p attrs) E := by
  refine (yields_create hbase.fresh (.inl hp) (.inl hbase.names)).bind fun ⟨t1, i⟩ hc => ?_
  have hbase1 := hbase.created hc rfl
  have hserver : t1.server i = some (.pipe ⟨_, _, [], none⟩) :=
    (hc.added.server i).trans (if_pos rfl)
  refine (yields_get (.inl (live_of_server hserver))).bind fun r hr => ?_
  have hname : r.name = hashName env (w.tree.current + 1) := by
    have hname := (views hr).2.2.2.2.1
    rw [hc.added.name, if_pos rfl] at hname
    exact (some.inj hname).symm
  have hlookup : t1.lookup "/feed/default".toList = some defaultFeedId := hbase1.default.table
  rw [hlookup, hname]
  refine (yields_enterJoin hbase1 (.inl (live_of_server hserver)) hbase1.live_default).bind
    fun ⟨t2, j⟩ hj => ?_
  have hbase2 := hbase1.joinAdded hj
  have hne : i ≠ defaultFeedId := (hbase.default_ne hc.added.fresh).symm
  obtain ⟨s, hs, l, hpipe, -⟩ := hj.server_of_ne (live_of_server hserver) hne
  obtain rfl := some.inj (hserver.symm.trans hs)
  refine (yields_createAsynclet hbase2 hpipe).bind fun t3 ⟨a, ha⟩ => yields_pure ?_
  exact ⟨t3, ⟨t1, t2, j, a, hc, hj, ha⟩, rfl⟩

def newFeed (attrs : Attrs) : Feed where
  dynamic := true
  type := cut ((attrs.get "type".toList).getD "topic".toList)
  title := cut ((attrs.get "title".toList).getD [])
  license := cut ((attrs.get "license".toList).getD [])
  joins := []

/-- The name that a new feed is asked for with. -/
def feedAttr (attrs : Attrs) : Str := (attrs.get "name".toList).getD []

/-- What `createFeed` returns: a feed without a name, a new one with a name, or the one that has
its path already. -/
inductive FeedCreated (env : Env) (w : Work) (p : ResourceId) (attrs : Attrs) :
    Work × ResourceId × Bool → Prop
  | unnamed {t' : Tree} {i : ResourceId} (hname : (feedAttr attrs).isEmpty = true)
    (h : Created env w.tree t' i p (.feed (newFeed attrs))) :
    FeedCreated env w p attrs ({ w with
      tree := t'
      requests := w.requests ++
        [.feedCreate (newFeed attrs).type (hashName env (w.tree.current + 1))] }, i, true)
  | named {t' : Tree} {i : ResourceId} (hname : (feedAttr attrs).isEmpty = false)
    (h : Added w.tree t' i p (cleanName (feedAttr attrs))
      (namedPath "feed".toList (feedAttr attrs)) (.feed (newFeed attrs)))
    (hcurrent : t'.current = w.tree.current) (hfresh : t'.FreshOk) :
    FeedCreated env w p attrs ({ w with
      tree := t'
      requests := w.requests ++
        [.feedCreate (newFeed attrs).type (cleanName (feedAttr attrs))] }, i, true)
  | known {i : ResourceId} (hname : (feedAttr attrs).isEmpty = false)
    (h : w.tree.table (namedPath "feed".toList (feedAttr attrs)) = some i) :
    FeedCreated env w p attrs ({ w with tree := { w.tree with maxItems := w.tree.grow } }, i, false)

theorem yields_createFeed (hbase : Base env w.tree) (hp : w.tree.Live p) {attrs : Attrs} :
    Yields (Work.createFeed env w now p attrs) (FeedCreated env w p attrs) E := by
  unfold Work.createFeed
  by_cases hname : ((attrs.get "name".toList).getD []).isEmpty = true
  · rw [if_pos hname]
    refine (yields_create hbase.fresh (.inl hp) (.inl hbase.names)).bind fun ⟨t1, i⟩ hc => ?_
    refine (yields_get (.inl hc.added.live_self)).bind fun r hr => yields_pure ?_
    have hr' := (views hr).2.2.2.2.1
    rw [hc.added.name, if_pos rfl] at hr'
    rw [← some.inj hr']
    exact .unnamed hname hc
  · rw [if_neg hname]
    dsimp only
    cases hlookup : w.tree.lookup (namedPath "feed".toList ((attrs.get "name".toList).getD [])) with
    | some i => exact yields_pure (.known (Bool.eq_false_iff.mpr hname) hlookup)
    | none =>
      refine (yields_enter hbase.fresh (.inl hp) hlookup).bind fun ⟨t1, i⟩ h => ?_
      exact yields_pure (.named (Bool.eq_false_iff.mpr hname) h.1 h.2.1 h.2.2)

/-! ## Documents -/

/-- The report of a resource only mentions live ones. -/
def Reportable (t : Tree) (i : ResourceId) : Prop :=
  t.Live i ∧ ∀ join, t.server i = some (.join join) → t.Live join.feed

/-- The document of a resource only mentions live ones. -/
def Reads (t : Tree) (i : ResourceId) : Prop :=
  Reportable t i ∧ ∀ c ∈ t.children i, Reportable t c

/-- The value is a format that asks for no argument. -/
def Printable (env : Env) (value : Str) : Prop := env.format value ≠ none

theorem printable_of_plain {value : Str} (h : '%' ∉ value) : Printable env value := by
  rw [Printable, env.format_plain value h]
  nofun

/-- The values that `report` prints -/
def reportFormats (name : Str) : Server → List Str
  | .domain => []
  | .feed feed => [feed.type, name, feed.title, feed.license]
  | .pipe pipe => [pipe.type, name, pipe.title]
  | .join join => [join.address]
  | .message message => [message.messageId]
  | .content content => [content.type]

/-- The values that `get` prints, but for the headers of a message -/
def documentFormats (name : Str) : Server → List Str
  | .domain => [name, "Default domain".toList]
  | .message m => [m.feed, m.address, m.replyTo, m.correlationId, m.expiration, m.messageId, m.type,
      m.userId, m.appId, m.senderId, m.timestamp]
  | server => reportFormats name server

/-- The field has a text, and this and its name can be printed. -/
def FieldPrints (env : Env) (field : Field) : Prop :=
  ∃ value, fieldString env.formatDecimal field.value = some value ∧ Printable env value ∧
    Printable env field.name

/-- The report of a resource can be printed. -/
def ReportPrints (env : Env) (t : Tree) (i : ResourceId) : Prop :=
  ∀ server name, t.server i = some server → t.name i = some name →
    ∀ value ∈ reportFormats name server, Printable env value

/-- The document of a resource can be printed, and a message has a list of headers. -/
structure Prints (env : Env) (t : Tree) (i : ResourceId) : Prop where
  document : ∀ server name, t.server i = some server → t.name i = some name →
    ∀ value ∈ documentFormats name server, Printable env value
  headers : ∀ message, t.server i = some (.message message) →
    ∃ fields, message.headers = some fields ∧ ∀ field ∈ fields, FieldPrints env field
  children : ∀ c ∈ t.children i, ReportPrints env t c

/-- The formats among these leaves can be printed. -/
def LeavesPrint (env : Env) (attrs : List (String × Option Leaf)) : Prop :=
  ∀ attr ∈ attrs, ∀ value, attr.2 = some (.format value) → Printable env value

theorem yields_print {leaf : Leaf} (h : (∀ value, leaf = .format value → Printable env value) ∨
    E .pointer) : Yields (leaf.print env) (fun _ => True) E := by
  cases leaf with
  | text value => exact yields_ok trivial
  | format value =>
    rw [Leaf.print]
    cases hvalue : env.format value with
    | none => exact yields_error (h.resolve_left fun h => h value rfl hvalue)
    | some text => exact yields_ok trivial

variable {attrs : List (String × Option Leaf)}

theorem yields_leaves
    (h : LeavesPrint env attrs ∨ E .pointer) : Yields (leaves env attrs) (fun _ => True) E := by
  unfold leaves
  generalize Attrs.empty = tree
  induction attrs generalizing tree with
  | nil => exact yields_pure trivial
  | cons attr attrs ih =>
    have hrest := ih (h.imp_left fun h attr hattr => h attr (mem_cons_of_mem _ hattr))
    obtain ⟨name, leaf⟩ := attr
    cases leaf with
    | none => exact hrest tree
    | some leaf =>
      rw [foldlM_cons]
      refine ((yields_print (h.imp_left fun h value hvalue => ?_)).bind fun _ _ =>
        yields_pure (P := fun _ => True) trivial).bind fun tree _ => hrest tree
      exact h _ mem_cons_self value (congrArg some hvalue)

variable {r : Resource}

theorem leavesPrint_report {path : Str} {name : String}
    (hr : reportLeaves rootUri path r = some (name, attrs))
    (h : ∀ value ∈ reportFormats r.name r.server, Printable env value) : LeavesPrint env attrs := by
  unfold reportLeaves at hr
  unfold reportFormats at h
  split at hr <;> cases hr <;> simp_all [LeavesPrint, filled, present, href]

theorem yields_feedPath (hr : t.heap i = some r)
    (h : Reportable t i ∨ E .destroyed) : Yields (feedPath t r.server) (fun _ => True) E := by
  have hserver := server_of_heap hr
  cases hs : r.server with
  | join join =>
    rw [hs] at hserver
    exact (yields_get (h.imp_left fun h => h.2 join hserver)).bind fun _ _ => yields_pure trivial
  | domain | feed | pipe | message | content => exact yields_ok trivial

theorem yields_report (h : Reportable t i ∨ E .destroyed)
    (hprints : ReportPrints env t i ∨ E .pointer) :
    Yields (Work.report env t rootUri i) (fun _ => True) E := by
  refine (yields_get (h.imp_left fun h => h.1)).bind fun r hr => ?_
  split
  · exact yields_pure trivial
  · refine (yields_feedPath hr h).bind fun path _ => ?_
    split
    · exact yields_pure trivial
    · next hleaves =>
      refine (yields_leaves (hprints.imp_left fun h => ?_)).bind fun _ _ => yields_pure trivial
      exact leavesPrint_report hleaves
        (h r.server r.name (server_of_heap hr) (views hr).2.2.2.2.1)

theorem yields_reportAll {children : List ResourceId}
    (h : (∀ c ∈ children, Reportable t c) ∨ E .destroyed)
    (hprints : (∀ c ∈ children, ReportPrints env t c) ∨ E .pointer) :
    Yields (Work.reportAll env t rootUri children) (fun _ => True) E := by
  induction children with
  | nil => exact yields_pure trivial
  | cons c cs ih =>
    refine (yields_report (h.imp_left fun h => h c mem_cons_self)
      (hprints.imp_left fun h => h c mem_cons_self)).bind fun _ _ => ?_
    refine (ih (h.imp_left fun h c' hc' => h c' (mem_cons_of_mem _ hc'))
      (hprints.imp_left fun h c' hc' => h c' (mem_cons_of_mem _ hc'))).bind fun _ _ => ?_
    exact yields_pure trivial

theorem leavesPrint_document {path : Str} {name : String}
    (hr : documentLeaves rootUri path r = some (name, attrs))
    (h : ∀ value ∈ documentFormats r.name r.server, Printable env value) :
    LeavesPrint env attrs := by
  unfold documentLeaves at hr
  unfold documentFormats reportFormats at h
  split at hr <;> cases hr <;> simp_all [LeavesPrint, filled, present, href]

theorem yields_headerElement {field : Field} (h : FieldPrints env field ∨ E .pointer) :
    Yields (headerElement env field) (fun _ => True) E := by
  unfold headerElement
  cases hvalue : fieldString env.formatDecimal field.value with
  | none =>
    refine yields_error (h.resolve_left fun ⟨value, hsome, _⟩ => ?_)
    rw [hvalue] at hsome
    cases hsome
  | some value =>
    refine (yields_leaves (h.imp_left fun h => ?_)).bind fun _ _ => yields_pure trivial
    obtain ⟨value', hsome, hprints, hname⟩ := h
    obtain rfl := some.inj (hvalue.symm.trans hsome)
    simp [LeavesPrint, hprints, hname]

theorem yields_headerElements (h : (∀ message, s = .message message → ∃ fields,
      message.headers = some fields ∧ ∀ field ∈ fields, FieldPrints env field) ∨
      E .pointer ∧ E .assertion) :
    Yields (headerElements env s) (fun _ => True) E := by
  cases s with
  | message message =>
    rw [headerElements]
    cases hheaders : message.headers with
    | none =>
      refine yields_error (h.elim (fun h => ?_) And.right)
      obtain ⟨fields, hfields, -⟩ := h message rfl
      rw [hheaders] at hfields
      cases hfields
    | some fields =>
      refine (yields_mapM (P := fun _ => True) fun field hfield => ?_).imp
        fun _ _ => trivial
      refine yields_headerElement (h.imp (fun h => ?_) And.left)
      obtain ⟨fields', hsome, hfields⟩ := h message rfl
      obtain rfl := some.inj (hheaders.symm.trans hsome)
      exact hfields field hfield
  | domain | feed | pipe | join | content => exact yields_ok trivial

theorem yields_documentOf (hr : t.heap i = some r) (h : Reads t i ∨ E .destroyed)
    (hprints : Prints env t i ∨ E .pointer ∧ E .assertion)
    (hcontent : ∀ c, r.server ≠ .content c) :
    Yields (Work.documentOf env t rootUri r) (fun _ => True) E := by
  have hserver := server_of_heap hr
  refine (yields_feedPath hr (h.imp_left And.left)).bind fun path _ => ?_
  split
  · next hnone =>
    cases hs : r.server with
    | content c => exact absurd hs (hcontent c)
    | domain | feed | pipe | join | message =>
      rw [documentLeaves, hs] at hnone
      cases hnone
  · next hleaves =>
    refine (yields_leaves (hprints.imp (fun h => ?_) And.left)).bind fun _ _ => ?_
    · exact leavesPrint_document hleaves (h.document _ _ hserver (views hr).2.2.2.2.1)
    refine (yields_headerElements (hprints.imp_left fun h message hmessage => ?_)).bind
      fun _ _ => ?_
    · exact h.headers message (hserver.trans (congrArg some hmessage))
    refine (yields_reportAll (h.imp_left fun h => ?_) (hprints.imp (fun h => ?_) And.left)).bind
      fun _ _ => yields_pure trivial
    · rw [← (views hr).2.2.1]
      exact h.2
    · rw [← (views hr).2.2.1]
      exact h.children

theorem children_of_fresh (h : t.heap i = none) : t.children i = [] := by
  rw [children, h]
  rfl

theorem PipeAdded.views (h : PipeAdded env t t' i p type title) : ∃ j a pipe,
      t'.server i = some (.pipe pipe) ∧ pipe.asynclet = some a ∧ t'.children i = [j, a] ∧ j ≠ a ∧
      t'.server j = some (.join (defaultJoin (hashName env (t.current + 1)) i)) ∧
      t'.server a = some (.message Message.new) ∧ t'.children a = [] ∧ t'.parent a = some i := by
  obtain ⟨t1, t2, j, a, hc, hj, ha⟩ := h
  obtain ⟨hjfresh, -, hjbare, -, hjchildren⟩ := hj.views
  obtain ⟨hafresh, ⟨pipe, hpipe, hpipe'⟩, haserver, haparent, hachildren⟩ := ha.views
  have hip : i ≠ p := (hc.added.ne_of_live hc.added.live).symm
  have hij : i ≠ j := by
    rintro rfl
    have hlive := hc.added.live_self
    rw [Live, hjfresh] at hlive
    cases hlive
  have hai : a ≠ i := by
    rintro rfl
    rw [server, hafresh] at hpipe
    cases hpipe
  have hja : j ≠ a := by
    rintro rfl
    have hbare := hjbare j
    rw [if_pos rfl, bare, server, hafresh] at hbare
    cases hbare
  refine ⟨j, a, _, hpipe', rfl, ?_, hja, ?_, ?_, ?_, ?_⟩
  · have hpipe : i = (defaultJoin (hashName env (t.current + 1)) i).pipe := rfl
    rw [hachildren, if_pos rfl, hjchildren, if_pos hpipe, hc.added.children, if_neg hip,
      children_of_fresh hc.added.fresh]
    rfl
  · rw [haserver j hij.symm, if_neg hja, server_eq_join, hjbare, if_pos rfl]
  · rw [haserver a hai, if_pos rfl]
  · rw [hachildren, if_neg hai, children_of_fresh hafresh]
  · rw [haparent, if_pos rfl]

theorem PipeAdded.live_of_live (h : PipeAdded env t t' i p type title) (hk : t.Live k) :
    t'.Live k := by
  obtain ⟨t1, t2, j, a, hc, ⟨t3, t4, _, _, hcj, -, -, h1, h2⟩, ⟨t5, pipe, hca, -, hset⟩⟩ := h
  rw [hset.toSameShape.live_iff]
  refine hca.added.live_of_live ?_
  rw [h2.sameShape.live_iff, h1.sameShape.live_iff]
  exact hcj.added.live_of_live (hc.added.live_of_live hk)

theorem PipeAdded.reads (hbase : Base env t) (h : PipeAdded env t t' i p type title) :
    Reads t' i := by
  obtain ⟨j, a, pipe, hpipe, -, hchildren, -, hjoin, hasynclet, -⟩ := h.views
  refine ⟨⟨live_of_server hpipe, fun x hx => ?_⟩, fun k hk => ?_⟩
  · rw [hpipe] at hx
    cases hx
  · rw [hchildren, mem_cons, mem_singleton] at hk
    rcases hk with rfl | rfl
    · refine ⟨live_of_server hjoin, fun x hx => ?_⟩
      rw [hjoin] at hx
      obtain rfl := Server.join.inj (some.inj hx)
      exact h.live_of_live hbase.live_default
    · refine ⟨live_of_server hasynclet, fun x hx => ?_⟩
      rw [hasynclet] at hx
      cases hx

theorem reads_of_no_children (hchildren : t.children i = []) (h : Reportable t i) : Reads t i :=
  ⟨h, by rw [hchildren]; nofun⟩

theorem Tree.Added.reads_feed {f : Feed} (h : Added t t' i p n q (.feed f)) : Reads t' i := by
  have hserver : t'.server i = some (.feed f) := (h.server i).trans (if_pos rfl)
  refine reads_of_no_children ?_ ⟨live_of_server hserver, fun x hx => ?_⟩
  · rw [h.children, if_neg (h.ne_of_live h.live).symm, children_of_fresh h.fresh]
  · rw [hserver] at hx
    cases hx

theorem JoinAdded.reads (h : JoinAdded env t t' j join) (hfeed : t.Live join.feed) :
    Reads t' j := by
  obtain ⟨hfresh, hpipe, hbare, -, hchildren⟩ := h.views
  have hjoin : t'.server j = some (.join join) := by rw [server_eq_join, hbare, if_pos rfl]
  refine reads_of_no_children ?_ ⟨live_of_server hjoin, fun x hx => ?_⟩
  · have hne : j ≠ join.pipe := by
      rintro rfl
      rw [Live, hfresh] at hpipe
      cases hpipe
    rw [hchildren, if_neg hne, children_of_fresh hfresh]
  · rw [hjoin] at hx
    obtain rfl := Server.join.inj (some.inj hx)
    obtain ⟨s, hs⟩ := live_iff_bare.mp hfeed
    rw [live_iff_bare, hbare]
    split
    · exact ⟨_, rfl⟩
    · exact ⟨s, hs⟩

/-! ## What is created can be printed -/

theorem toDigits_plain (n : Nat) : '%' ∉ Nat.toDigits 10 n := fun h =>
  absurd (Nat.isDigit_of_mem_toDigits (Nat.succ_pos _) le_rfl h) Bool.false_ne_true

theorem hashName_plain (k : Nat) : '%' ∉ hashName env k := by
  have hparts : ∀ letters execution current : Str, '%' ∉ letters → '%' ∉ execution →
      '%' ∉ current → '%' ∉ "ZYRE-".toList ++ letters ++ "-".toList ++ execution ++ current := by
    intro letters execution current hletters hexecution hcurrent
    simp [hletters, hexecution, hcurrent]
  exact hparts _ _ _ (env.letters_plain k) (toDigits_plain env.execution) (toDigits_plain k)

theorem cleanName_plain (name : Str) : '%' ∉ cleanName name := by
  rw [cleanName, List.mem_map]
  rintro ⟨c, -, hc⟩
  split at hc
  · exact absurd hc (by decide)
  · next hkept =>
    rw [hc] at hkept
    exact hkept (by decide)

theorem prints_of_no_children (hserver : t.server i = some s) (hmessage : ∀ m, s ≠ .message m)
    (hchildren : t.children i = [])
    (h : ∀ name, t.name i = some name → ∀ value ∈ documentFormats name s, Printable env value) :
    Prints env t i where
  document s' name hs' hname := by
    obtain rfl := some.inj (hserver.symm.trans hs')
    exact h name hname
  headers m hm := absurd (some.inj (hserver.symm.trans hm)) (hmessage m)
  children := by rw [hchildren]; nofun

theorem Tree.Added.prints_feed {f : Feed} (h : Added t t' i p n q (.feed f)) (hname : '%' ∉ n)
    (htype : '%' ∉ f.type) (htitle : Printable env f.title) (hlicense : Printable env f.license) :
    Prints env t' i := by
  refine prints_of_no_children ((h.server i).trans (if_pos rfl)) nofun ?_ fun name hn => ?_
  · rw [h.children, if_neg (h.ne_of_live h.live).symm, children_of_fresh h.fresh]
  · rw [h.name, if_pos rfl] at hn
    obtain rfl := some.inj hn
    simp [documentFormats, reportFormats, htitle, hlicense, printable_of_plain htype,
      printable_of_plain hname]

theorem JoinAdded.prints (h : JoinAdded env t t' j join) (haddress : Printable env join.address) :
    Prints env t' j := by
  obtain ⟨hfresh, hpipe, hbare, -, hchildren⟩ := h.views
  have hne : j ≠ join.pipe := by
    rintro rfl
    rw [Live, hfresh] at hpipe
    cases hpipe
  have hmessage : ∀ m, Server.join join ≠ .message m := by
    rintro m ⟨⟩
  refine prints_of_no_children (server_eq_join.mpr ((hbare j).trans (if_pos rfl))) hmessage ?_
    fun name _ => ?_
  · rw [hchildren, if_neg hne, children_of_fresh hfresh]
  · simp [documentFormats, reportFormats, haddress]

/-- The pipe has its type, its title and the name that has been generated. -/
theorem PipeAdded.pipe (hbase : Base env t) (h : PipeAdded env t t' i p type title) :
    (∃ joins asynclet, t'.server i = some (.pipe ⟨type, title, joins, asynclet⟩)) ∧
      t'.name i = some (hashName env (t.current + 1)) := by
  obtain ⟨t1, t2, j, a, hc, hj, t3, pipe, hca, hpipe, hset⟩ := h
  have hserver : t1.server i = some (.pipe ⟨type, title, [], none⟩) :=
    (hc.added.server i).trans (if_pos rfl)
  obtain ⟨s, hs, l, hl, -⟩ := hj.server_of_ne (live_of_server hserver)
    (hbase.default_ne hc.added.fresh).symm
  obtain rfl := some.inj (hserver.symm.trans hs)
  obtain rfl := Server.pipe.inj (some.inj (hpipe.symm.trans hl))
  refine ⟨⟨l, some a, (hset.server i).trans (if_pos rfl)⟩, ?_⟩
  have hai := hca.added.ne_of_live (live_of_server hpipe)
  obtain ⟨t4, t5, _, _, hcj, -, -, h1, h2⟩ := hj
  have hij := hcj.added.ne_of_live (live_of_server hserver)
  rw [hset.name, hca.added.name, if_neg hai, h2.sameShape.name, h1.sameShape.name, hcj.added.name,
    if_neg hij, hc.added.name, if_pos rfl]

theorem PipeAdded.prints (hbase : Base env t) (h : PipeAdded env t t' i p type title)
    (htype : '%' ∉ type) (htitle : Printable env title) : Prints env t' i := by
  obtain ⟨⟨joins, asynclet, hserver⟩, hname⟩ := h.pipe hbase
  obtain ⟨j, a, -, -, -, hchildren, -, hjoin, hasynclet, -⟩ := h.views
  have hplain : Printable env (hashName env (t.current + 1)) :=
    printable_of_plain (hashName_plain _)
  refine ⟨fun s name hs hn => ?_, fun m hm => ?_, fun k hk => ?_⟩
  · obtain rfl := some.inj (hserver.symm.trans hs)
    obtain rfl := some.inj (hname.symm.trans hn)
    simp [documentFormats, reportFormats, printable_of_plain htype, htitle, hplain]
  · cases hserver.symm.trans hm
  · rw [hchildren, mem_cons, mem_singleton] at hk
    rcases hk with rfl | rfl
    · intro s name hs _
      obtain rfl := some.inj (hjoin.symm.trans hs)
      have haddress : Printable env (cut (hashName env (t.current + 1))) :=
        printable_of_plain fun h => hashName_plain (t.current + 1) (mem_of_mem_take h)
      simp [reportFormats, defaultJoin, haddress]
    · intro s name hs _
      obtain rfl := some.inj (hasynclet.symm.trans hs)
      simp [reportFormats, Message.new, printable_of_plain]

end OpenAmq.Zyre
