import OpenAmq.Zyre.Backend
import OpenAmq.Zyre.Joins

/-!
# The backend mirrors the resources

The backend knows feeds by their names and joins by the names of their pipe and feed and their
address, the resource tree by paths and by keys that are cut off. Both are the same as long as no
feed gets the name of another one and no join is taken for another one by its key.

* `Mirrors` — what it does know is that
* `MirrorOk` — the invariant
* `Mirrorable` — the steps that keep it
* `backend_mirrors` — no assertion fails in a run of such steps
-/

namespace OpenAmq.Zyre

open OpenAmq.Lib OpenAmq.Zyre.Tree Option Backend

variable {env : Env} {t t' : Tree} {b b' : Backend} {i j : ResourceId}

/-! ## What the backend should know -/

def FeedNamed (t : Tree) (n type : Str) : Prop :=
  ∃ i, t.kind i = some (.feed true type) ∧ t.name i = some n

def PipeNamed (t : Tree) (n type : Str) : Prop :=
  ∃ i, t.kind i = some (.pipe type) ∧ t.name i = some n

/-- The resource is a dynamic join with the names of its pipe and feed and the address. -/
def IsJoin (t : Tree) (j : ResourceId) (c : CachedJoin) : Prop :=
  ∃ x, t.kind j = some (.join x) ∧ x.dynamic = true ∧ t.name x.pipe = some c.pipeName ∧
    t.name x.feed = some c.feedName ∧ x.address = c.address

/-- The backend knows the dynamic feeds, the pipes and the dynamic joins. -/
def Mirrors (t : Tree) (b : Backend) : Prop :=
  Caches (FeedNamed t) (PipeNamed t) (fun c => ∃ j, IsJoin t j c) b

/-- Each of them is known under one name. -/
structure Apart (t : Tree) : Prop where
  feeds : ∀ i i' type type' n, t.kind i = some (.feed true type) →
    t.kind i' = some (.feed true type') → t.name i = some n → t.name i' = some n → i' = i
  pipes : ∀ i i' type type' n, t.kind i = some (.pipe type) → t.kind i' = some (.pipe type') →
    t.name i = some n → t.name i' = some n → i' = i
  joins : ∀ j j' c, IsJoin t j c → IsJoin t j' c → j' = j

/-- What holds after every step. -/
structure MirrorOk (env : Env) (t : Tree) (b : Backend) : Prop where
  base : Base env t
  joins : JoinsOk t
  feeds : ∀ i i' type type' n, t.kind i = some (.feed true type) →
    t.kind i' = some (.feed true type') → t.name i = some n → t.name i' = some n → i' = i
  pipes : ∀ i type, t.kind i = some (.pipe type) →
    ∃ n, t.name i = some n ∧ t.path i = some (resourcePath n)
  dynamic : ∀ j x, t.kind j = some (.join x) → x.dynamic = true → x.feed ≠ defaultFeedId
  mirrors : Mirrors t b

theorem name_of_kind {x : Kind} (h : t.kind i = some x) : ∃ n, t.name i = some n := by
  have hlive := live_of_kind h
  rw [Live, isSome_iff_exists] at hlive
  obtain ⟨r, hr⟩ := hlive
  exact ⟨r.name, (views hr).2.2.2.2.1⟩

theorem eq_of_key {l : JoinList} {k : Str} (hn : (l.map Prod.fst).Nodup) (hi : (k, i) ∈ l)
    (hj : (k, j) ∈ l) : j = i := by
  have hfind := find_of_nodup_keys hn hi
  rw [find_of_nodup_keys hn hj] at hfind
  exact congrArg Prod.snd (some.inj hfind)

theorem MirrorOk.pipe_of_name (h : MirrorOk env t b) {type type' n : Str}
    (hi : t.kind i = some (.pipe type)) (hj : t.kind j = some (.pipe type'))
    (hin : t.name i = some n) (hjn : t.name j = some n) : j = i := by
  obtain ⟨m, hm, hpath⟩ := h.pipes i type hi
  obtain ⟨m', hm', hpath'⟩ := h.pipes j type' hj
  obtain rfl := some.inj (hin.symm.trans hm)
  obtain rfl := some.inj (hjn.symm.trans hm')
  rw [← h.base.table] at hpath hpath'
  exact some.inj (hpath'.symm.trans hpath)

theorem MirrorOk.dynamic_feed (h : MirrorOk env t b) (hi : i ≠ defaultFeedId)
    (hfeed : ∃ dynamic type, t.kind i = some (.feed dynamic type)) :
    ∃ type, t.kind i = some (.feed true type) := by
  obtain ⟨d, type, hfeed⟩ := hfeed
  cases d with
  | true => exact ⟨type, hfeed⟩
  | false =>
    obtain ⟨f, hf, hd, -⟩ := kind_feed_iff.mp hfeed
    exact absurd (h.base.classes.dynamic _ f hf hd) hi

variable {x : Join} {pp fp : Str} {p : ResourceId} {requests : List BackendRequest}

theorem MirrorOk.same_ends (h : MirrorOk env t b) {x' : Join} {pp' fp' pn fn : Str}
    (hx : Joining t x pp fp) (hx' : Joining t x' pp' fp') (hdefault : x.feed ≠ defaultFeedId)
    (hdefault' : x'.feed ≠ defaultFeedId) (hpn : t.name x.pipe = some pn)
    (hpn' : t.name x'.pipe = some pn) (hfn : t.name x.feed = some fn)
    (hfn' : t.name x'.feed = some fn) : x'.pipe = x.pipe ∧ x'.feed = x.feed := by
  obtain ⟨type, hpipe⟩ := hx.pipe
  obtain ⟨type', hpipe'⟩ := hx'.pipe
  obtain ⟨_, hfeed⟩ := h.dynamic_feed hdefault hx.feed
  obtain ⟨_, hfeed'⟩ := h.dynamic_feed hdefault' hx'.feed
  exact ⟨h.pipe_of_name hpipe hpipe' hpn hpn', h.feeds _ _ _ _ _ hfeed hfeed' hfn hfn'⟩

theorem MirrorOk.key_of_isJoin (h : MirrorOk env t b) (hx : Joining t x pp fp)
    (hdefault : x.feed ≠ defaultFeedId) {c : CachedJoin} (hpn : t.name x.pipe = some c.pipeName)
    (hfn : t.name x.feed = some c.feedName) (ha : x.address = c.address) (hj : IsJoin t j c) :
    (joinKey x.address fp, j) ∈ t.joins x.pipe := by
  obtain ⟨x', hj, hdynamic', hpn', hfn', ha'⟩ := hj
  obtain ⟨pp', fp', hx', hlisted'⟩ := h.joins.listed j x' hj
  obtain ⟨hpp, hff⟩ := h.same_ends hx hx' hdefault (h.dynamic j x' hj hdynamic') hpn hpn' hfn hfn'
  have hfp : fp' = fp := by
    have hpath := hx'.feedPath
    rw [hff, hx.feedPath] at hpath
    exact (some.inj hpath).symm
  have hmem := hlisted' x'.pipe (joinKey x'.address fp', j) ⟨rfl, .inl ⟨rfl, rfl⟩⟩
  rwa [hpp, ha'.trans ha.symm, hfp] at hmem

theorem MirrorOk.apart (h : MirrorOk env t b) : Apart t := by
  refine ⟨h.feeds, fun i i' type type' n hi hi' hn hn' => h.pipe_of_name hi hi' hn hn', ?_⟩
  rintro j j' c ⟨x, hj, hdynamic, hpn, hfn, ha⟩ hj'
  obtain ⟨pp, fp, hx, hlisted⟩ := h.joins.listed j x hj
  obtain ⟨type, hpipe⟩ := hx.pipe
  have hmem := hlisted x.pipe (joinKey x.address fp, j) ⟨rfl, .inl ⟨rfl, rfl⟩⟩
  have hmem' := h.key_of_isJoin hx (h.dynamic j x hj hdynamic) hpn hfn ha hj'
  exact eq_of_key (h.joins.keys _ _ hpipe) hmem hmem'

/-! ## The pictures before and after a step -/

/-- Feeds, pipes and joins other than `i` stay as they are. -/
structure Elsewhere (t t' : Tree) (i : ResourceId) : Prop where
  kind : ∀ k, k ≠ i → t'.kind k = t.kind k
  name : ∀ k, k ≠ i → t.kind k ≠ none → t'.name k = t.name k
  path : ∀ k, k ≠ i → t.kind k ≠ none → t'.path k = t.path k

/-- The resource `i` is the pipe or the feed of no join. -/
def Unrelated (t : Tree) (i : ResourceId) : Prop :=
  ∀ j x, t.kind j = some (.join x) → x.pipe ≠ i ∧ x.feed ≠ i

section Pictures

variable {n type : Str} {c : CachedJoin}

section

variable (h : Elsewhere t t' i)

include h

theorem Elsewhere.named_iff {x : Kind} :
    (∃ k, t'.kind k = some x ∧ t'.name k = some n) ↔
      (∃ k, k ≠ i ∧ t.kind k = some x ∧ t.name k = some n) ∨
        t'.kind i = some x ∧ t'.name i = some n := by
  constructor
  · rintro ⟨k, hk, hn⟩
    by_cases hki : k = i
    · exact .inr ⟨hki ▸ hk, hki ▸ hn⟩
    · rw [h.kind k hki] at hk
      rw [h.name k hki (by rw [hk]; nofun)] at hn
      exact .inl ⟨k, hki, hk, hn⟩
  · rintro (⟨k, hki, hk, hn⟩ | ⟨hk, hn⟩)
    · exact ⟨k, (h.kind k hki).trans hk, (h.name k hki (by rw [hk]; nofun)).trans hn⟩
    · exact ⟨i, hk, hn⟩

theorem Elsewhere.feedNamed_iff : FeedNamed t' n type ↔
    (∃ k, k ≠ i ∧ t.kind k = some (.feed true type) ∧ t.name k = some n) ∨
      t'.kind i = some (.feed true type) ∧ t'.name i = some n :=
  h.named_iff

theorem Elsewhere.pipeNamed_iff : PipeNamed t' n type ↔
    (∃ k, k ≠ i ∧ t.kind k = some (.pipe type) ∧ t.name k = some n) ∨
      t'.kind i = some (.pipe type) ∧ t'.name i = some n :=
  h.named_iff

theorem Elsewhere.isJoin_iff (hok : JoinsOk t) (hi : Unrelated t i)
    (hji : j ≠ i) : IsJoin t' j c ↔ IsJoin t j c := by
  have hnames : ∀ x, t.kind j = some (.join x) →
      t'.name x.pipe = t.name x.pipe ∧ t'.name x.feed = t.name x.feed := by
    intro x hj
    obtain ⟨hp, hf⟩ := hi j x hj
    obtain ⟨_, _, ⟨⟨_, hpipe⟩, ⟨_, _, hfeed⟩, -, -⟩, -⟩ := hok.listed j x hj
    exact ⟨h.name _ hp (by rw [hpipe]; nofun), h.name _ hf (by rw [hfeed]; nofun)⟩
  rw [IsJoin, IsJoin, h.kind j hji]
  refine exists_congr fun x => and_congr_right fun hj => and_congr_right fun _ => ?_
  rw [(hnames x hj).1, (hnames x hj).2]

theorem Elsewhere.feedNamed_same
    (hi : ∀ type, t.kind i ≠ some (.feed true type))
    (hi' : ∀ type, t'.kind i ≠ some (.feed true type)) :
    FeedNamed t' n type ↔ FeedNamed t n type := by
  rw [h.feedNamed_iff, or_iff_left fun h => hi' _ h.1]
  refine exists_congr fun k => and_iff_right_of_imp fun hk => ?_
  rintro rfl
  exact hi _ hk.1

theorem Elsewhere.pipeNamed_same
    (hi : ∀ type, t.kind i ≠ some (.pipe type)) (hi' : ∀ type, t'.kind i ≠ some (.pipe type)) :
    PipeNamed t' n type ↔ PipeNamed t n type := by
  rw [h.pipeNamed_iff, or_iff_left fun h => hi' _ h.1]
  refine exists_congr fun k => and_iff_right_of_imp fun hk => ?_
  rintro rfl
  exact hi _ hk.1

theorem Elsewhere.joins_same (hok : JoinsOk t) (hi : Unrelated t i)
    (hjoin : ∀ x, t.kind i ≠ some (.join x)) (hjoin' : ∀ x, t'.kind i ≠ some (.join x)) :
    (∃ j, IsJoin t' j c) ↔ ∃ j, IsJoin t j c := by
  refine exists_congr fun j => ?_
  by_cases hji : j = i
  · refine iff_of_false ?_ ?_
    · rintro ⟨x, hj, -⟩
      exact hjoin' x (hji ▸ hj)
    · rintro ⟨x, hj, -⟩
      exact hjoin x (hji ▸ hj)
  · exact h.isJoin_iff hok hi hji

end

end Pictures

/-! ## What the operations keep -/

section Operations

variable {n type : Str}

theorem Still.named_iff (h : Still t t') {x : Kind} : (t'.kind i = some x ∧ t'.name i = some n) ↔
    t.kind i = some x ∧ t.name i = some n := by
  rw [h.kind]
  refine and_congr_right fun hi => ?_
  rw [h.name i (by rw [hi]; nofun)]

theorem Still.isJoin_iff (h : Still t t') (hok : JoinsOk t) {c : CachedJoin} :
    IsJoin t' j c ↔ IsJoin t j c := by
  rw [IsJoin, IsJoin, h.kind]
  refine exists_congr fun x => and_congr_right fun hj => and_congr_right fun _ => ?_
  obtain ⟨_, _, ⟨⟨_, hpipe⟩, ⟨_, _, hfeed⟩, -, -⟩, -⟩ := hok.listed j x hj
  rw [h.name _ (by rw [hpipe]; nofun), h.name _ (by rw [hfeed]; nofun)]

theorem MirrorOk.still (h : MirrorOk env t b) (hbase : Base env t') (hs : Still t t') :
    MirrorOk env t' b := by
  refine ⟨hbase, h.joins.still hs, fun i i' type type' n hi hi' hn hn' => ?_, fun i type hi => ?_,
    fun j x hj => h.dynamic j x ((hs.kind j).symm.trans hj), ?_⟩
  · obtain ⟨hi, hn⟩ := hs.named_iff.mp ⟨hi, hn⟩
    obtain ⟨hi', hn'⟩ := hs.named_iff.mp ⟨hi', hn'⟩
    exact h.feeds i i' type type' n hi hi' hn hn'
  · rw [hs.kind] at hi
    rw [hs.name i (by rw [hi]; nofun), hs.path i (by rw [hi]; nofun)]
    exact h.pipes i type hi
  · exact h.mirrors.congr (fun _ _ => exists_congr fun _ => hs.named_iff)
      (fun _ _ => exists_congr fun _ => hs.named_iff)
      fun _ => exists_congr fun _ => hs.isJoin_iff h.joins

theorem Tree.Added.elsewhere {n q : Str} {s : Server} (h : Added t t' i p n q s) :
    Elsewhere t t' i where
  kind k hk := (h.kind k).trans (if_neg hk)
  name k hk _ := (h.name k).trans (if_neg hk)
  path k hk _ := (h.path k).trans (if_neg hk)

theorem Tree.Gone.elsewhere (h : Gone t t' i) : Elsewhere t t' i where
  kind k hk := (h.kind k).trans (if_neg hk)
  name k hk _ := (h.name k).trans (if_neg hk)
  path k hk _ := (h.path k).trans (if_neg hk)

theorem Elsewhere.pipes (he : Elsewhere t t' i) (h : MirrorOk env t b) {k : ResourceId}
    (hki : k ≠ i) (hk : t'.kind k = some (.pipe type)) :
    ∃ n, t'.name k = some n ∧ t'.path k = some (resourcePath n) := by
  rw [he.kind k hki] at hk
  rw [he.name k hki (by rw [hk]; nofun), he.path k hki (by rw [hk]; nofun)]
  exact h.pipes k type hk

theorem Elsewhere.dynamic (he : Elsewhere t t' i) (h : MirrorOk env t b) (hji : j ≠ i)
    (hj : t'.kind j = some (.join x)) (hx : x.dynamic = true) : x.feed ≠ defaultFeedId :=
  h.dynamic j x ((he.kind j hji).symm.trans hj) hx

theorem Elsewhere.feeds (he : Elsewhere t t' i) (h : MirrorOk env t b) {k k' : ResourceId}
    {type' : Str} (hki : k ≠ i) (hki' : k' ≠ i) (hk : t'.kind k = some (.feed true type))
    (hk' : t'.kind k' = some (.feed true type')) (hn : t'.name k = some n)
    (hn' : t'.name k' = some n) : k' = k := by
  rw [he.kind k hki] at hk
  rw [he.kind k' hki'] at hk'
  rw [he.name k hki (by rw [hk]; nofun)] at hn
  rw [he.name k' hki' (by rw [hk']; nofun)] at hn'
  exact h.feeds k k' _ _ n hk hk' hn hn'

theorem ne_of_kind {x y : Kind} (hi : t.kind i = some x) (hj : t.kind j = some y) (hxy : x ≠ y) :
    j ≠ i := by
  rintro rfl
  exact hxy (some.inj (hi.symm.trans hj))

theorem JoinsOk.unrelated_of_kind (h : JoinsOk t) (hi : t.kind i = none) : Unrelated t i := by
  intro j x hj
  obtain ⟨_, _, ⟨⟨_, hpipe⟩, ⟨_, _, hfeed⟩, -, -⟩, -⟩ := h.listed j x hj
  constructor
  · rintro rfl
    rw [hi] at hpipe
    cases hpipe
  · rintro rfl
    rw [hi] at hfeed
    cases hfeed

theorem JoinsOk.unrelated_of_joins (h : JoinsOk t) (hi : t.joins i = []) : Unrelated t i := by
  intro j x hj
  obtain ⟨_, _, -, hlisted⟩ := h.listed j x hj
  constructor
  · rintro rfl
    have hmem := hlisted x.pipe (_, j) ⟨rfl, .inl ⟨rfl, rfl⟩⟩
    rw [hi] at hmem
    cases hmem
  · rintro rfl
    have hmem := hlisted x.feed (_, j) ⟨rfl, .inr ⟨rfl, rfl⟩⟩
    rw [hi] at hmem
    cases hmem

theorem MirrorOk.feedCreated {q : Str} {f : Feed} (h : MirrorOk env t b) (hbase : Base env t')
    (ha : Added t t' i p n q (.feed f)) (hdynamic : f.dynamic = true) (hjoins : f.joins = [])
    (hn : ∀ type, ¬ FeedNamed t n type) :
    ∃ b', b.handle (.feedCreate f.type n) = some b' ∧ MirrorOk env t' b' := by
  have he := ha.elsewhere
  have hi : t.kind i = none := kind_of_fresh ha.fresh
  have hi' : t'.kind i = some (.feed true f.type) := by
    rw [ha.kind, if_pos rfl, ← hdynamic]
    rfl
  have hname' : t'.name i = some n := (ha.name i).trans (if_pos rfl)
  -- no other one has its name
  have honly : ∀ k type', t'.kind k = some (.feed true type') → t'.name k = some n → k = i := by
    intro k type' hk hkn
    by_contra hki
    rw [he.kind k hki] at hk
    rw [he.name k hki (by rw [hk]; nofun)] at hkn
    exact hn type' ⟨k, hk, hkn⟩
  obtain ⟨b', hb', hmirrors⟩ := h.mirrors.feedCreate hn
  refine ⟨b', hb', hbase, h.joins.added ha hjoins (fun _ => nofun), ?_,
    fun k _ hk => he.pipes h (ne_of_kind hi' hk nofun) hk,
    fun j _ hj => he.dynamic h (ne_of_kind hi' hj nofun) hj,
    hmirrors.congr (fun n' type' => ?_) (fun n' type' => ?_) fun c => ?_⟩
  · intro k k' type' type'' n' hk hk' hkn hkn'
    by_cases hki : k = i
    · obtain rfl : n = n' := some.inj (hname'.symm.trans (hki ▸ hkn))
      rw [hki]
      exact honly k' _ hk' hkn'
    · by_cases hki' : k' = i
      · obtain rfl : n = n' := some.inj (hname'.symm.trans (hki' ▸ hkn'))
        exact absurd (honly k _ hk hkn) hki
      · exact he.feeds h hki hki' hk hk' hkn hkn'
  · rw [he.feedNamed_iff, hi', hname', some.injEq, some.injEq, Kind.feed.injEq]
    refine or_congr (exists_congr fun k => and_iff_right_of_imp fun hk => ?_) (by tauto)
    rintro rfl
    rw [hi] at hk
    cases hk.1
  · exact he.pipeNamed_same (fun _ => by rw [hi]; nofun) fun _ => by rw [hi']; nofun
  · exact he.joins_same h.joins (h.joins.unrelated_of_kind hi) (fun _ => by rw [hi]; nofun)
      fun _ => by rw [hi']; nofun

theorem MirrorOk.pipeCreated {x : Pipe} (h : MirrorOk env t b) (hbase : Base env t')
    (ha : Added t t' i p n (resourcePath n) (.pipe x)) (hjoins : x.joins = []) :
    ∃ b', b.handle (.pipeCreate x.type n) = some b' ∧ MirrorOk env t' b' := by
  have he := ha.elsewhere
  have hi : t.kind i = none := kind_of_fresh ha.fresh
  have hi' : t'.kind i = some (.pipe x.type) := by
    rw [ha.kind, if_pos rfl]
    rfl
  have hname' : t'.name i = some n := (ha.name i).trans (if_pos rfl)
  -- its path has not been in use
  have hn : ∀ type, ¬ PipeNamed t n type := by
    rintro type ⟨k, hk, hkn⟩
    obtain ⟨m, hm, hpath⟩ := h.pipes k type hk
    obtain rfl := some.inj (hkn.symm.trans hm)
    rw [← h.base.table, ha.unused] at hpath
    cases hpath
  obtain ⟨b', hb', hmirrors⟩ := h.mirrors.pipeCreate hn
  refine ⟨b', hb', hbase, h.joins.added ha hjoins (fun _ => nofun),
    fun k k' _ _ _ hk hk' hkn hkn' =>
      he.feeds h (ne_of_kind hi' hk nofun) (ne_of_kind hi' hk' nofun) hk hk' hkn hkn',
    fun k type hk => ?_, fun j _ hj => he.dynamic h (ne_of_kind hi' hj nofun) hj,
    hmirrors.congr (fun n' type' => ?_) (fun n' type' => ?_) fun c => ?_⟩
  · by_cases hki : k = i
    · rw [hki, hname', ha.path, if_pos rfl]
      exact ⟨n, rfl, rfl⟩
    · exact he.pipes h hki hk
  · exact he.feedNamed_same (fun _ => by rw [hi]; nofun) fun _ => by rw [hi']; nofun
  · rw [he.pipeNamed_iff, hi', hname', some.injEq, some.injEq, Kind.pipe.injEq]
    refine or_congr (exists_congr fun k => and_iff_right_of_imp fun hk => ?_) (by tauto)
    rintro rfl
    rw [hi] at hk
    cases hk.1
  · exact he.joins_same h.joins (h.joins.unrelated_of_kind hi) (fun _ => by rw [hi]; nofun)
      fun _ => by rw [hi']; nofun

theorem MirrorOk.feedGone (h : MirrorOk env t b) (hbase : Base env t') (hg : Gone t t' i)
    (hi : t.kind i = some (.feed true type)) (hn : t.name i = some n) (hjoins : t.joins i = []) :
    ∃ b', b.handle (.feedDelete n) = some b' ∧ MirrorOk env t' b' := by
  have he := hg.elsewhere
  have hi' : t'.kind i = none := (hg.kind i).trans (if_pos rfl)
  have hne : ∀ {k x}, t'.kind k = some x → k ≠ i := by
    rintro k x hk rfl
    rw [hi'] at hk
    cases hk
  obtain ⟨b', hb', hmirrors⟩ := h.mirrors.feedDelete (n := n) ⟨i, hi, hn⟩
  refine ⟨b', hb', hbase, h.joins.gone hg hjoins (fun _ => by rw [hi]; nofun),
    fun k k' _ _ _ hk hk' hkn hkn' => he.feeds h (hne hk) (hne hk') hk hk' hkn hkn',
    fun k _ hk => he.pipes h (hne hk) hk, fun j _ hj => he.dynamic h (hne hj) hj,
    hmirrors.congr (fun n' type' => ?_) (fun n' type' => ?_) fun c => ?_⟩
  · rw [he.feedNamed_iff, hi', or_iff_left fun h => by cases h.1]
    constructor
    · rintro ⟨k, hki, hk, hkn⟩
      refine ⟨⟨k, hk, hkn⟩, ?_⟩
      rintro rfl
      exact hki (h.feeds i k _ _ n' hi hk hn hkn)
    · rintro ⟨⟨k, hk, hkn⟩, hother⟩
      refine ⟨k, ?_, hk, hkn⟩
      rintro rfl
      exact hother (some.inj (hkn.symm.trans hn))
  · exact he.pipeNamed_same (fun _ => by rw [hi]; nofun) fun _ => by rw [hi']; nofun
  · exact he.joins_same h.joins (h.joins.unrelated_of_joins hjoins) (fun _ => by rw [hi]; nofun)
      fun _ => by rw [hi']; nofun

theorem MirrorOk.pipeGone (h : MirrorOk env t b) (hbase : Base env t') (hg : Gone t t' i)
    (hi : t.kind i = some (.pipe type)) (hn : t.name i = some n) (hjoins : t.joins i = []) :
    ∃ b', b.handle (.pipeDelete n) = some b' ∧ MirrorOk env t' b' := by
  have he := hg.elsewhere
  have hi' : t'.kind i = none := (hg.kind i).trans (if_pos rfl)
  have hne : ∀ {k x}, t'.kind k = some x → k ≠ i := by
    rintro k x hk rfl
    rw [hi'] at hk
    cases hk
  have hu := h.joins.unrelated_of_joins hjoins
  -- a join that the backend knows is one of another pipe
  have hplaced : ∀ c, (∃ j, IsJoin t j c) → c.pipeName ≠ n := by
    rintro c ⟨j, x, hj, -, hpn, -⟩ rfl
    obtain ⟨_, _, ⟨⟨_, hpipe⟩, -, -, -⟩, -⟩ := h.joins.listed j x hj
    exact (hu j x hj).1 (h.pipe_of_name hi hpipe hn hpn)
  obtain ⟨b', hb', hmirrors⟩ := h.mirrors.pipeDelete (n := n) ⟨i, hi, hn⟩ hplaced
  refine ⟨b', hb', hbase, h.joins.gone hg hjoins (fun _ => by rw [hi]; nofun),
    fun k k' _ _ _ hk hk' hkn hkn' => he.feeds h (hne hk) (hne hk') hk hk' hkn hkn',
    fun k _ hk => he.pipes h (hne hk) hk, fun j _ hj => he.dynamic h (hne hj) hj,
    hmirrors.congr (fun n' type' => ?_) (fun n' type' => ?_) fun c => ?_⟩
  · exact he.feedNamed_same (fun _ => by rw [hi]; nofun) fun _ => by rw [hi']; nofun
  · rw [he.pipeNamed_iff, hi', or_iff_left fun h => by cases h.1]
    constructor
    · rintro ⟨k, hki, hk, hkn⟩
      refine ⟨⟨k, hk, hkn⟩, ?_⟩
      rintro rfl
      exact hki (h.pipe_of_name hi hk hn hkn)
    · rintro ⟨⟨k, hk, hkn⟩, hother⟩
      refine ⟨k, ?_, hk, hkn⟩
      rintro rfl
      exact hother (some.inj (hkn.symm.trans hn))
  · exact he.joins_same h.joins hu (fun _ => by rw [hi]; nofun) fun _ => by rw [hi']; nofun

theorem Joining.names (h : Joining t x pp fp) :
    ∃ pn fn, t.name x.pipe = some pn ∧ t.name x.feed = some fn := by
  obtain ⟨_, hpipe⟩ := h.pipe
  obtain ⟨_, _, hfeed⟩ := h.feed
  obtain ⟨pn, hpn⟩ := name_of_kind hpipe
  obtain ⟨fn, hfn⟩ := name_of_kind hfeed
  exact ⟨pn, fn, hpn, hfn⟩

theorem JoinNew.elsewhere (h : JoinNew t t' j x pp fp) : Elsewhere t t' j where
  kind k hk := (h.kind k).trans (if_neg hk)
  name k _ hk := h.name k hk
  path k _ hk := h.path k hk

theorem JoinLost.elsewhere (h : JoinLost t t' j x pp fp) : Elsewhere t t' j where
  kind k hk := (h.kind k).trans (if_neg hk)
  name k hk _ := h.name k hk
  path k hk _ := h.path k hk

theorem JoinsOk.unrelated_of_join (h : JoinsOk t) (hj : t.kind j = some (.join x)) :
    Unrelated t j := by
  intro j' x' hj'
  obtain ⟨_, _, hx', -⟩ := h.listed j' x' hj'
  exact hx'.ne_join hj

theorem isJoin_iff_of_kind {pn fn : Str} {c : CachedJoin} (hj : t.kind j = some (.join x))
    (hpn : t.name x.pipe = some pn) (hfn : t.name x.feed = some fn) :
    IsJoin t j c ↔ x.dynamic = true ∧ c = ⟨pn, fn, x.address⟩ := by
  constructor
  · rintro ⟨x', hj', hdynamic, hpn', hfn', ha⟩
    obtain rfl := Kind.join.inj (some.inj (hj.symm.trans hj'))
    obtain ⟨cp, cf, ca⟩ := c
    obtain rfl := some.inj (hpn.symm.trans hpn')
    obtain rfl := some.inj (hfn.symm.trans hfn')
    obtain rfl := ha
    exact ⟨hdynamic, rfl⟩
  · rintro ⟨hdynamic, rfl⟩
    exact ⟨x, hj, hdynamic, hpn, hfn, rfl⟩

def joinCreated (t : Tree) (join : Join) : List BackendRequest :=
  if join.dynamic then
    [.joinCreate ((t.name join.pipe).getD []) ((t.name join.feed).getD []) join.address]
  else []

/-- The backend is told of a new join, and holds it. -/
theorem MirrorOk.joinNew (h : MirrorOk env t b) (hbase : Base env t')
    (hnew : JoinNew t t' j x pp fp) (hkey : ∀ e ∈ t.joins x.pipe, e.1 ≠ joinKey x.address fp)
    (hdefault : x.dynamic = true → x.feed ≠ defaultFeedId) :
    ∃ b', run handle b (joinCreated t x) = some b' ∧ MirrorOk env t' b' := by
  have he := hnew.elsewhere
  have hj : t.kind j = none := kind_of_fresh hnew.fresh
  have hj' : t'.kind j = some (.join x) := (hnew.kind j).trans (if_pos rfl)
  obtain ⟨pn, fn, hpn, hfn⟩ := hnew.joining.names
  obtain ⟨_, hpipe⟩ := hnew.joining.pipe
  obtain ⟨_, _, hfeed⟩ := hnew.joining.feed
  have hself : ∀ c, IsJoin t' j c ↔ x.dynamic = true ∧ c = ⟨pn, fn, x.address⟩ := fun c =>
    isJoin_iff_of_kind hj' (by rw [hnew.name _ (by rw [hpipe]; nofun), hpn])
      (by rw [hnew.name _ (by rw [hfeed]; nofun), hfn])
  have hkeep : ∀ {b'}, Mirrors t' b' → MirrorOk env t' b' := by
    intro b' hmirrors
    refine ⟨hbase, h.joins.joinNew hnew hkey,
      fun k k' _ _ _ hk hk' hkn hkn' =>
        he.feeds h (ne_of_kind hj' hk nofun) (ne_of_kind hj' hk' nofun) hk hk' hkn hkn',
      fun k _ hk => he.pipes h (ne_of_kind hj' hk nofun) hk, fun j' x' hj'' hdynamic => ?_,
      hmirrors⟩
    by_cases hjj : j' = j
    · rw [hjj, hj'] at hj''
      obtain rfl := Kind.join.inj (some.inj hj'')
      exact hdefault hdynamic
    · exact he.dynamic h hjj hj'' hdynamic
  have hF : ∀ n' type', FeedNamed t' n' type' ↔ FeedNamed t n' type' := fun _ _ =>
    he.feedNamed_same (fun _ => by rw [hj]; nofun) fun _ => by rw [hj']; nofun
  have hP : ∀ n' type', PipeNamed t' n' type' ↔ PipeNamed t n' type' := fun _ _ =>
    he.pipeNamed_same (fun _ => by rw [hj]; nofun) fun _ => by rw [hj']; nofun
  have hJ : ∀ c, (∃ j', IsJoin t' j' c) ↔
      (∃ j', IsJoin t j' c) ∨ x.dynamic = true ∧ c = ⟨pn, fn, x.address⟩ := by
    intro c
    have hother : ∀ j', j' ≠ j → (IsJoin t' j' c ↔ IsJoin t j' c) := fun j' =>
      he.isJoin_iff h.joins (h.joins.unrelated_of_kind hj)
    constructor
    · rintro ⟨j', h'⟩
      by_cases hjj : j' = j
      · exact .inr ((hself c).mp (hjj ▸ h'))
      · exact .inl ⟨j', (hother j' hjj).mp h'⟩
    · rintro (⟨j', h'⟩ | hc)
      · refine ⟨j', (hother j' ?_).mpr h'⟩
        rintro rfl
        obtain ⟨x', hx', -⟩ := h'
        rw [hj] at hx'
        cases hx'
      · exact ⟨j, (hself c).mpr hc⟩
  rw [joinCreated, hpn, hfn]
  cases hdynamic : x.dynamic with
  | false =>
    refine ⟨b, rfl, hkeep (h.mirrors.congr hF hP fun c => ?_)⟩
    rw [hJ, hdynamic]
    exact or_iff_left fun h => by cases h.1
  | true =>
    have hfresh : ¬ ∃ j', IsJoin t j' ⟨pn, fn, x.address⟩ := by
      rintro ⟨j', h'⟩
      exact hkey _ (h.key_of_isJoin hnew.joining (hdefault hdynamic) hpn hfn rfl h') rfl
    obtain ⟨b', hb', hmirrors⟩ :=
      h.mirrors.joinCreate (c := ⟨pn, fn, x.address⟩) ⟨x.pipe, hpipe, hpn⟩ hfresh
    refine ⟨b', bind_eq_some_iff.mpr ⟨b', hb', rfl⟩, hkeep (hmirrors.congr hF hP fun c => ?_)⟩
    rw [hJ, hdynamic]
    exact or_congr_right (and_iff_right rfl)

/-- The backend is told of a join that is lost, and drops it. -/
theorem MirrorOk.joinLost (h : MirrorOk env t b) (hbase : Base env t')
    (hlost : JoinLost t t' j x pp fp) (hfirst : First t j x pp) :
    ∃ b', run handle b (joinDeleted t x) = some b' ∧ MirrorOk env t' b' := by
  have he := hlost.elsewhere
  have hj := hlost.join
  have hj' : t'.kind j = none := (hlost.kind j).trans (if_pos rfl)
  have hne : ∀ {k x}, t'.kind k = some x → k ≠ j := by
    rintro k x hk rfl
    rw [hj'] at hk
    cases hk
  obtain ⟨pn, fn, hpn, hfn⟩ := hlost.joining.names
  have hself : ∀ c, IsJoin t j c ↔ x.dynamic = true ∧ c = ⟨pn, fn, x.address⟩ := fun c =>
    isJoin_iff_of_kind hj hpn hfn
  have hkeep : ∀ {b'}, Mirrors t' b' → MirrorOk env t' b' := fun hmirrors =>
    ⟨hbase, h.joins.unjoined hlost hfirst,
      fun k k' _ _ _ hk hk' hkn hkn' => he.feeds h (hne hk) (hne hk') hk hk' hkn hkn',
      fun k _ hk => he.pipes h (hne hk) hk, fun j _ hj => he.dynamic h (hne hj) hj, hmirrors⟩
  have hF : ∀ n' type', FeedNamed t' n' type' ↔ FeedNamed t n' type' := fun _ _ =>
    he.feedNamed_same (fun _ => by rw [hj]; nofun) fun _ => by rw [hj']; nofun
  have hP : ∀ n' type', PipeNamed t' n' type' ↔ PipeNamed t n' type' := fun _ _ =>
    he.pipeNamed_same (fun _ => by rw [hj]; nofun) fun _ => by rw [hj']; nofun
  have hJ : ∀ c, (∃ j', IsJoin t' j' c) ↔ ∃ j', j' ≠ j ∧ IsJoin t j' c := by
    refine fun c => exists_congr fun j' => ?_
    have hother : j' ≠ j → (IsJoin t' j' c ↔ IsJoin t j' c) :=
      he.isJoin_iff h.joins (h.joins.unrelated_of_join hj)
    constructor
    · intro h'
      obtain ⟨_, hx', -⟩ := id h'
      exact ⟨hne hx', (hother (hne hx')).mp h'⟩
    · exact fun ⟨hjj, h'⟩ => (hother hjj).mpr h'
  rw [joinDeleted, hpn, hfn]
  cases hdynamic : x.dynamic with
  | false =>
    refine ⟨b, rfl, hkeep (h.mirrors.congr hF hP fun c => ?_)⟩
    rw [hJ]
    refine exists_congr fun j' => and_iff_right_of_imp ?_
    rintro h' rfl
    have hx := ((hself c).mp h').1
    rw [hdynamic] at hx
    cases hx
  | true =>
    have hknown : IsJoin t j ⟨pn, fn, x.address⟩ := (hself _).mpr ⟨hdynamic, rfl⟩
    obtain ⟨b', hb', hmirrors⟩ := h.mirrors.joinDelete (c := ⟨pn, fn, x.address⟩) ⟨j, hknown⟩
    refine ⟨b', bind_eq_some_iff.mpr ⟨b', hb', rfl⟩, hkeep (hmirrors.congr hF hP fun c => ?_)⟩
    rw [hJ]
    constructor
    · rintro ⟨j', hjj, h'⟩
      refine ⟨⟨j', h'⟩, ?_⟩
      rintro rfl
      exact hjj (h.apart.joins j j' _ hknown h')
    · rintro ⟨⟨j', h'⟩, hc⟩
      refine ⟨j', ?_, h'⟩
      rintro rfl
      exact hc ((hself c).mp h').2

end Operations

/-! ## Deletions -/

theorem MirrorOk.joinsDeleted {o : ResourceId} (hd : JoinsDeleted o t t' requests)
    (h : MirrorOk env t b) (hu : Unmixed t o) (ho : ∀ x, t.kind o ≠ some (.join x)) :
    ∃ b', run handle b requests = some b' ∧ MirrorOk env t' b' ∧
      t'.kind o = t.kind o ∧ t'.name o = t.name o ∧ t'.joins o = [] := by
  induction hd generalizing b with
  | done hjoins => exact ⟨b, rfl, h, rfl, rfl, hjoins⟩
  | @next t t1 t2 t' k j rest x requests hjoins hjoin hunlisted hremoved hrest ih =>
    obtain ⟨pp, fp, hlost⟩ := h.joins.joinLost hjoin hunlisted hremoved.toGone
    have hbase : Base env t2 := by
      refine (h.base.unlisted hunlisted).gone hremoved.toGone ?_
      have hbare := server_eq_join.mp hjoin
      rw [← hunlisted.bare] at hbare
      exact deletable_of_bare hbare fun _ h => by cases h
    have hfirst := hu.head h.joins hjoins hlost.join hlost.joining
    have hoj : o ≠ j := by
      rintro rfl
      exact ho x hlost.join
    obtain ⟨b1, hb1, h1⟩ := h.joinLost hbase hlost hfirst
    have hkind : t2.kind o = t.kind o := (hlost.kind o).trans (if_neg hoj)
    obtain ⟨b', hb', h', hkind', hname', hjoins'⟩ :=
      ih h1 (hu.joinLost h.joins hlost hfirst) (by rw [hkind]; exact ho)
    refine ⟨b', ?_, h', hkind'.trans hkind, hname'.trans (hlost.name o hoj), hjoins'⟩
    rw [run_append, hb1]
    exact hb'

theorem MirrorOk.deleted {t1 : Tree} (h : MirrorOk env t b) (hd : Deleting t i t1 requests)
    (hg : Gone t1 t' i) (hu : t.kind i ≠ none → Unmixed t i) :
    ∃ b', run handle b requests = some b' ∧ MirrorOk env t' b' := by
  have hbase : Base env t' := by
    obtain ⟨hbase, hdeletable⟩ := hd.base h.base
    exact hbase.gone hg hdeletable
  have hmore : ∀ {b1 b'} {requests : List BackendRequest} {r : BackendRequest},
      run handle b requests = some b1 → b1.handle r = some b' →
      run handle b (requests ++ [r]) = some b' := by
    intro b1 b' requests r hb1 hb'
    rw [run_append, hb1]
    show run handle b1 [r] = some b'
    exact bind_eq_some_iff.mpr ⟨b', hb', rfl⟩
  cases hd with
  | @feed f _ requests hf hdynamic hjoins =>
    have hi : t.kind i = some (.feed true f.type) := by
      rw [kind_of_server hf, ← hdynamic]
      rfl
    obtain ⟨n, hn⟩ := name_of_kind hi
    obtain ⟨b1, hb1, h1, hkind, hname, hempty⟩ :=
      h.joinsDeleted hjoins (hu (by rw [hi]; nofun)) fun _ => by rw [hi]; nofun
    obtain ⟨b', hb', h'⟩ := h1.feedGone hbase hg (hkind.trans hi) (hname.trans hn) hempty
    rw [hn]
    exact ⟨b', hmore hb1 hb', h'⟩
  | @pipe p _ requests hp hjoins =>
    have hi : t.kind i = some (.pipe p.type) := kind_of_server hp
    obtain ⟨n, hn⟩ := name_of_kind hi
    obtain ⟨b1, hb1, h1, hkind, hname, hempty⟩ :=
      h.joinsDeleted hjoins (hu (by rw [hi]; nofun)) fun _ => by rw [hi]; nofun
    obtain ⟨b', hb', h'⟩ := h1.pipeGone hbase hg (hkind.trans hi) (hname.trans hn) hempty
    rw [hn]
    exact ⟨b', hmore hb1 hb', h'⟩
  | @join x _ hx hdynamic hunlisted =>
    obtain ⟨pp, fp, hlost⟩ := h.joins.joinLost hx hunlisted hg
    have hfirst := hu (by rw [hlost.join]; nofun) i x pp hlost.join (.inl rfl)
      hlost.joining.pipePath
    exact h.joinLost hbase hlost hfirst
  | message hm => exact ⟨b, rfl, h.still hbase (hg.still (kind_of_server hm))⟩
  | content hx => exact ⟨b, rfl, h.still hbase (hg.still (kind_of_server hx))⟩

/-! ## Everything that is posted -/

/-- A feed that is created gets the name of no other one. -/
def NameFree (env : Env) (t : Tree) (attrs : Attrs) : Prop :=
  if (feedAttr attrs).isEmpty then ∀ type, ¬ FeedNamed t (hashName env (t.current + 1)) type
  else t.table (namedPath "feed".toList (feedAttr attrs)) = none →
    ∀ type, ¬ FeedNamed t (cleanName (feedAttr attrs)) type

theorem MirrorOk.sent {n : Str} {requests : List BackendRequest} (h : MirrorOk env t b)
    (hs : Sent n t t' requests) (hn : n ≠ [] → ∃ type, FeedNamed t n type) :
    run handle b requests = some b ∧ MirrorOk env t' b := by
  have hpost : ∀ {t : Tree} {address : Str}, Mirrors t b →
      (n ≠ [] → ∃ type, FeedNamed t n type) → b.handle (.addressPost address n) = some b := by
    intro t address hmirrors hn
    by_cases hempty : n = []
    · have hnamed : n ≠ [] → FeedNamed t n [] := fun hne => absurd hempty hne
      exact hmirrors.addressPost hnamed
    · obtain ⟨type, htype⟩ := hn hempty
      exact hmirrors.addressPost fun _ => htype
  induction hs with
  | nil => exact ⟨rfl, h⟩
  | plain _ ih =>
    obtain ⟨hrun, h'⟩ := ih h hn
    exact ⟨bind_eq_some_iff.mpr ⟨b, hpost h.mirrors hn, hrun⟩, h'⟩
  | used hcontent hd _ ih =>
    have hstill := hd.toGone.still (kind_of_server hcontent)
    have hbase := h.base.gone hd.toGone
      (deletable_of_bare (bare_of_server hcontent) fun _ h => by cases h)
    obtain ⟨hrun, h'⟩ := ih (h.still hbase hstill) fun hne => by
      obtain ⟨type, i, hi⟩ := hn hne
      exact ⟨type, i, hstill.named_iff.mpr hi⟩
    exact ⟨bind_eq_some_iff.mpr ⟨b, hpost h.mirrors hn, hrun⟩, h'⟩

theorem MirrorOk.pipeAdded {type title : Str} (h : MirrorOk env t b)
    (ha : PipeAdded env t t' i p type title) :
    ∃ b', b.handle (.pipeCreate type (hashName env (t.current + 1))) = some b' ∧
      MirrorOk env t' b' := by
  have hbase' := h.base.pipeAdded ha
  obtain ⟨t1, t2, j, a, hc, hj, ha⟩ := ha
  have hbase1 : Base env t1 := h.base.created hc rfl
  obtain ⟨b', hb', h1⟩ := h.pipeCreated hbase1 hc.added rfl
  obtain ⟨f, hf, -⟩ := hbase1.default.server
  obtain ⟨pp, fp, hnew⟩ := hj.joinNew
    ⟨type, by rw [hc.added.kind, if_pos (by rfl)]; rfl⟩ ⟨_, _, kind_feed_iff.mpr ⟨f, hf, rfl, rfl⟩⟩
  have hempty : t1.joins i = [] := (hc.added.joins i).trans (if_pos rfl)
  obtain ⟨b'', hb'', h2⟩ := h1.joinNew (hbase1.joinAdded hj) hnew (fun e he => by
      have hmem : e ∈ t1.joins i := he
      rw [hempty] at hmem
      cases hmem) nofun
  obtain rfl : b' = b'' := some.inj hb''
  exact ⟨b', hb', h2.still hbase' ha.still⟩

/-- The backend follows what a POST creates. -/
theorem MirrorOk.posted {A : Attrs → Prop} (h : MirrorOk env t b)
    (hp : Posted env A t i t' requests)
    (hfree : ∀ attrs, A attrs → t.server i = some .domain → NameFree env t attrs) :
    ∃ b', run handle b requests = some b' ∧ MirrorOk env t' b' := by
  have hbase := h.base.posted hp
  have hsingle : ∀ {r b'}, b.handle r = some b' → run handle b [r] = some b' :=
    fun hb' => bind_eq_some_iff.mpr ⟨_, hb', rfl⟩
  cases hp with
  | nothing => exact ⟨b, rfl, h⟩
  | known =>
    exact ⟨b, rfl, h.still hbase ⟨fun _ => rfl, fun _ => rfl, fun _ _ => rfl, fun _ _ => rfl⟩⟩
  | unnamedFeed hasks hdomain hname hc =>
    have hfree := hfree _ hasks hdomain
    rw [NameFree, if_pos hname] at hfree
    obtain ⟨b', hb', h'⟩ := h.feedCreated hbase hc.added rfl rfl hfree
    exact ⟨b', hsingle hb', h'⟩
  | namedFeed hasks hdomain hname ha =>
    have hfree := hfree _ hasks hdomain
    rw [NameFree, hname, if_neg Bool.false_ne_true] at hfree
    obtain ⟨b', hb', h'⟩ := h.feedCreated hbase ha rfl rfl (hfree ha.unused)
    exact ⟨b', hsingle hb', h'⟩
  | pipe _ ha =>
    obtain ⟨b', hb', h'⟩ := h.pipeAdded ha
    exact ⟨b', hsingle hb', h'⟩
  | @join _ k x p f pipeName feedName feedPath hx hpipe hfeed hpipeName hfeedName hdefault hpath
      hnew hadded =>
    obtain ⟨rfl, hdynamic⟩ := hx
    obtain ⟨pp, fp, hjoinNew⟩ :=
      hadded.joinNew ⟨_, kind_of_server hpipe⟩ ⟨_, _, kind_of_server hfeed⟩
    obtain rfl := some.inj (hpath.symm.trans hjoinNew.joining.feedPath)
    have hrequests : joinCreated t x = [.joinCreate pipeName feedName x.address] := by
      rw [joinCreated, hdynamic, hpipeName, hfeedName]
      rfl
    rw [← hrequests]
    refine h.joinNew hbase hjoinNew (by rwa [joins_of_server hpipe]) fun _ heq => ?_
    rw [heq, h.base.default.name] at hfeedName
    exact hdefault (some.inj hfeedName).symm
  | content _ hc => exact ⟨b, rfl, h.still hbase (hc.added.still rfl)⟩
  | @messages t' f name requests hfeed hname hs =>
    refine ⟨b, h.sent hs fun hne => ?_⟩
    have hname' : name ≠ "default".toList := by
      rintro rfl
      exact hne rfl
    rw [backendName, if_neg hname']
    have hi : i ≠ defaultFeedId := by
      rintro rfl
      rw [h.base.default.name] at hname
      exact hname' (some.inj hname).symm
    obtain ⟨type, htype⟩ := h.dynamic_feed hi ⟨_, _, kind_of_server hfeed⟩
    exact ⟨type, i, htype, hname⟩

/-! ## Steps -/

/-- The request gives no feed the name of another one. What it deletes is destroyed, too, and no
other join is taken for one that goes. -/
structure RequestMirrorable (env : Env) (t : Tree) (request : Request) : Prop where
  post : request.method = .post → ∀ i, Target t request i → t.server i = some .domain →
    ∀ attrs, AsksFeed request.failed request attrs → NameFree env t attrs
  delete : request.method = .delete → ∀ i, Target t request i → ¬ Unmodified t i request →
    ¬ Lasts t i → t.kind i ≠ none → request.failed = false ∧ Unmixed t i

/-- The steps that the backend can follow. -/
def Mirrorable (env : Env) (s : State) : Event → Prop
  | .request request => RequestMirrorable env s.tree request
  | .deliver _ => True
  | .close _ => True

theorem MirrorOk.handled {c : ContextId} {w w' : Work} {request : Request}
    (h : MirrorOk env w.tree b) (hm : RequestMirrorable env w.tree request)
    (hh : Handled env c w request w') : ∃ b' requests, w'.requests = w.requests ++ requests ∧
      run handle b requests = some b' ∧ MirrorOk env w'.tree b' := by
  have hbase := h.base.handled hh
  have hstill : Still w.tree w'.tree → w'.requests = w.requests → ∃ b' requests,
      w'.requests = w.requests ++ requests ∧ run handle b requests = some b' ∧
        MirrorOk env w'.tree b' := fun hs hrequests =>
    ⟨b, [], by rw [hrequests, List.append_nil], rfl, h.still hbase hs⟩
  have hsame : Untouched w w' → Still w.tree w'.tree := fun huntouched =>
    huntouched.1 ▸ Still.refl w.tree
  cases hh with
  | answered _ huntouched _ => exact hstill (hsame huntouched) huntouched.2
  | get _ _ hget =>
    obtain ⟨r, _, ⟨_, huntouched, _⟩ | ⟨_, ⟨_, huntouched, _⟩ | ⟨_, _, hrequests, hheld⟩⟩⟩ := hget
    · exact hstill (hsame huntouched) huntouched.2
    · exact hstill (hsame huntouched) huntouched.2
    · exact hstill hheld.still hrequests
  | put _ _ hput => exact hstill hput.2.2.still hput.2.1
  | @delete i hmethod htarget hdelete =>
    rcases hdelete with ⟨_, huntouched, _⟩ | ⟨hnot, t1, requests, hdeleting, hrequests, hend⟩
    · exact hstill (hsame huntouched) huntouched.2
    have hclear := hm.delete hmethod i htarget hnot hdeleting.not_lasts
    rcases hend with ⟨hfailed, _, htree⟩ | ⟨_, _, hd⟩
    · have hkind : w.tree.kind i = none := by
        by_contra hkind
        exact absurd ((hclear hkind).1.symm.trans hfailed) (by decide)
      have hnone : ∀ {s : Server}, w.tree.server i = some s → s.kind = none := fun hs =>
        (kind_of_server hs).symm.trans hkind
      cases hdeleting with
      | feed hf => cases hnone hf
      | pipe hp => cases hnone hp
      | join hx => cases hnone hx
      | message | content =>
        exact hstill (htree ▸ Still.refl w.tree) (hrequests.trans (List.append_nil _))
    · obtain ⟨b', hb', h'⟩ := h.deleted hdeleting hd.toGone fun hkind => (hclear hkind).2
      exact ⟨b', requests, hrequests, hb', h'⟩
  | @post i hmethod htarget hpost =>
    obtain ⟨_, requests, hposted, hrequests⟩ := hpost
    obtain ⟨b', hb', h'⟩ := h.posted hposted fun attrs hasks hdomain =>
      hm.post hmethod i htarget hdomain attrs hasks
    exact ⟨b', requests, hrequests, hb', h'⟩

theorem MirrorOk.stepped {s : State} {e : Event} {out : Outcome} (h : MirrorOk env s.tree b)
    (hm : Mirrorable env s e) (hs : Stepped env s e out) :
    ∃ b', run handle b out.requests = some b' ∧ MirrorOk env out.state.tree b' := by
  cases hs with
  | request hhandled =>
    obtain ⟨b', requests, hrequests, hb', h'⟩ := MirrorOk.handled (w := s.work _) h hm hhandled
    obtain rfl := hrequests
    exact ⟨b', hb', h'⟩
  | deliver harrived =>
    cases harrived with
    | undeliverable => exact ⟨b, rfl, h⟩
    | message _ ha _ => exact ⟨b, rfl, h.still (h.base.messageArrived ha) ha.still⟩
  | close => exact ⟨b, rfl, h⟩

/-! ## Runs -/

/-- The state after a step that ends, and what the backend is told. -/
def tell (env : Env) (s : State) (e : Event) : Option (State × List BackendRequest) :=
  (step env s e).toOption.map fun out => (out.state, out.requests)

theorem mirrorOk_new (now : Nat) : MirrorOk env (Tree.new now) new := by
  refine ⟨base_new now, joinsOk_new now, ?_, ?_, ?_,
    caches_new.congr (fun n type => ?_) (fun n type => ?_) fun c => ?_⟩
  · intro i i' type type' n hi
    cases new_kind_eq hi
  · intro i type hi
    cases new_kind_eq hi
  · intro j x hj
    cases new_kind_eq hj
  · refine iff_of_false ?_ id
    rintro ⟨i, hi, -⟩
    cases new_kind_eq hi
  · refine iff_of_false ?_ id
    rintro ⟨i, hi, -⟩
    cases new_kind_eq hi
  · refine iff_of_false ?_ id
    rintro ⟨j, x, hj, -⟩
    cases new_kind_eq hj

/--
Any requests and deliveries on a new server.

As long as every step meets its condition, none of the assertions of the backend fails, and the
feeds, pipes and joins it holds are exactly the dynamic feeds, the pipes and the dynamic joins,
each of which it knows under one name.
-/
theorem backend_mirrors {now : Nat} {es : List Event} {s : State} {log : List BackendRequest}
    (h : Along (logged (tell env)) (fun s e => Mirrorable env s.1 e) (State.new now, []) es)
    (hrun : run (logged (tell env)) (State.new now, []) es = some (s, log)) :
    ∃ b, run handle new log = some b ∧ Mirrors s.tree b ∧ Apart s.tree := by
  have hkeeps : ∀ (s : State × List BackendRequest) e s',
      (∃ b, run handle new s.2 = some b ∧ MirrorOk env s.1.tree b) →
      Mirrorable env s.1 e → logged (tell env) s e = some s' →
      ∃ b, run handle new s'.2 = some b ∧ MirrorOk env s'.1.tree b := by
    rintro s e s' ⟨b, hb, hok⟩ hm hs
    obtain ⟨requests, htell, hlog⟩ := logged_eq_some hs
    obtain ⟨out, hout, heq⟩ := map_eq_some_iff.mp htell
    obtain ⟨hstate, hrequests⟩ := Prod.mk.inj heq
    obtain ⟨b', hb', hok'⟩ := hok.stepped hm (step_ok hok.base (toOption_eq_some.mp hout))
    refine ⟨b', ?_, hstate ▸ hok'⟩
    rw [hlog, run_append, hb, ← hrequests]
    exact hb'
  obtain ⟨b, hb, hok⟩ := run_invariant
    (I := fun s => ∃ b, run handle new s.2 = some b ∧ MirrorOk env s.1.tree b)
    hkeeps ⟨new, rfl, mirrorOk_new now⟩ h hrun
  exact ⟨b, hb, hok.mirrors, hok.apart⟩

/-- A feed of the given name is asked for, or with an empty one of any name. -/
def feedAsked (name : String) : Event :=
  .request (sampleRequest .post "/domain/default" [sampleElement "feed" [("name", name)]])

theorem feedAsked_mirrorable (name : String) : Mirrorable env (State.new 0) (feedAsked name) := by
  have hfree : ∀ n type, ¬ FeedNamed (Tree.new 0) n type := by
    rintro n type ⟨i, hi, -⟩
    cases new_kind_eq hi
  refine ⟨fun _ i _ _ attrs _ => ?_, nofun⟩
  rw [NameFree]
  split
  · exact hfree _
  · exact fun _ => hfree _

theorem backend_mirrors_feed : ∃ s log b,
    run (logged (tell sampleEnv)) (State.new 0, []) [feedAsked "orders"] = some (s, log) ∧
      run handle new log = some b ∧ Mirrors s.tree b ∧ Apart s.tree := by
  have hsome : (run (logged (tell sampleEnv)) (State.new 0, []) [feedAsked "orders"]).isSome := by
    decide +kernel
  obtain ⟨⟨s, log⟩, hrun⟩ := isSome_iff_exists.mp hsome
  have hok : Along (logged (tell sampleEnv)) (fun s e => Mirrorable sampleEnv s.1 e)
      (State.new 0, []) [feedAsked "orders"] :=
    ⟨feedAsked_mirrorable "orders", fun _ _ => trivial⟩
  obtain ⟨b, hb⟩ := backend_mirrors hok hrun
  exact ⟨s, log, b, hrun, hb⟩

/-- A feed that is given the name that has been generated for another one: the assertion that the
backend does not know it yet fails. -/
theorem generated_name_fails : ∃ s log,
    run (logged (tell sampleEnv)) (State.new 0, []) [feedAsked "", feedAsked "ZYRE-AAAAAAAA-11"] =
      some (s, log) ∧ run handle new log = none := by
  have hnone : (run (logged (tell sampleEnv)) (State.new 0, [])
      [feedAsked "", feedAsked "ZYRE-AAAAAAAA-11"]).map
        (fun s => (run handle new s.2).isNone) = some true := by
    decide +kernel
  obtain ⟨⟨s, log⟩, hrun, hlog⟩ := map_eq_some_iff.mp hnone
  exact ⟨s, log, hrun, isNone_iff_eq_none.mp hlog⟩

end OpenAmq.Zyre
