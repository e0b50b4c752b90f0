import OpenAmq.Zyre.Tree

/-!
# The table of resource URIs

Whatever the requests and the deliveries are, the table holds exactly the live resources, the
names that are going to be generated are not in use, and the default feed stays where it is.

* `Tree.Base` — what holds of every tree
* `Tree.yields_create` — a resource without a name is always a new one
* `Base.serverSet`, `Base.created`, `Base.gone`, … — the operations keep it
-/

namespace OpenAmq.Zyre

open OpenAmq.Lib Function Option List

/-! ## Names -/

theorem toDigits_ten_injective {m n : Nat} (h : Nat.toDigits 10 m = Nat.toDigits 10 n) : m = n := by
  rw [← Nat.ofDigitChars_ten_toDigits (n := m), h, Nat.ofDigitChars_ten_toDigits]

theorem hashName_injective {env : Env} {m n : Nat} (h : hashName env m = hashName env n) :
    m = n := by
  have hlength : ∀ k, ("ZYRE-".toList ++ env.letters k ++ "-".toList ++
      Nat.toDigits 10 env.execution).length = 14 + (Nat.toDigits 10 env.execution).length := by
    intro k
    simp only [length_append, env.length_letters]
    rfl
  have hdigits := (append_inj h ((hlength m).trans (hlength n).symm)).2
  exact toDigits_ten_injective hdigits

theorem resourcePath_injective {m n : Str} (h : resourcePath m = resourcePath n) : m = n :=
  append_cancel_left h

theorem resourcePath_second (n : Str) : (resourcePath n)[1]? = some 'r' := rfl

theorem namedPath_second (name : Str) : (namedPath "feed".toList name)[1]? = some 'f' := by
  rw [namedPath, fmtCut, getElem?_take_of_lt (by decide)]
  rfl

theorem ne_of_second {p q : Str} (h : p[1]? ≠ q[1]?) : p ≠ q := fun he => h (by rw [he])

theorem namedPath_ne_resourcePath (name n : Str) :
    namedPath "feed".toList name ≠ resourcePath n := by
  refine ne_of_second ?_
  rw [namedPath_second, resourcePath_second]
  decide

namespace Tree

/-- The table holds exactly the live resources. -/
def TableOk (t : Tree) : Prop := ∀ q i, t.table q = some i ↔ t.path i = some q

/-- The names that are going to be generated are not in use. -/
def NamesOk (env : Env) (t : Tree) : Prop :=
  ∀ n, t.current < n → t.table (resourcePath (hashName env n)) = none

def defaultPath : Str := "/feed/default".toList

/-- The default feed is there, and is not dynamic. -/
structure DefaultOk (t : Tree) : Prop where
  table : t.table defaultPath = some defaultFeedId
  server : ∃ f, t.bare defaultFeedId = some (.feed f) ∧ f.dynamic = false
  name : t.name defaultFeedId = some "default".toList

/-- What is found under a path or in a list is of the class that is expected there. -/
structure ClassesOk (t : Tree) : Prop where
  /-- The paths of named feeds are those of feeds. -/
  feeds : ∀ name i, t.table (namedPath "feed".toList name) = some i → ∃ f, t.bare i = some (.feed f)
  /-- Only the default feed is not dynamic. -/
  dynamic : ∀ i f, t.bare i = some (.feed f) → f.dynamic = false → i = defaultFeedId
  /-- An entry of a list of joins has been a join. -/
  entries : ∀ o e, e ∈ t.joins o → e.2 < t.next ∧ ∀ s, t.bare e.2 = some s → ∃ x, s = .join x

/-- What holds of every tree. -/
structure Base (env : Env) (t : Tree) : Prop where
  fresh : t.FreshOk
  table : t.TableOk
  names : t.NamesOk env
  default : t.DefaultOk
  classes : t.ClassesOk

theorem TableOk.live {t : Tree} (h : t.TableOk) {q : Str} {i : ResourceId}
    (hq : t.table q = some i) : t.Live i :=
  live_iff_path.mpr ⟨q, (h q i).mp hq⟩

theorem Base.live_default {env : Env} {t : Tree} (h : Base env t) : t.Live defaultFeedId :=
  h.table.live h.default.table

theorem freshOk_of_path {t t' : Tree} (h : t.FreshOk) (hnext : t'.next = t.next)
    (hpath : ∀ i, t.path i = none → t'.path i = none) : t'.FreshOk := by
  intro i hi
  have hnone := hpath i (by rw [path, h i (hnext ▸ hi)]; rfl)
  rwa [path, map_eq_none_iff] at hnone

/-! ## New resources without a name -/

structure Created (env : Env) (t t' : Tree) (i p : ResourceId) (s : Server) : Prop where
  added : Added t t' i p (hashName env (t.current + 1))
    (resourcePath (hashName env (t.current + 1))) s
  current : t'.current = t.current + 1
  fresh : t'.FreshOk

theorem yields_create {env : Env} {t : Tree} {p : ResourceId} {E : Fault → Prop}
    (hfresh : t.FreshOk) (hlive : t.Live p ∨ E .destroyed) (hnames : t.NamesOk env ∨ E .pointer)
    {isPrivate : Bool} {now : Nat} {s : Server} :
    Yields (t.create env p isPrivate now s) (fun r => Created env t r.1 r.2 p s) E := by
  rw [create]
  cases hunused : t.table (resourcePath (hashName env (t.current + 1))) with
  | some i =>
    refine yields_error (hnames.resolve_left fun h => ?_)
    rw [h (t.current + 1) (Nat.lt_succ_self _)] at hunused
    cases hunused
  | none =>
    have hends := @yields_enter { t with current := t.current + 1 } p E hfresh hlive
      (hashName env (t.current + 1)) _ hunused isPrivate now s
    refine hends.imp fun r ⟨hadded, hcurrent, hfresh'⟩ => ⟨?_, hcurrent, hfresh'⟩
    exact ⟨hadded.fresh, hadded.live, hadded.server, hadded.parent, hadded.children, hadded.path,
      hadded.name, hadded.stamp, hadded.unused, hadded.table, hadded.next⟩

/-! ## The operations -/

section Operations

variable {env : Env} {t t' : Tree} {i p : ResourceId} {n q : Str} {s : Server}

theorem TableOk.added (h : t.TableOk) (ha : Added t t' i p n q s) : t'.TableOk := by
  intro q' k
  rw [ha.table, ha.path, update_apply]
  by_cases hk : k = i
  · rw [hk, if_pos rfl]
    split
    · next hq => exact iff_of_true rfl (congrArg some hq.symm)
    · next hq =>
      have hdead : t.path i ≠ some q' := by
        rw [path, ha.fresh]
        exact (some_ne_none _).symm
      simp only [h q' i, hdead, some.injEq, Ne.symm hq]
  · rw [if_neg hk]
    split
    · next hq =>
      have hunused : t.path k ≠ some q := by
        rw [Ne, ← h q k, ha.unused]
        exact (some_ne_none _).symm
      simp only [some.injEq, Ne.symm hk, hq, hunused]
    · exact h q' k

theorem TableOk.gone (h : t.TableOk) (hg : Gone t t' i) : t'.TableOk := by
  intro q k
  rw [hg.table, hg.path]
  by_cases hk : k = i
  · rw [hk, if_pos rfl]
    split
    · exact iff_of_false (by nofun) (by nofun)
    · next hq => exact iff_of_false (fun hi => hq ((h q i).mp hi)) (by nofun)
  · rw [if_neg hk]
    split
    · next hq =>
      have hother : t.path k ≠ some q := by
        intro hkq
        rw [← h] at hkq hq
        exact hk (some.inj (hkq.symm.trans hq))
      exact iff_of_false (by nofun) hother
    · exact h q k

/-- The class of a server object, and what of it never changes but by lists of joins. -/
def SameClass : Server → Server → Prop
  | .domain, .domain => True
  | .feed f, .feed f' => f'.dynamic = f.dynamic ∧ f'.joins = f.joins
  | .pipe p, .pipe p' => p'.joins = p.joins
  | .join j, .join j' => j' = j
  | .message _, .message _ => True
  | .content _, .content _ => True
  | _, _ => False

theorem SameClass.joins {s s' : Server} (h : SameClass s s') : s'.joins = s.joins := by
  cases s with
  | feed f =>
    cases s' with
    | feed f' => exact h.2
    | domain | pipe | join | message | content => exact h.elim
  | pipe p =>
    cases s' with
    | pipe p' => exact h
    | domain | feed | join | message | content => exact h.elim
  | domain | join | message | content =>
    cases s' with
    | feed | pipe => exact h.elim
    | domain | join | message | content => rfl

theorem SameClass.feed {s s' : Server} (h : SameClass s s') (f : Feed) :
    (s.setJoins [] = .feed f → ∃ f', s'.setJoins [] = .feed f' ∧ f'.dynamic = f.dynamic) ∧
      (s'.setJoins [] = .feed f → ∃ f', s.setJoins [] = .feed f' ∧ f'.dynamic = f.dynamic) := by
  cases s with
  | feed f0 =>
    cases s' with
    | feed f' =>
      refine ⟨fun hf => ⟨_, rfl, ?_⟩, fun hf => ⟨_, rfl, ?_⟩⟩
      · rw [← Server.feed.inj hf]
        exact h.1
      · rw [← Server.feed.inj hf]
        exact h.1.symm
    | domain | pipe | join | message | content => exact h.elim
  | domain | pipe | join | message | content =>
    cases s' with
    | feed => exact h.elim
    | domain | pipe | join | message | content => exact ⟨nofun, nofun⟩

theorem SameClass.join {s s' : Server} (h : SameClass s s') {x : Join} (hs : s = .join x) :
    s' = .join x := by
  subst hs
  cases s' with
  | join x' => exact congrArg Server.join h
  | domain | feed | pipe | message | content => exact h.elim

theorem Base.sameShape (h : Base env t) (hshape : SameShape t t')
    (hserver : ∃ f, t'.bare defaultFeedId = some (.feed f) ∧ f.dynamic = false)
    (hclasses : t'.ClassesOk) : Base env t' where
  fresh := freshOk_of_path h.fresh hshape.next fun k hk => by rw [hshape.path, hk]
  table q k := by
    rw [hshape.table, hshape.path]
    exact h.table q k
  names n hn := by
    rw [hshape.table]
    rw [hshape.current] at hn
    exact h.names n hn
  default := ⟨by rw [hshape.table, h.default.table], hserver, by rw [hshape.name, h.default.name]⟩
  classes := hclasses

theorem Base.serverSet (h : Base env t) (hset : ServerSet t t' i s)
    (hclass : ∀ s0, t.server i = some s0 → SameClass s0 s) : Base env t' := by
  obtain ⟨s0, hs0⟩ := live_iff_server.mp hset.live
  have hclass := hclass s0 hs0
  have hbare0 := bare_of_server hs0
  have hshape := hset.toSameShape
  refine h.sameShape hshape ?_ ⟨fun name k hk => ?_, fun k f hf hdynamic => ?_, fun o e he => ?_⟩
  · obtain ⟨f, hf, hdynamic⟩ := h.default.server
    rw [hset.bare]
    split
    · next hi =>
      rw [hi, hbare0] at hf
      obtain ⟨f', hf', hd⟩ := (hclass.feed f).1 (some.inj hf)
      exact ⟨f', congrArg some hf', hd.trans hdynamic⟩
    · exact ⟨f, hf, hdynamic⟩
  · rw [hshape.table] at hk
    obtain ⟨f, hf⟩ := h.classes.feeds name k hk
    rw [hset.bare]
    split
    · next hi =>
      rw [hi, hbare0] at hf
      obtain ⟨f', hf', -⟩ := (hclass.feed f).1 (some.inj hf)
      exact ⟨f', congrArg some hf'⟩
    · exact ⟨f, hf⟩
  · rw [hset.bare] at hf
    split at hf
    · next hi =>
      obtain ⟨f', hf', hd⟩ := (hclass.feed f).2 (some.inj hf)
      rw [hi]
      exact h.classes.dynamic i f' (hbare0.trans (congrArg some hf')) (hd.trans hdynamic)
    · exact h.classes.dynamic k f hf hdynamic
  · have he' : e ∈ t.joins o := by
      rw [hset.joins] at he
      split at he
      · next hi => rwa [hi, joins_of_server hs0, ← hclass.joins]
      · exact he
    obtain ⟨hlt, hjoin⟩ := h.classes.entries o e he'
    refine ⟨hshape.next ▸ hlt, fun s1 hs1 => ?_⟩
    rw [hset.bare] at hs1
    split at hs1
    · next hi =>
      obtain ⟨x, hx⟩ := hjoin _ (by rw [hi, hbare0])
      have hs : s0 = .join x := by
        cases s0 with
        | join => exact hx
        | domain | feed | pipe | message | content => cases hx
      rw [hclass.join hs] at hs1
      exact ⟨x, (some.inj hs1).symm⟩
    · exact hjoin s1 hs1

theorem JoinsSet.mem_joins {f : JoinList → JoinList} (h : JoinsSet t t' i f) {o : ResourceId}
    {e : Str × ResourceId} (he : e ∈ t'.joins o) : e ∈ f (t.joins i) ∨ e ∈ t.joins o := by
  obtain ⟨s, hs, hset⟩ := h
  rw [hset.joins] at he
  split at he
  · refine .inl ?_
    rw [joins_of_server hs]
    cases s with
    | feed | pipe => exact he
    | domain | join | message | content => cases he
  · exact .inr he

theorem Base.joinsSet {f : JoinList → JoinList} (h : Base env t) (hset : JoinsSet t t' i f)
    (hnew : ∀ e ∈ f (t.joins i), e ∈ t.joins i ∨ e.2 < t.next ∧ ∃ x, t.bare e.2 = some (.join x)) :
    Base env t' := by
  have hshape := hset.sameShape
  refine h.sameShape hshape ?_ ⟨fun name k hk => ?_, fun k f hf hdynamic => ?_, fun o e he => ?_⟩
  · rw [hset.bare]
    exact h.default.server
  · rw [hshape.table] at hk
    rw [hset.bare]
    exact h.classes.feeds name k hk
  · rw [hset.bare] at hf
    exact h.classes.dynamic k f hf hdynamic
  · rw [hset.bare, hshape.next]
    have hold : (∃ o', e ∈ t.joins o') ∨ e.2 < t.next ∧ ∃ x, t.bare e.2 = some (.join x) := by
      rcases hset.mem_joins he with hf | ho
      · exact (hnew e hf).imp_left fun h => ⟨i, h⟩
      · exact .inl ⟨o, ho⟩
    rcases hold with ⟨o', ho'⟩ | ⟨hlt, x, hx⟩
    · exact h.classes.entries o' e ho'
    · refine ⟨hlt, fun s hs => ⟨x, ?_⟩⟩
      exact some.inj (hs.symm.trans hx)

theorem Base.default_ne (h : Base env t) (hnone : t.heap i = none) : defaultFeedId ≠ i := by
  rintro rfl
  have hlive := h.live_default
  rw [Live, hnone] at hlive
  cases hlive

/-- The object of a new resource. -/
def NewServer : Server → Prop
  | .feed f => f.dynamic = true ∧ f.joins = []
  | .pipe p => p.joins = []
  | _ => True

theorem NewServer.joins (h : NewServer s) : s.joins = [] := by
  cases s with
  | feed => exact h.2
  | pipe => exact h
  | domain | join | message | content => rfl

theorem Base.added (h : Base env t) (ha : Added t t' i p n q s) (hnew : NewServer s)
    (hfresh : t'.FreshOk) (hnames : t'.NamesOk env)
    (hfeed : ∀ name, namedPath "feed".toList name = q → ∃ f, s = .feed f) : Base env t' := by
  have hne := h.default_ne ha.fresh
  refine ⟨hfresh, h.table.added ha, hnames, ⟨?_, ?_, ?_⟩, ⟨fun name k hk => ?_,
    fun k f hf hdynamic => ?_, fun o e he => ?_⟩⟩
  · have hq : defaultPath ≠ q := by
      rintro rfl
      have hused := h.default.table
      rw [ha.unused] at hused
      cases hused
    rw [ha.table, update_of_ne hq, h.default.table]
  · obtain ⟨f, hf, hdynamic⟩ := h.default.server
    exact ⟨f, by rw [ha.bare, if_neg hne, hf], hdynamic⟩
  · rw [ha.name, if_neg hne, h.default.name]
  · rw [ha.table, update_apply] at hk
    split at hk
    · next hq =>
      obtain ⟨f, rfl⟩ := hfeed name hq
      cases hk
      exact ⟨_, by rw [ha.bare, if_pos rfl]; rfl⟩
    · obtain ⟨f, hf⟩ := h.classes.feeds name k hk
      have hki : k ≠ i := by
        rintro rfl
        rw [bare, server, ha.fresh] at hf
        cases hf
      exact ⟨f, by rw [ha.bare, if_neg hki, hf]⟩
  · rw [ha.bare] at hf
    split at hf
    · cases s with
      | feed f0 =>
        rw [← Server.feed.inj (some.inj hf)] at hdynamic
        exact absurd (hnew.1.symm.trans hdynamic) (by decide)
      | domain | pipe | join | message | content => cases hf
    · exact h.classes.dynamic k f hf hdynamic
  · rw [ha.joins] at he
    split at he
    · rw [hnew.joins] at he
      cases he
    · obtain ⟨hlt, hjoin⟩ := h.classes.entries o e he
      refine ⟨ha.next.2 ▸ Nat.lt_succ_of_lt hlt, fun s' hs' => hjoin s' ?_⟩
      have hei : e.2 ≠ i := ha.next.1 ▸ Nat.ne_of_lt hlt
      rwa [ha.bare, if_neg hei] at hs'

theorem Base.created (h : Base env t) (hc : Created env t t' i p s) (hnew : NewServer s) :
    Base env t' := by
  refine h.added hc.added hnew hc.fresh (fun k hk => ?_)
    fun name hname => absurd hname (namedPath_ne_resourcePath name _)
  rw [hc.current] at hk
  have hne : resourcePath (hashName env k) ≠ resourcePath (hashName env (t.current + 1)) :=
    fun he => Nat.ne_of_gt hk (hashName_injective (resourcePath_injective he))
  rw [hc.added.table, update_of_ne hne]
  exact h.names k (Nat.lt_of_succ_lt hk)

theorem Base.named {name : Str} {f : Feed} (h : Base env t)
    (ha : Added t t' i p n (namedPath "feed".toList name) (.feed f)) (hnew : NewServer (.feed f))
    (hcurrent : t'.current = t.current) (hfresh : t'.FreshOk) : Base env t' := by
  refine h.added ha hnew hfresh (fun k hk => ?_) fun _ _ => ⟨f, rfl⟩
  rw [hcurrent] at hk
  have hne := (namedPath_ne_resourcePath name (hashName env k)).symm
  rw [ha.table, update_of_ne hne]
  exact h.names k hk

def Deletable (t : Tree) (i : ResourceId) : Prop :=
  ∀ f, t.bare i = some (.feed f) → f.dynamic = true

theorem Deletable.ne_default (hi : t.Deletable i) (h : t.DefaultOk) : defaultFeedId ≠ i := by
  rintro rfl
  obtain ⟨f, hf, hdynamic⟩ := h.server
  rw [hi f hf] at hdynamic
  cases hdynamic

theorem Base.gone (h : Base env t) (hg : Gone t t' i) (hi : t.Deletable i) : Base env t' := by
  have hne := hi.ne_default h.default
  refine ⟨freshOk_of_path h.fresh hg.next fun k hk => ?_, h.table.gone hg, fun k hk => ?_,
    ⟨?_, ?_, ?_⟩, ⟨fun name k hk => ?_, fun k f hf hdynamic => ?_, fun o e he => ?_⟩⟩
  · rw [hg.path, hk, ite_self]
  · rw [hg.table]
    split
    · rfl
    · rw [hg.current] at hk
      exact h.names k hk
  · rw [hg.table, h.default.table, if_neg]
    intro hpath
    rw [← h.table, h.default.table] at hpath
    exact hne (some.inj hpath)
  · rw [hg.bare, if_neg hne]
    exact h.default.server
  · rw [hg.name, if_neg hne, h.default.name]
  · rw [hg.table] at hk
    split at hk
    · cases hk
    · next hpath =>
      have hki : k ≠ i := by
        rintro rfl
        exact hpath ((h.table _ k).mp hk)
      rw [hg.bare, if_neg hki]
      exact h.classes.feeds name k hk
  · rw [hg.bare] at hf
    split at hf
    · cases hf
    · exact h.classes.dynamic k f hf hdynamic
  · rw [hg.joins] at he
    split at he
    · cases he
    · obtain ⟨hlt, hjoin⟩ := h.classes.entries o e he
      refine ⟨hg.next ▸ hlt, fun s hs => hjoin s ?_⟩
      rw [hg.bare] at hs
      split at hs
      · cases hs
      · exact hs

end Operations

end Tree

end OpenAmq.Zyre
