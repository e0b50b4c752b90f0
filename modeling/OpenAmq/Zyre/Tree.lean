import OpenAmq.Lib.Yields
import OpenAmq.Zyre.Model

/-!
# What the tree looks like

The proofs see a tree through a few views of its heap, and an operation through what it does to
these views.

* `Tree.server`, `Tree.parent`, `Tree.children`, `Tree.path`, `Tree.name`, `Tree.joins` — views
* `ServerSet`, `Added`, `Removed`, `Detached` — the effects of the operations
* `TableOk` — the table holds exactly the live resources
-/

namespace OpenAmq.Zyre

open OpenAmq.Lib Function

theorem Server.setJoins_setJoins (s : Server) (l l' : JoinList) :
    (s.setJoins l).setJoins l' = s.setJoins l' := by
  cases s <;> rfl

/-- The object of a feed or a pipe. -/
def Server.HasJoins : Server → Prop
  | feed _ => True
  | pipe _ => True
  | _ => False

namespace Tree

/-! ## Views -/

/-- The object of a live resource. -/
def server (t : Tree) (i : ResourceId) : Option Server := (t.heap i).map Resource.server

def parent (t : Tree) (i : ResourceId) : Option ResourceId := (t.heap i).bind Resource.parent

def children (t : Tree) (i : ResourceId) : List ResourceId :=
  ((t.heap i).map Resource.children).getD []

def path (t : Tree) (i : ResourceId) : Option Str := (t.heap i).map Resource.path

def name (t : Tree) (i : ResourceId) : Option Str := (t.heap i).map Resource.name

/-- When a live resource has been modified. -/
def stamp (t : Tree) (i : ResourceId) : Option Nat := (t.heap i).map Resource.modified

/-- The joins of a live feed or pipe. -/
def joins (t : Tree) (i : ResourceId) : JoinList := ((t.server i).map Server.joins).getD []

/-- The object of a live resource, without the joins of a feed or a pipe. -/
def bare (t : Tree) (i : ResourceId) : Option Server := (t.server i).map (Server.setJoins [])

def Live (t : Tree) (i : ResourceId) : Prop := (t.heap i).isSome

variable {t t' : Tree} {i p : ResourceId} {s : Server} {r : Resource} {E : Fault → Prop}
  {f : JoinList → JoinList} {n q : Str}

theorem live_iff_server : t.Live i ↔ ∃ s, t.server i = some s := by
  rw [Live, server]
  cases t.heap i <;> simp

theorem live_of_server (h : t.server i = some s) : t.Live i :=
  live_iff_server.mpr ⟨s, h⟩

theorem live_iff_path : t.Live i ↔ ∃ p, t.path i = some p := by
  rw [Live, path]
  cases t.heap i <;> simp

theorem views (h : t.heap i = some r) :
    t.server i = some r.server ∧ t.parent i = r.parent ∧ t.children i = r.children ∧
      t.path i = some r.path ∧ t.name i = some r.name ∧ t.stamp i = some r.modified := by
  simp [server, parent, children, path, name, stamp, h]

theorem server_of_heap (h : t.heap i = some r) : t.server i = some r.server :=
  (views h).1

theorem heap_of_server (h : t.server i = some s) : ∃ r, t.heap i = some r ∧ r.server = s :=
  Option.map_eq_some_iff.mp h

theorem joins_of_server (h : t.server i = some s) : t.joins i = s.joins := by
  rw [joins, h]
  rfl

theorem bare_of_server (h : t.server i = some s) : t.bare i = some (s.setJoins []) := by
  rw [bare, h]
  rfl

theorem live_iff_bare : t.Live i ↔ ∃ s, t.bare i = some s := by
  rw [live_iff_server, bare]
  cases t.server i <;> simp

theorem get_eq_ok : t.get i = .ok r ↔ t.heap i = some r := by
  rw [get]
  cases t.heap i <;> simp

theorem yields_get (h : t.Live i ∨ E .destroyed) :
    Yields (t.get i) (fun r => t.heap i = some r) E := by
  rw [get]
  cases hr : t.heap i with
  | some r => exact yields_ok rfl
  | none =>
    refine yields_error (h.resolve_left fun hlive => ?_)
    rw [Live, hr] at hlive
    cases hlive

/-! ## The server object -/

/-- Nothing but server objects differs. -/
structure SameShape (t t' : Tree) : Prop where
  parent : t'.parent = t.parent
  children : t'.children = t.children
  path : t'.path = t.path
  name : t'.name = t.name
  stamp : t'.stamp = t.stamp
  table : t'.table = t.table
  next : t'.next = t.next
  current : t'.current = t.current

theorem SameShape.refl (t : Tree) : SameShape t t := ⟨rfl, rfl, rfl, rfl, rfl, rfl, rfl, rfl⟩

theorem SameShape.trans {t'' : Tree} (h : SameShape t t') (h' : SameShape t' t'') :
    SameShape t t'' :=
  ⟨h'.parent.trans h.parent, h'.children.trans h.children, h'.path.trans h.path,
    h'.name.trans h.name, h'.stamp.trans h.stamp, h'.table.trans h.table, h'.next.trans h.next,
    h'.current.trans h.current⟩

/-- The server object of one live resource is another one. -/
structure ServerSet (t t' : Tree) (i : ResourceId) (s : Server) : Prop extends SameShape t t' where
  live : t.Live i
  server : ∀ k, t'.server k = if k = i then some s else t.server k

theorem put_serverSet (h : t.heap i = some r) (s : Server) :
    ServerSet t (t.put i { r with server := s }) i s := by
  have hheap : ∀ k, (t.put i { r with server := s }).heap k =
      if k = i then some { r with server := s } else t.heap k := fun k =>
    update_apply ..
  refine ⟨⟨?_, ?_, ?_, ?_, ?_, rfl, rfl, rfl⟩, Option.isSome_iff_exists.mpr ⟨r, h⟩, fun k => ?_⟩
  · funext k
    rw [parent, parent, hheap]
    split
    · next hk => simp [hk, h]
    · rfl
  · funext k
    rw [children, children, hheap]
    split
    · next hk => simp [hk, h]
    · rfl
  · funext k
    rw [path, path, hheap]
    split
    · next hk => simp [hk, h]
    · rfl
  · funext k
    rw [name, name, hheap]
    split
    · next hk => simp [hk, h]
    · rfl
  · funext k
    rw [stamp, stamp, hheap]
    split
    · next hk => simp [hk, h]
    · rfl
  · rw [server, server, hheap]
    split <;> rfl

theorem yields_setServer (h : t.Live i ∨ E .destroyed) (s : Server) :
    Yields (t.setServer i s) (fun t' => ServerSet t t' i s) E :=
  (yields_get h).bind fun _ hr => yields_pure (put_serverSet hr s)

theorem ServerSet.bare (h : ServerSet t t' i s) (k : ResourceId) :
    t'.bare k = if k = i then some (s.setJoins []) else t.bare k := by
  rw [Tree.bare, Tree.bare, h.server]
  split <;> rfl

theorem ServerSet.joins (h : ServerSet t t' i s) (k : ResourceId) :
    t'.joins k = if k = i then s.joins else t.joins k := by
  rw [Tree.joins, Tree.joins, h.server]
  split <;> rfl

def JoinsSet (t t' : Tree) (i : ResourceId) (f : JoinList → JoinList) : Prop :=
  ∃ s, t.server i = some s ∧ ServerSet t t' i (s.setJoins (f s.joins))

theorem yields_setJoins (h : t.Live i ∨ E .destroyed) (f : JoinList → JoinList) :
    Yields (t.setJoins i f) (fun t' => JoinsSet t t' i f) E :=
  (yields_get h).bind fun r hr => yields_pure ⟨r.server, server_of_heap hr, put_serverSet hr _⟩

theorem JoinsSet.sameShape (h : JoinsSet t t' i f) : SameShape t t' := by
  obtain ⟨s, -, hset⟩ := h
  exact hset.toSameShape

theorem JoinsSet.bare (h : JoinsSet t t' i f) : t'.bare = t.bare := by
  obtain ⟨s, hs, hset⟩ := h
  funext k
  rw [hset.bare, Server.setJoins_setJoins]
  split
  · next hk => rw [hk, bare_of_server hs]
  · rfl

theorem JoinsSet.joins (h : JoinsSet t t' i f) (howner : ∀ s, t.bare i = some s → s.HasJoins)
    (k : ResourceId) : t'.joins k = if k = i then f (t.joins k) else t.joins k := by
  obtain ⟨s, hs, hset⟩ := h
  rw [hset.joins]
  split
  · next hk =>
    have hhas := howner _ (bare_of_server hs)
    rw [hk, joins_of_server hs]
    cases s with
    | feed | pipe => rfl
    | domain | join | message | content => exact hhas.elim
  · rfl

/-! ## New resources -/

/-- A resource `i` with the given data has been added as the last child of `p`. -/
structure Added (t t' : Tree) (i p : ResourceId) (n q : Str) (s : Server) : Prop where
  fresh : t.heap i = none
  live : t.Live p
  server : ∀ k, t'.server k = if k = i then some s else t.server k
  parent : ∀ k, t'.parent k = if k = i then some p else t.parent k
  children : ∀ k, t'.children k = if k = p then t.children k ++ [i] else t.children k
  path : ∀ k, t'.path k = if k = i then some q else t.path k
  name : ∀ k, t'.name k = if k = i then some n else t.name k
  stamp : ∀ k, k ≠ i → t'.stamp k = t.stamp k
  unused : t.table q = none
  table : t'.table = update t.table q (some i)
  next : i = t.next ∧ t'.next = t.next + 1

theorem Added.bare (h : Added t t' i p n q s) (k : ResourceId) :
    t'.bare k = if k = i then some (s.setJoins []) else t.bare k := by
  rw [Tree.bare, Tree.bare, h.server]
  split <;> rfl

theorem Added.joins (h : Added t t' i p n q s) (k : ResourceId) :
    t'.joins k = if k = i then s.joins else t.joins k := by
  rw [Tree.joins, Tree.joins, h.server]
  split <;> rfl

theorem new_parent_or_other (i p k : ResourceId) : k = i ∨ k ≠ i ∧ k = p ∨ k ≠ i ∧ k ≠ p := by
  tauto

/-- Identifiers from `next` on are not in use. -/
def FreshOk (t : Tree) : Prop := ∀ i, t.next ≤ i → t.heap i = none

theorem FreshOk.lt_of_live (h : t.FreshOk) (hi : t.Live i) : i < t.next := by
  by_contra hge
  rw [Live, h i (Nat.le_of_not_lt hge)] at hi
  cases hi

theorem enter_ok {isPrivate : Bool} {now : Nat} (hfresh : t.FreshOk) (hunused : t.table q = none)
    (h : t.enter p n q isPrivate now s = .ok (t', i)) :
    Added t t' i p n q s ∧ t'.current = t.current ∧ t'.FreshOk := by
  obtain ⟨t1, ht1, h⟩ := bind_eq_ok.mp h
  obtain ⟨r, hr, ht1⟩ := bind_eq_ok.mp ht1
  obtain rfl := pure_eq_ok.mp ht1
  obtain ⟨ht', rfl⟩ := Prod.mk.inj (pure_eq_ok.mp h)
  rw [get_eq_ok] at hr
  have hnone := hfresh t.next le_rfl
  have hne : t.next ≠ p := by
    rintro rfl
    rw [hnone] at hr
    cases hr
  have hnew : t'.heap t.next = some ⟨some p, n, q, isPrivate, [], now, s⟩ := by
    rw [← ht']
    exact update_self ..
  have hparent : t'.heap p = some { r with children := r.children ++ [t.next] } := by
    rw [← ht']
    exact (update_of_ne (Ne.symm hne) ..).trans (update_self ..)
  have hother : ∀ k, k ≠ t.next → k ≠ p → t'.heap k = t.heap k := by
    intro k hk hkp
    rw [← ht']
    exact (update_of_ne hk ..).trans (update_of_ne hkp ..)
  refine ⟨⟨hnone, Option.isSome_iff_exists.mpr ⟨r, hr⟩, fun k => ?_, fun k => ?_, fun k => ?_,
    fun k => ?_, fun k => ?_, fun k hk => ?_, hunused, by rw [← ht'], rfl, by rw [← ht']⟩,
    by rw [← ht']; rfl, fun k hk => ?_⟩
  · rcases new_parent_or_other t.next p k with rfl | ⟨hk, rfl⟩ | ⟨hk, hkp⟩
    · simp [server, hnew]
    · simp [server, hparent, hr, hk]
    · simp [server, hother k hk hkp, hk]
  · rcases new_parent_or_other t.next p k with rfl | ⟨hk, rfl⟩ | ⟨hk, hkp⟩
    · simp [parent, hnew]
    · simp [parent, hparent, hr, hk]
    · simp [parent, hother k hk hkp, hk]
  · rcases new_parent_or_other t.next p k with rfl | ⟨hk, rfl⟩ | ⟨hk, hkp⟩
    · simp [children, hnew, hnone, hne]
    · simp [children, hparent, hr]
    · simp [children, hother k hk hkp, hkp]
  · rcases new_parent_or_other t.next p k with rfl | ⟨hk, rfl⟩ | ⟨hk, hkp⟩
    · simp [path, hnew]
    · simp [path, hparent, hr, hk]
    · simp [path, hother k hk hkp, hk]
  · rcases new_parent_or_other t.next p k with rfl | ⟨hk, rfl⟩ | ⟨hk, hkp⟩
    · simp [name, hnew]
    · simp [name, hparent, hr, hk]
    · simp [name, hother k hk hkp, hk]
  · by_cases hkp : k = p
    · simp [stamp, hkp, hparent, hr]
    · simp [stamp, hother k hk hkp]
  · have hle : t.next + 1 ≤ k := by
      rw [← ht'] at hk
      exact hk
    have hk := hfresh k (Nat.le_of_succ_le hle)
    have hkp : k ≠ p := by
      rintro rfl
      rw [hk] at hr
      cases hr
    rw [hother k (Nat.ne_of_gt hle) hkp]
    exact hk

theorem yields_enter {t : Tree} {p : ResourceId} {E : Fault → Prop} (hfresh : t.FreshOk)
    (h : t.Live p ∨ E .destroyed) {n q : Str} (hunused : t.table q = none) {isPrivate : Bool}
    {now : Nat} {s : Server} :
    Yields (t.enter p n q isPrivate now s)
      (fun r => Added t r.1 r.2 p n q s ∧ r.1.current = t.current ∧ r.1.FreshOk) E := by
  have hends : Yields (t.enter p n q isPrivate now s) (fun r => r.2 = t.next) E := by
    refine Yields.bind (P := fun _ => True) ?_ fun _ _ => yields_pure rfl
    exact (yields_get h).bind fun _ _ => yields_pure trivial
  refine (hends.and_ok (Q := fun r => Added t r.1 r.2 p n q s ∧ r.1.current = t.current ∧
    r.1.FreshOk) ?_).imp fun _ h => h.2
  rintro ⟨t', i⟩ ht'
  obtain rfl : i = t.next := hends.of_ok ht'
  exact enter_ok hfresh hunused ht'

/-! ## Resources that go -/

/-- The resource `i` has been taken out of the list of its parent. -/
structure Detached (t t' : Tree) (i : ResourceId) : Prop where
  server : t'.server = t.server
  parent : t'.parent = t.parent
  children : ∀ k, t'.children k = if t.parent i = some k then (t.children k).erase i
    else t.children k
  path : t'.path = t.path
  name : t'.name = t.name
  stamp : t'.stamp = t.stamp
  table : t'.table = t.table
  next : t'.next = t.next
  current : t'.current = t.current

/-- The resource `i` is gone; lists of children are left out. -/
structure Gone (t t' : Tree) (i : ResourceId) : Prop where
  live : t.Live i
  server : ∀ k, t'.server k = if k = i then none else t.server k
  parent : ∀ k, t'.parent k = if k = i then none else t.parent k
  path : ∀ k, t'.path k = if k = i then none else t.path k
  name : ∀ k, t'.name k = if k = i then none else t.name k
  stamp : ∀ k, t'.stamp k = if k = i then none else t.stamp k
  table : ∀ q, t'.table q = if t.path i = some q then none else t.table q
  next : t'.next = t.next
  current : t'.current = t.current

theorem Gone.bare (h : Gone t t' i) (k : ResourceId) :
    t'.bare k = if k = i then none else t.bare k := by
  rw [Tree.bare, Tree.bare, h.server]
  split <;> rfl

theorem Gone.joins (h : Gone t t' i) (k : ResourceId) :
    t'.joins k = if k = i then [] else t.joins k := by
  rw [Tree.joins, Tree.joins, h.server]
  split <;> rfl

/-- The resource `i` has been destroyed. -/
structure Removed (t t' : Tree) (i : ResourceId) : Prop extends Gone t t' i where
  children : ∀ k, t'.children k = if k = i then [] else t.children k

theorem destroy_ok (h : t.destroy i = .ok t') : Removed t t' i := by
  obtain ⟨r, hr, ht'⟩ := bind_eq_ok.mp h
  rw [get_eq_ok] at hr
  rw [pure_eq_ok] at ht'
  have hheap : ∀ k, t'.heap k = if k = i then none else t.heap k := fun k => by
    rw [← ht']
    exact update_apply ..
  refine ⟨⟨Option.isSome_iff_exists.mpr ⟨r, hr⟩, fun k => ?_, fun k => ?_, fun k => ?_,
    fun k => ?_, fun k => ?_, fun q => ?_, by rw [← ht'], by rw [← ht']⟩, fun k => ?_⟩
  · rw [server, server, hheap]
    split <;> rfl
  · rw [parent, parent, hheap]
    split <;> rfl
  · rw [path, path, hheap]
    split <;> rfl
  · rw [name, name, hheap]
    split <;> rfl
  · rw [stamp, stamp, hheap]
    split <;> rfl
  · rw [(views hr).2.2.2.1, ← ht']
    simp only [update_apply, Option.some.injEq, eq_comm]
  · rw [children, children, hheap]
    split <;> rfl

theorem yields_destroy (h : t.Live i ∨ E .destroyed) :
    Yields (t.destroy i) (fun t' => Removed t t' i) E := by
  have hends : Yields (t.destroy i) (fun _ => True) E :=
    (yields_get h).bind fun _ _ => yields_pure trivial
  exact (hends.and_ok fun _ => destroy_ok).imp fun _ h => h.2

/-- A resource leaves the list of its parent, and nothing else changes. -/
theorem detachFromParent_ok (h : t.detachFromParent i = .ok t') : Detached t t' i := by
  obtain ⟨r, hr, h⟩ := bind_eq_ok.mp h
  rw [get_eq_ok] at hr
  have hparent := (views hr).2.1
  cases hp : r.parent with
  | none =>
    rw [hp] at h hparent
    obtain rfl := pure_eq_ok.mp h
    exact ⟨rfl, rfl, fun k => by rw [hparent, if_neg (by simp)], rfl, rfl, rfl, rfl, rfl, rfl⟩
  | some p =>
    rw [hp] at h hparent
    obtain ⟨rp, hrp, h⟩ := bind_eq_ok.mp h
    rw [get_eq_ok] at hrp
    rw [pure_eq_ok] at h
    have hheap : ∀ k, t'.heap k =
        if k = p then some { rp with children := rp.children.erase i } else t.heap k := fun k => by
      rw [← h]
      exact update_apply ..
    refine ⟨?_, ?_, fun k => ?_, ?_, ?_, ?_, by rw [← h]; rfl, by rw [← h]; rfl, by rw [← h]; rfl⟩
    · funext k
      rw [server, server, hheap]
      split
      · next hk => simp [hk, hrp]
      · rfl
    · funext k
      rw [parent, parent, hheap]
      split
      · next hk => simp [hk, hrp]
      · rfl
    · rw [hparent, children, children, hheap]
      by_cases hk : k = p
      · simp [hk, hrp]
      · rw [if_neg hk, if_neg (by simp [Ne.symm hk])]
    · funext k
      rw [path, path, hheap]
      split
      · next hk => simp [hk, hrp]
      · rfl
    · funext k
      rw [name, name, hheap]
      split
      · next hk => simp [hk, hrp]
      · rfl
    · funext k
      rw [stamp, stamp, hheap]
      split
      · next hk => simp [hk, hrp]
      · rfl

/-- The resource is live, and so is its parent. -/
def Attached (t : Tree) (i : ResourceId) : Prop :=
  t.Live i ∧ ∀ p, t.parent i = some p → t.Live p

theorem yields_detachFromParent (h : t.Attached i ∨ E .destroyed) :
    Yields (t.detachFromParent i) (fun t' => Detached t t' i) E := by
  have hends : Yields (t.detachFromParent i) (fun _ => True) E := by
    refine (yields_get (h.imp_left fun h => h.1)).bind fun r hr => ?_
    cases hp : r.parent with
    | none => exact yields_pure trivial
    | some p =>
      have hlive := h.imp_left fun h => h.2 p ((views hr).2.1.trans hp)
      exact (yields_get hlive).bind fun _ _ => yields_pure trivial
  exact (hends.and_ok fun _ => detachFromParent_ok).imp fun _ h => h.2

/-- The resource `i` has been taken out of the list of its parent and destroyed. -/
structure Discarded (t t' : Tree) (i : ResourceId) : Prop extends Gone t t' i where
  children : ∀ k, t'.children k = if k = i then []
    else if t.parent i = some k then (t.children k).erase i else t.children k

theorem Detached.discarded {t'' : Tree} (h : Detached t t' i) (h' : Removed t' t'' i) :
    Discarded t t'' i where
  live := by
    have hlive := h'.live
    rwa [live_iff_server, h.server, ← live_iff_server] at hlive
  server k := by rw [h'.server, h.server]
  parent k := by rw [h'.parent, h.parent]
  children k := by rw [h'.children, h.children]
  path k := by rw [h'.path, h.path]
  name k := by rw [h'.name, h.name]
  stamp k := by rw [h'.stamp, h.stamp]
  table q := by rw [h'.table, h.path, h.table]
  next := h'.next.trans h.next
  current := h'.current.trans h.current

theorem yields_discard (h : t.Attached i ∨ E .destroyed) :
    Yields (Work.discard t i) (fun t' => Discarded t t' i) E := by
  refine (yields_detachFromParent h).bind fun t1 hd => ?_
  have hlive : t1.Live i ∨ E .destroyed := by
    refine h.imp_left fun h => ?_
    have hlive := h.1
    rwa [live_iff_server, ← hd.server, ← live_iff_server] at hlive
  exact (yields_destroy hlive).imp fun _ hr => hd.discarded hr

end Tree

end OpenAmq.Zyre
