import OpenAmq.Zyre.Steps

/-!
# Asynclets

Every pipe has a message in which the next delivery is awaited. This module says what each of the
steps does to that.

* `Calm` — nothing that the waiting depends on changes
* `PipeAdded.newPipe`, `HeldAt.core`, `MessageArrived.refilled` — what changes where something does
-/

namespace OpenAmq.Zyre

open OpenAmq.Lib OpenAmq.Zyre.Tree Option

variable {env : Env} {t t' t'' : Tree} {i : ResourceId}

/-! ## What the waiting depends on -/

/-- A message, or the asynclet of a pipe. -/
inductive Core where
  | message (message : Message)
  | pipe (asynclet : Option ResourceId)

/-- Of a server object, what the waiting depends on. -/
def Server.core : Server → Option Core
  | message m => some (.message m)
  | pipe p => some (.pipe p.asynclet)
  | _ => none

/-- Of a resource, what the waiting depends on. -/
def Tree.core (t : Tree) (i : ResourceId) : Option Core := (t.server i).bind Server.core

theorem Server.core_setJoins (s : Server) (l : JoinList) : (s.setJoins l).core = s.core := by
  cases s <;> rfl

theorem core_eq_bare : t.core i = (t.bare i).bind Server.core := by
  rw [Tree.core, Tree.bare]
  cases t.server i with
  | none => rfl
  | some s => exact (s.core_setJoins []).symm

variable {s : Server} {p a : ResourceId} {requests : List BackendRequest}

theorem core_of_server (h : t.server i = some s) : t.core i = s.core := by
  rw [Tree.core, h]
  rfl

theorem core_message_iff {m : Message} :
    t.core i = some (.message m) ↔ t.server i = some (.message m) := by
  rw [Tree.core]
  cases t.server i with
  | none => simp
  | some s => cases s <;> simp [Server.core]

theorem core_of_fresh (h : t.heap i = none) : t.core i = none := by
  rw [Tree.core, Tree.server, h]
  rfl

theorem live_of_core {x : Core} (h : t.core i = some x) : t.Live i := by
  obtain ⟨s, hs, -⟩ := bind_eq_some_iff.mp h
  exact live_of_server hs

/-- The message in which the next delivery to a pipe is awaited. -/
def asyncletOf (t : Tree) (p : ResourceId) : Option ResourceId :=
  match t.server p with
  | some (.pipe pipe) => pipe.asynclet
  | _ => none

theorem asyncletOf_eq_some :
    asyncletOf t p = some a ↔ ∃ pipe, t.server p = some (.pipe pipe) ∧ pipe.asynclet = some a := by
  rw [asyncletOf]
  cases h : t.server p with
  | none => simp
  | some s => cases s <;> simp

theorem asyncletOf_iff_core : asyncletOf t p = some a ↔ t.core p = some (.pipe (some a)) := by
  rw [asyncletOf, Tree.core]
  cases t.server p with
  | none => simp
  | some s => cases s <;> simp [Server.core]

/-! ## Steps that change nothing of that -/

/-- Nothing that the waiting depends on changes. -/
structure Calm (t t' : Tree) : Prop where
  core : ∀ k, t'.core k = t.core k
  parent : ∀ k, t.core k ≠ none → t'.parent k = t.parent k
  next : t.next ≤ t'.next

theorem Calm.refl (t : Tree) : Calm t t := ⟨fun _ => rfl, fun _ _ => rfl, le_rfl⟩

theorem Calm.trans (h : Calm t t') (h' : Calm t' t'') : Calm t t'' where
  core k := (h'.core k).trans (h.core k)
  parent k hk := (h'.parent k (by rwa [h.core])).trans (h.parent k hk)
  next := h.next.trans h'.next

theorem calm_of_bare (h : t'.bare = t.bare) (hshape : SameShape t t') : Calm t t' where
  core k := by rw [core_eq_bare, core_eq_bare, h]
  parent k _ := congrFun hshape.parent k
  next := hshape.next.ge

theorem Tree.JoinsSet.calm {f : JoinList → JoinList} (h : JoinsSet t t' i f) : Calm t t' :=
  calm_of_bare h.bare h.sameShape

theorem Unlisted.calm {x : Join} (h : Unlisted t t' x) : Calm t t' :=
  calm_of_bare h.bare h.sameShape

theorem Tree.Added.core {n q : Str} (h : Added t t' i p n q s) (k : ResourceId) :
    t'.core k = if k = i then s.core else t.core k := by
  rw [Tree.core, h.server]
  split <;> rfl

theorem Tree.Added.calm {n q : Str} (h : Added t t' i p n q s) (hs : s.core = none) :
    Calm t t' where
  core k := by
    rw [h.core, hs]
    split
    · next hk => rw [hk, core_of_fresh h.fresh]
    · rfl
  parent k hk := by
    rw [h.parent, if_neg]
    rintro rfl
    exact hk (core_of_fresh h.fresh)
  next := by
    rw [h.next.2]
    exact Nat.le_succ _

theorem Tree.Gone.core (h : Gone t t' i) (k : ResourceId) :
    t'.core k = if k = i then none else t.core k := by
  rw [Tree.core, h.server]
  split <;> rfl

theorem Tree.Gone.calm (h : Gone t t' i) (hi : t.core i = none) : Calm t t' where
  core k := by
    rw [h.core]
    split
    · next hk => rw [hk, hi]
    · rfl
  parent k hk := by
    rw [h.parent, if_neg]
    rintro rfl
    exact hk hi
  next := h.next.ge

theorem JoinAdded.calm {j : ResourceId} {x : Join} (h : JoinAdded env t t' j x) : Calm t t' := by
  obtain ⟨t1, t2, _, _, hc, -, -, h1, h2⟩ := h
  exact ((hc.added.calm rfl).trans h1.calm).trans h2.calm

theorem Deleting.not_lasts (h : Deleting t i t' requests) : ¬ Lasts t i := by
  rintro ⟨s, hs, hlasting⟩
  cases h with
  | feed hserver hdynamic | join hserver hdynamic =>
    obtain rfl := some.inj (hserver.symm.trans hs)
    exact absurd (hdynamic.symm.trans hlasting) (by decide)
  | pipe hserver | message hserver | content hserver =>
    obtain rfl := some.inj (hserver.symm.trans hs)
    exact hlasting

theorem Sent.calm {feedName : Str} (h : Sent feedName t t' requests) : Calm t t' := by
  induction h with
  | nil => exact .refl _
  | plain _ ih => exact ih
  | used hcontent hd _ ih => exact (hd.toGone.calm (core_of_server hcontent)).trans ih

theorem TitleSet.calm (h : TitleSet t t' i) : Calm t t' := by
  rcases h with rfl | ⟨s, s', hs, hretitled, hset⟩
  · exact .refl _
  · refine ⟨fun k => ?_, fun k _ => congrFun hset.parent k, hset.next.ge⟩
    rw [Tree.core, hset.server]
    split
    · next hk =>
      rw [hk, core_of_server hs]
      cases hretitled <;> rfl
    · rfl

/-! ## Steps that do -/

theorem AsyncletAdded.core (h : AsyncletAdded env t t' a i) (k : ResourceId) :
    t'.core k = if k = i then some (.pipe (some a))
      else if k = a then some (.message Message.new) else t.core k := by
  obtain ⟨t1, pipe, hc, -, hset⟩ := h
  rw [Tree.core, hset.server]
  split
  · rfl
  · exact hc.added.core k

structure NewPipe (t t' : Tree) (i a : ResourceId) : Prop where
  fresh : t.next ≤ i ∧ t.next ≤ a ∧ i ≠ a
  core : ∀ k, t'.core k = if k = i then some (.pipe (some a))
    else if k = a then some (.message Message.new) else t.core k
  parent : t'.parent a = some i ∧ ∀ k, t.core k ≠ none → t'.parent k = t.parent k
  next : a < t'.next ∧ t.next ≤ t'.next

theorem PipeAdded.newPipe {type title : Str} (h : PipeAdded env t t' i p type title) :
    ∃ a, NewPipe t t' i a := by
  obtain ⟨t1, t2, j, a, hc, hj, ha⟩ := h
  have hfresh := core_of_fresh hc.added.fresh
  have hcalm := hj.calm
  have hcore1 := hc.added.core
  obtain ⟨ha2, hnext⟩ := ha.ids
  have hnext1 : t.next < t1.next := by
    rw [hc.added.next.2]
    exact Nat.lt_succ_self _
  have hai : t.next < a := by
    rw [ha2]
    exact Nat.lt_of_lt_of_le hnext1 hcalm.next
  have hi : i = t.next := hc.added.next.1
  refine ⟨a, ⟨hi.ge, hai.le, hi ▸ Nat.ne_of_lt hai⟩, fun k => ?_, ⟨?_, fun k hk => ?_⟩, ?_, ?_⟩
  · rw [ha.core, hcalm.core, hcore1]
    split <;> rfl
  · exact (ha.views.2.2.2.1 a).trans (if_pos rfl)
  · have hki : k ≠ i := by
      rintro rfl
      exact hk hfresh
    have hk1 : t1.core k = t.core k := by rw [hcore1, if_neg hki]
    have hk2 : t2.core k ≠ none := by rwa [hcalm.core, hk1]
    have hka : k ≠ a := by
      rintro rfl
      exact hk2 (core_of_fresh ha.views.1)
    rw [ha.views.2.2.2.1, if_neg hka, hcalm.parent k (by rwa [hk1]), hc.added.parent, if_neg hki]
  · rw [hnext, ha2]
    exact Nat.lt_succ_self _
  · rw [hnext]
    exact (hnext1.le.trans hcalm.next).trans (Nat.le_succ _)

theorem HeldAt.core {waiting : Waiting} (h : HeldAt t t' i waiting) : ∃ m,
    t.core i = some (.message m) ∧ m.pending = true ∧
    (∀ k, t'.core k = if k = i then some (.message { m with context := some waiting })
      else t.core k) ∧ (∀ k, t'.parent k = t.parent k) ∧ t'.next = t.next := by
  obtain ⟨m, hm, hpending, hset⟩ := h
  refine ⟨m, core_message_iff.mpr hm, hpending, fun k => ?_, congrFun hset.parent, hset.next⟩
  rw [Tree.core, hset.server]
  split <;> rfl

/-- A delivery fills the asynclet of a pipe, which gets a new one. -/
structure Refilled (t t' : Tree) (i a a' : ResourceId) (m m' : Message) : Prop where
  asynclet : t.core i = some (.pipe (some a))
  message : t.core a = some (.message m)
  filled : m'.pending = false ∧ m'.context = m.context
  fresh : t.next ≤ a'
  core : ∀ k, t'.core k = if k = a' then some (.message Message.new)
    else if k = i then some (.pipe (some a'))
    else if k = a then some (.message m') else t.core k
  parent : t'.parent a' = some i ∧ ∀ k, t.core k ≠ none → t'.parent k = t.parent k
  next : a' < t'.next ∧ t.next ≤ t'.next

theorem MessageArrived.refilled {delivery : Delivery} {pipe : Pipe} {message : Message}
    (h : MessageArrived env t t' delivery i a pipe message headers) :
    ∃ a', Refilled t t' i a a' message (message.attach env delivery headers) := by
  obtain ⟨k, a', x, -, hkfresh, hafresh, hka', hserver, hparent, -, hids⟩ := h.views
  refine ⟨a', ⟨?_, core_message_iff.mpr h.hmessage, ⟨rfl, rfl⟩, hids.1, fun j => ?_,
    ⟨?_, fun j hj => ?_⟩, hids.2⟩⟩
  · rw [← asyncletOf_iff_core, asyncletOf_eq_some]
    exact ⟨pipe, h.hpipe, h.hasynclet⟩
  · rw [Tree.core, hserver]
    split
    · rfl
    · split
      · rfl
      · split
        · rfl
        · split
          · next hj => rw [hj, core_of_fresh hkfresh]; rfl
          · rfl
  · rw [hparent, if_pos rfl]
  · have hne : ∀ c, t.heap c = none → j ≠ c := by
      rintro c hc rfl
      exact hj (core_of_fresh hc)
    rw [hparent, if_neg (hne a' hafresh), if_neg (hne k hkfresh)]

theorem Posted.calm_or_newPipe {A : Attrs → Prop} (h : Posted env A t i t' requests) :
    Calm t t' ∨ ∃ k a, NewPipe t t' k a := by
  cases h with
  | nothing => exact .inl (.refl _)
  | known => exact .inl ⟨fun _ => rfl, fun _ _ => rfl, le_rfl⟩
  | unnamedFeed _ _ _ hc => exact .inl (hc.added.calm rfl)
  | namedFeed _ _ _ ha => exact .inl (ha.calm rfl)
  | pipe _ hadded =>
    obtain ⟨a, ha⟩ := hadded.newPipe
    exact .inr ⟨_, a, ha⟩
  | join _ _ _ _ _ _ _ _ hj => exact .inl hj.calm
  | content _ hc => exact .inl (hc.added.calm rfl)
  | messages _ _ hsent => exact .inl hsent.calm

end OpenAmq.Zyre
