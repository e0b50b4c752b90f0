import OpenAmq.Zyre.Steps

/-!
# Parents and children

Every resource but the domain has a parent, in whose list of children it is put. Unless a pipe is
deleted, only contents are left behind when their parents go.

* `ResourceType`, `Nests` — what may be below what
* `FamilyOk` — the lists of children hold resources that are there, each once
* `FamilyOk.added`, `FamilyOk.discarded`, … — the operations keep it
-/

namespace OpenAmq.Zyre

open OpenAmq.Lib OpenAmq.Zyre.Tree Option List

variable {env : Env} {t t' t'' : Tree} {i p : ResourceId}

/-! ## Types of resources -/

/-- `RESTMS_RESOURCE_DOMAIN`, … -/
inductive ResourceType where
  | domain | feed | pipe | join | message | content
deriving DecidableEq

def Server.resourceType : Server → ResourceType
  | domain => .domain
  | feed _ => .feed
  | pipe _ => .pipe
  | join _ => .join
  | message _ => .message
  | content _ => .content

def Tree.typeOf (t : Tree) (i : ResourceId) : Option ResourceType :=
  (t.server i).map Server.resourceType

theorem Server.resourceType_setJoins (s : Server) (l : JoinList) :
    (s.setJoins l).resourceType = s.resourceType := by
  cases s <;> rfl

theorem typeOf_eq_bare : t.typeOf i = (t.bare i).map Server.resourceType := by
  rw [typeOf, bare]
  cases t.server i with
  | none => rfl
  | some s => exact congrArg some (s.resourceType_setJoins []).symm

variable {s : Server}

theorem typeOf_of_server (h : t.server i = some s) : t.typeOf i = some s.resourceType := by
  rw [typeOf, h]
  rfl

theorem live_iff_typeOf : t.Live i ↔ ∃ x, t.typeOf i = some x := by
  rw [live_iff_server, typeOf]
  cases t.server i <;> simp

theorem typeOf_eq_content {i : ResourceId} :
    t.typeOf i = some .content ↔ ∃ x, t.server i = some (.content x) := by
  rw [typeOf]
  cases t.server i with
  | none => simp
  | some s => cases s <;> simp [Server.resourceType]

/-- A resource of the first type may be the parent of one of the second. -/
def Nests : ResourceType → ResourceType → Prop
  | .domain, .feed | .domain, .pipe => True
  | .feed, .content => True
  | .pipe, .join | .pipe, .message => True
  | .message, .content => True
  | _, _ => False

theorem Nests.parental {x : ResourceType} (h : Nests s.resourceType x) : Parental s := by
  cases s with
  | domain | feed | pipe | message => trivial
  | join | content => cases x <;> exact h

/-! ## Families -/

/-- A child is in one list only, and once, and is there. What has a parent that is not there any
more is a content. -/
structure FamilyOk (t : Tree) : Prop where
  children : ∀ p c, c ∈ t.children p → t.parent c = some p
  nodup : ∀ p, (t.children p).Nodup
  older : ∀ c p, t.parent c = some p → p < t.next
  nests : ∀ c p x, t.parent c = some p → t.typeOf c = some x →
    (∃ y, t.typeOf p = some y ∧ Nests y x) ∨ t.typeOf p = none ∧ x = .content

theorem live_of_parent (h : t.parent i = some p) : t.Live i := by
  rw [parent] at h
  obtain ⟨r, hr, -⟩ := bind_eq_some_iff.mp h
  exact isSome_iff_exists.mpr ⟨r, hr⟩

theorem FamilyOk.live (h : FamilyOk t) {c : ResourceId} (hc : c ∈ t.children p) : t.Live c :=
  live_of_parent (h.children p c hc)

/-- No parents and children change. -/
structure SameFamily (t t' : Tree) : Prop where
  parent : t'.parent = t.parent
  children : t'.children = t.children
  typeOf : ∀ k, t'.typeOf k = t.typeOf k
  next : t'.next = t.next

theorem FamilyOk.same (h : FamilyOk t) (hs : SameFamily t t') : FamilyOk t' := by
  obtain ⟨hparent, hchildren, htype, hnext⟩ := hs
  refine ⟨?_, ?_, ?_, ?_⟩
  · rw [hparent, hchildren]
    exact h.children
  · rw [hchildren]
    exact h.nodup
  · rw [hparent, hnext]
    exact h.older
  · intro c p x
    rw [hparent, htype, htype]
    exact h.nests c p x

theorem sameFamily_of_bare (hbare : t'.bare = t.bare) (h : SameShape t t') : SameFamily t t' where
  parent := h.parent
  children := h.children
  typeOf k := by rw [typeOf_eq_bare, typeOf_eq_bare, hbare]
  next := h.next

theorem Tree.ServerSet.sameFamily {s' : Server} (h : ServerSet t t' i s')
    (hs : t.server i = some s) (htype : s'.resourceType = s.resourceType) : SameFamily t t' where
  parent := h.parent
  children := h.children
  typeOf k := by
    rw [Tree.typeOf, h.server]
    split
    · next hk => rw [hk, typeOf_of_server hs, ← htype]; rfl
    · rfl
  next := h.next

theorem TitleSet.sameFamily (h : TitleSet t t' i) : SameFamily t t' := by
  rcases h with rfl | ⟨s, s', hs, hretitled, hset⟩
  · exact ⟨rfl, rfl, fun _ => rfl, rfl⟩
  · refine hset.sameFamily hs ?_
    cases hretitled <;> rfl

theorem HeldAt.sameFamily {waiting : Waiting} (h : HeldAt t t' i waiting) : SameFamily t t' := by
  obtain ⟨m, hm, -, hset⟩ := h
  exact hset.sameFamily hm rfl

/-! ## The operations -/

theorem Tree.Added.typeOf {n q : Str} (h : Added t t' i p n q s) (k : ResourceId) :
    t'.typeOf k = if k = i then some s.resourceType else t.typeOf k := by
  rw [Tree.typeOf, h.server]
  split <;> rfl

theorem Tree.Gone.typeOf (h : Gone t t' i) (k : ResourceId) :
    t'.typeOf k = if k = i then none else t.typeOf k := by
  rw [Tree.typeOf, h.server]
  split <;> rfl

section

variable (h : FamilyOk t)

include h

/-- A new resource is a child of the one it was created in. -/
theorem FamilyOk.added {n q : Str} {x : ResourceType} (hfresh : t.FreshOk)
    (ha : Added t t' i p n q s) (hp : t.typeOf p = some x) (hnests : Nests x s.resourceType) :
    FamilyOk t' := by
  have hpi : p ≠ i := ha.ne_of_live ha.live
  have hnew : ∀ o, i ∉ t.children o := fun o hmem =>
    ha.ne_of_live (h.live hmem) rfl
  refine ⟨fun o c hc => ?_, fun o => ?_, fun c o hc => ?_, fun c o y hc hy => ?_⟩
  · rw [ha.children] at hc
    rw [ha.parent]
    split
    · next hci =>
      split at hc
      · next ho => rw [ho]
      · exact absurd (hci ▸ hc) (hnew o)
    · next hci =>
      split at hc
      · exact h.children o c ((mem_append.mp hc).resolve_right fun hmem =>
          hci (mem_singleton.mp hmem))
      · exact h.children o c hc
  · rw [ha.children]
    split
    · refine nodup_append.mpr ⟨h.nodup o, nodup_singleton _, fun a ha' b hb => ?_⟩
      rw [mem_singleton.mp hb]
      exact ne_of_mem_of_not_mem ha' (hnew o)
    · exact h.nodup o
  · rw [ha.parent] at hc
    rw [ha.next.2]
    split at hc
    · cases hc
      exact Nat.lt_succ_of_lt (hfresh.lt_of_live ha.live)
    · exact Nat.lt_succ_of_lt (h.older c o hc)
  · rw [ha.parent] at hc
    rw [ha.typeOf] at hy ⊢
    split at hc
    · next hci =>
      cases hc
      rw [if_pos hci] at hy
      rw [if_neg hpi]
      exact .inl ⟨x, hp, some.inj hy ▸ hnests⟩
    · next hci =>
      -- a parent that is gone does not come back
      have hoi : o ≠ i := by
        rw [ha.next.1]
        exact Nat.ne_of_lt (h.older c o hc)
      rw [if_neg hci] at hy
      rw [if_neg hoi]
      exact h.nests c o y hc hy

theorem FamilyOk.content_of_parent {c : ResourceId} {y : ResourceType}
    (hi : t.typeOf i = some y) (hy : y ≠ .domain ∧ y ≠ .pipe) (hc : t.parent c = some i) :
    t.typeOf c = some .content := by
  obtain ⟨x, hx⟩ := live_iff_typeOf.mp (live_of_parent hc)
  rcases h.nests c i x hc hx with ⟨z, hz, hnests⟩ | ⟨hnone, -⟩
  · obtain rfl := some.inj (hi.symm.trans hz)
    rw [hx]
    cases y with
    | domain => exact absurd rfl hy.1
    | pipe => exact absurd rfl hy.2
    | feed | message | join | content =>
      cases x with
      | content => rfl
      | domain | feed | pipe | join | message => exact hnests.elim
  · rw [hnone] at hi
    cases hi

theorem FamilyOk.discarded {y : ResourceType} (hd : Discarded t t' i)
    (hi : t.typeOf i = some y) (hy : y ≠ .domain ∧ y ≠ .pipe) : FamilyOk t' := by
  have hold : ∀ {c o}, t'.parent c = some o → c ≠ i ∧ t.parent c = some o := by
    intro c o hc
    rw [hd.parent] at hc
    split at hc
    · cases hc
    · next hci => exact ⟨hci, hc⟩
  refine ⟨fun o c hc => ?_, fun o => ?_, fun c o hc => ?_, fun c o x hc hx => ?_⟩
  · rw [hd.children] at hc
    split at hc
    · cases hc
    · have hne : c ≠ i ∧ c ∈ t.children o := by
        split at hc
        · exact (h.nodup o).mem_erase_iff.mp hc
        · next hother =>
          refine ⟨?_, hc⟩
          rintro rfl
          exact hother (h.children o c hc)
      rw [hd.parent, if_neg hne.1]
      exact h.children o c hne.2
  · rw [hd.children]
    split
    · exact nodup_nil
    · split
      · exact (h.nodup o).erase i
      · exact h.nodup o
  · rw [hd.next]
    exact h.older c o (hold hc).2
  · obtain ⟨hci, hc⟩ := hold hc
    rw [hd.typeOf, if_neg hci] at hx
    rw [hd.typeOf]
    split
    · next hoi =>
      have hcontent := h.content_of_parent hi hy (hoi ▸ hc)
      exact .inr ⟨rfl, some.inj (hx.symm.trans hcontent)⟩
    · exact h.nests c o x hc hx

/-- The parent of a resource that is no content is there, so that it can be taken out of its
list. -/
theorem FamilyOk.detachable (hlive : t.Live i)
    (hi : t.typeOf i = some .content → ∀ p, t.parent i = some p → t.Live p) : Detachable t i := by
  refine ⟨hlive, fun p hp => ?_⟩
  obtain ⟨x, hx⟩ := live_iff_typeOf.mp hlive
  have hparent : ∃ y, t.typeOf p = some y ∧ Nests y x := by
    rcases h.nests i p x hp hx with hparent | ⟨hnone, rfl⟩
    · exact hparent
    · obtain ⟨y, hy⟩ := live_iff_typeOf.mp (hi hx p hp)
      rw [hnone] at hy
      cases hy
  obtain ⟨y, hy, hnests⟩ := hparent
  rw [typeOf_eq_bare] at hy
  obtain ⟨s, hs, rfl⟩ := map_eq_some_iff.mp hy
  exact ⟨s, hs, hnests.parental⟩

theorem FamilyOk.joinAdded {j : ResourceId} {x : Join} (hbase : Base env t)
    (hj : JoinAdded env t t' j x) (hpipe : t.typeOf x.pipe = some .pipe) : FamilyOk t' := by
  obtain ⟨t1, t2, _, _, hc, -, -, h1, h2⟩ := hj
  exact ((h.added hbase.fresh hc.added hpipe trivial).same
    (sameFamily_of_bare h1.bare h1.sameShape)).same (sameFamily_of_bare h2.bare h2.sameShape)

theorem FamilyOk.asyncletAdded {a : ResourceId} (hfresh : t.FreshOk)
    (ha : AsyncletAdded env t t' a i) : FamilyOk t' := by
  obtain ⟨t1, pipe, hc, hpipe, hset⟩ := ha
  refine (h.added hfresh hc.added (typeOf_of_server hpipe) trivial).same
    (hset.sameFamily (s := .pipe pipe) ?_ rfl)
  rw [hc.added.server, if_neg (hc.added.ne_of_live (live_of_server hpipe)), hpipe]

theorem FamilyOk.pipeAdded {type title : Str} (hbase : Base env t)
    (ha : PipeAdded env t t' i p type title) (hp : t.typeOf p = some .domain) : FamilyOk t' := by
  obtain ⟨t1, t2, j, a, hc, hj, ha⟩ := ha
  have hbase1 : Base env t1 := hbase.created hc rfl
  have h1 := h.added hbase.fresh hc.added hp trivial
  have hi : t1.typeOf i = some .pipe := (hc.added.typeOf i).trans (if_pos rfl)
  exact (h1.joinAdded hbase1 hj hi).asyncletAdded (hbase1.joinAdded hj).fresh ha

theorem FamilyOk.messageArrived {delivery : Delivery} {a : ResourceId} {pipe : Pipe}
    {message : Message} (hbase : Base env t)
    (ha : MessageArrived env t t' delivery i a pipe message headers) : FamilyOk t' := by
  obtain ⟨-, -, hmessage, -, t1, t2, k, a', x, -, hc, hset, hadded⟩ := ha
  have hserver : t1.server a = some (.message message) := by
    rw [hc.added.server, if_neg (hc.added.ne_of_live (live_of_server hmessage)), hmessage]
  have hbase2 : Base env t2 := by
    refine (hbase.created hc trivial).serverSet hset fun s hs => ?_
    rw [hserver] at hs
    rw [← some.inj hs]
    exact trivial
  have h1 := h.added hbase.fresh hc.added (typeOf_of_server hmessage) trivial
  exact (h1.same (hset.sameFamily hserver rfl)).asyncletAdded hbase2.fresh hadded

theorem FamilyOk.sent {feedName : Str} {requests : List BackendRequest}
    (hs : Sent feedName t t' requests) : FamilyOk t' := by
  induction hs with
  | nil => exact h
  | plain _ ih => exact ih h
  | used hcontent hd _ ih => exact ih (h.discarded hd (typeOf_of_server hcontent) ⟨nofun, nofun⟩)

theorem FamilyOk.posted {A : Attrs → Prop} {requests : List BackendRequest}
    (hbase : Base env t) (hp : Posted env A t i t' requests) : FamilyOk t' := by
  cases hp with
  | nothing => exact h
  | known => exact h.same ⟨rfl, rfl, fun _ => rfl, rfl⟩
  | unnamedFeed _ hdomain _ hc =>
    exact h.added hbase.fresh hc.added (typeOf_of_server hdomain) trivial
  | namedFeed _ hdomain _ ha => exact h.added hbase.fresh ha (typeOf_of_server hdomain) trivial
  | pipe hdomain ha => exact h.pipeAdded hbase ha (typeOf_of_server hdomain)
  | join hx hpipe _ _ _ _ _ _ hj =>
    exact h.joinAdded hbase hj (by rw [hx.1, typeOf_of_server hpipe]; rfl)
  | content hfeed hc => exact h.added hbase.fresh hc.added (typeOf_of_server hfeed) trivial
  | messages _ _ hs => exact h.sent hs

end

end OpenAmq.Zyre
