import OpenAmq.Container.ListRuns

/-!
# Iterated lists

The lists of `icl_iter_list_head`, in which an object can stand more than once: the rings are made
of iterators, which are allocated when an object is put into a list and freed when it is popped.

* `IterHeap` — the pointers of all iterators and lists, and the objects
* `IterHeap.push`, `pop`, `queue`, `relinkBefore`, `remove` — the methods
* `IterOp`, `IterOp.apply` — the calls, and what they do to the sequences of iterators
* `lists_sequential_iff` — both kinds of lists are sequences unless an item is put before itself
-/

namespace OpenAmq

open Lib List Function Option

variable {L A I O : Type*}

/-- The iterators at their addresses, with the objects that they stand for. -/
structure IterHeap (L I O : Type*) extends ListHeap L I where
  object : ListNode L I → Option O
  /-- Memory that is in use, the iterator that a list starts with included. -/
  allocated : ListNode L I → Bool

open IterHeap

namespace IterHeap

/-- All lists as they have been created, without an iterator allocated. -/
def new : IterHeap L I O where
  toListHeap := .new
  object _ := none
  allocated
    | .child _ => true
    | .item _ => false

variable [DecidableEq L] [DecidableEq I]

/-- `iter new`, which the allocator gives the address `iter` -/
def iterNew (self : IterHeap L I O) (iter : I) (object : O) : IterHeap L I O where
  next := update self.next (.item iter) (.item iter)
  prev := update self.prev (.item iter) (.item iter)
  head := update self.head (.item iter) none
  count := self.count
  object := update self.object (.item iter) (some object)
  allocated := update self.allocated (.item iter) true

/-- `iter destroy`; an object that the iterator still refers to loses a reference. -/
def iterDestroy (cls : ListClass) (self : IterHeap L I O) (iter : ListNode L I) : IterHeap L I O :=
  { self with
    toListHeap := self.toListHeap.remove cls iter
    allocated := update self.allocated iter false }

/-- The count of a list, in a class that counts, goes up before the iterator is put in. -/
def countUp (cls : ListClass) (self : IterHeap L I O) (list : L) : IterHeap L I O :=
  if cls.count then { self with toListHeap := self.toListHeap.countUp list } else self

def push (cls : ListClass) (self : IterHeap L I O) (list : L) (object : O) (iter : I) :
    IterHeap L I O :=
  let self := (self.iterNew iter object).countUp cls list
  { self with toListHeap := self.rehook (.item iter) (.child list) (self.next (.child list)) }

def queue (cls : ListClass) (self : IterHeap L I O) (list : L) (object : O) (iter : I) :
    IterHeap L I O :=
  let self := (self.iterNew iter object).countUp cls list
  { self with toListHeap := self.rehook (.item iter) (self.prev (.child list)) (.child list) }

/-- `pop`, with the object that it returns -/
def pop (cls : ListClass) (self : IterHeap L I O) (list : L) : IterHeap L I O × Option O :=
  if self.next (.child list) = .child list then (self, none)
  else
    let iter := self.next (.child list)
    let heap := self.unhook iter
    let heap := if cls.count then heap.countDown list else heap
    let object := self.object iter
    let self := { self with toListHeap := heap, object := update self.object iter none }
    (self.iterDestroy cls iter, object)

/-- `relink before` -/
def relinkBefore (cls : ListClass) (self : IterHeap L I O) (iter whereIter : I) :
    Option (IterHeap L I O) :=
  (self.toListHeap.relinkBefore cls iter whereIter).map fun heap => { self with toListHeap := heap }

def remove (cls : ListClass) (self : IterHeap L I O) (iter : I) : IterHeap L I O :=
  { self with toListHeap := self.toListHeap.remove cls (.item iter) }

end IterHeap

/-- A call of a method of an iterated list, with the address that a new iterator is given. -/
inductive IterOp (L I O : Type*) where
  | push (list : L) (object : O) (iter : I)
  | pop (list : L)
  | queue (list : L) (object : O) (iter : I)
  | relinkBefore (iter whereIter : I)
  | remove (iter : I)
deriving DecidableEq

/-- The sequences of iterators, and the objects that these have been made for. -/
structure IterSeqs (L I O : Type*) where
  seq : L → List I
  object : I → Option O

/-- The sequences after a call, and what it returns. -/
def IterOp.apply [DecidableEq L] [DecidableEq I] (t : IterSeqs L I O) :
    IterOp L I O → IterSeqs L I O × List (Option O)
  | .push list object iter =>
    (⟨update t.seq list (iter :: t.seq list), update t.object iter (some object)⟩, [])
  | .pop list =>
    (⟨update t.seq list (t.seq list).tail, t.object⟩, [(t.seq list).head?.bind t.object])
  | .queue list object iter =>
    (⟨update t.seq list (t.seq list ++ [iter]), update t.object iter (some object)⟩, [])
  | .relinkBefore iter whereIter =>
    (⟨((ListOp.relinkBefore iter whereIter).apply t.seq).1, t.object⟩, [])
  | .remove iter => (⟨fun list => (t.seq list).erase iter, t.object⟩, [])

namespace IterHeap

variable [DecidableEq L] [DecidableEq I]

/-- A call, with the object that `pop` returns. -/
def step (cls : ListClass) (self : IterHeap L I O) :
    IterOp L I O → Option (IterHeap L I O × List (Option O))
  | .push list object iter => some (self.push cls list object iter, [])
  | .pop list => some ((self.pop cls list).1, [(self.pop cls list).2])
  | .queue list object iter => some (self.queue cls list object iter, [])
  | .relinkBefore iter whereIter => (self.relinkBefore cls iter whereIter).map fun self =>
    (self, [])
  | .remove iter => some (self.remove cls iter, [])

/-- New iterators are given memory that is not in use, and others are used while they exist. -/
def Legal (self : IterHeap L I O) : IterOp L I O → Prop
  | .push _ _ iter | .queue _ _ iter => self.allocated (.item iter) = false
  | .pop _ => True
  | .relinkBefore iter whereIter =>
    self.allocated (.item iter) = true ∧ self.toListHeap.Legal (.relinkBefore iter whereIter)
  | .remove iter => self.allocated (.item iter) = true

/-- No iterator is put before itself, and no count of a list goes over its 32 bits. -/
def Sound (cls : ListClass) (self : IterHeap L I O) : IterOp L I O → Prop
  | .push list _ _ | .queue list _ _ => cls.count → self.count list ≠ 4294967295
  | .relinkBefore iter whereIter => self.toListHeap.Sound cls (.relinkBefore iter whereIter)
  | .pop _ | .remove _ => True

instance (self : IterHeap L I O) (op : IterOp L I O) : Decidable (self.Legal op) :=
  match op with
  | .push _ _ _ | .queue _ _ _ | .remove _ => inferInstanceAs (Decidable (_ = _))
  | .relinkBefore _ _ => inferInstanceAs (Decidable (_ ∧ _))
  | .pop _ => .isTrue trivial

instance (cls : ListClass) (self : IterHeap L I O) (op : IterOp L I O) :
    Decidable (self.Sound cls op) :=
  match op with
  | .push _ _ _ | .queue _ _ _ => inferInstanceAs (Decidable (_ → _))
  | .relinkBefore _ _ => inferInstanceAs
    (Decidable (ListHeap.Sound cls self.toListHeap (.relinkBefore _ _)))
  | .pop _ | .remove _ => .isTrue trivial

end IterHeap

section Sequences

variable [DecidableEq L] [DecidableEq I] {cls : ListClass} {h : IterHeap L I O}
  {t : IterSeqs L I O} {list : L} {iter : I} {object : O}

/-- The lists are the sequences, and their iterators stand for the objects. -/
structure IterWalks (cls : ListClass) (h : IterHeap L I O) (t : IterSeqs L I O) : Prop where
  walks : Walks cls h.toListHeap t.seq
  object : ∀ list, ∀ iter ∈ t.seq list, h.object (.item iter) = t.object iter

/-- What all calls keep. -/
structure IterListed (cls : ListClass) (h : IterHeap L I O) (t : IterSeqs L I O) : Prop where
  listed : Listed cls h.toListHeap t.seq
  object : ∀ iter, h.allocated (.item iter) = true → h.object (.item iter) = t.object iter
  free : ∀ iter, h.allocated (.item iter) = false → h.head (.item iter) = none

omit [DecidableEq L] [DecidableEq I] in
theorem iterListed_new (cls : ListClass) :
    IterListed cls (new : IterHeap L I O) ⟨fun _ => [], fun _ => none⟩ where
  listed := listed_new cls
  object _ _ := rfl
  free _ _ := rfl

omit [DecidableEq L] [DecidableEq I] in
theorem IterListed.allocated (hl : IterListed cls h t) (hmem : iter ∈ t.seq list) :
    h.allocated (.item iter) = true := by
  rw [← hl.listed.linked.head_item] at hmem
  cases hallocated : h.allocated (.item iter) with
  | true => rfl
  | false =>
    rw [hl.free iter hallocated] at hmem
    cases hmem

theorem IterListed.walks (hl : IterListed cls h t) : IterWalks cls h t where
  walks := hl.listed.walks
  object _ iter hmem := hl.object iter (hl.allocated hmem)

theorem Linked.unhook_of_none {h : ListHeap L I} {t : L → List I} (hl : Linked h t)
    (hnone : h.head (.item iter) = none) : h.unhook (.item iter) = h := by
  have hnext := hl.alone iter hnone
  have hhead : update h.head (.item iter) none = h.head := by
    rw [← hnone, update_eq_self]
  simp [ListHeap.unhook, ListHeap.rehook, hnext, hl.prev_eq hnext, hhead]

theorem Linked.iterNew (hl : Linked h.toListHeap t.seq) (hnone : h.head (.item iter) = none)
    (object : O) : (h.iterNew iter object).toListHeap = h.toListHeap := by
  have hnext := hl.alone iter hnone
  have hprev := hl.prev_eq hnext
  have h1 : update h.next (.item iter) (.item iter) = h.next := by
    rw [update_eq_iff]
    exact ⟨hnext.symm, fun _ _ => rfl⟩
  have h2 : update h.prev (.item iter) (.item iter) = h.prev := by
    rw [update_eq_iff]
    exact ⟨hprev.symm, fun _ _ => rfl⟩
  have h3 : update h.head (.item iter) none = h.head := by
    rw [← hnone, update_eq_self]
  simp [IterHeap.iterNew, h1, h2, h3]

omit [DecidableEq L] [DecidableEq I] in
theorem IterListed.notMem (hl : IterListed cls h t) (hnone : h.head (.item iter) = none)
    (list : L) : iter ∉ t.seq list := by
  rw [← hl.listed.linked.head_item, hnone]
  simp

omit [DecidableEq L] in
theorem IterListed.seq_erase (hl : IterListed cls h t) (hnone : h.head (.item iter) = none) :
    (fun other => (t.seq other).erase iter) = t.seq := by
  funext other
  exact erase_of_not_mem (hl.notMem hnone other)

/-- An iterator has been made for an object and put somewhere into a list. -/
theorem IterListed.added (hl : IterListed cls h t) {h' : IterHeap L I O} {seq : List I}
    (hseq : ∀ x, x ∈ seq ↔ x = iter ∨ x ∈ t.seq list)
    (hlisted : Listed cls h'.toListHeap (update t.seq list seq))
    (hobject : h'.object = update h.object (.item iter) (some object))
    (hallocated : h'.allocated = update h.allocated (.item iter) true) :
    IterListed cls h' ⟨update t.seq list seq, update t.object iter (some object)⟩ := by
  refine ⟨hlisted, fun x hx => ?_, fun x hx => ?_⟩
  · rw [hallocated] at hx
    rw [hobject]
    by_cases hxi : x = iter
    · simp [hxi]
    · rw [update_of_ne (by simpa using hxi)] at hx
      simp [hxi, hl.object x hx]
  · rw [hallocated] at hx
    have hxi : x ≠ iter := by
      rintro rfl
      simp at hx
    rw [update_of_ne (by simpa using hxi)] at hx
    cases hhead : h'.head (.item x) with
    | none => rfl
    | some other =>
      have hmem := (hlisted.linked.head_item x other).mp hhead
      by_cases ho : other = list
      · subst ho
        simp only [update_self, hseq, hxi, false_or] at hmem
        exact absurd hmem (hl.notMem (hl.free x hx) other)
      · simp only [update_of_ne ho] at hmem
        exact absurd hmem (hl.notMem (hl.free x hx) other)

theorem Linked.enter_of_none {h : ListHeap L I} {t : L → List I} (hl : Linked h t)
    (list : L) (hnone : h.head (.item iter) = none) :
    ∃ h', h.enter cls (some list) iter = some h' ∧ h'.unhook (.item iter) = h' ∧
      h' = if cls.count then h.countUp list else h := by
  by_cases hc : cls.count
  · have hlinked : Linked (h.countUp list) t := { hl with }
    refine ⟨h.countUp list, by simp [ListHeap.enter, hnone, hc], ?_, by simp [hc]⟩
    exact hlinked.unhook_of_none hnone
  · refine ⟨h, by simp [ListHeap.enter, hnone, hc], ?_, by simp [hc]⟩
    exact hl.unhook_of_none hnone

theorem Linked.counted (hl : Linked h.toListHeap t.seq) (hnone : h.head (.item iter) = none) :
    ((h.iterNew iter object).countUp cls list).toListHeap =
      if cls.count then h.toListHeap.countUp list else h.toListHeap := by
  have hnew := hl.iterNew hnone object
  unfold countUp
  split <;> simp [hnew]

theorem IterHeap.push_object (h : IterHeap L I O) (cls : ListClass) (list : L) (object : O)
    (iter : I) : (h.push cls list object iter).object =
      update h.object (.item iter) (some object) := by
  unfold push countUp
  split <;> rfl

theorem IterHeap.queue_object (h : IterHeap L I O) (cls : ListClass) (list : L) (object : O)
    (iter : I) : (h.queue cls list object iter).object =
      update h.object (.item iter) (some object) := by
  unfold queue countUp
  split <;> rfl

theorem IterListed.push (hl : IterListed cls h t) (hfree : h.allocated (.item iter) = false)
    (hroom : cls.count → h.count list ≠ 4294967295) :
    IterListed cls (h.push cls list object iter) ((IterOp.push list object iter).apply t).1 := by
  have hnone := hl.free iter hfree
  obtain ⟨h1, henter, hunhook, hcount⟩ := hl.listed.linked.enter_of_none list hnone
  have hlegal : h.head (.item iter) = none ∨ h.head (.item iter) = some list := Or.inl hnone
  obtain ⟨h', hpush, hlisted⟩ := hl.listed.push hlegal fun hc _ => hroom hc
  rw [hl.seq_erase hnone, erase_of_not_mem (hl.notMem hnone list)] at hlisted
  have hsame : (h.push cls list object iter).toListHeap = h' := by
    rw [ListHeap.push, henter, map_some, hunhook, some.injEq] at hpush
    rw [← hpush, hcount, ← hl.listed.linked.counted hnone]
    rfl
  refine hl.added (by simp) (hsame ▸ hlisted) (h.push_object cls list object iter) ?_
  unfold IterHeap.push IterHeap.countUp
  split <;> rfl

theorem IterListed.queue (hl : IterListed cls h t) (hfree : h.allocated (.item iter) = false)
    (hroom : cls.count → h.count list ≠ 4294967295) :
    IterListed cls (h.queue cls list object iter) ((IterOp.queue list object iter).apply t).1 := by
  have hnone := hl.free iter hfree
  obtain ⟨h1, henter, hunhook, hcount⟩ := hl.listed.linked.enter_of_none list hnone
  have hlegal : h.head (.item iter) = none ∨ h.head (.item iter) = some list := Or.inl hnone
  obtain ⟨h', hqueue, hlisted⟩ := hl.listed.queue hlegal fun hc _ => hroom hc
  rw [hl.seq_erase hnone, erase_of_not_mem (hl.notMem hnone list)] at hlisted
  have hsame : (h.queue cls list object iter).toListHeap = h' := by
    rw [ListHeap.queue, henter, map_some, hunhook, some.injEq] at hqueue
    rw [← hqueue, hcount, ← hl.listed.linked.counted hnone]
    rfl
  refine hl.added (by simp [or_comm]) (hsame ▸ hlisted) (h.queue_object cls list object iter) ?_
  unfold IterHeap.queue IterHeap.countUp
  split <;> rfl

theorem IterListed.pop (hl : IterListed cls h t) (list : L) :
    (h.pop cls list).2 = (t.seq list).head?.bind t.object ∧
      IterListed cls (h.pop cls list).1 ((IterOp.pop list).apply t).1 := by
  obtain ⟨-, hlisted⟩ := hl.listed.pop list
  have hnext := hl.listed.linked.next_child list
  cases ht : t.seq list with
  | nil =>
    rw [ht] at hnext
    have hsame : update t.seq list (t.seq list).tail = t.seq := by
      rw [ht, tail_nil, ← ht, update_eq_self]
    have hpop : h.pop cls list = (h, none) := by
      simp [IterHeap.pop, show h.next (.child list) = .child list from hnext]
    refine ⟨by simp [hpop], ?_⟩
    show IterListed cls _ ⟨update t.seq list (t.seq list).tail, t.object⟩
    rw [hpop, hsame]
    exact hl
  | cons iter l =>
    rw [ht, map_cons, headD_cons] at hnext
    have hmem : iter ∈ t.seq list := by simp [ht]
    have hheap : (h.pop cls list).1.toListHeap = (h.toListHeap.pop cls list).1 := by
      have hnone : (if cls.count then (h.unhook (.item iter)).countDown list
          else h.unhook (.item iter)).head (.item iter) = none := by
        split <;> simp [ListHeap.unhook, ListHeap.countDown]
      simp [IterHeap.pop, ListHeap.pop, IterHeap.iterDestroy, hnext, ListHeap.remove, hnone]
    have hobject : (h.pop cls list).1.object = update h.object (.item iter) none := by
      simp [IterHeap.pop, IterHeap.iterDestroy, hnext]
    have hallocated : (h.pop cls list).1.allocated = update h.allocated (.item iter) false := by
      simp [IterHeap.pop, IterHeap.iterDestroy, hnext]
    refine ⟨?_, hheap ▸ hlisted, fun x hx => ?_, fun x hx => ?_⟩
    · simp [IterHeap.pop, hnext, hl.object iter (hl.allocated hmem)]
    · rw [hallocated] at hx
      have hxi : x ≠ iter := by
        rintro rfl
        simp at hx
      rw [update_of_ne (by simpa using hxi)] at hx
      rw [hobject, update_of_ne (by simpa using hxi)]
      exact hl.object x hx
    · rw [hallocated] at hx
      cases hhead : (h.pop cls list).1.head (.item x) with
      | none => rfl
      | some other =>
        rw [hheap, hlisted.linked.head_item] at hhead
        have hold : x ∈ t.seq other ∧ x ≠ iter := by
          by_cases ho : other = list
          · subst ho
            have hnodup := hl.listed.linked.nodup other
            rw [ht] at hnodup
            rw [update_self, ht, tail_cons] at hhead
            refine ⟨by simp [ht, hhead], ?_⟩
            rintro rfl
            exact (nodup_cons.mp hnodup).1 hhead
          · rw [update_of_ne ho] at hhead
            refine ⟨hhead, ?_⟩
            rintro rfl
            rw [← hl.listed.linked.head_item] at hhead hmem
            exact ho (some.inj (hhead.symm.trans hmem))
        rw [update_of_ne (by simpa using hold.2)] at hx
        exact absurd hold.1 (hl.notMem (hl.free x hx) other)

/-- A call on the heap answers as the one on sequences, and keeps them listed. -/
theorem IterListed.step (hl : IterListed cls h t) {op : IterOp L I O} (hlegal : h.Legal op)
    (hsound : h.Sound cls op) :
    ∃ h', h.step cls op = some (h', (op.apply t).2) ∧ IterListed cls h' (op.apply t).1 := by
  cases op with
  | push list object iter => exact ⟨_, rfl, hl.push hlegal hsound⟩
  | queue list object iter => exact ⟨_, rfl, hl.queue hlegal hsound⟩
  | pop list =>
    obtain ⟨hobject, hl'⟩ := hl.pop list
    exact ⟨_, by rw [IterHeap.step, hobject]; rfl, hl'⟩
  | relinkBefore iter whereIter =>
    obtain ⟨hallocated, hlegal⟩ := hlegal
    obtain ⟨heap, hstep, hlisted⟩ := hl.listed.step hlegal hsound
    have hrelink : h.toListHeap.relinkBefore cls iter whereIter = some heap := by
      rw [ListHeap.step, map_eq_some_iff] at hstep
      obtain ⟨heap', hrelink, heq⟩ := hstep
      rw [hrelink, (Prod.mk.inj heq).1]
    refine ⟨{ h with toListHeap := heap }, by simp [IterHeap.step, IterHeap.relinkBefore, hrelink,
      IterOp.apply], hlisted, hl.object, fun x hx => ?_⟩
    cases hhead : heap.head (.item x) with
    | none => rfl
    | some other =>
      have hxi : x ≠ iter := by
        rintro rfl
        rw [show h.allocated (.item x) = false from hx] at hallocated
        cases hallocated
      have hmem := (hlisted.linked.head_item x other).mp hhead
      have hold : x ∈ t.seq other := by
        by_cases hne : iter = whereIter
        · simpa [ListOp.apply, hne] using hmem
        · simp only [ListOp.apply, if_neg hne] at hmem
          exact mem_of_mem_erase ((mem_insertBefore hmem).resolve_left hxi)
      exact absurd hold (hl.notMem (hl.free x hx) other)
  | remove iter =>
    have hlisted := hl.listed.remove iter
    refine ⟨_, rfl, hlisted, hl.object, fun x hx => ?_⟩
    cases hhead : (h.remove cls iter).head (.item x) with
    | none => rfl
    | some other =>
      have hmem := (hlisted.linked.head_item x other).mp hhead
      exact absurd (mem_of_mem_erase hmem) (hl.notMem (hl.free x hx) other)

theorem Walks.room {h' : ListHeap L I} {t' : L → List I} (hw : Walks cls h' t')
    (hmem : iter ∈ t' list) (hcount : cls.count → h'.count list = h.count list + 1) :
    cls.count → h.count list ≠ 4294967295 := by
  intro hc hmax
  refine hw.count_ne_zero hc hmem ?_
  rw [hcount hc, hmax]
  rfl

theorem IterListed.sound_of_walks (hl : IterListed cls h t) {op : IterOp L I O}
    (hlegal : h.Legal op) {h' : IterHeap L I O} {out : List (Option O)}
    (hstep : h.step cls op = some (h', out)) (hw : IterWalks cls h' (op.apply t).1) :
    h.Sound cls op := by
  cases op with
  | pop | remove => trivial
  | push list object iter =>
    rw [IterHeap.step, some.injEq] at hstep
    obtain rfl := (Prod.mk.inj hstep).1
    have hmem : iter ∈ ((IterOp.push list object iter).apply t).1.seq list := by simp [IterOp.apply]
    refine hw.walks.room hmem ?_
    intro hc
    simp [IterHeap.push, IterHeap.countUp, IterHeap.iterNew, ListHeap.rehook, ListHeap.countUp, hc]
  | queue list object iter =>
    rw [IterHeap.step, some.injEq] at hstep
    obtain rfl := (Prod.mk.inj hstep).1
    have hmem : iter ∈ ((IterOp.queue list object iter).apply t).1.seq list := by
      simp [IterOp.apply]
    refine hw.walks.room hmem ?_
    intro hc
    simp [IterHeap.queue, IterHeap.countUp, IterHeap.iterNew, ListHeap.rehook, ListHeap.countUp, hc]
  | relinkBefore iter whereIter =>
    obtain ⟨-, hlegal⟩ := hlegal
    simp only [IterHeap.step, IterHeap.relinkBefore, Option.map_map,
      Option.map_eq_some_iff] at hstep
    obtain ⟨heap, hrelink, heq⟩ := hstep
    obtain rfl := (Prod.mk.inj heq).1
    have hplain : h.toListHeap.step cls (.relinkBefore iter whereIter) = some (heap, []) := by
      rw [ListHeap.step, hrelink]
      rfl
    exact hl.listed.sound_of_walks hlegal hplain hw.walks

/-- The lists are the sequences, and the calls have returned the same. -/
def IterAgrees (cls : ListClass) (s : IterHeap L I O × List (Option O))
    (t : IterSeqs L I O × List (Option O)) : Prop :=
  IterWalks cls s.1 t.1 ∧ s.2 = t.2

/-- The sequences after a call, and all that has been returned. -/
def IterOp.logged (s : IterSeqs L I O × List (Option O)) (op : IterOp L I O) :
    IterSeqs L I O × List (Option O) :=
  ((op.apply s.1).1, s.2 ++ (op.apply s.1).2)

end Sequences

section Runs

variable [DecidableEq L] [DecidableEq A] [DecidableEq I] {cls : ListClass}

theorem ListHeap.sequential_iff {calls : List (ListOp L A)}
    (hlegal : Along (logged (ListHeap.step cls)) (fun s op => s.1.Legal op)
      (ListHeap.new, []) calls) :
    (∀ before, before <+: calls →
      ∃ s, run (logged (ListHeap.step cls)) (ListHeap.new, []) before = some s ∧
        Agrees cls s (before.foldl ListOp.logged (fun _ => [], []))) ↔
    Along (logged (ListHeap.step cls)) (fun s op => s.1.Sound cls op) (ListHeap.new, []) calls := by
  refine run_prefixes_iff_of_legal (R := fun (s : ListHeap L A × List (Option (ListNode L A)))
      (t : (L → List A) × List (Option A)) =>
      Listed cls s.1 t.1 ∧ s.2 = t.2.map (Option.map .item))
    (fun s t hR => ⟨hR.1.walks, hR.2⟩) ?_ ?_ ⟨listed_new cls, rfl⟩ hlegal
  · intro s t op hR hop hsound
    obtain ⟨h', hstep, hl'⟩ := hR.1.step hop hsound
    exact ⟨_, by rw [logged, hstep]; rfl, hl', by simp [ListOp.logged, hR.2]⟩
  · intro s t op s' hR hop hs hG
    obtain ⟨out, hstep, -⟩ := logged_eq_some hs
    exact hR.1.sound_of_walks hop hstep hG.1

theorem IterHeap.sequential_iff {calls : List (IterOp L I O)}
    (hlegal : Along (logged (step cls)) (fun s op => s.1.Legal op) (new, []) calls) :
    (∀ before, before <+: calls → ∃ s, run (logged (step cls)) (new, []) before = some s ∧
        IterAgrees cls s (before.foldl IterOp.logged (⟨fun _ => [], fun _ => none⟩, []))) ↔
    Along (logged (step cls)) (fun s op => s.1.Sound cls op) (new, []) calls := by
  refine run_prefixes_iff_of_legal
    (R := fun (s : IterHeap L I O × List (Option O)) (t : IterSeqs L I O × List (Option O)) =>
      IterListed cls s.1 t.1 ∧ s.2 = t.2)
    (fun s t hR => ⟨hR.1.walks, hR.2⟩) ?_ ?_ ⟨iterListed_new cls, rfl⟩ hlegal
  · intro s t op hR hop hsound
    obtain ⟨h', hstep, hl'⟩ := hR.1.step hop hsound
    exact ⟨_, by rw [logged, hstep]; rfl, hl', by simp [IterOp.logged, hR.2]⟩
  · intro s t op s' hR hop hs hG
    obtain ⟨out, hstep, -⟩ := logged_eq_some hs
    exact hR.1.sound_of_walks hop hstep hG.1

/--
From lists as they have been created, whatever methods are called in whatever order, after each
call the lists are the sequences that the calls so far define, and every `pop` has returned the
first of a sequence, exactly when none of the calls puts an item before itself and no counted list
goes over the 32 bits of its count. The same holds of the lists of iterators.
-/
theorem lists_sequential_iff (cls : ListClass) (calls : List (ListOp L A))
    (iterCalls : List (IterOp L I O))
    (hlegal : Along (logged (ListHeap.step cls)) (fun s op => s.1.Legal op)
      (ListHeap.new, []) calls)
    (hiterLegal : Along (logged (step cls)) (fun s op => s.1.Legal op) (new, []) iterCalls) :
    ((∀ before, before <+: calls →
        ∃ s, run (logged (ListHeap.step cls)) (ListHeap.new, []) before = some s ∧
          Agrees cls s (before.foldl ListOp.logged (fun _ => [], []))) ↔
      Along (logged (ListHeap.step cls)) (fun s op => s.1.Sound cls op) (ListHeap.new, []) calls) ∧
    ((∀ before, before <+: iterCalls → ∃ s, run (logged (step cls)) (new, []) before = some s ∧
          IterAgrees cls s (before.foldl IterOp.logged (⟨fun _ => [], fun _ => none⟩, []))) ↔
      Along (logged (step cls)) (fun s op => s.1.Sound cls op) (new, []) iterCalls) :=
  ⟨ListHeap.sequential_iff hlegal, sequential_iff hiterLegal⟩

end Runs

section Samples

/-- Items that go through two lists, and come first and last in one of them. -/
def sampleCalls : List (ListOp Bool Nat) :=
  [.queue true 1, .push true 2, .queue true 2, .relinkBefore 2 1, .pop true, .queue false 2]

/-- An object that is in a list twice. -/
def sampleIterCalls : List (IterOp Bool Nat Nat) :=
  [.queue true 7 1, .push true 7 2, .relinkBefore 1 2, .pop true, .pop true]

theorem lists_sequential_sample :
    (∃ s, run (logged (ListHeap.step ⟨true⟩)) (ListHeap.new, []) sampleCalls = some s ∧
      Agrees ⟨true⟩ s (sampleCalls.foldl ListOp.logged (fun _ => [], []))) ∧
    ∃ s, run (logged (step ⟨true⟩)) (new, []) sampleIterCalls = some s ∧
      IterAgrees ⟨true⟩ s (sampleIterCalls.foldl IterOp.logged
        (⟨fun _ => [], fun _ => none⟩, [])) := by
  obtain ⟨hlists, hiters⟩ :=
    lists_sequential_iff ⟨true⟩ sampleCalls sampleIterCalls (by decide) (by decide)
  exact ⟨hlists.mpr (by decide) _ prefix_rfl, hiters.mpr (by decide) _ prefix_rfl⟩

/-- The only item of a list, put before itself, is in no list, but it is still counted. -/
theorem relinkBefore_self_loses : Along (logged (ListHeap.step ⟨true⟩)) (fun s op => s.1.Legal op)
      ((ListHeap.new : ListHeap Bool Nat), []) [.queue true 1, .relinkBefore 1 1] ∧
    (∃ s, run (logged (ListHeap.step ⟨true⟩)) ((ListHeap.new : ListHeap Bool Nat), [])
        [.queue true 1, .relinkBefore 1 1] = some s ∧
      s.1.first true = none ∧ s.1.head (.item 1) = none ∧ s.1.count true = 1) ∧
    ¬ ∀ before, before <+: [.queue true 1, .relinkBefore 1 1] →
      ∃ s, run (logged (ListHeap.step ⟨true⟩)) ((ListHeap.new : ListHeap Bool Nat), []) before =
          some s ∧
        Agrees ⟨true⟩ s (before.foldl ListOp.logged (fun _ => [], [])) := by
  have hlost : ∃ s, run (logged (ListHeap.step ⟨true⟩)) ((ListHeap.new : ListHeap Bool Nat), [])
        [.queue true 1, .relinkBefore 1 1] = some s ∧
      s.1.first true = none ∧ s.1.head (.item 1) = none ∧ s.1.count true = 1 :=
    ⟨_, rfl, by decide, by decide, by decide⟩
  refine ⟨by decide, hlost, fun hall => ?_⟩
  obtain ⟨s, hrun, -, hhead, -⟩ := hlost
  obtain ⟨s', hrun', hagrees⟩ := hall _ prefix_rfl
  obtain rfl := some.inj (hrun.symm.trans hrun')
  have hlisted := (hagrees.1.head 1 true).mpr (by decide)
  rw [hhead] at hlisted
  cases hlisted

end Samples

end OpenAmq
