import OpenAmq.Lib.Ring
import OpenAmq.Lib.Run

/-!
# Lists

The lists that `icl_list_head` generates for a class of items: rings of items, each closed by an
item that is part of the list object itself. The links that count references to an item are left
out, they only decide when an item is freed.

* `ListHeap` — the pointers of all items and lists of a class, and the counts
* `ListHeap.push`, `pop`, `queue`, `relinkBefore`, `remove` — the methods, `none` for a fault
* `Linked` — the pointers form the sequences
-/

namespace OpenAmq

open Lib List Function

/-- An item, or the child object that a list starts with. -/
inductive ListNode (L A : Type*) where
  | child (list : L)
  | item (item : A)
deriving DecidableEq

/-- The option of a list class that its methods test. -/
structure ListClass where
  count : Bool

/-- The pointers of the items and of the child objects of lists, and the counts of the lists. -/
structure ListHeap (L A : Type*) where
  next : ListNode L A → ListNode L A
  prev : ListNode L A → ListNode L A
  head : ListNode L A → Option L
  count : L → UInt32

variable {L A : Type*}

namespace ListHeap

/-- All lists and all items as they have been created. -/
def new : ListHeap L A where
  next x := x
  prev x := x
  head
    | .child list => some list
    | .item _ => none
  count _ := 0

variable [DecidableEq L] [DecidableEq A]

/-! ## The links -/

def rehook (self : ListHeap L A) (item left right : ListNode L A) : ListHeap L A :=
  { self with
    next := exchange self.next left item
    prev := exchange self.prev item right
    head := update self.head item (self.head left) }

def unhook (self : ListHeap L A) (item : ListNode L A) : ListHeap L A :=
  let hooked := self.rehook item (self.prev item) (self.next item)
  { hooked with head := update hooked.head item none }

def countUp (self : ListHeap L A) (list : L) : ListHeap L A :=
  { self with count := update self.count list (self.count list + 1) }

def countDown (self : ListHeap L A) (list : L) : ListHeap L A :=
  { self with count := update self.count list (self.count list - 1) }

/-! ## The methods -/

/--
What `push`, `queue` and `relink before` begin with: an item that is not listed is counted, one in
another list fails the assertion.
-/
def enter (cls : ListClass) (self : ListHeap L A) (list : Option L) (item : A) :
    Option (ListHeap L A) :=
  match self.head (.item item) with
  | none =>
    if cls.count then list.map self.countUp else some self
  | some head => if some head = list then some self else none

def push (cls : ListClass) (self : ListHeap L A) (list : L) (item : A) : Option (ListHeap L A) :=
  (self.enter cls (some list) item).map fun self =>
    let self := self.unhook (.item item)
    self.rehook (.item item) (.child list) (self.next (.child list))

/-- `pop`, with the item that it returns -/
def pop (cls : ListClass) (self : ListHeap L A) (list : L) : ListHeap L A × Option (ListNode L A) :=
  if self.next (.child list) = .child list then (self, none)
  else
    let item := self.next (.child list)
    let self := self.unhook item
    (if cls.count then self.countDown list else self, some item)

def queue (cls : ListClass) (self : ListHeap L A) (list : L) (item : A) : Option (ListHeap L A) :=
  (self.enter cls (some list) item).map fun self =>
    let self := self.unhook (.item item)
    self.rehook (.item item) (self.prev (.child list)) (.child list)

/-- `relink before`, where the list is the one that `whereItem` is in -/
def relinkBefore (cls : ListClass) (self : ListHeap L A) (item whereItem : A) :
    Option (ListHeap L A) :=
  (self.enter cls (self.head (.item whereItem)) item).map fun self =>
    let self := self.unhook (.item item)
    self.rehook (.item item) (self.prev (.item whereItem)) (.item whereItem)

def remove (cls : ListClass) (self : ListHeap L A) (item : ListNode L A) : ListHeap L A :=
  match self.head item with
  | none => self
  | some list =>
    let self := self.unhook item
    if cls.count then self.countDown list else self

def first (self : ListHeap L A) (list : L) : Option (ListNode L A) :=
  if self.next (.child list) = .child list then none else some (self.next (.child list))

def last (self : ListHeap L A) (list : L) : Option (ListNode L A) :=
  if self.prev (.child list) = .child list then none else some (self.prev (.child list))

/-- The node after an item in the direction of `link`, none at the child object of its list. -/
def cursor (self : ListHeap L A) (link : ListNode L A → ListNode L A) (item : ListNode L A) :
    Option (ListNode L A) :=
  match self.head item with
  | none => none
  | some list => if link item = .child list then none else some (link item)

/-- The method `next` -/
def following (self : ListHeap L A) : ListNode L A → Option (ListNode L A) :=
  self.cursor self.next

/-- The method `prev` -/
def preceding (self : ListHeap L A) : ListNode L A → Option (ListNode L A) :=
  self.cursor self.prev

end ListHeap

/-! ## The sequences -/

/-- The child object of a list and the items of its sequence. -/
def ring (t : L → List A) (list : L) : List (ListNode L A) :=
  .child list :: (t list).map .item

/-- The rings are those of the sequences, and an item that is not listed leads to itself. -/
structure Linked (h : ListHeap L A) (t : L → List A) : Prop where
  inverse : Inverse h.next h.prev
  path : ∀ list, Path h.next (.child list) ((t list).map .item) (.child list)
  nodup : ∀ list, (t list).Nodup
  head_child : ∀ list, h.head (.child list) = some list
  head_item : ∀ item list, h.head (.item item) = some list ↔ item ∈ t list
  alone : ∀ item, h.head (.item item) = none → h.next (.item item) = .item item

theorem linked_new : Linked (ListHeap.new : ListHeap L A) fun _ => [] where
  inverse := inverse_id
  path _ := rfl
  nodup _ := nodup_nil
  head_child _ := rfl
  head_item _ _ := by simp [ListHeap.new]
  alone _ _ := rfl

variable {h : ListHeap L A} {t : L → List A} {list other : L} {item : A} {l1 l2 : List A}

variable {x : ListNode L A}

theorem Linked.mem_ring (hl : Linked h t) : x ∈ ring t list ↔ h.head x = some list := by
  cases x with
  | child other => simp [ring, hl.head_child]
  | item item => simp [ring, hl.head_item]

theorem Linked.nodup_ring (hl : Linked h t) (list : L) : (ring t list).Nodup := by
  refine nodup_cons.mpr ⟨by simp, (hl.nodup list).map ?_⟩
  intro a b hab
  exact ListNode.item.inj hab

theorem Linked.notMem_ring (hl : Linked h t) (hx : x ∈ ring t list) (hne : other ≠ list) :
    x ∉ ring t other := by
  intro hother
  rw [hl.mem_ring] at hx hother
  exact hne (Option.some.inj (hother.symm.trans hx))

theorem Linked.notMem_ring_of_none (hl : Linked h t) (hx : h.head x = none) : x ∉ ring t list := by
  rw [hl.mem_ring, hx]
  simp

/-- The last item before a place in a sequence, or the child object. -/
def leftOf (list : L) (before : List A) : ListNode L A :=
  (ListNode.child list :: before.map .item).getLast (cons_ne_nil _ _)

theorem leftOf_mem (ht : t list = l1 ++ l2) : leftOf list l1 ∈ ring t list := by
  have hmem := getLast_mem (cons_ne_nil (ListNode.child list) (l1.map .item))
  rw [ring, ht, map_append]
  exact mem_append_left _ hmem

theorem Linked.next_leftOf (hl : Linked h t) (ht : t list = l1 ++ item :: l2) :
    h.next (leftOf list l1) = .item item := by
  have hpath := hl.path list
  rw [ht, map_append, map_cons] at hpath
  exact hpath.next_getLast

theorem Linked.next_leftOf_end (hl : Linked h t) (list : L) :
    h.next (leftOf list (t list)) = .child list :=
  (hl.path list).next_getLast_end

theorem Linked.next_child (hl : Linked h t) (list : L) :
    h.next (.child list) = ((t list).map ListNode.item).headD (.child list) := by
  have hpath := hl.path list
  cases ht : t list with
  | nil =>
    rw [ht] at hpath
    exact hpath
  | cons a l =>
    rw [ht] at hpath
    exact hpath.1

theorem Linked.prev_eq (hl : Linked h t) {y : ListNode L A} (hx : h.next x = y) : h.prev y = x :=
  hl.inverse.next_eq_iff.mp hx

section Swap

variable [DecidableEq L] [DecidableEq A]

theorem Linked.unhook (hl : Linked h t) (item : A) :
    Linked (h.unhook (.item item)) fun list => (t list).erase item := by
  have hhead : ∀ x, (h.unhook (.item item)).head x = if x = .item item then none else h.head x := by
    intro x
    by_cases hx : x = .item item <;> simp [ListHeap.unhook, ListHeap.rehook, hx]
  refine ⟨?_, fun list => ?_, fun list => (hl.nodup list).erase item, fun list => ?_,
    fun other list => ?_, fun other hother => ?_⟩
  · exact hl.inverse.exchange (Or.inl ⟨hl.inverse.next_prev _, rfl⟩)
  · show Path (exchange h.next (h.prev (.item item)) (.item item)) _ _ _
    by_cases hmem : item ∈ t list
    · obtain ⟨l1, l2, ht⟩ := append_of_mem hmem
      have hpath := hl.path list
      have hnodup := hl.nodup_ring list
      rw [ring] at hnodup
      rw [ht, map_append, map_cons] at hpath hnodup
      have hnot : item ∉ l1 := by
        have hnd := hl.nodup list
        rw [ht] at hnd
        exact fun h1 => disjoint_of_nodup_append hnd h1 mem_cons_self
      rw [hl.prev_eq (hl.next_leftOf ht), ht, erase_append_right _ hnot,
        erase_cons_head, map_append]
      exact hpath.remove hnodup
    · rw [erase_of_not_mem hmem]
      have hitem : ListNode.item item ∉ ring t list := by
        rwa [hl.mem_ring, hl.head_item]
      by_cases hnone : h.head (.item item) = none
      · rw [hl.prev_eq (hl.alone item hnone), exchange_self]
        exact hl.path list
      · obtain ⟨owner, howner⟩ := Option.ne_none_iff_exists'.mp hnone
        obtain ⟨l1, l2, ht⟩ := append_of_mem ((hl.head_item item owner).mp howner)
        rw [hl.prev_eq (hl.next_leftOf ht)]
        refine (hl.path list).exchange_other hitem (hl.notMem_ring (leftOf_mem ht) ?_)
        rintro rfl
        exact hitem (hl.mem_ring.mpr howner)
  · rw [hhead, if_neg (by simp), hl.head_child]
  · rw [hhead, (hl.nodup list).mem_erase_iff]
    by_cases hne : other = item
    · simp [hne]
    · simp [hne, hl.head_item]
  · rw [hhead] at hother
    show exchange h.next (h.prev (.item item)) (.item item) (.item other) = _
    by_cases hne : other = item
    · rw [hne, exchange_right, hl.inverse.next_prev]
    · rw [if_neg (by simpa using hne)] at hother
      have halone := hl.alone other hother
      refine (exchange_of_ne ?_ (by simpa using hne)).trans halone
      intro hprev
      have hnext := hl.inverse.next_prev (.item item)
      rw [← hprev, halone] at hnext
      exact hne (ListNode.item.inj hnext)

theorem Linked.rehook (hl : Linked h t) (hitem : h.head (.item item) = none)
    (ht : t list = l1 ++ l2) :
    Linked (h.rehook (.item item) (leftOf list l1) (h.next (leftOf list l1)))
      (update t list (l1 ++ item :: l2)) := by
  have hmem := leftOf_mem ht
  have hnot : ∀ other, item ∉ t other := by
    intro other hother
    rw [← hl.head_item, hitem] at hother
    cases hother
  have hhead : ∀ x, (h.rehook (.item item) (leftOf list l1) (h.next (leftOf list l1))).head x =
      if x = .item item then some list else h.head x := by
    intro x
    by_cases hx : x = .item item <;> simp [ListHeap.rehook, hx, hl.mem_ring.mp hmem]
  have hnd : (l1 ++ item :: l2).Nodup := by
    have hnodup := hl.nodup list
    have hnew := hnot list
    rw [ht] at hnodup hnew
    exact (perm_middle.nodup_iff).mpr (nodup_cons.mpr ⟨hnew, hnodup⟩)
  refine ⟨?_, fun other => ?_, fun other => ?_, fun other => ?_, fun other owner => ?_,
    fun other hother => ?_⟩
  · exact hl.inverse.exchange (Or.inr ⟨rfl, hl.alone item hitem⟩)
  · show Path (exchange h.next (leftOf list l1) (.item item)) _ _ _
    by_cases hne : other = list
    · subst hne
      have hpath := hl.path other
      rw [ht, map_append] at hpath
      rw [update_self, map_append, map_cons]
      refine hpath.insert (hl.alone item hitem) (nodup_cons.mpr ⟨by simp, ?_⟩)
      rw [← map_cons, ← map_append]
      exact hnd.map fun a b hab => ListNode.item.inj hab
    · rw [update_of_ne hne]
      exact (hl.path other).exchange_other (hl.notMem_ring_of_none hitem) (hl.notMem_ring hmem hne)
  · by_cases hne : other = list
    · rw [hne, update_self]
      exact hnd
    · rw [update_of_ne hne]
      exact hl.nodup other
  · rw [hhead, if_neg (by simp), hl.head_child]
  · rw [hhead]
    by_cases hne : owner = list
    · subst hne
      by_cases ho : other = item
      · simp [ho]
      · simp [ho, hl.head_item, ht]
    · rw [update_of_ne hne]
      by_cases ho : other = item
      · simp [ho, hnot, Ne.symm hne]
      · simp [ho, hl.head_item]
  · rw [hhead] at hother
    by_cases ho : other = item
    · simp [ho] at hother
    · rw [if_neg (by simpa using ho)] at hother
      refine (exchange_of_ne ?_ (by simpa using ho)).trans (hl.alone other hother)
      rintro hleft
      rw [← hleft] at hmem
      exact hl.notMem_ring_of_none hother hmem

end Swap

end OpenAmq
