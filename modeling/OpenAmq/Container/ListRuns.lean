import OpenAmq.Container.List

/-!
# Lists as sequences

Whatever methods are called on the lists and items of a class, in any order, each list walks like
the sequence that these calls describe, in both directions. An item that is put before itself is
lost: it has been unhooked when its own neighbours are read.

* `ListOp.apply` — what they do to the sequences
* `Walks`, `Agrees` — the lists are the sequences
* `Listed` — what all calls keep
* `Listed.step`, `Listed.sound_of_walks` — which calls keep the lists the sequences
-/

namespace OpenAmq

open Lib List Function Option

variable {L A : Type*}

/-! ## Calls -/

/-- A call of a method, for an item in at most one list. -/
inductive ListOp (L A : Type*) where
  | push (list : L) (item : A)
  | pop (list : L)
  | queue (list : L) (item : A)
  | relinkBefore (item whereItem : A)
  | remove (item : A)
deriving DecidableEq

section Step

variable [DecidableEq L] [DecidableEq A]

/-- A call, with the item that `pop` returns; `none` when an assertion fails. -/
def ListHeap.step (cls : ListClass) (self : ListHeap L A) :
    ListOp L A → Option (ListHeap L A × List (Option (ListNode L A)))
  | .push list item => (self.push cls list item).map fun self => (self, [])
  | .pop list => some ((self.pop cls list).1, [(self.pop cls list).2])
  | .queue list item => (self.queue cls list item).map fun self => (self, [])
  | .relinkBefore item whereItem => (self.relinkBefore cls item whereItem).map fun self =>
    (self, [])
  | .remove item => some (self.remove cls (.item item), [])

end Step

/-- An item is put into a list only while it is in no other, and before an item that is listed. -/
def ListHeap.Legal (self : ListHeap L A) : ListOp L A → Prop
  | .push list item | .queue list item =>
    self.head (.item item) = none ∨ self.head (.item item) = some list
  | .relinkBefore item whereItem =>
    self.head (.item whereItem) ≠ none ∧
      (self.head (.item item) = none ∨ self.head (.item item) = self.head (.item whereItem))
  | .pop _ | .remove _ => True

instance [DecidableEq L] (self : ListHeap L A) (op : ListOp L A) : Decidable (self.Legal op) :=
  match op with
  | .push _ _ | .queue _ _ => inferInstanceAs (Decidable (_ ∨ _))
  | .relinkBefore _ _ => inferInstanceAs (Decidable (_ ∧ _))
  | .pop _ | .remove _ => .isTrue trivial

/-! ## What calls mean -/

variable {whereItem : A} {h' : ListHeap L A}

section Sequences

variable [DecidableEq L] [DecidableEq A]

/-- A sequence with `item` put before `whereItem`. -/
def insertBefore (item whereItem : A) : List A → List A
  | [] => []
  | x :: l => if x = whereItem then item :: x :: l else x :: insertBefore item whereItem l

variable {item : A}

theorem insertBefore_append {l1 l2 : List A} (h : whereItem ∉ l1) :
    insertBefore item whereItem (l1 ++ whereItem :: l2) = l1 ++ item :: whereItem :: l2 := by
  induction l1 with
  | nil => simp [insertBefore]
  | cons x l1 ih =>
    rw [mem_cons, not_or] at h
    simp [insertBefore, Ne.symm h.1, ih h.2]

theorem insertBefore_of_notMem {l : List A} (h : whereItem ∉ l) :
    insertBefore item whereItem l = l := by
  induction l with
  | nil => rfl
  | cons x l ih =>
    rw [mem_cons, not_or] at h
    simp [insertBefore, Ne.symm h.1, ih h.2]

theorem mem_insertBefore {x : A} {l : List A} (h : x ∈ insertBefore item whereItem l) :
    x = item ∨ x ∈ l := by
  induction l with
  | nil => cases h
  | cons y l ih =>
    by_cases hy : y = whereItem
    · simpa [insertBefore, hy] using h
    · rw [insertBefore, if_neg hy, mem_cons] at h
      rcases h with rfl | h
      · simp
      · exact (ih h).imp_right (mem_cons_of_mem y)

/-- The sequences after a call, and what it returns. -/
def ListOp.apply (t : L → List A) : ListOp L A → (L → List A) × List (Option A)
  | .push list item =>
    let t := fun other => (t other).erase item
    (update t list (item :: t list), [])
  | .pop list => (update t list (t list).tail, [(t list).head?])
  | .queue list item =>
    let t := fun other => (t other).erase item
    (update t list (t list ++ [item]), [])
  | .relinkBefore item whereItem =>
    if item = whereItem then (t, [])
    else (fun list => insertBefore item whereItem ((t list).erase item), [])
  | .remove item => (fun list => (t list).erase item, [])

/-- The sequences after a call, and all that has been returned. -/
def ListOp.logged (s : (L → List A) × List (Option A)) (op : ListOp L A) :
    (L → List A) × List (Option A) :=
  ((op.apply s.1).1, s.2 ++ (op.apply s.1).2)

end Sequences

/--
Walking `next` from the child object of a list gives its sequence, walking `prev` gives it in the
opposite order, the head of an item is the list it is in, and the count is the length.
-/
structure Walks [DecidableEq L] [DecidableEq A] (cls : ListClass) (h : ListHeap L A)
    (t : L → List A) : Prop where
  forward : ∀ list, ∃ fuel, walk h.following fuel (h.first list) = some ((t list).map .item)
  backward : ∀ list, ∃ fuel, walk h.preceding fuel (h.last list) = some ((t list).reverse.map .item)
  head : ∀ item list, h.head (.item item) = some list ↔ item ∈ t list
  count : cls.count → ∀ list, (h.count list).toNat = (t list).length

/-- The lists are the sequences, and the calls have returned the same. -/
def Agrees [DecidableEq L] [DecidableEq A] (cls : ListClass)
    (s : ListHeap L A × List (Option (ListNode L A))) (t : (L → List A) × List (Option A)) : Prop :=
  Walks cls s.1 t.1 ∧ s.2 = t.2.map (Option.map .item)

/-! ## What calls keep -/

/-- The pointers form the sequences, and the counts are their lengths. -/
structure Listed (cls : ListClass) (h : ListHeap L A) (t : L → List A) : Prop where
  linked : Linked h t
  counted : cls.count → ∀ list, (h.count list).toNat = (t list).length

theorem listed_new (cls : ListClass) : Listed cls (ListHeap.new : ListHeap L A) fun _ => [] where
  linked := linked_new
  counted _ _ := rfl

variable [DecidableEq L] [DecidableEq A] {cls : ListClass} {h : ListHeap L A} {t : L → List A}
  {list other : L} {item : A} {l l1 l2 : List A}

theorem ListHeap.walk_cursor {link : ListNode L A → ListNode L A} {x : ListNode L A}
    (hpath : Path link x (l.map .item) (.child list)) (hx : h.head x = some list)
    (hl : ∀ item ∈ l, h.head (.item item) = some list) :
    walk (h.cursor link) (l.length + 1) (h.cursor link x) = some (l.map .item) := by
  induction l generalizing x with
  | nil =>
    have hend : link x = .child list := hpath
    simp [ListHeap.cursor, hx, hend, walk]
  | cons a l ih =>
    obtain ⟨ha, hpath⟩ := hpath
    have hcursor : h.cursor link x = some (.item a) := by simp [ListHeap.cursor, hx, ha]
    rw [forall_mem_cons] at hl
    rw [hcursor, length_cons, walk, ih hpath hl.1 hl.2]
    rfl

theorem Listed.walks (hl : Listed cls h t) : Walks cls h t := by
  have hchild := hl.linked.head_child
  have hmem : ∀ list, ∀ item ∈ t list, h.head (.item item) = some list := by
    intro list item hitem
    exact (hl.linked.head_item item list).mpr hitem
  refine ⟨fun list => ⟨(t list).length + 1, ?_⟩, fun list => ⟨(t list).length + 1, ?_⟩,
    hl.linked.head_item, hl.counted⟩
  · have hfirst : h.first list = h.cursor h.next (.child list) := by
      simp [ListHeap.first, ListHeap.cursor, hchild]
    rw [hfirst]
    exact ListHeap.walk_cursor (hl.linked.path list) (hchild list) (hmem list)
  · have hlast : h.last list = h.cursor h.prev (.child list) := by
      simp [ListHeap.last, ListHeap.cursor, hchild]
    have hback := (hl.linked.path list).reverse hl.linked.inverse
    rw [← map_reverse] at hback
    rw [hlast, ← length_reverse]
    refine ListHeap.walk_cursor hback (hchild list) ?_
    simpa using hmem list

theorem length_placed (hl : Linked h t)
    (hlegal : h.head (.item item) = none ∨ h.head (.item item) = some list)
    (hl12 : (t list).erase item = l1 ++ l2) :
    (update (fun other => (t other).erase item) list (l1 ++ item :: l2) other).length =
      if h.head (.item item) = none ∧ other = list then (t other).length + 1
      else (t other).length := by
  have hlength : (l1 ++ item :: l2).length = ((t list).erase item).length + 1 := by
    rw [hl12]
    simp [Nat.add_assoc]
  rcases hlegal with hnone | hsome
  · have hnot : ∀ other, item ∉ t other := by
      intro other hother
      rw [← hl.head_item, hnone] at hother
      cases hother
    by_cases ho : other = list
    · subst ho
      rw [update_self, hlength, erase_of_not_mem (hnot other), if_pos ⟨hnone, rfl⟩]
    · rw [update_of_ne ho, erase_of_not_mem (hnot other), if_neg (fun h => ho h.2)]
  · have hmem := (hl.head_item item list).mp hsome
    rw [if_neg (by simp [hsome])]
    by_cases ho : other = list
    · subst ho
      have hpos := length_pos_of_mem hmem
      rw [update_self, hlength, length_erase_of_mem hmem]
      omega
    · have hnot : item ∉ t other := by
        intro hother
        rw [← hl.head_item, hsome] at hother
        exact ho (some.inj hother).symm
      rw [update_of_ne ho, erase_of_not_mem hnot]

/-- There is room for one more item in the count of the list. -/
def ListHeap.HasRoom (cls : ListClass) (h : ListHeap L A) (list : L) (item : A) : Prop :=
  cls.count → h.head (.item item) = none → h.count list ≠ 4294967295

theorem toNat_add_one {n : UInt32} (h : n ≠ 4294967295) : (n + 1).toNat = n.toNat + 1 := by
  have hlt := n.toNat_lt
  have hne : n.toNat ≠ 4294967295 := fun heq => h (UInt32.toNat_inj.mp heq)
  show (n.toNat + 1) % 4294967296 = _
  omega

theorem toNat_sub_one {n : UInt32} (h : 0 < n.toNat) : (n - 1).toNat = n.toNat - 1 := by
  have hlt := n.toNat_lt
  show (4294967296 - 1 + n.toNat) % 4294967296 = _
  omega

omit [DecidableEq A] in
theorem Listed.enter (hl : Listed cls h t)
    (hlegal : h.head (.item item) = none ∨ h.head (.item item) = some list)
    (hroom : h.HasRoom cls list item) :
    ∃ count, h.enter cls (some list) item = some { h with count } ∧
      (cls.count → ∀ other, (count other).toNat =
        if h.head (.item item) = none ∧ other = list then (t other).length + 1
        else (t other).length) := by
  rcases hlegal with hnone | hsome
  · by_cases hc : cls.count
    · refine ⟨update h.count list (h.count list + 1),
        by simp [ListHeap.enter, hnone, hc, ListHeap.countUp], fun _ other => ?_⟩
      by_cases ho : other = list
      · subst ho
        rw [update_self, toNat_add_one (hroom hc hnone), hl.counted hc, if_pos ⟨hnone, rfl⟩]
      · rw [update_of_ne ho, hl.counted hc, if_neg (fun h => ho h.2)]
    · exact ⟨h.count, by simp [ListHeap.enter, hnone, hc], fun h => absurd h hc⟩
  · refine ⟨h.count, by simp [ListHeap.enter, hsome], fun hc other => ?_⟩
    rw [hl.counted hc, if_neg (by simp [hsome])]

theorem Listed.place (hl : Listed cls h t)
    (hlegal : h.head (.item item) = none ∨ h.head (.item item) = some list)
    (hroom : h.HasRoom cls list item) (hl12 : (t list).erase item = l1 ++ l2) :
    ∃ h', h.enter cls (some list) item = some h' ∧
      Linked (h'.unhook (.item item)) (fun other => (t other).erase item) ∧
      Listed cls ((h'.unhook (.item item)).rehook (.item item) (leftOf list l1)
          ((h'.unhook (.item item)).next (leftOf list l1)))
        (update (fun other => (t other).erase item) list (l1 ++ item :: l2)) := by
  obtain ⟨count, henter, hcount⟩ := hl.enter hlegal hroom
  have hlinked : Linked { h with count } t := { hl.linked with }
  have hunhooked := hlinked.unhook item
  have hnone : ({ h with count }.unhook (.item item)).head (.item item) = none := by
    simp [ListHeap.unhook]
  refine ⟨_, henter, hunhooked, hunhooked.rehook hnone hl12, fun hc other => ?_⟩
  rw [length_placed hl.linked hlegal hl12]
  exact hcount hc other

theorem Listed.push (hl : Listed cls h t)
    (hlegal : h.head (.item item) = none ∨ h.head (.item item) = some list)
    (hroom : h.HasRoom cls list item) :
    ∃ h', h.push cls list item = some h' ∧
      Listed cls h' (update (fun other => (t other).erase item) list
        (item :: (t list).erase item)) := by
  have herase : (t list).erase item = [] ++ (t list).erase item := rfl
  obtain ⟨h', henter, -, hplaced⟩ := hl.place hlegal hroom herase
  exact ⟨_, by rw [ListHeap.push, henter]; rfl, hplaced⟩

theorem Listed.queue (hl : Listed cls h t)
    (hlegal : h.head (.item item) = none ∨ h.head (.item item) = some list)
    (hroom : h.HasRoom cls list item) :
    ∃ h', h.queue cls list item = some h' ∧
      Listed cls h' (update (fun other => (t other).erase item) list
        ((t list).erase item ++ [item])) := by
  obtain ⟨h', henter, hlinked, hplaced⟩ := hl.place hlegal hroom (append_nil _).symm
  have hend := hlinked.next_leftOf_end list
  rw [hend] at hplaced
  refine ⟨_, by rw [ListHeap.queue, henter]; rfl, ?_⟩
  show Listed cls (ListHeap.rehook _ _ ((h'.unhook (.item item)).prev (.child list)) _) _
  rw [hlinked.prev_eq hend]
  exact hplaced

theorem Listed.relinkBefore (hl : Listed cls h t) (hne : item ≠ whereItem)
    (hwhere : h.head (.item whereItem) = some list)
    (hlegal : h.head (.item item) = none ∨ h.head (.item item) = some list)
    (hroom : h.HasRoom cls list item) :
    ∃ h', h.relinkBefore cls item whereItem = some h' ∧
      Listed cls h' fun other => insertBefore item whereItem ((t other).erase item) := by
  have hmem : whereItem ∈ (t list).erase item :=
    (mem_erase_of_ne (Ne.symm hne)).mpr ((hl.linked.head_item whereItem list).mp hwhere)
  obtain ⟨l1, l2, hl12⟩ := append_of_mem hmem
  obtain ⟨h', henter, hlinked, hplaced⟩ := hl.place hlegal hroom hl12
  have hright := hlinked.next_leftOf hl12
  have hsequences : (fun other => insertBefore item whereItem ((t other).erase item)) =
      update (fun other => (t other).erase item) list (l1 ++ item :: whereItem :: l2) := by
    funext other
    by_cases ho : other = list
    · subst ho
      have hnodup := (hl.linked.nodup other).erase item
      rw [hl12] at hnodup
      have hnot : whereItem ∉ l1 := fun h =>
        disjoint_of_nodup_append hnodup h mem_cons_self
      rw [update_self, hl12, insertBefore_append hnot]
    · rw [update_of_ne ho]
      refine insertBefore_of_notMem fun hother => ho ?_
      have hhead := (hl.linked.head_item whereItem other).mpr (mem_of_mem_erase hother)
      exact some.inj (hhead.symm.trans hwhere)
  rw [hright] at hplaced
  refine ⟨_, by rw [ListHeap.relinkBefore, hwhere, henter]; rfl, ?_⟩
  show Listed cls (ListHeap.rehook _ _ ((h'.unhook (.item item)).prev (.item whereItem)) _) _
  rw [hlinked.prev_eq hright, hsequences]
  exact hplaced

theorem Listed.takeOut (hl : Listed cls h t) (hhead : h.head (.item item) = some list) :
    Listed cls (if cls.count then (h.unhook (.item item)).countDown list
      else h.unhook (.item item)) fun other => (t other).erase item := by
  have hunhooked := hl.linked.unhook item
  have hmem := (hl.linked.head_item item list).mp hhead
  by_cases hc : cls.count
  · rw [if_pos hc]
    refine ⟨{ hunhooked with }, fun _ other => ?_⟩
    show (update h.count list (h.count list - 1) other).toNat = _
    by_cases ho : other = list
    · subst ho
      have hpos := length_pos_of_mem hmem
      rw [← hl.counted hc] at hpos
      rw [update_self, toNat_sub_one hpos, hl.counted hc, length_erase_of_mem hmem]
    · have hnot : item ∉ t other := by
        intro hother
        rw [← hl.linked.head_item, hhead] at hother
        exact ho (some.inj hother).symm
      rw [update_of_ne ho, hl.counted hc, erase_of_not_mem hnot]
  · rw [if_neg hc]
    exact ⟨hunhooked, fun h => absurd h hc⟩

theorem Listed.remove (hl : Listed cls h t) (item : A) :
    Listed cls (h.remove cls (.item item)) fun list => (t list).erase item := by
  cases hhead : h.head (.item item) with
  | none =>
    have hsame : (fun list => (t list).erase item) = t := by
      funext list
      refine erase_of_not_mem ?_
      rw [← hl.linked.head_item, hhead]
      simp
    rw [hsame]
    simpa [ListHeap.remove, hhead] using hl
  | some list =>
    simp only [ListHeap.remove, hhead]
    exact hl.takeOut hhead

theorem Listed.pop (hl : Listed cls h t) (list : L) :
    (h.pop cls list).2 = ((t list).head?).map .item ∧
      Listed cls (h.pop cls list).1 (update t list (t list).tail) := by
  have hnext := hl.linked.next_child list
  cases ht : t list with
  | nil =>
    rw [ht] at hnext
    have hsame : update t list [] = t := by
      rw [← ht, update_eq_self]
    have hpop : h.pop cls list = (h, none) := by
      simpa [ListHeap.pop] using hnext
    rw [hpop, tail_nil, hsame]
    exact ⟨rfl, hl⟩
  | cons item l =>
    rw [ht, map_cons, headD_cons] at hnext
    have hmem : item ∈ t list := by simp [ht]
    have hhead := (hl.linked.head_item item list).mpr hmem
    have hsame : update t list l = fun other => (t other).erase item := by
      funext other
      by_cases ho : other = list
      · subst ho
        rw [update_self, ht, erase_cons_head]
      · rw [update_of_ne ho, erase_of_not_mem]
        rw [← hl.linked.head_item, hhead]
        exact fun h => ho (some.inj h).symm
    have hpop : h.pop cls list = (if cls.count then (h.unhook (.item item)).countDown list
        else h.unhook (.item item), some (.item item)) := by
      simp [ListHeap.pop, hnext]
    rw [hpop, tail_cons, hsame]
    exact ⟨rfl, hl.takeOut hhead⟩

/-! ## Runs -/

/-- No item is put before itself, and no count of a list goes over its 32 bits. -/
def ListHeap.Sound (cls : ListClass) (h : ListHeap L A) : ListOp L A → Prop
  | .push list item | .queue list item => h.HasRoom cls list item
  | .relinkBefore item whereItem =>
    item ≠ whereItem ∧ ∀ list ∈ h.head (.item whereItem), h.HasRoom cls list item
  | .pop _ | .remove _ => True

instance ListHeap.decidableHasRoom (cls : ListClass) (h : ListHeap L A) (list : L) (item : A) :
    Decidable (h.HasRoom cls list item) :=
  inferInstanceAs (Decidable (_ → _ → _))

instance (cls : ListClass) (h : ListHeap L A) (op : ListOp L A) : Decidable (h.Sound cls op) :=
  match op with
  | .push _ _ | .queue _ _ => inferInstanceAs (Decidable (ListHeap.HasRoom ..))
  | .relinkBefore _ _ => inferInstanceAs (Decidable (_ ∧ _))
  | .pop _ | .remove _ => .isTrue trivial

/-- A call on the heap answers as the one on sequences, and keeps them listed. -/
theorem Listed.step (hl : Listed cls h t) {op : ListOp L A} (hlegal : h.Legal op)
    (hsound : h.Sound cls op) :
    ∃ h', h.step cls op = some (h', (op.apply t).2.map (Option.map .item)) ∧
      Listed cls h' (op.apply t).1 := by
  cases op with
  | push list item =>
    obtain ⟨h', hpush, hl'⟩ := hl.push hlegal hsound
    exact ⟨h', by rw [ListHeap.step, hpush]; rfl, hl'⟩
  | pop list =>
    obtain ⟨hitem, hl'⟩ := hl.pop list
    exact ⟨_, by rw [ListHeap.step, hitem]; rfl, hl'⟩
  | queue list item =>
    obtain ⟨h', hqueue, hl'⟩ := hl.queue hlegal hsound
    exact ⟨h', by rw [ListHeap.step, hqueue]; rfl, hl'⟩
  | relinkBefore item whereItem =>
    obtain ⟨hne, hroom⟩ := hsound
    obtain ⟨hsome, hlegal⟩ := hlegal
    obtain ⟨list, hwhere⟩ := ne_none_iff_exists'.mp hsome
    rw [hwhere] at hlegal
    obtain ⟨h', hrelink, hl'⟩ := hl.relinkBefore hne hwhere hlegal (hroom list hwhere)
    refine ⟨h', by rw [ListHeap.step, hrelink]; simp [ListOp.apply, hne], ?_⟩
    simpa [ListOp.apply, hne] using hl'
  | remove item => exact ⟨_, rfl, hl.remove item⟩

/-! ## What goes wrong -/

omit [DecidableEq A] in
theorem ListHeap.enter_count (henter : h.enter cls (some list) item = some h') (hc : cls.count)
    (hnone : h.head (.item item) = none) : h'.count list = h.count list + 1 := by
  simp only [ListHeap.enter, hnone, hc, if_true, map_some, some.injEq] at henter
  rw [← henter]
  simp [ListHeap.countUp]

theorem Walks.count_ne_zero (hw : Walks cls h t) (hc : cls.count) (hmem : item ∈ t list) :
    h.count list ≠ 0 := by
  intro hzero
  have hcount := hw.count hc list
  rw [hzero] at hcount
  exact absurd hcount (length_pos_of_mem hmem).ne

theorem hasRoom_of_walks {h1 : ListHeap L A} {t' : L → List A}
    (henter : h.enter cls (some list) item = some h1) (hcount : h'.count = h1.count)
    (hw : Walks cls h' t') (hmem : item ∈ t' list) : h.HasRoom cls list item := by
  intro hc hnone hmax
  have hzero := ListHeap.enter_count henter hc hnone
  rw [hmax] at hzero
  refine hw.count_ne_zero hc hmem ?_
  rw [hcount, hzero]
  rfl

theorem Linked.relinkBefore_self (hl : Linked h t) (hsome : h.head (.item item) ≠ none)
    (hrelink : h.relinkBefore cls item item = some h') : h'.head (.item item) = none := by
  obtain ⟨list, hhead⟩ := ne_none_iff_exists'.mp hsome
  have hunhooked := hl.unhook item
  have hnone : (h.unhook (.item item)).head (.item item) = none := by simp [ListHeap.unhook]
  have hprev := hunhooked.prev_eq (hunhooked.alone item hnone)
  have henter : h.enter cls (h.head (.item item)) item = some h := by
    simp [ListHeap.enter, hhead]
  rw [ListHeap.relinkBefore, henter, map_some, some.injEq] at hrelink
  rw [← hrelink]
  simp [hprev, ListHeap.rehook, hnone]

theorem Listed.sound_of_walks (hl : Listed cls h t) {op : ListOp L A} (hlegal : h.Legal op)
    {out : List (Option (ListNode L A))} (hstep : h.step cls op = some (h', out))
    (hw : Walks cls h' (op.apply t).1) : h.Sound cls op := by
  cases op with
  | pop | remove => trivial
  | push list item =>
    simp only [ListHeap.step, ListHeap.push, Option.map_map, Option.map_eq_some_iff] at hstep
    obtain ⟨h1, henter, heq⟩ := hstep
    refine hasRoom_of_walks henter ?_ hw (by simp [ListOp.apply])
    rw [← (Prod.mk.inj heq).1]
    rfl
  | queue list item =>
    simp only [ListHeap.step, ListHeap.queue, Option.map_map, Option.map_eq_some_iff] at hstep
    obtain ⟨h1, henter, heq⟩ := hstep
    refine hasRoom_of_walks henter ?_ hw (by simp [ListOp.apply])
    rw [← (Prod.mk.inj heq).1]
    rfl
  | relinkBefore item whereItem =>
    obtain ⟨hsome, hlegal⟩ := hlegal
    simp only [ListHeap.step, map_eq_some_iff] at hstep
    obtain ⟨heap, hrelink, heq⟩ := hstep
    obtain rfl := (Prod.mk.inj heq).1
    have hne : item ≠ whereItem := by
      rintro rfl
      obtain ⟨list, hhead⟩ := ne_none_iff_exists'.mp hsome
      have hnone := hl.linked.relinkBefore_self hsome hrelink
      have hmem := (hl.linked.head_item item list).mp hhead
      rw [(hw.head item list).mpr (by simpa [ListOp.apply] using hmem)] at hnone
      cases hnone
    refine ⟨hne, fun list hwhere => ?_⟩
    rw [ListHeap.relinkBefore, hwhere, map_eq_some_iff] at hrelink
    obtain ⟨h1, henter, rfl⟩ := hrelink
    refine hasRoom_of_walks henter ?_ hw ?_
    · rfl
    have hmem : whereItem ∈ (t list).erase item :=
      (mem_erase_of_ne (Ne.symm hne)).mpr ((hl.linked.head_item whereItem list).mp hwhere)
    obtain ⟨l1, l2, hl12⟩ := append_of_mem hmem
    have hnodup := (hl.linked.nodup list).erase item
    rw [hl12] at hnodup
    have hnot : whereItem ∉ l1 := fun h => disjoint_of_nodup_append hnodup h mem_cons_self
    simp [ListOp.apply, hne, hl12, insertBefore_append hnot]

end OpenAmq
