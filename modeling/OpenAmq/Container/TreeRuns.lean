import Mathlib.Logic.Relation
import OpenAmq.Container.TreeRemove
import OpenAmq.Lib.Run

/-!
# Runs of a tree

* `TreeOp.apply` — what it does to the items in the tree
* `SearchTree` — a balanced search tree of these items
* `trees_search_iff` — when a tree is one after every operation
-/

namespace OpenAmq

open Lib List Option

variable {A : Type*} [DecidableEq A]

/-! ## Operations -/

inductive TreeOp (A : Type*) where
  | insert (item : A)
  | remove (item : A)

/-- The operation on the links, with the return code, if it ends -/
noncomputable def TreeHeap.call (k : TreeClass A) (s : TreeHeap A × Int) :
    TreeOp A → Option (TreeHeap A × Int)
  | .insert item => limit fun fuel => s.1.insert k fuel item
  | .remove item => (limit fun fuel => s.1.remove fuel item).map (·, 0)

/-- The items of the tree after an operation, and its return code -/
def TreeOp.apply (k : TreeClass A) (t : List A × Int) : TreeOp A → List A × Int
  | .insert item =>
    if k.allowDuplicates = false ∧ ∃ a ∈ t.1, k.order.compare a item = 0 then (t.1, -1)
    else (item :: t.1, 0)
  | .remove item => (t.1.erase item, 0)

/-- One pointer down -/
def TreeHeap.Child (s : TreeHeap A) (p q : Ptr A) : Prop := ∃ d, (s.links p).child d = q

/-- The item is below the root. -/
def TreeHeap.Has (s : TreeHeap A) (item : A) : Prop :=
  Relation.ReflTransGen s.Child s.root (some item)

/-- What a caller may do: to insert an item that is not in the tree, and to remove one that is. -/
def TreeHeap.Legal (s : TreeHeap A) : TreeOp A → Prop
  | .insert item => ¬s.Has item
  | .remove item => s.Has item

def TreeOp.Fits (live : List A) : TreeOp A → Prop
  | .insert item => item ∉ live
  | .remove item => item ∈ live

instance (live : List A) (op : TreeOp A) : Decidable (op.Fits live) :=
  match op with
  | .insert item => inferInstanceAs (Decidable (item ∉ live))
  | .remove item => inferInstanceAs (Decidable (item ∈ live))

/-- No equal item has to be passed that cannot, and no black item without children leaves its place
below another one. -/
def TreeHeap.Sound (k : TreeClass A) (s : TreeHeap A) : TreeOp A → Prop
  | .insert item => k.allowDuplicates = true ∨ ∀ a, s.Has a → k.order.compare a item ≠ 0
  | .remove item => s.RemoveOk item

/-- A balanced search tree of these items, and the return code -/
structure SearchTree (k : TreeClass A) (s : TreeHeap A × Int) (t : List A × Int) : Prop where
  tree : ∃ items, TreeHolds s.1 items ∧ k.order.Sorted items ∧ items.Perm t.1
  rc : s.2 = t.2

/-! ## The items below the root -/

variable {s : TreeHeap A} {parent : Option (Ptr A)} {p : Ptr A} {k : TreeClass A}
  {t : List A × Int} {op : TreeOp A}

omit [DecidableEq A] in
theorem TreeHeap.eq_none_of_child (hsentinel : s.links none = ⟨none, none, none, .black⟩)
    {q : Ptr A} (h : Relation.ReflTransGen s.Child none q) : q = none := by
  induction h with
  | refl => rfl
  | tail _ hchild ih =>
    obtain ⟨d, rfl⟩ := hchild
    rw [ih, hsentinel]
    cases d <;> rfl

omit [DecidableEq A] in
theorem Spans.reach_iff (hsentinel : s.links none = ⟨none, none, none, .black⟩) {t : RbTree A}
    (h : Spans s.links parent p t) {item : A} :
    Relation.ReflTransGen s.Child p (some item) ↔ item ∈ t.toList := by
  induction t generalizing parent p with
  | leaf =>
    obtain rfl := h
    refine iff_of_false (fun hreach => ?_) not_mem_nil
    cases TreeHeap.eq_none_of_child hsentinel hreach
  | node c l a r ihl ihr =>
    obtain ⟨rfl, -, -, hl, hr⟩ := h
    rw [RbTree.toList, mem_append, mem_cons, ← ihl hl, ← ihr hr,
      Relation.ReflTransGen.cases_head_iff]
    constructor
    · rintro (hhere | ⟨q, ⟨d, rfl⟩, hreach⟩)
      · exact .inr (.inl (some.inj hhere).symm)
      · cases d with
        | left => exact .inl hreach
        | right => exact .inr (.inr hreach)
    · rintro (hreach | rfl | hreach)
      · exact .inr ⟨_, ⟨.left, rfl⟩, hreach⟩
      · exact .inl rfl
      · exact .inr ⟨_, ⟨.right, rfl⟩, hreach⟩

omit [DecidableEq A] in
theorem TreeHolds.has_iff {items : List A} (h : TreeHolds s items) {item : A} :
    s.Has item ↔ item ∈ items := by
  obtain ⟨⟨t, hholds, -, rfl⟩, hsentinel⟩ := h
  exact hholds.reach_iff hsentinel

omit [DecidableEq A] in
theorem Spans.tree_unique {links : Ptr A → TreeLinks A} {parent' : Option (Ptr A)}
    {t t' : RbTree A} (h : Spans links parent p t) (h' : Spans links parent' p t') : t = t' := by
  induction t generalizing parent parent' p t' with
  | leaf =>
    obtain rfl := h
    cases t' with
    | leaf => rfl
    | node => cases h'.1
  | node c l a r ihl ihr =>
    obtain ⟨rfl, -, hcolour, hl, hr⟩ := h
    cases t' with
    | leaf => cases h'
    | node c' l' a' r' =>
      obtain ⟨ha, -, hcolour', hl', hr'⟩ := h'
      rw [ihl hl hl', ihr hr hr', some.inj ha, ← hcolour, ← hcolour']

/-! ## An equal item that cannot be passed -/

omit [DecidableEq A] in
theorem insertSearch_stays {x a : A} (hdup : k.allowDuplicates = false)
    (hequal : k.order.compare a x = 0) (fuel : Nat) :
    ∀ parent cmp rc, TreeHeap.insertSearch k x s fuel (some a) parent cmp rc = none := by
  induction fuel with
  | zero => exact fun _ _ _ => rfl
  | succ fuel ih =>
    intro parent cmp rc
    simp only [TreeHeap.insertSearch, hequal, hdup]
    exact ih _ _ _

omit [DecidableEq A] in
theorem insertSearch_stuck {x : A} {t : RbTree A} (hholds : Spans s.links parent p t)
    (hsorted : k.order.Sorted t.toList) (hdup : k.allowDuplicates = false)
    (hequal : ∃ a ∈ t.toList, k.order.compare a x = 0) (fuel : Nat) :
    ∀ parent' cmp rc, TreeHeap.insertSearch k x s fuel p parent' cmp rc = none := by
  induction t generalizing parent p fuel with
  | leaf =>
    obtain ⟨_, ha, -⟩ := hequal
    cases ha
  | node c l a r ihl ihr =>
    intro parent' cmp rc
    obtain ⟨rfl, -, -, hl, hr⟩ := hholds
    rw [Comparison.Sorted, RbTree.toList, pairwise_append, pairwise_cons] at hsorted
    obtain ⟨hlSorted, ⟨hright, hrSorted⟩, hleft⟩ := hsorted
    obtain ⟨b, hb, hequal⟩ := hequal
    rw [RbTree.toList, mem_append, mem_cons] at hb
    have hxb : k.order.compare x b ≤ 0 := k.order.le_of_nonneg (by omega)
    cases fuel with
    | zero => rfl
    | succ fuel =>
      by_cases hless : k.order.compare a x < 0
      · have hbr : b ∈ r.toList := by
          rcases hb with hb | rfl | hb
          · have hxa := k.order.trans x b a hxb (hleft b hb a mem_cons_self)
            have hflip := k.order.flip x a
            omega
          · omega
          · exact hb
        simp only [TreeHeap.insertSearch, if_pos hless]
        exact ihr hr hrSorted ⟨b, hbr, hequal⟩ fuel _ _ _
      · by_cases hgreater : 0 < k.order.compare a x
        · have hbl : b ∈ l.toList := by
            rcases hb with hb | rfl | hb
            · exact hb
            · omega
            · have hax := k.order.trans a b x (hright b hb) (by omega)
              omega
          simp only [TreeHeap.insertSearch, if_neg hless, if_pos hgreater]
          exact ihl hl hlSorted ⟨b, hbl, hequal⟩ fuel _ _ _
        · exact insertSearch_stays hdup (by omega) _ _ _ _

/-! ## A step -/

omit [DecidableEq A] in
theorem SearchTree.legal_iff {s : TreeHeap A × Int} (h : SearchTree k s t) :
    s.1.Legal op ↔ op.Fits t.1 := by
  obtain ⟨⟨items, hholds, -, hperm⟩, -⟩ := h
  cases op with
  | insert x => exact not_congr (hholds.has_iff.trans hperm.mem_iff)
  | remove x => exact hholds.has_iff.trans hperm.mem_iff

theorem Comparison.Sorted.erase {order : Comparison A} {items : List A} (h : order.Sorted items)
    (x : A) : order.Sorted (items.erase x) :=
  List.Pairwise.sublist (erase_sublist ..) h

theorem SearchTree.call {s : TreeHeap A × Int} (h : SearchTree k s t) (hnodup : t.1.Nodup)
    (hlegal : s.1.Legal op) (hsound : s.1.Sound k op) :
    ∃ s', TreeHeap.call k s op = some s' ∧ SearchTree k s' (op.apply k t) ∧
      (op.apply k t).1.Nodup := by
  obtain ⟨⟨items, hholds, hsorted, hperm⟩, -⟩ := h
  have hitems : items.Nodup := hperm.nodup_iff.mpr hnodup
  cases op with
  | insert x =>
    have hx : x ∉ items := fun hx => hlegal (hholds.has_iff.mpr hx)
    have hfree := hsound.imp_right fun h a ha => h a (hholds.has_iff.mpr ha)
    obtain ⟨s', before, after, hsettles, rfl, hholds', hsorted'⟩ :=
      insert_settles hholds hsorted hitems hx hfree
    have happly : TreeOp.apply k t (.insert x) = (x :: t.1, 0) := by
      refine if_neg fun hequal => ?_
      obtain ⟨hdup, a, ha, hzero⟩ := hequal
      rcases hfree with hdup' | hfree
      · rw [hdup] at hdup'
        cases hdup'
      · exact hfree a (hperm.mem_iff.mpr ha) hzero
    refine ⟨(s', 0), limit_eq_some.mpr hsettles, ?_, ?_⟩
    · rw [happly]
      exact ⟨⟨_, hholds', hsorted', perm_middle.trans (hperm.cons x)⟩, rfl⟩
    · rw [happly]
      exact nodup_cons.mpr ⟨fun hx' => hx (hperm.mem_iff.mpr hx'), hnodup⟩
  | remove x =>
    obtain ⟨s', tree, hsettles, hholds', hlist, hok, hsentinel⟩ :=
      remove_settles hholds hitems (hholds.has_iff.mp hlegal)
    refine ⟨(s', 0), ?_, ⟨⟨_, ⟨⟨tree, hholds', hok.mpr hsound, hlist⟩, hsentinel⟩, hsorted.erase x,
      hperm.erase x⟩, rfl⟩, hnodup.erase x⟩
    rw [TreeHeap.call, limit_eq_some.mpr hsettles]
    rfl

theorem SearchTree.sound {s s' : TreeHeap A × Int} (h : SearchTree k s t) (hnodup : t.1.Nodup)
    (hlegal : s.1.Legal op) (hcall : TreeHeap.call k s op = some s')
    (h' : SearchTree k s' (op.apply k t)) : s.1.Sound k op := by
  obtain ⟨⟨items, hholds, hsorted, hperm⟩, -⟩ := h
  cases op with
  | insert x =>
    by_contra hnot
    obtain ⟨hdup, hequal⟩ := not_or.mp hnot
    simp only [not_forall, not_not] at hequal
    obtain ⟨a, ha, hzero⟩ := hequal
    have hmem := hholds.has_iff.mp ha
    obtain ⟨⟨tree, htree, -, rfl⟩, -⟩ := hholds
    have hnever : ∀ fuel, s.1.insert k fuel x = none := by
      intro fuel
      rw [TreeHeap.insert, insertSearch_stuck htree hsorted (Bool.eq_false_iff.mpr hdup)
        ⟨a, hmem, hzero⟩]
      rfl
    cases (limit_eq_none 0 fun fuel _ => hnever fuel).symm.trans hcall
  | remove x =>
    obtain ⟨s1, tree, hsettles, hholds1, -, hok, -⟩ :=
      remove_settles hholds (hperm.nodup_iff.mpr hnodup) (hholds.has_iff.mp hlegal)
    rw [TreeHeap.call, limit_eq_some.mpr hsettles, map_some] at hcall
    cases hcall
    obtain ⟨⟨items', ⟨⟨tree', hholds', hbalanced, -⟩, -⟩, -⟩, -⟩ := h'
    obtain rfl := hholds1.tree_unique hholds'
    exact hok.mp hbalanced

/-! ## Runs -/

section Runs

omit [DecidableEq A] in
theorem searchTree_new (k : TreeClass A) : SearchTree k (TreeHeap.new, 0) ([], 0) where
  tree := ⟨[], ⟨⟨.leaf, rfl, ⟨rfl, trivial, 0, rfl⟩, rfl⟩, rfl⟩, .nil, .nil⟩
  rc := rfl

/--
From a new tree on, whatever items are inserted that are not in it and removed that are, in
whatever order: every operation ends and leaves a balanced search tree of the items that should be
in it, with the return code that it should have, exactly when no item is inserted that is equal to
another one where that is not allowed, and no black item without children leaves its place below
another one.
-/
theorem trees_search_iff (k : TreeClass A) (ops : List (TreeOp A))
    (hlegal : Along (TreeHeap.call k) (fun s op => s.1.Legal op) (TreeHeap.new, 0) ops) :
    (∀ before, before <+: ops → ∃ s, run (TreeHeap.call k) (TreeHeap.new, 0) before = some s ∧
        SearchTree k s (before.foldl (TreeOp.apply k) ([], 0))) ↔
    Along (TreeHeap.call k) (fun s op => s.1.Sound k op) (TreeHeap.new, 0) ops := by
  refine run_prefixes_iff_of_legal
    (R := fun (s : TreeHeap A × Int) (t : List A × Int) => SearchTree k s t ∧ t.1.Nodup)
    (fun s t hR => hR.1) ?_ ?_ ⟨searchTree_new k, nodup_nil⟩ hlegal
  · intro s t op hR hlegal hsound
    exact hR.1.call hR.2 hlegal hsound
  · intro s t op s' hR hlegal hcall hG
    exact hR.1.sound hR.2 hlegal hcall hG

/-- Where it shows from the items in the tree that the operations are legal, they are, as long as
the ones before have been sound. -/
theorem along_legal {ops : List (TreeOp A)} (last : TreeOp A) {s : TreeHeap A × Int}
    (h : SearchTree k s t) (hnodup : t.1.Nodup)
    (hfits : Along (fun t op => some (TreeOp.apply k t op)) (fun t op => op.Fits t.1) t
      (ops ++ [last]))
    (hsound : Along (TreeHeap.call k) (fun s op => s.1.Sound k op) s ops) :
    Along (TreeHeap.call k) (fun s op => s.1.Legal op) s (ops ++ [last]) := by
  induction ops generalizing s t with
  | nil => exact ⟨h.legal_iff.mpr hfits.1, fun _ _ => trivial⟩
  | cons op ops ih =>
    have hlegal := h.legal_iff.mpr hfits.1
    refine ⟨hlegal, fun s' hs' => ?_⟩
    obtain ⟨s1, hcall, h1, hnodup1⟩ := h.call hnodup hlegal hsound.1
    obtain rfl := some.inj (hcall.symm.trans hs')
    exact ih h1 hnodup1 (hfits.2 _ rfl) (hsound.2 _ hs')

theorem along_inserts (hdup : k.allowDuplicates = true) (items : List A) (s : TreeHeap A × Int) :
    Along (TreeHeap.call k) (fun s op => s.1.Sound k op) s (items.map .insert) := by
  refine along_of_forall (fun op hop s => ?_) s
  obtain ⟨_, -, rfl⟩ := mem_map.mp hop
  exact .inl hdup

end Runs

section Samples

/-- The numbers in their order -/
def sampleOrder : Comparison Nat where
  compare a b := (a : Int) - b
  flip := by omega
  trans := by omega

/-- The tree of the numbers up to this one, inserted in their order -/
def sampleTree : Nat → TreeHeap Nat
  | 0 => TreeHeap.new
  | n + 1 => (((sampleTree n).insert ⟨true, sampleOrder⟩ 9 (n + 1)).map (·.1)).getD TreeHeap.new

theorem call_sampleTree {n : Nat} (h : n < 4) :
    TreeHeap.call ⟨true, sampleOrder⟩ (sampleTree n, 0) (.insert (n + 1)) =
      some (sampleTree (n + 1), 0) := by
  refine limit_eq_some.mpr (.of_add 9 fun fuel => ?_)
  match n, h with
  | 0, _ | 1, _ | 2, _ | 3, _ => rfl

theorem run_sampleTree {n m : Nat} (h : n + m ≤ 4) :
    run (TreeHeap.call ⟨true, sampleOrder⟩) (sampleTree n, 0)
      ((range' (n + 1) m).map .insert) = some (sampleTree (n + m), 0) := by
  induction m generalizing n with
  | zero => rfl
  | succ m ih =>
    rw [range'_succ, map_cons, run_cons, call_sampleTree (by omega), bind_some,
      ih (by omega), Nat.add_right_comm, Nat.add_assoc]

/-- Without the item in the middle of three, where the last one takes its place. -/
theorem trees_search_sample : ∃ s, run (TreeHeap.call ⟨true, sampleOrder⟩) (TreeHeap.new, 0)
        [.insert 1, .insert 2, .insert 3, .remove 2] = some s ∧
      SearchTree ⟨true, sampleOrder⟩ s ([3, 1], 0) := by
  have hsound : Along (TreeHeap.call ⟨true, sampleOrder⟩)
      (fun s op => s.1.Sound ⟨true, sampleOrder⟩ op) (TreeHeap.new, 0)
      ([.insert 1, .insert 2, .insert 3] ++ [.remove 2]) := by
    refine (along_inserts rfl (range' 1 3) _).append fun s hs => ⟨?_, fun _ _ => trivial⟩
    · obtain rfl := some.inj ((run_sampleTree (n := 0) (m := 3) (by omega)).symm.trans hs)
      intro e hleaves
      have hthird : (sampleTree 3).Leaves (some 2) (some 3) := .here rfl
      obtain rfl := hthird.unique hleaves
      exact .inl rfl
  exact (trees_search_iff ⟨true, sampleOrder⟩ _
    (along_legal (.remove 2) (searchTree_new _) nodup_nil
      (by decide) hsound.left_of_append)).mpr hsound _
    prefix_rfl

/-- The first of four items is black and has no children, and when it is removed the tree is not
balanced any more. -/
theorem remove_black_unbalances :
    Along (TreeHeap.call ⟨true, sampleOrder⟩) (fun s op => s.1.Legal op) (TreeHeap.new, 0)
      [.insert 1, .insert 2, .insert 3, .insert 4, .remove 1] ∧
    ¬ ∀ before, before <+: [.insert 1, .insert 2, .insert 3, .insert 4, .remove 1] →
      ∃ s, run (TreeHeap.call ⟨true, sampleOrder⟩) (TreeHeap.new, 0) before = some s ∧
        SearchTree ⟨true, sampleOrder⟩ s
          (before.foldl (TreeOp.apply ⟨true, sampleOrder⟩) ([], 0)) := by
  have hlegal := along_legal (.remove 1) (searchTree_new _) nodup_nil (by decide)
    (along_inserts (k := ⟨true, sampleOrder⟩) rfl (range' 1 4) (TreeHeap.new, 0))
  refine ⟨hlegal, fun hall => ?_⟩
  have hinserts := run_sampleTree (n := 0) (m := 4) (by omega)
  obtain ⟨s, hrun, htree⟩ := hall _
    (prefix_append ((range' 1 4).map TreeOp.insert) [TreeOp.remove 1])
  obtain rfl := some.inj (hinserts.symm.trans hrun)
  obtain ⟨s', hrun', htree'⟩ := hall ((range' 1 4).map TreeOp.insert ++ [.remove 1]) prefix_rfl
  rw [run_append, hrun, bind_some] at hrun'
  obtain ⟨s1, hcall, hend⟩ := run_cons_eq_some hrun'
  cases hend
  have hok := htree.sound (by decide) (hlegal.of_append hrun).1 hcall htree'
  have hleaves : (sampleTree 4).Leaves (some 1) (some 1) := rfl
  rcases hok _ hleaves with hred | hleft | hright | hroot
  · cases hred
  · exact hleft rfl
  · exact hright rfl
  · cases hroot

end Samples

end OpenAmq
