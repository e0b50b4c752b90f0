import OpenAmq.Container.TreeRuns

/-!
# The traversal of a tree, and the searches in it

* `TreeHeap.first`, `last`, `next`, `prev` — the traversal, which climbs by the links to the parents
* `TreeHeap.findEq`, `findLt`, `findLe`, `findGt`, `findGe` — the searches
* `step_settles`, `find_settles` — what a step and a search return, by the order of the items
* `traverses_iff` — **the tree is traversed in both directions if and only if `prev` finds a left
  child or the sentinel in its variable `child`, to which nothing is assigned**
-/

namespace OpenAmq

open Lib List

variable {A : Type*} [DecidableEq A]

namespace TreeHeap

/-! ## The traversal -/

/-- The loop of `first` and of `last`, which goes to this side as far as it can -/
def furthest (d : Side) (self : TreeHeap A) : (fuel : Nat) → (item : Ptr A) → Option (Ptr A)
  | 0, _ => none
  | fuel + 1, item =>
    if (self.links item).child d ≠ none then furthest d self fuel ((self.links item).child d)
    else some item

/-- The end of a tree on this side, by a pointer to its root or a null pointer -/
def extreme (d : Side) (self : TreeHeap A) (fuel : Nat) : Option (Ptr A) → Option (Option (Ptr A))
  | none | some none => some none
  | some (some a) => (self.furthest d fuel (some a)).map some

/-- The loop of `next` and of `prev`, which goes up as long as it comes from this side. The pointer
`child` need not be one of the tree. -/
def climb (d : Side) (self : TreeHeap A) : (fuel : Nat) → (item : Ptr A) →
    (child : Option (Ptr A)) → Option (Option (Ptr A))
  | 0, _, _ => none
  | fuel + 1, item, child =>
    match (self.links item).parent with
    | some parent =>
      if some ((self.links item).child d) = child then climb d self fuel parent (some item)
      else some (some item)
    | none => if some ((self.links item).child d) = child then some none else some (some item)

/-- A step to this side, where `child` is what the variable holds before the loop -/
def step (d : Side) (child : Option (Ptr A)) (self : TreeHeap A) (fuel : Nat) :
    Option (Ptr A) → Option (Option (Ptr A))
  | none => some none
  | some none => some (some none)
  | some (some a) =>
    if (self.links (some a)).child d ≠ none then
      self.extreme d.flip fuel (some ((self.links (some a)).child d))
    else self.climb d fuel (some a) child

def first : TreeHeap A → (fuel : Nat) → Option (Ptr A) → Option (Option (Ptr A)) := extreme .left

def last : TreeHeap A → (fuel : Nat) → Option (Ptr A) → Option (Option (Ptr A)) := extreme .right

def next : TreeHeap A → (fuel : Nat) → Option (Ptr A) → Option (Option (Ptr A)) :=
  step .right (some none)

/-- `prev`, where nothing is assigned to `child` -/
def prev (child : Option (Ptr A)) :
    TreeHeap A → (fuel : Nat) → Option (Ptr A) → Option (Option (Ptr A)) := step .left child

/-! ## The searches -/

/-- The loop of a search, by the side where it goes on and by what is found so far -/
def find (side : Int → Side) (keep : Int → Bool) (order : Comparison A) (item : A)
    (self : TreeHeap A) : (fuel : Nat) → (current : Ptr A) → (found : Option (Ptr A)) →
    Option (Option (Ptr A))
  | 0, _, _ => none
  | _ + 1, none, found => some found
  | fuel + 1, some a, found =>
    let cmp := order.compare a item
    find side keep order item self fuel ((self.links (some a)).child (side cmp))
      (if keep cmp then some (some a) else found)

variable (order : Comparison A) (item : A) (self : TreeHeap A) (fuel : Nat)

/-- `find eq` -/
def findEq : Option (Option (Ptr A)) :=
  self.find (fun cmp => if cmp < 0 then .right else .left) (fun cmp => cmp = 0) order item fuel
    self.root none

/-- `find lt` -/
def findLt : Option (Option (Ptr A)) :=
  self.find (fun cmp => if cmp < 0 then .right else .left) (fun cmp => cmp < 0) order item fuel
    self.root none

/-- `find le` -/
def findLe : Option (Option (Ptr A)) :=
  self.find (fun cmp => if 0 < cmp then .left else .right) (fun cmp => ¬ 0 < cmp) order item fuel
    self.root none

/-- `find gt` -/
def findGt : Option (Option (Ptr A)) :=
  self.find (fun cmp => if 0 < cmp then .left else .right) (fun cmp => 0 < cmp) order item fuel
    self.root none

/-- `find ge` -/
def findGe : Option (Option (Ptr A)) :=
  self.find (fun cmp => if cmp < 0 then .right else .left) (fun cmp => ¬ cmp < 0) order item fuel
    self.root none

end TreeHeap

/-! ## What a step returns -/

variable {s : TreeHeap A} {ctx : List (Frame A)} {parent : Option (Ptr A)} {p : Ptr A} {x : A}
  {d : Side} {c : Colour} {t near far : RbTree A} {child : Option (Ptr A)}

omit [DecidableEq A] in
theorem furthest_settles (h : Spans s.links parent p t) (hne : p ≠ none) :
    ∃ a rest, t.listFrom d = a :: rest ∧ Settles (fun fuel => s.furthest d fuel p) (some a) := by
  induction t using RbTree.join_induction d generalizing parent p with
  | leaf => exact absurd h hne
  | join c near a far ih _ =>
    obtain ⟨rfl, -, -, hnear, -⟩ := holds_join.mp h
    by_cases hchild : (s.links (some a)).child d = none
    · have hleaf : near = .leaf := by
        rcases hnear.ptr_eq with ⟨-, hleaf⟩ | ⟨_, _, _, _, hsome, -⟩
        · exact hleaf
        · cases hchild.symm.trans hsome
      refine ⟨a, far.listFrom d, ?_, .of_add 1 fun fuel => if_neg (not_not.mpr hchild)⟩
      rw [RbTree.listFrom_join, hleaf]
      cases d <;> rfl
    · obtain ⟨b, rest, hlist, hsettles⟩ := ih hnear hchild
      refine ⟨b, rest ++ a :: far.listFrom d, ?_, hsettles.succ fun fuel => if_pos hchild⟩
      rw [RbTree.listFrom_join, hlist, cons_append]

omit [DecidableEq A] in
theorem extreme_settles (h : Spans s.links parent p t) :
    Settles (fun fuel => s.extreme d fuel (some p)) ((t.listFrom d).head?.map some) := by
  cases p with
  | none =>
    rcases h.ptr_eq with ⟨-, rfl⟩ | ⟨_, _, _, _, hsome, -⟩
    · cases d <;> exact .of_forall fun _ => rfl
    · cases hsome
  | some b =>
    obtain ⟨a, rest, hlist, hsettles⟩ := furthest_settles (d := d) h nofun
    rw [hlist]
    exact hsettles.map some

theorem climb_settles (h : FramesHold s.links s.root ctx parent (some x))
    (hparent : (s.links (some x)).parent = parent)
    (hchild : some ((s.links (some x)).child d) = child) (hnodup : (x :: Frames.items ctx).Nodup) :
    Settles (fun fuel => s.climb d fuel (some x) child) ((Frames.beyond d ctx).head?.map some) := by
  induction ctx generalizing parent x child with
  | nil =>
    rw [h.1] at hparent
    refine .of_add 1 fun fuel => ?_
    rw [TreeHeap.climb, hparent]
    cases d <;> exact if_pos hchild
  | cons f ctx ih =>
    obtain ⟨rfl, hdown, -, hother, hframes⟩ := h
    simp only [Frames.items, cons_append, nodup_cons, mem_cons, mem_append, not_or] at hnodup
    have hup : ∀ fuel, s.climb d (fuel + 1) (some x) child =
        s.climb d fuel (some f.item) (some (some x)) := by
      intro fuel
      rw [TreeHeap.climb, hparent]
      exact if_pos hchild
    rw [Frames.beyond_cons]
    by_cases hside : f.side = d
    · rw [if_pos hside, nil_append]
      subst hside
      refine (ih hframes rfl (congrArg some hdown) ?_).succ hup
      refine nodup_cons.mpr ⟨hnodup.2.1.2, ?_⟩
      exact (nodup_append.mp hnodup.2.2).2.1
    · rw [if_neg hside]
      refine .of_add 2 fun fuel => ?_
      have hflip : d = f.side.flip := by cases d <;> cases hf : f.side <;> simp_all [Side.flip]
      have hne : some ((s.links (some f.item)).child d) ≠ some (some x) := by
        rw [hflip]
        exact fun hsame => hother.ptr_ne hnodup.1.2.1 (Option.some.inj hsame)
      rw [hup, TreeHeap.climb]
      split <;> exact if_neg hne

/-- A step from an item ends at what follows it in the list. -/
theorem step_settles (h : Spans s.links none s.root (plug ctx (.join d c near x far)))
    (hnodup : (plug ctx (.join d c near x far)).toList.Nodup)
    (hchild : (s.links (some x)).child d ≠ none ∨ child = some none) :
    Settles (fun fuel => s.step d child fuel (some (some x)))
      ((near.listFrom d.flip ++ Frames.beyond d ctx).head?.map some) := by
  obtain ⟨parent, p, hframes, hnode⟩ := holds_plug.mp h
  obtain ⟨rfl, rfl, -, hnear, -⟩ := holds_join.mp hnode
  by_cases hnone : (s.links (some x)).child d = none
  · have hleaf : near.listFrom d.flip = [] := by
      rcases hnear.ptr_eq with ⟨-, rfl⟩ | ⟨_, _, _, _, hsome, -⟩
      · cases d <;> rfl
      · cases hnone.symm.trans hsome
    have hitems := (toList_plug_perm ctx (.join d c near x far)).nodup_iff.mp hnodup
    rw [((RbTree.toList_join_perm d c near x far).append_right _).nodup_iff, cons_append,
      nodup_cons, mem_append, not_or] at hitems
    have hclimb := climb_settles (d := d) hframes rfl (congrArg some hnone)
      (nodup_cons.mpr ⟨hitems.1.2, (nodup_append.mp hitems.2).2.1⟩)
    rw [hleaf, nil_append]
    simp only [TreeHeap.step, hnone, hchild.resolve_left (not_not.mpr hnone)]
    exact hclimb
  · obtain ⟨a, rest, hlist, -⟩ := furthest_settles (d := d.flip) hnear hnone
    have hextreme := extreme_settles (d := d.flip) hnear
    simp only [TreeHeap.step, if_pos hnone]
    rw [hlist] at hextreme ⊢
    exact hextreme

/-! ## What a search returns -/

omit [DecidableEq A] in
/-- A search finds the first item from this side that it keeps, if it goes to this side from those
and only passes by items that it need not keep. -/
theorem find_settles (side : Int → Side) (keep : Int → Bool) {order : Comparison A} {item : A}
    (h : Spans s.links parent p t) (found : Option (Ptr A))
    (hkeep : ∀ n, keep n = true → side n = d)
    (hpass : (t.listFrom d).Pairwise fun a b =>
      (side (order.compare b item) ≠ d → keep (order.compare a item) = false) ∧
      (keep (order.compare a item) = false → side (order.compare a item) = d →
        keep (order.compare b item) = false)) :
    Settles (fun fuel => s.find side keep order item fuel p found)
      ((((t.listFrom d).find? fun a => keep (order.compare a item)).map some).or found) := by
  induction t using RbTree.join_induction d generalizing parent p found with
  | leaf =>
    obtain rfl : p = none := h
    cases d <;> exact .of_add 1 fun _ => rfl
  | join c near a far ihn ihf =>
    obtain ⟨rfl, -, -, hnear, hfar⟩ := holds_join.mp h
    rw [RbTree.listFrom_join, pairwise_append, pairwise_cons] at hpass
    obtain ⟨hpassNear, ⟨hafter, hpassFar⟩, hbefore⟩ := hpass
    rw [RbTree.listFrom_join, find?_append, find?_cons]
    by_cases hside : side (order.compare a item) = d
    · have hloop := (ihn hnear (if keep (order.compare a item) then some (some a) else found)
        hpassNear).succ (g := fun fuel => s.find side keep order item fuel (some a) found)
          fun fuel => by rw [TreeHeap.find, hside]
      convert hloop using 1
      cases hk : keep (order.compare a item) with
      | true => cases (near.listFrom d).find? _ <;> rfl
      | false =>
        have hnone : (far.listFrom d).find? (fun b => keep (order.compare b item)) = none :=
          find?_eq_none.mpr fun b hb => by simp [(hafter b hb).2 hk hside]
        rw [hnone]
        cases (near.listFrom d).find? _ <;> rfl
    · have hflip : side (order.compare a item) = d.flip := by
        cases hd : side (order.compare a item) <;> cases d <;> simp_all [Side.flip]
      have hk : keep (order.compare a item) = false :=
        Bool.eq_false_iff.mpr fun hk => hside (hkeep _ hk)
      have hnone : (near.listFrom d).find? (fun b => keep (order.compare b item)) = none :=
        find?_eq_none.mpr fun b hb => by simp [(hbefore b hb a mem_cons_self).1 hside]
      have hloop := (ihf hfar found hpassFar).succ
        (g := fun fuel => s.find side keep order item fuel (some a) found)
          fun fuel => by rw [TreeHeap.find, hflip, hk]; rfl
      rw [hnone, hk]
      exact hloop

/-! ## Whole traversals -/

structure InOrder (s : TreeHeap A) (items : List A) : Prop where
  tree : ∃ t : RbTree A, Spans s.links none s.root t ∧ t.toList = items
  nodup : items.Nodup

/-- A step from an item leads to a pointer, where `child` holds these values before. -/
def Steps (s : TreeHeap A) (d : Side) (child : A → Option (Ptr A)) (a : A) (q : Option (Ptr A)) :
    Prop :=
  Settles (fun fuel => s.step d (child a) fuel (some (some a))) q

/-- Steps from a pointer on pass these items until the pointer is null. -/
inductive Visits (steps : A → Option (Ptr A) → Prop) : Option (Ptr A) → List A → Prop
  | nil : Visits steps none []
  | cons {a : A} {q : Option (Ptr A)} {items : List A} (hstep : steps a q)
      (hrest : Visits steps q items) : Visits steps (some (some a)) (a :: items)

/-- The traversal in both directions and the searches, for the values that `child` holds before the
loop in a call of `prev` with an item. -/
structure Traverses (order : Comparison A) (s : TreeHeap A) (child : A → Option (Ptr A))
    (items : List A) : Prop where
  forward : ∃ q, Settles (fun fuel => s.first fuel (some s.root)) q ∧
    Visits (fun a => Settles fun fuel => s.next fuel (some (some a))) q items
  backward : ∃ q, Settles (fun fuel => s.last fuel (some s.root)) q ∧
    Visits (fun a => Settles fun fuel => s.prev (child a) fuel (some (some a))) q items.reverse
  undo : ∀ a ∈ items, ∀ b ∈ items,
    Settles (fun fuel => s.next fuel (some (some a))) (some (some b)) ↔
      Settles (fun fuel => s.prev (child b) fuel (some (some b))) (some (some a))
  findEq : ∀ x, Settles (fun fuel => s.findEq order x fuel)
    ((items.find? fun a => order.compare a x = 0).map some)
  findLt : ∀ x, Settles (fun fuel => s.findLt order x fuel)
    ((items.reverse.find? fun a => order.compare a x < 0).map some)
  findLe : ∀ x, Settles (fun fuel => s.findLe order x fuel)
    ((items.reverse.find? fun a => ¬ 0 < order.compare a x).map some)
  findGt : ∀ x, Settles (fun fuel => s.findGt order x fuel)
    ((items.find? fun a => 0 < order.compare a x).map some)
  findGe : ∀ x, Settles (fun fuel => s.findGe order x fuel)
    ((items.find? fun a => ¬ order.compare a x < 0).map some)

variable {items : List A} {order : Comparison A} {children : A → Option (Ptr A)}

omit [DecidableEq A] in
theorem Visits.unique {steps : A → Option (Ptr A) → Prop}
    (hsteps : ∀ a q q', steps a q → steps a q' → q = q') {q : Option (Ptr A)} {l l' : List A}
    (h : Visits steps q l) (h' : Visits steps q l') : l = l' := by
  induction h generalizing l' with
  | nil =>
    cases h'
    rfl
  | cons hstep _ ih =>
    cases h' with
    | cons hstep' hrest' =>
      rw [hsteps _ _ _ hstep' hstep] at hrest'
      rw [ih hrest']

omit [DecidableEq A] in
theorem Visits.not_stay {steps : A → Option (Ptr A) → Prop}
    (hsteps : ∀ a q q', steps a q → steps a q' → q = q') {q : Option (Ptr A)} {l : List A}
    (h : Visits steps q l) {a : A} (ha : a ∈ l) : ¬ steps a (some (some a)) := by
  induction h with
  | nil => cases ha
  | cons hstep hrest ih =>
    rcases mem_cons.mp ha with rfl | ha
    · intro hstay
      rw [hsteps _ _ _ hstep hstay] at hrest
      have hlength := congrArg length (hrest.unique hsteps (.cons hstay hrest))
      simp at hlength
    · exact ih ha

omit [DecidableEq A] in
theorem Visits.of_forall {steps : A → Option (Ptr A) → Prop} {l : List A}
    (h : ∀ l1 a l2, l = l1 ++ a :: l2 → steps a (l2.head?.map some)) :
    Visits steps (l.head?.map some) l := by
  induction l with
  | nil => exact .nil
  | cons a l ih =>
    exact .cons (h [] a l rfl) (ih fun l1 b l2 hl => h (a :: l1) b l2 (congrArg (a :: ·) hl))

/-- A step leads from an item to the one listed behind it. -/
theorem steps_next (h : Spans s.links none s.root t) (hnodup : t.toList.Nodup)
    (hchild : ∀ a ∈ t.toList, (s.links (some a)).child d ≠ none ∨ children a = some none)
    {a : A} {l1 l2 : List A} (hlist : t.listFrom d.flip = l1 ++ a :: l2) :
    Steps s d children a (l2.head?.map some) := by
  have hmem : a ∈ t.toList := by
    have ha : a ∈ t.listFrom d.flip := by simp [hlist]
    cases d
    · exact mem_reverse.mp ha
    · exact ha
  have hlistNodup : (t.listFrom d.flip).Nodup := by
    cases d
    · exact nodup_reverse.mpr hnodup
    · exact hnodup
  have hat := hchild a hmem
  obtain ⟨ctx, c, l, r, rfl⟩ := exists_plug hmem
  obtain ⟨near, far, hjoin⟩ := RbTree.exists_join d c l a r
  rw [hjoin] at h hnodup hlist hlistNodup
  obtain ⟨l', hplug⟩ := listFrom_plug_join ctx d c near a far
  rw [hlist] at hplug hlistNodup
  have hfirst : a ∉ l1 ∧ a ∉ l2 := by
    have hmiddle := (nodup_middle.mp hlistNodup)
    simpa using (nodup_cons.mp hmiddle).1
  obtain ⟨-, rfl⟩ : l1 = l' ∧ l2 = near.listFrom d.flip ++ Frames.beyond d ctx := by
    have hinj := (append_cons_inj_of_notMem hfirst.1 hfirst.2).mp hplug
    exact ⟨hinj.1, hinj.2.2⟩
  exact step_settles h hnodup hat

/-- A step leads to those items only that are listed right behind. -/
theorem steps_iff (h : Spans s.links none s.root t) (hnodup : t.toList.Nodup)
    (hchild : ∀ a ∈ t.toList, (s.links (some a)).child d ≠ none ∨ children a = some none)
    {a b : A} (ha : a ∈ t.listFrom d.flip) :
    Steps s d children a (some (some b)) ↔ ∃ l1 l2, t.listFrom d.flip = l1 ++ a :: b :: l2 := by
  obtain ⟨l1, l2, hlist⟩ := append_of_mem ha
  have hsteps := steps_next h hnodup hchild hlist
  constructor
  · intro hb
    cases l2 with
    | nil => cases hsteps.unique hb
    | cons b' l2 =>
      cases hsteps.unique hb
      exact ⟨l1, l2, hlist⟩
  · rintro ⟨l1', l2', hlist'⟩
    exact steps_next h hnodup hchild hlist'

omit [DecidableEq A] in
theorem Comparison.sign (order : Comparison A) {a b : A} (h : order.compare a b ≤ 0) (x : A) :
    (order.compare b x ≤ 0 → order.compare a x ≤ 0) ∧
      (order.compare b x < 0 → order.compare a x < 0) := by
  refine ⟨order.trans a b x h, fun hb => ?_⟩
  by_contra hax
  have hxb := order.trans x a b (order.le_of_nonneg (Int.not_lt.mp hax)) h
  have hflip := order.flip x b
  omega

omit [DecidableEq A] in
theorem Comparison.Sorted.find_settles (hsorted : order.Sorted t.toList)
    (h : Spans s.links none s.root t) (side : Int → Side) (keep : Int → Bool) (d : Side) (x : A)
    (hkeep : ∀ n, keep n = true → side n = d)
    (hpass : ∀ m n : Int, (match d with
        | .left => (n ≤ 0 → m ≤ 0) ∧ (n < 0 → m < 0)
        | .right => (m ≤ 0 → n ≤ 0) ∧ (m < 0 → n < 0)) →
      (side n ≠ d → keep m = false) ∧ (keep m = false → side m = d → keep n = false)) :
    Settles (fun fuel => s.find side keep order x fuel s.root none)
      (((t.listFrom d).find? fun a => keep (order.compare a x)).map some) := by
  have hfind := @OpenAmq.find_settles _ _ _ _ d _ side keep order x h none hkeep ?_
  · rwa [Option.or_none] at hfind
  · cases d with
    | left => exact hsorted.imp fun hab => hpass _ _ (order.sign hab x)
    | right =>
      exact (pairwise_reverse.mpr hsorted).imp fun hab => hpass _ _ (order.sign hab x)

theorem traversal_settles (h : Spans s.links none s.root t) (hnodup : t.toList.Nodup)
    (hchild : ∀ a ∈ t.toList, (s.links (some a)).child d ≠ none ∨ children a = some none) :
    ∃ q, Settles (fun fuel => s.extreme d.flip fuel (some s.root)) q ∧
      Visits (Steps s d children) q (t.listFrom d.flip) :=
  ⟨_, extreme_settles h, .of_forall fun _ _ _ hlist => steps_next h hnodup hchild hlist⟩

theorem prev_stays {a : A} (hleft : (s.links (some a)).left = none) (hchild : child ≠ some none) :
    Settles (fun fuel => s.prev child fuel (some (some a))) (some (some a)) := by
  refine .of_add 1 fun fuel => ?_
  have hne : some ((s.links (some a)).child .left) ≠ child := by
    rw [show (s.links (some a)).child .left = none from hleft]
    exact hchild.symm
  have hclimb : s.climb .left (fuel + 1) (some a) child = some (some (some a)) := by
    rw [TreeHeap.climb]
    split <;> exact if_neg hne
  exact (if_neg (not_not.mpr hleft)).trans hclimb

theorem Traverses.child_eq (h : Traverses order s children items) {a : A} (ha : a ∈ items) :
    (s.links (some a)).left ≠ none ∨ children a = some none := by
  by_contra hneither
  rw [not_or, not_not] at hneither
  obtain ⟨q, -, hvisits⟩ := h.backward
  have hunique : ∀ b q q', Steps s .left children b q → Steps s .left children b q' → q = q' :=
    fun _ _ _ => Settles.unique
  exact Visits.not_stay hunique hvisits (mem_reverse.mpr ha) (prev_stays hneither.1 hneither.2)

/-- The tree is traversed and searched in the order of its items if and only if `prev` is called
for items with a left child only, or `child` happens to hold the sentinel. -/
theorem traverses_iff (order : Comparison A) (children : A → Option (Ptr A))
    (horder : InOrder s items) (hsorted : order.Sorted items) :
    Traverses order s children items ↔
      ∀ a ∈ items, (s.links (some a)).left ≠ none ∨ children a = some none := by
  refine ⟨fun h a ha => h.child_eq ha, fun hchild => ?_⟩
  obtain ⟨⟨t, hspans, rfl⟩, hnodup⟩ := horder
  have hnext : ∀ a ∈ t.toList, (s.links (some a)).child .right ≠ none ∨
      (fun _ => some none : A → Option (Ptr A)) a = some none := fun _ _ => .inr rfl
  exact
    { forward := traversal_settles (d := .right) hspans hnodup hnext
      backward := traversal_settles (d := .left) hspans hnodup hchild
      undo := fun a ha b hb => by
        have hforth := steps_iff (d := .right) (b := b) hspans hnodup hnext ha
        have hback := steps_iff (d := .left) (b := a) hspans hnodup hchild (mem_reverse.mpr hb)
        refine hforth.trans (Iff.trans ?_ hback.symm)
        constructor
        · rintro ⟨l1, l2, hlist⟩
          refine ⟨l2.reverse, l1.reverse, ?_⟩
          have hreverse := congrArg reverse hlist
          simp only [reverse_append, reverse_cons, append_assoc] at hreverse
          exact hreverse
        · rintro ⟨l1, l2, hlist⟩
          refine ⟨l2.reverse, l1.reverse, ?_⟩
          have hreverse := congrArg reverse hlist
          simp only [reverse_append, reverse_cons, append_assoc] at hreverse
          exact (reverse_reverse t.toList).symm.trans hreverse
      findEq := fun x =>
        hsorted.find_settles hspans _ _ .left x (by simp) fun m n ⟨hle, hlt⟩ => by
          simp
          omega
      findLt := fun x =>
        hsorted.find_settles hspans _ _ .right x (by simp) fun m n ⟨hle, hlt⟩ => by
          simp
          omega
      findLe := fun x =>
        hsorted.find_settles hspans _ _ .right x (by simp) fun m n ⟨hle, hlt⟩ => by
          simp
          omega
      findGt := fun x =>
        hsorted.find_settles hspans _ _ .left x (by simp) fun m n ⟨hle, hlt⟩ => by
          simp
          omega
      findGe := fun x =>
        hsorted.find_settles hspans _ _ .left x (by simp) fun m n ⟨hle, hlt⟩ => by
          simp
          omega }

/-- Numbers by their half, so that two of them may be equal -/
def halfOrder : Comparison Nat where
  compare a b := (a / 2 : Nat) - (b / 2 : Nat)
  flip := by omega
  trans := by omega

/-- The numbers 2, 4, 5 and 7 with 5 at the root, where 4 and 5 are equal -/
def halfTree : TreeHeap Nat where
  links
    | some 2 => ⟨none, some 4, some (some 5), .black⟩
    | some 4 => ⟨none, none, some (some 2), .red⟩
    | some 5 => ⟨some 2, some 7, none, .black⟩
    | some 7 => ⟨none, none, some (some 5), .black⟩
    | _ => ⟨none, none, none, .black⟩
  root := some 5

theorem inOrder_halfTree : InOrder halfTree [2, 4, 5, 7] := by
  refine ⟨⟨.node .black (.node .black .leaf 2 (.node .red .leaf 4 .leaf)) 5
    (.node .black .leaf 7 .leaf), ?_, rfl⟩, by decide⟩
  simp [Spans, halfTree]

/-- The root has a left child, and its variable may hold anything. -/
theorem traverses_halfTree : Traverses halfOrder halfTree
    (fun a => if a = 5 then some (some 7) else some none) [2, 4, 5, 7] := by
  refine (traverses_iff halfOrder _ inOrder_halfTree ?_).mpr ?_
  · unfold Comparison.Sorted
    decide
  · simp [halfTree]

/-- A tree of a single number -/
def loneTree : TreeHeap Nat where
  links _ := ⟨none, none, none, .black⟩
  root := some 7

theorem inOrder_loneTree : InOrder loneTree [7] :=
  ⟨⟨.node .black .leaf 7 .leaf, ⟨rfl, rfl, rfl, rfl, rfl⟩, rfl⟩, nodup_singleton 7⟩

/-- Where the variable holds the item itself, `prev` stays at it. -/
theorem traverses_fails :
    InOrder loneTree [7] ∧ ¬ Traverses sampleOrder loneTree (fun _ => some (some 7)) [7] := by
  refine ⟨inOrder_loneTree, fun h => ?_⟩
  exact (h.child_eq mem_cons_self).elim (fun hleft => hleft rfl) nofun

end OpenAmq
