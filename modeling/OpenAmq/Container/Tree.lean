import Mathlib
import OpenAmq.Lib.Fuel
import OpenAmq.Lib.RedBlack

/-!
# Trees

The trees that `icl_tree_head` generates for a class of items: red-black trees with links to the
parents, and an empty child object as the sentinel below all leaves.

* `TreeHeap` — the links of all items and of the sentinel, and the root
* `TreeHeap.insert`, `insertFixup` — the search for a place, and the way back up
* `TreeHeap.remove`, `deleteFixup` — the item taken out, and the way back up
* `Spans`, `FramesHold` — the links form a tree, and a tree with a hole
-/

namespace OpenAmq

open Lib List Function

/-- An item, or the sentinel -/
abbrev Ptr (A : Type*) := Option A

/-- The links in an item, where the parent may be a null pointer -/
structure TreeLinks (A : Type*) where
  left : Ptr A
  right : Ptr A
  parent : Option (Ptr A)
  colour : Colour

/-- The links of the items of a tree and of the sentinel, and the pointer to the root -/
structure TreeHeap (A : Type*) where
  links : Ptr A → TreeLinks A
  root : Ptr A

/-- A total preorder, as the method `compare` gives it. -/
structure Comparison (A : Type*) where
  compare : A → A → Int
  flip : ∀ a b, 0 < compare a b ↔ compare b a < 0
  trans : ∀ a b c, compare a b ≤ 0 → compare b c ≤ 0 → compare a c ≤ 0

structure TreeClass (A : Type*) where
  allowDuplicates : Bool
  order : Comparison A

variable {A : Type*}

namespace TreeLinks

def child (self : TreeLinks A) : Side → Ptr A
  | .left => self.left
  | .right => self.right

def setChild (self : TreeLinks A) (d : Side) (p : Ptr A) : TreeLinks A :=
  match d with
  | .left => { self with left := p }
  | .right => { self with right := p }

end TreeLinks

namespace TreeHeap

/-- A new tree, with the sentinel and the items as they are initialised -/
def new : TreeHeap A where
  links
    | none => ⟨none, none, none, .black⟩
    | some item => ⟨some item, some item, none, .red⟩
  root := none

variable [DecidableEq A]

/-! ## Assignments -/

def modify (self : TreeHeap A) (p : Ptr A) (f : TreeLinks A → TreeLinks A) : TreeHeap A :=
  { self with links := update self.links p (f (self.links p)) }

def setChild (self : TreeHeap A) (p : Ptr A) (d : Side) (q : Ptr A) : TreeHeap A :=
  self.modify p (·.setChild d q)

def setParent (self : TreeHeap A) (p : Ptr A) (q : Option (Ptr A)) : TreeHeap A :=
  self.modify p ({ · with parent := q })

def setColour (self : TreeHeap A) (p : Ptr A) (c : Colour) : TreeHeap A :=
  self.modify p ({ · with colour := c })

/-- The pointer to `p` in its parent, or the root if there is none, becomes `q`. The parent is
looked at on this side first. -/
def replace (self : TreeHeap A) (d : Side) (parent : Option (Ptr A)) (p q : Ptr A) : TreeHeap A :=
  match parent with
  | some parent =>
    if p = (self.links parent).child d then self.setChild parent d q
    else self.setChild parent d.flip q
  | none => { self with root := q }

/-! ## Rotations -/

def rotate (d : Side) (self : TreeHeap A) (item : Ptr A) : TreeHeap A :=
  let other := (self.links item).child d.flip
  let self := self.setChild item d.flip ((self.links other).child d)
  let self :=
    if (self.links other).child d ≠ none then
      self.setParent ((self.links other).child d) (some item)
    else self
  let self := if other ≠ none then self.setParent other (self.links item).parent else self
  let self := self.replace d (self.links item).parent item other
  let self := self.setChild other d item
  if item ≠ none then self.setParent item (some other) else self

/-- `rotate left` -/
def rotateLeft : TreeHeap A → Ptr A → TreeHeap A := rotate .left

/-- `rotate right` -/
def rotateRight : TreeHeap A → Ptr A → TreeHeap A := rotate .right

/-! ## Inserting -/

/-- A round of `insert fixup`, for an item whose parent is red and on this side of its own parent -/
def insertRound (d : Side) (self : TreeHeap A) (item parent grandparent : Ptr A) :
    Option (TreeHeap A × Ptr A) :=
  let uncle := (self.links grandparent).child d.flip
  if (self.links uncle).colour = .red then
    let self := self.setColour parent .black
    let self := self.setColour uncle .black
    some (self.setColour grandparent .red, grandparent)
  else
    let (self, item) :=
      if item = (self.links parent).child d.flip then (self.rotate d parent, parent)
      else (self, item)
    (self.links item).parent.bind fun parent =>
      let self := self.setColour parent .black
      (self.links parent).parent.map fun grandparent =>
        let self := self.setColour grandparent .red
        (self.rotate d.flip grandparent, item)

/-- `insert fixup` -/
def insertFixup : (fuel : Nat) → TreeHeap A → Ptr A → Option (TreeHeap A)
  | 0, _, _ => none
  | fuel + 1, self, item =>
    if item = self.root then some (self.setColour self.root .black)
    else
      (self.links item).parent.bind fun parent =>
        if (self.links parent).colour = .red then
          (self.links parent).parent.bind fun grandparent =>
            let d : Side := if parent = (self.links grandparent).left then .left else .right
            (insertRound d self item parent grandparent).bind fun (self, item) =>
              insertFixup fuel self item
        else some (self.setColour self.root .black)

/-- The search of `insert`, with the parent, the last comparison and the return code. An equal item
is not passed when duplicates are not allowed. -/
def insertSearch (k : TreeClass A) (item : A) (self : TreeHeap A) :
    (fuel : Nat) → (current : Ptr A) → (parent : Option (Ptr A)) → (cmp rc : Int) →
    Option (Option (Ptr A) × Int × Int)
  | 0, _, _, _, _ => none
  | fuel + 1, current, parent, cmp, rc =>
    match current with
    | none => some (parent, cmp, rc)
    | some a =>
      let cmp := k.order.compare a item
      if cmp < 0 then
        insertSearch k item self fuel (self.links current).right (some current) cmp rc
      else if 0 < cmp then
        insertSearch k item self fuel (self.links current).left (some current) cmp rc
      else if k.allowDuplicates then
        insertSearch k item self fuel (self.links current).left (some current) cmp rc
      else insertSearch k item self fuel current (some current) cmp (-1)

/-- The new node, set up and put into the tree -/
def hang (self : TreeHeap A) (item : A) (parent : Option (Ptr A)) (cmp : Int) : TreeHeap A :=
  let self := self.modify (some item) fun _ => ⟨none, none, parent, .red⟩
  match parent with
  | some parent =>
    if cmp < 0 then self.setChild parent .right (some item)
    else self.setChild parent .left (some item)
  | none => { self with root := some item }

/-- `insert`, with the return code -/
def insert (k : TreeClass A) (fuel : Nat) (self : TreeHeap A) (item : A) :
    Option (TreeHeap A × Int) :=
  (insertSearch k item self fuel self.root none 0 0).bind fun (parent, cmp, rc) =>
    if rc = 0 then ((self.hang item parent cmp).insertFixup fuel (some item)).map (·, rc)
    else some (self, rc)

/-! ## Removing -/

/-- A round of `delete fixup`, for an item on this side of its parent -/
def deleteRound (d : Side) (self : TreeHeap A) (item : Ptr A) : Option (TreeHeap A × Ptr A) := do
  let parent ← (self.links item).parent
  let sibling := (self.links parent).child d.flip
  let (self, parent, sibling) ←
    if (self.links sibling).colour = .red then do
      let self := self.setColour sibling .black
      let self := self.setColour parent .red
      let self := self.rotate d parent
      let parent ← (self.links item).parent
      some (self, parent, (self.links parent).child d.flip)
    else some (self, parent, sibling)
  if (self.links ((self.links sibling).child d)).colour = .black ∧
      (self.links ((self.links sibling).child d.flip)).colour = .black then
    some (self.setColour sibling .red, parent)
  else
    let (self, parent, sibling) ←
      if (self.links ((self.links sibling).child d.flip)).colour = .black then do
        let self := self.setColour ((self.links sibling).child d) .black
        let self := self.setColour sibling .red
        let self := self.rotate d.flip sibling
        let parent ← (self.links item).parent
        some (self, parent, (self.links parent).child d.flip)
      else some (self, parent, sibling)
    let self := self.setColour sibling (self.links parent).colour
    let self := self.setColour parent .black
    let self := self.setColour ((self.links sibling).child d.flip) .black
    let self := self.rotate d parent
    some (self, self.root)

/-- `delete fixup` -/
def deleteFixup : (fuel : Nat) → TreeHeap A → Ptr A → Option (TreeHeap A)
  | 0, _, _ => none
  | fuel + 1, self, item =>
    if item ≠ self.root ∧ (self.links item).colour = .black then
      (self.links item).parent.bind fun parent =>
        let d : Side := if item = (self.links parent).left then .left else .right
        (deleteRound d self item).bind fun (self, item) => deleteFixup fuel self item
    else some (self.setColour item .black)

/-- The loop that goes to the left as far as it can -/
def leftmost (self : TreeHeap A) : (fuel : Nat) → Ptr A → Option (Ptr A)
  | 0, _ => none
  | fuel + 1, p =>
    if (self.links p).left ≠ none then leftmost self fuel (self.links p).left else some p

/-- The descendent of an item that leaves the place where it is -/
def descendentOf (fuel : Nat) (self : TreeHeap A) (item : Ptr A) : Option (Ptr A) :=
  if (self.links item).left = none ∨ (self.links item).right = none then some item
  else leftmost self fuel (self.links item).right

/-- The only child of an item that has at most one, or the sentinel -/
def youngestOf (self : TreeHeap A) (descendent : Ptr A) : Ptr A :=
  if (self.links descendent).left ≠ none then (self.links descendent).left
  else (self.links descendent).right

/-- The item is taken out of its parent, and its only child put there. -/
def unlinkDescendent (self : TreeHeap A) (descendent youngest : Ptr A) : TreeHeap A :=
  let self :=
    if youngest ≠ none then self.setParent youngest (self.links descendent).parent else self
  self.replace .left (self.links descendent).parent descendent youngest

/-- The descendent is linked into the structure in the place of the item. -/
def takePlace (self : TreeHeap A) (descendent item : Ptr A) : TreeHeap A :=
  let self := self.modify descendent fun _ => self.links item
  let self := self.replace .left (self.links descendent).parent item descendent
  let self :=
    if (self.links descendent).left ≠ none then
      self.setParent (self.links descendent).left (some descendent)
    else self
  if (self.links descendent).right ≠ none then
    self.setParent (self.links descendent).right (some descendent)
  else self

def remove (fuel : Nat) (self : TreeHeap A) (item : A) : Option (TreeHeap A) :=
  (self.descendentOf fuel (some item)).bind fun descendent =>
    let youngest := self.youngestOf descendent
    let self := self.unlinkDescendent descendent youngest
    let colour := (self.links descendent).colour
    let self := if descendent ≠ some item then self.takePlace descendent (some item) else self
    if youngest ≠ none ∧ colour = .black then self.deleteFixup fuel youngest else some self

/-! ## The fields after an assignment -/

theorem links_modify (self : TreeHeap A) (p : Ptr A) (f : TreeLinks A → TreeLinks A) (q : Ptr A) :
    (self.modify p f).links q = if q = p then f (self.links p) else self.links q :=
  update_apply ..

theorem links_modify_self (self : TreeHeap A) (p : Ptr A) (f : TreeLinks A → TreeLinks A) :
    (self.modify p f).links p = f (self.links p) := update_self ..

theorem links_modify_of_ne (self : TreeHeap A) {p q : Ptr A} (f : TreeLinks A → TreeLinks A)
    (h : q ≠ p) : (self.modify p f).links q = self.links q := update_of_ne h ..

end TreeHeap

namespace TreeLinks

variable (self : TreeLinks A)

@[simp] theorem child_setChild (d : Side) (p : Ptr A) : (self.setChild d p).child d = p := by
  cases d <;> rfl

@[simp] theorem child_flip_setChild (d : Side) (p : Ptr A) :
    (self.setChild d p).child d.flip = self.child d.flip := by
  cases d <;> rfl

@[simp] theorem child_setChild_flip (d : Side) (p : Ptr A) :
    (self.setChild d.flip p).child d = self.child d := by
  cases d <;> rfl

@[simp] theorem parent_setChild (d : Side) (p : Ptr A) :
    (self.setChild d p).parent = self.parent := by
  cases d <;> rfl

@[simp] theorem colour_setChild (d : Side) (p : Ptr A) :
    (self.setChild d p).colour = self.colour := by
  cases d <;> rfl

@[simp] theorem child_parent (d : Side) (q : Option (Ptr A)) :
    ({ self with parent := q } : TreeLinks A).child d = self.child d := by
  cases d <;> rfl

@[simp] theorem child_colour (d : Side) (c : Colour) :
    ({ self with colour := c } : TreeLinks A).child d = self.child d := by
  cases d <;> rfl

end TreeLinks

/-! ## The links of a tree -/

/-- From this pointer on, the links form this tree, whose root has this parent. -/
def Spans (links : Ptr A → TreeLinks A) (parent : Option (Ptr A)) (p : Ptr A) : RbTree A → Prop
  | .leaf => p = none
  | .node c l a r => p = some a ∧ (links p).parent = parent ∧ (links p).colour = c ∧
    Spans links (some p) (links p).left l ∧ Spans links (some p) (links p).right r

/-- The links form the way from a hole up to the root, where the hole is to be filled with this
pointer and has this parent. -/
def FramesHold (links : Ptr A → TreeLinks A) (root : Ptr A) :
    List (Frame A) → (parent : Option (Ptr A)) → (p : Ptr A) → Prop
  | [], parent, p => parent = none ∧ root = p
  | f :: ctx, parent, p => parent = some (some f.item) ∧
    (links (some f.item)).child f.side = p ∧ (links (some f.item)).colour = f.colour ∧
    Spans links (some (some f.item)) ((links (some f.item)).child f.side.flip) f.other ∧
    FramesHold links root ctx (links (some f.item)).parent (some f.item)

variable {f : Frame A}

section Spans

variable {links links' : Ptr A → TreeLinks A} {parent : Option (Ptr A)} {p root : Ptr A}

theorem holds_join {d : Side} {c : Colour} {x y : RbTree A} {a : A} :
    Spans links parent p (.join d c x a y) ↔ p = some a ∧ (links p).parent = parent ∧
      (links p).colour = c ∧ Spans links (some p) ((links p).child d) x ∧
      Spans links (some p) ((links p).child d.flip) y := by
  cases d with
  | left => exact Iff.rfl
  | right =>
    simp only [RbTree.join, Spans, TreeLinks.child, Side.flip]
    tauto

variable {t : RbTree A} {ctx : List (Frame A)}

theorem FramesHold.up (h : FramesHold links root (f :: ctx) parent p)
    (ht : Spans links parent p t) :
    FramesHold links root ctx (links (some f.item)).parent (some f.item) ∧
      Spans links (links (some f.item)).parent (some f.item)
        (.join f.side f.colour t f.item f.other) := by
  obtain ⟨rfl, rfl, hcolour, hother, hctx⟩ := h
  exact ⟨hctx, holds_join.mpr ⟨rfl, rfl, hcolour, ht, hother⟩⟩

theorem FramesHold.down (h : FramesHold links root ctx parent p)
    (ht : Spans links parent p (.join f.side f.colour t f.item f.other)) :
    FramesHold links root (f :: ctx) (some p) ((links p).child f.side) ∧
      Spans links (some p) ((links p).child f.side) t := by
  obtain ⟨rfl, rfl, hcolour, ht, hother⟩ := holds_join.mp ht
  exact ⟨⟨rfl, rfl, hcolour, hother, h⟩, ht⟩

theorem FramesHold.up_append {inner outer : List (Frame A)}
    (h : FramesHold links root (inner ++ outer) parent p) (ht : Spans links parent p t) :
    ∃ parent' p', FramesHold links root outer parent' p' ∧
      Spans links parent' p' (plug inner t) := by
  induction inner generalizing parent p t with
  | nil => exact ⟨_, _, h, ht⟩
  | cons f inner ih => exact ih (h.up ht).1 (h.up ht).2

theorem FramesHold.down_append {inner outer : List (Frame A)}
    (h : FramesHold links root outer parent p) (ht : Spans links parent p (plug inner t)) :
    ∃ parent' p', FramesHold links root (inner ++ outer) parent' p' ∧ Spans links parent' p' t := by
  induction inner generalizing t with
  | nil => exact ⟨_, _, h, ht⟩
  | cons f inner ih =>
    obtain ⟨parent', p', h', ht'⟩ := ih ht
    exact ⟨_, _, h'.down ht'⟩

theorem holds_plug : Spans links none root (plug ctx t) ↔
      ∃ parent p, FramesHold links root ctx parent p ∧ Spans links parent p t := by
  constructor
  · intro h
    have hstart : FramesHold links root [] none root := ⟨rfl, rfl⟩
    have hdown := hstart.down_append h
    rwa [append_nil] at hdown
  · rintro ⟨parent, p, hctx, ht⟩
    rw [← append_nil ctx] at hctx
    obtain ⟨parent', p', ⟨rfl, rfl⟩, h⟩ := hctx.up_append ht
    exact h

theorem Spans.ptr_eq (h : Spans links parent p t) :
    p = none ∧ t = .leaf ∨ ∃ c l a r, p = some a ∧ t = .node c l a r := by
  cases t with
  | leaf => exact .inl ⟨h, rfl⟩
  | node c l a r => exact .inr ⟨c, l, a, r, h.1, rfl⟩

theorem Spans.ptr_unique {parent' : Option (Ptr A)} {p' : Ptr A} (h : Spans links parent p t)
    (h' : Spans links' parent' p' t) : p = p' := by
  cases t with
  | leaf => exact Eq.trans h (Eq.symm h')
  | node c l a r => exact h.1.trans h'.1.symm

theorem Spans.colour_eq (h : Spans links parent p t) (hsentinel : (links none).colour = .black) :
    (links p).colour = t.colour := by
  cases t with
  | leaf =>
    obtain rfl := h
    exact hsentinel
  | node c l a r => exact h.2.2.1

theorem Spans.ptr_ne (h : Spans links parent p t) {a : A} (ha : a ∉ t.toList) : p ≠ some a := by
  rcases h.ptr_eq with ⟨rfl, -⟩ | ⟨c, l, b, r, rfl, rfl⟩
  · exact nofun
  · rintro ⟨⟩
    exact ha (by simp [RbTree.toList])

theorem Spans.congr (h : Spans links parent p t)
    (heq : ∀ a ∈ t.toList, links' (some a) = links (some a)) : Spans links' parent p t := by
  induction t generalizing parent p with
  | leaf => exact h
  | node c l a r ihl ihr =>
    obtain ⟨rfl, hparent, hcolour, hl, hr⟩ := h
    simp only [RbTree.toList, mem_append, mem_cons] at heq
    have ha := heq a (.inr (.inl rfl))
    refine ⟨rfl, by rw [ha]; exact hparent, by rw [ha]; exact hcolour, ?_, ?_⟩
    · rw [ha]
      exact ihl hl fun b hb => heq b (.inl hb)
    · rw [ha]
      exact ihr hr fun b hb => heq b (.inr (.inr hb))

theorem Spans.reparent {parent' : Option (Ptr A)} (h : Spans links parent p t)
    (hnodup : t.toList.Nodup) (hroot : p ≠ none → links' p = { links p with parent := parent' })
    (heq : ∀ a ∈ t.toList, some a ≠ p → links' (some a) = links (some a)) :
    Spans links' parent' p t := by
  cases t with
  | leaf => exact h
  | node c l a r =>
    obtain ⟨rfl, hparent, hcolour, hl, hr⟩ := h
    rw [RbTree.toList, nodup_append] at hnodup
    obtain ⟨-, hnr, hdisjoint⟩ := hnodup
    have ha := hroot (Option.some_ne_none a)
    simp only [RbTree.toList, mem_append, mem_cons, ne_eq, Option.some.injEq] at heq
    refine ⟨rfl, by rw [ha], by rw [ha]; exact hcolour, ?_, ?_⟩
    · rw [ha]
      exact hl.congr fun b hb => heq b (.inl hb) (hdisjoint b hb a mem_cons_self)
    · rw [ha]
      refine hr.congr fun b hb => heq b (.inr (.inr hb)) ?_
      rintro rfl
      exact (nodup_cons.mp hnr).1 hb

end Spans

variable {p : Ptr A}

theorem FramesHold.congr {links links' : Ptr A → TreeLinks A} {root : Ptr A}
    {parent : Option (Ptr A)}
    (h : FramesHold links root ctx parent p)
    (heq : ∀ a ∈ Frames.items ctx, links' (some a) = links (some a)) :
    FramesHold links' root ctx parent p := by
  induction ctx generalizing parent p with
  | nil => exact h
  | cons f ctx ih =>
    obtain ⟨hparent, hp, hcolour, hother, hctx⟩ := h
    simp only [Frames.items, cons_append, mem_cons, mem_append] at heq
    have ha := heq f.item (.inl rfl)
    refine ⟨hparent, by rw [ha]; exact hp, by rw [ha]; exact hcolour, ?_, ?_⟩
    · rw [ha]
      exact hother.congr fun b hb => heq b (.inr (.inl hb))
    · rw [ha]
      exact ih hctx fun b hb => heq b (.inr (.inr hb))

theorem FramesHold.root_mem {links : Ptr A → TreeLinks A} {root : Ptr A}
    {parent : Option (Ptr A)} (h : FramesHold links root (f :: ctx) parent p) :
    ∃ a ∈ Frames.items (f :: ctx), root = some a := by
  induction ctx generalizing f parent p with
  | nil =>
    obtain ⟨-, -, -, -, -, hroot⟩ := h
    exact ⟨f.item, mem_cons_self, hroot⟩
  | cons f' ctx ih =>
    obtain ⟨-, -, -, -, hctx⟩ := h
    obtain ⟨a, ha, hroot⟩ := ih hctx
    exact ⟨a, by rw [Frames.items]; exact mem_append_right _ ha, hroot⟩

section Replace

variable [DecidableEq A] {s : TreeHeap A} {ctx : List (Frame A)} {parent : Option (Ptr A)}
  {x y : A} {d : Side}

theorem FramesHold.setChild (h : FramesHold s.links s.root (f :: ctx) parent p)
    (hnodup : (Frames.items (f :: ctx)).Nodup) (q : Ptr A) :
    FramesHold (s.setChild (some f.item) f.side q).links (s.setChild (some f.item) f.side q).root
      (f :: ctx) parent q := by
  obtain ⟨hparent, -, hcolour, hother, hctx⟩ := h
  simp only [Frames.items, cons_append, nodup_cons, mem_append, not_or] at hnodup
  obtain ⟨⟨hfother, hfctx⟩, -⟩ := hnodup
  have hlinks : ∀ p, p ≠ some f.item → (s.setChild (some f.item) f.side q).links p = s.links p :=
    fun p hne => s.links_modify_of_ne _ hne
  have hself : (s.setChild (some f.item) f.side q).links (some f.item) =
      (s.links (some f.item)).setChild f.side q := s.links_modify_self _ _
  refine ⟨hparent, by rw [hself, TreeLinks.child_setChild],
    by rw [hself, TreeLinks.colour_setChild, hcolour], ?_, ?_⟩
  · rw [hself, TreeLinks.child_flip_setChild]
    refine hother.congr fun a ha => hlinks _ ?_
    rintro ⟨⟩
    exact hfother ha
  · rw [hself, TreeLinks.parent_setChild]
    refine hctx.congr fun a ha => hlinks _ ?_
    rintro ⟨⟩
    exact hfctx ha

theorem FramesHold.replace (h : FramesHold s.links s.root ctx parent (some x))
    (hx : x ∉ Frames.items ctx) (hnodup : (Frames.items ctx).Nodup) (q : Ptr A) :
    FramesHold (s.replace d parent (some x) q).links (s.replace d parent (some x) q).root ctx
      parent q ∧
    ∀ p, parent ≠ some p → (s.replace d parent (some x) q).links p = s.links p := by
  cases ctx with
  | nil =>
    obtain ⟨rfl, -⟩ := h
    exact ⟨⟨rfl, rfl⟩, fun _ _ => rfl⟩
  | cons f ctx =>
    have hset := h.setChild hnodup q
    obtain ⟨rfl, hp, -, hother, -⟩ := h
    simp only [Frames.items, cons_append, mem_cons, mem_append, not_or] at hx
    obtain ⟨-, hxother, -⟩ := hx
    have hreplace : s.replace d (some (some f.item)) (some x) q =
        s.setChild (some f.item) f.side q := by
      unfold TreeHeap.replace
      simp only
      by_cases hside : d = f.side
      · rw [hside, if_pos hp.symm]
      · have hflip : f.side.flip = d := by
          revert hside
          cases d <;> cases f.side <;> decide
        have hflip' : d.flip = f.side := by rw [← hflip, Side.flip_flip]
        rw [if_neg, hflip']
        intro hsame
        rw [hflip, ← hsame] at hother
        exact hother.ptr_ne hxother rfl
    rw [hreplace]
    exact ⟨hset, fun p hne => s.links_modify_of_ne _ fun hp => hne (by rw [hp])⟩

theorem TreeHeap.rotate_eq (hne : x ≠ y) (hother : (s.links (some x)).child d.flip = some y)
    (hx : (s.links (some y)).child d ≠ some x) (hy : (s.links (some y)).child d ≠ some y) :
    ∃ s' : TreeHeap A, s'.root = s.root ∧ (∀ p, s'.links p =
        if p = some y then { s.links (some y) with parent := (s.links (some x)).parent }
        else if p = (s.links (some y)).child d ∧ p ≠ none then
          { s.links p with parent := some (some x) }
        else if p = some x then (s.links (some x)).setChild d.flip ((s.links (some y)).child d)
        else s.links p) ∧
      s.rotate d (some x) = ((s'.replace d (s.links (some x)).parent (some x) (some y)).setChild
        (some y) d (some x)).setParent (some x) (some (some y)) := by
  generalize hb : (s.links (some y)).child d = b at hx hy ⊢
  have hyx : (some y : Ptr A) ≠ some x := fun h => hne (Option.some.inj h).symm
  have hinner : ((s.setChild (some x) d.flip b).links (some y)).child d = b := by
    rw [TreeHeap.setChild, s.links_modify_of_ne _ hyx, hb]
  let s1 := s.setChild (some x) d.flip b
  let s2 := if b ≠ none then s1.setParent b (some (some x)) else s1
  have hroot2 : s2.root = s.root := by
    show (if b ≠ none then s1.setParent b (some (some x)) else s1).root = s.root
    split <;> rfl
  have hlinks2 : ∀ p, s2.links p =
      if p = b ∧ p ≠ none then { s1.links p with parent := some (some x) } else s1.links p := by
    intro p
    show (if b ≠ none then s1.setParent b (some (some x)) else s1).links p = _
    by_cases hnone : b = none
    · rw [if_neg (not_not.mpr hnone), if_neg fun h => h.2 (h.1.trans hnone)]
    · rw [if_pos hnone, TreeHeap.setParent, s1.links_modify]
      by_cases hp : p = b
      · rw [if_pos hp, if_pos ⟨hp, hp ▸ hnone⟩, hp]
      · rw [if_neg hp, if_neg fun h => hp h.1]
  have hlinks1 : ∀ p, s1.links p =
      if p = some x then (s.links (some x)).setChild d.flip b else s.links p :=
    fun p => s.links_modify _ _ p
  have hparent : (s2.links (some x)).parent = (s.links (some x)).parent := by
    rw [hlinks2, if_neg fun h => hx h.1.symm, hlinks1, if_pos rfl, TreeLinks.parent_setChild]
  refine ⟨s2.setParent (some y) (s.links (some x)).parent, hroot2, ?_, ?_⟩
  · intro p
    rw [TreeHeap.setParent, s2.links_modify]
    by_cases hpy : p = some y
    · rw [if_pos hpy, if_pos hpy, hlinks2, if_neg fun h => hy h.1.symm, hlinks1, if_neg hyx]
    · rw [if_neg hpy, if_neg hpy, hlinks2, hlinks1]
      by_cases hpb : p = b ∧ p ≠ none
      · rw [if_pos hpb, if_pos hpb, if_neg fun hpx => hx (hpb.1 ▸ hpx)]
      · rw [if_neg hpb, if_neg hpb]
  · have hparent3 : ((s2.setParent (some y) (s.links (some x)).parent).links (some x)).parent =
        (s.links (some x)).parent := by
      rw [TreeHeap.setParent, s2.links_modify_of_ne _ hyx.symm, hparent]
    unfold TreeHeap.rotate
    simp only [hother, hb, hinner]
    rw [if_pos (show (some y : Ptr A) ≠ none from nofun),
      if_pos (show (some x : Ptr A) ≠ none from nofun)]
    show (((s2.setParent (some y) (s2.links (some x)).parent).replace d
      ((s2.setParent (some y) (s2.links (some x)).parent).links (some x)).parent _ _).setChild _ _
        _).setParent _ _ = _
    rw [hparent, hparent3]

omit [DecidableEq A] in
theorem FramesHold.parent_ne (h : FramesHold s.links s.root ctx parent (some x))
    (hp : ∀ a ∈ Frames.items ctx, p ≠ some a) : parent ≠ some p := by
  cases ctx with
  | nil =>
    obtain ⟨rfl, -⟩ := h
    exact nofun
  | cons f ctx =>
    obtain ⟨rfl, -⟩ := h
    intro hparent
    exact hp f.item mem_cons_self (Option.some.inj hparent).symm

/-- A rotation turns the two joins around, and leaves the rest of the tree. -/
theorem FramesHold.rotate {c1 c2 : Colour} {near inner far : RbTree A}
    (h : FramesHold s.links s.root ctx parent (some x))
    (ht : Spans s.links parent (some x) (.join d c1 near x (.join d c2 inner y far)))
    (hnodup : (x :: y :: (near.toList ++ inner.toList ++ far.toList ++ Frames.items ctx)).Nodup) :
    FramesHold (s.rotate d (some x)).links (s.rotate d (some x)).root ctx parent (some y) ∧
      Spans (s.rotate d (some x)).links parent (some y)
        (.join d c2 (.join d c1 near x inner) y far) ∧
      (s.rotate d (some x)).links none = s.links none := by
  obtain ⟨-, hparent, hcolour, hnear, hinner⟩ := holds_join.mp ht
  obtain ⟨hother, hparentY, hcolourY, hinner, hfar⟩ := holds_join.mp hinner
  rw [hother] at hparentY hcolourY hinner hfar
  simp only [nodup_cons, mem_cons, mem_append, not_or, nodup_append] at hnodup
  obtain ⟨⟨hxy, ⟨⟨hxnear, hxinner⟩, hxfar⟩, hxctx⟩, ⟨⟨⟨hynear, hyinner⟩, hyfar⟩, hyctx⟩,
    ⟨⟨-, hinnerNodup, hnearInner⟩, -, hinnerFar⟩, hctxNodup, hallCtx⟩ := hnodup
  have hptr : ∀ a, a ∉ inner.toList → (s.links (some y)).child d ≠ some a :=
    fun a ha => hinner.ptr_ne ha
  obtain ⟨s', hroot', hlinks', hrotate⟩ :=
    TreeHeap.rotate_eq hxy hother (hptr x hxinner) (hptr y hyinner)
  rw [hparent] at hlinks' hrotate
  have hkept : ∀ a, a ≠ x → a ≠ y → a ∉ inner.toList → s'.links (some a) = s.links (some a) := by
    intro a hax hay hainner
    rw [hlinks', if_neg (by simpa using hay), if_neg fun hb => hptr a hainner hb.1.symm,
      if_neg (by simpa using hax)]
  have hctx' : FramesHold s'.links s'.root ctx parent (some x) := by
    rw [hroot']
    refine h.congr fun a ha => hkept a ?_ ?_ ?_
    · rintro rfl
      exact hxctx ha
    · rintro rfl
      exact hyctx ha
    · intro hainner
      exact hallCtx a (.inl (.inr hainner)) a ha rfl
  obtain ⟨hframes, hothers⟩ := hctx'.replace (d := d) hxctx hctxNodup (some y)
  rw [hrotate]
  generalize s'.replace d parent (some x) (some y) = s4 at hframes hothers ⊢
  have hlinks : ∀ p,
      ((s4.setChild (some y) d (some x)).setParent (some x) (some (some y))).links p =
        if p = some x then { s4.links p with parent := some (some y) }
        else if p = some y then (s4.links p).setChild d (some x) else s4.links p := by
    intro p
    have hx : (s4.setChild (some y) d (some x)).links (some x) = s4.links (some x) :=
      s4.links_modify_of_ne _ (by simpa using hxy)
    rw [TreeHeap.setParent, TreeHeap.links_modify, hx, TreeHeap.setChild, s4.links_modify]
    split
    · next hp => rw [hp]
    · split
      · next hp => rw [hp]
      · rfl
  have hbelow : ∀ a, a ∉ Frames.items ctx → s4.links (some a) = s'.links (some a) := by
    intro a ha
    refine hothers _ (h.parent_ne fun b hb hsame => ?_)
    cases hsame
    exact ha hb
  have hx : s4.links (some x) =
      (s.links (some x)).setChild d.flip ((s.links (some y)).child d) := by
    rw [hbelow x hxctx, hlinks', if_neg (by simpa using hxy),
      if_neg fun hb => hptr x hxinner hb.1.symm, if_pos rfl]
  have hy : s4.links (some y) = { s.links (some y) with parent := parent } := by
    rw [hbelow y hyctx, hlinks', if_pos rfl]
  have hroot : ((s4.setChild (some y) d (some x)).setParent (some x) (some (some y))).root =
      s4.root := rfl
  generalize (s4.setChild (some y) d (some x)).setParent (some x) (some (some y)) = s6
    at hlinks hroot ⊢
  have hx : s6.links (some x) = { (s.links (some x)).setChild d.flip ((s.links (some y)).child d)
      with parent := some (some y) } := by
    rw [hlinks, if_pos rfl, hx]
  have hy : s6.links (some y) = ({ s.links (some y) with parent := parent } : TreeLinks A).setChild
      d (some x) := by
    rw [hlinks, if_neg (by simpa using Ne.symm hxy), if_pos rfl, hy]
  have hkept6 : ∀ a, a ≠ x → a ≠ y → a ∉ inner.toList → a ∉ Frames.items ctx →
      s6.links (some a) = s.links (some a) := by
    intro a hax hay hainner hactx
    rw [hlinks, if_neg (by simpa using hax), if_neg (by simpa using hay), hbelow a hactx,
      hkept a hax hay hainner]
  refine ⟨?_, ?_, ?_⟩
  · rw [hroot]
    refine hframes.congr fun a ha => ?_
    have hax : a ≠ x := fun hsame => hxctx (hsame ▸ ha)
    have hay : a ≠ y := fun hsame => hyctx (hsame ▸ ha)
    rw [hlinks, if_neg (by simpa using hax), if_neg (by simpa using hay)]
  · refine holds_join.mpr ⟨rfl, by simp [hy], by simp [hy, hcolourY], ?_, ?_⟩
    · rw [hy, TreeLinks.child_setChild]
      refine holds_join.mpr ⟨rfl, by simp [hx], by simp [hx, hcolour], ?_, ?_⟩
      · rw [hx, TreeLinks.child_parent, TreeLinks.child_setChild_flip]
        refine hnear.congr fun a ha => hkept6 a ?_ ?_ ?_ ?_
        · exact fun hsame => hxnear (hsame ▸ ha)
        · exact fun hsame => hynear (hsame ▸ ha)
        · exact fun hsame => hnearInner a ha a hsame rfl
        · exact fun hsame => hallCtx a (.inl (.inl ha)) a hsame rfl
      · rw [hx, TreeLinks.child_parent, TreeLinks.child_setChild]
        have hinside : ∀ a ∈ inner.toList, s6.links (some a) = s'.links (some a) := by
          intro a ha
          have hax : a ≠ x := fun hsame => hxinner (hsame ▸ ha)
          have hay : a ≠ y := fun hsame => hyinner (hsame ▸ ha)
          rw [hlinks, if_neg (by simpa using hax), if_neg (by simpa using hay)]
          exact hbelow a fun hactx => hallCtx a (.inl (.inr ha)) a hactx rfl
        refine hinner.reparent hinnerNodup (fun hne => ?_) fun a ha hne => ?_
        · rcases hinner.ptr_eq with ⟨hnone, -⟩ | ⟨c, l, z, r, hz, htree⟩
          · exact absurd hnone hne
          · have hzinner : z ∈ inner.toList := by
              rw [htree]
              simp [RbTree.toList]
            rw [hz, hinside z hzinner, hlinks', if_neg, if_pos ⟨hz.symm, Option.some_ne_none z⟩]
            intro hzy
            exact hyinner (Option.some.inj hzy ▸ hzinner)
        · have hax : a ≠ x := fun hsame => hxinner (hsame ▸ ha)
          have hay : a ≠ y := fun hsame => hyinner (hsame ▸ ha)
          rw [hinside a ha, hlinks', if_neg (by simpa using hay), if_neg fun hb => hne hb.1,
            if_neg (by simpa using hax)]
    · rw [hy, TreeLinks.child_flip_setChild, TreeLinks.child_parent]
      refine hfar.congr fun a ha => hkept6 a ?_ ?_ ?_ ?_
      · exact fun hsame => hxfar (hsame ▸ ha)
      · exact fun hsame => hyfar (hsame ▸ ha)
      · exact fun hsame => hinnerFar a (.inr hsame) a ha rfl
      · exact fun hsame => hallCtx a (.inr ha) a hsame rfl
  · have hnone : ∀ a, (none : Ptr A) ≠ some a := fun a => (Option.some_ne_none a).symm
    rw [hlinks, if_neg (hnone x), if_neg (hnone y), hothers none (h.parent_ne fun a _ => hnone a),
      hlinks', if_neg (hnone y), if_neg fun hb => hb.2 rfl, if_neg (hnone x)]

end Replace

end OpenAmq
