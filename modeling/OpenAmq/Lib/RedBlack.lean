import Mathlib.Data.List.Nodup

/-!
# Red-black trees

Binary trees with coloured nodes, and a tree with a hole as the path from the hole to the root.

* `RbTree`, `RbTree.join` — a tree, and a node with its children by their sides
* `RbTree.NoRedRed`, `RbTree.Height`, `RbTree.Balanced` — what makes a tree a red-black tree
* `Frame`, `plug` — one node on the path, and the tree with the hole filled
* `noRedRed_plug`, `height_plug`, `toList_plug` — what holds of the whole tree, by its parts
-/

namespace OpenAmq.Lib

open List

inductive Colour where
  | black | red
deriving DecidableEq

inductive Side where
  | left | right
deriving DecidableEq

def Side.flip : Side → Side
  | .left => .right
  | .right => .left

@[simp] theorem Side.flip_flip (d : Side) : d.flip.flip = d := by cases d <;> rfl

inductive RbTree (A : Type*) where
  | leaf
  | node (colour : Colour) (left : RbTree A) (item : A) (right : RbTree A)

/-- How much a node adds to the black height -/
def Colour.weight : Colour → Nat
  | .black => 1
  | .red => 0

variable {A : Type*}

namespace RbTree

/-- The colour of the root, where leaves are black -/
def colour : RbTree A → Colour
  | leaf => .black
  | node c _ _ _ => c

def toList : RbTree A → List A
  | leaf => []
  | node _ l a r => l.toList ++ a :: r.toList

/-- A node with one child on this side, and another one on the other side -/
def join (d : Side) (c : Colour) (near : RbTree A) (a : A) (far : RbTree A) : RbTree A :=
  match d with
  | .left => node c near a far
  | .right => node c far a near

def blacken : RbTree A → RbTree A
  | leaf => leaf
  | node _ l a r => node .black l a r

def NoRedRed : RbTree A → Prop
  | leaf => True
  | node c l _ r => (c = .red → l.colour = .black ∧ r.colour = .black) ∧ l.NoRedRed ∧ r.NoRedRed

/-- Every path down passes the same number of black nodes. -/
def Height : RbTree A → Nat → Prop
  | leaf, n => n = 0
  | node c l _ r, n => ∃ m, n = m + c.weight ∧ l.Height m ∧ r.Height m

/-- A red-black tree -/
structure Balanced (t : RbTree A) : Prop where
  root : t.colour = .black
  noRedRed : t.NoRedRed
  height : ∃ n, t.Height n

@[simp] theorem colour_join (d : Side) (c : Colour) (x : RbTree A) (a : A) (y : RbTree A) :
    (join d c x a y).colour = c := by
  cases d <;> rfl

theorem noRedRed_join {d : Side} {c : Colour} {x : RbTree A} {a : A} {y : RbTree A} :
    (join d c x a y).NoRedRed ↔
      (c = .red → x.colour = .black ∧ y.colour = .black) ∧ x.NoRedRed ∧ y.NoRedRed := by
  cases d with
  | left => exact Iff.rfl
  | right =>
    simp only [join, NoRedRed]
    tauto

theorem height_join {d : Side} {c : Colour} {x : RbTree A} {a : A} {y : RbTree A} {n : Nat} :
    (join d c x a y).Height n ↔ ∃ m, n = m + c.weight ∧ x.Height m ∧ y.Height m := by
  cases d with
  | left => exact Iff.rfl
  | right =>
    constructor
    · intro ⟨m, hn, hy, hx⟩
      exact ⟨m, hn, hx, hy⟩
    · intro ⟨m, hn, hx, hy⟩
      exact ⟨m, hn, hy, hx⟩

variable {t : RbTree A}

theorem Height.unique {n m : Nat} (hn : t.Height n) (hm : t.Height m) : n = m := by
  induction t generalizing n m with
  | leaf => exact hn.trans hm.symm
  | node c l a r ihl _ =>
    obtain ⟨n', rfl, hl, -⟩ := hn
    obtain ⟨m', rfl, hl', -⟩ := hm
    rw [ihl hl hl']

theorem eq_leaf_of_height_zero (h : t.Height 0) (hblack : t.colour = .black) :
    t = leaf := by
  cases t with
  | leaf => rfl
  | node c l a r =>
    obtain rfl : c = .black := hblack
    obtain ⟨m, hm, -⟩ := h
    cases hm

theorem height_blacken {n : Nat} (h : t.Height n) (hred : t.colour = .red) :
    t.blacken.Height (n + 1) := by
  cases t with
  | leaf => cases hred
  | node c l a r =>
    obtain rfl : c = .red := hred
    obtain ⟨m, hm, hl, hr⟩ := h
    exact ⟨m, congrArg (· + 1) hm, hl, hr⟩

theorem noRedRed_blacken (h : t.NoRedRed) : t.blacken.NoRedRed := by
  cases t with
  | leaf => trivial
  | node c l a r => exact ⟨nofun, h.2⟩

@[simp] theorem colour_blacken (t : RbTree A) : t.blacken.colour = .black := by cases t <;> rfl

@[simp] theorem toList_blacken (t : RbTree A) : t.blacken.toList = t.toList := by cases t <;> rfl

theorem balanced_blacken {n : Nat} (hcolours : t.NoRedRed) (hheight : t.Height n) :
    t.blacken.Balanced where
  root := colour_blacken t
  noRedRed := noRedRed_blacken hcolours
  height := by
    cases hc : t.colour with
    | red => exact ⟨n + 1, height_blacken hheight hc⟩
    | black =>
      have hsame : t.blacken = t := by
        cases t with
        | leaf => rfl
        | node c l a r => exact congrArg (node · l a r) hc.symm
      exact ⟨n, hsame.symm ▸ hheight⟩

theorem join_flip (d : Side) (c : Colour) (near : RbTree A) (a : A) (far : RbTree A) :
    join d.flip c near a far = join d c far a near := by
  cases d <;> rfl

theorem exists_join (d : Side) (c : Colour) (l : RbTree A) (a : A) (r : RbTree A) :
    ∃ near far, node c l a r = join d c near a far := by
  cases d with
  | left => exact ⟨l, r, rfl⟩
  | right => exact ⟨r, l, rfl⟩

theorem exists_node (d : Side) (c : Colour) (near : RbTree A) (a : A) (far : RbTree A) :
    ∃ l r, join d c near a far = node c l a r := by
  cases d with
  | left => exact ⟨near, far, rfl⟩
  | right => exact ⟨far, near, rfl⟩

theorem toList_join_congr {near near' far far' : RbTree A} (hnear : near.toList = near'.toList)
    (hfar : far.toList = far'.toList) (d : Side) (c c' : Colour) (a : A) :
    (join d c near a far).toList = (join d c' near' a far').toList := by
  cases d <;> simp [join, toList, hnear, hfar]

theorem toList_rotate (d : Side) (c1 c2 c1' c2' : Colour) (near inner far : RbTree A) (x y : A) :
    (join d c1 near x (join d c2 inner y far)).toList =
      (join d c2' (join d c1' near x inner) y far).toList := by
  cases d <;> simp [join, toList]

def listFrom (d : Side) (t : RbTree A) : List A :=
  match d with
  | .left => t.toList
  | .right => t.toList.reverse

theorem listFrom_join (d : Side) (c : Colour) (near : RbTree A) (a : A) (far : RbTree A) :
    (join d c near a far).listFrom d = near.listFrom d ++ a :: far.listFrom d := by
  cases d <;> simp [join, toList, listFrom]

@[elab_as_elim]
theorem join_induction (d : Side) {motive : RbTree A → Prop} (leaf : motive leaf)
    (join : ∀ c near a far, motive near → motive far → motive (join d c near a far))
    (t : RbTree A) : motive t := by
  induction t with
  | leaf => exact leaf
  | node c l a r ihl ihr =>
    cases d with
    | left => exact join c l a r ihl ihr
    | right => exact join c r a l ihr ihl

theorem toList_join_perm (d : Side) (c : Colour) (near : RbTree A) (a : A) (far : RbTree A) :
    (join d c near a far).toList.Perm (a :: (near.toList ++ far.toList)) := by
  cases d with
  | left => exact perm_middle
  | right => exact perm_middle.trans (perm_append_comm.cons a)

end RbTree

/-! ## Trees with a hole -/

/-- A node whose child on one side is the hole or on the way to it -/
structure Frame (A : Type*) where
  side : Side
  colour : Colour
  item : A
  other : RbTree A

/-- The tree whose hole is filled -/
def plug : List (Frame A) → RbTree A → RbTree A
  | [], t => t
  | f :: ctx, t => plug ctx (.join f.side f.colour t f.item f.other)

namespace Frames

/-- The colour above the hole, where nothing above counts as black -/
def above : List (Frame A) → Colour
  | [] => .black
  | f :: _ => f.colour

/-- The colour at the root, which is that of the hole if there is nothing above -/
def root : List (Frame A) → Colour → Colour
  | [], c => c
  | f :: ctx, _ => root ctx f.colour

def NoRedRed : List (Frame A) → Prop
  | [] => True
  | f :: ctx => f.other.NoRedRed ∧
    (f.colour = .red → f.other.colour = .black ∧ above ctx = .black) ∧ NoRedRed ctx

/-- What fills the hole has to have height `n`. -/
def Height : List (Frame A) → Nat → Prop
  | [], _ => True
  | f :: ctx, n => f.other.Height n ∧ Height ctx (n + f.colour.weight)

/-- The items to the left of the hole -/
def before : List (Frame A) → List A
  | [] => []
  | f :: ctx => before ctx ++
    match f.side with
    | .left => []
    | .right => f.other.toList ++ [f.item]

/-- The items to the right of the hole -/
def after : List (Frame A) → List A
  | [] => []
  | f :: ctx =>
    (match f.side with
    | .left => f.item :: f.other.toList
    | .right => []) ++ after ctx

/-- The items on this side of the hole, from the hole on -/
def beyond (d : Side) (ctx : List (Frame A)) : List A :=
  match d with
  | .left => (before ctx).reverse
  | .right => after ctx

theorem beyond_cons (d : Side) (f : Frame A) (ctx : List (Frame A)) : beyond d (f :: ctx) =
      (if f.side = d then [] else f.item :: f.other.listFrom d.flip) ++ beyond d ctx := by
  cases d <;> cases hf : f.side <;> simp [beyond, before, after, hf, RbTree.listFrom, Side.flip]

/-- All items but those in the hole -/
def items : List (Frame A) → List A
  | [] => []
  | f :: ctx => f.item :: f.other.toList ++ items ctx

end Frames

theorem toList_plug (ctx : List (Frame A)) (t : RbTree A) :
    (plug ctx t).toList = Frames.before ctx ++ t.toList ++ Frames.after ctx := by
  induction ctx generalizing t with
  | nil => simp [plug, Frames.before, Frames.after]
  | cons f ctx ih =>
    rw [plug, ih]
    obtain ⟨d, c, a, y⟩ := f
    cases d <;> simp [Frames.before, Frames.after, RbTree.join, RbTree.toList]

variable {t t' : RbTree A}

theorem toList_plug_congr (ctx : List (Frame A)) (h : t.toList = t'.toList) :
    (plug ctx t).toList = (plug ctx t').toList := by
  rw [toList_plug, toList_plug, h]

theorem toList_plug_perm (ctx : List (Frame A)) (t : RbTree A) :
    (plug ctx t).toList.Perm (t.toList ++ Frames.items ctx) := by
  induction ctx generalizing t with
  | nil => simp [plug, Frames.items]
  | cons f ctx ih =>
    rw [plug, Frames.items]
    refine (ih _).trans ?_
    refine ((RbTree.toList_join_perm _ _ _ _ _).append_right _).trans ?_
    rw [cons_append, append_assoc, cons_append]
    exact perm_middle.symm

theorem colour_plug (ctx : List (Frame A)) (t : RbTree A) :
    (plug ctx t).colour = Frames.root ctx t.colour := by
  induction ctx generalizing t with
  | nil => rfl
  | cons f ctx ih =>
    rw [plug, ih, RbTree.colour_join]
    rfl

variable {ctx : List (Frame A)}

theorem noRedRed_plug : (plug ctx t).NoRedRed ↔
      Frames.NoRedRed ctx ∧ t.NoRedRed ∧ (Frames.above ctx = .red → t.colour = .black) := by
  induction ctx generalizing t with
  | nil => simp [plug, Frames.NoRedRed, Frames.above]
  | cons f ctx ih =>
    rw [plug, ih, RbTree.noRedRed_join, RbTree.colour_join, Frames.NoRedRed, Frames.above]
    cases hf : f.colour <;> cases ha : Frames.above ctx <;> simp <;> tauto

theorem height_plug {n : Nat}
    (hctx : Frames.Height ctx n) (ht : t.Height n) : ∃ m, (plug ctx t).Height m := by
  induction ctx generalizing t n with
  | nil => exact ⟨n, ht⟩
  | cons f ctx ih => exact ih hctx.2 (RbTree.height_join.mpr ⟨n, rfl, ht, hctx.1⟩)

theorem height_of_plug {m : Nat}
    (h : (plug ctx t).Height m) : ∃ n, Frames.Height ctx n ∧ t.Height n := by
  induction ctx generalizing t with
  | nil => exact ⟨m, trivial, h⟩
  | cons f ctx ih =>
    obtain ⟨n, hctx, hjoin⟩ := ih h
    obtain ⟨k, rfl, ht, hother⟩ := RbTree.height_join.mp hjoin
    exact ⟨k, ⟨hother, hctx⟩, ht⟩

theorem plug_append (inner outer : List (Frame A)) (t : RbTree A) :
    plug (inner ++ outer) t = plug outer (plug inner t) := by
  induction inner generalizing t with
  | nil => rfl
  | cons f inner ih => exact ih _

theorem listFrom_plug_join (ctx : List (Frame A)) (d : Side) (c : Colour) (near : RbTree A) (a : A)
    (far : RbTree A) : ∃ l, (plug ctx (.join d c near a far)).listFrom d.flip =
      l ++ a :: (near.listFrom d.flip ++ Frames.beyond d ctx) := by
  cases d with
  | left =>
    refine ⟨(Frames.after ctx).reverse ++ far.toList.reverse, ?_⟩
    simp [RbTree.listFrom, Side.flip, Frames.beyond, toList_plug, RbTree.join, RbTree.toList]
  | right =>
    refine ⟨Frames.before ctx ++ far.toList, ?_⟩
    simp [RbTree.listFrom, Side.flip, Frames.beyond, toList_plug, RbTree.join, RbTree.toList]

theorem exists_plug {a : A} (h : a ∈ t.toList) :
    ∃ ctx c l r, t = plug ctx (.node c l a r) := by
  induction t with
  | leaf => cases h
  | node c l b r ihl ihr =>
    simp only [RbTree.toList, mem_append, mem_cons] at h
    rcases h with h | rfl | h
    · obtain ⟨ctx, c', l', r', rfl⟩ := ihl h
      exact ⟨ctx ++ [⟨.left, c, b, r⟩], c', l', r', by rw [plug_append]; rfl⟩
    · exact ⟨[], c, l, r, rfl⟩
    · obtain ⟨ctx, c', l', r', rfl⟩ := ihr h
      exact ⟨ctx ++ [⟨.right, c, b, l⟩], c', l', r', by rw [plug_append]; rfl⟩

theorem Frames.before_of_left (h : ∀ f ∈ ctx, f.side = Side.left) :
    Frames.before ctx = [] := by
  induction ctx with
  | nil => rfl
  | cons f ctx ih =>
    rw [forall_mem_cons] at h
    rw [Frames.before, ih h.2, h.1]
    rfl

theorem RbTree.Balanced.of_plug
    (h : (plug ctx t).Balanced) (hcolour : ctx = [] ∨ Frames.above ctx = .red → t'.colour = .black)
    (hcolours : t.NoRedRed → t'.NoRedRed) (hheight : ∀ n, t.Height n → t'.Height n) :
    (plug ctx t').Balanced := by
  obtain ⟨hroot, hred, n, hn⟩ := h
  obtain ⟨hctx, ht, -⟩ := noRedRed_plug.mp hred
  obtain ⟨m, hctxHeight, hm⟩ := height_of_plug hn
  refine ⟨?_, noRedRed_plug.mpr ⟨hctx, hcolours ht, fun hred => hcolour (.inr hred)⟩,
    height_plug hctxHeight (hheight m hm)⟩
  rw [colour_plug] at hroot ⊢
  cases ctx with
  | nil => exact hcolour (.inl rfl)
  | cons f ctx => exact hroot

theorem RbTree.Balanced.of_same
    (h : (plug ctx t).Balanced) (hcolour : t'.colour = t.colour)
    (hcolours : t.NoRedRed → t'.NoRedRed) (hheight : ∀ n, t.Height n → t'.Height n) :
    (plug ctx t').Balanced := by
  refine h.of_plug (fun hwhy => ?_) hcolours hheight
  rw [hcolour]
  rcases hwhy with rfl | habove
  · exact h.root
  · exact (noRedRed_plug.mp h.noRedRed).2.2 habove

theorem RbTree.Balanced.red_of_only {d : Side} {a : A}
    (h : (plug ctx (.join d .black .leaf a t)).Balanced) : t = .leaf ∨ t.colour = .red := by
  obtain ⟨n, hn⟩ := h.height
  obtain ⟨m, -, hm⟩ := height_of_plug hn
  obtain ⟨k, rfl, rfl, ht⟩ := height_join.mp hm
  cases hcolour : t.colour with
  | red => exact .inr rfl
  | black => exact .inl (eq_leaf_of_height_zero ht hcolour)

/-- A node with at most one child is taken out, and if it is black its child becomes black. That
leaves a red-black tree, unless a black node without children was below another one. -/
theorem RbTree.Balanced.remove_iff {d : Side} {c : Colour} {a : A}
    (h : (plug ctx (.join d c .leaf a t)).Balanced) :
    (plug ctx (if c = .black then t.blacken else t)).Balanced ↔
      c = .red ∨ t ≠ .leaf ∨ ctx = [] := by
  have hcolours := (noRedRed_plug.mp h.noRedRed).2.1
  rw [noRedRed_join] at hcolours
  cases c with
  | red =>
    refine iff_of_true ?_ (.inl rfl)
    rw [if_neg (by decide)]
    refine h.of_plug (fun _ => (hcolours.1 rfl).2) (fun _ => hcolours.2.2) fun n hn => ?_
    obtain ⟨k, rfl, -, hk⟩ := height_join.mp hn
    exact hk
  | black =>
    rw [if_pos rfl]
    rcases h.red_of_only with rfl | hred
    · cases ctx with
      | nil => exact iff_of_true ⟨rfl, trivial, 0, rfl⟩ (.inr (.inr rfl))
      | cons f ctx =>
        refine iff_of_false (fun hbalanced => ?_) (by simp)
        -- the other subtree would have two heights
        obtain ⟨n, hn⟩ := h.height
        obtain ⟨m, ⟨hother, -⟩, hm⟩ := height_of_plug hn
        obtain ⟨k, rfl, rfl, -⟩ := height_join.mp hm
        obtain ⟨n', hn'⟩ := hbalanced.height
        obtain ⟨m', ⟨hother', -⟩, hm'⟩ := height_of_plug hn'
        obtain rfl : m' = 0 := hm'
        cases hother.unique hother'
    · refine iff_of_true ?_ (.inr (.inl ?_))
      · refine h.of_plug (fun _ => colour_blacken t) (fun _ => noRedRed_blacken hcolours.2.2)
          fun n hn => ?_
        obtain ⟨k, rfl, -, hk⟩ := height_join.mp hn
        exact height_blacken hk hred
      · rintro rfl
        cases hred

end OpenAmq.Lib
