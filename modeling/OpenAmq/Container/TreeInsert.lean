import OpenAmq.Container.Tree

/-!
# Inserting into a tree

* `insertFixup_settles` — the way up ends, with a red-black tree of the same items in order
* `insertSearch_settles` — the search ends at a leaf, between what is less and what is not
* `insert_settles` — both together
-/

namespace OpenAmq

open Lib List Frames RbTree

variable {A : Type*} [DecidableEq A] {s : TreeHeap A} {ctx : List (Frame A)}
  {parent : Option (Ptr A)} {x : A} {d : Side} {c : Colour}

/-! ## Recolouring -/

variable {p : Ptr A} {t : RbTree A} {g : A} {k : TreeClass A}

theorem TreeHeap.links_setColour_of_ne {q : Ptr A} (h : q ≠ p) :
    (s.setColour p c).links q = s.links q := s.links_modify_of_ne _ h

theorem TreeHeap.links_setColour_self (s : TreeHeap A) (p : Ptr A) (c : Colour) :
    (s.setColour p c).links p = { s.links p with colour := c } := s.links_modify_self _ _

theorem Spans.setColour_of_notMem (h : Spans s.links parent p t) (hx : x ∉ t.toList) :
    Spans (s.setColour (some x) c).links parent p t := by
  refine h.congr fun a ha => TreeHeap.links_setColour_of_ne ?_
  rintro ⟨⟩
  exact hx ha

theorem FramesHold.setColour (h : FramesHold s.links s.root ctx parent p) (hx : x ∉ items ctx) :
    FramesHold (s.setColour (some x) c).links (s.setColour (some x) c).root ctx parent p := by
  refine h.congr fun a ha => TreeHeap.links_setColour_of_ne ?_
  rintro ⟨⟩
  exact hx ha

theorem Spans.setColour {k : Colour} {near far : RbTree A}
    (h : Spans s.links parent p (.join d c near x far)) (hnear : x ∉ near.toList)
    (hfar : x ∉ far.toList) :
    Spans (s.setColour (some x) k).links parent p (.join d k near x far) := by
  obtain ⟨rfl, hparent, -, hn, hf⟩ := holds_join.mp h
  refine holds_join.mpr ⟨rfl, ?_, ?_, ?_, ?_⟩
  · rw [s.links_setColour_self]
    exact hparent
  · rw [s.links_setColour_self]
  · rw [s.links_setColour_self, TreeLinks.child_colour]
    exact hn.setColour_of_notMem hnear
  · rw [s.links_setColour_self, TreeLinks.child_colour]
    exact hf.setColour_of_notMem hfar

theorem Spans.setColour_near {c' : Colour} {a : A} {near near' far : RbTree A}
    (h : Spans s.links parent (some g) (.join d c near g far)) (hne : g ≠ a)
    (hfar : a ∉ far.toList)
    (hnear : ∀ parent p, Spans s.links parent p near →
      Spans (s.setColour (some a) c').links parent p near')
    : Spans (s.setColour (some a) c').links parent (some g) (.join d c near' g far) := by
  have hlinks : (s.setColour (some a) c').links (some g) = s.links (some g) :=
    TreeHeap.links_setColour_of_ne (by simpa using hne)
  obtain ⟨-, hparent, hcolour, hn, hf⟩ := holds_join.mp h
  refine holds_join.mpr ⟨rfl, ?_, ?_, ?_, ?_⟩
  · rw [hlinks]
    exact hparent
  · rw [hlinks]
    exact hcolour
  · rw [hlinks]
    exact hnear _ _ hn
  · rw [hlinks]
    exact hf.setColour_of_notMem hfar

theorem Spans.blacken (h : Spans s.links none s.root t) (hne : t ≠ .leaf)
    (hnodup : t.toList.Nodup) :
    Spans (s.setColour s.root .black).links none (s.setColour s.root .black).root t.blacken := by
  cases t with
  | leaf => exact absurd rfl hne
  | node c l a r =>
    have hroot : s.root = some a := h.1
    rw [toList, nodup_append, nodup_cons] at hnodup
    obtain ⟨-, ⟨har, -⟩, hdisjoint⟩ := hnodup
    show Spans (s.setColour s.root .black).links none s.root _
    rw [hroot] at h ⊢
    exact Spans.setColour (d := .left) h (fun hal => hdisjoint a hal a mem_cons_self rfl) har

/-! ## The way up -/

/-- What `insert fixup` leaves: a red-black tree with these items. -/
structure Fixed (s : TreeHeap A) (items : List A) (s' : TreeHeap A) : Prop where
  tree : ∃ t : RbTree A, Spans s'.links none s'.root t ∧ t.Balanced ∧ t.toList = items
  sentinel : s'.links none = s.links none

theorem insertFixup_done {n : Nat} (h : FramesHold s.links s.root ctx parent (some x))
    (ht : Spans s.links parent (some x) t) (hnodup : (plug ctx t).toList.Nodup)
    (habove : above ctx = .black) (hcolours : (plug ctx t).NoRedRed)
    (hheight : (plug ctx t).Height n) :
    ∃ s', Settles (fun fuel => s.insertFixup fuel (some x)) s' ∧
      Fixed s (plug ctx t).toList s' := by
  have hends : ∀ fuel, s.insertFixup (fuel + 1) (some x) = some (s.setColour s.root .black) := by
    intro fuel
    rw [TreeHeap.insertFixup]
    split
    · rfl
    · next hroot =>
      cases ctx with
      | nil => exact absurd h.2.symm hroot
      | cons f ctx =>
        obtain ⟨hparent, -, hcolour, -⟩ := h
        have hparentX : (s.links (some x)).parent = some (some f.item) := by
          rcases ht.ptr_eq with ⟨hnone, -⟩ | ⟨c, l, a, r, ha, rfl⟩
          · cases hnone
          · cases ha
            exact ht.2.1.trans hparent
        rw [hparentX, Option.bind_some, if_neg]
        rw [hcolour, show f.colour = .black from habove]
        decide
  have hroot : Spans s.links none s.root (plug ctx t) := holds_plug.mpr ⟨_, _, h, ht⟩
  have hne : plug ctx t ≠ .leaf := by
    intro hleaf
    have hempty := toList_plug ctx t
    rw [hleaf] at hempty
    rcases ht.ptr_eq with ⟨hnone, -⟩ | ⟨c, l, a, r, -, rfl⟩
    · cases hnone
    · simp [toList] at hempty
  have hrootItem : s.root ≠ none := by
    rcases hroot.ptr_eq with ⟨-, hleaf⟩ | ⟨c, l, a, r, ha, -⟩
    · exact absurd hleaf hne
    · rw [ha]
      exact Option.some_ne_none a
  refine ⟨_, .of_add 1 hends, ⟨⟨_, hroot.blacken hne hnodup, ?_, toList_blacken _⟩, ?_⟩⟩
  · exact balanced_blacken hcolours hheight
  · exact TreeHeap.links_setColour_of_ne hrootItem.symm

/-- A red item whose parent may be red, in a tree that is a red-black tree otherwise. -/
structure Rising (s : TreeHeap A) (ctx : List (Frame A)) (parent : Option (Ptr A)) (x : A)
    (l r : RbTree A) : Prop where
  frames : FramesHold s.links s.root ctx parent (some x)
  holds : Spans s.links parent (some x) (.node .red l x r)
  nodup : ((node .red l x r).toList ++ items ctx).Nodup
  colours : Frames.NoRedRed ctx
  below : (node .red l x r).NoRedRed
  height : ∃ n, Frames.Height ctx n ∧ (node .red l x r).Height n
  root : root ctx .black = .black
  sentinel : (s.links none).colour = .black

/-- The pointers around a red parent. -/
structure Around (s : TreeHeap A) (f1 f2 : Frame A) (ctx : List (Frame A)) (x : A) : Prop where
  child1 : (s.links (some f1.item)).child f1.side = some x
  other1 : Spans s.links (some (some f1.item)) ((s.links (some f1.item)).child f1.side.flip)
    f1.other
  parent1 : (s.links (some f1.item)).parent = some (some f2.item)
  child2 : (s.links (some f2.item)).child f2.side = some f1.item
  other2 : Spans s.links (some (some f2.item)) ((s.links (some f2.item)).child f2.side.flip)
    f2.other
  frames : FramesHold s.links s.root ctx (s.links (some f2.item)).parent (some f2.item)

section Rounds

variable {l r : RbTree A} {f1 f2 : Frame A}

/-- The parent and the grandparent are nowhere else. -/
structure Apart (f1 f2 : Frame A) (ctx : List (Frame A)) (x : A) (l r : RbTree A) : Prop where
  below1 : f1.item ∉ l.toList ++ x :: r.toList
  other1 : f1.item ∉ f1.other.toList
  ne : f1.item ≠ f2.item
  uncle1 : f1.item ∉ f2.other.toList
  above1 : f1.item ∉ items ctx
  below2 : f2.item ∉ l.toList ++ x :: r.toList
  other2 : f2.item ∉ f1.other.toList
  uncle2 : f2.item ∉ f2.other.toList
  above2 : f2.item ∉ items ctx

omit [DecidableEq A] in
theorem Rising.apart (h : Rising s (f1 :: f2 :: ctx) parent x l r) : Apart f1 f2 ctx x l r := by
  have hnodup := h.nodup
  simp only [items, toList, cons_append] at hnodup
  obtain ⟨-, habove, hdisjoint⟩ := nodup_append.mp hnodup
  simp only [nodup_cons, mem_append, mem_cons, not_or] at habove
  obtain ⟨⟨hother1, hne, huncle1, habove1⟩, habove⟩ := habove
  obtain ⟨-, hgrand, hbeside⟩ := nodup_append.mp habove
  simp only [nodup_cons, mem_append, not_or] at hgrand
  exact
    { below1 := fun hmem => hdisjoint _ hmem _ mem_cons_self rfl
      other1 := hother1
      ne := hne
      uncle1 := huncle1
      above1 := habove1
      below2 := fun hmem => hdisjoint _ hmem f2.item (by simp) rfl
      other2 := fun hmem => hbeside _ hmem _ mem_cons_self rfl
      uncle2 := hgrand.1.1
      above2 := hgrand.1.2 }

omit [DecidableEq A] in
theorem Rising.uncle_apart (h : Rising s (f1 :: f2 :: ctx) parent x l r) {u : A}
    {ul ur : RbTree A} (hu : f2.other = .node c ul u ur) :
    u ∉ l.toList ++ x :: r.toList ∧ u ≠ f1.item ∧ u ∉ f1.other.toList ∧ u ≠ f2.item ∧
      u ∉ ul.toList ∧ u ∉ ur.toList ∧ u ∉ items ctx := by
  have hmem : u ∈ f2.other.toList := by
    rw [hu]
    simp [toList]
  have hapart := h.apart
  have hnodup := h.nodup
  simp only [items, toList, cons_append] at hnodup
  obtain ⟨-, habove, hdisjoint⟩ := nodup_append.mp hnodup
  obtain ⟨-, habove⟩ := nodup_cons.mp habove
  obtain ⟨-, hgrand, hbeside⟩ := nodup_append.mp habove
  obtain ⟨-, hgrand⟩ := nodup_cons.mp hgrand
  obtain ⟨huncle, -, hctx⟩ := nodup_append.mp hgrand
  rw [hu, toList] at huncle
  obtain ⟨-, hright, hleft⟩ := nodup_append.mp huncle
  refine ⟨?_, ?_, ?_, ?_, ?_, ?_, ?_⟩
  · intro hbelow
    exact hdisjoint u hbelow u (by simp [hmem]) rfl
  · rintro rfl
    exact hapart.uncle1 hmem
  · intro hother
    exact hbeside u hother u (by simp [hmem]) rfl
  · rintro rfl
    exact hapart.uncle2 hmem
  · intro hul
    exact hleft u hul u mem_cons_self rfl
  · exact (nodup_cons.mp hright).1
  · intro hitems
    exact hctx u hmem u hitems rfl

omit [DecidableEq A] in
theorem Rising.around (h : Rising s (f1 :: f2 :: ctx) parent x l r) : Around s f1 f2 ctx x := by
  obtain ⟨-, hchild1, -, hother1, hparent1, hchild2, -, hother2, hctx⟩ := h.frames
  exact ⟨hchild1, hother1, hparent1, hchild2, hother2, hctx⟩

omit [DecidableEq A] in
theorem Rising.black_of_red {f : Frame A} (h : Rising s (f :: ctx) parent x l r)
    (hred : f.colour = .red) : ∃ f2 ctx', ctx = f2 :: ctx' ∧ f2.colour = .black ∧
      f.other.colour = .black := by
  obtain ⟨-, hcolours, -⟩ := h.colours
  obtain ⟨hother, habove⟩ := hcolours hred
  cases ctx with
  | nil =>
    have hroot := h.root
    rw [show Frames.root [f] .black = f.colour from rfl, hred] at hroot
    cases hroot
  | cons f2 ctx' => exact ⟨f2, ctx', rfl, habove, hother⟩

theorem Rising.side_eq (h : Rising s (f1 :: f2 :: ctx) parent x l r) :
    (if some f1.item = (s.links (some f2.item)).left then Side.left else .right) = f2.side := by
  have haround := h.around
  cases hside : f2.side with
  | left =>
    have hchild := haround.child2
    rw [hside] at hchild
    exact if_pos hchild.symm
  | right =>
    refine if_neg fun hsame => ?_
    have hother := haround.other2
    rw [hside, show Side.right.flip = .left from rfl,
      show (s.links (some f2.item)).child .left = (s.links (some f2.item)).left from rfl,
      ← hsame] at hother
    exact hother.ptr_ne h.apart.uncle1 rfl

/-- A red uncle: the colours change, and the grandparent may have a red parent. -/
theorem Rising.red_uncle (h : Rising s (f1 :: f2 :: ctx) parent x l r) (hred : f1.colour = .red)
    (huncle : f2.other.colour = .red) :
    ∃ s' parent' l' r', s.insertRound f2.side (some x) (some f1.item) (some f2.item) =
        some (s', some f2.item) ∧ Rising s' ctx parent' f2.item l' r' ∧
      (plug ctx (.node .red l' f2.item r')).toList =
        (plug (f1 :: f2 :: ctx) (.node .red l x r)).toList ∧ s'.links none = s.links none := by
  have haround := h.around
  have hapart := h.apart
  obtain ⟨f2', ctx', hctx, hblack, -⟩ := h.black_of_red hred
  obtain ⟨rfl, rfl⟩ := cons.inj hctx
  cases hu : f2.other with
  | leaf =>
    rw [hu] at huncle
    cases huncle
  | node c ul u ur =>
    obtain rfl : c = .red := by
      rw [hu] at huncle
      exact huncle
    obtain ⟨hub, hup, huo, hug, hul, hur, huctx⟩ := h.uncle_apart hu
    have huncleHolds := haround.other2
    rw [hu] at huncleHolds
    have huncleRed : (s.links (some u)).colour = .red := by
      obtain ⟨hptr, -, hcolour, -⟩ := huncleHolds
      rw [← hptr]
      exact hcolour
    have hparentHolds : Spans s.links (some (some f2.item)) (some f1.item)
        (.join f1.side .red (.node .red l x r) f1.item f1.other) := by
      obtain ⟨rfl, -, hcolour, -⟩ := h.frames
      exact holds_join.mpr
        ⟨rfl, haround.parent1, hcolour.trans hred, haround.child1 ▸ h.holds, haround.other1⟩
    have hgrandHolds : Spans s.links (s.links (some f2.item)).parent (some f2.item)
        (.join f2.side .black (.join f1.side .red (.node .red l x r) f1.item f1.other) f2.item
          (.node .red ul u ur)) := by
      obtain ⟨-, -, -, -, -, -, hcolour, -⟩ := h.frames
      exact holds_join.mpr
        ⟨rfl, rfl, hcolour.trans hblack, haround.child2 ▸ hparentHolds, huncleHolds⟩
    have hround : s.insertRound f2.side (some x) (some f1.item) (some f2.item) =
        some (((s.setColour (some f1.item) .black).setColour (some u) .black).setColour
          (some f2.item) .red, some f2.item) := by
      unfold TreeHeap.insertRound
      simp only [huncleHolds.1, huncleRed, if_true]
    have hmid : Spans ((s.setColour (some f1.item) .black).setColour (some u) .black).links
        (s.links (some f2.item)).parent (some f2.item)
        (.join f2.side .black (.join f1.side .black (.node .red l x r) f1.item f1.other) f2.item
          (.node .black ul u ur)) := by
      have huncleNot : f1.item ∉ (node .red ul u ur).toList := hu ▸ hapart.uncle1
      have hparentNot : u ∉ (join f1.side .black (.node .red l x r) f1.item f1.other).toList := by
        rw [(toList_join_perm _ _ _ _ _).mem_iff]
        simp only [mem_cons, mem_append, not_or]
        exact ⟨hup, hub, huo⟩
      have hfirst := hgrandHolds.setColour_near hapart.ne.symm huncleNot
        fun _ _ (hnear : Spans _ _ _ _) =>
          (hnear.setColour hapart.below1 hapart.other1 : Spans (s.setColour _ .black).links _ _ _)
      rw [← join_flip] at hfirst ⊢
      exact hfirst.setColour_near hug.symm hparentNot fun _ _ hnear =>
        Spans.setColour (d := .left) hnear hul hur
    have hnearNot : f2.item ∉ (join f1.side .black (.node .red l x r) f1.item f1.other).toList := by
      rw [(toList_join_perm _ _ _ _ _).mem_iff]
      simp only [mem_cons, mem_append, not_or]
      exact ⟨hapart.ne.symm, hapart.below2, hapart.other2⟩
    have hfarNot : f2.item ∉ (node .black ul u ur).toList := by
      have huncleNot := hapart.uncle2
      rwa [hu] at huncleNot
    obtain ⟨l', r', hnode⟩ := exists_node f2.side .red
      (.join f1.side .black (.node .red l x r) f1.item f1.other) f2.item (.node .black ul u ur)
    have hlist : (plug ctx (.node .red l' f2.item r')).toList =
        (plug (f1 :: f2 :: ctx) (.node .red l x r)).toList := by
      have huncleList : (node .black ul u ur).toList = (node .red ul u ur).toList :=
        rfl
      rw [← hnode, plug, plug, hu]
      exact toList_plug_congr ctx
        (toList_join_congr (toList_join_congr rfl rfl _ _ _ _) huncleList _ _ _ _)
    have hnodup : ((node .red l' f2.item r').toList ++ items ctx).Nodup := by
      rw [← (toList_plug_perm ctx _).nodup_iff, hlist, (toList_plug_perm _ _).nodup_iff]
      exact h.nodup
    obtain ⟨hother1, -, huncleColours, -, hctxColours⟩ := h.colours
    obtain ⟨n, ⟨hheight1, hheight2, hctxHeight⟩, hheight⟩ := h.height
    rw [hred] at hheight2 hctxHeight
    rw [hblack] at hctxHeight
    have hroot := h.root
    rw [Frames.root, Frames.root, hblack] at hroot
    rw [hu] at huncleColours hheight2
    refine ⟨_, (s.links (some f2.item)).parent, l', r', hround, ⟨?_, ?_, hnodup, hctxColours, ?_,
      ⟨n + 1, hctxHeight, ?_⟩, hroot, ?_⟩, hlist, ?_⟩
    · exact ((haround.frames.setColour hapart.above1).setColour huctx).setColour hapart.above2
    · rw [← hnode]
      exact hmid.setColour hnearNot hfarNot
    · rw [← hnode, noRedRed_join]
      refine ⟨fun _ => ⟨colour_join .., rfl⟩, ?_, noRedRed_blacken huncleColours⟩
      exact noRedRed_join.mpr ⟨(fun hc => by cases hc), h.below, hother1⟩
    · rw [← hnode, height_join]
      refine ⟨n + 1, rfl, height_join.mpr ⟨n, rfl, hheight, hheight1⟩, ?_⟩
      exact height_blacken hheight2 rfl
    · exact h.sentinel
    · rfl

/-- The end of a round with a black uncle, for a red item on the same side of its parent as that is
of the grandparent. The grandparent goes down on the other side. -/
theorem grandparent_down {p : A} {child inner uncle : RbTree A}
    (hframes : FramesHold s.links s.root ctx (s.links (some g)).parent (some g))
    (hholds : Spans s.links (s.links (some g)).parent (some g)
      (.join d .black (.join d .red child p inner) g uncle))
    (hnodup : (p :: g :: (child.toList ++ inner.toList ++ uncle.toList ++ items ctx)).Nodup)
    :
    let s' := ((s.setColour (some p) .black).setColour (some g) .red).rotate d.flip (some g)
    ∃ parent, FramesHold s'.links s'.root ctx parent (some p) ∧
      Spans s'.links parent (some p) (.join d .black child p (.join d .red inner g uncle)) ∧
      s'.links none = s.links none := by
  have hapart := hnodup
  simp only [nodup_cons, mem_cons, mem_append, not_or] at hapart
  obtain ⟨⟨hpg, ⟨⟨hpchild, hpinner⟩, hpuncle⟩, hpctx⟩, ⟨⟨⟨hgchild, hginner⟩, hguncle⟩, hgctx⟩, -⟩ :=
    hapart
  have hnearNot : g ∉ (join d .black child p inner).toList := by
    rw [(toList_join_perm _ _ _ _ _).mem_iff]
    simp only [mem_cons, mem_append, not_or]
    exact ⟨Ne.symm hpg, hgchild, hginner⟩
  have hblack : Spans (s.setColour (some p) .black).links (s.links (some g)).parent (some g)
      (.join d .black (.join d .black child p inner) g uncle) :=
    hholds.setColour_near (Ne.symm hpg) hpuncle fun _ _ hnear => hnear.setColour hpchild hpinner
  have hred := hblack.setColour (k := .red) hnearNot hguncle
  have hctx := (hframes.setColour (c := .black) hpctx).setColour (c := .red) hgctx
  rw [← join_flip, ← join_flip d .black] at hred
  have hrotated := hctx.rotate hred ?_
  · obtain ⟨hframes', hholds', hsentinel⟩ := hrotated
    rw [join_flip, join_flip] at hholds'
    exact ⟨_, hframes', hholds', hsentinel.trans rfl⟩
  · refine (List.Perm.nodup_iff ?_).mp hnodup
    rw [perm_iff_count]
    intro a
    simp only [count_cons, count_append]
    omega

/-- A round with a black uncle, once the item is on the same side as its parent. -/
theorem insertRound_end {p z : A} {yl yr inner uncle : RbTree A}
    (hframes : FramesHold s.links s.root ctx (s.links (some g)).parent (some g))
    (hholds : Spans s.links (s.links (some g)).parent (some g)
      (.join d .black (.join d .red (.node .red yl z yr) p inner) g uncle))
    (hnodup : (p :: g :: ((node .red yl z yr).toList ++ inner.toList ++ uncle.toList ++
      items ctx)).Nodup)
    :
    ∃ s' parent, ((s.links (some z)).parent.bind fun parent =>
        let s := s.setColour parent .black
        (s.links parent).parent.map fun grandparent =>
          let s := s.setColour grandparent .red
          (s.rotate d.flip grandparent, (some z : Ptr A))) = some (s', some z) ∧
      FramesHold s'.links s'.root (⟨d, .black, p, .join d .red inner g uncle⟩ :: ctx) parent
        (some z) ∧
      Spans s'.links parent (some z) (.node .red yl z yr) ∧ s'.links none = s.links none := by
  obtain ⟨-, -, -, hp, -⟩ := holds_join.mp hholds
  obtain ⟨hptr, hparentP, -, hz, -⟩ := holds_join.mp hp
  obtain ⟨hptrZ, hparentZ, -⟩ := hz
  rw [hptr] at hparentP hparentZ
  rw [hptr] at hptrZ
  rw [hptrZ] at hparentZ
  obtain ⟨parent, hframes', hholds', hsentinel⟩ := grandparent_down hframes hholds hnodup
  have hdown := hframes'.down (f := ⟨d, .black, p, .join d .red inner g uncle⟩) hholds'
  have hz := hdown.2.1
  rw [hz] at hdown
  refine ⟨_, _, ?_, hdown.1, hdown.2, hsentinel⟩
  simp only [hparentZ, Option.bind_some, TreeHeap.links_setColour_self, hparentP, Option.map_some]

/-- The state in which the loop ends, with the items and the sentinel as they were. -/
structure Risen (s : TreeHeap A) (items : List A) (s' : TreeHeap A) (z : A) : Prop where
  holds : ∃ (f : Frame A) (ctx : List (Frame A)) (parent : Option (Ptr A)) (t : RbTree A),
    FramesHold s'.links s'.root (f :: ctx) parent (some z) ∧ Spans s'.links parent (some z) t ∧
      f.colour = .black ∧ (plug (f :: ctx) t).NoRedRed ∧ (∃ n, (plug (f :: ctx) t).Height n) ∧
      (plug (f :: ctx) t).toList = items
  sentinel : s'.links none = s.links none

/-- Under a black uncle one or two rotations end the ascent. -/
theorem Rising.black_uncle (h : Rising s (f1 :: f2 :: ctx) parent x l r)
    (hred : f1.colour = .red) (huncle : f2.other.colour = .black) :
    ∃ s' z, s.insertRound f2.side (some x) (some f1.item) (some f2.item) = some (s', some z) ∧
      Risen s (plug (f1 :: f2 :: ctx) (.node .red l x r)).toList s' z := by
  have haround := h.around
  obtain ⟨f2', ctx', hctx, hblack, hother⟩ := h.black_of_red hred
  obtain ⟨rfl, rfl⟩ := cons.inj hctx
  obtain ⟨hother1, -, huncleColours, -, hctxColours⟩ := h.colours
  obtain ⟨n, ⟨hheight1, hheight2, hctxHeight⟩, hheight⟩ := h.height
  rw [hred] at hheight2 hctxHeight
  rw [hblack] at hctxHeight
  have huncleBlack : (s.links ((s.links (some f2.item)).child f2.side.flip)).colour ≠ .red := by
    rw [haround.other2.colour_eq h.sentinel, huncle]
    decide
  have hup := h.frames.up h.holds
  have hnodup := h.nodup
  simp only [items] at hnodup
  by_cases hside : f1.side = f2.side
  · have hupup := hup.1.up hup.2
    rw [hred, hblack, hside] at hupup
    have hnot : (some x : Ptr A) ≠ (s.links (some f1.item)).child f2.side.flip := by
      refine Ne.symm (Spans.ptr_ne (hside ▸ haround.other1) fun hx => ?_)
      have hdisjoint := (nodup_append.mp hnodup).2.2
      exact hdisjoint x (by simp [toList]) x (by simp [hx]) rfl
    obtain ⟨s', parent', hend, hframes', hholds', hsentinel⟩ :=
      insertRound_end hupup.1 hupup.2 (by
        refine (List.Perm.nodup_iff ?_).mp hnodup
        rw [perm_iff_count]
        intro a
        simp only [count_cons, count_append, cons_append]
        omega)
    refine ⟨s', x, ?_, ⟨⟨_, ctx, parent', _, hframes', hholds', rfl, ?_, ?_, ?_⟩, hsentinel⟩⟩
    · unfold TreeHeap.insertRound
      rw [if_neg huncleBlack, if_neg hnot]
      exact hend
    · rw [plug, noRedRed_plug, noRedRed_join, noRedRed_join]
      exact ⟨hctxColours, ⟨(fun hc => by cases hc), h.below, fun _ => ⟨hother, huncle⟩, hother1,
        huncleColours⟩,
        fun _ => colour_join ..⟩
    · rw [plug]
      refine height_plug hctxHeight (height_join.mpr ⟨n, rfl, hheight, ?_⟩)
      exact height_join.mpr ⟨n, rfl, hheight1, hheight2⟩
    · rw [plug, plug, plug, hside]
      exact toList_plug_congr ctx (toList_rotate _ _ _ _ _ _ _ _ _ _)
  · have hflip : f1.side = f2.side.flip := by
      revert hside
      cases f1.side <;> cases f2.side <;> decide
    obtain ⟨near, far, hjoin⟩ := exists_join f2.side .red l x r
    have hbelow := h.below
    rw [hjoin, noRedRed_join] at hbelow
    obtain ⟨hbelowBlack, hnearColours, hfarColours⟩ := hbelow
    obtain ⟨hnearBlack, hfarBlack⟩ := hbelowBlack rfl
    rw [hjoin, height_join] at hheight
    obtain ⟨m, hm, hnearHeight, hfarHeight⟩ := hheight
    obtain rfl : n = m := hm
    have hpHolds := hup.2
    rw [hred, hflip, join_flip, hjoin] at hpHolds
    rw [hjoin] at hnodup
    have hperm := (toList_join_perm f2.side .red near x far).append_right
      (f1.item :: f1.other.toList ++ (f2.item :: f2.other.toList ++ items ctx))
    rw [hperm.nodup_iff] at hnodup
    obtain ⟨hframes', hholds', hsentinel⟩ := hup.1.rotate hpHolds (by
      refine (List.Perm.nodup_iff ?_).mp hnodup
      rw [perm_iff_count]
      intro a
      simp only [items, count_cons, count_append, cons_append]
      omega)
    have hupup := hframes'.up hholds'
    obtain ⟨yl, yr, hnode⟩ := exists_node f2.side .red f1.other f1.item near
    rw [hblack, hnode] at hupup
    have hnodeList : (node .red yl f1.item yr).toList.Perm
        (f1.item :: (f1.other.toList ++ near.toList)) := by
      rw [← hnode]
      exact toList_join_perm _ _ _ _ _
    obtain ⟨s', parent', hend, hframes'', hholds'', hsentinel'⟩ :=
      insertRound_end hupup.1 hupup.2 (by
        refine (List.Perm.nodup_iff ?_).mp hnodup
        rw [perm_iff_count]
        intro a
        simp only [count_cons, count_append, cons_append, hnodeList.count_eq]
        omega)
    refine ⟨s', f1.item, ?_, ⟨⟨_, ctx, parent', _, hframes'', hholds'', rfl, ?_, ?_, ?_⟩,
      hsentinel'.trans hsentinel⟩⟩
    · unfold TreeHeap.insertRound
      rw [if_neg huncleBlack, if_pos (hflip ▸ haround.child1.symm)]
      exact hend
    · rw [plug, noRedRed_plug, noRedRed_join, noRedRed_join, ← hnode, noRedRed_join]
      exact ⟨hctxColours, ⟨(fun hc => by cases hc),
        ⟨fun _ => ⟨hother, hnearBlack⟩, hother1, hnearColours⟩,
        fun _ => ⟨hfarBlack, huncle⟩, hfarColours, huncleColours⟩, fun _ => colour_join ..⟩
    · rw [plug, ← hnode]
      refine height_plug hctxHeight (height_join.mpr ⟨n, rfl, ?_, ?_⟩)
      · exact height_join.mpr ⟨n, rfl, hheight1, hnearHeight⟩
      · exact height_join.mpr ⟨n, rfl, hfarHeight, hheight2⟩
    · rw [plug, plug, plug, ← hnode, hjoin, hflip, join_flip]
      refine toList_plug_congr ctx ?_
      refine (toList_rotate _ _ _ .red f2.colour _ _ _ _ _).trans ?_
      refine toList_join_congr ?_ rfl _ _ _ _
      exact (toList_rotate _ _ _ _ _ _ _ _ _ _).symm

end Rounds

/-- The ascent ends, in a balanced tree of the same items. -/
theorem insertFixup_settles {l r : RbTree A} (h : Rising s ctx parent x l r) :
    ∃ s', Settles (fun fuel => s.insertFixup fuel (some x)) s' ∧
      Fixed s (plug ctx (.node .red l x r)).toList s' := by
  -- the way is two items shorter after each round
  induction hlength : ctx.length using Nat.strong_induction_on generalizing s ctx parent x l r with
  | _ length ih =>
    have hlist := (toList_plug_perm ctx (.node .red l x r)).nodup_iff.mpr h.nodup
    obtain ⟨n, hctxHeight, hheight⟩ := h.height
    obtain ⟨m, hm⟩ := height_plug hctxHeight hheight
    cases habove : above ctx with
    | black =>
      refine insertFixup_done h.frames h.holds hlist habove (noRedRed_plug.mpr ?_) hm
      refine ⟨h.colours, h.below, fun hred => ?_⟩
      rw [habove] at hred
      cases hred
    | red =>
      cases ctx with
      | nil => cases habove
      | cons f1 ctx =>
        obtain ⟨f2, ctx, rfl, hblack, hother⟩ := h.black_of_red habove
        have haround := h.around
        have hroot : (some x : Ptr A) ≠ s.root := by
          obtain ⟨a, ha, hroot⟩ := h.frames.root_mem
          rw [hroot]
          rintro ⟨⟩
          exact (nodup_append.mp h.nodup).2.2 x (by simp [toList]) x ha rfl
        have hparentX : (s.links (some x)).parent = some (some f1.item) :=
          h.holds.2.1.trans h.frames.1
        have hcolourP : (s.links (some f1.item)).colour = .red := h.frames.2.2.1.trans habove
        have hnext : ∀ fuel, s.insertFixup (fuel + 1) (some x) =
            (s.insertRound f2.side (some x) (some f1.item) (some f2.item)).bind
              fun r => r.1.insertFixup fuel r.2 := by
          intro fuel
          rw [TreeHeap.insertFixup, if_neg hroot, hparentX, Option.bind_some, if_pos hcolourP,
            haround.parent1, Option.bind_some, h.side_eq]
        cases huncle : f2.other.colour with
        | red =>
          obtain ⟨s', parent', l', r', hround, hrising, hsame, hsentinel⟩ :=
            h.red_uncle habove huncle
          obtain ⟨s'', hsettles, hfixed⟩ := ih ctx.length (by
            rw [← hlength]
            simp only [length_cons]
            omega) hrising rfl
          refine ⟨s'', hsettles.succ fun fuel => ?_, ?_, hfixed.sentinel.trans hsentinel⟩
          · rw [hnext, hround, Option.bind_some]
          · rw [← hsame]
            exact hfixed.tree
        | black =>
          obtain ⟨s', z, hround, ⟨f, ctx', parent', t, hframes', hholds', hblack', hcolours',
            ⟨n', hheight'⟩, hsame⟩, hsentinel⟩ := h.black_uncle habove huncle
          obtain ⟨s'', hsettles, hfixed⟩ :=
            insertFixup_done hframes' hholds' (hsame ▸ hlist) hblack' hcolours' hheight'
          refine ⟨s'', hsettles.succ fun fuel => ?_, ?_, hfixed.sentinel.trans hsentinel⟩
          · rw [hnext, hround, Option.bind_some]
          · rw [← hsame]
            exact hfixed.tree

/-! ## The search -/

def Comparison.Sorted (order : Comparison A) (items : List A) : Prop :=
  items.Pairwise fun a b => order.compare a b ≤ 0

omit [DecidableEq A] in
theorem Comparison.le_of_nonneg (order : Comparison A) {a b : A} (h : 0 ≤ order.compare a b) :
    order.compare b a ≤ 0 := by
  have hflip := order.flip b a
  omega

/-- A leaf of the tree `t` where an item goes. -/
structure Place (k : TreeClass A) (s : TreeHeap A) (x : A) (t : RbTree A) (ctx : List (Frame A))
    (parent : Option (Ptr A)) (cmp : Int) : Prop where
  tree : plug ctx .leaf = t
  frames : FramesHold s.links s.root ctx parent none
  before : ∀ a ∈ before ctx, k.order.compare a x ≤ 0
  after : ∀ a ∈ after ctx, k.order.compare x a ≤ 0
  side : ∀ f ctx', ctx = f :: ctx' → (if cmp < 0 then Side.right else .left) = f.side

omit [DecidableEq A] in
/-- The search ends at such a place, if it does not meet an equal item that it cannot pass. -/
theorem insertSearch_settles {cmp : Int} (hframes : FramesHold s.links s.root ctx parent p)
    (hholds : Spans s.links parent p t) (hsorted : k.order.Sorted (plug ctx t).toList)
    (hbefore : ∀ a ∈ before ctx, k.order.compare a x ≤ 0)
    (hafter : ∀ a ∈ after ctx, k.order.compare x a ≤ 0)
    (hfree : k.allowDuplicates = true ∨ ∀ a ∈ t.toList, k.order.compare a x ≠ 0)
    (hside : ∀ f ctx', ctx = f :: ctx' → (if cmp < 0 then Side.right else .left) = f.side) :
    ∃ ctx' parent' cmp',
      Settles (fun fuel => TreeHeap.insertSearch k x s fuel p parent cmp 0) (parent', cmp', 0) ∧
        Place k s x (plug ctx t) ctx' parent' cmp' := by
  induction t generalizing ctx parent p cmp with
  | leaf =>
    obtain rfl := hholds
    exact ⟨ctx, parent, cmp, .of_add 1 fun _ => rfl, rfl, hframes, hbefore, hafter, hside⟩
  | node c l a r ihl ihr =>
    have hall := hsorted
    rw [Comparison.Sorted, toList_plug, toList, append_assoc, pairwise_append,
      append_assoc, pairwise_append] at hall
    obtain ⟨-, ⟨-, hright, hleft⟩, -⟩ := hall
    have hla : ∀ b ∈ l.toList, k.order.compare b a ≤ 0 :=
      fun b hb => hleft b hb a (by simp)
    have har : ∀ b ∈ r.toList, k.order.compare a b ≤ 0 := by
      rw [cons_append, pairwise_cons] at hright
      exact fun b hb => hright.1 b (by simp [hb])
    obtain rfl : p = some a := hholds.1
    by_cases hless : k.order.compare a x < 0
    · have hdown := hframes.down (f := ⟨.right, c, a, l⟩) (t := r) hholds
      have hside' : ∀ f ctx', (⟨.right, c, a, l⟩ :: ctx : List (Frame A)) = f :: ctx' →
          (if k.order.compare a x < 0 then Side.right else .left) = f.side := by
        rintro f ctx' hctx
        obtain ⟨rfl, -⟩ := cons.inj hctx
        exact if_pos hless
      obtain ⟨ctx', parent', cmp', hsettles, hplace⟩ := ihr hdown.1 hdown.2 hsorted (by
          intro b hb
          simp only [before, mem_append, mem_singleton] at hb
          rcases hb with hb | hb | rfl
          · exact hbefore b hb
          · exact k.order.trans b a x (hla b hb) (by omega)
          · omega)
        hafter
        (hfree.imp_right fun h b hb => h b (by simp [toList, hb]))
        hside'
      refine ⟨ctx', parent', cmp', hsettles.succ fun fuel => ?_, hplace⟩
      exact if_pos hless
    · have hle := k.order.le_of_nonneg (Int.not_lt.mp hless)
      have hdown := hframes.down (f := ⟨.left, c, a, r⟩) (t := l) hholds
      have hside' : ∀ f ctx', (⟨.left, c, a, r⟩ :: ctx : List (Frame A)) = f :: ctx' →
          (if k.order.compare a x < 0 then Side.right else .left) = f.side := by
        rintro f ctx' hctx
        obtain ⟨rfl, -⟩ := cons.inj hctx
        exact if_neg hless
      obtain ⟨ctx', parent', cmp', hsettles, hplace⟩ := ihl hdown.1 hdown.2 hsorted
        (by simpa [before] using hbefore)
        (by
          intro b hb
          simp only [Frames.after, cons_append, mem_cons, mem_append] at hb
          rcases hb with rfl | hb | hb
          · exact hle
          · exact k.order.trans x a b hle (har b hb)
          · exact hafter b hb)
        (hfree.imp_right fun h b hb => h b (by simp [toList, hb]))
        hside'
      refine ⟨ctx', parent', cmp', hsettles.succ fun fuel => ?_, hplace⟩
      rw [TreeHeap.insertSearch]
      rw [if_neg hless]
      by_cases hgreater : 0 < k.order.compare a x
      · exact if_pos hgreater
      · rw [if_neg hgreater]
        refine if_pos (hfree.resolve_right fun h => ?_)
        exact h a (by simp [toList]) (by omega)

/-! ## An insertion -/

/-- A red-black tree with these items in order, and the sentinel as it should be. -/
structure TreeHolds (s : TreeHeap A) (items : List A) : Prop where
  tree : ∃ t : RbTree A, Spans s.links none s.root t ∧ t.Balanced ∧ t.toList = items
  sentinel : s.links none = ⟨none, none, none, .black⟩

/-- The new item hangs red at its place, from where it may have to rise. -/
theorem rising_of_place {cmp : Int} (hplace : Place k s x t ctx parent cmp)
    (hbalanced : t.Balanced) (hnodup : t.toList.Nodup) (hx : x ∉ t.toList)
    (hsentinel : (s.links none).colour = .black) :
    Rising (s.hang x parent cmp) ctx parent x .leaf .leaf ∧
      (s.hang x parent cmp).links none = s.links none := by
  obtain ⟨rfl, hframes, -, -, hside⟩ := hplace
  obtain ⟨hroot, hcolours, m, hheight⟩ := hbalanced
  obtain ⟨hctxColours, -, -⟩ := noRedRed_plug.mp hcolours
  obtain ⟨n, hctxHeight, rfl⟩ := height_of_plug hheight
  have hperm := toList_plug_perm ctx (.leaf : RbTree A)
  rw [hperm.nodup_iff] at hnodup
  rw [hperm.mem_iff] at hx
  rw [colour_plug] at hroot
  have hnodup' : ((node .red .leaf x .leaf).toList ++ items ctx).Nodup :=
    nodup_cons.mpr ⟨hx, hnodup⟩
  have hrest : ∀ s' : TreeHeap A, FramesHold s'.links s'.root ctx parent (some x) →
      Spans s'.links parent (some x) (.node .red .leaf x .leaf) →
      s'.links none = s.links none → Rising s' ctx parent x .leaf .leaf := by
    intro s' hframes' hholds' hsame
    exact ⟨hframes', hholds', hnodup', hctxColours, ⟨fun _ => ⟨rfl, rfl⟩, trivial, trivial⟩,
      ⟨0, hctxHeight, 0, rfl, rfl, rfl⟩, hroot, by rw [hsame]; exact hsentinel⟩
  have hother : ∀ a ∈ items ctx,
      (s.modify (some x) fun _ => ⟨none, none, parent, .red⟩).links (some a) = s.links
        (some a) := by
    intro a ha
    refine s.links_modify_of_ne _ ?_
    rintro ⟨⟩
    exact hx ha
  have hself := s.links_modify_self (some x) fun _ => ⟨none, none, parent, .red⟩
  cases ctx with
  | nil =>
    obtain ⟨rfl, -⟩ := hframes
    refine ⟨hrest _ ⟨rfl, rfl⟩ ⟨rfl, ?_, ?_, ?_, ?_⟩ rfl, rfl⟩
    · exact congrArg TreeLinks.parent hself
    · exact congrArg TreeLinks.colour hself
    · exact congrArg TreeLinks.left hself
    · exact congrArg TreeLinks.right hself
  | cons f ctx =>
    have hparent := hframes.1
    subst hparent
    have hne : (some x : Ptr A) ≠ some f.item := by
      rintro ⟨⟩
      exact hx mem_cons_self
    have hhang : s.hang x (some (some f.item)) cmp =
        (s.modify (some x) fun _ => ⟨none, none, some (some f.item), .red⟩).setChild
          (some f.item) f.side (some x) := by
      have hf := hside f ctx rfl
      unfold TreeHeap.hang
      simp only
      split at hf
      · next hcmp => rw [if_pos hcmp, hf]
      · next hcmp => rw [if_neg hcmp, hf]
    rw [hhang]
    have hnone : (s.modify (some x) fun _ => ⟨none, none, some (some f.item), .red⟩).links none =
        s.links none := s.links_modify_of_ne _ nofun
    have hframes1 : FramesHold
        (s.modify (some x) fun _ => ⟨none, none, some (some f.item), .red⟩).links
        (s.modify (some x) fun _ => ⟨none, none, some (some f.item), .red⟩).root
        (f :: ctx) (some (some f.item)) none := hframes.congr hother
    generalize s.modify (some x) (fun _ => ⟨none, none, some (some f.item), .red⟩) = s1
      at hnone hself hframes1 ⊢
    have hself' : (s1.setChild (some f.item) f.side (some x)).links (some x) =
        ⟨none, none, some (some f.item), .red⟩ := (s1.links_modify_of_ne _ hne).trans hself
    have hnone' : (s1.setChild (some f.item) f.side (some x)).links none = s.links none :=
      (s1.links_modify_of_ne _ (show none ≠ some f.item from nofun)).trans hnone
    refine ⟨hrest _ (hframes1.setChild hnodup _) ⟨rfl, ?_, ?_, ?_, ?_⟩ hnone', hnone'⟩
    · exact congrArg TreeLinks.parent hself'
    · exact congrArg TreeLinks.colour hself'
    · exact congrArg TreeLinks.left hself'
    · exact congrArg TreeLinks.right hself'

/-- An insertion ends, with the new item in order, if no equal one has to be passed that cannot. -/
theorem insert_settles {items : List A} (h : TreeHolds s items) (hsorted : k.order.Sorted items)
    (hnodup : items.Nodup) (hx : x ∉ items)
    (hfree : k.allowDuplicates = true ∨ ∀ a ∈ items, k.order.compare a x ≠ 0) :
    ∃ s' before after, Settles (fun fuel => s.insert k fuel x) (s', 0) ∧
      items = before ++ after ∧ TreeHolds s' (before ++ x :: after) ∧
      k.order.Sorted (before ++ x :: after) := by
  obtain ⟨⟨t, hholds, hbalanced, rfl⟩, hsentinel⟩ := h
  have hstart : FramesHold s.links s.root [] none s.root := ⟨rfl, rfl⟩
  have hside : ∀ (f : Frame A) ctx', [] = f :: ctx' →
      (if (0 : Int) < 0 then Side.right else .left) = f.side := nofun
  obtain ⟨ctx, parent, cmp, hsearch, hplace⟩ := insertSearch_settles hstart hholds hsorted
    (fun _ ha => nomatch ha) (fun _ ha => nomatch ha) hfree hside
  obtain ⟨hrising, hnone⟩ := rising_of_place hplace hbalanced hnodup hx (by rw [hsentinel])
  obtain ⟨s', hfixup, ⟨t', hholds', hbalanced', hlist⟩, hsentinel'⟩ := insertFixup_settles hrising
  have hitems : t.toList = before ctx ++ after ctx := by
    rw [← show plug ctx .leaf = t from hplace.tree, toList_plug]
    simp [toList]
  refine ⟨s', before ctx, after ctx, ?_, hitems, ⟨⟨t', hholds', hbalanced', ?_⟩, ?_⟩, ?_⟩
  · exact hsearch.bind (hfixup.map fun s => (s, (0 : Int)))
  · rw [hlist, toList_plug]
    simp [toList]
  · rw [hsentinel', hnone, hsentinel]
  · rw [Comparison.Sorted, hitems, pairwise_append] at hsorted
    obtain ⟨hbefore, hafter, hbetween⟩ := hsorted
    rw [Comparison.Sorted, pairwise_append, pairwise_cons]
    refine ⟨hbefore, ⟨hplace.after, hafter⟩, ?_⟩
    intro a ha b hb
    rcases mem_cons.mp hb with rfl | hb
    · exact hplace.before a ha
    · exact hbetween a ha b hb

end OpenAmq
