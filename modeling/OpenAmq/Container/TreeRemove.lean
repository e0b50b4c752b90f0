import OpenAmq.Container.TreeInsert

/-!
# Removing from a tree

* `unlinkDescendent_holds` — an item with at most one child taken out
* `takePlace_holds` — another item in the place of one with two children
* `remove_settles` — a removal, where the way back up is not needed
-/

namespace OpenAmq

open Lib List

variable {A : Type*} [DecidableEq A] {s : TreeHeap A} {ctx : List (Frame A)}
  {parent : Option (Ptr A)} {x e : A} {d : Side} {c : Colour}

/-! ## Another parent -/

/-- The root of a tree, if it has one, gets another parent. -/
def TreeHeap.reparent (s : TreeHeap A) (p : Ptr A) (q : Option (Ptr A)) : TreeHeap A :=
  if p ≠ none then s.setParent p q else s

variable {p' : Ptr A} {l : RbTree A}

theorem TreeHeap.links_reparent_of_ne {p : Ptr A} {q : Option (Ptr A)} (h : p' = none ∨ p' ≠ p) :
    (s.reparent p q).links p' = s.links p' := by
  unfold TreeHeap.reparent
  split
  · next hp =>
    refine s.links_modify_of_ne _ ?_
    rcases h with rfl | hne
    · exact hp.symm
    · exact hne
  · rfl

theorem TreeHeap.root_reparent (p : Ptr A) (q : Option (Ptr A)) :
    (s.reparent p q).root = s.root := by
  unfold TreeHeap.reparent
  split <;> rfl

section Reparent

variable {t : RbTree A} {p : Ptr A} {q : Option (Ptr A)}

theorem Spans.reparent_self (h : Spans s.links parent p t) (hnodup : t.toList.Nodup) :
    Spans (s.reparent p q).links q p t := by
  refine Spans.reparent h hnodup (fun hp => ?_) fun a _ hne =>
    TreeHeap.links_reparent_of_ne (.inr hne)
  unfold TreeHeap.reparent
  rw [if_pos hp]
  exact s.links_modify_self _ _

theorem Spans.links_reparent (h : Spans s.links parent p t) {a : A} (ha : a ∉ t.toList) :
    (s.reparent p q).links (some a) = s.links (some a) :=
  TreeHeap.links_reparent_of_ne (.inr (h.ptr_ne ha).symm)

theorem Spans.reparent_other (h : Spans s.links parent p t) {t' : RbTree A}
    {parent' : Option (Ptr A)} (h' : Spans s.links parent' p' t')
    (hdisjoint : ∀ a ∈ t'.toList, a ∉ t.toList) : Spans (s.reparent p q).links parent' p' t' :=
  h'.congr fun a ha => h.links_reparent (hdisjoint a ha)

theorem Spans.reparent_frames (h : Spans s.links parent p t) {parent' : Option (Ptr A)}
    (h' : FramesHold s.links s.root ctx parent' p')
    (hdisjoint : ∀ a ∈ Frames.items ctx, a ∉ t.toList) :
    FramesHold (s.reparent p q).links (s.reparent p q).root ctx parent' p' := by
  rw [TreeHeap.root_reparent]
  exact h'.congr fun a ha => h.links_reparent (hdisjoint a ha)

end Reparent

/-! ## An item with at most one child -/

variable {t : RbTree A}

omit [DecidableEq A] in
theorem youngestOf_eq {p : Ptr A}
    (h : Spans s.links parent p (.join d c .leaf e t)) :
    s.youngestOf p = (s.links p).child d.flip := by
  obtain ⟨-, -, -, hleaf, ht⟩ := holds_join.mp h
  unfold TreeHeap.youngestOf
  cases d with
  | left => exact if_neg (not_not.mpr hleaf)
  | right =>
    by_cases hnone : (s.links p).left = none
    · rw [if_neg (not_not.mpr hnone)]
      exact (show (s.links p).right = none from hleaf).trans hnone.symm
    · rw [if_pos hnone]
      rfl

theorem unlinkDescendent_holds (h : FramesHold s.links s.root ctx parent (some e))
    (ht : Spans s.links parent (some e) (.join d c .leaf e t))
    (hnodup : (e :: (t.toList ++ Frames.items ctx)).Nodup) :
    let q := s.youngestOf (some e)
    let s' := s.unlinkDescendent (some e) q
    FramesHold s'.links s'.root ctx parent q ∧ Spans s'.links parent q t ∧
      s'.links (some e) = s.links (some e) ∧ s'.links none = s.links none := by
  have hq := youngestOf_eq ht
  obtain ⟨-, hparent, -, -, htree⟩ := holds_join.mp ht
  rw [← hq] at htree
  simp only [nodup_cons, mem_append, not_or] at hnodup
  obtain ⟨⟨het, hectx⟩, hnodup⟩ := hnodup
  obtain ⟨htNodup, hctxNodup, hdisjoint⟩ := nodup_append.mp hnodup
  have he : (s.reparent (s.youngestOf (some e)) parent).links (some e) = s.links (some e) :=
    htree.links_reparent het
  have hunlink : s.unlinkDescendent (some e) (s.youngestOf (some e)) =
      (s.reparent (s.youngestOf (some e)) parent).replace .left parent (some e)
        (s.youngestOf (some e)) := by
    show (s.reparent (s.youngestOf (some e)) (s.links (some e)).parent).replace .left
      ((s.reparent (s.youngestOf (some e)) (s.links (some e)).parent).links (some e)).parent _ _ = _
    rw [hparent, he, hparent]
  have hframes : FramesHold (s.reparent (s.youngestOf (some e)) parent).links
      (s.reparent (s.youngestOf (some e)) parent).root ctx parent (some e) :=
    htree.reparent_frames h fun a ha hat => hdisjoint a hat a ha rfl
  have hreparent : Spans (s.reparent (s.youngestOf (some e)) parent).links parent
      (s.youngestOf (some e)) t := htree.reparent_self htNodup
  obtain ⟨hframes', hothers⟩ := hframes.replace (d := .left) hectx hctxNodup (s.youngestOf (some e))
  have hbelow : ∀ a, a ∉ Frames.items ctx →
      ((s.reparent (s.youngestOf (some e)) parent).replace .left parent (some e)
        (s.youngestOf (some e))).links (some a) =
        (s.reparent (s.youngestOf (some e)) parent).links (some a) := by
    intro a ha
    refine hothers _ (h.parent_ne fun b hb hsame => ?_)
    cases hsame
    exact ha hb
  simp only
  rw [hunlink]
  refine ⟨hframes', hreparent.congr fun a ha => hbelow a fun hactx => hdisjoint a ha a hactx rfl,
    (hbelow e hectx).trans he, ?_⟩
  rw [hothers none (h.parent_ne fun _ _ => nofun)]
  exact TreeHeap.links_reparent_of_ne (.inl rfl)

/-! ## An item with two children -/

/-- The successor takes the place of an item, with its colour and subtrees. -/
theorem takePlace_holds {r : RbTree A} (h : FramesHold s.links s.root ctx parent (some x))
    (ht : Spans s.links parent (some x) (.node c l x r))
    (hnodup : (e :: x :: (l.toList ++ r.toList ++ Frames.items ctx)).Nodup) :
    FramesHold (s.takePlace (some e) (some x)).links (s.takePlace (some e) (some x)).root ctx parent
      (some e) ∧
    Spans (s.takePlace (some e) (some x)).links parent (some e) (.node c l e r) ∧
    (s.takePlace (some e) (some x)).links none = s.links none := by
  obtain ⟨-, hparent, hcolour, hl, hr⟩ := ht
  simp only [nodup_cons, mem_cons, mem_append, not_or, nodup_append] at hnodup
  obtain ⟨⟨hex, ⟨hel, her⟩, hectx⟩, ⟨⟨hxl, hxr⟩, hxctx⟩, ⟨hlNodup, hrNodup, hlr⟩, hctxNodup,
    hallCtx⟩ := hnodup
  -- the item's links are copied
  have hne : ∀ a, a ≠ e → (s.modify (some e) fun _ => s.links (some x)).links (some a) =
      s.links (some a) := fun a ha => s.links_modify_of_ne _ (by simpa using ha)
  have he : (s.modify (some e) fun _ => s.links (some x)).links (some e) = s.links (some x) :=
    s.links_modify_self _ _
  have hframes : FramesHold (s.modify (some e) fun _ => s.links (some x)).links
      (s.modify (some e) fun _ => s.links (some x)).root ctx parent (some x) :=
    h.congr fun a ha => hne a fun hsame => hectx (hsame ▸ ha)
  have hl1 := hl.congr fun a ha => hne a fun hsame => hel (hsame ▸ ha)
  have hr1 := hr.congr fun a ha => hne a fun hsame => her (hsame ▸ ha)
  have hnone : (s.modify (some e) fun _ => s.links (some x)).links none = s.links none :=
    s.links_modify_of_ne _ nofun
  have htake : s.takePlace (some e) (some x) =
      let s2 := (s.modify (some e) fun _ => s.links (some x)).replace .left
        ((s.modify (some e) fun _ => s.links (some x)).links (some e)).parent (some x) (some e)
      let s3 := s2.reparent (s2.links (some e)).left (some (some e))
      s3.reparent (s3.links (some e)).right (some (some e)) := rfl
  rw [htake, he, hparent]
  generalize s.modify (some e) (fun _ => s.links (some x)) = s1 at hne he hframes hl1 hr1 hnone ⊢
  -- the pointer from above
  obtain ⟨hframes2, hothers⟩ := hframes.replace (d := .left) hxctx hctxNodup (some e)
  have hbelow : ∀ a, a ∉ Frames.items ctx →
      (s1.replace .left parent (some x) (some e)).links (some a) = s1.links (some a) := by
    intro a ha
    refine hothers _ (h.parent_ne fun b hb hsame => ?_)
    cases hsame
    exact ha hb
  have hnone2 := (hothers none (h.parent_ne fun _ _ => nofun)).trans hnone
  have he2 := (hbelow e hectx).trans he
  have hl2 := hl1.congr fun a ha => hbelow a fun hactx => hallCtx a (.inl ha) a hactx rfl
  have hr2 := hr1.congr fun a ha => hbelow a fun hactx => hallCtx a (.inr ha) a hactx rfl
  generalize s1.replace .left parent (some x) (some e) = s2 at hframes2 hnone2 he2 hl2 hr2 ⊢
  -- the pointers from below
  simp only
  rw [he2]
  have he3 := (hl2.links_reparent (q := some (some e)) hel).trans he2
  rw [he3]
  have hl3 := hl2.reparent_self (q := some (some e)) hlNodup
  have hr3 := hl2.reparent_other (q := some (some e)) hr2 fun a har hal => hlr a hal a har rfl
  have hframes3 := hl2.reparent_frames (q := some (some e)) hframes2
    fun a ha hal => hallCtx a (.inl hal) a ha rfl
  have hnone3 := (TreeHeap.links_reparent_of_ne (s := s2) (p := (s.links (some x)).left)
    (q := some (some e)) (.inl rfl)).trans hnone2
  generalize s2.reparent (s.links (some x)).left (some (some e)) = s3
    at he3 hl3 hr3 hframes3 hnone3 ⊢
  have he4 := (hr3.links_reparent (q := some (some e)) her).trans he3
  refine ⟨hr3.reparent_frames hframes3 fun a ha har => hallCtx a (.inr har) a ha rfl,
    ⟨rfl, ?_, ?_, ?_, ?_⟩, (TreeHeap.links_reparent_of_ne (.inl rfl)).trans hnone3⟩
  · rw [he4]
    exact hparent
  · rw [he4]
    exact hcolour
  · rw [he4]
    exact hr3.reparent_other hl3 fun a hal har => hlr a hal a har rfl
  · rw [he4]
    exact hr3.reparent_self hrNodup

/-! ## The descendent, and the end -/

/-- An item at the end of the pointers to the left -/
inductive TreeHeap.Leftmost (s : TreeHeap A) : Ptr A → Ptr A → Prop
  | here {p : Ptr A} : (s.links p).left = none → s.Leftmost p p
  | left {p q : Ptr A} : (s.links p).left ≠ none → s.Leftmost (s.links p).left q → s.Leftmost p q

/-- What leaves its place when an item is removed: the item, or the next one in order if it has two
children. -/
def TreeHeap.Leaves (s : TreeHeap A) (p e : Ptr A) : Prop :=
  if (s.links p).left = none ∨ (s.links p).right = none then e = p
  else s.Leftmost (s.links p).right e

section Leaves

variable {p q q' : Ptr A}

omit [DecidableEq A] in
theorem TreeHeap.Leftmost.unique (h : s.Leftmost p q) (h' : s.Leftmost p q') : q = q' := by
  induction h with
  | here hnone =>
    cases h' with
    | here => rfl
    | left hsome => exact absurd hnone hsome
  | left hsome _ ih =>
    cases h' with
    | here hnone => exact absurd hnone hsome
    | left _ hrest => exact ih hrest

omit [DecidableEq A] in
theorem TreeHeap.Leftmost.settles (h : s.Leftmost p q) :
    Settles (fun fuel => s.leftmost fuel p) q := by
  induction h with
  | here hnone =>
    refine .of_add 1 fun fuel => ?_
    rw [TreeHeap.leftmost, if_neg (not_not.mpr hnone)]
  | left hsome _ ih =>
    refine ih.succ fun fuel => ?_
    rw [TreeHeap.leftmost, if_pos hsome]

omit [DecidableEq A] in
theorem TreeHeap.Leaves.unique (h : s.Leaves p q) (h' : s.Leaves p q') : q = q' := by
  unfold TreeHeap.Leaves at h h'
  split at h
  · next hone =>
    rw [if_pos hone] at h'
    rw [h, h']
  · next htwo =>
    rw [if_neg htwo] at h'
    exact h.unique h'

omit [DecidableEq A] in
theorem TreeHeap.Leaves.settles (h : s.Leaves p q) :
    Settles (fun fuel => s.descendentOf fuel p) q := by
  unfold TreeHeap.Leaves at h
  split at h
  · next hone =>
    subst h
    exact .of_forall fun _ => if_pos hone
  · next htwo =>
    obtain ⟨n, hn⟩ := h.settles
    exact ⟨n, fun fuel hfuel => (if_neg htwo).trans (hn fuel hfuel)⟩

omit [DecidableEq A] in
theorem leftmost_holds {r : RbTree A} {a : A} (h : Spans s.links parent p (.node c l a r)) :
    ∃ path c' e t, RbTree.node c l a r = plug path (.node c' .leaf e t) ∧
      (∀ f ∈ path, f.side = Side.left) ∧ s.Leftmost p (some e) := by
  induction l generalizing c a r p parent with
  | leaf =>
    obtain ⟨rfl, -, -, hleaf, -⟩ := h
    exact ⟨[], c, a, r, rfl, nofun, .here hleaf⟩
  | node c1 l1 a1 r1 ihl _ =>
    obtain ⟨rfl, -, -, hl, -⟩ := h
    obtain ⟨path, c', e, t, hplug, hleft, hleftmost⟩ := ihl hl
    refine ⟨path ++ [⟨.left, c, a, r⟩], c', e, t, ?_, ?_, .left ?_ hleftmost⟩
    · rw [plug_append, ← hplug]
      rfl
    · intro f hf
      rcases mem_append.mp hf with hf | hf
      · exact hleft f hf
      · rw [mem_singleton.mp hf]
    · rw [hl.1]
      exact nofun

end Leaves

/-- The end of `remove`: the only child of a black item is red, and becomes black at once. -/
theorem deleteFixup_settles {q : Ptr A}
    (h : FramesHold s.links s.root ctx parent q) (ht : Spans s.links parent q t)
    (hnodup : (t.toList ++ Frames.items ctx).Nodup)
    (hred : c = .black → t = .leaf ∨ t.colour = .red) :
    ∃ s', Settles (fun fuel => if q ≠ none ∧ c = .black then s.deleteFixup fuel q else some s) s' ∧
      FramesHold s'.links s'.root ctx parent q ∧
      Spans s'.links parent q (if c = .black then t.blacken else t) ∧
      s'.links none = s.links none := by
  by_cases hblack : c = .black
  · rw [if_pos hblack]
    rcases hred hblack with rfl | hred
    · obtain rfl := ht
      refine ⟨s, .of_forall fun _ => if_neg fun hboth => hboth.1 rfl, h, rfl, rfl⟩
    · cases t with
      | leaf => cases hred
      | node c' l y r =>
        obtain rfl : c' = .red := hred
        obtain rfl : q = some y := ht.1
        obtain ⟨htNodup, -, hdisjoint⟩ := nodup_append.mp hnodup
        rw [RbTree.toList, nodup_append, nodup_cons] at htNodup
        obtain ⟨-, ⟨hyr, -⟩, hyl⟩ := htNodup
        refine ⟨s.setColour (some y) .black, .of_add 1 fun fuel => ?_, ?_, ?_, ?_⟩
        · rw [if_pos ⟨Option.some_ne_none y, hblack⟩, TreeHeap.deleteFixup, if_neg]
          intro hboth
          rw [ht.2.2.1] at hboth
          exact absurd hboth.2 (by decide)
        · exact h.setColour fun hctx => hdisjoint y (by simp [RbTree.toList]) y hctx rfl
        · exact Spans.setColour (d := .left) ht (fun hl => hyl y hl y mem_cons_self rfl) hyr
        · exact TreeHeap.links_setColour_of_ne (Option.some_ne_none y).symm
  · rw [if_neg hblack]
    exact ⟨s, .of_forall fun _ => if_neg fun hboth => hblack hboth.2, h, ht, rfl⟩

/-! ## A removal -/

/-- The way back up is not needed: what leaves its place is red, or has a child, or is the whole
tree. -/
def TreeHeap.RemoveOk (s : TreeHeap A) (x : A) : Prop :=
  ∀ e, s.Leaves (some x) e → (s.links e).colour = .red ∨ (s.links e).left ≠ none ∨
    (s.links e).right ≠ none ∨ (s.links e).parent = none

omit [DecidableEq A] in
theorem removeOk_iff (hleaves : s.Leaves (some x) (some e))
    (h : FramesHold s.links s.root ctx parent (some e))
    (ht : Spans s.links parent (some e) (.join d c .leaf e t)) :
    s.RemoveOk x ↔ c = .red ∨ t ≠ .leaf ∨ ctx = [] := by
  obtain ⟨-, hparent, hcolour, hleaf, htree⟩ := holds_join.mp ht
  have hchild : (s.links (some e)).left ≠ none ∨ (s.links (some e)).right ≠ none ↔ t ≠ .leaf := by
    have hfar : (s.links (some e)).child d.flip ≠ none ↔ t ≠ .leaf := by
      cases t with
      | leaf => simp [show (s.links (some e)).child d.flip = none from htree]
      | node => simp [htree.1]
    have hnear : (s.links (some e)).child d = none := hleaf
    rw [← hfar]
    cases d with
    | left => exact or_iff_right (not_not.mpr hnear)
    | right => exact or_iff_left (not_not.mpr hnear)
  have hroot : (s.links (some e)).parent = none ↔ ctx = [] := by
    rw [hparent]
    cases ctx with
    | nil => exact iff_of_true h.1 rfl
    | cons f ctx => exact iff_of_false (by rw [h.1]; exact nofun) nofun
  rw [← hroot, ← hchild, ← hcolour, or_assoc]
  constructor
  · intro hok
    exact hok _ hleaves
  · intro hok e' hleaves'
    obtain rfl := hleaves.unique hleaves'
    exact hok

theorem remove_single (hleaves : s.Leaves (some x) (some x))
    (h : FramesHold s.links s.root ctx parent (some x))
    (ht : Spans s.links parent (some x) (.join d c .leaf x t))
    (hbalanced : (plug ctx (.join d c .leaf x t)).Balanced)
    (hnodup : (plug ctx (.join d c .leaf x t)).toList.Nodup) :
    ∃ s' t', Settles (fun fuel => s.remove fuel x) s' ∧ Spans s'.links none s'.root (plug ctx t') ∧
      t'.toList = t.toList ∧ ((plug ctx t').Balanced ↔ s.RemoveOk x) ∧
      s'.links none = s.links none := by
  have hperm := (toList_plug_perm ctx (.join d c .leaf x t)).trans
    ((RbTree.toList_join_perm d c .leaf x t).append_right _)
  rw [hperm.nodup_iff] at hnodup
  obtain ⟨hframes, hholds, hself, hnone⟩ := unlinkDescendent_holds h ht hnodup
  have hcolour : (s.links (some x)).colour = c := (holds_join.mp ht).2.2.1
  obtain ⟨s', hsettles, hframes', hholds', hnone'⟩ := deleteFixup_settles (c := c) hframes hholds
    (nodup_cons.mp hnodup).2 fun hblack => (hblack ▸ hbalanced).red_of_only
  refine ⟨s', if c = .black then t.blacken else t, hleaves.settles.bind ?_,
    holds_plug.mpr ⟨_, _, hframes', hholds'⟩, ?_,
    hbalanced.remove_iff.trans (removeOk_iff hleaves h ht).symm, hnone'.trans hnone⟩
  · simp only [hself, hcolour, ne_eq, not_true_eq_false, if_false]
    exact hsettles
  · split
    · exact RbTree.toList_blacken t
    · rfl

omit [DecidableEq A] in
theorem through_perm (path : List (Frame A)) (ctx : List (Frame A)) (c : Colour) (l : RbTree A)
    (a : A) (t : RbTree A) :
    (t.toList ++ Frames.items (path ++ ⟨.right, c, a, l⟩ :: ctx)).Perm
      (a :: (l.toList ++ (plug path t).toList ++ Frames.items ctx)) := by
  refine (toList_plug_perm _ t).symm.trans ?_
  rw [plug_append]
  refine (toList_plug_perm ctx (.join .left c l a (plug path t))).trans ?_
  exact (RbTree.toList_join_perm _ _ _ _ _).append_right _

/-- An item with two subtrees is removed by way of its successor. -/
theorem remove_double {path : List (Frame A)} {c' : Colour}
    (hleaves : s.Leaves (some x) (some e)) (h : FramesHold s.links s.root ctx parent (some x))
    (ht : Spans s.links parent (some x) (.node c l x (plug path (.node c' .leaf e t))))
    (hbalanced : (plug ctx (.node c l x (plug path (.node c' .leaf e t)))).Balanced)
    (hnodup : (plug ctx (.node c l x (plug path (.node c' .leaf e t)))).toList.Nodup) :
    ∃ s' t', Settles (fun fuel => s.remove fuel x) s' ∧
      Spans s'.links none s'.root (plug ctx (.node c l e (plug path t'))) ∧
      t'.toList = t.toList ∧
      ((plug ctx (.node c l e (plug path t'))).Balanced ↔ s.RemoveOk x) ∧
      s'.links none = s.links none := by
  -- down to the descendent, and it is taken out
  have hdown := h.down (f := ⟨.right, c, x, l⟩) ht
  obtain ⟨parentE, p, hframes, hnode⟩ := hdown.1.down_append hdown.2
  obtain rfl : p = some e := hnode.1
  have hplug : plug ctx (.node c l x (plug path (.node c' .leaf e t))) =
      plug (path ++ ⟨.right, c, x, l⟩ :: ctx) (.join .left c' .leaf e t) :=
    (plug_append path (⟨.right, c, x, l⟩ :: ctx) _).symm
  rw [hplug] at hbalanced hnodup
  have hok := hbalanced.remove_iff.trans (removeOk_iff (d := .left) hleaves hframes hnode).symm
  have honly : c' = .black → t = .leaf ∨ t.colour = .red := by
    rintro rfl
    exact hbalanced.red_of_only
  rw [(toList_plug_perm _ _).nodup_iff] at hnodup
  have hall : (e :: x :: (l.toList ++ (plug path t).toList ++ Frames.items ctx)).Nodup :=
    ((through_perm path ctx c l x t).cons e).nodup_iff.mp hnodup
  have hne : (some e : Ptr A) ≠ some x := by
    rintro ⟨⟩
    exact (nodup_cons.mp hall).1 mem_cons_self
  obtain ⟨hframes1, hholds1, hself1, hnone1⟩ :=
    unlinkDescendent_holds (d := .left) hframes hnode hnodup
  have hcolour : (s.links (some e)).colour = c' := hnode.2.2.1
  -- back up to the item, and the descendent takes its place
  obtain ⟨parent1, p1, hframesUp, hholdsUp⟩ := hframes1.up_append hholds1
  have hup := hframesUp.up hholdsUp
  obtain ⟨hframes2, hholds2, hnone2⟩ := takePlace_holds hup.1 hup.2 hall
  -- down again
  have hdown2 := hframes2.down (f := ⟨.right, c, e, l⟩) hholds2
  obtain ⟨parent2, p2, hframes3, hholds3⟩ := hdown2.1.down_append hdown2.2
  obtain rfl := hholds3.ptr_unique hholds1
  have hnodup3 : (t.toList ++ Frames.items (path ++ ⟨.right, c, e, l⟩ :: ctx)).Nodup := by
    rw [(through_perm path ctx c l e t).nodup_iff]
    exact hall.sublist ((sublist_cons_self x _).cons_cons e)
  obtain ⟨s', hsettles, hframes4, hholds4, hnone4⟩ := deleteFixup_settles hframes3 hholds3 hnodup3
    honly
  refine ⟨s', if c' = .black then t.blacken else t, hleaves.settles.bind ?_, ?_, ?_, ?_,
    hnone4.trans (hnone2.trans hnone1)⟩
  · simp only [hself1, hcolour]
    rw [if_pos hne]
    exact hsettles
  · have hwhole := holds_plug.mpr ⟨_, _, hframes4, hholds4⟩
    rwa [plug_append] at hwhole
  · split
    · exact RbTree.toList_blacken t
    · rfl
  · refine Iff.trans ?_ hok
    rw [plug_append]
    generalize plug path _ = r
    constructor
    · intro hb
      have hbefore : (plug ctx (.node c l x r)).Balanced := hb.of_same rfl id fun _ => id
      exact hbefore
    · intro hb
      have hb' : (plug ctx (.node c l x r)).Balanced := hb
      exact hb'.of_same rfl id fun _ => id

theorem erase_plug {ctx : List (Frame A)} {t t' : RbTree A} (before after : List A)
    (ht : t.toList = before ++ x :: after) (ht' : t'.toList = before ++ after)
    (hnodup : (plug ctx t).toList.Nodup) :
    (plug ctx t').toList = (plug ctx t).toList.erase x := by
  rw [toList_plug, ht] at hnodup
  rw [toList_plug, toList_plug, ht, ht']
  have hx : x ∉ Frames.before ctx ++ before := by
    intro hx
    rw [← append_assoc, append_assoc, nodup_append] at hnodup
    exact hnodup.2.2 x hx x (by simp) rfl
  have hsplit : Frames.before ctx ++ (before ++ x :: after) ++ Frames.after ctx =
      (Frames.before ctx ++ before) ++ x :: (after ++ Frames.after ctx) := by
    simp
  rw [hsplit, erase_append_right _ hx, erase_cons_head]
  simp

/-- A removal ends with the other items in order, in a red-black tree if the way back up is not
needed. -/
theorem remove_settles {items : List A} (h : TreeHolds s items) (hnodup : items.Nodup)
    (hx : x ∈ items) :
    ∃ s' t, Settles (fun fuel => s.remove fuel x) s' ∧ Spans s'.links none s'.root t ∧
      t.toList = items.erase x ∧ (t.Balanced ↔ s.RemoveOk x) ∧
      s'.links none = ⟨none, none, none, .black⟩ := by
  obtain ⟨⟨t, hholds, hbalanced, rfl⟩, hsentinel⟩ := h
  obtain ⟨ctx, c, l, r, rfl⟩ := exists_plug hx
  obtain ⟨parent, p, hframes, hnode⟩ := holds_plug.mp hholds
  obtain rfl : p = some x := hnode.1
  obtain ⟨hl, hr⟩ := hnode.2.2.2
  rw [← hsentinel]
  cases l with
  | leaf =>
    have hleaves : s.Leaves (some x) (some x) := by
      rw [TreeHeap.Leaves, if_pos (.inl hl)]
    obtain ⟨s', t', hsettles, hholds', hlist, hok, hnone⟩ :=
      remove_single (d := .left) hleaves hframes hnode hbalanced hnodup
    exact ⟨s', _, hsettles, hholds', erase_plug [] r.toList rfl hlist hnodup, hok, hnone⟩
  | node cl ll al rl =>
    cases r with
    | leaf =>
      have hleaves : s.Leaves (some x) (some x) := by
        rw [TreeHeap.Leaves, if_pos (.inr hr)]
      obtain ⟨s', t', hsettles, hholds', hlist, hok, hnone⟩ :=
        remove_single (d := .right) hleaves hframes hnode hbalanced hnodup
      refine ⟨s', _, hsettles, hholds', ?_, hok, hnone⟩
      exact erase_plug (RbTree.node cl ll al rl).toList [] rfl
        (hlist.trans (append_nil _).symm) hnodup
    | node cr lr ar rr =>
      obtain ⟨path, c', e, t, hplug, hleft, hleftmost⟩ := leftmost_holds hr
      have hleaves : s.Leaves (some x) (some e) := by
        rw [TreeHeap.Leaves, if_neg]
        · exact hleftmost
        · rw [hl.1, hr.1]
          exact not_or.mpr ⟨nofun, nofun⟩
      rw [hplug] at hnode hbalanced hnodup ⊢
      obtain ⟨s', t', hsettles, hholds', hlist, hok, hnone⟩ :=
        remove_double hleaves hframes hnode hbalanced hnodup
      refine ⟨s', _, hsettles, hholds', ?_, hok, hnone⟩
      refine erase_plug (RbTree.node cl ll al rl).toList (plug path (.node c' .leaf e t)).toList
        rfl ?_ hnodup
      -- the descendent is the first item to the right
      rw [RbTree.toList, toList_plug, toList_plug, Frames.before_of_left hleft, hlist]
      rfl

end OpenAmq
