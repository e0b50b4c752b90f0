import Mathlib.Data.List.Nodup
import Mathlib.Data.List.Perm.Basic
import Mathlib.Tactic.Common
import OpenAmq.Icl

/-!
# Configuration trees

`ipr_config` keeps a tree of XML items, and loading a file merges the tree of the file into it.

* `Xml` — `ipr_xml`, an item with attributes and children, or the text in one
* `mergeTrees` — `s_merge_trees`, which is what `ipr_config_load` does to the tree
* `Level`, `DiscreteLevel` — what becomes of the items of one level, by the slots they go into
* `Loadable` — the trees that may be loaded twice
-/

namespace OpenAmq

open List

/-! ## Attributes -/

/-- The attributes of an item. `ipr_xml_attr_set` never enters a second one of the same name. -/
@[ext]
structure Attrs where
  entries : List (Str × Str)
  nodup : (entries.map Prod.fst).Nodup

namespace Attrs

/-- An item without attributes. -/
def empty : Attrs := ⟨[], nodup_nil⟩

/-- The value of the first entry of the name. -/
def lookup (name : Str) : List (Str × Str) → Option Str
  | [] => none
  | e :: es => if e.1 = name then some e.2 else lookup name es

/-- `ipr_xml_attr_get`, with `none` for the default -/
def get (self : Attrs) (name : Str) : Option Str := lookup name self.entries

/-- Changes the first entry of the name, or appends one. -/
def setEntry (name value : Str) : List (Str × Str) → List (Str × Str)
  | [] => [(name, value)]
  | e :: es => if e.1 = name then (name, value) :: es else e :: setEntry name value es

theorem map_fst_setEntry (name value : Str) (es : List (Str × Str)) :
    (setEntry name value es).map Prod.fst =
      if name ∈ es.map Prod.fst then es.map Prod.fst else es.map Prod.fst ++ [name] := by
  induction es with
  | nil => rfl
  | cons e es ih =>
    rw [setEntry, map_cons]
    by_cases he : e.1 = name
    · subst he
      rw [if_pos rfl, if_pos mem_cons_self]
      rfl
    · rw [if_neg he, map_cons, ih]
      by_cases hmem : name ∈ es.map Prod.fst
      · rw [if_pos hmem, if_pos (mem_cons_of_mem _ hmem)]
      · have hnot : name ∉ e.1 :: es.map Prod.fst := by
          rw [mem_cons]
          exact fun h => h.elim (fun h => he h.symm) hmem
        rw [if_neg hmem, if_neg hnot]
        rfl

/-- `ipr_xml_attr_set` -/
def set (self : Attrs) (name value : Str) : Attrs where
  entries := setEntry name value self.entries
  nodup := by
    rw [map_fst_setEntry]
    split
    · exact self.nodup
    · next hmem =>
      exact nodup_append'.mpr ⟨self.nodup, nodup_singleton _, disjoint_singleton.mpr hmem⟩

def merge (dest source : Attrs) : Attrs :=
  source.entries.foldl (fun attrs e => attrs.set e.1 e.2) dest

/-- The attributes behind a `config_meta` that comes first. -/
def skipMeta (self : Attrs) : List (Str × Str) :=
  match self.entries with
  | [] => []
  | e :: es => if e.1 = "config_meta".toList then es else e :: es

theorem lookup_setEntry (name value n : Str) (es : List (Str × Str)) :
    lookup n (setEntry name value es) = if name = n then some value else lookup n es := by
  induction es with
  | nil => rfl
  | cons e es ih =>
    rw [setEntry]
    by_cases he : e.1 = name
    · subst he
      rw [if_pos rfl, lookup, lookup]
      split <;> rfl
    · rw [if_neg he, lookup, lookup, ih]
      by_cases hn : e.1 = n
      · rw [if_pos hn, if_pos hn, if_neg fun h => he (hn.trans h.symm)]
      · rw [if_neg hn, if_neg hn]

theorem lookup_of_notMem {n : Str} {es : List (Str × Str)} (h : n ∉ es.map Prod.fst) :
    lookup n es = none := by
  induction es with
  | nil => rfl
  | cons e es ih =>
    rw [map_cons, mem_cons, not_or] at h
    rw [lookup, if_neg (Ne.symm h.1), ih h.2]

variable (self : Attrs)

theorem get_set (name value n : Str) :
    (self.set name value).get n = if name = n then some value else self.get n :=
  lookup_setEntry name value n self.entries

theorem get_merge (dest source : Attrs) (n : Str) :
    (dest.merge source).get n = (source.get n).or (dest.get n) := by
  obtain ⟨es, hnodup⟩ := source
  show (es.foldl (fun attrs e => attrs.set e.1 e.2) dest).get n = (lookup n es).or (dest.get n)
  induction es generalizing dest with
  | nil => rfl
  | cons e es ih =>
    rw [map_cons, nodup_cons] at hnodup
    rw [foldl_cons, ih _ hnodup.2, get_set, lookup]
    by_cases he : e.1 = n
    · subst he
      rw [lookup_of_notMem hnodup.1, if_pos rfl, if_pos rfl]
      rfl
    · rw [if_neg he, if_neg he]

theorem setEntry_eq_self {name value : Str} {es : List (Str × Str)}
    (h : lookup name es = some value) : setEntry name value es = es := by
  induction es with
  | nil => cases h
  | cons e es ih =>
    rw [lookup] at h
    rw [setEntry]
    by_cases he : e.1 = name
    · rw [if_pos he] at h ⊢
      rw [← he, ← Option.some.inj h]
    · rw [if_neg he] at h ⊢
      rw [ih h]

theorem merge_eq_self {dest source : Attrs}
    (h : ∀ e ∈ source.entries, dest.get e.1 = some e.2) : dest.merge source = dest := by
  obtain ⟨es, hnodup⟩ := source
  show es.foldl (fun attrs e => attrs.set e.1 e.2) dest = dest
  change ∀ e ∈ es, dest.get e.1 = some e.2 at h
  clear hnodup
  induction es with
  | nil => rfl
  | cons e es ih =>
    rw [forall_mem_cons] at h
    have hset : dest.set e.1 e.2 = dest := Attrs.ext (setEntry_eq_self h.1)
    rw [foldl_cons, hset]
    exact ih h.2

theorem get_of_mem {e : Str × Str} (h : e ∈ self.entries) : self.get e.1 = some e.2 := by
  obtain ⟨es, hnodup⟩ := self
  show lookup e.1 es = some e.2
  induction es with
  | nil => cases h
  | cons e' es ih =>
    rw [map_cons, nodup_cons] at hnodup
    rw [lookup]
    rcases mem_cons.mp h with rfl | h
    · exact if_pos rfl
    · rw [if_neg fun heq : e'.1 = e.1 => hnodup.1 (heq ▸ mem_map_of_mem h)]
      exact ih hnodup.2 h

theorem merge_self : self.merge self = self :=
  merge_eq_self fun _ he => self.get_of_mem he

theorem merge_merge (dest source : Attrs) : (dest.merge source).merge source = dest.merge source :=
  merge_eq_self fun e he => by rw [get_merge, source.get_of_mem he]; rfl

@[simp] theorem merge_empty (dest : Attrs) : dest.merge empty = dest := rfl

theorem eq_empty {self : Attrs} (h : self.entries = []) : self = empty := Attrs.ext h

end Attrs

/-! ## Trees -/

/-- `ipr_xml`: an item, or the text in one, which is an item without a name. -/
inductive Xml where
  | item (name : Str) (attrs : Attrs) (children : List Xml)
  | text (value : Str)

namespace Xml

/-- `ipr_xml_name` is not null -/
def isItem : Xml → Bool
  | item .. => true
  | text _ => false

/-- The children, of which a text has none. -/
def children : Xml → List Xml
  | item _ _ children => children
  | text _ => []

/-- The attributes, of which a text has none. -/
def attrs : Xml → Attrs
  | item _ attrs _ => attrs
  | text _ => .empty

/-- `config_meta` is `discrete`: replace children, don't merge -/
def discrete (self : Xml) : Bool :=
  (self.attrs.get "config_meta".toList).getD [] == "discrete".toList

/--
Whether an item of the new tree is merged into an item of the destination.

If the item is named the other has the same name; if it is unnamed both have no attributes,
except that the destination may have a `config_meta`.
-/
def itemMatches : (into item : Xml) → Bool
  | item intoName intoAttrs _, item itemName itemAttrs _ =>
    intoName == itemName &&
      match itemAttrs.get "name".toList, intoAttrs.get "name".toList with
      | some name, some into => into == name
      | none, none => itemAttrs.entries.isEmpty && intoAttrs.skipMeta.isEmpty
      | _, _ => false
  | _, _ => false

/-- The first entry of the list that satisfies `p`, between those before and those behind it. -/
def locate {α : Type*} (p : α → Bool) : List α → Option (List α × α × List α)
  | [] => none
  | x :: xs =>
    if p x then some ([], x, xs)
    else (locate p xs).map fun r => (x :: r.1, r.2.1, r.2.2)

mutual

/-- `s_merge_trees` -/
def mergeTrees : (dest source : Xml) → Xml
  | item name attrs children, item _ sourceAttrs items =>
    item name (attrs.merge sourceAttrs)
      (mergeItems (item name attrs children).discrete children items)
  | dest, _ => dest

/--
The loop of `s_merge_trees` over the children of the source, on those of the destination.

An item that replaces another is in the list of the destination when the loop looks for the item
after it. It finds the one that has just been replaced, which is in no list any more, and ends.
-/
def mergeItems (discrete : Bool) : (into items : List Xml) → List Xml
  | into, [] => into
  | into, text _ :: items => mergeItems discrete into items
  | into, item name attrs children :: items =>
    match locate (itemMatches · (item name attrs children)) into with
    | none => mergeItems discrete (into ++ [item name attrs children]) items
    | some (before, found, behind) =>
      if discrete then before ++ item name attrs children :: behind
      else
        mergeItems discrete (before ++ mergeTrees found (item name attrs children) :: behind) items

end

/-! ## Finding the item to merge into -/

variable {α : Type*} {x y : Xml} {items into : List Xml} {p : α → Bool}

theorem locate_eq_none {xs : List α} :
    locate p xs = none ↔ ∀ x ∈ xs, p x = false := by
  induction xs with
  | nil => simp [locate]
  | cons x xs ih =>
    rw [locate, forall_mem_cons, ← ih]
    cases p x <;> simp

theorem locate_eq_some {xs before behind : List α} {x : α} :
    locate p xs = some (before, x, behind) ↔
      xs = before ++ x :: behind ∧ p x = true ∧ ∀ y ∈ before, p y = false := by
  induction xs generalizing before with
  | nil => simp [locate]
  | cons y ys ih =>
    rw [locate]
    cases hy : p y with
    | true =>
      rw [if_pos rfl, Option.some.injEq, Prod.mk.injEq, Prod.mk.injEq]
      constructor
      · rintro ⟨rfl, rfl, rfl⟩
        exact ⟨rfl, hy, fun _ h => by cases h⟩
      · rintro ⟨heq, hx, hbefore⟩
        cases before with
        | nil =>
          obtain ⟨rfl, rfl⟩ := cons.inj heq
          exact ⟨rfl, rfl, rfl⟩
        | cons z zs =>
          obtain ⟨rfl, -⟩ := cons.inj heq
          rw [hbefore y mem_cons_self] at hy
          cases hy
    | false =>
      rw [if_neg (by simp), Option.map_eq_some_iff]
      constructor
      · rintro ⟨⟨before', x', behind'⟩, hr, heq⟩
        obtain ⟨rfl, rfl, rfl⟩ : y :: before' = before ∧ x' = x ∧ behind' = behind := by
          simpa using heq
        obtain ⟨rfl, hx, hbefore⟩ := ih.mp hr
        exact ⟨rfl, hx, forall_mem_cons.mpr ⟨hy, hbefore⟩⟩
      · rintro ⟨heq, hx, hbefore⟩
        cases before with
        | nil =>
          obtain ⟨rfl, -⟩ := cons.inj heq
          rw [hx] at hy
          cases hy
        | cons z zs =>
          obtain ⟨rfl, rfl⟩ := cons.inj heq
          exact ⟨(zs, x, behind), ih.mpr ⟨rfl, hx, (forall_mem_cons.mp hbefore).2⟩, rfl⟩

theorem itemMatches_mergeTrees {into : Xml} (h : itemMatches into x = true) (y : Xml) :
    itemMatches (mergeTrees into x) y = itemMatches into y := by
  obtain ⟨name, attrs, children⟩ | value := into
  · obtain ⟨xName, xAttrs, xChildren⟩ | value := x
    · obtain ⟨yName, yAttrs, yChildren⟩ | value := y
      · rw [itemMatches, Bool.and_eq_true] at h
        obtain ⟨-, hkey⟩ := h
        have hget := Attrs.get_merge attrs xAttrs "name".toList
        rw [mergeTrees, itemMatches, itemMatches]
        congr 1
        cases hx : xAttrs.get "name".toList with
        | some n =>
          cases ha : attrs.get "name".toList with
          | some m =>
            rw [hx, ha] at hkey
            have hmn : m = n := by simpa using hkey
            rw [hget, hx, hmn]
            cases yAttrs.get "name".toList <;> rfl
          | none =>
            rw [hx, ha] at hkey
            cases hkey
        | none =>
          -- without a name the item has no attributes to apply
          have hempty : xAttrs = .empty := by
            refine Attrs.eq_empty (isEmpty_iff.mp ?_)
            cases ha : attrs.get "name".toList with
            | some m =>
              rw [hx, ha] at hkey
              cases hkey
            | none =>
              rw [hx, ha] at hkey
              exact (Bool.and_eq_true_iff.mp hkey).1
          rw [hempty, Attrs.merge_empty]
      · rfl
    · rfl
  · simp [itemMatches] at h

theorem itemMatches_foldl {into : Xml} (h : ∀ x ∈ items, itemMatches into x = true) (y : Xml) :
    itemMatches (items.foldl mergeTrees into) y = itemMatches into y := by
  induction items generalizing into with
  | nil => rfl
  | cons x items ih =>
    rw [forall_mem_cons] at h
    rw [foldl_cons, ih, itemMatches_mergeTrees h.1]
    intro z hz
    rw [itemMatches_mergeTrees h.1, h.2 z hz]

/-! ## What becomes of the items of a level -/

/-- The items match nothing that is there, nor one of them that is added before. -/
structure Unmatched (into items : List Xml) : Prop where
  existing : ∀ x ∈ items, ∀ y ∈ into, itemMatches y x = false
  among : items.Pairwise fun y x => itemMatches y x = false

/-- An item of a level, which was there or has been added, and what has been merged into it. -/
structure Slot where
  dest : Xml
  added : Bool
  merged : List Xml

/-- The items of the source that are in a slot. -/
def Slot.sources (self : Slot) : List Xml :=
  if self.added then self.dest :: self.merged else self.merged

def Slot.result (self : Slot) : Xml := self.merged.foldl mergeTrees self.dest

def Slot.add (self : Slot) (x : Xml) : Slot := { self with merged := self.merged ++ [x] }

/--
The slots of a level: first what was there, then what has been added. Each item of the source is
in one of them, in the order of the source, and that is the first one that it matches. Those that
are added match none before them.
-/
structure Slots (into items : List Xml) (slots : List Slot) : Prop where
  dests : ∃ added : List Xml, added.Sublist items ∧
    slots.map (fun slot => (slot.dest, slot.added)) =
      into.map (fun x => (x, false)) ++ added.map fun x => (x, true)
  all : (slots.flatMap Slot.sources).Perm (items.filter isItem)
  inOrder : ∀ slot ∈ slots, slot.sources.Sublist items
  matched : ∀ slot ∈ slots, ∀ x ∈ slot.merged, itemMatches slot.dest x = true
  first : slots.Pairwise fun before slot => ∀ x ∈ slot.sources, itemMatches before.dest x = false

/-- The items of a level are merged. -/
def Level (into items result : List Xml) : Prop :=
  ∃ slots, Slots into items slots ∧ result = slots.map Slot.result

/--
The items of a level replace others: the first one that matches an item of the destination takes
its place, and those before it are added.

Nothing is said about the level when there are items after the one that replaces another.
-/
def DiscreteLevel (into items result : List Xml) : Prop :=
  Unmatched into (items.filter isItem) ∧ result = into ++ items.filter isItem ∨
  ∃ passed x rest before found behind,
    items = passed ++ x :: rest ∧ Unmatched into (passed.filter isItem) ∧
    into ++ passed.filter isItem = before ++ found :: behind ∧
    itemMatches found x = true ∧ (∀ y ∈ before, itemMatches y x = false) ∧
    (rest.filter isItem = [] → result = before ++ x :: behind)

/-- What loading the tree `source` over the tree `dest` makes of it. -/
def Merged (dest source result : Xml) : Prop :=
  (∀ name, result.attrs.get name = (source.attrs.get name).or (dest.attrs.get name)) ∧
  if dest.discrete then DiscreteLevel dest.children source.children result.children
  else Level dest.children source.children result.children

theorem Unmatched.append_one (h : Unmatched into items)
    (hx : ∀ y ∈ into ++ items, itemMatches y x = false) : Unmatched into (items ++ [x]) where
  existing := by
    intro z hz y hy
    rcases mem_append.mp hz with hz | hz
    · exact h.existing z hz y hy
    · obtain rfl := mem_singleton.mp hz
      exact hx y (mem_append_left _ hy)
  among := by
    refine pairwise_append.mpr ⟨h.among, pairwise_singleton _ x, fun y hy z hz => ?_⟩
    obtain rfl := mem_singleton.mp hz
    exact hx y (mem_append_right _ hy)

theorem Slot.sources_add (slot : Slot) (x : Xml) : (slot.add x).sources = slot.sources ++ [x] := by
  obtain ⟨dest, added, merged⟩ := slot
  cases added <;> rfl

theorem Slot.result_add (slot : Slot) (x : Xml) :
    (slot.add x).result = mergeTrees slot.result x := foldl_append

variable {done : List Xml} {slots slots1 slots2 : List Slot} {slot : Slot}

theorem Slots.itemMatches_result (h : Slots into items slots) (hslot : slot ∈ slots) (y : Xml) :
    itemMatches slot.result y = itemMatches slot.dest y :=
  itemMatches_foldl (h.matched slot hslot) y

/-- The slots stay as they are while a text is passed. -/
theorem Slots.pass (h : Slots into done slots) (value : Str) :
    Slots into (done ++ [text value]) slots where
  dests := by
    obtain ⟨added, hsub, heq⟩ := h.dests
    exact ⟨added, hsub.trans (sublist_append_left _ _), heq⟩
  all := by
    have hfilter : (done ++ [text value]).filter isItem = done.filter isItem := by
      rw [filter_append]
      exact append_nil _
    exact hfilter ▸ h.all
  inOrder := fun slot hslot => (h.inOrder slot hslot).trans (sublist_append_left _ _)
  matched := h.matched
  first := h.first

theorem filter_append_item (hitem : x.isItem = true) :
    (done ++ [x]).filter isItem = done.filter isItem ++ [x] := by
  rw [filter_append, filter_cons_of_pos hitem, filter_nil]

/-- An item that matches no slot makes a slot of its own. -/
theorem Slots.append_one (h : Slots into done slots) (hitem : x.isItem = true)
    (hx : ∀ slot ∈ slots, itemMatches slot.dest x = false) :
    Slots into (done ++ [x]) (slots ++ [⟨x, true, []⟩]) where
  dests := by
    obtain ⟨added, hsub, heq⟩ := h.dests
    refine ⟨added ++ [x], hsub.append (List.Sublist.refl _), ?_⟩
    rw [map_append, heq, map_append, append_assoc]
    rfl
  all := by
    rw [filter_append_item hitem, flatMap_append]
    exact h.all.append_right [x]
  inOrder := by
    intro slot hslot
    rcases mem_append.mp hslot with hslot | hslot
    · exact (h.inOrder slot hslot).trans (sublist_append_left _ _)
    · obtain rfl := mem_singleton.mp hslot
      exact sublist_append_right done [x]
  matched := by
    intro slot hslot y hy
    rcases mem_append.mp hslot with hslot | hslot
    · exact h.matched slot hslot y hy
    · obtain rfl := mem_singleton.mp hslot
      cases hy
  first := by
    refine pairwise_append.mpr
      ⟨h.first, pairwise_singleton _ _, fun before hbefore slot hslot => ?_⟩
    obtain rfl := mem_singleton.mp hslot
    intro y hy
    obtain rfl : y = x := mem_singleton.mp hy
    exact hx before hbefore

/-- An item goes into the first slot that it matches. -/
theorem Slots.add (h : Slots into done (slots1 ++ slot :: slots2)) (hitem : x.isItem = true)
    (hx : itemMatches slot.dest x = true) (hbefore : ∀ s ∈ slots1, itemMatches s.dest x = false) :
    Slots into (done ++ [x]) (slots1 ++ slot.add x :: slots2) where
  dests := by
    obtain ⟨added, hsub, heq⟩ := h.dests
    refine ⟨added, hsub.trans (sublist_append_left _ _), ?_⟩
    rw [← heq, map_append, map_append]
    rfl
  all := by
    rw [filter_append_item hitem]
    refine List.Perm.trans ?_ (h.all.append_right [x])
    simp only [flatMap_append, flatMap_cons, Slot.sources_add, append_assoc]
    refine List.Perm.append_left _ (List.Perm.append_left _ ?_)
    exact perm_append_comm
  inOrder := by
    intro s hs
    rcases mem_append.mp hs with hs | hs
    · exact (h.inOrder s (mem_append_left _ hs)).trans (sublist_append_left _ _)
    · rcases mem_cons.mp hs with rfl | hs
      · rw [Slot.sources_add]
        exact (h.inOrder slot (mem_append_right _ mem_cons_self)).append (List.Sublist.refl _)
      · have hmem := mem_append_right slots1 (mem_cons_of_mem slot hs)
        exact (h.inOrder s hmem).trans (sublist_append_left _ _)
  matched := by
    intro s hs y hy
    rcases mem_append.mp hs with hs | hs
    · exact h.matched s (mem_append_left _ hs) y hy
    · rcases mem_cons.mp hs with rfl | hs
      · rcases mem_append.mp hy with hy | hy
        · exact h.matched slot (mem_append_right _ mem_cons_self) y hy
        · obtain rfl := mem_singleton.mp hy
          exact hx
      · exact h.matched s (mem_append_right _ (mem_cons_of_mem _ hs)) y hy
  first := by
    obtain ⟨h1, h2, hcross⟩ := pairwise_append.mp h.first
    rw [pairwise_cons] at h2
    refine pairwise_append.mpr ⟨h1, pairwise_cons.mpr ⟨h2.1, h2.2⟩, fun s hs t ht => ?_⟩
    rcases mem_cons.mp ht with rfl | ht
    · rw [Slot.sources_add]
      intro y hy
      rcases mem_append.mp hy with hy | hy
      · exact hcross s hs slot mem_cons_self y hy
      · obtain rfl := mem_singleton.mp hy
        exact hbefore s hs
    · exact hcross s hs t (mem_cons_of_mem _ ht)

theorem mergeItems_level (h : Slots into done slots) :
    Level into (done ++ items) (mergeItems false (slots.map Slot.result) items) := by
  induction items generalizing done slots with
  | nil =>
    rw [append_nil, mergeItems]
    exact ⟨slots, h, rfl⟩
  | cons x items ih =>
    have hassoc : done ++ x :: items = (done ++ [x]) ++ items := by simp
    rw [hassoc]
    obtain ⟨name, attrs, children⟩ | value := x
    · have hitem : (item name attrs children).isItem = true := rfl
      rw [mergeItems]
      generalize item name attrs children = x at *
      cases hloc : locate (itemMatches · x) (slots.map Slot.result) with
      | none =>
        have hslots : slots.map Slot.result ++ [x] =
            (slots ++ [(⟨x, true, []⟩ : Slot)]).map Slot.result := by
          rw [map_append]
          rfl
        rw [hslots]
        refine ih (h.append_one hitem fun slot hslot => ?_)
        rw [← h.itemMatches_result hslot]
        exact locate_eq_none.mp hloc _ (mem_map_of_mem hslot)
      | some r =>
        obtain ⟨before, found, behind⟩ := r
        obtain ⟨heq, hfound, hbefore⟩ := locate_eq_some.mp hloc
        obtain ⟨slots1, slots', rfl, rfl, hslots'⟩ := map_eq_append_iff.mp heq
        obtain ⟨slot, slots2, rfl, rfl, rfl⟩ := map_eq_cons_iff.mp hslots'
        have hslots : slots1.map Slot.result ++ mergeTrees slot.result x ::
            slots2.map Slot.result = (slots1 ++ slot.add x :: slots2).map Slot.result := by
          rw [map_append, map_cons, Slot.result_add]
        show Level into _ (mergeItems false (slots1.map Slot.result ++ mergeTrees slot.result x ::
          slots2.map Slot.result) items)
        rw [hslots]
        refine ih (h.add hitem ?_ fun s hs => ?_)
        · rwa [← h.itemMatches_result (mem_append_right _ mem_cons_self)]
        · rw [← h.itemMatches_result (mem_append_left _ hs)]
          exact hbefore _ (mem_map_of_mem hs)
    · rw [mergeItems]
      exact ih (h.pass value)

/-- Before the first item each slot holds one of those that were there. -/
theorem slots_nil (into : List Xml) : Slots into [] (into.map fun x => ⟨x, false, []⟩) where
  dests := ⟨[], List.Sublist.refl [], by simp⟩
  all := by
    have hnone : (into.map fun x => (⟨x, false, []⟩ : Slot)).flatMap Slot.sources = [] := by
      simp [Slot.sources]
    rw [hnone]
    exact List.Perm.refl []
  inOrder := by simp [Slot.sources]
  matched := by simp
  first := pairwise_map.mpr (pairwise_of_forall fun _ _ _ h => by cases h)

theorem mergeItems_false (into items : List Xml) :
    Level into items (mergeItems false into items) := by
  have hresult : (into.map fun x => (⟨x, false, []⟩ : Slot)).map Slot.result = into := by
    rw [map_map]
    exact map_id _
  have h : Level into ([] ++ items) (mergeItems false
      ((into.map fun x => (⟨x, false, []⟩ : Slot)).map Slot.result) items) :=
    mergeItems_level (slots_nil into)
  rwa [hresult] at h

theorem mergeItems_discrete {passed : List Xml} (h : Unmatched into (passed.filter isItem)) :
    DiscreteLevel into (passed ++ items)
      (mergeItems true (into ++ passed.filter isItem) items) := by
  induction items generalizing passed with
  | nil =>
    rw [append_nil, mergeItems]
    exact .inl ⟨h, rfl⟩
  | cons x items ih =>
    have hassoc : passed ++ x :: items = (passed ++ [x]) ++ items := by simp
    obtain ⟨name, attrs, children⟩ | value := x
    · have hitem : (item name attrs children).isItem = true := rfl
      rw [mergeItems]
      generalize item name attrs children = x at *
      cases hloc : locate (itemMatches · x) (into ++ passed.filter isItem) with
      | none =>
        have hnext := @ih (passed ++ [x])
        rw [filter_append_item hitem, ← append_assoc, ← hassoc] at hnext
        exact hnext (h.append_one (locate_eq_none.mp hloc))
      | some r =>
        obtain ⟨before, found, behind⟩ := r
        obtain ⟨heq, hfound, hbefore⟩ := locate_eq_some.mp hloc
        exact .inr ⟨passed, x, items, before, found, behind, rfl, h, heq, hfound, hbefore,
          fun _ => rfl⟩
    · have hfilter : (passed ++ [text value]).filter isItem = passed.filter isItem := by
        rw [filter_append]
        exact append_nil _
      have hnext := @ih (passed ++ [text value])
      rw [hfilter, ← hassoc] at hnext
      rw [mergeItems]
      exact hnext h

/-! ## Loading a tree twice -/

/-- An item without a name has no attributes. -/
def Keyed (x : Xml) : Prop :=
  x.attrs.get "name".toList = none → x.attrs.entries = []

mutual

/--
The trees that change nothing when they are loaded again: without `config_meta`, with no
attributes in an item without a name, and with no two items at one level that match each other.
-/
def Loadable : Xml → Prop
  | item _ attrs children =>
    attrs.get "config_meta".toList = none ∧
      (children.filter isItem).Pairwise (fun x y => itemMatches x y = false) ∧
      AllLoadable children
  | text _ => True

/-- The same for every child of an item. -/
def AllLoadable : List Xml → Prop
  | [] => True
  | x :: xs => (x.isItem = true → x.Keyed) ∧ x.Loadable ∧ AllLoadable xs

end

theorem AllLoadable.of_mem {xs : List Xml} (h : AllLoadable xs) (hx : x ∈ xs) :
    (x.isItem = true → x.Keyed) ∧ x.Loadable := by
  induction xs with
  | nil => cases hx
  | cons y ys ih =>
    obtain ⟨hkeyed, hload, hrest⟩ := h
    rcases mem_cons.mp hx with rfl | hx
    · exact ⟨hkeyed, hload⟩
    · exact ih hrest hx

mutual

theorem induct {P : Xml → Prop}
    (hitem : ∀ name attrs children, (∀ x ∈ children, P x) → P (item name attrs children))
    (htext : ∀ value, P (text value)) : ∀ x, P x
  | item name attrs children => hitem name attrs children (inductChildren hitem htext children)
  | text value => htext value

theorem inductChildren {P : Xml → Prop}
    (hitem : ∀ name attrs children, (∀ x ∈ children, P x) → P (item name attrs children))
    (htext : ∀ value, P (text value)) : ∀ xs : List Xml, ∀ x ∈ xs, P x
  | [] => fun _ h => by cases h
  | x :: xs => fun y h =>
    match mem_cons.mp h with
    | .inl heq => heq ▸ induct hitem htext x
    | .inr hmem => inductChildren hitem htext xs y hmem

end

/-- What an item is matched by: its element name and its `name` attribute. -/
def key : Xml → Option (Str × Option Str)
  | item name attrs _ => some (name, attrs.get "name".toList)
  | text _ => none

theorem key_eq_of_itemMatches {into : Xml} (hx : itemMatches into x = true)
    (hy : itemMatches into y = true) : x.key = y.key := by
  obtain ⟨name, attrs, children⟩ | value := into
  · obtain ⟨xName, xAttrs, xChildren⟩ | value := x
    · obtain ⟨yName, yAttrs, yChildren⟩ | value := y
      · rw [itemMatches, Bool.and_eq_true, beq_iff_eq] at hx hy
        obtain ⟨rfl, hx⟩ := hx
        obtain ⟨rfl, hy⟩ := hy
        rw [key, key]
        cases ha : attrs.get "name".toList with
        | some n =>
          rw [ha] at hx hy
          cases hxn : xAttrs.get "name".toList with
          | none => rw [hxn] at hx; cases hx
          | some xn =>
            cases hyn : yAttrs.get "name".toList with
            | none => rw [hyn] at hy; cases hy
            | some yn =>
              rw [hxn] at hx
              rw [hyn] at hy
              have hxn' : n = xn := by simpa using hx
              have hyn' : n = yn := by simpa using hy
              rw [← hxn', ← hyn']
        | none =>
          rw [ha] at hx hy
          cases hxn : xAttrs.get "name".toList with
          | some xn => rw [hxn] at hx; cases hx
          | none =>
            cases hyn : yAttrs.get "name".toList with
            | some yn => rw [hyn] at hy; cases hy
            | none => rfl
      · simp [itemMatches] at hy
    · simp [itemMatches] at hx
  · simp [itemMatches] at hx

theorem itemMatches_of_key (hx : x.isItem = true) (hkx : x.Keyed) (hky : y.Keyed)
    (h : x.key = y.key) : itemMatches x y = true := by
  obtain ⟨xName, xAttrs, xChildren⟩ | value := x
  · obtain ⟨yName, yAttrs, yChildren⟩ | value := y
    · rw [key, key, Option.some.injEq, Prod.mk.injEq] at h
      obtain ⟨rfl, hget⟩ := h
      rw [itemMatches, Bool.and_eq_true, beq_iff_eq]
      refine ⟨rfl, ?_⟩
      rw [← hget]
      cases hn : xAttrs.get "name".toList with
      | some n => simp
      | none =>
        have hxe : xAttrs.entries = [] := hkx hn
        have hye : yAttrs.entries = [] := hky (hget ▸ hn)
        simp [hye, Attrs.skipMeta, hxe]
    · cases h
  · cases hx

theorem itemMatches_self (hx : x.isItem = true) (hkx : x.Keyed) : itemMatches x x = true :=
  itemMatches_of_key hx hkx hkx rfl

theorem locate_replace {before behind before' behind' : List α} {x y found : α}
    (hx : p x = false) (hy : p y = false)
    (h : locate p (before ++ x :: behind) = some (before', found, behind')) :
    ∃ before'' behind'', locate p (before ++ y :: behind) = some (before'', found, behind'') := by
  induction before generalizing before' behind' with
  | nil =>
    rw [nil_append, locate, hx, if_neg (by simp), Option.map_eq_some_iff] at h
    obtain ⟨⟨b, f, e⟩, hr, heq⟩ := h
    obtain ⟨-, rfl, -⟩ : x :: b = before' ∧ f = found ∧ e = behind' := by simpa using heq
    refine ⟨y :: b, e, ?_⟩
    rw [nil_append, locate, hy, if_neg (by simp), hr]
    rfl
  | cons z before ih =>
    rw [cons_append, locate] at h ⊢
    cases hz : p z with
    | true =>
      rw [hz, if_pos rfl, Option.some.injEq, Prod.mk.injEq, Prod.mk.injEq] at h
      obtain ⟨-, rfl, -⟩ := h
      exact ⟨[], before ++ y :: behind, if_pos rfl⟩
    | false =>
      rw [hz, if_neg (by simp), Option.map_eq_some_iff] at h
      obtain ⟨⟨b, f, e⟩, hr, heq⟩ := h
      obtain ⟨-, rfl, -⟩ : z :: b = before' ∧ f = found ∧ e = behind' := by simpa using heq
      obtain ⟨b', e', hr'⟩ := ih hr
      refine ⟨z :: b', e', ?_⟩
      rw [if_neg (by simp), hr']
      rfl

theorem locate_append {xs before behind : List α} {found : α}
    (h : locate p xs = some (before, found, behind)) (y : α) :
    locate p (xs ++ [y]) = some (before, found, behind ++ [y]) := by
  obtain ⟨rfl, hfound, hbefore⟩ := locate_eq_some.mp h
  exact locate_eq_some.mpr ⟨by simp, hfound, hbefore⟩

/-- Merging the item into the one it goes into changes nothing. -/
def Absorbs (into : List Xml) (x : Xml) : Prop :=
  ∃ before found behind, locate (itemMatches · x) into = some (before, found, behind) ∧
    mergeTrees found x = found

theorem mergeItems_eq_self (h : ∀ x ∈ items, x.isItem = true → Absorbs into x) :
    mergeItems false into items = into := by
  induction items with
  | nil => rw [mergeItems]
  | cons x items ih =>
    rw [forall_mem_cons] at h
    obtain ⟨name, attrs, children⟩ | value := x
    · obtain ⟨before, found, behind, hloc, hself⟩ := h.1 rfl
      rw [mergeItems, hloc]
      show mergeItems false (before ++ mergeTrees found _ :: behind) items = into
      rw [hself, ← (locate_eq_some.mp hloc).1]
      exact ih h.2
    · rw [mergeItems]
      exact ih h.2

/-- Merging the item once is merging it any number of times. -/
structure Settled (x : Xml) : Prop where
  keyed : x.Keyed
  self : mergeTrees x x = x
  twice : ∀ into, mergeTrees (mergeTrees into x) x = mergeTrees into x

/-- Items at one level with different keys, which can all be merged again. -/
structure SettledLevel (items : List Xml) : Prop where
  settled : ∀ x ∈ items, x.isItem = true → x.Settled
  distinct : items.Pairwise fun x y => x.isItem = true → y.isItem = true → x.key ≠ y.key

theorem not_itemMatches {into : Xml} (hy : itemMatches into y = true) (h : x.key ≠ y.key) :
    itemMatches into x = false := by
  rw [Bool.eq_false_iff]
  exact fun hx => h (key_eq_of_itemMatches hx hy)

theorem Absorbs.merge {before behind : List Xml} {found : Xml}
    (h : Absorbs (before ++ found :: behind) x) (hy : itemMatches found y = true)
    (hkey : x.key ≠ y.key) : Absorbs (before ++ mergeTrees found y :: behind) x := by
  obtain ⟨before', found', behind', hloc, hself⟩ := h
  have hx := not_itemMatches hy hkey
  obtain ⟨b, e, hloc'⟩ := locate_replace (p := (itemMatches · x)) (y := mergeTrees found y) hx
    ((itemMatches_mergeTrees hy x).trans hx) hloc
  exact ⟨b, found', e, hloc', hself⟩

theorem mergeItems_absorbs {done : List Xml} (h : SettledLevel (done ++ items))
    (hdone : ∀ x ∈ done, x.isItem = true → Absorbs into x) :
    ∀ x ∈ done ++ items, x.isItem = true → Absorbs (mergeItems false into items) x := by
  induction items generalizing into done with
  | nil =>
    rw [append_nil, mergeItems]
    exact hdone
  | cons y items ih =>
    have hassoc : done ++ y :: items = (done ++ [y]) ++ items := by simp
    have hdistinct : ∀ x ∈ done, x.isItem = true → y.isItem = true → x.key ≠ y.key := fun x hx =>
      (pairwise_append.mp h.distinct).2.2 x hx y mem_cons_self
    have hsettled := h.settled y (mem_append_right _ mem_cons_self)
    rw [hassoc] at h ⊢
    obtain ⟨name, attrs, children⟩ | value := y
    · rw [mergeItems]
      have hitem : (item name attrs children).isItem = true := rfl
      generalize item name attrs children = y at *
      cases hloc : locate (itemMatches · y) into with
      | none =>
        refine ih h fun x hx hxi => ?_
        rcases mem_append.mp hx with hx | hx
        · obtain ⟨before, found, behind, hloc', hself⟩ := hdone x hx hxi
          exact ⟨before, found, _, locate_append hloc' y, hself⟩
        · obtain rfl := mem_singleton.mp hx
          refine ⟨into, x, [], locate_eq_some.mpr ⟨rfl, ?_, locate_eq_none.mp hloc⟩,
            (hsettled hitem).self⟩
          exact itemMatches_self hitem (hsettled hitem).keyed
      | some r =>
        obtain ⟨before, found, behind⟩ := r
        obtain ⟨rfl, hfound, hbefore⟩ := locate_eq_some.mp hloc
        refine ih h fun x hx hxi => ?_
        rcases mem_append.mp hx with hx | hx
        · exact (hdone x hx hxi).merge hfound (hdistinct x hx hxi hitem)
        · obtain rfl := mem_singleton.mp hx
          refine ⟨before, mergeTrees found x, behind, locate_eq_some.mpr ⟨rfl, ?_, hbefore⟩,
            (hsettled hitem).twice found⟩
          exact (itemMatches_mergeTrees hfound x).trans hfound
    · rw [mergeItems]
      refine ih h fun x hx hxi => ?_
      rcases mem_append.mp hx with hx | hx
      · exact hdone x hx hxi
      · obtain rfl := mem_singleton.mp hx
        cases hxi

theorem mergeItems_stays {before behind : List Xml}
    (hloc : locate (itemMatches · x) into = some (before, x, behind))
    (h : ∀ y ∈ items, y.isItem = true → y.Keyed ∧ x.key ≠ y.key) :
    ∃ before' behind',
      locate (itemMatches · x) (mergeItems true into items) = some (before', x, behind') := by
  induction items generalizing into before behind with
  | nil =>
    rw [mergeItems]
    exact ⟨before, behind, hloc⟩
  | cons y items ih =>
    rw [forall_mem_cons] at h
    obtain ⟨name, attrs, children⟩ | value := y
    · have hitem : (item name attrs children).isItem = true := rfl
      rw [mergeItems]
      generalize item name attrs children = y at *
      obtain ⟨hkeyed, hkey⟩ := h.1 hitem
      cases hy : locate (itemMatches · y) into with
      | none => exact ih (locate_append hloc y) h.2
      | some r =>
        obtain ⟨b, found, e⟩ := r
        obtain ⟨rfl, hfound, -⟩ := locate_eq_some.mp hy
        exact locate_replace (p := (itemMatches · x)) (not_itemMatches hfound hkey)
          (not_itemMatches (itemMatches_self hitem hkeyed) hkey) hloc
    · rw [mergeItems]
      exact ih hloc h.2

theorem mergeItems_discrete_twice (h : SettledLevel items) :
    mergeItems true (mergeItems true into items) items = mergeItems true into items := by
  induction items generalizing into with
  | nil => rw [mergeItems, mergeItems]
  | cons x items ih =>
    have hdistinct := (pairwise_cons.mp h.distinct).1
    have hsettled := h.settled x mem_cons_self
    have hrest : SettledLevel items :=
      ⟨fun y hy => h.settled y (mem_cons_of_mem _ hy), (pairwise_cons.mp h.distinct).2⟩
    obtain ⟨name, attrs, children⟩ | value := x
    · have hitem : (item name attrs children).isItem = true := rfl
      have hself := itemMatches_self hitem (hsettled hitem).keyed
      have hstays : ∃ before behind, locate (itemMatches · (item name attrs children))
          (mergeItems true into (item name attrs children :: items)) =
            some (before, item name attrs children, behind) := by
        rw [mergeItems]
        generalize item name attrs children = x at *
        cases hloc : locate (itemMatches · x) into with
        | none =>
          refine mergeItems_stays (locate_eq_some.mpr ⟨rfl, hself, locate_eq_none.mp hloc⟩)
            fun y hy hyi => ⟨(hrest.settled y hy hyi).keyed, hdistinct y hy hitem hyi⟩
        | some r =>
          obtain ⟨before, found, behind⟩ := r
          exact ⟨before, behind, locate_eq_some.mpr ⟨rfl, hself, (locate_eq_some.mp hloc).2.2⟩⟩
      obtain ⟨before, behind, hloc⟩ := hstays
      rw [mergeItems, hloc]
      exact (locate_eq_some.mp hloc).1.symm
    · rw [mergeItems, mergeItems]
      exact ih hrest

theorem discrete_mergeTrees {dest source : Xml} (hs : source.isItem = true)
    (h : source.attrs.get "config_meta".toList = none) :
    (mergeTrees dest source).discrete = dest.discrete := by
  obtain ⟨name, attrs, children⟩ | value := dest
  · obtain ⟨sourceName, sourceAttrs, items⟩ | value := source
    · change sourceAttrs.get "config_meta".toList = none at h
      have hattrs : (mergeTrees (item name attrs children)
          (item sourceName sourceAttrs items)).attrs = attrs.merge sourceAttrs := by
        rw [mergeTrees]
        rfl
      rw [discrete, hattrs, Attrs.get_merge, h, Option.none_or]
      rfl
    · cases hs
  · cases source <;> rfl

theorem settledLevel {children : List Xml}
    (hpair : (children.filter isItem).Pairwise (fun x y => itemMatches x y = false))
    (hkeyed : ∀ x ∈ children, x.isItem = true → x.Keyed)
    (hself : ∀ x ∈ children, mergeTrees x x = x)
    (htwice : ∀ x ∈ children, ∀ into, mergeTrees (mergeTrees into x) x = mergeTrees into x) :
    SettledLevel children where
  settled x hx hxi := ⟨hkeyed x hx hxi, hself x hx, htwice x hx⟩
  distinct := by
    rw [pairwise_filter] at hpair
    refine hpair.imp_of_mem fun hx hy hxy hxi hyi hkey => ?_
    have hmatch := itemMatches_of_key hxi (hkeyed _ hx hxi) (hkeyed _ hy hyi) hkey
    rw [hxy hxi hyi] at hmatch
    cases hmatch

theorem SettledLevel.absorbs (h : SettledLevel items) :
    ∀ x ∈ items, x.isItem = true → Absorbs items x := by
  intro x hx hxi
  obtain ⟨before, behind, rfl⟩ := append_of_mem hx
  have hself := itemMatches_self hxi (h.settled x hx hxi).keyed
  refine ⟨before, x, behind, locate_eq_some.mpr ⟨rfl, hself, fun y hy => ?_⟩,
    (h.settled x hx hxi).self⟩
  cases hyi : y.isItem with
  | true =>
    have hkey := (pairwise_append.mp h.distinct).2.2 y hy x mem_cons_self hyi hxi
    have hyself := itemMatches_self hyi (h.settled y (mem_append_left _ hy) hyi).keyed
    exact not_itemMatches hyself (Ne.symm hkey)
  | false =>
    cases y with
    | item name attrs children => cases hyi
    | text value => cases x <;> rfl

theorem mergeTrees_twice (source : Xml) : source.Loadable → mergeTrees source source = source ∧
      ∀ dest, mergeTrees (mergeTrees dest source) source = mergeTrees dest source := by
  induction source using induct with
  | htext value =>
    intro _
    exact ⟨rfl, fun dest => by cases dest <;> rfl⟩
  | hitem name attrs children ih =>
    intro ⟨hmeta, hpair, hall⟩
    have hlevel : SettledLevel children := settledLevel hpair
      (fun x hx => (hall.of_mem hx).1) (fun x hx => (ih x hx (hall.of_mem hx).2).1)
      (fun x hx => (ih x hx (hall.of_mem hx).2).2)
    refine ⟨?_, fun dest => ?_⟩
    · have hdiscrete : (item name attrs children).discrete = false := by
        change ((attrs.get "config_meta".toList).getD [] == "discrete".toList) = false
        rw [hmeta]
        rfl
      rw [mergeTrees, Attrs.merge_self, hdiscrete, mergeItems_eq_self hlevel.absorbs]
    · obtain ⟨destName, destAttrs, into⟩ | value := dest
      · have hdiscrete : (mergeTrees (item destName destAttrs into)
            (item name attrs children)).discrete = (item destName destAttrs into).discrete :=
          discrete_mergeTrees rfl hmeta
        rw [mergeTrees] at hdiscrete ⊢
        rw [mergeTrees, Attrs.merge_merge, hdiscrete]
        congr 1
        cases (item destName destAttrs into).discrete with
        | true => exact mergeItems_discrete_twice hlevel
        | false =>
          have hpassed : SettledLevel ([] ++ children) := hlevel
          exact mergeItems_eq_self (mergeItems_absorbs hpassed fun _ hx => by cases hx)
      · rfl

/--
Loading a tree merges each of its items into the first one it matches or adds it, puts it in the
place of that one in a discrete item, and keeps all others. Loading a tree again of which no item
without a name has attributes changes nothing.
-/
theorem load_merged (dest source : Xml) (hdest : dest.isItem = true)
    (hsource : source.isItem = true) :
    Merged dest source (mergeTrees dest source) ∧ (source.Loadable →
        mergeTrees (mergeTrees dest source) source = mergeTrees dest source) := by
  refine ⟨?_, fun h => (mergeTrees_twice source h).2 dest⟩
  obtain ⟨name, attrs, into⟩ | value := dest
  · obtain ⟨sourceName, sourceAttrs, items⟩ | value := source
    · refine ⟨fun n => ?_, ?_⟩
      · rw [mergeTrees]
        exact Attrs.get_merge attrs sourceAttrs n
      · rw [mergeTrees]
        cases hdiscrete : (item name attrs into).discrete with
        | true =>
          rw [if_pos rfl]
          have h : DiscreteLevel into ([] ++ items)
              (mergeItems true (into ++ [].filter isItem) items) :=
            mergeItems_discrete ⟨nofun, .nil⟩
          rwa [filter_nil, append_nil] at h
        | false =>
          rw [if_neg (by simp)]
          exact mergeItems_false into items
    · cases hsource
  · cases hdest

/-- A configuration with one item. -/
def single (x : Xml) : Xml := item "root".toList .empty [x]

/-- A server named `a`, with the given attributes. -/
def server (attrs : Attrs) : Xml := item "server".toList (attrs.set "name".toList "a".toList) []

/-- A server with a port is loaded over one without. -/
theorem load_merged_port :
    Merged (single (server .empty)) (single (server (Attrs.empty.set "port".toList "5672".toList)))
      (mergeTrees (single (server .empty))
        (single (server (Attrs.empty.set "port".toList "5672".toList)))) :=
  (load_merged _ _ rfl rfl).1

/-- A user without a name, but with an attribute. -/
def unnamedUser : Xml := item "user".toList (Attrs.empty.set "id".toList "1".toList) []

/-- An item with an attribute and without a name is added once more by each load. -/
theorem unnamedUser_added_again :
    mergeTrees (mergeTrees (single (server .empty)) (single unnamedUser)) (single unnamedUser) ≠
      mergeTrees (single (server .empty)) (single unnamedUser) := by
  intro h
  have hlength := congrArg (fun x => x.children.length) h
  exact absurd hlength (by decide)

end Xml

end OpenAmq
