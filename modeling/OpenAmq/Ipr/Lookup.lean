import Mathlib.Data.List.TakeWhile
import OpenAmq.Ipr.Cursor

/-!
# Lookups in trees

`ipr_xml_find_item` goes on among the siblings of what it has found, and along the path where it has
found nothing. `ipr_config_locate` does neither.

* `Xml.findItem` — the lookup of an item by its path, with the positions of the items
* `Xml.Chain`, `Xml.First` — what the path names, and the first of that in the document
* `XmlPlace.Walk` — where the cursor goes along a path
* `lookup_iff` — **an item is found as it should be if and only if the way to it is plain, and the
  cursor is always moved as it should be**
-/

namespace OpenAmq

open List

namespace Xml

abbrev Named (token : Str) (child : Xml) : Prop := child.isToken token none = true

/-- The loop over the children for a name inside the path. The item that is found last is the one
where the search goes on, and without one it goes on where it is. -/
def childLoop (token : Str) (pos : List Nat) :
    (children : List Xml) → (index : Nat) → (xmlItem : Xml × List Nat) → Xml × List Nat
  | [], _, xmlItem => xmlItem
  | child :: children, index, xmlItem =>
    childLoop token pos children (index + 1)
      (if child.isToken token none then (child, pos ++ [index]) else xmlItem)

/-- The loop over the names of the path, with the position of the item that is found -/
def findLoop : (path : List Str) → (xmlItem : Xml × List Nat) → Option (List Nat)
  | [], _ => none
  | [token], (xml, pos) =>
    (xml.children.findIdx? (·.isToken token none)).map fun index => pos ++ [index]
  | token :: next :: path, (xml, pos) =>
    findLoop (next :: path) (childLoop token pos xml.children 0 (xml, pos))

/-- `ipr_xml_find_item` -/
def findItem (root : Xml) (path : Str) : Option (List Nat) :=
  findLoop (path.splitOn '/') (root, [])

/-! ## What a path names -/

/-- A chain of children with these names, by their positions -/
inductive Chain : Xml → List Str → List Nat → Prop
  | last {xml child : Xml} {token : Str} {i : Nat} (hchild : xml.children[i]? = some child)
      (hname : child.Named token) : Chain xml [token] [i]
  | step {xml child : Xml} {token : Str} {i : Nat} {path : List Str} {pos : List Nat}
      (hchild : xml.children[i]? = some child) (hname : child.Named token)
      (hrest : Chain child path pos) : Chain xml (token :: path) (i :: pos)

/-- The first item in the document at the end of such a chain, or none if there is none -/
def First (xml : Xml) (path : List Str) : Option (List Nat) → Prop
  | none => ∀ pos, ¬ Chain xml path pos
  | some pos => Chain xml path pos ∧
    ∀ pos', Chain xml path pos' → pos' = pos ∨ List.Lex (· < ·) pos pos'

structure LastNamed (token : Str) (xml : Xml) (before : List Xml) (child : Xml) : Prop where
  split : ∃ after, xml.children = before ++ child :: after ∧ ∀ d ∈ after, ¬ d.Named token
  name : child.Named token

/-- Along this path there is nothing, when names that are not there are left out and of several
children the last one is taken. -/
def Missing : (path : List Str) → Xml → Prop
  | [], _ => True
  | [token], xml => ∀ d ∈ xml.children, ¬ d.Named token
  | token :: next :: path, xml =>
    (∀ before child, LastNamed token xml before child → Missing (next :: path) child) ∧
      ((∀ d ∈ xml.children, ¬ d.Named token) → Missing (next :: path) xml)

/-- At each name inside the path only the last child leads on along the rest of it, or there is no
child, and nothing is found without that name. -/
def Plain : (path : List Str) → Xml → Prop
  | [], _ | [_], _ => True
  | token :: next :: path, xml =>
    (∀ before child, LastNamed token xml before child →
      (∀ b ∈ before, b.Named token → ∀ pos, ¬ Chain b (next :: path) pos) ∧
        Plain (next :: path) child) ∧
      ((∀ d ∈ xml.children, ¬ d.Named token) → Missing (next :: path) xml)

/-! ## What is found -/

variable {xml child : Xml} {token next : Str} {path : List Str} {pos : List Nat}

theorem childLoop_cases (token : Str) (pos : List Nat) (children : List Xml) (k : Nat)
    (found : Xml × List Nat) :
    (∀ d ∈ children, ¬ d.Named token) ∧ childLoop token pos children k found = found ∨
      ∃ before child after, children = before ++ child :: after ∧ child.Named token ∧
        (∀ d ∈ after, ¬ d.Named token) ∧
        childLoop token pos children k found = (child, pos ++ [k + before.length]) := by
  induction children generalizing k found with
  | nil => exact .inl ⟨nofun, rfl⟩
  | cons child children ih =>
    rw [childLoop]
    rcases ih (k + 1) (if child.isToken token none then (child, pos ++ [k]) else found) with
      ⟨hnone, hloop⟩ | ⟨before, last, after, rfl, hname, hafter, hloop⟩
    · by_cases hname : child.Named token
      · refine .inr ⟨[], child, children, rfl, hname, hnone, ?_⟩
        rw [hloop, if_pos hname]
        rfl
      · refine .inl ⟨forall_mem_cons.mpr ⟨hname, hnone⟩, ?_⟩
        rw [hloop, if_neg hname]
    · refine .inr ⟨child :: before, last, after, rfl, hname, hafter, ?_⟩
      rw [hloop, length_cons, Nat.add_right_comm, Nat.add_assoc]

theorem childLoop_pos (token : Str) (pos rest : List Nat) (children : List Xml) (k : Nat)
    (found : Xml) : childLoop token pos children k (found, pos ++ rest) =
      ((childLoop token [] children k (found, rest)).1,
        pos ++ (childLoop token [] children k (found, rest)).2) := by
  induction children generalizing k found rest with
  | nil => rfl
  | cons child children ih =>
    rw [childLoop, childLoop]
    split
    · exact ih ..
    · exact ih ..

theorem findLoop_pos (path : List Str) (xml : Xml) (pos : List Nat) :
    findLoop path (xml, pos) = (findLoop path (xml, [])).map (pos ++ ·) := by
  induction path generalizing xml pos with
  | nil => rfl
  | cons token path ih =>
    cases path with
    | nil =>
      simp only [findLoop]
      cases xml.children.findIdx? _ <;> rfl
    | cons next path =>
      have hloop := childLoop_pos token pos [] xml.children 0 xml
      rw [append_nil] at hloop
      simp only [findLoop]
      rw [hloop]
      obtain ⟨child, rest⟩ := childLoop token [] xml.children 0 (xml, [])
      rw [ih child (pos ++ rest), ih child rest, Option.map_map]
      exact congrArg (Option.map · _) (funext fun _ => append_assoc ..)

/-- A name inside the path: the search goes on below the last child of that name, or stays. -/
theorem findLoop_cases (token next : Str) (path : List Str) (xml : Xml) :
    (∀ d ∈ xml.children, ¬ d.Named token) ∧
        findLoop (token :: next :: path) (xml, []) = findLoop (next :: path) (xml, []) ∨
      ∃ before child, LastNamed token xml before child ∧
        findLoop (token :: next :: path) (xml, []) =
          (findLoop (next :: path) (child, [])).map (before.length :: ·) := by
  rw [findLoop]
  rcases childLoop_cases token [] xml.children 0 (xml, []) with
    ⟨hnone, hloop⟩ | ⟨before, child, after, hsplit, hname, hafter, hloop⟩
  · exact .inl ⟨hnone, congrArg _ hloop⟩
  · refine .inr ⟨before, child, ⟨⟨after, hsplit, hafter⟩, hname⟩, ?_⟩
    rw [hloop, findLoop_pos, Nat.zero_add]
    rfl

theorem LastNamed.unique {before before' : List Xml} {child' : Xml}
    (h : LastNamed token xml before child) (h' : LastNamed token xml before' child') :
    before = before' ∧ child = child' := by
  obtain ⟨⟨after, hsplit, hafter⟩, hname⟩ := h
  obtain ⟨⟨after', hsplit', hafter'⟩, hname'⟩ := h'
  rw [hsplit] at hsplit'
  rcases append_eq_append_iff.mp hsplit' with ⟨l, hl, hr⟩ | ⟨l, hl, hr⟩
  · cases l with
    | nil =>
      cases hr
      exact ⟨by simpa using hl.symm, rfl⟩
    | cons d l =>
      cases hr
      exact absurd hname' (hafter _ (by simp))
  · cases l with
    | nil =>
      cases hr
      exact ⟨by simpa using hl, rfl⟩
    | cons d l =>
      cases hr
      exact absurd hname (hafter' _ (by simp))

theorem findLoop_eq_none (path : List Str) (xml : Xml) :
    findLoop path (xml, []) = none ↔ Missing path xml := by
  induction path generalizing xml with
  | nil => exact iff_of_true rfl trivial
  | cons token path ih =>
    cases path with
    | nil => simp [findLoop, Missing, Named]
    | cons next path =>
      rw [Missing]
      rcases findLoop_cases token next path xml with ⟨hnone, hloop⟩ | ⟨before, child, hlast, hloop⟩
      · rw [hloop, ih]
        refine ⟨fun h => ⟨fun before child hlast => ?_, fun _ => h⟩, fun h => h.2 hnone⟩
        obtain ⟨⟨after, hsplit, -⟩, hname⟩ := hlast
        exact absurd hname (hnone child (by simp [hsplit]))
      · rw [hloop, Option.map_eq_none_iff, ih]
        refine ⟨fun h => ⟨fun before' child' hlast' => ?_, fun hnone => ?_⟩,
          fun h => h.1 before child hlast⟩
        · rw [← (hlast.unique hlast').2]
          exact h
        · obtain ⟨⟨after, hsplit, -⟩, hname⟩ := hlast
          exact absurd hname (hnone child (by simp [hsplit]))

theorem chain_cons_iff {i : Nat} (hpath : path ≠ []) : Chain xml (token :: path) (i :: pos) ↔
      ∃ child, xml.children[i]? = some child ∧ child.Named token ∧ Chain child path pos := by
  constructor
  · intro h
    cases h with
    | last => exact absurd rfl hpath
    | step hchild hname hrest => exact ⟨_, hchild, hname, hrest⟩
  · rintro ⟨child, hchild, hname, hrest⟩
    exact .step hchild hname hrest

theorem first_single (token : Str) (xml : Xml) :
    First xml [token] (findLoop [token] (xml, [])) := by
  rw [findLoop]
  cases hfind : xml.children.findIdx? (·.isToken token none) with
  | none =>
    rintro pos (⟨hchild, hname⟩ | ⟨-, -, ⟨⟩⟩)
    rw [findIdx?_eq_none_iff] at hfind
    exact absurd hname (by simp [hfind _ (mem_of_getElem? hchild)])
  | some index =>
    obtain ⟨hlt, hname, hbefore⟩ := findIdx?_eq_some_iff_getElem.mp hfind
    refine ⟨.last (getElem?_eq_getElem hlt) hname, ?_⟩
    rintro pos (⟨hchild, hname'⟩ | ⟨-, -, ⟨⟩⟩)
    rename_i child j
    rcases Nat.lt_trichotomy index j with hlt' | rfl | hlt'
    · exact .inr (.rel hlt')
    · exact .inl rfl
    · obtain ⟨hj, rfl⟩ := List.getElem?_eq_some_iff.mp hchild
      exact absurd hname' (hbefore j hlt')

/-- Below the last child with a name the first item is that of the child, if nothing is below the
other children with that name. -/
theorem first_step {before : List Xml} (hlast : LastNamed token xml before child)
    (hpath : path ≠ []) (r : Option (List Nat)) :
    First xml (token :: path) (r.map (before.length :: ·)) ↔
      (∀ b ∈ before, b.Named token → ∀ pos, ¬ Chain b path pos) ∧ First child path r := by
  obtain ⟨⟨after, hsplit, hafter⟩, hname⟩ := hlast
  have hat : xml.children[before.length]? = some child := by simp [hsplit]
  -- the children with that name are this one and some of those before it
  have hothers : ∀ i d, xml.children[i]? = some d → d.Named token →
      i < before.length ∧ d ∈ before ∨ i = before.length ∧ d = child := by
    intro i d hi hd
    rcases Nat.lt_trichotomy i before.length with hlt | rfl | hlt
    · rw [hsplit, getElem?_append_left hlt] at hi
      exact .inl ⟨hlt, mem_of_getElem? hi⟩
    · exact .inr ⟨rfl, Option.some.inj (hi.symm.trans hat)⟩
    · rw [hsplit, getElem?_append_right (Nat.le_of_lt hlt)] at hi
      obtain ⟨n, hn⟩ : ∃ n, i - before.length = n + 1 := ⟨i - before.length - 1, by omega⟩
      rw [hn, getElem?_cons_succ] at hi
      exact absurd hd (hafter d (mem_of_getElem? hi))
  have hbelow : ∀ pos, Chain child path pos → Chain xml (token :: path) (before.length :: pos) :=
    fun _ hchain => .step hat hname hchain
  have hchains : ∀ pos, Chain xml (token :: path) pos → ∃ i d rest, pos = i :: rest ∧
      xml.children[i]? = some d ∧ d.Named token ∧ Chain d path rest := by
    rintro pos (⟨hchild, hd⟩ | ⟨hchild, hd, hrest⟩)
    · exact absurd rfl hpath
    · exact ⟨_, _, _, rfl, hchild, hd, hrest⟩
  constructor
  · intro h
    have hnone : ∀ b ∈ before, b.Named token → ∀ pos, ¬ Chain b path pos := by
      intro b hb hbname pos hchain
      obtain ⟨i, hget⟩ := List.mem_iff_getElem?.mp hb
      have hi := (List.getElem?_eq_some_iff.mp hget).1
      have hbchain : Chain xml (token :: path) (i :: pos) :=
        .step (by rwa [hsplit, List.getElem?_append_left hi]) hbname hchain
      cases r with
      | none => exact h _ hbchain
      | some p =>
        rcases h.2 _ hbchain with hsame | hless
        · cases hsame
          omega
        · cases hless with
          | rel hless => omega
          | cons _ => omega
    refine ⟨hnone, ?_⟩
    cases r with
    | none => exact fun pos hchain => h _ (hbelow pos hchain)
    | some p =>
      obtain ⟨hchain, hleast⟩ := h
      obtain ⟨d, hd, -, hrest⟩ := (chain_cons_iff hpath).mp hchain
      cases hd.symm.trans hat
      refine ⟨hrest, fun pos hpos => ?_⟩
      rcases hleast _ (hbelow pos hpos) with hsame | hless
      · exact .inl (cons.inj hsame).2
      · cases hless with
        | rel hless => exact absurd hless (Nat.lt_irrefl _)
        | cons hless => exact .inr hless
  · rintro ⟨hnone, hfirst⟩
    cases r with
    | none =>
      intro pos hchain
      obtain ⟨i, d, rest, rfl, hi, hd, hrest⟩ := hchains pos hchain
      rcases hothers i d hi hd with ⟨-, hmem⟩ | ⟨-, rfl⟩
      · exact hnone d hmem hd rest hrest
      · exact hfirst rest hrest
    | some p =>
      refine ⟨hbelow p hfirst.1, fun pos hchain => ?_⟩
      obtain ⟨i, d, rest, rfl, hi, hd, hrest⟩ := hchains pos hchain
      rcases hothers i d hi hd with ⟨-, hmem⟩ | ⟨rfl, rfl⟩
      · exact absurd hrest (hnone d hmem hd rest)
      · rcases hfirst.2 rest hrest with rfl | hless
        · exact .inl rfl
        · exact .inr (.cons hless)

theorem first_findLoop (path : List Str) (xml : Xml) :
    First xml path (findLoop path (xml, [])) ↔ Plain path xml := by
  induction path generalizing xml with
  | nil => exact iff_of_true (fun pos hchain => nomatch hchain) trivial
  | cons token path ih =>
    cases path with
    | nil => exact iff_of_true (first_single token xml) trivial
    | cons next path =>
      rw [Plain]
      rcases findLoop_cases token next path xml with ⟨hnone, hloop⟩ | ⟨before, child, hlast, hloop⟩
      · have hchains : ∀ pos, ¬ Chain xml (token :: next :: path) pos := by
          rintro pos (_ | ⟨hchild, hname, -⟩)
          exact hnone _ (mem_of_getElem? hchild) hname
        have hlast : ∀ before child, ¬ LastNamed token xml before child := by
          rintro before child ⟨⟨after, hsplit, -⟩, hname⟩
          exact hnone child (by simp [hsplit]) hname
        rw [hloop]
        refine Iff.trans ?_ ⟨fun h => ⟨fun _ _ h' => absurd h' (hlast _ _), fun _ => h⟩,
          fun h => h.2 hnone⟩
        rw [← findLoop_eq_none]
        cases findLoop (next :: path) (xml, []) with
        | none => exact iff_of_true hchains rfl
        | some pos => exact iff_of_false (fun h => hchains _ h.1) nofun
      · rw [hloop, first_step hlast (by simp), ih]
        refine ⟨fun h => ⟨fun before' child' hlast' => ?_, fun hnone => ?_⟩,
          fun h => h.1 before child hlast⟩
        · obtain ⟨rfl, rfl⟩ := hlast.unique hlast'
          exact h
        · obtain ⟨⟨after, hsplit, -⟩, hname⟩ := hlast
          exact absurd hname (hnone child (by simp [hsplit]))

end Xml

/-! ## Where the cursor goes -/

/-- The walk along a path, to the first child that matches at each name. Only at the last name the
child has to be the one that is selected. -/
inductive XmlPlace.Walk (name : Option Str) : List Str → XmlPlace → XmlPlace → Prop
  | done {place : XmlPlace} : Walk name [] place place
  | up {path : List Str} {place last : XmlPlace} (hrest : Walk name path place.parent last) :
      Walk name ("..".toList :: path) place last
  | down {path : List Str} {place last : XmlPlace} {child : Xml} {following : List Xml}
      (hchild : place.item.children = child :: following)
      (hrest :
        Walk name path ⟨child, following, (place.item, place.following) :: place.above⟩ last) :
      Walk name ("+".toList :: path) place last
  | child {token : Str} {path : List Str} {place last : XmlPlace} {child : Xml}
      {before following : List Xml} (hup : token ≠ "..".toList) (hdown : token ≠ "+".toList)
      (hchild : place.item.children = before ++ child :: following)
      (hbefore : ∀ b ∈ before, b.isToken token (if path = [] then name else none) = false)
      (hname : child.isToken token (if path = [] then name else none) = true)
      (hrest :
        Walk name path ⟨child, following, (place.item, place.following) :: place.above⟩ last) :
      Walk name (token :: path) place last

theorem locateLoop_false (name : Option Str) (path : List Str) (place : XmlPlace) :
    (locateLoop name path place false).2 = false := by
  induction path generalizing place with
  | nil => rfl
  | cons token path ih =>
    rw [locateLoop]
    split
    · exact ih _
    · split
      · split <;> exact ih _
      · simp only
        split
        · exact ih _
        · rfl

/-- The loop comes to an item just if the path leads there. -/
theorem locateLoop_iff (name : Option Str) (path : List Str) (place last : XmlPlace) :
    locateLoop name path place true = (last, true) ↔ place.Walk name path last := by
  induction path generalizing place with
  | nil =>
    constructor
    · rintro ⟨⟩
      exact .done
    · rintro ⟨⟩
      rfl
  | cons token path ih =>
    rw [locateLoop]
    by_cases hup : token = "..".toList
    · rw [if_pos hup, ih]
      subst hup
      refine ⟨.up, fun h => ?_⟩
      cases h with
      | up hrest => exact hrest
      | child hup => exact absurd rfl hup
    · rw [if_neg hup]
      by_cases hdown : token = "+".toList
      · rw [if_pos hdown]
        subst hdown
        cases hchildren : place.item.children with
        | nil =>
          refine iff_of_false (fun h => ?_) fun h => ?_
          · have hfalse := locateLoop_false name path place
            simp only [XmlPlace.child] at h
            rw [h] at hfalse
            cases hfalse
          · cases h with
            | down hchild => cases hchildren.symm.trans hchild
            | child _ hdown => exact absurd rfl hdown
        | cons child following =>
          simp only [XmlPlace.child]
          rw [ih]
          refine ⟨.down hchildren, fun h => ?_⟩
          cases h with
          | down hchild hrest =>
            cases hchildren.symm.trans hchild
            exact hrest
          | child _ hdown => exact absurd rfl hdown
      · rw [if_neg hdown]
        simp only
        generalize hselector : (if path = [] then name else none) = selector
        cases hmatch : place.item.children.dropWhile fun c => !c.isToken token selector with
        | nil =>
          refine iff_of_false (fun h => by cases h) fun h => ?_
          rw [dropWhile_eq_nil_iff] at hmatch
          cases h with
          | up => exact hup rfl
          | down => exact hdown rfl
          | child _ _ hchild _ hname =>
            rw [hchild] at hmatch
            have hnot := hmatch _ (mem_append_right _ mem_cons_self)
            rw [← hselector, hname] at hnot
            cases hnot
        | cons child following =>
          have hname : child.isToken token selector = true := by
            have hhead := head?_dropWhile_not (fun c => !c.isToken token selector)
              place.item.children
            rw [hmatch] at hhead
            simpa using hhead
          simp only [XmlPlace.child]
          rw [ih]
          constructor
          · intro hrest
            refine @XmlPlace.Walk.child _ _ _ _ _ _
              (place.item.children.takeWhile fun c => !c.isToken token selector) _ hup hdown ?_ ?_
              (hselector ▸ hname) hrest
            · rw [← hmatch, takeWhile_append_dropWhile]
            · rw [hselector]
              exact fun b hb => by simpa using mem_takeWhile_imp hb
          · intro h
            cases h with
            | up => exact absurd rfl hup
            | down => exact absurd rfl hdown
            | child _ _ hchild hbefore hname' hrest =>
              rw [hselector] at hbefore hname'
              rw [hchild, dropWhile_append_of_pos (by simpa using hbefore),
                dropWhile_cons_of_neg (by simp [hname'])] at hmatch
              cases hmatch
              exact hrest

/-- The cursor is moved along a path as the walk goes, and stays where it starts from if there is no
walk. That is where it was, unless the path begins at the root. -/
structure IprConfig.Locates (self : IprConfig) (absolute : Bool) (path : List Str)
    (name : Option Str) : Prop where
  located : ∀ start, start = (if absolute then ⟨self.root, [], []⟩ else self.place) →
    ((self.locate absolute path name).located = true ↔ ∃ last, start.Walk name path last)
  moved : ∀ start last, start = (if absolute then ⟨self.root, [], []⟩ else self.place) →
    start.Walk name path last → (self.locate absolute path name).place = last
  stays : absolute = false → (self.locate absolute path name).located = false →
    (self.locate absolute path name).place = self.place
  next : self.next.located = false → self.next.place = self.place

theorem IprConfig.locates (self : IprConfig) (absolute : Bool) (path : List Str)
    (name : Option Str) : self.Locates absolute path name := by
  have hwalk : ∀ start last, locateLoop name path start true = (last, true) ↔
      start.Walk name path last := locateLoop_iff name path
  refine ⟨?_, ?_, ?_, ?_⟩
  · rintro start rfl
    simp only [← hwalk]
    constructor
    · intro h
      exact ⟨_, Prod.ext rfl h⟩
    · rintro ⟨last, h⟩
      exact congrArg Prod.snd h
  · rintro start last rfl h
    rw [← hwalk] at h
    simp only [locate, h, if_true]
  · rintro rfl h
    have hnot : (locateLoop name path self.place true).2 = false := h
    simp only [locate, Bool.false_eq_true, if_false, hnot]
  · intro h
    unfold next at h ⊢
    split at h
    · rfl
    · cases h

/-- Items are found as they should be if and only if the way to them is plain, and the cursor is
always moved as it should be. -/
theorem lookup_iff (root : Xml) (path : Str) (config : IprConfig) (absolute : Bool)
    (steps : List Str) (name : Option Str) :
    root.First (path.splitOn '/') (root.findItem path) ∧ config.Locates absolute steps name ↔
      root.Plain (path.splitOn '/') :=
  (and_iff_left (config.locates absolute steps name)).trans (Xml.first_findLoop _ root)

theorem lookup_fails :
    let root : Xml := .item ['a'] .empty [.item ['c'] .empty []]
    ¬ root.First (['b', '/', 'c'].splitOn '/') (root.findItem ['b', '/', 'c']) := by
  intro root h
  have hplain : root.Plain [['b'], ['c']] := (Xml.first_findLoop [['b'], ['c']] root).mp h
  exact hplain.2 (by simp [root, Xml.children, Xml.Named, Xml.isToken]) _ mem_cons_self
    (by simp [Xml.Named, Xml.isToken])

end OpenAmq
