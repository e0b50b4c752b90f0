import OpenAmq.Lib.Run
import Mathlib.Logic.Function.Basic

/-!
# Arrays

The arrays that `icl_array_head` generates for a class of items, where the block of slots grows by
`ARRAY_EXTENT` when an item is inserted beyond it.

* `ArrayHead.insert`, `remove`, `fetch`, `reset` — the operations, as far as they stay in the block
* `Slots` — what an array is for: a map from indices to items
* `ArrayHolds` — the array holds the items of such a map
* `array_run` — **a run does the same as on the map, if each index is less than `ARRAY_EXTENT`
  beyond the block and no item is inserted again where the array has links to its items**
-/

namespace OpenAmq

open Lib Function Option List

variable {T : Type*}

def arrayExtent : Nat := 1024

def arrayMaxIndex : Nat := 1024 * 1024 * 128

/-- An array, with what its items have in them. The block has `size` slots. -/
structure ArrayHead (T : Type*) where
  bound : Nat
  size : Nat
  data : Nat → Option T
  head : T → Bool
  index : T → Nat

open ArrayHead

namespace ArrayHead

def new : ArrayHead T := ⟨0, 0, fun _ => none, fun _ => false, fun _ => 0⟩

/-- A slot read, if it is in the block -/
def read (self : ArrayHead T) (index : Nat) : Option (Option T) :=
  if index < self.size then some (self.data index) else none

variable [DecidableEq T]

def detach (self : ArrayHead T) (item : T) : ArrayHead T :=
  { self with head := update self.head item false, index := update self.index item 0 }

/-- The loop of `s_reset` -/
def resetLoop (self : ArrayHead T) : (rest index : Nat) → Option (ArrayHead T)
  | 0, _ => some self
  | n + 1, index =>
    (self.read index).bind fun item =>
      resetLoop (match item with | some item => self.detach item | none => self) n (index + 1)

/-- `s_reset`, and `reset` -/
def reset (self : ArrayHead T) : Option (ArrayHead T) :=
  (self.resetLoop self.bound 0).map ({ · with data := fun _ => none, bound := 0, size := 0 })

/-- The loop of `s_remove`, which takes empty slots from the top -/
def shrink (self : ArrayHead T) : (bound : Nat) → Option Nat
  | 0 => some 0
  | n + 1 => (self.read n).bind fun item => if item = none then shrink self n else some (n + 1)

/-- `s_remove`, whose assertions are the first conditions -/
def sRemove (self : ArrayHead T) (item : T) : Option (ArrayHead T) :=
  let index := self.index item
  if self.read index = some (some item) then
    let self := self.detach item
    let self := { self with data := update self.data index none }
    (self.shrink self.bound).map ({ self with bound := · })
  else none

def grow (self : ArrayHead T) (index : Nat) : ArrayHead T :=
  if self.size ≤ index then
    { self with
      size := self.size + arrayExtent
      data := fun i => if i < self.size then self.data i else none }
  else self

def remove (self : ArrayHead T) (item : T) : Option (ArrayHead T) :=
  if self.head item then self.sRemove item else some self

/-- The previous occupant of a slot, which is destroyed. That removes it from its containers, but it
has no head any more. -/
def kickOut (self : ArrayHead T) : (oldItem : Option T) → Option (ArrayHead T)
  | some oldItem => (self.detach oldItem).remove oldItem
  | none => some self

def sInsert (self : ArrayHead T) (item : T) (index : Nat) : Option (ArrayHead T) := do
  let self := self.grow index
  let oldItem ← self.read index
  let self ← self.kickOut oldItem
  some { self with
      data := update self.data index (some item)
      bound := if self.bound ≤ index then index + 1 else self.bound
      head := update self.head item true
      index := update self.index item index }

/-- `insert`. With links to the items, the pointer to an item that was in the array is null after it
is unlinked, which the assertion of `s_insert` refuses. -/
def insert (linkToChild : Bool) (self : ArrayHead T) (index : Nat) (item : T) :
    Option (ArrayHead T) :=
  if self.head item then
    (self.sRemove item).bind fun self => if linkToChild then none else self.sInsert item index
  else self.sInsert item index

def fetch (self : ArrayHead T) (index : Nat) : Option (Option T) :=
  if index < self.bound then self.read index else some none

/-- The calls, with the indices that are allowed -/
inductive Call (T : Type*) where
  | insert (index : Fin arrayMaxIndex) (item : T)
  | remove (item : T)
  | fetch (index : Nat)
  | reset

def step (linkToChild : Bool) (self : ArrayHead T) : Call T → Option (ArrayHead T × List (Option T))
  | .insert index item => (self.insert linkToChild index item).map (·, [])
  | .remove item => (self.remove item).map (·, [])
  | .fetch index => (self.fetch index).map fun item => (self, [item])
  | .reset => self.reset.map (·, [])

/-- The index is less than an extent beyond the block, and the item not in the array if that has
links to its items. -/
def Fits (linkToChild : Bool) (self : ArrayHead T) : Call T → Prop
  | .insert index item =>
    index < self.size + arrayExtent ∧ (linkToChild = true → self.head item = false)
  | _ => True

end ArrayHead

/-! ## The map -/

/-- Items by their indices -/
abbrev Slots (T : Type*) := Nat → Option T

namespace Slots

variable [DecidableEq T]

def remove (m : Slots T) (item : T) : Slots T := fun i => if m i = some item then none else m i

def insert (m : Slots T) (index : Nat) (item : T) : Slots T :=
  update (m.remove item) index (some item)

/-- The map after a call, with everything that was fetched -/
def step (s : Slots T × List (Option T)) : ArrayHead.Call T → Slots T × List (Option T)
  | .insert index item => (s.1.insert index item, s.2)
  | .remove item => (s.1.remove item, s.2)
  | .fetch index => (s.1, s.2 ++ [s.1 index])
  | .reset => (fun _ => none, s.2)

theorem remove_remove (m : Slots T) (item : T) : (m.remove item).remove item = m.remove item := by
  funext i
  refine if_neg fun hi => ?_
  unfold remove at hi
  split at hi
  · cases hi
  · contradiction

end Slots

structure ArrayHolds (s : ArrayHead T) (m : Slots T) : Prop where
  data : ∀ i < s.size, s.data i = m i
  bound_le : s.bound ≤ s.size
  below : ∀ i x, m i = some x → i < s.bound
  top : ∀ n, s.bound = n + 1 → m n ≠ none
  back : ∀ i x, m i = some x ↔ s.head x = true ∧ s.index x = i

section Holds

variable [DecidableEq T] {s : ArrayHead T} {m : Slots T} {item : T}

omit [DecidableEq T] in
theorem ArrayHolds.read (h : ArrayHolds s m) {i : Nat} (hi : i < s.bound) :
    s.read i = some (m i) := by
  have hsize := Nat.lt_of_lt_of_le hi h.bound_le
  rw [ArrayHead.read, if_pos hsize, h.data i hsize]

omit [DecidableEq T] in
theorem ArrayHolds.fetch (h : ArrayHolds s m) (i : Nat) : s.fetch i = some (m i) := by
  unfold ArrayHead.fetch
  split
  · next hi => exact h.read hi
  · next hi =>
    cases hm : m i with
    | none => rfl
    | some x => exact absurd (h.below i x hm) hi

theorem ArrayHolds.remove_eq (h : ArrayHolds s m) (hitem : s.head item = false) :
    m.remove item = m := by
  funext i
  refine if_neg fun hi => ?_
  rw [((h.back i item).mp hi).1] at hitem
  cases hitem

omit [DecidableEq T] in
theorem shrink_eq {n : Nat} (hn : n ≤ s.size) : ∃ b, s.shrink n = some b ∧ b ≤ n ∧
    (∀ i, b ≤ i → i < n → s.data i = none) ∧ ∀ k, b = k + 1 → s.data k ≠ none := by
  induction n with
  | zero => exact ⟨0, rfl, Nat.le_refl 0, fun i hi hlt => absurd hi (by omega), nofun⟩
  | succ n ih =>
    rw [ArrayHead.shrink, ArrayHead.read, if_pos (by omega), bind_some]
    by_cases hnone : s.data n = none
    · obtain ⟨b, hb, hle, hempty, htop⟩ := ih (by omega)
      refine ⟨b, (if_pos hnone).trans hb, by omega, fun i hi hlt => ?_, htop⟩
      rcases Nat.lt_succ_iff_lt_or_eq.mp hlt with hlt | rfl
      · exact hempty i hi hlt
      · exact hnone
    · refine ⟨n + 1, if_neg hnone, Nat.le_refl _, fun i hi hlt => absurd hi (by omega), ?_⟩
      rintro k ⟨⟩
      exact hnone

theorem ArrayHolds.sRemove (h : ArrayHolds s m) (hitem : s.head item = true) :
    ∃ s', s.sRemove item = some s' ∧ ArrayHolds s' (m.remove item) ∧ s'.head item = false ∧
      s'.size = s.size := by
  have hslot : m (s.index item) = some item := (h.back _ _).mpr ⟨hitem, rfl⟩
  have hlt := h.below _ _ hslot
  have hdata : ∀ i < s.size, update s.data (s.index item) none i = m.remove item i := by
    intro i hi
    by_cases hsame : i = s.index item
    · rw [hsame, update_self, Slots.remove, if_pos hslot]
    · rw [update_of_ne hsame, h.data i hi, Slots.remove, if_neg]
      exact fun hi => hsame ((h.back i item).mp hi).2.symm
  obtain ⟨b, hb, hle, hempty, htop⟩ := shrink_eq
    (s := { s.detach item with data := update s.data (s.index item) none }) h.bound_le
  refine ⟨{ s.detach item with data := update s.data (s.index item) none, bound := b }, ?_,
    ⟨hdata, Nat.le_trans hle h.bound_le, fun i x hx => ?_, fun n hn => ?_, fun i x => ?_⟩,
    update_self .., rfl⟩
  · unfold ArrayHead.sRemove
    rw [if_pos ((h.read hlt).trans (congrArg some hslot))]
    exact map_eq_some_iff.mpr ⟨b, hb, rfl⟩
  · by_contra hib
    have hi : i < s.bound := by
      unfold Slots.remove at hx
      split at hx
      · cases hx
      · exact h.below i x hx
    have hnone := hempty i (Nat.not_lt.mp hib) hi
    cases hx.symm.trans ((hdata i (Nat.lt_of_lt_of_le hi h.bound_le)).symm.trans hnone)
  · have hn' : b = n + 1 := hn
    have hsize := h.bound_le
    rw [← hdata n (by omega)]
    exact htop n hn
  · by_cases hx : x = item
    · subst hx
      refine iff_of_false (fun hi => ?_) fun hi => ?_
      · unfold Slots.remove at hi
        split at hi
        · cases hi
        · contradiction
      · exact absurd hi.1 (by simp [detach])
    · have hback := h.back i x
      have hremove : m.remove item i = some x ↔ m i = some x := by
        unfold Slots.remove
        split
        · next hi => simp [hi, Ne.symm hx]
        · rfl
      simpa [hremove, detach, update_of_ne hx] using hback

omit [DecidableEq T] in
theorem ArrayHolds.grow (h : ArrayHolds s m) (i : Nat) : ArrayHolds (s.grow i) m := by
  unfold ArrayHead.grow
  split
  · refine { h with data := fun j hj => ?_, bound_le := Nat.le_add_right_of_le h.bound_le }
    show (if j < s.size then s.data j else none) = m j
    split
    · next hj => exact h.data j hj
    · next hj =>
      cases hm : m j with
      | none => rfl
      | some x => exact absurd (Nat.lt_of_lt_of_le (h.below j x hm) h.bound_le) hj
  · exact h

theorem ArrayHolds.sInsert (h : ArrayHolds s m) {i : Nat} (hi : i < s.size + arrayExtent)
    (hitem : s.head item = false) :
    ∃ s', s.sInsert item i = some s' ∧ ArrayHolds s' (m.insert i item) := by
  have hgrow := h.grow i
  have hroom : i < (s.grow i).size := by
    unfold ArrayHead.grow
    split
    · exact hi
    · omega
  have hout : (s.grow i).head item = false := by
    unfold ArrayHead.grow
    split <;> exact hitem
  -- what was in the slot loses its head and index, and nothing else changes
  obtain ⟨g, hg, hsize, hdata, hbound, hhead, hindex⟩ : ∃ g : ArrayHead T,
      (s.grow i).kickOut (m i) = some g ∧ g.size = (s.grow i).size ∧ g.data = (s.grow i).data ∧
      g.bound = (s.grow i).bound ∧
      (∀ x, g.head x = true ↔ (s.grow i).head x = true ∧ m i ≠ some x) ∧
      ∀ x, m i ≠ some x → g.index x = (s.grow i).index x := by
    cases hm : m i with
    | none => exact ⟨_, rfl, rfl, rfl, rfl, by simp, fun _ _ => rfl⟩
    | some old =>
      refine ⟨(s.grow i).detach old, ?_, rfl, rfl, rfl, fun x => ?_, fun x hx => ?_⟩
      · simp [kickOut, remove, detach]
      · by_cases hx : x = old
        · simp [hx, detach]
        · simp [detach, update_of_ne hx, Ne.symm hx]
      · exact update_of_ne (fun hsame => hx (congrArg some hsame.symm)) ..
  have hinsert : m.insert i item = update m i (some item) := by
    rw [Slots.insert, h.remove_eq hitem]
  have hread : (s.grow i).read i = some (m i) := by
    rw [ArrayHead.read, if_pos hroom, hgrow.data i hroom]
  refine ⟨{ g with
    data := update g.data i (some item)
    bound := if g.bound ≤ i then i + 1 else g.bound
    head := update g.head item true
    index := update g.index item i }, ?_, ?_⟩
  · unfold ArrayHead.sInsert
    simp only [hread, hg, bind_eq_bind, bind_some]
  · have hbelow := hgrow.below
    have htop := hgrow.top
    have hback := hgrow.back
    have hle := hgrow.bound_le
    rw [hinsert]
    refine ⟨fun j hj => ?_, ?_, fun j x hx => ?_, fun n hn => ?_, fun j x => ?_⟩
    · by_cases hji : j = i
      · simp [hji]
      · simpa [update_of_ne hji, hdata] using hgrow.data j (hsize ▸ hj)
    · show (if g.bound ≤ i then i + 1 else g.bound) ≤ g.size
      split <;> omega
    · show j < if g.bound ≤ i then i + 1 else g.bound
      by_cases hji : j = i
      · split <;> omega
      · rw [update_of_ne hji] at hx
        have hj := hbelow j x hx
        split <;> omega
    · have hn' : (if g.bound ≤ i then i + 1 else g.bound) = n + 1 := hn
      by_cases hni : n = i
      · simp [hni]
      · rw [update_of_ne hni]
        exact htop n (by split at hn' <;> omega)
    · have hitemFree : ∀ k, m k ≠ some item := fun k hk => by
        rw [((hback k item).mp hk).1] at hout
        cases hout
      by_cases hx : x = item
      · subst hx
        by_cases hji : j = i
        · simp [hji]
        · simp [update_of_ne hji, hitemFree j, Ne.symm hji]
      · have hg := hhead x
        by_cases hold : m i = some x
        · have hix := ((hback i x).mp hold).2
          by_cases hji : j = i
          · simp [hji, update_of_ne hx, hg, hold, Ne.symm hx]
          · have hj : m j ≠ some x := fun hj => hji (((hback j x).mp hj).2.symm.trans hix)
            simp [update_of_ne hji, update_of_ne hx, hg, hold, hj]
        · have hsame := hindex x hold
          by_cases hji : j = i
          · have hi := hback i x
            simp [hji, update_of_ne hx, hg, hold, Ne.symm hx, hsame]
            tauto
          · simpa [update_of_ne hji, update_of_ne hx, hg, hold, hsame] using hback j x

theorem resetLoop_eq {n i : Nat} (hn : i + n ≤ s.size) : ∃ s', s.resetLoop n i = some s' ∧
    ∀ x, s'.head x = true → s.head x = true ∧ ∀ j, i ≤ j → j < i + n → s.data j ≠ some x := by
  induction n generalizing s i with
  | zero => exact ⟨s, rfl, fun x hx => ⟨hx, fun j hj hlt => absurd hj (by omega)⟩⟩
  | succ n ih =>
    rw [ArrayHead.resetLoop, ArrayHead.read, if_pos (by omega), bind_some]
    cases hi : s.data i with
    | none =>
      obtain ⟨s', hs, hhead⟩ := ih (s := s) (i := i + 1) (by omega)
      refine ⟨s', hs, fun x hx => ⟨(hhead x hx).1, fun j hj hlt hjx => ?_⟩⟩
      rcases Nat.eq_or_lt_of_le hj with rfl | hj
      · cases hi.symm.trans hjx
      · exact (hhead x hx).2 j hj (by omega) hjx
    | some old =>
      have hsize : i + 1 + n ≤ (s.detach old).size := by
        show i + 1 + n ≤ s.size
        omega
      obtain ⟨s', hs, hhead⟩ := ih hsize
      refine ⟨s', hs, fun x hx => ?_⟩
      obtain ⟨hx', hrest⟩ := hhead x hx
      have hne : x ≠ old := by
        rintro rfl
        simp [detach] at hx'
      refine ⟨(update_of_ne hne ..).symm.trans hx', fun j hj hlt hjx => ?_⟩
      rcases Nat.eq_or_lt_of_le hj with rfl | hj
      · exact hne (some.inj (hjx.symm.trans hi))
      · exact hrest j hj (by omega) hjx

theorem ArrayHolds.reset (h : ArrayHolds s m) :
    ∃ s', s.reset = some s' ∧ ArrayHolds s' fun _ => none := by
  obtain ⟨s', hs, hhead⟩ := resetLoop_eq (s := s) (n := s.bound) (i := 0) (by
    rw [Nat.zero_add]
    exact h.bound_le)
  refine ⟨_, map_eq_some_iff.mpr ⟨s', hs, rfl⟩, ?_⟩
  refine ⟨nofun, Nat.le_refl 0, nofun, nofun, fun i x => iff_of_false nofun fun hx => ?_⟩
  obtain ⟨hx', hnone⟩ := hhead x hx.1
  have hslot := (h.back _ x).mpr ⟨hx', rfl⟩
  have hlt := h.below _ x hslot
  exact hnone _ (Nat.zero_le _) (by omega)
    ((h.data _ (Nat.lt_of_lt_of_le hlt h.bound_le)).trans hslot)

/-- A call that fits answers as the slots do, and still holds what they hold. -/
theorem ArrayHolds.step (linkToChild : Bool) (h : ArrayHolds s m) {outs : List (Option T)}
    (call : ArrayHead.Call T) (hfits : s.Fits linkToChild call) :
    ∃ s', logged (step linkToChild) (s, outs) call = some s' ∧
      ArrayHolds s'.1 (Slots.step (m, outs) call).1 ∧ s'.2 = (Slots.step (m, outs) call).2 := by
  have hdone : ∀ (s' : ArrayHead T) (out) {m'}, s.step linkToChild call = some (s', out) →
      ArrayHolds s' m' → Slots.step (m, outs) call = (m', outs ++ out) →
      ∃ s', logged (ArrayHead.step linkToChild) (s, outs) call = some s' ∧
        ArrayHolds s'.1 (Slots.step (m, outs) call).1 ∧ s'.2 = (Slots.step (m, outs) call).2 := by
    intro s' out m' hstep hholds hspec
    rw [hspec]
    exact ⟨(s', outs ++ out), map_eq_some_iff.mpr ⟨_, hstep, rfl⟩, hholds, rfl⟩
  cases call with
  | insert index item =>
    obtain ⟨hroom, hnew⟩ := hfits
    cases hitem : s.head item with
    | true =>
      cases linkToChild with
      | true => cases (hnew rfl).symm.trans hitem
      | false =>
        obtain ⟨s1, hremove, h1, hout, hsize⟩ := h.sRemove hitem
        obtain ⟨s2, hinsert, h2⟩ := h1.sInsert (hsize.symm ▸ hroom) hout
        refine hdone s2 [] ?_ h2 ?_
        · rw [ArrayHead.step, ArrayHead.insert, if_pos hitem, hremove]
          exact map_eq_some_iff.mpr ⟨s2, hinsert, rfl⟩
        · rw [append_nil, Slots.insert, Slots.remove_remove]
          rfl
    | false =>
      obtain ⟨s2, hinsert, h2⟩ := h.sInsert hroom hitem
      refine hdone s2 [] ?_ h2 (by rw [append_nil]; rfl)
      rw [ArrayHead.step, ArrayHead.insert, if_neg (by simp [hitem]), hinsert]
      rfl
  | remove item =>
    cases hitem : s.head item with
    | true =>
      obtain ⟨s1, hremove, h1, -⟩ := h.sRemove hitem
      refine hdone s1 [] ?_ h1 (by rw [append_nil]; rfl)
      rw [ArrayHead.step, ArrayHead.remove, if_pos hitem, hremove]
      rfl
    | false =>
      refine hdone s [] ?_ h ?_
      · rw [ArrayHead.step, ArrayHead.remove, if_neg (by simp [hitem])]
        rfl
      · rw [append_nil, Slots.step, h.remove_eq hitem]
  | fetch index =>
    refine hdone s [m index] ?_ h rfl
    rw [ArrayHead.step, h.fetch]
    rfl
  | reset =>
    obtain ⟨s1, hreset, h1⟩ := h.reset
    refine hdone s1 [] ?_ h1 (by rw [append_nil]; rfl)
    rw [ArrayHead.step, hreset]
    rfl

/-- A run of calls that fit stays in the block, fetches what the map has, and leaves the array with
the items of the map. -/
theorem array_run (linkToChild : Bool) {calls : List (ArrayHead.Call T)}
    (hfits : Along (logged (step linkToChild)) (fun s => s.1.Fits linkToChild) (.new, []) calls) :
    ∃ s, run (logged (step linkToChild)) (.new, []) calls = some s ∧
      ArrayHolds s.1 (calls.foldl Slots.step (fun _ => none, [])).1 ∧
      s.2 = (calls.foldl Slots.step (fun _ => none, [])).2 := by
  have hnew : ArrayHolds (.new : ArrayHead T) fun _ => none :=
    ⟨nofun, Nat.le_refl 0, nofun, nofun, fun i x => iff_of_false nofun fun hx => nomatch hx.1⟩
  refine run_simulates (t := (fun _ => none, []))
    (R := fun s (t : Slots T × List (Option T)) => ArrayHolds s.1 t.1 ∧ s.2 = t.2) ?_
    ⟨hnew, rfl⟩ hfits
  rintro ⟨s, outs⟩ ⟨m, _⟩ call ⟨h, rfl⟩ hcall
  exact h.step linkToChild call hcall

end Holds

section Samples

/-- Two numbers inserted at the same place, one after the other -/
def sampleArrayCalls : List (ArrayHead.Call Nat) :=
  [.insert ⟨5, by decide⟩ 1, .insert ⟨5, by decide⟩ 2, .fetch 5, .remove 2]

theorem array_sample : ∃ s, run (logged (step true)) (.new, []) sampleArrayCalls = some s ∧
    ArrayHolds s.1 (sampleArrayCalls.foldl Slots.step (fun _ => none, [])).1 ∧
    s.2 = (sampleArrayCalls.foldl Slots.step (fun _ => none, [])).2 := by
  refine array_run true ⟨⟨by decide, fun _ => rfl⟩, ?_⟩
  rintro _ ⟨⟩
  refine ⟨⟨by decide, fun _ => rfl⟩, ?_⟩
  rintro _ ⟨⟩
  refine ⟨trivial, ?_⟩
  rintro _ ⟨⟩
  exact ⟨trivial, fun _ _ => trivial⟩

theorem array_fails : run (logged (step false)) (.new, []) [.insert ⟨1024, by decide⟩ 1] = none ∧
      run (logged (step true)) (.new, [])
        [.insert ⟨0, by decide⟩ 1, .insert ⟨1, by decide⟩ 1] = none := ⟨rfl, rfl⟩

end Samples

end OpenAmq
