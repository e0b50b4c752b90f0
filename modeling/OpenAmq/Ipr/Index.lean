import Mathlib.Data.Finset.Card
import OpenAmq.Ipr
import OpenAmq.Lib.Run

/-!
# The allocation of indices

`ObjectIndex.insert` is what the broker sees of `ipr_index_insert`. Here are the loop of the
source, which wraps around at the end of the table, and the index it returns, zero included.

* `search`, `insertRc` — the loop, and the insertion with its return code
* `Allocates` — what an insertion promises
* `allocates_iff` — it keeps the promise exactly when its part of the table is not used up
-/

namespace OpenAmq

/-- The address of an object to index: a reference that is not null. -/
abbrev ObjectRef := { address : Nat // address ≠ 0 }

namespace ObjectIndex

/-! ## The search for a free entry -/

/--
`while (self->data [hash_index])`, which goes on at entry 0 after the last one.

`none` stands for a search that has not come to an end after `fuel` entries.
-/
def search (data : Nat → Option Nat) : (fuel : Nat) → (hashIndex : Nat) → Option Nat
  | 0, _ => none
  | fuel + 1, hashIndex =>
    if (data hashIndex).isSome then
      search data fuel (if hashIndex + 1 = iprBitsSizeBits then 0 else hashIndex + 1)
    else some hashIndex

/--
`ipr_index_insert` with the index it returns, which is 0 if the table was full.

`none` when the assertion on the size fails, and when a search past every entry of the table
has not found a free one, so that it never ends.
-/
def insertRc (self : ObjectIndex) (object : ObjectRef) : Option (ObjectIndex × Nat) :=
  if self.size < iprBitsSizeBits then
    (search self.data (iprBitsSizeBits + 1) (self.hashIndex object)).map fun index =>
      if index = 0 then (self, 0)
      else
        (⟨self.size + 1, fun i => if i = index then some object.val else self.data i⟩, index)
  else none

variable {data : Nat → Option Nat} {n start object : Nat} {self : ObjectIndex}

theorem search_eq_probe (hzero : data 0 = none) {fuel : Nat} (hpos : 0 < n)
    (hn : start + n = iprBitsSizeBits) (hfuel : n < fuel) :
    search data fuel start = some (probe data n start) := by
  induction n generalizing start fuel with
  | zero => omega
  | succ n ih =>
    obtain ⟨fuel, rfl⟩ : ∃ m, fuel = m + 1 := ⟨fuel - 1, by omega⟩
    rw [search, probe]
    split
    · by_cases hlast : n = 0
      · -- the search goes on at entry 0, which is never in use
        subst hlast
        rw [if_pos (by omega), probe]
        obtain ⟨fuel, rfl⟩ : ∃ m, fuel = m + 1 := ⟨fuel - 1, by omega⟩
        simp [search, hzero]
      · rw [if_neg (by omega)]
        exact ih (by omega) (by omega) (by omega)
    · rfl

theorem hashRange_bounds (self : ObjectIndex) :
    16 ≤ self.hashRange ∧ self.hashRange ≤ iprBitsSizeBits := by
  have hmax : iprBitsSizeBits = 131072 := rfl
  unfold hashRange
  split
  · omega
  · split <;> omega

theorem hashIndex_bounds (self : ObjectIndex) (object : Nat) :
    0 < self.hashIndex object ∧ self.hashIndex object < iprBitsSizeBits := by
  have hrange := self.hashRange_bounds
  have hmod : object % (self.hashRange - 1) < self.hashRange - 1 := Nat.mod_lt _ (by omega)
  unfold hashIndex
  omega

/-- The entries from `start` on, up to the end of the table, are all in use. -/
def FullFrom (self : ObjectIndex) (start : Nat) : Prop :=
  ∀ i, start ≤ i → i < iprBitsSizeBits → (self.data i).isSome

theorem probe_eq_zero_iff (hstart : 0 < start) :
    probe data n start = 0 ↔ ∀ i, start ≤ i → i < start + n → (data i).isSome := by
  induction n generalizing start with
  | zero =>
    refine ⟨fun _ i hi hlt => by omega, fun _ => rfl⟩
  | succ n ih =>
    rw [probe]
    by_cases hs : (data start).isSome
    · rw [if_pos hs, ih (by omega)]
      constructor
      · intro h i hi hlt
        rcases Nat.eq_or_lt_of_le hi with rfl | hi
        · exact hs
        · exact h i hi (by omega)
      · intro h i hi hlt
        exact h i (by omega) (by omega)
    · rw [if_neg hs]
      constructor
      · intro h
        omega
      · intro h
        exact absurd (h start le_rfl (by omega)) hs

theorem probe_lt (hn : 0 < start + n) : probe data n start < start + n := by
  induction n generalizing start with
  | zero =>
    show 0 < start + 0
    omega
  | succ n ih =>
    rw [probe]
    split
    · have h : probe data n (start + 1) < start + 1 + n := ih (by omega)
      omega
    · omega

/-- The entry that an insertion takes, 0 for none. -/
def found (self : ObjectIndex) (object : Nat) : Nat :=
  probe self.data (iprBitsSizeBits - self.hashIndex object) (self.hashIndex object)

theorem found_eq_zero_iff (self : ObjectIndex) (object : Nat) :
    self.found object = 0 ↔ self.FullFrom (self.hashIndex object) := by
  have hb := self.hashIndex_bounds object
  rw [found, probe_eq_zero_iff hb.1, Nat.add_sub_cancel' (Nat.le_of_lt hb.2)]
  rfl

theorem found_lt (self : ObjectIndex) (object : Nat) : self.found object < iprBitsSizeBits := by
  have hb := self.hashIndex_bounds object
  have h : probe self.data (iprBitsSizeBits - self.hashIndex object) (self.hashIndex object) <
      self.hashIndex object + (iprBitsSizeBits - self.hashIndex object) := probe_lt (by omega)
  rwa [Nat.add_sub_cancel' (Nat.le_of_lt hb.2)] at h

theorem data_found (h : self.found object ≠ 0) : self.data (self.found object) = none :=
  probe_free (Nat.pos_of_ne_zero h)

/-! ## Runs -/

/-- The indices of the objects in the table. -/
def live (self : ObjectIndex) : Finset Nat :=
  (Finset.range iprBitsSizeBits).filter fun i => (self.data i).isSome

theorem mem_live {i : Nat} : i ∈ self.live ↔ i < iprBitsSizeBits ∧ (self.data i).isSome := by
  simp [live]

/-- Entry 0 is never in use, and the size counts the other entries that are. -/
structure Wf (table : ObjectIndex) : Prop where
  zero : table.data 0 = none
  size_eq : table.size = table.live.card

theorem wf_new : Wf new where
  zero := rfl
  size_eq := by simp [new, live]

theorem Wf.size_lt (hwf : Wf self) : self.size < iprBitsSizeBits := by
  rw [hwf.size_eq]
  have hsub : self.live ⊂ Finset.range iprBitsSizeBits := by
    refine Finset.filter_ssubset.mpr ⟨0, ?_, ?_⟩
    · exact Finset.mem_range.mpr (by decide)
    · simp [hwf.zero]
  have hcard := Finset.card_lt_card hsub
  rwa [Finset.card_range] at hcard

/-- The table after `object` has taken the entry `index`. -/
def enter (self : ObjectIndex) (object index : Nat) : ObjectIndex :=
  ⟨self.size + 1, fun i => if i = index then some object else self.data i⟩

theorem insertRc_eq (hwf : Wf self) (object : ObjectRef) : self.insertRc object =
      some (if self.found object = 0 then (self, 0)
        else (self.enter object (self.found object), self.found object)) := by
  have hb := self.hashIndex_bounds object
  have hsearch : search self.data (iprBitsSizeBits + 1) (self.hashIndex object) =
      some (self.found object) :=
    search_eq_probe hwf.zero (by omega) (by omega) (by omega)
  rw [insertRc, if_pos hwf.size_lt, hsearch]
  rfl

theorem insert_eq_insertRc (hwf : Wf self) (object : ObjectRef) :
    (self.insert object).map (fun r => (r.1, r.2.val)) =
      (self.insertRc object).filter fun r => r.2 ≠ 0 := by
  rw [insertRc_eq hwf, insert, if_pos hwf.size_lt]
  show Option.map _ (if h : 0 < self.found object ∧ self.found object < iprBitsSizeBits then _
    else none) = _
  by_cases h : self.found object = 0
  · rw [dif_neg (by omega), if_pos h]
    rfl
  · rw [dif_pos ⟨Nat.pos_of_ne_zero h, self.found_lt object⟩, if_neg h,
      Option.filter_some, if_pos (decide_eq_true h)]
    rfl

theorem live_enter {index : Nat} (hlt : index < iprBitsSizeBits) :
    (self.enter object index).live = Insert.insert index self.live := by
  ext i
  rw [Finset.mem_insert, mem_live, mem_live]
  by_cases h : i = index
  · simp [enter, h, hlt]
  · simp [enter, h]

theorem Wf.enter (hwf : Wf self) {index : Nat} (hpos : index ≠ 0) (hlt : index < iprBitsSizeBits)
    (hfree : self.data index = none) : Wf (self.enter object index) where
  zero := by
    show (if 0 = index then _ else self.data 0) = none
    rw [if_neg (Ne.symm hpos)]
    exact hwf.zero
  size_eq := by
    have hnot : index ∉ self.live := by
      intro h
      simp [mem_live, hfree] at h
    rw [live_enter hlt, Finset.card_insert_of_notMem hnot, ← hwf.size_eq]
    rfl

variable {index : ObjectNbr}

theorem live_delete (hlive : index.val ∈ self.live) (hwf : Wf self) :
    (self.delete index).live = self.live.erase index.val := by
  have hpos : self.size > 0 := by
    rw [hwf.size_eq]
    exact Finset.card_pos.mpr ⟨index.val, hlive⟩
  ext i
  rw [delete, if_pos hpos, Finset.mem_erase, mem_live, mem_live]
  by_cases h : i = index.val
  · simp [h]
  · simp [h]

theorem size_delete (self : ObjectIndex) (index : ObjectNbr) :
    (self.delete index).size = self.size - 1 := by
  unfold delete
  split
  · rfl
  · omega

theorem Wf.delete {self : ObjectIndex} (hwf : Wf self)
    (hlive : index.val ∈ self.live) : Wf (self.delete index) where
  zero := by
    unfold ObjectIndex.delete
    split
    · show (if 0 = index.val then none else self.data 0) = none
      rw [hwf.zero, ite_self]
    · exact hwf.zero
  size_eq := by
    rw [live_delete hlive hwf, Finset.card_erase_of_mem hlive, ← hwf.size_eq, size_delete]

inductive Op where
  | insert (object : ObjectRef)
  /-- The index is one that was returned by an insertion and has not been deleted since. -/
  | delete (index : ObjectNbr)

/-- `none` when an assertion fails or an insertion does not come to an end. -/
def step (self : ObjectIndex) : Op → Option ObjectIndex
  | .insert object => (self.insertRc object).map (·.1)
  | .delete index => if 0 < index.val then some (self.delete index) else none

/-- Only live indices are deleted. -/
def Legal (self : ObjectIndex) : Op → Prop
  | .insert _ => True
  | .delete index => (self.data index).isSome

instance (self : ObjectIndex) : ∀ op, Decidable (Legal self op)
  | .insert _ => isTrue trivial
  | .delete index => inferInstanceAs (Decidable ((self.data index).isSome = true))

/-- A legal operation can be done, and leaves the index in order. -/
theorem step_wf (hwf : Wf self) {op : Op} (hlegal : Legal self op) :
    ∃ self', step self op = some self' ∧ Wf self' := by
  cases op with
  | insert object =>
    refine ⟨_, by rw [step, insertRc_eq hwf]; rfl, ?_⟩
    by_cases h : self.found object = 0
    · rw [if_pos h]
      exact hwf
    · rw [if_neg h]
      exact hwf.enter h (self.found_lt object) (data_found h)
  | delete index =>
    have hpos : 0 < index.val := by
      refine Nat.pos_of_ne_zero ?_
      intro h
      rw [Legal, h, hwf.zero] at hlegal
      cases hlegal
    exact ⟨_, if_pos hpos, hwf.delete (mem_live.mpr ⟨index.isLt, hlegal⟩)⟩

/-! ## What an insertion promises -/

/--
The insertion ends, and either it takes an index from 1 upwards that is not in use and leaves
all other entries in place, or it returns 0 since every index is in use.
-/
def Allocates (self : ObjectIndex) (object : ObjectRef) : Prop :=
  ∃ self' index, self.insertRc object = some (self', index) ∧ self'.size = self'.live.card ∧
    if index = 0 then self' = self ∧ ∀ i, 1 ≤ i → i < iprBitsSizeBits → i ∈ self.live
    else index < iprBitsSizeBits ∧ index ∉ self.live ∧ self'.data index = some object.val ∧
      self'.live = Insert.insert index self.live ∧ ∀ i, i ≠ index → self'.data i = self.data i

/-- The deletion of an index in use frees it and no other. -/
def Frees (self : ObjectIndex) (index : ObjectNbr) : Prop :=
  ∃ self', step self (.delete index) = some self' ∧ self'.size = self'.live.card ∧
    self'.live = self.live.erase index.val ∧ ∀ i, i ≠ index.val → self'.data i = self.data i

/--
Some entry is free between the one at which the search for `object` starts and the end of the
table, or none is free in the whole table.
-/
def RoomFor (self : ObjectIndex) (object : ObjectRef) : Prop :=
  ¬ self.FullFrom (self.hashIndex object) ∨ self.FullFrom 1

theorem allocates_iff (hwf : Wf self) (object : ObjectRef) :
    Allocates self object ↔ RoomFor self object := by
  have hrc := insertRc_eq hwf object
  have hzero := self.found_eq_zero_iff object
  have hlive : self.FullFrom 1 ↔ ∀ i, 1 ≤ i → i < iprBitsSizeBits → i ∈ self.live := by
    constructor
    · intro h i hi hlt
      exact mem_live.mpr ⟨hlt, h i hi hlt⟩
    · intro h i hi hlt
      exact (mem_live.mp (h i hi hlt)).2
  by_cases h : self.found object = 0
  · rw [if_pos h] at hrc
    constructor
    · rintro ⟨self', index, hins, -, hcase⟩
      rw [hrc] at hins
      cases hins
      rw [if_pos rfl] at hcase
      exact .inr (hlive.mpr hcase.2)
    · intro hroom
      have hfull : self.FullFrom 1 := hroom.resolve_left (not_not_intro (hzero.mp h))
      refine ⟨self, 0, hrc, hwf.size_eq, ?_⟩
      rw [if_pos rfl]
      exact ⟨rfl, hlive.mp hfull⟩
  · rw [if_neg h] at hrc
    have hlt := self.found_lt object
    have hfree := data_found h
    refine ⟨fun _ => .inl (mt hzero.mpr h), fun _ => ⟨_, _, hrc, ?_, ?_⟩⟩
    · exact (hwf.enter h hlt hfree).size_eq
    · rw [if_neg h]
      refine ⟨hlt, ?_, if_pos rfl, live_enter hlt, fun i hi => if_neg hi⟩
      intro hmem
      rw [mem_live, hfree] at hmem
      cases hmem.2

theorem frees_of_legal (hwf : Wf self) (hlegal : Legal self (.delete index)) :
    Frees self index := by
  have hmem : index.val ∈ self.live := mem_live.mpr ⟨index.isLt, hlegal⟩
  obtain ⟨self', hs, hwf'⟩ := step_wf hwf hlegal
  have hdel : self' = self.delete index := by
    rw [step] at hs
    split at hs
    · exact (Option.some.inj hs).symm
    · cases hs
  subst hdel
  refine ⟨_, hs, hwf'.size_eq, live_delete hmem hwf, ?_⟩
  intro i hi
  unfold delete
  split
  · exact if_neg hi
  · rfl

/--
In any sequence of insertions and of deletions of live indices every call returns and the size
is the number of live entries. After it a deletion frees exactly its index, and an insertion
keeps its promise if and only if there is room for the object.
-/
theorem run_allocates_iff (ops : List Op) (hlegal : Lib.Along step Legal new ops) :
    ∃ self, Lib.run step new ops = some self ∧ self.size = self.live.card ∧
      (∀ index, Legal self (.delete index) → Frees self index) ∧
      ∀ object, Allocates self object ↔ RoomFor self object := by
  obtain ⟨self, hrun, hwf⟩ := Lib.run_progress (I := fun _ => Wf)
    (fun _ _ _ hwf hlegal => step_wf hwf hlegal) [] wf_new hlegal
  exact ⟨self, hrun, hwf.size_eq, fun _ => frees_of_legal hwf, allocates_iff hwf⟩

/-- An object is indexed, deleted and indexed again. -/
theorem run_allocates_iff_reuse :
    ∃ self, Lib.run step new [.insert ⟨4096, by decide⟩, .delete ⟨2, by decide⟩,
        .insert ⟨4096, by decide⟩] = some self ∧ self.size = self.live.card ∧
      (∀ index, Legal self (.delete index) → Frees self index) ∧
      ∀ object, Allocates self object ↔ RoomFor self object :=
  run_allocates_iff _ (by decide +kernel)

/-- After any calls an insertion gives an index just if `ipr_index_insert` returns it and not 0. -/
theorem run_insert_eq (ops : List Op) (hlegal : Lib.Along step Legal new ops) :
    ∃ self, Lib.run step new ops = some self ∧ ∀ object : ObjectRef,
      (self.insert object).map (fun r => (r.1, r.2.val)) =
        (self.insertRc object).filter fun r => r.2 ≠ 0 := by
  obtain ⟨self, hrun, hwf⟩ := Lib.run_progress (I := fun _ => Wf)
    (fun _ _ _ hwf hlegal => step_wf hwf hlegal) [] wf_new hlegal
  exact ⟨self, hrun, insert_eq_insertRc hwf⟩

theorem run_insert_eq_one : ∃ self, Lib.run step new [.insert ⟨4096, by decide⟩] = some self ∧
    ∀ object : ObjectRef, (self.insert object).map (fun r => (r.1, r.2.val)) =
      (self.insertRc object).filter fun r => r.2 ≠ 0 :=
  run_insert_eq _ ⟨trivial, fun _ _ => trivial⟩

/-! ## The table that is half full -/

/-- The table after `n` insertions of the object with address 1: entries 2 to `n + 1`. -/
def filled (n : Nat) : ObjectIndex :=
  ⟨n, fun i => if 2 ≤ i ∧ i < n + 2 then some 1 else none⟩

theorem probe_eq {k : Nat} (hk : k < n) (hused : ∀ i, start ≤ i → i < start + k → (data i).isSome)
    (hfree : data (start + k) = none) : probe data n start = start + k := by
  induction k generalizing n start with
  | zero =>
    obtain ⟨n, rfl⟩ : ∃ m, n = m + 1 := ⟨n - 1, by omega⟩
    rw [probe, if_neg (by simpa using hfree)]
    rfl
  | succ k ih =>
    obtain ⟨n, rfl⟩ : ∃ m, n = m + 1 := ⟨n - 1, by omega⟩
    rw [probe, if_pos (hused start le_rfl (by omega)), ih (by omega) ?_ ?_]
    · omega
    · intro i hi hlt
      exact hused i (by omega) (by omega)
    · rw [← hfree]
      congr 1
      omega

theorem hashIndex_one (self : ObjectIndex) : self.hashIndex 1 = 2 := by
  have hrange := self.hashRange_bounds
  rw [hashIndex, Nat.mod_eq_of_lt (by omega)]

theorem found_filled (hn : n + 2 < iprBitsSizeBits) : (filled n).found 1 = n + 2 := by
  rw [found, hashIndex_one, probe_eq (k := n) (by omega) ?_ ?_]
  · omega
  · intro i hi hlt
    show (if 2 ≤ i ∧ i < n + 2 then some 1 else none).isSome
    rw [if_pos (by omega)]
    rfl
  · show (if 2 ≤ 2 + n ∧ 2 + n < n + 2 then some 1 else none) = none
    rw [if_neg (by omega)]

theorem enter_filled (n : Nat) : (filled n).enter 1 (n + 2) = filled (n + 1) := by
  unfold enter filled
  congr 1
  funext i
  show (if i = n + 2 then some 1 else if 2 ≤ i ∧ i < n + 2 then some 1 else none) = _
  by_cases h : i = n + 2
  · rw [if_pos h, if_pos (by omega)]
  · rw [if_neg h]
    by_cases hi : 2 ≤ i ∧ i < n + 2
    · rw [if_pos hi, if_pos (by omega)]
    · rw [if_neg hi, if_neg (by omega)]

/-- The index after inserts of one address -/
theorem run_filled (hn : n + 2 ≤ iprBitsSizeBits) :
    Lib.run step new (List.replicate n (.insert ⟨1, by decide⟩)) = some (filled n) ∧
      Wf (filled n) := by
  induction n with
  | zero =>
    have h : filled 0 = new := by
      unfold filled new
      congr 1
      funext i
      rw [if_neg (by omega)]
    rw [h]
    exact ⟨rfl, wf_new⟩
  | succ n ih =>
    obtain ⟨hrun, hwf⟩ := ih (by omega)
    have hfound := found_filled (n := n) (by omega)
    have hstep : step (filled n) (.insert ⟨1, by decide⟩) = some (filled (n + 1)) := by
      rw [step, insertRc_eq hwf]
      show Option.map _ (some (if (filled n).found 1 = 0 then (filled n, 0)
        else ((filled n).enter 1 ((filled n).found 1), (filled n).found 1))) = _
      rw [hfound, if_neg (by omega), enter_filled]
      rfl
    have hlegal : Legal (filled n) (.insert ⟨1, by decide⟩) := trivial
    obtain ⟨self', hs, hwf'⟩ := step_wf hwf hlegal
    rw [hstep] at hs
    cases hs
    refine ⟨?_, hwf'⟩
    rw [List.replicate_succ', Lib.run_append, hrun]
    exact congrArg (Option.bind · _) hstep

/-- The last index of the table, as an address. -/
def limit : ObjectRef := ⟨131070, by decide⟩

theorem found_limit_filled : (filled 65536).found 131070 = 131071 := by
  show probe (filled 65536).data 1 131071 = 131071
  rw [probe, if_neg (by decide)]

theorem found_limit_enter : ((filled 65536).enter 131070 131071).found 131070 = 0 := by
  have hstart : ((filled 65536).enter 131070 131071).hashIndex 131070 = 131071 := by decide
  rw [found_eq_zero_iff, hstart]
  intro i hi hlt
  have heq : i = 131071 := by
    have hmax : iprBitsSizeBits = 131072 := rfl
    omega
  subst heq
  rfl

/--
With the lower half of the table full, the second of two objects that hash to the last index
is refused although index 1 is free.
-/
theorem limit_refused :
    ∃ self, Lib.run step new (List.replicate 65536 (.insert ⟨1, by decide⟩) ++ [.insert limit]) =
        some self ∧
      self.insertRc limit = some (self, 0) ∧ self.data 1 = none ∧ ¬ Allocates self limit := by
  obtain ⟨hrun, hwf⟩ := run_filled (n := 65536) (by decide)
  have hins := insertRc_eq hwf limit
  have hfound : (filled 65536).found limit = 131071 := found_limit_filled
  rw [hfound, if_neg (by decide)] at hins
  have hlegal : Legal (filled 65536) (.insert limit) := trivial
  obtain ⟨self', hs, hwf'⟩ := step_wf hwf hlegal
  have hs' : self' = (filled 65536).enter 131070 131071 := by
    rw [step, hins] at hs
    exact (Option.some.inj hs).symm
  subst hs'
  have hzero := found_limit_enter
  have hrefused := insertRc_eq hwf' limit
  rw [show ((filled 65536).enter 131070 131071).found limit = 0 from hzero, if_pos rfl] at hrefused
  refine ⟨_, ?_, hrefused, rfl, ?_⟩
  · rw [Lib.run_append, hrun]
    exact congrArg (Option.bind · _) hs
  · rw [allocates_iff hwf']
    rintro (hroom | hfull)
    · exact hroom ((found_eq_zero_iff _ _).mp hzero)
    · exact absurd (hfull 1 le_rfl (by decide)) (by decide)

end ObjectIndex

end OpenAmq
