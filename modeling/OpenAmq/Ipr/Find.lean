import OpenAmq.Icl
import OpenAmq.Lib.Sunday

/-!
# Searching a bucket or a long string

`ipr_bucket_find` and `icl_longstr_find` search the octets of an object for a pattern, from an
offset onwards. Both are the same code, written twice.

* `find` — the search, with the octets of the data that it reads
* `InReach` — the inputs for which it does so
* `find_iff` — the search is right for these inputs and no others

The limit of the search is counted from the offset and not from the start of the data, so that
windows behind the data are compared. The shift is read after the last window as well.
-/

namespace OpenAmq

open OpenAmq.Lib List

/-- `ipr_bucket_t`: the octets from `data` onwards, of which the first `curSize` are in use. -/
structure IprBucket where
  curSize : Nat
  data : Nat → UInt8

/-- `icl_longstr_t`: the octets from `data` onwards, of which the first `curSize` are in use. -/
structure IclLongstr where
  curSize : Nat
  data : Nat → UInt8

namespace Find

/-- What a search gives: the location, counted from the data, and the octets it looked at. -/
structure Result where
  location : Option Nat
  reads : List Nat
deriving DecidableEq

/-- `while (*match_ptr++ == pattern [match_size++])`, until the whole pattern has been seen -/
def compare (data : Nat → UInt8) : (pattern : List UInt8) → (matchPtr : Nat) → Bool × List Nat
  | [], _ => (true, [])
  | p :: pattern, matchPtr =>
    if data matchPtr = p then
      let rest := compare data pattern (matchPtr + 1)
      (rest.1, matchPtr :: rest.2)
    else (false, [matchPtr])

/-- The loop over the windows, whose step is taken after a match as well. -/
def search (data : Nat → UInt8) (pattern : List UInt8) (limit matchBase : Nat) : Result :=
  if matchBase < limit then
    let window := compare data pattern matchBase
    let behind := matchBase + pattern.length
    if window.1 then
      ⟨some matchBase, window.2 ++ [behind]⟩
    else
      let rest := search data pattern limit (matchBase + shift pattern (data behind))
      ⟨rest.location, window.2 ++ behind :: rest.reads⟩
  else ⟨none, []⟩
termination_by limit - matchBase
decreasing_by
  have hpos := shift_pos pattern (data (matchBase + pattern.length))
  omega

end Find

/-- The code that the two methods share. -/
def find (data : Nat → UInt8) (curSize offset : Nat) (pattern : List UInt8) : Find.Result :=
  if pattern.length = 0 then ⟨some offset, []⟩
  else if pattern.length ≤ curSize then
    Find.search data pattern (offset + (curSize - pattern.length + 1)) offset
  else ⟨none, []⟩

def iprBucketFind (self : IprBucket) (offset : Nat) (pattern : List UInt8) : Find.Result :=
  find self.data self.curSize offset pattern

def iclLongstrFind (self : IclLongstr) (offset : Nat) (pattern : List UInt8) : Find.Result :=
  find self.data self.curSize offset pattern

namespace Find

/-- The leftmost place of the pattern inside the data was found, without leaving the data. -/
structure FindsIn (data : Nat → UInt8) (curSize offset : Nat) (pattern : List UInt8)
    (r : Result) : Prop where
  location : Leftmost data curSize offset pattern r.location
  reads : ∀ i ∈ r.reads, i < curSize

/--
There is nothing to search for, or an octet of the data follows the leftmost place of the
pattern, or it has no place and each window that is lined up before the limit has such an octet.
-/
def InReach (data : Nat → UInt8) (curSize offset : Nat) (pattern : List UInt8) : Prop :=
  pattern = [] ∨ curSize < pattern.length ∨
    (∃ m, Leftmost data curSize offset pattern (some m) ∧ m + pattern.length < curSize) ∨
    (Leftmost data curSize offset pattern none ∧
      ∀ i, Aligned data pattern offset i → i < offset + (curSize - pattern.length + 1) →
        i + pattern.length < curSize)

/-! ## What the loops do -/

variable {data : Nat → UInt8} {pattern : List UInt8} {limit matchBase : Nat}

theorem compare_fst : ∀ {pattern : List UInt8} {matchPtr : Nat},
    (compare data pattern matchPtr).1 = true ↔ OccursAt data pattern matchPtr := by
  intro pattern
  induction pattern with
  | nil =>
    intro matchPtr
    exact ⟨fun _ => occursAt_nil, fun _ => rfl⟩
  | cons p pattern ih =>
    intro matchPtr
    rw [occursAt_cons, compare]
    by_cases h : data matchPtr = p
    · rw [if_pos h]
      exact ih.trans ⟨fun hrest => ⟨h, hrest⟩, And.right⟩
    · rw [if_neg h]
      simp [h]

theorem compare_reads : ∀ {pattern : List UInt8} {matchPtr i : Nat},
    i ∈ (compare data pattern matchPtr).2 → i < matchPtr + pattern.length := by
  intro pattern
  induction pattern with
  | nil =>
    intro matchPtr i hi
    simp [compare] at hi
  | cons p pattern ih =>
    intro matchPtr i hi
    rw [compare] at hi
    rw [length_cons]
    by_cases h : data matchPtr = p
    · rw [if_pos h, mem_cons] at hi
      rcases hi with rfl | hi
      · omega
      · have hlt := ih hi
        omega
    · rw [if_neg h, mem_singleton] at hi
      omega

theorem search_of_ge (h : limit ≤ matchBase) :
    search data pattern limit matchBase = ⟨none, []⟩ := by
  rw [search, if_neg (Nat.not_lt.mpr h)]

theorem search_of_match (h : matchBase < limit) (hocc : OccursAt data pattern matchBase) :
    search data pattern limit matchBase =
      ⟨some matchBase, (compare data pattern matchBase).2 ++ [matchBase + pattern.length]⟩ := by
  rw [search, if_pos h]
  simp only [compare_fst.mpr hocc, if_true]

variable {next : Nat}

theorem search_of_not_match
    (hnext : next = matchBase + shift pattern (data (matchBase + pattern.length)))
    (h : matchBase < limit) (hocc : ¬ OccursAt data pattern matchBase) :
    search data pattern limit matchBase = ⟨(search data pattern limit next).location,
        (compare data pattern matchBase).2 ++
          (matchBase + pattern.length) :: (search data pattern limit next).reads⟩ := by
  have hfst : (compare data pattern matchBase).1 = false := by
    rw [Bool.eq_false_iff, Ne, compare_fst]
    exact hocc
  rw [search, if_pos h, hnext]
  simp only [hfst, Bool.false_eq_true, if_false]

/-- The window is lined up at `i` before the pattern has been found. -/
def LinedUp (data : Nat → UInt8) (pattern : List UInt8) (limit start i : Nat) : Prop :=
  Aligned data pattern start i ∧ i < limit ∧ ∀ j, start ≤ j → j < i → ¬ OccursAt data pattern j

theorem not_occursAt_of_shift
    (hnext : next = matchBase + shift pattern (data (matchBase + pattern.length)))
    (hocc : ¬ OccursAt data pattern matchBase) {m : Nat}
    (hrest : ∀ j, next ≤ j → j < m → ¬ OccursAt data pattern j) :
    ∀ j, matchBase ≤ j → j < m → ¬ OccursAt data pattern j := by
  intro j hle hlt h
  rcases Nat.eq_or_lt_of_le hle with rfl | hbase
  · exact hocc h
  · have hshift := h.shift_le hbase
    exact hrest j (by omega) hlt h

theorem LinedUp.of_shift {i : Nat}
    (hnext : next = matchBase + shift pattern (data (matchBase + pattern.length)))
    (hocc : ¬ OccursAt data pattern matchBase) (h : LinedUp data pattern limit next i) :
    LinedUp data pattern limit matchBase i := by
  obtain ⟨hal, hlt, hno⟩ := h
  refine ⟨?_, hlt, not_occursAt_of_shift hnext hocc hno⟩
  rw [hnext] at hal
  exact (Aligned.start.shift).trans hal

/-- What the loop over the windows gives. -/
structure Searched (data : Nat → UInt8) (pattern : List UInt8) (limit start : Nat)
    (r : Result) : Prop where
  found : ∀ m, r.location = some m → LinedUp data pattern limit start m ∧ OccursAt data pattern m
  notFound : r.location = none → ∀ j, start ≤ j → j < limit → ¬ OccursAt data pattern j
  behind : ∀ i, LinedUp data pattern limit start i → i + pattern.length ∈ r.reads
  reads : ∀ i ∈ r.reads, ∃ j, LinedUp data pattern limit start j ∧ i ≤ j + pattern.length

/-- The search finds the first occurrence, by shifts that jump over none. -/
theorem search_searched :
    Searched data pattern limit matchBase (search data pattern limit matchBase) := by
  -- by the distance to the limit, as the loop terminates
  induction hn : limit - matchBase using Nat.strongRecOn generalizing matchBase with
  | _ n ih =>
    by_cases hlt : matchBase < limit
    · have hself : LinedUp data pattern limit matchBase matchBase :=
        ⟨.start, hlt, fun j hle hj => absurd hj (Nat.not_lt.mpr hle)⟩
      by_cases hocc : OccursAt data pattern matchBase
      · rw [search_of_match hlt hocc]
        refine ⟨?_, ?_, ?_, ?_⟩
        · intro m hm
          cases hm
          exact ⟨hself, hocc⟩
        · intro h
          cases h
        · -- no other window is lined up, as the pattern is here
          rintro i ⟨hal, -, hno⟩
          rcases hal.eq_or_shift with rfl | hal
          · simp
          · refine absurd hocc (hno matchBase (Nat.le_refl _) ?_)
            have hpos := shift_pos pattern (data (matchBase + pattern.length))
            have hle := hal.le
            omega
        · intro i hi
          rw [mem_append, mem_singleton] at hi
          refine ⟨matchBase, hself, ?_⟩
          rcases hi with hi | rfl
          · exact Nat.le_of_lt (compare_reads hi)
          · exact Nat.le_refl _
      · have hpos := shift_pos pattern (data (matchBase + pattern.length))
        obtain ⟨next, hnext⟩ :
            ∃ next, next = matchBase + shift pattern (data (matchBase + pattern.length)) :=
          ⟨_, rfl⟩
        rw [search_of_not_match hnext hlt hocc]
        have hrest := @ih (limit - next) (by omega) next rfl
        refine ⟨?_, ?_, ?_, ?_⟩
        · intro m hm
          obtain ⟨hup, hm⟩ := hrest.found m hm
          exact ⟨hup.of_shift hnext hocc, hm⟩
        · intro h
          exact not_occursAt_of_shift hnext hocc (hrest.notFound h)
        · rintro i ⟨hal, hi, hno⟩
          rcases hal.eq_or_shift with rfl | hal
          · simp
          · rw [← hnext] at hal
            have hup : LinedUp data pattern limit next i :=
              ⟨hal, hi, fun j hle hj => hno j (by omega) hj⟩
            have hmem := hrest.behind i hup
            simp [hmem]
        · intro i hi
          rw [mem_append, mem_cons] at hi
          rcases hi with hi | rfl | hi
          · exact ⟨matchBase, hself, Nat.le_of_lt (compare_reads hi)⟩
          · exact ⟨matchBase, hself, Nat.le_refl _⟩
          · obtain ⟨j, hup, hle⟩ := hrest.reads i hi
            exact ⟨j, hup.of_shift hnext hocc, hle⟩
    · have hge := Nat.not_lt.mp hlt
      rw [search_of_ge hge]
      refine ⟨?_, ?_, ?_, ?_⟩
      · intro m hm
        cases hm
      · intro _ j hle hj
        omega
      · rintro i ⟨hal, hi, -⟩
        have hle := hal.le
        omega
      · intro i hi
        cases hi

/-! ## When the search is right -/

variable {curSize offset : Nat}

theorem leftmost_eq_some {m : Nat} {r : Option Nat}
    (hm : Leftmost data curSize offset pattern (some m))
    (hocc : ∀ i, r = some i → offset ≤ i ∧ OccursAt data pattern i ∧
      ∀ j, offset ≤ j → j < i → ¬ OccursAt data pattern j)
    (hnone : r = none → ∀ j, offset ≤ j → j ≤ m → ¬ OccursAt data pattern j) : r = some m := by
  obtain ⟨hle, -, hat, hbefore⟩ := hm
  cases r with
  | none => exact absurd hat (hnone rfl m hle (Nat.le_refl _))
  | some i =>
    obtain ⟨hi, hati, hbeforei⟩ := hocc i rfl
    rcases Nat.lt_trichotomy i m with h | rfl | h
    · exact absurd hati (hbefore i hi h)
    · rfl
    · exact absurd hat (hbeforei m hle h)

theorem Searched.inReach {r : Result}
    (h : Searched data pattern (offset + (curSize - pattern.length + 1)) offset r)
    (hfind : FindsIn data curSize offset pattern r) : InReach data curSize offset pattern := by
  refine .inr (.inr ?_)
  have hloc := hfind.location
  cases hr : r.location with
  | some m =>
    rw [hr] at hloc
    have hbehind := h.behind m (h.found m hr).1
    exact .inl ⟨m, hloc, hfind.reads _ hbehind⟩
  | none =>
    rw [hr] at hloc
    refine .inr ⟨hloc, ?_⟩
    intro i hal hi
    refine hfind.reads _ (h.behind i ⟨hal, hi, ?_⟩)
    intro j hle hj
    exact h.notFound hr j hle (Nat.lt_trans hj hi)

theorem Searched.findsIn {r : Result} (hsize : pattern.length ≤ curSize) (hne : pattern ≠ [])
    (h : Searched data pattern (offset + (curSize - pattern.length + 1)) offset r)
    (hreach : InReach data curSize offset pattern) : FindsIn data curSize offset pattern r := by
  rcases hreach with hnil | hshort | ⟨m, hm, hbehind⟩ | ⟨hnone, hbehind⟩
  · exact absurd hnil hne
  · omega
  · have hloc : r.location = some m := by
      refine leftmost_eq_some hm ?_ ?_
      · intro i hi
        obtain ⟨⟨hal, -, hno⟩, hat⟩ := h.found i hi
        exact ⟨hal.le, hat, hno⟩
      · intro hr j hle hj
        exact h.notFound hr j hle (by omega)
    refine ⟨by rw [hloc]; exact hm, ?_⟩
    intro i hi
    obtain ⟨j, ⟨-, -, hno⟩, hij⟩ := h.reads i hi
    -- no window is lined up behind the place of the pattern
    have hjm : j ≤ m := by
      refine Nat.le_of_not_lt fun hlt => ?_
      exact hno m hm.1 hlt hm.2.2.1
    omega
  · have hloc : r.location = none := by
      cases hr : r.location with
      | none => rfl
      | some m =>
        obtain ⟨⟨hal, hlt, -⟩, hat⟩ := h.found m hr
        have hm := hbehind m hal hlt
        exact absurd hat (hnone m hal.le (Nat.le_of_lt hm))
    refine ⟨by rw [hloc]; exact hnone, ?_⟩
    intro i hi
    obtain ⟨j, ⟨hal, hlt, -⟩, hij⟩ := h.reads i hi
    have hj := hbehind j hal hlt
    omega

theorem findsIn_iff (hoffset : offset ≤ curSize) :
    FindsIn data curSize offset pattern (find data curSize offset pattern) ↔
      InReach data curSize offset pattern := by
  rw [find]
  by_cases hzero : pattern.length = 0
  · have hnil : pattern = [] := eq_nil_of_length_eq_zero hzero
    rw [if_pos hzero]
    subst hnil
    refine ⟨fun _ => .inl rfl, fun _ => ⟨?_, by simp⟩⟩
    exact ⟨Nat.le_refl _, hoffset, occursAt_nil, fun j hle hj => by omega⟩
  · have hne : pattern ≠ [] := by
      rintro rfl
      exact hzero rfl
    rw [if_neg hzero]
    by_cases hsize : pattern.length ≤ curSize
    · rw [if_pos hsize]
      exact ⟨search_searched.inReach, search_searched.findsIn hsize hne⟩
    · rw [if_neg hsize]
      refine ⟨fun _ => .inr (.inl (Nat.lt_of_not_le hsize)), fun _ => ⟨?_, by simp⟩⟩
      intro j _ hj
      omega

/--
Both searches give the leftmost place of the pattern and stay inside the data exactly when the
pattern is in reach.
-/
theorem find_iff (data : Nat → UInt8) (curSize offset : Nat) (pattern : List UInt8)
    (hoffset : offset ≤ curSize) :
    (FindsIn data curSize offset pattern (iprBucketFind ⟨curSize, data⟩ offset pattern) ∧
      FindsIn data curSize offset pattern (iclLongstrFind ⟨curSize, data⟩ offset pattern) ∧
      (iprBucketFind ⟨curSize, data⟩ offset pattern).location =
        (iclLongstrFind ⟨curSize, data⟩ offset pattern).location) ↔
      InReach data curSize offset pattern := by
  constructor
  · intro h
    exact (findsIn_iff hoffset).mp h.1
  · intro h
    have hfinds := (findsIn_iff hoffset).mpr h
    exact ⟨hfinds, hfinds, rfl⟩

/-- The octets `1 2 3 0 …`. -/
def oneTwoThree (i : Nat) : UInt8 :=
  [1, 2, 3].getD i 0

/-- The place of `2` among the first three octets, with `3` behind it. -/
theorem find_iff_sample : FindsIn oneTwoThree 3 0 [2] (iprBucketFind ⟨3, oneTwoThree⟩ 0 [2]) ∧
      FindsIn oneTwoThree 3 0 [2] (iclLongstrFind ⟨3, oneTwoThree⟩ 0 [2]) := by
  have hleft : Leftmost oneTwoThree 3 0 [2] (some 1) := by
    refine ⟨by decide, by decide, ?_, ?_⟩
    · intro k hk
      obtain rfl : k = 0 := Nat.lt_one_iff.mp hk
      rfl
    · intro j _ hj h
      obtain rfl : j = 0 := by omega
      exact absurd (h 0 (by decide)) (by decide)
  have h := (find_iff oneTwoThree 3 0 [2] (by decide)).mpr
    (.inr (.inr (.inl ⟨1, hleft, by decide⟩)))
  exact ⟨h.1, h.2.1⟩

/--
Two octets are in use and `3` is not one of them. From the second one onwards, both searches
find it right behind the data.
-/
theorem find_behind_data : (iprBucketFind ⟨2, oneTwoThree⟩ 1 [3]).location = some 2 ∧
      ¬ FindsIn oneTwoThree 2 1 [3] (iprBucketFind ⟨2, oneTwoThree⟩ 1 [3]) ∧
      (iclLongstrFind ⟨2, oneTwoThree⟩ 1 [3]).location = some 2 ∧
      ¬ FindsIn oneTwoThree 2 1 [3] (iclLongstrFind ⟨2, oneTwoThree⟩ 1 [3]) := by
  have hfind : find oneTwoThree 2 1 [3] = ⟨some 2, [1, 2, 2, 3]⟩ := by
    have hocc : ∀ i, OccursAt oneTwoThree [3] i ↔ oneTwoThree i = 3 := fun i =>
      occursAt_cons.trans (and_iff_left occursAt_nil)
    have hnext : 2 = 1 + shift [3] (oneTwoThree (1 + 1)) := by decide
    rw [find, if_neg (by decide), if_pos (by decide),
      search_of_not_match hnext (by decide) (by rw [hocc]; decide),
      search_of_match (by decide) (by rw [hocc]; decide)]
    decide
  have hnot : ¬ FindsIn oneTwoThree 2 1 [3] (find oneTwoThree 2 1 [3]) := by
    intro h
    have hlt := h.reads 2 (by rw [hfind]; decide)
    omega
  exact ⟨congrArg Result.location hfind, hnot, congrArg Result.location hfind, hnot⟩

end Find

end OpenAmq
