import OpenAmq.Container.HashStored

/-!
# Growing of a hash table

* `Rehashed` — the items that have been moved to the new array, and those that have not
* `Stored.grow` — the table after it has been rebuilt
* `grow_stuck` — a table that is never rebuilt
-/

namespace OpenAmq

open Lib List Function

variable {T A K : Type*} [DecidableEq T] [DecidableEq A] [DecidableEq K]
  {keys : KeyType K} {size : Nat} {links0 links : A → HashLinks T A K} {newItems : Nat → Option A}
  {done : List A} {table : HashTable A}

/-! ## Moving items -/

/-- These items have been moved to an array of this size, and the others are as they were. -/
structure Rehashed (keys : KeyType K) (size : Nat) (links0 links : A → HashLinks T A K)
    (newItems : Nat → Option A) (done : List A) : Prop where
  walk : ∀ i, Chain (fun a => (links a).next) (newItems i)
    (buckets (fun a => keys.hash (links0 a).key size) done i)
  moved : ∀ a ∈ done, (links a).head = (links0 a).head ∧ (links a).key = (links0 a).key ∧
    (links a).index = keys.hash (links0 a).key size
  rest : ∀ a, a ∉ done → links a = links0 a

omit [DecidableEq T] [DecidableEq A] [DecidableEq K] in
theorem rehashed_nil : Rehashed keys size links0 links0 (fun _ => none) [] where
  walk _ := rfl
  moved _ ha := nomatch ha
  rest _ _ := rfl

omit [DecidableEq T] [DecidableEq K] in
theorem Rehashed.concat (h : Rehashed keys size links0 links newItems done) {a : A}
    (ha : a ∉ done) {i : Nat} (hi : keys.hash (links a).key size = i) :
    Rehashed keys size links0 (update links a { links a with index := i, next := newItems i })
      (update newItems i (some a)) (done ++ [a]) := by
  have hsame := h.rest a ha
  rw [hsame] at hi
  have hne : ∀ b ∈ done, b ≠ a := fun b hb heq => ha (heq ▸ hb)
  have hkept : ∀ b ∈ done,
      update links a { links a with index := i, next := newItems i } b = links b :=
    fun b hb => update_of_ne (hne b hb) ..
  have hwalk : ∀ j, Chain
      (fun b => (update links a { links a with index := i, next := newItems i } b).next)
      (newItems j) (buckets (fun a => keys.hash (links0 a).key size) done j) :=
    fun j => (h.walk j).congr fun b hb => by rw [hkept b (mem_buckets.mp hb).1]
  constructor
  · intro j
    rw [buckets_concat, hi]
    by_cases hj : i = j
    · subst hj
      rw [if_pos rfl, update_self]
      refine ⟨rfl, ?_⟩
      simp only [update_self]
      exact hwalk i
    · rw [if_neg hj, update_of_ne (Ne.symm hj)]
      exact hwalk j
  · intro b hb
    rcases mem_append.mp hb with hb | hb
    · rw [hkept b hb]
      exact h.moved b hb
    · obtain rfl := mem_singleton.mp hb
      rw [update_self, hsame]
      exact ⟨rfl, rfl, hi.symm⟩
  · intro b hb
    rw [mem_append, mem_singleton, not_or] at hb
    rw [update_of_ne hb.2, h.rest b hb.1]

omit [DecidableEq T] [DecidableEq K] in
theorem Rehashed.moveChain {p : Option A} {l : List A}
    (h : Rehashed keys size links0 links newItems done)
    (hchain : Chain (fun a => (links0 a).next) p l) (hnodup : (done ++ l).Nodup) :
    ∃ links' newItems', Settles (fun fuel => HashHeap.rehashChain keys size fuel links newItems p)
        (links', newItems') ∧
      Rehashed keys size links0 links' newItems' (done ++ l) := by
  induction l generalizing p links newItems done with
  | nil =>
    obtain rfl := hchain
    exact ⟨links, newItems, .of_add 1 fun _ => rfl, by rwa [append_nil]⟩
  | cons a l ih =>
    obtain ⟨rfl, hchain⟩ := hchain
    rw [append_cons] at hnodup ⊢
    have ha : a ∉ done := by
      intro ha
      exact disjoint_of_nodup_append (nodup_append.mp hnodup).1 ha (mem_singleton.mpr rfl)
    simp only [← h.rest a ha] at hchain
    obtain ⟨links', newItems', hsettles, h'⟩ := ih (h.concat ha rfl) hchain hnodup
    exact ⟨links', newItems', hsettles.succ fun _ => rfl, h'⟩

omit [DecidableEq T] [DecidableEq K] in
theorem Rehashed.moveTable {chains : Nat → List A} {n index : Nat}
    (h : Rehashed keys size links0 links newItems done) (hindex : index + n = table.maxItems)
    (hmax : table.maxItems < 2 ^ 32)
    (hwalk : ∀ i, i < table.maxItems → Chain (fun a => (links0 a).next) (table.items i) (chains i))
    (hnodup : (done ++ itemsFrom chains index n).Nodup) :
    ∃ links' newItems',
      Settles (fun fuel => HashHeap.rehash keys table size fuel index links newItems)
        (links', newItems') ∧
      Rehashed keys size links0 links' newItems' (done ++ itemsFrom chains index n) := by
  induction n generalizing index links newItems done with
  | zero =>
    refine ⟨links, newItems, .of_add 1 fun fuel => ?_, ?_⟩
    · rw [HashHeap.rehash, if_pos (by omega)]
    · rwa [itemsFrom, range'_zero, flatMap_nil, append_nil]
  | succ n ih =>
    have hall : itemsFrom chains index (n + 1) =
        chains index ++ itemsFrom chains (index + 1) n := by
      rfl
    rw [hall, ← append_assoc] at hnodup ⊢
    obtain ⟨links1, newItems1, hsettles, h1⟩ :=
      h.moveChain (hwalk index (by omega)) (nodup_append.mp hnodup).1
    obtain ⟨links', newItems', hsettles', h'⟩ := ih h1 (by omega) hnodup
    refine ⟨links', newItems', (hsettles.bind (g := fun fuel r =>
      HashHeap.rehash keys table size fuel (index + 1) r.1 r.2) hsettles').succ fun fuel => ?_, h'⟩
    rw [HashHeap.rehash, if_neg (by omega), Nat.mod_eq_of_lt (by omega)]

/-! ## A table rebuilt -/

/-- The load factor of a table is not exceeded, or an index of 32 bits reaches its end. -/
def HashHeap.GrowOk (cls : HashClass) (table : HashTable A) : Prop :=
  HashHeap.Overloaded cls table → table.maxItems < 2 ^ 32

instance (cls : HashClass) (table : HashTable A) : Decidable (HashHeap.GrowOk cls table) :=
  inferInstanceAs (Decidable (_ → _))

omit [DecidableEq A] in
theorem newMaxItems_pos (cls : HashClass) (hpos : 0 < table.maxItems)
    (hmax : table.maxItems < 2 ^ 32) :
    0 < table.maxItems * cls.growthFactor % 2 ^ 64 / 100 := by
  have hlt : table.maxItems * cls.growthFactor < 2 ^ 32 * 2 ^ 31 :=
    Nat.mul_lt_mul'' hmax cls.growth_lt
  have hle : 1 * 100 ≤ table.maxItems * cls.growthFactor := Nat.mul_le_mul hpos cls.growth_le
  omega

variable {s : HashHeap T A K} {t : T}

omit [DecidableEq A] [DecidableEq K] in
theorem Stored.resize (s' : HashHeap T A K) {chains : T → Nat → List A} (h : Stored keys s chains)
    (hpos : 0 < size)
    (hnew : Rehashed keys size s.links s'.links (s'.table t).items
      (itemsFrom (chains t) 0 (s.table t).maxItems))
    (htable : (s'.table t).maxItems = size ∧ (s'.table t).nbrItems = (s.table t).nbrItems)
    (htables : ∀ t', t' ≠ t → s'.table t' = s.table t') :
    (∃ chains', Stored keys s' chains') ∧
      ∀ a, (s'.links a).head = (s.links a).head ∧ (s'.links a).key = (s.links a).key := by
  have hmem : ∀ a, a ∈ itemsFrom (chains t) 0 (s.table t).maxItems ↔ (s.links a).head = some t :=
    fun _ => h.mem_itemsFrom
  have hsame : ∀ a, (s'.links a).head = (s.links a).head ∧ (s'.links a).key = (s.links a).key := by
    intro a
    by_cases ha : a ∈ itemsFrom (chains t) 0 (s.table t).maxItems
    · exact ⟨(hnew.moved a ha).1, (hnew.moved a ha).2.1⟩
    · rw [hnew.rest a ha]
      exact ⟨rfl, rfl⟩
  have hother : ∀ t', t' ≠ t → ∀ a, (s.links a).head = some t' → s'.links a = s.links a := by
    intro t' ht a ha
    refine hnew.rest a fun hmem' => ht ?_
    exact Option.some.inj (ha.symm.trans ((hmem a).mp hmem'))
  refine ⟨⟨fun t' i => if t' = t then
    buckets (fun a => keys.hash (s.links a).key size)
      (itemsFrom (chains t) 0 (s.table t).maxItems) i
    else chains t' i, ?_⟩, hsame⟩
  constructor
  · intro t'
    by_cases ht : t' = t
    · rw [ht, htable.1]
      exact hpos
    · rw [htables t' ht]
      exact h.size t'
  · intro t' i hi
    by_cases ht : t' = t
    · rw [if_pos ht, ht]
      exact hnew.walk i
    · rw [if_neg ht]
      rw [htables t' ht] at hi ⊢
      refine (h.walk t' i hi).congr fun a ha => ?_
      rw [HashHeap.next, hother t' ht a ((h.mem t' i a).mp ha).1, HashHeap.next]
  · intro t' i a
    rw [(hsame a).1, (hsame a).2]
    by_cases ht : t' = t
    · rw [if_pos ht, ht, htable.1, mem_buckets, hmem]
    · rw [if_neg ht, htables t' ht, h.mem]
  · intro t' i
    split
    · exact nodup_buckets (h.nodup_itemsFrom 0 _) i
    · exact h.nodup t' i
  · intro t' a hhead
    rw [(hsame a).1] at hhead
    rw [(hsame a).2]
    by_cases ht : t' = t
    · subst ht
      rw [htable.1]
      exact (hnew.moved a ((hmem a).mpr hhead)).2.2
    · rw [htables t' ht, hother t' ht a hhead]
      exact h.index t' a hhead
  · intro t'
    obtain ⟨live, hlive, hmem, hcount⟩ := h.count t'
    refine ⟨live, hlive, fun a => by rw [(hsame a).1, hmem], ?_⟩
    by_cases ht : t' = t
    · rw [← hcount, ht, htable.2]
    · rw [← hcount, htables t' ht]

omit [DecidableEq K] in
theorem Stored.grow {chains : T → Nat → List A} (h : Stored keys s chains) {cls : HashClass}
    (hok : HashHeap.GrowOk cls (s.table t)) :
    ∃ s' chains', Settles (fun fuel => s.grow keys cls fuel t) s' ∧ Stored keys s' chains' ∧
      ∀ a, (s'.links a).head = (s.links a).head ∧ (s'.links a).key = (s.links a).key := by
  by_cases hover : HashHeap.Overloaded cls (s.table t)
  · have hpos := newMaxItems_pos cls (h.size t) (hok hover)
    generalize hsize : (s.table t).maxItems * cls.growthFactor % 2 ^ 64 / 100 = size at hpos
    have hstart : Rehashed keys size s.links s.links (fun _ => none) [] := rehashed_nil
    obtain ⟨links, newItems, hsettles, hnew⟩ :=
      hstart.moveTable (Nat.zero_add _) (hok hover) (h.walk t) (h.nodup_itemsFrom 0 _)
    have htable : ∀ table', ({ s with links }.setTable t table').table t = table' :=
      fun _ => update_self ..
    obtain ⟨⟨chains', h'⟩, hsame⟩ := h.resize
      ({ s with links }.setTable t { s.table t with maxItems := size, items := newItems })
      hpos (by rw [htable]; exact hnew) (by rw [htable]; exact ⟨rfl, rfl⟩)
      fun t' ht => update_of_ne ht ..
    refine ⟨_, chains', ?_, h', hsame⟩
    obtain ⟨n, hn⟩ := hsettles
    refine ⟨n, fun fuel hfuel => ?_⟩
    simp only [HashHeap.grow, if_pos hover, hsize, hn fuel hfuel, Option.map_some]
  · exact ⟨s, chains, .of_forall fun _ => if_neg hover, h, fun _ => ⟨rfl, rfl⟩⟩

omit [DecidableEq T] [DecidableEq K] in
theorem rehash_stuck (hmax : 2 ^ 32 ≤ table.maxItems) (fuel : Nat) :
    ∀ (index : Nat) (links : A → HashLinks T A K) (newItems : Nat → Option A), index < 2 ^ 32 →
      HashHeap.rehash keys table size fuel index links newItems = none := by
  induction fuel with
  | zero => exact fun _ _ _ _ => rfl
  | succ fuel ih =>
    intro index links newItems hindex
    rw [HashHeap.rehash, if_neg (by omega)]
    cases HashHeap.rehashChain keys size fuel links newItems (table.items index) with
    | none => rfl
    | some r => exact ih _ r.1 r.2 (Nat.mod_lt _ (by omega))

omit [DecidableEq K] in
theorem grow_stuck {cls : HashClass} (hnot : ¬HashHeap.GrowOk cls (s.table t)) (fuel : Nat) :
    s.grow keys cls fuel t = none := by
  obtain ⟨hover, hmax⟩ := Classical.not_imp.mp hnot
  simp only [HashHeap.grow, if_pos hover,
    rehash_stuck (Nat.not_lt.mp hmax) fuel 0 s.links _ (by omega), Option.map_none]

end OpenAmq
