import Mathlib.Data.List.Nodup

/-!
# Lists of items with a key

* `findKey`, `eraseKey`, `updateKey` — the item with a key is looked up, removed or changed
* `nextKey` — the one behind it
* `findKey_eq_some_iff`, `perm_eraseKey`, `map_updateKey` — when no two items have the same key
-/

namespace OpenAmq.Lib

open List

variable {α β κ : Type*} [DecidableEq κ] (key : α → κ)

def findKey (k : κ) (l : List α) : Option α := l.find? fun a => decide (key a = k)

def eraseKey (k : κ) (l : List α) : List α := l.filter fun a => decide (key a ≠ k)

def updateKey (k : κ) (f : α → α) (l : List α) : List α :=
  l.map fun a => if key a = k then f a else a

/-- The item behind the one with a key -/
def nextKey (k : κ) : List α → Option α
  | [] => none
  | a :: l => if key a = k then l.head? else nextKey k l

variable {key} {k : κ} {a b : α} {l : List α} {f : α → α}

theorem mem_of_findKey (h : findKey key k l = some a) : a ∈ l ∧ key a = k := by
  refine ⟨mem_of_find?_eq_some h, ?_⟩
  have hp := find?_some h
  simpa using hp

theorem findKey_eq_some_iff (h : (l.map key).Nodup) :
    findKey key k l = some a ↔ a ∈ l ∧ key a = k := by
  refine ⟨mem_of_findKey, fun ⟨ha, hk⟩ => ?_⟩
  cases hfind : findKey key k l with
  | none =>
    have hnone := find?_eq_none.mp hfind a ha
    simp [hk] at hnone
  | some b =>
    obtain ⟨hb, hkb⟩ := mem_of_findKey hfind
    rw [inj_on_of_nodup_map h ha hb (hk.trans hkb.symm)]

@[simp] theorem mem_eraseKey : a ∈ eraseKey key k l ↔ a ∈ l ∧ key a ≠ k := by
  simp [eraseKey]

theorem eraseKey_sublist (k : κ) (l : List α) : (eraseKey key k l).Sublist l :=
  filter_sublist

theorem nodup_eraseKey (h : (l.map key).Nodup) (k : κ) : ((eraseKey key k l).map key).Nodup :=
  h.sublist ((eraseKey_sublist k l).map key)

theorem perm_eraseKey (h : (l.map key).Nodup) (ha : a ∈ l) :
    l.Perm (a :: eraseKey key (key a) l) := by
  induction l with
  | nil => cases ha
  | cons b l ih =>
    rw [map_cons, nodup_cons] at h
    rcases mem_cons.mp ha with rfl | ha
    · have hsame : eraseKey key (key a) (a :: l) = l := by
        unfold eraseKey
        rw [filter_cons_of_neg (by simp), filter_eq_self]
        intro c hc
        have hne : key c ≠ key a := fun heq => h.1 (heq ▸ mem_map_of_mem hc)
        simpa using hne
      rw [hsame]
    · have hne : key b ≠ key a := fun heq => h.1 (heq ▸ mem_map_of_mem ha)
      have hcons : eraseKey key (key a) (b :: l) = b :: eraseKey key (key a) l :=
        filter_cons_of_pos (by simpa using hne)
      rw [hcons]
      exact ((ih h.2 ha).cons b).trans (List.Perm.swap a b _)

theorem length_eraseKey (h : (l.map key).Nodup) (ha : a ∈ l) :
    (eraseKey key (key a) l).length + 1 = l.length :=
  (perm_eraseKey h ha).length_eq.symm

theorem countP_eraseKey (p : α → Bool) (h : (l.map key).Nodup) (ha : a ∈ l) :
    (eraseKey key (key a) l).countP p + (if p a then 1 else 0) = l.countP p := by
  rw [(perm_eraseKey h ha).countP_eq p, countP_cons]

theorem map_updateKey (f : α → α) (g : α → β) (hg : ∀ a, key a = k → g (f a) = g a) (l : List α) :
    (updateKey key k f l).map g = l.map g := by
  unfold updateKey
  rw [map_map]
  refine map_congr_left fun a _ => ?_
  show g (if key a = k then f a else a) = g a
  split
  · next hk => exact hg a hk
  · rfl

theorem countP_updateKey (f : α → α) (p : α → Bool) (hp : ∀ a, key a = k → p (f a) = p a)
    (l : List α) : (updateKey key k f l).countP p = l.countP p := by
  unfold updateKey
  rw [countP_map]
  refine countP_congr fun a _ => ?_
  show p (if key a = k then f a else a) = true ↔ _
  split
  · next hk => rw [hp a hk]
  · rfl

theorem mem_updateKey : b ∈ updateKey key k f l ↔
    (∃ a ∈ l, key a = k ∧ f a = b) ∨ b ∈ l ∧ key b ≠ k := by
  unfold updateKey
  rw [mem_map]
  constructor
  · rintro ⟨a, ha, rfl⟩
    split
    · next hk => exact .inl ⟨a, ha, hk, rfl⟩
    · next hk => exact .inr ⟨ha, hk⟩
  · rintro (⟨a, ha, hk, rfl⟩ | ⟨hb, hk⟩)
    · exact ⟨a, ha, if_pos hk⟩
    · exact ⟨b, hb, if_neg hk⟩

theorem updateKey_updateKey (f g : α → α) (hkey : ∀ a, key (f a) = key a) (hg : ∀ a, g (f a) = g a)
    (l : List α) : updateKey key k g (updateKey key k f l) = updateKey key k g l := by
  unfold updateKey
  rw [map_map]
  refine map_congr_left fun a _ => ?_
  show (if key (if key a = k then f a else a) = k then g (if key a = k then f a else a)
    else if key a = k then f a else a) = _
  split_ifs with h1 h2
  · exact hg a
  · exact absurd (hkey a) (fun h => h2 (h.trans h1))
  · rfl

theorem eraseKey_updateKey (f : α → α) (hkey : ∀ a, key (f a) = key a) (l : List α) :
    eraseKey key k (updateKey key k f l) = eraseKey key k l := by
  induction l with
  | nil => rfl
  | cons a l ih =>
    unfold eraseKey updateKey at ih ⊢
    rw [map_cons, filter_cons, filter_cons, ih]
    by_cases hk : key a = k
    · simp [hk, hkey]
    · simp [hk]

theorem nextKey_map (f : α → α) (hf : ∀ a, key (f a) = key a) (k : κ) (l : List α) :
    nextKey key k (l.map f) = (nextKey key k l).map f := by
  induction l with
  | nil => rfl
  | cons a l ih =>
    rw [map_cons, nextKey, nextKey, hf, ih, head?_map]
    split <;> rfl

theorem nextKey_append {front : List α} (hfront : ∀ b ∈ front, key b ≠ k) (ha : key a = k) :
    nextKey key k (front ++ a :: l) = l.head? := by
  induction front with
  | nil => exact if_pos ha
  | cons b front ih =>
    rw [forall_mem_cons] at hfront
    rw [cons_append, nextKey, if_neg hfront.1, ih hfront.2]

theorem exists_split (h : (l.map key).Nodup) (ha : a ∈ l) :
    ∃ front rest, l = front ++ a :: rest ∧ (∀ b ∈ front, key b ≠ key a) ∧
      (∀ b ∈ rest, key b ≠ key a) ∧ nextKey key (key a) l = rest.head? := by
  obtain ⟨front, rest, rfl⟩ := append_of_mem ha
  rw [map_append, map_cons, nodup_append, nodup_cons] at h
  obtain ⟨-, ⟨hrest, -⟩, hdisjoint⟩ := h
  have hfront : ∀ b ∈ front, key b ≠ key a :=
    fun b hb => hdisjoint _ (mem_map_of_mem hb) _ mem_cons_self
  refine ⟨front, rest, rfl, hfront, ?_, nextKey_append hfront rfl⟩
  intro b hb heq
  exact hrest (heq ▸ mem_map_of_mem hb)

theorem mem_of_nextKey (h : nextKey key k l = some a) : a ∈ l := by
  induction l with
  | nil => cases h
  | cons b l ih =>
    unfold nextKey at h
    split at h
    · exact mem_cons_of_mem _ (mem_of_mem_head? h)
    · exact mem_cons_of_mem _ (ih h)

end OpenAmq.Lib
