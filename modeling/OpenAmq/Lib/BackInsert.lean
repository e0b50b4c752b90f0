import Mathlib.Data.List.DropRight
import Mathlib.Data.List.Perm.Basic
import Mathlib.Order.Lattice

/-!
# Insertion from the back

A list is kept in the order of a key by walking it from its end, past the entries of a greater key.
Entries of one key then stay in the order in which they came.

* `insertBack` — the insertion
* `insertBack_perm`, `filter_insertBack` — the entries, and those of one key
* `InKeyOrder`, `InKeyOrder.insertBack` — the order
-/

namespace OpenAmq.Lib

open List

variable {α κ : Type*} [LinearOrder κ] (key : α → κ)

/-- Inserts `a` behind the last entry whose key is not greater. -/
def insertBack (a : α) (l : List α) : List α :=
  l.rdropWhile (fun b => decide (key a < key b)) ++
    a :: l.rtakeWhile (fun b => decide (key a < key b))

theorem rdropWhile_append_rtakeWhile (p : α → Bool) (l : List α) :
    l.rdropWhile p ++ l.rtakeWhile p = l := by
  rw [rdropWhile, rtakeWhile, ← reverse_append, takeWhile_append_dropWhile, reverse_reverse]

variable {b : α}

theorem lt_of_mem_rtakeWhile {a : α} {l : List α}
    (h : b ∈ l.rtakeWhile fun b => decide (key a < key b)) : key a < key b := by
  have hp := mem_rtakeWhile_imp h
  simpa using hp

theorem insertBack_perm (a : α) (l : List α) : (insertBack key a l).Perm (a :: l) := by
  have hperm : (insertBack key a l).Perm (a :: (l.rdropWhile (fun b => decide (key a < key b)) ++
      l.rtakeWhile fun b => decide (key a < key b))) := perm_middle
  rwa [rdropWhile_append_rtakeWhile] at hperm

@[simp] theorem mem_insertBack {a : α} {l : List α} : b ∈ insertBack key a l ↔ b = a ∨ b ∈ l := by
  rw [(insertBack_perm key a l).mem_iff, mem_cons]

@[simp] theorem length_insertBack (a : α) (l : List α) :
    (insertBack key a l).length = l.length + 1 :=
  (insertBack_perm key a l).length_eq

theorem filter_insertBack (a : α) (l : List α) (k : κ) :
    (insertBack key a l).filter (fun b => decide (key b = k)) =
      l.filter (fun b => decide (key b = k)) ++ [a].filter (fun b => decide (key b = k)) := by
  have hsplit := congrArg (filter (fun b => decide (key b = k)))
    (rdropWhile_append_rtakeWhile (fun b => decide (key a < key b)) l)
  rw [filter_append] at hsplit
  rw [insertBack, filter_append, ← hsplit, filter_cons]
  by_cases hk : key a = k
  · subst hk
    have hnone : (l.rtakeWhile fun b => decide (key a < key b)).filter
        (fun b => decide (key b = key a)) = [] := by
      rw [filter_eq_nil_iff]
      intro b hb
      have hlt := lt_of_mem_rtakeWhile key hb
      simpa using hlt.ne'
    simp [hnone]
  · simp [hk]

/-- In the order of the key, and with the same key in the order of `before` -/
def InKeyOrder (before : α → α → Prop) (l : List α) : Prop :=
  l.Pairwise fun a b => key a < key b ∨ key a = key b ∧ before a b

variable {key} {before : α → α → Prop} {a : α} {l : List α}

theorem InKeyOrder.nil : InKeyOrder key before [] := List.Pairwise.nil

theorem InKeyOrder.insertBack (h : InKeyOrder key before l) (hlast : ∀ b ∈ l, before b a) :
    InKeyOrder key before (insertBack key a l) := by
  have hl := rdropWhile_append_rtakeWhile (fun b => decide (key a < key b)) l
  have hsplit := h
  rw [← hl, InKeyOrder, pairwise_append] at hsplit
  obtain ⟨hdrop, htake, hcross⟩ := hsplit
  rw [InKeyOrder, Lib.insertBack, pairwise_append, pairwise_cons]
  refine ⟨hdrop, ⟨?_, htake⟩, ?_⟩
  · intro b hb
    exact .inl (lt_of_mem_rtakeWhile key hb)
  intro b hb c hc
  rcases mem_cons.mp hc with rfl | hc
  · -- the last entry that is passed is not greater, and those before it are not either
    have hbl : b ∈ l := by
      rw [← hl]
      exact mem_append_left _ hb
    have hne := ne_nil_of_mem hb
    have hend : ¬key c < key ((l.rdropWhile fun b => decide (key c < key b)).getLast hne) := by
      have := rdropWhile_last_not (fun b => decide (key c < key b)) l hne
      simpa using this
    have hle : key b ≤ key c := by
      rw [← dropLast_append_getLast hne, pairwise_append] at hdrop
      rw [← dropLast_append_getLast hne, mem_append, mem_singleton] at hb
      rcases hb with hb | rfl
      · rcases hdrop.2.2 b hb _ (mem_singleton_self _) with hlt | ⟨heq, -⟩
        · exact le_trans (le_of_lt hlt) (not_lt.mp hend)
        · exact heq ▸ not_lt.mp hend
      · exact not_lt.mp hend
    rcases lt_or_eq_of_le hle with hlt | heq
    · exact .inl hlt
    · exact .inr ⟨heq, hlast b hbl⟩
  · exact hcross b hb c hc

theorem InKeyOrder.sublist {l' : List α} (h : InKeyOrder key before l) (hsub : List.Sublist l' l) :
    InKeyOrder key before l' := List.Pairwise.sublist hsub h

theorem InKeyOrder.head_le (h : InKeyOrder key before (a :: l)) (hb : b ∈ l) :
    key a < key b ∨ key a = key b ∧ before a b :=
  (pairwise_cons.mp h).1 b hb

end OpenAmq.Lib
