import Mathlib.Data.List.Nodup
import Mathlib.Logic.Function.Basic
import OpenAmq.Lib.Fuel

/-!
# Chains of nodes

Singly linked chains that end in a null pointer, and the buckets of a table of chains.

* `Chain` — the nodes that are met from a pointer on
* `findFrom`, `seekFrom`, `collectFrom` — the loops along a chain
* `Chain.unlink` — a node taken out
* `buckets` — nodes distributed over chains, each in front of the ones before
-/

namespace OpenAmq.Lib

open List Function

variable {A : Type*} {next next' : A → Option A} {p : Option A} {l l' : List A} {a : A}

/-- The pointers lead from `p` through the nodes of the list to the end. -/
def Chain (next : A → Option A) : Option A → List A → Prop
  | p, [] => p = none
  | p, a :: l => p = some a ∧ Chain next (next a) l

theorem Chain.congr (h : Chain next p l) (heq : ∀ a ∈ l, next' a = next a) : Chain next' p l := by
  induction l generalizing p with
  | nil => exact h
  | cons a l ih =>
    refine ⟨h.1, ?_⟩
    rw [heq a mem_cons_self]
    exact ih h.2 fun b hb => heq b (mem_cons_of_mem a hb)

theorem Chain.unique (h : Chain next p l) (h' : Chain next p l') : l = l' := by
  induction l generalizing p l' with
  | nil =>
    obtain rfl := h
    cases l' with
    | nil => rfl
    | cons => cases h'.1
  | cons a l ih =>
    obtain ⟨rfl, h⟩ := h
    cases l' with
    | nil => cases h'
    | cons b l' =>
      obtain ⟨hb, h'⟩ := h'
      cases hb
      rw [ih h h']

/-! ## Loops -/

/-- The first node that fits -/
def findFrom (next : A → Option A) (found : A → Bool) : (fuel : Nat) → Option A → Option (Option A)
  | 0, _ => none
  | _ + 1, none => some none
  | fuel + 1, some a => if found a then some (some a) else findFrom next found fuel (next a)

/-- The first node that fits, with the one before it -/
def seekFrom (next : A → Option A) (found : A → Bool) :
    (fuel : Nat) → (prev current : Option A) → Option (Option A × Option A)
  | 0, _, _ => none
  | _ + 1, prev, none => some (prev, none)
  | fuel + 1, prev, some a =>
    if found a then some (prev, some a) else seekFrom next found fuel (some a) (next a)

/-- All nodes -/
def collectFrom (next : A → Option A) : (fuel : Nat) → Option A → Option (List A)
  | 0, _ => none
  | _ + 1, none => some []
  | fuel + 1, some a => (collectFrom next fuel (next a)).map (a :: ·)

theorem Chain.find_settles (h : Chain next p l) (found : A → Bool) :
    Settles (fun fuel => findFrom next found fuel p) (l.find? found) := by
  induction l generalizing p with
  | nil =>
    obtain rfl := h
    exact .of_add 1 fun _ => rfl
  | cons a l ih =>
    obtain ⟨rfl, h⟩ := h
    cases hfound : found a with
    | true => exact .of_add 1 fun fuel => by simp [findFrom, hfound]
    | false =>
      rw [find?_cons_of_neg (by simp [hfound])]
      exact (ih h).succ fun fuel => by simp [findFrom, hfound]

theorem Chain.seek_settles {found : A → Bool} (h : Chain next p (l ++ a :: l'))
    (hbefore : ∀ b ∈ l, found b = false) (ha : found a = true) (prev : Option A) :
    Settles (fun fuel => seekFrom next found fuel prev p) (l.getLast?.or prev, some a) := by
  induction l generalizing p prev with
  | nil =>
    obtain ⟨rfl, -⟩ := h
    exact .of_add 1 fun fuel => by simp [seekFrom, ha]
  | cons b l ih =>
    obtain ⟨rfl, h⟩ := h
    have hb := hbefore b mem_cons_self
    have hrest := ih h (fun b hb => hbefore b (mem_cons_of_mem _ hb)) (some b)
    have hlast : (b :: l).getLast?.or prev = l.getLast?.or (some b) := by
      cases l <;> simp [getLast?_cons]
    rw [hlast]
    exact hrest.succ fun fuel => by simp [seekFrom, hb]

theorem Chain.collect_settles (h : Chain next p l) :
    Settles (fun fuel => collectFrom next fuel p) l := by
  induction l generalizing p with
  | nil =>
    obtain rfl := h
    exact .of_add 1 fun _ => rfl
  | cons a l ih =>
    obtain ⟨rfl, h⟩ := h
    exact ((ih h).map (a :: ·)).succ fun _ => rfl

/-! ## A node taken out -/

theorem Chain.unlink [DecidableEq A] {b : A} (h : Chain next p (l ++ a :: l'))
    (hnodup : (l ++ a :: l').Nodup) (hlast : l.getLast? = some b) :
    Chain (update next b (next a)) p (l ++ l') := by
  induction l generalizing p with
  | nil => cases hlast
  | cons c l ih =>
    obtain ⟨rfl, h⟩ := h
    obtain ⟨hc, hnodup⟩ := nodup_cons.mp hnodup
    refine ⟨rfl, ?_⟩
    cases l with
    | nil =>
      obtain rfl : c = b := by simpa using hlast
      rw [update_self]
      refine h.2.congr fun x hx => update_of_ne ?_ ..
      rintro rfl
      exact hc (mem_cons_of_mem a hx)
    | cons d l =>
      have hlast' : (d :: l).getLast? = some b := by simpa [getLast?_cons_cons] using hlast
      have hne : c ≠ b := by
        rintro rfl
        exact hc (mem_append_left _ (mem_of_getLast? hlast'))
      rw [update_of_ne hne]
      exact ih h hnodup hlast'

/-! ## Buckets -/

/-- The chain with this index, when the nodes have been put in front of their chains one by one -/
def buckets (index : A → Nat) (l : List A) (i : Nat) : List A :=
  (l.filter fun a => index a == i).reverse

theorem mem_buckets {index : A → Nat} {i : Nat} : a ∈ buckets index l i ↔ a ∈ l ∧ index a = i := by
  simp [buckets]

theorem nodup_buckets {index : A → Nat} (h : l.Nodup) (i : Nat) : (buckets index l i).Nodup :=
  nodup_reverse.mpr (h.filter _)

theorem buckets_concat (index : A → Nat) (l : List A) (a : A) (i : Nat) :
    buckets index (l ++ [a]) i =
      if index a = i then a :: buckets index l i else buckets index l i := by
  by_cases h : index a = i <;> simp [buckets, h]

end OpenAmq.Lib
