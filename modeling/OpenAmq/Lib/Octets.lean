import Mathlib.Data.List.Basic

/-!
# Octet formats

A format consists of a writer and a reader. The reader takes one value from the front of
the input and leaves the octets behind it; it may keep less than was written, which is
what `view` stands for.

* `Reads` — whatever stands behind it, a written value is read
* `Exact` — what is read was written by the writer
* `readAll` — a reader applied again and again up to the end of the input
* `bigEndian` — numbers of a fixed width, the high octet first
-/

namespace OpenAmq.Lib

open List

variable {α β ε : Type*}

/-- Reads one value from the front of the input. -/
abbrev Reader (ε β : Type*) := List UInt8 → Except ε (β × List UInt8)

/-- The reader takes exactly what the writer wrote. -/
def Reads (write : α → List UInt8) (view : α → β) (read : Reader ε β) : Prop :=
  ∀ a rest, read (write a ++ rest) = .ok (view a, rest)

/-- The reader takes nothing else. -/
def Exact (write : α → List UInt8) (view : α → β) (read : Reader ε β) : Prop :=
  ∀ input b rest, read input = .ok (b, rest) → ∃ a, b = view a ∧ input = write a ++ rest

/-! ## Reading up to the end -/

/-- Reads values until the input is used up, at most `fuel` of them. -/
def readAll (read : Reader ε β) (spent : ε) : (fuel : Nat) → List UInt8 → Except ε (List β)
  | _, [] => .ok []
  | 0, _ :: _ => .error spent
  | fuel + 1, b :: bs =>
    match read (b :: bs) with
    | .error e => .error e
    | .ok (x, rest) => (readAll read spent fuel rest).map (x :: ·)

variable {input : List UInt8}

section ReadAll

variable {write : α → List UInt8} {view : α → β} {read : Reader ε β} {spent : ε} {fuel : Nat}

theorem readAll_of_ne_nil (h : input ≠ []) : readAll read spent (fuel + 1) input =
      match read input with
      | .error e => .error e
      | .ok (x, rest) => (readAll read spent fuel rest).map (x :: ·) := by
  cases input with
  | nil => exact absurd rfl h
  | cons b bs => rfl

theorem Reads.readAll (hr : Reads write view read) (hne : ∀ a, write a ≠ []) {as : List α}
    (hf : as.length ≤ fuel) :
    Lib.readAll read spent fuel (as.flatMap write) = .ok (as.map view) := by
  induction as generalizing fuel with
  | nil => cases fuel <;> rfl
  | cons a as ih =>
    cases fuel with
    | zero => simp at hf
    | succ fuel =>
      have hnil : (a :: as).flatMap write ≠ [] := by
        rw [flatMap_cons]
        exact fun h => hne a (append_eq_nil_iff.mp h).1
      rw [readAll_of_ne_nil hnil, flatMap_cons, hr a]
      simp only
      rw [ih (Nat.le_of_succ_le_succ hf)]
      rfl

theorem Exact.readAll (he : Exact write view read) {bs : List β}
    (h : Lib.readAll read spent fuel input = .ok bs) :
    ∃ as : List α, bs = as.map view ∧ input = as.flatMap write := by
  induction fuel generalizing input bs with
  | zero =>
    cases input with
    | nil =>
      cases h
      exact ⟨[], rfl, rfl⟩
    | cons b input => cases h
  | succ fuel ih =>
    cases input with
    | nil =>
      cases h
      exact ⟨[], rfl, rfl⟩
    | cons b input =>
      rw [readAll_of_ne_nil (cons_ne_nil b input)] at h
      split at h
      · cases h
      · next x rest hx =>
        obtain ⟨a, rfl, hin⟩ := he _ _ _ hx
        cases hrest : Lib.readAll read spent fuel rest with
        | error e =>
          rw [hrest] at h
          cases h
        | ok xs =>
          rw [hrest] at h
          obtain ⟨as, rfl, has⟩ := ih hrest
          cases h
          refine ⟨a :: as, rfl, ?_⟩
          rw [hin, has, flatMap_cons]

theorem length_le_length_flatMap (hne : ∀ a, write a ≠ []) (as : List α) :
    as.length ≤ (as.flatMap write).length := by
  induction as with
  | nil => exact Nat.le_refl _
  | cons a as ih =>
    have ha := length_pos_iff.mpr (hne a)
    rw [flatMap_cons, length_append, length_cons]
    omega

end ReadAll

/-! ## Numbers -/

/-- How many numbers there are of `width` octets. -/
def wordSize : (width : Nat) → Nat
  | 0 => 1
  | width + 1 => wordSize width * 256

/-- The number modulo `wordSize width`, the high octet first. -/
def bigEndian : (width : Nat) → Nat → List UInt8
  | 0, _ => []
  | width + 1, n => UInt8.ofNat (n / wordSize width) :: bigEndian width n

/-- A number of `width` octets, with the octets behind it. -/
def readBigEndian : (width : Nat) → List UInt8 → Option (Nat × List UInt8)
  | 0, input => some (0, input)
  | _ + 1, [] => none
  | width + 1, b :: bs =>
    (readBigEndian width bs).map fun r => (b.toNat * wordSize width + r.1, r.2)

theorem wordSize_pos (width : Nat) : 0 < wordSize width := by
  induction width with
  | zero => exact Nat.one_pos
  | succ width ih => exact Nat.mul_pos ih (by decide)

@[simp] theorem length_bigEndian (width n : Nat) : (bigEndian width n).length = width := by
  induction width with
  | zero => rfl
  | succ width ih => rw [bigEndian, length_cons, ih]

theorem readBigEndian_bigEndian (width n : Nat) (rest : List UInt8) :
    readBigEndian width (bigEndian width n ++ rest) = some (n % wordSize width, rest) := by
  induction width with
  | zero =>
    rw [wordSize, Nat.mod_one]
    rfl
  | succ width ih =>
    have hn : n / wordSize width % 256 * wordSize width + n % wordSize width =
        n % (wordSize width * 256) := by
      rw [Nat.mod_mul, Nat.mul_comm, Nat.add_comm]
    rw [bigEndian, cons_append, readBigEndian, ih]
    simp only [Option.map_some, UInt8.toNat_ofNat', wordSize]
    rw [hn]

theorem bigEndian_add_mul (width k n : Nat) :
    bigEndian width (k * wordSize width + n) = bigEndian width n := by
  induction width generalizing k with
  | zero => rfl
  | succ width ih =>
    have hk : k * wordSize (width + 1) + n = (k * 256) * wordSize width + n := by
      rw [wordSize, Nat.mul_comm (wordSize width), Nat.mul_assoc]
    have hdiv : ((k * 256) * wordSize width + n) / wordSize width =
      n / wordSize width + k * 256 := by
      rw [Nat.add_comm, Nat.add_mul_div_right _ _ (wordSize_pos width)]
    rw [hk, bigEndian, bigEndian, ih, hdiv]
    congr 1
    apply UInt8.toNat_inj.mp
    simp only [UInt8.toNat_ofNat', Nat.reducePow, Nat.add_mul_mod_self_right]

theorem readBigEndian_eq_some {width n : Nat} {rest : List UInt8}
    (h : readBigEndian width input = some (n, rest)) :
    n < wordSize width ∧ input = bigEndian width n ++ rest := by
  induction width generalizing n input with
  | zero =>
    cases h
    exact ⟨Nat.one_pos, rfl⟩
  | succ width ih =>
    cases input with
    | nil => cases h
    | cons b bs =>
      rw [readBigEndian] at h
      obtain ⟨⟨m, tail⟩, hm, he⟩ := Option.map_eq_some_iff.mp h
      obtain ⟨rfl, rfl⟩ := he
      obtain ⟨hlt, rfl⟩ := ih hm
      have hb := UInt8.toNat_lt b
      have hdiv : (b.toNat * wordSize width + m) / wordSize width = b.toNat := by
        rw [Nat.add_comm, Nat.add_mul_div_right _ _ (wordSize_pos width),
          Nat.div_eq_of_lt hlt, Nat.zero_add]
      refine ⟨?_, ?_⟩
      · calc b.toNat * wordSize width + m
            < b.toNat * wordSize width + wordSize width := Nat.add_lt_add_left hlt _
          _ = (b.toNat + 1) * wordSize width := by rw [Nat.succ_mul]
          _ ≤ 256 * wordSize width := Nat.mul_le_mul_right _ (by omega)
          _ = wordSize (width + 1) := by rw [wordSize, Nat.mul_comm]
      · rw [bigEndian, hdiv, bigEndian_add_mul, UInt8.ofNat_toNat, cons_append]

/-! ## All octets -/

theorem forall_octet {P : UInt8 → Prop} (h : ∀ n : Fin 256, P (UInt8.ofNat n)) (c : UInt8) :
    P c := by
  have := h ⟨c.toNat, c.toNat_lt⟩
  rwa [UInt8.ofNat_toNat] at this

end OpenAmq.Lib
