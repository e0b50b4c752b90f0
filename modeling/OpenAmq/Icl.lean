import Mathlib.Data.List.Basic

/-!
# iCL strings

The strings of the broker are zero-terminated octet strings. A text is modelled by the list
of its characters, without the terminator.

* `Shortstr` — `icl_shortstr_t`, a buffer for at most 255 characters
* `Longstr` — `icl_longstr_t`, counted octets, `Option` for a pointer that may be null
* `CString` — the octets of a string, where these matter more than its text
-/

namespace OpenAmq

open List

/-- A zero-terminated string, as the list of its characters. -/
abbrev Str := List Char

/-- `ICL_SHORTSTR_MAX` -/
def shortstrMax : Nat := 255

/-- `icl_shortstr_t` -/
structure Shortstr where
  chars : Str
  bound : chars.length ≤ shortstrMax
deriving DecidableEq

/-- The octets of an `icl_longstr_t`. -/
abbrev Longstr := List UInt8

/-- `char *`: octets up to the terminator. -/
structure CString where
  octets : List UInt8
  noNul : 0 ∉ octets

theorem CString.noNul_nil : (0 : UInt8) ∉ ([] : List UInt8) := not_mem_nil

namespace Shortstr

theorem eq_of_chars_eq {s t : Shortstr} (h : s.chars = t.chars) : s = t := by
  cases s
  cases t
  subst h
  rfl

def empty : Shortstr := ⟨[], Nat.zero_le _⟩

/-- `icl_shortstr_cpy`: what does not fit is cut off. -/
def cpy (src : Str) : Shortstr :=
  ⟨src.take shortstrMax, length_take_le _ _⟩

/-- `icl_shortstr_ncpy`: at most `size` characters of the source. -/
def ncpy (src : Str) (size : Nat) : Shortstr :=
  ⟨src.take (min size shortstrMax), Nat.le_trans (length_take_le _ _) (Nat.min_le_right _ _)⟩

/-- `icl_shortstr_ncat`: appends at most `size` characters of the source. -/
def ncat (dest : Shortstr) (src : Str) (size : Nat) : Shortstr :=
  ⟨dest.chars ++ src.take (min size (shortstrMax - dest.chars.length)), by
    have hd := dest.bound
    simp only [length_append, length_take]
    omega⟩

/-- `icl_shortstr_cat` -/
def cat (dest : Shortstr) (src : Str) : Shortstr :=
  dest.ncat src src.length

/-! ## When nothing is cut off -/

variable {src : Str}

theorem chars_ncpy {size : Nat} (h : size ≤ shortstrMax) :
    (ncpy src size).chars = src.take size := by
  show src.take (min size shortstrMax) = src.take size
  rw [Nat.min_eq_left h]

theorem chars_ncat {dest : Shortstr} {size : Nat} (h : dest.chars.length + size ≤ shortstrMax) :
    (dest.ncat src size).chars = dest.chars ++ src.take size := by
  show dest.chars ++ src.take (min size (shortstrMax - dest.chars.length)) = _
  rw [Nat.min_eq_left (by omega)]

theorem chars_cat {dest : Shortstr} (h : dest.chars.length + src.length ≤ shortstrMax) :
    (dest.cat src).chars = dest.chars ++ src := by
  unfold cat
  rw [chars_ncat h, take_length]

end Shortstr

end OpenAmq
