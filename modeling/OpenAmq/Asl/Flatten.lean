import Mathlib.Data.List.TakeWhile
import OpenAmq.Asl.Wire

/-!
# Flattening a field list

`asl_field_list_flatten` adds up the flat sizes of the fields, allocates a string of that
size and writes field after field into it. The flat size of a field is an `int`.

* `fieldListFlatten_of_small` — fields of less than 2^31 octets are all written
* `small_of_fieldListFlatten` — nothing is left out only when they are
* `fieldListFlatten_fieldListNew` — when an accepted field table is reproduced
-/

namespace OpenAmq

open List

/-! ## Names -/

/-- The octets of a C string, up to its terminator. -/
def stringOctets (s : Str) : List UInt8 := s.map fun c => UInt8.ofNat c.toNat

theorem toNat_charOfOctet (b : UInt8) : (Char.ofNat b.toNat).toNat = b.toNat := by
  have hb := UInt8.toNat_lt b
  have hv : b.toNat.isValidChar := .inl (by omega)
  rw [Char.ofNat, dif_pos hv]
  rfl

variable (data : List UInt8) (self : Field) {fields : List Field}

theorem stringOctets_cstring : stringOctets (cstring data) = data.takeWhile (· ≠ 0) := by
  unfold stringOctets cstring
  rw [map_map]
  refine (map_congr_left fun b _ => ?_).trans (map_id _)
  show UInt8.ofNat (Char.ofNat b.toNat).toNat = b
  rw [toNat_charOfOctet, UInt8.ofNat_toNat]

theorem length_cstring : (cstring data).length = (data.takeWhile (· ≠ 0)).length := length_map _

theorem takeWhile_eq_self_of_notMem {data : List UInt8} (h : 0 ∉ data) :
    data.takeWhile (· ≠ 0) = data :=
  takeWhile_eq_self_iff.mpr fun _ hb => decide_eq_true fun h0 => h (h0 ▸ hb)

theorem length_cstring_lt {data : List UInt8} (h : 0 ∈ data) :
    (cstring data).length < data.length := by
  rw [length_cstring]
  refine Nat.lt_of_le_of_ne (List.takeWhile_prefix _).length_le fun he => ?_
  have hself := (List.takeWhile_prefix fun b : UInt8 => decide (b ≠ 0)).eq_of_length he
  have := takeWhile_eq_self_iff.mp hself 0 h
  simp at this

theorem length_cstring_le : (cstring data).length ≤ data.length := by
  rw [length_cstring]
  exact (List.takeWhile_prefix _).length_le

/-! ## Flattening -/

/-- What `asl_field_flat_size` adds for the value. -/
def FieldValue.flatSize : FieldValue → Nat
  | string data => data.length + 4
  | integer _ => 4
  | decimal _ _ => 4 + 1
  | time _ => 4
  | fieldTable data => data.length + 4
  | void => 0

/-- `asl_field_flat_size`, an `int` -/
def fieldFlatSize (self : Field) : Int :=
  toInt32 ((self.name.length + 2 + self.value.flatSize) % 0x100000000)

/-- The octets that `asl_field_flatten` writes. -/
def Field.octets (self : Field) : List UInt8 :=
  UInt8.ofNat self.name.length :: (stringOctets self.name ++ self.value.type :: self.value.octets)

/--
`asl_field_flatten`: the string with the field behind it, or as it was when the field does
not fit, which is an error that the caller does not look at.

A negative flat size makes a huge `size_t`, and the sum wraps to the difference if that is
not negative. `none` when octets are written past the end of the string.
-/
def fieldFlatten (self : Field) (string : Longstr) (maxSize : Nat) : Option Longstr :=
  if 0 ≤ string.length + fieldFlatSize self ∧ string.length + fieldFlatSize self ≤ maxSize then
    if (string ++ self.octets).length ≤ maxSize then some (string ++ self.octets) else none
  else some string

def flatSizes : List Field → Int
  | [] => 0
  | self :: fields => fieldFlatSize self + flatSizes fields

def flattenFields (maxSize : Nat) : List Field → Longstr → Option Longstr
  | [], string => some string
  | self :: fields, string => (fieldFlatten self string maxSize).bind (flattenFields maxSize fields)

/--
`asl_field_list_flatten`

A sum below zero is a `size_t` that no allocation can satisfy; the null pointer that comes
back is dereferenced.
-/
def fieldListFlatten (fields : List Field) : Option Longstr :=
  if 0 ≤ flatSizes fields then flattenFields (flatSizes fields).toNat fields [] else none

theorem FieldValue.length_octets (value : FieldValue) : value.octets.length = value.flatSize := by
  cases value with
  | string data => simp [octets, flatSize, Nat.add_comm]
  | integer n => exact length_putLong n
  | decimal decimals n => simp [octets, flatSize]
  | time n => exact length_putLong n
  | fieldTable data => simp [octets, flatSize, Nat.add_comm]
  | void => rfl

theorem Field.length_octets : self.octets.length = self.name.length + 2 + self.value.flatSize := by
  simp only [octets, stringOctets, length_cons, length_append, length_map, FieldValue.length_octets]
  omega

theorem WireField.length_octets (self : WireField) :
    self.octets.length = self.name.length + 2 + self.value.flatSize := by
  simp only [octets, length_cons, length_append, FieldValue.length_octets]
  omega

theorem fieldFlatSize_eq : fieldFlatSize self = toInt32 (self.octets.length % 0x100000000) := by
  rw [Field.length_octets]
  rfl

theorem fieldFlatSize_of_small {self : Field} (h : self.octets.length < 0x80000000) :
    fieldFlatSize self = self.octets.length := by
  rw [fieldFlatSize_eq, Nat.mod_eq_of_lt (by omega), toInt32, if_pos h]

theorem fieldFlatSize_le : fieldFlatSize self ≤ self.octets.length := by
  have := Nat.mod_le self.octets.length 0x100000000
  rw [fieldFlatSize_eq, toInt32]
  split <;> omega

theorem fieldFlatSize_lt : fieldFlatSize self < 0x80000000 := by
  exact (toInt32_bounds (Nat.mod_lt _ (by decide))).2

/-! ## All fields are written -/

theorem flatSizes_of_small (h : ∀ self ∈ fields, self.octets.length < 0x80000000) :
    flatSizes fields = (fields.flatMap Field.octets).length := by
  induction fields with
  | nil => rfl
  | cons self fields ih =>
    obtain ⟨hs, hf⟩ := forall_mem_cons.mp h
    rw [flatSizes, ih hf, fieldFlatSize_of_small hs, flatMap_cons, length_append]
    omega

theorem flattenFields_of_small {string : Longstr} {maxSize : Nat}
    (h : ∀ self ∈ fields, self.octets.length < 0x80000000)
    (hm : string.length + (fields.flatMap Field.octets).length ≤ maxSize) :
    flattenFields maxSize fields string = some (string ++ fields.flatMap Field.octets) := by
  induction fields generalizing string with
  | nil =>
    rw [flatMap_nil, append_nil]
    rfl
  | cons self fields ih =>
    obtain ⟨hs, hf⟩ := forall_mem_cons.mp h
    rw [flatMap_cons, length_append] at hm
    have hsize := fieldFlatSize_of_small hs
    have hlen : (string ++ self.octets).length = string.length + self.octets.length := length_append
    have hone : fieldFlatten self string maxSize = some (string ++ self.octets) := by
      rw [fieldFlatten, if_pos (by omega), if_pos (by omega)]
    rw [flattenFields, hone, Option.bind_some, ih hf (by omega), flatMap_cons, append_assoc]

theorem fieldListFlatten_of_small (h : ∀ self ∈ fields, self.octets.length < 0x80000000) :
    fieldListFlatten fields = some (fields.flatMap Field.octets) := by
  have hs := flatSizes_of_small h
  rw [fieldListFlatten, hs, if_pos (Int.natCast_nonneg _), Int.toNat_natCast,
    flattenFields_of_small h (by simp), nil_append]

/-! ## Only then -/

theorem flattenFields_eq_some {string out : Longstr} {maxSize : Nat}
    (h : flattenFields maxSize fields string = some out) (hm : string.length ≤ maxSize) :
    out.length ≤ maxSize ∧ (out = string ++ fields.flatMap Field.octets ∨
      out.length < string.length + (fields.flatMap Field.octets).length) := by
  induction fields generalizing string with
  | nil =>
    cases h
    exact ⟨hm, .inl (by rw [flatMap_nil, append_nil])⟩
  | cons self fields ih =>
    obtain ⟨next, hone, hrest⟩ := Option.bind_eq_some_iff.mp h
    have hpos : 0 < self.octets.length := length_pos_iff.mpr (cons_ne_nil _ _)
    rw [flatMap_cons, length_append]
    rw [fieldFlatten] at hone
    split at hone
    · split at hone
      · next hle =>
        cases hone
        obtain ⟨hout, heq | hlt⟩ := ih hrest hle
        · exact ⟨hout, .inl (by rw [heq, append_assoc])⟩
        · rw [length_append] at hlt
          exact ⟨hout, .inr (by omega)⟩
      · cases hone
    · cases hone
      obtain ⟨hout, heq | hlt⟩ := ih hrest hm
      · refine ⟨hout, .inr ?_⟩
        rw [heq, length_append]
        omega
      · exact ⟨hout, .inr (by omega)⟩

theorem flatSizes_le (fields : List Field) :
    flatSizes fields ≤ (fields.flatMap Field.octets).length := by
  induction fields with
  | nil => exact Int.le_refl 0
  | cons self fields ih =>
    have := fieldFlatSize_le self
    rw [flatSizes, flatMap_cons, length_append]
    omega

theorem small_of_flatSizes (h : (fields.flatMap Field.octets).length ≤ flatSizes fields) :
    ∀ self ∈ fields, self.octets.length < 0x80000000 := by
  induction fields with
  | nil => exact fun self hself => absurd hself not_mem_nil
  | cons self fields ih =>
    have h1 := fieldFlatSize_le self
    have h2 := flatSizes_le fields
    have h3 := fieldFlatSize_lt self
    rw [flatSizes, flatMap_cons, length_append] at h
    refine forall_mem_cons.mpr ⟨by omega, ih (by omega)⟩

theorem small_of_fieldListFlatten {out : Longstr} (h : fieldListFlatten fields = some out)
    (hlen : (fields.flatMap Field.octets).length ≤ out.length) :
    (∀ self ∈ fields, self.octets.length < 0x80000000) ∧ out = fields.flatMap Field.octets := by
  unfold fieldListFlatten at h
  split at h
  · next hpos =>
    obtain ⟨hout, heq | hlt⟩ := flattenFields_eq_some h (Nat.zero_le _)
    · rw [nil_append] at heq
      refine ⟨small_of_flatSizes ?_, heq⟩
      omega
    · rw [length_nil] at hlt
      omega
  · cases h

/-! ## Re-encoding -/

theorem WireField.octets_field {self : WireField} (h : 0 ∉ self.name) :
    self.field.octets = self.octets := by
  have hname : stringOctets (cstring self.name) = self.name := by
    rw [stringOctets_cstring, takeWhile_eq_self_of_notMem h]
  have hlen : (cstring self.name).length = self.name.length := by
    rw [length_cstring, takeWhile_eq_self_of_notMem h]
  rw [Field.octets, field, hname, hlen, octets]

theorem WireField.length_octets_field_le (self : WireField) :
    self.field.octets.length ≤ self.octets.length := by
  have := length_cstring_le self.name
  rw [Field.length_octets, WireField.length_octets]
  exact Nat.add_le_add_right (Nat.add_le_add_right this 2) _

theorem WireField.length_octets_field_lt {self : WireField} (h : 0 ∈ self.name) :
    self.field.octets.length < self.octets.length := by
  have := length_cstring_lt h
  rw [Field.length_octets, WireField.length_octets]
  exact Nat.add_lt_add_right (Nat.add_lt_add_right this 2) _

variable {fields : List WireField}

theorem flatMap_octets_field (h : ∀ self ∈ fields, 0 ∉ self.name) :
    (fields.map WireField.field).flatMap Field.octets = fields.flatMap WireField.octets := by
  induction fields with
  | nil => rfl
  | cons self fields ih =>
    obtain ⟨hs, hf⟩ := forall_mem_cons.mp h
    rw [map_cons, flatMap_cons, flatMap_cons, ih hf, WireField.octets_field hs]

theorem length_flatMap_octets_field_le (fields : List WireField) :
    ((fields.map WireField.field).flatMap Field.octets).length ≤
      (fields.flatMap WireField.octets).length := by
  induction fields with
  | nil => exact Nat.le_refl _
  | cons self fields ih =>
    have := self.length_octets_field_le
    rw [map_cons, flatMap_cons, flatMap_cons, length_append, length_append]
    omega

theorem notMem_of_length_flatMap
    (h : (fields.flatMap WireField.octets).length ≤
      ((fields.map WireField.field).flatMap Field.octets).length) :
    ∀ self ∈ fields, 0 ∉ self.name := by
  induction fields with
  | nil => exact fun self hself => absurd hself not_mem_nil
  | cons self fields ih =>
    have h1 := self.length_octets_field_le
    have h2 := length_flatMap_octets_field_le fields
    rw [map_cons, flatMap_cons, flatMap_cons, length_append, length_append] at h
    refine forall_mem_cons.mpr ⟨fun h0 => ?_, ih (by omega)⟩
    have h3 := WireField.length_octets_field_lt h0
    omega

/-- The fields of an accepted table that come back when it is flattened. -/
def WireField.Kept (self : WireField) : Prop :=
  0 ∉ self.name ∧ self.octets.length < 0x80000000

theorem fieldListFlatten_map_field :
    fieldListFlatten (fields.map WireField.field) = some (fields.flatMap WireField.octets) ↔
      ∀ self ∈ fields, self.Kept := by
  constructor
  · intro h
    obtain ⟨hsmall, heq⟩ := small_of_fieldListFlatten h (length_flatMap_octets_field_le fields)
    have hname := notMem_of_length_flatMap (Nat.le_of_eq (congrArg length heq))
    intro self hself
    refine ⟨hname self hself, ?_⟩
    rw [← WireField.octets_field (hname self hself)]
    exact hsmall _ (mem_map_of_mem hself)
  · intro h
    have hname : ∀ self ∈ fields, 0 ∉ self.name := fun self hself => (h self hself).1
    rw [← flatMap_octets_field hname]
    refine fieldListFlatten_of_small fun self hself => ?_
    obtain ⟨self, hmem, rfl⟩ := mem_map.mp hself
    rw [WireField.octets_field (hname self hmem)]
    exact (h self hmem).2

/--
An accepted field table is reproduced exactly when it consists of fields without `NUL` in
their names and of less than 2^31 octets each.
-/
theorem fieldListFlatten_fieldListNew {s : Longstr} {list : List Field}
    (h : fieldListNew (some s) = .ok list) :
    fieldListFlatten list = some s ↔
      ∃ fields : List WireField, s = fields.flatMap WireField.octets ∧
        ∀ self ∈ fields, self.Kept := by
  constructor
  · intro hf
    obtain ⟨fields, rfl, rfl⟩ := fieldListNew_eq_ok h
    exact ⟨fields, rfl, fieldListFlatten_map_field.mp hf⟩
  · rintro ⟨fields, rfl, hk⟩
    rw [fieldListNew_flatMap] at h
    cases h
    exact fieldListFlatten_map_field.mpr hk

/-- The fields `n` of five, `s` with a string and `t` with a table -/
def threeFields : Longstr :=
  [1, 110, 73, 0, 0, 0, 5, 1, 115, 83, 0, 0, 0, 2, 104, 105, 1, 116, 70, 0, 0, 0, 3, 1, 97, 86]

theorem fieldListFlatten_fieldListNew_three :
    fieldListFlatten [⟨['n'], .integer 5⟩, ⟨['s'], .string [104, 105]⟩,
        ⟨['t'], .fieldTable [1, 97, 86]⟩] = some threeFields ↔
      ∃ fields : List WireField, threeFields = fields.flatMap WireField.octets ∧
        ∀ self ∈ fields, self.Kept :=
  fieldListFlatten_fieldListNew (s := threeFields) (by decide +kernel)

/-- The name of one `NUL` octet comes back empty. -/
theorem fieldListFlatten_nul :
    ∃ s list, fieldListNew (some s) = .ok list ∧ fieldListFlatten list ≠ some s :=
  ⟨[1, 0, 86], [⟨[], .void⟩], by decide, by decide⟩

end OpenAmq
