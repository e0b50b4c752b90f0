import OpenAmq.Asl
import OpenAmq.Lib.Octets

/-!
# The octets of a field table

A field on the wire is a name of at most 255 octets with its count, the type and the value.
`fieldParse` reads exactly these fields (`reads_fieldParse`, `exact_fieldParse`), so an
accepted field table is a sequence of them (`fieldListNew_eq_ok`). A name read from the wire
ends at its first `NUL`, which is all that is lost.
-/

namespace OpenAmq

open List

/-- `ASL_FIELD_PUT_LONG` -/
def putLong (host : Int) : List UInt8 := Lib.bigEndian 4 (host % 0x100000000).toNat

namespace FieldValue

def type : FieldValue → UInt8
  | string _ => 'S'.toUInt8
  | integer _ => 'I'.toUInt8
  | decimal _ _ => 'D'.toUInt8
  | time _ => 'T'.toUInt8
  | fieldTable _ => 'F'.toUInt8
  | void => 'V'.toUInt8

/-- What `asl_field_flatten` writes behind the type. -/
def octets : FieldValue → List UInt8
  | string data => putLong data.length ++ data
  | integer value => putLong value
  | decimal decimals value => decimals :: putLong value
  | time value => putLong value
  | fieldTable data => putLong data.length ++ data
  | void => []

/-- The values that four octets can tell: counts and numbers that fit an `int`. -/
def Fits : FieldValue → Prop
  | string data => data.length < 0x80000000
  | integer value => -0x80000000 ≤ value ∧ value < 0x80000000
  | decimal _ value => -0x80000000 ≤ value ∧ value < 0x80000000
  | time value => -0x80000000 ≤ value ∧ value < 0x80000000
  | fieldTable data => data.length < 0x80000000
  | void => True

end FieldValue

structure WireField where
  name : List UInt8
  value : FieldValue
  name_le : name.length ≤ shortstrMax
  fits : value.Fits

namespace WireField

def octets (self : WireField) : List UInt8 :=
  UInt8.ofNat self.name.length :: (self.name ++ self.value.type :: self.value.octets)

/-- The field that is read from them. -/
def field (self : WireField) : Field := ⟨cstring self.name, self.value⟩

theorem octets_ne_nil (self : WireField) : self.octets ≠ [] := cons_ne_nil _ _

end WireField

/-! ## Numbers -/

theorem getLong_eq_readBigEndian (input : List UInt8) :
    getLong input = Lib.readBigEndian 4 input := by
  unfold getLong
  split
  · simp only [Lib.readBigEndian, Option.map_some, Lib.wordSize, Option.some.injEq, Prod.mk.injEq,
      and_true]
    omega
  · next h =>
    rcases input with _ | ⟨b0, _ | ⟨b1, _ | ⟨b2, _ | ⟨b3, rest⟩⟩⟩⟩
    · rfl
    · rfl
    · rfl
    · rfl
    · exact absurd rfl (h b0 b1 b2 b3 rest)

theorem getLong_putLong (host : Int) (rest : List UInt8) :
    getLong (putLong host ++ rest) = some ((host % 0x100000000).toNat, rest) := by
  have hlt : (host % 0x100000000).toNat < Lib.wordSize 4 := by
    show _ < 4294967296
    omega
  rw [getLong_eq_readBigEndian, putLong, Lib.readBigEndian_bigEndian, Nat.mod_eq_of_lt hlt]

variable {input rest : List UInt8} {n : Nat} {value : Int}

theorem getLong_eq_some (h : getLong input = some (n, rest)) :
    n < 0x100000000 ∧ input = Lib.bigEndian 4 n ++ rest := by
  rw [getLong_eq_readBigEndian] at h
  exact Lib.readBigEndian_eq_some h

@[simp] theorem length_putLong (host : Int) : (putLong host).length = 4 :=
  Lib.length_bigEndian 4 _

theorem toInt32_emod (h : -0x80000000 ≤ value ∧ value < 0x80000000) :
    toInt32 (value % 0x100000000).toNat = value := by
  unfold toInt32
  split <;> omega

theorem toInt32_bounds (h : n < 0x100000000) :
    -0x80000000 ≤ toInt32 n ∧ toInt32 n < 0x80000000 := by
  unfold toInt32
  split <;> omega

theorem putLong_toInt32 (h : n < 0x100000000) : putLong (toInt32 n) = Lib.bigEndian 4 n := by
  have hn : (toInt32 n % 0x100000000).toNat = n := by
    unfold toInt32
    split <;> omega
  rw [putLong, hn]

theorem getInteger_putLong (h : -0x80000000 ≤ value ∧ value < 0x80000000) (rest : List UInt8) :
    getInteger (putLong value ++ rest) = .ok (value, rest) := by
  rw [getInteger, getLong_putLong]
  simp only
  rw [toInt32_emod h]

theorem getInteger_eq_ok (h : getInteger input = .ok (value, rest)) :
    (-0x80000000 ≤ value ∧ value < 0x80000000) ∧ input = putLong value ++ rest := by
  unfold getInteger at h
  split at h
  · next n tail hl =>
    obtain ⟨rfl, rfl⟩ := h
    obtain ⟨hn, rfl⟩ := getLong_eq_some hl
    exact ⟨toInt32_bounds hn, by rw [putLong_toInt32 hn]⟩
  · cases h

theorem getString_putLong {data : Longstr} (h : data.length < 0x80000000) (rest : List UInt8) :
    getString (putLong data.length ++ data ++ rest) = .ok (data, rest) := by
  have hn : ((data.length : Int) % 0x100000000).toNat = data.length := by omega
  rw [getString, append_assoc, getLong_putLong, hn]
  simp only
  rw [if_pos ⟨h, by rw [length_append]; exact Nat.le_add_right _ _⟩, take_left, drop_left]

theorem getString_eq_ok {data : Longstr} (h : getString input = .ok (data, rest)) :
    data.length < 0x80000000 ∧ input = putLong data.length ++ data ++ rest := by
  unfold getString at h
  split at h
  · next size tail hl =>
    split at h
    · next hs =>
      obtain ⟨rfl, rfl⟩ := h
      obtain ⟨hn, rfl⟩ := getLong_eq_some hl
      have hlen : (tail.take size).length = size := by
        rw [length_take, Nat.min_eq_left hs.2]
      have hput : putLong (size : Int) = Lib.bigEndian 4 size := by
        have : ((size : Int) % 0x100000000).toNat = size := by omega
        rw [putLong, this]
      rw [hlen]
      exact ⟨hs.1, by rw [hput, append_assoc, take_append_drop]⟩
    · cases h
  · cases h

/-! ## Fields -/

theorem parseValue_octets {value : FieldValue} (h : value.Fits) (rest : List UInt8) :
    parseValue value.type (value.octets ++ rest) = .ok (value, rest) := by
  cases value with
  | string data =>
    rw [FieldValue.type, FieldValue.octets, parseValue.eq_def, if_pos rfl, getString_putLong h]
    rfl
  | integer n =>
    rw [FieldValue.type, FieldValue.octets, parseValue.eq_def, if_neg (by decide), if_pos rfl,
      getInteger_putLong h]
    rfl
  | decimal decimals n =>
    rw [FieldValue.type, FieldValue.octets, parseValue.eq_def, if_neg (by decide),
      if_neg (by decide), if_pos rfl, cons_append]
    simp only
    rw [getInteger_putLong h]
    rfl
  | time n =>
    rw [FieldValue.type, FieldValue.octets, parseValue.eq_def, if_neg (by decide),
      if_neg (by decide), if_neg (by decide), if_pos rfl, getInteger_putLong h]
    rfl
  | fieldTable data =>
    rw [FieldValue.type, FieldValue.octets, parseValue.eq_def, if_neg (by decide),
      if_neg (by decide), if_neg (by decide), if_neg (by decide), if_pos rfl, getString_putLong h]
    rfl
  | void => rfl

theorem parseValue_eq_ok {type : UInt8} {value : FieldValue}
    (h : parseValue type input = .ok (value, rest)) :
    type = value.type ∧ value.Fits ∧ input = value.octets ++ rest := by
  unfold parseValue at h
  split at h
  · next ht =>
    obtain ⟨r, hr, he⟩ := Except.eq_ok_of_map h
    cases he
    exact ⟨ht, getString_eq_ok hr⟩
  split at h
  · next ht =>
    obtain ⟨r, hr, he⟩ := Except.eq_ok_of_map h
    cases he
    exact ⟨ht, getInteger_eq_ok hr⟩
  split at h
  · next ht =>
    split at h
    · next decimals input =>
      obtain ⟨r, hr, he⟩ := Except.eq_ok_of_map h
      cases he
      obtain ⟨hfits, rfl⟩ := getInteger_eq_ok hr
      exact ⟨ht, hfits, rfl⟩
    · cases h
  split at h
  · next ht =>
    obtain ⟨r, hr, he⟩ := Except.eq_ok_of_map h
    cases he
    exact ⟨ht, getInteger_eq_ok hr⟩
  split at h
  · next ht =>
    obtain ⟨r, hr, he⟩ := Except.eq_ok_of_map h
    cases he
    exact ⟨ht, getString_eq_ok hr⟩
  split at h
  · next ht =>
    cases h
    exact ⟨ht, trivial, rfl⟩
  · cases h

theorem reads_fieldParse : Lib.Reads WireField.octets WireField.field fieldParse := by
  intro self rest
  have hsize : (UInt8.ofNat self.name.length).toNat = self.name.length := by
    exact Nat.mod_eq_of_lt (Nat.lt_succ_of_le self.name_le)
  rw [WireField.octets, cons_append, fieldParse, hsize, append_assoc, drop_left,
    take_left, cons_append]
  simp only
  rw [parseValue_octets self.fits]
  rfl

theorem exact_fieldParse : Lib.Exact WireField.octets WireField.field fieldParse := by
  intro input field rest h
  unfold fieldParse at h
  split at h
  · cases h
  · next size input =>
    split at h
    · cases h
    · next type bytes hd =>
      obtain ⟨⟨value, tail⟩, hr, he⟩ := Except.eq_ok_of_map h
      cases he
      obtain ⟨rfl, hfits, rfl⟩ := parseValue_eq_ok hr
      have hle : (input.take size.toNat).length ≤ shortstrMax := by
        have := UInt8.toNat_lt size
        rw [length_take]
        exact Nat.le_trans (Nat.min_le_left _ _) (by unfold shortstrMax; omega)
      have hlen : (input.take size.toNat).length = size.toNat := by
        have hpos : 0 < (input.drop size.toNat).length := by rw [hd]; exact Nat.succ_pos _
        rw [length_drop] at hpos
        rw [length_take]
        omega
      refine ⟨⟨input.take size.toNat, value, hle, hfits⟩, rfl, ?_⟩
      simp only [WireField.octets]
      rw [hlen, UInt8.ofNat_toNat, cons_append, append_assoc, cons_append, ← hd, take_append_drop]

/-! ## Field tables -/

theorem fieldListParse_eq_readAll (fuel : Nat) (bytes : List UInt8) :
    fieldListParse fuel bytes = Lib.readAll fieldParse .fault fuel bytes := by
  induction fuel generalizing bytes with
  | zero => cases bytes <;> rfl
  | succ fuel ih =>
    cases bytes with
    | nil => rfl
    | cons b bs =>
      rw [fieldListParse, Lib.readAll]
      cases fieldParse (b :: bs) with
      | error e => rfl
      | ok r =>
        simp only
        rw [ih]

theorem fieldListNew_flatMap (fields : List WireField) :
    fieldListNew (some (fields.flatMap WireField.octets)) = .ok (fields.map WireField.field) := by
  have hne := WireField.octets_ne_nil
  rw [fieldListNew, fieldListParse_eq_readAll]
  exact reads_fieldParse.readAll hne (Lib.length_le_length_flatMap hne fields)

theorem fieldListNew_eq_ok {s : Longstr} {list : List Field}
    (h : fieldListNew (some s) = .ok list) :
    ∃ fields : List WireField, list = fields.map WireField.field ∧
      s = fields.flatMap WireField.octets := by
  rw [fieldListNew, fieldListParse_eq_readAll] at h
  exact exact_fieldParse.readAll h

end OpenAmq
