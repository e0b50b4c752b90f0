import OpenAmq.Icl

/-!
# ASL field tables

A field table is a counted octet string. `asl_field_list_new` decodes it into a list of
fields, `asl_field_string` gives the text form of a field.
-/

namespace OpenAmq

/-- The value of an `asl_field`; the constructor stands for `type`. -/
inductive FieldValue where
  /-- 'S' -/
  | string (data : Longstr)
  /-- 'I' -/
  | integer (value : Int)
  /-- 'D', the value divided by ten to the power of `decimals` -/
  | decimal (decimals : UInt8) (value : Int)
  /-- 'T', seconds since the epoch -/
  | time (value : Int)
  /-- 'F', still encoded -/
  | fieldTable (data : Longstr)
  /-- 'V' -/
  | void
deriving DecidableEq

/-- `asl_field`: a named value. -/
structure Field where
  name : Str
  value : FieldValue
deriving DecidableEq

/-- Why a field table is not decoded. -/
inductive ParseError where
  /-- The field type is not known; the list is destroyed and null is returned. -/
  | rejected
  /-- A read past the end of the table, or the assertion that the name lies inside it. -/
  | fault
deriving DecidableEq

/-- The C string that starts at the first of these octets. -/
def cstring (data : List UInt8) : Str :=
  (data.takeWhile (· ≠ 0)).map fun b => Char.ofNat b.toNat

/-! ## Decoding -/

/-- `ASL_FIELD_GET_LONG` with the octets behind it. -/
def getLong : List UInt8 → Option (Nat × List UInt8)
  | b0 :: b1 :: b2 :: b3 :: rest =>
    some (b0.toNat * 0x1000000 + b1.toNat * 0x10000 + b2.toNat * 0x100 + b3.toNat, rest)
  | _ => none

/-- The sum of the shifted octets is an `int`, so it is taken as a signed number. -/
def toInt32 (n : Nat) : Int :=
  if n < 0x80000000 then n else (n : Int) - 0x100000000

/-- A signed 32-bit number, or `fault` when the input ends before it does. -/
def getInteger (input : List UInt8) : Except ParseError (Int × List UInt8) :=
  match getLong input with
  | some (n, rest) => .ok (toInt32 n, rest)
  | none => .error .fault

/-- A long string: the octet count, then the octets. -/
def getString (input : List UInt8) : Except ParseError (Longstr × List UInt8) :=
  match getLong input with
  | some (size, rest) =>
    -- from 2^31 on the count is negative as an `int`, and huge as a `size_t`
    if size < 0x80000000 ∧ size ≤ rest.length then .ok (rest.take size, rest.drop size)
    else .error .fault
  | none => .error .fault

/-- The value of type `type`, with the octets behind it. -/
def parseValue (type : UInt8) (input : List UInt8) : Except ParseError (FieldValue × List UInt8) :=
  if type = 'S'.toUInt8 then
    (getString input).map fun r => (.string r.1, r.2)
  else if type = 'I'.toUInt8 then
    (getInteger input).map fun r => (.integer r.1, r.2)
  else if type = 'D'.toUInt8 then
    match input with
    | decimals :: input => (getInteger input).map fun r => (.decimal decimals r.1, r.2)
    | [] => .error .fault
  else if type = 'T'.toUInt8 then
    (getInteger input).map fun r => (.time r.1, r.2)
  else if type = 'F'.toUInt8 then
    (getString input).map fun r => (.fieldTable r.1, r.2)
  else if type = 'V'.toUInt8 then
    .ok (.void, input)
  else .error .rejected

/-- `asl_field_parse`: one field, with the octets behind it. -/
def fieldParse : List UInt8 → Except ParseError (Field × List UInt8)
  | [] => .error .fault
  | size :: input =>
    match input.drop size.toNat with
    | [] => .error .fault
    | type :: rest =>
      (parseValue type rest).map fun r =>
        (⟨cstring (input.take size.toNat), r.1⟩, r.2)

/--
`asl_field_list_parse`: fields up to the end of the table.

`fuel` bounds the number of fields; every field takes at least two octets, so the length of
the table is enough (`fieldListParse_fuel`).
-/
def fieldListParse : (fuel : Nat) → List UInt8 → Except ParseError (List Field)
  | _, [] => .ok []
  | 0, _ :: _ => .error .fault
  | fuel + 1, b :: bs =>
    match fieldParse (b :: bs) with
    | .error e => .error e
    | .ok (field, rest) => (fieldListParse fuel rest).map (field :: ·)

/-- `asl_field_list_new`: a null table gives an empty list. -/
def fieldListNew : Option Longstr → Except ParseError (List Field)
  | none => .ok []
  | some fieldTable => fieldListParse fieldTable.length fieldTable

variable {input rest : List UInt8}

theorem Except.eq_ok_of_map {ε α β : Type*} {f : α → β} {x : Except ε α} {b : β}
    (h : x.map f = .ok b) : ∃ a, x = .ok a ∧ f a = b := by
  cases x with
  | error e => cases h
  | ok a => exact ⟨a, rfl, Except.ok.inj h⟩

/-! ## Text form -/

/-- `NUL` octets become 255, except for the last octet, which then only ends the text. -/
def suppressNulls : List UInt8 → List UInt8
  | [] => []
  | [b] => [b]
  | b :: bs => (if b = 0 then 255 else b) :: suppressNulls bs

/-- `%d` -/
def formatInteger (n : Int) : Str :=
  if n < 0 then '-' :: Nat.toDigits 10 n.natAbs else Nat.toDigits 10 n.natAbs

/-- `%d` for a counter without sign, which is taken as signed. -/
def counterText (counter : UInt32) : Str := formatInteger (toInt32 counter.toNat)

/--
`asl_field_string`

`formatDecimal decimals value` is the text of `%g` for a decimal. The format for times has
one argument too many before the date, so the text shows the address of the field name;
it is `none` here. A field table is formatted into the buffer that holds its octets, which
cuts the text off when the buffer is too short but not empty.
-/
def fieldString (formatDecimal : UInt8 → Int → Str) (value : FieldValue) : Option Str :=
  match value with
  | .string data => some (cstring (suppressNulls data))
  | .integer n => some (formatInteger n)
  | .decimal decimals n => some (formatDecimal decimals n)
  | .time _ => none
  | .fieldTable data =>
    if data.length = 0 then some "(table)".toList
    else some ("(table)".toList.take (data.length - 1))
  | .void => some "(void)".toList

end OpenAmq
