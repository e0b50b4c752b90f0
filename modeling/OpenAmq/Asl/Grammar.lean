import Mathlib.Data.List.TakeWhile
import OpenAmq.Asl.Wire

/-!
# The protocol grammar and its methods

The generator writes one encoder and one decoder for the methods of a protocol grammar. They
are modelled for any grammar: `Protocol` is what the generator reads, `MethodObject` what the
generated code works on.

* `encodeFields`, `decodeFields` — the code that is written field by field
* `encode`, `decode` — `method_encode` and `method_decode`
* `methodSize` — the size that the encoder asks a bucket for
-/

namespace OpenAmq

open List

/-! ## The grammar -/

/-- The types of a field other than `bit`. -/
inductive DataType where
  | char
  | octet
  | short
  | long
  | longlong
  | timestamp
  | shortstr
  | longstr
  | table
deriving DecidableEq

inductive FieldType where
  | bit
  | data (type : DataType)
deriving DecidableEq

/-- `assert`: the checks for which code is generated, and those for which none is. -/
inductive FieldAssert where
  | regexp (value : Str)
  | length (value : Nat)
  | notnull
  | other
deriving DecidableEq

namespace Grammar

structure Field where
  name : Str
  type : FieldType
  asserts : List FieldAssert

/-- A method. Its fields stand behind the two global ones that all methods start with. -/
structure Method where
  name : Str
  index : Nat
  synchronous : Bool
  fields : List Field

structure Class where
  name : Str
  index : Nat
  methods : List Method

end Grammar

/-- `std class id` and `std method id`, the fields with the attribute `global`. -/
def globalFields : List Grammar.Field :=
  [⟨"std_class_id".toList, .data .short, []⟩, ⟨"std_method_id".toList, .data .short, []⟩]

/-- An index goes into two octets and is not zero. -/
def IndexOk (index : Nat) : Prop := index ≠ 0 ∧ index < 0x10000

/-- A grammar. The generated code is a `switch` over the indices, so these differ. -/
structure Protocol where
  classes : List Grammar.Class
  classes_nodup : (classes.map Grammar.Class.index).Nodup
  methods_nodup : ∀ c ∈ classes, (c.methods.map Grammar.Method.index).Nodup
  class_index : ∀ c ∈ classes, IndexOk c.index
  method_index : ∀ c ∈ classes, ∀ m ∈ c.methods, IndexOk m.index

/-! ## Values -/

/-- The text in an `icl_shortstr_t`. -/
structure ShortText extends CString where
  bound : octets.length ≤ shortstrMax

/-- `ctype` -/
def DataType.Value : DataType → Type
  | char => UInt8
  | octet => UInt8
  | short => UInt16
  | long => UInt32
  | longlong => Int64
  | timestamp => Int64
  | shortstr => ShortText
  | longstr => Option Longstr
  | table => Option Longstr

def FieldType.Value : FieldType → Type
  | bit => Bool
  | data type => type.Value

/-- The values of the fields of a method. -/
def Payload : List Grammar.Field → Type
  | [] => Unit
  | field :: fields => field.type.Value × Payload fields

/-- A method object; with other indices than those of the grammar it has no fields. -/
inductive MethodObject (protocol : Protocol) where
  | known (c : Grammar.Class) (hc : c ∈ protocol.classes) (m : Grammar.Method)
      (hm : m ∈ c.methods) (payload : Payload m.fields)
  | unknown (classId methodId : Nat)

/-! ## Encoding -/

/-- `PUT_SHORT`, `PUT_LLONG`; `putLong` is `PUT_LONG`. -/
def putShort (host : Nat) : List UInt8 := Lib.bigEndian 2 host

@[inherit_doc putShort]
def putLlong (host : Int64) : List UInt8 := Lib.bigEndian 8 host.toUInt64.toNat

def putSstr (host : ShortText) : List UInt8 := UInt8.ofNat host.octets.length :: host.octets

/-- `PUT_LSTR`, and `PUT_TABLE` -/
def putLstr : Option Longstr → List UInt8
  | some host => putLong host.length ++ host
  | none => putLong 0

/-- The `PUT_` macro for a field of the type. -/
def DataType.put : (type : DataType) → type.Value → List UInt8
  | char, (host : UInt8) => [host]
  | octet, (host : UInt8) => [host]
  | short, (host : UInt16) => putShort host.toNat
  | long, (host : UInt32) => putLong host.toNat
  | longlong, host => putLlong host
  | timestamp, host => putLlong host
  | shortstr, host => putSstr host
  | longstr, host => putLstr host
  | table, host => putLstr host

/-- `encode_bit_byte_if_any` -/
def flushBits (bitCount : Nat) (bitString : UInt8) : List UInt8 :=
  if 0 < bitCount then [bitString] else []

/-- `bit_string |= (field & 1) << bit_count` -/
def setBit (bitString : UInt8) (bitCount : Nat) (bit : Bool) : UInt8 :=
  bitString ||| (UInt8.ofNat bit.toNat <<< UInt8.ofNat bitCount)

/-- The octets of the fields, with `bitCount` bits collected in `bitString` before them. -/
def encodeFields : (fields : List Grammar.Field) → Payload fields → (bitCount : Nat) →
    (bitString : UInt8) → List UInt8
  | [], _, bitCount, bitString => flushBits bitCount bitString
  | ⟨_, .bit, _⟩ :: fields, (bit, payload), bitCount, bitString =>
    if bitCount + 1 = 8 then setBit bitString bitCount bit :: encodeFields fields payload 0 0
    else encodeFields fields payload (bitCount + 1) (setBit bitString bitCount bit)
  | ⟨_, .data type, _⟩ :: fields, (host, payload), bitCount, bitString =>
    flushBits bitCount bitString ++ (type.put host ++ encodeFields fields payload 0 0)

/-- What `method_size` adds for a field when no bits are pending. -/
def DataType.methodSize : (type : DataType) → type.Value → Nat
  | char, _ => 1
  | octet, _ => 1
  | short, _ => 2
  | long, _ => 4
  | longlong, _ => 8
  | timestamp, _ => 8
  | shortstr, (host : ShortText) => 1 + host.octets.length
  -- length word
  | longstr, (host : Option Longstr) => 2 + (host.map length).getD 0
  | table, (host : Option Longstr) => 2 + (host.map length).getD 0

/-- `method_size` from a field on, with `bitCount` bits pending. -/
def methodSizeFields : (fields : List Grammar.Field) → Payload fields → (bitCount : Nat) → Nat
  | [], _, bitCount => if 0 < bitCount then 1 else 0
  | ⟨_, .bit, _⟩ :: fields, (_, payload), bitCount =>
    if bitCount + 1 = 8 then 1 + methodSizeFields fields payload 0
    else methodSizeFields fields payload (bitCount + 1)
  | ⟨_, .data type, _⟩ :: fields, (host, payload), bitCount =>
    (if 0 < bitCount then 1 else 0) + (type.methodSize host + methodSizeFields fields payload 0)

/-- The fields of a method as `method_size` sees them: all, the global ones included. -/
def allPayload (c m : Nat) {fields : List Grammar.Field} (payload : Payload fields) :
    Payload (globalFields ++ fields) :=
  ((UInt16.ofNat c : UInt16), (UInt16.ofNat m : UInt16), payload)

/-- `method_size`: one octet more, for the frame-end octet. -/
def methodSize (c : Grammar.Class) (m : Grammar.Method) (payload : Payload m.fields) : Nat :=
  methodSizeFields (globalFields ++ m.fields) (allPayload c.index m.index payload) 0 + 1

/-- What `method_encode` writes for a method of the grammar. -/
def encodeOctets (c : Grammar.Class) (m : Grammar.Method) (payload : Payload m.fields) :
    List UInt8 :=
  putShort c.index ++ (putShort m.index ++ encodeFields m.fields payload 0 0)

/-- `bucket_size` -/
def bucketSizes : List Nat :=
  [0, 256, 512, 1024, 2048, 4096, 8192, 16384, 32768, 65536, 131072, 262144, 524388, 1048576,
    2097152]

/-- The binary chop of `ipr_bucket_alloc`, in at most `fuel` steps. -/
def chop (size : Nat) : (fuel chopMin chopMax : Nat) → Nat
  | 0, chopMin, _ => chopMin
  | fuel + 1, chopMin, chopMax =>
    if chopMin < chopMax then
      let chopMid := (chopMax + chopMin) / 2
      if bucketSizes.getD chopMid 0 < size then chop size fuel (chopMid + 1) chopMax
      else chop size fuel chopMin chopMid
    else chopMin

/-- `max_size` of the bucket that `ipr_bucket_new` returns. -/
def bucketMaxSize (size : Nat) : Nat :=
  let chopMin := chop size bucketSizes.length 0 bucketSizes.length
  bucketSizes.getD (min chopMin (bucketSizes.length - 1)) 0

/--
`method_encode`

`none` when more is written than the bucket holds, and for a method that is not in the
grammar: no bucket is allocated for it, and the null pointer is dereferenced.
-/
def encode {protocol : Protocol} : MethodObject protocol → Option (List UInt8)
  | .known c _ m _ payload =>
    if (encodeOctets c m payload).length ≤ bucketMaxSize (methodSize c m payload) then
      some (encodeOctets c m payload)
    else none
  | .unknown _ _ => none

/-! ## Decoding -/

/-- How a `GET_` macro fails. -/
inductive GetError where
  /-- `goto underflow` -/
  | underflow
  /-- The count of a string is negative as an `int`, and moves the pointer back. -/
  | fault
deriving DecidableEq

/-- How `method_decode` fails: it returns null with a text, or it does not return. -/
inductive DecodeError where
  | rejected (strerror : Str)
  | fault
deriving DecidableEq

/-- A number of `width` octets: `GET_OCTET`, `GET_SHORT`, `GET_LONG` and `GET_LLONG`. -/
def getWord (width : Nat) (net : List UInt8) : Except GetError (Nat × List UInt8) :=
  match Lib.readBigEndian width net with
  | some r => .ok r
  | none => .error .underflow

/-- What `strcpy` would copy of some octets that end with a zero. -/
def ShortText.ofOctets (octets : List UInt8) : ShortText where
  octets := (octets.take shortstrMax).takeWhile (· ≠ 0)
  noNul := fun h => by
    have := mem_takeWhile_imp h
    simp at this
  bound := Nat.le_trans (List.takeWhile_prefix _).length_le (length_take_le _ _)

def getSstr : List UInt8 → Except GetError (ShortText × List UInt8)
  | [] => .error .underflow
  | size :: net =>
    if net.length < size.toNat then .error .underflow
    else .ok (.ofOctets (net.take size.toNat), net.drop size.toNat)

def getLstr (net : List UInt8) : Except GetError (Option Longstr × List UInt8) :=
  match getWord 4 net with
  | .error e => .error e
  | .ok (size, net) =>
    if 0x80000000 ≤ size then .error .fault
    else if net.length < size then .error .underflow
    else .ok (some (net.take size), net.drop size)

/-- The `GET_` macro for a field of the type. -/
def DataType.get : (type : DataType) → List UInt8 → Except GetError (type.Value × List UInt8)
  | char, net => (getWord 1 net).map fun r => (UInt8.ofNat r.1, r.2)
  | octet, net => (getWord 1 net).map fun r => (UInt8.ofNat r.1, r.2)
  | short, net => (getWord 2 net).map fun r => (UInt16.ofNat r.1, r.2)
  | long, net => (getWord 4 net).map fun r => (UInt32.ofNat r.1, r.2)
  | longlong, net => (getWord 8 net).map fun r => ((UInt64.ofNat r.1).toInt64, r.2)
  | timestamp, net => (getWord 8 net).map fun r => ((UInt64.ofNat r.1).toInt64, r.2)
  | shortstr, net => getSstr net
  | longstr, net => getLstr net
  | table, net => getLstr net

/-- `(bit_string >> bit_count) & 1` -/
def bitAt (bitString : UInt8) (bitCount : Nat) : Bool :=
  (bitString >>> UInt8.ofNat bitCount) &&& 1 == 1

/-- The fields, when `bitCount` bits of `bitString` have been used. -/
def decodeFields : (fields : List Grammar.Field) → (bitCount : Nat) → (bitString : UInt8) →
    List UInt8 → Except GetError (Payload fields × List UInt8)
  | [], _, _, net => .ok ((), net)
  | ⟨_, .bit, _⟩ :: fields, bitCount, bitString, net =>
    if bitCount = 0 then
      match net with
      | [] => .error .underflow
      | octet :: net =>
        (decodeFields fields 1 octet net).map fun r => ((bitAt octet 0, r.1), r.2)
    else
      (decodeFields fields (if bitCount + 1 = 8 then 0 else bitCount + 1) bitString net).map
        fun r => ((bitAt bitString bitCount, r.1), r.2)
  | ⟨_, .data type, _⟩ :: fields, _, bitString, net =>
    match type.get net with
    | .error e => .error e
    | .ok (host, net) => (decodeFields fields 0 bitString net).map fun r => ((host, r.1), r.2)

/-- Whether the code for an assertion rejects the value. -/
def FieldAssert.fails (regexpMatch : Str → List UInt8 → Bool) :
    FieldAssert → (type : FieldType) → type.Value → Bool
  | regexp value, .data .shortstr, (host : ShortText) => !regexpMatch value host.octets
  | length value, .data .shortstr, (host : ShortText) => decide (value < host.octets.length)
  | notnull, .data .char, (host : UInt8) => host == 0
  | notnull, .data .octet, (host : UInt8) => host == 0
  | notnull, .data .short, (host : UInt16) => host == 0
  | notnull, .data .long, (host : UInt32) => host == 0
  | notnull, .data .longlong, (host : Int64) => host == 0
  | notnull, .data .timestamp, (host : Int64) => host == 0
  | notnull, .data .shortstr, (host : ShortText) => host.octets.isEmpty
  | notnull, .data .longstr, (host : Option Longstr) => (host.getD []).isEmpty
  | notnull, .data .table, (host : Option Longstr) => (host.getD []).isEmpty
  | _, _, _ => false

/-- The text that goes with it. -/
def FieldAssert.strerror (name : Str) : FieldAssert → Str
  | regexp _ => name ++ " field is invalid".toList
  | length value => name ++ " field exceeds >".toList ++ Nat.toDigits 10 value ++ " chars".toList
  | notnull => name ++ " field is empty".toList
  | other => []

/-- The first assertion that a field fails, as the text of the error. -/
def checkFields (regexpMatch : Str → List UInt8 → Bool) :
    (fields : List Grammar.Field) → Payload fields → Option Str
  | [], _ => none
  | field :: fields, (host, payload) =>
    match field.asserts.find? fun a => a.fails regexpMatch field.type host with
    | some a => some (a.strerror field.name)
    | none => checkFields regexpMatch fields payload

/-- The `switch` over the class and the method. -/
def Protocol.find (protocol : Protocol) (classId methodId : Nat) :
    Option { r : Grammar.Class × Grammar.Method // r.1 ∈ protocol.classes ∧ r.2 ∈ r.1.methods } :=
  match protocol.classes.attach.find? fun c => decide (c.1.index = classId) with
  | none => none
  | some c =>
    match c.1.methods.attach.find? fun m => decide (m.1.index = methodId) with
    | none => none
    | some m => some ⟨(c.1, m.1), c.2, m.2⟩

/-- The exit `underflow`, for which the method may have no name yet. -/
def malformed (name : Option Str) : GetError → DecodeError
  | .underflow =>
    .rejected ("malformed frame for '".toList ++ name.getD "(null)".toList ++ "' method".toList)
  | .fault => .fault

/-- `method_decode`, with the octets behind the method. -/
def decode (protocol : Protocol) (regexpMatch : Str → List UInt8 → Bool) (net : List UInt8) :
    Except DecodeError (MethodObject protocol × List UInt8) :=
  match getWord 2 net with
  | .error e => .error (malformed none e)
  | .ok (classId, net) =>
    match getWord 2 net with
    | .error e => .error (malformed none e)
    | .ok (methodId, net) =>
      match protocol.find classId methodId with
      | none => .ok (.unknown classId methodId, net)
      | some ⟨(c, m), h⟩ =>
        let name := c.name ++ ".".toList ++ m.name
        match decodeFields m.fields 0 0 net with
        | .error e => .error (malformed (some name) e)
        | .ok (payload, net) =>
          match checkFields regexpMatch m.fields payload with
          | some strerror => .error (.rejected (name ++ ": ".toList ++ strerror))
          | none => .ok (.known c h.1 m h.2 payload, net)

end OpenAmq
