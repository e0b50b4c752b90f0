import OpenAmq.Asl.Reading

/-!
# Contents

For every class with fields the generator writes a content class. It is modelled for any such
class: the fields are the properties of a content. Four pieces of code go over the properties
one by one, each with its own test for those that are set.

* `calcPropertyFlags` — the size of the properties and their flags
* `putPropertyFields`, `getPropertyFields` — writing and reading them
* `replayHeader`, `recordHeader` — a content header frame
-/

namespace OpenAmq

def iprBucketMaxSize : Nat := 2097152

/-! ## Content classes -/

/-- A field of a content class. Bits are not supported there. -/
structure Property where
  name : Str
  type : DataType

/-- A class with contents. The generator stops at the sixteenth field. -/
structure ContentClass where
  index : UInt16
  fields : List Property
  fields_le : fields.length ≤ 15

def Properties : List Property → Type
  | [] => Unit
  | property :: fields => property.type.Value × Properties fields

/-- The test for a property that is set: not zero, or not empty. -/
def DataType.isSet : (type : DataType) → type.Value → Bool
  | char, (host : UInt8) => host != 0
  | octet, (host : UInt8) => host != 0
  | short, (host : UInt16) => host != 0
  | long, (host : UInt32) => host != 0
  | longlong, (host : Int64) => host != 0
  | timestamp, (host : Int64) => host != 0
  | shortstr, (host : ShortText) => !host.octets.isEmpty
  | longstr, (host : Option Longstr) => !(host.getD []).isEmpty
  | table, (host : Option Longstr) => !(host.getD []).isEmpty

/-- The value of a property in a new content. -/
def DataType.unset : (type : DataType) → type.Value
  | char => (0 : UInt8)
  | octet => (0 : UInt8)
  | short => (0 : UInt16)
  | long => (0 : UInt32)
  | longlong => (0 : Int64)
  | timestamp => (0 : Int64)
  | shortstr => (⟨⟨[], List.not_mem_nil⟩, Nat.zero_le _⟩ : ShortText)
  | longstr => (none : Option Longstr)
  | table => (none : Option Longstr)

def Properties.unset : (fields : List Property) → Properties fields
  | [] => ()
  | property :: fields => (property.type.unset, Properties.unset fields)

/-- The class `basic` of the broker. -/
def basicClass : ContentClass where
  index := 60
  fields :=
    [⟨"content_type".toList, .shortstr⟩, ⟨"content_encoding".toList, .shortstr⟩,
     ⟨"headers".toList, .table⟩, ⟨"delivery_mode".toList, .octet⟩, ⟨"priority".toList, .octet⟩,
     ⟨"correlation_id".toList, .shortstr⟩, ⟨"reply_to".toList, .shortstr⟩,
     ⟨"expiration".toList, .shortstr⟩, ⟨"message_id".toList, .shortstr⟩,
     ⟨"timestamp".toList, .timestamp⟩, ⟨"type".toList, .shortstr⟩, ⟨"user_id".toList, .shortstr⟩,
     ⟨"app_id".toList, .shortstr⟩, ⟨"sender_id".toList, .shortstr⟩]
  fields_le := by decide

/-! ## The properties -/

/-- `header_size` and `property_flags` with the properties, of which the first has the bit below
`fieldNbr`. -/
def calcPropertyFlags : {fields : List Property} → Properties fields → (fieldNbr : Nat) →
    (headerSize propertyFlags : Nat) → Nat × Nat
  | [], _, _, headerSize, propertyFlags => (headerSize, propertyFlags)
  | property :: _, (host, properties), fieldNbr, headerSize, propertyFlags =>
    if property.type.isSet host then
      calcPropertyFlags properties (fieldNbr - 1) (headerSize + property.type.wireSize host)
        (propertyFlags ||| 1 <<< (fieldNbr - 1))
    else calcPropertyFlags properties (fieldNbr - 1) headerSize propertyFlags

/-- The octets of the properties that are set. -/
def putPropertyFields : {fields : List Property} → Properties fields → List UInt8
  | [], _ => []
  | property :: _, (host, properties) =>
    if property.type.isSet host then property.type.put host ++ putPropertyFields properties
    else putPropertyFields properties

/-- Reads the flagged properties. After an underflow those before it have been set. -/
def getPropertyFields (bucket : List UInt8) (dataLimit propertyFlags : Nat) :
    {fields : List Property} → Properties fields → (fieldNbr dataPtr : Nat) →
      Except Violation (Properties fields × Option Nat)
  | [], properties, _, dataPtr => .ok (properties, some dataPtr)
  | property :: _, (host, properties), fieldNbr, dataPtr =>
    if propertyFlags.testBit (fieldNbr - 1) then do
      match ← property.type.getAt bucket dataLimit dataPtr with
      | none => return ((host, properties), none)
      | some (host, dataPtr) =>
        let r ← getPropertyFields bucket dataLimit propertyFlags properties (fieldNbr - 1) dataPtr
        return ((host, r.1), r.2)
    else do
      let r ← getPropertyFields bucket dataLimit propertyFlags properties (fieldNbr - 1) dataPtr
      return ((host, r.1), r.2)

/-! ## The content object -/

inductive BodyData where
  | null
  | block (octets : List UInt8)
  /-- The block has been freed, and the pointer kept. -/
  | freed

/-- The two representations of a body. -/
structure Body where
  /-- `bucket_list`, null until a bucket is recorded. -/
  bucketList : Option (List (List UInt8))
  bodySize : Nat
  bodyData : BodyData
  /-- Whether there is a `free_fn`. -/
  freeFn : Bool

structure ContentObject (cls : ContentClass) where
  classId : UInt16
  weight : UInt16
  bodyExpect : Int64
  exchange : ShortText
  routingKey : ShortText
  properties : Properties cls.fields
  body : Body

namespace ContentObject

variable {cls : ContentClass}

/-- `new`; `free_fn` is set together with `body_data`. -/
def new (cls : ContentClass) : ContentObject cls where
  classId := cls.index
  weight := 0
  bodyExpect := 0
  exchange := DataType.shortstr.unset
  routingKey := DataType.shortstr.unset
  properties := Properties.unset cls.fields
  body := ⟨none, 0, .null, false⟩

/-! ## Content headers -/

/-- What `replay header` writes; the size of a body is an `int64_t`. -/
def headerOctets (self : ContentObject cls) (propertyFlags : Nat) : List UInt8 :=
  putShort self.classId.toNat ++ (putShort 0 ++ (putLlong (Int64.ofNat self.body.bodySize) ++
    (putShort propertyFlags ++ putPropertyFields self.properties)))

/-- `replay header`: the content with its weight cleared, and the bucket. -/
def replayHeader (self : ContentObject cls) : Except Violation (ContentObject cls × List UInt8) :=
  let (headerSize, propertyFlags) := calcPropertyFlags self.properties 16 14 0
  let octets := self.headerOctets propertyFlags
  if bucketMaxSize headerSize < octets.length then .error .write
  else if octets.length ≠ headerSize then .error .assertion
  else .ok ({ self with weight := 0 }, octets)

/-- `record header`: the content as far as it was read, and the return code. -/
def recordHeader (self : ContentObject cls) (bucket : List UInt8) :
    Except Violation (ContentObject cls × Int) := do
  let dataLimit := bucket.length
  match ← DataType.short.getAt bucket dataLimit 0 with
  | none => return (self, -1)
  | some (classId, dataPtr) =>
    let self := { self with classId := classId }
    match ← DataType.short.getAt bucket dataLimit dataPtr with
    | none => return (self, -1)
    | some (weight, dataPtr) =>
      let self := { self with weight := weight }
      match ← DataType.longlong.getAt bucket dataLimit dataPtr with
      | none => return (self, -1)
      | some (bodyExpect, dataPtr) =>
        let self := { self with bodyExpect := bodyExpect }
        match ← getWordAt bucket dataLimit 2 dataPtr with
        | none => return (self, -1)
        | some (propertyFlags, dataPtr) =>
          let r ← getPropertyFields bucket dataLimit propertyFlags self.properties 16 dataPtr
          return ({ self with properties := r.1 }, if r.2.isSome then 0 else -1)

end ContentObject

end OpenAmq
