import OpenAmq.Asl.Roundtrip
import OpenAmq.Ipr.PasswordTable
import OpenAmq.Zyre.Resource

/-!
# What is published

The body, the type, the properties and the headers that `s_send_message` puts into the content
which it publishes for a message of a document.

* `Env.print`, `Env.decoded` — the values that are formatted and decoded
* `partOfResource`, `partOfElement` — the part that comes from the content of the message
* `publish` — all of it
-/

namespace OpenAmq.Zyre

open List

/-! ## Texts and octets -/

/-- `ipr_str_crop (ipr_str_skip (value))` -/
def trim (value : Str) : Str :=
  ((value.dropWhile isSpace).reverse.dropWhile isSpace).reverse

/-- An entry of `pr2six`, none for 64 -/
def pr2six (c : Char) : Option UInt8 :=
  if 'A' ≤ c ∧ c ≤ 'Z' then some (UInt8.ofNat (c.toNat - 65))
  else if 'a' ≤ c ∧ c ≤ 'z' then some (UInt8.ofNat (c.toNat - 71))
  else if '0' ≤ c ∧ c ≤ '9' then some (UInt8.ofNat (c.toNat + 4))
  else if c = '+' then some 62
  else if c = '/' then some 63
  else none

/-- The codes that a text begins with -/
def codesOf : Str → List UInt8
  | [] => []
  | c :: s =>
    match pr2six c with
    | some code => code :: codesOf s
    | none => []

/-- `apr_base64_decode` of these codes -/
def base64Decode : List UInt8 → List UInt8
  | a :: b :: c :: d :: codes =>
    (a <<< 2 ||| b >>> 4) :: (b <<< 4 ||| c >>> 2) :: (c <<< 6 ||| d) :: base64Decode codes
  | [a, b, c] => [a <<< 2 ||| b >>> 4, b <<< 4 ||| c >>> 2]
  | [a, b] => [a <<< 2 ||| b >>> 4]
  | _ => []

/-- `apr_base64_decode_len`, less the terminator -/
def base64DecodeLen (codes : List UInt8) : Nat := (codes.length + 3) / 4 * 3

namespace Env

/-- `amq_content_basic_set_type` and the like, for which the value is a format -/
def print (self : Env) (value : Str) : Except Fault Str :=
  match self.format value with
  | some s => .ok (vsnprintf shortstrMax s)
  | none => .error .pointer

/-- The block that is decoded into, of which the length is taken from `apr_base64_decode_len` -/
def decoded (self : Env) (encoded : Str) : List UInt8 :=
  let octets := base64Decode (codesOf encoded)
  (range (base64DecodeLen (codesOf encoded))).map fun i =>
    ((octets ++ [0])[i]?).getD (self.memory i)

def timestampOf (self : Env) (value : Str) : Except Fault Int :=
  match mimeDecode self.locals value with
  | some time => .ok time
  | none => .error .pointer

end Env

/-! ## Elements -/

def present (value : Str) : Option Str := if value.isEmpty then none else some value

/-- `ipr_xml_find_item` for the name of a child -/
def findItem (name : String) (x : Xml) : Option Xml :=
  x.children.find? fun child =>
    match child with
    | .item childName _ _ => childName == name.toList
    | .text _ => false

/-- `ipr_xml_text`: null when there is none. -/
def textOf (x : Xml) : Option Str :=
  present (x.children.flatMap fun child =>
    match child with
    | .item .. => []
    | .text value => value)

/-! ## Messages -/

/-- The part of a content that its element decides on -/
structure Part where
  contentType : Str
  contentEncoding : Str
  body : List UInt8
deriving DecidableEq

/-- `amq_content_basic_new` -/
def Part.new : Part := ⟨[], [], []⟩

/-- `amq_content_basic_t`, as it goes to the backend with this address and feed -/
structure Published where
  address : Str
  feed : Str
  part : Part
  deliveryMode : Int
  priority : Int
  timestamp : Int
  /-- The values of `messageProperties` -/
  properties : List Str
  /-- The list that is flattened into the headers -/
  headers : List Field
deriving DecidableEq

def messageProperties : List String :=
  ["correlation_id", "reply_to", "expiration", "message_id", "type", "user_id", "app_id",
    "sender_id"]

/-- `ipr_xml_attr_get` -/
def attrOf (x : Xml) (name : String) (default : String) : Str :=
  (x.attrs.get name.toList).getD default.toList

def isElement (name : String) : Xml → Bool
  | .item itemName _ _ => itemName == name.toList
  | .text _ => false

def partOfResource (env : Env) (x : Content) : Except Fault Part :=
  match x.bucket with
  | none => .error .pointer
  | some octets => do
    let contentType ← env.print x.type
    return ⟨contentType, [], octets⟩

def bodyOf (env : Env) (value : Str) : (encoding : Option Str) → Except Fault (List UInt8 × Str)
  | none => .ok (stringOctets value, [])
  | some encoding =>
    if encoding = "base64".toList then .ok (env.decoded (trim value), [])
    else (env.print encoding).map fun encoding => (stringOctets value, encoding)

def contentTypeOf (env : Env) : (type : Option Str) → Except Fault Str
  | none => .ok []
  | some type => env.print type

/-- The content of a message is the text of its element. -/
def partOfElement (env : Env) (element : Xml) : Except Fault Part :=
  match textOf element with
  -- the length of a text that is not there
  | none => .error .pointer
  | some value => do
    let (body, contentEncoding) ← bodyOf env value (element.attrs.get "encoding".toList)
    let contentType ← contentTypeOf env (element.attrs.get "type".toList)
    return ⟨contentType, contentEncoding, body⟩

/-- The name and the value of a header that has both -/
def headerOf : Xml → Option (Str × Str)
  | .item itemName attrs _ =>
    if itemName = "header".toList then
      (attrs.get "name".toList).bind fun name =>
        (attrs.get "value".toList).map fun value => (name, value)
    else none
  | .text _ => none

/-- `asl_field_new_string`: the terminator is part of the string. -/
def stringField (header : Str × Str) : Field := ⟨header.1, .string (stringOctets header.2 ++ [0])⟩

/-- Process message headers, from the first one on: `ipr_xml_next_item` compares the names of all
elements that follow, and a text has none. -/
def headerLoop : List Xml → Except Fault (List Field)
  | [] => .ok []
  | .text _ :: _ => .error .pointer
  | .item itemName attrs items :: following =>
    match headerOf (.item itemName attrs items) with
    | none => headerLoop following
    | some header =>
      if header.1.length ≤ aslFieldNameMax then (headerLoop following).map (stringField header :: ·)
      else .error .assertion

def headersOf (message : Xml) : Except Fault (List Field) :=
  headerLoop (message.children.dropWhile fun child => !isElement "header" child)

/-- The default feed is the exchange without a name. -/
def backendName (name : Str) : Str := if name = "default".toList then [] else name

/-- The properties and the headers of a message go with its content. -/
def publish (env : Env) (feedName : Str) (message : Xml) (part : Part) :
    Except Fault Published := do
  let properties ← messageProperties.mapM fun name => env.print (attrOf message name "")
  let timestamp ← env.timestampOf (attrOf message "timestamp" "")
  let headers ← headersOf message
  return {
    address := attrOf message "address" ""
    feed := backendName feedName
    part, properties, headers
    deliveryMode := Password.atoi (attrOf message "delivery_mode" "0") % 256
    priority := Password.atoi (attrOf message "priority" "") % 256
    timestamp }

end OpenAmq.Zyre
