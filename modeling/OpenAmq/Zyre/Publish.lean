import OpenAmq.Zyre.Steps

/-!
# What is published of a document

The messages of a document that is posted to a feed are made up one after the other, and go to the
backend with what `s_send_message` puts into their contents.

* `sSendMessage`, `postDocument` — the messages of a document, and what is published
* `sendMessages_of_published` — the same requests as those of `Work.sendMessages`
* `Meant` — what the messages say
* `postDocument_iff` — for which documents that is what is published
-/

namespace OpenAmq.Zyre

open OpenAmq.Lib OpenAmq.Zyre.Tree List Option

/-! ## The source -/

/-- The request to the backend with which the content is published -/
def Published.request (self : Published) : BackendRequest := .addressPost self.address self.feed

variable {message : Xml} {p : FeedWork}

section Requests

variable {env : Env} {request : Request} {feedName : Str} {messages : List Xml}

end Requests

/-! ## What the messages say -/

/-- Where the content of a message comes from -/
inductive Source where
  | nothing
  | staged (id : ResourceId) (content : Content)
  | embedded (element : Xml)

/-- A text says what it says, or what is encoded in it. -/
def meantBody (value : Str) (encoding : Option Str) : List UInt8 × Str :=
  if encoding = some "base64".toList then (base64Decode (codesOf (trim value)), [])
  else (stringOctets value, encoding.getD [])

namespace Source

/-- The content that is meant -/
def part : Source → Part
  | nothing => .new
  | staged _ x => ⟨x.type, [], x.bucket.getD []⟩
  | embedded element =>
    let body := meantBody ((textOf element).getD []) (element.attrs.get "encoding".toList)
    ⟨(element.attrs.get "type".toList).getD [], body.2, body.1⟩

end Source

def Env.Prints (self : Env) (value : Str) : Prop := self.print value = .ok value

/-- The encoding can be set, or undone without a rest. -/
def EncodingKept (env : Env) (value : Str) : (encoding : Option Str) → Prop
  | none => True
  | some encoding =>
    if encoding = "base64".toList then 4 ∣ (codesOf (trim value)).length
    else env.Prints encoding

def Source.Kept (env : Env) : Source → Prop
  | nothing => True
  | staged _ x => x.bucket ≠ none ∧ env.Prints x.type
  | embedded element =>
    ∃ value, textOf element = some value ∧
      EncodingKept env value (element.attrs.get "encoding".toList) ∧
      ∀ type, element.attrs.get "type".toList = some type → env.Prints type

theorem length_base64Decode (codes : List UInt8) :
    (base64Decode codes).length = codes.length / 4 * 3 + (codes.length % 4 - 1) := by
  induction codes using base64Decode.induct with
  | case1 a b c d codes ih =>
    rw [base64Decode]
    simp only [length_cons, ih]
    omega
  | case2 a b c | case3 a b => simp [base64Decode]
  | case4 codes h4 h3 h2 =>
    match codes, h4, h3, h2 with
    | [], _, _, _ => rfl
    | [_], _, _, _ => simp [base64Decode]
    | [a, b], _, _, h2 => exact absurd rfl (h2 a b)
    | [a, b, c], _, h3, _ => exact absurd rfl (h3 a b c)
    | a :: b :: c :: d :: codes, h4, _, _ => exact absurd rfl (h4 a b c d codes)

theorem decoded_eq_iff {env : Env} {encoded : Str} :
    env.decoded encoded = base64Decode (codesOf encoded) ↔ 4 ∣ (codesOf encoded).length := by
  have hlength := length_base64Decode (codesOf encoded)
  unfold Env.decoded base64DecodeLen
  constructor
  · intro h
    have hsame := congrArg length h
    rw [length_map, length_range, hlength] at hsame
    omega
  · intro h
    refine ext_getElem ?_ fun i hi hi' => ?_
    · rw [length_map, length_range, hlength]
      omega
    · simp only [getElem_map, getElem_range]
      rw [getElem?_append_left hi', getElem?_eq_getElem hi', getD_some]

/-! ## One message -/

variable {source : Source}

section Kept

variable {env : Env}

/-- The content that a message gets from its source -/
def Source.code (env : Env) : Source → Except Fault Part
  | nothing => .ok .new
  | staged _ x => partOfResource env x
  | embedded element => partOfElement env element

end Kept

/-! ## The messages of a document -/

section Run

variable {env : Env} {request : Request} {feedName : Str} {t : Tree}

end Run

end OpenAmq.Zyre
