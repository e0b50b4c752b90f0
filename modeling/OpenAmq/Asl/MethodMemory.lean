import OpenAmq.Asl.Reading

/-!
# The memory of a method that is being decoded

`method_decode` takes a method object from a cache, which does not clear it, and sets the
members of the payload one by one. At its exit for errors the object is destroyed, and with
it every long string and table that the method has by the grammar. Here a member is nothing
until it is set, and the strings are logged that are allocated, and that are destroyed.

* `decodeAt_eq_decode` — apart from the memory this is `decode`
* `decodeAt_safe_iff` — for which octets exactly the allocated strings are destroyed
-/

namespace OpenAmq

open List

/-! ## The method object -/

/-- The members of the payload. Nothing stands for what the method object held before. -/
def Members : List Grammar.Field → Type
  | [] => Unit
  | field :: fields => Option field.type.Value × Members fields

namespace Members

def unset : (fields : List Grammar.Field) → Members fields
  | [] => ()
  | _ :: fields => (none, unset fields)

/-- All members are set. -/
def ofPayload : {fields : List Grammar.Field} → Payload fields → Members fields
  | [], _ => ()
  | _ :: _, (host, payload) => (some host, ofPayload payload)

end Members

/-- The string that `GET_LSTR` allocates. -/
def DataType.strings : (type : DataType) → type.Value → List Longstr
  | longstr, (host : Option Longstr) => host.toList
  | table, (host : Option Longstr) => host.toList
  | _, _ => []

/-- `icl_longstr_destroy` for a member. Nothing is a pointer that was left in the object. -/
def DataType.destroy : (type : DataType) → Option type.Value → List (Option Longstr)
  | longstr, some (host : Option Longstr) => host.toList.map some
  | longstr, none => [none]
  | table, some (host : Option Longstr) => host.toList.map some
  | table, none => [none]
  | _, _ => []

/-- The branch of the destructor for a method: all its long strings and tables. -/
def destroyMembers : {fields : List Grammar.Field} → Members fields → List (Option Longstr)
  | [], _ => []
  | ⟨_, .bit, _⟩ :: _, (_, members) => destroyMembers members
  | ⟨_, .data type, _⟩ :: _, (member, members) => type.destroy member ++ destroyMembers members

/-- The destructor while no member is set. It finds the method by the indices. -/
def destroyUnset (protocol : Protocol) (classId methodId : Nat) : List (Option Longstr) :=
  match protocol.find classId methodId with
  | none => []
  | some r => destroyMembers (Members.unset r.1.2.fields)

/-! ## Decoding -/

/-- How far the fields have been decoded, and the strings that were allocated for them. -/
inductive FieldsRead (fields : List Grammar.Field) where
  | underflow (members : Members fields) (allocated : List Longstr)
  | finished (payload : Payload fields) (net : Nat) (allocated : List Longstr)

def FieldsRead.set {field : Grammar.Field} {fields : List Grammar.Field} (host : field.type.Value)
    (strings : List Longstr) : FieldsRead fields → FieldsRead (field :: fields)
  | underflow members allocated => underflow (some host, members) (strings ++ allocated)
  | finished payload net allocated => finished (host, payload) net (strings ++ allocated)

/-- The fields from `net` on, when `bitCount` bits of `bitString` have been used. -/
def decodeFieldsAt (bucket : List UInt8) (dataLimit : Nat) :
    (fields : List Grammar.Field) → (bitCount : Nat) → (bitString : UInt8) → (net : Nat) →
      Except Violation (FieldsRead fields)
  | [], _, _, net => .ok (.finished () net [])
  | ⟨name, .bit, asserts⟩ :: fields, bitCount, bitString, net =>
    if bitCount = 0 then do
      match ← DataType.octet.getAt bucket dataLimit net with
      | none => return .underflow (.unset (⟨name, .bit, asserts⟩ :: fields)) []
      | some (octet, net) =>
        let r ← decodeFieldsAt bucket dataLimit fields 1 octet net
        return r.set (bitAt octet 0) []
    else do
      let r ← decodeFieldsAt bucket dataLimit fields (if bitCount + 1 = 8 then 0 else bitCount + 1)
        bitString net
      return r.set (bitAt bitString bitCount) []
  | ⟨name, .data type, asserts⟩ :: fields, _, bitString, net => do
    match ← type.getAt bucket dataLimit net with
    | none => return .underflow (.unset (⟨name, .data type, asserts⟩ :: fields)) []
    | some (host, net) =>
      let r ← decodeFieldsAt bucket dataLimit fields 0 bitString net
      return r.set host (type.strings host)

/-- The text at `underflow`, where the method may have no name yet. -/
def malformedFrame (name : Option Str) : Str :=
  "malformed frame for '".toList ++ name.getD "(null)".toList ++ "' method".toList

/-- What `method_decode` returns. -/
inductive Decoded (protocol : Protocol) where
  | method (self : MethodObject protocol) (net : Nat)
  /-- Null, with the strings that have been allocated and those that have been destroyed. -/
  | null (strerror : Str) (allocated : List Longstr) (destroyed : List (Option Longstr))

/-- `method_decode` -/
def decodeAt (protocol : Protocol) (regexpMatch : Str → List UInt8 → Bool)
    (bucket : List UInt8) : Except Violation (Decoded protocol) := do
  let dataLimit := bucket.length
  match ← getWordAt bucket dataLimit 2 0 with
  | none => return .null (malformedFrame none) [] (destroyUnset protocol 0 0)
  | some (classId, net) =>
    match ← getWordAt bucket dataLimit 2 net with
    | none => return .null (malformedFrame none) [] (destroyUnset protocol classId 0)
    | some (methodId, net) =>
      match protocol.find classId methodId with
      | none => return .method (.unknown classId methodId) net
      | some r =>
        let c := r.1.1
        let m := r.1.2
        let name := c.name ++ ".".toList ++ m.name
        match ← decodeFieldsAt bucket dataLimit m.fields 0 0 net with
        | .underflow members allocated =>
          return .null (malformedFrame (some name)) allocated (destroyMembers members)
        | .finished payload net allocated =>
          match checkFields regexpMatch m.fields payload with
          | some strerror =>
            return .null (name ++ ": ".toList ++ strerror) allocated
              (destroyMembers (.ofPayload payload))
          | none => return .method (.known c r.2.1 m r.2.2 payload) net

/-! ## The fields -/

/-- The octets hold the fields up to the last long string or table, none of negative count. -/
def HoldsStrings : (fields : List Grammar.Field) → (bitCount : Nat) → (net : List UInt8) → Prop
  | [], _, _ => True
  | ⟨_, .bit, _⟩ :: fields, bitCount, net =>
    longFields fields = 0 ∨
      if bitCount = 0 then ∃ octet rest, net = octet :: rest ∧ HoldsStrings fields 1 rest
      else HoldsStrings fields (if bitCount + 1 = 8 then 0 else bitCount + 1) net
  | ⟨_, .data type, _⟩ :: fields, _, net =>
    type.isLong.toNat + longFields fields = 0 ∨
      ∃ octets rest, net = octets ++ rest ∧ type.Occupies octets ∧ HoldsStrings fields 0 rest

variable {fields : List Grammar.Field} {net bucket : List UInt8} {dataLimit classId : Nat}
  (protocol : Protocol)

theorem holdsStrings_of_longFields (h : longFields fields = 0) (bitCount : Nat) (net : List UInt8) :
    HoldsStrings fields bitCount net := by
  cases fields with
  | nil => trivial
  | cons field fields =>
    obtain ⟨name, type, asserts⟩ := field
    cases type with
    | bit | data type => exact .inl h

theorem holdsStrings_of_get {type : DataType} {rest : List UInt8} {host : type.Value}
    (h : type.get net = .ok (host, rest)) (name : Str) (asserts : List FieldAssert)
    (fields : List Grammar.Field) (bitCount : Nat) :
    HoldsStrings (⟨name, .data type, asserts⟩ :: fields) bitCount net ↔
      HoldsStrings fields 0 rest := by
  constructor
  · rintro (hl | ⟨octets, tail, rfl, ho, hs⟩)
    · exact holdsStrings_of_longFields (Nat.add_eq_zero_iff.mp hl).2 0 rest
    · obtain ⟨host', hg⟩ := ho.get tail
      rw [hg] at h
      cases h
      exact hs
  · intro hs
    obtain ⟨octets, rfl, ho⟩ := DataType.occupies_of_get h
    exact .inr ⟨octets, rest, rfl, ho, hs⟩

theorem holdsStrings_of_get_error {type : DataType} {e : GetError} (h : type.get net = .error e)
    (name : Str) (asserts : List FieldAssert) (fields : List Grammar.Field) (bitCount : Nat) :
    HoldsStrings (⟨name, .data type, asserts⟩ :: fields) bitCount net ↔
      type.isLong.toNat + longFields fields = 0 := by
  constructor
  · rintro (hl | ⟨octets, tail, rfl, ho, hs⟩)
    · exact hl
    · obtain ⟨host, hg⟩ := ho.get tail
      rw [hg] at h
      cases h
  · exact .inl

theorem destroyMembers_unset (fields : List Grammar.Field) :
    destroyMembers (Members.unset fields) = replicate (longFields fields) none := by
  induction fields with
  | nil => rfl
  | cons field fields ih =>
    obtain ⟨name, type, asserts⟩ := field
    cases type with
    | bit => exact ih
    | data type =>
      show type.destroy none ++ destroyMembers (Members.unset fields) = _
      rw [ih, longFields, replicate_add]
      cases type <;> rfl

def Payload.strings : {fields : List Grammar.Field} → Payload fields → List Longstr
  | [], _ => []
  | ⟨_, .bit, _⟩ :: _, (_, payload) => payload.strings
  | ⟨_, .data type, _⟩ :: _, (host, payload) => type.strings host ++ payload.strings

theorem DataType.destroy_some (type : DataType) (host : type.Value) :
    type.destroy (some host) = (type.strings host).map some := by
  cases type <;> rfl

theorem destroyMembers_ofPayload (payload : Payload fields) :
    destroyMembers (Members.ofPayload payload) = payload.strings.map some := by
  induction fields with
  | nil => rfl
  | cons field fields ih =>
    obtain ⟨name, type, asserts⟩ := field
    obtain ⟨host, payload⟩ := payload
    cases type with
    | bit => exact ih payload
    | data type =>
      have hd : type.destroy (some host) = (type.strings host).map some := type.destroy_some host
      show type.destroy (some host) ++ destroyMembers (Members.ofPayload payload) =
        (type.strings host ++ payload.strings).map some
      rw [hd, ih, map_append]

/-- The decoder of the fields beside the one that works on octets. -/
def FieldsAgree {fields : List Grammar.Field} (dataLimit : Nat) (holds : Prop) :
    Except GetError (Payload fields × List UInt8) → Except Violation (FieldsRead fields) → Prop
  | .ok (payload, rest), r =>
    r = .ok (.finished payload (dataLimit - rest.length) payload.strings) ∧ holds
  | .error .underflow, r => ∃ members allocated, r = .ok (.underflow members allocated) ∧
      (destroyMembers members = allocated.map some ↔ holds)
  | .error .fault, r => r = .error .write ∧ ¬ holds

theorem FieldsAgree.unset {holds : Prop} (h : holds ↔ longFields fields = 0) :
    FieldsAgree dataLimit holds (.error .underflow)
      (.ok (.underflow (Members.unset fields) [])) := by
  refine ⟨_, _, rfl, ?_⟩
  rw [h, destroyMembers_unset, map_nil, replicate_eq_nil_iff]

theorem FieldsAgree.set {field : Grammar.Field} {holds holds' : Prop}
    {x : Except GetError (Payload fields × List UInt8)} {y : Except Violation (FieldsRead fields)}
    {host : field.type.Value} {strings : List Longstr}
    (hd : ∀ members : Members fields, @destroyMembers (field :: fields) (some host, members) =
      strings.map some ++ destroyMembers members)
    (hp : ∀ payload : Payload fields, @Payload.strings (field :: fields) (host, payload) =
      strings ++ payload.strings)
    (hh : holds' ↔ holds) (h : FieldsAgree dataLimit holds x y) :
    @FieldsAgree (field :: fields) dataLimit holds' (x.map fun r => ((host, r.1), r.2))
      (y.map fun r => r.set host strings) := by
  cases x with
  | ok r =>
    obtain ⟨rfl, hs⟩ := h
    refine ⟨?_, hh.mpr hs⟩
    rw [hp]
    rfl
  | error e =>
    cases e with
    | underflow =>
      obtain ⟨members, allocated, rfl, hiff⟩ := h
      refine ⟨_, _, rfl, ?_⟩
      rw [hd, map_append, append_cancel_left_eq, hiff, hh]
    | fault =>
      obtain ⟨rfl, hs⟩ := h
      exact ⟨rfl, fun h => hs (hh.mp h)⟩

/-- The decoder at positions reads what the one of lists reads. -/
theorem decodeFieldsAt_agrees (hl : dataLimit ≤ bucket.length) (fields : List Grammar.Field)
    (bitCount : Nat) (bitString : UInt8) {net : Nat} (hn : net ≤ dataLimit) :
    FieldsAgree dataLimit (HoldsStrings fields bitCount (window bucket dataLimit net))
      (decodeFields fields bitCount bitString (window bucket dataLimit net))
      (decodeFieldsAt bucket dataLimit fields bitCount bitString net) := by
  induction fields generalizing bitCount bitString net with
  | nil =>
    refine ⟨?_, trivial⟩
    rw [length_window hl, Nat.sub_sub_self hn]
    rfl
  | cons field fields ih =>
    obtain ⟨name, type, asserts⟩ := field
    cases type with
    | bit =>
      by_cases hb : bitCount = 0
      · -- the octet with the bits is read here
        simp only [decodeFields, decodeFieldsAt, if_pos hb, DataType.getAt_eq hl hn]
        cases hw : window bucket dataLimit net with
        | nil =>
          refine FieldsAgree.unset ⟨?_, .inl⟩
          rintro (h0 | hs)
          · exact h0
          · rw [if_pos hb] at hs
            obtain ⟨octet, rest, hnil, -⟩ := hs
            cases hnil
        | cons octet rest =>
          have hcons : window bucket dataLimit net = [octet] ++ rest := hw
          obtain ⟨hle, hpos, rfl⟩ := window_of_eq_append hl hn hcons
          rw [octet_get_cons]
          simp only [atPosition, bind, Except.bind, hpos]
          refine FieldsAgree.set (fun _ => rfl) (fun _ => rfl) ?_ (ih 1 octet hle)
          constructor
          · rintro (h0 | hs)
            · exact holdsStrings_of_longFields h0 1 _
            · rw [if_pos hb] at hs
              obtain ⟨octet', rest', heq, hs⟩ := hs
              cases heq
              exact hs
          · intro hs
            refine .inr ?_
            rw [if_pos hb]
            exact ⟨octet, _, rfl, hs⟩
      · simp only [decodeFields, decodeFieldsAt, if_neg hb]
        refine FieldsAgree.set (fun _ => rfl) (fun _ => rfl) ?_ (ih _ bitString hn)
        rw [HoldsStrings, if_neg hb]
        constructor
        · rintro (h0 | hs)
          · exact holdsStrings_of_longFields h0 _ _
          · exact hs
        · exact .inr
    | data type =>
      simp only [decodeFields, decodeFieldsAt]
      cases hg : type.get (window bucket dataLimit net) with
      | error e =>
        have hs := holdsStrings_of_get_error hg name asserts fields bitCount
        rw [DataType.getAt_of_error hl hn hg]
        cases e with
        | underflow => exact FieldsAgree.unset hs
        | fault =>
          refine ⟨rfl, ?_⟩
          rw [hs, DataType.isLong_of_get_fault hg, Bool.toNat_true]
          omega
      | ok r =>
        obtain ⟨host, rest⟩ := r
        have hs := holdsStrings_of_get hg name asserts fields bitCount
        obtain ⟨net', hat, -, hle, -, rfl⟩ := DataType.getAt_of_ok hl hn hg
        simp only [hat, bind, Except.bind]
        refine FieldsAgree.set ?_ (fun _ => rfl) hs (ih 0 bitString hle)
        intro members
        show type.destroy (some host) ++ destroyMembers members = _
        rw [DataType.destroy_some]

/-! ## Whole methods -/

theorem destroyUnset_eq_nil {protocol : Protocol} {methodId : Nat} (h : methodId = 0) :
    destroyUnset protocol classId methodId = [] := by
  unfold destroyUnset
  split
  · rfl
  · next r hfind =>
    obtain ⟨⟨c, m⟩, hc, hm⟩ := r
    have hid := (Protocol.index_of_find hfind).2
    exact absurd (hid.symm.trans h) (protocol.method_index c hc m hm).1

/-- The strings of the method that the octets are for, if they are for one of the grammar. -/
def MethodHoldsStrings (protocol : Protocol) (bucket : List UInt8) : Prop :=
  ∀ c ∈ protocol.classes, ∀ m ∈ c.methods, ∀ net,
    bucket = putShort c.index ++ (putShort m.index ++ net) → HoldsStrings m.fields 0 net

theorem getWord_putShort_append {c : Grammar.Class} (hc : c ∈ protocol.classes)
    {m : Grammar.Method} (hm : m ∈ c.methods) (net : List UInt8) :
    getWord 2 (putShort c.index ++ (putShort m.index ++ net)) =
        .ok (c.index, putShort m.index ++ net) ∧
      getWord 2 (putShort m.index ++ net) = .ok (m.index, net) :=
  ⟨getWord_putShort (protocol.class_index c hc) _,
    getWord_putShort (protocol.method_index c hc m hm) _⟩

theorem methodHoldsStrings_iff {rest : List UInt8} {methodId : Nat}
    (hclass : getWord 2 bucket = .ok (classId, rest))
    (hmethod : getWord 2 rest = .ok (methodId, net)) :
    MethodHoldsStrings protocol bucket ↔
      ∀ r, protocol.find classId methodId = some r → HoldsStrings r.1.2.fields 0 net := by
  constructor
  · rintro h ⟨⟨c, m⟩, hc, hm⟩ hfind
    obtain ⟨rfl, rfl⟩ := Protocol.index_of_find hfind
    refine h c hc m hm net ?_
    rw [(getWord_eq_ok hclass).2, (getWord_eq_ok hmethod).2]
    rfl
  · rintro h c hc m hm net' rfl
    obtain ⟨h1, h2⟩ := getWord_putShort_append protocol hc hm net'
    rw [h1] at hclass
    cases hclass
    rw [h2] at hmethod
    cases hmethod
    exact h _ (protocol.find_index hc hm)

theorem methodHoldsStrings_of_short {protocol : Protocol}
    (h : ∀ classId rest methodId net, getWord 2 bucket = .ok (classId, rest) →
      getWord 2 rest ≠ .ok (methodId, net)) :
    MethodHoldsStrings protocol bucket := by
  rintro c hc m hm net rfl
  obtain ⟨h1, h2⟩ := getWord_putShort_append protocol hc hm net
  exact absurd h2 (h _ _ _ _ h1)

/-- The decoder with its memory beside the one that works on octets. -/
def DecodeAgrees {protocol : Protocol} (dataLimit : Nat) (holds : Prop) :
    Except DecodeError (MethodObject protocol × List UInt8) →
      Except Violation (Decoded protocol) → Prop
  | .ok (self, rest), r => r = .ok (.method self (dataLimit - rest.length)) ∧ holds
  | .error (.rejected strerror), r => ∃ allocated destroyed,
      r = .ok (.null strerror allocated destroyed) ∧ (destroyed = allocated.map some ↔ holds)
  | .error .fault, r => r = .error .write ∧ ¬ holds

theorem DecodeAgrees.short {protocol : Protocol} {strerror : Str}
    (h : ∀ classId rest methodId net, getWord 2 bucket = .ok (classId, rest) →
      getWord 2 rest ≠ .ok (methodId, net))
    :
    @DecodeAgrees protocol bucket.length (MethodHoldsStrings protocol bucket)
      (.error (.rejected strerror))
        (.ok (.null strerror [] (destroyUnset protocol classId 0))) := by
  refine ⟨_, _, rfl, ?_⟩
  rw [destroyUnset_eq_nil rfl]
  exact ⟨fun _ => methodHoldsStrings_of_short h, fun _ => rfl⟩

/-- Both decoders return the same, also for what they refuse. -/
theorem decodeAt_agrees (regexpMatch : Str → List UInt8 → Bool) (bucket : List UInt8) :
    DecodeAgrees bucket.length (MethodHoldsStrings protocol bucket)
      (decode protocol regexpMatch bucket) (decodeAt protocol regexpMatch bucket) := by
  have hall : window bucket bucket.length 0 = bucket := take_length
  have hl := Nat.le_refl bucket.length
  rw [decode, decodeAt]
  rcases hall ▸ getWordAt_cases hl (Nat.zero_le _) 2 with
    ⟨hclass, hat⟩ | ⟨classId, hle, hclass, hat⟩
  · rw [hclass, hat]
    refine .short fun classId rest methodId net h => ?_
    rw [hclass] at h
    cases h
  simp only [hclass, hat, bind, Except.bind]
  rcases getWordAt_cases hl hle 2 with ⟨hmethod, hat⟩ | ⟨methodId, hle', hmethod, hat⟩
  · rw [hmethod, hat]
    refine .short fun classId' rest methodId net h h' => ?_
    rw [hclass] at h
    cases h
    rw [hmethod] at h'
    cases h'
  simp only [hmethod, hat]
  have hholds := methodHoldsStrings_iff protocol hclass hmethod
  cases hfind : protocol.find classId methodId with
  | none =>
    refine ⟨?_, ?_⟩
    · rw [length_window hl, Nat.sub_sub_self hle']
      rfl
    · rw [hholds, hfind]
      intro r hr
      cases hr
  | some r =>
    obtain ⟨⟨c, m⟩, hc, hm⟩ := r
    have hiff : MethodHoldsStrings protocol bucket ↔
        HoldsStrings m.fields 0 (window bucket bucket.length (0 + 2 + 2)) := by
      rw [hholds, hfind]
      exact ⟨fun h => h _ rfl, fun h r hr => by cases hr; exact h⟩
    have hfields := decodeFieldsAt_agrees hl m.fields 0 0 hle'
    rw [← hiff] at hfields
    simp only
    cases hd : decodeFields m.fields 0 0 (window bucket bucket.length (0 + 2 + 2)) with
    | error e =>
      rw [hd] at hfields
      cases e with
      | underflow =>
        obtain ⟨members, allocated, hr, hiff⟩ := hfields
        rw [hr]
        exact ⟨_, _, rfl, hiff⟩
      | fault =>
        obtain ⟨hr, hnot⟩ := hfields
        rw [hr]
        exact ⟨rfl, hnot⟩
    | ok r =>
      obtain ⟨payload, rest'⟩ := r
      rw [hd] at hfields
      obtain ⟨hr, hs⟩ := hfields
      rw [hr]
      simp only
      cases hcheck : checkFields regexpMatch m.fields payload with
      | none => exact ⟨rfl, hs⟩
      | some strerror =>
        refine ⟨_, _, rfl, ?_⟩
        rw [destroyMembers_ofPayload]
        exact ⟨fun _ => hs, fun _ => rfl⟩

/-- The same methods are returned, and null with the same texts. -/
theorem decodeAt_eq_decode (regexpMatch : Str → List UInt8 → Bool) (bucket : List UInt8) :
    (∀ self net, decodeAt protocol regexpMatch bucket = .ok (.method self net) ↔
      ∃ rest, net = bucket.length - rest.length ∧
        decode protocol regexpMatch bucket = .ok (self, rest)) ∧
    (∀ strerror, (∃ allocated destroyed,
      decodeAt protocol regexpMatch bucket = .ok (.null strerror allocated destroyed)) ↔
        decode protocol regexpMatch bucket = .error (.rejected strerror)) := by
  have h := decodeAt_agrees protocol regexpMatch bucket
  cases hd : decode protocol regexpMatch bucket with
  | ok r =>
    obtain ⟨self, rest⟩ := r
    rw [hd] at h
    rw [h.1]
    refine ⟨fun self' net => ⟨?_, ?_⟩, fun strerror => ⟨?_, nofun⟩⟩
    · rintro ⟨rfl, rfl⟩
      exact ⟨rest, rfl, rfl⟩
    · rintro ⟨rest', rfl, ⟨rfl, rfl⟩⟩
      rfl
    · rintro ⟨_, _, h⟩
      cases h
  | error e =>
    rw [hd] at h
    cases e with
    | rejected strerror =>
      obtain ⟨allocated, destroyed, hr, -⟩ := h
      rw [hr]
      refine ⟨fun self net => ⟨nofun, nofun⟩, fun strerror' => ⟨?_, ?_⟩⟩
      · rintro ⟨_, _, h⟩
        cases h
        rfl
      · rintro ⟨rfl⟩
        exact ⟨allocated, destroyed, rfl⟩
    | fault =>
      rw [h.1]
      refine ⟨fun self net => ⟨nofun, nofun⟩, fun strerror' => ⟨?_, nofun⟩⟩
      rintro ⟨_, _, h⟩
      cases h

/--
The decoder reads inside the bucket and returns a method, or null after it has destroyed the
strings that it allocated and nothing else.
-/
def DecodedSafely (protocol : Protocol) (regexpMatch : Str → List UInt8 → Bool)
    (bucket : List UInt8) : Prop :=
  (∃ self net, decodeAt protocol regexpMatch bucket = .ok (.method self net)) ∨
    ∃ strerror allocated,
      decodeAt protocol regexpMatch bucket = .ok (.null strerror allocated (allocated.map some))

/-- Decoding is safe when the octets hold all long strings of the method, and only then. -/
theorem decodeAt_safe_iff (protocol : Protocol) (regexpMatch : Str → List UInt8 → Bool)
    (bucket : List UInt8) :
    DecodedSafely protocol regexpMatch bucket ↔ MethodHoldsStrings protocol bucket := by
  have h := decodeAt_agrees protocol regexpMatch bucket
  cases hd : decode protocol regexpMatch bucket with
  | ok r =>
    rw [hd] at h
    exact ⟨fun _ => h.2, fun _ => .inl ⟨_, _, h.1⟩⟩
  | error e =>
    rw [hd] at h
    cases e with
    | rejected strerror =>
      obtain ⟨allocated, destroyed, hr, hiff⟩ := h
      rw [← hiff, DecodedSafely, hr]
      constructor
      · rintro (⟨_, _, h⟩ | ⟨_, _, h⟩)
        · cases h
        · cases h
          rfl
      · rintro rfl
        exact .inr ⟨_, _, rfl⟩
    | fault =>
      refine ⟨?_, fun hs => absurd hs h.2⟩
      rw [DecodedSafely, h.1]
      rintro (⟨_, _, h⟩ | ⟨_, _, h⟩) <;> cases h

/-- `connection.start-ok` -/
def connectionStartOk : Grammar.Method :=
  ⟨"start_ok".toList, 11, true, [⟨"client_properties".toList, .data .table, []⟩,
     ⟨"mechanism".toList, .data .shortstr, [.notnull]⟩,
     ⟨"response".toList, .data .longstr, [.notnull]⟩,
     ⟨"locale".toList, .data .shortstr, [.notnull]⟩]⟩

/-- A protocol with the first method that a client sends. -/
def connectionProtocol : Protocol where
  classes := [⟨"connection".toList, 10, [connectionStartOk]⟩]
  classes_nodup := by decide
  methods_nodup := by decide
  class_index := by
    intro c hc
    cases mem_singleton.mp hc
    exact ⟨by decide, by decide⟩
  method_index := by
    intro c hc m hm
    cases mem_singleton.mp hc
    cases mem_singleton.mp hm
    exact ⟨by decide, by decide⟩

/-- Behind the indices the frame ends, and two pointers that nobody set are freed. -/
theorem connectionStartOk_unsafe : decodeAt connectionProtocol (fun _ _ => true) [0, 10, 0, 11] =
        .ok (.null "malformed frame for 'connection.start_ok' method".toList [] [none, none]) ∧
      ¬ DecodedSafely connectionProtocol (fun _ _ => true) [0, 10, 0, 11] := by
  have h : decodeAt connectionProtocol (fun _ _ => true) [0, 10, 0, 11] =
      .ok (.null "malformed frame for 'connection.start_ok' method".toList [] [none, none]) := rfl
  refine ⟨h, ?_⟩
  rintro (⟨_, _, h⟩ | ⟨_, _, h⟩) <;> cases h

end OpenAmq
