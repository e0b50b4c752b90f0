import OpenAmq.Asl.Grammar

/-!
# The size of an encoded method

`method_size` and the encoder go over the same fields but are written apart. Here both are
compared with the size that the grammar gives an encoding (`encodingSize`): the encoder
writes just as much (`length_encodeOctets`), the size that is asked for falls short by two
octets for every long string and table (`methodSize_add`).
-/

namespace OpenAmq

open List

/-! ## The size by the grammar -/

/-- A long string or a table. -/
def DataType.isLong : DataType → Bool
  | longstr => true
  | table => true
  | _ => false

/-- The octets of a field: numbers by their width, strings with their count before them. -/
def DataType.wireSize : (type : DataType) → type.Value → Nat
  | char, _ => 1
  | octet, _ => 1
  | short, _ => 2
  | long, _ => 4
  | longlong, _ => 8
  | timestamp, _ => 8
  | shortstr, (host : ShortText) => 1 + host.octets.length
  | longstr, (host : Option Longstr) => 4 + (host.map length).getD 0
  | table, (host : Option Longstr) => 4 + (host.map length).getD 0

/-- The octets of the fields; bits that follow each other share octets. -/
def wireSizeFields : (fields : List Grammar.Field) → Payload fields → (bits : Nat) → Nat
  | [], _, bits => (bits + 7) / 8
  | ⟨_, .bit, _⟩ :: fields, (_, payload), bits => wireSizeFields fields payload (bits + 1)
  | ⟨_, .data type, _⟩ :: fields, (host, payload), bits =>
    (bits + 7) / 8 + (type.wireSize host + wireSizeFields fields payload 0)

def encodingSize (c : Grammar.Class) (m : Grammar.Method) (payload : Payload m.fields) : Nat :=
  wireSizeFields (globalFields ++ m.fields) (allPayload c.index m.index payload) 0

def longFields : List Grammar.Field → Nat
  | [] => 0
  | ⟨_, .bit, _⟩ :: fields => longFields fields
  | ⟨_, .data type, _⟩ :: fields => type.isLong.toNat + longFields fields

variable (fields : List Grammar.Field) {bitCount : Nat}

variable (payload : Payload fields)

theorem wireSizeFields_add_eight (bits : Nat) :
    wireSizeFields fields payload (bits + 8) = 1 + wireSizeFields fields payload bits := by
  induction fields generalizing bits with
  | nil =>
    simp only [wireSizeFields]
    omega
  | cons field fields ih =>
    obtain ⟨name, type, asserts⟩ := field
    obtain ⟨host, payload⟩ := payload
    cases type with
    | bit =>
      exact ih payload (bits + 1)
    | data type =>
      simp only [wireSizeFields]
      omega

/-! ## The encoder -/

@[simp] theorem length_putShort (host : Nat) : (putShort host).length = 2 :=
  Lib.length_bigEndian 2 _

@[simp] theorem length_putLlong (host : Int64) : (putLlong host).length = 8 :=
  Lib.length_bigEndian 8 _

theorem length_putLstr (host : Option Longstr) :
    (putLstr host).length = 4 + (host.map length).getD 0 := by
  cases host with
  | none => exact length_putLong 0
  | some data =>
    rw [putLstr, length_append, length_putLong]
    rfl

theorem DataType.length_put (type : DataType) (host : type.Value) :
    (type.put host).length = type.wireSize host := by
  cases type with
  | char | octet => rfl
  | short => exact length_putShort _
  | long => exact length_putLong _
  | longlong | timestamp => exact length_putLlong host
  | shortstr =>
    exact Nat.add_comm _ 1
  | longstr | table => exact length_putLstr host

theorem length_flushBits (bitString : UInt8) (h : bitCount < 8) :
    (flushBits bitCount bitString).length = (bitCount + 7) / 8 := by
  unfold flushBits
  split
  · rw [length_singleton]
    omega
  · rw [length_nil]
    omega

theorem length_encodeFields (bitString : UInt8) (h : bitCount < 8) :
    (encodeFields fields payload bitCount bitString).length =
      wireSizeFields fields payload bitCount := by
  induction fields generalizing bitCount bitString with
  | nil => exact length_flushBits bitString h
  | cons field fields ih =>
    obtain ⟨name, type, asserts⟩ := field
    obtain ⟨host, payload⟩ := payload
    cases type with
    | bit =>
      simp only [encodeFields, wireSizeFields]
      split
      · next h8 =>
        have hw := wireSizeFields_add_eight fields payload 0
        rw [length_cons, ih payload 0 (by decide), h8]
        rw [hw, Nat.add_comm]
      · next h8 => exact ih payload _ (by omega)
    | data type =>
      have hput := type.length_put host
      simp only [encodeFields, wireSizeFields, length_append]
      rw [length_flushBits bitString h, ih payload 0 (by decide), hput]

theorem length_encodeOctets (c : Grammar.Class) (m : Grammar.Method) (payload : Payload m.fields) :
    (encodeOctets c m payload).length = encodingSize c m payload := by
  have hg : encodingSize c m payload = 2 + (2 + wireSizeFields m.fields payload 0) := by
    show (0 + 7) / 8 + (2 + ((0 + 7) / 8 + (2 + wireSizeFields m.fields payload 0))) = _
    omega
  rw [hg, encodeOctets, length_append, length_append, length_putShort, length_putShort,
    length_encodeFields m.fields payload 0 (by decide)]

/-! ## The size that is asked for -/

theorem DataType.methodSize_add (type : DataType) (host : type.Value) :
    type.methodSize host + 2 * type.isLong.toNat = type.wireSize host := by
  cases type with
  | longstr | table =>
    simp only [methodSize, wireSize, isLong, Bool.toNat_true]
    omega
  | _ => rfl

theorem methodSizeFields_add (h : bitCount < 8) :
    methodSizeFields fields payload bitCount + 2 * longFields fields =
      wireSizeFields fields payload bitCount := by
  induction fields generalizing bitCount with
  | nil =>
    simp only [methodSizeFields, longFields, wireSizeFields]
    split <;> omega
  | cons field fields ih =>
    obtain ⟨name, type, asserts⟩ := field
    obtain ⟨host, payload⟩ := payload
    cases type with
    | bit =>
      simp only [methodSizeFields, longFields, wireSizeFields]
      split
      · next h8 =>
        have hw := wireSizeFields_add_eight fields payload 0
        have := ih payload (by decide : 0 < 8)
        rw [h8, hw]
        omega
      · next h8 => exact ih payload (by omega)
    | data type =>
      have h1 := type.methodSize_add host
      have h2 := ih payload (by decide : 0 < 8)
      simp only [methodSizeFields, longFields, wireSizeFields]
      split <;> omega

theorem methodSize_add (c : Grammar.Class) (m : Grammar.Method) (payload : Payload m.fields) :
    methodSize c m payload + 2 * longFields m.fields = encodingSize c m payload + 1 := by
  have h := methodSizeFields_add (globalFields ++ m.fields)
    (allPayload c.index m.index payload) (by decide : 0 < 8)
  have hl : longFields (globalFields ++ m.fields) = 0 + (0 + longFields m.fields) := rfl
  unfold methodSize encodingSize
  omega

theorem longFields_eq_zero {fields : List Grammar.Field} :
    longFields fields = 0 ↔ ∀ field ∈ fields, ∀ type, field.type = .data type → ¬ type.isLong := by
  induction fields with
  | nil => exact ⟨fun _ field h => absurd h not_mem_nil, fun _ => rfl⟩
  | cons field fields ih =>
    obtain ⟨name, type, asserts⟩ := field
    rw [forall_mem_cons, ← ih]
    cases type with
    | bit => exact ⟨fun h => ⟨nofun, h⟩, fun h => h.2⟩
    | data type =>
      simp only [longFields, Nat.add_eq_zero_iff, Bool.toNat_eq_zero, FieldType.data.injEq,
        forall_eq', Bool.not_eq_true]

theorem encodeOctets_fits_iff (c : Grammar.Class) (m : Grammar.Method)
    (payload : Payload m.fields) :
    (encodeOctets c m payload).length ≤ methodSize c m payload ↔
      ∀ field ∈ m.fields, ∀ type, field.type = .data type → ¬ type.isLong := by
  have hlen := length_encodeOctets c m payload
  have hsize := methodSize_add c m payload
  rw [← longFields_eq_zero]
  omega

/--
What the encoder writes is what the grammar describes, so that of no method the bucket ends
in the frame-end octet that is asked for. What is asked for is exceeded just when a field is
a long string or a table.
-/
theorem encodeOctets_never_frameEnd (c : Grammar.Class) (m : Grammar.Method)
    (payload : Payload m.fields) :
    ¬ ((encodeOctets c m payload).length ≤ methodSize c m payload ∧
        (encodeOctets c m payload).length = encodingSize c m payload + 1) ∧
      (encodeOctets c m payload).length = encodingSize c m payload ∧
      ((encodeOctets c m payload).length ≤ methodSize c m payload ↔
        ∀ field ∈ m.fields, ∀ type, field.type = .data type → ¬ type.isLong) := by
  have hlen := length_encodeOctets c m payload
  refine ⟨?_, hlen, encodeOctets_fits_iff c m payload⟩
  rintro ⟨-, hend⟩
  omega

/-- `channel.open-ok` -/
def channelOpenOk : Grammar.Method :=
  ⟨"open_ok".toList, 11, true, [⟨"channel_id".toList, .data .longstr, []⟩]⟩

/-- `channel`, of which the methods for opening and flow are given. -/
def channelClass : Grammar.Class :=
  ⟨"channel".toList, 20,
    [⟨"open".toList, 10, true, [⟨"out_of_band".toList, .data .shortstr, [.other]⟩]⟩, channelOpenOk,
     ⟨"flow".toList, 20, true, [⟨"active".toList, .bit, []⟩]⟩,
     ⟨"flow_ok".toList, 21, false, [⟨"active".toList, .bit, []⟩]⟩]⟩

/-- Without a channel id eight octets are written, seven are asked for, and none is a frame end. -/
theorem channelOpenOk_overruns :
    ¬ (encodeOctets channelClass channelOpenOk ((none : Option Longstr), ())).length ≤
        methodSize channelClass channelOpenOk ((none : Option Longstr), ()) ∧
      (encodeOctets channelClass channelOpenOk ((none : Option Longstr), ())).length ≠
        encodingSize channelClass channelOpenOk ((none : Option Longstr), ()) + 1 := by
  decide

end OpenAmq
