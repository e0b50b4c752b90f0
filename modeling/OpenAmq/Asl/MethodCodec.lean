import Mathlib.Data.List.Nodup
import OpenAmq.Asl.MethodSize

/-!
# Encoding and decoding methods

`decodeFields_encodeFields` and `encodeFields_decodeFields` go through the fields with the
bits that are pending. The encoder writes an octet of bits behind the last of them, the
decoder has read it with the first one; `Holds` relates the two octets in between.

`method_roundTrip` has both directions for whole methods.
-/

namespace OpenAmq

open List

/-! ## Bits -/

theorem bitAt_eq_testBit (octet : UInt8) {i : Nat} (h : i < 8) :
    bitAt octet i = octet.toNat.testBit i := by
  have hi : (UInt8.ofNat i).toNat = i := by
    exact Nat.mod_eq_of_lt (by omega)
  have hn : ((octet >>> UInt8.ofNat i) &&& 1).toNat = octet.toNat >>> i % 2 := by
    rw [UInt8.toNat_and, UInt8.toNat_shiftRight, hi, Nat.mod_eq_of_lt h]
    exact Nat.and_one_is_mod _
  rw [bitAt, Bool.eq_iff_iff, beq_iff_eq, ← UInt8.toNat_inj, hn, Nat.testBit_eq_decide_div_mod_eq,
    Nat.shiftRight_eq_div_pow, decide_eq_true_iff]
  rfl

theorem bitAt_setBit (s : UInt8) {c i : Nat} (b : Bool) (hc : c < 8) (hi : i < 8) :
    bitAt (setBit s c b) i = (bitAt s i || (decide (i = c) && b)) := by
  have hcn : (UInt8.ofNat c).toNat = c := by
    exact Nat.mod_eq_of_lt (by omega)
  have hb : (UInt8.ofNat b.toNat).toNat = b.toNat := by cases b <;> rfl
  rw [bitAt_eq_testBit _ hi, bitAt_eq_testBit _ hi, setBit, UInt8.toNat_or, UInt8.toNat_shiftLeft,
    hcn, hb, Nat.mod_eq_of_lt hc, Nat.testBit_or, Nat.testBit_mod_two_pow, Nat.testBit_shiftLeft]
  congr 1
  rw [decide_eq_true hi, Bool.true_and]
  by_cases hic : i = c
  · subst hic
    cases b <;> simp
  · rw [decide_eq_false hic, Bool.false_and]
    by_cases hle : c ≤ i
    · have hlt : b.toNat < 2 ^ (i - c) := by
        have h1 : b.toNat ≤ 1 := Bool.toNat_le b
        have h2 : 2 ^ 1 ≤ 2 ^ (i - c) := Nat.pow_le_pow_right (by decide) (by omega)
        omega
      rw [Nat.testBit_lt_two_pow hlt, Bool.and_false]
    · rw [decide_eq_false hle, Bool.false_and]

theorem octet_eq_of_bitAt {a b : UInt8} (h : ∀ i < 8, bitAt a i = bitAt b i) : a = b := by
  apply UInt8.toNat_inj.mp
  apply Nat.eq_of_testBit_eq
  intro i
  by_cases hi : i < 8
  · rw [← bitAt_eq_testBit a hi, ← bitAt_eq_testBit b hi]
    exact h i hi
  · have hp : 2 ^ 8 ≤ 2 ^ i := Nat.pow_le_pow_right (by decide) (by omega)
    rw [Nat.testBit_lt_two_pow (Nat.lt_of_lt_of_le (UInt8.toNat_lt a) hp),
      Nat.testBit_lt_two_pow (Nat.lt_of_lt_of_le (UInt8.toNat_lt b) hp)]
def Spare (octet : UInt8) (bitCount : Nat) : Prop :=
  ∀ i < 8, bitCount ≤ i → bitAt octet i = false

/-- `bitString` holds the first `bitCount` bits of `octet`, and no others. -/
def Holds (octet bitString : UInt8) (bitCount : Nat) : Prop :=
  ∀ i < 8, bitAt bitString i = (decide (i < bitCount) && bitAt octet i)

theorem holds_zero (octet : UInt8) : Holds octet 0 0 := by
  intro i hi
  rw [bitAt_eq_testBit 0 hi, decide_eq_false (Nat.not_lt_zero i), Bool.false_and]
  exact Nat.zero_testBit i

variable {bitString : UInt8} {bitCount : Nat} {net rest : List UInt8} {type : DataType}
  {host : type.Value} {fields : List Grammar.Field} {c : Grammar.Class} {m : Grammar.Method}
  {protocol : Protocol} {payload : Payload m.fields}

theorem Holds.setBit {octet : UInt8} (hc : bitCount < 8) (h : Holds octet bitString bitCount) :
    Holds octet (setBit bitString bitCount (bitAt octet bitCount)) (bitCount + 1) := by
  intro i hi
  rw [bitAt_setBit bitString _ hc hi, h i hi]
  by_cases hic : i = bitCount
  · subst hic
    simp
  · have : decide (i < bitCount + 1) = decide (i < bitCount) := by
      rw [decide_eq_decide]
      omega
    rw [this, decide_eq_false hic, Bool.false_and, Bool.or_false]

theorem Holds.of_setBit {octet : UInt8} {bit : Bool} (hc : bitCount < 8)
    (hs : Spare bitString bitCount)
    (h : Holds octet (OpenAmq.setBit bitString bitCount bit) (bitCount + 1)) :
    Holds octet bitString bitCount ∧ bitAt octet bitCount = bit := by
  constructor
  · intro i hi
    have hi' := h i hi
    rw [bitAt_setBit bitString bit hc hi] at hi'
    by_cases hlt : i < bitCount
    · rw [decide_eq_false (Nat.ne_of_lt hlt), Bool.false_and, Bool.or_false,
        decide_eq_true (Nat.lt_succ_of_lt hlt), Bool.true_and] at hi'
      rw [hi', decide_eq_true hlt, Bool.true_and]
    · rw [hs i hi (Nat.le_of_not_lt hlt), decide_eq_false hlt, Bool.false_and]
  · have hi' := h bitCount hc
    rw [bitAt_setBit bitString bit hc hc, hs bitCount hc (Nat.le_refl _), decide_eq_true rfl,
      decide_eq_true (Nat.lt_succ_self _)] at hi'
    simpa using hi'.symm

theorem Holds.spare {octet : UInt8} (h : Holds octet bitString bitCount) :
    Spare bitString bitCount := by
  intro i hi hle
  rw [h i hi, decide_eq_false (Nat.not_lt_of_le hle), Bool.false_and]

theorem Holds.eq_of_eight {octet : UInt8} (h : Holds octet bitString 8) : bitString = octet := by
  apply octet_eq_of_bitAt
  intro i hi
  rw [h i hi, decide_eq_true hi, Bool.true_and]

theorem Holds.self (hs : Spare bitString bitCount) : Holds bitString bitString bitCount := by
  intro i hi
  by_cases hlt : i < bitCount
  · rw [decide_eq_true hlt, Bool.true_and]
  · rw [decide_eq_false hlt, Bool.false_and, hs i hi (Nat.le_of_not_lt hlt)]

theorem Holds.eq_iff {octet : UInt8} (h : Holds octet bitString bitCount) :
    bitString = octet ↔ Spare octet bitCount := by
  constructor
  · rintro rfl
    exact h.spare
  · intro hs
    apply octet_eq_of_bitAt
    intro i hi
    rw [h i hi]
    by_cases hlt : i < bitCount
    · rw [decide_eq_true hlt, Bool.true_and]
    · rw [decide_eq_false hlt, Bool.false_and, hs i hi (Nat.le_of_not_lt hlt)]

/-! ## Single fields -/

/-- How a value comes back: a string that is absent is read as an empty one. -/
def DataType.asRead : (type : DataType) → type.Value → type.Value
  | longstr, (host : Option Longstr) => some (host.getD [])
  | table, (host : Option Longstr) => some (host.getD [])
  | char, host => host
  | octet, host => host
  | short, host => host
  | long, host => host
  | longlong, host => host
  | timestamp, host => host
  | shortstr, host => host

/-- Long strings and tables whose size is not negative as an `int`. -/
def DataType.Small : (type : DataType) → type.Value → Prop
  | longstr, (host : Option Longstr) => (host.getD []).length < 0x80000000
  | table, (host : Option Longstr) => (host.getD []).length < 0x80000000
  | _, _ => True

theorem getWord_bigEndian (width n : Nat) (rest : List UInt8) :
    getWord width (Lib.bigEndian width n ++ rest) = .ok (n % Lib.wordSize width, rest) := by
  rw [getWord, Lib.readBigEndian_bigEndian]

theorem getWord_eq_ok {width n : Nat} (h : getWord width net = .ok (n, rest)) :
    n < Lib.wordSize width ∧ net = Lib.bigEndian width n ++ rest := by
  unfold getWord at h
  split at h
  · next hr =>
    cases h
    exact Lib.readBigEndian_eq_some hr
  · cases h

theorem getWord_octet (host : UInt8) (rest : List UInt8) :
    getWord 1 ([host] ++ rest) = .ok (host.toNat, rest) := by
  simp [getWord, Lib.readBigEndian, Lib.wordSize]

theorem ofOctets_octets (host : ShortText) : ShortText.ofOctets host.octets = host := by
  obtain ⟨⟨octets, noNul⟩, bound⟩ := host
  unfold ShortText.ofOctets
  congr 2
  rw [take_of_length_le bound]
  exact takeWhile_eq_self_iff.mpr fun _ hb => decide_eq_true fun h0 => noNul (h0 ▸ hb)

theorem getSstr_putSstr (host : ShortText) (rest : List UInt8) :
    getSstr (putSstr host ++ rest) = .ok (host, rest) := by
  have hsize : (UInt8.ofNat host.octets.length).toNat = host.octets.length := by
    exact Nat.mod_eq_of_lt (Nat.lt_succ_of_le host.bound)
  rw [putSstr, cons_append, getSstr, hsize, length_append,
    if_neg (Nat.not_lt_of_le (Nat.le_add_right _ _)), take_left, drop_left,
    ofOctets_octets]

theorem getLstr_putLstr {host : Option Longstr} (h : (host.getD []).length < 0x80000000)
    (rest : List UInt8) : getLstr (putLstr host ++ rest) = .ok (some (host.getD []), rest) := by
  have hput : putLstr host = putLong (host.getD []).length ++ host.getD [] := by
    cases host with
    | none | some data => rfl
  have hn : (((host.getD []).length : Int) % 0x100000000).toNat = (host.getD []).length := by
    omega
  have hw : (host.getD []).length % Lib.wordSize 4 = (host.getD []).length :=
    Nat.mod_eq_of_lt (Nat.lt_trans h (by decide))
  rw [hput, getLstr, putLong, hn, append_assoc, getWord_bigEndian, hw]
  simp only
  rw [if_neg (Nat.not_le_of_lt h), length_append,
    if_neg (Nat.not_lt_of_le (Nat.le_add_right _ _)), take_left, drop_left]

theorem getOctet_putOctet (host : UInt8) (rest : List UInt8) :
    (getWord 1 ([host] ++ rest)).map (fun r => (UInt8.ofNat r.1, r.2)) = .ok (host, rest) := by
  rw [getWord_octet]
  simp only [Except.map, UInt8.ofNat_toNat]

theorem getShort_putShort (host : UInt16) (rest : List UInt8) :
    (getWord 2 (putShort host.toNat ++ rest)).map (fun r => (UInt16.ofNat r.1, r.2)) =
      .ok (host, rest) := by
  have hlt : host.toNat < Lib.wordSize 2 := UInt16.toNat_lt host
  rw [putShort, getWord_bigEndian, Nat.mod_eq_of_lt hlt]
  simp only [Except.map, UInt16.ofNat_toNat]

theorem getLong_putLong_toNat (host : UInt32) (rest : List UInt8) :
    (getWord 4 (putLong host.toNat ++ rest)).map (fun r => (UInt32.ofNat r.1, r.2)) =
      .ok (host, rest) := by
  have hlt : host.toNat < Lib.wordSize 4 := UInt32.toNat_lt host
  have hn : ((host.toNat : Int) % 0x100000000).toNat = host.toNat := by
    have := UInt32.toNat_lt host
    omega
  rw [putLong, hn, getWord_bigEndian, Nat.mod_eq_of_lt hlt]
  simp only [Except.map, UInt32.ofNat_toNat]

theorem getLlong_putLlong (host : Int64) (rest : List UInt8) :
    (getWord 8 (putLlong host ++ rest)).map (fun r => ((UInt64.ofNat r.1).toInt64, r.2)) =
      .ok (host, rest) := by
  have hlt : host.toUInt64.toNat < Lib.wordSize 8 := UInt64.toNat_lt _
  rw [putLlong, getWord_bigEndian, Nat.mod_eq_of_lt hlt]
  simp only [Except.map, UInt64.ofNat_toNat, Int64.toInt64_toUInt64]

theorem DataType.get_put (h : type.Small host) (rest : List UInt8) :
    type.get (type.put host ++ rest) = .ok (type.asRead host, rest) := by
  cases type with
  | char | octet => exact getOctet_putOctet host rest
  | short => exact getShort_putShort host rest
  | long => exact getLong_putLong_toNat host rest
  | longlong | timestamp => exact getLlong_putLlong host rest
  | shortstr => exact getSstr_putSstr host rest
  | longstr | table => exact getLstr_putLstr h rest

/-- The text of a short string ends where its count says. -/
def DataType.NoNul : DataType → List UInt8 → Prop
  | shortstr, size :: net => 0 ∉ net.take size.toNat
  | _, _ => True

theorem getWord_map_eq_ok {α : Type} {width : Nat} {f : Nat → α} {host : α}
    (h : (getWord width net).map (fun r => (f r.1, r.2)) = .ok (host, rest)) :
    ∃ n, n < Lib.wordSize width ∧ host = f n ∧ net = Lib.bigEndian width n ++ rest := by
  obtain ⟨⟨n, tail⟩, hr, he⟩ := Except.eq_ok_of_map h
  cases he
  obtain ⟨hlt, hnet⟩ := getWord_eq_ok hr
  exact ⟨n, hlt, rfl, hnet⟩

theorem putOctet_of_getOctet {host : UInt8}
    (h : (getWord 1 net).map (fun r => (UInt8.ofNat r.1, r.2)) = .ok (host, rest)) :
    net = [host] ++ rest := by
  obtain ⟨n, -, rfl, hnet⟩ := getWord_map_eq_ok h
  rw [hnet, Lib.bigEndian, Lib.bigEndian, Lib.wordSize, Nat.div_one]

theorem putShort_of_getShort {host : UInt16}
    (h : (getWord 2 net).map (fun r => (UInt16.ofNat r.1, r.2)) = .ok (host, rest)) :
    net = putShort host.toNat ++ rest := by
  obtain ⟨n, hlt, rfl, hnet⟩ := getWord_map_eq_ok h
  have hn : (UInt16.ofNat n).toNat = n := by
    exact Nat.mod_eq_of_lt hlt
  rw [hnet, putShort, hn]

theorem putLong_of_getLong {host : UInt32}
    (h : (getWord 4 net).map (fun r => (UInt32.ofNat r.1, r.2)) = .ok (host, rest)) :
    net = putLong host.toNat ++ rest := by
  obtain ⟨n, hlt, rfl, hnet⟩ := getWord_map_eq_ok h
  have hlt' : n < 0x100000000 := hlt
  have hn : (UInt32.ofNat n).toNat = n := by
    exact Nat.mod_eq_of_lt hlt
  have hm : ((n : Int) % 0x100000000).toNat = n := by omega
  rw [hnet, putLong, hn, hm]

theorem putLlong_of_getLlong {host : Int64}
    (h : (getWord 8 net).map (fun r => ((UInt64.ofNat r.1).toInt64, r.2)) = .ok (host, rest)) :
    net = putLlong host ++ rest := by
  obtain ⟨n, hlt, rfl, hnet⟩ := getWord_map_eq_ok (f := fun n => (UInt64.ofNat n).toInt64) h
  have hn : (UInt64.ofNat n).toNat = n := by
    exact Nat.mod_eq_of_lt hlt
  rw [hnet, putLlong, UInt64.toUInt64_toInt64, hn]

theorem putLstr_of_getLstr {host : Option Longstr} (h : getLstr net = .ok (host, rest)) :
    net = putLstr host ++ rest := by
  unfold getLstr at h
  split at h
  · cases h
  · next size tail hw =>
    split at h
    · cases h
    · next hsmall =>
      split at h
      · cases h
      · next hle =>
        cases h
        obtain ⟨-, rfl⟩ := getWord_eq_ok hw
        have hlen : (tail.take size).length = size := by
          rw [length_take]
          omega
        have hm : ((size : Int) % 0x100000000).toNat = size := by omega
        rw [putLstr, hlen, putLong, hm, append_assoc, take_append_drop]

/-- A short string is written as it was read, if it has no `NUL`. -/
theorem putSstr_of_getSstr {host : ShortText} (h : getSstr net = .ok (host, rest)) :
    ∃ consumed, net = consumed ++ rest ∧ ∀ xs ys : List UInt8,
      putSstr host ++ xs = consumed ++ ys ↔ DataType.shortstr.NoNul net ∧ xs = ys := by
  unfold getSstr at h
  split at h
  · cases h
  · next size net =>
    split at h
    · cases h
    · next hle =>
      cases h
      have hlen : (net.take size.toNat).length = size.toNat := by
        rw [length_take]
        omega
      have hbound : (net.take size.toNat).length ≤ shortstrMax := by
        have := UInt8.toNat_lt size
        unfold shortstrMax
        omega
      have hoct : (ShortText.ofOctets (net.take size.toNat)).octets =
          (net.take size.toNat).takeWhile (· ≠ 0) := by
        show ((net.take size.toNat).take shortstrMax).takeWhile _ = _
        rw [take_of_length_le hbound]
      have hpre := takeWhile_prefix (l := net.take size.toNat) fun b : UInt8 => decide (b ≠ 0)
      have hself : (net.take size.toNat).takeWhile (· ≠ 0) = net.take size.toNat ↔
          0 ∉ net.take size.toNat := by
        rw [takeWhile_eq_self_iff]
        constructor
        · intro hall h0
          have := hall 0 h0
          simp at this
        · exact fun h0 b hb => decide_eq_true fun he => h0 (he ▸ hb)
      refine ⟨size :: net.take size.toNat, by rw [cons_append, take_append_drop], ?_⟩
      intro xs ys
      show UInt8.ofNat _ :: _ ++ xs = _ ↔ 0 ∉ net.take size.toNat ∧ xs = ys
      rw [hoct, cons_append, cons_append, cons.injEq, ← hself]
      constructor
      · rintro ⟨hsize, happ⟩
        have hl : ((net.take size.toNat).takeWhile (· ≠ 0)).length = size.toNat := by
          have hle := hpre.length_le
          have := congrArg UInt8.toNat hsize
          rw [UInt8.toNat_ofNat', Nat.mod_eq_of_lt (by omega)] at this
          exact this
        have heq := hpre.eq_of_length (hl.trans hlen.symm)
        rw [heq] at happ
        exact ⟨heq, append_cancel_left happ⟩
      · rintro ⟨heq, rfl⟩
        rw [heq, hlen, UInt8.ofNat_toNat]
        exact ⟨rfl, rfl⟩

theorem append_iff_of_eq {written : List UInt8} (h : net = written ++ rest) :
    ∃ consumed, net = consumed ++ rest ∧ ∀ xs ys : List UInt8,
      written ++ xs = consumed ++ ys ↔ True ∧ xs = ys :=
  ⟨written, h, fun xs ys => by rw [append_cancel_left_eq, true_and]⟩

theorem DataType.put_of_get (h : type.get net = .ok (host, rest)) :
    ∃ consumed, net = consumed ++ rest ∧ ∀ xs ys : List UInt8,
      type.put host ++ xs = consumed ++ ys ↔ type.NoNul net ∧ xs = ys := by
  cases type with
  | char | octet => exact append_iff_of_eq (putOctet_of_getOctet h)
  | short => exact append_iff_of_eq (putShort_of_getShort h)
  | long => exact append_iff_of_eq (putLong_of_getLong h)
  | longlong | timestamp => exact append_iff_of_eq (putLlong_of_getLlong h)
  | shortstr => exact putSstr_of_getSstr h
  | longstr | table => exact append_iff_of_eq (putLstr_of_getLstr h)

/-! ## All fields -/

def FieldType.asRead : (type : FieldType) → type.Value → type.Value
  | bit, host => host
  | data type, host => type.asRead host

/-- The values as they come back. -/
def Payload.asRead : {fields : List Grammar.Field} → Payload fields → Payload fields
  | [], _ => ()
  | field :: _, (host, payload) => (field.type.asRead host, payload.asRead)

def FieldType.Small : (type : FieldType) → type.Value → Prop
  | bit, _ => True
  | data type, host => type.Small host

/-- No long string or table is too long to be read. -/
def Payload.Small : {fields : List Grammar.Field} → Payload fields → Prop
  | [], _ => True
  | field :: _, (host, payload) => field.type.Small host ∧ payload.Small

theorem flushBits_pos (bitString : UInt8) (h : 0 < bitCount) :
    flushBits bitCount bitString = [bitString] :=
  if_pos h

/-- Fields that were written are read again, whatever bits come before them. -/
theorem decodeFields_encodeFields {payload : Payload fields} (rest : List UInt8)
    (hc : bitCount < 8) (hs : Spare bitString bitCount) (hsmall : payload.Small) :
    (bitCount = 0 → ∀ octet, decodeFields fields 0 octet
      (encodeFields fields payload 0 bitString ++ rest) = .ok (payload.asRead, rest)) ∧
    (0 < bitCount → ∃ octet net,
      encodeFields fields payload bitCount bitString ++ rest = octet :: net ∧
      Holds octet bitString bitCount ∧
      decodeFields fields bitCount octet net = .ok (payload.asRead, rest)) := by
  induction fields generalizing bitCount bitString with
  | nil =>
    refine ⟨fun _ octet => rfl, fun hpos => ⟨bitString, rest, ?_, Holds.self hs, rfl⟩⟩
    rw [encodeFields, flushBits_pos bitString hpos]
    rfl
  | cons field fields ih =>
    obtain ⟨name, type, asserts⟩ := field
    obtain ⟨host, payload⟩ := payload
    obtain ⟨hhost, hpayload⟩ := hsmall
    cases type with
    | bit =>
      have hset : ∀ {octet}, Holds octet (setBit bitString bitCount host) (bitCount + 1) →
          Holds octet bitString bitCount ∧ bitAt octet bitCount = host :=
        fun h => h.of_setBit hc hs
      have hspare : Spare (setBit bitString bitCount host) (bitCount + 1) := by
        intro i hi hle
        rw [bitAt_setBit bitString host hc hi, hs i hi (Nat.le_of_succ_le hle),
          decide_eq_false (Nat.ne_of_gt hle)]
        rfl
      by_cases h8 : bitCount + 1 = 8
      · refine ⟨fun h0 => by omega, fun hpos => ?_⟩
        have hself : Holds (setBit bitString bitCount host) (setBit bitString bitCount host)
            (bitCount + 1) := Holds.self hspare
        obtain ⟨hholds, hbit⟩ := hset hself
        refine ⟨_, encodeFields fields payload 0 0 ++ rest, ?_, hholds, ?_⟩
        · simp only [encodeFields, if_pos h8, cons_append]
        · have hnext := (ih (by decide : 0 < 8) (holds_zero 0).spare hpayload).1 rfl
          simp only [decodeFields, if_neg (Nat.ne_of_gt hpos), if_pos h8]
          rw [hnext, hbit]
          rfl
      · have hc' : bitCount + 1 < 8 := by omega
        obtain ⟨octet, net, hnet, hholds, hnext⟩ := (ih hc' hspare hpayload).2 (Nat.succ_pos _)
        obtain ⟨hholds, hbit⟩ := hset hholds
        constructor
        · rintro rfl octet'
          simp only [encodeFields, if_neg h8]
          rw [hnet]
          simp only [decodeFields, if_true]
          rw [hnext, hbit]
          rfl
        · intro hpos
          refine ⟨octet, net, ?_, hholds, ?_⟩
          · simp only [encodeFields, if_neg h8]
            exact hnet
          · simp only [decodeFields, if_neg (Nat.ne_of_gt hpos), if_neg h8]
            rw [hnext, hbit]
            rfl
    | data type =>
      have hnext := (ih (by decide : 0 < 8) (holds_zero 0).spare hpayload).1 rfl
      have hdecode : ∀ octet count, decodeFields (⟨name, .data type, asserts⟩ :: fields) count
          octet (type.put host ++ (encodeFields fields payload 0 0 ++ rest)) =
            .ok ((type.asRead host, payload.asRead), rest) := by
        intro octet count
        rw [decodeFields, DataType.get_put hhost]
        simp only
        rw [hnext]
        rfl
      constructor
      · rintro rfl octet
        simp only [encodeFields, flushBits, Nat.lt_irrefl, if_false, nil_append, append_assoc]
        exact hdecode octet 0
      · intro hpos
        refine ⟨bitString, _, ?_, Holds.self hs, hdecode bitString bitCount⟩
        simp only [encodeFields, flushBits_pos bitString hpos, nil_append,
          cons_append, append_assoc]

/--
The octets that the decoder reads are as the encoder writes them: the bits behind the last
bit field of an octet are zero, and no short string has a `NUL` in its text.
-/
def Clean : (fields : List Grammar.Field) → (bitCount : Nat) → (bitString : UInt8) →
    List UInt8 → Prop
  | [], bitCount, bitString, _ => 0 < bitCount → Spare bitString bitCount
  | ⟨_, .bit, _⟩ :: fields, bitCount, bitString, net =>
    if bitCount = 0 then ∀ octet rest, net = octet :: rest → Clean fields 1 octet rest
    else Clean fields (if bitCount + 1 = 8 then 0 else bitCount + 1) bitString net
  | ⟨_, .data type, _⟩ :: fields, bitCount, bitString, net =>
    (0 < bitCount → Spare bitString bitCount) ∧ type.NoNul net ∧
      ∀ host rest, type.get net = .ok (host, rest) → Clean fields 0 bitString rest

theorem flushBits_append_iff {octet : UInt8} (h : Holds octet bitString bitCount)
    (xs ys : List UInt8) :
    flushBits bitCount bitString ++ xs = flushBits bitCount octet ++ ys ↔
      (0 < bitCount → Spare octet bitCount) ∧ xs = ys := by
  by_cases hpos : 0 < bitCount
  · rw [flushBits_pos bitString hpos, flushBits_pos octet hpos, singleton_append,
      singleton_append, cons.injEq, h.eq_iff]
    exact and_congr_left fun _ => ⟨fun hs _ => hs, fun hs => hs hpos⟩
  · rw [flushBits, flushBits, if_neg hpos, if_neg hpos, nil_append, nil_append]
    exact ⟨fun he => ⟨fun h0 => absurd h0 hpos, he⟩, fun he => he.2⟩

/-- Fields that were read are written again as they were, if they are clean. -/
theorem encodeFields_decodeFields {payload : Payload fields} {octet : UInt8} (hc : bitCount < 8)
    (h : decodeFields fields bitCount octet net = .ok (payload, rest)) :
    ∃ consumed, net = consumed ++ rest ∧ ∀ bitString, Holds octet bitString bitCount →
      (encodeFields fields payload bitCount bitString = flushBits bitCount octet ++ consumed ↔
        Clean fields bitCount octet net) := by
  induction fields generalizing bitCount octet net with
  | nil =>
    cases h
    refine ⟨[], rfl, fun bitString hb => ?_⟩
    have hflush := flushBits_append_iff hb [] []
    rw [append_nil] at hflush
    simp only [encodeFields, Clean]
    rw [hflush]
    exact ⟨fun h => h.1, fun h => ⟨h, rfl⟩⟩
  | cons field fields ih =>
    obtain ⟨name, type, asserts⟩ := field
    obtain ⟨host, payload⟩ := payload
    cases type with
    | bit =>
      by_cases h0 : bitCount = 0
      · subst h0
        simp only [decodeFields, if_true] at h
        split at h
        · cases h
        · next octet' net =>
          obtain ⟨⟨payload', rest'⟩, hr, he⟩ := Except.eq_ok_of_map h
          cases he
          obtain ⟨consumed, hnet, hiff⟩ := ih (by decide : 1 < 8) hr
          refine ⟨octet' :: consumed, by rw [hnet]; rfl, fun bitString hb => ?_⟩
          have hz : Holds octet' bitString 0 := fun i hi => by
            rw [hb i hi, decide_eq_false (Nat.not_lt_zero i)]
            rfl
          have := hiff _ (hz.setBit (by decide))
          simp only [encodeFields, Clean, if_true]
          refine this.trans ⟨fun hcl o r hor => ?_, fun hcl => hcl octet' net rfl⟩
          cases hor
          exact hcl
      · simp only [decodeFields, if_neg h0] at h
        obtain ⟨⟨payload', rest'⟩, hr, he⟩ := Except.eq_ok_of_map h
        cases he
        have hpos : 0 < bitCount := Nat.pos_of_ne_zero h0
        by_cases h8 : bitCount + 1 = 8
        · rw [if_pos h8] at hr
          obtain ⟨consumed, hnet, hiff⟩ := ih (by decide : 0 < 8) hr
          refine ⟨consumed, hnet, fun bitString hb => ?_⟩
          have hset := hb.setBit hc
          rw [h8] at hset
          have hclean := hiff 0 (fun i hi => holds_zero octet i hi)
          simp only [encodeFields, if_pos h8, Clean, if_neg h0]
          rw [hset.eq_of_eight, flushBits_pos octet hpos, singleton_append, cons.injEq]
          exact ⟨fun h => hclean.mp h.2, fun h => ⟨rfl, hclean.mpr h⟩⟩
        · rw [if_neg h8] at hr
          have hc' : bitCount + 1 < 8 := by omega
          obtain ⟨consumed, hnet, hiff⟩ := ih hc' hr
          refine ⟨consumed, hnet, fun bitString hb => ?_⟩
          have hclean := hiff _ (hb.setBit hc)
          simp only [encodeFields, if_neg h8, Clean, if_neg h0]
          rw [flushBits_pos octet hpos]
          exact hclean
    | data type =>
      rw [decodeFields] at h
      split at h
      · cases h
      · next host' net' hget =>
        obtain ⟨⟨payload', rest'⟩, hr, he⟩ := Except.eq_ok_of_map h
        cases he
        obtain ⟨read, hread, happ⟩ := type.put_of_get hget
        obtain ⟨consumed, hnet, hiff⟩ := ih (by decide : 0 < 8) hr
        refine ⟨read ++ consumed, by rw [hread, hnet, append_assoc], fun bitString hb => ?_⟩
        have hclean := hiff 0 (holds_zero octet)
        rw [flushBits, if_neg (Nat.lt_irrefl 0), nil_append] at hclean
        simp only [encodeFields, Clean]
        rw [flushBits_append_iff hb, happ, hclean]
        refine and_congr_right fun _ => and_congr_right fun _ => ?_
        refine ⟨fun hcl host'' rest'' hget' => ?_, fun hcl => hcl host net' hget⟩
        rw [hget] at hget'
        cases hget'
        exact hcl

/-! ## Whole methods -/

theorem find?_attach_of_nodup {α : Type*} {f : α → Nat} {l : List α} (h : (l.map f).Nodup) {a : α}
    (ha : a ∈ l) : l.attach.find? (fun x => decide (f x.1 = f a)) = some ⟨a, ha⟩ := by
  cases hf : l.attach.find? (fun x => decide (f x.1 = f a)) with
  | none =>
    have hnot := find?_eq_none.mp hf ⟨a, ha⟩ (mem_attach l _)
    exact absurd (decide_eq_true rfl) hnot
  | some x =>
    have hx := find?_some hf
    rw [decide_eq_true_eq] at hx
    have : x.1 = a := inj_on_of_nodup_map h x.2 ha hx
    exact congrArg some (Subtype.ext this)

theorem Protocol.find_index (protocol : Protocol) (hc : c ∈ protocol.classes) (hm : m ∈ c.methods) :
    protocol.find c.index m.index = some ⟨(c, m), hc, hm⟩ := by
  rw [find, find?_attach_of_nodup protocol.classes_nodup hc]
  simp only
  rw [find?_attach_of_nodup (protocol.methods_nodup c hc) hm]

theorem Protocol.index_of_find {classId methodId : Nat} {h : c ∈ protocol.classes ∧ m ∈ c.methods}
    (hfind : protocol.find classId methodId = some ⟨(c, m), h⟩) :
    classId = c.index ∧ methodId = m.index := by
  unfold find at hfind
  split at hfind
  · cases hfind
  next c' hc' =>
  split at hfind
  · cases hfind
  next m' hm' =>
  cases hfind
  have hci := find?_some hc'
  have hmi := find?_some hm'
  rw [decide_eq_true_eq] at hci hmi
  exact ⟨hci.symm, hmi.symm⟩

theorem FieldAssert.fails_asRead (regexpMatch : Str → List UInt8 → Bool) (a : FieldAssert)
    (type : FieldType) (host : type.Value) :
    a.fails regexpMatch type (type.asRead host) = a.fails regexpMatch type host := by
  cases type with
  | bit => rfl
  | data type => cases type <;> cases a <;> rfl

theorem checkFields_asRead (regexpMatch : Str → List UInt8 → Bool) (payload : Payload fields) :
    checkFields regexpMatch fields payload.asRead = checkFields regexpMatch fields payload := by
  induction fields with
  | nil => rfl
  | cons field fields ih =>
    obtain ⟨host, payload⟩ := payload
    simp only [checkFields, Payload.asRead, FieldAssert.fails_asRead]
    rw [ih]

theorem DataType.small_of_wireSize (h : type.wireSize host < 0x80000000) : type.Small host := by
  cases type with
  | longstr | table =>
    cases (host : Option Longstr) with
    | none => exact (by decide : 0 < 0x80000000)
    | some data => exact Nat.lt_of_le_of_lt (Nat.le_add_left _ 4) h
  | _ => trivial

theorem small_of_wireSizeFields {payload : Payload fields} (bits : Nat)
    (h : wireSizeFields fields payload bits < 0x80000000) : payload.Small := by
  induction fields generalizing bits with
  | nil => trivial
  | cons field fields ih =>
    obtain ⟨name, type, asserts⟩ := field
    obtain ⟨host, payload⟩ := payload
    cases type with
    | bit => exact ⟨trivial, ih _ h⟩
    | data type =>
      simp only [wireSizeFields] at h
      exact ⟨DataType.small_of_wireSize (by omega), ih 0 (by omega)⟩

theorem bucketMaxSize_le (size : Nat) : bucketMaxSize size ≤ 2097152 := by
  have hall : ∀ n ∈ bucketSizes, n ≤ 2097152 := by decide
  unfold bucketMaxSize
  rw [getD_eq_getElem?_getD]
  cases hg : bucketSizes[min (chop size bucketSizes.length 0 bucketSizes.length)
      (bucketSizes.length - 1)]? with
  | none => exact Nat.zero_le _
  | some n => exact hall n (mem_of_getElem? hg)

theorem chop_spec (size fuel chopMin chopMax : Nat) (hf : chopMax - chopMin ≤ fuel)
    (hle : chopMin ≤ chopMax) (hmin : chopMin = 0 ∨ bucketSizes.getD (chopMin - 1) 0 < size)
    (hmax : chopMax = bucketSizes.length ∨ size ≤ bucketSizes.getD chopMax 0) :
    chop size fuel chopMin chopMax ≤ chopMax ∧ (chop size fuel chopMin chopMax = 0 ∨
        bucketSizes.getD (chop size fuel chopMin chopMax - 1) 0 < size) ∧
      (chop size fuel chopMin chopMax = bucketSizes.length ∨
        size ≤ bucketSizes.getD (chop size fuel chopMin chopMax) 0) := by
  induction fuel generalizing chopMin chopMax with
  | zero =>
    have heq : chopMin = chopMax := by omega
    subst heq
    exact ⟨Nat.le_refl _, hmin, hmax⟩
  | succ fuel ih =>
    rw [chop]
    split
    · next hlt =>
      simp only
      split
      · next hmid =>
        exact ih _ _ (by omega) (by omega) (.inr hmid) hmax
      · next hmid =>
        have := ih chopMin ((chopMax + chopMin) / 2) (by omega) (by omega)
          hmin (.inr (Nat.le_of_not_lt hmid))
        exact ⟨by omega, this.2⟩
    · next hge =>
      have heq : chopMin = chopMax := by omega
      subst heq
      exact ⟨Nat.le_refl _, hmin, hmax⟩

theorem le_bucketMaxSize {size : Nat} (h : size ≤ 2097152) : size ≤ bucketMaxSize size := by
  obtain ⟨hr, hlow, hhigh⟩ := chop_spec size bucketSizes.length 0 bucketSizes.length
    (Nat.sub_le _ 0) (Nat.zero_le _) (.inl rfl) (.inl rfl)
  unfold bucketMaxSize
  simp only
  rcases hhigh with hlast | hle
  · rw [hlast] at hlow
    rcases hlow with h0 | hlt
    · cases h0
    · exact absurd hlt (Nat.not_lt_of_le h)
  · have hmin : chop size bucketSizes.length 0 bucketSizes.length ≤ bucketSizes.length - 1 ∨
        chop size bucketSizes.length 0 bucketSizes.length = bucketSizes.length := by omega
    rcases hmin with hm | hm
    · rw [Nat.min_eq_left hm]
      exact hle
    · rw [hm] at hle
      have h0 : size ≤ 0 := hle
      exact Nat.le_trans h0 (Nat.zero_le _)

/-- The bucket that is allocated holds what is written into it. -/
def FitsBucket (c : Grammar.Class) (m : Grammar.Method) (payload : Payload m.fields) : Prop :=
  (encodeOctets c m payload).length ≤ bucketMaxSize (methodSize c m payload)

theorem FitsBucket.small (h : FitsBucket c m payload) : payload.Small := by
  have hle := Nat.le_trans h (bucketMaxSize_le _)
  rw [encodeOctets, length_append, length_append,
    length_encodeFields m.fields payload 0 (by decide)] at hle
  exact small_of_wireSizeFields 0 (by omega)

theorem getWord_putShort_of_lt {n : Nat} (h : n < 0x10000) (rest : List UInt8) :
    getWord 2 (putShort n ++ rest) = .ok (n, rest) := by
  have hlt : n < Lib.wordSize 2 := h
  rw [putShort, getWord_bigEndian, Nat.mod_eq_of_lt hlt]

theorem getWord_putShort {index : Nat} (h : IndexOk index) (rest : List UInt8) :
    getWord 2 (putShort index ++ rest) = .ok (index, rest) := getWord_putShort_of_lt h.2 rest

theorem decode_encodeOctets (protocol : Protocol) (regexpMatch : Str → List UInt8 → Bool)
    (hc : c ∈ protocol.classes) (hm : m ∈ c.methods)
    (hcheck : checkFields regexpMatch m.fields payload = none) (hsmall : payload.Small)
    (rest : List UInt8) :
    decode protocol regexpMatch (encodeOctets c m payload ++ rest) =
      .ok (.known c hc m hm payload.asRead, rest) := by
  have hfields := (decodeFields_encodeFields rest (by decide : 0 < 8)
    (holds_zero 0).spare hsmall).1 rfl 0
  rw [decode, encodeOctets, append_assoc, getWord_putShort (protocol.class_index c hc)]
  simp only
  rw [append_assoc, getWord_putShort (protocol.method_index c hc m hm)]
  simp only
  rw [protocol.find_index hc hm]
  simp only
  rw [hfields]
  simp only
  rw [checkFields_asRead, hcheck]

theorem decode_eq_known {regexpMatch : Str → List UInt8 → Bool} {hc : c ∈ protocol.classes}
    {hm : m ∈ c.methods}
    (h : decode protocol regexpMatch net = .ok (.known c hc m hm payload, rest)) :
    ∃ body, net = putShort c.index ++ (putShort m.index ++ body) ∧
      decodeFields m.fields 0 0 body = .ok (payload, rest) := by
  unfold decode at h
  split at h
  · cases h
  next classId net1 hclass =>
  split at h
  · cases h
  next methodId net2 hmethod =>
  split at h
  · cases h
  next c' m' hmem hfind =>
  split at h
  · cases h
  next payload' net3 hfields =>
  split at h
  · cases h
  simp only [Except.ok.injEq, Prod.mk.injEq] at h
  obtain ⟨hknown, rfl⟩ := h
  cases hknown
  obtain ⟨hclt, rfl⟩ := getWord_eq_ok hclass
  obtain ⟨hmlt, rfl⟩ := getWord_eq_ok hmethod
  obtain ⟨rfl, rfl⟩ := Protocol.index_of_find hfind
  exact ⟨net2, rfl, hfields⟩

theorem encode_eq_some {hc : c ∈ protocol.classes} {hm : m ∈ c.methods}
    (h : FitsBucket c m payload) :
    encode (MethodObject.known c hc m hm payload) = some (encodeOctets c m payload) :=
  if_pos h

theorem encodeOctets_decode {regexpMatch : Str → List UInt8 → Bool} {hc : c ∈ protocol.classes}
    {hm : m ∈ c.methods}
    (h : decode protocol regexpMatch net = .ok (.known c hc m hm payload, rest)) :
    net = encodeOctets c m payload ++ rest ↔ Clean m.fields 0 0 (net.drop 4) := by
  obtain ⟨body, rfl, hfields⟩ := decode_eq_known h
  obtain ⟨consumed, hbody, hiff⟩ := encodeFields_decodeFields (by decide) hfields
  have hclean := hiff 0 (holds_zero 0)
  have hdrop : (putShort c.index ++ (putShort m.index ++ body)).drop 4 = body := by
    rw [← append_assoc]
    exact drop_left' (by rw [length_append, length_putShort, length_putShort])
  rw [hdrop, ← hclean, encodeOctets, append_assoc, append_cancel_left_eq,
    append_assoc, append_cancel_left_eq, hbody, append_cancel_right_eq]
  exact eq_comm

/--
A method whose assertions hold is decoded from its encoding, with absent strings as empty
ones, and a method of the grammar that is decoded is encoded as it was read if and only if
that was clean. Both are about methods whose encoding fits the bucket.
-/
theorem method_roundTrip (protocol : Protocol) (regexpMatch : Str → List UInt8 → Bool) :
    (∀ c hc m hm (payload : Payload m.fields), checkFields regexpMatch m.fields payload = none →
      FitsBucket c m payload →
      ∃ octets, encode (MethodObject.known c hc m hm payload : MethodObject protocol) =
        some octets ∧
        ∀ rest, decode protocol regexpMatch (octets ++ rest) =
          .ok (.known c hc m hm payload.asRead, rest)) ∧
    ∀ net c hc m hm (payload : Payload m.fields) rest,
      decode protocol regexpMatch net = .ok (.known c hc m hm payload, rest) →
      FitsBucket c m payload →
      ((∃ octets,
        encode (MethodObject.known c hc m hm payload : MethodObject protocol) = some octets ∧
        net = octets ++ rest) ↔ Clean m.fields 0 0 (net.drop 4)) := by
  constructor
  · intro c hc m hm payload hcheck hfits
    refine ⟨_, encode_eq_some hfits, fun rest => ?_⟩
    exact decode_encodeOctets protocol regexpMatch hc hm hcheck hfits.small rest
  · intro net c hc m hm payload rest h hfits
    rw [← encodeOctets_decode h]
    constructor
    · rintro ⟨octets, henc, hnet⟩
      rw [encode_eq_some hfits] at henc
      cases henc
      exact hnet
    · exact fun hnet => ⟨_, encode_eq_some hfits, hnet⟩

/-- A protocol with the class `channel` only. -/
def channelProtocol : Protocol where
  classes := [channelClass]
  classes_nodup := by decide
  methods_nodup := by decide
  class_index := by
    intro c hc
    cases mem_singleton.mp hc
    exact ⟨by decide, by decide⟩
  method_index := by
    intro c hc m hm
    cases mem_singleton.mp hc
    have hall : ∀ m ∈ channelClass.methods, m.index ≠ 0 ∧ m.index < 0x10000 := by decide
    exact hall m hm

theorem channelClass_mem : channelClass ∈ channelProtocol.classes := mem_cons_self

/-- `queue.declare`, with five bits between its strings -/
def queueDeclare : Grammar.Method :=
  ⟨"declare".toList, 10, true,
    [⟨"ticket".toList, .data .short, []⟩,
     ⟨"queue".toList, .data .shortstr,
       [.length 127, .regexp "^[a-zA-Z0-9-_.:/]*$".toList]⟩,
     ⟨"passive".toList, .bit, []⟩, ⟨"durable".toList, .bit, []⟩, ⟨"exclusive".toList, .bit, []⟩,
     ⟨"auto_delete".toList, .bit, []⟩, ⟨"nowait".toList, .bit, []⟩,
     ⟨"arguments".toList, .data .table, []⟩]⟩

def queueClass : Grammar.Class := ⟨"queue".toList, 50, [queueDeclare]⟩

/-- A protocol with the class `queue` only, of which `declare` is given. -/
def queueProtocol : Protocol where
  classes := [queueClass]
  classes_nodup := by decide
  methods_nodup := by decide
  class_index c hc := by
    cases mem_singleton.mp hc
    exact ⟨by decide, by decide⟩
  method_index c hc m hm := by
    cases mem_singleton.mp hc
    cases mem_singleton.mp hm
    exact ⟨by decide, by decide⟩

/-- The queue `q`, durable and to be deleted, without arguments -/
def declared (arguments : Option Longstr) : Payload queueDeclare.fields :=
  ((7 : UInt16), (⟨⟨[113], by decide⟩, by decide⟩ : ShortText), false, true, false, true, false,
    arguments, ())

/-- The bits come back as they were, and absent arguments as empty ones. -/
theorem method_roundTrip_queueDeclare :
    (∃ octets, encode (.known queueClass mem_cons_self queueDeclare mem_cons_self
        (declared none) : MethodObject queueProtocol) = some octets ∧
      ∀ rest, decode queueProtocol (fun _ _ => true) (octets ++ rest) =
        .ok (.known queueClass mem_cons_self queueDeclare mem_cons_self (declared (some [])),
          rest)) ∧
    ((∃ octets, encode (.known queueClass mem_cons_self queueDeclare mem_cons_self
        (declared (some [])) : MethodObject queueProtocol) = some octets ∧
      [0, 50, 0, 10, 0, 7, 1, 113, 10, 0, 0, 0, 0] = octets ++ []) ↔
      Clean queueDeclare.fields 0 0 [0, 7, 1, 113, 10, 0, 0, 0, 0]) :=
  ⟨(method_roundTrip queueProtocol fun _ _ => true).1 queueClass mem_cons_self queueDeclare
      mem_cons_self (declared none) rfl (show _ ≤ _ by decide),
    (method_roundTrip queueProtocol fun _ _ => true).2
      [0, 50, 0, 10, 0, 7, 1, 113, 10, 0, 0, 0, 0] queueClass mem_cons_self queueDeclare
      mem_cons_self (declared (some [])) [] rfl (show _ ≤ _ by decide)⟩

/-- The seven bits behind the one of `channel.flow` are not encoded again. -/
theorem channelFlow_notReproduced :
    ∃ net m octets, decode channelProtocol (fun _ _ => true) net = .ok (m, []) ∧
      encode m = some octets ∧ octets ≠ net := by
  refine ⟨[0, 20, 0, 20, 255], .known channelClass channelClass_mem _
    (mem_cons_of_mem _ (mem_cons_of_mem _ mem_cons_self)) (true, ()),
    [0, 20, 0, 20, 1], rfl, rfl, by decide⟩

end OpenAmq
