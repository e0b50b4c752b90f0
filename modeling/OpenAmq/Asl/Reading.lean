import OpenAmq.Asl.Bounds
import OpenAmq.Asl.MethodCodec

/-!
# The `GET_` macros at a position

The macros compare the pointer `net` with `data_limit` before they read. Here both are
positions in a bucket, every read is made from the bucket, and every string is copied into
its buffer, so that a macro may commit a `Violation`.

* `DataType.getAt` — the macro for a field of the type
* `DataType.getAt_eq` — it does with a position what `DataType.get` does with the octets
  from there up to the limit
* `DataType.Occupies` — the octets of one whole field
-/

namespace OpenAmq

open List

/-! ## The macros -/

/-- A number of `width` octets at `net`. Nothing stands for `goto underflow`. -/
def getWordAt (bucket : List UInt8) (dataLimit width net : Nat) :
    Except Violation (Option (Nat × Nat)) :=
  if dataLimit < net + width then .ok none
  else
    match Lib.readBigEndian width (bucket.drop net) with
    | some (host, _) => .ok (some (host, net + width))
    | none => .error .read

/-- `GET_SSTR` -/
def getSstrAt (bucket : List UInt8) (dataLimit net : Nat) :
    Except Violation (Option (ShortText × Nat)) :=
  if dataLimit < net + 1 then .ok none
  else do
    let stringSize ← readOctet bucket net
    if dataLimit < net + 1 + stringSize.toNat then return none
    let host ← copyOctets bucket (net + 1) stringSize.toNat shortstrMax
    return some (.ofOctets host, net + 1 + stringSize.toNat)

/-- `GET_LSTR`; a negative count moves the pointer back, and so passes the test. -/
def getLstrAt (bucket : List UInt8) (dataLimit net : Nat) :
    Except Violation (Option (Option Longstr × Nat)) := do
  match ← getWordAt bucket dataLimit 4 net with
  | none => return none
  | some (stringSize, net) =>
    if stringSize < 0x80000000 ∧ dataLimit < net + stringSize then return none
    let host ← copyString bucket net stringSize (stringSize + 1)
    return some (some host, net + stringSize)

/-- The `GET_` macro for a field of the type. -/
def DataType.getAt (bucket : List UInt8) (dataLimit : Nat) :
    (type : DataType) → Nat → Except Violation (Option (type.Value × Nat))
  | char, net => (getWordAt bucket dataLimit 1 net).map (·.map fun r => (UInt8.ofNat r.1, r.2))
  | octet, net => (getWordAt bucket dataLimit 1 net).map (·.map fun r => (UInt8.ofNat r.1, r.2))
  | short, net => (getWordAt bucket dataLimit 2 net).map (·.map fun r => (UInt16.ofNat r.1, r.2))
  | long, net => (getWordAt bucket dataLimit 4 net).map (·.map fun r => (UInt32.ofNat r.1, r.2))
  | longlong, net =>
    (getWordAt bucket dataLimit 8 net).map (·.map fun r => ((UInt64.ofNat r.1).toInt64, r.2))
  | timestamp, net =>
    (getWordAt bucket dataLimit 8 net).map (·.map fun r => ((UInt64.ofNat r.1).toInt64, r.2))
  | shortstr, net => getSstrAt bucket dataLimit net
  | longstr, net => getLstrAt bucket dataLimit net
  | table, net => getLstrAt bucket dataLimit net

/-! ## Positions and octets -/

/-- The octets from `net` up to the limit. -/
def window (bucket : List UInt8) (dataLimit net : Nat) : List UInt8 :=
  (bucket.take dataLimit).drop net

/-- The result of a macro, with the position in place of the octets behind it. -/
def atPosition {α : Type} (dataLimit : Nat) :
    Except GetError (α × List UInt8) → Except Violation (Option (α × Nat))
  | .ok (host, rest) => .ok (some (host, dataLimit - rest.length))
  | .error .underflow => .ok none
  | .error .fault => .error .write

variable {α : Type} {octets rest : List UInt8} {width : Nat} {type : DataType}

theorem atPosition_map {β : Type} (f : α → β) (dataLimit : Nat)
    (x : Except GetError (α × List UInt8)) :
    atPosition dataLimit (x.map fun r => (f r.1, r.2)) =
      (atPosition dataLimit x).map (·.map fun r => (f r.1, r.2)) := by
  cases x with
  | error e => cases e <;> rfl
  | ok r => rfl

section Window

variable {bucket : List UInt8} {dataLimit net : Nat}

theorem length_window (hl : dataLimit ≤ bucket.length) :
    (window bucket dataLimit net).length = dataLimit - net := by
  rw [window, length_drop, length_take, Nat.min_eq_left hl]

theorem drop_window (n : Nat) :
    (window bucket dataLimit net).drop n = window bucket dataLimit (net + n) := by
  rw [window, window, drop_drop]

theorem window_length : window bucket bucket.length net = bucket.drop net := by
  rw [window, take_length]

theorem window_of_drop (h : bucket.drop net = octets ++ rest) :
    window bucket (net + octets.length) net = octets := by
  rw [window, drop_take, Nat.add_sub_cancel_left, h, take_left]

theorem drop_eq_window_append (hl : dataLimit ≤ bucket.length) (hn : net ≤ dataLimit) :
    bucket.drop net = window bucket dataLimit net ++ bucket.drop dataLimit := by
  have hle : net ≤ (bucket.take dataLimit).length := by
    rw [length_take]
    omega
  rw [window, ← drop_append_of_le_length hle, take_append_drop]

theorem window_of_eq_append (hl : dataLimit ≤ bucket.length) (hn : net ≤ dataLimit)
    (h : window bucket dataLimit net = octets ++ rest) :
    net + octets.length ≤ dataLimit ∧ dataLimit - rest.length = net + octets.length ∧
      rest = window bucket dataLimit (net + octets.length) := by
  have hlen := congrArg length h
  rw [length_window hl, length_append] at hlen
  refine ⟨by omega, by omega, ?_⟩
  rw [← drop_window, h, drop_left]

theorem take_drop_eq_take_window (hl : dataLimit ≤ bucket.length) (hn : net ≤ dataLimit) {n : Nat}
    (h : net + n ≤ dataLimit) :
    (bucket.drop net).take n = (window bucket dataLimit net).take n := by
  rw [drop_eq_window_append hl hn, take_append_of_le_length]
  rw [length_window hl]
  omega

end Window

theorem readBigEndian_isSome_iff (width : Nat) (input : List UInt8) :
    (Lib.readBigEndian width input).isSome ↔ width ≤ input.length := by
  induction width generalizing input with
  | zero => simp [Lib.readBigEndian]
  | succ width ih =>
    cases input with
    | nil => simp [Lib.readBigEndian]
    | cons b bs =>
      rw [Lib.readBigEndian, Option.isSome_map, ih, length_cons]
      omega

section GetAt

variable {bucket : List UInt8} {dataLimit net : Nat}

theorem getWordAt_eq (hl : dataLimit ≤ bucket.length) (hn : net ≤ dataLimit) (width : Nat) :
    getWordAt bucket dataLimit width net =
      atPosition dataLimit (getWord width (window bucket dataLimit net)) := by
  have hsome := readBigEndian_isSome_iff width (window bucket dataLimit net)
  rw [length_window hl] at hsome
  unfold getWordAt getWord
  split
  · next hlt =>
    cases hr : Lib.readBigEndian width (window bucket dataLimit net) with
    | none => rfl
    | some r =>
      rw [hr] at hsome
      have := hsome.mp rfl
      omega
  · next hle =>
    cases hr : Lib.readBigEndian width (window bucket dataLimit net) with
    | none =>
      rw [hr] at hsome
      exact absurd (hsome.mpr (by omega)) Bool.false_ne_true
    | some r =>
      obtain ⟨host, rest⟩ := r
      obtain ⟨hlt, hw⟩ := Lib.readBigEndian_eq_some hr
      have hpos := (window_of_eq_append hl hn hw).2.1
      rw [Lib.length_bigEndian] at hpos
      rw [drop_eq_window_append hl hn, hw, append_assoc, Lib.readBigEndian_bigEndian,
        Nat.mod_eq_of_lt hlt]
      simp only [atPosition, hpos]

theorem getSstrAt_eq (hl : dataLimit ≤ bucket.length) (hn : net ≤ dataLimit) :
    getSstrAt bucket dataLimit net =
      atPosition dataLimit (getSstr (window bucket dataLimit net)) := by
  unfold getSstrAt
  cases hw : window bucket dataLimit net with
  | nil =>
    have hlen : (window bucket dataLimit net).length = dataLimit - net := length_window hl
    rw [hw, length_nil] at hlen
    rw [if_pos (by omega)]
    rfl
  | cons stringSize rest =>
    have hlen : (window bucket dataLimit net).length = dataLimit - net := length_window hl
    rw [hw, length_cons] at hlen
    have hd : bucket.drop net = stringSize :: (rest ++ bucket.drop dataLimit) := by
      rw [drop_eq_window_append hl hn, hw, cons_append]
    have hr : rest = window bucket dataLimit (net + 1) := by
      rw [← drop_window, hw]
      rfl
    rw [if_neg (by omega), readOctet_of_drop hd, getSstr]
    simp only [bind, Except.bind, pure, Except.pure]
    by_cases hs : dataLimit < net + 1 + stringSize.toNat
    · rw [if_pos hs, if_pos (by omega)]
      rfl
    · have hmax := UInt8.toNat_lt stringSize
      rw [if_neg hs, if_neg (by omega), copyOctets, if_neg (by unfold shortstrMax; omega),
        if_neg (by omega), take_drop_eq_take_window hl (by omega) (by omega), ← hr]
      simp only [atPosition, length_drop]
      congr 4
      omega

theorem getLstrAt_eq (hl : dataLimit ≤ bucket.length) (hn : net ≤ dataLimit) :
    getLstrAt bucket dataLimit net =
      atPosition dataLimit (getLstr (window bucket dataLimit net)) := by
  rw [getLstrAt, getWordAt_eq hl hn, getLstr]
  cases hw : getWord 4 (window bucket dataLimit net) with
  | error e => cases e <;> rfl
  | ok r =>
    obtain ⟨stringSize, rest⟩ := r
    obtain ⟨hle, hpos, hrest⟩ := window_of_eq_append hl hn (getWord_eq_ok hw).2
    rw [Lib.length_bigEndian] at hle hpos hrest
    have hlen : (window bucket dataLimit (net + 4)).length = dataLimit - (net + 4) :=
      length_window hl
    simp only [atPosition, bind, Except.bind, pure, Except.pure, hpos]
    by_cases hneg : 0x80000000 ≤ stringSize
    · rw [if_neg (by omega), if_pos hneg, copyString, if_pos hneg]
    · rw [if_neg hneg]
      by_cases hs : dataLimit < net + 4 + stringSize
      · rw [if_pos ⟨Nat.lt_of_not_le hneg, hs⟩, if_pos (by omega)]
      · rw [if_neg (fun h => hs h.2), if_neg (by omega), copyString, if_neg hneg, copyOctets,
          if_neg (by omega), if_neg (by omega), take_drop_eq_take_window hl hle (by omega), ← hrest]
        simp only [length_drop]
        congr 4
        omega

theorem DataType.getAt_eq (hl : dataLimit ≤ bucket.length) (hn : net ≤ dataLimit)
    (type : DataType) :
    type.getAt bucket dataLimit net =
      atPosition dataLimit (type.get (window bucket dataLimit net)) := by
  cases type with
  | char | octet =>
    show _ = atPosition dataLimit ((getWord 1 _).map fun r => (UInt8.ofNat r.1, r.2))
    rw [atPosition_map, ← getWordAt_eq hl hn]
    rfl
  | short =>
    show _ = atPosition dataLimit ((getWord 2 _).map fun r => (UInt16.ofNat r.1, r.2))
    rw [atPosition_map, ← getWordAt_eq hl hn]
    rfl
  | long =>
    show _ = atPosition dataLimit ((getWord 4 _).map fun r => (UInt32.ofNat r.1, r.2))
    rw [atPosition_map, ← getWordAt_eq hl hn]
    rfl
  | longlong | timestamp =>
    show _ = atPosition dataLimit ((getWord 8 _).map fun r => ((UInt64.ofNat r.1).toInt64, r.2))
    rw [atPosition_map fun n => (UInt64.ofNat n).toInt64, ← getWordAt_eq hl hn]
    rfl
  | shortstr => exact getSstrAt_eq hl hn
  | longstr | table => exact getLstrAt_eq hl hn

end GetAt

/-! ## The octets of a field -/

/-- The octets are one field of the type, as its `GET_` macro takes it. -/
def DataType.Occupies (octets : List UInt8) : DataType → Prop
  | char => octets.length = 1
  | octet => octets.length = 1
  | short => octets.length = 2
  | long => octets.length = 4
  | longlong => octets.length = 8
  | timestamp => octets.length = 8
  | shortstr => ∃ size text, octets = size :: text ∧ text.length = size.toNat
  | longstr => ∃ data : Longstr, data.length < 0x80000000 ∧ octets = putLong data.length ++ data
  | table => ∃ data : Longstr, data.length < 0x80000000 ∧ octets = putLong data.length ++ data

theorem getWord_of_length (h : octets.length = width) (rest : List UInt8) :
    ∃ host, getWord width (octets ++ rest) = .ok (host, rest) := by
  have hs := readBigEndian_isSome_iff width (octets ++ rest)
  obtain ⟨⟨host, tail⟩, hr⟩ := Option.isSome_iff_exists.mp (hs.mpr (by simp [h]))
  have htail := (Lib.readBigEndian_eq_some hr).2
  have hrest := append_inj htail (by rw [h, Lib.length_bigEndian])
  rw [getWord, hr, ← hrest.2]
  exact ⟨host, rfl⟩

theorem getWord_map_of_length (f : Nat → α) (h : octets.length = width) (rest : List UInt8) :
    ∃ host, (getWord width (octets ++ rest)).map (fun r => (f r.1, r.2)) = .ok (host, rest) := by
  obtain ⟨host, hw⟩ := getWord_of_length h rest
  rw [hw]
  exact ⟨f host, rfl⟩

theorem getLstr_of_data {data : Longstr} (h : data.length < 0x80000000) (rest : List UInt8) :
    getLstr (putLong data.length ++ data ++ rest) = .ok (some data, rest) :=
  @getLstr_putLstr (some data) h rest

theorem DataType.Occupies.get {type : DataType} {octets : List UInt8} (h : type.Occupies octets)
    (rest : List UInt8) : ∃ host, type.get (octets ++ rest) = .ok (host, rest) := by
  cases type with
  | char | octet => exact getWord_map_of_length UInt8.ofNat h rest
  | short => exact getWord_map_of_length UInt16.ofNat h rest
  | long => exact getWord_map_of_length UInt32.ofNat h rest
  | longlong | timestamp => exact getWord_map_of_length (fun n => (UInt64.ofNat n).toInt64) h rest
  | shortstr =>
    obtain ⟨size, text, rfl, hlen⟩ := h
    refine ⟨.ofOctets text, ?_⟩
    show getSstr (size :: (text ++ rest)) = _
    rw [getSstr, length_append, if_neg (by omega), ← hlen, take_left, drop_left]
    rfl
  | longstr | table =>
    obtain ⟨data, hlen, rfl⟩ := h
    exact ⟨some data, getLstr_of_data hlen rest⟩

variable {net : List UInt8}

theorem length_of_getWord_map {f : Nat → α} {host : α}
    (h : (getWord width net).map (fun r => (f r.1, r.2)) = .ok (host, rest)) :
    ∃ octets, net = octets ++ rest ∧ octets.length = width := by
  obtain ⟨n, -, -, hnet⟩ := getWord_map_eq_ok h
  exact ⟨_, hnet, Lib.length_bigEndian width n⟩

theorem data_of_getLstr {host : Option Longstr}
    (h : getLstr net = .ok (host, rest)) :
    ∃ octets, net = octets ++ rest ∧
      ∃ data : Longstr, data.length < 0x80000000 ∧ octets = putLong data.length ++ data := by
  have hput := putLstr_of_getLstr h
  unfold getLstr at h
  split at h
  · cases h
  · next size tail hw =>
    split at h
    · cases h
    · next hsmall =>
      split at h
      · cases h
      · next hle =>
        cases h
        refine ⟨_, hput, tail.take size, ?_, rfl⟩
        rw [length_take]
        omega

theorem octet_get_cons (octet : UInt8) (rest : List UInt8) :
    DataType.octet.get (octet :: rest) = .ok (octet, rest) := getOctet_putOctet octet rest

theorem DataType.occupies_of_get {type : DataType} {net rest : List UInt8} {host : type.Value}
    (h : type.get net = .ok (host, rest)) :
    ∃ octets, net = octets ++ rest ∧ type.Occupies octets := by
  cases type with
  | char | octet | short | long => exact length_of_getWord_map h
  | longlong | timestamp => exact length_of_getWord_map (f := fun n => (UInt64.ofNat n).toInt64) h
  | shortstr =>
    replace h : getSstr net = .ok (host, rest) := h
    unfold getSstr at h
    split at h
    · cases h
    · next size tail =>
      split at h
      · cases h
      · next hle =>
        cases h
        refine ⟨size :: tail.take size.toNat, ?_, size, tail.take size.toNat, rfl, ?_⟩
        · rw [cons_append, take_append_drop]
        · rw [length_take]
          omega
  | longstr | table => exact data_of_getLstr h

variable {bucket : List UInt8}

theorem DataType.getAt_of_ok {dataLimit net : Nat}
    (hl : dataLimit ≤ bucket.length) (hn : net ≤ dataLimit) {host : type.Value}
    (h : type.get (window bucket dataLimit net) = .ok (host, rest)) :
    ∃ net', type.getAt bucket dataLimit net = .ok (some (host, net')) ∧ net ≤ net' ∧
      net' ≤ dataLimit ∧ dataLimit - rest.length = net' ∧ rest = window bucket dataLimit net' := by
  obtain ⟨octets, hw, -⟩ := DataType.occupies_of_get h
  obtain ⟨hle, hpos, hrest⟩ := window_of_eq_append hl hn hw
  refine ⟨net + octets.length, ?_, Nat.le_add_right _ _, hle, hpos, hrest⟩
  rw [DataType.getAt_eq hl hn, h, atPosition, hpos]

theorem DataType.getAt_of_error {dataLimit net : Nat}
    (hl : dataLimit ≤ bucket.length) (hn : net ≤ dataLimit) {e : GetError}
    (h : type.get (window bucket dataLimit net) = .error e) :
    type.getAt bucket dataLimit net = atPosition dataLimit (.error e) := by
  rw [DataType.getAt_eq hl hn, h]

theorem getWordAt_of_ok {dataLimit net host : Nat}
    (hl : dataLimit ≤ bucket.length) (hn : net ≤ dataLimit)
    (h : getWord width (window bucket dataLimit net) = .ok (host, rest)) :
    getWordAt bucket dataLimit width net = .ok (some (host, net + width)) ∧
      net + width ≤ dataLimit ∧ rest = window bucket dataLimit (net + width) := by
  obtain ⟨hle, hpos, hrest⟩ := window_of_eq_append hl hn (getWord_eq_ok h).2
  rw [Lib.length_bigEndian] at hle hpos hrest
  refine ⟨?_, hle, hrest⟩
  rw [getWordAt_eq hl hn, h, atPosition, hpos]

theorem getWordAt_of_error {dataLimit net : Nat}
    (hl : dataLimit ≤ bucket.length) (hn : net ≤ dataLimit) {e : GetError}
    (h : getWord width (window bucket dataLimit net) = .error e) :
    getWordAt bucket dataLimit width net = .ok none := by
  rw [getWordAt_eq hl hn, h]
  unfold getWord at h
  split at h <;> cases h
  rfl

theorem getWord_ne_fault : getWord width net ≠ .error .fault := by
  unfold getWord
  split <;> exact nofun

theorem DataType.isLong_of_get_fault (h : type.get net = .error .fault) :
    type.isLong := by
  have hword : ∀ {α : Type} {width : Nat} {f : Nat → α},
      (getWord width net).map (fun r => (f r.1, r.2)) ≠ .error .fault := by
    intro α width f hf
    exact getWord_ne_fault (Except.eq_error_of_map hf)
  cases type with
  | char | octet | short | long => exact absurd h hword
  | longlong | timestamp => exact absurd h (hword (f := fun n => (UInt64.ofNat n).toInt64))
  | shortstr =>
    replace h : getSstr net = .error .fault := h
    unfold getSstr at h
    split at h
    · cases h
    · split at h <;> cases h
  | longstr | table => rfl

theorem not_fault_of_not_isLong (h : type.isLong = false) :
    type.get net ≠ .error .fault := by
  intro hf
  rw [DataType.isLong_of_get_fault hf] at h
  cases h

/-! ## One field more -/

section Cases

variable {bucket : List UInt8} {dataLimit net : Nat}

theorem DataType.getAt_cases (hl : dataLimit ≤ bucket.length) (hn : net ≤ dataLimit)
    (type : DataType) (hlong : type.isLong = false) :
    type.get (window bucket dataLimit net) = .error .underflow ∧
        type.getAt bucket dataLimit net = .ok none ∨
      ∃ host net', net' ≤ dataLimit ∧
        type.get (window bucket dataLimit net) = .ok (host, window bucket dataLimit net') ∧
        type.getAt bucket dataLimit net = .ok (some (host, net')) := by
  cases hget : type.get (window bucket dataLimit net) with
  | error e =>
    cases e with
    | underflow => exact .inl ⟨rfl, DataType.getAt_of_error hl hn hget⟩
    | fault => exact absurd hget (not_fault_of_not_isLong hlong)
  | ok r =>
    obtain ⟨host, rest⟩ := r
    obtain ⟨net', hat, -, hle, -, rfl⟩ := DataType.getAt_of_ok hl hn hget
    exact .inr ⟨host, net', hle, rfl, hat⟩

theorem getSstrAt_cases (hl : dataLimit ≤ bucket.length) (hn : net ≤ dataLimit) :
    getSstr (window bucket dataLimit net) = .error .underflow ∧
        getSstrAt bucket dataLimit net = .ok none ∨
      ∃ host net', net' ≤ dataLimit ∧
        getSstr (window bucket dataLimit net) = .ok (host, window bucket dataLimit net') ∧
        getSstrAt bucket dataLimit net = .ok (some (host, net')) :=
  DataType.getAt_cases hl hn .shortstr rfl

theorem getWordAt_cases (hl : dataLimit ≤ bucket.length) (hn : net ≤ dataLimit) (width : Nat) :
    getWord width (window bucket dataLimit net) = .error .underflow ∧
        getWordAt bucket dataLimit width net = .ok none ∨
      ∃ host, net + width ≤ dataLimit ∧ getWord width (window bucket dataLimit net) =
          .ok (host, window bucket dataLimit (net + width)) ∧
        getWordAt bucket dataLimit width net = .ok (some (host, net + width)) := by
  cases hget : getWord width (window bucket dataLimit net) with
  | error e =>
    cases e with
    | underflow => exact .inl ⟨rfl, getWordAt_of_error hl hn hget⟩
    | fault => exact absurd hget getWord_ne_fault
  | ok r =>
    obtain ⟨host, rest⟩ := r
    obtain ⟨hat, hle, rfl⟩ := getWordAt_of_ok hl hn hget
    exact .inr ⟨host, hle, rfl, hat⟩

end Cases

end OpenAmq
