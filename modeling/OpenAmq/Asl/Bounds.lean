import OpenAmq.Asl.Wire

/-!
# Memory safety of the field table parser

`asl_field_parse` moves a pointer through the field table. Here every read is made at a
position and every copy into a buffer, so that a read at or past the limit, a write past a
buffer and the failed assertion are outcomes of their own (`Violation`). The fields that
have been allocated and not destroyed are counted.

* `fieldListNewAt_safe_iff` — which field tables are parsed without a violation
* `fieldListNewAt_eq_ok` — what is then returned agrees with `fieldListNew`
-/

namespace OpenAmq

open List

/-- What the parser must not do. -/
inductive Violation where
  /-- An octet at or past the limit is read. -/
  | read
  /-- An octet is written past the end of a name or a string. -/
  | write
  /-- `assert (input <= limit)` -/
  | assertion
  /-- The loop goes on for longer than there are octets. -/
  | unfinished
deriving DecidableEq

/-- `asl_field_list` while it is being parsed. -/
structure FieldList where
  fields : List Field
  /-- Fields that are allocated, in the list or not. -/
  live : Nat

/-! ## The parser -/

/-- `*input` -/
def readOctet (table : Longstr) (input : Nat) : Except Violation UInt8 :=
  match table[input]? with
  | some octet => .ok octet
  | none => .error .read

variable {table rest : Longstr} {input n fuel : Nat} {type : UInt8} {list : FieldList}

theorem readOctet_ahead {ahead : Longstr} (h : table.drop input = ahead) {i : Nat} {octet : UInt8}
    (hi : ahead[i]? = some octet) : readOctet table (input + i) = .ok octet := by
  rw [← h, getElem?_drop] at hi
  rw [readOctet, hi]

/-- `ASL_FIELD_GET_LONG` -/
def readLong (table : Longstr) (input : Nat) : Except Violation Nat :=
  match getLong (table.drop input) with
  | some (n, _) => .ok n
  | none => .error .read

/-- `memcpy` of `size` octets into a buffer of `maxSize`. -/
def copyOctets (table : Longstr) (input size maxSize : Nat) : Except Violation Longstr :=
  if maxSize < size then .error .write
  else if table.length < input + size then .error .read
  else .ok ((table.drop input).take size)

/--
The string of `size` octets at `input`.

From 2^31 on the size is negative as an `int`. As a `size_t` it is then more than can be
allocated, or wraps to zero when one is added for the terminator.
-/
def copyString (table : Longstr) (input size maxSize : Nat) : Except Violation Longstr :=
  if 0x80000000 ≤ size then .error .write
  else copyOctets table input size maxSize

/-- The value at `input` with the position behind it, nothing for an unknown type. -/
def readValue (table : Longstr) (type : UInt8) (input : Nat) :
    Except Violation (Option (FieldValue × Nat)) :=
  if type = 'S'.toUInt8 then do
    let size ← readLong table input
    let data ← copyString table (input + 4) size (size + 1)
    return some (.string data, input + 4 + size)
  else if type = 'I'.toUInt8 then do
    let n ← readLong table input
    return some (.integer (toInt32 n), input + 4)
  else if type = 'D'.toUInt8 then do
    let decimals ← readOctet table input
    let n ← readLong table (input + 1)
    return some (.decimal decimals (toInt32 n), input + 1 + 4)
  else if type = 'T'.toUInt8 then do
    let n ← readLong table input
    return some (.time (toInt32 n), input + 4)
  else if type = 'F'.toUInt8 then do
    let size ← readLong table input
    let data ← copyString table (input + 4) size size
    return some (.fieldTable data, input + 4 + size)
  else if type = 'V'.toUInt8 then
    return some (.void, input)
  else do
    -- the message about the invalid type shows the octet behind it
    let _ ← readOctet table input
    return none

/-- `asl_field_parse`: the list with the new field, and `field_end`. -/
def fieldParseAt (table : Longstr) (list : FieldList) (input : Nat) :
    Except Violation (FieldList × Option Nat) := do
  let live := list.live + 1
  let size ← readOctet table input
  let name ← copyOctets table (input + 1) size.toNat shortstrMax
  if table.length < input + 1 + size.toNat then throw .assertion
  let type ← readOctet table (input + 1 + size.toNat)
  match ← readValue table type (input + 1 + size.toNat + 1) with
  | none => return (⟨list.fields, live - 1⟩, none)
  | some (value, fieldEnd) =>
    if table.length < fieldEnd then return (⟨list.fields, live - 1⟩, none)
    else return (⟨list.fields ++ [⟨cstring name, value⟩], live⟩, some fieldEnd)

/-- `asl_field_list_parse` from `input` on, and whether it succeeds. -/
def fieldListParseAt (table : Longstr) :
    (fuel : Nat) → FieldList → Nat → Except Violation (FieldList × Bool)
  | 0, list, input => if table.length ≤ input then .ok (list, true) else .error .unfinished
  | fuel + 1, list, input =>
    if table.length ≤ input then .ok (list, true)
    else do
      match ← fieldParseAt table list input with
      | (list, some fieldEnd) => fieldListParseAt table fuel list fieldEnd
      | (list, none) => return (list, false)

/--
`asl_field_list_new`: the list, null when the table is rejected, and the number of fields
that stay allocated. Destroying the list destroys the fields in it.
-/
def fieldListNewAt (table : Longstr) : Except Violation (Option (List Field) × Nat) := do
  let (list, ok) ← fieldListParseAt table table.length ⟨[], 0⟩ 0
  if ok then return (some list.fields, list.live)
  else return (none, list.live - list.fields.length)

/-! ## One field -/

theorem readOctet_of_drop {b : UInt8} (h : table.drop input = b :: rest) :
    readOctet table input = .ok b := by
  have hb : table[input]? = some b := by rw [← head?_drop, h]; rfl
  rw [readOctet, hb]

theorem readOctet_of_nil (h : table.drop input = []) : readOctet table input = .error .read := by
  have hb : table[input]? = none := by rw [← head?_drop, h]; rfl
  rw [readOctet, hb]

theorem drop_of_drop_eq_append {as bs : Longstr} (h : table.drop input = as ++ bs)
    (hn : as.length = n) : bs = table.drop (input + n) := by
  rw [← drop_drop, h, ← hn, drop_left]

theorem le_length_of_drop_eq_append {as bs : Longstr} (h : table.drop input = as ++ bs)
    (hn : as.length = n) (hi : input ≤ table.length) : input + n ≤ table.length := by
  have := congrArg length h
  rw [length_drop, length_append] at this
  omega

theorem getLong_drop (h : getLong (table.drop input) = some (n, rest)) (hi : input ≤ table.length) :
    rest = table.drop (input + 4) ∧ input + 4 ≤ table.length := by
  have hd := (getLong_eq_some h).2
  have hl := Lib.length_bigEndian 4 n
  exact ⟨drop_of_drop_eq_append hd hl, le_length_of_drop_eq_append hd hl hi⟩

theorem readLong_of_getLong (h : getLong (table.drop input) = some (n, rest)) :
    readLong table input = .ok n := by
  rw [readLong, h]

theorem readLong_of_none (h : getLong (table.drop input) = none) :
    readLong table input = .error .read := by
  rw [readLong, h]

theorem getInteger_drop (hi : input ≤ table.length) :
    match getInteger (table.drop input) with
    | .ok (value, rest) => ∃ n, readLong table input = .ok n ∧ toInt32 n = value ∧
        rest = table.drop (input + 4) ∧ input + 4 ≤ table.length
    | .error _ => readLong table input = .error .read := by
  unfold getInteger
  cases hl : getLong (table.drop input) with
  | none => exact readLong_of_none hl
  | some r => exact ⟨r.1, readLong_of_getLong hl, rfl, getLong_drop hl hi⟩

theorem getString_drop (hi : input ≤ table.length) :
    match getString (table.drop input) with
    | .ok (data, rest) => ∃ size, readLong table input = .ok size ∧
        (∀ maxSize, size ≤ maxSize → copyString table (input + 4) size maxSize = .ok data) ∧
        rest = table.drop (input + 4 + size) ∧ input + 4 + size ≤ table.length
    | .error _ => readLong table input = .error .read ∨ ∃ size, readLong table input = .ok size ∧
        ∀ maxSize, ∃ v, copyString table (input + 4) size maxSize = .error v := by
  unfold getString
  cases hl : getLong (table.drop input) with
  | none => exact .inl (readLong_of_none hl)
  | some r =>
    obtain ⟨size, tail⟩ := r
    obtain ⟨rfl, hle⟩ := getLong_drop hl hi
    simp only [length_drop]
    by_cases hs : size < 0x80000000 ∧ size ≤ table.length - (input + 4)
    · rw [if_pos hs]
      refine ⟨size, readLong_of_getLong hl, ?_, drop_drop, by omega⟩
      intro maxSize hm
      rw [copyString, if_neg (by omega), copyOctets, if_neg (by omega), if_neg (by omega)]
    · rw [if_neg hs]
      refine .inr ⟨size, readLong_of_getLong hl, ?_⟩
      intro maxSize
      rw [copyString]
      split
      · exact ⟨_, rfl⟩
      · rw [copyOctets]
        split
        · exact ⟨_, rfl⟩
        · rw [if_pos (by omega)]
          exact ⟨_, rfl⟩

def ReadsAs (table : Longstr) (input : Nat) : Except ParseError (FieldValue × List UInt8) →
    Except Violation (Option (FieldValue × Nat)) → Prop
  | .ok (value, rest), result =>
    ∃ fieldEnd, result = .ok (some (value, fieldEnd)) ∧ rest = table.drop fieldEnd ∧
      fieldEnd ≤ table.length
  | .error .rejected, result => result = (readOctet table input).map fun _ => none
  | .error .fault, result => ∃ v, result = .error v

theorem readsAs_integer {at' : Nat} {make : Int → FieldValue} (hi : at' ≤ table.length) :
    ReadsAs table input ((getInteger (table.drop at')).map fun r => (make r.1, r.2)) (do
      let n ← readLong table at'
      return some (make (toInt32 n), at' + 4)) := by
  have h := getInteger_drop hi
  cases hg : getInteger (table.drop at') with
  | ok r =>
    rw [hg] at h
    obtain ⟨n, hn, hv, hr, hle⟩ := h
    rw [hn]
    exact ⟨at' + 4, by rw [← hv]; rfl, hr, hle⟩
  | error e =>
    cases (show e = .fault by
      unfold getInteger at hg
      split at hg <;> cases hg
      rfl)
    rw [hg] at h
    rw [h]
    exact ⟨.read, rfl⟩

theorem readsAs_string {make : Longstr → FieldValue} (hi : input ≤ table.length)
    {maxSize : Nat → Nat} (hm : ∀ size, size ≤ maxSize size) :
    ReadsAs table input ((getString (table.drop input)).map fun r => (make r.1, r.2)) (do
      let size ← readLong table input
      let data ← copyString table (input + 4) size (maxSize size)
      return some (make data, input + 4 + size)) := by
  have h := getString_drop hi
  cases hg : getString (table.drop input) with
  | ok r =>
    rw [hg] at h
    obtain ⟨size, hn, hcopy, hr, hle⟩ := h
    rw [hn]
    simp only [bind, Except.bind]
    rw [hcopy _ (hm size)]
    exact ⟨input + 4 + size, rfl, hr, hle⟩
  | error e =>
    cases (show e = .fault by
      unfold getString at hg
      split at hg
      · split at hg <;> cases hg
        rfl
      · cases hg
        rfl)
    rw [hg] at h
    rcases h with h | ⟨size, hn, hcopy⟩
    · rw [h]
      exact ⟨.read, rfl⟩
    · obtain ⟨v, hv⟩ := hcopy (maxSize size)
      rw [hn]
      simp only [bind, Except.bind]
      rw [hv]
      exact ⟨v, rfl⟩

theorem readValue_readsAs (type : UInt8) (hi : input ≤ table.length) :
    ReadsAs table input (parseValue type (table.drop input)) (readValue table type input) := by
  rw [parseValue.eq_def, readValue]
  by_cases hS : type = 'S'.toUInt8
  · rw [if_pos hS, if_pos hS]
    exact readsAs_string hi fun size => Nat.le_succ size
  rw [if_neg hS, if_neg hS]
  by_cases hI : type = 'I'.toUInt8
  · rw [if_pos hI, if_pos hI]
    exact readsAs_integer hi
  rw [if_neg hI, if_neg hI]
  by_cases hD : type = 'D'.toUInt8
  · rw [if_pos hD, if_pos hD]
    cases hd : table.drop input with
    | nil =>
      rw [readOctet_of_nil hd]
      exact ⟨.read, rfl⟩
    | cons decimals rest =>
      have hd' : table.drop input = [decimals] ++ rest := hd
      rw [readOctet_of_drop hd, drop_of_drop_eq_append hd' rfl]
      exact readsAs_integer (le_length_of_drop_eq_append hd' rfl hi)
  rw [if_neg hD, if_neg hD]
  by_cases hT : type = 'T'.toUInt8
  · rw [if_pos hT, if_pos hT]
    exact readsAs_integer hi
  rw [if_neg hT, if_neg hT]
  by_cases hF : type = 'F'.toUInt8
  · rw [if_pos hF, if_pos hF]
    exact readsAs_string hi fun size => Nat.le_refl size
  rw [if_neg hF, if_neg hF]
  by_cases hV : type = 'V'.toUInt8
  · rw [if_pos hV, if_pos hV]
    exact ⟨input, rfl, rfl, hi⟩
  rw [if_neg hV, if_neg hV]
  show _ = (readOctet table input).map _
  cases readOctet table input <;> rfl

def fieldTypes : List UInt8 :=
  ['S'.toUInt8, 'I'.toUInt8, 'D'.toUInt8, 'T'.toUInt8, 'F'.toUInt8, 'V'.toUInt8]

theorem parseValue_eq_rejected (h : type ∉ fieldTypes) (input : List UInt8) :
    parseValue type input = .error .rejected := by
  simp only [fieldTypes, mem_cons, not_mem_nil, or_false, not_or] at h
  obtain ⟨hS, hI, hD, hT, hF, hV⟩ := h
  rw [parseValue.eq_def, if_neg hS, if_neg hI, if_neg hD, if_neg hT, if_neg hF, if_neg hV]

theorem getInteger_ne_rejected (input : List UInt8) : getInteger input ≠ .error .rejected := by
  unfold getInteger
  split <;> exact nofun

theorem getString_ne_rejected (input : List UInt8) : getString input ≠ .error .rejected := by
  unfold getString
  split
  · split <;> exact nofun
  · exact nofun

theorem Except.eq_error_of_map {ε α β : Type*} {f : α → β} {x : Except ε α} {e : ε}
    (h : x.map f = .error e) : x = .error e := by
  cases x with
  | error e' => cases h; rfl
  | ok a => cases h

theorem notMem_of_rejected {input : List UInt8} (h : parseValue type input = .error .rejected) :
    type ∉ fieldTypes := by
  rw [parseValue.eq_def] at h
  split at h
  · exact absurd (Except.eq_error_of_map h) (getString_ne_rejected input)
  next hS =>
  split at h
  · exact absurd (Except.eq_error_of_map h) (getInteger_ne_rejected input)
  next hI =>
  split at h
  · split at h
    · exact absurd (Except.eq_error_of_map h) (getInteger_ne_rejected _)
    · cases h
  next hD =>
  split at h
  · exact absurd (Except.eq_error_of_map h) (getInteger_ne_rejected input)
  next hT =>
  split at h
  · exact absurd (Except.eq_error_of_map h) (getString_ne_rejected input)
  next hF =>
  split at h
  · cases h
  next hV =>
  simp only [fieldTypes, mem_cons, not_mem_nil, or_false, not_or]
  exact ⟨hS, hI, hD, hT, hF, hV⟩

theorem fieldParseAt_of_drop {name : Longstr} (list : FieldList) (hi : input ≤ table.length)
    (hn : name.length ≤ shortstrMax)
    (h : table.drop input = UInt8.ofNat name.length :: (name ++ type :: rest)) :
    table.drop (input + 1 + name.length + 1) = rest ∧
    input + 1 + name.length + 1 ≤ table.length ∧
    fieldParseAt table list input = do
      match ← readValue table type (input + 1 + name.length + 1) with
      | none => return (list, none)
      | some (value, fieldEnd) =>
        if table.length < fieldEnd then return (list, none)
        else return (⟨list.fields ++ [⟨cstring name, value⟩], list.live + 1⟩, some fieldEnd) := by
  have hsize : (UInt8.ofNat name.length).toNat = name.length := by
    exact Nat.mod_eq_of_lt (Nat.lt_succ_of_le hn)
  have h1 : table.drop input = [UInt8.ofNat name.length] ++ (name ++ type :: rest) := h
  have hle1 := le_length_of_drop_eq_append h1 rfl hi
  have h2 : table.drop (input + 1) = name ++ type :: rest := (drop_of_drop_eq_append h1 rfl).symm
  have hle2 := le_length_of_drop_eq_append h2 rfl hle1
  have h3 : table.drop (input + 1 + name.length) = [type] ++ rest :=
    (drop_of_drop_eq_append h2 rfl).symm
  have hle3 := le_length_of_drop_eq_append h3 rfl hle2
  have hcopy : copyOctets table (input + 1) name.length shortstrMax = .ok name := by
    rw [copyOctets, if_neg (by omega), if_neg (by omega), h2, take_left]
  refine ⟨(drop_of_drop_eq_append h3 rfl).symm, hle3, ?_⟩
  rw [fieldParseAt, readOctet_of_drop h]
  simp only [bind, Except.bind, hsize]
  rw [hcopy]
  simp only
  rw [if_neg (by omega)]
  rw [readOctet_of_drop h3]
  rfl

theorem drop_of_fieldParseAt {r : FieldList × Option Nat} (hi : input ≤ table.length)
    (h : fieldParseAt table list input = .ok r) :
    ∃ name type rest, name.length ≤ shortstrMax ∧
      table.drop input = UInt8.ofNat name.length :: (name ++ type :: rest) := by
  rw [fieldParseAt] at h
  cases hd : table.drop input with
  | nil =>
    rw [readOctet_of_nil hd] at h
    cases h
  | cons size tail =>
    rw [readOctet_of_drop hd] at h
    simp only [bind, Except.bind] at h
    have hd1 : table.drop input = [size] ++ tail := hd
    have htail : tail = table.drop (input + 1) := drop_of_drop_eq_append hd1 rfl
    have hle := UInt8.toNat_lt size
    by_cases hs : table.length < input + 1 + size.toNat
    · rw [copyOctets, if_neg (by unfold shortstrMax; omega), if_pos hs] at h
      cases h
    · have hdrop : tail.drop size.toNat = table.drop (input + 1 + size.toNat) := by
        rw [htail, drop_drop]
      have hlen : (tail.take size.toNat).length = size.toNat := by
        rw [length_take, htail, length_drop]
        omega
      rw [copyOctets, if_neg (by unfold shortstrMax; omega), if_neg hs] at h
      simp only at h
      rw [if_neg hs] at h
      cases ht : table.drop (input + 1 + size.toNat) with
      | nil =>
        rw [readOctet_of_nil ht] at h
        cases h
      | cons type rest =>
        refine ⟨tail.take size.toNat, type, rest, ?_, ?_⟩
        · rw [hlen]
          unfold shortstrMax
          omega
        · rw [hlen, UInt8.ofNat_toNat, ← ht, ← hdrop, take_append_drop]

/-- A field of unknown type, with an octet behind the type. -/
def UnknownField (octets : List UInt8) : Prop :=
  ∃ (name : List UInt8) (type next : UInt8) (rest : List UInt8), name.length ≤ shortstrMax ∧
    type ∉ fieldTypes ∧ octets = UInt8.ofNat name.length :: (name ++ type :: next :: rest)

theorem fieldParseAt_field (list : FieldList) (hi : input ≤ table.length) (self : WireField)
    (h : table.drop input = self.octets ++ rest) :
    fieldParseAt table list input =
      .ok (⟨list.fields ++ [self.field], list.live + 1⟩, some (input + self.octets.length)) := by
  have hd : table.drop input = UInt8.ofNat self.name.length ::
      (self.name ++ self.value.type :: (self.value.octets ++ rest)) := by
    rw [h, WireField.octets, cons_append, append_assoc, cons_append]
  obtain ⟨hrest, hle, hp⟩ := fieldParseAt_of_drop list hi self.name_le hd
  have hv := readValue_readsAs self.value.type hle
  rw [hrest, parseValue_octets self.fits] at hv
  obtain ⟨e, hv, he, hel⟩ := hv
  have hpos : e = input + self.octets.length := by
    have h1 := congrArg length hrest
    have h2 := congrArg length he
    simp only [length_drop, length_append] at h1 h2
    simp only [WireField.octets, length_cons, length_append]
    omega
  rw [hp, hv]
  simp only [bind, Except.bind]
  rw [if_neg (by omega), hpos]
  rfl

theorem fieldParseAt_unknown (list : FieldList) (hi : input ≤ table.length)
    (h : UnknownField (table.drop input)) : fieldParseAt table list input = .ok (list, none) := by
  obtain ⟨name, type, next, rest, hn, ht, hd⟩ := h
  obtain ⟨hrest, hle, hp⟩ := fieldParseAt_of_drop list hi hn hd
  have hv := readValue_readsAs type hle
  rw [parseValue_eq_rejected ht] at hv
  rw [hp, hv, readOctet_of_drop hrest]
  rfl

theorem fieldParseAt_eq_ok {r : FieldList × Option Nat} (hi : input ≤ table.length)
    (h : fieldParseAt table list input = .ok r) :
    (∃ (self : WireField) (rest : List UInt8), table.drop input = self.octets ++ rest) ∨
      UnknownField (table.drop input) := by
  obtain ⟨name, type, rest, hn, hd⟩ := drop_of_fieldParseAt hi h
  obtain ⟨hrest, hle, hp⟩ := fieldParseAt_of_drop list hi hn hd
  have hv := readValue_readsAs type hle
  rw [hrest] at hv
  rw [hp] at h
  cases hpv : parseValue type rest with
  | ok r =>
    obtain ⟨value, tail⟩ := r
    obtain ⟨rfl, hfits, rfl⟩ := parseValue_eq_ok hpv
    refine .inl ⟨⟨name, value, hn, hfits⟩, tail, ?_⟩
    rw [hd, WireField.octets, cons_append, append_assoc, cons_append]
  | error e =>
    rw [hpv] at hv
    cases e with
    | rejected =>
      cases rest with
      | nil =>
        rw [show _ = _ from hv, readOctet_of_nil hrest] at h
        cases h
      | cons next rest => exact .inr ⟨name, type, next, rest, hn, notMem_of_rejected hpv, hd⟩
    | fault =>
      obtain ⟨v, hv⟩ := hv
      rw [hv] at h
      cases h

/-! ## The whole table -/

/-- Whole fields, up to the end of the table or up to a field of unknown type. -/
def WellFramed (table : List UInt8) : Prop :=
  ∃ (fields : List WireField) (tail : List UInt8),
    table = fields.flatMap WireField.octets ++ tail ∧ (tail = [] ∨ UnknownField tail)

theorem fieldListParseAt_succ (h : input < table.length) :
    fieldListParseAt table (fuel + 1) list input = do
      match ← fieldParseAt table list input with
      | (list, some fieldEnd) => fieldListParseAt table fuel list fieldEnd
      | (list, none) => return (list, false) := by
  rw [fieldListParseAt, if_neg (Nat.not_le_of_lt h)]

theorem fieldListParseAt_end (h : table.length ≤ input) :
    fieldListParseAt table fuel list input = .ok (list, true) := by
  cases fuel <;> rw [fieldListParseAt, if_pos h]

theorem fieldListParseAt_of_drop {tail : Longstr} {fields : List WireField} (list : FieldList)
    (hi : input ≤ table.length) (h : table.drop input = fields.flatMap WireField.octets ++ tail)
    (ht : tail = [] ∨ UnknownField tail) (hf : fields.length + tail.length ≤ fuel) :
    fieldListParseAt table fuel list input =
      .ok (⟨list.fields ++ fields.map WireField.field, list.live + fields.length⟩,
        tail.isEmpty) := by
  induction fields generalizing fuel list input with
  | nil =>
    rw [flatMap_nil, nil_append] at h
    rw [map_nil, append_nil]
    rcases ht with rfl | hu
    · exact fieldListParseAt_end (drop_eq_nil_iff.mp h)
    · obtain ⟨name, type, next, rest, -, -, hcons⟩ := id hu
      have hlen : input < table.length := by
        have := congrArg length h
        rw [hcons, length_drop, length_cons] at this
        omega
      cases fuel with
      | zero =>
        rw [hcons] at hf
        simp at hf
      | succ fuel =>
        rw [fieldListParseAt_succ hlen, fieldParseAt_unknown list hi (by rw [h]; exact hu), hcons]
        rfl
  | cons self fields ih =>
    rw [flatMap_cons, append_assoc] at h
    have hlen : input < table.length := by
      have := congrArg length h
      rw [length_drop, WireField.octets, cons_append, length_cons] at this
      omega
    cases fuel with
    | zero => simp at hf
    | succ fuel =>
      rw [fieldListParseAt_succ hlen, fieldParseAt_field list hi self h]
      simp only [bind, Except.bind]
      rw [ih _ (le_length_of_drop_eq_append h rfl hi) (drop_of_drop_eq_append h rfl).symm
        (by rw [length_cons] at hf; omega)]
      rw [map_cons, length_cons, append_assoc, singleton_append, Nat.add_assoc, Nat.add_comm 1]

theorem wellFramed_of_fieldListParseAt {r : FieldList × Bool} (hi : input ≤ table.length)
    (h : fieldListParseAt table fuel list input = .ok r) : WellFramed (table.drop input) := by
  by_cases hlen : table.length ≤ input
  · rw [drop_eq_nil_of_le hlen]
    exact ⟨[], [], rfl, .inl rfl⟩
  · induction fuel generalizing list input with
    | zero =>
      rw [fieldListParseAt, if_neg hlen] at h
      cases h
    | succ fuel ih =>
      rw [fieldListParseAt_succ (Nat.lt_of_not_le hlen)] at h
      cases hp : fieldParseAt table list input with
      | error v =>
        rw [hp] at h
        cases h
      | ok r =>
        rcases fieldParseAt_eq_ok hi hp with ⟨self, rest, hd⟩ | hu
        · rw [fieldParseAt_field list hi self hd] at h
          have hle := le_length_of_drop_eq_append hd rfl hi
          have hrest := drop_of_drop_eq_append hd rfl
          have hframed : WellFramed (table.drop (input + self.octets.length)) := by
            by_cases hend : table.length ≤ input + self.octets.length
            · rw [drop_eq_nil_of_le hend]
              exact ⟨[], [], rfl, .inl rfl⟩
            · exact ih hle h hend
          obtain ⟨fields, tail, ht, htail⟩ := hframed
          refine ⟨self :: fields, tail, ?_, htail⟩
          rw [hd, hrest, ht, flatMap_cons, append_assoc]
        · exact ⟨[], table.drop input, rfl, .inr hu⟩

theorem fieldListNewAt_of_eq {tail : Longstr} {fields : List WireField}
    (h : table = fields.flatMap WireField.octets ++ tail) (ht : tail = [] ∨ UnknownField tail) :
    fieldListNewAt table =
      if tail.isEmpty then .ok (some (fields.map WireField.field), fields.length)
      else .ok (none, 0) := by
  have hf : fields.length + tail.length ≤ table.length := by
    have := Lib.length_le_length_flatMap WireField.octets_ne_nil fields
    rw [h, length_append]
    omega
  have hp := fieldListParseAt_of_drop ⟨[], 0⟩ (Nat.zero_le table.length) h ht hf
  rw [fieldListNewAt, hp]
  cases tail with
  | nil =>
    simp only [bind, Except.bind, isEmpty_nil, nil_append, Nat.zero_add]
    rfl
  | cons b tail =>
    simp only [bind, Except.bind, isEmpty_cons, nil_append, Nat.zero_add, length_map, Nat.sub_self]
    rfl

/--
The parser returns without a violation: a list of fields that together are the table, or
null with nothing left allocated.
-/
def ParsedSafely (table : Longstr) : Prop :=
  ∃ list live, fieldListNewAt table = .ok (list, live) ∧ ((list = none ∧ live = 0) ∨
      ∃ fields : List WireField, list = some (fields.map WireField.field) ∧
        live = fields.length ∧ table = fields.flatMap WireField.octets)

theorem wellFramed_of_fieldListNewAt {r : Option (List Field) × Nat}
    (h : fieldListNewAt table = .ok r) : WellFramed table := by
  rw [fieldListNewAt] at h
  cases hp : fieldListParseAt table table.length ⟨[], 0⟩ 0 with
  | error v =>
    rw [hp] at h
    cases h
  | ok r => exact wellFramed_of_fieldListParseAt (Nat.zero_le _) hp

/-- The parser is safe on the field tables that are well framed, and on no other. -/
theorem fieldListNewAt_safe_iff (table : Longstr) : ParsedSafely table ↔ WellFramed table := by
  constructor
  · rintro ⟨list, live, h, -⟩
    exact wellFramed_of_fieldListNewAt h
  · rintro ⟨fields, tail, h, ht⟩
    have hn := fieldListNewAt_of_eq h ht
    cases tail with
    | nil =>
      rw [append_nil] at h
      exact ⟨_, _, hn, .inr ⟨fields, rfl, rfl, h⟩⟩
    | cons b tail => exact ⟨_, _, hn, .inl ⟨rfl, rfl⟩⟩

/-- One octet that announces a name is enough to read past the limit. -/
theorem fieldListNewAt_unsafe : fieldListNewAt [5] = .error .read ∧ ¬ ParsedSafely [5] := by
  have h : fieldListNewAt [5] = .error .read := by decide
  refine ⟨h, ?_⟩
  rintro ⟨list, live, hok, -⟩
  cases hok

theorem fieldListNewAt_eq_ok {list : List Field} :
    fieldListNewAt table = .ok (some list, list.length) ↔ fieldListNew (some table) = .ok list := by
  constructor
  · intro h
    obtain ⟨fields, tail, ht, htail⟩ := wellFramed_of_fieldListNewAt h
    rw [fieldListNewAt_of_eq ht htail] at h
    cases tail with
    | nil =>
      simp only [isEmpty_nil, if_true, Except.ok.injEq, Prod.mk.injEq, Option.some.injEq] at h
      rw [ht, append_nil, fieldListNew_flatMap, h.1]
    | cons b tail => cases h
  · intro h
    obtain ⟨fields, rfl, ht⟩ := fieldListNew_eq_ok h
    rw [fieldListNewAt_of_eq (ht.trans (append_nil _).symm) (.inl rfl), length_map]
    rfl

end OpenAmq
