import OpenAmq.Content.Model

/-!
# Content headers

A header that `replay header` writes is read back by `record header`: size, flags, writer and
reader go over the properties in step. Two things stand in the way of that. A bucket holds
at most two megabytes, and nothing keeps the writer to it; and the count of a long string that
comes from the network may be negative as an `int`.

* `calcPropertyFlags_spec`, `takeProperties_put` — the four passes agree
* `header_roundTrip_iff` — which contents round trip, and which octets are read safely
-/

namespace OpenAmq

open List

/-! ## Size and flags -/

/-- The octets of the properties that are set, as the wire format has them. -/
def Properties.setSize : {fields : List Property} → Properties fields → Nat
  | [], _ => 0
  | property :: _, (host, properties) =>
    (if property.type.isSet host then property.type.wireSize host else 0) + setSize properties

/-- The bits below `fieldNbr` tell which properties are set. -/
def FlagsMatch (propertyFlags : Nat) : {fields : List Property} → Properties fields →
    (fieldNbr : Nat) → Prop
  | [], _, _ => True
  | property :: _, (host, properties), fieldNbr =>
    propertyFlags.testBit (fieldNbr - 1) = property.type.isSet host ∧
      FlagsMatch propertyFlags properties (fieldNbr - 1)

variable {fields : List Property} {fieldNbr propertyFlags : Nat} {type : DataType}
  {net : List UInt8}

variable (properties : Properties fields)

theorem length_putPropertyFields :
    (putPropertyFields properties).length = properties.setSize := by
  induction fields with
  | nil => rfl
  | cons property fields ih =>
    obtain ⟨host, properties⟩ := properties
    rw [putPropertyFields, Properties.setSize]
    split
    · rw [length_append, DataType.length_put, ih]
    · rw [ih, Nat.zero_add]

theorem calcPropertyFlags_headerSize
    (fieldNbr headerSize propertyFlags : Nat) :
    (calcPropertyFlags properties fieldNbr headerSize propertyFlags).1 =
      headerSize + properties.setSize := by
  induction fields generalizing fieldNbr headerSize propertyFlags with
  | nil => rfl
  | cons property fields ih =>
    obtain ⟨host, properties⟩ := properties
    rw [calcPropertyFlags, Properties.setSize]
    split
    · rw [ih, Nat.add_assoc]
    · rw [ih, Nat.zero_add]

theorem calcPropertyFlags_testBit
    (headerSize propertyFlags : Nat) (hf : fields.length ≤ fieldNbr) {i : Nat} (hi : fieldNbr ≤ i) :
    (calcPropertyFlags properties fieldNbr headerSize propertyFlags).2.testBit i =
      propertyFlags.testBit i := by
  induction fields generalizing fieldNbr headerSize propertyFlags with
  | nil => rfl
  | cons property fields ih =>
    obtain ⟨host, properties⟩ := properties
    rw [length_cons] at hf
    have hne : fieldNbr - 1 ≠ i := by omega
    rw [calcPropertyFlags]
    split
    · rw [ih _ _ _ (by omega) (by omega), Nat.testBit_or, Nat.one_shiftLeft,
        Nat.testBit_two_pow_of_ne hne, Bool.or_false]
    · rw [ih _ _ _ (by omega) (by omega)]

theorem flagsMatch_calcPropertyFlags
    (headerSize propertyFlags : Nat) (hf : fields.length ≤ fieldNbr)
    (h0 : ∀ i < fieldNbr, propertyFlags.testBit i = false) :
    FlagsMatch (calcPropertyFlags properties fieldNbr headerSize propertyFlags).2 properties
      fieldNbr := by
  induction fields generalizing fieldNbr headerSize propertyFlags with
  | nil => trivial
  | cons property fields ih =>
    obtain ⟨host, properties⟩ := properties
    rw [length_cons] at hf
    have hlt : fieldNbr - 1 < fieldNbr := by omega
    rw [calcPropertyFlags]
    split
    · next hset =>
      refine ⟨?_, ih properties _ _ (by omega) ?_⟩
      · rw [calcPropertyFlags_testBit properties _ _ (by omega) (Nat.le_refl _), Nat.testBit_or,
          Nat.one_shiftLeft, Nat.testBit_two_pow_self, Bool.or_true, hset]
      · intro i hi
        rw [Nat.testBit_or, Nat.one_shiftLeft, Nat.testBit_two_pow_of_ne (by omega),
          h0 i (by omega), Bool.false_or]
    · next hset =>
      refine ⟨?_, ih properties _ _ (by omega) fun i hi => h0 i (by omega)⟩
      rw [calcPropertyFlags_testBit properties _ _ (by omega) (Nat.le_refl _), h0 _ hlt]
      exact (Bool.eq_false_iff.mpr hset).symm

theorem calcPropertyFlags_spec (hf : fields.length ≤ 15) (properties : Properties fields)
    (headerSize : Nat) :
    (calcPropertyFlags properties 16 headerSize 0).1 = headerSize + properties.setSize ∧
      (calcPropertyFlags properties 16 headerSize 0).2 < 0x10000 ∧
      FlagsMatch (calcPropertyFlags properties 16 headerSize 0).2 properties 16 := by
  refine ⟨calcPropertyFlags_headerSize properties _ _ _, ?_,
    flagsMatch_calcPropertyFlags properties _ _ (by omega) fun i _ => Nat.zero_testBit i⟩
  refine Nat.lt_pow_two_of_testBit (n := 16) _ fun i hi => ?_
  rw [calcPropertyFlags_testBit properties _ _ (by omega) hi, Nat.zero_testBit]

/-! ## Reading properties -/

/-- `getPropertyFields` on the octets up to the limit. -/
def takeProperties (propertyFlags : Nat) : {fields : List Property} → Properties fields →
    (fieldNbr : Nat) → List UInt8 → Except GetError (Properties fields × List UInt8)
  | [], properties, _, net => .ok (properties, net)
  | property :: _, (host, properties), fieldNbr, net =>
    if propertyFlags.testBit (fieldNbr - 1) then
      match property.type.get net with
      | .error e => .error e
      | .ok (host, net) => (takeProperties propertyFlags properties (fieldNbr - 1) net).map
          fun r => ((host, r.1), r.2)
    else (takeProperties propertyFlags properties (fieldNbr - 1) net).map
      fun r => ((host, r.1), r.2)

/-- An empty long string counts as one that is not set. -/
def DataType.unsetEmpty : (type : DataType) → type.Value → type.Value
  | longstr, (host : Option Longstr) => if host = some [] then (none : Option Longstr) else host
  | table, (host : Option Longstr) => if host = some [] then (none : Option Longstr) else host
  | _, host => host

def Properties.unsetEmpty : {fields : List Property} → Properties fields → Properties fields
  | [], _ => ()
  | property :: _, (host, properties) => (property.type.unsetEmpty host, unsetEmpty properties)

/-- A long string that is set has a count that is not negative as an `int`. -/
def Properties.Small : {fields : List Property} → Properties fields → Prop
  | [], _ => True
  | property :: _, (host, properties) =>
    (property.type.isSet host → property.type.Small host) ∧ Small properties

variable {properties : Properties fields}

theorem Properties.small_of_setSize
    (h : properties.setSize < 0x80000000) : properties.Small := by
  induction fields with
  | nil => trivial
  | cons property fields ih =>
    obtain ⟨host, properties⟩ := properties
    rw [setSize] at h
    refine ⟨fun hset => ?_, ih (by omega)⟩
    rw [if_pos hset] at h
    exact DataType.small_of_wireSize (by omega)

theorem DataType.asRead_of_isSet {host : type.Value} (h : type.isSet host) :
    type.asRead host = type.unsetEmpty host := by
  have hlong : ∀ data : Option Longstr, !(data.getD []).isEmpty →
      some (data.getD []) = if data = some [] then none else data := by
    intro data hd
    cases data with
    | none => cases hd
    | some data =>
      cases data with
      | nil => cases hd
      | cons b data => rfl
  cases type with
  | longstr | table => exact hlong host h
  | _ => rfl

theorem DataType.unset_of_not_isSet {host : type.Value} (h : type.isSet host = false) :
    type.unset = type.unsetEmpty host := by
  have hlong : ∀ data : Option Longstr, (!(data.getD []).isEmpty) = false →
      none = if data = some [] then none else data := by
    intro data hd
    cases data with
    | none => rfl
    | some data =>
      cases data with
      | nil => rfl
      | cons b data => cases hd
  cases type with
  | longstr | table => exact hlong host h
  | shortstr =>
    obtain ⟨⟨octets, noNul⟩, bound⟩ := host
    cases octets with
    | nil => rfl
    | cons b octets => cases h
  | _ => exact (bne_eq_false_iff_eq.mp h).symm

theorem takeProperties_put
    (hm : FlagsMatch propertyFlags properties fieldNbr) (hs : properties.Small)
    (rest : List UInt8) :
    takeProperties propertyFlags (Properties.unset fields) fieldNbr
      (putPropertyFields properties ++ rest) = .ok (properties.unsetEmpty, rest) := by
  induction fields generalizing fieldNbr with
  | nil => rfl
  | cons property fields ih =>
    obtain ⟨host, properties⟩ := properties
    obtain ⟨hbit, hm⟩ := hm
    obtain ⟨hsmall, hs⟩ := hs
    rw [Properties.unset, takeProperties, putPropertyFields, hbit]
    cases hset : property.type.isSet host with
    | true =>
      rw [if_pos rfl, if_pos rfl, append_assoc, DataType.get_put (hsmall hset)]
      simp only
      rw [ih hm hs, DataType.asRead_of_isSet hset]
      rfl
    | false =>
      rw [if_neg Bool.false_ne_true, if_neg Bool.false_ne_true, ih hm hs,
        DataType.unset_of_not_isSet hset]
      rfl

/-- Whole fields of the types, one after another. -/
inductive OccupyAll : List DataType → List UInt8 → Prop
  | nil : OccupyAll [] []
  | cons {type : DataType} {types : List DataType} {octets rest : List UInt8}
      (occupies : type.Occupies octets) (behind : OccupyAll types rest) :
      OccupyAll (type :: types) (octets ++ rest)

def flaggedTypes (propertyFlags : Nat) : (fields : List Property) → (fieldNbr : Nat) → List DataType
  | [], _ => []
  | property :: fields, fieldNbr =>
    if propertyFlags.testBit (fieldNbr - 1) then
      property.type :: flaggedTypes propertyFlags fields (fieldNbr - 1)
    else flaggedTypes propertyFlags fields (fieldNbr - 1)

theorem occupyAll_of_takeProperties {old properties : Properties fields} {rest : List UInt8}
    (h : takeProperties propertyFlags old fieldNbr net = .ok (properties, rest)) :
    ∃ octets, net = octets ++ rest ∧
      OccupyAll (flaggedTypes propertyFlags fields fieldNbr) octets := by
  induction fields generalizing fieldNbr net with
  | nil =>
    cases h
    exact ⟨[], rfl, .nil⟩
  | cons property fields ih =>
    obtain ⟨host, old⟩ := old
    rw [takeProperties] at h
    rw [flaggedTypes]
    split at h
    · next hbit =>
      rw [if_pos hbit]
      split at h
      · cases h
      · next host' net' hg =>
        obtain ⟨octets, rfl, ho⟩ := DataType.occupies_of_get hg
        obtain ⟨⟨properties', rest'⟩, hr, he⟩ := Except.eq_ok_of_map h
        cases he
        obtain ⟨behind, rfl, hb⟩ := ih hr
        exact ⟨octets ++ behind, (append_assoc _ _ _).symm, .cons ho hb⟩
    · next hbit =>
      rw [if_neg hbit]
      obtain ⟨⟨properties', rest'⟩, hr, he⟩ := Except.eq_ok_of_map h
      cases he
      exact ih hr

theorem OccupyAll.takeProperties {octets : List UInt8}
    (h : OccupyAll (flaggedTypes propertyFlags fields fieldNbr) octets) (old : Properties fields)
    (rest : List UInt8) :
    ∃ properties, OpenAmq.takeProperties propertyFlags old fieldNbr (octets ++ rest) =
      .ok (properties, rest) := by
  induction fields generalizing fieldNbr octets with
  | nil =>
    cases h
    exact ⟨(), rfl⟩
  | cons property fields ih =>
    obtain ⟨host, old⟩ := old
    rw [flaggedTypes] at h
    rw [OpenAmq.takeProperties]
    split
    · next hbit =>
      rw [if_pos hbit] at h
      generalize htypes : property.type :: flaggedTypes propertyFlags fields (fieldNbr - 1) =
        types at h
      cases h with
      | nil => cases htypes
      | cons ho hb =>
        cases htypes
        rw [append_assoc]
        obtain ⟨host', hg⟩ := ho.get _
        obtain ⟨properties, hr⟩ := ih hb old
        rw [hg]
        simp only
        rw [hr]
        exact ⟨(host', properties), rfl⟩
    · next hbit =>
      rw [if_neg hbit] at h
      obtain ⟨properties, hr⟩ := ih h old
      rw [hr]
      exact ⟨(host, properties), rfl⟩

/-! ## Positions -/

/-- The reader at a position beside the one on octets. -/
def PropertiesAgree {fields : List Property} (dataLimit : Nat) :
    Except GetError (Properties fields × List UInt8) →
      Except Violation (Properties fields × Option Nat) → Prop
  | .ok (properties, rest), r => r = .ok (properties, some (dataLimit - rest.length))
  | .error .underflow, r => ∃ properties, r = .ok (properties, none)
  | .error .fault, r => r = .error .write

theorem PropertiesAgree.map {property : Property} {dataLimit : Nat}
    {x : Except GetError (Properties fields × List UInt8)}
    {y : Except Violation (Properties fields × Option Nat)} (host : property.type.Value)
    (h : PropertiesAgree dataLimit x y) :
    @PropertiesAgree (property :: fields) dataLimit (x.map fun r => ((host, r.1), r.2))
      (y.map fun r => ((host, r.1), r.2)) := by
  cases x with
  | ok r =>
    cases h
    rfl
  | error e =>
    cases e with
    | underflow =>
      obtain ⟨properties, rfl⟩ := h
      exact ⟨_, rfl⟩
    | fault =>
      cases h
      rfl

theorem getPropertyFields_agrees {bucket : List UInt8} {dataLimit : Nat}
    (hl : dataLimit ≤ bucket.length) (propertyFlags : Nat) (properties : Properties fields)
    (fieldNbr : Nat) {dataPtr : Nat} (hn : dataPtr ≤ dataLimit) :
    PropertiesAgree dataLimit
      (takeProperties propertyFlags properties fieldNbr (window bucket dataLimit dataPtr))
      (getPropertyFields bucket dataLimit propertyFlags properties fieldNbr dataPtr) := by
  induction fields generalizing fieldNbr dataPtr with
  | nil =>
    show _ = _
    rw [length_window hl, Nat.sub_sub_self hn]
    rfl
  | cons property fields ih =>
    obtain ⟨host, properties⟩ := properties
    rw [takeProperties, getPropertyFields]
    split
    · cases hg : property.type.get (window bucket dataLimit dataPtr) with
      | error e =>
        rw [DataType.getAt_of_error hl hn hg]
        cases e with
        | underflow => exact ⟨_, rfl⟩
        | fault => rfl
      | ok r =>
        obtain ⟨host', rest⟩ := r
        obtain ⟨dataPtr', hat, -, hle, -, rfl⟩ := DataType.getAt_of_ok hl hn hg
        simp only [hat, bind, Except.bind]
        exact (ih properties (fieldNbr - 1) hle).map host'
    · exact (ih properties (fieldNbr - 1) hn).map host

/-! ## Negative counts -/

/-- Behind whole fields of the types before it there is a long string of negative count. -/
inductive NegativeCount : List DataType → List UInt8 → Prop
  | here {type : DataType} {types : List DataType} {size : Nat} {rest : List UInt8}
      (long : type.isLong) (negative : 0x80000000 ≤ size) (bound : size < 0x100000000) :
      NegativeCount (type :: types) (putLong size ++ rest)
  | there {type : DataType} {types : List DataType} {octets rest : List UInt8}
      (occupies : type.Occupies octets) (behind : NegativeCount types rest) :
      NegativeCount (type :: types) (octets ++ rest)

theorem getWord_putLong {size : Nat} (h : size < 0x100000000) (rest : List UInt8) :
    getWord 4 (putLong size ++ rest) = .ok (size, rest) := by
  have hn : ((size : Int) % 0x100000000).toNat = size := by omega
  have hlt : size < Lib.wordSize 4 := h
  rw [putLong, hn, getWord_bigEndian, Nat.mod_eq_of_lt hlt]

theorem getLstr_fault_iff : getLstr net = .error .fault ↔
      ∃ size rest, 0x80000000 ≤ size ∧ size < 0x100000000 ∧ net = putLong (size : Nat) ++ rest := by
  constructor
  · intro h
    unfold getLstr at h
    split at h
    · next hw =>
      cases h
      exact absurd hw getWord_ne_fault
    · next size rest hw =>
      split at h
      · next hneg =>
        obtain ⟨hlt, hnet⟩ := getWord_eq_ok hw
        have hlt' : size < 0x100000000 := hlt
        have hn : ((size : Int) % 0x100000000).toNat = size := by omega
        refine ⟨size, rest, hneg, hlt', ?_⟩
        rw [hnet, putLong, hn]
      · split at h <;> cases h
  · rintro ⟨size, rest, hneg, hlt, rfl⟩
    rw [getLstr, getWord_putLong hlt]
    simp only
    rw [if_pos hneg]

theorem DataType.get_fault_iff : type.get net = .error .fault ↔ type.isLong ∧
      ∃ size rest, 0x80000000 ≤ size ∧ size < 0x100000000 ∧ net = putLong (size : Nat) ++ rest := by
  constructor
  · intro h
    have hlong := DataType.isLong_of_get_fault h
    refine ⟨hlong, ?_⟩
    cases type with
    | longstr | table => exact getLstr_fault_iff.mp h
    | _ => cases hlong
  · rintro ⟨hlong, h⟩
    cases type with
    | longstr | table => exact getLstr_fault_iff.mpr h
    | _ => cases hlong

theorem Except.eq_error_of_map_iff {ε α β : Type*} {f : α → β} {x : Except ε α} {e : ε} :
    x.map f = .error e ↔ x = .error e :=
  ⟨Except.eq_error_of_map, fun h => by rw [h]; rfl⟩

theorem takeProperties_fault_iff :
    takeProperties propertyFlags properties fieldNbr net = .error .fault ↔
      NegativeCount (flaggedTypes propertyFlags fields fieldNbr) net := by
  induction fields generalizing fieldNbr net with
  | nil => exact ⟨nofun, nofun⟩
  | cons property fields ih =>
    obtain ⟨host, properties⟩ := properties
    rw [takeProperties, flaggedTypes]
    split
    · constructor
      · intro h
        split at h
        · next e hg =>
          cases h
          obtain ⟨hlong, size, rest, hneg, hlt, rfl⟩ := DataType.get_fault_iff.mp hg
          exact .here hlong hneg hlt
        · next host' rest hg =>
          obtain ⟨octets, rfl, ho⟩ := DataType.occupies_of_get hg
          exact .there ho (ih.mp (Except.eq_error_of_map h))
      · intro h
        generalize htypes : property.type :: flaggedTypes propertyFlags fields (fieldNbr - 1) =
          types at h
        cases h with
        | here hlong hneg hlt =>
          cases htypes
          rw [DataType.get_fault_iff.mpr ⟨hlong, _, _, hneg, hlt, rfl⟩]
        | there ho hbehind =>
          cases htypes
          obtain ⟨host', hg⟩ := ho.get _
          rw [hg]
          exact Except.eq_error_of_map_iff.mpr (ih.mpr hbehind)
    · rw [Except.eq_error_of_map_iff, ih]

/-! ## Headers -/

namespace ContentObject

variable {cls : ContentClass} (self : ContentObject cls)

theorem length_headerOctets (propertyFlags : Nat) :
    (self.headerOctets propertyFlags).length = 14 + self.properties.setSize := by
  simp only [headerOctets, length_append, putShort, putLlong, Lib.length_bigEndian,
    length_putPropertyFields]
  omega

theorem replayHeader_eq :
    self.replayHeader = if 2097152 < 14 + self.properties.setSize then .error .write
      else .ok ({ self with weight := 0 },
        self.headerOctets (calcPropertyFlags self.properties 16 14 0).2) := by
  have hsize := (calcPropertyFlags_spec cls.fields_le self.properties 14).1
  rw [replayHeader]
  simp only [length_headerOctets, hsize, ne_eq, not_true_eq_false, if_false]
  by_cases h : 2097152 < 14 + self.properties.setSize
  · rw [if_pos (Nat.lt_of_le_of_lt (bucketMaxSize_le _) h), if_pos h]
  · rw [if_neg (Nat.not_lt_of_le (le_bucketMaxSize (Nat.le_of_not_lt h))), if_neg h]

/-- `recordHeader` on the octets of the bucket. -/
def takeHeader (self : ContentObject cls) (net : List UInt8) :
    Except GetError (ContentObject cls) :=
  match DataType.short.get net with
  | .error e => .error e
  | .ok (classId, net) =>
    match DataType.short.get net with
    | .error e => .error e
    | .ok (weight, net) =>
      match DataType.longlong.get net with
      | .error e => .error e
      | .ok (bodyExpect, net) =>
        match getWord 2 net with
        | .error e => .error e
        | .ok (propertyFlags, net) =>
          (takeProperties propertyFlags self.properties 16 net).map fun r =>
            { self with
              classId := classId, weight := weight, bodyExpect := bodyExpect, properties := r.1 }

theorem takeHeader_eq_ok {self content : ContentObject cls}
    (h : self.takeHeader net = .ok content) :
    content.body = self.body ∧ ∃ expect rest, getWord 8 (net.drop 4) = .ok (expect, rest) ∧
      content.bodyExpect = (UInt64.ofNat expect).toInt64 := by
  unfold takeHeader at h
  split at h
  · cases h
  next classId net1 hclass =>
  split at h
  · cases h
  next weight net2 hweight =>
  split at h
  · cases h
  next bodyExpect net3 hexpect =>
  split at h
  · cases h
  next propertyFlags net4 hflags =>
  obtain ⟨r, hproperties, rfl⟩ := Except.eq_ok_of_map h
  obtain ⟨n1, -, -, rfl⟩ := getWord_map_eq_ok hclass
  obtain ⟨n2, -, -, rfl⟩ := getWord_map_eq_ok hweight
  obtain ⟨n, hlt, rfl, rfl⟩ := getWord_map_eq_ok (f := fun n => (UInt64.ofNat n).toInt64) hexpect
  refine ⟨rfl, n, net3, ?_, rfl⟩
  rw [← append_assoc, drop_left' (by simp), getWord_bigEndian, Nat.mod_eq_of_lt hlt]

/-- `recordHeader` beside `takeHeader`. -/
def HeaderAgrees :
    Except GetError (ContentObject cls) → Except Violation (ContentObject cls × Int) → Prop
  | .ok content, r => r = .ok (content, 0)
  | .error .underflow, r => ∃ content, r = .ok (content, -1)
  | .error .fault, r => r = .error .write

theorem recordHeader_agrees (bucket : List UInt8) :
    HeaderAgrees (self.takeHeader bucket) (self.recordHeader bucket) := by
  have hl := Nat.le_refl bucket.length
  have hall : window bucket bucket.length 0 = bucket := take_length
  rw [takeHeader, recordHeader]
  rcases hall ▸ DataType.getAt_cases hl (Nat.zero_le _) .short rfl with
    ⟨hget, hat⟩ | ⟨classId, dataPtr1, hn1, hget, hat⟩
  · rw [hget, hat]
    exact ⟨_, rfl⟩
  simp only [hget, hat, bind, Except.bind]
  rcases DataType.getAt_cases hl hn1 .short rfl with
    ⟨hget, hat⟩ | ⟨weight, dataPtr2, hn2, hget, hat⟩
  · rw [hget, hat]
    exact ⟨_, rfl⟩
  simp only [hget, hat]
  rcases DataType.getAt_cases hl hn2 .longlong rfl with
    ⟨hget, hat⟩ | ⟨bodyExpect, dataPtr3, hn3, hget, hat⟩
  · rw [hget, hat]
    exact ⟨_, rfl⟩
  simp only [hget, hat]
  rcases getWordAt_cases hl hn3 2 with ⟨hget, hat⟩ | ⟨propertyFlags, hn4, hget, hat⟩
  · rw [hget, hat]
    exact ⟨_, rfl⟩
  simp only [hget, hat]
  have hp := getPropertyFields_agrees hl propertyFlags self.properties 16 hn4
  cases ht : takeProperties propertyFlags self.properties 16
      (window bucket bucket.length (dataPtr3 + 2)) with
  | ok r =>
    rw [ht] at hp
    rw [show _ = _ from hp]
    rfl
  | error e =>
    rw [ht] at hp
    cases e with
    | underflow =>
      obtain ⟨properties, hp⟩ := hp
      rw [hp]
      exact ⟨_, rfl⟩
    | fault =>
      rw [show _ = _ from hp]
      rfl

/-- The header goes on with a long string of negative count, behind flagged properties. -/
def NegativeHeader (cls : ContentClass) (octets : List UInt8) : Prop :=
  ∃ fixed propertyFlags rest, fixed.length = 12 ∧ propertyFlags < 0x10000 ∧
    octets = fixed ++ (putShort propertyFlags ++ rest) ∧
    NegativeCount (flaggedTypes propertyFlags cls.fields 16) rest

/-- The header is read outside the bucket just if a count in it is negative. -/
theorem takeHeader_fault_iff (net : List UInt8) :
    self.takeHeader net = .error .fault ↔ NegativeHeader cls net := by
  constructor
  · intro h
    unfold takeHeader at h
    split at h
    · next e hclass =>
      cases h
      exact absurd hclass (not_fault_of_not_isLong rfl)
    next classId net1 hclass =>
    split at h
    · next e hweight =>
      cases h
      exact absurd hweight (not_fault_of_not_isLong rfl)
    next weight net2 hweight =>
    split at h
    · next e hexpect =>
      cases h
      exact absurd hexpect (not_fault_of_not_isLong rfl)
    next bodyExpect net3 hexpect =>
    split at h
    · next e hflags =>
      cases h
      exact absurd hflags getWord_ne_fault
    next propertyFlags rest hflags =>
    obtain ⟨octets1, rfl, h1⟩ := DataType.occupies_of_get hclass
    obtain ⟨octets2, rfl, h2⟩ := DataType.occupies_of_get hweight
    obtain ⟨octets3, rfl, h3⟩ := DataType.occupies_of_get hexpect
    obtain ⟨hlt, rfl⟩ := getWord_eq_ok hflags
    refine ⟨octets1 ++ (octets2 ++ octets3), propertyFlags, rest, ?_, hlt, ?_,
      takeProperties_fault_iff.mp (Except.eq_error_of_map h)⟩
    · have h1 : octets1.length = 2 := h1
      rw [length_append, length_append, h1, h2, h3]
    · rw [append_assoc, append_assoc]
      rfl
  · rintro ⟨fixed, propertyFlags, rest, hlen, hlt, rfl, hneg⟩
    have hfixed : fixed ++ (putShort propertyFlags ++ rest) = fixed.take 2 ++
        ((fixed.drop 2).take 2 ++ ((fixed.drop 4) ++ (putShort propertyFlags ++ rest))) := by
      have h4 : fixed.drop 4 = (fixed.drop 2).drop 2 := by rw [drop_drop]
      rw [← append_assoc ((fixed.drop 2).take 2), h4, take_append_drop,
        ← append_assoc (fixed.take 2), take_append_drop]
    have h1 : DataType.short.Occupies (fixed.take 2) := by
      show (fixed.take 2).length = 2
      rw [length_take]
      omega
    have h2 : DataType.short.Occupies ((fixed.drop 2).take 2) := by
      show ((fixed.drop 2).take 2).length = 2
      rw [length_take, length_drop]
      omega
    have h3 : DataType.longlong.Occupies (fixed.drop 4) := by
      show (fixed.drop 4).length = 8
      rw [length_drop]
      omega
    obtain ⟨classId, hclass⟩ := h1.get
      ((fixed.drop 2).take 2 ++ (fixed.drop 4 ++ (putShort propertyFlags ++ rest)))
    obtain ⟨weight, hweight⟩ := h2.get (fixed.drop 4 ++ (putShort propertyFlags ++ rest))
    obtain ⟨bodyExpect, hexpect⟩ := h3.get (putShort propertyFlags ++ rest)
    have hflags := getWord_putShort_of_lt hlt rest
    rw [hfixed, takeHeader, hclass]
    simp only
    rw [hweight]
    simp only
    rw [hexpect]
    simp only
    rw [hflags]
    exact Except.eq_error_of_map_iff.mpr (takeProperties_fault_iff.mpr hneg)

theorem takeHeader_headerOctets {self : ContentObject cls} (hs : self.properties.Small) :
    (ContentObject.new cls).takeHeader
        (self.headerOctets (calcPropertyFlags self.properties 16 14 0).2) =
      .ok { ContentObject.new cls with
        classId := self.classId, bodyExpect := Int64.ofNat self.body.bodySize,
        properties := self.properties.unsetEmpty } := by
  obtain ⟨-, hlt, hm⟩ := calcPropertyFlags_spec cls.fields_le self.properties 14
  have htake := takeProperties_put hm hs []
  rw [append_nil] at htake
  rw [headerOctets]
  generalize (calcPropertyFlags self.properties 16 14 0).2 = propertyFlags at hlt htake ⊢
  have hflags := getWord_putShort_of_lt hlt (putPropertyFields self.properties)
  generalize putShort propertyFlags ++ putPropertyFields self.properties = net at hflags ⊢
  have hexpect : DataType.longlong.get (putLlong (Int64.ofNat self.body.bodySize) ++ net) =
      .ok (Int64.ofNat self.body.bodySize, net) := getLlong_putLlong _ _
  generalize putLlong (Int64.ofNat self.body.bodySize) ++ net = net' at hexpect ⊢
  have hweight : DataType.short.get (putShort 0 ++ net') = .ok ((0 : UInt16), net') :=
    getShort_putShort 0 _
  have hclass : DataType.short.get (putShort self.classId.toNat ++ (putShort 0 ++ net')) =
      .ok (self.classId, putShort 0 ++ net') := getShort_putShort _ _
  rw [takeHeader, hclass]
  simp only
  rw [hweight]
  simp only
  rw [hexpect]
  simp only
  rw [hflags]
  simp only [ContentObject.new]
  rw [htake]
  rfl

/-- A header of the content is written whole, and fills a new content. -/
def HeaderRoundTrips (self : ContentObject cls) : Prop :=
  ∃ self' octets, self.replayHeader = .ok (self', octets) ∧
    ∃ content, (ContentObject.new cls).recordHeader octets = .ok (content, 0) ∧
      content.classId = self.classId ∧ content.bodyExpect = Int64.ofNat self.body.bodySize ∧
      content.properties = self.properties.unsetEmpty

/-- The octets are taken for a header, or an error is reported, without a violation. -/
def RecordsSafely (self : ContentObject cls) (octets : List UInt8) : Prop :=
  ∃ content, self.recordHeader octets = .ok (content, 0) ∨
    self.recordHeader octets = .ok (content, -1)

theorem headerRoundTrips_iff : self.HeaderRoundTrips ↔ 14 + self.properties.setSize ≤ 2097152 := by
  rw [HeaderRoundTrips, replayHeader_eq]
  constructor
  · rintro ⟨self', octets, h, -⟩
    split at h
    · cases h
    · omega
  · intro h
    rw [if_neg (Nat.not_lt_of_le h)]
    have hr := recordHeader_agrees (ContentObject.new cls)
      (self.headerOctets (calcPropertyFlags self.properties 16 14 0).2)
    rw [takeHeader_headerOctets (Properties.small_of_setSize (by omega))] at hr
    exact ⟨_, _, rfl, _, hr, rfl, rfl, rfl⟩

theorem recordsSafely_iff (octets : List UInt8) :
    self.RecordsSafely octets ↔ ¬ NegativeHeader cls octets := by
  have hr := recordHeader_agrees self octets
  rw [← takeHeader_fault_iff self, RecordsSafely]
  cases ht : self.takeHeader octets with
  | ok content =>
    rw [ht] at hr
    exact ⟨fun _ => nofun, fun _ => ⟨content, .inl hr⟩⟩
  | error e =>
    rw [ht] at hr
    cases e with
    | underflow =>
      obtain ⟨content, hr⟩ := hr
      exact ⟨fun _ => nofun, fun _ => ⟨content, .inr hr⟩⟩
    | fault =>
      refine ⟨?_, fun h => absurd rfl h⟩
      rw [show _ = _ from hr]
      rintro ⟨content, h | h⟩ <;> cases h

/--
A content round trips through its header when this fits the largest bucket, and header octets
are recorded safely when no long string in them has a negative count, and only then.
-/
theorem header_roundTrip_iff (cls : ContentClass) :
    (∀ self : ContentObject cls, self.HeaderRoundTrips ↔ 14 + self.properties.setSize ≤ 2097152) ∧
      ∀ (self : ContentObject cls) (octets : List UInt8),
        self.RecordsSafely octets ↔ ¬ NegativeHeader cls octets :=
  ⟨headerRoundTrips_iff, recordsSafely_iff⟩

/-- A new content to which the application has given headers. -/
def withHeaders (headers : Longstr) : ContentObject basicClass :=
  { ContentObject.new basicClass with
    properties := (DataType.shortstr.unset, DataType.shortstr.unset,
      (some headers : Option Longstr),
      (Properties.unset (basicClass.fields.drop 3) : Properties (basicClass.fields.drop 3))) }

theorem setSize_withHeaders (headers : Longstr) (h : headers ≠ []) :
    (withHeaders headers).properties.setSize = 4 + headers.length := by
  have hset : DataType.table.isSet (some headers) = true := by
    cases headers with
    | nil => exact absurd rfl h
    | cons b headers => rfl
  have hsize : (withHeaders headers).properties.setSize =
      0 + (0 + ((if DataType.table.isSet (some headers) then 4 + headers.length else 0) +
        (Properties.unset (basicClass.fields.drop 3)).setSize)) := rfl
  have hrest : (Properties.unset (basicClass.fields.drop 3)).setSize = 0 := rfl
  rw [hsize, if_pos hset, hrest]
  omega

/--
A header of two megabytes runs over its bucket. In the other one, which a client can send, the
headers are announced with 2^31 octets.
-/
theorem header_notSafe : ¬ (withHeaders (replicate 2097152 0)).HeaderRoundTrips ∧
      ¬ (ContentObject.new basicClass).RecordsSafely
        [0, 60, 0, 0, 0, 0, 0, 0, 0, 0, 0, 0, 0x20, 0, 0x80, 0, 0, 0] := by
  constructor
  · have hlen : (replicate 2097152 (0 : UInt8)).length = 2097152 := length_replicate
    generalize replicate 2097152 (0 : UInt8) = headers at hlen
    have hsize := setSize_withHeaders headers (by rintro rfl; cases hlen)
    rw [headerRoundTrips_iff]
    omega
  · have h : (ContentObject.new basicClass).recordHeader
        [0, 60, 0, 0, 0, 0, 0, 0, 0, 0, 0, 0, 0x20, 0, 0x80, 0, 0, 0] = .error .write := rfl
    rintro ⟨content, h | h⟩ <;> cases h

end ContentObject

end OpenAmq
