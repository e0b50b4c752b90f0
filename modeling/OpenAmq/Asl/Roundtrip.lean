import OpenAmq.Asl.Flatten

/-!
# Field lists that are built, flattened and parsed again

The constructors of `asl_field` add one field each to a list. `Calls` is the sequence of
calls that built a list, with the calls for every nested list inside.

`roundTrips_iff` says for which calls the flattened list is parsed as the same list, to
every depth: decimals and times must fit in four octets, and every field in an `int`.
-/

namespace OpenAmq

open List Option

def aslFieldNameMax : Nat := 128

/-- A name that meets the assertion of the constructors. -/
structure FieldName extends CString where
  bound : octets.length ≤ aslFieldNameMax

/-! ## Constructors -/

def queueField (list : List Field) (name : FieldName) (value : FieldValue) : List Field :=
  list ++ [⟨cstring name.octets, value⟩]

/-- `asl_field_new_string`: the terminator is part of the string. -/
def newString (list : List Field) (name : FieldName) (value : CString) : List Field :=
  queueField list name (.string (value.octets ++ [0]))

/-- `asl_field_new_longstr` -/
def newLongstr (list : List Field) (name : FieldName) (value : Longstr) : List Field :=
  queueField list name (.string value)

/-- `asl_field_new_integer`, for an `int` -/
def newInteger (list : List Field) (name : FieldName) (value : Int32) : List Field :=
  queueField list name (.integer value.toInt)

/-- `asl_field_new_decimal`, for a `long`; the decimals are kept in one octet. -/
def newDecimal (list : List Field) (name : FieldName) (value : Int64) (decimals : Int32) :
    List Field :=
  queueField list name (.decimal (UInt8.ofNat (decimals.toInt % 256).toNat) value.toInt)

/-- `asl_field_new_time`, for a `time_t` -/
def newTime (list : List Field) (name : FieldName) (value : Int64) : List Field :=
  queueField list name (.time value.toInt)

/-- `asl_field_new_field_table` -/
def newFieldTable (list : List Field) (name : FieldName) (value : List Field) :
    Option (List Field) :=
  (fieldListFlatten value).map fun flattened => queueField list name (.fieldTable flattened)

/-- `asl_field_new_void` -/
def newVoid (list : List Field) (name : FieldName) : List Field :=
  queueField list name .void

/-- The calls that build a list, the last one outermost. -/
inductive Calls where
  | new
  | string (list : Calls) (name : FieldName) (value : CString)
  | longstr (list : Calls) (name : FieldName) (value : Longstr)
  | integer (list : Calls) (name : FieldName) (value : Int32)
  | decimal (list : Calls) (name : FieldName) (value : Int64) (decimals : Int32)
  | time (list : Calls) (name : FieldName) (value : Int64)
  | fieldTable (list : Calls) (name : FieldName) (value : Calls)
  | void (list : Calls) (name : FieldName)

namespace Calls

/-- The list that is built, if every nested list can be flattened. -/
def build : Calls → Option (List Field)
  | new => some []
  | string list name value => (build list).map (newString · name value)
  | longstr list name value => (build list).map (newLongstr · name value)
  | integer list name value => (build list).map (newInteger · name value)
  | decimal list name value decimals => (build list).map (newDecimal · name value decimals)
  | time list name value => (build list).map (newTime · name value)
  | fieldTable list name value =>
    (build value).bind fun value => (build list).bind (newFieldTable · name value)
  | void list name => (build list).map (newVoid · name)

def nested : Calls → List Calls
  | new => []
  | string list _ _ => nested list
  | longstr list _ _ => nested list
  | integer list _ _ => nested list
  | decimal list _ _ _ => nested list
  | time list _ _ => nested list
  | fieldTable list _ value => nested list ++ value :: nested value
  | void list _ => nested list

/-- The flattened list is parsed as the list that was built. -/
def Survives (self : Calls) : Prop :=
  ∃ fields flattened, build self = some fields ∧ fieldListFlatten fields = some flattened ∧
    fieldListNew (some flattened) = .ok fields

/-- So are all the lists nested in it. -/
def RoundTrips (self : Calls) : Prop := ∀ list ∈ self :: self.nested, list.Survives

/-- The octets of a field with this many octets of contents. -/
def fieldSize (name : FieldName) (contents : Nat) : Nat := name.octets.length + 2 + contents

/-- The octets of the flattened list. -/
def size : Calls → Nat
  | new => 0
  | string list name value => size list + fieldSize name (value.octets.length + 1 + 4)
  | longstr list name value => size list + fieldSize name (value.length + 4)
  | integer list name _ => size list + fieldSize name 4
  | decimal list name _ _ => size list + fieldSize name (4 + 1)
  | time list name _ => size list + fieldSize name 4
  | fieldTable list name value => size list + fieldSize name (size value + 4)
  | void list name => size list + fieldSize name 0

/-- `long` and `time_t` values that four octets can hold. -/
def FitsInt (value : Int64) : Prop := -0x80000000 ≤ value.toInt ∧ value.toInt < 0x80000000

/-- Decimals and times fit in four octets, strings and tables in a field. -/
def InRange : Calls → Prop
  | new => True
  | string list name value =>
    InRange list ∧ fieldSize name (value.octets.length + 1 + 4) < 0x80000000
  | longstr list name value => InRange list ∧ fieldSize name (value.length + 4) < 0x80000000
  | integer list _ _ => InRange list
  | decimal list _ value _ => InRange list ∧ FitsInt value
  | time list _ value => InRange list ∧ FitsInt value
  | fieldTable list name value =>
    InRange list ∧ InRange value ∧ fieldSize name (size value + 4) < 0x80000000
  | void list _ => InRange list

end Calls

/-! ## Lists that survive -/

/-- The fields are those of a field table of `n` octets that is reproduced. -/
def Survivor (fields : List Field) (n : Nat) : Prop :=
  ∃ wire : List WireField, fields = wire.map WireField.field ∧ (∀ self ∈ wire, self.Kept) ∧
    (wire.flatMap WireField.octets).length = n

theorem Survivor.nil : Survivor [] 0 :=
  ⟨[], rfl, fun _ h => absurd h not_mem_nil, rfl⟩

variable {fields : List Field} {n : Nat} {name : FieldName}

theorem Survivor.flatten (h : Survivor fields n) :
    ∃ flattened, fieldListFlatten fields = some flattened ∧ flattened.length = n ∧
      fieldListNew (some flattened) = .ok fields := by
  obtain ⟨wire, rfl, hkept, hn⟩ := h
  exact ⟨_, fieldListFlatten_map_field.mpr hkept, hn, fieldListNew_flatMap wire⟩

theorem survivor_of_flatten {flattened : Longstr} (hf : fieldListFlatten fields = some flattened)
    (hn : fieldListNew (some flattened) = .ok fields) : Survivor fields flattened.length := by
  obtain ⟨wire, rfl, rfl⟩ := fieldListNew_eq_ok hn
  exact ⟨wire, rfl, fieldListFlatten_map_field.mp hf, rfl⟩

theorem Survivor.queueField {value : FieldValue} (h : Survivor fields n) (hfits : value.Fits)
    (hsize : Calls.fieldSize name value.flatSize < 0x80000000) :
    Survivor (queueField fields name value) (n + Calls.fieldSize name value.flatSize) := by
  obtain ⟨wire, rfl, hkept, hn⟩ := h
  have hname : name.octets.length ≤ shortstrMax := Nat.le_trans name.bound (by decide)
  have hlen := WireField.length_octets ⟨name.octets, value, hname, hfits⟩
  refine ⟨wire ++ [⟨name.octets, value, hname, hfits⟩], ?_, ?_, ?_⟩
  · rw [map_append]
    rfl
  · intro self hself
    rcases mem_append.mp hself with hself | hself
    · exact hkept self hself
    · cases mem_singleton.mp hself
      exact ⟨name.noNul, by rw [hlen]; exact hsize⟩
  · rw [flatMap_append, length_append, hn, flatMap_singleton, hlen]
    rfl

theorem Survivor.of_queueField {value : FieldValue}
    (h : Survivor (OpenAmq.queueField fields name value) n) :
    value.Fits ∧ Calls.fieldSize name value.flatSize < 0x80000000 ∧ ∃ m, Survivor fields m := by
  obtain ⟨wire, hmap, hkept, -⟩ := h
  obtain ⟨front, last, rfl, hfront, hlast⟩ := map_eq_append_iff.mp hmap.symm
  obtain ⟨self, rfl, hself⟩ := map_eq_singleton_iff.mp hlast
  obtain ⟨hnul, hsmall⟩ := hkept self (mem_append_right front mem_cons_self)
  have hname : cstring self.name = cstring name.octets := congrArg Field.name hself
  have hvalue : self.value = value := congrArg Field.value hself
  have hlen : self.name.length = name.octets.length := by
    have := congrArg length hname
    rwa [length_cstring, length_cstring, takeWhile_eq_self_of_notMem hnul,
      takeWhile_eq_self_of_notMem name.noNul] at this
  rw [WireField.length_octets, hvalue, hlen] at hsmall
  refine ⟨hvalue ▸ self.fits, hsmall, _, front, hfront.symm, ?_, rfl⟩
  exact fun self hself => hkept self (mem_append_left _ hself)

namespace Calls

theorem fieldSize_lt {contents : Nat} (h : contents ≤ 4 + 1) :
    fieldSize name contents < 0x80000000 := by
  have := name.bound
  unfold aslFieldNameMax at this
  unfold fieldSize
  omega

theorem int32_bounds (value : Int32) : -0x80000000 ≤ value.toInt ∧ value.toInt < 0x80000000 :=
  ⟨value.le_toInt, value.toInt_lt⟩

variable {self : Calls}

/-- Fields whose values are in range survive the way to the wire and back. -/
theorem survivor_of_inRange (h : self.InRange) :
    ∃ fields, self.build = some fields ∧ Survivor fields self.size := by
  induction self with
  | new => exact ⟨[], rfl, Survivor.nil⟩
  | string list name value ih =>
    obtain ⟨hl, hs⟩ := h
    obtain ⟨fields, hb, hsurv⟩ := ih hl
    have hlen : (value.octets ++ [0]).length = value.octets.length + 1 := length_append
    have hsize : FieldValue.flatSize (.string (value.octets ++ [0])) =
        value.octets.length + 1 + 4 := by rw [FieldValue.flatSize, hlen]
    refine ⟨newString fields name value, by rw [build, hb]; rfl, ?_⟩
    rw [size, ← hsize]
    refine hsurv.queueField ?_ (by rw [hsize]; exact hs)
    show (value.octets ++ [0]).length < _
    unfold fieldSize at hs
    omega
  | longstr list name value ih =>
    obtain ⟨hl, hs⟩ := h
    obtain ⟨fields, hb, hsurv⟩ := ih hl
    refine ⟨newLongstr fields name value, by rw [build, hb]; rfl, hsurv.queueField ?_ hs⟩
    show value.length < _
    unfold fieldSize at hs
    omega
  | integer list name value ih =>
    obtain ⟨fields, hb, hsurv⟩ := ih h
    exact ⟨newInteger fields name value, by rw [build, hb]; rfl,
      hsurv.queueField (int32_bounds value) (fieldSize_lt (Nat.le_succ 4))⟩
  | decimal list name value decimals ih =>
    obtain ⟨hl, hv⟩ := h
    obtain ⟨fields, hb, hsurv⟩ := ih hl
    exact ⟨newDecimal fields name value decimals, by rw [build, hb]; rfl,
      hsurv.queueField hv (fieldSize_lt (Nat.le_refl _))⟩
  | time list name value ih =>
    obtain ⟨hl, hv⟩ := h
    obtain ⟨fields, hb, hsurv⟩ := ih hl
    exact ⟨newTime fields name value, by rw [build, hb]; rfl,
      hsurv.queueField hv (fieldSize_lt (Nat.le_succ 4))⟩
  | fieldTable list name value ihl ihv =>
    obtain ⟨hl, hv, hs⟩ := h
    obtain ⟨fields, hb, hsurv⟩ := ihl hl
    obtain ⟨inner, hbv, hsurvv⟩ := ihv hv
    obtain ⟨flattened, hflat, hlen, -⟩ := hsurvv.flatten
    have hsize : FieldValue.flatSize (.fieldTable flattened) = size value + 4 := by
      rw [FieldValue.flatSize, hlen]
    refine ⟨queueField fields name (.fieldTable flattened), ?_, ?_⟩
    · rw [build, hbv, bind_some, hb, bind_some, newFieldTable, hflat]
      rfl
    · rw [size, ← hsize]
      refine hsurv.queueField ?_ (by rw [hsize]; exact hs)
      show flattened.length < _
      unfold fieldSize at hs
      omega
  | void list name ih =>
    obtain ⟨fields, hb, hsurv⟩ := ih h
    exact ⟨newVoid fields name, by rw [build, hb]; rfl,
      hsurv.queueField trivial (fieldSize_lt (by decide))⟩

theorem survives_of_inRange (h : self.InRange) : self.Survives := by
  obtain ⟨fields, hb, hs⟩ := survivor_of_inRange h
  obtain ⟨flattened, hf, -, hn⟩ := hs.flatten
  exact ⟨fields, flattened, hb, hf, hn⟩

theorem inRange_of_nested {list : Calls} (h : self.InRange) (hl : list ∈ self.nested) :
    list.InRange := by
  induction self with
  | new => exact absurd hl not_mem_nil
  | string _ _ _ ih | longstr _ _ _ ih => exact ih h.1 hl
  | integer _ _ _ ih => exact ih h hl
  | decimal _ _ _ _ ih | time _ _ _ ih => exact ih h.1 hl
  | fieldTable _ _ value ihl ihv =>
    rcases mem_append.mp hl with hl | hl
    · exact ihl h.1 hl
    · rcases mem_cons.mp hl with rfl | hl
      · exact h.2.1
      · exact ihv h.2.1 hl
  | void _ _ ih => exact ih h hl

theorem inRange_of_survivor (hb : self.build = some fields) (hs : Survivor fields n)
    (hn : ∀ list ∈ self.nested, list.Survives) : self.InRange := by
  induction self generalizing fields n with
  | new => trivial
  | string list name value ih =>
    obtain ⟨front, hfront, rfl⟩ := map_eq_some_iff.mp hb
    obtain ⟨-, hsize, m, hm⟩ := Survivor.of_queueField hs
    rw [FieldValue.flatSize, length_append] at hsize
    exact ⟨ih hfront hm hn, hsize⟩
  | longstr list name value ih =>
    obtain ⟨front, hfront, rfl⟩ := map_eq_some_iff.mp hb
    obtain ⟨-, hsize, m, hm⟩ := Survivor.of_queueField hs
    exact ⟨ih hfront hm hn, hsize⟩
  | integer list name value ih =>
    obtain ⟨front, hfront, rfl⟩ := map_eq_some_iff.mp hb
    obtain ⟨-, -, m, hm⟩ := Survivor.of_queueField hs
    exact ih hfront hm hn
  | decimal list name value decimals ih | time list name value ih =>
    obtain ⟨front, hfront, rfl⟩ := map_eq_some_iff.mp hb
    obtain ⟨hfits, -, m, hm⟩ := Survivor.of_queueField hs
    exact ⟨ih hfront hm hn, hfits⟩
  | fieldTable list name value ihl ihv =>
    obtain ⟨inner, hinner, hb⟩ := bind_eq_some_iff.mp hb
    obtain ⟨front, hfront, hb⟩ := bind_eq_some_iff.mp hb
    obtain ⟨flattened, hflat, rfl⟩ := map_eq_some_iff.mp hb
    obtain ⟨-, hsize, m, hm⟩ := Survivor.of_queueField hs
    have hvalue : value.InRange := by
      obtain ⟨fields', flattened', hb', hf', hp'⟩ := hn value (mem_append_right _ mem_cons_self)
      exact ihv hb' (survivor_of_flatten hf' hp') fun list hl =>
        hn list (mem_append_right _ (mem_cons_of_mem _ hl))
    obtain ⟨inner', hinner', hsurv⟩ := survivor_of_inRange hvalue
    obtain ⟨flattened', hflat', hlen, -⟩ := hsurv.flatten
    rw [hinner] at hinner'
    cases hinner'
    rw [hflat] at hflat'
    cases hflat'
    rw [FieldValue.flatSize, hlen] at hsize
    exact ⟨ihl hfront hm fun list hl => hn list (mem_append_left _ hl), hvalue, hsize⟩
  | void list name ih =>
    obtain ⟨front, hfront, rfl⟩ := map_eq_some_iff.mp hb
    obtain ⟨-, -, m, hm⟩ := Survivor.of_queueField hs
    exact ih hfront hm hn

/-- A built list round trips, with all lists nested in it, just when it is in range. -/
theorem roundTrips_iff (self : Calls) : self.RoundTrips ↔ self.InRange := by
  constructor
  · intro h
    obtain ⟨fields, flattened, hb, hf, hp⟩ := h self mem_cons_self
    exact inRange_of_survivor hb (survivor_of_flatten hf hp) fun list hl =>
      h list (mem_cons_of_mem _ hl)
  · intro h list hl
    rcases mem_cons.mp hl with rfl | hl
    · exact survives_of_inRange h
    · exact survives_of_inRange (inRange_of_nested h hl)

/-- The second after the last one of a 32-bit clock. -/
theorem not_roundTrips_time :
    ¬ (time new ⟨⟨['t'.toUInt8], by decide⟩, by decide⟩ 0x80000000).RoundTrips := by
  intro h
  obtain ⟨fields, flattened, hb, hf, hp⟩ := h _ mem_cons_self
  obtain ⟨-, -, hlt⟩ := inRange_of_survivor hb (survivor_of_flatten hf hp)
    fun list hl => absurd hl not_mem_nil
  exact absurd hlt (by decide)

end Calls

end OpenAmq
