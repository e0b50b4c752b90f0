import OpenAmq.Asl.Flatten
import OpenAmq.Icl.Format

/-!
# The text of a field, and what it leaves behind

`asl_field_string` makes the text of a field in the string that belongs to the field. For strings
and tables that is the string with their octets, which are then no longer what they were.

* `StoredField.format` — what `asl_field_string` does to it
* `Observed` — the list is flattened as before, and its tables are still there
* `observed_iff` — that is so when no field was formatted that this changes
-/

namespace OpenAmq

open List

/-! ## Formatting -/

/--
`icl_longstr_fmt`: the octets and `max_size` afterwards, for a format without arguments, which a
second pass formats to the same text
-/
def longstrFmt (text : List UInt8) (maxSize : Nat) : List UInt8 × Nat :=
  let r := aprVsnprintf text maxSize
  if maxSize ≤ r.2 then ((aprVsnprintf text (r.2 * 2)).1, r.2 * 2) else (r.1, maxSize)

/-- `(table)` -/
def tableText : List UInt8 := [40, 116, 97, 98, 108, 101, 41]

/-- The loop of `asl_field_string`, whose counter is an `int`. -/
def suppressNullsInt (data : Longstr) : Longstr :=
  if data.length < 0x80000000 then suppressNulls data else data

/--
A field and, when it is a table, the `max_size` of its string. The strings that other fields get
for their text are made anew each time and nothing else looks at them.
-/
structure StoredField where
  field : Field
  maxSize : Nat
  name_le : field.name.length ≤ shortstrMax
  inBuffer : ∀ data, field.value = .fieldTable data → data.length ≤ maxSize

/-- The value once `asl_field_string` has been called. -/
def FieldValue.format (maxSize : Nat) : FieldValue → FieldValue
  | string data => .string (suppressNullsInt data)
  | fieldTable _ => .fieldTable (longstrFmt tableText maxSize).1
  | value => value

/-- The size of the string then. -/
def FieldValue.formatSize (maxSize : Nat) : FieldValue → Nat
  | fieldTable _ => (longstrFmt tableText maxSize).2
  | _ => maxSize

variable (maxSize : Nat) {r r' : List UInt8}

theorem longstrFmt_tableText : longstrFmt tableText maxSize =
      if maxSize = 0 then (tableText, 14) else (tableText.take (maxSize - 1), maxSize) := by
  rw [longstrFmt, aprVsnprintf]
  by_cases h : maxSize = 0
  · subst h
    rfl
  · rw [if_neg h, if_neg h]
    rw [if_neg (by omega)]

theorem length_longstrFmt :
    (longstrFmt tableText maxSize).1.length ≤ (longstrFmt tableText maxSize).2 ∧
      (longstrFmt tableText maxSize).1.length ≤ 7 := by
  rw [longstrFmt_tableText]
  split
  · decide
  · simp only [length_take]
    have h7 : tableText.length = 7 := rfl
    omega

namespace StoredField

/-- `asl_field_string`, as far as the field is concerned; `fieldString` gives the text. -/
def format (self : StoredField) : StoredField where
  field := ⟨self.field.name, self.field.value.format self.maxSize⟩
  maxSize := self.field.value.formatSize self.maxSize
  name_le := self.name_le
  inBuffer data h := by
    cases hv : self.field.value with
    | fieldTable old =>
      rw [hv] at h
      obtain rfl := FieldValue.fieldTable.inj h
      exact (length_longstrFmt self.maxSize).1
    | string _ => rw [hv] at h; cases h
    | integer _ => rw [hv] at h; cases h
    | decimal _ _ => rw [hv] at h; cases h
    | time _ => rw [hv] at h; cases h
    | void => rw [hv] at h; cases h

/-- `asl_field_field_table`: the nested list that is decoded, or null -/
def fieldTable (self : StoredField) : Option (Except ParseError (List Field)) :=
  match self.field.value with
  | .fieldTable data => some (fieldListNew (some data))
  | _ => none

/--
Formatting leaves the value as it is: a string of less than 2^31 octets has no zero before its
last octet, and a table is the very text that it would be formatted to.
-/
def Stable (self : StoredField) : Prop :=
  match self.field.value with
  | .string data => data.length < 0x80000000 → 0 ∉ data.dropLast
  | .fieldTable data => self.maxSize ≠ 0 ∧ data = tableText.take (self.maxSize - 1)
  | _ => True

end StoredField

/-! ## The calls -/

/-- The methods of a field list that look at its fields. -/
inductive ReadCall where
  | search (name : Str)
  | string (name : Str)
  | cpy (name : Str)
  | integer (name : Str)
  | dump
  | toTree
deriving DecidableEq

/-- `asl_field_list_search`, as a position -/
def searchField (name : Str) (fields : List StoredField) : Option Nat :=
  fields.findIdx? fun self => decide (self.field.name = name)

def formatFirst (name : Str) (fields : List StoredField) : List StoredField :=
  match searchField name fields with
  | some i => fields.modify i StoredField.format
  | none => fields

def ReadCall.run : ReadCall → List StoredField → List StoredField
  | search _, fields => fields
  | string name, fields => formatFirst name fields
  | cpy name, fields => formatFirst name fields
  | integer _, fields => fields
  | dump, fields => fields.map StoredField.format
  | toTree, fields => fields.map StoredField.format

/-- One call after the other. -/
def runReads (calls : List ReadCall) (fields : List StoredField) : List StoredField :=
  calls.foldl (fun fields call => call.run fields) fields

/-- `asl_field_list_flatten` -/
def flattenStored (fields : List StoredField) : Option Longstr :=
  fieldListFlatten (fields.map StoredField.field)

/-- The call makes the text of the field at `i`. -/
def ReadCall.formats (fields : List StoredField) (i : Nat) : ReadCall → Bool
  | search _ => false
  | string name => decide (searchField name fields = some i)
  | cpy name => decide (searchField name fields = some i)
  | integer _ => false
  | dump => true
  | toTree => true

/-- The list is flattened to the same octets, and its tables give the same lists. -/
structure Observed (before after : List StoredField) : Prop where
  flatten : flattenStored after = flattenStored before
  fieldTable : after.map StoredField.fieldTable = before.map StoredField.fieldTable

/-! ## Formatting twice -/

theorem length_suppressNulls (data : List UInt8) : (suppressNulls data).length = data.length := by
  induction data with
  | nil => rfl
  | cons b data ih =>
    cases data with
    | nil => rfl
    | cons c data => rw [suppressNulls, length_cons, length_cons, ih]; simp

theorem suppressNulls_eq_self_iff {data : List UInt8} :
    suppressNulls data = data ↔ 0 ∉ data.dropLast := by
  induction data with
  | nil => simp [suppressNulls]
  | cons b data ih =>
    cases data with
    | nil => simp [suppressNulls]
    | cons c data =>
      rw [suppressNulls, dropLast_cons_of_ne_nil (cons_ne_nil c data), mem_cons,
        not_or, ← ih, cons.injEq]
      · refine and_congr_left fun _ => ?_
        by_cases hb : b = 0
        · subst hb
          decide
        · simp [hb, Ne.symm hb]
      · intro h
        cases h

theorem notMem_dropLast_suppressNulls (data : List UInt8) : 0 ∉ (suppressNulls data).dropLast := by
  induction data with
  | nil => simp [suppressNulls]
  | cons b data ih =>
    cases data with
    | nil => simp [suppressNulls]
    | cons c data =>
      have hne : suppressNulls (c :: data) ≠ [] := by
        intro h
        have hlen := length_suppressNulls (c :: data)
        rw [h] at hlen
        cases hlen
      rw [suppressNulls, dropLast_cons_of_ne_nil hne, mem_cons, not_or]
      · refine ⟨?_, ih⟩
        split
        · decide
        · exact Ne.symm ‹_›
      · intro h
        cases h

theorem length_suppressNullsInt (data : Longstr) :
    (suppressNullsInt data).length = data.length := by
  rw [suppressNullsInt]
  split
  · exact length_suppressNulls data
  · rfl

theorem suppressNullsInt_idem (data : Longstr) :
    suppressNullsInt (suppressNullsInt data) = suppressNullsInt data := by
  rw [suppressNullsInt, length_suppressNullsInt]
  split
  · next hlen =>
    rw [suppressNullsInt, if_pos hlen, suppressNulls_eq_self_iff]
    exact notMem_dropLast_suppressNulls data
  · rfl

theorem longstrFmt_idem :
    longstrFmt tableText (longstrFmt tableText maxSize).2 = longstrFmt tableText maxSize := by
  by_cases h : maxSize = 0
  · subst h
    rfl
  · have hsize : (longstrFmt tableText maxSize).2 = maxSize := by
      rw [longstrFmt_tableText, if_neg h]
    rw [hsize]

namespace StoredField

theorem ext {f g : StoredField} (hfield : f.field = g.field) (hsize : f.maxSize = g.maxSize) :
    f = g := by
  cases f
  cases g
  subst hfield
  subst hsize
  rfl

variable (f : StoredField)

@[simp] theorem format_name : f.format.field.name = f.field.name := rfl

theorem format_format : f.format.format = f.format := by
  refine ext ?_ ?_
  · show (⟨_, (f.field.value.format _).format (f.field.value.formatSize _)⟩ : Field) = ⟨_, _⟩
    cases f.field.value with
    | string data => simp only [FieldValue.format, suppressNullsInt_idem, format_name]
    | fieldTable data =>
      simp only [FieldValue.format, FieldValue.formatSize, longstrFmt_idem, format_name]
    | _ => rfl
  · show (f.field.value.format _).formatSize (f.field.value.formatSize _) = _
    cases hv : f.field.value with
    | fieldTable data =>
      simp only [FieldValue.format, FieldValue.formatSize, longstrFmt_idem, format, hv]
    | _ => simp only [FieldValue.format, FieldValue.formatSize, format, hv]

theorem stable_iff : f.Stable ↔ f.format.field = f.field := by
  have hfield : f.format.field = f.field ↔ f.field.value.format f.maxSize = f.field.value := by
    constructor
    · exact congrArg Field.value
    · intro h
      show (⟨f.field.name, f.field.value.format f.maxSize⟩ : Field) = f.field
      rw [h]
  have hin := f.inBuffer
  rw [hfield, Stable]
  cases hv : f.field.value with
  | string data =>
    simp only [FieldValue.format, FieldValue.string.injEq, suppressNullsInt]
    split
    · next hlen => simp only [hlen, forall_const, suppressNulls_eq_self_iff]
    · next hlen => simp [hlen]
  | fieldTable data =>
    have hle := hin data hv
    simp only [FieldValue.format, FieldValue.fieldTable.injEq, longstrFmt_tableText]
    by_cases hzero : f.maxSize = 0
    · rw [if_pos hzero]
      simp only [hzero, ne_eq, not_true_eq_false, false_and, false_iff]
      -- there is no room for the text
      rintro rfl
      rw [hzero] at hle
      exact absurd hle (by decide)
    · rw [if_neg hzero]
      exact ⟨fun h => h.2.symm, fun h => ⟨hzero, h.symm⟩⟩
  | _ => simp [FieldValue.format]

theorem Stable.format_eq {f : StoredField} (h : f.Stable) : f.format = f := by
  have hfield := f.stable_iff.mp h
  refine ext hfield ?_
  show f.field.value.formatSize f.maxSize = f.maxSize
  rw [Stable] at h
  cases hv : f.field.value with
  | fieldTable data =>
    rw [hv] at h
    simp only [FieldValue.formatSize, longstrFmt_tableText, if_neg h.1]
  | _ => rfl

end StoredField

/-! ## Runs of calls -/

variable {fields : List StoredField}

theorem searchField_congr {fields fields' : List StoredField}
    (h : fields'.map (fun f => f.field.name) = fields.map fun f => f.field.name) (name : Str) :
    searchField name fields' = searchField name fields := by
  have hmap : ∀ l : List StoredField, searchField name l =
      (l.map fun f => f.field.name).findIdx? fun n => decide (n = name) := by
    intro l
    rw [findIdx?_map]
    rfl
  rw [hmap, hmap, h]

/-- A call formats the fields that it finds, and leaves the others as they are. -/
theorem ReadCall.run_getElem? (call : ReadCall) (fields : List StoredField) (i : Nat) :
    (call.run fields)[i]? =
      fields[i]?.map fun f => if call.formats fields i then f.format else f := by
  have hfirst : ∀ name, (formatFirst name fields)[i]? = fields[i]?.map fun f =>
      if decide (searchField name fields = some i) then f.format else f := by
    intro name
    rw [formatFirst]
    cases hs : searchField name fields with
    | none => simp
    | some j =>
      by_cases hj : j = i
      · simp [hj]
      · simp [hj]
  cases call with
  | search name => simp [run, formats]
  | string name | cpy name => exact hfirst name
  | integer name | dump | toTree => simp [run, formats]

theorem ReadCall.run_names (call : ReadCall) (fields : List StoredField) :
    (call.run fields).map (fun f => f.field.name) = fields.map fun f => f.field.name := by
  refine ext_getElem? fun i => ?_
  rw [getElem?_map, getElem?_map, call.run_getElem?, Option.map_map]
  congr 1
  funext f
  split <;> rfl

theorem ReadCall.formats_congr {fields fields' : List StoredField}
    (h : fields'.map (fun f => f.field.name) = fields.map fun f => f.field.name) (call : ReadCall)
    (i : Nat) : call.formats fields' i = call.formats fields i := by
  cases call with
  | string name | cpy name => rw [formats, formats, searchField_congr h]
  | _ => rfl

/-- A field is formatted if one of the calls formats it. -/
theorem run_getElem? (calls : List ReadCall) (fields : List StoredField) (i : Nat) :
    (runReads calls fields)[i]? = fields[i]?.map fun f =>
      if calls.any fun call => call.formats fields i then f.format else f := by
  induction calls generalizing fields with
  | nil => simp [runReads]
  | cons call calls ih =>
    have hnames := call.run_names fields
    have hrest := ih (call.run fields)
    simp only [ReadCall.formats_congr hnames] at hrest
    rw [runReads, foldl_cons]
    rw [runReads] at hrest
    rw [hrest, call.run_getElem?, Option.map_map]
    congr 1
    funext f
    by_cases hcall : call.formats fields i = true
    · simp [hcall, StoredField.format_format]
    · simp [hcall]

/-! ## What flattening shows -/

/-- The octets of the field fit the `int` that counts them. -/
def StoredField.Small (self : StoredField) : Prop := self.field.octets.length < 0x80000000

theorem counted_inj {d d' : List UInt8} (hd : d.length < 0x80000000) (hd' : d'.length < 0x80000000)
    (h : putLong d.length ++ d ++ r = putLong d'.length ++ d' ++ r') : d = d' ∧ r = r' := by
  rw [append_assoc, append_assoc] at h
  have hget := congrArg getLong h
  rw [getLong_putLong, getLong_putLong, Option.some.injEq, Prod.mk.injEq] at hget
  obtain ⟨hlen, hrest⟩ := hget
  exact append_inj hrest (by omega)

namespace StoredField

variable {f : StoredField}

theorem Small.format (h : f.Small) : f.format.Small := by
  have hname := f.name_le
  have hlen := f.field.length_octets
  rw [Small, hlen] at h
  rw [Small, Field.length_octets]
  show f.field.name.length + 2 + (f.field.value.format f.maxSize).flatSize < _
  cases hv : f.field.value with
  | string data =>
    rw [hv] at h
    simp only [FieldValue.format, FieldValue.flatSize, length_suppressNullsInt] at h ⊢
    exact h
  | fieldTable data =>
    have htext := (length_longstrFmt f.maxSize).2
    rw [shortstrMax] at hname
    simp only [FieldValue.format, FieldValue.flatSize]
    omega
  | _ =>
    rw [hv] at h
    exact h

theorem octets_eq : f.field.octets =
    (UInt8.ofNat f.field.name.length :: (stringOctets f.field.name ++ [f.field.value.type])) ++
      f.field.value.octets := by
  simp [Field.octets]

theorem type_format : f.format.field.value.type = f.field.value.type := by
  show (f.field.value.format f.maxSize).type = _
  cases f.field.value <;> rfl

theorem value_inj (hf : f.Small)
    (h : (f.field.value.format f.maxSize).octets ++ r' = f.field.value.octets ++ r) :
    f.field.value.format f.maxSize = f.field.value ∧ r' = r := by
  have hlen := f.field.length_octets
  have hlen' := f.format.field.length_octets
  have hf' := hf.format
  rw [Small, hlen] at hf
  rw [Small, hlen'] at hf'
  change _ + 2 + (f.field.value.format f.maxSize).flatSize < _ at hf'
  cases hv : f.field.value with
  | string data =>
    rw [hv] at h hf hf'
    simp only [FieldValue.format, FieldValue.octets, FieldValue.flatSize] at h hf hf' ⊢
    obtain ⟨hdata, hrest⟩ := counted_inj (by omega) (by omega) h
    exact ⟨congrArg FieldValue.string hdata, hrest⟩
  | fieldTable data =>
    rw [hv] at h hf hf'
    simp only [FieldValue.format, FieldValue.octets, FieldValue.flatSize] at h hf hf' ⊢
    obtain ⟨hdata, hrest⟩ := counted_inj (by omega) (by omega) h
    exact ⟨congrArg FieldValue.fieldTable hdata, hrest⟩
  | _ =>
    rw [hv] at h
    exact ⟨rfl, append_cancel_left h⟩

theorem octets_inj (hf : f.Small) (h : f.format.field.octets ++ r' = f.field.octets ++ r) :
    f.format.field = f.field ∧ r' = r := by
  rw [octets_eq, octets_eq, type_format, format_name, append_assoc, append_assoc] at h
  obtain ⟨hvalue, hrest⟩ := value_inj hf (append_cancel_left h)
  refine ⟨?_, hrest⟩
  show (⟨f.field.name, f.field.value.format f.maxSize⟩ : Field) = f.field
  rw [hvalue]

end StoredField

/-- A list in which some fields have been formatted is flattened as before only if these are the
same. -/
theorem fields_of_flatMap : ∀ {before after : List StoredField},
    (∀ i : Nat, after[i]? = before[i]? ∨ after[i]? = before[i]?.map StoredField.format) →
    (∀ f ∈ before, f.Small) →
    (after.map StoredField.field).flatMap Field.octets =
      (before.map StoredField.field).flatMap Field.octets →
    after.map StoredField.field = before.map StoredField.field := by
  intro before
  induction before with
  | nil =>
    intro after h _ _
    have hnone := h 0
    simp only [getElem?_nil, Option.map_none, or_self] at hnone
    rw [getElem?_eq_none_iff, Nat.le_zero, length_eq_zero_iff] at hnone
    rw [hnone]
  | cons f before ih =>
    intro after h hsmall hflat
    obtain ⟨hf, hbefore⟩ := forall_mem_cons.mp hsmall
    cases after with
    | nil =>
      have hfirst := h 0
      simp at hfirst
    | cons g after =>
      have htail := ih (fun i => h (i + 1)) hbefore
      have hfirst := h 0
      simp only [getElem?_cons_zero, Option.map_some, Option.some.injEq] at hfirst
      simp only [map_cons, flatMap_cons] at hflat ⊢
      rcases hfirst with rfl | rfl
      · rw [htail (append_cancel_left hflat)]
      · obtain ⟨heq, hrest⟩ := StoredField.octets_inj hf hflat
        rw [heq, htail hrest]

theorem flattenStored_of_small (h : ∀ f ∈ fields, f.Small) :
    flattenStored fields = some ((fields.map StoredField.field).flatMap Field.octets) := by
  refine fieldListFlatten_of_small fun self hself => ?_
  obtain ⟨f, hf, rfl⟩ := mem_map.mp hself
  exact h f hf

/-- Reads leave all fields within their sizes. -/
theorem small_runReads (calls : List ReadCall) (h : ∀ f ∈ fields, f.Small) :
    ∀ f ∈ runReads calls fields, f.Small := by
  intro g hg
  obtain ⟨i, hi⟩ := mem_iff_getElem?.mp hg
  rw [run_getElem?] at hi
  obtain ⟨f, hf, heq⟩ := Option.map_eq_some_iff.mp hi
  have hsmall := h f (mem_of_getElem? hf)
  rw [← heq]
  split
  · exact hsmall.format
  · exact hsmall

/--
Whatever is called on a list of fields that can be counted, it is flattened as before and keeps
its tables exactly when each field that was formatted is stable.
-/
theorem observed_iff (calls : List ReadCall) (fields : List StoredField)
    (hsmall : ∀ f ∈ fields, f.Small) :
    Observed fields (runReads calls fields) ↔
      ∀ i f, fields[i]? = some f → (∃ call ∈ calls, call.formats fields i = true) → f.Stable := by
  constructor
  · intro h i f hi hformats
    have hflat := h.flatten
    rw [flattenStored_of_small hsmall, flattenStored_of_small (small_runReads calls hsmall),
      Option.some.injEq] at hflat
    have hfields := fields_of_flatMap ?_ hsmall hflat
    · have hat := congrArg (fun l : List Field => l[i]?) hfields
      simp only [getElem?_map, run_getElem?, hi, Option.map_some, Option.some.injEq] at hat
      rw [if_pos (any_eq_true.mpr hformats)] at hat
      exact f.stable_iff.mpr hat
    · intro j
      rw [run_getElem?]
      split
      · exact .inr rfl
      · exact .inl Option.map_id'
  · intro h
    have hsame : runReads calls fields = fields := by
      refine ext_getElem? fun i => ?_
      rw [run_getElem?]
      cases hi : fields[i]? with
      | none => rfl
      | some f =>
        rw [Option.map_some]
        split
        · next hany => rw [(h i f hi (any_eq_true.mp hany)).format_eq]
        · rfl
    rw [hsame]
    exact ⟨rfl, rfl⟩

/-- A field with the string `ab` -/
def abField : StoredField where
  field := ⟨['s'], .string [97, 98]⟩
  maxSize := 3
  name_le := by decide
  inBuffer := by
    intro data h
    cases h

/-- A field with a table of one field, `a` without a value -/
def nestedField : StoredField where
  field := ⟨['t'], .fieldTable [1, 97, 86]⟩
  maxSize := 3
  name_le := by decide
  inBuffer := by
    intro data h
    cases h
    decide

/-- A field with the number five -/
def fiveField : StoredField where
  field := ⟨['n'], .integer 5⟩
  maxSize := 0
  name_le := by decide
  inBuffer := by
    intro data h
    cases h

/-- The text of the string and the number can be asked for, and whether there is a table. -/
theorem observed_iff_sample : Observed [abField, nestedField, fiveField]
    (runReads [.string ['s'], .search ['t'], .integer ['n'], .cpy ['n']]
      [abField, nestedField, fiveField]) := by
  refine (observed_iff _ [abField, nestedField, fiveField] ?_).mpr fun i f hi hcalls => ?_
  · intro f hf
    simp only [mem_cons, not_mem_nil, or_false] at hf
    rcases hf with rfl | rfl | rfl <;> (rw [StoredField.Small]; decide)
  · match i, hi with
    | 0, hi =>
      obtain rfl := Option.some.inj hi
      show ([97, 98] : Longstr).length < 0x80000000 → 0 ∉ ([97, 98] : Longstr).dropLast
      decide
    | 1, _ => exact absurd hcalls (by decide)
    | 2, hi =>
      obtain rfl := Option.some.inj hi
      trivial

/-- Once the list has been dumped, the table is gone. -/
theorem dump_loses_table : flattenStored [nestedField] = some [1, 116, 70, 0, 0, 0, 3, 1, 97, 86] ∧
      flattenStored (runReads [.dump] [nestedField]) = some [1, 116, 70, 0, 0, 0, 2, 40, 116] ∧
      ¬ Observed [nestedField] (runReads [.dump] [nestedField]) := by
  have hbefore : flattenStored [nestedField] = some [1, 116, 70, 0, 0, 0, 3, 1, 97, 86] := by
    decide
  have hafter : flattenStored (runReads [.dump] [nestedField]) =
      some [1, 116, 70, 0, 0, 0, 2, 40, 116] := by decide
  refine ⟨hbefore, hafter, fun h => ?_⟩
  have hflat := h.flatten
  exact absurd hflat (by decide)

end OpenAmq
