import OpenAmq.Lib.Run

/-!
# Formatters that grow

`icl_longstr_fmt`, `icl_longstr_cat`, `ipr_str_format` and `ipr_str_md5` format a text into the
space there is. From the count that is returned they should see that the text did not fit, and
format it again into a larger block.

* `aprVsnprintf` — the bundled formatter, for a text of known length
* `fmt`, `cat` — formatting and appending to a long string
* `formatters_complete` — when no text is lost

The count for a text that did not fit is the size less one, and is compared with the size. So
the text is cut off, except where there is no space at all. There it is formatted again, with
arguments that the first pass has used up: without arguments that gives the same text (`again`).
-/

namespace OpenAmq

open OpenAmq.Lib List

/--
`apr_vsnprintf`: the octets before the terminator, and the number returned, which tells no more
than what fits unless there is no room at all
-/
def aprVsnprintf (text : List UInt8) (size : Nat) : List UInt8 × Nat :=
  if size = 0 then ([], text.length)
  else (text.take (size - 1), min text.length (size - 1))

/-- The octets with the terminator, which is written where there is room for it. -/
def aprWritten (text : List UInt8) (size : Nat) : List UInt8 :=
  if size = 0 then [] else (aprVsnprintf text size).1 ++ [0]

section Vsnprintf

variable {text : List UInt8} {size : Nat}

theorem count_of_lt (h : text.length < size) : (aprVsnprintf text size).2 = text.length := by
  rw [aprVsnprintf, if_neg (by omega)]
  exact Nat.min_eq_left (by omega)

theorem count_of_le (hpos : 0 < size) (h : size ≤ text.length) :
    (aprVsnprintf text size).2 = size - 1 := by
  rw [aprVsnprintf, if_neg (by omega)]
  exact Nat.min_eq_right (by omega)

theorem count_of_zero : (aprVsnprintf text 0).2 = text.length := rfl

theorem written_of_lt (h : text.length < size) : aprWritten text size = text ++ [0] := by
  rw [aprWritten, aprVsnprintf, if_neg (by omega), if_neg (by omega)]
  exact congrArg (· ++ [0]) (take_of_length_le (by omega))

theorem written_of_le (hpos : 0 < size) : aprWritten text size = text.take (size - 1) ++ [0] := by
  rw [aprWritten, aprVsnprintf, if_neg (by omega), if_neg (by omega)]

theorem length_octets (hpos : 0 < size) :
    (aprVsnprintf text size).1.length = (aprVsnprintf text size).2 := by
  rw [aprVsnprintf, if_neg (by omega)]
  exact length_take.trans (Nat.min_comm _ _)

end Vsnprintf

namespace Format

/-! ## Long strings -/

/--
`icl_longstr_t`: the block of the data, in which octets of new memory are not set, and how many
octets of it are in use.
-/
structure IclLongstr where
  curSize : Nat
  data : List (Option UInt8)
deriving DecidableEq

namespace IclLongstr

variable {self : IclLongstr}

def maxSize (self : IclLongstr) : Nat := self.data.length

/-- `new` with data. The block has no room for a terminator. -/
def new (data : List UInt8) : IclLongstr := ⟨data.length, data.map some⟩

/-- `new` without data. -/
def newEmpty (size : Nat) : IclLongstr := ⟨0, replicate size none⟩

/-- The old data is given back, and not copied. -/
def resize (size : Nat) : IclLongstr := ⟨0, replicate size none⟩

/-- The octets are written into the block from `pos` onwards. -/
def write (self : IclLongstr) (pos : Nat) (octets : List UInt8) : List (Option UInt8) :=
  self.data.take pos ++ octets.map some ++ self.data.drop (pos + octets.length)

/-- `icl_longstr_fmt` -/
def fmt (self : IclLongstr) (text again : List UInt8) : IclLongstr :=
  let curSize := (aprVsnprintf text self.maxSize).2
  if self.maxSize ≤ curSize then
    let self := resize (curSize * 2)
    ⟨(aprVsnprintf again self.maxSize).2, self.write 0 (aprWritten again self.maxSize)⟩
  else ⟨curSize, self.write 0 (aprWritten text self.maxSize)⟩

/-- `icl_longstr_cat` -/
def cat (self : IclLongstr) (text again : List UInt8) : IclLongstr :=
  let catSize := (aprVsnprintf text (self.maxSize - self.curSize)).2
  if self.maxSize < self.curSize + catSize + 1 then
    let self := resize ((self.curSize + catSize) * 2)
    ⟨self.curSize + (aprVsnprintf again (self.maxSize - self.curSize)).2,
      self.write self.curSize (aprWritten again (self.maxSize - self.curSize))⟩
  else
    ⟨self.curSize + catSize,
      self.write self.curSize (aprWritten text (self.maxSize - self.curSize))⟩

end IclLongstr

/-- The calls with their formatted texts, and what a second pass would make of the arguments. -/
inductive Call where
  | fmt (text again : List UInt8)
  | cat (text again : List UInt8)

def IclLongstr.call (self : IclLongstr) : Call → IclLongstr
  | .fmt text again => self.fmt text again
  | .cat text again => self.cat text again

/-! ## Strings -/

/-- `ipr_str_format`: the octets of the string and its terminator. -/
def iprStrFormat (text again : List UInt8) : List UInt8 :=
  let strSize := 255
  let fmtSize := (aprVsnprintf text strSize).2
  if strSize ≤ fmtSize then aprWritten again fmtSize else aprWritten text strSize

/-- The octets that `ipr_str_md5` hashes. -/
def md5Input (text again : List UInt8) : List UInt8 :=
  let strSize := 1024
  let fmtSize := (aprVsnprintf text strSize).2
  if strSize ≤ fmtSize then (aprWritten again fmtSize).take (aprVsnprintf again fmtSize).2
  else (aprWritten text strSize).take fmtSize

/-- `hex` -/
def hexDigit (n : Nat) : UInt8 := "0123456789abcdef".toList.getD n '0' |>.toNat.toUInt8

/-- `ipr_str_md5`, for the hash function of the library. -/
def iprStrMd5 (aprMd5 : List UInt8 → List UInt8) (text again : List UInt8) : List UInt8 :=
  (aprMd5 (md5Input text again)).flatMap fun octet =>
    [hexDigit (octet.toNat / 16), hexDigit (octet.toNat % 16)]

/-! ## What they are for -/

def textAfter (text : List UInt8) : Call → List UInt8
  | .fmt new _ => new
  | .cat more _ => text ++ more

/-- The long string holds the whole text, terminated, in its block. -/
structure Complete (s : IclLongstr) (text : List UInt8) : Prop where
  curSize : s.curSize = text.length
  fits : s.curSize < s.maxSize
  data : s.data.take (s.curSize + 1) = text.map some ++ [some 0]

/--
There is room for the text of a call and a terminator. Or there is no space at all, and the
second pass gives, as far as the new block takes it, the whole text that is to be there.
-/
def Room (self : IclLongstr) : Call → Prop
  | .fmt text again =>
    text.length < self.maxSize ∨
      self.maxSize = 0 ∧ text ≠ [] ∧ again.take (text.length * 2 - 1) = text
  | .cat text again =>
    self.curSize + text.length < self.maxSize ∨
      self.curSize = self.maxSize ∧ 0 < self.curSize + text.length ∧
        (again.take ((self.curSize + text.length) * 2 - 1)).map some =
          self.data.take self.curSize ++ text.map some

/-- The text is there, maybe without a terminator. -/
structure Holds (s : IclLongstr) (text : List UInt8) : Prop where
  curSize : s.curSize = text.length
  fits : s.curSize ≤ s.maxSize
  data : s.data.take s.curSize = text.map some

/-! ## Writing into the block -/

namespace IclLongstr

variable {self : IclLongstr} {pos size : Nat} {octets text again old : List UInt8}

theorem length_write (h : pos + octets.length ≤ self.maxSize) :
    (self.write pos octets).length = self.maxSize := by
  unfold maxSize at *
  simp only [write, length_append, length_take, length_map, length_drop]
  omega

theorem take_write (h : pos ≤ self.maxSize) : (self.write pos octets).take (pos + octets.length) =
      self.data.take pos ++ octets.map some := by
  have hlength : (self.data.take pos ++ octets.map some).length = pos + octets.length := by
    rw [length_append, length_take_of_le h, length_map]
  rw [write, ← hlength, take_left]

theorem complete_write (h : Holds self old) (hfits : self.curSize + text.length < self.maxSize) :
    Complete ⟨self.curSize + text.length, self.write self.curSize (text ++ [0])⟩ (old ++ text) where
  curSize := by
    rw [length_append, h.curSize]
  fits := by
    have hlength : (text ++ [0]).length = text.length + 1 := length_append
    show _ < (self.write self.curSize (text ++ [0])).length
    rw [length_write (by omega)]
    exact hfits
  data := by
    have htake := @take_write self self.curSize (text ++ [0]) h.fits
    rw [length_append, length_singleton, ← Nat.add_assoc] at htake
    rw [htake, h.data, map_append, map_append, append_assoc]
    rfl

theorem holds_nil (self : IclLongstr) : Holds ⟨0, self.data⟩ [] :=
  ⟨rfl, Nat.zero_le _, rfl⟩

theorem maxSize_resize (size : Nat) : (resize size).maxSize = size := length_replicate

/-- The long string of a second pass, in a block of `size`. -/
def retried (again : List UInt8) (size : Nat) : IclLongstr :=
  ⟨(aprVsnprintf again size).2, (resize size).write 0 (aprWritten again size)⟩

theorem complete_retried (hpos : 0 < size) :
    Complete (retried again size) (again.take (size - 1)) := by
  have hlength : (again.take (size - 1)).length = (aprVsnprintf again size).2 := by
    rw [← length_octets hpos, aprVsnprintf, if_neg (by omega)]
  have h := @complete_write (resize size) (again.take (size - 1)) [] (holds_nil (resize _)) (by
    rw [maxSize_resize, length_take]
    show 0 + min (size - 1) again.length < size
    omega)
  have hcur : (resize size).curSize + (again.take (size - 1)).length =
      (aprVsnprintf again size).2 := (Nat.zero_add _).trans hlength
  rw [nil_append, hcur] at h
  rw [retried, written_of_le hpos]
  exact h

theorem complete_unique (h : Complete self text) (hold : Complete self old) : text = old := by
  have hdata := append_cancel_right (h.data.symm.trans hold.data)
  exact map_injective_iff.mpr (fun _ _ => Option.some.inj) hdata

theorem complete_retried_iff : Complete (retried again (text.length * 2)) text ↔
    text ≠ [] ∧ again.take (text.length * 2 - 1) = text := by
  by_cases htext : text = []
  · subst htext
    refine iff_of_false (fun h => absurd h.fits ?_) (fun h => h.1 rfl)
    exact Nat.not_lt_zero _
  · have hpos := length_pos_iff.mpr htext
    have hall := @complete_retried (text.length * 2) again (by omega)
    constructor
    · intro h
      exact ⟨htext, complete_unique hall h⟩
    · rintro ⟨-, heq⟩
      rw [heq] at hall
      exact hall

/-! ## One call -/

theorem fmt_of_lt (h : text.length < self.maxSize) :
    self.fmt text again = ⟨text.length, self.write 0 (text ++ [0])⟩ := by
  simp only [fmt, count_of_lt h, written_of_lt h]
  exact if_neg (by omega)

theorem fmt_of_le (hpos : 0 < self.maxSize) (h : self.maxSize ≤ text.length) :
    (self.fmt text again).curSize = self.maxSize - 1 := by
  simp only [fmt, count_of_le hpos h]
  rw [if_neg (by omega)]

theorem fmt_of_zero (h : self.maxSize = 0) :
    self.fmt text again = retried again (text.length * 2) := by
  simp only [fmt, h, count_of_zero, maxSize_resize]
  exact if_pos (Nat.zero_le _)

theorem complete_fmt_iff :
    Complete (self.fmt text again) text ↔ Room self (.fmt text again) := by
  rcases Nat.lt_or_ge text.length self.maxSize with hlt | hle
  · refine iff_of_true ?_ (.inl hlt)
    rw [fmt_of_lt hlt]
    have h := @complete_write ⟨0, self.data⟩ text [] (holds_nil self) (by
      show 0 + text.length < self.maxSize
      omega)
    have hcur : (⟨0, self.data⟩ : IclLongstr).curSize + text.length = text.length :=
      Nat.zero_add _
    rw [hcur] at h
    exact h
  · have hnot := Nat.not_lt.mpr hle
    rcases Nat.eq_zero_or_pos self.maxSize with hzero | hpos
    · rw [fmt_of_zero hzero, complete_retried_iff]
      exact ⟨fun h => .inr ⟨hzero, h⟩, fun h => (h.resolve_left hnot).2⟩
    · refine iff_of_false (fun h => ?_) (fun h => ?_)
      · have hcur := h.curSize
        rw [fmt_of_le hpos hle] at hcur
        omega
      · exact Nat.ne_of_gt hpos (h.resolve_left hnot).1

theorem cat_of_lt (h : self.curSize + text.length < self.maxSize) : self.cat text again =
      ⟨self.curSize + text.length, self.write self.curSize (text ++ [0])⟩ := by
  have hlt : text.length < self.maxSize - self.curSize := by omega
  simp only [cat, count_of_lt hlt, written_of_lt hlt]
  exact if_neg (by omega)

theorem cat_of_le (hroom : self.curSize < self.maxSize)
    (h : self.maxSize ≤ self.curSize + text.length) :
    (self.cat text again).curSize = self.maxSize - 1 := by
  have hcount := @count_of_le text (self.maxSize - self.curSize) (by omega) (by omega)
  simp only [cat, hcount]
  rw [if_neg (by omega)]
  show self.curSize + (self.maxSize - self.curSize - 1) = self.maxSize - 1
  omega

theorem cat_of_full (h : self.curSize = self.maxSize) :
    self.cat text again = retried again ((self.curSize + text.length) * 2) := by
  have hroom : self.maxSize - self.curSize = 0 := by omega
  simp only [cat, hroom, count_of_zero, maxSize_resize]
  rw [if_pos (by omega)]
  simp only [resize, Nat.zero_add, Nat.sub_zero]
  rfl

theorem complete_cat_iff (h : Holds self old) :
    Complete (self.cat text again) (old ++ text) ↔ Room self (.cat text again) := by
  rcases Nat.lt_or_ge (self.curSize + text.length) self.maxSize with hlt | hle
  · refine iff_of_true ?_ (.inl hlt)
    rw [cat_of_lt hlt]
    exact complete_write h hlt
  · have hnot := Nat.not_lt.mpr hle
    have hlength : (old ++ text).length = self.curSize + text.length := by
      rw [length_append, h.curSize]
    rcases Nat.lt_or_ge self.curSize self.maxSize with hroom | hfull
    · refine iff_of_false (fun hcomplete => ?_) (fun hr => ?_)
      · have hcur := hcomplete.curSize
        rw [hlength, cat_of_le hroom hle] at hcur
        omega
      · exact Nat.ne_of_lt hroom (hr.resolve_left hnot).1
    · have hfull := Nat.le_antisymm h.fits hfull
      have hdata : self.data.take self.curSize ++ text.map some = (old ++ text).map some := by
        rw [h.data, map_append]
      have hinj := map_injective_iff.mpr (fun (_ _ : UInt8) => Option.some.inj)
      rw [cat_of_full hfull, ← hlength, complete_retried_iff, Room, hdata, hinj.eq_iff, ← hlength,
        length_pos_iff]
      exact ⟨fun hr => .inr ⟨hfull, hr⟩, fun hr => (hr.resolve_left (by omega)).2⟩

theorem complete_call_iff (h : Holds self old) (call : Call) :
    Complete (self.call call) (textAfter old call) ↔ Room self call := by
  cases call with
  | fmt text again => exact complete_fmt_iff
  | cat text again => exact complete_cat_iff h

end IclLongstr

theorem Complete.holds {self : IclLongstr} {text : List UInt8} (h : Complete self text) :
    Holds self text where
  curSize := h.curSize
  fits := Nat.le_of_lt h.fits
  data := by
    have hdata := congrArg (take self.curSize) h.data
    rw [take_take, Nat.min_eq_left (Nat.le_succ _)] at hdata
    rw [hdata]
    exact take_left' (by rw [length_map, h.curSize])

/-! ## Runs -/

/-- How a long string is created. -/
inductive Creation where
  | data (octets : List UInt8)
  | empty (size : Nat)

def Creation.longstr : Creation → IclLongstr
  | .data octets => .new octets
  | .empty size => .newEmpty size

/-- The initial data, if any. -/
def Creation.text : Creation → List UInt8
  | .data octets => octets
  | .empty _ => []

theorem Creation.holds (creation : Creation) : Holds creation.longstr creation.text := by
  cases creation with
  | data octets =>
    refine ⟨rfl, Nat.le_of_eq (length_map some).symm, ?_⟩
    exact take_of_length_le (Nat.le_of_eq (length_map some))
  | empty size => exact ⟨rfl, Nat.zero_le _, rfl⟩

theorem complete_calls_iff {start : IclLongstr} {text : List UInt8} (h : Holds start text)
    (calls : List Call) :
    (∀ before, before <+: calls → before ≠ [] →
      Complete (before.foldl IclLongstr.call start) (before.foldl textAfter text)) ↔
    Along (fun self call => some (self.call call)) Room start calls := by
  induction calls generalizing start text with
  | nil =>
    refine iff_of_true (fun before hbefore hne => ?_) trivial
    exact absurd (prefix_nil.mp hbefore) hne
  | cons call calls ih =>
    constructor
    · intro hall
      have hfirst := hall [call] (prefix_append [call] calls) (cons_ne_nil call [])
      refine ⟨(IclLongstr.complete_call_iff h call).mp hfirst, fun next hnext => ?_⟩
      cases hnext
      refine (ih hfirst.holds).mp fun before hbefore _ => ?_
      exact hall (call :: before) (cons_prefix_cons.mpr ⟨rfl, hbefore⟩) (cons_ne_nil call before)
    · rintro ⟨hroom, hrest⟩ before hbefore hne
      obtain ⟨first, before, rfl⟩ := exists_cons_of_ne_nil hne
      obtain ⟨rfl, hprefix⟩ := cons_prefix_cons.mp hbefore
      have hfirst := (IclLongstr.complete_call_iff h first).mpr hroom
      by_cases hnil : before = []
      · subst hnil
        exact hfirst
      · exact (ih hfirst.holds).mpr (hrest _ rfl) before hprefix hnil

/-! ## Strings of a first size -/

theorem iprStrFormat_iff (text again : List UInt8) :
    iprStrFormat text again = text ++ [0] ↔ text.length < 255 := by
  unfold iprStrFormat
  rcases Nat.lt_or_ge text.length 255 with hlt | hge
  · simp only [count_of_lt hlt, written_of_lt hlt]
    exact iff_of_true (if_neg (Nat.not_le.mpr hlt)) hlt
  · simp only [count_of_le (by decide : 0 < 255) hge, written_of_le (by decide : 0 < 255)]
    refine iff_of_false (fun h => ?_) (Nat.not_lt.mpr hge)
    have hlength := congrArg length h
    rw [if_neg (by decide), length_append, length_append, length_take, length_singleton] at hlength
    omega

theorem md5Input_iff (text again : List UInt8) :
    md5Input text again = text ↔ text.length < 1024 := by
  unfold md5Input
  rcases Nat.lt_or_ge text.length 1024 with hlt | hge
  · simp only [count_of_lt hlt, written_of_lt hlt]
    refine iff_of_true ?_ hlt
    rw [if_neg (Nat.not_le.mpr hlt), take_left]
  · simp only [count_of_le (by decide : 0 < 1024) hge, written_of_le (by decide : 0 < 1024)]
    refine iff_of_false (fun h => ?_) (Nat.not_lt.mpr hge)
    have hlength := congrArg length h
    rw [if_neg (by decide), length_take, length_append, length_take, length_singleton] at hlength
    omega

/--
A long string holds the whole text after each of its calls exactly when there is room for each
text, or no space at all and a second pass that gives it again. A string is formatted completely
up to 254 octets, and up to 1023 the whole text is hashed.
-/
theorem formatters_complete (creation : Creation) (calls : List Call) (text again : List UInt8) :
    ((∀ before, before <+: calls → before ≠ [] →
        Complete (before.foldl IclLongstr.call creation.longstr)
          (before.foldl textAfter creation.text)) ↔
      Along (fun self call => some (self.call call)) Room creation.longstr calls) ∧
    (iprStrFormat text again = text ++ [0] ↔ text.length < 255) ∧
    (md5Input text again = text ↔ text.length < 1024) :=
  ⟨complete_calls_iff creation.holds calls, iprStrFormat_iff text again, md5Input_iff text again⟩

/--
What is appended to a string created with data takes its place, and a text of the size of the
block loses its last octet.
-/
theorem formatters_lose :
    (((IclLongstr.new [0x61, 0x62]).cat [0x63] [0x63]).data.take 2 = [some 0x63, some 0] ∧
      ¬ Complete ((IclLongstr.new [0x61, 0x62]).cat [0x63] [0x63]) [0x61, 0x62, 0x63]) ∧
    ((IclLongstr.newEmpty 2).fmt [0x61, 0x62] [0x61, 0x62]).data = [some 0x61, some 0] ∧
    iprStrFormat (replicate 255 0x61) (replicate 255 0x61) = replicate 254 0x61 ++ [0] := by
  refine ⟨⟨by decide, fun h => ?_⟩, by decide, by decide +kernel⟩
  exact absurd h.curSize (by decide)

end Format

end OpenAmq
