import OpenAmq.Ipr.Guard

/-!
# MIME times

`ipr_time_mime_decode` takes a date apart with `sscanf`. It sets none of its variables before, and
nothing keeps a word to the block that it goes into.

* `Mime.sscanf` — the conversions of the formats
* `mimeDecode` — the time, zero for a text that is none
* `mimeDecode_isSome_iff` — the texts that do not go over a block
-/

namespace OpenAmq

open List

/-- `isspace` -/
def isSpace (c : Char) : Bool := c == ' ' || ('\t' ≤ c && c ≤ '\r')

namespace Mime

/-- The variables, with what their memory holds before anything is scanned into them -/
structure Locals where
  exp : TimeExp
  monthName : Nat → Char
  buffer : Nat → Char

/-- The text in a block of this size from `start` on -/
def textAt (block : Nat → Char) (start size : Nat) : Str :=
  ((range (size - start)).map fun i => block (start + i)).takeWhile (· ≠ '\x00')

/-- `strcpy` -/
def store (block : Nat → Char) (text : Str) : Nat → Char := fun i =>
  ((text ++ ['\x00'])[i]?).getD (block i)

/-! ## Scanning -/

/-- What a format is made of. A word goes into a block of the given size. -/
inductive Conversion where
  /-- `%d` -/
  | number (assign : TimeExp → Int → TimeExp)
  /-- `%s` -/
  | word (size : Nat) (assign : Locals → Str → Locals)
  /-- `:` -/
  | colon

def word (s : Str) : Str := (s.dropWhile isSpace).takeWhile fun c => !isSpace c

def behindWord (s : Str) : Str := (s.dropWhile isSpace).dropWhile fun c => !isSpace c

/-- The number at the beginning, and what is behind it -/
def scanNumber (s : Str) : Option (Int × Str) :=
  let unsigned := match s.dropWhile isSpace with
    | '-' :: s => s
    | '+' :: s => s
    | s => s
  if unsigned.head?.any Char.isDigit then
    some (Password.atoi s, unsigned.dropWhile Char.isDigit)
  else none

/-- `sscanf`, which ends at the first conversion that fails; `none` when a word goes over. -/
def sscanf : (format : List Conversion) → Str → Locals → Option Locals
  | [], _, self => some self
  | .number assign :: format, s, self =>
    match scanNumber s with
    | none => some self
    | some (n, s) => sscanf format s { self with exp := assign self.exp n }
  | .word size assign :: format, s, self =>
    if (word s).isEmpty then some self
    else if (word s).length < size then sscanf format (behindWord s) (assign self (word s))
    else none
  | .colon :: format, s, self =>
    match s with
    | ':' :: s => sscanf format s self
    | _ => some self

/-! ## The date -/

def mday : Conversion := .number fun exp n => { exp with tmMday := n }

def year : Conversion := .number fun exp n => { exp with tmYear := n }

/-- `char month_name [20]` -/
def monthName : Conversion := .word 20 fun self text =>
  { self with monthName := store self.monthName text }

/-- `char buffer [50]` -/
def buffer : Conversion := .word 50 fun self text =>
  { self with buffer := store self.buffer text }

/-- `%d:%d:%d` -/
def timeOfDay : List Conversion :=
  [.number fun exp n => { exp with tmHour := n }, .colon,
    .number fun exp n => { exp with tmMin := n }, .colon,
    .number fun exp n => { exp with tmSec := n }]

/-- The day, the month and the year between the hyphens of the buffer -/
def splitDate (self : Locals) : Locals :=
  let buffer i := if i = 2 ∨ i = 6 then '\x00' else self.buffer i
  { exp := { self.exp with
      tmMday := Password.atoi (textAt buffer 0 50)
      tmYear := Password.atoi (textAt buffer 7 50) }
    monthName := store self.monthName (textAt buffer 3 50)
    buffer }

/-- The three formats of a date. A text of one character ends before the one that is looked at. -/
def takeApart (self : Locals) (mime : Str) : Option Locals :=
  if mime.head?.any Char.isAlpha then
    -- ctime
    sscanf (monthName :: mday :: timeOfDay ++ [year]) mime self
  else if mime.length < 2 then none
  else if mime[2]? = some '-' then
    -- RFC 850
    (sscanf (buffer :: timeOfDay) mime self).map splitDate
  else
    -- RFC 1123
    sscanf (mday :: monthName :: year :: timeOfDay) mime self

def months : List String :=
  ["jan", "feb", "mar", "apr", "may", "jun", "jul", "aug", "sep", "oct", "nov", "dec"]

/-- Year does not include century; exploded time is in UTC -/
def timeOf (self : Locals) : Int :=
  let name := (textAt self.monthName 0 20).map Char.toLower
  let exp : TimeExp := { self.exp with
    tmUsec := 0
    tmMon := months.findIdx fun month => month.toList == name
    tmYear := if 1900 < self.exp.tmYear then self.exp.tmYear - 1900 else self.exp.tmYear
    tmGmtoff := 0 }
  if expValid exp then (aprTimeExpGmtGet exp).getD 0 else 0

end Mime

open Mime

/-- `ipr_time_mime_decode`, which begins behind the weekday; `none` when memory is touched that is
neither the text nor a variable. -/
def mimeDecode (locals : Locals) (mime : Str) : Option Int :=
  match mime.dropWhile (· ≠ ' ') with
  | [] => some 0
  | date => (takeApart locals (date.dropWhile isSpace)).map timeOf

namespace Mime

/-! ## What fits -/

/-- The words of a date are not longer than its format allows. -/
def DateFits (date : Str) : Prop :=
  if date.head?.any Char.isAlpha then (word date).length < 20
  else 2 ≤ date.length ∧
    if date[2]? = some '-' then (word date).length < 50
    else ∀ n rest, scanNumber date = some (n, rest) → (word rest).length < 20

/-- The date behind the weekday, if there is one, has no word that is too long. -/
def Fits (mime : Str) : Prop :=
  mime.dropWhile (· ≠ ' ') ≠ [] → DateFits ((mime.dropWhile (· ≠ ' ')).dropWhile isSpace)

def Conversion.IsWord : Conversion → Prop
  | word _ _ => True
  | _ => False

variable {format : List Conversion} {s : Str} {self : Locals}

theorem sscanf_isSome (h : ∀ conversion ∈ format, ¬ conversion.IsWord) :
    (sscanf format s self).isSome := by
  induction format generalizing s self with
  | nil => rfl
  | cons conversion format ih =>
    rw [forall_mem_cons] at h
    cases conversion with
    | number assign =>
      rw [sscanf]
      split
      · rfl
      · exact ih h.2
    | word size assign => exact absurd trivial h.1
    | colon =>
      unfold sscanf
      split
      · exact ih h.2
      · rfl

theorem sscanf_word_isSome_iff {size : Nat} {assign : Locals → Str → Locals} (hsize : 0 < size)
    (h : ∀ conversion ∈ format, ¬ conversion.IsWord) :
    (sscanf (.word size assign :: format) s self).isSome ↔ (word s).length < size := by
  rw [sscanf]
  by_cases hempty : (word s).isEmpty = true
  · rw [if_pos hempty, isEmpty_iff.mp hempty]
    exact iff_of_true rfl hsize
  · rw [if_neg hempty]
    by_cases hlt : (word s).length < size
    · rw [if_pos hlt]
      exact iff_of_true (sscanf_isSome h) hlt
    · rw [if_neg hlt]
      exact iff_of_false nofun hlt

theorem takeApart_isSome_iff {date : Str} : (takeApart self date).isSome ↔ DateFits date := by
  unfold takeApart DateFits
  split
  · exact sscanf_word_isSome_iff (by decide) (by simp [timeOfDay, mday, year, Conversion.IsWord])
  by_cases hlt : date.length < 2
  · rw [if_pos hlt]
    exact iff_of_false nofun fun h => absurd h.1 (by omega)
  rw [if_neg hlt, and_iff_right (by omega)]
  split
  · rw [Option.isSome_map]
    exact sscanf_word_isSome_iff (by decide) (by simp [timeOfDay, Conversion.IsWord])
  · rw [mday, sscanf]
    cases scanNumber date with
    | none => exact iff_of_true rfl nofun
    | some r =>
      obtain ⟨n, rest⟩ := r
      refine (sscanf_word_isSome_iff (by decide)
        (by simp [timeOfDay, year, Conversion.IsWord])).trans ?_
      exact ⟨fun h n' rest' hsame => by cases hsame; exact h, fun h => h n rest rfl⟩

end Mime

/-- Whatever the variables hold at first, a time is returned for the texts that fit, and only for
these. -/
theorem mimeDecode_isSome_iff (locals : Locals) {mime : Str} :
    (mimeDecode locals mime).isSome ↔ Mime.Fits mime := by
  unfold mimeDecode Mime.Fits
  split
  · next hnone => exact iff_of_true rfl fun h => absurd hnone h
  · next hsome =>
    rw [Option.isSome_map, takeApart_isSome_iff]
    exact ⟨fun h _ => h, fun h => h hsome⟩

/-- An RFC 1123 date, whose weekday is not looked at -/
example : mimeDecode ⟨⟨0, 0, 0, 0, 0, 0, 0, 0⟩, fun _ => 'x', fun _ => 'x'⟩
    "Mon, 12 Jan 1995 12:05:01 GMT".toList = some 789912301000000 := by decide +kernel

end OpenAmq
