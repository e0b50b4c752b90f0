import Mathlib.Tactic.Common
import Mathlib.Tactic.IntervalCases
import OpenAmq.Icl

/-!
# Times as texts

The two conversions of `ipr_time` that the guard file of a password table goes through, and those
of the portable runtime below them. A time is a number of microseconds since 1970.

* `gmtime`, `aprTimeExpGmt`, `aprTimeExpGmtGet` — exploded times
* `iso8601`, `iso8601Decode` — the text of a time, to the minute
* `iso8601Decode_iso8601` — which times a text gives back
-/

namespace OpenAmq

open List

/-! ## The calendar -/

/-- `apr_time_exp_t`, as far as it is looked at -/
structure TimeExp where
  tmUsec : Int
  tmSec : Int
  tmMin : Int
  tmHour : Int
  tmMday : Int
  tmMon : Int
  tmYear : Int
  tmGmtoff : Int
deriving DecidableEq

def isLeap (year : Int) : Bool := (year % 4 = 0 ∧ year % 100 ≠ 0) ∨ year % 400 = 0

def yearDays (year : Int) : Int := if isLeap year then 366 else 365

def monthDays (year : Int) : List Int :=
  [31, if isLeap year then 29 else 28, 31, 30, 31, 30, 31, 31, 30, 31, 30, 31]

/-- The year that a day lies in, and the days of that year before it. -/
def findYear : (fuel : Nat) → (year days : Int) → Int × Int
  | 0, year, days => (year, days)
  | fuel + 1, year, days =>
    if days < yearDays year then (year, days)
    else findYear fuel (year + 1) (days - yearDays year)

/-- The month that a day of a year lies in, and the days of that month before it. -/
def findMonth : List Int → (month days : Int) → Int × Int
  | [], month, days => (month, days)
  | length :: lengths, month, days =>
    if days < length then (month, days) else findMonth lengths (month + 1) (days - length)

/-- `gmtime`; every 400 years the calendar begins again. -/
def gmtime (seconds : Int) : TimeExp :=
  let days := seconds / 86400
  let (year, yday) := findYear 401 (1970 + days / 146097 * 400) (days % 146097)
  let (month, mday) := findMonth (monthDays year) 0 yday
  { tmUsec := 0
    tmSec := seconds % 60
    tmMin := seconds / 60 % 60
    tmHour := seconds / 3600 % 24
    tmMday := mday + 1
    tmMon := month
    tmYear := year - 1900
    tmGmtoff := 0 }

def aprTimeExpGmt (time : Int) : TimeExp :=
  { gmtime (time.tdiv 1000000) with tmUsec := time.tmod 1000000 }

/-- The days before each month of a year that begins in March. -/
def dayOffset : List Int := [306, 337, 0, 31, 61, 92, 122, 153, 184, 214, 245, 275]

/-- `apr_time_exp_gmt_get`, where `none` stands for `APR_EBADDATE` -/
def aprTimeExpGmtGet (xt : TimeExp) : Option Int :=
  -- the year begins in March
  let year := if xt.tmMon < 2 then xt.tmYear - 1 else xt.tmYear
  let days := year * 365 + year.tdiv 4 - year.tdiv 100 + (year.tdiv 100 + 3).tdiv 4
  let days := days + dayOffset.getD xt.tmMon.toNat 0 + xt.tmMday - 1 - 25508
  let seconds := ((days * 24 + xt.tmHour) * 60 + xt.tmMin) * 60 + xt.tmSec
  if seconds < 0 then none else some (seconds * 1000000 + xt.tmUsec - xt.tmGmtoff * 1000000)

/-- The days from 1970 to the beginning of a year, as the runtime counts them. -/
def daysBefore (year : Int) : Int :=
  (year - 1901) * 365 + (year - 1901) / 4 - (year - 1901) / 100 + ((year - 1901) / 100 + 3) / 4 +
    306 - 25508

theorem daysBefore_succ (year : Int) : daysBefore (year + 1) = daysBefore year + yearDays year := by
  unfold daysBefore yearDays isLeap
  simp only [decide_eq_true_eq]
  split <;> omega

theorem daysBefore_era (n : Int) : daysBefore (1970 + n * 400) = n * 146097 := by
  unfold daysBefore
  omega

theorem findYear_spec (fuel : Nat) (year days : Int) (h0 : 0 ≤ days) (h : days < fuel * 365) :
    daysBefore (findYear fuel year days).1 + (findYear fuel year days).2 = daysBefore year + days ∧
      0 ≤ (findYear fuel year days).2 ∧
      (findYear fuel year days).2 < yearDays (findYear fuel year days).1 ∧
      year ≤ (findYear fuel year days).1 := by
  induction fuel generalizing year days with
  | zero => omega
  | succ fuel ih =>
    rw [findYear]
    split
    · next hlt => exact ⟨rfl, h0, hlt, Int.le_refl year⟩
    · next hlt =>
      have hlength : 365 ≤ yearDays year := by
        unfold yearDays
        split <;> omega
      obtain ⟨hsum, hpos, hbound, hyear⟩ :=
        ih (year + 1) (days - yearDays year) (by omega) (by push_cast at h; omega)
      refine ⟨?_, hpos, hbound, by omega⟩
      rw [hsum, daysBefore_succ]
      omega

/-- The days from 1970 to the beginning of a month, as the runtime counts them. -/
def daysBeforeMonth (year month : Int) : Int :=
  let march := if month < 2 then year - 1901 else year - 1900
  march * 365 + march / 4 - march / 100 + (march / 100 + 3) / 4 + dayOffset.getD month.toNat 0 -
    25508

theorem findMonth_spec (lengths : List Int) (month days : Int) (h0 : 0 ≤ days)
    (h : days < lengths.sum) : ∃ i < lengths.length,
      findMonth lengths month days = (month + i, days - (lengths.take i).sum) ∧
      0 ≤ days - (lengths.take i).sum ∧ days - (lengths.take i).sum < lengths.getD i 0 := by
  induction lengths generalizing month days with
  | nil =>
    simp only [sum_nil] at h
    omega
  | cons length lengths ih =>
    rw [findMonth]
    split
    · next hlt => exact ⟨0, by simp, by simp, by simpa using h0, by simpa using hlt⟩
    · rw [sum_cons] at h
      obtain ⟨i, hi, hfind, hpos, hbound⟩ := ih (month + 1) (days - length) (by omega) (by omega)
      refine ⟨i + 1, by simpa using hi, ?_, ?_, ?_⟩
      · rw [hfind, take_succ_cons, sum_cons]
        simp only [Prod.mk.injEq]
        omega
      · rw [take_succ_cons, sum_cons]
        omega
      · rw [take_succ_cons, sum_cons, getD_cons_succ]
        omega

theorem sum_monthDays (year : Int) : (monthDays year).sum = yearDays year := by
  unfold monthDays yearDays
  split <;> rfl

variable {i : Nat} {n : Int} {digits : Str}

theorem daysBeforeMonth_eq (hi : i < 12) (year : Int) :
    daysBeforeMonth year i = daysBefore year + ((monthDays year).take i).sum := by
  have hmarch : (year - 1900) / 4 - (year - 1900) / 100 + ((year - 1900) / 100 + 3) / 4 + 365 =
      (year - 1901) / 4 - (year - 1901) / 100 + ((year - 1901) / 100 + 3) / 4 + yearDays year := by
    have hsucc := daysBefore_succ year
    unfold daysBefore at hsucc
    rw [show year + 1 - 1901 = year - 1900 by omega] at hsucc
    omega
  have hdays : yearDays year = if isLeap year then 366 else 365 := rfl
  unfold daysBeforeMonth daysBefore monthDays
  cases hleap : isLeap year <;> rw [hleap] at hdays <;>
    simp only [if_true, Bool.false_eq_true, if_false] at hdays ⊢ <;> interval_cases i <;>
    simp [dayOffset] <;> omega

theorem monthDays_le (hi : i < 12) (year : Int) :
    (monthDays year).getD i 0 ≤ [31, 29, 31, 30, 31, 30, 31, 31, 30, 31, 30, 31].getD i 0 := by
  unfold monthDays
  interval_cases i <;> cases hleap : isLeap year <;> simp

theorem gmtime_spec (seconds : Int) (h0 : 0 ≤ seconds) : ∃ (year : Int) (i : Nat) (mday : Int),
    i < 12 ∧ 1970 ≤ year ∧ 0 ≤ mday ∧ mday < (monthDays year).getD i 0 ∧
      daysBeforeMonth year i + mday = seconds / 86400 ∧ daysBefore year ≤ seconds / 86400 ∧
      gmtime seconds = ⟨0, seconds % 60, seconds / 60 % 60, seconds / 3600 % 24, mday + 1, i,
        year - 1900, 0⟩ := by
  obtain ⟨hsum, hpos, hbound, hyear⟩ := findYear_spec 401
    (1970 + seconds / 86400 / 146097 * 400) (seconds / 86400 % 146097) (by omega) (by omega)
  generalize hfind : findYear 401 (1970 + seconds / 86400 / 146097 * 400)
    (seconds / 86400 % 146097) = found at hsum hpos hbound hyear
  obtain ⟨year, yday⟩ := found
  rw [daysBefore_era] at hsum
  obtain ⟨i, hi, hmonth, hmpos, hmbound⟩ := findMonth_spec (monthDays year) 0 yday
    hpos (by rwa [sum_monthDays])
  have hdays := daysBeforeMonth_eq hi year
  simp only at hsum hpos hmonth hmpos hmbound hyear
  refine ⟨year, i, yday - ((monthDays year).take i).sum, hi, by omega, hmpos, hmbound,
    by omega, by omega, ?_⟩
  simp [gmtime, hfind, hmonth]

theorem gmtGet_eq {year mday hour min : Int} (hyear : 1970 ≤ year)
    (hday : 0 ≤ daysBeforeMonth year i + mday) (hhour : 0 ≤ hour) (hmin : 0 ≤ min) :
    aprTimeExpGmtGet ⟨0, 0, min, hour, mday + 1, i, year - 1900, 0⟩ =
      some ((((daysBeforeMonth year i + mday) * 24 + hour) * 60 + min) * 60000000) := by
  have hmarch : (if (i : Int) < 2 then year - 1900 - 1 else year - 1900) =
      if (i : Int) < 2 then year - 1901 else year - 1900 := by
    split <;> omega
  have hnonneg : 0 ≤ if (i : Int) < 2 then year - 1901 else year - 1900 := by
    split <;> omega
  unfold daysBeforeMonth at hday ⊢
  unfold aprTimeExpGmtGet
  simp only [hmarch] at hday ⊢
  generalize (if (i : Int) < 2 then year - 1901 else year - 1900) = march at hday hnonneg ⊢
  rw [Int.tdiv_eq_ediv_of_nonneg hnonneg, Int.tdiv_eq_ediv_of_nonneg hnonneg,
    Int.tdiv_eq_ediv_of_nonneg (by omega)]
  rw [if_neg (by omega)]
  congr 1
  omega

/-! ## Texts -/

/-- `%0nd` -/
def formatInt (width : Nat) (n : Int) : Str :=
  if n < 0 then '-' :: leftpad (width - 1) '0' (Nat.toDigits 10 n.natAbs)
  else leftpad width '0' (Nat.toDigits 10 n.natAbs)

/-- `ipr_time_iso8601` to the minute, in UTC -/
def iso8601 (time : Int) : Str :=
  let exp := aprTimeExpGmt time
  formatInt 4 (exp.tmYear + 1900) ++ '-' :: formatInt 2 (exp.tmMon + 1) ++
    '-' :: formatInt 2 exp.tmMday ++ 'T' :: formatInt 2 exp.tmHour ++
    ':' :: formatInt 2 exp.tmMin ++ "Z".toList

/-- `[0-9]{n}`, with what comes after it -/
def scanDigits (n : Nat) (s : Str) : Option (Str × Str) :=
  if (s.take n).length = n ∧ (s.take n).all Char.isDigit then some (s.take n, s.drop n) else none

/-- One character that a pattern asks for, and digits. -/
def scanAfter (c : Char) (n : Nat) : Str → Option (Str × Str)
  | [] => none
  | x :: s => if x = c then scanDigits n s else none

/-- What the groups of the pattern in `iso8601 decode` capture, nothing for those not reached. -/
structure IsoFields where
  year : Str
  month : Str
  day : Str
  hour : Str
  min : Str
  sec : Str
  sign : Str
  tzHour : Str
  tzMin : Str

/-- `(?:Z|(?:([-+])([0-9]{2}):([0-9]{2})))?` -/
def isoZone (fields : IsoFields) : Str → IsoFields
  | [] => fields
  | c :: s =>
    if c = '-' ∨ c = '+' then
      match scanDigits 2 s with
      | some (tzHour, s) =>
        match scanAfter ':' 2 s with
        | some (tzMin, _) => { fields with sign := [c], tzHour, tzMin }
        | none => fields
      | none => fields
    else fields

/-- `(?::([0-9]{2})(?:(.[0-9]+))?)?`, where the fraction, which is less than one, is passed over -/
def isoSeconds (fields : IsoFields) (s : Str) : IsoFields :=
  match scanAfter ':' 2 s with
  | some (sec, '.' :: c :: s) =>
    if c.isDigit then isoZone { fields with sec } (s.dropWhile Char.isDigit)
    else isoZone { fields with sec } ('.' :: c :: s)
  | some (sec, s) => isoZone { fields with sec } s
  | none => isoZone fields s

/-- The groups after the year. -/
def isoRest (fields : IsoFields) (s : Str) : IsoFields :=
  match scanAfter '-' 2 s with
  | none => fields
  | some (month, s) =>
    let fields := { fields with month }
    match scanAfter '-' 2 s with
    | none => fields
    | some (day, s) =>
      let fields := { fields with day }
      match scanAfter 'T' 2 s with
      | none => fields
      | some (hour, s) =>
        match scanAfter ':' 2 s with
        | none => fields
        | some (min, s) => isoSeconds { fields with hour, min } s

/-- The first match of the pattern. -/
def isoMatch : Str → Option IsoFields
  | [] => none
  | c :: s =>
    match scanDigits 4 (c :: s) with
    | some (year, rest) => some (isoRest ⟨year, [], [], [], [], [], [], [], []⟩ rest)
    | none => isoMatch s

/-- `atoi` of digits -/
def digitsValue (digits : Str) : Int := Nat.ofDigitChars 10 digits 0

/-- `s_exp_valid` -/
def expValid (exp : TimeExp) : Bool :=
  exp.tmYear < 2900 ∧ (exp.tmMon < 12 ∧
        exp.tmMday ≤ [31, 29, 31, 30, 31, 30, 31, 31, 30, 31, 30, 31].getD exp.tmMon.toNat 0 ∨
      exp.tmMon = 1 ∧ exp.tmMday = 29 ∧ !isLeap (exp.tmYear + 1900)) ∧
    exp.tmHour < 24 ∧ exp.tmMin < 60 ∧ exp.tmSec < 60

/-- `ipr_time_iso8601_decode`, zero if the text is no time -/
def iso8601Decode (text : Str) : Int :=
  match isoMatch text with
  | none => 0
  | some fields =>
    let gmtoff := digitsValue fields.tzHour * 60 + digitsValue fields.tzMin
    let exp : TimeExp :=
      { tmUsec := 0
        tmSec := digitsValue fields.sec
        tmMin := digitsValue fields.min
        tmHour := digitsValue fields.hour
        tmMday := digitsValue fields.day
        tmMon := if fields.month.isEmpty then 0 else digitsValue fields.month - 1
        tmYear := digitsValue fields.year - 1900
        tmGmtoff := if fields.sign = ['-'] then -gmtoff else gmtoff }
    if expValid exp then (aprTimeExpGmtGet exp).getD 0 else 0

/-- The text of a number that is not wider than it should be. -/
structure Digits (width : Nat) (n : Int) (digits : Str) : Prop where
  length : digits.length = width
  digit : digits.all Char.isDigit = true
  value : digitsValue digits = n

theorem formatInt_digits (width : Nat) (n : Int) (hwidth : 0 < width) (h0 : 0 ≤ n)
    (h : n.natAbs < 10 ^ width) : Digits width n (formatInt width n) := by
  have hle := (Nat.length_toDigits_le_iff (b := 10) (by decide) hwidth).mpr h
  rw [formatInt, if_neg (by omega)]
  refine ⟨?_, ?_, ?_⟩
  · rw [length_leftpad]
    omega
  · rw [leftpad, all_append, Bool.and_eq_true, all_eq_true, all_eq_true]
    refine ⟨fun c hc => ?_, fun c hc => Nat.isDigit_of_mem_toDigits (by decide) (by decide) hc⟩
    rw [eq_of_mem_replicate hc]
    rfl
  · rw [digitsValue, leftpad, Nat.ofDigitChars_append, Nat.ofDigitChars_replicate_zero,
      Nat.mul_zero, Nat.ofDigitChars_ten_toDigits]
    omega

theorem Digits.scan {width : Nat} (h : Digits width n digits) (rest : Str) :
    scanDigits width (digits ++ rest) = some (digits, rest) := by
  rw [scanDigits, take_left' h.length, drop_left' h.length, if_pos ⟨h.length, h.digit⟩]

theorem Digits.scanAfter {width : Nat} (h : Digits width n digits) (c : Char) (rest : Str) :
    OpenAmq.scanAfter c width (c :: (digits ++ rest)) = some (digits, rest) := by
  rw [OpenAmq.scanAfter, if_pos rfl, h.scan]

theorem Digits.ne_nil (h : Digits 2 n digits) : digits ≠ [] := by
  rintro rfl
  exact absurd h.length (by decide)

theorem isoMatch_minute {year month day hour min : Str} {y mo d h mi : Int}
    (hyear : Digits 4 y year) (hmonth : Digits 2 mo month) (hday : Digits 2 d day)
    (hhour : Digits 2 h hour) (hmin : Digits 2 mi min) :
    isoMatch (year ++ '-' :: (month ++ '-' :: (day ++ 'T' :: (hour ++ ':' :: (min ++ ['Z']))))) =
      some ⟨year, month, day, hour, min, [], [], [], []⟩ := by
  have hrest : isoRest ⟨year, [], [], [], [], [], [], [], []⟩
      ('-' :: (month ++ '-' :: (day ++ 'T' :: (hour ++ ':' :: (min ++ ['Z']))))) =
      ⟨year, month, day, hour, min, [], [], [], []⟩ := by
    rw [isoRest, hmonth.scanAfter]
    dsimp only
    rw [hday.scanAfter]
    dsimp only
    rw [hhour.scanAfter]
    dsimp only
    rw [hmin.scanAfter]
    rfl
  have hscan := hyear.scan
    ('-' :: (month ++ '-' :: (day ++ 'T' :: (hour ++ ':' :: (min ++ ['Z'])))))
  generalize '-' :: (month ++ '-' :: (day ++ 'T' :: (hour ++ ':' :: (min ++ ['Z'])))) = rest
    at hscan hrest ⊢
  cases year with
  | nil => exact absurd hyear.length (by decide)
  | cons c year =>
    rw [cons_append] at hscan ⊢
    rw [isoMatch, hscan, ← hrest]

/-- The first time that is not read back, at the beginning of the year 4800. -/
def isoLimit : Int := 89306150400000000

theorem iso8601Decode_iso8601 {time : Int} (h0 : 0 ≤ time) (h : time < isoLimit) :
    iso8601Decode (iso8601 time) = time - time % 60000000 := by
  have hlimit : isoLimit = 89306150400000000 := rfl
  obtain ⟨year, i, mday, hi, hyear, hmpos, hmbound, hdays, hbefore, hgmtime⟩ :=
    gmtime_spec (time / 1000000) (by omega)
  have hyearlt : year < 4800 := by
    unfold daysBefore at hbefore
    omega
  have hmonth := monthDays_le hi year
  have hmday : mday < 31 := by
    have : [31, 29, 31, 30, 31, 30, 31, 31, 30, 31, 30, 31].getD i (0 : Int) ≤ 31 := by
      interval_cases i <;> decide
    omega
  have hexp : aprTimeExpGmt time = ⟨time.tmod 1000000, time / 1000000 % 60,
      time / 1000000 / 60 % 60, time / 1000000 / 3600 % 24, mday + 1, i, year - 1900, 0⟩ := by
    rw [aprTimeExpGmt, Int.tdiv_eq_ediv_of_nonneg h0, hgmtime]
  have htext : iso8601 time = formatInt 4 year ++ '-' :: (formatInt 2 (i + 1) ++
      '-' :: (formatInt 2 (mday + 1) ++ 'T' :: (formatInt 2 (time / 1000000 / 3600 % 24) ++
        ':' :: (formatInt 2 (time / 1000000 / 60 % 60) ++ ['Z'])))) := by
    rw [iso8601, hexp]
    simp
  have hyearText := formatInt_digits 4 year (by decide) (by omega) (by omega)
  have hmonthText := formatInt_digits 2 (i + 1) (by decide) (by omega) (by omega)
  have hdayText := formatInt_digits 2 (mday + 1) (by decide) (by omega) (by omega)
  have hhourText := formatInt_digits 2 (time / 1000000 / 3600 % 24) (by decide) (by omega)
    (by omega)
  have hminText := formatInt_digits 2 (time / 1000000 / 60 % 60) (by decide) (by omega) (by omega)
  have hfields : ∀ s : Str, s ≠ [] → s.isEmpty = false := by
    intro s hs
    simpa using hs
  rw [htext, iso8601Decode, isoMatch_minute hyearText hmonthText hdayText hhourText hminText]
  simp only [hyearText.value, hmonthText.value, hdayText.value, hhourText.value, hminText.value,
    hfields _ hmonthText.ne_nil]
  have hexploded : (⟨0, digitsValue [], time / 1000000 / 60 % 60, time / 1000000 / 3600 % 24,
      mday + 1, if false = true then 0 else (i : Int) + 1 - 1, year - 1900,
      if ([] : Str) = ['-'] then -(digitsValue [] * 60 + digitsValue [])
      else digitsValue [] * 60 + digitsValue []⟩ : TimeExp) =
      ⟨0, 0, time / 1000000 / 60 % 60, time / 1000000 / 3600 % 24, mday + 1, i, year - 1900,
        0⟩ := by
    simp [digitsValue]
  rw [hexploded, gmtGet_eq hyear (by omega) (by omega) (by omega), if_pos, Option.getD_some, hdays]
  · omega
  · rw [expValid, decide_eq_true_eq]
    refine ⟨by simp only; omega, Or.inl ⟨by simp only; omega, ?_⟩, by simp only; omega,
      by simp only; omega, by simp only; omega⟩
    simp only [Int.toNat_natCast]
    omega

end OpenAmq
