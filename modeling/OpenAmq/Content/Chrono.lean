import OpenAmq.Asl.Flatten
import OpenAmq.Content.Model
import OpenAmq.Ipr.PasswordTable

/-!
# The content chronometer

A content carries the time of its start and the milliseconds to each measuring point as text in
its correlation id. The text is read again as a list of differences, and a client session
collects these in a block.

* `chronoSet`, `chronoAdd`, `chronoGet` — the three methods on the text
* `processChrono` — a content that arrives at a session
* `ContentObject.chronoAdd` — a content at a measuring point
* `chronometer_measures` — what the text and the block hold
-/

namespace OpenAmq

open List

/-! ## Numbers in a text -/

/-- The text behind the digits at the start of a text, when there are some. -/
def hexEnd : Str → Option Str
  | '0' :: 'x' :: d :: s =>
    if (hexValue? d).isSome then some (s.dropWhile fun c => (hexValue? c).isSome)
    else some ('x' :: d :: s)
  | '0' :: 'X' :: d :: s =>
    if (hexValue? d).isSome then some (s.dropWhile fun c => (hexValue? c).isSome)
    else some ('X' :: d :: s)
  | c :: s =>
    if (hexValue? c).isSome then some (s.dropWhile fun c => (hexValue? c).isSome) else none
  | [] => none

/-- The pointer that `strtoull` to the base 16 leaves. Without a number it is where it was. -/
def strtoull16End (s : Str) : Str :=
  let number := s.dropWhile fun c => Password.isSpace c || c == '\x0b'
  let digits :=
    match number with
    | '-' :: number => number
    | '+' :: number => number
    | number => number
  (hexEnd digits).getD s

/-- `icl_shortstr_fmt` at the end of a text. It always has a whole string of room. -/
def shortstrFmtAt (string text : Str) : Except Violation Str :=
  let written := vsnprintf shortstrMax text
  if string.length + written.length ≤ shortstrMax then .ok (string ++ written) else .error .write

namespace Chrono

/-! ## The methods -/

def chronoMarker : Str := "Chrono-".toList

/-- The test of `ipr_str_prefixed` with the marker. -/
def Marked (correlationId : Str) : Prop := chronoMarker <+: correlationId

instance (correlationId : Str) : Decidable (Marked correlationId) :=
  inferInstanceAs (Decidable (chronoMarker <+: correlationId))

/-- `chrono set` -/
def chronoSet (now : Int) : Str :=
  vsnprintf shortstrMax (chronoMarker ++ Nat.toDigits 16 (now % 2 ^ 64).toNat)

def startTime (correlationId : Str) : Int :=
  (strtoull16 (correlationId.drop chronoMarker.length) : Int).bmod (2 ^ 64)

/-- `msecs` of `chrono add`. More than 60 seconds are infinity. -/
def msecsAt (start now : Int) : Int :=
  let msecs := (((now - start).bmod (2 ^ 64)).tdiv 1000).bmod (2 ^ 32)
  if 60000 < msecs then 0xffff else msecs

/-- `" %x"` -/
def deltaText (msecs : Int) : Str := ' ' :: Nat.toDigits 16 (msecs % 2 ^ 32).toNat

/-- `chrono add` -/
def chronoAdd (now : Int) (correlationId : Str) : Except Violation Str :=
  if Marked correlationId then
    shortstrFmtAt correlationId (deltaText (msecsAt (startTime correlationId) now))
  else .ok correlationId

/-- `msecs` of `chrono get`: infinity is read as zero. -/
def readMsecs (chronoPtr : Str) : Int :=
  let msecs := (strtoull16 chronoPtr : Int).bmod (2 ^ 32)
  if 0xffff ≤ msecs then 0 else msecs

/-- `MAX (msecs - previous, 0)` -/
def increase (previous msecs : Int) : Nat := ((msecs - previous).bmod (2 ^ 32)).toNat

/-- The loop of `chrono get`: the deltas and the last `msecs`. -/
def chronoLoop : (fuel : Nat) → (chronoPtr deltas delim : Str) → (msecs : Int) →
    Except Violation (Str × Int)
  | 0, _, _, _, _ => .error .unfinished
  | _ + 1, [], deltas, _, msecs => .ok (deltas, msecs)
  | fuel + 1, chronoPtr, deltas, delim, previous =>
    if deltas.length < shortstrMax then do
      let msecs := readMsecs chronoPtr
      let deltas ← shortstrFmtAt deltas (delim ++ Nat.toDigits 10 (increase previous msecs))
      chronoLoop fuel (strtoull16End chronoPtr) deltas [' '] msecs
    else .error .assertion

/-- `chrono get`. A loop of more turns than there is room for digits does not end. -/
def chronoGet (correlationId : Str) (floor : Int) : Except Violation Str :=
  if Marked correlationId then do
    let chronoPtr := strtoull16End (correlationId.drop chronoMarker.length)
    let (deltas, msecs) ← chronoLoop (shortstrMax + 2) chronoPtr [] [] 0
    return if msecs < floor then [] else deltas
  else .ok []

/-! ## The block of a session -/

/-- `chrono_block` and `chrono_list` -/
structure Session where
  chronoBlock : Str
  chronoList : List Str
deriving DecidableEq

/-- `strcat` of a string and its zero into the block, which has `ICL_SHORTSTR_MAX` octets more
than the batch. -/
def catBlock (batch : Nat) (chronoBlock text : Str) : Except Violation Str :=
  if chronoBlock.length + text.length + 1 ≤ batch + shortstrMax then .ok (chronoBlock ++ text)
  else .error .write

/-- The deltas of one content behind those in the block. -/
def appendDeltas (batch : Nat) (chronoBlock deltas : Str) : Except Violation Str := do
  let chronoBlock ← if chronoBlock.isEmpty then .ok chronoBlock else
    catBlock batch chronoBlock ['\n']
  catBlock batch chronoBlock deltas

/-- `s_process_chrono` for a content of the correlation id: this id, and the session. -/
def processChrono (batch : Nat) (floor now : Int) (correlationId : Str) (self : Session) :
    Except Violation (Str × Session) := do
  let correlationId ← chronoAdd now correlationId
  let deltas ← chronoGet correlationId floor
  if deltas.isEmpty then return (correlationId, self)
  if batch < self.chronoBlock.length then
    let chronoBlock ← appendDeltas batch [] deltas
    return (correlationId, ⟨chronoBlock, self.chronoList ++ [self.chronoBlock]⟩)
  let chronoBlock ← appendDeltas batch self.chronoBlock deltas
  return (correlationId, { self with chronoBlock := chronoBlock })

end Chrono

/-! ## Numbers that are read back -/

theorem hexValue?_digitChar {n : Nat} (h : n < 16) : hexValue? n.digitChar = some n := by
  have hall : ∀ k : Fin 16, hexValue? (k : Nat).digitChar = some (k : Nat) := by decide
  exact hall ⟨n, h⟩

variable {c : Char}

theorem ne_of_hexValue? {d : Char} (hc : (hexValue? c).isSome) (hd : hexValue? d = none) :
    c ≠ d := by
  rintro rfl
  rw [hd] at hc
  cases hc

theorem not_blank_of_hexValue? (hc : (hexValue? c).isSome) :
    (Password.isSpace c || c == '\x0b') = false := by
  have h1 := ne_of_hexValue? hc (d := ' ') rfl
  have h2 := ne_of_hexValue? hc (d := '\t') rfl
  have h3 := ne_of_hexValue? hc (d := '\n') rfl
  have h4 := ne_of_hexValue? hc (d := '\r') rfl
  have h5 := ne_of_hexValue? hc (d := '\x0c') rfl
  have h6 := ne_of_hexValue? hc (d := '\x0b') rfl
  simp [Password.isSpace, h1, h2, h3, h4, h5, h6]

theorem hexPrefix_append {digits : Str} (h : ∀ c ∈ digits, (hexValue? c).isSome) (acc : Nat)
    (rest : Str) : hexPrefix acc (digits ++ rest) = hexPrefix (hexPrefix acc digits) rest := by
  induction digits generalizing acc with
  | nil => rfl
  | cons c digits ih =>
    rw [forall_mem_cons] at h
    obtain ⟨d, hd⟩ := Option.isSome_iff_exists.mp h.1
    simp only [cons_append, hexPrefix, hd]
    exact ih h.2 _

theorem hexValue?_of_mem_toDigits (n : Nat) : ∀ c ∈ Nat.toDigits 16 n, (hexValue? c).isSome := by
  induction n using Nat.strongRecOn with
  | ind n ih =>
    intro c hc
    rw [Nat.toDigits_eq_if (by decide)] at hc
    by_cases h : n < 16
    · rw [if_pos h, mem_singleton] at hc
      rw [hc, hexValue?_digitChar h]
      rfl
    · rw [if_neg h, mem_append, mem_singleton] at hc
      rcases hc with hc | rfl
      · exact ih (n / 16) (by omega) c hc
      · rw [hexValue?_digitChar (Nat.mod_lt n (by decide))]
        rfl

theorem hexPrefix_toDigits (n : Nat) : hexPrefix 0 (Nat.toDigits 16 n) = n := by
  induction n using Nat.strongRecOn with
  | ind n ih =>
    rw [Nat.toDigits_eq_if (by decide)]
    by_cases h : n < 16
    · rw [if_pos h]
      simp only [hexPrefix, hexValue?_digitChar h]
      omega
    · rw [if_neg h, hexPrefix_append (hexValue?_of_mem_toDigits _), ih (n / 16) (by omega)]
      simp only [hexPrefix, hexValue?_digitChar (Nat.mod_lt n (by decide))]
      omega

/-- A text that does not go on with a digit or the letter behind a zero. -/
def EndsDigits (rest : Str) : Prop := ∀ c ∈ rest.head?, c = ' '

theorem hexPrefix_of_endsDigits {rest : Str} (h : EndsDigits rest) (acc : Nat) :
    hexPrefix acc rest = acc := by
  cases rest with
  | nil => rfl
  | cons c rest =>
    rw [h c rfl]
    rfl

theorem dropWhile_digits {digits rest : Str} (h : ∀ c ∈ digits, (hexValue? c).isSome)
    (hrest : EndsDigits rest) :
    (digits ++ rest).dropWhile (fun c => (hexValue? c).isSome) = rest := by
  rw [dropWhile_append_of_pos h]
  cases rest with
  | nil => rfl
  | cons c rest =>
    rw [hrest c rfl]
    rfl

section

variable {digits rest : Str} {s : Str}

theorem ne_letter_of_digits (h : ∀ c ∈ digits, (hexValue? c).isSome) (hrest : EndsDigits rest)
    {d : Char} (heq : digits ++ rest = c :: s) (hd : hexValue? d = none) (hs : d ≠ ' ') :
    c ≠ d := by
  cases digits with
  | nil =>
    have hc : c = ' ' := by
      refine hrest c ?_
      rw [← nil_append rest, heq]
      rfl
    rw [hc]
    exact hs.symm
  | cons e digits =>
    obtain ⟨rfl, -⟩ := cons.inj heq
    exact ne_of_hexValue? (h _ mem_cons_self) hd

/-- The text that is left when the blanks before a number have been skipped. -/
def skipBlanks (s : Str) : Str := s.dropWhile fun c => Password.isSpace c || c == '\x0b'

theorem skipBlanks_digits (hne : digits ≠ []) (h : ∀ c ∈ digits, (hexValue? c).isSome) :
    skipBlanks (digits ++ rest) = digits ++ rest := by
  obtain ⟨c, digits, rfl⟩ := exists_cons_of_ne_nil hne
  have hc := not_blank_of_hexValue? (h c mem_cons_self)
  exact dropWhile_cons_of_neg (by rw [hc]; exact Bool.false_ne_true)

theorem strtoull16_digits (hs : skipBlanks s = digits ++ rest) (hne : digits ≠ [])
    (h : ∀ c ∈ digits, (hexValue? c).isSome) (hrest : EndsDigits rest)
    (hlt : hexPrefix 0 digits < 2 ^ 64) : strtoull16 s = hexPrefix 0 digits := by
  have hvalue : hexPrefix 0 (digits ++ rest) = hexPrefix 0 digits := by
    rw [hexPrefix_append h, hexPrefix_of_endsDigits hrest]
  obtain ⟨c, digits, rfl⟩ := exists_cons_of_ne_nil hne
  rw [forall_mem_cons] at h
  have hnext : ∀ {e d : Char} {s : Str}, digits ++ rest = e :: s → hexValue? d = none → d ≠ ' ' →
      e ≠ d := fun heq => ne_letter_of_digits h.2 hrest heq
  unfold skipBlanks at hs
  rw [strtoull16, hs, cons_append]
  simp only
  split
  · next heq => exact absurd (cons.inj heq).1 (ne_of_hexValue? h.1 rfl)
  · next heq => exact absurd (cons.inj heq).1 (ne_of_hexValue? h.1 rfl)
  · split
    · next heq => exact absurd rfl (hnext (cons.inj heq).2 rfl (by decide))
    · next heq => exact absurd rfl (hnext (cons.inj heq).2 rfl (by decide))
    · rw [← cons_append, hvalue, if_neg (by omega)]

theorem strtoull16End_digits (hs : skipBlanks s = digits ++ rest) (hne : digits ≠ [])
    (h : ∀ c ∈ digits, (hexValue? c).isSome) (hrest : EndsDigits rest) :
    strtoull16End s = rest := by
  obtain ⟨c, digits, rfl⟩ := exists_cons_of_ne_nil hne
  rw [forall_mem_cons] at h
  have hnext : ∀ {e d : Char} {s : Str}, digits ++ rest = e :: s → hexValue? d = none → d ≠ ' ' →
      e ≠ d := fun heq => ne_letter_of_digits h.2 hrest heq
  have hend : hexEnd (c :: (digits ++ rest)) = some rest := by
    unfold hexEnd
    split
    · next heq => exact absurd rfl (hnext (cons.inj heq).2 rfl (by decide))
    · next heq => exact absurd rfl (hnext (cons.inj heq).2 rfl (by decide))
    · next heq =>
      obtain ⟨rfl, rfl⟩ := cons.inj heq
      rw [if_pos h.1, dropWhile_digits h.2 hrest]
    · next heq => cases heq
  unfold skipBlanks at hs
  rw [strtoull16End, hs, cons_append]
  split
  · next heq => exact absurd (cons.inj heq).1 (ne_of_hexValue? h.1 rfl)
  · next heq => exact absurd (cons.inj heq).1 (ne_of_hexValue? h.1 rfl)
  · rw [hend]
    rfl

theorem strtoull16_toDigits {n : Nat} (hs : skipBlanks s = Nat.toDigits 16 n ++ rest)
    (hn : n < 2 ^ 64) (hrest : EndsDigits rest) : strtoull16 s = n ∧ strtoull16End s = rest := by
  have hne : Nat.toDigits 16 n ≠ [] := Nat.toDigits_ne_nil
  have hhex := hexValue?_of_mem_toDigits n
  have hvalue := hexPrefix_toDigits n
  constructor
  · rw [strtoull16_digits hs hne hhex hrest (by rw [hvalue]; exact hn), hvalue]
  · exact strtoull16End_digits hs hne hhex hrest

end

namespace Chrono

/-! ## Adding deltas -/

variable {text correlationId : Str}

theorem vsnprintf_of_lt {size : Nat} (h : text.length < size) :
    vsnprintf size text = text := take_of_length_le (by omega)

theorem shortstrFmtAt_eq (string : Str) (h : text.length < shortstrMax) :
    shortstrFmtAt string text = if (string ++ text).length ≤ shortstrMax then .ok (string ++ text)
      else .error .write := by
  rw [shortstrFmtAt, vsnprintf_of_lt h, length_append]

theorem length_deltaText_le (msecs : Int) : (deltaText msecs).length ≤ 9 := by
  have hlt : (msecs % 2 ^ 32).toNat < 16 ^ 8 := by omega
  have hdigits := (Nat.length_toDigits_le_iff (b := 16) (by decide) (by decide)).mpr hlt
  rw [deltaText, length_cons]
  omega

/-- The text with one more delta, whether there is room for it or not. -/
def advance (correlationId : Str) (now : Int) : Str :=
  if Marked correlationId then
    correlationId ++ deltaText (msecsAt (startTime correlationId) now)
  else correlationId

/-- `chrono add` at each of the times. -/
def chronoAdds : (times : List Int) → (correlationId : Str) → Except Violation Str
  | [], correlationId => .ok correlationId
  | now :: times, correlationId => do
    let correlationId ← chronoAdd now correlationId
    chronoAdds times correlationId

theorem advance_of_not_marked (h : ¬ Marked correlationId) (now : Int) :
    advance correlationId now = correlationId := if_neg h

theorem length_le_advance (correlationId : Str) (now : Int) :
    correlationId.length ≤ (advance correlationId now).length := by
  by_cases h : Marked correlationId
  · rw [advance, if_pos h, length_append]
    exact Nat.le_add_right _ _
  · rw [advance_of_not_marked h]

theorem length_le_foldl_advance (times : List Int) (correlationId : Str) :
    correlationId.length ≤ (times.foldl advance correlationId).length := by
  induction times generalizing correlationId with
  | nil => exact Nat.le_refl _
  | cons now times ih => exact Nat.le_trans (length_le_advance correlationId now) (ih _)

theorem chronoAdd_eq_ite (h : correlationId.length ≤ shortstrMax) (now : Int) :
    chronoAdd now correlationId =
    if (advance correlationId now).length ≤ shortstrMax then .ok (advance correlationId now)
    else .error .write := by
  by_cases hm : Marked correlationId
  · have hlt := length_deltaText_le (msecsAt (startTime correlationId) now)
    rw [chronoAdd, if_pos hm, shortstrFmtAt_eq _ (Nat.lt_of_le_of_lt hlt (by decide)), advance,
      if_pos hm]
  · rw [chronoAdd, if_neg hm, advance_of_not_marked hm, if_pos h]

theorem chronoAdd_eq {now : Int} (h : (advance correlationId now).length ≤ shortstrMax) :
    chronoAdd now correlationId = .ok (advance correlationId now) := by
  have hle := Nat.le_trans (length_le_advance correlationId now) h
  rw [chronoAdd_eq_ite hle, if_pos h]

theorem chronoAdds_eq {times : List Int}
    (h : (times.foldl advance correlationId).length ≤ shortstrMax) :
    chronoAdds times correlationId = .ok (times.foldl advance correlationId) := by
  induction times generalizing correlationId with
  | nil => rfl
  | cons now times ih =>
    have hfirst := length_le_foldl_advance times (advance correlationId now)
    rw [chronoAdds, chronoAdd_eq (Nat.le_trans hfirst h)]
    exact ih h

theorem foldl_advance_of_not_marked (h : ¬ Marked correlationId) (times : List Int) :
    times.foldl advance correlationId = correlationId := by
  induction times with
  | nil => rfl
  | cons now times ih => rw [foldl_cons, advance_of_not_marked h, ih]

/-! ## Reading deltas -/

/-- The numbers that `strtoul` takes from a text one by one up to its end. -/
inductive Reads : (text : Str) → (values : List Int) → Prop
  | nil : Reads [] []
  | cons {text : Str} {values : List Int} (hne : text ≠ [])
      (h : Reads (strtoull16End text) values) : Reads text (readMsecs text :: values)

def increases : (previous : Int) → (values : List Int) → List Nat
  | _, [] => []
  | previous, msecs :: values => increase previous msecs :: increases msecs values

/-- Numbers with a blank between each two. -/
def delimited : (delim : Str) → (numbers : List Nat) → Str
  | _, [] => []
  | delim, n :: numbers => delim ++ Nat.toDigits 10 n ++ delimited [' '] numbers

/-- The text of `deltas`. -/
def deltasText (values : List Int) : Str := delimited [] (increases 0 values)

theorem length_increases (previous : Int) (values : List Int) :
    (increases previous values).length = values.length := by
  induction values generalizing previous with
  | nil => rfl
  | cons msecs values ih => rw [increases, length_cons, ih, length_cons]

theorem length_increase_le (previous msecs : Int) :
    (Nat.toDigits 10 (increase previous msecs)).length ≤ 10 := by
  rw [Nat.length_toDigits_le_iff (by decide) (by decide), increase]
  have hlt := Int.bmod_lt (x := msecs - previous) (m := 2 ^ 32) (by decide)
  omega

theorem length_le_delimited (delim : Str) (numbers : List Nat) :
    numbers.length ≤ (delimited delim numbers).length := by
  induction numbers generalizing delim with
  | nil => exact Nat.le_refl _
  | cons n numbers ih =>
    have := ih [' ']
    have := Nat.length_toDigits_pos (b := 10) (n := n)
    rw [delimited, length_append, length_append, length_cons]
    omega

theorem chronoLoop_succ (fuel : Nat) {chronoPtr : Str} (h : chronoPtr ≠ []) (deltas delim : Str)
    (previous : Int) :
    chronoLoop (fuel + 1) chronoPtr deltas delim previous =
      if deltas.length < shortstrMax then do
        let deltas ← shortstrFmtAt deltas
          (delim ++ Nat.toDigits 10 (increase previous (readMsecs chronoPtr)))
        chronoLoop fuel (strtoull16End chronoPtr) deltas [' '] (readMsecs chronoPtr)
      else .error .assertion := by
  cases chronoPtr with
  | nil => exact absurd rfl h
  | cons c s => rfl

variable {values : List Int}

theorem chronoLoop_of_reads {text : Str} (h : Reads text values)
    {fuel : Nat} {deltas delim : Str} {previous : Int} (hfuel : values.length < fuel)
    (hdelim : delim.length ≤ 1)
    (hroom : (deltas ++ delimited delim (increases previous values)).length ≤ shortstrMax) :
    chronoLoop fuel text deltas delim previous =
      .ok (deltas ++ delimited delim (increases previous values), values.getLastD previous) := by
  induction h generalizing fuel deltas delim previous with
  | nil =>
    obtain ⟨fuel, rfl⟩ := Nat.exists_eq_succ_of_ne_zero (Nat.ne_of_gt hfuel)
    rw [increases, delimited, append_nil]
    rfl
  | @cons text values hne h ih =>
    obtain ⟨fuel, rfl⟩ := Nat.exists_eq_succ_of_ne_zero (Nat.ne_of_gt (Nat.zero_lt_of_lt hfuel))
    have hdigits := length_increase_le previous (readMsecs text)
    have hpos := length_pos_iff.mpr
      (Nat.toDigits_ne_nil (b := 10) (n := increase previous (readMsecs text)))
    rw [increases, delimited, ← append_assoc] at hroom ⊢
    have hfirst : (deltas ++ (delim ++ Nat.toDigits 10 (increase previous (readMsecs text)))).length
        ≤ shortstrMax := by
      rw [length_append] at hroom
      omega
    have hshort : (delim ++ Nat.toDigits 10 (increase previous (readMsecs text))).length <
        shortstrMax := by
      rw [length_append]
      have : shortstrMax = 255 := rfl
      omega
    have hbefore : deltas.length < shortstrMax := by
      rw [length_append, length_append] at hfirst
      omega
    rw [Nat.succ_eq_add_one, chronoLoop_succ fuel hne, if_pos hbefore,
      shortstrFmtAt_eq _ hshort, if_pos hfirst]
    have hnext : values.length < fuel := Nat.lt_of_succ_lt_succ hfuel
    have hblank : ([' '] : Str).length ≤ 1 := Nat.le_refl 1
    simp only [bind, Except.bind]
    rw [ih hnext hblank hroom, getLastD_cons]

theorem chronoGet_of_reads (hm : Marked correlationId)
    (h : Reads (strtoull16End (correlationId.drop chronoMarker.length)) values)
    (hroom : (deltasText values).length ≤ shortstrMax) (floor : Int) :
    chronoGet correlationId floor =
      .ok (if values.getLastD 0 < floor then [] else deltasText values) := by
  have hnumbers := length_le_delimited [] (increases 0 values)
  rw [length_increases] at hnumbers
  have hfuel : values.length < shortstrMax + 2 := by
    unfold deltasText at hroom
    omega
  have hloop := @chronoLoop_of_reads _ _ h _ [] [] 0 hfuel (Nat.zero_le 1) hroom
  rw [chronoGet, if_pos hm]
  simp only [bind, Except.bind]
  rw [hloop]
  rfl

theorem chronoLoop_ends {fuel : Nat} {chronoPtr deltas delim : Str} {previous : Int}
    (hfuel : shortstrMax + 2 ≤ deltas.length + fuel) (hroom : deltas.length ≤ shortstrMax) :
    chronoLoop fuel chronoPtr deltas delim previous ≠ .error .unfinished := by
  induction fuel generalizing chronoPtr deltas delim previous with
  | zero => omega
  | succ fuel ih =>
    by_cases hne : chronoPtr = []
    · rw [hne, chronoLoop]
      nofun
    · rw [chronoLoop_succ fuel hne]
      by_cases hlt : deltas.length < shortstrMax
      · rw [if_pos hlt]
        generalize htext : delim ++ Nat.toDigits 10 (increase previous (readMsecs chronoPtr)) = text
        have hpos : 0 < (vsnprintf shortstrMax text).length := by
          have hdigit := length_pos_iff.mpr
            (Nat.toDigits_ne_nil (b := 10) (n := increase previous (readMsecs chronoPtr)))
          rw [← htext, vsnprintf, length_take, length_append]
          have : shortstrMax = 255 := rfl
          omega
        unfold shortstrFmtAt
        simp only
        split
        · next hfits =>
          refine ih ?_ ?_
          · rw [length_append]
            omega
          · rwa [length_append]
        · nofun
      · rw [if_neg hlt]
        nofun

theorem chronoGet_ends (correlationId : Str) (floor : Int) :
    chronoGet correlationId floor ≠ .error .unfinished := by
  rw [chronoGet]
  by_cases hm : Marked correlationId
  · rw [if_pos hm]
    have h := @chronoLoop_ends (shortstrMax + 2)
      (strtoull16End (correlationId.drop chronoMarker.length)) [] [] 0 (Nat.le_add_left _ _)
      (Nat.zero_le _)
    simp only [bind, Except.bind]
    split
    · next v heq =>
      intro hv
      cases hv
      exact h heq
    · nofun
  · rw [if_neg hm]
    nofun

/-! ## The text of a chronometer -/

/-- A value as `chrono get` takes it from the text. -/
def counted (msecs : Int) : Int := if 0xffff ≤ msecs then 0 else msecs

theorem msecsAt_bounds (start now : Int) :
    -2 ^ 31 ≤ msecsAt start now ∧ msecsAt start now < 2 ^ 31 := by
  have hle := Int.le_bmod (x := ((now - start).bmod (2 ^ 64)).tdiv 1000) (m := 2 ^ 32) (by decide)
  unfold msecsAt
  simp only
  split <;> omega

theorem bmod_toNat_emod (n : Int) (k : Nat) :
    (((n % 2 ^ k).toNat : Nat) : Int).bmod (2 ^ k) = n.bmod (2 ^ k) := by
  have hcast : (2 : Int) ^ k = ((2 ^ k : Nat) : Int) := by push_cast; rfl
  have hpos : (0 : Int) < 2 ^ k := by positivity
  rw [Int.toNat_of_nonneg (Int.emod_nonneg n (Int.ne_of_gt hpos)), hcast, Int.emod_bmod]

theorem read_deltaText {msecs : Int} (h : -2 ^ 31 ≤ msecs ∧ msecs < 2 ^ 31) {rest : Str}
    (hrest : EndsDigits rest) : readMsecs (deltaText msecs ++ rest) = counted msecs ∧
      strtoull16End (deltaText msecs ++ rest) = rest := by
  have hskip : skipBlanks (deltaText msecs ++ rest) =
      Nat.toDigits 16 (msecs % 2 ^ 32).toNat ++ rest :=
    skipBlanks_digits Nat.toDigits_ne_nil (hexValue?_of_mem_toDigits _)
  obtain ⟨hvalue, hend⟩ := strtoull16_toDigits hskip (by omega) hrest
  have hback : (((msecs % 2 ^ 32).toNat : Int)).bmod (2 ^ 32) = msecs := by
    rw [bmod_toNat_emod msecs 32]
    exact Int.bmod_eq_of_le (by norm_num; omega) (by norm_num; omega)
  refine ⟨?_, hend⟩
  unfold readMsecs
  rw [hvalue, hback]
  rfl

def deltaTexts (values : List Int) : Str := values.flatMap deltaText

theorem endsDigits_deltaTexts (values : List Int) : EndsDigits (deltaTexts values) := by
  cases values with
  | nil => nofun
  | cons msecs values =>
    intro c hc
    exact (Option.some.inj hc).symm

theorem reads_deltaTexts (h : ∀ v ∈ values, -2 ^ 31 ≤ v ∧ v < 2 ^ 31) :
    Reads (deltaTexts values) (values.map counted) := by
  induction values with
  | nil => exact .nil
  | cons msecs values ih =>
    rw [forall_mem_cons] at h
    obtain ⟨hread, hend⟩ := read_deltaText h.1 (endsDigits_deltaTexts values)
    have htext : deltaTexts (msecs :: values) = deltaText msecs ++ deltaTexts values := flatMap_cons
    have hne : deltaTexts (msecs :: values) ≠ [] := cons_ne_nil _ _
    have hr := Reads.cons hne (by rw [htext, hend]; exact ih h.2)
    rwa [htext, hread, ← htext] at hr

/-- `chrono set` with some deltas behind it. -/
def chronoText (start : Int) (values : List Int) : Str :=
  chronoMarker ++ (Nat.toDigits 16 (start % 2 ^ 64).toNat ++ deltaTexts values)

theorem chronoSet_eq (now : Int) : chronoSet now = chronoText now [] := by
  have hlt : (now % 2 ^ 64).toNat < 16 ^ 16 := by omega
  have hdigits := (Nat.length_toDigits_le_iff (b := 16) (by decide) (by decide)).mpr hlt
  have hmarker : chronoMarker.length = 7 := by decide
  have hmax : shortstrMax = 255 := rfl
  rw [chronoSet, vsnprintf_of_lt (by rw [length_append]; omega), chronoText, deltaTexts,
    flatMap_nil, append_nil]

section Text

variable (start : Int) (values : List Int)

theorem marked_chronoText : Marked (chronoText start values) := prefix_append _ _

theorem drop_chronoText : (chronoText start values).drop chronoMarker.length =
    Nat.toDigits 16 (start % 2 ^ 64).toNat ++ deltaTexts values := drop_left

theorem read_start :
    strtoull16 ((chronoText start values).drop chronoMarker.length) = (start % 2 ^ 64).toNat ∧
      strtoull16End ((chronoText start values).drop chronoMarker.length) = deltaTexts values := by
  rw [drop_chronoText]
  refine strtoull16_toDigits ?_ (by omega) (endsDigits_deltaTexts values)
  exact skipBlanks_digits Nat.toDigits_ne_nil (hexValue?_of_mem_toDigits _)

theorem startTime_chronoText : startTime (chronoText start values) = start.bmod (2 ^ 64) := by
  unfold startTime
  rw [(read_start start values).1]
  exact bmod_toNat_emod start 64

theorem advance_chronoText (now : Int) : advance (chronoText start values) now =
    chronoText start (values ++ [msecsAt (start.bmod (2 ^ 64)) now]) := by
  rw [advance, if_pos (marked_chronoText start values), startTime_chronoText]
  simp only [chronoText, deltaTexts, flatMap_append, flatMap_singleton, append_assoc]

theorem foldl_advance_chronoText (times : List Int) :
    times.foldl advance (chronoText start values) =
      chronoText start (values ++ times.map (msecsAt (start.bmod (2 ^ 64)))) := by
  induction times generalizing values with
  | nil => rw [map_nil, append_nil, foldl_nil]
  | cons now times ih =>
    rw [foldl_cons, advance_chronoText, ih, map_cons, append_assoc]
    rfl

end Text

theorem chronoGet_chronoText {start : Int}
    (h : ∀ v ∈ values, -2 ^ 31 ≤ v ∧ v < 2 ^ 31)
    (hroom : (deltasText (values.map counted)).length ≤ shortstrMax) (floor : Int) :
    chronoGet (chronoText start values) floor =
      .ok (if (values.map counted).getLastD 0 < floor then []
        else deltasText (values.map counted)) := by
  refine chronoGet_of_reads (marked_chronoText start values) ?_ hroom floor
  rw [(read_start start values).2]
  exact reads_deltaTexts h

/-- The difference between each value and the one before it. -/
def differences : (previous : Int) → (values : List Int) → List Int
  | _, [] => []
  | previous, msecs :: values => (msecs - previous) :: differences msecs values

theorem increases_eq_differences {previous : Int} (hpos : 0 ≤ previous)
    (hle : (previous :: values).Pairwise (· ≤ ·)) (hlt : ∀ v ∈ values, v < 0xffff) :
    (increases previous (values.map counted)).map Int.ofNat = differences previous values := by
  induction values generalizing previous with
  | nil => rfl
  | cons msecs values ih =>
    rw [forall_mem_cons] at hlt
    obtain ⟨hfirst, hrest⟩ := pairwise_cons.mp hle
    have hmsecs := hfirst msecs mem_cons_self
    have hcounted : counted msecs = msecs := if_neg (Int.not_le.mpr hlt.1)
    have hdiff : (msecs - previous).bmod (2 ^ 32) = msecs - previous :=
      Int.bmod_eq_of_le (by norm_num; omega) (by norm_num; omega)
    have hincrease : Int.ofNat (increase previous msecs) = msecs - previous := by
      unfold increase
      rw [hdiff]
      exact Int.toNat_of_nonneg (by omega)
    rw [map_cons, increases, hcounted, map_cons, hincrease,
      ih (Int.le_trans hpos hmsecs) hrest hlt.2, differences]

/-! ## The block -/

section Block

variable {batch : Nat} {chronoBlock deltas : Str}

theorem catBlock_eq (h : chronoBlock.length + text.length + 1 ≤ batch + shortstrMax) :
    catBlock batch chronoBlock text = .ok (chronoBlock ++ text) := if_pos h

theorem appendDeltas_inside (hblock : chronoBlock.length ≤ batch) (hdeltas : deltas.length ≤ 253) :
    ∃ chronoBlock', appendDeltas batch chronoBlock deltas = .ok chronoBlock' ∧
      chronoBlock'.length < batch + shortstrMax := by
  have hmax : shortstrMax = 255 := rfl
  cases hempty : chronoBlock with
  | nil =>
    refine ⟨deltas, ?_, by omega⟩
    exact catBlock_eq (by rw [length_nil]; omega)
  | cons c tail =>
    rw [hempty] at hblock
    have hfirst : catBlock batch (c :: tail) ['\n'] = .ok (c :: tail ++ ['\n']) :=
      catBlock_eq (by rw [length_singleton]; omega)
    have hlen : (c :: tail ++ ['\n']).length = (c :: tail).length + 1 := length_append
    refine ⟨c :: tail ++ ['\n'] ++ deltas, ?_, ?_⟩
    · show (do
        let chronoBlock ← catBlock batch (c :: tail) ['\n']
        catBlock batch chronoBlock deltas) = _
      rw [hfirst]
      exact catBlock_eq (by rw [hlen]; omega)
    · rw [length_append, hlen]
      omega

end Block

/-- The deltas of a content that arrives at this time. -/
def Measured (floor now : Int) (correlationId deltas : Str) : Prop :=
  ∃ correlationId', chronoAdd now correlationId = .ok correlationId' ∧
    chronoGet correlationId' floor = .ok deltas

theorem processChrono_inside {batch : Nat} {floor now : Int} {deltas : Str} {self : Session}
    (hm : Measured floor now correlationId deltas) (hdeltas : deltas.length ≤ 253)
    (hself : self.chronoBlock.length < batch + shortstrMax) :
    ∃ correlationId' self', processChrono batch floor now correlationId self =
        .ok (correlationId', self') ∧ self'.chronoBlock.length < batch + shortstrMax := by
  obtain ⟨correlationId', hadd, hget⟩ := hm
  unfold processChrono
  rw [hadd]
  simp only [bind, Except.bind]
  rw [hget]
  by_cases hempty : deltas.isEmpty
  · simp only [if_pos hempty]
    exact ⟨correlationId', self, rfl, hself⟩
  · simp only [if_neg hempty]
    by_cases hfull : batch < self.chronoBlock.length
    · obtain ⟨chronoBlock, happend, hlt⟩ :=
        @appendDeltas_inside batch [] deltas (Nat.zero_le batch) hdeltas
      rw [if_pos hfull, happend]
      exact ⟨correlationId', _, rfl, hlt⟩
    · obtain ⟨chronoBlock, happend, hlt⟩ := appendDeltas_inside (Nat.le_of_not_lt hfull) hdeltas
      rw [if_neg hfull, happend]
      exact ⟨correlationId', _, rfl, hlt⟩

/-- `s_process_chrono` for contents one after another, each with the time of its arrival. -/
def processAll (batch : Nat) (floor : Int) :
    (contents : List (Int × Str)) → Session → Except Violation Session
  | [], self => .ok self
  | (now, correlationId) :: contents, self => do
    let (_, self) ← processChrono batch floor now correlationId self
    processAll batch floor contents self

theorem processAll_inside {batch : Nat} {floor : Int} {contents : List (Int × Str)}
    (h : ∀ content ∈ contents, ∃ deltas, Measured floor content.1 content.2 deltas ∧
      deltas.length ≤ 253) {self : Session}
    (hself : self.chronoBlock.length < batch + shortstrMax) :
    ∃ self', processAll batch floor contents self = .ok self' ∧
      self'.chronoBlock.length < batch + shortstrMax := by
  induction contents generalizing self with
  | nil => exact ⟨self, rfl, hself⟩
  | cons content contents ih =>
    rw [forall_mem_cons] at h
    obtain ⟨deltas, hm, hdeltas⟩ := h.1
    obtain ⟨correlationId, self1, hfirst, hself1⟩ := processChrono_inside hm hdeltas hself
    obtain ⟨self', hrest, hself'⟩ := ih h.2 hself1
    refine ⟨self', ?_, hself'⟩
    rw [processAll, hfirst]
    exact hrest

/-- The session of a client before its first content. -/
def Session.new : Session := ⟨[], []⟩

/--
As long as the text fits, a correlation id holds all deltas that are added to it. Its numbers
are read back to the end when they and their increases fit. The block has room for deltas of up
to 253 octets, and a chronometer that is set gives one number for each time that is added.
-/
theorem chronometer_measures : (∀ (times : List Int) (correlationId : Str),
      ((times.foldl advance correlationId).length ≤ shortstrMax →
        chronoAdds times correlationId = .ok (times.foldl advance correlationId)) ∧
      (¬ Marked correlationId → times.foldl advance correlationId = correlationId)) ∧
    (∀ (correlationId : Str) (floor : Int), chronoGet correlationId floor ≠ .error .unfinished ∧
      (¬ Marked correlationId → chronoGet correlationId floor = .ok []) ∧
      ∀ values, Marked correlationId →
        Reads (strtoull16End (correlationId.drop chronoMarker.length)) values →
        (deltasText values).length ≤ shortstrMax →
        chronoGet correlationId floor =
          .ok (if values.getLastD 0 < floor then [] else deltasText values)) ∧
    (∀ (batch : Nat) (floor : Int) (contents : List (Int × Str)),
      (∀ content ∈ contents, ∃ deltas, Measured floor content.1 content.2 deltas ∧
        deltas.length ≤ 253) →
      ∃ self, processAll batch floor contents Session.new = .ok self ∧
        self.chronoBlock.length < batch + shortstrMax) ∧
    ∀ (start : Int) (times : List Int),
      let recorded := times.map (msecsAt (start.bmod (2 ^ 64)))
      let values := recorded.map counted
      (times.foldl advance (chronoSet start)).length ≤ shortstrMax →
      (deltasText values).length ≤ shortstrMax →
      ∃ correlationId, chronoAdds times (chronoSet start) = .ok correlationId ∧
        chronoGet correlationId 0 =
          .ok (if values.getLastD 0 < 0 then [] else delimited [] (increases 0 values)) ∧
        (increases 0 values).length = times.length ∧
        ((0 :: recorded).Pairwise (· ≤ ·) → (∀ v ∈ recorded, v < 0xffff) →
          (increases 0 values).map Int.ofNat = differences 0 recorded) := by
  refine ⟨fun times correlationId => ⟨chronoAdds_eq, fun h => foldl_advance_of_not_marked h times⟩,
    fun correlationId floor => ⟨chronoGet_ends correlationId floor, fun h => if_neg h,
      fun values hm hr hroom => chronoGet_of_reads hm hr hroom floor⟩,
    fun batch floor contents h => processAll_inside h ?_, ?_⟩
  · exact Nat.lt_of_lt_of_le (by decide) (Nat.le_add_left shortstrMax batch)
  · intro start times recorded values hfits hroom
    have htext := foldl_advance_chronoText start [] times
    rw [nil_append, ← chronoSet_eq] at htext
    refine ⟨_, chronoAdds_eq hfits, ?_, ?_, increases_eq_differences (Int.le_refl 0)⟩
    · rw [htext]
      refine chronoGet_chronoText ?_ hroom 0
      rw [forall_mem_map]
      exact fun now _ => msecsAt_bounds _ now
    · rw [length_increases, length_map, length_map]

/-- A correlation id of 255 octets that begins with the marker. -/
def fullId : Str := chronoMarker ++ replicate 248 '0'

/-- Numbers without blanks, of which each second one is zero: ten and nothing, again and again. -/
def crowdedId : Str :=
  chronoMarker ++ '0' :: ((replicate 50 "+a+0".toList).flatten ++ "+a".toList)

/--
A delta is written past a full correlation id, text that is no number fills the deltas until
the assertion fails, deltas of 254 octets go past the end of the block, and of 70 seconds
nothing is returned.
-/
theorem chronometer_overflows :
    fullId.length = shortstrMax ∧ chronoAdds [0] fullId = .error .write ∧
      chronoGet (chronoMarker ++ ['z']) 0 = .error .assertion ∧
      processAll 1 0 [(0, chronoMarker ++ ['0']), (0, crowdedId)] Session.new = .error .write ∧
      (do
        let correlationId ← chronoAdds [70000000] (chronoSet 0)
        chronoGet correlationId 0) = .ok ['0'] ∧
      [70000000].map (msecsAt 0) = [65535] ∧ differences 0 [65535] = [65535] := by
  decide +kernel

/-- Three seconds after the first one of a chronometer. -/
theorem chronometer_measures_sample :
    chronoAdds [1000000, 3000000] (chronoSet 0) = .ok "Chrono-0 3e8 bb8".toList ∧
      chronoGet "Chrono-0 3e8 bb8".toList 0 = .ok "1000 2000".toList := by
  obtain ⟨correlationId, hadds, hget, -⟩ :=
    chronometer_measures.2.2.2 0 [1000000, 3000000] (by decide +kernel) (by decide +kernel)
  have hid : chronoAdds [1000000, 3000000] (chronoSet 0) = .ok "Chrono-0 3e8 bb8".toList :=
    by decide +kernel
  rw [hid] at hadds
  cases hadds
  exact ⟨hid, by rw [hget]; decide +kernel⟩

end Chrono

/-! ## The chronometer of a content -/

namespace ContentObject

open Chrono

def correlationId (self : ContentObject basicClass) : ShortText :=
  match self.properties with
  | (_, _, _, _, _, correlationId, _) => correlationId

def setCorrelationId (self : ContentObject basicClass) (correlationId : ShortText) :
    ContentObject basicClass :=
  match self.properties with
  | (contentType, contentEncoding, headers, deliveryMode, priority, _, properties) =>
    { self with properties := (contentType, contentEncoding, headers, deliveryMode, priority,
        correlationId, properties) }

def chronoText (self : ContentObject basicClass) : Str := cstring self.correlationId.octets

/-- The content once `chrono add` has been called, where there is room for the delta. -/
def stamped (now : Int) (self : ContentObject basicClass) : ContentObject basicClass :=
  self.setCorrelationId (.ofOctets (stringOctets (advance self.chronoText now)))

/-- `chrono add` on a content. -/
def chronoAdd (now : Int) (self : ContentObject basicClass) :
    Except Violation (ContentObject basicClass) := do
  let text ← Chrono.chronoAdd now self.chronoText
  return self.setCorrelationId (.ofOctets (stringOctets text))

/-- There is room for the delta of a call at this time. -/
def DeltaFits (now : Int) (self : ContentObject basicClass) : Prop :=
  (advance self.chronoText now).length ≤ shortstrMax

instance (now : Int) (self : ContentObject basicClass) : Decidable (self.DeltaFits now) :=
  inferInstanceAs (Decidable (_ ≤ _))

variable (self : ContentObject basicClass) (now : Int)

theorem length_chronoText_le : self.chronoText.length ≤ shortstrMax := by
  rw [chronoText, length_cstring]
  exact Nat.le_trans (List.takeWhile_prefix _).length_le self.correlationId.bound

theorem octets_chronoText : stringOctets self.chronoText = self.correlationId.octets := by
  rw [chronoText, stringOctets_cstring]
  exact takeWhile_eq_self_of_notMem self.correlationId.noNul

theorem chronoAdd_of_fits {now : Int} (h : self.DeltaFits now) :
    self.chronoAdd now = .ok (self.stamped now) := by
  rw [chronoAdd, Chrono.chronoAdd_eq h]
  rfl

theorem chronoAdd_of_not_fits {now : Int} (h : ¬ self.DeltaFits now) :
    self.chronoAdd now = .error .write := by
  rw [chronoAdd, Chrono.chronoAdd_eq_ite self.length_chronoText_le]
  unfold DeltaFits at h
  rw [if_neg h]
  rfl

theorem stamped_of_not_marked (h : ¬ Marked self.chronoText) : self.stamped now = self := by
  have hid : ShortText.ofOctets (stringOctets (advance self.chronoText now)) =
      self.correlationId := by
    rw [advance_of_not_marked h, octets_chronoText, ofOctets_octets]
  unfold stamped
  rw [hid]
  rfl

theorem deltaFits_of_not_marked (h : ¬ Marked self.chronoText) : self.DeltaFits now := by
  rw [DeltaFits, advance_of_not_marked h]
  exact self.length_chronoText_le

theorem chronoAdd_of_not_marked (h : ¬ Marked self.chronoText) : self.chronoAdd now = .ok self := by
  rw [self.chronoAdd_of_fits (self.deltaFits_of_not_marked now h), self.stamped_of_not_marked now h]

end ContentObject

end OpenAmq
