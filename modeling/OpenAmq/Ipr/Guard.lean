import Mathlib.Data.List.TakeWhile
import OpenAmq.Ipr.Time

/-!
# Guarded passwords

An entry of a password table, with the data that guards it: how often and until when it may be
used, and how often it has been. The data go through a text when the server is started again.

* `Password.hit`, `miss`, `guardSet`, `update` — the methods of `ipr_password`
* `Password.guardOptions`, `guardGet` — what `guard put` writes after the key, and `guard get`
* `restart_eq_toMinutes` — and what comes back of them
-/

namespace OpenAmq

open List

/-! ## Entries -/

/-- `IPR_PASSWD_BASIC` and `IPR_PASSWD_DIGEST` -/
inductive PasswordType where
  | basic | digest
deriving DecidableEq

/-- The context of `ipr_password` -/
structure Password where
  hash : Str
  type : PasswordType
  hits : UInt64
  hitQuota : UInt64
  misses : UInt64
  missQuota : UInt64
  expiry : Int
  hitTime : Int
  missTime : Int
  hitFrom : Shortstr
  missFrom : Shortstr
  expired : Bool
deriving DecidableEq

/-- `icl_shortstr_cpy` from an address that may be null -/
def addressText (address : Option Str) : Shortstr := .cpy (address.getD [])

/-- What `apr_time_now () + ttl * 1000 * 1000` is in 64 bits. -/
def expiryTime (now : Int) (ttl : UInt64) : Int := (now + ttl.toNat * 1000000).bmod (2 ^ 64)

namespace Password

/-- `ipr_password_new`, where a key with a colon is one of a digest password -/
def new (key hash : Str) : Password where
  hash
  type := if ':' ∈ key then .digest else .basic
  hits := 0
  hitQuota := 0
  misses := 0
  missQuota := 0
  expiry := 0
  hitTime := 0
  missTime := 0
  hitFrom := .empty
  missFrom := .empty
  expired := false

def update (self : Password) (hash : Str) : Password :=
  { new [] hash with type := self.type }

/-- `guard set` -/
def guardSet (self : Password) (now : Int) (hitQuota missQuota timeToLive : UInt64) : Password :=
  if self.expired then self
  else { self with
    hitQuota := if self.hitQuota = 0 then hitQuota else self.hitQuota
    missQuota := if self.missQuota = 0 then missQuota else self.missQuota
    expiry :=
      if self.expiry = 0 ∧ timeToLive ≠ 0 then expiryTime now timeToLive else self.expiry }

/-- The condition under which `hit` and `miss` expire an entry, with the quota as it was before. -/
def runsOut (self : Password) (quota : UInt64) (now : Int) : Bool :=
  quota = 1 ∨ self.expiry ≠ 0 ∧ self.expiry < now

def hit (self : Password) (now : Int) (address : Option Str) : Password :=
  { self with
    hitFrom := addressText address
    hitTime := now
    hits := self.hits + 1
    hitQuota := if self.hitQuota = 0 then 0 else self.hitQuota - 1
    expired := self.expired || self.runsOut self.hitQuota now }

def miss (self : Password) (now : Int) (address : Option Str) : Password :=
  { self with
    missFrom := addressText address
    missTime := now
    misses := self.misses + 1
    missQuota := if self.missQuota = 0 then 0 else self.missQuota - 1
    expired := self.expired || self.runsOut self.missQuota now }

/-! ## Their texts -/

/-- `%lu` -/
def formatSize (n : UInt64) : Str := Nat.toDigits 10 n.toNat

/-- The pairs that `guard put` writes, each only if it says something. -/
def guardPairs (self : Password) : List (Str × Str) :=
  (if self.expiry ≠ 0 then [("expiry".toList, iso8601 self.expiry)] else []) ++
  (if self.expired then [("expired".toList, "1".toList)] else []) ++
  (if self.hits ≠ 0 then [("hits".toList, formatSize self.hits)] else []) ++
  (if self.hitQuota ≠ 0 then [("hit-quota".toList, formatSize self.hitQuota)] else []) ++
  (if self.hitFrom ≠ .empty then [("hit-from".toList, self.hitFrom.chars)] else []) ++
  (if self.hitTime ≠ 0 then [("hit-time".toList, iso8601 self.hitTime)] else []) ++
  (if self.misses ≠ 0 then [("misses".toList, formatSize self.misses)] else []) ++
  (if self.missQuota ≠ 0 then [("miss-quota".toList, formatSize self.missQuota)] else []) ++
  (if self.missFrom ≠ .empty then [("miss-from".toList, self.missFrom.chars)] else []) ++
  (if self.missTime ≠ 0 then [("miss-time".toList, iso8601 self.missTime)] else [])

def pairsText (pairs : List (Str × Str)) : Str :=
  pairs.flatMap fun pair => ' ' :: pair.1 ++ '=' :: pair.2

/-- `guard put`: the line without its key and the end of line -/
def guardOptions (self : Password) : Str := pairsText self.guardPairs

/-- White space in patterns -/
def isSpace (c : Char) : Bool := c = ' ' ∨ c = '\t' ∨ c = '\n' ∨ c = '\r' ∨ c = '\x0c'

/-- `[\w-]` -/
def isWord (c : Char) : Bool := c.isAlphanum ∨ c = '_' ∨ c = '-'

/-- `^\s*([\w-]+)\s*=\s*([^\s]+)(.*)`: the name, the value and the rest of the line -/
def scanPair (options : Str) : Option (Str × Str × Str) :=
  let options := options.dropWhile isSpace
  let name := options.takeWhile isWord
  match (options.dropWhile isWord).dropWhile isSpace with
  | '=' :: options =>
    let options := options.dropWhile isSpace
    let value := options.takeWhile fun c => !isSpace c
    if name = [] ∨ value = [] then none
    else some (name, value, (options.dropWhile fun c => !isSpace c).takeWhile (· ≠ '\n'))
  | _ => none

/-- `atoi`: the number that a text begins with, which is cut to the range of a long and then to
32 bits -/
def atoi (s : Str) : Int :=
  let s := s.dropWhile fun c => isSpace c || c == '\x0b'
  let digits (s : Str) : Int := digitsValue (s.takeWhile Char.isDigit)
  let n := match s with
    | '-' :: s => -digits s
    | '+' :: s => digits s
    | s => digits s
  (max (-2 ^ 63) (min n (2 ^ 63 - 1))).bmod (2 ^ 32)

/-- What an `int` is as a `size_t`. -/
def sizeOfInt (n : Int) : UInt64 := .ofInt n

/-- One round of `guard get` -/
def setOption (self : Password) (name value : Str) : Password :=
  if name = "expiry".toList then { self with expiry := iso8601Decode value }
  else if name = "expired".toList then { self with expired := atoi value ≠ 0 }
  else if name = "hits".toList then { self with hits := sizeOfInt (atoi value) }
  else if name = "hit-quota".toList then { self with hitQuota := sizeOfInt (atoi value) }
  else if name = "hit-time".toList then { self with hitTime := iso8601Decode value }
  else if name = "hit-from".toList then { self with hitFrom := .cpy value }
  else if name = "misses".toList then { self with misses := sizeOfInt (atoi value) }
  else if name = "miss-quota".toList then { self with missQuota := sizeOfInt (atoi value) }
  else if name = "miss-time".toList then { self with missTime := iso8601Decode value }
  else if name = "miss-from".toList then { self with missFrom := .cpy value }
  else self

/-- The rounds for several pairs -/
def setOptions (self : Password) (pairs : List (Str × Str)) : Password :=
  pairs.foldl (fun self pair => self.setOption pair.1 pair.2) self

/-- The loop of `guard get`, whose rounds each take something from the text. -/
def getLoop : (fuel : Nat) → Password → (options : Str) → Password
  | 0, self, _ => self
  | fuel + 1, self, options =>
    match scanPair options with
    | some (name, value, rest) => getLoop fuel (self.setOption name value) rest
    | none => self

/-- `guard get` -/
def guardGet (self : Password) (options : Str) : Password :=
  getLoop options.length self options

/-! ## What comes back -/

/-- A pair that can be told from the ones next to it. -/
structure PairOk (pair : Str × Str) : Prop where
  name_ne : pair.1 ≠ []
  name : ∀ c ∈ pair.1, isWord c = true
  value_ne : pair.2 ≠ []
  value : ∀ c ∈ pair.2, isSpace c = false

variable {c : Char} {n : UInt64} {time : Int}

theorem isSpace_of_isWord (h : isWord c = true) : isSpace c = false := by
  rw [isSpace, decide_eq_false_iff_not]
  rintro (rfl | rfl | rfl | rfl | rfl) <;> exact absurd h (by decide)

theorem pairsText_spec {pairs : List (Str × Str)} (h : ∀ pair ∈ pairs, PairOk pair) :
    (∀ c ∈ pairsText pairs, c ≠ '\n') ∧ (pairsText pairs).takeWhile (fun c => !isSpace c) = [] ∧
      pairs.length ≤ (pairsText pairs).length := by
  induction pairs with
  | nil => simp [pairsText]
  | cons pair pairs ih =>
    rw [forall_mem_cons] at h
    obtain ⟨hpair, hpairs⟩ := h
    obtain ⟨hline, -, hlength⟩ := ih hpairs
    have htext : pairsText (pair :: pairs) =
        ' ' :: (pair.1 ++ '=' :: pair.2) ++ pairsText pairs := by
      simp [pairsText]
    have hspace : ∀ c, isSpace c = false → c ≠ '\n' := by
      rintro c hc rfl
      exact absurd hc (by decide)
    rw [htext]
    refine ⟨fun c hc => ?_, by simp [isSpace], by simp; omega⟩
    simp only [cons_append, mem_cons, mem_append] at hc
    rcases hc with rfl | (hc | rfl | hc) | hc
    · decide
    · exact hspace c (isSpace_of_isWord (hpair.name c hc))
    · decide
    · exact hspace c (hpair.value c hc)
    · exact hline c hc

theorem scanPair_pair {pair : Str × Str} (h : PairOk pair) {rest : Str}
    (hline : ∀ c ∈ rest, c ≠ '\n') (hrest : rest.takeWhile (fun c => !isSpace c) = []) :
    scanPair (' ' :: (pair.1 ++ '=' :: pair.2) ++ rest) = some (pair.1, pair.2, rest) := by
  obtain ⟨name, value⟩ := pair
  obtain ⟨hname_ne, hname, hvalue_ne, hvalue⟩ := h
  have hvalue' : ∀ c ∈ value, (!isSpace c) = true := by simpa using hvalue
  have hblank : (' ' :: (name ++ '=' :: value) ++ rest).dropWhile isSpace =
      name ++ '=' :: (value ++ rest) := by
    cases name with
    | nil => exact absurd rfl hname_ne
    | cons c name =>
      have hc := isSpace_of_isWord (hname c mem_cons_self)
      simp [dropWhile, hc, show isSpace ' ' = true from rfl]
  have hword : isWord '=' = false := by decide
  have hname_take : (name ++ '=' :: (value ++ rest)).takeWhile isWord = name := by
    rw [takeWhile_append_of_pos hname]
    simp [hword]
  have hname_drop : (name ++ '=' :: (value ++ rest)).dropWhile isWord = '=' :: (value ++ rest) := by
    rw [dropWhile_append_of_pos hname]
    simp [hword]
  have hequals : ('=' :: (value ++ rest)).dropWhile isSpace = '=' :: (value ++ rest) := by
    simp [show isSpace '=' = false by decide]
  have hvalue_begin : (value ++ rest).dropWhile isSpace = value ++ rest := by
    cases value with
    | nil => exact absurd rfl hvalue_ne
    | cons c value => simp [hvalue c mem_cons_self]
  have hvalue_take : (value ++ rest).takeWhile (fun c => !isSpace c) = value := by
    rw [takeWhile_append_of_pos hvalue', hrest, append_nil]
  have hrest_drop : rest.dropWhile (fun c => !isSpace c) = rest := by
    have hsplit := takeWhile_append_dropWhile (p := fun c => !isSpace c) (l := rest)
    rwa [hrest, nil_append] at hsplit
  have hvalue_drop : (value ++ rest).dropWhile (fun c => !isSpace c) = rest := by
    rw [dropWhile_append_of_pos hvalue', hrest_drop]
  have hend : rest.takeWhile (· ≠ '\n') = rest := by
    rw [takeWhile_eq_self_iff]
    simpa using hline
  rw [scanPair, hblank, hname_take, hname_drop, hequals]
  simp only [hvalue_begin, hvalue_take, hvalue_drop, hend]
  rw [if_neg (by simp [hname_ne, hvalue_ne])]

theorem getLoop_pairsText {pairs : List (Str × Str)} (h : ∀ pair ∈ pairs, PairOk pair)
    {fuel : Nat} (hfuel : pairs.length ≤ fuel) (self : Password) :
    getLoop fuel self (pairsText pairs) = self.setOptions pairs := by
  induction pairs generalizing fuel self with
  | nil => cases fuel <;> rfl
  | cons pair pairs ih =>
    rw [forall_mem_cons] at h
    obtain ⟨hline, hrest, -⟩ := pairsText_spec h.2
    obtain ⟨fuel, rfl⟩ : ∃ n, fuel = n + 1 := ⟨fuel - 1, by simp at hfuel; omega⟩
    have htext : pairsText (pair :: pairs) =
        ' ' :: (pair.1 ++ '=' :: pair.2) ++ pairsText pairs := by
      simp [pairsText]
    rw [getLoop, htext, scanPair_pair h.1 hline hrest]
    exact ih h.2 (by simpa using hfuel) _

/-- A new entry with the same hash takes over what has been written of the entry. -/
def restart (self : Password) : Password := (self.update self.hash).guardGet self.guardOptions

/-- A time without its seconds. -/
def toMinute (time : Int) : Int := time - time % 60000000

/-- The entry with the seconds cut off its times. -/
def toMinutes (self : Password) : Password :=
  { self with
    expiry := toMinute self.expiry
    hitTime := toMinute self.hitTime
    missTime := toMinute self.missTime }

/-- A time that a text gives back, to the minute. -/
def TimeOk (time : Int) : Prop := time = 0 ∨ 60000000 ≤ time ∧ time < isoLimit

/-- An address without white space. -/
def AddressOk (address : Shortstr) : Prop := ∀ c ∈ address.chars, isSpace c = false

/-- A count that `atoi` gives back. The greatest one comes back as -1. -/
def SizeOk (n : UInt64) : Prop := n.toNat < 2 ^ 31 ∨ n = 18446744073709551615

/-- Counts and quotas fit into an `int`, times are in the calendar, addresses are words. -/
structure Restorable (entry : Password) : Prop where
  hits : SizeOk entry.hits
  hitQuota : SizeOk entry.hitQuota
  misses : SizeOk entry.misses
  missQuota : SizeOk entry.missQuota
  expiry : TimeOk entry.expiry
  hitTime : TimeOk entry.hitTime
  missTime : TimeOk entry.missTime
  hitFrom : AddressOk entry.hitFrom
  missFrom : AddressOk entry.missFrom

theorem isSpace_of_isDigit (h : c.isDigit = true) : isSpace c = false := by
  rw [isSpace, decide_eq_false_iff_not]
  rintro (rfl | rfl | rfl | rfl | rfl) <;> exact absurd h (by decide)

theorem isDigit_formatSize {n : UInt64} {c : Char} (h : c ∈ formatSize n) : c.isDigit = true :=
  Nat.isDigit_of_mem_toDigits (by decide) (by decide) h

theorem atoi_formatSize (h : n.toNat < 2 ^ 31) : atoi (formatSize n) = n.toNat := by
  have hvalue : digitsValue (formatSize n) = n.toNat := by
    rw [digitsValue, formatSize, Nat.ofDigitChars_ten_toDigits]
  have htake : (formatSize n).takeWhile Char.isDigit = formatSize n := by
    rw [takeWhile_eq_self_iff]
    exact fun c hc => isDigit_formatSize hc
  have hbmod : (max (-2 ^ 63) (min (n.toNat : Int) (2 ^ 63 - 1))).bmod (2 ^ 32) = n.toNat := by
    rw [Int.min_eq_left (by omega), Int.max_eq_right (by omega), Int.bmod_eq_of_le]
    all_goals omega
  have hdigit := @isDigit_formatSize n
  cases hdigits : formatSize n with
  | nil => exact absurd hdigits Nat.toDigits_ne_nil
  | cons c s =>
    have hc := hdigit (c := c) (by rw [hdigits]; exact mem_cons_self)
    have hspace : (isSpace c || c == '\x0b') = false := by
      rw [isSpace_of_isDigit hc, Bool.false_or, beq_eq_false_iff_ne]
      rintro rfl
      exact absurd hc (by decide)
    have hminus : c ≠ '-' := by
      rintro rfl
      exact absurd hc (by decide)
    have hplus : c ≠ '+' := by
      rintro rfl
      exact absurd hc (by decide)
    rw [hdigits] at htake hvalue
    rw [atoi, dropWhile_cons_of_neg (by simp [hspace])]
    simp only
    split
    · next heq => exact absurd (cons.inj heq).1 hminus
    · next heq => exact absurd (cons.inj heq).1 hplus
    · rw [htake, hvalue, hbmod]

theorem sizeOfInt_natCast (n : UInt64) : sizeOfInt n.toNat = n := by
  have hlt := n.toNat_lt
  rw [sizeOfInt, UInt64.ofInt, ← UInt64.toNat_inj, UInt64.toNat_ofNat']
  omega

theorem isSpace_of_mem_formatInt {width : Nat} {n : Int} (h : c ∈ formatInt width n) :
    isSpace c = false := by
  have hpadded : ∀ width, c ∈ leftpad width '0' (Nat.toDigits 10 n.natAbs) → isSpace c = false := by
    intro width hc
    rw [leftpad, mem_append] at hc
    rcases hc with hc | hc
    · rw [eq_of_mem_replicate hc]
      decide
    · exact isSpace_of_isDigit (Nat.isDigit_of_mem_toDigits (by decide) (by decide) hc)
  unfold formatInt at h
  split at h
  · rcases mem_cons.mp h with rfl | h
    · decide
    · exact hpadded _ h
  · exact hpadded _ h

theorem isSpace_of_mem_iso8601 (h : c ∈ iso8601 time) : isSpace c = false := by
  simp only [iso8601, append_assoc, cons_append, mem_append, mem_cons] at h
  rcases h with h | rfl | h | rfl | h | rfl | h | rfl | h | h
  all_goals try exact isSpace_of_mem_formatInt h
  all_goals try decide
  obtain rfl : c = 'Z' := by simpa using h
  decide

theorem pairOk_iso8601 {name : Str} (hname_ne : name ≠ []) (hname : name.all isWord = true)
    (time : Int) : PairOk (name, iso8601 time) :=
  ⟨hname_ne, all_eq_true.mp hname, by simp [iso8601], fun _ => isSpace_of_mem_iso8601⟩

theorem pairOk_formatSize {name : Str} (hname_ne : name ≠ [])
    (hname : name.all isWord = true) (n : UInt64) : PairOk (name, formatSize n) :=
  ⟨hname_ne, all_eq_true.mp hname, Nat.toDigits_ne_nil,
    fun _ hc => isSpace_of_isDigit (isDigit_formatSize hc)⟩

theorem pairOk_address {name : Str} (hname_ne : name ≠ []) (hname : name.all isWord = true)
    {address : Shortstr} (hne : address ≠ .empty) (haddress : AddressOk address) :
    PairOk (name, address.chars) :=
  ⟨hname_ne, all_eq_true.mp hname, fun hnil => hne (Shortstr.eq_of_chars_eq hnil), haddress⟩

theorem forall_mem_ite {P : Str × Str → Prop} {c : Prop} [Decidable c] {pair : Str × Str}
    (h : c → P pair) : ∀ p ∈ (if c then [pair] else []), P p := by
  intro p hp
  split at hp
  · next hc => exact mem_singleton.mp hp ▸ h hc
  · cases hp

theorem pairOk_guardPairs {self : Password} (h : Restorable self) :
    ∀ pair ∈ self.guardPairs, PairOk pair := by
  unfold guardPairs
  simp only [forall_mem_append]
  refine ⟨⟨⟨⟨⟨⟨⟨⟨⟨?_, ?_⟩, ?_⟩, ?_⟩, ?_⟩, ?_⟩, ?_⟩, ?_⟩, ?_⟩, ?_⟩ <;>
    refine forall_mem_ite fun hc => ?_
  · exact pairOk_iso8601 (by decide) (by decide) _
  · exact ⟨by decide, all_eq_true.mp (by decide), by decide, by simp [isSpace]⟩
  · exact pairOk_formatSize (by decide) (by decide) _
  · exact pairOk_formatSize (by decide) (by decide) _
  · exact pairOk_address (by decide) (by decide) hc h.hitFrom
  · exact pairOk_iso8601 (by decide) (by decide) _
  · exact pairOk_formatSize (by decide) (by decide) _
  · exact pairOk_formatSize (by decide) (by decide) _
  · exact pairOk_address (by decide) (by decide) hc h.missFrom
  · exact pairOk_iso8601 (by decide) (by decide) _

/-! ### One field after the other -/

theorem setOptions_append (self : Password) (pairs pairs' : List (Str × Str)) :
    self.setOptions (pairs ++ pairs') = (self.setOptions pairs).setOptions pairs' :=
  foldl_append

theorem iso8601Decode_toMinute (h : TimeOk time) (hne : time ≠ 0) :
    iso8601Decode (iso8601 time) = toMinute time := by
  rcases h with h | ⟨hfirst, hlimit⟩
  · exact absurd h hne
  · exact iso8601Decode_iso8601 (by omega) hlimit

theorem toMinute_eq_zero (h : ¬ time ≠ 0) : toMinute time = 0 := by
  rw [not_not.mp h]
  rfl

theorem sizeOfInt_atoi (h : SizeOk n) : sizeOfInt (atoi (formatSize n)) = n := by
  rcases h with h | rfl
  · rw [atoi_formatSize h, sizeOfInt_natCast]
  · decide

theorem cpy_chars (address : Shortstr) : Shortstr.cpy address.chars = address :=
  Shortstr.eq_of_chars_eq (take_of_length_le address.bound)

section Fields

variable {name : Str} {e : Password}

theorem setOptions_times {s : Password → Int → Password} {g : Password → Int}
    (htime : TimeOk time) (hset : ∀ e v, e.setOption name v = s e (iso8601Decode v))
    (hsame : ∀ e, s e (g e) = e) (hzero : g e = 0) :
    e.setOptions (if time ≠ 0 then [(name, iso8601 time)] else []) = s e (toMinute time) := by
  split
  · next hc =>
    rw [← iso8601Decode_toMinute htime hc]
    exact hset e _
  · next hc =>
    rw [toMinute_eq_zero hc, ← hzero]
    exact (hsame e).symm

theorem setOptions_sizes {s : Password → UInt64 → Password} {g : Password → UInt64}
    (hn : SizeOk n) (hset : ∀ e v, e.setOption name v = s e (sizeOfInt (atoi v)))
    (hsame : ∀ e, s e (g e) = e) (hzero : g e = 0) :
    e.setOptions (if n ≠ 0 then [(name, formatSize n)] else []) = s e n := by
  split
  · have hvalue := hset e (formatSize n)
    rwa [sizeOfInt_atoi hn] at hvalue
  · next hc =>
    rw [not_not.mp hc, ← hzero]
    exact (hsame e).symm

theorem setOptions_address {s : Password → Shortstr → Password} {g : Password → Shortstr}
    (address : Shortstr) (hset : ∀ e v, e.setOption name v = s e (.cpy v))
    (hsame : ∀ e, s e (g e) = e) (hzero : g e = .empty) :
    e.setOptions (if address ≠ .empty then [(name, address.chars)] else []) = s e address := by
  split
  · have hvalue := hset e address.chars
    rwa [cpy_chars] at hvalue
  · next hc =>
    rw [not_not.mp hc, ← hzero]
    exact (hsame e).symm

theorem setOptions_expired {flag : Bool} (hzero : e.expired = false) :
    e.setOptions (if flag then [("expired".toList, "1".toList)] else []) =
      { e with expired := flag } := by
  cases flag with
  | false =>
    show e = { e with expired := false }
    rw [← hzero]
  | true => rfl

end Fields

theorem restart_eq_toMinutes {self : Password} (h : Restorable self) :
    self.restart = self.toMinutes := by
  have hok := pairOk_guardPairs h
  rw [restart, guardGet, guardOptions, getLoop_pairsText hok (pairsText_spec hok).2.2, guardPairs]
  simp only [setOptions_append]
  rw [setOptions_times (s := fun e time => { e with expiry := time }) (g := expiry) h.expiry
    (fun _ _ => rfl) (fun _ => rfl)]
  rw [setOptions_expired]
  rw [setOptions_sizes (s := fun e n => { e with hits := n }) (g := hits) h.hits
    (fun _ _ => rfl) (fun _ => rfl)]
  rw [setOptions_sizes (s := fun e n => { e with hitQuota := n }) (g := hitQuota) h.hitQuota
    (fun _ _ => rfl) (fun _ => rfl)]
  rw [setOptions_address (s := fun e address => { e with hitFrom := address }) (g := hitFrom)
    self.hitFrom (fun _ _ => rfl) (fun _ => rfl)]
  rw [setOptions_times (s := fun e time => { e with hitTime := time }) (g := hitTime) h.hitTime
    (fun _ _ => rfl) (fun _ => rfl)]
  rw [setOptions_sizes (s := fun e n => { e with misses := n }) (g := misses) h.misses
    (fun _ _ => rfl) (fun _ => rfl)]
  rw [setOptions_sizes (s := fun e n => { e with missQuota := n }) (g := missQuota) h.missQuota
    (fun _ _ => rfl) (fun _ => rfl)]
  rw [setOptions_address (s := fun e address => { e with missFrom := address }) (g := missFrom)
    self.missFrom (fun _ _ => rfl) (fun _ => rfl)]
  rw [setOptions_times (s := fun e time => { e with missTime := time }) (g := missTime) h.missTime
    (fun _ _ => rfl) (fun _ => rfl)]
  all_goals rfl

/-- A quota of 2^32 hits comes back as none. -/
example : (restart { new [] [] with hitQuota := 4294967296 }).hitQuota = 0 := by decide +kernel

end Password

end OpenAmq
