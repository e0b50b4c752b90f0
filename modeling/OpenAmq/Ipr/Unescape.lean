import OpenAmq.Asl.Bounds

/-!
# Unescaping a URI

`ipr_http_unescape_uri` replaces the escapes `%xx` of a string, in place. It steps over the
percent sign before it knows whether digits follow.

* `unescapeUri` — the function, on the memory of the string
* `decoded` — the octets that it leaves there
* `unescapes_iff` — when these are the same
-/

namespace OpenAmq

open List

namespace Unescape

/-! ## The source -/

def hexToBin : List Int :=
  [-1, -1, -1, -1, -1, -1, -1, -1, -1, -1, -1, -1, -1, -1, -1, -1,
   -1, -1, -1, -1, -1, -1, -1, -1, -1, -1, -1, -1, -1, -1, -1, -1,
   -1, -1, -1, -1, -1, -1, -1, -1, -1, -1, -1, -1, -1, -1, -1, -1,
   0, 1, 2, 3, 4, 5, 6, 7, 8, 9, -1, -1, -1, -1, -1, -1,
   -1, 10, 11, 12, 13, 14, 15, -1, -1, -1, -1, -1, -1, -1, -1, -1,
   -1, -1, -1, -1, -1, -1, -1, -1, -1, -1, -1, -1, -1, -1, -1, -1,
   -1, 10, 11, 12, 13, 14, 15, -1, -1, -1, -1, -1, -1, -1, -1, -1,
   -1, -1, -1, -1, -1, -1, -1, -1, -1, -1, -1, -1, -1, -1, -1, -1]

def store (memory : List UInt8) (i : Nat) (octet : UInt8) : Except Violation (List UInt8) :=
  if i < memory.length then .ok (memory.set i octet) else .error .write

/--
`s_decode_hex`, with `left` characters still to be taken: the pointer to the first character that
is not, and the result.
-/
def sDecodeHex (memory : List UInt8) : (left input : Nat) → (result : Int) →
    Except Violation (Nat × Int)
  | 0, input, result => .ok (input, result)
  | left + 1, input, result => do
    let nextch := (← readOctet memory input) &&& 127
    let value := hexToBin.getD nextch.toNat (-1)
    if nextch ≠ 0 ∧ value ≠ -1 then sDecodeHex memory left (input + 1) (result * 16 + value)
    else return (input, result)

/-- `*nextch == '%' && nextch [1] && nextch [2]` -/
def atEscape (memory : List UInt8) (nextch : Nat) : Except Violation Bool := do
  if (← readOctet memory nextch) = 0x25 then
    if (← readOctet memory (nextch + 1)) ≠ 0 then
      return decide ((← readOctet memory (nextch + 2)) ≠ 0)
    else return false
  else return false

/-- The loop: the memory, and where the string ends now. -/
def unescapeLoop : (fuel : Nat) → (memory : List UInt8) → (nextch target : Nat) →
    Except Violation (List UInt8 × Nat)
  | 0, _, _, _ => .error .unfinished
  | fuel + 1, memory, nextch, target => do
    let octet ← readOctet memory nextch
    if octet ≠ 0 then
      if ← atEscape memory nextch then
        let (nextch, result) ← sDecodeHex memory 2 (nextch + 1) 0
        unescapeLoop fuel (← store memory target (UInt8.ofInt result)) nextch (target + 1)
      else unescapeLoop fuel (← store memory target octet) (nextch + 1) (target + 1)
    else return (← store memory target 0, target)

/-- `ipr_http_unescape_uri`, in the memory that the string takes. -/
def unescapeUri (uri : CString) : Except Violation (List UInt8 × Nat) :=
  unescapeLoop (uri.octets.length + 1) (uri.octets ++ [0]) 0 0

/-! ## What it is for -/

def hexValue (octet : UInt8) : Option UInt8 :=
  if 0x30 ≤ octet ∧ octet ≤ 0x39 then some (octet - 0x30)
  else if 0x41 ≤ octet ∧ octet ≤ 0x46 then some (octet - 0x41 + 10)
  else if 0x61 ≤ octet ∧ octet ≤ 0x66 then some (octet - 0x61 + 10)
  else none

/-- Each percent sign with two digits is replaced by the octet they denote. -/
def unescaped : List UInt8 → List UInt8
  | c :: a :: b :: rest =>
    if c = 0x25 then
      match hexValue a, hexValue b with
      | some x, some y => (x * 16 + y) :: unescaped rest
      | _, _ => c :: unescaped (a :: b :: rest)
    else c :: unescaped (a :: b :: rest)
  | short => short

def Unescapes (uri : CString) : Prop :=
  ∃ memory target, unescapeUri uri = .ok (memory, target) ∧ memory.length = uri.octets.length + 1 ∧
    memory.take (target + 1) = unescaped uri.octets ++ [0] ∧ target < memory.length

/-- Percent signs that are followed by two characters are followed by two digits. -/
def Escaped (uri : List UInt8) : Prop :=
  ∀ before a b after, uri = before ++ 0x25 :: a :: b :: after →
    hexValue a ≠ none ∧ hexValue b ≠ none

inductive Encodes : (octets uri : List UInt8) → Prop
  | nil : Encodes [] []
  | plain {octets uri : List UInt8} (c : UInt8) (hc : c ≠ 0x25) (h : Encodes octets uri) :
    Encodes (c :: octets) (c :: uri)
  | escape {octets uri : List UInt8} (a b x y : UInt8) (ha : hexValue a = some x)
      (hb : hexValue b = some y) (h : Encodes octets uri) :
    Encodes ((x * 16 + y) :: octets) (0x25 :: a :: b :: uri)

/-! ## What the code leaves -/

/-- The digit that an octet is taken for: its upper bit is not looked at. -/
def digit (octet : UInt8) : Option Int :=
  let nextch := octet &&& 127
  let value := hexToBin.getD nextch.toNat (-1)
  if nextch ≠ 0 ∧ value ≠ -1 then some value else none

/-- The octets that the loop writes. -/
def decoded : List UInt8 → List UInt8
  | c :: a :: b :: rest =>
    if c = 0x25 then
      match digit a, digit b with
      | none, _ => 0 :: decoded (a :: b :: rest)
      | some x, none => UInt8.ofInt x :: decoded (b :: rest)
      | some x, some y => UInt8.ofInt (x * 16 + y) :: decoded rest
    else c :: decoded (a :: b :: rest)
  | short => short

variable {c x a b y : UInt8} (s : List UInt8) {memory octets : List UInt8}
  {nextch target fuel : Nat}

theorem decoded_cons_ne (hc : c ≠ 0x25) (rest : List UInt8) :
    decoded (c :: rest) = c :: decoded rest := by
  match rest with
  | [] | [_] => rfl
  | _ :: _ :: _ => rw [decoded, if_neg hc]

theorem unescaped_cons_ne (hc : c ≠ 0x25) (rest : List UInt8) :
    unescaped (c :: rest) = c :: unescaped rest := by
  match rest with
  | [] | [_] => rfl
  | _ :: _ :: _ => rw [unescaped, if_neg hc]

/-! ## Digits -/

theorem digit_of_hexValue (hx : hexValue c = some x) : digit c = some (x.toNat : Int) := by
  have h : ∀ c, digit c = (hexValue c).map (fun x => (x.toNat : Int)) ∨ hexValue c = none :=
    Lib.forall_octet (by decide +kernel)
  rcases h c with hc | hc
  · rw [hc, hx]
    rfl
  · rw [hc] at hx
    cases hx

theorem ne_percent_of_digit {x : Int} (hx : digit c = some x) : c ≠ 0x25 := by
  rintro rfl
  have hp : digit 0x25 = none := by decide
  rw [hp] at hx
  cases hx

theorem ne_percent_of_hexValue (hx : hexValue c = some x) : c ≠ 0x25 :=
  ne_percent_of_digit (digit_of_hexValue hx)

theorem ofInt_toNat (x : UInt8) : UInt8.ofInt (x.toNat : Int) = x := by
  have hx : x.toNat % 256 = x.toNat := Nat.mod_eq_of_lt x.toNat_lt
  have hi : (x.toNat : Int) % 2 ^ 8 = ((x.toNat % 256 : Nat) : Int) := by omega
  rw [UInt8.ofInt, hi, Int.toNat_natCast, hx, UInt8.ofNat_toNat]

theorem ofInt_digits (x y : UInt8) : UInt8.ofInt ((x.toNat : Int) * 16 + y.toNat) = x * 16 + y := by
  rw [UInt8.ofInt_add, UInt8.ofInt_mul, ofInt_toNat, ofInt_toNat]
  rfl

theorem ofInt_ne_percent {x : Int} (hx : digit c = some x) : UInt8.ofInt x ≠ 0x25 := by
  have h : ∀ c : UInt8, ∀ x ∈ digit c, UInt8.ofInt x ≠ 0x25 := Lib.forall_octet (by decide +kernel)
  exact h c x hx

/-! ## Where the two are the same -/

theorem decoded_escape (ha : hexValue a = some x) (hb : hexValue b = some y) (rest : List UInt8) :
    decoded (0x25 :: a :: b :: rest) = (x * 16 + y) :: decoded rest := by
  rw [decoded, if_pos rfl]
  simp only [digit_of_hexValue ha, digit_of_hexValue hb, ofInt_digits]

theorem unescaped_escape (ha : hexValue a = some x) (hb : hexValue b = some y) (rest : List UInt8) :
    unescaped (0x25 :: a :: b :: rest) = (x * 16 + y) :: unescaped rest := by
  rw [unescaped, if_pos rfl]
  simp only [ha, hb]

theorem unescaped_percent (h : ¬(hexValue a ≠ none ∧ hexValue b ≠ none)) (rest : List UInt8) :
    unescaped (0x25 :: a :: b :: rest) = 0x25 :: unescaped (a :: b :: rest) := by
  rw [unescaped, if_pos rfl]
  cases ha : hexValue a with
  | none => rfl
  | some x =>
    cases hb : hexValue b with
    | none => rfl
    | some y => exact absurd ⟨by simp [ha], by simp [hb]⟩ h

theorem escaped_cons_ne (hc : c ≠ 0x25) (rest : List UInt8) :
    Escaped (c :: rest) ↔ Escaped rest := by
  constructor
  · intro h before a b after heq
    exact h (c :: before) a b after (by rw [heq]; rfl)
  · intro h before a b after heq
    cases before with
    | nil => exact absurd (cons.inj heq).1 hc
    | cons d before => exact h before a b after (cons.inj heq).2

theorem escaped_escape (ha : hexValue a = some x) (hb : hexValue b = some y) (rest : List UInt8) :
    Escaped (0x25 :: a :: b :: rest) ↔ Escaped rest := by
  have hcons : Escaped (a :: b :: rest) ↔ Escaped rest := by
    rw [escaped_cons_ne (ne_percent_of_hexValue ha), escaped_cons_ne (ne_percent_of_hexValue hb)]
  rw [← hcons]
  constructor
  · intro h before c d after heq
    exact h (0x25 :: before) c d after (by rw [heq]; rfl)
  · intro h before c d after heq
    cases before with
    | nil =>
      obtain ⟨-, htail⟩ := cons.inj heq
      obtain ⟨hac, htail⟩ := cons.inj htail
      obtain ⟨hbd, -⟩ := cons.inj htail
      rw [← hac, ← hbd]
      exact ⟨by simp [ha], by simp [hb]⟩
    | cons e before => exact h before c d after (cons.inj heq).2

theorem length_decoded_le : (decoded s).length ≤ (unescaped s).length := by
  fun_induction decoded s with
  | case1 a b rest hd ih =>
    have hne : ¬(hexValue a ≠ none ∧ hexValue b ≠ none) := by
      rintro ⟨ha, -⟩
      obtain ⟨x, hx⟩ := Option.ne_none_iff_exists'.mp ha
      rw [digit_of_hexValue hx] at hd
      cases hd
    rw [unescaped_percent hne]
    simpa using ih
  | case2 a b rest x hd hx ih =>
    have hne : ¬(hexValue a ≠ none ∧ hexValue b ≠ none) := by
      rintro ⟨-, hb⟩
      obtain ⟨y, hy⟩ := Option.ne_none_iff_exists'.mp hb
      rw [digit_of_hexValue hy] at hd
      cases hd
    rw [unescaped_percent hne, unescaped_cons_ne (ne_percent_of_digit hx)]
    simp only [length_cons]
    omega
  | case3 a b rest x y hy hx ih =>
    by_cases hne : hexValue a ≠ none ∧ hexValue b ≠ none
    · obtain ⟨u, hu⟩ := Option.ne_none_iff_exists'.mp hne.1
      obtain ⟨v, hv⟩ := Option.ne_none_iff_exists'.mp hne.2
      rw [unescaped_escape hu hv]
      simpa using ih
    · rw [unescaped_percent hne, unescaped_cons_ne (ne_percent_of_digit hx),
        unescaped_cons_ne (ne_percent_of_digit hy)]
      simp only [length_cons]
      omega
  | case4 c a b rest hc ih =>
    rw [unescaped_cons_ne hc]
    simpa using ih
  | case5 s hs => exact Nat.le_of_eq (congrArg length (unescaped.eq_2 s hs).symm)

theorem decoded_ne (h : ¬(hexValue a ≠ none ∧ hexValue b ≠ none)) (rest : List UInt8) :
    decoded (0x25 :: a :: b :: rest) ≠ unescaped (0x25 :: a :: b :: rest) := by
  rw [unescaped_percent h, decoded, if_pos rfl]
  cases ha : digit a with
  | none => exact fun heq => absurd (cons.inj heq).1 (by decide)
  | some x =>
    cases hb : digit b with
    | none => exact fun heq => ofInt_ne_percent ha (cons.inj heq).1
    | some y =>
      -- both are digits but for their upper bits, and can denote the percent sign itself
      intro heq
      have hlen : (decoded rest).length = (unescaped (a :: b :: rest)).length :=
        congrArg length (cons.inj heq).2
      have hle := length_decoded_le rest
      rw [unescaped_cons_ne (ne_percent_of_digit ha), unescaped_cons_ne (ne_percent_of_digit hb)]
        at hlen
      simp only [length_cons] at hlen
      omega

theorem decoded_eq_iff : decoded s = unescaped s ↔ Escaped s := by
  fun_induction unescaped s with
  | case1 a b rest x y hb ha ih =>
    rw [decoded_escape ha hb, escaped_escape ha hb, cons_inj_right, ih]
  | case2 a b rest hne ih =>
    have hab : ¬(hexValue a ≠ none ∧ hexValue b ≠ none) := by
      rintro ⟨ha, hb⟩
      obtain ⟨x, hx⟩ := Option.ne_none_iff_exists'.mp ha
      obtain ⟨y, hy⟩ := Option.ne_none_iff_exists'.mp hb
      exact hne x y hx hy
    constructor
    · intro heq
      exact absurd (heq.trans (unescaped_percent hab rest).symm) (decoded_ne hab rest)
    · intro h
      exact absurd (h [] a b rest rfl) hab
  | case3 c a b rest hc ih =>
    rw [decoded_cons_ne hc, escaped_cons_ne hc, cons_inj_right, ih]
  | case4 s hs =>
    constructor
    · intro _ before a b after heq
      cases before with
      | nil => exact (hs _ _ _ _ heq).elim
      | cons c before =>
        cases before with
        | nil => exact (hs _ _ _ _ heq).elim
        | cons d before => cases before <;> exact (hs _ _ _ _ heq).elim
    · intro _
      exact decoded.eq_2 s hs

/-! ## The run -/

theorem store_eq {i : Nat} (hi : i < memory.length) (octet : UInt8) :
    store memory i octet = .ok (memory.set i octet) := by
  rw [store, if_pos hi]

/-- A digit is taken, and anything else ends the number. -/
theorem sDecodeHex_step {input : Nat} {octet : UInt8} (h : readOctet memory input = .ok octet)
    (left : Nat) (result : Int) :
    sDecodeHex memory (left + 1) input result =
      match digit octet with
      | some value => sDecodeHex memory left (input + 1) (result * 16 + value)
      | none => .ok (input, result) := by
  simp only [sDecodeHex, h, digit, bind, Except.bind]
  split <;> rfl

def startsEscape : List UInt8 → Bool
  | c :: _ :: _ :: _ => c == 0x25
  | _ => false

theorem atEscape_eq {s : List UInt8} (h : memory.drop nextch = c :: s ++ [0]) (hnul : 0 ∉ s) :
    atEscape memory nextch = .ok (startsEscape (c :: s)) := by
  have hc : readOctet memory nextch = .ok c := readOctet_ahead (i := 0) h rfl
  by_cases hp : c = 0x25
  · match s with
    | [] =>
      have ha : readOctet memory (nextch + 1) = .ok 0 := readOctet_ahead h rfl
      simp [atEscape, hc, hp, ha, startsEscape, bind, Except.bind, pure, Except.pure]
    | [a] =>
      have ha : readOctet memory (nextch + 1) = .ok a := readOctet_ahead h rfl
      have hb : readOctet memory (nextch + 2) = .ok 0 := readOctet_ahead h rfl
      simp [atEscape, hc, hp, ha, hb, startsEscape, bind, Except.bind, pure, Except.pure]
    | a :: b :: rest =>
      have ha : readOctet memory (nextch + 1) = .ok a := readOctet_ahead h rfl
      have hb : readOctet memory (nextch + 2) = .ok b := readOctet_ahead h rfl
      have ha0 : a ≠ 0 := fun h0 => hnul (by simp [h0])
      have hb0 : b ≠ 0 := fun h0 => hnul (by simp [h0])
      simp [atEscape, hc, hp, ha, hb, ha0, hb0, startsEscape, bind, Except.bind, pure, Except.pure]
  · have hs : startsEscape (c :: s) = false := by
      match s with
      | [] | [_] => rfl
      | _ :: _ :: _ => exact beq_eq_false_iff_ne.mpr hp
    simp [atEscape, hc, hp, hs, bind, Except.bind, pure, Except.pure]

theorem loop_copy {s : List UInt8} (h : memory.drop nextch = c :: s ++ [0]) (hnul : 0 ∉ c :: s)
    (hs : startsEscape (c :: s) = false) (ht : target < memory.length) :
    unescapeLoop (fuel + 1) memory nextch target =
      unescapeLoop fuel (memory.set target c) (nextch + 1) (target + 1) := by
  have hc : readOctet memory nextch = .ok c := readOctet_ahead (i := 0) h rfl
  have hc0 : c ≠ 0 := fun h0 => hnul (by simp [h0])
  have he := atEscape_eq h (fun h0 => hnul (mem_cons_of_mem _ h0))
  simp [unescapeLoop, hc, hc0, he, hs, store_eq ht, bind, Except.bind]

theorem loop_escape {s : List UInt8} {next : Nat} {result : Int}
    (h : memory.drop nextch = 0x25 :: s ++ [0]) (hnul : 0 ∉ s)
    (hs : startsEscape (0x25 :: s) = true)
    (hd : sDecodeHex memory 2 (nextch + 1) 0 = .ok (next, result)) (ht : target < memory.length) :
    unescapeLoop (fuel + 1) memory nextch target =
      unescapeLoop fuel (memory.set target (UInt8.ofInt result)) next (target + 1) := by
  have hc : readOctet memory nextch = .ok 0x25 := readOctet_ahead (i := 0) h rfl
  have he := atEscape_eq h hnul
  simp [unescapeLoop, hc, he, hs, hd, store_eq ht, bind, Except.bind]

/-- The run ends, and leaves `out` at the target. -/
def Leaves (memory : List UInt8) (target : Nat) (out : List UInt8)
    (run : Except Violation (List UInt8 × Nat)) : Prop :=
  ∃ memory' target', run = .ok (memory', target') ∧ memory'.length = memory.length ∧
    memory'.take (target' + 1) = memory.take target ++ out ++ [0] ∧ target' < memory'.length

theorem take_set_succ (ht : target < memory.length) (octet : UInt8) :
    (memory.set target octet).take (target + 1) = memory.take target ++ [octet] := by
  rw [take_add_one, take_set_of_le (Nat.le_refl _), getElem?_set_self ht]
  rfl

theorem Leaves.cons {memory out : List UInt8} {target : Nat} {octet : UInt8}
    {run : Except Violation (List UInt8 × Nat)} (ht : target < memory.length)
    (h : Leaves (memory.set target octet) (target + 1) out run) :
    Leaves memory target (octet :: out) run := by
  obtain ⟨memory', target', hrun, hlen, htake, htarget⟩ := h
  refine ⟨memory', target', hrun, by rw [hlen, length_set], ?_, htarget⟩
  rw [htake, take_set_succ ht]
  simp

theorem loop_end (h : memory.drop nextch = [0]) (ht : target < memory.length) :
    Leaves memory target [] (unescapeLoop (fuel + 1) memory nextch target) := by
  have hc : readOctet memory nextch = .ok 0 := readOctet_ahead (i := 0) h rfl
  refine ⟨memory.set target 0, target, ?_, length_set, ?_, by rwa [length_set]⟩
  · simp [unescapeLoop, hc, store_eq ht, bind, Except.bind, pure, Except.pure]
  · rw [take_set_succ ht, append_nil]

theorem drop_set {ahead : List UInt8} (h : memory.drop nextch = ahead) (htarget : target ≤ nextch)
    (k : Nat) (octet : UInt8) :
    (memory.set target octet).drop (nextch + k + 1) = ahead.drop (k + 1) := by
  rw [List.drop_set, if_pos (by omega), ← h, List.drop_drop, Nat.add_assoc]

theorem lt_length {s : List UInt8} (h : memory.drop nextch = s ++ [0]) :
    nextch < memory.length := by
  have hlen := congrArg length h
  simp only [length_drop, length_append, length_singleton] at hlen
  omega

theorem loop_short : s.length < 3 → ∀ (memory : List UInt8) (nextch target fuel : Nat),
    memory.drop nextch = s ++ [0] → 0 ∉ s → target ≤ nextch → s.length < fuel →
    Leaves memory target s (unescapeLoop fuel memory nextch target) := by
  induction s with
  | nil =>
    intro _ memory nextch target fuel hdrop _ htarget hfuel
    obtain ⟨fuel, rfl⟩ : ∃ n, fuel = n + 1 := ⟨fuel - 1, by omega⟩
    have hlen := lt_length hdrop
    exact loop_end hdrop (by omega)
  | cons c s ih =>
    intro hshort memory nextch target fuel hdrop hnul htarget hfuel
    obtain ⟨fuel, rfl⟩ : ∃ n, fuel = n + 1 := ⟨fuel - 1, by omega⟩
    have hlen := lt_length hdrop
    simp only [length_cons] at hshort hfuel
    have hs : startsEscape (c :: s) = false := by
      match s with
      | [] | [_] => rfl
    rw [loop_copy hdrop hnul hs (by omega)]
    refine Leaves.cons (by omega) (ih (by omega) _ _ _ _ (drop_set hdrop htarget 0 _) ?_ (by omega)
      (by omega))
    exact fun h0 => hnul (mem_cons_of_mem _ h0)

/-- The loop writes what is decoded behind the target, never ahead of the source. -/
theorem unescapeLoop_leaves : ∀ (memory : List UInt8) (nextch target fuel : Nat),
    memory.drop nextch = s ++ [0] → 0 ∉ s → target ≤ nextch → s.length < fuel →
    Leaves memory target (decoded s) (unescapeLoop fuel memory nextch target) := by
  fun_induction decoded s with
  | case1 a b rest ha ih =>
    intro memory nextch target fuel hdrop hnul htarget hfuel
    obtain ⟨fuel, rfl⟩ : ∃ n, fuel = n + 1 := ⟨fuel - 1, by omega⟩
    have hlen := lt_length hdrop
    have hnul' : 0 ∉ a :: b :: rest := fun h0 => hnul (mem_cons_of_mem _ h0)
    have hd : sDecodeHex memory 2 (nextch + 1) 0 = .ok (nextch + 1, 0) := by
      rw [sDecodeHex_step (readOctet_ahead hdrop rfl) 1 0, ha]
    rw [loop_escape hdrop hnul' rfl hd (by omega)]
    refine Leaves.cons (by omega) (ih _ _ _ _ (drop_set hdrop htarget 0 _) hnul' (by omega) ?_)
    simp only [length_cons] at hfuel ⊢
    omega
  | case2 a b rest x hb ha ih =>
    intro memory nextch target fuel hdrop hnul htarget hfuel
    obtain ⟨fuel, rfl⟩ : ∃ n, fuel = n + 1 := ⟨fuel - 1, by omega⟩
    have hlen := lt_length hdrop
    have hnul' : 0 ∉ a :: b :: rest := fun h0 => hnul (mem_cons_of_mem _ h0)
    have hd : sDecodeHex memory 2 (nextch + 1) 0 = .ok (nextch + 2, 0 * 16 + x) := by
      rw [sDecodeHex_step (readOctet_ahead hdrop rfl) 1 0, ha]
      simp only
      rw [sDecodeHex_step (readOctet_ahead (i := 2) hdrop rfl) 0, hb]
    rw [loop_escape hdrop hnul' rfl hd (by omega), Int.zero_mul, Int.zero_add]
    refine Leaves.cons (by omega) (ih _ _ _ _ (drop_set hdrop htarget 1 _) ?_ (by omega) ?_)
    · exact fun h0 => hnul' (mem_cons_of_mem _ h0)
    · simp only [length_cons] at hfuel ⊢
      omega
  | case3 a b rest x y hb ha ih =>
    intro memory nextch target fuel hdrop hnul htarget hfuel
    obtain ⟨fuel, rfl⟩ : ∃ n, fuel = n + 1 := ⟨fuel - 1, by omega⟩
    have hlen := lt_length hdrop
    have hnul' : 0 ∉ a :: b :: rest := fun h0 => hnul (mem_cons_of_mem _ h0)
    have hd : sDecodeHex memory 2 (nextch + 1) 0 = .ok (nextch + 3, (0 * 16 + x) * 16 + y) := by
      rw [sDecodeHex_step (readOctet_ahead hdrop rfl) 1 0, ha]
      simp only
      rw [sDecodeHex_step (readOctet_ahead (i := 2) hdrop rfl) 0, hb]
      rfl
    rw [loop_escape hdrop hnul' rfl hd (by omega), Int.zero_mul, Int.zero_add]
    refine Leaves.cons (by omega) (ih _ _ _ _ (drop_set hdrop htarget 2 _) ?_ (by omega) ?_)
    · exact fun h0 => hnul' (mem_cons_of_mem _ (mem_cons_of_mem _ h0))
    · simp only [length_cons] at hfuel ⊢
      omega
  | case4 c a b rest hc ih =>
    intro memory nextch target fuel hdrop hnul htarget hfuel
    obtain ⟨fuel, rfl⟩ : ∃ n, fuel = n + 1 := ⟨fuel - 1, by omega⟩
    have hlen := lt_length hdrop
    have hs : startsEscape (c :: a :: b :: rest) = false := beq_eq_false_iff_ne.mpr hc
    rw [loop_copy hdrop hnul hs (by omega)]
    refine Leaves.cons (by omega) (ih _ _ _ _ (drop_set hdrop htarget 0 _) ?_ (by omega) ?_)
    · exact fun h0 => hnul (mem_cons_of_mem _ h0)
    · simp only [length_cons] at hfuel ⊢
      omega
  | case5 s hs =>
    refine loop_short s ?_
    match s with
    | [] | [_] | [_, _] => simp
    | c :: a :: b :: rest => exact (hs c a b rest rfl).elim

theorem unescapeUri_leaves (uri : CString) : ∃ memory target,
    unescapeUri uri = .ok (memory, target) ∧ memory.length = uri.octets.length + 1 ∧
      memory.take (target + 1) = decoded uri.octets ++ [0] ∧ target < memory.length := by
  obtain ⟨memory, target, hrun, hlen, htake, htarget⟩ :=
    unescapeLoop_leaves uri.octets (uri.octets ++ [0]) 0 0 (uri.octets.length + 1) rfl uri.noNul
      (Nat.le_refl 0) (Nat.lt_succ_self _)
  exact ⟨memory, target, hrun, by simpa using hlen, by simpa using htake, htarget⟩

theorem unescapes_eq (uri : CString) :
    Unescapes uri ↔ decoded uri.octets = unescaped uri.octets := by
  obtain ⟨memory, target, hrun, hlen, htake, htarget⟩ := unescapeUri_leaves uri
  constructor
  · rintro ⟨memory', target', hrun', -, htake', -⟩
    obtain ⟨rfl, rfl⟩ : memory = memory' ∧ target = target' := by
      rw [hrun] at hrun'
      simpa using hrun'
    exact append_cancel_right (htake.symm.trans htake')
  · intro heq
    exact ⟨memory, target, hrun, hlen, heq ▸ htake, htarget⟩

/-! ## Encoded strings -/

theorem Encodes.unescaped_eq {uri : List UInt8} (h : Encodes octets uri) :
    unescaped uri = octets := by
  induction h with
  | nil => rfl
  | plain c hc _ ih => rw [unescaped_cons_ne hc, ih]
  | escape a b x y ha hb _ ih => rw [unescaped_escape ha hb, ih]

theorem Encodes.escaped {uri : List UInt8} (h : Encodes octets uri) : Escaped uri := by
  induction h with
  | nil =>
    intro before a b after heq
    cases before <;> cases heq
  | plain c hc _ ih => exact (escaped_cons_ne hc _).mpr ih
  | escape a b x y ha hb _ ih => exact (escaped_escape ha hb _).mpr ih

theorem takeWhile_of_take {n : Nat} (h : memory.take n = octets ++ [0]) (hnul : 0 ∉ octets) :
    memory.takeWhile (· != 0) = octets := by
  have hsplit : memory = octets ++ 0 :: memory.drop n := by
    calc memory = memory.take n ++ memory.drop n := (take_append_drop n memory).symm
      _ = octets ++ 0 :: memory.drop n := by rw [h, append_assoc]; rfl
  have hne : ∀ c ∈ octets, (c != 0) = true := by
    intro c hc
    exact bne_iff_ne.mpr (fun h0 => hnul (h0 ▸ hc))
  rw [hsplit, takeWhile_append_of_pos hne]
  simp

/--
**Which strings are unescaped.** The function ends for every string and stays inside its memory.
It does what it should when no percent sign is followed by two characters that are not both
digits; this holds of every encoded string, which is decoded to what was encoded.
-/
theorem unescapes_iff (uri : CString) : (∃ memory target, unescapeUri uri = .ok (memory, target) ∧
      memory.length = uri.octets.length + 1 ∧ target < memory.length) ∧
    (Unescapes uri ↔ Escaped uri.octets) ∧
    ∀ s : CString, Encodes s.octets uri.octets → ∃ memory target,
      unescapeUri uri = .ok (memory, target) ∧ memory.takeWhile (· != 0) = s.octets := by
  refine ⟨?_, ?_, fun s h => ?_⟩
  · obtain ⟨memory, target, hrun, hlen, -, htarget⟩ := unescapeUri_leaves uri
    exact ⟨memory, target, hrun, hlen, htarget⟩
  · rw [unescapes_eq, decoded_eq_iff]
  · obtain ⟨memory, target, hrun, -, htake, -⟩ := unescapeUri_leaves uri
    rw [(decoded_eq_iff _).mpr h.escaped, h.unescaped_eq] at htake
    exact ⟨memory, target, hrun, takeWhile_of_take htake s.noNul⟩

/-- "%zz": the percent sign is lost, and the string ends in its place. -/
theorem percent_lost : ¬∀ uri : CString, Unescapes uri := by
  intro h
  have heq := (unescapes_eq ⟨[0x25, 0x7A, 0x7A], by decide⟩).mp (h _)
  exact absurd heq (by decide)

end Unescape

end OpenAmq
