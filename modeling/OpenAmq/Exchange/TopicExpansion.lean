import OpenAmq.Exchange.Model

/-!
# The room for a topic pattern

`s_topic_to_regexp` writes the regular expression of a binding octet by octet, through a pointer
into `binding->regexp`, which is an `icl_shortstr_t`.

* `sTopicToRegexp` — the loop of the source
* `Emits` — a step appends to the text, which `sTopicToRegexp_written` follows to the end
* `expansionSize` — the octets that a routing key expands to
* `expansion_bounded_iff` — nothing is written behind the short string if these are few enough
-/

namespace OpenAmq

open List Function

/-- The terminator -/
def nul : Char := Char.ofNat 0

/-- `to_ptr`, as an offset from `regexp`, and the octets written so far -/
structure Dest where
  toPtr : Nat
  mem : Nat → Option Char

namespace Dest

/-- Nothing has been written. -/
def start : Dest := ⟨0, fun _ => none⟩

/-- `*to_ptr++ = c` -/
def put (c : Char) (d : Dest) : Dest :=
  ⟨d.toPtr + 1, update d.mem d.toPtr (some c)⟩

/-- `strcpy (to_ptr, src)`, which does not move the pointer -/
def strcpy (src : Str) (d : Dest) : Dest :=
  ⟨d.toPtr, fun i =>
    if d.toPtr ≤ i ∧ i ≤ d.toPtr + src.length then (src ++ [nul])[i - d.toPtr]? else d.mem i⟩

/-- `to_ptr += n` -/
def advance (n : Nat) (d : Dest) : Dest :=
  { d with toPtr := d.toPtr + n }

end Dest

/-- The body of the loop, for one character of the topic -/
def topicStep (d : Dest) (c : Char) : Dest :=
  if c = '.' then (d.put '`').put '.'
  else if c = '*' then (d.strcpy wildcardSingle).advance wildcardSingle.length
  else if c = '#' then (d.strcpy wildcardMultiple).advance wildcardMultiple.length
  else if isprint c then d.put c
  else d

def sTopicToRegexp (topic : Str) : Dest :=
  ((topic.foldl topicStep (Dest.start.put '^')).put '$').put nul

def isCopied (c : Char) : Bool :=
  decide (c ≠ '.' ∧ c ≠ '*' ∧ c ≠ '#') && isprint c

def expansionSize (topic : Str) : Nat :=
  2 * topic.count '.' + 9 * topic.count '*' + 21 * topic.count '#' + topic.countP isCopied

/-! ## What has been written -/

/-- The text stands before the pointer, and at most one octet has been written behind it. -/
structure Written (d : Dest) (text : Str) : Prop where
  toPtr : d.toPtr = text.length
  before : ∀ i, i < text.length → d.mem i = text[i]?
  behind : ∀ i, text.length < i → d.mem i = none

/-- The step appends a text. -/
def Emits (f : Dest → Dest) (s : Str) : Prop :=
  ∀ d text, Written d text → Written (f d) (text ++ s)

theorem start_written : Written Dest.start [] where
  toPtr := rfl
  before i hi := absurd hi (Nat.not_lt_zero i)
  behind _ _ := rfl

variable (c : Char) (topic : Str)

theorem put_emits : Emits (Dest.put c) [c] := by
  intro d text h
  refine ⟨?_, ?_, ?_⟩
  · rw [length_append, ← h.toPtr]
    rfl
  · intro i hi
    rw [length_append, length_singleton] at hi
    rw [Dest.put, h.toPtr]
    rcases Nat.eq_or_lt_of_le (Nat.le_of_lt_succ hi) with rfl | hlt
    · simp
    · simp only [update_of_ne (Nat.ne_of_lt hlt), h.before i hlt, getElem?_append_left hlt]
  · intro i hi
    rw [length_append, length_singleton] at hi
    rw [Dest.put, h.toPtr]
    simp only [update_of_ne (show i ≠ text.length by omega)]
    exact h.behind i (by omega)

theorem put_none {d : Dest} {text : Str} (h : Written d text) (c : Char) {i : Nat}
    (hi : text.length < i) : (d.put c).mem i = none := by
  rw [Dest.put, h.toPtr]
  simp only [update_of_ne (Nat.ne_of_gt hi)]
  exact h.behind i hi

theorem wildcard_emits (src : Str) : Emits (fun d => (d.strcpy src).advance src.length) src := by
  intro d text h
  refine ⟨?_, ?_, ?_⟩
  · rw [length_append, ← h.toPtr]
    rfl
  · intro i hi
    rw [length_append] at hi
    simp only [Dest.advance, Dest.strcpy, h.toPtr]
    by_cases hle : text.length ≤ i
    · rw [if_pos ⟨hle, by omega⟩, getElem?_append_right hle, getElem?_append_left (by omega)]
    · rw [if_neg (fun hin => hle hin.1), h.before i (Nat.lt_of_not_le hle),
        getElem?_append_left (Nat.lt_of_not_le hle)]
  · intro i hi
    rw [length_append] at hi
    simp only [Dest.advance, Dest.strcpy, h.toPtr]
    rw [if_neg (by omega)]
    exact h.behind i (by omega)

theorem topicStep_emits : Emits (fun d => topicStep d c) (topicChar c) := by
  intro d text h
  show Written (topicStep d c) (text ++ topicChar c)
  rw [topicStep, topicChar]
  by_cases hdot : c = '.'
  · have hboth := put_emits '.' _ _ (put_emits '`' d text h)
    rw [append_assoc] at hboth
    rw [if_pos hdot, if_pos hdot]
    exact hboth
  rw [if_neg hdot, if_neg hdot]
  by_cases hstar : c = '*'
  · rw [if_pos hstar, if_pos hstar]
    exact wildcard_emits wildcardSingle d text h
  rw [if_neg hstar, if_neg hstar]
  by_cases hhash : c = '#'
  · rw [if_pos hhash, if_pos hhash]
    exact wildcard_emits wildcardMultiple d text h
  rw [if_neg hhash, if_neg hhash]
  by_cases hprint : isprint c
  · rw [if_pos hprint, if_pos hprint]
    exact put_emits c d text h
  · rw [if_neg hprint, if_neg hprint, append_nil]
    exact h

theorem foldl_topicStep_emits :
    Emits (fun d => topic.foldl topicStep d) (topic.flatMap topicChar) := by
  induction topic with
  | nil =>
    intro d text h
    rw [flatMap_nil, append_nil]
    exact h
  | cons c topic ih =>
    intro d text h
    have hrest := ih _ _ (topicStep_emits c d text h)
    rw [append_assoc] at hrest
    exact hrest

theorem sTopicToRegexp_written :
    Written ((topic.foldl topicStep (Dest.start.put '^')).put '$') (topicToRegexp topic) := by
  have hstart := put_emits '^' _ _ start_written
  have htopic := foldl_topicStep_emits topic _ _ hstart
  exact put_emits '$' _ _ htopic

theorem sTopicToRegexp_mem (i : Nat) :
    (sTopicToRegexp topic).mem i = (topicToRegexp topic ++ [nul])[i]? := by
  have h := sTopicToRegexp_written topic
  rcases Nat.lt_or_ge (topicToRegexp topic).length i with hlt | hle
  · rw [sTopicToRegexp, put_none h nul hlt, getElem?_eq_none]
    rw [length_append]
    exact hlt
  · have hall := (put_emits nul _ _ h).before i
    rw [length_append] at hall
    exact hall (Nat.lt_succ_of_le hle)

/-! ## How much is written -/

theorem length_topicChar : (topicChar c).length = expansionSize [c] := by
  rw [topicChar, expansionSize]
  by_cases hdot : c = '.'
  · subst hdot
    decide
  by_cases hstar : c = '*'
  · subst hstar
    decide
  by_cases hhash : c = '#'
  · subst hhash
    decide
  by_cases hprint : isprint c
  · simp [hdot, hstar, hhash, hprint, isCopied]
  · simp [hdot, hstar, hhash, hprint, isCopied]

theorem expansionSize_cons (topic : Str) :
    expansionSize (c :: topic) = expansionSize [c] + expansionSize topic := by
  have hcount : ∀ d : Char, (c :: topic).count d = [c].count d + topic.count d := fun d =>
    @count_append Char _ d [c] topic
  have hplain : (c :: topic).countP isCopied = [c].countP isCopied + topic.countP isCopied :=
    @countP_append Char isCopied [c] topic
  rw [expansionSize, expansionSize, expansionSize, hcount, hcount, hcount, hplain]
  omega

theorem length_flatMap_topicChar : (topic.flatMap topicChar).length = expansionSize topic := by
  induction topic with
  | nil => rfl
  | cons c topic ih =>
    rw [flatMap_cons, length_append, ih, length_topicChar, ← expansionSize_cons]

theorem length_topicToRegexp : (topicToRegexp topic).length = expansionSize topic + 2 := by
  rw [topicToRegexp, length_append, length_cons, length_flatMap_topicChar, length_singleton]

/--
Nothing is written behind the `ICL_SHORTSTR_MAX + 1` octets of the destination exactly when the
routing key expands to 253 octets at most.
-/
theorem expansion_bounded_iff (routingKey : Shortstr) :
    (∀ i, (sTopicToRegexp routingKey.chars).mem i ≠ none → i < shortstrMax + 1) ↔
      expansionSize routingKey.chars ≤ 253 := by
  have hmem : ∀ i, (sTopicToRegexp routingKey.chars).mem i ≠ none ↔
      i < expansionSize routingKey.chars + 3 := by
    intro i
    rw [sTopicToRegexp_mem, Ne, getElem?_eq_none_iff, Nat.not_le, length_append,
      length_topicToRegexp, length_singleton]
  constructor
  · intro h
    have hlast := h (expansionSize routingKey.chars + 2) ((hmem _).mpr (Nat.lt_succ_self _))
    rw [shortstrMax] at hlast
    omega
  · intro h i hi
    have hlt := (hmem i).mp hi
    rw [shortstrMax]
    omega

/-- A routing key of 13 wildcards -/
def thirteenHashes : Shortstr :=
  ⟨replicate 13 '#', by decide⟩

/-- Its regular expression takes 276 octets. -/
theorem thirteenHashes_overflow : (sTopicToRegexp thirteenHashes.chars).mem 275 = some nul ∧
      ¬ ∀ i, (sTopicToRegexp thirteenHashes.chars).mem i ≠ none → i < shortstrMax + 1 := by
  have hsize : (topicToRegexp thirteenHashes.chars).length = 275 := by
    rw [length_topicToRegexp]
    decide
  have hlast : (sTopicToRegexp thirteenHashes.chars).mem 275 = some nul := by
    rfl
  refine ⟨hlast, fun h => ?_⟩
  have hlt := h 275 (by rw [hlast]; exact Option.some_ne_none nul)
  rw [shortstrMax] at hlt
  omega

end OpenAmq
