import OpenAmq.Asl.Bounds
import OpenAmq.Lib.Split

/-!
# Tokens of a string

`ipr_token_split` cuts a string at white space, `ipr_token_split_rich` at any of a set of
delimiters. They are one loop with two tests, but the second test also holds of the
terminator.

* `split`, `splitRich` — the two functions, on the memory of the string
* `splits_iff` — for which strings these are the tokens
-/

namespace OpenAmq

open List

/-- `ipr_token_t` -/
structure Token where
  value : List UInt8
  bound : value.length ≤ shortstrMax
deriving DecidableEq

namespace Token

open Lib (runs runs_congr runs_append runs_word exists_word mem_of_mem_runs)

/-! ## The source -/

/-- `icl_shortstr_ncpy` into the value of a new token. -/
def ncpy (src : List UInt8) (size : Nat) : Token :=
  ⟨(src.takeWhile (· != 0)).take (min size shortstrMax),
    Nat.le_trans (length_take_le _ _) (Nat.min_le_right _ _)⟩

/-- `while (test (*pointer)) pointer++` -/
def scan (test : UInt8 → Bool) (memory : List UInt8) :
    (fuel : Nat) → (pointer : Nat) → Except Violation Nat
  | 0, _ => .error .unfinished
  | fuel + 1, pointer => do
    if test (← readOctet memory pointer) then scan test memory fuel (pointer + 1)
    else return pointer

/-- The loop over the words. `delim` is the test of the function. -/
def splitLoop (delim : UInt8 → Bool) (memory : List UInt8) :
    (fuel : Nat) → (wordStart : Nat) → (tokens : List Token) → Except Violation (List Token)
  | 0, _, _ => .error .unfinished
  | fuel + 1, wordStart, tokens => do
    if (← readOctet memory wordStart) ≠ 0 then
      let wordStart ← scan delim memory (memory.length + 1) wordStart
      let wordEnd ← scan (fun c => c != 0 && !delim c) memory (memory.length + 1) wordStart
      if wordEnd > wordStart then
        splitLoop delim memory fuel wordEnd
          (tokens ++ [ncpy (memory.drop wordStart) (wordEnd - wordStart)])
      else splitLoop delim memory fuel wordEnd tokens
    else return tokens

def isspace (c : UInt8) : Bool := c == 0x20 || (9 ≤ c && c ≤ 13)

/-- `strchr`: the terminator counts as a character of the string. -/
def strchr (s : CString) (c : UInt8) : Bool := (s.octets ++ [0]).contains c

/-- `ipr_token_split` -/
def split (string : CString) : Except Violation (List Token) :=
  splitLoop isspace (string.octets ++ [0]) (string.octets.length + 1) 0 []

/-- `ipr_token_split_rich` -/
def splitRich (string delims : CString) : Except Violation (List Token) :=
  splitLoop (strchr delims) (string.octets ++ [0]) (string.octets.length + 1) 0 []

/-! ## What they are for -/

/-- The values of the tokens are `words`. -/
def Gives (result : Except Violation (List Token)) (words : List (List UInt8)) : Prop :=
  ∃ tokens, result = .ok tokens ∧ tokens.map value = words

/-- The characters that `isspace` holds of. -/
def whiteSpace : CString := ⟨[0x20, 9, 10, 11, 12, 13], by decide⟩

/-- Each word has room in a token. -/
def Fits (words : List (List UInt8)) : Prop :=
  ∀ word ∈ words, word.length ≤ shortstrMax

def EndsInWord (delim : UInt8 → Bool) (s : List UInt8) : Prop :=
  ∀ c ∈ s.getLast?, delim c = false

/-! ## The scans -/

variable {front word : List UInt8} {c : UInt8} {pointer : Nat} {string : CString}

section Scan

variable {test : UInt8 → Bool} {memory : List UInt8}

theorem scan_append (front : List UInt8) : ∀ (back : List UInt8) (pointer fuel : Nat),
    memory.drop pointer = front ++ back → (∀ c ∈ front, test c = true) →
    scan test memory (fuel + front.length) pointer =
      scan test memory fuel (pointer + front.length) := by
  induction front with
  | nil => intros; rfl
  | cons c front ih =>
    intro back pointer fuel hdrop hfront
    have hread : readOctet memory pointer = .ok c := readOctet_ahead (i := 0) hdrop rfl
    have hc : test c = true := hfront c mem_cons_self
    have hnext : memory.drop (pointer + 1) = front ++ back := by
      rw [← drop_drop, hdrop]
      rfl
    have hstep : scan test memory (fuel + (c :: front).length) pointer =
        scan test memory (fuel + front.length) (pointer + 1) := by
      rw [length_cons, ← Nat.add_assoc, scan, hread]
      simp [bind, Except.bind, hc]
    rw [hstep, ih back _ fuel hnext fun d hd => hfront d (mem_cons_of_mem _ hd),
      length_cons, Nat.add_assoc, Nat.add_comm 1]

theorem scan_stops {back : List UInt8} {fuel : Nat}
    (hdrop : memory.drop pointer = front ++ c :: back) (hfront : ∀ d ∈ front, test d = true)
    (hc : test c = false) (hfuel : front.length < fuel) :
    scan test memory fuel pointer = .ok (pointer + front.length) := by
  obtain ⟨fuel, rfl⟩ : ∃ n, fuel = n + 1 + front.length := ⟨fuel - 1 - front.length, by omega⟩
  have hread : readOctet memory (pointer + front.length) = .ok c := readOctet_ahead hdrop (by simp)
  rw [scan_append front _ _ _ hdrop hfront, scan, hread]
  simp [bind, Except.bind, hc, pure, Except.pure]

theorem scan_overruns {fuel : Nat} (hdrop : memory.drop pointer = front)
    (hfront : ∀ d ∈ front, test d = true) (hfuel : front.length < fuel) :
    scan test memory fuel pointer = .error .read := by
  obtain ⟨fuel, rfl⟩ : ∃ n, fuel = n + 1 + front.length := ⟨fuel - 1 - front.length, by omega⟩
  have hread : readOctet memory (pointer + front.length) = .error .read := by
    have hnone : memory[pointer + front.length]? = none := by
      rw [← getElem?_drop, hdrop, getElem?_eq_none (Nat.le_refl _)]
    rw [readOctet, hnone]
  rw [scan_append front [] _ _ (by simpa using hdrop) hfront, scan, hread]
  rfl

end Scan

/-! ## The loop -/

def ofWord (word : List UInt8) : Token := ncpy word word.length

theorem value_ncpy {word back : List UInt8} (hnul : 0 ∉ word) :
    (ncpy (word ++ back) word.length).value = word.take shortstrMax := by
  have hne : ∀ c ∈ word, (c != 0) = true := by
    intro c hc
    exact bne_iff_ne.mpr (fun h0 => hnul (h0 ▸ hc))
  show ((word ++ back).takeWhile (· != 0)).take (min word.length shortstrMax) = _
  rw [takeWhile_append_of_pos hne, Nat.min_comm, ← take_take,
    take_append_of_le_length (Nat.le_refl _), take_length]

theorem value_ofWord (hnul : 0 ∉ word) : (ofWord word).value = word.take shortstrMax := by
  have h := @value_ncpy word [] hnul
  rwa [append_nil] at h

theorem eq_of_value_eq {a b : Token} (h : a.value = b.value) : a = b := by
  cases a
  cases b
  subst h
  rfl

section Loop

variable {delim : UInt8 → Bool} {memory : List UInt8} {wordStart : Nat} {s : List UInt8}

theorem loop_end (h : memory.drop wordStart = [0]) (fuel : Nat) (tokens : List Token) :
    splitLoop delim memory (fuel + 1) wordStart tokens = .ok tokens := by
  have hread : readOctet memory wordStart = .ok 0 := readOctet_ahead (i := 0) h rfl
  simp [splitLoop, hread, bind, Except.bind, pure, Except.pure]

theorem length_le_of_drop {ahead : List UInt8} (h : memory.drop pointer = ahead) :
    ahead.length ≤ memory.length := by
  rw [← h, length_drop]
  omega

/-- One turn of the loop takes the delimiters up to a word, and the word. -/
theorem loop_word {rest : List UInt8}
    (hdrop : memory.drop wordStart = front ++ (word ++ (rest ++ [0]))) (hnul : 0 ∉ front ++ word)
    (hfront : ∀ c ∈ front, delim c = true) (hne : word ≠ []) (hword : ∀ c ∈ word, delim c = false)
    (hrest : ∀ c ∈ rest.head?, delim c = true) (fuel : Nat) (tokens : List Token) :
    splitLoop delim memory (fuel + 1) wordStart tokens =
      splitLoop delim memory fuel (wordStart + front.length + word.length)
        (tokens ++ [ofWord word]) := by
  have hlen := length_le_of_drop hdrop
  simp only [length_append, length_singleton] at hlen
  have hnulWord : 0 ∉ word := fun h => hnul (mem_append_right _ h)
  have hdropWord : memory.drop (wordStart + front.length) = word ++ (rest ++ [0]) := by
    rw [← drop_drop, hdrop, drop_left]
  obtain ⟨octet, hread, hoctet⟩ : ∃ octet, readOctet memory wordStart = .ok octet ∧ octet ≠ 0 := by
    obtain ⟨octet, s, hs⟩ := exists_cons_of_ne_nil
      (show front ++ word ≠ [] from fun h => hne (append_eq_nil_iff.mp h).2)
    rw [← append_assoc, hs] at hdrop
    exact ⟨octet, readOctet_ahead (i := 0) hdrop rfl, fun h => hnul (by rw [hs, h]; simp)⟩
  have hstart : scan delim memory (memory.length + 1) wordStart =
      .ok (wordStart + front.length) := by
    obtain ⟨c, w, rfl⟩ := exists_cons_of_ne_nil hne
    exact scan_stops hdrop hfront (hword c mem_cons_self) (by omega)
  have hend : scan (fun c => c != 0 && !delim c) memory (memory.length + 1)
      (wordStart + front.length) = .ok (wordStart + front.length + word.length) := by
    have hpass : ∀ c ∈ word, (c != 0 && !delim c) = true := by
      intro c hc
      have hc0 : c ≠ 0 := fun h => hnulWord (h ▸ hc)
      simp [hc0, hword c hc]
    cases rest with
    | nil => exact scan_stops hdropWord hpass rfl (by omega)
    | cons d rest =>
      exact scan_stops hdropWord hpass (by simp [hrest d rfl]) (by omega)
  have hpos : 0 < word.length := length_pos_iff.mpr hne
  have htoken : ncpy (memory.drop (wordStart + front.length)) word.length = ofWord word := by
    apply eq_of_value_eq
    rw [hdropWord, value_ncpy hnulWord, value_ofWord hnulWord]
  rw [splitLoop, hread]
  simp only [bind, Except.bind]
  rw [if_pos hoctet, hstart]
  simp only
  rw [hend]
  simp only
  rw [if_pos (by omega), Nat.add_sub_cancel_left, htoken]

theorem loop_blank (h0 : delim 0 = false) (hdrop : memory.drop wordStart = s ++ [0])
    (hnul : 0 ∉ s) (hne : s ≠ []) (hs : ∀ c ∈ s, delim c = true) (fuel : Nat)
    (tokens : List Token) :
    splitLoop delim memory (fuel + 1) wordStart tokens =
      splitLoop delim memory fuel (wordStart + s.length) tokens := by
  have hlen := length_le_of_drop hdrop
  simp only [length_append, length_singleton] at hlen
  have hdropEnd : memory.drop (wordStart + s.length) = [] ++ 0 :: [] := by
    rw [← drop_drop, hdrop, drop_left]
    rfl
  obtain ⟨octet, hread, hoctet⟩ : ∃ octet, readOctet memory wordStart = .ok octet ∧ octet ≠ 0 := by
    obtain ⟨octet, t, rfl⟩ := exists_cons_of_ne_nil hne
    exact ⟨octet, readOctet_ahead (i := 0) hdrop rfl, fun h => hnul (by simp [h])⟩
  have hstart : scan delim memory (memory.length + 1) wordStart = .ok (wordStart + s.length) :=
    scan_stops hdrop hs h0 (by omega)
  have hend : scan (fun c => c != 0 && !delim c) memory (memory.length + 1)
      (wordStart + s.length) = .ok (wordStart + s.length) :=
    scan_stops hdropEnd (by simp) rfl (by simp)
  rw [splitLoop, hread]
  simp only [bind, Except.bind]
  rw [if_pos hoctet, hstart]
  simp only
  rw [hend]
  simp only
  rw [if_neg (by omega)]

theorem loop_overruns (h0 : delim 0 = true) (hdrop : memory.drop wordStart = s ++ [0])
    (hnul : 0 ∉ s) (hne : s ≠ []) (hs : ∀ c ∈ s, delim c = true) (fuel : Nat)
    (tokens : List Token) : splitLoop delim memory (fuel + 1) wordStart tokens = .error .read := by
  obtain ⟨c, s, rfl⟩ := exists_cons_of_ne_nil hne
  have hread : readOctet memory wordStart = .ok c := readOctet_ahead (i := 0) hdrop rfl
  have hc0 : c ≠ 0 := fun h => hnul (by simp [h])
  have hall : ∀ d ∈ c :: s ++ [0], delim d = true := by
    intro d hd
    rcases mem_append.mp hd with hd | hd
    · exact hs d hd
    · rw [mem_singleton.mp hd]
      exact h0
  have hscan := scan_overruns hdrop hall (Nat.lt_succ_of_le (length_le_of_drop hdrop))
  simp [splitLoop, hread, hc0, hscan, bind, Except.bind]

/-! ## The run -/

theorem endsInWord_append {rest : List UInt8} (hne : word ≠ [])
    (hword : ∀ c ∈ word, delim c = false) :
    EndsInWord delim (front ++ (word ++ rest)) ↔ EndsInWord delim rest := by
  have hfront : (front ++ (word ++ rest)).getLast? = (word ++ rest).getLast? :=
    getLast?_append_of_ne_nil _ (fun h => hne (append_eq_nil_iff.mp h).1)
  rw [EndsInWord, hfront]
  cases rest with
  | nil =>
    rw [append_nil]
    exact ⟨fun _ c hc => (by cases hc), fun _ c hc => hword c (mem_of_getLast? hc)⟩
  | cons d rest => rw [getLast?_append_of_ne_nil _ (cons_ne_nil _ _), EndsInWord]

theorem not_endsInWord (hne : s ≠ []) (hs : ∀ c ∈ s, delim c = true) : ¬EndsInWord delim s := by
  intro h
  have hlast := h _ (getLast?_eq_some_getLast hne)
  rw [hs _ (getLast_mem hne)] at hlast
  cases hlast

theorem loop_turn (hdrop : memory.drop wordStart = s ++ [0]) (hnul : 0 ∉ s) :
    (∀ c ∈ s, delim c = true) ∨ ∃ word rest next,
      (∀ fuel tokens, splitLoop delim memory (fuel + 1) wordStart tokens =
        splitLoop delim memory fuel next (tokens ++ [ofWord word])) ∧
      memory.drop next = rest ++ [0] ∧ 0 ∉ rest ∧ rest.length < s.length ∧
      runs delim s = word :: runs delim rest ∧ (EndsInWord delim s ↔ EndsInWord delim rest) := by
  rcases exists_word delim s with hall | ⟨front, word, rest, rfl, hfront, hne, hword, hrest⟩
  · exact .inl hall
  refine .inr ⟨word, rest, wordStart + front.length + word.length, ?_, ?_, ?_, ?_, ?_, ?_⟩
  · rw [append_assoc, append_assoc] at hdrop
    refine loop_word hdrop (fun h => hnul ?_) hfront hne hword hrest
    rw [← append_assoc]
    exact mem_append_left _ h
  · rw [← drop_drop, ← drop_drop, hdrop, append_assoc, append_assoc, drop_left, drop_left]
  · exact fun h => hnul (by simp [h])
  · have hpos := length_pos_iff.mpr hne
    simp only [length_append]
    omega
  · rw [runs_append hfront, runs_word hne hword hrest]
  · exact endsInWord_append hne hword

theorem splitLoop_eq (n : Nat) : ∀ (s : List UInt8) (wordStart fuel : Nat) (tokens : List Token),
    s.length = n → memory.drop wordStart = s ++ [0] → 0 ∉ s → s.length < fuel →
    delim 0 = false ∨ EndsInWord delim s →
    splitLoop delim memory fuel wordStart tokens = .ok (tokens ++ (runs delim s).map ofWord) := by
  induction n using Nat.strongRecOn with
  | ind n ih =>
    intro s wordStart fuel tokens hn hdrop hnul hfuel hsafe
    obtain ⟨fuel, rfl⟩ : ∃ n, fuel = n + 1 := ⟨fuel - 1, by omega⟩
    rcases eq_or_ne s [] with rfl | hs
    · rw [loop_end hdrop]
      simp [runs]
    rcases loop_turn hdrop hnul with
      hall | ⟨word, rest, next, hturn, hdropRest, hnulRest, hless, hruns, hends⟩
    · have h0 : delim 0 = false := hsafe.resolve_right (not_endsInWord hs hall)
      have hpos := length_pos_iff.mpr hs
      obtain ⟨fuel, rfl⟩ : ∃ n, fuel = n + 1 := ⟨fuel - 1, by omega⟩
      have hend : memory.drop (wordStart + s.length) = [0] := by
        rw [← drop_drop, hdrop, drop_left]
      rw [loop_blank h0 hdrop hnul hs hall, loop_end hend, ← append_nil s, runs_append hall]
      simp [runs]
    · rw [hturn, ih rest.length (by omega) rest next fuel _ rfl hdropRest hnulRest (by omega)
        (hsafe.imp_right hends.mp), hruns]
      simp

theorem splitLoop_overruns (h0 : delim 0 = true) (n : Nat) :
    ∀ (s : List UInt8) (wordStart fuel : Nat) (tokens : List Token),
    s.length = n → memory.drop wordStart = s ++ [0] → 0 ∉ s → s.length < fuel →
    ¬EndsInWord delim s → splitLoop delim memory fuel wordStart tokens = .error .read := by
  induction n using Nat.strongRecOn with
  | ind n ih =>
    intro s wordStart fuel tokens hn hdrop hnul hfuel hlast
    obtain ⟨fuel, rfl⟩ : ∃ n, fuel = n + 1 := ⟨fuel - 1, by omega⟩
    have hs : s ≠ [] := by
      rintro rfl
      exact hlast (fun c hc => by cases hc)
    rcases loop_turn hdrop hnul with
      hall | ⟨word, rest, next, hturn, hdropRest, hnulRest, hless, -, hends⟩
    · exact loop_overruns h0 hdrop hnul hs hall fuel tokens
    · rw [hturn]
      exact ih rest.length (by omega) rest next fuel _ rfl hdropRest hnulRest (by omega)
        (fun h => hlast (hends.mpr h))

end Loop

/-! ## The two functions -/

theorem split_eq (string : CString) :
    split string = .ok ((runs isspace string.octets).map ofWord) := by
  have h := @splitLoop_eq isspace (string.octets ++ [0]) _ string.octets 0
    (string.octets.length + 1) [] rfl rfl string.noNul (Nat.lt_succ_self _) (.inl rfl)
  rwa [nil_append] at h

theorem strchr_eq {s : CString} (hc : c ≠ 0) : strchr s c = s.octets.contains c := by
  simp [strchr, hc]

theorem strchr_of_mem (delims : CString) (hc : c ∈ string.octets) :
    strchr delims c = delims.octets.contains c :=
  strchr_eq fun h => string.noNul (h ▸ hc)

theorem strchr_nul (s : CString) : strchr s 0 = true := by
  simp [strchr]

theorem endsInWord_strchr (string delims : CString) : EndsInWord (strchr delims) string.octets ↔
      EndsInWord delims.octets.contains string.octets := by
  constructor
  · intro h c hc
    rw [← strchr_of_mem delims (mem_of_getLast? hc)]
    exact h c hc
  · intro h c hc
    rw [strchr_of_mem delims (mem_of_getLast? hc)]
    exact h c hc

theorem splitRich_eq {delims : CString} (h : EndsInWord delims.octets.contains string.octets) :
    splitRich string delims = .ok ((runs delims.octets.contains string.octets).map ofWord) := by
  have hrun := @splitLoop_eq (strchr delims) (string.octets ++ [0]) _
    string.octets 0 (string.octets.length + 1) [] rfl rfl string.noNul (Nat.lt_succ_self _)
    (.inr ((endsInWord_strchr string delims).mpr h))
  rw [nil_append, runs_congr fun c hc => strchr_of_mem delims hc] at hrun
  exact hrun

theorem splitRich_overruns {delims : CString}
    (h : ¬EndsInWord delims.octets.contains string.octets) :
    splitRich string delims = .error .read :=
  splitLoop_overruns (strchr_nul delims) _ _ _ _ _ rfl rfl string.noNul (Nat.lt_succ_self _)
    (fun hends => h ((endsInWord_strchr string delims).mp hends))

theorem gives_iff {delim : UInt8 → Bool} :
    Gives (.ok ((runs delim string.octets).map ofWord)) (runs delim string.octets) ↔
      Fits (runs delim string.octets) := by
  have hvalue : ∀ word ∈ runs delim string.octets,
      (value ∘ ofWord) word = id word ↔ word.length ≤ shortstrMax := by
    intro word hword
    show (ofWord word).value = word ↔ _
    rw [value_ofWord fun h => string.noNul (mem_of_mem_runs hword 0 h)]
    refine ⟨fun h => ?_, take_of_length_le⟩
    rw [← h]
    exact length_take_le _ _
  have hall : ((runs delim string.octets).map ofWord).map value = runs delim string.octets ↔
      Fits (runs delim string.octets) := by
    conv_lhs => rw [map_map, ← map_id (runs delim string.octets), map_map]
    rw [Function.comp_id, map_inj_left]
    exact forall₂_congr hvalue
  rw [← hall]
  constructor
  · rintro ⟨tokens, htokens, hwords⟩
    rwa [← Except.ok.inj htokens] at hwords
  · exact fun h => ⟨_, rfl, h⟩

theorem contains_whiteSpace : whiteSpace.octets.contains = isspace :=
  funext (Lib.forall_octet (by decide +kernel))

/--
**Which strings are split.** `split` gives the words of a string when these have room in a
token. `splitRich` does so too, unless the string ends with a delimiter: then it reads on
behind the string.
-/
theorem splits_iff (string delims : CString) : (∃ tokens, split string = .ok tokens) ∧
    (Gives (split string) (runs isspace string.octets) ↔ Fits (runs isspace string.octets)) ∧
    (Gives (splitRich string delims) (runs delims.octets.contains string.octets) ↔
      EndsInWord delims.octets.contains string.octets ∧
        Fits (runs delims.octets.contains string.octets)) ∧
    (splitRich string whiteSpace = split string ↔ EndsInWord isspace string.octets) := by
  refine ⟨⟨_, split_eq string⟩, ?_, ?_, ?_⟩
  · rw [split_eq]
    exact gives_iff
  · by_cases hends : EndsInWord delims.octets.contains string.octets
    · rw [splitRich_eq hends, gives_iff, and_iff_right hends]
    · rw [splitRich_overruns hends]
      exact ⟨fun ⟨_, h, _⟩ => (by cases h), fun h => absurd h.1 hends⟩
  · rw [split_eq, ← contains_whiteSpace]
    by_cases hends : EndsInWord whiteSpace.octets.contains string.octets
    · exact iff_of_true (splitRich_eq hends) hends
    · rw [splitRich_overruns hends]
      exact iff_of_false (by simp) hends

/-- " " with white space as the delimiters: the second scan starts behind the string. -/
theorem splits_differ : ¬∀ string, splitRich string whiteSpace = split string := by
  intro h
  exact absurd (h ⟨[0x20], by decide⟩) (by decide)

end Token

end OpenAmq
