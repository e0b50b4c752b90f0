import Mathlib.Data.List.Sublists
import OpenAmq.Icl
import OpenAmq.Lib.Fuel
import OpenAmq.Lib.Split
import OpenAmq.Lib.Transducer

/-!
# Templates

`ipr_dict_table_template` substitutes the symbols of a string. It replaces the last symbol of the
first line that has one, takes what it has pasted together for the string, and goes on until no
line has a symbol.

* `expand` — what a string stands for, read from the left
* `Safe`, `SafeString` — tables and strings for which the one gives the other
* `template_iff` — how far that goes
-/

namespace OpenAmq.Template

open Lib List Transducer

/-! ## The source -/

/-- `ipr_dict_table_t`: names and values. -/
abbrev Dict := List (Str × Str)

/-- `[A-Za-z0-9-_]` -/
def isName (c : Char) : Bool := c.isAlphanum || c == '-' || c == '_'

/-- An optional backslash is passed over. -/
def skipBackslash : Str → Str
  | '\\' :: s => s
  | s => s

/-- The regular expression on a line: the text before, the name and the text after. The first
group takes as much as it can, so it is the last symbol that matches. -/
def matchLine : Str → Option (Str × Str × Str)
  | [] => none
  | c :: line =>
    match matchLine line with
    | some (before, name, rest) => some (c :: before, name, rest)
    | none =>
      if c = '$' then some ([], line.takeWhile isName, skipBackslash (line.dropWhile isName))
      else none

/-- `ipr_regexp_match`: a dot does not match a newline, so one line matches, the first that
can. -/
def regexpMatch (string : Str) : Option (Str × Str × Str) :=
  (string.splitOn '\n').findSome? matchLine

def symbolValue (table : Dict) (name : Str) : Str :=
  if name = [] then ['\x01'] else (table.lookup name).getD []

/-- `ipr_str_subch (result, '\001', '$')` -/
def subch (s : Str) : Str := s.map fun c => if c = '\x01' then '$' else c

/-- `ipr_dict_table_template`, for so many rounds of its loop. -/
def templateLoop (table : Dict) : (fuel : Nat) → Str → Option Str
  | 0, _ => none
  | fuel + 1, string =>
    match regexpMatch string with
    | none => some (subch string)
    | some (before, name, rest) =>
      templateLoop table fuel (before ++ symbolValue table name ++ rest)

/-! ## What it is for -/

/-- What a character does, where the symbol that is being read, if any, has the name that the
state holds. -/
def nextSymbol (value : Str → Str) : Option Str → Char → Str × Option Str
  | none, c => if c = '$' then ([], some []) else ([c], none)
  | some name, c =>
    if isName c then ([], some (name ++ [c]))
    else if c = '\\' then (value name, none)
    else if c = '$' then (value name, some [])
    else (value name ++ [c], none)

def symbols (value : Str → Str) : Transducer (Option Str) Char Char where
  next := nextSymbol value
  finish st := (st.map value).getD []

/-- A string with its symbols replaced. -/
abbrev expand (value : Str → Str) : Option Str → Str → Str := (symbols value).output

/-- The symbol that is still being read after a string. -/
abbrev openSymbol (s : Str) : Option Str := (symbols id).after none s

/-- The value of a symbol, where one without a name stands for the dollar sign. -/
def meantValue (table : Dict) (name : Str) : Str :=
  if name = [] then ['$'] else (table.lookup name).getD []

/-- The loop comes to an end, with each symbol replaced and all other text in place. -/
def Expands (table : Dict) (string : Str) : Prop :=
  Settles (templateLoop table · string) (expand (meantValue table) none string)

/-- The text begins as the name of a symbol can go on. -/
def Extends (s : Str) : Prop := ∃ c ∈ s.head?, isName c = true ∨ c = '\\'

/-- Each dollar sign is one that stands for itself. -/
def Lone : Str → Prop
  | [] => True
  | c :: s => (c = '$' → ¬Extends s) ∧ Lone s

/-- The symbols of the string stay apart from each other and from what is put in for them: what
is put in from a symbol on
* has no symbols,
* does not go on with the name of a symbol that is open before it,
* is on the same line as the symbols that are left. -/
structure Safe (table : Dict) (string : Str) : Prop where
  unmarked : '\x01' ∉ expand (meantValue table) none string
  oneLine : '$' ∈ string → '\n' ∉ string
  lone : ∀ front back, string = front ++ '$' :: back →
    Lone (expand (symbolValue table) (some []) back)
  apart : ∀ front back, string = front ++ '$' :: back → openSymbol front ≠ none →
    ¬Extends (expand (symbolValue table) (some []) back)
  sameLine : ∀ front back, string = front ++ '$' :: back →
    '$' ∈ front ∨ '$' ∈ expand (symbolValue table) (some []) back →
    '\n' ∉ expand (symbolValue table) (some []) back

/-- Values without dollar signs, newlines and the mark that stands for a dollar sign. -/
def Plain (table : Dict) : Prop :=
  ∀ entry ∈ table, '$' ∉ entry.2 ∧ '\n' ∉ entry.2 ∧ '\x01' ∉ entry.2

/-- A string of one line, where a symbol with a name follows no symbol directly. -/
structure SafeString (string : Str) : Prop where
  unmarked : '\x01' ∉ string
  oneLine : '$' ∈ string → '\n' ∉ string
  apart : ∀ front c back, string = front ++ '$' :: c :: back → isName c = true →
    openSymbol front = none

/-! ## One round -/

theorem matchLine_eq_none {line : Str} (h : '$' ∉ line) : matchLine line = none := by
  induction line with
  | nil => rfl
  | cons c line ih =>
    rw [mem_cons, not_or] at h
    rw [matchLine, ih h.2]
    exact if_neg fun hc => h.1 hc.symm

variable {back name rest string s front out : Str} {value : Str → Str} {st : Option Str}
  {c : Char} {table : Dict}

theorem matchLine_append (h : '$' ∉ back) (front : Str) : matchLine (front ++ '$' :: back) =
      some (front, back.takeWhile isName, skipBackslash (back.dropWhile isName)) := by
  induction front with
  | nil =>
    rw [nil_append, matchLine, matchLine_eq_none h]
    exact if_pos rfl
  | cons c front ih => rw [cons_append, matchLine, ih]

theorem exists_last_dollar (s : Str) :
    '$' ∉ s ∨ ∃ front back, s = front ++ '$' :: back ∧ '$' ∉ back := by
  induction s with
  | nil => exact .inl not_mem_nil
  | cons c s ih =>
    obtain hs | ⟨front, back, rfl, hback⟩ := ih
    · by_cases hc : c = '$'
      · exact .inr ⟨[], s, by rw [hc, nil_append], hs⟩
      · exact .inl (by simp [hs, Ne.symm hc])
    · exact .inr ⟨c :: front, back, rfl, hback⟩

theorem skipBackslash_subset (s : Str) : skipBackslash s ⊆ s := by
  unfold skipBackslash
  split
  · exact subset_cons_self _ _
  · exact List.Subset.refl _

theorem mem_of_matchLine {line before : Str} (h : matchLine line = some (before, name, rest)) :
    before ⊆ line ∧ rest ⊆ line := by
  obtain hline | ⟨front, back, rfl, hback⟩ := exists_last_dollar line
  · rw [matchLine_eq_none hline] at h
    cases h
  · rw [matchLine_append hback] at h
    cases h
    refine ⟨subset_append_left _ _, fun c hc => ?_⟩
    have hc : c ∈ back := (dropWhile_suffix isName).subset (skipBackslash_subset _ hc)
    exact mem_append_right _ (mem_cons_of_mem _ hc)

theorem regexpMatch_of_line (h : '\n' ∉ string) : regexpMatch string = matchLine string := by
  have hsplit : string.splitOn '\n' = [string] := by
    exact splitOnP_eq_singleton fun c hc => by
      rw [beq_eq_false_iff_ne]
      rintro rfl
      exact h hc
  rw [regexpMatch, hsplit, findSome?_singleton]

theorem regexpMatch_eq_none (h : '$' ∉ string) : regexpMatch string = none := by
  rw [regexpMatch, findSome?_eq_none_iff]
  exact fun line hline => matchLine_eq_none fun hd => h ((mem_of_mem_splitOn hline).1 _ hd)

/-! ## Symbols -/

theorem isName_dollar : isName '$' = false := by decide

theorem after_symbols (value value' : Str → Str) (st : Option Str) (s : Str) :
    (symbols value).after st s = (symbols value').after st s := by
  induction s generalizing st with
  | nil => rfl
  | cons c s ih =>
    have hnext : (nextSymbol value st c).2 = (nextSymbol value' st c).2 := by
      cases st with
      | none => rfl
      | some name =>
        simp only [nextSymbol]
        split_ifs <;> rfl
    show (symbols value).after (nextSymbol value st c).2 s = _
    rw [ih, hnext]
    rfl

theorem openSymbol_dollar (front text : Str) :
    openSymbol (front ++ '$' :: text) = (symbols id).after (some []) text := by
  rw [openSymbol, after_append]
  cases (symbols id).after none front with
  | none => rfl
  | some name =>
    show (symbols id).after (nextSymbol id (some name) '$').2 text = _
    rfl

theorem expand_text (h : '$' ∉ s) : expand value none s = s := by
  induction s with
  | nil => rfl
  | cons c s ih =>
    rw [mem_cons, not_or] at h
    have hnext : (symbols value).next none c = ([c], none) := if_neg (Ne.symm h.1)
    rw [expand, output_cons, hnext]
    exact congrArg (c :: ·) (ih h.2)

theorem output_dollar (value : Str → Str) (st : Option Str) (back : Str) :
    expand value st ('$' :: back) = (symbols value).finish st ++ expand value (some []) back := by
  rw [expand, output_cons]
  cases st with
  | none => rfl
  | some name =>
    have hnext : (symbols value).next (some name) '$' = (value name, some []) := by
      simp [symbols, nextSymbol, isName_dollar]
    rfl

theorem expand_dollar (value : Str → Str) (st : Option Str) (front back : Str) :
    expand value st (front ++ '$' :: back) = expand value st front ++ expand value (some []) back :=
  output_append_of_finish _ (output_dollar _ _ _)

theorem expand_open (name : Str) (h : '$' ∉ s) : expand value (some name) s =
      value (name ++ s.takeWhile isName) ++ skipBackslash (s.dropWhile isName) := by
  induction s generalizing name with
  | nil =>
    rw [takeWhile_nil, append_nil, dropWhile_nil]
    exact (append_nil _).symm
  | cons c s ih =>
    rw [mem_cons, not_or] at h
    rw [expand, output_cons]
    show (nextSymbol value (some name) c).1 ++ expand value (nextSymbol value (some name) c).2 s = _
    by_cases hc : isName c = true
    · rw [nextSymbol, if_pos hc, ih _ h.2, takeWhile_cons_of_pos hc,
        dropWhile_cons_of_pos hc, append_assoc]
      rfl
    · rw [nextSymbol, if_neg hc, takeWhile_cons_of_neg hc, dropWhile_cons_of_neg hc, append_nil]
      by_cases hback : c = '\\'
      · rw [if_pos hback, expand_text h.2, hback]
        rfl
      · rw [if_neg hback, if_neg (Ne.symm h.1), expand_text h.2, append_assoc]
        have hskip : skipBackslash (c :: s) = c :: s := by
          unfold skipBackslash
          split
          · next heq => exact absurd (cons.inj heq).1 hback
          · rfl
        rw [hskip]
        rfl

theorem expand_open_of_not_extends (name : Str) (h : '$' ∉ s) (hs : ¬Extends s) :
    expand value (some name) s = value name ++ s := by
  cases s with
  | nil => rw [append_nil]; rfl
  | cons c s =>
    have hc : ¬(isName c = true ∨ c = '\\') := fun hc => hs ⟨c, rfl, hc⟩
    rw [not_or] at hc
    rw [mem_cons, not_or] at h
    have hnext : (symbols value).next (some name) c = (value name ++ [c], none) := by
      simp [symbols, nextSymbol, hc.1, hc.2, Ne.symm h.1]
    rw [expand, output_cons, hnext]
    show value name ++ [c] ++ expand value none s = _
    rw [expand_text h.2, append_assoc]
    rfl

theorem expand_append_text (value : Str → Str) (h : '$' ∉ s)
    (hs : (symbols id).after st front = none ∨ ¬Extends s) :
    expand value st (front ++ s) = expand value st front ++ s := by
  rw [after_symbols id value] at hs
  refine output_append_of_finish _ ?_
  cases hst : (symbols value).after st front with
  | none => exact expand_text h
  | some name =>
    rw [hst] at hs
    exact expand_open_of_not_extends name h (hs.resolve_left nofun)

theorem mem_expand (h : c ∈ expand value st s) : (c ∈ s ∧ c ≠ '$') ∨ ∃ name, c ∈ value name := by
  have hnext : ∀ st d, d ∈ s → ∀ c ∈ ((symbols value).next st d).1,
      (c ∈ s ∧ c ≠ '$') ∨ ∃ name, c ∈ value name := by
    intro st d hd c hc
    cases st with
    | none =>
      simp only [symbols, nextSymbol] at hc
      split_ifs at hc with hdollar
      · cases hc
      · obtain rfl := mem_singleton.mp hc
        exact .inl ⟨hd, hdollar⟩
    | some name =>
      simp only [symbols, nextSymbol] at hc
      split_ifs at hc with _ _ hdollar
      · cases hc
      · exact .inr ⟨name, hc⟩
      · exact .inr ⟨name, hc⟩
      · rcases mem_append.mp hc with hc | hc
        · exact .inr ⟨name, hc⟩
        · obtain rfl := mem_singleton.mp hc
          exact .inl ⟨hd, hdollar⟩
  have hfinish : ∀ st, ∀ c ∈ (symbols value).finish st,
      (c ∈ s ∧ c ≠ '$') ∨ ∃ name, c ∈ value name := by
    intro st c hc
    cases st with
    | none => cases hc
    | some name => exact .inr ⟨name, hc⟩
  exact forall_mem_output _ hnext hfinish (fun _ hd => hd) st c h

theorem dollar_not_mem_expand (h : ∀ name, '$' ∉ value name) (st : Option Str) (s : Str) :
    '$' ∉ expand value st s := by
  intro hd
  rcases mem_expand hd with hd | ⟨name, hd⟩
  · exact hd.2 rfl
  · exact h name hd

/-! ## A run that goes well -/

theorem templateLoop_dollar (table : Dict) (fuel : Nat) (hline : '\n' ∉ front ++ '$' :: back)
    (h : '$' ∉ back) :
    templateLoop table (fuel + 1) (front ++ '$' :: back) =
      templateLoop table fuel (front ++ expand (symbolValue table) (some []) back) := by
  rw [templateLoop, regexpMatch_of_line hline, matchLine_append h, expand_open [] h,
    nil_append, ← append_assoc]

/-- The dollar signs of a text, as the loop leaves them. -/
def mark (s : Str) : Str := s.map fun c => if c = '$' then '\x01' else c

theorem dollar_not_mem_mark (s : Str) : '$' ∉ mark s := by
  intro h
  obtain ⟨c, _, hc⟩ := mem_map.mp h
  split_ifs at hc with hd
  · exact absurd hc (by decide)
  · exact hd hc

theorem newline_mem_mark (h : '\n' ∈ mark s) : '\n' ∈ s := by
  obtain ⟨c, hmem, hc⟩ := mem_map.mp h
  split_ifs at hc with hd
  · exact absurd hc (by decide)
  · exact hc ▸ hmem

theorem not_extends_mark (h : ¬Extends s) : ¬Extends (mark s) := by
  rintro ⟨c, hc, hext⟩
  cases s with
  | nil => cases hc
  | cons d s =>
    obtain rfl : (if d = '$' then '\x01' else d) = c := Option.some.inj hc
    split_ifs at hext
    · exact absurd hext (by decide)
    · exact h ⟨d, rfl, hext⟩

theorem settles_mark (s : Str) : ∀ front, Lone s → ('$' ∈ s → '\n' ∉ front ++ s) →
    Settles (templateLoop table · (front ++ mark s)) out →
    Settles (templateLoop table · (front ++ s)) out := by
  induction s with
  | nil => exact fun _ _ _ h => h
  | cons c s ih =>
    intro front hlone hline h
    have hfront : front ++ c :: s = front ++ [c] ++ s := by simp
    rw [hfront]
    refine ih (front ++ [c]) hlone.2 (fun hd => hfront ▸ hline (mem_cons_of_mem _ hd)) ?_
    by_cases hc : c = '$'
    · obtain rfl := hc
      have hs : '\n' ∉ front ++ '$' :: mark s := fun hn => by
        refine hline mem_cons_self (mem_append.mpr ?_)
        refine (mem_append.mp hn).imp_right fun hn => ?_
        rcases mem_cons.mp hn with hn | hn
        · exact absurd hn (by decide)
        · exact mem_cons_of_mem _ (newline_mem_mark hn)
      have hround := fun fuel =>
        templateLoop_dollar table fuel hs (dollar_not_mem_mark s)
      rw [expand_open_of_not_extends [] (dollar_not_mem_mark s)
        (not_extends_mark (hlone.1 rfl))] at hround
      rw [append_assoc]
      exact h.succ hround
    · have hmark : front ++ [c] ++ mark s = front ++ mark (c :: s) := by
        rw [mark, mark, map_cons, if_neg hc, append_assoc]
        rfl
      rw [hmark]
      exact h

theorem mark_append (s t : Str) : mark (s ++ t) = mark s ++ mark t := map_append

theorem mark_mark (s : Str) : mark (mark s) = mark s := by
  rw [mark, mark, map_map]
  refine map_congr_left fun c _ => ?_
  split_ifs with hc <;> simp_all

theorem extends_of_mark {t : Str} (h : Extends (s ++ mark t)) : Extends (s ++ t) := by
  cases s with
  | nil => exact not_not.mp fun ht => not_extends_mark ht h
  | cons c s => exact h

theorem lone_of_not_mem (h : '$' ∉ s) : Lone s := by
  induction s with
  | nil => trivial
  | cons c s ih =>
    rw [mem_cons, not_or] at h
    exact ⟨fun hc => absurd hc.symm h.1, ih h.2⟩

theorem Lone.append_mark {t : Str} (h : Lone (s ++ t)) : Lone (s ++ mark t) := by
  induction s with
  | nil => exact lone_of_not_mem (dollar_not_mem_mark t)
  | cons c s ih => exact ⟨fun hc hext => h.1 hc (extends_of_mark hext), ih h.2⟩

theorem dollar_not_mem_takeWhile (s : Str) : '$' ∉ s.takeWhile (· != '$') := fun hd => by
  simpa using mem_takeWhile_imp hd

theorem head?_dropWhile_dollar (s : Str) : ∀ c ∈ (s.dropWhile (· != '$')).head?, c = '$' := by
  intro c hc
  have := head?_dropWhile_not (· != '$') s
  rw [hc] at this
  simpa using this

theorem expand_append (value : Str → Str) (st : Option Str) (text : Str)
    (hrest : ∀ c ∈ rest.head?, c = '$') :
    expand value st (text ++ rest) = expand value st text ++ expand value none rest := by
  cases rest with
  | nil =>
    rw [append_nil]
    exact (append_nil _).symm
  | cons c rest =>
    obtain rfl : c = '$' := hrest c rfl
    rw [expand_dollar, output_dollar value none rest]
    rfl

theorem settles_symbol {text : Str} (hsafe : Safe table string)
    (hstring : string = front ++ '$' :: (text ++ rest)) (htext : '$' ∉ text)
    (hrest : ∀ c ∈ rest.head?, c = '$')
    (h : Settles (templateLoop table ·
      (front ++ mark (expand (symbolValue table) (some []) (text ++ rest)))) out)
    :
    Settles (templateLoop table ·
      (front ++ '$' :: (text ++ mark (expand (symbolValue table) none rest)))) out := by
  have hexp := expand_append (symbolValue table) (some []) text hrest
  have hlone := hsafe.lone front _ hstring
  have hsame := hsafe.sameLine front _ hstring
  have hline : '\n' ∉ string := hsafe.oneLine (by simp [hstring])
  rw [hexp] at h hlone hsame
  -- the symbol to the right is on the same line, and does not go on with the name
  have hnext : '\n' ∉ expand (symbolValue table) none rest ∧
      ((symbols id).after (some []) text = none ∨
        ¬Extends (expand (symbolValue table) none rest)) := by
    cases rest with
    | nil => exact ⟨not_mem_nil, .inr (by simp [symbols, Extends])⟩
    | cons c rest =>
      obtain rfl : c = '$' := hrest c rfl
      have hstring' : string = (front ++ '$' :: text) ++ '$' :: rest := by simp [hstring]
      refine ⟨hsafe.sameLine _ _ hstring' (.inl (by simp)), ?_⟩
      by_cases hopen : (symbols id).after (some []) text = none
      · exact .inl hopen
      · exact .inr (hsafe.apart _ _ hstring' ((openSymbol_dollar front text).trans_ne hopen))
  generalize expand (symbolValue table) none rest = after at *
  have hput := expand_append_text (symbolValue table) (dollar_not_mem_mark after)
    (hnext.2.imp_right not_extends_mark)
  have hmark : Settles (templateLoop table ·
      (front ++ (expand (symbolValue table) (some []) text ++ mark after))) out := by
    refine settles_mark _ front hlone.append_mark (fun hd => ?_) ?_
    · have hd : '$' ∈ expand (symbolValue table) (some []) text :=
        (mem_append.mp hd).resolve_right (dollar_not_mem_mark _)
      have hnone := hsame (.inr (mem_append_left _ hd))
      rw [mem_append, not_or] at hnone
      simp only [mem_append, not_or]
      exact ⟨fun hn => hline (by simp [hstring, hn]), hnone.1,
        fun hn => hnone.2 (newline_mem_mark hn)⟩
    · rwa [mark_append, mark_mark, ← mark_append]
  rw [← hput] at hmark
  refine hmark.succ fun fuel => templateLoop_dollar table fuel ?_ ?_
  · have hfront : '\n' ∉ front := fun hn => hline (by simp [hstring, hn])
    have htext : '\n' ∉ text := fun hn => hline (by simp [hstring, hn])
    have hafter : '\n' ∉ mark after := fun hn => hnext.1 (newline_mem_mark hn)
    simp [hfront, htext, hafter]
  · simp [htext, dollar_not_mem_mark]

/-- The symbols from a place of the string on are replaced, and the text before it is as it
was. -/
theorem settles_rest (hsafe : Safe table string) (back : Str) : ∀ front, string = front ++ back →
    Settles (templateLoop table · (front ++ (back.takeWhile (· != '$') ++
      mark (expand (symbolValue table) none (back.dropWhile (· != '$')))))) out →
    Settles (templateLoop table · (front ++ back)) out := by
  induction back with
  | nil =>
    intro front _ h
    exact h
  | cons c back ih =>
    intro front hstring h
    have hfront : front ++ c :: back = front ++ [c] ++ back := by simp
    rw [hfront]
    refine ih (front ++ [c]) (hstring.trans hfront) ?_
    rw [append_assoc, singleton_append]
    by_cases hc : c = '$'
    · obtain rfl := hc
      refine settles_symbol hsafe ?_ (dollar_not_mem_takeWhile back)
        (head?_dropWhile_dollar back) ?_
      · rw [takeWhile_append_dropWhile, hstring]
      · rw [takeWhile_append_dropWhile]
        exact h
    · rw [takeWhile_cons_of_pos (by simpa using hc), dropWhile_cons_of_pos (by simpa using hc)] at h
      exact h

theorem subch_append (s t : Str) : subch (s ++ t) = subch s ++ subch t := map_append

theorem subch_of_not_mem (h : '\x01' ∉ s) : subch s = s := by
  induction s with
  | nil => rfl
  | cons c s ih =>
    rw [mem_cons, not_or] at h
    rw [subch, map_cons, if_neg (Ne.symm h.1)]
    exact congrArg (c :: ·) (ih h.2)

theorem subch_mark (s : Str) : subch (mark s) = subch s := by
  rw [subch, mark, map_map]
  refine map_congr_left fun c _ => ?_
  show (if (if c = '$' then '\x01' else c) = '\x01' then '$' else _) = _
  by_cases hc : c = '$'
  · rw [if_pos hc, if_pos rfl, hc]
    rfl
  · rw [if_neg hc]

theorem subch_expand (h : '\x01' ∉ expand (meantValue table) st s) :
    subch (expand (symbolValue table) st s) = expand (meantValue table) st s := by
  have hvalue : ∀ name, '\x01' ∉ meantValue table name →
      subch (symbolValue table name) = meantValue table name := by
    intro name hname
    by_cases hn : name = []
    · subst hn
      rfl
    · rw [meantValue, if_neg hn] at hname ⊢
      rw [symbolValue, if_neg hn, subch_of_not_mem hname]
  induction s generalizing st with
  | nil =>
    cases st with
    | none => rfl
    | some name => exact hvalue name h
  | cons c s ih =>
    rw [expand, output_cons, mem_append, not_or] at h
    rw [expand, output_cons, subch_append, expand, output_cons]
    have hstate : ((symbols (symbolValue table)).next st c).2 =
        ((symbols (meantValue table)).next st c).2 := after_symbols _ _ st [c]
    rw [hstate, ih h.2]
    refine congrArg (· ++ _) ?_
    have hnext := h.1
    cases st with
    | none =>
      simp only [symbols, nextSymbol] at hnext ⊢
      split_ifs at hnext ⊢
      · rfl
      · exact subch_of_not_mem hnext
    | some name =>
      simp only [symbols, nextSymbol] at hnext ⊢
      split_ifs at hnext ⊢
      · rfl
      · exact hvalue name hnext
      · exact hvalue name hnext
      · rw [mem_append, not_or] at hnext
        rw [subch_append, hvalue name hnext.1, subch_of_not_mem hnext.2]

theorem Safe.expands (h : Safe table string) : Expands table string := by
  refine settles_rest h string [] rfl ?_
  refine Settles.of_add 1 fun fuel => ?_
  have htext := dollar_not_mem_takeWhile string
  rw [nil_append, templateLoop, regexpMatch_eq_none (by simp [htext, dollar_not_mem_mark])]
  refine congrArg some ?_
  calc subch (string.takeWhile (· != '$') ++
        mark (expand (symbolValue table) none (string.dropWhile (· != '$'))))
      = subch (expand (symbolValue table) none string) := by
        conv_rhs => rw [← takeWhile_append_dropWhile (p := (· != '$')) (l := string)]
        rw [expand_append _ _ _ (head?_dropWhile_dollar string), expand_text htext,
          subch_append, subch_append, subch_mark]
    _ = expand (meantValue table) none string := subch_expand h.unmarked

/-! ## Runs that go wrong -/

theorem mem_expand_of_mem (h : c ∈ s) (hname : isName c = false) (hback : c ≠ '\\')
    (hdollar : c ≠ '$') : c ∈ expand value st s := by
  induction s generalizing st with
  | nil => cases h
  | cons d s ih =>
    rw [expand, output_cons]
    rcases mem_cons.mp h with rfl | h
    · refine mem_append_left _ ?_
      cases st with
      | none => simp [symbols, nextSymbol, hdollar]
      | some name => simp [symbols, nextSymbol, hname, hback, hdollar]
    · exact mem_append_right _ (ih h)

theorem not_mem_of_templateLoop (fuel : Nat) : ∀ string,
    templateLoop table fuel string = some out → '\x01' ∉ out := by
  induction fuel with
  | zero => exact fun _ h => (Option.some_ne_none _ h.symm).elim
  | succ fuel ih =>
    intro string h
    rw [templateLoop] at h
    split at h
    · cases h
      intro hmem
      obtain ⟨c, _, hc⟩ := mem_map.mp hmem
      split_ifs at hc with hd
      · exact absurd hc (by decide)
      · exact hd hc
    · exact ih _ h

theorem Expands.unmarked (h : Expands table string) :
    '\x01' ∉ expand (meantValue table) none string := by
  obtain ⟨fuel, hfuel⟩ := h
  exact not_mem_of_templateLoop fuel string (hfuel fuel (Nat.le_refl _))

theorem newline_of_regexpMatch {before : Str} (h : regexpMatch string = some (before, name, rest)) :
    '\n' ∉ before ∧ '\n' ∉ rest := by
  obtain ⟨line, hline, hmatch⟩ := exists_of_findSome?_eq_some h
  have hsub := mem_of_matchLine hmatch
  have hnone := (mem_of_mem_splitOn hline).2
  exact ⟨fun hn => hnone (hsub.1 hn), fun hn => hnone (hsub.2 hn)⟩

theorem dollar_of_regexpMatch (h : regexpMatch string = none) : '$' ∉ string := by
  intro hd
  rw [regexpMatch, findSome?_eq_none_iff] at h
  obtain ⟨line, hline, hmem⟩ := exists_mem_splitOn hd (show '$' ≠ '\n' by decide)
  obtain hnone | ⟨front, back, rfl, hback⟩ := exists_last_dollar line
  · exact hnone hmem
  · have := h _ hline
    rw [matchLine_append hback] at this
    cases this

theorem newline_of_templateLoop (hvalue : ∀ name, '\n' ∉ symbolValue table name) (fuel : Nat) :
    ∀ string,
    ('$' ∈ string ∨ '\n' ∉ string) → templateLoop table fuel string = some out →
    '\n' ∉ out := by
  induction fuel with
  | zero => exact fun _ _ h => (Option.some_ne_none _ h.symm).elim
  | succ fuel ih =>
    intro string hstring h
    rw [templateLoop] at h
    split at h
    · next hmatch =>
      cases h
      have hline := hstring.resolve_left (dollar_of_regexpMatch hmatch)
      intro hmem
      obtain ⟨c, hc, hn⟩ := mem_map.mp hmem
      split_ifs at hn
      · exact absurd hn (by decide)
      · exact hline (hn ▸ hc)
    · next before name rest hmatch =>
      have hparts := newline_of_regexpMatch hmatch
      refine ih _ (.inr ?_) h
      simp [hparts.1, hparts.2, hvalue name]

theorem symbolValue_forall {p : Str → Prop} (hnil : p []) (hmark : p ['\x01'])
    (htable : ∀ entry ∈ table, p entry.2) (name : Str) : p (symbolValue table name) := by
  unfold symbolValue
  split
  · exact hmark
  · cases hv : table.lookup name with
    | none => exact hnil
    | some value =>
      obtain ⟨l, m, rfl, _⟩ := lookup_eq_some_iff.mp hv
      exact htable (name, value) (by simp)

/-! ### Joined symbols -/

/-- The length of a string, when each symbol is one character -/
def size (st : Option Str) (s : Str) : Nat := (expand (fun _ => ['a']) st s).length

theorem size_dollar (front : Str) (h : '$' ∉ back) : size none (front ++ '$' :: back) =
      size none front + (1 + (skipBackslash (back.dropWhile isName)).length) := by
  rw [size, size, expand_dollar, length_append, expand_open [] h, length_append]
  rfl

theorem length_skipBackslash_le (s : Str) : (skipBackslash s).length ≤ s.length := by
  unfold skipBackslash
  split
  · exact Nat.le_succ _
  · exact Nat.le_refl _

theorem length_skip_lt (h : Extends s) :
    (skipBackslash (s.dropWhile isName)).length < s.length := by
  obtain ⟨c, hc, hext⟩ := h
  cases s with
  | nil => cases hc
  | cons d s =>
    obtain rfl : d = c := Option.some.inj hc
    have hdrop : (s.dropWhile isName).length ≤ s.length := (dropWhile_suffix _).length_le
    rcases hext with hname | rfl
    · rw [dropWhile_cons_of_pos hname, length_cons]
      have := length_skipBackslash_le (s.dropWhile isName)
      omega
    · exact Nat.lt_succ_self _

theorem length_skip_le (s : Str) : (skipBackslash (s.dropWhile isName)).length ≤ s.length :=
  (length_skipBackslash_le _).trans (dropWhile_suffix _).length_le

theorem size_append (front : Str) (h : '$' ∉ s) : size none (front ++ s) = size none front +
      (if openSymbol front = none then s else skipBackslash (s.dropWhile isName)).length := by
  rw [size, size, ← length_append]
  refine congrArg length (output_append_of_finish _ ?_)
  rw [openSymbol, after_symbols id fun _ => ['a']]
  cases hst : (symbols fun _ => ['a']).after none front with
  | none => exact expand_text h
  | some name =>
    exact expand_open name h

theorem size_append_le (front : Str) {s : Str} (h : '$' ∉ s) :
    size none (front ++ s) ≤ size none front + s.length := by
  have hskip := length_skip_le s
  rw [size_append front h]
  split_ifs <;> omega

theorem size_append_lt {front s : Str} (h : '$' ∉ s) (hopen : openSymbol front ≠ none)
    (hs : Extends s) : size none (front ++ s) < size none front + s.length := by
  have hskip := length_skip_lt hs
  rw [size_append front h, if_neg hopen]
  omega

def Letters (table : Dict) : Prop := ∀ entry ∈ table, entry.2 = ['a']

theorem Letters.nil_or_letter (h : Letters table) (hname : name ≠ []) :
    symbolValue table name = [] ∨ symbolValue table name = ['a'] := by
  rw [symbolValue, if_neg hname]
  cases hv : table.lookup name with
  | none => exact .inl rfl
  | some value =>
    obtain ⟨l, m, rfl, _⟩ := lookup_eq_some_iff.mp hv
    exact .inr (h (name, value) (by simp))

theorem Letters.short (h : Letters table) (name : Str) :
    (symbolValue table name).length ≤ 1 ∧ '$' ∉ symbolValue table name ∧
      '\n' ∉ symbolValue table name := by
  by_cases hname : name = []
  · rw [symbolValue, if_pos hname]
    decide
  · rcases h.nil_or_letter hname with hv | hv
    · rw [hv]
      decide
    · rw [hv]
      decide

theorem size_round_le (h : Letters table) (front : Str) (hback : '$' ∉ back) :
    size none (front ++ expand (symbolValue table) (some []) back) ≤
      size none (front ++ '$' :: back) := by
  have hvalue := h.short (back.takeWhile isName)
  have hskip : '$' ∉ skipBackslash (back.dropWhile isName) := fun hd =>
    hback ((dropWhile_suffix isName).subset (skipBackslash_subset _ hd))
  rw [size_dollar front hback, expand_open [] hback, nil_append]
  have hle := @size_append_le front
    (symbolValue table (back.takeWhile isName) ++ skipBackslash (back.dropWhile isName))
    (by simp [hvalue.2.1, hskip])
  rw [length_append] at hle
  omega

theorem size_round_lt (h : Letters table) (hopen : openSymbol front ≠ none)
    (hname : isName c = true) (hback : '$' ∉ c :: back) :
    size none (front ++ expand (symbolValue table) (some []) (c :: back)) <
      size none (front ++ '$' :: c :: back) := by
  have hskip : '$' ∉ skipBackslash ((c :: back).dropWhile isName) := fun hd =>
    hback ((dropWhile_suffix isName).subset (skipBackslash_subset _ hd))
  have hne : (c :: back).takeWhile isName ≠ [] := by
    rw [takeWhile_cons_of_pos hname]
    exact cons_ne_nil _ _
  rw [size_dollar front hback, expand_open [] hback, nil_append]
  rcases h.nil_or_letter hne with hv | hv
  · rw [hv, nil_append]
    have := size_append_le front hskip
    omega
  · rw [hv]
    have hlt := @size_append_lt front (['a'] ++ skipBackslash ((c :: back).dropWhile isName))
      (by simp [hskip]) hopen ⟨'a', rfl, .inl (by decide)⟩
    rw [length_append, length_singleton] at hlt
    omega

theorem exists_round (h : Letters table) {fuel : Nat} (hline : '\n' ∉ front ++ '$' :: back)
    (hback : '$' ∉ back) (hrun : templateLoop table fuel (front ++ '$' :: back) = some out) :
    ∃ fuel', fuel' < fuel ∧
      templateLoop table fuel' (front ++ expand (symbolValue table) (some []) back) = some out ∧
      '\n' ∉ front ++ expand (symbolValue table) (some []) back := by
  cases fuel with
  | zero => cases hrun
  | succ fuel =>
    rw [templateLoop_dollar table fuel hline hback] at hrun
    refine ⟨fuel, Nat.lt_succ_self _, hrun, fun hn => ?_⟩
    simp only [mem_append, mem_cons, not_or] at hline hn
    rcases hn with hn | hn
    · exact hline.1 hn
    · rcases mem_expand hn with hn | ⟨name, hn⟩
      · exact hline.2.2 hn.1
      · exact (h.short name).2.2 hn

theorem length_le_size (h : Letters table) (fuel : Nat) :
    ∀ string, '\n' ∉ string → templateLoop table fuel string = some out →
    out.length ≤ size none string := by
  induction fuel using Nat.strong_induction_on with
  | _ fuel ih =>
    intro string hline hrun
    obtain hnone | ⟨front, back, rfl, hback⟩ := exists_last_dollar string
    · cases fuel with
      | zero => cases hrun
      | succ fuel =>
        rw [templateLoop, regexpMatch_eq_none hnone] at hrun
        cases hrun
        rw [size, expand_text hnone, subch, length_map]
    · obtain ⟨fuel', hlt, hrun', hline'⟩ := exists_round h hline hback hrun
      exact (ih fuel' hlt _ hline' hrun').trans (size_round_le h front hback)

theorem length_lt_size {table : Dict} (h : Letters table) {out front : Str} {c : Char}
    (hopen : openSymbol front ≠ none) (hname : isName c = true) (fuel : Nat) :
    ∀ back, '\n' ∉ front ++ '$' :: c :: back →
    templateLoop table fuel (front ++ '$' :: c :: back) = some out →
    out.length < size none (front ++ '$' :: c :: back) := by
  have hc : '$' ≠ c := by
    rintro rfl
    exact absurd hname (by decide)
  induction fuel using Nat.strong_induction_on with
  | _ fuel ih =>
    intro back hline hrun
    obtain hnone | ⟨middle, last, rfl, hlast⟩ := exists_last_dollar back
    · have hback : '$' ∉ c :: back := by simp [hc, hnone]
      obtain ⟨fuel', _, hrun', hline'⟩ := exists_round h hline hback hrun
      exact (length_le_size h fuel' _ hline' hrun').trans_lt (size_round_lt h hopen hname hback)
    · -- the last symbol is further to the right
      have hassoc : ∀ text : Str, front ++ '$' :: c :: (middle ++ text) =
          (front ++ '$' :: c :: middle) ++ text := by simp
      rw [hassoc] at hline hrun ⊢
      obtain ⟨fuel', hlt, hrun', hline'⟩ := exists_round h hline hlast hrun
      have hle := size_round_le h (front ++ '$' :: c :: middle) hlast
      rw [← hassoc] at hrun' hline' hle
      exact (ih fuel' hlt _ hline' hrun').trans_le hle

theorem length_expand (h : ∀ name, name.Sublist (st.getD [] ++ s) → (value name).length = 1) :
    (expand value st s).length = size st s := by
  induction s generalizing st with
  | nil =>
    cases st with
    | none => rfl
    | some name => exact h name (by simp)
  | cons c s ih =>
    rw [size, expand, output_cons, expand, output_cons, length_append, length_append]
    have hstate : ((symbols value).next st c).2 = ((symbols fun _ => ['a']).next st c).2 :=
      after_symbols _ _ st [c]
    have hlength : ((symbols value).next st c).1.length =
        ((symbols fun _ => ['a']).next st c).1.length := by
      cases st with
      | none => rfl
      | some name =>
        have hname := h name (sublist_append_left _ _)
        simp only [symbols, nextSymbol]
        split_ifs <;> simp [hname]
    have hnames : ∀ name, name.Sublist ((((symbols value).next st c).2).getD [] ++ s) →
        (value name).length = 1 := by
      refine fun name hname => h name (hname.trans ?_)
      cases st with
      | none | some name =>
        simp only [symbols, nextSymbol]
        split_ifs <;> simp
    rw [hlength, ih hnames, size, hstate]

/-- The table that has a letter for each name of a string -/
def letters (string : Str) : Dict := string.sublists.map (·, ['a'])

theorem letters_letters (string : Str) : Letters (letters string) := by
  intro entry hentry
  obtain ⟨name, _, rfl⟩ := mem_map.mp hentry
  rfl

theorem lookup_letters (h : name.Sublist string) : (letters string).lookup name = some ['a'] := by
  have hmem := mem_sublists.mpr h
  rw [letters]
  generalize string.sublists = names at hmem ⊢
  induction names with
  | nil => cases hmem
  | cons n names ih =>
    rw [map_cons, lookup_cons]
    by_cases hn : name = n
    · simp [hn]
    · rw [beq_false_of_ne hn]
      exact ih ((mem_cons.mp hmem).resolve_left hn)

/-! ## When templates are expanded -/

theorem Plain.not_mem (h : Plain table) (name : Str) :
    '$' ∉ symbolValue table name ∧ '\n' ∉ symbolValue table name :=
  symbolValue_forall (p := fun value => '$' ∉ value ∧ '\n' ∉ value) (by decide) (by decide)
    (fun entry hentry => ⟨(h entry hentry).1, (h entry hentry).2.1⟩) name

theorem Plain.unmarked (h : Plain table) (name : Str) : '\x01' ∉ meantValue table name := by
  unfold meantValue
  split
  · decide
  · cases hv : table.lookup name with
    | none => exact not_mem_nil
    | some value =>
      obtain ⟨l, m, rfl, _⟩ := lookup_eq_some_iff.mp hv
      exact (h (name, value) (by simp)).2.2

theorem expand_unnamed (table : Dict) (h : ∀ c ∈ s.head?, isName c = false) :
    ∃ t, expand (symbolValue table) (some []) s = '\x01' :: t := by
  cases s with
  | nil => exact ⟨[], rfl⟩
  | cons c s =>
    have hc := h c rfl
    rw [expand, output_cons]
    simp only [symbols, nextSymbol, hc, Bool.false_eq_true, if_false]
    split_ifs
    · exact ⟨_, rfl⟩
    · exact ⟨_, rfl⟩
    · exact ⟨_, rfl⟩

theorem SafeString.safe (hs : SafeString string) (h : Plain table) : Safe table string where
  unmarked hmem := by
    rcases mem_expand hmem with hmem | ⟨name, hmem⟩
    · exact hs.unmarked hmem.1
    · exact h.unmarked name hmem
  oneLine := hs.oneLine
  lone front back _ := lone_of_not_mem (dollar_not_mem_expand (fun name => (h.not_mem name).1) _ _)
  apart front back hstring hopen := by
    have hname : ∀ c ∈ back.head?, isName c = false := by
      intro c hc
      cases back with
      | nil => cases hc
      | cons d back =>
        obtain rfl : d = c := Option.some.inj hc
        rw [← Bool.not_eq_true]
        exact fun hname => hopen (hs.apart front d back hstring hname)
    obtain ⟨t, ht⟩ := expand_unnamed table hname
    rw [ht]
    rintro ⟨c, hc, hext⟩
    obtain rfl : '\x01' = c := Option.some.inj hc
    exact absurd hext (by decide)
  sameLine front back hstring _ hmem := by
    rcases mem_expand hmem with hmem | ⟨name, hmem⟩
    · exact hs.oneLine (by simp [hstring]) (by simp [hstring, hmem.1])
    · exact (h.not_mem name).2 hmem

theorem plain_nil : Plain [] := fun _ h => (not_mem_nil h).elim

theorem plain_letters (string : Str) : Plain (letters string) := by
  intro entry hentry
  rw [letters_letters string entry hentry]
  decide

theorem unmarked_of_expands (h : Expands [] string) : '\x01' ∉ string :=
  fun hmem => h.unmarked (mem_expand_of_mem hmem (by decide) (by decide) (by decide))

theorem oneLine_of_expands (h : Expands [] string) (hd : '$' ∈ string) : '\n' ∉ string := by
  obtain ⟨fuel, hfuel⟩ := h
  have hnone := newline_of_templateLoop (fun name => (plain_nil.not_mem name).2) fuel string
    (.inl hd) (hfuel fuel (Nat.le_refl _))
  exact fun hmem => hnone (mem_expand_of_mem hmem (by decide) (by decide) (by decide))

theorem apart_of_expands (h : Expands (letters string) string) (hline : '\n' ∉ string)
    (hstring : string = front ++ '$' :: c :: back) (hname : isName c = true) :
    openSymbol front = none := by
  obtain ⟨fuel, hfuel⟩ := h
  have hlength : (expand (meantValue (letters string)) none string).length = size none string := by
    refine length_expand fun name (hname : name.Sublist string) => ?_
    rw [meantValue]
    split_ifs
    · rfl
    · rw [lookup_letters hname]
      rfl
  have hrun := hfuel fuel (Nat.le_refl _)
  by_contra hopen
  have hlt : (expand (meantValue (letters string)) none string).length < size none string := by
    have := @length_lt_size (letters string) (letters_letters string)
      (expand (meantValue (letters string)) none string) front c hopen hname fuel back
    rw [← hstring] at this
    exact this hline hrun
  omega

/-- **Templates.** The loop gives what a string stands for where the symbols stay apart. It does
so with all plain values only for strings of one line, or without symbols, in which no symbol
with a name follows another symbol directly. -/
theorem template_iff (table : Dict) (string : Str) : (Safe table string → Expands table string) ∧
    (Expands table string → '\x01' ∉ expand (meantValue table) none string) ∧
    ((∀ plain, Plain plain → Expands plain string) ↔ SafeString string) := by
  refine ⟨Safe.expands, Expands.unmarked, fun h => ?_, fun hs plain hplain =>
    (hs.safe hplain).expands⟩
  have hnil := h [] plain_nil
  refine ⟨unmarked_of_expands hnil, oneLine_of_expands hnil, ?_⟩
  intro front c back hstring hname
  have hline := oneLine_of_expands hnil (by simp [hstring])
  exact apart_of_expands (h _ (plain_letters string)) hline hstring hname

/-- A name that ends with a backslash, and a dollar sign that stands for itself -/
theorem template_sample : Expands [(['a'], ['5', '-'])] ['$', 'a', '\\', 'x', '$', '\\'] := by
  refine (template_iff [] _).2.2.mpr ⟨by decide, by decide, ?_⟩ _ (by simp [Plain])
  intro front c back h hname
  match front with
  | [] => rfl
  | [_, _, _, _] =>
    obtain rfl : '\\' = c := Option.some.inj (congrArg (·[5]?) h)
    exact absurd hname (by decide)
  | [_] | [_, _] | [_, _, _] => simp at h
  | _ :: _ :: _ :: _ :: _ :: _ =>
    have hlength := congrArg length h
    simp at hlength
    omega

/-- Another line is lost, and a value with a symbol of its own name is put in forever. -/
theorem template_fails : ¬Expands [] ['x', '\n', '$', 'a'] ∧
    ∀ out, ¬Settles (templateLoop [(['a'], ['$', 'a'])] · ['$', 'a']) out := by
  constructor
  · intro h
    have hlost : Settles (templateLoop [] · ['x', '\n', '$', 'a']) [] :=
      Settles.of_add 2 fun _ => rfl
    exact absurd (h.unique hlost) (by decide)
  · rintro out ⟨n, h⟩
    have hnone : ∀ fuel, templateLoop [(['a'], ['$', 'a'])] fuel ['$', 'a'] = none := by
      intro fuel
      induction fuel with
      | zero => rfl
      | succ fuel ih => exact ih
    cases (hnone n).symm.trans (h n (Nat.le_refl n))

end OpenAmq.Template
