import OpenAmq.Asl.Bounds
import OpenAmq.Ipr
import OpenAmq.Lib.Pattern

/-!
# Glob patterns

`ipr_str_matches` turns a glob pattern into a regular expression and matches the string with
that.

* `globToRegexp` — the expression, in the memory that is allocated for it
* `matched_iff` — what the expression matches: the wildcards pass over a newline, and one at
  the end does not count
* `matches_iff` — for which strings that is the same
-/

namespace OpenAmq

open List

open Lib (Pattern readPattern readFrom Group)

namespace Glob

/-! ## The source -/

/-- `*regexp++ = c`, in a memory of `size` characters. -/
def put (size : Nat) (regexp : Str) (c : Char) : Except Violation Str :=
  if regexp.length < size then .ok (regexp ++ [c]) else .error .write

/-- The characters that one of the pattern is converted to. -/
def globChar (c : Char) : Str :=
  if c = '*' then ['.', '*']
  else if c = '?' then ['.']
  else if c.isAlphanum then [c]
  else ['`', c]

/-- The regular expression, and its terminator. -/
def globToRegexp (pattern : Str) : Except Violation Str := do
  let size := pattern.length * 2 + 3
  let regexp ← put size [] '^'
  let regexp ← pattern.foldlM (fun regexp c => (globChar c).foldlM (put size) regexp) regexp
  let regexp ← put size regexp '$'
  let _ ← put size regexp '\x00'
  return regexp

/-- `ipr_str_matches`: the regular expression is compiled, and accepts the string. -/
def Matches (string pattern : Str) : Prop :=
  ∃ regexp r, globToRegexp pattern = .ok regexp ∧ readPattern (csafe regexp) = some r ∧
    r.Accepts string

/-! ## What it is for -/

/-- A glob pattern over a string, with wildcards that stand for the characters of `any`. -/
def Globs (any : Char → Prop) : (pattern string : Str) → Prop
  | [], string => string = []
  | c :: pattern, string =>
    if c = '*' then
      ∃ front back, string = front ++ back ∧ (∀ d ∈ front, any d) ∧ Globs any pattern back
    else if c = '?' then ∃ d back, string = d :: back ∧ any d ∧ Globs any pattern back
    else ∃ back, string = c :: back ∧ Globs any pattern back

/-! ## The memory -/

theorem put_eq {size : Nat} {regexp : Str} (h : regexp.length < size) (c : Char) :
    put size regexp c = .ok (regexp ++ [c]) := if_pos h

theorem foldlM_put {size : Nat} (text : Str) : ∀ regexp : Str,
    regexp.length + text.length ≤ size → text.foldlM (put size) regexp = .ok (regexp ++ text) := by
  induction text with
  | nil =>
    intro regexp _
    rw [append_nil]
    rfl
  | cons c text ih =>
    intro regexp h
    rw [length_cons] at h
    rw [foldlM_cons, put_eq (by omega)]
    show text.foldlM (put size) (regexp ++ [c]) = _
    rw [ih _ (by rw [length_append, length_singleton]; omega), append_assoc]
    rfl

variable (c : Char) (pattern : Str) {any : Char → Prop}

theorem length_globChar_le : (globChar c).length ≤ 2 := by
  unfold globChar
  split
  · exact Nat.le_refl _
  split
  · exact Nat.le_succ _
  split
  · exact Nat.le_succ _
  · exact Nat.le_refl _

theorem foldlM_globChar {size : Nat} (pattern : Str) : ∀ regexp : Str,
    regexp.length + 2 * pattern.length ≤ size →
    pattern.foldlM (fun regexp c => (globChar c).foldlM (put size) regexp) regexp =
      .ok (regexp ++ pattern.flatMap globChar) := by
  induction pattern with
  | nil =>
    intro regexp _
    rw [flatMap_nil, append_nil]
    rfl
  | cons c pattern ih =>
    intro regexp h
    have hc := length_globChar_le c
    rw [length_cons] at h
    rw [foldlM_cons, foldlM_put _ _ (by omega)]
    show pattern.foldlM _ (regexp ++ globChar c) = _
    rw [ih _ (by rw [length_append]; omega), append_assoc, flatMap_cons]

theorem length_flatMap_globChar_le : (pattern.flatMap globChar).length ≤ 2 * pattern.length := by
  induction pattern with
  | nil => exact Nat.le_refl _
  | cons c pattern ih =>
    have hc := length_globChar_le c
    rw [flatMap_cons, length_append, length_cons]
    omega

theorem globToRegexp_eq :
    globToRegexp pattern = .ok ('^' :: pattern.flatMap globChar ++ ['$']) := by
  have hlen := length_flatMap_globChar_le pattern
  have hstart : put (pattern.length * 2 + 3) [] '^' = .ok ['^'] := put_eq (by simp) _
  have hloop := @foldlM_globChar (pattern.length * 2 + 3) pattern ['^']
    (by rw [length_singleton]; omega)
  have hstop := @put_eq (pattern.length * 2 + 3) ('^' :: pattern.flatMap globChar)
    (by rw [length_cons]; omega) '$'
  have hend := @put_eq (pattern.length * 2 + 3) ('^' :: pattern.flatMap globChar ++ ['$'])
    (by rw [length_append, length_cons, length_singleton]; omega) '\x00'
  rw [singleton_append] at hloop
  simp only [globToRegexp, hstart, hloop, hstop, hend, bind, Except.bind, pure, Except.pure]

/-! ## The expression -/

def globPattern (c : Char) : Pattern :=
  if c = '*' then .star (.one (· ≠ '\n'))
  else if c = '?' then .one (· ≠ '\n')
  else .one (· == c)

theorem isWordChar_of_isAlphanum {c : Char} (h : c.isAlphanum = true) :
    Lib.isWordChar c = true := by
  rw [Lib.isWordChar, h, Bool.true_or]

theorem readFrom_escaped {c : Char} (h : ¬c.isAlphanum = true) (cs : Str) (outer : List Group)
    (g : Group) :
    readFrom (csafe ('`' :: c :: cs)) outer g =
      readFrom (csafe cs) outer (g.push (.one (· == c))) := by
  have hescape : Lib.readEscape c = some (.one (· == c)) := by
    have hw : c ≠ 'w' := by
      rintro rfl
      exact h (by decide)
    rw [Lib.readEscape, if_neg hw, if_neg h]
  have hsafe : csafe ('`' :: c :: cs) = '\\' :: c :: csafe cs := by
    by_cases hc : c = '`'
    · rw [hc, csafe]
    · rw [csafe, if_pos rfl, csafe_cons_of_ne hc]
      exact fun _ _ heq => hc (cons.inj heq).1
  rw [hsafe, readFrom, hescape]
  rfl

theorem readFrom_globChar (cs : Str) (outer : List Group) (g : Group) :
    readFrom (csafe (globChar c ++ cs)) outer g =
      readFrom (csafe cs) outer (g.push (globPattern c)) := by
  unfold globChar globPattern
  split
  · rfl
  split
  · rfl
  split
  · next h =>
    have hc : c ≠ '`' := by
      rintro rfl
      exact absurd h (by decide)
    rw [singleton_append, csafe_cons_of_ne hc]
    exact Lib.readFrom_literal (isWordChar_of_isAlphanum h) _ _ _
  · next h => exact readFrom_escaped h cs outer g

theorem readFrom_globChars (cs : Str) (outer : List Group) : ∀ g : Group,
    readFrom (csafe (pattern.flatMap globChar ++ cs)) outer g =
      readFrom (csafe cs) outer ⟨g.earlier, (pattern.map globPattern).reverse ++ g.items⟩ := by
  induction pattern with
  | nil => exact fun g => rfl
  | cons c pattern ih =>
    intro g
    rw [flatMap_cons, append_assoc, readFrom_globChar, ih]
    simp [Group.push]

theorem readPattern_glob : readPattern (csafe ('^' :: pattern.flatMap globChar ++ ['$'])) =
      some (.seqs (.start :: pattern.map globPattern ++ [.stop])) := by
  have hstart : readPattern (csafe ('^' :: pattern.flatMap globChar ++ ['$'])) =
      readFrom (csafe (pattern.flatMap globChar ++ ['$'])) [] (Group.new.push .start) := rfl
  rw [hstart, readFrom_globChars]
  show some _ = some _
  simp [Group.close, Group.push, Group.new]

theorem plain_globPattern : (globPattern c).Plain := by
  unfold globPattern
  split
  · trivial
  split <;> trivial

theorem mem_language_glob : ∀ v : Str,
    v ∈ (Pattern.seqs (pattern.map globPattern)).language ↔ Globs (· ≠ '\n') pattern v := by
  induction pattern with
  | nil => exact fun v => Iff.rfl
  | cons c pattern ih =>
    intro v
    rw [map_cons, Pattern.language_seqs_cons, Language.mem_mul, Globs]
    unfold globPattern
    split
    · constructor
      · rintro ⟨front, hfront, back, hback, rfl⟩
        rw [Pattern.mem_language_star_one] at hfront
        exact ⟨front, back, rfl, fun d hd => by simpa using hfront d hd, (ih back).mp hback⟩
      · rintro ⟨front, back, rfl, hfront, hback⟩
        refine ⟨front, Pattern.mem_language_star_one.mpr ?_, back, (ih back).mpr hback, rfl⟩
        exact fun d hd => by simpa using hfront d hd
    split
    · constructor
      · rintro ⟨_, ⟨d, hd, rfl⟩, back, hback, rfl⟩
        exact ⟨d, back, rfl, by simpa using hd, (ih back).mp hback⟩
      · rintro ⟨d, back, rfl, hd, hback⟩
        exact ⟨[d], ⟨d, by simpa using hd, rfl⟩, back, (ih back).mpr hback, rfl⟩
    · constructor
      · rintro ⟨_, ⟨d, hd, rfl⟩, back, hback, rfl⟩
        obtain rfl := beq_iff_eq.mp hd
        exact ⟨back, rfl, (ih back).mp hback⟩
      · rintro ⟨back, rfl, hback⟩
        exact ⟨[c], ⟨c, beq_self_eq_true c, rfl⟩, back, (ih back).mpr hback, rfl⟩

/-- **What the code matches.** The wildcards stand for the characters of a line, and a newline
at the end of the string does not count. -/
theorem matched_iff (string pattern : Str) : Matches string pattern ↔
    Globs (· ≠ '\n') pattern string ∨
      ∃ line, Globs (· ≠ '\n') pattern line ∧ string = line ++ ['\n'] := by
  have hplain : (Pattern.seqs (pattern.map globPattern)).Plain := by
    refine Pattern.plain_seqs fun p hp => ?_
    obtain ⟨c, -, rfl⟩ := mem_map.mp hp
    exact plain_globPattern c
  have haccepts := @Pattern.accepts_anchored (pattern.map globPattern) string hplain
  simp only [mem_language_glob] at haccepts
  rw [← haccepts]
  constructor
  · rintro ⟨regexp, r, hregexp, hr, hstring⟩
    rw [globToRegexp_eq] at hregexp
    obtain rfl := Except.ok.inj hregexp
    rw [readPattern_glob] at hr
    cases hr
    exact hstring
  · exact fun h => ⟨_, _, globToRegexp_eq pattern, readPattern_glob pattern, h⟩

/-! ## Newlines -/

theorem Globs.imp {any' : Char → Prop} : ∀ string : Str,
    (∀ c ∈ string, any c → any' c) → Globs any pattern string → Globs any' pattern string := by
  induction pattern with
  | nil => exact fun _ _ h => h
  | cons c pattern ih =>
    intro string himp h
    rw [Globs] at h ⊢
    split at h
    · next hc =>
      obtain ⟨front, back, rfl, hfront, hback⟩ := h
      rw [if_pos hc]
      refine ⟨front, back, rfl, fun d hd => ?_, ih back (fun d hd => ?_) hback⟩
      · exact himp d (mem_append_left _ hd) (hfront d hd)
      · exact himp d (mem_append_right _ hd)
    · next hc =>
      rw [if_neg hc]
      split at h
      · next hq =>
        obtain ⟨d, back, rfl, hd, hback⟩ := h
        rw [if_pos hq]
        refine ⟨d, back, rfl, himp d mem_cons_self hd, ih back (fun e he => ?_) hback⟩
        exact himp e (mem_cons_of_mem _ he)
      · next hq =>
        obtain ⟨back, rfl, hback⟩ := h
        rw [if_neg hq]
        exact ⟨back, rfl, ih back (fun e he => himp e (mem_cons_of_mem _ he)) hback⟩

theorem globs_star {string : Str} : Globs any ['*'] string ↔ ∀ c ∈ string, any c := by
  rw [Globs, if_pos rfl]
  constructor
  · rintro ⟨front, back, rfl, hfront, rfl⟩
    rwa [append_nil]
  · exact fun h => ⟨string, [], (append_nil string).symm, h, rfl⟩

theorem globs_question (n : Nat) : ∀ string : Str,
    Globs any (replicate n '?') string ↔ string.length = n ∧ ∀ c ∈ string, any c := by
  induction n with
  | zero =>
    intro string
    rw [replicate_zero, Globs, length_eq_zero_iff]
    exact ⟨fun h => ⟨h, by simp [h]⟩, fun h => h.1⟩
  | succ n ih =>
    intro string
    rw [replicate_succ, Globs, if_neg (by decide), if_pos rfl]
    constructor
    · rintro ⟨d, back, rfl, hd, hback⟩
      obtain ⟨hlen, hall⟩ := (ih back).mp hback
      exact ⟨by rw [length_cons, hlen], forall_mem_cons.mpr ⟨hd, hall⟩⟩
    · rintro ⟨hlen, hall⟩
      obtain ⟨d, back, rfl⟩ := exists_cons_of_length_eq_add_one hlen
      rw [forall_mem_cons] at hall
      exact ⟨d, back, rfl, hall.1, (ih back).mpr ⟨Nat.succ.inj hlen, hall.2⟩⟩

theorem matches_of_not_mem {string : Str} (h : '\n' ∉ string) (pattern : Str) :
    Matches string pattern ↔ Globs (fun _ => True) pattern string := by
  rw [matched_iff]
  constructor
  · rintro (hglobs | ⟨line, -, rfl⟩)
    · exact Globs.imp pattern string (fun _ _ _ => trivial) hglobs
    · exact absurd (mem_append_right line (mem_singleton_self _)) h
  · intro hglobs
    exact .inl (Globs.imp pattern string (fun c hc _ heq => h (heq ▸ hc)) hglobs)

theorem matches_line {line : Str} (h : ∀ c ∈ line, c ≠ '\n') :
    Matches (line ++ ['\n']) (replicate line.length '?') :=
  (matched_iff _ _).mpr (.inr ⟨line, (globs_question _ _).mpr ⟨rfl, h⟩, rfl⟩)

/--
**Which strings are matched as they should be.** The expression fits in its memory. The string
is matched by the patterns that it should be matched by, exactly when there is no newline in it.
-/
theorem matches_iff (string : Str) : (∀ pattern, ∃ regexp, globToRegexp pattern = .ok regexp) ∧
    ((∀ pattern, Matches string pattern ↔ Globs (fun _ => True) pattern string) ↔
      '\n' ∉ string) := by
  refine ⟨fun pattern => ⟨_, globToRegexp_eq pattern⟩, ?_, matches_of_not_mem⟩
  intro hall hmem
  have hstar : Matches string ['*'] := (hall _).mpr (globs_star.mpr fun _ _ => trivial)
  -- only a newline at the end can be there, and that one is not counted
  rcases (matched_iff _ _).mp hstar with hglobs | ⟨line, hglobs, rfl⟩
  · exact globs_star.mp hglobs _ hmem rfl
  · have hquestion := (hall _).mp (matches_line (globs_star.mp hglobs))
    have hlen := ((globs_question _ _).mp hquestion).1
    rw [length_append, length_singleton] at hlen
    omega

/-- "*" does not match "a\nb", and "?" matches "a\n". -/
theorem newline_differs :
    (¬Matches ['a', '\n', 'b'] ['*'] ∧ Globs (fun _ => True) ['*'] ['a', '\n', 'b']) ∧
    Matches ['a', '\n'] ['?'] ∧ ¬Globs (fun _ => True) ['?'] ['a', '\n'] := by
  refine ⟨⟨?_, globs_star.mpr fun _ _ => trivial⟩, @matches_line ['a'] (by simp), ?_⟩
  · rw [matched_iff]
    rintro (hglobs | ⟨line, -, heq⟩)
    · exact globs_star.mp hglobs '\n' (by decide) rfl
    · have hlast := congrArg getLast? heq
      rw [getLast?_concat] at hlast
      exact absurd hlast (by decide)
  · intro hglobs
    exact absurd ((globs_question 1 _).mp hglobs).1 (by decide)

end Glob

end OpenAmq
