import Mathlib.Computability.Language
import Mathlib.Tactic.Common

/-!
# Patterns of characters

A fragment of the patterns of PCRE: single characters and classes, alternatives, repetition,
groups, and the assertions of the start and the end of the subject.

* `Pattern.Match` — what a pattern matches between two parts of the subject
* `Pattern.language`, `match_iff_mem_language` — a pattern without assertions matches the texts of
  a language
* `accepts_anchored` — a pattern between both assertions
* `readPattern` — a pattern from its text
-/

namespace OpenAmq.Lib

open List

/-- What a text of the fragment stands for -/
inductive Pattern where
  | empty
  /-- `^` -/
  | start
  /-- `$` -/
  | stop
  | one (p : Char → Bool)
  | seq (a b : Pattern)
  | alt (a b : Pattern)
  | star (a : Pattern)

/-- A match several times in a row -/
inductive Repeats (m : List Char → List Char → List Char → Prop) :
    List Char → List Char → List Char → Prop
  | nil (before after : List Char) : Repeats m before [] after
  | cons {before v w after : List Char} (hfirst : m before v (w ++ after))
      (hrest : Repeats m (before ++ v) w after) : Repeats m before (v ++ w) after

namespace Pattern

/-- The pattern matches `v`, which is in the subject between `before` and `after`. -/
def Match : Pattern → (before v after : List Char) → Prop
  | empty, _, v, _ => v = []
  | start, before, v, _ => v = [] ∧ before = []
  | stop, _, v, after => v = [] ∧ (after = [] ∨ after = ['\n'])
  | one p, _, v, _ => ∃ c, p c = true ∧ v = [c]
  | seq a b, before, v, after =>
    ∃ v1 v2, v = v1 ++ v2 ∧ a.Match before v1 (v2 ++ after) ∧ b.Match (before ++ v1) v2 after
  | alt a b, before, v, after => a.Match before v after ∨ b.Match before v after
  | star a, before, v, after => Repeats a.Match before v after

def Accepts (self : Pattern) (subject : List Char) : Prop :=
  ∃ before v after, subject = before ++ v ++ after ∧ self.Match before v after

/-- One pattern after the other -/
def seqs (ps : List Pattern) : Pattern := ps.foldr seq empty

/-! ## Patterns without assertions -/

/-- There is no assertion in the pattern. -/
def Plain : Pattern → Prop
  | start | stop => False
  | empty | one _ => True
  | seq a b | alt a b => a.Plain ∧ b.Plain
  | star a => a.Plain

/-- The texts that a pattern without assertions matches -/
def language : Pattern → Language Char
  | start | stop => 0
  | empty => 1
  | one p => {v | ∃ c, p c = true ∧ v = [c]}
  | seq a b => a.language * b.language
  | alt a b => a.language + b.language
  | star a => KStar.kstar a.language

variable {a b : Pattern} {ps : List Pattern} {before v after subject : List Char}

theorem repeats_iff_mem_kstar (ih : ∀ before v after, a.Match before v after ↔ v ∈ a.language) :
    Repeats a.Match before v after ↔ v ∈ (KStar.kstar a.language : Language Char) := by
  constructor
  · intro h
    induction h with
    | nil => exact Language.nil_mem_kstar a.language
    | @cons before v w after hfirst _ ihrest =>
      obtain ⟨l, rfl, hl⟩ := Language.mem_kstar.mp ihrest
      refine Language.mem_kstar.mpr ⟨v :: l, rfl, ?_⟩
      exact forall_mem_cons.mpr ⟨(ih _ _ _).mp hfirst, hl⟩
  · intro h
    obtain ⟨l, rfl, hl⟩ := Language.mem_kstar.mp h
    clear h
    induction l generalizing before with
    | nil => exact .nil before after
    | cons v l ihl =>
      rw [forall_mem_cons] at hl
      exact .cons ((ih _ _ _).mpr hl.1) (ihl hl.2)

theorem match_iff_mem_language (h : a.Plain) : a.Match before v after ↔ v ∈ a.language := by
  induction a generalizing before v after with
  | start | stop => exact h.elim
  | empty | one p => exact Iff.rfl
  | seq a b iha ihb =>
    rw [Match, language, Language.mem_mul]
    constructor
    · rintro ⟨v1, v2, rfl, ha, hb⟩
      exact ⟨v1, (iha h.1).mp ha, v2, (ihb h.2).mp hb, rfl⟩
    · rintro ⟨v1, ha, v2, hb, rfl⟩
      exact ⟨v1, v2, rfl, (iha h.1).mpr ha, (ihb h.2).mpr hb⟩
  | alt a b iha ihb => exact or_congr (iha h.1) (ihb h.2)
  | star a ih => exact repeats_iff_mem_kstar fun _ _ _ => ih h

@[simp] theorem language_seqs_nil : (seqs []).language = 1 := rfl

theorem language_seqs_cons (p : Pattern) (ps : List Pattern) :
    (seqs (p :: ps)).language = p.language * (seqs ps).language := rfl

theorem language_seqs_append (ps qs : List Pattern) :
    (seqs (ps ++ qs)).language = (seqs ps).language * (seqs qs).language := by
  induction ps with
  | nil => simp
  | cons p ps ih =>
    rw [cons_append, language_seqs_cons, language_seqs_cons, ih, mul_assoc]

theorem mem_language_literals {w v : List Char} :
    v ∈ (seqs (w.map fun c => one (· == c))).language ↔ v = w := by
  induction w generalizing v with
  | nil => exact Iff.rfl
  | cons c w ih =>
    rw [map_cons, language_seqs_cons, Language.mem_mul]
    constructor
    · rintro ⟨_, ⟨c', hc, rfl⟩, v, hv, rfl⟩
      rw [ih.mp hv, beq_iff_eq.mp hc]
      rfl
    · rintro rfl
      exact ⟨[c], ⟨c, beq_self_eq_true c, rfl⟩, w, ih.mpr rfl, rfl⟩

theorem mem_language_star_one {p : Char → Bool} {v : List Char} :
    v ∈ (star (one p)).language ↔ ∀ c ∈ v, p c = true := by
  rw [language, Language.mem_kstar]
  constructor
  · rintro ⟨l, rfl, hl⟩ c hc
    obtain ⟨w, hw, hcw⟩ := mem_flatten.mp hc
    obtain ⟨c', hc', rfl⟩ := hl w hw
    exact mem_singleton.mp hcw ▸ hc'
  · intro h
    refine ⟨v.map fun c => [c], ?_, ?_⟩
    · simp [← flatMap_def]
    · intro w hw
      obtain ⟨c, hc, rfl⟩ := mem_map.mp hw
      exact ⟨c, h c hc, rfl⟩

theorem mem_language_star_append {w : List Char} (hv : v ∈ a.language)
    (hw : w ∈ (star a).language) :
    v ++ w ∈ (star a).language := by
  obtain ⟨l, rfl, hl⟩ := Language.mem_kstar.mp hw
  exact Language.mem_kstar.mpr ⟨v :: l, rfl, forall_mem_cons.mpr ⟨hv, hl⟩⟩

theorem plain_seqs (h : ∀ p ∈ ps, p.Plain) : (seqs ps).Plain := by
  induction ps with
  | nil => trivial
  | cons p ps ih =>
    rw [forall_mem_cons] at h
    exact ⟨h.1, ih h.2⟩

/-! ## Patterns between the assertions of the start and the end -/

theorem match_seqs_stop (h : (seqs ps).Plain) : (seqs (ps ++ [stop])).Match before v after ↔
      v ∈ (seqs ps).language ∧ (after = [] ∨ after = ['\n']) := by
  induction ps generalizing before v with
  | nil =>
    show (∃ v1 v2, v = v1 ++ v2 ∧ (v1 = [] ∧ (v2 ++ after = [] ∨ v2 ++ after = ['\n'])) ∧ v2 = []) ↔
      v = [] ∧ _
    constructor
    · rintro ⟨_, _, rfl, ⟨rfl, hafter⟩, rfl⟩
      exact ⟨rfl, hafter⟩
    · rintro ⟨rfl, hafter⟩
      exact ⟨[], [], rfl, ⟨rfl, hafter⟩, rfl⟩
  | cons p ps ih =>
    show (∃ v1 v2, v = v1 ++ v2 ∧ _ ∧ (seqs (ps ++ [stop])).Match (before ++ v1) v2 after) ↔
      v ∈ p.language * (seqs ps).language ∧ _
    rw [Language.mem_mul]
    constructor
    · rintro ⟨v1, v2, rfl, hp, hps⟩
      obtain ⟨hps, hafter⟩ := (ih h.2).mp hps
      exact ⟨⟨v1, (match_iff_mem_language h.1).mp hp, v2, hps, rfl⟩, hafter⟩
    · rintro ⟨⟨v1, hp, v2, hps, rfl⟩, hafter⟩
      exact ⟨v1, v2, rfl, (match_iff_mem_language h.1).mpr hp, (ih h.2).mpr ⟨hps, hafter⟩⟩

theorem accepts_anchored (h : (seqs ps).Plain) : (seqs (start :: ps ++ [stop])).Accepts subject ↔
      subject ∈ (seqs ps).language ∨ ∃ v ∈ (seqs ps).language, subject = v ++ ['\n'] := by
  constructor
  · rintro ⟨before, v, after, rfl, v1, v2, rfl, ⟨rfl, rfl⟩, hps⟩
    obtain ⟨hv, rfl | rfl⟩ := (match_seqs_stop h).mp hps
    · rw [append_nil]
      exact .inl hv
    · exact .inr ⟨v2, hv, rfl⟩
  · rintro (hv | ⟨v, hv, rfl⟩)
    · exact ⟨[], subject, [], by simp, [], subject, rfl, ⟨rfl, rfl⟩,
        (match_seqs_stop h).mpr ⟨hv, .inl rfl⟩⟩
    · exact ⟨[], v, ['\n'], rfl, [], v, rfl, ⟨rfl, rfl⟩, (match_seqs_stop h).mpr ⟨hv, .inr rfl⟩⟩

end Pattern

/-! ## Reading a pattern -/

/-- `\w` -/
def isWordChar (c : Char) : Bool := c.isAlphanum || c == '_'

/-- A character after a backslash; of the classes only `\w` is read. -/
def readEscape (c : Char) : Option Pattern :=
  if c = 'w' then some (.one isWordChar)
  else if c.isAlphanum then none
  else some (.one (· == c))

/-- A group that is being read: its alternatives so far, and the last of them backwards -/
structure Group where
  earlier : Option Pattern
  items : List Pattern

namespace Group

def new : Group := ⟨none, []⟩

/-- Adds a pattern to the alternative that is being read. -/
def push (self : Group) (p : Pattern) : Group := { self with items := p :: self.items }

def close (self : Group) : Pattern :=
  match self.earlier with
  | none => .seqs self.items.reverse
  | some p => .alt p (.seqs self.items.reverse)

end Group

/-- Characters of other quantifiers and of classes in brackets, which are not read -/
def isUnread (c : Char) : Bool := c == '?' || c == '+' || c == '[' || c == '{' || c == '\\'

/-- Reads what is left of the text, in a group and those around it. -/
def readFrom : List Char → List Group → Group → Option Pattern
  | [], [], g => some g.close
  | [], _ :: _, _ => none
  | '\\' :: c :: cs, outer, g => (readEscape c).bind fun p => readFrom cs outer (g.push p)
  | '(' :: '?' :: ':' :: cs, outer, g => readFrom cs (g :: outer) .new
  | '(' :: cs, outer, g => readFrom cs (g :: outer) .new
  | ')' :: _, [], _ => none
  | ')' :: cs, g' :: outer, g => readFrom cs outer (g'.push g.close)
  | '|' :: cs, outer, g => readFrom cs outer ⟨some g.close, []⟩
  | '*' :: cs, outer, g =>
    match g.items with
    | [] => none
    | p :: ps => readFrom cs outer { g with items := .star p :: ps }
  | '^' :: cs, outer, g => readFrom cs outer (g.push .start)
  | '$' :: cs, outer, g => readFrom cs outer (g.push .stop)
  | '.' :: cs, outer, g => readFrom cs outer (g.push (.one (· ≠ '\n')))
  | c :: cs, outer, g =>
    if isUnread c then none else readFrom cs outer (g.push (.one (· == c)))

def readPattern (text : List Char) : Option Pattern := readFrom text [] .new

theorem readFrom_literal {c : Char} (h : isWordChar c = true) (cs : List Char) (outer : List Group)
    (g : Group) : readFrom (c :: cs) outer g = readFrom cs outer (g.push (.one (· == c))) := by
  have hne : ∀ d, isWordChar d = false → c ≠ d := by
    rintro _ hd rfl
    rw [h] at hd
    cases hd
  have hread : isUnread c = false := by
    simp [isUnread, hne '?' rfl, hne '+' rfl, hne '[' rfl, hne '{' rfl, hne '\\' rfl]
  rw [readFrom, hread]
  · rfl
  · exact fun _ _ hc _ => hne '\\' rfl hc
  · exact fun _ hc _ => hne '(' rfl hc
  · exact hne '(' rfl
  · exact hne '|' rfl
  · exact hne '*' rfl
  · exact hne '^' rfl
  · exact hne '$' rfl
  · exact hne '.' rfl
  · exact fun _ hc => hne ')' rfl hc
  · exact fun _ _ _ hc => hne ')' rfl hc

end OpenAmq.Lib
