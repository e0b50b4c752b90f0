import Mathlib
import OpenAmq.Exchange.Model
import OpenAmq.Lib.Pattern

/-!
# Topic patterns

The topics that the regular expression of a topic pattern accepts, next to those that the pattern
stands for.

* `TopicWord`, `InTopics` — the words of a pattern and the topics that it stands for
* `TopicMatched` — what the compiled regular expression does with a topic
* `topicMatched_iff` — a `#` stands for one word at least
* `topics_matched_iff` — the patterns with which that makes no difference
-/

namespace OpenAmq

open Lib List Pattern

/-! ## Words -/

inductive TopicWord where
  | word (w : Str)
  /-- `*` -/
  | single
  /-- `#` -/
  | multiple
deriving DecidableEq

namespace TopicWord

def text : TopicWord → Str
  | word w => w
  | single => ['*']
  | multiple => ['#']

/-- The words of a topic that a word of a pattern stands for, with the least number for a `#` -/
def Covers (least : Nat) : TopicWord → List Str → Prop
  | word w, t => t = [w]
  | single, t => ∃ w, t = [w]
  | multiple, t => least ≤ t.length

end TopicWord

def topicText (words : List Str) : Str := ['.'].intercalate words

/-- A word over letters, digits and underscores -/
def IsTopicWord (w : Str) : Prop := w ≠ [] ∧ ∀ c ∈ w, isWordChar c = true

/-- A wildcard, or such a word -/
def TopicWord.Valid : TopicWord → Prop
  | word w => IsTopicWord w
  | single | multiple => True

/-- The topic is in the language of the pattern. With no least number of words for a `#` this is the
language of AMQP. -/
def InTopics (least : Nat) : List TopicWord → List Str → Prop
  | [], t => t = []
  | x :: p, t => ∃ t1 t2, t = t1 ++ t2 ∧ x.Covers least t1 ∧ InTopics least p t2

variable {x : TopicWord} {t : List Str} {p : List TopicWord} {c : Char} {v : Str}

theorem TopicWord.Covers.ne_nil (h : x.Covers 1 t) : t ≠ [] := by
  cases x with
  | word w => simp [show t = [w] from h]
  | single =>
    obtain ⟨w, rfl⟩ := h
    simp
  | multiple => exact length_pos_iff.mp h

theorem InTopics.ne_nil (h : InTopics 1 p t) (hp : p ≠ []) : t ≠ [] := by
  cases p with
  | nil => exact absurd rfl hp
  | cons x p =>
    obtain ⟨t1, t2, rfl, hcovers, -⟩ := h
    exact fun hnil => hcovers.ne_nil (append_eq_nil_iff.mp hnil).1

/-- The regular expression of the pattern accepts the topic. -/
def TopicMatched (p : List TopicWord) (t : List Str) : Prop :=
  ∃ r, readPattern (csafe (topicToRegexp (topicText (p.map TopicWord.text)))) = some r ∧
    r.Accepts (topicText t)

/-! ## The regular expression -/

/-- `(?: |\w*)` -/
def singlePattern : Pattern :=
  .alt (.seqs [.one (· == ' ')]) (.seqs [.star (.one isWordChar)])

/-- `( |(?:\w*(?:\.\w*)*))` -/
def multiplePattern : Pattern :=
  .alt (.seqs [.one (· == ' ')])
    (.seqs [.seqs [.star (.one isWordChar), .star
      (.seqs [.one (· == '.'), .star (.one isWordChar)])]])

def charPattern (c : Char) : Pattern :=
  if c = '*' then singlePattern else if c = '#' then multiplePattern else .one (· == c)

/-- The characters of the patterns that are considered -/
def isTopicChar (c : Char) : Bool := isWordChar c || c == '.' || c == '*' || c == '#'

theorem isprint_of_isWordChar (h : isWordChar c = true) : isprint c = true := by
  simp only [isWordChar, Char.isAlphanum, Char.isAlpha, Char.isUpper, Char.isLower, Char.isDigit,
    Bool.or_eq_true, decide_eq_true_eq, beq_iff_eq, Bool.and_eq_true, UInt32.le_iff_toNat_le] at h
  rw [isprint, decide_eq_true_eq]
  rcases h with ((⟨hge, hle⟩ | ⟨hge, hle⟩) | ⟨hge, hle⟩) | rfl
  · exact ⟨le_trans (by decide) hge, le_trans hle (by decide)⟩
  · exact ⟨le_trans (by decide) hge, le_trans hle (by decide)⟩
  · exact ⟨le_trans (by decide) hge, le_trans hle (by decide)⟩
  · decide

theorem ne_of_isWordChar {d : Char} (h : isWordChar c = true) (hd : isWordChar d = false) :
    c ≠ d := by
  rintro rfl
  rw [h] at hd
  cases hd

theorem readFrom_topicChar (h : isTopicChar c = true) (cs : Str) (outer : List Lib.Group)
    (g : Lib.Group) :
    readFrom (csafe (topicChar c ++ cs)) outer g =
      readFrom (csafe cs) outer (g.push (charPattern c)) := by
  simp only [isTopicChar, Bool.or_eq_true, beq_iff_eq] at h
  rcases h with ((hword | rfl) | rfl) | rfl
  · have hchar : topicChar c = [c] := by
      unfold topicChar
      rw [if_neg (ne_of_isWordChar hword rfl), if_neg (ne_of_isWordChar hword rfl),
        if_neg (ne_of_isWordChar hword rfl), if_pos (isprint_of_isWordChar hword)]
    have hpattern : charPattern c = .one (· == c) := by
      unfold charPattern
      rw [if_neg (ne_of_isWordChar hword rfl), if_neg (ne_of_isWordChar hword rfl)]
    rw [hchar, hpattern, singleton_append, csafe_cons_of_ne (ne_of_isWordChar hword rfl)]
    exact readFrom_literal hword (csafe cs) outer g
  · rfl
  · rfl
  · rfl

theorem readFrom_topicChars {s : Str} (h : ∀ c ∈ s, isTopicChar c = true) (cs : Str)
    (outer : List Lib.Group) (g : Lib.Group) :
    readFrom (csafe (s.flatMap topicChar ++ cs)) outer g =
      readFrom (csafe cs) outer ⟨g.earlier, (s.map charPattern).reverse ++ g.items⟩ := by
  induction s generalizing g with
  | nil => rfl
  | cons c s ih =>
    rw [forall_mem_cons] at h
    rw [flatMap_cons, append_assoc, readFrom_topicChar h.1, ih h.2]
    simp [Group.push]

theorem readPattern_topic {s : Str} (h : ∀ c ∈ s, isTopicChar c = true) :
    readPattern (csafe (topicToRegexp s)) =
      some (.seqs (.start :: s.map charPattern ++ [.stop])) := by
  have hstart : readPattern (csafe (topicToRegexp s)) =
      readFrom (csafe (s.flatMap topicChar ++ ['$'])) [] (Group.new.push .start) := rfl
  rw [hstart, readFrom_topicChars h]
  show some _ = some _
  simp [Group.close, Group.push, Group.new]

/-! ## The parts of a topic -/

@[simp] theorem topicText_singleton (w : Str) : topicText [w] = w := by
  simp [topicText]

theorem topicText_cons (w : Str) (h : t ≠ []) : topicText (w :: t) = w ++ '.' :: topicText t := by
  obtain ⟨w', t, rfl⟩ := exists_cons_of_ne_nil h
  simp [topicText, intercalate, intersperse]

theorem topicText_append {t1 t2 : List Str} (h1 : t1 ≠ []) (h2 : t2 ≠ []) :
    topicText (t1 ++ t2) = topicText t1 ++ '.' :: topicText t2 := by
  induction t1 with
  | nil => exact absurd rfl h1
  | cons w t1 ih =>
    rcases eq_or_ne t1 [] with rfl | h
    · rw [singleton_append, topicText_cons w h2, topicText_singleton]
    · rw [cons_append, topicText_cons w (by simp [h]), topicText_cons w h, ih h]
      simp

theorem IsTopicWord.dot_notMem {w : Str} (h : IsTopicWord w) : '.' ∉ w := by
  intro hmem
  exact absurd (h.2 _ hmem) (by decide)

theorem topicText_eq_append (h : ∀ w ∈ t, IsTopicWord w) (hne : t ≠ []) {u : Str} :
    topicText t = u ++ '.' :: v ↔
      ∃ t1 t2, t1 ≠ [] ∧ t2 ≠ [] ∧ t = t1 ++ t2 ∧ u = topicText t1 ∧ v = topicText t2 := by
  constructor
  · intro heq
    induction t generalizing u with
    | nil => exact absurd rfl hne
    | cons w t ih =>
      rw [forall_mem_cons] at h
      have hdot := h.1.dot_notMem
      rcases eq_or_ne t [] with rfl | ht
      · rw [topicText_singleton] at heq
        simp [heq] at hdot
      rw [topicText_cons w ht] at heq
      rcases append_eq_append_iff.mp heq with ⟨a, rfl, ha⟩ | ⟨a, rfl, ha⟩
      · cases a with
        | nil =>
          -- the dot after the first word
          exact ⟨[w], t, by simp, ht, rfl, by simp, by simpa using ha.symm⟩
        | cons d a =>
          obtain ⟨rfl, htail⟩ := cons_eq_cons.mp ha
          obtain ⟨t1, t2, h1, h2, rfl, rfl, rfl⟩ := ih h.2 ht htail
          exact ⟨w :: t1, t2, by simp, h2, rfl, (topicText_cons w h1).symm, rfl⟩
      · cases a with
        | nil => exact ⟨[u], t, by simp, ht, by simp, by simp, by simpa using ha⟩
        | cons d a =>
          obtain ⟨rfl, -⟩ := cons_eq_cons.mp ha
          simp at hdot
  · rintro ⟨t1, t2, h1, h2, rfl, rfl, rfl⟩
    exact topicText_append h1 h2

theorem eq_singleton_of_topicText (h : ∀ w ∈ t, IsTopicWord w) (hne : t ≠ []) (hv : '.' ∉ v)
    (htext : topicText t = v) : t = [v] := by
  cases t with
  | nil => exact absurd rfl hne
  | cons w t =>
    rcases eq_or_ne t [] with rfl | ht
    · rw [← htext, topicText_singleton]
    · rw [topicText_cons w ht] at htext
      simp [← htext] at hv

theorem topicText_chars (h : ∀ w ∈ t, IsTopicWord w) :
    ∀ c ∈ topicText t, isWordChar c = true ∨ c = '.' := by
  induction t with
  | nil => simp [topicText]
  | cons w t ih =>
    rw [forall_mem_cons] at h
    intro c hc
    rcases eq_or_ne t [] with rfl | ht
    · rw [topicText_singleton] at hc
      exact .inl (h.1.2 c hc)
    · rw [topicText_cons w ht, mem_append, mem_cons] at hc
      rcases hc with hc | rfl | hc
      · exact .inl (h.1.2 c hc)
      · exact .inr rfl
      · exact ih h.2 c hc

/-! ## What a word of a pattern matches -/

theorem plain_charPattern (c : Char) : (charPattern c).Plain := by
  unfold charPattern
  split
  · simp [singlePattern, seqs, Pattern.Plain]
  split
  · simp [multiplePattern, seqs, Pattern.Plain]
  · trivial

theorem mem_language_singlePattern :
    v ∈ singlePattern.language ↔ v = [' '] ∨ ∀ c ∈ v, isWordChar c = true := by
  have hspace : v ∈ (seqs [.one (· == ' ')]).language ↔ v = [' '] :=
    mem_language_literals (w := [' '])
  have hword : v ∈ (seqs [.star (.one isWordChar)]).language ↔ ∀ c ∈ v, isWordChar c = true := by
    rw [language_seqs_cons, language_seqs_nil, mul_one, mem_language_star_one]
  exact or_congr hspace hword

theorem mem_language_multiplePattern (h : ∀ c ∈ v, isWordChar c = true ∨ c = '.') :
    v ∈ multiplePattern.language := by
  refine .inr ?_
  rw [language_seqs_cons, language_seqs_nil, mul_one, language_seqs_cons,
    language_seqs_cons, language_seqs_nil, mul_one]
  induction v with
  | nil => exact ⟨[], Language.nil_mem_kstar _, [], Language.nil_mem_kstar _, rfl⟩
  | cons c v ih =>
    rw [forall_mem_cons] at h
    obtain ⟨u, hu, w, hw, rfl⟩ := Language.mem_mul.mp (ih h.2)
    refine Language.mem_mul.mpr ?_
    rcases h.1 with hc | rfl
    · refine ⟨c :: u, ?_, w, hw, rfl⟩
      rw [mem_language_star_one] at hu ⊢
      exact forall_mem_cons.mpr ⟨hc, hu⟩
    · -- the dot starts another round of the repetition
      have hround : ['.'] ++ u ∈ (seqs [.one (· == '.'), .star (.one isWordChar)]).language := by
        rw [language_seqs_cons, language_seqs_cons, language_seqs_nil, mul_one]
        exact Language.mem_mul.mpr ⟨['.'], ⟨'.', rfl, rfl⟩, u, hu, rfl⟩
      exact ⟨[], Language.nil_mem_kstar _, _, mem_language_star_append hround hw, rfl⟩

theorem mem_language_text (hx : x.Valid) (ht : ∀ w ∈ t, IsTopicWord w) (hne : t ≠ []) :
    topicText t ∈ (seqs (x.text.map charPattern)).language ↔ x.Covers 1 t := by
  cases x with
  | word w =>
    have hliteral : w.map charPattern = w.map fun c => .one (· == c) := by
      refine map_congr_left fun c hc => ?_
      unfold charPattern
      rw [if_neg (ne_of_isWordChar (hx.2 c hc) rfl), if_neg (ne_of_isWordChar (hx.2 c hc) rfl)]
    show topicText t ∈ (seqs (w.map charPattern)).language ↔ t = [w]
    rw [hliteral, mem_language_literals]
    constructor
    · intro htext
      exact eq_singleton_of_topicText ht hne hx.dot_notMem htext
    · rintro rfl
      exact topicText_singleton w
  | single =>
    show topicText t ∈ (seqs [singlePattern]).language ↔ ∃ w, t = [w]
    rw [language_seqs_cons, language_seqs_nil, mul_one, mem_language_singlePattern]
    constructor
    · rintro (hspace | hword)
      · exact ⟨_, eq_singleton_of_topicText ht hne (by decide) hspace⟩
      · refine ⟨_, eq_singleton_of_topicText ht hne (fun hdot => ?_) rfl⟩
        exact absurd (hword _ hdot) (by decide)
    · rintro ⟨w, rfl⟩
      rw [topicText_singleton]
      exact .inr (ht w (by simp)).2
  | multiple =>
    show topicText t ∈ (seqs [multiplePattern]).language ↔ 1 ≤ t.length
    rw [language_seqs_cons, language_seqs_nil, mul_one]
    exact iff_of_true (mem_language_multiplePattern (topicText_chars ht)) (length_pos_iff.mpr hne)

/-! ## What a pattern matches -/

theorem isTopicChar_text (hx : x.Valid) : ∀ c ∈ x.text, isTopicChar c = true := by
  cases x with
  | word w =>
    intro c hc
    simp [isTopicChar, hx.2 c hc]
  | single | multiple => simp [TopicWord.text, isTopicChar]

theorem topicText_map_cons (x : TopicWord) (hp : p ≠ []) : topicText ((x :: p).map TopicWord.text) =
      x.text ++ '.' :: topicText (p.map TopicWord.text) := by
  rw [map_cons, topicText_cons _ (by simp [hp])]

theorem isTopicChar_topicText (h : ∀ x ∈ p, x.Valid) :
    ∀ c ∈ topicText (p.map TopicWord.text), isTopicChar c = true := by
  induction p with
  | nil => simp [topicText]
  | cons x p ih =>
    rw [forall_mem_cons] at h
    rcases eq_or_ne p [] with rfl | hp
    · simpa using isTopicChar_text h.1
    · intro c hc
      rw [topicText_map_cons x hp, mem_append, mem_cons] at hc
      rcases hc with hc | rfl | hc
      · exact isTopicChar_text h.1 c hc
      · rfl
      · exact ih h.2 c hc

theorem mem_language_topicText (hp : ∀ x ∈ p, x.Valid) (hpne : p ≠ [])
    (ht : ∀ w ∈ t, IsTopicWord w) (hne : t ≠ []) :
    topicText t ∈ (seqs ((topicText (p.map TopicWord.text)).map charPattern)).language ↔
      InTopics 1 p t := by
  induction p generalizing t with
  | nil => exact absurd rfl hpne
  | cons x p ih =>
    rw [forall_mem_cons] at hp
    rcases eq_or_ne p [] with rfl | hpne'
    · rw [map_singleton, topicText_singleton, mem_language_text hp.1 ht hne]
      simp [InTopics]
    rw [topicText_map_cons x hpne', map_append, map_cons, language_seqs_append,
      language_seqs_cons, Language.mem_mul]
    constructor
    · rintro ⟨u, hu, _, hrest, htext⟩
      obtain ⟨_, ⟨c, hc, rfl⟩, v, hv, rfl⟩ := Language.mem_mul.mp hrest
      rw [beq_iff_eq.mp hc] at htext
      obtain ⟨t1, t2, h1, h2, rfl, rfl, rfl⟩ := (topicText_eq_append ht hne).mp htext.symm
      rw [forall_mem_append] at ht
      exact ⟨t1, t2, rfl, (mem_language_text hp.1 ht.1 h1).mp hu, (ih hp.2 hpne' ht.2 h2).mp hv⟩
    · rintro ⟨t1, t2, rfl, hcovers, hrest⟩
      have h1 := hcovers.ne_nil
      have h2 := hrest.ne_nil hpne'
      rw [forall_mem_append] at ht
      refine ⟨topicText t1, (mem_language_text hp.1 ht.1 h1).mpr hcovers, '.' :: topicText t2, ?_,
        (topicText_append h1 h2).symm⟩
      exact Language.mem_mul.mpr ⟨['.'], ⟨'.', rfl, rfl⟩, _, (ih hp.2 hpne' ht.2 h2).mpr hrest, rfl⟩

theorem topicMatched_iff (hp : ∀ x ∈ p, x.Valid) (hpne : p ≠ []) (ht : ∀ w ∈ t, IsTopicWord w)
    (hne : t ≠ []) : TopicMatched p t ↔ InTopics 1 p t := by
  have hplain : (seqs ((topicText (p.map TopicWord.text)).map charPattern)).Plain := by
    refine plain_seqs fun a ha => ?_
    obtain ⟨c, -, rfl⟩ := mem_map.mp ha
    exact plain_charPattern c
  have hline : ∀ v, topicText t ≠ v ++ ['\n'] := by
    intro v heq
    have hmem : '\n' ∈ topicText t := by simp [heq]
    rcases topicText_chars ht _ hmem with hc | hc <;> exact absurd hc (by decide)
  have haccepts : (seqs (.start :: (topicText (p.map TopicWord.text)).map charPattern ++
      [.stop])).Accepts (topicText t) ↔ _ := accepts_anchored hplain
  rw [← mem_language_topicText hp hpne ht hne]
  unfold TopicMatched
  rw [readPattern_topic (isTopicChar_topicText hp)]
  constructor
  · rintro ⟨_, ⟨⟩, hmatch⟩
    rcases haccepts.mp hmatch with hwhole | ⟨v, -, heq⟩
    · exact hwhole
    · exact absurd heq (hline v)
  · intro hwhole
    exact ⟨_, rfl, haccepts.mpr (.inl hwhole)⟩

/-! ## The patterns with which a `#` may stand for no word -/

theorem inTopics_zero_of_one (h : InTopics 1 p t) : InTopics 0 p t := by
  induction p generalizing t with
  | nil => exact h
  | cons x p ih =>
    obtain ⟨t1, t2, rfl, hcovers, hrest⟩ := h
    refine ⟨t1, t2, rfl, ?_, ih hrest⟩
    cases x with
    | word w | single => exact hcovers
    | multiple => exact Nat.zero_le _

theorem inTopics_one_of_zero (hp : .multiple ∉ p) (h : InTopics 0 p t) : InTopics 1 p t := by
  induction p generalizing t with
  | nil => exact h
  | cons x p ih =>
    obtain ⟨t1, t2, rfl, hcovers, hrest⟩ := h
    rw [mem_cons, not_or] at hp
    refine ⟨t1, t2, rfl, ?_, ih hp.2 hrest⟩
    cases x with
    | word w | single => exact hcovers
    | multiple => exact absurd rfl hp.1

theorem InTopics.append {least : Nat} {q : List TopicWord} {u : List Str}
    (hp : InTopics least p t) (hq : InTopics least q u) : InTopics least (p ++ q) (t ++ u) := by
  induction p generalizing t with
  | nil =>
    rw [show t = [] from hp]
    exact hq
  | cons x p ih =>
    obtain ⟨t1, t2, rfl, hcovers, hrest⟩ := hp
    exact ⟨t1, t2 ++ u, append_assoc t1 t2 u, hcovers, ih hrest⟩

theorem InTopics.length_le (h : InTopics 1 p t) : p.length ≤ t.length := by
  induction p generalizing t with
  | nil => exact Nat.zero_le _
  | cons x p ih =>
    obtain ⟨t1, t2, rfl, hcovers, hrest⟩ := h
    have hfirst := length_pos_iff.mpr hcovers.ne_nil
    have := ih hrest
    rw [length_append, length_cons]
    omega

def TopicWord.sample : TopicWord → Str
  | word w => w
  | single | multiple => ['a']

theorem isTopicWord_a : IsTopicWord ['a'] := by
  refine ⟨cons_ne_nil _ _, fun c hc => ?_⟩
  rw [mem_singleton.mp hc]
  rfl

theorem isTopicWord_sample (hx : x.Valid) : IsTopicWord x.sample := by
  cases x with
  | word w => exact hx
  | single | multiple => exact isTopicWord_a

theorem inTopics_sample (p : List TopicWord) : InTopics 0 p (p.map TopicWord.sample) := by
  induction p with
  | nil => rfl
  | cons x p ih =>
    refine ⟨[x.sample], p.map TopicWord.sample, rfl, ?_, ih⟩
    cases x with
    | word w => rfl
    | single => exact ⟨_, rfl⟩
    | multiple => exact Nat.zero_le _

/-- The topics that a pattern accepts are those of AMQP exactly if there is no `#` beside another
word. -/
theorem topics_matched_iff (p : List TopicWord) (hp : ∀ x ∈ p, x.Valid) (hpne : p ≠ []) :
    (∀ t : List Str, (∀ w ∈ t, IsTopicWord w) → t ≠ [] → (TopicMatched p t ↔ InTopics 0 p t)) ↔
      .multiple ∉ p ∨ p = [.multiple] := by
  constructor
  · intro h
    by_contra hmixed
    rw [not_or, not_not] at hmixed
    obtain ⟨a, b, rfl⟩ := append_of_mem hmixed.1
    -- the topic in which the `#` stands for no word
    have hne : a ++ b ≠ [] := by
      intro hnil
      obtain ⟨rfl, rfl⟩ := append_eq_nil_iff.mp hnil
      exact hmixed.2 rfl
    have hvalid : ∀ w ∈ (a ++ b).map TopicWord.sample, IsTopicWord w := by
      intro w hw
      obtain ⟨x, hx, rfl⟩ := mem_map.mp hw
      refine isTopicWord_sample (hp x ?_)
      rw [mem_append] at hx ⊢
      exact hx.imp_right (mem_cons_of_mem _)
    have htopic : InTopics 0 (a ++ .multiple :: b) ((a ++ b).map TopicWord.sample) := by
      rw [map_append]
      exact (inTopics_sample a).append ⟨[], _, rfl, Nat.zero_le _, inTopics_sample b⟩
    have hsample : (a ++ b).map TopicWord.sample ≠ [] := by simpa using hne
    have hmatched := (h _ hvalid hsample).mpr htopic
    have hlength := ((topicMatched_iff hp hpne hvalid hsample).mp hmatched).length_le
    rw [length_map, length_append, length_append, length_cons] at hlength
    omega
  · rintro (hnone | rfl) t ht hne
    · rw [topicMatched_iff hp hpne ht hne]
      exact ⟨inTopics_zero_of_one, inTopics_one_of_zero hnone⟩
    · rw [topicMatched_iff hp hpne ht hne]
      refine ⟨inTopics_zero_of_one, fun _ => ?_⟩
      exact ⟨t, [], (append_nil t).symm, length_pos_iff.mpr hne, rfl⟩

/-- `a.*.b`, and the topic `a.a.b` -/
theorem topics_matched_sample :
    TopicMatched [.word ['a'], .single, .word ['b']] [['a'], ['a'], ['b']] ↔
      InTopics 0 [.word ['a'], .single, .word ['b']] [['a'], ['a'], ['b']] :=
  (topics_matched_iff [.word ['a'], .single, .word ['b']]
    (by simp [TopicWord.Valid, IsTopicWord, isWordChar]) (by simp)).mpr (.inl (by decide))
    [['a'], ['a'], ['b']] (by simp [IsTopicWord, isWordChar]) (by simp)

/-- `a.#` does not accept `a`. -/
theorem multiple_needs_word :
    InTopics 0 [.word ['a'], .multiple] [['a']] ∧
      ¬TopicMatched [.word ['a'], .multiple] [['a']] := by
  have hpattern : ∀ x ∈ [TopicWord.word ['a'], .multiple], x.Valid := by
    simp [TopicWord.Valid, IsTopicWord, isWordChar]
  have htopic : ∀ w ∈ [['a']], IsTopicWord w := by simp [IsTopicWord, isWordChar]
  refine ⟨⟨[['a']], [], rfl, rfl, [], [], rfl, Nat.zero_le _, rfl⟩, fun hmatched => ?_⟩
  have hlength := ((topicMatched_iff hpattern (by simp) htopic (by simp)).mp hmatched).length_le
  exact absurd hlength (by decide)

end OpenAmq
