import Mathlib.Data.List.TakeWhile

/-!
# Splitting a list

A list is cut at the elements that a test holds of. `List.splitOnP` gives the pieces between
these, empty ones too; the pieces that are not empty are the maximal runs without delimiters.

* `mem_of_mem_splitOnP` — the pieces are made of the other elements of the list
* `runs` — the maximal runs
* `exists_word` — a list has delimiters only, or a first run
-/

namespace OpenAmq.Lib

open List

variable {α : Type*} {delim : α → Bool}

theorem drop_length_takeWhile (p : α → Bool) (l : List α) :
    l.drop (l.takeWhile p).length = l.dropWhile p := by
  calc l.drop (l.takeWhile p).length
      = (l.takeWhile p ++ l.dropWhile p).drop (l.takeWhile p).length := by
        rw [takeWhile_append_dropWhile]
    _ = l.dropWhile p := drop_left

theorem mem_of_mem_splitOnP (s : List α) : ∀ word ∈ s.splitOnP delim, ∀ c ∈ word,
    c ∈ s ∧ delim c = false := by
  induction s with
  | nil => simp
  | cons d s ih =>
    intro word hword c hc
    rw [splitOnP_cons_eq_if_modifyHead] at hword
    obtain ⟨first, others, hs⟩ := exists_cons_of_ne_nil (splitOnP_ne_nil delim s)
    rw [hs] at hword ih
    split at hword
    · rcases mem_cons.mp hword with rfl | hword
      · cases hc
      · exact (ih word hword c hc).imp_left (mem_cons_of_mem _)
    · next hd =>
      rw [modifyHead_cons] at hword
      rcases mem_cons.mp hword with rfl | hword
      · rcases mem_cons.mp hc with rfl | hc
        · exact ⟨mem_cons_self, by simpa using hd⟩
        · exact (ih first mem_cons_self c hc).imp_left (mem_cons_of_mem _)
      · exact (ih word (mem_cons_of_mem _ hword) c hc).imp_left (mem_cons_of_mem _)

variable {s word : List α} {c : α}

theorem mem_of_mem_splitOn [BEq α] [LawfulBEq α] {a : α} (h : word ∈ s.splitOn a) :
    (∀ c ∈ word, c ∈ s) ∧ a ∉ word := by
  rw [splitOn_eq_splitOnP] at h
  have hmem := mem_of_mem_splitOnP s word h
  exact ⟨fun c hc => (hmem c hc).1, fun ha => by simpa using (hmem a ha).2⟩

theorem exists_mem_splitOnP (h : c ∈ s) (hc : delim c = false) :
    ∃ word ∈ s.splitOnP delim, c ∈ word := by
  induction s with
  | nil => cases h
  | cons d s ih =>
    rw [splitOnP_cons_eq_if_modifyHead]
    obtain ⟨first, others, hs⟩ := exists_cons_of_ne_nil (splitOnP_ne_nil delim s)
    rw [hs] at ih ⊢
    split
    · next hd =>
      rcases mem_cons.mp h with rfl | h
      · exact absurd hd (by simp [hc])
      · obtain ⟨word, hword, hmem⟩ := ih h
        exact ⟨word, mem_cons_of_mem _ hword, hmem⟩
    · rw [modifyHead_cons]
      rcases mem_cons.mp h with rfl | h
      · exact ⟨c :: first, mem_cons_self, mem_cons_self⟩
      · obtain ⟨word, hword, hmem⟩ := ih h
        rcases mem_cons.mp hword with rfl | hword
        · exact ⟨d :: word, mem_cons_self, mem_cons_of_mem _ hmem⟩
        · exact ⟨word, mem_cons_of_mem _ hword, hmem⟩

theorem exists_mem_splitOn [BEq α] [LawfulBEq α] {a : α} (h : c ∈ s) (hc : c ≠ a) :
    ∃ word ∈ s.splitOn a, c ∈ word := by
  rw [splitOn_eq_splitOnP]
  exact exists_mem_splitOnP h (by simpa using hc)

/-! ## Runs -/

/-- The maximal runs of elements that are no delimiters. -/
def runs (delim : α → Bool) (s : List α) : List (List α) :=
  (s.splitOnP delim).filter (· ≠ [])

/-- A delimiter in front does not count. -/
theorem runs_delim (hc : delim c = true) (s : List α) : runs delim (c :: s) = runs delim s := by
  rw [runs, splitOnP_cons_eq_if_modifyHead, if_pos hc]
  rfl

/-- Delimiters in front do not count. -/
theorem runs_append {front : List α} (h : ∀ c ∈ front, delim c = true) (s : List α) :
    runs delim (front ++ s) = runs delim s := by
  induction front with
  | nil => rfl
  | cons c front ih =>
    rw [cons_append, runs_delim (h c mem_cons_self)]
    exact ih fun d hd => h d (mem_cons_of_mem _ hd)

/-- A word that a delimiter or the end follows is the first run. -/
theorem runs_word {rest : List α} (hne : word ≠ []) (hword : ∀ c ∈ word, delim c = false)
    (hrest : ∀ c ∈ rest.head?, delim c = true) :
    runs delim (word ++ rest) = word :: runs delim rest := by
  cases rest with
  | nil => simp [runs, splitOnP_eq_singleton hword, hne]
  | cons c rest =>
    have hc : delim c = true := hrest c rfl
    rw [runs_delim hc, runs, splitOnP_append_cons_of_forall_mem hword c hc,
      filter_cons_of_pos (by simpa using hne), runs]

/-- Runs depend on the delimiters among the given characters only. -/
theorem runs_congr {delim' : α → Bool} (h : ∀ c ∈ s, delim c = delim' c) :
    runs delim s = runs delim' s := by
  have hsplit : s.splitOnP delim = s.splitOnP delim' := by
    induction s with
    | nil => rfl
    | cons c s ih =>
      rw [splitOnP_cons_eq_if_modifyHead, splitOnP_cons_eq_if_modifyHead,
        h c mem_cons_self, ih fun d hd => h d (mem_cons_of_mem _ hd)]
  rw [runs, runs, hsplit]

theorem mem_of_mem_runs (h : word ∈ runs delim s) : ∀ c ∈ word, c ∈ s :=
  fun c hc => (mem_of_mem_splitOnP s word (mem_filter.mp h).1 c hc).1

theorem exists_word (delim : α → Bool) (s : List α) : (∀ c ∈ s, delim c = true) ∨
    ∃ front word rest, s = front ++ (word ++ rest) ∧ (∀ c ∈ front, delim c = true) ∧
      word ≠ [] ∧ (∀ c ∈ word, delim c = false) ∧ ∀ c ∈ rest.head?, delim c = true := by
  cases hd : s.dropWhile delim with
  | nil => exact .inl (dropWhile_eq_nil_iff.mp hd)
  | cons c tail =>
    have hc : delim c = false := by
      have := head?_dropWhile_not delim s
      rwa [hd] at this
    refine .inr ⟨s.takeWhile delim, c :: tail.takeWhile (!delim ·), tail.dropWhile (!delim ·),
      ?_, ?_, by simp, ?_, ?_⟩
    · rw [cons_append, takeWhile_append_dropWhile, ← hd, takeWhile_append_dropWhile]
    · exact fun d hd => mem_takeWhile_imp hd
    · intro d hd
      rcases mem_cons.mp hd with rfl | hd
      · exact hc
      · simpa using mem_takeWhile_imp hd
    · intro d hd
      have := head?_dropWhile_not (!delim ·) tail
      rw [hd] at this
      simpa using this

end OpenAmq.Lib
