import Mathlib.Data.List.Basic

/-!
# Runs of a fallible step function

A system is given by a step function `σ → ε → Option σ`, where `none` stands for a step
that does not return (a failed assertion, a dereferenced null pointer). This file collects
what is needed to argue about whole runs:

* `run` — the state reached after a list of events
* `Along` — every step of the run meets a condition on the state it starts from
* `run_history`, `run_invariant`, `run_progress`, `run_simulates` — from one step to the whole run
* `run_prefixes_iff`, `run_prefixes_iff_of_legal`, `run_prefixes_iff_of_invariant` — all states of
  a run are as they should be exactly when all steps are
-/

namespace OpenAmq.Lib

open List Option

variable {σ τ ε ω : Type*}

/-- The state after the events of `es`, or `none` as soon as one step does not return. -/
def run (step : σ → ε → Option σ) : σ → List ε → Option σ
  | s, [] => some s
  | s, e :: es => (step s e).bind fun s' => run step s' es

/-- Every step of the run of `es` from `s` meets `ok` in the state before it. -/
def Along (step : σ → ε → Option σ) (ok : σ → ε → Prop) : σ → List ε → Prop
  | _, [] => True
  | s, e :: es => ok s e ∧ ∀ s', step s e = some s' → Along step ok s' es

section Basic

variable {step : σ → ε → Option σ} {ok : σ → ε → Prop}

@[simp] theorem run_nil (s : σ) : run step s [] = some s := rfl

theorem run_cons (s : σ) (e : ε) (es : List ε) :
    run step s (e :: es) = (step s e).bind fun s' => run step s' es := rfl

/-- A run can be taken apart behind its first event. -/
theorem run_cons_eq_some {s s' : σ} {e : ε} {es : List ε} (h : run step s (e :: es) = some s') :
    ∃ s1, step s e = some s1 ∧ run step s1 es = some s' := by
  rw [run_cons] at h
  exact bind_eq_some_iff.mp h

/-- A run of two parts is a run from where the first ends. -/
theorem run_append (s : σ) (es es' : List ε) :
    run step s (es ++ es') = (run step s es).bind fun s' => run step s' es' := by
  induction es generalizing s with
  | nil => rfl
  | cons e es ih =>
    rw [cons_append, run_cons, run_cons]
    cases step s e with
    | none => rfl
    | some s1 => exact ih s1

theorem along_of_forall {es : List ε} (h : ∀ e ∈ es, ∀ s, ok s e) (s : σ) : Along step ok s es := by
  induction es generalizing s with
  | nil => trivial
  | cons e es ih =>
    exact ⟨h e mem_cons_self s,
      fun s' _ => ih (fun e he => h e (mem_cons_of_mem _ he)) s'⟩

theorem Along.left_of_append {es es' : List ε} {s : σ} (h : Along step ok s (es ++ es')) :
    Along step ok s es := by
  induction es generalizing s with
  | nil => trivial
  | cons e es ih => exact ⟨h.1, fun s' hs => ih (h.2 s' hs)⟩

theorem Along.of_append {es es' : List ε} {s s' : σ} (h : Along step ok s (es ++ es'))
    (hrun : run step s es = some s') : Along step ok s' es' := by
  induction es generalizing s with
  | nil => exact some.inj hrun ▸ h
  | cons e es ih =>
    obtain ⟨s1, hs, hr⟩ := run_cons_eq_some hrun
    exact ih (h.2 s1 hs) hr

/-- A condition along a run, from its first step and the rest -/
theorem Along.of_step {e : ε} {es : List ε} {s s' : σ} (h : ok s e) (hs : step s e = some s')
    (hrest : Along step ok s' es) : Along step ok s (e :: es) := by
  refine ⟨h, fun s1 hs1 => ?_⟩
  obtain rfl := some.inj (hs.symm.trans hs1)
  exact hrest

theorem Along.append {es es' : List ε} {s : σ} (h : Along step ok s es)
    (h' : ∀ s', run step s es = some s' → Along step ok s' es') : Along step ok s (es ++ es') := by
  induction es generalizing s with
  | nil => exact h' s rfl
  | cons e es ih =>
    refine ⟨h.1, fun s1 hs => ih (h.2 s1 hs) fun s' hr => h' s' ?_⟩
    rw [run_cons, hs]
    exact hr

theorem along_of_isSome {es : List ε} {s : σ} (h : (run step s es).isSome = true) :
    Along step (fun s e => (step s e).isSome = true) s es := by
  induction es generalizing s with
  | nil => trivial
  | cons e es ih =>
    obtain ⟨s', hrun⟩ := isSome_iff_exists.mp h
    obtain ⟨s1, hs, hrest⟩ := run_cons_eq_some hrun
    refine ⟨isSome_of_eq_some hs, fun s2 hs2 => ?_⟩
    obtain rfl := some.inj (hs.symm.trans hs2)
    exact ih (isSome_of_eq_some hrest)

theorem along_and_forall {P : ε → Prop} {es : List ε} (hP : ∀ e ∈ es, P e) {s : σ}
    (h : Along step ok s es) : Along step (fun s e => P e ∧ ok s e) s es := by
  induction es generalizing s with
  | nil => trivial
  | cons e es ih =>
    rw [forall_mem_cons] at hP
    exact ⟨⟨hP.1, h.1⟩, fun s' hs => ih hP.2 (h.2 s' hs)⟩

theorem along_and {P Q : σ → ε → Prop} {es : List ε} {s : σ} (hP : Along step P s es)
    (hQ : Along step Q s es) : Along step (fun s e => P s e ∧ Q s e) s es := by
  induction es generalizing s with
  | nil => trivial
  | cons e es ih => exact ⟨⟨hP.1, hQ.1⟩, fun s' hs => ih (hP.2 s' hs) (hQ.2 s' hs)⟩

/-- On a given list of events the condition can be evaluated along the run. -/
instance decidableAlong [∀ s e, Decidable (ok s e)] : ∀ s es, Decidable (Along step ok s es)
  | _, [] => isTrue trivial
  | s, e :: es =>
    match hs : step s e with
    | none =>
      decidable_of_iff (ok s e)
        ⟨fun h => ⟨h, fun s' hs' => by rw [hs] at hs'; cases hs'⟩, fun h => h.1⟩
    | some s1 =>
      have : Decidable (Along step ok s1 es) := decidableAlong s1 es
      decidable_of_iff (ok s e ∧ Along step ok s1 es) ⟨fun h => ⟨h.1, fun s' hs' => by
          rw [hs] at hs'
          exact some.inj hs' ▸ h.2⟩, fun h => ⟨h.1, h.2 s1 hs⟩⟩

end Basic

/-! ## From one step to the whole run -/

section Induction

variable {step : σ → ε → Option σ} {ok : σ → ε → Prop}

/-- What each step keeps of the history so far is kept by a run. -/
theorem run_history {I : List ε → σ → Prop}
    (hstep : ∀ es s e s', I es s → ok s e → step s e = some s' → I (es ++ [e]) s')
    (es0 : List ε) {es : List ε} {s s' : σ} (hI : I es0 s) (hok : Along step ok s es)
    (hrun : run step s es = some s') : I (es0 ++ es) s' := by
  induction es generalizing s es0 with
  | nil =>
    simp only [run_nil, some.injEq] at hrun
    rw [append_nil]
    exact hrun ▸ hI
  | cons e es ih =>
    obtain ⟨s1, hs, hr⟩ := run_cons_eq_some hrun
    have h := ih (es0 ++ [e]) (hstep es0 s e s1 hI hok.1 hs) (hok.2 s1 hs) hr
    rwa [append_assoc] at h

/-- What each step keeps is kept by a run. -/
theorem run_invariant {I : σ → Prop} (hstep : ∀ s e s', I s → ok s e → step s e = some s' → I s')
    {es : List ε} {s s' : σ} (hI : I s) (hok : Along step ok s es)
    (hrun : run step s es = some s') : I s' :=
  run_history (I := fun _ => I) (fun _ => hstep) [] hI hok hrun

/-- If each step can be taken and keeps the invariant, a run can and does. -/
theorem run_progress {I : List ε → σ → Prop}
    (hstep : ∀ es s e, I es s → ok s e → ∃ s', step s e = some s' ∧ I (es ++ [e]) s')
    (es0 : List ε) {es : List ε} {s : σ} (hI : I es0 s) (hok : Along step ok s es) :
    ∃ s', run step s es = some s' ∧ I (es0 ++ es) s' := by
  induction es generalizing s es0 with
  | nil => exact ⟨s, rfl, by rwa [append_nil]⟩
  | cons e es ih =>
    obtain ⟨s1, hs, hI1⟩ := hstep es0 s e hI hok.1
    obtain ⟨s', hr, hI'⟩ := ih (es0 ++ [e]) hI1 (hok.2 s1 hs)
    refine ⟨s', ?_, ?_⟩
    · rw [run_cons, hs]
      exact hr
    · rwa [append_assoc] at hI'

/--
Forward simulation with progress.

`spec` is a total abstract machine. When every step that meets `ok` returns and keeps `R`,
a run whose steps all meet `ok` returns, in a state related to the fold of `spec`.
-/
theorem run_simulates {R : σ → τ → Prop} {spec : τ → ε → τ}
    (hstep : ∀ s t e, R s t → ok s e → ∃ s', step s e = some s' ∧ R s' (spec t e))
    {es : List ε} {s : σ} {t : τ} (hR : R s t) (hok : Along step ok s es) :
    ∃ s', run step s es = some s' ∧ R s' (es.foldl spec t) := by
  induction es generalizing s t with
  | nil => exact ⟨s, rfl, hR⟩
  | cons e es ih =>
    obtain ⟨s1, hs, hR1⟩ := hstep s t e hR hok.1
    obtain ⟨s', hr, hR'⟩ := ih hR1 (hok.2 s1 hs)
    refine ⟨s', ?_, hR'⟩
    rw [run_cons, hs]
    exact hr

/--
Where steps that meet `ok` keep the relation `R` to an abstract machine, and no other step leads
to a state as it should be, all states of a run are as they should be exactly when all its steps
meet `ok`. Of steps that are not `legal` nothing is asked.
-/
theorem run_prefixes_iff_of_legal {R G : σ → τ → Prop} {legal : σ → ε → Prop} {spec : τ → ε → τ}
    (hG : ∀ s t, R s t → G s t)
    (hstep : ∀ s t e, R s t → legal s e → ok s e → ∃ s', step s e = some s' ∧ R s' (spec t e))
    (honly : ∀ s t e s', R s t → legal s e → step s e = some s' → G s' (spec t e) → ok s e)
    {es : List ε} {s : σ} {t : τ} (hR : R s t) (hlegal : Along step legal s es) :
    (∀ before, before <+: es →
      ∃ s', run step s before = some s' ∧ G s' (before.foldl spec t)) ↔ Along step ok s es := by
  induction es generalizing s t with
  | nil =>
    refine iff_of_true (fun before hbefore => ?_) trivial
    obtain rfl := prefix_nil.mp hbefore
    exact ⟨s, rfl, hG s t hR⟩
  | cons e es ih =>
    obtain ⟨hlegal, hlegals⟩ := hlegal
    constructor
    · intro hall
      obtain ⟨s1, hrun, hG1⟩ := hall [e] (prefix_append [e] es)
      obtain ⟨s2, hs, hnil⟩ := run_cons_eq_some hrun
      obtain rfl := some.inj hnil
      have hok := honly s t e s2 hR hlegal hs hG1
      refine ⟨hok, fun s' hs' => ?_⟩
      obtain ⟨s3, hs3, hR3⟩ := hstep s t e hR hlegal hok
      obtain rfl := some.inj (hs'.symm.trans hs3)
      refine (ih hR3 (hlegals s' hs')).mp fun before hbefore => ?_
      obtain ⟨s4, hrun4, hG4⟩ := hall (e :: before) (cons_prefix_cons.mpr ⟨rfl, hbefore⟩)
      rw [run_cons, hs'] at hrun4
      exact ⟨s4, hrun4, hG4⟩
    · intro ⟨hok, hrest⟩ before hbefore
      cases before with
      | nil => exact ⟨s, rfl, hG s t hR⟩
      | cons e' before =>
        obtain ⟨rfl, hprefix⟩ := cons_prefix_cons.mp hbefore
        obtain ⟨s1, hs, hR1⟩ := hstep s t e' hR hlegal hok
        obtain ⟨s', hrun, hG'⟩ := (ih hR1 (hlegals s1 hs)).mpr (hrest s1 hs) before hprefix
        refine ⟨s', ?_, hG'⟩
        rw [run_cons, hs]
        exact hrun

/-- The same when every step is legal. -/
theorem run_prefixes_iff {R G : σ → τ → Prop} {spec : τ → ε → τ} (hG : ∀ s t, R s t → G s t)
    (hstep : ∀ s t e, R s t → ok s e → ∃ s', step s e = some s' ∧ R s' (spec t e))
    (honly : ∀ s t e s', R s t → step s e = some s' → G s' (spec t e) → ok s e)
    {es : List ε} {s : σ} {t : τ} (hR : R s t) :
    (∀ before, before <+: es →
      ∃ s', run step s before = some s' ∧ G s' (before.foldl spec t)) ↔ Along step ok s es :=
  run_prefixes_iff_of_legal hG (fun s t e hR _ => hstep s t e hR)
    (fun s t e s' hR _ => honly s t e s' hR) hR
    (show Along step (fun _ _ => True) s es from along_of_forall (fun _ _ _ => trivial) s)

/-- The runs whose prefixes are all good are those along the condition. -/
theorem run_prefixes_iff_of_invariant {I G : σ → Prop} (hG : ∀ s, I s → G s)
    (hstep : ∀ s e, I s → ok s e → ∃ s', step s e = some s' ∧ I s')
    (honly : ∀ s e s', I s → step s e = some s' → G s' → ok s e) {es : List ε} {s : σ} (hI : I s) :
    (∀ before, before <+: es → ∃ s', run step s before = some s' ∧ G s') ↔ Along step ok s es :=
  @run_prefixes_iff σ Unit ε step ok (fun s _ => I s) (fun s _ => G s) (fun t _ => t)
    (fun s _ => hG s) (fun s _ => hstep s) (fun s _ => honly s) es s () hI

theorem along_of_invariant {I : σ → Prop} {P Q : σ → ε → Prop} (himp : ∀ s e, I s → Q s e → P s e)
    (hstep : ∀ s e s', I s → Q s e → step s e = some s' → I s')
    {es : List ε} {s : σ} (hI : I s) (h : Along step Q s es) : Along step P s es := by
  induction es generalizing s with
  | nil => trivial
  | cons e es ih =>
    exact ⟨himp s e hI h.1, fun s' hs => ih (hstep s e s' hI h.1 hs) (h.2 s' hs)⟩

theorem along_congr {I : σ → Prop} {P Q : σ → ε → Prop}
    (hiff : ∀ s e, I s → ok s e → (P s e ↔ Q s e))
    (hstep : ∀ s e s', I s → ok s e → Q s e → step s e = some s' → I s')
    {es : List ε} {s : σ} (hI : I s) (hok : Along step ok s es) :
    Along step P s es ↔ Along step Q s es := by
  induction es generalizing s with
  | nil => exact Iff.rfl
  | cons e es ih =>
    have hs := hiff s e hI hok.1
    constructor
    · intro ⟨hp, hrest⟩
      have hq := hs.mp hp
      exact ⟨hq, fun s' h => (ih (hstep s e s' hI hok.1 hq h) (hok.2 s' h)).mp (hrest s' h)⟩
    · intro ⟨hq, hrest⟩
      exact ⟨hs.mpr hq,
        fun s' h => (ih (hstep s e s' hI hok.1 hq h) (hok.2 s' h)).mpr (hrest s' h)⟩

end Induction

/-! ## Histories -/

/-- What holds of each entry and those before it still does when an entry is added for which it
does. -/
theorem forall_split_append {α : Type*} {P : List α → α → Prop} {l : List α} {last : α}
    (h : ∀ before a after, l = before ++ a :: after → P before a) (hlast : P l last) :
    ∀ before a after, l ++ [last] = before ++ a :: after → P before a := by
  intro before a after hl
  rcases eq_nil_or_concat after with rfl | ⟨rest, e, rfl⟩
  · obtain ⟨rfl, he⟩ := append_inj' hl rfl
    cases he
    exact hlast
  · rw [concat_eq_append, ← cons_append, ← append_assoc] at hl
    exact h before a rest (append_inj' hl rfl).1

/-! ## Outputs -/

/-- The machine that also keeps the outputs of all its steps, oldest first. -/
def logged (step : σ → ε → Option (σ × List ω)) : σ × List ω → ε → Option (σ × List ω) :=
  fun s e => (step s.1 e).map fun r => (r.1, s.2 ++ r.2)

theorem logged_eq_some {step : σ → ε → Option (σ × List ω)} {s s' : σ × List ω} {e : ε}
    (h : logged step s e = some s') :
    ∃ out, step s.1 e = some (s'.1, out) ∧ s'.2 = s.2 ++ out := by
  obtain ⟨⟨s1, out⟩, hs, rfl⟩ := map_eq_some_iff.mp h
  exact ⟨out, hs, rfl⟩

end OpenAmq.Lib
