import Mathlib.Data.List.Nodup
import OpenAmq.Asl.Grammar

/-!
# Dispatching functional methods

A method that arrives on an open channel is looked up in two tables, which the generator writes
from the grammar and which end with a zero. A third table gives the method that must have been
sent before it.

* `Routes` — a grammar with the responses of its methods, from which `predecessor` is found
* `executeFunctionalMethod` — `s_execute_functional_method`, `none` for an index outside a table
* `Dispatched` — the methods that are permitted are executed, and all others refused
* `dispatched_iff` — that is so for the ids of a class, unless the method has a predecessor and
  the last one sent is of another class
-/

namespace OpenAmq

open List Option

/-- A grammar, and the names in the `response` elements of its methods. -/
structure Routes extends Protocol where
  responses : Grammar.Class → Grammar.Method → List Str

namespace Routes

/-! ## The tables -/

/-- `class by index` -/
def classesByIndex (routes : Routes) : List Grammar.Class :=
  routes.classes.mergeSort fun c d => decide (c.index ≤ d.index)

def maxMethod (routes : Routes) : Nat :=
  routes.classes.foldl (fun n c => max n c.methods.length) 0

/--
`class_method.predecessor`: the last method of the class that names `m` as a response, or 0
when it is not defined.
-/
def predecessor (routes : Routes) (c : Grammar.Class) (m : Grammar.Method) : Nat :=
  c.methods.foldl (fun p method => if m.name ∈ routes.responses c method then method.index else p) 0

def sClassIndex (routes : Routes) : List Nat :=
  routes.classesByIndex.map Grammar.Class.index ++ [0]

/-- A row of a table with an entry for each method, filled up with zeros. -/
def row (routes : Routes) (entry : Grammar.Class → Grammar.Method → Nat) (c : Grammar.Class) :
    List Nat :=
  c.methods.map (entry c) ++ (replicate (routes.maxMethod - c.methods.length) 0 ++ [0])

def sMethodIndex (routes : Routes) : List (List Nat) :=
  routes.classesByIndex.map (routes.row fun _ m => m.index)

def sPredecessor (routes : Routes) : List (List Nat) :=
  routes.classesByIndex.map (routes.row routes.predecessor)

/-! ## The method -/

/-- The arguments of `s_connection_exception` -/
structure Refusal where
  replyText : Str
  faultingClassId : Nat
  faultingMethodId : Nat
deriving DecidableEq

/-- What becomes of an incoming method -/
inductive Outcome where
  | executed
  | exception (refusal : Refusal)
deriving DecidableEq

/-- `for (index = 0; table [index]; index++) if (id == table [index]) break;` -/
def scan (id : Nat) : (table : List Nat) → Option Nat
  | [] => none
  | entry :: table =>
    if entry = 0 then some 0
    else if id = entry then some 0
    else (scan id table).map (· + 1)

/-- `s_execute_functional_method`; the ids change places on their way into an exception. -/
def executeFunctionalMethod (routes : Routes) (classId methodId outClassId outMethodId : Nat) :
    Option Outcome := do
  let classIndex ← scan classId routes.sClassIndex
  let methods ← routes.sMethodIndex[classIndex]?
  let methodIndex ← scan methodId methods
  let found ← methods[methodIndex]?
  if found ≠ 0 then
    let predecessors ← routes.sPredecessor[classIndex]?
    let predMethodId ← predecessors[methodIndex]?
    if predMethodId > 0 ∧ predMethodId ≠ outMethodId ∧ outClassId = classId then
      some (.exception ⟨"Method not allowed at this stage".toList, methodId, classId⟩)
    else some .executed
  else
    some (.exception ⟨"Method invalid - unknown method id".toList, methodId, classId⟩)

/-! ## What it is for -/

/-- The pair is a method of the grammar, and the method it answers was sent last, if any. -/
def Permitted (routes : Routes) (classId methodId outClassId outMethodId : Nat) : Prop :=
  ∃ c ∈ routes.classes, c.index = classId ∧ ∃ m ∈ c.methods, m.index = methodId ∧
    (routes.predecessor c m ≠ 0 → outClassId = classId ∧ outMethodId = routes.predecessor c m)

/-- The method is executed if it is permitted, and refused with an exception if not. -/
structure Dispatched (routes : Routes) (classId methodId outClassId outMethodId : Nat) :
    Prop where
  permitted : routes.Permitted classId methodId outClassId outMethodId →
    routes.executeFunctionalMethod classId methodId outClassId outMethodId = some .executed
  refused : ¬ routes.Permitted classId methodId outClassId outMethodId →
    ∃ refusal, routes.executeFunctionalMethod classId methodId outClassId outMethodId =
      some (.exception refusal)

/-- The id is that of a class of the grammar. -/
def IsClass (routes : Routes) (classId : Nat) : Prop :=
  ∃ c ∈ routes.classes, c.index = classId

/-- The pair is a method with a predecessor. -/
def Answers (routes : Routes) (classId methodId : Nat) : Prop :=
  ∃ c ∈ routes.classes, c.index = classId ∧
    ∃ m ∈ c.methods, m.index = methodId ∧ routes.predecessor c m ≠ 0

/-! ## The scans -/

theorem scan_map {α : Type} (f : α → Nat) (id : Nat) (rest : List Nat) :
    ∀ {l : List α}, (∀ a ∈ l, f a ≠ 0) →
      (∃ i, ∃ h : i < l.length, f l[i] = id ∧ scan id (l.map f ++ 0 :: rest) = some i) ∨
        ((∀ a ∈ l, f a ≠ id) ∧ scan id (l.map f ++ 0 :: rest) = some l.length) := by
  intro l
  induction l with
  | nil => exact fun _ => .inr ⟨by simp, rfl⟩
  | cons a l ih =>
    intro hne
    have ha := hne a mem_cons_self
    simp only [map_cons, cons_append, scan, if_neg ha]
    by_cases hid : id = f a
    · exact .inl ⟨0, Nat.succ_pos _, hid.symm, if_pos hid⟩
    · rw [if_neg hid]
      rcases ih (fun b hb => hne b (mem_cons_of_mem _ hb)) with
        ⟨i, hi, heq, hscan⟩ | ⟨hno, hscan⟩
      · exact .inl ⟨i + 1, Nat.succ_lt_succ hi, heq, by rw [hscan]; rfl⟩
      · refine .inr ⟨?_, by rw [hscan]; rfl⟩
        intro b hb
        rcases mem_cons.mp hb with rfl | hb
        · exact fun h => hid h.symm
        · exact hno b hb

variable {routes : Routes} {classId methodId outClassId outMethodId : Nat}

variable {c : Grammar.Class} {m : Grammar.Method}

theorem mem_classesByIndex : c ∈ routes.classesByIndex ↔ c ∈ routes.classes :=
  mem_mergeSort

theorem row_eq (routes : Routes) (entry : Grammar.Class → Grammar.Method → Nat)
    (c : Grammar.Class) : ∃ rest, routes.row entry c = c.methods.map (entry c) ++ 0 :: rest := by
  rw [row]
  cases routes.maxMethod - c.methods.length with
  | zero => exact ⟨[], rfl⟩
  | succ n => exact ⟨replicate n 0 ++ [0], by rw [replicate_succ, cons_append]⟩

theorem class_ne_zero : ∀ c ∈ routes.classesByIndex, c.index ≠ 0 := by
  intro c hc
  exact (routes.class_index c (mem_classesByIndex.mp hc)).1

theorem method_ne_zero (hc : c ∈ routes.classes) : ∀ m ∈ c.methods, m.index ≠ 0 := by
  intro m hm
  exact (routes.method_index c hc m hm).1

theorem unique_class {d : Grammar.Class} (hc : c ∈ routes.classes) (hd : d ∈ routes.classes)
    (h : c.index = d.index) : c = d :=
  inj_on_of_nodup_map routes.classes_nodup hc hd h

theorem unique_method (hc : c ∈ routes.classes) {n : Grammar.Method} (hm : m ∈ c.methods)
    (hn : n ∈ c.methods) (h : m.index = n.index) : m = n :=
  inj_on_of_nodup_map (routes.methods_nodup c hc) hm hn h

/-! ## The cases of a dispatch -/

theorem execute_of_not_isClass (h : ¬ routes.IsClass classId) :
    routes.executeFunctionalMethod classId methodId outClassId outMethodId = none := by
  rcases scan_map Grammar.Class.index classId [] class_ne_zero with ⟨i, hi, hid, -⟩ | ⟨-, hscan⟩
  · exact absurd ⟨_, mem_classesByIndex.mp (getElem_mem hi), hid⟩ h
  · have hrow : routes.sMethodIndex[routes.classesByIndex.length]? = none := by
      rw [sMethodIndex, getElem?_eq_none]
      rw [length_map]
    rw [executeFunctionalMethod, sClassIndex, hscan, bind_eq_bind, bind_some, hrow]
    rfl

theorem execute_of_class (hc : c ∈ routes.classes) (hid : c.index = classId) :
    routes.executeFunctionalMethod classId methodId outClassId outMethodId = (do
      let methods := routes.row (fun _ m => m.index) c
      let methodIndex ← scan methodId methods
      let found ← methods[methodIndex]?
      if found ≠ 0 then
        let predMethodId ← (routes.row routes.predecessor c)[methodIndex]?
        if predMethodId > 0 ∧ predMethodId ≠ outMethodId ∧ outClassId = classId then
          some (.exception ⟨"Method not allowed at this stage".toList, methodId, classId⟩)
        else some .executed
      else
        some (.exception ⟨"Method invalid - unknown method id".toList, methodId, classId⟩)) := by
  rcases scan_map Grammar.Class.index classId [] class_ne_zero with ⟨i, hi, hidi, hscan⟩ | ⟨hno, -⟩
  · have hci : routes.classesByIndex[i] = c :=
      unique_class (mem_classesByIndex.mp (getElem_mem hi)) hc (hidi.trans hid.symm)
    have hrow : ∀ entry, (routes.classesByIndex.map (routes.row entry))[i]? =
        some (routes.row entry c) := by
      intro entry
      rw [getElem?_map, getElem?_eq_getElem hi, hci]
      rfl
    rw [executeFunctionalMethod, sClassIndex, hscan]
    simp only [bind_eq_bind, bind_some, sMethodIndex, sPredecessor, hrow]
  · exact absurd hid (hno c (mem_classesByIndex.mpr hc))

theorem execute_of_no_method (hc : c ∈ routes.classes) (hid : c.index = classId)
    (hno : ∀ m ∈ c.methods, m.index ≠ methodId) :
    routes.executeFunctionalMethod classId methodId outClassId outMethodId =
      some (.exception ⟨"Method invalid - unknown method id".toList, methodId, classId⟩) := by
  obtain ⟨rest, hrest⟩ := row_eq routes (fun _ m => m.index) c
  rw [execute_of_class hc hid]
  simp only [hrest]
  rcases scan_map Grammar.Method.index methodId rest (method_ne_zero hc) with
    ⟨i, hi, hidi, -⟩ | ⟨-, hscan⟩
  · exact absurd hidi (hno _ (getElem_mem hi))
  · have hzero : (c.methods.map Grammar.Method.index ++ 0 :: rest)[c.methods.length]? = some 0 := by
      rw [getElem?_append_right (by rw [length_map]), length_map, Nat.sub_self]
      rfl
    rw [hscan]
    simp only [bind_eq_bind, bind_some, hzero]
    rfl

/-- A method of the class is refused only if its predecessor is another one of the same class. -/
theorem execute_of_method (hc : c ∈ routes.classes) (hid : c.index = classId) (hm : m ∈ c.methods)
    (hmid : m.index = methodId) :
    routes.executeFunctionalMethod classId methodId outClassId outMethodId =
      if routes.predecessor c m > 0 ∧ routes.predecessor c m ≠ outMethodId ∧
          outClassId = classId then
        some (.exception ⟨"Method not allowed at this stage".toList, methodId, classId⟩)
      else some .executed := by
  have hne := method_ne_zero hc
  have hentry : ∀ (entry : Grammar.Class → Grammar.Method → Nat) (i : Nat)
      (hi : i < c.methods.length), c.methods[i] = m →
      (routes.row entry c)[i]? = some (entry c m) := by
    intro entry i hi heq
    obtain ⟨rest, hrest⟩ := row_eq routes entry c
    rw [hrest, getElem?_append_left (by rw [length_map]; exact hi), getElem?_map,
      getElem?_eq_getElem hi, heq]
    rfl
  obtain ⟨rest, hrest⟩ := row_eq routes (fun _ m => m.index) c
  rw [execute_of_class hc hid]
  rcases scan_map Grammar.Method.index methodId rest hne with ⟨i, hi, hidi, hscan⟩ | ⟨hno, -⟩
  · have hmi : c.methods[i] = m := unique_method hc (getElem_mem hi) hm (hidi.trans hmid.symm)
    rw [← hrest] at hscan
    simp only [hscan, bind_eq_bind, bind_some, hentry _ i hi hmi, ne_eq, hne m hm,
      not_false_eq_true, if_true]
  · exact absurd hmid (hno m hm)

/-! ## When methods are dispatched -/

theorem permitted_iff (hc : c ∈ routes.classes) (hid : c.index = classId) (hm : m ∈ c.methods)
    (hmid : m.index = methodId) :
    routes.Permitted classId methodId outClassId outMethodId ↔ (routes.predecessor c m ≠ 0 →
        outClassId = classId ∧ outMethodId = routes.predecessor c m) := by
  constructor
  · rintro ⟨d, hd, hdid, n, hn, hnid, hpred⟩
    obtain rfl := unique_class hd hc (hdid.trans hid.symm)
    obtain rfl := unique_method hd hn hm (hnid.trans hmid.symm)
    exact hpred
  · intro h
    exact ⟨c, hc, hid, m, hm, hmid, h⟩

theorem dispatched_method (hc : c ∈ routes.classes) (hid : c.index = classId) (hm : m ∈ c.methods)
    (hmid : m.index = methodId) :
    routes.Dispatched classId methodId outClassId outMethodId ↔
      (routes.predecessor c m ≠ 0 → outClassId = classId) := by
  have hpermitted : routes.Permitted classId methodId outClassId outMethodId ↔ _ :=
    permitted_iff hc hid hm hmid
  have hexecute : routes.executeFunctionalMethod classId methodId outClassId outMethodId = _ :=
    execute_of_method hc hid hm hmid
  by_cases hrefused : routes.predecessor c m > 0 ∧ routes.predecessor c m ≠ outMethodId ∧
      outClassId = classId
  · rw [if_pos hrefused] at hexecute
    refine ⟨fun _ _ => hrefused.2.2, fun _ => ⟨?_, fun _ => ⟨_, hexecute⟩⟩⟩
    intro h
    exact absurd (hpermitted.mp h (Nat.ne_of_gt hrefused.1)).2.symm hrefused.2.1
  · rw [if_neg hrefused] at hexecute
    constructor
    · intro h hpred
      by_cases hp : routes.Permitted classId methodId outClassId outMethodId
      · exact (hpermitted.mp hp hpred).1
      · obtain ⟨refusal, heq⟩ := h.refused hp
        rw [hexecute] at heq
        cases heq
    · intro h
      have hp : routes.Permitted classId methodId outClassId outMethodId := by
        rw [hpermitted]
        intro hpred
        refine ⟨h hpred, ?_⟩
        -- the test would have failed otherwise
        by_contra hne
        exact hrefused ⟨Nat.pos_of_ne_zero hpred, fun heq => hne heq.symm, h hpred⟩
      exact ⟨fun _ => hexecute, fun hnot => absurd hp hnot⟩

/--
A method is executed when it is permitted and refused when it is not, exactly when its class is
one of the grammar and, should the method have a predecessor, the last method sent was of that
class.
-/
theorem dispatched_iff (routes : Routes) (classId methodId outClassId outMethodId : Nat) :
    routes.Dispatched classId methodId outClassId outMethodId ↔
      routes.IsClass classId ∧ (routes.Answers classId methodId → outClassId = classId) := by
  by_cases hclass : routes.IsClass classId
  · obtain ⟨c, hc, hid⟩ := hclass
    rw [and_iff_right (show routes.IsClass classId from ⟨c, hc, hid⟩)]
    by_cases hmethod : ∃ m ∈ c.methods, m.index = methodId
    · obtain ⟨m, hm, hmid⟩ := hmethod
      rw [dispatched_method hc hid hm hmid]
      constructor
      · rintro h ⟨d, hd, hdid, n, hn, hnid, hpred⟩
        obtain rfl := unique_class hd hc (hdid.trans hid.symm)
        obtain rfl := unique_method hd hn hm (hnid.trans hmid.symm)
        exact h hpred
      · intro h hpred
        exact h ⟨c, hc, hid, m, hm, hmid, hpred⟩
    · have hno : ∀ m ∈ c.methods, m.index ≠ methodId := fun m hm hmid => hmethod ⟨m, hm, hmid⟩
      have hexecute : routes.executeFunctionalMethod classId methodId outClassId outMethodId = _ :=
        execute_of_no_method hc hid hno
      have hnone : ∀ d ∈ routes.classes, d.index = classId → ∀ n ∈ d.methods,
          n.index ≠ methodId := by
        intro d hd hdid
        obtain rfl := unique_class hd hc (hdid.trans hid.symm)
        exact hno
      constructor
      · rintro - ⟨d, hd, hdid, n, hn, hnid, -⟩
        exact absurd hnid (hnone d hd hdid n hn)
      · intro _
        refine ⟨?_, fun _ => ⟨_, hexecute⟩⟩
        rintro ⟨d, hd, hdid, n, hn, hnid, -⟩
        exact absurd hnid (hnone d hd hdid n hn)
  · constructor
    · intro h
      have hno : ¬ routes.Permitted classId methodId outClassId outMethodId := by
        rintro ⟨c, hc, hid, -⟩
        exact hclass ⟨c, hc, hid⟩
      obtain ⟨refusal, heq⟩ := h.refused hno
      rw [execute_of_not_isClass hclass] at heq
      cases heq
    · rintro ⟨h, -⟩
      exact absurd h hclass

/-! ## Two methods that are not dispatched -/

/-- A response -/
def openOk : Grammar.Method where
  name := "open-ok".toList
  index := 11
  synchronous := true
  fields := []

/-- A class of two methods, the second one a response to the first. -/
def openClass : Grammar.Class where
  name := "channel".toList
  index := 20
  methods := [⟨"open".toList, 10, true, []⟩, openOk]

/-- The grammar of this class. -/
def openRoutes : Routes where
  classes := [openClass]
  classes_nodup := by decide
  methods_nodup := by decide
  class_index := by
    intro c hc
    rw [mem_singleton.mp hc]
    exact ⟨by decide, by decide⟩
  method_index := by
    intro c hc m hm
    rw [mem_singleton.mp hc] at hm
    rcases mem_cons.mp hm with rfl | hm
    · exact ⟨by decide, by decide⟩
    · rw [mem_singleton.mp hm]
      exact ⟨by decide, by decide⟩
  responses _ m := if m.index = 10 then ["open-ok".toList] else []

/--
A class id that is not in the grammar makes the scan look at a row behind the table. The response
is executed although the last method that was sent was one of another class.
-/
theorem not_dispatched : openRoutes.executeFunctionalMethod 7 10 20 10 = none ∧
      ¬ openRoutes.Dispatched 7 10 20 10 ∧
      openRoutes.executeFunctionalMethod 20 11 60 40 = some .executed ∧
      ¬ openRoutes.Dispatched 20 11 60 40 := by
  have hclass : openClass ∈ openRoutes.classes := mem_singleton_self _
  have hnoclass : ¬ openRoutes.IsClass 7 := by
    rintro ⟨c, hc, hid⟩
    obtain rfl := mem_singleton.mp hc
    exact absurd hid (by decide)
  have hmethod : openOk ∈ openClass.methods := mem_cons_of_mem _ (mem_singleton_self _)
  have hid : openClass.index = 20 := rfl
  have hmid : openOk.index = 11 := rfl
  have hpred : openRoutes.predecessor openClass openOk = 10 := by decide
  have hunknown : openRoutes.executeFunctionalMethod 7 10 20 10 = none :=
    execute_of_not_isClass hnoclass
  have hexecuted : openRoutes.executeFunctionalMethod 20 11 60 40 = some .executed := by
    rw [execute_of_method hclass hid hmethod hmid, hpred]
    rfl
  refine ⟨hunknown, ?_, hexecuted, ?_⟩
  · intro h
    have hno : ¬ openRoutes.Permitted 7 10 20 10 := by
      rintro ⟨c, hc, hcid, -⟩
      exact hnoclass ⟨c, hc, hcid⟩
    obtain ⟨refusal, heq⟩ := h.refused hno
    rw [hunknown] at heq
    cases heq
  · intro h
    have hno : ¬ openRoutes.Permitted 20 11 60 40 := by
      rw [permitted_iff hclass hid hmethod hmid, hpred]
      decide
    obtain ⟨refusal, heq⟩ := h.refused hno
    rw [hexecuted] at heq
    cases heq

end Routes

end OpenAmq
