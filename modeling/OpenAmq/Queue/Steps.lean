import Mathlib.Data.List.Nodup
import Mathlib.Data.List.Perm.Basic
import OpenAmq.Lib.Run
import OpenAmq.Queue.Model

/-!
# What a step of a queue does

* `getNextConsumer_eq_found` — the search for a consumer finds the first that may have the content
* `Move`, `move_of_step` — what a step of a queue does, with a case for each kind
* `QueueSystem.Offers` — at a turn, the consumers that may have the first content are in order
-/

namespace OpenAmq

open List

/-! ## Outputs about contents -/

def Output.accepted? : Output → Option Content
  | .accepted content => some content
  | _ => none

def Output.handed? : Output → Option Content
  | .delivered _ _ _ content _ _ => some content
  | .fetched content _ => some content
  | _ => none

def Output.finished? : Output → Option Content
  | .acked _ content => some content
  | .delivered _ _ _ content _ false => some content
  | .fetched content _ => some content
  | .purged content => some content
  | .trimmed content => some content
  | .discarded content => some content
  | _ => none

def acceptedOf (outputs : List Output) : List Content := outputs.filterMap Output.accepted?

def handedOf (outputs : List Output) : List Content := outputs.filterMap Output.handed?

def finishedOf (outputs : List Output) : List Content := outputs.filterMap Output.finished?

@[simp] theorem acceptedOf_append (xs ys : List Output) :
    acceptedOf (xs ++ ys) = acceptedOf xs ++ acceptedOf ys := filterMap_append

@[simp] theorem handedOf_append (xs ys : List Output) :
    handedOf (xs ++ ys) = handedOf xs ++ handedOf ys := filterMap_append

@[simp] theorem finishedOf_append (xs ys : List Output) :
    finishedOf (xs ++ ys) = finishedOf xs ++ finishedOf ys := filterMap_append

/-- An output that is about no content. -/
def Output.Silent (out : Output) : Prop :=
  out.accepted? = none ∧ out.handed? = none ∧ out.finished? = none

theorem contents_of_silent {outputs : List Output} (h : ∀ out ∈ outputs, out.Silent) :
    acceptedOf outputs = [] ∧ handedOf outputs = [] ∧ finishedOf outputs = [] := by
  refine ⟨?_, ?_, ?_⟩
  · exact filterMap_eq_nil_iff.mpr fun out ho => (h out ho).1
  · exact filterMap_eq_nil_iff.mpr fun out ho => (h out ho).2.1
  · exact filterMap_eq_nil_iff.mpr fun out ho => (h out ho).2.2

def Output.OfPublish : Output → Prop
  | .accepted _ | .returned _ _ | .dropped _ | .trimmed _ | .selfDestruct => True
  | _ => False

theorem purged_outputs (contents : List Content) :
    acceptedOf (contents.map .purged) = [] ∧ handedOf (contents.map .purged) = [] ∧
      finishedOf (contents.map .purged) = contents := by
  induction contents with
  | nil => exact ⟨rfl, rfl, rfl⟩
  | cons c cs ih =>
    obtain ⟨ha, hh, hf⟩ := ih
    refine ⟨ha, hh, ?_⟩
    show c :: finishedOf (cs.map .purged) = c :: cs
    rw [hf]

variable {store : Store}

theorem get_outputs {queue : BasicQueue} {channel : Option ChannelRef} :
    ∀ out ∈ (queue.get store channel).2,
      out = .getEmpty ∨ ∃ content messageCount, out = .fetched content messageCount := by
  intro out ho
  simp only [BasicQueue.get] at ho
  split at ho
  · cases ho
  · exact Or.inl (mem_singleton.mp ho)
  · exact Or.inr ⟨_, _, mem_singleton.mp ho⟩

/-! ## The search for a consumer -/

variable {ref : ConsumerRef}

theorem takes_eq_true {producerId : ConnectionId}
    (h : store.takes producerId ref = true) :
    ∃ connection, (store.channels (store.consumers ref).channel).connection = some connection ∧
      (store.channels (store.consumers ref).channel).active = true ∧
      1 ≤ (store.channels (store.consumers ref).channel).credit ∧
      ((store.consumers ref).noLocal = true → connection ≠ producerId) := by
  unfold Store.takes at h
  simp only at h
  split at h
  · cases h
  · next connection hc =>
    simp only [Bool.and_eq_true, Bool.or_eq_true, Bool.not_eq_true', decide_eq_true_eq] at h
    obtain ⟨⟨hactive, hcredit⟩, hlocal⟩ := h
    refine ⟨connection, hc, hactive, hcredit, fun hl => ?_⟩
    rcases hlocal with hf | hne
    · rw [hf] at hl
      cases hl
    · exact hne

/-- A consumer that may not have the content is passed by, and does not become the result. -/
theorem getNextConsumer_cons (store : Store) (producerId : ConnectionId) (rc : NextConsumer)
    (ref : ConsumerRef) (refs : List ConsumerRef) :
    (store.takes producerId ref = true ∧
      getNextConsumer store producerId rc (ref :: refs) = .found ref) ∨
    (store.takes producerId ref = false ∧ ∃ rc', (rc' = rc ∨ rc' = .busy) ∧
      getNextConsumer store producerId rc (ref :: refs) =
        getNextConsumer store producerId rc' refs) := by
  rw [getNextConsumer]
  unfold Store.takes
  simp only
  cases hc : (store.channels (store.consumers ref).channel).connection with
  | none => exact Or.inr ⟨rfl, _, Or.inr rfl, rfl⟩
  | some connection =>
    simp only
    by_cases hactive : (store.channels (store.consumers ref).channel).active = true
    · rw [if_pos hactive, hactive]
      by_cases hcredit : (store.channels (store.consumers ref).channel).credit < 1
      · rw [if_pos hcredit]
        exact Or.inr ⟨by simp [Nat.not_le.mpr hcredit], _, Or.inr rfl, rfl⟩
      · rw [if_neg hcredit]
        have hone : 1 ≤ (store.channels (store.consumers ref).channel).credit := by omega
        by_cases hlocal : (store.consumers ref).noLocal = true
        · rw [if_pos hlocal]
          by_cases hne : connection ≠ producerId
          · rw [if_pos hne]
            exact Or.inl ⟨by simp [hone, hne], rfl⟩
          · rw [if_neg hne]
            exact Or.inr ⟨by simp [hlocal, not_not.mp hne], _, Or.inl rfl, rfl⟩
        · rw [if_neg hlocal]
          exact Or.inl ⟨by simp [hone, hlocal], rfl⟩
    · rw [if_neg hactive]
      exact Or.inr ⟨by simp [hactive], _, Or.inr rfl, rfl⟩

theorem getNextConsumer_of_find (store : Store) (producerId : ConnectionId) (rc : NextConsumer)
    (refs : List ConsumerRef) :
    (∀ ref, refs.find? (store.takes producerId) = some ref →
      getNextConsumer store producerId rc refs = .found ref) ∧
    (refs.find? (store.takes producerId) = none → getNextConsumer store producerId rc refs = rc ∨
        getNextConsumer store producerId rc refs = .busy) := by
  induction refs generalizing rc with
  | nil => exact ⟨by simp, fun _ => Or.inl rfl⟩
  | cons ref refs ih =>
    rcases getNextConsumer_cons store producerId rc ref refs with
      ⟨ht, heq⟩ | ⟨ht, rc', hrc', heq⟩
    · rw [heq, find?_cons_of_pos ht]
      exact ⟨fun ref' h => by rw [Option.some.inj h], fun h => by cases h⟩
    · rw [heq, find?_cons_of_neg (by simp [ht])]
      refine ⟨(ih rc').1, fun h => ?_⟩
      rcases (ih rc').2 h with hr | hr
      · rw [hr]
        exact hrc'
      · exact Or.inr hr

theorem getNextConsumer_eq_found {producerId : ConnectionId}
    {refs : List ConsumerRef} :
    getNextConsumer store producerId .none refs = .found ref ↔
      refs.find? (store.takes producerId) = some ref := by
  obtain ⟨hfound, hnone⟩ := getNextConsumer_of_find store producerId .none refs
  constructor
  · intro h
    cases hf : refs.find? (store.takes producerId) with
    | some ref' =>
      rw [hfound ref' hf] at h
      exact congrArg some (NextConsumer.found.inj h)
    | none =>
      rcases hnone hf with hr | hr <;>
        · rw [hr] at h
          cases h
  · exact hfound ref

/-- Each consumer that may have a content but is not `fit` for it stands behind one that is. -/
def FitFirst (takes fit : ConsumerRef → Bool) (refs : List ConsumerRef) : Prop :=
  ∀ ref ∈ refs, takes ref = true → fit ref = false →
    ∃ ref' ∈ refs.takeWhile (· != ref), takes ref' = true ∧ fit ref' = true

instance (takes fit : ConsumerRef → Bool) (refs : List ConsumerRef) :
    Decidable (FitFirst takes fit refs) :=
  inferInstanceAs (Decidable (∀ ref ∈ refs, takes ref = true → fit ref = false →
    ∃ ref' ∈ refs.takeWhile (· != ref), takes ref' = true ∧ fit ref' = true))

theorem mem_of_mem_takeWhile_ne {ref ref' : ConsumerRef} {front back : List ConsumerRef}
    (h : ref' ∈ (front ++ ref :: back).takeWhile (· != ref)) : ref' ∈ front := by
  induction front with
  | nil => simp at h
  | cons r rs ih =>
    rw [cons_append, takeWhile_cons] at h
    split at h
    · rcases mem_cons.mp h with rfl | hm
      · exact mem_cons_self
      · exact mem_cons_of_mem _ (ih hm)
    · cases h

theorem fitFirst_iff {takes fit : ConsumerRef → Bool} {refs : List ConsumerRef} :
    FitFirst takes fit refs ↔ ∀ ref, refs.find? takes = some ref → fit ref = true := by
  constructor
  · intro h ref hf
    obtain ⟨ht, front, back, rfl, hfront⟩ := find?_eq_some_iff_append.mp hf
    by_contra hfit
    obtain ⟨ref', hr, ht', -⟩ := h ref (by simp) ht (by simpa using hfit)
    have hnot := hfront ref' (mem_of_mem_takeWhile_ne hr)
    rw [ht'] at hnot
    cases hnot
  · intro h ref hr ht hunfit
    obtain ⟨first, hf⟩ := Option.isSome_iff_exists.mp (find?_isSome.mpr ⟨ref, hr, ht⟩)
    have hfit := h first hf
    obtain ⟨ht', front, back, rfl, hfront⟩ := find?_eq_some_iff_append.mp hf
    refine ⟨first, ?_, ht', hfit⟩
    rw [takeWhile_append_of_pos, takeWhile_cons_of_pos]
    · simp
    · simp only [bne_iff_ne]
      rintro rfl
      rw [hfit] at hunfit
      cases hunfit
    · intro r hm
      simp only [bne_iff_ne]
      rintro rfl
      have hnot := hfront r hm
      rw [ht] at hnot
      cases hnot

/-! ## The end and the start of a dispatch -/

namespace BasicQueue

@[simp] theorem push_contentList (self : BasicQueue) (content : Content) :
    (self.push content).contentList = content :: self.contentList := rfl

@[simp] theorem push_consumerList (self : BasicQueue) (content : Content) :
    (self.push content).consumerList = self.consumerList := rfl

@[simp] theorem pop_contentList (self : BasicQueue) :
    self.pop.contentList = self.contentList.tail := rfl

@[simp] theorem pop_consumerList (self : BasicQueue) :
    self.pop.consumerList = self.consumerList := rfl

variable {self : BasicQueue}

theorem consume_of_not_mem (h : ref ∉ self.consumerList) :
    self.consume ref =
      ({ self with consumerList := self.consumerList ++ [ref] }, [.attached ref]) := by
  rw [consume, erase_of_not_mem h]

theorem consume_nodup (h : self.consumerList.Nodup) (ref : ConsumerRef) :
    (self.consume ref).1.consumerList.Nodup :=
  nodup_append.mpr ⟨h.erase ref, nodup_singleton ref, fun a ha b hb => by
    obtain rfl := mem_singleton.mp hb
    exact ne_of_mem_of_not_mem ha (h.not_mem_erase)⟩

theorem mem_consume {ref c : ConsumerRef} :
    c ∈ (self.consume ref).1.consumerList ↔ c ∈ self.consumerList ∨ c = ref := by
  by_cases hc : c = ref
  · simp [consume, hc]
  · simp [consume, hc, mem_erase_of_ne hc]

theorem dispatch_cases (self : BasicQueue) (store : Store) (after : Option ConsumerRef) :
    self.dispatch store after = ({ self with state := .dispatching after }, store, []) ∨
      self.dispatch store after = self.finish store after := by
  unfold dispatch
  split
  · exact Or.inl rfl
  · exact Or.inr rfl

theorem finish_contentList (self : BasicQueue) (store : Store) (after : Option ConsumerRef) :
    (self.finish store after).1.contentList = self.contentList := by
  cases after <;> rfl

theorem finish_outputs {after : Option ConsumerRef} :
    ∀ out ∈ (self.finish store after).2.2, ∃ ref, out = .cancelled ref := by
  cases after with
  | none => exact fun out ho => by cases ho
  | some ref => exact fun out ho => ⟨ref, mem_singleton.mp ho⟩

theorem finish_silent (self : BasicQueue) (store : Store) (after : Option ConsumerRef) :
    ∀ out ∈ (self.finish store after).2.2, out.Silent := by
  intro out ho
  obtain ⟨ref, rfl⟩ := finish_outputs out ho
  exact ⟨rfl, rfl, rfl⟩

theorem dispatch_contentList (self : BasicQueue) (store : Store) (after : Option ConsumerRef) :
    (self.dispatch store after).1.contentList = self.contentList := by
  rcases self.dispatch_cases store after with h | h <;> rw [h]
  exact self.finish_contentList store after

theorem dispatch_outputs {after : Option ConsumerRef} :
    ∀ out ∈ (self.dispatch store after).2.2, ∃ ref, out = .cancelled ref := by
  rcases self.dispatch_cases store after with h | h <;> rw [h]
  · exact fun out ho => by cases ho
  · exact finish_outputs

theorem dispatch_silent (self : BasicQueue) (store : Store) (after : Option ConsumerRef) :
    ∀ out ∈ (self.dispatch store after).2.2, out.Silent := by
  intro out ho
  obtain ⟨ref, rfl⟩ := dispatch_outputs out ho
  exact ⟨rfl, rfl, rfl⟩

theorem turn_cases (config : Config) (self : BasicQueue) (store : Store)
    (after : Option ConsumerRef) :
    self.turn config store after = self.finish store after ∨
      ∃ content contents, self.contentList = content :: contents ∧
        ((∃ ref, self.consumerList.find? (store.takes content.producerId) = some ref ∧
          self.turn config store after = deliver config self.pop store content ref) ∨
        self.turn config store after = (self.pop, store, [.discarded content])) := by
  unfold turn
  cases hl : self.contentList with
  | nil => exact Or.inl rfl
  | cons content contents =>
    simp only
    cases hn : getNextConsumer store content.producerId .none self.consumerList with
    | found ref => exact Or.inr ⟨_, _, rfl, Or.inl ⟨ref, getNextConsumer_eq_found.mp hn, rfl⟩⟩
    | busy => exact Or.inl rfl
    | none => exact Or.inr ⟨_, _, rfl, Or.inr rfl⟩

/-! ## Acknowledging and cancelling -/

section Pending

variable {self : BasicQueue} {store : Store} {ref : ConsumerRef}

theorem cancel_of_some {content : Content}
    (h : (store.consumers ref).pendingContent = some content) :
    self.cancel store ref = (self.push content).dispatch store (some ref) := by
  unfold cancel
  rw [h]

theorem cancel_of_none (h : (store.consumers ref).pendingContent = none) :
    self.cancel store ref = self.finish store (some ref) := by
  unfold cancel
  rw [h]

theorem consumerAck_of_some {content : Content}
    (h : (store.consumers ref).pendingContent = some content) :
    self.consumerAck store ref = ((self.dispatch (store.setPending ref none) none).1,
        (self.dispatch (store.setPending ref none) none).2.1,
        .acked ref content :: (self.dispatch (store.setPending ref none) none).2.2) := by
  unfold consumerAck
  rw [h]

theorem consumerAck_of_none (h : (store.consumers ref).pendingContent = none) :
    self.consumerAck store ref = (self, store, []) := by
  unfold consumerAck
  rw [h]

end Pending

/-! ## Publishing -/

theorem applyLimits_cases (self : BasicQueue) (content : Content) :
    ((self.applyLimits content).1.contentList = self.contentList ∧
      (self.applyLimits content).2.1 = none ∧
      (self.applyLimits content).2.2 = [.dropped content]) ∨
    (∃ oldest, self.contentList = oldest :: (self.applyLimits content).1.contentList ∧
      (self.applyLimits content).2.1 = some content ∧
      (self.applyLimits content).2.2 = [.trimmed oldest]) ∨
    ((self.applyLimits content).1.contentList = self.contentList ∧
      (self.applyLimits content).2.1 = some content ∧
      ((self.applyLimits content).2.2 = [] ∨
        (self.applyLimits content).2.2 = [.selfDestruct])) := by
  unfold applyLimits
  simp only
  split
  · exact Or.inl ⟨rfl, rfl, rfl⟩
  split
  · next h =>
    refine Or.inr (Or.inl ?_)
    cases hl : self.contentList with
    | nil =>
      rw [hl, length_nil] at h
      omega
    | cons oldest contents => exact ⟨oldest, rfl, rfl, rfl⟩
  split
  · exact Or.inr (Or.inr ⟨rfl, rfl, Or.inr rfl⟩)
  split
  · exact Or.inr (Or.inr ⟨rfl, rfl, Or.inl rfl⟩)
  · exact Or.inr (Or.inr ⟨rfl, rfl, Or.inl rfl⟩)

/-- The fields of a queue that publishing leaves alone. -/
structure SameConsumers (queue queue' : BasicQueue) : Prop where
  consumerList : queue'.consumerList = queue.consumerList
  state : queue'.state = queue.state
  exclusive : queue'.exclusive = queue.exclusive
  dropLimit : queue'.dropLimit = queue.dropLimit
  trimLimit : queue'.trimLimit = queue.trimLimit

theorem applyLimits_same (self : BasicQueue) (content : Content) :
    SameConsumers self (self.applyLimits content).1 := by
  unfold applyLimits
  simp only
  split
  · exact ⟨rfl, rfl, rfl, rfl, rfl⟩
  split
  · exact ⟨rfl, rfl, rfl, rfl, rfl⟩
  split
  · exact ⟨rfl, rfl, rfl, rfl, rfl⟩
  split
  · exact ⟨rfl, rfl, rfl, rfl, rfl⟩
  · exact ⟨rfl, rfl, rfl, rfl, rfl⟩

theorem accept_some_cases (self : BasicQueue) (store : Store) (channel : Option ChannelRef)
    (immediate : Bool) (content : Content) :
    self.accept store channel immediate (some content) = (self, [.returned content channel]) ∨
      self.accept store channel immediate (some content) =
        ({ self with contentList := self.contentList ++ [content] }, [.accepted content]) := by
  by_cases h : (immediate && !self.haveActiveConsumers store) = true
  · exact Or.inl (if_pos h)
  · exact Or.inr (if_neg h)

theorem accept_same (self : BasicQueue) (store : Store) (channel : Option ChannelRef)
    (immediate : Bool) (content : Option Content) :
    SameConsumers self (self.accept store channel immediate content).1 := by
  cases content with
  | none => exact ⟨rfl, rfl, rfl, rfl, rfl⟩
  | some content =>
    rcases self.accept_some_cases store channel immediate content with h | h <;>
      · rw [h]
        exact ⟨rfl, rfl, rfl, rfl, rfl⟩

theorem SameConsumers.trans {q1 q2 q3 : BasicQueue} (h1 : SameConsumers q1 q2)
    (h2 : SameConsumers q2 q3) : SameConsumers q1 q3 :=
  ⟨h2.consumerList.trans h1.consumerList, h2.state.trans h1.state,
    h2.exclusive.trans h1.exclusive, h2.dropLimit.trans h1.dropLimit,
    h2.trimLimit.trans h1.trimLimit⟩

def counted (self : BasicQueue) (content : Content) : BasicQueue :=
  { self with
    contentsIn := self.contentsIn + 1, trafficIn := self.trafficIn + content.bodySize }

theorem receive_same (self : BasicQueue) (store : Store) (channel : Option ChannelRef)
    (content : Content) (immediate : Bool) :
    SameConsumers self (self.receive store channel content immediate).1 := by
  have hl := (self.counted content).applyLimits_same content
  exact SameConsumers.trans { hl with } (accept_same _ store channel immediate _)

theorem applyLimits_ofPublish (self : BasicQueue) (content : Content) :
    ∀ out ∈ (self.applyLimits content).2.2, out.OfPublish := by
  rcases self.applyLimits_cases content with
    ⟨-, -, ho⟩ | ⟨oldest, -, -, ho⟩ | ⟨-, -, ho | ho⟩ <;> rw [ho] <;>
    simp [Output.OfPublish]

theorem accept_ofPublish (self : BasicQueue) (store : Store) (channel : Option ChannelRef)
    (immediate : Bool) (content : Option Content) :
    ∀ out ∈ (self.accept store channel immediate content).2, out.OfPublish := by
  cases content with
  | none => simp [accept]
  | some content =>
    rcases self.accept_some_cases store channel immediate content with h | h <;> rw [h] <;>
      simp [Output.OfPublish]

theorem receive_ofPublish (self : BasicQueue) (store : Store) (channel : Option ChannelRef)
    (content : Content) (immediate : Bool) :
    ∀ out ∈ (self.receive store channel content immediate).2, out.OfPublish := by
  intro out ho
  rcases mem_append.mp ho with hl | ha
  · exact applyLimits_ofPublish _ content out hl
  · exact accept_ofPublish _ store channel immediate _ out ha

/--
What publishing does to the list before it dispatches: contents at the front are trimmed,
the new one goes to the end unless it is dropped or returned.
-/
theorem receive_contents (self : BasicQueue) (store : Store) (channel : Option ChannelRef)
    (content : Content) (immediate : Bool) :
    ∃ rest, self.contentList = finishedOf (self.receive store channel content immediate).2 ++ rest ∧
      (self.receive store channel content immediate).1.contentList =
        rest ++ acceptedOf (self.receive store channel content immediate).2 ∧
      handedOf (self.receive store channel content immediate).2 = [] := by
  have heq : self.receive store channel content immediate =
      ((((self.counted content).applyLimits content).1.accept store channel immediate
          ((self.counted content).applyLimits content).2.1).1,
        ((self.counted content).applyLimits content).2.2 ++
          (((self.counted content).applyLimits content).1.accept store channel immediate
            ((self.counted content).applyLimits content).2.1).2) := rfl
  rw [heq]
  rcases (self.counted content).applyLimits_cases content with
    ⟨hl, hc, ho⟩ | ⟨oldest, hl, hc, ho⟩ | ⟨hl, hc, ho⟩
  · refine ⟨self.contentList, ?_⟩
    rw [hc, ho]
    exact ⟨rfl, by rw [accept, hl]; exact (append_nil _).symm, rfl⟩
  · have haccept := ((self.counted content).applyLimits content).1.accept_some_cases store
      channel immediate content
    refine ⟨((self.counted content).applyLimits content).1.contentList, ?_⟩
    have hself : self.contentList = oldest :: _ := hl
    rw [hc, ho]
    rcases haccept with h | h <;> rw [h]
    · exact ⟨hself, (append_nil _).symm, rfl⟩
    · exact ⟨hself, rfl, rfl⟩
  · have haccept := ((self.counted content).applyLimits content).1.accept_some_cases store
      channel immediate content
    refine ⟨self.contentList, ?_⟩
    have hself : _ = self.contentList := hl
    rw [hc]
    rcases haccept with h | h <;> rw [h] <;> rcases ho with ho | ho <;> rw [ho]
    · exact ⟨rfl, hself.trans (append_nil _).symm, rfl⟩
    · exact ⟨rfl, hself.trans (append_nil _).symm, rfl⟩
    · exact ⟨rfl, congrArg (· ++ [content]) hself, rfl⟩
    · exact ⟨rfl, congrArg (· ++ [content]) hself, rfl⟩

end BasicQueue

/-! ## Steps -/

namespace QueueSystem

/-- The state after a run, and the outputs of all its steps. -/
def outcome (config : Config) (s : QueueSystem) (events : List QueueEvent) :
    Option (QueueSystem × List Output) := Lib.run (Lib.logged (step config)) (s, []) events

/-- Every step of a run meets `ok` in the state before it. -/
def Throughout (config : Config) (ok : QueueSystem → QueueEvent → Prop) (s : QueueSystem)
    (events : List QueueEvent) : Prop :=
  Lib.Along (Lib.logged (step config)) (fun t event => ok t.1 event) (s, []) events

instance (config : Config) (ok : QueueSystem → QueueEvent → Prop)
    [∀ s event, Decidable (ok s event)] (s : QueueSystem) (events : List QueueEvent) :
    Decidable (Throughout config ok s events) :=
  inferInstanceAs (Decidable (Lib.Along (Lib.logged (step config))
    (fun t event => ok t.1 event) (s, []) events))

/-- At a turn, the consumers that may have the first content are in order: see `FitFirst`. -/
def Offers (fit : Store → ConsumerRef → Bool) (s : QueueSystem) (event : QueueEvent) : Prop :=
  event = .turn → ∀ content ∈ s.queue.contentList.head?,
    FitFirst (s.store.takes content.producerId) (fit s.store) s.queue.consumerList

instance (fit : Store → ConsumerRef → Bool) (s : QueueSystem) (event : QueueEvent) :
    Decidable (s.Offers fit event) :=
  inferInstanceAs (Decidable (event = .turn → ∀ content ∈ s.queue.contentList.head?,
    FitFirst (s.store.takes content.producerId) (fit s.store) s.queue.consumerList))

/-- What a step does, by the kind of step. Requests are taken by a queue that is idle. -/
inductive Move (config : Config) (s : QueueSystem) :
    QueueEvent → QueueSystem → List Output → Prop
  /-- another thread changes a channel -/
  | setChannel (ref : ChannelRef) (channel : Channel) :
      Move config s (.setChannel ref channel) ⟨s.queue, s.store.setChannel ref channel⟩ []
  /-- another thread pauses or resumes a consumer -/
  | setPaused (ref : ConsumerRef) (paused : Bool) :
      Move config s (.setPaused ref paused)
        ⟨s.queue, s.store.setConsumer ref { s.store.consumers ref with paused }⟩ []
  | turn {after : Option ConsumerRef} (hst : s.queue.state = .dispatching after) :
      Move config s .turn
        ⟨(s.queue.turn config s.store after).1, (s.queue.turn config s.store after).2.1⟩
        (s.queue.turn config s.store after).2.2
  | publish (channel : Option ChannelRef) (content : Content) (immediate : Bool)
      (hidle : s.queue.state = .idle) :
      Move config s (.publish channel content immediate)
        ⟨((s.queue.receive s.store channel content immediate).1.dispatch s.store none).1,
          ((s.queue.receive s.store channel content immediate).1.dispatch s.store none).2.1⟩
        ((s.queue.receive s.store channel content immediate).2 ++
          ((s.queue.receive s.store channel content immediate).1.dispatch s.store none).2.2)
  | dispatch (hidle : s.queue.state = .idle) :
      Move config s .dispatch
        ⟨(s.queue.dispatch s.store none).1, (s.queue.dispatch s.store none).2.1⟩
        (s.queue.dispatch s.store none).2.2
  | consume {ref : ConsumerRef} (consumer : Consumer) (hidle : s.queue.state = .idle)
      (hnew : ref ∉ s.queue.consumerList) :
      Move config s (.consume ref consumer) ⟨(s.queue.consume ref).1,
          s.store.setConsumer ref { consumer with pendingContent := none }⟩
        [.attached ref]
  | cancelFree {ref : ConsumerRef} (hidle : s.queue.state = .idle)
      (hp : (s.store.consumers ref).pendingContent = none) :
      Move config s (.cancel ref)
        ⟨(s.queue.finish s.store (some ref)).1, (s.queue.finish s.store (some ref)).2.1⟩
        (s.queue.finish s.store (some ref)).2.2
  /-- the content that the consumer holds goes back to the list -/
  | cancelHolder {ref : ConsumerRef} {content : Content} (hidle : s.queue.state = .idle)
      (hp : (s.store.consumers ref).pendingContent = some content) :
      Move config s (.cancel ref) ⟨((s.queue.push content).dispatch s.store (some ref)).1,
          ((s.queue.push content).dispatch s.store (some ref)).2.1⟩
        ((s.queue.push content).dispatch s.store (some ref)).2.2
  | ackFree {ref : ConsumerRef} (hidle : s.queue.state = .idle)
      (hp : (s.store.consumers ref).pendingContent = none) :
      Move config s (.consumerAck ref) s []
  | ackHolder {ref : ConsumerRef} {content : Content} (hidle : s.queue.state = .idle)
      (hp : (s.store.consumers ref).pendingContent = some content) :
      Move config s (.consumerAck ref) ⟨(s.queue.dispatch (s.store.setPending ref none) none).1,
          (s.queue.dispatch (s.store.setPending ref none) none).2.1⟩
        (.acked ref content :: (s.queue.dispatch (s.store.setPending ref none) none).2.2)
  | get (channel : Option ChannelRef) (hidle : s.queue.state = .idle) :
      Move config s (.get channel) ⟨s.queue.pop, s.store⟩ (s.queue.get s.store channel).2
  | purge (hidle : s.queue.state = .idle) :
      Move config s .purge ⟨s.queue.purge.1, s.store⟩ (s.queue.contentList.map .purged)

variable {s : QueueSystem}

theorem move_of_request {config : Config} {event : QueueEvent}
    {r : BasicQueue × Store × List Output} (hidle : s.queue.state = .idle)
    (hr : s.request event = some r) : Move config s event ⟨r.1, r.2.1⟩ r.2.2 := by
  cases event with
  | publish channel content immediate =>
    cases hr
    exact .publish channel content immediate hidle
  | dispatch =>
    cases hr
    exact .dispatch hidle
  | consume ref consumer =>
    simp only [request] at hr
    split at hr
    · cases hr
    · next hnew =>
      cases hr
      exact .consume consumer hidle hnew
  | cancel ref =>
    cases hr
    cases hp : (s.store.consumers ref).pendingContent with
    | none =>
      rw [BasicQueue.cancel_of_none hp]
      exact .cancelFree hidle hp
    | some content =>
      rw [BasicQueue.cancel_of_some hp]
      exact .cancelHolder hidle hp
  | consumerAck ref =>
    cases hr
    cases hp : (s.store.consumers ref).pendingContent with
    | none =>
      rw [BasicQueue.consumerAck_of_none hp]
      exact .ackFree hidle hp
    | some content =>
      rw [BasicQueue.consumerAck_of_some hp]
      exact .ackHolder hidle hp
  | get channel =>
    cases hr
    exact .get channel hidle
  | purge =>
    cases hr
    exact .purge hidle
  | turn | setChannel ref channel | setPaused ref paused => cases hr

/-- Each step is a move of its kind. -/
theorem move_of_step {config : Config} {s' : QueueSystem} {event : QueueEvent}
    {outputs : List Output} (h : s.step config event = some (s', outputs)) :
    Move config s event s' outputs := by
  unfold step at h
  split at h
  · cases h
    exact .setChannel _ _
  · cases h
    exact .setPaused _ _
  · split at h
    · cases h
    · next after hst =>
      cases h
      exact .turn hst
  · split at h
    · next hidle =>
      obtain ⟨r, hr, he⟩ := Option.map_eq_some_iff.mp h
      cases he
      exact move_of_request hidle hr
    · cases h

/-- A turn under `Offers`: the loop ends, a fit consumer has the content, or nobody has. -/
theorem Offers.turn_cases {fit : Store → ConsumerRef → Bool} (h : s.Offers fit .turn)
    (config : Config) (after : Option ConsumerRef) :
    s.queue.turn config s.store after = s.queue.finish s.store after ∨
      ∃ content contents, s.queue.contentList = content :: contents ∧
        ((∃ ref, s.queue.consumerList.find? (s.store.takes content.producerId) = some ref ∧
          fit s.store ref = true ∧ s.queue.turn config s.store after =
            s.queue.pop.deliver config s.store content ref) ∨
        s.queue.turn config s.store after = (s.queue.pop, s.store, [.discarded content])) := by
  rcases s.queue.turn_cases config s.store after with
    ht | ⟨content, contents, hl, ⟨ref, hf, ht⟩ | ht⟩
  · exact Or.inl ht
  · have hfit := fitFirst_iff.mp (h rfl content (by rw [hl]; rfl)) ref hf
    exact Or.inr ⟨content, contents, hl, Or.inl ⟨ref, hf, hfit, ht⟩⟩
  · exact Or.inr ⟨content, contents, hl, Or.inr ht⟩

end QueueSystem

end OpenAmq
