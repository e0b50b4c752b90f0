import Mathlib.Data.List.Nodup
import OpenAmq.Lib.BackInsert
import OpenAmq.Lib.Run

/-!
# Methods

Any thread may put a method into the queue of a threadlet. The threadlet takes the methods out of
the queue one by one, inserts them into a list by their priority, and accepts the first of the list.
Methods may be sent at any point of this, by the sockets too that it polls in the middle.

* `MethodThread` — the queue and the list of a threadlet
* `MethodThread.step` — a method is sent, or the threadlet goes on
* `Delivering`, `delivering_step` — where the methods are, over one step
* `methods_delivered` — over any run
-/

namespace OpenAmq

open Lib List

/-- `smt_priority_t` -/
inductive SmtPriority where
  | high
  | normal
deriving DecidableEq

/-- The value in C; a lower one is more urgent. -/
def SmtPriority.rank : SmtPriority → Nat
  | high => 0
  | normal => 1

/-- An `smt_method` -/
structure SmtMethod where
  /-- in the order in which methods came into the queue -/
  number : Nat
  sender : Nat
  event : Nat
  priority : SmtPriority
  result : Int
deriving DecidableEq

def SmtMethod.rank (self : SmtMethod) : Nat := self.priority.rank

structure MethodThread where
  replyQueue : List SmtMethod := []
  replyList : List SmtMethod := []
  /-- of 32 bits, which as many methods as fit in memory do not exceed -/
  replyBacklog : Nat := 0
  /-- `clear method queue` is under way, for an accept or not, with the method that was popped -/
  clearing : Option (Bool × Option SmtMethod) := none
  /-- the last method received -/
  method : Option SmtMethod := none
  nextEvent : Nat := 0
  result : Int := 0
  /-- all methods that the queue has accepted -/
  sent : List SmtMethod := []
  delivered : List SmtMethod := []
deriving DecidableEq

namespace MethodThread

/-- What happens to a threadlet -/
inductive Event where
  /-- `smt_method_send` -/
  | send (sender event : Nat) (priority : SmtPriority) (result : Int)
  /-- `clear method queue` pops the first method. It is called by `method accept`, and by `continue`
  and `s_clear_queues`, which then look at the first method of the list only. -/
  | start (accepting : Bool)
  /-- the method that was popped is inserted into the list, and the next one is popped -/
  | insert
  /-- no method was popped -/
  | finish
deriving DecidableEq

/-- A step of the threadlet, and not of a sender -/
def Event.isOwn : Event → Bool
  | send _ _ _ _ => false
  | start _ | insert | finish => true

/-- `smt_method_send` -/
def send (self : MethodThread) (sender event : Nat) (priority : SmtPriority) (result : Int) :
    MethodThread :=
  let method : SmtMethod := ⟨self.sent.length, sender, event, priority, result⟩
  { self with replyQueue := self.replyQueue ++ [method], sent := self.sent ++ [method] }

def pop (self : MethodThread) (accepting : Bool) : MethodThread :=
  { self with
    replyQueue := self.replyQueue.tail
    clearing := some (accepting, self.replyQueue.head?) }

/-- Inserts a method into the list, in front of those of lower priority. -/
def insert (self : MethodThread) (method : SmtMethod) : MethodThread :=
  { self with
    replyList := insertBack SmtMethod.rank method self.replyList
    replyBacklog := self.replyBacklog + 1 }

/-- The end of `method accept`; an empty list is `SMT_EMPTY`. -/
def take (self : MethodThread) : MethodThread :=
  match self.replyList with
  | [] => { self with clearing := none, method := none }
  | method :: methods =>
    { self with
      clearing := none
      replyList := methods
      replyBacklog := self.replyBacklog - 1
      method := some method
      nextEvent := method.event
      result := method.result
      delivered := self.delivered ++ [method] }

def step (self : MethodThread) : Event → Option MethodThread
  | .send sender event priority result => some (self.send sender event priority result)
  | .start accepting => if self.clearing = none then some (self.pop accepting) else none
  | .insert =>
    match self.clearing with
    | some (accepting, some method) => some ((self.insert method).pop accepting)
    | _ => none
  | .finish =>
    match self.clearing with
    | some (true, none) => some self.take
    | some (false, none) => some { self with clearing := none }
    | _ => none

def held (self : MethodThread) : List SmtMethod :=
  match self.clearing with
  | some (_, some method) => [method]
  | _ => []

def incoming (self : MethodThread) : List SmtMethod := self.held ++ self.replyQueue

/-! ## One step -/

/-- `a` was sent before `b`. -/
def Before (a b : SmtMethod) : Prop := a.number < b.number

/-- The methods that have been sent are delivered, in the list or incoming. -/
structure Delivering (thread : MethodThread) : Prop where
  numbers : thread.sent.map SmtMethod.number = range thread.sent.length
  once : (thread.delivered ++ thread.replyList ++ thread.incoming).Perm thread.sent
  /-- those of one priority are in the order in which they were sent -/
  order : ∀ k, (thread.delivered ++ thread.replyList ++ thread.incoming).filter
    (fun method => decide (method.rank = k)) =
      thread.sent.filter fun method => decide (method.rank = k)
  sorted : InKeyOrder SmtMethod.rank Before thread.replyList
  behind : ∀ a ∈ thread.replyList, ∀ b ∈ thread.incoming, Before a b
  fifo : thread.incoming.Pairwise Before
  backlog : thread.replyBacklog = thread.replyList.length

variable {self next : MethodThread} {method : SmtMethod}

theorem delivering_new : Delivering {} where
  numbers := rfl
  once := .nil
  order := fun _ => rfl
  sorted := .nil
  behind := by simp
  fifo := .nil
  backlog := rfl

theorem Delivering.number_lt (h : Delivering self) {m : SmtMethod} (hm : m ∈ self.sent) :
    m.number < self.sent.length := by
  have hmem : m.number ∈ self.sent.map SmtMethod.number := mem_map_of_mem hm
  rwa [h.numbers, mem_range] at hmem

theorem incoming_send (sender event : Nat) (priority : SmtPriority) (result : Int) :
    (self.send sender event priority result).incoming =
      self.incoming ++ [⟨self.sent.length, sender, event, priority, result⟩] :=
  (append_assoc _ _ _).symm

theorem Delivering.send (h : Delivering self) (sender event : Nat) (priority : SmtPriority)
    (result : Int) : Delivering (self.send sender event priority result) where
  numbers := by
    show (self.sent ++ [_]).map SmtMethod.number = range (self.sent ++ [_]).length
    rw [map_append, h.numbers, length_append, length_singleton, range_succ]
    rfl
  once := by
    rw [incoming_send, ← append_assoc]
    exact h.once.append_right _
  order := by
    intro k
    rw [incoming_send, ← append_assoc, filter_append]
    refine (congrArg (· ++ filter _ _) (h.order k)).trans ?_
    rw [← filter_append]
    rfl
  sorted := h.sorted
  behind := by
    intro a ha b hb
    rw [incoming_send, mem_append, mem_singleton] at hb
    rcases hb with hb | rfl
    · exact h.behind a ha b hb
    · exact h.number_lt (h.once.subset (by simp [show a ∈ self.replyList from ha]))
  fifo := by
    rw [incoming_send, pairwise_append]
    refine ⟨h.fifo, pairwise_singleton _ _, fun a ha b hb => ?_⟩
    rw [mem_singleton.mp hb]
    exact h.number_lt (h.once.subset (by simp [ha]))
  backlog := h.backlog

theorem incoming_pop (accepting : Bool) (h : self.held = []) :
    (self.pop accepting).incoming = self.incoming := by
  rw [incoming, incoming, h]
  cases hq : self.replyQueue with
  | nil | cons m ms => simp [pop, held, hq]

theorem Delivering.congr (h : Delivering self) (hsent : next.sent = self.sent)
    (hdelivered : next.delivered = self.delivered) (hlist : next.replyList = self.replyList)
    (hbacklog : next.replyBacklog = self.replyBacklog)
    (hincoming : next.incoming = self.incoming) : Delivering next where
  numbers := by
    rw [hsent]
    exact h.numbers
  once := by
    rw [hsent, hdelivered, hlist, hincoming]
    exact h.once
  order := by
    rw [hsent, hdelivered, hlist, hincoming]
    exact h.order
  sorted := by
    rw [hlist]
    exact h.sorted
  behind := by
    rw [hlist, hincoming]
    exact h.behind
  fifo := by
    rw [hincoming]
    exact h.fifo
  backlog := by
    rw [hbacklog, hlist]
    exact h.backlog

theorem Delivering.pop (h : Delivering self) (accepting : Bool) (hheld : self.held = []) :
    Delivering (self.pop accepting) :=
  h.congr rfl rfl rfl rfl (incoming_pop accepting hheld)

variable {accepting : Bool}

theorem Delivering.insert (h : Delivering self) (accepting' : Bool)
    (hclearing : self.clearing = some (accepting, some method)) :
    Delivering ({ self.insert method with clearing := some (accepting', none) }) := by
  have hincoming : self.incoming = method :: self.replyQueue := by
    rw [incoming, held, hclearing]
    rfl
  have hnext : ({ self.insert method with
      clearing := some (accepting', none) } : MethodThread).incoming = self.replyQueue := rfl
  have hfifo := h.fifo
  rw [hincoming, pairwise_cons] at hfifo
  have hbehind := h.behind
  rw [hincoming] at hbehind
  refine ⟨h.numbers, ?_, fun k => ?_, ?_, ?_, ?_, ?_⟩
  · rw [hnext]
    have honce := h.once
    rw [hincoming] at honce
    refine List.Perm.trans ?_ honce
    show (self.delivered ++ insertBack SmtMethod.rank method self.replyList ++
      self.replyQueue).Perm _
    rw [append_assoc, append_assoc]
    refine List.Perm.append_left _ ?_
    refine ((insertBack_perm SmtMethod.rank method self.replyList).append_right _).trans ?_
    exact perm_middle.symm
  · rw [hnext]
    have horder := h.order k
    rw [hincoming, append_assoc, filter_append, filter_append, filter_cons] at horder
    show (self.delivered ++ insertBack SmtMethod.rank method self.replyList ++
      self.replyQueue).filter _ = self.sent.filter _
    rw [filter_append, filter_append, filter_insertBack, ← horder, filter_cons]
    split
    · simp
    · simp
  · exact h.sorted.insertBack fun b hb => hbehind b hb method mem_cons_self
  · intro a ha b hb
    rcases (mem_insertBack SmtMethod.rank).mp ha with rfl | ha
    · exact hfifo.1 b hb
    · exact hbehind a ha b (mem_cons_of_mem _ hb)
  · exact hfifo.2
  · show self.replyBacklog + 1 = (insertBack SmtMethod.rank method self.replyList).length
    rw [length_insertBack, h.backlog]

theorem take_cases (self : MethodThread) :
    self.replyList = [] ∧ self.take = { self with clearing := none, method := none } ∨
      ∃ method methods, self.replyList = method :: methods ∧ self.take = { self with
        clearing := none, replyList := methods, replyBacklog := self.replyBacklog - 1,
        method := some method, nextEvent := method.event, result := method.result,
        delivered := self.delivered ++ [method] } := by
  unfold MethodThread.take
  split
  · next hlist => exact .inl ⟨hlist, rfl⟩
  · next method methods hlist => exact .inr ⟨method, methods, hlist, rfl⟩

theorem Delivering.take (h : Delivering self) (hheld : self.held = []) : Delivering self.take := by
  have hincoming : self.incoming = self.replyQueue := by rw [incoming, hheld, nil_append]
  rcases self.take_cases with ⟨-, htake⟩ | ⟨method, methods, hlist, htake⟩
  · rw [htake]
    exact h.congr rfl rfl rfl rfl hincoming.symm
  · have hmoved : self.delivered ++ [method] ++ methods ++ self.replyQueue =
        self.delivered ++ self.replyList ++ self.incoming := by
      rw [hlist, hincoming, append_assoc self.delivered]
      rfl
    have hsorted := h.sorted
    have hbehind := h.behind
    have hfifo := h.fifo
    have hbacklog := h.backlog
    rw [hlist] at hsorted hbehind hbacklog
    rw [hincoming] at hbehind hfifo
    rw [htake]
    refine ⟨h.numbers, ?_, ?_, hsorted.sublist (sublist_cons_self _ _), ?_, hfifo, ?_⟩
    · show (self.delivered ++ [method] ++ methods ++ self.replyQueue).Perm self.sent
      rw [hmoved]
      exact h.once
    · show ∀ k, (self.delivered ++ [method] ++ methods ++ self.replyQueue).filter _ =
        self.sent.filter _
      rw [hmoved]
      exact h.order
    · exact fun a ha b hb => hbehind a (mem_cons_of_mem _ ha) b hb
    · show self.replyBacklog - 1 = methods.length
      rw [length_cons] at hbacklog
      omega

theorem held_of_clearing_none (h : self.clearing = none) : self.held = [] := by
  rw [held, h]

/-- A step loses no method and doubles none. -/
theorem delivering_step (h : Delivering self) {event : Event} (hs : self.step event = some next) :
    Delivering next := by
  cases event with
  | send sender event priority result =>
    exact Option.some.inj hs ▸ h.send sender event priority result
  | start accepting =>
    obtain ⟨hidle, hs⟩ := Option.ite_none_right_eq_some.mp hs
    exact Option.some.inj hs ▸ h.pop accepting (held_of_clearing_none hidle)
  | insert =>
    unfold step at hs
    simp only at hs
    split at hs
    · next accepting method hclearing =>
      cases hs
      exact (h.insert accepting hclearing).pop accepting rfl
    · cases hs
  | finish =>
    unfold step at hs
    simp only at hs
    split at hs
    · next hclearing =>
      cases hs
      exact h.take (by rw [held, hclearing])
    · next hclearing =>
      cases hs
      exact h.congr rfl rfl rfl rfl (by rw [incoming, incoming, held, held, hclearing])
    · cases hs

/-! ## The method that is delivered -/

/-- At most one method is delivered, the most urgent one of the list, and of these the earliest. -/
theorem Delivering.delivered (h : Delivering self) {event : Event}
    (hs : self.step event = some next) :
    next.delivered = self.delivered ∨ ∃ method ∈ self.replyList,
      next.delivered = self.delivered ++ [method] ∧
      ∀ other ∈ self.replyList, other = method ∨ method.rank < other.rank ∨
        method.rank = other.rank ∧ method.number < other.number := by
  cases event with
  | send sender event priority result =>
    cases hs
    exact .inl rfl
  | start accepting =>
    obtain ⟨-, hs⟩ := Option.ite_none_right_eq_some.mp hs
    cases hs
    exact .inl rfl
  | insert =>
    unfold step at hs
    simp only at hs
    split at hs
    · cases hs
      exact .inl rfl
    · cases hs
  | finish =>
    unfold step at hs
    simp only at hs
    split at hs
    · cases hs
      rcases self.take_cases with ⟨-, htake⟩ | ⟨method, methods, hlist, htake⟩
      · exact .inl (by rw [htake])
      · refine .inr ⟨method, by simp [hlist], by rw [htake], fun other hother => ?_⟩
        have hsorted := h.sorted
        rw [hlist] at hother hsorted
        rcases mem_cons.mp hother with rfl | hother
        · exact .inl rfl
        · exact .inr (hsorted.head_le hother)
    · cases hs
      exact .inl rfl
    · cases hs

/-! ## All methods are delivered -/

/-- The threadlet gets from one state to the other without a sender. -/
def Reaches (self next : MethodThread) : Prop :=
  ∃ own : List Event, (∀ event ∈ own, event.isOwn = true) ∧
    Lib.run step self own = some next ∧ next.sent = self.sent

theorem Reaches.refl (self : MethodThread) : Reaches self self := ⟨[], by simp, rfl, rfl⟩

theorem Reaches.trans {last : MethodThread} (h : Reaches self next) (h' : Reaches next last) :
    Reaches self last := by
  obtain ⟨own, hown, hrun, hsent⟩ := h
  obtain ⟨own', hown', hrun', hsent'⟩ := h'
  refine ⟨own ++ own', ?_, ?_, hsent'.trans hsent⟩
  · intro event hevent
    rcases mem_append.mp hevent with hevent | hevent
    · exact hown event hevent
    · exact hown' event hevent
  · rw [run_append, hrun]
    exact hrun'

theorem Reaches.single (event : Event) (hown : event.isOwn = true)
    (hs : self.step event = some next) (hsent : next.sent = self.sent) : Reaches self next :=
  ⟨[event], by simpa using hown, by simp [run_cons, hs], hsent⟩

theorem take_sent (self : MethodThread) :
    self.take.sent = self.sent ∧ self.take.replyQueue = self.replyQueue ∧
      self.take.clearing = none ∧ self.take.replyList = self.replyList.tail := by
  rcases self.take_cases with ⟨hlist, htake⟩ | ⟨method, methods, hlist, htake⟩
  · rw [htake, hlist]
    exact ⟨rfl, rfl, rfl, rfl⟩
  · rw [htake, hlist]
    exact ⟨rfl, rfl, rfl, rfl⟩

theorem reaches_finish (h : self.clearing = some (accepting, none)) :
    ∃ next, Reaches self next ∧ next.clearing = none ∧ next.replyQueue = self.replyQueue := by
  cases accepting with
  | true =>
    obtain ⟨hsent, hqueue, hclearing, -⟩ := self.take_sent
    refine ⟨self.take, .single .finish rfl ?_ hsent, hclearing, hqueue⟩
    unfold step
    rw [h]
  | false =>
    refine ⟨{ self with clearing := none }, .single .finish rfl ?_ rfl, rfl, rfl⟩
    unfold step
    rw [h]

theorem reaches_cleared {popped : Option SmtMethod}
    (h : self.clearing = some (accepting, popped)) (hlast : popped = none → self.replyQueue = []) :
    ∃ next, Reaches self next ∧ next.clearing = none ∧ next.replyQueue = [] := by
  obtain ⟨n, hn⟩ : ∃ n, self.incoming.length = n := ⟨_, rfl⟩
  induction n generalizing self popped with
  | zero =>
    cases popped with
    | none =>
      obtain ⟨next, hreach, hclearing, hqueue⟩ := reaches_finish h
      exact ⟨next, hreach, hclearing, hqueue.trans (hlast rfl)⟩
    | some method => simp [incoming, held, h] at hn
  | succ n ih =>
    cases popped with
    | none => simp [incoming, held, h, hlast rfl] at hn
    | some method =>
      have hinsert : self.step .insert = some ((self.insert method).pop accepting) := by
        unfold step
        rw [h]
      have hincoming : ((self.insert method).pop accepting).incoming = self.replyQueue := by
        have hpop := @incoming_pop { self.insert method with clearing := none } accepting rfl
        exact hpop
      rw [incoming, held, h] at hn
      have hlength : self.replyQueue.length = n := by simpa using hn
      obtain ⟨next, hreach, hnext⟩ := @ih ((self.insert method).pop accepting) _ rfl
        (fun hnone => by
          have hnil := head?_eq_none_iff.mp hnone
          simp [MethodThread.pop, hnil]) (by rw [hincoming, hlength])
      exact ⟨next, (Reaches.single .insert rfl hinsert rfl).trans hreach, hnext⟩

theorem reaches_empty_queue (self : MethodThread) :
    ∃ next, Reaches self next ∧ next.clearing = none ∧ next.replyQueue = [] := by
  have hidle : ∀ s : MethodThread, s.clearing = none →
      ∃ next, Reaches s next ∧ next.clearing = none ∧ next.replyQueue = [] := by
    intro s hs
    obtain ⟨next, hreach, hnext⟩ := @reaches_cleared (s.pop false) _ _ rfl
      (fun hnone => by simp [MethodThread.pop, head?_eq_none_iff.mp hnone])
    exact ⟨next, (Reaches.single (.start false) rfl (if_pos hs) rfl).trans hreach, hnext⟩
  match hclearing : self.clearing with
  | none => exact hidle self hclearing
  | some (accepting, none) =>
    obtain ⟨next, hreach, hnone, -⟩ := reaches_finish hclearing
    obtain ⟨last, hreach', hlast⟩ := hidle next hnone
    exact ⟨last, hreach.trans hreach', hlast⟩
  | some (accepting, some method) => exact reaches_cleared hclearing (by simp)

theorem reaches_empty (hclearing : self.clearing = none) (hqueue : self.replyQueue = []) :
    ∃ next, Reaches self next ∧ next.incoming = [] ∧ next.replyList = [] := by
  obtain ⟨n, hn⟩ : ∃ n, self.replyList.length = n := ⟨_, rfl⟩
  induction n generalizing self with
  | zero =>
    refine ⟨self, .refl self, ?_, length_eq_zero_iff.mp hn⟩
    rw [incoming, held_of_clearing_none hclearing, hqueue]
    rfl
  | succ n ih =>
    obtain ⟨hsent, hqueue', hclearing', hlist⟩ := (self.pop true).take_sent
    have hreach : Reaches self (self.pop true).take := by
      refine (Reaches.single (.start true) rfl (if_pos hclearing) rfl).trans ?_
      refine .single .finish rfl ?_ hsent
      unfold step
      simp [MethodThread.pop, hqueue]
    obtain ⟨next, hreach', hnext⟩ := ih hclearing'
      (by rw [hqueue']; simp [MethodThread.pop, hqueue])
      (by rw [hlist, length_tail]; simp [MethodThread.pop, hn])
    exact ⟨next, hreach.trans hreach', hnext⟩

/-! ## Runs -/

/-- A run loses no method and doubles none. -/
theorem delivering_run {events : List Event} (h : Delivering self)
    (hrun : Lib.run step self events = some next) : Delivering next := by
  refine Lib.run_invariant (I := Delivering) ?_ h
    (show Lib.Along step (fun _ _ => True) self events from
      Lib.along_of_forall (fun _ _ _ => trivial) _) hrun
  intro s event s' hs _ hstep
  exact delivering_step hs hstep

theorem rank_eq_iff {a b : SmtPriority} : a.rank = b.rank ↔ a = b := by
  cases a <;> cases b <;> decide

/--
Whatever the senders and the threadlet do, and in whatever order, a method of the queue is in one
place only and is not lost. The threadlet delivers the most urgent and then earliest method of its
list, those of one sender and priority in the order in which they were sent, and it can go on to
deliver them all.
-/
theorem methods_delivered {events : List Event} {thread : MethodThread}
    (hrun : Lib.run step {} events = some thread) :
    (thread.delivered ++ thread.replyList ++ thread.incoming).Perm thread.sent ∧
      thread.sent.Nodup ∧ thread.replyBacklog = thread.replyList.length ∧
      (∀ sender priority,
        (thread.delivered.filter fun m => decide (m.sender = sender ∧ m.priority = priority)) <+:
          thread.sent.filter fun m => decide (m.sender = sender ∧ m.priority = priority)) ∧
      (∀ event next, thread.step event = some next →
        next.delivered = thread.delivered ∨ ∃ method ∈ thread.replyList,
          next.delivered = thread.delivered ++ [method] ∧
          ∀ other ∈ thread.replyList, other = method ∨ method.rank < other.rank ∨
            method.rank = other.rank ∧ method.number < other.number) ∧
      ∃ own : List Event, (∀ event ∈ own, event.isOwn = true) ∧
        ∃ next, Lib.run step thread own = some next ∧ next.sent = thread.sent ∧
          next.delivered.Perm thread.sent := by
  have h := delivering_run delivering_new hrun
  refine ⟨h.once, ?_, h.backlog, ?_, fun event next hs => h.delivered hs, ?_⟩
  · refine List.Nodup.of_map SmtMethod.number ?_
    rw [h.numbers]
    exact nodup_range
  · intro sender priority
    have hboth : ∀ methods : List SmtMethod,
        (methods.filter fun m => decide (m.sender = sender ∧ m.priority = priority)) =
          (methods.filter fun m => decide (m.rank = priority.rank)).filter
            fun m => decide (m.sender = sender) := by
      intro methods
      rw [filter_filter]
      refine filter_congr fun m _ => ?_
      simp [SmtMethod.rank, rank_eq_iff]
    rw [hboth, hboth, ← h.order priority.rank, append_assoc, filter_append, filter_append]
    exact prefix_append _ _
  · obtain ⟨cleared, hreach, hclearing, hqueue⟩ := reaches_empty_queue thread
    obtain ⟨next, hreach', hincoming, hlist⟩ := reaches_empty hclearing hqueue
    obtain ⟨own, hown, hrun', hsent⟩ := hreach.trans hreach'
    have honce := (delivering_run h hrun').once
    rw [hincoming, hlist, hsent] at honce
    exact ⟨own, hown, next, hrun', hsent, by simpa using honce⟩

/-- A method of high priority is sent while one of normal priority is inserted. -/
theorem methods_delivered_sample :
    ∃ thread, Lib.run step {} [.send 1 5 .normal 0, .start true, .send 2 6 .high 0, .insert,
      .insert,
        .finish] = some thread ∧ thread.replyBacklog = thread.replyList.length := by
  have hsome : (Lib.run step {} [.send 1 5 .normal 0, .start true, .send 2 6 .high 0, .insert,
      .insert, .finish]).isSome = true := by decide
  obtain ⟨thread, hrun⟩ := Option.isSome_iff_exists.mp hsome
  exact ⟨thread, hrun, (methods_delivered hrun).2.2.1⟩

end MethodThread

end OpenAmq
