import OpenAmq.Lib.Run
import Mathlib.Data.List.Nodup

/-!
# The waiting list

The threadlets that wait for an OS thread are listed by priority, and the first one above each
priority is kept in `waiting_list_entry`, where a threadlet of that priority is inserted.

* `StatusLists` — the two lists of an OS thread, and the insertion points
* `insertIntoWaitingList`, `waitingListPop`, `remove`, `activate` — the operations
* `byPriority_of_run` — **in every run the list is sorted, first in first out within a priority, and
  the insertion points are right**
-/

namespace OpenAmq

open Lib List Function

variable {T : Type*}

inductive ThreadStatus where
  | newborn | sleeping | waiting | waking | polling | pending | active | zombie
deriving DecidableEq

/-- The priorities of the threadlets, up to `SMT_PRIORITY_LAST`, where a small number is urgent -/
structure Priorities (T : Type*) where
  last : Nat
  priority : T → Nat
  le_last : ∀ thread, priority thread ≤ last

/-- The lists of an OS thread that hold its threadlets by their status -/
structure StatusLists (T : Type*) where
  waitingList : List T
  wakingList : List T
  waitingListEntry : Nat → Option T
  status : T → ThreadStatus

open StatusLists

inductive StatusList where
  | waitingList | wakingList
deriving DecidableEq

/-- A new OS thread, and threadlets that are all new -/
def StatusLists.new : StatusLists T := ⟨[], [], fun _ => none, fun _ => .newborn⟩

variable [DecidableEq T]

/-- `relink before` of the list, for a threadlet in no list -/
def relinkBefore (thread point : T) : List T → List T
  | [] => []
  | t :: ts => if t = point then thread :: t :: ts else t :: relinkBefore thread point ts

/-- `next` of the list -/
def nextThread (thread : T) : List T → Option T
  | [] => none
  | t :: ts => if t = thread then ts.head? else nextThread thread ts

/-- The insertion points for higher priorities than this become `thread`, from the least urgent one
on and as long as they are to be changed. -/
def adjust (changes : Option T → Bool) (thread : Option T) :
    (priorityIndex : Nat) → (entry : Nat → Option T) → Nat → Option T
  | 0, entry => entry
  | index + 1, entry =>
    if changes (entry index) then
      adjust changes thread index (update entry index thread)
    else entry

namespace StatusLists

def byStatusHead (self : StatusLists T) (thread : T) : Option StatusList :=
  if thread ∈ self.waitingList then some .waitingList
  else if thread ∈ self.wakingList then some .wakingList
  else none

variable (k : Priorities T)

/-- `insert into waiting list` -/
def insertIntoWaitingList (self : StatusLists T) (thread : T) : StatusLists T :=
  if self.byStatusHead thread = none then
    let insertPoint :=
      if k.priority thread < k.last then self.waitingListEntry (k.priority thread) else none
    { self with
      waitingList :=
        match insertPoint with
        | some point => relinkBefore thread point self.waitingList
        | none => self.waitingList ++ [thread]
      waitingListEntry :=
        adjust (·.all fun entry => k.priority thread < k.priority entry) (some thread)
          (k.priority thread) self.waitingListEntry }
  else self

/-- `waiting list pop`, with the threadlet -/
def waitingListPop (self : StatusLists T) : StatusLists T × Option T :=
  match self.waitingList with
  | [] => (self, none)
  | thread :: rest =>
    let entry := adjust (fun _ => true) rest.head? (k.priority thread) self.waitingListEntry
    ({ self with waitingList := rest, waitingListEntry := entry }, some thread)

/-- `remove` of the list, which is also called when a threadlet is destroyed -/
def remove (self : StatusLists T) (thread : T) : StatusLists T :=
  match self.byStatusHead thread with
  | some .waitingList =>
    let next := nextThread thread self.waitingList
    { self with
      waitingList := self.waitingList.erase thread
      waitingListEntry := adjust (· = some thread) next (k.priority thread) self.waitingListEntry }
  | some .wakingList => { self with wakingList := self.wakingList.erase thread }
  | none => self

def activate (self : StatusLists T) (thread : T) : StatusLists T :=
  if self.status thread ≠ .active then
    let self := { self with status := update self.status thread .waiting }
    (self.remove k thread).insertIntoWaitingList k thread
  else self

/-- What is done about the lists of an OS thread -/
inductive Call (T : Type*) where
  | insert (thread : T)
  | pop
  | activate (thread : T)
  | remove (thread : T)
  /-- A threadlet queued onto the waking list, which it may be in but not in the waiting list -/
  | wake (thread : T)
  | setStatus (thread : T) (status : ThreadStatus)

/-- The state after a call, with the threadlet that it put into the waiting list -/
def step (self : StatusLists T) : Call T → Option (StatusLists T × List T)
  | .insert thread =>
    some (self.insertIntoWaitingList k thread,
      if self.byStatusHead thread = none then [thread] else [])
  | .pop => some ((self.waitingListPop k).1, [])
  | .activate thread =>
    some (self.activate k thread, if self.status thread ≠ .active then [thread] else [])
  | .remove thread => some (self.remove k thread, [])
  | .wake thread =>
    if self.byStatusHead thread = some .waitingList then none
    else some ({ self with wakingList := self.wakingList.erase thread ++ [thread] }, [])
  | .setStatus thread status =>
    some ({ self with status := update self.status thread status }, [])

end StatusLists

/-- The threadlets in the order in which they were last put into the waiting list -/
def arrivals (puts : List T) : List T :=
  puts.foldl (fun seen thread => seen.erase thread ++ [thread]) []

/-- The waiting list in order, with its insertion points. -/
structure ByPriority (k : Priorities T) (puts : List T) (s : StatusLists T) : Prop where
  sorted : s.waitingList.Pairwise fun a b => k.priority a ≤ k.priority b
  fifo : ∀ p, (s.waitingList.filter fun t => k.priority t = p).Sublist (arrivals puts)
  entry : ∀ p < k.last, s.waitingListEntry p = s.waitingList.find? fun t => p < k.priority t
  listed : ∀ p < k.last, ∀ t, s.waitingListEntry p = some t → t ∈ s.waitingList
  nodup : s.waitingList.Nodup
  apart : ∀ t ∈ s.wakingList, t ∉ s.waitingList
  waking : s.wakingList.Nodup

/-! ## The insertion points -/

section Adjust

variable {changes : Option T → Bool} {thread : Option T} {n p : Nat} {entry : Nat → Option T}

omit [DecidableEq T]

theorem adjust_of_le (h : n ≤ p) : adjust changes thread n entry p = entry p := by
  induction n generalizing entry with
  | zero => rfl
  | succ n ih =>
    rw [adjust]
    split
    · rw [ih (by omega), update_of_ne (by omega)]
    · rfl

theorem adjust_of_not (h : changes (entry p) = false) :
    adjust changes thread n entry p = entry p := by
  induction n generalizing entry with
  | zero => rfl
  | succ n ih =>
    rw [adjust]
    split
    · next hn =>
      have hne : p ≠ n := by
        rintro rfl
        exact absurd hn (by simp [h])
      rw [ih (by rwa [update_of_ne hne]), update_of_ne hne]
    · rfl

theorem adjust_of_forall (hp : p < n) (h : ∀ q, p ≤ q → q < n → changes (entry q) = true) :
    adjust changes thread n entry p = thread := by
  induction n generalizing entry with
  | zero => omega
  | succ n ih =>
    rw [adjust, if_pos (h n (by omega) (by omega))]
    by_cases hpn : p = n
    · subst hpn
      rw [adjust_of_le (Nat.le_refl p), update_self]
    · refine ih (by omega) fun q hpq hq => ?_
      rw [update_of_ne (by omega)]
      exact h q hpq (by omega)

end Adjust

/-! ## A threadlet put into the list, and taken out -/

variable {k : Priorities T} {puts : List T} {s : StatusLists T} {thread : T}

omit [DecidableEq T] in
theorem exists_cut {l : List T} (h : l.Pairwise fun a b => k.priority a ≤ k.priority b) (n : Nat) :
    ∃ low high, l = low ++ high ∧ (∀ a ∈ low, k.priority a ≤ n) ∧ ∀ b ∈ high, n < k.priority b := by
  induction l with
  | nil => exact ⟨[], [], rfl, nofun, nofun⟩
  | cons a l ih =>
    rw [pairwise_cons] at h
    by_cases ha : k.priority a ≤ n
    · obtain ⟨low, high, rfl, hlow, hhigh⟩ := ih h.2
      exact ⟨a :: low, high, rfl, forall_mem_cons.mpr ⟨ha, hlow⟩, hhigh⟩
    · refine ⟨[], a :: l, rfl, nofun, forall_mem_cons.mpr ⟨by omega, fun b hb => ?_⟩⟩
      have hab := h.1 b hb
      omega

theorem relinkBefore_append {low high : List T} {point : T} (h : point ∉ low) :
    relinkBefore thread point (low ++ point :: high) = low ++ thread :: point :: high := by
  induction low with
  | nil => exact if_pos rfl
  | cons a low ih =>
    rw [mem_cons, not_or] at h
    rw [cons_append, relinkBefore, if_neg (Ne.symm h.1), ih h.2]
    rfl

theorem nextThread_append {low high : List T} (h : thread ∉ low) :
    nextThread thread (low ++ thread :: high) = high.head? := by
  induction low with
  | nil => exact if_pos rfl
  | cons a low ih =>
    rw [mem_cons, not_or] at h
    rw [cons_append, nextThread, if_neg (Ne.symm h.1), ih h.2]

omit [DecidableEq T] in
theorem find?_above {l : List T} {p : Nat} (h : ∀ a ∈ l, p < k.priority a) :
    l.find? (fun t => p < k.priority t) = l.head? := by
  cases l with
  | nil => rfl
  | cons a l => exact find?_cons_of_pos (by simpa using h a mem_cons_self)

omit [DecidableEq T] in
theorem find?_below {l : List T} {p : Nat} (h : ∀ a ∈ l, k.priority a ≤ p) :
    l.find? (fun t => p < k.priority t) = none :=
  find?_eq_none.mpr fun a ha => by simpa using h a ha

theorem arrivals_append (puts : List T) (thread : T) :
    arrivals (puts ++ [thread]) = (arrivals puts).erase thread ++ [thread] := by
  rw [arrivals, foldl_append]
  rfl

omit [DecidableEq T] in
theorem listed_of_entry {l : List T} {entry : Nat → Option T}
    (h : ∀ p < k.last, entry p = l.find? fun t => p < k.priority t) :
    ∀ p < k.last, ∀ t, entry p = some t → t ∈ l := fun p hp _ ht =>
  mem_of_find?_eq_some ((h p hp).symm.trans ht)

theorem ByPriority.put (h : ByPriority k puts s) (hthread : s.byStatusHead thread = none) :
    ByPriority k (puts ++ [thread]) (s.insertIntoWaitingList k thread) := by
  obtain ⟨hwaiting, hwaking⟩ : thread ∉ s.waitingList ∧ thread ∉ s.wakingList := by
    unfold byStatusHead at hthread
    split at hthread
    · cases hthread
    · next hwaiting => exact ⟨hwaiting, fun hmem => by simp [hmem] at hthread⟩
  obtain ⟨low, high, hlist, hlow, hhigh⟩ := exists_cut h.sorted (k.priority thread)
  have hsplit := h.sorted
  have hnodup := h.nodup
  rw [hlist] at hwaiting
  rw [hlist, pairwise_append] at hsplit
  rw [hlist] at hnodup
  -- the insertion point is the first threadlet above the priority
  have hpoint : (if k.priority thread < k.last then s.waitingListEntry (k.priority thread)
      else none) = high.head? := by
    split
    · next hlast =>
      rw [h.entry _ hlast, hlist, find?_append, find?_below hlow, find?_above hhigh]
      rfl
    · cases high with
      | nil => rfl
      | cons b high =>
        have hb := hhigh b mem_cons_self
        have hmax := k.le_last b
        omega
  have hnew : (s.insertIntoWaitingList k thread).waitingList = low ++ thread :: high := by
    unfold insertIntoWaitingList
    rw [if_pos hthread]
    simp only [hpoint, hlist]
    cases high with
    | nil => simp
    | cons b high =>
      refine relinkBefore_append fun hb => ?_
      have hle := hlow b hb
      have hlt := hhigh b mem_cons_self
      omega
  have hentry : (s.insertIntoWaitingList k thread).waitingListEntry =
      adjust (·.all fun entry => k.priority thread < k.priority entry) (some thread)
        (k.priority thread) s.waitingListEntry := by
    unfold insertIntoWaitingList
    rw [if_pos hthread]
  have hothers : (s.insertIntoWaitingList k thread).wakingList = s.wakingList := by
    unfold insertIntoWaitingList
    rw [if_pos hthread]
  have hentries : ∀ p < k.last, (s.insertIntoWaitingList k thread).waitingListEntry p =
      (s.insertIntoWaitingList k thread).waitingList.find? fun t => p < k.priority t := by
    intro p hp
    have hold := h.entry p hp
    rw [hlist, find?_append] at hold
    rw [hentry, hnew, find?_append, find?_cons]
    by_cases hpt : p < k.priority thread
    · cases hfind : low.find? fun t => p < k.priority t with
      | some a =>
        have hstays : (s.waitingListEntry p).all
            (fun entry => k.priority thread < k.priority entry) = false := by
          rw [hold, hfind]
          simpa using hlow a (mem_of_find?_eq_some hfind)
        rw [adjust_of_not hstays, hold, hfind]
        rfl
      | none =>
        rw [find?_eq_none] at hfind
        rw [adjust_of_forall hpt]
        · simp [hpt]
        · intro q hpq hq
          have hmax := k.le_last thread
          rw [h.entry q (by omega), hlist, find?_append, find?_below fun a ha => ?_,
            find?_above fun b hb => ?_]
          · cases high with
            | nil => rfl
            | cons b high => simpa using hhigh b mem_cons_self
          · have hb' := hhigh b hb
            omega
          · have ha' := hfind a ha
            simp at ha'
            omega
    · rw [adjust_of_le (by omega), hold]
      simp [hpt]
  refine ⟨?_, fun p => ?_, hentries, listed_of_entry hentries, ?_, ?_, hothers ▸ h.waking⟩
  · rw [hnew, pairwise_append, pairwise_cons]
    refine ⟨hsplit.1, ⟨fun b hb => Nat.le_of_lt (hhigh b hb), hsplit.2.1⟩, fun a ha b hb => ?_⟩
    rcases mem_cons.mp hb with rfl | hb
    · exact hlow a ha
    · exact hsplit.2.2 a ha b hb
  · have hfifo := (h.fifo p).erase thread
    rw [erase_of_not_mem fun hmem => hwaiting (hlist ▸ (mem_filter.mp hmem).1), hlist,
      filter_append] at hfifo
    rw [hnew, arrivals_append, filter_append, filter_cons]
    split
    · next hp =>
      have hnone : high.filter (fun t => k.priority t = p) = [] := by
        refine filter_eq_nil_iff.mpr fun b hb => ?_
        have hb' := hhigh b hb
        simp at hp ⊢
        omega
      rw [hnone, append_nil] at hfifo
      rw [hnone]
      exact hfifo.append (List.Sublist.refl _)
    · exact hfifo.trans (sublist_append_left _ _)
  · rw [hnew, nodup_middle, nodup_cons]
    exact ⟨hwaiting, hnodup⟩
  · rw [hothers, hnew]
    intro t ht hmem
    rcases mem_cons.mp (perm_middle.mem_iff.mp hmem) with rfl | hmem
    · exact hwaking ht
    · exact h.apart t ht (hlist ▸ hmem)

theorem ByPriority.take (h : ByPriority k puts s) {low high : List T}
    (hlist : s.waitingList = low ++ thread :: high) {changes : Option T → Bool}
    (hchange : changes (some thread) = true) (hstay : ∀ a ∈ low, changes (some a) = false) :
    ByPriority k puts { s with
      waitingList := low ++ high
      waitingListEntry := adjust changes high.head? (k.priority thread) s.waitingListEntry } := by
  have hsub : (low ++ high).Sublist s.waitingList := by
    rw [hlist]
    exact (sublist_cons_self thread high).append_left low
  have hsplit := h.sorted
  have hnodup := h.nodup
  rw [hlist, pairwise_append, pairwise_cons] at hsplit
  rw [hlist, nodup_middle, nodup_cons, mem_append, not_or] at hnodup
  have hentries : ∀ p < k.last, adjust changes high.head? (k.priority thread) s.waitingListEntry p =
      (low ++ high).find? fun t => p < k.priority t := by
    intro p hp
    have hmax := k.le_last thread
    have hold := h.entry p hp
    rw [hlist, find?_append, find?_cons] at hold
    rw [find?_append]
    by_cases hpt : p < k.priority thread
    · cases hfind : low.find? fun t => p < k.priority t with
      | some a =>
        rw [adjust_of_not, hold, hfind]
        · rfl
        · rw [hold, hfind]
          exact hstay a (mem_of_find?_eq_some hfind)
      | none =>
        rw [find?_eq_none] at hfind
        rw [Option.none_or, find?_above fun b hb => Nat.lt_of_lt_of_le hpt (hsplit.2.1.1 b hb)]
        refine adjust_of_forall hpt fun q hpq hq => ?_
        rw [h.entry q (by omega), hlist, find?_append, find?_below fun a ha => ?_,
          Option.none_or, find?_cons_of_pos (by simpa using hq), hchange]
        · have ha' := hfind a ha
          simp at ha'
          omega
    · rw [adjust_of_le (by omega), hold]
      simp [hpt]
  exact
    { sorted := h.sorted.sublist hsub
      fifo := fun p => (hsub.filter _).trans (h.fifo p)
      entry := hentries
      listed := listed_of_entry hentries
      nodup := h.nodup.sublist hsub
      apart := fun t ht hmem => h.apart t ht (hsub.subset hmem)
      waking := h.waking }

theorem ByPriority.pop (h : ByPriority k puts s) : ByPriority k puts (s.waitingListPop k).1 := by
  unfold waitingListPop
  split
  · exact h
  · next thread rest hlist => exact @ByPriority.take _ _ _ _ _ _ h [] rest hlist _ rfl nofun

theorem ByPriority.remove (h : ByPriority k puts s) (thread : T) :
    ByPriority k puts (s.remove k thread) ∧ (s.remove k thread).byStatusHead thread = none := by
  have hhead : ∀ s' : StatusLists T, thread ∉ s'.waitingList → thread ∉ s'.wakingList →
      s'.byStatusHead thread = none := fun s' hwaiting hwaking => by
    rw [byStatusHead, if_neg hwaiting, if_neg hwaking]
  by_cases hwaiting : thread ∈ s.waitingList
  · obtain ⟨low, high, hlist, hlow⟩ := eq_append_cons_of_mem hwaiting
    have hnodup := h.nodup
    rw [hlist, nodup_middle, nodup_cons] at hnodup
    have hremove : s.remove k thread = { s with
        waitingList := low ++ high
        waitingListEntry :=
          adjust (· = some thread) high.head? (k.priority thread) s.waitingListEntry } := by
      unfold StatusLists.remove StatusLists.byStatusHead
      rw [if_pos hwaiting]
      simp only [hlist]
      rw [nextThread_append hlow, erase_append_right _ hlow, erase_cons_head]
    rw [hremove]
    refine ⟨h.take hlist (decide_eq_true rfl) fun a ha => decide_eq_false ?_, hhead _ hnodup.1 ?_⟩
    · rintro ⟨⟩
      exact hlow ha
    · exact fun hwaking => h.apart thread hwaking hwaiting
  · by_cases hwaking : thread ∈ s.wakingList
    · have hremove : s.remove k thread = { s with wakingList := s.wakingList.erase thread } := by
        unfold StatusLists.remove StatusLists.byStatusHead
        rw [if_neg hwaiting, if_pos hwaking]
      rw [hremove]
      refine ⟨{ h with apart := ?_, waking := h.waking.erase thread }, hhead _ hwaiting ?_⟩
      · exact fun t ht => h.apart t (mem_of_mem_erase ht)
      · exact fun hmem => (h.waking.mem_erase_iff.mp hmem).1 rfl
    · have hnone := hhead s hwaiting hwaking
      have hremove : s.remove k thread = s := by
        unfold StatusLists.remove
        rw [hnone]
      rw [hremove]
      exact ⟨h, hnone⟩

theorem ByPriority.setStatus (h : ByPriority k puts s) (status : T → ThreadStatus) :
    ByPriority k puts { s with status } := ⟨h.1, h.2, h.3, h.4, h.5, h.6, h.7⟩

/-- A call leaves the waiting list in order. -/
theorem ByPriority.step {call : StatusLists.Call T} {s' : StatusLists T × List T}
    (h : ByPriority k puts s) (hstep : logged (step k) (s, puts) call = some s') :
    ByPriority k s'.2 s'.1 := by
  obtain ⟨out, hstep, hputs⟩ := logged_eq_some hstep
  obtain ⟨s', puts'⟩ := s'
  obtain rfl : puts' = puts ++ out := hputs
  cases call with
  | insert thread =>
    simp only at hstep
    obtain ⟨rfl, rfl⟩ := hstep
    by_cases hhead : s.byStatusHead thread = none
    · rw [if_pos hhead]
      exact h.put hhead
    · rw [if_neg hhead, append_nil]
      unfold insertIntoWaitingList
      rw [if_neg hhead]
      exact h
  | pop =>
    cases hstep
    rw [append_nil]
    exact h.pop
  | activate thread =>
    simp only at hstep
    obtain ⟨rfl, rfl⟩ := hstep
    unfold activate
    by_cases hactive : s.status thread ≠ .active
    · rw [if_pos hactive, if_pos hactive]
      have hremove := (h.setStatus (update s.status thread .waiting)).remove thread
      exact hremove.1.put hremove.2
    · rw [if_neg hactive, if_neg hactive, append_nil]
      exact h
  | remove thread =>
    cases hstep
    rw [append_nil]
    exact (h.remove thread).1
  | wake thread =>
    simp only [StatusLists.step] at hstep
    split at hstep
    · cases hstep
    · next hhead =>
      cases hstep
      rw [append_nil]
      have hnot : thread ∉ s.waitingList := fun hmem => hhead (if_pos hmem)
      refine { h with apart := fun t ht => ?_, waking := ?_ }
      · rcases mem_append.mp ht with ht | ht
        · exact h.apart t (mem_of_mem_erase ht)
        · exact mem_singleton.mp ht ▸ hnot
      · rw [nodup_append]
        refine ⟨h.waking.erase thread, nodup_singleton thread, fun a ha b hb => ?_⟩
        rw [mem_singleton.mp hb]
        exact (h.waking.mem_erase_iff.mp ha).1
  | setStatus thread status =>
    cases hstep
    rw [append_nil]
    exact h.setStatus _

/-! ## Runs -/

/-- In every run the waiting list is sorted by priority, first in first out within one, and the
insertion point of each priority is the first threadlet above it. -/
theorem byPriority_of_run (k : Priorities T) {calls : List (StatusLists.Call T)}
    {s : StatusLists T × List T}
    (hrun : run (logged (step k)) (.new, []) calls = some s) :
    ByPriority k s.2 s.1 := by
  have hnew : ByPriority k [] (.new : StatusLists T) :=
    ⟨.nil, fun _ => .slnil, fun _ _ => rfl, fun _ _ _ => nofun, .nil, nofun, .nil⟩
  have hok : Along (logged (step k)) (fun _ _ => True) (.new, []) calls :=
    along_of_forall (fun _ _ _ => trivial) _
  exact run_invariant (I := fun s => ByPriority k s.2 s.1)
    (fun _ _ _ h _ hstep => h.step hstep) hnew hok hrun

/-- Threadlets that are their own priorities -/
def samplePriorities : Priorities (Fin 2) := ⟨1, fun thread => thread, by omega⟩

theorem byPriority_sample : ∃ s, run (logged (step samplePriorities)) (.new, [])
    [.insert 1, .insert 0, .activate 1, .pop] = some s ∧ ByPriority samplePriorities s.2 s.1 :=
  ⟨_, rfl, @byPriority_of_run _ _ samplePriorities [.insert 1, .insert 0, .activate 1, .pop] _ rfl⟩

end OpenAmq
