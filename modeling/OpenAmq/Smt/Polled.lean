import OpenAmq.Smt.Scheduled

/-!
# The poll set

The requests on a socket are in a given order, and the socket is polled for what they ask for.

* `Polled` — nothing is polled for that no request asks for
* `PollSet` — the poll set is that of the sockets that are polled for something
* `Polling.destroy`, `Polling.newRequest`, `polling_step`
-/

namespace OpenAmq

open Lib List Function PollEvents SocketRequest Option

namespace PollEvents

theorem eq_of_not_any {events : PollEvents} (h : ¬events.any) : events = {} := by
  cases events with
  | mk pollin pollout => cases pollin <;> cases pollout <;> simp_all [any]

structure IsEvent (p : PollEvents → Bool) : Prop where
  empty : p {} = false
  without : ∀ a b : PollEvents, p ⟨a.pollin && !b.pollin, a.pollout && !b.pollout⟩ = (p a && !p b)
  union : ∀ a b : PollEvents, p ⟨a.pollin || b.pollin, a.pollout || b.pollout⟩ = (p a || p b)

theorem isEvent_pollin : IsEvent pollin := ⟨rfl, fun _ _ => rfl, fun _ _ => rfl⟩

theorem isEvent_pollout : IsEvent pollout := ⟨rfl, fun _ _ => rfl, fun _ _ => rfl⟩

end PollEvents

namespace SocketRequest

variable {request other : SocketRequest}

/-- It has the events that requests of its type have. -/
def Takes (request : SocketRequest) : Prop :=
  request.type.Takes request.inputEvent request.outputEvent

theorem asks_of_isInput (h : request.Takes) (hinput : request.isInput) :
    request.asks = ⟨true, false⟩ := by
  unfold Takes at h
  cases htype : request.type <;>
    simp_all [isInput, isOutput, asks, RequestType.Takes]

theorem asks_of_isOutput (h : request.Takes) (houtput : request.isOutput) :
    request.asks = ⟨false, true⟩ := by
  unfold Takes at h
  cases htype : request.type <;>
    simp_all [isInput, isOutput, asks, RequestType.Takes]

theorem any_asks (h : request.Takes) : request.asks.any := by
  unfold Takes at h
  cases htype : request.type <;>
    simp_all [isInput, isOutput, asks, RequestType.Takes, PollEvents.any]

theorem isInput_or_isOutput (h : request.type ≠ .monitor) : request.isInput ∨ request.isOutput := by
  cases htype : request.type <;> simp_all [isInput, isOutput]

theorem not_isOutput_of_isInput (h : request.isInput) : request.isOutput = false := by
  cases htype : request.type <;> simp_all [isInput, isOutput]

/-- One request in front of another one on the same socket -/
structure Before (request other : SocketRequest) : Prop where
  not_monitor : other.type ≠ .monitor
  outputs_first : request.isInput → other.isInput
  inputs_in_order : request.isInput → other.isInput → request.number < other.number
  outputs_in_order : request.isOutput → other.isOutput → request.number < other.number
  /-- What is behind a close is there from before. -/
  after_close : request.type = .close → other.isInput ∧ other.number < request.number

theorem before_setTimer {n m : Option Nat} :
    (request.setTimer n).Before (other.setTimer m) ↔ request.Before other :=
  ⟨fun h => ⟨h.1, h.2, h.3, h.4, h.5⟩, fun h => ⟨h.1, h.2, h.3, h.4, h.5⟩⟩

end SocketRequest

namespace OsThread

def Placed (requests : List SocketRequest) : Prop :=
  requests.Pairwise fun request other => request.socket = other.socket → request.Before other

def Asked (p : PollEvents → Bool) (requests : List SocketRequest) (reqevents : Nat → PollEvents) :
    Prop :=
  ∀ socket, p (reqevents socket) → ∃ request ∈ requests, request.socket = socket ∧ p request.asks

structure Polled (requests : List SocketRequest) (reqevents : Nat → PollEvents) : Prop where
  takes : ∀ request ∈ requests, request.Takes
  placed : Placed requests
  pollin : Asked pollin requests reqevents
  pollout : Asked pollout requests reqevents

/-- The poll set is that of the sockets that are polled for something. -/
def PollSet (self : OsThread) : Prop :=
  ∀ socket, self.pollset socket =
    if (self.reqevents socket).any then some (self.reqevents socket) else none

variable {self next : OsThread} {thread n m socket : Nat} {request other : SocketRequest}
  {requests requests' : List SocketRequest} {reqevents : Nat → PollEvents} {clock : Int}
  {events : PollEvents}

theorem placed_untimed : Placed (untimed requests) ↔ Placed requests := by
  unfold Placed untimed
  rw [pairwise_map]
  exact List.Pairwise.iff fun _ _ => imp_congr_right fun _ => before_setTimer

theorem asked_untimed {p : PollEvents → Bool} :
    Asked p (untimed requests) reqevents ↔ Asked p requests reqevents := by
  refine forall_congr' fun socket => imp_congr_right fun _ => ?_
  constructor
  · rintro ⟨_, hmem, hasks⟩
    obtain ⟨request, hrequest, rfl⟩ := mem_map.mp hmem
    exact ⟨request, hrequest, hasks⟩
  · rintro ⟨request, hrequest, hasks⟩
    exact ⟨request.setTimer none, mem_map_of_mem hrequest, hasks⟩

theorem takes_untimed :
    (∀ request ∈ untimed requests, request.Takes) ↔ ∀ request ∈ requests, request.Takes := by
  simp only [untimed, List.forall_mem_map]
  rfl

theorem polled_untimed : Polled (untimed requests) reqevents ↔ Polled requests reqevents := by
  constructor
  · rintro ⟨htakes, hplaced, hin, hout⟩
    exact ⟨takes_untimed.mp htakes, placed_untimed.mp hplaced, asked_untimed.mp hin,
      asked_untimed.mp hout⟩
  · rintro ⟨htakes, hplaced, hin, hout⟩
    exact ⟨takes_untimed.mpr htakes, placed_untimed.mpr hplaced, asked_untimed.mpr hin,
      asked_untimed.mpr hout⟩

theorem Polled.congr (h : Polled requests reqevents)
    (huntimed : untimed requests' = untimed requests) : Polled requests' reqevents :=
  polled_untimed.mp (huntimed ▸ polled_untimed.mpr h)

/-! ## The poll set -/

def repoll (self : OsThread) (socket : Nat) (events : PollEvents) : OsThread :=
  { self with
    reqevents := update self.reqevents socket events,
    pollset := update self.pollset socket (if events.any then some events else none) }

theorem PollSet.repoll (h : PollSet self) (socket : Nat) (events : PollEvents) :
    PollSet (self.repoll socket events) := by
  intro s
  by_cases heq : s = socket
  · simp [OsThread.repoll, heq]
  · simpa [OsThread.repoll, heq] using h s

theorem PollSet.congr (h : PollSet self) (hreqevents : next.reqevents = self.reqevents)
    (hpollset : next.pollset = self.pollset) : PollSet next := by
  intro s
  rw [hreqevents, hpollset]
  exact h s

theorem repoll_self (h : PollSet self) (socket : Nat) :
    self.repoll socket (self.reqevents socket) = self := by
  unfold OsThread.repoll
  rw [← h socket, update_eq_self, update_eq_self]

theorem pollsetRemove_eq (h : PollSet self) (hany : (self.reqevents socket).any) :
    self.pollsetRemove socket = some { self with pollset := update self.pollset socket none } := by
  unfold pollsetRemove
  rw [h socket, if_pos hany]

theorem clearPoll_eq (h : PollSet self) (socket : Nat) :
    self.clearPoll socket = some (self.repoll socket {}) := by
  unfold clearPoll
  split
  · next hany =>
    rw [pollsetRemove_eq h hany]
    rfl
  · next hany =>
    have hself := repoll_self h socket
    rw [eq_of_not_any hany] at hself
    rw [hself]

theorem repoll_eq (h : PollSet self) (hany : (self.reqevents socket).any) :
    ((self.pollsetRemove socket).bind fun removed =>
      if events.any then (removed.setReqevents socket events).pollsetAdd socket
      else some (removed.setReqevents socket events)) = some (self.repoll socket events) := by
  rw [pollsetRemove_eq h hany, bind_some]
  unfold OsThread.repoll
  split
  · simp [pollsetAdd, setReqevents]
  · simp [setReqevents]

theorem dropPoll_eq (h : PollSet self) (request : SocketRequest) :
    self.dropPoll request = some (self.repoll request.socket
      ⟨(self.reqevents request.socket).pollin && !request.isInput,
        (self.reqevents request.socket).pollout && !request.isOutput⟩) := by
  unfold dropPoll
  simp only
  split
  · next heq => rw [heq, repoll_self h]
  · next hne =>
    refine repoll_eq h (by_contra fun hany => hne ?_)
    rw [eq_of_not_any hany]
    simp

def left (self : OsThread) (request : SocketRequest) : PollEvents :=
  let events := self.reqevents request.socket
  if request.type = .monitor ∨ request.type = .close then {}
  else if (self.successor request).isSome then events
  else ⟨events.pollin && !request.isInput, events.pollout && !request.isOutput⟩

theorem retimed_poll (self : OsThread) (request : SocketRequest) (time : Int) :
    (self.retimed request time).reqevents = self.reqevents ∧
      (self.retimed request time).pollset = self.pollset := by
  unfold retimed
  split <;> exact ⟨rfl, rfl⟩

theorem exists_pollOld (h : Scheduled self) (hpollset : PollSet self) (request : SocketRequest)
    (clock : Int) : ∃ polled, self.pollOld request clock = some polled ∧ PollSet polled ∧
      polled.reqevents = update self.reqevents request.socket (self.left request) := by
  unfold pollOld left
  split
  · next hclose =>
    exact ⟨_, clearPoll_eq hpollset _, hpollset.repoll _ _, by simp [repoll]⟩
  · next hclose =>
    split
    · next successor hsuccessor =>
      refine ⟨_, timer_eq h (mem_of_successor hsuccessor).1 clock, ?_⟩
      simp only [hsuccessor, isSome_some, if_true, update_eq_self]
      split
      · exact ⟨hpollset, rfl⟩
      · obtain ⟨hreqevents, hset⟩ := self.retimed_poll successor (clock + timeout successor.msecs)
        exact ⟨hpollset.congr hreqevents hset, hreqevents⟩
    · next hsuccessor =>
      refine ⟨_, dropPoll_eq hpollset request, hpollset.repoll _ _, ?_⟩
      simp [repoll, hsuccessor]

theorem exists_destroy (h : Scheduled self) (hpollset : PollSet self)
    (hrequest : request ∈ self.requests) (clock : Int) :
    ∃ next, self.destroy request.number clock = some next ∧ Destroyed self next request ∧
      PollSet next ∧
      next.reqevents = update self.reqevents request.socket (self.left request) := by
  obtain ⟨polled, hpoll, hset, hevents⟩ := exists_pollOld h hpollset request clock
  have hprepared := prepared_pollOld h hrequest hpoll
  obtain ⟨next, hremove, hremoved⟩ := exists_removed hprepared.scheduled hprepared.mem
  have hdestroy := (destroy_eq_some_iff h hrequest).mpr ⟨polled, hpoll, hremove⟩
  exact ⟨next, hdestroy, destroyed h hrequest hdestroy,
    hset.congr hremoved.reqevents hremoved.pollset, hremoved.reqevents.trans hevents⟩

/-! ## A request is removed -/

theorem before_of_successor {successor : SocketRequest} (h : Scheduled self)
    (hplaced : Placed self.requests) (hrequest : request ∈ self.requests)
    (hsuccessor : self.successor request = some successor) : request.Before successor := by
  obtain ⟨front, rest, hlist, -, -, hnext⟩ :=
    exists_split (nodup_listOf h request.socket) (mem_listOf.mpr ⟨hrequest, rfl⟩)
  have hhead : successor ∈ rest := by
    unfold OsThread.successor at hsuccessor
    rw [hnext] at hsuccessor
    exact mem_of_mem_head? (filter_eq_some_iff.mp hsuccessor).1
  have hpairwise : Placed (front ++ request :: rest) := hlist ▸ hplaced.sublist filter_sublist
  have hrest := (pairwise_cons.mp (pairwise_append.mp hpairwise).2.1).1
  exact hrest successor hhead (mem_of_successor hsuccessor).2.symm

theorem mem_eraseKey_of_ne (h : Scheduled self) (hrequest : request ∈ self.requests)
    (hother : other ∈ self.requests) (hne : other ≠ request) :
    other ∈ eraseKey number request.number self.requests :=
  mem_eraseKey.mpr ⟨hother, fun heq => hne
    (inj_on_of_nodup_map h.listed.numbers hother hrequest heq)⟩

theorem asks_successor {successor : SocketRequest} (h : Scheduled self)
    (hpolled : Polled self.requests self.reqevents) (hrequest : request ∈ self.requests)
    (hmonitor : request.type ≠ .monitor) (hsuccessor : self.successor request = some successor) :
    successor.asks = request.asks := by
  have hbefore := before_of_successor h hpolled.placed hrequest hsuccessor
  have htakes := hpolled.takes request hrequest
  have htakes' := hpolled.takes successor (mem_of_successor hsuccessor).1
  rcases isInput_or_isOutput hmonitor with hinput | houtput
  · rw [asks_of_isInput htakes hinput, asks_of_isInput htakes' (hbefore.outputs_first hinput)]
  · have hnot := (filter_eq_some_iff.mp hsuccessor).2
    have houtput' : successor.isOutput := by
      rcases isInput_or_isOutput hbefore.not_monitor with hi | ho
      · simp [houtput, hi] at hnot
      · exact ho
    rw [asks_of_isOutput htakes houtput, asks_of_isOutput htakes' houtput']

/-- Nothing is polled for any more, or not what the request has asked for, or the successor asks for
the same. -/
theorem left_cases (h : Scheduled self) (hpolled : Polled self.requests self.reqevents)
    (hrequest : request ∈ self.requests) :
    self.left request = {} ∨ self.left request =
        ⟨(self.reqevents request.socket).pollin && !request.asks.pollin,
          (self.reqevents request.socket).pollout && !request.asks.pollout⟩ ∨
      self.left request = self.reqevents request.socket ∧
        ∃ successor ∈ eraseKey number request.number self.requests,
          successor.socket = request.socket ∧ successor.asks = request.asks := by
  have htakes := hpolled.takes request hrequest
  unfold left
  split
  · exact .inl rfl
  · next hclose =>
    rw [not_or] at hclose
    split
    · next hsome =>
      obtain ⟨successor, hsuccessor⟩ := isSome_iff_exists.mp hsome
      obtain ⟨hmem, hsocket⟩ := mem_of_successor hsuccessor
      have hne := number_ne_of_successor h hrequest hsuccessor
      exact .inr (.inr ⟨rfl, successor, mem_eraseKey.mpr ⟨hmem, hne⟩, hsocket,
        asks_successor h hpolled hrequest hclose.1 hsuccessor⟩)
    · refine .inr (.inl ?_)
      rcases isInput_or_isOutput hclose.1 with hinput | houtput
      · simp [asks_of_isInput htakes hinput, hinput, not_isOutput_of_isInput hinput]
      · have hinput : request.isInput = false := by
          by_contra hi
          simp [not_isOutput_of_isInput (eq_true_of_ne_false hi)] at houtput
        simp [asks_of_isOutput htakes houtput, hinput, houtput]

theorem Asked.erase {p : PollEvents → Bool} (hp : PollEvents.IsEvent p) (h : Scheduled self)
    (hpolled : Polled self.requests self.reqevents) (hasked : Asked p self.requests self.reqevents)
    (hrequest : request ∈ self.requests) :
    Asked p (eraseKey number request.number self.requests)
      (update self.reqevents request.socket (self.left request)) := by
  intro socket hsocket
  by_cases heq : socket = request.socket
  · subst heq
    rw [update_self] at hsocket
    rcases left_cases h hpolled hrequest with hleft | hleft | ⟨hleft, successor, hmem, hs, hasks⟩
    · rw [hleft, hp.empty] at hsocket
      cases hsocket
    · rw [hleft, hp.without, Bool.and_eq_true] at hsocket
      obtain ⟨hevents, hnot⟩ := hsocket
      obtain ⟨r, hr, hs, hasks⟩ := hasked _ hevents
      refine ⟨r, mem_eraseKey_of_ne h hrequest hr fun heq => ?_, hs, hasks⟩
      rw [← heq, hasks] at hnot
      cases hnot
    · rw [hleft] at hsocket
      obtain ⟨r, hr, hs', hasks'⟩ := hasked _ hsocket
      by_cases heq : r = request
      · exact ⟨successor, hmem, hs, by rw [hasks, ← heq, hasks']⟩
      · exact ⟨r, mem_eraseKey_of_ne h hrequest hr heq, hs', hasks'⟩
  · rw [update_of_ne heq] at hsocket
    obtain ⟨r, hr, rfl, hasks⟩ := hasked socket hsocket
    exact ⟨r, mem_eraseKey_of_ne h hrequest hr fun h => heq (h ▸ rfl), rfl, hasks⟩

theorem Polled.erase (h : Scheduled self) (hpolled : Polled self.requests self.reqevents)
    (hrequest : request ∈ self.requests) :
    Polled (eraseKey number request.number self.requests)
      (update self.reqevents request.socket (self.left request)) where
  takes := fun r hr => hpolled.takes r (mem_eraseKey.mp hr).1
  placed := hpolled.placed.sublist (eraseKey_sublist _ _)
  pollin := hpolled.pollin.erase isEvent_pollin h hpolled hrequest
  pollout := hpolled.pollout.erase isEvent_pollout h hpolled hrequest

/-! ## A request is added -/

theorem not_close_of_input (hinput : request.isInput) :
    ∀ {requests : List SocketRequest}, disallows request requests = false →
      ∀ other ∈ requests, other.type ≠ .close
  | [], _, _, hother => by cases hother
  | first :: rest, h, other, hother => by
    unfold disallows at h
    rw [if_pos hinput, Bool.or_eq_false_iff] at h
    rcases mem_cons.mp hother with rfl | hother
    · exact fun hclose => by simp [hclose] at h
    · exact not_close_of_input hinput h.2 other hother

theorem not_close_of_output (houtput : request.isOutput) (hinput : request.isInput = false) :
    ∀ {requests : List SocketRequest},
      disallows request (requests.filter fun other => other.socket = request.socket) = false →
        ∀ other ∈ requests.takeWhile (goesBehind request), other.socket = request.socket →
          other.type ≠ .close ∧ other.isInput = false
  | [], _, _, hother => by cases hother
  | first :: rest, h, other, hother => by
    intro hsocket
    rw [takeWhile_cons] at hother
    split at hother
    · next hbehind =>
      by_cases hfirst : first.socket = request.socket
      · have hnot : first.isInput = false := by
          simpa [goesBehind, houtput, hfirst] using hbehind
        rw [filter_cons_of_pos (by simpa using hfirst)] at h
        unfold disallows at h
        simp only [hinput, houtput, hnot, Bool.false_eq_true, if_false, if_true, Bool.not_false,
          Bool.true_and, Bool.or_eq_false_iff] at h
        rcases mem_cons.mp hother with rfl | hother
        · exact ⟨fun hclose => by simp [hclose] at h, hnot⟩
        · exact not_close_of_output houtput hinput h.2 other hother hsocket
      · rw [filter_cons_of_neg (by simpa using hfirst)] at h
        rcases mem_cons.mp hother with rfl | hother
        · exact absurd hsocket hfirst
        · exact not_close_of_output houtput hinput h other hother hsocket
    · cases hother

theorem eq_nil_of_not_disallows (hinput : request.isInput = false)
    (houtput : request.isOutput = false) (h : disallows request requests = false) :
    requests = [] := by
  cases requests with
  | nil => rfl
  | cons first rest =>
    unfold disallows at h
    simp [hinput, houtput] at h

theorem isInput_of_mem_dropWhile (hplaced : Placed requests) :
    ∀ other ∈ requests.dropWhile (goesBehind request), other.socket = request.socket →
      request.isOutput ∧ other.isInput := by
  intro other hother hsocket
  cases hdrop : requests.dropWhile (goesBehind request) with
  | nil =>
    rw [hdrop] at hother
    cases hother
  | cons first rest =>
    have hhead : goesBehind request first = false := by
      have hnot := head?_dropWhile_not (goesBehind request) requests
      rw [hdrop] at hnot
      simpa using hnot
    simp only [goesBehind, Bool.not_eq_false', Bool.and_eq_true, beq_iff_eq] at hhead
    obtain ⟨⟨houtput, hfirst⟩, hinput⟩ := hhead
    refine ⟨houtput, ?_⟩
    have hrest : Placed (first :: rest) := hdrop ▸ hplaced.sublist (dropWhile_sublist _)
    rw [hdrop] at hother
    rcases mem_cons.mp hother with rfl | hother
    · exact hinput
    · have hbefore := (pairwise_cons.mp hrest).1 other hother (hfirst.trans hsocket.symm)
      exact hbefore.outputs_first hinput

theorem Placed.add (hplaced : Placed requests)
    (hnumber : ∀ r ∈ requests, r.number < request.number) (hallowed : disallows request
      (requests.filter fun other => other.socket = request.socket) = false) :
    Placed (requests.takeWhile (goesBehind request) ++
      request :: requests.dropWhile (goesBehind request)) := by
  have hbehind := @isInput_of_mem_dropWhile request requests hplaced
  have hsplit : Placed (requests.takeWhile (goesBehind request) ++
      requests.dropWhile (goesBehind request)) := by
    rw [takeWhile_append_dropWhile]
    exact hplaced
  obtain ⟨hfront, hrest, hcross⟩ := pairwise_append.mp hsplit
  have hbefore : ∀ other ∈ requests.takeWhile (goesBehind request),
      other.socket = request.socket → other.Before request := by
    intro other hother hsocket
    have hmem := (takeWhile_sublist _).subset hother
    have hlt := hnumber other hmem
    have hlist : other ∈ requests.filter fun other => other.socket = request.socket :=
      mem_filter.mpr ⟨hmem, by simpa using hsocket⟩
    cases hinput : request.isInput with
    | true =>
      have hclose := not_close_of_input hinput hallowed other hlist
      have hnot := not_isOutput_of_isInput hinput
      refine ⟨fun hmonitor => ?_, fun _ => hinput, fun _ _ => hlt, fun _ _ => hlt,
        fun h => absurd h hclose⟩
      simp [isInput, hmonitor] at hinput
    | false =>
      cases houtput : request.isOutput with
      | true =>
        obtain ⟨hclose, hnot⟩ := not_close_of_output houtput hinput hallowed other hother hsocket
        refine ⟨fun hmonitor => ?_, fun h => ?_, fun _ _ => hlt, fun _ _ => hlt,
          fun h => absurd h hclose⟩
        · simp [isOutput, hmonitor] at houtput
        · rw [hnot] at h
          cases h
      | false =>
        rw [eq_nil_of_not_disallows hinput houtput hallowed] at hlist
        cases hlist
  have hafter : ∀ other ∈ requests.dropWhile (goesBehind request),
      request.socket = other.socket → request.Before other := by
    intro other hother hsocket
    have hlt := hnumber other ((dropWhile_sublist _).subset hother)
    obtain ⟨houtput, hinput⟩ := hbehind other hother hsocket.symm
    have hnot := not_isOutput_of_isInput hinput
    refine ⟨fun hmonitor => ?_, fun _ => hinput, fun h _ => ?_, fun _ h => ?_,
      fun _ => ⟨hinput, hlt⟩⟩
    · simp [isInput, hmonitor] at hinput
    · simp [not_isOutput_of_isInput h] at houtput
    · simp [hnot] at h
  refine pairwise_append.mpr ⟨hfront, pairwise_cons.mpr ⟨hafter, hrest⟩, ?_⟩
  intro other hother r hr hsocket
  rcases mem_cons.mp hr with rfl | hr
  · exact hbefore other hother hsocket
  · exact hcross other hother r hr hsocket

theorem timer_poll (h : Scheduled self) (hrequest : request ∈ self.requests)
    (htimer : self.timer request.number clock = some next) :
    next.reqevents = self.reqevents ∧ next.pollset = self.pollset ∧
      untimed next.requests = untimed self.requests := by
  rw [timer_eq h hrequest] at htimer
  cases htimer
  split
  · exact ⟨rfl, rfl, rfl⟩
  · obtain ⟨hreqevents, hpollset⟩ := self.retimed_poll request (clock + timeout request.msecs)
    exact ⟨hreqevents, hpollset, untimed_retimed ..⟩

def wanted (self : OsThread) (request : SocketRequest) : PollEvents :=
  ⟨(self.reqevents request.socket).pollin || request.asks.pollin,
    (self.reqevents request.socket).pollout || request.asks.pollout⟩

theorem any_wanted (self : OsThread) (hasks : request.asks.any) : (self.wanted request).any := by
  unfold PollEvents.any at hasks ⊢
  unfold wanted
  rcases Bool.or_eq_true_iff.mp hasks with h | h <;> simp [h]

theorem pollNew_eq {first : Option SocketRequest} (hpollset : PollSet self)
    (hasks : request.asks.any) (h : self.pollNew request first clock = some next) :
    next = self.repoll request.socket (self.wanted request) ∨
      (self.repoll request.socket (self.wanted request)).timer request.number clock =
        some next := by
  have hany := self.any_wanted hasks
  have hadd : ∀ {removed added : OsThread} {pollset : Nat → Option PollEvents},
      removed = { self with pollset } → (∀ s, s ≠ request.socket → pollset s = self.pollset s) →
        (removed.setReqevents request.socket (self.wanted request)).pollsetAdd request.socket =
          some added → added = self.repoll request.socket (self.wanted request) := by
    rintro removed added pollset rfl hsame hadded
    unfold pollsetAdd at hadded
    split at hadded
    · cases hadded
    · cases hadded
      have hset : update pollset request.socket (some (self.wanted request)) =
          update self.pollset request.socket (some (self.wanted request)) := by
        funext s
        by_cases hs : s = request.socket
        · simp [hs]
        · simp [hs, hsame s hs]
      simp [setReqevents, repoll, hany, hset]
  unfold pollNew at h
  simp only at h
  split at h
  · obtain ⟨added, hadded, htimer⟩ := bind_eq_some_iff.mp h
    have heq := @hadd self _ _ rfl (fun _ _ => rfl) hadded
    exact .inr (heq ▸ htimer)
  · split at h
    · obtain ⟨added, hadded, htimer⟩ := bind_eq_some_iff.mp h
      obtain ⟨removed, hremove, hadded⟩ := bind_eq_some_iff.mp hadded
      unfold pollsetRemove at hremove
      split at hremove
      · cases hremove
      · have heq := hadd (some.inj hremove).symm (fun s hs => update_of_ne hs _ _) hadded
        exact .inr (heq ▸ htimer)
    · next hsame =>
      have hevents : self.wanted request = self.reqevents request.socket := by_contra hsame
      exact .inl (by rw [hevents, repoll_self hpollset, some.inj h])

theorem pollNew_poll {first : Option SocketRequest} (h : Scheduled self) (hpollset : PollSet self)
    (hrequest : request ∈ self.requests) (hasks : request.asks.any)
    (hnext : self.pollNew request first clock = some next) :
    PollSet next ∧ untimed next.requests = untimed self.requests ∧
      next.reqevents = update self.reqevents request.socket (self.wanted request) := by
  have hset := hpollset.repoll request.socket (self.wanted request)
  rcases pollNew_eq hpollset hasks hnext with rfl | htimer
  · exact ⟨hset, rfl, rfl⟩
  · have hadded : Scheduled (self.repoll request.socket (self.wanted request)) :=
      PollOnly.scheduled ⟨_, _, rfl⟩ h
    obtain ⟨hreqevents, hpollset', huntimed⟩ := timer_poll hadded hrequest htimer
    exact ⟨hset.congr hreqevents hpollset', huntimed, hreqevents⟩

theorem Polled.add (hpolled : Polled self.requests self.reqevents) (htakes : request.Takes)
    (hnumber : ∀ r ∈ self.requests, r.number < request.number)
    (hallowed : disallows request (self.listOf request.socket) = false) :
    Polled (self.addRequest request).requests
      (update self.reqevents request.socket (self.wanted request)) := by
  have hmem : ∀ {r}, r ∈ (self.addRequest request).requests ↔ r = request ∨ r ∈ self.requests := by
    intro r
    rw [(perm_addRequest self request).mem_iff, mem_cons]
  have hasked : ∀ {p}, PollEvents.IsEvent p → Asked p self.requests self.reqevents →
      Asked p (self.addRequest request).requests
        (update self.reqevents request.socket (self.wanted request)) := by
    intro p hp hasked socket hsocket
    by_cases heq : socket = request.socket
    · subst heq
      rw [update_self, wanted, hp.union, Bool.or_eq_true] at hsocket
      rcases hsocket with hold | hnew
      · obtain ⟨r, hr, hasks⟩ := hasked _ hold
        exact ⟨r, hmem.mpr (.inr hr), hasks⟩
      · exact ⟨request, hmem.mpr (.inl rfl), rfl, hnew⟩
    · rw [update_of_ne heq] at hsocket
      obtain ⟨r, hr, hasks⟩ := hasked socket hsocket
      exact ⟨r, hmem.mpr (.inr hr), hasks⟩
  refine ⟨fun r hr => ?_, hpolled.placed.add hnumber hallowed, hasked isEvent_pollin hpolled.pollin,
    hasked isEvent_pollout hpolled.pollout⟩
  rcases hmem.mp hr with rfl | hr
  · exact htakes
  · exact hpolled.takes r hr

/-! ## Steps -/

structure Polling (os : OsThread) : Prop where
  scheduled : Scheduled os
  pollset : PollSet os
  polled : Polled os.requests os.reqevents

theorem polling_new : Polling {} := by
  refine ⟨scheduled_new, fun _ => rfl, ?_, List.Pairwise.nil, ?_, ?_⟩
  · intro request hrequest
    cases hrequest
  · intro socket h
    cases h
  · intro socket h
    cases h

theorem Polling.congr (h : Polling self) (hscheduled : Scheduled next)
    (huntimed : untimed next.requests = untimed self.requests)
    (hreqevents : next.reqevents = self.reqevents) (hpollset : next.pollset = self.pollset) :
    Polling next :=
  ⟨hscheduled, h.pollset.congr hreqevents hpollset, hreqevents ▸ h.polled.congr huntimed⟩

theorem Polling.clear (h : Polling self) (socket : Nat) : Polling (self.repoll socket {}) := by
  have hasked : ∀ {p}, PollEvents.IsEvent p → Asked p self.requests self.reqevents →
      Asked p self.requests (update self.reqevents socket {}) := by
    intro p hp hasked s hs
    by_cases heq : s = socket
    · rw [heq, update_self, hp.empty] at hs
      cases hs
    · rw [update_of_ne heq] at hs
      exact hasked s hs
  exact ⟨PollOnly.scheduled ⟨_, _, rfl⟩ h.scheduled, h.pollset.repoll socket {},
    h.polled.takes, h.polled.placed, hasked isEvent_pollin h.polled.pollin,
    hasked isEvent_pollout h.polled.pollout⟩

theorem Polling.destroy (h : Polling self) (hrequest : request ∈ self.requests) (clock : Int) :
    ∃ next, self.destroy request.number clock = some next ∧ Destroyed self next request ∧
      Polling next ∧
      next.reqevents = update self.reqevents request.socket (self.left request) := by
  obtain ⟨next, hdestroy, hdestroyed, hpollset, hreqevents⟩ :=
    exists_destroy h.scheduled h.pollset hrequest clock
  refine ⟨next, hdestroy, hdestroyed, ⟨hdestroyed.scheduled, hpollset, ?_⟩, hreqevents⟩
  rw [hreqevents]
  exact (h.polled.erase h.scheduled hrequest).congr hdestroyed.requests

theorem exists_of_destroy (h : self.destroy n clock = some next) :
    ∃ request ∈ self.requests, request.number = n := by
  unfold OsThread.destroy at h
  split at h
  · cases h
  · next request hfind => exact ⟨request, mem_of_findKey hfind⟩

theorem exists_of_timer (h : self.timer n clock = some next) :
    ∃ request ∈ self.requests, request.number = n := by
  unfold OsThread.timer at h
  split at h
  · cases h
  · next request hfind => exact ⟨request, mem_of_findKey hfind⟩

theorem Polling.newRequest (h : Polling self) {type : RequestType} {msecs : Nat}
    {inputEvent outputEvent : Option Nat} {r : OsThread × Option Nat}
    (htakes : type.Takes inputEvent outputEvent)
    (hr : self.newRequest thread type socket msecs inputEvent outputEvent clock = some r) :
    r = (self, none) ∨ ∃ request : SocketRequest, request.socket = socket ∧ Polling r.1 ∧
      untimed r.1.requests = untimed (self.addRequest request).requests ∧
      r.1.reqevents = update self.reqevents socket (self.wanted request) := by
  have hscheduled := scheduled_newRequest h.scheduled hr
  unfold OsThread.newRequest at hr
  simp only at hr
  split at hr
  · exact .inl (some.inj hr).symm
  · next hallowed =>
    obtain ⟨polled, hpoll, rfl⟩ := map_eq_some_iff.mp hr
    generalize hrequest : (⟨self.made, thread, type, socket, inputEvent, outputEvent, msecs, none⟩ :
      SocketRequest) = request at *
    have hnumber : request.number = self.made := by rw [← hrequest]
    have hsocket : request.socket = socket := by rw [← hrequest]
    have htakes' : request.Takes := by
      rw [← hrequest]
      exact htakes
    have henlist := Scheduled.enlist h.scheduled hnumber (by rw [← hrequest])
    have hsame : (self.enlist request).requests = (self.addRequest request).requests ∧
        (self.enlist request).reqevents = self.reqevents ∧
        (self.enlist request).pollset = self.pollset := by
      unfold enlist
      split <;> exact ⟨rfl, rfl, rfl⟩
    obtain ⟨hset, huntimed, hreqevents⟩ := pollNew_poll henlist
      (h.pollset.congr hsame.2.1 hsame.2.2) (mem_enlist self request)
      (any_asks htakes') hpoll
    have hwanted : (self.enlist request).wanted request = self.wanted request := by
      unfold wanted
      rw [hsame.2.1]
    rw [hsame.1] at huntimed
    rw [hsame.2.1, hwanted] at hreqevents
    have hadd := h.polled.add htakes' (fun r hr => hnumber ▸ h.scheduled.listed.number_lt r hr)
      (by rw [hsocket]; exact eq_false_of_ne_true hallowed)
    refine .inr ⟨request, hsocket, ⟨hscheduled, hset, ?_⟩, huntimed, hsocket ▸ hreqevents⟩
    rw [hreqevents]
    exact hadd.congr huntimed

theorem kept_polling : Kept Polling where
  congr := by
    rintro self next h ⟨_, _, _, _, rfl⟩
    exact h.congr (h.scheduled.congr rfl rfl rfl rfl rfl rfl) rfl rfl rfl
  wakeup := by
    intro self thread time event h
    refine h.congr (h.scheduled.wakeup thread time event) ?_ ?_ ?_ <;>
      cases event <;> rfl
  destroyTimer := by
    intro self next timer h htimer hnone hdestroy
    obtain ⟨pendingCount, hdestroy', hscheduled⟩ := h.scheduled.destroyTimer htimer hnone
    obtain rfl := some.inj (hdestroy'.symm.trans hdestroy)
    exact h.congr hscheduled rfl rfl rfl
  expire := by
    intro self next timer n h htimer hsocket hdestroy
    have hscheduled := kept_scheduled.expire h.scheduled htimer hsocket hdestroy
    have hdestroy' := @destroyTimer_timeout (self.setTimer n none) n timer h.scheduled.timed.numbers
      htimer hsocket
    obtain rfl := some.inj (hdestroy'.symm.trans hdestroy)
    exact h.congr hscheduled (untimed_updateKey ..) rfl rfl
  timer := by
    intro self next n clock h htimer
    have hscheduled := kept_scheduled.timer h.scheduled htimer
    obtain ⟨request, hrequest, rfl⟩ := exists_of_timer htimer
    obtain ⟨hreqevents, hpollset, huntimed⟩ := timer_poll h.scheduled hrequest htimer
    exact h.congr hscheduled huntimed hreqevents hpollset
  newRequest := by
    intro self r thread type socket msecs inputEvent outputEvent clock h htakes hr
    rcases h.newRequest htakes hr with rfl | ⟨_, _, hpolling, _, _⟩
    · exact h
    · exact hpolling
  clearPoll := by
    intro self next socket h hclear
    obtain rfl := some.inj ((clearPoll_eq h.pollset socket).symm.trans hclear)
    exact h.clear socket
  destroy := by
    intro self next n clock h hdestroy
    obtain ⟨request, hrequest, rfl⟩ := exists_of_destroy hdestroy
    obtain ⟨next', hdestroy', _, hpolling, _⟩ := h.destroy hrequest clock
    obtain rfl := some.inj (hdestroy'.symm.trans hdestroy)
    exact hpolling

/-- A legal event keeps the poll set and the requests in step. -/
theorem polling_step (h : Polling self) {event : Event} (hlegal : self.Legal event)
    (hnext : self.step event = some next) : Polling next := by
  refine kept_polling.step (fun _ self walk acted h => ?_) h hlegal hnext
  exact h.congr (h.scheduled.congr rfl rfl rfl rfl rfl rfl) rfl rfl rfl

end OsThread

end OpenAmq
