import OpenAmq.Lib.Run
import OpenAmq.Smt.Parts

/-!
# The lists of timers and requests

What each operation of an OS thread does to its two lists, and to the counts of what its threadlets
wait for.

* `Scheduled` — the timers are sorted and counted, each timeout belongs to one request, and the
  counts are those of the requests that threadlets wait for
* `scheduled_timer`, `scheduled_destroy`, `scheduled_reply`, `scheduled_newRequest`
* `scheduled_run` — over any run
-/

namespace OpenAmq

open Lib List Function SocketRequest

/-- The timer was made before the other. -/
def TimerRequest.Earlier (a b : TimerRequest) : Prop := a.number < b.number

namespace OsThread

def waits (self : OsThread) (thread : Nat) : Nat :=
  self.requests.countP (fun request => request.blocks && request.thread == thread) +
    self.timerRequestList.countP (fun request => request.blocks && request.thread == thread)

/-- Each timeout is that of the request that has it. -/
structure Linked (requests : List SocketRequest) (timers : List TimerRequest) : Prop where
  timerOf : ∀ request ∈ requests, ∀ n, request.timerRequest = some n →
    ∃ timer ∈ timers, timer.number = n ∧ timer.socketRequest = some request.number
  requestOf : ∀ timer ∈ timers, ∀ n, timer.socketRequest = some n →
    ∃ request ∈ requests, request.number = n ∧ request.timerRequest = some timer.number

/-- The timers are sorted by time, those with the same time in the order in which they were made. -/
structure Timed (timers : List TimerRequest) (count made : Nat) : Prop where
  sorted : InKeyOrder TimerRequest.time TimerRequest.Earlier timers
  count_eq : count = timers.length
  numbers : (timers.map TimerRequest.number).Nodup
  number_lt : ∀ timer ∈ timers, timer.number < made

structure Listed (requests : List SocketRequest) (count made : Nat) : Prop where
  count_eq : count = requests.length
  numbers : (requests.map number).Nodup
  number_lt : ∀ request ∈ requests, request.number < made

structure Scheduled (os : OsThread) : Prop where
  timed : Timed os.timerRequestList os.timerRequestCount os.made
  listed : Listed os.requests os.socketRequestCount os.made
  linked : Linked os.requests os.timerRequestList
  pending : ∀ thread, os.pendingCount thread = os.waits thread

variable {self next : OsThread} {thread n m count made : Nat} {request : SocketRequest}
  {timer : TimerRequest} {requests : List SocketRequest} {timers : List TimerRequest} {clock : Int}

theorem scheduled_new : Scheduled {} := by
  constructor
  · constructor <;> simp [InKeyOrder.nil]
  · constructor <;> simp
  · constructor <;> simp
  · simp [waits]

theorem Scheduled.congr (h : Scheduled self)
    (htimers : next.timerRequestList = self.timerRequestList)
    (htimerCount : next.timerRequestCount = self.timerRequestCount)
    (hrequests : next.requests = self.requests)
    (hrequestCount : next.socketRequestCount = self.socketRequestCount)
    (hpending : next.pendingCount = self.pendingCount) (hmade : next.made = self.made) :
    Scheduled next := by
  refine ⟨?_, ?_, ?_, fun thread => ?_⟩
  · rw [htimers, htimerCount, hmade]
    exact h.timed
  · rw [hrequests, hrequestCount, hmade]
    exact h.listed
  · rw [hrequests, htimers]
    exact h.linked
  · rw [hpending, waits, hrequests, htimers]
    exact h.pending thread

/-! ## The two lists -/

theorem Timed.mono {made' : Nat} (h : Timed timers count made) (hle : made ≤ made') :
    Timed timers count made' :=
  ⟨h.sorted, h.count_eq, h.numbers, fun t ht => (h.number_lt t ht).trans_le hle⟩

theorem Timed.insert (h : Timed timers count made) (hnumber : timer.number = made) :
    Timed (insertBack TimerRequest.time timer timers) (count + 1) (made + 1) where
  sorted := by
    refine h.sorted.insertBack fun t ht => ?_
    show t.number < timer.number
    rw [hnumber]
    exact h.number_lt t ht
  count_eq := by rw [length_insertBack, h.count_eq]
  numbers := by
    rw [((insertBack_perm TimerRequest.time timer timers).map TimerRequest.number).nodup_iff,
      map_cons, nodup_cons]
    refine ⟨fun hmem => ?_, h.numbers⟩
    obtain ⟨t, ht, heq⟩ := mem_map.mp hmem
    have hlt := h.number_lt t ht
    omega
  number_lt := by
    intro t ht
    rcases (mem_insertBack TimerRequest.time).mp ht with rfl | ht
    · omega
    · exact (h.number_lt t ht).trans (Nat.lt_succ_self made)

theorem Timed.erase (h : Timed timers count made) (htimer : timer ∈ timers) :
    Timed (eraseKey TimerRequest.number timer.number timers) (count - 1) made where
  sorted := h.sorted.sublist (eraseKey_sublist _ _)
  count_eq := by
    have hlength := length_eraseKey h.numbers htimer
    have hcount := h.count_eq
    omega
  numbers := nodup_eraseKey h.numbers _
  number_lt := by
    intro t ht
    exact h.number_lt t (mem_eraseKey.mp ht).1

theorem Listed.update (h : Listed requests count made) (n : Nat) (timerRequest : Option Nat) :
    Listed (updateKey SocketRequest.number n (SocketRequest.setTimer timerRequest) requests) count
      made where
  count_eq := by
    rw [updateKey, length_map]
    exact h.count_eq
  numbers := by
    have hnumbers : (updateKey SocketRequest.number n (SocketRequest.setTimer timerRequest)
        requests).map SocketRequest.number = requests.map SocketRequest.number :=
      map_updateKey (SocketRequest.setTimer timerRequest) _ (fun _ _ => rfl) _
    rw [hnumbers]
    exact h.numbers
  number_lt := by
    intro r hr
    rcases mem_updateKey.mp hr with ⟨r', hr', -, rfl⟩ | ⟨hr, -⟩
    · exact h.number_lt r' hr'
    · exact h.number_lt r hr

theorem Listed.mono {made' : Nat} (h : Listed requests count made) (hle : made ≤ made') :
    Listed requests count made' :=
  ⟨h.count_eq, h.numbers, fun r hr => (h.number_lt r hr).trans_le hle⟩

theorem Listed.erase (h : Listed requests count made) (hrequest : request ∈ requests) :
    Listed (eraseKey number request.number requests) (count - 1) made where
  count_eq := by
    have hlength := length_eraseKey h.numbers hrequest
    have hcount := h.count_eq
    omega
  numbers := nodup_eraseKey h.numbers _
  number_lt := by
    intro r hr
    exact h.number_lt r (mem_eraseKey.mp hr).1

theorem Listed.add {requests' : List SocketRequest} (h : Listed requests count made)
    (hnumber : request.number = made) (hperm : requests'.Perm (request :: requests)) :
    Listed requests' (count + 1) (made + 1) where
  count_eq := by rw [hperm.length_eq, length_cons, h.count_eq]
  numbers := by
    rw [(hperm.map number).nodup_iff, map_cons, nodup_cons]
    refine ⟨fun hmem => ?_, h.numbers⟩
    obtain ⟨r, hr, heq⟩ := mem_map.mp hmem
    have hlt := h.number_lt r hr
    omega
  number_lt := by
    intro r hr
    rcases mem_cons.mp (hperm.mem_iff.mp hr) with rfl | hr
    · omega
    · exact (h.number_lt r hr).trans (Nat.lt_succ_self made)

/-! ## Links -/

theorem Linked.addTimer {timers' : List TimerRequest} (h : Linked requests timers)
    (hnone : timer.socketRequest = none) (hmem : ∀ t, t ∈ timers' ↔ t = timer ∨ t ∈ timers) :
    Linked requests timers' where
  timerOf := by
    intro request hrequest n hn
    obtain ⟨t, ht, hnumber⟩ := h.timerOf request hrequest n hn
    exact ⟨t, (hmem t).mpr (.inr ht), hnumber⟩
  requestOf := by
    intro t ht n hn
    rcases (hmem t).mp ht with rfl | ht
    · rw [hnone] at hn
      cases hn
    · exact h.requestOf t ht n hn

theorem Linked.removeTimer (h : Linked requests timers)
    (hnumbers : (timers.map TimerRequest.number).Nodup) (htimer : timer ∈ timers)
    (hnone : timer.socketRequest = none) :
    Linked requests (eraseKey TimerRequest.number timer.number timers) where
  timerOf := by
    intro request hrequest n hn
    obtain ⟨t, ht, hnumber, hsocket⟩ := h.timerOf request hrequest n hn
    refine ⟨t, mem_eraseKey.mpr ⟨ht, fun heq => ?_⟩, hnumber, hsocket⟩
    rw [inj_on_of_nodup_map hnumbers ht htimer heq, hnone] at hsocket
    cases hsocket
  requestOf := by
    intro t ht
    exact h.requestOf t (mem_eraseKey.mp ht).1

theorem Linked.loosen (h : Linked requests timers)
    (hnumbers : (timers.map TimerRequest.number).Nodup)
    (hrequests : (requests.map number).Nodup) (htimer : timer ∈ timers)
    (hsocket : timer.socketRequest = some n) :
    Linked (updateKey SocketRequest.number n (SocketRequest.setTimer none) requests)
      (eraseKey TimerRequest.number timer.number timers) where
  timerOf := by
    intro request hrequest k hk
    rcases mem_updateKey.mp hrequest with ⟨r, -, -, rfl⟩ | ⟨hrequest, hne⟩
    · cases hk
    · obtain ⟨t, ht, hnumber, ht'⟩ := h.timerOf request hrequest k hk
      refine ⟨t, mem_eraseKey.mpr ⟨ht, fun heq => ?_⟩, hnumber, ht'⟩
      rw [inj_on_of_nodup_map hnumbers ht htimer heq, hsocket] at ht'
      exact hne (Option.some.inj ht').symm
  requestOf := by
    intro t ht k hk
    obtain ⟨ht, hne⟩ := mem_eraseKey.mp ht
    obtain ⟨r, hr, hnumber, htied⟩ := h.requestOf t ht k hk
    refine ⟨r, mem_updateKey.mpr (.inr ⟨hr, fun heq => ?_⟩), hnumber, htied⟩
    obtain ⟨r', hr', hnumber', htied'⟩ := h.requestOf timer htimer n hsocket
    rw [inj_on_of_nodup_map hrequests hr hr' (heq.trans hnumber'.symm), htied'] at htied
    exact hne (Option.some.inj htied).symm

theorem Linked.erase (h : Linked requests timers)
    (hrequests : (requests.map number).Nodup) (hrequest : request ∈ requests)
    (hnone : request.timerRequest = none) :
    Linked (eraseKey number request.number requests) timers where
  timerOf := by
    intro r hr
    exact h.timerOf r (mem_eraseKey.mp hr).1
  requestOf := by
    intro t ht k hk
    obtain ⟨r, hr, hnumber, htied⟩ := h.requestOf t ht k hk
    refine ⟨r, mem_eraseKey.mpr ⟨hr, fun heq => ?_⟩, hnumber, htied⟩
    rw [inj_on_of_nodup_map hrequests hr hrequest heq, hnone] at htied
    cases htied

theorem Linked.tie {timers' : List TimerRequest} (h : Linked requests timers)
    (hrequests : (requests.map number).Nodup) (hrequest : request ∈ requests)
    (hnone : request.timerRequest = none) (hsocket : timer.socketRequest = some request.number)
    (hmem : ∀ t, t ∈ timers' ↔ t = timer ∨ t ∈ timers) :
    Linked (updateKey SocketRequest.number request.number
      (SocketRequest.setTimer (some timer.number)) requests) timers' where
  timerOf := by
    intro r hr k hk
    rcases mem_updateKey.mp hr with ⟨r', -, hnumber, rfl⟩ | ⟨hr, -⟩
    · refine ⟨timer, (hmem timer).mpr (.inl rfl), Option.some.inj hk, ?_⟩
      rw [hsocket]
      exact congrArg some hnumber.symm
    · obtain ⟨t, ht, hnumber⟩ := h.timerOf r hr k hk
      exact ⟨t, (hmem t).mpr (.inr ht), hnumber⟩
  requestOf := by
    intro t ht k hk
    rcases (hmem t).mp ht with rfl | ht
    · rw [hsocket] at hk
      exact ⟨_, mem_updateKey.mpr (.inl ⟨request, hrequest, rfl, rfl⟩), Option.some.inj hk, rfl⟩
    · obtain ⟨r, hr, hnumber, htied⟩ := h.requestOf t ht k hk
      refine ⟨r, mem_updateKey.mpr (.inr ⟨hr, fun heq => ?_⟩), hnumber, htied⟩
      rw [inj_on_of_nodup_map hrequests hr hrequest heq, hnone] at htied
      cases htied

theorem Linked.add {requests' : List SocketRequest} (h : Linked requests timers)
    (hnone : request.timerRequest = none)
    (hmem : ∀ r, r ∈ requests' ↔ r = request ∨ r ∈ requests) : Linked requests' timers where
  timerOf := by
    intro r hr n hn
    rcases (hmem r).mp hr with rfl | hr
    · rw [hnone] at hn
      cases hn
    · exact h.timerOf r hr n hn
  requestOf := by
    intro t ht n hn
    obtain ⟨r, hr, hnumber⟩ := h.requestOf t ht n hn
    exact ⟨r, (hmem r).mpr (.inr hr), hnumber⟩

/-! ## Timers -/

@[simp] theorem waits_setTimer (self : OsThread) (n : Nat) (timerRequest : Option Nat)
    (thread : Nat) : (self.setTimer n timerRequest).waits thread = self.waits thread := by
  have hcount : (updateKey SocketRequest.number n (SocketRequest.setTimer timerRequest)
      self.requests).countP (fun request => request.blocks && request.thread == thread) =
        self.requests.countP fun request => request.blocks && request.thread == thread :=
    countP_updateKey (SocketRequest.setTimer timerRequest) _ (fun _ _ => rfl) _
  unfold waits setTimer
  rw [hcount]

theorem waits_newTimer (self : OsThread) (thread' : Nat) (time : Int)
    (event socketRequest : Option Nat) (thread : Nat) :
    (self.newTimer thread' time event socketRequest).waits thread = self.waits thread +
      if event.isNone && socketRequest.isNone && thread' == thread then 1 else 0 := by
  unfold waits newTimer
  rw [(insertBack_perm TimerRequest.time _ self.timerRequestList).countP_eq, countP_cons,
    ← Nat.add_assoc]
  rfl

theorem waits_removeTimer (hnumbers : (self.timerRequestList.map TimerRequest.number).Nodup)
    (htimer : timer ∈ self.timerRequestList) (thread : Nat) :
    (self.removeTimer timer.number).waits thread +
      (if timer.blocks && timer.thread == thread then 1 else 0) = self.waits thread := by
  unfold waits removeTimer
  rw [Nat.add_assoc, countP_eraseKey _ hnumbers htimer]

theorem Scheduled.wakeup (h : Scheduled self) (thread : Nat) (time : Int) (event : Option Nat) :
    Scheduled (self.wakeup thread time event) := by
  have htimed := @Timed.insert _ _ ⟨self.made, thread, time, event, none⟩ _ h.timed rfl
  have hlinked := @Linked.addTimer ⟨self.made, thread, time, event, none⟩ _ _
    (insertBack TimerRequest.time ⟨self.made, thread, time, event, none⟩ self.timerRequestList)
    h.linked rfl fun t => mem_insertBack TimerRequest.time
  have hlisted := h.listed.mono (Nat.le_succ self.made)
  have hwaits := self.waits_newTimer thread time event none
  cases event with
  | some e =>
    refine ⟨htimed, hlisted, hlinked, fun thread' => ?_⟩
    exact (h.pending thread').trans (hwaits thread').symm
  | none =>
    refine ⟨htimed, hlisted, hlinked, fun thread' => ?_⟩
    refine Eq.trans ?_ (hwaits thread').symm
    show update self.pendingCount thread (self.pendingCount thread + 1) thread' = _
    rw [← h.pending thread']
    by_cases heq : thread' = thread
    · simp [heq]
    · simp [heq, Ne.symm heq]

theorem exists_release (os : OsThread) (blocks : Bool) (thread : Nat)
    (h : ∀ t, os.pendingCount t = os.waits t + if blocks && thread == t then 1 else 0) :
    ∃ pendingCount, (if blocks then os.unblock thread else some os) =
      some { os with pendingCount } ∧ ∀ t, pendingCount t = os.waits t := by
  cases blocks with
  | false => exact ⟨os.pendingCount, rfl, fun t => by simpa using h t⟩
  | true =>
    have hself := h thread
    rw [Bool.true_and, beq_self_eq_true, if_pos rfl] at hself
    refine ⟨update os.pendingCount thread (os.pendingCount thread - 1), ?_, fun t => ?_⟩
    · unfold unblock
      rw [if_pos rfl, if_neg (by omega)]
    · by_cases heq : t = thread
      · rw [heq, update_self]
        omega
      · rw [update_of_ne heq, h t]
        simp [Ne.symm heq]

theorem findKey_timer (h : (self.timerRequestList.map TimerRequest.number).Nodup)
    (htimer : timer ∈ self.timerRequestList) :
    findKey TimerRequest.number timer.number self.timerRequestList = some timer :=
  (findKey_eq_some_iff h).mpr ⟨htimer, rfl⟩

theorem findKey_request (h : Scheduled self) (hrequest : request ∈ self.requests) :
    findKey number request.number self.requests = some request :=
  (findKey_eq_some_iff h.listed.numbers).mpr ⟨hrequest, rfl⟩

theorem Scheduled.destroyTimer (h : Scheduled self) (htimer : timer ∈ self.timerRequestList)
    (hnone : timer.socketRequest = none) :
    ∃ pendingCount, self.destroyTimer timer.number =
      some { self.removeTimer timer.number with pendingCount } ∧
      Scheduled { self.removeTimer timer.number with pendingCount } := by
  have hpending : ∀ t, (self.removeTimer timer.number).pendingCount t =
      (self.removeTimer timer.number).waits t +
        if timer.blocks && timer.thread == t then 1 else 0 := by
    intro t
    rw [waits_removeTimer h.timed.numbers htimer]
    exact h.pending t
  obtain ⟨pendingCount, hrelease, hcount⟩ := exists_release _ _ _ hpending
  refine ⟨pendingCount, ?_, h.timed.erase htimer, h.listed,
    h.linked.removeTimer h.timed.numbers htimer hnone, hcount⟩
  unfold OsThread.destroyTimer
  rw [findKey_timer h.timed.numbers htimer]
  exact hrelease

theorem not_blocks_of_socketRequest (h : timer.socketRequest = some n) : timer.blocks = false := by
  unfold TimerRequest.blocks
  rw [h]
  simp

theorem destroyTimer_timeout (h : (self.timerRequestList.map TimerRequest.number).Nodup)
    (htimer : timer ∈ self.timerRequestList) (hsocket : timer.socketRequest = some n) :
    self.destroyTimer timer.number = some (self.removeTimer timer.number) := by
  unfold OsThread.destroyTimer
  rw [findKey_timer h htimer]
  simp only
  rw [not_blocks_of_socketRequest hsocket]
  rfl

theorem Scheduled.loosen (h : Scheduled self) (htimer : timer ∈ self.timerRequestList)
    (hsocket : timer.socketRequest = some n) :
    Scheduled ((self.setTimer n none).removeTimer timer.number) := by
  refine ⟨h.timed.erase htimer, h.listed.update n none,
    h.linked.loosen h.timed.numbers h.listed.numbers htimer hsocket, fun thread => ?_⟩
  have hwaits := @waits_removeTimer (self.setTimer n none) timer h.timed.numbers htimer thread
  rw [not_blocks_of_socketRequest hsocket, waits_setTimer] at hwaits
  exact (h.pending thread).trans hwaits.symm

theorem Scheduled.tie (h : Scheduled self) (hrequest : request ∈ self.requests)
    (hnone : request.timerRequest = none) (time : Int) :
    Scheduled ((self.newTimer request.thread time none (some request.number)).setTimer
      request.number (some self.made)) := by
  have htimed := @Timed.insert _ _
    ⟨self.made, request.thread, time, none, some request.number⟩ _ h.timed rfl
  refine ⟨htimed, (h.listed.mono (Nat.le_succ self.made)).update request.number (some self.made),
    ?_, fun thread => ?_⟩
  · exact @Linked.tie request ⟨self.made, request.thread, time, none, some request.number⟩ _ _ _
      h.linked h.listed.numbers hrequest hnone rfl fun t => mem_insertBack TimerRequest.time
  · rw [waits_setTimer, waits_newTimer]
    simpa [newTimer, setTimer] using h.pending thread

def retimed (self : OsThread) (request : SocketRequest) (time : Int) : OsThread :=
  match request.timerRequest with
  | none => (self.newTimer request.thread time none (some request.number)).setTimer request.number
      (some self.made)
  | some n => (((self.setTimer request.number none).removeTimer n).newTimer request.thread time none
      (some request.number)).setTimer request.number (some self.made)

theorem timer_eq (h : Scheduled self) (hrequest : request ∈ self.requests) (clock : Int) :
    self.timer request.number clock = some (if request.msecs = 0 then self
        else self.retimed request (clock + timeout request.msecs)) := by
  unfold OsThread.timer
  rw [findKey_request h hrequest]
  simp only
  split
  · rfl
  · unfold dropTimer retimed
    cases hm : request.timerRequest with
    | none => rfl
    | some m =>
      obtain ⟨timer, htimer, rfl, hsocket⟩ := h.linked.timerOf request hrequest m hm
      simp only
      rw [destroyTimer_timeout h.timed.numbers htimer hsocket]
      have hupdate : updateKey SocketRequest.number request.number
          (SocketRequest.setTimer (some self.made)) (updateKey SocketRequest.number request.number
            (SocketRequest.setTimer none) self.requests) =
          updateKey SocketRequest.number request.number (SocketRequest.setTimer (some self.made))
            self.requests :=
        updateKey_updateKey (SocketRequest.setTimer none) _ (fun _ => rfl) (fun _ => rfl) _
      unfold removeTimer newTimer setTimer
      simp only [Option.map_some, hupdate]

theorem Scheduled.retimed (h : Scheduled self) (hrequest : request ∈ self.requests) (time : Int) :
    Scheduled (self.retimed request time) := by
  unfold OsThread.retimed
  split
  · next hnone => exact h.tie hrequest hnone time
  · next m hm =>
    obtain ⟨timer, htimer, rfl, hsocket⟩ := h.linked.timerOf request hrequest m hm
    have hloose := h.loosen htimer hsocket
    have hmem : request.setTimer none ∈
        ((self.setTimer request.number none).removeTimer timer.number).requests :=
      mem_updateKey.mpr (.inl ⟨request, hrequest, rfl, rfl⟩)
    exact hloose.tie hmem rfl time

theorem scheduled_timer (h : Scheduled self) (hrequest : request ∈ self.requests) (clock : Int) :
    ∃ next, self.timer request.number clock = some next ∧ Scheduled next := by
  refine ⟨_, timer_eq h hrequest clock, ?_⟩
  split
  · exact h
  · exact h.retimed hrequest _

/-! ## What is left as it is -/

/-- A request without its timer -/
def untimed (requests : List SocketRequest) : List SocketRequest :=
  requests.map (SocketRequest.setTimer none)

theorem untimed_updateKey (n : Nat) (timerRequest : Option Nat) (requests : List SocketRequest) :
    untimed (updateKey SocketRequest.number n (SocketRequest.setTimer timerRequest) requests) =
      untimed requests :=
  map_updateKey (SocketRequest.setTimer timerRequest) _ (fun _ _ => rfl) _

/-- The timeouts of `requests` are destroyed or made, and nothing is done to any threadlet. -/
structure Moved (os next : OsThread) (requests : List Nat) : Prop where
  walk : next.walk = os.walk
  acted : next.acted = os.acted
  activated : next.activated = os.activated
  sent : next.sent = os.sent
  monitor : next.monitor = os.monitor
  made : os.made ≤ next.made
  old : ∀ timer ∈ next.timerRequestList, timer ∈ os.timerRequestList ∨ os.made ≤ timer.number
  kept : ∀ timer ∈ os.timerRequestList, (∀ n ∈ requests, timer.socketRequest ≠ some n) →
    timer ∈ next.timerRequestList

theorem Moved.trans {last : OsThread} {requests requests' : List Nat}
    (h : Moved self next requests) (h' : Moved next last requests') :
    Moved self last (requests ++ requests') where
  walk := h'.walk.trans h.walk
  acted := h'.acted.trans h.acted
  activated := h'.activated.trans h.activated
  sent := h'.sent.trans h.sent
  monitor := h'.monitor.trans h.monitor
  made := h.made.trans h'.made
  old := by
    intro timer htimer
    rcases h'.old timer htimer with htimer | hnew
    · exact h.old timer htimer
    · exact .inr (h.made.trans hnew)
  kept := by
    intro timer htimer hne
    refine h'.kept timer (h.kept timer htimer fun n hn => ?_) fun n hn => ?_
    · exact hne n (mem_append_left _ hn)
    · exact hne n (mem_append_right _ hn)

theorem Moved.mono {requests requests' : List Nat} (h : Moved self next requests)
    (hsub : ∀ n ∈ requests, n ∈ requests') : Moved self next requests' :=
  { h with kept := fun t ht hne => h.kept t ht fun n hn => hne n (hsub n hn) }

theorem moved_removeTimer (hnumbers : (self.timerRequestList.map TimerRequest.number).Nodup)
    (htimer : timer ∈ self.timerRequestList) (hsocket : timer.socketRequest = some n) :
    Moved self (self.removeTimer timer.number) [n] where
  walk := rfl
  acted := rfl
  activated := rfl
  sent := rfl
  monitor := rfl
  made := Nat.le_refl _
  old := fun _ ht => .inl (mem_eraseKey.mp ht).1
  kept := by
    intro t ht hne
    refine mem_eraseKey.mpr ⟨ht, fun heq => ?_⟩
    rw [inj_on_of_nodup_map hnumbers ht htimer heq] at hne
    exact hne n mem_cons_self hsocket

theorem moved_newTimer (self : OsThread) (thread : Nat) (time : Int)
    (event socketRequest : Option Nat) :
    Moved self (self.newTimer thread time event socketRequest) [] where
  walk := rfl
  acted := rfl
  activated := rfl
  sent := rfl
  monitor := rfl
  made := Nat.le_succ _
  old := by
    intro t ht
    rcases (mem_insertBack TimerRequest.time).mp ht with rfl | ht
    · exact .inr (Nat.le_refl _)
    · exact .inl ht
  kept := fun _ ht _ => (mem_insertBack TimerRequest.time).mpr (.inr ht)

theorem moved_setTimer (self : OsThread) (n : Nat) (timerRequest : Option Nat) :
    Moved self (self.setTimer n timerRequest) [] :=
  ⟨rfl, rfl, rfl, rfl, rfl, Nat.le_refl _, fun _ ht => .inl ht, fun _ ht _ => ht⟩

theorem moved_retimed (h : Scheduled self) (hrequest : request ∈ self.requests) (time : Int) :
    Moved self (self.retimed request time) [request.number] := by
  unfold retimed
  split
  · exact ((moved_newTimer ..).trans (moved_setTimer ..)).mono (by simp)
  · next m hm =>
    obtain ⟨timer, htimer, rfl, hsocket⟩ := h.linked.timerOf request hrequest m hm
    have hremove := @moved_removeTimer (self.setTimer request.number none) _ _ h.timed.numbers
      htimer hsocket
    exact ((((moved_setTimer ..).trans hremove).trans (moved_newTimer ..)).trans
      (moved_setTimer ..)).mono (by simp)

theorem untimed_retimed (self : OsThread) (request : SocketRequest) (time : Int) :
    untimed (self.retimed request time).requests = untimed self.requests := by
  unfold retimed
  split
  · exact untimed_updateKey ..
  · exact (untimed_updateKey ..).trans (untimed_updateKey ..)

def PollOnly (self next : OsThread) : Prop :=
  ∃ reqevents pollset, next = { self with reqevents, pollset }

theorem PollOnly.refl (self : OsThread) : PollOnly self self := ⟨_, _, rfl⟩

theorem PollOnly.trans {last : OsThread} (h : PollOnly self next) (h' : PollOnly next last) :
    PollOnly self last := by
  obtain ⟨_, _, rfl⟩ := h
  obtain ⟨_, _, rfl⟩ := h'
  exact ⟨_, _, rfl⟩

theorem PollOnly.scheduled (h : PollOnly self next) (hself : Scheduled self) : Scheduled next := by
  obtain ⟨_, _, rfl⟩ := h
  exact hself.congr rfl rfl rfl rfl rfl rfl

theorem PollOnly.moved (h : PollOnly self next) : Moved self next [] := by
  obtain ⟨_, _, rfl⟩ := h
  exact ⟨rfl, rfl, rfl, rfl, rfl, Nat.le_refl _, fun _ ht => .inl ht, fun _ ht _ => ht⟩

theorem pollOnly_setReqevents (self : OsThread) (socket : Nat) (events : PollEvents) :
    PollOnly self (self.setReqevents socket events) := ⟨_, _, rfl⟩

variable {socket : Nat}

theorem pollOnly_pollsetAdd (h : self.pollsetAdd socket = some next) : PollOnly self next := by
  unfold pollsetAdd at h
  split at h
  · cases h
  · cases h
    exact ⟨_, _, rfl⟩

theorem pollOnly_pollsetRemove (h : self.pollsetRemove socket = some next) :
    PollOnly self next := by
  unfold pollsetRemove at h
  split at h
  · cases h
  · cases h
    exact ⟨_, _, rfl⟩

theorem pollOnly_clearPoll (h : self.clearPoll socket = some next) : PollOnly self next := by
  unfold clearPoll at h
  split at h
  · obtain ⟨removed, hremoved, rfl⟩ := Option.map_eq_some_iff.mp h
    exact (pollOnly_pollsetRemove hremoved).trans (pollOnly_setReqevents ..)
  · exact Option.some.inj h ▸ .refl _

theorem pollOnly_dropPoll (h : self.dropPoll request = some next) : PollOnly self next := by
  unfold dropPoll at h
  simp only at h
  split at h
  · exact Option.some.inj h ▸ .refl _
  · obtain ⟨removed, hremoved, h⟩ := Option.bind_eq_some_iff.mp h
    have hremove := pollOnly_pollsetRemove hremoved
    split at h
    · exact hremove.trans ((pollOnly_setReqevents ..).trans (pollOnly_pollsetAdd h))
    · exact Option.some.inj h ▸ hremove.trans (pollOnly_setReqevents ..)

/-! ## Removal of a request -/

variable {successor : SocketRequest}

theorem mem_listOf :
    request ∈ self.listOf socket ↔ request ∈ self.requests ∧ request.socket = socket := by
  simp [listOf]

theorem nodup_listOf (h : Scheduled self) (socket : Nat) :
    ((self.listOf socket).map number).Nodup :=
  h.listed.numbers.sublist (filter_sublist.map number)

theorem mem_of_successor (h : self.successor request = some successor) :
    successor ∈ self.requests ∧ successor.socket = request.socket := by
  exact mem_listOf.mp (mem_of_nextKey (Option.filter_eq_some_iff.mp h).1)

theorem number_ne_of_successor (h : Scheduled self) (hrequest : request ∈ self.requests)
    (hsuccessor : self.successor request = some successor) :
    successor.number ≠ request.number := by
  obtain ⟨front, rest, -, -, hrest, hnext⟩ :=
    exists_split (nodup_listOf h request.socket) (mem_listOf.mpr ⟨hrequest, rfl⟩)
  unfold OsThread.successor at hsuccessor
  rw [hnext] at hsuccessor
  exact hrest _ (mem_of_mem_head? (Option.filter_eq_some_iff.mp hsuccessor).1)

/-- The request that gets a timeout when the other one is removed -/
def heir (self : OsThread) (request : SocketRequest) : Option SocketRequest :=
  if request.type = .monitor ∨ request.type = .close then none else self.successor request

theorem successor_untimed {r : SocketRequest}
    (huntimed : untimed next.requests = untimed self.requests)
      (heq : r.setTimer none = request.setTimer none) :
    (next.successor request).map number = (self.successor r).map number := by
  have hmap : ∀ (os : OsThread) (r : SocketRequest), (os.successor r).map number =
      ((nextKey number (r.setTimer none).number ((untimed os.requests).filter
        fun request => request.socket = (r.setTimer none).socket)).filter
          fun next => !((r.setTimer none).isOutput && next.isInput)).map number := by
    intro os r
    have hnext : nextKey SocketRequest.number r.number ((os.listOf r.socket).map
        (SocketRequest.setTimer none)) =
          (nextKey SocketRequest.number r.number (os.listOf r.socket)).map
            (SocketRequest.setTimer none) :=
      nextKey_map (SocketRequest.setTimer none) (fun _ => rfl) _ _
    unfold successor untimed
    rw [filter_map]
    show _ = ((nextKey SocketRequest.number r.number ((os.listOf r.socket).map
      (SocketRequest.setTimer none))).filter _).map _
    rw [hnext]
    cases nextKey SocketRequest.number r.number (os.listOf r.socket) with
    | none => rfl
    | some next =>
      show Option.map _ (if (!(r.isOutput && next.isInput)) = true then _ else _) =
        Option.map _ (if (!(r.isOutput && next.isInput)) = true then _ else _)
      split <;> rfl
  rw [hmap next request, hmap self r, huntimed, heq]

theorem heir_untimed {r : SocketRequest} (huntimed : untimed next.requests = untimed self.requests)
    (heq : r.setTimer none = request.setTimer none) :
    (next.heir request).map number = (self.heir r).map number := by
  have htype : r.type = request.type := (congrArg type heq :)
  unfold heir
  rw [htype]
  split
  · rfl
  · exact successor_untimed huntimed heq

theorem successor_of_heir (h : self.heir request = some successor) :
    self.successor request = some successor := by
  unfold heir at h
  split at h
  · cases h
  · exact h

theorem pollOld_cases (h : Scheduled self) (hpoll : self.pollOld request clock = some next) :
    PollOnly self next ∨ ∃ successor, self.heir request = some successor ∧
      next = self.retimed successor (clock + timeout successor.msecs) := by
  unfold pollOld at hpoll
  unfold heir
  split at hpoll
  · exact .inl (pollOnly_clearPoll hpoll)
  · split at hpoll
    · next successor hsuccessor =>
      rw [timer_eq h (mem_of_successor hsuccessor).1] at hpoll
      cases hpoll
      split
      · exact .inl (.refl _)
      · exact .inr ⟨successor, hsuccessor, rfl⟩
    · exact .inl (pollOnly_dropPoll hpoll)

/-- What stays when a request is about to be removed -/
structure Prepared (os next : OsThread) (request : SocketRequest) : Prop where
  scheduled : Scheduled next
  moved : Moved os next ((os.heir request).map number).toList
  mem : request ∈ next.requests
  requests : untimed next.requests = untimed os.requests
  pending : next.pendingCount = os.pendingCount

theorem pendingCount_retimed (self : OsThread) (request : SocketRequest) (time : Int) :
    (self.retimed request time).pendingCount = self.pendingCount := by
  unfold retimed
  split <;> rfl

theorem mem_retimed (hrequest : request ∈ self.requests) (hne : successor.number ≠ request.number)
    (time : Int) : request ∈ (self.retimed successor time).requests := by
  unfold retimed
  split
  · exact mem_updateKey.mpr (.inr ⟨hrequest, hne.symm⟩)
  · exact mem_updateKey.mpr (.inr ⟨mem_updateKey.mpr (.inr ⟨hrequest, hne.symm⟩), hne.symm⟩)

theorem prepared_pollOld (h : Scheduled self) (hrequest : request ∈ self.requests)
    (hpoll : self.pollOld request clock = some next) : Prepared self next request := by
  rcases pollOld_cases h hpoll with hpoll | ⟨successor, hheir, rfl⟩
  · have hscheduled := hpoll.scheduled h
    have hmoved := hpoll.moved
    obtain ⟨_, _, rfl⟩ := hpoll
    exact ⟨hscheduled, hmoved.mono (by simp), hrequest, rfl, rfl⟩
  · have hsuccessor := successor_of_heir hheir
    obtain ⟨hmem, -⟩ := mem_of_successor hsuccessor
    refine ⟨h.retimed hmem _, (moved_retimed h hmem _).mono ?_, ?_, untimed_retimed ..,
      pendingCount_retimed ..⟩
    · simp [hheir]
    · exact mem_retimed hrequest (number_ne_of_successor h hrequest hsuccessor) _

theorem waits_removeRequest (h : Scheduled self) (hrequest : request ∈ self.requests)
    (thread : Nat) : (self.removeRequest request.number).waits thread +
      (if request.blocks && request.thread == thread then 1 else 0) = self.waits thread := by
  unfold waits removeRequest
  rw [Nat.add_right_comm, countP_eraseKey _ h.listed.numbers hrequest]

theorem Scheduled.unlist (h : Scheduled self) (hrequest : request ∈ self.requests)
    (hnone : request.timerRequest = none) :
    ∃ pendingCount, self.unlist request =
      some { self.removeRequest request.number with pendingCount } ∧
      Scheduled { self.removeRequest request.number with pendingCount } ∧
      ∀ t, pendingCount t + (if request.blocks && request.thread == t then 1 else 0) =
        self.pendingCount t := by
  have hpending : ∀ t, (self.removeRequest request.number).pendingCount t =
      (self.removeRequest request.number).waits t +
        if request.blocks && request.thread == t then 1 else 0 := by
    intro t
    rw [waits_removeRequest h hrequest]
    exact h.pending t
  obtain ⟨pendingCount, hrelease, hcount⟩ := exists_release _ _ _ hpending
  refine ⟨pendingCount, hrelease, ⟨h.timed, h.listed.erase hrequest,
    h.linked.erase h.listed.numbers hrequest hnone, hcount⟩, fun t => ?_⟩
  rw [hcount]
  exact (hpending t).symm

structure Removed (os next : OsThread) (request : SocketRequest) : Prop where
  scheduled : Scheduled next
  moved : Moved os next [request.number]
  requests : untimed next.requests = untimed (eraseKey number request.number os.requests)
  reqevents : next.reqevents = os.reqevents
  pollset : next.pollset = os.pollset
  pending : ∀ t, next.pendingCount t +
    (if request.blocks && request.thread == t then 1 else 0) = os.pendingCount t

theorem exists_removed (h : Scheduled self) (hrequest : request ∈ self.requests) :
    ∃ next, ((self.dropTimer request.timerRequest).bind fun dropped => dropped.unlist request) =
      some next ∧ Removed self next request := by
  cases hm : request.timerRequest with
  | none =>
    obtain ⟨pendingCount, hunlist, hscheduled, hpending⟩ := h.unlist hrequest hm
    refine ⟨_, hunlist, hscheduled, ?_, rfl, rfl, rfl, hpending⟩
    exact ⟨rfl, rfl, rfl, rfl, rfl, Nat.le_refl _, fun _ ht => .inl ht, fun _ ht _ => ht⟩
  | some m =>
    obtain ⟨timer, htimer, rfl, hsocket⟩ := h.linked.timerOf request hrequest m hm
    have hmem : request.setTimer none ∈
        ((self.setTimer request.number none).removeTimer timer.number).requests :=
      mem_updateKey.mpr (.inl ⟨request, hrequest, rfl, rfl⟩)
    obtain ⟨pendingCount, hunlist, hscheduled, hpending⟩ :=
      (h.loosen htimer hsocket).unlist hmem rfl
    -- the request that has lost its timer is the one that goes
    have herase : ((self.setTimer request.number none).removeTimer timer.number).removeRequest
        request.number = (self.removeTimer timer.number).removeRequest request.number := by
      have hlist : eraseKey SocketRequest.number request.number (updateKey SocketRequest.number
          request.number (SocketRequest.setTimer none) self.requests) =
            eraseKey SocketRequest.number request.number self.requests :=
        eraseKey_updateKey (SocketRequest.setTimer none) (fun _ => rfl) _
      unfold removeRequest removeTimer setTimer
      simp only [hlist]
    have hunlist' : ((self.setTimer request.number none).removeTimer timer.number).unlist
        (request.setTimer none) = (self.removeTimer timer.number).unlist request := by
      unfold OsThread.unlist
      rw [show (request.setTimer none).number = request.number from rfl, herase]
      rfl
    have hmoved := moved_removeTimer h.timed.numbers htimer hsocket
    rw [hunlist'] at hunlist
    rw [show (request.setTimer none).number = request.number from rfl, herase] at hunlist hscheduled
    refine ⟨_, ?_, hscheduled, ⟨rfl, rfl, rfl, rfl, rfl, Nat.le_refl _, hmoved.old, hmoved.kept⟩,
      rfl, rfl, rfl, hpending⟩
    unfold dropTimer
    simp only
    rw [destroyTimer_timeout h.timed.numbers htimer hsocket]
    exact hunlist

structure Destroyed (os next : OsThread) (request : SocketRequest) : Prop where
  scheduled : Scheduled next
  moved : Moved os next (((os.heir request).map number).toList ++ [request.number])
  requests : untimed next.requests = untimed (eraseKey number request.number os.requests)
  pending : ∀ t, next.pendingCount t +
    (if request.blocks && request.thread == t then 1 else 0) = os.pendingCount t

theorem untimed_eraseKey (n : Nat) (requests : List SocketRequest) :
    untimed (eraseKey number n requests) = eraseKey number n (untimed requests) := by
  unfold untimed eraseKey
  rw [filter_map]
  rfl

theorem destroy_eq_some_iff (h : Scheduled self) (hrequest : request ∈ self.requests) :
    self.destroy request.number clock = some next ↔
      ∃ polled, self.pollOld request clock = some polled ∧
        ((polled.dropTimer request.timerRequest).bind fun dropped => dropped.unlist request) =
          some next := by
  unfold destroy
  rw [findKey_request h hrequest]
  exact Option.bind_eq_some_iff

theorem destroyed (h : Scheduled self) (hrequest : request ∈ self.requests)
    (hdestroy : self.destroy request.number clock = some next) : Destroyed self next request := by
  obtain ⟨polled, hpoll, hremove⟩ := (destroy_eq_some_iff h hrequest).mp hdestroy
  have hprepared := prepared_pollOld h hrequest hpoll
  obtain ⟨_, hremove', hremoved⟩ := exists_removed hprepared.scheduled hprepared.mem
  obtain rfl := Option.some.inj (hremove'.symm.trans hremove)
  refine ⟨hremoved.scheduled, hprepared.moved.trans hremoved.moved, ?_, fun t => ?_⟩
  · rw [hremoved.requests, untimed_eraseKey, hprepared.requests, untimed_eraseKey]
  · rw [hremoved.pending, hprepared.pending]

/-! ## A new request -/

theorem perm_addRequest (self : OsThread) (request : SocketRequest) :
    (self.addRequest request).requests.Perm (request :: self.requests) := by
  refine perm_middle.trans (List.Perm.cons request ?_)
  exact List.Perm.of_eq takeWhile_append_dropWhile

theorem waits_addRequest (self : OsThread) (request : SocketRequest) (thread : Nat) :
    (self.addRequest request).waits thread = self.waits thread +
      if request.blocks && request.thread == thread then 1 else 0 := by
  unfold waits
  rw [(perm_addRequest self request).countP_eq, countP_cons, Nat.add_right_comm]
  rfl

theorem Scheduled.enlist (h : Scheduled self) (hnumber : request.number = self.made)
    (hnone : request.timerRequest = none) : Scheduled (self.enlist request) := by
  have htimed := h.timed.mono (Nat.le_succ self.made)
  have hlisted := h.listed.add hnumber (perm_addRequest self request)
  have hlinked : Linked (self.addRequest request).requests self.timerRequestList :=
    h.linked.add hnone fun r => by rw [(perm_addRequest self request).mem_iff, mem_cons]
  have hwaits := self.waits_addRequest request
  unfold OsThread.enlist
  split
  · next hblocks =>
    refine ⟨htimed, hlisted, hlinked, fun thread => ?_⟩
    refine Eq.trans ?_ (hwaits thread).symm
    rw [hblocks, ← h.pending thread]
    show update self.pendingCount request.thread (self.pendingCount request.thread + 1) thread = _
    by_cases heq : thread = request.thread
    · simp [heq]
    · simp [heq, Ne.symm heq]
  · next hblocks =>
    refine ⟨htimed, hlisted, hlinked, fun thread => ?_⟩
    refine Eq.trans ?_ (hwaits thread).symm
    rw [eq_false_of_ne_true hblocks]
    exact h.pending thread

theorem mem_enlist (self : OsThread) (request : SocketRequest) :
    request ∈ (self.enlist request).requests := by
  have hmem := (perm_addRequest self request).mem_iff.mpr mem_cons_self
  unfold enlist
  split <;> exact hmem

theorem pollNew_cases {first : Option SocketRequest}
    (h : self.pollNew request first clock = some next) :
    PollOnly self next ∨
      ∃ added, PollOnly self added ∧ added.timer request.number clock = some next := by
  unfold pollNew at h
  simp only at h
  split at h
  · obtain ⟨added, hadd, htimer⟩ := Option.bind_eq_some_iff.mp h
    exact .inr ⟨added, (pollOnly_setReqevents ..).trans (pollOnly_pollsetAdd hadd), htimer⟩
  · split at h
    · obtain ⟨added, hadd, htimer⟩ := Option.bind_eq_some_iff.mp h
      obtain ⟨removed, hremove, hadd⟩ := Option.bind_eq_some_iff.mp hadd
      have hremoved := pollOnly_pollsetRemove hremove
      exact .inr ⟨added,
        hremoved.trans ((pollOnly_setReqevents ..).trans (pollOnly_pollsetAdd hadd)), htimer⟩
    · exact .inl (Option.some.inj h ▸ .refl _)

theorem scheduled_newRequest (h : Scheduled self) {type : RequestType} {msecs : Nat}
    {inputEvent outputEvent : Option Nat} {r : OsThread × Option Nat}
    (hr : self.newRequest thread type socket msecs inputEvent outputEvent clock = some r) :
    Scheduled r.1 := by
  unfold newRequest at hr
  simp only at hr
  split at hr
  · exact Option.some.inj hr ▸ h
  · obtain ⟨polled, hpoll, rfl⟩ := Option.map_eq_some_iff.mp hr
    have henlist := @Scheduled.enlist _
      ⟨self.made, thread, type, socket, inputEvent, outputEvent, msecs, none⟩ h rfl rfl
    rcases pollNew_cases hpoll with hpoll | ⟨added, hadd, htimer⟩
    · exact hpoll.scheduled henlist
    · have hadded := hadd.scheduled henlist
      obtain ⟨_, _, rfl⟩ := hadd
      obtain ⟨timed, htimed, hscheduled⟩ := scheduled_timer hadded (mem_enlist self _) clock
      obtain rfl := Option.some.inj (htimed.symm.trans htimer)
      exact hscheduled

/-! ## Steps -/

theorem kept_scheduled : Kept Scheduled where
  congr := by
    rintro self next h ⟨_, _, _, _, rfl⟩
    exact h.congr rfl rfl rfl rfl rfl rfl
  wakeup := fun thread time event h => h.wakeup thread time event
  destroyTimer := by
    intro self next timer h htimer hnone hdestroy
    obtain ⟨pendingCount, hdestroy', hscheduled⟩ := h.destroyTimer htimer hnone
    obtain rfl := Option.some.inj (hdestroy'.symm.trans hdestroy)
    exact hscheduled
  expire := by
    intro self next timer n h htimer hsocket hdestroy
    have hdestroy' := @destroyTimer_timeout (self.setTimer n none) n timer h.timed.numbers htimer
      hsocket
    obtain rfl := Option.some.inj (hdestroy'.symm.trans hdestroy)
    exact h.loosen htimer hsocket
  timer := by
    intro self next n clock h htimer
    cases hfind : findKey number n self.requests with
    | none =>
      unfold OsThread.timer at htimer
      rw [hfind] at htimer
      cases htimer
    | some request =>
      obtain ⟨hrequest, rfl⟩ := mem_of_findKey hfind
      obtain ⟨timed, htimed, hscheduled⟩ := scheduled_timer h hrequest clock
      obtain rfl := Option.some.inj (htimed.symm.trans htimer)
      exact hscheduled
  newRequest := fun h _ hr => scheduled_newRequest h hr
  clearPoll := fun h hclear => (pollOnly_clearPoll hclear).scheduled h
  destroy := by
    intro self next n clock h hdestroy
    cases hfind : findKey number n self.requests with
    | none =>
      unfold OsThread.destroy at hdestroy
      rw [hfind] at hdestroy
      cases hdestroy
    | some request =>
      obtain ⟨hrequest, rfl⟩ := mem_of_findKey hfind
      exact (destroyed h hrequest hdestroy).scheduled

/-- In every run the timers are sorted and counted, each timeout is that of one request, and a
threadlet waits for as many timers and requests as are there for it. -/
theorem scheduled_run {events : List Event} (hrun : run step {} events = some self)
    (hlegal : Along step Legal {} events) : Scheduled self := by
  refine run_invariant (fun os event next h hok hnext => ?_) scheduled_new hlegal hrun
  exact kept_scheduled.step (fun _ _ _ _ h => h.congr rfl rfl rfl rfl rfl rfl) h hok hnext

/-- The second of three requests on a socket is destroyed, and the first one times out. -/
def timedReads : List Event :=
  [.input false 1 7 1 none 0, .input false 2 7 1 none 0, .input false 3 7 1 none 0, .purge 2 0,
    .expireAll 1000, .expireNext 1000]

theorem scheduled_run_sample : ∃ os, run step {} timedReads = some os ∧ Scheduled os :=
  ⟨_, rfl, @scheduled_run _ timedReads rfl (by decide)⟩

end OsThread

end OpenAmq
