import Mathlib
import OpenAmq.Smt.Polled

/-!
# Expiry

`expire_all` fetches the next timer before it acts on the one that is due. What it does about that
one may destroy the other.

* `OsThread.Spares` — the timer that is fetched next is left alone
* `Expired` — what is done about a timer that is due
* `OnTheWay` — the timers that `expire_all` has still to act on
* `timers_run`, `timers_run_sample`, `fetched_timer_destroyed` — over any run
-/

namespace OpenAmq

open Lib List Option

/-- The timer comes first in the list. -/
def TimerRequest.Precedes (timer other : TimerRequest) : Prop :=
  timer.time < other.time ∨ timer.time = other.time ∧ timer.Earlier other

namespace OsThread

/-- The number of the request that gets a new timeout when a timer expires -/
def heirOf (self : OsThread) (timer : TimerRequest) : Option Nat :=
  timer.socketRequest.bind fun n =>
    (findKey SocketRequest.number n self.requests).bind fun request =>
      (self.heir request).map SocketRequest.number

/-- The next timer is not one that is replaced. -/
def Spares (self : OsThread) (timer : TimerRequest) : Prop :=
  ∀ other ∈ nextKey TimerRequest.number timer.number self.timerRequestList,
    other.socketRequest = none ∨ other.socketRequest ≠ self.heirOf timer

/-- The threadlet that waits for a timer, or for the request whose timeout it is -/
def waiter (self : OsThread) (timer : TimerRequest) : Option Nat :=
  match timer.socketRequest with
  | none => if timer.event.isNone then some timer.thread else none
  | some n =>
    (findKey SocketRequest.number n self.requests).bind fun request =>
      if request.blocks then some request.thread else none

/-- A threadlet that waits for nothing else does not monitor a socket. -/
def CanWake (self : OsThread) (timer : TimerRequest) : Prop :=
  ∀ thread ∈ self.waiter timer, self.pendingCount thread = 1 → self.monitor thread = none

/-- What is done about a timer that is due does no harm. -/
def Harmless (self : OsThread) : Event → Prop
  | .expireNext _ => ∀ timer ∈ self.dueTimer, self.Spares timer ∧ self.CanWake timer
  | _ => True

instance (self : OsThread) (timer : TimerRequest) : Decidable (self.Spares timer) := by
  unfold Spares
  infer_instance

instance (self : OsThread) (timer : TimerRequest) : Decidable (self.CanWake timer) := by
  unfold CanWake
  infer_instance

instance (self : OsThread) (event : Event) : Decidable (self.Harmless event) := by
  induction event using Event.casesOn <;> unfold Harmless <;> infer_instance

variable {self next : OsThread} {thread n : Nat} {request : SocketRequest}
  {timer other : TimerRequest} {clock : Int}

/-! ## A timer that is due -/

/-- What is done about a timer that is due -/
structure Expired (os next : OsThread) (timer : TimerRequest) : Prop where
  polling : Polling next
  walk : next.walk = os.walk
  acted : next.acted = os.acted
  made : os.made ≤ next.made
  old : ∀ t ∈ next.timerRequestList,
    t ∈ os.timerRequestList ∧ t.number ≠ timer.number ∨ os.made ≤ t.number
  kept : ∀ t ∈ os.timerRequestList, t.number ≠ timer.number →
    (t.socketRequest = none ∨ t.socketRequest ≠ os.heirOf timer) → t ∈ next.timerRequestList
  idle : next.activated = os.activated ∨
    ∃ thread, next.activated = os.activated ++ [thread] ∧ next.pendingCount thread = 0
  activated : timer.blocks → next.activated =
    os.activated ++ if os.pendingCount timer.thread = 1 then [timer.thread] else []

theorem activateIdle_eq (h : self.pendingCount thread = 0 → self.monitor thread = none) :
    self.activateIdle thread = some { self with
      activated := self.activated ++ if self.pendingCount thread = 0 then [thread] else [] } := by
  unfold activateIdle
  split
  · next hzero => simp [activate, h hzero]
  · simp

theorem exists_expire_of_none (h : Polling self) (htimer : timer ∈ self.timerRequestList)
    (hnone : timer.socketRequest = none) (hwake : self.CanWake timer) :
    ∃ next, self.expire timer clock = some next ∧ Expired self next timer := by
  obtain ⟨pendingCount, hdestroy, hscheduled⟩ := h.scheduled.destroyTimer htimer hnone
  have hpolling : Polling { self.removeTimer timer.number with pendingCount } :=
    h.congr hscheduled rfl rfl rfl
  have hold : ∀ t ∈ eraseKey TimerRequest.number timer.number self.timerRequestList,
      t ∈ self.timerRequestList ∧ t.number ≠ timer.number ∨ self.made ≤ t.number :=
    fun t ht => .inl (mem_eraseKey.mp ht)
  have hkept : ∀ t ∈ self.timerRequestList, t.number ≠ timer.number →
      (t.socketRequest = none ∨ t.socketRequest ≠ self.heirOf timer) →
        t ∈ eraseKey TimerRequest.number timer.number self.timerRequestList :=
    fun t ht hne _ => mem_eraseKey.mpr ⟨ht, hne⟩
  have hpending : pendingCount timer.thread + (if timer.event.isNone then 1 else 0) =
      self.pendingCount timer.thread := by
    have hwaits := waits_removeTimer h.scheduled.timed.numbers htimer timer.thread
    rw [← h.scheduled.pending] at hwaits
    have hcount : pendingCount timer.thread = (self.removeTimer timer.number).waits timer.thread :=
      hscheduled.pending timer.thread
    rw [← hwaits, hcount]
    simp [TimerRequest.blocks, hnone]
  unfold expire
  rw [hnone]
  rw [hdestroy, bind_some]
  cases hevent : timer.event with
  | some event =>
    refine ⟨_, rfl, kept_polling.congr hpolling ⟨_, _, _, _, rfl⟩, rfl, rfl, Nat.le_refl _, hold,
      hkept, .inl rfl, fun hblocks => ?_⟩
    simp [TimerRequest.blocks, hevent] at hblocks
  | none =>
    rw [hevent] at hpending
    have hwaiter : timer.thread ∈ self.waiter timer := by simp [waiter, hnone, hevent]
    have hmonitor : pendingCount timer.thread = 0 → self.monitor timer.thread = none := by
      intro hzero
      refine hwake timer.thread hwaiter ?_
      rw [← hpending, hzero]
      rfl
    have hidle := @activateIdle_eq { self.removeTimer timer.number with pendingCount } timer.thread
      hmonitor
    refine ⟨_, hidle, kept_polling.congr hpolling ⟨_, _, _, _, rfl⟩, rfl, rfl, Nat.le_refl _, hold,
      hkept, ?_, fun _ => ?_⟩
    · show self.activated ++ (if pendingCount timer.thread = 0 then [timer.thread] else []) = _ ∨
        ∃ thread, self.activated ++ (if pendingCount timer.thread = 0 then [timer.thread] else []) =
          self.activated ++ [thread] ∧ pendingCount thread = 0
      split
      · next hzero => exact .inr ⟨_, rfl, hzero⟩
      · exact .inl (append_nil _)
    · show self.activated ++ (if pendingCount timer.thread = 0 then [timer.thread] else []) = _
      rw [← hpending]
      simp

theorem blocks_of_replyEvent (hmonitor : request.type ≠ .monitor)
    (hnone : request.replyEvent = none) : request.blocks := by
  unfold SocketRequest.replyEvent at hnone
  rcases SocketRequest.isInput_or_isOutput hmonitor with hinput | houtput
  · rw [if_pos hinput] at hnone
    simp [SocketRequest.blocks, hinput, hnone]
  · have hinput : request.isInput = false := by
      by_contra hi
      simp [SocketRequest.not_isOutput_of_isInput (eq_true_of_ne_false hi)] at houtput
    simp only [hinput, houtput, Bool.false_eq_true, if_false, if_true] at hnone
    simp [SocketRequest.blocks, houtput, hnone]

/-- A request can be answered, and wakes its threadlet if it waits for nothing else. -/
theorem exists_reply (h : Polling self) (hrequest : request ∈ self.requests)
    (hwake : request.blocks → self.pendingCount request.thread = 1 →
      self.monitor request.thread = none) :
    ∃ monitor destroyed activated sent, Destroyed { self with monitor } destroyed request ∧
      self.reply request.number clock = some { destroyed with activated, sent } ∧
      Polling destroyed ∧
      (activated = self.activated ∨
        ∃ thread, activated = self.activated ++ [thread] ∧ destroyed.pendingCount thread = 0) := by
  -- the threadlet of a monitor has none when it is activated
  have hmonitor : ∃ monitor, (if request.type = .monitor then
      { self with monitor := Function.update self.monitor request.thread none } else self) =
        { self with monitor } ∧ (request.type = .monitor → monitor request.thread = none) ∧
          (request.type ≠ .monitor → monitor = self.monitor) := by
    split
    · next htype =>
      exact ⟨_, rfl, fun _ => Function.update_self .., fun hne => absurd htype hne⟩
    · next htype => exact ⟨self.monitor, rfl, fun heq => absurd heq htype, fun _ => rfl⟩
  obtain ⟨monitor, hunmonitored, hcleared, hsame⟩ := hmonitor
  have hself : Polling { self with monitor } := kept_polling.congr h ⟨_, _, _, _, rfl⟩
  obtain ⟨destroyed, hdestroy, hdestroyed, hpolling, -⟩ := hself.destroy hrequest clock
  have hactivated : destroyed.activated = self.activated := hdestroyed.moved.activated
  cases hevent : request.replyEvent with
  | some event =>
    have hreply : self.reply request.number clock =
        some { destroyed with sent := destroyed.sent ++ [(request.thread, event)] } := by
      unfold reply
      rw [findKey_request h.scheduled hrequest]
      simp only [hunmonitored, hdestroy, bind_some, hevent]
    exact ⟨monitor, destroyed, _, _, hdestroyed, hreply, hpolling, .inl hactivated⟩
  | none =>
    have hwakes : destroyed.pendingCount request.thread = 0 →
        destroyed.monitor request.thread = none := by
      intro hzero
      have hkept : destroyed.monitor = monitor := hdestroyed.moved.monitor
      rw [hkept]
      by_cases htype : request.type = .monitor
      · exact hcleared htype
      · rw [hsame htype]
        have hblocks := blocks_of_replyEvent htype hevent
        refine hwake hblocks ?_
        have hpending := hdestroyed.pending request.thread
        rw [hzero, hblocks] at hpending
        simpa using hpending.symm
    have hreply : self.reply request.number clock = destroyed.activateIdle request.thread := by
      unfold reply
      rw [findKey_request h.scheduled hrequest]
      simp only [hunmonitored, hdestroy, bind_some, hevent]
    refine ⟨monitor, destroyed, _, _, hdestroyed, hreply.trans (activateIdle_eq hwakes), hpolling,
      ?_⟩
    rw [hactivated]
    split
    · next hzero => exact .inr ⟨_, rfl, hzero⟩
    · exact .inl (append_nil _)

theorem exists_expire_of_some (h : Polling self) (htimer : timer ∈ self.timerRequestList)
    (hsocket : timer.socketRequest = some n) (hwake : self.CanWake timer) :
    ∃ next, self.expire timer clock = some next ∧ Expired self next timer := by
  obtain ⟨request, hrequest, rfl, htied⟩ := h.scheduled.linked.requestOf timer htimer n hsocket
  have hdestroy := @destroyTimer_timeout (self.setTimer request.number none) request.number timer
    h.scheduled.timed.numbers htimer hsocket
  have hpolling := kept_polling.expire h htimer hsocket hdestroy
  have hmem : request.setTimer none ∈
      ((self.setTimer request.number none).removeTimer timer.number).requests :=
    mem_updateKey.mpr (.inl ⟨request, hrequest, rfl, rfl⟩)
  have hfind := findKey_request h.scheduled hrequest
  have hheir : self.heirOf timer =
      (((self.setTimer request.number none).removeTimer timer.number).heir
        (request.setTimer none)).map SocketRequest.number := by
    unfold heirOf
    rw [hsocket, bind_some, hfind, bind_some]
    exact (heir_untimed (untimed_updateKey ..) rfl).symm
  obtain ⟨monitor, destroyed, activated, sent, hdestroyed, hreply, hdone, hidle⟩ :=
    @exists_reply _ _ clock hpolling hmem fun hblocks hone => by
      have hwaiter : request.thread ∈ self.waiter timer := by
        have hblocks' : request.blocks := hblocks
        simp [waiter, hsocket, hfind, hblocks']
      exact hwake request.thread hwaiter hone
  refine ⟨{ destroyed with activated, sent }, ?_, ?_⟩
  · unfold expire
    rw [hsocket]
    simp only
    rw [hdestroy, bind_some]
    exact hreply
  refine ⟨kept_polling.congr hdone ⟨_, _, _, _, rfl⟩, hdestroyed.moved.walk, hdestroyed.moved.acted,
    hdestroyed.moved.made, fun t ht => ?_, fun t ht hne hspared => ?_, hidle, fun hblocks => ?_⟩
  · rcases hdestroyed.moved.old t ht with ht | hnew
    · exact .inl (mem_eraseKey.mp ht)
    · exact .inr hnew
  · refine hdestroyed.moved.kept t (mem_eraseKey.mpr ⟨ht, hne⟩) fun m hm hsame => ?_
    rcases mem_append.mp hm with hm | hm
    · -- the timer of the successor
      rw [hsame] at hspared
      rcases hspared with hnone | hother
      · cases hnone
      · rw [hheir] at hother
        exact hother (mem_toList.mp hm).symm
    · -- the request has one timer
      have heq : m = request.number := mem_singleton.mp hm
      obtain ⟨r, hr, hnumber, htied'⟩ := h.scheduled.linked.requestOf t ht m hsame
      rw [inj_on_of_nodup_map h.scheduled.listed.numbers hr hrequest (hnumber.trans heq),
        htied] at htied'
      exact hne (some.inj htied').symm
  · rw [not_blocks_of_socketRequest hsocket] at hblocks
    cases hblocks

theorem exists_expire (h : Polling self) (htimer : timer ∈ self.timerRequestList)
    (hwake : self.CanWake timer) (clock : Int) :
    ∃ next, self.expire timer clock = some next ∧ Expired self next timer := by
  cases hsocket : timer.socketRequest with
  | none => exact exists_expire_of_none h htimer hsocket hwake
  | some n => exact exists_expire_of_some h htimer hsocket hwake

/-! ## Timers that have been acted on -/

/-- No timer is acted on twice or before it is due. -/
structure Acts (os : OsThread) : Prop where
  nodup : (os.acted.map fun a => a.1.number).Nodup
  due : ∀ a ∈ os.acted, a.1.time ≤ a.2
  number_lt : ∀ a ∈ os.acted, a.1.number < os.made
  gone : ∀ a ∈ os.acted, ∀ t ∈ os.timerRequestList, t.number ≠ a.1.number

/-- Timers may have been made or destroyed, and none has been acted on. -/
structure Grown (os next : OsThread) : Prop where
  walk : next.walk = os.walk
  acted : next.acted = os.acted
  made : os.made ≤ next.made
  old : ∀ t ∈ next.timerRequestList, t ∈ os.timerRequestList ∨ os.made ≤ t.number

theorem Grown.refl (self : OsThread) : Grown self self :=
  ⟨rfl, rfl, Nat.le_refl _, fun _ ht => .inl ht⟩

theorem Grown.trans {last : OsThread} (h : Grown self next) (h' : Grown next last) :
    Grown self last := by
  refine ⟨h'.walk.trans h.walk, h'.acted.trans h.acted, h.made.trans h'.made, fun t ht => ?_⟩
  rcases h'.old t ht with ht | hnew
  · exact h.old t ht
  · exact .inr (h.made.trans hnew)

theorem Moved.grown {requests : List Nat} (h : Moved self next requests) : Grown self next :=
  ⟨h.walk, h.acted, h.made, h.old⟩

theorem Acts.grown (h : Acts self) (hgrown : Grown self next) : Acts next := by
  refine ⟨hgrown.acted ▸ h.nodup, hgrown.acted ▸ h.due, fun a ha => ?_, fun a ha t ht => ?_⟩
  · exact (h.number_lt a (hgrown.acted ▸ ha)).trans_le hgrown.made
  · rw [hgrown.acted] at ha
    rcases hgrown.old t ht with ht | hnew
    · exact h.gone a ha t ht
    · have hlt := h.number_lt a ha
      omega

theorem grown_removeTimer (self : OsThread) (n : Nat) : Grown self (self.removeTimer n) :=
  ⟨rfl, rfl, Nat.le_refl _, fun _ ht => .inl (mem_eraseKey.mp ht).1⟩

theorem grown_enlist (self : OsThread) (request : SocketRequest) :
    Grown self (self.enlist request) := by
  unfold enlist
  split <;> exact ⟨rfl, rfl, Nat.le_succ _, fun _ ht => .inl ht⟩

theorem grown_timer (h : Scheduled self) (htimer : self.timer n clock = some next) :
    Grown self next := by
  obtain ⟨request, hrequest, rfl⟩ := exists_of_timer htimer
  rw [timer_eq h hrequest] at htimer
  cases htimer
  split
  · exact .refl self
  · exact (moved_retimed h hrequest _).grown

theorem grown_pollNew {first : Option SocketRequest} (h : Scheduled self)
    (hpoll : self.pollNew request first clock = some next) : Grown self next := by
  rcases pollNew_cases hpoll with hpoll | ⟨added, hadd, htimer⟩
  · exact hpoll.moved.grown
  · exact hadd.moved.grown.trans (grown_timer (hadd.scheduled h) htimer)

theorem kept_grown (base : OsThread) : Kept fun os => Scheduled os ∧ Grown base os where
  congr := by
    rintro self next ⟨h, hgrown⟩ hsame
    refine ⟨kept_scheduled.congr h hsame, hgrown.trans ?_⟩
    obtain ⟨_, _, _, _, rfl⟩ := hsame
    exact ⟨rfl, rfl, Nat.le_refl _, fun _ ht => .inl ht⟩
  wakeup := by
    rintro self thread time event ⟨h, hgrown⟩
    refine ⟨h.wakeup thread time event, hgrown.trans ?_⟩
    refine Grown.trans (moved_newTimer self thread time event none).grown ?_
    cases event <;> exact ⟨rfl, rfl, Nat.le_refl _, fun _ ht => .inl ht⟩
  destroyTimer := by
    rintro self next timer ⟨h, hgrown⟩ htimer hnone hdestroy
    refine ⟨kept_scheduled.destroyTimer h htimer hnone hdestroy, hgrown.trans ?_⟩
    obtain ⟨pendingCount, hdestroy', -⟩ := h.destroyTimer htimer hnone
    obtain rfl := some.inj (hdestroy'.symm.trans hdestroy)
    refine (self.grown_removeTimer timer.number).trans ?_
    exact ⟨rfl, rfl, Nat.le_refl _, fun _ ht => .inl ht⟩
  expire := by
    rintro self next timer n ⟨h, hgrown⟩ htimer hsocket hdestroy
    refine ⟨kept_scheduled.expire h htimer hsocket hdestroy, hgrown.trans ?_⟩
    have hdestroy' := @destroyTimer_timeout (self.setTimer n none) n timer h.timed.numbers htimer
      hsocket
    obtain rfl := some.inj (hdestroy'.symm.trans hdestroy)
    exact (moved_setTimer self n none).grown.trans (grown_removeTimer ..)
  timer := by
    rintro self next n clock ⟨h, hgrown⟩ htimer
    exact ⟨kept_scheduled.timer h htimer, hgrown.trans (grown_timer h htimer)⟩
  newRequest := by
    rintro self r thread type socket msecs inputEvent outputEvent clock ⟨h, hgrown⟩ htakes hr
    refine ⟨kept_scheduled.newRequest h htakes hr, hgrown.trans ?_⟩
    unfold newRequest at hr
    simp only at hr
    split at hr
    · exact some.inj hr ▸ .refl self
    · obtain ⟨polled, hpoll, rfl⟩ := map_eq_some_iff.mp hr
      have henlist := @Scheduled.enlist _
        ⟨self.made, thread, type, socket, inputEvent, outputEvent, msecs, none⟩ h rfl rfl
      exact (self.grown_enlist _).trans (grown_pollNew henlist hpoll)
  clearPoll := by
    rintro self next socket ⟨h, hgrown⟩ hclear
    exact ⟨kept_scheduled.clearPoll h hclear, hgrown.trans (pollOnly_clearPoll hclear).moved.grown⟩
  destroy := by
    rintro self next n clock ⟨h, hgrown⟩ hdestroy
    obtain ⟨request, hrequest, rfl⟩ := exists_of_destroy hdestroy
    have hdestroyed := destroyed h hrequest hdestroy
    exact ⟨hdestroyed.scheduled, hgrown.trans hdestroyed.moved.grown⟩

/-- Outside a walk, timers are made and destroyed, and none is acted on. -/
theorem grown_step (h : Scheduled self) {event : Event} (hevent : event.walks = false)
    (hlegal : self.Legal event) (hnext : self.step event = some next) : Grown self next := by
  have hkept := (kept_grown self).step (fun hwalks => ?_) ⟨h, .refl self⟩ hlegal hnext
  · exact hkept.2
  · rw [hevent] at hwalks
    cases hwalks

/-! ## The walk -/

/-- The timers that `expire_all` has still to act on are the one that it has fetched and those
behind it. -/
structure OnTheWay (os : OsThread) (walk : Walk) : Prop where
  since_le : walk.since ≤ os.made
  fetched : ∀ n, walk.request = some n → ∃ timer ∈ os.timerRequestList, timer.number = n ∧
    ∀ t ∈ os.timerRequestList, t.number < walk.since → t = timer ∨ timer.Precedes t
  finished : walk.request = none →
    ∀ t ∈ os.timerRequestList, t.number < walk.since → walk.timeNow < t.time

structure Timing (os : OsThread) : Prop where
  polling : Polling os
  acts : Acts os
  way : ∀ walk, os.walk = some walk → OnTheWay os walk

theorem timing_new : Timing {} := by
  refine ⟨polling_new, ⟨nodup_nil, ?_, ?_, ?_⟩, ?_⟩
  · intro a ha
    cases ha
  · intro a ha
    cases ha
  · intro a ha
    cases ha
  · intro walk hwalk
    cases hwalk

theorem timing_expireAll (h : Timing self) (timeNow : Int) : Timing (self.expireAll timeNow) := by
  refine ⟨h.polling.congr (h.polling.scheduled.congr rfl rfl rfl rfl rfl rfl) rfl rfl rfl,
    ⟨h.acts.nodup, h.acts.due, h.acts.number_lt, h.acts.gone⟩, fun walk hwalk => ?_⟩
  cases hwalk
  refine ⟨Nat.le_refl _, fun n hn => ?_, fun hnone t ht => ?_⟩
  · obtain ⟨timer, hhead, rfl⟩ := map_eq_some_iff.mp hn
    refine ⟨timer, mem_of_mem_head? hhead, rfl, fun t ht _ => ?_⟩
    obtain ⟨rest, hlist⟩ := head?_eq_some_iff.mp hhead
    have hsorted := h.polling.scheduled.timed.sorted
    rw [hlist] at hsorted
    rcases mem_cons.mp (hlist ▸ ht) with rfl | ht
    · exact .inl rfl
    · exact .inr (hsorted.head_le ht)
  · have hnil := head?_eq_none_iff.mp (map_eq_none_iff.mp hnone)
    have hmem : t ∈ self.timerRequestList := ht
    rw [hnil] at hmem
    cases hmem

theorem not_precedes_of_precedes (h : timer.Precedes other) : ¬other.Precedes timer := by
  unfold TimerRequest.Precedes TimerRequest.Earlier at *
  omega

theorem mem_rest {front rest : List TimerRequest} (h : Scheduled self)
    (hlist : self.timerRequestList = front ++ timer :: rest) (hmem : other ∈ self.timerRequestList)
    (hprecedes : timer.Precedes other) : other ∈ rest := by
  have hsorted := h.timed.sorted
  rw [hlist] at hsorted hmem
  have hcross := (pairwise_append.mp hsorted).2.2
  rcases mem_append.mp hmem with hmem | hmem
  · exact absurd (hcross other hmem timer mem_cons_self) (not_precedes_of_precedes hprecedes)
  · rcases mem_cons.mp hmem with rfl | hmem
    · exact absurd hprecedes (not_precedes_of_precedes hprecedes)
    · exact hmem

theorem Acts.expired (h : Acts self) (hexpired : Expired self next timer)
    (hself : Scheduled self) (htimer : timer ∈ self.timerRequestList) {timeNow : Int}
    (hdue : timer.time ≤ timeNow) (walk : Option Walk) :
    Acts { next with walk, acted := next.acted ++ [(timer, timeNow)] } := by
  have hlt := hself.timed.number_lt timer htimer
  have hmem : ∀ a ∈ next.acted ++ [(timer, timeNow)], a ∈ self.acted ∨ a = (timer, timeNow) := by
    intro a ha
    rwa [hexpired.acted, mem_append, mem_singleton] at ha
  refine ⟨?_, fun a ha => ?_, fun a ha => ?_, fun a ha t ht => ?_⟩
  · show ((next.acted ++ [(timer, timeNow)]).map fun a => a.1.number).Nodup
    rw [hexpired.acted, map_append, nodup_append]
    refine ⟨h.nodup, nodup_singleton _, fun n hn m hm => ?_⟩
    obtain ⟨a, ha, rfl⟩ := mem_map.mp hn
    obtain rfl := mem_singleton.mp hm
    exact (h.gone a ha timer htimer).symm
  · rcases hmem a ha with ha | rfl
    · exact h.due a ha
    · exact hdue
  · rcases hmem a ha with ha | rfl
    · exact (h.number_lt a ha).trans_le hexpired.made
    · exact hlt.trans_le hexpired.made
  · rcases hmem a ha with ha | rfl
    · rcases hexpired.old t ht with ⟨ht, -⟩ | hnew
      · exact h.gone a ha t ht
      · have hlt := h.number_lt a ha
        omega
    · rcases hexpired.old t ht with ⟨-, hne⟩ | hnew
      · exact hne
      · show t.number ≠ timer.number
        omega

theorem OnTheWay.expired {walk : Walk} (h : OnTheWay self walk) (hself : Scheduled self)
    (hexpired : Expired self next timer) (htimer : timer ∈ self.timerRequestList)
    (hnumber : walk.request = some timer.number) (hspares : self.Spares timer) :
    ∀ acted, OnTheWay { next with
        walk := some { walk with
          request := (nextKey TimerRequest.number timer.number self.timerRequestList).map
            TimerRequest.number },
        acted }
      { walk with
        request := (nextKey TimerRequest.number timer.number self.timerRequestList).map
          TimerRequest.number } := by
  intro acted
  obtain ⟨front, rest, hlist, -, hrest, hnext⟩ := exists_split hself.timed.numbers htimer
  obtain ⟨fetched, hmem, hsame, hbehind⟩ := h.fetched _ hnumber
  obtain rfl := inj_on_of_nodup_map hself.timed.numbers hmem htimer hsame
  -- the old timers that are left are behind the one that has been acted on
  have hleft : ∀ t ∈ next.timerRequestList, t.number < walk.since → t ∈ rest := by
    intro t ht hlt
    have hsince := h.since_le
    rcases hexpired.old t ht with ⟨ht, hne⟩ | hnew
    · rcases hbehind t ht hlt with rfl | hprecedes
      · exact absurd rfl hne
      · exact mem_rest hself hlist ht hprecedes
    · omega
  refine ⟨h.since_le.trans hexpired.made, fun n hn => ?_, fun hnone t ht hlt => ?_⟩
  · obtain ⟨other, hother, rfl⟩ := map_eq_some_iff.mp hn
    have hspared := hspares other hother
    rw [hnext] at hother
    obtain ⟨rest', rfl⟩ := head?_eq_some_iff.mp hother
    have hmem' : other ∈ self.timerRequestList := by simp [hlist]
    refine ⟨other, hexpired.kept other hmem' (hrest other mem_cons_self) hspared, rfl,
      fun t ht hlt => ?_⟩
    have hsorted := hself.timed.sorted
    rw [hlist] at hsorted
    have htail := (pairwise_cons.mp (pairwise_append.mp hsorted).2.1).2
    rcases mem_cons.mp (hleft t ht hlt) with rfl | ht
    · exact .inl rfl
    · exact .inr ((pairwise_cons.mp htail).1 t ht)
  · have hnil := map_eq_none_iff.mp hnone
    rw [hnext] at hnil
    have hmem' := hleft t ht hlt
    rw [head?_eq_none_iff.mp hnil] at hmem'
    cases hmem'

/-- The walk acts on the timer that is due, or comes to its end. -/
theorem exists_expireNext (h : Timing self) (hharmless : self.Harmless (.expireNext clock)) :
    ∃ next, self.expireNext clock = some next ∧ Timing next ∧
      (next.activated = self.activated ∨ ∃ thread,
        next.activated = self.activated ++ [thread] ∧ next.pendingCount thread = 0) ∧
      ∀ timer ∈ self.dueTimer, ∀ walk, self.walk = some walk →
        next.acted = self.acted ++ [(timer, walk.timeNow)] ∧
        (timer.blocks → next.activated = self.activated ++
          if self.pendingCount timer.thread = 1 then [timer.thread] else []) := by
  have hpolling (walk : Option Walk) : Polling { self with walk } :=
    h.polling.congr (h.polling.scheduled.congr rfl rfl rfl rfl rfl rfl) rfl rfl rfl
  have hacts (walk : Option Walk) : Acts { self with walk } :=
    ⟨h.acts.nodup, h.acts.due, h.acts.number_lt, h.acts.gone⟩
  unfold expireNext
  cases hwalk : self.walk with
  | none =>
    refine ⟨_, rfl, h, .inl rfl, fun timer htimer => ?_⟩
    simp [dueTimer, hwalk] at htimer
  | some walk =>
    have hway := h.way walk hwalk
    cases hrequest : walk.request with
    | none =>
      refine ⟨_, by simp only [hrequest], ⟨hpolling none, hacts none, fun w hw => by cases hw⟩,
        .inl rfl, ?_⟩
      intro timer htimer
      simp [dueTimer, hwalk, hrequest] at htimer
    | some n =>
      obtain ⟨timer, htimer, rfl, hbehind⟩ := hway.fetched n hrequest
      have hfind := findKey_timer h.polling.scheduled.timed.numbers htimer
      by_cases hdue : timer.time ≤ walk.timeNow
      · have hdueTimer : self.dueTimer = some timer := by
          simp [dueTimer, hwalk, hrequest, hfind, hdue]
        obtain ⟨hspares, hwake⟩ := hharmless timer hdueTimer
        obtain ⟨expired, hexpire, hexpired⟩ := exists_expire h.polling htimer hwake clock
        refine ⟨_, by simp only [hrequest, hfind, hdue, if_true, hexpire, map_some]; rfl,
          ⟨?_, h.acts.expired hexpired h.polling.scheduled htimer hdue _, ?_⟩, hexpired.idle, ?_⟩
        · exact hexpired.polling.congr
            (hexpired.polling.scheduled.congr rfl rfl rfl rfl rfl rfl) rfl rfl rfl
        · rintro w ⟨⟩
          exact hway.expired h.polling.scheduled hexpired htimer hrequest hspares _
        · intro t ht w hw
          obtain rfl := some.inj (hdueTimer.symm.trans ht)
          cases hw
          exact ⟨congrArg (· ++ _) hexpired.acted, hexpired.activated⟩
      · have hdueTimer : self.dueTimer = none := by
          simp [dueTimer, hwalk, hrequest, hfind, not_le.mp hdue]
        refine ⟨{ self with walk := some { walk with request := none } },
          by simp only [hrequest, hfind, hdue, if_false], ⟨hpolling _, hacts _, ?_⟩, .inl rfl, ?_⟩
        · rintro w ⟨⟩
          refine ⟨hway.since_le, (fun t ht => by cases ht), fun _ t ht hlt => ?_⟩
          rcases hbehind t ht hlt with rfl | hlt' | ⟨heq, -⟩
          · exact not_le.mp hdue
          · exact (not_le.mp hdue).trans hlt'
          · exact heq ▸ not_le.mp hdue
        · intro t ht
          rw [hdueTimer] at ht
          cases ht

/-- A harmless event acts on timers when they are due, and in their order. -/
theorem timing_step (h : Timing self) {event : Event} (hlegal : self.Legal event)
    (hharmless : self.Harmless event) (hnext : self.step event = some next) : Timing next := by
  cases hevent : event.walks with
  | true =>
    cases event with
    | expireAll timeNow =>
      cases hnext
      exact timing_expireAll h timeNow
    | expireNext clock =>
      obtain ⟨next', hnext', htiming, -⟩ := exists_expireNext h hharmless
      obtain rfl := some.inj (hnext'.symm.trans hnext)
      exact htiming
    | _ => cases hevent
  | false =>
    have hgrown := grown_step h.polling.scheduled hevent hlegal hnext
    refine ⟨polling_step h.polling hlegal hnext, h.acts.grown hgrown, fun walk hwalk => ?_⟩
    -- nothing else happens as long as `expire_all` is at work
    have hnone : self.walk = none := by
      cases event with
      | expireAll | expireNext => cases hevent
      | destroyTimer | startMonitor => exact hlegal.1
      | _ => exact hlegal
    rw [hgrown.walk, hnone] at hwalk
    cases hwalk

/-- The timers are sorted and counted, and the threadlets wait for what is there. As long as the
next timer and the sockets that are monitored have nothing to do with the one that is due, each
timer is acted on once, when it is due, none of those that were due at the call is left behind, and
a threadlet is activated by the last timer that it waits for. -/
theorem timers_run {events : List Event} {os : OsThread} (hrun : run step {} events = some os)
    (hlegal : Along step Legal {} events) (hharmless : Along step Harmless {} events) :
    (InKeyOrder TimerRequest.time TimerRequest.Earlier os.timerRequestList ∧
      os.timerRequestCount = os.timerRequestList.length) ∧
    (∀ thread, os.pendingCount thread =
      os.requests.countP (fun request => request.blocks && request.thread == thread) +
        os.timerRequestList.countP (fun request => request.blocks && request.thread == thread)) ∧
    ((os.acted.map fun a => a.1.number).Nodup ∧ ∀ a ∈ os.acted, a.1.time ≤ a.2) ∧
    (∀ walk, os.walk = some walk →
      (∀ n, walk.request = some n → ∃ timer ∈ os.timerRequestList, timer.number = n) ∧
      (walk.request = none → ∀ timer ∈ os.timerRequestList, timer.number < walk.since →
        walk.timeNow < timer.time)) ∧
    ∀ clock, os.Harmless (.expireNext clock) → ∃ next, os.expireNext clock = some next ∧
      (next.activated = os.activated ∨ ∃ thread,
        next.activated = os.activated ++ [thread] ∧ next.pendingCount thread = 0) ∧
      ∀ timer ∈ os.dueTimer, ∀ walk, os.walk = some walk →
        next.acted = os.acted ++ [(timer, walk.timeNow)] ∧
        (timer.blocks → next.activated = os.activated ++
          if os.pendingCount timer.thread = 1 then [timer.thread] else []) := by
  have h : Timing os := run_invariant
    (fun _ _ _ h hok hstep => timing_step h hok.1 hok.2 hstep) timing_new
    (along_and hlegal hharmless) hrun
  refine ⟨⟨h.polling.scheduled.timed.sorted, h.polling.scheduled.timed.count_eq⟩,
    h.polling.scheduled.pending, ⟨h.acts.nodup, h.acts.due⟩, fun walk hwalk => ⟨fun n hn => ?_,
      (h.way walk hwalk).finished⟩, fun clock hnext => ?_⟩
  · obtain ⟨timer, htimer, hnumber, -⟩ := (h.way walk hwalk).fetched n hn
    exact ⟨timer, htimer, hnumber⟩
  · obtain ⟨next, hexpire, -, hrest⟩ := exists_expireNext h hnext
    exact ⟨next, hexpire, hrest⟩

/-- A threadlet waits for two timers, and the second one activates it. -/
theorem timers_run_sample : ∃ os, run step {} [.wakeup 1 20 none, .wakeup 1 10 none,
    .expireAll 20, .expireNext 0] = some os ∧ os.timerRequestCount = 1 ∧
      ∃ next, os.expireNext 0 = some next ∧ next.activated = [1] := by
  have hrun := @timers_run [.wakeup 1 20 none, .wakeup 1 10 none, .expireAll 20, .expireNext 0] _
    rfl (by decide) (by decide)
  obtain ⟨next, hnext, -, hdue⟩ := hrun.2.2.2.2 0 (by decide)
  exact ⟨_, rfl, hrun.1.2, next, hnext, (hdue ⟨0, 1, 20, none, none⟩ rfl _ rfl).2 rfl⟩

/-- Three threadlets read from a socket, and the second one is destroyed, so that the third one gets
a timeout. When the first one times out it gets another, but the old one has been fetched. -/
theorem fetched_timer_destroyed :
    Along step Legal {} [.input false 1 7 1 none 0, .input false 2 7 1 none 0,
      .input false 3 7 1 none 0, .purge 2 0, .expireAll 1000, .expireNext 1000] ∧
    ∃ os, run step {} [.input false 1 7 1 none 0, .input false 2 7 1 none 0,
      .input false 3 7 1 none 0, .purge 2 0, .expireAll 1000, .expireNext 1000] = some os ∧
      (∃ walk, os.walk = some walk ∧ walk.request = some 4) ∧
      os.timerRequestList.map TimerRequest.number = [5] ∧ os.expireNext 1000 = none :=
  ⟨by decide, _, rfl, ⟨_, rfl, rfl⟩, rfl, rfl⟩

end OsThread

end OpenAmq
