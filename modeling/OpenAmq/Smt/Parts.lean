import OpenAmq.Smt.OsThread

/-!
# The parts of a step

A step of an OS thread makes and destroys timers and requests, one after the other. What each of
these parts keeps is kept by the step.

* `OsThread.Legal` — what the threadlets and the OS thread may do
* `OsThread.Kept` — a property that each part keeps
* `Kept.step` — is kept by each legal step
-/

namespace OpenAmq

open Lib Option List

def RequestType.Takes (type : RequestType) (inputEvent outputEvent : Option Nat) : Prop :=
  match type with
  | .accept | .read => outputEvent = none
  | .connect | .write | .close => inputEvent = none
  | .monitor => inputEvent.isSome ∨ outputEvent.isSome

namespace OsThread

/-- A threadlet destroys only its own timers and monitors a socket for input or output. As long as
`expire_all` is at work nothing else happens in the OS thread. -/
def Legal (self : OsThread) : Event → Prop
  | .destroyTimer n =>
    self.walk = none ∧
      ∀ timer ∈ self.timerRequestList, timer.number = n → timer.socketRequest = none
  | .startMonitor _ _ _ inputEvent outputEvent _ =>
    self.walk = none ∧ (inputEvent.isSome ∨ outputEvent.isSome)
  | .expireNext _ => True
  | _ => self.walk = none

instance (self : OsThread) (event : Event) : Decidable (self.Legal event) := by
  induction event using Event.casesOn <;> unfold Legal <;> infer_instance

/-- `expire_all` is called or goes on. -/
def Event.walks : Event → Bool
  | .expireAll _ | .expireNext _ => true
  | _ => false

/-- Only threadlets are told something, or a socket is closed. -/
def SameLists (self next : OsThread) : Prop :=
  ∃ monitor closed activated sent, next = { self with monitor, closed, activated, sent }

variable {self next : OsThread} {thread n socket : Nat} {clock : Int} {timer : TimerRequest}

theorem sameLists_activate (h : self.activate thread = some next) : SameLists self next := by
  unfold activate at h
  split at h
  · cases h
  · cases h
    exact ⟨_, _, _, _, rfl⟩

theorem sameLists_activateIdle (h : self.activateIdle thread = some next) :
    SameLists self next := by
  unfold activateIdle at h
  split at h
  · exact sameLists_activate h
  · cases h
    exact ⟨_, _, _, _, rfl⟩

/-- The timer that `expire_all` acts on next -/
def dueTimer (self : OsThread) : Option TimerRequest :=
  self.walk.bind fun walk =>
    (walk.request.bind fun n => findKey TimerRequest.number n self.timerRequestList).filter
      fun timer => timer.time ≤ walk.timeNow

theorem expireNext_cases (h : self.expireNext clock = some next) :
    (∃ walk, next = { self with walk }) ∨
      ∃ timer ∈ self.timerRequestList, self.dueTimer = some timer ∧
        ∃ expired walk acted, self.expire timer clock = some expired ∧
          next = { expired with walk, acted } := by
  unfold expireNext at h
  split at h
  · exact .inl ⟨_, (some.inj h).symm⟩
  · next walk hwalk =>
    split at h
    · exact .inl ⟨_, (some.inj h).symm⟩
    · next hrequest =>
      split at h
      · cases h
      · next timer hfind =>
        split at h
        · next hdue =>
          obtain ⟨expired, hexpire, rfl⟩ := map_eq_some_iff.mp h
          refine .inr ⟨timer, (mem_of_findKey hfind).1, ?_, expired, _, _, hexpire, rfl⟩
          simp [dueTimer, hwalk, hrequest, hfind, hdue]
        · exact .inl ⟨_, (some.inj h).symm⟩

theorem drain_invariant {I : OsThread → Prop} {act : OsThread → SocketRequest → Option OsThread}
    (hact : ∀ {self next request}, I self → request ∈ self.listOf socket →
      act self request = some next → I next) {fuel : Nat}
    (h : I self) (hnext : drain act socket fuel self = some next) : I next := by
  induction fuel generalizing self with
  | zero => exact some.inj hnext ▸ h
  | succ fuel ih =>
    unfold drain at hnext
    split at hnext
    · exact some.inj hnext ▸ h
    · next request hhead =>
      obtain ⟨acted, hacted, hnext⟩ := bind_eq_some_iff.mp hnext
      exact ih (hact h (mem_of_mem_head? hhead) hacted) hnext

theorem drain_empties {I : OsThread → Prop} {act : OsThread → SocketRequest → Option OsThread}
    (hact : ∀ {self next request}, I self → request ∈ self.listOf socket →
      act self request = some next → I next ∧ next.requests.length < self.requests.length)
    {fuel : Nat} (h : I self) (hfuel : self.requests.length ≤ fuel)
    (hnext : drain act socket fuel self = some next) : next.listOf socket = [] := by
  induction fuel generalizing self with
  | zero =>
    cases hnext
    unfold listOf
    rw [length_eq_zero_iff.mp (Nat.le_zero.mp hfuel)]
    rfl
  | succ fuel ih =>
    unfold drain at hnext
    split at hnext
    · next hhead =>
      cases hnext
      exact head?_eq_none_iff.mp hhead
    · next request hhead =>
      obtain ⟨acted, hacted, hnext⟩ := bind_eq_some_iff.mp hnext
      obtain ⟨hI, hlt⟩ := hact h (mem_of_mem_head? hhead) hacted
      exact ih hI (by omega) hnext

/-- Each part of a step keeps the property. -/
structure Kept (I : OsThread → Prop) : Prop where
  congr : ∀ {self next}, I self → SameLists self next → I next
  wakeup : ∀ {self} thread time event, I self → I (self.wakeup thread time event)
  destroyTimer : ∀ {self next timer}, I self → timer ∈ self.timerRequestList →
    timer.socketRequest = none → self.destroyTimer timer.number = some next → I next
  expire : ∀ {self next timer n}, I self → timer ∈ self.timerRequestList →
    timer.socketRequest = some n →
    (self.setTimer n none).destroyTimer timer.number = some next → I next
  timer : ∀ {self next n clock}, I self → self.timer n clock = some next → I next
  newRequest : ∀ {self r thread type socket msecs inputEvent outputEvent clock}, I self →
    RequestType.Takes type inputEvent outputEvent →
    self.newRequest thread type socket msecs inputEvent outputEvent clock = some r → I r.1
  clearPoll : ∀ {self next socket}, I self → self.clearPoll socket = some next → I next
  destroy : ∀ {self next n clock}, I self → self.destroy n clock = some next → I next

namespace Kept

variable {I : OsThread → Prop}

theorem activateIdle (hI : Kept I) (h : I self) (hnext : self.activateIdle thread = some next) :
    I next := hI.congr h (sameLists_activateIdle hnext)

theorem reply (hI : Kept I) (h : I self) (hnext : self.reply n clock = some next) : I next := by
  unfold OsThread.reply at hnext
  split at hnext
  · cases hnext
  · next request _ =>
    obtain ⟨destroyed, hdestroy, hnext⟩ := bind_eq_some_iff.mp hnext
    have hdestroyed : I destroyed := by
      refine hI.destroy (hI.congr h ?_) hdestroy
      split
      · exact ⟨_, _, _, _, rfl⟩
      · exact ⟨_, _, _, _, rfl⟩
    split at hnext
    · exact hI.activateIdle hdestroyed hnext
    · cases hnext
      exact hI.congr hdestroyed ⟨_, _, _, _, rfl⟩

theorem replyErrorToAll (hI : Kept I) (h : I self)
    (hnext : self.replyErrorToAll socket clock = some next) : I next := by
  obtain ⟨drained, hdrain, rfl⟩ := map_eq_some_iff.mp hnext
  have hdrained : I drained := by
    refine drain_invariant (fun {self next request} h _ hnext => ?_) h hdrain
    obtain ⟨cleared, hclear, hreply⟩ := bind_eq_some_iff.mp hnext
    exact hI.reply (hI.clearPoll h hclear) hreply
  exact hI.congr hdrained ⟨_, _, _, _, rfl⟩

theorem destroySocket (hI : Kept I) (h : I self)
    (hnext : self.destroySocket socket clock = some next) : I next := by
  refine drain_invariant (fun {self next request} h _ hnext => ?_) h hnext
  obtain ⟨destroyed, hdestroy, hidle⟩ := bind_eq_some_iff.mp hnext
  exact hI.activateIdle (hI.destroy h hdestroy) hidle

theorem closeTheSocket (hI : Kept I) (h : I self)
    (hnext : self.closeTheSocket n clock = some next) : I next := by
  unfold OsThread.closeTheSocket at hnext
  split at hnext
  · cases hnext
  · obtain ⟨replied, hreply, hnext⟩ := bind_eq_some_iff.mp hnext
    obtain ⟨closed, hclose, hnext⟩ := bind_eq_some_iff.mp hnext
    exact hI.destroySocket (hI.replyErrorToAll (hI.reply h hreply) hclose) hnext

theorem request (hI : Kept I) (type : RequestType) (h : I self) {msecs : Nat}
    {inputEvent outputEvent : Option Nat} (htakes : type.Takes inputEvent outputEvent)
    (hnext : (self.newRequest thread type socket msecs inputEvent outputEvent clock).map Prod.fst =
      some next) : I next := by
  obtain ⟨r, hr, rfl⟩ := map_eq_some_iff.mp hnext
  exact hI.newRequest h htakes hr

theorem close (hI : Kept I) (h : I self) {msecs : Nat} {event : Option Nat} {result : CloseResult}
    (hnext : self.close thread socket msecs event result clock = some next) : I next := by
  unfold OsThread.close at hnext
  split at hnext
  · exact hI.request .close h rfl hnext
  · obtain ⟨cleared, hclear, hnext⟩ := bind_eq_some_iff.mp hnext
    have hcleared := hI.clearPoll h hclear
    cases result with
    | success =>
      obtain ⟨closed, hclose, hnext⟩ := bind_eq_some_iff.mp hnext
      exact hI.destroySocket (hI.replyErrorToAll hcleared hclose) hnext
    | again => exact hI.request .close hcleared rfl hnext
    | failed => exact some.inj hnext ▸ hcleared

theorem startMonitor (hI : Kept I) (h : I self) {msecs : Nat} {inputEvent outputEvent : Option Nat}
    (htakes : inputEvent.isSome ∨ outputEvent.isSome)
    (hnext : self.startMonitor thread socket msecs inputEvent outputEvent clock = some next) :
    I next := by
  unfold OsThread.startMonitor at hnext
  split at hnext
  · exact some.inj hnext ▸ h
  · obtain ⟨r, hr, rfl⟩ := map_eq_some_iff.mp hnext
    have hmonitor : RequestType.monitor.Takes inputEvent outputEvent := htakes
    have hr := hI.newRequest h hmonitor hr
    split
    · exact hr
    · exact hI.congr hr ⟨_, _, _, _, rfl⟩

theorem stopMonitor (hI : Kept I) (h : I self) {wakes : Bool}
    (hnext : self.stopMonitor thread wakes clock = some next) : I next := by
  unfold OsThread.stopMonitor at hnext
  split at hnext
  · exact some.inj hnext ▸ h
  · obtain ⟨destroyed, hdestroy, hnext⟩ := bind_eq_some_iff.mp hnext
    have hdestroyed := hI.destroy h hdestroy
    split at hnext
    · refine hI.activateIdle ?_ hnext
      exact hI.congr hdestroyed ⟨_, _, _, _, rfl⟩
    · cases hnext
      exact hI.congr hdestroyed ⟨_, _, _, _, rfl⟩

theorem expired (hI : Kept I) (h : I self) (htimer : timer ∈ self.timerRequestList)
    (hnext : self.expire timer clock = some next) : I next := by
  unfold OsThread.expire at hnext
  cases hsocket : timer.socketRequest with
  | some n =>
    rw [hsocket] at hnext
    obtain ⟨destroyed, hdestroy, hnext⟩ := bind_eq_some_iff.mp hnext
    exact hI.reply (hI.expire h htimer hsocket hdestroy) hnext
  | none =>
    rw [hsocket] at hnext
    obtain ⟨destroyed, hdestroy, hnext⟩ := bind_eq_some_iff.mp hnext
    have hdestroyed := hI.destroyTimer h htimer hsocket hdestroy
    split at hnext
    · exact hI.activateIdle hdestroyed hnext
    · cases hnext
      exact hI.congr hdestroyed ⟨_, _, _, _, rfl⟩

theorem expireNext (hI : Kept I) (hwalk : ∀ {self} walk acted, I self → I { self with walk, acted })
    (h : I self) (hnext : self.expireNext clock = some next) : I next := by
  rcases expireNext_cases hnext with ⟨walk, rfl⟩ | ⟨timer, htimer, -, expired, _, _, hexpire, rfl⟩
  · exact hwalk walk self.acted h
  · exact hwalk _ _ (hI.expired h htimer hexpire)

/-- What the parts of a step keep is kept by a step. -/
theorem step (hI : Kept I) {event : Event}
    (hwalk : event.walks → ∀ {self} walk acted, I self → I { self with walk, acted })
    (h : I self) (hlegal : self.Legal event) (hnext : self.step event = some next) : I next := by
  cases event with
  | wakeup thread time event =>
    cases hnext
    exact hI.wakeup thread time event h
  | destroyTimer n =>
    have hdestroy : self.destroyTimer n = some next := hnext
    cases hfind : findKey TimerRequest.number n self.timerRequestList with
    | none =>
      unfold OsThread.destroyTimer at hdestroy
      rw [hfind] at hdestroy
      cases hdestroy
    | some timer =>
      obtain ⟨htimer, rfl⟩ := mem_of_findKey hfind
      exact hI.destroyTimer h htimer (hlegal.2 timer htimer rfl) hdestroy
  | expireAll timeNow =>
    cases hnext
    exact hwalk rfl _ self.acted h
  | expireNext clock => exact hI.expireNext (hwalk rfl) h hnext
  | input accept thread socket msecs event clock =>
    simp only [OsThread.step] at hnext
    split at hnext
    · exact some.inj hnext ▸ h
    · cases accept with
      | true => exact hI.request .accept h rfl hnext
      | false => exact hI.request .read h rfl hnext
  | output connect thread socket msecs event clock =>
    simp only [OsThread.step] at hnext
    split at hnext
    · exact some.inj hnext ▸ h
    · cases connect with
      | true => exact hI.request .connect h rfl hnext
      | false => exact hI.request .write h rfl hnext
  | close thread socket msecs event result clock =>
    simp only [OsThread.step] at hnext
    split at hnext
    · exact some.inj hnext ▸ h
    · exact hI.close h hnext
  | startMonitor thread socket msecs inputEvent outputEvent clock =>
    exact hI.startMonitor h hlegal.2 hnext
  | stopMonitor thread wakes clock => exact hI.stopMonitor h hnext
  | timer n clock => exact hI.timer h hnext
  | reply n clock => exact hI.reply h hnext
  | purge n clock =>
    simp only [OsThread.step] at hnext
    split at hnext
    · cases hnext
    · exact hI.destroy (hI.congr h ⟨_, _, _, _, rfl⟩) hnext
  | replyErrorToAll socket clock => exact hI.replyErrorToAll h hnext
  | closeTheSocket n clock => exact hI.closeTheSocket h hnext
  | destroySocket socket clock => exact hI.destroySocket h hnext

end Kept

end OsThread

end OpenAmq
