import Mathlib.Data.Int.Order.Basic
import Mathlib.Logic.Function.Basic
import OpenAmq.Lib.BackInsert
import OpenAmq.Lib.Keyed

/-!
# Sockets and timers

An OS thread keeps the requests of its threadlets on sockets, the timers of these and of the
threadlets, and the set of sockets to poll.

* `OsThread.newTimer`, `destroyTimer`, `wakeup`, `timer`
* `OsThread.newRequest`, `destroy`, `reply` — a socket request
* `OsThread.replyErrorToAll`, `closeTheSocket`, `destroySocket`, `close` — all requests on a socket
* `OsThread.expireAll`, `expireNext` — the timers that are due, one after the other
* `OsThread.step` — what happens in an OS thread
-/

namespace OpenAmq

open Lib Function

/-- An `smt_timer_request`. The timers of timed runs, which have no threadlet, are left out. -/
structure TimerRequest where
  /-- in order of creation -/
  number : Nat
  thread : Nat
  time : Int
  /-- `none`: the threadlet waits -/
  event : Option Nat
  /-- the number of the request whose timeout this is -/
  socketRequest : Option Nat
deriving DecidableEq

/-- `smt_socket_request_type_t` -/
inductive RequestType where
  | accept
  | read
  | connect
  | write
  | close
  | monitor
deriving DecidableEq

/-- An `smt_socket_request` -/
structure SocketRequest where
  number : Nat
  thread : Nat
  type : RequestType
  socket : Nat
  inputEvent : Option Nat
  outputEvent : Option Nat
  msecs : Nat
  /-- the number of its timer -/
  timerRequest : Option Nat := none
deriving DecidableEq

/-- The threadlet waits for the timer itself. -/
def TimerRequest.blocks (request : TimerRequest) : Bool :=
  request.event.isNone && request.socketRequest.isNone

namespace SocketRequest

/-- `REQUEST_IS_INPUT` -/
def isInput (request : SocketRequest) : Bool :=
  request.type == .read || request.type == .accept

/-- `REQUEST_IS_OUTPUT` -/
def isOutput (request : SocketRequest) : Bool :=
  request.type == .connect || request.type == .write || request.type == .close

/-- The threadlet waits for the request. -/
def blocks (request : SocketRequest) : Bool :=
  request.isInput && request.inputEvent.isNone || request.isOutput && request.outputEvent.isNone

def setTimer (timerRequest : Option Nat) (request : SocketRequest) : SocketRequest :=
  { request with timerRequest }

def replyEvent (request : SocketRequest) : Option Nat :=
  if request.isInput then request.inputEvent
  else if request.isOutput then request.outputEvent
  else none

end SocketRequest

/-- `APR_POLLIN` and `APR_POLLOUT` -/
structure PollEvents where
  pollin : Bool := false
  pollout : Bool := false
deriving DecidableEq

def PollEvents.any (events : PollEvents) : Bool := events.pollin || events.pollout

def SocketRequest.asks (request : SocketRequest) : PollEvents :=
  ⟨request.isInput || request.inputEvent.isSome, request.isOutput || request.outputEvent.isSome⟩

/-- `expire_all` at work -/
structure Walk where
  timeNow : Int
  /-- the timers with smaller numbers were there when it was called -/
  since : Nat
  /-- the number of the timer that has been fetched -/
  request : Option Nat
deriving DecidableEq

/-- An `smt_os_thread`. `none` in place of one: an assertion fails, or memory is used that has been
freed. Its counts are of 32 bits; each item that they count is allocated, and as many as it takes
for them to wrap do not fit in memory. -/
structure OsThread where
  timerRequestList : List TimerRequest := []
  timerRequestCount : Nat := 0
  /-- those of all sockets, of one socket in the order of its list -/
  requests : List SocketRequest := []
  socketRequestCount : Nat := 0
  /-- of each socket -/
  reqevents : Nat → PollEvents := fun _ => {}
  /-- the sockets in the poll set, with what they were added for -/
  pollset : Nat → Option PollEvents := fun _ => none
  /-- of each threadlet -/
  pendingCount : Nat → Nat := fun _ => 0
  /-- the request of a threadlet that monitors a socket -/
  monitor : Nat → Option Nat := fun _ => none
  /-- the sockets that have been closed -/
  closed : Nat → Bool := fun _ => false
  /-- the number of requests that have been made -/
  made : Nat := 0
  walk : Option Walk := none
  /-- the timers that have been acted on, and the times of the calls -/
  acted : List (TimerRequest × Int) := []
  /-- the threadlets that have been activated -/
  activated : List Nat := []
  /-- the events that have been sent to threadlets -/
  sent : List (Nat × Nat) := []

namespace OsThread

/-- One more request that the threadlet waits for -/
def block (self : OsThread) (thread : Nat) : OsThread :=
  { self with
    pendingCount := update self.pendingCount thread (self.pendingCount thread + 1) }

/-- One request less. There has to be one. -/
def unblock (self : OsThread) (thread : Nat) : Option OsThread :=
  if self.pendingCount thread = 0 then none
  else
    some { self with
      pendingCount := update self.pendingCount thread (self.pendingCount thread - 1) }

/-- `smt_thread_activate`, of a threadlet that is not active -/
def activate (self : OsThread) (thread : Nat) : Option OsThread :=
  if (self.monitor thread).isSome then none
  else some { self with activated := self.activated ++ [thread] }

def activateIdle (self : OsThread) (thread : Nat) : Option OsThread :=
  if self.pendingCount thread = 0 then self.activate thread else some self

/-! ## Timers -/

/-- `smt_timer_request_new` -/
def newTimer (self : OsThread) (thread : Nat) (time : Int) (event socketRequest : Option Nat) :
    OsThread :=
  { self with
    timerRequestList := insertBack TimerRequest.time
      ⟨self.made, thread, time, event, socketRequest⟩ self.timerRequestList,
    timerRequestCount := self.timerRequestCount + 1,
    made := self.made + 1 }

def removeTimer (self : OsThread) (n : Nat) : OsThread :=
  { self with
    timerRequestList := eraseKey TimerRequest.number n self.timerRequestList,
    timerRequestCount := self.timerRequestCount - 1 }

/-- `smt_timer_request_destroy` -/
def destroyTimer (self : OsThread) (n : Nat) : Option OsThread :=
  match findKey TimerRequest.number n self.timerRequestList with
  | none => none
  | some request =>
    if request.blocks then (self.removeTimer n).unblock request.thread
    else some (self.removeTimer n)

/-- `smt_timer_request_wakeup`. For `smt_timer_request_delay` the time is that of the clock and the
delay. -/
def wakeup (self : OsThread) (thread : Nat) (time : Int) (event : Option Nat) : OsThread :=
  let made := self.newTimer thread time event none
  if event.isNone then made.block thread else made

/-- `1000 * msecs`, a `qbyte` -/
def timeout (msecs : Nat) : Nat := 1000 * msecs % 4294967296

def setTimer (self : OsThread) (n : Nat) (timerRequest : Option Nat) : OsThread :=
  { self with
    requests := updateKey SocketRequest.number n (SocketRequest.setTimer timerRequest)
      self.requests }

def dropTimer (self : OsThread) (timerRequest : Option Nat) : Option OsThread :=
  match timerRequest with
  | none => some self
  | some n => self.destroyTimer n

/-- `smt_socket_request_timer` -/
def timer (self : OsThread) (n : Nat) (clock : Int) : Option OsThread :=
  match findKey SocketRequest.number n self.requests with
  | none => none
  | some request =>
    if request.msecs = 0 then some self
    else
      (self.dropTimer request.timerRequest).map fun dropped =>
        (dropped.newTimer request.thread (clock + timeout request.msecs) none (some n)).setTimer n
          (some dropped.made)

/-! ## Requests on a socket -/

def listOf (self : OsThread) (socket : Nat) : List SocketRequest :=
  self.requests.filter fun request => request.socket = socket

def pollsetAdd (self : OsThread) (socket : Nat) : Option OsThread :=
  match self.pollset socket with
  | some _ => none
  | none => some { self with
      pollset := update self.pollset socket (some (self.reqevents socket)) }

def pollsetRemove (self : OsThread) (socket : Nat) : Option OsThread :=
  match self.pollset socket with
  | none => none
  | some _ => some { self with pollset := update self.pollset socket none }

def setReqevents (self : OsThread) (socket : Nat) (events : PollEvents) : OsThread :=
  { self with reqevents := update self.reqevents socket events }

def clearPoll (self : OsThread) (socket : Nat) : Option OsThread :=
  if (self.reqevents socket).any then
    (self.pollsetRemove socket).map fun removed => removed.setReqevents socket {}
  else some self

/-- Whether a new request may not follow those in the list -/
def disallows (request : SocketRequest) : List SocketRequest → Bool
  | [] => false
  | other :: rest =>
    if request.isInput then other.type == .close || disallows request rest
    else if request.isOutput then
      other.type == .close || !other.isInput && disallows request rest
    else true

def goesBehind (request other : SocketRequest) : Bool :=
  !(request.isOutput && other.socket == request.socket && other.isInput)

/-- The poll set when a request has been added to a list with the given first entry. Its timer is
created when the events change. -/
def pollNew (self : OsThread) (request : SocketRequest) (first : Option SocketRequest)
    (clock : Int) : Option OsThread :=
  let events := self.reqevents request.socket
  let wanted : PollEvents :=
    ⟨events.pollin || request.asks.pollin, events.pollout || request.asks.pollout⟩
  if first.isNone then
    ((self.setReqevents request.socket wanted).pollsetAdd request.socket).bind fun added =>
      added.timer request.number clock
  else if wanted ≠ events then
    ((self.pollsetRemove request.socket).bind fun removed =>
      (removed.setReqevents request.socket wanted).pollsetAdd request.socket).bind fun added =>
        added.timer request.number clock
  else some self

def addRequest (self : OsThread) (request : SocketRequest) : OsThread :=
  { self with
    requests := self.requests.takeWhile (goesBehind request) ++
      request :: self.requests.dropWhile (goesBehind request),
    socketRequestCount := self.socketRequestCount + 1,
    made := self.made + 1 }

/-- The request is added to the lists. -/
def enlist (self : OsThread) (request : SocketRequest) : OsThread :=
  if request.blocks then (self.addRequest request).block request.thread else self.addRequest request

/-- `smt_socket_request_new`. Returns the number of the request, or `none` if it is not allowed. -/
def newRequest (self : OsThread) (thread : Nat) (type : RequestType) (socket msecs : Nat)
    (inputEvent outputEvent : Option Nat) (clock : Int) : Option (OsThread × Option Nat) :=
  let request : SocketRequest :=
    ⟨self.made, thread, type, socket, inputEvent, outputEvent, msecs, none⟩
  if disallows request (self.listOf socket) then some (self, none)
  else
    ((self.enlist request).pollNew request (self.listOf socket).head? clock).map fun polled =>
      (polled, some request.number)

/-- The events of the direction of a request are no longer polled for. -/
def dropPoll (self : OsThread) (request : SocketRequest) : Option OsThread :=
  let events := self.reqevents request.socket
  let wanted : PollEvents :=
    ⟨events.pollin && !request.isInput, events.pollout && !request.isOutput⟩
  if wanted = events then some self
  else
    (self.pollsetRemove request.socket).bind fun removed =>
      if wanted.any then (removed.setReqevents request.socket wanted).pollsetAdd request.socket
      else some (removed.setReqevents request.socket wanted)

/-- The request behind one that is removed, if it is not of the other direction -/
def successor (self : OsThread) (request : SocketRequest) : Option SocketRequest :=
  (nextKey SocketRequest.number request.number (self.listOf request.socket)).filter fun next =>
    !(request.isOutput && next.isInput)

/-- The poll set before a request is removed. The next request gets its timer. -/
def pollOld (self : OsThread) (request : SocketRequest) (clock : Int) : Option OsThread :=
  if request.type = .monitor ∨ request.type = .close then self.clearPoll request.socket
  else
    match self.successor request with
    | some next => self.timer next.number clock
    | none => self.dropPoll request

def removeRequest (self : OsThread) (n : Nat) : OsThread :=
  { self with
    requests := eraseKey SocketRequest.number n self.requests,
    socketRequestCount := self.socketRequestCount - 1 }

/-- The request is removed from the lists. -/
def unlist (self : OsThread) (request : SocketRequest) : Option OsThread :=
  if request.blocks then (self.removeRequest request.number).unblock request.thread
  else some (self.removeRequest request.number)

/-- `smt_socket_request_destroy` -/
def destroy (self : OsThread) (n : Nat) (clock : Int) : Option OsThread :=
  match findKey SocketRequest.number n self.requests with
  | none => none
  | some request =>
    (self.pollOld request clock).bind fun polled =>
      (polled.dropTimer request.timerRequest).bind fun dropped => dropped.unlist request

/-- `smt_socket_request_return` -/
def reply (self : OsThread) (n : Nat) (clock : Int) : Option OsThread :=
  match findKey SocketRequest.number n self.requests with
  | none => none
  | some request =>
    let unmonitored :=
      if request.type = .monitor then
        { self with monitor := update self.monitor request.thread none }
      else self
    (unmonitored.destroy n clock).bind fun destroyed =>
      match request.replyEvent with
      | none => destroyed.activateIdle request.thread
      | some event => some { destroyed with sent := destroyed.sent ++ [(request.thread, event)] }

def drain (act : OsThread → SocketRequest → Option OsThread) (socket : Nat) :
    Nat → OsThread → Option OsThread
  | 0, self => some self
  | fuel + 1, self =>
    match (self.listOf socket).head? with
    | none => some self
    | some request => (act self request).bind (drain act socket fuel)

/-- `smt_socket_request_reply_error_to_all_requests` -/
def replyErrorToAll (self : OsThread) (socket : Nat) (clock : Int) : Option OsThread :=
  (drain (fun self request => (self.clearPoll socket).bind fun cleared =>
    cleared.reply request.number clock) socket self.requests.length self).map fun drained =>
      { drained with closed := update drained.closed socket true }

/-- `smt_socket_destroy` -/
def destroySocket (self : OsThread) (socket : Nat) (clock : Int) : Option OsThread :=
  drain (fun self request => (self.destroy request.number clock).bind fun destroyed =>
    destroyed.activateIdle request.thread) socket self.requests.length self

/-- `smt_socket_request_close_the_socket` -/
def closeTheSocket (self : OsThread) (n : Nat) (clock : Int) : Option OsThread :=
  match findKey SocketRequest.number n self.requests with
  | none => none
  | some request =>
    (self.reply n clock).bind fun replied =>
      (replied.replyErrorToAll request.socket clock).bind fun closed =>
        closed.destroySocket request.socket clock

/-- What `apr_socket_close` returns -/
inductive CloseResult where
  | success
  | again
  | failed
deriving DecidableEq

/-- `smt_socket_request_close`, of a threadlet that does not monitor a socket -/
def close (self : OsThread) (thread socket msecs : Nat) (event : Option Nat) (result : CloseResult)
    (clock : Int) : Option OsThread :=
  if (self.reqevents socket).pollout then
    (self.newRequest thread .close socket msecs none event clock).map Prod.fst
  else
    (self.clearPoll socket).bind fun cleared =>
      match result with
      | .success => (cleared.replyErrorToAll socket clock).bind fun closed =>
          closed.destroySocket socket clock
      | .again => (cleared.newRequest thread .close socket msecs none event clock).map Prod.fst
      | .failed => some cleared

def startMonitor (self : OsThread) (thread socket msecs : Nat) (inputEvent outputEvent : Option Nat)
    (clock : Int) : Option OsThread :=
  if (self.requests.any fun request => request.thread = thread) || self.closed socket then some self
  else
    (self.newRequest thread .monitor socket msecs inputEvent outputEvent clock).map fun r =>
      match r.2 with
      | none => r.1
      | some n => { r.1 with monitor := update r.1.monitor thread (some n) }

/-- The monitor of a threadlet is destroyed, because the socket is ready or there is another event.
-/
def stopMonitor (self : OsThread) (thread : Nat) (wakes : Bool) (clock : Int) : Option OsThread :=
  match self.monitor thread with
  | none => some self
  | some n =>
    (self.destroy n clock).bind fun destroyed =>
      let stopped := { destroyed with monitor := update destroyed.monitor thread none }
      if wakes then stopped.activateIdle thread else some stopped

/-! ## Expiry -/

/-- `smt_timer_request_expire_all` is called: the first timer is fetched. -/
def expireAll (self : OsThread) (timeNow : Int) : OsThread :=
  { self with
    walk := some ⟨timeNow, self.made, self.timerRequestList.head?.map TimerRequest.number⟩ }

/-- What is done about a timer that is due -/
def expire (self : OsThread) (request : TimerRequest) (clock : Int) : Option OsThread :=
  match request.socketRequest with
  | some n =>
    ((self.setTimer n none).destroyTimer request.number).bind fun destroyed =>
      destroyed.reply n clock
  | none =>
    (self.destroyTimer request.number).bind fun destroyed =>
      match request.event with
      | none => destroyed.activateIdle request.thread
      | some event => some { destroyed with sent := destroyed.sent ++ [(request.thread, event)] }

/-- The loop goes on with the timer that has been fetched, which it looks at. -/
def expireNext (self : OsThread) (clock : Int) : Option OsThread :=
  match self.walk with
  | none => some self
  | some walk =>
    match walk.request with
    | none => some { self with walk := none }
    | some n =>
      match findKey TimerRequest.number n self.timerRequestList with
      | none => none
      | some request =>
        if request.time ≤ walk.timeNow then
          let next := nextKey TimerRequest.number n self.timerRequestList
          (self.expire request clock).map fun expired =>
            { expired with
              walk := some { walk with request := next.map TimerRequest.number },
              acted := expired.acted ++ [(request, walk.timeNow)] }
        else some { self with walk := some { walk with request := none } }

/-! ## Steps -/

/-- What happens in an OS thread. The clock is what `smt_time_now` returns. -/
inductive Event where
  /-- `smt_timer_request_wakeup` or `smt_timer_request_delay` -/
  | wakeup (thread : Nat) (time : Int) (event : Option Nat)
  /-- `smt_timer_request_destroy`, of a timer that is no timeout -/
  | destroyTimer (n : Nat)
  | expireAll (timeNow : Int)
  | expireNext (clock : Int)
  /-- an input request -/
  | input (accept : Bool) (thread socket msecs : Nat) (event : Option Nat) (clock : Int)
  /-- an output request that does not close the socket -/
  | output (connect : Bool) (thread socket msecs : Nat) (event : Option Nat) (clock : Int)
  | close (thread socket msecs : Nat) (event : Option Nat) (result : CloseResult) (clock : Int)
  | startMonitor (thread socket msecs : Nat) (inputEvent outputEvent : Option Nat) (clock : Int)
  | stopMonitor (thread : Nat) (wakes : Bool) (clock : Int)
  /-- a request has been performed in part -/
  | timer (n : Nat) (clock : Int)
  /-- a request is done, or has failed -/
  | reply (n : Nat) (clock : Int)
  /-- the threadlet of the request is destroyed -/
  | purge (n : Nat) (clock : Int)
  | replyErrorToAll (socket : Nat) (clock : Int)
  | closeTheSocket (n : Nat) (clock : Int)
  | destroySocket (socket : Nat) (clock : Int)

/-- A threadlet that monitors a socket may only accept and connect. -/
def step (self : OsThread) : Event → Option OsThread
  | .wakeup thread time event => some (self.wakeup thread time event)
  | .destroyTimer n => self.destroyTimer n
  | .expireAll timeNow => some (self.expireAll timeNow)
  | .expireNext clock => self.expireNext clock
  | .input accept thread socket msecs event clock =>
    if !accept && (self.monitor thread).isSome || self.closed socket then some self
    else
      (self.newRequest thread (if accept then .accept else .read) socket msecs event none clock).map
        Prod.fst
  | .output connect thread socket msecs event clock =>
    if !connect && (self.monitor thread).isSome || self.closed socket then some self
    else
      (self.newRequest thread (if connect then .connect else .write) socket msecs none event
        clock).map Prod.fst
  | .close thread socket msecs event result clock =>
    if (self.monitor thread).isSome || self.closed socket then some self
    else self.close thread socket msecs event result clock
  | .startMonitor thread socket msecs inputEvent outputEvent clock =>
    self.startMonitor thread socket msecs inputEvent outputEvent clock
  | .stopMonitor thread wakes clock => self.stopMonitor thread wakes clock
  | .timer n clock => self.timer n clock
  | .reply n clock => self.reply n clock
  | .purge n clock =>
    match findKey SocketRequest.number n self.requests with
    | none => none
    | some request =>
      { self with monitor := update self.monitor request.thread none }.destroy n clock
  | .replyErrorToAll socket clock => self.replyErrorToAll socket clock
  | .closeTheSocket n clock => self.closeTheSocket n clock
  | .destroySocket socket clock => self.destroySocket socket clock

end OsThread

end OpenAmq
