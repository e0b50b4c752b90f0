import OpenAmq.Smt.Polled

/-!
# What is polled for

* `OsThread.Covers` — all that the requests on some sockets ask for is polled for
* `OsThread.Orderly` — a step that removes only such requests of a socket by themselves
* `polled_run`, `polled_run_sample` — the lists and the poll set in any run
-/

namespace OpenAmq

open Lib List Function SocketRequest Option

namespace PollEvents

def Includes (events other : PollEvents) : Prop :=
  (other.pollin → events.pollin) ∧ (other.pollout → events.pollout)

def meets (events other : PollEvents) : Bool :=
  events.pollin && other.pollin || events.pollout && other.pollout

theorem includes_without {events asked other : PollEvents} (h : events.Includes other)
    (hmeets : asked.meets other = false) : Includes
      ⟨events.pollin && !asked.pollin, events.pollout && !asked.pollout⟩ other := by
  unfold meets at hmeets
  rw [Bool.or_eq_false_iff] at hmeets
  refine ⟨fun hin => ?_, fun hout => ?_⟩
  · rw [hin, Bool.and_true] at hmeets
    simp [h.1 hin, hmeets.1]
  · rw [hout, Bool.and_true] at hmeets
    simp [h.2 hout, hmeets.2]

end PollEvents

namespace OsThread

/-- The requests on the sockets are polled for. -/
def Covers (self : OsThread) (sockets : Nat → Prop) : Prop :=
  ∀ request ∈ self.requests, sockets request.socket →
    (self.reqevents request.socket).Includes request.asks

/-- There is a later request of the same direction, or nothing else on the socket asks for the same.
A close and a monitor are alone. -/
def Removable (requests : List SocketRequest) (request : SocketRequest) : Prop :=
  if request.type = .monitor ∨ request.type = .close then
    ∀ other ∈ requests, other.socket = request.socket → other.number = request.number
  else
    (∃ other ∈ requests, other.socket = request.socket ∧ other.isInput = request.isInput ∧
      other.isOutput = request.isOutput ∧ request.number < other.number) ∨
    ∀ other ∈ requests, other.socket = request.socket → request.asks.meets other.asks →
      other.number = request.number

instance (requests : List SocketRequest) (request : SocketRequest) :
    Decidable (Removable requests request) := by
  unfold Removable
  infer_instance

/-- A request on the socket that is removed by itself can be spared, and when the socket is not
closed at once it has no requests. -/
def Orderly (socket : Nat) (self : OsThread) : Event → Prop
  | .reply n _ | .purge n _ =>
    ∀ request ∈ self.requests, request.socket = socket → request.number = n →
      Removable self.requests request
  | .stopMonitor thread _ _ =>
    ∀ request ∈ self.requests, request.socket = socket →
      self.monitor thread = some request.number → Removable self.requests request
  | .expireNext _ =>
    ∀ timer ∈ self.dueTimer, ∀ request ∈ self.requests, request.socket = socket →
      timer.socketRequest = some request.number → Removable self.requests request
  | .close _ closed _ _ result _ =>
    closed = socket →
      result = .success ∨ (self.reqevents socket).pollout ∨ self.listOf socket = []
  | _ => True

instance (socket : Nat) (self : OsThread) (event : Event) :
    Decidable (self.Orderly socket event) := by
  induction event using Event.casesOn <;> unfold Orderly <;> infer_instance

variable {self next : OsThread} {thread n socket : Nat} {request other : SocketRequest}
  {sockets : Nat → Prop} {clock : Int}

/-! ## Requests that are removed -/

/-- A request has been removed, and what its socket is polled for. -/
structure Gone (os next : OsThread) (request : SocketRequest) : Prop where
  requests : untimed next.requests = untimed (eraseKey number request.number os.requests)
  reqevents : next.reqevents = update os.reqevents request.socket (os.left request)

theorem exists_of_untimed {requests requests' : List SocketRequest}
    (h : untimed requests' = untimed requests) (hrequest : request ∈ requests') :
    ∃ r ∈ requests, r.setTimer none = request.setTimer none := by
  have hmem : request.setTimer none ∈ untimed requests := h ▸ mem_map_of_mem hrequest
  exact mem_map.mp hmem

theorem Covers.congr (h : self.Covers sockets)
    (huntimed : untimed next.requests = untimed self.requests)
    (hreqevents : next.reqevents = self.reqevents) : next.Covers sockets := by
  intro request hrequest hsocket
  obtain ⟨r, hr, heq⟩ := exists_of_untimed huntimed hrequest
  have hs : r.socket = request.socket := (congrArg socket heq :)
  have hasks : r.asks = request.asks := (congrArg asks heq :)
  rw [hreqevents, ← hs, ← hasks]
  exact h r hr (hs ▸ hsocket)

theorem Covers.mono {sockets' : Nat → Prop} (h : self.Covers sockets)
    (hsub : ∀ s, sockets' s → sockets s) : self.Covers sockets' :=
  fun r hr hs => h r hr (hsub _ hs)

theorem Gone.covers (h : Gone self next request) (hcovers : self.Covers sockets) :
    next.Covers fun s => sockets s ∧ s ≠ request.socket := by
  rintro r hr ⟨hsocket, hne⟩
  obtain ⟨r', hr', heq⟩ := exists_of_untimed h.requests hr
  have hs : r'.socket = r.socket := (congrArg socket heq :)
  have hasks : r'.asks = r.asks := (congrArg asks heq :)
  rw [h.reqevents, update_of_ne hne, ← hs, ← hasks]
  exact hcovers r' (mem_eraseKey.mp hr').1 (hs ▸ hsocket)

theorem isSome_successor (h : Polling self) (hrequest : request ∈ self.requests)
    (hmonitor : request.type ≠ .monitor) (hother : other ∈ self.requests)
    (hsocket : other.socket = request.socket) (hinput : other.isInput = request.isInput)
    (houtput : other.isOutput = request.isOutput) (hlt : request.number < other.number) :
    (self.successor request).isSome := by
  obtain ⟨front, rest, hlist, hfront, -, hnext⟩ :=
    exists_split (nodup_listOf h.scheduled request.socket) (mem_listOf.mpr ⟨hrequest, rfl⟩)
  have hplaced : Placed (front ++ request :: rest) := hlist ▸ h.polled.placed.sublist filter_sublist
  obtain ⟨-, hbehind, hcross⟩ := pairwise_append.mp hplaced
  have hmem : other ∈ front ++ request :: rest := hlist ▸ mem_listOf.mpr ⟨hother, hsocket⟩
  have hrest : other ∈ rest := by
    rcases mem_append.mp hmem with hmem | hmem
    · have hbefore := hcross other hmem request mem_cons_self hsocket
      exfalso
      rcases isInput_or_isOutput hmonitor with hi | ho
      · exact absurd (hbefore.inputs_in_order (hinput.trans hi) hi) (by omega)
      · exact absurd (hbefore.outputs_in_order (houtput.trans ho) ho) (by omega)
    · rcases mem_cons.mp hmem with rfl | hmem
      · omega
      · exact hmem
  unfold successor
  rw [hnext]
  cases rest with
  | nil => cases hrest
  | cons first rest =>
    have hfirst : first.socket = request.socket := by
      have hmem : first ∈ self.listOf request.socket := by simp [hlist]
      exact (mem_listOf.mp hmem).2
    rw [head?_cons, filter_some, if_pos]
    · rfl
    · -- an output request behind it is not behind an input
      by_contra hskip
      simp only [Bool.not_eq_true', Bool.not_eq_false, Bool.and_eq_true] at hskip
      have hi : other.isInput := by
        rcases mem_cons.mp hrest with rfl | hrest
        · exact hskip.2
        · have htail := (pairwise_cons.mp (pairwise_cons.mp hbehind).2).1
          exact (htail other hrest (hfirst.trans hsocket.symm)).outputs_first hskip.2
      have ho := not_isOutput_of_isInput hi
      rw [houtput, hskip.1] at ho
      cases ho

theorem Gone.covers_of_removable (h : Gone self next request) (hself : Polling self)
    (hrequest : request ∈ self.requests)
    (hremovable : sockets request.socket → Removable self.requests request)
    (hcovers : self.Covers sockets) : next.Covers sockets := by
  intro r hr hsocket
  obtain ⟨r', hr', heq⟩ := exists_of_untimed h.requests hr
  obtain ⟨hmem, hne⟩ := mem_eraseKey.mp hr'
  have hs : r'.socket = r.socket := (congrArg socket heq :)
  have hasks : r'.asks = r.asks := (congrArg asks heq :)
  have hincludes := hcovers r' hmem (hs ▸ hsocket)
  rw [h.reqevents, ← hs, ← hasks]
  by_cases hsame : r'.socket = request.socket
  · have hremovable := hremovable (hsame ▸ hs ▸ hsocket)
    rw [hsame, update_self]
    rw [hsame] at hincludes
    unfold left
    unfold Removable at hremovable
    split
    · next hclose =>
      rw [if_pos hclose] at hremovable
      exact absurd (hremovable r' hmem hsame) hne
    · next hclose =>
      rw [if_neg hclose] at hremovable
      rw [not_or] at hclose
      split
      · exact hincludes
      · next hsuccessor =>
        rcases hremovable with ⟨other, hother, hs', hi, ho, hlt⟩ | halone
        · exact absurd (isSome_successor hself hrequest hclose.1 hother hs' hi ho hlt) hsuccessor
        · have hmeets : request.asks.meets r'.asks = false := by
            by_contra hmeets
            exact hne (halone r' hmem hsame (eq_true_of_ne_false hmeets))
          have htakes := hself.polled.takes request hrequest
          have hwithout := PollEvents.includes_without hincludes hmeets
          rcases isInput_or_isOutput hclose.1 with hi | ho
          · rw [asks_of_isInput htakes hi] at hwithout
            rwa [hi, not_isOutput_of_isInput hi]
          · have hi : request.isInput = false := by
              by_contra hi
              simp [not_isOutput_of_isInput (eq_true_of_ne_false hi)] at ho
            rw [asks_of_isOutput htakes ho] at hwithout
            rwa [hi, ho]
  · rw [update_of_ne hsame]
    exact hincludes

theorem Gone.congr {last : OsThread} (h : Gone self next request)
    (hsame : SameLists next last) : Gone self last request := by
  obtain ⟨_, _, _, _, rfl⟩ := hsame
  exact ⟨h.requests, h.reqevents⟩

theorem Gone.length_lt (h : Gone self next request) (hself : Polling self)
    (hrequest : request ∈ self.requests) : next.requests.length < self.requests.length := by
  have hlength := congrArg length h.requests
  unfold untimed at hlength
  rw [length_map, length_map] at hlength
  have herase := length_eraseKey hself.scheduled.listed.numbers hrequest
  omega

theorem gone_destroy (h : Polling self) (hrequest : request ∈ self.requests)
    (hdestroy : self.destroy request.number clock = some next) :
    Gone self next request ∧ Polling next := by
  obtain ⟨next', hdestroy', hdestroyed, hpolling, hreqevents⟩ := h.destroy hrequest clock
  obtain rfl := some.inj (hdestroy'.symm.trans hdestroy)
  exact ⟨⟨hdestroyed.requests, hreqevents⟩, hpolling⟩

theorem exists_of_reply (h : self.reply n clock = some next) :
    ∃ request ∈ self.requests, request.number = n := by
  unfold reply at h
  split at h
  · cases h
  · next request hfind => exact ⟨request, mem_of_findKey hfind⟩

theorem gone_reply (h : Polling self) (hrequest : request ∈ self.requests)
    (hreply : self.reply request.number clock = some next) :
    Gone self next request ∧ Polling next := by
  refine ⟨?_, kept_polling.reply h hreply⟩
  have hdestroyed : ∀ monitor destroyed,
      { self with monitor }.destroy request.number clock = some destroyed →
        Gone self destroyed request := by
    intro monitor destroyed hdestroy
    have hself : Polling { self with monitor } := kept_polling.congr h ⟨_, _, _, _, rfl⟩
    obtain ⟨hgone, -⟩ := gone_destroy hself hrequest hdestroy
    exact ⟨hgone.requests, hgone.reqevents⟩
  unfold reply at hreply
  rw [findKey_request h.scheduled hrequest] at hreply
  obtain ⟨destroyed, hdestroy, hnext⟩ := bind_eq_some_iff.mp hreply
  have hgone : Gone self destroyed request := by
    split at hdestroy
    · exact hdestroyed _ destroyed hdestroy
    · exact hdestroyed self.monitor destroyed hdestroy
  split at hnext
  · exact hgone.congr (sameLists_activateIdle hnext)
  · exact hgone.congr ⟨_, _, _, _, (some.inj hnext).symm⟩

/-! ## Sockets that are closed -/

theorem Covers.of_listOf_eq_nil (h : self.Covers fun s => sockets s ∧ s ≠ socket)
    (hnil : self.listOf socket = []) : self.Covers sockets := by
  intro r hr hs
  refine h r hr ⟨hs, fun hsocket => ?_⟩
  have hmem : r ∈ self.listOf socket := mem_listOf.mpr ⟨hr, hsocket⟩
  rw [hnil] at hmem
  cases hmem

theorem Covers.clear (h : self.Covers sockets) (hsockets : ∀ s, sockets s → s ≠ socket) :
    (self.repoll socket {}).Covers sockets := by
  intro r hr hsocket
  show (update self.reqevents socket {} r.socket).Includes r.asks
  rw [update_of_ne (hsockets _ hsocket)]
  exact h r hr hsocket

theorem covers_drain {act : OsThread → SocketRequest → Option OsThread}
    (hact : ∀ {self next request}, Polling self → request ∈ self.listOf socket →
      self.Covers (fun s => sockets s ∧ s ≠ socket) → act self request = some next →
        Polling next ∧ next.Covers (fun s => sockets s ∧ s ≠ socket) ∧
          next.requests.length < self.requests.length)
    (h : Polling self) (hcovers : self.Covers fun s => sockets s ∧ s ≠ socket)
    (hnext : drain act socket self.requests.length self = some next) :
    next.Covers sockets ∧ next.listOf socket = [] := by
  let I : OsThread → Prop := fun os => Polling os ∧ os.Covers fun s => sockets s ∧ s ≠ socket
  have hI : I next := by
    refine drain_invariant (fun {self next request} hI hrequest hnext => ?_) ⟨h, hcovers⟩ hnext
    obtain ⟨hpolling, hcovers, -⟩ := hact hI.1 hrequest hI.2 hnext
    exact ⟨hpolling, hcovers⟩
  have hnil : next.listOf socket = [] := by
    refine drain_empties (I := I) (fun {self next request} hI hrequest hnext => ?_) ⟨h, hcovers⟩
      (Nat.le_refl _) hnext
    obtain ⟨hpolling, hcovers, hlt⟩ := hact hI.1 hrequest hI.2 hnext
    exact ⟨⟨hpolling, hcovers⟩, hlt⟩
  exact ⟨hI.2.of_listOf_eq_nil hnil, hnil⟩

theorem Gone.covers_others (h : Gone self next request) (hsocket : request.socket = socket)
    (hcovers : self.Covers fun s => sockets s ∧ s ≠ socket) :
    next.Covers fun s => sockets s ∧ s ≠ socket :=
  (h.covers hcovers).mono fun _ hs => ⟨hs, hsocket.symm ▸ hs.2⟩

theorem covers_replyErrorToAll (h : Polling self)
    (hcovers : self.Covers fun s => sockets s ∧ s ≠ socket)
    (hnext : self.replyErrorToAll socket clock = some next) :
    next.Covers sockets ∧ next.listOf socket = [] := by
  obtain ⟨drained, hdrain, rfl⟩ := map_eq_some_iff.mp hnext
  have hdrained : drained.Covers sockets ∧ drained.listOf socket = [] := by
    refine covers_drain (fun {self next request} h hrequest hcovers hact => ?_) h hcovers hdrain
    obtain ⟨hmem, hsocket⟩ := mem_listOf.mp hrequest
    obtain ⟨cleared, hclear, hreply⟩ := bind_eq_some_iff.mp hact
    obtain rfl := some.inj ((clearPoll_eq h.pollset socket).symm.trans hclear)
    obtain ⟨hgone, hpolling⟩ := gone_reply (h.clear socket) hmem hreply
    exact ⟨hpolling, hgone.covers_others hsocket (hcovers.clear fun _ => And.right),
      hgone.length_lt (h.clear socket) hmem⟩
  exact hdrained

theorem covers_destroySocket (h : Polling self)
    (hcovers : self.Covers fun s => sockets s ∧ s ≠ socket)
    (hnext : self.destroySocket socket clock = some next) : next.Covers sockets := by
  refine (covers_drain (fun {self next request} h hrequest hcovers hact => ?_) h hcovers hnext).1
  obtain ⟨hmem, hsocket⟩ := mem_listOf.mp hrequest
  obtain ⟨destroyed, hdestroy, hidle⟩ := bind_eq_some_iff.mp hact
  obtain ⟨hgone, hpolling⟩ := gone_destroy h hmem hdestroy
  have hgone := hgone.congr (sameLists_activateIdle hidle)
  exact ⟨kept_polling.activateIdle hpolling hidle, hgone.covers_others hsocket hcovers,
    hgone.length_lt h hmem⟩

theorem covers_closeTheSocket (h : Polling self) (hcovers : self.Covers sockets)
    (hnext : self.closeTheSocket n clock = some next) : next.Covers sockets := by
  unfold closeTheSocket at hnext
  split at hnext
  · cases hnext
  · next request hfind =>
    obtain ⟨hrequest, rfl⟩ := mem_of_findKey hfind
    obtain ⟨replied, hreply, hnext⟩ := bind_eq_some_iff.mp hnext
    obtain ⟨closed, hclose, hnext⟩ := bind_eq_some_iff.mp hnext
    obtain ⟨hgone, hreplied⟩ := gone_reply h hrequest hreply
    obtain ⟨hclosed, -⟩ := covers_replyErrorToAll hreplied (hgone.covers hcovers) hclose
    exact covers_destroySocket (kept_polling.replyErrorToAll hreplied hclose)
      (hclosed.mono fun _ => And.left) hnext

/-! ## Steps -/

theorem covers_newRequest (type : RequestType) (h : Polling self) (hcovers : self.Covers sockets)
    {msecs : Nat} {inputEvent outputEvent : Option Nat} {r : OsThread × Option Nat}
    (htakes : type.Takes inputEvent outputEvent)
    (hr : self.newRequest thread type socket msecs inputEvent outputEvent clock = some r) :
    r.1.Covers sockets := by
  rcases h.newRequest htakes hr with rfl | ⟨request, hsocket, -, huntimed, hreqevents⟩
  · exact hcovers
  · intro other hother hs
    obtain ⟨r', hr', heq⟩ := exists_of_untimed huntimed hother
    have hsame : r'.socket = other.socket := (congrArg SocketRequest.socket heq :)
    have hasks : r'.asks = other.asks := (congrArg SocketRequest.asks heq :)
    rw [hreqevents, ← hsame, ← hasks]
    rw [(perm_addRequest self request).mem_iff, mem_cons] at hr'
    by_cases heq : r'.socket = socket
    · rw [heq, update_self, wanted]
      rcases hr' with rfl | hr'
      · exact ⟨fun hin => by simp [hin], fun hout => by simp [hout]⟩
      · have hincludes := hcovers r' hr' (hsame ▸ hs)
        rw [heq, ← hsocket] at hincludes
        exact ⟨fun hin => by simp [hincludes.1 hin], fun hout => by simp [hincludes.2 hout]⟩
    · rw [update_of_ne heq]
      rcases hr' with rfl | hr'
      · exact absurd hsocket heq
      · exact hcovers r' hr' (hsame ▸ hs)

theorem covers_close (h : Polling self) (hcovers : self.Covers sockets) {msecs : Nat}
    {event : Option Nat} {result : CloseResult}
    (horderly : sockets socket →
      result = .success ∨ (self.reqevents socket).pollout ∨ self.listOf socket = [])
    (hnext : self.close thread socket msecs event result clock = some next) :
    next.Covers sockets := by
  unfold close at hnext
  split at hnext
  · obtain ⟨r, hr, rfl⟩ := map_eq_some_iff.mp hnext
    exact covers_newRequest .close h hcovers rfl hr
  · next hpollout =>
    obtain ⟨cleared, hclear, hnext⟩ := bind_eq_some_iff.mp hnext
    obtain rfl := some.inj ((clearPoll_eq h.pollset socket).symm.trans hclear)
    have hothers : (self.repoll socket {}).Covers fun s => sockets s ∧ s ≠ socket :=
      (hcovers.mono fun _ => And.left).clear fun _ => And.right
    have hall (hresult : result ≠ .success) : (self.repoll socket {}).Covers sockets := by
      by_cases hs : sockets socket
      · rcases horderly hs with hsuccess | hset | hnil
        · exact absurd hsuccess hresult
        · exact absurd hset hpollout
        · exact hothers.of_listOf_eq_nil hnil
      · exact hothers.mono fun _ hs' => ⟨hs', fun heq => hs (heq ▸ hs')⟩
    cases result with
    | success =>
      obtain ⟨closed, hclose, hnext⟩ := bind_eq_some_iff.mp hnext
      obtain ⟨hclosed, -⟩ := covers_replyErrorToAll (h.clear socket) hothers hclose
      exact covers_destroySocket (kept_polling.replyErrorToAll (h.clear socket) hclose)
        (hclosed.mono fun _ => And.left) hnext
    | again =>
      obtain ⟨r, hr, rfl⟩ := map_eq_some_iff.mp hnext
      exact covers_newRequest .close (h.clear socket) (hall nofun) rfl hr
    | failed =>
      cases hnext
      exact hall nofun

theorem Removable.congr {requests requests' : List SocketRequest} {r : SocketRequest}
    (h : Removable requests r) (huntimed : untimed requests' = untimed requests)
    (heq : r.setTimer none = request.setTimer none) : Removable requests' request := by
  have htype : r.type = request.type := (congrArg type heq :)
  have hnumber : r.number = request.number := (congrArg number heq :)
  have hsocket : r.socket = request.socket := (congrArg socket heq :)
  have hasks : r.asks = request.asks := (congrArg asks heq :)
  have hinput : r.isInput = request.isInput := (congrArg isInput heq :)
  have houtput : r.isOutput = request.isOutput := (congrArg isOutput heq :)
  unfold Removable at h ⊢
  rw [htype, hnumber, hsocket, hasks, hinput, houtput] at h
  split
  · next hclose =>
    rw [if_pos hclose] at h
    intro other hother hs
    obtain ⟨o, ho, heq⟩ := exists_of_untimed huntimed hother
    have hs' : o.socket = other.socket := (congrArg socket heq :)
    have hn : o.number = other.number := (congrArg number heq :)
    exact hn ▸ h o ho (hs'.trans hs)
  · next hclose =>
    rw [if_neg hclose] at h
    rcases h with ⟨o, ho, hs, hi, hout, hlt⟩ | h
    · obtain ⟨other, hother, heq⟩ := exists_of_untimed huntimed.symm ho
      have hs' : other.socket = o.socket := (congrArg socket heq :)
      have hn : other.number = o.number := (congrArg number heq :)
      have hi' : other.isInput = o.isInput := (congrArg isInput heq :)
      have ho' : other.isOutput = o.isOutput := (congrArg isOutput heq :)
      exact .inl ⟨other, hother, hs'.trans hs, hi'.trans hi, ho'.trans hout, hn ▸ hlt⟩
    · refine .inr fun other hother hs hmeets => ?_
      obtain ⟨o, ho, heq⟩ := exists_of_untimed huntimed hother
      have hs' : o.socket = other.socket := (congrArg socket heq :)
      have hn : o.number = other.number := (congrArg number heq :)
      have ha : o.asks = other.asks := (congrArg asks heq :)
      exact hn ▸ h o ho (hs'.trans hs) (ha ▸ hmeets)

theorem covers_expire {timer : TimerRequest} (h : Polling self)
    (hcovers : self.Covers sockets) (htimer : timer ∈ self.timerRequestList)
    (hremovable : ∀ request ∈ self.requests, sockets request.socket →
      timer.socketRequest = some request.number → Removable self.requests request)
    (hnext : self.expire timer clock = some next) : next.Covers sockets := by
  unfold expire at hnext
  cases hsocket : timer.socketRequest with
  | some n =>
    rw [hsocket] at hnext
    obtain ⟨destroyed, hdestroy, hreply⟩ := bind_eq_some_iff.mp hnext
    have hpolling := kept_polling.expire h htimer hsocket hdestroy
    have hdestroy' := @destroyTimer_timeout (self.setTimer n none) n timer h.scheduled.timed.numbers
      htimer hsocket
    obtain rfl := some.inj (hdestroy'.symm.trans hdestroy)
    have huntimed : untimed ((self.setTimer n none).removeTimer timer.number).requests =
        untimed self.requests := untimed_updateKey ..
    obtain ⟨request, hrequest, rfl⟩ := exists_of_reply hreply
    obtain ⟨r, hr, heq⟩ := exists_of_untimed huntimed hrequest
    have hn : r.number = request.number := (congrArg number heq :)
    obtain ⟨hgone, -⟩ := gone_reply hpolling hrequest hreply
    have hs : r.socket = request.socket := (congrArg SocketRequest.socket heq :)
    exact hgone.covers_of_removable hpolling hrequest
      (fun hsock => (hremovable r hr (hs ▸ hsock) (hn ▸ hsocket)).congr huntimed heq)
      (hcovers.congr huntimed rfl)
  | none =>
    rw [hsocket] at hnext
    obtain ⟨destroyed, hdestroy, hnext⟩ := bind_eq_some_iff.mp hnext
    obtain ⟨pendingCount, hdestroy', -⟩ := h.scheduled.destroyTimer htimer hsocket
    obtain rfl := some.inj (hdestroy'.symm.trans hdestroy)
    split at hnext
    · obtain ⟨_, _, _, _, rfl⟩ := sameLists_activateIdle hnext
      exact hcovers.congr rfl rfl
    · cases hnext
      exact hcovers.congr rfl rfl

/-- An event that is orderly on a socket leaves all requests there polled for. -/
theorem covers_step (h : Polling self) (hcovers : self.Covers fun s => s = socket) {event : Event}
    (hlegal : self.Legal event) (horderly : self.Orderly socket event)
    (hnext : self.step event = some next) : next.Covers fun s => s = socket := by
  cases event with
  | wakeup thread time event =>
    cases hnext
    cases event <;> exact hcovers.congr rfl rfl
  | destroyTimer n =>
    have hdestroy : self.destroyTimer n = some next := hnext
    unfold destroyTimer at hdestroy
    split at hdestroy
    · cases hdestroy
    · split at hdestroy
      · unfold unblock at hdestroy
        split at hdestroy
        · cases hdestroy
        · exact some.inj hdestroy ▸ hcovers.congr rfl rfl
      · exact some.inj hdestroy ▸ hcovers.congr rfl rfl
  | expireAll timeNow =>
    cases hnext
    exact hcovers.congr rfl rfl
  | expireNext clock =>
    rcases expireNext_cases hnext with
      ⟨walk, rfl⟩ | ⟨timer, htimer, hdue, expired, _, _, hexpire, rfl⟩
    · exact hcovers.congr rfl rfl
    · exact (covers_expire h hcovers htimer (horderly timer hdue) hexpire).congr rfl rfl
  | input accept thread _ msecs event clock =>
    simp only [step] at hnext
    split at hnext
    · exact some.inj hnext ▸ hcovers
    · obtain ⟨r, hr, rfl⟩ := map_eq_some_iff.mp hnext
      cases accept with
      | true => exact covers_newRequest .accept h hcovers rfl hr
      | false => exact covers_newRequest .read h hcovers rfl hr
  | output connect thread _ msecs event clock =>
    simp only [step] at hnext
    split at hnext
    · exact some.inj hnext ▸ hcovers
    · obtain ⟨r, hr, rfl⟩ := map_eq_some_iff.mp hnext
      cases connect with
      | true => exact covers_newRequest .connect h hcovers rfl hr
      | false => exact covers_newRequest .write h hcovers rfl hr
  | close thread closed msecs event result clock =>
    simp only [step] at hnext
    split at hnext
    · exact some.inj hnext ▸ hcovers
    · exact covers_close h hcovers (fun hs => hs ▸ horderly hs) hnext
  | startMonitor thread other msecs inputEvent outputEvent clock =>
    have hstart : self.startMonitor thread other msecs inputEvent outputEvent clock = some next :=
      hnext
    unfold startMonitor at hstart
    split at hstart
    · exact some.inj hstart ▸ hcovers
    · obtain ⟨r, hr, rfl⟩ := map_eq_some_iff.mp hstart
      have hr := covers_newRequest .monitor h hcovers hlegal.2 hr
      split
      · exact hr
      · exact hr.congr rfl rfl
  | stopMonitor thread wakes clock =>
    have hstop : self.stopMonitor thread wakes clock = some next := hnext
    unfold stopMonitor at hstop
    split at hstop
    · exact some.inj hstop ▸ hcovers
    · next n hmonitor =>
      obtain ⟨destroyed, hdestroy, hstopped⟩ := bind_eq_some_iff.mp hstop
      obtain ⟨request, hrequest, rfl⟩ := exists_of_destroy hdestroy
      obtain ⟨hgone, -⟩ := gone_destroy h hrequest hdestroy
      have hdestroyed := hgone.covers_of_removable h hrequest
        (fun hs => horderly request hrequest hs hmonitor) hcovers
      split at hstopped
      · obtain ⟨_, _, _, _, rfl⟩ := sameLists_activateIdle hstopped
        exact hdestroyed.congr rfl rfl
      · cases hstopped
        exact hdestroyed.congr rfl rfl
  | timer n clock =>
    have htimer : self.timer n clock = some next := hnext
    obtain ⟨request, hrequest, rfl⟩ := exists_of_timer htimer
    obtain ⟨hreqevents, -, huntimed⟩ := timer_poll h.scheduled hrequest htimer
    exact hcovers.congr huntimed hreqevents
  | reply n clock =>
    obtain ⟨request, hrequest, rfl⟩ := exists_of_reply hnext
    obtain ⟨hgone, -⟩ := gone_reply h hrequest hnext
    exact hgone.covers_of_removable h hrequest (fun hs => horderly request hrequest hs rfl) hcovers
  | purge n clock =>
    simp only [step] at hnext
    split at hnext
    · cases hnext
    · next request hfind =>
      obtain ⟨hrequest, rfl⟩ := mem_of_findKey hfind
      have hself : Polling { self with
          monitor := update self.monitor request.thread none } :=
        kept_polling.congr h ⟨_, _, _, _, rfl⟩
      obtain ⟨hgone, -⟩ := gone_destroy hself hrequest hnext
      exact hgone.covers_of_removable hself hrequest
        (fun hs => horderly request hrequest hs rfl) (hcovers.congr rfl rfl)
  | replyErrorToAll _ clock =>
    exact (covers_replyErrorToAll h (hcovers.mono fun _ => And.left) hnext).1
  | closeTheSocket n clock => exact covers_closeTheSocket h hcovers hnext
  | destroySocket _ clock => exact covers_destroySocket h (hcovers.mono fun _ => And.left) hnext

def polledFor (self : OsThread) (socket : Nat) : PollEvents := (self.pollset socket).getD {}

theorem polledFor_eq (h : PollSet self) (socket : Nat) :
    self.polledFor socket = self.reqevents socket := by
  unfold polledFor
  rw [h socket]
  split
  · rfl
  · next hany => exact (PollEvents.eq_of_not_any hany).symm

theorem asks_pollin_iff (h : request.Takes) : request.asks.pollin ↔
      request.isInput ∨ request.type = .monitor ∧ request.inputEvent.isSome := by
  unfold SocketRequest.Takes at h
  cases htype : request.type <;>
    simp_all [isInput, asks, RequestType.Takes]

theorem asks_pollout_iff (h : request.Takes) : request.asks.pollout ↔
      request.isOutput ∨ request.type = .monitor ∧ request.outputEvent.isSome := by
  unfold SocketRequest.Takes at h
  cases htype : request.type <;>
    simp_all [isOutput, asks, RequestType.Takes]

/-- In each list the outputs come first, and behind a close there is nothing but inputs from before.
A socket is polled for nothing that its requests do not ask for, and for all that they ask for as
long as no request has been removed from it that another one depends on. -/
theorem polled_run {events : List Event} {os : OsThread} (hrun : run step {} events = some os)
    (hlegal : Along step Legal {} events) (socket thread : Nat) :
    (os.listOf socket).Pairwise SocketRequest.Before ∧
      ((os.polledFor socket).pollin → ∃ request ∈ os.listOf socket,
        request.isInput ∨ request.type = .monitor ∧ request.inputEvent.isSome) ∧
      ((os.polledFor socket).pollout → ∃ request ∈ os.listOf socket,
        request.isOutput ∨ request.type = .monitor ∧ request.outputEvent.isSome) ∧
      (Along step (Orderly socket) {} events → ∀ request ∈ os.listOf socket,
        (request.isInput ∨ request.type = .monitor ∧ request.inputEvent.isSome →
          (os.polledFor socket).pollin) ∧
        (request.isOutput ∨ request.type = .monitor ∧ request.outputEvent.isSome →
          (os.polledFor socket).pollout)) ∧
      os.pendingCount thread =
        os.requests.countP (fun request => request.blocks && request.thread == thread) +
          os.timerRequestList.countP
            (fun request => request.blocks && request.thread == thread) := by
  have hpolling : Polling os :=
    run_invariant (fun _ _ _ h hlegal hstep => polling_step h hlegal hstep) polling_new hlegal hrun
  rw [polledFor_eq hpolling.pollset]
  refine ⟨?_, fun hin => ?_, fun hout => ?_, fun horderly request hrequest => ?_,
    hpolling.scheduled.pending thread⟩
  · have hplaced : Placed (os.listOf socket) := hpolling.polled.placed.sublist filter_sublist
    refine hplaced.imp_of_mem fun ha hb hbefore => ?_
    exact hbefore ((mem_listOf.mp ha).2.trans (mem_listOf.mp hb).2.symm)
  · obtain ⟨request, hrequest, hsocket, hasks⟩ := hpolling.polled.pollin socket hin
    exact ⟨request, mem_listOf.mpr ⟨hrequest, hsocket⟩,
      (asks_pollin_iff (hpolling.polled.takes request hrequest)).mp hasks⟩
  · obtain ⟨request, hrequest, hsocket, hasks⟩ := hpolling.polled.pollout socket hout
    exact ⟨request, mem_listOf.mpr ⟨hrequest, hsocket⟩,
      (asks_pollout_iff (hpolling.polled.takes request hrequest)).mp hasks⟩
  · have hcovers : Polling os ∧ os.Covers fun s => s = socket := by
      refine run_invariant (I := fun os => Polling os ∧ os.Covers fun s => s = socket)
        (fun _ _ _ h hok hstep => ?_) ⟨polling_new, ?_⟩ (along_and hlegal horderly) hrun
      · exact ⟨polling_step h.1 hok.1 hstep, covers_step h.1 h.2 hok.1 hok.2 hstep⟩
      · intro request hrequest
        cases hrequest
    obtain ⟨hmem, rfl⟩ := mem_listOf.mp hrequest
    have htakes := hpolling.polled.takes request hmem
    have hincludes := hcovers.2 request hmem rfl
    exact ⟨fun hin => hincludes.1 ((asks_pollin_iff htakes).mpr hin),
      fun hout => hincludes.2 ((asks_pollout_iff htakes).mpr hout)⟩

/-- Two threadlets read from a socket, and the first one is done. -/
theorem polled_run_sample : ∃ os, run step {}
    [.input false 1 7 0 none 0, .input false 2 7 0 none 0, .reply 0 0] = some os ∧
      (os.polledFor 7).pollin ∧ os.pendingCount 2 = 1 := by
  refine ⟨_, rfl, ?_, ?_⟩
  · have hcovered := (@polled_run [.input false 1 7 0 none 0, .input false 2 7 0 none 0,
      .reply 0 0] _ rfl (by decide) 7 2).2.2.2.1 (by decide)
    exact (hcovered ⟨1, 2, .read, 7, none, none, 0, none⟩ (by decide)).1 (.inl rfl)
  · exact (@polled_run [.input false 1 7 0 none 0, .input false 2 7 0 none 0, .reply 0 0] _ rfl
      (by decide) 7 2).2.2.2.2

/-- An input from before stays behind a close. When the second of two threadlets that read from a
socket is destroyed, the socket is no longer polled. -/
theorem not_polled_for_read :
    (∃ os, run step {} [.input false 1 7 0 none 0, .output false 2 7 0 none 0,
      .close 3 7 0 none .again 0] = some os ∧ (os.listOf 7).map type = [.write, .close, .read]) ∧
    ∃ os, run step {} [.input false 1 7 0 none 0, .input false 2 7 0 none 0, .purge 1 0] = some os ∧
      (os.listOf 7).map type = [.read] ∧ (os.polledFor 7).pollin = false :=
  ⟨⟨_, rfl, rfl⟩, _, rfl, rfl, rfl⟩

end OsThread

end OpenAmq
