import OpenAmq.Agent.Gate
import Mathlib.Data.List.Count

/-!
# The channel of a connection

Requests about the channel wait for the connection thread, which asserts what was true when they
were queued. Two things break that: the client's `channel.close-ok`, which destroys the channel at
once whoever is closing it, and an error for a channel that will be gone when its turn comes.

* `Timely` — neither of them happens
* `step_channelInv` — what one step keeps
* `channel_holds` — no assertion fails, and everything is answered once
-/

namespace OpenAmq

open List

namespace Agent

/-! ## Requests about the channel -/

def Request.isChannel : Request → Bool
  | .sendChannelOpenOk | .sendChannelCloseOk | .channelError _ => true
  | _ => false

def channelRequests (self : Agent) : List Request := self.requests.filter Request.isChannel

/-- The connection thread is on its way out. -/
def Phase.isEnding : Phase → Bool
  | .closeTheConnection | .ended => true
  | _ => false

/-- The connection thread will come to its requests, as nothing has been raised for it. -/
def IsLive (self : Agent) : Prop :=
  self.aborted = none ∧ self.exception = none ∧ self.phase.isEnding = false

instance decidableIsLive (self : Agent) : Decidable self.IsLive :=
  inferInstanceAs (Decidable (_ ∧ _ ∧ _))

/--
While the connection thread comes to its requests, `channel.open` comes when the connection has
been opened, `channel.close-ok` when nothing about the channel waits, and errors only for the
channel that there is, and not behind a `close-ok` to send.
-/
def Timely (self : Agent) : Event → Prop
  | .receive frameChannel method => frameChannel = 1 → self.IsLive →
    self.input = .haveIncomingMethod →
    match method with
    | .channelOpen _ => self.phase = .initialiseConnection → .connectionOpen ∈ self.requests
    | .channelCloseOk => self.channelState = .closing → self.channelRequests = []
    | _ => True
  | .channelError channel => self.IsLive →
    self.channel = some channel ∧ .sendChannelCloseOk ∉ self.requests
  | _ => True

instance decidableTimely (self : Agent) : (event : Event) → Decidable (self.Timely event)
  | .receive frameChannel method =>
    match method with
    | .channelOpen _ => inferInstanceAs (Decidable (frameChannel = 1 → self.IsLive →
        self.input = .haveIncomingMethod → self.phase = .initialiseConnection →
        .connectionOpen ∈ self.requests))
    | .channelCloseOk => inferInstanceAs (Decidable (frameChannel = 1 → self.IsLive →
        self.input = .haveIncomingMethod → self.channelState = .closing →
        self.channelRequests = []))
    | .connectionStartOk _ _ | .connectionTuneOk | .connectionOpen _ _ | .connectionClose
    | .connectionCloseOk | .connectionOther | .channelClose _ | .channelFlow _ | .channelFlowOk _
    | .channelOther | .functional _ => isTrue fun _ _ _ => trivial
  | .channelError channel => inferInstanceAs (Decidable (self.IsLive →
      self.channel = some channel ∧ .sendChannelCloseOk ∉ self.requests))
  | .inputError | .inputAbort | .peerDead | .connectionThread | .connectionError
  | .killConnection | .shutdown | .send _ | .setupTimeout | .closeTimeout => isTrue trivial

/--
Each `channel.open` and `channel.close` that has been accepted has been answered once, or its only
answer waits. No error has closed another channel than its own, and no request about the channel
has come in a state that does not have it.
-/
structure Answers (self : Agent) : Prop where
  opens : self.log.count .openOkSent ≤ self.log.count .channelOpen
  closes : self.log.count .closeOkSent ≤ self.log.count .channelClose
  waiting : self.IsLive → self.log.count .openOkSent + self.requests.count .sendChannelOpenOk =
        self.log.count .channelOpen ∧
      self.log.count .closeOkSent + self.requests.count .sendChannelCloseOk =
        self.log.count .channelClose ∧
      self.requests.count .sendChannelOpenOk + self.requests.count .sendChannelCloseOk ≤ 1
  errors : ∀ error channel, .closeSent error channel ∈ self.log → error = channel
  recognised : ∀ request, self.aborted = some (.request request) → request.isChannel = false

/-! ## What waits for the channel -/

/-- What waits for the channel in each of its states, as long as the connection goes on. -/
inductive Waiting : ChannelState → Option Nat → List Request → Prop
  | closed : Waiting .closed none []
  | opening (channel errors : Nat) :
    Waiting .opening (some channel) (.sendChannelOpenOk :: replicate errors (.channelError channel))
  | opened (channel errors : Nat) :
    Waiting .opened (some channel) (replicate errors (.channelError channel))
  /-- `channel.close` has been sent, and its answer has not come. -/
  | closing (channel errors : Nat) :
    Waiting .closing (some channel) (replicate errors (.channelError channel))
  /-- `channel.close` has come, and its answer has not been sent. -/
  | closeOk (channel errors : Nat) :
    Waiting .closing (some channel)
      (replicate errors (.channelError channel) ++ [.sendChannelCloseOk])

variable {channel : Option Nat} {state : ChannelState} {rest : List Request} {next : Agent}

variable {requests : List Request}

theorem Waiting.closed_eq (h : Waiting .closed channel requests) :
    requests = [] := by
  cases h
  rfl

theorem Waiting.opened_eq (h : Waiting .opened channel requests) :
    ∃ c errors, channel = some c ∧ requests = replicate errors (.channelError c) := by
  cases h with
  | opened c errors => exact ⟨c, errors, rfl, rfl⟩

theorem Waiting.openOk_eq (h : Waiting state channel requests)
    (hrequests : requests = .sendChannelOpenOk :: rest) :
    state = .opening ∧
      ∃ c errors, channel = some c ∧ rest = replicate errors (.channelError c) := by
  cases h with
  | closed => cases hrequests
  | opening c errors =>
    cases hrequests
    exact ⟨rfl, c, errors, rfl, rfl⟩
  | opened c errors | closing c errors | closeOk c errors => cases errors <;> cases hrequests

theorem Waiting.closeOk_eq (h : Waiting state channel requests)
    (hrequests : requests = .sendChannelCloseOk :: rest) : state = .closing ∧ rest = [] := by
  cases h with
  | closed | opening c errors => cases hrequests
  | opened c errors | closing c errors => cases errors <;> cases hrequests
  | closeOk c errors =>
    cases errors with
    | zero =>
      cases hrequests
      exact ⟨rfl, rfl⟩
    | succ errors => cases hrequests

theorem Waiting.error_eq {error : Nat}
    (h : Waiting state channel requests) (hrequests : requests = .channelError error :: rest) :
    channel = some error ∧
      (state = .opened → ∃ errors, rest = replicate errors (.channelError error)) := by
  cases h with
  | closed | opening c errors => cases hrequests
  | opened c errors =>
    cases errors with
    | zero => cases hrequests
    | succ errors =>
      cases hrequests
      exact ⟨rfl, fun _ => ⟨errors, rfl⟩⟩
  | closing c errors | closeOk c errors =>
    cases errors with
    | zero => cases hrequests
    | succ errors =>
      cases hrequests
      exact ⟨rfl, nofun⟩

theorem Waiting.error {channel : Nat}
    (h : Waiting state (some channel) requests) (hnot : .sendChannelCloseOk ∉ requests) :
    Waiting state (some channel) (requests ++ [.channelError channel]) := by
  cases h with
  | opening _ errors =>
    rw [cons_append, ← replicate_succ']
    exact .opening channel (errors + 1)
  | opened _ errors =>
    rw [← replicate_succ']
    exact .opened channel (errors + 1)
  | closing _ errors =>
    rw [← replicate_succ']
    exact .closing channel (errors + 1)
  | closeOk _ errors => exact absurd (mem_append_right _ mem_cons_self) hnot

def Entry.isChannel : Entry → Bool
  | .channelOpen | .openOkSent | .channelClose | .closeOkSent | .closeSent _ _ => true
  | _ => false

def channelLog (self : Agent) : List Entry := self.log.filter Entry.isChannel

/-- Every answer that is due and has not been sent waits. -/
structure Balanced (entries : List Entry) (requests : List Request) : Prop where
  opens : entries.count .openOkSent + requests.count .sendChannelOpenOk = entries.count .channelOpen
  closes : entries.count .closeOkSent + requests.count .sendChannelCloseOk =
    entries.count .channelClose

/-- Nothing has been answered twice, and no error has closed another channel. -/
structure Answered (entries : List Entry) : Prop where
  opens : entries.count .openOkSent ≤ entries.count .channelOpen
  closes : entries.count .closeOkSent ≤ entries.count .channelClose
  errors : ∀ error channel, .closeSent error channel ∈ entries → error = channel

/-- What holds as long as the connection thread comes to its requests. -/
structure LiveInv (agent : Agent) : Prop where
  raised : agent.exceptionRaised = false
  waiting : Waiting agent.channelState agent.channel agent.channelRequests
  sending : ∀ frames, agent.phase = .sendContentBody frames → agent.channelState = .opened ∨
    (agent.channelState = .closing ∧ agent.channelRequests ≠ [])
  toOpen : agent.phase = .initialiseConnection → agent.channelState ≠ .closed →
    .connectionOpen ∈ agent.requests
  behind : agent.phase = .initialiseConnection → ∀ before request after,
    agent.requests = before ++ request :: after → request.isChannel → .connectionOpen ∈ before
  balanced : Balanced agent.channelLog agent.channelRequests

structure ChannelInv (agent : Agent) : Prop where
  object : agent.channelState = .closed ↔ agent.channel = none
  answered : Answered agent.channelLog
  recognised : ∀ request, agent.aborted = some (.request request) → request.isChannel = false
  live : agent.IsLive → LiveInv agent

theorem start_channelInv : ChannelInv start where
  object := ⟨fun _ => rfl, fun _ => rfl⟩
  answered := ⟨Nat.le_refl _, Nat.le_refl _, nofun⟩
  recognised := nofun
  live _ :=
    { raised := rfl
      waiting := .closed
      sending := nofun
      toOpen := fun _ h => absurd rfl h
      behind := fun _ before request after h => by
        have hlen := congrArg length h
        rw [length_append] at hlen
        cases hlen
      balanced := ⟨rfl, rfl⟩ }

/-! ### What is accepted and answered -/

section Entries

variable {entries : List Entry} {requests : List Request}

theorem Balanced.open (h : Balanced entries requests) :
    Balanced (entries ++ [.channelOpen]) (requests ++ [.sendChannelOpenOk]) where
  opens := by simpa [← Nat.add_assoc] using h.opens
  closes := by simpa using h.closes

theorem Balanced.close (h : Balanced entries requests) :
    Balanced (entries ++ [.channelClose]) (requests ++ [.sendChannelCloseOk]) where
  opens := by simpa using h.opens
  closes := by simpa [← Nat.add_assoc] using h.closes

theorem Balanced.error (h : Balanced entries requests) (channel : Nat) :
    Balanced entries (requests ++ [.channelError channel]) where
  opens := by simpa using h.opens
  closes := by simpa using h.closes

theorem Balanced.openOk (h : Balanced entries (.sendChannelOpenOk :: requests)) :
    Balanced (entries ++ [.openOkSent]) requests where
  opens := by
    have hopens := h.opens
    simp at hopens ⊢
    omega
  closes := by simpa using h.closes

theorem Balanced.closeOk (h : Balanced entries (.sendChannelCloseOk :: requests)) :
    Balanced (entries ++ [.closeOkSent]) requests where
  opens := by simpa using h.opens
  closes := by
    have hcloses := h.closes
    simp at hcloses ⊢
    omega

theorem Balanced.closeSent {waiting : Nat}
    (h : Balanced entries (.channelError waiting :: requests)) (error channel : Nat) :
    Balanced (entries ++ [.closeSent error channel]) requests where
  opens := by simpa using h.opens
  closes := by simpa using h.closes

theorem Balanced.answered (h : Balanced entries requests)
    (herrors : ∀ error channel, .closeSent error channel ∈ entries → error = channel) :
    Answered entries where
  opens := h.opens ▸ Nat.le_add_right _ _
  closes := h.closes ▸ Nat.le_add_right _ _
  errors := herrors

theorem Answered.errors_append (h : Answered entries) {last : Entry}
    (hlast : ∀ error channel, .closeSent error channel = last → error = channel) :
    ∀ error channel, .closeSent error channel ∈ entries ++ [last] → error = channel := by
  intro error channel hmem
  rcases mem_append.mp hmem with hmem | hmem
  · exact h.errors error channel hmem
  · exact hlast error channel (mem_singleton.mp hmem)

theorem Answered.open (h : Answered entries) : Answered (entries ++ [.channelOpen]) where
  opens := by simpa using Nat.le_succ_of_le h.opens
  closes := by simpa using h.closes
  errors := h.errors_append nofun

theorem Answered.close (h : Answered entries) : Answered (entries ++ [.channelClose]) where
  opens := by simpa using h.opens
  closes := by simpa using Nat.le_succ_of_le h.closes
  errors := h.errors_append nofun

end Entries

variable {self : Agent}

theorem LiveInv.ne_closed (h : LiveInv self) {frames : Nat}
    (hphase : self.phase = .sendContentBody frames) : self.channelState ≠ .closed := by
  intro hclosed
  rcases h.sending frames hphase with hstate | ⟨hstate, -⟩
  · rw [hclosed] at hstate
    cases hstate
  · rw [hclosed] at hstate
    cases hstate

theorem ChannelInv.not_isLive (h : ChannelInv self)
    (hraised : self.exceptionRaised = true) : ¬ self.IsLive := by
  intro hlive
  have hnot := (h.live hlive).raised
  rw [hraised] at hnot
  cases hnot

/-! ### What changes nothing about the channel -/

theorem ChannelInv.congr (h : ChannelInv self)
    (hlog : next.channelLog = self.channelLog) (hrequests : next.requests = self.requests)
    (hstate : next.channelState = self.channelState) (hchannel : next.channel = self.channel)
    (haborted : next.aborted = self.aborted)
    (hlive : next.IsLive → self.IsLive ∧ next.phase = self.phase ∧ next.exceptionRaised = false) :
    ChannelInv next := by
  have hwaiting : next.channelRequests = self.channelRequests := by
    rw [channelRequests, hrequests, channelRequests]
  refine ⟨?_, hlog ▸ h.answered, haborted ▸ h.recognised, ?_⟩
  · rw [hstate, hchannel]
    exact h.object
  · intro hnext
    obtain ⟨hself, hphase, hraised⟩ := hlive hnext
    have hinv := h.live hself
    exact
      { raised := hraised
        waiting := by rw [hstate, hchannel, hwaiting]; exact hinv.waiting
        sending := by rw [hphase, hstate, hwaiting]; exact hinv.sending
        toOpen := by rw [hphase, hstate, hrequests]; exact hinv.toOpen
        behind := by rw [hphase, hrequests]; exact hinv.behind
        balanced := by rw [hlog, hwaiting]; exact hinv.balanced }

theorem ChannelInv.quiet (h : ChannelInv self) (hq : Quiet self next)
    (hlive : next.IsLive → self.exception = none ∧ next.exceptionRaised = false) :
    ChannelInv next := by
  have hlog : next.channelLog = self.channelLog := by rw [channelLog, hq.log, channelLog]
  refine h.congr hlog hq.requests hq.channelState hq.channel hq.aborted fun hnext => ?_
  have hphase : next.phase = self.phase := by
    rcases hq.phase with hphase | hphase | hphase
    · exact hphase
    · have hending := hnext.2.2
      rw [hphase] at hending
      cases hending
    · have hending := hnext.2.2
      rw [hphase] at hending
      cases hending
  refine ⟨⟨?_, (hlive hnext).1, ?_⟩, hphase, (hlive hnext).2⟩
  · rw [← hq.aborted]
    exact hnext.1
  · rw [← hphase]
    exact hnext.2.2

theorem ChannelInv.ends (h : ChannelInv self)
    (hlog : next.channelLog = self.channelLog)
    (hobject : next.channelState = .closed ↔ next.channel = none)
    (haborted : next.aborted = self.aborted) (hends : ¬ next.IsLive) : ChannelInv next :=
  ⟨hobject, hlog ▸ h.answered, haborted ▸ h.recognised, fun hlive => absurd hlive hends⟩

theorem not_isLive_of_exception {exception : ThreadException}
    (h : self.exception = some exception) : ¬ self.IsLive := by
  intro hlive
  have hnone := hlive.2.1
  rw [h] at hnone
  cases hnone

theorem not_isLive_of_isEnding (h : self.phase.isEnding) : ¬ self.IsLive := by
  intro hlive
  have hnot := hlive.2.2
  rw [h] at hnot
  cases hnot

theorem channelLog_record (self : Agent) (entry : Entry) : (self.record entry).channelLog =
      if entry.isChannel then self.channelLog ++ [entry] else self.channelLog := by
  show (self.log ++ [entry]).filter _ = _
  rw [filter_append, filter_singleton]
  cases entry.isChannel with
  | false => exact append_nil _
  | true => rfl

theorem channelRequests_request (self : Agent) (request : Request) :
    (self.request request).channelRequests =
      if request.isChannel then self.channelRequests ++ [request] else self.channelRequests := by
  show (self.requests ++ [request]).filter _ = _
  rw [filter_append, filter_singleton]
  cases request.isChannel with
  | false => exact append_nil _
  | true => rfl

theorem ChannelInv.record (h : ChannelInv self) (entry : Entry)
    (hentry : entry.isChannel = false) : ChannelInv (self.record entry) := by
  have hlog : (self.record entry).channelLog = self.channelLog := by
    rw [channelLog_record, hentry]
    rfl
  exact h.congr hlog rfl rfl rfl rfl fun hlive => ⟨hlive, rfl, (h.live hlive).raised⟩

theorem ChannelInv.request (h : ChannelInv self) (request : Request)
    (hrequest : request.isChannel = false) : ChannelInv (self.request request) := by
  have hwaiting : (self.request request).channelRequests = self.channelRequests := by
    rw [channelRequests_request, hrequest]
    rfl
  refine ⟨h.object, h.answered, h.recognised, fun hlive => ?_⟩
  have hinv := h.live hlive
  exact
    { raised := hinv.raised
      waiting := by rw [hwaiting]; exact hinv.waiting
      sending := by rw [hwaiting]; exact hinv.sending
      toOpen := fun hphase hstate => mem_append_left _ (hinv.toOpen hphase hstate)
      behind := fun hphase => Lib.forall_split_append (hinv.behind hphase) fun hchannel => by
        rw [hrequest] at hchannel
        cases hchannel
      balanced := by rw [hwaiting]; exact hinv.balanced }

/-! ## The input thread -/

theorem connectionException_channelInv (h : ChannelInv self) :
    ChannelInv self.connectionException :=
  h.ends rfl h.object rfl (not_isLive_of_exception rfl)

theorem asyncConnectionError_channelInv (h : ChannelInv self) :
    ChannelInv self.asyncConnectionError :=
  h.quiet (asyncConnectionError_quiet self) fun hlive => ⟨hlive.2.1, (h.live hlive).raised⟩

theorem executeHandler_channelInv (h : ChannelInv self) (raises : Bool) :
    ChannelInv (self.executeMethod (handler raises) id) := by
  rcases executeMethod_cases self (handler raises) id with ⟨-, he⟩ | he | ⟨hraised, he⟩
  · rw [he]
    exact asyncConnectionError_channelInv h
  · rw [he]
    exact h.ends rfl h.object rfl (not_isLive_of_exception rfl)
  · rw [he]
    exact h.quiet (handler_quiet self raises) fun hlive => ⟨hlive.2.1, hraised⟩

variable {config : LoginConfig}

theorem connectionMethod_channelInv (h : ChannelInv self) (method : ClientMethod) :
    ChannelInv (self.connectionMethod config method) := by
  unfold connectionMethod
  split
  · next response undefined =>
    rcases executeMethod_cases self (startOk config · response undefined) fun self =>
      (self.request .connectionStartOk).record (.startOk response) with
      ⟨-, he⟩ | he | ⟨hraised, he⟩
    · rw [he]
      exact asyncConnectionError_channelInv h
    · rw [he]
      exact h.ends rfl h.object rfl (not_isLive_of_exception rfl)
    · rw [he]
      have hexecuted : ChannelInv (startOk config self response undefined) :=
        h.congr rfl rfl rfl rfl rfl fun hlive => ⟨hlive, rfl, hraised⟩
      exact (hexecuted.request .connectionStartOk rfl).record (.startOk response) rfl
  · rcases executeMethod_cases self id fun self =>
      (self.request .connectionTuneOk).record .tuneOk with ⟨-, he⟩ | he | ⟨-, he⟩
    · rw [he]
      exact asyncConnectionError_channelInv h
    · rw [he]
      exact connectionException_channelInv h
    · rw [he]
      exact (h.request .connectionTuneOk rfl).record .tuneOk rfl
  · next virtualHost broker =>
    have hquiet := openConnection_quiet config self virtualHost broker
    rcases executeMethod_cases self (openConnection config · virtualHost broker) fun self =>
      (self.request .connectionOpen).record .open with ⟨-, he⟩ | he | ⟨hraised, he⟩
    · rw [he]
      exact asyncConnectionError_channelInv h
    · rw [he]
      have hlog : (openConnection config self virtualHost broker).channelLog = self.channelLog := by
        rw [channelLog, hquiet.log, channelLog]
      refine h.ends hlog ?_ hquiet.aborted (not_isLive_of_exception rfl)
      show (openConnection config self virtualHost broker).channelState = _ ↔
        (openConnection config self virtualHost broker).channel = _
      rw [hquiet.channelState, hquiet.channel]
      exact h.object
    · rw [he, openConnection_eq hraised]
      exact (h.request .connectionOpen rfl).record .open rfl
  · exact h.ends rfl h.object rfl (not_isLive_of_exception rfl)
  · exact (h.request .connectionCloseOk rfl).quiet ⟨rfl, rfl, rfl, rfl, rfl, rfl, nofun, .inl rfl⟩
      fun hlive => ⟨hlive.2.1, (h.live hlive).raised⟩
  · exact connectionException_channelInv h

theorem ChannelInv.accepted (h : ChannelInv self)
    (hclosed : self.channelState = .closed) (channel nextChannel : Nat)
    (hok : self.IsLive → self.phase = .initialiseConnection → .connectionOpen ∈ self.requests) :
    ChannelInv (({ self with
        channel := some channel
        nextChannel := nextChannel
        channelState := .opening }.request .sendChannelOpenOk).record .channelOpen) := by
  have hlog : (self.record .channelOpen).channelLog = self.channelLog ++ [.channelOpen] :=
    channelLog_record self .channelOpen
  have hwaiting : (self.request .sendChannelOpenOk).channelRequests =
      self.channelRequests ++ [.sendChannelOpenOk] :=
    channelRequests_request self .sendChannelOpenOk
  refine ⟨⟨nofun, nofun⟩, hlog ▸ h.answered.open, h.recognised, fun hlive => ?_⟩
  have hinv := h.live hlive
  have hnone : self.channelRequests = [] := (hclosed ▸ hinv.waiting).closed_eq
  refine ⟨hinv.raised, ?_, ?_, ?_, ?_, ?_⟩
  · show Waiting .opening (some channel) (self.request .sendChannelOpenOk).channelRequests
    rw [hwaiting, hnone]
    exact .opening channel 0
  · exact fun frames hphase => absurd hclosed (hinv.ne_closed hphase)
  · exact fun hphase _ => mem_append_left _ (hok hlive hphase)
  · intro hphase
    exact Lib.forall_split_append (hinv.behind hphase) fun _ => hok hlive hphase
  · show Balanced (self.record .channelOpen).channelLog
      (self.request .sendChannelOpenOk).channelRequests
    rw [hlog, hwaiting]
    exact hinv.balanced.open

theorem channelOpen_channelInv (h : ChannelInv self) (raises : Bool)
    (hok : self.IsLive → self.phase = .initialiseConnection → .connectionOpen ∈ self.requests) :
    ChannelInv (self.channelOpen raises) := by
  unfold channelOpen
  split
  · next hclosed =>
    rcases executeMethod_cases { self with
        channel := some self.nextChannel
        nextChannel := self.nextChannel + 1
        channelState := .opening } (handler raises) fun self =>
      (self.request .sendChannelOpenOk).record .channelOpen with
      ⟨hraised, he⟩ | he | ⟨hraised, he⟩
    · rw [he]
      exact h.ends rfl ⟨nofun, nofun⟩ rfl (h.not_isLive hraised)
    · rw [he]
      exact h.ends rfl ⟨nofun, nofun⟩ rfl (not_isLive_of_exception rfl)
    · rw [he]
      have hexecuted : ChannelInv (handler raises self) :=
        h.quiet (handler_quiet self raises) fun hlive => ⟨hlive.2.1, hraised⟩
      exact hexecuted.accepted hclosed self.nextChannel (self.nextChannel + 1) hok
  · exact connectionException_channelInv h

theorem ChannelInv.isNone_eq_false (h : ChannelInv self)
    (hstate : self.channelState ≠ .closed) : self.channel.isNone = false := by
  cases hnone : self.channel with
  | none => exact absurd (h.object.mpr hnone) hstate
  | some channel => rfl

theorem ChannelInv.closed (h : ChannelInv self)
    (hopened : self.channelState = .opened) :
    ChannelInv (({ self with channelState := .closing }.request .sendChannelCloseOk).record
      .channelClose) := by
  have hlog : (self.record .channelClose).channelLog = self.channelLog ++ [.channelClose] :=
    channelLog_record self .channelClose
  have hwaiting : (self.request .sendChannelCloseOk).channelRequests =
      self.channelRequests ++ [.sendChannelCloseOk] :=
    channelRequests_request self .sendChannelCloseOk
  have hchannel : self.channel ≠ none := fun hnone => by
    rw [h.object.mpr hnone] at hopened
    cases hopened
  refine ⟨⟨nofun, fun hnone => absurd hnone hchannel⟩, hlog ▸ h.answered.close, h.recognised,
    fun hlive => ?_⟩
  have hinv := h.live hlive
  have htoOpen : self.phase = .initialiseConnection → .connectionOpen ∈ self.requests := by
    intro hphase
    refine hinv.toOpen hphase ?_
    rw [hopened]
    exact nofun
  refine ⟨hinv.raised, ?_, ?_, ?_, ?_, ?_⟩
  · obtain ⟨channel, errors, hsome, hrequests⟩ := (hopened ▸ hinv.waiting).opened_eq
    show Waiting .closing self.channel (self.request .sendChannelCloseOk).channelRequests
    rw [hwaiting, hsome, hrequests]
    exact .closeOk channel errors
  · intro frames _
    refine .inr ⟨rfl, ?_⟩
    show (self.request .sendChannelCloseOk).channelRequests ≠ []
    rw [hwaiting]
    exact append_ne_nil_of_right_ne_nil _ (cons_ne_nil _ _)
  · exact fun hphase _ => mem_append_left _ (htoOpen hphase)
  · intro hphase
    exact Lib.forall_split_append (hinv.behind hphase) fun _ => htoOpen hphase
  · show Balanced (self.record .channelClose).channelLog
      (self.request .sendChannelCloseOk).channelRequests
    rw [hlog, hwaiting]
    exact hinv.balanced.close

theorem channelClose_channelInv (h : ChannelInv self) (raises : Bool) :
    ∃ next, self.channelClose raises = some next ∧ ChannelInv next := by
  unfold channelClose
  split
  · next hopened =>
    rw [h.isNone_eq_false (by rw [hopened]; exact nofun)]
    refine ⟨_, rfl, ?_⟩
    have hobject : ChannelState.closing = .closed ↔ self.channel = none := by
      rw [← h.object, hopened]
      exact ⟨nofun, nofun⟩
    rcases executeMethod_cases { self with channelState := .closing } (handler raises) fun self =>
      (self.request .sendChannelCloseOk).record .channelClose with
      ⟨hraised, he⟩ | he | ⟨hraised, he⟩
    · rw [he]
      exact h.ends rfl hobject rfl (h.not_isLive hraised)
    · rw [he]
      exact h.ends rfl hobject rfl (not_isLive_of_exception rfl)
    · rw [he]
      have hexecuted : ChannelInv (handler raises self) :=
        h.quiet (handler_quiet self raises) fun hlive => ⟨hlive.2.1, hraised⟩
      exact hexecuted.closed hopened
  · exact ⟨_, rfl, connectionException_channelInv h⟩

theorem channelCloseOk_channelInv (h : ChannelInv self)
    (hok : self.IsLive → self.channelState = .closing → self.channelRequests = []) :
    ChannelInv self.channelCloseOk := by
  unfold channelCloseOk
  split
  · next hclosing =>
    refine ⟨⟨fun _ => rfl, fun _ => rfl⟩, h.answered, h.recognised, fun hlive => ?_⟩
    have hinv := h.live hlive
    have hnone : self.channelRequests = [] := hok hlive hclosing
    refine ⟨hinv.raised, ?_, ?_, fun _ hstate => absurd rfl hstate, hinv.behind, hinv.balanced⟩
    · show Waiting .closed none self.channelRequests
      rw [hnone]
      exact .closed
    · intro frames hphase
      rcases hinv.sending frames hphase with hstate | ⟨-, hrequests⟩
      · rw [hclosing] at hstate
        cases hstate
      · exact absurd hnone hrequests
  · exact connectionException_channelInv h

theorem channelFlow_channelInv (h : ChannelInv self) (raises : Bool) :
    ∃ next, self.channelFlow raises = some next ∧ ChannelInv next := by
  unfold channelFlow
  split
  · next hopened =>
    rw [h.isNone_eq_false (by rw [hopened]; exact nofun)]
    exact ⟨_, rfl, executeHandler_channelInv h raises⟩
  · exact ⟨_, rfl, connectionException_channelInv h⟩

theorem functional_channelInv (h : ChannelInv self) (frameChannel : Nat)
    (raises : Bool) :
    ∃ next, self.functional frameChannel raises = some next ∧ ChannelInv next := by
  unfold functional
  split
  · exact ⟨_, rfl, asyncConnectionError_channelInv h⟩
  split
  · exact ⟨_, rfl, connectionException_channelInv h⟩
  split
  · next hopened =>
    rw [h.isNone_eq_false (by rw [hopened]; exact nofun)]
    exact ⟨_, rfl, executeHandler_channelInv (h.record .functional rfl) raises⟩
  · exact ⟨self, rfl, h⟩

theorem receive_channelInv (h : ChannelInv self) {frameChannel : Nat}
    {method : ClientMethod} (hok : self.Timely (.receive frameChannel method)) :
    ∃ next, self.receive config frameChannel method = some next ∧ ChannelInv next := by
  unfold receive
  split
  · next hinput =>
    unfold incomingMethod
    split
    · exact functional_channelInv h frameChannel _
    split
    · split
      · exact ⟨_, rfl, connectionException_channelInv h⟩
      · exact ⟨_, rfl, connectionMethod_channelInv h _⟩
    split
    · exact ⟨_, rfl, connectionException_channelInv h⟩
    next hframe =>
    replace hframe : frameChannel = 1 := not_not.mp hframe
    unfold channelMethod
    split
    · exact ⟨_, rfl, channelOpen_channelInv h _ fun hlive => hok hframe hlive hinput⟩
    · exact channelClose_channelInv h _
    · exact ⟨_, rfl, channelCloseOk_channelInv h fun hlive => hok hframe hlive hinput⟩
    · exact channelFlow_channelInv h _
    · exact channelFlow_channelInv h _
    · exact ⟨_, rfl, connectionException_channelInv h⟩
  · split
    · exact ⟨_, rfl, (h.request .connectionCloseOk rfl).quiet
        ⟨rfl, rfl, rfl, rfl, rfl, rfl, nofun, .inl rfl⟩
        fun hlive => ⟨hlive.2.1, (h.live hlive).raised⟩⟩
    · exact ⟨self, rfl, h⟩
  · exact ⟨self, rfl, h⟩

/-! ## The connection thread -/

theorem takeException_channelInv (h : ChannelInv self)
    (exception : ThreadException) : ChannelInv (self.takeException exception) := by
  unfold takeException
  split
  · next hphase =>
    refine h.ends rfl h.object rfl (not_isLive_of_isEnding ?_)
    rw [hphase]
    rfl
  · exact h.ends rfl h.object rfl (not_isLive_of_isEnding rfl)
  · exact h.ends rfl h.object rfl (not_isLive_of_isEnding rfl)
  · exact h.ends rfl h.object rfl (not_isLive_of_isEnding rfl)

theorem raiseConnectionError_channelInv (h : ChannelInv self) :
    ChannelInv self.raiseConnectionError :=
  h.ends rfl h.object rfl (not_isLive_of_exception rfl)

theorem LiveInv.active (hphase : self.phase = .connectionActive)
    (hraised : self.exceptionRaised = false)
    (hwaiting : Waiting self.channelState self.channel self.channelRequests)
    (hbalanced : Balanced self.channelLog self.channelRequests) : LiveInv self where
  raised := hraised
  waiting := hwaiting
  sending frames h := by
    rw [hphase] at h
    cases h
  toOpen h := by
    rw [hphase] at h
    cases h
  behind h := by
    rw [hphase] at h
    cases h
  balanced := hbalanced

section Requests

variable {self : Agent} {request : Request} {requests : List Request}

theorem channelRequests_cons (hrequests : self.requests = request :: requests)
    (hrequest : request.isChannel) :
    self.channelRequests = request :: requests.filter Request.isChannel := by
  rw [channelRequests, hrequests]
  exact filter_cons_of_pos hrequest

theorem channelRequests_tail (hrequests : self.requests = request :: requests)
    (hrequest : request.isChannel = false) :
    requests.filter Request.isChannel = self.channelRequests := by
  rw [channelRequests, hrequests]
  exact (filter_cons_of_neg (Bool.eq_false_iff.mp hrequest)).symm

theorem ChannelInv.tail (h : ChannelInv self) (hrequests : self.requests = request :: requests)
    (hrequest : request.isChannel = false) (hopen : request ≠ .connectionOpen) :
    ChannelInv { self with requests := requests } := by
  refine ⟨h.object, h.answered, h.recognised, fun hlive => ?_⟩
  have hinv := h.live hlive
  have hwaiting := channelRequests_tail hrequests hrequest
  refine ⟨hinv.raised, ?_, ?_, ?_, ?_, ?_⟩
  · show Waiting self.channelState self.channel (requests.filter Request.isChannel)
    rw [hwaiting]
    exact hinv.waiting
  · intro frames hphase
    show _ ∨ _ ∧ requests.filter Request.isChannel ≠ []
    rw [hwaiting]
    exact hinv.sending frames hphase
  · intro hphase hstate
    have hmem := hinv.toOpen hphase hstate
    rw [hrequests] at hmem
    exact mem_of_ne_of_mem hopen.symm hmem
  · intro hphase before other after hsplit hchannel
    have hmem := hinv.behind hphase (request :: before) other after
      (by rw [hrequests, cons_append]; exact congrArg _ hsplit) hchannel
    exact mem_of_ne_of_mem hopen.symm hmem
  · show Balanced self.channelLog (requests.filter Request.isChannel)
    rw [hwaiting]
    exact hinv.balanced

theorem initialise_channelInv (h : ChannelInv self) (hlive : self.IsLive)
    (hphase : self.phase = .initialiseConnection)
    (hrequests : self.requests = request :: requests) :
    ChannelInv ({ self with requests := requests }.initialise request) := by
  have hinv := h.live hlive
  have hnot : request.isChannel = false := by
    by_contra hchannel
    have hmem := hinv.behind hphase [] request requests hrequests (Bool.not_eq_false _ ▸ hchannel)
    cases hmem
  unfold initialise
  split
  · exact h.tail hrequests rfl nofun
  · exact h.tail hrequests rfl nofun
  · have hwaiting := channelRequests_tail hrequests rfl
    have hlog : (self.record .active).channelLog = self.channelLog := channelLog_record self .active
    refine ⟨h.object, hlog ▸ h.answered, h.recognised, fun _ => .active rfl hinv.raised ?_ ?_⟩
    · show Waiting self.channelState self.channel (requests.filter Request.isChannel)
      rw [hwaiting]
      exact hinv.waiting
    · show Balanced (self.record .active).channelLog (requests.filter Request.isChannel)
      rw [hlog, hwaiting]
      exact hinv.balanced
  · exact h.ends rfl h.object rfl (not_isLive_of_isEnding rfl)
  · exact h.ends rfl h.object rfl (not_isLive_of_isEnding rfl)
  · refine ⟨h.object, h.answered, fun other hother => ?_, fun hnext => ?_⟩
    · cases hother
      exact hnot
    · cases hnext.1

theorem sendChannelOpenOk_channelInv (h : ChannelInv self) (hlive : self.IsLive)
    (hphase : self.phase = .connectionActive)
    (hrequests : self.requests = .sendChannelOpenOk :: requests) :
    ∃ next, { self with requests := requests }.sendChannelOpenOk = some next ∧ ChannelInv next := by
  have hinv := h.live hlive
  have hwaiting := channelRequests_cons hrequests rfl
  have hlog : (self.record .openOkSent).channelLog = self.channelLog ++ [.openOkSent] :=
    channelLog_record self .openOkSent
  obtain ⟨hopening, channel, errors, hchannel, hrest⟩ := hinv.waiting.openOk_eq hwaiting
  have hbalanced : Balanced (self.record .openOkSent).channelLog
      (requests.filter Request.isChannel) := by
    have hbefore := hinv.balanced
    rw [hwaiting] at hbefore
    rw [hlog]
    exact hbefore.openOk
  refine ⟨_, if_pos hopening, ⟨?_, ?_, h.recognised, fun _ => ?_⟩⟩
  · show ChannelState.opened = .closed ↔ self.channel = none
    rw [hchannel]
    exact ⟨nofun, nofun⟩
  · exact hbalanced.answered (hlog ▸ h.answered.errors_append nofun)
  · refine .active hphase hinv.raised ?_ hbalanced
    show Waiting .opened self.channel (requests.filter Request.isChannel)
    rw [hchannel, hrest]
    exact .opened channel errors

theorem sendChannelCloseOk_channelInv (h : ChannelInv self) (hlive : self.IsLive)
    (hphase : self.phase = .connectionActive)
    (hrequests : self.requests = .sendChannelCloseOk :: requests) :
    ∃ next, { self with requests := requests }.sendChannelCloseOk = some next ∧
      ChannelInv next := by
  have hinv := h.live hlive
  have hwaiting := channelRequests_cons hrequests rfl
  have hlog : (self.record .closeOkSent).channelLog = self.channelLog ++ [.closeOkSent] :=
    channelLog_record self .closeOkSent
  obtain ⟨hclosing, hrest⟩ := hinv.waiting.closeOk_eq hwaiting
  have hbalanced : Balanced (self.record .closeOkSent).channelLog
      (requests.filter Request.isChannel) := by
    have hbefore := hinv.balanced
    rw [hwaiting] at hbefore
    rw [hlog]
    exact hbefore.closeOk
  refine ⟨_, if_pos hclosing, ⟨⟨fun _ => rfl, fun _ => rfl⟩, ?_, h.recognised, fun _ => ?_⟩⟩
  · exact hbalanced.answered (hlog ▸ h.answered.errors_append nofun)
  · refine .active hphase hinv.raised ?_ hbalanced
    show Waiting .closed none (requests.filter Request.isChannel)
    rw [hrest]
    exact .closed

theorem sendChannelClose_channelInv (h : ChannelInv self) (hlive : self.IsLive) {error : Nat}
    (hphase : self.phase = .connectionActive)
    (hrequests : self.requests = .channelError error :: requests) :
    ∃ next, { self with requests := requests }.sendChannelClose error = some next ∧
      ChannelInv next := by
  have hinv := h.live hlive
  have hwaiting := channelRequests_cons hrequests rfl
  have hlog : (self.record (.closeSent error error)).channelLog =
      self.channelLog ++ [.closeSent error error] := channelLog_record self (.closeSent error error)
  obtain ⟨hchannel, hmore⟩ := hinv.waiting.error_eq hwaiting
  unfold sendChannelClose
  split
  · next hnone =>
    rw [show self.channel = none from hnone] at hchannel
    cases hchannel
  next channel hsome =>
  obtain rfl : error = channel := by
    rw [show self.channel = some channel from hsome] at hchannel
    exact (Option.some.inj hchannel).symm
  rw [if_neg (not_not.mpr rfl)]
  split
  · next hopened =>
    have hbalanced : Balanced (self.record (.closeSent error error)).channelLog
        (requests.filter Request.isChannel) := by
      have hbefore := hinv.balanced
      rw [hwaiting] at hbefore
      rw [hlog]
      exact hbefore.closeSent error error
    refine ⟨_, rfl, ⟨?_, ?_, h.recognised, fun _ => ?_⟩⟩
    · show ChannelState.closing = .closed ↔ self.channel = none
      rw [hchannel]
      exact ⟨nofun, nofun⟩
    · refine hbalanced.answered (hlog ▸ h.answered.errors_append ?_)
      intro other channel heq
      cases heq
      rfl
    · refine .active hphase hinv.raised ?_ hbalanced
      obtain ⟨errors, hrest⟩ := hmore hopened
      show Waiting .closing self.channel (requests.filter Request.isChannel)
      rw [hchannel, hrest]
      exact .closing error errors
  · exact ⟨_, rfl, h.ends rfl h.object rfl (not_isLive_of_exception rfl)⟩

theorem active_channelInv (h : ChannelInv self) (hlive : self.IsLive)
    (hphase : self.phase = .connectionActive) (hrequests : self.requests = request :: requests) :
    ∃ next, { self with requests := requests }.active request = some next ∧ ChannelInv next := by
  -- an event that the state does not have is not about the channel
  have hother : request.isChannel = false →
      ChannelInv ({ self with requests := requests }.unrecognisedEvent (.request request)) := by
    intro hnot
    refine ⟨h.object, h.answered, fun other hother => ?_, fun hnext => ?_⟩
    · cases hother
      exact hnot
    · cases hnext.1
  cases request with
  | channelError error => exact sendChannelClose_channelInv h hlive hphase hrequests
  | sendChannelOpenOk => exact sendChannelOpenOk_channelInv h hlive hphase hrequests
  | sendChannelCloseOk => exact sendChannelCloseOk_channelInv h hlive hphase hrequests
  | connectionError | killConnection =>
    exact ⟨_, rfl, raiseConnectionError_channelInv (h.tail hrequests rfl nofun)⟩
  | shutdown => exact ⟨_, rfl, h.ends rfl h.object rfl (not_isLive_of_isEnding rfl)⟩
  | connectionStartOk | connectionTuneOk | connectionOpen | connectionCloseOk =>
    exact ⟨_, rfl, hother rfl⟩

theorem ChannelInv.tail_of_isEnding (h : ChannelInv self) (hphase : self.phase.isEnding) :
    ChannelInv { self with requests := requests } :=
  h.ends rfl h.object rfl (not_isLive_of_isEnding hphase)

theorem closing_channelInv (h : ChannelInv self) (hphase : self.phase = .closeTheConnection) :
    ChannelInv ({ self with requests := requests }.closing request) := by
  unfold closing
  split
  · exact h.ends rfl h.object rfl (not_isLive_of_isEnding rfl)
  · exact h.tail_of_isEnding (by rw [hphase]; rfl)

end Requests

theorem takeSend_channelInv (h : ChannelInv self) (frames : Option Nat) :
    ChannelInv (self.takeSend frames) := by
  unfold takeSend
  split
  · exact ⟨h.object, h.answered, nofun, fun hnext => by cases hnext.1⟩
  · next hphase =>
    cases frames with
    | none => exact h
    | some frames =>
      simp only
      split
      · next hopened =>
        refine ⟨h.object, h.answered, h.recognised, fun hlive => ?_⟩
        have hinv := h.live ⟨hlive.1, hlive.2.1, by rw [hphase]; rfl⟩
        exact ⟨hinv.raised, hinv.waiting, fun _ _ => .inl hopened, nofun, nofun, hinv.balanced⟩
      · exact h
  · exact h

theorem earn_channelInv (h : ChannelInv self) (hlive : self.IsLive)
    (hphase : self.phase = .sendContentBody 0) :
    ∃ next, self.earn = some next ∧ ChannelInv next := by
  have hinv := h.live hlive
  unfold earn
  rw [h.isNone_eq_false (hinv.ne_closed hphase)]
  exact ⟨_, rfl, h.object, h.answered, h.recognised,
    fun _ => .active rfl hinv.raised hinv.waiting hinv.balanced⟩

theorem connectionThread_channelInv (h : ChannelInv self)
    (haborted : self.aborted = none) :
    ∃ next, self.connectionThread = some next ∧ ChannelInv next := by
  unfold connectionThread
  split
  · exact ⟨_, rfl, takeException_channelInv h _⟩
  next hexception =>
  have hlive : self.phase.isEnding = false → self.IsLive := fun hphase =>
    ⟨haborted, hexception, hphase⟩
  split
  · next frames hphase =>
    refine ⟨_, rfl, h.object, h.answered, h.recognised, fun _ => ?_⟩
    have hinv := h.live (hlive (by rw [hphase]; rfl))
    exact ⟨hinv.raised, hinv.waiting, fun _ _ => hinv.sending _ hphase, nofun, nofun, hinv.balanced⟩
  · next hphase => exact earn_channelInv h (hlive (by rw [hphase]; rfl)) hphase
  next hmore hlast =>
  split
  · next request requests hrequests =>
    unfold takeRequest
    split
    · next hphase =>
      exact ⟨_, rfl, initialise_channelInv h (hlive (by rw [hphase]; rfl)) hphase hrequests⟩
    · next hphase =>
      exact active_channelInv h (hlive (by rw [hphase]; rfl)) hphase hrequests
    · next hphase => exact ⟨_, rfl, closing_channelInv h hphase⟩
    · next hinitialise hactive hclosing =>
      refine ⟨_, rfl, h.tail_of_isEnding ?_⟩
      cases hphase : self.phase with
      | initialiseConnection => exact absurd hphase hinitialise
      | connectionActive => exact absurd hphase hactive
      | sendContentBody frames =>
        cases frames with
        | zero => exact absurd hphase hlast
        | succ frames => exact absurd hphase (hmore frames)
      | closeTheConnection | ended => rfl
  · next frames sends _ _ =>
    have htail : ChannelInv { self with sends := sends } :=
      h.congr rfl rfl rfl rfl rfl fun hlive => ⟨hlive, rfl, (h.live hlive).raised⟩
    exact ⟨_, rfl, takeSend_channelInv htail frames⟩
  · exact ⟨self, rfl, h⟩

/-! ## All steps -/

theorem channelError_channelInv (h : ChannelInv self) {error : Nat}
    (hok : self.Timely (.channelError error)) :
    ChannelInv (self.request (.channelError error)) := by
  have hwaiting : (self.request (.channelError error)).channelRequests =
      self.channelRequests ++ [.channelError error] :=
    channelRequests_request self (.channelError error)
  refine ⟨h.object, h.answered, h.recognised, fun hlive => ?_⟩
  have hinv := h.live hlive
  obtain ⟨hchannel, hcloseOk⟩ := hok hlive
  have hstate : self.channelState ≠ .closed := fun hclosed => by
    rw [h.object.mp hclosed] at hchannel
    cases hchannel
  refine ⟨hinv.raised, ?_, ?_, ?_, ?_, ?_⟩
  · have hbefore := hinv.waiting
    rw [hchannel] at hbefore
    show Waiting self.channelState self.channel _
    rw [hwaiting, hchannel]
    exact hbefore.error fun hmem => hcloseOk (mem_of_mem_filter hmem)
  · intro frames hphase
    refine (hinv.sending frames hphase).imp id (And.imp_right fun _ => ?_)
    rw [hwaiting]
    exact append_ne_nil_of_right_ne_nil _ (cons_ne_nil _ _)
  · exact fun hphase _ => mem_append_left _ (hinv.toOpen hphase hstate)
  · intro hphase
    exact Lib.forall_split_append (hinv.behind hphase) fun _ => hinv.toOpen hphase hstate
  · rw [hwaiting]
    exact hinv.balanced.error error

/-- A timely event can be taken, and keeps the invariant of the channel. -/
theorem step_channelInv {event : Event} (h : ChannelInv self)
    (hok : self.Timely event) :
    ∃ next, step config self event = some next ∧ ChannelInv next := by
  unfold step
  split
  · exact ⟨self, rfl, h⟩
  next haborted =>
  replace haborted : self.aborted = none := by simpa using haborted
  cases event with
  | receive frameChannel method => exact receive_channelInv h hok
  | inputError =>
    simp only
    split
    · exact ⟨_, rfl, connectionException_channelInv h⟩
    · exact ⟨_, rfl, h.ends rfl h.object rfl (not_isLive_of_exception rfl)⟩
    · exact ⟨self, rfl, h⟩
  | inputAbort =>
    simp only
    split
    · exact ⟨self, rfl, h⟩
    · exact ⟨_, rfl, h.ends rfl h.object rfl (not_isLive_of_exception rfl)⟩
  | peerDead => exact ⟨_, rfl, h.ends rfl h.object rfl (not_isLive_of_exception rfl)⟩
  | connectionThread => exact connectionThread_channelInv h haborted
  | channelError error => exact ⟨_, rfl, channelError_channelInv h hok⟩
  | connectionError => exact ⟨_, rfl, h.request .connectionError rfl⟩
  | killConnection => exact ⟨_, rfl, h.request .killConnection rfl⟩
  | shutdown => exact ⟨_, rfl, h.request .shutdown rfl⟩
  | send frames =>
    exact ⟨_, rfl, h.congr rfl rfl rfl rfl rfl fun hlive => ⟨hlive, rfl, (h.live hlive).raised⟩⟩
  | setupTimeout | closeTimeout =>
    simp only
    split
    · exact ⟨_, rfl, h.ends rfl h.object rfl (not_isLive_of_isEnding rfl)⟩
    · exact ⟨self, rfl, h⟩

theorem Waiting.count_le_one (h : Waiting state channel requests) :
    requests.count .sendChannelOpenOk + requests.count .sendChannelCloseOk ≤ 1 := by
  cases h <;> simp [count_replicate]

theorem ChannelInv.answers (h : ChannelInv self) : Answers self := by
  have hentries : ∀ entry, entry.isChannel → self.channelLog.count entry = self.log.count entry :=
    fun entry hentry => count_filter hentry
  have hrequests : ∀ request, request.isChannel →
      self.channelRequests.count request = self.requests.count request :=
    fun request hrequest => count_filter hrequest
  refine ⟨?_, ?_, fun hlive => ?_, fun error channel hmem => ?_, h.recognised⟩
  · rw [← hentries _ rfl, ← hentries _ rfl]
    exact h.answered.opens
  · rw [← hentries _ rfl, ← hentries _ rfl]
    exact h.answered.closes
  · have hinv := h.live hlive
    rw [← hentries _ rfl, ← hentries .channelOpen rfl, ← hentries .closeOkSent rfl,
      ← hentries .channelClose rfl, ← hrequests _ rfl, ← hrequests .sendChannelCloseOk rfl]
    exact ⟨hinv.balanced.opens, hinv.balanced.closes, hinv.waiting.count_le_one⟩
  · exact h.answered.errors error channel (mem_filter.mpr ⟨hmem, rfl⟩)

/--
In every run whose steps all come in time, no assertion fails and no destroyed channel is used.
Every `channel.open` and `channel.close` that is accepted is answered once, and no error closes
another channel than its own.
-/
theorem channel_holds (config : LoginConfig) {events : List Event}
    (h : Lib.Along (step config) Timely start events) :
    ∃ self, Lib.run (step config) start events = some self ∧ Answers self := by
  obtain ⟨self, hrun, hinv⟩ := Lib.run_progress (I := fun _ => ChannelInv)
    (fun _ _ _ hinv hok => step_channelInv hinv hok) [] start_channelInv h
  exact ⟨self, hrun, hinv.answers⟩

/-- An error closes the channel in the middle of it, and the client opens another one. -/
def reopenEvents : List Event :=
  loginEvents ++ [.channelError 0, .connectionThread, .receive 1 .channelCloseOk,
    .receive 1 (.channelOpen false), .connectionThread, .send (some 1), .connectionThread,
    .connectionThread, .receive 1 (.channelClose false), .connectionThread, .connectionThread,
    .connectionThread]

theorem channel_holds_reopen :
    ∃ self, Lib.run (step oneUser) start reopenEvents = some self ∧ Answers self := by
  have h : Lib.Along (step oneUser) Timely start reopenEvents := by decide +kernel
  exact channel_holds oneUser h

/--
A client that sends `channel.close-ok` behind its own `channel.close` destroys the channel before
`close-ok` has been sent, where an assertion fails. An error that is raised between a
`channel.close` and its answer fails another one, and a content may be on its way.
-/
theorem closeOk_fails : Lib.run (step oneUser) start (loginEvents ++
        [.receive 1 (.channelClose false), .receive 1 .channelCloseOk, .connectionThread]) = none ∧
      Lib.run (step oneUser) start (loginEvents ++
        [.receive 1 (.channelClose false), .channelError 0, .connectionThread,
         .connectionThread]) = none ∧
      Lib.run (step oneUser) start (loginEvents ++
        [.send (some 1), .connectionThread, .receive 1 (.channelClose false),
         .receive 1 .channelCloseOk, .connectionThread, .connectionThread,
         .connectionThread]) = none :=
  ⟨rfl, rfl, rfl⟩

end Agent

end OpenAmq
