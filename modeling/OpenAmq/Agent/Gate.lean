import OpenAmq.Agent.Model

/-!
# The gate of a connection

The input thread executes `connection.start-ok`, `connection.tune-ok` and `connection.open`
whenever they come, and `authorised` is set and never asked for. So the order is that of the
client: while it keeps to the grammar, nothing is opened or executed before a valid login.

* `InOrder` — a method that the grammar has at this place, with a response as it should be
* `step_gateInv` — what one step keeps
* `gate_holds` — what has come before anything that is opened or executed
-/

namespace OpenAmq

open List

namespace Agent

/-! ## The gate -/

/-- The connection thread is in `connection active`, or called from there. -/
def Phase.isActive : Phase → Bool
  | .connectionActive | .sendContentBody _ => true
  | _ => false

/-- One of the three methods that open a connection. -/
def Entry.isHandshake : Entry → Bool
  | .startOk _ | .tuneOk | .open => true
  | _ => false

/-- What has to come behind them. -/
def Entry.isGated : Entry → Bool
  | .active | .channelOpen | .functional => true
  | _ => false

/-- The methods that open a connection, as far as they have been accepted. -/
def handshake (log : List Entry) : List Entry := log.filter Entry.isHandshake

/-- The response holds the login and the password of a user of the configuration. -/
def IsUser (config : LoginConfig) (response : List UInt8) : Prop :=
  ∃ login password group, Plain.PlainForm response login password ∧
    Plain.Grants config.security login password group

/-- The three methods in their order, with a user of the configuration. -/
def LoggedIn (config : LoginConfig) (entries : List Entry) : Prop :=
  ∃ response, IsUser config response ∧ entries = [.startOk response, .tuneOk, .open]

def LogsIn (config : LoginConfig) (entries : List Entry) : Prop :=
  entries = [] ∨ ∃ response, IsUser config response ∧
    entries <+: [.startOk response, .tuneOk, .open]

/--
The three methods have been accepted at most once each and in order, and all of them before the
connection or the channel has been opened, or a method executed.
-/
structure Gated (config : LoginConfig) (agent : Agent) : Prop where
  once : LogsIn config (handshake agent.log)
  behind : ∀ before entry after, agent.log = before ++ entry :: after → entry.isGated →
    LoggedIn config (handshake before)
  active : agent.phase.isActive → LoggedIn config (handshake agent.log)
  channel : agent.channelState ≠ .closed → LoggedIn config (handshake agent.log)

/-- The methods of the handshake and `channel.open` come at their place in the grammar. The
response has a null octet before the login and one before the password. -/
def InOrder (self : Agent) : Event → Prop
  | .receive _ method => self.input = .haveIncomingMethod →
    match method with
    | .connectionStartOk response _ => handshake self.log = [] ∧
      ∃ login password, Plain.PlainForm response login password
    | .connectionTuneOk => (handshake self.log).length = 1
    | .connectionOpen _ _ => (handshake self.log).length = 2
    | .channelOpen _ => (handshake self.log).length = 3
    | _ => True
  | _ => True

/-! ## What one step keeps -/

/-- The connection has been opened, or will be when its thread comes to the request. -/
def IsOpen (self : Agent) : Prop :=
  .connectionOpen ∈ self.requests ∨ self.phase.isActive ∨ self.channelState ≠ .closed

structure GateInv (config : LoginConfig) (agent : Agent) : Prop where
  once : LogsIn config (handshake agent.log)
  group : handshake agent.log = [] → agent.input = .haveIncomingMethod → agent.group = 0
  opened : agent.IsOpen → (handshake agent.log).length = 3
  behind : ∀ before entry after, agent.log = before ++ entry :: after → entry.isGated →
    (handshake before).length = 3

variable {config : LoginConfig}

theorem start_gateInv : GateInv config start where
  once := .inl rfl
  group _ _ := rfl
  opened h := by
    rcases h with h | h | h
    · cases h
    · cases h
    · exact absurd rfl h
  behind before entry after h := by
    have hlen := congrArg length h
    rw [length_append] at hlen
    cases hlen

variable {self next : Agent} {entries : List Entry} {frameChannel : Nat} {raises : Bool}

theorem GateInv.of_isOpen (h : GateInv config self) (hlog : next.log = self.log)
    (hgroup : next.group = self.group)
    (hinput : next.input = .haveIncomingMethod → self.input = .haveIncomingMethod)
    (hopen : next.IsOpen → self.IsOpen) : GateInv config next := by
  refine ⟨hlog ▸ h.once, ?_, ?_, hlog ▸ h.behind⟩
  · rw [hlog, hgroup]
    exact fun hnil hreads => h.group hnil (hinput hreads)
  · rw [hlog]
    exact fun hnext => h.opened (hopen hnext)

theorem GateInv.quiet (h : GateInv config self) (hq : Quiet self next) : GateInv config next := by
  refine h.of_isOpen hq.log hq.group hq.input ?_
  rw [IsOpen, hq.requests, hq.channelState]
  refine Or.imp_right (Or.imp_left fun hactive => ?_)
  rcases hq.phase with hphase | hphase | hphase
  · rwa [hphase] at hactive
  · rw [hphase] at hactive
    cases hactive
  · rw [hphase] at hactive
    cases hactive

theorem isOpen_of_request (request : Request) (hr : request ≠ .connectionOpen)
    (h : (self.request request).IsOpen) : self.IsOpen := by
  rcases h with hopen | hopen
  · rcases mem_append.mp hopen with hopen | hopen
    · exact .inl hopen
    · exact absurd (mem_singleton.mp hopen).symm hr
  · exact .inr hopen

theorem GateInv.request {self : Agent} (h : GateInv config self) (request : Request)
    (hr : request ≠ .connectionOpen) : GateInv config (self.request request) :=
  h.of_isOpen rfl rfl id (isOpen_of_request request hr)

theorem handshake_record (log : List Entry) (entry : Entry) : handshake (log ++ [entry]) =
      if entry.isHandshake then handshake log ++ [entry] else handshake log := by
  rw [handshake, filter_append, filter_singleton]
  cases entry.isHandshake with
  | false => exact append_nil _
  | true => rfl

theorem GateInv.record (h : GateInv config self) (entry : Entry)
    (hnot : entry.isHandshake = false) (hgated : entry.isGated → (handshake self.log).length = 3) :
    GateInv config (self.record entry) := by
  have hsame : handshake (self.record entry).log = handshake self.log := by
    show handshake (self.log ++ [entry]) = _
    rw [handshake_record, hnot]
    rfl
  refine ⟨hsame ▸ h.once, ?_, ?_, Lib.forall_split_append h.behind hgated⟩
  · rw [hsame]
    exact h.group
  · rw [hsame]
    exact h.opened

theorem GateInv.handshake (h : GateInv config self) (entry : Entry) (hentry : entry.isHandshake)
    (hlog : next.log = self.log ++ [entry])
    (hlogs : LogsIn config (Agent.handshake self.log ++ [entry]))
    (hopened : next.IsOpen → (Agent.handshake self.log).length = 2) : GateInv config next := by
  have hmore : Agent.handshake next.log = Agent.handshake self.log ++ [entry] := by
    rw [hlog, handshake_record, hentry]
    rfl
  refine ⟨hmore ▸ hlogs, ?_, ?_, ?_⟩
  · rw [hmore]
    exact fun hnil => absurd hnil (append_ne_nil_of_right_ne_nil _ (cons_ne_nil _ _))
  · intro hopen
    rw [hmore, length_append, hopened hopen]
    rfl
  · rw [hlog]
    refine Lib.forall_split_append h.behind fun hgated => ?_
    cases entry <;> cases hentry <;> cases hgated

/-! ## The input thread -/

theorem startOk_user {login password response : List UInt8} {undefined : Plain.Outcome}
    (hgroup : self.group = 0) (hform : Plain.PlainForm response login password)
    (h : (startOk config self response undefined).exceptionRaised = false) :
    IsUser config response := by
  obtain ⟨-, hvalid⟩ := Bool.or_eq_false_iff.mp h
  replace hvalid : (authPlain config response undefined self.group).valid = true := by
    simpa using hvalid
  have hrun : Plain.authPlain config.security response =
      .ok (Plain.checkUser config.security (Plain.clip login) (Plain.clip password)) := by
    obtain ⟨hlogin, hpassword, authzid, rfl⟩ := hform
    exact Plain.authPlain_of_separated hlogin hpassword (.inr rfl)
  rw [authPlain, hrun, hgroup] at hvalid
  cases hcheck : Plain.checkUser config.security (Plain.clip login) (Plain.clip password) with
  | missing | noPlain | noUser | invalidGroup =>
    rw [hcheck] at hvalid
    cases hvalid
  | granted userName group =>
    obtain ⟨-, hgrants⟩ := Plain.checkUser_clip.mp ⟨userName, hcheck⟩
    exact ⟨login, password, group, hform, hgrants⟩

theorem openConnection_quiet (config : LoginConfig) (self : Agent) (virtualHost : Str)
    (broker : BrokerView) :
    Quiet self (openConnection config self virtualHost broker) := by
  unfold openConnection
  split
  · exact ⟨rfl, rfl, rfl, rfl, rfl, rfl, id, .inl rfl⟩
  split
  · exact ⟨rfl, rfl, rfl, rfl, rfl, rfl, id, .inl rfl⟩
  split
  · exact ⟨rfl, rfl, rfl, rfl, rfl, rfl, id, .inl rfl⟩
  · exact .refl self

theorem openConnection_eq {virtualHost : Str} {broker : BrokerView}
    (h : (openConnection config self virtualHost broker).exceptionRaised = false) :
    openConnection config self virtualHost broker = self := by
  unfold openConnection at h ⊢
  split at h
  · cases h
  split at h
  · cases h
  split at h
  · cases h
  · rw [if_neg ‹_›, if_neg ‹_›, if_neg ‹_›]

theorem LogsIn.eq_take (h : LogsIn config entries) (hne : entries ≠ []) :
    ∃ response, IsUser config response ∧
      entries = [.startOk response, .tuneOk, .open].take entries.length := by
  rcases h with rfl | ⟨response, huser, hprefix⟩
  · exact absurd rfl hne
  · exact ⟨response, huser, prefix_iff_eq_take.mp hprefix⟩

theorem LogsIn.tuneOk (h : LogsIn config entries) (hlen : entries.length = 1) :
    LogsIn config (entries ++ [.tuneOk]) := by
  obtain ⟨response, huser, htake⟩ := h.eq_take fun hnil => by rw [hnil] at hlen; cases hlen
  rw [hlen] at htake
  rw [htake]
  exact .inr ⟨response, huser, [.open], rfl⟩

theorem LogsIn.open (h : LogsIn config entries) (hlen : entries.length = 2) :
    LogsIn config (entries ++ [.open]) := by
  obtain ⟨response, huser, htake⟩ := h.eq_take fun hnil => by rw [hnil] at hlen; cases hlen
  rw [hlen] at htake
  rw [htake]
  exact .inr ⟨response, huser, [], rfl⟩

/-- A method of the handshake at its place keeps the gate. -/
theorem connectionMethod_gateInv {method : ClientMethod} (h : GateInv config self)
    (hinput : self.input = .haveIncomingMethod)
    (hok : self.InOrder (.receive frameChannel method)) :
    GateInv config (self.connectionMethod config method) := by
  replace hok := hok hinput
  unfold connectionMethod
  split
  · next response undefined =>
    replace hok : Agent.handshake self.log = [] ∧
      ∃ login password, Plain.PlainForm response login password := hok
    obtain ⟨hok, login, password, hform⟩ := hok
    rcases executeMethod_cases self (startOk config · response undefined) fun self =>
      (self.request .connectionStartOk).record (.startOk response) with
      ⟨-, he⟩ | he | ⟨hvalid, he⟩
    · rw [he]
      exact h.quiet (asyncConnectionError_quiet self)
    · rw [he]
      exact ⟨h.once, nofun, h.opened, h.behind⟩
    · rw [he]
      refine h.handshake (.startOk response) rfl rfl ?_ fun hopen => ?_
      · rw [hok]
        exact .inr ⟨response, startOk_user (h.group hok hinput) hform hvalid,
          [.tuneOk, .open], rfl⟩
      · have hthree := h.opened (isOpen_of_request .connectionStartOk nofun hopen)
        rw [hok] at hthree
        cases hthree
  · replace hok : (Agent.handshake self.log).length = 1 := hok
    rcases executeMethod_cases self id fun self =>
      (self.request .connectionTuneOk).record .tuneOk with ⟨-, he⟩ | he | ⟨-, he⟩
    · rw [he]
      exact h.quiet (asyncConnectionError_quiet self)
    · rw [he]
      exact h.quiet (connectionException_quiet self)
    · rw [he]
      refine h.handshake .tuneOk rfl rfl (h.once.tuneOk hok) fun hopen => ?_
      have hthree := h.opened (isOpen_of_request .connectionTuneOk nofun hopen)
      omega
  · next virtualHost broker =>
    replace hok : (Agent.handshake self.log).length = 2 := hok
    have hquiet := openConnection_quiet config self virtualHost broker
    rcases executeMethod_cases self (openConnection config · virtualHost broker) fun self =>
      (self.request .connectionOpen).record .open with ⟨-, he⟩ | he | ⟨hraised, he⟩
    · rw [he]
      exact h.quiet (asyncConnectionError_quiet self)
    · rw [he]
      exact (h.quiet hquiet).quiet (connectionException_quiet _)
    · rw [he, openConnection_eq hraised]
      exact h.handshake .open rfl rfl (h.once.open hok) fun _ => hok
  · exact h.quiet ⟨rfl, rfl, rfl, rfl, rfl, rfl, nofun, .inl rfl⟩
  · exact (h.request .connectionCloseOk nofun).quiet ⟨rfl, rfl, rfl, rfl, rfl, rfl, nofun, .inl rfl⟩
  · exact h.quiet (connectionException_quiet self)

theorem channelOpen_gateInv (h : GateInv config self) (raises : Bool)
    (hthree : (Agent.handshake self.log).length = 3) :
    GateInv config (self.channelOpen raises) := by
  unfold channelOpen
  split
  · have hopening : GateInv config { self with
        channel := some self.nextChannel
        nextChannel := self.nextChannel + 1
        channelState := .opening } := ⟨h.once, h.group, fun _ => hthree, h.behind⟩
    rcases executeMethod_cases _ (handler raises) fun self =>
      (self.request .sendChannelOpenOk).record .channelOpen with ⟨-, he⟩ | he | ⟨-, he⟩
    · rw [he]
      exact hopening.quiet (asyncConnectionError_quiet _)
    · rw [he]
      exact hopening.quiet (handlerException_quiet _ raises)
    · rw [he]
      have hexecuted := hopening.quiet (handler_quiet _ raises)
      exact (hexecuted.request .sendChannelOpenOk nofun).record .channelOpen rfl fun _ => hthree
  · exact h.quiet (connectionException_quiet self)

theorem channelClose_gateInv (h : GateInv config self)
    (hnext : self.channelClose raises = some next) : GateInv config next := by
  unfold channelClose at hnext
  split at hnext
  · next hopened =>
    have hclosing : GateInv config { self with channelState := .closing } := by
      refine h.of_isOpen rfl rfl id fun _ => .inr (.inr ?_)
      rw [hopened]
      exact nofun
    split at hnext
    · cases hnext
    cases hnext
    rcases executeMethod_cases { self with channelState := .closing } (handler raises) fun self =>
      (self.request .sendChannelCloseOk).record .channelClose with ⟨-, he⟩ | he | ⟨-, he⟩
    · rw [he]
      exact hclosing.quiet (asyncConnectionError_quiet _)
    · rw [he]
      exact hclosing.quiet (handlerException_quiet _ raises)
    · rw [he]
      have hexecuted := hclosing.quiet (handler_quiet _ raises)
      exact (hexecuted.request .sendChannelCloseOk nofun).record .channelClose rfl nofun
  · cases hnext
    exact h.quiet (connectionException_quiet self)

theorem channelCloseOk_gateInv (h : GateInv config self) : GateInv config self.channelCloseOk := by
  unfold channelCloseOk
  split
  · refine h.of_isOpen rfl rfl id ?_
    rintro (hopen | hopen | hopen)
    · exact .inl hopen
    · exact .inr (.inl hopen)
    · exact absurd rfl hopen
  · exact h.quiet (connectionException_quiet self)

theorem channelFlow_gateInv (h : GateInv config self)
    (hnext : self.channelFlow raises = some next) : GateInv config next := by
  unfold channelFlow at hnext
  split at hnext
  · split at hnext
    · cases hnext
    · cases hnext
      exact h.quiet (executeHandler_quiet self raises)
  · cases hnext
    exact h.quiet (connectionException_quiet self)

theorem functional_gateInv (h : GateInv config self)
    (hnext : self.functional frameChannel raises = some next) : GateInv config next := by
  unfold functional at hnext
  split at hnext
  · cases hnext
    exact h.quiet (asyncConnectionError_quiet self)
  split at hnext
  · cases hnext
    exact h.quiet (connectionException_quiet self)
  split at hnext
  · next hopened =>
    split at hnext
    · cases hnext
    cases hnext
    have hthree : (Agent.handshake self.log).length = 3 := by
      refine h.opened (.inr (.inr ?_))
      rw [hopened]
      exact nofun
    exact (h.record .functional rfl fun _ => hthree).quiet (executeHandler_quiet _ raises)
  · cases hnext
    exact h

theorem receive_gateInv (h : GateInv config self) {method : ClientMethod}
    (hok : self.InOrder (.receive frameChannel method))
    (hnext : self.receive config frameChannel method = some next) : GateInv config next := by
  unfold receive at hnext
  split at hnext
  · next hinput =>
    unfold incomingMethod at hnext
    split at hnext
    · exact functional_gateInv h hnext
    split at hnext
    · split at hnext
      · cases hnext
        exact h.quiet (connectionException_quiet self)
      · cases hnext
        exact connectionMethod_gateInv h hinput hok
    split at hnext
    · cases hnext
      exact h.quiet (connectionException_quiet self)
    unfold channelMethod at hnext
    split at hnext
    · cases hnext
      exact channelOpen_gateInv h _ (hok hinput)
    · exact channelClose_gateInv h hnext
    · cases hnext
      exact channelCloseOk_gateInv h
    · exact channelFlow_gateInv h hnext
    · exact channelFlow_gateInv h hnext
    · cases hnext
      exact h.quiet (connectionException_quiet self)
  · split at hnext
    · cases hnext
      exact (h.request .connectionCloseOk nofun).quiet
        ⟨rfl, rfl, rfl, rfl, rfl, rfl, nofun, .inl rfl⟩
    · cases hnext
      exact h
  · cases hnext
    exact h

/-! ## The connection thread -/

theorem initialise_gateInv (h : GateInv config self) {request : Request}
    (hthree : request = .connectionOpen → (Agent.handshake self.log).length = 3) :
    GateInv config (self.initialise request) := by
  unfold initialise
  split
  · exact h
  · exact h
  · have hactive := h.record .active rfl fun _ => hthree rfl
    refine ⟨hactive.once, hactive.group, fun _ => ?_, hactive.behind⟩
    show (Agent.handshake (self.log ++ [.active])).length = 3
    rw [handshake_record]
    exact hthree rfl
  · exact h.quiet ⟨rfl, rfl, rfl, rfl, rfl, rfl, id, .inr (.inl rfl)⟩
  · exact h.quiet (endThread_quiet self)
  · exact h.of_isOpen rfl rfl id id

theorem active_gateInv (h : GateInv config self) {request : Request}
    (hphase : self.phase.isActive) (hnext : self.active request = some next) :
    GateInv config next := by
  have hopen : self.IsOpen := .inr (.inl hphase)
  unfold active at hnext
  split at hnext
  · next error =>
    unfold sendChannelClose at hnext
    split at hnext
    · cases hnext
    split at hnext
    · cases hnext
    split at hnext
    · cases hnext
      exact (h.record (.closeSent _ _) rfl nofun).of_isOpen rfl rfl id fun _ => hopen
    · cases hnext
      exact h.quiet (raiseConnectionError_quiet self)
  · unfold sendChannelOpenOk at hnext
    split at hnext
    · cases hnext
      exact (h.record .openOkSent rfl nofun).of_isOpen rfl rfl id fun _ => hopen
    · cases hnext
  · unfold sendChannelCloseOk at hnext
    split at hnext
    · cases hnext
      exact (h.record .closeOkSent rfl nofun).of_isOpen rfl rfl id fun _ => hopen
    · cases hnext
  · cases hnext
    exact h.quiet (raiseConnectionError_quiet self)
  · cases hnext
    exact h.quiet (raiseConnectionError_quiet self)
  · cases hnext
    exact h.quiet ⟨rfl, rfl, rfl, rfl, rfl, rfl, id, .inr (.inl rfl)⟩
  · cases hnext
    exact h.of_isOpen rfl rfl id id

theorem takeSend_gateInv (h : GateInv config self) (frames : Option Nat) :
    GateInv config (self.takeSend frames) := by
  unfold takeSend
  split
  · exact h.of_isOpen rfl rfl id id
  · next hphase =>
    have hactive : self.IsOpen := .inr (.inl (by rw [hphase]; rfl))
    cases frames with
    | none => exact h
    | some frames =>
      simp only
      split
      · exact h.of_isOpen rfl rfl id fun _ => hactive
      · exact h
  · exact h

theorem connectionThread_gateInv (h : GateInv config self)
    (hnext : self.connectionThread = some next) : GateInv config next := by
  unfold connectionThread at hnext
  split at hnext
  · cases hnext
    exact h.quiet (takeException_quiet self _)
  split at hnext
  · next hphase =>
    cases hnext
    exact h.of_isOpen rfl rfl id fun _ => .inr (.inl (by rw [hphase]; rfl))
  · next hphase =>
    unfold earn at hnext
    split at hnext
    · cases hnext
    · cases hnext
      exact h.of_isOpen rfl rfl id fun _ => .inr (.inl (by rw [hphase]; rfl))
  split at hnext
  · next request requests hrequests =>
    have htail : GateInv config { self with requests := requests } := by
      refine h.of_isOpen rfl rfl id (Or.imp_left fun hmem => ?_)
      rw [hrequests]
      exact mem_cons_of_mem _ hmem
    unfold takeRequest at hnext
    split at hnext
    · cases hnext
      refine initialise_gateInv htail ?_
      rintro rfl
      exact h.opened (.inl (by rw [hrequests]; exact mem_cons_self))
    · next hphase => exact active_gateInv htail (by rw [hphase]; rfl) hnext
    · cases hnext
      exact htail.quiet (closing_quiet _ _)
    · cases hnext
      exact htail
  · next frames sends _ _ =>
    cases hnext
    have htail : GateInv config { self with sends := sends } := h.of_isOpen rfl rfl id id
    exact takeSend_gateInv htail frames
  · cases hnext
    exact h

/-! ## All steps -/

/-- A method that comes at its place keeps what the gate has let through. -/
theorem step_gateInv {event : Event} (h : GateInv config self) (hok : self.InOrder event)
    (hnext : step config self event = some next) : GateInv config next := by
  unfold step at hnext
  split at hnext
  · cases hnext
    exact h
  cases event with
  | receive frameChannel method => exact receive_gateInv h hok hnext
  | inputError =>
    simp only at hnext
    split at hnext
    · cases hnext
      exact h.quiet (connectionException_quiet self)
    · cases hnext
      exact h.quiet ⟨rfl, rfl, rfl, rfl, rfl, rfl, nofun, .inl rfl⟩
    · cases hnext
      exact h
  | inputAbort =>
    simp only at hnext
    split at hnext
    · cases hnext
      exact h
    · cases hnext
      exact h.quiet ⟨rfl, rfl, rfl, rfl, rfl, rfl, nofun, .inl rfl⟩
  | peerDead =>
    cases hnext
    exact h.quiet ⟨rfl, rfl, rfl, rfl, rfl, rfl, id, .inl rfl⟩
  | connectionThread => exact connectionThread_gateInv h hnext
  | channelError channel | connectionError | killConnection | shutdown =>
    cases hnext
    exact h.request _ nofun
  | send frames =>
    cases hnext
    exact h.quiet ⟨rfl, rfl, rfl, rfl, rfl, rfl, id, .inl rfl⟩
  | setupTimeout | closeTimeout =>
    simp only at hnext
    split at hnext
    · cases hnext
      exact h.quiet (endThread_quiet self)
    · cases hnext
      exact h

theorem LogsIn.loggedIn (h : LogsIn config entries) (hlen : entries.length = 3) :
    LoggedIn config entries := by
  obtain ⟨response, huser, htake⟩ := h.eq_take fun hnil => by rw [hnil] at hlen; cases hlen
  rw [hlen] at htake
  exact ⟨response, huser, htake⟩

theorem LogsIn.of_append {first second : List Entry} (h : LogsIn config (first ++ second)) :
    LogsIn config first := by
  rcases h with hnil | ⟨response, huser, hprefix⟩
  · exact .inl (append_eq_nil_iff.mp hnil).1
  · exact .inr ⟨response, huser, (prefix_append _ _).trans hprefix⟩

theorem GateInv.gated (h : GateInv config self) : Gated config self where
  once := h.once
  behind before entry after hlog hgated := by
    have hall := h.once
    rw [hlog, Agent.handshake, filter_append] at hall
    exact hall.of_append.loggedIn (h.behind before entry after hlog hgated)
  active hactive := h.once.loggedIn (h.opened (.inr (.inl hactive)))
  channel hchannel := h.once.loggedIn (h.opened (.inr (.inr hchannel)))

/--
In every run in which the client keeps to the order of the grammar, the three methods of the
handshake have been accepted once each and in order, with the login of a configured user, before
the connection or its channel is opened, or a functional method executed.
-/
theorem gate_holds (config : LoginConfig) {events : List Event} {self : Agent}
    (h : Lib.Along (step config) InOrder start events)
    (hrun : Lib.run (step config) start events = some self) : Gated config self :=
  (Lib.run_invariant (I := GateInv config) (fun _ _ _ hinv hok hs => step_gateInv hinv hok hs)
    start_gateInv h hrun).gated

def oneUser : LoginConfig where
  security := some [Plain.userA]
  vhost := "/".toList

def noUser : LoginConfig where
  security := some []
  vhost := "/".toList

/-- The broker lets nobody in but super users. -/
def lockedBroker : BrokerView := ⟨true, false, false⟩

/-- The response of the user `a` -/
def responseA : List UInt8 := [0, 97, 0, 112]

/-- A client that logs in, opens the channel and has a method executed. -/
def loginEvents : List Event :=
  [.receive 0 (.connectionStartOk responseA .missing), .receive 0 .connectionTuneOk,
   .receive 0 (.connectionOpen "/".toList ⟨false, false, false⟩), .connectionThread,
   .connectionThread, .connectionThread, .receive 1 (.channelOpen false), .connectionThread,
   .receive 1 (.functional false)]

/-- The run with which the channel is opened, and what has been accepted then. -/
theorem gate_holds_login : ∃ self, Lib.run (step oneUser) start loginEvents = some self ∧
    self.log = [.startOk responseA, .tuneOk, .open, .active, .channelOpen, .openOkSent,
      .functional] ∧ Gated oneUser self := by
  obtain ⟨self, hrun, hlog⟩ : ∃ self, Lib.run (step oneUser) start loginEvents = some self ∧
      self.log = [.startOk responseA, .tuneOk, .open, .active, .channelOpen, .openOkSent,
        .functional] := ⟨_, rfl, rfl⟩
  refine ⟨self, hrun, hlog, gate_holds oneUser ?_ hrun⟩
  have hform : Plain.PlainForm responseA [97] [112] := ⟨by decide, by decide, [], rfl⟩
  refine ⟨fun _ => ⟨rfl, _, _, hform⟩, fun _ h => ?_⟩
  cases h
  refine ⟨fun _ => rfl, fun _ h => ?_⟩
  cases h
  refine ⟨fun _ => rfl, fun _ h => ?_⟩
  cases h
  refine ⟨trivial, fun _ h => ⟨trivial, fun _ h' => ⟨trivial, fun _ h'' => ?_⟩⟩⟩
  cases h
  cases h'
  cases h''
  refine ⟨fun _ => rfl, fun _ _ => ⟨trivial, fun _ _ => ⟨fun _ => trivial, fun _ _ => trivial⟩⟩⟩

/--
Where there is no user and the broker is locked, a client opens the connection and the channel
and has a method executed, without a login.
-/
theorem functional_withoutLogin : ∃ self, Lib.run (step noUser) start
        [.receive 0 (.connectionOpen "/".toList lockedBroker), .connectionThread,
         .receive 1 (.channelOpen false), .connectionThread, .receive 1 (.functional false)] =
        some self ∧
      self.log = [.open, .active, .channelOpen, .openOkSent, .functional] ∧
      self.authorised = false ∧ ¬ Gated noUser self := by
  refine ⟨_, rfl, rfl, rfl, fun h => ?_⟩
  obtain ⟨response, ⟨login, password, group, -, user, hfound, -⟩, -⟩ := h.active rfl
  cases hfound

end Agent

end OpenAmq
