import OpenAmq.Lib.Run
import OpenAmq.Peering.Model

/-!
# What the peer is told

When a peering has a new connection, it tells the peer all its bindings and sends the messages
that have come in the meantime. From then on it passes on every change and every message at once.

* `Peering.InStep` — the peer has the bindings of the peering
* `Peering.BoundFirst` — and had them before each message that has just been sent
* `Peering.Guarded` — no message is given to a connection that is not up
* `Peering.peering_replay` — then the peer is in step, and has all messages once and in order
-/

namespace OpenAmq

open List Function

def PeerMethod.message? : PeerMethod → Option PeerMessage
  | .basicPublish message => some message
  | _ => none

def PeeringEvent.message? : PeeringEvent → Option PeerMessage
  | .forward message => some message
  | _ => none

namespace Peering

variable {s s' : Peering} {a : AgentRef} {method : PeerMethod} {methods : List PeerMethod}

/-! ## What has been sent -/

/-- The methods that one connection has taken. -/
def session (sent : List (AgentRef × PeerMethod)) (agent : AgentRef) : List PeerMethod :=
  (sent.filter fun entry => decide (entry.1 = agent)).map Prod.snd

def applyMethod (bindings : List PeerBinding) : PeerMethod → List PeerBinding
  | .queueBind binding => bindings ++ [binding]
  | .queueUnbind binding => bindings.erase binding
  | _ => bindings

/-- The bindings that have been asserted and not since been retracted. -/
def asserted (methods : List PeerMethod) : List PeerBinding := methods.foldl applyMethod []

/-- The messages that have been sent, whichever connection has taken them. -/
def published (sent : List (AgentRef × PeerMethod)) : List PeerMessage :=
  sent.filterMap fun entry => entry.2.message?

/-- The messages that the peering has been given to forward. -/
def accepted (events : List PeeringEvent) : List PeerMessage :=
  events.filterMap PeeringEvent.message?

@[simp] theorem session_append (sent sent' : List (AgentRef × PeerMethod)) :
    session (sent ++ sent') a = session sent a ++ session sent' a := by
  simp [session]

@[simp] theorem session_map_self (methods : List PeerMethod) :
    session (methods.map fun method => (a, method)) a = methods := by
  simp [session, filter_map, comp_def]

variable {b : AgentRef}

theorem session_map_of_ne (h : a ≠ b) (methods : List PeerMethod) :
    session (methods.map fun method => (a, method)) b = [] := by
  simp [session, filter_map, comp_def, h]

theorem asserted_append (methods methods' : List PeerMethod) :
    asserted (methods ++ methods') = methods'.foldl applyMethod (asserted methods) :=
  foldl_append

@[simp] theorem published_append (sent sent' : List (AgentRef × PeerMethod)) :
    published (sent ++ sent') = published sent ++ published sent' :=
  filterMap_append

@[simp] theorem published_map (methods : List PeerMethod) :
    published (methods.map fun method => (a, method)) = methods.filterMap PeerMethod.message? := by
  simp [published, filterMap_map]

/-! ## Handing methods to the agent -/

theorem online_iff : s.online = true ↔ ∃ a, s.agent = some a ∧ s.agents a = .active := by
  unfold online
  cases s.agent with
  | none | some a => simp

theorem push_of_active (ha : s.agent = some a) (hs : s.agents a = .active) :
    s.push method = { s with sent := s.sent ++ [(a, method)] } := by
  simp [push, ha, hs]

theorem push_of_offline (h : s.online = false) : s.push method = s := by
  unfold push
  unfold online at h
  cases ha : s.agent with
  | none => rfl
  | some a =>
    simp only [ha, decide_eq_false_iff_not] at h
    simp [h]

theorem pushAll_of_active (ha : s.agent = some a) (hs : s.agents a = .active) : s.pushAll methods =
      { s with sent := s.sent ++ methods.map fun method => (a, method) } := by
  unfold pushAll
  induction methods generalizing s with
  | nil => simp
  | cons method methods ih =>
    have hrest := @ih { s with sent := s.sent ++ [(a, method)] } ha hs
    rw [foldl_cons, push_of_active ha hs, hrest]
    simp

/-! ## What should hold -/

/-- The peer has the bindings of the peering, if the connection is up. -/
def InStep (s : Peering) : Prop :=
  s.connected = true → ∀ a, s.agent = some a → s.agents a = .active →
    asserted (session s.sent a) = s.bindings

/-- When a message is sent the peer has the bindings already. -/
def BoundFirst (s s' : Peering) : Prop :=
  ∀ before a message after, s'.sent = s.sent ++ (before ++ (a, .basicPublish message) :: after) →
      asserted (session (s.sent ++ before) a) = s'.bindings

def Sound (s : Peering) (event : PeeringEvent) : Prop :=
  ∀ s', s.step event = some s' → s'.InStep ∧ s.BoundFirst s'

/--
A message is forwarded while the connection is up or the peering knows that it is not, and the
peering starts to use a connection that is up, and stays up as long as it has messages to send.
-/
def Guarded (s : Peering) : PeeringEvent → Prop
  | .forward _ => s.connected = true → s.online = true
  | .channelOpenOk cut =>
    s.connected = false → s.openOks ≠ [] →
      s.online = true ∧ ∀ n ∈ cut, s.messages = [] ∨ s.replay.length ≤ n
  | _ => True

instance (s : Peering) : (event : PeeringEvent) → Decidable (s.Guarded event)
  | .forward _ => inferInstanceAs (Decidable (_ → _))
  | .channelOpenOk cut =>
    inferInstanceAs (Decidable (s.connected = false → s.openOks ≠ [] →
      s.online = true ∧ ∀ n ∈ cut, s.messages = [] ∨ s.replay.length ≤ n))
  | .bind _ _ | .unbind _ _ | .start | .stop | .monitor | .agentOpens _ | .agentCloses _
  | .agentEnds _ => isTrue trivial

/-- What holds between the events. -/
structure Synced (s : Peering) : Prop where
  agent_lt : ∀ a, s.agent = some a → a < s.nextAgent
  fresh : ∀ a, s.nextAgent ≤ a → session s.sent a = [] ∧ s.agents a = .zombie
  offline : s.connected = false → ∀ a, s.agent = some a → session s.sent a = []
  online : s.connected = true → s.messages = [] ∧ ∃ a, s.agent = some a ∧
    s.agents a ≠ .opening ∧ (s.agents a = .active → asserted (session s.sent a) = s.bindings)

theorem new_synced (exchange : Shortstr) (exchangeType : ExchangeType) :
    (new exchange exchangeType).Synced where
  agent_lt _ h := by cases h
  fresh _ _ := ⟨rfl, rfl⟩
  offline _ _ h := by cases h
  online h := by cases h

theorem Synced.inStep (h : s.Synced) : s.InStep := by
  intro hc a ha hs
  obtain ⟨-, a', ha', -, heq⟩ := h.online hc
  obtain rfl := Option.some.inj (ha'.symm.trans ha)
  exact heq hs

theorem boundFirst_of_sent_eq (h : s'.sent = s.sent) : s.BoundFirst s' := by
  intro before a message after heq
  rw [h] at heq
  simp at heq

/-! ## Changes that are passed on at once -/

theorem Synced.lt_of_agent (h : s.Synced) (ha : s.agent = some a) (hb : s.nextAgent ≤ b) :
    a ≠ b := by
  rintro rfl
  exact absurd (h.agent_lt a ha) (Nat.not_lt_of_le hb)

theorem Synced.of_bindings (h : s.Synced) (bindings : List PeerBinding)
    (hoffline : s.connected = true → s.online = false) : Synced { s with bindings } where
  agent_lt := h.agent_lt
  fresh := h.fresh
  offline := h.offline
  online hc := by
    obtain ⟨hm, a, ha, hopen, -⟩ := h.online hc
    refine ⟨hm, a, ha, hopen, fun hs => ?_⟩
    have hon := online_iff.mpr ⟨a, ha, hs⟩
    rw [hoffline hc] at hon
    cases hon

theorem Synced.send (h : s.Synced) (hc : s.connected = true) (ha : s.agent = some a)
    (hs : s.agents a = .active) (method : PeerMethod) :
    Synced { s with
      sent := s.sent ++ [(a, method)], bindings := applyMethod s.bindings method } where
  agent_lt := h.agent_lt
  fresh b hb := by
    have hother : session [(a, method)] b = [] := session_map_of_ne (h.lt_of_agent ha hb) [method]
    obtain ⟨hsession, hzombie⟩ := h.fresh b hb
    exact ⟨by rw [session_append, hsession, hother, append_nil], hzombie⟩
  offline hc' := by
    rw [hc] at hc'
    cases hc'
  online _ := by
    obtain ⟨hm, a', ha', hopen, heq⟩ := h.online hc
    obtain rfl := Option.some.inj (ha'.symm.trans ha)
    refine ⟨hm, a', ha', hopen, fun _ => ?_⟩
    have hself : session [(a', method)] a' = [method] := session_map_self [method]
    rw [session_append, hself, asserted_append, heq hs]
    rfl

theorem boundFirst_of_send (hsent : s'.sent = s.sent ++ [(a, method)])
    (hmethod : method.message? = none) : s.BoundFirst s' := by
  intro before b message after heq
  rw [hsent] at heq
  have hlast := append_cancel_left heq
  have hmem : (b, PeerMethod.basicPublish message) ∈ [(a, method)] := by
    rw [hlast]
    simp
  obtain ⟨-, rfl⟩ := Prod.mk.inj (mem_singleton.mp hmem)
  cases hmethod

theorem Synced.propagate (h : s.Synced) (method : PeerMethod) (hmethod : method.message? = none) :
    Synced { s.propagate method with bindings := applyMethod s.bindings method } ∧
      s.BoundFirst { s.propagate method with bindings := applyMethod s.bindings method } ∧
      published (s.propagate method).sent = published s.sent ∧
      (s.propagate method).messages = s.messages := by
  unfold Peering.propagate
  by_cases hc : s.connected = true
  · rw [if_pos hc]
    cases hon : s.online with
    | false =>
      rw [push_of_offline hon]
      exact ⟨h.of_bindings _ fun _ => hon, boundFirst_of_sent_eq rfl, rfl, rfl⟩
    | true =>
      obtain ⟨a, ha, hs⟩ := online_iff.mp hon
      rw [push_of_active ha hs]
      refine ⟨h.send hc ha hs method, boundFirst_of_send rfl hmethod, ?_, rfl⟩
      rw [published_append]
      simp [published, hmethod]
  · rw [if_neg hc]
    exact ⟨h.of_bindings _ fun hc' => absurd hc' hc, boundFirst_of_sent_eq rfl, rfl, rfl⟩

/-- What an event leaves behind. -/
structure Advances (s : Peering) (event : PeeringEvent) (s' : Peering) : Prop where
  synced : s'.Synced
  boundFirst : s.BoundFirst s'
  inOrder : published s'.sent ++ s'.messages =
    published s.sent ++ s.messages ++ event.message?.toList

theorem Synced.bind (h : s.Synced) (routingKey : Shortstr) (arguments : Option Longstr) :
    s.Advances (.bind routingKey arguments) (s.bind routingKey arguments) := by
  unfold Peering.bind
  by_cases hmem : binding routingKey arguments ∈ s.bindings
  · simp only [hmem, if_true]
    exact ⟨h, boundFirst_of_sent_eq rfl, (append_nil _).symm⟩
  · simp only [hmem, if_false]
    obtain ⟨hsynced, hfirst, hpublished, hmessages⟩ :=
      h.propagate (.queueBind (binding routingKey arguments)) rfl
    refine ⟨hsynced, hfirst, ?_⟩
    simp only [hpublished, hmessages, PeeringEvent.message?, Option.toList_none, append_nil]

theorem Synced.unbind (h : s.Synced) {routingKey : Shortstr} {arguments : Option Longstr}
    (hstep : s.unbind routingKey arguments = some s') :
    s.Advances (.unbind routingKey arguments) s' := by
  unfold Peering.unbind at hstep
  simp only at hstep
  split at hstep
  · cases hstep
    obtain ⟨hsynced, hfirst, hpublished, hmessages⟩ :=
      h.propagate (.queueUnbind (binding routingKey arguments)) rfl
    refine ⟨hsynced, hfirst, ?_⟩
    simp only [hpublished, hmessages, PeeringEvent.message?, Option.toList_none, append_nil]
  · cases hstep

theorem Synced.forward (h : s.Synced) {message : PeerMessage}
    (hguard : s.Guarded (.forward message)) :
    s.Advances (.forward message) (s.forward message) := by
  unfold Peering.forward
  by_cases hc : s.connected = true
  · obtain ⟨a, ha, hs⟩ := online_iff.mp (hguard hc)
    obtain ⟨hm, a', ha', -, heq⟩ := h.online hc
    obtain rfl := Option.some.inj (ha'.symm.trans ha)
    rw [if_pos hc, push_of_active ha hs]
    refine ⟨h.send hc ha hs (.basicPublish message), ?_, ?_⟩
    · intro before b message' after hsent
      have hlast := append_cancel_left hsent
      cases before with
      | nil =>
        obtain ⟨hhead, -⟩ := cons.inj hlast
        obtain ⟨rfl, -⟩ := Prod.mk.inj hhead
        rw [append_nil]
        exact heq hs
      | cons entry before =>
        obtain ⟨-, hnil⟩ := cons.inj hlast
        simp at hnil
    · simp only [published_append, hm, append_nil]
      rfl
  · rw [if_neg hc]
    refine ⟨⟨h.agent_lt, h.fresh, h.offline, fun hc' => absurd hc' hc⟩,
      boundFirst_of_sent_eq rfl, ?_⟩
    rw [← append_assoc]
    rfl

/-! ## The replay -/

theorem foldl_applyMethod_publish {bindings : List PeerBinding}
    (h : ∀ method ∈ methods, ∃ message, method = .basicPublish message) :
    methods.foldl applyMethod bindings = bindings := by
  induction methods with
  | nil => rfl
  | cons method methods ih =>
    obtain ⟨message, rfl⟩ := h method mem_cons_self
    exact ih fun method hm => h method (mem_cons_of_mem _ hm)

theorem foldl_applyMethod_bind (bindings bindings' : List PeerBinding) :
    (bindings'.map PeerMethod.queueBind).foldl applyMethod bindings = bindings ++ bindings' := by
  induction bindings' generalizing bindings with
  | nil => simp
  | cons binding bindings' ih =>
    rw [map_cons, foldl_cons, ih]
    simp [applyMethod]

/-- The part of the replay that comes before the messages. -/
def setup (s : Peering) : List PeerMethod :=
  [.queueDeclare true true, .basicConsume true, .exchangeDeclare] ++ s.bindings.map .queueBind

theorem replay_eq (s : Peering) : s.replay = s.setup ++ s.messages.map .basicPublish := rfl

theorem asserted_setup (s : Peering) : asserted s.setup = s.bindings := by
  rw [setup, asserted_append, foldl_applyMethod_bind]
  rfl

theorem message_of_mem_setup (h : method ∈ s.setup) : method.message? = none := by
  simp only [setup, mem_append, mem_cons, not_mem_nil, or_false, mem_map] at h
  rcases h with (rfl | rfl | rfl) | ⟨binding, -, rfl⟩ <;> rfl

theorem asserted_replay (s : Peering) : asserted s.replay = s.bindings := by
  rw [replay_eq, asserted_append, asserted_setup]
  refine foldl_applyMethod_publish fun method hm => ?_
  obtain ⟨message, -, rfl⟩ := mem_map.mp hm
  exact ⟨message, rfl⟩

theorem asserted_before {before after : List PeerMethod} {message : PeerMessage}
    (h : s.replay = before ++ .basicPublish message :: after) : asserted before = s.bindings := by
  rw [replay_eq, append_eq_append_iff] at h
  rcases h with ⟨rest, rfl, hmessages⟩ | ⟨rest, hsetup, hrest⟩
  · rw [asserted_append, asserted_setup]
    refine foldl_applyMethod_publish fun method hm => ?_
    have hmem : method ∈ s.messages.map PeerMethod.basicPublish := by
      rw [hmessages]
      exact mem_append_left _ hm
    obtain ⟨message, -, rfl⟩ := mem_map.mp hmem
    exact ⟨message, rfl⟩
  · cases rest with
    | nil => rw [← asserted_setup, hsetup, append_nil]
    | cons method rest =>
      obtain ⟨rfl, -⟩ := cons.inj hrest
      have hmem : PeerMethod.basicPublish message ∈ s.setup := by
        rw [hsetup]
        simp
      cases message_of_mem_setup hmem

theorem message_replay (s : Peering) : s.replay.filterMap PeerMethod.message? = s.messages := by
  have hsetup : s.setup.filterMap PeerMethod.message? = [] :=
    filterMap_eq_nil_iff.mpr fun method hm => message_of_mem_setup hm
  rw [replay_eq, filterMap_append, hsetup, nil_append, filterMap_map]
  simp [comp_def, PeerMethod.message?]

/-- The connection takes the whole replay, or closes after it has taken all messages. -/
theorem Synced.replayed (h : s.Synced) (hc : s.connected = false) (ha : s.agent = some a)
    {cut : Option Nat} {rest : List PeerMethod} {agents : AgentRef → AgentState}
    {openOks : List AgentRef} (hmethods : s.replay = methods ++ rest)
    (hmessages : methods.filterMap PeerMethod.message? = s.messages)
    (hopen : agents a ≠ .opening) (hactive : agents a = .active → rest = [])
    (hother : ∀ b, a ≠ b → agents b = s.agents b) :
    s.Advances (.channelOpenOk cut) { s with
      connected := true, messages := [], agents, openOks
      sent := s.sent ++ methods.map fun method => (a, method) } := by
  have hempty : session s.sent a = [] := h.offline hc a ha
  refine ⟨⟨h.agent_lt, fun b hb => ?_, fun hc' => ?_, fun _ => ?_⟩, ?_, ?_⟩
  · obtain ⟨hsession, hzombie⟩ := h.fresh b hb
    have hne := h.lt_of_agent ha hb
    exact ⟨by rw [session_append, hsession, session_map_of_ne hne, append_nil],
      (hother b hne).trans hzombie⟩
  · cases hc'
  · refine ⟨rfl, a, ha, hopen, fun hs => ?_⟩
    rw [hactive hs, append_nil] at hmethods
    rw [session_append, hempty, session_map_self, nil_append, ← hmethods]
    exact asserted_replay s
  · intro before b message after hsent
    have hmap := append_cancel_left hsent
    obtain ⟨before', after', rfl, rfl, hafter⟩ := map_eq_append_iff.mp hmap
    obtain ⟨method, after', rfl, hmethod, -⟩ := map_eq_cons_iff.mp hafter
    obtain ⟨rfl, rfl⟩ := Prod.mk.inj hmethod
    rw [session_append, hempty, session_map_self, nil_append]
    refine asserted_before (s := s) (?_ : _ = _ ++ .basicPublish message :: (after' ++ rest))
    rw [hmethods]
    simp
  · simp only [published_append, published_map, hmessages, PeeringEvent.message?,
      Option.toList_none, append_nil]

/-- The bindings are replayed, and the messages that waited follow. -/
theorem Synced.channelOpenOk {cut : Option Nat} (h : s.Synced)
    (hguard : s.Guarded (.channelOpenOk cut)) (hstep : s.step (.channelOpenOk cut) = some s') :
    s.Advances (.channelOpenOk cut) s' := by
  simp only [step] at hstep
  split at hstep
  · next agent openOks hoks =>
    cases hstep
    unfold initialisePeering
    cases hc : s.connected with
    | true =>
      exact ⟨⟨h.agent_lt, h.fresh, h.offline, h.online⟩, boundFirst_of_sent_eq rfl,
        (append_nil _).symm⟩
    | false =>
      obtain ⟨hon, hcut⟩ := hguard hc (by rw [hoks]; exact cons_ne_nil _ _)
      obtain ⟨a, ha, hs⟩ := online_iff.mp hon
      have hpush : ∀ methods, pushAll { s with connected := true } methods = { s with
            connected := true
            sent := s.sent ++ methods.map fun method => (a, method) } := fun methods =>
        pushAll_of_active ha hs
      cases cut with
      | none =>
        simp only [Bool.false_eq_true, if_false, hpush]
        exact h.replayed hc ha (append_nil _).symm (message_replay s) (by simp [hs])
          (fun _ => rfl) fun _ _ => rfl
      | some n =>
        have hclose : closeAgent { s with
            connected := true
            sent := s.sent ++ (s.replay.take n).map fun method => (a, method) } =
            { s with
              connected := true
              sent := s.sent ++ (s.replay.take n).map fun method => (a, method)
              agents := update s.agents a .closing } := by
          simp [closeAgent, setAgent, ha, hs]
        have hmessages : (s.replay.take n).filterMap PeerMethod.message? = s.messages := by
          rcases hcut n rfl with hm | hn
          · have hnone := filterMap_eq_nil_iff.mp ((message_replay s).trans hm)
            rw [hm]
            exact filterMap_eq_nil_iff.mpr fun method hmem =>
              hnone method (mem_of_mem_take hmem)
          · rw [take_of_length_le hn, message_replay]
        simp only [Bool.false_eq_true, if_false]
        have hreplay : replay { s with connected := true } = s.replay := rfl
        rw [hreplay, hpush, hclose]
        exact h.replayed hc ha (take_append_drop n s.replay).symm hmessages (by simp)
          (by simp) fun b hne => update_of_ne hne.symm _ _
  · next hoks =>
    cases hstep
    exact ⟨h, boundFirst_of_sent_eq rfl, (append_nil _).symm⟩

/-! ## Connections -/

theorem Synced.advances {event : PeeringEvent} (h : s'.Synced) (hsent : s'.sent = s.sent)
    (hmessages : s'.messages = s.messages) (hevent : event.message? = none) :
    s.Advances event s' := by
  refine ⟨h, boundFirst_of_sent_eq hsent, ?_⟩
  rw [hsent, hmessages, hevent]
  exact (append_nil _).symm

theorem Synced.of_agents (h : s.Synced) {agents : AgentRef → AgentState} {openOks : List AgentRef}
    (hfresh : ∀ b, s.nextAgent ≤ b → agents b = .zombie)
    (hused : ∀ a, s.agents a ≠ .opening → agents a = .opening ∨ agents a = .active →
      agents a = s.agents a) : Synced { s with agents, openOks } where
  agent_lt := h.agent_lt
  fresh b hb := ⟨(h.fresh b hb).1, hfresh b hb⟩
  offline := h.offline
  online hc := by
    obtain ⟨hm, a, ha, hopen, heq⟩ := h.online hc
    refine ⟨hm, a, ha, fun hs => ?_, fun hs => heq ?_⟩
    · have hs' := hused a hopen (Or.inl hs)
      exact hopen (hs'.symm.trans hs)
    · exact (hused a hopen (Or.inr hs)).symm.trans hs

theorem setAgent_of_ne {state : AgentState} (h : b ≠ a) :
    (s.setAgent a state).agents b = s.agents b :=
  update_of_ne h _ _

theorem Synced.lt_of_agents (h : s.Synced) (hs : s.agents a ≠ .zombie) : a < s.nextAgent := by
  by_contra hle
  exact hs (h.fresh a (Nat.le_of_not_lt hle)).2

theorem Synced.agentOpens (h : s.Synced) (hs : s.agents a = .opening) :
    Synced { s.setAgent a .active with openOks := s.openOks ++ [a] } := by
  have hlt := h.lt_of_agents (a := a) (by simp [hs])
  refine h.of_agents (fun b hb => ?_) fun b hb _ => ?_
  · have hne : b ≠ a := Nat.ne_of_gt (Nat.lt_of_lt_of_le hlt hb)
    exact (setAgent_of_ne hne).trans (h.fresh b hb).2
  · have hne : b ≠ a := by
      rintro rfl
      exact hb hs
    exact setAgent_of_ne hne

theorem Synced.setAgent (h : s.Synced) {state : AgentState}
    (hstate : state = .zombie ∨ state = .closing ∧ s.agents a ≠ .zombie) :
    (s.setAgent a state).Synced := by
  refine h.of_agents (fun b hb => ?_) fun b _ hb => ?_
  · by_cases hne : b = a
    · subst hne
      rcases hstate with rfl | ⟨-, hz⟩
      · exact update_self ..
      · exact absurd (h.fresh b hb).2 hz
    · exact (setAgent_of_ne hne).trans (h.fresh b hb).2
  · by_cases hne : b = a
    · subst hne
      rcases hstate with rfl | ⟨rfl, -⟩ <;> simp at hb
    · exact setAgent_of_ne hne

theorem Synced.closeAgent (h : s.Synced) : s.closeAgent.Synced := by
  unfold Peering.closeAgent
  split
  · split
    · exact h
    · next hz => exact h.setAgent (Or.inr ⟨rfl, hz⟩)
  · exact h

theorem Synced.terminatePeering (h : s.Synced) : s.terminatePeering.Synced where
  agent_lt _ ha := by cases ha
  fresh := h.closeAgent.fresh
  offline _ _ ha := by cases ha
  online hc := by cases hc

theorem Synced.newAgent (h : s.Synced) (ha : s.agent = none) : s.newAgent.Synced where
  agent_lt a hnew := by
    cases hnew
    exact Nat.lt_succ_self _
  fresh b hb := by
    have hlt : s.nextAgent < b := hb
    obtain ⟨hsession, hzombie⟩ := h.fresh b (Nat.le_of_lt hlt)
    exact ⟨hsession, (update_of_ne (Nat.ne_of_gt hlt) _ _).trans hzombie⟩
  offline _ a hnew := by
    cases hnew
    exact (h.fresh _ (Nat.le_refl _)).1
  online hc := by
    obtain ⟨-, a, ha', -⟩ := h.online hc
    rw [ha] at ha'
    cases ha'

theorem Synced.monitor (h : s.Synced) : s.Advances .monitor s.monitor := by
  unfold Peering.monitor
  split
  · split
    · obtain ⟨agents, heq⟩ := s.closeAgent_eq
      refine h.terminatePeering.advances ?_ ?_ rfl <;> rw [Peering.terminatePeering, heq]
    · exact h.advances rfl rfl rfl
  · next ha =>
    split
    · exact (h.newAgent ha).advances rfl rfl rfl
    · exact h.advances rfl rfl rfl

/-- A guarded event takes the peering on, and leaves what holds between events. -/
theorem Synced.step {event : PeeringEvent} (h : s.Synced) (hguard : s.Guarded event)
    (hstep : s.step event = some s') : s.Advances event s' := by
  cases event with
  | bind routingKey arguments =>
    cases hstep
    exact h.bind routingKey arguments
  | unbind routingKey arguments => exact h.unbind hstep
  | forward message =>
    cases hstep
    exact h.forward hguard
  | start =>
    cases hstep
    have hsynced : Synced { s with enabled := true } := ⟨h.agent_lt, h.fresh, h.offline, h.online⟩
    exact hsynced.advances rfl rfl rfl
  | stop =>
    cases hstep
    have hsynced : Synced { s with enabled := false } := ⟨h.agent_lt, h.fresh, h.offline, h.online⟩
    exact hsynced.advances rfl rfl rfl
  | monitor =>
    cases hstep
    exact h.monitor
  | agentOpens agent =>
    simp only [Peering.step] at hstep
    split at hstep
    · next hs =>
      cases hstep
      exact (h.agentOpens hs).advances rfl rfl rfl
    · cases hstep
      exact h.advances rfl rfl rfl
  | agentCloses agent =>
    simp only [Peering.step] at hstep
    split at hstep
    · cases hstep
      exact h.advances rfl rfl rfl
    · next hz =>
      cases hstep
      exact (h.setAgent (Or.inr ⟨rfl, hz⟩)).advances rfl rfl rfl
  | agentEnds agent =>
    cases hstep
    exact (h.setAgent (Or.inl rfl)).advances rfl rfl rfl
  | channelOpenOk cut => exact h.channelOpenOk hguard hstep

/-! ## Whole runs -/

/--
Whatever is bound, unbound and forwarded, and however connections come and go: as long as all
events are guarded, the peer has the bindings of the peering when a connection is up, has them
before each message, and gets every message once and in the order in which they were accepted.
-/
theorem peering_replay {exchange : Shortstr} {exchangeType : ExchangeType}
    {events : List PeeringEvent}
    (hguard : Lib.Along step Guarded (new exchange exchangeType) events) :
    Lib.Along step Sound (new exchange exchangeType) events ∧
      ∀ s, Lib.run step (new exchange exchangeType) events = some s →
        published s.sent ++ s.messages = accepted events := by
  have hnew := new_synced exchange exchangeType
  constructor
  · refine Lib.along_of_invariant (I := Synced) (fun s event h hg s' hs => ?_)
      (fun s event s' h hg hs => (h.step hg hs).synced) hnew hguard
    have hadvances := h.step hg hs
    exact ⟨hadvances.synced.inStep, hadvances.boundFirst⟩
  · intro s hrun
    have hkeep : ∀ es (t : Peering) event t',
        t.Synced ∧ published t.sent ++ t.messages = accepted es → t.Guarded event →
          t.step event = some t' →
            t'.Synced ∧ published t'.sent ++ t'.messages = accepted (es ++ [event]) := by
      intro es t event t' ⟨h, horder⟩ hg hs
      have hadvances := h.step hg hs
      refine ⟨hadvances.synced, ?_⟩
      rw [hadvances.inOrder, horder, accepted, accepted, filterMap_append]
      cases event <;> rfl
    exact (Lib.run_history (I := fun es t => t.Synced ∧
      published t.sent ++ t.messages = accepted es) hkeep [] ⟨hnew, rfl⟩ hguard hrun).2

section Reconnect

def message (id : Nat) : PeerMessage :=
  ⟨.empty, { id, producerId := 0, bodySize := 1 }, false, false⟩

/-- The peering starts, and its first connection comes up. -/
def connect : List PeeringEvent :=
  [.start, .monitor, .agentOpens 0, .channelOpenOk none]

/-- That connection ends, and the monitor starts the next one. -/
def reconnect : List PeeringEvent :=
  connect ++ [.forward (message 0), .agentEnds 0, .monitor, .bind .empty none,
    .forward (message 1), .monitor, .agentOpens 1, .channelOpenOk none, .forward (message 2)]

theorem replay_reconnect : Lib.Along step Sound (new .empty .direct) reconnect ∧
      ∀ s, Lib.run step (new .empty .direct) reconnect = some s →
        published s.sent ++ s.messages = accepted reconnect :=
  peering_replay (by decide +kernel)

/-- The first connection ends, and a message comes before the monitor has seen that. -/
def outage : List PeeringEvent :=
  connect ++ [.agentEnds 0, .forward (message 0), .monitor, .monitor, .agentOpens 1,
    .channelOpenOk none]

theorem outage_loses : ∃ s, Lib.run step (new .empty .direct) outage = some s ∧ s.online = true ∧
      s.connected = true ∧ accepted outage = [message 0] ∧
      published s.sent = [] ∧ s.messages = [] := by
  refine ⟨_, rfl, ?_⟩
  decide +kernel

end Reconnect

end Peering

end OpenAmq
