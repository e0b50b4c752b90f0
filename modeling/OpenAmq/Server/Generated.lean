import OpenAmq.Server.Race

/-!
# Generated names

When a client leaves the name of a queue or the tag of a consumer blank, the server takes the next
number of a counter. Nothing keeps clients from choosing such names themselves.

* `Declare.Unclaimed` — the generated name of a queue is not in use
* `Declare.Created` — the declare has ended with a new queue of that name
* `Declares.generated_fresh` — generated names are fresh where they are not in use
-/

namespace OpenAmq

open Option List

/-! ## Names of queues -/

/-- The client leaves the name to the server, and wants a queue in any case. -/
def Declare.generated (d : Declare) : Bool := decide (d.method.queue = .empty) && !d.method.passive

/--
The next step of a declare finds no queue of that name, and there is nothing else that keeps it
from creating one.
-/
def Declare.Unclaimed (cfg : ServerConfig) (s : Server) (d : Declare) : Prop :=
  match d.phase with
  | .search => s.queueTable d.name = none ∧ d.method.durable = false
  | .new => s.queueTable d.name = none ∧ Server.knownProfile cfg d.method = true
  | .bind => ∀ ref ∈ d.queue, s.HasRoom cfg ref
  | .searchAgain | .own | .test | .reply | .done => True

def Declares.Unclaimed (cfg : ServerConfig) (s : Declares) : DeclaresEvent → Prop
  | .server _ => True
  | .advance connection =>
    ∀ d ∈ s.pending connection, d.generated = true → d.Unclaimed cfg s.server

instance (cfg : ServerConfig) (s : Server) : (d : Declare) → Decidable (d.Unclaimed cfg s)
  | ⟨_, _, _, _, .search, _, _, _⟩ => inferInstanceAs (Decidable (_ ∧ _))
  | ⟨_, _, _, _, .new, _, _, _⟩ => inferInstanceAs (Decidable (_ ∧ _))
  | ⟨_, _, _, _, .bind, queue, _, _⟩ =>
    inferInstanceAs (Decidable (∀ ref ∈ queue, s.HasRoom cfg ref))
  | ⟨_, _, _, _, .searchAgain, _, _, _⟩ | ⟨_, _, _, _, .own, _, _, _⟩
  | ⟨_, _, _, _, .test, _, _, _⟩ | ⟨_, _, _, _, .reply, _, _, _⟩
  | ⟨_, _, _, _, .done, _, _, _⟩ => isTrue trivial

instance (cfg : ServerConfig) (s : Declares) :
    (event : DeclaresEvent) → Decidable (s.Unclaimed cfg event)
  | .server _ => isTrue trivial
  | .advance connection => inferInstanceAs (Decidable
      (∀ d ∈ s.pending connection, d.generated = true → d.Unclaimed cfg s.server))

/-- The queue has not been in the table when the declare has arrived, and is as asked for. -/
structure Declare.HasNew (s : Server) (connection : ConnectionId) (d : Declare) : Prop where
  satisfied : d.Satisfied s connection
  new : ∀ ref ∈ d.queue, ∀ name, d.tableBefore name ≠ some ref

/-- The client has a new queue, and has been told its name if it waits for that. -/
structure Declare.Created (s : Server) (connection : ConnectionId) (d : Declare) : Prop
    extends d.HasNew s connection where
  name : ∃ index, d.name = .cpy ("auto.".toList ++ counterText index)
  answers : ∃ messageCount consumerCount, d.answers =
    if d.method.nowait then [] else [.queueDeclareOk d.channel d.name messageCount consumerCount]

/-- How far a declare has got with its new queue. -/
def Declare.Fresh (s : Server) (connection : ConnectionId) (d : Declare) : Prop :=
  match d.phase with
  | .search | .new => True
  | .searchAgain => False
  | .bind | .test | .reply => d.answers = [] ∧ d.HasNew s connection
  | .own => d.answers = [] ∧ d.HasNew s connection ∧ d.method.exclusive = true
  | .done => d.HasNew s connection ∧ ∃ messageCount consumerCount, d.answers =
      if d.method.nowait then [] else [.queueDeclareOk d.channel d.name messageCount consumerCount]

/-- What holds between the steps of a declare, whatever others do. -/
structure Declare.Made (s : Server) (connection : ConnectionId) (d : Declare) : Prop where
  before : ∀ name ref, d.tableBefore name = some ref → ref < s.nextQueue
  name : d.generated = true → ∃ index, d.name = .cpy ("auto.".toList ++ counterText index)
  fresh : d.generated = true → d.Fresh s connection

namespace Server

variable {cfg : ServerConfig} {s s' : Server} {connection : ConnectionId} {d : Declare}
  {r : Server × Declare}

theorem Grows.hasNew (h : s.Grows s') (hd : d.HasNew s connection) : d.HasNew s' connection :=
  ⟨h.satisfied hd.satisfied, hd.new⟩

theorem Grows.made (h : s.Grows s') (hd : d.Made s connection) : d.Made s' connection := by
  refine ⟨fun name ref ht => (hd.before name ref ht).trans_le h.nextQueue, hd.name, fun hg => ?_⟩
  have hf := hd.fresh hg
  unfold Declare.Fresh at hf ⊢
  cases hp : d.phase with
  | search | new => trivial
  | searchAgain => simp only [hp] at hf
  | bind =>
    simp only [hp] at hf ⊢
    exact ⟨hf.1, h.hasNew hf.2⟩
  | own =>
    simp only [hp] at hf ⊢
    exact ⟨hf.1, h.hasNew hf.2.1, hf.2.2⟩
  | test | reply =>
    simp only [hp] at hf ⊢
    exact ⟨hf.1, h.hasNew hf.2⟩
  | done =>
    simp only [hp] at hf ⊢
    exact ⟨h.hasNew hf.1, hf.2⟩

theorem takeDeclare_made (hr : s.Registered) (channel : ChannelRef) (method : DeclareMethod)
    (connection : ConnectionId) :
    (s.takeDeclare channel method).2.Made (s.takeDeclare channel method).1 connection := by
  have haside := s.takeDeclare_aside channel method
  refine ⟨fun name ref ht => ?_, fun hg => ?_, fun _ => trivial⟩
  · rw [haside.nextQueue]
    exact hr.lt name ref ht
  · have hblank : method.queue = .empty := of_decide_eq_true (Bool.and_eq_true_iff.mp hg).1
    refine ⟨s.queueIndex, ?_⟩
    simp only [takeDeclare, declareName, hblank, if_true]

theorem advance_same (h : s.advance cfg connection d = some r) :
    r.2.method = d.method ∧ r.2.name = d.name ∧ r.2.tableBefore = d.tableBefore := by
  unfold advance at h
  split at h
  · split at h
    · cases h
      exact ⟨rfl, rfl, rfl⟩
    · split at h <;>
      · cases h
        exact ⟨rfl, rfl, rfl⟩
  · obtain ⟨t, -, rfl⟩ := map_eq_some_iff.mp h
    exact ⟨rfl, rfl, rfl⟩
  · split at h <;>
    · cases h
      exact ⟨rfl, rfl, rfl⟩
  · obtain ⟨ref, -, h⟩ := bind_eq_some_iff.mp h
    obtain ⟨bound, -, rfl⟩ := map_eq_some_iff.mp h
    exact ⟨rfl, rfl, rfl⟩
  · obtain ⟨ref, -, h⟩ := bind_eq_some_iff.mp h
    obtain ⟨owned, -, rfl⟩ := map_eq_some_iff.mp h
    exact ⟨rfl, rfl, rfl⟩
  · obtain ⟨ref, -, rfl⟩ := map_eq_some_iff.mp h
    split <;> exact ⟨rfl, rfl, rfl⟩
  · obtain ⟨ref, -, rfl⟩ := map_eq_some_iff.mp h
    exact ⟨rfl, rfl, rfl⟩
  · cases h
    exact ⟨rfl, rfl, rfl⟩

theorem search_fresh (hp : d.phase = .search) (hpassive : d.method.passive = false)
    (hok : d.Unclaimed cfg s) (h : s.advance cfg connection d = some r) :
    r.2.Fresh r.1 connection := by
  simp only [Declare.Unclaimed, hp] at hok
  have hno : ¬ (d.method.passive || d.method.durable) = true := by
    rw [hpassive, hok.2]
    exact Bool.false_ne_true
  simp only [advance, hp, hok.1, if_neg hno] at h
  cases h
  trivial

theorem new_fresh (hp : d.phase = .new)
    (hbefore : ∀ name ref, d.tableBefore name = some ref → ref < s.nextQueue)
    (hok : d.Unclaimed cfg s) (h : s.advance cfg connection d = some r) :
    r.2.Fresh r.1 connection := by
  simp only [Declare.Unclaimed, hp] at hok
  simp only [advance, hp] at h
  obtain ⟨t, hnew, rfl⟩ := map_eq_some_iff.mp h
  rcases queueNew_cases hnew with ⟨-, -, hfound⟩ | ⟨queue, hx, hc, -, rfl⟩
  · have hsome := (hfound hok.2).2
    rw [hok.1] at hsome
    cases hsome
  · refine ⟨rfl, addQueue_satisfied rfl hx hc, fun ref href name ht => ?_⟩
    cases href
    exact Nat.lt_irrefl _ (hbefore name _ ht)

theorem bind_fresh (hp : d.phase = .bind) (hd : d.Fresh s connection)
    (h : s.advance cfg connection d = some r) : r.2.Fresh r.1 connection := by
  simp only [Declare.Fresh, hp] at hd
  simp only [advance, hp] at h
  obtain ⟨ref, -, h⟩ := bind_eq_some_iff.mp h
  obtain ⟨bound, hbound, rfl⟩ := map_eq_some_iff.mp h
  have hnew := (bindDefault_aside hbound).grows.hasNew hd.2
  cases hx : d.method.exclusive with
  | true => exact ⟨hd.1, ⟨hnew.satisfied, hnew.new⟩, hx⟩
  | false => exact ⟨hd.1, hnew.satisfied, hnew.new⟩

theorem own_fresh (hp : d.phase = .own) (hd : d.Fresh s connection)
    (h : s.advance cfg connection d = some r) : r.2.Fresh r.1 connection := by
  simp only [Declare.Fresh, hp] at hd
  simp only [advance, hp] at h
  obtain ⟨ref, -, h⟩ := bind_eq_some_iff.mp h
  obtain ⟨owned, howned, rfl⟩ := map_eq_some_iff.mp h
  obtain ⟨-, rfl⟩ := ownQueue_eq_some howned
  exact ⟨hd.1, hd.2.1.satisfied, hd.2.1.new⟩

theorem test_fresh (hp : d.phase = .test) (hd : d.Fresh s connection)
    (h : s.advance cfg connection d = some r) : r.2.Fresh r.1 connection := by
  simp only [Declare.Fresh, hp] at hd
  simp only [advance, hp] at h
  obtain ⟨ref, href, rfl⟩ := map_eq_some_iff.mp h
  obtain ⟨ref', href', -, -, hx⟩ := hd.2.satisfied
  obtain rfl := some.inj (href.symm.trans href')
  have hgranted := ownership_granted_iff.mpr fun he => (hx he).2
  rw [hgranted]
  exact ⟨hd.1, hd.2.satisfied, hd.2.new⟩

theorem reply_fresh (hp : d.phase = .reply) (hd : d.Fresh s connection)
    (h : s.advance cfg connection d = some r) : r.2.Fresh r.1 connection := by
  simp only [Declare.Fresh, hp] at hd
  simp only [advance, hp] at h
  obtain ⟨ref, href, rfl⟩ := map_eq_some_iff.mp h
  obtain ⟨ref', href', -, hname, -⟩ := hd.2.satisfied
  obtain rfl := some.inj (href.symm.trans href')
  exact ⟨⟨hd.2.satisfied, hd.2.new⟩, _, _, declareOk_answers hd.1 hname⟩

theorem advance_made (hr : s.Registered) (hd : d.Made s connection)
    (hok : d.generated = true → d.Unclaimed cfg s) (h : s.advance cfg connection d = some r) :
    r.2.Made r.1 connection := by
  obtain ⟨hmethod, hname, hbefore⟩ := advance_same h
  have hgrows := (advance_registered hr h).2
  have hgenerated : r.2.generated = d.generated := by
    unfold Declare.generated
    rw [hmethod]
  refine ⟨fun name ref ht => ?_, fun hg => ?_, fun hg => ?_⟩
  · rw [hbefore] at ht
    exact (hd.before name ref ht).trans_le hgrows.nextQueue
  · rw [hname]
    exact hd.name (hgenerated ▸ hg)
  · rw [hgenerated] at hg
    have hf := hd.fresh hg
    cases hp : d.phase with
    | search =>
      have hpassive : d.method.passive = false := by
        simpa using (Bool.and_eq_true_iff.mp hg).2
      exact search_fresh hp hpassive (hok hg) h
    | new => exact new_fresh hp hd.before (hok hg) h
    | searchAgain => simp only [Declare.Fresh, hp] at hf
    | bind => exact bind_fresh hp hf h
    | own => exact own_fresh hp hf h
    | test => exact test_fresh hp hf h
    | reply => exact reply_fresh hp hf h
    | done =>
      simp only [advance, hp] at h
      cases h
      exact hf

theorem advance_tagged (ht : s.broker.Tagged) (h : s.advance cfg connection d = some r) :
    r.1.broker.Tagged := by
  rcases advance_cases h with haside | ⟨queue, -, -, -, -, heq⟩ | ⟨ref, -, -, hown⟩
  · exact haside.changes.tagged ht
  · rw [heq]
    exact ⟨ht.lt, ht.nodup⟩
  · obtain ⟨-, heq⟩ := ownQueue_eq_some hown
    rw [heq]
    exact ht

theorem new_tagged (channels : ChannelRef → Channel) : (new channels).broker.Tagged := by
  unfold new
  refine foldl_exchangeNew (P := fun s => s.broker.Tagged) (fun s type name h => ?_) predeclared ?_
  · exact ⟨h.lt, h.nodup⟩
  · exact ⟨fun _ _ hm => absurd hm not_mem_nil, fun _ => nodup_nil⟩

theorem ready_of_fresh (hd : d.Fresh s connection) (hok : d.Unclaimed cfg s) : d.Ready cfg s := by
  unfold Declare.Fresh at hd
  unfold Declare.Unclaimed at hok
  unfold Declare.Ready
  cases hp : d.phase with
  | search => trivial
  | new =>
    simp only [hp] at hok ⊢
    exact hok.2
  | searchAgain => trivial
  | bind =>
    simp only [hp] at hd hok ⊢
    obtain ⟨ref, href, -⟩ := hd.2.satisfied
    exact ⟨ref, href, hok ref href⟩
  | own =>
    simp only [hp] at hd ⊢
    obtain ⟨ref, href, -, -, hx⟩ := hd.2.1.satisfied
    exact ⟨ref, href, (hx hd.2.2).1⟩
  | test | reply =>
    simp only [hp] at hd ⊢
    obtain ⟨ref, href, -⟩ := hd.2.satisfied
    exact isSome_of_mem href
  | done => trivial

end Server

/-! ## Tags of consumers -/

namespace Broker

/-- The next request of the channel is to create a consumer whose tag is left to the server. -/
def Untagged (self : Broker) (connection : ConnectionId) (channel : ChannelRef) (queue : QueueRef)
    (method : ConsumeMethod) : Prop :=
  (self.store.channels channel).connection = some connection ∧ method.consumerTag = .empty ∧
    ∃ inbox, (self.channels channel).inbox = .consume queue method :: inbox

/-- The connection gets a new consumer of the queue, with a tag that none of its others has. -/
def Consumes (s s' : Broker) (connection : ConnectionId) (channel : ChannelRef)
    (queue : QueueRef) : Prop :=
  ∃ ref ∉ (s.connections connection).consumerTable, (s'.connections connection).consumerTable =
        (s.connections connection).consumerTable ++ [ref] ∧
      (s'.store.consumers ref).channel = channel ∧ (s'.store.consumers ref).queue = queue ∧
      s'.tags connection = s.tags connection ++ [(s'.store.consumers ref).tag] ∧
      (s'.store.consumers ref).tag ∉ s.tags connection

variable {config : Config} {s : Broker} {connection : ConnectionId} {channel : ChannelRef}
  {queue : QueueRef} {method : ConsumeMethod}

theorem addConsumer_consumes (h : s.Tagged) {parent : ServerConnection}
    (hp : parent.consumerTable = (s.connections connection).consumerTable) {consumer : Consumer}
    (hnew : consumer.tag ∉ s.tags connection) :
    s.Consumes (s.addConsumer connection parent consumer) connection consumer.channel
      consumer.queue := by
  have hnot : s.nextConsumer ∉ (s.connections connection).consumerTable :=
    fun hm => Nat.lt_irrefl _ (h.lt connection _ hm)
  have htable : ((s.addConsumer connection parent consumer).connections connection).consumerTable =
      parent.consumerTable ++ [s.nextConsumer] := by
    simp only [addConsumer, setConnection, Function.update_self]
  have hconsumer : (s.addConsumer connection parent consumer).store.consumers s.nextConsumer =
      consumer := Function.update_self ..
  refine ⟨s.nextConsumer, hnot, htable.trans (by rw [hp]), ?_, ?_, ?_, ?_⟩
  · rw [hconsumer]
  · rw [hconsumer]
  · rw [hconsumer]
    exact addConsumer_tags h hp consumer
  · rw [hconsumer]
    exact hnew

theorem consumes_congr {s' t : Broker} (hc : s'.connections = t.connections)
    (hs : s'.store.consumers = t.store.consumers) :
    s.Consumes s' connection channel queue ↔ s.Consumes t connection channel queue := by
  unfold Consumes tags
  rw [hc, hs]

/-- A consumer is created first, and what comes then does not matter to its connection. -/
theorem consume_untagged (s : Broker) (config : Config) (connection : ConnectionId)
    (channel : ChannelRef) (queue : QueueRef) (hempty : method.consumerTag = .empty) :
    (s.consume config channel connection queue method).1.connections =
        (s.newConsumer connection channel queue method).1.connections ∧
      (s.consume config channel connection queue method).1.store.consumers =
        (s.newConsumer connection channel queue method).1.store.consumers := by
  unfold consume
  simp only [if_pos hempty]
  split
  · next created consumer heq =>
    rw [heq]
    exact ⟨rfl, rfl⟩
  · next created heq =>
    rw [heq]
    exact ⟨rfl, rfl⟩

theorem consume_consumes_iff (h : s.Tagged) (hempty : method.consumerTag = .empty) :
    s.Consumes (s.consume config channel connection queue method).1 connection channel queue ↔
      s.newTag connection method ∉ s.tags connection := by
  have hparent := takeTag_consumerTable (s.connections connection) method.consumerTag
  obtain ⟨hconnections, hconsumers⟩ := s.consume_untagged config connection channel queue hempty
  rw [consumes_congr hconnections hconsumers]
  constructor
  · rintro ⟨ref, -, htable, -⟩ hm
    rw [newConsumer_of_mem hm, setConnection_same, hparent] at htable
    exact absurd (self_eq_append_right.mp htable) (cons_ne_nil _ _)
  · intro hfree
    rw [newConsumer_of_notMem hfree]
    exact addConsumer_consumes h hparent hfree

theorem channelStep_untagged (hu : s.Untagged connection channel queue method) :
    ∃ inbox, s.step config (.channelStep channel) =
      some ((s.setServerChannel channel { s.channels channel with inbox }).consume config channel
        connection queue method) := by
  obtain ⟨hc, -, inbox, hi⟩ := hu
  refine ⟨inbox, ?_⟩
  simp only [step, hc, hi]
  rfl

end Broker

/-- A channel works as it does without timers. -/
theorem AutoDelete.step_channelStep {config : Config} (timeout : Nat) {s : AutoDelete}
    {channel : ChannelRef} {r : Broker × List Reply}
    (hb : s.broker.step config (.channelStep channel) = some r) :
    ∃ t, s.step config timeout (.broker (.channelStep channel)) = some (t, []) ∧
      t.broker = r.1 := by
  refine ⟨r.2.foldl (handle timeout) { s with broker := r.1 }, ?_, ?_⟩
  · simp only [step, ready, hb]
  · rw [foldl_handle_broker]

namespace Declares

variable {cfg : ServerConfig} {s : Declares} {log : List (ConnectionId × Declare)}
  {events : List DeclaresEvent}

/-- A channel works as it does without declares. -/
theorem step_channelStep {channel : ChannelRef} {r : Broker × List Reply}
    (hb : s.server.broker.step cfg.queues (.channelStep channel) = some r) :
    ∃ t, s.step cfg (.server (.thread (.broker (.channelStep channel)))) = some t ∧
      t.1.server.broker = r.1 := by
  have hobjects : s.server.objects.broker.step cfg.queues (.channelStep channel) = some r := hb
  obtain ⟨objects, hstep, hbroker⟩ := AutoDelete.step_channelStep cfg.queueTimeout hobjects
  refine ⟨(⟨{ s.server with objects }, s.pending⟩, []), ?_, hbroker⟩
  simp only [step, busy, ServerEvent.declare?, Server.step, AutoDeleteEvent.requested,
    Bool.false_eq_true, if_false, hstep, map_some]

/-! ## Runs in which names are not in use -/

/-- The state after a run, and the declares that have ended. -/
structure Minted (s : Declares) (log : List (ConnectionId × Declare)) : Prop where
  registered : s.server.Registered
  tagged : s.server.broker.Tagged
  made : Holds Declare.Made s log

variable {r : Declares × List (ConnectionId × Declare)}

theorem Minted.move (h : Minted s log) {event : DeclaresEvent} (hok : s.Unclaimed cfg event)
    (hm : Move cfg s event r) : Minted r.1 (log ++ r.2) := by
  obtain ⟨hregistered, hmade⟩ := h.made.move h.registered hm (fun t c d hgrows _ => hgrows.made)
    (fun channel method c => Server.takeDeclare_made h.registered channel method c)
    fun c d t he hd hmade ht => by
      subst he
      exact Server.advance_made h.registered hmade (hok d hd) ht
  refine ⟨hregistered, ?_, hmade⟩
  cases hm with
  | other hno hs => exact (Server.step_aside hno hs).changes.tagged h.tagged
  | @take event channel method connection hd hc hidle =>
    rw [proceed_server]
    exact (s.server.takeDeclare_aside channel method).changes.tagged h.tagged
  | advance hd ht =>
    rw [proceed_server]
    exact Server.advance_tagged h.tagged ht

/-- Every step of the run is one of a declare whose name is not in use, or of something else. -/
def AlwaysUnclaimed (cfg : ServerConfig) (channels : ChannelRef → Channel)
    (events : List DeclaresEvent) : Prop :=
  Lib.Along (Lib.logged (step cfg)) (fun s event => s.1.Unclaimed cfg event)
    (new channels, []) events

instance (cfg : ServerConfig) (channels : ChannelRef → Channel) (events : List DeclaresEvent) :
    Decidable (AlwaysUnclaimed cfg channels events) :=
  inferInstanceAs (Decidable (Lib.Along _ _ _ _))

/-- If names are not in use, declares that have ended made their queues. -/
theorem minted_of_run {channels : ChannelRef → Channel}
    (hok : AlwaysUnclaimed cfg channels events)
    (hr : (new channels).outcome cfg events = some r) : Minted r.1 r.2 := by
  have hstart : Minted (new channels) [] :=
    ⟨(Server.new_unused channels).registered, Server.new_tagged channels,
      new_holds Declare.Made channels⟩
  have hstep : ∀ (s : Declares × List (ConnectionId × Declare)) event s', Minted s.1 s.2 →
      s.1.Unclaimed cfg event → Lib.logged (step cfg) s event = some s' → Minted s'.1 s'.2 := by
    intro s event s' h hok hs
    obtain ⟨out, hout, hlog⟩ := Lib.logged_eq_some hs
    rw [hlog]
    exact h.move hok (move_of_step hout)
  exact Lib.run_invariant (I := fun s => Minted s.1 s.2) hstep hstart hok hr

/-- A declare whose name is generated can go on until it is done. -/
def MintsOn (cfg : ServerConfig) (s : Declares) : Prop :=
  ∀ connection d, s.pending connection = some d → d.generated = true → d.Unclaimed cfg s.server →
      ∃ t, s.server.advance cfg connection d = some t ∧ t.2.phase.left < d.phase.left

/-- A channel creates a consumer whose tag is left to the server if its tag is not in use. -/
def TagsOn (cfg : ServerConfig) (s : Declares) : Prop :=
  ∀ connection channel queue method, s.server.broker.Untagged connection channel queue method →
    ∃ t, s.step cfg (.server (.thread (.broker (.channelStep channel)))) = some t ∧
      (s.server.broker.Consumes t.1.server.broker connection channel queue ↔
        s.server.broker.newTag connection method ∉ s.server.broker.tags connection)

/--
As long as generated names are not in use, declares that leave the name to the server end with a
new queue; and a consumer whose tag is left to the server is new, if its tag is not in use.
-/
theorem generated_fresh {channels : ChannelRef → Channel}
    (hok : AlwaysUnclaimed cfg channels events) {r : Declares × List (ConnectionId × Declare)}
    (hr : (new channels).outcome cfg events = some r) :
    (∀ x ∈ r.2, x.2.generated = true → x.2.Created r.1.server x.1) ∧ r.1.MintsOn cfg ∧
      r.1.TagsOn cfg := by
  have h := minted_of_run hok hr
  refine ⟨fun x hx hg => ?_, fun connection d hd hg hd' => ?_,
    fun connection channel queue method hu => ?_⟩
  · obtain ⟨hdone, hmade⟩ := h.made.ended x hx
    have hfresh := hmade.fresh hg
    simp only [Declare.Fresh, hdone] at hfresh
    exact ⟨hfresh.1, hmade.name hg, hfresh.2⟩
  · obtain ⟨hgoing, hmade⟩ := h.made.pending connection d hd
    have hready := Server.ready_of_fresh (hmade.fresh hg) hd'
    obtain ⟨t, ht⟩ := isSome_iff_exists.mp (Server.advance_isSome hready)
    exact ⟨t, ht, Server.advance_left ht hgoing⟩
  · obtain ⟨inbox, hstep⟩ := Broker.channelStep_untagged hu
    obtain ⟨t, ht, hbroker⟩ := step_channelStep hstep
    refine ⟨t, ht, ?_⟩
    rw [hbroker]
    have htaken : (r.1.server.broker.setServerChannel channel
        { r.1.server.broker.channels channel with inbox }).Tagged := ⟨h.tagged.lt, h.tagged.nodup⟩
    exact Broker.consume_consumes_iff htaken hu.2.1

/-! ## Names that clients choose -/

def firstName : Shortstr := .cpy "auto.0".toList

/-- A connection declares a queue, without interruption. -/
def declaring (connection : ConnectionId) (method : DeclareMethod) : List DeclaresEvent :=
  .server (.method connection (.queueDeclare method)) ::
    replicate (if method.exclusive then 6 else 5) (.advance connection)

def consuming (queue tag : Shortstr) : DeclaresEvent :=
  .server (.method 1 (.basicConsume queue { consumerTag := tag }))

/-- A private queue with a generated name, a shared one of another name, and a consumer. -/
def generating : List DeclaresEvent :=
  declaring 1 { exclusive := true } ++ declaring 2 { queue := jobsName } ++
    declaring 2 { nowait := true } ++ [consuming firstName .empty]

theorem generated_fresh_generating : ∃ r,
    race generating = some r ∧ (r.2.map fun x => x.2.generated) = [true, false, true] ∧
      (∀ x ∈ r.2, x.2.generated = true → x.2.Created r.1.server x.1) ∧
      r.1.MintsOn Server.plainConfig ∧ r.1.TagsOn Server.plainConfig := by
  have hsome : (race generating).any
      (fun r => decide ((r.2.map fun x => x.2.generated) = [true, false, true])) = true := by
    decide +kernel
  obtain ⟨r, hr, hgenerated⟩ := (any_eq_true _ _).mp hsome
  exact ⟨r, hr, of_decide_eq_true hgenerated, generated_fresh (by decide +kernel) hr⟩

/-- The declares that have ended: whether the name is generated, and the queue is created. -/
def queuesOf (r : Declares × List (ConnectionId × Declare)) :
    List (ConnectionId × Bool × Bool × Option QueueRef) :=
  r.2.map fun x => (x.1, x.2.generated, x.2.created, x.2.queue)

/-- A client has chosen the name, or the tag, before the server generates it. -/
theorem generated_claimed : (race (declaring 1 { queue := firstName } ++
          [.server (.method 2 (.queueDeclare {})), .advance 2, .advance 2, .advance 2])).map
        queuesOf = some [(1, false, true, some 0), (2, true, false, some 0)] ∧
      (race (declaring 1 { queue := jobsName } ++ [consuming jobsName (.cpy "0".toList),
            .server (.thread (.broker (.channelStep 1))), consuming jobsName .empty,
            .server (.thread (.broker (.channelStep 1)))])).map
        (fun r => ((r.1.server.broker.channels 1).inbox, r.1.server.broker.tags 1)) =
          some ([], [.cpy "0".toList]) := by
  decide +kernel

end Declares

end OpenAmq
