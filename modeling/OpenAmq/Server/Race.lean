import OpenAmq.Exchange.Refusal
import OpenAmq.Server.Declare

/-!
# Racing for a queue

Two connections that declare a queue at the same time may both find that there is none. The one
that is too late goes on with the queue of the other one, through code that is written for a new
queue of its own.

* `Declare.Orderly` — the steps that this code is made for
* `Declare.Answered` — the client has been told once how its declare has ended
* `Declares.declares_answered` — in an orderly run this is so for all declares
-/

namespace OpenAmq

open Exchange Function Option List

/-! ## Orderly steps -/

/-- The default exchange has a binding for the queue, or room for one. -/
def Server.HasRoom (cfg : ServerConfig) (s : Server) (ref : QueueRef) : Prop :=
  let ex := s.exchanges s.defaultExchange
  ex.zombie = true ∨
    (ex.exchange.findBinding (normKey ex.exchange.type (s.queueName ref)) (normArguments none) =
        none →
      Creatable cfg.env ex.exchange s.nextBinding
        (normKey ex.exchange.type (s.queueName ref)) (normArguments none))

/-- Nobody has closed the channel. -/
def Server.Open (s : Server) (channel : ChannelRef) : Prop :=
  (s.broker.store.channels channel).zombie = false

/--
The next step of a declare is one that its code is made for.

An exclusive queue is to be exclusive already if it is found at first, and is not to be found
after a failed attempt to create it.
-/
def Declare.Orderly (cfg : ServerConfig) (s : Server) (connection : ConnectionId)
    (d : Declare) : Prop :=
  match d.phase with
  | .search =>
    (∀ ref ∈ s.queueTable d.name,
        d.method.exclusive = true → (s.queue ref).basic.exclusive = true) ∧
      (s.queueTable d.name = none →
        (d.method.passive || d.method.durable) = true → s.Open d.channel)
  | .new => Server.knownProfile cfg d.method = true
  | .searchAgain => d.method.exclusive = true → s.queueTable d.name = none
  | .bind => ∀ ref ∈ d.queue, s.HasRoom cfg ref
  | .test =>
    ∀ ref ∈ d.queue, s.ownership connection d.method.exclusive ref = .refused → s.Open d.channel
  | .own | .reply | .done => True

def Declares.Orderly (cfg : ServerConfig) (s : Declares) : DeclaresEvent → Prop
  | .server _ => True
  | .advance connection => ∀ d ∈ s.pending connection, d.Orderly cfg s.server connection

variable {ref : QueueRef}

theorem Server.bindDefault_isSome_iff {cfg : ServerConfig} {s : Server} :
    (s.bindDefault cfg ref).isSome = true ↔ s.HasRoom cfg ref := by
  unfold bindDefault bindExchange HasRoom
  simp only
  split
  · next hz => exact iff_of_true rfl (Or.inl hz)
  · next hz => rw [isSome_map, bindQueue_isSome_iff, or_iff_right hz]

instance (cfg : ServerConfig) (s : Server) (ref : QueueRef) : Decidable (s.HasRoom cfg ref) :=
  decidable_of_iff _ Server.bindDefault_isSome_iff

instance (s : Server) (channel : ChannelRef) : Decidable (s.Open channel) :=
  inferInstanceAs (Decidable (_ = _))

instance (cfg : ServerConfig) (s : Server) (connection : ConnectionId) :
    (d : Declare) → Decidable (d.Orderly cfg s connection)
  | ⟨_, _, _, _, .search, _, _, _⟩ => inferInstanceAs (Decidable (_ ∧ _))
  | ⟨_, _, _, _, .new, _, _, _⟩ => inferInstanceAs (Decidable (_ = _))
  | ⟨_, _, _, _, .searchAgain, _, _, _⟩ => inferInstanceAs (Decidable (_ → _))
  | ⟨_, _, _, _, .bind, queue, _, _⟩ =>
    inferInstanceAs (Decidable (∀ ref ∈ queue, s.HasRoom cfg ref))
  | ⟨channel, method, _, _, .test, queue, _, _⟩ =>
    inferInstanceAs (Decidable (∀ ref ∈ queue,
      s.ownership connection method.exclusive ref = .refused → s.Open channel))
  | ⟨_, _, _, _, .own, _, _, _⟩ | ⟨_, _, _, _, .reply, _, _, _⟩ | ⟨_, _, _, _, .done, _, _, _⟩ =>
    isTrue trivial

instance (cfg : ServerConfig) (s : Declares) :
    (event : DeclaresEvent) → Decidable (s.Orderly cfg event)
  | .server _ => isTrue trivial
  | .advance connection =>
    inferInstanceAs (Decidable (∀ d ∈ s.pending connection, d.Orderly cfg s.server connection))

/-! ## Answers -/

/-- The declare has a queue of its name, and owns it if it has asked for that. -/
def Declare.Satisfied (s : Server) (connection : ConnectionId) (d : Declare) : Prop :=
  ∃ ref ∈ d.queue, ref < s.nextQueue ∧ s.queueName ref = d.name ∧ (d.method.exclusive = true →
      (s.queue ref).basic.exclusive = true ∧ (s.queue ref).connection = some connection)

/-- The client gets an error or is told about its queue, unless it does not wait for that. -/
inductive Declare.Answered (s : Server) (connection : ConnectionId) (d : Declare) : Prop where
  | error {answer : Answer} (ha : d.answers = [answer]) (he : answer.isError = true)
  | ok {messageCount consumerCount : Nat} (hwait : d.method.nowait = false)
      (ha : d.answers = [.queueDeclareOk d.channel d.name messageCount consumerCount])
      (hs : d.Satisfied s connection)
  | silent (hwait : d.method.nowait = true) (ha : d.answers = []) (hs : d.Satisfied s connection)

/-- What holds between the steps of a declare. -/
def Declare.Sound (s : Server) (connection : ConnectionId) (d : Declare) : Prop :=
  match d.phase with
  | .search | .new | .searchAgain => d.answers = []
  | .bind =>
    d.answers = [] ∧ d.Satisfied s connection ∧
      (d.method.exclusive = true → ∀ ref ∈ d.queue, ref ∉ s.ownQueueSet connection)
  | .own =>
    d.answers = [] ∧ d.Satisfied s connection ∧ d.method.exclusive = true ∧
      ∀ ref ∈ d.queue, ref ∉ s.ownQueueSet connection
  | .test =>
    d.answers = [] ∧ ∃ ref ∈ d.queue, ref < s.nextQueue ∧ s.queueName ref = d.name ∧
      (d.method.exclusive = true → (s.queue ref).basic.exclusive = true)
  | .reply => d.answers = [] ∧ d.Satisfied s connection
  | .done => d.Answered s connection

/-- What the next step of a declare asserts, or takes for granted. -/
def Declare.Ready (cfg : ServerConfig) (s : Server) (d : Declare) : Prop :=
  match d.phase with
  | .new => Server.knownProfile cfg d.method = true
  | .bind => ∃ ref ∈ d.queue, s.HasRoom cfg ref
  | .own => ∃ ref ∈ d.queue, (s.queue ref).basic.exclusive = true
  | .test | .reply => d.queue.isSome = true
  | .search | .searchAgain | .done => True

namespace Server

variable {cfg : ServerConfig} {s s' : Server} {connection : ConnectionId} {d : Declare}

theorem Grows.satisfied (h : s.Grows s') (hs : d.Satisfied s connection) :
    d.Satisfied s' connection := by
  obtain ⟨ref, href, hlt, hname, hx⟩ := hs
  refine ⟨ref, href, hlt.trans_le h.nextQueue, (h.queueName ref hlt).trans hname, fun he => ?_⟩
  rw [(h.owners ref hlt).exclusive, (h.owners ref hlt).connection]
  exact hx he

theorem Grows.answered (h : s.Grows s') (ha : d.Answered s connection) :
    d.Answered s' connection := by
  cases ha with
  | error ha he => exact .error ha he
  | ok hwait ha hs => exact .ok hwait ha (h.satisfied hs)
  | silent hwait ha hs => exact .silent hwait ha (h.satisfied hs)

theorem Grows.sound (h : s.Grows s')
    (hown : d.phase ≠ .done → (s'.ownQueueSet connection).Sublist (s.ownQueueSet connection))
    (hd : d.Sound s connection) : d.Sound s' connection := by
  unfold Declare.Sound at hd ⊢
  cases hp : d.phase with
  | search | new | searchAgain => simpa only [hp] using hd
  | bind =>
    simp only [hp] at hd ⊢
    obtain ⟨ha, hs, hnew⟩ := hd
    have hsub := hown (by rw [hp]; nofun)
    exact ⟨ha, h.satisfied hs, fun hx ref href hm => hnew hx ref href (hsub.subset hm)⟩
  | own =>
    simp only [hp] at hd ⊢
    obtain ⟨ha, hs, hx, hnew⟩ := hd
    have hsub := hown (by rw [hp]; nofun)
    exact ⟨ha, h.satisfied hs, hx, fun ref href hm => hnew ref href (hsub.subset hm)⟩
  | test =>
    simp only [hp] at hd ⊢
    obtain ⟨ha, ref, href, hlt, hname, hx⟩ := hd
    refine ⟨ha, ref, href, hlt.trans_le h.nextQueue, (h.queueName ref hlt).trans hname, ?_⟩
    rw [(h.owners ref hlt).exclusive]
    exact hx
  | reply =>
    simp only [hp] at hd ⊢
    exact ⟨hd.1, h.satisfied hd.2⟩
  | done =>
    simp only [hp] at hd ⊢
    exact h.answered hd

/-! ## No assertion fails -/

theorem advance_isSome (h : d.Ready cfg s) : (s.advance cfg connection d).isSome = true := by
  unfold Declare.Ready at h
  unfold advance
  cases hp : d.phase with
  | search =>
    simp only
    split
    · rfl
    · split <;> rfl
  | new =>
    simp only [hp] at h ⊢
    rw [isSome_map]
    exact queueNew_isSome h d.name
  | searchAgain =>
    simp only
    split <;> rfl
  | bind =>
    simp only [hp] at h ⊢
    obtain ⟨ref, href, hroom⟩ := h
    have hroom := bindDefault_isSome_iff.mpr hroom
    rw [mem_def.mp href, bind_some, isSome_map]
    exact hroom
  | own =>
    simp only [hp] at h ⊢
    obtain ⟨ref, href, hx⟩ := h
    rw [mem_def.mp href, bind_some, isSome_map, ownQueue, if_pos hx]
    rfl
  | test | reply =>
    simp only [hp] at h ⊢
    rw [isSome_map]
    exact h
  | done => rfl

theorem ready_of_sound (hd : d.Sound s connection) (hok : d.Orderly cfg s connection) :
    d.Ready cfg s := by
  unfold Declare.Sound at hd
  unfold Declare.Orderly at hok
  unfold Declare.Ready
  cases hp : d.phase with
  | search => trivial
  | new => simpa only [hp] using hok
  | searchAgain => trivial
  | bind =>
    simp only [hp] at hok hd ⊢
    obtain ⟨-, ⟨ref, href, -⟩, -⟩ := hd
    exact ⟨ref, href, hok ref href⟩
  | own =>
    simp only [hp] at hd ⊢
    obtain ⟨-, ⟨ref, href, -, -, hx⟩, he, -⟩ := hd
    exact ⟨ref, href, (hx he).1⟩
  | test | reply =>
    simp only [hp] at hd ⊢
    obtain ⟨-, ref, href, -⟩ := hd
    exact isSome_of_mem href
  | done => trivial

/-! ## What a step leaves behind -/

section Advance

variable {r : Server × Declare}

theorem channelError_single {channel : ChannelRef} (h : s.Open channel) (code : Nat)
    (text : String) (classId methodId : Nat) :
    ∃ answer, s.channelError channel code text classId methodId = [answer] ∧
      answer.isError = true := by
  refine ⟨.reply (.channelError channel code text.toList classId methodId), ?_, rfl⟩
  unfold channelError Broker.channelError
  rw [if_neg (by rw [h]; exact Bool.false_ne_true)]
  rfl

theorem createError_single {channel : ChannelRef} (h : s.Open channel) (method : DeclareMethod) :
    ∃ answer, s.createError channel method = [answer] ∧ answer.isError = true := by
  unfold createError
  split <;> exact channelError_single h _ _ _ _

theorem search_sound (hr : s.Registered) (hp : d.phase = .search) (hd : d.Sound s connection)
    (hok : d.Orderly cfg s connection) (h : s.advance cfg connection d = some r) :
    r.2.Sound r.1 connection := by
  simp only [Declare.Sound, hp] at hd
  simp only [Declare.Orderly, hp] at hok
  simp only [advance, hp] at h
  split at h
  · next ref href =>
    cases h
    exact ⟨hd, ref, rfl, hr.lt _ _ href, hr.name _ _ href, hok.1 ref href⟩
  · next hnone =>
    split at h
    · next hno =>
      cases h
      obtain ⟨answer, ha, he⟩ := createError_single (hok.2 hnone hno) d.method
      exact Declare.Answered.error ha he
    · cases h
      exact hd

theorem addQueue_satisfied {queue : ServerQueue} (hd : d.queue = some s.nextQueue)
    (hx : queue.basic.exclusive = d.method.exclusive)
    (hc : queue.connection = if d.method.exclusive then some connection else none) :
    d.Satisfied (s.addQueue d.name queue) connection := by
  have hqueue : (s.addQueue d.name queue).queue s.nextQueue = queue := s.addQueue_same d.name queue
  refine ⟨s.nextQueue, hd, Nat.lt_succ_self _, update_self .., fun he => ?_⟩
  rw [hqueue, hx, hc, he]
  exact ⟨rfl, rfl⟩

theorem new_sound (how : s.Owned) (hp : d.phase = .new) (hok : d.Orderly cfg s connection)
    (h : s.advance cfg connection d = some r) : r.2.Sound r.1 connection := by
  simp only [Declare.Orderly, hp] at hok
  simp only [advance, hp] at h
  obtain ⟨t, hnew, rfl⟩ := map_eq_some_iff.mp h
  rcases queueNew_cases hnew with ⟨-, hnone, hempty⟩ | ⟨queue, hx, hc, -, rfl⟩
  · simp only [Declare.Sound, hnone, isSome_none, Bool.false_eq_true, if_false]
    exact (hempty hok).1
  · refine ⟨rfl, addQueue_satisfied rfl hx hc, ?_⟩
    -- the queue is in no list yet
    rintro - ref href hm
    cases href
    exact Nat.lt_irrefl _ (how.owner connection _ hm).1

theorem searchAgain_sound (hr : s.Registered) (hp : d.phase = .searchAgain)
    (hd : d.Sound s connection) (hok : d.Orderly cfg s connection)
    (h : s.advance cfg connection d = some r) : r.2.Sound r.1 connection := by
  simp only [Declare.Sound, hp] at hd
  simp only [Declare.Orderly, hp] at hok
  simp only [advance, hp] at h
  split at h
  · next ref href =>
    cases h
    -- so the queue of the other connection is not to be exclusive
    have hx : ¬ d.method.exclusive = true := by
      intro hx
      rw [hok hx] at href
      cases href
    exact ⟨hd, ⟨ref, rfl, hr.lt _ _ href, hr.name _ _ href, fun he => absurd he hx⟩,
      fun he => absurd he hx⟩
  · cases h
    have he : (declareError connection).isError = true := rfl
    refine Declare.Answered.error ?_ he
    simp only [hd, nil_append]

theorem bind_sound (hp : d.phase = .bind) (hd : d.Sound s connection)
    (h : s.advance cfg connection d = some r) : r.2.Sound r.1 connection := by
  simp only [Declare.Sound, hp] at hd
  simp only [advance, hp] at h
  obtain ⟨ref, href, h⟩ := bind_eq_some_iff.mp h
  obtain ⟨bound, hbound, rfl⟩ := map_eq_some_iff.mp h
  obtain ⟨ha, hs, hnew⟩ := hd
  have haside := bindDefault_aside hbound
  have hs' : d.Satisfied bound connection := haside.grows.satisfied hs
  cases hx : d.method.exclusive with
  | true =>
    refine ⟨ha, hs', hx, fun ref href hm => ?_⟩
    exact hnew hx ref href ((haside.ownQueueSet connection).subset hm)
  | false =>
    obtain ⟨ref, href, hlt, hname, -⟩ := hs'
    refine ⟨ha, ref, href, hlt, hname, fun he => ?_⟩
    rw [hx] at he
    cases he

theorem own_sound (hp : d.phase = .own) (hd : d.Sound s connection)
    (h : s.advance cfg connection d = some r) : r.2.Sound r.1 connection := by
  simp only [Declare.Sound, hp] at hd
  simp only [advance, hp] at h
  obtain ⟨ref, href, h⟩ := bind_eq_some_iff.mp h
  obtain ⟨owned, howned, rfl⟩ := map_eq_some_iff.mp h
  obtain ⟨ha, ⟨ref', href', hlt, hname, hx⟩, -⟩ := hd
  obtain ⟨-, rfl⟩ := ownQueue_eq_some howned
  exact ⟨ha, ref', href', hlt, hname, fun he => (hx he).1⟩

theorem ownership_granted_iff {exclusive : Bool} : s.ownership connection exclusive ref = .granted ↔
      (exclusive = true → (s.queue ref).connection = some connection) := by
  unfold ownership
  cases exclusive with
  | false => exact iff_of_true rfl nofun
  | true =>
    simp only [if_true, forall_const]
    cases (s.queue ref).connection with
    | none => exact iff_of_false nofun nofun
    | some owner =>
      simp only [some.injEq]
      split
      · next he => exact iff_of_true rfl he
      · next hne => exact iff_of_false nofun hne

theorem test_sound (hr : s.Registered) (hp : d.phase = .test) (hd : d.Sound s connection)
    (hok : d.Orderly cfg s connection) (h : s.advance cfg connection d = some r) :
    r.2.Sound r.1 connection := by
  simp only [Declare.Sound, hp] at hd
  simp only [Declare.Orderly, hp] at hok
  simp only [advance, hp] at h
  obtain ⟨ref, href, rfl⟩ := map_eq_some_iff.mp h
  obtain ⟨ha, ref', href', hlt, hname, hx⟩ := hd
  obtain rfl := some.inj (href.symm.trans href')
  split
  · next habort =>
    unfold ownership at habort
    split at habort
    · next he =>
      split at habort
      · next hnone =>
        have howner := hr.exclusive ref hlt
        rw [hx he, hnone] at howner
        cases howner
      · split at habort <;> cases habort
    · cases habort
  · next hrefused =>
    obtain ⟨answer, hanswer, he⟩ :=
      channelError_single (hok ref href hrefused) aslAccessRefused
        "Queue cannot be made exclusive to this connection" amqServerQueue amqServerQueueDeclare
    refine Declare.Answered.error ?_ he
    simp only [ha, nil_append]
    exact hanswer
  · next hgranted =>
    have howner := ownership_granted_iff.mp hgranted
    exact ⟨ha, ref, href, hlt, hname, fun he => ⟨hx he, howner he⟩⟩

theorem declareOk_answers (ha : d.answers = []) (hname : s.queueName ref = d.name) :
    d.answers ++ (s.declareOk d.channel d.method ref).2 =
      if d.method.nowait then []
      else [.queueDeclareOk d.channel d.name (s.queue ref).basic.contentList.length
        (s.queue ref).basic.consumerList.length] := by
  simp only [declareOk, ha, nil_append, hname]

theorem reply_sound (hp : d.phase = .reply) (hd : d.Sound s connection)
    (h : s.advance cfg connection d = some r) : r.2.Sound r.1 connection := by
  simp only [Declare.Sound, hp] at hd
  simp only [advance, hp] at h
  obtain ⟨ref, href, rfl⟩ := map_eq_some_iff.mp h
  obtain ⟨ha, ref', href', hlt, hname, hx⟩ := hd
  obtain rfl := some.inj (href.symm.trans href')
  have hs : d.Satisfied s connection := ⟨ref, href, hlt, hname, hx⟩
  have hanswers := declareOk_answers ha hname
  cases hwait : d.method.nowait with
  | true =>
    rw [if_pos hwait] at hanswers
    exact Declare.Answered.silent hwait hanswers hs
  | false =>
    rw [if_neg (by rw [hwait]; exact Bool.false_ne_true)] at hanswers
    exact Declare.Answered.ok hwait hanswers hs

theorem advance_sound (hr : s.Registered) (how : s.Owned) (hd : d.Sound s connection)
    (hok : d.Orderly cfg s connection) (h : s.advance cfg connection d = some r) :
    r.2.Sound r.1 connection := by
  cases hp : d.phase with
  | search => exact search_sound hr hp hd hok h
  | new => exact new_sound how hp hok h
  | searchAgain => exact searchAgain_sound hr hp hd hok h
  | bind => exact bind_sound hp hd h
  | own => exact own_sound hp hd h
  | test => exact test_sound hr hp hd hok h
  | reply => exact reply_sound hp hd h
  | done =>
    simp only [advance, hp] at h
    cases h
    exact hd

theorem advance_owned (how : s.Owned) (hd : d.Sound s connection)
    (h : s.advance cfg connection d = some r) : r.1.Owned := by
  rcases advance_cases h with haside | ⟨queue, -, -, -, -, heq⟩ | ⟨ref, href, hp, hown⟩
  · exact how.aside haside
  · rw [heq]
    exact how.addQueue d.name queue
  · simp only [Declare.Sound, hp] at hd
    obtain ⟨-, ⟨ref', href', hlt, -, hx⟩, he, hnew⟩ := hd
    obtain rfl := some.inj (href.symm.trans href')
    exact how.ownQueue hlt (hx he).2 (hnew ref href) hown

end Advance

/-! ## One queue of each name -/

/-- The table has every queue, except for those that are gone. -/
def Listed (gone : QueueRef → Prop) (s : Server) : Prop :=
  ∀ ref < s.nextQueue, s.queueTable (s.queueName ref) = some ref ∨ gone ref

theorem Listed.aside {gone gone' : QueueRef → Prop} {destroyed : Option QueueRef}
    (h : s.Listed gone) (ha : s.Aside destroyed s') (hsub : ∀ ref, gone ref → gone' ref)
    (hnew : ∀ ref ∈ destroyed, gone' ref) : s'.Listed gone' := by
  intro ref hlt
  rw [ha.nextQueue] at hlt
  rw [ha.queueName]
  rcases h ref hlt with ht | hgone
  · exact (ha.kept _ ref ht).imp_right (hnew ref)
  · exact Or.inr (hsub ref hgone)

theorem Listed.addQueue {gone : QueueRef → Prop} (h : s.Listed gone) {name : Shortstr}
    (hnone : s.queueTable name = none) (queue : ServerQueue) :
    (s.addQueue name queue).Listed gone := by
  intro ref hlt
  show update s.queueTable name (some s.nextQueue)
    (update s.queueName s.nextQueue name ref) = some ref ∨ gone ref
  rcases Nat.lt_succ_iff_lt_or_eq.mp hlt with hlt | rfl
  · rw [update_of_ne hlt.ne]
    refine (h ref hlt).imp_left fun ht => ?_
    have hne : s.queueName ref ≠ name := by
      intro he
      rw [he, hnone] at ht
      cases ht
    rw [update_of_ne hne]
    exact ht
  · rw [update_self, update_self]
    exact Or.inl rfl

theorem Listed.advance {gone gone' : QueueRef → Prop} (h : s.Listed gone)
    (hsub : ∀ ref, gone ref → gone' ref) {r : Server × Declare}
    (ht : s.advance cfg connection d = some r) : r.1.Listed gone' := by
  have h' : s.Listed gone' := fun ref hlt => (h ref hlt).imp_right (hsub ref)
  rcases advance_cases ht with haside | ⟨queue, -, -, -, hnone, heq⟩ | ⟨ref, -, -, hown⟩
  · exact h.aside haside hsub nofun
  · rw [heq]
    exact h'.addQueue hnone queue
  · obtain ⟨-, heq⟩ := ownQueue_eq_some hown
    rw [heq]
    exact h'

end Server

namespace Declares

variable {cfg : ServerConfig} {s : Declares} {log : List (ConnectionId × Declare)}
  {events : List DeclaresEvent}

def Destroyed (events : List DeclaresEvent) (ref : QueueRef) : Prop :=
  .server (.thread (.selfDestruct ref)) ∈ events

/-! ## Orderly runs -/

/-- The state after an orderly run, and the declares that have ended. -/
structure Settled (events : List DeclaresEvent) (s : Declares)
    (log : List (ConnectionId × Declare)) : Prop where
  registered : s.server.Registered
  owned : s.server.Owned
  listed : s.server.Listed (Destroyed events)
  sound : Holds Declare.Sound s log

variable {r : Declares × List (ConnectionId × Declare)}

theorem Settled.move (h : Settled events s log) {event : DeclaresEvent} (hok : s.Orderly cfg event)
    (hm : Move cfg s event r) : Settled (events ++ [event]) r.1 (log ++ r.2) := by
  have hsub : ∀ ref, Destroyed events ref → Destroyed (events ++ [event]) ref :=
    fun ref hd => mem_append_left _ hd
  obtain ⟨hregistered, hsound⟩ := h.sound.move h.registered hm
    (fun t c d hgrows hown => hgrows.sound hown) (fun channel method c => rfl)
    fun c d t he hd hsound ht => by
      subst he
      exact Server.advance_sound h.registered h.owned hsound (hok d hd) ht
  suffices hs : r.1.server.Owned ∧ r.1.server.Listed (Destroyed (events ++ [event])) from
    ⟨hregistered, hs.1, hs.2, hsound⟩
  cases hm with
  | @other event t hno hs =>
    have haside := Server.step_aside hno hs
    refine ⟨h.owned.aside haside, h.listed.aside haside hsub fun ref href => ?_⟩
    have he : event = .thread (.selfDestruct ref) := by
      unfold ServerEvent.destroys? at href
      split at href
      · rw [some.inj href]
      · cases href
    exact mem_append_right _ (mem_singleton.mpr (he ▸ rfl))
  | @take event channel method connection hd hc hidle =>
    have haside := s.server.takeDeclare_aside channel method
    rw [proceed_server]
    exact ⟨h.owned.aside haside, h.listed.aside haside hsub nofun⟩
  | @advance connection d t hd ht =>
    rw [proceed_server]
    exact ⟨Server.advance_owned h.owned (h.sound.pending connection d hd).2 ht,
      h.listed.advance hsub ht⟩

/-- Every step of the run is orderly. -/
def AlwaysOrderly (cfg : ServerConfig) (channels : ChannelRef → Channel)
    (events : List DeclaresEvent) : Prop :=
  Lib.Along (Lib.logged (step cfg)) (fun s event => s.1.Orderly cfg event) (new channels, []) events

instance (cfg : ServerConfig) (channels : ChannelRef → Channel) (events : List DeclaresEvent) :
    Decidable (AlwaysOrderly cfg channels events) :=
  inferInstanceAs (Decidable (Lib.Along _ _ _ _))

variable {channels : ChannelRef → Channel}

/-- After an orderly run the declares that have ended are sound. -/
theorem settled_of_run (hok : AlwaysOrderly cfg channels events)
    (hr : (new channels).outcome cfg events = some r) : Settled events r.1 r.2 := by
  have hnew := Server.new_unused channels
  have hlisted : (Server.new channels).Listed (Destroyed []) := by
    intro ref hlt
    rw [hnew.nextQueue] at hlt
    exact absurd hlt (Nat.not_lt_zero ref)
  have hstart : Settled [] (new channels) [] :=
    ⟨hnew.registered, hnew.owned, hlisted, new_holds Declare.Sound channels⟩
  have hstep : ∀ es (s : Declares × List (ConnectionId × Declare)) event s',
      Settled es s.1 s.2 → s.1.Orderly cfg event → Lib.logged (step cfg) s event = some s' →
        Settled (es ++ [event]) s'.1 s'.2 := by
    intro es s event s' h hok hs
    obtain ⟨out, hout, hlog⟩ := Lib.logged_eq_some hs
    rw [hlog]
    exact h.move hok (move_of_step hout)
  exact Lib.run_history (I := fun es s => Settled es s.1 s.2) hstep [] hstart hok hr

/-- No assertion fails: a declare can go on in an orderly way until it is done. -/
def GoesOn (cfg : ServerConfig) (s : Declares) : Prop :=
  ∀ connection d, s.pending connection = some d → d.Orderly cfg s.server connection →
    ∃ t, s.server.advance cfg connection d = some t ∧ t.2.phase.left < d.phase.left

/-- Of two queues of one name, one has destroyed itself. -/
def OneOfEach (events : List DeclaresEvent) (s : Server) : Prop :=
  ∀ ref < s.nextQueue, ∀ ref' < s.nextQueue, s.queueName ref = s.queueName ref' → ref ≠ ref' →
    Destroyed events ref ∨ Destroyed events ref'

/--
In an orderly run no assertion fails, there is one queue of a name at a time, exclusive queues
are only in the lists of their owners, and every declare is answered once.
-/
theorem declares_answered {channels : ChannelRef → Channel}
    (hok : AlwaysOrderly cfg channels events) {r : Declares × List (ConnectionId × Declare)}
    (hr : (new channels).outcome cfg events = some r) :
    r.1.GoesOn cfg ∧ OneOfEach events r.1.server ∧ r.1.server.Owned ∧
      ∀ x ∈ r.2, x.2.Answered r.1.server x.1 := by
  have h := settled_of_run hok hr
  refine ⟨fun connection d hd hd' => ?_, fun ref hlt ref' hlt' hname hne => ?_, h.owned,
    fun x hx => ?_⟩
  · obtain ⟨hgoing, hsound⟩ := h.sound.pending connection d hd
    have hready := Server.ready_of_sound hsound hd'
    obtain ⟨t, ht⟩ := isSome_iff_exists.mp (Server.advance_isSome hready)
    exact ⟨t, ht, Server.advance_left ht hgoing⟩
  · rcases h.listed ref hlt with ht | hgone
    · rcases h.listed ref' hlt' with ht' | hgone'
      · rw [← hname, ht] at ht'
        exact absurd (some.inj ht') hne
      · exact Or.inr hgone'
    · exact Or.inl hgone
  · obtain ⟨hdone, hsound⟩ := h.sound.ended x hx
    unfold Declare.Sound at hsound
    rw [hdone] at hsound
    exact hsound

/-! ## Late declares -/

/-- A run of the server of `twoClients`. -/
def race (events : List DeclaresEvent) : Option (Declares × List (ConnectionId × Declare)) :=
  (new fun channel => { connection := some channel }).outcome Server.plainConfig events

def jobsName : Shortstr := .cpy "jobs".toList

def declaringJobs (connection : ConnectionId) (method : DeclareMethod) : DeclaresEvent :=
  .server (.method connection (.queueDeclare { method with queue := jobsName }))

/-- Both connections find that there is no queue, and the first one creates it. -/
def lateDeclare (first second : DeclareMethod) : List DeclaresEvent :=
  [declaringJobs 1 first, declaringJobs 2 second, .advance 1, .advance 2, .advance 1, .advance 2,
    .advance 2, .advance 2]

/-- A shared queue that both declare, and a private one that the second connection asks for. -/
def orderly : List DeclaresEvent :=
  lateDeclare {} {} ++ [.advance 1, .advance 1, .advance 2, .advance 2, .advance 1,
      .server (.method 1 (.queueDeclare { exclusive := true })), .advance 1, .advance 1, .advance 1,
      .advance 1, .advance 1, .advance 1,
      .server (.method 2 (.queueDeclare
        { queue := .cpy "auto.0".toList, passive := true, exclusive := true })),
      .advance 2, .advance 2]

theorem declares_answered_orderly : ∃ r,
    race orderly = some r ∧ r.1.GoesOn Server.plainConfig ∧ OneOfEach orderly r.1.server ∧
      r.1.server.Owned ∧ ∀ x ∈ r.2, x.2.Answered r.1.server x.1 := by
  have hsome : (race orderly).isSome = true := by decide +kernel
  obtain ⟨r, hr⟩ := isSome_iff_exists.mp hsome
  exact ⟨r, hr, declares_answered (by decide +kernel) hr⟩

def answersOf (r : Declares × List (ConnectionId × Declare)) : List (ConnectionId × List Answer) :=
  r.2.map fun x => (x.1, x.2.answers)

/--
The assertion of `amq_server_connection_own_queue` fails; a queue is in the lists of two
connections; and a client waits in vain for an answer.
-/
theorem declares_late : ((race (lateDeclare {} { exclusive := true })).isSome = true ∧
        race (lateDeclare {} { exclusive := true } ++ [.advance 2]) = none) ∧
      (race (lateDeclare { exclusive := true } { exclusive := true } ++
          [.advance 2, .advance 1, .advance 1])).map
        (fun r => (r.1.server.ownQueueSet 1, r.1.server.ownQueueSet 2)) = some ([0], [0]) ∧
      (race [declaringJobs 1 {}, .advance 1, .advance 1, .advance 1, .advance 1, .advance 1,
          declaringJobs 2 { exclusive := true }, .advance 2, .advance 2]).map answersOf =
        some [(1, [.queueDeclareOk 1 jobsName 0 0]), (2, [])] := by
  decide +kernel

/-! ## Queues that exist -/

/-- A step keeps queues, their names and their owners. -/
theorem registered_step {event : DeclaresEvent}
    (hr : s.server.Registered) (hs : s.step cfg event = some r) :
    r.1.server.Registered ∧ s.server.Grows r.1.server := by
  cases move_of_step hs with
  | other hno hother =>
    have haside := Server.step_aside hno hother
    exact ⟨hr.aside haside, haside.grows⟩
  | @take event channel method =>
    rw [proceed_server]
    have haside := s.server.takeDeclare_aside channel method
    exact ⟨hr.aside haside, haside.grows⟩
  | advance hd ht =>
    rw [proceed_server]
    exact Server.advance_registered hr ht

/-- A run keeps queues, their names and their owners. -/
theorem run_registered (h : s.server.Registered)
    (hrun : s.outcome cfg events = some r) :
    r.1.server.Registered ∧ s.server.Grows r.1.server := by
  refine Lib.run_invariant (I := fun t => t.1.server.Registered ∧ s.server.Grows t.1.server)
    (fun t event t' ht (_ : True) hstep => ?_)
    ⟨h, Nat.le_refl _, fun _ _ => rfl, fun _ _ => .refl _⟩
    (Lib.along_of_forall (fun _ _ _ => trivial) _) hrun
  obtain ⟨out, hout, -⟩ := Lib.logged_eq_some hstep
  obtain ⟨hregistered, hgrows⟩ := registered_step ht.1 hout
  have hlt {ref : QueueRef} (h : ref < s.server.nextQueue) : ref < t.1.server.nextQueue :=
    Nat.lt_of_lt_of_le h ht.2.nextQueue
  exact ⟨hregistered, Nat.le_trans ht.2.nextQueue hgrows.nextQueue,
    fun ref h => (hgrows.queueName ref (hlt h)).trans (ht.2.queueName ref h),
    fun ref h => (ht.2.owners ref h).trans (hgrows.owners ref (hlt h))⟩

/-- In whatever order the steps of several declares come, the table has the queues under their
names, a queue is exclusive when it has an owner, and it keeps its name and its owner. -/
theorem queues_registered {later : List DeclaresEvent}
    {r r' : Declares × List (ConnectionId × Declare)}
    (hr : (new channels).outcome cfg events = some r) (hr' : r.1.outcome cfg later = some r') :
    r'.1.server.Registered ∧ r.1.server.Grows r'.1.server :=
  run_registered (run_registered (Server.new_unused channels).registered hr).1 hr'

/-- The same in the run of two declares, of which the first ends later. -/
theorem queues_registered_late : ∃ r r', race (lateDeclare {} {}) = some r ∧
    r.1.outcome Server.plainConfig [.advance 1, .advance 1] = some r' ∧
      r'.1.server.Registered ∧ r.1.server.Grows r'.1.server := by
  have hsome : ((race (lateDeclare {} {})).bind fun r =>
      r.1.outcome Server.plainConfig [.advance 1, .advance 1]).isSome = true := by decide +kernel
  obtain ⟨r', hr'⟩ := isSome_iff_exists.mp hsome
  obtain ⟨r, hr, hr'⟩ := bind_eq_some_iff.mp hr'
  exact ⟨r, r', hr, hr', queues_registered hr hr'⟩

end Declares

end OpenAmq
