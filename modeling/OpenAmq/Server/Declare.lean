import OpenAmq.Server.Registry

/-!
# Declaring queues concurrently

Each connection has a thread of its own, and `queue.declare` is not atomic: between its steps
other connections may look up, create and destroy queues.

* `Server.takeDeclare`, `Server.advance` — `queue.declare` step by step
* `Server.advanceTimes_queueDeclare` — the steps add up to `Server.queueDeclare` when no other
  thread comes in between
* `Declares.step`, `Declares.Move` — the server with the declares that are under way
-/

namespace OpenAmq

open Function Option

/-! ## The steps of a declare -/

/-- What a `queue.declare` is to do next. -/
inductive DeclarePhase where
  | search
  | new
  | searchAgain
  | bind
  | own
  | test
  | reply
  | done
deriving DecidableEq

/-- The number of steps that a declare makes at most before it is done. -/
def DeclarePhase.left : DeclarePhase → Nat
  | .search => 7
  | .new => 6
  | .searchAgain => 5
  | .bind => 4
  | .own => 3
  | .test => 2
  | .reply => 1
  | .done => 0

/-- A `queue.declare` that a connection is working on. -/
structure Declare where
  channel : ChannelRef
  method : DeclareMethod
  /-- the name in the method, or the one that is generated for it -/
  name : Shortstr
  /-- the table of queues when the method has arrived -/
  tableBefore : Shortstr → Option QueueRef
  phase : DeclarePhase := .search
  queue : Option QueueRef := none
  /-- by `amq_queue_new` -/
  created : Bool := false
  answers : List Answer := []

namespace Server

/-- The first step of `queue.declare`: a blank name is replaced. -/
def takeDeclare (self : Server) (channel : ChannelRef) (method : DeclareMethod) :
    Server × Declare :=
  let r := self.declareName method.queue
  (r.1, { channel, method, name := r.2, tableBefore := self.queueTable })

/-- One more step of `queue.declare`, or `none` if an assertion fails. -/
def advance (cfg : ServerConfig) (self : Server) (connection : ConnectionId) (d : Declare) :
    Option (Server × Declare) :=
  match d.phase with
  | .search =>
    match self.queueTable d.name with
    | some ref => some (self, { d with queue := some ref, phase := .test })
    | none =>
      if d.method.passive || d.method.durable then
        some (self, { d with answers := self.createError d.channel d.method, phase := .done })
      else some (self, { d with phase := .new })
  | .new =>
    (self.queueNew cfg connection d.name d.method).map fun r =>
      (r.1, { d with
        queue := r.2.1
        created := r.2.1.isSome
        answers := r.2.2
        phase := if r.2.1.isSome then .bind else .searchAgain })
  | .searchAgain =>
    match self.queueTable d.name with
    | some ref => some (self, { d with queue := some ref, phase := .bind })
    | none =>
      some (self, { d with answers := d.answers ++ [declareError connection], phase := .done })
  | .bind =>
    d.queue.bind fun ref => (self.bindDefault cfg ref).map fun self =>
      (self, { d with phase := if d.method.exclusive then .own else .test })
  | .own =>
    d.queue.bind fun ref => (self.ownQueue connection ref).map fun self =>
      (self, { d with phase := .test })
  | .test =>
    d.queue.map fun ref =>
      match self.ownership connection d.method.exclusive ref with
      | .aborted => (self, { d with phase := .done })
      | .refused =>
        (self, { d with answers := d.answers ++ self.ownershipError d.channel, phase := .done })
      | .granted => (self, { d with phase := .reply })
  | .reply =>
    d.queue.map fun ref =>
      let r := self.declareOk d.channel d.method ref
      (r.1, { d with answers := d.answers ++ r.2, phase := .done })
  | .done => some (self, d)

/-! ## Without interruption -/

/-- Some more steps of a declare, when there is no other thread. -/
def advanceTimes (cfg : ServerConfig) (connection : ConnectionId) :
    Nat → Server × Declare → Option (Server × Declare)
  | 0, r => some r
  | n + 1, r => (r.1.advance cfg connection r.2).bind (advanceTimes cfg connection n)

variable {cfg : ServerConfig} {s s' : Server} {connection : ConnectionId} {channel : ChannelRef}
  {d : Declare} {ref : QueueRef}

theorem advanceTimes_done (h : d.phase = .done) (n : Nat) :
    advanceTimes cfg connection n (s, d) = some (s, d) := by
  induction n with
  | zero => rfl
  | succ n ih =>
    have hstep : s.advance cfg connection d = some (s, d) := by
      unfold advance
      rw [h]
    rw [advanceTimes, hstep, bind_some, ih]

theorem advanceTimes_test (h : d.phase = .test) (hq : d.queue = some ref) (n : Nat) :
    (advanceTimes cfg connection (n + 2) (s, d)).map (fun r => (r.1, r.2.phase, r.2.answers)) =
      some ((s.answerDeclare connection d.channel d.method ref).1, .done,
        d.answers ++ (s.answerDeclare connection d.channel d.method ref).2) := by
  unfold answerDeclare
  cases ho : s.ownership connection d.method.exclusive ref with
  | aborted =>
    have hstep : s.advance cfg connection d = some (s, { d with phase := .done }) := by
      simp only [advance, h, hq, ho, map_some]
    rw [advanceTimes, hstep, bind_some, advanceTimes_done rfl, map_some, List.append_nil]
  | refused =>
    have hstep : s.advance cfg connection d = some (s,
        { d with answers := d.answers ++ s.ownershipError d.channel, phase := .done }) := by
      simp only [advance, h, hq, ho, map_some]
    rw [advanceTimes, hstep, bind_some, advanceTimes_done rfl, map_some]
  | granted =>
    have hstep : s.advance cfg connection d = some (s, { d with phase := .reply }) := by
      simp only [advance, h, hq, ho, map_some]
    rw [advanceTimes, hstep, bind_some, advanceTimes]
    simp only [advance, hq, map_some, bind_some]
    rw [advanceTimes_done rfl, map_some]

theorem advanceTimes_bind (h : d.phase = .bind) (hq : d.queue = some ref) (n : Nat) :
    (advanceTimes cfg connection (n + 4) (s, d)).map (fun r => (r.1, r.2.phase, r.2.answers)) =
      (s.shareQueue cfg connection d.method ref).map fun s =>
        ((s.answerDeclare connection d.channel d.method ref).1, .done,
          d.answers ++ (s.answerDeclare connection d.channel d.method ref).2) := by
  unfold shareQueue
  cases hbind : s.bindDefault cfg ref with
  | none =>
    have hstep : s.advance cfg connection d = none := by
      simp only [advance, h, hq, hbind, bind_some, map_none]
    rw [advanceTimes, hstep]
    rfl
  | some bound =>
    have hstep : s.advance cfg connection d = some (bound,
        { d with phase := if d.method.exclusive then .own else .test }) := by
      simp only [advance, h, hq, hbind, bind_some, map_some]
    rw [advanceTimes, hstep, bind_some, bind_eq_bind, bind_some]
    cases hx : d.method.exclusive with
    | false => exact advanceTimes_test (d := { d with phase := .test }) rfl hq (n + 1)
    | true =>
      rw [if_pos rfl, if_pos rfl, advanceTimes]
      cases hown : bound.ownQueue connection ref with
      | none =>
        have hstep : bound.advance cfg connection { d with phase := .own } = none := by
          simp only [advance, hq, hown, bind_some, map_none]
        rw [hstep]
        rfl
      | some owned =>
        have hstep : bound.advance cfg connection { d with phase := .own } =
            some (owned, { d with phase := .test }) := by
          simp only [advance, hq, hown, bind_some, map_some]
        rw [hstep]
        exact advanceTimes_test (d := { d with phase := .test }) rfl hq n

theorem advanceTimes_queueDeclare (cfg : ServerConfig) (s : Server) (connection : ConnectionId)
    (channel : ChannelRef) (method : DeclareMethod) :
    (advanceTimes cfg connection 7 (s.takeDeclare channel method)).map
        (fun r => (r.1, r.2.phase, r.2.answers)) =
      (s.queueDeclare cfg connection channel method).map fun r => (r.1, .done, r.2) := by
  unfold takeDeclare queueDeclare
  rw [advanceTimes]
  cases ht : (s.declareName method.queue).1.queueTable (s.declareName method.queue).2 with
  | some ref =>
    simp only [advance, ht, bind_some]
    exact advanceTimes_test rfl rfl 4
  | none =>
    by_cases hno : (method.passive || method.durable) = true
    · simp only [advance, ht, if_pos hno, bind_some]
      rw [advanceTimes_done rfl]
      rfl
    · simp only [advance, ht, if_neg hno, bind_some]
      rw [advanceTimes]
      cases hnew : queueNew cfg (s.declareName method.queue).1 connection
          (s.declareName method.queue).2 method with
      | none => simp only [advance, hnew, map_none, bind_none, bind_eq_bind]
      | some r =>
        simp only [advance, hnew, map_some, bind_some, bind_eq_bind]
        cases hcreated : r.2.1 with
        | some ref =>
          rw [some_or]
          refine Eq.trans (advanceTimes_bind rfl rfl 1) ?_
          simp only [map_map]
          rfl
        | none =>
          rw [none_or, advanceTimes]
          cases hfound : r.1.queueTable (s.declareName method.queue).2 with
          | none =>
            simp only [advance, hfound, isSome_none, Bool.false_eq_true, if_false, bind_some]
            rw [advanceTimes_done rfl]
            rfl
          | some ref =>
            simp only [advance, hfound, isSome_none, Bool.false_eq_true, if_false, bind_some]
            refine Eq.trans (advanceTimes_bind rfl rfl 0) ?_
            simp only [map_map]
            rfl

/-! ## One step -/

theorem takeDeclare_aside (s : Server) (channel : ChannelRef) (method : DeclareMethod) :
    s.Aside none (s.takeDeclare channel method).1 := by
  unfold takeDeclare declareName
  split
  · exact ⟨rfl, rfl, fun _ _ h => h, fun _ _ h => .inl h, .refl, fun _ => .refl _⟩
  · exact .refl s

variable {r : Server × Declare}

theorem advance_cases (h : s.advance cfg connection d = some r) : s.Aside none r.1 ∨
      (∃ queue : ServerQueue, d.phase = .new ∧ queue.basic.exclusive = d.method.exclusive ∧
        queue.connection = (if d.method.exclusive then some connection else none) ∧
        s.queueTable d.name = none ∧ r.1 = s.addQueue d.name queue) ∨
      ∃ ref ∈ d.queue, d.phase = .own ∧ s.ownQueue connection ref = some r.1 := by
  unfold advance at h
  split at h
  · split at h
    · cases h
      exact Or.inl (.refl s)
    · split at h <;>
      · cases h
        exact Or.inl (.refl s)
  · next hphase =>
    obtain ⟨t, hnew, rfl⟩ := map_eq_some_iff.mp h
    rcases queueNew_cases hnew with ⟨hsame, -, -⟩ | ⟨queue, hx, hc, hnone, rfl⟩
    · refine Or.inl ?_
      rw [hsame]
      exact .refl s
    · exact Or.inr (Or.inl ⟨queue, hphase, hx, hc, hnone, rfl⟩)
  · split at h <;>
    · cases h
      exact Or.inl (.refl s)
  · obtain ⟨ref, -, h⟩ := bind_eq_some_iff.mp h
    obtain ⟨bound, hbound, rfl⟩ := map_eq_some_iff.mp h
    exact Or.inl (bindDefault_aside hbound)
  · next hphase =>
    obtain ⟨ref, href, h⟩ := bind_eq_some_iff.mp h
    obtain ⟨owned, howned, rfl⟩ := map_eq_some_iff.mp h
    exact Or.inr (Or.inr ⟨ref, href, hphase, howned⟩)
  · obtain ⟨ref, -, rfl⟩ := map_eq_some_iff.mp h
    split <;> exact Or.inl (.refl s)
  · obtain ⟨ref, -, rfl⟩ := map_eq_some_iff.mp h
    exact Or.inl ⟨rfl, rfl, fun _ _ h => h, fun _ _ h => .inl h, .refl, fun _ => .refl _⟩
  · cases h
    exact Or.inl (.refl s)

theorem advance_left (h : s.advance cfg connection d = some r) (hp : d.phase ≠ .done) :
    r.2.phase.left < d.phase.left := by
  unfold advance at h
  cases hphase : d.phase with
  | search =>
    simp only [hphase] at h
    split at h
    · cases h
      simp [DeclarePhase.left]
    · split at h <;>
      · cases h
        simp [DeclarePhase.left]
  | new =>
    simp only [hphase] at h
    obtain ⟨t, -, rfl⟩ := map_eq_some_iff.mp h
    cases t.2.1 <;> simp [DeclarePhase.left]
  | searchAgain =>
    simp only [hphase] at h
    split at h <;>
    · cases h
      simp [DeclarePhase.left]
  | bind =>
    simp only [hphase] at h
    obtain ⟨ref, -, h⟩ := bind_eq_some_iff.mp h
    obtain ⟨bound, -, rfl⟩ := map_eq_some_iff.mp h
    cases d.method.exclusive <;> simp [DeclarePhase.left]
  | own =>
    simp only [hphase] at h
    obtain ⟨ref, -, h⟩ := bind_eq_some_iff.mp h
    obtain ⟨owned, -, rfl⟩ := map_eq_some_iff.mp h
    simp [DeclarePhase.left]
  | test =>
    simp only [hphase] at h
    obtain ⟨ref, -, rfl⟩ := map_eq_some_iff.mp h
    split <;> simp [DeclarePhase.left]
  | reply =>
    simp only [hphase] at h
    obtain ⟨ref, -, rfl⟩ := map_eq_some_iff.mp h
    simp [DeclarePhase.left]
  | done => exact absurd hphase hp

theorem advance_registered (hr : s.Registered) (h : s.advance cfg connection d = some r) :
    r.1.Registered ∧ s.Grows r.1 := by
  rcases advance_cases h with haside | ⟨queue, -, hx, hc, -, heq⟩ | ⟨ref, -, -, hown⟩
  · exact ⟨hr.aside haside, haside.grows⟩
  · rw [heq]
    refine ⟨hr.addQueue d.name ?_, s.addQueue_grows d.name queue⟩
    rw [hx, hc]
    cases d.method.exclusive <;> rfl
  · obtain ⟨-, heq⟩ := ownQueue_eq_some hown
    rw [heq]
    exact ⟨⟨⟨hr.name, hr.lt⟩, hr.exclusive⟩, ⟨le_rfl, fun _ _ => rfl, fun _ _ => .refl _⟩⟩

theorem advance_own_other (h : s.advance cfg connection d = some r) {c : ConnectionId}
    (hc : c ≠ connection) : (r.1.ownQueueSet c).Sublist (s.ownQueueSet c) := by
  rcases advance_cases h with haside | ⟨queue, -, -, -, -, heq⟩ | ⟨ref, -, -, hown⟩
  · exact haside.ownQueueSet c
  · rw [heq]
    exact .refl _
  · obtain ⟨-, heq⟩ := ownQueue_eq_some hown
    rw [heq]
    show (update s.ownQueueSet connection _ c).Sublist _
    rw [update_of_ne hc]

end Server

/-! ## The machine -/

/-- The server, with the declares that its connections are working on. -/
structure Declares where
  server : Server
  pending : ConnectionId → Option Declare := fun _ => none

inductive DeclaresEvent where
  /-- a method arrives, or another thread makes a step -/
  | server (event : ServerEvent)
  /-- a connection goes on with its declare -/
  | advance (connection : ConnectionId)
deriving DecidableEq

namespace Declares

/-- A connection takes no method while it is working on a declare. -/
def busy (self : Declares) : ServerEvent → Bool
  | .method channel _ =>
    (self.server.broker.store.channels channel).connection.any fun connection =>
      (self.pending connection).isSome
  | .thread _ => false

/-- What is left of the declare of a connection after a step. Declares that are done are put out. -/
def proceed (self : Declares) (connection : ConnectionId) (r : Server × Declare) :
    Declares × List (ConnectionId × Declare) :=
  if r.2.phase = .done then
    (⟨r.1, update self.pending connection none⟩, [(connection, r.2)])
  else (⟨r.1, update self.pending connection (some r.2)⟩, [])

def step (cfg : ServerConfig) (self : Declares) :
    DeclaresEvent → Option (Declares × List (ConnectionId × Declare))
  | .server event =>
    if self.busy event then none
    else
      match event.declare? with
      | some (channel, method) =>
        match (self.server.broker.store.channels channel).connection,
            (self.server.broker.store.channels channel).zombie with
        | some connection, false =>
          some (self.proceed connection (self.server.takeDeclare channel method))
        | _, _ => none
      | none => (self.server.step cfg event).map fun r => ({ self with server := r.1 }, [])
  | .advance connection =>
    (self.pending connection).bind fun d =>
      (self.server.advance cfg connection d).map (self.proceed connection)

/-- No declare has arrived yet. -/
def new (channels : ChannelRef → Channel) : Declares := { server := Server.new channels }

/-- The state after a run, and the declares that have ended. -/
def outcome (cfg : ServerConfig) (s : Declares) (events : List DeclaresEvent) :
    Option (Declares × List (ConnectionId × Declare)) :=
  Lib.run (Lib.logged (step cfg)) (s, []) events

end Declares

namespace Declares

variable {cfg : ServerConfig} {s : Declares} {log : List (ConnectionId × Declare)}

/-- What a step does, by the kind of step. -/
inductive Move (cfg : ServerConfig) (s : Declares) :
    DeclaresEvent → Declares × List (ConnectionId × Declare) → Prop
  | other {event : ServerEvent} {r : Server × List Answer} (hno : event.declare? = none)
      (hs : s.server.step cfg event = some r) : Move cfg s (.server event) (⟨r.1, s.pending⟩, [])
  | take {event : ServerEvent} {channel : ChannelRef} {method : DeclareMethod}
      {connection : ConnectionId} (hd : event.declare? = some (channel, method))
      (hc : (s.server.broker.store.channels channel).connection = some connection)
      (hidle : s.pending connection = none) :
      Move cfg s (.server event) (s.proceed connection (s.server.takeDeclare channel method))
  | advance {connection : ConnectionId} {d : Declare} {t : Server × Declare}
      (hd : s.pending connection = some d) (ht : s.server.advance cfg connection d = some t) :
      Move cfg s (.advance connection) (s.proceed connection t)

/-- Each step is a move of its kind. -/
theorem move_of_step {event : DeclaresEvent} {r : Declares × List (ConnectionId × Declare)}
    (h : s.step cfg event = some r) : Move cfg s event r := by
  cases event with
  | server event =>
    simp only [step] at h
    split at h
    · cases h
    · next hfree =>
      split at h
      · next channel method hd =>
        split at h
        · next connection hc _ =>
          cases h
          refine .take hd hc ?_
          -- otherwise the connection would be busy
          by_contra hbusy
          obtain ⟨c, m, rfl⟩ : ∃ c m, event = .method c m := by
            cases event with
            | method c m => exact ⟨c, m, rfl⟩
            | thread event => cases hd
          have he : c = channel := by
            cases m with
            | queueDeclare m => exact (Prod.mk.inj (some.inj hd)).1
            | _ => cases hd
          rw [busy, he, hc, any_some] at hfree
          exact hfree (isSome_iff_ne_none.mpr hbusy)
        · cases h
      · next hno =>
        obtain ⟨t, ht, rfl⟩ := map_eq_some_iff.mp h
        exact .other hno ht
  | advance connection =>
    obtain ⟨d, hd, h⟩ := bind_eq_some_iff.mp h
    obtain ⟨t, ht, rfl⟩ := map_eq_some_iff.mp h
    exact .advance hd ht

theorem proceed_server (s : Declares) (connection : ConnectionId) (t : Server × Declare) :
    (s.proceed connection t).1.server = t.1 := by
  unfold proceed
  split <;> rfl

/-- Every declare that is under way has this property, and every one that has ended. -/
structure Holds (P : Server → ConnectionId → Declare → Prop) (s : Declares)
    (log : List (ConnectionId × Declare)) : Prop where
  pending : ∀ connection d, s.pending connection = some d →
    d.phase ≠ .done ∧ P s.server connection d
  ended : ∀ x ∈ log, x.2.phase = .done ∧ P s.server x.1 x.2

theorem new_holds (P : Server → ConnectionId → Declare → Prop)
    (channels : ChannelRef → Channel) : Holds P (new channels) [] := by
  refine ⟨fun connection d hd => ?_, fun x hx => absurd hx List.not_mem_nil⟩
  cases hd

theorem Holds.proceed {P : Server → ConnectionId → Declare → Prop} (h : Holds P s log)
    {connection : ConnectionId} {t : Server × Declare} (hnew : P t.1 connection t.2)
    (hothers : ∀ c d, c ≠ connection ∨ d.phase = .done → P s.server c d → P t.1 c d) :
    Holds P (s.proceed connection t).1 (log ++ (s.proceed connection t).2) := by
  have hrest : ∀ c d, c ≠ connection → s.pending c = some d → d.phase ≠ .done ∧ P t.1 c d :=
    fun c d hne hd => ⟨(h.pending c d hd).1, hothers c d (Or.inl hne) (h.pending c d hd).2⟩
  have hended : ∀ x ∈ log, x.2.phase = .done ∧ P t.1 x.1 x.2 := fun x hx =>
    ⟨(h.ended x hx).1, hothers x.1 x.2 (Or.inr (h.ended x hx).1) (h.ended x hx).2⟩
  unfold Declares.proceed
  split
  · next hdone =>
    refine ⟨fun c d hd => ?_, fun x hx => ?_⟩
    · change update s.pending connection none c = some d at hd
      by_cases hc : c = connection
      · rw [hc, update_self] at hd
        cases hd
      · rw [update_of_ne hc] at hd
        exact hrest c d hc hd
    · rcases List.mem_append.mp hx with hx | hx
      · exact hended x hx
      · obtain rfl := List.mem_singleton.mp hx
        exact ⟨hdone, hnew⟩
  · next hgoing =>
    refine ⟨fun c d hd => ?_, fun x hx => ?_⟩
    · change update s.pending connection (some t.2) c = some d at hd
      by_cases hc : c = connection
      · rw [hc, update_self] at hd
        cases hd
        exact ⟨hgoing, hc ▸ hnew⟩
      · rw [update_of_ne hc] at hd
        exact hrest c d hc hd
    · rw [List.append_nil] at hx
      exact hended x hx

theorem Holds.move {P : Server → ConnectionId → Declare → Prop} (h : Holds P s log)
    (hr : s.server.Registered) {event : DeclaresEvent}
    {r : Declares × List (ConnectionId × Declare)} (hm : Move cfg s event r)
    (hkeep : ∀ t c d, s.server.Grows t →
      (d.phase ≠ .done → (t.ownQueueSet c).Sublist (s.server.ownQueueSet c)) →
      P s.server c d → P t c d)
    (htake : ∀ channel method c, P (s.server.takeDeclare channel method).1 c
      (s.server.takeDeclare channel method).2)
    (hadvance : ∀ c d t, event = .advance c → s.pending c = some d → P s.server c d →
      s.server.advance cfg c d = some t → P t.1 c t.2) :
    r.1.server.Registered ∧ Holds P r.1 (log ++ r.2) := by
  cases hm with
  | @other event t hno hs =>
    have haside := Server.step_aside hno hs
    have hkeep' : ∀ c d, P s.server c d → P t.1 c d :=
      fun c d => hkeep t.1 c d haside.grows fun _ => haside.ownQueueSet c
    refine ⟨hr.aside haside, fun c d hd => ?_, fun x hx => ?_⟩
    · exact ⟨(h.pending c d hd).1, hkeep' c d (h.pending c d hd).2⟩
    · rw [List.append_nil] at hx
      exact ⟨(h.ended x hx).1, hkeep' x.1 x.2 (h.ended x hx).2⟩
  | @take event channel method connection hd hc hidle =>
    have haside := s.server.takeDeclare_aside channel method
    rw [proceed_server]
    refine ⟨hr.aside haside, h.proceed (htake channel method connection) fun c d _ => ?_⟩
    exact hkeep _ c d haside.grows fun _ => haside.ownQueueSet c
  | @advance connection d t hd ht =>
    obtain ⟨hregistered, hgrows⟩ := Server.advance_registered hr ht
    rw [proceed_server]
    refine ⟨hregistered, h.proceed (hadvance connection d t rfl hd (h.pending _ d hd).2 ht)
      fun c d' hother => ?_⟩
    exact hkeep _ c d' hgrows fun hnot =>
      Server.advance_own_other ht (hother.resolve_right hnot)

end Declares

end OpenAmq
