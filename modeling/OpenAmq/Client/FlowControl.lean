import OpenAmq.Client.Session
import OpenAmq.Lib.Overflow

/-!
# Flow control of the client

The arrived contents of a session should be a queue from which the application gets them in
their order. It is bounded by the server, which is told to stop and to restart, or on a direct
connection by the overflow policy.

A content at the high-water mark is queued after the server has replied. What arrives meanwhile
gets in front of it.

* `Serves` — the session is such a queue, and leaves no reader waiting
* `Meets` — what keeps it one
* `flow_control` — a session serves its reader along a run exactly when all events meet this
-/

namespace OpenAmq.Client

open OpenAmq.Lib List Option

variable {α : Type}

/-! ## What a session is for -/

/-- What has arrived with an action, as it is stamped. -/
def Action.content? : Action α → Option (Content α)
  | .arrived content exchange routingKey consumerTag deliveryTag =>
    some (content.stamp exchange routingKey consumerTag deliveryTag)
  | .returned _ _ _ | .other => none

def Reply.content? : Reply α → Option (Content α)
  | .almost (some m) | .method (some m) => m.action.content?
  | .directMsg content => some (content.stamp none none none 0)
  | .almost none | .method none | .intern | .closed | .directOk | .directNg | .invalid => none

/-- Contents arrive, and the application reads them. -/
def Event.op? : Event α → Option (QueueOp (Content α))
  | .reply r _ => r.content?.map .put
  | .basicArrived => some .take
  | .timeout _ | .dies | .call _ | .channelFlow _ | .wait | .basicReturned => none

/-- The arrivals and reads of a run. -/
def history (events : List (Event α)) : List (QueueOp (Content α)) := events.filterMap Event.op?

def Note.given? : Note α → Option (Content α)
  | .given content => some content
  | .flow _ | .code _ => none

/-- What the application has got. -/
def givens (notes : List (Note α)) : List (Content α) := notes.filterMap Note.given?

def Wait.held? (wait : Wait α) : Option (Content α) :=
  match wait.caller with
  | .stop content _ => some content
  | .session | .restart => none

/-- The contents that are held until the server has replied. -/
def held (waits : List (Wait α)) : List (Content α) := waits.filterMap Wait.held?

namespace Config

/-- The policy applies to direct connections. -/
def policy (cfg : Config) : Policy :=
  if cfg.direct = true ∧ 0 < cfg.highWater then
    if cfg.onOverflow = "trim".toList then .trim
    else if cfg.onOverflow = "drop".toList then .drop
    else .keep
  else .keep

def capacity (cfg : Config) : Nat := cfg.highWater.toNat

/-- There is a high-water mark that is not to be exceeded. -/
def Bounded (cfg : Config) : Prop :=
  cfg.direct = true ∧ cfg.highWater ≠ 0 ∧
    (cfg.onOverflow = "trim".toList ∨ cfg.onOverflow = "drop".toList)

/-- The queue of a session after arrivals and reads. -/
def ideal (cfg : Config) (ops : List (QueueOp (Content α))) : Fifo (Content α) :=
  Fifo.after cfg.policy cfg.capacity ops

end Config

/-- The arrived contents, with those that are held. -/
def Session.pending (self : Session α) : List (Content α) := self.arrived ++ held self.waits

/-- A server that has been told to stop will be told to restart. -/
def Flowing (cfg : Config) (s : Session α) : Prop :=
  s.told = true → cfg.lowWater < s.arrived.length ∧ 0 < s.arrived.length

structure Serves (cfg : Config) (s : Session α × List (Note α))
    (ops : List (QueueOp (Content α))) : Prop where
  /-- the application has got what it should from the queue -/
  given : givens s.2 = (cfg.ideal ops).given
  queue : s.1.pending = (cfg.ideal ops).queue
  /-- what it has got and will get has arrived in this order -/
  ordered : (givens s.2 ++ s.1.pending).Sublist (Fifo.puts ops)
  kept : ¬ cfg.Bounded → givens s.2 ++ s.1.pending = Fifo.puts ops
  bounded : cfg.Bounded → (s.1.arrived.length : Int) ≤ cfg.highWater
  flowing : Flowing cfg s.1

/--
Nothing arrives while another content is held. The application does not stop the flow itself
with the list at low water, and does not read it down to there, or to its end, without the
session restarting the flow.
-/
def Meets (cfg : Config) (s : Session α) : Event α → Prop
  | .reply reply _ => ∀ content ∈ reply.content?, ∀ other ∈ held s.waits, content = other
  | .channelFlow active =>
    active = false → s.alive = true → cfg.lowWater < s.arrived.length ∧ 0 < s.arrived.length
  | .basicArrived =>
    s.told = true →
      ((s.arrived.length : Int) = cfg.lowWater + 1 → s.flowStopped = true ∧ s.alive = true) ∧
      (s.arrived.length = 1 → 0 ≤ cfg.lowWater)
  | .timeout _ | .dies | .call _ | .wait | .basicReturned => True

/-! ## Waits that end -/

theorem givens_append (notes notes' : List (Note α)) :
    givens (notes ++ notes') = givens notes ++ givens notes' := filterMap_append

/-- At most, contents that were held are queued. -/
structure Unwinds (s : Session α) (r : Session α × List (Note α)) : Prop where
  pending : r.1.pending = s.pending
  longer : s.arrived.length ≤ r.1.arrived.length
  released : held s.waits = [] → held r.1.waits = []
  told : r.1.told = s.told
  flowStopped : r.1.flowStopped = s.flowStopped
  quiet : givens r.2 = []

variable {waits : List (Wait α)}

namespace Unwinds

variable {s s1 : Session α} {r : Session α × List (Note α)}

theorem of_eq (h : Unwinds s1 r) (ha : s1.arrived = s.arrived) (hw : held s1.waits = held s.waits)
    (ht : s1.told = s.told) (hf : s1.flowStopped = s.flowStopped) : Unwinds s r where
  pending := by
    rw [h.pending, Session.pending, Session.pending, ha, hw]
  longer := ha ▸ h.longer
  released := hw ▸ h.released
  told := h.told.trans ht
  flowStopped := h.flowStopped.trans hf
  quiet := h.quiet

theorem trans (h : Unwinds s (s1, [])) (h' : Unwinds s1 r) : Unwinds s r where
  pending := h'.pending.trans h.pending
  longer := Nat.le_trans h.longer h'.longer
  released := fun hnil => h'.released (h.released hnil)
  told := h'.told.trans h.told
  flowStopped := h'.flowStopped.trans h.flowStopped
  quiet := h'.quiet

theorem left {notes : List (Note α)} (h : held s.waits = held waits) (hquiet : givens notes = []) :
    Unwinds s ({ s with waits }, notes) where
  pending := congrArg (s.arrived ++ ·) h.symm
  longer := Nat.le_refl _
  released := h.symm.trans
  told := rfl
  flowStopped := rfl
  quiet := hquiet

theorem refl (s : Session α) : Unwinds s (s, []) := left rfl rfl

variable {content : Content α}

theorem queued (h : held s.waits = content :: held waits) :
    Unwinds s ({ s with arrived := s.arrived ++ [content], waits }, []) where
  pending := by
    show s.arrived ++ [content] ++ held waits = s.arrived ++ held s.waits
    rw [h, append_assoc, singleton_append]
  longer := by
    rw [length_append]
    exact Nat.le_add_right _ _
  released := by
    intro hnil
    rw [h] at hnil
    cases hnil
  told := rfl
  flowStopped := rfl
  quiet := rfl

end Unwinds

theorem held_cons (wait : Wait α) (waits : List (Wait α)) :
    held (wait :: waits) = wait.held?.toList ++ held waits := by
  rw [held, held, filterMap_cons]
  cases wait.held? <;> rfl

namespace Session

variable {s : Session α}

theorem returns_unwinds {waits : List (Wait α)} (rc : Int) (hw : s.waits = waits) :
    Unwinds s (s.returns rc waits) := by
  induction waits generalizing s rc with
  | nil => exact .left (congrArg held hw) rfl
  | cons wait waits ih =>
    have hheld := congrArg held hw
    rw [held_cons, Wait.held?] at hheld
    unfold returns
    cases hcaller : wait.caller with
    | session | restart =>
      rw [hcaller] at hheld
      exact .left hheld rfl
    | stop content ends =>
      rw [hcaller] at hheld
      have hqueued := Unwinds.queued hheld
      cases ends with
      | false => exact hqueued
      | true => exact hqueued.trans (ih 0 rfl)

theorem resume_unwinds (s : Session α) (ends : Bool) : Unwinds s (s.resume ends) := by
  cases ends with
  | false => exact .refl s
  | true => exact returns_unwinds 0 rfl

theorem fails_unwinds (s : Session α) (errorText : String) : Unwinds s (s.fails errorText) :=
  (@returns_unwinds α { s with errorText := errorText.toList } s.waits (-1) rfl).of_eq
    rfl rfl rfl rfl

theorem pushReturned_unwinds (s : Session α) (content : Content α) (ends : Bool) :
    Unwinds s (s.pushReturned content ends) :=
  (resume_unwinds { s with returned := s.returned ++ [{ content with returned := true }] }
    ends).of_eq rfl rfl rfl rfl

theorem timeout_unwinds (s : Session α) (wait : Wait α) (zombie : Bool) :
    Unwinds s (s.timeout wait zombie) := by
  unfold timeout
  split
  · exact fails_unwinds s _
  · exact returns_unwinds 0 rfl

end Session

/-! ## Contents that arrive -/

section Arrival

variable {cfg : Config} {s : Session α} {content : Content α} {ends : Bool}

theorem policy_eq_keep (h : cfg.direct = false) : cfg.policy = .keep := by
  unfold Config.policy
  rw [if_neg]
  rintro ⟨hdirect, -⟩
  rw [h] at hdirect
  cases hdirect

theorem push_of_not_mark {queue : List (Content α)}
    (h : ¬ (cfg.highWater ≠ 0 ∧ (queue.length : Int) = cfg.highWater)) :
    cfg.policy.push cfg.capacity queue content = queue ++ [content] := by
  by_cases hdirect : cfg.direct = true ∧ 0 < cfg.highWater
  · unfold Policy.push
    rw [if_neg]
    unfold Config.capacity
    omega
  · rw [Config.policy, if_neg hdirect, Fifo.push_keep]

theorem push_of_mark {queue : List (Content α)} (hmark : cfg.highWater ≠ 0)
    (hlength : (queue.length : Int) = cfg.highWater) (hdirect : cfg.direct = true) :
    cfg.policy.push cfg.capacity queue content =
      if cfg.onOverflow = "trim".toList then queue.tail ++ [content]
      else if cfg.onOverflow = "drop".toList then queue
      else queue ++ [content] := by
  have hpos : 0 < cfg.highWater := by omega
  have hfull : queue.length = cfg.capacity := by
    unfold Config.capacity
    omega
  rw [Config.policy, if_pos ⟨hdirect, hpos⟩]
  by_cases htrim : cfg.onOverflow = "trim".toList
  · rw [if_pos htrim, if_pos htrim, Policy.push, if_pos hfull]
  · rw [if_neg htrim, if_neg htrim]
    by_cases hdrop : cfg.onOverflow = "drop".toList
    · rw [if_pos hdrop, if_pos hdrop, Policy.push, if_pos hfull]
    · rw [if_neg hdrop, if_neg hdrop, Fifo.push_keep]

/-- The content is admitted to the list, after which waits may end. -/
def Admits (cfg : Config) (s : Session α) (content : Content α)
    (r : Session α × List (Note α)) : Prop :=
  ∃ s1 : Session α, Unwinds s1 r ∧ s1.arrived = cfg.policy.push cfg.capacity s.arrived content ∧
    held s1.waits = held s.waits ∧ s1.told = s.told ∧
      (s1.flowStopped = true → s.flowStopped = true ∨ cfg.highWater ≠ 0)

/-- The server is told to stop, and the content is held. -/
structure Stops (cfg : Config) (s : Session α) (content : Content α)
    (r : Session α × List (Note α)) : Prop where
  direct : cfg.direct = false
  mark : cfg.highWater ≠ 0
  full : (s.arrived.length : Int) = cfg.highWater
  arrived : r.1.arrived = s.arrived
  held : held r.1.waits = content :: held s.waits
  told : r.1.told = true
  quiet : givens r.2 = []

theorem Admits.store {s1 : Session α}
    (ha : s1.arrived ++ [content] = cfg.policy.push cfg.capacity s.arrived content)
    (hw : held s1.waits = held s.waits) (ht : s1.told = s.told)
    (hf : s1.flowStopped = true → s.flowStopped = true ∨ cfg.highWater ≠ 0) :
    Admits cfg s content (s1.store content ends) :=
  ⟨{ s1 with arrived := s1.arrived ++ [content] }, Session.resume_unwinds _ _, ha, hw, ht, hf⟩

/-- A content that arrives is admitted, and may stop the flow. -/
theorem pushArrived_cases {r : Session α × List (Note α)}
    (h : s.pushArrived cfg content ends = some r) :
    Admits cfg s content r ∨ Stops cfg s content r := by
  unfold Session.pushArrived at h
  by_cases hmark : cfg.highWater ≠ 0 ∧ (s.arrived.length : Int) = cfg.highWater
  · rw [if_pos hmark] at h
    obtain ⟨hmark, hfull⟩ := hmark
    by_cases hdirect : cfg.direct = true
    · have hpush := @push_of_mark α cfg content s.arrived hmark hfull hdirect
      rw [if_pos hdirect] at h
      refine .inl ?_
      by_cases hwarn : cfg.onOverflow = "warn".toList
      · rw [hwarn, if_neg (by decide), if_neg (by decide)] at hpush
        rw [if_pos hwarn] at h
        cases h
        exact .store hpush.symm rfl rfl fun _ => .inr hmark
      rw [if_neg hwarn] at h
      by_cases htrim : cfg.onOverflow = "trim".toList
      · rw [if_pos htrim] at h hpush
        cases h
        exact .store hpush.symm rfl rfl .inl
      rw [if_neg htrim] at h hpush
      by_cases hdrop : cfg.onOverflow = "drop".toList
      · rw [if_pos hdrop] at h hpush
        cases h
        exact ⟨s, Session.resume_unwinds s ends, hpush.symm, rfl, rfl, .inl⟩
      rw [if_neg hdrop] at h hpush
      by_cases hkill : cfg.onOverflow = "kill".toList
      · rw [if_pos hkill] at h
        cases h
      · rw [if_neg hkill] at h
        cases h
        exact .store hpush.symm rfl rfl .inl
    · have hkeep := policy_eq_keep (Bool.eq_false_iff.mpr hdirect)
      have hpush : s.arrived ++ [content] = cfg.policy.push cfg.capacity s.arrived content := by
        rw [hkeep, Fifo.push_keep]
      rw [if_neg hdirect] at h
      by_cases hstopped : s.flowStopped = true
      · rw [if_pos hstopped] at h
        cases h
        exact .inl (.store hpush rfl rfl .inl)
      rw [if_neg hstopped] at h
      by_cases halive : s.alive = true
      · rw [if_pos halive] at h
        cases h
        exact .inr ⟨Bool.eq_false_iff.mpr hdirect, hmark, hfull, rfl, rfl, rfl, rfl⟩
      · rw [if_neg halive] at h
        cases h
        exact .inl (.store hpush rfl rfl fun _ => .inr hmark)
  · rw [if_neg hmark] at h
    cases h
    exact .inl (.store (push_of_not_mark hmark).symm rfl rfl .inl)

/-- What an action or a reply does to the contents. -/
structure Handles (cfg : Config) (s : Session α) (content : Option (Content α))
    (r : Session α × List (Note α)) : Prop where
  none : content = none → Unwinds s r
  some : ∀ c, content = some c → Admits cfg s c r ∨ Stops cfg s c r

variable {r : Session α × List (Note α)}

theorem Unwinds.handles (h : Unwinds s r) : Handles cfg s none r := ⟨fun _ => h, nofun⟩

theorem handles_some (h : Admits cfg s content r ∨ Stops cfg s content r) :
    Handles cfg s (some content) r := by
  refine ⟨nofun, fun c hc => ?_⟩
  cases hc
  exact h

theorem Handles.of_eq {s1 : Session α} {content : Option (Content α)}
    (h : Handles cfg s1 content r) (ha : s1.arrived = s.arrived)
    (hw : held s1.waits = held s.waits) (ht : s1.told = s.told)
    (hf : s1.flowStopped = s.flowStopped) : Handles cfg s content r where
  none := fun hnone => (h.none hnone).of_eq ha hw ht hf
  some := by
    intro c hc
    rcases h.some c hc with ⟨s2, hunwinds, harrived, hheld, htold, hstopped⟩ | hstops
    · exact .inl ⟨s2, hunwinds, ha ▸ harrived, hheld.trans hw, htold.trans ht, hf ▸ hstopped⟩
    · exact .inr ⟨hstops.direct, hstops.mark, ha ▸ hstops.full, hstops.arrived.trans ha,
        hw ▸ hstops.held, hstops.told, hstops.quiet⟩

theorem execute_handles {action : Action α} (h : s.execute cfg action ends = some r) :
    Handles cfg s action.content? r := by
  cases action with
  | arrived content exchange routingKey consumerTag deliveryTag =>
    exact handles_some (pushArrived_cases h)
  | returned content exchange routingKey =>
    cases h
    exact (Session.pushReturned_unwinds s _ ends).handles
  | other =>
    cases h
    exact (Session.resume_unwinds s ends).handles

theorem handle_handles {wait : Wait α} {pending : Nat} {reply : Reply α}
    (hw : s.waits = wait :: waits) (h : s.handle cfg wait waits pending reply = some r) :
    Handles cfg s reply.content? r := by
  have hreturns : Handles cfg s none (s.returns 0 s.waits) :=
    (Session.returns_unwinds 0 rfl).handles
  cases reply with
  | almost method =>
    cases method with
    | none =>
      cases h
      exact (Unwinds.refl s).handles
    | some method => exact execute_handles h
  | intern =>
    cases h
    exact hreturns
  | method method =>
    cases method with
    | none =>
      cases h
      exact hreturns
    | some method =>
      refine (execute_handles h).of_eq rfl ?_ rfl rfl
      rw [hw, held_cons, held_cons]
      rfl
  | closed =>
    cases h
    have hfails := Session.fails_unwinds { s with alive := false } "session is closed"
    have hunwinds : Unwinds s _ := hfails.of_eq rfl rfl rfl rfl
    exact hunwinds.handles
  | directOk =>
    cases h
    exact hreturns
  | directNg =>
    cases h
    exact (Session.fails_unwinds s _).handles
  | directMsg content => exact handles_some (pushArrived_cases h)
  | invalid =>
    cases h
    exact Unwinds.handles ⟨rfl, Nat.le_refl _, id, rfl, rfl, rfl⟩

end Arrival

/-! ## Contents that are read -/

section Read

variable {cfg : Config} {s : Session α}

/-- The read is one at which the session restarts the flow. -/
def Restarts (cfg : Config) (s : Session α) : Prop :=
  cfg.highWater ≠ 0 ∧ (s.arrived.tail.length : Int) = cfg.lowWater ∧ s.flowStopped = true

structure Reads (cfg : Config) (s : Session α) (r : Session α × List (Note α)) : Prop where
  given : givens r.2 = s.arrived.head?.toList
  arrived : r.1.arrived = s.arrived.tail
  held : held r.1.waits = held s.waits
  stopped : r.1.flowStopped = true → s.flowStopped = true
  told : r.1.told = true ↔ s.told = true ∧ ¬ (Restarts cfg s ∧ s.alive = true)

theorem pop_spec (s : Session α) :
    s.pop.1.arrived = s.arrived.tail ∧ s.pop.1.waits = s.waits ∧ s.pop.1.told = s.told ∧
      s.pop.1.flowStopped = s.flowStopped ∧ s.pop.1.alive = s.alive ∧
      givens s.pop.2 = s.arrived.head?.toList := by
  unfold Session.pop
  split
  · next hnil =>
    rw [hnil]
    exact ⟨rfl, rfl, rfl, rfl, rfl, rfl⟩
  · next hcons =>
    rw [hcons]
    exact ⟨rfl, rfl, rfl, rfl, rfl, rfl⟩

theorem basicArrived_reads (cfg : Config) (s : Session α) : Reads cfg s (s.basicArrived cfg) := by
  obtain ⟨harrived, hwaits, htold, hstopped, halive, hgiven⟩ := pop_spec s
  have hiff : (cfg.highWater ≠ 0 ∧ (s.pop.1.arrived.length : Int) = cfg.lowWater ∧
      s.pop.1.flowStopped = true) ↔ Restarts cfg s := by
    rw [harrived, hstopped]
    rfl
  unfold Session.basicArrived
  dsimp only
  by_cases hrestarts : Restarts cfg s
  · rw [if_pos (hiff.mpr hrestarts)]
    by_cases hlive : s.alive = true
    · rw [if_pos (halive.trans hlive)]
      refine ⟨?_, harrived, ?_, nofun, ?_⟩
      · rw [givens_append, hgiven]
        exact append_nil _
      · show held (_ :: s.pop.1.waits) = _
        rw [held_cons, hwaits]
        rfl
      · exact iff_of_false nofun fun h => h.2 ⟨hrestarts, hlive⟩
    · rw [if_neg (by rwa [halive])]
      refine ⟨hgiven, harrived, congrArg held hwaits, nofun, ?_⟩
      rw [htold]
      exact (and_iff_left fun h => hlive h.2).symm
  · rw [if_neg fun h => hrestarts (hiff.mp h)]
    refine ⟨hgiven, harrived, congrArg held hwaits, fun h => hstopped.symm.trans h, ?_⟩
    rw [htold]
    exact (and_iff_left fun h => hrestarts h.1).symm

end Read

/-! ## One event -/

section Step

variable {cfg : Config} {s : Session α} {r : Session α × List (Note α)}
  {log : List (Note α)} {ops : List (QueueOp (Content α))}

/-- What an event does to the contents and to the flow. -/
inductive Effect (cfg : Config) (s : Session α) (r : Session α × List (Note α)) :
    Event α → Prop
  | quiet {event : Event α} (hop : event.op? = none) (hmeets : Meets cfg s event)
      (h : Unwinds s r) : Effect cfg s r event
  | arrives {event : Event α} (content : Content α) (hop : event.op? = some (.put content))
      (hmeets : Meets cfg s event ↔ ∀ other ∈ held s.waits, content = other)
      (h : Admits cfg s content r ∨ Stops cfg s content r) : Effect cfg s r event
  | flow (active : Bool) (h : Unwinds s ({ r.1 with told := s.told }, r.2))
      (ht : r.1.told = if s.alive then !active else s.told)
      (ha : r.1.arrived = s.arrived) : Effect cfg s r (.channelFlow active)
  | reads (hw : s.waits = []) (h : Reads cfg s r) : Effect cfg s r .basicArrived

theorem call_unwinds (hw : s.waits = []) (blocking : Bool) : Unwinds s (s.call blocking) := by
  have hnil : held s.waits = [] := congrArg held hw
  unfold Session.call
  split
  · exact .left hnil rfl
  · exact ⟨rfl, Nat.le_refl _, id, rfl, rfl, rfl⟩

theorem wait_unwinds (hw : s.waits = []) : Unwinds s s.wait := by
  have hnil : held s.waits = [] := congrArg held hw
  unfold Session.wait
  split
  · exact ⟨rfl, Nat.le_refl _, id, rfl, rfl, rfl⟩
  · split
    · exact .left hnil rfl
    · exact ⟨rfl, Nat.le_refl _, id, rfl, rfl, rfl⟩

theorem callChannelFlow_effect (active : Bool) :
    Effect cfg s (s.callChannelFlow active) (.channelFlow active) := by
  unfold Session.callChannelFlow
  by_cases halive : s.alive = true
  · rw [if_pos halive]
    exact .flow active ⟨rfl, Nat.le_refl _, id, rfl, rfl, rfl⟩ (by rw [if_pos halive]; rfl) rfl
  · rw [if_neg halive]
    exact .flow active ⟨rfl, Nat.le_refl _, id, rfl, rfl, rfl⟩ (by rw [if_neg halive]) rfl

variable {event : Event α}

/-- Each step has the effect of its event. -/
theorem step_effect (h : s.step cfg event = some r) : Effect cfg s r event := by
  unfold Session.step at h
  split at h
  · next reply pending wait waits hw =>
    have hhandles := handle_handles hw h
    cases hcontent : reply.content? with
    | none =>
      have hop : (Event.reply reply pending).op? = none := by
        rw [Event.op?, hcontent]
        rfl
      refine .quiet hop ?_ (hhandles.none hcontent)
      intro content hmem
      rw [hcontent] at hmem
      cases hmem
    | some content =>
      have hop : (Event.reply reply pending).op? = some (.put content) := by
        rw [Event.op?, hcontent]
        rfl
      refine .arrives content hop ?_ (hhandles.some content hcontent)
      simp only [Meets, hcontent, mem_def, some.injEq, forall_eq']
  · cases h
    exact .quiet rfl trivial (Session.timeout_unwinds s _ _)
  · cases h
    exact .quiet rfl trivial ⟨rfl, Nat.le_refl _, id, rfl, rfl, rfl⟩
  · next hw =>
    cases h
    exact .quiet rfl trivial (call_unwinds hw _)
  · cases h
    exact callChannelFlow_effect _
  · next hw =>
    cases h
    exact .quiet rfl trivial (wait_unwinds hw)
  · next hw =>
    cases h
    exact .reads hw (basicArrived_reads cfg s)
  · cases h
    exact .quiet rfl trivial ⟨rfl, Nat.le_refl _, id, rfl, rfl, rfl⟩
  · cases h

theorem cons_eq_concat_iff {others : List (Content α)} :
    content :: others = others ++ [content] ↔ ∀ other ∈ others, content = other := by
  induction others with
  | nil => exact iff_of_true rfl nofun
  | cons other others ih =>
    rw [cons_append, cons_eq_cons, forall_mem_cons]
    refine and_congr_right ?_
    rintro rfl
    exact ih

theorem pending_iff (hdirect : cfg.direct = true → held s.waits = [])
    (h : Admits cfg s content r ∨ Stops cfg s content r) :
    r.1.pending = cfg.policy.push cfg.capacity s.pending content ↔
      ∀ other ∈ held s.waits, content = other := by
  by_cases hd : cfg.direct = true
  · rw [Session.pending, Session.pending, hdirect hd, append_nil]
    refine iff_of_true ?_ nofun
    rcases h with ⟨s1, hunwinds, harrived, hheld, -, -⟩ | hstops
    · have hpending := hunwinds.pending
      rw [Session.pending, Session.pending, hheld, hdirect hd, append_nil] at hpending
      exact hpending.trans harrived
    · rw [hstops.direct] at hd
      cases hd
  · have hkeep := policy_eq_keep (Bool.eq_false_iff.mpr hd)
    have hpending : r.1.pending = s.arrived ++ (content :: held s.waits) := by
      rcases h with ⟨s1, hunwinds, harrived, hheld, -, -⟩ | hstops
      · rw [hunwinds.pending, Session.pending, harrived, hkeep, Fifo.push_keep, hheld,
          append_assoc, singleton_append]
      · rw [Session.pending, hstops.arrived, hstops.held]
    rw [hpending, hkeep, Fifo.push_keep, Session.pending, append_assoc, append_cancel_left_eq]
    exact cons_eq_concat_iff

/-- What holds along a run that meets the condition. -/
structure Inv (cfg : Config) (s : Session α × List (Note α))
    (ops : List (QueueOp (Content α))) : Prop where
  given : givens s.2 = (cfg.ideal ops).given
  queue : s.1.pending = (cfg.ideal ops).queue
  direct : cfg.direct = true → held s.1.waits = []
  stopped : s.1.flowStopped = true → cfg.highWater ≠ 0
  flowing : Flowing cfg s.1

theorem Flowing.mono {s' : Session α} (h : Flowing cfg s) (ht : s'.told = s.told)
    (hl : s.arrived.length ≤ s'.arrived.length) : Flowing cfg s' := by
  intro htold
  obtain ⟨hlow, hpos⟩ := h (ht.symm.trans htold)
  exact ⟨by omega, by omega⟩

theorem ideal_concat (cfg : Config) (ops : List (QueueOp (Content α))) (op : QueueOp (Content α)) :
    cfg.ideal (ops ++ [op]) = Fifo.op cfg.policy cfg.capacity (cfg.ideal ops) op :=
  Fifo.after_concat ops op

namespace Inv

theorem unwinds (h : Inv cfg (s, log) ops) (hr : Unwinds s r) : Inv cfg (r.1, log ++ r.2) ops where
  given := by
    rw [givens_append, hr.quiet, append_nil]
    exact h.given
  queue := hr.pending.trans h.queue
  direct := fun hd => hr.released (h.direct hd)
  stopped := fun hf => h.stopped (hr.flowStopped.symm.trans hf)
  flowing := h.flowing.mono hr.told hr.longer

theorem arrives (h : Inv cfg (s, log) ops) (hwater : cfg.lowWater < cfg.highWater)
    (hmeets : ∀ other ∈ held s.waits, content = other)
    (hr : Admits cfg s content r ∨ Stops cfg s content r) :
    Inv cfg (r.1, log ++ r.2) (ops ++ [.put content]) := by
  have hqueue := (pending_iff h.direct hr).mpr hmeets
  rw [h.queue] at hqueue
  have hideal := ideal_concat cfg ops (.put content)
  have hquiet : givens r.2 = [] := by
    rcases hr with ⟨s1, hunwinds, -⟩ | hstops
    · exact hunwinds.quiet
    · exact hstops.quiet
  have hgiven : givens (log ++ r.2) = (cfg.ideal ops).given := by
    rw [givens_append, hquiet, append_nil]
    exact h.given
  refine ⟨hgiven.trans (congrArg Fifo.given hideal).symm,
    hqueue.trans (congrArg Fifo.queue hideal).symm, ?_, ?_, ?_⟩
  · intro hd
    rcases hr with ⟨s1, hunwinds, -, hheld, -, -⟩ | hstops
    · exact hunwinds.released (hheld.trans (h.direct hd))
    · rw [hstops.direct] at hd
      cases hd
  · intro hf
    rcases hr with ⟨s1, hunwinds, -, -, -, hstopped⟩ | hstops
    · exact (hstopped (hunwinds.flowStopped.symm.trans hf)).elim h.stopped id
    · exact hstops.mark
  · rcases hr with ⟨s1, hunwinds, harrived, -, htold, -⟩ | hstops
    · refine h.flowing.mono (hunwinds.told.trans htold) (Nat.le_trans ?_ hunwinds.longer)
      rw [harrived]
      exact Fifo.length_le_push s.arrived content
    · -- the list is at the high-water mark
      intro _
      have hfull := hstops.full
      have hmark := hstops.mark
      rw [hstops.arrived]
      exact ⟨by omega, by omega⟩

theorem flow (h : Inv cfg (s, log) ops) {active : Bool} (hmeets : Meets cfg s (.channelFlow active))
    (hr : Unwinds s ({ r.1 with told := s.told }, r.2))
    (ht : r.1.told = if s.alive then !active else s.told) (ha : r.1.arrived = s.arrived) :
    Inv cfg (r.1, log ++ r.2) ops := by
  have hinv := h.unwinds hr
  refine ⟨hinv.given, hinv.queue, hinv.direct, hinv.stopped, ?_⟩
  intro htold
  rw [ha]
  rw [ht] at htold
  by_cases halive : s.alive = true
  · rw [if_pos halive, Bool.not_eq_true'] at htold
    exact hmeets htold halive
  · rw [if_neg halive] at htold
    exact h.flowing htold

theorem reads (h : Inv cfg (s, log) ops) (hw : s.waits = [])
    (hmeets : Meets cfg s .basicArrived) (hr : Reads cfg s r) :
    Inv cfg (r.1, log ++ r.2) (ops ++ [.take]) := by
  have hideal := ideal_concat cfg ops .take
  have hnil : held s.waits = [] := congrArg held hw
  have hqueue : s.arrived = (cfg.ideal ops).queue := by
    rw [← h.queue, Session.pending, hnil, append_nil]
  have hpending : r.1.pending = s.arrived.tail := by
    rw [Session.pending, hr.arrived, hr.held, hnil, append_nil]
  have hgiven : givens (log ++ r.2) =
      (cfg.ideal ops).given ++ (cfg.ideal ops).queue.head?.toList := by
    rw [givens_append, hr.given, ← hqueue]
    exact congrArg (· ++ _) h.given
  refine ⟨hgiven.trans (congrArg Fifo.given hideal).symm, ?_, fun _ => hr.held.trans hnil,
    fun hf => h.stopped (hr.stopped hf), ?_⟩
  · rw [hpending, hqueue]
    exact (congrArg Fifo.queue hideal).symm
  · intro htold
    obtain ⟨hs, hno⟩ := hr.told.mp htold
    have hflowing : Flowing cfg s := h.flowing
    obtain ⟨hlow, hpos⟩ := hflowing hs
    obtain ⟨hrestart, hlast⟩ := hmeets hs
    -- the read does not come down to low water, as the flow is not restarted
    have hne : (s.arrived.length : Int) ≠ cfg.lowWater + 1 := by
      intro heq
      obtain ⟨hf, halive⟩ := hrestart heq
      refine hno ⟨⟨h.stopped hf, ?_, hf⟩, halive⟩
      rw [length_tail]
      omega
    rw [hr.arrived, length_tail]
    by_cases hone : s.arrived.length = 1
    · have := hlast hone
      omega
    · omega

end Inv

/-- A step keeps the account of the window, if the event meets the condition. -/
theorem step_inv (hwater : cfg.lowWater < cfg.highWater) (h : Inv cfg (s, log) ops)
    (hmeets : Meets cfg s event) (hstep : s.step cfg event = some r) :
    Inv cfg (r.1, log ++ r.2) (ops ++ event.op?.toList) := by
  cases step_effect hstep with
  | quiet hop _ hr =>
    rw [hop, toList_none, append_nil]
    exact h.unwinds hr
  | arrives content hop hiff hr =>
    rw [hop]
    exact h.arrives hwater (hiff.mp hmeets) hr
  | flow active hr ht ha =>
    rw [Event.op?, toList_none, append_nil]
    exact h.flow hmeets hr ht ha
  | reads hw hr => exact h.reads hw hmeets hr

/-- The high-water mark of a policy that is to bound the list is not negative. -/
def Config.Marked (cfg : Config) : Prop := cfg.Bounded → 0 < cfg.highWater

theorem policy_ne_keep (h : cfg.Bounded) (hmark : cfg.Marked) : cfg.policy ≠ .keep := by
  rw [Config.policy, if_pos ⟨h.1, hmark h⟩]
  obtain ⟨-, -, htrim | hdrop⟩ := h
  · rw [if_pos htrim]
    nofun
  · split
    · nofun
    · nofun

theorem policy_keep (h : ¬ cfg.Bounded) : cfg.policy = .keep := by
  unfold Config.policy
  split
  · next hdirect =>
    rw [Config.Bounded, not_and, not_and, not_or] at h
    obtain ⟨htrim, hdrop⟩ := h hdirect.1 (by omega)
    rw [if_neg htrim, if_neg hdrop]
  · rfl

theorem Inv.serves {p : Session α × List (Note α)} (hmark : cfg.Marked) (h : Inv cfg p ops) :
    Serves cfg p ops where
  given := h.given
  queue := h.queue
  ordered := by
    rw [h.given, h.queue]
    exact Fifo.given_sublist ops
  kept := by
    intro hbounded
    rw [h.given, h.queue, Config.ideal, policy_keep hbounded]
    exact Fifo.given_eq_puts ops
  bounded := by
    intro hbounded
    have hpos := hmark hbounded
    have hqueue := h.queue
    rw [Session.pending, h.direct hbounded.1, append_nil] at hqueue
    have hle := @Fifo.length_queue_le (Content α) cfg.policy cfg.capacity
      (policy_ne_keep hbounded hmark) (by unfold Config.capacity; omega) ops
    rw [hqueue]
    unfold Config.ideal Config.capacity at *
    omega
  flowing := h.flowing

theorem meets_of_serves (h : Inv cfg (s, log) ops) (hstep : s.step cfg event = some r)
    (hr : Serves cfg (r.1, log ++ r.2) (ops ++ event.op?.toList)) : Meets cfg s event := by
  have hflowing : Flowing cfg s := h.flowing
  cases step_effect hstep with
  | quiet _ hmeets _ => exact hmeets
  | arrives content hop hiff heffect =>
    refine hiff.mpr ((pending_iff h.direct heffect).mp ?_)
    have hqueue := hr.queue
    rw [hop, toList_some, ideal_concat] at hqueue
    rw [hqueue, h.queue]
    rfl
  | flow active _ ht ha =>
    intro hactive halive
    have htold : r.1.told = true := by
      rw [ht, if_pos halive, hactive]
      rfl
    rw [← ha]
    exact hr.flowing htold
  | reads hw hreads =>
    intro htold
    have hkeeps : ¬ (Restarts cfg s ∧ s.alive = true) →
        cfg.lowWater < s.arrived.tail.length ∧ 0 < s.arrived.tail.length := by
      intro hno
      rw [← hreads.arrived]
      exact hr.flowing (hreads.told.mpr ⟨htold, hno⟩)
    rw [length_tail] at hkeeps
    obtain ⟨hlow, hpos⟩ := hflowing htold
    constructor
    · intro hmark
      by_contra hno
      have := hkeeps fun hrestarts => hno ⟨hrestarts.1.2.2, hrestarts.2⟩
      omega
    · intro hlast
      by_contra hneg
      have := hkeeps fun hrestarts => by
        have hzero := hrestarts.1.2.1
        omega
      omega

end Step

/-! ## Runs -/

theorem foldl_op (ops : List (QueueOp (Content α))) (events : List (Event α)) :
    events.foldl (fun ops event => ops ++ event.op?.toList) ops = ops ++ history events := by
  induction events generalizing ops with
  | nil => exact (append_nil ops).symm
  | cons event events ih =>
    rw [foldl_cons, ih, append_assoc, history, history, filterMap_cons]
    cases event.op? <;> rfl

theorem serves_iff_along {cfg : Config} (hwater : cfg.lowWater < cfg.highWater)
    (hmark : cfg.Marked) {events : List (Event α)}
    (hrun : (Session.outcome cfg events).isSome = true) :
    (∀ before, before <+: events → ∃ s, Session.outcome cfg before = some s ∧
      Serves cfg s (history before)) ↔
    Along (logged (Session.step cfg)) (fun s event => Meets cfg s.1 event)
      (Session.new, []) events := by
  have hinv : Inv cfg ((Session.new : Session α), []) [] := ⟨rfl, rfl, fun _ => rfl, nofun, nofun⟩
  have hiff := @run_prefixes_iff_of_legal (Session α × List (Note α))
    (List (QueueOp (Content α))) (Event α) (logged (Session.step cfg))
    (fun s event => Meets cfg s.1 event) (Inv cfg) (Serves cfg)
    (fun s event => (logged (Session.step cfg) s event).isSome = true)
    (fun ops event => ops ++ event.op?.toList) (fun _ _ => Inv.serves hmark) ?_ ?_ events
    (Session.new, []) [] hinv (along_of_isSome hrun)
  · simp only [foldl_op, nil_append] at hiff
    exact hiff
  · rintro ⟨s, log⟩ ops event hinv hlegal hmeets
    obtain ⟨p, hp⟩ := isSome_iff_exists.mp hlegal
    obtain ⟨r, hstep, rfl⟩ := map_eq_some_iff.mp hp
    exact ⟨_, hp, step_inv hwater hinv hmeets hstep⟩
  · rintro ⟨s, log⟩ ops event p hinv - hp hserves
    obtain ⟨r, hstep, rfl⟩ := map_eq_some_iff.mp hp
    exact meets_of_serves hinv hstep hserves

/--
With the low-water mark below the high-water mark, a session serves its reader along a run
exactly when nothing arrives while another content is held, the application does not stop the
flow at the low-water mark or read down to it while the flow cannot be restarted, and a mark
that bounds the list is not negative.
-/
theorem flow_control (cfg : Config) (hwater : cfg.lowWater < cfg.highWater)
    (events : List (Event α)) (hrun : (Session.outcome cfg events).isSome = true) :
    (∀ before, before <+: events → ∃ s, Session.outcome cfg before = some s ∧
      Serves cfg s (history before)) ↔
    cfg.Marked ∧ Along (logged (Session.step cfg)) (fun s event => Meets cfg s.1 event)
      (Session.new, []) events := by
  constructor
  · intro hserves
    have hmark : cfg.Marked := by
      intro hbounded
      obtain ⟨s, hs, hfirst⟩ := hserves [] nil_prefix
      cases hs
      have hle : (0 : Int) ≤ cfg.highWater := hfirst.bounded hbounded
      have hne := hbounded.2.1
      omega
    exact ⟨hmark, (serves_iff_along hwater hmark hrun).mp hserves⟩
  · rintro ⟨hmark, halong⟩
    exact (serves_iff_along hwater hmark hrun).mpr halong

/-! ## A content that is overtaken -/

instance [DecidableEq α] (cfg : Config) (s : Session α) : (event : Event α) →
    Decidable (Meets cfg s event)
  | .reply reply _ =>
    inferInstanceAs (Decidable (∀ content ∈ reply.content?, ∀ other ∈ held s.waits,
      content = other))
  | .channelFlow active =>
    inferInstanceAs (Decidable (active = false → s.alive = true →
      cfg.lowWater < s.arrived.length ∧ 0 < s.arrived.length))
  | .basicArrived =>
    inferInstanceAs (Decidable (s.told = true →
      ((s.arrived.length : Int) = cfg.lowWater + 1 → s.flowStopped = true ∧ s.alive = true) ∧
      (s.arrived.length = 1 → 0 ≤ cfg.lowWater)))
  | .timeout _ | .dies | .call _ | .wait | .basicReturned => isTrue trivial

/-- A connection to the server on which the flow stops at two contents. -/
def twoContents : Config := ⟨2, 1, "trim".toList, false⟩

def numbered (message : Nat) : Content Nat := ⟨.empty, .empty, .empty, 0, false, message⟩

def deliver (message : Nat) : Event Nat :=
  .reply (.method (some ⟨false, .arrived (numbered message) [] [] none 0⟩)) 0

/-- The reply to `channel.flow`. -/
def flowOk : Event Nat := .reply (.method (some ⟨true, .other⟩)) 0

/--
The third content stops the flow, and the fourth was on its way. It is the third that the
application gets, and the third the fourth.
-/
theorem stop_overtaken : twoContents.lowWater < twoContents.highWater ∧
      (Session.outcome twoContents [.call false, deliver 1, deliver 2, deliver 3, deliver 4,
        flowOk, .reply .intern 0, .basicArrived, .basicArrived, .basicArrived, flowOk,
        .basicArrived]).map (fun s => (givens s.2).map Content.message) = some [1, 2, 4, 3] := by
  decide +kernel

/-- The flow is stopped at the third content, and restarted with the second read. -/
theorem flow_control_sample :
    ∃ s, Session.outcome twoContents [.call false, deliver 1, deliver 2, deliver 3, flowOk,
        .reply .intern 0, .basicArrived, .basicArrived, flowOk] = some s ∧
      Serves twoContents s (history [.call false, deliver 1, deliver 2, deliver 3, flowOk,
        .reply .intern 0, .basicArrived, .basicArrived, flowOk]) := by
  have hmark : twoContents.Marked := fun hbounded => by cases hbounded.1
  exact (flow_control twoContents (by decide) _ (by decide +kernel)).mpr
    ⟨hmark, by decide +kernel⟩ _ (prefix_refl _)

end OpenAmq.Client
