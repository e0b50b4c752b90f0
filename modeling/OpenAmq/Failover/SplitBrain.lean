import OpenAmq.Failover.Model

/-!
# Split brain

Two brokers of a pair are never both open for applications, as long as the primary one comes
back only to a backup that is not active. Three things can go wrong, since a pending primary
accepts connections, and since a state may be told when it is no longer true.

* `Cluster.Guarded` — the events that do no harm
* `Cluster.Settled` — what holds between them
* `Cluster.safe_iff_guarded` — the pair is safe in exactly the runs of such events
-/

namespace OpenAmq

open HaState Failover List

/-! ## What one broker does -/

namespace Failover

variable {f : Failover} {n now : Int} {group : ConnectionGroup}

@[simp] theorem peerEvent_pending : peerEvent pending.code = some .peerPending := rfl

@[simp] theorem peerEvent_active : peerEvent active.code = some .peerActive := rfl

@[simp] theorem peerEvent_passive : peerEvent passive.code = some .peerPassive := rfl

@[simp] theorem contentHandler_pending : f.contentHandler pending.code now = some { f with
        lastPeerTime := now
        state := if f.state = .pending ∧ f.primary = false then .pending else .active } := by
  cases hs : f.state <;> cases hp : f.primary <;>
    simp [contentHandler, execute, hs, hp]

@[simp] theorem contentHandler_active : f.contentHandler active.code now =
      if f.state = .active then none
      else some { f with lastPeerTime := now, state := .passive } := by
  cases hs : f.state <;> simp [contentHandler, execute, hs]

@[simp] theorem contentHandler_passive : f.contentHandler passive.code now =
      if f.state = .passive then none else some { f with lastPeerTime := now } := by
  cases hs : f.state <;> simp [contentHandler, execute, hs]

theorem connect_changes (f : Failover) (group : ConnectionGroup) (now : Int) :
    ∃ f' accepted, f.connect group now = some (f', accepted) ∧ f'.primary = f.primary ∧
      (f'.state = f.state ∨ f.state = .passive ∧ f.PeerSilent now ∧ f'.state = .active) := by
  cases group with
  | super => exact ⟨f, true, rfl, rfl, Or.inl rfl⟩
  | normal =>
    cases hs : f.state with
    | pending => exact ⟨f, f.primary, by simp [connect, execute, hs], rfl, Or.inl hs⟩
    | active => exact ⟨f, true, by simp [connect, execute, hs], rfl, Or.inl hs⟩
    | passive =>
      by_cases hsilent : f.PeerSilent now
      · exact ⟨{ f with state := .active }, true, by simp [connect, execute, hs, hsilent], rfl,
          Or.inr ⟨rfl, hsilent, rfl⟩⟩
      · exact ⟨f, false, by simp [connect, execute, hs, hsilent], rfl, Or.inl hs⟩

end Failover

namespace Cluster

variable {c : Cluster} {role : Role} {broker : HaBroker}

@[simp] theorem set_self : c.set role broker role = broker := by
  simp [set]

@[simp] theorem set_primary_backup : c.set .primary broker .backup = c .backup := by
  simp [set]

@[simp] theorem set_backup_primary : c.set .backup broker .primary = c .primary := by
  simp [set]

theorem accepts_iff : c.Accepts role ↔ (c role).up = true ∧
        ((c role).failover.state = .pending ∧ (c role).failover.primary = true ∨
          (c role).failover.state = .active ∨
          (c role).failover.state = .passive ∧ (c role.peer).up = false) := by
  refine and_congr_right fun _ => ?_
  set f := (c role).failover with hf
  constructor
  · rintro ⟨now, f', htimely, hconnect⟩
    cases hs : f.state with
    | pending =>
      simp only [connect, execute, hs, Option.some.injEq, Prod.mk.injEq] at hconnect
      exact Or.inl ⟨rfl, hconnect.2⟩
    | active => exact Or.inr (Or.inl rfl)
    | passive =>
      simp only [connect, execute, hs] at hconnect
      by_cases hsilent : f.PeerSilent now
      · exact Or.inr (Or.inr ⟨rfl, htimely hsilent⟩)
      · simp [hsilent] at hconnect
  · have hheard : ¬ f.PeerSilent (f.lastPeerTime + f.timeout) := by
      unfold Failover.PeerSilent
      omega
    rintro (⟨hs, hp⟩ | hs | ⟨hs, hdown⟩)
    · refine ⟨f.lastPeerTime + f.timeout, f, fun h => absurd h hheard, ?_⟩
      simp [connect, execute, hs, hp]
    · refine ⟨f.lastPeerTime + f.timeout, f, fun h => absurd h hheard, ?_⟩
      simp [connect, execute, hs]
    · have hsilent : f.PeerSilent (f.lastPeerTime + f.timeout + 1) := by
        unfold Failover.PeerSilent
        omega
      refine ⟨f.lastPeerTime + f.timeout + 1, { f with state := .active }, fun _ => hdown, ?_⟩
      simp [connect, execute, hs, hsilent]

/-! ## Events that do no harm -/

/--
The primary does not come back to an active backup, a passive backup does not hear that a running
primary is pending, and an active one does not hear that the primary is active.
-/
def Guarded (c : Cluster) : ClusterEvent → Prop
  | .start .primary => (c .backup).up = true → (c .backup).failover.state ≠ .active
  | .deliver .backup _ =>
    (c .backup).up = true → ∀ n ∈ (c .backup).inbox.head?,
      (n = pending.code → (c .backup).failover.state = .passive → (c .primary).up = false) ∧
      (n = active.code → (c .backup).failover.state ≠ .active)
  | _ => True

instance (c : Cluster) : (e : ClusterEvent) → Decidable (c.Guarded e)
  | .start .primary => inferInstanceAs (Decidable (_ → _))
  | .deliver .backup _ =>
    inferInstanceAs (Decidable ((c .backup).up = true → ∀ n ∈ (c .backup).inbox.head?,
      (n = pending.code → (c .backup).failover.state = .passive → (c .primary).up = false) ∧
      (n = active.code → (c .backup).failover.state ≠ .active)))
  | .start .backup | .deliver .primary _ | .monitor _ | .connect _ _ _ | .stop _ => isTrue trivial

/-- No broker aborts, and not both of them let applications in afterwards. -/
def Safe (c : Cluster) (e : ClusterEvent) : Prop :=
  ∃ c', c.step e = some c' ∧ ¬ c'.SplitBrain

/-- What holds between the events. -/
structure Settled (c : Cluster) : Prop where
  role (role : Role) : (c role).failover.primary = decide (role = .primary)
  notPassive : (c .primary).failover.state ≠ .passive
  toPrimary : ∀ n ∈ (c .primary).inbox, n = pending.code ∨ n = passive.code
  toBackup : ∀ n ∈ (c .backup).inbox, n = pending.code ∨ n = active.code
  alone : (c .primary).up = true → (c .backup).up = true → (c .backup).failover.state ≠ .active

theorem initial_settled (timeout : Role → Int) : (initial timeout).Settled where
  role _ := rfl
  notPassive := by simp [initial, new]
  toPrimary := by simp [initial]
  toBackup := by simp [initial]
  alone := by simp [initial, new]

theorem splitBrain_iff (hrole : ∀ role, (c role).failover.primary = decide (role = .primary))
    (hp : (c .primary).failover.state ≠ .passive) :
    c.SplitBrain ↔ (c .primary).up = true ∧ (c .backup).up = true ∧
        (c .backup).failover.state = .active := by
  have hprimary := hrole .primary
  have hbackup := hrole .backup
  constructor
  · intro h
    have h1 := accepts_iff.mp (h .primary)
    have h2 := accepts_iff.mp (h .backup)
    simp only [Role.peer, hbackup, h1.1] at h2
    simpa [h1.1] using h2
  · rintro ⟨hup, hup', hs⟩ role
    rw [accepts_iff]
    cases role with
    | primary =>
      refine ⟨hup, ?_⟩
      cases hs' : (c .primary).failover.state with
      | pending => exact Or.inl ⟨rfl, hprimary⟩
      | active => exact Or.inr (Or.inl rfl)
      | passive => exact absurd hs' hp
    | backup => exact ⟨hup', Or.inr (Or.inl hs)⟩

theorem Settled.not_splitBrain (h : c.Settled) : ¬ c.SplitBrain := by
  rw [splitBrain_iff h.role h.notPassive]
  exact fun ⟨hup, hup', hs⟩ => h.alone hup hup' hs

/-! ## One event -/

theorem Settled.set_primary (h : c.Settled) (hrole : broker.failover.primary = true)
    (hs : broker.failover.state ≠ .passive)
    (hinbox : ∀ n ∈ broker.inbox, n = pending.code ∨ n = passive.code)
    (halone : broker.up = true → (c .backup).up = true → (c .backup).failover.state ≠ .active) :
    (c.set .primary broker).Settled where
  role
    | .primary => by simpa using hrole
    | .backup => by simpa using h.role .backup
  notPassive := by simpa using hs
  toPrimary := by simpa using hinbox
  toBackup := by simpa using h.toBackup
  alone := by simpa using halone

theorem Settled.set_backup (h : c.Settled) (hrole : broker.failover.primary = false)
    (hinbox : ∀ n ∈ broker.inbox, n = pending.code ∨ n = active.code)
    (halone : (c .primary).up = true → broker.up = true → broker.failover.state ≠ .active) :
    (c.set .backup broker).Settled where
  role
    | .primary => by simpa using h.role .primary
    | .backup => by simpa using hrole
  notPassive := by simpa using h.notPassive
  toPrimary := by simpa using h.toPrimary
  toBackup := by simpa using hinbox
  alone := by simpa using halone

theorem Settled.monitor (h : c.Settled) (role : Role) :
    ∃ c', c.step (.monitor role) = some c' ∧ c'.Settled := by
  by_cases hup : (c role).up = true ∧ (c role.peer).up = true
  · refine ⟨_, if_pos hup, ?_⟩
    cases role with
    | primary =>
      refine h.set_backup (h.role .backup) ?_ fun hp hb => h.alone hp hb
      intro n hn
      rcases mem_append.mp hn with hn | hn
      · exact h.toBackup n hn
      · have hs := h.notPassive
        rw [mem_singleton.mp hn, sendState]
        cases hstate : (c .primary).failover.state with
        | pending => exact Or.inl rfl
        | active => exact Or.inr rfl
        | passive => exact absurd hstate hs
    | backup =>
      refine h.set_primary (h.role .primary) h.notPassive ?_ h.alone
      intro n hn
      rcases mem_append.mp hn with hn | hn
      · exact h.toPrimary n hn
      · have hs := h.alone hup.2 hup.1
        rw [mem_singleton.mp hn, sendState]
        cases hstate : (c .backup).failover.state with
        | pending => exact Or.inl rfl
        | active => exact absurd hstate hs
        | passive => exact Or.inr rfl
  · exact ⟨c, if_neg hup, h⟩

variable {inbox : List Int} {e : ClusterEvent}

/-- A state that arrives at a server that is up is handled there. -/
theorem step_deliver {n now : Int} (hup : (c role).up = true)
    (hinbox : (c role).inbox = n :: inbox) :
    c.step (.deliver role now) = ((c role).failover.contentHandler n now).map fun failover =>
      c.set role { c role with failover, inbox } := by
  simp [step, hup, hinbox]

variable {now : Int}

/-- Nothing is delivered to a server that is down, or that has no state to read. -/
theorem step_deliver_idle (h : ¬ ((c role).up = true ∧ (c role).inbox ≠ [])) :
    c.step (.deliver role now) = some c := by
  rw [not_and, not_not] at h
  cases hup : (c role).up with
  | false => simp [step, hup]
  | true => simp [step, hup, h hup]

theorem Settled.deliver_primary (h : c.Settled) (now : Int) :
    ∃ c', c.step (.deliver .primary now) = some c' ∧ c'.Settled := by
  by_cases hup : (c .primary).up = true ∧ (c .primary).inbox ≠ []
  · obtain ⟨n, inbox, hinbox⟩ := exists_cons_of_ne_nil hup.2
    have hrest : ∀ m ∈ inbox, m = pending.code ∨ m = passive.code := fun m hm =>
      h.toPrimary m (hinbox ▸ mem_cons_of_mem n hm)
    have hrole := h.role .primary
    rw [step_deliver hup.1 hinbox]
    rcases h.toPrimary n (hinbox ▸ mem_cons_self) with rfl | rfl
    · rw [contentHandler_pending]
      refine ⟨_, rfl, h.set_primary hrole ?_ hrest h.alone⟩
      simp [hrole]
    · rw [contentHandler_passive, if_neg h.notPassive]
      exact ⟨_, rfl, h.set_primary hrole h.notPassive hrest h.alone⟩
  · exact ⟨c, step_deliver_idle hup, h⟩

theorem Settled.deliver_backup (h : c.Settled)
    (hguard : c.Guarded (.deliver .backup now)) :
    ∃ c', c.step (.deliver .backup now) = some c' ∧ c'.Settled := by
  by_cases hup : (c .backup).up = true ∧ (c .backup).inbox ≠ []
  · obtain ⟨n, inbox, hinbox⟩ := exists_cons_of_ne_nil hup.2
    have hrest : ∀ m ∈ inbox, m = pending.code ∨ m = active.code := fun m hm =>
      h.toBackup m (hinbox ▸ mem_cons_of_mem n hm)
    have hrole := h.role .backup
    have hn := hguard hup.1 n (by rw [hinbox]; rfl)
    rw [step_deliver hup.1 hinbox]
    rcases h.toBackup n (hinbox ▸ mem_cons_self) with rfl | rfl
    · rw [contentHandler_pending]
      refine ⟨_, rfl, h.set_backup hrole hrest fun hp _ => ?_⟩
      -- with the primary running the backup is neither active nor passive
      cases hs : (c .backup).failover.state with
      | pending => simp [hrole]
      | active => exact absurd hs (h.alone hp hup.1)
      | passive => simp [hn.1 rfl hs] at hp
    · rw [contentHandler_active, if_neg (hn.2 rfl)]
      exact ⟨_, rfl, h.set_backup hrole hrest fun _ _ => by simp⟩
  · exact ⟨c, step_deliver_idle hup, h⟩

theorem Settled.connect {group : ConnectionGroup} (h : c.Settled)
    (htimely : c.Timely (.connect role group now)) :
    ∃ c', c.step (.connect role group now) = some c' ∧ c'.Settled := by
  by_cases hup : (c role).up = true
  · obtain ⟨f', accepted, hconnect, hrole, hstate⟩ := connect_changes (c role).failover group now
    refine ⟨c.set role { c role with failover := f' }, ?_, ?_⟩
    · simp [step, hup, hconnect]
    · rw [h.role role] at hrole
      cases role with
      | primary =>
        refine h.set_primary hrole ?_ h.toPrimary h.alone
        rcases hstate with hs | ⟨hs, -, -⟩
        · exact hs ▸ h.notPassive
        · exact absurd hs h.notPassive
      | backup =>
        refine h.set_backup hrole h.toBackup fun hp hb => ?_
        rcases hstate with hs | ⟨-, hsilent, -⟩
        · exact hs ▸ h.alone hp hb
        · exact absurd hp (by simp [show (c .primary).up = false from htimely hsilent])
  · exact ⟨c, if_neg hup, h⟩

theorem Settled.stop (h : c.Settled) (role : Role) :
    ∃ c', c.step (.stop role) = some c' ∧ c'.Settled := by
  refine ⟨_, rfl, ?_⟩
  cases role with
  | primary => exact h.set_primary (h.role .primary) h.notPassive (by simp) (by simp)
  | backup => exact h.set_backup (h.role .backup) (by simp) (by simp)

theorem Settled.start (h : c.Settled) (hguard : c.Guarded (.start role)) :
    ∃ c', c.step (.start role) = some c' ∧ c'.Settled := by
  by_cases hup : (c role).up = true
  · exact ⟨c, if_pos hup, h⟩
  · refine ⟨_, if_neg hup, ?_⟩
    cases role with
    | primary =>
      exact h.set_primary (h.role .primary) (by simp [new]) (by simp) fun _ => hguard
    | backup =>
      exact h.set_backup (h.role .backup) (by simp) fun _ _ => by simp [new]

/-- A timely event that is guarded keeps the two servers settled. -/
theorem Settled.step (h : c.Settled) (htimely : c.Timely e) (hguard : c.Guarded e) :
    ∃ c', c.step e = some c' ∧ c'.Settled :=
  match e with
  | .monitor role => h.monitor role
  | .deliver .primary now => h.deliver_primary now
  | .deliver .backup _ => h.deliver_backup hguard
  | .connect _ _ _ => h.connect htimely
  | .stop role => h.stop role
  | .start _ => h.start hguard

/-! ## Events that do harm -/

theorem Settled.not_safe_start (h : c.Settled) (hup : (c .backup).up = true)
    (hs : (c .backup).failover.state = .active) : ¬ c.Safe (.start .primary) := by
  rintro ⟨c', hstep, hsplit⟩
  have hdown : ¬ (c .primary).up = true := fun hp => h.alone hp hup hs
  obtain rfl := Option.some.inj ((if_neg hdown).symm.trans hstep)
  refine hsplit ((splitBrain_iff ?_ ?_).mpr ?_)
  · rintro (_ | _)
    · simpa [new] using h.role .primary
    · simpa using h.role .backup
  · simp [new]
  · simp [hup, hs]

theorem Settled.not_safe_pending (h : c.Settled) (hup : (c .backup).up = true)
    (hinbox : (c .backup).inbox = pending.code :: inbox)
    (hs : (c .backup).failover.state = .passive) (hp : (c .primary).up = true) :
    ¬ c.Safe (.deliver .backup now) := by
  rintro ⟨c', hstep, hsplit⟩
  rw [step_deliver hup hinbox, contentHandler_pending] at hstep
  cases hstep
  refine hsplit ((splitBrain_iff ?_ ?_).mpr ?_)
  · rintro (_ | _)
    · simpa using h.role .primary
    · simpa using h.role .backup
  · simpa using h.notPassive
  · simp [hup, hs, hp]

theorem not_safe_active (hup : (c .backup).up = true)
    (hinbox : (c .backup).inbox = active.code :: inbox)
    (hs : (c .backup).failover.state = .active) : ¬ c.Safe (.deliver .backup now) := by
  rintro ⟨c', hstep, -⟩
  rw [step_deliver hup hinbox, contentHandler_active, if_pos hs] at hstep
  cases hstep

theorem Settled.not_safe (h : c.Settled) (hguard : ¬ c.Guarded e) : ¬ c.Safe e := by
  match e with
  | .start .primary =>
    simp only [Guarded, ne_eq, Classical.not_imp, not_not] at hguard
    exact h.not_safe_start hguard.1 hguard.2
  | .deliver .backup now =>
    simp only [Guarded, Classical.not_imp, not_forall] at hguard
    obtain ⟨hup, n, hn, hguard⟩ := hguard
    obtain ⟨inbox, hinbox⟩ := head?_eq_some_iff.mp hn
    by_cases hactive : n = active.code ∧ (c .backup).failover.state = .active
    · obtain ⟨rfl, hs⟩ := hactive
      exact not_safe_active hup hinbox hs
    · rw [not_and] at hactive
      simp only [not_and_or, Classical.not_imp, ne_eq, not_not] at hguard
      obtain ⟨rfl, hs, hp⟩ | ⟨hn, hs⟩ := hguard
      · exact h.not_safe_pending hup hinbox hs (by simpa using hp)
      · exact absurd hs (hactive hn)
  | .start .backup | .deliver .primary _ | .monitor _ | .connect _ _ _ | .stop _ =>
    exact absurd trivial hguard

theorem Settled.safe_iff (h : c.Settled) (htimely : c.Timely e) : c.Safe e ↔ c.Guarded e := by
  constructor
  · intro hsafe
    by_contra hguard
    exact h.not_safe hguard hsafe
  · intro hguard
    obtain ⟨c', hstep, h'⟩ := h.step htimely hguard
    exact ⟨c', hstep, h'.not_splitBrain⟩

/-! ## Whole runs -/

/--
In every order of events, with any delay of what the brokers tell each other, the pair stays
clear of split brain and of failed assertions if and only if all events are guarded.
-/
theorem safe_iff_guarded {timeout : Role → Int} {es : List ClusterEvent}
    (htimely : Lib.Along step Timely (initial timeout) es) :
    ¬ (initial timeout).SplitBrain ∧ (Lib.Along step Safe (initial timeout) es ↔
        Lib.Along step Guarded (initial timeout) es) := by
  have h0 := initial_settled timeout
  refine ⟨h0.not_splitBrain, Lib.along_congr (fun _ _ h ht => h.safe_iff ht) ?_ h0 htimely⟩
  intro c e c' h ht hguard hstep
  obtain ⟨c1, hstep1, h1⟩ := h.step ht hguard
  exact Option.some.inj (hstep1.symm.trans hstep) ▸ h1

section Takeover

def connected : List ClusterEvent :=
  [.monitor .backup, .deliver .primary 10, .monitor .primary, .deliver .backup 20]

/-- The primary stops, and an application that comes to the backup makes that active. -/
def takeover : List ClusterEvent :=
  connected ++ [.stop .primary, .connect .backup .normal 100]

theorem safe_takeover : ¬ (initial fun _ => 30).SplitBrain ∧
      (Lib.Along step Safe (initial fun _ => 30)
          (takeover ++ [.stop .backup, .start .primary, .connect .primary .normal 110]) ↔
        Lib.Along step Guarded (initial fun _ => 30)
          (takeover ++ [.stop .backup, .start .primary, .connect .primary .normal 110])) :=
  safe_iff_guarded (by decide +kernel)

/-- The primary comes back after that, and both let applications in. -/
theorem takeover_splitBrain :
    Lib.Along step Timely (initial fun _ => 30) (takeover ++ [.start .primary]) ∧
      ∃ c, Lib.run step (initial fun _ => 30) (takeover ++ [.start .primary]) = some c ∧
        c.SplitBrain := by
  refine ⟨by decide +kernel, _, rfl, ?_⟩
  rintro (_ | _) <;> rw [accepts_iff] <;> decide +kernel

end Takeover

end Cluster

end OpenAmq
