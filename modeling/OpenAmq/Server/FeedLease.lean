import OpenAmq.Server.Lease

/-!
# One lease per queue

A queue should have one lease at most, and a lease one user. A request that is refused for this
reason is worse than one that names nothing: the lease that fails takes the place of the good one
off the queue when it is destroyed, and the thread that comes too late is noted as the user.

* `LeaseServer.Exclusive` — what should hold of queues and leases
* `LeaseServer.Keeps` — an event leaves it so, and a refused one changes nothing
* `LeaseServer.Free` — nobody else has the lease that is asked for
* `LeaseServer.leases_exclusive_iff` — the one is the same as the other over whole runs
-/

namespace OpenAmq

open Function Option List

namespace LeaseServer

variable {cfg : ServerConfig} {s s' : LeaseServer} {out : List LeaseAnswer}

def Feeds (s : LeaseServer) (ref : LeaseRef) (queue : QueueRef) : Prop :=
  (s.leases ref).zombie = false ∧ (s.leases ref).feed = some queue

/-- A queue has at most one live lease, and points to a lease if and only if it has one. -/
def Exclusive (s : LeaseServer) : Prop :=
  ∀ queue, (∀ ref ref', s.Feeds ref queue → s.Feeds ref' queue → ref = ref') ∧
    ((s.queueLease queue).isSome = true ↔ ∃ ref, s.Feeds ref queue)

/-- Leases are exclusive after the event, which has no effect if it is a request in vain. -/
def Keeps (cfg : ServerConfig) (s : LeaseServer) (event : LeaseEvent) : Prop :=
  ∀ s' out, s.step cfg event = some (s', out) →
    s'.Exclusive ∧ (event.isRequest = true → (∀ answer ∈ out, answer.granted = false) → s' = s)

/-- The queue has no lease yet, or the lease no other user. -/
def Free (s : LeaseServer) : LeaseEvent → Prop
  | .directGet channel feed _ =>
    (s.taking channel).isSome = true → ∀ queue ∈ s.server.queueTable feed, s.queueLease queue = none
  | .checkDirectLease thread request =>
    ∀ ref ∈ s.leaseTable request, ∀ user ∈ (s.leases ref).thread, user = thread
  | _ => True

instance (s : LeaseServer) : (event : LeaseEvent) → Decidable (s.Free event)
  | .directGet channel feed _ =>
    inferInstanceAs (Decidable ((s.taking channel).isSome = true →
      ∀ queue ∈ s.server.queueTable feed, s.queueLease queue = none))
  | .checkDirectLease thread request =>
    inferInstanceAs (Decidable (∀ ref ∈ s.leaseTable request,
      ∀ user ∈ (s.leases ref).thread, user = thread))
  | .server _ | .directPut _ _ _ | .destroy _ => isTrue trivial

/-! ## Leases and their table -/

/-- The table has live leases only, under their names. -/
structure Tabled (s : LeaseServer) : Prop where
  live : ∀ name ref, s.leaseTable name = some ref → (s.leases ref).zombie = false
  named : ∀ name ref, s.leaseTable name = some ref → (s.leases ref).name = name
  next : ∀ ref, s.nextLease ≤ ref → (s.leases ref).zombie = true

theorem new_tabled (server : Server) : (new server).Tabled where
  live _ _ h := by cases h
  named _ _ h := by cases h
  next _ _ := rfl

variable {ref : LeaseRef}

theorem Tabled.lt (h : s.Tabled) (hlive : (s.leases ref).zombie = false) :
    ref < s.nextLease := by
  by_contra hle
  have hz := h.next ref (Nat.le_of_not_lt hle)
  rw [hlive] at hz
  cases hz

variable (lease : Lease) {event : LeaseEvent}

@[simp] theorem release_leases : (s.release lease).leases = s.leases := by
  unfold release
  split <;> rfl

@[simp] theorem release_leaseTable : (s.release lease).leaseTable = s.leaseTable := by
  unfold release
  split <;> rfl

@[simp] theorem release_nextLease : (s.release lease).nextLease = s.nextLease := by
  unfold release
  split <;> rfl

theorem Tabled.of_eq (h : s.Tabled) (hl : s'.leases = s.leases)
    (ht : s'.leaseTable = s.leaseTable) (hn : s'.nextLease = s.nextLease) : s'.Tabled where
  live := by
    rw [hl, ht]
    exact h.live
  named := by
    rw [hl, ht]
    exact h.named
  next := by
    rw [hl, hn]
    exact h.next

theorem insert_cases :
    (s.leaseTable lease.name).isSome = true ∧ s.insert lease = (s.release lease, none) ∨
      s.leaseTable lease.name = none ∧ s.insert lease = ({ s with
            leases := update s.leases s.nextLease lease
            leaseTable := update s.leaseTable lease.name (some s.nextLease)
            nextLease := s.nextLease + 1 }, some lease) := by
  by_cases h : (s.leaseTable lease.name).isSome = true
  · exact Or.inl ⟨h, if_pos h⟩
  · exact Or.inr ⟨not_isSome_iff_eq_none.mp h, if_neg h⟩

variable {lease : Lease}

theorem Tabled.insert (h : s.Tabled) (hlive : lease.zombie = false) :
    (s.insert lease).1.Tabled := by
  rcases insert_cases (s := s) lease with ⟨-, heq⟩ | ⟨-, heq⟩
  · rw [heq]
    exact h.of_eq (release_leases lease) (release_leaseTable lease) (release_nextLease lease)
  · rw [heq]
    constructor
    · intro name ref ht
      simp only [update_apply] at ht ⊢
      split at ht
      · rw [if_pos (some.inj ht).symm]
        exact hlive
      · split
        · exact hlive
        · exact h.live name ref ht
    · intro name ref ht
      simp only [update_apply] at ht ⊢
      split at ht
      · next hname => rw [if_pos (some.inj ht).symm, hname]
      · have hlt := h.lt (h.live name ref ht)
        rw [if_neg (Nat.ne_of_lt hlt)]
        exact h.named name ref ht
    · intro ref hle
      have hlt : s.nextLease < ref := hle
      simp only [update_of_ne (Nat.ne_of_gt hlt)]
      exact h.next ref (Nat.le_of_lt hlt)

variable {connection : ConnectionId} {channel : ChannelRef} {timeNow : UInt64}

theorem leaseNew_sink {name : Shortstr} :
    s.leaseNew name .sink connection channel timeNow = (s, none) ∨
      ∃ lease : Lease, lease.feed = none ∧ lease.zombie = false ∧
        s.leaseNew name .sink connection channel timeNow = s.insert lease := by
  unfold leaseNew
  cases s.server.publishExchange name with
  | none => exact Or.inl rfl
  | some sink => exact Or.inr ⟨_, rfl, rfl, rfl⟩

theorem leaseNew_feed (s : LeaseServer) (name : Shortstr) (connection : ConnectionId)
    (channel : ChannelRef) (timeNow : UInt64) :
    s.server.queueTable name = none ∧ s.leaseNew name .feed connection channel timeNow = (s, none) ∨
      ∃ queue, s.server.queueTable name = some queue ∧
        (s.queueLease queue ≠ none ∧ s.leaseNew name .feed connection channel timeNow =
            ({ s with queueLease := update s.queueLease queue none }, none) ∨
          s.queueLease queue = none ∧ ∃ lease : Lease, lease.feed = some queue ∧
            lease.zombie = false ∧ s.leaseNew name .feed connection channel timeNow =
              insert { s with
                queueLease := update s.queueLease queue (some s.nextLease) } lease) := by
  unfold leaseNew
  cases s.server.queueTable name with
  | none => exact Or.inl ⟨rfl, rfl⟩
  | some queue =>
    refine Or.inr ⟨queue, rfl, ?_⟩
    by_cases hfree : s.queueLease queue = none
    · exact Or.inr ⟨hfree, _, rfl, rfl, if_pos hfree⟩
    · exact Or.inl ⟨hfree, if_neg hfree⟩

theorem Tabled.leaseNew (h : s.Tabled) (name : Shortstr) (type : LeaseType)
    (connection : ConnectionId) (channel : ChannelRef) (timeNow : UInt64) :
    (s.leaseNew name type connection channel timeNow).1.Tabled := by
  cases type with
  | sink =>
    rcases leaseNew_sink (s := s) with heq | ⟨lease, -, hlive, heq⟩
    · rw [heq]
      exact h
    · rw [heq]
      exact h.insert hlive
  | feed =>
    rcases leaseNew_feed s name connection channel timeNow with
      ⟨-, heq⟩ | ⟨queue, -, ⟨-, heq⟩ | ⟨-, lease, -, hlive, heq⟩⟩
    · rw [heq]
      exact h
    · rw [heq]
      exact h.of_eq rfl rfl rfl
    · rw [heq]
      refine Tabled.insert (h.of_eq ?_ ?_ ?_) hlive <;> rfl

theorem directPut_fst {sink : Shortstr} :
    (s.directPut connection channel sink timeNow).1 =
      (s.leaseNew sink .sink connection channel timeNow).1 := by
  unfold directPut
  split <;> simp_all

theorem directGet_fst {feed : Shortstr} :
    (s.directGet connection channel feed timeNow).1 =
      (s.leaseNew feed .feed connection channel timeNow).1 := by
  unfold directGet
  split <;> simp_all

theorem checkDirectLease_cases (h : s.Tabled) (thread : ThreadRef) (request : Shortstr) :
    s.leaseTable request = none ∧
        (∃ response, s.checkDirectLease thread request = (s, [.badLease thread response])) ∨
      ∃ ref, s.leaseTable request = some ref ∧ (s.leases ref).zombie = false ∧
        (((s.leases ref).thread.isSome = true ∧ ∃ response, s.checkDirectLease thread request =
              ((s.acquire ref thread).1, [.badLease thread response])) ∨
          ((s.leases ref).thread = none ∧ ∃ response, s.checkDirectLease thread request =
              ((s.acquire ref thread).1, [.ready thread ref response]))) := by
  unfold checkDirectLease
  cases ht : s.leaseTable request with
  | none => exact Or.inl ⟨rfl, _, rfl⟩
  | some ref =>
    have hlive := h.live request ref ht
    refine Or.inr ⟨ref, rfl, hlive, ?_⟩
    cases hthread : (s.leases ref).thread with
    | none => exact Or.inr ⟨rfl, s.readyText (s.leases ref), by simp [acquire, hlive, hthread]⟩
    | some user =>
      exact Or.inl ⟨rfl, "402 BAD-LEASE Lease already acquired".toList, by
        simp [acquire, hlive, hthread]⟩

theorem acquire_fst {thread : ThreadRef} (hlive : (s.leases ref).zombie = false) :
    (s.acquire ref thread).1 = { s with
      leases := update s.leases ref { s.leases ref with thread := some thread } } := by
  simp [acquire, hlive]

theorem Tabled.acquire (h : s.Tabled) (thread : ThreadRef)
    (hlive : (s.leases ref).zombie = false) : (s.acquire ref thread).1.Tabled := by
  rw [acquire_fst hlive]
  constructor
  · intro name ref' ht
    simp only [update_apply]
    split
    · exact hlive
    · exact h.live name ref' ht
  · intro name ref' ht
    simp only [update_apply]
    split
    · next heq =>
      subst heq
      exact h.named name ref' ht
    · exact h.named name ref' ht
  · intro ref' hle
    have hne : ref' ≠ ref := by
      rintro rfl
      exact absurd (h.lt hlive) (Nat.not_lt_of_le hle)
    simp only [update_of_ne hne]
    exact h.next ref' hle

theorem Tabled.destroy (h : s.Tabled) (ref : LeaseRef) : (s.destroy ref).Tabled := by
  unfold LeaseServer.destroy
  by_cases hz : (s.leases ref).zombie = true
  · simp only [hz, if_true]
    exact h
  · simp only [hz, Bool.false_eq_true, if_false]
    -- what is left in the table is another lease
    have hother : ∀ name ref', update s.leaseTable (s.leases ref).name none name =
        some ref' → s.leaseTable name = some ref' ∧ ref' ≠ ref := by
      intro name ref' ht
      rw [update_apply] at ht
      split at ht
      · cases ht
      · next hname =>
        refine ⟨ht, ?_⟩
        rintro rfl
        exact hname (h.named name ref' ht).symm
    constructor
    · intro name ref' ht
      obtain ⟨ht, hne⟩ := hother name ref' ht
      simp only [update_of_ne hne]
      exact h.live name ref' ht
    · intro name ref' ht
      obtain ⟨ht, hne⟩ := hother name ref' ht
      simp only [update_of_ne hne]
      exact h.named name ref' ht
    · intro ref' hle
      simp only [release_nextLease] at hle
      by_cases hne : ref' = ref
      · simp [hne]
      · simp only [update_of_ne hne]
        exact h.next ref' hle

/-! ## Leases and their queues -/

/-- A queue points to its live lease. -/
def Linked (s : LeaseServer) : Prop :=
  ∀ queue ref, s.queueLease queue = some ref ↔ s.Feeds ref queue

theorem new_linked (server : Server) : (new server).Linked := by
  intro queue ref
  constructor
  · intro h
    cases h
  · intro h
    cases h.1

theorem Linked.exclusive (h : s.Linked) : s.Exclusive := by
  intro queue
  refine ⟨fun ref ref' hf hf' => ?_, ?_⟩
  · rw [← h queue] at hf hf'
    exact some.inj (hf.symm.trans hf')
  · rw [isSome_iff_exists]
    exact exists_congr fun ref => h queue ref

theorem Linked.of_eq (h : s.Linked) (hq : s'.queueLease = s.queueLease)
    (hl : s'.leases = s.leases) : s'.Linked := by
  intro queue ref
  unfold Feeds
  rw [hq, hl]
  exact h queue ref

theorem Linked.insert_sink (h : s.Linked) (ht : s.Tabled)
    (hfeed : lease.feed = none) : (s.insert lease).1.Linked := by
  have hrelease : s.release lease = s := by
    unfold release
    rw [hfeed]
  rcases insert_cases (s := s) lease with ⟨-, heq⟩ | ⟨-, heq⟩
  · rw [heq, hrelease]
    exact h
  · rw [heq]
    intro queue ref
    rw [h queue ref]
    unfold Feeds
    by_cases hnew : ref = s.nextLease
    · subst hnew
      simp [ht.next s.nextLease (Nat.le_refl _), hfeed]
    · simp [update_of_ne hnew]

theorem Linked.insert_feed (h : s.Linked) (ht : s.Tabled) {queue : QueueRef}
    (hfree : s.queueLease queue = none) (hlive : lease.zombie = false)
    (hfeed : lease.feed = some queue) :
    (insert { s with queueLease := update s.queueLease queue (some s.nextLease) }
      lease).1.Linked := by
  rcases insert_cases (s := { s with
      queueLease := update s.queueLease queue (some s.nextLease) }) lease
    with ⟨-, heq⟩ | ⟨-, heq⟩
  · rw [heq]
    refine h.of_eq ?_ (release_leases lease)
    -- the queue points to nothing again
    simp only [release, hfeed, update_idem]
    rw [← hfree, update_eq_self]
  · rw [heq]
    intro q ref
    unfold Feeds
    by_cases hnew : ref = s.nextLease
    · subst hnew
      have hnone : s.queueLease q ≠ some s.nextLease := by
        intro hq
        have hz := ((h q _).mp hq).1
        rw [ht.next s.nextLease (Nat.le_refl _)] at hz
        cases hz
      by_cases hq : q = queue
      · subst hq
        simp [hlive, hfeed]
      · simp [update_of_ne hq, hnone, hfeed, Ne.symm hq]
    · simp only [update_of_ne hnew]
      by_cases hq : q = queue
      · subst hq
        have hnot : ¬ s.Feeds ref q := by
          rw [← h q ref, hfree]
          simp
        simp only [update_self, some.injEq]
        exact iff_of_false (Ne.symm hnew) hnot
      · simp only [update_of_ne hq]
        exact h q ref

theorem Linked.not_exclusive (h : s.Linked) {queue : QueueRef}
    (hlease : s.queueLease queue ≠ none) :
    ¬ Exclusive { s with queueLease := update s.queueLease queue none } := by
  intro hex
  obtain ⟨ref, href⟩ := ne_none_iff_exists'.mp hlease
  have hsome := (hex queue).2.mpr ⟨ref, (h queue ref).mp href⟩
  simp at hsome

theorem Linked.acquire (h : s.Linked) (thread : ThreadRef)
    (hlive : (s.leases ref).zombie = false) : (s.acquire ref thread).1.Linked := by
  rw [acquire_fst hlive]
  intro queue ref'
  rw [h queue ref']
  unfold Feeds
  by_cases hne : ref' = ref
  · subst hne
    simp
  · simp [update_of_ne hne]

theorem Linked.destroy (h : s.Linked) (ref : LeaseRef) : (s.destroy ref).Linked := by
  unfold LeaseServer.destroy
  by_cases hz : (s.leases ref).zombie = true
  · simp only [hz, if_true]
    exact h
  · have hlive : (s.leases ref).zombie = false := by simpa using hz
    simp only [hlive, Bool.false_eq_true, if_false]
    intro queue ref'
    unfold Feeds
    cases hfeed : (s.leases ref).feed with
    | none =>
      simp only [release, hfeed]
      rw [h queue ref']
      unfold Feeds
      by_cases hne : ref' = ref
      · subst hne
        simp [hfeed]
      · simp [update_of_ne hne]
    | some q =>
      simp only [release, hfeed]
      by_cases hne : ref' = ref
      · subst hne
        by_cases hq : queue = q
        · simp [hq]
        · have hother : s.queueLease queue ≠ some ref' := by
            intro heq
            have hf := ((h queue ref').mp heq).2
            rw [hfeed] at hf
            exact hq (some.inj hf).symm
          simp [update_of_ne hq, hother]
      · simp only [update_of_ne hne]
        by_cases hq : queue = q
        · subst hq
          have hnot : ¬ s.Feeds ref' queue := by
            intro hf
            have h1 := (h queue ref').mpr hf
            have h2 := (h queue ref).mpr ⟨hlive, hfeed⟩
            exact hne (some.inj (h1.symm.trans h2))
          simpa [Feeds] using hnot
        · simp only [update_of_ne hq]
          exact h queue ref'

/-! ## Requests in vain -/

variable {connection : ConnectionId} {channel : ChannelRef} {name : Shortstr} {timeNow : UInt64}

theorem insert_refused (h : (s.insert lease).2 = none) :
    (s.insert lease).1 = s.release lease := by
  rcases insert_cases (s := s) lease with ⟨-, heq⟩ | ⟨-, heq⟩
  · rw [heq]
  · rw [heq] at h
    cases h

theorem directPut_refused
    (h : ∀ answer ∈ (s.directPut connection channel name timeNow).2, answer.granted = false) :
    (s.leaseNew name .sink connection channel timeNow).2 = none := by
  unfold directPut at h
  split at h
  · next heq =>
    have hgranted := h _ mem_cons_self
    cases hgranted
  · next heq => rw [heq]

theorem directGet_refused
    (h : ∀ answer ∈ (s.directGet connection channel name timeNow).2, answer.granted = false) :
    (s.leaseNew name .feed connection channel timeNow).2 = none := by
  unfold directGet at h
  split at h
  · next heq =>
    have hgranted := h _ mem_cons_self
    cases hgranted
  · next heq => rw [heq]

theorem leaseNew_refused {type : LeaseType}
    (hfree : type = .feed → ∀ queue ∈ s.server.queueTable name, s.queueLease queue = none)
    (h : (s.leaseNew name type connection channel timeNow).2 = none) :
    (s.leaseNew name type connection channel timeNow).1 = s := by
  cases type with
  | sink =>
    rcases leaseNew_sink (s := s) with heq | ⟨lease, hfeed, -, heq⟩
    · rw [heq]
    · rw [heq] at h ⊢
      rw [insert_refused h, release, hfeed]
  | feed =>
    rcases leaseNew_feed s name connection channel timeNow with
      ⟨-, heq⟩ | ⟨queue, hq, ⟨hlease, -⟩ | ⟨hnone, lease, hfeed, -, heq⟩⟩
    · rw [heq]
    · exact absurd (hfree rfl queue hq) hlease
    · rw [heq] at h ⊢
      rw [insert_refused h]
      simp only [release, hfeed, update_idem]
      rw [← hnone, update_eq_self]

theorem Linked.leaseNew {type : LeaseType} (h : s.Linked) (ht : s.Tabled)
    (hfree : type = .feed → ∀ queue ∈ s.server.queueTable name, s.queueLease queue = none) :
    (s.leaseNew name type connection channel timeNow).1.Linked := by
  cases type with
  | sink =>
    rcases leaseNew_sink (s := s) with heq | ⟨lease, hfeed, -, heq⟩
    · rw [heq]
      exact h
    · rw [heq]
      exact h.insert_sink ht hfeed
  | feed =>
    rcases leaseNew_feed s name connection channel timeNow with
      ⟨-, heq⟩ | ⟨queue, hq, ⟨hlease, -⟩ | ⟨hnone, lease, hfeed, hlive, heq⟩⟩
    · rw [heq]
      exact h
    · exact absurd (hfree rfl queue hq) hlease
    · rw [heq]
      exact h.insert_feed ht hnone hlive hfeed

/-! ## One event -/

/-- A put is done on the connection of its channel. -/
theorem step_directPut {sink : Shortstr} (h : s.step cfg (.directPut channel sink timeNow) =
    some (s', out)) : ∃ connection, s.taking channel = some connection ∧
      s.directPut connection channel sink timeNow = (s', out) :=
  map_eq_some_iff.mp h

/-- A get is done on the connection of its channel. -/
theorem step_directGet {feed : Shortstr} (h : s.step cfg (.directGet channel feed timeNow) =
    some (s', out)) : ∃ connection, s.taking channel = some connection ∧
      s.directGet connection channel feed timeNow = (s', out) :=
  map_eq_some_iff.mp h

/-- A step leaves the leases alone, or makes, acquires or destroys one. -/
theorem step_cases (ht : s.Tabled) (hstep : s.step cfg event = some (s', out)) :
    (∃ server, s' = { s with server }) ∨
    (∃ name type connection channel timeNow,
      s' = (s.leaseNew name type connection channel timeNow).1 ∧
      (s.Free event → type = .feed →
        ∀ queue ∈ s.server.queueTable name, s.queueLease queue = none)) ∨
    (∃ ref thread, (s.leases ref).zombie = false ∧ s' = (s.acquire ref thread).1) ∨
    ∃ ref, s' = s.destroy ref := by
  cases event with
  | server event =>
    obtain ⟨r, -, heq⟩ := map_eq_some_iff.mp hstep
    obtain ⟨rfl, -⟩ := Prod.mk.inj heq
    exact .inl ⟨r.1, rfl⟩
  | directPut channel sink timeNow =>
    obtain ⟨connection, -, heq⟩ := step_directPut hstep
    have hs' : (s.directPut connection channel sink timeNow).1 = s' := congrArg Prod.fst heq
    rw [directPut_fst] at hs'
    refine .inr (.inl ⟨sink, .sink, connection, channel, timeNow, hs'.symm, ?_⟩)
    rintro - ⟨⟩
  | directGet channel feed timeNow =>
    obtain ⟨connection, htaking, heq⟩ := step_directGet hstep
    have hs' : (s.directGet connection channel feed timeNow).1 = s' := congrArg Prod.fst heq
    rw [directGet_fst] at hs'
    refine .inr (.inl ⟨feed, .feed, connection, channel, timeNow, hs'.symm, ?_⟩)
    intro hfree _
    exact hfree (by rw [htaking]; rfl)
  | checkDirectLease thread request =>
    have hs' : (s.checkDirectLease thread request).1 = s' := congrArg Prod.fst (some.inj hstep)
    rcases checkDirectLease_cases ht thread request with
      ⟨-, _, heq⟩ | ⟨ref, -, hlive, ⟨-, _, heq⟩ | ⟨-, _, heq⟩⟩
    · rw [heq] at hs'
      exact .inl ⟨s.server, hs'.symm⟩
    · rw [heq] at hs'
      exact .inr (.inr (.inl ⟨ref, thread, hlive, hs'.symm⟩))
    · rw [heq] at hs'
      exact .inr (.inr (.inl ⟨ref, thread, hlive, hs'.symm⟩))
  | destroy ref =>
    have hs' : s.destroy ref = s' := congrArg Prod.fst (some.inj hstep)
    exact .inr (.inr (.inr ⟨ref, hs'.symm⟩))

/-- A step leaves live leases only in the table. -/
theorem Tabled.step (h : s.Tabled) (hstep : s.step cfg event = some (s', out)) : s'.Tabled := by
  rcases step_cases h hstep with
    ⟨server, rfl⟩ | ⟨name, type, connection, channel, timeNow, rfl, -⟩ |
    ⟨ref, thread, hlive, rfl⟩ | ⟨ref, rfl⟩
  · exact h.of_eq rfl rfl rfl
  · exact h.leaseNew name type connection channel timeNow
  · exact h.acquire thread hlive
  · exact h.destroy ref

/-- A step that frees its queue first leaves queues pointing to their live leases. -/
theorem Linked.step (h : s.Linked) (ht : s.Tabled) (hfree : s.Free event)
    (hstep : s.step cfg event = some (s', out)) : s'.Linked := by
  rcases step_cases ht hstep with
    ⟨server, rfl⟩ | ⟨name, type, connection, channel, timeNow, rfl, hnone⟩ |
    ⟨ref, thread, hlive, rfl⟩ | ⟨ref, rfl⟩
  · exact h.of_eq rfl rfl
  · exact h.leaseNew ht (hnone hfree)
  · exact h.acquire thread hlive
  · exact h.destroy ref

/-- A request that is granted nothing changes nothing. -/
theorem step_refused (ht : s.Tabled) (hfree : s.Free event)
    (hstep : s.step cfg event = some (s', out)) (hrequest : event.isRequest = true)
    (hout : ∀ answer ∈ out, answer.granted = false) : s' = s := by
  cases event with
  | server event => cases hrequest
  | directPut channel sink timeNow =>
    obtain ⟨connection, -, heq⟩ := step_directPut hstep
    have hs' : (s.directPut connection channel sink timeNow).1 = s' := congrArg Prod.fst heq
    have hout' : (s.directPut connection channel sink timeNow).2 = out := congrArg Prod.snd heq
    rw [← hs', directPut_fst]
    exact leaseNew_refused (fun hsink => by cases hsink) (directPut_refused (hout' ▸ hout))
  | directGet channel feed timeNow =>
    obtain ⟨connection, htaking, heq⟩ := step_directGet hstep
    have hs' : (s.directGet connection channel feed timeNow).1 = s' := congrArg Prod.fst heq
    have hout' : (s.directGet connection channel feed timeNow).2 = out := congrArg Prod.snd heq
    rw [← hs', directGet_fst]
    exact leaseNew_refused (fun _ => hfree (by rw [htaking]; rfl))
      (directGet_refused (hout' ▸ hout))
  | checkDirectLease thread request =>
    have heq' := some.inj hstep
    rcases checkDirectLease_cases ht thread request with
      ⟨-, _, heq⟩ | ⟨ref, hreq, hlive, ⟨hsome, _, heq⟩ | ⟨-, _, heq⟩⟩
    · exact (congrArg Prod.fst (heq'.symm.trans heq))
    · obtain ⟨user, huser⟩ := isSome_iff_exists.mp hsome
      have hsame : user = thread := hfree ref hreq user huser
      have hs' : s' = (s.acquire ref thread).1 := congrArg Prod.fst (heq'.symm.trans heq)
      rw [hs', acquire_fst hlive, ← hsame, ← huser, update_eq_self]
    · have hout' : out = [.ready thread ref _] := congrArg Prod.snd (heq'.symm.trans heq)
      have hgranted := hout _ (hout' ▸ mem_cons_self)
      cases hgranted
  | destroy ref => cases hrequest

theorem Linked.not_keeps (h : s.Linked) (ht : s.Tabled) (hfree : ¬ s.Free event) :
    ¬ s.Keeps cfg event := by
  intro hkeeps
  match event with
  | .directGet channel feed timeNow =>
    simp only [Free, Classical.not_imp, not_forall] at hfree
    obtain ⟨htaking, queue, hq, hlease⟩ := hfree
    obtain ⟨connection, htaking⟩ := isSome_iff_exists.mp htaking
    have hstep : s.step cfg (.directGet channel feed timeNow) =
        some (s.directGet connection channel feed timeNow) := by
      simp [LeaseServer.step, htaking]
    have hex : (s.directGet connection channel feed timeNow).1.Exclusive := (hkeeps _ _ hstep).1
    rw [directGet_fst] at hex
    rcases leaseNew_feed s feed connection channel timeNow with
      ⟨hnone, -⟩ | ⟨queue', hq', ⟨-, heq⟩ | ⟨hnone, -⟩⟩
    · exact absurd hq (by simp [hnone])
    · rw [heq] at hex
      obtain rfl := some.inj (hq'.symm.trans hq)
      exact h.not_exclusive hlease hex
    · obtain rfl := some.inj (hq'.symm.trans hq)
      exact hlease hnone
  | .checkDirectLease thread request =>
    simp only [Free, not_forall] at hfree
    obtain ⟨ref, hreq, user, huser, hne⟩ := hfree
    rcases checkDirectLease_cases ht thread request with
      ⟨hnone, -⟩ | ⟨ref', hreq', hlive, ⟨-, response, heq⟩ | ⟨hnone, -⟩⟩
    · exact absurd hreq (by simp [hnone])
    · obtain rfl := some.inj (hreq'.symm.trans hreq)
      have hstep : s.step cfg (.checkDirectLease thread request) =
          some ((s.acquire ref' thread).1, [.badLease thread response]) := congrArg some heq
      have hsame := (hkeeps _ _ hstep).2 rfl (by simp [LeaseAnswer.granted])
      -- the user of the lease is now the thread that has been refused
      have hthread : ((s.acquire ref' thread).1.leases ref').thread = some thread := by
        rw [acquire_fst hlive]
        simp
      rw [hsame] at hthread
      exact hne (some.inj ((mem_def.mp huser).symm.trans hthread))
    · obtain rfl := some.inj (hreq'.symm.trans hreq)
      exact absurd huser (by simp [hnone])
  | .server _ | .directPut _ _ _ | .destroy _ => exact hfree trivial

theorem Linked.keeps_iff (h : s.Linked) (ht : s.Tabled) : s.Keeps cfg event ↔ s.Free event := by
  constructor
  · intro hkeeps
    by_contra hfree
    exact h.not_keeps ht hfree hkeeps
  · intro hfree s' out hstep
    exact ⟨(h.step ht hfree hstep).exclusive, step_refused ht hfree hstep⟩

/-! ## Users of leases -/

/-- The lease has been acquired or destroyed, and cannot be acquired any more. -/
def Used (s : LeaseServer) (ref : LeaseRef) : Prop :=
  ref < s.nextLease ∧ ((s.leases ref).zombie = true ∨ (s.leases ref).thread.isSome = true)

variable {ref : LeaseRef}

theorem Used.insert (h : s.Used ref) (lease : Lease) : (s.insert lease).1.Used ref := by
  rcases insert_cases (s := s) lease with ⟨-, heq⟩ | ⟨-, heq⟩
  · rw [heq]
    simpa [Used] using h
  · rw [heq]
    refine ⟨Nat.lt_succ_of_lt h.1, ?_⟩
    simp only [update_of_ne (Nat.ne_of_lt h.1)]
    exact h.2

theorem Used.leaseNew (h : s.Used ref) (type : LeaseType) :
    (s.leaseNew name type connection channel timeNow).1.Used ref := by
  cases type with
  | sink =>
    rcases leaseNew_sink (s := s) with heq | ⟨lease, -, -, heq⟩
    · rw [heq]
      exact h
    · rw [heq]
      exact h.insert lease
  | feed =>
    rcases leaseNew_feed s name connection channel timeNow with
      ⟨-, heq⟩ | ⟨queue, -, ⟨-, heq⟩ | ⟨-, lease, -, -, heq⟩⟩
    · rw [heq]
      exact h
    · rw [heq]
      exact h
    · rw [heq]
      refine Used.insert ?_ lease
      exact h

theorem Used.acquire (h : s.Used ref) {ref' : LeaseRef} (thread : ThreadRef)
    (hlive : (s.leases ref').zombie = false) : (s.acquire ref' thread).1.Used ref := by
  rw [acquire_fst hlive]
  refine ⟨h.1, ?_⟩
  by_cases hne : ref = ref'
  · subst hne
    simp
  · simp only [update_of_ne hne]
    exact h.2

theorem Used.destroy (h : s.Used ref) (ref' : LeaseRef) : (s.destroy ref').Used ref := by
  unfold LeaseServer.destroy
  by_cases hz : (s.leases ref').zombie = true
  · simp only [hz, if_true]
    exact h
  · simp only [hz, Bool.false_eq_true, if_false]
    refine ⟨by simpa using h.1, ?_⟩
    by_cases hne : ref = ref'
    · subst hne
      simp
    · simp only [update_of_ne hne]
      exact h.2

/-- A lease that is used stays used. -/
theorem Used.step (h : s.Used ref) (ht : s.Tabled) (hstep : s.step cfg event = some (s', out)) :
    s'.Used ref := by
  rcases step_cases ht hstep with
    ⟨server, rfl⟩ | ⟨name, type, connection, channel, timeNow, rfl, -⟩ |
    ⟨ref', thread, hlive, rfl⟩ | ⟨ref', rfl⟩
  · exact h
  · exact h.leaseNew type
  · exact h.acquire thread hlive
  · exact h.destroy ref'

/-- The leases that are acquired, in order. -/
def acquisitions (out : List LeaseAnswer) : List LeaseRef := out.filterMap LeaseAnswer.acquired?

@[simp] theorem acquisitions_server (answers : List Answer) :
    acquisitions (answers.map .server) = [] := by
  induction answers with
  | nil => rfl
  | cons answer answers ih => exact ih

/-- A step acquires at most one lease, which was not used before. -/
theorem step_acquisitions (ht : s.Tabled) (hstep : s.step cfg event = some (s', out)) :
    acquisitions out = [] ∨ ∃ ref, acquisitions out = [ref] ∧ ¬ s.Used ref ∧ s'.Used ref := by
  cases event with
  | server event =>
    obtain ⟨r, -, heq⟩ := map_eq_some_iff.mp hstep
    obtain ⟨-, rfl⟩ := Prod.mk.inj heq
    exact Or.inl (acquisitions_server r.2)
  | directPut channel sink timeNow =>
    obtain ⟨connection, -, heq⟩ := step_directPut hstep
    have hout : (s.directPut connection channel sink timeNow).2 = out := congrArg Prod.snd heq
    refine Or.inl ?_
    rw [← hout, directPut]
    split
    · rfl
    · exact acquisitions_server _
  | directGet channel feed timeNow =>
    obtain ⟨connection, -, heq⟩ := step_directGet hstep
    have hout : (s.directGet connection channel feed timeNow).2 = out := congrArg Prod.snd heq
    refine Or.inl ?_
    rw [← hout, directGet]
    split
    · rfl
    · exact acquisitions_server _
  | checkDirectLease thread request =>
    have heq' := some.inj hstep
    rcases checkDirectLease_cases ht thread request with
      ⟨-, _, heq⟩ | ⟨ref, -, hlive, ⟨-, _, heq⟩ | ⟨hnone, _, heq⟩⟩
    · obtain ⟨-, rfl⟩ := Prod.mk.inj (heq'.symm.trans heq)
      exact Or.inl rfl
    · obtain ⟨-, rfl⟩ := Prod.mk.inj (heq'.symm.trans heq)
      exact Or.inl rfl
    · obtain ⟨rfl, rfl⟩ := Prod.mk.inj (heq'.symm.trans heq)
      refine Or.inr ⟨ref, rfl, ?_, ?_⟩
      · simp [Used, hlive, hnone]
      · rw [acquire_fst hlive]
        exact ⟨ht.lt hlive, by simp⟩
  | destroy ref =>
    obtain ⟨-, rfl⟩ := Prod.mk.inj (some.inj hstep)
    exact Or.inl rfl

/-- No lease has been acquired twice so far. -/
structure UsedOnce (s : LeaseServer) (log : List LeaseAnswer) : Prop where
  tabled : s.Tabled
  nodup : (acquisitions log).Nodup
  used : ∀ ref ∈ acquisitions log, s.Used ref

/-- A step acquires no lease for the second time. -/
theorem UsedOnce.step {log : List LeaseAnswer} (h : s.UsedOnce log)
    (hstep : s.step cfg event = some (s', out)) : s'.UsedOnce (log ++ out) := by
  have happend : acquisitions (log ++ out) = acquisitions log ++ acquisitions out :=
    filterMap_append
  have hkept : ∀ ref ∈ acquisitions log, s'.Used ref := fun ref hr =>
    (h.used ref hr).step h.tabled hstep
  refine ⟨h.tabled.step hstep, ?_, ?_⟩
  · rw [happend]
    rcases step_acquisitions h.tabled hstep with hnone | ⟨ref, hone, hnew, -⟩
    · rw [hnone, append_nil]
      exact h.nodup
    · rw [hone]
      refine List.Nodup.append h.nodup (nodup_singleton ref) ?_
      intro ref' hr hr'
      obtain rfl := mem_singleton.mp hr'
      exact hnew (h.used ref' hr)
  · intro ref hr
    rw [happend] at hr
    rcases mem_append.mp hr with hr | hr
    · exact hkept ref hr
    · rcases step_acquisitions h.tabled hstep with hnone | ⟨ref', hone, -, hused⟩
      · rw [hnone] at hr
        cases hr
      · rw [hone] at hr
        obtain rfl := mem_singleton.mp hr
        exact hused

theorem outcome_usedOnce {server : Server} {events : List LeaseEvent}
    (h : outcome cfg (new server) events = some (s', out)) : s'.UsedOnce out := by
  have hstart : UsedOnce (new server) [] :=
    ⟨new_tabled server, nodup_nil, fun ref hr => by cases hr⟩
  have hkeep : ∀ (t : LeaseServer × List LeaseAnswer) event t',
      UsedOnce t.1 t.2 → True → Lib.logged (LeaseServer.step cfg) t event = some t' →
        UsedOnce t'.1 t'.2 := by
    intro t event t' ht _ hstep
    obtain ⟨out, hs, hlog⟩ := Lib.logged_eq_some hstep
    rw [hlog]
    exact ht.step hs
  exact Lib.run_invariant (I := fun t => UsedOnce t.1 t.2) hkeep hstart
    (Lib.along_of_forall (fun _ _ _ => trivial) _) h

/-! ## Whole runs -/

/--
No lease is ever acquired twice. Queues and leases stay as they should be in exactly the runs in
which nobody asks for a queue that has a lease, or shows a lease that another thread has.
-/
theorem leases_exclusive_iff (cfg : ServerConfig) (server : Server) (events : List LeaseEvent) :
    (∀ s out, outcome cfg (new server) events = some (s, out) → (acquisitions out).Nodup) ∧
      (Lib.Along (Lib.logged (step cfg)) (fun s event => s.1.Keeps cfg event)
          (new server, []) events ↔
        Lib.Along (Lib.logged (step cfg)) (fun s event => s.1.Free event)
          (new server, []) events) := by
  refine ⟨fun s out h => (outcome_usedOnce h).nodup, ?_⟩
  refine Lib.along_congr (I := fun s => s.1.Linked ∧ s.1.Tabled)
    (fun s event h _ => h.1.keeps_iff h.2) ?_ ⟨new_linked server, new_tabled server⟩
    (Lib.along_of_forall (fun _ _ _ => trivial) _)
  intro s event s' h _ hfree hstep
  obtain ⟨out, hs, -⟩ := Lib.logged_eq_some hstep
  exact ⟨h.1.step h.2 hfree hs, h.2.step hs⟩

section Rivals

/-- Both clients ask for the same queue, and the second one asks again. -/
def rivals : List LeaseEvent :=
  [.server (.method 1 (.queueDeclare { queue := .cpy ['q'] })),
    .directGet 1 (.cpy ['q']) 1000, .directGet 2 (.cpy ['q']) 2000,
    .directGet 2 (.cpy ['q']) 3000]

/-- The queue has two live leases then, after the first of these has been refused. -/
theorem rivals_both_have_leases :
    ∃ s out, outcome Server.plainConfig (new Server.twoClients) rivals = some (s, out) ∧
      s.Feeds 0 0 ∧ s.Feeds 1 0 ∧ ¬ s.Exclusive ∧
      (out.filter LeaseAnswer.granted).length = 2 := by
  refine ⟨_, _, rfl, ⟨by decide +kernel, by decide +kernel⟩,
    ⟨by decide +kernel, by decide +kernel⟩, ?_, by decide +kernel⟩
  intro h
  have hone := (h 0).1 0 1 ⟨by decide +kernel, by decide +kernel⟩
    ⟨by decide +kernel, by decide +kernel⟩
  cases hone

end Rivals

end LeaseServer

end OpenAmq
