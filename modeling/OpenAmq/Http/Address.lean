import Mathlib.Logic.Function.Basic
import OpenAmq.Lib.Run

/-!
# Connection quotas

The addresses of `http_address`, each with the threads that serve its connections and what remains
of its quota. All agents share the table; each method is cut into the steps between which other
agents can come.

* `Address.threadOpen`, `threadClose` — the parts of the methods that are done under the lock
* `AddressTable.step` — one step of one agent
* `quotas_kept_iff` — the quotas are kept exactly when no opening finds a remaining quota of one
-/

namespace OpenAmq

open Lib List Function Option

/-- The context of `http_address`. -/
structure Address (T : Type*) where
  threadList : List T
  threadQuota : UInt64
deriving DecidableEq

/-- A thread that has been shut down, and the list that it was taken from. -/
structure Cull (T : Type*) where
  thread : T
  listed : List T
deriving DecidableEq

variable {A T : Type*}

namespace Address

/-- `http_address new` -/
def new (addressQuota : UInt64) : Address T := ⟨[], addressQuota⟩

/-- `thread open` under the lock; `none` when there is no oldest thread. -/
def threadOpen (self : Address T) (thread : T) : Option (Address T × List (Cull T)) :=
  let threadList := self.threadList ++ [thread]
  if self.threadQuota = 0 then some (⟨threadList, self.threadQuota⟩, [])
  else
    let threadQuota := self.threadQuota - 1
    if threadQuota = 0 then
      match threadList with
      | [] => none
      | oldest :: rest => some (⟨rest, threadQuota + 1⟩, [⟨oldest, threadList⟩])
    else some (⟨threadList, threadQuota⟩, [])

/-- `thread close` under the lock -/
def threadClose [DecidableEq T] (self : Address T) (thread : T) : Address T :=
  if thread ∈ self.threadList then ⟨self.threadList.erase thread, self.threadQuota + 1⟩ else self

end Address

/-- How far the agent of a thread has come. -/
inductive AddressPhase (A : Type*) where
  /-- It has no connection yet. -/
  | idle
  /-- The address was not in the table. -/
  | missing (address : A)
  /-- Another agent has created the address at the same time. -/
  | collided (address : A)
  | found (address : A)
  | opened (address : A)
  | closed (address : A)
deriving DecidableEq

/-- All addresses that have been seen, and all agents. -/
structure AddressTable (A T : Type*) where
  table : A → Option (Address T)
  phase : T → AddressPhase A

open AddressTable

/-- The next step of the agent of a thread. -/
inductive AddressEvent (A T : Type*) where
  /-- `thread open` searches the address. -/
  | search (thread : T) (address : A)
  /-- It creates an address that was missing. -/
  | create (thread : T)
  /-- It searches the address that it could not create. -/
  | searchAgain (thread : T)
  /-- It takes the lock. -/
  | threadOpen (thread : T)
  /-- `thread close`, also for a thread that was culled or has been closed before -/
  | threadClose (thread : T)

namespace AddressTable

def new : AddressTable A T := ⟨fun _ => none, fun _ => .idle⟩

variable [DecidableEq A] [DecidableEq T]

def moveTo (self : AddressTable A T) (thread : T) (phase : AddressPhase A) : AddressTable A T :=
  { self with phase := update self.phase thread phase }

def put (self : AddressTable A T) (address : A) (record : Address T) : AddressTable A T :=
  { self with table := update self.table address (some record) }

/-- `thread close`, where the address must be in the table -/
def close (self : AddressTable A T) (thread : T) (address : A) :
    Option (AddressTable A T × List (Cull T)) :=
  (self.table address).map fun record =>
    ((self.put address (record.threadClose thread)).moveTo thread (.closed address), [])

/-- A step with the threads that it culls, `none` when an assertion fails. -/
def step (addressQuota : UInt64) (self : AddressTable A T) :
    AddressEvent A T → Option (AddressTable A T × List (Cull T))
  | .search thread address =>
    match self.phase thread with
    | .idle | .closed _ =>
      some (self.moveTo thread
        (if (self.table address).isSome then .found address else .missing address), [])
    | _ => some (self, [])
  | .create thread =>
    match self.phase thread with
    | .missing address =>
      if (self.table address).isSome then some (self.moveTo thread (.collided address), [])
      else some ((self.put address (.new addressQuota)).moveTo thread (.found address), [])
    | _ => some (self, [])
  | .searchAgain thread =>
    match self.phase thread with
    | .collided address =>
      (self.table address).map fun _ => (self.moveTo thread (.found address), [])
    | _ => some (self, [])
  | .threadOpen thread =>
    match self.phase thread with
    | .found address =>
      (self.table address).bind fun record =>
        (record.threadOpen thread).map fun (record, culls) =>
          ((self.put address record).moveTo thread (.opened address), culls)
    | _ => some (self, [])
  | .threadClose thread =>
    match self.phase thread with
    | .opened address | .closed address => self.close thread address
    | _ => some (self, [])

end AddressTable

/-! ## Openings and closings of one address -/

/-- A quota that is not used up, and with the listed threads makes the quota of the address. -/
def Address.Kept (addressQuota : UInt64) (self : Address T) : Prop :=
  self.threadQuota ≠ 0 ∧ self.threadQuota.toNat + self.threadList.length = addressQuota.toNat

theorem toNat_pred {n : UInt64} (h : n ≠ 0) : (n - 1).toNat + 1 = n.toNat := by
  have hpos : 0 < n.toNat := by
    rw [Nat.pos_iff_ne_zero]
    exact fun hzero => h (UInt64.toNat_inj.mp hzero)
  have hlt := n.toNat_lt
  show (18446744073709551616 - 1 + n.toNat) % 18446744073709551616 + 1 = _
  omega

theorem toNat_succ {n : UInt64} (h : n.toNat + 1 < 18446744073709551616) :
    (n + 1).toNat = n.toNat + 1 := by
  show (n.toNat + 1) % 18446744073709551616 = _
  omega

namespace Address

variable {record : Address T} {thread : T} {addressQuota : UInt64}

theorem threadOpen_of_one (thread : T) (h : record.threadQuota = 1) :
    ∃ oldest rest, record.threadList ++ [thread] = oldest :: rest ∧ record.threadOpen thread =
        some (⟨rest, 1⟩, [⟨oldest, record.threadList ++ [thread]⟩]) := by
  cases hlist : record.threadList with
  | nil => exact ⟨thread, [], rfl, by simp [threadOpen, h, hlist]⟩
  | cons oldest rest =>
    exact ⟨oldest, rest ++ [thread], rfl, by simp [threadOpen, h, hlist]⟩

theorem threadOpen_of_ne_one (thread : T) (h : record.threadQuota ≠ 1) :
    ∃ threadQuota, record.threadOpen thread =
        some (⟨record.threadList ++ [thread], threadQuota⟩, []) ∧
      (record.threadQuota ≠ 0 → threadQuota ≠ 0 ∧
        threadQuota.toNat + 1 = record.threadQuota.toNat) := by
  by_cases hzero : record.threadQuota = 0
  · exact ⟨record.threadQuota, by simp [threadOpen, hzero], fun h => absurd hzero h⟩
  · have hpred := toNat_pred hzero
    have hne : record.threadQuota - 1 ≠ 0 := by
      intro hone
      rw [hone] at hpred
      exact h (UInt64.toNat_inj.mp hpred.symm)
    exact ⟨record.threadQuota - 1, by simp [threadOpen, hzero, hne], fun _ => ⟨hne, hpred⟩⟩

theorem Kept.threadClose [DecidableEq T] (h : record.Kept addressQuota) :
    (record.threadClose thread).Kept addressQuota := by
  unfold Address.threadClose
  split
  · next hmem =>
    have hpos := length_pos_of_mem hmem
    have hlt := addressQuota.toNat_lt
    have hsum := h.2
    have hsucc : (record.threadQuota + 1).toNat = record.threadQuota.toNat + 1 :=
      toNat_succ (by omega)
    refine ⟨?_, ?_⟩
    · intro hzero
      simp only at hzero
      rw [hzero] at hsucc
      cases hsucc
    · simp only
      rw [hsucc, length_erase_of_mem hmem]
      omega
  · exact h

theorem threadClose_sublist [DecidableEq T] :
    (record.threadClose thread).threadList.Sublist record.threadList := by
  unfold threadClose
  split
  · exact erase_sublist
  · exact List.Sublist.refl _

theorem notMem_threadClose [DecidableEq T] (hnodup : record.threadList.Nodup) :
    thread ∉ (record.threadClose thread).threadList := by
  unfold threadClose
  split
  · exact hnodup.not_mem_erase
  · next h => exact h

end Address

/-! ## All addresses -/

/-- The address that the agent has found to be in the table. -/
def AddressPhase.known : AddressPhase A → Option A
  | .idle | .missing _ => none
  | .collided address | .found address | .opened address | .closed address => some address

/--
What all steps keep: the quotas of all addresses, and that just agents whose connections are open
are listed, at the addresses that they have come from.
-/
structure Quoted (addressQuota : UInt64) (s : AddressTable A T) : Prop where
  kept : addressQuota ≠ 0 → ∀ address record, s.table address = some record →
    record.Kept addressQuota
  nodup : ∀ address record, s.table address = some record → record.threadList.Nodup
  listed : ∀ address record thread, s.table address = some record →
    thread ∈ record.threadList → s.phase thread = .opened address
  known : ∀ thread, ∀ address ∈ (s.phase thread).known, (s.table address).isSome

/-- A cull of the oldest thread of a list with as many threads as the quota allows. -/
def Cull.Early (addressQuota : UInt64) (c : Cull T) : Prop :=
  c.listed.head? = some c.thread ∧ (addressQuota ≠ 0 → c.listed.length = addressQuota.toNat)

/-- The opening does not find a remaining quota of one. -/
def AddressTable.NotLast (s : AddressTable A T) : AddressEvent A T → Prop
  | .threadOpen thread =>
    ∀ address record, s.phase thread = .found address → s.table address = some record →
      record.threadQuota ≠ 1
  | _ => True

theorem quoted_new (addressQuota : UInt64) : Quoted addressQuota (new : AddressTable A T) where
  kept _ _ _ h := by cases h
  nodup _ _ h := by cases h
  listed _ _ _ h := by cases h
  known _ _ h := by cases h

section Steps

variable [DecidableEq A] [DecidableEq T] {s : AddressTable A T} {addressQuota : UInt64}
  {address : A} {thread : T} {record : Address T} {phase : AddressPhase A}

omit [DecidableEq A] in
theorem Quoted.moveTo (hq : Quoted addressQuota s) (hold : ∀ a, s.phase thread ≠ .opened a)
    (hknown : ∀ a ∈ phase.known, (s.table a).isSome) :
    Quoted addressQuota (s.moveTo thread phase) := by
  refine ⟨hq.kept, hq.nodup, fun a r t hr ht => ?_, fun t a ha => ?_⟩
  · have hopened := hq.listed a r t hr ht
    have hne : t ≠ thread := by
      rintro rfl
      exact hold a hopened
    simpa [AddressTable.moveTo, hne] using hopened
  · by_cases hne : t = thread
    · subst hne
      simp only [AddressTable.moveTo, update_self] at ha
      exact hknown a ha
    · simp only [AddressTable.moveTo, update_of_ne hne] at ha
      exact hq.known t a ha

/-- An agent has changed the record of an address and gone on. -/
theorem Quoted.put (hq : Quoted addressQuota s)
    (hold : ∀ a, s.phase thread = .opened a → a = address)
    (hkept : addressQuota ≠ 0 → record.Kept addressQuota) (hnodup : record.threadList.Nodup)
    (hlisted : ∀ t ∈ record.threadList, t ≠ thread → s.phase t = .opened address)
    (hthread : thread ∈ record.threadList → phase = .opened address)
    (hknown : ∀ a ∈ phase.known, a = address) :
    Quoted addressQuota ((s.put address record).moveTo thread phase) := by
  have htable : ∀ a, ((s.put address record).moveTo thread phase).table a =
      if a = address then some record else s.table a := by
    intro a
    by_cases ha : a = address <;> simp [AddressTable.put, AddressTable.moveTo, ha]
  have hphase : ∀ t, ((s.put address record).moveTo thread phase).phase t =
      if t = thread then phase else s.phase t := by
    intro t
    by_cases ht : t = thread <;> simp [AddressTable.put, AddressTable.moveTo, ht]
  refine ⟨fun hzero a r hr => ?_, fun a r hr => ?_, fun a r t hr ht => ?_, fun t a ha => ?_⟩
  · rw [htable] at hr
    split at hr
    · exact some.inj hr ▸ hkept hzero
    · exact hq.kept hzero a r hr
  · rw [htable] at hr
    split at hr
    · exact some.inj hr ▸ hnodup
    · exact hq.nodup a r hr
  · rw [htable] at hr
    rw [hphase]
    split at hr
    · next ha =>
      cases hr
      split
      · next hne => rw [ha, hthread (hne ▸ ht)]
      · next hne => rw [ha, hlisted t ht hne]
    · next ha =>
      have hopened := hq.listed a r t hr ht
      rw [if_neg, hopened]
      rintro rfl
      exact ha (hold a hopened)
  · rw [htable]
    rw [hphase] at ha
    split at ha
    · rw [if_pos (hknown a ha)]
      rfl
    · split
      · rfl
      · exact hq.known t a ha

theorem Quoted.create (hq : Quoted addressQuota s) (hphase : s.phase thread = .missing address) :
    Quoted addressQuota ((s.put address (.new addressQuota)).moveTo thread (.found address)) := by
  refine hq.put ?_ ?_ nodup_nil ?_ ?_ ?_
  · intro a ha
    rw [hphase] at ha
    cases ha
  · intro hzero
    exact ⟨hzero, rfl⟩
  · intro t ht
    cases ht
  · intro ht
    cases ht
  · intro a ha
    exact (some.inj ha).symm

/-- A thread is listed, and the oldest culled where the quota is used up. -/
theorem Quoted.threadOpen (hq : Quoted addressQuota s) (hphase : s.phase thread = .found address)
    (hrecord : s.table address = some record) :
    ∃ record' culls, record.threadOpen thread = some (record', culls) ∧
      Quoted addressQuota ((s.put address record').moveTo thread (.opened address)) ∧
      (∀ c ∈ culls, c.Early addressQuota) ∧ (culls = [] ↔ record.threadQuota ≠ 1) := by
  have hnew : thread ∉ record.threadList := by
    intro ht
    have hopened := hq.listed address record thread hrecord ht
    rw [hphase] at hopened
    cases hopened
  have hnodup : (record.threadList ++ [thread]).Nodup := by
    rw [(perm_append_singleton thread record.threadList).nodup_iff]
    exact nodup_cons.mpr ⟨hnew, hq.nodup address record hrecord⟩
  have hlisted : ∀ t ∈ record.threadList ++ [thread], t ≠ thread → s.phase t = .opened address := by
    intro t ht hne
    rw [mem_append, mem_singleton] at ht
    exact hq.listed address record t hrecord (ht.resolve_right hne)
  have hold : ∀ a, s.phase thread = .opened a → a = address := by
    intro a ha
    rw [hphase] at ha
    cases ha
  have hknown : ∀ a ∈ (AddressPhase.opened address).known, a = address := by
    intro a ha
    exact (some.inj ha).symm
  have hlength : (record.threadList ++ [thread]).length = record.threadList.length + 1 := by simp
  by_cases hone : record.threadQuota = 1
  · obtain ⟨oldest, rest, hcons, hopen⟩ := record.threadOpen_of_one thread hone
    rw [hcons] at hnodup hlisted hlength
    refine ⟨_, _, hopen, hq.put hold ?_ (nodup_cons.mp hnodup).2 ?_ (fun _ => rfl) hknown,
      ?_, by simp [hone]⟩
    · intro hzero
      have hsum := (hq.kept hzero address record hrecord).2
      rw [hone] at hsum
      refine ⟨show (1 : UInt64) ≠ 0 by decide, ?_⟩
      rw [length_cons] at hlength
      show (1 : UInt64).toNat + rest.length = _
      omega
    · intro t ht
      exact hlisted t (mem_cons_of_mem oldest ht)
    · intro c hc
      obtain rfl := mem_singleton.mp hc
      refine ⟨by simp [hcons], fun hzero => ?_⟩
      have hsum := (hq.kept hzero address record hrecord).2
      rw [hone, show (1 : UInt64).toNat = 1 from rfl] at hsum
      simp only [length_append, length_singleton]
      omega
  · obtain ⟨threadQuota, hopen, hquota⟩ := record.threadOpen_of_ne_one thread hone
    refine ⟨_, _, hopen, hq.put hold ?_ hnodup hlisted (fun _ => rfl) hknown, ?_, by simp [hone]⟩
    · intro hzero
      obtain ⟨hne, hsum⟩ := hq.kept hzero address record hrecord
      obtain ⟨hne', hpred⟩ := hquota hne
      refine ⟨hne', ?_⟩
      simp only [hlength]
      omega
    · intro c hc
      cases hc

theorem Quoted.close (hq : Quoted addressQuota s)
    (hphase : s.phase thread = .opened address ∨ s.phase thread = .closed address) :
    ∃ s', s.close thread address = some (s', []) ∧ Quoted addressQuota s' := by
  have hknown : address ∈ (s.phase thread).known := by
    rcases hphase with h | h <;> rw [h] <;> rfl
  obtain ⟨record, hrecord⟩ := isSome_iff_exists.mp (hq.known thread address hknown)
  have hnodup := hq.nodup address record hrecord
  refine ⟨_, by rw [AddressTable.close, hrecord]; rfl, hq.put ?_ ?_ ?_ ?_ ?_ ?_⟩
  · intro a ha
    rcases hphase with h | h
    · rw [h] at ha
      exact (AddressPhase.opened.inj ha).symm
    · rw [h] at ha
      cases ha
  · intro hzero
    exact (hq.kept hzero address record hrecord).threadClose
  · exact hnodup.sublist Address.threadClose_sublist
  · intro t ht _
    exact hq.listed address record t hrecord (Address.threadClose_sublist.subset ht)
  · intro ht
    exact absurd ht (Address.notMem_threadClose hnodup)
  · intro a ha
    exact (some.inj ha).symm

/-- An event keeps the quotas, and culls the oldest thread of a full list only. -/
theorem Quoted.step (hq : Quoted addressQuota s) (e : AddressEvent A T) :
    ∃ s' culls, s.step addressQuota e = some (s', culls) ∧ Quoted addressQuota s' ∧
      (∀ c ∈ culls, c.Early addressQuota) ∧ (culls = [] ↔ s.NotLast e) := by
  have hnone : ∀ c ∈ ([] : List (Cull T)), c.Early addressQuota := by
    intro c hc
    cases hc
  cases e with
  | search thread address =>
    simp only [AddressTable.step]
    split
    case _ hphase | _ hphase =>
      refine ⟨_, [], rfl, hq.moveTo ?_ ?_, hnone, iff_of_true rfl trivial⟩
      · intro a ha
        rw [hphase] at ha
        cases ha
      · intro a ha
        split at ha
        · next hsome => exact some.inj ha ▸ hsome
        · cases ha
    · exact ⟨s, [], rfl, hq, hnone, iff_of_true rfl trivial⟩
  | create thread =>
    simp only [AddressTable.step]
    split
    · next address hphase =>
      split
      · next hsome =>
        refine ⟨_, [], rfl, hq.moveTo ?_ ?_, hnone, iff_of_true rfl trivial⟩
        · intro a ha
          rw [hphase] at ha
          cases ha
        · intro a ha
          exact some.inj ha ▸ hsome
      · exact ⟨_, [], rfl, hq.create hphase, hnone, iff_of_true rfl trivial⟩
    · exact ⟨s, [], rfl, hq, hnone, iff_of_true rfl trivial⟩
  | searchAgain thread =>
    simp only [AddressTable.step]
    split
    · next address hphase =>
      have hsome := hq.known thread address (by rw [hphase]; rfl)
      obtain ⟨record, hrecord⟩ := isSome_iff_exists.mp hsome
      refine ⟨_, [], by rw [hrecord]; rfl, hq.moveTo ?_ ?_, hnone, iff_of_true rfl trivial⟩
      · intro a ha
        rw [hphase] at ha
        cases ha
      · intro a ha
        exact some.inj ha ▸ hsome
    · exact ⟨s, [], rfl, hq, hnone, iff_of_true rfl trivial⟩
  | threadOpen thread =>
    simp only [AddressTable.step]
    split
    · next address hphase =>
      have hsome := hq.known thread address (by rw [hphase]; rfl)
      obtain ⟨record, hrecord⟩ := isSome_iff_exists.mp hsome
      obtain ⟨record', culls, hopen, hq', hearly, hculls⟩ := hq.threadOpen hphase hrecord
      refine ⟨_, culls, by rw [hrecord, bind_some, hopen]; rfl, hq', hearly, ?_⟩
      rw [hculls]
      constructor
      · intro hne a r ha hr
        obtain rfl := AddressPhase.found.inj (hphase.symm.trans ha)
        obtain rfl := some.inj (hrecord.symm.trans hr)
        exact hne
      · intro hlast
        exact hlast address record hphase hrecord
    · next hphase =>
      refine ⟨s, [], rfl, hq, hnone, iff_of_true rfl ?_⟩
      intro a _ ha
      exact absurd ha (hphase a)
  | threadClose thread =>
    simp only [AddressTable.step]
    split
    case _ address hphase =>
      obtain ⟨s', hclose, hq'⟩ := hq.close (Or.inl hphase)
      exact ⟨s', [], hclose, hq', hnone, iff_of_true rfl trivial⟩
    case _ address hphase =>
      obtain ⟨s', hclose, hq'⟩ := hq.close (Or.inr hphase)
      exact ⟨s', [], hclose, hq', hnone, iff_of_true rfl trivial⟩
    · exact ⟨s, [], rfl, hq, hnone, iff_of_true rfl trivial⟩

/-! ## Runs -/

/-- Of a quota that is not zero, no address has more threads than it allows. -/
def AddressTable.Within (addressQuota : UInt64) (s : AddressTable A T) : Prop :=
  addressQuota ≠ 0 → ∀ address record, s.table address = some record →
    record.threadList.length ≤ addressQuota.toNat ∧
      record.threadQuota.toNat + record.threadList.length = addressQuota.toNat

/-- A cull that is in order: of the oldest thread, and because there are too many. -/
def Cull.Due (addressQuota : UInt64) (c : Cull T) : Prop :=
  addressQuota ≠ 0 ∧ c.listed.head? = some c.thread ∧ addressQuota.toNat < c.listed.length

omit [DecidableEq A] [DecidableEq T] in
theorem Quoted.within (hq : Quoted addressQuota s) : s.Within addressQuota := by
  intro hzero address record hrecord
  have hsum := (hq.kept hzero address record hrecord).2
  exact ⟨by omega, hsum⟩

omit [DecidableEq T] in
theorem Cull.Early.not_due {c : Cull T} (h : c.Early addressQuota) : ¬ c.Due addressQuota := by
  rintro ⟨hzero, -, hlength⟩
  exact absurd (h.2 hzero) (Nat.ne_of_gt hlength)

/-- A run keeps the quotas, and culls the oldest threads of full lists only. -/
theorem quoted_run (addressQuota : UInt64) (events : List (AddressEvent A T)) :
    ∃ s, run (logged (step addressQuota)) (new, []) events = some s ∧
      Quoted addressQuota s.1 ∧ ∀ c ∈ s.2, c.Early addressQuota := by
  have hall : Along (logged (step addressQuota)) (fun _ _ => True)
      ((new : AddressTable A T), []) events := along_of_forall (fun _ _ _ => trivial) _
  refine run_progress (I := fun _ (s : AddressTable A T × List (Cull T)) =>
      Quoted addressQuota s.1 ∧ ∀ c ∈ s.2, c.Early addressQuota)
    ?_ [] ⟨quoted_new addressQuota, ?_⟩ hall
  · intro _ s e hI _
    obtain ⟨s', culls, hstep, hq', hearly, -⟩ := hI.1.step e
    refine ⟨_, by rw [logged, hstep]; rfl, hq', ?_⟩
    intro c hc
    exact (mem_append.mp hc).elim (hI.2 c) (hearly c)
  · intro c hc
    cases hc

/--
Whatever connections are opened and closed, in any order and by any agents at once, no assertion
fails, no address has more threads than its quota, the remaining quota and these threads make the
quota, and a thread that is culled is the oldest. All culls are due exactly when none happens:
when no opening finds that a quota of one remains.
-/
theorem quotas_kept_iff (addressQuota : UInt64) (events : List (AddressEvent A T)) :
    (∃ s, run (logged (step addressQuota)) (new, []) events = some s ∧
      s.1.Within addressQuota ∧ ∀ c ∈ s.2, c.listed.head? = some c.thread) ∧
    ((∀ before, before <+: events →
        ∃ s, run (logged (step addressQuota)) (new, []) before = some s ∧
          s.1.Within addressQuota ∧ ∀ c ∈ s.2, c.Due addressQuota) ↔
      Along (logged (step addressQuota)) (fun s e => s.1.NotLast e) (new, []) events) := by
  obtain ⟨s, hrun, hq, hearly⟩ := quoted_run addressQuota events
  refine ⟨⟨s, hrun, hq.within, fun c hc => (hearly c hc).1⟩, ?_⟩
  refine run_prefixes_iff_of_invariant
    (I := fun s : AddressTable A T × List (Cull T) => Quoted addressQuota s.1 ∧ s.2 = [])
    ?_ ?_ ?_ ⟨quoted_new addressQuota, rfl⟩
  · intro s hI
    refine ⟨hI.1.within, fun c hc => ?_⟩
    rw [hI.2] at hc
    cases hc
  · intro s e hI hlast
    obtain ⟨s', culls, hstep, hq', -, hculls⟩ := hI.1.step e
    refine ⟨_, by rw [logged, hstep]; rfl, hq', ?_⟩
    simp [hI.2, hculls.mpr hlast]
  · intro s e s' hI hs hG
    obtain ⟨s1, culls, hstep, -, hearly, hculls⟩ := hI.1.step e
    obtain ⟨out, hout, hlog⟩ := logged_eq_some hs
    obtain ⟨-, rfl⟩ := Prod.mk.inj (some.inj (hstep.symm.trans hout))
    rw [hI.2, nil_append] at hlog
    refine hculls.mp (eq_nil_iff_forall_not_mem.mpr fun c hc => ?_)
    exact (hearly c hc).not_due (hG.2 c (hlog ▸ hc))

end Steps

/-- The agents of three connections from one address, and the first one closes its connection. -/
def sampleOpenings : List (AddressEvent Unit Nat) :=
  [.search 1 (), .create 1, .threadOpen 1, .threadClose 1, .search 2 (), .threadOpen 2,
    .search 3 (), .threadOpen 3]

/--
With a quota of zero, the first connection after one has been closed is shut down at once; with a
quota of two, the second of two connections shuts down the first.
-/
theorem early_cull : (∃ s, run (logged (step 0)) (new, []) sampleOpenings = some s ∧
      s.2 = [⟨2, [2]⟩, ⟨3, [3]⟩] ∧ ¬ ∀ c ∈ s.2, c.Due 0) ∧
    ∃ s, run (logged (step 2)) (new, []) sampleOpenings = some s ∧
      s.2 = [⟨2, [2, 3]⟩] ∧ ¬ ∀ c ∈ s.2, c.Due 2 := by
  refine ⟨⟨_, rfl, rfl, fun h => ?_⟩, _, rfl, rfl, fun h => ?_⟩
  · exact (h ⟨2, [2]⟩ (by decide)).1 rfl
  · exact absurd (h ⟨2, [2, 3]⟩ (by decide)).2.2 (by decide)

end OpenAmq
