import OpenAmq.Ipr.PasswordTable

/-!
# What guards a password

A password may be used until its quotas or its time are used up. Whether that holds is said with
counts of its own, which zero does not end and which do not go through a file.

* `Guard` — what is left of the quotas of an entry since it was last updated
* `Watched.step` — a table together with these
* `guard_kept` — what holds in every run in which no right password comes late
-/

namespace OpenAmq

open Lib Function Option

/-! ## Quotas that do not end at zero -/

/-- The tries that are left, where none stands for no quota, and whether one came too late -/
structure Guard where
  hitsLeft : Option Nat
  missesLeft : Option Nat
  late : Bool

/-- Whether an entry has an expiry time that is over -/
def Password.past (self : Password) (now : Nat) : Bool := self.expiry ≠ 0 ∧ self.expiry < now

namespace Guard

def free : Guard := ⟨none, none, false⟩

/-- A password that must not be used any more -/
def Spent (self : Guard) : Prop :=
  self.hitsLeft = some 0 ∨ self.missesLeft = some 0 ∨ self.late = true

instance (self : Guard) : Decidable self.Spent := by
  unfold Spent
  infer_instance

def tries (quota : UInt64) : Option Nat := if quota = 0 then none else some quota.toNat

/-- A guard that is set adds the quotas that there are none of. -/
def set (self : Guard) (hitQuota missQuota : UInt64) : Guard :=
  if self.Spent then self
  else { self with
    hitsLeft := self.hitsLeft <|> tries hitQuota
    missesLeft := self.missesLeft <|> tries missQuota }

def attempted (self : Guard) (result : PasswordResult) (past : Bool) : Guard :=
  match result with
  | .ok => { self with hitsLeft := self.hitsLeft.map (· - 1), late := self.late || past }
  | .expired | .incorrect | .badType | .hostile =>
    { self with missesLeft := self.missesLeft.map (· - 1), late := self.late || past }
  | .challenge | .notFound | .badSyntax | .tryAgain => self

end Guard

/-- A table and what is left of the quotas of its entries -/
structure Watched where
  table : PasswordTable
  guards : Str → Guard

namespace Watched

/-- The entry that a call tries, and when -/
def attemptOf (after : PasswordTable) : PasswordEvent → Option (Str × Nat)
  | .basic call => some (after.username.chars, call.now)
  | .digest call => some (PasswordTable.digestKey after.username call.realm, call.now)
  | _ => none

/-- What a call that tries nothing does to the guards -/
def guardsSet (self : Watched) : PasswordEvent → Str → Guard
  | .assume key hash =>
    if (self.table.entries key.chars).elim true (fun entry => hash ≠ entry.hash) then
      update self.guards key.chars .free
    else self.guards
  | .update key _ => update self.guards key .free
  | .guardSet key _ hitQuota missQuota _ =>
    update self.guards key ((self.guards key).set hitQuota missQuota)
  | _ => self.guards

/-- What a call does to the guards, by the table after it -/
def guardsAfter (self : Watched) (after : PasswordTable) (e : PasswordEvent) : Str → Guard :=
  match attemptOf after e with
  | some (key, now) =>
    update self.guards key ((self.guards key).attempted after.result
      ((self.table.entries key).elim false (·.past now)))
  | none => self.guardsSet e

/-- One call -/
def step (c : Ciphers) (self : Watched) (e : PasswordEvent) : Option Watched :=
  (self.table.step c e).map fun after => ⟨after, self.guardsAfter after e⟩

def new : Watched := ⟨.new, fun _ => .free⟩

end Watched

/-! ## An entry and its guard -/

/-- The data of an entry say what its guard says. -/
structure GuardKept (entry : Password) (guard : Guard) : Prop where
  hits : entry.hitQuota.toNat = guard.hitsLeft.getD 0
  misses : entry.missQuota.toNat = guard.missesLeft.getD 0
  spent : entry.expired = true ↔ guard.Spent
  late : guard.late = true → entry.expiry ≠ 0

variable {entry : Password} {now : Nat} {quota : UInt64} {guard : Guard}

theorem expiry_ne_of_past (h : entry.past now = true) : entry.expiry ≠ 0 := by
  unfold Password.past at h
  simp only [ne_eq, decide_eq_true_eq] at h
  exact h.1

theorem tries_left {left : Option Nat} (h : quota.toNat = left.getD 0) :
    (if quota = 0 then 0 else quota - 1).toNat = (left.map (· - 1)).getD 0 ∧
      (left.map (· - 1) = some 0 ↔ left = some 0 ∨ quota = 1) := by
  have hzero : quota = 0 ↔ quota.toNat = 0 := by
    rw [← UInt64.toNat_inj]
    rfl
  have hone : quota = 1 ↔ quota.toNat = 1 := by
    rw [← UInt64.toNat_inj]
    rfl
  have hsub : quota ≠ 0 → (quota - 1).toNat = quota.toNat - 1 := by
    intro hne
    have hle : (1 : UInt64) ≤ quota := by
      rw [UInt64.le_iff_toNat_le]
      exact Nat.pos_of_ne_zero fun hq => hne (hzero.mpr hq)
    exact UInt64.toNat_sub_of_le _ _ hle
  cases left with
  | none =>
    simp [hzero.mpr h]
  | some n =>
    simp only [getD_some] at h
    simp only [map_some, getD_some, some.injEq]
    split
    · next hq =>
      have hn : n = 0 := by rw [← h, hq]; rfl
      simp [hn, hq]
    · next hq =>
      rw [hsub hq, hone, h]
      have hn : quota.toNat ≠ 0 := fun hn => hq (hzero.mpr hn)
      exact ⟨rfl, by omega⟩

theorem runsOut_iff : (entry.expired || entry.runsOut quota now) = true ↔
      entry.expired = true ∨ quota = 1 ∨ entry.past now = true := by
  rw [Bool.or_eq_true]
  simp [Password.runsOut, Password.past]

theorem GuardKept.late_or (h : GuardKept entry guard)
    (hlate : (guard.late || entry.past now) = true) : entry.expiry ≠ 0 := by
  rw [Bool.or_eq_true] at hlate
  rcases hlate with hlate | hpast
  · exact h.late hlate
  · exact expiry_ne_of_past hpast

theorem GuardKept.hit (h : GuardKept entry guard) (now : Nat) (address : Option Str) :
    GuardKept (entry.hit now address) { guard with
        hitsLeft := guard.hitsLeft.map (· - 1), late := guard.late || entry.past now } := by
  obtain ⟨hleft, hzero⟩ := tries_left h.hits
  have hspent := h.spent
  refine ⟨hleft, h.misses, runsOut_iff.trans ?_, h.late_or⟩
  unfold Guard.Spent at hspent ⊢
  simp only [hzero, hspent, Bool.or_eq_true]
  tauto

theorem GuardKept.miss (h : GuardKept entry guard) (now : Nat) (address : Option Str) :
    GuardKept (entry.miss now address) { guard with
        missesLeft := guard.missesLeft.map (· - 1), late := guard.late || entry.past now } := by
  obtain ⟨hleft, hzero⟩ := tries_left h.misses
  have hspent := h.spent
  refine ⟨h.hits, hleft, runsOut_iff.trans ?_, h.late_or⟩
  unfold Guard.Spent at hspent ⊢
  simp only [hzero, hspent, Bool.or_eq_true]
  tauto

theorem GuardKept.attempted (h : GuardKept entry guard) (result : PasswordResult) (now : Nat)
    (address : Option Str) :
    GuardKept (entry.attempted result now address) (guard.attempted result (entry.past now)) := by
  cases result with
  | ok => exact h.hit now address
  | expired | incorrect | badType | hostile => exact h.miss now address
  | challenge | notFound | badSyntax | tryAgain => exact h

theorem tries_set {left : Option Nat} (h : quota.toNat = left.getD 0) (hleft : left ≠ some 0)
    (q : UInt64) :
    (if quota = 0 then q else quota).toNat = (left <|> Guard.tries q).getD 0 ∧
      (left <|> Guard.tries q) ≠ some 0 := by
  have hzero : ∀ n : UInt64, n = 0 ↔ n.toNat = 0 := by
    intro n
    rw [← UInt64.toNat_inj]
    rfl
  cases left with
  | none =>
    rw [if_pos ((hzero _).mpr h)]
    unfold Guard.tries
    split
    · next hq => simp [hq]
    · next hq => simp [hzero] at hq; simp [hq]
  | some n =>
    simp only [getD_some] at h
    have hn : n ≠ 0 := fun hn => hleft (by rw [hn])
    rw [if_neg (by rw [hzero]; omega)]
    simp [h, hn]

theorem GuardKept.guardSet (h : GuardKept entry guard) (now : Nat)
    (hitQuota missQuota timeToLive : UInt64) :
    GuardKept (entry.guardSet now hitQuota missQuota timeToLive)
      (guard.set hitQuota missQuota) := by
  unfold Password.guardSet Guard.set
  by_cases hexpired : entry.expired = true
  · rw [if_pos hexpired, if_pos (h.spent.mp hexpired)]
    exact h
  · have hspent : ¬ guard.Spent := fun hs => hexpired (h.spent.mpr hs)
    rw [if_neg hexpired, if_neg hspent]
    unfold Guard.Spent at hspent
    simp only [not_or] at hspent
    obtain ⟨hhits, hmisses, hlate⟩ := hspent
    have hhits := tries_set h.hits hhits hitQuota
    have hmisses := tries_set h.misses hmisses missQuota
    refine ⟨hhits.1, hmisses.1, ?_, fun hl => absurd hl hlate⟩
    refine iff_of_false hexpired ?_
    rintro (hs | hs | hs)
    · exact hhits.2 hs
    · exact hmisses.2 hs
    · exact hlate hs

theorem guardKept_new (key hash : Str) : GuardKept (.new key hash) .free :=
  ⟨rfl, rfl, by simp [Password.new, Guard.Spent, Guard.free], nofun⟩

theorem guardKept_update (entry : Password) (hash : Str) : GuardKept (entry.update hash) .free :=
  ⟨rfl, rfl, by simp [Password.update, Password.new, Guard.Spent, Guard.free], nofun⟩

theorem GuardKept.restart (h : GuardKept entry guard) (hrestorable : entry.Restorable) :
    GuardKept entry.restart guard := by
  rw [Password.restart_eq_toMinutes hrestorable]
  refine ⟨h.hits, h.misses, h.spent, fun hlate => ?_⟩
  have hne := h.late hlate
  have htime := hrestorable.expiry
  unfold Password.TimeOk at htime
  show Password.toMinute entry.expiry ≠ 0
  unfold Password.toMinute
  omega

/-! ## A run of the table -/

namespace Watched

/-- The entries of the table say what their guards say. -/
def Kept (self : Watched) : Prop :=
  ∀ key entry, self.table.entries key = some entry → GuardKept entry (self.guards key)

/--
A step as it should be: a password is accepted only before it is used up, what is not accepted
takes none of its hits, and a restart takes nothing but the seconds of its times.
-/
def StepKept (self : Watched) (e : PasswordEvent) (next : Watched) : Prop :=
  (∀ key now, attemptOf next.table e = some (key, now) → next.table.result = .ok →
    ∃ entry, self.table.entries key = some entry ∧ ¬ (self.guards key).Spent ∧
      entry.past now = false) ∧
  (∀ attempt, attemptOf next.table e = some attempt → next.table.result ≠ .ok →
    ∀ key entry, self.table.entries key = some entry →
      ∃ entry', next.table.entries key = some entry' ∧ entry'.hits = entry.hits ∧
        entry'.hitQuota = entry.hitQuota) ∧
  ∀ key entry, e = .restart key → self.table.entries key = some entry →
    next.table.entries key = some entry.toMinutes

/-- An entry that has expired had a quota that is used up, or an expiry time and was tried later. -/
def StateKept (self : Watched) : Prop :=
  ∀ key entry, self.table.entries key = some entry → entry.expired = true →
    (self.guards key).hitsLeft = some 0 ∨ (self.guards key).missesLeft = some 0 ∨
      (self.guards key).late = true ∧ entry.expiry ≠ 0

/-- No right password comes after the expiry time of an entry that has not been found to have
expired, and what is written of an entry can be read again. -/
def Sound (c : Ciphers) (self : Watched) : PasswordEvent → Prop
  | .basic call => ∀ key entry, self.table.entries key = some entry → call.Right c key entry →
    entry.expired = false → entry.past call.now = false
  | .digest call => ∀ fields key entry, PasswordTable.responseFields call = some fields →
    self.table.entries key = some entry → call.Right c self.table fields key entry →
    entry.expired = false → entry.past call.now = false
  | .restart key => ∀ entry, self.table.entries key = some entry → entry.Restorable
  | _ => True

variable {self next : Watched} {key : Str} {e : PasswordEvent}

theorem Kept.stateKept (h : self.Kept) : self.StateKept := by
  intro key entry hentry hexpired
  have hkept := h key entry hentry
  rcases hkept.spent.mp hexpired with hs | hs | hs
  · exact .inl hs
  · exact .inr (.inl hs)
  · exact .inr (.inr ⟨hs, hkept.late hs⟩)

theorem Kept.update (h : self.Kept) {f : Password → Password} {g : Guard}
    (hentries : next.table.entries = (self.table.modify key f).entries)
    (hguards : next.guards = update self.guards key g)
    (hf : ∀ entry, self.table.entries key = some entry → GuardKept (f entry) g) : next.Kept := by
  intro k entry hentry
  rw [hentries, PasswordTable.modify_entries] at hentry
  rw [hguards]
  by_cases hk : k = key
  · subst hk
    rw [if_pos rfl] at hentry
    obtain ⟨old, hold, rfl⟩ := map_eq_some_iff.mp hentry
    rw [update_self]
    exact hf old hold
  · rw [if_neg hk] at hentry
    rw [update_of_ne hk]
    exact h k entry hentry

theorem past_of_entry {table : PasswordTable} (h : table.entries key = some entry) (now : Nat) :
    (table.entries key).elim false (·.past now) = entry.past now := by
  rw [h]
  rfl

theorem kept_attempt (h : self.Kept) {address : Option Str}
    (hattempt : attemptOf next.table e = some (key, now))
    (hguards : next.guards = self.guardsAfter next.table e)
    (hentries : next.table.entries =
      (self.table.modify key (·.attempted next.table.result now address)).entries)
    (hok : next.table.result = .ok → ∃ entry, self.table.entries key = some entry ∧
      entry.expired = false ∧ entry.past now = false)
    : self.StepKept e next ∧ next.Kept := by
  refine ⟨⟨?_, ?_, ?_⟩, ?_⟩
  · intro key' now' hattempt' hresult
    rw [hattempt] at hattempt'
    obtain ⟨rfl, rfl⟩ := Prod.mk.inj (some.inj hattempt')
    obtain ⟨entry, hentry, hexpired, hpast⟩ := hok hresult
    refine ⟨entry, hentry, fun hspent => ?_, hpast⟩
    rw [(h _ _ hentry).spent.mpr hspent] at hexpired
    cases hexpired
  · intro _ _ hresult k entry hentry
    rw [hentries, PasswordTable.modify_entries]
    split
    · next hk =>
      subst hk
      rw [hentry]
      refine ⟨_, rfl, ?_⟩
      cases hcase : next.table.result with
      | ok => exact absurd hcase hresult
      | _ => exact ⟨rfl, rfl⟩
    · exact ⟨entry, hentry, rfl, rfl⟩
  · rintro k entry rfl
    cases hattempt
  · rw [guardsAfter, hattempt] at hguards
    refine h.update hentries hguards fun entry hentry => ?_
    rw [past_of_entry hentry]
    exact (h _ _ hentry).attempted _ _ _

theorem stepKept_other (hattempt : attemptOf next.table e = none)
    (hrestart : ∀ key, e ≠ .restart key) : self.StepKept e next := by
  refine ⟨?_, ?_, ?_⟩
  · intro _ _ h
    rw [hattempt] at h
    cases h
  · intro _ h
    rw [hattempt] at h
    cases h
  · intro key _ h
    exact absurd h (hrestart key)

theorem Kept.assume (h : self.Kept) {key : Shortstr} {hash : Str}
    (htable : next.table = self.table.assume key hash)
    (hguards : next.guards =
      if (self.table.entries key.chars).elim true (fun entry => hash ≠ entry.hash) then
        Function.update self.guards key.chars .free
      else self.guards) :
    next.Kept := by
  unfold PasswordTable.assume at htable
  cases hentry : self.table.entries key.chars with
  | some old =>
    rw [hentry] at htable hguards
    simp only [elim_some, ne_eq, decide_not, Bool.not_eq_true', decide_eq_false_iff_not]
      at htable hguards
    by_cases hchange : hash = old.hash
    · rw [if_neg (not_not.mpr hchange)] at htable hguards
      unfold Kept
      rwa [htable, hguards]
    · rw [if_pos hchange] at htable hguards
      exact h.update (congrArg PasswordTable.entries htable) hguards
        fun entry _ => guardKept_update entry hash
  | none =>
    rw [hentry] at htable hguards
    simp only [elim_none, if_true] at htable hguards
    intro k entry hk
    rw [htable] at hk
    simp only [update_apply] at hk
    rw [hguards, update_apply]
    split at hk
    · next hkey =>
      rw [if_pos hkey, ← some.inj hk]
      exact guardKept_new _ _
    · next hkey =>
      rw [if_neg hkey]
      exact h k entry hk

/-- A sound event leaves entries that say what their guards say. -/
theorem Kept.step {c : Ciphers} (h : self.Kept) (hsound : self.Sound c e)
    (hstep : self.step c e = some next) : self.StepKept e next ∧ next.Kept := by
  obtain ⟨after, hafter, rfl⟩ := map_eq_some_iff.mp hstep
  cases e with
  | basic call =>
    cases hafter
    obtain ⟨hentries, haccepts⟩ := PasswordTable.entries_basic (c := c) self.table call
    refine kept_attempt h rfl rfl hentries fun hok => ?_
    obtain ⟨entry, hentry, hexpired, hright⟩ := haccepts hok
    exact ⟨entry, hentry, hexpired, hsound _ _ hentry hright hexpired⟩
  | digest call =>
    obtain ⟨⟨after, challenge⟩, hdigest, rfl⟩ := map_eq_some_iff.mp hafter
    obtain ⟨hentries, haccepts⟩ := PasswordTable.entries_digest hdigest
    refine kept_attempt h rfl rfl hentries fun hok => ?_
    obtain ⟨fields, entry, hfields, hentry, hexpired, hright⟩ := haccepts hok
    exact ⟨entry, hentry, hexpired, hsound _ _ _ hfields hentry hright hexpired⟩
  | assume key hash =>
    cases hafter
    exact ⟨stepKept_other rfl nofun, h.assume rfl rfl⟩
  | update key hash =>
    cases hafter
    refine ⟨stepKept_other rfl nofun, ?_⟩
    exact h.update rfl rfl fun entry _ => guardKept_update entry hash
  | guardSet key now hitQuota missQuota timeToLive =>
    cases hafter
    refine ⟨stepKept_other rfl nofun, ?_⟩
    exact h.update rfl rfl fun entry hentry => (h _ _ hentry).guardSet _ _ _ _
  | restart key =>
    cases hafter
    have hguards : self.guards = Function.update self.guards key (self.guards key) :=
      (Function.update_eq_self _ _).symm
    refine ⟨⟨nofun, nofun, ?_⟩, ?_⟩
    · rintro key' entry ⟨⟩ hentry
      rw [PasswordTable.modify_entries, if_pos rfl, hentry, map_some,
        Password.restart_eq_toMinutes (hsound entry hentry)]
    · exact h.update rfl hguards fun entry hentry => (h _ _ hentry).restart (hsound entry hentry)
  | setNonceTtl ttl | setNonceQuota quota | setNonceTest now value =>
    cases hafter
    exact ⟨stepKept_other rfl nofun, h⟩

theorem kept_new : new.Kept := by
  intro key entry hentry
  cases hentry

/--
In every run of a table, whatever is called in which order, passwords are accepted only before
their quotas and their time are used up, expire for no other reason, and come through a restart,
provided that no right password comes after the expiry time of an entry that has not been found
to have expired, and that at a restart counts fit into an `int`.
-/
theorem guard_kept {c : Ciphers} {es before after : List PasswordEvent} {e : PasswordEvent}
    {self next : Watched} (hsound : Along (step c) (Sound c) new es)
    (hes : es = before ++ e :: after) (hrun : run (step c) new before = some self)
    (hstep : self.step c e = some next) : self.StepKept e next ∧ next.StateKept := by
  subst hes
  have hkept : self.Kept :=
    run_invariant (fun _ _ _ h hsound hstep => (h.step hsound hstep).2) kept_new
      hsound.left_of_append hrun
  obtain ⟨hstepKept, hnext⟩ := hkept.step (hsound.of_append hrun).1 hstep
  exact ⟨hstepKept, hnext.stateKept⟩

/-- The functions of a table, as far as they are used for one user -/
def sampleCiphers : Ciphers where
  md5 _ := []
  base64Decode s :=
    if s = "QWw6cHc=".toList then "Al:pw".toList
    else if s = "QWw6eHg=".toList then "Al:xx".toList
    else []
  passwordValidate _ _ := false

def sampleUser : Shortstr := .cpy "Al".toList

def sampleBasic (credentials : Str) (now : Nat) : BasicCall :=
  ⟨now, some "10.0.0.1".toList, "r".toList, some ("Basic ".toList ++ credentials)⟩

/-- The right password of the user -/
def sampleCall (now : Nat) : PasswordEvent := .basic (sampleBasic "QWw6cHc=".toList now)

/-- A wrong one -/
def sampleMiss (now : Nat) : PasswordEvent := .basic (sampleBasic "QWw6eHg=".toList now)

/-- An entry for two hits, three misses and one hour, of which a miss and a hit are used before
the restart -/
def guardedCalls : List PasswordEvent :=
  [.assume sampleUser "pw".toList, .guardSet "Al".toList 100000000 2 3 3600,
    sampleMiss 120000000, sampleCall 200000000, .restart "Al".toList]

theorem sound_sampleBasic {self : Watched} {credentials : Str} (password : Str) {now : Nat}
    (hresponse : defix (sampleBasic credentials now).response "Basic " = some credentials)
    (hdecoded : PasswordTable.splitColon (sampleCiphers.base64Decode credentials) =
      some ("Al".toList, password))
    (hpast : (self.table.entries "Al".toList).elim false (·.past now) = false) :
    self.Sound sampleCiphers (.basic (sampleBasic credentials now)) := by
  rintro key entry hentry ⟨response, username, given, hr, hd, rfl, -, -⟩ -
  obtain rfl := some.inj (hresponse.symm.trans hr)
  obtain ⟨rfl, -⟩ := Prod.mk.inj (some.inj (hdecoded.symm.trans hd))
  have hkey : (Shortstr.cpy "Al".toList).chars = "Al".toList := by decide +kernel
  rw [hkey] at hentry
  rwa [hentry] at hpast

/-- What has been written of the entry before the restart -/
def guardedPassword : Password where
  hash := "pw".toList
  type := .basic
  hits := 1
  hitQuota := 1
  misses := 1
  missQuota := 2
  expiry := 3700000000
  hitTime := 200000000
  missTime := 120000000
  hitFrom := .cpy "10.0.0.1".toList
  missFrom := .cpy "10.0.0.1".toList
  expired := false

theorem addressOk_of_all {address : Shortstr} (h : address.chars.all fun c => !Password.isSpace c) :
    Password.AddressOk address := by
  intro c hc
  have hspace := List.all_eq_true.mp h c hc
  rwa [Bool.not_eq_true'] at hspace

theorem restorable_guardedPassword : guardedPassword.Restorable where
  hits := .inl (by decide)
  hitQuota := .inl (by decide)
  misses := .inl (by decide)
  missQuota := .inl (by decide)
  expiry := .inr (by decide)
  hitTime := .inr (by decide)
  missTime := .inr (by decide)
  hitFrom := addressOk_of_all (by decide +kernel)
  missFrom := addressOk_of_all (by decide +kernel)

theorem sound_guardedCalls : Along (step sampleCiphers) (Sound sampleCiphers) new
    (guardedCalls ++ [sampleCall 300000000]) := by
  refine ⟨trivial, fun s1 h1 => ⟨trivial, fun s2 h2 => ⟨?_, fun s3 h3 => ⟨?_, fun s4 h4 =>
    ⟨?_, fun s5 h5 => ⟨?_, fun _ _ => trivial⟩⟩⟩⟩⟩⟩
  all_goals obtain rfl := some.inj h1
  all_goals obtain rfl := some.inj h2
  · exact sound_sampleBasic "xx".toList (by decide +kernel) (by decide +kernel) (by decide +kernel)
  all_goals obtain rfl := some.inj h3
  · exact sound_sampleBasic "pw".toList (by decide +kernel) (by decide +kernel) (by decide +kernel)
  all_goals obtain rfl := some.inj h4
  · intro entry hentry
    have hknown := hentry.symm.trans
      (by decide +kernel : _ = some guardedPassword)
    exact some.inj hknown ▸ restorable_guardedPassword
  · obtain rfl := some.inj h5
    exact sound_sampleBasic "pw".toList (by decide +kernel) (by decide +kernel) (by decide +kernel)

/-- The second hit comes after a restart. It is accepted, and uses up the quota. -/
theorem guard_kept_sample : ∃ self next,
    run (step sampleCiphers) new guardedCalls = some self ∧
    self.step sampleCiphers (sampleCall 300000000) = some next ∧ next.table.result = .ok ∧
    (next.table.entries "Al".toList).map Password.expired = some true ∧
    self.StepKept (sampleCall 300000000) next ∧ next.StateKept := by
  have hes : guardedCalls ++ [sampleCall 300000000] =
      guardedCalls ++ sampleCall 300000000 :: [] := rfl
  exact ⟨_, _, rfl, rfl, by decide +kernel, by decide +kernel,
    guard_kept sound_guardedCalls hes rfl rfl⟩

/-- The first right password after the expiry time is accepted. -/
theorem late_password_accepted : ∃ self next, run (step sampleCiphers) new
      [.assume sampleUser "pw".toList, .guardSet "Al".toList 0 0 0 1] = some self ∧
    self.step sampleCiphers (sampleCall 2000000) = some next ∧ next.table.result = .ok ∧
    ¬ self.StepKept (sampleCall 2000000) next := by
  refine ⟨_, _, rfl, rfl, by decide +kernel, fun hkept => ?_⟩
  obtain ⟨entry, hentry, -, hpast⟩ := hkept.1 _ _ rfl (by decide +kernel)
  change entry.past 2000000 = false at hpast
  have hlate := congrArg (Option.map (Password.past · 2000000)) hentry
  rw [Option.map_some, hpast] at hlate
  exact absurd hlate (by decide +kernel)

end Watched

end OpenAmq
