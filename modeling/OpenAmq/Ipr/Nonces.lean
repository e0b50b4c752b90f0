import OpenAmq.Ipr.PasswordTable

/-!
# Nonces

A nonce that a table has issued is good for a time and for a number of requests, and each of these
should count further than the one before. Counts are never kept, so that is up to the clients.

* `Audited.step` — a table, and what it has issued and accepted
* `Excluded` — what is expected of these
* `replays_excluded_iff` — which runs are as expected
-/

namespace OpenAmq

open Lib List Function PasswordTable Option

/-! ## What has been issued and accepted -/

/-- A nonce, with the settings of the table when it was issued -/
structure Issue where
  key : Str
  now : Nat
  ttl : UInt64
  quota : UInt64

/-- A call whose credentials have been accepted, with the entry as it was -/
structure Acceptance where
  call : DigestCall
  entry : Option Password

def countOf (fields : Fields) : Int := (strtoull16 (fieldOf fields "nc") : Int).bmod (2 ^ 64)

namespace Acceptance

def fields (self : Acceptance) : Fields := (responseFields self.call).getD []

def nonce (self : Acceptance) : Str := fieldOf self.fields "nonce"

def count (self : Acceptance) : Int := countOf self.fields

end Acceptance

/-- The response that is asked for, with the digests of the whole texts -/
def rfcResponse (c : Ciphers) (fields : Fields) (call : DigestCall) (entry : Password) : Str :=
  c.md5 (responseText fields entry (c.md5 (call.method ++ ':' :: call.uri)))

/-- The response is the one for an entry that had not expired. -/
def Acceptance.Right (c : Ciphers) (self : Acceptance) : Prop :=
  ∃ entry, self.entry = some entry ∧ entry.expired = false ∧
    fieldOf self.fields "response" = rfcResponse c self.fields self.call entry

/-- A table, and what it has issued and accepted, the latest first -/
structure Audited where
  table : PasswordTable
  issued : List Issue
  accepted : List Acceptance

namespace Audited

/-- A table with any passwords, which has issued nothing yet -/
def new (entries : Str → Option Password) : Audited := ⟨{ PasswordTable.new with entries }, [], []⟩

def issuedAfter (self : Audited) (after : PasswordTable) : PasswordEvent → List Issue
  | .digest call =>
    if after.result ≠ .ok ∧ self.table.nonceTest = none then
      ⟨call.key, call.now, self.table.nonceTtl, self.table.nonceQuota⟩ :: self.issued
    else self.issued
  | .setNonceTest now value =>
    if (self.table.nonces value.chars).isSome then self.issued
    else ⟨value.chars, now, self.table.nonceTtl, self.table.nonceQuota⟩ :: self.issued
  | _ => self.issued

def acceptedAfter (self : Audited) (after : PasswordTable) : PasswordEvent → List Acceptance
  | .digest call =>
    if after.result = .ok then
      ⟨call, self.table.entries (digestKey after.username call.realm)⟩ :: self.accepted
    else self.accepted
  | _ => self.accepted

/-- One call -/
def step (c : Ciphers) (self : Audited) (e : PasswordEvent) : Option Audited :=
  (self.table.step c e).map fun after =>
    ⟨after, self.issuedAfter after e, self.acceptedAfter after e⟩

/-- How often a nonce has been accepted -/
def uses (self : Audited) (nonce : Str) : Nat := self.accepted.countP (·.nonce = nonce)

/--
Replay is excluded: what has been accepted had a nonce of the table in its time, no more often than
its quota says, with the right response, and counts that go up, so that no header has been accepted
twice.
-/
structure Excluded (c : Ciphers) (s : Audited) : Prop where
  issued : ∀ a ∈ s.accepted, ∃ i ∈ s.issued, i.key = a.nonce ∧
    (i.ttl ≠ 0 → a.call.now ≤ i.now + i.ttl.toNat * 1000000)
  quota : ∀ i ∈ s.issued, i.quota ≠ 0 → s.uses i.key ≤ i.quota.toNat
  right : ∀ a ∈ s.accepted, a.Right c
  counts : s.accepted.Pairwise fun later earlier =>
    later.nonce = earlier.nonce → earlier.count < later.count
  once : s.accepted.Pairwise fun later earlier => later.call.response ≠ earlier.call.response

/-- The random key of a new nonce is none that there has been before. -/
def Fresh (self : Audited) : PasswordEvent → Prop
  | .digest call => ∀ i ∈ self.issued, i.key ≠ call.key
  | .setNonceTest _ value => (self.table.nonces value.chars).isSome = true ∨
    ∀ i ∈ self.issued, i.key ≠ value.chars
  | _ => True

/-- Credentials that are right count further than all that have been accepted with their nonce, and
their response does not depend on what is cut off. -/
def Unused (c : Ciphers) (self : Audited) : PasswordEvent → Prop
  | .digest call => ∀ fields key entry, responseFields call = some fields →
    self.table.entries key = some entry → entry.expired = false →
    call.Right c self.table fields key entry →
      (∀ a ∈ self.accepted, a.nonce = fieldOf fields "nonce" → a.count < countOf fields) ∧
      expectedResponse c fields call entry = rfcResponse c fields call entry
  | _ => True

/-! ## What a table keeps to -/

/-- What is expected, and what the nonces of the table have to do with it -/
structure Kept (c : Ciphers) (s : Audited) : Prop where
  excluded : s.Excluded c
  live : ∀ key nonce, s.table.nonces key = some nonce → ∃ i ∈ s.issued, i.key = key
  left : ∀ i ∈ s.issued, ∀ nonce, s.table.nonces i.key = some nonce →
    nonce.expiry = expiryTime i.now i.ttl ∧ s.uses i.key + nonce.quota.toNat ≤ i.quota.toNat
  within : ∀ i ∈ s.issued, s.uses i.key ≤ i.quota.toNat

theorem kept_new (c : Ciphers) (entries : Str → Option Password) : (new entries).Kept c where
  excluded :=
    { issued := nofun
      quota := nofun
      right := nofun
      counts := .nil
      once := .nil }
  live := nofun
  left := nofun
  within := nofun

theorem expiryTime_le (now : Nat) (ttl : UInt64) :
    expiryTime now ttl ≤ now + ttl.toNat * 1000000 := by
  rw [expiryTime, Int.bmod_def]
  split <;> omega

section Steps

variable {c : Ciphers} {self next : Audited}

theorem Kept.shrink (h : self.Kept c) (hissued : next.issued = self.issued)
    (haccepted : next.accepted = self.accepted)
    (hnonces : ∀ key nonce', next.table.nonces key = some nonce' →
      ∃ nonce, self.table.nonces key = some nonce ∧ nonce'.expiry = nonce.expiry ∧
        nonce'.quota.toNat ≤ nonce.quota.toNat) : next.Kept c := by
  have huses : ∀ key, next.uses key = self.uses key := by
    intro key
    rw [uses, haccepted, uses]
  obtain ⟨⟨hissuedOk, hquota, hright, hcounts, honce⟩, hlive, hleft, hwithin⟩ := h
  refine ⟨⟨?_, ?_, ?_, ?_, ?_⟩, ?_, ?_, ?_⟩
  · rwa [haccepted, hissued]
  · simpa only [hissued, huses] using hquota
  · rwa [haccepted]
  · rwa [haccepted]
  · rwa [haccepted]
  · intro key nonce' hnonce'
    obtain ⟨nonce, hnonce, -⟩ := hnonces key nonce' hnonce'
    rw [hissued]
    exact hlive key nonce hnonce
  · intro i hi nonce' hnonce'
    rw [hissued] at hi
    obtain ⟨nonce, hnonce, hexpiry, hle⟩ := hnonces i.key nonce' hnonce'
    obtain ⟨hexpiry', hle'⟩ := hleft i hi nonce hnonce
    rw [huses]
    exact ⟨hexpiry.trans hexpiry', by omega⟩
  · simpa only [hissued, huses] using hwithin

theorem Kept.uses_fresh (h : self.Kept c) {key : Str} (hfresh : ∀ i ∈ self.issued, i.key ≠ key) :
    self.uses key = 0 := by
  rw [uses, countP_eq_zero]
  intro a ha hkey
  obtain ⟨i, hi, hikey, -⟩ := h.excluded.issued a ha
  exact hfresh i hi (hikey.trans (of_decide_eq_true hkey))

theorem Kept.issue (h : self.Kept c) {i : Issue} (hfresh : ∀ j ∈ self.issued, j.key ≠ i.key)
    (hissued : next.issued = i :: self.issued) (haccepted : next.accepted = self.accepted)
    (hnonces : next.table.nonces =
      update self.table.nonces i.key (some (.new i.now i.ttl i.quota))) :
    next.Kept c := by
  have huses : ∀ key, next.uses key = self.uses key := by
    intro key
    rw [uses, haccepted, uses]
  have hzero := h.uses_fresh hfresh
  obtain ⟨⟨hissuedOk, hquota, hright, hcounts, honce⟩, hlive, hleft, hwithin⟩ := h
  refine ⟨⟨?_, ?_, ?_, ?_, ?_⟩, ?_, ?_, ?_⟩
  · intro a ha
    rw [haccepted] at ha
    obtain ⟨j, hj, hrest⟩ := hissuedOk a ha
    exact ⟨j, hissued ▸ mem_cons_of_mem i hj, hrest⟩
  · rw [hissued, forall_mem_cons]
    refine ⟨fun _ => ?_, fun j hj => ?_⟩
    · rw [huses, hzero]
      exact Nat.zero_le _
    · rw [huses]
      exact hquota j hj
  · rwa [haccepted]
  · rwa [haccepted]
  · rwa [haccepted]
  · intro key nonce hnonce
    rw [hnonces, update_apply] at hnonce
    rw [hissued]
    split at hnonce
    · next hkey => exact ⟨i, mem_cons_self, hkey.symm⟩
    · obtain ⟨j, hj, hjkey⟩ := hlive key nonce hnonce
      exact ⟨j, mem_cons_of_mem i hj, hjkey⟩
  · rw [hissued, forall_mem_cons]
    refine ⟨fun nonce hnonce => ?_, fun j hj nonce hnonce => ?_⟩
    · rw [hnonces, update_self] at hnonce
      cases hnonce
      rw [huses, hzero, Nat.zero_add]
      simp only [Nonce.new]
      exact ⟨trivial, Nat.le_refl _⟩
    · rw [hnonces, update_of_ne (hfresh j hj)] at hnonce
      rw [huses]
      exact hleft j hj nonce hnonce
  · rw [hissued, forall_mem_cons]
    refine ⟨?_, fun j hj => ?_⟩
    · rw [huses, hzero]
      exact Nat.zero_le _
    · rw [huses]
      exact hwithin j hj

/-- Credentials that are accepted for a good nonce, and have not been used before. -/
theorem Kept.accept (h : self.Kept c) {a : Acceptance} {nonce : Nonce}
    (hnonce : self.table.nonces a.nonce = some nonce)
    (hgood : (nonce.expired a.call.now).1 = false) (hright : a.Right c)
    (hcounts : ∀ b ∈ self.accepted, b.nonce = a.nonce → b.count < a.count)
    (hissued : next.issued = self.issued) (haccepted : next.accepted = a :: self.accepted)
    (hnonces : next.table.nonces =
      update self.table.nonces a.nonce (some (nonce.expired a.call.now).2)) :
    next.Kept c := by
  obtain ⟨hexpiry, hquota, hnow⟩ := PasswordTable.Nonce.expired_spec hgood
  have huses : ∀ key, next.uses key = self.uses key + if a.nonce = key then 1 else 0 := by
    intro key
    rw [uses, haccepted, uses, countP_cons]
    simp
  have hwithin : ∀ i ∈ next.issued, next.uses i.key ≤ i.quota.toNat := by
    intro i hi
    rw [hissued] at hi
    rw [huses]
    split
    · next hkey =>
      have := (h.left i hi nonce (hkey ▸ hnonce)).2
      omega
    · exact h.within i hi
  refine ⟨⟨?_, fun i hi _ => hwithin i hi, ?_, ?_, ?_⟩, ?_, ?_, hwithin⟩
  · rw [haccepted, hissued, forall_mem_cons]
    refine ⟨?_, h.excluded.issued⟩
    obtain ⟨i, hi, hkey⟩ := h.live a.nonce nonce hnonce
    refine ⟨i, hi, hkey, fun _ => ?_⟩
    have hexpiry := (h.left i hi nonce (hkey ▸ hnonce)).1
    have hle := expiryTime_le i.now i.ttl
    omega
  · rw [haccepted, forall_mem_cons]
    exact ⟨hright, h.excluded.right⟩
  · rw [haccepted, pairwise_cons]
    exact ⟨fun b hb hkey => hcounts b hb hkey.symm, h.excluded.counts⟩
  · rw [haccepted, pairwise_cons]
    refine ⟨fun b hb hsame => ?_, h.excluded.once⟩
    have hfields : b.fields = a.fields := by
      simp only [Acceptance.fields, responseFields, hsame]
    have hlt := hcounts b hb (by rw [Acceptance.nonce, hfields, Acceptance.nonce])
    rw [Acceptance.count, Acceptance.count, hfields] at hlt
    exact Int.lt_irrefl _ hlt
  · intro key nonce' hkey
    rw [hnonces, update_apply] at hkey
    rw [hissued]
    split at hkey
    · next hsame => exact hsame ▸ h.live a.nonce nonce hnonce
    · exact h.live key nonce' hkey
  · intro i hi nonce' hkey
    rw [hissued] at hi
    rw [hnonces, update_apply] at hkey
    rw [huses]
    split at hkey
    · next hsame =>
      cases hkey
      obtain ⟨hexpiry', hle⟩ := h.left i hi nonce (hsame ▸ hnonce)
      rw [if_pos hsame.symm]
      exact ⟨hexpiry.trans hexpiry', by omega⟩
    · next hne =>
      rw [if_neg fun hsame => hne hsame.symm]
      exact h.left i hi nonce' hkey

end Steps

/-! ## The steps of a run -/

section Run

variable {c : Ciphers} {self next : Audited} {call : DigestCall}

theorem accepted_spec {t : PasswordTable} {challenge : Option Str}
    (hdigest : self.table.digest c call = some (t, challenge)) (hok : t.result = .ok) :
    ∃ fields entry, responseFields call = some fields ∧
      self.table.entries (digestKey t.username call.realm) = some entry ∧
      entry.expired = false ∧
      call.Right c self.table fields (digestKey t.username call.realm) entry ∧
      ∃ nonce, self.table.nonces (fieldOf fields "nonce") = some nonce ∧
        (nonce.expired call.now).1 = false ∧
        t.nonces = update self.table.nonces (fieldOf fields "nonce")
          (some (nonce.expired call.now).2) := by
  obtain ⟨fields, entry, hfields, hentry, hexpired, hright⟩ := (entries_digest hdigest).2 hok
  refine ⟨fields, entry, hfields, hentry, hexpired, hright, ?_⟩
  obtain ⟨checked, stale, hreply, hchecked⟩ := digest_cases hdigest
  obtain ⟨-, hresult, -, -, -, -, hnonces⟩ := digestReply_spec hreply
  rw [hok] at hresult
  rcases hchecked with ⟨hnone, -⟩ | ⟨fields', hfields', rfl⟩
  · rw [hfields] at hnone
    cases hnone
  · obtain rfl := some.inj (hfields'.symm.trans hfields)
    rcases hnonces with ⟨hsame, -⟩ | ⟨-, hbad, -⟩
    · rw [hsame]
      rcases nonces_digestCheck (c := c) { self.table with
        username := .empty, realm := .empty, result := .badSyntax } call fields' with
          ⟨hbad, -⟩ | hnonce
      · exact absurd hresult.symm hbad
      · exact hnonce
    · exact absurd hresult.symm hbad

theorem checked_spec {checked : PasswordTable}
    (h : responseFields call = none ∧ checked.result ≠ .ok ∧
        checked.nonces = self.table.nonces ∧ checked.nonceTest = self.table.nonceTest ∧
        checked.nonceTtl = self.table.nonceTtl ∧ checked.nonceQuota = self.table.nonceQuota ∨
      ∃ fields, responseFields call = some fields ∧ checked = digestCheck c { self.table with
          username := .empty, realm := .empty, result := .badSyntax } call fields) :
    (checked.nonceTest = self.table.nonceTest ∧ checked.nonceTtl = self.table.nonceTtl ∧
      checked.nonceQuota = self.table.nonceQuota) ∧
    ∀ key nonce', checked.nonces key = some nonce' →
      ∃ nonce, self.table.nonces key = some nonce ∧ nonce'.expiry = nonce.expiry ∧
        nonce'.quota.toNat ≤ nonce.quota.toNat := by
  rcases h with ⟨-, -, hnonces, hsettings⟩ | ⟨fields, -, rfl⟩
  · refine ⟨hsettings, fun key nonce' hkey => ?_⟩
    exact ⟨nonce', hnonces ▸ hkey, rfl, Nat.le_refl _⟩
  · obtain ⟨htest, httl, hquota, -⟩ := settings_digestCheck (c := c)
      { self.table with username := .empty, realm := .empty, result := .badSyntax }
      call fields
    refine ⟨⟨htest, httl, hquota⟩, fun key nonce' hkey => ?_⟩
    rcases nonces_digestCheck (c := c) { self.table with
      username := .empty, realm := .empty, result := .badSyntax } call fields with
        ⟨-, hnonces | hnonces⟩ | ⟨nonce, hnonce, hgood, hnonces⟩
    · exact ⟨nonce', hnonces ▸ hkey, rfl, Nat.le_refl _⟩
    · rw [hnonces, update_apply] at hkey
      split at hkey
      · cases hkey
      · exact ⟨nonce', hkey, rfl, Nat.le_refl _⟩
    · rw [hnonces, update_apply] at hkey
      split at hkey
      · next hsame =>
        cases hkey
        obtain ⟨hexpiry, hquota, -⟩ := PasswordTable.Nonce.expired_spec hgood
        exact ⟨nonce, hsame ▸ hnonce, hexpiry, by omega⟩
      · exact ⟨nonce', hkey, rfl, Nat.le_refl _⟩

/-- Right credentials are accepted within their time and quota, and count up. -/
theorem Kept.digest (h : self.Kept c) (hfresh : self.Fresh (.digest call))
    (hunused : self.Unused c (.digest call)) (hstep : self.step c (.digest call) = some next) :
    next.Kept c := by
  obtain ⟨t, ht, rfl⟩ := map_eq_some_iff.mp hstep
  obtain ⟨⟨t, challenge⟩, hdigest, rfl⟩ := map_eq_some_iff.mp ht
  by_cases hok : t.result = .ok
  · obtain ⟨fields, entry, hfields, hentry, hexpired, hright, nonce, hnonce, hgood, hnonces⟩ :=
      accepted_spec hdigest hok
    obtain ⟨hcounts, hwhole⟩ := hunused fields _ entry hfields hentry hexpired hright
    have hfieldsOf : (Acceptance.mk call (some entry)).fields = fields := by
      rw [Acceptance.fields, hfields, getD_some]
    have hnonceOf : (Acceptance.mk call (some entry)).nonce = fieldOf fields "nonce" := by
      rw [Acceptance.nonce, hfieldsOf]
    have hcountOf : (Acceptance.mk call (some entry)).count = countOf fields := by
      rw [Acceptance.count, hfieldsOf]
    have hresponse : fieldOf fields "response" = rfcResponse c fields call entry := by
      obtain ⟨-, _, -, -, -, hresponse⟩ := hright
      rw [← hresponse, hwhole]
    refine h.accept (a := ⟨call, some entry⟩) (hnonceOf ▸ hnonce) hgood
      ⟨entry, rfl, hexpired, by rw [hfieldsOf]; exact hresponse⟩ ?_ ?_ ?_ ?_
    · rw [hnonceOf, hcountOf]
      exact hcounts
    · simp only [issuedAfter]
      rw [if_neg fun hbad => hbad.1 hok]
    · simp only [acceptedAfter]
      rw [if_pos hok, hentry]
    · rw [hnonceOf]
      exact hnonces
  · obtain ⟨checked, stale, hreply, hchecked⟩ := digest_cases hdigest
    obtain ⟨⟨htest, httl, hquota⟩, hshrink⟩ := checked_spec hchecked
    obtain ⟨-, hresult, -, -, -, -, hnonces⟩ := digestReply_spec hreply
    have haccepted : self.acceptedAfter t (.digest call) = self.accepted := by
      simp only [acceptedAfter]
      rw [if_neg hok]
    rcases hnonces with ⟨hsame, hwhy⟩ | ⟨hnew, -, hnone, -⟩
    · have htested : self.table.nonceTest ≠ none := by
        rcases hwhy with hbad | hsome
        · exact absurd (hresult.trans hbad) hok
        · intro hnone
          rw [htest, hnone] at hsome
          cases hsome
      have hissued : self.issuedAfter t (.digest call) = self.issued := by
        simp only [issuedAfter]
        rw [if_neg fun hboth => htested hboth.2]
      refine h.shrink hissued haccepted fun key nonce' hkey => hshrink key nonce' ?_
      rw [← hsame]
      exact hkey
    · have hissued : self.issuedAfter t (.digest call) =
          ⟨call.key, call.now, self.table.nonceTtl, self.table.nonceQuota⟩ :: self.issued := by
        simp only [issuedAfter]
        rw [if_pos ⟨hok, htest ▸ hnone⟩]
      have hmid : Kept c ⟨checked, self.issued, self.accepted⟩ := h.shrink rfl rfl hshrink
      refine hmid.issue (i := ⟨call.key, call.now, self.table.nonceTtl, self.table.nonceQuota⟩)
        hfresh hissued haccepted ?_
      rw [hnew, httl, hquota]

theorem Kept.setNonceTest (h : self.Kept c) {now : Nat} {value : Shortstr}
    (hfresh : self.Fresh (.setNonceTest now value))
    (hstep : self.step c (.setNonceTest now value) = some next) : next.Kept c := by
  cases hstep
  by_cases hlive : (self.table.nonces value.chars).isSome = true
  · refine h.shrink ?_ rfl fun key nonce' hkey => ⟨nonce', ?_, rfl, Nat.le_refl _⟩
    · simp only [issuedAfter, if_pos hlive]
    · simpa only [setNonceTest, if_pos hlive] using hkey
  · have hnew := hfresh.resolve_left hlive
    refine h.issue (i := ⟨value.chars, now, self.table.nonceTtl, self.table.nonceQuota⟩) hnew ?_
      rfl ?_
    · simp only [issuedAfter, if_neg hlive]
    · simp only [setNonceTest, if_neg hlive]

theorem Kept.other (h : self.Kept c) (hissued : next.issued = self.issued)
    (haccepted : next.accepted = self.accepted)
    (hnonces : next.table.nonces = self.table.nonces) : next.Kept c :=
  h.shrink hissued haccepted fun _ nonce' hkey => ⟨nonce', hnonces ▸ hkey, rfl, Nat.le_refl _⟩

/-- With fresh keys and counts that go up, an event keeps replay excluded. -/
theorem Kept.step (h : self.Kept c) {e : PasswordEvent} (hfresh : self.Fresh e)
    (hunused : self.Unused c e) : ∃ next, self.step c e = some next ∧ next.Kept c := by
  cases e with
  | digest call =>
    have hfree : self.table.nonces call.key = none := by
      cases hkey : self.table.nonces call.key with
      | none => rfl
      | some nonce =>
        obtain ⟨i, hi, hikey⟩ := h.live call.key nonce hkey
        exact absurd hikey (hfresh i hi)
    obtain ⟨out, hout⟩ := isSome_iff_exists.mp (digest_isSome (c := c) hfree)
    have hstep : self.step c (.digest call) =
        some ⟨out.1, self.issuedAfter out.1 (.digest call),
          self.acceptedAfter out.1 (.digest call)⟩ := by
      rw [Audited.step, PasswordTable.step, hout]
      rfl
    exact ⟨_, hstep, h.digest hfresh hunused hstep⟩
  | setNonceTest now value => exact ⟨_, rfl, h.setNonceTest hfresh rfl⟩
  | basic call =>
    exact ⟨_, rfl, h.other rfl rfl (nonces_basic call)⟩
  | assume key hash =>
    refine ⟨_, rfl, h.other rfl rfl ?_⟩
    unfold PasswordTable.assume
    split
    · split <;> rfl
    · rfl
  | update key hash | guardSet key now hitQuota missQuota timeToLive | restart key
  | setNonceTtl ttl | setNonceQuota quota => exact ⟨_, rfl, h.other rfl rfl rfl⟩

theorem unused_of_excluded {e : PasswordEvent} (hstep : self.step c e = some next)
    (hexcluded : next.Excluded c) : self.Unused c e := by
  cases e with
  | digest call =>
    intro fields key entry hfields hentry hexpired hright
    obtain ⟨t, ht, rfl⟩ := map_eq_some_iff.mp hstep
    obtain ⟨⟨t, challenge⟩, hdigest, rfl⟩ := map_eq_some_iff.mp ht
    have hok : t.result = .ok := by
      obtain ⟨checked, stale, hreply, hchecked⟩ := digest_cases hdigest
      obtain ⟨-, hresult, -⟩ := digestReply_spec hreply
      rcases hchecked with ⟨hnone, -⟩ | ⟨fields', hfields', rfl⟩
      · rw [hfields] at hnone
        cases hnone
      · obtain rfl := some.inj (hfields'.symm.trans hfields)
        rw [hresult]
        exact digestCheck_of_right { self.table with
          username := .empty, realm := .empty, result := .badSyntax } hentry hexpired hright
    obtain ⟨fields', entry', hfields', hentry', -, hright', -⟩ := accepted_spec hdigest hok
    obtain rfl := some.inj (hfields'.symm.trans hfields)
    rw [← hright'.1, hright.1] at hentry'
    obtain rfl := some.inj (hentry'.symm.trans hentry)
    have haccepted : self.acceptedAfter t (.digest call) =
      ⟨call, some entry'⟩ :: self.accepted := by
      simp only [acceptedAfter]
      rw [if_pos hok, ← hright'.1, hright.1, hentry]
    have hfieldsOf : (Acceptance.mk call (some entry')).fields = fields' := by
      rw [Acceptance.fields, hfields, getD_some]
    have hcounts := hexcluded.counts
    have hwhole := hexcluded.right
    simp only [haccepted] at hcounts hwhole
    refine ⟨fun a ha hnonce => ?_, ?_⟩
    · have hlt := (pairwise_cons.mp hcounts).1 a ha
      simp only [Acceptance.nonce, Acceptance.count, hfieldsOf] at hlt hnonce ⊢
      exact hlt hnonce.symm
    · obtain ⟨_, hsame, -, hresponse⟩ := hwhole _ mem_cons_self
      cases hsame
      rw [hfieldsOf] at hresponse
      obtain ⟨-, _, -, -, -, hexpected⟩ := hright
      rw [hexpected, hresponse]
  | _ => trivial

/--
Whatever calls a table gets, with whatever headers and at whatever times, it answers them all and
keeps replays out, exactly when credentials that are right always count further than those that
have been accepted with the same nonce, and have a response that is not that of a text cut off.
-/
theorem replays_excluded_iff {entries : Str → Option Password} {es : List PasswordEvent}
    (hfresh : Along (Audited.step c) Fresh (new entries) es) :
    (∀ before, before <+: es →
      ∃ s, run (Audited.step c) (new entries) before = some s ∧ s.Excluded c) ↔
      Along (Audited.step c) (Unused c) (new entries) es :=
  @run_prefixes_iff_of_legal Audited Unit PasswordEvent (Audited.step c) (Unused c)
    (fun s _ => s.Kept c) (fun s _ => s.Excluded c) Fresh (fun t _ => t)
    (fun _ _ h => h.excluded) (fun _ _ _ h => h.step)
    (fun _ _ _ _ _ _ hstep hexcluded => unused_of_excluded hstep hexcluded)
    es (new entries) () (kept_new c entries) hfresh

end Run

theorem expectedResponse_eq {c : Ciphers} {fields : Fields} {call : DigestCall} {entry : Password}
    (hrequest : (call.method ++ ':' :: call.uri).length ≤ 1023)
    (htext : (responseText fields entry (c.md5 (call.method ++ ':' :: call.uri))).length ≤ 1023) :
    expectedResponse c fields call entry = rfcResponse c fields call entry := by
  have hmd5 : ∀ text : Str, text.length ≤ 1023 → c.strMd5 text = c.md5 text := by
    intro text h
    rw [Ciphers.strMd5, vsnprintf, take_of_length_le h]
  rw [expectedResponse, hmd5 _ hrequest, hmd5 _ htext, rfcResponse]

/-! ### One user -/

/-- The digest of `GET:/` -/
def requestDigest : Str := "71998c64aea37ae7".toList ++ "7020c49c00f73fa8".toList

/-- The digests of the responses to the nonce that count 1 and 2 -/
def firstDigest : Str := "a6588f429252187d".toList ++ "2ccb7b513f1942e3".toList

@[inherit_doc firstDigest]
def secondDigest : Str := "87bb975c4cbad321".toList ++ "3fe9051002b8fc7e".toList

/-- The digests of the texts of two requests -/
def sampleDigests : Ciphers where
  md5 text :=
    if text = "GET:/".toList then requestDigest
    else if text = "h:n:1:c:auth:".toList ++ requestDigest then firstDigest
    else if text = "h:n:2:c:auth:".toList ++ requestDigest then secondDigest
    else []
  base64Decode _ := []
  passwordValidate _ _ := false

def sampleEntries (key : Str) : Option Password :=
  if key = "u:r".toList then some (.new key "h".toList) else none

def sampleRequest (key : String) (response : Option Str) : DigestCall :=
  ⟨0, key.toList, none, "r".toList, response, "GET".toList, "/".toList⟩

/-- A first request, which is answered with a nonce -/
def challenged : PasswordEvent := .digest (sampleRequest "n" none)

def answered (count : Char) (digest : Str) : DigestCall := sampleRequest "m" (some
  ("Digest ".toList ++ "username=\"u\", ".toList ++ "realm=\"r\", ".toList ++
    "nonce=\"n\", ".toList ++ "uri=\"/\", ".toList ++ "qop=auth, nc=".toList ++ count ::
    ", cnonce=\"c\", ".toList ++ "response=\"".toList ++ digest ++ ['"']))

/-- The request with the response to it, and another one with the same nonce -/
def responded : DigestCall := answered '1' firstDigest

@[inherit_doc responded]
def respondedAgain : DigestCall := answered '2' secondDigest

/-- The key is new, the request counts further than all before, and no text is cut off. -/
def counts (self : Audited) : PasswordEvent → Bool
  | .digest call =>
    self.issued.all (·.key ≠ call.key) && (call.method ++ ':' :: call.uri).length ≤ 1023 &&
    (responseFields call).all fun fields =>
      self.accepted.all (·.count < countOf fields) &&
      (self.table.entries
        (digestKey (.cpy (fieldOf fields "username")) call.realm)).all fun entry =>
        (responseText fields entry
          (sampleDigests.md5 (call.method ++ ':' :: call.uri))).length ≤ 1023
  | _ => false

theorem fresh_of_counts {s : Audited} {e : PasswordEvent} (h : s.counts e = true) : s.Fresh e := by
  cases e with
  | digest call =>
    simp only [counts, Bool.and_eq_true, List.all_eq_true, decide_eq_true_eq] at h
    exact h.1.1
  | _ => cases h

theorem unused_of_counts {s : Audited} {e : PasswordEvent} (h : s.counts e = true) :
    s.Unused sampleDigests e := by
  cases e with
  | digest call =>
    intro fields key entry hfields hentry _ hright
    simp only [counts, hfields, Option.all_some, hright.1, hentry, Bool.and_eq_true,
      List.all_eq_true, decide_eq_true_eq] at h
    exact ⟨fun a ha _ => h.2.1 a ha, expectedResponse_eq h.1.2 h.2.2⟩
  | _ => cases h

theorem along_counts : Along (Audited.step sampleDigests) (fun s e => s.counts e = true)
    (new sampleEntries) [challenged, .digest responded, .digest respondedAgain] := by
  decide +kernel

/-- Two requests with one nonce, which count on, are both accepted. -/
theorem replays_excluded_twice :
    (run (Audited.step sampleDigests) (new sampleEntries)
      [challenged, .digest responded, .digest respondedAgain]).map
      (fun s => s.accepted.map Acceptance.call) = some [respondedAgain, responded] ∧
    ∀ before, before <+: [challenged, .digest responded, .digest respondedAgain] →
      ∃ s, run (Audited.step sampleDigests) (new sampleEntries) before = some s ∧
        s.Excluded sampleDigests := by
  have hall := fun {P : Audited → PasswordEvent → Prop} (h : ∀ s e, s.counts e = true → P s e) =>
    along_of_invariant (I := fun _ => True) (P := P) (fun s e _ => h s e)
      (fun _ _ _ _ _ _ => trivial) trivial along_counts
  exact ⟨by decide +kernel, (replays_excluded_iff (hall fun _ _ => fresh_of_counts)).mpr
    (hall fun _ _ => unused_of_counts)⟩

/-- The same header is accepted twice. -/
theorem replay_accepted : ∃ s, run (Audited.step sampleDigests) (new sampleEntries)
      [challenged, .digest responded, .digest responded] = some s ∧
    s.accepted.map Acceptance.call = [responded, responded] ∧ ¬ s.Excluded sampleDigests := by
  have hruns : (run (Audited.step sampleDigests) (new sampleEntries)
      [challenged, .digest responded, .digest responded]).map
        (fun s => s.accepted.map Acceptance.call) = some [responded, responded] := by
    decide +kernel
  obtain ⟨s, hrun, hcalls⟩ := map_eq_some_iff.mp hruns
  refine ⟨s, hrun, hcalls, fun hexcluded => ?_⟩
  have honce : (s.accepted.map Acceptance.call).Pairwise
      fun later earlier => later.response ≠ earlier.response :=
    pairwise_map.mpr hexcluded.once
  rw [hcalls, pairwise_cons] at honce
  exact honce.1 responded mem_cons_self rfl

end Audited

end OpenAmq
