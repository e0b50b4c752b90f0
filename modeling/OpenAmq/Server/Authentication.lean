import OpenAmq.Asl.Grammar
import OpenAmq.Failover.Model

/-!
# Plain authentication

The response of a client holds a login and a password behind one null octet each. The server
collects the two from the end of the response and looks for a user with both.

* `iprSaslPlainEncode` — the response that a client makes
* `collectPlainToken`, `authPlain` — `s_collect_plain_token` and `s_auth_plain`
* `Authenticates` — only the response is read, and a user gets in with the right one
* `authPlain_iff` — exactly for these, and for all that a client encodes

An empty response makes the scan start behind all memory, without a null octet behind the first
one there is no login, and the first octet is taken for a null octet whatever it is.
-/

namespace OpenAmq

open List

def iprSaslPlainEncode (login password : CString) : List UInt8 :=
  0 :: (login.octets ++ 0 :: password.octets)

namespace Plain

/-! ## The users -/

/-- A `user` item of the security item `plain`; an attribute that is missing is empty. -/
structure User where
  name : CString
  password : CString
  group : Str

/-- The group that the attribute stands for, if it is a valid one. -/
def User.groupOf (user : User) : Option ConnectionGroup :=
  if user.group = "normal".toList then some .normal
  else if user.group = "super".toList then some .super
  else none

/-! ## The tokens -/

/-- What goes wrong when memory is read that has nothing to do with the response. -/
inductive Fault where
  /-- An octet outside the response -/
  | outside
  /-- A string that nothing has been stored in -/
  | uninitialised
deriving DecidableEq

/-- `while (token_null && data [token_null]) token_null--;` -/
def scanBack (data : List UInt8) : (tokenNull : Nat) → Except Fault Nat
  | 0 => .ok 0
  | tokenNull + 1 =>
    match data[tokenNull + 1]? with
    | none => .error .outside
    | some octet => if octet ≠ 0 then scanBack data tokenNull else .ok (tokenNull + 1)

/-- The token of these octets, which is cleared when it is too long for a short string. -/
def clip (octets : List UInt8) : List UInt8 :=
  if shortstrMax < octets.length then [] else octets

/--
`s_collect_plain_token`: the token, and the offset of the null octet before it. The end is an
unsigned integer, which is decremented first.
-/
def collectPlainToken (data : List UInt8) (tokenEnd : Nat) : Except Fault (List UInt8 × Nat) := do
  let tokenEnd := if tokenEnd = 0 then 0xFFFFFFFF else tokenEnd - 1
  let tokenNull ← scanBack data tokenEnd
  return (clip ((data.drop (tokenNull + 1)).take (tokenEnd - tokenNull)), tokenNull)

/-! ## The login -/

/-- What comes of a response. All but `granted` raise an exception or return 0. -/
inductive Outcome where
  /-- `Missing authentication data` -/
  | missing
  /-- No `plain` security is defined: `Bad server configuration`. -/
  | noPlain
  | noUser
  /-- The group of the user is not one of the two: `Bad server configuration`. -/
  | invalidGroup
  /-- The user name and the group of the connection -/
  | granted (userName : List UInt8) (group : ConnectionGroup)
deriving DecidableEq

def User.matches (login password : List UInt8) (user : User) : Bool :=
  decide (user.name.octets = login ∧ user.password.octets = password)

/-- The first user that matches, once both tokens are there. -/
def checkUser (config : Option (List User)) (login password : List UInt8) : Outcome :=
  if login = [] ∨ password = [] then .missing
  else
    match config with
    | none => .noPlain
    | some users =>
      match users.find? (User.matches login password) with
      | none => .noUser
      | some user =>
        match user.groupOf with
        | none => .invalidGroup
        | some group => .granted login group

/--
`s_auth_plain`, with the users of `/config/security/plain` if that is in the configuration. The
login is collected only when there is something before the null octet of the password.
-/
def authPlain (config : Option (List User)) (response : List UInt8) : Except Fault Outcome := do
  let (password, tokenNull) ← collectPlainToken response response.length
  if tokenNull ≠ 0 then
    let (login, _) ← collectPlainToken response tokenNull
    return checkUser config login password
  else
    throw .uninitialised

/-! ## What it is for -/

/-- `[authzid] NUL login NUL password` -/
def PlainForm (response login password : List UInt8) : Prop :=
  0 ∉ login ∧ 0 ∉ password ∧ ∃ authzid, response = authzid ++ 0 :: (login ++ 0 :: password)

def Grants (config : Option (List User)) (login password : List UInt8) (group : ConnectionGroup) :
    Prop :=
  ∃ user, (config.getD []).find? (User.matches login password) = some user ∧
    user.groupOf = some group

/-- Nothing but the response is read, and the group is that of the user whose data it holds. -/
structure Authenticates (config : Option (List User)) (response : List UInt8) : Prop where
  safe : ∃ outcome, authPlain config response = .ok outcome
  grants : ∀ group, (∃ userName, authPlain config response = .ok (.granted userName group)) ↔
    ∃ login password, PlainForm response login password ∧ Grants config login password group

/--
There is a null octet behind the first octet of the response. A user whose data it holds has a
name and a password that are not empty and fit short strings. If the first octet of the response
stands in the place of a null octet, the tokens behind it are not those of such a user.
-/
structure InReach (config : Option (List User)) (response : List UInt8) : Prop where
  separated : ∃ b before password, response = b :: (before ++ 0 :: password)
  proper : ∀ login password group, PlainForm response login password →
    Grants config login password group →
      login ≠ [] ∧ password ≠ [] ∧ login.length ≤ shortstrMax ∧ password.length ≤ shortstrMax
  led : ∀ b login password group, b ≠ 0 → response = b :: (login ++ 0 :: password) →
    0 ∉ login → 0 ∉ password → Grants config login password group →
      login = [] ∨ password = [] ∨ shortstrMax < login.length ∨ shortstrMax < password.length

/-! ## Null octets -/

theorem split_last : ∀ {response : List UInt8}, response ≠ [] →
    (∃ b token, response = b :: token ∧ 0 ∉ token) ∨
      ∃ before token, before ≠ [] ∧ response = before ++ 0 :: token ∧ 0 ∉ token := by
  intro response
  induction response with
  | nil => exact fun h => absurd rfl h
  | cons b rest ih =>
    intro _
    by_cases hnul : 0 ∈ rest
    · rcases ih (ne_nil_of_mem hnul) with
        ⟨c, token, rfl, htoken⟩ | ⟨before, token, -, rfl, htoken⟩
      · rcases mem_cons.mp hnul with rfl | hmem
        · exact .inr ⟨[b], token, cons_ne_nil _ _, rfl, htoken⟩
        · exact absurd hmem htoken
      · exact .inr ⟨b :: before, token, cons_ne_nil _ _, rfl, htoken⟩
    · exact .inl ⟨b, rest, rfl, hnul⟩

theorem last_nul_unique : ∀ {before before' token token' : List UInt8},
    before ++ 0 :: token = before' ++ 0 :: token' → 0 ∉ token → 0 ∉ token' →
      before = before' ∧ token = token' := by
  intro before
  induction before with
  | nil =>
    intro before' token token' h htoken _
    cases before' with
    | nil => exact ⟨rfl, (cons.inj h).2⟩
    | cons b before' =>
      refine absurd ?_ htoken
      rw [(cons.inj h).2]
      simp
  | cons b before ih =>
    intro before' token token' h htoken htoken'
    cases before' with
    | nil =>
      refine absurd ?_ htoken'
      rw [← (cons.inj h).2]
      simp
    | cons c before' =>
      obtain ⟨rfl, hrest⟩ := cons.inj h
      obtain ⟨rfl, rfl⟩ := ih hrest htoken htoken'
      exact ⟨rfl, rfl⟩

theorem scanBack_token {before token behind : List UInt8} {b : UInt8} (htoken : 0 ∉ token)
    (hstop : before = [] ∨ b = 0) :
    scanBack (before ++ b :: (token ++ behind)) (before.length + token.length) =
      .ok before.length := by
  -- by the length of what is left of the token
  have hpass : ∀ k, k ≤ token.length →
      scanBack (before ++ b :: (token ++ behind)) (before.length + k) = .ok before.length := by
    intro k
    induction k with
    | zero =>
      intro _
      rw [Nat.add_zero]
      rcases hstop with rfl | rfl
      · rfl
      · cases hlen : before.length with
        | zero => rfl
        | succ n =>
          rw [scanBack, ← hlen, getElem?_append_right (Nat.le_refl _), Nat.sub_self]
          rfl
    | succ k ih =>
      intro hk
      have hat : (before ++ b :: (token ++ behind))[before.length + k + 1]? = some token[k] := by
        rw [getElem?_append_right (by omega),
          show before.length + k + 1 - before.length = k + 1 by omega, getElem?_cons_succ,
          getElem?_append_left hk, getElem?_eq_getElem hk]
      have hne : token[k] ≠ 0 := fun h => htoken (h ▸ getElem_mem hk)
      rw [← Nat.add_assoc, scanBack, hat]
      dsimp only
      rw [if_pos hne]
      exact ih (Nat.le_of_succ_le hk)
  exact hpass token.length (Nat.le_refl _)

theorem collect_token {before token behind : List UInt8} {b : UInt8} (htoken : 0 ∉ token)
    (hstop : before = [] ∨ b = 0) :
    collectPlainToken (before ++ b :: (token ++ behind)) (before.length + token.length + 1) =
      .ok (clip token, before.length) := by
  have hdrop : (before ++ b :: (token ++ behind)).drop (before.length + 1) = token ++ behind := by
    rw [append_cons]
    exact drop_left' (by rw [length_append, length_singleton])
  rw [collectPlainToken, if_neg (Nat.succ_ne_zero _), Nat.add_sub_cancel,
    scanBack_token htoken hstop]
  show Except.ok (clip (((before ++ b :: (token ++ behind)).drop (before.length + 1)).take
    (before.length + token.length - before.length)), before.length) = _
  rw [hdrop, Nat.add_sub_cancel_left, take_left]

/-! ## The three kinds of response -/

variable {config : Option (List User)} {response : List UInt8}

theorem authPlain_nil (config : Option (List User)) : authPlain config [] = .error .outside := by
  have hscan : scanBack [] 0xFFFFFFFF = .error .outside := by
    rw [scanBack]
    rfl
  rw [authPlain, collectPlainToken, length_nil, if_pos rfl, hscan]
  rfl

theorem authPlain_of_unseparated {b : UInt8} {token : List UInt8} (htoken : 0 ∉ token) :
    authPlain config (b :: token) = .error .uninitialised := by
  have hcollect := @collect_token [] token [] b htoken (.inl rfl)
  rw [nil_append, append_nil, length_nil, Nat.zero_add] at hcollect
  rw [authPlain, length_cons, hcollect]
  rfl

theorem authPlain_of_separated {before login password : List UInt8} {b : UInt8}
    (hlogin : 0 ∉ login) (hpassword : 0 ∉ password) (hstop : before = [] ∨ b = 0) :
    authPlain config (before ++ b :: (login ++ 0 :: password)) =
      .ok (checkUser config (clip login) (clip password)) := by
  have hlast := @collect_token (before ++ b :: login) password [] 0 hpassword (.inr rfl)
  have hfirst := @collect_token before login (0 :: password) b hlogin hstop
  rw [append_nil, append_assoc, cons_append, length_append, length_cons] at hlast
  have hlen : (before ++ b :: (login ++ 0 :: password)).length =
      before.length + (login.length + 1) + password.length + 1 := by
    simp only [length_append, length_cons]
    omega
  have hne : before.length + (login.length + 1) ≠ 0 := by omega
  rw [authPlain, hlen, hlast]
  simp only [bind, Except.bind, if_pos hne]
  rw [← Nat.add_assoc, hfirst]
  rfl

/-! ## Who gets in -/

variable {login password : List UInt8}

theorem checkUser_granted {userName : List UInt8} {group : ConnectionGroup} :
    checkUser config login password = .granted userName group ↔
      userName = login ∧ login ≠ [] ∧ password ≠ [] ∧ Grants config login password group := by
  unfold checkUser Grants
  by_cases hempty : login = [] ∨ password = []
  · rw [if_pos hempty]
    constructor
    · intro h
      cases h
    · rintro ⟨-, hlogin, hpassword, -⟩
      exact (hempty.elim hlogin hpassword).elim
  · rw [if_neg hempty]
    rw [not_or] at hempty
    cases config with
    | none => simp
    | some users =>
      simp only [Option.getD_some]
      cases users.find? (User.matches login password) with
      | none => simp
      | some user =>
        cases hgroup : user.groupOf with
        | none => simp [hgroup]
        | some g =>
          simp only [Outcome.granted.injEq, Option.some.injEq, exists_eq_left', hgroup]
          constructor
          · rintro ⟨rfl, rfl⟩
            exact ⟨rfl, hempty.1, hempty.2, rfl⟩
          · rintro ⟨rfl, -, -, rfl⟩
            exact ⟨rfl, rfl⟩

theorem clip_of_le {octets : List UInt8} (h : octets.length ≤ shortstrMax) :
    clip octets = octets := if_neg (Nat.not_lt.mpr h)

theorem clip_ne_nil {octets : List UInt8} (h : clip octets ≠ []) :
    octets ≠ [] ∧ octets.length ≤ shortstrMax ∧ clip octets = octets := by
  by_cases hlong : shortstrMax < octets.length
  · exact absurd (if_pos hlong) h
  · have hle := Nat.not_lt.mp hlong
    rw [clip_of_le hle] at h
    exact ⟨h, hle, clip_of_le hle⟩

theorem checkUser_clip {group : ConnectionGroup} :
    (∃ userName, checkUser config (clip login) (clip password) = .granted userName group) ↔
      (login ≠ [] ∧ password ≠ [] ∧ login.length ≤ shortstrMax ∧
        password.length ≤ shortstrMax) ∧ Grants config login password group := by
  constructor
  · rintro ⟨userName, h⟩
    obtain ⟨-, hlogin, hpassword, hgrants⟩ := checkUser_granted.mp h
    obtain ⟨hne, hle, heq⟩ := clip_ne_nil hlogin
    obtain ⟨hne', hle', heq'⟩ := clip_ne_nil hpassword
    rw [heq, heq'] at hgrants
    exact ⟨⟨hne, hne', hle, hle'⟩, hgrants⟩
  · rintro ⟨⟨hne, hne', hle, hle'⟩, hgrants⟩
    rw [clip_of_le hle, clip_of_le hle']
    exact ⟨login, checkUser_granted.mpr ⟨rfl, hne, hne', hgrants⟩⟩

/-! ## When a response is authenticated -/

theorem plainForm_unique {response login' password' : List UInt8}
    (h : PlainForm response login password) (h' : PlainForm response login' password') :
    login = login' ∧ password = password' := by
  obtain ⟨hlogin, hpassword, authzid, rfl⟩ := h
  obtain ⟨hlogin', hpassword', authzid', heq⟩ := h'
  rw [append_cons, ← append_assoc, append_cons authzid', ← append_assoc] at heq
  obtain ⟨hbefore, hlast⟩ := last_nul_unique heq hpassword hpassword'
  rw [← append_cons, ← append_cons] at hbefore
  exact ⟨(last_nul_unique hbefore hlogin hlogin').2, hlast⟩

theorem authenticates_form (hform : PlainForm response login password) :
    Authenticates config response ↔ ∀ group, Grants config login password group →
      login ≠ [] ∧ password ≠ [] ∧ login.length ≤ shortstrMax ∧ password.length ≤ shortstrMax := by
  have hrun : authPlain config response = .ok (checkUser config (clip login) (clip password)) := by
    obtain ⟨hlogin, hpassword, authzid, rfl⟩ := hform
    exact authPlain_of_separated hlogin hpassword (.inr rfl)
  have hgranted : ∀ group, (∃ userName, authPlain config response = .ok (.granted userName group)) ↔
        ∃ userName, checkUser config (clip login) (clip password) = .granted userName group := by
    intro group
    rw [hrun]
    simp only [Except.ok.injEq]
  constructor
  · intro h group hgrants
    have hin := (h.grants group).mpr ⟨login, password, hform, hgrants⟩
    rw [hgranted, checkUser_clip] at hin
    exact hin.1
  · intro h
    refine ⟨⟨_, hrun⟩, fun group => ?_⟩
    rw [hgranted, checkUser_clip]
    constructor
    · rintro ⟨-, hgrants⟩
      exact ⟨login, password, hform, hgrants⟩
    · rintro ⟨login', password', hform', hgrants⟩
      obtain ⟨rfl, rfl⟩ := plainForm_unique hform hform'
      exact ⟨h group hgrants, hgrants⟩

theorem not_plainForm {login password login' password' : List UInt8} {b : UInt8} (hb : b ≠ 0)
    (hlogin : 0 ∉ login) (hpassword : 0 ∉ password) :
    ¬ PlainForm (b :: (login ++ 0 :: password)) login' password' := by
  rintro ⟨-, hpassword', authzid, heq⟩
  rw [← cons_append, append_cons authzid, ← append_assoc] at heq
  obtain ⟨hbefore, -⟩ := last_nul_unique heq hpassword hpassword'
  have hmem : (0 : UInt8) ∈ b :: login := by
    rw [hbefore]
    simp
  rcases mem_cons.mp hmem with h | h
  · exact hb h.symm
  · exact hlogin h

/-- Such a response should never get in, but does so with the data of a user behind the octet. -/
theorem authenticates_led {login password : List UInt8} {b : UInt8} (hb : b ≠ 0)
    (hlogin : 0 ∉ login) (hpassword : 0 ∉ password) :
    Authenticates config (b :: (login ++ 0 :: password)) ↔
      ∀ group, Grants config login password group →
        login = [] ∨ password = [] ∨ shortstrMax < login.length ∨
          shortstrMax < password.length := by
  have hrun : authPlain config (b :: (login ++ 0 :: password)) =
      .ok (checkUser config (clip login) (clip password)) :=
    @authPlain_of_separated config [] login password b hlogin hpassword (.inl rfl)
  have hno : ∀ login' password', ¬ PlainForm (b :: (login ++ 0 :: password)) login' password' :=
    fun _ _ => not_plainForm hb hlogin hpassword
  constructor
  · intro h group hgrants
    by_contra hproper
    simp only [not_or, Nat.not_lt] at hproper
    obtain ⟨userName, hin⟩ := checkUser_clip.mpr ⟨hproper, hgrants⟩
    obtain ⟨login', password', hform, -⟩ := (h.grants group).mp ⟨userName, by rw [hrun, hin]⟩
    exact hno login' password' hform
  · intro h
    refine ⟨⟨_, hrun⟩, fun group => ?_⟩
    constructor
    · rintro ⟨userName, hin⟩
      rw [hrun, Except.ok.injEq] at hin
      obtain ⟨⟨hne, hne', hle, hle'⟩, hgrants⟩ := checkUser_clip.mp ⟨userName, hin⟩
      rcases h group hgrants with hnil | hnil | hlong | hlong
      · exact absurd hnil hne
      · exact absurd hnil hne'
      · exact absurd hle (Nat.not_le.mpr hlong)
      · exact absurd hle' (Nat.not_le.mpr hlong)
    · rintro ⟨login', password', hform, -⟩
      exact absurd hform (hno login' password')

/-- Credentials are found as meant just if the response has them in reach. -/
theorem authenticates_iff (config : Option (List User)) (response : List UInt8) :
    Authenticates config response ↔ InReach config response := by
  by_cases hnil : response = []
  · subst hnil
    constructor
    · intro h
      obtain ⟨outcome, hrun⟩ := h.safe
      rw [authPlain_nil] at hrun
      cases hrun
    · intro h
      obtain ⟨b, before, password, heq⟩ := h.separated
      cases heq
  rcases split_last hnil with ⟨b, token, rfl, htoken⟩ | ⟨before, password, hbefore, rfl, hpassword⟩
  · constructor
    · intro h
      obtain ⟨outcome, hrun⟩ := h.safe
      rw [authPlain_of_unseparated htoken] at hrun
      cases hrun
    · intro h
      obtain ⟨c, before, password, heq⟩ := h.separated
      refine absurd ?_ htoken
      rw [(cons.inj heq).2]
      simp
  · have hseparated : ∃ b rest password',
        before ++ 0 :: password = b :: (rest ++ 0 :: password') := by
      obtain ⟨b, rest, rfl⟩ := exists_cons_of_ne_nil hbefore
      exact ⟨b, rest, password, rfl⟩
    by_cases hform : ∃ login, PlainForm (before ++ 0 :: password) login password
    · obtain ⟨login, hform⟩ := hform
      rw [authenticates_form hform]
      constructor
      · intro h
        refine ⟨hseparated, ?_, ?_⟩
        · intro login' password' group hform' hgrants
          obtain ⟨rfl, rfl⟩ := plainForm_unique hform hform'
          exact h group hgrants
        · intro b login' password' group hb heq hlogin' hpassword' _
          rw [heq] at hform
          exact absurd hform (not_plainForm hb hlogin' hpassword')
      · intro h group hgrants
        exact h.proper login password group hform hgrants
    · -- what comes before the null octet has none itself, apart from its first octet
      rcases split_last hbefore with ⟨b, login, rfl, hlogin⟩ | ⟨before, login, -, rfl, hlogin⟩
      · have hb : b ≠ 0 := by
          rintro rfl
          exact hform ⟨login, hlogin, hpassword, [], rfl⟩
        have hauth := @authenticates_led config login password b hb hlogin hpassword
        rw [cons_append]
        rw [hauth]
        constructor
        · intro h
          refine ⟨hseparated, ?_, ?_⟩
          · intro login' password' group hform' _
            exact absurd hform' (not_plainForm hb hlogin hpassword)
          · intro c login' password' group _ heq hlogin' hpassword' hgrants
            obtain ⟨-, heq⟩ := cons.inj heq
            obtain ⟨rfl, rfl⟩ := last_nul_unique heq hpassword hpassword'
            exact h group hgrants
        · intro h group hgrants
          exact h.led b login password group hb rfl hlogin hpassword hgrants
      · refine absurd ⟨login, hlogin, hpassword, before, ?_⟩ hform
        rw [append_assoc, cons_append]

/-! ## What a client encodes -/

theorem collect_encode (login password : ShortText) :
    collectPlainToken (iprSaslPlainEncode login.toCString password.toCString)
        (iprSaslPlainEncode login.toCString password.toCString).length =
      .ok (password.octets, login.octets.length + 1) ∧
    collectPlainToken (iprSaslPlainEncode login.toCString password.toCString)
        (login.octets.length + 1) = .ok (login.octets, 0) := by
  have hlast := @collect_token (0 :: login.octets) password.octets [] 0 password.noNul (.inr rfl)
  have hfirst := @collect_token [] login.octets (0 :: password.octets) 0 login.noNul (.inl rfl)
  rw [clip_of_le password.bound, append_nil, cons_append, length_cons] at hlast
  rw [clip_of_le login.bound, nil_append, length_nil, Nat.zero_add] at hfirst
  refine ⟨?_, hfirst⟩
  have hlen : (iprSaslPlainEncode login.toCString password.toCString).length =
      login.octets.length + 1 + password.octets.length + 1 := by
    simp only [iprSaslPlainEncode, length_append, length_cons]
    omega
  rw [hlen]
  exact hlast

/--
A response is authenticated exactly when it is in reach, and the login and the password that a
client encodes are always recovered.
-/
theorem authPlain_iff (config : Option (List User)) (response : List UInt8) :
    (Authenticates config response ↔ InReach config response) ∧ ∀ login password : ShortText,
        authPlain config (iprSaslPlainEncode login.toCString password.toCString) =
          .ok (checkUser config login.octets password.octets) := by
  refine ⟨authenticates_iff config response, fun login password => ?_⟩
  obtain ⟨hlast, hfirst⟩ := collect_encode login password
  have hne : login.octets.length + 1 ≠ 0 := Nat.succ_ne_zero _
  rw [authPlain, hlast]
  simp only [bind, Except.bind, if_pos hne]
  rw [hfirst]
  rfl

/-- A user `a` with the password `p` -/
def userA : User where
  name := ⟨[97], by decide⟩
  password := ⟨[112], by decide⟩
  group := "normal".toList

/--
An empty response and one without null octets are read beyond their ends. In the third one, only
one null octet stands before the password, and the first octet is lost.
-/
theorem not_authenticated : authPlain (some [userA]) [] = .error .outside ∧
      authPlain (some [userA]) [97, 112] = .error .uninitialised ∧
      authPlain (some [userA]) [120, 97, 0, 112] = .ok (.granted [97] .normal) ∧
      ¬ Authenticates (some [userA]) [] ∧ ¬ Authenticates (some [userA]) [97, 112] ∧
      ¬ Authenticates (some [userA]) [120, 97, 0, 112] := by
  have hempty := authPlain_nil (some [userA])
  have hsingle := @authPlain_of_unseparated (some [userA]) 97 [112] (by decide)
  have hled : authPlain (some [userA]) [120, 97, 0, 112] = .ok (.granted [97] .normal) := by
    decide
  refine ⟨hempty, hsingle, hled, ?_, ?_, ?_⟩
  · intro h
    obtain ⟨outcome, hrun⟩ := h.safe
    rw [hempty] at hrun
    cases hrun
  · intro h
    obtain ⟨outcome, hrun⟩ := h.safe
    rw [hsingle] at hrun
    cases hrun
  · intro h
    obtain ⟨login, password, hform, -⟩ := (h.grants .normal).mp ⟨[97], hled⟩
    exact @not_plainForm [97] [112] login password 120 (by decide) (by decide) (by decide) hform

end Plain

end OpenAmq
