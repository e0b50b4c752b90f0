import Mathlib.Logic.Function.Basic
import OpenAmq.Ipr.Guard
import OpenAmq.Lib.Run

/-!
# Password tables

Basic and digest authentication against a table of guarded passwords, with the nonces that the
table has issued.

* `propsLoad` — the fields of a header, as the pattern takes them apart
* `PasswordTable.basic`, `digest` — the two mechanisms, with their challenges
* `PasswordTable.step` — one call of the table
-/

namespace OpenAmq

open Function

/-! ## The fields of a header -/

/-- `[^ ,]+` -/
def isPlain (c : Char) : Bool := c ≠ ' ' ∧ c ≠ ','

/-- `"([^"]*)"|([^ ,]+)`: the value and what comes after it -/
def scanValue (s : Str) : Option (Str × Str) :=
  let plain := if s.takeWhile isPlain = [] then none
    else some (s.takeWhile isPlain, s.dropWhile isPlain)
  match s with
  | '"' :: quoted =>
    match quoted.dropWhile (· ≠ '"') with
    | '"' :: rest => some (quoted.takeWhile (· ≠ '"'), rest)
    | _ => plain
  | _ => plain

/-- White space and a value. The pattern gives white space back where no value comes after it. -/
def scanSpacedValue (s : Str) : Option (Str × Str) :=
  let spaces := (s.takeWhile Password.isSpace).length
  (List.range (spaces + 1)).reverse.findSome? fun n => scanValue (s.drop n)

/-- `^([\w-_]+)\s*=\s*(?:"([^"]*)"|([^ ,]+))\s*,?\s*(.*)` -/
def scanField (s : Str) : Option (Str × Str × Str) :=
  let name := s.takeWhile Password.isWord
  match (s.dropWhile Password.isWord).dropWhile Password.isSpace with
  | '=' :: s =>
    if name = [] then none
    else (scanSpacedValue s).map fun (value, s) =>
      let s := s.dropWhile Password.isSpace
      let s := if s.head? = some ',' then s.tail else s
      (name, value, (s.dropWhile Password.isSpace).takeWhile (· ≠ '\n'))
  | _ => none

/-- The items of an `ipr_dict_table`, where a later value hides the earlier ones of its name. -/
abbrev Fields := List (Str × Str)

/-- `ipr_dict_table_lookup` -/
def fieldOf (fields : Fields) (name : String) : Str := (fields.lookup name.toList).getD []

/-- The loop of `ipr_dict_table_props_load`, whose rounds each take something from the text. -/
def propsLoop : (fuel : Nat) → Fields → (string : Str) → Fields
  | 0, fields, _ => fields
  | fuel + 1, fields, string =>
    match scanField string with
    | some (name, value, remainder) =>
      propsLoop fuel ((name.take shortstrMax, value) :: fields) remainder
    | none => fields

/-- `ipr_dict_table_props_load` into a new table -/
def propsLoad (string : Str) : Fields := propsLoop string.length [] string

def hexValue? (c : Char) : Option Nat :=
  if '0' ≤ c ∧ c ≤ '9' then some (c.toNat - '0'.toNat)
  else if 'a' ≤ c ∧ c ≤ 'f' then some (c.toNat - 'a'.toNat + 10)
  else if 'A' ≤ c ∧ c ≤ 'F' then some (c.toNat - 'A'.toNat + 10)
  else none

/-- The value of the hexadecimal digits that a text begins with -/
def hexPrefix : (acc : Nat) → Str → Nat
  | acc, [] => acc
  | acc, c :: s =>
    match hexValue? c with
    | some d => hexPrefix (acc * 16 + d) s
    | none => acc

/-- `strtoull` to the base 16 -/
def strtoull16 (s : Str) : Nat :=
  let s := s.dropWhile fun c => Password.isSpace c || c == '\x0b'
  let magnitude (s : Str) : Nat :=
    match s with
    | '0' :: 'x' :: d :: s => if (hexValue? d).isSome then hexPrefix 0 (d :: s) else 0
    | '0' :: 'X' :: d :: s => if (hexValue? d).isSome then hexPrefix 0 (d :: s) else 0
    | s => hexPrefix 0 s
  let limit (n m : Nat) : Nat := if 2 ^ 64 ≤ n then 2 ^ 64 - 1 else m
  match s with
  | '-' :: s => limit (magnitude s) ((2 ^ 64 - magnitude s) % 2 ^ 64)
  | '+' :: s => limit (magnitude s) (magnitude s)
  | s => limit (magnitude s) (magnitude s)

/-- `ipr_str_defix` -/
def defix (string : Option Str) (start : String) : Option Str :=
  string.bind fun string =>
    if start.toList.isPrefixOf string then some (string.drop start.toList.length) else none

/-- What `apr_vsnprintf` writes into a buffer of so many characters. -/
def vsnprintf (size : Nat) (text : Str) : Str := text.take (size - 1)

/-! ## Tables -/

/-- The functions that a table uses on secrets -/
structure Ciphers where
  /-- `apr_md5`, in hexadecimal -/
  md5 : Str → Str
  /-- `apr_base64_decode` -/
  base64Decode : Str → Str
  /-- `apr_password_validate` -/
  passwordValidate : (password hash : Str) → Bool

/-- `ipr_str_md5`, whose text goes through a buffer of 1024 characters -/
def Ciphers.strMd5 (c : Ciphers) (text : Str) : Str := c.md5 (vsnprintf 1024 text)

inductive PasswordResult where
  | ok | challenge | notFound | expired | incorrect | badType | badSyntax | hostile | tryAgain
deriving DecidableEq

/-- The context of `ipr_nonce` -/
structure Nonce where
  count : Int
  expiry : Int
  quota : UInt64
deriving DecidableEq

/-- `ipr_nonce_new` -/
def Nonce.new (now : Nat) (ttl quota : UInt64) : Nonce := ⟨0, expiryTime now ttl, quota⟩

/-- `ipr_nonce_expired`, with the nonce that it leaves -/
def Nonce.expired (self : Nonce) (now : Nat) : Bool × Nonce :=
  if self.quota ≠ 0 then (self.expiry < now, { self with quota := self.quota - 1 })
  else (true, self)

/-- The context of `ipr_password_table`, with its passwords and nonces by their keys -/
structure PasswordTable where
  entries : Str → Option Password
  nonces : Str → Option Nonce
  nonceTtl : UInt64
  nonceQuota : UInt64
  nonceTest : Option Str
  result : PasswordResult
  username : Shortstr
  realm : Shortstr

/-- The arguments of `basic`, with the time of the call -/
structure BasicCall where
  now : Nat
  address : Option Str
  realm : Str
  response : Option Str

/-- The arguments of `digest`, with the time of the call and the key of a new nonce -/
structure DigestCall where
  now : Nat
  key : Str
  address : Option Str
  realm : Str
  response : Option Str
  method : Str
  uri : Str
deriving DecidableEq

namespace PasswordTable

/-- `ipr_password_table_new`, where no file is loaded -/
def new : PasswordTable where
  entries _ := none
  nonces _ := none
  nonceTtl := 3600
  nonceQuota := 256
  nonceTest := none
  result := .ok
  username := .empty
  realm := .empty

/-- What `f` makes of an entry -/
def modify (self : PasswordTable) (key : Str) (f : Password → Password) : PasswordTable :=
  { self with entries := update self.entries key ((self.entries key).map f) }

/-- `ipr_password_hit` and the result that goes with it -/
def hit (self : PasswordTable) (key : Str) (now : Nat) (address : Option Str) : PasswordTable :=
  { self.modify key (·.hit now address) with result := .ok }

/-- `ipr_password_miss` and a result -/
def miss (self : PasswordTable) (key : Str) (now : Nat) (address : Option Str)
    (result : PasswordResult) : PasswordTable :=
  { self.modify key (·.miss now address) with result }

/-! ### Basic authentication -/

def matchesHash (c : Ciphers) (password : Str) (entry : Password) : Bool :=
  c.passwordValidate password entry.hash || password == entry.hash

/-- User name and password, before and after the first colon -/
def splitColon (decoded : Str) : Option (Str × Str) :=
  match decoded.dropWhile (· ≠ ':') with
  | ':' :: password => some (decoded.takeWhile (· ≠ ':'), password)
  | _ => none

/-- The credentials of a response that begins as it should -/
def basicCheck (c : Ciphers) (self : PasswordTable) (call : BasicCall) (response : Str) :
    PasswordTable :=
  match splitColon (c.base64Decode response) with
  | none => self
  | some (username, password) =>
    let self := { self with username := .cpy username, realm := .cpy call.realm }
    let key := self.username.chars
    match self.entries key with
    | none => { self with result := .notFound }
    | some entry =>
      if entry.expired then self.miss key call.now call.address .expired
      else if entry.type = .basic then
        if matchesHash c password entry then self.hit key call.now call.address
        else self.miss key call.now call.address .incorrect
      else self.miss key call.now call.address .badType

/-- `basic`, with the challenge that it returns -/
def basic (c : Ciphers) (self : PasswordTable) (call : BasicCall) : PasswordTable × Option Str :=
  let self := { self with username := .empty, realm := .empty, result := .badSyntax }
  let self := match defix call.response "Basic " with
    | none => { self with result := .challenge }
    | some response => basicCheck c self call response
  (self, if self.result = .ok then none
    else some (vsnprintf 255 ("Basic realm=\"".toList ++ call.realm ++ "\"".toList)))

/-! ### Digest authentication -/

/-- The key of an entry for digest authentication, in a short string -/
def digestKey (username : Shortstr) (realm : Str) : Str :=
  vsnprintf 255 (username.chars ++ ':' :: realm)

/-- Credentials that do not fit the request, or a count that has been used -/
def isHostile (fields : Fields) (call : DigestCall) (nonce : Nonce) : Bool :=
  fieldOf fields "uri" ≠ call.uri ∨ fieldOf fields "realm" ≠ call.realm ∨
    fieldOf fields "qop" ≠ "auth".toList ∨ fieldOf fields "cnonce" = [] ∨
    (strtoull16 (fieldOf fields "nc") : Int).bmod (2 ^ 64) ≤ nonce.count

def responseText (fields : Fields) (entry : Password) (ha2 : Str) : Str :=
  List.intercalate ":".toList [entry.hash, fieldOf fields "nonce", fieldOf fields "nc",
    fieldOf fields "cnonce", "auth".toList, ha2]

/-- `HA3` -/
def expectedResponse (c : Ciphers) (fields : Fields) (call : DigestCall) (entry : Password) : Str :=
  c.strMd5 (responseText fields entry (c.strMd5 (call.method ++ ':' :: call.uri)))

/-- The credentials of a response that begins as it should -/
def digestCheck (c : Ciphers) (self : PasswordTable) (call : DigestCall) (fields : Fields) :
    PasswordTable :=
  let self := { self with
    username := .cpy (fieldOf fields "username"), realm := .cpy call.realm }
  let key := digestKey self.username call.realm
  let nonceKey := fieldOf fields "nonce"
  match self.entries key with
  | none => { self with result := .notFound }
  | some entry =>
    if entry.expired then self.miss key call.now call.address .expired
    else
      match self.nonces nonceKey with
      | none => { self with result := .tryAgain }
      | some nonce =>
        if (nonce.expired call.now).1 then
          { self with nonces := update self.nonces nonceKey none, result := .tryAgain }
        else
          let self := { self with
            nonces := update self.nonces nonceKey (some (nonce.expired call.now).2) }
          if isHostile fields call nonce then self.miss key call.now call.address .hostile
          else if expectedResponse c fields call entry = fieldOf fields "response" then
            self.hit key call.now call.address
          else self.miss key call.now call.address .incorrect

/-- The end of `digest`. A key that is already in use creates no nonce, and then its key is read
through a null pointer. -/
def digestReply (self : PasswordTable) (call : DigestCall) (stale : Bool) :
    Option (PasswordTable × Option Str) :=
  let challenge (key : Str) : Str := vsnprintf 255 ("Digest realm=\"".toList ++ call.realm ++
    "\", qop=\"auth\", algorithm=\"MD5\", nonce=\"".toList ++ key ++ "\"".toList ++
    if stale then ", stale=\"true\"".toList else [])
  if self.result = .ok then some (self, none)
  else
    match self.nonceTest with
    | some key => some (self, some (challenge key))
    | none =>
      if (self.nonces call.key).isSome then none
      else
        some ({ self with
          nonces := update self.nonces call.key
            (some (.new call.now self.nonceTtl self.nonceQuota)) }, some (challenge call.key))

/-- `digest`, with the challenge that it returns -/
def digest (c : Ciphers) (self : PasswordTable) (call : DigestCall) :
    Option (PasswordTable × Option Str) :=
  let self := { self with username := .empty, realm := .empty, result := .badSyntax }
  match defix call.response "Digest " with
  | none => { self with result := .challenge }.digestReply call false
  | some response => (digestCheck c self call (propsLoad response)).digestReply call true

/-! ### Nonces and entries from outside -/

/-- `set nonce test` -/
def setNonceTest (self : PasswordTable) (now : Nat) (value : Shortstr) : PasswordTable :=
  { self with
    nonceTest := some value.chars
    nonces :=
      if (self.nonces value.chars).isSome then self.nonces
      else update self.nonces value.chars
        (some (.new now self.nonceTtl self.nonceQuota)) }

/-- `ipr_password_assume` -/
def assume (self : PasswordTable) (key : Shortstr) (hash : Str) : PasswordTable :=
  match self.entries key.chars with
  | some entry => if hash ≠ entry.hash then self.modify key.chars (·.update hash) else self
  | none =>
    { self with
      entries := update self.entries key.chars (some (.new key.chars hash)) }

end PasswordTable

/-- The calls of a table -/
inductive PasswordEvent where
  | basic (call : BasicCall)
  | digest (call : DigestCall)
  | assume (key : Shortstr) (hash : Str)
  | update (key hash : Str)
  | guardSet (key : Str) (now : Nat) (hitQuota missQuota timeToLive : UInt64)
  /-- `guard put` of an entry, and `guard get` of its line after the passwords are loaded again -/
  | restart (key : Str)
  | setNonceTtl (ttl : UInt64)
  | setNonceQuota (quota : UInt64)
  | setNonceTest (now : Nat) (value : Shortstr)

/-- One call -/
def PasswordTable.step (c : Ciphers) (self : PasswordTable) :
    PasswordEvent → Option PasswordTable
  | .basic call => some (self.basic c call).1
  | .digest call => (self.digest c call).map Prod.fst
  | .assume key hash => some (self.assume key hash)
  | .update key hash => some (self.modify key (·.update hash))
  | .guardSet key now hitQuota missQuota timeToLive =>
    some (self.modify key (·.guardSet now hitQuota missQuota timeToLive))
  | .restart key => some (self.modify key Password.restart)
  | .setNonceTtl ttl => some { self with nonceTtl := ttl }
  | .setNonceQuota quota => some { self with nonceQuota := quota }
  | .setNonceTest now value => some (self.setNonceTest now value)

/-! ## What an authentication does -/

/-- What becomes of the entry whose credentials had this result -/
def Password.attempted (self : Password) (result : PasswordResult) (now : Nat)
    (address : Option Str) : Password :=
  match result with
  | .ok => self.hit now address
  | .expired | .incorrect | .badType | .hostile => self.miss now address
  | .challenge | .notFound | .badSyntax | .tryAgain => self

/-- The credentials of `basic` are those of the entry with this key. -/
def BasicCall.Right (c : Ciphers) (call : BasicCall) (key : Str) (entry : Password) : Prop :=
  ∃ response username password, defix call.response "Basic " = some response ∧
    PasswordTable.splitColon (c.base64Decode response) = some (username, password) ∧
    (Shortstr.cpy username).chars = key ∧ entry.type = .basic ∧
    PasswordTable.matchesHash c password entry = true

/-- The credentials of `digest` are those of the entry with this key, for a nonce that is still
good. -/
def DigestCall.Right (c : Ciphers) (self : PasswordTable) (call : DigestCall) (fields : Fields)
    (key : Str) (entry : Password) : Prop :=
  PasswordTable.digestKey (.cpy (fieldOf fields "username")) call.realm = key ∧
  ∃ nonce, self.nonces (fieldOf fields "nonce") = some nonce ∧
    (nonce.expired call.now).1 = false ∧ PasswordTable.isHostile fields call nonce = false ∧
    PasswordTable.expectedResponse c fields call entry = fieldOf fields "response"

namespace PasswordTable

variable {c : Ciphers} {self : PasswordTable}

theorem modify_entries (key : Str) (f : Password → Password) (k : Str) :
    (self.modify key f).entries k =
      if k = key then (self.entries key).map f else self.entries k := by
  simp [modify, update_apply]

theorem modify_self {key : Str} {f : Password → Password} (h : ∀ entry, f entry = entry) :
    (self.modify key f).entries = self.entries := by
  obtain rfl : f = id := funext h
  simp [modify]

variable (self) in
theorem entries_basic (call : BasicCall) :
    (self.basic c call).1.entries = (self.modify (self.basic c call).1.username.chars
      (·.attempted (self.basic c call).1.result call.now call.address)).entries ∧
    ((self.basic c call).1.result = .ok → ∃ entry,
      self.entries (self.basic c call).1.username.chars = some entry ∧
        entry.expired = false ∧
        call.Right c (self.basic c call).1.username.chars entry) := by
  have hnone : ∀ {t : PasswordTable} {result : PasswordResult} {key : Str},
      (∀ entry : Password, entry.attempted result call.now call.address = entry) →
      t.entries = (t.modify key (·.attempted result call.now call.address)).entries :=
    fun h => (modify_self h).symm
  unfold basic
  cases hresponse : defix call.response "Basic " with
  | none => exact ⟨hnone fun _ => rfl, nofun⟩
  | some response =>
    simp only [basicCheck]
    cases hdecoded : splitColon (c.base64Decode response) with
    | none => exact ⟨hnone fun _ => rfl, nofun⟩
    | some credentials =>
      obtain ⟨username, password⟩ := credentials
      simp only
      cases hentry : self.entries (Shortstr.cpy username).chars with
      | none => exact ⟨hnone fun _ => rfl, nofun⟩
      | some entry =>
        simp only
        split
        · exact ⟨rfl, nofun⟩
        · next hexpired =>
          split
          · next htype =>
            split
            · next hmatches =>
              refine ⟨rfl, fun _ => ⟨entry, hentry, by simpa using hexpired, ?_⟩⟩
              exact ⟨response, username, password, hresponse, hdecoded, rfl, htype, hmatches⟩
            · exact ⟨rfl, nofun⟩
          · exact ⟨rfl, nofun⟩

theorem nonces_basic (call : BasicCall) : (self.basic c call).1.nonces = self.nonces := by
  unfold basic basicCheck
  simp only
  repeat' split
  all_goals rfl

variable (self) in
theorem entries_digestCheck (call : DigestCall) (fields : Fields) :
    (self.digestCheck c call fields).entries =
      (self.modify (digestKey (self.digestCheck c call fields).username call.realm)
        (·.attempted (self.digestCheck c call fields).result call.now call.address)).entries ∧
    ((self.digestCheck c call fields).result = .ok → ∃ entry,
      self.entries (digestKey (self.digestCheck c call fields).username call.realm) = some entry ∧
        entry.expired = false ∧
        call.Right c self fields
          (digestKey (self.digestCheck c call fields).username call.realm) entry) := by
  have hnone : ∀ {t : PasswordTable} {result : PasswordResult} {key : Str},
      (∀ entry : Password, entry.attempted result call.now call.address = entry) →
      t.entries = (t.modify key (·.attempted result call.now call.address)).entries :=
    fun h => (modify_self h).symm
  unfold digestCheck
  simp only
  cases hentry : self.entries (digestKey (.cpy (fieldOf fields "username")) call.realm) with
  | none => exact ⟨hnone fun _ => rfl, nofun⟩
  | some entry =>
    simp only
    split
    · exact ⟨rfl, nofun⟩
    · next hexpired =>
      cases hnonce : self.nonces (fieldOf fields "nonce") with
      | none => exact ⟨hnone fun _ => rfl, nofun⟩
      | some nonce =>
        simp only
        split
        · exact ⟨hnone fun _ => rfl, nofun⟩
        · next hgood =>
          split
          · exact ⟨rfl, nofun⟩
          · next hfits =>
            split
            · next hright =>
              refine ⟨rfl, fun _ => ⟨entry, hentry, by simpa using hexpired, rfl, nonce, hnonce,
                ?_⟩⟩
              exact ⟨by simpa using hgood, by simpa using hfits, hright⟩
            · exact ⟨rfl, nofun⟩

theorem Nonce.expired_spec {nonce : Nonce} {now : Nat} (h : (nonce.expired now).1 = false) :
    (nonce.expired now).2.expiry = nonce.expiry ∧
      (nonce.expired now).2.quota.toNat + 1 = nonce.quota.toNat ∧ now ≤ nonce.expiry := by
  unfold Nonce.expired at h ⊢
  by_cases hquota : nonce.quota = 0
  · rw [if_neg (not_not.mpr hquota)] at h
    cases h
  · rw [if_pos hquota] at h ⊢
    rw [decide_eq_false_iff_not, Int.not_lt] at h
    have hpos : nonce.quota.toNat ≠ 0 := fun hz => hquota (UInt64.toNat_inj.mp hz)
    have hle : (1 : UInt64) ≤ nonce.quota := by
      rw [UInt64.le_iff_toNat_le]
      exact Nat.pos_of_ne_zero hpos
    refine ⟨rfl, ?_, h⟩
    rw [UInt64.toNat_sub_of_le _ _ hle]
    exact Nat.sub_add_cancel (Nat.pos_of_ne_zero hpos)

variable (self) in
theorem nonces_digestCheck (call : DigestCall) (fields : Fields) :
    ((self.digestCheck c call fields).result ≠ .ok ∧
      ((self.digestCheck c call fields).nonces = self.nonces ∨
        (self.digestCheck c call fields).nonces =
          update self.nonces (fieldOf fields "nonce") none)) ∨
    ∃ nonce, self.nonces (fieldOf fields "nonce") = some nonce ∧
      (nonce.expired call.now).1 = false ∧
      (self.digestCheck c call fields).nonces = update self.nonces
        (fieldOf fields "nonce") (some (nonce.expired call.now).2) := by
  unfold digestCheck
  simp only
  cases hentry : self.entries (digestKey (.cpy (fieldOf fields "username")) call.realm) with
  | none => exact .inl ⟨nofun, .inl rfl⟩
  | some entry =>
    simp only
    split
    · exact .inl ⟨nofun, .inl rfl⟩
    · cases hnonce : self.nonces (fieldOf fields "nonce") with
      | none => exact .inl ⟨nofun, .inl rfl⟩
      | some nonce =>
        simp only
        split
        · exact .inl ⟨nofun, .inr rfl⟩
        · next hgood =>
          refine .inr ⟨nonce, rfl, by simpa using hgood, ?_⟩
          split
          · rfl
          · split <;> rfl

variable (self) in
theorem settings_digestCheck (call : DigestCall) (fields : Fields) :
    (self.digestCheck c call fields).nonceTest = self.nonceTest ∧
      (self.digestCheck c call fields).nonceTtl = self.nonceTtl ∧
      (self.digestCheck c call fields).nonceQuota = self.nonceQuota ∧
      (self.digestCheck c call fields).username = .cpy (fieldOf fields "username") := by
  unfold digestCheck
  simp only
  repeat' split
  all_goals exact ⟨rfl, rfl, rfl, rfl⟩

variable (self) in
theorem digestCheck_of_right {call : DigestCall} {fields : Fields} {key : Str} {entry : Password}
    (hentry : self.entries key = some entry) (hexpired : entry.expired = false)
    (hright : call.Right c self fields key entry) :
    (self.digestCheck c call fields).result = .ok := by
  obtain ⟨rfl, nonce, hnonce, hgood, hfits, hresponse⟩ := hright
  unfold digestCheck
  simp only [hentry, hexpired, hnonce, hgood, hfits, hresponse]
  rfl

theorem digestReply_spec {t : PasswordTable} {call : DigestCall} {stale : Bool}
    {challenge : Option Str} (h : self.digestReply call stale = some (t, challenge)) :
    t.entries = self.entries ∧ t.result = self.result ∧ t.username = self.username ∧
      t.nonceTest = self.nonceTest ∧ t.nonceTtl = self.nonceTtl ∧
      t.nonceQuota = self.nonceQuota ∧
      (t.nonces = self.nonces ∧ (self.result = .ok ∨ self.nonceTest.isSome) ∨
        t.nonces = update self.nonces call.key
          (some (.new call.now self.nonceTtl self.nonceQuota)) ∧
          self.result ≠ .ok ∧ self.nonceTest = none ∧ self.nonces call.key = none) := by
  unfold digestReply at h
  simp only at h
  split at h
  · next hok =>
    obtain ⟨rfl, -⟩ := Prod.mk.inj (Option.some.inj h)
    exact ⟨rfl, rfl, rfl, rfl, rfl, rfl, .inl ⟨rfl, .inl hok⟩⟩
  · next hbad =>
    split at h
    · next htest =>
      obtain ⟨rfl, -⟩ := Prod.mk.inj (Option.some.inj h)
      exact ⟨rfl, rfl, rfl, rfl, rfl, rfl, .inl ⟨rfl, .inr (by rw [htest]; rfl)⟩⟩
    · next htest =>
      split at h
      · cases h
      · next hfree =>
        obtain ⟨rfl, -⟩ := Prod.mk.inj (Option.some.inj h)
        rw [Bool.not_eq_true, Option.isSome_eq_false_iff, Option.isNone_iff_eq_none] at hfree
        exact ⟨rfl, rfl, rfl, rfl, rfl, rfl, .inr ⟨rfl, hbad, htest, hfree⟩⟩

/-- The fields of the response to `digest`, if it begins as it should -/
def responseFields (call : DigestCall) : Option Fields :=
  (defix call.response "Digest ").map propsLoad

theorem entries_digest {call : DigestCall} {t : PasswordTable} {challenge : Option Str}
    (h : self.digest c call = some (t, challenge)) :
    t.entries = (self.modify (digestKey t.username call.realm)
      (·.attempted t.result call.now call.address)).entries ∧
    (t.result = .ok → ∃ fields entry, responseFields call = some fields ∧
      self.entries (digestKey t.username call.realm) = some entry ∧
        entry.expired = false ∧
        call.Right c self fields (digestKey t.username call.realm) entry) := by
  unfold digest at h
  cases hresponse : defix call.response "Digest " with
  | none =>
    rw [hresponse] at h
    obtain ⟨hentries, hresult, -⟩ := digestReply_spec h
    refine ⟨?_, fun hok => ?_⟩
    · rw [hentries, hresult]
      exact (modify_self fun _ => rfl).symm
    · rw [hresult] at hok
      cases hok
  | some response =>
    rw [hresponse] at h
    obtain ⟨hentries, hresult, husername, -⟩ := digestReply_spec h
    rw [hentries, hresult, husername]
    obtain ⟨hmodify, haccepts⟩ := entries_digestCheck (c := c) { self with
      username := .empty, realm := .empty, result := .badSyntax } call (propsLoad response)
    refine ⟨hmodify, fun hok => ?_⟩
    obtain ⟨entry, hentry, hexpired, hright⟩ := haccepts hok
    exact ⟨propsLoad response, entry, by rw [responseFields, hresponse]; rfl, hentry, hexpired,
      hright⟩

theorem digest_cases {call : DigestCall} {t : PasswordTable} {challenge : Option Str}
    (h : self.digest c call = some (t, challenge)) :
    ∃ (checked : PasswordTable) (stale : Bool),
      checked.digestReply call stale = some (t, challenge) ∧
      (responseFields call = none ∧ checked.result ≠ .ok ∧ checked.nonces = self.nonces ∧
          checked.nonceTest = self.nonceTest ∧ checked.nonceTtl = self.nonceTtl ∧
          checked.nonceQuota = self.nonceQuota ∨
        ∃ fields, responseFields call = some fields ∧
          checked = PasswordTable.digestCheck c { self with
            username := .empty, realm := .empty, result := .badSyntax } call fields) := by
  unfold digest at h
  unfold responseFields
  cases hresponse : defix call.response "Digest " with
  | none =>
    rw [hresponse] at h
    exact ⟨_, _, h, .inl ⟨rfl, nofun, rfl, rfl, rfl, rfl⟩⟩
  | some response =>
    rw [hresponse] at h
    exact ⟨_, _, h, .inr ⟨_, rfl, rfl⟩⟩

theorem digest_isSome {call : DigestCall} (hfree : self.nonces call.key = none) :
    (self.digest c call).isSome = true := by
  have hreply : ∀ (checked : PasswordTable) (stale : Bool), checked.nonces call.key = none →
      (checked.digestReply call stale).isSome = true := by
    intro checked stale hfree
    unfold digestReply
    simp only [hfree]
    split
    · rfl
    · split <;> rfl
  unfold digest
  split
  · exact hreply _ _ hfree
  · refine hreply _ _ ?_
    rename_i response _
    have hnonces := nonces_digestCheck (c := c) { self with
      username := .empty, realm := .empty, result := .badSyntax } call (propsLoad response)
    rcases hnonces with ⟨-, h | h⟩ | ⟨nonce, hnonce, -, h⟩
    · rw [h]
      exact hfree
    · rw [h, update_apply]
      split
      · rfl
      · exact hfree
    · have hne : call.key ≠ fieldOf (propsLoad response) "nonce" := by
        intro hkey
        rw [← hkey] at hnonce
        cases hfree.symm.trans hnonce
      rw [h, update_of_ne hne]
      exact hfree

end PasswordTable

end OpenAmq
