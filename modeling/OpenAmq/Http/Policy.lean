import Mathlib
import OpenAmq.Ipr.Config
import OpenAmq.Ipr.PasswordTable
import OpenAmq.Lib.Loop

/-!
# Access policies

What `http_access_policy` decides about a request, from the policies of the configuration, the
password tables and the blacklist.

* `AccessPass` — one pass of the access modules, with all that they read and write
* `executeAction`, `executeRule`, `executePolicy` — the parts of a policy
* `policyBefore` — `before` of `http_access_policy`
-/

namespace OpenAmq

open Lib

/-- `ipr_str_lower` -/
def strLower (s : Str) : Str := s.map Char.toLower

/-- `ipr_str_prefixed`, which finds the empty prefix in the empty string only -/
def strPrefixed (string start : Str) : Bool :=
  string.head? == start.head? && start.isPrefixOf string

/-- Whether `ipr_str_find` finds the needle -/
def strFound (haystack needle : Str) : Bool := strLower needle <:+: strLower haystack

/-! ## Requests, responses and contexts -/

/-- `http_request_t`, after `http_request_parse` with this reply code -/
structure HttpRequest where
  address : Str
  requestLine : Str
  requestMethod : Str
  path : Str
  /-- The header fields, with their names in lower case -/
  headers : Fields
  encrypted : Bool
  parsed : UInt32

def HttpRequest.getHeader (self : HttpRequest) (name : Str) : Str :=
  (self.headers.lookup (strLower (Shortstr.cpy name).chars)).getD []

/-- `http_response_t`, whose reply text is kept as the format that it is made from -/
structure HttpResponse where
  hostname : Shortstr
  rootUri : Shortstr
  replyCode : UInt32
  replyText : Option Str
  headers : Fields

namespace HttpResponse

/-- `set error` -/
def setError (self : HttpResponse) (replyCode : UInt32) (replyText : Option Str) : HttpResponse :=
  { self with replyCode, replyText := replyText <|> self.replyText }

/-- `set header` -/
def setHeader (self : HttpResponse) (name : String) (value : Str) : HttpResponse :=
  { self with headers := (name.toList, value) :: self.headers }

/-- `^[a-zA-Z0-9\.\-\+]+:` -/
def isAbsolute (uri : Str) : Bool :=
  let isProto (c : Char) : Bool := c.isAlphanum || c == '.' || c == '-' || c == '+'
  uri.takeWhile isProto ≠ [] ∧ (uri.dropWhile isProto).head? = some ':'

/-- `set redirect` -/
def setRedirect (self : HttpResponse) (newUri : Str) : HttpResponse :=
  (self.setHeader "location"
    (if isAbsolute newUri then newUri else self.rootUri.chars ++ newUri)).setError 302 none

end HttpResponse

/-- The user that the last authentication was about -/
structure AccessIdentity where
  authUser : Option Str
  authGroup : Option Str
  failUser : Option Str
  failRealm : Option Str
  failCode : PasswordResult
deriving DecidableEq

namespace AccessIdentity

/-- No user has been authenticated or refused. -/
def unknown : AccessIdentity := ⟨none, none, none, none, .ok⟩

/-- `set auth` -/
def setAuth (table : PasswordTable) (group : String) : AccessIdentity where
  authUser := some table.username.chars
  authGroup := some group.toList
  failUser := none
  failRealm := none
  failCode := table.result

/-- `set fail` -/
def setFail (table : PasswordTable) : AccessIdentity where
  authUser := none
  authGroup := none
  failUser := some table.username.chars
  failRealm := some table.realm.chars
  failCode := table.result

/-- Credentials were looked at. -/
def Attempted (self : AccessIdentity) : Prop :=
  self.authUser.isSome = true ∨ self.failUser.isSome = true

/-- The user may be known after the passwords have been refreshed. -/
def Refreshable (self : AccessIdentity) : Prop :=
  self.failCode = .notFound ∨ self.failCode = .expired

instance (self : AccessIdentity) : Decidable self.Attempted := by
  unfold Attempted
  infer_instance

instance (self : AccessIdentity) : Decidable self.Refreshable := by
  unfold Refreshable
  infer_instance

end AccessIdentity

/--
`http_access_context_t`. Its links to the password tables are those of the server. The blacklist
that it is linked to may be one that the server has destroyed since.
-/
structure AccessContext where
  identity : AccessIdentity
  blacklist : Nat
  retries : UInt64
  /-- The command of the refresh process -/
  process : Option Str
deriving DecidableEq

/-- `http_access_context_new`, with the blacklist that the server has then -/
def AccessContext.new (blacklist : Nat) : AccessContext := ⟨.unknown, blacklist, 0, none⟩

/-! ## What a pass reads -/

/-- Functions on texts that are not embedded -/
structure AccessMatchers where
  /-- `ipr_str_matches` -/
  strMatches : (string pattern : Str) → Bool
  /-- `ipr_net_cidr_eq` -/
  cidrEq : (address range : Str) → Bool
  ciphers : Ciphers

/-- `ipr_str_lex_matches` -/
def AccessMatchers.lexMatches (m : AccessMatchers) (string pattern : Str) : Bool :=
  m.strMatches (strLower string) (strLower pattern)

structure AccessConfig where
  /-- The items of `/config/access` -/
  access : List Xml
  policyTrace : Bool
  refreshBy : Str
  digestAuth : Str
  publicPort : Str
  /-- `ipr_net_get_hostname` -/
  hostname : Shortstr

/-- What a pass finds outside of its connection -/
structure AccessServer where
  basic : PasswordTable
  digest : PasswordTable
  /-- The addresses in the blacklist, and how often it has been loaded -/
  blacklist : Str → Bool
  loads : Nat
  now : Nat
  /-- The keys of the nonces that are created next -/
  nonceKeys : Nat → Str
  /-- The exit code of the refresh process, once it has ended -/
  exitCode : Option Int

/-- `s_format_root_uri` -/
def HttpResponse.new (config : AccessConfig) (request : HttpRequest) : HttpResponse :=
  let proto := if request.encrypted then "https://" else "http://"
  let host := request.getHeader "host".toList
  let hostname := if host ≠ [] then Shortstr.cpy host else config.hostname
  let uri := (Shortstr.cpy proto.toList).cat hostname.chars
  let uri :=
    if ':' ∉ hostname.chars ∧ config.publicPort ≠ [] ∧ config.publicPort ≠ "80".toList then
      (uri.cat ":".toList).cat config.publicPort
    else uri
  ⟨hostname, uri.cat "/".toList, request.parsed, none, []⟩

/-- One pass of the access modules over a request -/
structure AccessPass where
  server : AccessServer
  request : HttpRequest
  context : AccessContext
  response : HttpResponse

/-- The decision of a rule; none is taken when the policy goes on. -/
inductive PolicyDecision where
  /-- 1: the request is allowed, or the response has been prepared -/
  | taken
  /-- -1: the rest of the policy is skipped -/
  | skip
deriving DecidableEq

/-- What a part of a policy returns, `none` when the program panics -/
abbrev PolicyResult := Option (Option PolicyDecision × AccessPass)

def Xml.named (name : String) : Xml → Bool
  | .item itemName _ _ => itemName == name.toList
  | .text _ => false

/-- `ipr_config_get` without a default -/
def Xml.attr? (self : Xml) (name : String) : Option Str := self.attrs.get name.toList

/-- `ipr_config_get` -/
def Xml.attr (self : Xml) (name default : String) : Str := (self.attr? name).getD default.toList

namespace AccessPass

variable (m : AccessMatchers) (config : AccessConfig)

/-! ## Actions -/

/-- `http_response_set_error` -/
def setError (self : AccessPass) (replyCode : UInt32) (replyText : Option Str) : AccessPass :=
  { self with response := self.response.setError replyCode replyText }

/-- `http_access_context_set_auth` or `set_fail` -/
def identify (self : AccessPass) (table : PasswordTable) : AccessPass :=
  let identity := if table.result = .ok then .setAuth table "users" else .setFail table
  { self with context := { self.context with identity } }

/-- The end of `s_execute_authenticate`: a challenge denies access. -/
def replyChallenge (self : AccessPass) : Option Str → Option PolicyDecision × AccessPass
  | none => (none, self)
  | some challenge =>
    (some .taken,
      { self with response := self.response.setHeader "www-authenticate" challenge }.setError 401
        (some "Authenticate yourself to access this resource".toList))

def exampleNonce : Shortstr := .cpy "dcd98b7102dd2f0e8b11d0f600bfb0c093".toList

/-- The call of a password table, with the server and the table after it and the challenge -/
def authenticate (server : AccessServer) (request : HttpRequest) (hostname : Shortstr)
    (action : Xml) : Option (AccessServer × PasswordTable × Option Str) :=
  let realm := (action.attr? "realm").getD hostname.chars
  let credentials := request.getHeader "authorization".toList
  let mechanism := action.attr "mechanism" "basic"
  if mechanism = "basic".toList then
    let (table, challenge) := server.basic.basic m.ciphers
      { now := server.now, address := some request.address, realm, response := some credentials }
    some ({ server with basic := table }, table, challenge)
  else if mechanism = "digest".toList then
    let digest :=
      if config.policyTrace then server.digest.setNonceTest server.now exampleNonce
      else server.digest
    (digest.digest m.ciphers
      { now := server.now, key := server.nonceKeys 0, address := some request.address, realm,
        response := some credentials, method := request.requestMethod,
        uri := request.path }).map fun (table, challenge) =>
      ({ server with digest := table, nonceKeys := fun n => server.nonceKeys (n + 1) }, table,
        challenge)
  else none

/-- `s_execute_authenticate` -/
def executeAuthenticate (self : AccessPass) (action : Xml) : PolicyResult :=
  (authenticate m config self.server self.request self.response.hostname action).map
    fun (server, table, challenge) =>
      ({ self with server }.identify table).replyChallenge challenge

/-- The reply of `deny` and `ban` -/
def deny (self : AccessPass) (action : Xml) : AccessPass :=
  self.setError (.ofInt (Password.atoi (action.attr "code" "503")))
    (some (action.attr "text" "Access denied"))

/--
One action of `s_execute_actions`. The address that is banned gets into the blacklist of the server
later, and the message of `echo` into a log.
-/
def executeAction (action : Xml) (self : AccessPass) : PolicyResult :=
  if action.named "deny" then some (some .taken, self.deny action)
  else if action.named "allow" then some (some .taken, self)
  else if action.named "authenticate" then self.executeAuthenticate m config action
  else if action.named "redirect" then
    some (some .taken, { self with response := self.response.setRedirect (action.attr "uri" "/") })
  else if action.named "ban" then some (some .taken, self.deny action)
  else if action.named "skip" then some (some .skip, self)
  else if action.named "echo" then some (none, self)
  else none

/-- The actions of a rule, or else of the default rule of its policy -/
def actionsOf (rules : List Xml) (rule : Xml) : List Xml :=
  match rule.children with
  | [] => (rules.find? (·.named "default")).elim [] Xml.children
  | actions => actions

/-- `s_execute_actions` -/
def executeActions (rules : List Xml) (rule : Xml) (self : AccessPass) : PolicyResult :=
  untilDecided (executeAction m config) (actionsOf rules rule) self

/-! ## Rules and policies -/

def executeIf (matched : Bool) (rules : List Xml) (rule : Xml) (self : AccessPass) : PolicyResult :=
  if matched then executeActions m config rules rule self else some (none, self)

/-- The address is in the blacklist; `none` when the list that is searched has been destroyed. -/
def blacklisted (self : AccessPass) : Option Bool :=
  if self.context.blacklist = self.server.loads then
    some (self.server.blacklist self.request.address)
  else none

/-- The rule `from` matches. -/
def isFrom (rule : Xml) (self : AccessPass) : Bool :=
  (rule.attr? "value").any fun value =>
    m.strMatches self.request.address value || m.cidrEq self.request.address value

/-- The rule `header` matches. -/
def hasHeader (rule : Xml) (self : AccessPass) : Bool :=
  (rule.attr? "name").any fun name => (rule.attr? "value").any fun value =>
    m.lexMatches (self.request.getHeader name) value

/-- The rule `local` matches. -/
def isLocal (self : AccessPass) : Bool :=
  let referer := self.request.getHeader "referer".toList
  referer == [] || referer == self.response.rootUri.chars

/-- The value of the rule `detect` is in the request. -/
def detects (rule : Xml) (self : AccessPass) : Bool :=
  (rule.attr? "value").any (strFound self.request.requestLine)

/-- The request is longer than the limit of the rule `detect`. -/
def exceeds (rule : Xml) (self : AccessPass) : Bool :=
  (rule.attr? "limit").any fun limit =>
    (UInt32.ofInt (Password.atoi limit)).toNat < self.request.requestLine.length

/-- The group satisfies the rule `group`. -/
def groupMatches (rule : Xml) (group : Option Str) : Bool :=
  (rule.attr? "value").any fun value => group.any (m.lexMatches · value)

/-- `s_execute_rule` -/
def executeRule (rules : List Xml) (rule : Xml) (self : AccessPass) : PolicyResult :=
  if rule.named "blacklist" then
    self.blacklisted.bind fun found => executeIf m config found rules rule self
  else if rule.named "from" then executeIf m config (self.isFrom m rule) rules rule self
  else if rule.named "header" then executeIf m config (self.hasHeader m rule) rules rule self
  else if rule.named "local" then executeIf m config self.isLocal rules rule self
  else if rule.named "detect" then
    unlessDecided (executeIf m config (self.detects rule) rules rule self) fun self =>
      executeIf m config (self.exceeds rule) rules rule self
  else if rule.named "group" then
    executeIf m config (groupMatches m rule self.context.identity.authGroup) rules rule self
  else if rule.named "always" then executeIf m config true rules rule self
  else if rule.named "default" then some (none, self)
  else none

/-- The policy is one for the path of the request. -/
def policyMatches (policy : Xml) (self : AccessPass) : Bool :=
  (policy.attr? "uri").all (strPrefixed self.request.path)

def policyTaken (r : Option PolicyDecision × AccessPass) : Option PolicyDecision × AccessPass :=
  (if r.1 = some .taken then some .taken else none, r.2)

/-- `s_execute_policy` -/
def executePolicy (policy : Xml) (self : AccessPass) : PolicyResult :=
  if policy.named "policy" then
    if self.policyMatches policy then
      (untilDecided (executeRule m config policy.children) policy.children self).map policyTaken
    else some (none, self)
  else none

/-- The name of the policy is `default`. -/
def isDefault (policy : Xml) : Bool := policy.attr "name" "" == "default".toList

def executeNamed (policy : Xml) (self : AccessPass) : PolicyResult :=
  if isDefault policy then some (none, self) else executePolicy m config policy self

/-- The items that the first loop goes over, from the first policy on -/
def policies : List Xml := config.access.dropWhile fun item => !item.named "policy"

/-- The policy that is executed when no other has decided -/
def defaultPolicy : Option Xml :=
  config.access.find? fun item => item.named "policy" && isDefault item

/-- The policies, and the default one if they decide nothing -/
def executePolicies (self : AccessPass) : PolicyResult :=
  unlessDecided (untilDecided (executeNamed m config) (policies config) self) fun self =>
    (defaultPolicy config).elim (some (none, self)) (executePolicy m config · self)

/-- `before` of `http_access_policy` -/
def policyBefore (self : AccessPass) : Option AccessPass :=
  (executePolicies m config self).map fun (decision, self) =>
    if decision.isSome then self else self.setError 403 (some "No access policy".toList)

end AccessPass

end OpenAmq
