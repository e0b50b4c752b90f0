import OpenAmq.Http.Policy

/-!
# Access to a connection

The access modules of a server are asked about each request of a connection, and once more after a
while when one of them wants that.

* `AccessConnection.step` — the agent of a connection
* `AccessHistory` — a connection, and one that has had the current request only
* `AccessHistory.Kept` — what is expected of the answer to a request
-/

namespace OpenAmq

open Lib

/-! ## Modules -/

/-- `HTTP_ACCESS_RETRY`; no module here returns `HTTP_ACCESS_ABORT`. -/
inductive AccessReturn where
  | retry
deriving DecidableEq

/-- The access modules, of which `http_access_dos` and `http_access_logger` have no `before`. -/
inductive AccessModule where
  | dos | policy | logger | refresh | digestAmqp
deriving DecidableEq

/-- The programs that start a web server -/
inductive HttpProgram where
  | http | zyre
deriving DecidableEq

def HttpProgram.modules : HttpProgram → List AccessModule
  | .http => [.dos, .policy, .logger, .refresh]
  | .zyre => [.dos, .policy, .logger, .digestAmqp]

namespace AccessPass

/-- The command of a refresh process. The context has a link to the digest table always. -/
def refreshCommand (config : AccessConfig) (self : AccessPass) : Str :=
  vsnprintf 255 (config.refreshBy ++ " Digest ".toList ++
    self.context.identity.failUser.getD [] ++ ' ' ::
    self.context.identity.failRealm.getD [] ++ ' ' :: config.digestAuth)

/-- `before` of `http_access_refresh` -/
def refreshBefore (config : AccessConfig) (self : AccessPass) : Option AccessReturn × AccessPass :=
  let context := self.context
  if config.refreshBy = [] then (none, self)
  else if context.process.isSome then
    match self.server.exitCode with
    | none =>
      let context := { context with retries := context.retries + 1 }
      if context.retries < 5 then (some .retry, { self with context })
      else
        (none, { self with context := { context with process := none } }.setError 500
          (some "Authentication system did not respond".toList))
    | some exitCode =>
      let self := if exitCode ≠ 0 then
        self.setError 500 (some "Authentication system failed".toList) else self
      (none, { self with context := { context with process := none } })
  else if context.identity.Refreshable then
    (some .retry,
      { self with context := { context with process := some (self.refreshCommand config) } })
  else (none, self)

/-- `before` of `zyre_digest_amqp`, which asks the AMQP server for the password. -/
def digestAmqpBefore (self : AccessPass) : Option AccessReturn × AccessPass :=
  if self.context.identity.Refreshable ∧ self.context.retries = 0 then
    (some .retry,
      { self with context := { self.context with retries := self.context.retries + 1 } })
  else (none, self)

end AccessPass

section Model

variable (m : AccessMatchers) (config : AccessConfig)

/-- `before` of a module -/
def AccessModule.before (self : AccessModule) (pass : AccessPass) :
    Option (Option AccessReturn × AccessPass) :=
  match self with
  | .dos | .logger => some (none, pass)
  | .policy => (pass.policyBefore m config).map fun pass => (none, pass)
  | .refresh => some (pass.refreshBefore config)
  | .digestAmqp => some pass.digestAmqpBefore

/-- What becomes of a request -/
inductive AccessOutcome where
  /-- It goes to a driver when its content is there. -/
  | accepted
  | refused (replyCode : UInt32)
  /-- The modules are asked again. -/
  | retry
deriving DecidableEq

/-- The end of a pass in which no module wants another -/
def HttpResponse.outcome (self : HttpResponse) : AccessOutcome :=
  if self.replyCode = 200 then .accepted else .refused self.replyCode

/-- What the agent does after the modules -/
def AccessPass.conclude (r : Option AccessReturn × AccessPass) : AccessOutcome × AccessPass :=
  (if r.1 = some .retry then .retry else r.2.response.outcome, r.2)

/-- `do access handlers before` -/
def HttpProgram.handlersBefore (self : HttpProgram) (pass : AccessPass) :
    Option (AccessOutcome × AccessPass) :=
  (untilDecided (AccessModule.before m config) self.modules pass).map AccessPass.conclude

/-! ## The agent of a connection -/

/-- What the agent waits for -/
inductive AccessPhase where
  /-- The next request of the connection, when the reply to the last one has been sent -/
  | ready
  /-- The pause before the modules are asked again -/
  | retrying (request : HttpRequest) (response : HttpResponse)
  | closed

/-- The part of the agent that is about access -/
structure AccessConnection where
  context : AccessContext
  phase : AccessPhase

inductive AccessEvent where
  /-- A header is complete. -/
  | request (server : AccessServer) (request : HttpRequest)
  /-- The pause is over. -/
  | retry (server : AccessServer)

namespace AccessConnection

/-- `do access handlers open` -/
def new (loads : Nat) : AccessConnection := ⟨.new loads, .ready⟩

/-- The pass that an event starts, `none` when the agent waits for something else -/
def start (self : AccessConnection) : AccessEvent → Option AccessPass
  | .request server request =>
    match self.phase with
    | .ready => some ⟨server, request, self.context, .new config request⟩
    | _ => none
  | .retry server =>
    match self.phase with
    | .retrying request response => some ⟨server, request, self.context, response⟩
    | _ => none

def answer (program : HttpProgram) (e : AccessEvent) (pass : AccessPass) :
    Option (AccessOutcome × AccessPass) :=
  match e with
  | .request .. =>
    if pass.response.replyCode ≠ 200 then some (.refused pass.response.replyCode, pass)
    else program.handlersBefore m config pass
  | .retry _ => program.handlersBefore m config pass

/-- The connection after a pass, which is closed when an error is replied. -/
def finish (r : AccessOutcome × AccessPass) : AccessConnection where
  context := r.2.context
  phase :=
    match r.1 with
    | .accepted => .ready
    | .refused replyCode => if 400 ≤ replyCode then .closed else .ready
    | .retry => .retrying r.2.request r.2.response

/-- One event, with the outcome of the pass -/
def step (program : HttpProgram) (self : AccessConnection) (e : AccessEvent) :
    Option (Option AccessOutcome × AccessConnection) :=
  match self.start config e with
  | none => some (none, self)
  | some pass => (answer m config program e pass).map fun r => (some r.1, finish r)

/-- The outcome of an event, the inner `none` where there is no pass -/
def outcome (program : HttpProgram) (self : AccessConnection) (e : AccessEvent) :
    Option (Option AccessOutcome) :=
  (self.step m config program e).map Prod.fst

end AccessConnection

/-! ## What is expected -/

/-- The same request at the same moment on a new connection -/
def AccessPass.anew (self : AccessPass) : AccessPass :=
  { self with context := .new self.server.loads, response := .new config self.request }

/-- What the policies say about a request on a new connection -/
def AccessPass.verdict (self : AccessPass) : Option AccessOutcome :=
  ((self.anew config).policyBefore m config).map fun pass => pass.response.outcome

/-- The pass comes after the passwords have been refreshed. -/
def HttpProgram.Refreshed (self : HttpProgram) (e : AccessEvent) : Prop :=
  match e, self with
  | .request .., _ => False
  | .retry server, .http => server.exitCode = some 0
  | .retry _, .zyre => True

/-- A connection, and one that has had only the current request of it -/
structure AccessHistory where
  connection : AccessConnection
  alone : AccessConnection

namespace AccessHistory

def new (loads : Nat) : AccessHistory := ⟨.new loads, .new loads⟩

/-- The connection that an event is compared on. It has the blacklist of the moment. -/
def reference (self : AccessHistory) : AccessEvent → AccessConnection
  | .request server _ => .new server.loads
  | .retry server =>
    { self.alone with context := { self.alone.context with blacklist := server.loads } }

/-- One event on both connections -/
def step (program : HttpProgram) (self : AccessHistory) (e : AccessEvent) : Option AccessHistory :=
  if (self.connection.start config e).isNone then some self
  else
    (self.connection.step m config program e).bind fun r =>
      ((self.reference e).step m config program e).map fun r' => ⟨r.2, r'.2⟩

/-- The outcome does not depend on what has been before on the connection. After the passwords have
been refreshed it is what the policies say about a new request. -/
def Kept (program : HttpProgram) (self : AccessHistory) (e : AccessEvent) : Prop :=
  ∀ pass, self.connection.start config e = some pass → self.connection.outcome m config program e =
      (self.reference e).outcome m config program e ∧
    (program.Refreshed e →
      self.connection.outcome m config program e = (pass.verdict m config).map some)

/-! ## What earlier requests leave -/

/-- Where the pass comes to a rule it finds the same as on a connection with the context `base`. -/
def RuleUnspoilt (left base : AccessContext) (rule : Xml) (pass : AccessPass) : Prop :=
  (rule.named "blacklist" = true → left.blacklist = pass.server.loads) ∧
  (rule.named "group" = true → pass.context.identity = base.identity →
    AccessPass.groupMatches m rule left.identity.authGroup =
      AccessPass.groupMatches m rule base.identity.authGroup)

/-- So for all rules of a policy -/
def PolicyUnspoilt (left base : AccessContext) (policy : Xml) (pass : AccessPass) : Prop :=
  pass.policyMatches policy = true →
    Wherever (AccessPass.executeRule m config policy.children) (RuleUnspoilt m left base)
      policy.children pass

/-- So for all policies that are come to -/
def PoliciesUnspoilt (left base : AccessContext) (pass : AccessPass) : Prop :=
  Wherever (AccessPass.executeNamed m config)
    (fun policy pass => AccessPass.isDefault policy = false →
      PolicyUnspoilt m config left base policy pass) (AccessPass.policies config) pass ∧
  ∀ pass' policy,
    untilDecided (AccessPass.executeNamed m config) (AccessPass.policies config) pass =
      some (none, pass') → AccessPass.defaultPolicy config = some policy →
    PolicyUnspoilt m config left base policy pass'

/-- The passwords are refreshed after a first pass exactly when this request is a reason to. -/
def RefreshUnspoilt (program : HttpProgram) (left : AccessContext) (identity : AccessIdentity) :
    Prop :=
  match program with
  | .http => config.refreshBy ≠ [] → identity.Attempted ∨ ¬ left.identity.Refreshable
  | .zyre =>
    if identity.Attempted then identity.Refreshable → left.retries = 0
    else left.identity.Refreshable → left.retries ≠ 0

/--
Nothing that is left of earlier passes is looked at: no blacklist that has been loaded again, no
group, no failure and no count of retries of an earlier request, and no reply code of an earlier
pass over a request that is allowed now.
-/
def Unspoilt (program : HttpProgram) (self : AccessHistory) (e : AccessEvent) : Prop :=
  ∀ pass base, self.connection.start config e = some pass →
    (self.reference e).start config e = some base → pass.request.parsed = 200 →
    PoliciesUnspoilt m config pass.context base.context base ∧
    match e with
    | .request .. =>
      ∀ pass', base.policyBefore m config = some pass' →
        RefreshUnspoilt config program pass.context pass'.context.identity
    | .retry server =>
      (program = .http → server.exitCode = none →
        (pass.context.retries + 1 < 5 ↔ base.context.retries + 1 < 5)) ∧
      (program.Refreshed e →
        PoliciesUnspoilt m config pass.context (pass.anew config).context (pass.anew config) ∧
        (pass.response.replyCode = 200 ∨
          ∀ pass', (pass.anew config).policyBefore m config = some pass' →
            pass'.response.replyCode ≠ 200))

end AccessHistory

end Model

end OpenAmq
