import OpenAmq.Http.Access

/-!
# Decisions that do not depend on earlier requests

* `AccessPass.Mirrors` — two passes over one request, on a connection with a past and on another
* `executeRule_mirrors`, `policyBefore_mirrors` — how the decisions of the passes compare
* `AccessHistory.Matched` — what the connection of a history has in common with the other
* `decisions_kept` — the decisions of a connection on which nothing that is left is looked at
-/

namespace OpenAmq

open Lib Option

/-! ## Two passes over one request -/

/-- Two passes over one request, which began as `left` and `base`. They have the same identity once
credentials were looked at, and the same reply code once there is a reply. -/
structure AccessPass.Mirrors (left base pass other : AccessPass) : Prop where
  server : pass.server = other.server
  request : pass.request = left.request
  requestOther : other.request = left.request
  hostname : pass.response.hostname = left.response.hostname
  hostnameOther : other.response.hostname = left.response.hostname
  rootUri : pass.response.rootUri = left.response.rootUri
  rootUriOther : other.response.rootUri = left.response.rootUri
  context : pass.context = { left.context with identity := pass.context.identity }
  contextOther : other.context = { base.context with identity := other.context.identity }
  linked : base.context.blacklist = other.server.loads
  exitCode : other.server.exitCode = left.server.exitCode
  identity : (pass.context.identity = left.context.identity ∧
      other.context.identity = base.context.identity) ∨
    (pass.context.identity = other.context.identity ∧ other.context.identity.Attempted)
  replyCode : (pass.response.replyCode = left.response.replyCode ∧
      other.response.replyCode = base.response.replyCode) ∨
    pass.response.replyCode = other.response.replyCode

/-- What is compared of the results of a part of a policy -/
abbrev SameResult (left base : AccessPass) : PolicyResult → PolicyResult → Prop :=
  SameDecision (AccessPass.Mirrors left base)

theorem AccessIdentity.attempted_setAuth (table : PasswordTable) (group : String) :
    (AccessIdentity.setAuth table group).Attempted := .inl rfl

theorem AccessIdentity.attempted_setFail (table : PasswordTable) :
    (AccessIdentity.setFail table).Attempted := .inr rfl

namespace AccessPass

variable {m : AccessMatchers} {config : AccessConfig} {left base self other : AccessPass}
  {rules : List Xml} {rule : Xml}

theorem Mirrors.refl_of (hserver : left.server = base.server)
    (hrequest : left.request = base.request)
    (hhostname : left.response.hostname = base.response.hostname)
    (hrootUri : left.response.rootUri = base.response.rootUri)
    (hlinked : base.context.blacklist = base.server.loads) : Mirrors left base left base where
  server := hserver
  request := rfl
  requestOther := hrequest.symm
  hostname := rfl
  hostnameOther := hhostname.symm
  rootUri := rfl
  rootUriOther := hrootUri.symm
  context := rfl
  contextOther := rfl
  linked := hlinked
  exitCode := by rw [hserver]
  identity := .inl ⟨rfl, rfl⟩
  replyCode := .inl ⟨rfl, rfl⟩

theorem Mirrors.sameRequest (h : Mirrors left base self other) : self.request = other.request :=
  h.request.trans h.requestOther.symm

theorem Mirrors.sameHostname (h : Mirrors left base self other) :
    self.response.hostname = other.response.hostname :=
  h.hostname.trans h.hostnameOther.symm

theorem Mirrors.sameRootUri (h : Mirrors left base self other) :
    self.response.rootUri = other.response.rootUri :=
  h.rootUri.trans h.rootUriOther.symm

theorem Mirrors.setError (h : Mirrors left base self other) (replyCode : UInt32)
    (replyText : Option Str) :
    Mirrors left base (self.setError replyCode replyText) (other.setError replyCode replyText) where
  server := h.server
  request := h.request
  requestOther := h.requestOther
  hostname := h.hostname
  hostnameOther := h.hostnameOther
  rootUri := h.rootUri
  rootUriOther := h.rootUriOther
  context := h.context
  contextOther := h.contextOther
  linked := h.linked
  exitCode := h.exitCode
  identity := h.identity
  replyCode := .inr rfl

theorem Mirrors.setHeader (h : Mirrors left base self other) (name : String) (value : Str) :
    Mirrors left base { self with response := self.response.setHeader name value }
      { other with response := other.response.setHeader name value } where
  server := h.server
  request := h.request
  requestOther := h.requestOther
  hostname := h.hostname
  hostnameOther := h.hostnameOther
  rootUri := h.rootUri
  rootUriOther := h.rootUriOther
  context := h.context
  contextOther := h.contextOther
  linked := h.linked
  exitCode := h.exitCode
  identity := h.identity
  replyCode := h.replyCode

theorem Mirrors.identify (h : Mirrors left base self other) {server : AccessServer}
    (hloads : server.loads = other.server.loads)
    (hexitCode : server.exitCode = other.server.exitCode) (table : PasswordTable) :
    Mirrors left base ({ self with server }.identify table)
      ({ other with server }.identify table) where
  server := rfl
  request := h.request
  requestOther := h.requestOther
  hostname := h.hostname
  hostnameOther := h.hostnameOther
  rootUri := h.rootUri
  rootUriOther := h.rootUriOther
  context := by
    rw [AccessPass.identify, h.context]
  contextOther := by
    rw [AccessPass.identify, h.contextOther]
  linked := h.linked.trans hloads.symm
  exitCode := hexitCode.trans h.exitCode
  identity := by
    refine .inr ⟨rfl, ?_⟩
    unfold AccessPass.identify
    split
    · exact AccessIdentity.attempted_setAuth table "users"
    · exact AccessIdentity.attempted_setFail table
  replyCode := h.replyCode

theorem Mirrors.replyChallenge (h : Mirrors left base self other) (challenge : Option Str) :
    SameResult left base (some (self.replyChallenge challenge))
      (some (other.replyChallenge challenge)) := by
  cases challenge with
  | none => exact .some ⟨rfl, h⟩
  | some challenge => exact .some ⟨rfl, (h.setHeader _ _).setError _ _⟩

theorem authenticate_spec {server server' : AccessServer} {request : HttpRequest}
    {hostname : Shortstr} {action : Xml} {table : PasswordTable} {challenge : Option Str}
    (h : authenticate m config server request hostname action = some (server', table, challenge)) :
    server'.loads = server.loads ∧ server'.exitCode = server.exitCode := by
  unfold authenticate at h
  dsimp only at h
  split at h
  · obtain ⟨rfl, -⟩ := Prod.mk.inj (some.inj h)
    exact ⟨rfl, rfl⟩
  split at h
  · obtain ⟨r, -, hr⟩ := map_eq_some_iff.mp h
    obtain ⟨rfl, -⟩ := Prod.mk.inj hr
    exact ⟨rfl, rfl⟩
  · cases h

theorem executeAuthenticate_mirrors (h : Mirrors left base self other) (action : Xml) :
    SameResult left base (self.executeAuthenticate m config action)
      (other.executeAuthenticate m config action) := by
  have hsame : authenticate m config self.server self.request self.response.hostname action =
      authenticate m config other.server other.request other.response.hostname action := by
    rw [h.server, h.sameRequest, h.sameHostname]
  unfold executeAuthenticate
  rw [hsame]
  cases hcall : authenticate m config other.server other.request other.response.hostname action with
  | none => exact .none
  | some r =>
    obtain ⟨hloads, hexitCode⟩ := authenticate_spec hcall
    exact (h.identify hloads hexitCode r.2.1).replyChallenge r.2.2

theorem Mirrors.deny (h : Mirrors left base self other) (action : Xml) :
    Mirrors left base (self.deny action) (other.deny action) := h.setError _ _

theorem Mirrors.redirect (h : Mirrors left base self other) (newUri : Str) :
    Mirrors left base { self with response := self.response.setRedirect newUri }
      { other with response := other.response.setRedirect newUri } := by
  unfold HttpResponse.setRedirect
  rw [h.sameRootUri]
  exact (h.setHeader _ _).setError 302 none

theorem executeAction_mirrors (h : Mirrors left base self other) (action : Xml) :
    SameResult left base (executeAction m config action self)
      (executeAction m config action other) := by
  unfold executeAction
  split
  · exact .some ⟨rfl, h.deny action⟩
  split
  · exact .some ⟨rfl, h⟩
  split
  · exact executeAuthenticate_mirrors h action
  split
  · exact .some ⟨rfl, h.redirect _⟩
  split
  · exact .some ⟨rfl, h.deny action⟩
  split
  · exact .some ⟨rfl, h⟩
  split
  · exact .some ⟨rfl, h⟩
  · exact .none

theorem executeIf_mirrors (h : Mirrors left base self other) (matched : Bool) :
    SameResult left base (executeIf m config matched rules rule self)
      (executeIf m config matched rules rule other) := by
  cases matched with
  | false => exact .some ⟨rfl, h⟩
  | true =>
    exact untilDecided_rel (fun action _ _ _ h _ => executeAction_mirrors h action)
      (wherever_of_forall (fun _ _ _ => trivial) other) h

theorem executeRule_mirrors (h : Mirrors left base self other)
    (hrule : AccessHistory.RuleUnspoilt m left.context base.context rule other) :
    SameResult left base (executeRule m config rules rule self)
      (executeRule m config rules rule other) := by
  obtain ⟨hblacklist, hgroup⟩ := hrule
  unfold executeRule
  split
  · next hname =>
    have hlink : self.context.blacklist = self.server.loads := by
      rw [h.context, h.server]
      exact hblacklist hname
    have hother : other.context.blacklist = other.server.loads := by
      rw [h.contextOther]
      exact h.linked
    rw [blacklisted, blacklisted, if_pos hlink, if_pos hother, h.server, h.sameRequest]
    exact executeIf_mirrors h _
  split
  · rw [isFrom, h.sameRequest]
    exact executeIf_mirrors h _
  split
  · rw [hasHeader, h.sameRequest]
    exact executeIf_mirrors h _
  split
  · rw [isLocal, h.sameRequest, h.sameRootUri]
    exact executeIf_mirrors h _
  split
  · rw [detects, h.sameRequest]
    refine unlessDecided_rel (executeIf_mirrors h _) fun self other _ h => ?_
    rw [exceeds, h.sameRequest]
    exact executeIf_mirrors h _
  split
  · next hname =>
    have hmatched : groupMatches m rule self.context.identity.authGroup =
        groupMatches m rule other.context.identity.authGroup := by
      obtain ⟨hleft, hbase⟩ | ⟨hsame, -⟩ := h.identity
      · rw [hleft, hgroup hname hbase, hbase]
      · rw [hsame]
    rw [hmatched]
    exact executeIf_mirrors h _
  split
  · exact executeIf_mirrors h true
  split
  · exact .some ⟨rfl, h⟩
  · exact .none

theorem executePolicy_mirrors (h : Mirrors left base self other) {policy : Xml}
    (hpolicy : AccessHistory.PolicyUnspoilt m config left.context base.context policy other) :
    SameResult left base (executePolicy m config policy self)
      (executePolicy m config policy other) := by
  have hmatches : self.policyMatches policy = other.policyMatches policy := by
    rw [policyMatches, h.sameRequest, policyMatches]
  unfold executePolicy
  split
  · rw [hmatches]
    split
    · next huri =>
      have hrules : SameResult left base
          (untilDecided (executeRule m config policy.children) policy.children self)
          (untilDecided (executeRule m config policy.children) policy.children other) :=
        untilDecided_rel (fun rule _ self other h hrule => executeRule_mirrors h hrule)
          (hpolicy huri) h
      generalize untilDecided _ _ self = r, untilDecided _ _ other = r' at hrules ⊢
      cases hrules with
      | none => exact .none
      | some hrel =>
        obtain ⟨hdecision, h⟩ := hrel
        exact .some ⟨by rw [policyTaken, hdecision, policyTaken], h⟩
    · exact .some ⟨rfl, h⟩
  · exact .none

theorem policyBefore_mirrors (h : Mirrors left base self other)
    (hpolicies : AccessHistory.PoliciesUnspoilt m config left.context base.context other) :
    Option.Rel (Mirrors left base) (self.policyBefore m config) (other.policyBefore m config) := by
  obtain ⟨hnamed, hdefault⟩ := hpolicies
  have hloop : SameResult left base (untilDecided (executeNamed m config) (policies config) self)
      (untilDecided (executeNamed m config) (policies config) other) := by
    refine untilDecided_rel (fun policy _ self other h hpolicy => ?_) hnamed h
    unfold executeNamed
    cases hname : isDefault policy with
    | true => exact .some ⟨rfl, h⟩
    | false => exact executePolicy_mirrors h (hpolicy hname)
  have hall : SameResult left base (self.executePolicies m config)
      (other.executePolicies m config) := by
    refine unlessDecided_rel hloop fun self' other' hnone h => ?_
    cases hpolicy : defaultPolicy config with
    | none => exact .some ⟨rfl, h⟩
    | some policy => exact executePolicy_mirrors h (hdefault other' policy hnone hpolicy)
  unfold policyBefore
  generalize self.executePolicies m config = r, other.executePolicies m config = r' at hall ⊢
  cases hall with
  | none => exact .none
  | @some r r' hrel =>
    obtain ⟨decision, self⟩ := r
    obtain ⟨decision', other⟩ := r'
    obtain ⟨hdecision, h⟩ := hrel
    obtain rfl : decision = decision' := hdecision
    cases decision with
    | none => exact .some (h.setError _ _)
    | some decision => exact .some h

end AccessPass

/-! ## The last module -/

variable {m : AccessMatchers} {config : AccessConfig} {program : HttpProgram}

/-- The module of a program that wants another pass, with what the agent makes of it -/
def HttpProgram.conclude (program : HttpProgram) (config : AccessConfig) (pass : AccessPass) :
    AccessOutcome × AccessPass :=
  match program with
  | .http => AccessPass.conclude (pass.refreshBefore config)
  | .zyre => AccessPass.conclude pass.digestAmqpBefore

theorem handlersBefore_eq (pass : AccessPass) : program.handlersBefore m config pass =
      (pass.policyBefore m config).map (program.conclude config) := by
  have hlast : ∀ r : Option AccessReturn × AccessPass,
      unlessDecided (some r) (fun pass => some (none, pass)) = some r := by
    rintro ⟨_ | _, pass⟩ <;> rfl
  unfold HttpProgram.handlersBefore
  cases program with
  | http | zyre =>
    simp only [HttpProgram.modules, untilDecided, AccessModule.before, unlessDecided]
    cases pass.policyBefore m config with
    | none => rfl
    | some pass => exact congrArg (Option.map _) (hlast _)

/-- Two connections on which the same request is retried -/
structure AccessPass.Waiting (program : HttpProgram) (config : AccessConfig)
    (pass other : AccessPass) : Prop where
  request : pass.request = other.request
  parsed : pass.request.parsed = 200
  hostname : pass.response.hostname = (HttpResponse.new config pass.request).hostname
  rootUri : pass.response.rootUri = (HttpResponse.new config pass.request).rootUri
  hostnameOther : other.response.hostname = pass.response.hostname
  rootUriOther : other.response.rootUri = pass.response.rootUri
  replyCode : pass.response.replyCode = other.response.replyCode
  identity : pass.context.identity = other.context.identity
  pending : match program with
    | .http => config.refreshBy ≠ [] ∧ pass.context.process.isSome = true ∧
        other.context.process.isSome = true
    | .zyre => pass.context.retries ≠ 0 ∧ other.context.retries ≠ 0

/-- What two passes have in common at their end -/
structure Concluded (program : HttpProgram) (config : AccessConfig)
    (r r' : AccessOutcome × AccessPass) : Prop where
  outcome : r.1 = r'.1
  process : program = .http → r.1 ≠ .retry → r.2.context.process = none
  waiting : r.1 = .retry → r.2.Waiting program config r'.2

theorem AccessIdentity.not_attempted_unknown : ¬ AccessIdentity.unknown.Attempted := by decide

theorem AccessIdentity.not_refreshable_unknown : ¬ AccessIdentity.unknown.Refreshable := by decide

variable {pass : AccessPass} {e : AccessEvent}

namespace AccessPass

variable {left base self other : AccessPass}

/-- What the end of two passes leaves of the requests and responses -/
theorem Mirrors.waiting (h : Mirrors left base self other) (context context' : AccessContext)
    (hparsed : left.request.parsed = 200)
    (hhostname : left.response.hostname = (HttpResponse.new config left.request).hostname)
    (hrootUri : left.response.rootUri = (HttpResponse.new config left.request).rootUri)
    (hreplyCode : left.response.replyCode = base.response.replyCode)
    (hidentity : context.identity = context'.identity)
    (hpending : match program with
      | .http => config.refreshBy ≠ [] ∧ context.process.isSome = true ∧
          context'.process.isSome = true
      | .zyre => context.retries ≠ 0 ∧ context'.retries ≠ 0) :
    Waiting program config { self with context } { other with context := context' } where
  request := h.sameRequest
  parsed := h.request ▸ hparsed
  hostname := by
    rw [h.hostname, hhostname, ← h.request]
  rootUri := by
    rw [h.rootUri, hrootUri, ← h.request]
  hostnameOther := h.sameHostname.symm
  rootUriOther := h.sameRootUri.symm
  replyCode := by
    obtain ⟨hleft, hbase⟩ | hsame := h.replyCode
    · exact hleft.trans (hreplyCode.trans hbase.symm)
    · exact hsame
  identity := hidentity
  pending := hpending

theorem Mirrors.sameReplyCode (h : Mirrors left base self other)
    (hreplyCode : left.response.replyCode = base.response.replyCode) :
    self.response.replyCode = other.response.replyCode := by
  obtain ⟨hleft, hbase⟩ | hsame := h.replyCode
  · exact hleft.trans (hreplyCode.trans hbase.symm)
  · exact hsame

theorem concluded_none {pass' : AccessPass}
    (hreplyCode : pass.response.replyCode = pass'.response.replyCode)
    (hprocess : program = .http → pass.context.process = none) :
    Concluded program config (conclude (none, pass)) (conclude (none, pass')) where
  outcome := by
    show pass.response.outcome = pass'.response.outcome
    rw [HttpResponse.outcome, HttpResponse.outcome, hreplyCode]
  process := fun hprogram _ => hprocess hprogram
  waiting := by
    intro hretry
    change pass.response.outcome = .retry at hretry
    unfold HttpResponse.outcome at hretry
    split at hretry <;> cases hretry

theorem concluded_retry {pass' : AccessPass} (h : Waiting program config pass pass') :
    Concluded program config (conclude (some .retry, pass)) (conclude (some .retry, pass')) where
  outcome := rfl
  process := fun _ hretry => absurd rfl hretry
  waiting := fun _ => h

theorem refreshBefore_idle (hprocess : pass.context.process = none) : pass.refreshBefore config =
      if config.refreshBy ≠ [] ∧ pass.context.identity.Refreshable then
        (some .retry, { pass with
          context := { pass.context with process := some (pass.refreshCommand config) } })
      else (none, pass) := by
  simp only [refreshBefore, hprocess]
  by_cases hby : config.refreshBy = []
  · simp [hby]
  · simp [hby]

theorem Mirrors.identity_cases (h : Mirrors left base self other)
    (hbase : base.context.identity = .unknown) :
    (self.context.identity = left.context.identity ∧ ¬ other.context.identity.Attempted ∧
      ¬ other.context.identity.Refreshable) ∨
    (self.context.identity = other.context.identity ∧ other.context.identity.Attempted) := by
  obtain ⟨hleft, hunknown⟩ | hsame := h.identity
  · rw [hunknown, hbase]
    exact .inl ⟨hleft, AccessIdentity.not_attempted_unknown, AccessIdentity.not_refreshable_unknown⟩
  · exact .inr hsame

/-- Two passes that mirror each other end a request alike. -/
theorem Mirrors.conclude_request (h : Mirrors left base self other)
    (hbase : base = left.anew config) (hresponse : left.response = .new config left.request)
    (hparsed : left.request.parsed = 200)
    (hprocess : program = .http → left.context.process = none)
    (hrefresh : AccessHistory.RefreshUnspoilt config program left.context other.context.identity) :
    Concluded program config (program.conclude config self) (program.conclude config other) := by
  subst hbase
  have hreplyCode : left.response.replyCode = (left.anew config).response.replyCode := by
    rw [hresponse]
    rfl
  have hsame := h.sameReplyCode hreplyCode
  have hwaiting : ∀ context context' : AccessContext, context.identity = context'.identity → _ →
      Waiting program config { self with context } { other with context := context' } :=
    fun _ _ => h.waiting _ _ hparsed (by rw [hresponse]) (by rw [hresponse]) hreplyCode
  have hidentity := h.identity_cases rfl
  cases program with
  | http =>
    have hself : self.context.process = none := by
      rw [h.context]
      exact hprocess rfl
    have hother : other.context.process = none := by
      rw [h.contextOther]
      rfl
    simp only [HttpProgram.conclude]
    rw [refreshBefore_idle hself, refreshBefore_idle hother]
    have hnone : Concluded .http config (conclude (none, self)) (conclude (none, other)) :=
      concluded_none hsame fun _ => hself
    obtain ⟨hleft, hattempted, hother⟩ | ⟨heq, hattempted⟩ := hidentity
    · have hno : ¬ (config.refreshBy ≠ [] ∧ self.context.identity.Refreshable) := by
        rintro ⟨hby, hself⟩
        rw [hleft] at hself
        exact (hrefresh hby).elim hattempted fun hno => hno hself
      rw [if_neg hno, if_neg fun h => hother h.2]
      exact hnone
    · by_cases hstart : config.refreshBy ≠ [] ∧ other.context.identity.Refreshable
      · rw [if_pos hstart, if_pos (heq ▸ hstart)]
        exact concluded_retry (hwaiting _ _ heq ⟨hstart.1, rfl, rfl⟩)
      · rw [if_neg hstart, if_neg (heq ▸ hstart)]
        exact hnone
  | zyre =>
    have hself : self.context.retries = left.context.retries := by rw [h.context]
    have hother : other.context.retries = 0 := by
      rw [h.contextOther]
      rfl
    simp only [HttpProgram.conclude, digestAmqpBefore, hself, hother]
    have hnone : Concluded .zyre config (conclude (none, self)) (conclude (none, other)) :=
      concluded_none hsame nofun
    simp only [AccessHistory.RefreshUnspoilt] at hrefresh
    obtain ⟨hleft, hattempted, hother⟩ | ⟨heq, hattempted⟩ := hidentity
    · rw [if_neg hattempted] at hrefresh
      rw [hleft, if_neg fun h => hrefresh h.1 h.2, if_neg fun h => hother h.1]
      exact hnone
    · rw [if_pos hattempted] at hrefresh
      rw [heq]
      by_cases hstart : other.context.identity.Refreshable
      · have hfirst := hrefresh hstart
        rw [if_pos ⟨hstart, hfirst⟩, if_pos ⟨hstart, trivial⟩]
        refine concluded_retry (hwaiting _ _ rfl ⟨?_, ?_⟩)
        · show left.context.retries + 1 ≠ 0
          rw [hfirst]
          decide
        · show (0 : UInt64) + 1 ≠ 0
          decide
      · rw [if_neg fun h => hstart h.1, if_neg fun h => hstart h.1]
        exact hnone

theorem refreshBefore_pending (hby : config.refreshBy ≠ [])
    (hprocess : pass.context.process.isSome = true) :
    pass.refreshBefore config =
      match pass.server.exitCode with
      | none =>
        if pass.context.retries + 1 < 5 then
          (some .retry, { pass with
            context := { pass.context with retries := pass.context.retries + 1 } })
        else
          (none, { pass with
            context := { pass.context with
              retries := pass.context.retries + 1, process := none } }.setError 500
            (some "Authentication system did not respond".toList))
      | some exitCode =>
        (none, { (if exitCode ≠ 0 then
          pass.setError 500 (some "Authentication system failed".toList) else pass) with
          context := { pass.context with process := none } }) := by
  refine (if_neg hby).trans ((if_pos hprocess).trans ?_)
  cases pass.server.exitCode with
  | none | some exitCode => rfl

/-- Two passes that mirror each other end a retry alike. -/
theorem Mirrors.conclude_retry (h : Mirrors left base self other)
    (hwaiting : Waiting program config left base)
    (hcount : program = .http → left.server.exitCode = none →
      (left.context.retries + 1 < 5 ↔ base.context.retries + 1 < 5)) :
    Concluded program config (program.conclude config self) (program.conclude config other) := by
  have hsame := h.sameReplyCode hwaiting.replyCode
  have hidentity : self.context.identity = other.context.identity := by
    obtain ⟨hleft, hbase⟩ | ⟨heq, -⟩ := h.identity
    · rw [hleft, hbase, hwaiting.identity]
    · exact heq
  have hpending := hwaiting.pending
  cases program with
  | http =>
    obtain ⟨hby, hleft, hbase⟩ := hpending
    have hself : self.context.process.isSome = true := by
      rw [h.context]
      exact hleft
    have hother : other.context.process.isSome = true := by
      rw [h.contextOther]
      exact hbase
    simp only [HttpProgram.conclude]
    have hexitCode : self.server.exitCode = left.server.exitCode := by rw [h.server, h.exitCode]
    rw [refreshBefore_pending hby hself, refreshBefore_pending hby hother, hexitCode, h.exitCode]
    cases hcode : left.server.exitCode with
    | none =>
      have hcount := hcount rfl hcode
      have hretries : self.context.retries = left.context.retries := by rw [h.context]
      have hretriesOther : other.context.retries = base.context.retries := by rw [h.contextOther]
      simp only [hretries, hretriesOther]
      by_cases hfew : left.context.retries + 1 < 5
      · rw [if_pos hfew, if_pos (hcount.mp hfew)]
        refine concluded_retry (h.waiting _ _ hwaiting.parsed hwaiting.hostname hwaiting.rootUri
          hwaiting.replyCode hidentity ?_)
        exact ⟨hby, hself, hother⟩
      · rw [if_neg hfew, if_neg fun hfew' => hfew (hcount.mpr hfew')]
        exact concluded_none rfl fun _ => rfl
    | some exitCode =>
      simp only
      split
      · exact concluded_none rfl fun _ => rfl
      · exact concluded_none hsame fun _ => rfl
  | zyre =>
    obtain ⟨hleft, hbase⟩ := hpending
    have hself : ¬ (self.context.identity.Refreshable ∧ self.context.retries = 0) := by
      rw [h.context]
      exact fun hstart => hleft hstart.2
    have hother : ¬ (other.context.identity.Refreshable ∧ other.context.retries = 0) := by
      rw [h.contextOther]
      exact fun hstart => hbase hstart.2
    simp only [HttpProgram.conclude, digestAmqpBefore]
    rw [if_neg hself, if_neg hother]
    exact concluded_none hsame nofun

theorem Mirrors.sameReplyCode_anew (h : Mirrors left (left.anew config) self other)
    (hparsed : left.request.parsed = 200)
    (hreplied : left.response.replyCode = 200 ∨ other.response.replyCode ≠ 200) :
    self.response.replyCode = other.response.replyCode := by
  obtain ⟨hleft, hbase⟩ | hsame := h.replyCode
  · have hnew : other.response.replyCode = 200 := hbase.trans hparsed
    rw [hleft, hnew]
    exact hreplied.resolve_right fun hno => hno hnew
  · exact hsame

theorem Mirrors.conclude_refreshed (h : Mirrors left base self other) {before : AccessPass}
    (hwaiting : Waiting program config left before) (hrefreshed : program.Refreshed e)
    (hexitCode : ∀ server, e = .retry server → server.exitCode = left.server.exitCode) :
    (program.conclude config self).1 = self.response.outcome := by
  cases e with
  | request server request => exact hrefreshed.elim
  | retry server =>
    have hpending := hwaiting.pending
    cases program with
    | http =>
      obtain ⟨hby, hleft, -⟩ := hpending
      have hself : self.context.process.isSome = true := by
        rw [h.context]
        exact hleft
      have hcode : self.server.exitCode = some 0 := by
        rw [h.server, h.exitCode, ← hexitCode server rfl]
        exact hrefreshed
      simp only [HttpProgram.conclude]
      rw [refreshBefore_pending hby hself, hcode]
      rfl
    | zyre =>
      have hself : ¬ (self.context.identity.Refreshable ∧ self.context.retries = 0) := by
        rw [h.context]
        exact fun hstart => hpending.1 hstart.2
      simp only [HttpProgram.conclude, digestAmqpBefore]
      rw [if_neg hself]
      rfl

end AccessPass

/-! ## Runs -/

theorem AccessConnection.context_of_start {self : AccessConnection}
    (h : self.start config e = some pass) : pass.context = self.context := by
  unfold AccessConnection.start at h
  split at h
  · split at h
    · exact some.inj h ▸ rfl
    · cases h
  · split at h
    · exact some.inj h ▸ rfl
    · cases h

namespace AccessHistory

/-- What a connection has in common with the one that has had only the current request -/
def Matched (program : HttpProgram) (config : AccessConfig) (self : AccessHistory) : Prop :=
  match self.connection.phase with
  | .ready => program = .http → self.connection.context.process = none
  | .retrying request response => ∃ response', self.alone.phase = .retrying request response' ∧
    ∀ server, AccessPass.Waiting program config ⟨server, request, self.connection.context, response⟩
      ⟨server, request, self.alone.context, response'⟩
  | .closed => True

theorem matched_new (loads : Nat) : (new loads).Matched program config := fun _ => rfl

theorem matched_finish {r r' : AccessOutcome × AccessPass} (h : Concluded program config r r') :
    Matched program config ⟨.finish r, .finish r'⟩ := by
  obtain ⟨outcome, pass⟩ := r
  obtain ⟨outcome', pass'⟩ := r'
  obtain ⟨houtcome, hprocess, hwaiting⟩ := h
  obtain rfl : outcome = outcome' := houtcome
  unfold Matched AccessConnection.finish
  cases outcome with
  | accepted => exact fun hprogram => hprocess hprogram nofun
  | refused replyCode =>
    by_cases herror : 400 ≤ replyCode
    · simp only [if_pos herror]
    · simp only [if_neg herror]
      exact fun hprogram => hprocess hprogram nofun
  | retry =>
    have hwaiting := hwaiting rfl
    have hrequest : pass.request = pass'.request := hwaiting.request
    refine ⟨pass'.response, ?_, fun server => ?_⟩
    · show AccessPhase.retrying pass'.request pass'.response = _
      rw [hrequest]
    · exact { hwaiting with request := rfl }

variable {self : AccessHistory}

/-- The pass that an event starts on the other connection -/
theorem Matched.start (h : self.Matched program config)
    (hstart : self.connection.start config e = some pass) :
    ∃ base, (self.reference e).start config e = some base ∧ pass.server = base.server ∧
      base.context.blacklist = base.server.loads ∧
      match e with
      | .request .. => base = pass.anew config ∧ pass.response = .new config pass.request ∧
          (program = .http → pass.context.process = none)
      | .retry server => pass.server = server ∧ pass.Waiting program config base := by
  unfold Matched at h
  cases e with
  | request server request =>
    simp only [AccessConnection.start] at hstart
    split at hstart
    · next hphase =>
      cases hstart
      rw [hphase] at h
      exact ⟨_, rfl, rfl, rfl, rfl, rfl, h⟩
    · cases hstart
  | retry server =>
    simp only [AccessConnection.start] at hstart
    split at hstart
    · next request response hphase =>
      cases hstart
      rw [hphase] at h
      obtain ⟨response', halone, hwaiting⟩ := h
      have hwaiting := hwaiting server
      refine ⟨⟨server, request, { self.alone.context with blacklist := server.loads }, response'⟩,
        ?_, rfl, rfl, rfl, { hwaiting with }⟩
      simp only [reference, AccessConnection.start, halone]
    · cases hstart

variable {base : AccessPass}

theorem handlersBefore_concluded (h : AccessPass.Mirrors pass base pass base)
    (hpolicies : PoliciesUnspoilt m config pass.context base.context base)
    (hconclude : ∀ self other, base.policyBefore m config = some other →
      AccessPass.Mirrors pass base self other →
      Concluded program config (program.conclude config self) (program.conclude config other))
    :
    Option.Rel (Concluded program config) (program.handlersBefore m config pass)
      (program.handlersBefore m config base) := by
  rw [handlersBefore_eq, handlersBefore_eq]
  have hpolicies := AccessPass.policyBefore_mirrors h hpolicies
  cases hself : pass.policyBefore m config with
  | none =>
    cases hother : base.policyBefore m config with
    | none => exact .none
    | some other =>
      rw [hself, hother] at hpolicies
      cases hpolicies
  | some self =>
    cases hother : base.policyBefore m config with
    | none =>
      rw [hself, hother] at hpolicies
      cases hpolicies
    | some other =>
      rw [hself, hother] at hpolicies
      cases hpolicies with
      | some h => exact .some (hconclude self other hother h)

/-- After the passwords have been refreshed, the modules decide what the policies say. -/
theorem handlersBefore_refreshed (hwaiting : pass.Waiting program config base)
    (hrefreshed : program.Refreshed e)
    (hexitCode : ∀ server, e = .retry server → server.exitCode = pass.server.exitCode)
    (hpolicies : PoliciesUnspoilt m config pass.context (pass.anew config).context
      (pass.anew config))
    (hreplied : pass.response.replyCode = 200 ∨
      ∀ pass', (pass.anew config).policyBefore m config = some pass' →
      pass'.response.replyCode ≠ 200)
    : (program.handlersBefore m config pass).map Prod.fst = pass.verdict m config := by
  have h : AccessPass.Mirrors pass (pass.anew config) pass (pass.anew config) :=
    .refl_of rfl rfl hwaiting.hostname hwaiting.rootUri rfl
  have hpolicies := AccessPass.policyBefore_mirrors h hpolicies
  rw [handlersBefore_eq, map_map]
  unfold AccessPass.verdict
  cases hother : (pass.anew config).policyBefore m config with
  | none =>
    rw [hother] at hpolicies
    generalize pass.policyBefore m config = r at hpolicies ⊢
    cases hpolicies
    rfl
  | some other =>
    rw [hother] at hpolicies
    generalize pass.policyBefore m config = r at hpolicies ⊢
    cases hpolicies with
    | @some self _ h =>
      have hcode := h.sameReplyCode_anew hwaiting.parsed
        (hreplied.imp_right fun hreplied => hreplied other hother)
      have houtcome := h.conclude_refreshed hwaiting hrefreshed hexitCode
      simp only [map_some, Function.comp_apply, houtcome, HttpResponse.outcome, hcode]

theorem Matched.answer
    (h : self.Matched program config) (hunspoilt : self.Unspoilt m config program e)
    (hstart : self.connection.start config e = some pass)
    (hbase : (self.reference e).start config e = some base) :
    Option.Rel (Concluded program config) (AccessConnection.answer m config program e pass)
      (AccessConnection.answer m config program e base) ∧
    (program.Refreshed e → (AccessConnection.answer m config program e pass).map Prod.fst =
      pass.verdict m config) := by
  obtain ⟨base', hbase', hserver, hlinked, hcases⟩ := h.start hstart
  obtain rfl := some.inj (hbase'.symm.trans hbase)
  have hunspoilt := hunspoilt pass base' hstart hbase
  cases e with
  | request server request =>
    obtain ⟨rfl, hresponse, hprocess⟩ := hcases
    refine ⟨?_, fun hrefreshed => hrefreshed.elim⟩
    have hcode : pass.response.replyCode = pass.request.parsed := by
      rw [hresponse]
      rfl
    have hcodeAnew : (pass.anew config).response.replyCode = pass.request.parsed := rfl
    simp only [AccessConnection.answer, hcode, hcodeAnew]
    by_cases hparsed : pass.request.parsed = 200
    · obtain ⟨hpolicies, hrefresh⟩ := hunspoilt hparsed
      rw [if_neg (not_not_intro hparsed), if_neg (not_not_intro hparsed)]
      refine handlersBefore_concluded (.refl_of rfl rfl ?_ ?_ rfl) hpolicies
        fun self other hother h => h.conclude_request rfl hresponse hparsed hprocess
          (hrefresh other hother)
      · rw [hresponse]
        rfl
      · rw [hresponse]
        rfl
    · rw [if_pos hparsed, if_pos hparsed]
      exact .some ⟨rfl, fun hprogram _ => hprocess hprogram, nofun⟩
  | retry server =>
    obtain ⟨hpass, hwaiting⟩ := hcases
    obtain ⟨hpolicies, hcount, hrefreshed⟩ := hunspoilt hwaiting.parsed
    constructor
    · refine handlersBefore_concluded (.refl_of hserver hwaiting.request
        hwaiting.hostnameOther.symm hwaiting.rootUriOther.symm hlinked) hpolicies
        fun self other _ h => h.conclude_retry hwaiting fun hprogram hcode => ?_
      exact hcount hprogram (hpass ▸ hcode)
    · intro hre
      obtain ⟨hpolicies, hreplied⟩ := hrefreshed hre
      refine handlersBefore_refreshed hwaiting hre (fun server' hserver' => ?_) hpolicies hreplied
      obtain rfl := AccessEvent.retry.inj hserver'
      rw [hpass]

theorem Matched.kept (h : self.Matched program config)
    (hunspoilt : self.Unspoilt m config program e) : self.Kept m config program e := by
  intro pass hstart
  obtain ⟨base, hbase, -⟩ := h.start hstart
  obtain ⟨hrel, hrefreshed⟩ := h.answer hunspoilt hstart hbase
  simp only [AccessConnection.outcome, AccessConnection.step, hstart, hbase, map_map]
  constructor
  · generalize AccessConnection.answer m config program e pass = r,
      AccessConnection.answer m config program e base = r' at hrel ⊢
    cases hrel with
    | none => rfl
    | some hrel => exact congrArg (some ∘ some) hrel.outcome
  · intro hre
    rw [← hrefreshed hre, map_map]
    rfl

/-- An event that spoils nothing leaves the connection like a new one. -/
theorem Matched.step {self next : AccessHistory} (h : self.Matched program config)
    (hunspoilt : self.Unspoilt m config program e)
    (hstep : self.step m config program e = some next) : next.Matched program config := by
  unfold AccessHistory.step at hstep
  cases hstart : self.connection.start config e with
  | none =>
    rw [hstart, if_pos isNone_none] at hstep
    exact some.inj hstep ▸ h
  | some pass =>
    obtain ⟨base, hbase, -⟩ := h.start hstart
    obtain ⟨hrel, -⟩ := h.answer hunspoilt hstart hbase
    simp only [AccessConnection.step, hstart, hbase] at hstep
    generalize AccessConnection.answer m config program e pass = r,
      AccessConnection.answer m config program e base = r' at hrel hstep
    cases hrel with
    | none => cases hstep
    | some hrel =>
      cases hstep
      exact matched_finish hrel

/--
On every connection, with every configuration and whatever happens to the tables in between, the
outcome of each pass over a request is the one it would have if it were the first request of the
connection, and after a refresh the one of a new request, provided that no pass looks at what
earlier ones have left.
-/
theorem decisions_kept {loads : Nat} {es before after : List AccessEvent} {e : AccessEvent}
    {self : AccessHistory}
    (hunspoilt : Along (step m config program) (Unspoilt m config program) (new loads) es)
    (hes : es = before ++ e :: after)
    (hrun : run (step m config program) (new loads) before = some self) :
    self.Kept m config program e := by
  subst hes
  have hmatched : self.Matched program config :=
    run_invariant (fun _ _ _ h hunspoilt hstep => h.step hunspoilt hstep) (matched_new loads)
      hunspoilt.left_of_append hrun
  exact hmatched.kept (hunspoilt.of_append hrun).1

/-! ### A user with a password -/

theorem policiesUnspoilt_of_forall {left base : AccessContext}
    (hrules : ∀ policy ∈ config.access, ∀ rule ∈ policy.children,
      rule.named "blacklist" = false ∧ (rule.named "group" = true →
        AccessPass.groupMatches m rule left.identity.authGroup =
          AccessPass.groupMatches m rule base.identity.authGroup)) (pass : AccessPass) :
    PoliciesUnspoilt m config left base pass := by
  have hpolicy : ∀ policy ∈ config.access, ∀ pass,
      PolicyUnspoilt m config left base policy pass := by
    intro policy hpolicy pass _
    refine wherever_of_forall (fun rule hrule _ => ?_) pass
    obtain ⟨hblacklist, hgroup⟩ := hrules policy hpolicy rule hrule
    refine ⟨fun hnamed => ?_, fun hnamed _ => hgroup hnamed⟩
    rw [hblacklist] at hnamed
    cases hnamed
  constructor
  · refine wherever_of_forall (fun policy hmem pass => ?_) pass
    intro _
    exact hpolicy policy ((List.dropWhile_suffix _).mem hmem) pass
  · intro pass' policy _ hdefault
    exact hpolicy policy (List.mem_of_find?_eq_some hdefault) pass'

/-- Patterns without wildcards, and one user with a password -/
def sampleMatchers : AccessMatchers where
  strMatches string pattern := string == pattern
  cidrEq _ _ := false
  ciphers := ⟨id, id, fun _ _ => false⟩

def sampleItem (name : String) (value : Option String) (children : List Xml) : Xml :=
  .item name.toList (value.elim .empty fun value => Attrs.empty.set "value".toList value.toList)
    children

/-- A group that may do everything, and the password for the others -/
def sampleAccess (group refreshBy : String) : AccessConfig where
  access := [sampleItem "policy" none [
    sampleItem "group" (some group) [sampleItem "allow" none []],
    sampleItem "always" none [sampleItem "authenticate" none [], sampleItem "allow" none []]]]
  policyTrace := false
  refreshBy := refreshBy.toList
  digestAuth := []
  publicPort := []
  hostname := .cpy "h".toList

/-- A server that has the password of the user or not -/
def sampleServer (known : Bool) : AccessServer where
  basic := { PasswordTable.new with
    entries := fun key => if known ∧ key = "u".toList then some (.new key "p".toList) else none }
  digest := .new
  blacklist _ := false
  loads := 0
  now := 0
  nonceKeys _ := []
  exitCode := some 0

/-- A request with the password or without -/
def sampleAsked (credentials : Bool) : HttpRequest where
  address := "127.0.0.1".toList
  requestLine := "GET / HTTP/1.1".toList
  requestMethod := "GET".toList
  path := "/".toList
  headers := if credentials then [("authorization".toList, "Basic u:p".toList)] else []
  encrypted := false
  parsed := 200

/-- A request with the password, where the server has it -/
def authenticated : AccessEvent := .request (sampleServer true) (sampleAsked true)

/-- A request without the password -/
def unauthenticated : AccessEvent := .request (sampleServer true) (sampleAsked false)

/-- A user that is not in the group of the administrators is asked for the password each time. -/
theorem decisions_kept_sample : ∃ self,
    run (step sampleMatchers (sampleAccess "admins" "") .http) (new 0) [authenticated] = some self ∧
    self.connection.context.identity.authGroup = some "users".toList ∧
    self.Kept sampleMatchers (sampleAccess "admins" "") .http unauthenticated := by
  have hstate : (run (step sampleMatchers (sampleAccess "admins" "") .http) (new 0)
      [authenticated]).map (fun self => self.connection.context.identity.authGroup) =
        some (some "users".toList) := by decide +kernel
  obtain ⟨self, hrun, hgroup⟩ := map_eq_some_iff.mp hstate
  have hrules : ∀ {left base : AccessContext},
      (left.identity.authGroup = none ∨ left.identity.authGroup = some "users".toList) →
      base.identity.authGroup = none → ∀ policy ∈ (sampleAccess "admins" "").access,
      ∀ rule ∈ policy.children, rule.named "blacklist" = false ∧ (rule.named "group" = true →
        AccessPass.groupMatches sampleMatchers rule left.identity.authGroup =
          AccessPass.groupMatches sampleMatchers rule base.identity.authGroup) := by
    rintro left base hleft hbase policy hpolicy
    obtain rfl := List.mem_singleton.mp hpolicy
    rw [hbase]
    obtain hleft | hleft := hleft <;> rw [hleft] <;> decide +kernel
  have hes : [authenticated, unauthenticated] = [authenticated] ++ unauthenticated :: [] := rfl
  refine ⟨self, hrun, hgroup, decisions_kept ?_ hes hrun⟩
  refine ⟨fun pass base hpass hbase _ => ?_, fun next hnext => ⟨?_, fun _ _ => trivial⟩⟩
  · cases hpass
    cases hbase
    exact ⟨policiesUnspoilt_of_forall (hrules (.inl rfl) rfl) _, fun _ _ hby => absurd rfl hby⟩
  · intro pass base hpass hbase _
    obtain ⟨_, hstep, hnil⟩ := run_cons_eq_some hrun
    cases hnil
    obtain rfl := some.inj (hstep.symm.trans hnext)
    have hcontext := AccessConnection.context_of_start hpass
    cases hbase
    refine ⟨policiesUnspoilt_of_forall (hrules (.inr ?_) rfl) _, fun _ _ hby => absurd rfl hby⟩
    rw [hcontext, hgroup]

/-- A user that has been authenticated is let in without the password, which a new connection is
asked for. -/
theorem group_outlives_request : ∃ self,
    run (step sampleMatchers (sampleAccess "users" "") .http) (new 0) [authenticated] = some self ∧
    self.connection.outcome sampleMatchers (sampleAccess "users" "") .http unauthenticated =
      some (some .accepted) ∧
    (self.reference unauthenticated).outcome sampleMatchers (sampleAccess "users" "") .http
      unauthenticated = some (some (.refused 401)) ∧
    ¬ self.Kept sampleMatchers (sampleAccess "users" "") .http unauthenticated := by
  have hruns : (run (step sampleMatchers (sampleAccess "users" "") .http) (new 0)
      [authenticated]).map (fun self =>
        (self.connection.outcome sampleMatchers (sampleAccess "users" "") .http unauthenticated,
          (self.reference unauthenticated).outcome sampleMatchers (sampleAccess "users" "") .http
            unauthenticated,
          (self.connection.start (sampleAccess "users" "") unauthenticated).isSome)) =
      some (some (some .accepted), some (some (.refused 401)), true) := by decide +kernel
  obtain ⟨self, hrun, houtcomes⟩ := map_eq_some_iff.mp hruns
  obtain ⟨hleft, houtcomes⟩ := Prod.mk.inj houtcomes
  obtain ⟨hbase, hstart⟩ := Prod.mk.inj houtcomes
  obtain ⟨pass, hstart⟩ := isSome_iff_exists.mp hstart
  refine ⟨self, hrun, hleft, hbase, fun hkept => ?_⟩
  have hsame := (hkept pass hstart).1
  rw [hleft, hbase] at hsame
  cases hsame

end AccessHistory

end OpenAmq
