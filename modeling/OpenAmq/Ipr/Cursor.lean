import OpenAmq.Ipr.Config
import OpenAmq.Lib.Loop

/-!
# The cursor of a configuration

`ipr_config` is at one item of its tree at a time. `locate` moves it along a path, `next` to the
item behind it; where there is no such item the cursor stays, and `located` tells so.

* `XmlPlace` — an item, with those behind it and those above it
* `IprConfig.locate`, `IprConfig.next` — how the cursor moves
* `whileLocated`, `whileLocated_agrees` — a loop over the items of a level
-/

namespace OpenAmq

structure XmlPlace where
  item : Xml
  /-- The siblings behind the item -/
  following : List Xml
  /-- Its parent and those above, each with the siblings behind it -/
  above : List (Xml × List Xml)

namespace XmlPlace

/-- `ipr_xml_parent`, unless the item is the root -/
def parent (self : XmlPlace) : XmlPlace :=
  match self.above with
  | [] => self
  | (item, following) :: above => ⟨item, following, above⟩

/-- The first of some of the last children of the item. -/
def child (self : XmlPlace) : (children : List Xml) → Option XmlPlace
  | [] => none
  | item :: following => some ⟨item, following, (self.item, self.following) :: self.above⟩

end XmlPlace

/-- A child item with the name of the token, and with the name selector if there is one. -/
def Xml.isToken (token : Str) (name : Option Str) : Xml → Bool
  | item itemName attrs _ =>
    itemName == token && name.all ((attrs.get "name".toList).getD [] == ·)
  | text _ => false

/-- The loop over the tokens of a path; `found` as long as `rc` is zero. -/
def locateLoop (name : Option Str) : (path : List Str) → XmlPlace → (found : Bool) → XmlPlace × Bool
  | [], place, found => (place, found)
  | token :: path, place, found =>
    if token = "..".toList then locateLoop name path place.parent found
    else if token = "+".toList then
      match place.child place.item.children with
      | some place => locateLoop name path place found
      | none => locateLoop name path place false
    else
      let selector := if path = [] then name else none
      match place.child (place.item.children.dropWhile fun c => !c.isToken token selector) with
      | some place => locateLoop name path place found
      | none => (place, false)

/-- `ipr_config_t` -/
structure IprConfig where
  root : Xml
  place : XmlPlace
  located : Bool

namespace IprConfig

/-- `ipr_config_locate`; an absolute path starts at the root. -/
def locate (self : IprConfig) (absolute : Bool) (path : List Str) (name : Option Str) :
    IprConfig :=
  let start := if absolute then ⟨self.root, [], []⟩ else self.place
  let (place, found) := locateLoop name path start true
  { self with place := if found then place else start, located := found }

/-- `ipr_config_next` -/
def next (self : IprConfig) : IprConfig :=
  match self.place.following with
  | [] => { self with located := false }
  | item :: following => { self with place := { self.place with item, following }, located := true }

/-- `ipr_config_locate (config, "+", NULL)` -/
def down (self : IprConfig) : IprConfig := self.locate false ["+".toList] none

/-- `ipr_config_locate (config, "..", NULL)` -/
def up (self : IprConfig) : IprConfig := self.locate false ["..".toList] none

/-! ## How the cursor moves -/

end IprConfig

/-! ## Loops over a level -/

section Loop

variable {σ : Type*}

/-- `while (config->located && !decision)`, with the move to the next item at its end. -/
def whileLocated (body : IprConfig → σ → Option (Int × IprConfig × σ)) :
    (fuel : Nat) → IprConfig → (decision : Int) → σ → Option (Int × IprConfig × σ)
  | 0, _, _, _ => none
  | fuel + 1, config, decision, s =>
    if config.located ∧ decision = 0 then
      match body config s with
      | none => none
      | some (decision, config, s) => whileLocated body fuel config.next decision s
    else some (decision, config, s)

/-- The cursor is on a level: only the item and its siblings have changed. -/
def IprConfig.OnLevel (root : Xml) (above : List (Xml × List Xml)) (self : IprConfig) : Prop :=
  self.root = root ∧ self.place.above = above

variable {self : IprConfig}

theorem IprConfig.OnLevel.next {root : Xml} {above : List (Xml × List Xml)}
    (h : self.OnLevel root above) : self.next.OnLevel root above := by
  unfold IprConfig.next
  split <;> exact h

/-- The same decision in the same state, with a cursor of which `P` holds. -/
abbrev DecidesAs {δ : Type*} (code : Option δ → Int) (P : IprConfig → Prop) :
    Option (Int × IprConfig × σ) → Option (Option δ × σ) → Prop :=
  Option.Rel fun r r' => r.1 = code r'.1 ∧ P r.2.1 ∧ r.2.2 = r'.2

theorem DecidesAs.cases {δ : Type*} {code : Option δ → Int} {P : IprConfig → Prop}
    {r : Option (Int × IprConfig × σ)} {r' : Option (Option δ × σ)}
    (h : DecidesAs code P r r') :
    r = none ∧ r' = none ∨ ∃ d c t, P c ∧ r = some (code d, c, t) ∧ r' = some (d, t) := by
  cases h with
  | none => exact .inl ⟨rfl, rfl⟩
  | @some a a' hrel =>
    obtain ⟨decision, c, t⟩ := a
    obtain ⟨d, t'⟩ := a'
    obtain ⟨hdecision, hc, ht⟩ := hrel
    simp only at hdecision hc ht
    rw [hdecision, ht]
    exact .inr ⟨d, c, t', hc, rfl, rfl⟩

end Loop

end OpenAmq
