import OpenAmq.Exchange.Refusal

/-!
# Service federations

On an exchange with a service federation a binding should have exclusive queues only or
other queues only. The bind that would mix them reports an error and then goes on, so the
rule holds in exactly the runs in which nobody asks for a mix.

* `Homogeneous` — the queues of every live binding are of one kind
* `Mixes` — a bind would break this
* `segregates_iff` — the rule over a whole run
-/

namespace OpenAmq

open Exchange Function List

namespace Exchange

/-- All queues of a set are exclusive, or none is. -/
def OneKind (exclusive : QueueRef → Bool) (queues : List QueueRef) : Prop :=
  ∀ q ∈ queues, ∀ q' ∈ queues, exclusive q = exclusive q'

/-- The queues of every live binding are of one kind. -/
def Homogeneous (exclusive : QueueRef → Bool) (ex : Exchange) : Prop :=
  ∀ b ∈ ex.bindingList, OneKind exclusive (ex.queueSet b.addr)

/-- The queue of a bind is exclusive as the queue at its address has been from the start. -/
def Flagged (exclusive : QueueRef → Bool) : ExchangeOp → Prop
  | .bind _ _ queue _ _ => queue.exclusive = exclusive queue.addr
  | _ => True

/-- The request binds a queue to a binding that has a queue of the other kind. -/
def MixesWith (exclusive : QueueRef → Bool) (ex : Exchange) (b : Binding) : ExchangeOp → Prop
  | .bind _ _ queue k a =>
    ex.findBinding (normKey ex.type k) (normArguments a) = some b ∧
      ∃ q ∈ ex.queueSet b.addr, exclusive q ≠ queue.exclusive
  | _ => False

/-- The request binds a queue to some binding that has a queue of the other kind. -/
def Mixes (exclusive : QueueRef → Bool) (ex : Exchange) (op : ExchangeOp) : Prop :=
  ∃ b, MixesWith exclusive ex b op

instance (exclusive : QueueRef → Bool) (ex : Exchange) : ∀ op, Decidable (Mixes exclusive ex op)
  | .bind _ _ queue k a =>
    decidable_of_iff (((ex.findBinding (normKey ex.type k) (normArguments a)).any fun b =>
        (ex.queueSet b.addr).any fun q => exclusive q != queue.exclusive) = true)
      (by simp only [Mixes, MixesWith, Option.any_eq_true, any_eq_true, bne_iff_ne])
  | .unbind _ _ _ => isFalse fun h => h.elim fun _ h => h
  | .publish _ _ => isFalse fun h => h.elim fun _ h => h

instance (exclusive : QueueRef → Bool) : (op : ExchangeOp) → Decidable (Flagged exclusive op)
  | .bind _ _ queue _ _ => inferInstanceAs (Decidable (queue.exclusive = exclusive queue.addr))
  | .unbind _ _ _ => isTrue trivial
  | .publish _ _ => isTrue trivial

/-! ## One request -/

variable {exclusive : QueueRef → Bool} {ex : Exchange}

theorem OneKind.subset {queues queues' : List QueueRef} (h : OneKind exclusive queues)
    (hsub : queues' ⊆ queues) : OneKind exclusive queues' :=
  fun q hq q' hq' => h q (hsub hq) q' (hsub hq')

theorem oneKind_attach {addr : Nat} {queue : QueueRef} (h : ∀ p, OneKind exclusive (ex.queueSet p))
    (hqueue : ∀ q ∈ ex.queueSet addr, exclusive q = exclusive queue) (p : Nat) :
    OneKind exclusive ((ex.attach addr queue).queueSet p) := by
  intro q hq q' hq'
  rcases mem_queueSet_attach.mp hq with hold | ⟨he, hp⟩
  · rcases mem_queueSet_attach.mp hq' with hold' | ⟨he', hp'⟩
    · exact h p q hold q' hold'
    · rw [he']
      exact hqueue q (hp' ▸ hold)
  · rcases mem_queueSet_attach.mp hq' with hold' | ⟨he', -⟩
    · rw [he]
      exact (hqueue q' (hp ▸ hold')).symm
    · rw [he, he']

theorem detach_queueSet_subset (ex : Exchange) (b : Binding) (queue : QueueRef) (p : Nat) :
    (ex.detach b queue).queueSet p ⊆ ex.queueSet p := by
  have hunlink : (ex.unlink b.addr queue).queueSet p ⊆ ex.queueSet p := by
    show update ex.queueSet b.addr ((ex.queueSet b.addr).erase queue) p ⊆ _
    by_cases hp : p = b.addr
    · subst hp
      rw [update_self]
      exact erase_subset
    · rw [update_of_ne hp]
      exact fun _ hq => hq
  rw [detach_eq]
  split
  · show update (ex.unlink b.addr queue).queueSet b.addr [] p ⊆ _
    by_cases hp : p = b.addr
    · subst hp
      rw [update_self]
      exact nil_subset _
    · rw [update_of_ne hp]
      exact hunlink
  · exact hunlink

/-- A binding that does not mix keeps the sets of queues of one kind. -/
theorem step_oneKind {env : Env} {ex' : Exchange} {op : ExchangeOp} (hflag : Flagged exclusive op)
    (hmix : ¬ Mixes exclusive ex op) (h : ∀ p, OneKind exclusive (ex.queueSet p))
    (hs : ex.step env op = some ex') : ∀ p, OneKind exclusive (ex'.queueSet p) := by
  cases op with
  | bind addr channel queue k a =>
    cases hf : ex.findBinding (normKey ex.type k) (normArguments a) with
    | some b =>
      obtain rfl := Option.some.inj ((bindQueue_existing hf).symm.trans hs)
      refine oneKind_attach h fun q hq => ?_
      by_contra hne
      exact hmix ⟨b, hf, q, hq, fun he => hne (he.trans hflag)⟩
    | none =>
      simp only [step, bindQueue, hf] at hs
      obtain ⟨ex1, hnew, rfl⟩ := Option.map_eq_some_iff.mp hs
      obtain ⟨_, _, _, _, -, -, -, -, hset⟩ := newBinding_eq_some hnew
      -- the set of a new binding is empty, whatever was at its address before
      refine oneKind_attach (fun p => ?_) (by rw [hset]; simp)
      rw [hset]
      by_cases hp : p = addr
      · subst hp
        rw [update_self]
        exact fun q hq => by cases hq
      · rw [update_of_ne hp]
        exact h p
  | unbind queue k a =>
    obtain ⟨found, -, rfl⟩ := Option.map_eq_some_iff.mp hs
    intro p
    cases found with
    | none => exact h p
    | some b => exact (h p).subset (detach_queueSet_subset ex b queue p)
  | publish k headers =>
    obtain ⟨r, hr, rfl⟩ := Option.map_eq_some_iff.mp hs
    obtain ⟨hits, htype, rfl⟩ := Option.map_eq_some_iff.mp hr
    obtain ⟨⟨indices, he⟩, -⟩ := typePublish_looks htype
    intro p
    rw [he]
    exact h p

/-- A binding that mixes is made, and leaves a set of both kinds. -/
theorem step_mixes (env : Env) {op : ExchangeOp} (hflag : Flagged exclusive op)
    (hmix : Mixes exclusive ex op) :
    ∃ ex', ex.step env op = some ex' ∧ ¬ Homogeneous exclusive ex' := by
  obtain ⟨b, hmix⟩ := hmix
  cases op with
  | unbind | publish => cases hmix
  | bind addr channel queue k a =>
    obtain ⟨hf, q, hq, hne⟩ := hmix
    refine ⟨_, bindQueue_existing hf, fun hhom => hne ?_⟩
    have hkind := hhom b (findBinding_eq_some hf).1
    rw [hflag]
    exact hkind q (mem_queueSet_attach.mpr (Or.inl hq)) queue.addr
      (mem_queueSet_attach.mpr (Or.inr ⟨rfl, rfl⟩))

/-! ## All requests -/

/-- The request leaves every binding homogeneous. One that would mix is refused: an error is
reported, and the queues of the binding stay as they were. -/
def KeepsKinds (env : Env) (exclusive : QueueRef → Bool) (ex : Exchange) (op : ExchangeOp) : Prop :=
  ∀ ex', ex.step env op = some ex' → Homogeneous exclusive ex' ∧ ∀ b, MixesWith exclusive ex b op →
        (∃ notices channel code text classId methodId, ex'.sent = ex.sent ++ notices ∧
          Notice.channelError channel code text classId methodId ∈ notices) ∧
        ex'.queueSet b.addr = ex.queueSet b.addr

theorem along_keepsKinds_iff {env : Env} {ops : List ExchangeOp}
    (hflags : ∀ op ∈ ops, Flagged exclusive op) (h : ∀ p, OneKind exclusive (ex.queueSet p)) :
    Lib.Along (Exchange.step env) (KeepsKinds env exclusive) ex ops ↔
      Lib.Along (Exchange.step env) (fun ex op => ¬ Mixes exclusive ex op) ex ops := by
  have hflagged : Lib.Along (Exchange.step env) (fun _ op => Flagged exclusive op) ex ops :=
    Lib.along_of_forall (fun op hop _ => hflags op hop) ex
  refine Lib.along_congr (I := fun ex => ∀ p, OneKind exclusive (ex.queueSet p))
    (fun ex op h hflag => ?_) (fun ex op ex' h hflag hmix hs => step_oneKind hflag hmix h hs)
    h hflagged
  constructor
  · intro hkeep hmix
    obtain ⟨ex', hs, hnot⟩ := step_mixes env hflag hmix
    exact hnot (hkeep ex' hs).1
  · intro hmix ex' hs
    exact ⟨fun b _ => step_oneKind hflag hmix h hs b.addr, fun b hb => absurd ⟨b, hb⟩ hmix⟩

/--
On an exchange with a service federation, whatever its type, bindings stay homogeneous and
mixes are refused exactly in the runs in which no bind would mix.

The flag that a binding keeps is that of the queue it was made for. Neither a bind without a
channel nor one that comes when that queue is gone is compared with the queues that are on
the binding, and the queue is attached in any case.
-/
theorem service_keepsKinds_iff {env : Env} {type : ExchangeType} {exclusive : QueueRef → Bool}
    {ops : List ExchangeOp} (hflags : ∀ op ∈ ops, Flagged exclusive op) :
    Lib.Along (Exchange.step env) (KeepsKinds env exclusive)
        { type, federation := some .service } ops ↔
      Lib.Along (Exchange.step env) (fun ex op => ¬ Mixes exclusive ex op)
        { type, federation := some .service } ops :=
  along_keepsKinds_iff hflags fun _ _ hq => by cases hq

section Service

/-- Queues 1 and 2 are exclusive, the others are not. -/
def firstTwo (queue : QueueRef) : Bool := decide (queue = 1 ∨ queue = 2)

/-- The exclusive queue that made the binding is replaced by a queue that is not. -/
def replaced : List ExchangeOp :=
  [.bind 4096 (some 7) ⟨1, true⟩ plainKey none, .unbind 1 plainKey none,
    .bind 8192 (some 7) ⟨3, false⟩ plainKey none]

theorem service_keepsKinds_replaced :
    Lib.Along (Exchange.step starEnv) (KeepsKinds starEnv firstTwo)
        { type := .topic, federation := some .service } replaced ↔
      Lib.Along (Exchange.step starEnv) (fun ex op => ¬ Mixes firstTwo ex op)
        { type := .topic, federation := some .service } replaced :=
  service_keepsKinds_iff (by decide)

/-- An exclusive queue and one that is not are bound with the same key. -/
def bothKinds : List ExchangeOp :=
  [.bind 4096 (some 7) ⟨1, true⟩ plainKey none, .bind 8192 (some 7) ⟨3, false⟩ plainKey none]

/-- An error is reported for the second bind, and the queue is bound all the same. -/
theorem service_mixes_kinds : ¬ Lib.Along (Exchange.step starEnv) (KeepsKinds starEnv firstTwo)
        { type := .direct, federation := some .service } bothKinds ∧
      (Lib.run (Exchange.step starEnv) { type := .direct, federation := some .service }
        bothKinds).map (fun ex => ex.queueSet 4096) = some [1, 3] := by
  refine ⟨?_, by decide +kernel⟩
  rw [along_keepsKinds_iff (by decide) fun _ _ hq => by cases hq]
  decide +kernel

end Service

end Exchange

end OpenAmq
