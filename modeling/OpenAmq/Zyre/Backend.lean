import OpenAmq.Zyre.Model

/-!
# The AMQP backend

`zyre_backend_amqp` keeps the feeds and the pipes it has been told of, in tables that are keyed by
their names, and with each pipe its joins. It asserts of every request that what is to be created
is not there, and what is to be deleted is.

* `Backend`, `Backend.handle` — the tables, and the requests, where `none` is a failed assertion
* `Caches` — the tables hold certain feeds, pipes and joins
* `Caches.feedCreate`, `Caches.joinDelete`, … — what the requests make of these
-/

namespace OpenAmq.Zyre

open Function List

/-! ## The tables -/

/-- `zyre_amqp_join` -/
structure CachedJoin where
  pipeName : Str
  feedName : Str
  address : Str
deriving DecidableEq

/-- `zyre_amqp_pipe` -/
structure CachedPipe where
  type : Str
  name : Str
  joins : List CachedJoin

/-- `zyre_amqp_feed` -/
structure CachedFeed where
  type : Str
  name : Str
  asQueue : Bool

/-- `zyre_amqp_feed_new`; names and types are short strings already. -/
def CachedFeed.new (type name : Str) : CachedFeed where
  type := type
  name := name
  asQueue := type == "service".toList || type == "rotator".toList

/-- `zyre_amqp_pipe_join_lookup` -/
def CachedPipe.joinLookup (self : CachedPipe) (feedName address : Str) : Option CachedJoin :=
  self.joins.find? fun join => join.feedName == feedName && join.address == address

/-- The tables of `zyre_backend_amqp` -/
structure Backend where
  pipeTable : Str → Option CachedPipe
  feedTable : Str → Option CachedFeed

namespace Backend

/-- `zyre_backend_amqp_new` -/
def new : Backend where
  pipeTable _ := none
  feedTable _ := none

/-- A request to the backend; what it passes on to a connected peer is left out. -/
def handle (self : Backend) : BackendRequest → Option Backend
  | .pipeCreate pipeType pipeName =>
    match self.pipeTable pipeName with
    | some _ => none
    | none => some { self with
        pipeTable := update self.pipeTable pipeName (some ⟨pipeType, pipeName, []⟩) }
  | .pipeDelete pipeName =>
    match self.pipeTable pipeName with
    | none => none
    | some _ => some { self with pipeTable := update self.pipeTable pipeName none }
  | .feedCreate feedType feedName =>
    match self.feedTable feedName with
    | some _ => none
    | none => some { self with
        feedTable := update self.feedTable feedName (some (CachedFeed.new feedType feedName)) }
  | .feedDelete feedName =>
    match self.feedTable feedName with
    | none => none
    | some _ => some { self with feedTable := update self.feedTable feedName none }
  | .joinCreate pipeName feedName address =>
    match self.pipeTable pipeName with
    | none => none
    | some pipe =>
      match pipe.joinLookup feedName address with
      | some _ => none
      | none => some { self with
          pipeTable := update self.pipeTable pipeName
            (some { pipe with joins := pipe.joins ++ [⟨pipeName, feedName, address⟩] }) }
  | .joinDelete pipeName feedName address =>
    match self.pipeTable pipeName with
    | none => none
    | some pipe =>
      match pipe.joinLookup feedName address with
      | none => none
      | some join => some { self with
          pipeTable := update self.pipeTable pipeName
            (some { pipe with joins := pipe.joins.erase join }) }
  -- Default feed is not defined
  | .addressPost _ feedName =>
    if feedName.isEmpty then some self
    else
      match self.feedTable feedName with
      | none => none
      | some _ => some self

end Backend

/-! ## What the tables hold -/

/-- The tables hold the feeds of `F`, the pipes of `P` and the joins of `J`, the feeds and the pipes
by their names and with their types. -/
structure Caches (F P : Str → Str → Prop) (J : CachedJoin → Prop) (b : Backend) : Prop where
  feeds : ∀ name feed, b.feedTable name = some feed ↔
    ∃ type, F name type ∧ feed = CachedFeed.new type name
  pipes : ∀ name type, P name type → ∃ pipe, b.pipeTable name = some pipe ∧ pipe.type = type
  only : ∀ name pipe, b.pipeTable name = some pipe → pipe.name = name ∧ P name pipe.type ∧
    pipe.joins.Nodup ∧ ∀ c, c ∈ pipe.joins ↔ J c ∧ c.pipeName = name
  placed : ∀ c, J c → ∃ type, P c.pipeName type

section Requests

variable {F P F' P' : Str → Str → Prop} {J J' : CachedJoin → Prop} {b : Backend} {n type : Str}

theorem Caches.congr (h : Caches F P J b) (hF : ∀ n type, F' n type ↔ F n type)
    (hP : ∀ n type, P' n type ↔ P n type) (hJ : ∀ c, J' c ↔ J c) : Caches F' P' J' b := by
  obtain rfl : F' = F := by
    funext n type
    exact propext (hF n type)
  obtain rfl : P' = P := by
    funext n type
    exact propext (hP n type)
  obtain rfl : J' = J := funext fun c => propext (hJ c)
  exact h

theorem caches_new : Caches (fun _ _ => False) (fun _ _ => False) (fun _ => False) Backend.new where
  feeds _ _ := ⟨nofun, fun ⟨_, h, _⟩ => h.elim⟩
  pipes _ _ h := h.elim
  only := nofun
  placed _ h := h.elim

theorem Caches.feedCreate (h : Caches F P J b) (hn : ∀ type, ¬ F n type) :
    ∃ b', b.handle (.feedCreate type n) = some b' ∧
      Caches (fun n' type' => F n' type' ∨ n' = n ∧ type' = type) P J b' := by
  have hnone : b.feedTable n = none := by
    cases hfeed : b.feedTable n with
    | none => rfl
    | some feed =>
      obtain ⟨type', hF, -⟩ := (h.feeds n feed).mp hfeed
      exact absurd hF (hn type')
  refine ⟨{ b with feedTable := update b.feedTable n (some (CachedFeed.new type n)) },
    by rw [Backend.handle, hnone], fun n' feed => ?_, h.pipes, h.only, h.placed⟩
  show update b.feedTable n _ n' = some feed ↔ _
  rw [update_apply]
  split
  · next hn' =>
    rw [Option.some.injEq, eq_comm]
    constructor
    · exact fun heq => ⟨type, .inr ⟨hn', rfl⟩, hn' ▸ heq⟩
    · rintro ⟨type', hF | ⟨-, rfl⟩, heq⟩
      · exact absurd (hn' ▸ hF) (hn type')
      · exact hn' ▸ heq
  · next hn' =>
    rw [h.feeds]
    simp only [hn', false_and, or_false]

theorem Caches.feedDelete (h : Caches F P J b) (hn : F n type) :
    ∃ b', b.handle (.feedDelete n) = some b' ∧
      Caches (fun n' type' => F n' type' ∧ n' ≠ n) P J b' := by
  have hsome := (h.feeds n _).mpr ⟨type, hn, rfl⟩
  refine ⟨{ b with feedTable := update b.feedTable n none },
    by rw [Backend.handle, hsome], fun n' feed => ?_, h.pipes, h.only, h.placed⟩
  show update b.feedTable n none n' = some feed ↔ _
  rw [update_apply]
  split
  · next hn' => exact iff_of_false nofun fun ⟨_, hF, _⟩ => hF.2 hn'
  · next hn' =>
    rw [h.feeds]
    simp only [hn', ne_eq, not_false_eq_true, and_true]

theorem Caches.pipeCreate (h : Caches F P J b) (hn : ∀ type, ¬ P n type) :
    ∃ b', b.handle (.pipeCreate type n) = some b' ∧
      Caches F (fun n' type' => P n' type' ∨ n' = n ∧ type' = type) J b' := by
  have hnone : b.pipeTable n = none := by
    cases hpipe : b.pipeTable n with
    | none => rfl
    | some pipe => exact absurd (h.only n pipe hpipe).2.1 (hn _)
  refine ⟨{ b with pipeTable := update b.pipeTable n (some ⟨type, n, []⟩) },
    by rw [Backend.handle, hnone], h.feeds, fun n' type' hP => ?_, fun n' pipe hpipe => ?_,
    fun c hc => (h.placed c hc).imp fun _ => .inl⟩
  · show ∃ pipe, update b.pipeTable n _ n' = some pipe ∧ _
    rw [update_apply]
    split
    · next hn' =>
      rcases hP with hP | ⟨-, rfl⟩
      · exact absurd (hn' ▸ hP) (hn type')
      · exact ⟨_, rfl, rfl⟩
    · next hn' => exact h.pipes n' type' (hP.resolve_right fun hP => hn' hP.1)
  · change update b.pipeTable n _ n' = some pipe at hpipe
    rw [update_apply] at hpipe
    split at hpipe
    · next hn' =>
      cases hpipe
      refine ⟨hn'.symm, .inr ⟨hn', rfl⟩, nodup_nil, fun c => ?_⟩
      refine iff_of_false not_mem_nil fun ⟨hc, hname⟩ => ?_
      obtain ⟨type', hP⟩ := h.placed c hc
      exact hn type' (hn' ▸ hname ▸ hP)
    · obtain ⟨hname, hP, hjoins⟩ := h.only n' pipe hpipe
      exact ⟨hname, .inl hP, hjoins⟩

theorem Caches.pipeDelete (h : Caches F P J b) (hn : P n type) (hJ : ∀ c, J c → c.pipeName ≠ n) :
    ∃ b', b.handle (.pipeDelete n) = some b' ∧
      Caches F (fun n' type' => P n' type' ∧ n' ≠ n) J b' := by
  obtain ⟨pipe, hpipe, -⟩ := h.pipes n type hn
  refine ⟨{ b with pipeTable := update b.pipeTable n none },
    by rw [Backend.handle, hpipe], h.feeds, fun n' type' hP => ?_, fun n' pipe hpipe => ?_,
    fun c hc => (h.placed c hc).imp fun _ hP => ⟨hP, hJ c hc⟩⟩
  · show ∃ pipe, update b.pipeTable n none n' = some pipe ∧ _
    rw [update_apply, if_neg hP.2]
    exact h.pipes n' type' hP.1
  · change update b.pipeTable n none n' = some pipe at hpipe
    rw [update_apply] at hpipe
    split at hpipe
    · cases hpipe
    · next hn' =>
      obtain ⟨hname, hP, hjoins⟩ := h.only n' pipe hpipe
      exact ⟨hname, ⟨hP, hn'⟩, hjoins⟩

variable {pipe : CachedPipe} {c : CachedJoin}

theorem Caches.setJoins (h : Caches F P J b) (hpipe : b.pipeTable n = some pipe)
    {joins : List CachedJoin} (hnodup : joins.Nodup)
    (hjoins : ∀ c, c ∈ joins ↔ J' c ∧ c.pipeName = n)
    (hother : ∀ c, c.pipeName ≠ n → (J' c ↔ J c)) :
    Caches F P J' { b with
      pipeTable := update b.pipeTable n (some { pipe with joins := joins }) } := by
  obtain ⟨hname, hP, -⟩ := h.only n pipe hpipe
  refine ⟨h.feeds, fun n' type' hP' => ?_, fun n' pipe' hpipe' => ?_, fun c hc => ?_⟩
  · show ∃ pipe', update b.pipeTable n _ n' = some pipe' ∧ _
    rw [update_apply]
    split
    · next hn' =>
      obtain ⟨pipe', hpipe', htype⟩ := h.pipes n' type' hP'
      rw [hn', hpipe] at hpipe'
      cases hpipe'
      exact ⟨_, rfl, htype⟩
    · exact h.pipes n' type' hP'
  · change update b.pipeTable n _ n' = some pipe' at hpipe'
    rw [update_apply] at hpipe'
    split at hpipe'
    · next hn' =>
      cases hpipe'
      rw [hn']
      exact ⟨hname, hP, hnodup, hjoins⟩
    · next hn' =>
      obtain ⟨hname', hP', hnodup', hjoins'⟩ := h.only n' pipe' hpipe'
      refine ⟨hname', hP', hnodup', fun c => ?_⟩
      rw [hjoins']
      refine and_congr_left fun hc => (hother c ?_).symm
      rw [hc]
      exact hn'
  · by_cases hcn : c.pipeName = n
    · exact ⟨_, hcn ▸ hP⟩
    · exact h.placed c ((hother c hcn).mp hc)

theorem joinLookup_eq_some {feedName address : Str} (hpipe : ∀ c ∈ pipe.joins, c.pipeName = n)
    (h : pipe.joinLookup feedName address = some c) :
    c ∈ pipe.joins ∧ c = ⟨n, feedName, address⟩ := by
  have hmem := mem_of_find?_eq_some h
  have hname := hpipe c hmem
  have hkey := find?_some h
  simp only [Bool.and_eq_true, beq_iff_eq] at hkey
  obtain ⟨pipeName, feedName', address'⟩ := c
  obtain ⟨rfl, rfl⟩ := hkey
  obtain rfl : pipeName = n := hname
  exact ⟨hmem, rfl⟩

theorem joinLookup_eq_none (h : pipe.joinLookup c.feedName c.address = none) : c ∉ pipe.joins := by
  intro hmem
  have hkey := find?_eq_none.mp h c hmem
  simp at hkey

theorem Caches.joinCreate (h : Caches F P J b) (hP : P c.pipeName type) (hc : ¬ J c) :
    ∃ b', b.handle (.joinCreate c.pipeName c.feedName c.address) = some b' ∧
      Caches F P (fun c' => J c' ∨ c' = c) b' := by
  obtain ⟨pipe, hpipe, -⟩ := h.pipes c.pipeName type hP
  obtain ⟨-, -, hnodup, hjoins⟩ := h.only c.pipeName pipe hpipe
  have hnone : pipe.joinLookup c.feedName c.address = none := by
    cases hlookup : pipe.joinLookup c.feedName c.address with
    | none => rfl
    | some c' =>
      obtain ⟨hmem, heq⟩ := joinLookup_eq_some (fun c hc => ((hjoins c).mp hc).2) hlookup
      rw [heq] at hmem
      exact absurd ((hjoins _).mp hmem).1 hc
  refine ⟨{ b with
      pipeTable := update b.pipeTable c.pipeName (some { pipe with joins := pipe.joins ++ [c] }) },
    by rw [Backend.handle, hpipe]; dsimp only; rw [hnone], h.setJoins hpipe ?_ (fun c' => ?_)
      fun c' hc' => ?_⟩
  · refine nodup_append.mpr ⟨hnodup, nodup_singleton _, fun a ha b hb => ?_⟩
    rw [mem_singleton.mp hb]
    exact ne_of_mem_of_not_mem ha (joinLookup_eq_none hnone)
  · rw [mem_append, mem_singleton, hjoins]
    constructor
    · rintro (⟨hJ, hname⟩ | rfl)
      · exact ⟨.inl hJ, hname⟩
      · exact ⟨.inr rfl, rfl⟩
    · rintro ⟨hJ | rfl, hname⟩
      · exact .inl ⟨hJ, hname⟩
      · exact .inr rfl
  · refine or_iff_left fun heq => ?_
    rw [heq] at hc'
    exact hc' rfl

theorem Caches.joinDelete (h : Caches F P J b) (hc : J c) :
    ∃ b', b.handle (.joinDelete c.pipeName c.feedName c.address) = some b' ∧
      Caches F P (fun c' => J c' ∧ c' ≠ c) b' := by
  obtain ⟨type, hP⟩ := h.placed c hc
  obtain ⟨pipe, hpipe, -⟩ := h.pipes c.pipeName type hP
  obtain ⟨-, -, hnodup, hjoins⟩ := h.only c.pipeName pipe hpipe
  have hsome : pipe.joinLookup c.feedName c.address = some c := by
    cases hlookup : pipe.joinLookup c.feedName c.address with
    | none => exact absurd ((hjoins c).mpr ⟨hc, rfl⟩) (joinLookup_eq_none hlookup)
    | some c' =>
      rw [(joinLookup_eq_some (fun c hc => ((hjoins c).mp hc).2) hlookup).2]
  refine ⟨{ b with
      pipeTable := update b.pipeTable c.pipeName (some { pipe with joins := pipe.joins.erase c }) },
    by rw [Backend.handle, hpipe]; dsimp only; rw [hsome], h.setJoins hpipe (hnodup.erase c)
      (fun c' => ?_) fun c' hc' => ?_⟩
  · rw [hnodup.mem_erase_iff, hjoins]
    tauto
  · refine and_iff_left fun heq => ?_
    rw [heq] at hc'
    exact hc' rfl

theorem Caches.addressPost (h : Caches F P J b) {address : Str} (hn : n ≠ [] → F n type) :
    b.handle (.addressPost address n) = some b := by
  rw [Backend.handle]
  split
  · rfl
  · next hempty =>
    have hF := hn fun hnil => hempty (by rw [hnil]; rfl)
    rw [(h.feeds n _).mpr ⟨type, hF, rfl⟩]

end Requests

end OpenAmq.Zyre
