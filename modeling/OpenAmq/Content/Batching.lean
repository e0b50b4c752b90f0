import OpenAmq.Content.Chrono
import OpenAmq.Content.Wire

/-!
# The output of a direct connection

The agent of a feed at the server, and that of a sink at the client, take methods from the front
of their mailbox. For a content to write they go on and take those behind it that fit into the
same bucket. What does not is put back to the front.

* `batchLoop`, `writeDirectContent` — the action of both agents
* `Streamed` — the octets that the contents of some methods should make
* `writes_iff_writeOk` — when one action writes what it takes, and nothing else changes
* `batching_invisible` — when the octets of a run are those of the contents in their order
-/

namespace OpenAmq

open ContentObject List Chrono

/-! ## The chronometer of a content -/

namespace ContentObject.Sent

/-- The content once `chrono add` has been called, where there is room for the delta. -/
def stamped (now : Int) (self : Sent basicClass) : Sent basicClass :=
  { self with
    content := self.content.stamped now
    represents := self.represents }

/-- `chrono add` on the content of a method. -/
def chronoAdd (now : Int) (self : Sent basicClass) : Except Violation (Sent basicClass) := do
  let text ← Chrono.chronoAdd now self.content.chronoText
  return { self with
    content := self.content.setCorrelationId (.ofOctets (stringOctets text))
    represents := self.represents }

end ContentObject.Sent

/-! ## The action -/

inductive AgentMethod (α : Type) where
  /-- `direct_out` with its content and options. -/
  | directOut (sent : Sent basicClass)
  | other (method : α)

variable {α : Type}

/--
The loop of `write direct content`: the bucket, and what it leaves in the mailbox. `times` are
the readings of the clock. All contents are put with the options of the first one.
-/
def batchLoop (options : UInt8) : (times : Nat → Int) → Bucket → List (AgentMethod α) →
    Except Violation (Bucket × List (AgentMethod α))
  | _, bucket, [] => .ok (bucket, [])
  | _, bucket, .other method :: mailbox => .ok (bucket, .other method :: mailbox)
  | times, bucket, .directOut sent :: mailbox => do
    let sent ← sent.chronoAdd (times 0)
    let (rc, bucket) ← sent.content.wirePut bucket options
    if rc = 0 then batchLoop options (fun k => times (k + 1)) bucket mailbox
    else .ok (bucket, .directOut sent :: mailbox)

/--
`write direct content`: the bucket that is written, and the mailbox. At the client a text is
printed before the assertion fails, and the server counts the contents.
-/
def writeDirectContent (batching : Nat) (times : Nat → Int) (directOut : Sent basicClass)
    (mailbox : List (AgentMethod α)) : Except Violation (Bucket × List (AgentMethod α)) := do
  let directOut ← directOut.chronoAdd (times 0)
  if batching ≠ 0 then
    let (rc, bucket) ← directOut.content.wirePut (emptyBucket batching) directOut.options
    if rc = 0 then batchLoop directOut.options (fun k => times (k + 1)) bucket mailbox
    else
      let (rc, bucket) ← directOut.content.wirePut (emptyBucket iprBucketMaxSize) directOut.options
      if rc = 0 then .ok (bucket, mailbox) else .error .assertion
  else
    let (rc, bucket) ←
      directOut.content.wirePut (emptyBucket directOut.content.wireSize) directOut.options
    if rc = 0 then .ok (bucket, mailbox) else .error .assertion

/-! ## One content -/

variable {options : UInt8} {bucket : Bucket}

namespace ContentObject.Sent

/-- The content has a chronometer, so that each call leaves a delta. -/
def Timed (self : Sent basicClass) : Prop := Chrono.Marked self.content.chronoText

instance (self : Sent basicClass) : Decidable self.Timed :=
  inferInstanceAs (Decidable (Chrono.Marked _))

/-- There is room for the delta of a call at this time. -/
def DeltaFits (now : Int) (self : Sent basicClass) : Prop :=
  self.content.DeltaFits now

instance (now : Int) (self : Sent basicClass) : Decidable (self.DeltaFits now) :=
  inferInstanceAs (Decidable (ContentObject.DeltaFits _ _))

/-- The same content with the options of another. -/
def withOptions (self : Sent basicClass) (options : UInt8) : Sent basicClass :=
  { self with options := options, represents := self.represents }

variable (self : Sent basicClass) (now : Int)

theorem chronoAdd_of_fits (h : self.DeltaFits now) :
    self.chronoAdd now = .ok (self.stamped now) := by
  rw [chronoAdd, Chrono.chronoAdd_eq h]
  rfl

theorem chronoAdd_of_not_fits (h : ¬ self.DeltaFits now) : self.chronoAdd now = .error .write := by
  rw [chronoAdd, Chrono.chronoAdd_eq_ite self.content.length_chronoText_le]
  unfold DeltaFits ContentObject.DeltaFits at h
  rw [if_neg h]
  rfl

theorem stamped_of_not_timed (h : ¬ self.Timed) : self.stamped now = self := by
  unfold stamped
  simp only [self.content.stamped_of_not_marked now h]

theorem stamped_ne_of_timed (hfits : self.DeltaFits now) (h : self.Timed) :
    self.stamped now ≠ self := by
  intro heq
  have hid : ShortText.ofOctets (stringOctets (advance self.content.chronoText now)) =
      self.content.correlationId := congrArg (fun sent => sent.content.correlationId) heq
  have hlen := congrArg (fun text : ShortText => text.octets.length) hid
  unfold Timed at h
  generalize hdelta : msecsAt (startTime self.content.chronoText) now = msecs
  have htext : advance self.content.chronoText now =
      self.content.chronoText ++ deltaText msecs := by
    rw [advance, if_pos h, hdelta]
  have hoctets : stringOctets (advance self.content.chronoText now) =
      self.content.correlationId.octets ++ stringOctets (deltaText msecs) := by
    rw [htext, stringOctets, map_append]
    exact congrArg (· ++ _) self.content.octets_chronoText
  have hall : (stringOctets (advance self.content.chronoText now)).take shortstrMax =
      stringOctets (advance self.content.chronoText now) :=
    take_of_length_le (by rw [stringOctets, length_map]; exact hfits)
  have hwhile : ∀ b ∈ self.content.correlationId.octets, decide (b ≠ 0) = true := by
    intro b hb
    exact decide_eq_true fun h0 => self.content.correlationId.noNul (h0 ▸ hb)
  simp only [ShortText.ofOctets] at hlen
  rw [hall, hoctets, takeWhile_append_of_pos hwhile, length_append] at hlen
  have hblank : 0 < ((stringOctets (deltaText msecs)).takeWhile (· ≠ 0)).length := Nat.succ_pos _
  omega

theorem options_stamped : (self.stamped now).options = self.options := rfl

theorem withOptions_stamped : (self.stamped now).withOptions self.options = self.stamped now := rfl

theorem length_chunk_withOptions (options : UInt8) :
    (self.withOptions options).chunk.length = self.chunk.length := by
  rw [length_chunk, length_chunk]
  rfl

theorem options_of_chunk_eq (h : (self.withOptions options).chunk = self.chunk) :
    options = self.options := by
  have h1 := append_cancel_left (append_cancel_left (append_cancel_left (append_cancel_left h)))
  exact (cons.inj h1).1

end ContentObject.Sent

/-! ## The loop -/

/-- Each content with one delta of its own. -/
def stampAll : (times : Nat → Int) → List (Sent basicClass) → List (Sent basicClass)
  | _, [] => []
  | times, sent :: contents => sent.stamped (times 0) :: stampAll (fun k => times (k + 1)) contents

def chunks (contents : List (Sent basicClass)) : List UInt8 :=
  (contents.map Sent.chunk).flatMap framed

theorem chunks_cons (sent : Sent basicClass) (contents : List (Sent basicClass)) :
    chunks (sent :: contents) = framed sent.chunk ++ chunks contents := flatMap_cons

/--
The loop writes the first contents of the mailbox, each with one delta and its own options, and
leaves the rest as it is.
-/
def Batches (options : UInt8) (times : Nat → Int) (bucket : Bucket)
    (mailbox : List (AgentMethod α)) : Prop :=
  ∃ bucket' batched rest, batchLoop options times bucket mailbox = .ok (bucket', rest) ∧
    mailbox = batched.map .directOut ++ rest ∧
    bucket'.data = bucket.data ++ chunks (stampAll times batched)

/--
The contents that find room have the options of the first, and four octets of names, properties
and body; the one that does not has no chronometer.
-/
def BatchOk (options : UInt8) : (times : Nat → Int) → (room : Nat) → List (AgentMethod α) → Prop
  | _, _, [] => True
  | _, _, .other _ :: _ => True
  | times, room, .directOut sent :: mailbox =>
    let stamped := sent.stamped (times 0)
    sent.DeltaFits (times 0) ∧
      if stamped.content.wireSize ≤ room then
        4 ≤ stamped.content.bareSize ∧ sent.options = options ∧
          BatchOk options (fun k => times (k + 1)) (room - stamped.content.wireSize) mailbox
      else ¬ sent.Timed

theorem wirePut_cases (sent : Sent basicClass) (options : UInt8) (bucket : Bucket) :
    (bucket.maxSize - bucket.data.length < sent.content.wireSize ∧
      sent.content.wirePut bucket options = .ok (-1, bucket)) ∨
    (sent.content.wireSize ≤ bucket.maxSize - bucket.data.length ∧ sent.content.bareSize < 4 ∧
      sent.content.wirePut bucket options = .error .assertion) ∨
    (sent.content.wireSize ≤ bucket.maxSize - bucket.data.length ∧ 4 ≤ sent.content.bareSize ∧
      ∃ bucket', sent.content.wirePut bucket options = .ok (0, bucket') ∧
        bucket'.maxSize = bucket.maxSize ∧
        bucket'.data = bucket.data ++ framed (sent.withOptions options).chunk) := by
  by_cases h : sent.content.wireSize ≤ bucket.maxSize - bucket.data.length
  · obtain ⟨bucket', hput, hmax, hdata⟩ := (sent.withOptions options).wirePut_eq bucket h
    have hput : sent.content.wirePut bucket options =
        if sent.content.bareSize < 4 then .error .assertion else .ok (0, bucket') := hput
    by_cases h4 : sent.content.bareSize < 4
    · exact .inr (.inl ⟨h, h4, by rw [hput, if_pos h4]⟩)
    · exact .inr (.inr ⟨h, by omega, bucket', by rw [hput, if_neg h4], hmax, hdata⟩)
  · have hlt := Nat.lt_of_not_le h
    exact .inl ⟨hlt, wirePut_of_full hlt⟩

instance BatchOk.decidable (options : UInt8) : (times : Nat → Int) → (room : Nat) →
    (mailbox : List (AgentMethod α)) → Decidable (BatchOk options times room mailbox)
  | _, _, [] => .isTrue trivial
  | _, _, .other _ :: _ => .isTrue trivial
  | times, room, .directOut sent :: mailbox =>
    have := BatchOk.decidable options (fun k => times (k + 1))
      (room - (sent.stamped (times 0)).content.wireSize) mailbox
    inferInstanceAs (Decidable (sent.DeltaFits (times 0) ∧ ite _ _ _))

theorem batchLoop_cases (options : UInt8) (times : Nat → Int) (bucket : Bucket)
    (sent : Sent basicClass) (mailbox : List (AgentMethod α)) :
    (¬ sent.DeltaFits (times 0) ∧
      batchLoop options times bucket (.directOut sent :: mailbox) = .error .write) ∨
    (sent.DeltaFits (times 0) ∧
      bucket.maxSize - bucket.data.length < (sent.stamped (times 0)).content.wireSize ∧
      batchLoop options times bucket (.directOut sent :: mailbox) =
        .ok (bucket, .directOut (sent.stamped (times 0)) :: mailbox)) ∨
    (sent.DeltaFits (times 0) ∧
      (sent.stamped (times 0)).content.wireSize ≤ bucket.maxSize - bucket.data.length ∧
      (sent.stamped (times 0)).content.bareSize < 4 ∧
      batchLoop options times bucket (.directOut sent :: mailbox) = .error .assertion) ∨
    (sent.DeltaFits (times 0) ∧
      (sent.stamped (times 0)).content.wireSize ≤ bucket.maxSize - bucket.data.length ∧
      4 ≤ (sent.stamped (times 0)).content.bareSize ∧
      ∃ bucket' : Bucket, batchLoop options times bucket (.directOut sent :: mailbox) =
          batchLoop options (fun k => times (k + 1)) bucket' mailbox ∧
        bucket'.maxSize = bucket.maxSize ∧ bucket'.data =
          bucket.data ++ framed ((sent.stamped (times 0)).withOptions options).chunk) := by
  rw [batchLoop]
  by_cases hfits : sent.DeltaFits (times 0)
  · rw [sent.chronoAdd_of_fits _ hfits]
    simp only [bind, Except.bind]
    generalize sent.stamped (times 0) = stamped
    rcases wirePut_cases stamped options bucket with
      ⟨hroom, hput⟩ | ⟨hroom, h4, hput⟩ | ⟨hroom, h4, bucket', hput, hmax, hdata⟩
    · rw [hput]
      exact .inr (.inl ⟨hfits, hroom, rfl⟩)
    · rw [hput]
      exact .inr (.inr (.inl ⟨hfits, hroom, h4, rfl⟩))
    · rw [hput]
      exact .inr (.inr (.inr ⟨hfits, hroom, h4, bucket', rfl, hmax, hdata⟩))
  · rw [sent.chronoAdd_of_not_fits _ hfits]
    exact .inl ⟨hfits, rfl⟩

theorem batchLoop_grows {times : Nat → Int} {bucket' : Bucket} {mailbox rest : List (AgentMethod α)}
    (h : batchLoop options times bucket mailbox = .ok (bucket', rest)) :
    rest.length ≤ mailbox.length ∧ ∃ octets, bucket'.data = bucket.data ++ octets := by
  induction mailbox generalizing times bucket with
  | nil =>
    cases h
    exact ⟨Nat.le_refl _, [], (append_nil _).symm⟩
  | cons method mailbox ih =>
    cases method with
    | other method =>
      cases h
      exact ⟨Nat.le_refl _, [], (append_nil _).symm⟩
    | directOut sent =>
      rcases batchLoop_cases options times bucket sent mailbox with
        ⟨-, hloop⟩ | ⟨-, -, hloop⟩ | ⟨-, -, -, hloop⟩ | ⟨-, -, -, bucket1, hloop, -, hdata⟩
      · rw [hloop] at h
        cases h
      · rw [hloop] at h
        cases h
        exact ⟨Nat.le_refl _, [], (append_nil _).symm⟩
      · rw [hloop] at h
        cases h
      · rw [hloop] at h
        obtain ⟨hlen, octets, hoctets⟩ := ih h
        rw [hdata, append_assoc] at hoctets
        exact ⟨Nat.le_succ_of_le hlen, _, hoctets⟩

theorem framed_append_inj {chunk chunk' octets octets' : List UInt8}
    (hlen : chunk.length = chunk'.length) (h : framed chunk ++ octets = framed chunk' ++ octets') :
    chunk = chunk' ∧ octets = octets' := by
  have hframed : (framed chunk).length = (framed chunk').length := by
    rw [length_framed, length_framed, hlen]
  obtain ⟨hchunk, hoctets⟩ := append_inj h hframed
  rw [framed, framed, hlen] at hchunk
  exact ⟨append_cancel_left hchunk, hoctets⟩

theorem batches_stop_iff {times : Nat → Int} {method method' : AgentMethod α}
    {mailbox : List (AgentMethod α)}
    (h : batchLoop options times bucket (method :: mailbox) = .ok (bucket, method' :: mailbox)) :
    Batches options times bucket (method :: mailbox) ↔ method' = method := by
  constructor
  · rintro ⟨bucket', batched, rest, hloop, hmailbox, -⟩
    rw [h] at hloop
    cases hloop
    have hnil : batched = [] := by
      have hlen := congrArg length hmailbox
      rw [length_append, length_map, length_cons] at hlen
      exact length_eq_zero_iff.mp (by rw [length_cons] at hlen; omega)
    rw [hnil] at hmailbox
    exact (cons.inj hmailbox).1.symm
  · rintro rfl
    exact ⟨bucket, [], _, h, rfl, (append_nil _).symm⟩

/-- The loop writes the batch that is meant just if the condition holds. -/
theorem batches_iff (options : UInt8) (times : Nat → Int) (bucket : Bucket)
    (mailbox : List (AgentMethod α)) : Batches options times bucket mailbox ↔
      BatchOk options times (bucket.maxSize - bucket.data.length) mailbox := by
  induction mailbox generalizing times bucket with
  | nil =>
    refine iff_of_true ⟨bucket, [], [], rfl, rfl, ?_⟩ trivial
    exact (append_nil _).symm
  | cons method mailbox ih =>
    cases method with
    | other method => exact iff_of_true ((batches_stop_iff rfl).mpr rfl) trivial
    | directOut sent =>
      rw [BatchOk]
      rcases batchLoop_cases options times bucket sent mailbox with
        ⟨hfits, hloop⟩ | ⟨hfits, hroom, hloop⟩ | ⟨hfits, hroom, h4, hloop⟩ |
          ⟨hfits, hroom, h4, bucket1, hloop, hmax, hdata⟩
      · refine iff_of_false ?_ fun h => hfits h.1
        rintro ⟨bucket', batched, rest, h, -⟩
        rw [hloop] at h
        cases h
      · rw [batches_stop_iff hloop, if_neg (Nat.not_le_of_lt hroom)]
        constructor
        · intro h
          refine ⟨hfits, fun htimed => ?_⟩
          exact sent.stamped_ne_of_timed (times 0) hfits htimed (AgentMethod.directOut.inj h)
        · rintro ⟨-, htimed⟩
          rw [sent.stamped_of_not_timed _ htimed]
      · rw [if_pos hroom]
        refine iff_of_false ?_ fun h => absurd h.2.1 (Nat.not_le_of_lt h4)
        rintro ⟨bucket', batched, rest, h, -⟩
        rw [hloop] at h
        cases h
      · have hsize : bucket1.maxSize - bucket1.data.length = bucket.maxSize - bucket.data.length -
            (sent.stamped (times 0)).content.wireSize := by
          rw [hmax, hdata, length_append, length_framed, Sent.length_chunk_withOptions,
            Sent.length_chunk, wireSize_eq]
          omega
        rw [if_pos hroom, ← hsize, ← ih]
        constructor
        · rintro ⟨bucket', batched, rest, h, hmailbox, hbucket⟩
          rw [hloop] at h
          obtain ⟨hlen, octets, hoctets⟩ := batchLoop_grows h
          cases batched with
          | nil =>
            -- the method is not in the mailbox any more
            rw [← show _ = rest from hmailbox] at hlen
            exact absurd hlen (Nat.not_succ_le_self _)
          | cons sent' batched =>
            obtain ⟨hsent, hrest⟩ := cons.inj hmailbox
            cases hsent
            rw [stampAll, chunks_cons] at hbucket
            have hsame := hoctets.symm.trans hbucket
            rw [hdata, append_assoc] at hsame
            obtain ⟨hchunk, htail⟩ := framed_append_inj
              ((sent.stamped (times 0)).length_chunk_withOptions options)
              (append_cancel_left hsame)
            have hoptions := (sent.stamped (times 0)).options_of_chunk_eq hchunk
            refine ⟨hfits, h4, hoptions.symm, bucket', batched, rest, h, hrest, ?_⟩
            rw [hoctets, htail]
        · rintro ⟨-, -, rfl, bucket', batched, rest, h, hmailbox, hbucket⟩
          refine ⟨bucket', sent :: batched, rest, hloop.trans h, ?_, ?_⟩
          · rw [hmailbox]
            rfl
          · rw [hbucket, hdata, stampAll, chunks_cons, append_assoc, sent.withOptions_stamped]

/-! ## The action -/

/--
The action writes the content and the first ones of the mailbox, each with one delta and its
own options, and leaves the rest as it is.
-/
def Writes (batching : Nat) (times : Nat → Int) (directOut : Sent basicClass)
    (mailbox : List (AgentMethod α)) : Prop :=
  ∃ bucket batched rest, writeDirectContent batching times directOut mailbox = .ok (bucket, rest) ∧
    mailbox = batched.map .directOut ++ rest ∧
    bucket.data = chunks (stampAll times (directOut :: batched))

/--
The content has room for its delta, four octets of names, properties and body, and no more than
the largest bucket has room for; in a batch the contents behind it are as they should be.
-/
def WriteOk (batching : Nat) (times : Nat → Int) (directOut : Sent basicClass)
    (mailbox : List (AgentMethod α)) : Prop :=
  let stamped := directOut.stamped (times 0)
  directOut.DeltaFits (times 0) ∧ 4 ≤ stamped.content.bareSize ∧
    stamped.content.wireSize ≤ iprBucketMaxSize ∧
    (batching ≠ 0 → stamped.content.wireSize ≤ bucketMaxSize batching →
      BatchOk directOut.options (fun k => times (k + 1))
        (bucketMaxSize batching - stamped.content.wireSize) mailbox)

instance (batching : Nat) (times : Nat → Int) (directOut : Sent basicClass)
    (mailbox : List (AgentMethod α)) : Decidable (WriteOk batching times directOut mailbox) :=
  inferInstanceAs (Decidable (_ ∧ _ ∧ _ ∧ (_ → _ → _)))

section Action

variable {batching : Nat} {times : Nat → Int} {directOut : Sent basicClass}
  {mailbox : List (AgentMethod α)}

theorem not_writes_of_error {v : Violation}
    (h : writeDirectContent batching times directOut mailbox = .error v) :
    ¬ Writes batching times directOut mailbox := by
  rintro ⟨bucket, batched, rest, hok, -⟩
  rw [h] at hok
  cases hok

theorem writes_of_single
    (h : writeDirectContent batching times directOut mailbox = .ok (bucket, mailbox))
    (hdata : bucket.data = framed (directOut.stamped (times 0)).chunk) :
    Writes batching times directOut mailbox := by
  refine ⟨bucket, [], mailbox, h, rfl, ?_⟩
  rw [hdata]
  exact (append_nil _).symm

theorem writes_iff_batches
    (h : writeDirectContent batching times directOut mailbox =
      batchLoop options (fun k => times (k + 1)) bucket mailbox)
    (hdata : bucket.data = framed (directOut.stamped (times 0)).chunk) :
    Writes batching times directOut mailbox ↔
      Batches options (fun k => times (k + 1)) bucket mailbox := by
  unfold Writes Batches
  rw [h]
  simp only [stampAll, chunks_cons, hdata]

theorem writes_iff_of_not_fits (hfits : ¬ directOut.DeltaFits (times 0)) :
    Writes batching times directOut mailbox ↔ WriteOk batching times directOut mailbox := by
  refine iff_of_false (not_writes_of_error (v := .write) ?_) fun h => hfits h.1
  rw [writeDirectContent, directOut.chronoAdd_of_not_fits _ hfits]
  rfl

theorem emptyBucket_room (size : Nat) :
    (emptyBucket size).maxSize - (emptyBucket size).data.length = bucketMaxSize size := rfl

theorem writes_iff_of_single {size : Nat} (hfits : directOut.DeltaFits (times 0))
    (hbatch : batching ≠ 0 →
      bucketMaxSize batching < (directOut.stamped (times 0)).content.wireSize)
    (hsize : (directOut.stamped (times 0)).content.wireSize ≤ bucketMaxSize size ↔
      (directOut.stamped (times 0)).content.wireSize ≤ iprBucketMaxSize)
    (h : writeDirectContent batching times directOut mailbox = (do
      let (rc, bucket) ←
        (directOut.stamped (times 0)).content.wirePut (emptyBucket size) directOut.options
      if rc = 0 then .ok (bucket, mailbox) else .error .assertion)) :
    Writes batching times directOut mailbox ↔ WriteOk batching times directOut mailbox := by
  rcases wirePut_cases (directOut.stamped (times 0)) directOut.options (emptyBucket size) with
    ⟨hroom, hput⟩ | ⟨hroom, h4, hput⟩ | ⟨hroom, h4, bucket, hput, -, hdata⟩
  · rw [hput] at h
    refine iff_of_false (not_writes_of_error h) fun hok => ?_
    exact Nat.not_le_of_lt hroom (hsize.mpr hok.2.2.1)
  · rw [hput] at h
    exact iff_of_false (not_writes_of_error h) fun hok => Nat.not_le_of_lt h4 hok.2.1
  · rw [hput] at h
    refine iff_of_true (writes_of_single h hdata) ⟨hfits, h4, hsize.mp hroom, ?_⟩
    intro hne hle
    exact absurd hle (Nat.not_le_of_lt (hbatch hne))

theorem writes_iff_writeOk (batching : Nat) (times : Nat → Int) (directOut : Sent basicClass)
    (mailbox : List (AgentMethod α)) :
    Writes batching times directOut mailbox ↔ WriteOk batching times directOut mailbox := by
  by_cases hfits : directOut.DeltaFits (times 0)
  · have hadd := directOut.chronoAdd_of_fits _ hfits
    by_cases hzero : batching = 0
    · refine writes_iff_of_single hfits (fun h => absurd hzero h)
        ⟨fun h => Nat.le_trans h (bucketMaxSize_le _), le_bucketMaxSize⟩ ?_
      rw [writeDirectContent, hadd, hzero]
      rfl
    · rcases wirePut_cases (directOut.stamped (times 0)) directOut.options (emptyBucket batching)
        with ⟨hroom, hput⟩ | ⟨hroom, h4, hput⟩ | ⟨hroom, h4, bucket, hput, hmax, hdata⟩
      · refine @writes_iff_of_single α batching times directOut mailbox iprBucketMaxSize hfits
          (fun _ => hroom)
          ⟨fun h => Nat.le_trans h (bucketMaxSize_le _),
            fun h => Nat.le_trans h (le_bucketMaxSize (Nat.le_refl _))⟩ ?_
        rw [writeDirectContent, hadd]
        simp only [bind, Except.bind]
        rw [if_pos hzero, Sent.options_stamped, hput]
        rfl
      · refine iff_of_false (not_writes_of_error (v := .assertion) ?_) fun hok =>
          Nat.not_le_of_lt h4 hok.2.1
        rw [writeDirectContent, hadd]
        simp only [bind, Except.bind]
        rw [if_pos hzero, Sent.options_stamped, hput]
      · have hwrite : writeDirectContent batching times directOut mailbox =
            batchLoop directOut.options (fun k => times (k + 1)) bucket mailbox := by
          rw [writeDirectContent, hadd]
          simp only [bind, Except.bind]
          rw [if_pos hzero, Sent.options_stamped, hput]
          rfl
        have hsize : bucket.maxSize - bucket.data.length =
            bucketMaxSize batching - (directOut.stamped (times 0)).content.wireSize := by
          rw [hmax, hdata, length_append, length_framed, Sent.length_chunk_withOptions,
            Sent.length_chunk, wireSize_eq, ← emptyBucket_room]
          omega
        rw [writes_iff_batches hwrite hdata, batches_iff, hsize]
        constructor
        · intro h
          exact ⟨hfits, h4, Nat.le_trans hroom (bucketMaxSize_le _), fun _ _ => h⟩
        · intro h
          exact h.2.2.2 hzero hroom
  · exact writes_iff_of_not_fits hfits

end Action

/-! ## Whole runs -/

/-- An agent: its mailbox, the octets that it has written, and the other methods it has taken. -/
structure DirectOutput (α : Type) where
  mailbox : List (AgentMethod α)
  octets : List UInt8
  taken : List α

/-- A method arrives, or the agent takes the first one of its mailbox. -/
inductive DirectOutput.Event (α : Type) where
  | arrive (method : AgentMethod α)
  | take (times : Nat → Int)

namespace DirectOutput

def start : DirectOutput α := ⟨[], [], []⟩

/-- One event. After an assertion, or a write over the end, there is no state. -/
def step (batching : Nat) (self : DirectOutput α) : Event α → Option (DirectOutput α)
  | .arrive method => some { self with mailbox := self.mailbox ++ [method] }
  | .take times =>
    match self.mailbox with
    | [] => some self
    | .other method :: mailbox =>
      some { self with mailbox := mailbox, taken := self.taken ++ [method] }
    | .directOut sent :: mailbox =>
      match writeDirectContent batching times sent mailbox with
      | .ok (bucket, mailbox) =>
        some { self with mailbox := mailbox, octets := self.octets ++ bucket.data }
      | .error _ => none

/-- The content that the agent takes, and those it puts with it, are as they should be. -/
def TakeOk (batching : Nat) (self : DirectOutput α) : Event α → Prop
  | .arrive _ => True
  | .take times =>
    match self.mailbox with
    | .directOut sent :: mailbox => WriteOk batching times sent mailbox
    | _ => True

end DirectOutput

/--
The octets of methods that are taken one after another: each content makes one chunk, with its
own options and one delta.
-/
inductive Streamed : List (AgentMethod α) → List UInt8 → Prop
  | nil : Streamed [] []
  | other {method : α} {methods : List (AgentMethod α)} {octets : List UInt8}
      (h : Streamed methods octets) : Streamed (.other method :: methods) octets
  | directOut {sent : Sent basicClass} {methods : List (AgentMethod α)} {octets : List UInt8}
      (now : Int) (h : Streamed methods octets) :
      Streamed (.directOut sent :: methods) (framed (sent.stamped now).chunk ++ octets)

theorem Streamed.append {methods methods' : List (AgentMethod α)} {octets octets' : List UInt8}
    (h : Streamed methods octets) (h' : Streamed methods' octets') :
    Streamed (methods ++ methods') (octets ++ octets') := by
  induction h with
  | nil => exact h'
  | other h ih => exact .other ih
  | directOut now h ih =>
    rw [append_assoc]
    exact .directOut now ih

theorem streamed_stampAll (times : Nat → Int) (contents : List (Sent basicClass)) :
    Streamed (contents.map (AgentMethod.directOut (α := α)))
      (chunks (stampAll times contents)) := by
  induction contents generalizing times with
  | nil => exact .nil
  | cons sent contents ih =>
    exact .directOut (times 0) (ih _)

/-- The methods that are no contents to write. -/
def others (methods : List (AgentMethod α)) : List α :=
  methods.filterMap fun
    | .directOut _ => none
    | .other method => some method

theorem others_map_directOut (contents : List (Sent basicClass)) :
    others (contents.map (AgentMethod.directOut (α := α))) = [] := by
  induction contents with
  | nil => rfl
  | cons sent contents ih => exact ih

namespace DirectOutput

def arrived (events : List (Event α)) : List (AgentMethod α) :=
  events.filterMap fun
    | .arrive method => some method
    | .take _ => none

/--
What has arrived has been taken from the front, or is still there in its order. The octets are
those of the contents that have been taken.
-/
def InOrder (events : List (Event α)) (self : DirectOutput α) : Prop :=
  ∃ done, arrived events = done ++ self.mailbox ∧ Streamed done self.octets ∧
    others done = self.taken

variable {batching : Nat} {events : List (Event α)} {self : DirectOutput α}

theorem InOrder.arrive (h : InOrder events self) (method : AgentMethod α) :
    InOrder (events ++ [.arrive method]) { self with mailbox := self.mailbox ++ [method] } := by
  obtain ⟨done, hdone, hstreamed, hothers⟩ := h
  refine ⟨done, ?_, hstreamed, hothers⟩
  rw [arrived, filterMap_append, ← arrived, hdone, append_assoc]
  rfl

theorem InOrder.take (h : InOrder events self) {methods mailbox : List (AgentMethod α)}
    (hmailbox : self.mailbox = methods ++ mailbox) {octets : List UInt8}
    (hstreamed : Streamed methods octets) (times : Nat → Int) :
    InOrder (events ++ [.take times])
      ⟨mailbox, self.octets ++ octets, self.taken ++ others methods⟩ := by
  obtain ⟨done, hdone, hbefore, hothers⟩ := h
  refine ⟨done ++ methods, ?_, hbefore.append hstreamed, ?_⟩
  · rw [arrived, filterMap_append, ← arrived, hdone, hmailbox]
    exact append_nil _ ▸ (append_assoc done methods mailbox).symm
  · rw [others, filterMap_append, ← others, ← others, hothers]

/-- An event that is taken adds its octets behind those that were there. -/
theorem step_inOrder (h : InOrder events self) {event : Event α}
    (hok : TakeOk batching self event) :
    ∃ self', step batching self event = some self' ∧ InOrder (events ++ [event]) self' := by
  cases event with
  | arrive method => exact ⟨_, rfl, h.arrive method⟩
  | take times =>
    cases hmailbox : self.mailbox with
    | nil =>
      refine ⟨self, ?_, ?_⟩
      · rw [step, hmailbox]
      · obtain ⟨done, hdone, hstreamed, hothers⟩ := h
        refine ⟨done, ?_, hstreamed, hothers⟩
        rw [arrived, filterMap_append, ← arrived, hdone]
        exact append_nil _
    | cons method mailbox =>
      cases method with
      | other method =>
        refine ⟨⟨mailbox, self.octets, self.taken ++ [method]⟩, ?_, ?_⟩
        · rw [step, hmailbox]
        · have hfront : self.mailbox = [.other method] ++ mailbox := hmailbox
          have htake := h.take hfront (.other .nil) times
          rwa [append_nil] at htake
      | directOut sent =>
        have hok : WriteOk batching times sent mailbox := by
          rw [TakeOk, hmailbox] at hok
          exact hok
        obtain ⟨bucket, batched, rest, hwrite, hsplit, hdata⟩ :=
          (writes_iff_writeOk batching times sent mailbox).mpr hok
        refine ⟨⟨rest, self.octets ++ bucket.data, self.taken⟩, ?_, ?_⟩
        · simp only [step, hmailbox, hwrite]
        · have hfront : self.mailbox = (sent :: batched).map .directOut ++ rest := by
            rw [hmailbox, hsplit]
            rfl
          have htake := h.take hfront (streamed_stampAll times (sent :: batched)) times
          rwa [others_map_directOut, append_nil, ← hdata] at htake

/--
An action writes the contents that it takes, with one delta and their own options, exactly when
these are as they should be. In a run of such actions the octets are those of the contents in
the order of their arrival, and the other methods are taken in theirs.
-/
theorem batching_invisible : (∀ (batching : Nat) (times : Nat → Int) (directOut : Sent basicClass)
      (mailbox : List (AgentMethod α)),
      Writes batching times directOut mailbox ↔ WriteOk batching times directOut mailbox) ∧
    ∀ (batching : Nat) (events : List (Event α)),
      Lib.Along (step batching) (TakeOk batching) start events →
      ∃ self, Lib.run (step batching) start events = some self ∧ InOrder events self := by
  refine ⟨writes_iff_writeOk, fun batching events hok => ?_⟩
  have hstart : InOrder [] (start : DirectOutput α) := ⟨[], rfl, .nil, rfl⟩
  refine Lib.run_progress (I := InOrder) ?_ [] hstart hok
  intro events self event h hok
  exact step_inOrder h hok

/-- A content with a routing key of four octets and other options. -/
def optionedSent : Sent basicClass := { keyedSent with options := 1 }

/-- The correlation id `Chrono-0`. -/
def timedSent : Sent basicClass :=
  { keyedSent with
    content := keyedSent.content.setCorrelationId
      ⟨⟨[67, 104, 114, 111, 110, 111, 45, 48], by decide⟩, by decide⟩
    represents := keyedSent.represents }

/--
In a batch a content goes out with the options of the one before it. One with a chronometer for
which there is no room any more has two deltas when it goes out, and an empty one fails the
assertion.
-/
theorem batching_visible :
    (writeDirectContent 2048 (fun _ => 0) keyedSent [.directOut optionedSent, .other ()]).map
        (fun r => (r.1.data, r.2.length)) =
      .ok (framed keyedSent.chunk ++ framed keyedSent.chunk, 1) ∧
    ¬ Writes 2048 (fun _ => 0) keyedSent [.directOut optionedSent, .other ()] ∧
    ¬ Writes 2048 (fun _ => 0) keyedSent
      (replicate 126 (.directOut keyedSent) ++ [(.directOut timedSent : AgentMethod Unit)]) ∧
    ¬ Writes 0 (fun _ => 0) emptySent ([] : List (AgentMethod Unit)) := by
  refine ⟨by decide +kernel, ?_, ?_, ?_⟩
  · rw [writes_iff_writeOk]
    decide +kernel
  · rw [writes_iff_writeOk]
    decide +kernel
  · rw [writes_iff_writeOk]
    decide +kernel

/-- With the same options a batch writes both contents, and the other method stays. -/
theorem batching_invisible_sample :
    Writes 2048 (fun _ => 0) optionedSent [.directOut optionedSent, .other ()] ∧
      ∃ self, Lib.run (step 2048)
          (start : DirectOutput Unit) [.arrive (.directOut timedSent), .take fun _ => 0] =
        some self ∧ InOrder [.arrive (.directOut timedSent), .take fun _ => 0] self := by
  refine ⟨(batching_invisible.1 _ _ _ _).mpr (by decide +kernel), ?_⟩
  refine batching_invisible.2 2048 _ ⟨trivial, fun self hs => ⟨?_, fun _ _ => trivial⟩⟩
  cases hs
  show WriteOk 2048 (fun _ => 0) timedSent ([] : List (AgentMethod Unit))
  decide +kernel

end DirectOutput

end OpenAmq
