import OpenAmq.Content.Wire

/-!
# Reading contents that anybody may have written

`wire pending` goes from chunk to chunk by the sizes that are declared, `wire get` by the octets
that it has parsed. They agree on chunks that are one content each, with nothing behind it. Both
take a size from 2^31 on for a negative number.

* `pendingFrom_spec` — what is pending, when no size is negative
* `takeContent_whole_iff` — the chunks that are one content each
* `wire_safe_iff` — which buckets are read safely
-/

namespace OpenAmq

open List

/-- Chunks with their sizes before them, and no size that is negative as an `int`. -/
def Complete (data : List UInt8) (chunks : List (List UInt8)) : Prop :=
  data = chunks.flatMap framed ∧ ∀ chunk ∈ chunks, chunk.length < 0x80000000

/-- Behind whole chunks no size from 2^31 on is met. -/
def NonNegativeSizes (data : List UInt8) : Prop :=
  ∀ (start rest : List UInt8) (chunks : List (List UInt8)) (size : Nat),
    data = start ++ (putLong size ++ rest) → Complete start chunks → size < 0x100000000 →
      size < 0x80000000

namespace ContentObject

variable {cls : ContentClass}

/-! ## What is pending -/

variable {chunk rest bucket : List UInt8} {n : Nat}

theorem NonNegativeSizes.behind (hc : chunk.length < 0x80000000)
    (h : NonNegativeSizes (framed chunk ++ rest)) : NonNegativeSizes rest := by
  rintro start tail chunks size rfl ⟨rfl, hs⟩ hlt
  refine h (framed chunk ++ chunks.flatMap framed) tail (chunk :: chunks) size ?_ ⟨?_, ?_⟩ hlt
  · rw [append_assoc]
  · rw [flatMap_cons]
  · rw [forall_mem_cons]
    exact ⟨hc, hs⟩

/-- What is pending is more than nothing, unless the chunks are complete. -/
theorem pendingFrom_spec (fuel dataPtr : Nat) (h : NonNegativeSizes (bucket.drop dataPtr))
    (hn : dataPtr ≤ bucket.length) (hf : bucket.length - dataPtr < fuel) :
    ∃ rc, pendingFrom bucket fuel dataPtr = .ok rc ∧
      (0 < rc ∨ rc = 0 ∧ ∃ chunks, chunks ≠ [] ∧ Complete (bucket.drop dataPtr) chunks) := by
  induction fuel generalizing dataPtr with
  | zero => omega
  | succ fuel ih =>
    by_cases hshort : bucket.length < dataPtr + 4
    · refine ⟨_, ?_, .inl (show 0 < 4 - ((bucket.length : Int) - dataPtr) by omega)⟩
      rw [pendingFrom, getWordAt_of_short hshort]
      rw [if_pos (by omega)]
      rfl
    · -- there is a size, which is not negative
      have hsome := readBigEndian_isSome_iff 4 (bucket.drop dataPtr)
      rw [length_drop] at hsome
      obtain ⟨⟨size, rest⟩, hr⟩ := Option.isSome_iff_exists.mp (hsome.mpr (by omega))
      obtain ⟨hlt, hdrop⟩ := Lib.readBigEndian_eq_some hr
      have hlt : size < 0x100000000 := hlt
      have hput : Lib.bigEndian 4 size = putLong size := by
        have hmod : ((size : Int) % 0x100000000).toNat = size := by omega
        rw [putLong, hmod]
      rw [hput] at hdrop
      have hsmall : size < 0x80000000 := h [] rest [] size hdrop ⟨rfl, forall_mem_nil _⟩ hlt
      have hlen := congrArg length hdrop
      rw [length_drop, length_append, putLong, Lib.length_bigEndian] at hlen
      by_cases hle : size ≤ rest.length
      · -- the chunk is whole
        have hchunk : bucket.drop dataPtr = framed (rest.take size) ++ rest.drop size := by
          rw [framed, length_take, Nat.min_eq_left hle, append_assoc, take_append_drop, hdrop]
        have hc : (rest.take size).length < 0x80000000 := by
          rw [length_take]
          omega
        obtain ⟨hend, -, hrest⟩ := drop_framed hchunk hn
        rw [pendingFrom_framed hchunk hn hc]
        by_cases hnil : rest.drop size = []
        · rw [if_pos hnil]
          refine ⟨0, rfl, .inr ⟨rfl, [rest.take size], cons_ne_nil _ _, ?_, ?_⟩⟩
          · rw [hchunk, hnil, append_nil, flatMap_singleton]
          · rw [forall_mem_singleton]
            exact hc
        · rw [if_neg hnil]
          rw [hchunk] at h
          obtain ⟨rc, hp, hcase⟩ := ih (dataPtr + 4 + (rest.take size).length)
            (by rw [hrest]; exact NonNegativeSizes.behind hc h) hend (by omega)
          refine ⟨rc, hp, hcase.imp_right ?_⟩
          rintro ⟨h0, chunks, -, hflat, hs⟩
          refine ⟨h0, rest.take size :: chunks, cons_ne_nil _ _, ?_, ?_⟩
          · rw [hchunk, flatMap_cons, ← hflat, hrest]
          · rw [forall_mem_cons]
            exact ⟨hc, hs⟩
      · have hword : getWord 4 (window bucket bucket.length dataPtr) = .ok (size, rest) := by
          rw [window_length, hdrop, getWord_putLong hlt]
        have hat : getWordAt bucket bucket.length 4 dataPtr = .ok (some (size, dataPtr + 4)) :=
          (getWordAt_of_ok (Nat.le_refl _) hn hword).1
        refine ⟨((dataPtr + 4 : Nat) : Int) + size - bucket.length, ?_, .inl (by omega)⟩
        rw [pendingFrom, hat]
        simp only [bind, Except.bind, pure, Except.pure, toInt32_of_lt hsmall]
        rw [if_pos (by omega)]

/-! ## Chunks of one content -/

/-- The octets are one content: names, flags and properties, options, and a counted body. -/
def WholeContent (cls : ContentClass) (chunk : List UInt8) : Prop :=
  ∃ exchange routingKey propertyFlags properties options body,
    DataType.shortstr.Occupies exchange ∧ DataType.shortstr.Occupies routingKey ∧
    propertyFlags < 0x10000 ∧ OccupyAll (flaggedTypes propertyFlags cls.fields 16) properties ∧
    body.length < 0x1000000 ∧
    chunk = exchange ++ (routingKey ++ (putShort propertyFlags ++ (properties ++
      (options :: (Lib.bigEndian 3 body.length ++ body)))))

/-- A chunk is taken up to its end just if it is one whole content. -/
theorem takeContent_whole_iff :
    (∃ content, takeContent cls chunk = .ok (content, [])) ↔ WholeContent cls chunk := by
  constructor
  · rintro ⟨content, h⟩
    unfold takeContent at h
    split at h
    · cases h
    next exchange net1 hexchange =>
    split at h
    · cases h
    next routingKey net2 hkey =>
    split at h
    · cases h
    next propertyFlags net3 hflags =>
    split at h
    · cases h
    next properties net4 hproperties =>
    split at h
    · cases h
    next options net5 hoptions =>
    split at h
    · cases h
    next size net6 hsize =>
    split at h
    · cases h
    next hle =>
    simp only [Except.ok.injEq, Prod.mk.injEq] at h
    have hend : net6.length = size := by
      have := drop_eq_nil_iff.mp h.2
      omega
    obtain ⟨exchange', rfl, he⟩ := @DataType.occupies_of_get .shortstr _ _ _ hexchange
    obtain ⟨routingKey', rfl, hk⟩ := @DataType.occupies_of_get .shortstr _ _ _ hkey
    obtain ⟨hflt, rfl⟩ := getWord_eq_ok hflags
    obtain ⟨properties', rfl, hp⟩ := occupyAll_of_takeProperties hproperties
    obtain ⟨octets, rfl, ho⟩ := DataType.occupies_of_get hoptions
    obtain ⟨hslt, rfl⟩ := getWord_eq_ok hsize
    obtain ⟨octet, rfl⟩ := length_eq_one_iff.mp ho
    exact ⟨exchange', routingKey', propertyFlags, properties', octet, net6, he, hk, hflt, hp,
      by rw [hend]; exact hslt, by rw [hend]; rfl⟩
  · rintro ⟨exchange, routingKey, propertyFlags, properties, options, body, he, hk, hflt, hp, hb,
      rfl⟩
    obtain ⟨exchange', hexchange⟩ := he.get (routingKey ++ (putShort propertyFlags ++ (properties ++
      (options :: (Lib.bigEndian 3 body.length ++ body)))))
    obtain ⟨routingKey', hkey⟩ := hk.get (putShort propertyFlags ++ (properties ++
      (options :: (Lib.bigEndian 3 body.length ++ body))))
    obtain ⟨properties', hproperties⟩ := hp.takeProperties (Properties.unset cls.fields)
      (options :: (Lib.bigEndian 3 body.length ++ body))
    have hsize : getWord 3 (Lib.bigEndian 3 body.length ++ body) = .ok (body.length, body) := by
      have hw : body.length < Lib.wordSize 3 := hb
      rw [getWord_bigEndian, Nat.mod_eq_of_lt hw]
    replace hexchange : getSstr _ = _ := hexchange
    replace hkey : getSstr _ = _ := hkey
    rw [takeContent, hexchange]
    simp only
    rw [hkey]
    simp only
    rw [getWord_putShort_of_lt hflt]
    simp only
    rw [hproperties]
    simp only
    rw [octet_get_cons]
    simp only
    rw [hsize]
    simp only
    rw [if_neg (Nat.lt_irrefl _), drop_length]
    exact ⟨_, rfl⟩

/-! ## All chunks -/

/--
`wire get` from `offset` on takes the chunks at `dataPtr` one by one: each by its own octets,
with the offset behind it, and null at the end. Heartbeats are passed over.
-/
def GetsChunks (cls : ContentClass) (bucket : List UInt8) :
    (chunks : List (List UInt8)) → (offset dataPtr : Nat) → Prop
  | [], offset, _ => wireGet cls bucket offset = .ok (none, offset)
  | [] :: chunks, offset, dataPtr => GetsChunks cls bucket chunks offset (dataPtr + 4)
  | (b :: chunk) :: chunks, offset, dataPtr =>
    let next := dataPtr + 4 + (b :: chunk).length
    (∃ content, takeContent cls (b :: chunk) = .ok (content, []) ∧
      wireGet cls bucket offset = .ok (some content, next)) ∧
    GetsChunks cls bucket chunks next next

/-- The octets of `n` heartbeats. -/
def heartbeats (n : Nat) : List UInt8 := (replicate n []).flatMap framed

theorem heartbeats_snoc (n : Nat) (rest : List UInt8) :
    heartbeats n ++ (framed [] ++ rest) = heartbeats (n + 1) ++ rest := by
  rw [heartbeats, heartbeats, replicate_succ', flatMap_append, flatMap_singleton, append_assoc]

theorem nextChunk_heartbeats (fuel : Nat) {dataPtr : Nat}
    (h : bucket.drop dataPtr = heartbeats n ++ rest) (hn : dataPtr ≤ bucket.length) :
    nextChunk bucket (fuel + n) dataPtr = nextChunk bucket fuel (dataPtr + 4 * n) ∧
      bucket.drop (dataPtr + 4 * n) = rest ∧ dataPtr + 4 * n ≤ bucket.length := by
  induction n generalizing dataPtr with
  | zero => exact ⟨rfl, h, hn⟩
  | succ n ih =>
    obtain ⟨hle, -, hrest⟩ := drop_framed h hn
    have hnext := nextChunk_framed (fuel + n) h hn (by decide)
    obtain ⟨hskip, hdrop, hle'⟩ := ih hrest hle
    have hpos : dataPtr + 4 * (n + 1) = dataPtr + 4 + ([] : List UInt8).length + 4 * n := by
      rw [length_nil]
      omega
    rw [hpos]
    refine ⟨?_, hdrop, hle'⟩
    rw [← Nat.add_assoc, hnext, if_pos length_nil]
    exact hskip

theorem wireGet_heartbeats {offset : Nat} (h : bucket.drop offset = heartbeats n)
    (hn : offset ≤ bucket.length) : wireGet cls bucket offset = .ok (none, offset) := by
  have h' : bucket.drop offset = heartbeats n ++ [] := by rw [h, append_nil]
  obtain ⟨hskip, hdrop, hle⟩ := nextChunk_heartbeats (bucket.length + 1 - n) h' hn
  have hfuel : bucket.length + 1 - n + n = bucket.length + 1 := by omega
  have hend := drop_eq_nil_iff.mp hdrop
  obtain ⟨fuel, hsucc⟩ : ∃ fuel, bucket.length + 1 - n = fuel + 1 := ⟨bucket.length - n, by omega⟩
  have hshort : nextChunk bucket (fuel + 1) (offset + 4 * n) = .ok none := by
    rw [nextChunk, getWordAt_of_short (by omega)]
    rfl
  rw [hfuel, hsucc, hshort] at hskip
  rw [wireGet, hskip]
  rfl

theorem wireGet_behind (cls : ContentClass) {offset : Nat}
    (h : bucket.drop offset = heartbeats n ++ (framed chunk ++ rest))
    (hn : offset ≤ bucket.length) (hne : chunk ≠ []) (hc : chunk.length < 0x80000000) :
    ContentAgrees (offset + 4 * n + 4 + chunk.length) offset (takeContent cls chunk)
      (wireGet cls bucket offset) := by
  obtain ⟨hskip, hdrop, hle⟩ := nextChunk_heartbeats (bucket.length + 1 - n) h hn
  obtain ⟨hend, hchunk, -⟩ := drop_framed hdrop hle
  have hfuel : bucket.length + 1 - n + n = bucket.length + 1 := by omega
  obtain ⟨fuel, hsucc⟩ : ∃ fuel, bucket.length + 1 - n = fuel + 1 := ⟨bucket.length - n, by omega⟩
  rw [hfuel, hsucc, nextChunk_framed fuel hdrop hle (by omega),
    if_neg fun h0 => hne (length_eq_zero_iff.mp h0)] at hskip
  have := wireGet_agrees cls hskip hc hend
  rwa [window_of_drop hchunk] at this

theorem getsChunks_iff {bucket : List UInt8} {chunks : List (List UInt8)} (n offset : Nat)
    (h : bucket.drop offset = heartbeats n ++ chunks.flatMap framed) (hn : offset ≤ bucket.length)
    (hc : ∀ chunk ∈ chunks, chunk.length < 0x80000000) :
    GetsChunks cls bucket chunks offset (offset + 4 * n) ↔
      ∀ chunk ∈ chunks, chunk ≠ [] → WholeContent cls chunk := by
  induction chunks generalizing n offset with
  | nil =>
    rw [flatMap_nil, append_nil] at h
    exact ⟨fun _ => nofun, fun _ => wireGet_heartbeats h hn⟩
  | cons chunk chunks ih =>
    rw [forall_mem_cons, flatMap_cons] at *
    cases chunk with
    | nil =>
      rw [heartbeats_snoc] at h
      have := ih (n + 1) offset h hn hc.2
      rw [show offset + 4 * (n + 1) = offset + 4 * n + 4 by omega] at this
      rw [GetsChunks, this]
      exact ⟨fun hw => ⟨fun hne => absurd rfl hne, hw⟩, fun hw => hw.2⟩
    | cons b chunk =>
      have hget := wireGet_behind cls h hn (cons_ne_nil b chunk) hc.1
      obtain ⟨-, hdrop, hle⟩ := nextChunk_heartbeats 0 h hn
      obtain ⟨hend, -, hrest⟩ := drop_framed hdrop hle
      have hbehind := ih 0 (offset + 4 * n + 4 + (b :: chunk).length) hrest hend hc.2
      simp only [Nat.mul_zero, Nat.add_zero] at hbehind
      rw [GetsChunks, hbehind, ← takeContent_whole_iff]
      refine and_congr ⟨?_, ?_⟩ Iff.rfl
      · rintro ⟨content, ht, -⟩ _
        exact ⟨content, ht⟩
      · intro hw
        obtain ⟨content, ht⟩ := hw (cons_ne_nil b chunk)
        rw [ht] at hget
        exact ⟨content, ht, hget⟩

/--
`wire pending` ends, with a positive count when the bucket does not hold whole chunks, and
when nothing is pending `wire get` takes these chunks and no others.
-/
def WireSafe (cls : ContentClass) (bucket : Bucket) : Prop :=
  (∃ rc, wirePending bucket.data = .ok rc ∧
      ((∀ chunks, chunks ≠ [] → ¬ Complete bucket.data chunks) → 0 < rc)) ∧
    (wirePending bucket.data = .ok 0 → ∀ chunks, chunks ≠ [] → Complete bucket.data chunks →
      GetsChunks cls bucket.data chunks 0 0)

def WholeChunks (cls : ContentClass) (data : List UInt8) : Prop :=
  ∀ chunks, Complete data chunks → ∀ chunk ∈ chunks, chunk ≠ [] → WholeContent cls chunk

theorem wirePending_complete {data : List UInt8} {chunks : List (List UInt8)}
    (h : Complete data chunks) (hne : chunks ≠ []) : wirePending data = .ok 0 := by
  obtain ⟨rfl, hc⟩ := h
  refine pendingFrom_chunks rfl (Nat.zero_le _) hne hc ?_
  have := Lib.length_le_length_flatMap framed_ne_nil chunks
  omega

theorem wireSafe_iff {bucket : Bucket} (h : NonNegativeSizes bucket.data) :
    WireSafe cls bucket ↔ WholeChunks cls bucket.data := by
  obtain ⟨rc, hrc, hcase⟩ := pendingFrom_spec (bucket.data.length + 1) 0 h
    (Nat.zero_le _) (Nat.lt_succ_self _)
  have hgets : ∀ chunks, Complete bucket.data chunks → (GetsChunks cls bucket.data chunks 0 0 ↔
        ∀ chunk ∈ chunks, chunk ≠ [] → WholeContent cls chunk) := fun chunks hc =>
    getsChunks_iff 0 0 hc.1 (Nat.zero_le _) hc.2
  constructor
  · rintro ⟨-, hread⟩ chunks hc chunk hm
    have hne : chunks ≠ [] := ne_nil_of_mem hm
    exact (hgets chunks hc).mp (hread (wirePending_complete hc hne) chunks hne hc) chunk hm
  · intro hw
    refine ⟨⟨rc, hrc, fun hno => ?_⟩, fun _ chunks _ hc => (hgets chunks hc).mpr (hw chunks hc)⟩
    rcases hcase with hpos | ⟨-, chunks, hne, hc⟩
    · exact hpos
    · exact absurd hc (hno chunks hne)

/-! ## Negative sizes -/

/-- Behind whole chunks there is a size that moves the pointer before the bucket. -/
def LeavesBucket (data : List UInt8) : Prop :=
  ∃ start rest chunks size, data = start ++ (putLong (size : Nat) ++ rest) ∧ Complete start chunks ∧
    0x80000000 ≤ size ∧ start.length + 4 + size < 0x100000000

theorem pendingFrom_leaves {start : List UInt8} {chunks : List (List UInt8)}
    {fuel dataPtr size : Nat} (h : bucket.drop dataPtr = start ++ (putLong size ++ rest))
    (hn : dataPtr ≤ bucket.length) (hc : Complete start chunks) (hneg : 0x80000000 ≤ size)
    (hlt : dataPtr + start.length + 4 + size < 0x100000000) (hf : chunks.length < fuel) :
    pendingFrom bucket fuel dataPtr = .error .read := by
  obtain ⟨rfl, hc⟩ := hc
  induction chunks generalizing fuel dataPtr with
  | nil =>
    cases fuel with
    | zero => cases hf
    | succ fuel =>
      have hword : getWord 4 (window bucket bucket.length dataPtr) = .ok (size, rest) := by
        rw [window_length, h, flatMap_nil, nil_append, getWord_putLong (by omega)]
      have hat : getWordAt bucket bucket.length 4 dataPtr = .ok (some (size, dataPtr + 4)) :=
        (getWordAt_of_ok (Nat.le_refl _) hn hword).1
      have hint : toInt32 size = (size : Int) - 0x100000000 := if_neg (by omega)
      rw [pendingFrom, hat]
      simp only [bind, Except.bind, hint]
      rw [if_neg (by omega), if_neg (by omega), if_pos (by omega)]
      rfl
  | cons chunk chunks ih =>
    cases fuel with
    | zero => cases hf
    | succ fuel =>
      rw [forall_mem_cons] at hc
      rw [flatMap_cons, append_assoc] at h
      rw [flatMap_cons, length_append, length_framed] at hlt
      obtain ⟨hle, -, hrest⟩ := drop_framed h hn
      have hput : putLong (size : Nat) ≠ [] := fun h0 => by
        have := congrArg length h0
        cases this
      rw [pendingFrom_framed h hn hc.1, if_neg (by simp [hput])]
      exact ih hle (Nat.lt_of_succ_lt_succ hf) hc.2 hrest (by omega)

theorem not_wireSafe_of_leaves {bucket : Bucket} (h : LeavesBucket bucket.data) :
    ¬ WireSafe cls bucket := by
  obtain ⟨start, rest, chunks, size, hdata, hc, hneg, hlt⟩ := h
  have hread : wirePending bucket.data = .error .read := by
    refine pendingFrom_leaves hdata (Nat.zero_le _) hc hneg (by omega) ?_
    have := Lib.length_le_length_flatMap framed_ne_nil chunks
    rw [hdata, hc.1, length_append]
    omega
  rintro ⟨⟨rc, hrc, -⟩, -⟩
  rw [hread] at hrc
  cases hrc

/--
While no size is negative, a bucket is read safely when every chunk is one content, and only
then. A size that moves the pointer before the bucket makes it unsafe.
-/
theorem wire_safe_iff (cls : ContentClass) (bucket : Bucket) :
    (NonNegativeSizes bucket.data → (WireSafe cls bucket ↔ WholeChunks cls bucket.data)) ∧
      (LeavesBucket bucket.data → ¬ WireSafe cls bucket) :=
  ⟨wireSafe_iff, not_wireSafe_of_leaves⟩

def sizeBucket (size : Nat) : Bucket where
  maxSize := 256
  data := putLong size
  fits := by
    rw [putLong, Lib.length_bigEndian]
    decide
  max_le := by decide

/-- One heartbeat is read safely, one negative size is not. -/
theorem wire_safe_sizes :
    WireSafe basicClass (sizeBucket 0) ∧ ¬ WireSafe basicClass (sizeBucket 0x80000000) := by
  have hlen : (sizeBucket 0).data.length = 4 := Lib.length_bigEndian 4 _
  refine ⟨((wire_safe_iff basicClass (sizeBucket 0)).1 ?_).mpr ?_,
    (wire_safe_iff basicClass (sizeBucket 0x80000000)).2 ?_⟩
  · rintro start rest chunks size hdata - hlt
    have hl := congrArg length hdata
    rw [hlen, length_append, length_append, putLong, Lib.length_bigEndian] at hl
    have hstart : start = [] := length_eq_zero_iff.mp (by omega)
    have hrest : rest = [] := length_eq_zero_iff.mp (by omega)
    subst hstart hrest
    have hget := getWord_putLong hlt []
    rw [nil_append] at hdata
    rw [← hdata] at hget
    have hzero : getWord 4 (sizeBucket 0).data = .ok (0, []) := rfl
    rw [hzero] at hget
    cases hget
    decide
  · rintro chunks ⟨hdata, -⟩ chunk hm hne
    have hpos := length_pos_iff.mpr hne
    obtain ⟨before, behind, rfl⟩ := append_of_mem hm
    have hl := congrArg length hdata
    rw [hlen, flatMap_append, flatMap_cons, length_append, length_append, length_framed] at hl
    omega
  · exact ⟨[], [], [], 0x80000000, by rw [append_nil]; rfl, ⟨rfl, nofun⟩, by decide, by decide⟩

/-- A chunk of nine octets, of which a content takes eight, and a heartbeat. -/
def slackBucket : Bucket where
  maxSize := 256
  data := [0, 0, 0, 9, 0, 0, 0, 0, 0, 0, 0, 0, 1, 0, 0, 0, 0]
  fits := by decide
  max_le := by decide

/--
Nothing is pending. The size behind the first content is read from the octet that is left and
three of the heartbeat, and the assertion about it fails.
-/
theorem wireGet_slack : wirePending slackBucket.data = .ok 0 ∧
      (∃ content, wireGet basicClass slackBucket.data 0 = .ok (some content, 12)) ∧
      wireGet basicClass slackBucket.data 12 = .error .assertion ∧
      ¬ WireSafe basicClass slackBucket := by
  have hc : Complete slackBucket.data [[0, 0, 0, 0, 0, 0, 0, 0, 1], []] := ⟨by decide, by decide⟩
  have hpending := wirePending_complete hc (cons_ne_nil _ _)
  have hget : ∃ content, wireGet basicClass slackBucket.data 0 = .ok (some content, 12) := by
    have h : (wireGet basicClass slackBucket.data 0).map (fun r => (r.1.isSome, r.2)) =
        .ok (true, 12) := by decide +kernel
    obtain ⟨⟨content, pos⟩, heq, hr⟩ := Except.eq_ok_of_map h
    obtain ⟨hsome, rfl⟩ := Prod.mk.inj hr
    obtain ⟨content, rfl⟩ := Option.isSome_iff_exists.mp hsome
    exact ⟨content, heq⟩
  have hassert : wireGet basicClass slackBucket.data 12 = .error .assertion := by
    have h : (wireGet basicClass slackBucket.data 12).map (fun r => (r.1.isSome, r.2)) =
        .error .assertion := by decide +kernel
    exact Except.eq_error_of_map h
  refine ⟨hpending, hget, hassert, ?_⟩
  rintro ⟨-, hread⟩
  obtain ⟨⟨content, -, h⟩, -⟩ := hread hpending _ (cons_ne_nil _ _) hc
  obtain ⟨content', hget⟩ := hget
  rw [hget] at h
  cases h

end ContentObject

end OpenAmq
