import OpenAmq.Content.Body
import OpenAmq.Content.Header

/-!
# Contents in direct mode

In direct mode contents follow each other in a bucket. Each is a chunk with its size before it:
exchange, routing key, flags and properties, options and body. A chunk without octets is a
heartbeat.

* `wireSize`, `wirePut`, `wireGet`, `wirePending` — the four methods
* `takeContent`, `wireGet_agrees` — the reader on the octets of a chunk
* `wire_roundTrip_iff` — when contents that are put into a bucket are got from it again
-/

namespace OpenAmq

open List

/-- `ipr_bucket_t`. There is none larger than the largest size in the table. -/
structure Bucket where
  maxSize : Nat
  data : List UInt8
  fits : data.length ≤ maxSize
  max_le : maxSize ≤ 2097152

/-- The chunk with its size before it. -/
def framed (chunk : List UInt8) : List UInt8 := putLong chunk.length ++ chunk

namespace ContentObject

variable {cls : ContentClass}

/-! ## The methods -/

/-- `wire size` -/
def wireSize (self : ContentObject cls) : Nat :=
  let headerSize := (calcPropertyFlags self.properties 16 0 0).1
  12 + self.exchange.octets.length + self.routingKey.octets.length + headerSize + self.body.bodySize

/-- The chunk that `wire put` writes. -/
def chunkOctets (self : ContentObject cls) (propertyFlags : Nat) (options : UInt8)
    (octets : List UInt8) : List UInt8 :=
  putSstr self.exchange ++ (putSstr self.routingKey ++ (putShort propertyFlags ++
    (putPropertyFields self.properties ++ ([options] ++
      (Lib.bigEndian 3 self.body.bodySize ++ octets)))))

/-- `wire put`: the return code and the bucket. -/
def wirePut (self : ContentObject cls) (bucket : Bucket) (options : UInt8) :
    Except Violation (Int × Bucket) :=
  if self.wireSize ≤ bucket.maxSize - bucket.data.length then
    let propertyFlags := (calcPropertyFlags self.properties 16 0 0).2
    match self.body.getBody self.body.bodySize with
    | none => .error .read
    | some (_, octets) =>
      let chunk := self.chunkOctets propertyFlags options octets
      if h : (bucket.data ++ framed chunk).length ≤ bucket.maxSize then
        if chunk.length < 12 then .error .assertion
        else .ok (0, ⟨bucket.maxSize, bucket.data ++ framed chunk, h, bucket.max_le⟩)
      else .error .write
  else .ok (-1, bucket)

/-- The loop of `wire get` that skips heartbeats: a size that is not zero, and what follows it. -/
def nextChunk (bucket : List UInt8) : (fuel dataPtr : Nat) → Except Violation (Option (Nat × Nat))
  | 0, _ => .error .unfinished
  | fuel + 1, dataPtr => do
    match ← getWordAt bucket bucket.length 4 dataPtr with
    | none => return none
    | some (chunkSize, dataPtr) =>
      if chunkSize = 0 then nextChunk bucket fuel dataPtr else return some (chunkSize, dataPtr)

/-- `wire get`: the content with its options, null for nothing, and the offset. -/
def wireGet (cls : ContentClass) (bucket : List UInt8) (offset : Nat) :
    Except Violation (Option (ContentObject cls × UInt8) × Nat) := do
  match ← nextChunk bucket (bucket.length + 1) offset with
  | none => return (none, offset)
  | some (chunkSize, dataPtr) =>
    -- the limit of a chunk of negative size is before the pointer
    if 0x80000000 ≤ chunkSize then return (none, offset)
    let dataLimit := dataPtr + chunkSize
    if bucket.length < dataLimit then throw .assertion
    match ← getSstrAt bucket dataLimit dataPtr with
    | none => return (none, offset)
    | some (exchange, dataPtr) =>
      match ← getSstrAt bucket dataLimit dataPtr with
      | none => return (none, offset)
      | some (routingKey, dataPtr) =>
        match ← getWordAt bucket dataLimit 2 dataPtr with
        | none => return (none, offset)
        | some (propertyFlags, dataPtr) =>
          match ← getPropertyFields bucket dataLimit propertyFlags (Properties.unset cls.fields) 16
              dataPtr with
          | (_, none) => return (none, offset)
          | (properties, some dataPtr) =>
            match ← DataType.octet.getAt bucket dataLimit dataPtr with
            | none => return (none, offset)
            | some (options, dataPtr) =>
              match ← getWordAt bucket dataLimit 3 dataPtr with
              | none => return (none, offset)
              | some (size, dataPtr) =>
                if dataLimit - dataPtr < size then return (none, offset)
                let body ← copyOctets bucket dataPtr size size
                let content : ContentObject cls := { ContentObject.new cls with
                  exchange := exchange, routingKey := routingKey, properties := properties,
                  body := ⟨none, size, .block body, true⟩ }
                return (some (content, options), dataPtr + size)

/-- `wire pending` from `dataPtr` on. -/
def pendingFrom (bucket : List UInt8) : (fuel dataPtr : Nat) → Except Violation Int
  | 0, _ => .error .unfinished
  | fuel + 1, dataPtr => do
    match ← getWordAt bucket bucket.length 4 dataPtr with
    | none =>
      let rc : Int := 4 - ((bucket.length : Int) - dataPtr)
      if 0 < rc then return rc else throw .assertion
    | some (chunkSize, dataPtr) =>
      -- a size from 2^31 on is negative and moves the pointer back
      let dataPtr := (dataPtr : Int) + toInt32 chunkSize
      if (bucket.length : Int) < dataPtr then return dataPtr - bucket.length
      else if dataPtr = bucket.length then return 0
      else if dataPtr < 0 then throw .read
      else pendingFrom bucket fuel dataPtr.toNat

/-- `wire pending`. A loop that takes more turns than there are octets does not end. -/
def wirePending (bucket : List UInt8) : Except Violation Int :=
  pendingFrom bucket (bucket.length + 1) 0

/-- `wire get` again and again from `offset`: what it returns before null, and its last offset. -/
def getAll (cls : ContentClass) (bucket : List UInt8) :
    (fuel offset : Nat) → Except Violation (List (ContentObject cls × UInt8) × Nat)
  | 0, _ => .error .unfinished
  | fuel + 1, offset => do
    match ← wireGet cls bucket offset with
    | (none, offset) => return ([], offset)
    | (some content, offset) =>
      let r ← getAll cls bucket fuel offset
      return (content :: r.1, r.2)

/-! ## The octets of a chunk -/

/-- `wireGet` on the octets of a chunk, with those that it leaves. -/
def takeContent (cls : ContentClass) (net : List UInt8) :
    Except GetError ((ContentObject cls × UInt8) × List UInt8) :=
  match getSstr net with
  | .error e => .error e
  | .ok (exchange, net) =>
    match getSstr net with
    | .error e => .error e
    | .ok (routingKey, net) =>
      match getWord 2 net with
      | .error e => .error e
      | .ok (propertyFlags, net) =>
        match takeProperties propertyFlags (Properties.unset cls.fields) 16 net with
        | .error e => .error e
        | .ok (properties, net) =>
          match DataType.octet.get net with
          | .error e => .error e
          | .ok (options, net) =>
            match getWord 3 net with
            | .error e => .error e
            | .ok (size, net) =>
              if net.length < size then .error .underflow
              else .ok (({ ContentObject.new cls with
                exchange := exchange, routingKey := routingKey, properties := properties,
                body := ⟨none, size, .block (net.take size), true⟩ }, options), net.drop size)

/-- `wireGet` once it has a chunk, beside `takeContent`. -/
def ContentAgrees (dataLimit offset : Nat) :
    Except GetError ((ContentObject cls × UInt8) × List UInt8) →
      Except Violation (Option (ContentObject cls × UInt8) × Nat) → Prop
  | .ok (content, slack), r => r = .ok (some content, dataLimit - slack.length)
  | .error .underflow, r => r = .ok (none, offset)
  | .error .fault, r => r = .error .write

/-- The reader at positions gets what the one of lists takes from the chunk. -/
theorem wireGet_agrees (cls : ContentClass) {bucket : List UInt8} {offset chunkSize dataPtr : Nat}
    (hnext : nextChunk bucket (bucket.length + 1) offset = .ok (some (chunkSize, dataPtr)))
    (hsmall : chunkSize < 0x80000000) (hl : dataPtr + chunkSize ≤ bucket.length) :
    ContentAgrees (dataPtr + chunkSize) offset
      (takeContent cls (window bucket (dataPtr + chunkSize) dataPtr))
      (wireGet cls bucket offset) := by
  have hn := Nat.le_add_right dataPtr chunkSize
  rw [wireGet, hnext, takeContent]
  simp only [bind, Except.bind]
  rw [if_neg (Nat.not_le_of_lt hsmall), if_neg (Nat.not_lt_of_le hl)]
  generalize dataPtr + chunkSize = dataLimit at hl hn ⊢
  rcases getSstrAt_cases hl hn with ⟨hget, hat⟩ | ⟨exchange, dataPtr1, hn1, hget, hat⟩
  · rw [hget, hat]
    rfl
  simp only [hget, hat]
  rcases getSstrAt_cases hl hn1 with ⟨hget, hat⟩ | ⟨routingKey, dataPtr2, hn2, hget, hat⟩
  · rw [hget, hat]
    rfl
  simp only [hget, hat]
  rcases getWordAt_cases hl hn2 2 with ⟨hget, hat⟩ | ⟨propertyFlags, hn3, hget, hat⟩
  · rw [hget, hat]
    rfl
  simp only [hget, hat]
  have hp := getPropertyFields_agrees hl propertyFlags (Properties.unset cls.fields) 16 hn3
  cases ht : takeProperties propertyFlags (Properties.unset cls.fields) 16
      (window bucket dataLimit (dataPtr2 + 2)) with
  | error e =>
    rw [ht] at hp
    cases e with
    | underflow =>
      obtain ⟨properties, hp⟩ := hp
      rw [hp]
      rfl
    | fault =>
      rw [show _ = _ from hp]
      rfl
  | ok r =>
    obtain ⟨properties, net⟩ := r
    rw [ht] at hp
    obtain ⟨octets, hw, -⟩ := occupyAll_of_takeProperties ht
    obtain ⟨hn4, hpos, rfl⟩ := window_of_eq_append hl hn3 hw
    rw [show _ = _ from hp, hpos]
    simp only
    rcases DataType.getAt_cases hl hn4 .octet rfl with
      ⟨hget, hat⟩ | ⟨options, dataPtr5, hn5, hget, hat⟩
    · rw [hget, hat]
      rfl
    simp only [hget, hat]
    rcases getWordAt_cases hl hn5 3 with ⟨hget, hat⟩ | ⟨size, hn6, hget, hat⟩
    · rw [hget, hat]
      rfl
    simp only [hget, hat, length_window hl]
    by_cases hs : dataLimit - (dataPtr5 + 3) < size
    · rw [if_pos hs, if_pos hs]
      rfl
    · rw [if_neg hs, if_neg hs, copyOctets, if_neg (Nat.lt_irrefl _), if_neg (by omega),
        take_drop_eq_take_window hl hn6 (by omega)]
      show _ = _
      rw [drop_window, length_window hl]
      simp only [pure, Except.pure]
      congr 3
      omega

/-! ## One chunk in a bucket -/

section Chunk

variable {bucket chunk rest : List UInt8} {fuel dataPtr : Nat}

theorem length_framed (chunk : List UInt8) : (framed chunk).length = 4 + chunk.length := by
  rw [framed, length_append, putLong, Lib.length_bigEndian]

theorem drop_framed (h : bucket.drop dataPtr = framed chunk ++ rest)
    (hn : dataPtr ≤ bucket.length) :
    dataPtr + 4 + chunk.length ≤ bucket.length ∧ bucket.drop (dataPtr + 4) = chunk ++ rest ∧
      bucket.drop (dataPtr + 4 + chunk.length) = rest := by
  rw [framed, append_assoc] at h
  have hl : (putLong chunk.length).length = 4 := Lib.length_bigEndian 4 _
  have hchunk := drop_of_drop_eq_append h hl
  have hle := le_length_of_drop_eq_append h hl hn
  exact ⟨le_length_of_drop_eq_append hchunk.symm rfl hle, hchunk.symm,
    (drop_of_drop_eq_append hchunk.symm rfl).symm⟩

theorem getWordAt_framed (h : bucket.drop dataPtr = framed chunk ++ rest)
    (hn : dataPtr ≤ bucket.length) (hc : chunk.length < 0x100000000) :
    getWordAt bucket bucket.length 4 dataPtr = .ok (some (chunk.length, dataPtr + 4)) := by
  have hword : getWord 4 (window bucket bucket.length dataPtr) =
      .ok (chunk.length, chunk ++ rest) := by
    rw [window_length, h, framed, append_assoc, getWord_putLong hc]
  exact (getWordAt_of_ok (Nat.le_refl _) hn hword).1

theorem nextChunk_framed (fuel : Nat) (h : bucket.drop dataPtr = framed chunk ++ rest)
    (hn : dataPtr ≤ bucket.length) (hc : chunk.length < 0x100000000) :
    nextChunk bucket (fuel + 1) dataPtr =
      if chunk.length = 0 then nextChunk bucket fuel (dataPtr + 4)
      else .ok (some (chunk.length, dataPtr + 4)) := by
  rw [nextChunk, getWordAt_framed h hn hc]
  rfl

theorem getWordAt_of_short (h : bucket.length < dataPtr + 4) :
    getWordAt bucket bucket.length 4 dataPtr = .ok none := if_pos h

theorem wireGet_of_short (h : bucket.length < dataPtr + 4) :
    wireGet cls bucket dataPtr = .ok (none, dataPtr) := by
  rw [wireGet, nextChunk, getWordAt_of_short h]
  rfl

theorem wireGet_framed (cls : ContentClass) (h : bucket.drop dataPtr = framed chunk ++ rest)
    (hn : dataPtr ≤ bucket.length) (hne : chunk ≠ []) (hc : chunk.length < 0x80000000) :
    ContentAgrees (dataPtr + 4 + chunk.length) dataPtr (takeContent cls chunk)
      (wireGet cls bucket dataPtr) := by
  obtain ⟨hle, hdrop, -⟩ := drop_framed h hn
  have hnext := nextChunk_framed bucket.length h hn (by omega)
  rw [if_neg fun h0 => hne (length_eq_zero_iff.mp h0)] at hnext
  have := wireGet_agrees cls hnext hc hle
  rwa [window_of_drop hdrop] at this

theorem toInt32_of_lt {n : Nat} (h : n < 0x80000000) : toInt32 n = n := if_pos h

theorem pendingFrom_framed (h : bucket.drop dataPtr = framed chunk ++ rest)
    (hn : dataPtr ≤ bucket.length) (hc : chunk.length < 0x80000000) :
    pendingFrom bucket (fuel + 1) dataPtr =
      if rest = [] then .ok 0 else pendingFrom bucket fuel (dataPtr + 4 + chunk.length) := by
  obtain ⟨hle, -, hrest⟩ := drop_framed h hn
  have hlen := congrArg length hrest
  rw [length_drop] at hlen
  rw [pendingFrom, getWordAt_framed h hn (by omega)]
  simp only [bind, Except.bind, pure, Except.pure, toInt32_of_lt hc]
  rw [if_neg (by omega)]
  by_cases hnil : rest = []
  · rw [hnil, length_nil] at hlen
    rw [if_pos hnil, if_pos (by omega)]
  · have hpos := length_pos_iff.mpr hnil
    rw [if_neg hnil, if_neg (by omega), if_neg (by omega)]
    congr 1

theorem pendingFrom_chunks {chunks : List (List UInt8)}
    (h : bucket.drop dataPtr = chunks.flatMap framed) (hn : dataPtr ≤ bucket.length)
    (hne : chunks ≠ []) (hc : ∀ chunk ∈ chunks, chunk.length < 0x80000000)
    (hf : chunks.length ≤ fuel) : pendingFrom bucket fuel dataPtr = .ok 0 := by
  induction chunks generalizing fuel dataPtr with
  | nil => exact absurd rfl hne
  | cons chunk chunks ih =>
    cases fuel with
    | zero => cases hf
    | succ fuel =>
      obtain ⟨hle, -, hrest⟩ := drop_framed h hn
      rw [pendingFrom_framed h hn (hc _ mem_cons_self)]
      split
      · rfl
      · next hrest' =>
        refine ih hrest hle ?_ (fun c hm => hc c (mem_cons_of_mem _ hm)) (Nat.le_of_succ_le_succ hf)
        rintro rfl
        exact hrest' rfl

theorem framed_ne_nil (chunk : List UInt8) : framed chunk ≠ [] := by
  intro h
  have := congrArg length h
  rw [length_framed, length_nil] at this
  omega

end Chunk

/-! ## One content -/

/-- The content that is got for the one that was put. -/
def received (self : ContentObject cls) (octets : List UInt8) : ContentObject cls :=
  { ContentObject.new cls with
    exchange := self.exchange, routingKey := self.routingKey,
    properties := self.properties.unsetEmpty, body := ⟨none, octets.length, .block octets, true⟩ }

/-- The octets of names, properties and body. -/
def bareSize (self : ContentObject cls) : Nat :=
  self.exchange.octets.length + self.routingKey.octets.length + self.properties.setSize +
    self.body.bodySize

theorem wireSize_eq (self : ContentObject cls) : self.wireSize = 12 + self.bareSize := by
  have hsize := (calcPropertyFlags_spec cls.fields_le self.properties 0).1
  simp only [wireSize, bareSize]
  omega

variable {self : ContentObject cls}

theorem length_chunkOctets {octets : List UInt8} (h : self.body.bodySize = octets.length)
    (propertyFlags : Nat) (options : UInt8) :
    (self.chunkOctets propertyFlags options octets).length = 8 + self.bareSize := by
  simp only [chunkOctets, length_append, putSstr, putShort, length_cons, length_nil,
    Lib.length_bigEndian, length_putPropertyFields, bareSize]
  omega

theorem takeContent_chunkOctets {octets : List UInt8} (h : self.body.bodySize = octets.length)
    (hlt : octets.length < 0x1000000) (hs : self.properties.Small) (options : UInt8) :
    takeContent cls (self.chunkOctets (calcPropertyFlags self.properties 16 0 0).2 options octets) =
      .ok ((self.received octets, options), []) := by
  obtain ⟨-, hflags, hm⟩ := calcPropertyFlags_spec cls.fields_le self.properties 0
  have hsize : getWord 3 (Lib.bigEndian 3 octets.length ++ octets) =
      .ok (octets.length, octets) := by
    have hw : octets.length < Lib.wordSize 3 := hlt
    rw [getWord_bigEndian, Nat.mod_eq_of_lt hw]
  rw [takeContent, chunkOctets, getSstr_putSstr]
  simp only
  rw [getSstr_putSstr]
  simp only
  rw [getWord_putShort_of_lt hflags]
  simp only
  rw [takeProperties_put hm hs]
  simp only
  rw [singleton_append, octet_get_cons]
  simp only
  rw [h, hsize]
  simp only
  rw [if_neg (Nat.lt_irrefl _), take_length, drop_length]
  rfl

/-! ## Contents one after another -/

/-- A content to put, with a body that the methods of a body make, of less than 2^24 octets. -/
structure Sent (cls : ContentClass) where
  content : ContentObject cls
  options : UInt8
  described : DescribedBody
  represents : content.body.Represents described
  bodyLimit : described.octets.length < 0x1000000

namespace Sent

def chunk (self : Sent cls) : List UInt8 :=
  self.content.chunkOctets (calcPropertyFlags self.content.properties 16 0 0).2 self.options
    self.described.octets

def received (self : Sent cls) : ContentObject cls × UInt8 :=
  (self.content.received self.described.octets, self.options)

variable (self : Sent cls)

theorem length_chunk : self.chunk.length = 8 + self.content.bareSize :=
  length_chunkOctets self.represents.size _ _

theorem chunk_ne_nil : self.chunk ≠ [] := by
  intro h
  have := self.length_chunk
  rw [h, length_nil] at this
  omega

theorem takeContent_chunk (h : self.content.wireSize < 0x80000000) :
    takeContent cls self.chunk = .ok (self.received, []) := by
  refine takeContent_chunkOctets self.represents.size self.bodyLimit ?_ self.options
  refine Properties.small_of_setSize ?_
  rw [wireSize_eq] at h
  unfold bareSize at h
  omega

theorem wirePut_eq (bucket : Bucket)
    (h : self.content.wireSize ≤ bucket.maxSize - bucket.data.length) :
    (∃ bucket', self.content.wirePut bucket self.options = (if self.content.bareSize < 4 then
        .error .assertion else .ok (0, bucket')) ∧ bucket'.maxSize = bucket.maxSize ∧
      bucket'.data = bucket.data ++ framed self.chunk) := by
  have hbody := self.represents.getBody (Nat.lt_trans self.bodyLimit (by decide))
    self.content.body.bodySize (by rw [self.represents.size])
  have hsize := self.content.wireSize_eq
  have hlen := self.length_chunk
  have hroom : (bucket.data ++ framed self.chunk).length ≤ bucket.maxSize := by
    rw [length_append, length_framed]
    omega
  refine ⟨⟨bucket.maxSize, bucket.data ++ framed self.chunk, hroom, bucket.max_le⟩, ?_, rfl, rfl⟩
  rw [wirePut, if_pos h, hbody]
  show (if _ : (bucket.data ++ framed self.chunk).length ≤ bucket.maxSize then
    if self.chunk.length < 12 then _ else _ else _) = _
  rw [dif_pos hroom, hlen]
  by_cases h4 : self.content.bareSize < 4
  · rw [if_pos h4, if_pos (by omega)]
  · rw [if_neg h4, if_neg (by omega)]
    rfl

end Sent

/-- `wire put` of the contents: the return codes with the octets that each has added. -/
def putAll (bucket : Bucket) : List (Sent cls) → Except Violation (List (Int × Nat) × Bucket)
  | [] => .ok ([], bucket)
  | sent :: contents => do
    let (rc, bucket') ← sent.content.wirePut bucket sent.options
    let r ← putAll bucket' contents
    return ((rc, bucket'.data.length - bucket.data.length) :: r.1, r.2)

/-- The room that the contents need. -/
def totalSize (contents : List (Sent cls)) : Nat :=
  (contents.map fun sent => sent.content.wireSize).sum

variable {contents : List (Sent cls)}

theorem wireSize_le_totalSize {sent : Sent cls} (h : sent ∈ contents) :
    sent.content.wireSize ≤ totalSize contents := by
  induction contents with
  | nil => cases h
  | cons first contents ih =>
    rcases mem_cons.mp h with rfl | h
    · exact Nat.le_add_right _ _
    · exact Nat.le_trans (ih h) (Nat.le_add_left _ _)

variable {bucket : Bucket}

theorem putAll_eq_ok
    (hfits : bucket.data.length + totalSize contents ≤ bucket.maxSize)
    (h : ∀ sent ∈ contents, 4 ≤ sent.content.bareSize) :
    ∃ bucket', putAll bucket contents =
        .ok (contents.map fun sent => ((0 : Int), sent.content.wireSize), bucket') ∧
      bucket'.data = bucket.data ++ (contents.map Sent.chunk).flatMap framed := by
  induction contents generalizing bucket with
  | nil =>
    refine ⟨bucket, rfl, ?_⟩
    rw [map_nil, flatMap_nil, append_nil]
  | cons sent contents ih =>
    rw [forall_mem_cons] at h
    rw [totalSize, map_cons, sum_cons] at hfits
    obtain ⟨bucket1, hput, hmax, hdata⟩ := sent.wirePut_eq bucket (by omega)
    rw [if_neg (by omega)] at hput
    have hsize : bucket1.data.length = bucket.data.length + sent.content.wireSize := by
      rw [hdata, length_append, length_framed, sent.length_chunk, wireSize_eq]
      omega
    have hroom : bucket1.data.length + totalSize contents ≤ bucket1.maxSize := by
      rw [hsize, hmax, totalSize]
      omega
    obtain ⟨bucket', hall, hdata'⟩ := ih hroom h.2
    refine ⟨bucket', ?_, ?_⟩
    · rw [putAll, hput]
      simp only [bind, Except.bind, hall, hsize, Nat.add_sub_cancel_left]
      rfl
    · rw [hdata', hdata, map_cons, flatMap_cons, append_assoc]

theorem not_small_of_putAll
    (hfits : bucket.data.length + totalSize contents ≤ bucket.maxSize)
    {r : List (Int × Nat) × Bucket} (h : putAll bucket contents = .ok r) :
    ∀ sent ∈ contents, 4 ≤ sent.content.bareSize := by
  induction contents generalizing bucket r with
  | nil => nofun
  | cons sent contents ih =>
    rw [totalSize, map_cons, sum_cons] at hfits
    obtain ⟨bucket1, hput, hmax, hdata⟩ := sent.wirePut_eq bucket (by omega)
    rw [putAll, hput] at h
    by_cases h4 : sent.content.bareSize < 4
    · rw [if_pos h4] at h
      cases h
    · rw [if_neg h4] at h
      simp only [bind, Except.bind] at h
      have hsize : bucket1.data.length = bucket.data.length + sent.content.wireSize := by
        rw [hdata, length_append, length_framed, sent.length_chunk, wireSize_eq]
        omega
      cases hall : putAll bucket1 contents with
      | error v =>
        rw [hall] at h
        cases h
      | ok r' =>
        rw [forall_mem_cons]
        have hroom : bucket1.data.length + totalSize contents ≤ bucket1.maxSize := by
          rw [hsize, hmax, totalSize]
          omega
        exact ⟨by omega, ih hroom hall⟩

theorem getAll_chunks {bucket : List UInt8} {offset : Nat}
    (h : bucket.drop offset = (contents.map Sent.chunk).flatMap framed)
    (hn : offset ≤ bucket.length) (hlt : totalSize contents < 0x80000000) :
    getAll cls bucket (contents.length + 1) offset =
      .ok (contents.map Sent.received, bucket.length) := by
  induction contents generalizing offset with
  | nil =>
    have hend : bucket.length ≤ offset := drop_eq_nil_iff.mp h
    have heq : offset = bucket.length := by omega
    rw [length_nil, getAll, wireGet_of_short (by omega), heq]
    rfl
  | cons sent contents ih =>
    rw [totalSize, map_cons, sum_cons] at hlt
    obtain ⟨hle, -, hrest⟩ := drop_framed h hn
    have hlen := sent.length_chunk
    have hsize := sent.content.wireSize_eq
    have hget := wireGet_framed cls h hn sent.chunk_ne_nil (by omega)
    rw [sent.takeContent_chunk (by omega)] at hget
    have hget : wireGet cls bucket offset =
        .ok (some sent.received, offset + 4 + sent.chunk.length) := hget
    rw [length_cons, getAll, hget]
    simp only [bind, Except.bind]
    rw [ih hrest hle (by rw [totalSize]; omega)]
    rfl

/-- A bucket as `ipr_bucket_new` returns it. -/
def emptyBucket (size : Nat) : Bucket :=
  ⟨bucketMaxSize size, [], Nat.zero_le _, bucketMaxSize_le size⟩

/--
All contents are put with the size that is predicted for each, nothing is pending then, and
they are got again in their order, and null behind them.
-/
def WireRoundTrips (size : Nat) (contents : List (Sent cls)) : Prop :=
  ∃ bucket, putAll (emptyBucket size) contents =
      .ok (contents.map fun sent => ((0 : Int), sent.content.wireSize), bucket) ∧
    wirePending bucket.data = .ok 0 ∧
    getAll cls bucket.data (contents.length + 1) 0 =
      .ok (contents.map Sent.received, bucket.data.length)

theorem wireRoundTrips_iff (size : Nat) (contents : List (Sent cls))
    (hfits : totalSize contents ≤ (emptyBucket size).maxSize) :
    WireRoundTrips size contents ↔
      contents ≠ [] ∧ ∀ sent ∈ contents, 4 ≤ sent.content.bareSize := by
  have hroom : (emptyBucket size).data.length + totalSize contents ≤
      (emptyBucket size).maxSize := by
    rw [show (emptyBucket size).data.length = 0 from rfl, Nat.zero_add]
    exact hfits
  constructor
  · rintro ⟨bucket, hput, hpending, -⟩
    refine ⟨?_, not_small_of_putAll hroom hput⟩
    rintro rfl
    cases hput
    cases hpending
  · rintro ⟨hne, h4⟩
    obtain ⟨bucket, hput, hdata⟩ := putAll_eq_ok hroom h4
    have hdata : bucket.data = (contents.map Sent.chunk).flatMap framed := hdata
    have hmax := (emptyBucket size).max_le
    have hlt : ∀ sent ∈ contents, sent.chunk.length < 0x80000000 := by
      intro sent hm
      have hle := wireSize_le_totalSize hm
      rw [sent.length_chunk]
      rw [wireSize_eq] at hle
      omega
    refine ⟨bucket, hput, ?_, getAll_chunks hdata (Nat.zero_le _) (by omega)⟩
    refine pendingFrom_chunks hdata (Nat.zero_le _) ?_ ?_ ?_
    · rwa [ne_eq, map_eq_nil_iff]
    · rw [forall_mem_map]
      exact hlt
    · have := Lib.length_le_length_flatMap framed_ne_nil (contents.map Sent.chunk)
      rw [hdata]
      omega

theorem wirePut_of_full {options : UInt8}
    (h : bucket.maxSize - bucket.data.length < self.wireSize) :
    self.wirePut bucket options = .ok (-1, bucket) := if_neg (Nat.not_le_of_lt h)

/--
Where there is room, contents round trip when there are some and each has four octets of
names, properties and body, and only then. Without room nothing is put.
-/
theorem wire_roundTrip_iff (cls : ContentClass) : (∀ (size : Nat) (contents : List (Sent cls)),
      (totalSize contents ≤ (emptyBucket size).maxSize → WireRoundTrips size contents) ↔
        (totalSize contents ≤ (emptyBucket size).maxSize →
          contents ≠ [] ∧ ∀ sent ∈ contents, 4 ≤ sent.content.bareSize)) ∧
    ∀ (self : ContentObject cls) (bucket : Bucket) (options : UInt8),
      bucket.maxSize - bucket.data.length < self.wireSize →
        self.wirePut bucket options = .ok (-1, bucket) :=
  ⟨fun size contents => ⟨fun h hfits => (wireRoundTrips_iff size contents hfits).mp (h hfits),
    fun h hfits => (wireRoundTrips_iff size contents hfits).mpr (h hfits)⟩,
    fun _ _ _ h => wirePut_of_full h⟩

/-- A new content with a routing key of four octets. -/
def keyedSent : Sent basicClass where
  content :=
    { ContentObject.new basicClass with routingKey := ⟨⟨[1, 2, 3, 4], by decide⟩, by decide⟩ }
  options := 0
  described := ⟨[], false⟩
  represents := Body.represents_new
  bodyLimit := by decide

theorem wire_roundTrip_keyed : WireRoundTrips 256 [keyedSent, keyedSent] ∧
      keyedSent.content.wirePut (emptyBucket 0) 1 = .ok (-1, emptyBucket 0) := by
  have h := wire_roundTrip_iff basicClass
  refine ⟨(h.1 256 [keyedSent, keyedSent]).mpr (fun _ => ⟨cons_ne_nil _ _, ?_⟩) (by decide),
    h.2 _ _ _ (by decide)⟩
  intro sent hm
  have hs : sent = keyedSent := by
    rcases mem_cons.mp hm with rfl | hm
    · rfl
    · exact mem_singleton.mp hm
  rw [hs]
  decide

/-- A new content, without exchange, routing key, properties and body. -/
def emptySent : Sent basicClass where
  content := ContentObject.new basicClass
  options := 0
  described := ⟨[], false⟩
  represents := Body.represents_new
  bodyLimit := by decide

/-- It makes a chunk of eight octets, for which the assertion fails. -/
theorem wirePut_empty : totalSize [emptySent] ≤ (emptyBucket 256).maxSize ∧
      (ContentObject.new basicClass).wirePut (emptyBucket 256) 0 = .error .assertion ∧
      ¬ WireRoundTrips 256 [emptySent] := by
  have hput : (ContentObject.new basicClass).wirePut (emptyBucket 256) 0 = .error .assertion := rfl
  refine ⟨by decide, hput, ?_⟩
  rintro ⟨bucket, h, -⟩
  have h' : (do
      let (rc, bucket') ← (ContentObject.new basicClass).wirePut (emptyBucket 256) 0
      let r ← putAll bucket' ([] : List (Sent basicClass))
      return ((rc, bucket'.data.length - (emptyBucket 256).data.length) :: r.1, r.2)) =
      .ok ([emptySent].map fun sent => ((0 : Int), sent.content.wireSize), bucket) := h
  cases h'

end ContentObject

end OpenAmq
