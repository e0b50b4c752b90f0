import OpenAmq.Exchange.Bindings

/-!
# The index tables of an exchange

Topic, regexp and headers exchanges cache their matches: an index is a text that messages
are looked up under, with a bit for every binding that matches it.

* `covers` — should the index for a text have the bit of a binding
* `Exchange.Compiled` — every index has exactly the bits that it should have
* `compile_spec` — compiling a binding keeps the tables in this form, for the topic
  exchange under the condition `NewBindingOk`
-/

namespace OpenAmq

open Exchange List Option

/-! ## What a binding is indexed under -/

/-- The index keys that one field of the arguments adds. -/
def fieldKeys (env : Env) (field : Field) : Option (List Str) :=
  if isOption field.name then
    if isMatchOption field.name then
      (env.fieldString field.value).map fun _ => []
    else some []
  else if field.value = .void then some [nameKey field.name]
  else (env.fieldString field.value).map fun value => [valueKey field.name value]

def asksAny (env : Env) (field : Field) : Bool :=
  isOption field.name && isMatchOption field.name &&
    decide (env.fieldString field.value = some matchAny)

/-- The index keys of decoded arguments, in the order in which they are counted. -/
def keysOfFields (env : Env) (fields : List Field) : Option (List Str) :=
  (fields.mapM (fieldKeys env)).map fun keys =>
    if keys.flatten = [] then [matchAllKey] else keys.flatten

def bindingKeys (env : Env) (arguments : Option Longstr) : Option (List Str) :=
  match fieldListNew arguments with
  | .error _ => none
  | .ok fields => keysOfFields env fields

/-- The `match_all` flag of a headers binding. -/
def bindingMatchAll (env : Env) (arguments : Option Longstr) : Bool :=
  match fieldListNew arguments with
  | .error _ => true
  | .ok fields => !fields.any (asksAny env)

/-- Should the index for `key` have the bit of a binding on these arguments? -/
def covers (env : Env) (type : ExchangeType) (routingKey : Shortstr) (arguments : Option Longstr)
    (key : Str) : Bool :=
  match type with
  | .topic =>
    if topicIsWildcard routingKey.chars then
      env.regexpMatch (topicToRegexp routingKey.chars) key
    else decide (routingKey.chars = key)
  | .regexp => env.pcreMatch routingKey.chars key
  | .headers => ((bindingKeys env arguments).getD []).contains key
  | _ => false

/-! ## Bits under a key -/

/-- The bits of the index for `key`, none when there is no such index. -/
def bitsAt (indices : List Index) (key : Str) : List ObjectNbr :=
  ((searchIndex indices key).map fun index => index.bindset.ones).getD []

variable {indices : List Index} {key key' : Str} {nbr n : ObjectNbr} {keys : List Str}

theorem bitsAt_of_search {index : Index} (h : searchIndex indices key = some index) :
    bitsAt indices key = index.bindset.ones := by
  simp [bitsAt, h]

theorem searchIndex_cons (index : Index) (indices : List Index) (key : Str) :
    searchIndex (index :: indices) key =
      if index.key = key then some index else searchIndex indices key := by
  unfold searchIndex
  by_cases h : index.key = key <;> simp [h]

theorem searchIndex_append (h : searchIndex indices key = none) (index : Index) (key' : Str) :
    searchIndex (indices ++ [index]) key' =
      if key' = key ∧ index.key = key then some index
      else (searchIndex indices key').or (searchIndex [index] key') := by
  have happ : searchIndex (indices ++ [index]) key' =
      (searchIndex indices key').or (searchIndex [index] key') := by
    unfold searchIndex
    rw [find?_append]
  rw [happ]
  split
  · next hk =>
    rw [hk.1, h, searchIndex_cons, if_pos hk.2]
    rfl
  · rfl

@[simp] theorem Index.key_set (index : Index) (nbr : ObjectNbr) : (index.set nbr).key = index.key :=
  rfl

theorem searchIndex_scanIndices (indices : List Index) (nbr : ObjectNbr) (test : Str → Bool)
    (key : Str) :
    searchIndex (scanIndices indices nbr test) key =
      (searchIndex indices key).map fun index => if test key then index.set nbr else index := by
  induction indices with
  | nil => rfl
  | cons index indices ih =>
    unfold scanIndices at ih ⊢
    rw [map_cons, searchIndex_cons, searchIndex_cons, ih]
    have hkey : (if test index.key then index.set nbr else index).key = index.key := by
      split <;> rfl
    rw [hkey]
    by_cases h : index.key = key
    · rw [if_pos h, if_pos h, h]
      rfl
    · rw [if_neg h, if_neg h]

theorem isSome_scanIndices {test : Str → Bool} :
    (searchIndex (scanIndices indices nbr test) key).isSome ↔ (searchIndex indices key).isSome := by
  rw [searchIndex_scanIndices, isSome_map]

theorem mem_bitsAt_scanIndices {test : Str → Bool} (h : (searchIndex indices key).isSome) :
    n ∈ bitsAt (scanIndices indices nbr test) key ↔
      (n = nbr ∧ test key = true) ∨ n ∈ bitsAt indices key := by
  obtain ⟨index, hi⟩ := isSome_iff_exists.mp h
  unfold bitsAt
  rw [searchIndex_scanIndices, hi]
  by_cases ht : test key = true
  · simp [ht, Index.set]
  · simp [ht]

theorem searchIndex_crossReference (key : Str) (nbr : ObjectNbr) (indices : List Index)
    (key' : Str) :
    searchIndex (crossReference key nbr indices) key' =
      if key' = key then
        some (((searchIndex indices key).getD ⟨key, Bits.new⟩).set nbr)
      else searchIndex indices key' := by
  induction indices with
  | nil =>
    rw [crossReference, searchIndex_cons]
    by_cases h : key' = key
    · rw [if_pos h.symm, if_pos h]
      rfl
    · rw [if_neg (Ne.symm h), if_neg h]
  | cons index indices ih =>
    rw [crossReference]
    by_cases hi : index.key = key
    · rw [if_pos hi, searchIndex_cons, searchIndex_cons, searchIndex_cons, if_pos hi]
      by_cases h : key' = key
      · rw [if_pos (by rw [Index.key_set, hi, h]), if_pos h]
        rfl
      · have hne : index.key ≠ key' := fun he => h (by rw [← he, hi])
        rw [Index.key_set, if_neg hne, if_neg h, if_neg hne]
    · rw [if_neg hi, searchIndex_cons, searchIndex_cons, searchIndex_cons, if_neg hi, ih]
      by_cases h : key' = key
      · subst h
        rw [if_neg hi, if_pos rfl, if_pos rfl]
      · rw [if_neg h, if_neg h]

theorem isSome_crossReference : (searchIndex (crossReference key nbr indices) key').isSome ↔
      key' = key ∨ (searchIndex indices key').isSome := by
  rw [searchIndex_crossReference]
  by_cases h : key' = key <;> simp [h]

theorem mem_bitsAt_crossReference : n ∈ bitsAt (crossReference key nbr indices) key' ↔
      (key' = key ∧ n = nbr) ∨ n ∈ bitsAt indices key' := by
  unfold bitsAt
  rw [searchIndex_crossReference]
  by_cases h : key' = key
  · subst h
    cases searchIndex indices key' <;> simp [Index.set]
  · simp [h]

theorem isSome_foldl_crossReference :
    (searchIndex (keys.foldl (fun ixs key => crossReference key nbr ixs) indices) key').isSome ↔
      key' ∈ keys ∨ (searchIndex indices key').isSome := by
  induction keys generalizing indices with
  | nil => simp
  | cons key keys ih =>
    rw [foldl_cons, ih, isSome_crossReference, mem_cons]
    tauto

theorem mem_bitsAt_foldl_crossReference :
    n ∈ bitsAt (keys.foldl (fun ixs key => crossReference key nbr ixs) indices) key' ↔
      (key' ∈ keys ∧ n = nbr) ∨ n ∈ bitsAt indices key' := by
  induction keys generalizing indices with
  | nil => simp
  | cons key keys ih =>
    rw [foldl_cons, ih, mem_bitsAt_crossReference, mem_cons]
    tauto

theorem mem_scanBindings {test : Binding → Bool} {bindings : List Binding} :
    n ∈ (scanBindings test bindings).ones ↔ ∃ b ∈ bindings, b.index = n ∧ test b = true := by
  have hfold : ∀ bits : Bits,
      n ∈ (bindings.foldl (fun bits b => if test b then bits.set b.index else bits) bits).ones ↔
        n ∈ bits.ones ∨ ∃ b ∈ bindings, b.index = n ∧ test b = true := by
    induction bindings with
    | nil => simp
    | cons b bs ih =>
      intro bits
      rw [foldl_cons, ih]
      by_cases ht : test b = true
      · rw [if_pos ht, Bits.mem_ones_set]
        simp only [mem_cons, exists_eq_or_imp, ht, and_true]
        tauto
      · rw [if_neg ht]
        simp [ht]
  unfold scanBindings
  rw [hfold]
  simp

/-! ## Compiled exchanges -/

namespace Exchange

/-- What `amq_exchange_topic_compile` leaves behind in the bindings of a topic exchange. -/
structure TopicCompiled (ex : Exchange) : Prop where
  flag : ∀ b ∈ ex.bindingList, b.isWildcard = topicIsWildcard b.routingKey.chars
  regexp : ∀ b ∈ ex.bindingList, b.regexp = topicToRegexp b.routingKey.chars
  wildcards_first : ex.bindingList.Pairwise fun b b' => b'.isWildcard = true → b.isWildcard = true
  has_index : ∀ b ∈ ex.bindingList, b.isWildcard = false →
    (searchIndex ex.indices b.routingKey.chars).isSome

/-- What `amq_exchange_headers_compile` leaves behind in the bindings of a headers exchange. -/
structure HeadersCompiled (env : Env) (ex : Exchange) : Prop where
  keys : ∀ b ∈ ex.bindingList, ∃ keys, bindingKeys env b.arguments = some keys ∧
    b.fieldCount = keys.length
  match_all : ∀ b ∈ ex.bindingList, b.matchAll = bindingMatchAll env b.arguments
  has_index : ∀ b ∈ ex.bindingList, ∀ keys, bindingKeys env b.arguments = some keys →
    ∀ key ∈ keys, (searchIndex ex.indices key).isSome

/-- Every index has the bits of exactly the bindings that cover its key. -/
structure Compiled (env : Env) (ex : Exchange) : Prop where
  indexed : ∀ key, (searchIndex ex.indices key).isSome → ∀ n, n ∈ bitsAt ex.indices key ↔
      ∃ b ∈ ex.bindingList, b.index = n ∧ covers env ex.type b.routingKey b.arguments key = true
  topic : ex.type = .topic → TopicCompiled ex
  headers : ex.type = .headers → HeadersCompiled env ex

theorem compiled_new (env : Env) (type : ExchangeType) : Compiled env { type } where
  indexed key h := by simp [searchIndex] at h
  topic _ := ⟨by simp, by simp, List.Pairwise.nil, by simp⟩
  headers _ := ⟨by simp, by simp, by simp⟩

variable {env : Env} {ex : Exchange} {b : Binding}

theorem Compiled.of_eq {ex' : Exchange} (hc : Compiled env ex) (htype : ex'.type = ex.type)
    (hlist : ex'.bindingList = ex.bindingList) (hindices : ex'.indices = ex.indices) :
    Compiled env ex' := by
  refine ⟨fun key hs n => ?_, fun ht => ?_, fun ht => ?_⟩
  · rw [hindices] at hs ⊢
    rw [hlist, htype]
    exact hc.indexed key hs n
  · have h := hc.topic (htype.symm.trans ht)
    constructor <;> rw [hlist]
    · exact h.flag
    · exact h.regexp
    · exact h.wildcards_first
    · rw [hindices]
      exact h.has_index
  · have h := hc.headers (htype.symm.trans ht)
    constructor <;> rw [hlist]
    · exact h.keys
    · exact h.match_all
    · rw [hindices]
      exact h.has_index

/--
The condition under which a new binding is compiled correctly.

For the topic exchange: the regular expression fits its buffer, and a binding without
wildcards does not create an index that an older wildcard binding matches, since that
binding is not looked at again.
-/
def NewBindingOk (env : Env) (ex : Exchange) (routingKey : Shortstr)
    (arguments : Option Longstr) : Prop :=
  match ex.type with
  | .topic =>
    (topicToRegexp routingKey.chars).length ≤ shortstrMax ∧
      (topicIsWildcard routingKey.chars = true ∨ (searchIndex ex.indices routingKey.chars).isSome ∨
        ∀ b ∈ ex.bindingList, b.isWildcard = true →
          env.regexpMatch b.regexp routingKey.chars = false)
  | .headers => (bindingKeys env arguments).isSome
  | .direct => ∀ b ∈ ex.bindingList, b.routingKey ≠ routingKey
  | .fanout => ex.bindingList = []
  | _ => True

instance (env : Env) (ex : Exchange) (k : Shortstr) (a : Option Longstr) :
    Decidable (NewBindingOk env ex k a) := by
  unfold NewBindingOk
  split <;> infer_instance

/-! ### Compiling a headers binding -/

theorem headersField_eq {self : List Index × Binding} {field : Field}
    (h : fieldKeys env field = some keys) :
    headersField env self field =
      some (keys.foldl (fun ixs key => crossReference key self.2.index ixs) self.1, { self.2 with
          fieldCount := self.2.fieldCount + keys.length
          matchAll := self.2.matchAll && !asksAny env field }) := by
  unfold fieldKeys at h
  unfold headersField asksAny
  by_cases ho : isOption field.name = true
  · rw [if_pos ho] at h ⊢
    by_cases hx : isMatchOption field.name = true
    · rw [if_pos hx] at h ⊢
      obtain ⟨value, hv, rfl⟩ := map_eq_some_iff.mp h
      by_cases hany : value = matchAny
      · simp [ho, hx, hv, hany]
      · simp [ho, hx, hv, hany]
    · rw [if_neg hx] at h ⊢
      cases h
      simp [ho, hx]
  · rw [if_neg ho] at h ⊢
    by_cases hvoid : field.value = .void
    · rw [if_pos hvoid] at h ⊢
      cases h
      simp [compileBinding, ho]
    · rw [if_neg hvoid] at h ⊢
      obtain ⟨value, hv, rfl⟩ := map_eq_some_iff.mp h
      simp [hv, compileBinding, ho]

theorem foldlM_headersField {fields : List Field} {keys : List (List Str)}
    (h : fields.mapM (fieldKeys env) = some keys) (self : List Index × Binding) :
    fields.foldlM (headersField env) self =
      some (keys.flatten.foldl (fun ixs key => crossReference key self.2.index ixs) self.1,
        { self.2 with
          fieldCount := self.2.fieldCount + keys.flatten.length
          matchAll := self.2.matchAll && !fields.any (asksAny env) }) := by
  induction fields generalizing self keys with
  | nil =>
    simp only [mapM_nil, Option.pure_def, Option.some.injEq] at h
    subst h
    simp
  | cons field fields ih =>
    rw [mapM_cons] at h
    obtain ⟨ks, hks, h⟩ := bind_eq_some_iff.mp h
    obtain ⟨rest, hrest, h⟩ := bind_eq_some_iff.mp h
    cases h
    rw [foldlM_cons, headersField_eq hks]
    simp only [bind_eq_bind, bind_some]
    rw [ih hrest]
    simp only [flatten_cons, foldl_append, length_append, any_cons,
      Bool.not_or, Bool.and_assoc, Nat.add_assoc]

theorem headersCompile_eq (hkeys : bindingKeys env b.arguments = some keys)
    (hcount : b.fieldCount = 0) :
    headersCompile env indices b =
      some (keys.foldl (fun ixs key => crossReference key b.index ixs) indices, { b with
          fieldCount := keys.length
          matchAll := bindingMatchAll env b.arguments }) := by
  unfold bindingKeys at hkeys
  unfold headersCompile bindingMatchAll
  cases hf : fieldListNew b.arguments with
  | error e => rw [hf] at hkeys; cases hkeys
  | ok fields =>
    rw [hf] at hkeys
    simp only at hkeys ⊢
    obtain ⟨ks, hks, hkeys⟩ := map_eq_some_iff.mp hkeys
    rw [foldlM_headersField hks]
    subst hkeys
    by_cases hnil : ks.flatten = []
    · simp [hnil, hcount, compileBinding]
    · have hlen : ks.flatten.length ≠ 0 := fun h => hnil (length_eq_zero_iff.mp h)
      simp only [map_some, hcount, Nat.zero_add, if_neg hlen, if_neg hnil, Bool.true_and]

/-! ### Compiling a binding -/

/--
The general step: every index gets the bit of the new binding if its key is covered, and an
index that did not exist is for a key that no older binding covers.
-/
theorem indexed_withBinding (hc : Compiled env ex) {bindingIndex : ObjectIndex}
    (hbits : ∀ key, (searchIndex indices key).isSome → ∀ n, n ∈ bitsAt indices key ↔
      (n = b.index ∧ covers env ex.type b.routingKey b.arguments key = true) ∨
      n ∈ bitsAt ex.indices key)
    (hnew : ∀ key, (searchIndex indices key).isSome → searchIndex ex.indices key = none →
      ∀ b' ∈ ex.bindingList, covers env ex.type b'.routingKey b'.arguments key = false)
    :
    ∀ key, (searchIndex (ex.withBinding bindingIndex indices b).indices key).isSome → ∀ n,
      n ∈ bitsAt (ex.withBinding bindingIndex indices b).indices key ↔
        ∃ b' ∈ (ex.withBinding bindingIndex indices b).bindingList,
          b'.index = n ∧ covers env ex.type b'.routingKey b'.arguments key = true := by
  intro key hsome n
  change n ∈ bitsAt indices key ↔ ∃ b' ∈ insertBinding b ex.bindingList, _
  have hold : n ∈ bitsAt ex.indices key ↔ ∃ b' ∈ ex.bindingList,
      b'.index = n ∧ covers env ex.type b'.routingKey b'.arguments key = true := by
    cases hs : searchIndex ex.indices key with
    | some index => exact hc.indexed key (by rw [hs]; rfl) n
    | none =>
      -- an index that did not exist has no bits, and no older binding should be in it
      constructor
      · intro h
        simp [bitsAt, hs] at h
      · rintro ⟨b', hb', -, hcov⟩
        rw [hnew key hsome hs b' hb'] at hcov
        cases hcov
  rw [hbits key hsome, hold]
  constructor
  · rintro (⟨rfl, hcov⟩ | ⟨b', hb', h⟩)
    · exact ⟨b, mem_insertBinding.mpr (Or.inl rfl), rfl, hcov⟩
    · exact ⟨b', mem_insertBinding.mpr (Or.inr hb'), h⟩
  · rintro ⟨b', hb', hidx, hcov⟩
    rcases mem_insertBinding.mp hb' with rfl | hb'
    · exact Or.inl ⟨hidx.symm, hcov⟩
    · exact Or.inr ⟨b', hb', hidx, hcov⟩

theorem topicCompiled_withBinding (ht : TopicCompiled ex) {bindingIndex : ObjectIndex}
    (hflag : b.isWildcard = topicIsWildcard b.routingKey.chars)
    (hregexp : b.regexp = topicToRegexp b.routingKey.chars)
    (hkeep : ∀ key, (searchIndex ex.indices key).isSome → (searchIndex indices key).isSome)
    (hown : b.isWildcard = false → (searchIndex indices b.routingKey.chars).isSome) :
    TopicCompiled (ex.withBinding bindingIndex indices b) where
  flag b' hb' := by
    rcases mem_insertBinding.mp hb' with rfl | hb'
    · exact hflag
    · exact ht.flag b' hb'
  regexp b' hb' := by
    rcases mem_insertBinding.mp hb' with rfl | hb'
    · exact hregexp
    · exact ht.regexp b' hb'
  wildcards_first := by
    show (insertBinding b ex.bindingList).Pairwise _
    unfold insertBinding
    split
    · next hw => exact pairwise_cons.mpr ⟨fun _ _ _ => hw, ht.wildcards_first⟩
    · next hw =>
      refine pairwise_append.mpr ⟨ht.wildcards_first, pairwise_singleton _ _, ?_⟩
      intro b' _ b'' hb'' hw''
      rw [mem_singleton] at hb''
      exact absurd (hb'' ▸ hw'') hw
  has_index b' hb' hw := by
    rcases mem_insertBinding.mp hb' with rfl | hb'
    · exact hown hw
    · exact hkeep _ (ht.has_index b' hb' hw)

/-- A topic binding enters the indices of the topics that it matches. -/
theorem topicCompile_spec (hc : Compiled env ex) (htype : ex.type = .topic)
    (hok : NewBindingOk env ex b.routingKey b.arguments) :
    ∃ indices b', topicCompile env ex.indices b = some (indices, b') ∧ b.SameKey b' ∧
      ∀ bindingIndex, Compiled env (ex.withBinding bindingIndex indices b') := by
  have ht := hc.topic htype
  simp only [NewBindingOk, htype] at hok
  obtain ⟨hfit, hnew⟩ := hok
  have hcov : ∀ key, covers env ex.type b.routingKey b.arguments key =
      if topicIsWildcard b.routingKey.chars then
        env.regexpMatch (topicToRegexp b.routingKey.chars) key
      else decide (b.routingKey.chars = key) := fun key => by rw [htype]; rfl
  unfold topicCompile
  rw [if_pos hfit]
  by_cases hw : topicIsWildcard b.routingKey.chars = true
  · rw [if_pos hw]
    refine ⟨_, _, rfl, ⟨rfl, rfl, rfl, rfl, rfl⟩, fun bindingIndex => ?_⟩
    refine ⟨?_, fun _ => ?_, fun h => ?_⟩
    · -- a wildcard binding makes no index
      refine indexed_withBinding hc (fun key hs n => ?_) (fun key hs hnone => ?_)
      · rw [mem_bitsAt_scanIndices (isSome_scanIndices.mp hs), hcov, if_pos hw]
      · rw [isSome_scanIndices, hnone] at hs
        cases hs
    · exact topicCompiled_withBinding ht rfl rfl (fun key hs => isSome_scanIndices.mpr hs)
        (fun hf => absurd hw (by simp only at hf; rw [hf]; simp))
    · exact absurd (htype.symm.trans h) (by decide)
  · rw [if_neg hw]
    refine ⟨_, _, rfl, ⟨rfl, rfl, rfl, rfl, rfl⟩, fun bindingIndex => ?_⟩
    refine ⟨?_, fun _ => ?_, fun h => ?_⟩
    · refine indexed_withBinding hc (fun key hs n => ?_) (fun key hs hnone b' hb' => ?_)
      · rw [mem_bitsAt_crossReference, hcov, if_neg hw, decide_eq_true_iff]
        tauto
      · -- a binding that covers the key of the new index has no wildcards, or is ruled out
        rcases isSome_crossReference.mp hs with rfl | hs
        · rw [htype]
          unfold covers
          have hold : ∀ c ∈ ex.bindingList, c.isWildcard = true →
              env.regexpMatch c.regexp b.routingKey.chars = false := by
            rcases hnew with h | h | h
            · exact absurd h hw
            · rw [hnone] at h
              cases h
            · exact h
          by_cases hw' : topicIsWildcard b'.routingKey.chars = true
          · rw [if_pos hw', ← ht.regexp b' hb']
            exact hold b' hb' (by rw [ht.flag b' hb', hw'])
          · rw [if_neg hw', decide_eq_false_iff_not]
            intro he
            have hi := ht.has_index b' hb' (by rw [ht.flag b' hb']; simpa using hw')
            rw [he, hnone] at hi
            cases hi
        · rw [hnone] at hs
          cases hs
    · exact topicCompiled_withBinding ht rfl rfl
        (fun key hs => isSome_crossReference.mpr (Or.inr hs))
        (fun _ => isSome_crossReference.mpr (Or.inl rfl))
    · exact absurd (htype.symm.trans h) (by decide)

theorem headersCompile_spec (hc : Compiled env ex) (htype : ex.type = .headers)
    (hcount : b.fieldCount = 0) (hok : NewBindingOk env ex b.routingKey b.arguments) :
    ∃ indices b', headersCompile env ex.indices b = some (indices, b') ∧ b.SameKey b' ∧
      ∀ bindingIndex, Compiled env (ex.withBinding bindingIndex indices b') := by
  have hh := hc.headers htype
  simp only [NewBindingOk, htype] at hok
  obtain ⟨keys, hkeys⟩ := isSome_iff_exists.mp hok
  refine ⟨_, _, headersCompile_eq hkeys hcount, ⟨rfl, rfl, rfl, rfl, rfl⟩, fun bindingIndex => ?_⟩
  refine ⟨?_, fun h => ?_, fun _ => ?_⟩
  · refine indexed_withBinding hc (fun key hs n => ?_) (fun key hs hnone b' hb' => ?_)
    · rw [mem_bitsAt_foldl_crossReference, htype]
      simp only [covers, hkeys, getD_some, contains_iff_mem]
      tauto
    · rw [htype]
      simp only [covers, Bool.eq_false_iff, contains_iff_mem, ne_eq]
      intro hmem
      -- an older binding with this key would have made the index
      obtain ⟨ks, hks, -⟩ := hh.keys b' hb'
      rw [hks, getD_some] at hmem
      have hi := hh.has_index b' hb' ks hks key hmem
      rw [hnone] at hi
      cases hi
  · exact absurd (htype.symm.trans h) (by decide)
  · refine ⟨fun b' hb' => ?_, fun b' hb' => ?_, fun b' hb' ks hks key hkey => ?_⟩
    · rcases mem_insertBinding.mp hb' with rfl | hb'
      · exact ⟨keys, hkeys, rfl⟩
      · exact hh.keys b' hb'
    · rcases mem_insertBinding.mp hb' with rfl | hb'
      · rfl
      · exact hh.match_all b' hb'
    · rcases mem_insertBinding.mp hb' with rfl | hb'
      · have he : ks = keys := some.inj (hks.symm.trans hkeys)
        exact isSome_foldl_crossReference.mpr (Or.inl (he ▸ hkey))
      · exact isSome_foldl_crossReference.mpr (Or.inr (hh.has_index b' hb' ks hks key hkey))

theorem regexpCompile_spec (hc : Compiled env ex) (htype : ex.type = .regexp) (b : Binding)
    (bindingIndex : ObjectIndex) :
    Compiled env (ex.withBinding bindingIndex
      (scanIndices ex.indices b.index (env.pcreMatch b.routingKey.chars)) b) := by
  refine ⟨?_, fun h => ?_, fun h => ?_⟩
  · refine indexed_withBinding hc (fun key hs n => ?_) (fun key hs hnone => ?_)
    · rw [mem_bitsAt_scanIndices (isSome_scanIndices.mp hs), htype]
      rfl
    · rw [isSome_scanIndices, hnone] at hs
      cases hs
  · exact absurd (htype.symm.trans h) (by decide)
  · exact absurd (htype.symm.trans h) (by decide)

theorem compiled_withBinding_plain (hc : Compiled env ex)
    (hcov : ∀ k a key, covers env ex.type k a key = false) (htopic : ex.type ≠ .topic)
    (hheaders : ex.type ≠ .headers) (b : Binding) (bindingIndex : ObjectIndex) :
    Compiled env (ex.withBinding bindingIndex ex.indices b) := by
  refine ⟨?_, fun h => absurd h htopic, fun h => absurd h hheaders⟩
  refine indexed_withBinding hc (fun key hs n => ?_) (fun key hs hnone b' hb' => hcov _ _ _)
  rw [hcov]
  simp

theorem compile_spec (hc : Compiled env ex) (hcount : b.fieldCount = 0)
    (hok : NewBindingOk env ex b.routingKey b.arguments) :
    ∃ indices b', ex.compile env b = some (indices, b') ∧ b.SameKey b' ∧
      ∀ bindingIndex, Compiled env (ex.withBinding bindingIndex indices b') := by
  unfold compile
  cases htype : ex.type with
  | system | fanout | direct =>
    exact ⟨_, _, rfl, .refl b, fun bindingIndex => compiled_withBinding_plain hc
      (fun _ _ _ => by rw [htype]; rfl) (by rw [htype]; decide) (by rw [htype]; decide) b _⟩
  | topic => exact topicCompile_spec hc htype hok
  | headers => exact headersCompile_spec hc htype hcount hok
  | regexp => exact ⟨_, _, rfl, .refl b, regexpCompile_spec hc htype b⟩

end Exchange

end OpenAmq
