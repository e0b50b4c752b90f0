import OpenAmq.Exchange.Runs

/-!
# Headers matching

A headers exchange counts the index keys that a binding and a message have in common. This
file states what is to be matched in terms of the fields (`HeadersMatch`) and when counting
gives the same answer (`KeysApart`).
-/

namespace OpenAmq

open Exchange List

/-! ## What is to be matched -/

/-- The fields of a table, none when it does not decode. -/
def fieldsOf (table : Option Longstr) : List Field :=
  match fieldListNew table with
  | .error _ => []
  | .ok fields => fields

/-- The fields of binding arguments that are matched on. -/
def matchFields (fields : List Field) : List Field :=
  fields.filter fun field => !isOption field.name

/-- The header has the name of the field and, unless the field is void, its value. Names and
values are compared in text form, up to 30 characters. -/
def FieldMatches (env : Env) (field header : Field) : Prop :=
  field.name.take fieldNameMax = header.name.take fieldNameMax ∧
    (field.value = .void ∨ ((env.fieldString field.value).isSome ∧
      (env.fieldString field.value).map (·.take fieldValueMax) =
        (env.fieldString header.value).map (·.take fieldValueMax)))

def Present (env : Env) (headers : Option Longstr) (field : Field) : Prop :=
  ∃ header ∈ fieldsOf headers, FieldMatches env field header

def AsksAny (env : Env) (arguments : Option Longstr) : Prop :=
  ∃ field ∈ fieldsOf arguments, asksAny env field = true

def HeadersMatch (env : Env) (arguments headers : Option Longstr) : Prop :=
  matchFields (fieldsOf arguments) = [] ∨
    (AsksAny env arguments ∧
      ∃ field ∈ matchFields (fieldsOf arguments), Present env headers field) ∨
    (¬ AsksAny env arguments ∧
      ∀ field ∈ matchFields (fieldsOf arguments), Present env headers field)

instance (env : Env) (field header : Field) : Decidable (FieldMatches env field header) :=
  inferInstanceAs (Decidable (_ ∧ (_ ∨ (_ ∧ _))))

instance (env : Env) (headers : Option Longstr) (field : Field) :
    Decidable (Present env headers field) :=
  inferInstanceAs (Decidable (∃ header ∈ fieldsOf headers, _))

instance (env : Env) (arguments : Option Longstr) : Decidable (AsksAny env arguments) :=
  inferInstanceAs (Decidable (∃ field ∈ fieldsOf arguments, _))

instance (env : Env) (arguments headers : Option Longstr) :
    Decidable (HeadersMatch env arguments headers) :=
  inferInstanceAs (Decidable (_ ∨ (_ ∧ _) ∨ (¬ _ ∧ _)))

/-! ## Index keys -/

theorem nameKey_eq (name : Str) : nameKey name = name.take fieldNameMax :=
  Shortstr.chars_ncpy (by decide)

theorem valueKey_eq (name value : Str) :
    valueKey name value = name.take fieldNameMax ++ '=' :: value.take fieldValueMax := by
  have hname : (Shortstr.ncpy name fieldNameMax).chars.length ≤ 30 := by
    exact length_take_le _ _
  have hcat : ((Shortstr.ncpy name fieldNameMax).cat "=".toList).chars =
      name.take fieldNameMax ++ ['='] := by
    rw [Shortstr.chars_cat, Shortstr.chars_ncpy (by decide)]
    · rfl
    · simp only [shortstrMax]
      have : "=".toList.length = 1 := rfl
      omega
  unfold valueKey
  rw [Shortstr.chars_ncat, hcat, append_assoc]
  · rfl
  · rw [hcat, length_append, length_take]
    simp only [fieldNameMax, fieldValueMax, shortstrMax, length_singleton]
    omega

def fieldKey (env : Env) (field : Field) : Str :=
  if field.value = .void then nameKey field.name
  else valueKey field.name ((env.fieldString field.value).getD [])

/-- The two index keys of a header field: its presence, and its value. -/
def keysOfHeader (env : Env) (header : Field) : List Str :=
  [nameKey header.name, valueKey header.name ((env.fieldString header.value).getD [])]

variable {env : Env} {arguments headers : Option Longstr} {keys : List Str}

theorem flatten_fieldKeys {fields : List Field} {keys : List (List Str)}
    (h : fields.mapM (fieldKeys env) = some keys) :
    keys.flatten = (matchFields fields).map (fieldKey env) := by
  induction fields generalizing keys with
  | nil =>
    simp only [mapM_nil, Option.pure_def, Option.some.injEq] at h
    subst h
    rfl
  | cons field fields ih =>
    rw [mapM_cons] at h
    obtain ⟨ks, hks, h⟩ := Option.bind_eq_some_iff.mp h
    obtain ⟨rest, hrest, h⟩ := Option.bind_eq_some_iff.mp h
    cases h
    rw [flatten_cons, ih hrest]
    unfold fieldKeys at hks
    unfold matchFields
    by_cases ho : isOption field.name = true
    · have hnil : ks = [] := by
        rw [if_pos ho] at hks
        split at hks
        · obtain ⟨_, -, rfl⟩ := Option.map_eq_some_iff.mp hks
          rfl
        · exact (Option.some.inj hks).symm
      rw [hnil, filter_cons_of_neg (by simpa using ho), nil_append]
    · have hone : ks = [fieldKey env field] := by
        unfold fieldKey
        rw [if_neg ho] at hks
        split at hks
        · next hv => rw [if_pos hv]; exact (Option.some.inj hks).symm
        · next hv =>
          rw [if_neg hv]
          obtain ⟨value, hvalue, rfl⟩ := Option.map_eq_some_iff.mp hks
          rw [hvalue, Option.getD_some]
      rw [hone, filter_cons_of_pos (by simpa using ho), map_cons, singleton_append]

theorem flatten_headerKeys {headers : List Field} {keys : List (List Str)}
    (h : headers.mapM (headerKeys env) = some keys) :
    keys.flatten = headers.flatMap (keysOfHeader env) ∧
      ∀ header ∈ headers, (env.fieldString header.value).isSome := by
  induction headers generalizing keys with
  | nil =>
    simp only [mapM_nil, Option.pure_def, Option.some.injEq] at h
    subst h
    simp
  | cons header headers ih =>
    rw [mapM_cons] at h
    obtain ⟨ks, hks, h⟩ := Option.bind_eq_some_iff.mp h
    obtain ⟨rest, hrest, h⟩ := Option.bind_eq_some_iff.mp h
    cases h
    obtain ⟨hflat, hsome⟩ := ih hrest
    obtain ⟨value, hvalue, rfl⟩ := Option.map_eq_some_iff.mp hks
    constructor
    · rw [flatten_cons, hflat, flatMap_cons, keysOfHeader, hvalue, Option.getD_some]
    · intro other hother
      rcases mem_cons.mp hother with rfl | hother
      · rw [hvalue]
        rfl
      · exact hsome other hother

theorem bindingKeys_eq (h : bindingKeys env arguments = some keys) :
    keys = if matchFields (fieldsOf arguments) = [] then [matchAllKey]
      else (matchFields (fieldsOf arguments)).map (fieldKey env) := by
  unfold bindingKeys at h
  unfold fieldsOf
  cases hf : fieldListNew arguments with
  | error e => rw [hf] at h; cases h
  | ok fields =>
    rw [hf] at h
    obtain ⟨kss, hkss, rfl⟩ := Option.map_eq_some_iff.mp h
    rw [flatten_fieldKeys hkss]
    simp only [map_eq_nil_iff]

theorem keysOfMessage_eq (h : keysOfMessage env headers = some keys) :
    keys = (fieldsOf headers).flatMap (keysOfHeader env) ++ [matchAllKey] ∧
      ∀ header ∈ fieldsOf headers, (env.fieldString header.value).isSome := by
  unfold keysOfMessage at h
  unfold fieldsOf
  cases hf : fieldListNew headers with
  | error e => rw [hf] at h; cases h
  | ok fields =>
    rw [hf] at h
    obtain ⟨kss, hkss, rfl⟩ := Option.map_eq_some_iff.mp h
    obtain ⟨hflat, hsome⟩ := flatten_headerKeys hkss
    exact ⟨by rw [hflat], hsome⟩

theorem bindingMatchAll_eq_false :
    bindingMatchAll env arguments = false ↔ AsksAny env arguments := by
  unfold bindingMatchAll AsksAny fieldsOf
  cases fieldListNew arguments with
  | error e | ok fields => simp

/-! ## Counting -/

theorem countP_mem_eq_sum {messageKeys : List Str} (hnd : keys.Nodup) :
    messageKeys.countP (fun key => decide (key ∈ keys)) =
      (keys.map fun key => messageKeys.count key).sum := by
  induction keys with
  | nil => simp
  | cons key keys ih =>
    obtain ⟨hnot, hnd⟩ := nodup_cons.mp hnd
    rw [map_cons, sum_cons, ← ih hnd]
    clear ih
    induction messageKeys with
    | nil => rfl
    | cons mk mks ih =>
      rw [countP_cons, countP_cons, count_cons, ih]
      by_cases he : mk = key
      · subst he
        simp [hnot]
        omega
      · by_cases hmem : mk ∈ keys
        · simp [he, hmem]
          omega
        · simp [he, hmem]

theorem sum_eq_length_iff (counts : List Nat) (hle : ∀ n ∈ counts, n ≤ 1) :
    counts.sum = counts.length ↔ ∀ n ∈ counts, 0 < n := by
  induction counts with
  | nil => simp
  | cons n ns ih =>
    have hn := hle n mem_cons_self
    have hns := ih fun m hm => hle m (mem_cons_of_mem _ hm)
    have hsum : ns.sum ≤ ns.length := by
      clear ih hns hn
      induction ns with
      | nil => simp
      | cons m ms ih =>
        have hm := hle m (by simp)
        have hms := ih fun k hk => hle k (by
          rcases mem_cons.mp hk with rfl | hk
          · simp
          · simp [hk])
        simp only [sum_cons, length_cons]
        omega
    rw [sum_cons, length_cons, forall_mem_cons, ← hns]
    omega

theorem countP_eq_length_iff {messageKeys : List Str} (hnd : keys.Nodup)
    (hle : ∀ key ∈ keys, messageKeys.count key ≤ 1) :
    messageKeys.countP (fun key => decide (key ∈ keys)) = keys.length ↔
      ∀ key ∈ keys, key ∈ messageKeys := by
  have hsum := sum_eq_length_iff (keys.map fun key => messageKeys.count key) (by
    intro n hn
    obtain ⟨key, hkey, rfl⟩ := mem_map.mp hn
    exact hle key hkey)
  rw [length_map] at hsum
  rw [countP_mem_eq_sum hnd, hsum]
  simp only [mem_map, forall_exists_index, and_imp, forall_apply_eq_imp_iff₂, count_pos_iff]

/-! ## When counting keys is matching fields -/

/--
Keys stand for nothing but the fields they come from.

* `apart` — a field and a header share a key only when the header matches the field
* `not_reserved` — no field has the key that is added to every message
* `once` — where all fields have to match, no key comes up twice, in the binding or in the
  message
-/
structure KeysApart (env : Env) (arguments headers : Option Longstr) : Prop where
  apart : ∀ field ∈ matchFields (fieldsOf arguments), ∀ header ∈ fieldsOf headers,
    fieldKey env field ∈ keysOfHeader env header → FieldMatches env field header
  not_reserved : ∀ field ∈ matchFields (fieldsOf arguments), fieldKey env field ≠ matchAllKey
  once : bindingMatchAll env arguments = true → ((bindingKeys env arguments).getD []).Nodup ∧
      ∀ key ∈ (bindingKeys env arguments).getD [],
        ((keysOfMessage env headers).getD []).count key ≤ 1

theorem fieldKey_mem_keysOfHeader {field header : Field} (h : FieldMatches env field header) :
    fieldKey env field ∈ keysOfHeader env header := by
  obtain ⟨hname, hvalue⟩ := h
  unfold fieldKey keysOfHeader
  by_cases hv : field.value = .void
  · rw [if_pos hv, nameKey_eq, nameKey_eq, hname]
    exact mem_cons_self
  · rw [if_neg hv]
    rcases hvalue with hvoid | ⟨hsome, heq⟩
    · exact absurd hvoid hv
    · obtain ⟨v, hfv⟩ := Option.isSome_iff_exists.mp hsome
      rw [hfv, Option.map_some] at heq
      obtain ⟨w, hhw, htake⟩ := Option.map_eq_some_iff.mp heq.symm
      rw [hfv, hhw, Option.getD_some, Option.getD_some, valueKey_eq, valueKey_eq, hname, htake]
      exact mem_cons_of_mem _ mem_cons_self

theorem fieldKey_mem_iff (hkeys : KeysApart env arguments headers) {field : Field}
    (hf : field ∈ matchFields (fieldsOf arguments)) :
    fieldKey env field ∈ (fieldsOf headers).flatMap (keysOfHeader env) ++ [matchAllKey] ↔
      Present env headers field := by
  rw [mem_append, mem_flatMap, mem_singleton]
  constructor
  · rintro (⟨header, hh, hmem⟩ | hall)
    · exact ⟨header, hh, hkeys.apart field hf header hh hmem⟩
    · exact absurd hall (hkeys.not_reserved field hf)
  · rintro ⟨header, hh, hm⟩
    exact Or.inl ⟨header, hh, fieldKey_mem_keysOfHeader hm⟩

theorem headersRoutes_iff (harguments : (bindingKeys env arguments).isSome)
    (hheaders : (keysOfMessage env headers).isSome) (hkeys : KeysApart env arguments headers) :
    headersRoutes env arguments headers = true ↔ HeadersMatch env arguments headers := by
  obtain ⟨keys, hbk⟩ := Option.isSome_iff_exists.mp harguments
  obtain ⟨messageKeys, hmk⟩ := Option.isSome_iff_exists.mp hheaders
  have hbeq := bindingKeys_eq hbk
  have hmeq := (keysOfMessage_eq hmk).1
  have honce := hkeys.once
  simp only [hbk, hmk, Option.getD_some] at honce
  have hall : (∀ key ∈ keys, key ∈ messageKeys) ↔ matchFields (fieldsOf arguments) = [] ∨
        ∀ field ∈ matchFields (fieldsOf arguments), Present env headers field := by
    by_cases hnil : matchFields (fieldsOf arguments) = []
    · rw [if_pos hnil] at hbeq
      simp [hbeq, hmeq, hnil]
    · rw [if_neg hnil] at hbeq
      rw [hbeq, hmeq]
      simp only [mem_map, forall_exists_index, and_imp, forall_apply_eq_imp_iff₂, hnil, false_or]
      exact forall₂_congr fun field hf => fieldKey_mem_iff hkeys hf
  have hany : (∃ key ∈ messageKeys, key ∈ keys) ↔ matchFields (fieldsOf arguments) = [] ∨
        ∃ field ∈ matchFields (fieldsOf arguments), Present env headers field := by
    by_cases hnil : matchFields (fieldsOf arguments) = []
    · rw [if_pos hnil] at hbeq
      simp [hbeq, hmeq, hnil]
    · rw [if_neg hnil] at hbeq
      rw [hbeq, hmeq]
      simp only [hnil, false_or]
      constructor
      · rintro ⟨key, hmem, hkey⟩
        obtain ⟨field, hf, rfl⟩ := mem_map.mp hkey
        exact ⟨field, hf, (fieldKey_mem_iff hkeys hf).mp hmem⟩
      · rintro ⟨field, hf, hp⟩
        exact ⟨_, (fieldKey_mem_iff hkeys hf).mpr hp, mem_map_of_mem hf⟩
  unfold headersRoutes HeadersMatch
  simp only [hmk, hbk, Option.getD_some]
  by_cases hma : bindingMatchAll env arguments = true
  · have hna : ¬ AsksAny env arguments := by
      rw [← bindingMatchAll_eq_false, hma]
      decide
    obtain ⟨hnd, hle⟩ := honce hma
    rw [if_pos hma, decide_eq_true_iff, countP_eq_length_iff hnd hle, hall]
    simp [hna]
  · have ha : AsksAny env arguments := bindingMatchAll_eq_false.mp (by simpa using hma)
    rw [if_neg hma, decide_eq_true_iff, gt_iff_lt, countP_pos_iff]
    simp only [decide_eq_true_iff, hany, ha, true_and, not_true_eq_false, false_and, or_false]

/-! ### Names without an equals sign -/

theorem append_equals_inj {n m v w : Str} (hn : '=' ∉ n) (hm : '=' ∉ m)
    (h : n ++ '=' :: v = m ++ '=' :: w) : n = m ∧ v = w := by
  induction n generalizing m with
  | nil =>
    cases m with
    | nil => exact ⟨rfl, (cons.inj h).2⟩
    | cons c m => exact absurd ((cons.inj h).1 ▸ mem_cons_self) hm
  | cons c n ih =>
    cases m with
    | nil => exact absurd ((cons.inj h).1 ▸ mem_cons_self) hn
    | cons d m =>
      obtain ⟨rfl, hrest⟩ := cons.inj h
      obtain ⟨rfl, rfl⟩ := ih (fun hc => hn (mem_cons_of_mem _ hc))
        (fun hc => hm (mem_cons_of_mem _ hc)) hrest
      exact ⟨rfl, rfl⟩

/-- Field and header names without `=`, and no field called `*`: keys cannot be confused. -/
structure PlainNames (arguments headers : Option Longstr) : Prop where
  field : ∀ field ∈ matchFields (fieldsOf arguments),
    '=' ∉ field.name.take fieldNameMax ∧ field.name.take fieldNameMax ≠ matchAllKey
  header : ∀ header ∈ fieldsOf headers, '=' ∉ header.name.take fieldNameMax

theorem keysApart_of_plainNames
    (harguments : ∀ field ∈ matchFields (fieldsOf arguments), field.value ≠ .void →
      (env.fieldString field.value).isSome)
    (hheaders : ∀ header ∈ fieldsOf headers, (env.fieldString header.value).isSome)
    (hnames : PlainNames arguments headers)
    (honce : bindingMatchAll env arguments = true → ((bindingKeys env arguments).getD []).Nodup ∧
      ∀ key ∈ (bindingKeys env arguments).getD [],
      ((keysOfMessage env headers).getD []).count key ≤ 1)
    : KeysApart env arguments headers where
  apart field hf header hh hmem := by
    obtain ⟨hfn, -⟩ := hnames.field field hf
    have hhn := hnames.header header hh
    unfold fieldKey keysOfHeader at hmem
    rw [nameKey_eq, nameKey_eq, valueKey_eq, valueKey_eq] at hmem
    by_cases hv : field.value = .void
    · rw [if_pos hv] at hmem
      rcases mem_cons.mp hmem with hname | hmem
      · exact ⟨hname, Or.inl hv⟩
      · rw [mem_singleton] at hmem
        exact absurd (by rw [hmem]; simp) hfn
    · rw [if_neg hv] at hmem
      rcases mem_cons.mp hmem with hname | hmem
      · exact absurd (by rw [← hname]; simp) hhn
      · rw [mem_singleton] at hmem
        obtain ⟨hname, hvalue⟩ := append_equals_inj hfn hhn hmem
        obtain ⟨v, hfv⟩ := Option.isSome_iff_exists.mp (harguments field hf hv)
        obtain ⟨w, hhw⟩ := Option.isSome_iff_exists.mp (hheaders header hh)
        refine ⟨hname, Or.inr ⟨by rw [hfv]; rfl, ?_⟩⟩
        rw [hfv, hhw, Option.getD_some, Option.getD_some] at hvalue
        rw [hfv, hhw, Option.map_some, Option.map_some, hvalue]
  not_reserved field hf := by
    obtain ⟨hfn, hne⟩ := hnames.field field hf
    unfold fieldKey
    split
    · rw [nameKey_eq]
      exact hne
    · rw [valueKey_eq]
      intro he
      have hmem : '=' ∈ matchAllKey := by rw [← he]; simp
      exact absurd hmem (by decide)
  once := honce

/-! ## Deliveries of a headers exchange -/

theorem bindingKeys_isSome_of_route {ops : List ExchangeOp} (hok : RunOk env .headers ops)
    {q : QueueRef} {k : Shortstr} {a : Option Longstr} (h : (q, k, a) ∈ tableOf .headers ops) :
    (bindingKeys env a).isSome := by
  obtain ⟨ex, -, hR⟩ := run_table hok
  obtain ⟨b, hb, -, rfl, -⟩ := (hR.bound _).mp h
  obtain ⟨keys, hkeys, -⟩ := (hR.compiled.headers hR.type_eq).keys b hb
  rw [hkeys]
  rfl

/--
A headers exchange delivers to the queues that are bound with arguments that match.

The condition is that, for every route, index keys stand for nothing but the fields they
come from.
-/
theorem mem_deliveries_headers {env : Env} {ops : List ExchangeOp} {routingKey : Shortstr}
    {headers : Option Longstr} (hok : DeliveryOk env .headers ops routingKey headers)
    (hheaders : (keysOfMessage env headers).isSome)
    (hkeys : ∀ q k a, (q, k, a) ∈ tableOf .headers ops → KeysApart env a headers) :
    ∃ queues, deliveries env .headers ops routingKey headers = some queues ∧ ∀ q, q ∈ queues ↔
        ∃ k a, (q, k, a) ∈ tableOf .headers ops ∧ HeadersMatch env a headers := by
  obtain ⟨queues, hdel, hmem⟩ := mem_deliveries hok
  refine ⟨queues, hdel, fun q => ?_⟩
  rw [hmem]
  refine exists_congr fun k => exists_congr fun a => and_congr_right fun hr => ?_
  exact headersRoutes_iff (bindingKeys_isSome_of_route hok.1 hr) hheaders (hkeys q k a hr)

section Example

def plainEnv : Env where
  pcreMatch _ _ := false
  formatDecimal _ _ := []

/-- The field `a` with the text `1`. -/
def oneField : Longstr := [1, 97, 83, 0, 0, 0, 1, 49]

def boundOnce : List ExchangeOp := [.bind 4096 none ⟨1, false⟩ .empty (some oneField)]

theorem mem_deliveries_headers_boundOnce :
    ∃ queues, deliveries plainEnv .headers boundOnce .empty (some oneField) = some queues ∧
      ∀ q, q ∈ queues ↔ ∃ k a, (q, k, a) ∈ tableOf .headers boundOnce ∧
        HeadersMatch plainEnv a (some oneField) := by
  refine mem_deliveries_headers (by decide +kernel) (by decide +kernel) fun q k a hr => ?_
  have hmem : (q, k, a) ∈ insert ((1 : QueueRef), Shortstr.empty, some oneField)
    (∅ : Set Route) := hr
  rcases hmem with he | he
  · obtain ⟨-, rfl⟩ := Prod.mk.inj (Prod.mk.inj he).2
    exact keysApart_of_plainNames (by decide +kernel) (by decide +kernel)
      ⟨by decide +kernel, by decide +kernel⟩ (by decide +kernel)
  · exact absurd he (Set.notMem_empty _)

def twiceField : Longstr := oneField ++ oneField

def boundTwice : List ExchangeOp := [.bind 4096 none ⟨1, false⟩ .empty (some twiceField)]

/-- Every field of the binding is in the message, but the second one is not counted. -/
theorem headers_repeated_field_missed :
    deliveries plainEnv .headers boundTwice .empty (some oneField) = some [] ∧
      (1, .empty, some twiceField) ∈ tableOf .headers boundTwice ∧
      HeadersMatch plainEnv (some twiceField) (some oneField) := by
  refine ⟨by decide +kernel, ?_, by decide +kernel⟩
  exact Set.mem_insert _ _

end Example

end OpenAmq
