import OpenAmq.Container.Hash

/-!
# The chains of a hash table

* `Stored` — every item of a table is on the chain that its key hashes to
* `Stored.push`, `Stored.sRemove` — an item put into a table, and one taken out
* `Stored.grow` — a table rebuilt in a larger array
-/

namespace OpenAmq

open Lib List Function Option

variable {T A K : Type*} [DecidableEq T] [DecidableEq A] [DecidableEq K]

/-- The chains of all tables. Each item of a table is on exactly one, the one that its key hashes
to, and is counted. -/
structure Stored (keys : KeyType K) (s : HashHeap T A K) (chains : T → Nat → List A) : Prop where
  size : ∀ t, 0 < (s.table t).maxItems
  walk : ∀ t i, i < (s.table t).maxItems → Chain s.next ((s.table t).items i) (chains t i)
  mem : ∀ t i a, a ∈ chains t i ↔
    (s.links a).head = some t ∧ keys.hash (s.links a).key (s.table t).maxItems = i
  nodup : ∀ t i, (chains t i).Nodup
  index : ∀ t a, (s.links a).head = some t →
    (s.links a).index = keys.hash (s.links a).key (s.table t).maxItems
  count : ∀ t, ∃ live : List A, live.Nodup ∧ (∀ a, a ∈ live ↔ (s.links a).head = some t) ∧
    (s.table t).nbrItems = live.length

def MapsTo (s : HashHeap T A K) (m : T → K → Option A) : Prop :=
  ∀ t key item, m t key = some item ↔ (s.links item).head = some t ∧ (s.links item).key = key

variable {keys : KeyType K} {s s' : HashHeap T A K} {chains : T → Nat → List A}
  {m : T → K → Option A} {t : T} {item : A} {key : K}

/-! ## Lookups -/

omit [DecidableEq T] [DecidableEq A] in
theorem Stored.lookup (h : Stored keys s chains) (hm : MapsTo s m) (t : T) (key : K) :
    Settles (fun fuel => s.sLookup keys fuel t key) (m t key) := by
  have hwalk := h.walk t _ (keys.hash_lt key _ (h.size t))
  have hfound : (chains t (keys.hash key (s.table t).maxItems)).find?
      (fun item => (s.links item).key == key) = m t key := by
    cases hfind : find? (fun item => (s.links item).key == key) _ with
    | some a =>
      have hmem := (h.mem t _ a).mp (mem_of_find?_eq_some hfind)
      have hkey := find?_some hfind
      exact ((hm t key a).mpr ⟨hmem.1, beq_iff_eq.mp hkey⟩).symm
    | none =>
      symm
      rw [eq_none_iff_forall_ne_some]
      intro a ha
      obtain ⟨hhead, rfl⟩ := (hm t key a).mp ha
      exact find?_eq_none.mp hfind a ((h.mem t _ a).mpr ⟨hhead, rfl⟩) (beq_iff_eq.mpr rfl)
  rw [← hfound]
  exact hwalk.find_settles _

omit [DecidableEq T] [DecidableEq A] [DecidableEq K] in
theorem Stored.disjoint (h : Stored keys s chains) {i j : Nat} (hne : i ≠ j) :
    List.Disjoint (chains t i) (chains t j) := by
  intro a hi hj
  exact hne (((h.mem t i a).mp hi).2.symm.trans ((h.mem t j a).mp hj).2)

/-! ## Visits -/

/-- All items of a table, in the order of its chains from this index on -/
def itemsFrom (chains : Nat → List A) (index n : Nat) : List A :=
  (range' index n).flatMap chains

omit [DecidableEq T] [DecidableEq A] [DecidableEq K] in
theorem Stored.nodup_itemsFrom (h : Stored keys s chains) (index n : Nat) :
    (itemsFrom (chains t) index n).Nodup := by
  refine nodup_flatMap.mpr ⟨fun i _ => h.nodup t i, ?_⟩
  exact (nodup_range' ..).imp fun hne => h.disjoint hne

omit [DecidableEq T] [DecidableEq A] [DecidableEq K] in
theorem Stored.mem_itemsFrom (h : Stored keys s chains) {a : A} :
    a ∈ itemsFrom (chains t) 0 (s.table t).maxItems ↔ (s.links a).head = some t := by
  simp only [itemsFrom, mem_flatMap, h.mem]
  constructor
  · intro ⟨_, _, hhead, _⟩
    exact hhead
  · intro hhead
    refine ⟨_, ?_, hhead, rfl⟩
    simpa using keys.hash_lt _ _ (h.size t)

omit [DecidableEq T] [DecidableEq A] [DecidableEq K] in
theorem Stored.apply (h : Stored keys s chains) (t : T) :
    Settles (fun fuel => s.apply fuel t) (itemsFrom (chains t) 0 (s.table t).maxItems) := by
  have hfrom : ∀ n pos, pos + n = (s.table t).maxItems →
      Settles (fun fuel => s.applyFrom (s.table t) fuel pos) (itemsFrom (chains t) pos n) := by
    intro n
    induction n with
    | zero =>
      intro pos hpos
      refine .of_add 1 fun fuel => ?_
      rw [HashHeap.applyFrom, if_pos (by omega)]
      rfl
    | succ n ih =>
      intro pos hpos
      have hhere := (h.walk t pos (by omega)).collect_settles
      have hrest := (ih (pos + 1) (by omega)).map fun items => chains t pos ++ items
      have hall : itemsFrom (chains t) pos (n + 1) =
          chains t pos ++ itemsFrom (chains t) (pos + 1) n := by
        rfl
      refine (hhere.bind (g := fun fuel items =>
        (s.applyFrom (s.table t) fuel (pos + 1)).map (items ++ ·)) hrest).succ fun fuel => ?_
      rw [HashHeap.applyFrom, if_neg (by omega)]
  exact hfrom _ 0 (Nat.zero_add _)

/-! ## An item more -/

omit [DecidableEq T] [DecidableEq A] [DecidableEq K] in
theorem Stored.not_mem (h : Stored keys s chains) (hnone : (s.links item).head = none) (t : T)
    (i : Nat) : item ∉ chains t i := by
  intro hmem
  rw [h.mem, hnone] at hmem
  cases hmem.1

omit [DecidableEq K] in
theorem Stored.push (h : Stored keys s chains) (hnone : (s.links item).head = none)
    (hfits : keys.Fits key) :
    (∃ chains', Stored keys (s.push keys t item key) chains') ∧
      ((s.push keys t item key).links item).head = some t ∧
      ((s.push keys t item key).links item).key = key ∧
      ∀ a, a ≠ item → (s.push keys t item key).links a = s.links a := by
  have hindex := keys.hash_lt key _ (h.size t)
  generalize hi0 : keys.hash key (s.table t).maxItems = i0 at hindex
  have hitem : (s.push keys t item key).links item = ⟨some t, (s.table t).items i0, i0, key⟩ := by
    have hset : (s.push keys t item key).links item =
      ⟨some t, (s.table t).items _, _, keys.copy key⟩ :=
      update_self ..
    rw [hset, keys.copy_eq key hfits, hi0]
  have hothers : ∀ a, a ≠ item → (s.push keys t item key).links a = s.links a :=
    fun a ha => update_of_ne ha ..
  have htable : (s.push keys t item key).table t = { s.table t with
      items := update (s.table t).items i0 (some item)
      nbrItems := (s.table t).nbrItems + 1 } := by
    rw [← hi0]
    exact update_self ..
  have htables : ∀ t', t' ≠ t → (s.push keys t item key).table t' = s.table t' :=
    fun t' ht => update_of_ne ht ..
  have hnext : ∀ t' i, ∀ a ∈ chains t' i, (s.push keys t item key).next a = s.next a := by
    intro t' i a ha
    have hne : a ≠ item := by
      rintro rfl
      exact h.not_mem hnone t' i ha
    rw [HashHeap.next, hothers a hne]
    rfl
  generalize s.push keys t item key = s' at hitem hothers htable htables hnext ⊢
  have hmax : ∀ t', (s'.table t').maxItems = (s.table t').maxItems := by
    intro t'
    by_cases ht : t' = t
    · rw [ht, htable]
    · rw [htables t' ht]
  refine ⟨⟨fun t' i => if t' = t ∧ i = i0 then item :: chains t' i
    else chains t' i, ?_⟩, by rw [hitem],
    by rw [hitem], hothers⟩
  constructor
  · intro t'
    rw [hmax]
    exact h.size t'
  · intro t' i hi
    rw [hmax] at hi
    have hwalk := (h.walk t' i hi).congr (hnext t' i)
    split
    · next heq =>
      obtain ⟨rfl, rfl⟩ := heq
      rw [htable]
      refine ⟨update_self .., ?_⟩
      rw [HashHeap.next, hitem]
      exact hwalk
    · next hne =>
      by_cases ht : t' = t
      · subst ht
        rw [htable]
        show Chain s'.next (update (s.table t').items i0 (some item) i) (chains t' i)
        rw [update_of_ne fun hi => hne ⟨rfl, hi⟩]
        exact hwalk
      · rw [htables t' ht]
        exact hwalk
  · intro t' i a
    rw [hmax]
    by_cases ha : a = item
    · subst ha
      have hnot := h.not_mem hnone t' i
      rw [hitem, some.injEq]
      split
      · next heq => simp [heq.1, heq.2, hi0]
      · next hne =>
        refine iff_of_false hnot fun hboth => hne ⟨hboth.1.symm, ?_⟩
        rw [← hboth.2, ← hboth.1, hi0]
    · rw [hothers a ha, ← h.mem]
      split
      · exact mem_cons.trans (or_iff_right ha)
      · rfl
  · intro t' i
    split
    · exact nodup_cons.mpr ⟨h.not_mem hnone t' i, h.nodup t' i⟩
    · exact h.nodup t' i
  · intro t' a hhead
    rw [hmax]
    by_cases ha : a = item
    · subst ha
      rw [hitem] at hhead ⊢
      rw [← some.inj hhead, hi0]
    · rw [hothers a ha] at hhead ⊢
      exact h.index t' a hhead
  · intro t'
    obtain ⟨live, hnodup, hlive, hcount⟩ := h.count t'
    by_cases ht : t' = t
    · subst ht
      refine ⟨item :: live, nodup_cons.mpr ⟨?_, hnodup⟩, fun a => ?_, ?_⟩
      · rw [hlive, hnone]
        exact nofun
      · rw [mem_cons]
        by_cases ha : a = item
        · simp [ha, hitem]
        · rw [hothers a ha, hlive]
          exact or_iff_right ha
      · rw [htable, length_cons, ← hcount]
    · refine ⟨live, hnodup, fun a => ?_, by rw [htables t' ht, hcount]⟩
      rw [hlive]
      by_cases ha : a = item
      · subst ha
        rw [hitem, hnone]
        exact iff_of_false nofun fun hsome => ht (some.inj hsome).symm
      · rw [hothers a ha]

/-! ## An item less -/

/-- All but the next item is the same. -/
def HashLinks.SameBut (links links' : HashLinks T A K) : Prop :=
  links'.head = links.head ∧ links'.index = links.index ∧ links'.key = links.key

/-- An item has been taken out of the chain `i` of its table. -/
structure Unhooked (keys : KeyType K) (s s' : HashHeap T A K) (t : T) (item : A) (i : Nat)
    (before after : List A) : Prop where
  self : s'.links item = ⟨none, none, 0, keys.destroyed⟩
  others : ∀ a, a ≠ item → (s.links a).SameBut (s'.links a)
  next : ∀ a, a ≠ item → a ∉ before → s'.next a = s.next a
  tables : ∀ t', t' ≠ t → s'.table t' = s.table t'
  max : (s'.table t).maxItems = (s.table t).maxItems
  nbr : (s'.table t).nbrItems = (s.table t).nbrItems - 1
  items : ∀ j, j ≠ i → (s'.table t).items j = (s.table t).items j
  walk : Chain s'.next ((s'.table t).items i) (before ++ after)

omit [DecidableEq T] [DecidableEq K] in
/-- The fields of the item are cleared, once the chain does not lead to it any more. -/
theorem unhooked_clear {i : Nat} {before after : List A} (s1 : HashHeap T A K)
    (hothers : ∀ a, (s.links a).SameBut (s1.links a))
    (hnext : ∀ a, a ∉ before → s1.next a = s.next a)
    (htables : ∀ t', t' ≠ t → s1.table t' = s.table t')
    (hmax : (s1.table t).maxItems = (s.table t).maxItems)
    (hnbr : (s1.table t).nbrItems = (s.table t).nbrItems - 1)
    (hitems : ∀ j, j ≠ i → (s1.table t).items j = (s.table t).items j)
    (hwalk : Chain s1.next ((s1.table t).items i) (before ++ after))
    (hnot : item ∉ before ++ after) :
    Unhooked keys s (s1.setLinks item ⟨none, none, 0, keys.destroyed⟩) t item i before after := by
  have hsame : ∀ a, a ≠ item →
      (s1.setLinks item ⟨none, none, 0, keys.destroyed⟩).links a = s1.links a :=
    fun a ha => update_of_ne ha ..
  have hsameNext : ∀ a, a ≠ item →
      (s1.setLinks item ⟨none, none, 0, keys.destroyed⟩).next a = s1.next a := by
    intro a ha
    rw [HashHeap.next, hsame a ha, HashHeap.next]
  refine ⟨update_self .., fun a ha => ?_, fun a ha hbefore => ?_, htables, hmax, hnbr, hitems, ?_⟩
  · rw [hsame a ha]
    exact hothers a
  · rw [hsameNext a ha, hnext a hbefore]
  · refine hwalk.congr fun a ha => hsameNext a ?_
    rintro rfl
    exact hnot ha

omit [DecidableEq K] in
theorem Stored.unhook (h : Stored keys s chains) (hhead : (s.links item).head = some t) :
    ∃ s' before after, Settles (fun fuel => s.sRemove keys fuel item) s' ∧
      chains t (s.links item).index = before ++ item :: after ∧
      Unhooked keys s s' t item (s.links item).index before after := by
  have hindex := h.index t item hhead
  have hwalk := h.walk t _ (keys.hash_lt (s.links item).key _ (h.size t))
  have hnodup := h.nodup t (keys.hash (s.links item).key (s.table t).maxItems)
  have hmem := (h.mem t _ item).mpr ⟨hhead, rfl⟩
  rw [← hindex] at hwalk hnodup hmem
  obtain ⟨before, after, hchain⟩ := append_of_mem hmem
  rw [hchain] at hwalk hnodup
  have hnot : item ∉ before ++ after := (nodup_cons.mp (nodup_middle.mp hnodup)).1
  have hbefore : ∀ b ∈ before, (b == item) = false := by
    intro b hb
    refine beq_eq_false_iff_ne.mpr ?_
    rintro rfl
    exact hnot (mem_append_left _ hb)
  obtain ⟨n, hn⟩ := hwalk.seek_settles hbefore (beq_self_eq_true item) none
  rw [or_none] at hn
  cases hlast : before.getLast? with
  | none =>
    -- the item is the first of its chain
    obtain rfl := getLast?_eq_none_iff.mp hlast
    generalize hs1 : s.setTable t { s.table t with
      items := update (s.table t).items (s.links item).index (s.next item)
      nbrItems := (s.table t).nbrItems - 1 } = s1
    have hlinks : s1.links = s.links := by
      rw [← hs1]
      rfl
    have hnext : s1.next = s.next := by
      funext a
      rw [HashHeap.next, hlinks, HashHeap.next]
    have htable : s1.table t = { s.table t with
        items := update (s.table t).items (s.links item).index (s.next item)
        nbrItems := (s.table t).nbrItems - 1 } := by
      rw [← hs1]
      exact update_self ..
    refine ⟨_, [], after, ⟨n, fun fuel hfuel => ?_⟩, hchain, unhooked_clear s1
      (fun a => ?_) (fun a _ => by rw [hnext]) (fun t' ht => ?_) (by rw [htable]) (by rw [htable])
      (fun j hj => ?_) ?_ hnot⟩
    · simp only [HashHeap.sRemove, hhead, hn fuel hfuel, hlast, bind_some, if_true]
      rw [← hs1]
    · rw [hlinks]
      exact ⟨rfl, rfl, rfl⟩
    · rw [← hs1]
      exact update_of_ne ht ..
    · rw [htable]
      exact update_of_ne hj ..
    · rw [hnext, htable]
      show Chain s.next (update (s.table t).items _ _ _) _
      rw [update_self]
      exact hwalk.2
  | some prev =>
    generalize hs1 : (s.setLinks prev { s.links prev with next := s.next item }).setTable t
      { s.table t with nbrItems := (s.table t).nbrItems - 1 } = s1
    have hlinks : s1.links = update s.links prev { s.links prev with next := s.next item } := by
      rw [← hs1]
      rfl
    have hnext : s1.next = update s.next prev (s.next item) := by
      funext a
      rw [HashHeap.next, hlinks]
      by_cases ha : a = prev
      · rw [ha, update_self, update_self]
      · rw [update_of_ne ha, update_of_ne ha, HashHeap.next]
    have htable : s1.table t = { s.table t with nbrItems := (s.table t).nbrItems - 1 } := by
      rw [← hs1]
      exact update_self ..
    refine ⟨_, before, after, ⟨n, fun fuel hfuel => ?_⟩, hchain, unhooked_clear s1
      (fun a => ?_) (fun a ha => ?_) (fun t' ht => ?_) (by rw [htable]) (by rw [htable])
      (fun _ _ => by rw [htable]) ?_ hnot⟩
    · simp only [HashHeap.sRemove, hhead, hn fuel hfuel, hlast, bind_some, if_true]
      rw [← hs1]
    · rw [hlinks]
      by_cases ha : a = prev
      · rw [ha, update_self]
        exact ⟨rfl, rfl, rfl⟩
      · rw [update_of_ne ha]
        exact ⟨rfl, rfl, rfl⟩
    · rw [hnext, update_of_ne]
      rintro rfl
      exact ha (mem_of_getLast? hlast)
    · rw [← hs1]
      exact update_of_ne ht ..
    · rw [hnext, htable]
      exact hwalk.unlink hnodup hlast

omit [DecidableEq K] in
/-- An item that is stored is taken out of its chain, and nothing else changes. -/
theorem Stored.sRemove (h : Stored keys s chains) (hhead : (s.links item).head = some t) :
    ∃ s' chains', Settles (fun fuel => s.sRemove keys fuel item) s' ∧ Stored keys s' chains' ∧
      (s'.links item).head = none ∧ (∀ a, a ≠ item → (s.links a).SameBut (s'.links a)) ∧
      (∀ t', (s'.table t').maxItems = (s.table t').maxItems) ∧
      (s'.table t).nbrItems = (s.table t).nbrItems - 1 := by
  obtain ⟨s', before, after, hsettles, hchain, hu⟩ := h.unhook hhead
  have hindex := h.index t item hhead
  generalize hi0 : (s.links item).index = i0 at hchain hindex hu
  have hmax : ∀ t', (s'.table t').maxItems = (s.table t').maxItems := by
    intro t'
    by_cases ht : t' = t
    · rw [ht, hu.max]
    · rw [hu.tables t' ht]
  have hnone : (s'.links item).head = none := by rw [hu.self]
  have hnodup := h.nodup t i0
  rw [hchain] at hnodup
  refine ⟨s', fun t' i => if t' = t ∧ i = i0 then before ++ after else chains t' i, hsettles, ?_,
    hnone, hu.others, hmax, hu.nbr⟩
  -- on the other chains nothing has changed
  have hkept : ∀ t' i, ¬(t' = t ∧ i = i0) → ∀ a ∈ chains t' i, s'.next a = s.next a := by
    intro t' i hne a ha
    have hplace := (h.mem t' i a).mp ha
    have hapart : a ∉ chains t i0 := by
      intro ha'
      have hplace' := (h.mem t i0 a).mp ha'
      obtain rfl := some.inj (hplace.1.symm.trans hplace'.1)
      exact hne ⟨rfl, hplace.2.symm.trans hplace'.2⟩
    rw [hchain] at hapart
    refine hu.next a ?_ fun hb => hapart (mem_append_left _ hb)
    rintro rfl
    exact hapart (mem_append_right _ mem_cons_self)
  constructor
  · intro t'
    rw [hmax]
    exact h.size t'
  · intro t' i hi
    rw [hmax] at hi
    split
    · next heq =>
      obtain ⟨rfl, rfl⟩ := heq
      exact hu.walk
    · next hne =>
      have hitems : (s'.table t').items i = (s.table t').items i := by
        by_cases ht : t' = t
        · subst ht
          exact hu.items i fun hi => hne ⟨rfl, hi⟩
        · rw [hu.tables t' ht]
      rw [hitems]
      exact (h.walk t' i hi).congr (hkept t' i hne)
  · intro t' i a
    rw [hmax]
    by_cases ha : a = item
    · subst ha
      rw [hnone]
      refine iff_of_false ?_ nofun
      split
      · exact (nodup_cons.mp (nodup_middle.mp hnodup)).1
      · next hne =>
        intro hmem
        have hplace := (h.mem t' i a).mp hmem
        obtain rfl := some.inj (hplace.1.symm.trans hhead)
        exact hne ⟨rfl, hplace.2.symm.trans hindex.symm⟩
    · obtain ⟨hhead', -, hkey'⟩ := hu.others a ha
      rw [hhead', hkey', ← h.mem]
      split
      · next heq =>
        rw [heq.1, heq.2, hchain]
        simp [ha]
      · rfl
  · intro t' i
    split
    · exact (nodup_cons.mp (nodup_middle.mp hnodup)).2
    · exact h.nodup t' i
  · intro t' a hhead'
    rw [hmax]
    have ha : a ≠ item := by
      rintro rfl
      rw [hnone] at hhead'
      cases hhead'
    obtain ⟨hhead1, hindex1, hkey1⟩ := hu.others a ha
    rw [hindex1, hkey1]
    exact h.index t' a (hhead1 ▸ hhead')
  · intro t'
    obtain ⟨live, hlive, hmem, hcount⟩ := h.count t'
    by_cases ht : t' = t
    · subst ht
      have hitem := (hmem item).mpr hhead
      refine ⟨live.erase item, hlive.erase item, fun a => ?_, ?_⟩
      · rw [hlive.mem_erase_iff]
        by_cases ha : a = item
        · subst ha
          exact iff_of_false (fun hboth => hboth.1 rfl) (by rw [hnone]; exact nofun)
        · rw [(hu.others a ha).1, hmem]
          exact and_iff_right ha
      · rw [hu.nbr, length_erase_of_mem hitem, hcount]
    · refine ⟨live, hlive, fun a => ?_, by rw [hu.tables t' ht, hcount]⟩
      rw [hmem]
      by_cases ha : a = item
      · subst ha
        rw [hhead, hnone]
        exact iff_of_false (fun hsame => ht (some.inj hsame).symm) nofun
      · rw [(hu.others a ha).1]

end OpenAmq
