import OpenAmq.Container.HashGrow
import OpenAmq.Lib.Run

/-!
# Runs of hash tables

* `HashOp.effect` — what it does to the tables as maps
* `HashMaps` — the chains hold the items of these maps
* `hash_maps_iff` — when the tables are maps after every call
-/

namespace OpenAmq

open Lib Function Option HashType List

variable {T A K : Type*}

/-! ## Methods -/

inductive HashOp (T A K : Type*) where
  | insert (t : T) (key : K) (item : A)
  | remove (item : A)
  | search (t : T) (key : K)
  | apply (t : T)

/-- What a method returns, or the items that it visits -/
inductive HashOut (A : Type*) where
  | rc (rc : Int)
  | found (item : Option A)
  | visited (items : List A)

/-- What a method should return, or the table that it should visit -/
inductive MapOut (T A : Type*) where
  | rc (rc : Int)
  | found (item : Option A)
  | visits (t : T)

section Ops

variable [DecidableEq T] [DecidableEq A] [DecidableEq K]

def HashHeap.callWith (keys : KeyType K) (cls : HashClass) (fuel : Nat) (s : HashHeap T A K) :
    HashOp T A K → Option (HashHeap T A K × HashOut A)
  | .insert t key item => (s.insert keys cls fuel t key item).map fun (s, rc) => (s, .rc rc)
  | .remove item => (s.remove keys fuel item).map (·, .rc 0)
  | .search t key => (s.search keys fuel t key).map (s, .found ·)
  | .apply t => (s.apply fuel t).map (s, .visited ·)

/-- A method, if it returns -/
noncomputable def HashHeap.call (keys : KeyType K) (cls : HashClass)
    (s : HashHeap T A K × HashOut A)
    (op : HashOp T A K) : Option (HashHeap T A K × HashOut A) :=
  limit fun fuel => s.1.callWith keys cls fuel op

/-- The maps without an item -/
def forget (m : T → K → Option A) (item : A) (t : T) (key : K) : Option A :=
  if m t key = some item then none else m t key

def put (m : T → K → Option A) (t : T) (key : K) (item : A) : T → K → Option A :=
  update m t (update (m t) key (some item))

/-- A key that another item has is refused. -/
def HashOp.effect (m : T → K → Option A) : HashOp T A K → (T → K → Option A) × MapOut T A
  | .insert t key item =>
    if m t key = none ∨ m t key = some item then (put (forget m item) t key item, .rc 0)
    else (m, .rc (-1))
  | .remove item => (forget m item, .rc 0)
  | .search t key => (m, .found (m t key))
  | .apply t => (m, .visits t)

end Ops

def Mapped (m : T → K → Option A) (t : T) (item : A) : Prop := ∃ key, m t key = some item

def HashOut.Agrees (m : T → K → Option A) : HashOut A → MapOut T A → Prop
  | .rc a, .rc b => a = b
  | .found a, .found b => a = b
  | .visited items, .visits t => items.Nodup ∧ ∀ item, item ∈ items ↔ Mapped m t item
  | _, _ => False

/-- The live items are on the chains that their keys hash to, and nowhere else, and they are
counted. -/
structure HashMaps (keys : KeyType K) (s : HashHeap T A K × HashOut A)
    (m : (T → K → Option A) × MapOut T A) : Prop where
  chains : ∀ t, ∃ chains : Nat → List A, ∀ i, i < (s.1.table t).maxItems →
    Chain s.1.next ((s.1.table t).items i) (chains i) ∧ (chains i).Nodup ∧
    ∀ item, item ∈ chains i ↔
      ∃ key, m.1 t key = some item ∧ keys.hash key (s.1.table t).maxItems = i
  count : ∀ t, ∃ live : List A, live.Nodup ∧ (∀ item, item ∈ live ↔ Mapped m.1 t item) ∧
    (s.1.table t).nbrItems = live.length
  out : s.2.Agrees m.1 m.2

/-- The key fits, and the item is in no other table. -/
def HashHeap.Legal (keys : KeyType K) (s : HashHeap T A K) : HashOp T A K → Prop
  | .insert t key item => keys.Fits key ∧ ∀ head, (s.links item).head = some head → head = t
  | .remove _ | .search _ _ | .apply _ => True

/-- No item is under a key that is not looked up. An item that is in a table already is inserted
only where the class has no links and no other item has the key, and no table has to grow when its
size has come to 32 bits. -/
def HashHeap.Sound (keys : KeyType K) (cls : HashClass) (s : HashHeap T A K) : HashOp T A K → Prop
  | .insert t key item =>
    if (s.links item).head = none then HashHeap.GrowOk cls (s.table t)
    else
      cls.linkToChild = false ∧
      (∀ other, other ≠ item → (s.links other).head = some t → (s.links other).key ≠ key) ∧
      HashHeap.GrowOk cls { s.table t with nbrItems := (s.table t).nbrItems - 1 }
  | .search t key =>
    keys.given key = true ∨ ∀ item, (s.links item).head = some t → (s.links item).key ≠ key
  | .remove _ | .apply _ => True

theorem HashHeap.sound_insert {keys : KeyType K} {cls : HashClass} {s : HashHeap T A K} {t : T}
    {key : K} {item : A} (hnone : (s.links item).head = none)
    (hgrow : HashHeap.GrowOk cls (s.table t)) : s.Sound keys cls (.insert t key item) := by
  simp only [HashHeap.Sound, hnone, if_true]
  exact hgrow

/-! ## The tables as maps -/

variable [DecidableEq T] [DecidableEq A] [DecidableEq K] {keys : KeyType K} {cls : HashClass}
  {s s' : HashHeap T A K} {chains : T → Nat → List A} {m : T → K → Option A} {t : T} {item : A}
  {key : K}

omit [DecidableEq T] [DecidableEq A] [DecidableEq K] in
theorem MapsTo.live_iff (hm : MapsTo s m) : Mapped m t item ↔ (s.links item).head = some t := by
  constructor
  · intro ⟨key, hkey⟩
    exact ((hm t key item).mp hkey).1
  · intro hhead
    exact ⟨_, (hm t _ item).mpr ⟨hhead, rfl⟩⟩

omit [DecidableEq T] [DecidableEq A] [DecidableEq K] in
theorem MapsTo.congr (hm : MapsTo s m) (hsame : ∀ a, (s'.links a).head = (s.links a).head ∧
    (s'.links a).key = (s.links a).key) : MapsTo s' m := by
  intro t key a
  rw [(hsame a).1, (hsame a).2]
  exact hm t key a

omit [DecidableEq T] [DecidableEq K] in
theorem MapsTo.of_remove (hm : MapsTo s m) (hnone : (s'.links item).head = none)
    (hothers : ∀ a, a ≠ item → (s.links a).SameBut (s'.links a)) :
    MapsTo s' (forget m item) := by
  intro t key a
  unfold forget
  by_cases ha : a = item
  · subst ha
    rw [hnone]
    refine iff_of_false (fun h => ?_) nofun
    split at h
    · cases h
    · next hne => exact hne h
  · rw [(hothers a ha).1, (hothers a ha).2.2, ← hm t key a]
    split
    · next heq =>
      rw [heq, some.injEq]
      exact iff_of_false nofun fun hitem => ha hitem.symm
    · rfl

omit [DecidableEq A] in
theorem MapsTo.of_push (hm : MapsTo s m) (hnone : (s.links item).head = none)
    (hfree : m t key = none) (hhead : (s'.links item).head = some t)
    (hkey : (s'.links item).key = key) (hothers : ∀ a, a ≠ item → s'.links a = s.links a) :
    MapsTo s' (put m t key item) := by
  intro t' key' a
  have hput : put m t key item t' key' =
      if t' = t ∧ key' = key then some item else m t' key' := by
    unfold put
    by_cases ht : t' = t
    · subst ht
      rw [update_self, update_apply]
      simp
    · rw [update_of_ne ht, if_neg fun h => ht h.1]
  rw [hput]
  by_cases ha : a = item
  · subst ha
    rw [hhead, hkey]
    split
    · next heq => simp [heq.1, heq.2]
    · next hne =>
      refine iff_of_false (fun h => ?_) fun h => hne ⟨(some.inj h.1).symm, h.2.symm⟩
      rw [hm, hnone] at h
      cases h.1
  · rw [hothers a ha, ← hm]
    split
    · next heq =>
      rw [heq.1, heq.2, hfree, some.injEq]
      exact iff_of_false (Ne.symm ha) nofun
    · rfl

omit [DecidableEq T] [DecidableEq K] in
theorem MapsTo.forget_eq (hm : MapsTo s m) (hnone : (s.links item).head = none) :
    forget m item = m := by
  funext t key
  refine if_neg fun h => ?_
  rw [hm, hnone] at h
  cases h.1

omit [DecidableEq T] [DecidableEq K] in
theorem MapsTo.head_of_forget {m : T → K → Option A} (item : A) (hm : MapsTo s (forget m item)) :
    (s.links item).head = none := by
  rw [eq_none_iff_forall_ne_some]
  intro t hhead
  have hitem := (hm t _ item).mpr ⟨hhead, rfl⟩
  unfold forget at hitem
  split at hitem
  · cases hitem
  · next hne => exact hne hitem

/-! ## What a table function does to the maps -/

/-- An item that is in no table is put under a key that is free. -/
def store (m : T → K → Option A) (t : T) (key : K) (item : A) : (T → K → Option A) × Int :=
  if m t key = none then (put m t key item, 0) else (m, -1)

theorem Stored.sInsert (h : Stored keys s chains) (hm : MapsTo s m)
    (hnone : (s.links item).head = none) (hfits : keys.Fits key)
    (hgrow : HashHeap.GrowOk cls (s.table t)) :
    ∃ s' chains',
      Settles (fun fuel => s.sInsert keys cls fuel t (some item) key) (s', (store m t key item).2) ∧
      Stored keys s' chains' ∧ MapsTo s' (store m t key item).1 := by
  obtain ⟨s1, chains1, hsettles, h1, hsame⟩ := h.grow hgrow
  have hm1 := hm.congr hsame
  have hlookup := h1.lookup hm1 t key
  unfold store
  cases hkey : m t key with
  | none =>
    rw [hkey] at hlookup
    have hnone1 := (hsame item).1.trans hnone
    obtain ⟨⟨chains', h'⟩, hhead, hkey', hothers⟩ := h1.push (t := t) hnone1 hfits
    refine ⟨_, chains', ?_, h', hm1.of_push hnone1 hkey hhead hkey' hothers⟩
    refine hsettles.bind ?_
    exact hlookup.bind (.of_forall fun _ => rfl)
  | some other =>
    rw [hkey] at hlookup
    refine ⟨s1, chains1, ?_, h1, hm1⟩
    refine hsettles.bind ?_
    exact hlookup.bind (.of_forall fun _ => rfl)

theorem MapsTo.effect_insert (hm : MapsTo s m) (hnone : (s.links item).head = none) :
    HashOp.effect m (.insert t key item) =
      ((store m t key item).1, .rc (store m t key item).2) := by
  have hnot : m t key ≠ some item := by
    intro h
    rw [hm, hnone] at h
    cases h.1
  simp only [HashOp.effect, store, hm.forget_eq hnone, or_iff_left hnot]
  split <;> rfl

theorem MapsTo.effect_reinsert (hm : MapsTo s m)
    (hfree : ∀ other, other ≠ item → (s.links other).head = some t → (s.links other).key ≠ key) :
    HashOp.effect m (.insert t key item) = ((store (forget m item) t key item).1,
      .rc (store (forget m item) t key item).2) := by
  have hheld : m t key = none ∨ m t key = some item := by
    cases hkey : m t key with
    | none => exact .inl rfl
    | some other =>
      obtain ⟨hhead, hsame⟩ := (hm t key other).mp hkey
      by_contra hne
      refine hfree other (fun heq => hne (.inr ?_)) hhead hsame
      rw [heq]
  have hnone : forget m item t key = none := by
    unfold forget
    rcases hheld with h | h <;> simp [h]
  simp only [HashOp.effect, store, if_pos hheld, if_pos hnone]

omit [DecidableEq K] in
theorem Stored.remove (h : Stored keys s chains) (hm : MapsTo s m) (item : A) :
    ∃ s' chains', Settles (fun fuel => s.remove keys fuel item) s' ∧ Stored keys s' chains' ∧
      MapsTo s' (forget m item) := by
  cases hhead : (s.links item).head with
  | none =>
    refine ⟨s, chains, .of_forall fun _ => ?_, h, ?_⟩
    · simp only [HashHeap.remove, hhead]
    · rwa [hm.forget_eq hhead]
  | some t =>
    obtain ⟨s', chains', hsettles, h', hnone, hothers, -, -⟩ := h.sRemove hhead
    refine ⟨s', chains', ?_, h', hm.of_remove hnone hothers⟩
    obtain ⟨n, hn⟩ := hsettles
    refine ⟨n, fun fuel hfuel => ?_⟩
    simp only [HashHeap.remove, hhead]
    exact hn fuel hfuel

theorem Stored.reinsert (h : Stored keys s chains) (hm : MapsTo s m)
    (hhead : (s.links item).head = some t) (hfits : keys.Fits key) (hlink : cls.linkToChild = false)
    (hgrow : HashHeap.GrowOk cls { s.table t with nbrItems := (s.table t).nbrItems - 1 }) :
    ∃ s' chains', Settles (fun fuel => s.insert keys cls fuel t key item)
        (s', (store (forget m item) t key item).2) ∧
      Stored keys s' chains' ∧ MapsTo s' (store (forget m item) t key item).1 := by
  obtain ⟨s1, chains1, hsettles1, h1, hnone, hothers, hmax, hnbr⟩ := h.sRemove hhead
  have hgrow1 : HashHeap.GrowOk cls (s1.table t) := by
    unfold HashHeap.GrowOk HashHeap.Overloaded at hgrow ⊢
    rw [hmax, hnbr]
    exact hgrow
  obtain ⟨s', chains', hsettles, h', hm'⟩ :=
    h1.sInsert (hm.of_remove hnone hothers) hnone hfits hgrow1
  refine ⟨s', chains', ?_, h', hm'⟩
  obtain ⟨n, hn⟩ := hsettles1.bind
    (g := fun fuel s => s.sInsert keys cls fuel t (some item) key) hsettles
  refine ⟨n, fun fuel hfuel => ?_⟩
  simp only [HashHeap.insert, hhead, ne_eq, not_true_eq_false, if_false, hlink, Bool.false_eq_true]
  exact hn fuel hfuel

/-! ## A step -/

variable {out : HashOut A}

omit [DecidableEq T] [DecidableEq A] [DecidableEq K] in
theorem Stored.hashMaps {out' : MapOut T A} (h : Stored keys s chains) (hm : MapsTo s m)
    (hout : out.Agrees m out') : HashMaps keys (s, out) (m, out') where
  chains t := by
    refine ⟨chains t, fun i hi => ⟨h.walk t i hi, h.nodup t i, fun item => ?_⟩⟩
    rw [h.mem]
    constructor
    · intro ⟨hhead, hhash⟩
      exact ⟨_, (hm t _ item).mpr ⟨hhead, rfl⟩, hhash⟩
    · rintro ⟨key, hkey, hhash⟩
      obtain ⟨hhead, rfl⟩ := (hm t key item).mp hkey
      exact ⟨hhead, hhash⟩
  count t := by
    obtain ⟨live, hnodup, hlive, hcount⟩ := h.count t
    exact ⟨live, hnodup, fun item => (hlive item).trans hm.live_iff.symm, hcount⟩
  out := hout

/-- A sound call answers as the map does, and keeps the table stored. -/
theorem Stored.call (h : Stored keys s chains) (hm : MapsTo s m) {op : HashOp T A K}
    (hlegal : s.Legal keys op) (hsound : s.Sound keys cls op) :
    ∃ s' out' chains', HashHeap.call keys cls (s, out) op = some (s', out') ∧
      Stored keys s' chains' ∧ MapsTo s' (op.effect m).1 ∧
      out'.Agrees (op.effect m).1 (op.effect m).2 := by
  cases op with
  | insert t key item =>
    obtain ⟨hfits, hhome⟩ := hlegal
    cases hhead : (s.links item).head with
    | none =>
      simp only [HashHeap.Sound, hhead, if_true] at hsound
      obtain ⟨s', chains', hsettles, h', hm'⟩ := h.sInsert hm hhead hfits hsound
      rw [hm.effect_insert hhead]
      refine ⟨s', .rc (store m t key item).2, chains', limit_eq_some.mpr ?_, h', hm', rfl⟩
      obtain ⟨n, hn⟩ := hsettles
      refine ⟨n, fun fuel hfuel => ?_⟩
      simp only [HashHeap.callWith, HashHeap.insert, hhead, hn fuel hfuel, map_some]
    | some head =>
      obtain rfl := hhome head hhead
      simp only [HashHeap.Sound, hhead, reduceCtorEq, if_false] at hsound
      obtain ⟨hlink, hfree, hgrow⟩ := hsound
      obtain ⟨s', chains', hsettles, h', hm'⟩ := h.reinsert hm hhead hfits hlink hgrow
      rw [hm.effect_reinsert hfree]
      refine ⟨s', .rc (store (forget m item) head key item).2, chains', limit_eq_some.mpr ?_, h',
        hm', rfl⟩
      obtain ⟨n, hn⟩ := hsettles
      refine ⟨n, fun fuel hfuel => ?_⟩
      simp only [HashHeap.callWith, hn fuel hfuel, map_some]
  | remove item =>
    obtain ⟨s', chains', hsettles, h', hm'⟩ := h.remove hm item
    exact ⟨s', .rc 0, chains', limit_eq_some.mpr (hsettles.map fun s => (s, HashOut.rc 0)), h', hm',
      rfl⟩
  | search t key =>
    refine ⟨s, .found (m t key), chains, limit_eq_some.mpr ?_, h, hm, rfl⟩
    refine Settles.map ?_ fun found => (s, HashOut.found found)
    cases hgiven : keys.given key with
    | true =>
      obtain ⟨n, hn⟩ := h.lookup hm t key
      refine ⟨n, fun fuel hfuel => ?_⟩
      rw [← hn fuel hfuel]
      exact if_pos hgiven
    | false =>
      have hnone : m t key = none := by
        rw [eq_none_iff_forall_ne_some]
        intro item hitem
        obtain ⟨hhead, hkey⟩ := (hm t key item).mp hitem
        rcases hsound with hgiven' | hsound
        · rw [hgiven] at hgiven'
          cases hgiven'
        · exact hsound item hhead hkey
      rw [hnone]
      exact .of_forall fun _ => if_neg (by rw [hgiven]; exact nofun)
  | apply t =>
    refine ⟨s, .visited (itemsFrom (chains t) 0 (s.table t).maxItems), chains, limit_eq_some.mpr
      ((h.apply t).map fun items => (s, HashOut.visited items)), h, hm, h.nodup_itemsFrom 0 _,
      fun item => ?_⟩
    rw [h.mem_itemsFrom]
    exact hm.live_iff.symm

/-! ## What goes wrong -/

theorem sInsert_stuck {item : Option A} (hnot : ¬HashHeap.GrowOk cls (s.table t)) (fuel : Nat) :
    s.sInsert keys cls fuel t item key = none := by
  simp only [HashHeap.sInsert, grow_stuck hnot fuel, bind_none]

theorem insert_linked {head : T} (hhead : (s.links item).head = some head)
    (hlink : cls.linkToChild = true) (fuel : Nat) : s.insert keys cls fuel t key item = none := by
  simp only [HashHeap.insert, hhead, hlink, if_true]
  split <;> simp

theorem Stored.reinsert_stuck (h : Stored keys s chains) (hhead : (s.links item).head = some t)
    (hnot : ¬HashHeap.GrowOk cls { s.table t with nbrItems := (s.table t).nbrItems - 1 }) :
    ∃ n, ∀ fuel, n ≤ fuel → s.insert keys cls fuel t key item = none := by
  obtain ⟨s1, -, ⟨n, hn⟩, -, -, -, hmax, hnbr⟩ := h.sRemove hhead
  have hnot1 : ¬HashHeap.GrowOk cls (s1.table t) := by
    unfold HashHeap.GrowOk HashHeap.Overloaded at hnot ⊢
    rw [hmax, hnbr]
    exact hnot
  refine ⟨n, fun fuel hfuel => ?_⟩
  simp only [HashHeap.insert, hhead, ne_eq, not_true_eq_false, if_false, hn fuel hfuel,
    bind_some, sInsert_stuck hnot1]
  split <;> rfl

omit [DecidableEq T] [DecidableEq A] [DecidableEq K] in
theorem Stored.not_live (h : Stored keys s chains) {m' : (T → K → Option A) × MapOut T A}
    (hnone : (s.links item).head = none) (hmaps : HashMaps keys (s, out) m')
    (hlive : m'.1 t key = some item) : False := by
  obtain ⟨chains', hchains⟩ := hmaps.chains t
  obtain ⟨hwalk, -, hmem⟩ := hchains _ (keys.hash_lt key _ (h.size t))
  have hitem := (hmem item).mpr ⟨key, hlive, rfl⟩
  rw [hwalk.unique (h.walk t _ (keys.hash_lt key _ (h.size t))), h.mem, hnone] at hitem
  cases hitem.1

/-- A call that does what it does to the map is sound. -/
theorem Stored.sound (h : Stored keys s chains) (hm : MapsTo s m) {op : HashOp T A K}
    {s' : HashHeap T A K × HashOut A} (hlegal : s.Legal keys op)
    (hcall : HashHeap.call keys cls (s, out) op = some s')
    (hmaps : HashMaps keys s' (op.effect m)) : s.Sound keys cls op := by
  cases op with
  | remove | apply => trivial
  | search t key =>
    by_contra hnot
    obtain ⟨hgiven, hheld⟩ := not_or.mp hnot
    simp only [not_forall, not_not] at hheld
    obtain ⟨item, hhead, hkey⟩ := hheld
    have hfound : HashHeap.call keys cls (s, out) (.search t key) = some (s, .found none) := by
      refine limit_eq_some.mpr (.of_forall fun fuel => ?_)
      simp only [HashHeap.callWith, HashHeap.search, if_neg hgiven, map_some]
    obtain rfl := some.inj (hcall.symm.trans hfound)
    have hout : none = m t key := hmaps.out
    rw [(hm t key item).mpr ⟨hhead, hkey⟩] at hout
    cases hout
  | insert t key item =>
    have hstuck : ∀ n, (∀ fuel, n ≤ fuel → s.insert keys cls fuel t key item = none) → False := by
      intro n hn
      have hnone : HashHeap.call keys cls (s, out) (.insert t key item) = none :=
        limit_eq_none n fun fuel hfuel => by
          simp only [HashHeap.callWith, hn fuel hfuel, map_none]
      cases hnone.symm.trans hcall
    cases hhead : (s.links item).head with
    | none =>
      simp only [HashHeap.Sound, hhead, if_true]
      by_contra hnot
      refine hstuck 0 fun fuel _ => ?_
      simp only [HashHeap.insert, hhead, sInsert_stuck hnot]
    | some head =>
      obtain rfl := hlegal.2 head hhead
      simp only [HashHeap.Sound, hhead, reduceCtorEq, if_false]
      have hlink : cls.linkToChild = false := by
        by_contra hlink
        refine hstuck 0 fun fuel _ => ?_
        exact insert_linked hhead (Bool.not_eq_false _ ▸ hlink) fuel
      have hgrow : HashHeap.GrowOk cls
          { s.table head with nbrItems := (s.table head).nbrItems - 1 } := by
        by_contra hnot
        obtain ⟨n, hn⟩ := h.reinsert_stuck hhead hnot
        exact hstuck n hn
      refine ⟨hlink, fun other hne hother hkey => ?_, hgrow⟩
      -- the item has been taken out, and the key is refused
      have hheld := (hm head key other).mpr ⟨hother, hkey⟩
      have hrefused : store (forget m item) head key item = (forget m item, -1) := by
        simp [store, forget, hheld, hne]
      obtain ⟨s1, chains1, ⟨n, hn⟩, h1, hm1⟩ := h.reinsert hm hhead hlegal.1 hlink hgrow
      rw [hrefused] at hn hm1
      have hcall1 : HashHeap.call keys cls (s, out) (.insert head key item) =
          some (s1, .rc (-1)) := by
        refine limit_eq_some.mpr ⟨n, fun fuel hfuel => ?_⟩
        simp only [HashHeap.callWith, hn fuel hfuel, map_some]
      obtain rfl := some.inj (hcall.symm.trans hcall1)
      have heffect : (HashOp.effect m (.insert head key item)).1 = m := by
        simp [HashOp.effect, hheld, hne]
      have hlive : (HashOp.effect m (.insert head key item)).1 head (s.links item).key =
          some item := by
        rw [heffect]
        exact (hm head _ item).mpr ⟨hhead, rfl⟩
      exact h1.not_live (MapsTo.head_of_forget item hm1) hmaps hlive

/-! ## Runs -/

omit [DecidableEq T] [DecidableEq A] [DecidableEq K] in
theorem stored_new (keys : KeyType K) (cls : HashClass) :
    Stored keys (HashHeap.new keys cls : HashHeap T A K) fun _ _ => [] where
  size _ := cls.size_pos
  walk _ _ _ := rfl
  mem _ _ _ := iff_of_false not_mem_nil fun h => nomatch h.1
  nodup _ _ := nodup_nil
  index _ _ h := nomatch h
  count _ := ⟨[], nodup_nil, fun _ => iff_of_false not_mem_nil nofun, rfl⟩

omit [DecidableEq T] [DecidableEq A] [DecidableEq K] in
theorem mapsTo_new (keys : KeyType K) (cls : HashClass) :
    MapsTo (HashHeap.new keys cls : HashHeap T A K) fun _ _ => none :=
  fun _ _ _ => iff_of_false nofun fun h => nomatch h.1

/--
From new tables and items on, whatever methods are called in whatever order: every call returns what
it should, and leaves the items of each table on the chains that their keys hash to, exactly when no
search is for the key 0 of an item, no item is inserted anew where that is a fault or another item
has the key, and no table has to grow when its size has come to 32 bits.
-/
theorem hash_maps_iff (h : HashType) (cls : HashClass) (ops : List (HashOp T A h.Key))
    (hlegal : Along (HashHeap.call h.keys cls) (fun s op => s.1.Legal h.keys op)
      (HashHeap.new h.keys cls, .rc 0) ops) :
    (∀ before, before <+: ops →
      ∃ s, run (HashHeap.call h.keys cls) (HashHeap.new h.keys cls, .rc 0) before = some s ∧
        HashMaps h.keys s (before.foldl (fun m op => op.effect m.1) (fun _ _ => none, .rc 0))) ↔
    Along (HashHeap.call h.keys cls) (fun s op => s.1.Sound h.keys cls op)
      (HashHeap.new h.keys cls, .rc 0) ops := by
  refine run_prefixes_iff_of_legal
    (R := fun (s : HashHeap T A h.Key × HashOut A) (m : (T → h.Key → Option A) × MapOut T A) =>
      (∃ chains, Stored h.keys s.1 chains) ∧ MapsTo s.1 m.1 ∧ s.2.Agrees m.1 m.2)
    (fun s m hR => ?_) (fun s m op hR hlegal hsound => ?_) (fun s m op s' hR hlegal hcall hG => ?_)
    ⟨⟨_, stored_new h.keys cls⟩, mapsTo_new h.keys cls, rfl⟩ hlegal
  · obtain ⟨⟨chains, hstored⟩, hm, hout⟩ := hR
    exact hstored.hashMaps hm hout
  · obtain ⟨⟨chains, hstored⟩, hm, -⟩ := hR
    obtain ⟨s', out', chains', hcall, hstored', hm', hout'⟩ := hstored.call hm hlegal hsound
    exact ⟨(s', out'), hcall, ⟨chains', hstored'⟩, hm', hout'⟩
  · obtain ⟨⟨chains, hstored⟩, hm, -⟩ := hR
    exact hstored.sound hm hlegal hcall hG

section Samples

/-- A class whose tables grow soon -/
def sampleClass : HashClass where
  initialSize := 1
  loadFactor := 75
  growthFactor := 200
  linkToChild := true
  size_pos := by decide
  growth_le := by decide
  growth_lt := by decide

/-- Two items under numbers, where the table grows for both, and one of them taken out -/
def sampleOps : List (HashOp Unit Nat int.Key) :=
  [.insert () (7 : Int32) 1, .insert () (9 : Int32) 2, .remove 1, .search () (9 : Int32)]

/-- The tables after so many of these calls -/
def sampleHash : Nat → HashHeap Unit Nat int.Key × HashOut Nat
  | 0 => (HashHeap.new int.keys sampleClass, .rc 0)
  | n + 1 =>
    ((sampleOps[n]?.bind fun op => (sampleHash n).1.callWith int.keys sampleClass 9 op)).getD
      (sampleHash n)

theorem call_sampleHash {n : Nat} (h : n < 4) :
    HashHeap.call int.keys sampleClass (sampleHash n) (sampleOps.get ⟨n, h⟩) =
      some (sampleHash (n + 1)) := by
  refine limit_eq_some.mpr (.of_add 9 fun fuel => ?_)
  match n, h with
  | 0, _ | 1, _ | 2, _ | 3, _ => rfl

/-- Both items in the table, and what is left of them in the end. -/
theorem hash_maps_sample : ∃ s, run (HashHeap.call int.keys sampleClass)
        (HashHeap.new int.keys sampleClass, .rc 0) sampleOps = some s ∧
      HashMaps int.keys s
        (sampleOps.foldl (fun m op => op.effect m.1) (fun _ _ => none, .rc 0)) := by
  refine (hash_maps_iff .int sampleClass sampleOps ?_).mpr ?_ _ prefix_rfl
  · refine along_of_forall (fun op _ s => ?_) _
    cases op with
    | insert => exact ⟨trivial, fun _ _ => rfl⟩
    | remove | search | apply => trivial
  · have hgrow : ∀ n, n < 2 → HashHeap.GrowOk sampleClass ((sampleHash n).1.table ()) := by decide
    refine .of_step ?_ (call_sampleHash (n := 0) (by omega)) ?_
    · exact HashHeap.sound_insert rfl (hgrow 0 (by omega))
    refine .of_step ?_ (call_sampleHash (n := 1) (by omega)) ?_
    · exact HashHeap.sound_insert rfl (hgrow 1 (by omega))
    refine .of_step trivial (call_sampleHash (n := 2) (by omega)) ?_
    exact .of_step (.inl rfl) (call_sampleHash (n := 3) (by omega)) trivial

/-- A table with an item under the number 0 -/
def zeroHash : HashHeap Unit Nat int.Key × HashOut Nat :=
  ((HashHeap.new int.keys sampleClass).callWith int.keys sampleClass 9
    (.insert () (0 : Int32) 1)).getD (sampleHash 0)

/-- An item under the number 0 is not found. -/
theorem search_zero_misses : Along (HashHeap.call int.keys sampleClass)
      (fun s op => s.1.Legal int.keys op)
      ((HashHeap.new int.keys sampleClass : HashHeap Unit Nat int.Key), .rc 0)
      [.insert () (0 : Int32) 1, .search () (0 : Int32)] ∧
    ¬ ∀ before, before <+: [.insert () (0 : Int32) 1, .search () (0 : Int32)] →
      ∃ s, run (HashHeap.call int.keys sampleClass)
          ((HashHeap.new int.keys sampleClass : HashHeap Unit Nat int.Key), .rc 0)
          before = some s ∧
        HashMaps int.keys s
          (before.foldl (fun m op => op.effect m.1) (fun _ _ => none, .rc 0)) := by
  refine ⟨⟨⟨trivial, fun _ _ => rfl⟩, fun _ _ => ⟨trivial, fun _ _ => trivial⟩⟩, fun hall => ?_⟩
  have hinsert : HashHeap.call int.keys sampleClass
      ((HashHeap.new int.keys sampleClass : HashHeap Unit Nat int.Key), .rc 0)
      (.insert () (0 : Int32) 1) = some zeroHash :=
    limit_eq_some.mpr (.of_add 9 fun _ => rfl)
  have hsearch : HashHeap.call int.keys sampleClass zeroHash (.search () (0 : Int32)) =
      some (zeroHash.1, .found none) :=
    limit_eq_some.mpr (.of_forall fun _ => rfl)
  obtain ⟨s, hrun, hmaps⟩ := hall _ prefix_rfl
  rw [run_cons, hinsert, bind_some, run_cons, hsearch, bind_some] at hrun
  cases hrun
  have hfound : (none : Option Nat) = some 1 := hmaps.out
  cases hfound

end Samples

end OpenAmq
