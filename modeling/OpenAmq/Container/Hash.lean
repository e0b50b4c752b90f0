import Mathlib
import OpenAmq.Icl
import OpenAmq.Lib.Chain

/-!
# Hash tables

The hash tables that `icl_hash_head` generates for a class of items: an array of chains, which
grows when there are too many items for it.

* `KeyType`, `HashType.keys` — the three types of keys, and what a class does with them
* `HashHeap` — all tables of a class, and the fields of all items
* `HashHeap.grow` — the table rebuilt in a larger array
* `HashHeap.insert`, `remove`, `search`, `apply` — the methods
-/

namespace OpenAmq

open Lib Function List

/-! ## Keys -/

/-- What a class does with its keys. -/
structure KeyType (K : Type*) where
  /-- `s_key_hash`, for the size of a table -/
  hash : K → Nat → Nat
  /-- what `if (key)` says -/
  given : K → Bool
  /-- `key_copy_c` -/
  copy : K → K
  /-- what `key_destroy_c` leaves -/
  destroyed : K
  /-- a key that may be inserted -/
  Fits : K → Prop
  hash_lt : ∀ key size, 0 < size → hash key size < size
  copy_eq : ∀ key, Fits key → copy key = key

inductive HashType where
  | int | str | lstr

deriving instance DecidableEq for CString

/-- `key_arg_t`, where a pointer to characters may be null -/
def HashType.Key : HashType → Type
  | .int => Int32
  | .str | .lstr => Option CString

instance (h : HashType) : DecidableEq h.Key :=
  match h with
  | .int => inferInstanceAs (DecidableEq Int32)
  | .str | .lstr => inferInstanceAs (DecidableEq (Option CString))

/-- Torek hashing function. Characters have a sign. -/
def torekHash (key : CString) : UInt32 :=
  key.octets.foldl (fun keyHash c => keyHash * 33 + c.toInt8.toInt32.toUInt32) 0

/-- The hash of a string. There is none of a null pointer, which no caller passes. -/
def stringHash (key : Option CString) (hashSize : Nat) : Nat :=
  (key.elim 0 torekHash).toNat % hashSize

/-- `icl_shortstr_cpy` -/
def shortstrCopy (key : Option CString) : Option CString :=
  some (key.elim ⟨[], CString.noNul_nil⟩ fun key =>
    ⟨key.octets.take shortstrMax, fun h => key.noNul (mem_of_mem_take h)⟩)

def HashType.keys : (h : HashType) → KeyType h.Key
  | .int =>
    { hash := fun (key : Int32) size => (key.toInt % 2 ^ 64).toNat % size % 2 ^ 32
      given := fun (key : Int32) => key != 0
      copy := id
      destroyed := (0 : Int32)
      Fits := fun _ => True
      hash_lt := fun _ _ h => Nat.lt_of_le_of_lt (Nat.mod_le _ _) (Nat.mod_lt _ h)
      copy_eq := fun _ _ => rfl }
  | .str =>
    { hash := stringHash
      given := fun (key : Option CString) => key.isSome
      copy := shortstrCopy
      destroyed := some ⟨[], CString.noNul_nil⟩
      Fits := fun key => ∃ s : CString, key = some s ∧ s.octets.length ≤ shortstrMax
      hash_lt := fun _ _ h => Nat.mod_lt _ h
      copy_eq := by
        rintro _ ⟨s, rfl, hlength⟩
        simp only [shortstrCopy, Option.elim_some, take_of_length_le hlength]
        rfl }
  | .lstr =>
    { hash := stringHash
      given := fun (key : Option CString) => key.isSome
      copy := id
      destroyed := (none : Option CString)
      Fits := fun (key : Option CString) => key ≠ none
      hash_lt := fun _ _ h => Nat.mod_lt _ h
      copy_eq := fun _ _ => rfl }

/-! ## Tables and items -/

structure HashClass where
  initialSize : Nat
  loadFactor : Nat
  growthFactor : Nat
  linkToChild : Bool
  size_pos : 0 < initialSize
  growth_le : 100 ≤ growthFactor
  growth_lt : growthFactor < 2 ^ 31

/-- The fields of an item that belong to its table -/
structure HashLinks (T A K : Type*) where
  head : Option T
  next : Option A
  index : Nat
  key : K

/-- A table, with the first items of its chains -/
structure HashTable (A : Type*) where
  nbrItems : Nat
  maxItems : Nat
  items : Nat → Option A

structure HashHeap (T A K : Type*) where
  table : T → HashTable A
  links : A → HashLinks T A K

variable {T A K : Type*}

namespace HashHeap

/-- New tables, and new items in none of them -/
def new (keys : KeyType K) (cls : HashClass) : HashHeap T A K where
  table _ := ⟨0, cls.initialSize, fun _ => none⟩
  links _ := ⟨none, none, 0, keys.destroyed⟩

variable [DecidableEq T] [DecidableEq A] [DecidableEq K]

def setTable (self : HashHeap T A K) (t : T) (table : HashTable A) : HashHeap T A K :=
  { self with table := update self.table t table }

def setLinks (self : HashHeap T A K) (item : A) (links : HashLinks T A K) : HashHeap T A K :=
  { self with links := update self.links item links }

def next (self : HashHeap T A K) (item : A) : Option A := (self.links item).next

/-! ## Growing -/

def rehashChain (keys : KeyType K) (newMaxItems : Nat) : (fuel : Nat) → (A → HashLinks T A K) →
    (newItems : Nat → Option A) → (currentItem : Option A) →
    Option ((A → HashLinks T A K) × (Nat → Option A))
  | 0, _, _, _ => none
  | _ + 1, links, newItems, none => some (links, newItems)
  | fuel + 1, links, newItems, some item =>
    let newIndex := keys.hash (links item).key newMaxItems
    rehashChain keys newMaxItems fuel
      (update links item { links item with index := newIndex, next := newItems newIndex })
      (update newItems newIndex (some item)) (links item).next

/-- The chains of a table are moved to the new array. The index is a `qbyte`. -/
def rehash (keys : KeyType K) (table : HashTable A) (newMaxItems : Nat) : (fuel : Nat) →
    (index : Nat) → (A → HashLinks T A K) → (newItems : Nat → Option A) →
    Option ((A → HashLinks T A K) × (Nat → Option A))
  | 0, _, _, _ => none
  | fuel + 1, index, links, newItems =>
    if index = table.maxItems then some (links, newItems)
    else
      (rehashChain keys newMaxItems fuel links newItems (table.items index)).bind
        fun (links, newItems) =>
          rehash keys table newMaxItems fuel ((index + 1) % 2 ^ 32) links newItems

/-- The load factor of the table is exceeded. -/
def Overloaded (cls : HashClass) (table : HashTable A) : Prop :=
  table.maxItems * cls.loadFactor % 2 ^ 64 / 100 ≤ table.nbrItems

instance (cls : HashClass) (table : HashTable A) : Decidable (Overloaded cls table) :=
  inferInstanceAs (Decidable (_ ≤ _))

/-- The table after it has been rebuilt, if its load factor was exceeded -/
def grow (keys : KeyType K) (cls : HashClass) (fuel : Nat) (self : HashHeap T A K) (t : T) :
    Option (HashHeap T A K) :=
  let table := self.table t
  if Overloaded cls table then
    let newMaxItems := table.maxItems * cls.growthFactor % 2 ^ 64 / 100
    (rehash keys table newMaxItems fuel 0 self.links fun _ => none).map fun (links, newItems) =>
      { self with links }.setTable t { table with maxItems := newMaxItems, items := newItems }
  else some self

/-! ## Table functions -/

/-- The new item itself, in front of its chain -/
def push (keys : KeyType K) (self : HashHeap T A K) (t : T) (item : A) (key : K) : HashHeap T A K :=
  let table := self.table t
  let index := keys.hash key table.maxItems
  (self.setLinks item ⟨some t, table.items index, index, keys.copy key⟩).setTable t { table with
      items := update table.items index (some item), nbrItems := table.nbrItems + 1 }

def sLookup (keys : KeyType K) (fuel : Nat) (self : HashHeap T A K) (t : T) (key : K) :
    Option (Option A) :=
  findFrom self.next (fun item => (self.links item).key == key) fuel
    ((self.table t).items (keys.hash key (self.table t).maxItems))

/-- `s_insert`, with the return code. The pointer to the item may be null. -/
def sInsert (keys : KeyType K) (cls : HashClass) (fuel : Nat) (self : HashHeap T A K) (t : T)
    (item : Option A) (key : K) : Option (HashHeap T A K × Int) :=
  (self.grow keys cls fuel t).bind fun self =>
    (self.sLookup keys fuel t key).bind fun currentItem =>
      match currentItem with
      | some _ => some (self, -1)
      | none => item.map fun item => (self.push keys t item key, 0)

/-- `s_remove`. It stops if the item is not on its chain. -/
def sRemove (keys : KeyType K) (fuel : Nat) (self : HashHeap T A K) (item : A) :
    Option (HashHeap T A K) :=
  (self.links item).head.bind fun t =>
    let table := self.table t
    let index := (self.links item).index
    (seekFrom self.next (· == item) fuel none (table.items index)).bind
      fun (prevItem, currentItem) =>
        if currentItem = some item then
          let next := self.next item
          let self :=
            match prevItem with
            | none =>
              self.setTable t { table with
                  items := update table.items index next, nbrItems := table.nbrItems - 1 }
            | some prev =>
              (self.setLinks prev { self.links prev with next }).setTable t
                { table with nbrItems := table.nbrItems - 1 }
          some (self.setLinks item ⟨none, none, 0, keys.destroyed⟩)
        else none

/-! ## Methods -/

/-- `insert`. The class unlinks an item that is in the table, and the pointer to it is null from
then on; the link of a null pointer is a fault. -/
def insert (keys : KeyType K) (cls : HashClass) (fuel : Nat) (self : HashHeap T A K) (t : T)
    (key : K) (item : A) : Option (HashHeap T A K × Int) :=
  match (self.links item).head with
  | none => self.sInsert keys cls fuel t (some item) key
  | some head =>
    if head ≠ t then none
    else
      (self.sRemove keys fuel item).bind fun self =>
        if cls.linkToChild then
          (self.sInsert keys cls fuel t none key).bind fun _ => none
        else self.sInsert keys cls fuel t (some item) key

def remove (keys : KeyType K) (fuel : Nat) (self : HashHeap T A K) (item : A) :
    Option (HashHeap T A K) :=
  match (self.links item).head with
  | none => some self
  | some _ => self.sRemove keys fuel item

def search (keys : KeyType K) (fuel : Nat) (self : HashHeap T A K) (t : T) (key : K) :
    Option (Option A) :=
  if keys.given key then self.sLookup keys fuel t key else some none

/-- The items that are visited from this position on -/
def applyFrom (self : HashHeap T A K) (table : HashTable A) : (fuel : Nat) → (pos : Nat) →
    Option (List A)
  | 0, _ => none
  | fuel + 1, pos =>
    if pos = table.maxItems then some []
    else
      (collectFrom self.next fuel (table.items pos)).bind fun items =>
        (applyFrom self table fuel (pos + 1)).map (items ++ ·)

/-- `apply`, with the items that it calls the function for -/
def apply (fuel : Nat) (self : HashHeap T A K) (t : T) : Option (List A) :=
  self.applyFrom (self.table t) fuel 0

end HashHeap

end OpenAmq
