import Canary.Lib.LinkedList
import Canary.Lib.Transition
import Mathlib.Data.Finset.Dedup
import Mathlib.Data.List.AList

/-!
# The key-value store

`KVStore` keeps recently used values in memory: a hash map `store_` from keys to
values, and a linked list `lruQueue_` of the same keys, the most recently used
first. Every entry of the map holds, beside its value, an iterator to the node
of the list with its key. A key that is removed stays as a *tombstone*, a value
marked deleted, until it is evicted.

When the map is full, inserting a key evicts the last key of the list, saving
its value. Loading, saving and saving everything are left to a subclass, over a
state of its own (`Backend`). Two of them are in the repository: the SQL table
(`Canary.KV.Sql`), and the one of the unit tests, which stores nothing (`KVMemory`).

The calls are guarded by a mutex that is not recursive. `flush` holds it while
it calls `saveAll`, and so blocks for ever if the subclass takes it again: a
call that does not return has no next state (`step`).
-/

namespace Canary.KV

open LinkedList

/-- A key: the characters of a `std::string`. -/
abbrev Key := List Char

/-- A value with its time of change, and the mark of a tombstone. -/
structure ValueWrapper (δ : Type) where
  data : δ
  timestamp : ℕ
  deleted : Bool
  deriving DecidableEq, Repr

namespace ValueWrapper

variable {δ : Type}

def isDeleted (v : ValueWrapper δ) : Bool := v.deleted

/-- The value a default constructor makes. (The time, which no operation reads, is left at 0.) -/
def blank [Inhabited δ] : ValueWrapper δ := ⟨default, 0, false⟩

/-- The tombstone. -/
def tombstone [Inhabited δ] : ValueWrapper δ := { blank with deleted := true }

end ValueWrapper

/-- An entry of `store_`: the value, and the iterator to the node of its key (none
    for the singular iterator of a default-constructed entry). -/
structure Entry (δ : Type) where
  value : ValueWrapper δ
  lruIt : Option ℕ
  deriving DecidableEq

/-- The map `store_`. -/
abbrev Store (δ : Type) := AList fun _ : Key => Entry δ

/-- What a store leaves to its subclass, over a state `β` of the subclass. -/
structure Backend (δ β : Type) where
  load : β → Key → Option (ValueWrapper δ)
  save : β → Key → ValueWrapper δ → Bool × β
  /-- The suffixes of the keys with a prefix; `none` if the call does not return. -/
  loadPrefix : β → Key → Option (List Key)
  /-- Saving all entries, given whether the caller holds the mutex; `none` if the
      call does not return. -/
  saveAll : Bool → Store δ → β → Option (Bool × β)

/-- The state: the map, the list, the address of the next node, and the state of the subclass. -/
structure KVStore (δ β : Type) where
  store : Store δ
  lruQueue : List (Node Key)
  nextAddr : ℕ
  db : β

/-- The calls of the interface. (`set` with a tombstone is `remove`.) -/
inductive Op (δ : Type) where
  | set (key : Key) (value : ValueWrapper δ)
  | get (key : Key) (forceLoad : Bool)
  | remove (key : Key)
  | keys (pre : Key)
  | saveAll
  | flush
  deriving DecidableEq

namespace KVStore

variable {δ β : Type} [Inhabited δ] (B : Backend δ β) (maxSize : ℕ)

/-- The store as constructed. -/
def empty (db : β) : KVStore δ β := ⟨∅, [], 0, db⟩

/-- The number of entries. -/
def size (s : KVStore δ β) : ℕ := s.store.keys.length

/-- `store_[key]`, which makes up an entry if there is none. -/
def entryAt (s : KVStore δ β) (key : Key) : Entry δ :=
  (s.store.lookup key).getD ⟨.blank, none⟩

/-- Move the node of an entry to the front of the list. -/
def touch (s : KVStore δ β) (e : Entry δ) : KVStore δ β :=
  { s with lruQueue := (e.lruIt.map (spliceFront s.lruQueue)).getD s.lruQueue }

/-- Move the node of an entry to the back of the list. -/
def demote (s : KVStore δ β) (e : Entry δ) : KVStore δ β :=
  { s with lruQueue := (e.lruIt.map (spliceBack s.lruQueue)).getD s.lruQueue }

/-- What an eviction saves: the last key of the list, with its value in the map. -/
def victim (s : KVStore δ β) : Option (Key × ValueWrapper δ) :=
  s.lruQueue.getLast?.map fun n => (n.val, (s.entryAt n.val).value)

/-- Evict the last key of the list. (Before the first node there is none to evict:
    the source only evicts from a full map, whose keys the list holds.) -/
def evict (s : KVStore δ β) : KVStore δ β :=
  match s.victim with
  | some (key, value) =>
    { s with
      db := (B.save s.db key value).2
      store := s.store.erase key
      lruQueue := s.lruQueue.dropLast }
  | none => s

/-- Insert a key that is not in the map, at the front of the list. -/
def pushFront (s : KVStore δ β) (key : Key) (value : ValueWrapper δ) : KVStore δ β :=
  { s with
    lruQueue := ⟨s.nextAddr, key⟩ :: s.lruQueue
    nextAddr := s.nextAddr + 1
    store := s.store.insert key ⟨value, some s.nextAddr⟩ }

def setLocked (s : KVStore δ β) (key : Key) (value : ValueWrapper δ) : KVStore δ β :=
  match s.store.lookup key with
  | some e => { s with store := s.store.insert key { e with value := value } }.touch e
  | none => (if maxSize ≤ s.size then s.evict B else s).pushFront key value

def set (s : KVStore δ β) (key : Key) (value : ValueWrapper δ) : KVStore δ β :=
  s.setLocked B maxSize key value

def get (s : KVStore δ β) (key : Key) (forceLoad : Bool) :
    Option (ValueWrapper δ) × KVStore δ β :=
  match if forceLoad then none else s.store.lookup key with
  | some e =>
    if e.value.isDeleted then (none, s.demote e) else (some e.value, s.touch e)
  | none =>
    match B.load s.db key with
    | some value => (some value, s.setLocked B maxSize key value)
    | none => (none, s)

def remove (s : KVStore δ β) (key : Key) : KVStore δ β := s.set B maxSize key .tombstone

/-- The set of suffixes of the keys with the prefix `pre`, in the map and in the subclass. -/
def keys (s : KVStore δ β) (pre : Key) : Option (Finset Key) :=
  (B.loadPrefix s.db pre).map fun loaded =>
    (((s.store.keys.filter fun key => pre.isPrefixOf key).map fun key => key.drop pre.length) ++
      loaded).toFinset

def saveAll (s : KVStore δ β) : Option (KVStore δ β) :=
  (B.saveAll false s.store s.db).map fun r => { s with db := r.2 }

/-- Save everything, then clear the map, all with the mutex held. -/
def flush (s : KVStore δ β) : Option (KVStore δ β) :=
  (B.saveAll true s.store s.db).map fun r => { s with db := r.2, store := ∅ }

/-- The state after a call; `none` if the call does not return. -/
def step (s : KVStore δ β) : Op δ → Option (KVStore δ β)
  | .set key value => some (s.set B maxSize key value)
  | .get key forceLoad => some (s.get B maxSize key forceLoad).2
  | .remove key => some (s.remove B maxSize key)
  | .keys pre => (s.keys B pre).map fun _ => s
  | .saveAll => s.saveAll B
  | .flush => s.flush B

/-- The store as a transition system, from the empty map and any state of the subclass. -/
def system : Transition.System (KVStore δ β) (Op δ) where
  init s := ∃ db, s = empty db
  step s op s' := s.step B maxSize op = some s'

end KVStore

/-- The subclass of the unit tests: it stores nothing, and saves nothing. -/
def KVMemory (δ : Type) : Backend δ Unit where
  load _ _ := none
  save _ _ _ := (false, ())
  loadPrefix _ _ := some []
  saveAll _ _ _ := some (true, ())

end Canary.KV
