import Canary.Lib.SortedMap
import Mathlib.Data.List.Nodup
import Mathlib.Logic.Function.Basic

/-!
# The items of a player in the database

When a player is saved, the items in his slots, depot chests and inbox are written to tables,
one for each kind, a row for each item: first those that lie there, then what is in the
containers among them, and so on, breadth first (`saveItems`). A row has a number of its own,
`sid`, from 101 on, and as `pid` that of its container, or the number of the slot or chest.

The rows are loaded into a map and gone through backwards, so that every item goes to the front of
where it was (`load`). What the loaded lists hold, of the items that refer to each other by
their numbers, is a forest again (`HoldsAll`), and there is no other (`HoldsAll.unique`).

The content of a row, the type, count and attributes of an item, is written and read by a
`Codec`. The number of an item is a natural number: a server does not hold the 2^31 items that
it takes for one to be too large. That items begin to decay when they are loaded is not part
of where they are.
-/

namespace Canary.Login

/-- How an item, which may be a container, is written to a row, and created from it. -/
structure Codec (α β : Type*) where
  serialize : α → Bool → β
  create : β → Option (α × Bool)
  create_serialize : ∀ a isContainer, create (serialize a isContainer) = some (a, isContainer)

/-- An item, or a container with the list of its items. -/
inductive Item (α : Type*)
  | plain (a : α)
  | container (a : α) (itemlist : List (Item α))

structure Row (β : Type*) where
  pid : ℕ
  sid : ℕ
  item : β

variable {α β : Type*}

namespace Item

mutual

/-- The number of items, with all that is in them. -/
def size : Item α → ℕ
  | .plain _ => 1
  | .container _ itemlist => 1 + sizes itemlist

def sizes : List (Item α) → ℕ
  | [] => 0
  | item :: items => item.size + sizes items

end

def data : Item α → α
  | .plain a => a
  | .container a _ => a

/-- The items in it, if it is a container. -/
def getContainer : Item α → Option (List (Item α))
  | .plain _ => none
  | .container _ itemlist => some itemlist

end Item

/-! ## Saving -/

/-- The containers that are still to be saved, with the `sid` of each. -/
abbrev Queue (α : Type*) := List (List (Item α) × ℕ)

/-- The items with the numbers after `runningId`. -/
def number (itemList : List (ℕ × Item α)) (runningId : ℕ) : List ((ℕ × Item α) × ℕ) :=
  itemList.zipIdx (runningId + 1)

/-- The containers among the items. -/
def containers (numbered : List ((ℕ × Item α) × ℕ)) : Queue α :=
  numbered.filterMap fun e => e.1.2.getContainer.map (·, e.2)

variable (C : Codec α β)

def row (e : (ℕ × Item α) × ℕ) : Row β where
  pid := e.1.1
  sid := e.2
  item := C.serialize e.1.2.data e.1.2.getContainer.isSome

/-- The items of a container, with its number. -/
def within (itemlist : List (Item α)) (parentId : ℕ) : List (ℕ × Item α) :=
  itemlist.map (parentId, ·)

theorem map_within (itemlist : List (Item α)) (parentId : ℕ) :
    (within itemlist parentId).map (·.2) = itemlist := by
  rw [within, List.map_map, Function.comp_def, List.map_id']

def Queue.size (queue : Queue α) : ℕ := (queue.map fun e => 1 + Item.sizes e.1).sum

theorem number_cons (e : ℕ × Item α) (itemList : List (ℕ × Item α)) (runningId : ℕ) :
    number (e :: itemList) runningId = (e, runningId + 1) :: number itemList (runningId + 1) := rfl

theorem containers_cons (e : (ℕ × Item α) × ℕ) (numbered : List ((ℕ × Item α) × ℕ)) :
    containers (e :: numbered) =
      (e.1.2.getContainer.map (·, e.2)).toList ++ containers numbered := by
  rw [containers, containers, List.filterMap_cons]
  cases e.1.2.getContainer with
  | none => rfl
  | some _ => rfl

theorem Queue.size_cons (itemlist : List (Item α)) (parentId : ℕ) (queue : Queue α) :
    Queue.size ((itemlist, parentId) :: queue) = 1 + Item.sizes itemlist + queue.size :=
  List.sum_cons

theorem Queue.size_append (queue queue' : Queue α) :
    Queue.size (queue ++ queue') = queue.size + queue'.size := by
  rw [Queue.size, List.map_append, List.sum_append]
  rfl

/-- With a container, its items are put into the queue. -/
theorem size_containers (itemList : List (ℕ × Item α)) (runningId : ℕ) :
    (containers (number itemList runningId)).size ≤ Item.sizes (itemList.map (·.2)) := by
  induction itemList generalizing runningId with
  | nil => exact Nat.le_refl _
  | cons e itemList ih =>
    rw [number_cons, containers_cons, Queue.size_append, List.map_cons, Item.sizes]
    refine Nat.add_le_add ?_ (ih _)
    rcases e with ⟨pid, a | ⟨a, itemlist⟩⟩
    · exact Nat.zero_le _
    · rw [Item.size]
      exact Nat.le_of_eq rfl

/-- The loop over the queue. -/
def saveQueue (queue : Queue α) (runningId : ℕ) : List (Row β) :=
  match queue with
  | [] => []
  | (itemlist, parentId) :: queue =>
    let numbered := number (within itemlist parentId) runningId
    numbered.map (row C) ++
      saveQueue (queue ++ containers numbered) (runningId + itemlist.length)
termination_by Queue.size queue
decreasing_by
  rw [Queue.size_append, Queue.size_cons]
  have hle := size_containers (within itemlist parentId) runningId
  rw [map_within] at hle
  omega

def saveItems (itemList : List (ℕ × Item α)) : List (Row β) :=
  let numbered := number itemList 100
  numbered.map (row C) ++ saveQueue C (containers numbered) (100 + itemList.length)

/-! ## Loading -/

/-- `ItemsMap`: the items by their `sid`, with their `pid`. -/
abbrev ItemsMap (α : Type*) := SortedMap ℕ ((α × Bool) × ℕ)

def loadItems (rows : List (Row β)) : ItemsMap α :=
  rows.foldl (fun itemsMap r =>
    match C.create r.item with
    | some item => itemsMap.insert r.sid (item, r.pid)
    | none => itemsMap) .empty

/-- Where an item can be. -/
inductive Place
  | slot (slotId : ℕ)
  | depotChest (depotId : ℕ)
  | inbox
  | container (sid : ℕ)
  deriving DecidableEq

/-- The items in a place, by their `sid`. -/
abbrev Lists := Place → List ℕ

/-- There is one item in a slot; to a list an item is added at the front. -/
def internalAddThing (place : Place) (sid : ℕ) (lists : Lists) : Lists :=
  match place with
  | .slot _ => if lists place = [] then Function.update lists place [sid] else lists
  | _ => Function.update lists place (sid :: lists place)

/-- The place of an item with this `pid`, if there is one. -/
def target (place : ℕ → Place) (itemsMap : ItemsMap α) (pid : ℕ) : Option Place :=
  match place pid with
  | .container sid =>
    match itemsMap.lookup sid with
    | some ((_, true), _) => some (.container sid)
    | _ => none
  | place => some place

/-- The loop over the items, from the last one to the first. -/
def load (place : ℕ → Place) (itemsMap : ItemsMap α) : Lists :=
  itemsMap.entries.foldr (fun e lists =>
    match target place itemsMap e.2.2 with
    | some place => internalAddThing place e.1 lists
    | none => lists) fun _ => []

/-- `CONST_SLOT_LAST`. -/
def CONST_SLOT_LAST : ℕ := 11

/-- The places of `loadPlayerInventoryItems`. -/
def inventoryPlace (pid : ℕ) : Place :=
  if 1 ≤ pid ∧ pid ≤ CONST_SLOT_LAST then .slot pid else .container pid

/-- The places of `loadPlayerDepotItems`. -/
def depotPlace (pid : ℕ) : Place := if pid < 100 then .depotChest pid else .container pid

/-- The places of `loadPlayerInboxItems`. -/
def inboxPlace (pid : ℕ) : Place := if pid < 100 then .inbox else .container pid

/-! ## What the lists hold -/

section Holds

variable (get : ℕ → Option (α × Bool)) (list : ℕ → List ℕ)

mutual

/-- This is the item with the number `sid`, with all that is in it. -/
def Holds : Item α → ℕ → Prop
  | .plain a, sid => get sid = some (a, false)
  | .container a itemlist, sid => get sid = some (a, true) ∧ HoldsAll itemlist (list sid)

/-- These are the items with the numbers, in order. -/
def HoldsAll : List (Item α) → List ℕ → Prop
  | [], sids => sids = []
  | x :: xs, sids => ∃ sid rest, sids = sid :: rest ∧ Holds x sid ∧ HoldsAll xs rest

end

variable {get list}

mutual

/-- A number is that of one item at most. -/
theorem Holds.unique {sid : ℕ} : ∀ {x y : Item α}, Holds get list x sid → Holds get list y sid →
    x = y
  | .plain a, .plain b, hx, hy => by
    obtain ⟨rfl, -⟩ := Prod.mk.inj (Option.some.inj (hx.symm.trans hy))
    rfl
  | .plain a, .container b _, hx, hy => by
    obtain ⟨hy, -⟩ := hy
    cases hx.symm.trans hy
  | .container a _, .plain b, hx, hy => by
    obtain ⟨hx, -⟩ := hx
    cases hx.symm.trans hy
  | .container a xs, .container b ys, ⟨hx, hxs⟩, ⟨hy, hys⟩ => by
    obtain ⟨rfl, -⟩ := Prod.mk.inj (Option.some.inj (hx.symm.trans hy))
    rw [hxs.unique hys]

theorem HoldsAll.unique {sids : List ℕ} : ∀ {xs ys : List (Item α)}, HoldsAll get list xs sids →
    HoldsAll get list ys sids → xs = ys
  | [], [], _, _ => rfl
  | [], _ :: _, hx, ⟨_, _, hy, _⟩ => by
    cases Eq.trans (Eq.symm hx) hy
  | _ :: _, [], ⟨_, _, hx, _⟩, hy => by
    cases Eq.trans (Eq.symm hx) hy
  | x :: xs, y :: ys, ⟨_, _, hx, hxsid, hxs⟩, ⟨_, _, hy, hysid, hys⟩ => by
    obtain ⟨rfl, rfl⟩ := List.cons.inj (hx.symm.trans hy)
    rw [hxsid.unique hysid, hxs.unique hys]

end

end Holds

end Canary.Login
