import Canary.Inventory.Object
import Mathlib

/-!
# Players, containers and what they hold

The cylinders that hold things: players, in the slots of their inventories, and containers. The
state (`World`) is a forest of things, below the players, on tiles, and in containers that are
nowhere. Changes are those of the cylinders, `addThing`, `updateThing` and `removeThing`, with
the weights of containers, and the weight of the inventory that a player is notified of.
-/

namespace Canary.Inventory

/-! ## Players -/

/-- `Slots_t`, from `CONST_SLOT_FIRST` to `CONST_SLOT_LAST`. -/
inductive Slot
  | head | necklace | backpack | armor | right | left | legs | feet | ring | ammo | storeInbox
  deriving DecidableEq, Repr

namespace Slot

def all : List Slot :=
  [.head, .necklace, .backpack, .armor, .right, .left, .legs, .feet, .ring, .ammo, .storeInbox]

theorem mem_all (slot : Slot) : slot ∈ all := by
  cases slot <;> decide

def index : Slot → ℤ
  | .head => 1
  | .necklace => 2
  | .backpack => 3
  | .armor => 4
  | .right => 5
  | .left => 6
  | .legs => 7
  | .feet => 8
  | .ring => 9
  | .ammo => 10
  | .storeInbox => 11

def ofIndex (index : ℤ) : Option Slot := all.find? fun slot => slot.index = index

end Slot

abbrev PlayerId := ℕ

structure Player where
  id : PlayerId
  inventory : Slot → Option Thing := fun _ => none
  tradeItem : Option Ref := none
  capacity : BitVec 32 := 0
  inventoryWeight : BitVec 32 := 0
  cannotPickupItem : Bool := false
  hasInfiniteCapacity : Bool := false
  /-- The player is on a tile. -/
  placed : Bool := true

namespace Player

/-- What is in the slots. -/
def things (p : Player) : List Thing := Slot.all.filterMap p.inventory

/-- `inventory[slot] = item` -/
def setSlot (slot : Slot) (item : Thing) (p : Player) : Player :=
  { p with inventory := Function.update p.inventory slot (some item) }

def getFreeCapacity (p : Player) : ℕ :=
  if p.cannotPickupItem then 0
  else if p.hasInfiniteCapacity then 2 ^ 32 - 1
  else (p.capacity - p.inventoryWeight).toInt.toNat

def updateInventoryWeight (types : ItemTable) (p : Player) : Player :=
  if p.hasInfiniteCapacity then p
  else { p with inventoryWeight := (p.things.map (Thing.getWeight types)).sum }

end Player

/-! ## The state -/

/-- A cylinder that holds another, or a thing. -/
inductive Ancestor
  | container (t : Thing)
  | player (p : Player)
  | tile

structure World where
  players : List Player
  /-- The things on tiles. -/
  tiles : List Thing
  /-- The things that are nowhere, as the depot chests of a player. -/
  loose : List Thing
  /-- Objects with this address or a higher one are not there yet. -/
  nextRef : Ref

/-- A player or a container. -/
inductive Cylinder
  | player (id : PlayerId)
  | container (r : Ref)
  deriving DecidableEq

namespace World

variable (types : ItemTable) (w : World)

def forest : List Thing := w.players.flatMap Player.things ++ (w.tiles ++ w.loose)

def find (r : Ref) : Option Thing := RoseTree.find? Object.ref r w.forest

/-- The container at an address. -/
def container? (r : Ref) : Option Thing := (w.find r).filter Thing.isContainer

def player? (id : PlayerId) : Option Player := w.players.find? fun p => p.id = id

/-- The way from the thing at an address to the top of a tree, and to what is above. -/
def way (r : Ref) (ts : List Thing) (top : List Ancestor) : Option (List Ancestor) :=
  (RoseTree.forestPath Object.ref r ts).map fun l => l.map Ancestor.container ++ top

/-- The thing at an address and the cylinders it is in (`m_parent`). -/
def chain (r : Ref) : List Ancestor :=
  ((w.players.findSome? fun p =>
      way r p.things (.player p :: if p.placed then [.tile] else [])) <|>
    way r w.tiles [.tile] <|> way r w.loose []).getD []

/-- What `getParent` gives, and its parents: depot chests and inboxes leave out some. -/
def parentsOf : List Ancestor → List Ancestor
  | [] => []
  | .container t :: rest =>
    match t.class_ with
    | .depotChest => (parentsOf rest).tail
    | .inbox => parentsOf rest
    | _ => rest.head?.toList ++ parentsOf rest
  | _ :: rest => rest.head?.toList ++ parentsOf rest

def parents (r : Ref) : List Ancestor := parentsOf (w.chain r)

/-- `getTopParent`, of a cylinder (`self`) or an item that is none. -/
def getTopParent (self : Option Ancestor) : List Ancestor → Option Ancestor
  | [] => self
  | [a] => self <|> some a
  | a :: rest => getTopParent (some a) rest

/-- `getTopParentContainer` -/
def getTopParentContainer (self : Thing) : List Ancestor → Thing
  | .container t :: .container t' :: rest => getTopParentContainer t (.container t' :: rest)
  | _ => self

/-! ## Changes -/

def mapThings (f : Thing → Thing) : World where
  players := w.players.map fun p => { p with inventory := fun slot => (p.inventory slot).map f }
  tiles := w.tiles.map f
  loose := w.loose.map f
  nextRef := w.nextRef

def modify (r : Ref) (f : Thing → Thing) : World := w.mapThings (RoseTree.modify Object.ref r f)

def modifyPlayer (id : PlayerId) (f : Player → Player) : World :=
  { w with players := w.players.map fun p => if p.id = id then f p else p }

/-- `updateItemWeight`: the weights of a container and of those it is in. -/
def updateItemWeight (r : Ref) (diff : BitVec 32) : World :=
  let parentContainers := (w.parents r).takeWhile fun
    | .container _ => true
    | _ => false
  let refs := r :: parentContainers.filterMap fun
    | .container t => some t.ref
    | _ => none
  w.mapThings (RoseTree.relabel fun o => if o.ref ∈ refs then
    { o with storage := o.storage.map fun c => { c with totalWeight := c.totalWeight + diff } }
    else o)

/-- `getThingIndex` -/
def getThingIndex (toCylinder : Cylinder) (r : Ref) : Option ℤ :=
  match toCylinder with
  | .player id =>
    (w.player? id).bind fun p => (Slot.all.find? fun slot =>
      (p.inventory slot).any fun t => t.ref = r).map Slot.index
  | .container c =>
    (w.container? c).bind fun t => (t.children.findIdx? fun i : Thing => i.ref = r).map Int.ofNat

def addThing (toCylinder : Cylinder) (index : ℤ) (item : Thing) : World :=
  match toCylinder with
  | .player id =>
    match Slot.ofIndex index with
    | none => w
    | some slot => w.modifyPlayer id (Player.setSlot slot item)
  | .container r =>
    match w.container? r with
    | none => w
    | some c =>
      if index ≥ c.capacity then w
      else (w.modify r fun c => .node c.label (item :: c.children)).updateItemWeight r
        (item.getWeight types)

def updateThing (toCylinder : Cylinder) (r : Ref) (itemId : BitVec 16) (count : ℕ) : World :=
  match w.getThingIndex toCylinder r, w.find r with
  | some _, some t =>
    let item : Thing := .node ((t.label.setID types itemId).setSubType types count) t.children
    let w' := w.modify r fun _ => item
    match toCylinder with
    | .player _ => w'
    | .container c => w'.updateItemWeight c (item.getWeight types - t.getWeight types)
  | _, _ => w

/-- `removeThing`: units of a stack, or all of it, or another item. -/
def removeThing (cylinder : Cylinder) (r : Ref) (count : ℕ) : World :=
  match w.getThingIndex cylinder r, w.find r with
  | some _, some t =>
    if t.label.isStackable types ∧ count ≠ t.label.getItemCount then
      let item : Thing := .node (t.label.setItemCount (t.label.getItemCount - count)) t.children
      let w' := w.modify r fun _ => item
      match cylinder with
      | .player _ => w'
      | .container c => w'.updateItemWeight c (item.getWeight types - t.getWeight types)
    else
      match cylinder with
      | .player id => w.modifyPlayer id fun p => { p with
          inventory := fun slot => (p.inventory slot).filter fun t : Thing => t.ref ≠ r }
      | .container c => (w.updateItemWeight c (-t.getWeight types)).modify c fun c =>
          .node c.label (c.children.filter fun t : Thing => t.ref ≠ r)
  | _, _ => w

/-- The player whose weight is updated when a cylinder changes: the player at the top. The
    classes derived from `Container` notify the cylinder that they are in. -/
def notified : List Ancestor → Option PlayerId
  | .container t :: rest =>
    if t.class_ = .container then
      match getTopParent (some (.container t)) rest with
      | some (.player p) => some p.id
      | _ => none
    else notified rest
  | _ => none

/-- What `postAddNotification` and `postRemoveNotification` do to the weights. The events of
    what is put on or taken off, which may turn it into another item, are left out. -/
def postNotification (cylinder : Cylinder) : World :=
  let update (id : PlayerId) := w.modifyPlayer id (Player.updateInventoryWeight types)
  match cylinder with
  | .player id => update id
  | .container r =>
    match w.container? r with
    | none => w
    | some c => ((notified (.container c :: w.parents r)).map update).getD w

/-- `clone`: another object of the type, with the same attributes. -/
def clone (t : Thing) : Thing × World :=
  let copy (o : Object) : Object :=
    let server := types.server
    let item := Items.Item.new server (Items.Item.classOf (server.items o.id))
      (Items.Item.createdId server o.id) (o.count.setWidth 16)
    let hasAttributes := !(allIntegerAttributes.all fun a => (o.ints a).isNone) ||
      !(allStringAttributes.all fun a => (o.strings a).isNone) || o.custom.entries.entries ≠ []
    { o with
      toItem := if hasAttributes then
        { item with ints := o.ints, strings := o.strings, custom := o.custom } else item
      ref := o.ref + w.nextRef }
  (t.relabel copy, { w with nextRef := 2 * w.nextRef })

end World

end Canary.Inventory
