import Canary.Items.Item
import Canary.Lib.RoseTree
import Mathlib.Data.BitVec

/-!
# The objects of the game

Items as objects that hold each other: an object has an address, by which the server tells it
from others of the same kind, and a container holds a list of objects. What players carry and
what lies in containers are trees of objects (`Thing`).

Two stacks merge if they are equal (`equals`): of the same type and owner, with no attribute
that both have and that differs.
-/

namespace Canary.Inventory

open Items (IntegerAttribute StringAttribute)
open Bytes (Scalar)

/-! ## Item types -/

inductive WeaponType
  | none | sword | club | axe | shield | distance | wand | ammo | missile
  deriving DecidableEq, Repr

/-- `SlotPositionBits` -/
def slotpHead : BitVec 16 := 1
def slotpNecklace : BitVec 16 := 2
def slotpBackpack : BitVec 16 := 4
def slotpArmor : BitVec 16 := 8
def slotpRight : BitVec 16 := 16
def slotpLeft : BitVec 16 := 32
def slotpLegs : BitVec 16 := 64
def slotpFeet : BitVec 16 := 128
def slotpRing : BitVec 16 := 256
def slotpAmmo : BitVec 16 := 512
def slotpTwoHand : BitVec 16 := 2048
def slotpHand : BitVec 16 := slotpLeft ||| slotpRight

/-- The fields of an item type that cylinders ask for, besides those of `Items.ItemType`. -/
structure Traits where
  stackSize : BitVec 8 := 100
  pickupable : Bool := true
  weight : BitVec 32 := 0
  slotPosition : BitVec 16 := slotpHand
  weaponType : WeaponType := .none
  isAmmo : Bool := false
  isQuiver : Bool := false
  stopTime : Bool := false
  /-- `decayTo` is negative: the item vanishes. -/
  decaysToNothing : Bool := true

/-- The table of item types. Types that stack are of the class `Item`: no container, fluid or
    splash of `appearances.dat` does. -/
structure ItemTable where
  server : Items.Server
  traits : BitVec 16 → Traits
  stackable_plain : ∀ id, (server.items id).stackable = true →
    (server.items id).hasFluid = false ∧ Items.Item.classOf (server.items id) = .item

/-! ## Objects -/

/-- The classes derived from `Container`. -/
inductive ContainerClass
  | container | depotChest | depotLocker | inbox | reward | rewardChest
  deriving DecidableEq, Repr

/-- The fields of `Container`. -/
structure Storage where
  class_ : ContainerClass := .container
  maxSize : BitVec 16
  maxItems : BitVec 32
  unlocked : Bool := true
  pagination : Bool := false
  totalWeight : BitVec 32 := 0
  /-- `maxDepotItems`, `maxInboxItems` -/
  maxStored : BitVec 32 := 0

/-- The address of an object. -/
abbrev Ref := ℕ

/-- An object. It is a container if it has a storage. A clone shares the strings of the object. -/
structure Object extends Items.Item where
  ref : Ref
  storage : Option Storage := none
  /-- Where the strings of the attributes are. -/
  stringRefs : StringAttribute → Ref := fun _ => 0

/-- An object with what it holds. -/
abbrev Thing := RoseTree Object

/-- `ITEM_REWARD_CONTAINER` -/
def rewardContainer : BitVec 16 := 19202

def allIntegerAttributes : List IntegerAttribute :=
  [.store, .actionId, .uniqueId, .date, .weight, .attack, .defense, .extraDefense, .armor,
    .hitChance, .shootRange, .owner, .duration, .decayState, .corpseOwner, .charges, .fluidType,
    .doorId, .imbuementSlot, .openContainer, .quickLootContainer, .durationTimestamp, .tier,
    .amount]

def allStringAttributes : List StringAttribute :=
  [.description, .text, .writer, .name, .article, .pluralName, .special, .lootMessageSuffix,
    .storeInboxCategory]

namespace Object

variable (types : ItemTable) (o : Object)

def isStackable : Bool := (types.server.items o.id).stackable
def isMovable : Bool := (types.server.items o.id).movable
def isPickupable : Bool := (types.traits o.id).pickupable
def isQuiver : Bool := (types.traits o.id).isQuiver
def isAmmo : Bool := (types.traits o.id).isAmmo
def getWeaponType : WeaponType := (types.traits o.id).weaponType
def getSlotPosition : BitVec 16 := (types.traits o.id).slotPosition

def getStackSize : ℕ := if o.isStackable types then (types.traits o.id).stackSize.toNat else 1

def getItemCount : ℕ := o.count.toNat

def setItemCount (n : ℕ) : Object := { o with count := BitVec.ofNat 8 n }

def isStoreItem : Bool := BitVec.slt 0 (o.getAttribute .i64 .store)

/-- `Item::getOwnerId` -/
def itemOwnerId : BitVec 64 := if o.hasAttribute .owner then o.getAttribute .u32 .owner else 0

def getBaseWeight : BitVec 32 :=
  if o.hasAttribute .weight then (o.getAttribute .u32 .weight).setWidth 32
  else (types.traits o.id).weight

/-- `Item::getWeight` -/
def itemWeight : BitVec 32 :=
  if o.isStackable types then o.getBaseWeight types * BitVec.ofNat 32 (max 1 o.getItemCount)
  else o.getBaseWeight types

def removeAttribute (a : IntegerAttribute) : Object :=
  { o with ints := Function.update o.ints a none }

def setAttribute (a : IntegerAttribute) (v : BitVec 64) : Object :=
  { o with toItem := o.toItem.setAttribute a v }

def setDuration (time : BitVec 64) : Object := { o with toItem := o.toItem.setDuration time }

/-- `setID`, with the duration of the new type. -/
def setID (newid : BitVec 16) : Object :=
  let prevIt := types.traits o.id
  let it := types.traits newid
  let newDuration := (types.server.items newid).decayTime * 1000
  let o := { o with id := newid }
  let o := if newDuration = 0 ∧ !it.stopTime ∧ it.decaysToNothing then
      (if o.hasAttribute .decayState then o.setAttribute .decayState Items.Item.decayingStopping
        else o).removeAttribute .duration
    else o
  -- `isRewardCorpse`
  let o := if o.getAttribute .u32 .corpseOwner ≠ 2 ^ 31 - 1 then o.removeAttribute .corpseOwner
    else o
  if newDuration ≠ 0 ∧ (!prevIt.stopTime ∨ !o.hasAttribute .duration) then
    (o.setAttribute .decayState Items.Item.decayingPending).setDuration (newDuration.setWidth 64)
  else o

/-- `setSubType`, of the item as it is held. -/
def setSubType (n : ℕ) : Object :=
  { o with toItem := o.toItem.setSubType types.server (BitVec.ofNat 64 (n % 2 ^ 16)) }

end Object

/-! ## Things -/

namespace Thing

variable (types : ItemTable)

def ref (t : Thing) : Ref := t.label.ref

/-- `getContainer()` is not null. -/
def isContainer (t : Thing) : Bool := t.label.storage.isSome

def size (t : Thing) : ℕ := t.children.length

def capacity (t : Thing) : ℕ := (t.label.storage.map fun c => c.maxSize.toNat).getD 0

def hasPagination (t : Thing) : Bool := (t.label.storage.map Storage.pagination).getD false

def unlocked (t : Thing) : Bool := (t.label.storage.map Storage.unlocked).getD false

def class_ (t : Thing) : ContainerClass := (t.label.storage.map Storage.class_).getD .container

def maxItems (t : Thing) : ℕ := (t.label.storage.map fun c => c.maxItems.toNat).getD 0

def maxStored (t : Thing) : ℕ := (t.label.storage.map fun c => c.maxStored.toNat).getD 0

def setItemCount (t : Thing) (n : ℕ) : Thing := .node (t.label.setItemCount n) t.children

mutual

/-- The owner of an item; a container without one has that of the first item with one. -/
def getOwnerId : Thing → BitVec 64
  | .node o cs =>
    if o.itemOwnerId ≠ 0 then o.itemOwnerId else if o.storage.isSome then listOwnerId cs else 0

def listOwnerId : List Thing → BitVec 64
  | [] => 0
  | t :: ts => if getOwnerId t ≠ 0 then getOwnerId t else listOwnerId ts

end

def hasOwner (t : Thing) : Bool := getOwnerId t ≠ 0

/-- `Item::getWeight`, `Container::getWeight` -/
def getWeight (t : Thing) : BitVec 32 :=
  t.label.itemWeight types + (t.label.storage.map Storage.totalWeight).getD 0

/-- Attributes that both have are the same, `Store` apart; strings are the same object. -/
def equals (t compareItem : Thing) : Bool :=
  let o := t.label
  let o' := compareItem.label
  o.id = o'.id && o.isStoreItem = o'.isStoreItem && getOwnerId t = getOwnerId compareItem &&
  (allIntegerAttributes.all fun a => a = .store ||
    match o.ints a, o'.ints a with
    | some v, some v' => v = v'
    | _, _ => true) &&
  allStringAttributes.all fun a =>
    match o.strings a, o'.strings a with
    | some _, some _ => o.stringRefs a = o'.stringRefs a
    | _, _ => true

/-- A stack that is not full and that the item can be merged with. -/
def stacksWith (t item : Thing) : Bool :=
  equals t item && t.label.getItemCount < t.label.getStackSize types

/-- `ContainerIterator`: what the containers of the queue hold, then what the containers in
    them hold. -/
def iterate : ℕ → List Thing → List Thing
  | 0, _ => []
  | _, [] => []
  | fuel + 1, c :: queue =>
    c.children ++ iterate fuel (queue ++ c.children.filter fun i => isContainer i && size i ≠ 0)

/-- The items of a container, however deep. -/
def iterator (t : Thing) : List Thing := iterate t.nodes.length [t]

def getItemHoldingCount (t : Thing) : ℕ := (iterator t).length

def getContainerHoldingCount (t : Thing) : ℕ := ((iterator t).filter isContainer).length

/-- The units of an item id in a thing and all that it holds. -/
def units (id : BitVec 16) (t : Thing) : ℕ :=
  t.sum fun o => if o.id = id then o.getItemCount else 0

end Thing

end Canary.Inventory
