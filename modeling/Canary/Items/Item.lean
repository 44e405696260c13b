import Canary.Lib.Bytes
import Canary.Lib.SortedMap
import Mathlib.Logic.Function.Basic

/-!
# Items

Items as the server holds them: an item has a type in the table of item types, a stack count,
attributes with an integer or a string as value, and custom attributes under names of their
own. `Item.createItem` makes a fresh item of a type, of the class the type asks for.

Integers are 64 bits wide in the attributes; a reader asks for one as a narrower type
(`Item.getAttribute`).
-/

namespace Canary.Items

open Bytes (Scalar)

instance linearOrderUInt8 : LinearOrder UInt8 where
  le_refl := UInt8.le_refl
  le_trans _ _ _ := UInt8.le_trans
  lt_iff_le_not_ge a b := by
    rw [UInt8.not_le]
    exact ⟨fun h => ⟨UInt8.le_of_lt h, h⟩, fun h => h.2⟩
  le_antisymm _ _ := UInt8.le_antisymm
  le_total := UInt8.le_total
  toDecidableLE := inferInstance

/-! ## Attributes -/

/-- The attributes with an integer as value (`isAttributeInteger`). -/
inductive IntegerAttribute
  | store | actionId | uniqueId | date | weight | attack | defense | extraDefense | armor
  | hitChance | shootRange | owner | duration | decayState | corpseOwner | charges | fluidType
  | doorId | imbuementSlot | openContainer | quickLootContainer | durationTimestamp | tier | amount
  deriving DecidableEq, Repr

/-- The attributes with a string as value (`isAttributeString`). -/
inductive StringAttribute
  | description | text | writer | name | article | pluralName | special | lootMessageSuffix
  | storeInboxCategory
  deriving DecidableEq, Repr

/-- The value of a custom attribute, a `double` by its bits. -/
inductive CustomAttribute
  | int64 (v : BitVec 64)
  | string (v : List UInt8)
  | double (v : BitVec 64)
  | bool (v : Bool)
  deriving DecidableEq

/-- The characters of an ASCII text. -/
def ascii (text : String) : List UInt8 := text.toList.map fun c => UInt8.ofNat c.toNat

def tolower (c : UInt8) : UInt8 := if 65 ≤ c ∧ c ≤ 90 then c + 32 else c

def asLowerCaseString (source : List UInt8) : List UInt8 := source.map tolower

@[simp] theorem tolower_tolower (c : UInt8) : tolower (tolower c) = tolower c := by
  unfold tolower
  split
  · next h =>
    have h₁ := UInt8.le_iff_toNat_le.1 h.1
    have h₂ := UInt8.le_iff_toNat_le.1 h.2
    rw [if_neg]
    intro h'
    have h₃ := UInt8.le_iff_toNat_le.1 h'.2
    simp at h₁ h₂ h₃
    omega
  · rfl

@[simp] theorem asLowerCaseString_idem (source : List UInt8) :
    asLowerCaseString (asLowerCaseString source) = asLowerCaseString source := by
  simp [asLowerCaseString]

/-- The custom attributes of an item, under names in lower case. -/
structure CustomAttributeMap where
  entries : SortedMap (List UInt8) CustomAttribute
  lower : ∀ e ∈ entries.entries, asLowerCaseString e.1 = e.1

namespace CustomAttributeMap

theorem eq_of_entries {m m' : CustomAttributeMap} (h : m.entries = m'.entries) : m = m' := by
  cases m
  cases m'
  cases h
  rfl

def empty : CustomAttributeMap := ⟨.empty, fun _ h => absurd h List.not_mem_nil⟩

def addCustomAttribute (key : List UInt8) (v : CustomAttribute) (m : CustomAttributeMap) :
    CustomAttributeMap where
  entries := m.entries.insert (asLowerCaseString key) v
  lower e he := by
    rcases SortedMap.mem_insertEntry he with rfl | he
    · exact asLowerCaseString_idem key
    · exact m.lower e he

def getCustomAttribute (key : List UInt8) (m : CustomAttributeMap) : Option CustomAttribute :=
  m.entries.lookup (asLowerCaseString key)

/-- The entries of a map, added one after the other to an empty map, give the map back. -/
theorem foldl_addCustomAttribute (m : CustomAttributeMap) :
    m.entries.entries.foldl (fun c e => c.addCustomAttribute e.1 e.2) empty = m := by
  suffices h : ∀ (l : List (List UInt8 × CustomAttribute)) (c : CustomAttributeMap),
      (∀ e ∈ l, asLowerCaseString e.1 = e.1) →
      (l.foldl (fun c e => c.addCustomAttribute e.1 e.2) c).entries =
        l.foldl (fun t e => t.insert e.1 e.2) c.entries by
    refine eq_of_entries ((h _ _ m.lower).trans ?_)
    exact m.entries.foldl_insert
  intro l
  induction l with
  | nil => exact fun _ _ => rfl
  | cons e l ih =>
    intro c hl
    have he : asLowerCaseString e.1 = e.1 := hl e List.mem_cons_self
    rw [List.foldl_cons, List.foldl_cons, ih _ fun d hd => hl d (List.mem_cons_of_mem _ hd)]
    simp only [addCustomAttribute, he]

end CustomAttributeMap

/-! ## Item types -/

inductive ItemGroup
  | none | ground | container | splash | fluid
  deriving DecidableEq, Repr

/-- The types items are told apart by when they are made. -/
inductive ItemTypes
  | depot | mailbox | trashHolder | door | magicField | teleport | bed | rewardChest | other
  deriving DecidableEq, Repr

/-- An entry of the table of item types; the id 0 stands for no type. -/
structure ItemType where
  id : BitVec 16
  group : ItemGroup
  type : ItemTypes
  stackable : Bool
  movable : Bool
  charges : BitVec 32
  decayTime : BitVec 32
  deriving Repr

namespace ItemType

def isContainer (it : ItemType) : Bool := it.group = .container
def isSplash (it : ItemType) : Bool := it.group = .splash
def isFluidContainer (it : ItemType) : Bool := it.group = .fluid

/-- The sub type is the kind of fluid. -/
def hasFluid (it : ItemType) : Bool := it.isFluidContainer || it.isSplash

end ItemType

/-- The class of an item. -/
inductive ItemClass
  | item | container | depotLocker | rewardChest | teleport | magicField | door | trashHolder
  | mailbox | bed
  deriving DecidableEq, Repr

structure Position where
  x : BitVec 16
  y : BitVec 16
  z : BitVec 8
  deriving DecidableEq, Repr

/-- What the items code asks the rest of the server. -/
structure Server where
  /-- `Item::items[id]` -/
  items : BitVec 16 → ItemType
  /-- `FORGE_MAX_ITEM_TIER` -/
  forgeMaxItemTier : Int
  /-- `OTSYS_TIME()` -/
  time : BitVec 64
  /-- `getTimeNow()` -/
  timeNow : BitVec 64
  /-- `IOLoginData::getNameByGuid`, empty if there is no such player -/
  nameByGuid : BitVec 32 → List UInt8
  /-- `Game::addUniqueItem` -/
  addUniqueItem : BitVec 16 → Bool

/-- The types that items are made as another type of, when they are made as plain items. -/
def itemTransformationMap (id : BitVec 16) : Option (BitVec 16) :=
  List.lookup id [(3094, 3091), (3096, 3093), (3099, 3097), (3100, 3098), (3086, 3049),
    (3090, 3053), (3549, 6529), (6300, 6299), (16264, 16114), (25757, 35901)]

/-- `ITEM_HIRELING_LAMP` -/
def hirelingLamp : BitVec 16 := 29432

/-! ## Items -/

/-- An item. The fields after `custom` are those of the classes `Container`, `Teleport`,
    `DepotLocker` and `BedItem`. -/
structure Item where
  class_ : ItemClass
  id : BitVec 16
  count : BitVec 8 := 1
  ints : IntegerAttribute → Option (BitVec 64) := fun _ => none
  strings : StringAttribute → Option (List UInt8) := fun _ => none
  custom : CustomAttributeMap := .empty
  serializationCount : BitVec 32 := 0
  destPos : Position := ⟨0, 0, 0⟩
  depotId : BitVec 16 := 0
  sleeperGUID : BitVec 32 := 0
  sleepStart : BitVec 64 := 0

namespace Item

/-- `Item::getContainer` is not null. -/
def isContainer (item : Item) : Bool :=
  item.class_ = .container || item.class_ = .rewardChest || item.class_ = .depotLocker

def hasAttribute (item : Item) (a : IntegerAttribute) : Bool := (item.ints a).isSome

/-- `getAttribute<T>` -/
def getAttribute (item : Item) (T : Scalar) (a : IntegerAttribute) : BitVec 64 :=
  T.cast ((item.ints a).getD 0)

def setAttribute (item : Item) (a : IntegerAttribute) (v : BitVec 64) : Item :=
  { item with ints := Function.update item.ints a (some v) }

def hasString (item : Item) (a : StringAttribute) : Bool := (item.strings a).isSome

def getString (item : Item) (a : StringAttribute) : List UInt8 := (item.strings a).getD []

/-- Setting a string attribute to the empty string does nothing. -/
def setString (item : Item) (a : StringAttribute) (v : List UInt8) : Item :=
  if v = [] then item else { item with strings := Function.update item.strings a (some v) }

def removeString (item : Item) (a : StringAttribute) : Item :=
  { item with strings := Function.update item.strings a none }

def addCustomAttribute (item : Item) (key : List UInt8) (v : CustomAttribute) : Item :=
  { item with custom := item.custom.addCustomAttribute key v }

/-- `setDuration(int32_t)` -/
def setDuration (item : Item) (time : BitVec 64) : Item :=
  let time := Scalar.i32.cast time
  item.setAttribute .duration (if time.slt 0 then 0 else time)

/-- `DECAYING_TRUE` -/
def decayingTrue : BitVec 64 := 1
/-- `DECAYING_PENDING` -/
def decayingPending : BitVec 64 := 2
/-- `DECAYING_STOPPING` -/
def decayingStopping : BitVec 64 := 3

def getDecaying (item : Item) : BitVec 64 := Scalar.u8.cast ((item.ints .decayState).getD 0)

variable (server : Server)

/-- The duration left: up to the time stamp while the item decays. -/
def getDuration (item : Item) : BitVec 64 :=
  if item.getDecaying = decayingTrue ∨ item.getDecaying = decayingStopping then
    let left := Scalar.i32.cast
      (item.getAttribute .i32 .durationTimestamp - Scalar.i32.cast server.time)
    if left.slt 0 then 0 else left
  else item.getAttribute .i32 .duration

def getTier (item : Item) : BitVec 64 :=
  if item.hasAttribute .tier then
    let tier := item.getAttribute .u8 .tier
    if (tier.toNat : Int) > server.forgeMaxItemTier then 0 else tier
  else 0

def getSubType (item : Item) : BitVec 64 :=
  let it := server.items item.id
  if it.hasFluid then item.getAttribute .u16 .fluidType
  else if it.stackable then item.count.setWidth 64
  else if it.charges ≠ 0 then item.getAttribute .u16 .charges
  else item.count.setWidth 64

def setSubType (item : Item) (n : BitVec 64) : Item :=
  let it := server.items item.id
  if it.hasFluid then item.setAttribute .fluidType n
  else if it.stackable then { item with count := n.setWidth 8 }
  else if it.charges ≠ 0 then item.setAttribute .charges n
  else { item with count := n.setWidth 8 }

def addUniqueId (item : Item) (uniqueId : BitVec 64) : Item :=
  if item.hasAttribute .uniqueId then item
  else if server.addUniqueItem (uniqueId.setWidth 16) then item.setAttribute .uniqueId uniqueId
  else item

/-- A fresh item before the default duration is set: the count is the fluid, the stack count
    or the charges. -/
def withDefaultSubtype (class_ : ItemClass) (itemId : BitVec 16) (itemCount : BitVec 16) : Item :=
  let it := server.items itemId
  let item : Item := { class_, id := itemId }
  if it.hasFluid then
    -- std::clamp<uint16_t>(itemCount, 1, FLUID_INK)
    item.setAttribute .fluidType
      (if itemCount < 1 then 1 else if 18 < itemCount then 18 else itemCount.setWidth 64)
  else if it.stackable then
    if itemCount ≠ 0 then { item with count := itemCount.setWidth 8 }
    else if it.charges ≠ 0 then { item with count := it.charges.setWidth 8 }
    else item
  else if it.charges ≠ 0 then
    item.setAttribute .charges (if itemCount ≠ 0 then itemCount.setWidth 64
      else it.charges.setWidth 64)
  else item

/-- `setDefaultDuration` -/
def setDefaultDuration (item : Item) : Item :=
  let duration := (server.items item.id).decayTime * 1000
  if duration ≠ 0 then item.setDuration (duration.setWidth 64) else item

/-- The constructor of `Item`, and of the classes derived from it: a bed starts without
    sleeper. -/
def new (class_ : ItemClass) (itemId : BitVec 16) (itemCount : BitVec 16) : Item :=
  let item := (withDefaultSubtype server class_ itemId itemCount).setDefaultDuration server
  if class_ = .bed then item.setString .description (ascii "Nobody is sleeping there.") else item

/-- The class that items of a type are made as. -/
def classOf (it : ItemType) : ItemClass :=
  if it.type = .depot then .depotLocker
  else if it.type = .rewardChest then .rewardChest
  else if it.isContainer then .container
  else if it.type = .teleport then .teleport
  else if it.type = .magicField then .magicField
  else if it.type = .door then .door
  else if it.type = .trashHolder then .trashHolder
  else if it.type = .mailbox then .mailbox
  else if it.type = .bed then .bed
  else .item

/-- The type a fresh item gets in place of the one asked for. -/
def createdId (type : BitVec 16) : BitVec 16 :=
  let it := server.items type
  if classOf it = .item then (itemTransformationMap it.id).getD type else type

/-- `Item::CreateItem(type)`, with the default count. -/
def createItem (type : BitVec 16) : Option Item :=
  let it := server.items type
  if it.id ≠ 0 then
    let count := if it.stackable then 1 else 0
    some (new server (classOf it) (createdId server type)
      (if classOf it = .item then count else 0))
  else none

end Item

end Canary.Items
