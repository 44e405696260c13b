import Canary.Items.Item
import Canary.Lib.Tagged

/-!
# Saving and loading items

An item is saved as its id and its attributes, each a tag byte and a value, up to the tag 0.
The classes derived from `Item` write and read attributes of their own. A container hides its
contents in the attributes: the last tag is `ATTR_CONTAINER_ITEMS` with the number of items,
which follow one after the other, from the last to the first.

The functions that return a `bool` and change the stream and the parent give `none` for
`false`. The parent here is a container without parent, which has no tile: items are made
anew, and nothing in it decays.
-/

namespace Canary.Items

open Bytes (Scalar readString writeString)
open Tagged (Outcome)

/-- The tags (`AttrTypes_t`). -/
inductive AttrTypes
  | store | tileFlags | actionId | uniqueId | text | desc | teleDest | item | depotId | runeCharges
  | houseDoorId | count | duration | decayingState | writtenDate | writtenBy | sleeperGuid
  | sleepStart | charges | containerItems | name | article | pluralName | weight | attack | defense
  | extraDefense | armor | hitChance | shootRange | special | imbuementSlot | openContainer
  | customAttributes | quickLootContainer | amount | tier | custom | storeInboxCategory | owner
  deriving DecidableEq, Repr

namespace AttrTypes

def toByte : AttrTypes → UInt8
  | store => 1 | tileFlags => 3 | actionId => 4 | uniqueId => 5 | text => 6 | desc => 7
  | teleDest => 8 | item => 9 | depotId => 10 | runeCharges => 12 | houseDoorId => 14 | count => 15
  | duration => 16 | decayingState => 17 | writtenDate => 18 | writtenBy => 19 | sleeperGuid => 20
  | sleepStart => 21 | charges => 22 | containerItems => 23 | name => 24 | article => 25
  | pluralName => 26 | weight => 27 | attack => 28 | defense => 29 | extraDefense => 30
  | armor => 31 | hitChance => 32 | shootRange => 33 | special => 34 | imbuementSlot => 35
  | openContainer => 36 | customAttributes => 37 | quickLootContainer => 38 | amount => 39
  | tier => 40 | custom => 41 | storeInboxCategory => 42 | owner => 43

def all : List AttrTypes :=
  [store, tileFlags, actionId, uniqueId, text, desc, teleDest, item, depotId, runeCharges,
    houseDoorId, count, duration, decayingState, writtenDate, writtenBy, sleeperGuid, sleepStart,
    charges, containerItems, name, article, pluralName, weight, attack, defense, extraDefense,
    armor, hitChance, shootRange, special, imbuementSlot, openContainer, customAttributes,
    quickLootContainer, amount, tier, custom, storeInboxCategory, owner]

/-- The tag of a byte, if it is one. -/
def ofByte (b : UInt8) : Option AttrTypes := all.find? fun a => a.toByte = b

@[simp] theorem ofByte_toByte (a : AttrTypes) : ofByte a.toByte = some a := by
  cases a <;> decide

theorem toByte_ne_zero (a : AttrTypes) : a.toByte ≠ 0 := by
  cases a <;> decide

end AttrTypes

/-! ## Custom attributes -/

namespace CustomAttribute

def serialize : CustomAttribute → List UInt8
  | string v => Scalar.u8.write 1 ++ writeString v
  | int64 v => Scalar.u8.write 2 ++ Scalar.i64.write v
  | double v => Scalar.u8.write 3 ++ Scalar.u64.write v
  | bool v => Scalar.u8.write 4 ++ Scalar.u8.write (if v then 1 else 0)

def unserialize (s : List UInt8) : Option (CustomAttribute × List UInt8) :=
  match Scalar.u8.read s with
  | none => none
  | some (type, s) =>
    if type = 1 then (readString s).map fun (v, s) => (string v, s)
    else if type = 2 then (Scalar.i64.read s).map fun (v, s) => (int64 v, s)
    else if type = 3 then (Scalar.u64.read s).map fun (v, s) => (double v, s)
    else if type = 4 then (Scalar.u8.read s).map fun (v, s) => (bool (v ≠ 0), s)
    else none

end CustomAttribute

namespace Item

/-! ## Writing attributes -/

/-- The tag and the value of an attribute, written under a condition. -/
def writeAttr (c : Prop) [Decidable c] (attr : AttrTypes) (value : List UInt8) : List UInt8 :=
  if c then attr.toByte :: value else []

variable (server : Server)

/-- The size, the names and the values of the custom attributes. -/
def serializeCustom (item : Item) : List UInt8 :=
  Scalar.u64.write (BitVec.ofNat 64 item.custom.entries.entries.length) ++
    item.custom.entries.entries.flatMap fun e => writeString e.1 ++ e.2.serialize

/-- An attribute that is written, as a `T`, when the item has it. -/
def writeInteger (item : Item) (attr : AttrTypes) (T : Scalar) (a : IntegerAttribute) :
    List UInt8 :=
  writeAttr (item.hasAttribute a) attr (T.write (item.getAttribute T a))

/-- An attribute that is written, as a `T`, when its value is not 0. -/
def writeNonzero (item : Item) (attr : AttrTypes) (T : Scalar) (a : IntegerAttribute) :
    List UInt8 :=
  writeAttr (item.getAttribute T a ≠ 0) attr (T.write (item.getAttribute T a))

/-- A string attribute that is written when the item has it. -/
def writeText (item : Item) (attr : AttrTypes) (a : StringAttribute) : List UInt8 :=
  writeAttr (item.hasString a) attr (writeString (item.getString a))

/-- A string attribute that is written when it is not empty. -/
def writeNonempty (item : Item) (attr : AttrTypes) (a : StringAttribute) : List UInt8 :=
  writeAttr (item.getString a ≠ []) attr (writeString (item.getString a))

/-- `Item::serializeAttr` -/
def itemSerializeAttr (item : Item) : List UInt8 :=
  let it := server.items item.id
  [item.writeNonzero .store .i64 .store,
    writeAttr (it.stackable || it.hasFluid) .count (Scalar.u8.write (item.getSubType server)),
    item.writeNonzero .charges .u16 .charges,
    writeAttr (it.movable ∧ item.getAttribute .u16 .actionId ≠ 0) .actionId
      (Scalar.u16.write (item.getAttribute .u16 .actionId)),
    item.writeNonempty .text .text,
    item.writeNonzero .writtenDate .u64 .date,
    item.writeNonempty .writtenBy .writer,
    item.writeNonempty .desc .description,
    writeAttr (item.hasAttribute .duration) .duration (Scalar.i32.write (item.getDuration server)),
    writeAttr (item.getDecaying = decayingTrue ∨ item.getDecaying = decayingPending)
      .decayingState (Scalar.u8.write item.getDecaying),
    item.writeText .name .name,
    item.writeText .article .article,
    item.writeText .pluralName .pluralName,
    item.writeInteger .weight .u32 .weight,
    item.writeInteger .attack .i32 .attack,
    item.writeInteger .defense .i32 .defense,
    item.writeInteger .extraDefense .i32 .extraDefense,
    item.writeInteger .imbuementSlot .i32 .imbuementSlot,
    item.writeInteger .openContainer .u8 .openContainer,
    item.writeInteger .armor .i32 .armor,
    item.writeInteger .hitChance .i8 .hitChance,
    item.writeInteger .shootRange .u8 .shootRange,
    item.writeText .special .special,
    item.writeInteger .quickLootContainer .u32 .quickLootContainer,
    writeAttr (item.hasAttribute .tier) .tier (Scalar.u8.write (item.getTier server)),
    item.writeInteger .amount .u16 .amount,
    item.writeText .storeInboxCategory .storeInboxCategory,
    item.writeInteger .owner .u32 .owner,
    writeAttr (item.custom.entries.entries ≠ []) .custom item.serializeCustom].flatten

/-- `Teleport::serializeAttr` -/
def teleportSerializeAttr (item : Item) : List UInt8 :=
  item.itemSerializeAttr server ++ AttrTypes.teleDest.toByte ::
    (Scalar.u16.write (item.destPos.x.setWidth 64) ++
      Scalar.u16.write (item.destPos.y.setWidth 64) ++ Scalar.u8.write (item.destPos.z.setWidth 64))

/-- `BedItem::serializeAttr` -/
def bedSerializeAttr (item : Item) : List UInt8 :=
  writeAttr (item.sleeperGUID ≠ 0) .sleeperGuid (Scalar.u32.write (item.sleeperGUID.setWidth 64)) ++
    writeAttr (item.sleepStart ≠ 0) .sleepStart (Scalar.u32.write item.sleepStart)

/-- `serializeAttr`, by the class of the item: a door writes nothing. -/
def serializeAttr (item : Item) : List UInt8 :=
  match item.class_ with
  | .teleport => item.teleportSerializeAttr server
  | .door => []
  | .bed => item.bedSerializeAttr
  | _ => item.itemSerializeAttr server

/-! ## Reading attributes -/

/-- Read a `T` and go on with what is made of it. -/
def readInteger (T : Scalar) (s : List UInt8) (k : BitVec 64 → Item) : Outcome Item :=
  match T.read s with
  | none => .error
  | some (v, s) => .more (k v) s

/-- Read a string and go on with what is made of it. -/
def readText (s : List UInt8) (k : List UInt8 → Item) : Outcome Item :=
  match readString s with
  | none => .error
  | some (v, s) => .more (k v) s

/-- Skip `n` bytes. -/
def skip (n : Nat) (s : List UInt8) (item : Item) : Outcome Item :=
  match Bytes.take n s with
  | none => .error
  | some (_, s) => .more item s

/-- Read `n` names and values of custom attributes. -/
def readCustom (add : Item → List UInt8 → CustomAttribute → Item) :
    Nat → List UInt8 → Item → Outcome Item
  | 0, s, item => .more item s
  | n + 1, s, item =>
    match readString s with
    | none => .error
    | some (key, s) =>
      match CustomAttribute.unserialize s with
      | none => .error
      | some (v, s) => readCustom add n s (add item key v)

/-- Read how many custom attributes there are and then them. -/
def readCustomMap (add : Item → List UInt8 → CustomAttribute → Item) (s : List UInt8)
    (item : Item) : Outcome Item :=
  match Scalar.u64.read s with
  | none => .error
  | some (size, s) => readCustom add size.toNat s item

/-- Add a custom attribute saved the old way; an item that can be unwrapped is marked as from
    the store. -/
def addOldCustomAttribute (item : Item) (key : List UInt8) (v : CustomAttribute) : Item :=
  let item := item.addCustomAttribute key v
  if (item.custom.getCustomAttribute (ascii "unWrapId")).isSome ∧ item.getAttribute .i64 .store = 0
  then item.setAttribute .store server.timeNow else item

/-- `std::atoi`: the sign and the digits after white space, modulo the width of `int`. -/
def atoi (str : List UInt8) : BitVec 64 :=
  let str := str.dropWhile fun c => c = 32 || (9 ≤ c && c ≤ 13)
  let negative := str.head? = some 45
  let str := if str.head? = some 45 ∨ str.head? = some 43 then str.tail else str
  let n : Nat := (str.takeWhile fun c => 48 ≤ c && c ≤ 57).foldl
    (fun n c => 10 * n + (c.toNat - 48)) 0
  Scalar.i32.cast (BitVec.ofInt 64 (if negative then -n else n))

/-- An item that was saved in any state but `DECAYING_FALSE` is to start decaying again. -/
def setPending (item : Item) (state : BitVec 64) : Item :=
  if state ≠ 0 then item.setAttribute .decayState decayingPending else item

/-- Read the special attribute; that of a hireling lamp becomes a custom attribute. -/
def setSpecial (item : Item) (special : List UInt8) : Item :=
  let item := item.setString .special special
  if item.id = hirelingLamp then
    (item.removeString .special).addCustomAttribute (ascii "Hireling") (.int64 (atoi special))
  else item

/-- `Item::readAttr` -/
def itemReadAttr (attr : AttrTypes) (s : List UInt8) (item : Item) : Outcome Item :=
  match attr with
  | .store => readInteger .i64 s (item.setAttribute .store)
  | .count | .runeCharges => readInteger .u8 s (item.setSubType server)
  | .actionId => readInteger .u16 s (item.setAttribute .actionId)
  | .uniqueId => readInteger .u16 s (item.addUniqueId server)
  | .text => readText s (item.setString .text)
  | .writtenDate => readInteger .u64 s (item.setAttribute .date)
  | .writtenBy => readText s (item.setString .writer)
  | .desc => readText s (item.setString .description)
  | .charges => readInteger .u16 s (item.setSubType server)
  | .duration => readInteger .i32 s item.setDuration
  | .decayingState => readInteger .u8 s item.setPending
  | .name => readText s (item.setString .name)
  | .article => readText s (item.setString .article)
  | .pluralName => readText s (item.setString .pluralName)
  | .weight => readInteger .u32 s (item.setAttribute .weight)
  | .attack => readInteger .i32 s (item.setAttribute .attack)
  | .defense => readInteger .i32 s (item.setAttribute .defense)
  | .extraDefense => readInteger .i32 s (item.setAttribute .extraDefense)
  | .imbuementSlot => readInteger .i32 s (item.setAttribute .imbuementSlot)
  | .openContainer => readInteger .u8 s (item.setAttribute .openContainer)
  | .armor => readInteger .i32 s (item.setAttribute .armor)
  | .hitChance => readInteger .i8 s (item.setAttribute .hitChance)
  | .shootRange => readInteger .u8 s (item.setAttribute .shootRange)
  | .special => readText s item.setSpecial
  | .quickLootContainer => readInteger .u32 s (item.setAttribute .quickLootContainer)
  -- Attributes of derived classes, on an item that is no longer of the class.
  | .depotId => skip 2 s item
  | .houseDoorId => skip 1 s item
  | .sleeperGuid | .sleepStart => skip 4 s item
  | .teleDest => skip 5 s item
  | .containerItems => .error
  | .customAttributes => readCustomMap (addOldCustomAttribute server) s item
  | .tier => readInteger .u8 s (item.setAttribute .tier)
  | .amount => readInteger .u16 s (item.setAttribute .amount)
  | .custom => readCustomMap addCustomAttribute s item
  | .storeInboxCategory => readText s (item.setString .storeInboxCategory)
  | .owner => readInteger .u32 s (item.setAttribute .owner)
  | .tileFlags | .item => .error

/-- `Container::readAttr` -/
def containerReadAttr (attr : AttrTypes) (s : List UInt8) (item : Item) : Outcome Item :=
  if attr = .containerItems then
    match Scalar.u32.read s with
    | none => .error
    | some (n, s) => .finish { item with serializationCount := n.setWidth 32 } s
  else item.itemReadAttr server attr s

/-- `DepotLocker::readAttr`: the contents are not a depot locker's to read. -/
def depotLockerReadAttr (attr : AttrTypes) (s : List UInt8) (item : Item) : Outcome Item :=
  if attr = .depotId then
    readInteger .u16 s fun v => { item with depotId := v.setWidth 16 }
  else item.itemReadAttr server attr s

/-- `Teleport::readAttr` -/
def teleportReadAttr (attr : AttrTypes) (s : List UInt8) (item : Item) : Outcome Item :=
  if attr = .teleDest then
    match Scalar.u16.read s with
    | none => .error
    | some (x, s) =>
      match Scalar.u16.read s with
      | none => .error
      | some (y, s) =>
        match Scalar.u8.read s with
        | none => .error
        | some (z, s) =>
          .more { item with destPos := ⟨x.setWidth 16, y.setWidth 16, z.setWidth 8⟩ } s
  else item.itemReadAttr server attr s

/-- `Door::readAttr` -/
def doorReadAttr (attr : AttrTypes) (s : List UInt8) (item : Item) : Outcome Item :=
  if attr = .houseDoorId then readInteger .u8 s (item.setAttribute .doorId)
  else item.itemReadAttr server attr s

/-- A bed whose sleeper is known shows the name. -/
def setSleeper (item : Item) (guid : BitVec 64) : Item :=
  let name := server.nameByGuid (guid.setWidth 32)
  if guid ≠ 0 ∧ name ≠ [] then
    { item.setString .description (name ++ ascii " is sleeping there.") with
      sleeperGUID := guid.setWidth 32 }
  else item

/-- `BedItem::readAttr` -/
def bedReadAttr (attr : AttrTypes) (s : List UInt8) (item : Item) : Outcome Item :=
  if attr = .sleeperGuid then readInteger .u32 s (item.setSleeper server)
  else if attr = .sleepStart then readInteger .u32 s fun v => { item with sleepStart := v }
  else item.itemReadAttr server attr s

/-- `readAttr`, by the class of the item. -/
def readAttr (attr : AttrTypes) (s : List UInt8) (item : Item) : Outcome Item :=
  match item.class_ with
  | .container | .rewardChest => item.containerReadAttr server attr s
  | .depotLocker => item.depotLockerReadAttr server attr s
  | .teleport => item.teleportReadAttr server attr s
  | .door => item.doorReadAttr server attr s
  | .bed => item.bedReadAttr server attr s
  | .item | .magicField | .trashHolder | .mailbox => item.itemReadAttr server attr s

/-- Handle a tag byte; an unknown one is an error. -/
def readTag (t : UInt8) (s : List UInt8) (item : Item) : Outcome Item :=
  match AttrTypes.ofByte t with
  | none => .error
  | some attr => item.readAttr server attr s

/-- `Item::unserializeAttr` -/
def unserializeAttr (s : List UInt8) (item : Item) : Option (Item × List UInt8) :=
  Tagged.readAll (readTag server) s item

end Item

/-! ## Item trees -/

/-- An item with its contents, first to last. -/
inductive ItemTree
  | node (item : Item) (itemlist : List ItemTree)

namespace IOMapSerialize

variable (server : Server)

mutual

/-- `IOMapSerialize::saveItem` -/
def saveItem : ItemTree → List UInt8
  | .node item itemlist =>
    Scalar.u16.write (item.id.setWidth 64) ++ item.serializeAttr server ++
      (if item.isContainer then
        AttrTypes.containerItems.toByte ::
          (Scalar.u32.write (BitVec.ofNat 64 itemlist.length) ++ saveReversed itemlist)
      else []) ++ [0]

/-- Save items from the last to the first. -/
def saveReversed : List ItemTree → List UInt8
  | [] => []
  | t :: l => saveReversed l ++ saveItem t

end

/-- `IOMapSerialize::loadContainer`: `n` more items, and the end. -/
def loadContainer (load : List UInt8 → List ItemTree → Option (List ItemTree × List UInt8)) :
    Nat → List UInt8 → List ItemTree → Option (List ItemTree × List UInt8)
  | 0, s, itemlist =>
    match Scalar.u8.read s with
    | none => none
    | some (endAttr, s) => if endAttr ≠ 0 then none else some (itemlist, s)
  | n + 1, s, itemlist =>
    match load s itemlist with
    | none => none
    | some (itemlist, s) => loadContainer load n s itemlist

/-- `IOMapSerialize::loadItem`, for containers nested at most `n` deep. -/
def loadNested : Nat → List UInt8 → List ItemTree → Option (List ItemTree × List UInt8)
  | 0, _, _ => none
  | n + 1, s, itemlist =>
    match Scalar.u16.read s with
    | none => none
    | some (id, s) =>
      match Item.createItem server (id.setWidth 16) with
      -- An unknown type: nothing more is read.
      | none => some (itemlist, s)
      | some item =>
        match item.unserializeAttr server s with
        | none => none
        | some (item, s) =>
          if item.isContainer then
            match loadContainer (loadNested n) item.serializationCount.toNat s [] with
            | none => none
            | some (contents, s) =>
              some (.node { item with serializationCount := 0 } contents :: itemlist, s)
          else some (.node item [] :: itemlist, s)

/-- `IOMapSerialize::loadItem` into a container that holds `itemlist`: every item takes more
    than one byte, so containers nest less deep than the stream is long. -/
def loadItem (s : List UInt8) (itemlist : List ItemTree) : Option (List ItemTree × List UInt8) :=
  loadNested server s.length s itemlist

end IOMapSerialize

end Canary.Items
