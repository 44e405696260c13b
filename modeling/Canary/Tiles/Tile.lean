import Canary.Lib.FlagWord
import Canary.Lib.Transition
import Mathlib.Data.List.Basic

/-!
# Tiles

The things on a tile: the ground, items that are always on top, creatures, and the other items
(*down items*). Both kinds of items are in one vector, the down items first, with a count of
them. Among items on top, those of a lower order come first. A thing is found by an index, which
counts the ground, the items on top, the creatures and the down items, in this order.

What an item is like depends on its type, which an item may change. Some of it is noted in the
flags of the tile, which are set when an item is put on the tile, and reset when it is taken
away. A reset looks at what else is on the tile only for some of the flags.

Scripts and spectators, which are told of each change, are left out: what they do to the tile are
calls of their own. So are the zones and the house of the tile, and the container that shows its
items (`browseFields`).
-/

namespace Canary.Tiles

open FlagWord Transition

/-! ## Item types -/

inductive ItemGroup
  | none | ground | container | fluid | splash
  deriving DecidableEq, Repr

/-- `TILESTATE_FLOORCHANGE`: down, north, south, east, west, and two alternatives. -/
def floorChangeFlags : BitVec 32 := 0x7F

/-- The fields of an item type that a tile asks for. -/
structure ItemType where
  group : ItemGroup := .none
  /-- `ITEM_TYPE_MAGICFIELD` -/
  isMagicField : Bool := false
  alwaysOnTopOrder : ℕ := 0
  stackable : Bool := false
  charges : ℕ := 0
  replaceable : Bool := true
  movable : Bool := true
  blockSolid : Bool := false
  blockProjectile : Bool := false
  blockPathFind : Bool := false
  hasHeight : Bool := false
  isVertical : Bool := false
  isHorizontal : Bool := false
  floorChange : BitVec 32 := 0
  floorChange_mask : floorChange &&& floorChangeFlags = floorChange := by decide

theorem zero_and_floorChangeFlags : 0 &&& floorChangeFlags = 0 := by decide

/-! ## Items -/

/-- The classes derived from `Item` that a tile tells apart. -/
inductive ItemClass
  | item | depotLocker | teleport | magicField | trashHolder | mailbox | bed
  deriving DecidableEq, Repr

structure Item where
  id : ℕ
  class_ : ItemClass := .item
  count : ℕ := 1
  hasUniqueId : Bool := false
  actionId : Option ℕ := none

inductive ItemProperty
  | blockSolid | hasHeight | blockProjectile | blockPath | isVertical | isHorizontal | movable
  | immovableBlockSolid | immovableBlockPath | immovableNoFieldBlockPath | noFieldBlockPath
  | supportHangable
  deriving DecidableEq, Repr

def IMMOVABLE_ACTION_ID : ℕ := 100

/-- `Item::items` -/
abbrev ItemTypes := ℕ → ItemType

namespace Item

variable (types : ItemTypes) (item : Item)

def type : ItemType := types item.id

def isAlwaysOnTop : Bool := (item.type types).alwaysOnTopOrder ≠ 0

def canBeMoved : Bool :=
  if item.hasUniqueId then false
  else if item.actionId = some IMMOVABLE_ACTION_ID then false
  else (item.type types).movable

def hasProperty : ItemProperty → Bool
  | .blockSolid => (item.type types).blockSolid
  | .movable => item.canBeMoved types
  | .hasHeight => (item.type types).hasHeight
  | .blockProjectile => (item.type types).blockProjectile
  | .blockPath => (item.type types).blockPathFind
  | .isVertical => (item.type types).isVertical
  | .isHorizontal => (item.type types).isHorizontal
  | .immovableBlockSolid => (item.type types).blockSolid && !item.canBeMoved types
  | .immovableBlockPath => (item.type types).blockPathFind && !item.canBeMoved types
  | .immovableNoFieldBlockPath =>
    !(item.type types).isMagicField && (item.type types).blockPathFind && !item.canBeMoved types
  | .noFieldBlockPath => !(item.type types).isMagicField && (item.type types).blockPathFind
  | .supportHangable => (item.type types).isHorizontal || (item.type types).isVertical

def getTeleport : Bool := item.class_ = .teleport
def getMagicField : Bool := item.class_ = .magicField
def getMailbox : Bool := item.class_ = .mailbox
def getTrashHolder : Bool := item.class_ = .trashHolder
def getBed : Bool := item.class_ = .bed
def getDepotLocker : Bool := item.class_ = .depotLocker

def setID (newid : ℕ) : Item := { item with id := newid }

/-- A count has 8 bits. -/
def setItemCount (n : ℕ) : Item := { item with count := n % 2 ^ 8 }

/-- The liquid of a fluid, the charges of what has some, the count of other items. Only the
    count is modelled. -/
def setSubType (n : ℕ) : Item :=
  if (item.type types).group = .fluid ∨ (item.type types).group = .splash then item
  else if (item.type types).stackable then item.setItemCount n
  else if (item.type types).charges ≠ 0 then item
  else item.setItemCount n

end Item

/-! ## The state of a tile -/

/-- Things are told apart by their addresses. -/
inductive Thing
  | item (r : ℕ)
  | creature (c : ℕ)
  deriving DecidableEq, Repr

structure Tile where
  /-- The item at an address, on the tile or elsewhere. -/
  object : ℕ → Item
  ground : Option ℕ
  items : List ℕ
  downItemCount : ℕ
  creatures : List ℕ
  flags : BitVec 32

/-- The item comes before the first one that `stop` is true of. -/
def insertBefore {α : Type} (stop : α → Bool) (a : α) : List α → List α
  | [] => [a]
  | b :: l => if stop b then a :: b :: l else b :: insertBefore stop a l

theorem perm_insertBefore {α : Type} {stop : α → Bool} {a : α} {l : List α} :
    (insertBefore stop a l).Perm (a :: l) := by
  induction l with
  | nil => exact .refl _
  | cons b l ih =>
    rw [insertBefore]
    split
    · exact .refl _
    · exact (ih.cons b).trans (.swap a b l)

/-- The flags that items give, with the floor changes as one. -/
inductive TileState
  | floorChange | teleport | magicField | mailbox | trashHolder | bed | depot | blockSolid
  | blockPath | immovableBlockSolid | immovableBlockPath | immovableNoFieldBlockPath
  | noFieldBlockPath | supportsHangable | movable | isHorizontal | isVertical | blockProjectile
  | hasHeight
  deriving DecidableEq, Repr

/-- `TileFlags_t` -/
def TileState.mask : TileState → BitVec 32
  | .floorChange => floorChangeFlags
  | .teleport => 1 <<< 11
  | .magicField => 1 <<< 12
  | .mailbox => 1 <<< 13
  | .trashHolder => 1 <<< 14
  | .bed => 1 <<< 15
  | .depot => 1 <<< 16
  | .blockSolid => 1 <<< 17
  | .blockPath => 1 <<< 18
  | .immovableBlockSolid => 1 <<< 19
  | .immovableBlockPath => 1 <<< 20
  | .immovableNoFieldBlockPath => 1 <<< 21
  | .noFieldBlockPath => 1 <<< 22
  | .supportsHangable => 1 <<< 23
  | .movable => 1 <<< 24
  | .isHorizontal => 1 <<< 25
  | .isVertical => 1 <<< 26
  | .blockProjectile => 1 <<< 27
  | .hasHeight => 1 <<< 28

namespace Tile

variable (types : ItemTypes) (t : Tile)

def downItems : List ℕ := t.items.take t.downItemCount

def topItems : List ℕ := t.items.drop t.downItemCount

/-- The vector is put together again from its halves. -/
def withItems (down top : List ℕ) : Tile :=
  { t with items := down ++ top, downItemCount := down.length }

/-- `getThingIndex` returns -1 if there is none. -/
def getThingIndex : Thing → Option ℕ
  | .item r =>
    if t.ground = some r then some 0
    else
      let n := t.ground.toList.length
      if (t.object r).isAlwaysOnTop types then (t.topItems.idxOf? r).map (n + ·)
      else (t.downItems.idxOf? r).map (n + t.topItems.length + t.creatures.length + ·)
  | .creature c =>
    let n := t.ground.toList.length
    (t.creatures.idxOf? c).map (n + t.topItems.length + ·)

def getThing (index : ℕ) : Option Thing :=
  match t.ground, index with
  | some ground, 0 => some (.item ground)
  | ground, index =>
    let index := index - ground.toList.length
    if index < t.topItems.length then t.items[t.downItemCount + index]?.map .item
    else
      let index := index - t.topItems.length
      if index < t.creatures.length then t.creatures[index]?.map .creature
      else
        let index := index - t.creatures.length
        if index < t.downItemCount then t.items[index]?.map .item else none

/-- What is on the tile, in the order of the indices. -/
def things : List Thing :=
  t.ground.toList.map .item ++ t.topItems.map .item ++ t.creatures.map .creature ++
    t.downItems.map .item

def getThingCount : ℕ := t.creatures.length + t.items.length + t.ground.toList.length

/-- The items on the tile. -/
def onTile : List ℕ := t.ground.toList ++ t.items

/-! ## Flags -/

def hasFlag (flag : TileState) : Bool := hasBitSet t.flags flag.mask

/-- An item other than the excluded one has the property. -/
def hasProperty (exclude : ℕ) (prop : ItemProperty) : Bool :=
  t.onTile.any fun r => r ≠ exclude && (t.object r).hasProperty types prop

/-- One `if` of `setTileFlags`. -/
def setIf (c : Bool) (flag : TileState) (flags : BitVec 32) : BitVec 32 :=
  if c then setFlag flags flag.mask else flags

def setTileFlags (r : ℕ) : Tile :=
  let item := t.object r
  let floorChange := (item.type types).floorChange
  let flags :=
    if !t.hasFlag .floorChange ∧ floorChange ≠ 0 then setFlag t.flags floorChange else t.flags
  let flags := setIf (item.hasProperty types .immovableBlockSolid) .immovableBlockSolid flags
  let flags := setIf (item.hasProperty types .blockPath) .blockPath flags
  let flags := setIf (item.hasProperty types .noFieldBlockPath) .noFieldBlockPath flags
  let flags := setIf (item.hasProperty types .immovableNoFieldBlockPath)
    .immovableNoFieldBlockPath flags
  let flags := setIf (item.hasProperty types .supportHangable) .supportsHangable flags
  let flags := setIf item.getTeleport .teleport flags
  let flags := setIf item.getMagicField .magicField flags
  let flags := setIf item.getMailbox .mailbox flags
  let flags := setIf item.getTrashHolder .trashHolder flags
  let flags := setIf (item.hasProperty types .blockSolid) .blockSolid flags
  let flags := setIf item.getBed .bed flags
  let flags := setIf (item.hasProperty types .immovableBlockPath) .immovableBlockPath flags
  let flags := setIf (item.hasProperty types .movable) .movable flags
  let flags := setIf (item.hasProperty types .isHorizontal) .isHorizontal flags
  let flags := setIf (item.hasProperty types .isVertical) .isVertical flags
  let flags := setIf (item.hasProperty types .blockProjectile) .blockProjectile flags
  let flags := setIf (item.hasProperty types .hasHeight) .hasHeight flags
  let flags := setIf item.getDepotLocker .depot flags
  let flags := setIf (item.hasProperty types .supportHangable) .supportsHangable flags
  { t with flags := flags }

/-- One `if` of `resetTileFlags`. -/
def resetIf (c : Bool) (flag : TileState) (flags : BitVec 32) : BitVec 32 :=
  if c then resetFlag flags flag.mask else flags

/-- The item has the property, and no other item on the tile does. -/
def onlyOne (r : ℕ) (prop : ItemProperty) : Bool :=
  (t.object r).hasProperty types prop && !t.hasProperty types r prop

def resetTileFlags (r : ℕ) : Tile :=
  let item := t.object r
  let flags := resetIf ((item.type types).floorChange ≠ 0) .floorChange t.flags
  let flags := resetIf (t.onlyOne types r .blockSolid) .blockSolid flags
  let flags := resetIf (t.onlyOne types r .immovableBlockSolid) .immovableBlockSolid flags
  let flags := resetIf (t.onlyOne types r .blockPath) .blockPath flags
  let flags := resetIf (t.onlyOne types r .noFieldBlockPath) .noFieldBlockPath flags
  let flags := resetIf (t.onlyOne types r .immovableBlockPath) .immovableBlockPath flags
  let flags := resetIf (t.onlyOne types r .immovableNoFieldBlockPath)
    .immovableNoFieldBlockPath flags
  let flags := resetIf (t.onlyOne types r .movable) .movable flags
  let flags := resetIf (t.onlyOne types r .isHorizontal) .isHorizontal flags
  let flags := resetIf (t.onlyOne types r .isVertical) .isVertical flags
  let flags := resetIf (t.onlyOne types r .blockProjectile) .blockProjectile flags
  let flags := resetIf (t.onlyOne types r .hasHeight) .hasHeight flags
  let flags := resetIf item.getTeleport .teleport flags
  let flags := resetIf item.getMagicField .magicField flags
  let flags := resetIf item.getMailbox .mailbox flags
  let flags := resetIf item.getTrashHolder .trashHolder flags
  let flags := resetIf item.getBed .bed flags
  let flags := resetIf item.getDepotLocker .depot flags
  let flags := resetIf (item.hasProperty types .supportHangable) .supportsHangable flags
  { t with flags := flags }

/-! ## Removing things -/

/-- Part of a stack is taken. -/
def takeFromStack (r count : ℕ) : Tile :=
  let newCount := max 0 (((t.object r).count - count : ℤ).bmod (2 ^ 32))
  { t with object := Function.update t.object r ((t.object r).setItemCount newCount.toNat) }

def removeThing (thing : Thing) (count : ℕ) : Tile :=
  match thing with
  | .creature c => { t with creatures := t.creatures.erase c }
  | .item r =>
    if t.getThingIndex types (.item r) = none then t
    else if t.ground = some r then { t with ground := none }.resetTileFlags types r
    else if (t.object r).isAlwaysOnTop types then
      if r ∈ t.topItems then
        (t.withItems t.downItems (t.topItems.erase r)).resetTileFlags types r
      else t
    else if r ∈ t.downItems then
      if ((t.object r).type types).stackable ∧ count ≠ (t.object r).count then
        t.takeFromStack r count
      else (t.withItems (t.downItems.erase r) t.topItems).resetTileFlags types r
    else t

/-! ## Adding things -/

/-- The item is inserted among those on top. -/
def insertTop (stop : ℕ → Bool) (r : ℕ) : Tile :=
  t.withItems t.downItems (insertBefore stop r t.topItems)

/-- The item becomes the first of the down items. -/
def insertDown (r : ℕ) : Tile := t.withItems (r :: t.downItems) t.topItems

/-- `alwaysOnTopOrder` of the item at an address. -/
def order (r : ℕ) : ℕ := ((t.object r).type types).alwaysOnTopOrder

/-- An old splash goes when a splash is added. -/
def removeOldSplash : Tile :=
  match t.topItems.find? fun r => ((t.object r).type types).group = .splash with
  | some oldSplash => t.removeThing types (.item oldSplash) 1
  | none => t

/-- The field that keeps a field from being added, or goes when one is. -/
def oldField : Option ℕ := t.downItems.find? fun r => (t.object r).getMagicField

def addItem (r : ℕ) : Tile :=
  if t.items.length ≥ 0xFFFF then t
  else if ((t.object r).type types).group = .ground then
    match t.ground with
    | none => { t with ground := some r }.setTileFlags types r
    | some oldGround =>
      ({ t with ground := some r }.resetTileFlags types oldGround).setTileFlags types r
  else if (t.object r).isAlwaysOnTop types then
    let t := if ((t.object r).type types).group = .splash then t.removeOldSplash types else t
    (t.insertTop (fun top => t.order types r ≤ t.order types top) r).setTileFlags types r
  else
    match if ((t.object r).type types).isMagicField then t.oldField else none with
    | none => (t.insertDown r).setTileFlags types r
    | some oldField =>
      if ((t.object oldField).type types).replaceable then
        ((t.removeThing types (.item oldField) 1).insertDown r).setTileFlags types r
      else t

def addThing : Thing → Tile
  | .creature c => { t with creatures := c :: t.creatures }
  | .item r => t.addItem types r

def internalAddItem (r : ℕ) : Tile :=
  if ((t.object r).type types).group = .ground then
    match t.ground with
    | none => { t with ground := some r }.setTileFlags types r
    | some _ => t
  else if t.items.length ≥ 0xFFFF then t
  else if (t.object r).isAlwaysOnTop types then
    (t.insertTop (fun top => t.order types top > t.order types r) r).setTileFlags types r
  else (t.insertDown r).setTileFlags types r

def internalAddThing : Thing → Tile
  | .creature c => { t with creatures := c :: t.creatures }
  | .item r => t.internalAddItem types r

/-! ## Items that change, or are replaced -/

/-- `setID` and `setSubType`. -/
def changeItem (r itemId count : ℕ) : Tile :=
  { t with object :=
            Function.update t.object r (((t.object r).setID itemId).setSubType types count) }

def updateThing (thing : Thing) (itemId count : ℕ) : Tile :=
  match thing with
  | .creature _ => t
  | .item r =>
    if t.getThingIndex types (.item r) = none then t
    else ((t.resetTileFlags types r).changeItem types r itemId count).setTileFlags types r

/-- The item at the index goes, another one takes its place. It returns both, if there is
    an item at the index. -/
def exchange (index r : ℕ) : Option (ℕ × Tile) :=
  match t.ground, index with
  | some oldItem, 0 => some (oldItem, { t with ground := some r })
  | ground, index =>
    let pos := index - ground.toList.length
    if pos < t.topItems.length then
      t.topItems[pos]?.map fun oldItem => (oldItem, t.withItems t.downItems (t.topItems.set pos r))
    else
      let pos := pos - t.topItems.length
      if pos < t.creatures.length then none
      else
        let pos := pos - t.creatures.length
        t.downItems[pos]?.map fun oldItem =>
          (oldItem, t.withItems (t.downItems.set pos r) t.topItems)

def replaceThing (index : ℕ) (thing : Thing) : Tile :=
  match thing with
  | .creature _ => t
  | .item r =>
    match t.exchange index r with
    | none => t
    | some (oldItem, t) => (t.resetTileFlags types oldItem).setTileFlags types r

/-! ## Runs -/

inductive Op
  | addThing (thing : Thing)
  | internalAddThing (thing : Thing)
  | removeThing (thing : Thing) (count : ℕ)
  | updateThing (thing : Thing) (itemId count : ℕ)
  | replaceThing (index : ℕ) (thing : Thing)
  /-- Between the calls, items that are not on the tile change. -/
  | elsewhere (object : ℕ → Item)

def apply : Op → Tile
  | .addThing thing => t.addThing types thing
  | .internalAddThing thing => t.internalAddThing types thing
  | .removeThing thing count => t.removeThing types thing count
  | .updateThing thing itemId count => t.updateThing types thing itemId count
  | .replaceThing index thing => t.replaceThing types index thing
  | .elsewhere object => { t with object := object }

/-- What callers see to. `transformItem` takes an item away, and adds it again, if its new type
    is on top and its type is not, or the other way round; `transform` replaces an item by a
    new one. -/
def Called : Op → Prop
  | .addThing thing => thing ∉ t.things
  | .internalAddThing thing => thing ∉ t.things
  | .removeThing _ _ => True
  | .updateThing thing itemId _ => ∀ r, thing = .item r →
    ((types itemId).alwaysOnTopOrder = 0 ↔ t.order types r = 0)
  | .replaceThing index thing =>
    thing ∉ t.things ∧ ∃ r, t.getThingIndex types (.item r) = some index
  | .elsewhere object => ∀ r ∈ t.onTile, object r = t.object r

/-- A tile that was just made. -/
def empty (object : ℕ → Item) : Tile :=
  { object := object, ground := none, items := [], downItemCount := 0, creatures := [], flags := 0 }

/-- The runs of the calls on a tile. -/
def system : System Tile Op where
  init t := ∃ object, t = empty object
  step t op t' := t.Called types op ∧ t' = t.apply types op

/-! ## The halves of the vector -/

variable {types t}

theorem items_eq : t.items = t.downItems ++ t.topItems :=
  (List.take_append_drop t.downItemCount t.items).symm

@[simp]
theorem downItems_withItems {down top : List ℕ} : (t.withItems down top).downItems = down :=
  List.take_left

@[simp]
theorem topItems_withItems {down top : List ℕ} : (t.withItems down top).topItems = top :=
  List.drop_left

theorem onTile_eq : t.onTile = t.ground.toList ++ (t.downItems ++ t.topItems) := by
  rw [onTile, items_eq]

theorem mem_onTile {r : ℕ} :
    r ∈ t.onTile ↔ t.ground = some r ∨ r ∈ t.downItems ∨ r ∈ t.topItems := by
  simp only [onTile_eq, List.mem_append, Option.mem_toList]

theorem item_mem_things {r : ℕ} : Thing.item r ∈ t.things ↔ r ∈ t.onTile := by
  simp [things, mem_onTile]
  tauto

theorem creature_mem_things {c : ℕ} : Thing.creature c ∈ t.things ↔ c ∈ t.creatures := by
  simp [things]

/-- The item `r` has taken the place of the item `old`. -/
inductive Exchanged (t : Tile) (old r : ℕ) : Tile → Prop
  | ground : t.ground = some old → Exchanged t old r { t with ground := some r }
  | top {before behind : List ℕ} : t.topItems = before ++ old :: behind →
      Exchanged t old r (t.withItems t.downItems (before ++ r :: behind))
  | down {before behind : List ℕ} : t.downItems = before ++ old :: behind →
      Exchanged t old r (t.withItems (before ++ r :: behind) t.topItems)

theorem exchanged_of_exchange {index old r : ℕ} {u : Tile}
    (h : t.exchange index r = some (old, u)) : Exchanged t old r u := by
  unfold exchange at h
  split at h
  next hground =>
    cases h
    exact .ground hground
  · dsimp only at h
    split_ifs at h
    all_goals
      obtain ⟨item, hget, heq⟩ := Option.map_eq_some_iff.1 h
      obtain ⟨hlt, rfl⟩ := List.getElem?_eq_some_iff.1 hget
      obtain ⟨before, behind, hsplit, -, hset⟩ := @List.exists_of_set _ _ r _ hlt
      cases heq
      rw [hset]
    · exact .top hsplit
    · exact .down hsplit

end Tile

end Canary.Tiles
