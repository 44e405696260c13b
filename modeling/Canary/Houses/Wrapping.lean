import Canary.Inventory.RemoveItem
import Canary.Monsters.DistanceStep
import Canary.Tiles.Tile

/-!
# Wrapping the furniture of a house

The items of a house tile are in one vector, those on top behind the others (*down items*). When a
house is cleared, the vector is walked by index, and furniture is wrapped on the way: it becomes a
decoration kit, which has the id and the count of what it was made of. An item that is on top is
taken off the tile and put on it again for that, another one changes its type where it is, or is
replaced by a new object. A bed that is wrapped is left by who sleeps in it, which changes its type
and that of its partner, on another tile.

All the same each item is visited once (`turns_read`): at its turn an item is where it was when the
walk began, since a kit that goes to another place of the vector goes to the front of it. What comes
out are the items to be moved, with the addresses of the kits (`walked_listItems`).

What the items weigh, the beds that the house knows of, scripts, spectators, the container that
shows the items of a tile (`browseFields`), and what a teleport, a trash holder or a mailbox of the
tile does to what is put there (`Tile::postAddNotification`) are left out.
-/

namespace Canary.Houses.Wrapping

open Inventory (Object Ref Thing)
open Map (Position)
open Map.Pathfinding (Direction)
open Monsters.DistanceStep (getNextPosition)
open RoseTree
open Tiles (insertBefore)

/-! ## Item types -/

/-- `ITEM_DECORATION_KIT` -/
def decorationKit : BitVec 16 := 23398

/-- The casks of health, mana and spirit potions. -/
def isCaskItem (itemId : BitVec 16) : Bool :=
  let n := itemId.toNat
  (25879 ≤ n && n ≤ 25883) || (25889 ≤ n && n ≤ 25893) || (25899 ≤ n && n ≤ 25902)

/-- The fields of an item type that wrapping asks for, besides those of the inventory. -/
structure Furniture where
  name : List UInt8 := []
  wrapable : Bool := false
  wrapableTo : ℤ := 0
  wrapContainer : Bool := false
  alwaysOnTopOrder : ℕ := 0
  /-- The types (`ItemTypes_t`) that are not told apart as those that objects are made of. -/
  otherType : ℕ := 0
  /-- There is none in `DIRECTION_NONE`. -/
  bedPartnerDir : Option Direction := none
  transformToFree : BitVec 16 := 0

/-- Objects of the type are containers. -/
def isHolder (it : Items.ItemType) : Bool :=
  let class_ := Items.Item.classOf it
  class_ = .container || class_ = .depotLocker || class_ = .rewardChest

/-- Both are of one type of `ItemTypes_t`. -/
def sameType (it it' : Items.ItemType) (f f' : Furniture) : Bool :=
  it.type = it'.type && (it.type ≠ .other || f.otherType = f'.otherType)

/-- The tables of item types, with what holds of those of the server: decoration kits are plain
    items that can be carried away, furniture that holds items has another type than they do and is
    never on top, and beds hold nothing and cannot be picked up. -/
structure Catalogue extends Inventory.ItemTable where
  furniture : BitVec 16 → Furniture
  kit_id : (server.items decorationKit).id = decorationKit
  kit_class : Items.Item.classOf (server.items decorationKit) = .item
  kit_hasFluid : (server.items decorationKit).hasFluid = false
  kit_stackable : (server.items decorationKit).stackable = false
  kit_charges : (server.items decorationKit).charges = 0
  kit_movable : (server.items decorationKit).movable = true
  kit_pickupable : (traits decorationKit).pickupable = true
  kit_order : (furniture decorationKit).alwaysOnTopOrder = 0
  container_wrapContainer : ∀ id, (furniture id).wrapable = true → (furniture id).wrapableTo ≠ 0 →
    isHolder (server.items id) = true → (furniture id).wrapContainer = true
  container_order : ∀ id, (furniture id).wrapable = true → (furniture id).wrapableTo ≠ 0 →
    isHolder (server.items id) = true → (furniture id).alwaysOnTopOrder = 0
  container_type : ∀ id, (furniture id).wrapable = true → (furniture id).wrapableTo ≠ 0 →
    isHolder (server.items id) = true →
      sameType (server.items id) (server.items decorationKit) (furniture id)
        (furniture decorationKit) = false
  bed_group : ∀ id, (server.items id).type = .bed → (server.items id).group = .none
  bed_stackable : ∀ id, (server.items id).type = .bed → (server.items id).stackable = false
  bed_charges : ∀ id, (server.items id).type = .bed → (server.items id).charges = 0
  bed_pickupable : ∀ id, (server.items id).type = .bed → (traits id).pickupable = false
  bed_partner : ∀ id, (server.items id).type = .bed → (furniture id).bedPartnerDir ≠ none
  /-- A bed that can be wrapped still can when nobody sleeps in it. -/
  bed_free : ∀ id, (server.items id).type = .bed →
    (server.items (furniture id).transformToFree).type = .bed →
      ((furniture (furniture id).transformToFree).wrapable,
        (furniture (furniture id).transformToFree).wrapableTo ≠ 0) =
      ((furniture id).wrapable, (furniture id).wrapableTo ≠ 0)

namespace Catalogue

variable (types : Catalogue) (id : BitVec 16)

def isWrapable : Bool :=
  (types.furniture id).wrapable && decide ((types.furniture id).wrapableTo ≠ 0)

def isBed : Bool := (types.server.items id).type = .bed

def order : ℕ := (types.furniture id).alwaysOnTopOrder

/-- `curType.type == newType.type` -/
def hasType (newId : BitVec 16) : Bool :=
  sameType (types.server.items id) (types.server.items newId) (types.furniture id)
    (types.furniture newId)

/-- The type of a bed that nobody sleeps in, if it is to be changed. -/
def freeBed : Option (BitVec 16) :=
  let newId := (types.furniture id).transformToFree
  if types.isBed id ∧ newId ≠ 0 ∧ types.isBed newId then some newId else none

end Catalogue

/-! ## House tiles -/

structure HouseTile where
  down : List Thing := []
  top : List Thing := []

namespace HouseTile

variable (types : Catalogue) (t : HouseTile)

/-- `TileItemVector` -/
def items : List Thing := t.down ++ t.top

def find (r : Ref) : Option Thing := t.items.find? fun i => i.ref = r

/-- An item is changed, or replaced, where it is. -/
def update (r : Ref) (f : Thing → Thing) : HouseTile where
  down := t.down.map fun i => if i.ref = r then f i else i
  top := t.top.map fun i => if i.ref = r then f i else i

/-- `removeThing`, of all of an item. -/
def remove (r : Ref) : HouseTile where
  down := t.down.filter fun i => i.ref ≠ r
  top := t.top.filter fun i => i.ref ≠ r

/-- `addThing`, of an item that has just been taken off the tile, and is no ground, splash or magic
    field. -/
def add (item : Thing) : HouseTile :=
  let order := types.order item.label.id
  if order = 0 then { t with down := item :: t.down }
  else { t with top := insertBefore (fun i => order ≤ types.order i.label.id) item t.top }

/-- `getBedItem` -/
def getBedItem : Option Thing := t.items.reverse.find? fun i => i.label.class_ = .bed

end HouseTile

/-! ## Items -/

section object

variable (types : Catalogue) (o : Object)

/-- `setDefaultSubtype` -/
def setDefaultSubtype : Object :=
  let it := types.server.items o.id
  let o := o.setItemCount 1
  if it.charges = 0 then o
  else if it.stackable then o.setItemCount it.charges.toNat
  else o.setAttribute .charges (it.charges.setWidth 64)

/-- The item gets another id, and its sub type back (`Tile::updateThing`). -/
def updated (newId : BitVec 16) : Object :=
  let count := o.toItem.getSubType types.server
  let o := if (types.server.items newId).group = (types.server.items o.id).group then o
    else setDefaultSubtype types o
  (o.setID types.toItemTable newId).setSubType types.toItemTable count.toNat

/-- The object that takes the place of an item (`Item::transform`). The count that it is made with
    is -1, as a `uint16_t`. Its type is that of a plain item. -/
def transformed (newId : BitVec 16) (r : Ref) : Object :=
  let it := types.server.items newId
  let newItem : Object :=
    { toItem := Items.Item.new types.server (Items.Item.classOf it)
        (Items.Item.createdId types.server newId) 65535
      ref := r }
  let duration := o.toItem.getDuration types.server
  if BitVec.slt 0 duration then newItem.setDuration duration else newItem

def getName : List UInt8 :=
  if o.hasString .name then o.getString .name else (types.furniture o.id).name

def unWrapId : List UInt8 := Items.ascii "unWrapId"

def description (itemName : List UInt8) : List UInt8 :=
  Items.ascii "Unwrap it in your own house to create a <" ++ itemName ++ Items.ascii ">."

/-- What a kit is told of the item that it is made of. -/
def record (item : Object) (hiddenCharges : BitVec 16) (amount : BitVec 8) : Object :=
  let o := { o with toItem := (o.toItem.addCustomAttribute unWrapId
    (.int64 (item.id.setWidth 64))).setString .description (description (getName types item)) }
  let o := if hiddenCharges ≠ 0 then o.setAttribute .date (hiddenCharges.setWidth 64) else o
  if amount ≠ 0 then o.setAttribute .amount (amount.setWidth 64) else o

/-- `BedItem::internalRemoveSleeper` -/
def removeSleeper : Object :=
  { o with
    toItem := { o.toItem with sleeperGUID := 0, sleepStart := 0 }.setString .description
      (Items.ascii "Nobody is sleeping there.") }

end object

/-! ## Houses -/

/-- The tiles of the map. Addresses from `nextRef` on are free. -/
structure State where
  tiles : Position → HouseTile
  nextRef : Ref

namespace State

variable (types : Catalogue) (p : Position) (s : State)

def setTile (t : HouseTile) : State := { s with tiles := Function.update s.tiles p t }

/-- `Game::transformItem`, of an item on a tile. It returns the address of the item that there is
    in the end. -/
def transformItem (r : Ref) (newId : BitVec 16) : Ref × State :=
  match (s.tiles p).find r with
  | none => (r, s)
  | some item =>
    let o := item.label
    if o.id = newId then (r, s)
    else if (types.server.items newId).id = 0 then (r, s)
    else if (types.order o.id ≠ 0) ≠ (types.order newId ≠ 0) then
      -- The item is taken off the tile, and put on it again.
      let item := .node (o.setID types.toItemTable newId) item.children
      (r, s.setTile p (((s.tiles p).remove r).add types item))
    else if types.hasType o.id newId then
      (r, s.setTile p ((s.tiles p).update r fun i =>
        .node (updated types i.label newId) i.children))
    else
      let newItem := transformed types o newId s.nextRef
      (s.nextRef,
        { s.setTile p ((s.tiles p).update r fun _ => .node newItem []) with
          nextRef := s.nextRef + 1 })

/-- `BedItem::internalRemoveSleeper` -/
def internalRemoveSleeper (r : Ref) : State :=
  s.setTile p ((s.tiles p).update r fun i => .node (removeSleeper i.label) i.children)

/-- `BedItem::updateAppearance`, without a player. -/
def updateAppearance (r : Ref) : State :=
  match ((s.tiles p).find r).bind fun bed => types.freeBed bed.label.id with
  | some newId => (s.transformItem types p r newId).2
  | none => s

/-- Where the partner of a bed is. -/
def targetPos (bed : Thing) : Position :=
  match (types.furniture bed.label.id).bedPartnerDir with
  | some dir => getNextPosition dir p
  | none => p

/-- `BedItem::wakeUp`, without a player. -/
def wakeUp (r : Ref) : State :=
  match (s.tiles p).find r with
  | none => s
  | some bed =>
    if bed.label.sleeperGUID = 0 then s
    else
      let q := targetPos types p bed
      match (s.tiles q).getBedItem with
      | none => (s.internalRemoveSleeper p r).updateAppearance types p r
      | some next =>
        let s := (s.internalRemoveSleeper p r).internalRemoveSleeper q next.ref
        (s.updateAppearance types p r).updateAppearance types q next.ref

/-- `Game::wrapItem` -/
def wrapItem (r : Ref) : Ref × State :=
  match (s.tiles p).find r with
  | none => (r, s)
  | some item =>
    let amount := item.label.count
    let hiddenCharges :=
      if isCaskItem item.label.id then (item.label.toItem.getSubType types.server).setWidth 16
      else 0
    let s := if types.isBed item.label.id then s.wakeUp types p r else s
    -- The bed may have another type now.
    let item := ((s.tiles p).find r).getD item
    let (newRef, s) := s.transformItem types p r decorationKit
    (newRef, s.setTile p ((s.tiles p).update newRef fun i =>
      .node (record types i.label item.label hiddenCharges amount) i.children))

end State

/-! ## The walk over a tile -/

section walk

variable (types : Catalogue) (p : Position)

/-- `House::handleContainer` -/
def handleContainer (moveItemList : List Ref) (item : Thing) : List Ref :=
  if item.isContainer then moveItemList ++ item.children.map Thing.ref else moveItemList

/-- `House::handleWrapableItem` -/
def handleWrapableItem (s : State × List Ref) (item : Thing) : State × List Ref :=
  let moveItemList :=
    if (types.furniture item.label.id).wrapContainer then handleContainer s.2 item else s.2
  let (newRef, s) := s.1.wrapItem types p item.ref
  if ((s.tiles p).find newRef).isNone then (s, moveItemList) else (s, moveItemList ++ [newRef])

/-- What is done with an item, and what is put on the list. -/
def handle (s : State × List Ref) (item : Thing) : State × List Ref :=
  if types.isWrapable item.label.id then handleWrapableItem types p s item
  else if item.label.isPickupable types.toItemTable then (s.1, s.2 ++ [item.ref])
  else (s.1, handleContainer s.2 item)

/-- The first turns of the loop over the items of a tile. At each turn, the item is read that is
    at the next place of the vector by then. -/
def turns (s : State) : ℕ → State × List Ref
  | 0 => (s, [])
  | k + 1 =>
    let c := turns s k
    match (c.1.tiles p).items[k]? with
    | some item => handle types p c item
    | none => c

/-- The items of a tile to be moved. The end of the vector is found before the loop. -/
def listItems (s : State) : State × List Ref := turns types p s (s.tiles p).items.length

end walk

/-! ## Looks -/

variable {types : Catalogue}

namespace Catalogue

variable {id id' : BitVec 16}

theorem freeBed_eq_some (h : types.freeBed id = some id') :
    types.isBed id = true ∧ types.isBed id' = true ∧
      id' = (types.furniture id).transformToFree := by
  rw [freeBed] at h
  split_ifs at h with hbed
  obtain ⟨h₁, -, h₂⟩ := hbed
  obtain rfl := Option.some.inj h
  exact ⟨h₁, h₂, rfl⟩

/-- The types that a bed has one after the other, as those are left who sleep in it. -/
def SameBed (types : Catalogue) : BitVec 16 → BitVec 16 → Prop :=
  Relation.ReflTransGen fun id id' => types.freeBed id = some id'

theorem SameBed.isBed_eq (h : types.SameBed id id') : types.isBed id' = types.isBed id := by
  induction h with
  | refl => rfl
  | tail _ hfree ih =>
    obtain ⟨h₁, h₂, -⟩ := freeBed_eq_some hfree
    rw [← ih, h₁, h₂]

theorem SameBed.isWrapable_eq (h : types.SameBed id id') :
    types.isWrapable id' = types.isWrapable id := by
  induction h with
  | refl => rfl
  | tail _ hfree ih =>
    obtain ⟨h₁, h₂, rfl⟩ := freeBed_eq_some hfree
    have hsame := types.bed_free _ (of_decide_eq_true h₁) (of_decide_eq_true h₂)
    obtain ⟨hwrapable, hto⟩ := Prod.mk.inj hsame
    rw [← ih, isWrapable, isWrapable, hwrapable, decide_eq_decide.2 (iff_of_eq hto)]

/-- A bed is no container. -/
theorem not_isHolder_of_isBed (h : types.isBed id = true) :
    isHolder (types.server.items id) = false := by
  have hbed := of_decide_eq_true h
  have hclass : Items.Item.classOf (types.server.items id) = .bed := by
    simp [Items.Item.classOf, hbed, Items.ItemType.isContainer, types.bed_group id hbed]
  rw [isHolder, hclass]
  rfl

theorem SameBed.isPickupable_eq (h : types.SameBed id id') :
    (types.traits id').pickupable = (types.traits id).pickupable := by
  induction h with
  | refl => rfl
  | tail _ hfree ih =>
    obtain ⟨h₁, h₂, -⟩ := freeBed_eq_some hfree
    rw [← ih, types.bed_pickupable _ (of_decide_eq_true h₁),
      types.bed_pickupable _ (of_decide_eq_true h₂)]

theorem SameBed.eq (h : types.SameBed id id') (hbed : types.isBed id = false) : id' = id := by
  induction h with
  | refl => rfl
  | tail h hfree ih =>
    obtain ⟨h₁, -, -⟩ := freeBed_eq_some hfree
    rw [SameBed.isBed_eq h, hbed] at h₁
    cases h₁

end Catalogue

/-- The same item. If it is a bed, who slept in it may have left it. -/
structure Looks (types : Catalogue) (t t' : Thing) : Prop where
  ref : t'.ref = t.ref
  children : t'.children = t.children
  storage : t'.label.storage = t.label.storage
  count : t'.label.count = t.label.count
  owner : t'.label.ints .owner = t.label.ints .owner
  id : types.SameBed t.label.id t'.label.id

namespace Looks

variable {t t' t'' : Thing}

theorem refl (t : Thing) : Looks types t t := ⟨rfl, rfl, rfl, rfl, rfl, .refl⟩

theorem trans (h : Looks types t t') (h' : Looks types t' t'') : Looks types t t'' where
  ref := h'.ref.trans h.ref
  children := h'.children.trans h.children
  storage := h'.storage.trans h.storage
  count := h'.count.trans h.count
  owner := h'.owner.trans h.owner
  id := h.id.trans h'.id

theorem keys_eq (h : Looks types t t') : keys Object.ref [t'] = keys Object.ref [t] := by
  have href := h.ref
  have hchildren := h.children
  obtain ⟨o, cs⟩ := t
  obtain ⟨o', cs'⟩ := t'
  rw [children_node, children_node] at hchildren
  subst hchildren
  rw [keys_node, keys_node]
  exact congrArg (· :: _) href

end Looks

/-! ## Labels -/

section labels

variable (o : Object)

theorem owner_setID (newid : BitVec 16) :
    (o.setID types.toItemTable newid).ints .owner = o.ints .owner := by
  rw [Object.setID]
  dsimp only
  split_ifs <;> rfl

theorem owner_setDuration (time : BitVec 64) :
    (o.setDuration time).ints .owner = o.ints .owner := rfl

theorem ints_setAttribute (a : Items.IntegerAttribute) (v : BitVec 64) :
    (o.setAttribute a v).ints a = some v := by
  rw [Object.setAttribute, Items.Item.setAttribute]
  dsimp only
  rw [Function.update_self]

theorem owner_setSubType (n : ℕ) :
    (o.setSubType types.toItemTable n).ints .owner = o.ints .owner := by
  rw [Object.setSubType, Items.Item.setSubType]
  dsimp only
  split_ifs <;> rfl

theorem setSubType_keeps (n : ℕ) :
    (o.setSubType types.toItemTable n).ref = o.ref ∧
      (o.setSubType types.toItemTable n).storage = o.storage ∧
      (o.setSubType types.toItemTable n).id = o.id := by
  refine ⟨rfl, rfl, ?_⟩
  rw [Object.setSubType, Items.Item.setSubType]
  dsimp only
  split_ifs <;> rfl

theorem setDefaultSubtype_keeps :
    (setDefaultSubtype types o).ref = o.ref ∧ (setDefaultSubtype types o).storage = o.storage ∧
      (setDefaultSubtype types o).ints .owner = o.ints .owner := by
  rw [setDefaultSubtype]
  split_ifs <;> exact ⟨rfl, rfl, rfl⟩

theorem updated_keeps (newId : BitVec 16) :
    (updated types o newId).ref = o.ref ∧ (updated types o newId).storage = o.storage ∧
      (updated types o newId).id = newId ∧ (updated types o newId).ints .owner = o.ints .owner := by
  obtain ⟨href, hstorage, howner⟩ := @setDefaultSubtype_keeps types o
  have hkeeps : ∀ o' : Object, o'.ref = o.ref → o'.storage = o.storage →
      o'.ints .owner = o.ints .owner → ∀ n,
        ((o'.setID types.toItemTable newId).setSubType types.toItemTable n).ref = o.ref ∧
        ((o'.setID types.toItemTable newId).setSubType types.toItemTable n).storage = o.storage ∧
        ((o'.setID types.toItemTable newId).setSubType types.toItemTable n).id = newId ∧
        ((o'.setID types.toItemTable newId).setSubType types.toItemTable n).ints .owner =
          o.ints .owner := by
    intro o' href' hstorage' howner' n
    obtain ⟨h₁, h₂, -, h₄⟩ := o'.setID_keeps types.toItemTable newId
    obtain ⟨h₁', h₂', h₃'⟩ :=
      @setSubType_keeps types (o'.setID types.toItemTable newId) n
    refine ⟨h₁'.trans (h₁.trans href'), h₂'.trans (h₄.trans hstorage'), h₃'.trans h₂, ?_⟩
    rw [owner_setSubType, owner_setID, howner']
  rw [updated]
  split_ifs
  · exact hkeeps o rfl rfl rfl _
  · exact hkeeps _ href hstorage howner _

/-- The count of a bed stays what it is. -/
theorem count_updated {newId : BitVec 16} (h : types.freeBed o.id = some newId) :
    (updated types o newId).count = o.count := by
  obtain ⟨h₁, h₂, -⟩ := Catalogue.freeBed_eq_some h
  have hplain : ∀ id, types.isBed id = true → (types.server.items id).group = .none ∧
      (types.server.items id).hasFluid = false ∧ (types.server.items id).stackable = false ∧
      (types.server.items id).charges = 0 := by
    intro id hid
    have hbed := of_decide_eq_true hid
    have hgroup := types.bed_group id hbed
    refine ⟨hgroup, ?_, types.bed_stackable id hbed, types.bed_charges id hbed⟩
    rw [Items.ItemType.hasFluid, Items.ItemType.isFluidContainer, Items.ItemType.isSplash, hgroup]
    rfl
  obtain ⟨hgroup, hfluid, hstack, hcharges⟩ := hplain _ h₁
  obtain ⟨hgroup', hfluid', hstack', hcharges'⟩ := hplain _ h₂
  obtain ⟨-, hid, hcount, -⟩ := o.setID_keeps types.toItemTable newId
  have hsub : o.toItem.getSubType types.server = o.count.setWidth 64 := by
    simp [Items.Item.getSubType, hfluid, hstack, hcharges]
  rw [updated, if_pos (hgroup'.trans hgroup.symm), Object.setSubType, Items.Item.setSubType, hid,
    hsub]
  simp only [hfluid', hstack', hcharges', Bool.false_eq_true, if_false, ne_eq, not_true_eq_false]
  refine BitVec.eq_of_toNat_eq ?_
  have hlt := o.count.isLt
  simp only [BitVec.toNat_setWidth, BitVec.toNat_ofNat]
  omega

theorem removeSleeper_keeps :
    (removeSleeper o).ref = o.ref ∧ (removeSleeper o).storage = o.storage ∧
      (removeSleeper o).id = o.id ∧ (removeSleeper o).count = o.count ∧
      (removeSleeper o).ints .owner = o.ints .owner := by
  rw [removeSleeper, Items.Item.setString]
  split_ifs <;> exact ⟨rfl, rfl, rfl, rfl, rfl⟩

end labels

/-! ## Places in the vector -/

/-- The roots of a forest are different objects. -/
theorem nodup_refs {ts : List Thing} (hd : Distinct Object.ref ts) :
    (ts.map Thing.ref).Nodup := by
  induction ts with
  | nil => exact List.nodup_nil
  | cons t ts ih =>
    obtain ⟨-, hts, hdisj⟩ := hd.of_cons
    rw [List.map_cons, List.nodup_cons]
    refine ⟨fun hmem => ?_, ih hts⟩
    obtain ⟨t', ht', href⟩ := List.mem_map.1 hmem
    have hkey : t.ref ∈ keys Object.ref [t] := key_mem_keys Object.ref (mem_nodes_self t)
    have hkey' : t'.ref ∈ keys Object.ref ts :=
      mem_keys_of_mem Object.ref ht' (key_mem_keys Object.ref (mem_nodes_self t'))
    exact hdisj hkey (href ▸ hkey')

/-- No other item has the address of this one. -/
theorem ref_ne {pre suf : List Thing} {x : Thing}
    (hd : ((pre ++ x :: suf).map Thing.ref).Nodup) : ∀ t ∈ pre ++ suf, t.ref ≠ x.ref := by
  have hperm : ((pre ++ x :: suf).map Thing.ref).Perm ((x :: (pre ++ suf)).map Thing.ref) :=
    List.perm_middle.map _
  rw [hperm.nodup_iff, List.map_cons, List.nodup_cons] at hd
  exact fun t ht he => hd.1 (List.mem_map.2 ⟨t, ht, he⟩)

namespace HouseTile

variable {t : HouseTile} {x : Thing} {a b : List Thing}

theorem items_update (t : HouseTile) (r : Ref) (f : Thing → Thing) :
    (t.update r f).items = t.items.map fun i => if i.ref = r then f i else i := by
  rw [items, items, List.map_append]
  rfl

theorem items_remove (t : HouseTile) (r : Ref) :
    (t.remove r).items = t.items.filter fun i => i.ref ≠ r := by
  rw [items, items, List.filter_append]
  rfl

theorem find_eq (hx : t.items = a ++ x :: b) (hne : ∀ i ∈ a ++ b, i.ref ≠ x.ref) :
    t.find x.ref = some x := by
  have ha : a.find? (fun i => decide (i.ref = x.ref)) = none :=
    List.find?_eq_none.2 fun i hi => by simpa using hne i (List.mem_append_left _ hi)
  rw [find, hx, List.find?_append, ha, Option.none_or]
  exact List.find?_cons_of_pos (decide_eq_true rfl)

theorem update_eq (hx : t.items = a ++ x :: b) (hne : ∀ i ∈ a ++ b, i.ref ≠ x.ref)
    (f : Thing → Thing) : (t.update x.ref f).items = a ++ f x :: b := by
  have hsame : ∀ l : List Thing, (∀ i ∈ l, i.ref ≠ x.ref) →
      l.map (fun i => if i.ref = x.ref then f i else i) = l := by
    intro l hl
    exact (List.map_congr_left fun i hi => if_neg (hl i hi)).trans (List.map_id l)
  rw [items_update, hx, List.map_append, List.map_cons, if_pos rfl,
    hsame a fun i hi => hne i (List.mem_append_left _ hi),
    hsame b fun i hi => hne i (List.mem_append_right _ hi)]

theorem remove_eq (hx : t.items = a ++ x :: b) (hne : ∀ i ∈ a ++ b, i.ref ≠ x.ref) :
    (t.remove x.ref).items = a ++ b := by
  have hsame : ∀ l : List Thing, (∀ i ∈ l, i.ref ≠ x.ref) →
      l.filter (fun i => i.ref ≠ x.ref) = l := by
    intro l hl
    exact List.filter_eq_self.2 fun i hi => decide_eq_true (hl i hi)
  rw [items_remove, hx, List.filter_append, List.filter_cons_of_neg (by simp),
    hsame a fun i hi => hne i (List.mem_append_left _ hi),
    hsame b fun i hi => hne i (List.mem_append_right _ hi)]

end HouseTile

theorem insertBefore_split (stop : Thing → Bool) (x : Thing) (l : List Thing) :
    ∃ a b, insertBefore stop x l = a ++ x :: b ∧ a ++ b = l := by
  induction l with
  | nil => exact ⟨[], [], rfl, rfl⟩
  | cons c l ih =>
    rw [insertBefore]
    split
    · exact ⟨[], c :: l, rfl, rfl⟩
    · obtain ⟨a, b, hl, hab⟩ := ih
      refine ⟨c :: a, b, ?_, ?_⟩
      · rw [hl, List.cons_append]
      · rw [List.cons_append, hab]

/-- An item is among others of a tile, and if it is no longer on top, not behind the place that it
    had between those before and those after it. -/
def Placed (types : Catalogue) (t : HouseTile) (x : Thing) (pre suf : List Thing) : Prop :=
  ∃ a b, t.items = a ++ x :: b ∧ a ++ b = pre ++ suf ∧
    (types.order x.label.id = 0 → a.length ≤ pre.length)

namespace Placed

variable {t : HouseTile} {x x' : Thing} {pre suf : List Thing}

theorem of_eq (h : t.items = pre ++ x :: suf) : Placed types t x pre suf :=
  ⟨pre, suf, h, rfl, fun _ => le_rfl⟩

theorem find_eq (h : Placed types t x pre suf) (hne : ∀ i ∈ pre ++ suf, i.ref ≠ x.ref) :
    t.find x.ref = some x := by
  obtain ⟨a, b, hx, hab, -⟩ := h
  exact HouseTile.find_eq hx (hab ▸ hne)

theorem update (h : Placed types t x pre suf) (hne : ∀ i ∈ pre ++ suf, i.ref ≠ x.ref)
    {f : Thing → Thing}
    (horder : types.order (f x).label.id = 0 → types.order x.label.id = 0) :
    Placed types (t.update x.ref f) (f x) pre suf := by
  obtain ⟨a, b, hx, hab, hlen⟩ := h
  exact ⟨a, b, HouseTile.update_eq hx (hab ▸ hne) f, hab, fun h => hlen (horder h)⟩

theorem remove_eq (h : Placed types t x pre suf) (hne : ∀ i ∈ pre ++ suf, i.ref ≠ x.ref) :
    (t.remove x.ref).items = pre ++ suf := by
  obtain ⟨a, b, hx, hab, -⟩ := h
  rw [HouseTile.remove_eq hx (hab ▸ hne), hab]

/-- An item that is put on the tile again. -/
theorem add (h : Placed types t x pre suf) (hne : ∀ i ∈ pre ++ suf, i.ref ≠ x.ref) :
    Placed types ((t.remove x.ref).add types x') x' pre suf := by
  have hrest := h.remove_eq hne
  rw [HouseTile.items] at hrest
  rw [HouseTile.add]
  split_ifs with horder
  · refine ⟨[], pre ++ suf, ?_, rfl, fun _ => Nat.zero_le _⟩
    rw [HouseTile.items, List.cons_append, hrest]
    rfl
  · obtain ⟨a, b, hinsert, hab⟩ := insertBefore_split
      (fun i => types.order x'.label.id ≤ types.order i.label.id) x' (t.remove x.ref).top
    refine ⟨(t.remove x.ref).down ++ a, b, ?_, ?_, fun h => absurd h horder⟩
    · rw [HouseTile.items, hinsert, List.append_assoc]
    · rw [List.append_assoc, hab, hrest]

end Placed

/-! ## Beds that are left -/

namespace State

variable {s : State} {p : Position} {x : Thing} {pre suf : List Thing}

theorem tiles_setTile_self (t : HouseTile) : (s.setTile p t).tiles p = t :=
  Function.update_self ..

theorem tiles_setTile_of_ne {q : Position} (hq : q ≠ p) (t : HouseTile) :
    (s.setTile p t).tiles q = s.tiles q :=
  Function.update_of_ne hq ..

/-- A bed gets the type that it has when nobody sleeps in it. -/
theorem updateAppearance_spec (h : Placed types (s.tiles p) x pre suf)
    (hne : ∀ i ∈ pre ++ suf, i.ref ≠ x.ref) :
    ∃ t x', s.updateAppearance types p x.ref = s.setTile p t ∧ Looks types x x' ∧
      Placed types t x' pre suf := by
  have hstay : ∃ t x', s = s.setTile p t ∧ Looks types x x' ∧ Placed types t x' pre suf := by
    refine ⟨s.tiles p, x, ?_, .refl x, h⟩
    rw [setTile, Function.update_eq_self]
  rw [updateAppearance, h.find_eq hne, Option.bind_some]
  cases hfree : types.freeBed x.label.id with
  | none => exact hstay
  | some newId =>
    dsimp only
    obtain ⟨h₁, h₂, -⟩ := Catalogue.freeBed_eq_some hfree
    have hid : types.SameBed x.label.id newId := .single hfree
    rw [transformItem, h.find_eq hne]
    dsimp only
    split_ifs with hsame hnone horder htype
    · exact hstay
    · exact hstay
    · refine ⟨_, _, rfl, ?_, h.add hne⟩
      obtain ⟨href, hid', hcount, hstorage⟩ := x.label.setID_keeps types.toItemTable newId
      refine ⟨href, rfl, hstorage, hcount, owner_setID x.label newId, ?_⟩
      rw [label_node, hid']
      exact hid
    · obtain ⟨href, hstorage, hid', howner⟩ := @updated_keeps types x.label newId
      refine ⟨_, .node (updated types x.label newId) x.children, rfl,
        ⟨href, rfl, hstorage, count_updated x.label hfree, howner, ?_⟩, h.update hne ?_⟩
      · rw [label_node, hid']
        exact hid
      · rw [label_node, hid']
        intro hzero
        by_contra hx
        exact horder (by simp [hx, hzero])
    · -- Both types are those of beds.
      refine absurd ?_ htype
      simp [Catalogue.hasType, sameType, of_decide_eq_true h₁, of_decide_eq_true h₂]

theorem internalRemoveSleeper_spec (h : Placed types (s.tiles p) x pre suf)
    (hne : ∀ i ∈ pre ++ suf, i.ref ≠ x.ref) :
    ∃ t x', s.internalRemoveSleeper p x.ref = s.setTile p t ∧ Looks types x x' ∧
      Placed types t x' pre suf := by
  obtain ⟨href, hstorage, hid, hcount, howner⟩ := removeSleeper_keeps x.label
  have hlooks : Looks types x (.node (removeSleeper x.label) x.children) := by
    refine ⟨href, rfl, hstorage, hcount, howner, ?_⟩
    rw [label_node, hid]
    exact .refl
  refine ⟨_, _, rfl, hlooks, h.update hne ?_⟩
  rw [label_node, hid]
  exact id

end State

/-- Different objects below the address `n`, which hold items only if they are containers. -/
structure Sound (types : Catalogue) (n : Ref) (ts : List Thing) : Prop where
  heap : Inventory.Heap types.toItemTable n ts
  holder : ∀ t ∈ ts.flatMap nodes, t.label.storage.isSome = true →
    isHolder (types.server.items t.label.id) = true

namespace Sound

variable {n n' : Ref} {ts ts' : List Thing} {x : Thing}

theorem mono (h : Sound types n ts) (hn : n ≤ n') : Sound types n' ts :=
  ⟨⟨h.heap.distinct, fun r hr => (h.heap.lt r hr).trans_le hn, h.heap.leaf, h.heap.plain⟩,
    h.holder⟩

theorem subperm (h : Sound types n ts) (hs : ts'.Subperm ts) : Sound types n ts' := by
  refine ⟨h.heap.subperm hs, fun t ht => h.holder t ?_⟩
  obtain ⟨i, hi, hti⟩ := List.mem_flatMap.1 ht
  exact List.mem_flatMap.2 ⟨i, hs.subset hi, hti⟩

/-- What is no container holds nothing. -/
theorem plain (h : Sound types n ts) (hx : x ∈ ts)
    (hid : isHolder (types.server.items x.label.id) = false) :
    x.label.storage = none ∧ x.children = [] := by
  have hmem : x ∈ ts.flatMap nodes := List.mem_flatMap.2 ⟨x, hx, mem_nodes_self x⟩
  have hstorage : x.label.storage = none := by
    rw [← Option.not_isSome_iff_eq_none]
    intro hsome
    rw [h.holder x hmem hsome] at hid
    cases hid
  exact ⟨hstorage, h.heap.leaf x hmem hstorage⟩

/-- Another object that holds nothing. -/
theorem cons (h : Sound types n ts) {k : Thing} (hlt : k.ref < n)
    (hkey : k.ref ∉ keys Object.ref ts) (hchildren : k.children = [])
    (hstorage : k.label.storage = none) : Sound types n (k :: ts) := by
  have hnodes : ∀ t ∈ (k :: ts).flatMap nodes, t = k ∨ t ∈ ts.flatMap nodes := by
    intro t ht
    rw [List.flatMap_cons, List.mem_append] at ht
    refine ht.imp_left fun ht => ?_
    obtain ⟨o, cs⟩ := k
    rw [children_node] at hchildren
    subst hchildren
    simpa [nodes_node] using ht
  have hkeys : keys Object.ref (k :: ts) = k.ref :: keys Object.ref ts := by
    obtain ⟨o, cs⟩ := k
    rw [children_node] at hchildren
    subst hchildren
    rw [keys_cons, keys_node]
    rfl
  refine ⟨⟨?_, fun r hr => ?_, fun t ht hnone => ?_, fun t ht hstack => ?_⟩, fun t ht hsome => ?_⟩
  · rw [Distinct, hkeys, List.nodup_cons]
    exact ⟨hkey, h.heap.distinct⟩
  · rw [hkeys, List.mem_cons] at hr
    rcases hr with rfl | hr
    · exact hlt
    · exact h.heap.lt r hr
  · rcases hnodes t ht with rfl | ht
    · exact hchildren
    · exact h.heap.leaf t ht hnone
  · rcases hnodes t ht with rfl | ht
    · exact hstorage
    · exact h.heap.plain t ht hstack
  · rcases hnodes t ht with rfl | ht
    · rw [hstorage] at hsome
      cases hsome
    · exact h.holder t ht hsome

end Sound

/-- The items of another tile, where a bed may have been left. -/
structure Alike (types : Catalogue) (ts ts' : List Thing) : Prop where
  keys : (keys Object.ref ts').Perm (keys Object.ref ts)
  forth : ∀ t ∈ ts, ∃ t' ∈ ts', Looks types t t'
  back : ∀ t' ∈ ts', ∃ t ∈ ts, Looks types t t'

namespace Alike

variable {ts ts' ts'' : List Thing}

theorem refl (ts : List Thing) : Alike types ts ts :=
  ⟨.refl _, fun t ht => ⟨t, ht, .refl t⟩, fun t ht => ⟨t, ht, .refl t⟩⟩

theorem trans (h : Alike types ts ts') (h' : Alike types ts' ts'') : Alike types ts ts'' where
  keys := h'.keys.trans h.keys
  forth t ht := by
    obtain ⟨t', ht', hlooks⟩ := h.forth t ht
    obtain ⟨t'', ht'', hlooks'⟩ := h'.forth t' ht'
    exact ⟨t'', ht'', hlooks.trans hlooks'⟩
  back t'' ht'' := by
    obtain ⟨t', ht', hlooks'⟩ := h'.back t'' ht''
    obtain ⟨t, ht, hlooks⟩ := h.back t' ht'
    exact ⟨t, ht, hlooks.trans hlooks'⟩

/-- One item looks different, and is at another place. -/
theorem of_placed {t : HouseTile} {x x' : Thing} {pre suf : List Thing} (hlooks : Looks types x x')
    (h : Placed types t x' pre suf) : Alike types (pre ++ x :: suf) t.items := by
  obtain ⟨a, b, hx, hab, -⟩ := h
  have hperm : (a ++ x' :: b).Perm (x' :: (pre ++ suf)) := hab ▸ List.perm_middle
  have hperm' : (pre ++ x :: suf).Perm (x :: (pre ++ suf)) := List.perm_middle
  rw [hx]
  refine ⟨?_, fun i hi => ?_, fun i hi => ?_⟩
  · have hkeys := (hperm.flatMap_right labels).map Object.ref
    have hkeys' := (hperm'.flatMap_right labels).map Object.ref
    refine hkeys.trans (List.Perm.trans ?_ hkeys'.symm)
    have hx' : RoseTree.keys Object.ref (x' :: (pre ++ suf)) =
        RoseTree.keys Object.ref (x :: (pre ++ suf)) := by
      rw [keys_cons, hlooks.keys_eq, ← keys_cons]
    exact .of_eq hx'
  · rcases List.mem_cons.1 (hperm'.mem_iff.1 hi) with rfl | hi
    · exact ⟨x', hperm.mem_iff.2 List.mem_cons_self, hlooks⟩
    · exact ⟨i, hperm.mem_iff.2 (List.mem_cons_of_mem _ hi), .refl i⟩
  · rcases List.mem_cons.1 (hperm.mem_iff.1 hi) with rfl | hi
    · exact ⟨x, hperm'.mem_iff.2 List.mem_cons_self, hlooks⟩
    · exact ⟨i, hperm'.mem_iff.2 (List.mem_cons_of_mem _ hi), .refl i⟩

theorem sound {n : Ref} (h : Alike types ts ts') (hs : Sound types n ts) :
    Sound types n ts' := by
  -- An object is one of the items, which looked different before, or is in one.
  have hnodes : ∀ t' ∈ ts'.flatMap nodes, (∃ t ∈ ts.flatMap nodes, t'.children = t.children ∧
      t'.label.storage = t.label.storage ∧ types.SameBed t.label.id t'.label.id) := by
    intro t' ht'
    obtain ⟨x', hx', ht'⟩ := List.mem_flatMap.1 ht'
    obtain ⟨x, hx, hlooks⟩ := h.back x' hx'
    have hchildren := hlooks.children
    obtain ⟨o, cs⟩ := x
    obtain ⟨o', cs'⟩ := x'
    rw [children_node, children_node] at hchildren
    subst hchildren
    rw [nodes_node, List.mem_cons] at ht'
    rcases ht' with rfl | ht'
    · exact ⟨node o cs', List.mem_flatMap.2 ⟨_, hx, mem_nodes_self _⟩, rfl, hlooks.storage,
        hlooks.id⟩
    · refine ⟨t', List.mem_flatMap.2 ⟨_, hx, ?_⟩, rfl, rfl, .refl⟩
      rw [nodes_node]
      exact List.mem_cons_of_mem _ ht'
  have hbed : ∀ {id id'}, types.SameBed id id' →
      id' = id ∨ types.isBed id = true ∧ types.isBed id' = true := by
    intro id id' hid
    cases hb : types.isBed id with
    | false => exact .inl (hid.eq hb)
    | true => exact .inr ⟨rfl, hid.isBed_eq.trans hb⟩
  refine ⟨⟨?_, fun r hr => hs.heap.lt r (h.keys.mem_iff.1 hr), fun t' ht' hnone => ?_,
    fun t' ht' hstack => ?_⟩, fun t' ht' hsome => ?_⟩
  · exact h.keys.nodup_iff.2 hs.heap.distinct
  all_goals obtain ⟨t, ht, hchildren, hstorage, hid⟩ := hnodes t' ht'
  · rw [hchildren]
    exact hs.heap.leaf t ht (hstorage ▸ hnone)
  · rw [hstorage]
    rcases hbed hid with he | ⟨-, hb⟩
    · refine hs.heap.plain t ht ?_
      rw [Object.isStackable, ← he]
      exact hstack
    · rw [Object.isStackable, types.bed_stackable _ (of_decide_eq_true hb)] at hstack
      cases hstack
  · have hholder := hs.holder t ht (hstorage ▸ hsome)
    rcases hbed hid with he | ⟨hb, -⟩
    · rw [he]
      exact hholder
    · rw [Catalogue.not_isHolder_of_isBed hb] at hholder
      cases hholder

end Alike

theorem getNextPosition_ne (dir : Direction) (pos : Position) : getNextPosition dir pos ≠ pos := by
  have hsub : ∀ v : UInt16, v - 1 ≠ v := by
    intro v h
    have hv := congrArg UInt16.toNat h
    have hlt := v.toNat_lt
    rw [UInt16.toNat_sub, show UInt16.toNat 1 = 1 from rfl] at hv
    omega
  have hadd : ∀ v : UInt16, v + 1 ≠ v := by
    intro v h
    have hv := congrArg UInt16.toNat h
    have hlt := v.toNat_lt
    rw [UInt16.toNat_add, show UInt16.toNat 1 = 1 from rfl] at hv
    omega
  intro h
  have hx := congrArg Map.Position.x h
  have hy := congrArg Map.Position.y h
  cases dir
  case north => exact hsub _ hy
  case south => exact hadd _ hy
  case west => exact hsub _ hx
  case east => exact hadd _ hx
  case southwest => exact hsub _ hx
  case northwest => exact hsub _ hx
  case northeast => exact hadd _ hx
  case southeast => exact hadd _ hx

namespace State

variable {s : State} {p : Position} {x : Thing} {pre suf : List Thing}

/-- The partner of a bed is on another tile. -/
theorem targetPos_ne (h : types.isBed x.label.id = true) : targetPos types p x ≠ p := by
  have hpartner := types.bed_partner _ (of_decide_eq_true h)
  rw [targetPos]
  split
  · exact getNextPosition_ne _ p
  · rename_i hnone
    exact absurd hnone hpartner

/-- The items of each tile are different objects. -/
def Wf (types : Catalogue) (s : State) : Prop :=
  ∀ p, Sound types s.nextRef (s.tiles p).items

/-- Who sleeps in a bed leaves it, and the partner of the bed on another tile. -/
theorem wakeUp_spec (hs : s.Wf types) (hx : (s.tiles p).items = pre ++ x :: suf)
    (hbed : types.isBed x.label.id = true) :
    ∃ x', Looks types x x' ∧ Placed types ((s.wakeUp types p x.ref).tiles p) x' pre suf ∧
      (∀ q, q ≠ p → Alike types (s.tiles q).items ((s.wakeUp types p x.ref).tiles q).items) ∧
      (s.wakeUp types p x.ref).nextRef = s.nextRef := by
  have hnodup : ∀ q, ((s.tiles q).items.map Thing.ref).Nodup := fun q =>
    nodup_refs (hs q).heap.distinct
  have hne := ref_ne (hx ▸ hnodup p)
  have hplaced : Placed types (s.tiles p) x pre suf := .of_eq hx
  rw [wakeUp, hplaced.find_eq hne]
  dsimp only
  split_ifs with hsleeper
  · exact ⟨x, .refl x, hplaced, fun q _ => .refl _, rfl⟩
  obtain ⟨t, x', hremove, hlooks, hplaced'⟩ := internalRemoveSleeper_spec hplaced hne
  have hne' : ∀ i ∈ pre ++ suf, i.ref ≠ x'.ref := fun i hi => hlooks.ref ▸ hne i hi
  have hq : targetPos types p x ≠ p := targetPos_ne hbed
  cases hnext : (s.tiles (targetPos types p x)).getBedItem with
  | none =>
    dsimp only
    have hplaced'' : Placed types ((s.setTile p t).tiles p) x' pre suf := by
      rw [tiles_setTile_self]
      exact hplaced'
    obtain ⟨t', x'', hfree, hlooks', hplaced₃⟩ := updateAppearance_spec hplaced'' hne'
    rw [hremove, ← hlooks.ref, hfree]
    refine ⟨x'', hlooks.trans hlooks', ?_, fun q hqp => ?_, rfl⟩
    · rw [tiles_setTile_self]
      exact hplaced₃
    · rw [tiles_setTile_of_ne hqp, tiles_setTile_of_ne hqp]
      exact .refl _
  | some next =>
    dsimp only
    generalize targetPos types p x = q at hq hnext
    have hmem : next ∈ (s.tiles q).items :=
      List.mem_reverse.1 (List.mem_of_find?_eq_some hnext)
    obtain ⟨pre', suf', hy⟩ := List.append_of_mem hmem
    have hney := ref_ne (hy ▸ hnodup q)
    -- Both halves are left, and then both change their looks.
    have hplacedy : Placed types ((s.setTile p t).tiles q) next pre' suf' := by
      rw [tiles_setTile_of_ne hq]
      exact .of_eq hy
    obtain ⟨u, y', hremove', hlooksy, hplacedy'⟩ := internalRemoveSleeper_spec hplacedy hney
    have hney' : ∀ i ∈ pre' ++ suf', i.ref ≠ y'.ref := fun i hi => hlooksy.ref ▸ hney i hi
    have hplaced'' : Placed types (((s.setTile p t).setTile q u).tiles p) x' pre suf := by
      rw [tiles_setTile_of_ne hq.symm, tiles_setTile_self]
      exact hplaced'
    obtain ⟨t', x'', hfree, hlooks', hplaced₃⟩ := updateAppearance_spec hplaced'' hne'
    have hplacedy'' : Placed types ((((s.setTile p t).setTile q u).setTile p t').tiles q) y'
        pre' suf' := by
      rw [tiles_setTile_of_ne hq, tiles_setTile_self]
      exact hplacedy'
    obtain ⟨u', y'', hfree', hlooksy', hplacedy₃⟩ := updateAppearance_spec hplacedy'' hney'
    rw [hremove, hremove', ← hlooks.ref, hfree, ← hlooksy.ref, hfree']
    refine ⟨x'', hlooks.trans hlooks', ?_, fun q' hqp => ?_, rfl⟩
    · rw [tiles_setTile_of_ne hq.symm, tiles_setTile_self]
      exact hplaced₃
    · by_cases hqq : q' = q
      · subst hqq
        rw [tiles_setTile_self, hy]
        exact .of_placed (hlooksy.trans hlooksy') hplacedy₃
      · rw [tiles_setTile_of_ne hqq, tiles_setTile_of_ne hqp, tiles_setTile_of_ne hqq,
          tiles_setTile_of_ne hqp]
        exact .refl _

end State

/-! ## Kits -/

/-- A kit that an item has become: the item itself, with its owner, or a new object. -/
structure IsKit (s : State) (x k : Thing) (s' : State) : Prop where
  id : k.label.id = decorationKit
  children : k.children = []
  storage : k.label.storage = none
  owner : (k.ref = x.ref ∧ k.label.ints .owner = x.label.ints .owner ∧ s'.nextRef = s.nextRef) ∨
    (k.ref = s.nextRef ∧ k.label.ints .owner = none ∧ s'.nextRef = s.nextRef + 1)

theorem IsKit.nextRef_le {s s' : State} {x k : Thing} (h : IsKit s x k s') :
    s.nextRef ≤ s'.nextRef := by
  rcases h.owner with ⟨-, -, hnext⟩ | ⟨-, -, hnext⟩
  · exact hnext.ge
  · rw [hnext]
    exact Nat.le_succ _

theorem transformed_kit (o : Object) (r : Ref) :
    (transformed types o decorationKit r).id = decorationKit ∧
      (transformed types o decorationKit r).ref = r ∧
      (transformed types o decorationKit r).storage = none ∧
      (transformed types o decorationKit r).ints .owner = none := by
  have hcreated : Items.Item.createdId types.server decorationKit = decorationKit := by
    rw [Items.Item.createdId]
    simp only [types.kit_class, types.kit_id, if_true]
    rfl
  have hnew : ∀ class_ count, (Items.Item.new types.server class_
      (Items.Item.createdId types.server decorationKit) count).id = decorationKit ∧
      (Items.Item.new types.server class_ (Items.Item.createdId types.server decorationKit)
        count).ints .owner = none := by
    intro class_ count
    refine ⟨(Inventory.World.new_id ..).trans hcreated, ?_⟩
    rw [hcreated]
    simp only [Items.Item.new, Items.Item.withDefaultSubtype, types.kit_hasFluid,
      types.kit_stackable, types.kit_charges, Items.Item.setDefaultDuration,
      Items.Item.setString, Bool.false_eq_true, if_false, ne_eq, not_true_eq_false]
    split_ifs <;> rfl
  rw [transformed]
  dsimp only
  split_ifs
  · refine ⟨(hnew _ _).1, rfl, rfl, ?_⟩
    rw [owner_setDuration]
    exact (hnew _ _).2
  · exact ⟨(hnew _ _).1, rfl, rfl, (hnew _ _).2⟩

theorem record_keeps (o item : Object) (hiddenCharges : BitVec 16) (amount : BitVec 8) :
    (record types o item hiddenCharges amount).ref = o.ref ∧
      (record types o item hiddenCharges amount).storage = o.storage ∧
      (record types o item hiddenCharges amount).id = o.id ∧
      (record types o item hiddenCharges amount).ints .owner = o.ints .owner := by
  rw [record, Items.Item.setString]
  dsimp only
  split_ifs <;> exact ⟨rfl, rfl, rfl, rfl⟩

/-- The kit has the id and the count of the item. -/
theorem record_item (o item : Object) (hiddenCharges : BitVec 16) (amount : BitVec 8) :
    (record types o item hiddenCharges amount).custom.getCustomAttribute unWrapId =
        some (.int64 (item.id.setWidth 64)) ∧
      (amount ≠ 0 → (record types o item hiddenCharges amount).getAttribute .u16 .amount =
        amount.setWidth 64) := by
  constructor
  · have hcustom : (record types o item hiddenCharges amount).custom =
        o.custom.addCustomAttribute unWrapId (.int64 (item.id.setWidth 64)) := by
      rw [record, Items.Item.setString]
      dsimp only
      split_ifs <;> rfl
    rw [hcustom, Items.CustomAttributeMap.getCustomAttribute,
      Items.CustomAttributeMap.addCustomAttribute, SortedMap.lookup_insert, if_pos rfl]
  · intro hamount
    have hints : (record types o item hiddenCharges amount).ints .amount =
        some (amount.setWidth 64) := by
      rw [record]
      dsimp only
      rw [if_pos hamount, ints_setAttribute]
    rw [Items.Item.getAttribute, hints, Option.getD_some]
    refine Bytes.Scalar.cast_of_lt rfl ?_
    have hlt := amount.isLt
    rw [BitVec.toNat_setWidth_of_le (by decide)]
    exact hlt.trans (by decide)

namespace State

variable {s : State} {p : Position} {x : Thing} {pre suf : List Thing}

/-- An item becomes a kit where it is, or the kit goes to the front of the vector. -/
theorem transformItem_kit (h : Placed types (s.tiles p) x pre suf)
    (hne : ∀ i ∈ pre ++ suf, i.ref ≠ x.ref) (hwrapable : types.isWrapable x.label.id = true)
    (hleaf : isHolder (types.server.items x.label.id) = false →
      x.label.storage = none ∧ x.children = []) :
    ∃ k a b s', s.transformItem types p x.ref decorationKit = (k.ref, s') ∧ IsKit s x k s' ∧
      (s'.tiles p).items = a ++ k :: (b ++ suf) ∧ a ++ b = pre ∧
      ∀ q, q ≠ p → s'.tiles q = s.tiles q := by
  obtain ⟨hw, hto⟩ := Bool.and_eq_true_iff.1 hwrapable
  have hto' := of_decide_eq_true hto
  have hsplit : types.order x.label.id = 0 → ∃ a b, (s.tiles p).items = a ++ x :: (b ++ suf) ∧
      a ++ b = pre := by
    intro horder
    obtain ⟨a, b, hx, hab, hlen⟩ := h
    rcases List.append_eq_append_iff.1 hab with ⟨c, rfl, rfl⟩ | ⟨c, rfl, rfl⟩
    · exact ⟨a, c, hx, rfl⟩
    · have hc := hlen horder
      rw [List.length_append] at hc
      obtain rfl : c = [] := List.length_eq_zero_iff.1 (by omega)
      exact ⟨pre, [], by simpa using hx, List.append_nil pre⟩
  rw [transformItem, h.find_eq hne]
  dsimp only
  have hkit : (types.server.items decorationKit).id ≠ 0 := by
    rw [types.kit_id]
    decide
  rw [if_neg hkit]
  split_ifs with hid horder htype
  · -- A kit stays as it is.
    obtain ⟨a, b, hitems, hab⟩ := hsplit (hid ▸ types.kit_order)
    have hholder : isHolder (types.server.items x.label.id) = false := by
      rw [hid, isHolder, types.kit_class]
      rfl
    obtain ⟨hstorage, hchildren⟩ := hleaf hholder
    exact ⟨x, a, b, s, rfl, ⟨hid, hchildren, hstorage, .inl ⟨rfl, rfl, rfl⟩⟩, hitems, hab,
      fun q _ => rfl⟩
  · have hx : types.order x.label.id ≠ 0 := by
      intro hzero
      refine horder ?_
      rw [hzero, Catalogue.order, types.kit_order]
    have hholder : isHolder (types.server.items x.label.id) = false :=
      Bool.eq_false_iff.2 fun hh => hx (types.container_order _ hw hto' hh)
    obtain ⟨hstorage, hchildren⟩ := hleaf hholder
    obtain ⟨href, hid', -, hstorage'⟩ := x.label.setID_keeps types.toItemTable decorationKit
    have hrest := h.remove_eq hne
    refine ⟨.node (x.label.setID types.toItemTable decorationKit) x.children, [], pre, _,
      Prod.ext href.symm rfl,
      ⟨hid', hchildren, hstorage'.trans hstorage, .inl ⟨href, owner_setID _ _, rfl⟩⟩, ?_,
      List.nil_append pre, fun q hq => tiles_setTile_of_ne hq _⟩
    have hzero : types.order (x.label.setID types.toItemTable decorationKit).id = 0 := by
      rw [hid']
      exact types.kit_order
    rw [tiles_setTile_self, HouseTile.add, label_node, if_pos hzero, HouseTile.items,
      List.cons_append, List.nil_append, ← hrest]
    rfl
  all_goals
    have hx : types.order x.label.id = 0 := by
      have hkit' : types.order decorationKit = 0 := types.kit_order
      by_contra hx
      exact horder (by simp [hx, hkit'])
    obtain ⟨a, b, hitems, hab⟩ := hsplit hx
    have hne' : ∀ i ∈ a ++ (b ++ suf), i.ref ≠ x.ref := by
      rw [← List.append_assoc, hab]
      exact hne
  · have hholder : isHolder (types.server.items x.label.id) = false := by
      refine Bool.eq_false_iff.2 fun hh => ?_
      have hother := types.container_type _ hw hto' hh
      rw [Catalogue.hasType, hother] at htype
      cases htype
    obtain ⟨hstorage, hchildren⟩ := hleaf hholder
    obtain ⟨href, hstorage', hid', howner⟩ :=
      @updated_keeps types x.label decorationKit
    refine ⟨.node (updated types x.label decorationKit) x.children, a, b, _,
      Prod.ext href.symm rfl,
      ⟨hid', hchildren, hstorage'.trans hstorage, .inl ⟨href, howner, rfl⟩⟩, ?_, hab,
      fun q hq => tiles_setTile_of_ne hq _⟩
    rw [tiles_setTile_self]
    exact HouseTile.update_eq hitems hne' _
  · obtain ⟨hid', href, hstorage, howner⟩ :=
      @transformed_kit types x.label s.nextRef
    refine ⟨.node (transformed types x.label decorationKit s.nextRef) [], a, b, _,
      Prod.ext href.symm rfl, ⟨hid', rfl, hstorage, .inr ⟨href, howner, rfl⟩⟩, ?_, hab,
      fun q hq => tiles_setTile_of_ne hq _⟩
    have htile := HouseTile.update_eq hitems hne'
      fun _ => .node (transformed types x.label decorationKit s.nextRef) []
    rw [← htile]
    exact congrArg HouseTile.items (tiles_setTile_self _)

/-- What the kit that an item has become says of it. -/
structure Recorded (types : Catalogue) (x k : Thing) : Prop where
  id : ∃ id, types.SameBed x.label.id id ∧
    k.label.custom.getCustomAttribute unWrapId = some (.int64 (id.setWidth 64))
  amount : x.label.count ≠ 0 →
    k.label.getAttribute .u16 .amount = x.label.count.setWidth 64

/-- The item at a place of the vector becomes a kit, at this place or at one before it. -/
theorem wrapItem_spec (hs : s.Wf types) (hx : (s.tiles p).items = pre ++ x :: suf)
    (hwrapable : types.isWrapable x.label.id = true) :
    ∃ k a b s', s.wrapItem types p x.ref = (k.ref, s') ∧ IsKit s x k s' ∧ Recorded types x k ∧
      (s'.tiles p).items = a ++ k :: (b ++ suf) ∧ a ++ b = pre ∧
      ∀ q, q ≠ p → Alike types (s.tiles q).items (s'.tiles q).items := by
  have hne := ref_ne (hx ▸ nodup_refs (hs p).heap.distinct)
  have hplaced : Placed types (s.tiles p) x pre suf := .of_eq hx
  have hmem : x ∈ (s.tiles p).items := hx ▸ List.mem_append_right _ List.mem_cons_self
  -- Who sleeps in it leaves it first.
  obtain ⟨s₁, hs₁, x', hlooks, hplaced', halike, hnext⟩ : ∃ s₁,
      (if types.isBed x.label.id then s.wakeUp types p x.ref else s) = s₁ ∧
      ∃ x', Looks types x x' ∧ Placed types (s₁.tiles p) x' pre suf ∧
        (∀ q, q ≠ p → Alike types (s.tiles q).items (s₁.tiles q).items) ∧
        s₁.nextRef = s.nextRef := by
    cases hbed : types.isBed x.label.id with
    | false => exact ⟨s, rfl, x, .refl x, hplaced, fun q _ => .refl _, rfl⟩
    | true => exact ⟨_, rfl, wakeUp_spec hs hx hbed⟩
  have hne' : ∀ i ∈ pre ++ suf, i.ref ≠ x'.ref := fun i hi => hlooks.ref ▸ hne i hi
  have hleaf : isHolder (types.server.items x'.label.id) = false →
      x'.label.storage = none ∧ x'.children = [] := by
    intro hholder
    rw [hlooks.storage, hlooks.children]
    refine (hs p).plain hmem ?_
    cases hbed : types.isBed x.label.id with
    | false => exact hlooks.id.eq hbed ▸ hholder
    | true => exact Catalogue.not_isHolder_of_isBed hbed
  obtain ⟨k, a, b, s₂, htransform, hkit, hitems, hab, hother⟩ :=
    transformItem_kit hplaced' hne' (hlooks.id.isWrapable_eq.trans hwrapable) hleaf
  have hrest : ∀ i ∈ a ++ (b ++ suf), i.ref ≠ k.ref := by
    intro i hi
    rw [← List.append_assoc, hab] at hi
    rcases hkit.owner with ⟨href, -⟩ | ⟨href, -⟩
    · rw [href]
      exact hne' i hi
    · -- A new object.
      rw [href, hnext]
      have hi' : i ∈ (s.tiles p).items := by
        rw [hx]
        exact List.perm_middle.mem_iff.2 (List.mem_cons_of_mem _ hi)
      exact ((hs p).heap.lt i.ref (mem_keys_of_mem Object.ref hi'
        (key_mem_keys Object.ref (mem_nodes_self i)))).ne
  have hfind : ((s₁.tiles p).find x.ref).getD x = x' := by
    rw [← hlooks.ref, hplaced'.find_eq hne']
    rfl
  rw [hlooks.ref] at htransform
  rw [wrapItem, hplaced.find_eq hne]
  dsimp only
  rw [hs₁, hfind, htransform]
  dsimp only
  generalize (if isCaskItem x.label.id then
    (x.label.toItem.getSubType types.server).setWidth 16 else 0) = hiddenCharges
  obtain ⟨href, hstorage, hid, howner⟩ :=
    @record_keeps types k.label x'.label hiddenCharges x.label.count
  obtain ⟨hunWrapId, hamount⟩ :=
    @record_item types k.label x'.label hiddenCharges x.label.count
  refine ⟨.node (record types k.label x'.label hiddenCharges x.label.count) k.children, a, b, _,
    Prod.ext href.symm rfl, ⟨hid.trans hkit.id, hkit.children, hstorage.trans hkit.storage, ?_⟩,
    ⟨⟨x'.label.id, hlooks.id, hunWrapId⟩, hamount⟩, ?_, hab, fun q hq => ?_⟩
  · rcases hkit.owner with ⟨h₁, h₂, h₃⟩ | ⟨h₁, h₂, h₃⟩
    · exact .inl ⟨href.trans (h₁.trans hlooks.ref), howner.trans (h₂.trans hlooks.owner),
        h₃.trans hnext⟩
    · refine .inr ⟨href.trans (h₁.trans hnext), howner.trans h₂, ?_⟩
      rw [← hnext]
      exact h₃
  · rw [tiles_setTile_self]
    exact HouseTile.update_eq hitems hrest _
  · rw [tiles_setTile_of_ne hq, hother q hq]
    exact halike q hq

/-- After an item has become a kit, all objects of the tiles are still different ones. -/
theorem Wf.wrapped {s' : State} {k : Thing} {a b : List Thing} (hs : s.Wf types)
    (hx : (s.tiles p).items = pre ++ x :: suf) (hk : IsKit s x k s')
    (hitems : (s'.tiles p).items = a ++ k :: (b ++ suf)) (hab : a ++ b = pre)
    (halike : ∀ q, q ≠ p → Alike types (s.tiles q).items (s'.tiles q).items) : s'.Wf types := by
  have hle := hk.nextRef_le
  intro q
  by_cases hq : q = p
  · subst hq
    have hperm : (s.tiles q).items.Perm (x :: (pre ++ suf)) := hx ▸ List.perm_middle
    have hsound : Sound types s.nextRef (x :: (pre ++ suf)) :=
      (hs q).subperm hperm.symm.subperm
    obtain ⟨-, -, hdisj⟩ := hsound.heap.distinct.of_cons
    have hrest : Sound types s.nextRef (pre ++ suf) :=
      hsound.subperm (List.sublist_cons_self _ _).subperm
    have hxkey : x.ref ∈ keys Object.ref [x] := key_mem_keys Object.ref (mem_nodes_self x)
    have hkey : k.ref ∉ keys Object.ref (pre ++ suf) ∧ k.ref < s'.nextRef := by
      rcases hk.owner with ⟨href, -, hnext⟩ | ⟨href, -, hnext⟩
      · rw [href, hnext]
        refine ⟨hdisj hxkey, hsound.heap.lt _ ?_⟩
        exact mem_keys_of_mem Object.ref List.mem_cons_self hxkey
      · rw [href, hnext]
        exact ⟨fun h => (hrest.heap.lt _ h).ne rfl, Nat.lt_succ_self _⟩
    have hperm' : (s'.tiles q).items.Perm (k :: (pre ++ suf)) := by
      rw [hitems, ← hab, List.append_assoc]
      exact List.perm_middle
    exact ((hrest.mono hle).cons hkey.2 hkey.1 hk.children hk.storage).subperm hperm'.subperm
  · exact (halike q hq).sound ((hs q).mono hle)

end State

/-! ## All turns -/

/-- A kit that an item has become. It is the item itself, with its owner, or a new object, whose
    address is not below `n`. -/
structure KitOf (types : Catalogue) (n : Ref) (x k : Thing) : Prop where
  id : k.label.id = decorationKit
  children : k.children = []
  storage : k.label.storage = none
  recorded : State.Recorded types x k
  owner : (k.ref = x.ref ∧ k.label.ints .owner = x.label.ints .owner) ∨
    (n ≤ k.ref ∧ k.label.ints .owner = none)

/-- What an item is after the walk. -/
def afterwards (types : Catalogue) (kit : Ref → Thing) (t : Thing) : Thing :=
  if types.isWrapable t.label.id then kit t.ref else t

/-- What an item puts on the list. -/
def entries (types : Catalogue) (kit : Ref → Thing) (t : Thing) : List Ref :=
  if types.isWrapable t.label.id then t.children.map Thing.ref ++ [(kit t.ref).ref]
  else if t.label.isPickupable types.toItemTable then [t.ref]
  else t.children.map Thing.ref

/-- Some items of a tile have been visited, and others not yet. -/
structure Walked (types : Catalogue) (p : Position) (s : State) (kit : Ref → Thing)
    (seen rest : List Thing) (c : State × List Ref) : Prop where
  wf : c.1.Wf types
  nextRef : s.nextRef ≤ c.1.nextRef
  items : ∃ done, (c.1.tiles p).items = done ++ rest ∧
    done.Perm (seen.map (afterwards types kit))
  list : c.2 = seen.flatMap (entries types kit)
  kits : ∀ t ∈ seen, types.isWrapable t.label.id = true → KitOf types s.nextRef t (kit t.ref)
  others : ∀ q, q ≠ p → Alike types (s.tiles q).items (c.1.tiles q).items

section turns

variable {p : Position} {s : State} {kit : Ref → Thing} {seen rest : List Thing} {x : Thing}
  {c : State × List Ref}

/-- The items in an item are put on the list, if it has any. -/
theorem handleContainer_eq {n : Ref} {ts : List Thing} (h : Sound types n ts) (hx : x ∈ ts)
    (l : List Ref) : handleContainer l x = l ++ x.children.map Thing.ref := by
  rw [handleContainer]
  split_ifs with hc
  · rfl
  · have hnone : x.label.storage = none := by
      rw [← Option.not_isSome_iff_eq_none]
      exact hc
    rw [h.heap.leaf x (List.mem_flatMap.2 ⟨x, hx, mem_nodes_self x⟩) hnone, List.map_nil,
      List.append_nil]

/-- All that is in an item that is wrapped is put on the list. -/
theorem handleContainer_wrapable {n : Ref} {ts : List Thing} (h : Sound types n ts) (hx : x ∈ ts)
    (hwrapable : types.isWrapable x.label.id = true) (l : List Ref) :
    (if (types.furniture x.label.id).wrapContainer then handleContainer l x else l) =
      l ++ x.children.map Thing.ref := by
  split_ifs with hc
  · exact handleContainer_eq h hx l
  · obtain ⟨hw, hto⟩ := Bool.and_eq_true_iff.1 hwrapable
    have hholder : isHolder (types.server.items x.label.id) = false :=
      Bool.eq_false_iff.2 fun hh =>
        hc (types.container_wrapContainer _ hw (of_decide_eq_true hto) hh)
    rw [(h.plain hx hholder).2, List.map_nil, List.append_nil]

/-- Kits of other items do not matter. -/
theorem map_afterwards_update (k : Thing) (hne : ∀ t ∈ seen, t.ref ≠ x.ref) :
    seen.map (afterwards types (Function.update kit x.ref k)) =
      seen.map (afterwards types kit) := by
  refine List.map_congr_left fun t ht => ?_
  rw [afterwards, afterwards, Function.update_of_ne (hne t ht)]

theorem flatMap_entries_update (k : Thing) (hne : ∀ t ∈ seen, t.ref ≠ x.ref) :
    seen.flatMap (entries types (Function.update kit x.ref k)) =
      seen.flatMap (entries types kit) := by
  refine List.flatMap_congr fun t ht => ?_
  rw [entries, entries, Function.update_of_ne (hne t ht)]

/-- One turn. -/
theorem Walked.handle (h : Walked types p s kit seen (x :: rest) c)
    (hne : ∀ t ∈ seen, t.ref ≠ x.ref) :
    ∃ kit', Walked types p s kit' (seen ++ [x]) rest (handle types p c x) := by
  obtain ⟨done, hitems, hperm⟩ := h.items
  have hx : x ∈ (c.1.tiles p).items := hitems ▸ List.mem_append_right _ List.mem_cons_self
  -- An item that is not wrapped stays where it is.
  have hstay : ∀ l, types.isWrapable x.label.id = false → l = c.2 ++ entries types kit x →
      Walked types p s kit (seen ++ [x]) rest (c.1, l) := by
    intro l hwrapable hl
    refine ⟨h.wf, h.nextRef, ⟨done ++ [x], ?_, ?_⟩, ?_, fun t ht hw => ?_, h.others⟩
    · rw [hitems, List.append_assoc]
      rfl
    · rw [List.map_append, List.map_singleton, afterwards, hwrapable, if_neg Bool.false_ne_true]
      exact hperm.append_right _
    · rw [hl, h.list, List.flatMap_append, List.flatMap_singleton]
    · rcases List.mem_append.1 ht with ht | ht
      · exact h.kits t ht hw
      · rw [List.mem_singleton.1 ht, hwrapable] at hw
        cases hw
  rw [Wrapping.handle]
  split_ifs with hwrapable hpickupable
  · obtain ⟨k, a, b, s', hwrap, hkit, hrecorded, hitems', hab, halike⟩ :=
      State.wrapItem_spec h.wf hitems hwrapable
    have hwf := h.wf.wrapped hitems hkit hitems' hab halike
    have hfind : ((s'.tiles p).find k.ref).isNone = false := by
      rw [HouseTile.find_eq hitems' (ref_ne (hitems' ▸ nodup_refs (hwf p).heap.distinct))]
      rfl
    rw [handleWrapableItem, handleContainer_wrapable (h.wf p) hx hwrapable, hwrap]
    dsimp only
    rw [hfind, if_neg Bool.false_ne_true]
    refine ⟨Function.update kit x.ref k, hwf, h.nextRef.trans hkit.nextRef_le,
      ⟨a ++ k :: b, ?_, ?_⟩, ?_, fun t ht hw => ?_, fun q hq => (h.others q hq).trans (halike q hq)⟩
    · rw [hitems', List.append_assoc, List.cons_append]
    · rw [List.map_append, List.map_singleton, map_afterwards_update k hne, afterwards,
        if_pos hwrapable, Function.update_self]
      have hdone : (a ++ k :: b).Perm (k :: done) := hab ▸ List.perm_middle
      exact hdone.trans ((hperm.cons k).trans (List.perm_append_singleton k _).symm)
    · rw [List.flatMap_append, List.flatMap_singleton, flatMap_entries_update k hne, ← h.list,
        entries, if_pos hwrapable, Function.update_self, List.append_assoc]
    · rcases List.mem_append.1 ht with ht | ht
      · rw [Function.update_of_ne (hne t ht)]
        exact h.kits t ht hw
      · rw [List.mem_singleton.1 ht, Function.update_self]
        refine ⟨hkit.id, hkit.children, hkit.storage, hrecorded, ?_⟩
        refine hkit.owner.imp (fun h => ⟨h.1, h.2.1⟩) fun h' => ⟨?_, h'.2.1⟩
        rw [h'.1]
        exact h.nextRef
  · refine ⟨kit, hstay _ (Bool.eq_false_iff.2 hwrapable) ?_⟩
    rw [entries, if_neg hwrapable, if_pos hpickupable]
  · refine ⟨kit, hstay _ (Bool.eq_false_iff.2 hwrapable) ?_⟩
    rw [entries, if_neg hwrapable, if_neg hpickupable, handleContainer_eq (h.wf p) hx]

/-- At each turn, the items that have not been visited yet are where they were. -/
theorem walked_turns (hs : s.Wf types) {k : ℕ} (hk : k ≤ (s.tiles p).items.length) :
    ∃ kit, Walked types p s kit ((s.tiles p).items.take k) ((s.tiles p).items.drop k)
      (turns types p s k) := by
  induction k with
  | zero =>
    refine ⟨fun r => .node (removeSleeper { class_ := .item, id := 0, ref := r }) [], ?_⟩
    exact ⟨hs, le_rfl, ⟨[], rfl, .refl _⟩, rfl, fun t ht => absurd ht List.not_mem_nil,
      fun q _ => .refl _⟩
  | succ k ih =>
    obtain ⟨kit, hwalked⟩ := ih (Nat.le_of_succ_le hk)
    have hlt : k < (s.tiles p).items.length := hk
    obtain ⟨done, hitems, hperm⟩ := hwalked.items
    have hlength : done.length = k := by
      rw [hperm.length_eq, List.length_map, List.length_take, Nat.min_eq_left hlt.le]
    rw [List.drop_eq_getElem_cons hlt] at hitems hwalked
    have hread : ((turns types p s k).1.tiles p).items[k]? = some (s.tiles p).items[k] := by
      rw [hitems, List.getElem?_append_right hlength.le, hlength, Nat.sub_self]
      rfl
    have hne : ∀ t ∈ (s.tiles p).items.take k, t.ref ≠ ((s.tiles p).items[k]).ref := by
      have hnodup := nodup_refs (hs p).heap.distinct
      rw [← List.take_append_drop k (s.tiles p).items, List.drop_eq_getElem_cons hlt] at hnodup
      exact fun t ht => ref_ne hnodup t (List.mem_append_left _ ht)
    rw [turns, hread, ← List.take_append_getElem hlt]
    exact hwalked.handle hne

/-- Each item is read once, and is still what it was. -/
theorem turns_read (hs : s.Wf types) {k : ℕ} (hk : k < (s.tiles p).items.length) :
    ((turns types p s k).1.tiles p).items[k]? = (s.tiles p).items[k]? := by
  obtain ⟨kit, hwalked⟩ := walked_turns hs hk.le
  obtain ⟨done, hitems, hperm⟩ := hwalked.items
  have hlength : done.length = k := by
    rw [hperm.length_eq, List.length_map, List.length_take, Nat.min_eq_left hk.le]
  rw [hitems, List.getElem?_append_right hlength.le, hlength, Nat.sub_self, List.getElem?_drop,
    Nat.add_zero]

theorem walked_listItems (hs : s.Wf types) :
    ∃ kit, Walked types p s kit (s.tiles p).items [] (listItems types p s) := by
  obtain ⟨kit, hwalked⟩ := walked_turns (p := p) hs le_rfl
  rw [List.take_length, List.drop_length] at hwalked
  exact ⟨kit, hwalked⟩

end turns

end Canary.Houses.Wrapping
