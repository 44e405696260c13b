import Canary.Inventory.World

/-!
# What cylinders answer

Before a thing is added or moved, the cylinders are asked: whether it may be added (`queryAdd`)
or removed (`queryRemove`), how many units there is room for (`queryMaxCount`), and where it
would go (`queryDestination`), which may be another cylinder, or a stack to merge it with. The
answers change nothing; nothing makes them agree with each other.
-/

namespace Canary.Inventory

/-- What the cylinders ask the rest of the server. -/
structure Game where
  types : ItemTable
  /-- `MAX_CONTAINER` -/
  maxContainer : ℕ
  /-- `Item::isOwner`, for the owner id and the player. -/
  isOwner : BitVec 64 → PlayerId → Bool
  /-- `MoveEvents::onPlayerEquip`, as a check. -/
  onPlayerEquip : Player → Thing → ℤ → Bool

inductive ReturnValue
  | noError | notPossible | notEnoughRoom | notMovable | dropTwoHandedItem
  | bothHandsNeedToBeFree | canOnlyUseOneWeapon | needExchange | cannotBeDressed
  | putThisObjectInBothHands | containerNotEnoughRoom | onlyAmmoInQuiver | notEnoughCapacity
  | cannotPickup | thisIsImpossible | depotIsFull | canOnlyUseOneShield | containerIsFull
  | itemIsNotYours
  deriving DecidableEq, Repr

/-! ## Flags -/

abbrev Flags := BitVec 32

def flagNoLimit : Flags := 1
def flagChildIsOwner : Flags := 8
def flagIgnoreNotMovable : Flags := 64
def flagIgnoreAutoStack : Flags := 128

def hasBitSet (flag flags : Flags) : Bool := flags &&& flag ≠ 0

def indexWhereEver : ℤ := -1

namespace World

variable (g : Game) (w : World)

/-! ## Adding to a player -/

def topParent (item : Thing) : Option Ancestor :=
  getTopParent (if item.isContainer then some (.container item) else none) (w.parents item.ref)

def hasCapacity (p : Player) (item : Thing) (count : ℕ) : Bool :=
  let carried : Bool := match w.topParent item with
    | some (.player p') => p'.id = p.id
    | _ => false
  if p.cannotPickupItem then false
  else if p.hasInfiniteCapacity || carried then true
  else
    let itemWeight :=
      if item.isContainer then item.getWeight g.types else item.label.getBaseWeight g.types
    let itemWeight :=
      if item.label.isStackable g.types then itemWeight * BitVec.ofNat 32 count else itemWeight
    itemWeight.toNat ≤ p.getFreeCapacity

/-- A hand, for what is made for neither hand nor both, beside what is in the other one. -/
def handReturn (other : Option Thing) (item : Thing) (count : ℕ) : ReturnValue :=
  match other with
  | none => .noError
  | some other =>
    let type := item.label.getWeaponType g.types
    let otherType := other.label.getWeaponType g.types
    if other.label.getSlotPosition g.types &&& slotpTwoHand ≠ 0 then .dropTwoHandedItem
    else if item.ref = other.ref ∧ count = item.label.getItemCount then .noError
    else if otherType = .shield ∧ type = .shield then .canOnlyUseOneShield
    else if otherType = .none ∨ type = .none ∨ otherType = .shield ∨ otherType = .ammo ∨
        type = .shield ∨ type = .ammo then .noError
    else .canOnlyUseOneWeapon

/-- Whether the item goes to the slot, whatever is in it. -/
def slotReturn (p : Player) (index : ℤ) (item : Thing) (count : ℕ) : ReturnValue :=
  let slotPosition := item.label.getSlotPosition g.types
  let type := item.label.getWeaponType g.types
  let fits (bit : BitVec 16) : Bool := slotPosition &&& bit ≠ 0
  let ret : ReturnValue :=
    if fits slotpHead || fits slotpNecklace || fits slotpBackpack || fits slotpArmor ||
        fits slotpLegs || fits slotpFeet || fits slotpRing then .cannotBeDressed
    else if fits slotpTwoHand then .putThisObjectInBothHands
    else if fits slotpRight || fits slotpLeft then .cannotBeDressed
    else .noError
  let twoHanded (other : Option Thing) : ReturnValue :=
    match other with
    | some other => if other.ref ≠ item.ref then .bothHandsNeedToBeFree else .noError
    | none => .noError
  if index = 0 ∨ index = indexWhereEver then .notEnoughRoom
  else match Slot.ofIndex index with
  | some .head => if fits slotpHead then .noError else ret
  | some .necklace => if fits slotpNecklace then .noError else ret
  | some .backpack => if fits slotpBackpack then .noError else ret
  | some .armor => if fits slotpArmor then .noError else ret
  | some .right =>
    if fits slotpRight then
      if type ≠ .shield ∧ !item.label.isQuiver g.types then .cannotBeDressed
      else match p.inventory .left with
      | some leftItem =>
        if (leftItem.label.getSlotPosition g.types ||| slotPosition) &&& slotpTwoHand ≠ 0 then
          if item.label.isQuiver g.types ∧ leftItem.label.getWeaponType g.types = .distance then
            .noError
          else .bothHandsNeedToBeFree
        else .noError
      | none => .noError
    else if fits slotpTwoHand then twoHanded (p.inventory .left)
    else handReturn g (p.inventory .left) item count
  | some .left =>
    if fits slotpLeft then
      if type = .none ∨ type = .shield ∨ type = .ammo then .cannotBeDressed
      else match p.inventory .right with
      | some rightItem =>
        if fits slotpTwoHand then
          if type = .distance ∧ rightItem.label.isQuiver g.types then .noError
          else .bothHandsNeedToBeFree
        else .noError
      | none => .noError
    else if fits slotpTwoHand then twoHanded (p.inventory .right)
    else handReturn g (p.inventory .right) item count
  | some .legs => if fits slotpLegs then .noError else ret
  | some .feet => if fits slotpFeet then .noError else ret
  | some .ring => if fits slotpRing then .noError else ret
  | some .ammo => if fits slotpAmmo then .noError else ret
  | some .storeInbox | none => .notPossible

/-- `Player::queryAdd` -/
def playerQueryAdd (p : Player) (index : ℤ) (item : Thing) (count : ℕ) (flags : Flags) :
    ReturnValue :=
  if item.hasOwner ∧ !g.isOwner item.getOwnerId p.id then .itemIsNotYours
  else if hasBitSet flagChildIsOwner flags then
    if hasBitSet flagNoLimit flags || w.hasCapacity g p item count then .noError
    else .notEnoughCapacity
  else if !item.label.isPickupable g.types then .cannotPickup
  else
    let ret := slotReturn g p index item count
    if ret = .noError ∨ ret = .notEnoughRoom then
      -- need an exchange with source?
      let exchange : Bool := match (Slot.ofIndex index).bind p.inventory with
        | some i => !i.label.isStackable g.types || i.label.id ≠ item.label.id
        | none => false
      if exchange then .needExchange
      else if !w.hasCapacity g p item count then .notEnoughCapacity
      else if !g.onPlayerEquip p item index then .cannotBeDressed
      else ret
    else ret

/-! ## Adding to a container -/

/-- `queryAdd` of the class of a container, given the one of `Container`. -/
def classQueryAdd (c : Thing) (item : Thing) (count : ℕ) (flags : Flags)
    (actor : Option PlayerId) (base : ReturnValue) : ReturnValue :=
  let inside : Bool := match w.topParent item with
    | some (.container t) => t.ref = c.ref
    | _ => false
  let whole := if item.isContainer then item.getItemHoldingCount + 1 else 1
  match c.class_ with
  | .container => base
  | .depotChest =>
    if (match actor with
      | some player => item.hasOwner && !g.isOwner item.getOwnerId player
      | none => false) then .itemIsNotYours
    else
      let addCount :=
        if !inside then whole
        else if item.label.isStackable g.types ∧ item.label.getItemCount ≠ count then 1 else 0
      let realParent : Option Ancestor := (w.chain c.ref)[1]?
      let held := match realParent with
        | some (.container localParent) => localParent.getItemHoldingCount
        | _ => c.getItemHoldingCount
      if !hasBitSet flagNoLimit flags ∧ held + addCount > c.maxStored then .depotIsFull else base
  | .depotLocker => .notEnoughRoom
  | .inbox =>
    if !hasBitSet flagNoLimit flags then .containerNotEnoughRoom
    else if item.ref = c.ref then .thisIsImpossible
    else if !item.label.isPickupable g.types then .cannotPickup
    else if c.getItemHoldingCount + (if inside then 0 else whole) > c.maxStored then .depotIsFull
    else .noError
  | .reward =>
    if actor.isSome then .notPossible
    else if item.ref = c.ref then .thisIsImpossible
    else if !item.label.isPickupable g.types then .cannotPickup
    else .noError
  | .rewardChest => if actor.isSome then .notPossible else .noError

/-- The owners of the item and of the container. -/
def ownerReturn (c item : Thing) : ReturnValue :=
  if !item.hasOwner then .noError
  else
    -- a non-owner can move the item around but not pick it up
    let stranger : Bool := match getTopParent (some (.container c)) (w.parents c.ref) with
      | some (.player toPlayer) => !g.isOwner item.getOwnerId toPlayer.id
      | _ => false
    if stranger then .itemIsNotYours
    else if c.hasOwner ∧ c.getOwnerId ≠ item.getOwnerId then .itemIsNotYours
    else .noError

/-- The cylinders a container is in: none is the item added, nor an inbox. -/
def parentsReturn (noLimit : Bool) (item : Thing) : List Ancestor → ReturnValue
  | [] => .noError
  | .container t :: rest =>
    if t.ref = item.ref then .thisIsImpossible
    else if !noLimit ∧ t.class_ = .inbox then .containerNotEnoughRoom
    else parentsReturn noLimit item rest
  | _ :: rest => parentsReturn noLimit item rest

/-- The number of things in the container at the top. -/
def holdingReturn (c item : Thing) : ReturnValue :=
  let top := getTopParentContainer c (w.parents c.ref)
  if item.isContainer then
    if item.getContainerHoldingCount + 1 + top.getContainerHoldingCount > g.maxContainer then
      .containerIsFull
    else if item.getItemHoldingCount + 1 + top.getItemHoldingCount > c.maxItems then
      .containerIsFull
    else .noError
  else if top.getItemHoldingCount + 1 > c.maxItems then .containerIsFull
  else .noError

/-- `Container::queryAdd`, of the class of the container. -/
def containerQueryAdd (c : Thing) (addIndex : ℤ) (item : Thing) (addCount : ℕ) (flags : Flags)
    (actor : Option PlayerId) : ReturnValue :=
  let noLimit := hasBitSet flagNoLimit flags
  let parents := w.parents c.ref
  w.classQueryAdd g c item addCount flags actor <|
    if hasBitSet flagChildIsOwner flags then .noError
    else if !c.unlocked then .notPossible
    else if !item.label.isPickupable g.types then .cannotPickup
    else if item.ref = c.ref then .thisIsImpossible
    else if w.ownerReturn g c item ≠ .noError then w.ownerReturn g c item
    else if parentsReturn noLimit item parents ≠ .noError then parentsReturn noLimit item parents
    else if !noLimit ∧ addIndex = indexWhereEver ∧ c.size ≥ c.capacity ∧ !c.hasPagination then
      .containerNotEnoughRoom
    else if w.holdingReturn g c item ≠ .noError then w.holdingReturn g c item
    else if c.label.isQuiver g.types ∧ item.label.getWeaponType g.types ≠ .ammo then
      .onlyAmmoInQuiver
    else match getTopParent (some (.container c)) parents with
    | some (.player p) =>
      w.playerQueryAdd g p indexWhereEver item addCount (flags ||| flagChildIsOwner)
    | some (.container t) =>
      if t.ref = c.ref then .noError
      else w.classQueryAdd g t item addCount (flags ||| flagChildIsOwner) actor .noError
    | _ => .noError

/-- `queryAdd` -/
def queryAdd (cylinder : Cylinder) (index : ℤ) (item : Thing) (count : ℕ) (flags : Flags)
    (actor : Option PlayerId) : ReturnValue :=
  match cylinder with
  | .player id =>
    match w.player? id with
    | some p => w.playerQueryAdd g p index item count flags
    | none => .notPossible
  | .container r =>
    match w.container? r with
    | some c => w.containerQueryAdd g c index item count flags actor
    | none => .notPossible

/-! ## The room for units -/

/-- The room in the stacks of a container. The index asked for counts these stacks only. -/
def stackRoom (c item : Thing) (flags : Flags) : ℕ → List Thing → ℕ
  | _, [] => 0
  | slotIndex, i :: is =>
    if i.ref ≠ item.ref && i.stacksWith g.types item then
      let remainder := i.label.getStackSize g.types - i.label.getItemCount
      (if w.containerQueryAdd g c slotIndex item remainder flags none = .noError then remainder
        else 0) + stackRoom c item flags (slotIndex + 1) is
    else stackRoom c item flags slotIndex is

/-- `getItemByIndex` -/
def getItemByIndex (c : Thing) (index : ℤ) : Option Thing :=
  if index < 0 then none else c.children[index.toNat]?

/-- `Container::queryMaxCount` -/
def containerQueryMaxCount (c : Thing) (index : ℤ) (item : Thing) (count : ℕ) (flags : Flags) :
    ReturnValue × ℕ :=
  if hasBitSet flagNoLimit flags || c.hasPagination then (.noError, max 1 count)
  else
    let freeSlots := c.capacity - c.size
    if item.label.isStackable g.types then
      let n :=
        if index = indexWhereEver then w.stackRoom g c item flags 0 c.children
        else match getItemByIndex c index with
        | some destItem =>
          if item.equals destItem &&
            destItem.label.getItemCount < destItem.label.getStackSize g.types
          then destItem.label.getStackSize g.types - destItem.label.getItemCount else 0
        | none => 0
      let maxQueryCount := freeSlots * item.label.getStackSize g.types + n
      (if maxQueryCount < count then .containerNotEnoughRoom else .noError, maxQueryCount)
    else (if freeSlots = 0 then .containerNotEnoughRoom else .noError, freeSlots)

/-- The room in a slot of a player, and in the containers in it. -/
def slotRoom (p : Player) (item : Thing) (flags : Flags) (slot : Slot) : ℕ :=
  let stackSize (i : Thing) := i.label.getStackSize g.types
  let room (c : Thing) :=
    (w.containerQueryMaxCount g c indexWhereEver item item.label.getItemCount flags).2
  match p.inventory slot with
  | some i =>
    if i.isContainer then
      room i + (((i.iterator).filter Thing.isContainer).map room).sum
    else if i.label.isStackable g.types && item.equals i && i.label.getItemCount < stackSize i then
      let remainder := stackSize i - i.label.getItemCount
      if w.playerQueryAdd g p slot.index item remainder flags = .noError then remainder else 0
    else 0
  | none =>
    if w.playerQueryAdd g p slot.index item item.label.getItemCount flags = .noError then
      if item.label.isStackable g.types then stackSize item else 1
    else 0

/-- `Player::queryMaxCount` -/
def playerQueryMaxCount (p : Player) (index : ℤ) (item : Thing) (count : ℕ) (flags : Flags) :
    ReturnValue × ℕ :=
  let answer (maxQueryCount : ℕ) : ReturnValue × ℕ :=
    (if maxQueryCount < count then .notEnoughRoom else .noError, maxQueryCount)
  if index = indexWhereEver then answer ((Slot.all.map (w.slotRoom g p item flags)).sum)
  else match (Slot.ofIndex index).bind p.inventory with
  | some destItem =>
    let stackSize := destItem.label.getStackSize g.types
    answer (if destItem.label.isStackable g.types && item.equals destItem &&
      destItem.label.getItemCount < stackSize then stackSize - destItem.label.getItemCount else 0)
  | none =>
    if w.playerQueryAdd g p index item count flags = .noError then
      (.noError, if item.label.isStackable g.types then item.label.getStackSize g.types else 1)
    else answer 0

/-- `queryMaxCount`, with the room found. -/
def queryMaxCount (cylinder : Cylinder) (index : ℤ) (item : Thing) (count : ℕ) (flags : Flags) :
    ReturnValue × ℕ :=
  match cylinder with
  | .player id =>
    match w.player? id with
    | some p => w.playerQueryMaxCount g p index item count flags
    | none => (.notPossible, 0)
  | .container r =>
    match w.container? r with
    | some c => w.containerQueryMaxCount g c index item count flags
    | none => (.notPossible, 0)

/-! ## Removing -/

/-- `queryRemove`, which is the same for players and containers. -/
def queryRemove (cylinder : Cylinder) (item : Thing) (count : ℕ) (flags : Flags) : ReturnValue :=
  if (w.getThingIndex cylinder item.ref).isNone then .notPossible
  else if count = 0 ∨ (item.label.isStackable g.types ∧ count > item.label.getItemCount) then
    .notPossible
  else if !item.label.isMovable g.types ∧ !hasBitSet flagIgnoreNotMovable flags then .notMovable
  else .noError

/-! ## The destination -/

/-- Where a thing would go: to an index of a cylinder, or to a stack in it (`destItem`). -/
structure Destination where
  cylinder : Cylinder
  index : ℤ
  destItem : Option Ref

/-- The index of a container, and what is there. -/
def inContainer (c : Thing) (index : ℤ) (destItem : Option Thing) : Destination :=
  ⟨.container c.ref, index, destItem.map Thing.ref⟩

/-- The thing is directly in the container. -/
def isInside (c item : Thing) : Bool :=
  let parent : Option Ancestor := (w.chain item.ref)[1]?
  match parent with
  | some (.container t) => t.ref = c.ref
  | _ => false

/-- The stack of a container to merge with: the one asked for, or the first. The thing is not
    merged within the container it is in. -/
def autoStack (c : Thing) (index : ℤ) (item : Thing) (destItem : Option Thing) (flags : Flags) :
    Destination :=
  if !hasBitSet flagIgnoreAutoStack flags && item.label.isStackable g.types &&
      !w.isInside c item then
    if destItem.any fun i => i.stacksWith g.types item then inContainer c index destItem
    else
      -- try find a suitable item to stack with
      let suitable (i : Thing) : Bool := i.ref ≠ item.ref && i.stacksWith g.types item
      match c.children.findIdx? suitable, c.children.find? suitable with
      | some n, some listItem => inContainer c n (some listItem)
      | _, _ => inContainer c index destItem
  else inContainer c index destItem

/-- `Container::queryDestination` -/
def containerQueryDestination (c : Thing) (index : ℤ) (item : Thing) (destItem : Option Thing)
    (flags : Flags) : Destination :=
  if !c.unlocked then inContainer c index none
  else if index = 254 then -- move up
    match w.parents c.ref with
    | .container t :: _ => ⟨.container t.ref, indexWhereEver, none⟩
    | _ => inContainer c indexWhereEver none
  else if index = 255 ∨ (index ≥ c.capacity ∧ !c.hasPagination) ∨ index = indexWhereEver then
    let destItem := if index = indexWhereEver then destItem else none
    w.autoStack g c indexWhereEver item destItem flags
  else
    let destItem := getItemByIndex c index <|> destItem
    match destItem.filter Thing.isContainer with
    | some subCylinder => ⟨.container subCylinder.ref, indexWhereEver, none⟩
    | none => w.autoStack g c index item destItem flags

/-- The first of the `n` free slots of a container that may be added to. -/
def emptySlot (c item : Thing) (flags : Flags) : ℕ → Option ℤ
  | 0 => none
  | n + 1 =>
    let index := (BitVec.ofNat 32 c.capacity - BitVec.ofNat 32 (n + 1)).toInt
    if w.containerQueryAdd g c index item item.label.getItemCount flags none = .noError then
      some index
    else emptySlot c item flags n

/-- The first stack to merge with, or the containers and the number of the other things. -/
def stackIn (p : Player) (item : Thing) : ℕ → List Thing → List Thing →
    (ℕ × Thing) ⊕ (List Thing × ℕ)
  | n, containers, [] => .inr (containers, n)
  | n, containers, i :: is =>
    if some i.ref = p.tradeItem || i.ref = item.ref then stackIn p item n containers is
    else if i.stacksWith g.types item then .inl (n, i)
    else stackIn p item (n + 1) (if i.isContainer then containers ++ [i] else containers) is

/-- The containers of a player, breadth first. The fuel is that of the number of things. -/
def containerSearch (p : Player) (item : Thing) (flags : Flags) :
    ℕ → List Thing → Option Destination
  | 0, _ => none
  | _, [] => none
  | fuel + 1, c :: containers =>
    if hasBitSet flagIgnoreAutoStack flags || !item.label.isStackable g.types then
      -- uint32_t, which wraps in a container with more things than slots
      match w.emptySlot g c item flags (BitVec.ofNat 32 c.capacity - BitVec.ofNat 32 c.size).toNat
      with
      | some index => some ⟨.container c.ref, index, none⟩
      | none =>
        containerSearch p item flags fuel (containers ++ c.children.filter Thing.isContainer)
    else
      match stackIn g p item 0 [] c.children with
      | .inl (n, i) => some ⟨.container c.ref, n, some i.ref⟩
      | .inr (subContainers, n) =>
        if n < c.capacity ∧
            w.containerQueryAdd g c n item item.label.getItemCount flags none = .noError then
          some ⟨.container c.ref, n, none⟩
        else containerSearch p item flags fuel (containers ++ subContainers)

/-- The slots of a player, and the containers in them if no slot is found. -/
def slotSearch (p : Player) (item : Thing) (flags : Flags) :
    List Slot → List Thing → Destination ⊕ List Thing
  | [], containers => .inr containers
  | slot :: slots, containers =>
    let count := item.label.getItemCount
    match p.inventory slot with
    | some i =>
      if some i.ref = p.tradeItem || i.ref = item.ref then slotSearch p item flags slots containers
      else if !hasBitSet flagIgnoreAutoStack flags && item.label.isStackable g.types &&
          w.playerQueryAdd g p slot.index item count 0 = .noError && i.stacksWith g.types item then
        .inl ⟨.player p.id, slot.index, some i.ref⟩
      else slotSearch p item flags slots (if i.isContainer then containers ++ [i] else containers)
    | none =>
      if w.playerQueryAdd g p slot.index item count flags = .noError then
        .inl ⟨.player p.id, slot.index, none⟩
      else slotSearch p item flags slots containers

/-- `Player::queryDestination` -/
def playerQueryDestination (p : Player) (index : ℤ) (item : Thing) (destItem : Option Thing)
    (flags : Flags) : Destination :=
  if index = 0 ∨ index = indexWhereEver then
    match w.slotSearch g p item flags (Slot.all.filter (· ≠ .storeInbox)) [] with
    | .inl destination => destination
    | .inr containers =>
      (w.containerSearch g p item flags (p.things.flatMap RoseTree.nodes).length containers).getD
        ⟨.player p.id, index, none⟩
  else
    let destThing := (Slot.ofIndex index).bind p.inventory
    let destItem := destThing <|> destItem
    let here : Destination := ⟨.player p.id, index, destItem.map Thing.ref⟩
    let movingAmmoToQuiver :=
      (destItem.any fun i => i.label.isQuiver g.types) && item.label.isAmmo g.types
    -- force shield any slot right to player cylinder
    if index = Slot.right.index ∧ !movingAmmoToQuiver then here
    else match destThing.filter Thing.isContainer with
    | some subCylinder => ⟨.container subCylinder.ref, indexWhereEver, none⟩
    | none => here

/-- `queryDestination` -/
def queryDestination (cylinder : Cylinder) (index : ℤ) (item : Thing) (destItem : Option Ref)
    (flags : Flags) : Destination :=
  match cylinder with
  | .player id =>
    match w.player? id with
    | some p => w.playerQueryDestination g p index item (destItem.bind w.find) flags
    | none => ⟨cylinder, index, none⟩
  | .container r =>
    match w.container? r with
    | some c => w.containerQueryDestination g c index item (destItem.bind w.find) flags
    | none => ⟨cylinder, index, none⟩

end World

end Canary.Inventory
