import Canary.Inventory.Conservation

/-!
# Moving an item

`internalMoveItem` is written against the methods that all cylinders have (`Cylinders`): players,
containers and tiles answer queries, and add, update and remove things, each in its own way. It
looks for the destination, asks whether and how much of the item may be moved, and moves that much.
Where another item is in the way (`needExchange`), that one goes first to where the item came from.

Whatever the cylinders answer, a move that returns an error has changed nothing, with two
exceptions. Of a stack of which only a part has room, that part is moved, and the error says so:
what is taken from the stack is what the stack at the destination is given and what is added there
as a clone, together (`Moved`). And an exchange is not undone when the item is refused after it
(`internalMoveItem_error`).
-/

namespace Canary.Inventory

/-- Where a thing would go, with the flags that are left. -/
structure Target (C I : Type) where
  cylinder : C
  index : ℤ
  destItem : Option I
  flags : Flags

/-- The methods of cylinders and items, for states, cylinders, items and creatures. -/
structure Cylinders (W C I A : Type) where
  isStackable : W → I → Bool
  getItemCount : W → I → ℕ
  equals : W → I → I → Bool
  /-- What is missing to a full stack, as a `uint32_t`. -/
  room : W → I → ℕ
  /-- A clone with another count. -/
  clone : W → I → ℕ → I × W
  /-- `getParent`, its parent, and so on. -/
  parents : W → C → List C
  getItem : W → C → Option I
  /-- The tile whose browse field the cylinder is. -/
  browseField : W → C → Option C
  getThingIndex : W → C → I → Option ℤ
  queryDestination : W → Target C I → I → Target C I
  queryRemove : W → C → I → ℕ → Flags → Option A → ReturnValue
  queryAdd : W → C → ℤ → I → ℕ → Flags → Option A → ReturnValue
  queryMaxCount : W → C → ℤ → I → ℕ → Flags → ReturnValue × ℕ
  /-- `addThing`, without an index. -/
  addThingAnywhere : W → C → I → W
  addThing : W → C → ℤ → I → W
  /-- `updateThing`, to the same type with another count. -/
  updateThing : W → C → I → ℕ → W
  removeThing : W → C → I → ℕ → W
  postAddNotification : W → C → I → C → ℤ → W
  postRemoveNotification : W → C → I → C → ℤ → W

/-- The arguments of a move. -/
structure Move (C I A : Type) where
  fromCylinder : C
  toCylinder : C
  index : ℤ
  item : I
  count : ℕ
  flags : Flags
  actor : Option A
  tradeItem : Option I
  checkTile : Bool

/-- `MAP_MAX_LAYERS` -/
def mapMaxLayers : ℕ := 16

namespace Cylinders

variable {W C I A : Type} [DecidableEq C] [DecidableEq I] (m : Cylinders W C I A)

/-- Ask for the destination until it stays the same, at most so many times. -/
def destination (w : W) (item : I) : ℕ → Target C I → Target C I
  | 0, d => d
  | layers + 1, d =>
    let d' := m.queryDestination w d item
    if d'.cylinder = d.cylinder then d' else destination w item layers { d' with flags := 0 }

/-- The cylinder that is moved from. -/
def source (w : W) (move : Move C I A) : C :=
  if move.checkTile then (m.browseField w move.fromCylinder).getD move.fromCylinder
  else move.fromCylinder

def target (w : W) (move : Move C I A) : Target C I :=
  m.destination w move.item mapMaxLayers ⟨move.toCylinder, move.index, none, move.flags⟩

/-- The count asked for. "Move up" never says it. -/
def moveCount (w : W) (move : Move C I A) : ℕ :=
  if m.isStackable w move.item ∧ move.count = 255 ∧
      (m.parents w (m.source w move)).head? = some (m.target w move).cylinder then
    m.getItemCount w move.item
  else move.count

/-- The item in the way goes to the other cylinder. -/
def swap (w : W) (fromCylinder toCylinder : C) (toItem : I) : W :=
  let oldToItemIndex := m.getThingIndex w toCylinder toItem
  let w := m.removeThing w toCylinder toItem (m.getItemCount w toItem)
  let w := m.addThingAnywhere w fromCylinder toItem
  let w := match oldToItemIndex with
    | some index => m.postRemoveNotification w toCylinder toItem fromCylinder index
    | none => w
  match m.getThingIndex w fromCylinder toItem with
  | some index => m.postAddNotification w fromCylinder toItem toCylinder index
  | none => w

/-- Whether the item may be added, the state, and the item to merge with. If another item is in
the way, it is moved, if it may be. There is no result where a null pointer would be read. -/
def exchange (w : W) (move : Move C I A) : Option (ReturnValue × W × Option I) :=
  let d := m.target w move
  let count := m.moveCount w move
  let ret := m.queryAdd w d.cylinder d.index move.item count d.flags move.actor
  if ret ≠ .needExchange then some (ret, w, d.destItem)
  else
    match d.destItem with
    | some toItem =>
      let index := (m.getThingIndex w (m.source w move) move.item).getD (-1)
      let toCount := m.getItemCount w toItem
      let ret := m.queryAdd w (m.source w move) index toItem toCount 0 none
      if ret ≠ .noError then some (ret, w, d.destItem)
      else
        let max := m.queryMaxCount w (m.source w move) indexWhereEver toItem toCount 0
        if max.1 ≠ .noError ∧ max.2 = 0 then some (max.1, w, d.destItem)
        else if m.queryRemove w d.cylinder toItem toCount d.flags move.actor = .noError then
          let w := m.swap w (m.source w move) d.cylinder toItem
          some (m.queryAdd w d.cylinder d.index move.item count d.flags none, w, none)
        else some (.noError, w, d.destItem)
    | none => none

/-- The stack found is given what it has room for, if it is equal: the stack, the units that it is
given, and the state. -/
def merge (w : W) (toCylinder : C) (item : I) (toItem : Option I) (units : ℕ) :
    Option I × ℕ × W :=
  match toItem.filter fun toItem => m.equals w item toItem with
  | some toItem =>
    let n := min (m.room w toItem) units
    (some toItem, n, m.updateThing w toCylinder toItem (m.getItemCount w toItem + n))
  | none => (none, 0, w)

/-- `postAddNotification`, if the item is there. -/
def notifyAdded (w : W) (fromCylinder toCylinder : C) (item : Option I) : W :=
  match item.bind fun item => (m.getThingIndex w toCylinder item).map (item, ·) with
  | some (item, index) => m.postAddNotification w toCylinder item fromCylinder index
  | none => w

def notifyMoved (w : W) (fromCylinder toCylinder : C) (item : I) (itemIndex : Option ℤ)
    (moveItem updateItem : Option I) : W :=
  let w := match itemIndex with
    | some index => m.postRemoveNotification w fromCylinder item toCylinder index
    | none => w
  let w := m.notifyAdded w fromCylinder toCylinder moveItem
  m.notifyAdded w fromCylinder toCylinder updateItem

/-- Take units of the item from the one cylinder, and add them to the other. -/
def transfer (w : W) (fromCylinder toCylinder : C) (index : ℤ) (item : I) (toItem : Option I)
    (units : ℕ) : W :=
  let itemIndex := m.getThingIndex w fromCylinder item
  let w := m.removeThing w fromCylinder item units
  if m.isStackable w item then
    let (updateItem, n, w) := m.merge w toCylinder item toItem units
    if 0 < units - n then
      let (moveItem, w) := m.clone w item (units - n)
      let w := m.addThing w toCylinder index moveItem
      m.notifyMoved w fromCylinder toCylinder item itemIndex (some moveItem) updateItem
    else m.notifyMoved w fromCylinder toCylinder item itemIndex none updateItem
  else
    let w := m.addThing w toCylinder index item
    m.notifyMoved w fromCylinder toCylinder item itemIndex (some item) none

/-- The item that is traded is the cylinder, or holds it. -/
def traded (w : W) (move : Move C I A) (toCylinder : C) : Bool :=
  move.tradeItem.any fun tradeItem =>
    (toCylinder :: m.parents w toCylinder).any fun c => m.getItem w c = some tradeItem

/-- The units that are moved. -/
def moveUnits (w : W) (move : Move C I A) (count maxQueryCount : ℕ) : ℕ :=
  if m.isStackable w move.item then min count maxQueryCount else maxQueryCount

/-- The move itself, once the item may be added. -/
def moveOn (w : W) (move : Move C I A) (source : C) (d : Target C I) (count : ℕ)
    (toItem : Option I) : ReturnValue × W :=
  let max := m.queryMaxCount w d.cylinder d.index move.item count d.flags
  let units := m.moveUnits w move count max.2
  let ret := m.queryRemove w source move.item units d.flags move.actor
  if max.1 ≠ .noError ∧ max.2 = 0 then (max.1, w)
  else if ret ≠ .noError then (ret, w)
  else if m.traded w move d.cylinder then (.notEnoughRoom, w)
  else
    let w := m.transfer w source d.cylinder d.index move.item toItem units
    -- we could not move all
    (if m.isStackable w move.item ∧ max.2 < count then max.1 else .noError, w)

/-- `Game::internalMoveItem`. Where it moves from and to, and how much is asked for, is found before
an exchange. -/
def internalMoveItem (w : W) (move : Move C I A) : Option (ReturnValue × W) :=
  let source := m.source w move
  let d := m.target w move
  let count := m.moveCount w move
  let ret := m.queryRemove w source move.item 1 d.flags move.actor
  if d.destItem = some move.item then some (.noError, w)
  else if ret ≠ .noError then some (ret, w)
  else (m.exchange w move).map fun (ret, w, toItem) =>
    if ret ≠ .noError then (ret, w) else m.moveOn w move source d count toItem

/-! ## Errors -/

/-- The room at the destination, with the answer where it is less than asked for. -/
def targetRoom (w : W) (move : Move C I A) : ReturnValue × ℕ :=
  m.queryMaxCount w (m.target w move).cylinder (m.target w move).index move.item
    (m.moveCount w move) (m.target w move).flags

/-- Another item is in the way, and may be moved to where the item comes from. -/
def Exchanges (w : W) (move : Move C I A) : Prop :=
  let d := m.target w move
  m.queryAdd w d.cylinder d.index move.item (m.moveCount w move) d.flags move.actor =
      .needExchange ∧
    ∃ toItem, d.destItem = some toItem ∧
      m.queryAdd w (m.source w move) ((m.getThingIndex w (m.source w move) move.item).getD (-1))
        toItem (m.getItemCount w toItem) 0 none = .noError ∧
      m.queryRemove w d.cylinder toItem (m.getItemCount w toItem) d.flags move.actor = .noError

/-- Notifications of the two cylinders, in any number. -/
inductive Notified (fromCylinder toCylinder : C) : W → W → Prop
  | refl (w : W) : Notified fromCylinder toCylinder w w
  | remove {w w' : W} (item : I) (index : ℤ) : Notified fromCylinder toCylinder w w' →
      Notified fromCylinder toCylinder w
        (m.postRemoveNotification w' fromCylinder item toCylinder index)
  | add {w w' : W} (item : I) (index : ℤ) : Notified fromCylinder toCylinder w w' →
      Notified fromCylinder toCylinder w
        (m.postAddNotification w' toCylinder item fromCylinder index)

/-- Units of the item that the stack found in the cylinder is given, if it is equal. -/
inductive Merged (cylinder : C) (item : I) : Option I → ℕ → W → W → Prop
  | none (w : W) (toItem : Option I) : Merged cylinder item toItem 0 w w
  | stack {w : W} {toItem : I} {n : ℕ} : m.equals w item toItem → n ≤ m.room w toItem →
      Merged cylinder item (some toItem) n w
        (m.updateThing w cylinder toItem (m.getItemCount w toItem + n))

/-- Units of the item that are added to the cylinder, as a clone. -/
inductive Cloned (cylinder : C) (index : ℤ) (item : I) : ℕ → W → W → Prop
  | none (w : W) : Cloned cylinder index item 0 w w
  | clone (w : W) {n : ℕ} : 0 < n → Cloned cylinder index item n w
      (m.addThing (m.clone w item n).2 cylinder index (m.clone w item n).1)

/-- Units of the item are moved: what is taken from it is what the stack is given and what the clone
has, together. (An item that is no stack when it has been taken is added itself.) -/
inductive Moved (fromCylinder toCylinder : C) (index : ℤ) (item : I) (toItem : Option I)
    (units : ℕ) (w : W) : W → Prop
  | units {merged cloned : ℕ} {w₁ w₂ w' : W} : merged + cloned = units →
      m.Merged toCylinder item toItem merged (m.removeThing w fromCylinder item units) w₁ →
      m.Cloned toCylinder index item cloned w₁ w₂ → m.Notified fromCylinder toCylinder w₂ w' →
      Moved fromCylinder toCylinder index item toItem units w w'
  | whole {w' : W} : ¬m.isStackable (m.removeThing w fromCylinder item units) item →
      m.Notified fromCylinder toCylinder
        (m.addThing (m.removeThing w fromCylinder item units) toCylinder index item) w' →
      Moved fromCylinder toCylinder index item toItem units w w'

/-- There is room for a part of a stack only, and just that part has been moved. -/
structure MovedInPart (w : W) (move : Move C I A) (ret : ReturnValue) (w' : W) : Prop where
  stackable : m.isStackable w' move.item
  room_lt : (m.targetRoom w move).2 < m.moveCount w move
  ret_eq : ret = (m.targetRoom w move).1
  moved : m.Moved (m.source w move) (m.target w move).cylinder (m.target w move).index move.item
    (m.target w move).destItem (m.targetRoom w move).2 w w'

omit [DecidableEq C] [DecidableEq I] in
theorem merged_merge (w : W) (toCylinder : C) (item : I) (toItem : Option I) (units : ℕ) :
    (m.merge w toCylinder item toItem units).2.1 ≤ units ∧
      m.Merged toCylinder item toItem (m.merge w toCylinder item toItem units).2.1 w
        (m.merge w toCylinder item toItem units).2.2 := by
  unfold merge
  split
  · rename_i t ht
    obtain ⟨rfl, hequals⟩ := Option.filter_eq_some_iff.1 ht
    exact ⟨Nat.min_le_right _ _, .stack hequals (Nat.min_le_left _ _)⟩
  · exact ⟨Nat.zero_le _, .none w toItem⟩

omit [DecidableEq C] [DecidableEq I] in
theorem notified_notifyAdded {w w' : W} {fromCylinder toCylinder : C} (item : Option I)
    (h : m.Notified fromCylinder toCylinder w w') :
    m.Notified fromCylinder toCylinder w (m.notifyAdded w' fromCylinder toCylinder item) := by
  unfold notifyAdded
  split
  · exact .add _ _ h
  · exact h

omit [DecidableEq C] [DecidableEq I] in
theorem notified_notifyMoved (w : W) (fromCylinder toCylinder : C) (item : I)
    (itemIndex : Option ℤ) (moveItem updateItem : Option I) :
    m.Notified fromCylinder toCylinder w
      (m.notifyMoved w fromCylinder toCylinder item itemIndex moveItem updateItem) := by
  unfold notifyMoved
  refine m.notified_notifyAdded _ (m.notified_notifyAdded _ ?_)
  split
  · exact .remove _ _ (.refl w)
  · exact .refl w

omit [DecidableEq C] [DecidableEq I] in
/-- A transfer moves just the units it is told to. -/
theorem moved_transfer (w : W) (fromCylinder toCylinder : C) (index : ℤ) (item : I)
    (toItem : Option I) (units : ℕ) : m.Moved fromCylinder toCylinder index item toItem units w
      (m.transfer w fromCylinder toCylinder index item toItem units) := by
  unfold transfer
  by_cases hstack : m.isStackable (m.removeThing w fromCylinder item units) item
  · obtain ⟨hle, hmerged⟩ := m.merged_merge (m.removeThing w fromCylinder item units) toCylinder
      item toItem units
    simp only [hstack, if_true]
    split
    · rename_i hpos
      exact .units (Nat.add_sub_of_le hle) hmerged (.clone _ hpos)
        (m.notified_notifyMoved _ _ _ _ _ _ _)
    · rename_i hpos
      have hall : units - (m.merge (m.removeThing w fromCylinder item units) toCylinder item toItem
          units).2.1 = 0 := Nat.eq_zero_of_not_pos hpos
      have hsum := Nat.add_sub_of_le hle
      rw [hall] at hsum
      exact .units hsum hmerged (.none _) (m.notified_notifyMoved _ _ _ _ _ _ _)
  · simp only [hstack, Bool.false_eq_true, if_false]
    exact .whole hstack (m.notified_notifyMoved _ _ _ _ _ _ _)

omit [DecidableEq I] in
/-- Without an exchange, asking changes nothing. -/
theorem exchange_eq {w w' : W} {move : Move C I A} {ret : ReturnValue} {toItem : Option I}
    (h : m.exchange w move = some (ret, w', toItem)) (hex : ¬m.Exchanges w move) :
    w' = w ∧ toItem = (m.target w move).destItem := by
  unfold exchange at h
  simp only at h
  split at h
  · cases h
    exact ⟨rfl, rfl⟩
  · rename_i hneed
    split at h
    · rename_i toItem' hto
      split at h
      · cases h
        exact ⟨rfl, rfl⟩
      · rename_i hadd
        split at h
        · cases h
          exact ⟨rfl, rfl⟩
        · split at h
          · rename_i hremove
            exact absurd ⟨not_not.1 hneed, toItem', hto, not_not.1 hadd, hremove⟩ hex
          · cases h
            exact ⟨rfl, rfl⟩
    · cases h

theorem moveOn_error {w w' : W} {move : Move C I A} {ret : ReturnValue}
    (h : m.moveOn w move (m.source w move) (m.target w move) (m.moveCount w move)
      (m.target w move).destItem = (ret, w')) (hret : ret ≠ .noError) :
    w' = w ∨ m.MovedInPart w move ret w' := by
  unfold moveOn at h
  simp only at h
  split at h
  · cases h
    exact .inl rfl
  split at h
  · cases h
    exact .inl rfl
  split at h
  · cases h
    exact .inl rfl
  obtain ⟨hpart, rfl⟩ := Prod.mk.inj h
  split at hpart
  · rename_i hlt
    have hunits : m.moveUnits w move (m.moveCount w move) (m.targetRoom w move).2 =
        (m.targetRoom w move).2 := by
      unfold moveUnits
      split
      · exact Nat.min_eq_right (Nat.le_of_lt hlt.2)
      · rfl
    refine .inr ⟨hlt.1, hlt.2, hpart.symm, ?_⟩
    change m.Moved _ _ _ _ _ _ w (m.transfer w _ _ _ _ _
      (m.moveUnits w move (m.moveCount w move) (m.targetRoom w move).2))
    rw [hunits]
    exact m.moved_transfer ..
  · exact absurd hpart.symm hret

end Cylinders

/-! ## Players and containers -/

namespace World

variable (g : Game) (w : World)

/-- The cylinders that a container is in. Tiles are left out, since a world does not tell them
apart. -/
def parentCylinders : Cylinder → List Cylinder
  | .player _ => []
  | .container r => (w.parents r).filterMap fun
    | .container t => some (.container t.ref)
    | .player p => some (.player p.id)
    | .tile => none

/-- `removeThing`, where an item that has been removed is nowhere. -/
def detach (cylinder : Cylinder) (r : Ref) (count : ℕ) : World :=
  let w' := w.removeThing g.types cylinder r count
  if (w'.find r).isNone then { w' with loose := (w.find r).toList ++ w'.loose } else w'

/-- `addThing`, of an item that is nowhere, and stays there if it is not added. -/
def attach (cylinder : Cylinder) (index : ℤ) (r : Ref) : World :=
  match w.find r with
  | none => w
  | some item =>
    let w' := { w with loose := w.loose.filter fun t : Thing => t.ref ≠ r }.addThing g.types cylinder
      index item
    if (w'.find r).isNone then w else w'

/-- The cylinders of a world, with items by their addresses. -/
def cylinders : Cylinders World Cylinder Ref PlayerId where
  isStackable w r := (w.find r).any fun t => t.label.isStackable g.types
  getItemCount w r := ((w.find r).map fun t => t.label.getItemCount).getD 0
  equals w r r' := match w.find r, w.find r' with
    | some t, some t' => t.equals t'
    | _, _ => false
  room w r := ((w.find r).map (Thing.room g.types)).getD 0
  clone w r n := match w.find r with
    | some t =>
      let (t', w') := w.clone g.types t
      (t'.ref, { w' with loose := t'.setItemCount n :: w'.loose })
    | none => (r, w)
  parents := parentCylinders
  getItem _ c := match c with
    | .container r => some r
    | .player _ => none
  browseField _ _ := none
  getThingIndex := getThingIndex
  queryDestination w d r := match w.find r with
    | some item =>
      let d' := w.queryDestination g d.cylinder d.index item d.destItem d.flags
      ⟨d'.cylinder, d'.index, d'.destItem, d.flags⟩
    | none => d
  queryRemove w c r count flags _ := match w.find r with
    | some item => w.queryRemove g c item count flags
    | none => .notPossible
  queryAdd w c index r count flags actor := match w.find r with
    | some item => w.queryAdd g c index item count flags actor
    | none => .notPossible
  queryMaxCount w c index r count flags := match w.find r with
    | some item => w.queryMaxCount g c index item count flags
    | none => (.notPossible, 0)
  addThingAnywhere w c r := match c with
    | .player _ => w
    | .container _ => w.attach g c 0 r
  addThing w c index r := w.attach g c index r
  updateThing w c r count := match w.find r with
    | some item => w.updateThing g.types c r item.label.id count
    | none => w
  removeThing w c r count := w.detach g c r count
  postAddNotification w c _ _ _ := w.postNotification g.types c
  postRemoveNotification w c _ _ _ := w.postNotification g.types c

end World

/-- A box with so many places. -/
def box (r : Ref) (places : BitVec 16) (items : List Thing) : Thing :=
  .node { class_ := .container, id := 2853, count := 1, ref := r,
          storage := some { maxSize := places, maxItems := 100 } } items

/-- 100 arrows in a box, and a box that has room for 50 of them. -/
def boxes : World where
  players := []
  tiles := []
  loose := [box 1 4 [arrows 2 100], box 3 1 [arrows 4 50]]
  nextRef := 5

/-- All of the arrows, to the other box. -/
def arrowMove : Move Cylinder Ref PlayerId where
  fromCylinder := .container 1
  toCylinder := .container 3
  index := indexWhereEver
  item := 2
  count := 100
  flags := 0
  actor := none
  tradeItem := none
  checkTile := true

/-- Leather and plate armors, which weigh 60 and 120 oz. -/
def armorGame : Game where
  types := { quiverlessGame.types with
    traits := fun id => if id = 3361 then
        { weight := 6000, slotPosition := slotpHand ||| slotpArmor }
      else if id = 3357 then { weight := 12000, slotPosition := slotpHand ||| slotpArmor }
      else {} }
  maxContainer := 100
  isOwner := fun _ _ => true
  onPlayerEquip := fun _ _ _ => true

def armor (r : Ref) (id : BitVec 16) : Thing :=
  .node { class_ := .item, id := id, count := 1, ref := r } []

/-- A knight in leather, who may carry 100 oz, and a plate armor in a box. -/
def knight : World where
  players := [
    { id := 1, capacity := 10000, inventoryWeight := 6000,
      inventory := fun slot => if slot = .armor then some (armor 1 3361) else none }]
  tiles := []
  loose := [box 2 4 [armor 3 3357]]
  nextRef := 4

/-- The plate armor, to where the leather armor is. -/
def armorMove : Move Cylinder Ref PlayerId where
  fromCylinder := .container 2
  toCylinder := .player 1
  index := Slot.armor.index
  item := 3
  count := 1
  flags := 0
  actor := some 1
  tradeItem := none
  checkTile := true

end Canary.Inventory
