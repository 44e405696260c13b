import Canary.Lib.Transition
import Canary.Monsters.DistanceStep
import Canary.Tiles.Tile

/-!
# Beds

A bed has two halves, on two tiles. The partner of a half is the topmost bed on the tile that the
type of the half points to (`getNextBedItem`). Who sleeps in a bed is written into both halves, and
a map of all sleepers has the half on which they went to sleep. What should hold is that all this
agrees (`Consistent`): a player who has no entry in the map has no half, and the others have their
entry and its partner.

Left out are the player who walks onto the bed, regenerates and is logged out, the description of
a bed, and the items of a tile that are no beds. The code looks at less than is needed:

* Only the half that is used has to be free. If its partner belongs to the bed of another sleeper,
  that one loses it (`shared_not_consistent`). Players who sleep already are not refused either.
* A half that is woken up takes its partner with it. That may be another half than the one that is
  in the map, or one of another bed.
* When the halves are loaded, each of a sleeper is entered into the map, and the last one stays. So
  that one must have the other one for its partner, not only the other way round.
* A half whose type changes is put on its tile again, if it comes on top by that, or no longer is
  on top, and may then be the partner of other halves.

Where no step does one of these (`Meets`), all is consistent (`consistent_of_meets`), and no
one who is woken up changes the half of another sleeper.
-/

namespace Canary.Houses.Beds

open Map (Position)
open Map.Pathfinding (Direction)
open Monsters.DistanceStep (getNextPosition)
open Tiles (insertBefore)
open Transition

/-! ## Item types and players -/

inductive BedItemPart
  | none | pillow | blanket
  deriving DecidableEq

inductive PlayerSex
  | female | male
  deriving DecidableEq

/-- What the type of a bed says. -/
structure ItemType where
  name : List UInt8 := []
  isBed : Bool := false
  movable : Bool := false
  alwaysOnTopOrder : ℕ := 0
  bedPart : BedItemPart := .none
  /-- There is none in `DIRECTION_NONE`. -/
  bedPartnerDir : Option Direction := none
  transformToOnUse : PlayerSex → ℕ := fun _ => 0
  transformToFree : ℕ := 0

/-- `Item::items` -/
abbrev ItemTypes := ℕ → ItemType

structure Player where
  guid : UInt32
  sex : PlayerSex
  isPremium : Bool

/-- The house of the beds, and who can be loaded from the database. -/
structure House where
  owner : UInt32
  /-- `HOUSE_OWNER` is the highest. -/
  getHouseAccessLevel : UInt32 → ℕ
  loadPlayerById : UInt32 → Bool

def HOUSE_OWNER : ℕ := 3

def keepFirstWordOnly (str : List UInt8) : List UInt8 := str.takeWhile (· ≠ 32)

/-! ## Beds -/

structure Bed where
  position : Position
  id : ℕ
  sleeperGUID : UInt32 := 0
  sleepStart : UInt64 := 0
  deriving DecidableEq

/-- All beds have an address. Only those that are on a tile are in the game. -/
structure State where
  bed : ℕ → Bed
  /-- The beds among the items of a tile, those on top behind the others. -/
  tiles : Position → List ℕ
  bedSleepersMap : UInt32 → Option ℕ
  /-- The bed that a player has used, `Player::bedItem`. -/
  bedItem : UInt32 → Option ℕ

/-- How the type of a bed changes when someone goes to sleep, or when it is free again. -/
def appearance (items : ItemTypes) (player : Option Player) (id : ℕ) : ℕ :=
  let it := items id
  let use := (player.map fun player => it.transformToOnUse player.sex).getD 0
  if !it.isBed then id
  else if use ≠ 0 then if (items use).isBed then use else id
  else if it.transformToFree ≠ 0 ∧ (items it.transformToFree).isBed then it.transformToFree
  else id

namespace State

variable (items : ItemTypes) (s : State)

/-- The bed is on a tile. -/
def OnMap (b : ℕ) : Prop := b ∈ s.tiles (s.bed b).position

instance (b : ℕ) : Decidable (s.OnMap b) := inferInstanceAs (Decidable (_ ∈ _))

/-- `Tile::getBedItem`, the last one. -/
def getBedItem (pos : Position) : Option ℕ := (s.tiles pos).getLast?

/-- The tile of the partner. -/
def targetPos (b : ℕ) : Position :=
  match (items (s.bed b).id).bedPartnerDir with
  | some dir => getNextPosition dir (s.bed b).position
  | none => (s.bed b).position

def getNextBedItem (b : ℕ) : Option ℕ := s.getBedItem (s.targetPos items b)

/-- A bed is changed. -/
def setBed (b : ℕ) (f : Bed → Bed) : State :=
  { s with bed := Function.update s.bed b (f (s.bed b)) }

/-- `alwaysOnTopOrder` of the type of a bed. -/
def order (b : ℕ) : ℕ := (items (s.bed b).id).alwaysOnTopOrder

/-- `Tile::addThing`, of a bed with this order. -/
def addThing (order : ℕ) (b : ℕ) (l : List ℕ) : List ℕ :=
  if order = 0 then b :: l else insertBefore (fun c => order ≤ s.order items c) b l

/-- A bed gets another type. It is put on its tile again if it was on top and no longer is, or the
    other way round. -/
def transformItem (b newId : ℕ) : State :=
  if (s.bed b).id = newId then s
  else
    let order := (items newId).alwaysOnTopOrder
    let s' := s.setBed b ({ · with id := newId })
    if s.order items b ≠ 0 ↔ order ≠ 0 then s'
    else
      let pos := (s.bed b).position
      { s' with
        tiles := Function.update s.tiles pos (s.addThing items order b ((s.tiles pos).erase b)) }

def updateAppearance (player : Option Player) (b : ℕ) : State :=
  s.transformItem items b (appearance items player (s.bed b).id)

def internalSetSleeper (guid : UInt32) (now : UInt64) (b : ℕ) : State :=
  s.setBed b ({ · with sleeperGUID := guid, sleepStart := now })

def internalRemoveSleeper (b : ℕ) : State :=
  s.setBed b ({ · with sleeperGUID := 0, sleepStart := 0 })

def setBedSleeper (guid : UInt32) (b : ℕ) : State :=
  { s with bedSleepersMap := Function.update s.bedSleepersMap guid (some b) }

def removeBedSleeper (guid : UInt32) : State :=
  { s with bedSleepersMap := Function.update s.bedSleepersMap guid none }

/-- The partner is changed as well, if there is one. -/
def both (f : State → ℕ → State) (b : ℕ) (next : Option ℕ) : State :=
  match next with
  | some c => f (f s b) c
  | none => f s b

def wakeUp (b : ℕ) : State :=
  let guid := (s.bed b).sleeperGUID
  if guid = 0 then s
  else
    let next := s.getNextBedItem items b
    let s := (s.removeBedSleeper guid).both internalRemoveSleeper b next
    s.both (fun s => s.updateAppearance items none) b next

def canUse (house : House) (player : Player) (b : ℕ) : Bool :=
  if !player.isPremium then false
  else match s.getNextBedItem items b with
    | none => false
    | some next =>
      let itemType := items (s.bed b).id
      let nextType := items (s.bed next).id
      if itemType.bedPart ≠ .pillow then false
      else if !itemType.movable ∨ !nextType.movable ∨
          keepFirstWordOnly itemType.name ≠ keepFirstWordOnly nextType.name then false
      else if (s.bed b).sleeperGUID = 0 then true
      else if house.getHouseAccessLevel player.guid = HOUSE_OWNER then true
      else if !house.loadPlayerById (s.bed b).sleeperGUID then false
      else !decide (house.getHouseAccessLevel player.guid <
        house.getHouseAccessLevel (s.bed b).sleeperGUID)

/-- The owner wakes up who sleeps in the bed. -/
def wakes (house : House) (player : Player) (b : ℕ) : Bool :=
  (s.bed b).sleeperGUID ≠ 0 ∧ (items (s.bed b).id).transformToFree ≠ 0 ∧ house.owner = player.guid

def trySleep (house : House) (player : Player) (b : ℕ) : Bool × State :=
  if (s.bed b).sleeperGUID ≠ 0 then
    (false, if s.wakes items house player b then s.wakeUp items b else s)
  else (true, s)

def sleep (player : Player) (now : UInt64) (b : ℕ) : Bool × State :=
  if (s.bed b).sleeperGUID ≠ 0 then (false, s)
  else
    let next := s.getNextBedItem items b
    let s := s.both (fun s => s.internalSetSleeper player.guid now) b next
    let s := s.setBedSleeper player.guid b
    (true, s.both (fun s => s.updateAppearance items (some player)) b next)

/-! ### Saving and loading -/

/-- `Tile::internalAddThing` -/
def internalAddThing (b : ℕ) (l : List ℕ) : List ℕ :=
  if s.order items b = 0 then b :: l
  else insertBefore (fun c => s.order items b < s.order items c) b l

/-- What is read of a bed (`readAttr`). The start of the sleep has been saved with 32 bits, and a
    sleeper without a name is forgotten. -/
def read (hasName : UInt32 → Bool) (bed : Bed) : Bed :=
  { bed with
    sleeperGUID := if hasName bed.sleeperGUID then bed.sleeperGUID else 0
    sleepStart := bed.sleepStart.toUInt32.toUInt64 }

/-- A bed that nobody sleeps in is only loaded if it is movable. -/
def isLoaded (b : ℕ) : Bool := (s.bed b).sleeperGUID ≠ 0 ∨ (items (s.bed b).id).movable

/-- `loadItem`, of what has been saved of a bed. It gets the same address again. -/
def loadItem (hasName : UInt32 → Bool) (s : State) (b : ℕ) : State :=
  let s := s.setBed b (read hasName)
  let guid := (s.bed b).sleeperGUID
  let s := if guid ≠ 0 then s.setBedSleeper guid b else s
  if s.isLoaded items b then
    let pos := (s.bed b).position
    { s with tiles := Function.update s.tiles pos (s.internalAddThing items b (s.tiles pos)) }
  else s

/-- The beds of the tiles of a house, in the order in which they are saved (`saveTile`). -/
def saved (houseTiles : List Position) : List ℕ :=
  houseTiles.flatMap fun pos => (s.tiles pos).reverse

/-- Nothing is loaded into a house without owner. -/
def restart (houseTiles : List Position) (hasName : UInt32 → Bool) (owner : UInt32) : State :=
  let new : State :=
    { s with tiles := fun _ => [], bedSleepersMap := fun _ => none, bedItem := fun _ => none }
  if owner = 0 then new else (s.saved houseTiles).foldl (loadItem items hasName) new

end State

/-! ## Steps -/

inductive Op
  /-- A player uses a bed, and is asked if he wants to sleep. -/
  | use (house : House) (player : Player) (b : ℕ)
  /-- He wants to. -/
  | answer (player : Player) (now : UInt64)
  | login (guid : UInt32)
  /-- With no player. -/
  | wakeUp (b : ℕ)
  /-- All is saved, and loaded again. -/
  | restart (hasName : UInt32 → Bool) (owner : UInt32)

variable (items : ItemTypes) (houseTiles : List Position)

open State in
def State.apply (s : State) : Op → State
  | .use house player b =>
    if s.canUse items house player b then
      let (result, s) := s.trySleep items house player b
      if result then { s with bedItem := Function.update s.bedItem player.guid (some b) } else s
    else s
  | .answer player now =>
    match s.bedItem player.guid with
    | none => s
    | some b =>
      let (result, s) := s.sleep items player now b
      if result then s else { s with bedItem := Function.update s.bedItem player.guid none }
  | .login guid =>
    let s := { s with bedItem := Function.update s.bedItem guid none }
    match s.bedSleepersMap guid with
    | none => s
    | some b => s.wakeUp items b
  | .wakeUp b => s.wakeUp items b
  | .restart hasName owner => s.restart items houseTiles hasName owner

/-- The beds that are used and woken up are on the map. -/
def State.Called (s : State) : Op → Prop
  | .use _ _ b => s.OnMap b
  | .wakeUp b => s.OnMap b
  | _ => True

/-- How beds are on the tiles of a house. -/
structure State.Placed (s : State) : Prop where
  house : ∀ pos, s.tiles pos ≠ [] → pos ∈ houseTiles
  position : ∀ pos, ∀ b ∈ s.tiles pos, (s.bed b).position = pos
  nodup : ∀ pos, (s.tiles pos).Nodup
  isBed : ∀ b, s.OnMap b → (items (s.bed b).id).isBed = true
  used : ∀ guid b, s.bedItem guid = some b → s.OnMap b
  entry : ∀ guid b, s.bedSleepersMap guid = some b → s.OnMap b

/-- A layout, with no sleepers. -/
structure State.Layout (s : State) : Prop where
  nodupTiles : houseTiles.Nodup
  placed : s.Placed items houseTiles
  free : ∀ b, (s.bed b).sleeperGUID = 0
  nobody : ∀ guid, s.bedSleepersMap guid = none

def system : System State Op where
  init s := s.Layout items houseTiles
  step s op s' := s.Called op ∧ s' = s.apply items houseTiles op

namespace State

/-! ## What should hold -/

/-- A half of the bed that a half belongs to. -/
def IsHalf (s : State) (b c : ℕ) : Prop := c = b ∨ s.getNextBedItem items b = some c

/-- The player is not asleep, or sleeps in the half that is in the map and its partner. -/
def ConsistentAt (s : State) (guid : UInt32) : Prop :=
  (s.bedSleepersMap guid = none ∧ ∀ c, s.OnMap c → (s.bed c).sleeperGUID ≠ guid) ∨
    ∃ b, s.bedSleepersMap guid = some b ∧ s.OnMap b ∧ (s.bed b).sleeperGUID = guid ∧
      ∀ c, s.OnMap c → ((s.bed c).sleeperGUID = guid ↔ s.IsHalf items b c)

def Consistent (s : State) : Prop := ∀ guid ≠ 0, s.ConsistentAt items guid

/-- The type that a half has when the appearance of a bed has been updated. -/
def newId (s : State) (player : Option Player) (b c : ℕ) : ℕ :=
  let id := if c = b then appearance items player (s.bed c).id else (s.bed c).id
  if s.getNextBedItem items b = some c then appearance items player id else id

/-- A half is alone on its tile, or on top with the new type if and only if it is now. -/
def Stays (s : State) (c id : ℕ) : Prop :=
  (s.tiles (s.bed c).position).length ≤ 1 ∨
    (s.order items c ≠ 0 ↔ (items id).alwaysOnTopOrder ≠ 0)

/-- No half is put on its tile again. -/
structure BothStay (s : State) (player : Option Player) (b : ℕ) : Prop where
  self : s.Stays items b (appearance items player (s.bed b).id)
  next : ∀ c, s.getNextBedItem items b = some c → s.Stays items c (s.newId items player b c)

/-- The other half is free as well, the player sleeps nowhere else, and the half points to the same
    tile with its new type. -/
structure MaySleep (s : State) (player : Player) (b : ℕ) : Prop where
  free : ∀ c, s.getNextBedItem items b = some c → (s.bed c).sleeperGUID = 0
  alone : s.bedSleepersMap player.guid = none
  direction : (items (s.newId items (some player) b b)).bedPartnerDir =
    (items (s.bed b).id).bedPartnerDir
  stay : s.BothStay items (some player) b

/-- The half that is woken up, or its partner, is the one in the map. -/
structure MayWake (s : State) (b : ℕ) : Prop where
  entry : s.bedSleepersMap (s.bed b).sleeperGUID = some b ∨ ∃ e,
    s.bedSleepersMap (s.bed b).sleeperGUID = some e ∧ s.getNextBedItem items b = some e
  stay : s.BothStay items none b

/-- The two halves of a sleeper are partners of each other, and the order on a tile does not
    change. -/
structure MayRestart (s : State) (hasName : UInt32 → Bool) : Prop where
  partners : ∀ guid b c, guid ≠ 0 → hasName guid = true → s.bedSleepersMap guid = some b →
    s.getNextBedItem items b = some c → s.getNextBedItem items c = some b
  order : ∀ pos, (s.tiles pos).length ≤ 1 ∨ ∀ b ∈ s.tiles pos, s.order items b = 0

/-- When a step keeps all consistent. -/
def Meets (s : State) : Op → Prop
  | .use house player b =>
    s.canUse items house player b = true → s.wakes items house player b = true → s.MayWake items b
  | .answer player _ =>
    ∀ b, s.bedItem player.guid = some b → (s.bed b).sleeperGUID = 0 → s.MaySleep items player b
  | .login guid =>
    ∀ b, s.bedSleepersMap guid = some b → (s.bed b).sleeperGUID ≠ 0 → s.MayWake items b
  | .wakeUp b => (s.bed b).sleeperGUID ≠ 0 → s.MayWake items b
  | .restart hasName owner => owner ≠ 0 → s.MayRestart items hasName

/-! ## Changing beds -/

section change

variable {items houseTiles} {s : State} {b c : ℕ} {next : Option ℕ} {f : Bed → Bed}

@[simp]
theorem tiles_setBed : (s.setBed b f).tiles = s.tiles := rfl

theorem bed_setBed : (s.setBed b f).bed c = if c = b then f (s.bed c) else s.bed c := by
  dsimp only [setBed]
  rw [Function.update_apply]
  split_ifs with h
  · rw [h]
  · rfl

/-- Two beds are changed by the same function. -/
theorem bed_both_setBed : (s.both (fun s b => s.setBed b f) b next).bed c =
    if next = some c then f (if c = b then f (s.bed c) else s.bed c)
    else if c = b then f (s.bed c) else s.bed c := by
  rcases next with _ | d
  · rw [both, bed_setBed, if_neg (Option.some_ne_none c).symm]
  · rw [both, bed_setBed, bed_setBed]
    simp only [Option.some.injEq, eq_comm]

/-- What else is in the state stays. -/
structure SameTiles (s s' : State) : Prop where
  tiles : s'.tiles = s.tiles
  map : s'.bedSleepersMap = s.bedSleepersMap
  bedItem : s'.bedItem = s.bedItem

theorem sameTiles_both_setBed (s : State) (b : ℕ) (next : Option ℕ) (f : Bed → Bed) :
    SameTiles s (s.both (fun s b => s.setBed b f) b next) := by
  rcases next with _ | d <;> exact ⟨rfl, rfl, rfl⟩

/-- A type changes, without a change on the tile. -/
theorem transformItem_of_stays {id : ℕ} (hb : s.OnMap b) (h : s.Stays items b id) :
    s.transformItem items b id = s.setBed b ({ · with id := id }) := by
  rw [transformItem]
  dsimp only
  split_ifs with hid hsame
  · rw [setBed, ← hid]
    exact congrArg (fun bed => { s with bed := bed }) (Function.update_eq_self b s.bed).symm
  · rfl
  · have hlength := h.resolve_right fun h => hsame h
    obtain ⟨a, ha⟩ := List.length_eq_one_iff.1
      (Nat.le_antisymm hlength (List.length_pos_of_mem hb))
    obtain rfl : b = a := List.mem_singleton.1 (ha ▸ hb)
    have hadd : s.addThing items (items id).alwaysOnTopOrder b
        ((s.tiles (s.bed b).position).erase b) = s.tiles (s.bed b).position := by
      rw [ha, List.erase_cons_head, addThing, insertBefore]
      exact ite_self _
    rw [hadd, Function.update_eq_self]
    rfl

/-- A bed gets the type that it should look like. -/
def look (items : ItemTypes) (player : Option Player) (bed : Bed) : Bed :=
  { bed with id := appearance items player bed.id }

theorem updateAppearance_of_stays {player : Option Player} (hb : s.OnMap b)
    (h : s.Stays items b (appearance items player (s.bed b).id)) :
    s.updateAppearance items player b = s.setBed b (look items player) :=
  transformItem_of_stays hb h

theorem both_updateAppearance {player : Option Player} (hb : s.OnMap b)
    (hnext : ∀ c, next = some c → s.OnMap c)
    (hself : s.Stays items b (appearance items player (s.bed b).id))
    (hother : ∀ c, next = some c → s.Stays items c
      (appearance items player (if c = b then appearance items player (s.bed c).id
        else (s.bed c).id))) :
    s.both (fun s => s.updateAppearance items player) b next =
      s.both (fun s b => s.setBed b (look items player)) b next := by
  rcases next with _ | c
  · exact updateAppearance_of_stays hb hself
  · have hc := hnext c rfl
    have hstays := hother c rfl
    rw [both, both, updateAppearance_of_stays hb hself]
    have hbed : (s.setBed b (look items player)).bed c =
        if c = b then look items player (s.bed c) else s.bed c := bed_setBed
    refine updateAppearance_of_stays ?_ ?_
    · rw [OnMap, hbed]
      split_ifs
      · exact hc
      · exact hc
    · rw [Stays, order, hbed]
      split_ifs at hstays ⊢ with heq
      · -- The half is its own partner, and changes twice.
        subst heq
        rcases hself with hone | hfirst
        · exact Or.inl hone
        · exact hstays.imp id fun h => hfirst.symm.trans h
      · exact hstays

theorem map_transformItem {id : ℕ} :
    (s.transformItem items b id).bedSleepersMap = s.bedSleepersMap := by
  rw [transformItem]
  dsimp only
  split_ifs <;> rfl

theorem map_both_updateAppearance {player : Option Player} :
    (s.both (fun s => s.updateAppearance items player) b next).bedSleepersMap =
      s.bedSleepersMap := by
  rcases next with _ | c
  · exact map_transformItem
  · exact map_transformItem.trans map_transformItem

end change

/-! ## Both halves -/

section halves

variable {items houseTiles} {s t : State} {b c : ℕ} {guid : UInt32} {player : Option Player}

theorem isBed_appearance (player : Option Player) {id : ℕ} (h : (items id).isBed = true) :
    (items (appearance items player id)).isBed = true := by
  rw [appearance, h, Bool.not_true, if_neg Bool.false_ne_true]
  split_ifs with huse hbed hfree
  · exact hbed
  · exact h
  · exact hfree.2
  · exact h

theorem onMap_of_getBedItem (h : s.Placed items houseTiles) {pos : Position}
    (hc : s.getBedItem pos = some c) : s.OnMap c := by
  have hmem := List.mem_of_getLast? hc
  rw [OnMap, h.position pos c hmem]
  exact hmem

/-- The halves of a bed have got a sleeper, or none, and another look. -/
structure Settled (items : ItemTypes) (s t : State) (player : Option Player) (b : ℕ)
    (guid : UInt32) : Prop where
  tiles : t.tiles = s.tiles
  bedItem : t.bedItem = s.bedItem
  position : ∀ c, (t.bed c).position = (s.bed c).position
  id : ∀ c, (t.bed c).id = s.newId items player b c
  half : ∀ c, s.IsHalf items b c → (t.bed c).sleeperGUID = guid
  other : ∀ c, ¬s.IsHalf items b c → t.bed c = s.bed c

theorem settled_both (h : s.Placed items houseTiles) (hb : s.OnMap b)
    (hstay : s.BothStay items player b) {f : Bed → Bed}
    (hf : ∀ bed, (f bed).position = bed.position ∧ (f bed).id = bed.id ∧
      (f bed).sleeperGUID = guid)
    (htiles : t.tiles = s.tiles) (hitem : t.bedItem = s.bedItem)
    (hbed : t.bed = (s.both (fun s b => s.setBed b f) b (s.getNextBedItem items b)).bed) :
    Settled items s (t.both (fun s => s.updateAppearance items player) b
      (s.getNextBedItem items b)) player b guid := by
  have hlook : ∀ bed, (look items player bed).position = bed.position ∧
      (look items player bed).id = appearance items player bed.id ∧
      (look items player bed).sleeperGUID = bed.sleeperGUID := fun _ => ⟨rfl, rfl, rfl⟩
  -- `f` may be applied twice to one bed; it sets the same sleeper each time.
  have hbed' : ∀ c, t.bed c = if s.getNextBedItem items b = some c then
      f (if c = b then f (s.bed c) else s.bed c) else if c = b then f (s.bed c) else s.bed c :=
    fun c => by rw [hbed, bed_both_setBed]
  have hkeep : ∀ c, (t.bed c).position = (s.bed c).position ∧ (t.bed c).id = (s.bed c).id :=
    fun c => by
      rw [hbed']
      split_ifs <;> simp only [hf, and_self]
  have honMap : ∀ c, s.OnMap c → t.OnMap c := fun c hc => by
    rw [OnMap, htiles, (hkeep c).1]
    exact hc
  have hstays : ∀ c id, s.Stays items c id → t.Stays items c id := fun c id hc => by
    rw [Stays, order, htiles, (hkeep c).1, (hkeep c).2]
    exact hc
  have hnext : ∀ c, s.getNextBedItem items b = some c → s.OnMap c :=
    fun c hc => onMap_of_getBedItem h hc
  rw [both_updateAppearance (honMap b hb) (fun c hc => honMap c (hnext c hc))
    (by rw [(hkeep b).2]; exact hstays _ _ hstay.self) fun c hc => ?_]
  · have hsame := sameTiles_both_setBed t b (s.getNextBedItem items b) (look items player)
    refine ⟨hsame.tiles.trans htiles, hsame.bedItem.trans hitem, fun c => ?_, fun c => ?_,
      fun c hc => ?_, fun c hc => ?_⟩
    · rw [bed_both_setBed]
      split_ifs <;> simp only [hlook, hkeep]
    · rw [bed_both_setBed, newId]
      split_ifs <;> simp only [hlook, hkeep]
    · have hguid : (t.bed c).sleeperGUID = guid := by
        rw [hbed']
        rcases hc with rfl | hc
        · rw [if_pos rfl]
          split_ifs <;> simp only [hf]
        · rw [if_pos hc, (hf _).2.2]
      rw [bed_both_setBed]
      split_ifs <;> simp only [hlook, hguid]
    · rw [IsHalf, not_or] at hc
      rw [bed_both_setBed, if_neg hc.2, if_neg hc.1, hbed', if_neg hc.2, if_neg hc.1]
  · have hc' := hstay.next c hc
    rw [newId, if_pos hc] at hc'
    rw [(hkeep c).2]
    exact hstays _ _ hc'

namespace Settled

variable (h : Settled items s t player b guid)

include h

theorem onMap_iff : t.OnMap c ↔ s.OnMap c := by
  rw [OnMap, OnMap, h.tiles, h.position]

theorem placed (hplaced : s.Placed items houseTiles)
    (hentry : ∀ guid c, t.bedSleepersMap guid = some c → s.OnMap c) :
    t.Placed items houseTiles where
  house pos := by
    rw [h.tiles]
    exact hplaced.house pos
  position pos c hc := by
    rw [h.tiles] at hc
    rw [h.position]
    exact hplaced.position pos c hc
  nodup pos := by
    rw [h.tiles]
    exact hplaced.nodup pos
  isBed c hc := by
    have hbed := hplaced.isBed c (h.onMap_iff.1 hc)
    rw [h.id, newId]
    split_ifs
    · exact isBed_appearance player (isBed_appearance player hbed)
    · exact isBed_appearance player hbed
    · exact isBed_appearance player hbed
    · exact hbed
  used guid c hc := by
    rw [h.bedItem] at hc
    exact h.onMap_iff.2 (hplaced.used guid c hc)
  entry guid c hc := h.onMap_iff.2 (hentry guid c hc)

theorem getNextBedItem_eq (hdir : (items (t.bed c).id).bedPartnerDir =
    (items (s.bed c).id).bedPartnerDir) : t.getNextBedItem items c = s.getNextBedItem items c := by
  rw [getNextBedItem, getNextBedItem, getBedItem, getBedItem, h.tiles, targetPos, targetPos, hdir,
    h.position]

theorem getNextBedItem_of_not (hc : ¬s.IsHalf items b c) :
    t.getNextBedItem items c = s.getNextBedItem items c :=
  h.getNextBedItem_eq (by rw [h.other c hc])

/-- Other players still sleep in the same halves. -/
theorem consistentAt {other : UInt32}
    (hbefore : ∀ c, s.IsHalf items b c → (s.bed c).sleeperGUID ≠ other) (hafter : guid ≠ other)
    (hmap : t.bedSleepersMap other = s.bedSleepersMap other)
    (hs : s.ConsistentAt items other) : t.ConsistentAt items other := by
  have hguid : ∀ c, (t.bed c).sleeperGUID = other ↔ (s.bed c).sleeperGUID = other := fun c => by
    by_cases hc : s.IsHalf items b c
    · rw [h.half c hc]
      exact iff_of_false hafter (hbefore c hc)
    · rw [h.other c hc]
  refine hs.imp (fun hnone => ⟨hmap.trans hnone.1, fun c hc => ?_⟩) ?_
  · exact mt (hguid c).1 (hnone.2 c (h.onMap_iff.1 hc))
  · rintro ⟨e, he, heMap, heGuid, hhalf⟩
    have hnot : ¬s.IsHalf items b e := fun hhalf => hbefore e hhalf heGuid
    refine ⟨e, hmap.trans he, h.onMap_iff.2 heMap, (hguid e).2 heGuid, fun c hc => ?_⟩
    rw [hguid, hhalf c (h.onMap_iff.1 hc), IsHalf, IsHalf, h.getNextBedItem_of_not hnot]

end Settled

end halves

/-! ## Sleeping and waking up -/

section sleep

variable {items houseTiles} {s : State} {b c : ℕ}

/-- All is placed, and consistent. -/
structure Good (items : ItemTypes) (houseTiles : List Position) (s : State) : Prop where
  placed : s.Placed items houseTiles
  consistent : s.Consistent items

theorem settled_sleep {player : Player} (h : s.Placed items houseTiles) (hb : s.OnMap b)
    (hfree : (s.bed b).sleeperGUID = 0) (hstay : s.BothStay items (some player) b)
    (now : UInt64) :
    (s.sleep items player now b).1 = true ∧
      Settled items s (s.sleep items player now b).2 (some player) b player.guid ∧
      (s.sleep items player now b).2.bedSleepersMap =
        Function.update s.bedSleepersMap player.guid (some b) := by
  have hset : (s.both (fun s => s.internalSetSleeper player.guid now) b
      (s.getNextBedItem items b)) = s.both (fun s b => s.setBed b
        ({ · with sleeperGUID := player.guid, sleepStart := now })) b
      (s.getNextBedItem items b) := rfl
  have hsame := sameTiles_both_setBed s b (s.getNextBedItem items b)
    ({ · with sleeperGUID := player.guid, sleepStart := now })
  rw [sleep, if_neg (not_not.2 hfree)]
  refine ⟨rfl, ?_, ?_⟩
  · refine settled_both h hb hstay (f := ({ · with sleeperGUID := player.guid, sleepStart := now }))
      (fun _ => ⟨rfl, rfl, rfl⟩) ?_ ?_ ?_
    · exact hsame.tiles
    · exact hsame.bedItem
    · rw [hset]
      rfl
  · dsimp only
    rw [map_both_updateAppearance, setBedSleeper]
    dsimp only
    rw [hset, hsame.map]

/-- A player who goes to sleep in a free bed, and sleeps nowhere else. -/
theorem Good.sleep {player : Player} (h : Good items houseTiles s) (hb : s.OnMap b)
    (hfree : (s.bed b).sleeperGUID = 0) (hmay : s.MaySleep items player b) (now : UInt64) :
    (s.sleep items player now b).1 = true ∧
      Good items houseTiles (s.sleep items player now b).2 := by
  obtain ⟨hret, hs, hmap⟩ := settled_sleep h.placed hb hfree hmay.stay now
  generalize (s.sleep items player now b).2 = t at hs hmap
  refine ⟨hret, hs.placed h.placed fun guid c hc => ?_, fun guid hguid => ?_⟩
  · rw [hmap, Function.update_apply] at hc
    split_ifs at hc
    · exact Option.some.inj hc ▸ hb
    · exact h.placed.entry guid c hc
  · by_cases heq : guid = player.guid
    · subst heq
      have hnext : t.getNextBedItem items b = s.getNextBedItem items b :=
        hs.getNextBedItem_eq (by rw [hs.id, hmay.direction])
      -- Nobody had the number of the player.
      have hnone : ∀ c, s.OnMap c → (s.bed c).sleeperGUID ≠ player.guid := by
        rcases h.consistent _ hguid with hnone | ⟨e, he, -⟩
        · exact hnone.2
        · rw [hmay.alone] at he
          cases he
      refine .inr ⟨b, ?_, hs.onMap_iff.2 hb, hs.half b (.inl rfl), fun c hc => ?_⟩
      · rw [hmap, Function.update_self]
      · rw [IsHalf, hnext]
        refine ⟨fun hc' => ?_, hs.half c⟩
        by_contra hnot
        rw [hs.other c hnot] at hc'
        exact hnone c (hs.onMap_iff.1 hc) hc'
    · refine hs.consistentAt (fun c hc => ?_) (Ne.symm heq) ?_ (h.consistent guid hguid)
      · have hzero : (s.bed c).sleeperGUID = 0 := by
          rcases hc with rfl | hc
          · exact hfree
          · exact hmay.free c hc
        rw [hzero]
        exact hguid.symm
      · rw [hmap, Function.update_of_ne heq]

theorem settled_wakeUp (h : s.Placed items houseTiles) (hb : s.OnMap b)
    (hguid : (s.bed b).sleeperGUID ≠ 0) (hstay : s.BothStay items none b) :
    Settled items s (s.wakeUp items b) none b 0 ∧
      (s.wakeUp items b).bedSleepersMap =
        Function.update s.bedSleepersMap (s.bed b).sleeperGUID none := by
  have hset : ((s.removeBedSleeper (s.bed b).sleeperGUID).both internalRemoveSleeper b
      (s.getNextBedItem items b)) = (s.removeBedSleeper (s.bed b).sleeperGUID).both
        (fun s b => s.setBed b ({ · with sleeperGUID := 0, sleepStart := 0 })) b
      (s.getNextBedItem items b) := rfl
  have hsame := sameTiles_both_setBed (s.removeBedSleeper (s.bed b).sleeperGUID) b
    (s.getNextBedItem items b) ({ · with sleeperGUID := 0, sleepStart := 0 })
  rw [wakeUp]
  dsimp only
  rw [if_neg hguid]
  refine ⟨?_, ?_⟩
  · refine settled_both h hb hstay (f := ({ · with sleeperGUID := 0, sleepStart := 0 }))
      (fun _ => ⟨rfl, rfl, rfl⟩) ?_ ?_ ?_
    · exact hsame.tiles
    · exact hsame.bedItem
    · rw [hset]
      funext c
      rw [bed_both_setBed, bed_both_setBed]
      rfl
  · rw [map_both_updateAppearance, hset, hsame.map, removeBedSleeper]

/-- The halves of the bed that is woken up have the same sleeper. -/
theorem guid_of_isHalf (h : Good items houseTiles s) (hb : s.OnMap b)
    (hguid : (s.bed b).sleeperGUID ≠ 0) (hmay : s.MayWake items b) (hc : s.IsHalf items b c) :
    (s.bed c).sleeperGUID = (s.bed b).sleeperGUID := by
  rcases h.consistent _ hguid with hnone | ⟨e, he, heMap, heGuid, hhalf⟩
  · exact absurd rfl (hnone.2 b hb)
  · rcases hc with rfl | hc
    · rfl
    · rcases hmay.entry with hentry | ⟨e', hentry, hnext⟩
      · obtain rfl := Option.some.inj (he.symm.trans hentry)
        exact (hhalf c (onMap_of_getBedItem h.placed hc)).2 (.inr hc)
      · obtain rfl := Option.some.inj (he.symm.trans hentry)
        obtain rfl := Option.some.inj (hnext.symm.trans hc)
        exact heGuid

/-- A bed is woken up from the half in the map, or from its partner. -/
theorem Good.wakeUp (h : Good items houseTiles s) (hb : s.OnMap b)
    (hmay : (s.bed b).sleeperGUID ≠ 0 → s.MayWake items b) :
    Good items houseTiles (s.wakeUp items b) := by
  by_cases hguid : (s.bed b).sleeperGUID = 0
  · rw [State.wakeUp]
    dsimp only
    rw [if_pos hguid]
    exact h
  have hmay := hmay hguid
  obtain ⟨hs, hmap⟩ := settled_wakeUp h.placed hb hguid hmay.stay
  generalize s.wakeUp items b = t at hs hmap
  refine ⟨hs.placed h.placed fun guid c hc => ?_, fun guid hne => ?_⟩
  · rw [hmap, Function.update_apply] at hc
    split_ifs at hc
    exact h.placed.entry guid c hc
  · by_cases heq : guid = (s.bed b).sleeperGUID
    · refine .inl ⟨by rw [hmap, heq, Function.update_self], fun c hc hc' => ?_⟩
      by_cases hhalf : s.IsHalf items b c
      · rw [hs.half c hhalf] at hc'
        exact hne hc'.symm
      · rw [hs.other c hhalf, heq] at hc'
        have hcMap := hs.onMap_iff.1 hc
        -- Whoever has the number is a half of the bed in the map, and so of this bed.
        rcases h.consistent _ hguid with hnone | ⟨e, he, heMap, heGuid, hiff⟩
        · exact hnone.2 b hb rfl
        · have hce := (hiff c hcMap).1 hc'
          have hbe := (hiff b hb).1 rfl
          rcases hmay.entry with hentry | ⟨e', hentry, hnext⟩
          · obtain rfl := Option.some.inj (he.symm.trans hentry)
            exact hhalf hce
          · obtain rfl := Option.some.inj (he.symm.trans hentry)
            rcases hce with rfl | hce
            · exact hhalf (.inr hnext)
            · rcases hbe with rfl | hbe
              · exact hhalf (.inr hce)
              · exact hhalf (.inl (Option.some.inj (hce.symm.trans hbe)))
    · refine hs.consistentAt (fun c hc => ?_) (Ne.symm hne) ?_ (h.consistent guid hne)
      · rw [guid_of_isHalf h hb hguid hmay hc]
        exact Ne.symm heq
      · rw [hmap, Function.update_of_ne heq]

/-- Who is woken up does not change the halves of another sleeper. -/
theorem Good.bed_wakeUp (h : Good items houseTiles s) (hb : s.OnMap b)
    (hguid : (s.bed b).sleeperGUID ≠ 0) (hmay : s.MayWake items b)
    (hc : (s.bed c).sleeperGUID ≠ (s.bed b).sleeperGUID) :
    (s.wakeUp items b).bed c = s.bed c := by
  obtain ⟨hs, -⟩ := settled_wakeUp h.placed hb hguid hmay.stay
  exact hs.other c fun hhalf => hc (guid_of_isHalf h hb hguid hmay hhalf)

end sleep

/-! ## Loading -/

section load

variable {items houseTiles} {s t : State} {hasName : UInt32 → Bool} {b c : ℕ} {l : List ℕ}

/-- What is read of a bed is put on its tile. -/
def kept (items : ItemTypes) (hasName : UInt32 → Bool) (bed : Bed) : Bool :=
  (read hasName bed).sleeperGUID ≠ 0 ∨ (items bed.id).movable

/-- The beds of a list that have been loaded. -/
structure Loaded (items : ItemTypes) (hasName : UInt32 → Bool) (s : State) (l : List ℕ)
    (t : State) : Prop where
  bed : ∀ c, t.bed c = if c ∈ l then read hasName (s.bed c) else s.bed c
  tiles : ∀ pos, t.tiles pos = (l.filter fun c =>
    (s.bed c).position = pos ∧ kept items hasName (s.bed c)).reverse
  map : ∀ guid ≠ 0, t.bedSleepersMap guid =
    (l.filter fun c => (read hasName (s.bed c)).sleeperGUID = guid).getLast?
  zero : t.bedSleepersMap 0 = none
  bedItem : ∀ guid, t.bedItem guid = none

/-- A bed is loaded at the front of its tile, if it is not on top or the tile is empty. -/
theorem internalAddThing_eq (h : s.order items b = 0 ∨ l = []) :
    s.internalAddThing items b l = b :: l := by
  rw [internalAddThing]
  split_ifs with horder
  · rfl
  · rw [h.resolve_left horder, insertBefore]

/-- What `loadItem` changes, if the bed comes to the front of its tile. -/
theorem loadItem_fields (hasName : UInt32 → Bool)
    (horder : t.order items b = 0 ∨ t.tiles (t.bed b).position = []) :
    (State.loadItem items hasName t b).bed = (t.setBed b (read hasName)).bed ∧
      (State.loadItem items hasName t b).tiles =
        (if kept items hasName (t.bed b) then
          Function.update t.tiles (t.bed b).position (b :: t.tiles (t.bed b).position)
        else t.tiles) ∧
      (State.loadItem items hasName t b).bedSleepersMap =
        (if (read hasName (t.bed b)).sleeperGUID ≠ 0 then
          Function.update t.bedSleepersMap (read hasName (t.bed b)).sleeperGUID (some b)
        else t.bedSleepersMap) ∧
      (State.loadItem items hasName t b).bedItem = t.bedItem := by
  have hself : (t.setBed b (read hasName)).bed b = read hasName (t.bed b) := by
    rw [bed_setBed, if_pos rfl]
  rw [State.loadItem]
  dsimp only
  rw [hself]
  -- The state in which the sleeper has been entered into the map.
  generalize hu : (if (read hasName (t.bed b)).sleeperGUID ≠ 0 then
    (t.setBed b (read hasName)).setBedSleeper (read hasName (t.bed b)).sleeperGUID b
    else t.setBed b (read hasName)) = u
  have hbed : u.bed = (t.setBed b (read hasName)).bed := by
    rw [← hu]
    split_ifs <;> rfl
  have htiles : u.tiles = t.tiles := by
    rw [← hu]
    split_ifs <;> rfl
  have hitem : u.bedItem = t.bedItem := by
    rw [← hu]
    split_ifs <;> rfl
  have hmap : u.bedSleepersMap = if (read hasName (t.bed b)).sleeperGUID ≠ 0 then
      Function.update t.bedSleepersMap (read hasName (t.bed b)).sleeperGUID (some b)
      else t.bedSleepersMap := by
    rw [← hu]
    split_ifs <;> rfl
  have hkept : u.isLoaded items b = kept items hasName (t.bed b) := by
    rw [isLoaded, hbed, hself]
    rfl
  have hpos : (u.bed b).position = (t.bed b).position := by
    rw [hbed, hself]
    rfl
  have hadd : u.internalAddThing items b (t.tiles (t.bed b).position) =
      b :: t.tiles (t.bed b).position := by
    refine internalAddThing_eq (horder.imp_left fun hzero => ?_)
    rw [order, hbed, hself]
    exact hzero
  rw [hkept]
  by_cases hk : kept items hasName (t.bed b) = true
  · rw [if_pos hk, if_pos hk]
    refine ⟨hbed, ?_, hmap, hitem⟩
    dsimp only
    rw [htiles, hpos, hadd]
  · rw [if_neg hk, if_neg hk]
    exact ⟨hbed, htiles, hmap, hitem⟩

theorem Loaded.loadItem (h : Loaded items hasName s l t) (hb : b ∉ l)
    (horder : s.order items b = 0 ∨ ∀ c ∈ l, (s.bed c).position ≠ (s.bed b).position) :
    Loaded items hasName s (l ++ [b]) (State.loadItem items hasName t b) := by
  have hbed : t.bed b = s.bed b := by rw [h.bed, if_neg hb]
  have hempty : t.order items b = 0 ∨ t.tiles (t.bed b).position = [] := by
    rw [order, hbed]
    refine horder.imp_right fun hother => ?_
    rw [h.tiles, List.reverse_eq_nil_iff, List.filter_eq_nil_iff]
    intro c hc hpos
    exact hother c hc (of_decide_eq_true hpos).1
  obtain ⟨hbeds, htiles, hmap, hitem⟩ := loadItem_fields hasName hempty
  rw [hbed] at htiles hmap
  refine ⟨fun c => ?_, fun pos => ?_, fun guid hguid => ?_, ?_, fun guid => ?_⟩
  · rw [hbeds, bed_setBed, h.bed]
    simp only [List.mem_append, List.mem_singleton]
    by_cases hc : c = b
    · subst hc
      rw [if_pos rfl, if_neg hb, if_pos (.inr rfl)]
    · simp only [hc, if_false, or_false]
  · rw [htiles, List.filter_append, List.reverse_append, ← h.tiles]
    by_cases hkept : kept items hasName (s.bed b) = true
    · rw [if_pos hkept, Function.update_apply]
      by_cases hpos : pos = (s.bed b).position
      · rw [if_pos hpos, List.filter_singleton]
        simp [hpos, hkept]
      · rw [if_neg hpos, List.filter_singleton]
        simp [Ne.symm hpos]
    · rw [if_neg hkept, List.filter_singleton]
      simp [hkept]
  · rw [hmap, List.filter_append, List.filter_singleton]
    by_cases heq : (read hasName (s.bed b)).sleeperGUID = guid
    · rw [if_pos (by rw [heq]; exact hguid), heq, Function.update_self]
      simp
    · have hsame : (if (read hasName (s.bed b)).sleeperGUID ≠ 0 then
          Function.update t.bedSleepersMap (read hasName (s.bed b)).sleeperGUID (some b)
          else t.bedSleepersMap) guid = t.bedSleepersMap guid := by
        split_ifs
        · rw [Function.update_of_ne (Ne.symm heq)]
        · rfl
      rw [hsame, h.map guid hguid]
      simp [heq]
  · rw [hmap]
    split_ifs with hguid
    · rw [Function.update_of_ne hguid.symm, h.zero]
    · exact h.zero
  · rw [hitem, h.bedItem]

/-- All beds of a list, each once, with no other ones on the tiles of those on top. -/
theorem loaded_foldl (hnew : Loaded items hasName s [] t) (hnodup : l.Nodup)
    (horder : ∀ b ∈ l, s.order items b = 0 ∨
      ∀ c ∈ l, (s.bed c).position = (s.bed b).position → c = b) :
    Loaded items hasName s l (l.foldl (State.loadItem items hasName) t) := by
  induction l using List.reverseRecOn with
  | nil => exact hnew
  | append_singleton l b ih =>
    obtain ⟨hl, -, hdisj⟩ := List.nodup_append.1 hnodup
    have hb : b ∉ l := fun hb => hdisj b hb b List.mem_cons_self rfl
    rw [List.foldl_append, List.foldl_cons, List.foldl_nil]
    refine (ih hl fun c hc => ?_).loadItem hb ?_
    · exact (horder c (List.mem_append_left _ hc)).imp_right fun h d hd =>
        h d (List.mem_append_left _ hd)
    · refine (horder b (List.mem_append_right l List.mem_cons_self)).imp_right fun h c hc hpos => ?_
      exact hb (h c (List.mem_append_left _ hc) hpos ▸ hc)

/-! ### What is saved -/

theorem mem_saved (h : s.Placed items houseTiles) : b ∈ s.saved houseTiles ↔ s.OnMap b := by
  rw [saved, List.mem_flatMap]
  constructor
  · rintro ⟨pos, -, hb⟩
    rw [List.mem_reverse] at hb
    rw [OnMap, h.position pos b hb]
    exact hb
  · intro hb
    exact ⟨_, h.house _ (List.ne_nil_of_mem hb), List.mem_reverse.2 hb⟩

theorem nodup_saved (h : s.Placed items houseTiles) (hnodup : houseTiles.Nodup) :
    (s.saved houseTiles).Nodup := by
  rw [saved, List.nodup_flatMap]
  refine ⟨fun pos _ => List.nodup_reverse.2 (h.nodup pos), hnodup.imp fun hne => ?_⟩
  intro b hb hb'
  rw [List.mem_reverse] at hb hb'
  exact hne ((h.position _ b hb).symm.trans (h.position _ b hb'))

theorem findSome?_eq_of_mem {α β : Type} {f : α → Option β} {l : List α} {a : α} (ha : a ∈ l)
    (h : ∀ a' ∈ l, a' ≠ a → f a' = none) : l.findSome? f = f a := by
  induction l with
  | nil => cases ha
  | cons a' l ih =>
    rw [List.findSome?_cons]
    by_cases heq : a' = a
    · subst heq
      rcases hf : f a' with _ | b
      · by_cases hl : a' ∈ l
        · exact (ih hl fun c hc => h c (List.mem_cons_of_mem _ hc)).trans hf
        · exact List.findSome?_eq_none_iff.2 fun c hc =>
            h c (List.mem_cons_of_mem _ hc) fun he => hl (he ▸ hc)
      · rfl
    · rw [h a' List.mem_cons_self heq]
      exact ih ((List.mem_cons.1 ha).resolve_left (Ne.symm heq)) fun c hc =>
        h c (List.mem_cons_of_mem _ hc)

/-- The last bed of a tile is the first one that is saved of it. -/
theorem find_saved {p : ℕ → Bool} {pos : Position} (h : s.Placed items houseTiles)
    (hp : ∀ b, s.OnMap b → p b = true → (s.bed b).position = pos) (hb : p b = true)
    (hlast : s.getBedItem pos = some b) : (s.saved houseTiles).find? p = some b := by
  have hpos : pos ∈ houseTiles := h.house pos fun hnil => by
    rw [getBedItem, hnil] at hlast
    cases hlast
  rw [saved, List.find?_flatMap, findSome?_eq_of_mem hpos]
  · rw [getBedItem, ← List.head?_reverse] at hlast
    obtain ⟨l, hl⟩ := List.head?_eq_some_iff.1 hlast
    rw [hl, List.find?_cons_of_pos hb]
  · intro pos' _ hne
    rw [List.find?_eq_none]
    intro c hc hpc
    rw [List.mem_reverse] at hc
    have hc' := h.position pos' c hc
    refine hne (hc'.symm.trans (hp c ?_ hpc))
    rw [OnMap, hc']
    exact hc

theorem loaded_restart (h : s.Placed items houseTiles) (hnodup : houseTiles.Nodup)
    (hmay : s.MayRestart items hasName) {owner : UInt32} (howner : owner ≠ 0) :
    Loaded items hasName s (s.saved houseTiles) (s.restart items houseTiles hasName owner) := by
  rw [restart, if_neg howner]
  refine loaded_foldl ⟨fun _ => rfl, fun _ => rfl, fun _ _ => rfl, rfl, fun _ => rfl⟩
    (nodup_saved h hnodup) fun b hb => ?_
  have hb := (mem_saved h).1 hb
  refine (hmay.order (s.bed b).position).symm.imp (fun hzero => hzero b hb) fun hone c hc hpos => ?_
  have hc := (mem_saved h).1 hc
  rw [OnMap, hpos] at hc
  obtain ⟨a, ha⟩ := List.length_eq_one_iff.1 (Nat.le_antisymm hone (List.length_pos_of_mem hb))
  rw [ha, List.mem_singleton] at hc
  rw [OnMap, ha, List.mem_singleton] at hb
  exact hc.trans hb.symm

namespace Loaded

variable (h : Loaded items hasName s (s.saved houseTiles) t) (hplaced : s.Placed items houseTiles)

include h in
theorem position_id (c : ℕ) :
    (t.bed c).position = (s.bed c).position ∧ (t.bed c).id = (s.bed c).id := by
  rw [h.bed]
  split_ifs <;> exact ⟨rfl, rfl⟩

include h hplaced

theorem guid (hc : s.OnMap c) :
    (t.bed c).sleeperGUID = if hasName (s.bed c).sleeperGUID then (s.bed c).sleeperGUID else 0 := by
  rw [h.bed, if_pos ((mem_saved hplaced).2 hc)]
  rfl

theorem mem_tiles {pos : Position} : c ∈ t.tiles pos ↔
    s.OnMap c ∧ (s.bed c).position = pos ∧ kept items hasName (s.bed c) = true := by
  rw [h.tiles, List.mem_reverse, List.mem_filter, mem_saved hplaced, decide_eq_true_eq]

theorem onMap_iff : t.OnMap c ↔ s.OnMap c ∧ kept items hasName (s.bed c) = true := by
  rw [OnMap, h.mem_tiles hplaced, (h.position_id c).1, eq_self, true_and]

/-- The partner of a half is loaded with it. -/
theorem getNextBedItem_eq (hc : ∀ d, s.getNextBedItem items c = some d →
    kept items hasName (s.bed d) = true) :
    t.getNextBedItem items c = s.getNextBedItem items c := by
  have htarget : t.targetPos items c = s.targetPos items c := by
    rw [targetPos, targetPos, (h.position_id c).1, (h.position_id c).2]
  rw [getNextBedItem, htarget, getBedItem, h.tiles, List.getLast?_reverse, List.head?_filter]
  rcases hd : s.getNextBedItem items c with _ | d
  · -- No bed is on the tile.
    rw [List.find?_eq_none]
    intro d hd' hp
    have hmap := (mem_saved hplaced).1 hd'
    rw [OnMap, (of_decide_eq_true hp).1] at hmap
    rw [getNextBedItem, getBedItem, List.getLast?_eq_none_iff] at hd
    rw [hd] at hmap
    cases hmap
  · refine find_saved hplaced (fun e _ he => (of_decide_eq_true he).1) ?_ hd
    have hmap := List.mem_of_getLast? hd
    exact decide_eq_true ⟨hplaced.position _ d hmap, hc d hd⟩

theorem placed (hnodup : houseTiles.Nodup) : t.Placed items houseTiles where
  house pos hne := by
    obtain ⟨c, hc⟩ := List.exists_mem_of_ne_nil _ hne
    obtain ⟨hmap, rfl, -⟩ := (h.mem_tiles hplaced).1 hc
    exact hplaced.house _ (List.ne_nil_of_mem hmap)
  position pos c hc := by
    rw [(h.position_id c).1]
    exact ((h.mem_tiles hplaced).1 hc).2.1
  nodup pos := by
    rw [h.tiles, List.nodup_reverse]
    exact (nodup_saved hplaced hnodup).filter _
  isBed c hc := by
    rw [(h.position_id c).2]
    exact hplaced.isBed c ((h.onMap_iff hplaced).1 hc).1
  used guid c hc := by
    rw [h.bedItem] at hc
    cases hc
  entry guid c hc := by
    by_cases hguid : guid = 0
    · rw [hguid, h.zero] at hc
      cases hc
    · rw [h.map guid hguid] at hc
      obtain ⟨hmem, hread⟩ := List.mem_filter.1 (List.mem_of_getLast? hc)
      refine (h.onMap_iff hplaced).2 ⟨(mem_saved hplaced).1 hmem, decide_eq_true (.inl ?_)⟩
      rw [of_decide_eq_true hread]
      exact hguid

theorem consistentAt (hmay : s.MayRestart items hasName) {guid : UInt32} (hguid : guid ≠ 0)
    (hs : s.ConsistentAt items guid) : t.ConsistentAt items guid := by
  have hread : ∀ c, s.OnMap c → ((t.bed c).sleeperGUID = guid ↔
      hasName guid = true ∧ (s.bed c).sleeperGUID = guid) := fun c hc => by
    rw [h.guid hplaced hc]
    split_ifs with hname
    · exact ⟨fun heq => ⟨heq ▸ hname, heq⟩, And.right⟩
    · exact iff_of_false (Ne.symm hguid) fun hand => hname (hand.2 ▸ hand.1)
  have hbed : ∀ c, s.OnMap c → t.bed c = read hasName (s.bed c) := fun c hc => by
    rw [h.bed, if_pos ((mem_saved hplaced).2 hc)]
  have hkept : ∀ c, s.OnMap c → (t.bed c).sleeperGUID = guid →
      kept items hasName (s.bed c) = true := fun c hc heq => by
    rw [hbed c hc] at heq
    exact decide_eq_true (.inl (heq ▸ hguid))
  have hmem : ∀ c, c ∈ (s.saved houseTiles).filter (fun c =>
      (read hasName (s.bed c)).sleeperGUID = guid) ↔
        s.OnMap c ∧ (t.bed c).sleeperGUID = guid := fun c => by
    rw [List.mem_filter, mem_saved hplaced, decide_eq_true_eq]
    exact and_congr_right fun hc => by rw [hbed c hc]
  by_cases hhalves : ∃ c, s.OnMap c ∧ (t.bed c).sleeperGUID = guid
  · obtain ⟨c, hc, hcGuid⟩ := hhalves
    obtain ⟨hname, hcGuid⟩ := (hread c hc).1 hcGuid
    rcases hs with hnone | ⟨e, he, heMap, heGuid, hiff⟩
    · exact absurd hcGuid (hnone.2 c hc)
    -- The one that has been loaded last is in the map.
    obtain ⟨x, hx⟩ : ∃ x, ((s.saved houseTiles).filter (fun c =>
        (read hasName (s.bed c)).sleeperGUID = guid)).getLast? = some x :=
      ⟨_, List.getLast?_eq_some_getLast (List.ne_nil_of_mem
        ((hmem e).2 ⟨heMap, (hread e heMap).2 ⟨hname, heGuid⟩⟩))⟩
    obtain ⟨hxMap, hxGuid⟩ := (hmem x).1 (List.mem_of_getLast? hx)
    have hguid_iff : ∀ c, s.OnMap c → ((t.bed c).sleeperGUID = guid ↔ s.IsHalf items e c) :=
      fun c hc => by rw [hread c hc, hiff c hc, and_iff_right hname]
    have hxHalf := (hguid_iff x hxMap).1 hxGuid
    -- The halves of the one in the map are the same, seen from the other one.
    have hhalf : ∀ c, s.IsHalf items x c ↔ s.IsHalf items e c := fun c => by
      rcases hxHalf with rfl | hnext
      · exact Iff.rfl
      · have hback := hmay.partners guid e x hguid hname he hnext
        rw [IsHalf, IsHalf, hnext, hback, Option.some.injEq, Option.some.injEq, or_comm, eq_comm,
          @eq_comm _ x]
    have hnext : t.getNextBedItem items x = s.getNextBedItem items x :=
      h.getNextBedItem_eq hplaced fun d hd => by
        have hdMap := onMap_of_getBedItem hplaced hd
        exact hkept d hdMap ((hguid_iff d hdMap).2 ((hhalf d).1 (.inr hd)))
    refine .inr ⟨x, (h.map guid hguid).trans hx,
      (h.onMap_iff hplaced).2 ⟨hxMap, hkept x hxMap hxGuid⟩, hxGuid, fun c hc => ?_⟩
    rw [IsHalf, hnext, hguid_iff c ((h.onMap_iff hplaced).1 hc).1, ← hhalf, IsHalf]
  · refine .inl ⟨?_, fun c hc heq => hhalves ⟨c, ((h.onMap_iff hplaced).1 hc).1, heq⟩⟩
    rw [h.map guid hguid, List.getLast?_eq_none_iff, List.eq_nil_iff_forall_not_mem]
    exact fun c hc => hhalves ⟨c, (hmem c).1 hc⟩

end Loaded

theorem Good.restart (h : Good items houseTiles s) (hnodup : houseTiles.Nodup) {owner : UInt32}
    (hmay : owner ≠ 0 → s.MayRestart items hasName) :
    Good items houseTiles (s.restart items houseTiles hasName owner) := by
  by_cases howner : owner = 0
  · rw [State.restart, if_pos howner]
    have hnot : ∀ c, ¬OnMap { s with
        tiles := fun _ => [], bedSleepersMap := fun _ => none, bedItem := fun _ => none } c :=
      fun c hc => List.not_mem_nil hc
    exact
      { placed :=
          { house := fun _ hne => absurd rfl hne
            position := fun _ _ hc => absurd hc List.not_mem_nil
            nodup := fun _ => List.nodup_nil
            isBed := fun c hc => absurd hc (hnot c)
            used := fun _ _ hc => absurd hc (Option.some_ne_none _).symm
            entry := fun _ _ hc => absurd hc (Option.some_ne_none _).symm }
        consistent := fun guid _ => .inl ⟨rfl, fun c hc => absurd hc (hnot c)⟩ }
  · have hloaded := loaded_restart h.placed hnodup (hmay howner) howner
    exact ⟨hloaded.placed h.placed hnodup, fun guid hguid =>
      hloaded.consistentAt h.placed (hmay howner) hguid (h.consistent guid hguid)⟩

end load

/-! ## Runs -/

section runs

variable {items houseTiles} {s : State}

/-- The bed that a player has used is another one, or none. -/
theorem Good.withBedItem (h : Good items houseTiles s) {bedItem : UInt32 → Option ℕ}
    (hused : ∀ guid b, bedItem guid = some b → s.OnMap b) :
    Good items houseTiles { s with bedItem := bedItem } :=
  ⟨{ h.placed with used := hused }, h.consistent⟩

theorem Good.forget (h : Good items houseTiles s) (guid : UInt32) :
    Good items houseTiles { s with bedItem := Function.update s.bedItem guid none } :=
  h.withBedItem fun guid' b hb => by
    rw [Function.update_apply] at hb
    split_ifs at hb
    exact h.placed.used guid' b hb

theorem Good.apply (h : Good items houseTiles s) (hnodup : houseTiles.Nodup) {op : Op}
    (hcalled : s.Called op) (hmeets : s.Meets items op) :
    Good items houseTiles (s.apply items houseTiles op) := by
  cases op with
  | use house player b =>
    dsimp only [State.apply]
    by_cases huse : s.canUse items house player b = true
    · rw [if_pos huse, trySleep]
      by_cases hguid : (s.bed b).sleeperGUID ≠ 0
      · rw [if_pos hguid, if_neg Bool.false_ne_true]
        dsimp only
        split_ifs with hwakes
        · exact h.wakeUp hcalled fun _ => hmeets huse hwakes
        · exact h
      · rw [if_neg hguid, if_pos rfl]
        refine h.withBedItem fun guid c hc => ?_
        rw [Function.update_apply] at hc
        split_ifs at hc
        · exact Option.some.inj hc ▸ hcalled
        · exact h.placed.used guid c hc
    · rw [if_neg huse]
      exact h
  | answer player now =>
    dsimp only [State.apply]
    rcases hb : s.bedItem player.guid with _ | b
    · exact h
    · by_cases hfree : (s.bed b).sleeperGUID = 0
      · obtain ⟨hret, hgood⟩ := h.sleep (h.placed.used _ b hb) hfree (hmeets b hb hfree) now
        dsimp only
        rw [if_pos hret]
        exact hgood
      · dsimp only
        rw [State.sleep, if_pos hfree]
        exact h.forget player.guid
  | login guid =>
    have hforget := h.forget guid
    dsimp only [State.apply]
    rcases hb : s.bedSleepersMap guid with _ | b
    · exact hforget
    · exact hforget.wakeUp (h.placed.entry guid b hb) fun hne =>
        ⟨(hmeets b hb hne).entry, (hmeets b hb hne).stay.self, (hmeets b hb hne).stay.next⟩
  | wakeUp b => exact h.wakeUp hcalled hmeets
  | restart hasName owner => exact h.restart hnodup hmeets

theorem Layout.good (h : s.Layout items houseTiles) : Good items houseTiles s :=
  ⟨h.placed, fun guid hguid => .inl ⟨h.nobody guid, fun c _ => by
    rw [h.free c]
    exact hguid.symm⟩⟩

end runs

end State

open State

/-- In every run whose steps all meet the condition, all is consistent, and no one who is woken up
    changes the half of another sleeper. -/
theorem consistent_of_meets {items : ItemTypes} {houseTiles : List Position} {s : State}
    (h : (system items houseTiles).ReachableVia (Meets items) s) :
    s.Consistent items ∧ ∀ b c, s.OnMap b → (s.bed b).sleeperGUID ≠ 0 → s.MayWake items b →
      (s.bed c).sleeperGUID ≠ (s.bed b).sleeperGUID → (s.wakeUp items b).bed c = s.bed c := by
  have hgood : houseTiles.Nodup ∧ Good items houseTiles s := by
    refine h.invariant (I := fun s => houseTiles.Nodup ∧ Good items houseTiles s)
      (fun s (hs : s.Layout items houseTiles) => ⟨hs.nodupTiles, hs.good⟩) ?_
    rintro s op s' ⟨hnodup, hs⟩ hmeets ⟨hcalled, rfl⟩
    exact ⟨hnodup, hs.apply hnodup hcalled hmeets⟩
  exact ⟨hgood.2.consistent, fun b c hb hguid hmay hc => hgood.2.bed_wakeUp hb hguid hmay hc⟩

/-! ## Two beds with one half in common -/

/-- `"blue headboard"` -/
def headboard : List UInt8 := [98, 108, 117, 101, 32, 104, 101, 97, 100, 98, 111, 97, 114, 100]

/-- `"blue footboard"` -/
def footboard : List UInt8 := [98, 108, 117, 101, 32, 102, 111, 111, 116, 98, 111, 97, 114, 100]

/-- The two halves of a blue bed and a headboard in another direction, as in `items.xml`, free and
    with a man in them. -/
def someBeds : ItemTypes
  | 32473 => { name := headboard, isBed := true, movable := true, bedPart := .pillow,
               bedPartnerDir := some .south, transformToFree := 32509,
               transformToOnUse := fun | .male => 32518 | .female => 32509 }
  | 32482 => { name := footboard, isBed := true, movable := true, bedPart := .blanket,
               bedPartnerDir := some .north, transformToFree := 32527,
               transformToOnUse := fun _ => 32527 }
  | 32491 => { name := headboard, isBed := true, movable := true, bedPart := .pillow,
               bedPartnerDir := some .east, transformToFree := 32536,
               transformToOnUse := fun | .male => 32549 | .female => 32536 }
  | 32518 => { name := headboard, isBed := true, movable := true, bedPart := .pillow,
               bedPartnerDir := some .south, transformToFree := 32473,
               transformToOnUse := fun _ => 32473 }
  | 32527 => { name := footboard, isBed := true, movable := true, bedPart := .blanket,
               bedPartnerDir := some .north, transformToFree := 32482,
               transformToOnUse := fun _ => 32482 }
  | 32549 => { name := headboard, isBed := true, movable := true, bedPart := .pillow,
               bedPartnerDir := some .east, transformToFree := 32491,
               transformToOnUse := fun _ => 32491 }
  | _ => {}

def someTiles : List Position := [⟨100, 100, 7⟩, ⟨100, 101, 7⟩, ⟨99, 101, 7⟩]

/-- Two pillows that point to one blanket. -/
def room : State where
  bed
    | 0 => ⟨⟨100, 100, 7⟩, 32473, 0, 0⟩
    | 1 => ⟨⟨100, 101, 7⟩, 32482, 0, 0⟩
    | _ => ⟨⟨99, 101, 7⟩, 32491, 0, 0⟩
  tiles pos :=
    if pos = ⟨100, 100, 7⟩ then [0] else if pos = ⟨100, 101, 7⟩ then [1]
    else if pos = ⟨99, 101, 7⟩ then [2] else []
  bedSleepersMap _ := none
  bedItem _ := none

theorem layout_room : room.Layout someBeds someTiles where
  nodupTiles := by decide
  placed :=
    { house := fun pos hne => by
        dsimp only [room] at hne
        split_ifs at hne with h₁ h₂ h₃
        · exact h₁ ▸ by decide
        · exact h₂ ▸ by decide
        · exact h₃ ▸ by decide
        · exact absurd rfl hne
      position := fun pos b hb => by
        dsimp only [room] at hb
        split_ifs at hb with h₁ h₂ h₃
        · rw [List.mem_singleton.1 hb, h₁]
          rfl
        · rw [List.mem_singleton.1 hb, h₂]
          rfl
        · rw [List.mem_singleton.1 hb, h₃]
          rfl
        · cases hb
      nodup := fun pos => by
        dsimp only [room]
        split_ifs <;> decide
      isBed := fun b _ => by
        dsimp only [room]
        split <;> rfl
      used := fun _ _ h => absurd h (Option.some_ne_none _).symm
      entry := fun _ _ h => absurd h (Option.some_ne_none _).symm }
  free b := by
    dsimp only [room]
    split <;> rfl
  nobody _ := rfl

def one : Player := ⟨1, .male, true⟩

def two : Player := ⟨2, .male, true⟩

def home : House := ⟨1, fun _ => 3, fun _ => true⟩

/-- A player has used the first bed. -/
def evening : State := room.apply someBeds someTiles (.use home one 0)

/-- He lies down. -/
def night : State := evening.apply someBeds someTiles (.answer one 1000)

theorem reachable_night : (system someBeds someTiles).ReachableVia (Meets someBeds) night := by
  have hevening : (system someBeds someTiles).ReachableVia (Meets someBeds) evening :=
    .step (a := .use home one 0) (.init layout_room) (fun _ hwakes => absurd hwakes (by decide))
      ⟨(by decide : room.OnMap 0), rfl⟩
  refine .step (a := .answer one 1000) hevening ?_ ⟨trivial, rfl⟩
  · intro b hb _
    obtain rfl : 0 = b := Option.some.inj hb
    have hnext : evening.getNextBedItem someBeds 0 = some 1 := by decide
    exact
      { free := fun c hc => by
          obtain rfl := Option.some.inj (hnext.symm.trans hc)
          decide
        alone := rfl
        direction := by decide
        stay :=
          { self := .inl (by decide)
            next := fun c hc => by
              obtain rfl := Option.some.inj (hnext.symm.trans hc)
              exact .inl (by decide) } }

theorem night_consistent : night.Consistent someBeds ∧ ∀ b c, night.OnMap b →
    (night.bed b).sleeperGUID ≠ 0 → night.MayWake someBeds b →
      (night.bed c).sleeperGUID ≠ (night.bed b).sleeperGUID →
        (night.wakeUp someBeds b).bed c = night.bed c :=
  consistent_of_meets reachable_night

/-- Another player has used the bed of the other pillow before, and lies down as well. -/
def shared : State :=
  ((evening.apply someBeds someTiles (.use home two 2)).apply someBeds someTiles
    (.answer one 1000)).apply someBeds someTiles (.answer two 1001)

theorem shared_not_consistent :
    (system someBeds someTiles).Reachable shared ∧ ¬shared.Consistent someBeds := by
  constructor
  · have hevening : (system someBeds someTiles).Reachable evening :=
      .step (a := .use home one 0) (.init layout_room) trivial ⟨(by decide : room.OnMap 0), rfl⟩
    have hused : (system someBeds someTiles).Reachable
        (evening.apply someBeds someTiles (.use home two 2)) :=
      .step (a := .use home two 2) hevening trivial ⟨(by decide : evening.OnMap 2), rfl⟩
    exact .step (a := .answer two 1001) (.step (a := .answer one 1000) hused trivial
      ⟨trivial, rfl⟩) trivial ⟨trivial, rfl⟩
  · intro h
    have hentry : shared.bedSleepersMap 1 = some 0 := by decide
    rcases h 1 (by decide) with ⟨hnone, -⟩ | ⟨b, hb, -, -, hhalf⟩
    · exact absurd (hentry.symm.trans hnone) (Option.some_ne_none 0)
    · obtain rfl : 0 = b := Option.some.inj (hentry.symm.trans hb)
      have hother := (hhalf 1 (by decide)).2 (.inr (by decide))
      exact absurd hother (by decide)

end Canary.Houses.Beds
