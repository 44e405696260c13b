import Canary.Lib.InPlace
import Canary.Lib.Transition
import Mathlib.Algebra.Order.Group.Int
import Mathlib.Data.Int.Range

/-!
# The walk cache

A monster remembers for the squares around it, 11 to each side, whether it may walk there. Changes
of other creatures and of items update a square. When the monster itself moves by one square, the
rows and columns are shifted, those that are new are filled, and the square that it leaves is
updated; after other moves all squares are.

* After rows were shifted for a step to the south, a step to the south-east or south-west shifts the
  columns of all rows but the first, instead of all rows but the last, which is new.
* At the ends of the coordinates a row or column that is filled shows tiles of the other end, while
  a whole fill skips those squares and leaves what the cache had there.
* The cache agrees with the map if there are no such steps, a monster is not teleported to its
  master while it moves, no tile of the other end is filled in, none of the squares that are skipped
  is remembered as one to walk to, and all that changes where items are updated or removed has a
  type that blocks (`cache_agrees`). Then `canWalkTo` answers on the floor of the monster what it
  would without the cache (`State.canWalkTo_eq`).

That summons follow their master in the midst of a step does no harm, as they were far away.
-/

namespace Canary.Map.WalkCache

open InPlace Transition

/-- `MAP_MAX_CLIENT_VIEW_PORT_X + 3` -/
def maxWalkCacheWidth : ℕ := 11

/-- `MAP_MAX_CLIENT_VIEW_PORT_Y + 5` -/
def maxWalkCacheHeight : ℕ := 11

def mapWalkWidth : ℕ := 2 * maxWalkCacheWidth + 1

def mapWalkHeight : ℕ := 2 * maxWalkCacheHeight + 1

@[ext]
structure Position where
  x : ℤ
  y : ℤ
  z : ℤ
  deriving DecidableEq

/-- `uint16_t` -/
def uint16 (x : ℤ) : ℤ := x % 2 ^ 16

namespace Position

def getOffsetX (p q : Position) : ℤ := p.x - q.x

def getOffsetY (p q : Position) : ℤ := p.y - q.y

def getDistanceX (p q : Position) : ℕ := (p.getOffsetX q).natAbs

def getDistanceY (p q : Position) : ℕ := (p.getOffsetY q).natAbs

def getDistanceZ (p q : Position) : ℕ := (p.z - q.z).natAbs

/-- The coordinates are such of 16 bits. -/
def InRange (p : Position) : Prop := 0 ≤ p.x ∧ p.x < 2 ^ 16 ∧ 0 ≤ p.y ∧ p.y < 2 ^ 16

instance (p : Position) : Decidable p.InRange :=
  inferInstanceAs (Decidable (_ ∧ _ ∧ _ ∧ _))

end Position

/-- The tiles, and whether `queryAdd` admits the monster to them. -/
abbrev World := Position → Option Bool

namespace World

variable (w : World)

/-- `newTile && newTile->queryAdd(0, creature, 1, ..) == RETURNVALUE_NOERROR` -/
def admits (p : Position) : Bool := w p = some true

/-- The tile at `p`, if there is one, admits or does not. -/
def set (p : Position) (admitted : Bool) : World :=
  Function.update w p ((w p).map fun _ => admitted)

/-- The tile at coordinates that are cut to 16 bits. -/
def getTile (x y z : ℤ) : Option Bool := w ⟨uint16 x, uint16 y, z⟩

/-- There are no tiles past the ends of the coordinates. -/
def Bounded : Prop := ∀ p : Position, ¬p.InRange → w p = none

end World

/-- The rows of the cache. -/
abbrev Cache := ℕ → ℕ → Bool

namespace Cache

variable (cache : Cache)

/-- `localMapCache[maxWalkCacheHeight + dy][maxWalkCacheWidth + dx]` -/
def cell (dx dy : ℤ) : Bool := cache (maxWalkCacheHeight + dy).toNat (maxWalkCacheWidth + dx).toNat

/-- `updateTileCache` of an offset -/
def updateTileCache (tile : Option Bool) (dx dy : ℤ) : Cache :=
  if dx.natAbs ≤ maxWalkCacheWidth ∧ dy.natAbs ≤ maxWalkCacheHeight then
    Function.update cache (maxWalkCacheHeight + dy).toNat
      (Function.update (cache (maxWalkCacheHeight + dy).toNat) (maxWalkCacheWidth + dx).toNat
        (tile = some true))
  else cache

/-- `updateTileCache` for the tiles at the offsets `l` from `p` -/
def updateTiles (w : World) (p : Position) (l : List (ℤ × ℤ)) : Cache :=
  l.foldl (fun cache d =>
    cache.updateTileCache (w.getTile (p.x + d.1) (p.y + d.2) p.z) d.1 d.2) cache

/-- A loop over the rows from `starty` to `endy`. -/
def mapRows (starty endy : ℤ) (f : (ℕ → Bool) → ℕ → Bool) : Cache := fun y =>
  if starty ≤ y ∧ y ≤ endy then f (cache y) else cache y

end Cache

/-- From `-maxWalkCacheWidth` to `maxWalkCacheWidth`. -/
def columns : List ℤ := Int.range (-maxWalkCacheWidth) (maxWalkCacheWidth + 1)

def rows : List ℤ := Int.range (-maxWalkCacheHeight) (maxWalkCacheHeight + 1)

/-- A monster, its cache, and the map. -/
structure State where
  position : Position
  useCacheMap : Bool
  isMapLoaded : Bool
  localMapCache : Cache
  world : World

/-- What the checks of item types are about. -/
structure ItemType where
  blockSolid : Bool
  blockPathFind : Bool
  isGroundTile : Bool

namespace State

variable (s : State)

def setCache (cache : Cache) : State := { s with localMapCache := cache }

/-- The tile at `pos` changes. -/
def setTile (pos : Position) (admitted : Bool) : State :=
  { s with world := s.world.set pos admitted }

/-- `updateTileCache` of a position -/
def updateTileCache (pos : Position) : State :=
  if pos.z = s.position.z then
    s.setCache (s.localMapCache.updateTileCache (s.world pos) (pos.getOffsetX s.position)
      (pos.getOffsetY s.position))
  else s

/-- The squares of the cache, a row after the other. -/
def squares : List (ℤ × ℤ) := rows.flatMap fun y => columns.map fun x => (x, y)

/-- `pos.x = myPos.getX() + x` is cut to 16 bits, and so `updateTileCache(newTile, pos)` skips what
is past the ends of the coordinates. -/
def updateMapCache : State :=
  squares.foldl (fun s d => s.updateTileCache
    ⟨uint16 (s.position.x + d.1), uint16 (s.position.y + d.2), s.position.z⟩) s

/-! ## Others -/

/-- `onCreatureAppear` and `onRemoveCreature` for another creature -/
def onCreatureChange (pos : Position) : State :=
  if s.isMapLoaded then s.updateTileCache pos else s

/-- `onCreatureMove` for another creature -/
def onOtherMove (newPos oldPos : Position) : State :=
  if s.isMapLoaded then (s.updateTileCache newPos).updateTileCache oldPos else s

def onAddTileItem (pos : Position) : State :=
  if s.isMapLoaded ∧ pos.z = s.position.z then s.updateTileCache pos else s

def onUpdateTileItem (pos : Position) (oldType newType : ItemType) : State :=
  if !s.isMapLoaded then s
  else if oldType.blockSolid || oldType.blockPathFind || newType.blockPathFind ||
      newType.blockSolid then s.updateTileCache pos
  else s

def onRemoveTileItem (pos : Position) (iType : ItemType) : State :=
  if !s.isMapLoaded then s
  else if iType.blockSolid || iType.blockPathFind || iType.isGroundTile then s.updateTileCache pos
  else s

/-! ## The monster itself -/

/-- `onCreatureAppear` for the monster -/
def onAppear : State :=
  if s.useCacheMap then updateMapCache { s with isMapLoaded := true } else s

def onThink : State :=
  if !s.isMapLoaded && s.useCacheMap then updateMapCache { s with isMapLoaded := true } else s

/-- The rows are shifted, and the one that is new is filled. -/
def shiftRows (newPos oldPos : Position) : State :=
  if oldPos.y > newPos.y then
    s.setCache (Cache.updateTiles (shiftUp (mapWalkHeight - 1) s.localMapCache) s.world s.position
      (columns.map fun x => (x, -(maxWalkCacheHeight : ℤ))))
  else if oldPos.y < newPos.y then
    s.setCache (Cache.updateTiles (shiftDown (mapWalkHeight - 1) s.localMapCache) s.world s.position
      (columns.map fun x => (x, (maxWalkCacheHeight : ℤ))))
  else s

/-- The first and the last row whose columns are shifted. -/
def shiftedRows (newPos oldPos : Position) : ℤ × ℤ :=
  let starty := 0
  let endy : ℤ := mapWalkHeight - 1
  let dy : ℤ := oldPos.getDistanceY newPos
  if dy < 0 then (starty, endy + dy) else if dy > 0 then (dy, endy) else (starty, endy)

/-- The columns are shifted, and the one that is new is filled. -/
def shiftColumns (newPos oldPos : Position) : State :=
  let (starty, endy) := shiftedRows newPos oldPos
  if oldPos.x < newPos.x then
    s.setCache ((s.localMapCache.mapRows starty endy (shiftDown (mapWalkWidth - 1))).updateTiles
      s.world s.position (rows.map fun y => ((maxWalkCacheWidth : ℤ), y)))
  else if oldPos.x > newPos.x then
    s.setCache ((s.localMapCache.mapRows starty endy (shiftUp (mapWalkWidth - 1))).updateTiles
      s.world s.position (rows.map fun y => (-(maxWalkCacheWidth : ℤ), y)))
  else s

/-- A summon, and what becomes of its tile when it leaves. -/
structure Summon where
  position : Position
  isFamiliar : Bool
  /-- `isSummon()`, and so it can be removed -/
  isSummon : Bool
  admitted : Bool

/-- The config and the tile of the master, for all of its summons. -/
structure Follow where
  teleportSummon : Bool
  protectionZone : Bool
  tileTeleport : Bool
  /-- Of the tile of the master, with the summons there. -/
  admitted : Bool

def checkSummonDist (newPos pos : Position) : Prop :=
  newPos.getDistanceZ pos > 0 ∨ max (newPos.getDistanceX pos) (newPos.getDistanceY pos) > 15

instance (newPos pos : Position) : Decidable (checkSummonDist newPos pos) :=
  inferInstanceAs (Decidable (_ ∨ _))

def checkRemoveDist (newPos pos : Position) : Prop :=
  newPos.getDistanceZ pos > 2 ∨ max (newPos.getDistanceX pos) (newPos.getDistanceY pos) > 30

instance (newPos pos : Position) : Decidable (checkRemoveDist newPos pos) :=
  inferInstanceAs (Decidable (_ ∨ _))

/-- The summon is out of range, and is teleported. -/
def Summon.follows (newPos : Position) (f : Follow) (summon : Summon) : Bool :=
  (summon.isFamiliar && checkSummonDist newPos summon.position ||
    f.teleportSummon && !f.protectionZone && checkSummonDist newPos summon.position) &&
    !f.tileTeleport

/-- The summon is in `despawnMonsterList`. -/
def Summon.despawns (newPos : Position) (f : Follow) (summon : Summon) : Bool :=
  !summon.follows newPos f && (summon.isSummon && !summon.isFamiliar && !f.teleportSummon &&
    checkRemoveDist newPos summon.position)

/-- `internalTeleport` of a summon to its master -/
def teleportSummon (f : Follow) (summon : Summon) : State :=
  ((s.setTile summon.position summon.admitted).setTile s.position f.admitted).onOtherMove
    s.position summon.position

/-- `removeCreature` of a summon -/
def removeSummon (summon : Summon) : State :=
  (s.setTile summon.position summon.admitted).onCreatureChange summon.position

/-- Summons that are out of range are teleported, and then others removed. -/
def checkSummonMove (newPos : Position) (f : Follow) (summons : List Summon) : State :=
  (summons.filter (·.despawns newPos f)).foldl removeSummon
    ((summons.filter (·.follows newPos f)).foldl (fun s summon => s.teleportSummon f summon) s)

/-- A summon that is lost is teleported to its master. -/
structure Lost where
  masterPos : Position
  leftAdmitted : Bool
  masterAdmitted : Bool

/-- `handleLostSummon` -/
def handleLostSummon : Option Lost → State
  | none => s
  | some lost =>
    let s := { s with
      position := lost.masterPos
      world := (s.world.set s.position lost.leftAdmitted).set lost.masterPos lost.masterAdmitted }
    if s.isMapLoaded then s.updateMapCache else s

/-- What is given for a move of the monster: where to, and what is at the tiles then. -/
structure Move where
  newPos : Position
  forceTeleport : Bool
  /-- The new tile has a ground. -/
  ground : Bool
  oldAdmitted : Bool
  newAdmitted : Bool
  follow : Follow
  summons : List Summon
  lost : Option Lost

/-- `teleport` of `Map::moveCreature` -/
def Move.teleport (m : Move) (oldPos : Position) : Prop :=
  m.forceTeleport ∨ !m.ground ∨
    ¬(oldPos.getDistanceX m.newPos ≤ 1 ∧ oldPos.getDistanceY m.newPos ≤ 1 ∧
      oldPos.getDistanceZ m.newPos ≤ 0)

instance (m : Move) (oldPos : Position) : Decidable (m.teleport oldPos) :=
  inferInstanceAs (Decidable (_ ∨ _ ∨ ¬_))

/-- The monster is at its new tile. -/
def arrive (m : Move) : State :=
  { s with
    position := m.newPos
    world := (s.world.set s.position m.oldAdmitted).set m.newPos m.newAdmitted }

/-- `onCreatureMove` before the cache is updated: the summons are checked, and whether it is one
that is lost. -/
def moved (m : Move) : State :=
  ((s.arrive m).checkSummonMove m.newPos m.follow m.summons).handleLostSummon m.lost

/-- `Map::moveCreature` for the monster, with its `onCreatureMove`. -/
def onMove (m : Move) : State :=
  let oldPos := s.position
  let s := s.moved m
  if s.isMapLoaded then
    if m.teleport oldPos ∨ oldPos.z ≠ m.newPos.z then s.updateMapCache
    else ((s.shiftRows m.newPos oldPos).shiftColumns m.newPos oldPos).updateTileCache oldPos
  else s

/-- `Creature::getWalkCache` -/
def getWalkCache (pos : Position) : ℕ :=
  if !s.useCacheMap then 2
  else if s.position.z ≠ pos.z then 0
  else if pos = s.position then 1
  else
    let dx := pos.getOffsetX s.position
    let dy := pos.getOffsetY s.position
    if dx.natAbs ≤ maxWalkCacheWidth ∧ dy.natAbs ≤ maxWalkCacheHeight then
      (s.localMapCache.cell dx dy).toNat
    else 2

/-- `Map::canWalkTo` for a tile that is not cached -/
def queryWalkTo (pos : Position) : Option Bool :=
  if pos ≠ s.position ∧ !s.world.admits pos then none else s.world pos

/-- `Map::canWalkTo`: the tile, if the monster may walk there. -/
def canWalkTo (pos : Position) : Option Bool :=
  if s.getWalkCache pos = 0 then none
  else if s.getWalkCache pos = 1 then s.world pos
  else s.queryWalkTo pos

end State

/-! ## Runs -/

inductive Event
  | appear
  | think
  /-- `randomStepping` changes. -/
  | stepping (useCacheMap : Bool)
  | move (m : State.Move)
  /-- Another creature comes to a tile, or goes from it. -/
  | creature (pos : Position) (admitted : Bool)
  | otherMove (newPos oldPos : Position) (newAdmitted oldAdmitted : Bool)
  | addTileItem (pos : Position) (admitted : Bool)
  | updateTileItem (pos : Position) (oldType newType : ItemType) (admitted : Bool)
  | removeTileItem (pos : Position) (iType : ItemType) (admitted : Bool)

namespace State

variable (s : State)

def step (s : State) : Event → State
  | .appear => s.onAppear
  | .think => s.onThink
  | .stepping useCacheMap => { s with useCacheMap := useCacheMap }
  | .move m => s.onMove m
  | .creature pos admitted => (s.setTile pos admitted).onCreatureChange pos
  | .otherMove newPos oldPos newAdmitted oldAdmitted =>
    ((s.setTile oldPos oldAdmitted).setTile newPos newAdmitted).onOtherMove newPos oldPos
  | .addTileItem pos admitted => (s.setTile pos admitted).onAddTileItem pos
  | .updateTileItem pos oldType newType admitted =>
    (s.setTile pos admitted).onUpdateTileItem pos oldType newType
  | .removeTileItem pos iType admitted => (s.setTile pos admitted).onRemoveTileItem pos iType

/-! ## What is meant -/

/-- The cache is that of the map, but where the monster is. -/
def Agrees : Prop :=
  ∀ dx dy : ℤ, dx.natAbs ≤ maxWalkCacheWidth → dy.natAbs ≤ maxWalkCacheHeight →
    (dx ≠ 0 ∨ dy ≠ 0) → s.localMapCache.cell dx dy =
      s.world.admits ⟨s.position.x + dx, s.position.y + dy, s.position.z⟩

/-- Of the squares past the ends of the coordinates, as seen from `p`, none is remembered as one to
walk to. -/
def Clear (p : Position) : Prop :=
  ∀ dx dy : ℤ, dx.natAbs ≤ maxWalkCacheWidth → dy.natAbs ≤ maxWalkCacheHeight →
    (dx ≠ 0 ∨ dy ≠ 0) → ¬(⟨p.x + dx, p.y + dy, p.z⟩ : Position).InRange →
      s.localMapCache.cell dx dy = false

/-- The row that is new after a step. -/
def NewRow (oldPos newPos : Position) (dy : ℤ) : Prop :=
  newPos.y < oldPos.y ∧ dy = -maxWalkCacheHeight ∨ oldPos.y < newPos.y ∧ dy = maxWalkCacheHeight

/-- The column that is new after a step. -/
def NewColumn (oldPos newPos : Position) (dx : ℤ) : Prop :=
  newPos.x < oldPos.x ∧ dx = -maxWalkCacheWidth ∨ oldPos.x < newPos.x ∧ dx = maxWalkCacheWidth

/-- The row and the column that are new show no tile of the other end of the coordinates that the
monster may walk to. -/
def Unwrapped (w : World) (oldPos newPos : Position) : Prop :=
  ∀ dx dy : ℤ, dx.natAbs ≤ maxWalkCacheWidth → dy.natAbs ≤ maxWalkCacheHeight →
    (NewRow oldPos newPos dy ∨ NewColumn oldPos newPos dx) →
    ¬(⟨newPos.x + dx, newPos.y + dy, newPos.z⟩ : Position).InRange →
      w.getTile (newPos.x + dx) (newPos.y + dy) newPos.z ≠ some true

/-- Where the monster is at the end of its move. -/
def Move.last (m : Move) : Position := (m.lost.map (·.masterPos)).getD m.newPos

/-- A square that the cache is about. -/
def Seen (pos : Position) : Prop :=
  s.isMapLoaded = true ∧ pos.z = s.position.z ∧
    (pos.getOffsetX s.position).natAbs ≤ maxWalkCacheWidth ∧
    (pos.getOffsetY s.position).natAbs ≤ maxWalkCacheHeight ∧ pos ≠ s.position

/-- The steps after which the cache is that of the map. -/
def Fits (s : State) : Event → Prop
  | .appear => s.useCacheMap = true → s.Clear s.position
  | .think => s.isMapLoaded = false → s.useCacheMap = true → s.Clear s.position
  | .move m => s.isMapLoaded = true →
      (m.teleport s.position ∨ s.position.z ≠ m.newPos.z → s.Clear m.last) ∧
      (¬(m.teleport s.position ∨ s.position.z ≠ m.newPos.z) → m.lost = none ∧
        ¬(s.position.y < m.newPos.y ∧ s.position.x ≠ m.newPos.x) ∧
        Unwrapped (s.moved m).world s.position m.newPos)
  | .updateTileItem pos oldType newType admitted => s.Seen pos →
      (oldType.blockSolid || oldType.blockPathFind || newType.blockPathFind ||
        newType.blockSolid) = true ∨
      (s.setTile pos admitted).world.admits pos = s.world.admits pos
  | .removeTileItem pos iType admitted => s.Seen pos →
      (iType.blockSolid || iType.blockPathFind || iType.isGroundTile) = true ∨
      (s.setTile pos admitted).world.admits pos = s.world.admits pos
  | _ => True

end State

/-! ## Squares of the cache -/

/-- The offset of a square of the cache. -/
def Offset (dx dy : ℤ) : Prop := dx.natAbs ≤ maxWalkCacheWidth ∧ dy.natAbs ≤ maxWalkCacheHeight

theorem offset_iff (dx dy : ℤ) : Offset dx dy ↔ -11 ≤ dx ∧ dx ≤ 11 ∧ -11 ≤ dy ∧ dy ≤ 11 := by
  unfold Offset maxWalkCacheWidth maxWalkCacheHeight
  omega

namespace Cache

variable {cache : Cache} {dx dy : ℤ}

theorem cell_updateTileCache (h : Offset dx dy) (tile : Option Bool) (dx' dy' : ℤ) :
    (cache.updateTileCache tile dx' dy').cell dx dy =
      if dx = dx' ∧ dy = dy' then decide (tile = some true) else cache.cell dx dy := by
  rw [offset_iff] at h
  unfold updateTileCache cell
  split
  · rename_i h'
    rw [← Offset, offset_iff] at h'
    unfold maxWalkCacheWidth maxWalkCacheHeight
    by_cases hdy : dy = dy'
    · subst hdy
      rw [Function.update_self]
      by_cases hdx : dx = dx'
      · subst hdx
        rw [Function.update_self, if_pos ⟨rfl, rfl⟩]
      · rw [Function.update_of_ne (by omega), if_neg fun heq => hdx heq.1]
    · rw [Function.update_of_ne (by omega), if_neg fun heq => hdy heq.2]
  · rename_i h'
    rw [← Offset, offset_iff] at h'
    rw [if_neg (by omega)]

/-- Squares that are filled, and those that are not. -/
theorem cell_updateTiles (h : Offset dx dy) (w : World) (p : Position) (l : List (ℤ × ℤ)) :
    (cache.updateTiles w p l).cell dx dy =
      if (dx, dy) ∈ l then decide (w.getTile (p.x + dx) (p.y + dy) p.z = some true)
      else cache.cell dx dy := by
  unfold updateTiles
  induction l generalizing cache with
  | nil => rfl
  | cons d l ih =>
    rw [List.foldl_cons, ih, cell_updateTileCache h]
    by_cases hl : (dx, dy) ∈ l
    · rw [if_pos hl, if_pos (List.mem_cons_of_mem _ hl)]
    · rw [if_neg hl]
      by_cases hd : dx = d.1 ∧ dy = d.2
      · rw [if_pos hd, if_pos (by rw [hd.1, hd.2]; exact List.mem_cons_self), hd.1, hd.2]
      · rw [if_neg hd, if_neg]
        rw [List.mem_cons, not_or]
        exact ⟨fun heq => hd (by rw [← heq]; exact ⟨rfl, rfl⟩), hl⟩

/-- A line of the window that is shifted up, by the offset from its middle. -/
theorem shiftUp_offset {α : Type*} (w : ℕ) (f : ℕ → α) {d : ℤ} (h : d.natAbs ≤ w) :
    shiftUp (2 * w) f (w + d).toNat =
      if d = -w then f (w + d).toNat else f (w + (d - 1)).toNat := by
  rw [shiftUp_apply]
  by_cases hd : d = -w
  · rw [if_neg (by omega), if_pos hd]
  · rw [if_pos (by omega), if_neg hd]
    congr 1
    omega

theorem shiftDown_offset {α : Type*} (w : ℕ) (f : ℕ → α) {d : ℤ} (h : d.natAbs ≤ w) :
    shiftDown (2 * w) f (w + d).toNat =
      if d = w then f (w + d).toNat else f (w + (d + 1)).toNat := by
  rw [shiftDown_apply]
  by_cases hd : d = w
  · rw [if_neg (by omega), if_pos hd]
  · rw [if_pos (by omega), if_neg hd]
    congr 1
    omega

theorem cell_shiftUp_rows (h : Offset dx dy) :
    Cache.cell (shiftUp (mapWalkHeight - 1) cache) dx dy =
      if dy = -maxWalkCacheHeight then cache.cell dx dy else cache.cell dx (dy - 1) :=
  (congrFun (shiftUp_offset maxWalkCacheHeight cache h.2) _).trans
    (apply_ite (fun row : ℕ → Bool => row _) _ _ _)

theorem cell_shiftDown_rows (h : Offset dx dy) :
    Cache.cell (shiftDown (mapWalkHeight - 1) cache) dx dy =
      if dy = maxWalkCacheHeight then cache.cell dx dy else cache.cell dx (dy + 1) :=
  (congrFun (shiftDown_offset maxWalkCacheHeight cache h.2) _).trans
    (apply_ite (fun row : ℕ → Bool => row _) _ _ _)

theorem cell_shiftDown_columns (h : Offset dx dy) :
    shiftDown (mapWalkWidth - 1) (cache (maxWalkCacheHeight + dy).toNat)
      (maxWalkCacheWidth + dx).toNat =
      if dx = maxWalkCacheWidth then cache.cell dx dy else cache.cell (dx + 1) dy :=
  shiftDown_offset maxWalkCacheWidth _ h.1

theorem cell_shiftUp_columns (h : Offset dx dy) :
    shiftUp (mapWalkWidth - 1) (cache (maxWalkCacheHeight + dy).toNat)
      (maxWalkCacheWidth + dx).toNat =
      if dx = -maxWalkCacheWidth then cache.cell dx dy else cache.cell (dx - 1) dy :=
  shiftUp_offset maxWalkCacheWidth _ h.1

theorem cell_mapRows (h : Offset dx dy) (starty endy : ℤ) (f : (ℕ → Bool) → ℕ → Bool) :
    (cache.mapRows starty endy f).cell dx dy =
      if starty ≤ maxWalkCacheHeight + dy ∧ maxWalkCacheHeight + dy ≤ endy then
        f (cache (maxWalkCacheHeight + dy).toNat) (maxWalkCacheWidth + dx).toNat
      else cache.cell dx dy := by
  rw [offset_iff] at h
  have hcast : (((maxWalkCacheHeight : ℤ) + dy).toNat : ℤ) = maxWalkCacheHeight + dy := by
    unfold maxWalkCacheHeight
    omega
  unfold cell mapRows
  rw [hcast]
  split <;> rfl

end Cache

/-- Seen from `p`, the cache is that of the map, but for the squares of `E`. -/
def AgreesBut (cache : Cache) (w : World) (p : Position) (E : Position → Prop) : Prop :=
  ∀ dx dy, Offset dx dy → ¬E ⟨p.x + dx, p.y + dy, p.z⟩ →
    cache.cell dx dy = w.admits ⟨p.x + dx, p.y + dy, p.z⟩

theorem World.admits_set_of_ne {w : World} {p q : Position} (h : q ≠ p) (admitted : Bool) :
    (w.set p admitted).admits q = w.admits q := by
  unfold admits set
  rw [Function.update_of_ne h]

theorem AgreesBut.set {cache : Cache} {w : World} {p : Position} {E : Position → Prop}
    (h : AgreesBut cache w p E) (pos : Position) (admitted : Bool) :
    AgreesBut cache (w.set pos admitted) p fun q => E q ∨ q = pos := by
  intro dx dy hd hE
  rw [not_or] at hE
  rw [World.admits_set_of_ne hE.2]
  exact h dx dy hd hE.1

theorem AgreesBut.mono {cache : Cache} {w : World} {p : Position} {E E' : Position → Prop}
    (h : AgreesBut cache w p E) (hE : ∀ q, E q → E' q) : AgreesBut cache w p E' :=
  fun dx dy hd hq => h dx dy hd fun hEq => hq (hE _ hEq)

/-- A square of the cache, named by its coordinates. -/
theorem AgreesBut.cell {cache : Cache} {w : World} {p q : Position}
    {E : Position → Prop} (h : AgreesBut cache w p E) {dx dy : ℤ} (hd : Offset dx dy) (hE : ¬E q)
    (hx : q.x = p.x + dx) (hy : q.y = p.y + dy) (hz : q.z = p.z) :
    cache.cell dx dy = w.admits q := by
  obtain rfl : q = ⟨p.x + dx, p.y + dy, p.z⟩ := Position.ext hx hy hz
  exact h dx dy hd hE

namespace State

variable {s : State} {E : Position → Prop} {pos : Position}

theorem square_eq_iff (p : Position) (dx dy : ℤ) :
    (⟨p.x + dx, p.y + dy, p.z⟩ : Position) = p ↔ dx = 0 ∧ dy = 0 := by
  constructor
  · intro h
    have hx : p.x + dx = p.x := congrArg Position.x h
    have hy : p.y + dy = p.y := congrArg Position.y h
    omega
  · rintro ⟨rfl, rfl⟩
    rw [add_zero, add_zero]

theorem agreesBut_iff :
    s.Agrees ↔ AgreesBut s.localMapCache s.world s.position (· = s.position) := by
  constructor
  · intro h dx dy hd hne
    have hoff := mt (square_eq_iff s.position dx dy).2 hne
    exact h dx dy hd.1 hd.2 (by omega)
  · intro h dx dy hdx hdy hne
    exact h dx dy ⟨hdx, hdy⟩ (mt (square_eq_iff s.position dx dy).1 (by omega))

@[simp]
theorem position_updateTileCache : (s.updateTileCache pos).position = s.position := by
  unfold updateTileCache
  split <;> rfl

@[simp]
theorem world_updateTileCache : (s.updateTileCache pos).world = s.world := by
  unfold updateTileCache
  split <;> rfl

@[simp]
theorem isMapLoaded_updateTileCache : (s.updateTileCache pos).isMapLoaded = s.isMapLoaded := by
  unfold updateTileCache
  split <;> rfl

/-- A square that is updated agrees. -/
theorem agreesBut_updateTileCache (h : AgreesBut s.localMapCache s.world s.position E)
    (pos : Position) : AgreesBut (s.updateTileCache pos).localMapCache s.world s.position
      fun q => E q ∧ q ≠ pos := by
  intro dx dy hd hE
  unfold updateTileCache
  by_cases hz : pos.z = s.position.z
  · rw [if_pos hz]
    simp only [setCache]
    rw [Cache.cell_updateTileCache hd]
    unfold Position.getOffsetX Position.getOffsetY
    by_cases hpos : dx = pos.x - s.position.x ∧ dy = pos.y - s.position.y
    · rw [if_pos hpos]
      have heq : (⟨s.position.x + dx, s.position.y + dy, s.position.z⟩ : Position) = pos := by
        rw [Position.ext_iff]
        simp only
        omega
      rw [heq]
      rfl
    · rw [if_neg hpos]
      refine h dx dy hd fun hEq => hE ⟨hEq, fun heq => hpos ?_⟩
      rw [← heq]
      simp only
      omega
  · rw [if_neg hz]
    exact h dx dy hd fun hEq => hE ⟨hEq, fun heq => hz (by rw [← heq])⟩

theorem mem_columns (x : ℤ) : x ∈ columns ↔ x.natAbs ≤ maxWalkCacheWidth := by
  unfold columns maxWalkCacheWidth
  rw [Int.mem_range_iff]
  omega

theorem mem_rows (y : ℤ) : y ∈ rows ↔ y.natAbs ≤ maxWalkCacheHeight := by
  unfold rows maxWalkCacheHeight
  rw [Int.mem_range_iff]
  omega

theorem mem_squares {dx dy : ℤ} (hd : Offset dx dy) : (dx, dy) ∈ squares := by
  unfold squares
  rw [List.mem_flatMap]
  exact ⟨dy, (mem_rows dy).2 hd.2, List.mem_map.2 ⟨dx, (mem_columns dx).2 hd.1, rfl⟩⟩

theorem uint16_of_inRange {x : ℤ} (h : 0 ≤ x ∧ x < 2 ^ 16) : uint16 x = x :=
  Int.emod_eq_of_lt h.1 h.2

/-- No square of the map lies far from an inland position. -/
theorem inRange_of_inland {p : Position} (hx : 11 ≤ p.x ∧ p.x < 2 ^ 16 - 11)
    (hy : 11 ≤ p.y ∧ p.y < 2 ^ 16 - 11) {dx dy : ℤ} (hd : Offset dx dy) :
    (⟨p.x + dx, p.y + dy, p.z⟩ : Position).InRange := by
  rw [offset_iff] at hd
  unfold Position.InRange
  simp only
  omega

/-- What is known of the cache while its squares `l` are filled. -/
structure Filled (s t : State) (l : List (ℤ × ℤ)) : Prop where
  position : t.position = s.position
  world : t.world = s.world
  loaded : t.isMapLoaded = s.isMapLoaded
  cell : ∀ dx dy, Offset dx dy → t.localMapCache.cell dx dy =
    if (dx, dy) ∈ l ∧ (⟨s.position.x + dx, s.position.y + dy, s.position.z⟩ : Position).InRange then
      s.world.admits ⟨s.position.x + dx, s.position.y + dy, s.position.z⟩
    else s.localMapCache.cell dx dy

/-- The offset of coordinates that are cut is the one they were cut from, or too far. -/
theorem offset_uint16 {x d e : ℤ} (hd : -11 ≤ d ∧ d ≤ 11) (he : -11 ≤ e ∧ e ≤ 11) :
    d = uint16 (x + e) - x ↔ d = e ∧ 0 ≤ x + e ∧ x + e < 2 ^ 16 := by
  unfold uint16
  omega

theorem Filled.next {t : State} {l : List (ℤ × ℤ)} (h : Filled s t l) {d : ℤ × ℤ}
    (hd : Offset d.1 d.2) : Filled s (t.updateTileCache
      ⟨uint16 (t.position.x + d.1), uint16 (t.position.y + d.2), t.position.z⟩) (l ++ [d]) := by
  -- The square is written if its offset is this one, and its coordinates are not cut.
  refine ⟨position_updateTileCache.trans h.position, world_updateTileCache.trans h.world,
    isMapLoaded_updateTileCache.trans h.loaded, fun dx dy hoff => ?_⟩
  have hx := (offset_iff dx dy).1 hoff
  have he := (offset_iff d.1 d.2).1 hd
  unfold updateTileCache
  rw [if_pos rfl]
  refine (Cache.cell_updateTileCache hoff _ _ _).trans ?_
  unfold Position.getOffsetX Position.getOffsetY
  simp only [h.position, h.world, offset_uint16 ⟨hx.1, hx.2.1⟩ ⟨he.1, he.2.1⟩,
    offset_uint16 hx.2.2 he.2.2, h.cell dx dy hoff, List.mem_append, List.mem_singleton]
  by_cases heq : dx = d.1 ∧ dy = d.2
  · obtain ⟨rfl, rfl⟩ := heq
    by_cases hrange : (⟨s.position.x + d.1, s.position.y + d.2, s.position.z⟩ : Position).InRange
    · rw [if_pos ⟨⟨rfl, hrange.1, hrange.2.1⟩, rfl, hrange.2.2⟩, if_pos ⟨.inr rfl, hrange⟩,
        uint16_of_inRange ⟨hrange.1, hrange.2.1⟩, uint16_of_inRange hrange.2.2]
      rfl
    · rw [if_neg fun h => hrange ⟨h.1.2.1, h.1.2.2, h.2.2⟩, if_neg fun h => hrange h.2,
        if_neg fun h => hrange h.2]
  · have hmem : (dx, dy) ∈ l ∨ (dx, dy) = d ↔ (dx, dy) ∈ l :=
      or_iff_left fun h => heq ⟨congrArg Prod.fst h, congrArg Prod.snd h⟩
    rw [if_neg fun h => heq ⟨h.1.1, h.2.1⟩]
    simp only [hmem]

/-- A whole fill: what is past the ends of the coordinates stays. -/
theorem filled_updateMapCache (s : State) : Filled s s.updateMapCache squares := by
  have hfold : ∀ (l done : List (ℤ × ℤ)) (t : State), (∀ d ∈ l, Offset d.1 d.2) →
      Filled s t done → Filled s (l.foldl (fun s d => s.updateTileCache
        ⟨uint16 (s.position.x + d.1), uint16 (s.position.y + d.2), s.position.z⟩) t)
        (done ++ l) := by
    intro l
    induction l with
    | nil => intro done t _ h; rwa [List.append_nil]
    | cons d l ih =>
      intro done t hl h
      rw [List.foldl_cons, ← List.singleton_append, ← List.append_assoc]
      exact ih _ _ (fun e he => hl e (List.mem_cons_of_mem _ he))
        (h.next (hl d List.mem_cons_self))
  refine hfold squares [] s (fun d hd => ?_) ⟨rfl, rfl, rfl, fun dx dy _ => by simp⟩
  unfold squares at hd
  simp only [List.mem_flatMap, List.mem_map] at hd
  obtain ⟨y, hy, x, hx, rfl⟩ := hd
  exact ⟨(mem_columns x).1 hx, (mem_rows y).1 hy⟩

/-- After a whole fill the cache is that of the map, if nothing is remembered past the ends of the
coordinates. -/
theorem agreesBut_updateMapCache (h : s.Clear s.position) (hbounded : s.world.Bounded) :
    AgreesBut s.updateMapCache.localMapCache s.world s.position (· = s.position) := by
  intro dx dy hd hne
  rw [(filled_updateMapCache s).cell dx dy hd]
  by_cases hrange : (⟨s.position.x + dx, s.position.y + dy, s.position.z⟩ : Position).InRange
  · rw [if_pos ⟨mem_squares hd, hrange⟩]
  · have hoff := mt (square_eq_iff s.position dx dy).2 hne
    rw [if_neg fun h => hrange h.2, h dx dy hd.1 hd.2 (by omega) hrange]
    unfold World.admits
    rw [hbounded _ hrange]
    rfl

/-- The new row and column are filled with what is there. -/
theorem Unwrapped.tile {w : World} {oldPos newPos : Position} (h : Unwrapped w oldPos newPos)
    (hbounded : w.Bounded) {dx dy : ℤ} (hd : Offset dx dy)
    (hnew : NewRow oldPos newPos dy ∨ NewColumn oldPos newPos dx) :
    decide (w.getTile (newPos.x + dx) (newPos.y + dy) newPos.z = some true) =
      w.admits ⟨newPos.x + dx, newPos.y + dy, newPos.z⟩ := by
  by_cases hrange : (⟨newPos.x + dx, newPos.y + dy, newPos.z⟩ : Position).InRange
  · unfold World.getTile
    rw [uint16_of_inRange ⟨hrange.1, hrange.2.1⟩, uint16_of_inRange hrange.2.2]
    rfl
  · rw [decide_eq_false (h dx dy hd.1 hd.2 hnew hrange)]
    unfold World.admits
    rw [hbounded _ hrange]
    rfl

/-! ## Others change -/

/-- If it is loaded, the cache is that of the map. -/
def Inv (s : State) : Prop := s.isMapLoaded = true → s.Agrees

theorem inv_updateTile (h : s.Inv) (pos : Position) (admitted : Bool) :
    ((s.setTile pos admitted).updateTileCache pos).Inv := by
  intro hloaded
  rw [isMapLoaded_updateTileCache] at hloaded
  have hset := (agreesBut_iff.1 (h hloaded)).set pos admitted
  have hupdate := agreesBut_updateTileCache (s := s.setTile pos admitted) hset pos
  rw [agreesBut_iff, world_updateTileCache, position_updateTileCache]
  exact hupdate.mono fun q hq => hq.1.resolve_right hq.2

theorem inv_notLoaded (hloaded : s.isMapLoaded = false) : s.Inv := fun h => by
  rw [hloaded] at h
  cases h

/-- A change that is not noticed, at a square that is not seen or admits as before. -/
theorem inv_setTile (h : s.Inv) (admitted : Bool)
    (hseen : s.Seen pos → (s.setTile pos admitted).world.admits pos = s.world.admits pos) :
    (s.setTile pos admitted).Inv := by
  intro hloaded
  have hagrees := agreesBut_iff.1 (h hloaded)
  refine agreesBut_iff.2 fun dx dy hd hne => ?_
  change s.localMapCache.cell dx dy = (s.world.set pos admitted).admits
    ⟨s.position.x + dx, s.position.y + dy, s.position.z⟩
  -- The square that has changed is one of the window: it admits as before.
  by_cases hpos : (⟨s.position.x + dx, s.position.y + dy, s.position.z⟩ : Position) = pos
  · have hadmits := hseen ⟨hloaded, by rw [← hpos], by
      rw [← hpos]
      simpa [Position.getOffsetX] using hd.1, by
      rw [← hpos]
      simpa [Position.getOffsetY] using hd.2, by
      rw [← hpos]
      exact hne⟩
    change (s.world.set pos admitted).admits pos = s.world.admits pos at hadmits
    rw [hpos, hadmits, ← hpos]
    exact hagrees dx dy hd hne
  · rw [World.admits_set_of_ne hpos]
    exact hagrees dx dy hd hne

theorem inv_creature (h : s.Inv) (pos : Position) (admitted : Bool) :
    ((s.setTile pos admitted).onCreatureChange pos).Inv := by
  unfold onCreatureChange
  split
  · exact inv_updateTile h pos admitted
  · rename_i hloaded
    exact inv_notLoaded (Bool.eq_false_iff.2 hloaded)

theorem inv_otherMove (h : s.Inv) (newPos oldPos : Position) (newAdmitted oldAdmitted : Bool) :
    (((s.setTile oldPos oldAdmitted).setTile newPos newAdmitted).onOtherMove
      newPos oldPos).Inv := by
  unfold onOtherMove
  split
  · rename_i hloaded
    -- Both squares have changed, and are updated one after the other.
    have hset := ((agreesBut_iff.1 (h hloaded)).set oldPos oldAdmitted).set newPos newAdmitted
    have hnew := agreesBut_updateTileCache
      (s := (s.setTile oldPos oldAdmitted).setTile newPos newAdmitted) hset newPos
    have hold := agreesBut_updateTileCache
      (s := ((s.setTile oldPos oldAdmitted).setTile newPos newAdmitted).updateTileCache newPos)
      (by simpa using hnew) oldPos
    intro _
    rw [agreesBut_iff, world_updateTileCache, position_updateTileCache]
    refine hold.mono fun q hq => ?_
    rw [position_updateTileCache]
    exact (hq.1.1.resolve_right hq.1.2).resolve_right hq.2
  · rename_i hloaded
    exact inv_notLoaded (Bool.eq_false_iff.2 hloaded)

theorem inv_addTileItem (h : s.Inv) (pos : Position) (admitted : Bool) :
    ((s.setTile pos admitted).onAddTileItem pos).Inv := by
  unfold onAddTileItem
  split
  · exact inv_updateTile h pos admitted
  · rename_i hnot
    exact inv_setTile h admitted fun hseen => absurd ⟨hseen.1, hseen.2.1⟩ hnot

/-- A change of an item, noticed if it has one of the flags `filter`. -/
theorem inv_filtered (h : s.Inv) {filter admitted : Bool}
    (hok : s.Seen pos → filter = true ∨
      (s.setTile pos admitted).world.admits pos = s.world.admits pos) :
    (if !(s.setTile pos admitted).isMapLoaded then s.setTile pos admitted
      else if filter then (s.setTile pos admitted).updateTileCache pos
      else s.setTile pos admitted).Inv := by
  split
  · rename_i hloaded
    exact inv_notLoaded (by simpa using hloaded)
  · split
    · exact inv_updateTile h pos admitted
    · rename_i hfilter
      exact inv_setTile h admitted fun hseen => (hok hseen).resolve_left hfilter

theorem inv_updateTileItem (h : s.Inv) {oldType newType : ItemType} {admitted : Bool}
    (hok : s.Fits (.updateTileItem pos oldType newType admitted)) :
    ((s.setTile pos admitted).onUpdateTileItem pos oldType newType).Inv :=
  inv_filtered h hok

theorem inv_removeTileItem (h : s.Inv) {iType : ItemType} {admitted : Bool}
    (hok : s.Fits (.removeTileItem pos iType admitted)) :
    ((s.setTile pos admitted).onRemoveTileItem pos iType).Inv :=
  inv_filtered h hok

/-! ## The monster moves -/

/-- A step to one of the squares around. -/
structure Adjacent (oldPos newPos : Position) : Prop where
  x : oldPos.getDistanceX newPos ≤ 1
  y : oldPos.getDistanceY newPos ≤ 1
  z : oldPos.z = newPos.z

variable {oldPos newPos : Position}

/-- The squares of the cache are not far. -/
theorem Adjacent.square_ne (h : Adjacent oldPos newPos) (hfar : checkSummonDist newPos pos)
    {dx dy : ℤ} (hd : Offset dx dy) :
    (⟨oldPos.x + dx, oldPos.y + dy, oldPos.z⟩ : Position) ≠ pos := by
  rintro rfl
  obtain ⟨hx, hy, hz⟩ := h
  rw [offset_iff] at hd
  unfold checkSummonDist Position.getDistanceZ at hfar
  unfold Position.getDistanceX Position.getDistanceY Position.getOffsetX Position.getOffsetY at *
  simp only at hfar
  omega

/-- Nothing is updated for a square that is far. -/
theorem updateTileCache_far (hfar : checkSummonDist s.position pos) :
    s.updateTileCache pos = s := by
  unfold checkSummonDist Position.getDistanceX Position.getDistanceY Position.getDistanceZ at hfar
  unfold updateTileCache
  split
  · rename_i hz
    unfold Cache.updateTileCache
    rw [if_neg]
    · rfl
    · unfold maxWalkCacheWidth maxWalkCacheHeight
      unfold Position.getOffsetX Position.getOffsetY at *
      omega
  · rfl

/-- The monster has moved, and its cache is still that from `oldPos`. -/
structure Stale (oldPos newPos : Position) (s : State) : Prop where
  loaded : s.isMapLoaded = true
  position : s.position = newPos
  agrees : AgreesBut s.localMapCache s.world oldPos fun q => q = oldPos ∨ q = newPos

theorem stale_arrive (h : s.Agrees) (hloaded : s.isMapLoaded = true) (m : Move) :
    Stale s.position m.newPos (s.arrive m) := by
  refine ⟨hloaded, rfl, ?_⟩
  refine (((agreesBut_iff.1 h).set s.position m.oldAdmitted).set m.newPos m.newAdmitted).mono ?_
  rintro q ((rfl | rfl) | rfl)
  · exact .inl rfl
  · exact .inl rfl
  · exact .inr rfl

theorem Stale.setFar (h : Stale oldPos newPos s) (hadj : Adjacent oldPos newPos)
    (hfar : checkSummonDist newPos pos) (admitted : Bool) :
    Stale oldPos newPos (s.setTile pos admitted) := by
  refine ⟨h.loaded, h.position, fun dx dy hd hE => (h.agrees dx dy hd hE).trans ?_⟩
  exact (World.admits_set_of_ne (hadj.square_ne hfar hd) admitted).symm

/-- The square of the monster is that of its old position for the cache. -/
theorem Stale.updateHere (h : Stale oldPos newPos s) (admitted : Bool) :
    Stale oldPos newPos ((s.setTile newPos admitted).updateTileCache newPos) := by
  obtain ⟨hloaded, rfl, hagrees⟩ := h
  refine ⟨by simpa [setTile] using hloaded, position_updateTileCache, fun dx dy hd hE => ?_⟩
  have hne := not_or.1 hE
  have hoff := mt (square_eq_iff oldPos dx dy).2 hne.1
  rw [world_updateTileCache]
  refine Eq.trans ?_ ((hagrees dx dy hd hE).trans (World.admits_set_of_ne hne.2 admitted).symm)
  have hz : s.position.z = (s.setTile s.position admitted).position.z := rfl
  unfold updateTileCache
  rw [if_pos hz]
  refine (Cache.cell_updateTileCache hd _ _ _).trans (if_neg ?_)
  unfold Position.getOffsetX Position.getOffsetY setTile
  simp only
  omega

theorem Stale.removeSummon (h : Stale oldPos newPos s) (hadj : Adjacent oldPos newPos)
    {summon : Summon} (hfar : checkSummonDist newPos summon.position) :
    Stale oldPos newPos (s.removeSummon summon) := by
  have hset := h.setFar hadj hfar summon.admitted
  have hfar' : checkSummonDist (s.setTile summon.position summon.admitted).position
      summon.position := hset.position ▸ hfar
  unfold State.removeSummon onCreatureChange
  rw [updateTileCache_far hfar', ite_self]
  exact hset

theorem Stale.teleportSummon (h : Stale oldPos newPos s) (hadj : Adjacent oldPos newPos)
    {summon : Summon} (hfar : checkSummonDist newPos summon.position) (f : Follow) :
    Stale oldPos newPos (s.teleportSummon f summon) := by
  have hset := (h.setFar hadj hfar summon.admitted).updateHere f.admitted
  unfold State.teleportSummon onOtherMove
  rw [h.position]
  refine (if_pos (show _ = true from h.loaded)).symm ▸ ?_
  rw [updateTileCache_far (hset.position.symm ▸ hfar)]
  exact hset

theorem Stale.checkSummonMove (h : Stale oldPos newPos s) (hadj : Adjacent oldPos newPos)
    (f : Follow) (summons : List Summon) :
    Stale oldPos newPos (s.checkSummonMove newPos f summons) := by
  refine List.foldlRecOn _ _ (List.foldlRecOn _ _ h fun s h summon hsummon => ?_)
    fun s h summon hsummon => ?_
  · have hfollows := (List.mem_filter.1 hsummon).2
    simp only [Summon.follows, Bool.and_eq_true, Bool.or_eq_true, decide_eq_true_eq] at hfollows
    exact h.teleportSummon hadj (hfollows.1.elim (·.2) (·.2)) f
  · have hdespawns := (List.mem_filter.1 hsummon).2
    simp only [Summon.despawns, Bool.and_eq_true, decide_eq_true_eq] at hdespawns
    have hdist := hdespawns.2.2
    unfold checkRemoveDist at hdist
    refine h.removeSummon hadj ?_
    unfold checkSummonDist
    omega

/-! ## Rows and columns -/

@[simp]
theorem position_shiftRows : (s.shiftRows newPos oldPos).position = s.position := by
  unfold shiftRows
  split_ifs <;> rfl

@[simp]
theorem world_shiftRows : (s.shiftRows newPos oldPos).world = s.world := by
  unfold shiftRows
  split_ifs <;> rfl

@[simp]
theorem position_shiftColumns : (s.shiftColumns newPos oldPos).position = s.position := by
  unfold shiftColumns
  split_ifs <;> rfl

@[simp]
theorem world_shiftColumns : (s.shiftColumns newPos oldPos).world = s.world := by
  unfold shiftColumns
  split_ifs <;> rfl

/-- After the rows were shifted: the columns of all but the new one are still those before. -/
structure RowsShifted (oldPos newPos : Position) (s : State) : Prop where
  new : ∀ dx dy, Offset dx dy → NewRow oldPos newPos dy →
    s.localMapCache.cell dx dy = s.world.admits ⟨newPos.x + dx, newPos.y + dy, newPos.z⟩
  others : ∀ dx dy, Offset dx dy → ¬NewRow oldPos newPos dy →
    ∀ q : Position, q.x = oldPos.x + dx → q.y = newPos.y + dy → q.z = newPos.z →
      ¬(q = oldPos ∨ q = newPos) → s.localMapCache.cell dx dy = s.world.admits q

theorem mem_row {dx dy : ℤ} (hd : Offset dx dy) (y : ℤ) :
    (dx, dy) ∈ columns.map (fun x => (x, y)) ↔ dy = y := by
  rw [List.mem_map]
  constructor
  · rintro ⟨x, -, heq⟩
    exact (congrArg Prod.snd heq).symm
  · rintro rfl
    exact ⟨dx, (mem_columns dx).2 hd.1, rfl⟩

theorem mem_column {dx dy : ℤ} (hd : Offset dx dy) (x : ℤ) :
    (dx, dy) ∈ rows.map (fun y => (x, y)) ↔ dx = x := by
  rw [List.mem_map]
  constructor
  · rintro ⟨y, -, heq⟩
    exact (congrArg Prod.fst heq).symm
  · rintro rfl
    exact ⟨dy, (mem_rows dy).2 hd.2, rfl⟩

theorem rowsShifted_shiftRows (h : Stale oldPos newPos s) (hadj : Adjacent oldPos newPos)
    (hbounded : s.world.Bounded) (hwrap : Unwrapped s.world oldPos newPos) :
    RowsShifted oldPos newPos (s.shiftRows newPos oldPos) := by
  obtain ⟨-, rfl, hagrees⟩ := h
  have hy := hadj.y
  have hz := hadj.z
  unfold Position.getDistanceY Position.getOffsetY at hy
  unfold shiftRows
  -- Away from the new row the cache still shows the squares it was taken from.
  by_cases hnorth : oldPos.y > s.position.y
  · rw [if_pos hnorth]
    constructor
    case new =>
      intro dx dy hd hnew
      have hdy : dy = -maxWalkCacheHeight := hnew.elim (·.2) fun hsouth => by omega
      refine (Cache.cell_updateTiles hd _ _ _).trans ?_
      rw [if_pos ((mem_row hd _).2 hdy)]
      exact hwrap.tile hbounded hd (.inl hnew)
    case others =>
      intro dx dy hd hnew q hqx hqy hqz hE
      have hdy : dy ≠ -maxWalkCacheHeight := fun heq => hnew (.inl ⟨hnorth, heq⟩)
      refine (Cache.cell_updateTiles hd _ _ _).trans ?_
      rw [if_neg (mt (mem_row hd _).1 hdy), Cache.cell_shiftUp_rows hd, if_neg hdy]
      refine hagrees.cell ?_ hE hqx (by omega) (by omega)
      rw [offset_iff] at hd ⊢
      unfold maxWalkCacheHeight at hdy
      omega
  · rw [if_neg hnorth]
    by_cases hsouth : oldPos.y < s.position.y
    · rw [if_pos hsouth]
      constructor
      case new =>
        intro dx dy hd hnew
        have hdy : dy = maxWalkCacheHeight := hnew.elim (fun hup => by omega) (·.2)
        refine (Cache.cell_updateTiles hd _ _ _).trans ?_
        rw [if_pos ((mem_row hd _).2 hdy)]
        exact hwrap.tile hbounded hd (.inl hnew)
      case others =>
        intro dx dy hd hnew q hqx hqy hqz hE
        have hdy : dy ≠ maxWalkCacheHeight := fun heq => hnew (.inr ⟨hsouth, heq⟩)
        refine (Cache.cell_updateTiles hd _ _ _).trans ?_
        rw [if_neg (mt (mem_row hd _).1 hdy), Cache.cell_shiftDown_rows hd, if_neg hdy]
        refine hagrees.cell ?_ hE hqx (by omega) (by omega)
        rw [offset_iff] at hd ⊢
        unfold maxWalkCacheHeight at hdy
        omega
    · rw [if_neg hsouth]
      constructor
      case new =>
        intro dx dy _ hnew
        unfold NewRow at hnew
        omega
      case others =>
        intro dx dy hd _ q hqx hqy hqz hE
        exact hagrees.cell hd hE hqx (by omega) (by omega)

/-- The rows whose columns are shifted are all but the new one, unless that is to the south. -/
theorem shiftedRows_iff (hadj : Adjacent oldPos newPos) (hdiag : ¬oldPos.y < newPos.y) {dx dy : ℤ}
    (hd : Offset dx dy) :
    ((shiftedRows newPos oldPos).1 ≤ maxWalkCacheHeight + dy ∧
      maxWalkCacheHeight + dy ≤ (shiftedRows newPos oldPos).2) ↔ ¬NewRow oldPos newPos dy := by
  have hy := hadj.y
  rw [offset_iff] at hd
  unfold shiftedRows NewRow mapWalkHeight maxWalkCacheHeight
  unfold Position.getDistanceY Position.getOffsetY at *
  simp only
  split_ifs <;> omega

/-- The columns are shifted by `e`, and the one at `x` is filled. -/
theorem agreesBut_shifted (h : RowsShifted oldPos s.position s) (hadj : Adjacent oldPos s.position)
    (hbounded : s.world.Bounded) (hwrap : Unwrapped s.world oldPos s.position)
    (hdiag : ¬oldPos.y < s.position.y) {x e : ℤ} (hnew : NewColumn oldPos s.position x)
    (he : s.position.x = oldPos.x + e)
    (hwidth : ∀ dx : ℤ, dx.natAbs ≤ maxWalkCacheWidth → dx ≠ x →
      (dx + e).natAbs ≤ maxWalkCacheWidth)
    {shift : (ℕ → Bool) → ℕ → Bool}
    (hshift : ∀ dx dy : ℤ, Offset dx dy →
      shift (s.localMapCache (maxWalkCacheHeight + dy).toNat) (maxWalkCacheWidth + dx).toNat =
        if dx = x then s.localMapCache.cell dx dy else s.localMapCache.cell (dx + e) dy) :
    AgreesBut ((s.localMapCache.mapRows (shiftedRows s.position oldPos).1
      (shiftedRows s.position oldPos).2 shift).updateTiles s.world s.position
        (rows.map fun y => (x, y))) s.world s.position fun q => q = oldPos ∨ q = s.position := by
  intro dx dy hd hE
  refine (Cache.cell_updateTiles hd _ _ _).trans ?_
  by_cases hdx : dx = x
  · rw [if_pos ((mem_column hd _).2 hdx)]
    exact hwrap.tile hbounded hd (.inr (hdx ▸ hnew))
  · rw [if_neg (mt (mem_column hd _).1 hdx), Cache.cell_mapRows hd]
    -- The new row is not shifted once more, as the step is not to the south.
    by_cases hnew : NewRow oldPos s.position dy
    · rw [if_neg (mt (shiftedRows_iff hadj hdiag hd).1 (not_not.2 hnew))]
      exact h.new dx dy hd hnew
    · rw [if_pos ((shiftedRows_iff hadj hdiag hd).2 hnew), hshift dx dy hd, if_neg hdx]
      refine h.others (dx + e) dy ⟨hwidth dx hd.1 hdx, hd.2⟩ hnew _ ?_ rfl rfl hE
      simp only
      omega

/-- What is left of the cache, with a column shifted, is that seen from the new position. -/
theorem agreesBut_shiftColumns (h : RowsShifted oldPos newPos s) (hpos : s.position = newPos)
    (hadj : Adjacent oldPos newPos) (hbounded : s.world.Bounded)
    (hwrap : Unwrapped s.world oldPos newPos)
    (hdiag : ¬(oldPos.y < newPos.y ∧ oldPos.x ≠ newPos.x)) :
    AgreesBut (s.shiftColumns newPos oldPos).localMapCache s.world newPos
      fun q => q = oldPos ∨ q = newPos := by
  subst hpos
  have hx := hadj.x
  unfold Position.getDistanceX Position.getOffsetX at hx
  unfold shiftColumns
  by_cases heast : oldPos.x < s.position.x
  · simp only [if_pos heast]
    refine agreesBut_shifted h hadj hbounded hwrap (by omega) (.inr ⟨heast, rfl⟩) (e := 1)
      (by omega) (fun dx hd hne => ?_)
      fun dx dy hd => Cache.cell_shiftDown_columns hd
    unfold maxWalkCacheWidth at *
    omega
  · simp only [if_neg heast]
    by_cases hwest : oldPos.x > s.position.x
    · simp only [if_pos hwest]
      refine agreesBut_shifted h hadj hbounded hwrap (by omega) (.inl ⟨hwest, rfl⟩) (e := -1)
        (by omega) (fun dx hd hne => ?_)
        fun dx dy hd => Cache.cell_shiftUp_columns hd
      unfold maxWalkCacheWidth at *
      omega
    · rw [if_neg hwest]
      intro dx dy hd hE
      by_cases hnew : NewRow oldPos s.position dy
      · exact h.new dx dy hd hnew
      · refine h.others dx dy hd hnew _ ?_ rfl rfl hE
        simp only
        omega

theorem inv_updateMapCache (h : s.Clear s.position) (hbounded : s.world.Bounded) :
    s.updateMapCache.Inv := by
  intro _
  have hfilled := filled_updateMapCache s
  rw [agreesBut_iff, hfilled.world, hfilled.position]
  exact agreesBut_updateMapCache h hbounded

/-- What the summons of the monster leave as it is, seen from `p`. -/
structure Kept (p : Position) (s t : State) : Prop where
  position : t.position = p
  loaded : t.isMapLoaded = s.isMapLoaded
  bounded : s.world.Bounded → t.world.Bounded
  cell : ∀ dx dy, Offset dx dy → (dx ≠ 0 ∨ dy ≠ 0) →
    t.localMapCache.cell dx dy = s.localMapCache.cell dx dy

theorem bounded_set {w : World} (h : w.Bounded) (p : Position) (admitted : Bool) :
    (w.set p admitted).Bounded := by
  intro q hq
  unfold World.set
  by_cases heq : q = p
  · rw [heq, Function.update_self, h p (heq ▸ hq)]
    rfl
  · rw [Function.update_of_ne heq, h q hq]

theorem Kept.setTile {p : Position} {t : State} (h : Kept p s t) (pos : Position)
    (admitted : Bool) :
    Kept p s (t.setTile pos admitted) :=
  ⟨h.position, h.loaded, fun hbounded => bounded_set (h.bounded hbounded) _ _, h.cell⟩

/-- The square of the monster itself is updated. -/
theorem Kept.updateHere {p : Position} {t : State} (h : Kept p s t) :
    Kept p s (t.updateTileCache p) := by
  refine ⟨position_updateTileCache.trans h.position, isMapLoaded_updateTileCache.trans h.loaded,
    fun hbounded => world_updateTileCache.symm ▸ h.bounded hbounded, fun dx dy hd hne => ?_⟩
  refine Eq.trans ?_ (h.cell dx dy hd hne)
  unfold updateTileCache
  split
  · refine (Cache.cell_updateTileCache hd _ _ _).trans (if_neg ?_)
    rw [h.position]
    unfold Position.getOffsetX Position.getOffsetY
    omega
  · rfl

theorem Kept.checkSummonMove {p : Position} {t : State} (h : Kept p s t) (f : Follow)
    (summons : List Summon) : Kept p s (t.checkSummonMove p f summons) := by
  refine List.foldlRecOn _ _ (List.foldlRecOn _ _ h fun t h summon hsummon => ?_)
    fun t h summon hsummon => ?_
  · have hfollows := (List.mem_filter.1 hsummon).2
    simp only [Summon.follows, Bool.and_eq_true, Bool.or_eq_true, decide_eq_true_eq] at hfollows
    -- A summon follows from far away, where nothing is updated.
    have hfar : checkSummonDist p summon.position := hfollows.1.elim (·.2) (·.2)
    have hset := (h.setTile summon.position summon.admitted).setTile p f.admitted
    have hhere := hset.updateHere
    unfold State.teleportSummon onOtherMove
    rw [h.position]
    split
    · rwa [updateTileCache_far (hhere.position.symm ▸ hfar)]
    · exact hset
  · have hdespawns := (List.mem_filter.1 hsummon).2
    simp only [Summon.despawns, Bool.and_eq_true, decide_eq_true_eq] at hdespawns
    have hdist := hdespawns.2.2
    have hfar : checkSummonDist p summon.position := by
      unfold checkRemoveDist at hdist
      unfold checkSummonDist
      omega
    have hset := h.setTile summon.position summon.admitted
    unfold State.removeSummon onCreatureChange
    rwa [updateTileCache_far (hset.position.symm ▸ hfar), ite_self]

/-- What is remembered for squares past the ends of the coordinates stays while the monster
arrives. -/
structure Moved (s t : State) (p : Position) : Prop where
  position : t.position = p
  loaded : t.isMapLoaded = s.isMapLoaded
  bounded : s.world.Bounded → t.world.Bounded
  clear : s.Clear p → t.Clear p

theorem moved_moved (m : Move) : Moved s (s.moved m) m.last := by
  have harrive : Kept m.newPos s (s.arrive m) :=
    ⟨rfl, rfl, fun hbounded => bounded_set (bounded_set hbounded _ _) _ _, fun _ _ _ _ => rfl⟩
  have hsummons := harrive.checkSummonMove m.follow m.summons
  unfold moved Move.last
  cases m.lost with
  | none =>
    refine ⟨hsummons.position, hsummons.loaded, hsummons.bounded,
      fun hclear dx dy hdx hdy hne hrange => ?_⟩
    exact (hsummons.cell dx dy ⟨hdx, hdy⟩ hne).trans (hclear dx dy hdx hdy hne hrange)
  | some lost =>
    unfold handleLostSummon
    simp only
    split
    · have hfilled := filled_updateMapCache { (s.arrive m).checkSummonMove m.newPos m.follow
        m.summons with
        position := lost.masterPos
        world := (((s.arrive m).checkSummonMove m.newPos m.follow m.summons).world.set
          ((s.arrive m).checkSummonMove m.newPos m.follow m.summons).position
            lost.leftAdmitted).set lost.masterPos lost.masterAdmitted }
      refine ⟨hfilled.position, hfilled.loaded.trans hsummons.loaded, fun hbounded => ?_,
        fun hclear dx dy hdx hdy hne hrange => ?_⟩
      · rw [hfilled.world]
        exact bounded_set (bounded_set (hsummons.bounded hbounded) _ _) _ _
      · rw [hfilled.cell dx dy ⟨hdx, hdy⟩, if_neg fun h => hrange h.2]
        exact (hsummons.cell dx dy ⟨hdx, hdy⟩ hne).trans (hclear dx dy hdx hdy hne hrange)
    · refine ⟨rfl, hsummons.loaded, fun hbounded =>
        bounded_set (bounded_set (hsummons.bounded hbounded) _ _) _ _,
        fun hclear dx dy hdx hdy hne hrange => ?_⟩
      exact (hsummons.cell dx dy ⟨hdx, hdy⟩ hne).trans (hclear dx dy hdx hdy hne hrange)

theorem adjacent_of_not_teleport {m : Move} (hteleport : ¬m.teleport oldPos) :
    Adjacent oldPos m.newPos := by
  unfold Move.teleport at hteleport
  obtain ⟨hx, hy, hz⟩ := not_not.1 fun h => hteleport (.inr (.inr h))
  refine ⟨hx, hy, ?_⟩
  unfold Position.getDistanceZ at hz
  omega

theorem inv_move (h : s.Inv) (hbounded : s.world.Bounded) {m : Move} (hok : s.Fits (.move m)) :
    (s.onMove m).Inv := by
  have hmoved := moved_moved (s := s) m
  unfold onMove
  simp only
  split
  · rename_i hloaded
    rw [hmoved.loaded] at hloaded
    obtain ⟨hfill, hstep⟩ := hok hloaded
    split
    · rename_i hteleport
      refine inv_updateMapCache ?_ (hmoved.bounded hbounded)
      rw [hmoved.position]
      exact hmoved.clear (hfill hteleport)
    · rename_i hteleport
      obtain ⟨hlost, hdiag, hwrap⟩ := hstep hteleport
      have hadj := adjacent_of_not_teleport (not_or.1 hteleport).1
      have hstale : Stale s.position m.newPos (s.moved m) := by
        unfold moved
        rw [hlost]
        exact (stale_arrive (h hloaded) hloaded m).checkSummonMove hadj m.follow m.summons
      have hrows := rowsShifted_shiftRows hstale hadj (hmoved.bounded hbounded) hwrap
      have hcolumns := agreesBut_shiftColumns hrows (position_shiftRows.trans hstale.position) hadj
        (world_shiftRows.symm ▸ hmoved.bounded hbounded) (world_shiftRows.symm ▸ hwrap) hdiag
      -- What is left is the square that the monster leaves.
      intro _
      rw [agreesBut_iff, world_updateTileCache, position_updateTileCache]
      have hlast := agreesBut_updateTileCache (s := ((s.moved m).shiftRows m.newPos
        s.position).shiftColumns m.newPos s.position) (E := fun q => q = s.position ∨
          q = m.newPos) (by simpa [hstale.position] using hcolumns) s.position
      refine hlast.mono fun q hq => ?_
      rw [position_shiftColumns, position_shiftRows, hstale.position]
      exact hq.1.resolve_left hq.2
  · rename_i hloaded
    exact inv_notLoaded (Bool.eq_false_iff.2 hloaded)

theorem world_setTile (pos : Position) (admitted : Bool) :
    (s.setTile pos admitted).world = s.world.set pos admitted := rfl

theorem isMapLoaded_onMove (m : Move) : (s.onMove m).isMapLoaded = s.isMapLoaded := by
  have hmoved := (moved_moved (s := s) m).loaded
  unfold onMove
  simp only
  split
  · split
    · exact (filled_updateMapCache _).loaded.trans hmoved
    · rw [isMapLoaded_updateTileCache]
      unfold shiftColumns shiftRows
      split_ifs <;> exact hmoved
  · exact hmoved

/-- No tile comes to be past the ends of the coordinates. -/
theorem bounded_step (h : s.world.Bounded) (e : Event) : (s.step e).world.Bounded := by
  have hfill : ∀ t : State, t.world.Bounded → t.updateMapCache.world.Bounded := fun t ht =>
    (filled_updateMapCache t).world.symm ▸ ht
  cases e with
  | appear =>
    change s.onAppear.world.Bounded
    unfold onAppear
    split
    · exact hfill { s with isMapLoaded := true } h
    · exact h
  | think =>
    change s.onThink.world.Bounded
    unfold onThink
    split
    · exact hfill { s with isMapLoaded := true } h
    · exact h
  | stepping useCacheMap => exact h
  | move m =>
    change (s.onMove m).world.Bounded
    have hmoved := (moved_moved (s := s) m).bounded h
    unfold onMove
    simp only
    split_ifs
    · exact hfill _ hmoved
    · simpa using hmoved
    · exact hmoved
  | creature pos admitted =>
    change ((s.setTile pos admitted).onCreatureChange pos).world.Bounded
    unfold onCreatureChange
    split <;> simpa [world_setTile] using bounded_set h pos admitted
  | otherMove newPos oldPos newAdmitted oldAdmitted =>
    change (((s.setTile oldPos oldAdmitted).setTile newPos newAdmitted).onOtherMove newPos
      oldPos).world.Bounded
    unfold onOtherMove
    split <;> simpa [world_setTile] using
      bounded_set (bounded_set h oldPos oldAdmitted) newPos newAdmitted
  | addTileItem pos admitted =>
    change ((s.setTile pos admitted).onAddTileItem pos).world.Bounded
    unfold onAddTileItem
    split <;> simpa [world_setTile] using bounded_set h pos admitted
  | updateTileItem pos oldType newType admitted =>
    change ((s.setTile pos admitted).onUpdateTileItem pos oldType newType).world.Bounded
    unfold onUpdateTileItem
    split_ifs <;> simpa [world_setTile] using bounded_set h pos admitted
  | removeTileItem pos iType admitted =>
    change ((s.setTile pos admitted).onRemoveTileItem pos iType).world.Bounded
    unfold onRemoveTileItem
    split_ifs <;> simpa [world_setTile] using bounded_set h pos admitted

theorem inv_step (h : s.Inv) (hbounded : s.world.Bounded) {e : Event} (hok : s.Fits e) :
    (s.step e).Inv := by
  cases e with
  | appear =>
    change s.onAppear.Inv
    unfold onAppear
    split
    · rename_i huse
      exact inv_updateMapCache (s := { s with isMapLoaded := true }) (hok huse) hbounded
    · exact h
  | think =>
    change s.onThink.Inv
    unfold onThink
    split
    · rename_i huse
      rw [Bool.and_eq_true] at huse
      exact inv_updateMapCache (s := { s with isMapLoaded := true })
        (hok (by simpa using huse.1) huse.2) hbounded
    · exact h
  | stepping useCacheMap => exact h
  | move m => exact inv_move h hbounded hok
  | creature pos admitted => exact inv_creature h pos admitted
  | otherMove newPos oldPos newAdmitted oldAdmitted =>
    exact inv_otherMove h newPos oldPos newAdmitted oldAdmitted
  | addTileItem pos admitted => exact inv_addTileItem h pos admitted
  | updateTileItem pos oldType newType admitted => exact inv_updateTileItem h hok
  | removeTileItem pos iType admitted => exact inv_removeTileItem h hok

/-- What is remembered for a square of the window. -/
theorem getWalkCache_of_offset (h : s.Agrees) (huse : s.useCacheMap = true)
    (hz : s.position.z = pos.z) (hpos : pos ≠ s.position)
    (hd : Offset (pos.getOffsetX s.position) (pos.getOffsetY s.position)) :
    s.getWalkCache pos = (s.world.admits pos).toNat := by
  have hcell := (agreesBut_iff.1 h).cell hd hpos (by unfold Position.getOffsetX; omega)
    (by unfold Position.getOffsetY; omega) hz.symm
  unfold getWalkCache
  simp only
  rw [if_neg (by simp [huse]), if_neg (not_not.2 hz), if_neg hpos]
  exact (if_pos hd).trans (by rw [hcell])

/-- The cache answers as the map, but that other floors are not walked to. -/
theorem canWalkTo_eq (h : s.Agrees) (pos : Position) :
    s.canWalkTo pos =
      if s.useCacheMap = true ∧ s.position.z ≠ pos.z then none else s.queryWalkTo pos := by
  by_cases huse : s.useCacheMap = true
  · by_cases hz : s.position.z = pos.z
    · rw [if_neg fun hne => hne.2 hz]
      by_cases hpos : pos = s.position
      · have hcache : s.getWalkCache pos = 1 := by
          unfold getWalkCache
          rw [if_neg (by simp [huse]), if_neg (not_not.2 hz), if_pos hpos]
        unfold canWalkTo queryWalkTo
        rw [hcache, if_neg Nat.one_ne_zero, if_pos rfl, if_neg fun hne => hne.1 hpos]
      · by_cases hd : Offset (pos.getOffsetX s.position) (pos.getOffsetY s.position)
        · have hcache := getWalkCache_of_offset h huse hz hpos hd
          unfold canWalkTo queryWalkTo
          rw [hcache]
          cases s.world.admits pos with
          | false => simp [hpos]
          | true => simp
        · have hcache : s.getWalkCache pos = 2 := by
            unfold getWalkCache
            simp only
            rw [if_neg (by simp [huse]), if_neg (not_not.2 hz), if_neg hpos]
            exact if_neg hd
          unfold canWalkTo
          simp [hcache]
    · have hcache : s.getWalkCache pos = 0 := by
        unfold getWalkCache
        rw [if_neg (by simp [huse]), if_pos hz]
      unfold canWalkTo
      rw [hcache, if_pos rfl, if_pos ⟨huse, hz⟩]
  · have hcache : s.getWalkCache pos = 2 := by
      unfold getWalkCache
      rw [if_pos (by simp [huse])]
    unfold canWalkTo
    simp [hcache, huse]

end State

/-- A monster before its cache is filled; coordinates are of 16 bits. -/
def system : System State Event :=
  .ofNext (fun s => s.isMapLoaded = false ∧ s.world.Bounded) fun s e => some (s.step e)

/-- In every run whose steps all fit, a cache that is loaded is that of the map, and it answers as
the map does for the floor of the monster. -/
theorem cache_agrees {s : State} (hrun : system.ReachableVia State.Fits s)
    (hloaded : s.isMapLoaded = true) :
    s.Agrees ∧ ∀ pos, s.canWalkTo pos =
      if s.useCacheMap = true ∧ s.position.z ≠ pos.z then none else s.queryWalkTo pos := by
  have hinv : s.Inv ∧ s.world.Bounded := by
    refine hrun.invariant (I := fun s => s.Inv ∧ s.world.Bounded) (fun _ h => ?_)
      fun s e s' h hok hstep => ?_
    · exact ⟨State.inv_notLoaded h.1, h.2⟩
    · cases hstep
      exact ⟨State.inv_step h.1 h.2 hok, State.bounded_step h.2 e⟩
  exact ⟨hinv.1 hloaded, State.canWalkTo_eq (hinv.1 hloaded)⟩

/-- A field with a wall at one square. -/
def field : State where
  position := ⟨100, 100, 7⟩
  useCacheMap := true
  isMapLoaded := false
  localMapCache := fun _ _ => false
  world := fun p => if p.InRange then some (p ≠ ⟨106, 112, 7⟩) else none

/-- A step that leaves its square free. -/
def stepTo (newPos : Position) : State.Move where
  newPos := newPos
  forceTeleport := false
  ground := true
  oldAdmitted := true
  newAdmitted := false
  follow := ⟨false, false, false, false⟩
  summons := []
  lost := none

theorem init_field : system.init field := ⟨rfl, fun _ hp => if_neg hp⟩

/-- A monster appears, and steps to the north-east. -/
theorem cache_agrees_northEast :
    ((field.step .appear).step (.move (stepTo ⟨101, 99, 7⟩))).Agrees := by
  have happear : field.Fits .appear := fun _ dx dy hdx hdy _ hrange =>
    absurd (State.inRange_of_inland (p := field.position) (by decide) (by decide) ⟨hdx, hdy⟩) hrange
  have hfilled := State.filled_updateMapCache { field with isMapLoaded := true }
  have hposition : (field.step .appear).position = ⟨100, 100, 7⟩ := hfilled.position
  have hmove : (field.step .appear).Fits (.move (stepTo ⟨101, 99, 7⟩)) := by
    intro _
    rw [hposition]
    refine ⟨fun hteleport => absurd hteleport (by decide), fun _ => ⟨rfl, by decide, ?_⟩⟩
    intro dx dy hdx hdy _ hrange
    exact absurd (State.inRange_of_inland (p := ⟨101, 99, 7⟩) (by decide) (by decide) ⟨hdx, hdy⟩)
      hrange
  have hloaded : ((field.step .appear).step (.move (stepTo ⟨101, 99, 7⟩))).isMapLoaded = true := by
    change (State.onMove (field.step .appear) (stepTo ⟨101, 99, 7⟩)).isMapLoaded = true
    rw [State.isMapLoaded_onMove]
    change (State.updateMapCache { field with isMapLoaded := true }).isMapLoaded = true
    rw [hfilled.loaded]
  exact (cache_agrees (.step (.step (.init init_field) (a := .appear) happear rfl)
    (a := .move (stepTo ⟨101, 99, 7⟩)) hmove rfl) hloaded).1

/-- After a step to the south-east the wall is walked to. -/
theorem southEast_disagrees :
    system.Reachable ((field.step .appear).step (.move (stepTo ⟨101, 101, 7⟩))) ∧
      ¬((field.step .appear).step (.move (stepTo ⟨101, 101, 7⟩))).Agrees ∧
      ((field.step .appear).step (.move (stepTo ⟨101, 101, 7⟩))).canWalkTo ⟨106, 112, 7⟩ ≠
        ((field.step .appear).step (.move (stepTo ⟨101, 101, 7⟩))).queryWalkTo ⟨106, 112, 7⟩ := by
  refine ⟨.step (.step (.init init_field) (a := .appear) trivial rfl)
    (a := .move (stepTo ⟨101, 101, 7⟩)) trivial rfl, fun hagrees => ?_, by decide +kernel⟩
  have hcell := hagrees 5 11 (by decide) (by decide) (by decide)
  exact absurd hcell (by decide +kernel)

end Canary.Map.WalkCache
