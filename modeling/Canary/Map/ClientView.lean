import Canary.Map.Description
import Mathlib.Algebra.Order.Group.Abs

/-!
# What a client sees of the map

A player sees a part of each floor that is 18 squares wide and 14 high, shifted with the floor:
above the ground all floors up from it, below it two floors up and two down (`canSee`). A client
gets the tiles of this part when the player enters the game or is teleported, with one
description, which describes the squares that the player sees and no others
(`mem_mapDescription`).

When the player walks, only what comes into view is described: a row or a column on every floor,
and after a step to another floor the floors that were not seen before, at the place where they
were, with a row and a column because the view has shifted. Nothing is forgotten: every square
that the player sees after a step in any of the 26 directions was seen before it or is described
(`canSee_of_move`).
-/

namespace Canary.Map

open ProtocolGame (castPosition floors positions)

def MAP_MAX_CLIENT_VIEW_PORT_X : ℤ := 8
def MAP_MAX_CLIENT_VIEW_PORT_Y : ℤ := 6

/-- `ProtocolGame::canSee`, of a player who is at `myPos`. -/
def canSee (myPos : Position) (x y z : ℤ) : Bool :=
  -- From ground level or above, nothing below it is seen; underground, two floors up and down.
  if myPos.iz ≤ MAP_INIT_SURFACE_LAYER ∧ z > MAP_INIT_SURFACE_LAYER then false
  else if myPos.iz ≥ MAP_INIT_SURFACE_LAYER + 1 ∧ |myPos.iz - z| > MAP_LAYER_VIEW_LIMIT then false
  else
    let offsetz := Spectators.toInt8 (myPos.iz - z)
    decide (x ≥ myPos.ix - MAP_MAX_CLIENT_VIEW_PORT_X + offsetz ∧
      x ≤ myPos.ix + (MAP_MAX_CLIENT_VIEW_PORT_X + 1) + offsetz ∧
      y ≥ myPos.iy - MAP_MAX_CLIENT_VIEW_PORT_Y + offsetz ∧
      y ≤ myPos.iy + (MAP_MAX_CLIENT_VIEW_PORT_Y + 1) + offsetz)

/-- A position is seen from another. -/
def Position.sees (myPos pos : Position) : Bool := canSee myPos pos.ix pos.iy pos.iz

/-! ## Descriptions -/

/-- How wide and how high a view is. -/
def viewWidth : ℕ := ((MAP_MAX_CLIENT_VIEW_PORT_X + 1) * 2).toNat
def viewHeight : ℕ := ((MAP_MAX_CLIENT_VIEW_PORT_Y + 1) * 2).toNat

/-- The positions that `GetFloorDescription` describes. -/
def floorPositions (x y z : ℤ) (width height : ℕ) (offset : ℤ) : List Position :=
  (List.range width).flatMap fun nx =>
    (List.range height).map fun ny => castPosition (x + nx + offset) (y + ny + offset) z

/-- What `sendMapDescription` describes. -/
def mapDescription (pos : Position) : List Position :=
  positions (pos.ix - MAP_MAX_CLIENT_VIEW_PORT_X) (pos.iy - MAP_MAX_CLIENT_VIEW_PORT_Y) pos.iz
    viewWidth viewHeight

/-- Floors that come into view as a whole, each with its offset. -/
def floorsFrom (oldPos : Position) (l : List (ℤ × ℤ)) : List Position :=
  l.flatMap fun (z, offset) => floorPositions (oldPos.ix - MAP_MAX_CLIENT_VIEW_PORT_X)
    (oldPos.iy - MAP_MAX_CLIENT_VIEW_PORT_Y) z viewWidth viewHeight offset

/-- What `MoveUpCreature` describes. -/
def moveUpCreature (newPos oldPos : Position) : List Position :=
  -- Going to the surface, floors 7 and 6 are already set.
  (if newPos.iz = MAP_INIT_SURFACE_LAYER then
    floorsFrom oldPos [(5, 3), (4, 4), (3, 5), (2, 6), (1, 7), (0, 8)]
  else if newPos.iz > MAP_INIT_SURFACE_LAYER then floorsFrom oldPos [(oldPos.iz - 3, 3)]
  else []) ++
  -- West, and north.
  (positions (oldPos.ix - MAP_MAX_CLIENT_VIEW_PORT_X)
    (oldPos.iy - (MAP_MAX_CLIENT_VIEW_PORT_Y - 1)) newPos.iz 1 viewHeight ++
  positions (oldPos.ix - MAP_MAX_CLIENT_VIEW_PORT_X) (oldPos.iy - MAP_MAX_CLIENT_VIEW_PORT_Y)
    newPos.iz viewWidth 1)

/-- What `MoveDownCreature` describes. -/
def moveDownCreature (newPos oldPos : Position) : List Position :=
  -- From the surface to underground, or further down.
  (if newPos.iz = MAP_INIT_SURFACE_LAYER + 1 then
    floorsFrom oldPos [(newPos.iz, -1), (newPos.iz + 1, -2), (newPos.iz + 2, -3)]
  else if newPos.iz > oldPos.iz ∧ newPos.iz > MAP_INIT_SURFACE_LAYER + 1 ∧
      newPos.iz < MAP_MAX_LAYERS - MAP_LAYER_VIEW_LIMIT then
    floorsFrom oldPos [(newPos.iz + MAP_LAYER_VIEW_LIMIT, -3)]
  else []) ++
  -- East, and south.
  (positions (oldPos.ix + MAP_MAX_CLIENT_VIEW_PORT_X + 1)
    (oldPos.iy - (MAP_MAX_CLIENT_VIEW_PORT_Y + 1)) newPos.iz 1 viewHeight ++
  positions (oldPos.ix - MAP_MAX_CLIENT_VIEW_PORT_X) (oldPos.iy + (MAP_MAX_CLIENT_VIEW_PORT_Y + 1))
    newPos.iz viewWidth 1)

/-- The row that comes into view after a step to the north or to the south, for the old `x`. -/
def newRow (newPos oldPos : Position) : List Position :=
  if oldPos.iy > newPos.iy then
    positions (oldPos.ix - MAP_MAX_CLIENT_VIEW_PORT_X) (newPos.iy - MAP_MAX_CLIENT_VIEW_PORT_Y)
      newPos.iz viewWidth 1
  else if oldPos.iy < newPos.iy then
    positions (oldPos.ix - MAP_MAX_CLIENT_VIEW_PORT_X)
      (newPos.iy + (MAP_MAX_CLIENT_VIEW_PORT_Y + 1)) newPos.iz viewWidth 1
  else []

/-- The column that comes into view after a step to the east or to the west, with the new `y`. -/
def newColumn (newPos oldPos : Position) : List Position :=
  if oldPos.ix < newPos.ix then
    positions (newPos.ix + (MAP_MAX_CLIENT_VIEW_PORT_X + 1))
      (newPos.iy - MAP_MAX_CLIENT_VIEW_PORT_Y) newPos.iz 1 viewHeight
  else if oldPos.ix > newPos.ix then
    positions (newPos.ix - MAP_MAX_CLIENT_VIEW_PORT_X) (newPos.iy - MAP_MAX_CLIENT_VIEW_PORT_Y)
      newPos.iz 1 viewHeight
  else []

/-- What `sendMoveCreature` describes to the player who moves. -/
def sendMoveCreature (newPos oldPos : Position) (oldStackPos : ℤ) (teleport : Bool) :
    List Position :=
  if oldStackPos ≥ 10 then mapDescription newPos
  else if teleport then mapDescription newPos
  else
    (if newPos.iz > oldPos.iz then moveDownCreature newPos oldPos
    else if newPos.iz < oldPos.iz then moveUpCreature newPos oldPos
    else []) ++ (newRow newPos oldPos ++ newColumn newPos oldPos)

/-! ## The view -/

/-- The counters of a loop, as integers. -/
theorem mem_range_cast {n : ℕ} {i : ℤ} :
    i ∈ (do let a ← List.range n; pure (a : ℤ) : List ℤ) ↔ 0 ≤ i ∧ i < n := by
  simp only [List.bind_eq_flatMap, List.pure_def, List.mem_flatMap, List.mem_range,
    List.mem_singleton]
  constructor
  · rintro ⟨a, ha, rfl⟩
    omega
  · intro hi
    exact ⟨i.toNat, by omega, by omega⟩

/-- The floors that are seen from a floor. -/
theorem mem_floors {z f : ℤ} (hz : z < MAP_MAX_LAYERS) (hf₀ : 0 ≤ f) (hf : f < MAP_MAX_LAYERS) :
    f ∈ floors z ↔ z ≤ 7 ∧ f ≤ 7 ∨ 7 < z ∧ z - 2 ≤ f ∧ f ≤ z + 2 := by
  rw [MAP_MAX_LAYERS] at hz hf
  rw [floors, MAP_INIT_SURFACE_LAYER, MAP_LAYER_VIEW_LIMIT, MAP_MAX_LAYERS]
  split_ifs with h
  · rw [List.mem_map]
    constructor
    · rintro ⟨i, hi, rfl⟩
      rw [mem_range_cast] at hi
      omega
    · intro hcases
      exact ⟨f - (z - 2), mem_range_cast.2 (by omega), by omega⟩
  · rw [List.mem_map]
    constructor
    · rintro ⟨i, hi, rfl⟩
      rw [mem_range_cast] at hi
      omega
    · intro hcases
      exact ⟨7 - f, mem_range_cast.2 (by omega), by omega⟩

/-- A floor that is seen, and the rectangle on it. -/
theorem canSee_iff {myPos : Position} (hmy : myPos.iz < MAP_MAX_LAYERS) {x y z : ℤ} (hz₀ : 0 ≤ z)
    (hz : z < MAP_MAX_LAYERS) :
    canSee myPos x y z = true ↔ z ∈ floors myPos.iz ∧
      (myPos.ix - 8 ≤ x - (myPos.iz - z) ∧ x - (myPos.iz - z) ≤ myPos.ix + 9) ∧
      myPos.iy - 6 ≤ y - (myPos.iz - z) ∧ y - (myPos.iz - z) ≤ myPos.iy + 7 := by
  rw [mem_floors hmy hz₀ hz]
  rw [MAP_MAX_LAYERS] at hmy hz
  have hmy₀ : 0 ≤ myPos.iz := Int.natCast_nonneg _
  have hint8 : Spectators.toInt8 (myPos.iz - z) = myPos.iz - z := by
    rw [Spectators.toInt8]
    exact Int.bmod_eq_of_le (by omega) (by omega)
  rw [canSee, hint8, MAP_INIT_SURFACE_LAYER, MAP_LAYER_VIEW_LIMIT, MAP_MAX_CLIENT_VIEW_PORT_X,
    MAP_MAX_CLIENT_VIEW_PORT_Y]
  have habs : |myPos.iz - z| > 2 ↔ myPos.iz - z > 2 ∨ z - myPos.iz > 2 := by
    rw [gt_iff_lt, lt_abs, neg_sub]
  split_ifs with h₁ h₂
  · exact ⟨fun h => h.elim, fun h => by omega⟩
  · rw [habs] at h₂
    exact ⟨fun h => h.elim, fun h => by omega⟩
  · rw [habs] at h₂
    rw [decide_eq_true_iff]
    omega

/-- The coordinates of a position are those of no other. -/
theorem castPosition_self (pos : Position) : castPosition pos.ix pos.iy pos.iz = pos := by
  have hx : (pos.ix % 2 ^ 16).toNat = pos.x.toNat := by
    have := pos.x.toNat_lt
    rw [Position.ix]
    omega
  have hy : (pos.iy % 2 ^ 16).toNat = pos.y.toNat := by
    have := pos.y.toNat_lt
    rw [Position.iy]
    omega
  have hz : (pos.iz % 2 ^ 8).toNat = pos.z.toNat := by
    have := pos.z.toNat_lt
    rw [Position.iz]
    omega
  rw [castPosition, hx, hy, hz, UInt16.ofNat_toNat, UInt16.ofNat_toNat, UInt8.ofNat_toNat]

theorem mem_floorPositions {x y z : ℤ} {width height : ℕ} {offset : ℤ} {pos : Position} :
    pos ∈ floorPositions x y z width height offset ↔ ∃ x' y' : ℤ,
      (x + offset ≤ x' ∧ x' < x + offset + width) ∧ (y + offset ≤ y' ∧ y' < y + offset + height) ∧
        castPosition x' y' z = pos := by
  simp only [floorPositions, List.mem_flatMap, List.mem_map, mem_range_cast]
  constructor
  · rintro ⟨nx, hnx, ny, hny, rfl⟩
    exact ⟨_, _, by omega, by omega, rfl⟩
  · rintro ⟨x', y', hx, hy, rfl⟩
    refine ⟨x' - (x + offset), by omega, y' - (y + offset), by omega, ?_⟩
    congr 1 <;> omega

theorem mem_positions {x y z : ℤ} {width height : ℕ} {pos : Position} :
    pos ∈ positions x y z width height ↔
      ∃ f ∈ floors z, pos ∈ floorPositions x y f width height (z - f) := by
  rw [positions, List.mem_flatMap]
  rfl

/-- A position on a floor that is seen, inside the rectangle. -/
theorem mem_positions_of {x y z : ℤ} {width height : ℕ} {pos : Position}
    (hf : pos.iz ∈ floors z)
    (hx : x ≤ pos.ix - (z - pos.iz) ∧ pos.ix - (z - pos.iz) < x + width)
    (hy : y ≤ pos.iy - (z - pos.iz) ∧ pos.iy - (z - pos.iz) < y + height) :
    pos ∈ positions x y z width height :=
  mem_positions.2 ⟨_, hf, mem_floorPositions.2 ⟨_, _, by omega, by omega, castPosition_self pos⟩⟩

/-- A square that is seen is described. -/
theorem mem_mapDescription_of_sees {myPos : Position} (hmy : myPos.iz < MAP_MAX_LAYERS)
    {x y z : ℤ} (hz₀ : 0 ≤ z) (hz : z < MAP_MAX_LAYERS) (h : canSee myPos x y z = true) :
    castPosition x y z ∈ mapDescription myPos := by
  have hw : (viewWidth : ℤ) = 18 := rfl
  have hh : (viewHeight : ℤ) = 14 := rfl
  obtain ⟨hf, hx, hy⟩ := (canSee_iff hmy hz₀ hz).1 h
  rw [mapDescription, MAP_MAX_CLIENT_VIEW_PORT_X, MAP_MAX_CLIENT_VIEW_PORT_Y]
  exact mem_positions.2 ⟨z, hf, mem_floorPositions.2 ⟨x, y, by omega, by omega, rfl⟩⟩

theorem mem_mapDescription_of_position {myPos : Position} (hmy : myPos.iz < MAP_MAX_LAYERS)
    {pos : Position} (hpos : pos.iz < MAP_MAX_LAYERS) (h : myPos.sees pos = true) :
    pos ∈ mapDescription myPos := by
  have hpos₀ : 0 ≤ pos.iz := Int.natCast_nonneg _
  have hmem := mem_mapDescription_of_sees hmy hpos₀ hpos h
  rwa [castPosition_self] at hmem

/-- The floors that are seen are floors there are. -/
theorem floor_mem_bounds {z f : ℤ} (hf : f ∈ floors z) :
    0 ≤ f ∧ f < MAP_MAX_LAYERS := by
  rw [floors, MAP_INIT_SURFACE_LAYER, MAP_LAYER_VIEW_LIMIT, MAP_MAX_LAYERS] at hf
  rw [MAP_MAX_LAYERS]
  split_ifs at hf with h
  · obtain ⟨i, hi, rfl⟩ := List.mem_map.1 hf
    rw [mem_range_cast] at hi
    omega
  · obtain ⟨i, hi, rfl⟩ := List.mem_map.1 hf
    rw [mem_range_cast] at hi
    omega

/-- The description of the map goes to the squares that are seen, on the floors there are, and
    to no others. Off the edge of the map it goes on at the other edge. -/
theorem mem_mapDescription {myPos : Position} (hmy : myPos.iz < MAP_MAX_LAYERS) {pos : Position} :
    pos ∈ mapDescription myPos ↔ ∃ x y z : ℤ, (0 ≤ z ∧ z < MAP_MAX_LAYERS) ∧
      canSee myPos x y z = true ∧ castPosition x y z = pos := by
  have hw : (viewWidth : ℤ) = 18 := rfl
  have hh : (viewHeight : ℤ) = 14 := rfl
  constructor
  · intro h
    rw [mapDescription, mem_positions, MAP_MAX_CLIENT_VIEW_PORT_X,
      MAP_MAX_CLIENT_VIEW_PORT_Y] at h
    obtain ⟨f, hf, hpos⟩ := h
    obtain ⟨x, y, hx, hy, hcast⟩ := mem_floorPositions.1 hpos
    obtain ⟨hf₀, hf₁⟩ := floor_mem_bounds hf
    exact ⟨x, y, f, ⟨hf₀, hf₁⟩, (canSee_iff hmy hf₀ hf₁).2 ⟨hf, by omega, by omega⟩, hcast⟩
  · rintro ⟨x, y, z, ⟨hz₀, hz⟩, hsee, rfl⟩
    exact mem_mapDescription_of_sees hmy hz₀ hz hsee

/-- At the corner of the map, the squares to the north and to the west are those of the other
    edges. -/
theorem mem_mapDescription_corner :
    let myPos : Position := ⟨0, 0, 7⟩
    myPos.iz < MAP_MAX_LAYERS ∧ (⟨65528, 65530, 7⟩ : Position) ∈ mapDescription myPos := by
  intro myPos
  have hmy : myPos.iz < MAP_MAX_LAYERS := by decide
  exact ⟨hmy, (mem_mapDescription hmy).2
    ⟨-8, -6, 7, ⟨by decide, by decide⟩, by decide, by decide⟩⟩

/-! ## Steps -/

section Step

variable {newPos oldPos pos : Position}

/-- Where a position is in a rectangle that is shifted with the floor, as seen from `myPos`. -/
def Position.shiftedX (myPos pos : Position) : ℤ := pos.ix - (myPos.iz - pos.iz)
def Position.shiftedY (myPos pos : Position) : ℤ := pos.iy - (myPos.iz - pos.iz)

/-- The position is in the rectangle with the corners `(x₀, y₀)` and `(x₁, y₁)`. -/
def Inside (myPos pos : Position) (x₀ x₁ y₀ y₁ : ℤ) : Prop :=
  (x₀ ≤ myPos.shiftedX pos ∧ myPos.shiftedX pos ≤ x₁) ∧
    y₀ ≤ myPos.shiftedY pos ∧ myPos.shiftedY pos ≤ y₁

theorem sees_iff (hmy : newPos.iz < MAP_MAX_LAYERS) (hpos : pos.iz < MAP_MAX_LAYERS) :
    newPos.sees pos = true ↔ pos.iz ∈ floors newPos.iz ∧
      Inside newPos pos (newPos.ix - 8) (newPos.ix + 9) (newPos.iy - 6) (newPos.iy + 7) :=
  canSee_iff hmy (Int.natCast_nonneg _) hpos

/-- A row or a column of the floors that are seen. -/
theorem mem_positions_of_inside {x y : ℤ} {width height : ℕ} (hf : pos.iz ∈ floors newPos.iz)
    (h : Inside newPos pos x (x + width - 1) y (y + height - 1)) :
    pos ∈ positions x y newPos.iz width height := by
  obtain ⟨hx, hy⟩ := h
  rw [Position.shiftedX] at hx
  rw [Position.shiftedY] at hy
  exact mem_positions_of hf (by omega) (by omega)

/-- A floor that is described where it was. -/
theorem mem_floorsFrom {l : List (ℤ × ℤ)} (offset : ℤ) (hl : (pos.iz, offset) ∈ l)
    (hx : oldPos.ix - 8 + offset ≤ pos.ix ∧ pos.ix ≤ oldPos.ix + 9 + offset)
    (hy : oldPos.iy - 6 + offset ≤ pos.iy ∧ pos.iy ≤ oldPos.iy + 7 + offset) :
    pos ∈ floorsFrom oldPos l := by
  have hw : (viewWidth : ℤ) = 18 := rfl
  have hh : (viewHeight : ℤ) = 14 := rfl
  refine List.mem_flatMap.2 ⟨_, hl, mem_floorPositions.2 ⟨_, _, ?_, ?_, castPosition_self pos⟩⟩
  · rw [MAP_MAX_CLIENT_VIEW_PORT_X]
    omega
  · rw [MAP_MAX_CLIENT_VIEW_PORT_Y]
    omega

theorem mem_newRow (hf : pos.iz ∈ floors newPos.iz) {y : ℤ}
    (h : Inside newPos pos (oldPos.ix - 8) (oldPos.ix + 9) y y)
    (hy : newPos.iy < oldPos.iy ∧ y = newPos.iy - 6 ∨ oldPos.iy < newPos.iy ∧ y = newPos.iy + 7) :
    pos ∈ newRow newPos oldPos := by
  have hw : (viewWidth : ℤ) = 18 := rfl
  have hone : ((1 : ℕ) : ℤ) = 1 := rfl
  have hin : Inside newPos pos (oldPos.ix - 8) (oldPos.ix - 8 + viewWidth - 1) y
      (y + (1 : ℕ) - 1) := by
    rw [Inside] at h ⊢
    omega
  rw [newRow, MAP_MAX_CLIENT_VIEW_PORT_X, MAP_MAX_CLIENT_VIEW_PORT_Y]
  obtain ⟨hnorth, rfl⟩ | ⟨hsouth, rfl⟩ := hy
  · rw [if_pos hnorth]
    exact mem_positions_of_inside hf hin
  · rw [if_neg (by omega), if_pos hsouth]
    exact mem_positions_of_inside hf hin

theorem mem_newColumn (hf : pos.iz ∈ floors newPos.iz) {x : ℤ}
    (h : Inside newPos pos x x (newPos.iy - 6) (newPos.iy + 7))
    (hx : oldPos.ix < newPos.ix ∧ x = newPos.ix + 9 ∨ newPos.ix < oldPos.ix ∧ x = newPos.ix - 8) :
    pos ∈ newColumn newPos oldPos := by
  have hh : (viewHeight : ℤ) = 14 := rfl
  have hone : ((1 : ℕ) : ℤ) = 1 := rfl
  have hin : Inside newPos pos x (x + (1 : ℕ) - 1) (newPos.iy - 6)
      (newPos.iy - 6 + viewHeight - 1) := by
    rw [Inside] at h ⊢
    omega
  rw [newColumn, MAP_MAX_CLIENT_VIEW_PORT_X, MAP_MAX_CLIENT_VIEW_PORT_Y]
  obtain ⟨heast, rfl⟩ | ⟨hwest, rfl⟩ := hx
  · rw [if_pos heast]
    exact mem_positions_of_inside hf hin
  · rw [if_neg (by omega), if_pos hwest]
    exact mem_positions_of_inside hf hin

/-- What is seen after a step of one square is in the new row or column, or where it would be
    seen without a step to the side. -/
theorem newRow_newColumn (hf : pos.iz ∈ floors newPos.iz)
    (h : Inside newPos pos (newPos.ix - 8) (newPos.ix + 9) (newPos.iy - 6) (newPos.iy + 7))
    (hx : |newPos.ix - oldPos.ix| ≤ 1) (hy : |newPos.iy - oldPos.iy| ≤ 1) :
    pos ∈ newRow newPos oldPos ++ newColumn newPos oldPos ∨
      Inside newPos pos (oldPos.ix - 8) (oldPos.ix + 9) (oldPos.iy - 6) (oldPos.iy + 7) := by
  rw [abs_le] at hx hy
  by_cases hcolumn : Inside newPos pos (oldPos.ix - 8) (oldPos.ix + 9) (newPos.iy - 6)
      (newPos.iy + 7)
  · by_cases hrow : Inside newPos pos (oldPos.ix - 8) (oldPos.ix + 9) (oldPos.iy - 6)
        (oldPos.iy + 7)
    · exact .inr hrow
    · -- One row to the north or to the south.
      refine .inl (List.mem_append_left _ (mem_newRow hf (y := newPos.shiftedY pos) ?_ ?_))
      · exact ⟨hcolumn.1, le_rfl, le_rfl⟩
      · rw [Inside] at hrow hcolumn
        omega
  · -- One column to the east or to the west.
    refine .inl (List.mem_append_right _ (mem_newColumn hf (x := newPos.shiftedX pos) ?_ ?_))
    · exact ⟨⟨le_rfl, le_rfl⟩, h.2⟩
    · rw [Inside] at h hcolumn
      omega

variable (hold : oldPos.iz < MAP_MAX_LAYERS) (hpos : pos.iz < MAP_MAX_LAYERS)
include hold hpos

/-- A floor that was seen before the step, at the place where it was. -/
theorem sees_of_inside (hf : pos.iz ∈ floors oldPos.iz) {d : ℤ}
    (hd : newPos.iz - oldPos.iz = d)
    (h : Inside newPos pos (oldPos.ix - 8 - d) (oldPos.ix + 9 - d) (oldPos.iy - 6 - d)
      (oldPos.iy + 7 - d)) : oldPos.sees pos = true := by
  rw [sees_iff hold hpos, Inside, Position.shiftedX, Position.shiftedY]
  rw [Inside, Position.shiftedX, Position.shiftedY] at h
  exact ⟨hf, by omega, by omega⟩

variable (hnew : newPos.iz < MAP_MAX_LAYERS)
include hnew

/-- After a step down: the floors that were seen, or those that come into view. -/
theorem sees_or_moveDown (hd : newPos.iz - oldPos.iz = 1) (hf : pos.iz ∈ floors newPos.iz)
    (h : Inside newPos pos (oldPos.ix - 8) (oldPos.ix + 9) (oldPos.iy - 6) (oldPos.iy + 7)) :
    oldPos.sees pos = true ∨ pos ∈ moveDownCreature newPos oldPos := by
  have hw : (viewWidth : ℤ) = 18 := rfl
  have hh : (viewHeight : ℤ) = 14 := rfl
  have hone : ((1 : ℕ) : ℤ) = 1 := rfl
  have hpos₀ : 0 ≤ pos.iz := Int.natCast_nonneg _
  by_cases hsouth : newPos.shiftedY pos = oldPos.iy + 7
  · -- The row to the south.
    refine .inr (List.mem_append_right _ (List.mem_append_right _ ?_))
    rw [MAP_MAX_CLIENT_VIEW_PORT_X, MAP_MAX_CLIENT_VIEW_PORT_Y]
    refine mem_positions_of_inside hf ?_
    rw [Inside] at h ⊢
    omega
  by_cases heast : newPos.shiftedX pos = oldPos.ix + 9
  · -- The column to the east.
    refine .inr (List.mem_append_right _ (List.mem_append_left _ ?_))
    rw [MAP_MAX_CLIENT_VIEW_PORT_X, MAP_MAX_CLIENT_VIEW_PORT_Y]
    refine mem_positions_of_inside hf ?_
    rw [Inside] at h ⊢
    omega
  by_cases hfold : pos.iz ∈ floors oldPos.iz
  · refine .inl (sees_of_inside hold hpos hfold hd ?_)
    rw [Inside] at h ⊢
    omega
  · refine .inr (List.mem_append_left _ ?_)
    rw [mem_floors hnew hpos₀ hpos] at hf
    rw [mem_floors hold hpos₀ hpos] at hfold
    rw [Inside, Position.shiftedX, Position.shiftedY] at h
    rw [Position.shiftedX] at heast
    rw [Position.shiftedY] at hsouth
    rw [MAP_INIT_SURFACE_LAYER, MAP_LAYER_VIEW_LIMIT]
    rw [MAP_MAX_LAYERS] at hold hnew hpos ⊢
    split_ifs with h₁ h₂
    · refine mem_floorsFrom (oldPos.iz - pos.iz) ?_ (by omega) (by omega)
      obtain h₈ | h₉ | h₁₀ : pos.iz = newPos.iz ∨ pos.iz = newPos.iz + 1 ∨
        pos.iz = newPos.iz + 2 := by omega
      · exact List.mem_cons.2 (.inl (Prod.ext h₈ (by dsimp only; omega)))
      · exact List.mem_cons_of_mem _ (List.mem_cons.2 (.inl (Prod.ext h₉ (by dsimp only; omega))))
      · exact List.mem_cons_of_mem _ (List.mem_cons_of_mem _
          (List.mem_singleton.2 (Prod.ext h₁₀ (by dsimp only; omega))))
    · refine mem_floorsFrom (-3) ?_ (by omega) (by omega)
      exact List.mem_singleton.2 (Prod.ext (by dsimp only; omega) rfl)
    · omega

/-- After a step up: the floors that were seen, or those that come into view. -/
theorem sees_or_moveUp (hd : newPos.iz - oldPos.iz = -1) (hf : pos.iz ∈ floors newPos.iz)
    (h : Inside newPos pos (oldPos.ix - 8) (oldPos.ix + 9) (oldPos.iy - 6) (oldPos.iy + 7)) :
    oldPos.sees pos = true ∨ pos ∈ moveUpCreature newPos oldPos := by
  have hw : (viewWidth : ℤ) = 18 := rfl
  have hh : (viewHeight : ℤ) = 14 := rfl
  have hone : ((1 : ℕ) : ℤ) = 1 := rfl
  have hpos₀ : 0 ≤ pos.iz := Int.natCast_nonneg _
  by_cases hnorth : newPos.shiftedY pos = oldPos.iy - 6
  · -- The row to the north.
    refine .inr (List.mem_append_right _ (List.mem_append_right _ ?_))
    rw [MAP_MAX_CLIENT_VIEW_PORT_X, MAP_MAX_CLIENT_VIEW_PORT_Y]
    refine mem_positions_of_inside hf ?_
    rw [Inside] at h ⊢
    omega
  by_cases hwest : newPos.shiftedX pos = oldPos.ix - 8
  · -- The column to the west.
    refine .inr (List.mem_append_right _ (List.mem_append_left _ ?_))
    rw [MAP_MAX_CLIENT_VIEW_PORT_X, MAP_MAX_CLIENT_VIEW_PORT_Y]
    refine mem_positions_of_inside hf ?_
    rw [Inside] at h ⊢
    omega
  by_cases hfold : pos.iz ∈ floors oldPos.iz
  · refine .inl (sees_of_inside hold hpos hfold hd ?_)
    rw [Inside] at h ⊢
    omega
  · refine .inr (List.mem_append_left _ ?_)
    rw [mem_floors hnew hpos₀ hpos] at hf
    rw [mem_floors hold hpos₀ hpos] at hfold
    rw [Inside, Position.shiftedX, Position.shiftedY] at h
    rw [Position.shiftedX] at hwest
    rw [Position.shiftedY] at hnorth
    rw [MAP_INIT_SURFACE_LAYER]
    rw [MAP_MAX_LAYERS] at hold hnew hpos
    split_ifs with h₁ h₂
    · refine mem_floorsFrom (oldPos.iz - pos.iz) ?_ (by omega) (by omega)
      -- The floors from 5 up to 0.
      have hoffset : oldPos.iz - pos.iz = 8 - pos.iz := by omega
      rw [hoffset]
      obtain h₀ | h₁ | h₂ | h₃ | h₄ | h₅ : pos.iz = 0 ∨ pos.iz = 1 ∨ pos.iz = 2 ∨ pos.iz = 3 ∨
        pos.iz = 4 ∨ pos.iz = 5 := by omega
      all_goals simp [*]
    · refine mem_floorsFrom 3 ?_ (by omega) (by omega)
      exact List.mem_singleton.2 (Prod.ext (by dsimp only; omega) rfl)
    · omega

/-- On the same floor, what is seen after a step was seen before it, or is in the new row or
    column. -/
theorem sees_or_mem_of_walk (hz : newPos.iz = oldPos.iz) (hx : |newPos.ix - oldPos.ix| ≤ 1)
    (hy : |newPos.iy - oldPos.iy| ≤ 1) (hsee : newPos.sees pos = true) :
    oldPos.sees pos = true ∨ pos ∈ newRow newPos oldPos ++ newColumn newPos oldPos := by
  obtain ⟨hf, hin⟩ := (sees_iff hnew hpos).1 hsee
  refine (newRow_newColumn hf hin hx hy).symm.imp_left fun hin => ?_
  refine sees_of_inside hold hpos (hz ▸ hf) (sub_eq_zero.2 hz) ?_
  rw [Inside] at hin ⊢
  omega

/-- Every square that a player sees after a step was seen before it, or is described. -/
theorem canSee_of_move (hx : |newPos.ix - oldPos.ix| ≤ 1) (hy : |newPos.iy - oldPos.iy| ≤ 1)
    (hz : |newPos.iz - oldPos.iz| ≤ 1) (oldStackPos : ℤ) (teleport : Bool)
    (hsee : newPos.sees pos = true) :
    oldPos.sees pos = true ∨ pos ∈ sendMoveCreature newPos oldPos oldStackPos teleport := by
  rw [sendMoveCreature]
  rw [abs_le] at hz
  obtain ⟨hf, hin⟩ := (sees_iff hnew hpos).1 hsee
  split_ifs with h₁ h₂ h₃ h₄
  · exact .inr (mem_mapDescription_of_position hnew hpos hsee)
  · exact .inr (mem_mapDescription_of_position hnew hpos hsee)
  · obtain hside | hin := newRow_newColumn hf hin hx hy
    · exact .inr (List.mem_append_right _ hside)
    · exact (sees_or_moveDown hold hpos hnew (by omega) hf hin).imp_right
        (List.mem_append_left _)
  · obtain hside | hin := newRow_newColumn hf hin hx hy
    · exact .inr (List.mem_append_right _ hside)
    · exact (sees_or_moveUp hold hpos hnew (by omega) hf hin).imp_right (List.mem_append_left _)
  · exact (sees_or_mem_of_walk hold hpos hnew (by omega) hx hy hsee).imp_right
      (List.mem_append_right _)

end Step

/-- A step down from the ground to the north-east. -/
theorem canSee_of_move_down :
    let oldPos : Position := ⟨100, 100, 7⟩
    let newPos : Position := ⟨101, 99, 8⟩
    let pos : Position := ⟨103, 99, 9⟩
    newPos.sees pos = true ∧ (oldPos.sees pos = true ∨
      pos ∈ sendMoveCreature newPos oldPos 1 false) := by
  intro oldPos newPos pos
  have hsee : newPos.sees pos = true := by decide
  exact ⟨hsee, canSee_of_move (by decide) (by decide) (by decide) (by decide) (by decide)
    (by decide) 1 false hsee⟩

end Canary.Map
