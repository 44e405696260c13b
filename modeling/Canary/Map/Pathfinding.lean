import Canary.Map.AStarNodes
import Canary.Map.SightLine

/-!
# Paths

`getPathMatching` looks for a path from a square to one that a condition holds for. Squares are
taken from the pool by their cost, and the squares next to them are reached from there, if the
creature may walk on them. The directions are put together backwards, from the square that was
found.

The squares next to the first one are reached in all directions, also where diagonal steps are not
allowed, and coordinates wrap around at the edges of the map.
-/

namespace Canary.Map.Pathfinding

open SightLine Tiles

/-! ## Directions -/

inductive Direction
  | north | east | south | west | southwest | southeast | northwest | northeast
  deriving DecidableEq, Repr

namespace Direction

/-- `getNextPosition` -/
def offset : Direction → ℤ × ℤ
  | .north => (0, -1)
  | .east => (1, 0)
  | .south => (0, 1)
  | .west => (-1, 0)
  | .southwest => (-1, 1)
  | .southeast => (1, 1)
  | .northwest => (-1, -1)
  | .northeast => (1, -1)

/-- `DIRECTION_DIAGONAL_MASK` is set. -/
def isDiagonal : Direction → Bool
  | .north | .east | .south | .west => false
  | .southwest | .southeast | .northwest | .northeast => true

end Direction

/-- `stdext::arraylist<Direction>` -/
structure Arraylist where
  backContainer : List Direction := []
  frontContainer : List Direction := []
  deriving DecidableEq, Repr

namespace Arraylist

variable (l : Arraylist)

def pushFront (d : Direction) : Arraylist := { l with frontContainer := l.frontContainer ++ [d] }

/-- What is in the list, after an `update`. -/
def data : List Direction := l.frontContainer.reverse ++ l.backContainer

@[simp] theorem data_pushFront (d : Direction) : (l.pushFront d).data = d :: l.data := by
  rw [data, pushFront, List.reverse_append]
  rfl

end Arraylist

/-! ## The parameters of the search -/

structure FindPathParams where
  fullPathSearch : Bool := true
  clearSight : Bool := true
  allowDiagonal : Bool := true
  keepDistance : Bool := false
  maxSearchDist : ℤ := 0
  minTargetDist : ℤ := -1
  maxTargetDist : ℤ := -1

/-- A condition on squares, given the first square, with the distance of the best match so far,
    which it may change. -/
structure PathCondition where
  matches_ : Position → Position → FindPathParams → ℤ → Bool × ℤ
  isInRange : Position → Position → FindPathParams → Bool

def getDistanceX (p q : Position) : ℤ := |p.ix - q.ix|

def getDistanceY (p q : Position) : ℤ := |p.iy - q.iy|

/-- `FrozenPathingConditionCall` -/
def frozenPathingConditionCall (isSightClear : Position → Position → Bool → Bool)
    (targetPos : Position) : PathCondition where
  isInRange := inRange
  matches_ startPos testPos fpp bestMatchDist :=
    if !inRange startPos testPos fpp then (false, bestMatchDist)
    else if fpp.clearSight && !isSightClear testPos targetPos true then (false, bestMatchDist)
    else
      let testDist := max (getDistanceX targetPos testPos) (getDistanceY targetPos testPos)
      if fpp.maxTargetDist = 1 then
        (!(testDist < fpp.minTargetDist || testDist > fpp.maxTargetDist), bestMatchDist)
      else if testDist ≤ fpp.maxTargetDist then
        if testDist < fpp.minTargetDist then (false, bestMatchDist)
        else if testDist = fpp.maxTargetDist then (true, 0)
        else if testDist > bestMatchDist then (true, testDist)
        else (false, bestMatchDist)
      else (false, bestMatchDist)
where
  inRange (startPos testPos : Position) (fpp : FindPathParams) : Bool :=
    if fpp.fullPathSearch then
      !(testPos.ix > targetPos.ix + fpp.maxTargetDist) &&
      !(testPos.ix < targetPos.ix - fpp.maxTargetDist) &&
      !(testPos.iy > targetPos.iy + fpp.maxTargetDist) &&
      !(testPos.iy < targetPos.iy - fpp.maxTargetDist)
    else
      let dx := startPos.ix - targetPos.ix
      let dy := startPos.iy - targetPos.iy
      !(testPos.ix > targetPos.ix + if dx ≥ 0 then fpp.maxTargetDist else 0) &&
      !(testPos.ix < targetPos.ix - if dx ≤ 0 then fpp.maxTargetDist else 0) &&
      !(testPos.iy > targetPos.iy + if dy ≥ 0 then fpp.maxTargetDist else 0) &&
      !(testPos.iy < targetPos.iy - if dy ≤ 0 then fpp.maxTargetDist else 0)

/-- `CombatType_t` -/
abbrev CombatType := ℕ

/-- `MagicField` -/
structure MagicField where
  combatType : CombatType
  isBlocking : Bool
  damage : ℤ

/-- A creature, and what it finds on the squares of the map. -/
structure Walker where
  isRemoved : Bool := false
  /-- 0 if the square is known to be blocked, 1 if it is known to be free, and 2 otherwise -/
  getWalkCache : Position → ℤ := fun _ => 2
  /-- `creature->getTile() == getTile(pos)` -/
  standsOn : Position → Bool
  /-- `tile->queryAdd(..) == RETURNVALUE_NOERROR` -/
  queryAdd : Position → Bool
  /-- `tile->getTopVisibleCreature(creature) != nullptr` -/
  topVisibleCreature : Position → Bool := fun _ => false
  fieldItem : Position → Option MagicField := fun _ => none
  isImmune : CombatType → Bool := fun _ => false
  /-- `creature->hasCondition(Combat::DamageToConditionType(combatType))` -/
  hasCondition : CombatType → Bool := fun _ => false
  /-- `monster->canWalkOnFieldType`, if it is a monster -/
  canWalkOnFieldType : Option (CombatType → Bool) := none
  isPlayer : Bool := false

/-- What `getPathMatching` is called with, and the map. -/
structure Query where
  world : World
  creature : Option Walker
  startPos : Position
  pathCondition : PathCondition
  fpp : FindPathParams

namespace Query

variable (q : Query)

def getTile (pos : Position) : Option Tile := q.world pos

def canWalkTo (creature : Walker) (pos : Position) : Option Tile :=
  if creature.isRemoved then none
  else if creature.getWalkCache pos = 0 then none
  else if creature.getWalkCache pos = 1 then q.getTile pos
  else if !creature.standsOn pos && ((q.getTile pos).isNone || !creature.queryAdd pos) then none
  else q.getTile pos

/-- `fpp.maxSearchDist` and `fpp.keepDistance` let the search go to the square. -/
def inReach (pos : Position) : Bool :=
  !(q.fpp.maxSearchDist ≠ 0 && (getDistanceX q.startPos pos > q.fpp.maxSearchDist ||
    getDistanceY q.startPos pos > q.fpp.maxSearchDist)) &&
  !(q.fpp.keepDistance && !q.pathCondition.isInRange q.startPos pos q.fpp)

/-! ## Costs -/

/-- `AStarNodes::getMapWalkCost` -/
def getMapWalkCost (node : AStarNode) (pos : Position) : ℤ :=
  if |(node.x.toNat : ℤ) - pos.ix| = |(node.y.toNat : ℤ) - pos.iy| then
    if q.creature.isNone then 14 else 25
  else 10

/-- `AStarNodes::getTileWalkCost` -/
def getTileWalkCost (pos : Position) : ℤ :=
  match q.creature with
  | none => 0
  | some creature =>
    (if creature.topVisibleCreature pos then 10 * 3 else 0) +
    match creature.fieldItem pos with
    | none => 0
    | some field =>
      (if !creature.isImmune field.combatType && !creature.hasCondition field.combatType &&
        (creature.canWalkOnFieldType.any fun canWalk => !canWalk field.combatType) then 10 * 18
        else 0) +
      if creature.isPlayer && !field.isBlocking && field.damage ≠ 0 then 10 * 18 else 0

/-! ## The search -/

def allNeighbors : List (ℤ × ℤ) :=
  [(-1, 0), (0, 1), (1, 0), (0, -1), (-1, -1), (1, -1), (1, 1), (-1, 1)]

def dirNeighbors : Direction → List (ℤ × ℤ)
  | .north => [(-1, 0), (0, 1), (1, 0), (1, 1), (-1, 1)]
  | .east => [(-1, 0), (0, 1), (0, -1), (-1, -1), (-1, 1)]
  | .south => [(-1, 0), (1, 0), (0, -1), (-1, -1), (1, -1)]
  | .west => [(0, 1), (1, 0), (0, -1), (1, -1), (1, 1)]
  | .southwest => [(1, 0), (0, -1), (-1, -1), (1, -1), (1, 1)]
  | .southeast => [(-1, 0), (0, -1), (-1, -1), (1, -1), (-1, 1)]
  | .northwest => [(0, 1), (1, 0), (1, -1), (1, 1), (-1, 1)]
  | .northeast => [(-1, 0), (0, 1), (-1, -1), (1, 1), (-1, 1)]

/-- Where the search goes from a node: not back to where it came from. -/
def neighbors (s : AStarNodes) (n : ℕ) : List (ℤ × ℤ) :=
  match (s.nodes n).parent with
  | some parent =>
    let offset_x : ℤ := (s.nodes parent).x.toNat - (s.nodes n).x.toNat
    let offset_y : ℤ := (s.nodes parent).y.toNat - (s.nodes n).y.toNat
    let direction : Direction :=
      if offset_y = 0 then if offset_x = -1 then .west else .east
      else if !q.fpp.allowDiagonal ∨ offset_x = 0 then if offset_y = -1 then .north else .south
      else if offset_y = -1 then if offset_x = -1 then .northwest else .northeast
      else if offset_x = -1 then .southwest else .southeast
    (dirNeighbors direction).take (if q.fpp.allowDiagonal then 5 else 3)
  | none => allNeighbors

/-- `pos.x = x + dx`, `pos.y = y + dy` -/
def neighbor (p : Position) (d : ℤ × ℤ) : Position :=
  { p with x := UInt16.ofInt (p.ix + d.1), y := UInt16.ofInt (p.iy + d.2) }

/-- The square of a node. -/
def square (node : AStarNode) : Position := ⟨node.x, node.y, q.startPos.z⟩

/-- One square next to a node. There is no pool any more if it is full. -/
def expandTo (n : ℕ) (pos : Position) (s : AStarNodes) : Option AStarNodes :=
  if !q.inReach pos then some s
  else
    let neighborNode := s.getNodeByPosition pos.x pos.y
    let tile :=
      if neighborNode.isSome then q.getTile pos
      else match q.creature with
        | none => q.getTile pos
        | some creature => q.canWalkTo creature pos
    match tile with
    | none => some s
    | some tile =>
      if neighborNode.isNone && q.creature.isNone && tile.hasFlag .blockSolid then some s
      else
        let newf := (s.nodes n).f + q.getMapWalkCost (s.nodes n) pos + q.getTileWalkCost pos
        match neighborNode with
        | some i => if (s.nodes i).f ≤ newf then some s else some (s.reach i n newf)
        | none => s.createOpenNode n pos.x pos.y newf

/-- The squares next to a node, and whether the pool was found full. -/
def expand (n : ℕ) (p : Position) : List (ℤ × ℤ) → AStarNodes → AStarNodes × Bool
  | [], s => (s, false)
  | d :: ds, s =>
    match q.expandTo n (neighbor p d) s with
    | some s => expand n p ds s
    | none => (s, true)

/-- The state of the search: the node that was found, with its square. -/
structure Search where
  nodes : AStarNodes
  bestMatch : ℤ := 0
  found : Option (ℕ × Position) := none

inductive Outcome
  | running (s : Search)
  | stopped (s : Search)
  | failed

/-- The call of the condition for a node. -/
def call (s : Search) (n : ℕ) : Bool × ℤ :=
  q.pathCondition.matches_ q.startPos (q.square (s.nodes.nodes n)) q.fpp s.bestMatch

def visit (s : Search) (n : ℕ) : Search :=
  { s with
    bestMatch := (q.call s n).2
    found := if (q.call s n).1 then some (n, q.square (s.nodes.nodes n)) else s.found }

/-- The squares next to the node, and whether the pool was found full. -/
def expandNode (s : Search) (n : ℕ) : AStarNodes × Bool :=
  q.expand n (q.square (s.nodes.nodes n)) (q.neighbors s.nodes n) s.nodes

def leave (s : Search) (n : ℕ) : Search where
  nodes := (q.expandNode s n).1.closeNode n
  bestMatch := (q.visit s n).bestMatch
  found := (q.visit s n).found

/-- The loop, once. -/
def next (s : Search) : Outcome :=
  match s.nodes.getBestNode with
  | none => if s.found.isSome then .stopped s else .failed
  | some n =>
    if (q.call s n).1 ∧ (q.call s n).2 = 0 then .stopped (q.visit s n)
    else if (q.expandNode s n).2 ∧ (q.visit s n).found.isNone then .failed
    else .running (q.leave s n)

/-- The loop, which may end without a state if there is no path. -/
def search : ℕ → Search → Option (Option Search)
  | 0, _ => none
  | fuel + 1, s =>
    if q.fpp.maxSearchDist ≠ 0 ∨ s.nodes.closedNodes < 100 then
      match q.next s with
      | .running s => search fuel s
      | .stopped s => some (some s)
      | .failed => some none
    else some (some s)

/-! ## The directions -/

def directionOf (dx dy : ℤ) : Option Direction :=
  if dx = 1 ∧ dy = 1 then some .northwest
  else if dx = -1 ∧ dy = 1 then some .northeast
  else if dx = 1 ∧ dy = -1 then some .southwest
  else if dx = -1 ∧ dy = -1 then some .southeast
  else if dx = 1 then some .west
  else if dx = -1 then some .east
  else if dy = 1 then some .north
  else if dy = -1 then some .south
  else none

/-- The way back from a square, along the parents. -/
def rebuild (s : AStarNodes) : ℕ → Option ℕ → Position → Arraylist → Option Arraylist
  | _, none, _, dirList => some dirList
  | 0, some _, _, _ => none
  | fuel + 1, some found, prev, dirList =>
    let pos := q.square (s.nodes found)
    let dirList := match directionOf (pos.ix - prev.ix) (pos.iy - prev.iy) with
      | some direction => dirList.pushFront direction
      | none => dirList
    rebuild s fuel (s.nodes found).parent pos dirList

def getPathMatching (fuel : ℕ) (dirList : Arraylist) : Option (Bool × Arraylist) :=
  match q.search fuel { nodes := .new q.startPos.x q.startPos.y } with
  | none => none
  | some none => some (false, dirList)
  | some (some s) =>
    match s.found with
    | none => some (false, dirList)
    | some (n, endPos) =>
      (q.rebuild s.nodes fuel (s.nodes.nodes n).parent endPos dirList).map fun dirList =>
        (true, dirList)

/-! ## What the search may reach -/

/-- What `canWalkTo` says, or without a creature whether the tile is free. -/
def walkable (pos : Position) : Bool :=
  match q.creature with
  | none => (q.getTile pos).any fun tile => !tile.hasFlag .blockSolid
  | some creature => (q.canWalkTo creature pos).isSome

/-- The search may reach the square. -/
def admits (pos : Position) : Bool := q.inReach pos && q.walkable pos

/-- The distances of best matches that the condition may be called with. -/
inductive Best : ℤ → Prop
  | zero : Best 0
  | call {pos : Position} {b : ℤ} : Best b →
      Best (q.pathCondition.matches_ q.startPos pos q.fpp b).2

/-- The condition held for the square. -/
def Held (pos : Position) : Prop :=
  ∃ b, q.Best b ∧ (q.pathCondition.matches_ q.startPos pos q.fpp b).1 = true

/-! ## The squares around the first one -/

/-- The square is reached with at most so many steps. -/
def Near : ℕ → Position → Prop
  | 0, p => p = q.startPos
  | k + 1, p => Near k p ∨
      ∃ r, Near k r ∧ ∃ d ∈ allNeighbors, p = neighbor r d ∧ q.admits p = true

/-! ## One square -/

theorem getMapWalkCost_ge (node : AStarNode) (pos : Position) :
    10 ≤ q.getMapWalkCost node pos := by
  rw [getMapWalkCost]
  split_ifs <;> decide

theorem getTileWalkCost_nonneg (pos : Position) : 0 ≤ q.getTileWalkCost pos := by
  rw [getTileWalkCost]
  split
  · exact le_rfl
  · refine add_nonneg (by split_ifs <;> decide) ?_
    split
    · exact le_rfl
    · exact add_nonneg (by split_ifs <;> decide) (by split_ifs <;> decide)

/-- The cost of a square that is reached from a node. -/
def newCost (s : AStarNodes) (n : ℕ) (pos : Position) : ℤ :=
  (s.nodes n).f + q.getMapWalkCost (s.nodes n) pos + q.getTileWalkCost pos

theorem newCost_ge (s : AStarNodes) (n : ℕ) (pos : Position) :
    (s.nodes n).f + 10 ≤ q.newCost s n pos := by
  have hmap := q.getMapWalkCost_ge (s.nodes n) pos
  have htile := q.getTileWalkCost_nonneg pos
  rw [newCost]
  omega

variable {q}

theorem canWalkTo_cases (creature : Walker) (pos : Position) :
    q.canWalkTo creature pos = none ∨ q.canWalkTo creature pos = q.getTile pos := by
  rw [canWalkTo]
  split_ifs
  · exact .inl rfl
  · exact .inl rfl
  · exact .inr rfl
  · exact .inl rfl
  · exact .inr rfl

theorem isSome_getTile {pos : Position} (h : q.walkable pos = true) :
    (q.getTile pos).isSome = true := by
  rw [walkable] at h
  split at h
  · exact Option.isSome_of_any h
  · next creature _ =>
    rcases canWalkTo_cases creature pos with hnone | heq
    · rw [hnone] at h
      cases h
    · exact heq ▸ h

/-- A square without a node gets one if the creature may walk there. -/
theorem expandTo_new (n : ℕ) {pos : Position} {s : AStarNodes} (hreach : q.inReach pos = true)
    (hnode : s.getNodeByPosition pos.x pos.y = none) : q.expandTo n pos s =
      if q.walkable pos = true then s.createOpenNode n pos.x pos.y (q.newCost s n pos)
      else some s := by
  rw [expandTo, hreach, if_neg (by decide), hnode, walkable, newCost]
  dsimp only
  rcases q.creature with _ | creature
  · rcases q.getTile pos with _ | tile
    · rfl
    · by_cases hsolid : tile.hasFlag .blockSolid = true
      · simp [hsolid]
      · simp [hsolid]
  · rcases htile : q.canWalkTo creature pos with _ | tile
    · simp [htile]
    · simp [htile]

theorem expandTo_old (n : ℕ) {pos : Position} {s : AStarNodes} {i : ℕ}
    (hreach : q.inReach pos = true) (hnode : s.getNodeByPosition pos.x pos.y = some i) :
    q.expandTo n pos s =
      if (q.getTile pos).isSome = true → (s.nodes i).f ≤ q.newCost s n pos then some s
      else some (s.reach i n (q.newCost s n pos)) := by
  rw [expandTo, hreach, if_neg (by decide), hnode, newCost]
  dsimp only
  rcases q.getTile pos with _ | tile
  · simp
  · simp

/-- What is done with a square: nothing, if it is not admitted or was reached at less cost; or the
    node is reached, or a new one made. -/
theorem expandTo_cases (n : ℕ) (pos : Position) (s : AStarNodes) :
    q.expandTo n pos s = some s ∧
        (s.getNodeByPosition pos.x pos.y = none → q.admits pos = false) ∧
        (∀ i, s.getNodeByPosition pos.x pos.y = some i → q.admits pos = true →
          (s.nodes i).f ≤ q.newCost s n pos) ∨
      (∃ i, s.getNodeByPosition pos.x pos.y = some i ∧ q.newCost s n pos < (s.nodes i).f ∧
        q.expandTo n pos s = some (s.reach i n (q.newCost s n pos))) ∨
      s.getNodeByPosition pos.x pos.y = none ∧ q.admits pos = true ∧
        q.expandTo n pos s = s.createOpenNode n pos.x pos.y (q.newCost s n pos) := by
  by_cases hreach : q.inReach pos = true
  · have hadmits : q.admits pos = q.walkable pos := by rw [admits, hreach, Bool.true_and]
    rcases hnode : s.getNodeByPosition pos.x pos.y with _ | i
    · rw [expandTo_new n hreach hnode]
      by_cases hwalk : q.walkable pos = true
      · rw [if_pos hwalk]
        exact .inr (.inr ⟨rfl, hadmits.trans hwalk, rfl⟩)
      · rw [if_neg hwalk]
        exact .inl ⟨rfl, fun _ => hadmits.trans (Bool.eq_false_iff.2 hwalk), nofun⟩
    · rw [expandTo_old n hreach hnode]
      split_ifs with hcost
      · refine .inl ⟨rfl, nofun, fun j hj hadm => ?_⟩
        obtain rfl := Option.some.inj hj
        exact hcost (isSome_getTile (hadmits.symm.trans hadm))
      · exact .inr (.inl ⟨i, rfl, not_le.1 fun hle => hcost fun _ => hle, rfl⟩)
  · refine .inl ⟨?_, fun _ => ?_, fun i _ h => ?_⟩
    · rw [expandTo, if_pos (by rw [Bool.eq_false_iff.2 hreach]; rfl)]
    · rw [admits, Bool.eq_false_iff.2 hreach, Bool.false_and]
    · exact absurd (Bool.and_eq_true_iff.1 h).1 hreach

/-! ## The tree of nodes -/

/-- The node `i` was reached from the node `p`. -/
def Link (q : Query) (s : AStarNodes) (p i : ℕ) : Prop :=
  q.newCost s p (q.square (s.nodes i)) ≤ (s.nodes i).f ∧
    ∃ d ∈ allNeighbors, q.square (s.nodes i) = neighbor (q.square (s.nodes p)) d

/-- The nodes are a tree of squares that are admitted, where each costs more than its parent. -/
structure Tree (q : Query) (s : AStarNodes) : Prop where
  wf : s.Wf
  start : s.nodes 0 = { x := q.startPos.x, y := q.startPos.y }
  nonneg : ∀ i < s.curNode, 0 ≤ (s.nodes i).f
  parents : ∀ i < s.curNode, i ≠ 0 → ∃ p < s.curNode, (s.nodes i).parent = some p ∧ q.Link s p i
  admitted : ∀ i < s.curNode, i ≠ 0 → q.admits (q.square (s.nodes i)) = true
  near : ∀ i < s.curNode, q.Near i (q.square (s.nodes i))

theorem tree_new : Tree q (.new q.startPos.x q.startPos.y) where
  wf := AStarNodes.wf_new _ _
  start := by
    rw [AStarNodes.new]
    dsimp only
    rw [Function.update_self]
  nonneg i hi := by
    rw [Nat.lt_one_iff.1 hi, AStarNodes.new]
    dsimp only
    rw [Function.update_self]
  parents i hi h0 := absurd (Nat.lt_one_iff.1 hi) h0
  admitted i hi h0 := absurd (Nat.lt_one_iff.1 hi) h0
  near i hi := by
    rw [Nat.lt_one_iff.1 hi, AStarNodes.new]
    dsimp only
    rw [Function.update_self]
    rfl

theorem near_mono {k l : ℕ} (h : k ≤ l) {p : Position} (hp : q.Near k p) : q.Near l p := by
  induction l with
  | zero => rwa [Nat.le_zero.1 h] at hp
  | succ l ih =>
    rcases Nat.le_succ_iff.1 h with h | rfl
    · exact .inl (ih h)
    · exact hp

namespace Tree

variable {s : AStarNodes} (h : q.Tree s)

include h

theorem square_zero : q.square (s.nodes 0) = q.startPos := by rw [h.start]; rfl

theorem parent_zero : (s.nodes 0).parent = none := by rw [h.start]

theorem f_zero : (s.nodes 0).f = 0 := by rw [h.start]

/-- A child costs more. -/
theorem f_parent {i p : ℕ} (hi : i < s.curNode) (hp : (s.nodes i).parent = some p) :
    p < s.curNode ∧ (s.nodes p).f + 10 ≤ (s.nodes i).f := by
  have hi0 : i ≠ 0 := by
    rintro rfl
    rw [h.parent_zero] at hp
    cases hp
  obtain ⟨p', hp', heq, hlink, -⟩ := h.parents i hi hi0
  obtain rfl := Option.some.inj (hp.symm.trans heq)
  exact ⟨hp', (q.newCost_ge s p _).trans hlink⟩

omit h in
/-- The cost of a square goes down with that of the node. -/
theorem newCost_mono {s' : AStarNodes} {p : ℕ} (hx : (s'.nodes p).x = (s.nodes p).x)
    (hy : (s'.nodes p).y = (s.nodes p).y) (hf : (s'.nodes p).f ≤ (s.nodes p).f) (pos : Position) :
    q.newCost s' p pos ≤ q.newCost s p pos := by
  rw [newCost, newCost, getMapWalkCost, getMapWalkCost, hx, hy]
  omega

omit h in
theorem reach_square (i n : ℕ) (newf : ℤ) (j : ℕ) :
    q.square ((s.reach i n newf).nodes j) = q.square (s.nodes j) := by
  rw [AStarNodes.reach_nodes]
  by_cases hj : j = i
  · subst hj
    rw [Function.update_self]
    rfl
  · rw [Function.update_of_ne hj]

omit h in
theorem reach_f_le {i n : ℕ} {newf : ℤ} (hlt : newf < (s.nodes i).f) (j : ℕ) :
    ((s.reach i n newf).nodes j).f ≤ (s.nodes j).f := by
  rw [AStarNodes.reach_nodes]
  by_cases hj : j = i
  · subst hj
    rw [Function.update_self]
    exact hlt.le
  · rw [Function.update_of_ne hj]

/-- A node is reached at less cost. -/
theorem reach {i n : ℕ} {d : ℤ × ℤ} (hi : i < s.curNode) (hn : n < s.curNode)
    (hd : d ∈ allNeighbors) (hpos : q.square (s.nodes i) = neighbor (q.square (s.nodes n)) d)
    (hlt : q.newCost s n (q.square (s.nodes i)) < (s.nodes i).f) :
    q.Tree (s.reach i n (q.newCost s n (q.square (s.nodes i)))) := by
  have hge := q.newCost_ge s n (q.square (s.nodes i))
  have hnonneg := h.nonneg n hn
  have hi0 : i ≠ 0 := by
    rintro rfl
    rw [h.f_zero] at hlt
    omega
  have hni : n ≠ i := by
    rintro rfl
    omega
  generalize hc : q.newCost s n (q.square (s.nodes i)) = c at *
  have hnode : ∀ j, j ≠ i → (s.reach i n c).nodes j = s.nodes j := fun j hj => by
    rw [AStarNodes.reach_nodes, Function.update_of_ne hj]
  have hself : (s.reach i n c).nodes i = { s.nodes i with f := c, parent := some n } := by
    rw [AStarNodes.reach_nodes, Function.update_self]
  -- Links stay, as costs go down.
  have hlink : ∀ p j, j ≠ i → q.Link s p j → q.Link (s.reach i n c) p j := by
    rintro p j hj ⟨hcost, d, hd, heq⟩
    refine ⟨?_, d, hd, ?_⟩
    · rw [hnode j hj]
      refine (newCost_mono ?_ ?_ (reach_f_le hlt p) _).trans hcost
      · exact congrArg Position.x (reach_square (q := q) i n c p)
      · exact congrArg Position.y (reach_square (q := q) i n c p)
    · rw [reach_square, reach_square, heq]
  refine ⟨h.wf.reach i n c, ?_, fun j hj => ?_, fun j hj hj0 => ?_, fun j hj hj0 => ?_,
    fun j hj => ?_⟩
  · rw [hnode 0 hi0.symm, h.start]
  · rw [AStarNodes.reach_curNode] at hj
    by_cases hji : j = i
    · rw [hji, hself]
      dsimp only
      omega
    · rw [hnode j hji]
      exact h.nonneg j hj
  · rw [AStarNodes.reach_curNode] at hj ⊢
    by_cases hji : j = i
    · subst hji
      refine ⟨n, hn, by rw [hself], ?_, d, hd, ?_⟩
      · rw [reach_square, hself]
        refine (newCost_mono ?_ ?_ ?_ _).trans hc.le <;> rw [hnode n hni]
      · rw [reach_square, reach_square, hpos]
    · obtain ⟨p, hp, hparent, hl⟩ := h.parents j hj hj0
      exact ⟨p, hp, by rw [hnode j hji, hparent], hlink p j hji hl⟩
  · rw [AStarNodes.reach_curNode] at hj
    rw [reach_square]
    exact h.admitted j hj hj0
  · rw [AStarNodes.reach_curNode] at hj
    rw [reach_square]
    exact h.near j hj

/-- A new node. -/
theorem createOpenNode {n : ℕ} {pos : Position} {d : ℤ × ℤ} {s' : AStarNodes}
    (hn : n < s.curNode) (hd : d ∈ allNeighbors) (hpos : pos = neighbor (q.square (s.nodes n)) d)
    (hnew : s.getNodeByPosition pos.x pos.y = none) (hadm : q.admits pos = true)
    (hs : s.createOpenNode n pos.x pos.y (q.newCost s n pos) = some s') : q.Tree s' := by
  have hwf := h.wf.createOpenNode hs hnew
  have hge := q.newCost_ge s n pos
  have hnonneg := h.nonneg n hn
  rw [AStarNodes.createOpenNode] at hs
  split_ifs at hs with hle
  obtain rfl := Option.some.inj hs
  have hz : pos.z = q.startPos.z := by rw [hpos]; rfl
  have hsq : q.square ⟨some n, q.newCost s n pos, pos.x, pos.y⟩ = pos := by
    rw [square, ← hz]
  generalize hc : q.newCost s n pos = c at *
  -- Each field for the nodes of before, then for the new one.
  refine ⟨hwf, ?_, fun j hj => ?_, fun j hj hj0 => ?_, fun j hj hj0 => ?_, fun j hj => ?_⟩
  all_goals dsimp only at *
  · rw [Function.update_of_ne h.wf.pos.ne, h.start]
  · rcases Nat.lt_succ_iff_lt_or_eq.1 hj with hj | rfl
    · rw [Function.update_of_ne hj.ne]
      exact h.nonneg j hj
    · rw [Function.update_self]
      dsimp only
      omega
  · rcases Nat.lt_succ_iff_lt_or_eq.1 hj with hj | rfl
    · obtain ⟨p, hp, hparent, hcost, hl⟩ := h.parents j hj hj0
      refine ⟨p, hp.trans (Nat.lt_succ_self _), ?_, ?_⟩
      · rw [Function.update_of_ne hj.ne, hparent]
      · rw [Link, newCost]
        dsimp only
        rw [Function.update_of_ne hj.ne, Function.update_of_ne hp.ne]
        exact ⟨hcost, hl⟩
    · refine ⟨n, hn.trans (Nat.lt_succ_self _), ?_, ?_⟩
      · rw [Function.update_self]
      · rw [Link, newCost]
        dsimp only
        rw [Function.update_self, Function.update_of_ne hn.ne, hsq]
        exact ⟨hc.le, d, hd, hpos⟩
  · rcases Nat.lt_succ_iff_lt_or_eq.1 hj with hj | rfl
    · rw [Function.update_of_ne hj.ne]
      exact h.admitted j hj hj0
    · rw [Function.update_self, hsq]
      exact hadm
  · rcases Nat.lt_succ_iff_lt_or_eq.1 hj with hj | rfl
    · rw [Function.update_of_ne hj.ne]
      exact h.near j hj
    · rw [Function.update_self, hsq]
      have hnear : q.Near (n + 1) pos := .inr ⟨_, h.near n hn, d, hd, hpos, hadm⟩
      exact near_mono hn hnear

theorem closeNode (i : ℕ) : q.Tree (s.closeNode i) :=
  ⟨h.wf.closeNode i, h.start, h.nonneg, h.parents, h.admitted, h.near⟩

end Tree

/-! ## The squares next to a node -/

variable {s s' : AStarNodes} {n : ℕ} {ds : List (ℤ × ℤ)}

theorem square_eq_iff {node : AStarNode} {pos : Position} (hz : pos.z = q.startPos.z) :
    q.square node = pos ↔ node.x = pos.x ∧ node.y = pos.y := by
  obtain ⟨x, y, z⟩ := pos
  obtain rfl : z = q.startPos.z := hz
  simp [square]

/-- The node is as it was. -/
def Kept (s s' : AStarNodes) (j : ℕ) : Prop :=
  j < s.curNode ∧ s'.nodes j = s.nodes j ∧ s'.openNodes j = s.openNodes j

/-- The node was reached from `n`, in one of the directions. -/
structure Reached (q : Query) (n : ℕ) (ds : List (ℤ × ℤ)) (s s' : AStarNodes) (j : ℕ) : Prop where
  ne : j ≠ n
  ne_zero : j ≠ 0
  parent : (s'.nodes j).parent = some n
  opened : s'.openNodes j = true
  f_eq : (s'.nodes j).f = q.newCost s n (q.square (s'.nodes j))
  direction : ∃ d ∈ ds, q.square (s'.nodes j) = neighbor (q.square (s.nodes n)) d
  old : j < s.curNode → q.square (s'.nodes j) = q.square (s.nodes j) ∧
    (s'.nodes j).f < (s.nodes j).f

/-- Squares next to the node `n` were looked at: those admitted are reached, at no more than the
    cost from there. -/
structure Expanded (q : Query) (n : ℕ) (ds : List (ℤ × ℤ)) (s s' : AStarNodes) : Prop where
  tree : q.Tree s'
  le : s.curNode ≤ s'.curNode
  length : s'.curNode ≤ s.curNode + ds.length
  changed : ∀ j < s'.curNode, Kept s s' j ∨ q.Reached n ds s s' j
  reached : ∀ d ∈ ds, q.admits (neighbor (q.square (s.nodes n)) d) = true →
    ∃ j < s'.curNode, q.square (s'.nodes j) = neighbor (q.square (s.nodes n)) d ∧
      (s'.nodes j).f ≤ q.newCost s n (neighbor (q.square (s.nodes n)) d)
  measure : s' = s ∨ s'.measure < s.measure

namespace Expanded

theorem refl (h : q.Tree s) : q.Expanded n [] s s :=
  ⟨h, le_rfl, le_rfl, fun _ hj => .inl ⟨hj, rfl, rfl⟩, fun _ hd => absurd hd List.not_mem_nil,
    .inl rfl⟩

/-- The node itself stays. -/
theorem kept (h : q.Expanded n ds s s') (hn : n < s.curNode) : Kept s s' n :=
  (h.changed n (hn.trans_le h.le)).resolve_right fun hr => hr.ne rfl

/-- Squares stay, and costs do not go up. -/
theorem old (h : q.Expanded n ds s s') {j : ℕ} (hj : j < s.curNode) :
    q.square (s'.nodes j) = q.square (s.nodes j) ∧ (s'.nodes j).f ≤ (s.nodes j).f := by
  rcases h.changed j (hj.trans_le h.le) with hk | hr
  · rw [hk.2.1]
    exact ⟨rfl, le_rfl⟩
  · exact ⟨(hr.old hj).1, (hr.old hj).2.le⟩

/-- One square. -/
theorem single (h : q.Tree s) (hn : n < s.curNode) {d : ℤ × ℤ} (hd : d ∈ allNeighbors)
    (hs : q.expandTo n (neighbor (q.square (s.nodes n)) d) s = some s') :
    q.Expanded n [d] s s' := by
  have hsq : ∀ {i}, s.getNodeByPosition (neighbor (q.square (s.nodes n)) d).x
      (neighbor (q.square (s.nodes n)) d).y = some i →
      i < s.curNode ∧ q.square (s.nodes i) = neighbor (q.square (s.nodes n)) d := by
    intro i hi
    obtain ⟨hlt, hx, hy⟩ := h.wf.getNodeByPosition_eq_some_iff.1 hi
    have hz : (neighbor (q.square (s.nodes n)) d).z = q.startPos.z := rfl
    exact ⟨hlt, (square_eq_iff hz).2 ⟨hx, hy⟩⟩
  generalize hpos : neighbor (q.square (s.nodes n)) d = pos at *
  have hge := q.newCost_ge s n pos
  have hnonneg := h.nonneg n hn
  -- The square is passed over, its node gets a cheaper way, or a node is made for it.
  rcases expandTo_cases (q := q) n pos s with ⟨heq, hnone, hsome⟩ | ⟨i, hi, hlt, heq⟩ |
    ⟨hnone, hadm, heq⟩
  · obtain rfl := Option.some.inj (heq.symm.trans hs)
    refine ⟨h, le_rfl, Nat.le_succ _, fun _ hj => .inl ⟨hj, rfl, rfl⟩, fun d' hd' hadm => ?_,
      .inl rfl⟩
    rw [List.mem_singleton.1 hd', hpos] at hadm ⊢
    rcases hnode : s.getNodeByPosition pos.x pos.y with _ | i
    · rw [hnone hnode] at hadm
      cases hadm
    · exact ⟨i, (hsq hnode).1, (hsq hnode).2, hsome i hnode hadm⟩
  · obtain rfl := Option.some.inj (heq.symm.trans hs)
    obtain ⟨hilt, hisq⟩ := hsq hi
    have htree := h.reach hilt hn hd (hisq.trans hpos.symm) (hisq ▸ hlt)
    rw [hisq] at htree
    have hself : (s.reach i n (q.newCost s n pos)).nodes i =
        { s.nodes i with f := q.newCost s n pos, parent := some n } := by
      rw [AStarNodes.reach_nodes, Function.update_self]
    refine ⟨htree, ?_, ?_, fun j hj => ?_, fun d' hd' hadm => ?_,
      .inr (AStarNodes.measure_reach hilt (by omega) hlt)⟩
    · rw [AStarNodes.reach_curNode]
    · rw [AStarNodes.reach_curNode]
      exact Nat.le_add_right _ _
    · rw [AStarNodes.reach_curNode] at hj
      -- Only the node that was reached again changes, and not the starting node.
      by_cases hji : j = i
      · subst hji
        refine .inr ⟨?_, ?_, ?_, ?_, ?_, ⟨d, List.mem_singleton_self d, ?_⟩, fun _ => ⟨?_, ?_⟩⟩
        · rintro rfl
          omega
        · rintro rfl
          rw [h.f_zero] at hlt
          omega
        · rw [hself]
        · rw [AStarNodes.reach_openNodes, Function.update_self]
        · rw [Tree.reach_square, hisq, hself]
        · rw [Tree.reach_square, hisq, hpos]
        · exact Tree.reach_square ..
        · rw [hself]
          exact hlt
      · refine .inl ⟨hj, ?_, ?_⟩
        · rw [AStarNodes.reach_nodes, Function.update_of_ne hji]
        · rw [AStarNodes.reach_openNodes, Function.update_of_ne hji]
    · rw [List.mem_singleton.1 hd', hpos]
      refine ⟨i, ?_, ?_, ?_⟩
      · rwa [AStarNodes.reach_curNode]
      · rw [Tree.reach_square, hisq]
      · rw [hself]
  · rw [heq] at hs
    have htree := h.createOpenNode hn hd hpos.symm hnone hadm hs
    have hmeasure := AStarNodes.measure_createOpenNode hs
    rw [AStarNodes.createOpenNode] at hs
    split_ifs at hs with hle
    obtain rfl := Option.some.inj hs
    have hz : pos.z = q.startPos.z := by rw [← hpos]; rfl
    refine ⟨htree, Nat.le_succ _, le_rfl, fun j hj => ?_, fun d' hd' hadm => ?_, .inr hmeasure⟩
    · dsimp only at hj
      -- The old nodes are as they were; the new one is a child of `n`.
      rcases Nat.lt_succ_iff_lt_or_eq.1 hj with hj | rfl
      · refine .inl ⟨hj, ?_, ?_⟩
        · dsimp only
          rw [Function.update_of_ne hj.ne]
        · dsimp only
          rw [Function.update_of_ne hj.ne]
      · have hnew : (Function.update s.nodes s.curNode
            ⟨some n, q.newCost s n pos, pos.x, pos.y⟩) s.curNode =
            ⟨some n, q.newCost s n pos, pos.x, pos.y⟩ := Function.update_self ..
        have hnewsq : q.square ⟨some n, q.newCost s n pos, pos.x, pos.y⟩ = pos :=
          (square_eq_iff hz).2 ⟨rfl, rfl⟩
        refine .inr ⟨hn.ne', h.wf.pos.ne', ?_, ?_, ?_, ⟨d, List.mem_singleton_self d, ?_⟩,
          fun hj => absurd hj (lt_irrefl _)⟩
        · dsimp only
          rw [hnew]
        · exact Function.update_self ..
        · dsimp only
          rw [hnew, hnewsq]
        · dsimp only
          rw [hnew, hnewsq, hpos]
    · rw [List.mem_singleton.1 hd', hpos]
      refine ⟨s.curNode, Nat.lt_succ_self _, ?_, ?_⟩
      · dsimp only
        rw [Function.update_self]
        exact (square_eq_iff hz).2 ⟨rfl, rfl⟩
      · dsimp only
        rw [Function.update_self]

/-- More squares. -/
theorem trans {s₁ : AStarNodes} {ds₁ : List (ℤ × ℤ)} (hn : n < s.curNode)
    (h₁ : q.Expanded n ds₁ s s₁) (h₂ : q.Expanded n ds s₁ s') :
    q.Expanded n (ds₁ ++ ds) s s' := by
  have hnode := (h₁.kept hn).2.1
  have hcost : ∀ pos, q.newCost s₁ n pos = q.newCost s n pos := fun pos => by
    rw [newCost, newCost, hnode]
  refine ⟨h₂.tree, h₁.le.trans h₂.le, ?_, fun j hj => ?_, fun d hd hadm => ?_, ?_⟩
  · have := h₁.length
    have := h₂.length
    rw [List.length_append]
    omega
  -- What the second part left alone was kept or reached by the first.
  · rcases h₂.changed j hj with ⟨hj₁, hk, ho⟩ | hr
    · rcases h₁.changed j hj₁ with ⟨hj₀, hk₁, ho₁⟩ | hr
      · exact .inl ⟨hj₀, hk.trans hk₁, ho.trans ho₁⟩
      · obtain ⟨d, hd, hsq⟩ := hr.direction
        refine .inr ⟨hr.ne, hr.ne_zero, ?_, ho.trans hr.opened, ?_,
          ⟨d, List.mem_append_left _ hd, ?_⟩, ?_⟩
        · rw [hk, hr.parent]
        · rw [hk, hr.f_eq]
        · rw [hk, hsq]
        · rw [hk]
          exact hr.old
    · obtain ⟨d, hd, hsq⟩ := hr.direction
      refine .inr ⟨hr.ne, hr.ne_zero, hr.parent, hr.opened, ?_,
        ⟨d, List.mem_append_right _ hd, ?_⟩, fun hj₀ => ?_⟩
      · rw [hr.f_eq, hcost]
      · rw [hsq, hnode]
      · obtain ⟨hsq₁, hf₁⟩ := h₁.old hj₀
        obtain ⟨hsq₂, hf₂⟩ := hr.old (hj₀.trans_le h₁.le)
        exact ⟨hsq₂.trans hsq₁, hf₂.trans_le hf₁⟩
  · rcases List.mem_append.1 hd with hd | hd
    · obtain ⟨j, hj, hsq, hf⟩ := h₁.reached d hd hadm
      -- A node may have got a cheaper way since, never a dearer one.
      obtain ⟨hsq₂, hf₂⟩ := h₂.old hj
      exact ⟨j, hj.trans_le h₂.le, hsq₂.trans hsq, hf₂.trans hf⟩
    · obtain ⟨j, hj, hsq, hf⟩ := h₂.reached d hd (hnode ▸ hadm)
      rw [hnode, hcost] at hf
      exact ⟨j, hj, hnode ▸ hsq, hf⟩
  · rcases h₂.measure with rfl | h₂
    · exact h₁.measure
    · rcases h₁.measure with rfl | h₁
      · exact .inr h₂
      · exact .inr (h₂.trans h₁)

end Expanded

/-- The squares next to a node: all of them, unless the pool gets full. -/
theorem expand_spec (h : q.Tree s) (hn : n < s.curNode) (hds : ∀ d ∈ ds, d ∈ allNeighbors) :
    ∃ done, q.Expanded n done s (q.expand n (q.square (s.nodes n)) ds s).1 ∧
      done.Sublist ds ∧
      ((q.expand n (q.square (s.nodes n)) ds s).2 = false → done = ds) ∧
      ((q.expand n (q.square (s.nodes n)) ds s).2 = true →
        AStarNodes.maxNodes ≤ (q.expand n (q.square (s.nodes n)) ds s).1.curNode) := by
  induction ds generalizing s with
  | nil => exact ⟨[], .refl h, .refl _, fun _ => rfl, nofun⟩
  | cons d ds ih =>
    obtain ⟨hd, hds⟩ := List.forall_mem_cons.1 hds
    rw [expand]
    rcases hstep : q.expandTo n (neighbor (q.square (s.nodes n)) d) s with _ | s₁
    · -- The pool is full.
      refine ⟨[], .refl h, List.nil_sublist _, nofun, fun _ => ?_⟩
      rcases expandTo_cases (q := q) n (neighbor (q.square (s.nodes n)) d) s with ⟨heq, -⟩ |
        ⟨i, -, -, heq⟩ | ⟨-, -, heq⟩
      · rw [heq] at hstep
        cases hstep
      · rw [heq] at hstep
        cases hstep
      · rw [heq, AStarNodes.createOpenNode] at hstep
        split_ifs at hstep with hle
        exact hle
    · have h₁ := Expanded.single h hn hd hstep
      obtain ⟨done, hdone, hsub, hall, hfull⟩ := ih h₁.tree (hn.trans_le h₁.le) hds
      rw [(h₁.kept hn).2.1] at hdone hall hfull
      refine ⟨d :: done, h₁.trans hn hdone, hsub.cons_cons d, fun hf => ?_, hfull⟩
      rw [hall hf]

/-- The directions from a node are among the eight. -/
theorem mem_allNeighbors {d : ℤ × ℤ} (h : d ∈ q.neighbors s n) : d ∈ allNeighbors := by
  have hdir : ∀ dir, ∀ d ∈ dirNeighbors dir, d ∈ allNeighbors := by
    intro dir
    cases dir <;> decide
  rw [neighbors] at h
  split at h
  · exact hdir _ _ (List.mem_of_mem_take h)
  · exact h

/-! ## The search ends -/

/-- What the loop keeps: the tree, the first node, and what was found. -/
structure Search.Ok (q : Query) (s : Search) : Prop where
  tree : q.Tree s.nodes
  first : s.nodes.openNodes 0 = true → s.nodes.curNode = 1
  best : q.Best s.bestMatch
  found : ∀ n pos, s.found = some (n, pos) →
    n < s.nodes.curNode ∧ pos = q.square (s.nodes.nodes n) ∧ q.Held pos

theorem ok_new : Search.Ok q { nodes := .new q.startPos.x q.startPos.y } :=
  ⟨tree_new, fun _ => rfl, .zero, nofun⟩

/-- The loop, once: what comes of it. -/
theorem next_cases (s : Search) :
    q.next s = .failed ∨ q.next s = .stopped s ∨
    ∃ n, s.nodes.getBestNode = some n ∧ (q.next s = .stopped (q.visit s n) ∨
      ¬ ((q.call s n).1 = true ∧ (q.call s n).2 = 0) ∧ q.next s = .running (q.leave s n)) := by
  rw [next]
  rcases s.nodes.getBestNode with _ | n
  · dsimp only
    split_ifs
    · exact .inr (.inl rfl)
    · exact .inl rfl
  · dsimp only
    by_cases hstop : (q.call s n).1 = true ∧ (q.call s n).2 = 0
    · rw [if_pos hstop]
      exact .inr (.inr ⟨n, rfl, .inl rfl⟩)
    · rw [if_neg hstop]
      split_ifs with hfull
      · exact .inl rfl
      · exact .inr (.inr ⟨n, rfl, .inr ⟨hstop, rfl⟩⟩)

variable {σ σ' : Search}

/-- The call keeps what is known; what it finds, the condition held for. -/
theorem Search.Ok.visit (h : σ.Ok q) (hn : n < σ.nodes.curNode) : (q.visit σ n).Ok q := by
  refine ⟨h.tree, h.first, .call h.best, fun m pos hfound => ?_⟩
  rw [Query.visit] at hfound
  dsimp only at hfound
  split_ifs at hfound with hcall
  · obtain ⟨rfl, rfl⟩ := Prod.mk.inj (Option.some.inj hfound)
    exact ⟨hn, rfl, _, h.best, hcall⟩
  · exact h.found m pos hfound

theorem Search.Ok.leave (h : σ.Ok q) (hn : σ.nodes.getBestNode = some n) :
    (q.leave σ n).Ok q ∧ (q.leave σ n).nodes.measure < σ.nodes.measure := by
  obtain ⟨hlt, hopen, -⟩ := AStarNodes.getBestNode_eq_some hn
  obtain ⟨done, hexp, -⟩ := expand_spec h.tree hlt fun d => mem_allNeighbors (q := q)
  rw [← expandNode] at hexp
  have hok := h.visit hlt
  have hkept := hexp.kept hlt
  have hopen' : (q.expandNode σ n).1.openNodes n = true := hkept.2.2.trans hopen
  have hclose := AStarNodes.measure_closeNode (hlt.trans_le hexp.le) hopen'
  refine ⟨⟨hexp.tree.closeNode n, fun h0 => ?_, hok.best, fun m pos hfound => ?_⟩, ?_⟩
  · -- The first node is closed with the first square, and is not reached again.
    rw [Query.leave, AStarNodes.closeNode_openNodes] at h0
    by_cases hn0 : 0 = n
    · rw [hn0, Function.update_self] at h0
      cases h0
    · rw [Function.update_of_ne hn0] at h0
      rcases hexp.changed 0 hexp.tree.wf.pos with hk | hr
      · have := h.first (hk.2.2.symm.trans h0)
        omega
      · exact absurd rfl hr.ne_zero
  · obtain ⟨hm, hpos, hheld⟩ := hok.found m pos hfound
    refine ⟨hm.trans_le hexp.le, ?_, hheld⟩
    rw [hpos]
    exact (hexp.old hm).1.symm
  · rcases hexp.measure with heq | hless
    · rw [heq] at hclose
      rwa [Query.leave, heq]
    · exact hclose.trans hless

/-- The loop keeps what is known, and the pool gets less. -/
theorem Search.Ok.next (h : σ.Ok q) (hrun : q.next σ = .running σ') :
    σ'.Ok q ∧ σ'.nodes.measure < σ.nodes.measure := by
  rcases next_cases σ with heq | heq | ⟨n, hn, heq | ⟨-, heq⟩⟩
  · exact absurd (heq.symm.trans hrun) nofun
  · exact absurd (heq.symm.trans hrun) nofun
  · exact absurd (heq.symm.trans hrun) nofun
  · obtain rfl := Outcome.running.inj (heq.symm.trans hrun)
    exact h.leave hn

/-- What calls of the condition and looking at squares keep, the search keeps. -/
theorem search_invariant {I : Search → Prop}
    (hvisit : ∀ {σ n}, I σ → σ.nodes.getBestNode = some n → I (q.visit σ n))
    (hleave : ∀ {σ n}, I σ → σ.nodes.getBestNode = some n → I (q.leave σ n))
    {fuel : ℕ} (h : I σ) (hrun : q.search fuel σ = some (some σ')) : I σ' := by
  induction fuel generalizing σ with
  | zero => cases hrun
  | succ fuel ih =>
    rw [search] at hrun
    split_ifs at hrun with hgo
    · rcases next_cases σ with heq | heq | ⟨n, hn, heq | ⟨-, heq⟩⟩
      · rw [heq] at hrun
        cases hrun
      · rw [heq] at hrun
        obtain rfl := Option.some.inj (Option.some.inj hrun)
        exact h
      · rw [heq] at hrun
        obtain rfl := Option.some.inj (Option.some.inj hrun)
        exact hvisit h hn
      · rw [heq] at hrun
        exact ih (hleave h hn) hrun
    · obtain rfl := Option.some.inj (Option.some.inj hrun)
      exact h

/-- The search ends. -/
theorem exists_search (h : σ.Ok q) : ∃ fuel r, q.search fuel σ = some r := by
  induction hm : σ.nodes.measure using WellFoundedLT.induction generalizing σ with
  | _ m ih =>
    by_cases hgo : q.fpp.maxSearchDist ≠ 0 ∨ σ.nodes.closedNodes < 100
    · rcases hnext : q.next σ with σ' | σ' | _
      · obtain ⟨hok, hlt⟩ := h.next hnext
        obtain ⟨fuel, r, hr⟩ := ih _ (hm ▸ hlt) hok rfl
        exact ⟨fuel + 1, r, by rw [search, if_pos hgo, hnext]; exact hr⟩
      · exact ⟨1, some σ', by rw [search, if_pos hgo, hnext]⟩
      · exact ⟨1, none, by rw [search, if_pos hgo, hnext]⟩
    · exact ⟨1, some σ, by rw [search, if_neg hgo]⟩

theorem search_mono {fuel fuel' : ℕ} (hle : fuel ≤ fuel') {r : Option Search}
    (h : q.search fuel σ = some r) : q.search fuel' σ = some r := by
  induction fuel generalizing fuel' σ with
  | zero => cases h
  | succ fuel ih =>
    obtain ⟨n, rfl⟩ := Nat.exists_eq_add_of_le' hle
    have hle' : fuel ≤ n + fuel := Nat.le_add_left _ _
    rw [← Nat.add_assoc, search]
    rw [search] at h
    split_ifs at h ⊢ with hgo
    · rcases hnext : q.next σ with σ' | σ' | _
      · rw [hnext] at h
        exact ih hle' h
      · rw [hnext] at h
        exact h
      · rw [hnext] at h
        exact h
    · exact h

/-- The way back ends, as it goes to nodes of less cost. -/
theorem exists_rebuild (h : q.Tree s) {i : ℕ} (hi : i < s.curNode) (prev : Position)
    (dirList : Arraylist) :
    ∃ fuel r, q.rebuild s fuel (s.nodes i).parent prev dirList = some r := by
  induction hf : (s.nodes i).f.toNat using Nat.strong_induction_on
    generalizing i prev dirList with
  | _ m ih =>
    rcases hparent : (s.nodes i).parent with _ | p
    · exact ⟨0, dirList, rfl⟩
    · obtain ⟨hp, hlt⟩ := h.f_parent hi hparent
      have hnonneg := h.nonneg p hp
      obtain ⟨fuel, r, hr⟩ := ih (s.nodes p).f.toNat (by omega) hp _ _ rfl
      exact ⟨fuel + 1, r, hr⟩

theorem rebuild_mono {fuel fuel' : ℕ} (hle : fuel ≤ fuel') {found : Option ℕ} {prev : Position}
    {dirList r : Arraylist} (h : q.rebuild s fuel found prev dirList = some r) :
    q.rebuild s fuel' found prev dirList = some r := by
  induction fuel generalizing fuel' found prev dirList with
  | zero =>
    rcases found with _ | found
    · rw [rebuild] at h ⊢
      exact h
    · cases h
  | succ fuel ih =>
    rcases found with _ | found
    · rw [rebuild] at h ⊢
      exact h
    · obtain ⟨n, rfl⟩ := Nat.exists_eq_add_of_le' hle
      exact ih (Nat.le_add_left fuel n) h

/-- The search for a path ends, and so does the way back. -/
theorem exists_getPathMatching (q : Query) (dirList : Arraylist) :
    ∃ fuel, (q.getPathMatching fuel dirList).isSome = true := by
  obtain ⟨fuel, r, hr⟩ := exists_search (ok_new (q := q))
  rcases r with _ | σ
  · exact ⟨fuel, by rw [getPathMatching, hr]; rfl⟩
  have hok : σ.Ok q := search_invariant
    (fun h hn => h.visit (AStarNodes.getBestNode_eq_some hn).1) (fun h hn => (h.leave hn).1)
    ok_new hr
  rcases hfound : σ.found with _ | ⟨n, endPos⟩
  · refine ⟨fuel, ?_⟩
    rw [getPathMatching, hr]
    dsimp only
    rw [hfound]
    rfl
  · obtain ⟨fuel', l, hl⟩ := exists_rebuild hok.tree (hok.found n endPos hfound).1 endPos dirList
    refine ⟨max fuel fuel', ?_⟩
    rw [getPathMatching, search_mono (le_max_left fuel fuel') hr]
    dsimp only
    rw [hfound]
    dsimp only
    rw [rebuild_mono (le_max_right fuel fuel') hl]
    rfl

theorem getPathMatching_mono {fuel fuel' : ℕ} (hle : fuel ≤ fuel') {dirList : Arraylist}
    {r : Bool × Arraylist} (h : q.getPathMatching fuel dirList = some r) :
    q.getPathMatching fuel' dirList = some r := by
  rw [getPathMatching] at h ⊢
  rcases hsearch : q.search fuel { nodes := .new q.startPos.x q.startPos.y } with _ | σ
  · rw [hsearch] at h
    cases h
  rw [hsearch] at h
  rw [search_mono hle hsearch]
  rcases σ with _ | σ
  · exact h
  dsimp only at h ⊢
  rcases hfound : σ.found with _ | ⟨n, endPos⟩
  · rw [hfound] at h
    exact h
  · rw [hfound] at h
    obtain ⟨l, hl, rfl⟩ := Option.map_eq_some_iff.1 h
    dsimp only
    rw [rebuild_mono hle hl]
    rfl

/-- Nothing is put into the list if there is no path. -/
theorem getPathMatching_eq_false {fuel : ℕ} {dirList dirList' : Arraylist}
    (h : q.getPathMatching fuel dirList = some (false, dirList')) : dirList' = dirList := by
  rw [getPathMatching] at h
  generalize q.search fuel { nodes := .new q.startPos.x q.startPos.y } = r at h
  rcases r with _ | _ | σ
  · cases h
  · exact (Prod.mk.inj (Option.some.inj h)).2.symm
  · dsimp only at h
    generalize σ.found = found at h
    rcases found with _ | ⟨n, endPos⟩
    · exact (Prod.mk.inj (Option.some.inj h)).2.symm
    · obtain ⟨l, -, hl⟩ := Option.map_eq_some_iff.1 h
      cases hl

end Query

end Canary.Map.Pathfinding
