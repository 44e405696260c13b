import Canary.Map.Pathfinding
import Canary.Map.Spectators

/-!
# Keeping a distance

`getDistanceStep` looks for a step that takes a monster away from its target, or at least no closer
to it, and has a branch for each of the eight directions in which the target may be. The four
branches for a target on a diagonal try the same steps, seen from another side (`Diagonal`), and so
do the four others (`Straight`).

A monster that flees takes the step towards its target when all others are blocked. Other steps do
not bring it closer (`getDistanceStep_sound`), unless they lead across the edge of the coordinates,
where the position before 0 is 65535: from there a target can be nearer (`flight_around`).
-/

namespace Canary.Monsters.DistanceStep

open Map (Position)
open Map.Pathfinding (Direction)

/-! ## Steps -/

def getNextPosition (direction : Direction) (pos : Position) : Position :=
  match direction with
  | .north => { pos with y := pos.y - 1 }
  | .south => { pos with y := pos.y + 1 }
  | .west => { pos with x := pos.x - 1 }
  | .east => { pos with x := pos.x + 1 }
  | .southwest => { pos with x := pos.x - 1, y := pos.y + 1 }
  | .northwest => { pos with x := pos.x - 1, y := pos.y - 1 }
  | .northeast => { pos with x := pos.x + 1, y := pos.y - 1 }
  | .southeast => { pos with x := pos.x + 1, y := pos.y + 1 }

def getOffsetX (p q : Position) : ℤ := p.ix - q.ix

def getOffsetY (p q : Position) : ℤ := p.iy - q.iy

/-- The maximum of `getDistanceX` and `getDistanceY`. -/
def distance (p q : Position) : ℕ := max (getOffsetX p q).natAbs (getOffsetY p q).natAbs

/-- The random numbers of a call. -/
structure Dice where
  /-- `boolean_random` -/
  boolean : Bool
  /-- `dirList` when it has been shuffled. -/
  dirList : List Direction
  perm : dirList.Perm [.north, .west, .east, .south]

/-! ## A target on a diagonal -/

/-- The steps for a target on a diagonal, in the order in which they are tried. -/
structure Diagonal where
  /-- The two directions away from the target, and the diagonal between them. -/
  one : Direction
  two : Direction
  between : Direction
  /-- The two other directions, taken if the monster flees. -/
  fleeOne : Direction
  fleeTwo : Direction
  /-- One of them, if a diagonal next to it is free, and the other. -/
  first : Direction × Direction
  second : Direction × Direction
  sides : first.1 ∈ [fleeOne, fleeTwo] ∧ second.1 ∈ [fleeOne, fleeTwo]

namespace Diagonal

/-- The directions for a target in the northwest. -/
def northwest : Diagonal where
  one := .south
  two := .east
  between := .southeast
  fleeOne := .north
  fleeTwo := .west
  first := (.west, .southwest)
  second := (.north, .northeast)
  sides := by decide

def southeast : Diagonal where
  one := .west
  two := .north
  between := .northwest
  fleeOne := .south
  fleeTwo := .east
  first := (.south, .southwest)
  second := (.east, .northeast)
  sides := by decide

def southwest : Diagonal where
  one := .north
  two := .east
  between := .northeast
  fleeOne := .south
  fleeTwo := .west
  first := (.west, .northwest)
  second := (.south, .southeast)
  sides := by decide

def northeast : Diagonal where
  one := .west
  two := .south
  between := .southwest
  fleeOne := .north
  fleeTwo := .east
  first := (.east, .southeast)
  second := (.north, .northwest)
  sides := by decide

variable (t : Diagonal)

/-- The branch of `getDistanceStep`, with what it sets `moveDirection` to. -/
def step (walk : Direction → Bool) (boolean flee : Bool) : Option Direction :=
  if walk t.one && walk t.two then some (if boolean then t.one else t.two)
  else if walk t.one then some t.one
  else if walk t.two then some t.two
  else if walk t.between then some t.between
  else if flee && (walk t.fleeOne && walk t.fleeTwo) then
    some (if boolean then t.fleeOne else t.fleeTwo)
  else if flee && walk t.fleeOne then some t.fleeOne
  else if flee && walk t.fleeTwo then some t.fleeTwo
  else if walk t.first.1 && walk t.first.2 then some t.first.1
  else if walk t.second.1 && walk t.second.2 then some t.second.1
  else none

/-- The directions that may be taken. -/
def ways : List Direction := [t.one, t.two, t.between, t.fleeOne, t.fleeTwo]

/-- The directions that are looked at. -/
def considered : List Direction := t.ways ++ [t.first.2, t.second.2]

end Diagonal

/-! ## A target straight ahead -/

/-- The steps for a target that is further away on one axis than on the other. -/
structure Straight where
  /-- The direction away from the target, and the two aside. -/
  away : Direction
  left : Direction
  right : Direction
  /-- A direction aside and the diagonal next to it, and the others, in the order in which they are
      tried. -/
  first : Direction × Direction
  second : Direction × Direction
  toward : Direction
  sides : first.1 ∈ [left, right] ∧ second.1 ∈ [left, right]

namespace Straight

/-- The directions for a target in the north. -/
def north : Straight where
  away := .south
  left := .west
  right := .east
  first := (.west, .southwest)
  second := (.east, .southeast)
  toward := .north
  sides := by decide

def south : Straight where
  away := .north
  left := .west
  right := .east
  first := (.west, .northwest)
  second := (.east, .northeast)
  toward := .south
  sides := by decide

def west : Straight where
  away := .east
  left := .north
  right := .south
  first := (.south, .southeast)
  second := (.north, .northeast)
  toward := .west
  sides := by decide

def east : Straight where
  away := .west
  left := .north
  right := .south
  first := (.north, .northwest)
  second := (.south, .southwest)
  toward := .east
  sides := by decide

variable (t : Straight)

/-- The branch of `getDistanceStep`, given the offset to the side. -/
def step (walk : Direction → Bool) (boolean flee : Bool) (offset : ℤ) : Option Direction :=
  if walk t.away then some t.away
  else if walk t.left && walk t.right && offset = 0 then some (if boolean then t.left else t.right)
  else if walk t.left && decide (offset ≤ 0) then some t.left
  else if walk t.right && decide (offset ≥ 0) then some t.right
  else if flee && (walk t.left && walk t.right) then some (if boolean then t.left else t.right)
  else if flee && walk t.left then some t.left
  else if flee && walk t.right then some t.right
  else if walk t.first.2 || walk t.second.2 then
    if walk t.first.2 && walk t.second.2 then some (if boolean then t.first.2 else t.second.2)
    else if walk t.first.1 then some t.first.1
    else if walk t.first.2 then some t.first.2
    else if walk t.second.1 then some t.second.1
    else if walk t.second.2 then some t.second.2
    else none
  else if flee && walk t.toward then some t.toward
  else none

/-- The directions that do not lead towards the target. -/
def ways : List Direction := [t.away, t.left, t.right, t.first.2, t.second.2]

/-- The directions that are looked at. -/
def considered : List Direction := t.ways ++ [t.toward]

end Straight

/-! ## The step -/

/-- Where the target is. -/
inductive Relation
  | same
  | diagonal (t : Diagonal)
  | straight (t : Straight) (offset : ℤ)

/-- The branch of `getDistanceStep` for the offsets from the target. -/
def relation (offsetx offsety : ℤ) : Relation :=
  if offsetx = 0 ∧ offsety = 0 then .same
  else if offsetx.natAbs = offsety.natAbs ∧ offsetx ≥ 1 ∧ offsety ≥ 1 then .diagonal .northwest
  else if offsetx.natAbs = offsety.natAbs ∧ offsetx ≤ -1 ∧ offsety ≤ -1 then .diagonal .southeast
  else if offsetx.natAbs = offsety.natAbs ∧ offsetx ≥ 1 ∧ offsety ≤ -1 then .diagonal .southwest
  else if offsetx.natAbs = offsety.natAbs ∧ offsetx ≤ -1 ∧ offsety ≥ 1 then .diagonal .northeast
  else if offsety.natAbs > offsetx.natAbs then
    if offsety < 0 then .straight .south offsetx else .straight .north offsetx
  else if offsetx < 0 then .straight .east offsety
  else .straight .west offsety

/-- The directions that are looked at in a branch. -/
def Relation.considered : Relation → List Direction
  | same => [.north, .west, .east, .south]
  | diagonal t => t.considered
  | straight t _ => t.considered

structure Monster where
  position : Position
  targetDistance : ℤ
  stepDuration : ℤ
  /-- The squares of the spawn range on which the monster may step. -/
  walkable : Position → Bool
  isSightClear : Position → Position → Bool

/-- What a call answers, the direction if it has been set, and the new `stepDuration`. -/
structure Outcome where
  result : Bool
  moveDirection : Option Direction
  stepDuration : ℤ
  deriving DecidableEq

namespace Monster

variable (m : Monster)

def canWalkTo (pos : Position) (moveDirection : Direction) : Bool :=
  m.walkable (getNextPosition moveDirection pos)

def getRandomStep (dice : Dice) : Option Direction :=
  dice.dirList.find? (m.canWalkTo m.position)

def nextStepDuration (dx dy : ℕ) : ℤ :=
  if dx ≤ 1 ∧ dy ≤ 1 then if m.stepDuration < 2 then m.stepDuration + 1 else m.stepDuration
  else if m.stepDuration > 0 then m.stepDuration - 1
  else m.stepDuration

def getDistanceStep (dice : Dice) (targetPos : Position) (flee : Bool) : Outcome :=
  let dist : ℤ := distance m.position targetPos
  if !flee && (decide (dist > m.targetDistance) || !m.isSightClear m.position targetPos) then
    ⟨false, none, m.stepDuration⟩
  else if !flee && dist = m.targetDistance then ⟨true, none, m.stepDuration⟩
  else
    let offsetx := getOffsetX m.position targetPos
    let offsety := getOffsetY m.position targetPos
    let stepDuration := m.nextStepDuration offsetx.natAbs offsety.natAbs
    let walk := m.canWalkTo m.position
    match relation offsetx offsety with
    | .same =>
      let moveDirection := m.getRandomStep dice
      ⟨moveDirection.isSome, moveDirection, stepDuration⟩
    | .diagonal t => ⟨true, t.step walk dice.boolean flee, stepDuration⟩
    | .straight t offset => ⟨true, t.step walk dice.boolean flee offset, stepDuration⟩

/-- The directions at which a call looks. -/
def considered (targetPos : Position) : List Direction :=
  (relation (getOffsetX m.position targetPos) (getOffsetY m.position targetPos)).considered

/-- A step brings the monster closer to the target. -/
def Closer (targetPos : Position) (direction : Direction) : Prop :=
  distance (getNextPosition direction m.position) targetPos < distance m.position targetPos

end Monster

/-- The position after a step is not next to the one before: a coordinate goes from 0 to 65535, or
    back. -/
def CrossesEdge (pos : Position) (direction : Direction) : Prop :=
  (getNextPosition direction pos).ix ≠ pos.ix + direction.offset.1 ∨
    (getNextPosition direction pos).iy ≠ pos.iy + direction.offset.2

/-! ## The branches -/

theorem mem_ite {α : Type*} {c : Prop} [Decidable c] {a b : α} {x : Option α}
    (h : b ∈ if c then some a else x) : (c ∧ b = a) ∨ (¬ c ∧ b ∈ x) := by
  by_cases hc : c
  · rw [if_pos hc] at h
    exact .inl ⟨hc, (Option.some.inj h).symm⟩
  · rw [if_neg hc] at h
    exact .inr ⟨hc, h⟩

theorem of_ite_eq_none {α : Type*} {c : Prop} [Decidable c] {a : α} {x : Option α}
    (h : (if c then some a else x) = none) : ¬ c ∧ x = none := by
  by_cases hc : c
  · rw [if_pos hc] at h
    cases h
  · rw [if_neg hc] at h
    exact ⟨hc, h⟩

section branches

variable {walk : Direction → Bool} {boolean flee : Bool} {direction : Direction}

/-- Either of two steps can be taken. -/
theorem walk_either {one two : Direction} (h : (walk one && walk two) = true) (boolean : Bool) :
    walk (if boolean then one else two) = true := by
  rw [Bool.and_eq_true] at h
  cases boolean
  · exact h.2
  · exact h.1

theorem either_mem {l : List Direction} {one two : Direction} (hone : one ∈ l) (htwo : two ∈ l)
    (boolean : Bool) : (if boolean then one else two) ∈ l := by
  cases boolean
  · exact htwo
  · exact hone

/-- A step on a diagonal can be taken, and is not towards the target. -/
theorem Diagonal.of_mem_step {t : Diagonal} (h : direction ∈ t.step walk boolean flee) :
    walk direction = true ∧ direction ∈ t.ways := by
  have hone : t.one ∈ t.ways := List.mem_cons_self
  have htwo : t.two ∈ t.ways := List.mem_of_mem_tail List.mem_cons_self
  have hbetween : t.between ∈ t.ways :=
    List.mem_append_right [t.one, t.two] List.mem_cons_self
  have hflee : ∀ dir ∈ [t.fleeOne, t.fleeTwo], dir ∈ t.ways := fun _ hdir =>
    List.mem_append_right [t.one, t.two, t.between] hdir
  have hfleeOne := hflee t.fleeOne List.mem_cons_self
  have hfleeTwo := hflee t.fleeTwo (List.mem_of_mem_tail List.mem_cons_self)
  rw [Diagonal.step] at h
  rcases mem_ite h with ⟨hc, rfl⟩ | ⟨-, h⟩
  · exact ⟨walk_either hc boolean, either_mem hone htwo boolean⟩
  rcases mem_ite h with ⟨hc, rfl⟩ | ⟨-, h⟩
  · exact ⟨hc, hone⟩
  rcases mem_ite h with ⟨hc, rfl⟩ | ⟨-, h⟩
  · exact ⟨hc, htwo⟩
  rcases mem_ite h with ⟨hc, rfl⟩ | ⟨-, h⟩
  · exact ⟨hc, hbetween⟩
  -- The monster flees.
  rcases mem_ite h with ⟨hc, rfl⟩ | ⟨-, h⟩
  · exact ⟨walk_either (Bool.and_eq_true_iff.1 hc).2 boolean, either_mem hfleeOne hfleeTwo boolean⟩
  rcases mem_ite h with ⟨hc, rfl⟩ | ⟨-, h⟩
  · exact ⟨(Bool.and_eq_true_iff.1 hc).2, hfleeOne⟩
  rcases mem_ite h with ⟨hc, rfl⟩ | ⟨-, h⟩
  · exact ⟨(Bool.and_eq_true_iff.1 hc).2, hfleeTwo⟩
  -- A diagonal next to it is free.
  rcases mem_ite h with ⟨hc, rfl⟩ | ⟨-, h⟩
  · exact ⟨(Bool.and_eq_true_iff.1 hc).1, hflee _ t.sides.1⟩
  rcases mem_ite h with ⟨hc, rfl⟩ | ⟨-, h⟩
  · exact ⟨(Bool.and_eq_true_iff.1 hc).1, hflee _ t.sides.2⟩
  cases h

/-- A monster that flees on a diagonal does not stop if it can step along an axis. -/
theorem Diagonal.walk_of_step_eq_none {t : Diagonal} (h : t.step walk boolean true = none) :
    ∀ dir ∈ [t.one, t.two, t.fleeOne, t.fleeTwo], walk dir = false := by
  rw [Diagonal.step] at h
  obtain ⟨-, h⟩ := of_ite_eq_none h
  obtain ⟨hone, h⟩ := of_ite_eq_none h
  obtain ⟨htwo, h⟩ := of_ite_eq_none h
  obtain ⟨-, h⟩ := of_ite_eq_none h
  obtain ⟨-, h⟩ := of_ite_eq_none h
  obtain ⟨hfleeOne, h⟩ := of_ite_eq_none h
  obtain ⟨hfleeTwo, -⟩ := of_ite_eq_none h
  rw [Bool.true_and] at hfleeOne hfleeTwo
  intro dir hdir
  simp only [List.mem_cons, List.not_mem_nil, or_false] at hdir
  rw [← Bool.not_eq_true]
  rcases hdir with rfl | rfl | rfl | rfl
  · exact hone
  · exact htwo
  · exact hfleeOne
  · exact hfleeTwo

/-- A step straight ahead can be taken, and is only towards the target if the monster flees and
    nothing else is free. -/
theorem Straight.of_mem_step {t : Straight} {offset : ℤ}
    (h : direction ∈ t.step walk boolean flee offset) :
    walk direction = true ∧ (direction ∈ t.ways ∨
      direction = t.toward ∧ flee = true ∧ ∀ other ∈ t.ways, walk other = false) := by
  have haway : t.away ∈ t.ways := List.mem_cons_self
  have hside : ∀ dir ∈ [t.left, t.right], dir ∈ t.ways := fun dir hdir =>
    List.mem_cons_of_mem t.away (List.mem_append_left [t.first.2, t.second.2] hdir)
  have hleft := hside t.left List.mem_cons_self
  have hright := hside t.right (List.mem_of_mem_tail List.mem_cons_self)
  have hdiagonal : ∀ dir ∈ [t.first.2, t.second.2], dir ∈ t.ways := fun dir hdir =>
    List.mem_append_right [t.away, t.left, t.right] hdir
  have hfirst := hdiagonal t.first.2 List.mem_cons_self
  have hsecond := hdiagonal t.second.2 (List.mem_of_mem_tail List.mem_cons_self)
  rw [Straight.step] at h
  rcases mem_ite h with ⟨hc, rfl⟩ | ⟨hnaway, h⟩
  · exact ⟨hc, .inl haway⟩
  rcases mem_ite h with ⟨hc, rfl⟩ | ⟨-, h⟩
  · exact ⟨walk_either (Bool.and_eq_true_iff.1 hc).1 boolean,
      .inl (either_mem hleft hright boolean)⟩
  rcases mem_ite h with ⟨hc, rfl⟩ | ⟨-, h⟩
  · exact ⟨(Bool.and_eq_true_iff.1 hc).1, .inl hleft⟩
  rcases mem_ite h with ⟨hc, rfl⟩ | ⟨-, h⟩
  · exact ⟨(Bool.and_eq_true_iff.1 hc).1, .inl hright⟩
  -- The monster flees to the side.
  rcases mem_ite h with ⟨hc, rfl⟩ | ⟨-, h⟩
  · exact ⟨walk_either (Bool.and_eq_true_iff.1 hc).2 boolean,
      .inl (either_mem hleft hright boolean)⟩
  rcases mem_ite h with ⟨hc, rfl⟩ | ⟨hnleft, h⟩
  · exact ⟨(Bool.and_eq_true_iff.1 hc).2, .inl hleft⟩
  rcases mem_ite h with ⟨hc, rfl⟩ | ⟨hnright, h⟩
  · exact ⟨(Bool.and_eq_true_iff.1 hc).2, .inl hright⟩
  by_cases hdiagonals : (walk t.first.2 || walk t.second.2) = true
  · rw [if_pos hdiagonals] at h
    rcases mem_ite h with ⟨hc, rfl⟩ | ⟨-, h⟩
    · exact ⟨walk_either hc boolean, .inl (either_mem hfirst hsecond boolean)⟩
    rcases mem_ite h with ⟨hc, rfl⟩ | ⟨-, h⟩
    · exact ⟨hc, .inl (hside _ t.sides.1)⟩
    rcases mem_ite h with ⟨hc, rfl⟩ | ⟨-, h⟩
    · exact ⟨hc, .inl hfirst⟩
    rcases mem_ite h with ⟨hc, rfl⟩ | ⟨-, h⟩
    · exact ⟨hc, .inl (hside _ t.sides.2)⟩
    rcases mem_ite h with ⟨hc, rfl⟩ | ⟨-, h⟩
    · exact ⟨hc, .inl hsecond⟩
    cases h
  · rw [if_neg hdiagonals] at h
    rcases mem_ite h with ⟨hc, rfl⟩ | ⟨-, h⟩
    · obtain ⟨hflee, htoward⟩ := Bool.and_eq_true_iff.1 hc
      rw [hflee, Bool.true_and, Bool.not_eq_true] at hnleft hnright
      rw [Bool.not_eq_true, Bool.or_eq_false_iff] at hdiagonals
      rw [Bool.not_eq_true] at hnaway
      refine ⟨htoward, .inr ⟨rfl, hflee, fun other hother => ?_⟩⟩
      simp only [Straight.ways, List.mem_cons, List.not_mem_nil, or_false] at hother
      rcases hother with rfl | rfl | rfl | rfl | rfl
      · exact hnaway
      · exact hnleft
      · exact hnright
      · exact hdiagonals.1
      · exact hdiagonals.2
    · cases h

/-- A monster that flees straight ahead does not stop if it can step along an axis. -/
theorem Straight.walk_of_step_eq_none {t : Straight} {offset : ℤ}
    (h : t.step walk boolean true offset = none) :
    ∀ dir ∈ [t.away, t.left, t.right, t.toward], walk dir = false := by
  rw [Straight.step] at h
  obtain ⟨haway, h⟩ := of_ite_eq_none h
  obtain ⟨-, h⟩ := of_ite_eq_none h
  obtain ⟨-, h⟩ := of_ite_eq_none h
  obtain ⟨-, h⟩ := of_ite_eq_none h
  obtain ⟨-, h⟩ := of_ite_eq_none h
  obtain ⟨hleft, h⟩ := of_ite_eq_none h
  obtain ⟨hright, h⟩ := of_ite_eq_none h
  have htoward : ¬ walk t.toward = true := by
    by_cases hdiagonals : (walk t.first.2 || walk t.second.2) = true
    · -- One of the diagonals is free, and is taken.
      rw [if_pos hdiagonals] at h
      obtain ⟨-, h⟩ := of_ite_eq_none h
      obtain ⟨-, h⟩ := of_ite_eq_none h
      obtain ⟨hfirst, h⟩ := of_ite_eq_none h
      obtain ⟨-, h⟩ := of_ite_eq_none h
      obtain ⟨hsecond, -⟩ := of_ite_eq_none h
      rcases Bool.or_eq_true_iff.1 hdiagonals with hwalk | hwalk
      · exact absurd hwalk hfirst
      · exact absurd hwalk hsecond
    · rw [if_neg hdiagonals] at h
      exact (of_ite_eq_none h).1
  rw [Bool.true_and] at hleft hright
  intro dir hdir
  simp only [List.mem_cons, List.not_mem_nil, or_false] at hdir
  rw [← Bool.not_eq_true]
  rcases hdir with rfl | rfl | rfl | rfl
  · exact haway
  · exact hleft
  · exact hright
  · exact htoward

end branches

/-! ## Distances -/

/-- By a step in the direction, neither of the offsets gets so small that the distance does. -/
def Keeps (offsetx offsety : ℤ) (direction : Direction) : Prop :=
  max offsetx.natAbs offsety.natAbs ≤
    max (offsetx + direction.offset.1).natAbs (offsety + direction.offset.2).natAbs

/-- The directions of a branch that do not lead towards the target. -/
def Relation.ways : Relation → List Direction
  | same => [.north, .west, .east, .south]
  | diagonal t => t.ways
  | straight t _ => t.ways

/-- The directions of a branch that lead along an axis. -/
def Relation.axes : Relation → List Direction
  | same => [.north, .west, .east, .south]
  | diagonal t => [t.one, t.two, t.fleeOne, t.fleeTwo]
  | straight t _ => [t.away, t.left, t.right, t.toward]

theorem mem_axes (offsetx offsety : ℤ) {dir : Direction} (hdir : dir.isDiagonal = false) :
    dir ∈ (relation offsetx offsety).axes := by
  rw [relation]
  cases dir with
  | north | east | south | west => split_ifs <;> exact List.mem_of_elem_eq_true rfl
  | southwest | southeast | northwest | northeast => cases hdir

/-- No way of a branch brings the monster closer. -/
theorem keeps_of_mem_ways {offsetx offsety : ℤ} {dir : Direction}
    (hdir : dir ∈ (relation offsetx offsety).ways) : Keeps offsetx offsety dir := by
  rw [relation] at hdir
  split_ifs at hdir <;>
    simp only [Relation.ways, Diagonal.ways, Straight.ways, Diagonal.northwest, Diagonal.southeast,
      Diagonal.southwest, Diagonal.northeast, Straight.north, Straight.south, Straight.west,
      Straight.east, List.mem_cons, List.not_mem_nil, or_false] at hdir <;>
    rcases hdir with rfl | rfl | rfl | rfl | rfl <;>
    simp only [Keeps, Direction.offset] <;>
    omega

variable {m : Monster} {targetPos : Position}

/-- Unless it leads across the edge of the coordinates, no way of a branch brings the monster
    closer. -/
theorem not_closer_of_mem_ways {dir : Direction}
    (hdir : dir ∈ (relation (getOffsetX m.position targetPos)
      (getOffsetY m.position targetPos)).ways) (hedge : ¬ CrossesEdge m.position dir) :
    ¬ m.Closer targetPos dir := by
  have hkeeps := keeps_of_mem_ways hdir
  rw [CrossesEdge, not_or, not_not, not_not] at hedge
  have hx : getOffsetX (getNextPosition dir m.position) targetPos =
      getOffsetX m.position targetPos + dir.offset.1 := by
    rw [getOffsetX, hedge.1, getOffsetX]
    omega
  have hy : getOffsetY (getNextPosition dir m.position) targetPos =
      getOffsetY m.position targetPos + dir.offset.2 := by
    rw [getOffsetY, hedge.2, getOffsetY]
    omega
  rw [Monster.Closer, distance, distance, hx, hy]
  exact not_lt.2 hkeeps

/-! ## The law -/

/-- The direction that is set can be taken. It is a way of the branch, or it leads towards the
    target, and the monster flees and the ways are blocked. -/
theorem of_mem_moveDirection {dice : Dice} {flee : Bool} {dir : Direction}
    (h : dir ∈ (m.getDistanceStep dice targetPos flee).moveDirection) :
    m.canWalkTo m.position dir = true ∧
      (dir ∈ (relation (getOffsetX m.position targetPos)
        (getOffsetY m.position targetPos)).ways ∨
      flee = true ∧ ∃ t offset, relation (getOffsetX m.position targetPos)
        (getOffsetY m.position targetPos) = .straight t offset ∧ dir = t.toward ∧
          ∀ other ∈ t.ways, m.canWalkTo m.position other = false) := by
  rw [Monster.getDistanceStep] at h
  dsimp only at h
  split at h
  · cases h
  · split at h
    · cases h
    · generalize relation (getOffsetX m.position targetPos) (getOffsetY m.position targetPos) = r
        at h ⊢
      cases r with
      | same =>
        refine ⟨List.find?_some h, .inl ?_⟩
        exact dice.perm.mem_iff.1 (List.mem_of_find?_eq_some h)
      | diagonal t =>
        obtain ⟨hwalk, hways⟩ := Diagonal.of_mem_step h
        exact ⟨hwalk, .inl hways⟩
      | straight t offset =>
        obtain ⟨hwalk, hways | ⟨hdir, hflee, hblocked⟩⟩ := Straight.of_mem_step h
        · exact ⟨hwalk, .inl hways⟩
        · exact ⟨hwalk, .inr ⟨hflee, t, offset, rfl, hdir, hblocked⟩⟩

/-- A monster that flees steps along an axis if it can, or nothing is found. -/
theorem walk_of_moveDirection_eq_none {dice : Dice} {dir : Direction}
    (hresult : (m.getDistanceStep dice targetPos true).result = true)
    (hnone : (m.getDistanceStep dice targetPos true).moveDirection = none)
    (hdir : dir.isDiagonal = false) : m.canWalkTo m.position dir = false := by
  have haxes := mem_axes (getOffsetX m.position targetPos) (getOffsetY m.position targetPos) hdir
  rw [Monster.getDistanceStep] at hresult hnone
  dsimp only at hresult hnone
  generalize relation (getOffsetX m.position targetPos) (getOffsetY m.position targetPos) = r
    at haxes hresult hnone
  cases r with
  | same =>
    have hfound : (m.getRandomStep dice).isSome = true := hresult
    have hnothing : m.getRandomStep dice = none := hnone
    rw [hnothing] at hfound
    cases hfound
  | diagonal t => exact Diagonal.walk_of_step_eq_none hnone dir haxes
  | straight t offset => exact Straight.walk_of_step_eq_none hnone dir haxes

/-- What a call may set `moveDirection` to. -/
structure Sound (m : Monster) (dice : Dice) (targetPos : Position) (flee : Bool) : Prop where
  walks : ∀ dir ∈ (m.getDistanceStep dice targetPos flee).moveDirection,
    m.canWalkTo m.position dir = true
  keeps : flee = false → ∀ dir ∈ (m.getDistanceStep dice targetPos flee).moveDirection,
    ¬ CrossesEdge m.position dir → ¬ m.Closer targetPos dir
  lastResort : flee = true → ∀ dir ∈ (m.getDistanceStep dice targetPos flee).moveDirection,
    ¬ CrossesEdge m.position dir → m.Closer targetPos dir →
      ∀ other ∈ m.considered targetPos, ¬ m.Closer targetPos other →
        m.canWalkTo m.position other = false
  moves : flee = true → (m.getDistanceStep dice targetPos flee).result = true →
    ∀ dir : Direction, dir.isDiagonal = false → ¬ m.Closer targetPos dir →
      m.canWalkTo m.position dir = true →
        (m.getDistanceStep dice targetPos flee).moveDirection.isSome = true

/-- The direction that is set can be taken, and does not bring the monster closer, unless it leads
    across the edge of the coordinates, or the monster flees and the other squares are blocked. -/
theorem getDistanceStep_sound (m : Monster) (dice : Dice) (targetPos : Position) (flee : Bool) :
    Sound m dice targetPos flee := by
  constructor
  case walks => exact fun dir hdir => (of_mem_moveDirection hdir).1
  case keeps =>
    intro hflee dir hdir hedge
    rcases (of_mem_moveDirection hdir).2 with hways | ⟨hflee', -⟩
    · exact not_closer_of_mem_ways hways hedge
    · exact absurd (hflee.symm.trans hflee') Bool.false_ne_true
  case lastResort =>
    intro _ dir hdir hedge hcloser other hother hnot
    rcases (of_mem_moveDirection hdir).2 with hways | ⟨-, t, offset, hrelation, rfl, hblocked⟩
    · exact absurd hcloser (not_closer_of_mem_ways hways hedge)
    · rw [Monster.considered, hrelation] at hother
      rcases List.mem_append.1 hother with hother | hother
      · exact hblocked other hother
      · rw [List.mem_singleton.1 hother] at hnot
        exact absurd hcloser hnot
  case moves =>
    intro hflee hresult dir hdir _ hwalk
    subst hflee
    rw [Option.isSome_iff_ne_none]
    intro hnone
    rw [walk_of_moveDirection_eq_none hresult hnone hdir] at hwalk
    cases hwalk

/-- A monster at the edge of the coordinates, with free squares around it. -/
def flier : Monster where
  position := ⟨0, 100, 7⟩
  targetDistance := 1
  stepDuration := 0
  walkable _ := true
  isSightClear _ _ := true

/-- The numbers of a call in which nothing is shuffled. -/
def unshuffled : Dice := ⟨false, _, .refl _⟩

instance (m : Monster) (targetPos : Position) (direction : Direction) :
    Decidable (m.Closer targetPos direction) :=
  inferInstanceAs (Decidable (_ < _))

/-- The flight from a target in the east goes west, to the other edge, and so closer to the target,
    though the square in the north is free and no closer. -/
theorem flight_around :
    .west ∈ (flier.getDistanceStep unshuffled ⟨40000, 100, 7⟩ true).moveDirection ∧
      flier.Closer ⟨40000, 100, 7⟩ .west ∧
        .north ∈ flier.considered ⟨40000, 100, 7⟩ ∧ ¬ flier.Closer ⟨40000, 100, 7⟩ .north ∧
          flier.canWalkTo flier.position .north = true := by
  decide +kernel

end Canary.Monsters.DistanceStep
