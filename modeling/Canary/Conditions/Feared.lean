import Canary.Lib.Transition
import Canary.Lib.Until
import Canary.Map.Pathfinding

/-!
# Feared creatures

A feared creature flees from a caster. `getFleeDirection` picks a direction by where the creature
is, seen from the caster. `getFleePath` then tries squares that are 15, 9, 3 and 1 steps away, in
this direction and, if there is no path, in the next ones around.

* The loop over the directions goes on only if the last square had no path at all. An empty path to
  it, where the creature can just stay, ends the loop, and so `getFleePath` may return an empty list
  of directions. If there is no path of any kind to any square, it does not return.
* The square that is tried for north, east and west is on the other side, towards the caster or
  behind it. So it is further away from the caster than the creature only if the creature is close
  to it.

So a creature that can walk flees if in some direction there is a path, with no direction before it
in which it can just stay, and if its first square is not nearer to the caster (`flees_iff`).
-/

namespace Canary.Conditions.Feared

open Map Map.Pathfinding Map.SightLine Transition Until

/-! ## The creature -/

/-- A creature on a square of the map. -/
structure Scene where
  world : World
  creature : Walker
  position : Position
  /-- `tile->queryAdd(0, creature, 1, FLAG_PATHFINDING) == RETURNVALUE_NOERROR` -/
  queryAdd : Position → Bool

namespace Scene

variable (s : Scene)

def isSightClear (fromPos toPos : Position) (floorCheck : Bool) : Bool :=
  SightLine.isSightClear s.world (SightLine.length fromPos toPos + 257) fromPos toPos floorCheck =
    some true

def query (targetPos : Position) : Query where
  world := s.world
  creature := some s.creature
  startPos := s.position
  pathCondition := frozenPathingConditionCall s.isSightClear targetPos
  fpp := { fullPathSearch := true, maxSearchDist := 7, clearSight := true, minTargetDist := 0,
           maxTargetDist := 30 }

/-- `Creature::getPathTo` -/
def getPathTo (fuel : ℕ) (targetPos : Position) (dirList : Arraylist) :
    Option (Bool × Arraylist) :=
  (s.query targetPos).getPathMatching fuel dirList

end Scene

/-! ## The condition -/

/-- The value of a direction in its enumeration. -/
def value : Direction → UInt8
  | .north => 0
  | .east => 1
  | .south => 2
  | .west => 3
  | .southwest => 4
  | .southeast => 5
  | .northwest => 6
  | .northeast => 7

def m_directionsVector : List Direction :=
  [.north, .northeast, .east, .southeast, .south, .southwest, .west, .northwest]

structure ConditionFeared where
  fleeingFromPos : Position
  fleeIndx : UInt8 := 99
  deriving DecidableEq

def canWalkTo (s : Scene) (pos : Position) (moveDirection : Direction) : Bool :=
  let pos := Query.neighbor pos moveDirection.offset
  (s.world pos).isSome && !s.creature.topVisibleCreature pos && s.queryAdd pos &&
    !(s.creature.fieldItem pos).any fun field => !field.isBlocking && field.damage ≠ 0

def isStuck (s : Scene) (pos : Position) : Bool :=
  m_directionsVector.all fun dir => !canWalkTo s pos dir

/-- The squares to flee to. -/
def walkSize : List UInt16 := [15, 9, 3, 1]

def futurePos (pos : Position) (wsize : UInt16) : Direction → Position
  | .north => { pos with y := pos.y + wsize }
  | .northeast => { pos with x := pos.x + wsize, y := pos.y - wsize }
  | .east => { pos with x := pos.x - wsize }
  | .southeast => { pos with x := pos.x - wsize, y := pos.y + wsize }
  | .south => { pos with y := pos.y + wsize }
  | .southwest => { pos with x := pos.x + wsize, y := pos.y + wsize }
  | .west => { pos with x := pos.x + wsize }
  | .northwest => { pos with x := pos.x + wsize, y := pos.y - wsize }

namespace ConditionFeared

variable (c : ConditionFeared) (s : Scene)

/-- The directions have been shuffled. -/
def getRandomDirection (directions : List Direction) (pos : Position) : Bool × ConditionFeared :=
  match directions.find? (canWalkTo s pos) with
  | some dir => (true, { c with fleeIndx := value dir })
  | none => (false, c)

def getFleeDirection (directions : List Direction) : Bool × ConditionFeared :=
  let creaturePos := s.position
  let offx := creaturePos.ix - c.fleeingFromPos.ix
  let offy := creaturePos.iy - c.fleeingFromPos.iy
  if offx = 0 ∧ offy = 0 then c.getRandomDirection s directions creaturePos
  else if offx ≥ 1 ∧ offy ≤ 0 then
    (true, { c with fleeIndx := if offy = 0 then 2 else 0 })
  else if offx ≥ 0 ∧ offy ≥ 1 then
    (true, { c with fleeIndx := if offx = 0 then 4 else 2 })
  else if offx ≤ -1 ∧ offy ≥ 0 then
    (true, { c with fleeIndx := if offy = 0 then 6 else 4 })
  else if offx ≤ 0 ∧ offy ≤ -1 then
    (true, { c with fleeIndx := if offx = 0 then 0 else 6 })
  else (false, c)

/-- The index is reset at the end of the directions. -/
def reset : ConditionFeared := if c.fleeIndx = 8 then { c with fleeIndx := 0 } else c

/-- The next direction. -/
def advance : ConditionFeared := { c with fleeIndx := c.fleeIndx + 1 }

/-- What the loop over the sizes comes to: it returns as there is no way to go, there is no such
    direction, or it is done with the last call of `getPathTo`. -/
inductive Tried
  | stuck (c : ConditionFeared) (dirList : Arraylist)
  | outOfRange
  | done (c : ConditionFeared) (found : Bool) (dirList : Arraylist)

def tryWalks (fuel : ℕ) : List UInt16 → ConditionFeared → Bool → Arraylist → Option Tried
  | [], c, found, dirList => some (.done c found dirList)
  | wsize :: walkSize, c, _, dirList =>
    let c := c.reset
    if isStuck s s.position then some (.stuck c dirList)
    else match m_directionsVector[c.fleeIndx.toNat]? with
      | none => some .outOfRange
      | some dir =>
        match s.getPathTo fuel (futurePos s.position wsize dir) dirList with
        | none => none
        | some (found, dirList) =>
          if found = true ∧ dirList.data.length > 0 then some (.done c found dirList)
          else tryWalks fuel walkSize c found dirList

/-- What `getFleePath` comes to. -/
inductive Fled
  | outOfRange
  | returned (result : Bool) (c : ConditionFeared) (dirList : Arraylist)
  deriving DecidableEq

/-- `getFleePath`, which may go on and on. -/
def getFleePath : ℕ → ConditionFeared → Arraylist → Option Fled
  | 0, _, _ => none
  | fuel + 1, c, dirList =>
    match tryWalks s fuel walkSize c false dirList with
    | none => none
    | some (.stuck c dirList) => some (.returned false c dirList)
    | some .outOfRange => some .outOfRange
    | some (.done c found dirList) =>
      let c := if found = false ∨ dirList.data.length = 0 then c.advance else c
      if found = false ∧ dirList.data.length = 0 then getFleePath fuel c dirList
      else some (.returned true c dirList)

def startCondition (directions : List Direction) : ConditionFeared :=
  (c.getFleeDirection s directions).2

/-- The condition that `executeCondition` calls `getFleePath` with. -/
def prepare (directions : List Direction) : ConditionFeared :=
  if c.fleeIndx = 99 then (c.getFleeDirection s directions).2 else c

/-- The calls, each with the creature and the map at that time. -/
inductive Call
  | setPositionParam (pos : Position)
  | startCondition (s : Scene) (directions : List Direction)
  | executeCondition (s : Scene) (directions : List Direction) (getWalkSize : ℕ)

/-- The directions are in some order. -/
def step (c : ConditionFeared) : Call → ConditionFeared → Prop
  | .setPositionParam pos, c' => c' = { c with fleeingFromPos := pos }
  | .startCondition s directions, c' =>
    directions.Perm m_directionsVector ∧ c' = c.startCondition s directions
  | .executeCondition s directions getWalkSize, c' =>
    directions.Perm m_directionsVector ∧
      if getWalkSize < 2 then ∃ fuel result dirList,
        getFleePath s fuel (c.prepare s directions) {} = some (.returned result c' dirList)
      else c' = c

/-- A new condition, for any caster. -/
def feared : System ConditionFeared Call where
  init c := c.fleeIndx = 99
  step := step

/-! ## What it is for -/

/-- The first square that `getFleePath` tries, if there is a way to go. -/
def firstTarget : Option Position :=
  if isStuck s s.position then none
  else m_directionsVector[c.reset.fleeIndx.toNat]?.map (futurePos s.position 15)

def distance (p q : Position) : ℤ := max (getDistanceX p q) (getDistanceY p q)

/-- `getFleePath` returns, with a path if it says so. And the first square it tries is further away
    from the caster, if the direction was picked just now. -/
structure Flees (directions : List Direction) : Prop where
  ends : ∃ fuel, (getFleePath s fuel (c.prepare s directions) {}).isSome = true
  inRange : ∀ fuel, getFleePath s fuel (c.prepare s directions) {} ≠ some .outOfRange
  path : ∀ fuel c' dirList, getFleePath s fuel (c.prepare s directions) {} =
    some (.returned true c' dirList) → dirList.data ≠ []
  away : ∀ c' target, c.getFleeDirection s directions = (true, c') →
    s.position ≠ c.fleeingFromPos → c'.firstTarget s = some target →
      distance s.position c.fleeingFromPos < distance target c.fleeingFromPos

end ConditionFeared

/-! ## Paths -/

namespace Scene

variable (s : Scene)

theorem exists_getPathTo (target : Position) :
    ∃ r fuel, s.getPathTo fuel target {} = some r := by
  obtain ⟨fuel, h⟩ := Query.exists_getPathMatching (s.query target) {}
  obtain ⟨r, hr⟩ := Option.isSome_iff_exists.1 h
  exact ⟨r, fuel, hr⟩

/-- What `getPathTo` returns, for an empty list. -/
noncomputable def path (target : Position) : Bool × Arraylist :=
  Classical.choose (s.exists_getPathTo target)

variable {s}

theorem eventually_getPathTo (target : Position) :
    ∃ bound, ∀ fuel, bound ≤ fuel → s.getPathTo fuel target {} = some (s.path target) := by
  obtain ⟨bound, h⟩ := Classical.choose_spec (s.exists_getPathTo target)
  exact ⟨bound, fun fuel hle => Query.getPathMatching_mono hle h⟩

theorem getPathTo_eq {fuel : ℕ} {target : Position} {r : Bool × Arraylist}
    (h : s.getPathTo fuel target {} = some r) : s.path target = r := by
  obtain ⟨bound, hpath⟩ := s.eventually_getPathTo target
  have hmax := hpath (max fuel bound) (le_max_right _ _)
  rw [getPathTo, Query.getPathMatching_mono (le_max_left fuel bound) h] at hmax
  exact (Option.some.inj hmax).symm

/-- A list with nothing in it is as it was made. -/
theorem eq_empty {l : Arraylist} (h : ¬l.data.length > 0) : l = {} := by
  obtain ⟨hfront, hback⟩ := List.append_eq_nil_iff.1
    (List.eq_nil_of_length_eq_zero (Nat.eq_zero_of_not_pos h))
  rcases l with ⟨back, front⟩
  obtain rfl := List.reverse_eq_nil_iff.1 hfront
  obtain rfl : back = [] := hback
  rfl

theorem path_of_not_found {target : Position} (h : (s.path target).1 = false) :
    (s.path target).2 = {} := by
  obtain ⟨bound, hpath⟩ := s.eventually_getPathTo target
  have hbound : (s.query target).getPathMatching bound {} = some (s.path target) :=
    hpath bound le_rfl
  exact Query.getPathMatching_eq_false (hbound.trans (by rw [← h]))

end Scene

/-- There is a path to a square in the direction. -/
def Leads (s : Scene) (dir : Direction) : Prop :=
  ∃ wsize ∈ walkSize, (s.path (futurePos s.position wsize dir)).1 = true ∧
    (s.path (futurePos s.position wsize dir)).2.data ≠ []

/-- To the square next to the creature, it may just stay. -/
def Stays (s : Scene) (dir : Direction) : Prop :=
  (s.path (futurePos s.position 1 dir)).1 = true ∧
    (s.path (futurePos s.position 1 dir)).2.data = []

namespace ConditionFeared

variable {c c' : ConditionFeared} {s : Scene} {directions : List Direction}

/-! ## The index -/

theorem value_lt (dir : Direction) : (value dir).toNat < 8 := by
  cases dir <;> decide

theorem getRandomDirection_cases (hperm : directions.Perm m_directionsVector) {pos : Position} :
    (∃ dir, c.getRandomDirection s directions pos = (true, { c with fleeIndx := value dir })) ∨
      isStuck s pos = true ∧ c.getRandomDirection s directions pos = (false, c) := by
  rw [getRandomDirection]
  rcases hfind : directions.find? (canWalkTo s pos) with _ | dir
  · refine .inr ⟨List.all_eq_true.2 fun dir hdir => ?_, rfl⟩
    have hnot := List.find?_eq_none.1 hfind dir (hperm.mem_iff.2 hdir)
    rwa [Bool.not_eq_true, ← Bool.not_eq_true'] at hnot
  · exact .inl ⟨dir, rfl⟩

/-- The direction for a caster on another square: away from it, in a quarter of the directions. -/
theorem getFleeDirection_of_ne (h : ¬(s.position.ix - c.fleeingFromPos.ix = 0 ∧
      s.position.iy - c.fleeingFromPos.iy = 0)) :
    c.getFleeDirection s directions = (true, { c with fleeIndx :=
      if 1 ≤ s.position.iy - c.fleeingFromPos.iy ∧ s.position.ix - c.fleeingFromPos.ix ≤ 0 then 4
      else if s.position.iy - c.fleeingFromPos.iy ≤ -1 ∧
        0 ≤ s.position.ix - c.fleeingFromPos.ix then 0
      else if 1 ≤ s.position.ix - c.fleeingFromPos.ix then 2 else 6 }) := by
  rw [getFleeDirection, if_neg h]
  generalize s.position.ix - c.fleeingFromPos.ix = offx at *
  generalize s.position.iy - c.fleeingFromPos.iy = offy at *
  split_ifs <;> first | rfl | omega

theorem getFleeDirection_cases (hperm : directions.Perm m_directionsVector) :
    (∃ i, i.toNat < 8 ∧ c.getFleeDirection s directions = (true, { c with fleeIndx := i })) ∨
      isStuck s s.position = true ∧ c.getFleeDirection s directions = (false, c) := by
  by_cases h : s.position.ix - c.fleeingFromPos.ix = 0 ∧ s.position.iy - c.fleeingFromPos.iy = 0
  · rw [getFleeDirection, if_pos h]
    rcases getRandomDirection_cases hperm with ⟨dir, hdir⟩ | hstuck
    · exact .inl ⟨value dir, value_lt dir, hdir⟩
    · exact .inr hstuck
  · refine .inl ⟨_, ?_, getFleeDirection_of_ne h⟩
    split_ifs <;> decide

/-- An index of the vector, or one past its end, or none yet. -/
def Indexed (c : ConditionFeared) : Prop := c.fleeIndx.toNat ≤ 8 ∨ c.fleeIndx = 99

theorem Indexed.prepare (h : c.Indexed) (hperm : directions.Perm m_directionsVector) :
    (c.prepare s directions).fleeIndx.toNat ≤ 8 ∨
      isStuck s s.position = true ∧ c.prepare s directions = c := by
  rw [ConditionFeared.prepare]
  split_ifs with hinit
  · rcases getFleeDirection_cases hperm with ⟨i, hi, h⟩ | ⟨hstuck, h⟩
    · rw [h]
      exact .inl hi.le
    · rw [h]
      exact .inr ⟨hstuck, rfl⟩
  · exact .inl (h.resolve_right hinit)

theorem reset_toNat (h : c.fleeIndx.toNat ≤ 8) :
    c.reset.fleeIndx.toNat = c.fleeIndx.toNat % 8 := by
  rw [reset]
  split_ifs with hend
  · rw [hend]
    rfl
  · have hne : c.fleeIndx.toNat ≠ 8 := fun he => hend (UInt8.toNat_inj.1 he)
    exact (Nat.mod_eq_of_lt (by omega)).symm

theorem reset_of_lt (h : c.fleeIndx.toNat < 8) : c.reset = c := by
  rw [reset, if_neg]
  intro hend
  rw [hend] at h
  exact absurd h (by decide)

theorem reset_reset : c.reset.reset = c.reset := by
  by_cases hend : c.fleeIndx = 8
  · rw [reset, reset, if_pos hend]
    rfl
  · rw [reset, reset, if_neg hend, if_neg hend]

theorem fleeingFromPos_reset : c.reset.fleeingFromPos = c.fleeingFromPos := by
  rw [reset]
  split_ifs <;> rfl

theorem advance_toNat (h : c.fleeIndx.toNat < 8) :
    c.advance.fleeIndx.toNat = c.fleeIndx.toNat + 1 := by
  rw [advance]
  dsimp only
  rw [UInt8.toNat_add]
  exact Nat.mod_eq_of_lt (by rw [UInt8.toNat_one]; omega)

def direction (c : ConditionFeared) : Direction := m_directionsVector.getD c.fleeIndx.toNat .north

theorem getElem?_direction (h : c.fleeIndx.toNat < 8) :
    m_directionsVector[c.fleeIndx.toNat]? = some c.direction := by
  rw [direction, List.getD_eq_getElem?_getD]
  obtain ⟨dir, hdir⟩ : ∃ dir, m_directionsVector[c.fleeIndx.toNat]? = some dir :=
    ⟨_, List.getElem?_eq_getElem h⟩
  rw [hdir]
  rfl

/-! ## One direction -/

/-- What the last call of `getPathTo` returns. -/
noncomputable def attempt (s : Scene) (dir : Direction) : List UInt16 → Bool → Bool × Arraylist
  | [], found => (found, {})
  | wsize :: walkSize, _ =>
    if (s.path (futurePos s.position wsize dir)).1 = true ∧
        (s.path (futurePos s.position wsize dir)).2.data.length > 0 then
      s.path (futurePos s.position wsize dir)
    else attempt s dir walkSize (s.path (futurePos s.position wsize dir)).1

section tries

variable {dir : Direction} {sizes : List UInt16} {found : Bool}

/-- The list is as it was made again, before the next call. -/
theorem empty_of_not_path {target : Position}
    (h : ¬((s.path target).1 = true ∧ (s.path target).2.data.length > 0)) :
    (s.path target).2 = {} := by
  rcases hfound : (s.path target).1 with _ | _
  · exact Scene.path_of_not_found hfound
  · exact Scene.eq_empty fun hpos => h ⟨hfound, hpos⟩

theorem attempt_pos_iff : (attempt s dir sizes found).2.data.length > 0 ↔
    ∃ wsize ∈ sizes, (s.path (futurePos s.position wsize dir)).1 = true ∧
      (s.path (futurePos s.position wsize dir)).2.data ≠ [] := by
  induction sizes generalizing found with
  | nil => exact ⟨fun h => absurd h (Nat.lt_irrefl 0), fun ⟨_, h, _⟩ => absurd h List.not_mem_nil⟩
  | cons wsize sizes ih =>
    rw [attempt, List.exists_mem_cons_iff, ← List.length_pos_iff]
    split_ifs with h
    · exact ⟨fun _ => .inl h, fun _ => h.2⟩
    · rw [ih]
      exact (or_iff_right h).symm

theorem attempt_found (h : (attempt s dir sizes found).2.data.length > 0) :
    (attempt s dir sizes found).1 = true := by
  induction sizes generalizing found with
  | nil => exact absurd h (Nat.lt_irrefl 0)
  | cons wsize sizes ih =>
    rw [attempt] at h ⊢
    split_ifs at h ⊢ with hpath
    · exact hpath.1
    · exact ih h

variable (hstuck : ¬isStuck s s.position = true) (h : c.fleeIndx.toNat < 8)

include hstuck h

theorem tryWalks_cons {fuel : ℕ} {wsize : UInt16} {l : Arraylist} :
    tryWalks s fuel (wsize :: sizes) c found l =
      match s.getPathTo fuel (futurePos s.position wsize c.direction) l with
      | none => none
      | some (found, l) =>
        if found = true ∧ l.data.length > 0 then some (.done c found l)
        else tryWalks s fuel sizes c found l := by
  rw [tryWalks, reset_of_lt h, if_neg hstuck, getElem?_direction h]

theorem tryWalks_eq {fuel : ℕ} {r : Tried} (hrun : tryWalks s fuel sizes c found {} = some r) :
    r = .done c (attempt s c.direction sizes found).1 (attempt s c.direction sizes found).2 := by
  induction sizes generalizing found with
  | nil => exact (Option.some.inj hrun).symm
  | cons wsize sizes ih =>
    rw [tryWalks_cons hstuck h] at hrun
    rcases hpath : s.getPathTo fuel (futurePos s.position wsize c.direction) {} with _ | r'
    · rw [hpath] at hrun
      cases hrun
    · rw [hpath, ← Scene.getPathTo_eq hpath] at hrun
      rw [attempt]
      dsimp only at hrun
      split_ifs at hrun ⊢ with hlist
      · exact (Option.some.inj hrun).symm
      · rw [empty_of_not_path hlist] at hrun
        exact ih hrun

theorem eventually_tryWalks : ∃ bound, ∀ fuel, bound ≤ fuel →
    tryWalks s fuel sizes c found {} =
      some (.done c (attempt s c.direction sizes found).1
        (attempt s c.direction sizes found).2) := by
  induction sizes generalizing found with
  | nil => exact ⟨0, fun _ _ => rfl⟩
  | cons wsize sizes ih =>
    obtain ⟨bound, hpath⟩ := s.eventually_getPathTo (futurePos s.position wsize c.direction)
    obtain ⟨bound', hrest⟩ := @ih (s.path (futurePos s.position wsize c.direction)).1
    refine ⟨max bound bound', fun fuel hle => ?_⟩
    rw [tryWalks_cons hstuck h, hpath fuel (le_trans (le_max_left _ _) hle), attempt]
    dsimp only
    split_ifs with hlist
    · rfl
    · rw [empty_of_not_path hlist]
      exact hrest fuel (le_trans (le_max_right _ _) hle)

end tries

/-! ## All directions -/

/-- The answer of a direction: there was a path in the end, which may be empty. -/
noncomputable def answer (s : Scene) (c : ConditionFeared) :
    Option (ConditionFeared × Arraylist) :=
  if (attempt s c.direction walkSize false).1 = true then
    some (c, (attempt s c.direction walkSize false).2)
  else none

def next (c : ConditionFeared) : ConditionFeared := c.advance.reset

/-- The condition after an answer. -/
def leave (r : ConditionFeared × Arraylist) : ConditionFeared :=
  if r.2.data.length = 0 then r.1.advance else r.1

theorem next_toNat (h : c.fleeIndx.toNat < 8) :
    (next c).fleeIndx.toNat = (c.fleeIndx.toNat + 1) % 8 := by
  rw [next, reset_toNat, advance_toNat h]
  rw [advance_toNat h]
  omega

theorem iterate_next (h : c.fleeIndx.toNat < 8) (n : ℕ) :
    (next^[n] c).fleeIndx.toNat = (c.fleeIndx.toNat + n) % 8 ∧
      (next^[n] c).fleeingFromPos = c.fleeingFromPos := by
  induction n with
  | zero => exact ⟨(Nat.mod_eq_of_lt h).symm, rfl⟩
  | succ n ih =>
    have hlt : (next^[n] c).fleeIndx.toNat < 8 := by
      rw [ih.1]
      exact Nat.mod_lt _ (by decide)
    rw [Function.iterate_succ_apply']
    refine ⟨?_, ?_⟩
    · rw [next_toNat hlt, ih.1]
      omega
    · rw [next, fleeingFromPos_reset]
      exact ih.2

theorem next_round (h : c.fleeIndx.toNat < 8) : next^[8] c = c := by
  obtain ⟨hindex, hpos⟩ := iterate_next h 8
  rcases hnext : next^[8] c with ⟨pos, i⟩
  rw [hnext] at hindex hpos
  rw [Nat.add_mod_right, Nat.mod_eq_of_lt h] at hindex
  obtain rfl := UInt8.toNat_inj.1 hindex
  obtain rfl : pos = c.fleeingFromPos := hpos
  rfl

theorem getFleePath_reset {fuel : ℕ} {l : Arraylist} :
    getFleePath s fuel c.reset l = getFleePath s fuel c l := by
  cases fuel with
  | zero => rfl
  | succ fuel =>
    have htries : tryWalks s fuel walkSize c.reset false l =
        tryWalks s fuel walkSize c false l := by
      rw [walkSize, tryWalks, tryWalks, reset_reset]
    rw [getFleePath, getFleePath, htries]

theorem getFleePath_of_isStuck (hstuck : isStuck s s.position = true) {fuel : ℕ} {l : Arraylist} :
    getFleePath s (fuel + 1) c l = some (.returned false c.reset l) := by
  have htries : tryWalks s fuel walkSize c false l = some (.stuck c.reset l) := by
    rw [walkSize, tryWalks, if_pos hstuck]
  rw [getFleePath, htries]

section loop

variable (hstuck : ¬isStuck s s.position = true)

include hstuck

/-- One direction: the answer is what is returned, or the next one is tried. -/
theorem getFleePath_succ (h : c.fleeIndx.toNat < 8) {fuel : ℕ} (htries : ∃ r,
      tryWalks s fuel walkSize c false {} = some r) :
    (∃ r, answer s c = some r ∧
      getFleePath s (fuel + 1) c {} = some (.returned true (leave r) r.2)) ∨
    answer s c = none ∧ getFleePath s (fuel + 1) c {} = getFleePath s fuel (next c) {} := by
  obtain ⟨r, htries⟩ := htries
  obtain rfl := tryWalks_eq hstuck h htries
  rw [getFleePath, htries, answer]
  dsimp only
  rcases hfound : (attempt s c.direction walkSize false).1 with _ | _
  · have hempty : ¬(attempt s c.direction walkSize false).2.data.length > 0 := by
      intro hpos
      rw [attempt_found hpos] at hfound
      cases hfound
    refine .inr ⟨if_neg Bool.false_ne_true, ?_⟩
    rw [if_pos ⟨rfl, Nat.eq_zero_of_not_pos hempty⟩, if_pos (.inl rfl), Scene.eq_empty hempty, next,
      getFleePath_reset]
  · refine .inl ⟨_, if_pos rfl, ?_⟩
    rw [if_neg fun hand => Bool.noConfusion hand.1, leave]
    simp only [Bool.true_eq_false, false_or]

theorem first_of_getFleePath (h : c.fleeIndx.toNat < 8) {fuel : ℕ} {r : Fled}
    (hrun : getFleePath s fuel c {} = some r) :
    ∃ n b, First (answer s) next c n b ∧ r = .returned true (leave b) b.2 := by
  induction fuel generalizing c with
  | zero => cases hrun
  | succ fuel ih =>
    have htries : ∃ r, tryWalks s fuel walkSize c false {} = some r := by
      rcases htries : tryWalks s fuel walkSize c false {} with _ | r
      · rw [getFleePath, htries] at hrun
        cases hrun
      · exact ⟨r, rfl⟩
    rcases getFleePath_succ hstuck h htries with ⟨b, hanswer, hreturn⟩ | ⟨hnone, hgoOn⟩
    · rw [hreturn] at hrun
      exact ⟨0, b, first_zero_iff.2 hanswer, (Option.some.inj hrun).symm⟩
    · rw [hgoOn] at hrun
      have hnext : (next c).fleeIndx.toNat < 8 := by
        rw [next_toNat h]
        exact Nat.mod_lt _ (by decide)
      obtain ⟨n, b, hfirst, hr⟩ := ih hnext hrun
      exact ⟨n + 1, b, first_succ_iff.2 ⟨hnone, hfirst⟩, hr⟩

theorem eventually_getFleePath (h : c.fleeIndx.toNat < 8) {n : ℕ}
    {b : ConditionFeared × Arraylist} (hfirst : First (answer s) next c n b) :
    ∃ bound, ∀ fuel, bound ≤ fuel → (getFleePath s fuel c {}).isSome = true := by
  induction n generalizing c with
  | zero =>
    obtain ⟨bound, htries⟩ := eventually_tryWalks hstuck h
    refine ⟨bound + 1, fun fuel hle => ?_⟩
    obtain ⟨k, rfl⟩ := Nat.exists_eq_add_of_le' (Nat.le_of_add_left_le hle)
    rcases getFleePath_succ hstuck h ⟨_, htries k (by omega)⟩ with ⟨b', -, hreturn⟩ | ⟨hnone, -⟩
    · rw [hreturn]
      rfl
    · rw [first_zero_iff, hnone] at hfirst
      cases hfirst
  | succ n ih =>
    obtain ⟨hnone, hfirst⟩ := first_succ_iff.1 hfirst
    have hnext : (next c).fleeIndx.toNat < 8 := by
      rw [next_toNat h]
      exact Nat.mod_lt _ (by decide)
    obtain ⟨bound, htries⟩ := eventually_tryWalks hstuck h
    obtain ⟨bound', hrest⟩ := ih hnext hfirst
    refine ⟨max bound bound' + 1, fun fuel hle => ?_⟩
    obtain ⟨k, rfl⟩ := Nat.exists_eq_add_of_le' (Nat.le_of_add_left_le hle)
    rcases getFleePath_succ hstuck h ⟨_, htries k (by omega)⟩ with ⟨b', hanswer, -⟩ | ⟨-, hgoOn⟩
    · rw [hnone] at hanswer
      cases hanswer
    · rw [hgoOn]
      exact hrest k (by omega)

end loop

/-! ## Runs -/

theorem answer_eq_some {b : ConditionFeared × Arraylist} (h : answer s c = some b) :
    (attempt s c.direction walkSize false).1 = true ∧
      b = (c, (attempt s c.direction walkSize false).2) := by
  rw [answer] at h
  split_ifs at h with hfound
  exact ⟨hfound, (Option.some.inj h).symm⟩

theorem Indexed.reset (h : c.Indexed) : c.reset.Indexed := by
  rcases h with h | h
  · refine .inl ?_
    rw [reset_toNat h]
    omega
  · refine .inr ?_
    rw [ConditionFeared.reset, if_neg]
    · exact h
    · rw [h]
      decide

theorem Indexed.getFleePath (h : c.fleeIndx.toNat ≤ 8 ∨ isStuck s s.position = true ∧ c.Indexed)
    {fuel : ℕ} {result : Bool} {l : Arraylist}
    (hrun : getFleePath s fuel c {} = some (.returned result c' l)) : c'.Indexed := by
  by_cases hstuck : isStuck s s.position = true
  · have hindexed : c.Indexed := h.elim .inl And.right
    cases fuel with
    | zero => cases hrun
    | succ fuel =>
      rw [getFleePath_of_isStuck hstuck] at hrun
      cases hrun
      exact hindexed.reset
  · have hle := h.resolve_right fun hand => hstuck hand.1
    have hlt : c.reset.fleeIndx.toNat < 8 := by
      rw [reset_toNat hle]
      exact Nat.mod_lt _ (by decide)
    rw [← getFleePath_reset] at hrun
    obtain ⟨n, b, hfirst, hr⟩ := first_of_getFleePath hstuck hlt hrun
    cases hr
    obtain ⟨-, rfl⟩ := answer_eq_some hfirst.answers
    have hindex : (next^[n] c.reset).fleeIndx.toNat < 8 := by
      rw [(iterate_next hlt n).1]
      exact Nat.mod_lt _ (by decide)
    rw [leave]
    split_ifs
    · refine .inl ?_
      rw [advance_toNat hindex]
      exact hindex
    · exact .inl hindex.le

theorem indexed_step {call : Call} (h : c.Indexed) (hstep : step c call c') : c'.Indexed := by
  cases call with
  | setPositionParam pos =>
    obtain rfl := hstep
    exact h
  | startCondition s directions =>
    obtain ⟨hperm, rfl⟩ := hstep
    rw [startCondition]
    rcases getFleeDirection_cases hperm with ⟨i, hi, heq⟩ | ⟨-, heq⟩
    · rw [heq]
      exact .inl hi.le
    · rw [heq]
      exact h
  | executeCondition s directions getWalkSize =>
    obtain ⟨hperm, hstep⟩ := hstep
    split_ifs at hstep
    · obtain ⟨fuel, result, l, hrun⟩ := hstep
      refine Indexed.getFleePath ((h.prepare hperm).imp_right fun ⟨hstuck, heq⟩ => ?_) hrun
      exact ⟨hstuck, heq.symm ▸ h⟩
    · rw [hstep]
      exact h

theorem indexed_of_reachable (h : feared.Reachable c) : c.Indexed :=
  h.invariant (I := Indexed) (fun _ hinit => .inr hinit)
    fun _ _ _ hc _ hstep => indexed_step hc hstep

/-! ## Which way -/

/-- The direction `k` steps on. -/
def turned (c : ConditionFeared) (k : ℕ) : Direction :=
  m_directionsVector.getD ((c.fleeIndx.toNat + k) % 8) .north

theorem direction_iterate_next (h : c.fleeIndx.toNat ≤ 8) (k : ℕ) :
    (next^[k] c.reset).direction = c.turned k := by
  have hmod := reset_toNat h
  have hlt : c.reset.fleeIndx.toNat < 8 := by
    rw [hmod]
    exact Nat.mod_lt _ (by decide)
  rw [direction, turned, (iterate_next hlt k).1, hmod, Nat.mod_add_mod]

section last

variable {dir : Direction} {sizes : List UInt16} {found : Bool} {wsize : UInt16}

theorem attempt_last (h : ¬(attempt s dir (sizes ++ [wsize]) found).2.data.length > 0) :
    (attempt s dir (sizes ++ [wsize]) found).1 = (s.path (futurePos s.position wsize dir)).1 := by
  induction sizes generalizing found with
  | nil =>
    rw [List.nil_append, attempt, attempt]
    split_ifs <;> rfl
  | cons wsize' sizes ih =>
    rw [List.cons_append, attempt] at h ⊢
    split_ifs at h ⊢ with hpath
    · exact absurd hpath.2 h
    · exact ih h

theorem attempt_stays_iff : (attempt s dir walkSize false).1 = true ∧ ¬Leads s dir ↔
    Stays s dir ∧ ¬Leads s dir := by
  refine and_congr_left fun hleads => ?_
  have hlist : ¬(attempt s dir walkSize false).2.data.length > 0 := attempt_pos_iff.not.2 hleads
  have hlast : (attempt s dir walkSize false).1 = (s.path (futurePos s.position 1 dir)).1 :=
    @attempt_last s dir [15, 9, 3] false 1 hlist
  rw [hlast, Stays, iff_self_and]
  intro hfound
  by_contra hne
  exact hleads ⟨1, by decide, hfound, hne⟩

end last

theorem exists_first_path_iff (h : c.fleeIndx.toNat ≤ 8) :
    (∃ n b, First (answer s) next c.reset n b ∧ b.2.data ≠ []) ↔
      ∃ k < 8, Leads s (c.turned k) ∧ ∀ m < k, ¬Stays s (c.turned m) := by
  have hlt : c.reset.fleeIndx.toNat < 8 := by
    rw [reset_toNat h]
    exact Nat.mod_lt _ (by decide)
  constructor
  · rintro ⟨n, b, hfirst, hpath⟩
    refine ⟨n, hfirst.lt (next_round hlt) (by decide), ?_, fun m hm hstays => ?_⟩
    · obtain ⟨-, rfl⟩ := answer_eq_some hfirst.answers
      rw [direction_iterate_next h] at hpath
      exact attempt_pos_iff.1 (List.length_pos_iff.2 hpath)
    · have hnone := hfirst.before m hm
      rw [answer, direction_iterate_next h] at hnone
      by_cases hleads : Leads s (c.turned m)
      · rw [if_pos (attempt_found (attempt_pos_iff.2 hleads))] at hnone
        cases hnone
      · rw [if_pos (attempt_stays_iff.2 ⟨hstays, hleads⟩).1] at hnone
        cases hnone
  · rintro ⟨k, -, hleads, hbefore⟩
    refine exists_first_good_iff.2
      ⟨k, (next^[k] c.reset, (attempt s (c.turned k) walkSize false).2), ?_, ?_,
        fun m hm b hb => ?_⟩
    · rw [answer, direction_iterate_next h, if_pos (attempt_found (attempt_pos_iff.2 hleads))]
    · exact List.length_pos_iff.1 (attempt_pos_iff.2 hleads)
    · obtain ⟨hfound, rfl⟩ := answer_eq_some hb
      rw [direction_iterate_next h] at hfound ⊢
      refine List.length_pos_iff.1 (attempt_pos_iff.2 ?_)
      by_contra hnot
      exact hbefore m hm (attempt_stays_iff.1 ⟨hfound, hnot⟩).1

/-! ## How far -/

/-- Fifteen squares on, the first square is further away from the caster. To the south this is away
    from the caster, and otherwise towards it, and either may be across the edge of the map. -/
def RunsAway (pos caster : Position) : Prop :=
  let offx := pos.ix - caster.ix
  let offy := pos.iy - caster.iy
  if offx = 0 ∧ offy = 0 then True
  else if 1 ≤ offy ∧ offx ≤ 0 then
    if pos.iy + 15 < 2 ^ 16 then -offx < offy + 15
    else 2 * offy < 2 ^ 16 - 15 ∧ offy - offx < 2 ^ 16 - 15
  else if offy ≤ -1 ∧ 0 ≤ offx then
    if pos.iy + 15 < 2 ^ 16 then 2 * -offy < 15 ∧ offx - offy < 15
    else offx < -offy + (2 ^ 16 - 15)
  else if 1 ≤ offx then
    if 15 ≤ pos.ix then 2 * offx < 15 ∧ offx + offy < 15 else offy < offx + (2 ^ 16 - 15)
  else
    if pos.ix + 15 < 2 ^ 16 then 2 * -offx < 15 ∧ -offx - offy < 15
    else -offy < -offx + (2 ^ 16 - 15)

instance (pos caster : Position) : Decidable (RunsAway pos caster) := by
  unfold RunsAway
  infer_instance

theorem toNat_forward (a : UInt16) : ((a + 15).toNat : ℤ) =
    if (a.toNat : ℤ) + 15 < 2 ^ 16 then (a.toNat : ℤ) + 15 else (a.toNat : ℤ) + 15 - 2 ^ 16 := by
  have := a.toNat_lt
  rw [UInt16.toNat_add, show (15 : UInt16).toNat = 15 from rfl]
  split_ifs <;> omega

theorem toNat_backward (a : UInt16) : ((a - 15).toNat : ℤ) =
    if 15 ≤ (a.toNat : ℤ) then (a.toNat : ℤ) - 15 else (a.toNat : ℤ) - 15 + 2 ^ 16 := by
  have := a.toNat_lt
  rw [UInt16.toNat_sub, show (15 : UInt16).toNat = 15 from rfl]
  split_ifs <;> omega

theorem forward_ne (a : UInt16) : ((a + 15).toNat : ℤ) ≠ a.toNat := by
  rw [toNat_forward]
  split_ifs <;> omega

theorem backward_ne (a : UInt16) : ((a - 15).toNat : ℤ) ≠ a.toNat := by
  rw [toNat_backward]
  split_ifs <;> omega

theorem futurePos_ne (pos : Position) (dir : Direction) :
    (futurePos pos 15 dir).ix ≠ pos.ix ∨ (futurePos pos 15 dir).iy ≠ pos.iy := by
  cases dir with
  | north => exact .inr (forward_ne pos.y)
  | east => exact .inl (backward_ne pos.x)
  | south => exact .inr (forward_ne pos.y)
  | west => exact .inl (forward_ne pos.x)
  | southwest => exact .inl (forward_ne pos.x)
  | southeast => exact .inl (backward_ne pos.x)
  | northwest => exact .inl (forward_ne pos.x)
  | northeast => exact .inl (forward_ne pos.x)

/-- From the square of the caster, all squares are further away. -/
theorem distance_lt_of_same {pos caster : Position} (hx : pos.ix - caster.ix = 0)
    (hy : pos.iy - caster.iy = 0) (dir : Direction) :
    distance pos caster < distance (futurePos pos 15 dir) caster := by
  have hzero : distance pos caster = 0 := by
    rw [distance, getDistanceX, getDistanceY, hx, hy, abs_zero, max_self]
  rw [hzero, distance, getDistanceX, getDistanceY, ← sub_eq_zero.1 hx, ← sub_eq_zero.1 hy]
  rcases futurePos_ne pos dir with hne | hne
  · exact lt_max_of_lt_left (abs_pos.2 (sub_ne_zero.2 hne))
  · exact lt_max_of_lt_right (abs_pos.2 (sub_ne_zero.2 hne))

/-- The index of the direction to flee to, and the square it stands for. -/
theorem firstTarget_of_ne (hstuck : ¬isStuck s s.position = true)
    (h : ¬(s.position.ix - c.fleeingFromPos.ix = 0 ∧ s.position.iy - c.fleeingFromPos.iy = 0)) :
    ∃ c', c.getFleeDirection s directions = (true, c') ∧ c'.firstTarget s =
      some (futurePos s.position 15
        (if 1 ≤ s.position.iy - c.fleeingFromPos.iy ∧
          s.position.ix - c.fleeingFromPos.ix ≤ 0 then .south
        else if s.position.iy - c.fleeingFromPos.iy ≤ -1 ∧
          0 ≤ s.position.ix - c.fleeingFromPos.ix then .north
        else if 1 ≤ s.position.ix - c.fleeingFromPos.ix then .east else .west)) := by
  refine ⟨_, getFleeDirection_of_ne h, ?_⟩
  rw [firstTarget, if_neg hstuck]
  split_ifs <;> rfl

/-- An offset `d` of the greatest size grows, or goes through zero and grows. -/
theorem lt_shift_iff {d o t : ℤ} (hd : 1 ≤ d) : |d| < |d + t| ∧ |o| < |d + t| ↔
    if 0 < t then |o| < d + t else 2 * d < -t ∧ |o| + d < -t := by
  split_ifs with ht
  · rw [abs_of_pos (by omega : 0 < d), abs_of_pos (by omega : 0 < d + t)]
    omega
  · simp only [abs_eq_max_neg]
    omega

/-- One coordinate changes: its offset has to become the greatest of all. -/
theorem distance_lt_of_vertical {pos target caster : Position} (hx : target.ix = pos.ix) :
    distance pos caster < distance target caster ↔
      |pos.iy - caster.iy| < |target.iy - caster.iy| ∧
        |pos.ix - caster.ix| < |target.iy - caster.iy| := by
  rw [distance, distance, getDistanceX, getDistanceX, getDistanceY, getDistanceY, hx, max_lt_iff]
  omega

theorem distance_lt_of_horizontal {pos target caster : Position} (hy : target.iy = pos.iy) :
    distance pos caster < distance target caster ↔
      |pos.ix - caster.ix| < |target.ix - caster.ix| ∧
        |pos.iy - caster.iy| < |target.ix - caster.ix| := by
  rw [distance, distance, getDistanceX, getDistanceX, getDistanceY, getDistanceY, hy, max_lt_iff]
  omega

theorem forward_sub (a : UInt16) (b : ℤ) : ((a + 15).toNat : ℤ) - b =
    (a.toNat : ℤ) - b + if (a.toNat : ℤ) + 15 < 2 ^ 16 then 15 else 15 - 2 ^ 16 := by
  rw [toNat_forward]
  split_ifs <;> omega

theorem backward_sub (a : UInt16) (b : ℤ) : ((a - 15).toNat : ℤ) - b =
    (a.toNat : ℤ) - b + if 15 ≤ (a.toNat : ℤ) then -15 else 2 ^ 16 - 15 := by
  rw [toNat_backward]
  split_ifs <;> omega

section axes

variable {pos caster : Position}

theorem distance_lt_south (hy : 1 ≤ pos.iy - caster.iy) (hx : pos.ix - caster.ix ≤ 0) :
    distance pos caster < distance (futurePos pos 15 .south) caster ↔
      if pos.iy + 15 < 2 ^ 16 then -(pos.ix - caster.ix) < pos.iy - caster.iy + 15
      else 2 * (pos.iy - caster.iy) < 2 ^ 16 - 15 ∧
        pos.iy - caster.iy - (pos.ix - caster.ix) < 2 ^ 16 - 15 := by
  have hshift : (futurePos pos 15 .south).iy - caster.iy = _ := forward_sub pos.y caster.iy
  rw [distance_lt_of_vertical (by rfl), hshift, ← Position.iy, lt_shift_iff hy, abs_of_nonpos hx]
  by_cases hedge : pos.iy + 15 < 2 ^ 16
  · rw [if_pos hedge, if_pos hedge, if_pos (by decide)]
  · rw [if_neg hedge, if_neg hedge, if_neg (by decide)]
    omega

theorem distance_lt_north (hy : pos.iy - caster.iy ≤ -1) (hx : 0 ≤ pos.ix - caster.ix) :
    distance pos caster < distance (futurePos pos 15 .north) caster ↔
      if pos.iy + 15 < 2 ^ 16 then 2 * -(pos.iy - caster.iy) < 15 ∧
        pos.ix - caster.ix - (pos.iy - caster.iy) < 15
      else pos.ix - caster.ix < -(pos.iy - caster.iy) + (2 ^ 16 - 15) := by
  have hshift : (futurePos pos 15 .north).iy - caster.iy = _ := forward_sub pos.y caster.iy
  rw [distance_lt_of_vertical (by rfl), hshift, ← Position.iy, ← abs_neg (pos.iy - caster.iy),
    ← abs_neg (_ + _), neg_add, lt_shift_iff (by omega), abs_of_nonneg hx]
  by_cases hedge : pos.iy + 15 < 2 ^ 16
  · rw [if_pos hedge, if_pos hedge, if_neg (by decide)]
    omega
  · rw [if_neg hedge, if_neg hedge, if_pos (by decide)]
    omega

theorem distance_lt_east (hx : 1 ≤ pos.ix - caster.ix) (hy : 0 ≤ pos.iy - caster.iy) :
    distance pos caster < distance (futurePos pos 15 .east) caster ↔
      if 15 ≤ pos.ix then 2 * (pos.ix - caster.ix) < 15 ∧
        pos.ix - caster.ix + (pos.iy - caster.iy) < 15
      else pos.iy - caster.iy < pos.ix - caster.ix + (2 ^ 16 - 15) := by
  have hshift : (futurePos pos 15 .east).ix - caster.ix = _ := backward_sub pos.x caster.ix
  rw [distance_lt_of_horizontal (by rfl), hshift, ← Position.ix, lt_shift_iff hx, abs_of_nonneg hy]
  by_cases hedge : 15 ≤ pos.ix
  · rw [if_pos hedge, if_pos hedge, if_neg (by decide)]
    omega
  · rw [if_neg hedge, if_neg hedge, if_pos (by decide)]

theorem distance_lt_west (hx : pos.ix - caster.ix ≤ -1) (hy : pos.iy - caster.iy ≤ 0) :
    distance pos caster < distance (futurePos pos 15 .west) caster ↔
      if pos.ix + 15 < 2 ^ 16 then 2 * -(pos.ix - caster.ix) < 15 ∧
        -(pos.ix - caster.ix) - (pos.iy - caster.iy) < 15
      else -(pos.iy - caster.iy) < -(pos.ix - caster.ix) + (2 ^ 16 - 15) := by
  have hshift : (futurePos pos 15 .west).ix - caster.ix = _ := forward_sub pos.x caster.ix
  rw [distance_lt_of_horizontal (by rfl), hshift, ← Position.ix, ← abs_neg (pos.ix - caster.ix),
    ← abs_neg (_ + _), neg_add, lt_shift_iff (by omega), abs_of_nonpos hy]
  by_cases hedge : pos.ix + 15 < 2 ^ 16
  · rw [if_pos hedge, if_pos hedge, if_neg (by decide)]
    omega
  · rw [if_neg hedge, if_neg hedge, if_pos (by decide)]
    omega

theorem distance_lt_iff (h : ¬(pos.ix - caster.ix = 0 ∧ pos.iy - caster.iy = 0)) :
    distance pos caster < distance (futurePos pos 15
      (if 1 ≤ pos.iy - caster.iy ∧ pos.ix - caster.ix ≤ 0 then .south
      else if pos.iy - caster.iy ≤ -1 ∧ 0 ≤ pos.ix - caster.ix then .north
      else if 1 ≤ pos.ix - caster.ix then .east else .west)) caster ↔ RunsAway pos caster := by
  rw [RunsAway, if_neg h]
  by_cases hsouth : 1 ≤ pos.iy - caster.iy ∧ pos.ix - caster.ix ≤ 0
  · rw [if_pos hsouth, if_pos hsouth, distance_lt_south hsouth.1 hsouth.2]
  rw [if_neg hsouth, if_neg hsouth]
  by_cases hnorth : pos.iy - caster.iy ≤ -1 ∧ 0 ≤ pos.ix - caster.ix
  · rw [if_pos hnorth, if_pos hnorth, distance_lt_north hnorth.1 hnorth.2]
  rw [if_neg hnorth, if_neg hnorth]
  by_cases heast : 1 ≤ pos.ix - caster.ix
  · rw [if_pos heast, if_pos heast, distance_lt_east heast (by omega)]
  · rw [if_neg heast, if_neg heast, distance_lt_west (by omega) (by omega)]

end axes

theorem away_iff (hstuck : ¬isStuck s s.position = true) :
    (∀ c' target, c.getFleeDirection s directions = (true, c') →
      s.position ≠ c.fleeingFromPos → c'.firstTarget s = some target →
        distance s.position c.fleeingFromPos < distance target c.fleeingFromPos) ↔
      RunsAway s.position c.fleeingFromPos := by
  by_cases h : s.position.ix - c.fleeingFromPos.ix = 0 ∧ s.position.iy - c.fleeingFromPos.iy = 0
  · refine iff_of_true (fun c' target hdir _ htarget => ?_) ?_
    · rw [firstTarget, if_neg hstuck] at htarget
      obtain ⟨dir, -, rfl⟩ := Option.map_eq_some_iff.1 htarget
      exact distance_lt_of_same h.1 h.2 dir
    · rw [RunsAway, if_pos h]
      trivial
  · obtain ⟨c', hdir, htarget⟩ := @firstTarget_of_ne c s directions hstuck h
    rw [← distance_lt_iff h]
    constructor
    · refine fun hall => hall c' _ hdir (fun he => h ?_) htarget
      rw [he, sub_self, sub_self]
      exact ⟨rfl, rfl⟩
    · intro hlt c₁ target hdir₁ _ htarget₁
      obtain rfl := (Prod.mk.inj (hdir.symm.trans hdir₁)).2
      obtain rfl := Option.some.inj (htarget.symm.trans htarget₁)
      exact hlt

/-! ## The result -/

/-- The creature cannot move at all. Or, from the direction of the index on, there is a direction
    with a path and none before it in which it can just stay; and the first square is further away
    from the caster. -/
def CanFlee (c : ConditionFeared) (s : Scene) (directions : List Direction) : Prop :=
  isStuck s s.position = true ∨
    (∃ k < 8, Leads s ((c.prepare s directions).turned k) ∧
      ∀ m < k, ¬Stays s ((c.prepare s directions).turned m)) ∧
    RunsAway s.position c.fleeingFromPos

theorem flees_of_isStuck (hstuck : isStuck s s.position = true) : c.Flees s directions where
  ends := ⟨1, by rw [getFleePath_of_isStuck hstuck]; rfl⟩
  inRange fuel h := by
    cases fuel with
    | zero => cases h
    | succ fuel =>
      rw [getFleePath_of_isStuck hstuck] at h
      cases h
  path fuel c' l h := by
    cases fuel with
    | zero => cases h
    | succ fuel =>
      rw [getFleePath_of_isStuck hstuck] at h
      cases h
  away c' target _ _ h := by
    rw [firstTarget, if_pos hstuck] at h
    cases h

/-- A feared creature flees exactly if it can. -/
theorem flees_iff (hc : feared.Reachable c) (hperm : directions.Perm m_directionsVector) :
    c.Flees s directions ↔ c.CanFlee s directions := by
  by_cases hstuck : isStuck s s.position = true
  · exact iff_of_true (flees_of_isStuck hstuck) (.inl hstuck)
  have hle := ((indexed_of_reachable hc).prepare (s := s) hperm).resolve_right
    fun h => hstuck h.1
  have hlt : (c.prepare s directions).reset.fleeIndx.toNat < 8 := by
    rw [reset_toNat hle]
    exact Nat.mod_lt _ (by decide)
  rw [CanFlee, or_iff_right hstuck, ← exists_first_path_iff hle, ← away_iff hstuck]
  constructor
  · intro h
    refine ⟨?_, h.away⟩
    obtain ⟨fuel, hends⟩ := h.ends
    obtain ⟨r, hrun⟩ := Option.isSome_iff_exists.1 hends
    have hfirst := first_of_getFleePath hstuck hlt (getFleePath_reset.trans hrun)
    obtain ⟨n, b, hfirst, rfl⟩ := hfirst
    exact ⟨n, b, hfirst, h.path fuel _ _ hrun⟩
  · rintro ⟨⟨n, b, hfirst, hpath⟩, haway⟩
    have hreturns : ∀ {fuel r}, getFleePath s fuel (c.prepare s directions) {} = some r →
        r = .returned true (leave b) b.2 := by
      intro fuel r hrun
      obtain ⟨n', b', hfirst', rfl⟩ :=
        first_of_getFleePath hstuck hlt (getFleePath_reset.trans hrun)
      rw [(hfirst.unique hfirst').2]
    refine ⟨?_, fun fuel hrun => ?_, fun fuel c' l hrun => ?_, haway⟩
    · obtain ⟨bound, hends⟩ := eventually_getFleePath hstuck hlt hfirst
      refine ⟨bound, ?_⟩
      rw [← getFleePath_reset]
      exact hends bound le_rfl
    · cases hreturns hrun
    · cases hreturns hrun
      exact hpath

/-- A creature with a single free square next to it. -/
def pocket (free : Position) : Scene where
  world pos :=
    if pos = ⟨100, 100, 7⟩ ∨ pos = free then
      some { object := fun _ => { id := 0 }, ground := some 0, items := [], downItemCount := 0,
             creatures := [], flags := 0 }
    else none
  creature := { standsOn := fun pos => pos = ⟨100, 100, 7⟩, queryAdd := fun pos => pos = free }
  position := ⟨100, 100, 7⟩
  queryAdd pos := pos = free

theorem pocket_path_north : (pocket ⟨100, 99, 7⟩).getPathTo 4 ⟨100, 115, 7⟩ {} =
    some (true, ⟨[], [.north]⟩) := by
  decide +kernel

/-- To the north of a caster, on the way to the north. -/
theorem flees_north :
    ConditionFeared.Flees { fleeingFromPos := ⟨100, 103, 7⟩ } (pocket ⟨100, 99, 7⟩)
      m_directionsVector := by
  have hinit : feared.Reachable { fleeingFromPos := ⟨100, 103, 7⟩ } := .init rfl
  refine (flees_iff hinit (.refl _)).2 (.inr ⟨⟨0, by decide, ⟨15, by decide, ?_⟩,
    fun m hm => absurd hm (Nat.not_lt_zero m)⟩, by decide⟩)
  have hpath := Scene.getPathTo_eq pocket_path_north
  have hnorth : ((ConditionFeared.prepare { fleeingFromPos := ⟨100, 103, 7⟩ }
      (pocket ⟨100, 99, 7⟩) m_directionsVector).turned 0) = .north := by decide
  rw [hnorth]
  change ((pocket ⟨100, 99, 7⟩).path ⟨100, 115, 7⟩).1 = true ∧
    ((pocket ⟨100, 99, 7⟩).path ⟨100, 115, 7⟩).2.data ≠ []
  rw [hpath]
  exact ⟨rfl, List.cons_ne_nil _ _⟩

/-- To the south of a caster, with a square to the south that is not far enough for a path. The
    list of directions is empty. -/
theorem stays_south : ∃ c : ConditionFeared, feared.Reachable c ∧
    getFleePath (pocket ⟨100, 101, 7⟩) 6 (c.prepare (pocket ⟨100, 101, 7⟩) m_directionsVector) {} =
      some (.returned true { c with fleeIndx := 5 } {}) ∧
    ¬c.Flees (pocket ⟨100, 101, 7⟩) m_directionsVector := by
  have hrun : getFleePath (pocket ⟨100, 101, 7⟩) 6 (ConditionFeared.prepare
      { fleeingFromPos := ⟨100, 90, 7⟩ } (pocket ⟨100, 101, 7⟩) m_directionsVector) {} =
      some (.returned true { fleeingFromPos := ⟨100, 90, 7⟩, fleeIndx := 5 } {}) := by
    decide +kernel
  exact ⟨{ fleeingFromPos := ⟨100, 90, 7⟩ }, .init rfl, hrun, fun h => h.path _ _ _ hrun rfl⟩

end ConditionFeared

end Canary.Conditions.Feared
