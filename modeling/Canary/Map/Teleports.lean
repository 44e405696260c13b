import Canary.Lib.Orbit
import Canary.Map.Spectators
import Canary.Tiles.Tile
import Mathlib.Data.Fintype.Prod

/-!
# Teleports and floor changes

A creature that steps on a teleport is moved to its destination, where there may be another
teleport. Each teleport first follows the teleports from its destination: if they lead back to
it, it moves nobody. So a creature comes to the end of the teleports, or stays on the first of them
if it is on a circle (`moveCreature_iff`). But where they lead into a circle that the first one is
not on, the server follows them forever (`moveCreature_hangs_iff`).

After a step, a creature is also moved up or down by the stairs and holes it comes to, at most
`MAP_MAX_LAYERS` times, and a player out of a house that she is not invited to. As stairs lead just
one floor up or down, this limit is met only by stairs that lead up and down again, or by
houses (`internalMoveCreature_spec`).

The scripts that a step calls are left out, and so is the direction in which the creature turns.
-/

namespace Canary.Map.Teleports

open FlagWord Orbit StateTransition
open Canary.Tiles (Tile)

/-! ## The map -/

/-- The flags of a tile that change floors. -/
inductive FloorChange
  | down | north | south | east | west | southAlt | eastAlt
  deriving DecidableEq, Repr

/-- `TILESTATE_FLOORCHANGE_DOWN` and the others -/
def FloorChange.mask : FloorChange → BitVec 32
  | .down => 1 <<< 0
  | .north => 1 <<< 1
  | .south => 1 <<< 2
  | .east => 1 <<< 3
  | .west => 1 <<< 4
  | .southAlt => 1 <<< 5
  | .eastAlt => 1 <<< 6

def changesFloor (tile : Tile) (change : FloorChange) : Bool := hasBitSet tile.flags change.mask

/-- A house, and its entry. -/
structure House where
  id : ℕ
  entryPosition : Position
  deriving DecidableEq

structure World where
  /-- The tiles of the map, as its leaves have them. -/
  tile : Position → Option Tile
  /-- The house of a `HouseTile`. -/
  house : Position → Option House
  /-- The destination of the teleport at an address. -/
  destPos : ℕ → Position

/-- The creature that moves. -/
structure Mover where
  isPlayer : Bool
  isInvited : House → Bool
  templePosition : Position
  /-- `beforeCreatureZoneChange`: the scripts of the zones let the creature pass. -/
  mayPass : Position → Position → Bool

/-- The teleport of a tile is the last one put there. -/
def getTeleportItem (tile : Tile) : Option ℕ :=
  if tile.hasFlag .teleport then tile.items.reverse.find? fun r => (tile.object r).getTeleport
  else none

/-- The position of `Tile::nullptr_tile`. It is on no leaf of the map: a creature that is sent there,
    since neither the entry of the house nor the temple is a tile, makes the server crash, which is
    not modelled. -/
def nullptrPosition : Position := ⟨0xFFFF, 0xFFFF, 0xFF⟩

namespace World

variable (world : World)

def getTile (pos : Position) : Option Tile :=
  if pos.z ≥ 16 then none else world.tile pos

/-! ## Teleports -/

/-- Do the teleports from the tile at `dest` lead to the one at `position`? -/
def checkInfinityLoop (position : Position) : ℕ → Position → Option Bool
  | 0, _ => none
  | fuel + 1, dest =>
    match world.getTile dest with
    | none => some false
    | some destTile =>
      match getTeleportItem destTile with
      | none => some false
      | some teleport =>
        let nextDestPos := world.destPos teleport
        if position = nextDestPos then some true
        else checkInfinityLoop position fuel nextDestPos

/-- `Teleport::addThing`, for a creature: where it is left, if `move` moves it. -/
def addThing (fuel : ℕ) (move : Position → Option Position) (position : Position)
    (teleport : ℕ) : Option Position :=
  let destPos := world.destPos teleport
  match world.getTile destPos with
  | none => some position
  | some _ =>
    match world.checkInfinityLoop position fuel destPos with
    | none => none
    | some true => some position
    | some false => move destPos

/-- `Map::moveCreature`, with the call of `Tile::postAddNotification`: where the creature is
    left. -/
def moveCreature (mover : Mover) : ℕ → Position → Position → Option Position
  | 0, _, _ => none
  | fuel + 1, oldPos, newPos =>
    if mover.mayPass oldPos newPos then
      match (world.getTile newPos).bind getTeleportItem with
      | none => some newPos
      | some teleport =>
        world.addThing fuel (moveCreature mover fuel newPos) newPos teleport
    else some oldPos

/-! ## Floor changes -/

/-- The tile below or above, if there is one. -/
def tileAt (pos : Position) : Option Position :=
  if (world.getTile pos).isSome then some pos else none

def changesFloorAt (pos : Position) (change : FloorChange) : Bool :=
  (world.getTile pos).any (changesFloor · change)

/-- `Tile::queryDestination`, from a tile that leads down. -/
def downDestination (tilePos : Position) : Option Position :=
  let dx := tilePos.x
  let dy := tilePos.y
  let dz := tilePos.z + 1
  if world.changesFloorAt ⟨dx, dy - 1, dz⟩ .southAlt then world.tileAt ⟨dx, dy - 2, dz⟩
  else if world.changesFloorAt ⟨dx - 1, dy, dz⟩ .eastAlt then world.tileAt ⟨dx - 2, dy, dz⟩
  else
    match world.getTile ⟨dx, dy, dz⟩ with
    | none => none
    | some downTile =>
      let dy := if changesFloor downTile .north then dy + 1 else dy
      let dy := if changesFloor downTile .south then dy - 1 else dy
      let dy := if changesFloor downTile .southAlt then dy - 2 else dy
      let dx := if changesFloor downTile .east then dx - 1 else dx
      let dx := if changesFloor downTile .eastAlt then dx - 2 else dx
      let dx := if changesFloor downTile .west then dx + 1 else dx
      world.tileAt ⟨dx, dy, dz⟩

/-- `Tile::queryDestination`, from a tile that leads up. -/
def upDestination (tilePos : Position) : Option Position :=
  let flag := world.changesFloorAt tilePos
  let dx := tilePos.x
  let dy := tilePos.y
  let dz := tilePos.z - 1
  let dy := if flag .north then dy - 1 else dy
  let dy := if flag .south then dy + 1 else dy
  let dx := if flag .east then dx + 1 else dx
  let dx := if flag .west then dx - 1 else dx
  let dy := if flag .southAlt then dy + 2 else dy
  let dx := if flag .eastAlt then dx + 2 else dx
  world.tileAt ⟨dx, dy, dz⟩

/-- `Tile::queryDestination`, for a creature: the tile it goes on to, or the same one. -/
def tileQueryDestination (tilePos : Position) : Position :=
  let destTile :=
    if world.changesFloorAt tilePos .down then world.downDestination tilePos
    else if (world.getTile tilePos).any (·.hasFlag .floorChange) then
      world.upDestination tilePos
    else none
  destTile.getD tilePos

/-- `HouseTile::queryDestination`: a player who is not invited goes to the entry. -/
def queryDestination (mover : Mover) (tilePos : Position) : Position :=
  match world.house tilePos with
  | none => world.tileQueryDestination tilePos
  | some house =>
    if mover.isPlayer && !mover.isInvited house then
      match world.tileAt house.entryPosition with
      | some destTile => destTile
      | none => (world.tileAt mover.templePosition).getD nullptrPosition
    else world.tileQueryDestination tilePos

/-- `MAP_MAX_LAYERS` -/
def mapMaxLayers : ℕ := 16

/-- The loop of `Game::internalMoveCreature`, with the number of rounds that are left. -/
def followDestinations (mover : Mover) (fuel : ℕ) : ℕ → Position → Option Position
  | 0, toPos => some toPos
  | left + 1, toPos =>
    let subPos := world.queryDestination mover toPos
    if subPos = toPos then some toPos
    else
      match world.moveCreature mover fuel toPos subPos with
      | none => none
      | some pos =>
        if pos ≠ subPos then some pos else followDestinations mover fuel left subPos

/-- `Game::internalMoveCreature`, once it has found nothing against the step. -/
def internalMoveCreature (mover : Mover) (fuel : ℕ) (fromPos toPos : Position) :
    Option Position :=
  match world.moveCreature mover fuel fromPos toPos with
  | none => none
  | some pos =>
    if pos ≠ toPos then some pos else world.followDestinations mover fuel mapMaxLayers toPos

end World

/-! ## Following the teleports -/

namespace World

variable {world : World} {mover : Mover} {o p q r : Position} {n m : ℕ}

variable (world p) in
/-- The destination of the teleport at a position. -/
def next : Option Position := ((world.getTile p).bind getTeleportItem).map world.destPos

variable (world mover p) in
/-- The teleport moves the creature, if its destination is a tile that lets the creature in. -/
def hop : Option Position :=
  (world.next p).filter fun q => (world.getTile q).isSome && mover.mayPass p q

theorem next_of_not_tile (h : world.getTile p = none) : world.next p = none := by
  rw [next, h, Option.bind_none, Option.map_none]

theorem hop_eq_some_iff : world.hop mover p = some q ↔
    world.next p = some q ∧ (world.getTile q).isSome ∧ mover.mayPass p q := by
  rw [hop, Option.filter_eq_some_iff, Bool.and_eq_true]

theorem hop_eq_none (h : world.next p = some q)
    (hq : world.getTile q = none ∨ mover.mayPass p q = false) : world.hop mover p = none := by
  rw [Option.eq_none_iff_forall_ne_some]
  intro q' hq'
  obtain ⟨hnext, htile, hpass⟩ := hop_eq_some_iff.1 hq'
  obtain rfl := Option.some.inj (h.symm.trans hnext)
  rcases hq with hq | hq
  · rw [hq] at htile
    cases htile
  · exact Bool.false_ne_true (hq.symm.trans hpass)

/-- The search is the one for the way back. -/
theorem checkInfinityLoop_eq : world.checkInfinityLoop p n q = search world.next p n q := by
  induction n generalizing q with
  | zero => rfl
  | succ n ih =>
    rw [checkInfinityLoop, search, next]
    rcases world.getTile q with _ | tile
    · rfl
    · rcases hteleport : getTeleportItem tile with _ | teleport
      · simp [hteleport]
      · simp [hteleport, ih]

theorem moveCreature_succ (hpass : mover.mayPass o p) :
    world.moveCreature mover (n + 1) o p =
      match (world.getTile p).bind getTeleportItem with
      | none => some p
      | some teleport => world.addThing n (world.moveCreature mover n p) p teleport := by
  rw [moveCreature, if_pos hpass]

theorem moveCreature_refused (hpass : ¬ mover.mayPass o p) :
    world.moveCreature mover (n + 1) o p = some o := by
  rw [moveCreature, if_neg hpass]

theorem moveCreature_of_next_none (hpass : mover.mayPass o p) (h : world.next p = none) :
    world.moveCreature mover (n + 1) o p = some p := by
  rw [moveCreature_succ hpass, Option.map_eq_none_iff.1 h]

/-- The teleport at `p` leads to `q`: it first looks for the way back. -/
theorem moveCreature_of_next (hpass : mover.mayPass o p) (h : world.next p = some q) :
    world.moveCreature mover (n + 1) o p =
      match world.getTile q with
      | none => some p
      | some _ =>
        match search world.next p n q with
        | none => none
        | some true => some p
        | some false => world.moveCreature mover n p q := by
  obtain ⟨teleport, hteleport, rfl⟩ := Option.map_eq_some_iff.1 h
  rw [moveCreature_succ hpass, hteleport]
  simp only [addThing, checkInfinityLoop_eq]

/-- The teleports do not lead back. -/
theorem moveCreature_of_search (hpass : mover.mayPass o p) (h : world.next p = some q)
    (hq : (world.getTile q).isSome) (hsearch : search world.next p n q = some false) :
    world.moveCreature mover (n + 1) o p = world.moveCreature mover n p q := by
  obtain ⟨tile, htile⟩ := Option.isSome_iff_exists.1 hq
  rw [moveCreature_of_next hpass h, htile, hsearch]

/-- A teleport that leads to no tile, or back to itself, moves nobody. -/
theorem moveCreature_stays (hpass : mover.mayPass o p) (h : world.next p = some q)
    (hq : world.getTile q = none ∨ search world.next p n q = some true) :
    world.moveCreature mover (n + 1) o p = some p := by
  rw [moveCreature_of_next hpass h]
  rcases htile : world.getTile q with _ | tile
  · rfl
  · rw [hq.resolve_left (by simp [htile])]

/-- What a move that comes to an end has done. -/
theorem moveCreature_cases (h : world.moveCreature mover (n + 1) o p = some r) :
    (¬ mover.mayPass o p ∧ r = o) ∨
      mover.mayPass o p ∧
        (r = p ∧ world.next p = none ∨
          ∃ q, world.next p = some q ∧
            (r = p ∧ world.getTile q = none ∨
              r = p ∧ (world.getTile q).isSome ∧ search world.next p n q = some true ∨
              (world.getTile q).isSome ∧ search world.next p n q = some false ∧
                world.moveCreature mover n p q = some r)) := by
  by_cases hpass : mover.mayPass o p
  · refine .inr ⟨hpass, ?_⟩
    rcases hnext : world.next p with _ | q
    · rw [moveCreature_of_next_none hpass hnext] at h
      exact .inl ⟨(Option.some.inj h).symm, rfl⟩
    · refine .inr ⟨q, rfl, ?_⟩
      rw [moveCreature_of_next hpass hnext] at h
      rcases htile : world.getTile q with _ | tile
      · rw [htile] at h
        exact .inl ⟨(Option.some.inj h).symm, rfl⟩
      · rw [htile] at h
        rcases hsearch : search world.next p n q with _ | found
        · simp [hsearch] at h
        · cases found with
          | true => exact .inr (.inl ⟨by simpa [hsearch] using h.symm, rfl, rfl⟩)
          | false => exact .inr (.inr ⟨rfl, rfl, by simpa [hsearch] using h⟩)
  · rw [moveCreature_refused hpass] at h
    exact .inl ⟨hpass, (Option.some.inj h).symm⟩

/-- With more fuel, the creature is left at the same place. -/
theorem moveCreature_mono (hnm : n ≤ m) (h : world.moveCreature mover n o p = some r) :
    world.moveCreature mover m o p = some r := by
  induction n generalizing m o p with
  | zero => cases h
  | succ n ih =>
    obtain ⟨m, rfl⟩ := Nat.exists_eq_add_of_le' (Nat.lt_of_lt_of_le n.succ_pos hnm)
    have hnm := Nat.le_of_succ_le_succ hnm
    rcases moveCreature_cases h with ⟨hpass, rfl⟩ | ⟨hpass, ⟨rfl, hnext⟩ | ⟨q, hnext, hq⟩⟩
    · exact moveCreature_refused hpass
    · exact moveCreature_of_next_none hpass hnext
    · rcases hq with ⟨rfl, htile⟩ | ⟨rfl, -, hsearch⟩ | ⟨htile, hsearch, hmove⟩
      · exact moveCreature_stays hpass hnext (.inl htile)
      · exact moveCreature_stays hpass hnext (.inr (search_mono hnm hsearch))
      · rw [moveCreature_of_search hpass hnext htile (search_mono hnm hsearch)]
        exact ih hnm hmove

/-- A move that comes to an end leaves the creature where it was, on a teleport that leads back
    to itself, or at the end of the teleports that let it in. -/
theorem moveCreature_sound (h : world.moveCreature mover n o p = some r) :
    (¬ mover.mayPass o p ∧ r = o) ∨
      mover.mayPass o p ∧
        (Returns world.next p ∧ r = p ∨
          Ends world.next p ∧ Reaches (world.hop mover) p r ∧ world.hop mover r = none) := by
  induction n generalizing o p with
  | zero => cases h
  | succ n ih =>
    rcases moveCreature_cases h with hrefused | ⟨hpass, ⟨rfl, hnext⟩ | ⟨q, hnext, hq⟩⟩
    · exact .inl hrefused
    · refine .inr ⟨hpass, .inr ⟨ends_of_none hnext, .refl, ?_⟩⟩
      rw [hop, hnext, Option.filter_none]
    · refine .inr ⟨hpass, ?_⟩
      rcases hq with ⟨rfl, htile⟩ | ⟨rfl, -, hsearch⟩ | ⟨htile, hsearch, hmove⟩
      · exact .inr ⟨(ends_iff hnext).2 (ends_of_none (next_of_not_tile htile)), .refl,
          hop_eq_none hnext (.inl htile)⟩
      · have hback : Reaches₁ world.next q r := search_sound hsearch
        exact .inl ⟨(reaches₁_iff hnext).2 hback.to_reflTransGen, rfl⟩
      · obtain ⟨hends, -⟩ : Ends world.next q ∧ ¬ Reaches₁ world.next q p := search_sound hsearch
        refine .inr ⟨(ends_iff hnext).2 hends, ?_⟩
        rcases ih hmove with ⟨hrefused, rfl⟩ | ⟨hlet, ⟨hreturns, -⟩ | ⟨-, hreach, hend⟩⟩
        · exact ⟨.refl, hop_eq_none hnext (.inr (Bool.eq_false_of_not_eq_true hrefused))⟩
        · exact absurd hreturns hends.not_returns
        · exact ⟨reaches_of_step (hop_eq_some_iff.2 ⟨hnext, htile, hlet⟩) hreach, hend⟩

/-- On a circle of teleports, the first one finds the way back. -/
theorem exists_moveCreature_of_returns (hpass : mover.mayPass o p)
    (h : Returns world.next p) : ∃ n, world.moveCreature mover n o p = some p := by
  obtain ⟨q, hnext, hback⟩ := Relation.TransGen.head'_iff.1 h
  obtain ⟨n, hn⟩ := search_eq_true_iff.2 (Relation.TransGen.trans_right hback h)
  exact ⟨n + 1, moveCreature_stays hpass hnext (.inr hn)⟩

/-- The teleports that let the creature in are followed one after another. -/
theorem exists_moveCreature_of_ends (hends : Ends world.next p)
    (hreach : Reaches (world.hop mover) p r) (hend : world.hop mover r = none) :
    ∀ o, mover.mayPass o p → ∃ n, world.moveCreature mover n o p = some r := by
  have hsearch {p q : Position} (hends : Ends world.next p) (hnext : world.next p = some q) :
      ∃ n, search world.next p n q = some false := by
    refine search_eq_false_iff.2 ⟨(ends_iff hnext).1 hends, fun hback => hends.not_returns ?_⟩
    exact (reaches₁_iff hnext).2 hback.to_reflTransGen
  induction hreach using Relation.ReflTransGen.head_induction_on with
  | refl =>
    intro o hpass
    rcases hnext : world.next r with _ | q
    · exact ⟨1, moveCreature_of_next_none hpass hnext⟩
    · rcases htile : world.getTile q with _ | tile
      · exact ⟨1, moveCreature_stays hpass hnext (.inl htile)⟩
      · -- The teleport leads on, but the creature is not let in.
        have hrefused : ¬ mover.mayPass r q := by
          intro hlet
          have hstep := hop_eq_some_iff.2 ⟨hnext, by rw [htile]; rfl, hlet⟩
          cases hend.symm.trans hstep
        obtain ⟨n, hn⟩ := hsearch hends hnext
        refine ⟨n + 2, ?_⟩
        rw [moveCreature_of_search hpass hnext (by rw [htile]; rfl)
          (search_mono n.le_succ hn), moveCreature_refused hrefused]
  | @head p q hstep _ ih =>
    intro o hpass
    obtain ⟨hnext, htile, hlet⟩ := hop_eq_some_iff.1 hstep
    obtain ⟨n, hn⟩ := hsearch hends hnext
    obtain ⟨m, hm⟩ := ih ((ends_iff hnext).1 hends) p hlet
    refine ⟨max n m + 1, ?_⟩
    rw [moveCreature_of_search hpass hnext htile (search_mono (le_max_left n m) hn)]
    exact moveCreature_mono (le_max_right n m) hm

/-- Where a creature is left by a step: where it was, if it is not let in; on the first teleport,
    if they lead back to it; else at the end of the teleports that let it in. -/
theorem moveCreature_iff : (∃ n, world.moveCreature mover n o p = some r) ↔
    (¬ mover.mayPass o p ∧ r = o) ∨
      mover.mayPass o p ∧
        (Returns world.next p ∧ r = p ∨
          Ends world.next p ∧ Reaches (world.hop mover) p r ∧ world.hop mover r = none) := by
  refine ⟨fun ⟨_, hn⟩ => moveCreature_sound hn, ?_⟩
  rintro (⟨hrefused, rfl⟩ | ⟨hpass, ⟨hreturns, rfl⟩ | ⟨hends, hreach, hend⟩⟩)
  · exact ⟨1, moveCreature_refused hrefused⟩
  · exact exists_moveCreature_of_returns hpass hreturns
  · exact exists_moveCreature_of_ends hends hreach hend o hpass

instance : Finite Position := by
  refine Finite.of_injective (fun p => (p.x.toBitVec.toFin, p.y.toBitVec.toFin, p.z.toBitVec.toFin))
    fun p q h => ?_
  simp only [Prod.mk.injEq, BitVec.toFin_inj, UInt16.toBitVec_inj, UInt8.toBitVec_inj] at h
  obtain ⟨hx, hy, hz⟩ := h
  cases p
  cases q
  exact congr (congr (congrArg Position.mk hx) hy) hz

theorem exists_moveCreature_iff : (∃ n r, world.moveCreature mover n o p = some r) ↔
    ¬ (mover.mayPass o p ∧ Caught world.next p) := by
  rw [exists_comm]
  simp only [moveCreature_iff]
  constructor
  · rintro ⟨r, ⟨hrefused, -⟩ | ⟨-, ⟨hreturns, -⟩ | ⟨hends, -⟩⟩⟩ ⟨hpass, hcaught⟩
    · exact hrefused hpass
    · exact hcaught.1 hreturns
    · exact hends.not_caught hcaught
  · intro h
    by_cases hpass : mover.mayPass o p
    · rcases ends_or_returns_or_caught (f := world.next) (a := p) with hends | hreturns | hcaught
      · have hle (a b : Position) (hb : world.hop mover a = some b) : world.next a = some b :=
          (hop_eq_some_iff.1 hb).1
        obtain ⟨r, hreach, hend⟩ := hends.mono hle
        exact ⟨r, .inr ⟨hpass, .inr ⟨hends, hreach, hend⟩⟩⟩
      · exact ⟨p, .inr ⟨hpass, .inl ⟨hreturns, rfl⟩⟩⟩
      · exact absurd ⟨hpass, hcaught⟩ h
    · exact ⟨o, .inl ⟨hpass, rfl⟩⟩

/-- A step never ends if the first teleport leads into a circle that it is not on, and only
    then. -/
theorem moveCreature_hangs_iff : (∀ n, world.moveCreature mover n o p = none) ↔
    mover.mayPass o p ∧ Caught world.next p := by
  rw [← not_iff_not, ← exists_moveCreature_iff]
  push Not
  exact exists_congr fun n => Option.ne_none_iff_exists'

/-- A tile with a teleport. -/
def teleporter : Tile where
  object _ := { id := 0, class_ := .teleport }
  ground := none
  items := [0]
  downItemCount := 1
  creatures := []
  flags := Canary.Tiles.TileState.teleport.mask

/-- The first teleport leads to the second one. The second and the third lead to each other. -/
def trap : World where
  tile pos := if pos.x < 3 then
      some { teleporter with items := [pos.x.toNat] }
    else none
  house _ := none
  destPos r := if r = 1 then ⟨2, 0, 7⟩ else ⟨1, 0, 7⟩

/-- Stepping on the first one, the server is caught. -/
example (hpass : mover.mayPass o ⟨0, 0, 7⟩) (n : ℕ) :
    trap.moveCreature mover n o ⟨0, 0, 7⟩ = none := by
  have hsecond : trap.next ⟨1, 0, 7⟩ = some ⟨2, 0, 7⟩ := rfl
  have hthird : trap.next ⟨2, 0, 7⟩ = some ⟨1, 0, 7⟩ := rfl
  have hround : Returns trap.next ⟨1, 0, 7⟩ :=
    (reaches₁_iff hsecond).2 (.single hthird)
  refine moveCreature_hangs_iff.2 ⟨hpass, fun hback => ?_, ⟨1, 0, 7⟩, .single rfl, hround⟩ n
  -- No teleport leads to the first one.
  obtain ⟨q, -, hq⟩ := Relation.TransGen.tail'_iff.1 hback
  obtain ⟨r, -, hr⟩ := Option.map_eq_some_iff.1 (Option.mem_def.1 hq)
  revert hr
  simp only [trap]
  split <;> exact (by decide)

/-! ## Following the stairs -/

/-- One floor up. -/
def Up (p q : Position) : Prop := q.z.toNat + 1 = p.z.toNat

/-- One floor down. -/
def Down (p q : Position) : Prop := q.z.toNat = p.z.toNat + 1

variable (world mover) in
/-- Out of a house that the player is not invited to. -/
def TurnedOut (p : Position) : Prop :=
  ∃ house, world.house p = some house ∧ mover.isPlayer ∧ ¬ mover.isInvited house

theorem tileAt_eq_some (h : world.tileAt p = some q) : p = q ∧ q.z < 16 := by
  rw [tileAt, Option.ite_none_right_eq_some] at h
  obtain ⟨htile, hpq⟩ := h
  obtain rfl := Option.some.inj hpq
  refine ⟨rfl, ?_⟩
  by_contra hz
  rw [getTile, if_pos (UInt8.not_lt.1 hz)] at htile
  cases htile

theorem downDestination_z (h : world.downDestination p = some q) : q.z = p.z + 1 ∧ q.z < 16 := by
  have htile {x y : UInt16} (h : world.tileAt ⟨x, y, p.z + 1⟩ = some q) :
      q.z = p.z + 1 ∧ q.z < 16 := by
    obtain ⟨rfl, hz⟩ := tileAt_eq_some h
    exact ⟨rfl, hz⟩
  rw [downDestination] at h
  split at h
  · exact htile h
  · split at h
    · exact htile h
    · split at h
      · cases h
      · exact htile h

theorem upDestination_z (h : world.upDestination p = some q) : q.z = p.z - 1 ∧ q.z < 16 := by
  obtain ⟨rfl, hz⟩ := tileAt_eq_some h
  exact ⟨rfl, hz⟩

theorem lt_of_any {test : Tile → Bool} (h : (world.getTile p).any test) : p.z < 16 := by
  by_contra hz
  rw [getTile, if_pos (UInt8.not_lt.1 hz)] at h
  cases h

/-- Stairs lead one floor up or down: there is no tile above the first floor, or below the
    last. -/
theorem tileQueryDestination_floor (h : world.tileQueryDestination p ≠ p) :
    p.z < 16 ∧ (world.tileQueryDestination p).z < 16 ∧
      (Up p (world.tileQueryDestination p) ∨ Down p (world.tileQueryDestination p)) := by
  rw [tileQueryDestination] at h ⊢
  by_cases hdown : world.changesFloorAt p .down
  · rw [if_pos hdown] at h ⊢
    rcases hq : world.downDestination p with _ | q
    · exact absurd (by rw [hq, Option.getD_none]) h
    · obtain ⟨hz, hlt⟩ := downDestination_z hq
      have hp := UInt8.lt_iff_toNat_lt.1 (lt_of_any hdown)
      refine ⟨lt_of_any hdown, hlt, .inr ?_⟩
      rw [Down, Option.getD_some, hz, UInt8.toNat_add]
      exact Nat.mod_eq_of_lt (Nat.lt_trans (Nat.succ_lt_succ hp) (by decide))
  · rw [if_neg hdown] at h ⊢
    split at h
    case isTrue hup =>
      rcases hq : world.upDestination p with _ | q
      · exact absurd (by rw [hq, Option.getD_none]) h
      · obtain ⟨hz, hlt⟩ := upDestination_z hq
        rw [if_pos hup, Option.getD_some]
        refine ⟨lt_of_any hup, hlt, .inl ?_⟩
        -- On the first floor, the floor above would have the number 255.
        have hp : 1 ≤ p.z.toNat := by
          by_contra h0
          have h0 : p.z = 0 := UInt8.toNat_inj.1 (Nat.lt_one_iff.1 (Nat.not_le.1 h0))
          rw [hz, h0] at hlt
          exact absurd hlt (by decide)
        rw [Up, hz, UInt8.toNat_sub_of_le p.z 1 (UInt8.le_iff_toNat_le.2 hp)]
        exact Nat.sub_add_cancel hp
    case isFalse => exact absurd rfl h

theorem queryDestination_cases (h : world.queryDestination mover p ≠ p) :
    TurnedOut world mover p ∨
      p.z < 16 ∧ (world.queryDestination mover p).z < 16 ∧
        (Up p (world.queryDestination mover p) ∨ Down p (world.queryDestination mover p)) := by
  rw [queryDestination] at h ⊢
  rcases hhouse : world.house p with _ | house
  · rw [hhouse] at h
    exact .inr (tileQueryDestination_floor h)
  · rw [hhouse] at h
    by_cases hout : mover.isPlayer && !mover.isInvited house
    · obtain ⟨hplayer, hinvited⟩ := Bool.and_eq_true_iff.1 hout
      exact .inl ⟨house, hhouse, hplayer, by simpa using hinvited⟩
    · simp only [if_neg hout] at h ⊢
      exact .inr (tileQueryDestination_floor h)

/-- The creature is moved on to another tile, and stays there. -/
def Onward (world : World) (mover : Mover) (fuel : ℕ) (p q : Position) : Prop :=
  q ≠ p ∧ q = world.queryDestination mover p ∧ world.moveCreature mover fuel p q = some q

section Follow

variable {fuel left : ℕ}

theorem followDestinations_settled (h : world.queryDestination mover p = p) :
    world.followDestinations mover fuel (left + 1) p = some p := by
  rw [followDestinations, if_pos h]

theorem followDestinations_onward (h : Onward world mover fuel p q) :
    world.followDestinations mover fuel (left + 1) p =
      world.followDestinations mover fuel left q := by
  obtain ⟨hne, rfl, hmove⟩ := h
  rw [followDestinations, if_neg hne, hmove]
  exact if_neg (not_not.2 rfl)

theorem followDestinations_away (hne : world.queryDestination mover p ≠ p)
    (hmove : world.moveCreature mover fuel p (world.queryDestination mover p) = some r)
    (hr : r ≠ world.queryDestination mover p) :
    world.followDestinations mover fuel (left + 1) p = some r := by
  rw [followDestinations, if_neg hne, hmove]
  exact if_pos hr

/-- A round of the loop stops on the tile, or moves the creature on, or away. -/
theorem followDestinations_cases
    (h : world.followDestinations mover fuel (left + 1) p = some r) :
    (r = p ∧ world.queryDestination mover p = p) ∨
      (∃ q, Onward world mover fuel p q ∧ world.followDestinations mover fuel left q = some r) ∨
      (world.queryDestination mover p ≠ p ∧ r ≠ world.queryDestination mover p ∧
        world.moveCreature mover fuel p (world.queryDestination mover p) = some r) := by
  by_cases hne : world.queryDestination mover p = p
  · rw [followDestinations_settled hne] at h
    exact .inl ⟨(Option.some.inj h).symm, hne⟩
  · rcases hmove : world.moveCreature mover fuel p (world.queryDestination mover p) with _ | pos
    · rw [followDestinations, if_neg hne, hmove] at h
      cases h
    · by_cases hpos : pos = world.queryDestination mover p
      · have honward : Onward world mover fuel p (world.queryDestination mover p) :=
          ⟨hne, rfl, hpos ▸ hmove⟩
        rw [followDestinations_onward honward] at h
        exact .inr (.inl ⟨_, honward, h⟩)
      · rw [followDestinations_away hne hmove hpos] at h
        obtain rfl := Option.some.inj h
        exact .inr (.inr ⟨hne, hpos, rfl⟩)

/-- The tiles that the creature is moved on to, and where it is left. It comes to a tile that
    leads no further, is moved away from the last tile, by a teleport or by a zone that
    does not let it in, or has been moved as often as is allowed. -/
theorem followDestinations_sound (h : world.followDestinations mover fuel left p = some r) :
    ∃ path : List Position, List.IsChain (Onward world mover fuel) (p :: path) ∧
      path.length ≤ left ∧
      let last := (p :: path).getLast (List.cons_ne_nil p path)
      let next := world.queryDestination mover last
      (r = last ∧ (next = last ∨ path.length = left)) ∨
        next ≠ last ∧ r ≠ next ∧ world.moveCreature mover fuel last next = some r := by
  induction left generalizing p with
  | zero =>
    refine ⟨[], List.isChain_singleton p, Nat.zero_le 0, .inl ⟨?_, .inr rfl⟩⟩
    exact (Option.some.inj h).symm
  | succ left ih =>
    rcases followDestinations_cases h with ⟨rfl, hsettled⟩ | ⟨q, honward, hrest⟩ | haway
    · exact ⟨[], List.isChain_singleton r, Nat.zero_le _, .inl ⟨rfl, .inl hsettled⟩⟩
    · obtain ⟨path, hchain, hlength, hend⟩ := ih hrest
      refine ⟨q :: path, List.isChain_cons_cons.2 ⟨honward, hchain⟩,
        Nat.succ_le_succ hlength, ?_⟩
      simpa only [List.getLast_cons_cons, List.length_cons, Nat.add_right_cancel_iff] using hend
    · exact ⟨[], List.isChain_singleton p, Nat.zero_le _, .inr haway⟩

theorem Onward.mono (hnm : n ≤ m) (h : Onward world mover n p q) : Onward world mover m p q :=
  ⟨h.1, h.2.1, moveCreature_mono hnm h.2.2⟩

theorem followDestinations_mono (hnm : n ≤ m)
    (h : world.followDestinations mover n left p = some r) :
    world.followDestinations mover m left p = some r := by
  induction left generalizing p with
  | zero => exact h
  | succ left ih =>
    rcases followDestinations_cases h with ⟨rfl, hsettled⟩ | ⟨q, honward, hrest⟩ |
      ⟨hne, hr, hmove⟩
    · exact followDestinations_settled hsettled
    · rw [followDestinations_onward (honward.mono hnm)]
      exact ih hrest
    · exact followDestinations_away hne (moveCreature_mono hnm hmove) hr

/-- Where no teleport leads into a circle that it is not on, every step comes to an end. -/
theorem exists_followDestinations (hfree : ∀ q, ¬ Caught world.next q) (left : ℕ)
    (p : Position) : ∃ n r, world.followDestinations mover n left p = some r := by
  induction left generalizing p with
  | zero => exact ⟨0, p, rfl⟩
  | succ left ih =>
    let sub := world.queryDestination mover p
    by_cases hne : sub = p
    · exact ⟨0, p, followDestinations_settled hne⟩
    · obtain ⟨n, pos, hn⟩ : ∃ n pos, world.moveCreature mover n p sub = some pos :=
        exists_moveCreature_iff.2 fun hcaught => hfree sub hcaught.2
      by_cases hpos : pos = sub
      · obtain ⟨m, r, hm⟩ := ih sub
        have honward : Onward world mover n p sub := ⟨hne, rfl, hpos ▸ hn⟩
        refine ⟨max n m, r, ?_⟩
        rw [followDestinations_onward (honward.mono (le_max_left n m))]
        exact followDestinations_mono (le_max_right n m) hm
      · exact ⟨n, pos, followDestinations_away hne hn hpos⟩

end Follow

/-- Going down, the floors are counted. -/
theorem length_of_down {path : List Position} (h : List.IsChain Down (p :: path)) :
    ((p :: path).getLast (List.cons_ne_nil p path)).z.toNat = p.z.toNat + path.length := by
  induction path generalizing p with
  | nil => rfl
  | cons q path ih =>
    obtain ⟨hdown, hchain⟩ := List.isChain_cons_cons.1 h
    rw [List.getLast_cons_cons, ih hchain, hdown, List.length_cons]
    ac_rfl

theorem length_of_up {path : List Position} (h : List.IsChain Up (p :: path)) :
    ((p :: path).getLast (List.cons_ne_nil p path)).z.toNat + path.length = p.z.toNat := by
  induction path generalizing p with
  | nil => rfl
  | cons q path ih =>
    obtain ⟨hup, hchain⟩ := List.isChain_cons_cons.1 h
    rw [List.getLast_cons_cons, List.length_cons, ← hup, ← ih hchain]
    ac_rfl

theorem last_lt {n : ℕ} {path : List Position} (hp : p.z.toNat < n)
    (h : List.IsChain (fun _ b => b.z.toNat < n) (p :: path)) :
    ((p :: path).getLast (List.cons_ne_nil p path)).z.toNat < n := by
  induction path generalizing p with
  | nil => exact hp
  | cons q path ih =>
    obtain ⟨hq, hchain⟩ := List.isChain_cons_cons.1 h
    rw [List.getLast_cons_cons]
    exact ih hq hchain

/-- One of the steps of a path -/
def Somewhere (step : Position → Position → Prop) (path : List Position) : Prop :=
  ∃ a b, [a, b] <:+: path ∧ step a b

/-- If every step is of the one kind or the other, and none is of the one, all are of the
    other. -/
theorem isChain_of_not_somewhere {R A B : Position → Position → Prop} {path : List Position}
    (h : List.IsChain R path) (hR : ∀ a b, R a b → A a b ∨ B a b) (hA : ¬ Somewhere A path) :
    List.IsChain B path := by
  rw [List.isChain_iff_forall_rel_of_append_cons_cons] at h ⊢
  intro a b l₁ l₂ hpath
  refine (hR a b (h hpath)).resolve_left fun hab => hA ⟨a, b, ⟨l₁, l₂, ?_⟩, hab⟩
  rw [hpath, List.append_assoc, List.cons_append, List.cons_append, List.nil_append]

/-- There are no more floors than can be gone up or down. -/
theorem up_and_down {fuel : ℕ} {path : List Position}
    (h : List.IsChain (Onward world mover fuel) (p :: path)) (hlength : path.length = 16)
    (hout : ¬ Somewhere (fun a _ => TurnedOut world mover a) (p :: path)) :
    Somewhere Up (p :: path) ∧ Somewhere Down (p :: path) := by
  let Stairs (a b : Position) : Prop := a.z < 16 ∧ b.z < 16 ∧ (Up a b ∨ Down a b)
  have hstairs : List.IsChain Stairs (p :: path) := by
    refine isChain_of_not_somewhere h (fun a b hab => ?_) hout
    obtain ⟨hne, rfl, -⟩ := hab
    exact queryDestination_cases hne
  -- The floors of the first tile and of the last one.
  obtain ⟨q, path, rfl⟩ := List.exists_cons_of_length_eq_add_one hlength
  have hfirst : p.z.toNat < 16 :=
    UInt8.lt_iff_toNat_lt.1 (List.isChain_cons_cons.1 hstairs).1.1
  have hlast := last_lt hfirst (hstairs.imp fun a b hab => UInt8.lt_iff_toNat_lt.1 hab.2.1)
  constructor
  · by_contra hup
    have hdown : List.IsChain Down (p :: q :: path) :=
      isChain_of_not_somewhere hstairs (fun a b hab => hab.2.2) hup
    have := length_of_down hdown
    omega
  · by_contra hdown
    have hup : List.IsChain Up (p :: q :: path) :=
      isChain_of_not_somewhere hstairs (fun a b hab => hab.2.2.symm) hdown
    have := length_of_up hup
    omega

/-- The end of a creature's way: a tile that leads no further, or where it is moved away from the
    last tile, by a teleport or a zone that does not let it in. It may also have been moved
    `mapMaxLayers` times, but only out of a house, or up and down. -/
def Arrives (world : World) (mover : Mover) (fuel : ℕ) (p : Position) (path : List Position)
    (r : Position) : Prop :=
  let last := (p :: path).getLast (List.cons_ne_nil p path)
  let next := world.queryDestination mover last
  (r = last ∧ next = last) ∨
    (next ≠ last ∧ r ≠ next ∧ world.moveCreature mover fuel last next = some r) ∨
    (r = last ∧ path.length = mapMaxLayers ∧
      (Somewhere (fun a _ => TurnedOut world mover a) (p :: path) ∨
        Somewhere Up (p :: path) ∧ Somewhere Down (p :: path)))

theorem followDestinations_arrives {fuel : ℕ}
    (h : world.followDestinations mover fuel mapMaxLayers p = some r) :
    ∃ path : List Position, List.IsChain (Onward world mover fuel) (p :: path) ∧
      path.length ≤ mapMaxLayers ∧ Arrives world mover fuel p path r := by
  obtain ⟨path, hchain, hlength, hend⟩ := followDestinations_sound h
  refine ⟨path, hchain, hlength, ?_⟩
  rcases hend with ⟨hr, hsettled | hlimit⟩ | hmoved
  · exact .inl ⟨hr, hsettled⟩
  · refine .inr (.inr ⟨hr, hlimit, ?_⟩)
    by_cases hout : Somewhere (fun a _ => TurnedOut world mover a) (p :: path)
    · exact .inl hout
    · exact .inr (up_and_down hchain hlimit hout)
  · exact .inr (.inl hmoved)

/-- Where no teleport leads into a circle that it is not on, a step comes to an end. The creature
    is moved away from the tile it steps on, or goes on from there, at most `mapMaxLayers` times,
    as the stairs and houses lead. -/
theorem internalMoveCreature_spec (hfree : ∀ q, ¬ Caught world.next q) :
    ∃ fuel r, world.internalMoveCreature mover fuel o p = some r ∧
      (world.moveCreature mover fuel o p = some r ∧ r ≠ p ∨
        world.moveCreature mover fuel o p = some p ∧
          ∃ path : List Position, List.IsChain (Onward world mover fuel) (p :: path) ∧
            path.length ≤ mapMaxLayers ∧ Arrives world mover fuel p path r) := by
  obtain ⟨n, pos, hn⟩ : ∃ n pos, world.moveCreature mover n o p = some pos :=
    exists_moveCreature_iff.2 fun hcaught => hfree p hcaught.2
  by_cases hpos : pos = p
  · obtain ⟨m, r, hm⟩ : ∃ m r, world.followDestinations mover m mapMaxLayers p = some r :=
      exists_followDestinations hfree mapMaxLayers p
    have hmove := hpos ▸ moveCreature_mono (le_max_left n m) hn
    have hfollow := followDestinations_mono (le_max_right n m) hm
    refine ⟨max n m, r, ?_, .inr ⟨hmove, followDestinations_arrives hfollow⟩⟩
    rw [internalMoveCreature, hmove]
    exact (if_neg (not_not.2 rfl)).trans hfollow
  · refine ⟨n, pos, ?_, .inl ⟨hn, hpos⟩⟩
    rw [internalMoveCreature, hn]
    exact if_pos hpos

/-- A hole, and below it a teleport that leads one floor further down. -/
def cellar : World where
  tile pos := if pos.x = 100 then
      if pos.z = 7 then some { teleporter with flags := FloorChange.down.mask }
      else if pos.z = 8 then some teleporter
      else some { teleporter with flags := 0 }
    else none
  house _ := none
  destPos _ := ⟨100, 100, 9⟩

/-- The teleport leads to a tile without one. -/
theorem cellar_ends : Ends cellar.next p := by
  rcases hp : cellar.next p with _ | q
  · exact ends_of_none hp
  · obtain ⟨_, -, rfl⟩ := Option.map_eq_some_iff.1 hp
    exact (ends_iff hp).2 (ends_of_none (by decide : cellar.next ⟨100, 100, 9⟩ = none))

/-- A player whom the zones let pass. -/
def guest : Mover := ⟨true, fun _ => false, ⟨0, 0, 7⟩, fun _ _ => true⟩

theorem internalMoveCreature_cellar :
    ∃ fuel r, cellar.internalMoveCreature guest fuel ⟨99, 100, 7⟩ ⟨100, 100, 7⟩ = some r ∧
      (cellar.moveCreature guest fuel ⟨99, 100, 7⟩ ⟨100, 100, 7⟩ = some r ∧
          r ≠ ⟨100, 100, 7⟩ ∨
        cellar.moveCreature guest fuel ⟨99, 100, 7⟩ ⟨100, 100, 7⟩ = some ⟨100, 100, 7⟩ ∧
          ∃ path : List Position,
            List.IsChain (Onward cellar guest fuel) (⟨100, 100, 7⟩ :: path) ∧
              path.length ≤ mapMaxLayers ∧ Arrives cellar guest fuel ⟨100, 100, 7⟩ path r) :=
  internalMoveCreature_spec fun _ hcaught => cellar_ends.not_caught hcaught

/-- The creature falls, and is teleported. -/
example : cellar.internalMoveCreature guest 3 ⟨99, 100, 7⟩ ⟨100, 100, 7⟩ = some ⟨100, 100, 9⟩ := by
  decide

end World

end Canary.Map.Teleports
