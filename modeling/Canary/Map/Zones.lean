import Canary.Lib.Transition
import Canary.Map.Spectators

/-!
# Zones

A zone is a set of positions, made of areas that scripts add and subtract. A tile that is
loaded keeps the zones it is in (`Tile::zones`), which are looked up when the tile is loaded and
whenever a zone that has its position is refreshed. A tile is told of a zone it is in no more
only by another zone that it is still in, and never of a zone of the map (`isStatic`).

Tiles and zones agree in every run in which no position of a loaded tile is subtracted from its
zone (`agree_of_reachable`); each subtraction of another kind breaks the agreement
(`agree_subtractArea_iff`).
-/

namespace Canary.Map.Zones

open Transition

/-! ## Areas -/

/-- A box of positions. -/
structure Area where
  fromPos : Position
  toPos : Position

namespace Area

variable (a : Area)

/-- `PositionIterator::operator++`. The coordinates wrap. -/
def next (p : Position) : Position :=
  if p.x + 1 > a.toPos.x then
    if p.y + 1 > a.toPos.y then ⟨a.fromPos.x, a.fromPos.y, p.z + 1⟩
    else ⟨a.fromPos.x, p.y + 1, p.z⟩
  else ⟨p.x + 1, p.y, p.z⟩

/-- `end`: past the last position. -/
def endPosition : Position := ⟨a.fromPos.x, a.fromPos.y, a.toPos.z + 1⟩

/-- The positions from `p` on, if the iterator gets to its end in so many steps. -/
def visit : ℕ → Position → Option (List Position)
  | 0, _ => none
  | n + 1, p => if p = a.endPosition then some [] else (visit n (a.next p)).map (p :: ·)

/-- The area is passed through, and these are its positions. -/
def Visits (l : List Position) : Prop := ∃ n, a.visit n a.fromPos = some l

end Area

/-! ## Zones and tiles -/

/-- The zones (`Z`) of the game, fixed in a run. -/
structure Registry (Z : Type) where
  zones : List Z
  /-- The zone is one of the map. -/
  isStatic : Z → Bool

structure State (Z : Type) where
  /-- `Zone::positions` -/
  positions : Z → List Position
  /-- The zones of the tile at a position, if it is loaded. -/
  tile : Position → Option (List Z)

/-- The calls. Tiles are loaded from the cache when they are looked at first. -/
inductive Op (Z : Type)
  | addArea (zone : Z) (area : Area)
  | subtractArea (zone : Z) (area : Area)
  | refresh (zone : Z)
  | getOrCreateTileFromCache (pos : Position)

variable {Z : Type} [DecidableEq Z] (r : Registry Z)

/-- `Zone::getZones(position)` -/
def getZones (s : State Z) (pos : Position) : List Z :=
  r.zones.filter fun zone => pos ∈ s.positions zone

/-- `Tile::clearZones` keeps the zones of the map. -/
def clearZones (zones : List Z) : List Z := zones.filter r.isStatic

/-- `Tile::addZone` -/
def addZone (zones : List Z) (zone : Z) : List Z := if zone ∈ zones then zones else zone :: zones

/-- `Map::refreshZones` -/
def refreshZones (s : State Z) (pos : Position) : State Z :=
  match s.tile pos with
  | none => s
  | some zones =>
    { s with tile := Function.update s.tile pos
              (some ((getZones r s pos).foldl addZone (clearZones r zones))) }

/-- `Zone::refresh` -/
def refresh (s : State Z) (zone : Z) : State Z :=
  (s.positions zone).foldl (refreshZones r) s

def addPosition (s : State Z) (zone : Z) (pos : Position) : State Z :=
  if pos ∈ s.positions zone then s
  else { s with positions := Function.update s.positions zone (pos :: s.positions zone) }

def removePosition (s : State Z) (zone : Z) (pos : Position) : State Z :=
  { s with positions :=
            Function.update s.positions zone ((s.positions zone).filter (· ≠ pos)) }

/-- `Zone::addArea`, of the positions of the area. -/
def addArea (s : State Z) (zone : Z) (l : List Position) : State Z :=
  refresh r (l.foldl (fun s pos => addPosition s zone pos) s) zone

def subtractArea (s : State Z) (zone : Z) (l : List Position) : State Z :=
  refresh r (l.foldl (fun s pos => removePosition s zone pos) s) zone

/-- A tile gets its zones when it is made. -/
def getOrCreateTileFromCache (s : State Z) (pos : Position) : State Z :=
  match s.tile pos with
  | some _ => s
  | none => { s with tile := Function.update s.tile pos
                      (some ((getZones r s pos).foldl addZone [])) }

/-- The zones of each loaded tile are those that have its position. -/
def Agree (s : State Z) : Prop :=
  ∀ pos zones, s.tile pos = some zones → ∀ zone, zone ∈ zones ↔ zone ∈ getZones r s pos

/-- Any calls in any order; a call whose area is not passed through does not return. -/
def system : System (State Z) (Op Z) where
  init s := Agree r s
  step s op s' := match op with
    | .addArea zone area => ∃ l, area.Visits l ∧ s' = addArea r s zone l
    | .subtractArea zone area => ∃ l, area.Visits l ∧ s' = subtractArea r s zone l
    | .refresh zone => s' = refresh r s zone
    | .getOrCreateTileFromCache pos => s' = getOrCreateTileFromCache r s pos

/-! ## What a refresh does -/

omit [DecidableEq Z] in
theorem mem_getZones {s : State Z} {pos : Position} {zone : Z} :
    zone ∈ getZones r s pos ↔ zone ∈ r.zones ∧ pos ∈ s.positions zone := by
  rw [getZones, List.mem_filter, decide_eq_true_eq]

theorem mem_foldl_addZone {l zones : List Z} {zone : Z} :
    zone ∈ l.foldl addZone zones ↔ zone ∈ zones ∨ zone ∈ l := by
  induction l generalizing zones with
  | nil => simp
  | cons a l ih =>
    have hadd : zone ∈ addZone zones a ↔ zone = a ∨ zone ∈ zones := by
      rw [addZone]
      split_ifs with ha
      · exact ⟨.inr, fun h => h.elim (fun he => he ▸ ha) id⟩
      · exact List.mem_cons
    rw [List.foldl_cons, ih, hadd, List.mem_cons, or_right_comm, or_comm (a := zone = a), or_assoc]
    tauto

/-- The zones of a tile after a refresh. -/
theorem mem_refreshed {s : State Z} {pos : Position} {zones : List Z} {zone : Z} :
    zone ∈ (getZones r s pos).foldl addZone (clearZones r zones) ↔
      zone ∈ getZones r s pos ∨ zone ∈ zones ∧ r.isStatic zone = true := by
  rw [mem_foldl_addZone, clearZones, List.mem_filter, or_comm]

section refresh

variable {r} {s : State Z}

/-- A refresh of positions, one after another. -/
abbrev refreshAll (r : Registry Z) (s : State Z) (l : List Position) : State Z :=
  l.foldl (refreshZones r) s

theorem positions_refreshZones (s : State Z) (pos : Position) :
    (refreshZones r s pos).positions = s.positions := by
  rw [refreshZones]
  split <;> rfl

theorem getZones_refreshZones (s : State Z) (pos pos' : Position) :
    getZones r (refreshZones r s pos) pos' = getZones r s pos' := by
  rw [getZones, positions_refreshZones, getZones]

theorem tile_refreshZones_of_ne {s : State Z} {pos pos' : Position} (h : pos' ≠ pos) :
    (refreshZones r s pos).tile pos' = s.tile pos' := by
  rw [refreshZones]
  split
  · rfl
  · exact Function.update_of_ne h ..

theorem tile_refreshZones {s : State Z} {pos : Position} :
    (refreshZones r s pos).tile pos = (s.tile pos).map fun zones =>
      (getZones r s pos).foldl addZone (clearZones r zones) := by
  rw [refreshZones]
  split
  · next h => rw [h, Option.map_none]
  · next h =>
    rw [h, Option.map_some]
    exact Function.update_self ..

theorem positions_refreshAll (s : State Z) (l : List Position) :
    (refreshAll r s l).positions = s.positions := by
  induction l generalizing s with
  | nil => rfl
  | cons pos l ih => exact (ih _).trans (positions_refreshZones s pos)

/-- A tile that is refreshed is in the zones that have its position, and in the zones of the map
    it was in before; any other tile is left alone. -/
theorem tile_refreshAll (l : List Position) (s : State Z) (pos : Position) :
    if pos ∈ l then
      ((refreshAll r s l).tile pos).isSome = (s.tile pos).isSome ∧
      ∀ zones zones', s.tile pos = some zones → (refreshAll r s l).tile pos = some zones' →
        ∀ zone, zone ∈ zones' ↔
          zone ∈ getZones r s pos ∨ zone ∈ zones ∧ r.isStatic zone = true
    else (refreshAll r s l).tile pos = s.tile pos := by
  induction l generalizing s with
  | nil =>
    rw [if_neg List.not_mem_nil]
    rfl
  | cons pos' l ih =>
    have hl := ih (refreshZones r s pos')
    rw [getZones_refreshZones] at hl
    have hcons : refreshAll r s (pos' :: l) = refreshAll r (refreshZones r s pos') l := rfl
    rw [hcons]
    by_cases he : pos = pos'
    · subst he
      rw [if_pos List.mem_cons_self]
      -- It may be visited again, which changes nothing.
      rw [tile_refreshZones, Option.isSome_map] at hl
      split_ifs at hl with hmem
      · refine ⟨hl.1, fun zones zones' hzones hzones' zone => ?_⟩
        have hiff := hl.2 _ zones' (by rw [hzones, Option.map_some]) hzones' zone
        rw [hiff, mem_refreshed]
        tauto
      · rw [hl, Option.isSome_map]
        refine ⟨rfl, fun zones zones' hzones hzones' zone => ?_⟩
        rw [hzones, Option.map_some] at hzones'
        rw [← Option.some.inj hzones', mem_refreshed]
    · simp only [List.mem_cons, he, false_or]
      rw [tile_refreshZones_of_ne he] at hl
      exact hl

/-- A refresh makes the tiles agree that it visits, if their zones of the map are right, and
    leaves the others. -/
theorem agree_refreshAll_iff {l : List Position}
    (hstatic : ∀ pos zones, pos ∈ l → s.tile pos = some zones → ∀ zone ∈ zones,
      r.isStatic zone = true → zone ∈ getZones r s pos) :
    Agree r (refreshAll r s l) ↔ ∀ pos zones, pos ∉ l → s.tile pos = some zones →
      ∀ zone, zone ∈ zones ↔ zone ∈ getZones r s pos := by
  have hzones : ∀ pos, getZones r (refreshAll r s l) pos = getZones r s pos := fun pos => by
    rw [getZones, positions_refreshAll, getZones]
  have htile := tile_refreshAll (r := r) l s
  constructor
  · intro h pos zones hpos hs zone
    have hkeep := htile pos
    rw [if_neg hpos] at hkeep
    rw [← hzones]
    exact h pos zones (hkeep.trans hs) zone
  · intro h pos zones' hzones' zone
    have hkeep := htile pos
    rw [hzones]
    split_ifs at hkeep with hpos
    · obtain ⟨zones, hs⟩ : ∃ zones, s.tile pos = some zones := by
        rw [← Option.isSome_iff_exists, ← hkeep.1, hzones']
        rfl
      rw [hkeep.2 zones zones' hs hzones']
      exact or_iff_left_of_imp fun hz => hstatic pos zones hpos hs zone hz.1 hz.2
    · exact h pos zones' hpos (hkeep ▸ hzones') zone

theorem agree_refresh (h : Agree r s) (zone : Z) : Agree r (refresh r s zone) :=
  (agree_refreshAll_iff fun pos zones _ hs zone hz _ => (h pos zones hs zone).1 hz).2
    fun pos zones _ hs => h pos zones hs

end refresh

/-! ## What the calls do to the zones -/

section calls

variable {r} {s : State Z} {zone : Z}

theorem foldl_addPosition (zone : Z) (l : List Position) (s : State Z) :
    (l.foldl (fun s pos => addPosition s zone pos) s).tile = s.tile ∧
      ∀ zone' pos, pos ∈ (l.foldl (fun s pos => addPosition s zone pos) s).positions zone' ↔
        pos ∈ s.positions zone' ∨ zone' = zone ∧ pos ∈ l := by
  induction l generalizing s with
  | nil => exact ⟨rfl, fun _ _ => by simp⟩
  | cons p l ih =>
    have hadd : (addPosition s zone p).tile = s.tile ∧ ∀ zone' pos,
        pos ∈ (addPosition s zone p).positions zone' ↔
          pos ∈ s.positions zone' ∨ zone' = zone ∧ pos = p := by
      rw [addPosition]
      split_ifs with hp
      · refine ⟨rfl, fun zone' pos => (or_iff_left_of_imp ?_).symm⟩
        rintro ⟨rfl, rfl⟩
        exact hp
      · refine ⟨rfl, fun zone' pos => ?_⟩
        dsimp only
        rw [Function.update_apply]
        split_ifs with hz
        · rw [hz, List.mem_cons, or_comm]
          simp
        · simp [hz]
    obtain ⟨htile, hmem⟩ := ih (addPosition s zone p)
    refine ⟨htile.trans hadd.1, fun zone' pos => ?_⟩
    rw [List.foldl_cons, hmem, hadd.2, List.mem_cons]
    tauto

theorem foldl_removePosition (zone : Z) (l : List Position) (s : State Z) :
    (l.foldl (fun s pos => removePosition s zone pos) s).tile = s.tile ∧
      ∀ zone' pos, pos ∈ (l.foldl (fun s pos => removePosition s zone pos) s).positions zone' ↔
        pos ∈ s.positions zone' ∧ ¬ (zone' = zone ∧ pos ∈ l) := by
  induction l generalizing s with
  | nil => exact ⟨rfl, fun _ _ => by simp⟩
  | cons p l ih =>
    have hremove : ∀ zone' pos, pos ∈ (removePosition s zone p).positions zone' ↔
        pos ∈ s.positions zone' ∧ ¬ (zone' = zone ∧ pos = p) := by
      intro zone' pos
      rw [removePosition]
      dsimp only
      rw [Function.update_apply]
      split_ifs with hz
      · simp [hz]
      · simp [hz]
    obtain ⟨htile, hmem⟩ := ih (removePosition s zone p)
    refine ⟨htile, fun zone' pos => ?_⟩
    rw [List.foldl_cons, hmem, hremove, List.mem_cons]
    tauto

theorem agree_addArea (h : Agree r s) (l : List Position) : Agree r (addArea r s zone l) := by
  obtain ⟨htile, hmem⟩ := foldl_addPosition zone l s
  rw [addArea, refresh]
  generalize l.foldl (fun s pos => addPosition s zone pos) s = s' at htile hmem ⊢
  have hzones : ∀ pos zone', zone' ∈ getZones r s' pos ↔
      zone' ∈ getZones r s pos ∨ zone' ∈ r.zones ∧ zone' = zone ∧ pos ∈ l := by
    intro pos zone'
    rw [mem_getZones, mem_getZones, hmem]
    tauto
  refine (agree_refreshAll_iff fun pos zones _ hs zone' hz _ => ?_).2
    fun pos zones hpos hs zone' => ?_
  · rw [htile] at hs
    exact (hzones pos zone').2 (.inl ((h pos zones hs zone').1 hz))
  · -- A position that is not in the zone was not added.
    rw [htile] at hs
    rw [h pos zones hs, hzones, or_iff_left]
    rintro ⟨-, rfl, hl⟩
    exact hpos ((hmem _ pos).2 (.inr ⟨rfl, hl⟩))

/-- A subtraction keeps the agreement if and only if no tile is loaded where it takes a
    position from the zone. -/
theorem agree_subtractArea_iff (h : Agree r s) (l : List Position) :
    Agree r (subtractArea r s zone l) ↔
      ∀ pos ∈ l, zone ∈ r.zones → pos ∈ s.positions zone → s.tile pos = none := by
  obtain ⟨htile, hmem⟩ := foldl_removePosition zone l s
  rw [subtractArea, refresh]
  generalize l.foldl (fun s pos => removePosition s zone pos) s = s' at htile hmem ⊢
  have hzones : ∀ pos zone', zone' ∈ getZones r s' pos ↔
      zone' ∈ getZones r s pos ∧ ¬ (zone' = zone ∧ pos ∈ l) := by
    intro pos zone'
    rw [mem_getZones, mem_getZones, hmem]
    tauto
  rw [agree_refreshAll_iff fun pos zones hpos hs zone' hz _ => ?_]
  · rw [htile]
    constructor
    · intro hagree pos hl hzone hpos
      rcases hs : s.tile pos with _ | zones
      · rfl
      · -- The tile of a position that is taken away is not visited any more, and keeps the zone.
        have hnot : pos ∉ s'.positions zone := fun hp => ((hmem zone pos).1 hp).2 ⟨rfl, hl⟩
        have hiff := hagree pos zones hnot hs zone
        rw [h pos zones hs, hzones] at hiff
        exact absurd ⟨rfl, hl⟩ (hiff.1 ((mem_getZones r).2 ⟨hzone, hpos⟩)).2
    · intro hnone pos zones hpos hs zone'
      rw [h pos zones hs, hzones]
      refine (and_iff_left_of_imp ?_).symm
      rintro hz ⟨rfl, hl⟩
      obtain ⟨hzone, hp⟩ := (mem_getZones r).1 hz
      exact absurd ((hnone pos hl hzone hp).symm.trans hs) nofun
  · rw [htile] at hs
    refine (hzones pos zone').2 ⟨(h pos zones hs zone').1 hz, ?_⟩
    rintro ⟨-, hl⟩
    exact ((hmem zone pos).1 hpos).2 ⟨rfl, hl⟩

theorem agree_getOrCreateTileFromCache (h : Agree r s) (pos : Position) :
    Agree r (getOrCreateTileFromCache r s pos) := by
  rw [getOrCreateTileFromCache]
  split
  · exact h
  · intro pos' zones hzones zone
    dsimp only at hzones
    rw [Function.update_apply] at hzones
    have hsame : ∀ t, getZones r { s with tile := t } pos' = getZones r s pos' := fun _ => rfl
    rw [hsame]
    split_ifs at hzones with hpos
    · rw [← Option.some.inj hzones, mem_foldl_addZone, hpos]
      simp
    · exact h pos' zones hzones zone

end calls

/-! ## All runs -/

/-- No position is subtracted from a zone while its tile is loaded. -/
def ok (s : State Z) : Op Z → Prop
  | .subtractArea zone area => ∀ l, area.Visits l →
    ∀ pos ∈ l, zone ∈ r.zones → pos ∈ s.positions zone → s.tile pos = none
  | _ => True

/-- Tiles and zones agree in every run of such calls. -/
theorem agree_of_reachable {s : State Z} (h : (system r).ReachableVia (ok r) s) : Agree r s := by
  refine h.invariant (fun _ h₀ => h₀) fun s op s' hs hok hstep => ?_
  cases op with
  | addArea zone area =>
    obtain ⟨l, -, rfl⟩ := hstep
    exact agree_addArea hs l
  | subtractArea zone area =>
    obtain ⟨l, hl, rfl⟩ := hstep
    exact (agree_subtractArea_iff hs l).2 (hok l hl)
  | refresh zone => exact hstep ▸ agree_refresh hs zone
  | getOrCreateTileFromCache pos => exact hstep ▸ agree_getOrCreateTileFromCache hs pos

/-! ## One zone and one tile -/

/-- The zone and the square are at `(1, 1, 7)`. -/
def square : Area := ⟨⟨1, 1, 7⟩, ⟨1, 1, 7⟩⟩

def oneZone : Registry Unit := ⟨[()], fun _ => false⟩

theorem visits_square : square.Visits [⟨1, 1, 7⟩] := ⟨2, by decide⟩

/-- The tile at the square is loaded, and the zone is empty. -/
def oneTile : State Unit :=
  ⟨fun _ => [], fun pos => if pos = ⟨1, 1, 7⟩ then some [] else none⟩

theorem agree_oneTile : Agree oneZone oneTile := by
  intro pos zones hzones zone
  rw [oneTile] at hzones
  dsimp only at hzones
  split_ifs at hzones
  rw [← Option.some.inj hzones, mem_getZones]
  exact iff_of_false List.not_mem_nil fun h => absurd h.2 List.not_mem_nil

/-- An area is added. -/
theorem agree_oneTile_addArea :
    Agree oneZone (addArea oneZone oneTile () [⟨1, 1, 7⟩]) :=
  agree_of_reachable oneZone (.step (a := .addArea () square) (.init agree_oneTile) trivial
    ⟨_, visits_square, rfl⟩)

/-- The area is added, and subtracted again: the tile keeps the zone, which has no position. -/
theorem tile_keeps_zone :
    (system oneZone).Reachable
        (subtractArea oneZone (addArea oneZone oneTile () [⟨1, 1, 7⟩]) () [⟨1, 1, 7⟩]) ∧
      ¬ Agree oneZone
        (subtractArea oneZone (addArea oneZone oneTile () [⟨1, 1, 7⟩]) () [⟨1, 1, 7⟩]) := by
  refine ⟨.step (a := .subtractArea () square) (.step (a := .addArea () square)
    (.init agree_oneTile) trivial ⟨_, visits_square, rfl⟩) trivial ⟨_, visits_square, rfl⟩,
    fun h => ?_⟩
  exact absurd ((h ⟨1, 1, 7⟩ [()] (by decide) ()).1 List.mem_cons_self) (by decide)

end Canary.Map.Zones
