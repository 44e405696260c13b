import Canary.Lib.Transition
import Mathlib.Data.Finset.Dedup
import Mathlib.Data.List.AList
import Mathlib.Order.MinMax
import Mathlib.Algebra.Order.Ring.Int

/-!
# Spectators

`Spectators::find` finds the creatures in a rectangle around a position, on one floor
or on all the floors seen from there. It scans the leaves of the map, blocks of
8 × 8 squares, and keeps what it finds in a cache: for every position the rectangle,
and four lists, for players or all creatures, on one floor or on several.

A later query at the same position is answered from a list of the cache, whole if the
rectangles are equal, else filtered. If the query is not within the rectangle of the
cache, the rectangle is enlarged to hold both, and scanned again.

The lists share one rectangle but are filled one at a time, and the filter is not
the test of the scan: it mirrors the rectangle, and ignores that the rectangle is
shifted with the floor. So a query is answered as without a cache if it is `Safe`:
if it enlarges the rectangle it holds the old one; and if a list answers it, that list
was filled with the rectangle asked for, or filled with more and filtered on one floor
and with a symmetric rectangle (`find_eq_uncached`).
-/

namespace Canary.Map

open List Transition

/-! ## Creatures on the map -/

structure Position where
  x : UInt16
  y : UInt16
  z : UInt8
  deriving DecidableEq

structure Creature where
  id : ℕ
  position : Position
  isPlayer : Bool
  deriving DecidableEq

def FLOOR_SIZE : ℕ := 8
def MAP_MAX_VIEW_PORT_X : ℤ := 11
def MAP_MAX_VIEW_PORT_Y : ℤ := 11
def MAP_MAX_LAYERS : ℤ := 16
def MAP_INIT_SURFACE_LAYER : ℤ := 7
def MAP_LAYER_VIEW_LIMIT : ℤ := 2

namespace Position

/-- The coordinates as integers. -/
def ix (p : Position) : ℤ := p.x.toNat
def iy (p : Position) : ℤ := p.y.toNat
def iz (p : Position) : ℤ := p.z.toNat

def getOffsetZ (p q : Position) : ℤ := p.iz - q.iz

end Position

/-- The creatures placed on the map, each on one of its layers. -/
structure Placement where
  creatures : List Creature
  onMap : ∀ c ∈ creatures, c.position.iz < MAP_MAX_LAYERS

/-- The creatures in the list of the leaf whose block starts at a square (none, if there
    is no such leaf): all of them, or the players. -/
def Placement.leafList (w : Placement) (nx ny : ℕ) (onlyPlayers : Bool) : List Creature :=
  w.creatures.filter fun c =>
    c.position.x.toNat / FLOOR_SIZE * FLOOR_SIZE = nx ∧
      c.position.y.toNat / FLOOR_SIZE * FLOOR_SIZE = ny ∧ (onlyPlayers → c.isPlayer)

/-! ## The scan -/

namespace Spectators

/-- A rectangle, relative to a center. -/
structure Range where
  minRangeX : ℤ
  maxRangeX : ℤ
  minRangeY : ℤ
  maxRangeY : ℤ
  deriving DecidableEq

/-- The conversion to `int8_t`. -/
def toInt8 (n : ℤ) : ℤ := n.bmod 256

/-- The conversion to `uint8_t`. -/
def toUInt8 (n : ℤ) : ℤ := n % 256

/-- The floors seen from a floor, the first and the last. -/
def floors (z : ℤ) (multifloor : Bool) : ℤ × ℤ :=
  if multifloor then
    if z > MAP_INIT_SURFACE_LAYER then
      (toUInt8 (max (toInt8 (z - MAP_LAYER_VIEW_LIMIT)) 0),
        toUInt8 (min (toInt8 (z + MAP_LAYER_VIEW_LIMIT)) (toInt8 (MAP_MAX_LAYERS - 1))))
    else if z = MAP_INIT_SURFACE_LAYER - 1 then
      (0, MAP_INIT_SURFACE_LAYER - 1 + MAP_LAYER_VIEW_LIMIT)
    else if z = MAP_INIT_SURFACE_LAYER then (0, MAP_INIT_SURFACE_LAYER + MAP_LAYER_VIEW_LIMIT)
    else (0, MAP_INIT_SURFACE_LAYER)
  else (z, z)

/-- A coordinate kept on the map. -/
def clip (n : ℤ) : ℕ := (min 0xFFFF (max 0 n)).toNat

/-- The starts of the blocks from one that holds `a` to one that holds `b`. -/
def blocks (a b : ℕ) : List ℕ :=
  let start := a - a % FLOOR_SIZE
  let stop := b - b % FLOOR_SIZE
  (range ((stop + FLOOR_SIZE - start) / FLOOR_SIZE)).map fun i => start + FLOOR_SIZE * i

/-- The test of the scan: the floor is seen, and the rectangle shifted with the floor
    holds the position. -/
def spotted (center : Position) (multifloor : Bool) (r : Range) (c : Creature) : Bool :=
  let offsetZ := Position.getOffsetZ center c.position
  decide ((floors center.iz multifloor).1 ≤ c.position.iz ∧
    c.position.iz ≤ (floors center.iz multifloor).2 ∧
    center.iy + r.minRangeY + offsetZ ≤ c.position.iy ∧
    c.position.iy ≤ center.iy + r.maxRangeY + offsetZ ∧
    center.ix + r.minRangeX + offsetZ ≤ c.position.ix ∧
    c.position.ix ≤ center.ix + r.maxRangeX + offsetZ)

theorem spotted_iff {center : Position} {multifloor : Bool} {r : Range} {c : Creature} :
    spotted center multifloor r c ↔
      (floors center.iz multifloor).1 ≤ c.position.iz ∧
        c.position.iz ≤ (floors center.iz multifloor).2 ∧
        center.iy + r.minRangeY + Position.getOffsetZ center c.position ≤ c.position.iy ∧
        c.position.iy ≤ center.iy + r.maxRangeY + Position.getOffsetZ center c.position ∧
        center.ix + r.minRangeX + Position.getOffsetZ center c.position ≤ c.position.ix ∧
        c.position.ix ≤ center.ix + r.maxRangeX + Position.getOffsetZ center c.position := by
  rw [spotted, decide_eq_true_iff]

/-- Scan the blocks that the rectangle touches on any of the floors. -/
def scan (w : Placement) (center : Position) (multifloor onlyPlayers : Bool) (r : Range) :
    List Creature :=
  let minoffset := center.iz - (floors center.iz multifloor).2
  let maxoffset := center.iz - (floors center.iz multifloor).1
  let x1 := clip (center.ix + r.minRangeX + minoffset)
  let y1 := clip (center.iy + r.minRangeY + minoffset)
  let x2 := clip (center.ix + r.maxRangeX + maxoffset)
  let y2 := clip (center.iy + r.maxRangeY + maxoffset)
  (blocks y1 y2).flatMap fun ny => (blocks x1 x2).flatMap fun nx =>
    (w.leafList nx ny onlyPlayers).filter (spotted center multifloor r)

/-- A coordinate between two others is in a block between theirs. -/
theorem mem_blocks {a b n : ℕ} (ha : a ≤ n) (hb : n ≤ b) :
    n / FLOOR_SIZE * FLOOR_SIZE ∈ blocks a b := by
  simp only [blocks, mem_map, mem_range, FLOOR_SIZE]
  exact ⟨n / 8 - a / 8, by omega, by omega⟩

theorem le_clip {n : ℤ} {m : ℕ} (hm : m < 2 ^ 16) (h : (m : ℤ) ≤ n) : m ≤ clip n := by
  rw [clip]
  omega

theorem clip_le {n : ℤ} {m : ℕ} (h : n ≤ m) : clip n ≤ m := by
  rw [clip]
  omega

/-- The scan finds what passes its test: the blocks leave nothing out. -/
theorem mem_scan {w : Placement} {center : Position} {multifloor onlyPlayers : Bool} {r : Range}
    {c : Creature} : c ∈ scan w center multifloor onlyPlayers r ↔
      c ∈ w.creatures ∧ (onlyPlayers → c.isPlayer) ∧ spotted center multifloor r c := by
  simp only [scan, mem_flatMap, mem_filter, Placement.leafList, decide_eq_true_eq]
  constructor
  · rintro ⟨_, _, _, _, ⟨hc, _, _, hplayer⟩, hspot⟩
    exact ⟨hc, hplayer, hspot⟩
  · rintro ⟨hc, hplayer, hspot⟩
    have h := spotted_iff.1 hspot
    simp only [Position.getOffsetZ, Position.ix, Position.iy, Position.iz] at h
    refine ⟨_, mem_blocks ?_ ?_, _, mem_blocks ?_ ?_, ⟨hc, rfl, rfl, hplayer⟩, hspot⟩
    · refine clip_le ?_
      simp only [Position.iy, Position.iz]
      omega
    · refine le_clip c.position.y.toNat_lt ?_
      simp only [Position.iy, Position.iz]
      omega
    · refine clip_le ?_
      simp only [Position.ix, Position.iz]
      omega
    · refine le_clip c.position.x.toNat_lt ?_
      simp only [Position.ix, Position.iz]
      omega

/-! ## The cache -/

/-- The lists of one kind of creatures: those on one floor, and those on several. -/
structure FloorData where
  floor : Option (List Creature)
  multiFloor : Option (List Creature)

structure SpectatorsCache where
  range : Range
  creatures : FloorData
  players : FloorData

abbrev Cache := AList fun _ : Position => SpectatorsCache

/-- A call of `find`, with its arguments. -/
structure Query where
  center : Position
  multifloor : Bool
  onlyPlayers : Bool
  minRangeX : ℤ
  maxRangeX : ℤ
  minRangeY : ℤ
  maxRangeY : ℤ

/-- The rectangle of a query: the view port where no range is given. -/
def Query.range (q : Query) : Range where
  minRangeX := if q.minRangeX = 0 then -MAP_MAX_VIEW_PORT_X else -q.minRangeX
  maxRangeX := if q.maxRangeX = 0 then MAP_MAX_VIEW_PORT_X else q.maxRangeX
  minRangeY := if q.minRangeY = 0 then -MAP_MAX_VIEW_PORT_Y else -q.minRangeY
  maxRangeY := if q.maxRangeY = 0 then MAP_MAX_VIEW_PORT_Y else q.maxRangeY

/-- The rectangle does not stay within another one. -/
def Range.widens (r c : Range) : Bool :=
  decide (r.minRangeX < c.minRangeX ∨ r.maxRangeX > c.maxRangeX ∨
    r.minRangeY < c.minRangeY ∨ r.maxRangeY > c.maxRangeY)

/-- The smallest rectangle that holds two others. -/
def Range.union (r c : Range) : Range where
  minRangeX := min r.minRangeX c.minRangeX
  maxRangeX := max r.maxRangeX c.maxRangeX
  minRangeY := min r.minRangeY c.minRangeY
  maxRangeY := max r.maxRangeY c.maxRangeY

/-- The test for a creature of a cached list. -/
def passes (q : Query) (c : Creature) : Bool :=
  decide (q.center.ix - c.position.ix ≥ q.range.minRangeX ∧
    q.center.iy - c.position.iy ≥ q.range.minRangeY ∧
    q.center.ix - c.position.ix ≤ q.range.maxRangeX ∧
    q.center.iy - c.position.iy ≤ q.range.maxRangeY ∧
    (q.multifloor ∨ c.position.iz = q.center.iz) ∧ (q.onlyPlayers → c.isPlayer))

/-- What the lists of one kind answer. A query for one floor is answered from the list for
    several floors, filtered, if there is none for one floor. -/
def checkCache (specData : FloorData) (q : Query) (checkDistance : Bool) :
    Option (List Creature) :=
  let list := if q.multifloor || specData.floor.isNone then specData.multiFloor else specData.floor
  let checkDistance := checkDistance || (!q.multifloor && specData.floor.isNone)
  list.map fun l => if checkDistance then l.filter (passes q) else l

/-- What the entry of the center answers, if it does: players are looked for in the
    lists of players first, and then in those of all creatures. -/
def SpectatorsCache.answer (c : SpectatorsCache) (q : Query) : Option (List Creature) :=
  if q.range.widens c.range then none
  else
    let checkDistance := decide (q.range ≠ c.range)
    if q.onlyPlayers then
      (checkCache c.players q checkDistance).or (checkCache c.creatures q true)
    else checkCache c.creatures q checkDistance

/-- The rectangle scanned: that of the query, enlarged if it widens that of the entry. -/
def scanRange (entry : Option SpectatorsCache) (q : Query) : Range :=
  match entry with
  | some c => if q.range.widens c.range then q.range.union c.range else q.range
  | none => q.range

/-- The entry with its rectangle enlarged; a new one, without lists, if there is none. -/
def widened (entry : Option SpectatorsCache) (q : Query) : SpectatorsCache :=
  match entry with
  | some c => if q.range.widens c.range then { c with range := q.range.union c.range } else c
  | none => ⟨q.range, ⟨none, none⟩, ⟨none, none⟩⟩

def FloorData.setList (d : FloorData) (multifloor : Bool) (l : List Creature) : FloorData :=
  if multifloor then { d with multiFloor := some l } else { d with floor := some l }

def SpectatorsCache.setList (c : SpectatorsCache) (multifloor onlyPlayers : Bool)
    (l : List Creature) : SpectatorsCache :=
  if onlyPlayers then { c with players := c.players.setList multifloor l }
  else { c with creatures := c.creatures.setList multifloor l }

/-- The creatures found by a fresh object, and the cache afterwards. -/
def find (w : Placement) (cache : Cache) (q : Query) : Finset Creature × Cache :=
  let entry := cache.lookup q.center
  match entry.bind fun c => c.answer q with
  | some l => (l.toFinset, cache)
  | none =>
    let l := scan w q.center q.multifloor q.onlyPlayers (scanRange entry q)
    (l.toFinset, cache.insert q.center ((widened entry q).setList q.multifloor q.onlyPlayers l))

/-! ## Runs -/

/-- One of the four lists of an entry: for several floors or one, for players or all. -/
structure Mode where
  multifloor : Bool
  onlyPlayers : Bool
  deriving DecidableEq

def FloorData.list (d : FloorData) (multifloor : Bool) : Option (List Creature) :=
  if multifloor then d.multiFloor else d.floor

def SpectatorsCache.list (c : SpectatorsCache) (m : Mode) : Option (List Creature) :=
  (if m.onlyPlayers then c.players else c.creatures).list m.multifloor

/-- The cache, and the history of it that the cache does not keep: the rectangle each
    list was filled with. -/
structure State where
  cache : Cache
  filled : Position → Mode → Option Range

/-- The list of one kind that answers a query: the one for the floors asked for, or else
    the one for several floors. -/
def FloorData.consulted (d : FloorData) (multifloor : Bool) : Option Bool :=
  [multifloor, true].find? fun b => (d.list b).isSome

/-- The list that answers a query: of the kinds asked for, in turn. -/
def SpectatorsCache.consulted (c : SpectatorsCache) (q : Query) : Option Mode :=
  let creatures := (c.creatures.consulted q.multifloor).map fun b => ⟨b, false⟩
  if q.onlyPlayers then ((c.players.consulted q.multifloor).map fun b => ⟨b, true⟩).or creatures
  else creatures

def step (w : Placement) (s : State) (q : Query) : State where
  cache := (find w s.cache q).2
  filled :=
    let entry := s.cache.lookup q.center
    match entry.bind fun c => c.answer q with
    | some _ => s.filled
    | none => fun center m =>
      if center = q.center ∧ m = ⟨q.multifloor, q.onlyPlayers⟩ then some (scanRange entry q)
      else s.filled center m

/-- The queries over a placement of creatures that do not move, from an empty cache. -/
def system (w : Placement) : System State Query where
  init s := s = ⟨∅, fun _ _ => none⟩
  step s q s' := s' = step w s q

/-- The rectangle holds another one. -/
def Range.Covers (r c : Range) : Prop :=
  r.minRangeX ≤ c.minRangeX ∧ c.maxRangeX ≤ r.maxRangeX ∧
    r.minRangeY ≤ c.minRangeY ∧ c.maxRangeY ≤ r.maxRangeY

def Range.Symmetric (r : Range) : Prop :=
  r.minRangeX = -r.maxRangeX ∧ r.minRangeY = -r.maxRangeY

/-- A list that answers was filled with the rectangle asked for; or it is filtered, on one
    floor and with a symmetric rectangle, and was filled with a rectangle that holds it. -/
def AnswersRight (s : State) (q : Query) (c : SpectatorsCache) (m : Mode) : Prop :=
  if m = ⟨q.multifloor, q.onlyPlayers⟩ ∧ q.range = c.range then
    s.filled q.center m = some q.range
  else q.multifloor = false ∧ q.range.Symmetric ∧
    ∃ r, s.filled q.center m = some r ∧ r.Covers q.range

/-- A query that finds an entry of its center is safe in two cases: it enlarges the
    rectangle of the entry to its own, or the list that answers it answers right. -/
def Safe (s : State) (q : Query) : Prop :=
  ∀ c, s.cache.lookup q.center = some c →
    if q.range.widens c.range then q.range.Covers c.range
    else ∀ m, c.consulted q = some m → AnswersRight s q c m

/-! ## Answers from the cache -/

section Answers

variable {c : SpectatorsCache} {q : Query} {m : Mode}

theorem checkCache_eq (d : FloorData) (q : Query) (checkDistance : Bool) :
    checkCache d q checkDistance = (d.consulted q.multifloor).bind fun b =>
      (d.list b).map fun l =>
        if checkDistance || b != q.multifloor then l.filter (passes q) else l := by
  rw [checkCache, FloorData.consulted]
  cases q.multifloor <;> cases hfloor : d.floor <;> cases hmulti : d.multiFloor <;>
    simp [FloorData.list, hfloor, hmulti]

theorem FloorData.list_of_consulted {d : FloorData} {multifloor b : Bool}
    (h : d.consulted multifloor = some b) : ∃ l, d.list b = some l :=
  Option.isSome_iff_exists.1 (by simpa using find?_some h)

/-- The list consulted answers: whole, if it is the one asked for and the rectangles are
    equal, and else filtered. -/
theorem answer_of_consulted (hw : q.range.widens c.range = false) (hm : c.consulted q = some m) :
    ∃ l, c.list m = some l ∧
      c.answer q = some (if m = ⟨q.multifloor, q.onlyPlayers⟩ ∧ q.range = c.range then l
        else l.filter (passes q)) := by
  simp only [SpectatorsCache.answer, if_neg (ne_true_of_eq_false hw), checkCache_eq]
  rw [SpectatorsCache.consulted] at hm
  cases hp : q.onlyPlayers with
  | false =>
    rw [hp, if_neg (by simp)] at hm
    obtain ⟨b, hb, rfl⟩ := Option.map_eq_some_iff.1 hm
    obtain ⟨l, hl⟩ := FloorData.list_of_consulted hb
    refine ⟨l, hl, ?_⟩
    simp only [hb, hl, Option.bind_some, Option.map_some]
    by_cases hbm : b = q.multifloor <;> by_cases hr : q.range = c.range <;> simp [hbm, hr]
  | true =>
    rw [hp, if_pos rfl] at hm
    cases hb : c.players.consulted q.multifloor with
    | some b =>
      obtain rfl : ⟨b, true⟩ = m := by simpa [hb] using hm
      obtain ⟨l, hl⟩ := FloorData.list_of_consulted hb
      refine ⟨l, hl, ?_⟩
      simp only [hl, Option.bind_some, Option.map_some, Option.some_or]
      by_cases hbm : b = q.multifloor <;> by_cases hr : q.range = c.range <;> simp [hbm, hr]
    | none =>
      -- There is no list of players: players are looked for among all creatures.
      obtain ⟨b, hb', rfl⟩ : ∃ b, c.creatures.consulted q.multifloor = some b ∧ ⟨b, false⟩ = m := by
        simpa [hb] using hm
      obtain ⟨l, hl⟩ := FloorData.list_of_consulted hb'
      exact ⟨l, hl, by simp [hb', hl]⟩

theorem answer_of_consulted_eq_none (hm : c.consulted q = none) : c.answer q = none := by
  simp only [SpectatorsCache.answer, checkCache_eq]
  rw [SpectatorsCache.consulted] at hm
  cases hp : q.onlyPlayers <;> simp_all

theorem answer_of_widens (hw : q.range.widens c.range = true) : c.answer q = none :=
  if_pos hw

/-- Lists of players only answer queries for players. -/
theorem onlyPlayers_of_consulted (hm : c.consulted q = some m) (hp : m.onlyPlayers) :
    q.onlyPlayers := by
  by_contra hq
  rw [SpectatorsCache.consulted, if_neg hq] at hm
  obtain ⟨b, _, rfl⟩ := Option.map_eq_some_iff.1 hm
  exact absurd hp (by simp)

theorem passes_iff {x : Creature} : passes q x ↔
    q.center.ix - x.position.ix ≥ q.range.minRangeX ∧
      q.center.iy - x.position.iy ≥ q.range.minRangeY ∧
      q.center.ix - x.position.ix ≤ q.range.maxRangeX ∧
      q.center.iy - x.position.iy ≤ q.range.maxRangeY ∧
      (q.multifloor ∨ x.position.iz = q.center.iz) ∧ (q.onlyPlayers → x.isPlayer) := by
  rw [passes, decide_eq_true_iff]

/-- Every layer of the map is seen from itself. -/
theorem floors_self {z : ℤ} (h₀ : 0 ≤ z) (h : z < MAP_MAX_LAYERS) (multifloor : Bool) :
    (floors z multifloor).1 ≤ z ∧ z ≤ (floors z multifloor).2 := by
  have hall : ∀ n : Fin 16, ∀ b : Bool,
      (floors (n.val : ℤ) b).1 ≤ n.val ∧ (n.val : ℤ) ≤ (floors (n.val : ℤ) b).2 := by decide
  obtain ⟨n, rfl⟩ := Int.eq_ofNat_of_zero_le h₀
  have hlt : (n : ℤ) < 16 := h
  exact hall ⟨n, by omega⟩ multifloor

/-- On one floor, with a symmetric rectangle, filtering what was found in a larger
    rectangle, on as many floors or more, gives what a scan finds. -/
theorem mem_filter_scan {w : Placement} {r : Range} {x : Creature} (hf : q.multifloor = false)
    (hs : q.range.Symmetric) (hr : r.Covers q.range) (hp : m.onlyPlayers → q.onlyPlayers) :
    x ∈ (scan w q.center m.multifloor m.onlyPlayers r).filter (passes q) ↔
      x ∈ scan w q.center q.multifloor q.onlyPlayers q.range := by
  rw [mem_filter, mem_scan, mem_scan, spotted_iff, spotted_iff, passes_iff, hf]
  obtain ⟨hsx, hsy⟩ := hs
  obtain ⟨hx₁, hx₂, hy₁, hy₂⟩ := hr
  simp only [Position.getOffsetZ, floors, Bool.false_eq_true, if_false, false_or]
  constructor
  · rintro ⟨⟨hx, -, -⟩, h₁, h₂, h₃, h₄, hz, hplayer⟩
    exact ⟨hx, hplayer, by omega, by omega, by omega, by omega, by omega, by omega⟩
  · rintro ⟨hx, hplayer, h⟩
    have hz : x.position.iz = q.center.iz := by omega
    have hfloors := floors_self (Int.natCast_nonneg _) (w.onMap x hx) m.multifloor
    rw [show ((x.position.z.toNat : ℕ) : ℤ) = x.position.iz from rfl, hz] at hfloors
    refine ⟨⟨hx, fun hm => hplayer (hp hm), ?_⟩, ?_⟩
    · rw [hz]
      exact ⟨hfloors.1, hfloors.2, by omega, by omega, by omega, by omega⟩
    · exact ⟨by omega, by omega, by omega, by omega, hz, hplayer⟩

end Answers

/-! ## The lists and the rectangles they were filled with -/

/-- Every list holds what a scan of the rectangle it was filled with finds. -/
def Inv (w : Placement) (s : State) : Prop :=
  ∀ center c m l, s.cache.lookup center = some c → c.list m = some l →
    ∃ r, s.filled center m = some r ∧
      ∀ x, x ∈ l ↔ x ∈ scan w center m.multifloor m.onlyPlayers r

theorem list_setList (c : SpectatorsCache) (multifloor onlyPlayers : Bool) (l : List Creature)
    (m : Mode) : (c.setList multifloor onlyPlayers l).list m =
      if m = ⟨multifloor, onlyPlayers⟩ then some l else c.list m := by
  obtain ⟨b, p⟩ := m
  cases multifloor <;> cases onlyPlayers <;> cases b <;> cases p <;> rfl

/-- Enlarging the rectangle of an entry keeps its lists; a new entry has none. -/
theorem list_widened (entry : Option SpectatorsCache) (q : Query) (m : Mode) :
    (widened entry q).list m = entry.bind fun c => c.list m := by
  cases entry with
  | none => obtain ⟨_ | _, _ | _⟩ := m <;> rfl
  | some c =>
    simp only [widened, Option.bind_some]
    split_ifs <;> rfl

theorem Inv.step {w : Placement} {s : State} (h : Inv w s) (q : Query) : Inv w (step w s q) := by
  intro center c m l hc hl
  simp only [Spectators.step, find] at hc ⊢
  cases hans : (s.cache.lookup q.center).bind fun c => c.answer q with
  | some l' =>
    rw [hans] at hc
    exact h center c m l hc hl
  | none =>
    simp only [hans] at hc ⊢
    by_cases hcenter : center = q.center
    · subst hcenter
      rw [AList.lookup_insert, Option.some.injEq] at hc
      rw [← hc, list_setList, list_widened] at hl
      by_cases hm : m = ⟨q.multifloor, q.onlyPlayers⟩
      · -- The list filled just now.
        rw [if_pos hm, Option.some.injEq] at hl
        refine ⟨_, if_pos ⟨rfl, hm⟩, fun x => ?_⟩
        rw [← hl, hm]
      · rw [if_neg hm] at hl
        obtain ⟨c', hc', hl'⟩ := Option.bind_eq_some_iff.1 hl
        rw [if_neg fun hand => hm hand.2]
        exact h _ c' m l hc' hl'
    · rw [AList.lookup_insert_ne hcenter] at hc
      rw [if_neg fun hand => hcenter hand.1]
      exact h center c m l hc hl

theorem inv_of_reachable {w : Placement} {s : State} (hs : (system w).Reachable s) : Inv w s := by
  refine hs.invariant ?_ ?_
  · rintro s rfl center c m l hc
    simp at hc
  · rintro s q s' h - rfl
    exact h.step q

/-- A cache that is cleared has no lists. -/
theorem inv_empty (w : Placement) : Inv w ⟨∅, fun _ _ => none⟩ := inv_of_reachable (.init rfl)

/-! ## Queries -/

/-- Without a cache, a query is answered by the scan of its own rectangle. -/
theorem find_empty (w : Placement) (q : Query) :
    (find w ∅ q).1 = (scan w q.center q.multifloor q.onlyPlayers q.range).toFinset := rfl

theorem Inv.find_eq {w : Placement} {s : State} (h : Inv w s) {q : Query} (hq : Safe s q) :
    (find w s.cache q).1 = (find w ∅ q).1 := by
  rw [find_empty, find]
  cases hentry : s.cache.lookup q.center with
  | none => rfl
  | some c =>
    have hsafe := hq c hentry
    cases hw : q.range.widens c.range with
    | true =>
      -- The rectangle is enlarged to that of the query.
      rw [hw, if_pos rfl] at hsafe
      obtain ⟨hx₁, hx₂, hy₁, hy₂⟩ := hsafe
      have hunion : q.range.union c.range = q.range := by
        simp only [Range.union, min_eq_left hx₁, max_eq_left hx₂, min_eq_left hy₁,
          max_eq_left hy₂]
      rw [Option.bind_some, answer_of_widens hw]
      simp only [scanRange, hw, if_true, hunion]
    | false =>
      rw [hw, if_neg (by simp)] at hsafe
      cases hm : c.consulted q with
      | none =>
        rw [Option.bind_some, answer_of_consulted_eq_none hm]
        simp only [scanRange, hw, Bool.false_eq_true, if_false]
      | some m =>
        obtain ⟨l, hl, hans⟩ := answer_of_consulted hw hm
        obtain ⟨r, hr, hscan⟩ := h q.center c m l hentry hl
        have hright := hsafe m hm
        rw [AnswersRight, hr] at hright
        rw [Option.bind_some, hans]
        refine Finset.ext fun x => ?_
        rw [mem_toFinset, mem_toFinset]
        split_ifs at hright ⊢ with hown
        · rw [hscan, Option.some.inj hright, hown.1]
        · obtain ⟨hf, hs, r', hr', hcov⟩ := hright
          obtain rfl := Option.some.inj hr'
          rw [mem_filter, hscan, ← mem_filter,
            mem_filter_scan hf hs hcov (onlyPlayers_of_consulted hm)]

theorem widens_self (r : Range) : r.widens r = false := by
  simp [Range.widens]

theorem range_setList (c : SpectatorsCache) (multifloor onlyPlayers : Bool) (l : List Creature) :
    (c.setList multifloor onlyPlayers l).range = c.range := by
  cases onlyPlayers <;> rfl

/-- The list asked for is consulted first. -/
theorem consulted_of_list {c : SpectatorsCache} {q : Query} {l : List Creature}
    (hl : c.list ⟨q.multifloor, q.onlyPlayers⟩ = some l) :
    c.consulted q = some ⟨q.multifloor, q.onlyPlayers⟩ := by
  rw [SpectatorsCache.consulted]
  cases hp : q.onlyPlayers <;>
    simp_all [SpectatorsCache.list, FloorData.consulted]

/-- A query repeated right after it made the entry of its center is safe. -/
theorem safe_again {w : Placement} {s : State} {q : Query}
    (hnew : s.cache.lookup q.center = none) : Safe (step w s q) q := by
  intro c hc
  simp only [step, find, hnew, Option.bind_none, AList.lookup_insert, Option.some.injEq] at hc
  have hrange : q.range = c.range := by
    rw [← hc, range_setList]
    rfl
  have hlist := list_setList (widened none q) q.multifloor q.onlyPlayers
    (scan w q.center q.multifloor q.onlyPlayers (scanRange none q)) ⟨q.multifloor, q.onlyPlayers⟩
  rw [if_pos rfl, hc] at hlist
  rw [← hrange, widens_self, if_neg (by simp)]
  intro m hm
  obtain rfl := Option.some.inj ((consulted_of_list hlist).symm.trans hm)
  rw [AnswersRight, if_pos ⟨rfl, hrange⟩]
  simp only [step, hnew, Option.bind_none, and_self, if_true]
  rfl

/-- For every placement of creatures and every run of queries: a query that is safe in
    the state the run has reached finds what it would find without a cache. -/
theorem find_eq_uncached (w : Placement) (s : State) (hs : (system w).Reachable s) (q : Query)
    (hq : Safe s q) : (find w s.cache q).1 = (find w ∅ q).1 :=
  (inv_of_reachable hs).find_eq hq

/-- A query for a player three squares away, repeated: it is answered from the cache. -/
theorem find_eq_uncached_again :
    let w : Placement := ⟨[⟨1, ⟨103, 103, 7⟩, true⟩], by decide⟩
    let q : Query := ⟨⟨100, 100, 7⟩, false, true, 5, 5, 5, 5⟩
    (find w (step w ⟨∅, fun _ _ => none⟩ q).cache q).1 = (find w ∅ q).1 := by
  intro w q
  have hr : (system w).Reachable (step w ⟨∅, fun _ _ => none⟩ q) :=
    .step (.init rfl) trivial rfl
  exact find_eq_uncached w _ hr q (safe_again rfl)

/-- A rectangle wider one way and a rectangle wider the other way: the second query
    is answered with the creatures of a square that holds both. -/
theorem not_find_eq_uncached :
    ¬∀ (w : Placement) (s : State), (system w).Reachable s → ∀ q : Query,
      (find w s.cache q).1 = (find w ∅ q).1 := by
  intro h
  have heq := h ⟨[⟨1, ⟨103, 103, 7⟩, true⟩], by decide⟩ _
    (.step (.init rfl) (a := ⟨⟨100, 100, 7⟩, false, false, 5, 5, 1, 1⟩) trivial rfl)
    ⟨⟨100, 100, 7⟩, false, false, 1, 1, 5, 5⟩
  exact absurd heq (by decide +kernel)

end Spectators

end Canary.Map
