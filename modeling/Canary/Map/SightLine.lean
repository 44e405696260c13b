import Canary.Lib.GridLine
import Canary.Map.Spectators
import Canary.Tiles.Tile
import Mathlib.Algebra.Order.Ring.Abs

/-!
# The line of sight

`checkSightLine` goes from one position to another, by one square at a time and as near to the
line between them as it can, and then through the floors. Sight is blocked by what blocks
projectiles on the way, and by anything on the squares of the floors in between.

How near a square is to the line is computed with 32 bits, which the products of coordinates and
offsets may exceed. Otherwise the squares are those of the grid next to the line (`next_point`).
-/

namespace Canary.Map.SightLine

open GridLine Tiles

/-- The tiles of the map. -/
abbrev World := Position → Option Tile

/-! ## The code -/

/-- The values of `int32_t` -/
def IsInt32 (v : ℤ) : Prop := -2 ^ 31 ≤ v ∧ v < 2 ^ 31

instance (v : ℤ) : Decidable (IsInt32 v) := inferInstanceAs (Decidable (_ ∧ _))

/-- There is no value if it overflows. -/
def int32 (v : ℤ) : Option ℤ := if IsInt32 v then some v else none

/-- What the loop of `checkSightLine` computes before it starts. -/
structure Line where
  mx : ℤ
  my : ℤ
  A : ℤ
  B : ℤ
  C : ℤ

/-- The step towards the destination in one coordinate. -/
def direction (start destination : ℤ) : ℤ :=
  if start < destination then 1 else if start = destination then 0 else -1

def line (start destination : Position) : Option Line := do
  let A := destination.iy - start.iy
  let B := start.ix - destination.ix
  let C ← int32 (-(← int32 ((← int32 (A * destination.ix)) + (← int32 (B * destination.iy)))))
  some ⟨direction start.ix destination.ix, direction start.iy destination.iy, A, B, C⟩

/-- `std::abs(A * x + B * y + C)` -/
def Line.distance (l : Line) (x y : ℤ) : Option ℤ := do
  let sum ← int32 ((← int32 (l.A * x)) + (← int32 (l.B * y)))
  int32 |← int32 (sum + l.C)|

def moveX (p : Position) (mx : ℤ) : Position := { p with x := UInt16.ofInt (p.ix + mx) }

def moveY (p : Position) (my : ℤ) : Position := { p with y := UInt16.ofInt (p.iy + my) }

/-- The first loop, once: where it moves to. -/
def Line.next (l : Line) (destination start : Position) : Option Position := do
  let move_hor ← l.distance (start.ix + l.mx) start.iy
  let move_ver ← l.distance start.ix (start.iy + l.my)
  let move_cross ← l.distance (start.ix + l.mx) (start.iy + l.my)
  let start := if start.y ≠ destination.y ∧
      (start.x = destination.x ∨ move_hor > move_ver ∨ move_hor > move_cross) then
    moveY start l.my else start
  some (if start.x ≠ destination.x ∧
      (start.y = destination.y ∨ move_ver > move_hor ∨ move_ver > move_cross) then
    moveX start l.mx else start)

section world

variable (w : World)

/-- `tile && tile->hasProperty(CONST_PROP_BLOCKPROJECTILE)` -/
def blocks (p : Position) : Bool := (w p).any fun tile => tile.hasFlag .blockProjectile

/-- `tile && tile->getThingCount() > 0` -/
def occupied (p : Position) : Bool := (w p).any fun tile => tile.getThingCount > 0

/-- The first loop: the squares it moves to, and whether it arrives. -/
def Line.walk (l : Line) (destination : Position) : ℕ → Position → Option (List Position × Bool)
  | 0, _ => none
  | fuel + 1, start =>
    if start.x = destination.x ∧ start.y = destination.y then some ([], true)
    else do
      let start ← l.next destination start
      if blocks w start then some ([start], false)
      else
        let (visited, clear) ← l.walk destination fuel start
        some (start :: visited, clear)

/-- The second loop, through the floors. -/
def climb (destination : Position) : ℕ → Position → Option Bool
  | 0, _ => none
  | fuel + 1, start =>
    if start.z = destination.z then some true
    else if occupied w start then some false
    else climb destination fuel { start with z := start.z + 1 }

/-- Where it starts: on the upper floor. -/
def startOf (fromPos toPos : Position) : Position := if fromPos.z > toPos.z then toPos else fromPos

def destinationOf (fromPos toPos : Position) : Position :=
  if fromPos.z > toPos.z then fromPos else toPos

/-- `checkSightLine`, with the squares that the first loop moves to. -/
def trace (fuel : ℕ) (fromPos toPos : Position) : Option (List Position × Bool) :=
  if fromPos = toPos then some ([], true)
  else do
    let start := startOf fromPos toPos
    let destination := destinationOf fromPos toPos
    let l ← line start destination
    let (visited, clear) ← l.walk w destination fuel start
    if clear then some (visited, ← climb w destination fuel (visited.getLastD start))
    else some (visited, false)

/-- `Map::checkSightLine` -/
def checkSightLine (fuel : ℕ) (fromPos toPos : Position) : Option Bool :=
  (trace w fuel fromPos toPos).map Prod.snd

/-- `Map::isSightClear` -/
def isSightClear (fuel : ℕ) (fromPos toPos : Position) (floorCheck : Bool) : Option Bool :=
  if floorCheck && fromPos.z ≠ toPos.z then some false
  else do
    if ← checkSightLine w fuel fromPos toPos then some true
    else checkSightLine w fuel toPos fromPos

end world

/-! ## The squares next to the line -/

section points

variable (start destination : Position)

/-- The offsets to the destination, without their signs. -/
def dx : ℤ := |destination.ix - start.ix|

def dy : ℤ := |destination.iy - start.iy|

/-- The number of squares on the way. -/
def length : ℕ := (max (dx start destination) (dy start destination)).toNat

/-- How far to go in either direction for the square `k`. -/
def aside (k : ℤ) : ℤ :=
  if dy start destination ≤ dx start destination then k
  else height (dy start destination) (dx start destination) k

def ahead (k : ℤ) : ℤ :=
  if dy start destination ≤ dx start destination then
    height (dx start destination) (dy start destination) k
  else k

/-- The square `k` of those next to the line, on the floor of the start. -/
def point (k : ℕ) : Position where
  x := UInt16.ofInt (start.ix + direction start.ix destination.ix * aside start destination k)
  y := UInt16.ofInt (start.iy + direction start.iy destination.iy * ahead start destination k)
  z := start.z

end points

/-! ## Coordinates -/

theorem direction_mul_abs (s d : ℤ) : direction s d * |d - s| = d - s := by
  rw [direction]
  split_ifs with hlt heq
  · rw [one_mul, abs_of_nonneg (by omega)]
  · rw [heq]
    simp
  · rw [abs_of_nonpos (by omega)]
    omega

theorem direction_cases (s d : ℤ) :
    s < d ∧ direction s d = 1 ∨ s = d ∧ direction s d = 0 ∨ d < s ∧ direction s d = -1 := by
  rw [direction]
  split_ifs <;> omega

/-- Part of the way is in between. -/
theorem between {s d u : ℤ} (h₀ : 0 ≤ u) (h₁ : u ≤ |d - s|) :
    min s d ≤ s + direction s d * u ∧ s + direction s d * u ≤ max s d := by
  rcases direction_cases s d with ⟨h, hdir⟩ | ⟨h, hdir⟩ | ⟨h, hdir⟩
  · rw [abs_of_nonneg (by omega)] at h₁
    rw [hdir]
    omega
  · rw [hdir, h]
    omega
  · rw [abs_of_nonpos (by omega)] at h₁
    rw [hdir]
    omega

theorem direction_mul_eq_iff {s d u : ℤ} (h₀ : 0 ≤ u) (h₁ : u ≤ |d - s|) :
    s + direction s d * u = d ↔ u = |d - s| := by
  rcases direction_cases s d with ⟨h, hdir⟩ | ⟨h, hdir⟩ | ⟨h, hdir⟩
  · rw [abs_of_nonneg (by omega)] at h₁ ⊢
    rw [hdir]
    omega
  · subst h
    rw [sub_self, abs_zero] at h₁ ⊢
    rw [hdir]
    omega
  · rw [abs_of_nonpos (by omega)] at h₁ ⊢
    rw [hdir]
    omega

theorem ix_bounds (p : Position) : 0 ≤ p.ix ∧ p.ix < 2 ^ 16 := by
  have := p.x.toNat_lt
  rw [Position.ix]
  omega

theorem iy_bounds (p : Position) : 0 ≤ p.iy ∧ p.iy < 2 ^ 16 := by
  have := p.y.toNat_lt
  rw [Position.iy]
  omega

theorem toNat_ofInt {v : ℤ} (h₀ : 0 ≤ v) (h₁ : v < 2 ^ 16) : ((UInt16.ofInt v).toNat : ℤ) = v := by
  rw [UInt16.ofInt, UInt16.toNat_ofNat']
  omega

theorem x_eq_iff {p q : Position} : p.x = q.x ↔ p.ix = q.ix := by
  rw [Position.ix, Position.ix, Nat.cast_inj, UInt16.toNat_inj]

theorem y_eq_iff {p q : Position} : p.y = q.y ↔ p.iy = q.iy := by
  rw [Position.iy, Position.iy, Nat.cast_inj, UInt16.toNat_inj]

section points

variable {s d : Position} {k : ℕ}

theorem dx_nonneg : 0 ≤ dx s d := abs_nonneg _

theorem dy_nonneg : 0 ≤ dy s d := abs_nonneg _

theorem length_eq :
    (length s d : ℤ) = max (dx s d) (dy s d) := by
  rw [length]
  exact Int.toNat_of_nonneg (dx_nonneg.trans (le_max_left _ _))

theorem aside_bounds (hk : k ≤ length s d) :
    0 ≤ aside s d k ∧ aside s d k ≤ dx s d := by
  have hlen := length_eq (s := s) (d := d)
  rw [aside]
  split_ifs with h
  · omega
  · exact height_bounds dx_nonneg (by omega) (by omega) (by omega)

theorem ahead_bounds (hk : k ≤ length s d) :
    0 ≤ ahead s d k ∧ ahead s d k ≤ dy s d := by
  have hlen := length_eq (s := s) (d := d)
  rw [ahead]
  split_ifs with h
  · exact height_bounds dy_nonneg (by omega) (by omega) (by omega)
  · omega

theorem ix_point (hk : k ≤ length s d) : (point s d k).ix =
    s.ix + direction s.ix d.ix * aside s d k := by
  obtain ⟨h₀, h₁⟩ := aside_bounds hk
  have hbetween := between h₀ h₁
  have hstart := ix_bounds s
  have hdest := ix_bounds d
  rw [Position.ix, point]
  exact toNat_ofInt (by omega) (by omega)

theorem iy_point (hk : k ≤ length s d) : (point s d k).iy =
    s.iy + direction s.iy d.iy * ahead s d k := by
  obtain ⟨h₀, h₁⟩ := ahead_bounds hk
  have hbetween := between h₀ h₁
  have hstart := iy_bounds s
  have hdest := iy_bounds d
  rw [Position.iy, point]
  exact toNat_ofInt (by omega) (by omega)

theorem ix_point_eq_iff (hk : k ≤ length s d) :
    (point s d k).x = d.x ↔ aside s d k = dx s d := by
  obtain ⟨h₀, h₁⟩ := aside_bounds hk
  rw [x_eq_iff, ix_point hk]
  exact direction_mul_eq_iff h₀ h₁

theorem iy_point_eq_iff (hk : k ≤ length s d) :
    (point s d k).y = d.y ↔ ahead s d k = dy s d := by
  obtain ⟨h₀, h₁⟩ := ahead_bounds hk
  rw [y_eq_iff, iy_point hk]
  exact direction_mul_eq_iff h₀ h₁

end points

/-! ## Without overflow -/

/-- The line without bounds on the values. -/
def lineOf (s d : Position) : Line where
  mx := direction s.ix d.ix
  my := direction s.iy d.iy
  A := d.iy - s.iy
  B := s.ix - d.ix
  C := -((d.iy - s.iy) * d.ix + (s.ix - d.ix) * d.iy)

/-- The constant of the line can be computed. -/
def FitsLine (s d : Position) : Prop :=
  let A := d.iy - s.iy
  let B := s.ix - d.ix
  IsInt32 (A * d.ix) ∧ IsInt32 (B * d.iy) ∧ IsInt32 (A * d.ix + B * d.iy) ∧
    IsInt32 (-(A * d.ix + B * d.iy))

instance (s d : Position) : Decidable (FitsLine s d) :=
  inferInstanceAs (Decidable (_ ∧ _ ∧ _ ∧ _))

namespace Line

variable (l : Line)

def offset (x y : ℤ) : ℤ := l.A * x + l.B * y + l.C

/-- The distance can be computed. -/
def FitsAt (x y : ℤ) : Prop :=
  IsInt32 (l.A * x) ∧ IsInt32 (l.B * y) ∧ IsInt32 (l.A * x + l.B * y) ∧
    IsInt32 (l.offset x y) ∧ IsInt32 |l.offset x y|

instance (x y : ℤ) : Decidable (l.FitsAt x y) := inferInstanceAs (Decidable (_ ∧ _ ∧ _ ∧ _ ∧ _))

/-- The three distances can be computed. -/
def Fits (p : Position) : Prop :=
  l.FitsAt (p.ix + l.mx) p.iy ∧ l.FitsAt p.ix (p.iy + l.my) ∧ l.FitsAt (p.ix + l.mx) (p.iy + l.my)

instance (p : Position) : Decidable (l.Fits p) := inferInstanceAs (Decidable (_ ∧ _ ∧ _))

/-- The first loop, once, without bounds on the values. -/
def move (d s : Position) : Position :=
  let move_hor := |l.offset (s.ix + l.mx) s.iy|
  let move_ver := |l.offset s.ix (s.iy + l.my)|
  let move_cross := |l.offset (s.ix + l.mx) (s.iy + l.my)|
  let s := if s.y ≠ d.y ∧ (s.x = d.x ∨ move_hor > move_ver ∨ move_hor > move_cross) then
    moveY s l.my else s
  if s.x ≠ d.x ∧ (s.y = d.y ∨ move_ver > move_hor ∨ move_ver > move_cross) then
    moveX s l.mx else s

end Line

@[simp]
theorem int32_eq_some_iff {v u : ℤ} : int32 v = some u ↔ IsInt32 v ∧ v = u := by
  rw [int32]
  split_ifs with h <;> simp [h]

theorem line_eq_some_iff {s d : Position} {l : Line} :
    line s d = some l ↔ FitsLine s d ∧ l = lineOf s d := by
  simp only [line, Option.bind_eq_bind, Option.bind_eq_some_iff, int32_eq_some_iff,
    Option.some.injEq]
  constructor
  · rintro ⟨_, ⟨h₁, rfl⟩, _, ⟨h₂, rfl⟩, _, ⟨h₃, rfl⟩, _, ⟨h₄, rfl⟩, rfl⟩
    exact ⟨⟨h₁, h₂, h₃, h₄⟩, rfl⟩
  · rintro ⟨⟨h₁, h₂, h₃, h₄⟩, rfl⟩
    exact ⟨_, ⟨h₁, rfl⟩, _, ⟨h₂, rfl⟩, _, ⟨h₃, rfl⟩, _, ⟨h₄, rfl⟩, rfl⟩

namespace Line

variable {l : Line}

theorem distance_eq_some_iff {x y v : ℤ} :
    l.distance x y = some v ↔ l.FitsAt x y ∧ |l.offset x y| = v := by
  simp only [distance, Option.bind_eq_bind, Option.bind_eq_some_iff, int32_eq_some_iff]
  constructor
  · rintro ⟨_, ⟨h₁, rfl⟩, _, ⟨h₂, rfl⟩, _, ⟨h₃, rfl⟩, _, ⟨h₄, rfl⟩, h₅, rfl⟩
    exact ⟨⟨h₁, h₂, h₃, h₄, h₅⟩, rfl⟩
  · rintro ⟨⟨h₁, h₂, h₃, h₄, h₅⟩, rfl⟩
    exact ⟨_, ⟨h₁, rfl⟩, _, ⟨h₂, rfl⟩, _, ⟨h₃, rfl⟩, _, ⟨h₄, rfl⟩, h₅, rfl⟩

/-- The loop moves as without bounds, if the distances can be computed. -/
theorem next_eq_some_iff {d s p : Position} :
    l.next d s = some p ↔ l.Fits s ∧ l.move d s = p := by
  simp only [next, Option.bind_eq_bind, Option.bind_eq_some_iff, distance_eq_some_iff,
    Option.some.injEq]
  constructor
  · rintro ⟨_, ⟨h₁, rfl⟩, _, ⟨h₂, rfl⟩, _, ⟨h₃, rfl⟩, rfl⟩
    exact ⟨⟨h₁, h₂, h₃⟩, rfl⟩
  · rintro ⟨⟨h₁, h₂, h₃⟩, rfl⟩
    exact ⟨_, ⟨h₁, rfl⟩, _, ⟨h₂, rfl⟩, _, ⟨h₃, rfl⟩, rfl⟩

end Line

/-! ## The loop goes along the line -/

section points

variable {s d : Position} {k : ℕ}

/-- The equation of the line, on the squares between the ends. -/
theorem offset_lineOf (u v : ℤ) :
    (lineOf s d).offset (s.ix + direction s.ix d.ix * u)
        (s.iy + direction s.iy d.iy * v) = direction s.ix d.ix * direction s.iy d.iy *
        (dy s d * u - dx s d * v) := by
  have hx := direction_mul_abs s.ix d.ix
  have hy := direction_mul_abs s.iy d.iy
  rw [dx, dy, Line.offset, lineOf]
  dsimp only
  generalize direction s.ix d.ix = mx at *
  generalize direction s.iy d.iy = my at *
  generalize |d.ix - s.ix| = a at *
  generalize |d.iy - s.iy| = b at *
  rw [show d.ix = s.ix + mx * a by omega, show d.iy = s.iy + my * b by omega]
  ring

/-- The distance of the square `(u, v)` from a line that is not straight. -/
theorem abs_offset_lineOf (hx : s.ix ≠ d.ix) (hy : s.iy ≠ d.iy)
    {x y u v : ℤ} (hxu : x = s.ix + direction s.ix d.ix * u)
    (hyv : y = s.iy + direction s.iy d.iy * v) :
    |(lineOf s d).offset x y| =
      |dy s d * u - dx s d * v| := by
  rw [hxu, hyv, offset_lineOf, abs_mul, abs_mul]
  have hone : ∀ {s d : ℤ}, s ≠ d → |direction s d| = 1 := by
    intro s d h
    rcases direction_cases s d with ⟨_, hdir⟩ | ⟨heq, _⟩ | ⟨_, hdir⟩
    · rw [hdir, abs_one]
    · exact absurd heq h
    · rw [hdir, abs_neg, abs_one]
  rw [hone hx, hone hy, one_mul, one_mul]

theorem ix_eq_iff_dx : s.ix = d.ix ↔ dx s d = 0 := by
  rw [dx, abs_eq_zero]
  omega

theorem iy_eq_iff_dy : s.iy = d.iy ↔ dy s d = 0 := by
  rw [dy, abs_eq_zero]
  omega

/-- What the loop does, by whether it moves. -/
theorem move_eq {l : Line} {p q : Position} (up across : Prop) [Decidable up] [Decidable across]
    (hz : q.z = p.z)
    (hup : (p.y ≠ d.y ∧ (p.x = d.x ∨
      |l.offset (p.ix + l.mx) p.iy| > |l.offset p.ix (p.iy + l.my)| ∨
      |l.offset (p.ix + l.mx) p.iy| > |l.offset (p.ix + l.mx) (p.iy + l.my)|)) ↔ up)
    (hy : q.y = if up then (moveY p l.my).y else p.y)
    (hacross : (p.x ≠ d.x ∧ (q.y = d.y ∨
      |l.offset p.ix (p.iy + l.my)| > |l.offset (p.ix + l.mx) p.iy| ∨
      |l.offset p.ix (p.iy + l.my)| > |l.offset (p.ix + l.mx) (p.iy + l.my)|)) ↔ across)
    (hx : q.x = if across then (moveX p l.mx).x else p.x) : l.move d p = q := by
  obtain ⟨qx, qy, qz⟩ := q
  dsimp only at hz hy hacross hx
  subst hz hx hy
  have hpx : (if up then moveY p l.my else p).x = p.x := by split_ifs <;> rfl
  have hpix : (if up then moveY p l.my else p).ix = p.ix := by split_ifs <;> rfl
  have hpz : (if up then moveY p l.my else p).z = p.z := by split_ifs <;> rfl
  have hpy : (if up then moveY p l.my else p).y = if up then (moveY p l.my).y else p.y := by
    split_ifs <;> rfl
  rw [Line.move]
  simp only [hup, hpx, hpy, hacross]
  split_ifs <;> rfl

section distances

variable (hx : s.ix ≠ d.ix) (hy : s.iy ≠ d.iy)
  (hk : k ≤ length s d)

include hx hy hk

theorem move_hor_point {t : ℤ} (ht : dy s d * aside s d k -
      dx s d * ahead s d k = t) :
    |(lineOf s d).offset
        ((point s d k).ix + (lineOf s d).mx)
        (point s d k).iy| = |t + dy s d| := by
  rw [abs_offset_lineOf hx hy (u := aside s d k + 1) _ (iy_point hk), ← ht]
  · congr 1
    ring
  · rw [ix_point hk, lineOf]
    ring

theorem move_ver_point {t : ℤ} (ht : dy s d * aside s d k -
      dx s d * ahead s d k = t) :
    |(lineOf s d).offset (point s d k).ix
        ((point s d k).iy + (lineOf s d).my)| =
      |t - dx s d| := by
  rw [abs_offset_lineOf hx hy (v := ahead s d k + 1) (ix_point hk) _, ← ht]
  · congr 1
    ring
  · rw [iy_point hk, lineOf]
    ring

theorem move_cross_point {t : ℤ} (ht : dy s d * aside s d k -
      dx s d * ahead s d k = t) :
    |(lineOf s d).offset
        ((point s d k).ix + (lineOf s d).mx)
        ((point s d k).iy + (lineOf s d).my)| =
      |t + dy s d - dx s d| := by
  rw [abs_offset_lineOf hx hy (u := aside s d k + 1)
    (v := ahead s d k + 1), ← ht]
  · congr 1
    ring
  · rw [ix_point hk, lineOf]
    ring
  · rw [iy_point hk, lineOf]
    ring

end distances

/-- The next square, by how far it is to either side. -/
theorem x_point_succ (hk : k ≤ length s d) {across : Prop} [Decidable across]
    (h : aside s d (k + 1 : ℕ) = aside s d k + if across then 1 else 0) :
    (point s d (k + 1)).x = if across then
      (moveX (point s d k) (lineOf s d).mx).x
    else (point s d k).x := by
  rw [point]
  dsimp only
  rw [h, moveX, ix_point hk, lineOf]
  split_ifs
  · dsimp only
    congr 1
    ring
  · rw [add_zero, point]

theorem y_point_succ (hk : k ≤ length s d) {up : Prop} [Decidable up]
    (h : ahead s d (k + 1 : ℕ) = ahead s d k + if up then 1 else 0) :
    (point s d (k + 1)).y = if up then
      (moveY (point s d k) (lineOf s d).my).y
    else (point s d k).y := by
  rw [point]
  dsimp only
  rw [h, moveY, iy_point hk, lineOf]
  split_ifs
  · dsimp only
    congr 1
    ring
  · rw [add_zero, point]

/-- More to the side than ahead. -/
theorem move_point_flat (h : dy s d ≤ dx s d)
    (hk : k < length s d) :
    (lineOf s d).move d (point s d k) = point s d (k + 1) := by
  have hlen := length_eq (s := s) (d := d)
  have hb := dy_nonneg (s := s) (d := d)
  have haside : ∀ j : ℕ, aside s d j = j := fun j => by rw [aside, if_pos h]
  have hahead : ∀ j : ℕ, ahead s d j =
      height (dx s d) (dy s d) j := fun j => by rw [ahead, if_pos h]
  have hx : (point s d k).x ≠ d.x := by
    rw [Ne, ix_point_eq_iff hk.le, haside]
    omega
  have hgap : dy s d * aside s d k -
      dx s d * ahead s d k = gap (dx s d) (dy s d) k := by
    rw [haside, hahead, gap]
  have hbounds := gap_bounds (a := dx s d) (b := dy s d) (k := k)
    (by omega)
  refine move_eq (dx s d < 2 * (gap (dx s d) (dy s d) k + dy s d)) True rfl ?_
    (y_point_succ hk.le ?_) ?_ (x_point_succ hk.le ?_)
  · rw [Ne, iy_point_eq_iff hk.le, hahead]
    rcases hb.lt_or_eq with hpos | hzero
    · have hx' : s.ix ≠ d.ix := by rw [Ne, ix_eq_iff_dx]; omega
      have hy' : s.iy ≠ d.iy := by rw [Ne, iy_eq_iff_dy]; omega
      rw [move_hor_point hx' hy' hk.le hgap, move_ver_point hx' hy' hk.le hgap,
        move_cross_point hx' hy' hk.le hgap, or_iff_right hx]
      have hrises := rises_iff hpos h hbounds.1 hbounds.2
      rw [← hrises]
      refine and_iff_right_of_imp fun hr htop => ?_
      exact not_rises_of_height_eq (by omega) hb (by omega) htop (hrises.1 hr)
    · -- Straight to the side.
      have hflat := height_bounds hb h (by omega : (0 : ℤ) ≤ k) (by omega)
      have hheight : height (dx s d) (dy s d) k = 0 := by omega
      refine iff_of_false (fun hne => hne.1 (by omega)) ?_
      rw [gap, hheight, ← hzero, zero_mul, mul_zero]
      omega
  · rw [hahead, hahead, Nat.cast_add, Nat.cast_one]
    exact height_succ (by omega) hb h
  · refine iff_true_intro ⟨hx, ?_⟩
    rcases hb.lt_or_eq with hpos | hzero
    · have hx' : s.ix ≠ d.ix := by rw [Ne, ix_eq_iff_dx]; omega
      have hy' : s.iy ≠ d.iy := by rw [Ne, iy_eq_iff_dy]; omega
      rw [move_hor_point hx' hy' hk.le hgap, move_ver_point hx' hy' hk.le hgap,
        move_cross_point hx' hy' hk.le hgap]
      refine .inr (advances hpos h hbounds.2 fun hdiag => ?_)
      rw [hdiag]
      exact two_mul_gap_ne (by omega)
    · have hbounds := ahead_bounds (Nat.succ_le_of_lt hk)
      exact .inl ((iy_point_eq_iff (Nat.succ_le_of_lt hk)).2 (by omega))
  · rw [haside, haside, if_pos trivial, Nat.cast_add, Nat.cast_one]

/-- More ahead than to the side. -/
theorem move_point_steep (h : dx s d < dy s d)
    (hk : k < length s d) :
    (lineOf s d).move d (point s d k) = point s d (k + 1) := by
  have hlen := length_eq (s := s) (d := d)
  have ha := dx_nonneg (s := s) (d := d)
  have haside : ∀ j : ℕ, aside s d j = height (dy s d) (dx s d) j :=
    fun j => by rw [aside, if_neg h.not_ge]
  have hahead : ∀ j : ℕ, ahead s d j = j :=
    fun j => by rw [ahead, if_neg h.not_ge]
  have hy : (point s d k).y ≠ d.y := by
    rw [Ne, iy_point_eq_iff hk.le, hahead]
    omega
  have hgap : dy s d * aside s d k -
      dx s d * ahead s d k = -gap (dy s d) (dx s d) k := by
    rw [haside, hahead, gap]
    ring
  have hbounds := gap_bounds (a := dy s d) (b := dx s d) (k := k)
    (by omega)
  have hsucc := height_succ (k := k) (by omega) ha h.le
  -- Both sides are turned round.
  have hneg : ∀ t a : ℤ, |-t + a| = |t - a| ∧ |-t - a| = |t + a| := by
    intro t a
    rw [← abs_neg (t - a), ← abs_neg (t + a)]
    constructor <;> congr 1 <;> ring
  have hturn : ∀ t a b : ℤ, |-t + a - b| = |t + b - a| := by
    intro t a b
    rw [← abs_neg (t + b - a)]
    congr 1
    ring
  refine move_eq True (dy s d < 2 * (gap (dy s d) (dx s d) k + dx s d)) rfl ?_
    (y_point_succ hk.le ?_) ?_ (x_point_succ hk.le ?_)
  · refine iff_true_intro ⟨hy, ?_⟩
    rcases ha.lt_or_eq with hpos | hzero
    · have hx' : s.ix ≠ d.ix := by rw [Ne, ix_eq_iff_dx]; omega
      have hy' : s.iy ≠ d.iy := by rw [Ne, iy_eq_iff_dy]; omega
      rw [move_hor_point hx' hy' hk.le hgap, move_ver_point hx' hy' hk.le hgap,
        move_cross_point hx' hy' hk.le hgap, (hneg _ _).1, (hneg _ _).2, hturn]
      exact .inr (advances hpos h.le hbounds.2 fun hdiag => absurd hdiag h.ne)
    · have hbounds := aside_bounds hk.le
      exact .inl ((ix_point_eq_iff hk.le).2 (by omega))
  · rw [hahead, hahead, if_pos trivial, Nat.cast_add, Nat.cast_one]
  · rw [Ne, ix_point_eq_iff hk.le, iy_point_eq_iff (Nat.succ_le_of_lt hk), haside, hahead]
    rcases ha.lt_or_eq with hpos | hzero
    · have hx' : s.ix ≠ d.ix := by rw [Ne, ix_eq_iff_dx]; omega
      have hy' : s.iy ≠ d.iy := by rw [Ne, iy_eq_iff_dy]; omega
      rw [move_hor_point hx' hy' hk.le hgap, move_ver_point hx' hy' hk.le hgap,
        move_cross_point hx' hy' hk.le hgap, (hneg _ _).1, (hneg _ _).2, hturn]
      have hrises := rises_iff hpos h.le hbounds.1 hbounds.2
      rw [← hrises]
      constructor
      · rintro ⟨hne, hend | hr⟩
        · -- In the last step it must rise, or it would not arrive.
          have hself := height_self (b := dx s d) (by omega : 0 < dy s d)
          rw [hrises]
          by_contra hflat
          rw [if_neg hflat, (by omega : (k : ℤ) + 1 = dy s d)] at hsucc
          omega
        · exact hr
      · intro hr
        refine ⟨fun htop => ?_, .inr hr⟩
        exact not_rises_of_height_eq (by omega) ha (by omega) htop (hrises.1 hr)
    · have hflat := height_bounds ha h.le (by omega : (0 : ℤ) ≤ k) (by omega)
      have hheight : height (dy s d) (dx s d) k = 0 := by omega
      refine iff_of_false (fun hne => hne.1 (by omega)) ?_
      rw [gap, hheight, ← hzero, zero_mul, mul_zero]
      omega
  · rw [haside, haside, Nat.cast_add, Nat.cast_one]
    exact hsucc

/-- The loop goes to the next of the squares along the line. -/
theorem move_point (hk : k < length s d) :
    (lineOf s d).move d (point s d k) = point s d (k + 1) :=
  (le_or_gt (dy s d) (dx s d)).elim (move_point_flat · hk)
    (move_point_steep · hk)

/-! ## The walk -/

theorem point_zero : point s d 0 = s := by
  have hx := aside_bounds (s := s) (d := d) (Nat.zero_le _)
  have hy := ahead_bounds (s := s) (d := d) (Nat.zero_le _)
  have hlen := length_eq (s := s) (d := d)
  have haside : aside s d (0 : ℕ) = 0 := by
    rw [aside]
    split_ifs with h
    · rfl
    · exact height_zero (dx_nonneg.trans_lt (not_le.1 h))
  have hahead : ahead s d (0 : ℕ) = 0 := by
    rw [ahead]
    split_ifs with h
    · rcases (dx_nonneg (s := s) (d := d)).lt_or_eq with hpos | hzero
      · exact height_zero hpos
      · rw [ahead, if_pos h] at hy
        omega
    · rfl
  have hix := ix_point (s := s) (d := d) (Nat.zero_le _)
  have hiy := iy_point (s := s) (d := d) (Nat.zero_le _)
  rw [haside, mul_zero, add_zero] at hix
  rw [hahead, mul_zero, add_zero] at hiy
  have hsame := And.intro (x_eq_iff.2 hix) (y_eq_iff.2 hiy)
  obtain ⟨x, y, z⟩ := s
  exact Position.mk.injEq .. ▸ ⟨hsame.1, hsame.2, rfl⟩

/-- The loop ends at the last square. -/
theorem arrived_iff (hk : k ≤ length s d) :
    (point s d k).x = d.x ∧ (point s d k).y = d.y ↔ k = length s d := by
  have hlen := length_eq (s := s) (d := d)
  rw [ix_point_eq_iff hk, iy_point_eq_iff hk, aside, ahead]
  split_ifs with h
  · constructor
    · intro harrived
      omega
    · intro hend
      have hend' : (k : ℤ) = dx s d := by omega
      refine ⟨hend', ?_⟩
      rcases (dx_nonneg (s := s) (d := d)).lt_or_eq with hpos | hzero
      · rw [hend', height_self hpos]
      · have := height_bounds dy_nonneg h (by omega : (0 : ℤ) ≤ k) (by omega)
        omega
  · constructor
    · intro harrived
      omega
    · intro hend
      have hend' : (k : ℤ) = dy s d := by omega
      refine ⟨?_, hend'⟩
      rw [hend', height_self (dx_nonneg.trans_lt (not_le.1 h))]

variable (s d) in
/-- The squares after `k`, up to `m`. -/
def points (k m : ℕ) : List Position :=
  (List.range' (k + 1) (m - k)).map (point s d)

theorem mem_points {m : ℕ} {p : Position} :
    p ∈ points s d k m ↔ ∃ j, k < j ∧ j ≤ m ∧ point s d j = p := by
  rw [points, List.mem_map]
  refine exists_congr fun j => ?_
  rw [List.mem_range'_1, ← and_assoc]
  refine and_congr_left fun _ => ?_
  omega

theorem points_self : points s d k k = [] := by
  rw [points, Nat.sub_self]
  rfl

theorem points_of_lt {m : ℕ} (h : k < m) : points s d k m =
    point s d (k + 1) :: points s d (k + 1) m := by
  rw [points, points, ← List.map_cons, ← List.range'_succ, show m - k = m - (k + 1) + 1 by omega]

variable (w : World)

/-- The squares up to `m` are those that the loop moves to. -/
structure WalksTo (s d : Position) (k m : ℕ) (clear : Bool) : Prop where
  le : k ≤ m
  le_length : m ≤ length s d
  fits : ∀ j, k ≤ j → j < m → (lineOf s d).Fits (point s d j)
  free : ∀ j, k < j → j < m → blocks w (point s d j) = false
  last : if clear then m = length s d ∧ (k < m → blocks w (point s d m) = false)
    else k < m ∧ blocks w (point s d m) = true

variable {w}

theorem walksTo_of_walk {fuel : ℕ} {visited : List Position} {clear : Bool}
    (hk : k ≤ length s d)
    (h : (lineOf s d).walk w d fuel (point s d k) = some (visited, clear)) :
    ∃ m, visited = points s d k m ∧ WalksTo w s d k m clear := by
  induction fuel generalizing k visited clear with
  | zero => nomatch h
  | succ fuel ih =>
    simp only [Line.walk, arrived_iff hk] at h
    split_ifs at h with hend
    · obtain ⟨rfl, rfl⟩ := Prod.mk.inj (Option.some.inj h)
      exact ⟨k, points_self.symm, le_rfl, hk, fun j h₁ h₂ => absurd h₁ h₂.not_ge,
        fun j h₁ h₂ => absurd h₁ h₂.not_gt, hend, fun hlt => absurd hlt (lt_irrefl k)⟩
    · have hlt : k < length s d := lt_of_le_of_ne hk hend
      obtain ⟨p, hnext, h⟩ := Option.bind_eq_some_iff.1 h
      obtain ⟨hfits, hmove⟩ := Line.next_eq_some_iff.1 hnext
      rw [move_point hlt] at hmove
      subst hmove
      -- It can be computed where the loop was, and is free where it goes on from.
      have hfits' : ∀ {m : ℕ}, (∀ j, k + 1 ≤ j → j < m →
          (lineOf s d).Fits (point s d j)) →
          ∀ j, k ≤ j → j < m → (lineOf s d).Fits (point s d j) := by
        intro m hrest j h₁ h₂
        rcases h₁.lt_or_eq with h₁ | rfl
        · exact hrest j h₁ h₂
        · exact hfits
      split_ifs at h with hblocks
      · obtain ⟨rfl, rfl⟩ := Prod.mk.inj (Option.some.inj h)
        refine ⟨k + 1, ?_, by omega, hlt, hfits' fun j h₁ h₂ => absurd h₁ h₂.not_ge,
          fun j h₁ h₂ => by omega, by omega, hblocks⟩
        rw [points_of_lt (Nat.lt_succ_self k), points_self]
      · obtain ⟨⟨visited', clear'⟩, hwalk, h⟩ := Option.bind_eq_some_iff.1 h
        obtain ⟨rfl, rfl⟩ := Prod.mk.inj (Option.some.inj h)
        obtain ⟨m, rfl, hm⟩ := ih hlt hwalk
        refine ⟨m, (points_of_lt hm.le).symm, (Nat.le_succ k).trans hm.le, hm.le_length,
          hfits' hm.fits, fun j h₁ h₂ => ?_, ?_⟩
        · rcases (Nat.succ_le_of_lt h₁).lt_or_eq with h₁ | rfl
          · exact hm.free j h₁ h₂
          · exact Bool.eq_false_iff.2 hblocks
        · have hlast := hm.last
          split_ifs at hlast ⊢ with hclear
          · refine ⟨hlast.1, fun _ => ?_⟩
            rcases hm.le.lt_or_eq with hlt' | rfl
            · exact hlast.2 hlt'
            · exact Bool.eq_false_iff.2 hblocks
          · exact ⟨(Nat.lt_succ_self k).trans hlast.1, hlast.2⟩

/-- The loop ends if all distances up to a square that blocks can be computed. -/
theorem walk_isSome (fuel : ℕ) (hk : k ≤ length s d)
    (hfuel : length s d < k + fuel)
    (h : ∀ j, k ≤ j → j < length s d →
      (∀ i, k < i → i ≤ j → blocks w (point s d i) = false) →
        (lineOf s d).Fits (point s d j)) :
    ((lineOf s d).walk w d fuel (point s d k)).isSome := by
  induction fuel generalizing k with
  | zero => omega
  | succ fuel ih =>
    simp only [Line.walk, arrived_iff hk]
    split_ifs with hend
    · rfl
    · have hlt : k < length s d := lt_of_le_of_ne hk hend
      have hfits := h k le_rfl hlt fun i h₁ h₂ => absurd h₁ h₂.not_gt
      rw [Line.next_eq_some_iff.2 ⟨hfits, rfl⟩, move_point hlt, Option.bind_eq_bind,
        Option.bind_some]
      split_ifs with hblocks
      · rfl
      · have hrest := ih hlt (by omega) fun j h₁ h₂ hfree => by
          refine h j (Nat.le_of_succ_le h₁) h₂ fun i h₃ h₄ => ?_
          rcases (Nat.succ_le_of_lt h₃).lt_or_eq with h₃ | rfl
          · exact hfree i h₃ h₄
          · exact Bool.eq_false_iff.2 hblocks
        obtain ⟨⟨visited, clear⟩, hwalk⟩ := Option.isSome_iff_exists.1 hrest
        rw [hwalk]
        rfl

end points

/-! ## The floors -/

section climb

variable {w : World} {d p : Position}

/-- Something is on a floor of the shaft. -/
def ShaftOccupied (w : World) (p d : Position) : Prop :=
  ∃ z, p.z ≤ z ∧ z < d.z ∧ occupied w { p with z := z } = true

theorem toNat_add_one {z z' : UInt8} (h : z < z') : (z + 1).toNat = z.toNat + 1 := by
  have := z'.toNat_lt
  rw [UInt8.lt_iff_toNat_lt] at h
  rw [UInt8.toNat_add, UInt8.toNat_one]
  omega

theorem add_one_le {z z' : UInt8} (h : z < z') : z + 1 ≤ z' := by
  have hsucc := toNat_add_one h
  rw [UInt8.lt_iff_toNat_lt] at h
  rw [UInt8.le_iff_toNat_le]
  omega

theorem shaftOccupied_iff (h : p.z < d.z) : ShaftOccupied w p d ↔
    occupied w p = true ∨ ShaftOccupied w { p with z := p.z + 1 } d := by
  have hsucc := toNat_add_one h
  constructor
  · rintro ⟨z, h₁, h₂, hz⟩
    rcases eq_or_ne z p.z with rfl | hne
    · exact .inl hz
    · refine .inr ⟨z, ?_, h₂, hz⟩
      rw [Ne, ← UInt8.toNat_inj] at hne
      rw [UInt8.le_iff_toNat_le] at h₁ ⊢
      dsimp only
      omega
  · rintro (hp | ⟨z, h₁, h₂, hz⟩)
    · exact ⟨p.z, UInt8.le_rfl, h, hp⟩
    · refine ⟨z, ?_, h₂, hz⟩
      rw [UInt8.le_iff_toNat_le] at h₁ ⊢
      dsimp only at h₁
      omega

theorem not_shaftOccupied (h : p.z = d.z) : ¬ShaftOccupied w p d := by
  rintro ⟨z, h₁, h₂, -⟩
  rw [h, UInt8.le_iff_toNat_le] at h₁
  rw [UInt8.lt_iff_toNat_lt] at h₂
  omega

theorem climb_spec {fuel : ℕ} {result : Bool} (hz : p.z ≤ d.z)
    (h : climb w d fuel p = some result) :
    result = false ↔ ShaftOccupied w p d := by
  induction fuel generalizing p with
  | zero => nomatch h
  | succ fuel ih =>
    rw [climb] at h
    split_ifs at h with hend hoccupied
    · rw [← Option.some.inj h]
      exact iff_of_false nofun (not_shaftOccupied hend)
    · rw [← Option.some.inj h]
      exact iff_of_true rfl ⟨p.z, UInt8.le_rfl, UInt8.lt_of_le_of_ne hz hend, hoccupied⟩
    · have hlt := UInt8.lt_of_le_of_ne hz hend
      rw [ih (add_one_le hlt) h, shaftOccupied_iff hlt, or_iff_right hoccupied]

theorem climb_isSome (fuel : ℕ) (hz : p.z ≤ d.z)
    (hfuel : d.z.toNat < p.z.toNat + fuel) :
    (climb w d fuel p).isSome := by
  induction fuel generalizing p with
  | zero =>
    rw [UInt8.le_iff_toNat_le] at hz
    omega
  | succ fuel ih =>
    rw [climb]
    split_ifs with hend
    · rfl
    · rfl
    · have hlt := UInt8.lt_of_le_of_ne hz hend
      have hsucc := toNat_add_one hlt
      exact ih (add_one_le hlt) (by dsimp only; omega)

end climb

/-! ## What the walk is like -/

section exact

variable {s d p : Position} {k : ℕ}

/-- One step of the loop: by at most one in either direction, towards the destination, and not
nowhere. -/
structure Step (d p q : Position) : Prop where
  x : q.ix = p.ix ∨ q.ix = p.ix + direction p.ix d.ix
  y : q.iy = p.iy ∨ q.iy = p.iy + direction p.iy d.iy
  z : q.z = p.z
  ne : q.ix ≠ p.ix ∨ q.iy ≠ p.iy

/-- A square between the ends whose distance to the line, `|A x + B y + C| / √(A² + B²)`, is at most
one. -/
structure Near (s d p : Position) : Prop where
  x : min s.ix d.ix ≤ p.ix ∧ p.ix ≤ max s.ix d.ix
  y : min s.iy d.iy ≤ p.iy ∧ p.iy ≤ max s.iy d.iy
  z : p.z = s.z
  distance : (lineOf s d).offset p.ix p.iy ^ 2 ≤
    (lineOf s d).A ^ 2 + (lineOf s d).B ^ 2

theorem aside_succ (hk : k < length s d) :
    aside s d (k + 1 : ℕ) = aside s d k ∨
      aside s d (k + 1 : ℕ) = aside s d k + 1 := by
  have hlen := length_eq (s := s) (d := d)
  rw [aside, aside, Nat.cast_add, Nat.cast_one]
  split_ifs with h
  · exact .inr rfl
  · rw [height_succ (by omega) dx_nonneg (by omega)]
    split_ifs
    · exact .inr rfl
    · exact .inl (add_zero _)

theorem ahead_succ (hk : k < length s d) :
    ahead s d (k + 1 : ℕ) = ahead s d k ∨
      ahead s d (k + 1 : ℕ) = ahead s d k + 1 := by
  have hlen := length_eq (s := s) (d := d)
  rw [ahead, ahead, Nat.cast_add, Nat.cast_one]
  split_ifs with h
  · rw [height_succ (by omega) dy_nonneg (by omega)]
    split_ifs
    · exact .inr rfl
    · exact .inl (add_zero _)
  · exact .inr rfl

/-- On the way, the direction stays the same. -/
theorem direction_between {s d u : ℤ} (h₀ : 0 ≤ u) (h₁ : u < |d - s|) :
    direction (s + direction s d * u) d = direction s d := by
  rcases direction_cases s d with ⟨h, hdir⟩ | ⟨h, hdir⟩ | ⟨h, hdir⟩
  · rw [abs_of_nonneg (by omega)] at h₁
    rw [hdir, direction, if_pos (by omega)]
  · rw [h, sub_self, abs_zero] at h₁
    omega
  · rw [abs_of_nonpos (by omega)] at h₁
    rw [hdir, direction, if_neg (by omega), if_neg (by omega)]

/-- A coordinate moves towards the destination, or stays. -/
theorem coordinate_step {s d u u' : ℤ} (h₀ : 0 ≤ u) (h₁ : u' ≤ |d - s|)
    (h : u' = u ∨ u' = u + 1) :
    s + direction s d * u' = s + direction s d * u ∨
      s + direction s d * u' = s + direction s d * u + direction (s + direction s d * u) d := by
  rcases h with rfl | rfl
  · exact .inl rfl
  · rw [direction_between h₀ (by omega)]
    exact .inr (by ring)

theorem step_point (hk : k < length s d) :
    Step d (point s d k) (point s d (k + 1)) where
  x := by
    rw [ix_point hk.le, ix_point (Nat.succ_le_of_lt hk)]
    exact coordinate_step (aside_bounds hk.le).1 (aside_bounds (Nat.succ_le_of_lt hk)).2
      (aside_succ hk)
  y := by
    rw [iy_point hk.le, iy_point (Nat.succ_le_of_lt hk)]
    exact coordinate_step (ahead_bounds hk.le).1 (ahead_bounds (Nat.succ_le_of_lt hk)).2
      (ahead_succ hk)
  z := rfl
  ne := by
    have hlen := length_eq (s := s) (d := d)
    have hmul : ∀ {s d u : ℤ}, s ≠ d → s + direction s d * (u + 1) ≠ s + direction s d * u := by
      intro s d u h
      rcases direction_cases s d with ⟨_, hdir⟩ | ⟨heq, _⟩ | ⟨_, hdir⟩
      · rw [hdir]
        omega
      · exact absurd heq h
      · rw [hdir]
        omega
    rw [ix_point hk.le, ix_point (Nat.succ_le_of_lt hk), iy_point hk.le,
      iy_point (Nat.succ_le_of_lt hk), aside, aside, ahead, ahead, Nat.cast_succ]
    split_ifs with h
    · refine .inl (hmul ?_)
      rw [Ne, ix_eq_iff_dx]
      omega
    · refine .inr (hmul ?_)
      rw [Ne, iy_eq_iff_dy]
      omega

/-- How far the squares are from the line: at most half a step in the longer direction. -/
theorem offset_point_sq (hk : k ≤ length s d) :
    (lineOf s d).offset (point s d k).ix
        (point s d k).iy ^ 2 ≤
      dy s d ^ 2 + dx s d ^ 2 := by
  have hdir : ∀ s d : ℤ, direction s d ^ 2 ≤ 1 := by
    intro s d
    rcases direction_cases s d with ⟨_, h⟩ | ⟨_, h⟩ | ⟨_, h⟩ <;> rw [h] <;> decide
  have hgap : ∀ {a g : ℤ}, -a < 2 * g → 2 * g ≤ a → g ^ 2 ≤ a ^ 2 := by
    intro a g h₁ h₂
    exact sq_le_sq' (by omega) (by omega)
  have hoff : (dy s d * aside s d k -
      dx s d * ahead s d k) ^ 2 ≤
        dy s d ^ 2 + dx s d ^ 2 := by
    have hx := sq_nonneg (dx s d)
    have hy := sq_nonneg (dy s d)
    rw [aside, ahead]
    split_ifs with h
    · rcases (dx_nonneg (s := s) (d := d)).lt_or_eq with hpos | hzero
      · have := gap_bounds (b := dy s d) (k := k) hpos
        rw [← gap]
        exact (hgap this.1 this.2).trans (by omega)
      · have hy0 : dy s d = 0 := le_antisymm (h.trans_eq hzero.symm) dy_nonneg
        rw [← hzero, hy0]
        simp
    · have hpos := dx_nonneg.trans_lt (not_le.1 h)
      have := gap_bounds (b := dx s d) (k := k) hpos
      rw [← neg_sub, neg_sq, ← gap]
      exact (hgap this.1 this.2).trans (by omega)
  rw [ix_point hk, iy_point hk, offset_lineOf, mul_pow, mul_pow]
  refine (mul_le_of_le_one_left (sq_nonneg _) ?_).trans hoff
  exact mul_le_one₀ (hdir _ _) (sq_nonneg _) (hdir _ _)

theorem near_point (hk : k ≤ length s d) :
    Near s d (point s d k) where
  x := by
    rw [ix_point hk]
    exact between (aside_bounds hk).1 (aside_bounds hk).2
  y := by
    rw [iy_point hk]
    exact between (ahead_bounds hk).1 (ahead_bounds hk).2
  z := rfl
  distance := by
    refine (offset_point_sq hk).trans_eq ?_
    rw [dy, dx, sq_abs, sq_abs, lineOf]
    ring

/-- The steps from a square to the next ones. -/
theorem isChain_points {m : ℕ} (hm : m ≤ length s d) (hk : k ≤ m) :
    (point s d k :: points s d k m).IsChain (Step d) := by
  induction hk using Nat.decreasingInduction with
  | self =>
    rw [points_self]
    exact List.IsChain.singleton _
  | of_succ k hk ih =>
    rw [points_of_lt hk]
    exact List.isChain_cons_cons.2 ⟨step_point (hk.trans_le hm), ih⟩

theorem getLastD_points {m : ℕ} (hk : k ≤ m) :
    (points s d k m).getLastD (point s d k) = point s d m := by
  induction hk using Nat.decreasingInduction with
  | self =>
    rw [points_self]
    rfl
  | of_succ k hk ih =>
    rw [points_of_lt hk, List.getLastD_cons]
    exact ih

end exact

/-! ## Results -/

section results

variable {w : World} {fromPos toPos : Position}

/-- `checkSightLine` returns without overflow, having gone to squares along the line step by step,
and it returns false exactly if one of them blocks, or something is on a floor in between. -/
def Exact (w : World) (fromPos toPos : Position) : Prop :=
  let start := startOf fromPos toPos
  let destination := destinationOf fromPos toPos
  ∃ fuel visited result, trace w fuel fromPos toPos = some (visited, result) ∧
    (start :: visited).IsChain (Step destination) ∧ (∀ p ∈ visited, Near start destination p) ∧
    ((∀ p ∈ visited, blocks w p = false) →
      visited.getLastD start = { destination with z := start.z }) ∧
    (result = false ↔ (∃ p ∈ visited, blocks w p = true) ∨
      ShaftOccupied w { destination with z := start.z } destination)

/-- Products and sums of the line's equation are values of 32 bits, around the squares next to the
line, up to the first that blocks. -/
def Fits (w : World) (fromPos toPos : Position) : Prop :=
  let start := startOf fromPos toPos
  let destination := destinationOf fromPos toPos
  fromPos = toPos ∨ FitsLine start destination ∧ ∀ k < length start destination,
    (∀ j, 0 < j → j ≤ k → blocks w (point start destination j) = false) →
        (lineOf start destination).Fits (point start destination k)

theorem trace_of_ne (hne : fromPos ≠ toPos) {fuel : ℕ} {r : List Position × Bool} :
    trace w fuel fromPos toPos = some r ↔
      FitsLine (startOf fromPos toPos) (destinationOf fromPos toPos) ∧ ∃ visited clear,
        (lineOf (startOf fromPos toPos) (destinationOf fromPos toPos)).walk w
          (destinationOf fromPos toPos) fuel (startOf fromPos toPos) = some (visited, clear) ∧
        (if clear then
          ∃ result, climb w (destinationOf fromPos toPos) fuel
            (visited.getLastD (startOf fromPos toPos)) = some result ∧ (visited, result) = r
        else (visited, false) = r) := by
  rw [trace, if_neg hne]
  simp only [Option.bind_eq_bind, Option.bind_eq_some_iff, line_eq_some_iff, Prod.exists]
  constructor
  · rintro ⟨_, ⟨hfits, rfl⟩, visited, clear, hwalk, h⟩
    refine ⟨hfits, visited, clear, hwalk, ?_⟩
    split_ifs at h ⊢
    · obtain ⟨result, hclimb, h⟩ := Option.bind_eq_some_iff.1 h
      exact ⟨result, hclimb, Option.some.inj h⟩
    · exact Option.some.inj h
  · rintro ⟨hfits, visited, clear, hwalk, h⟩
    refine ⟨_, ⟨hfits, rfl⟩, visited, clear, hwalk, ?_⟩
    split_ifs at h ⊢
    · obtain ⟨result, hclimb, rfl⟩ := h
      rw [hclimb]
      rfl
    · rw [h]

theorem startOf_le (fromPos toPos : Position) :
    (startOf fromPos toPos).z ≤ (destinationOf fromPos toPos).z := by
  rw [startOf, destinationOf, UInt8.le_iff_toNat_le]
  split_ifs with h
  · rw [gt_iff_lt, UInt8.lt_iff_toNat_lt] at h
    exact h.le
  · rw [gt_iff_lt, UInt8.lt_iff_toNat_lt] at h
    exact not_lt.1 h

/-- The last of the squares is above or below the destination. -/
theorem point_length (start destination : Position) :
    point start destination (length start destination) = { destination with z := start.z } := by
  obtain ⟨hx, hy⟩ := (arrived_iff (s := start) (d := destination) le_rfl).2 rfl
  rw [← hx, ← hy]
  rfl

/-- Whatever is returned is right. -/
theorem exact_of_trace {fuel : ℕ} {visited : List Position} {result : Bool}
    (h : trace w fuel fromPos toPos = some (visited, result)) : Exact w fromPos toPos := by
  refine ⟨fuel, visited, result, h, ?_⟩
  rcases eq_or_ne fromPos toPos with rfl | hne
  · rw [trace, if_pos rfl] at h
    obtain ⟨rfl, rfl⟩ := Prod.mk.inj (Option.some.inj h)
    rw [show startOf fromPos fromPos = fromPos from ite_self _,
      show destinationOf fromPos fromPos = fromPos from ite_self _]
    refine ⟨List.IsChain.singleton _, fun p hp => absurd hp List.not_mem_nil, fun _ => rfl,
      iff_of_false nofun ?_⟩
    rintro (⟨p, hp, -⟩ | hshaft)
    · exact absurd hp List.not_mem_nil
    · exact not_shaftOccupied rfl hshaft
  obtain ⟨-, visited', clear, hwalk, hresult⟩ := (trace_of_ne hne).1 h
  have hz := startOf_le fromPos toPos
  generalize startOf fromPos toPos = start at *
  generalize destinationOf fromPos toPos = destination at *
  have hwalk' := hwalk
  nth_rewrite 2 [← point_zero (s := start) (d := destination)] at hwalk'
  obtain ⟨m, rfl, hm⟩ := walksTo_of_walk (Nat.zero_le _) hwalk'
  have hlast := getLastD_points (s := start) (d := destination) hm.le
  rw [point_zero] at hlast
  have hfree : ∀ p ∈ points start destination 0 m, p ≠ point start destination m →
      blocks w p = false := by
    intro p hp hpm
    obtain ⟨j, h₁, h₂, rfl⟩ := mem_points.1 hp
    refine hm.free j h₁ (lt_of_le_of_ne h₂ fun hjm => hpm (hjm ▸ rfl))
  have hend := hm.last
  have hchain := isChain_points hm.le_length hm.le
  rw [point_zero] at hchain
  have hnear : ∀ p ∈ points start destination 0 m, Near start destination p := by
    intro p hp
    obtain ⟨j, -, h₂, rfl⟩ := mem_points.1 hp
    exact near_point (h₂.trans hm.le_length)
  split_ifs at hresult hend
  · -- Nothing blocks on the way: what is on the floors decides.
    obtain ⟨rfl, hclear⟩ := hend
    obtain ⟨result', hclimb, heq⟩ := hresult
    obtain ⟨rfl, rfl⟩ := Prod.mk.inj heq
    rw [hlast, point_length] at hclimb
    have hnone : ¬∃ p ∈ points start destination 0 (length start destination),
        blocks w p = true := by
      rintro ⟨p, hp, hblocks⟩
      rcases eq_or_ne p (point start destination (length start destination)) with rfl | hpm
      · obtain ⟨j, h₁, h₂, -⟩ := mem_points.1 hp
        rw [hclear (h₁.trans_le h₂)] at hblocks
        nomatch hblocks
      · rw [hfree p hp hpm] at hblocks
        nomatch hblocks
    refine ⟨hchain, hnear, fun _ => hlast.trans (point_length _ _), ?_⟩
    rw [or_iff_right hnone]
    exact climb_spec (by exact hz) hclimb
  · obtain ⟨rfl, rfl⟩ := Prod.mk.inj hresult
    have hmem : point start destination m ∈ points start destination 0 m :=
      mem_points.2 ⟨m, hend.1, le_rfl, rfl⟩
    refine ⟨hchain, hnear, fun hall => ?_, iff_of_true rfl (.inl ⟨_, hmem, hend.2⟩)⟩
    rw [hall _ hmem] at hend
    nomatch hend.2

/-- It returns if what it computes fits. -/
theorem trace_isSome_of_fits (h : Fits w fromPos toPos) (fuel : ℕ)
    (hfuel : length (startOf fromPos toPos) (destinationOf fromPos toPos) + 256 < fuel) :
    (trace w fuel fromPos toPos).isSome := by
  rcases eq_or_ne fromPos toPos with heq | hne
  · rw [trace, if_pos heq]
    rfl
  obtain ⟨hline, hfits⟩ := h.resolve_left hne
  have hz := startOf_le fromPos toPos
  have hwalk := walk_isSome (w := w) fuel (Nat.zero_le _) (by omega)
    fun j _ hj hfree => hfits j hj hfree
  obtain ⟨⟨visited, clear⟩, hwalk⟩ := Option.isSome_iff_exists.1 hwalk
  obtain ⟨m, hvisited, hm⟩ := walksTo_of_walk (Nat.zero_le _) hwalk
  rw [point_zero] at hwalk
  rw [Option.isSome_iff_exists]
  simp only [trace_of_ne hne]
  cases clear with
  | false => exact ⟨_, hline, visited, false, hwalk, rfl⟩
  | true =>
    have hlast := getLastD_points (s := startOf fromPos toPos)
      (d := destinationOf fromPos toPos) hm.le
    rw [point_zero, hm.last.1, point_length] at hlast
    rw [hm.last.1] at hvisited
    have hclimb := climb_isSome (w := w) fuel
      (p := { destinationOf fromPos toPos with z := (startOf fromPos toPos).z }) hz (by
        have := (destinationOf fromPos toPos).z.toNat_lt
        omega)
    obtain ⟨result, hclimb⟩ := Option.isSome_iff_exists.1 hclimb
    refine ⟨_, hline, visited, true, hwalk, result, ?_, rfl⟩
    rw [hvisited, hlast]
    exact hclimb

theorem fits_of_trace {fuel : ℕ} {r : List Position × Bool}
    (h : trace w fuel fromPos toPos = some r) : Fits w fromPos toPos := by
  rcases eq_or_ne fromPos toPos with heq | hne
  · exact .inl heq
  obtain ⟨hfits, visited, clear, hwalk, -⟩ := (trace_of_ne hne).1 h
  refine .inr ⟨hfits, fun k hk hfree => ?_⟩
  generalize startOf fromPos toPos = start at *
  generalize destinationOf fromPos toPos = destination at *
  nth_rewrite 2 [← point_zero (s := start) (d := destination)] at hwalk
  obtain ⟨m, rfl, hm⟩ := walksTo_of_walk (Nat.zero_le _) hwalk
  refine hm.fits k (Nat.zero_le k) (not_le.1 fun hmk => ?_)
  -- It does not stop at `m`, which is not the last and does not block.
  have hend := hm.last
  split_ifs at hend
  · omega
  · rw [hfree m hend.1 hmk] at hend
    nomatch hend.2

theorem exact_iff_fits : Exact w fromPos toPos ↔ Fits w fromPos toPos := by
  constructor
  · rintro ⟨fuel, visited, result, htrace, -⟩
    exact fits_of_trace htrace
  · intro h
    obtain ⟨⟨visited, result⟩, htrace⟩ :=
      Option.isSome_iff_exists.1 (trace_isSome_of_fits h _ (Nat.lt_succ_self _))
    exact exact_of_trace htrace

/-- Both ways are exact, and `isSightClear` returns the same for both. -/
def Sound (w : World) (fromPos toPos : Position) : Prop :=
  Exact w fromPos toPos ∧ Exact w toPos fromPos ∧
    ∀ floorCheck, ∃ fuel result, isSightClear w fuel fromPos toPos floorCheck = some result ∧
      isSightClear w fuel toPos fromPos floorCheck = some result

theorem isSightClear_symm (h : Fits w fromPos toPos) (h' : Fits w toPos fromPos)
    (floorCheck : Bool) :
    ∃ fuel result, isSightClear w fuel fromPos toPos floorCheck = some result ∧
      isSightClear w fuel toPos fromPos floorCheck = some result := by
  let fuel := max (length (startOf fromPos toPos) (destinationOf fromPos toPos))
    (length (startOf toPos fromPos) (destinationOf toPos fromPos)) + 257
  obtain ⟨⟨v, r⟩, htrace⟩ := Option.isSome_iff_exists.1
    (trace_isSome_of_fits h fuel (by omega))
  obtain ⟨⟨v', r'⟩, htrace'⟩ := Option.isSome_iff_exists.1
    (trace_isSome_of_fits h' fuel (by omega))
  refine ⟨fuel, if floorCheck && fromPos.z ≠ toPos.z then false else r || r', ?_, ?_⟩
  · rw [isSightClear, checkSightLine, checkSightLine, htrace, htrace']
    split_ifs
    · rfl
    · cases r <;> rfl
  · rw [isSightClear, checkSightLine, checkSightLine, htrace, htrace']
    simp only [ne_comm (a := toPos.z)]
    split_ifs
    · rfl
    · cases r <;> cases r' <;> rfl

/-- `checkSightLine` is right for two positions if and only if the equation of the line fits. -/
theorem sight_exact_iff (w : World) (fromPos toPos : Position) :
    Sound w fromPos toPos ↔ Fits w fromPos toPos ∧ Fits w toPos fromPos := by
  constructor
  · rintro ⟨h, h', -⟩
    exact ⟨exact_iff_fits.1 h, exact_iff_fits.1 h'⟩
  · rintro ⟨h, h'⟩
    exact ⟨exact_iff_fits.2 h, exact_iff_fits.2 h', isSightClear_symm h h'⟩

/-- From one corner of the map to the other. -/
theorem corners_overflow : ¬Sound (fun _ => none) ⟨0, 0, 7⟩ ⟨65535, 65535, 7⟩ := by
  rintro ⟨h, -⟩
  rcases exact_iff_fits.1 h with heq | ⟨hline, -⟩
  · exact absurd heq (by decide)
  · exact absurd hline (by decide)

end results

end Canary.Map.SightLine
