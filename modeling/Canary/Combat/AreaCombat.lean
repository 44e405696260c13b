import Canary.Lib.Scatter
import Canary.Map.Pathfinding
import Mathlib.Data.Finset.Max
import Mathlib.Data.Finset.Prod
import Mathlib.Data.Int.Interval

/-!
# Areas of combat

The squares that a spell hits are given as a list of cells, row by row, of which one is the centre.
The list is for one direction. `setupArea` makes the areas for the other three by rotation,
`setupExtArea` those of the other diagonal directions by mirroring and flipping.

* A rotated area is written around a new centre, in a matrix of twice the size. So it fits, and has
  the rotated offsets.
* A mirrored or flipped area is written into the corner of such a matrix. The new centre is counted
  from the number of rows where it should be that of columns, and from that of columns where it
  should be that of rows.

So the diagonal areas are right if there are as many rows as columns, or no cells to hit at all, and
not otherwise (`area_exact_iff`). Sizes are 32 bits wide, so the double of a size may not fit, and
the index of a rotated cell may overflow if the centre is too far from it.
-/

namespace Canary.Combat

open Map.Pathfinding Scatter

/-! ## Matrices -/

/-- A matrix, with its cells by row and column. Those outside of it are not there. -/
structure MatrixArea where
  rows : BitVec 32
  cols : BitVec 32
  centerX : BitVec 32 := 0
  centerY : BitVec 32 := 0
  data : ℤ × ℤ → Bool := fun _ => false

namespace MatrixArea

variable (area : MatrixArea)

def Inside (c : ℤ × ℤ) : Prop :=
  (0 ≤ c.1 ∧ c.1 < area.rows.toNat) ∧ 0 ≤ c.2 ∧ c.2 < area.cols.toNat

instance : DecidablePred area.Inside := fun _ => inferInstanceAs (Decidable (_ ∧ _))

/-- A cell that is there, with indices that do not overflow. -/
def Writable (limit : ℕ) (c : ℤ × ℤ) : Prop := area.Inside c ∧ c.1 < limit ∧ c.2 < limit

instance (limit : ℕ) : DecidablePred (area.Writable limit) :=
  fun _ => inferInstanceAs (Decidable (_ ∧ _))

/-- `setValue`, which throws for a cell outside. -/
def setValue (row col : BitVec 32) (value : Bool) : Option MatrixArea :=
  if row < area.rows ∧ col < area.cols then
    some { area with data := Function.update area.data (row.toNat, col.toNat) value }
  else none

def setCenter (y x : BitVec 32) : MatrixArea := { area with centerX := x, centerY := y }

/-- The values are written to the cells, in order. Nothing may be written outside. -/
def write (limit : ℕ) (values : List ((ℤ × ℤ) × Bool)) : Option MatrixArea :=
  (scatter (area.Writable limit) area.data values).map fun data => { area with data := data }

/-- The cells that are hit. -/
def active : Finset (ℤ × ℤ) :=
  ((Finset.range area.rows.toNat ×ˢ Finset.range area.cols.toNat).image
    (Prod.map Nat.cast Nat.cast)).filter fun c => area.data c = true

/-- How far down and to the right of the centre a cell is. A centre above the first row, or to the
    left of the first column, has wrapped around. -/
def relative (c : ℤ × ℤ) : ℤ × ℤ := (c.1 - area.centerY.toInt, c.2 - area.centerX.toInt)

def offsets : Finset (ℤ × ℤ) := area.active.image area.relative

end MatrixArea

/-! ## Copies -/

/-- `MatrixOperation_t` -/
inductive MatrixOperation
  | copy | mirror | flip | rotate90 | rotate180 | rotate270
  deriving DecidableEq

/-- `for (uint32_t i = 0; i < n; ++i)` -/
def upTo (n : BitVec 32) : List ℤ := (List.range n.toNat).map Nat.cast

/-- `for (int32_t i = n; --i >= 0;)`. As an `int32_t`, a large number is negative. -/
def downFrom (n : BitVec 32) : List ℤ := ((List.range n.toInt.toNat).map Nat.cast).reverse

/-- The cosines and sines `a`, `b`, `c`, `d` of a rotation. -/
def MatrixOperation.coefficients : MatrixOperation → ℤ × ℤ × ℤ × ℤ
  | .rotate90 => (0, -1, 1, 0)
  | .rotate180 => (-1, 0, 0, -1)
  | .rotate270 => (0, 1, -1, 0)
  | _ => (1, 0, 0, 1)

/-- A rotation, of an offset. -/
def MatrixOperation.turn (op : MatrixOperation) (p : ℤ × ℤ) : ℤ × ℤ :=
  let (a, b, c, d) := op.coefficients
  (p.2 * c + p.1 * d, p.2 * a + p.1 * b)

/-- A copy: the cells in the order they are read, where each is written, the limit of the indices
    that are written to, and the new centre. -/
structure Plan where
  cells : List (ℤ × ℤ)
  target : ℤ × ℤ → ℤ × ℤ
  limit : ℕ
  centerY : BitVec 32
  centerX : BitVec 32

/-- How `copyArea` copies. While it counts down from the last column or row, it writes from the
    first one on. The indices of a rotation are sums of type `int32_t`, the others `uint32_t`. -/
def plan (input output : MatrixArea) (op : MatrixOperation) : Plan :=
  let centerY := input.centerY
  let centerX := input.centerX
  let rows := input.rows
  let cols := input.cols
  match op with
  | .copy =>
    ⟨(upTo rows).flatMap fun y => (upTo cols).map fun x => (y, x),
      id, 2 ^ 32, centerY, centerX⟩
  | .mirror =>
    ⟨(upTo rows).flatMap fun y => (downFrom cols).map fun x => (y, x),
      fun (y, x) => (y, cols.toNat - 1 - x), 2 ^ 32, centerY, (rows - 1) - centerX⟩
  | .flip =>
    ⟨(upTo cols).flatMap fun x => (downFrom rows).map fun y => (y, x),
      fun (y, x) => (rows.toNat - 1 - y, x), 2 ^ 32, (cols - 1) - centerY, centerX⟩
  | op =>
    let rotateCenterX := output.cols / 2 - 1
    let rotateCenterY := output.rows / 2 - 1
    let (a, b, c, d) := op.coefficients
    ⟨(upTo cols).flatMap fun x => (upTo rows).map fun y => (y, x),
      fun (y, x) =>
        let newX := (BitVec.ofInt 32 x - centerX).toInt
        let newY := (BitVec.ofInt 32 y - centerY).toInt
        let rotatedX := newX * a + newY * b
        let rotatedY := newX * c + newY * d
        (rotatedY + rotateCenterY.toInt, rotatedX + rotateCenterX.toInt),
      2 ^ 31, rotateCenterY, rotateCenterX⟩

def copyArea (input output : MatrixArea) (op : MatrixOperation) : Option MatrixArea :=
  let p := plan input output op
  (output.write p.limit (p.cells.map fun c => (p.target c, input.data c))).map fun output =>
    output.setCenter p.centerY p.centerX

/-! ## Areas -/

/-- A cell that is hit. -/
def IsHit (value : BitVec 32) : Prop := value = 1 ∨ value = 3

/-- A cell that is the centre. -/
def IsCenter (value : BitVec 32) : Prop := value = 2 ∨ value = 3

instance : DecidablePred IsHit := fun _ => inferInstanceAs (Decidable (_ ∨ _))

instance : DecidablePred IsCenter := fun _ => inferInstanceAs (Decidable (_ ∨ _))

/-- The loop over the list, at row `y` and column `x`. -/
def fillArea (cols : BitVec 32) : List (BitVec 32) → MatrixArea → BitVec 32 → BitVec 32 →
    Option MatrixArea
  | [], area, _, _ => some area
  | value :: list, area, x, y =>
    (if IsHit value then area.setValue y x true else some area).bind fun area =>
      let area := if IsCenter value then area.setCenter y x else area
      let x := x + 1
      if cols = x then fillArea cols list area 0 (y + 1) else fillArea cols list area x y

def createArea (list : List (BitVec 32)) (rows : BitVec 32) : Option MatrixArea :=
  let cols := if rows = 0 then 0 else BitVec.ofNat 32 (list.length / rows.toNat)
  fillArea cols list { rows, cols } 0 0

structure AreaCombat where
  areas : Direction → Option MatrixArea := fun _ => none
  hasExtArea : Bool := false

namespace AreaCombat

variable (combat : AreaCombat)

/-- `areas[direction] = area` -/
def setArea (direction : Direction) (area : MatrixArea) : AreaCombat :=
  { combat with areas := Function.update combat.areas direction (some area) }

/-- `std::max<uint32_t>(cols, rows) * 2` -/
def maxOutput (area : MatrixArea) : BitVec 32 :=
  (if area.cols < area.rows then area.rows else area.cols) * 2

def setupArea (list : List (BitVec 32)) (rows : BitVec 32) : Option AreaCombat := do
  let northArea ← createArea list rows
  let maxOutput := maxOutput northArea
  let southArea ← copyArea northArea { rows := maxOutput, cols := maxOutput } .rotate180
  let eastArea ← copyArea northArea { rows := maxOutput, cols := maxOutput } .rotate90
  let westArea ← copyArea northArea { rows := maxOutput, cols := maxOutput } .rotate270
  some ((((combat.setArea .north northArea).setArea .south southArea).setArea .east
    eastArea).setArea .west westArea)

def setupExtArea (list : List (BitVec 32)) (rows : BitVec 32) : Option AreaCombat :=
  if list = [] then some combat
  else do
    let combat := { combat with hasExtArea := true }
    let nwArea ← createArea list rows
    let maxOutput := maxOutput nwArea
    let neArea ← copyArea nwArea { rows := maxOutput, cols := maxOutput } .mirror
    let swArea ← copyArea nwArea { rows := maxOutput, cols := maxOutput } .flip
    let seArea ← copyArea swArea { rows := maxOutput, cols := maxOutput } .mirror
    some ((((combat.setArea .northwest nwArea).setArea .southwest swArea).setArea .northeast
      neArea).setArea .southeast seArea)

end AreaCombat

namespace MatrixArea

variable {area : MatrixArea} {c : ℤ × ℤ}

theorem mem_active : c ∈ area.active ↔ area.Inside c ∧ area.data c = true := by
  have hinside : c ∈ (Finset.range area.rows.toNat ×ˢ Finset.range area.cols.toNat).image
      (Prod.map Nat.cast Nat.cast) ↔ area.Inside c := by
    rw [Finset.mem_image]
    constructor
    · rintro ⟨⟨y, x⟩, hyx, rfl⟩
      obtain ⟨hy, hx⟩ := Finset.mem_product.1 hyx
      have hy := Finset.mem_range.1 hy
      have hx := Finset.mem_range.1 hx
      refine ⟨⟨?_, ?_⟩, ?_, ?_⟩ <;> dsimp only [Prod.map] at * <;> omega
    · rintro ⟨⟨hy₀, hy⟩, hx₀, hx⟩
      refine ⟨(c.1.toNat, c.2.toNat), Finset.mem_product.2 ⟨Finset.mem_range.2 ?_,
        Finset.mem_range.2 ?_⟩, Prod.ext ?_ ?_⟩ <;> dsimp only [Prod.map] <;> omega
  rw [active, Finset.mem_filter, hinside]

theorem Inside.writable (h : area.Inside c) : area.Writable (2 ^ 32) c := by
  have := area.rows.isLt
  have := area.cols.isLt
  have ⟨⟨_, hy⟩, _, hx⟩ := h
  refine ⟨h, ?_, ?_⟩ <;> push_cast <;> omega

theorem setValue_spec {row col : BitVec 32} (hrow : row.toNat < area.rows.toNat)
    (hcol : col.toNat < area.cols.toNat) : ∃ data, area.setValue row col true =
      some { area with data := data } ∧
        ∀ c, data c = true ↔ area.data c = true ∨ c = (↑row.toNat, ↑col.toNat) := by
  refine ⟨_, if_pos ⟨BitVec.lt_def.2 hrow, BitVec.lt_def.2 hcol⟩, fun c => ?_⟩
  by_cases hc : c = (↑row.toNat, ↑col.toNat)
  · subst hc
    rw [Function.update_self]
    exact ⟨fun _ => .inr rfl, fun _ => rfl⟩
  · rw [Function.update_of_ne hc]
    exact ⟨.inl, fun h => h.resolve_right hc⟩

/-- A matrix that was empty, with values at different cells. -/
theorem write_spec {limit : ℕ} {values : List ((ℤ × ℤ) × Bool)}
    (hblank : ∀ c, area.data c = false) (hinside : ∀ p ∈ values, area.Writable limit p.1)
    (hvalues : ∀ p ∈ values, ∀ q ∈ values, p.1 = q.1 → p.2 = q.2) :
    ∃ data, area.write limit values = some { area with data := data } ∧
      ∀ c, data c = true ↔ (c, true) ∈ values := by
  obtain ⟨data, hdata⟩ := Option.isSome_iff_exists.1
    (scatter_isSome_iff (m := area.data).2 hinside)
  exact ⟨data, congrArg _ hdata, scatter_eq_true_iff hdata hvalues hblank⟩

end MatrixArea

theorem mem_upTo {n : BitVec 32} {i : ℤ} : i ∈ upTo n ↔ 0 ≤ i ∧ i < n.toNat := by
  rw [upTo, List.mem_map]
  constructor
  · rintro ⟨k, hk, rfl⟩
    have := List.mem_range.1 hk
    omega
  · rintro ⟨h₀, h₁⟩
    exact ⟨i.toNat, List.mem_range.2 (by omega), by omega⟩

theorem mem_downFrom {n : BitVec 32} {i : ℤ} : i ∈ downFrom n ↔ 0 ≤ i ∧ i < n.toInt := by
  rw [downFrom, List.mem_reverse, List.mem_map]
  constructor
  · rintro ⟨k, hk, rfl⟩
    have := List.mem_range.1 hk
    omega
  · rintro ⟨h₀, h₁⟩
    exact ⟨i.toNat, List.mem_range.2 (by omega), by omega⟩

theorem mem_columns {n : BitVec 32} {l : List ℤ} {P : ℤ → Prop} (hl : ∀ i, i ∈ l ↔ P i)
    {c : ℤ × ℤ} : (c ∈ (upTo n).flatMap fun x => l.map fun y => (y, x)) ↔
      (0 ≤ c.2 ∧ c.2 < n.toNat) ∧ P c.1 := by
  rw [List.mem_flatMap]
  constructor
  · rintro ⟨x, hx, hc⟩
    obtain ⟨y, hy, rfl⟩ := List.mem_map.1 hc
    exact ⟨mem_upTo.1 hx, (hl y).1 hy⟩
  · rintro ⟨hx, hy⟩
    exact ⟨c.2, mem_upTo.2 hx, List.mem_map.2 ⟨c.1, (hl _).2 hy, rfl⟩⟩

theorem mem_lines {n : BitVec 32} {l : List ℤ} {P : ℤ → Prop} (hl : ∀ i, i ∈ l ↔ P i)
    {c : ℤ × ℤ} : (c ∈ (upTo n).flatMap fun y => l.map fun x => (y, x)) ↔
      (0 ≤ c.1 ∧ c.1 < n.toNat) ∧ P c.2 := by
  rw [List.mem_flatMap]
  constructor
  · rintro ⟨y, hy, hc⟩
    obtain ⟨x, hx, rfl⟩ := List.mem_map.1 hc
    exact ⟨mem_upTo.1 hy, (hl x).1 hx⟩
  · rintro ⟨hy, hx⟩
    exact ⟨c.1, mem_upTo.2 hy, List.mem_map.2 ⟨c.2, (hl _).2 hx, rfl⟩⟩

/-! ## Copies -/

section Copies

variable {input output : MatrixArea} {op : MatrixOperation}

/-- What is copied lands at its target, if the targets are inside and differ. -/
theorem copyArea_spec (hblank : ∀ c, output.data c = false)
    (hinside : ∀ c ∈ (plan input output op).cells,
      output.Writable (plan input output op).limit ((plan input output op).target c))
    (hinj : ∀ c ∈ (plan input output op).cells, ∀ c' ∈ (plan input output op).cells,
      (plan input output op).target c = (plan input output op).target c' → c = c') :
    ∃ out, copyArea input output op = some out ∧ out.rows = output.rows ∧
      out.cols = output.cols ∧ out.centerY = (plan input output op).centerY ∧
      out.centerX = (plan input output op).centerX ∧
      ∀ c, c ∈ out.active ↔ ∃ c' ∈ (plan input output op).cells,
        (plan input output op).target c' = c ∧ input.data c' = true := by
  rw [copyArea]
  generalize plan input output op = p at *
  have hvalues : ∀ q ∈ p.cells.map fun c => (p.target c, input.data c),
      output.Writable p.limit q.1 := by
    intro q hq
    obtain ⟨c, hc, rfl⟩ := List.mem_map.1 hq
    exact hinside c hc
  obtain ⟨data, hwrite, hdata⟩ := MatrixArea.write_spec hblank hvalues (by
    intro q hq q' hq' he
    obtain ⟨c, hc, rfl⟩ := List.mem_map.1 hq
    obtain ⟨c', hc', rfl⟩ := List.mem_map.1 hq'
    rw [hinj c hc c' hc' he])
  rw [hwrite]
  refine ⟨_, rfl, rfl, rfl, rfl, rfl, fun c => ?_⟩
  rw [MatrixArea.mem_active]
  constructor
  · rintro ⟨-, hc⟩
    obtain ⟨c', hc', he⟩ := List.mem_map.1 ((hdata c).1 hc)
    obtain ⟨htarget, hvalue⟩ := Prod.mk.inj he
    exact ⟨c', hc', htarget, hvalue⟩
  · rintro ⟨c', hc', rfl, hvalue⟩
    exact ⟨(hinside c' hc').1, (hdata _).2 (List.mem_map.2 ⟨c', hc', by rw [hvalue]⟩)⟩

theorem writable_of_copyArea (h : (copyArea input output op).isSome = true) :
    ∀ c ∈ (plan input output op).cells,
      output.Writable (plan input output op).limit ((plan input output op).target c) := by
  rw [copyArea, Option.isSome_map, MatrixArea.write, Option.isSome_map, scatter_isSome_iff] at h
  exact fun c hc => h _ (List.mem_map_of_mem hc)

/-- All cells are copied, and the offsets change by `f`. -/
theorem offsets_copy {out : MatrixArea} {f : ℤ × ℤ → ℤ × ℤ}
    (hcells : ∀ c, c ∈ (plan input output op).cells ↔ input.Inside c)
    (hactive : ∀ c, c ∈ out.active ↔ ∃ c' ∈ (plan input output op).cells,
      (plan input output op).target c' = c ∧ input.data c' = true)
    (hf : ∀ c, input.Inside c →
      out.relative ((plan input output op).target c) = f (input.relative c)) :
    out.offsets = input.offsets.image f := by
  ext p
  simp only [MatrixArea.offsets, Finset.mem_image]
  constructor
  · rintro ⟨_, hc, rfl⟩
    obtain ⟨c', hc', rfl, hvalue⟩ := (hactive _).1 hc
    have hin := (hcells c').1 hc'
    exact ⟨_, ⟨c', MatrixArea.mem_active.2 ⟨hin, hvalue⟩, rfl⟩, (hf c' hin).symm⟩
  · rintro ⟨_, ⟨c', hc', rfl⟩, rfl⟩
    obtain ⟨hin, hvalue⟩ := MatrixArea.mem_active.1 hc'
    exact ⟨_, (hactive _).2 ⟨c', (hcells c').2 hin, rfl, hvalue⟩, hf c' hin⟩

end Copies

/-! ## Sizes -/

theorem toInt_sub {a b : BitVec 32} (ha : a.toNat < 2 ^ 31) (hb : b.toNat < 2 ^ 31) :
    (a - b).toInt = a.toNat - b.toNat := by
  rw [BitVec.toInt_sub, BitVec.toInt_eq_toNat_of_lt (by omega),
    BitVec.toInt_eq_toNat_of_lt (by omega)]
  exact Int.bmod_eq_of_le_mul_two (by push_cast; omega) (by push_cast; omega)

theorem toInt_pred_sub {a b : BitVec 32} (ha₀ : 0 < a.toNat) (ha : a.toNat < 2 ^ 31)
    (hb : b.toNat < 2 ^ 31) : (a - 1 - b).toInt = a.toNat - 1 - b.toNat := by
  have hpred : (a - 1).toNat = a.toNat - 1 := by
    have h : (a - 1).toInt = a.toNat - 1 := toInt_sub ha (by decide)
    rw [BitVec.toInt_eq_toNat_cond] at h
    split_ifs at h <;> omega
  rw [toInt_sub (by omega) hb, hpred]
  omega

theorem toNat_ofInt {i : ℤ} (h₀ : 0 ≤ i) (h : i < 2 ^ 32) :
    ((BitVec.ofInt 32 i).toNat : ℤ) = i := by
  rw [BitVec.toNat_ofInt, Int.toNat_of_nonneg (Int.emod_nonneg _ (by decide))]
  exact Int.emod_eq_of_lt h₀ (by exact_mod_cast h)

theorem toNat_maxOutput_mod (area : MatrixArea) : (AreaCombat.maxOutput area).toNat =
    2 * max area.rows.toNat area.cols.toNat % 2 ^ 32 := by
  rw [AreaCombat.maxOutput, BitVec.toNat_mul, mul_comm]
  split_ifs with hlt
  · rw [BitVec.lt_def] at hlt
    rw [max_eq_left hlt.le]
    rfl
  · rw [BitVec.lt_def, not_lt] at hlt
    rw [max_eq_right hlt]
    rfl

/-- The centre is inside, and sizes do not look negative. -/
structure MatrixArea.Proper (area : MatrixArea) : Prop where
  rows_lt : area.rows.toNat < 2 ^ 31
  cols_lt : area.cols.toNat < 2 ^ 31
  centerY_lt : area.centerY.toNat < area.rows.toNat
  centerX_lt : area.centerX.toNat < area.cols.toNat

/-- Room for the indices of a rotation: no cell is too far from the centre, up or down, to the left
    or to the right. -/
structure Room (rows cols centerY centerX : ℕ) : Prop where
  up : centerY + max rows cols ≤ 2 ^ 31
  down : rows - 1 - centerY + max rows cols ≤ 2 ^ 31
  left : centerX + max rows cols ≤ 2 ^ 31
  right : cols - 1 - centerX + max rows cols ≤ 2 ^ 31

instance (rows cols centerY centerX : ℕ) : Decidable (Room rows cols centerY centerX) :=
  decidable_of_iff (centerY + max rows cols ≤ 2 ^ 31 ∧ rows - 1 - centerY + max rows cols ≤ 2 ^ 31 ∧
    centerX + max rows cols ≤ 2 ^ 31 ∧ cols - 1 - centerX + max rows cols ≤ 2 ^ 31)
    ⟨fun ⟨hup, hdown, hleft, hright⟩ => ⟨hup, hdown, hleft, hright⟩,
      fun ⟨hup, hdown, hleft, hright⟩ => ⟨hup, hdown, hleft, hright⟩⟩

def MatrixArea.HasRoom (area : MatrixArea) : Prop :=
  Room area.rows.toNat area.cols.toNat area.centerY.toNat area.centerX.toNat

namespace MatrixArea.Proper

variable {input : MatrixArea} (h : input.Proper)

include h

theorem relative_eq (c : ℤ × ℤ) :
    input.relative c = (c.1 - input.centerY.toNat, c.2 - input.centerX.toNat) := by
  have := h.rows_lt
  have := h.cols_lt
  have := h.centerY_lt
  have := h.centerX_lt
  rw [relative, BitVec.toInt_eq_toNat_of_lt (by omega), BitVec.toInt_eq_toNat_of_lt (by omega)]

theorem toNat_maxOutput : (AreaCombat.maxOutput input).toNat =
    2 * max input.rows.toNat input.cols.toNat := by
  have := h.rows_lt
  have := h.cols_lt
  rw [toNat_maxOutput_mod]
  exact Nat.mod_eq_of_lt (by omega)

/-- The centre of a rotation. -/
theorem toInt_center : (AreaCombat.maxOutput input / 2 - 1).toInt =
    max input.rows.toNat input.cols.toNat - 1 := by
  have := h.rows_lt
  have := h.cols_lt
  have hhalf : (AreaCombat.maxOutput input / 2).toNat = max input.rows.toNat input.cols.toNat := by
    rw [BitVec.toNat_udiv, h.toNat_maxOutput]
    exact Nat.mul_div_cancel_left _ (by decide)
  rw [toInt_sub (by omega) (by decide), hhalf]
  rfl

end MatrixArea.Proper

/-! ## Rotations, mirrors and flips -/

/-- A blank matrix of the size that areas are copied to. -/
def blank (input : MatrixArea) : MatrixArea :=
  { rows := AreaCombat.maxOutput input, cols := AreaCombat.maxOutput input }

section Copies

variable {input output : MatrixArea} {op : MatrixOperation}

def MatrixOperation.IsRotation (op : MatrixOperation) : Prop :=
  op = .rotate90 ∨ op = .rotate180 ∨ op = .rotate270

theorem plan_rotate (hop : op.IsRotation) : plan input output op =
    ⟨(upTo input.cols).flatMap fun x => (upTo input.rows).map fun y => (y, x),
      fun c =>
        let p := op.turn ((BitVec.ofInt 32 c.1 - input.centerY).toInt,
          (BitVec.ofInt 32 c.2 - input.centerX).toInt)
        (p.1 + (output.rows / 2 - 1).toInt, p.2 + (output.cols / 2 - 1).toInt),
      2 ^ 31, output.rows / 2 - 1, output.cols / 2 - 1⟩ := by
  rcases hop with rfl | rfl | rfl <;> rfl

theorem mem_cells_rotate (hop : op.IsRotation) (c : ℤ × ℤ) :
    c ∈ (plan input output op).cells ↔ input.Inside c := by
  rw [plan_rotate hop]
  exact (mem_columns fun _ => mem_upTo).trans and_comm

theorem turn_rotate90 : MatrixOperation.turn .rotate90 = fun p => (p.2, -p.1) := by
  funext p
  simp [MatrixOperation.turn, MatrixOperation.coefficients]

theorem turn_rotate180 : MatrixOperation.turn .rotate180 = fun p => (-p.1, -p.2) := by
  funext p
  simp [MatrixOperation.turn, MatrixOperation.coefficients]

theorem turn_rotate270 : MatrixOperation.turn .rotate270 = fun p => (-p.2, p.1) := by
  funext p
  simp [MatrixOperation.turn, MatrixOperation.coefficients]

/-- A rotation by a right angle, or by two or three. -/
theorem MatrixOperation.IsRotation.turn_cases (hop : op.IsRotation) :
    (∀ p, op.turn p = (p.2, -p.1)) ∨ (∀ p, op.turn p = (-p.1, -p.2)) ∨
      ∀ p, op.turn p = (-p.2, p.1) := by
  rcases hop with rfl | rfl | rfl
  · exact .inl fun p => congrFun turn_rotate90 p
  · exact .inr (.inl fun p => congrFun turn_rotate180 p)
  · exact .inr (.inr fun p => congrFun turn_rotate270 p)

/-- The target of a cell, whose offset is turned around the new centre. -/
theorem MatrixArea.Proper.target_rotate (h : input.Proper) (hop : op.IsRotation) {c : ℤ × ℤ}
    (hc : input.Inside c) : (plan input (blank input) op).target c =
      ((op.turn (input.relative c)).1 + (max input.rows.toNat input.cols.toNat - 1),
        (op.turn (input.relative c)).2 + (max input.rows.toNat input.cols.toNat - 1)) := by
  obtain ⟨⟨hy₀, hy⟩, hx₀, hx⟩ := hc
  have := h.rows_lt
  have := h.cols_lt
  have := h.centerY_lt
  have := h.centerX_lt
  have hofInt : ∀ {i : ℤ} {b : BitVec 32}, 0 ≤ i → i < 2 ^ 31 → b.toNat < 2 ^ 31 →
      (BitVec.ofInt 32 i - b).toInt = i - b.toNat := by
    intro i b h₀ hi hb
    have hnat := toNat_ofInt h₀ (by omega)
    rw [toInt_sub (by omega) hb, hnat]
  rw [plan_rotate hop]
  dsimp only
  rw [hofInt hy₀ (by omega) (by omega), hofInt hx₀ (by omega) (by omega), ← h.relative_eq]
  exact congrArg₂ _ (congrArg _ h.toInt_center) (congrArg _ h.toInt_center)

theorem MatrixArea.Proper.rotate_spec (h : input.Proper) (hroom : input.HasRoom)
    (hop : op.IsRotation) :
    ∃ out, copyArea input (blank input) op = some out ∧
      out.offsets = input.offsets.image op.turn := by
  have := h.rows_lt
  have := h.cols_lt
  have := h.centerY_lt
  have := h.centerX_lt
  have hsize := h.toNat_maxOutput
  have hcells : ∀ c, c ∈ (plan input (blank input) op).cells ↔ input.Inside c :=
    mem_cells_rotate hop
  -- An offset has less than the larger size, in both directions.
  have hbound : ∀ {c}, input.Inside c →
      -(max input.rows.toNat input.cols.toNat : ℤ) < (input.relative c).1 ∧
      (input.relative c).1 < max input.rows.toNat input.cols.toNat ∧
      -(max input.rows.toNat input.cols.toNat : ℤ) < (input.relative c).2 ∧
      (input.relative c).2 < max input.rows.toNat input.cols.toNat := by
    rintro c ⟨⟨hy₀, hy⟩, hx₀, hx⟩
    rw [h.relative_eq]
    dsimp only
    omega
  have hinside : ∀ c ∈ (plan input (blank input) op).cells,
      (blank input).Writable (plan input (blank input) op).limit
        ((plan input (blank input) op).target c) := by
    intro c hc
    obtain ⟨hy, hy', hx, hx'⟩ := hbound ((hcells c).1 hc)
    obtain ⟨hup, hdown, hleft, hright⟩ := hroom
    obtain ⟨⟨hcy, hcy'⟩, hcx, hcx'⟩ := (hcells c).1 hc
    have hlimit : (plan input (blank input) op).limit = 2 ^ 31 := by rw [plan_rotate hop]
    rw [hlimit, h.target_rotate hop ((hcells c).1 hc), MatrixArea.Writable, MatrixArea.Inside,
      blank, hsize]
    rw [h.relative_eq] at *
    rcases hop.turn_cases with hturn | hturn | hturn <;> rw [hturn] <;> dsimp only at * <;>
      push_cast <;> omega
  have hinj : ∀ c ∈ (plan input (blank input) op).cells,
      ∀ c' ∈ (plan input (blank input) op).cells,
        (plan input (blank input) op).target c = (plan input (blank input) op).target c' →
          c = c' := by
    intro c hc c' hc' he
    rw [h.target_rotate hop ((hcells c).1 hc), h.target_rotate hop ((hcells c').1 hc'),
      h.relative_eq, h.relative_eq, Prod.mk.injEq] at he
    rcases hop.turn_cases with hturn | hturn | hturn <;> rw [hturn, hturn] at he <;>
      dsimp only at he <;> exact Prod.ext (by omega) (by omega)
  obtain ⟨out, hout, -, -, hcenterY, hcenterX, hactive⟩ :=
    copyArea_spec (fun _ => rfl) hinside hinj
  refine ⟨out, hout, offsets_copy hcells hactive fun c hc => ?_⟩
  rw [h.target_rotate hop hc, MatrixArea.relative, hcenterY, hcenterX, plan_rotate hop]
  have hcenter : ((blank input).rows / 2 - 1).toInt = _ := h.toInt_center
  have hcenter' : ((blank input).cols / 2 - 1).toInt = _ := h.toInt_center
  dsimp only
  rw [hcenter, hcenter', add_sub_cancel_right, add_sub_cancel_right]

theorem mem_cells_mirror (c : ℤ × ℤ) : c ∈ (plan input output .mirror).cells ↔
    (0 ≤ c.1 ∧ c.1 < input.rows.toNat) ∧ 0 ≤ c.2 ∧ c.2 < input.cols.toInt :=
  mem_lines fun _ => mem_downFrom

theorem mem_cells_flip (c : ℤ × ℤ) : c ∈ (plan input output .flip).cells ↔
    (0 ≤ c.2 ∧ c.2 < input.cols.toNat) ∧ 0 ≤ c.1 ∧ c.1 < input.rows.toInt :=
  mem_columns fun _ => mem_downFrom

/-- A mirrored area, with the centre too far to the right by the columns there are less than
    rows. -/
theorem mirror_spec (hblank : ∀ c, output.data c = false)
    (hfit : ∀ c, input.Inside c → output.Inside (c.1, input.cols.toNat - 1 - c.2))
    (hcols : input.cols.toNat < 2 ^ 31)
    (hcenter : (input.rows - 1 - input.centerX).toInt =
      input.rows.toNat - 1 - input.centerX.toInt) :
    ∃ out, copyArea input output .mirror = some out ∧
      out.offsets = input.offsets.image fun p =>
        (p.1, (input.cols.toNat - input.rows.toNat : ℤ) - p.2) := by
  have hcells : ∀ c, c ∈ (plan input output .mirror).cells ↔ input.Inside c := by
    intro c
    rw [mem_cells_mirror, BitVec.toInt_eq_toNat_of_lt (by omega)]
    rfl
  obtain ⟨out, hout, -, -, hcenterY, hcenterX, hactive⟩ := copyArea_spec hblank
    (fun c hc => (hfit c ((hcells c).1 hc)).writable) (fun c _ c' _ he => by
      obtain ⟨hy, hx⟩ := Prod.mk.inj he
      exact Prod.ext hy (by omega))
  refine ⟨out, hout, offsets_copy hcells hactive fun c hc => ?_⟩
  rw [MatrixArea.relative, hcenterY, hcenterX]
  refine Prod.ext rfl ?_
  change (input.cols.toNat - 1 - c.2 - (input.rows - 1 - input.centerX).toInt : ℤ) =
    input.cols.toNat - input.rows.toNat - (c.2 - input.centerX.toInt)
  rw [hcenter]
  ring

/-- With more columns than a signed number can count, nothing is copied. -/
theorem mirror_of_toInt_nonpos (hblank : ∀ c, output.data c = false)
    (hcols : input.cols.toInt ≤ 0) :
    ∃ out, copyArea input output .mirror = some out ∧ out.offsets = ∅ := by
  have hcells : ∀ c, c ∉ (plan input output .mirror).cells := by
    intro c hc
    obtain ⟨-, h₀, h⟩ := (mem_cells_mirror c).1 hc
    omega
  obtain ⟨out, hout, -, -, -, -, hactive⟩ := copyArea_spec hblank
    (fun c hc => absurd hc (hcells c)) (fun c hc => absurd hc (hcells c))
  refine ⟨out, hout, ?_⟩
  have hnone : out.active = ∅ := by
    refine Finset.eq_empty_of_forall_notMem fun c hc => ?_
    obtain ⟨c', hc', -⟩ := (hactive c).1 hc
    exact hcells c' hc'
  rw [MatrixArea.offsets, hnone, Finset.image_empty]

/-- A flipped area, with the centre too far down by the rows there are less than columns. -/
theorem MatrixArea.Proper.flip_spec (h : input.Proper) :
    ∃ out, copyArea input (blank input) .flip = some out ∧ out.rows = (blank input).rows ∧
      out.cols = (blank input).cols ∧ out.centerX = input.centerX ∧
      out.offsets = input.offsets.image fun p =>
        ((input.rows.toNat - input.cols.toNat : ℤ) - p.1, p.2) := by
  have := h.rows_lt
  have := h.cols_lt
  have := h.centerY_lt
  have := h.centerX_lt
  have hsize := h.toNat_maxOutput
  have hcells : ∀ c, c ∈ (plan input (blank input) .flip).cells ↔ input.Inside c := by
    intro c
    rw [mem_cells_flip, BitVec.toInt_eq_toNat_of_lt (by omega), and_comm]
    rfl
  have hinside : ∀ c ∈ (plan input (blank input) .flip).cells,
      (blank input).Inside (input.rows.toNat - 1 - c.1, c.2) := by
    intro c hc
    obtain ⟨⟨hy₀, hy⟩, hx₀, hx⟩ := (hcells c).1 hc
    rw [MatrixArea.Inside, blank, hsize]
    dsimp only
    omega
  obtain ⟨out, hout, hrows, hcols, hcenterY, hcenterX, hactive⟩ :=
    copyArea_spec (fun _ => rfl) (fun c hc => (hinside c hc).writable) (fun c _ c' _ he => by
      obtain ⟨hy, hx⟩ := Prod.mk.inj he
      exact Prod.ext (by omega) hx)
  refine ⟨out, hout, hrows, hcols, hcenterX, offsets_copy hcells hactive fun c hc => ?_⟩
  rw [MatrixArea.relative, hcenterY, hcenterX]
  refine Prod.ext ?_ rfl
  change (input.rows.toNat - 1 - c.1 - (input.cols - 1 - input.centerY).toInt : ℤ) =
    input.rows.toNat - input.cols.toNat - (c.1 - input.centerY.toInt)
  rw [toInt_pred_sub (by omega) (by omega) (by omega), BitVec.toInt_eq_toNat_of_lt (by omega)]
  ring

theorem MatrixArea.Proper.mirror_spec (h : input.Proper) :
    ∃ out, copyArea input (blank input) .mirror = some out ∧
      out.offsets = input.offsets.image fun p =>
        (p.1, (input.cols.toNat - input.rows.toNat : ℤ) - p.2) := by
  have := h.rows_lt
  have := h.cols_lt
  have := h.centerY_lt
  have := h.centerX_lt
  have hsize := h.toNat_maxOutput
  refine Combat.mirror_spec (fun _ => rfl) ?_ h.cols_lt ?_
  · rintro c ⟨⟨hy₀, hy⟩, hx₀, hx⟩
    rw [MatrixArea.Inside, blank, hsize]
    dsimp only
    omega
  · rw [toInt_pred_sub (by omega) (by omega) (by omega), BitVec.toInt_eq_toNat_of_lt (by omega)]

end Copies

/-! ## The list -/

/-- Row and column of a value of the list. -/
def cellAt (cols k : ℕ) : ℕ × ℕ := (k / cols, k % cols)

theorem cellAt_succ {cols k : ℕ} (hcols : 0 < cols) : cellAt cols (k + 1) =
    if cols = (cellAt cols k).2 + 1 then ((cellAt cols k).1 + 1, 0)
    else ((cellAt cols k).1, (cellAt cols k).2 + 1) := by
  have hk := Nat.div_add_mod k cols
  have hlt := Nat.mod_lt k hcols
  have hsucc : k + 1 = cols * (k / cols) + (k % cols + 1) := by omega
  by_cases h : cols = (cellAt cols k).2 + 1
  · rw [if_pos h]
    have hlast : k % cols + 1 = cols := h.symm
    rw [cellAt, hsucc, hlast, Nat.mul_add_div hcols, Nat.mul_add_mod, Nat.div_self hcols,
      Nat.mod_self]
    rfl
  · rw [if_neg h]
    have hnext : k % cols + 1 < cols := Nat.lt_of_le_of_ne hlt (Ne.symm h)
    rw [cellAt, hsucc, Nat.mul_add_div hcols, Nat.mul_add_mod, Nat.div_eq_of_lt hnext,
      Nat.mod_eq_of_lt hnext, add_zero]
    rfl

/-- Something that holds at an index of a list does so at the first one or at a later one. -/
theorem exists_index_cons {α : Type*} {P : α → ℕ → Prop} {a : α} {l : List α} {k : ℕ} :
    (∃ i, ∃ h : i < (a :: l).length, P (a :: l)[i] (k + i)) ↔
      P a k ∨ ∃ i, ∃ h : i < l.length, P l[i] (k + 1 + i) := by
  constructor
  · rintro ⟨_ | i, hi, h⟩
    · exact .inl h
    · refine .inr ⟨i, Nat.lt_of_succ_lt_succ hi, ?_⟩
      rwa [add_assoc, add_comm 1 i]
  · rintro (h | ⟨i, hi, h⟩)
    · exact ⟨0, Nat.succ_pos _, h⟩
    · refine ⟨i + 1, Nat.succ_lt_succ hi, ?_⟩
      rwa [add_assoc, add_comm 1 i] at h

/-- What the loop fills in, from the value number `k` on. -/
structure Filled (list : List (BitVec 32)) (k : ℕ) (area area' : MatrixArea) : Prop where
  rows : area'.rows = area.rows
  cols : area'.cols = area.cols
  data : ∀ c : ℤ × ℤ, area'.data c = true ↔ area.data c = true ∨
    ∃ i, ∃ h : i < list.length, IsHit list[i] ∧
      c = Prod.map Nat.cast Nat.cast (cellAt area.cols.toNat (k + i))
  center : (∀ v ∈ list, ¬IsCenter v) ∧ area'.centerY = area.centerY ∧
      area'.centerX = area.centerX ∨
    ∃ i, ∃ h : i < list.length, IsCenter list[i] ∧
      (area'.centerY.toNat, area'.centerX.toNat) = cellAt area.cols.toNat (k + i)

theorem fillArea_spec {cols : BitVec 32} (hcols : 0 < cols.toNat) {list : List (BitVec 32)}
    {area : MatrixArea} {x y : BitVec 32} {k : ℕ} (harea : area.cols = cols)
    (hcell : (y.toNat, x.toNat) = cellAt cols.toNat k)
    (hk : k + list.length ≤ area.rows.toNat * cols.toNat) :
    ∃ area', fillArea cols list area x y = some area' ∧ Filled list k area area' := by
  induction list generalizing area x y k with
  | nil =>
    refine ⟨area, rfl, rfl, rfl, fun c => ?_, .inl ⟨fun _ h => absurd h List.not_mem_nil, rfl, rfl⟩⟩
    simp
  | cons value list ih =>
    rw [List.length_cons] at hk
    obtain ⟨hy, hx⟩ := Prod.mk.inj hcell
    have hxlt : x.toNat < cols.toNat := hx ▸ Nat.mod_lt k hcols
    have hylt : y.toNat < area.rows.toNat := by
      rw [hy]
      exact Nat.div_lt_of_lt_mul (by rw [mul_comm]; omega)
    -- The value itself.
    obtain ⟨area₁, hset, hrows₁, hcols₁, hcenterY₁, hcenterX₁, hdata₁⟩ :
        ∃ area₁, (if IsHit value then area.setValue y x true else some area) =
          some area₁ ∧ area₁.rows = area.rows ∧ area₁.cols = area.cols ∧
          area₁.centerY = area.centerY ∧ area₁.centerX = area.centerX ∧
          ∀ c : ℤ × ℤ, area₁.data c = true ↔ area.data c = true ∨
            IsHit value ∧ c = Prod.map Nat.cast Nat.cast (cellAt area.cols.toNat k) := by
      by_cases hit : IsHit value
      · obtain ⟨data, hset, hdata⟩ := MatrixArea.setValue_spec hylt (harea ▸ hxlt)
        refine ⟨_, (if_pos hit).trans hset, rfl, rfl, rfl, rfl, fun c => ?_⟩
        rw [hdata, and_iff_right hit, harea, ← hcell]
        rfl
      · exact ⟨area, if_neg hit, rfl, rfl, rfl, rfl, fun c =>
          ⟨.inl, fun h => h.resolve_right fun h => hit h.1⟩⟩
    obtain ⟨area₂, harea₂, hrows₂, hcols₂, hdata₂, hcenter₂⟩ :
        ∃ area₂, (if IsCenter value then area₁.setCenter y x else area₁) = area₂ ∧
          area₂.rows = area.rows ∧ area₂.cols = area.cols ∧ area₂.data = area₁.data ∧
          (¬IsCenter value ∧ area₂.centerY = area.centerY ∧ area₂.centerX = area.centerX ∨
            IsCenter value ∧ (area₂.centerY.toNat, area₂.centerX.toNat) = cellAt cols.toNat k) := by
      by_cases hcenter : IsCenter value
      · exact ⟨_, if_pos hcenter, hrows₁, hcols₁, rfl, .inr ⟨hcenter, hcell⟩⟩
      · exact ⟨_, if_neg hcenter, hrows₁, hcols₁, rfl, .inl ⟨hcenter, hcenterY₁, hcenterX₁⟩⟩
    -- The next cell.
    have hone : (1 : BitVec 32).toNat = 1 := rfl
    have hx₁ : (x + 1).toNat = x.toNat + 1 := by
      have := cols.isLt
      rw [BitVec.toNat_add, hone]
      exact Nat.mod_eq_of_lt (by omega)
    have hy₁ : (y + 1).toNat = y.toNat + 1 := by
      have := area.rows.isLt
      rw [BitVec.toNat_add, hone]
      exact Nat.mod_eq_of_lt (by omega)
    have hnext := cellAt_succ (k := k) hcols
    rw [← hcell] at hnext
    dsimp only at hnext
    have hfilled : ∀ {area' : MatrixArea},
        Filled list (k + 1) area₂ area' → Filled (value :: list) k area area' := by
      intro area' h
      refine ⟨h.rows.trans hrows₂, h.cols.trans hcols₂, fun c => ?_, ?_⟩
      · rw [h.data, hdata₂, hdata₁, hcols₂, or_assoc]
        exact or_congr_right (exists_index_cons (P := fun v i => IsHit v ∧
          c = Prod.map Nat.cast Nat.cast (cellAt area.cols.toNat i))).symm
      · rw [exists_index_cons (P := fun v i => IsCenter v ∧
          (area'.centerY.toNat, area'.centerX.toNat) = cellAt area.cols.toNat i)]
        rcases h.center with ⟨hnone, hcy, hcx⟩ | hlater
        · rcases hcenter₂ with ⟨hvalue, hcy₂, hcx₂⟩ | ⟨hvalue, hcell₂⟩
          · exact .inl ⟨List.forall_mem_cons.2 ⟨hvalue, hnone⟩, hcy.trans hcy₂, hcx.trans hcx₂⟩
          · refine .inr (.inl ⟨hvalue, ?_⟩)
            rw [hcy, hcx, hcell₂, harea]
        · rw [hcols₂] at hlater
          exact .inr (.inr hlater)
    rw [fillArea, hset, Option.bind_some]
    dsimp only
    rw [harea₂]
    have hlength : k + 1 + list.length ≤ area₂.rows.toNat * cols.toNat := by
      rw [hrows₂]
      omega
    have hlast : cols = x + 1 ↔ cols.toNat = x.toNat + 1 := by
      rw [← hx₁]
      exact BitVec.toNat_inj.symm
    split_ifs with h
    · rw [if_pos (hlast.1 h), ← hy₁] at hnext
      obtain ⟨area', hfill, h'⟩ := ih (x := 0) (hcols₂.trans harea) hnext.symm hlength
      exact ⟨area', hfill, hfilled h'⟩
    · rw [if_neg (hlast.not.1 h), ← hx₁] at hnext
      obtain ⟨area', hfill, h'⟩ := ih (hcols₂.trans harea) hnext.symm hlength
      exact ⟨area', hfill, hfilled h'⟩

/-- Rows of one length, with a single centre among them. -/
structure Shaped (list : List (BitVec 32)) (rows : BitVec 32) : Prop where
  dvd : rows.toNat ∣ list.length
  center : ∃ v ∈ list, IsCenter v
  unique : ∀ ⦃i j⦄ (hi : i < list.length) (hj : j < list.length),
    IsCenter list[i] → IsCenter list[j] → i = j

/-- A value that is there once is at one index. -/
theorem eq_of_countP_le_one {α : Type*} {p : α → Bool} {l : List α} (h : l.countP p ≤ 1) {i j : ℕ}
    (hi : i < l.length) (hj : j < l.length) (hpi : p l[i] = true) (hpj : p l[j] = true) :
    i = j := by
  induction l generalizing i j with
  | nil => exact absurd hi (Nat.not_lt_zero i)
  | cons a l ih =>
    have hpos : ∀ {k} (hk : k < l.length), p l[k] = true → 0 < l.countP p := fun hk hpk =>
      List.countP_pos_iff.2 ⟨_, List.getElem_mem hk, hpk⟩
    have hle : p a = true → l.countP p = 0 := by
      intro ha
      rw [List.countP_cons_of_pos ha] at h
      omega
    rcases i with _ | i <;> rcases j with _ | j
    · rfl
    · exact absurd (hle hpi) (hpos (Nat.lt_of_succ_lt_succ hj) hpj).ne'
    · exact absurd (hle hpj) (hpos (Nat.lt_of_succ_lt_succ hi) hpi).ne'
    · refine congrArg _ (ih ?_ (Nat.lt_of_succ_lt_succ hi) (Nat.lt_of_succ_lt_succ hj) hpi hpj)
      exact le_trans (List.Sublist.countP_le (List.sublist_cons_self a l)) h

theorem Shaped.of_countP {list : List (BitVec 32)} {rows : BitVec 32}
    (hdvd : rows.toNat ∣ list.length) (hcenter : list.countP (IsCenter ·) = 1) :
    Shaped list rows := by
  obtain ⟨v, hv, hvalue⟩ := List.countP_pos_iff.1 (hcenter ▸ Nat.one_pos)
  exact ⟨hdvd, ⟨v, hv, of_decide_eq_true hvalue⟩, fun i j hi hj hvi hvj =>
    eq_of_countP_le_one hcenter.le hi hj (decide_eq_true hvi) (decide_eq_true hvj)⟩

namespace Shaped

variable {list : List (BitVec 32)} {rows : BitVec 32} (h : Shaped list rows)

include h

theorem rows_pos : 0 < rows.toNat := by
  obtain ⟨v, hv, -⟩ := h.center
  refine Nat.pos_of_ne_zero fun hzero => ?_
  have hdvd := h.dvd
  rw [hzero, zero_dvd_iff] at hdvd
  exact List.not_mem_nil (List.eq_nil_of_length_eq_zero hdvd ▸ hv)

theorem cols_pos : 0 < list.length / rows.toNat := by
  obtain ⟨v, hv, -⟩ := h.center
  exact Nat.div_pos (Nat.le_of_dvd (List.length_pos_of_mem hv) h.dvd) h.rows_pos

/-- The area has the cells of the list, and its centre. -/
theorem createArea_spec (hcols : list.length / rows.toNat < 2 ^ 32) :
    ∃ area, createArea list rows = some area ∧ area.rows = rows ∧
      area.cols.toNat = list.length / rows.toNat ∧
      (∀ c : ℤ × ℤ, area.data c = true ↔ ∃ i, ∃ h : i < list.length, IsHit list[i] ∧
        c = Prod.map Nat.cast Nat.cast (cellAt (list.length / rows.toNat) i)) ∧
      ∃ i, ∃ h : i < list.length, IsCenter list[i] ∧
        (area.centerY.toNat, area.centerX.toNat) = cellAt (list.length / rows.toNat) i := by
  have hne : rows ≠ 0 := by
    rintro rfl
    exact absurd h.rows_pos (by decide)
  have htoNat : (BitVec.ofNat 32 (list.length / rows.toNat)).toNat = list.length / rows.toNat := by
    rw [BitVec.toNat_ofNat]
    exact Nat.mod_eq_of_lt hcols
  let start : MatrixArea := { rows, cols := BitVec.ofNat 32 (list.length / rows.toNat) }
  obtain ⟨area, hfill, hfilled⟩ : ∃ area, fillArea start.cols list start 0 0 = some area ∧
      Filled list 0 start area :=
    fillArea_spec (by rw [htoNat]; exact h.cols_pos) rfl
      (by rw [cellAt, Nat.zero_div, Nat.zero_mod]; rfl)
      (by rw [htoNat, zero_add, Nat.mul_div_cancel' h.dvd])
  refine ⟨area, ?_, hfilled.rows, ?_, fun c => ?_, ?_⟩
  · rw [createArea, if_neg hne]
    exact hfill
  · rw [hfilled.cols, htoNat]
  · rw [hfilled.data, htoNat]
    simp only [start, Bool.false_eq_true, false_or, zero_add]
  · rcases hfilled.center with ⟨hnone, -, -⟩ | hcenter
    · obtain ⟨v, hv, hcenter⟩ := h.center
      exact absurd hcenter (hnone v hv)
    · simpa only [start, htoNat, zero_add] using hcenter

/-- So the centre is inside, and cells are hit if the list has some. -/
theorem exists_area (hcols : list.length / rows.toNat < 2 ^ 32) :
    ∃ area, createArea list rows = some area ∧ area.rows = rows ∧
      area.cols.toNat = list.length / rows.toNat ∧
      area.centerY.toNat < area.rows.toNat ∧ area.centerX.toNat < area.cols.toNat ∧
      (area.active.Nonempty ↔ ∃ v ∈ list, IsHit v) ∧
      ∃ i, ∃ h : i < list.length, IsCenter list[i] ∧
        (area.centerY.toNat, area.centerX.toNat) = cellAt (list.length / rows.toNat) i := by
  obtain ⟨area, hcreate, hrows, hcols', hdata, i, hi, hvalue, hcenter⟩ := h.createArea_spec hcols
  have hcell : ∀ {i}, i < list.length →
      (cellAt (list.length / rows.toNat) i).1 < rows.toNat ∧
      (cellAt (list.length / rows.toNat) i).2 < list.length / rows.toNat := by
    intro i hi
    refine ⟨Nat.div_lt_of_lt_mul ?_, Nat.mod_lt _ h.cols_pos⟩
    rwa [mul_comm, Nat.mul_div_cancel' h.dvd]
  obtain ⟨hy, hx⟩ := Prod.mk.inj hcenter
  refine ⟨area, hcreate, hrows, hcols', ?_, ?_, ?_, i, hi, hvalue, hcenter⟩
  · rw [hrows, hy]
    exact (hcell hi).1
  · rw [hcols', hx]
    exact (hcell hi).2
  · constructor
    · rintro ⟨c, hc⟩
      obtain ⟨i, hi, hit, -⟩ := (hdata c).1 (MatrixArea.mem_active.1 hc).2
      exact ⟨_, List.getElem_mem hi, hit⟩
    · rintro ⟨v, hv, hit⟩
      obtain ⟨i, hi, rfl⟩ := List.mem_iff_getElem.1 hv
      refine ⟨_, MatrixArea.mem_active.2 ⟨?_, (hdata _).2 ⟨i, hi, hit, rfl⟩⟩⟩
      obtain ⟨hy, hx⟩ := hcell hi
      rw [MatrixArea.Inside, hrows, hcols', Prod.map_fst, Prod.map_snd]
      omega

end Shaped

/-! ## All directions -/

namespace AreaCombat

/-- The offsets for the direction `d'` are those for `d`, changed by `f`. -/
def Turned (combat : AreaCombat) (d d' : Direction) (f : ℤ × ℤ → ℤ × ℤ) : Prop :=
  ∃ area area', combat.areas d = some area ∧ combat.areas d' = some area' ∧
    area'.offsets = area.offsets.image f

theorem Turned.offsets_eq {combat : AreaCombat} {d d' : Direction} {f : ℤ × ℤ → ℤ × ℤ}
    (h : combat.Turned d d' f) {area area' : MatrixArea} (harea : combat.areas d = some area)
    (harea' : combat.areas d' = some area') : area'.offsets = area.offsets.image f := by
  obtain ⟨_, _, h₁, h₂, hoffsets⟩ := h
  rwa [Option.some.inj (harea'.symm.trans h₂), Option.some.inj (harea.symm.trans h₁)]

end AreaCombat

/-- Both ways to set up areas write inside of matrices only. The first rotates by 90, 180 and 270
    degrees, the second mirrors to the right, flips down, and both. -/
structure AreaExact (combat : AreaCombat) (list : List (BitVec 32)) (rows : BitVec 32) :
    Prop where
  rotated : ∃ combat', combat.setupArea list rows = some combat' ∧
    combat'.Turned .north .east (fun p => (p.2, -p.1)) ∧
    combat'.Turned .north .south (fun p => (-p.1, -p.2)) ∧
    combat'.Turned .north .west (fun p => (-p.2, p.1))
  mirrored : ∃ combat', combat.setupExtArea list rows = some combat' ∧
    combat'.Turned .northwest .northeast (fun p => (p.1, -p.2)) ∧
    combat'.Turned .northwest .southwest (fun p => (-p.1, p.2)) ∧
    combat'.Turned .northwest .southeast (fun p => (-p.1, -p.2))

/-- Room around the centre, and as many rows as columns, if cells are hit at all. -/
structure Fits (list : List (BitVec 32)) (rows : BitVec 32) : Prop where
  room : ∀ i, ∀ h : i < list.length, IsCenter list[i] →
    Room rows.toNat (list.length / rows.toNat) (i / (list.length / rows.toNat))
      (i % (list.length / rows.toNat))
  square : (∃ v ∈ list, IsHit v) → list.length / rows.toNat = rows.toNat ∧ rows.toNat < 2 ^ 30

/-- The area that is flipped, and then mirrored. -/
theorem MatrixArea.Proper.southeast_spec {area sw : MatrixArea} (h : area.Proper)
    (hrows : sw.rows = (blank area).rows) (hcols : sw.cols = (blank area).cols)
    (hcenter : sw.centerX = area.centerX) :
    ∃ se, copyArea sw (blank area) .mirror = some se ∧
      ((AreaCombat.maxOutput area).toNat < 2 ^ 31 →
        se.offsets = sw.offsets.image fun p => (p.1, -p.2)) ∧
      (2 ^ 31 ≤ (AreaCombat.maxOutput area).toNat → se.offsets = ∅) := by
  have hsize : sw.cols.toNat = (AreaCombat.maxOutput area).toNat := congrArg BitVec.toNat hcols
  by_cases hlt : (AreaCombat.maxOutput area).toNat < 2 ^ 31
  · have := h.centerX_lt
    have := h.cols_lt
    have := h.toNat_maxOutput
    have hrows' : sw.rows.toNat = (AreaCombat.maxOutput area).toNat := congrArg BitVec.toNat hrows
    have hfit : ∀ c, sw.Inside c → (blank area).Inside (c.1, sw.cols.toNat - 1 - c.2) := by
      rintro c ⟨⟨hy₀, hy⟩, hx₀, hx⟩
      rw [hrows] at hy
      rw [hsize] at hx ⊢
      refine ⟨⟨hy₀, hy⟩, ?_, ?_⟩
      · dsimp only
        omega
      · dsimp only [blank]
        omega
    obtain ⟨se, hse, hoffsets⟩ := Combat.mirror_spec (fun _ => rfl) hfit (hsize ▸ hlt) (by
      rw [toInt_pred_sub (by omega) (by omega) (by rw [hcenter]; omega),
        BitVec.toInt_eq_toNat_of_lt (by rw [hcenter]; omega)])
    refine ⟨se, hse, fun _ => ?_, fun hle => absurd hlt (Nat.not_lt_of_le hle)⟩
    rw [hoffsets, hsize, hrows', sub_self]
    simp only [zero_sub]
  · obtain ⟨se, hse, hoffsets⟩ : ∃ se, copyArea sw (blank area) .mirror = some se ∧
        se.offsets = ∅ := by
      refine mirror_of_toInt_nonpos (fun _ => rfl) ?_
      rw [BitVec.toInt_eq_toNat_cond]
      have := sw.cols.isLt
      split_ifs <;> omega
    exact ⟨se, hse, fun hlt' => absurd hlt' hlt, fun _ => hoffsets⟩

/-! ## Areas that fit -/

section Fits

variable {area : MatrixArea}

/-- An area with as many rows as columns, or with nothing to hit, for the diagonal directions. -/
theorem MatrixArea.Proper.diagonal_spec (h : area.Proper) (hsquare : area.active.Nonempty →
      area.cols.toNat = area.rows.toNat ∧ area.rows.toNat < 2 ^ 30) :
    ∃ ne sw se, copyArea area (blank area) .mirror = some ne ∧
      copyArea area (blank area) .flip = some sw ∧ copyArea sw (blank area) .mirror = some se ∧
      ne.offsets = area.offsets.image (fun p => (p.1, -p.2)) ∧
      sw.offsets = area.offsets.image (fun p => (-p.1, p.2)) ∧
      se.offsets = area.offsets.image fun p => (-p.1, -p.2) := by
  obtain ⟨ne, hne, hneOffsets⟩ := h.mirror_spec
  obtain ⟨sw, hsw, hrows, hcols, hcenter, hswOffsets⟩ := h.flip_spec
  obtain ⟨se, hse, hseOffsets, hnone⟩ := h.southeast_spec hrows hcols hcenter
  refine ⟨ne, sw, se, hne, hsw, hse, ?_⟩
  rcases area.active.eq_empty_or_nonempty with hempty | hactive
  · have hoffsets : area.offsets = ∅ := by rw [MatrixArea.offsets, hempty, Finset.image_empty]
    rw [hoffsets, Finset.image_empty] at hneOffsets hswOffsets
    rw [hswOffsets, Finset.image_empty] at hseOffsets
    rw [hneOffsets, hswOffsets, hoffsets]
    exact ⟨rfl, rfl, (Nat.lt_or_ge _ _).elim hseOffsets hnone⟩
  · obtain ⟨hsquare, hlt⟩ := hsquare hactive
    have hsize := h.toNat_maxOutput
    rw [hsquare, sub_self] at hneOffsets hswOffsets
    simp only [zero_sub] at hneOffsets hswOffsets
    refine ⟨hneOffsets, hswOffsets, ?_⟩
    rw [hseOffsets (by omega), hswOffsets, Finset.image_image]
    rfl

end Fits

namespace AreaCombat

variable {combat combat' : AreaCombat} {list : List (BitVec 32)} {rows : BitVec 32}

theorem setupArea_eq_some_iff : combat.setupArea list rows = some combat' ↔
    ∃ north south east west, createArea list rows = some north ∧
      copyArea north (blank north) .rotate180 = some south ∧
      copyArea north (blank north) .rotate90 = some east ∧
      copyArea north (blank north) .rotate270 = some west ∧
      (((combat.setArea .north north).setArea .south south).setArea .east east).setArea .west west =
        combat' := by
  simp only [setupArea, Option.bind_eq_bind, Option.bind_eq_some_iff, Option.some.injEq, blank]
  constructor
  · rintro ⟨north, hnorth, south, hsouth, east, heast, west, hwest, h⟩
    exact ⟨north, south, east, west, hnorth, hsouth, heast, hwest, h⟩
  · rintro ⟨north, south, east, west, hnorth, hsouth, heast, hwest, h⟩
    exact ⟨north, hnorth, south, hsouth, east, heast, west, hwest, h⟩

theorem setupExtArea_eq_some_iff (hlist : list ≠ []) :
    combat.setupExtArea list rows = some combat' ↔
      ∃ nw ne sw se, createArea list rows = some nw ∧
        copyArea nw (blank nw) .mirror = some ne ∧ copyArea nw (blank nw) .flip = some sw ∧
        copyArea sw (blank nw) .mirror = some se ∧
        (((({ combat with hasExtArea := true } : AreaCombat).setArea .northwest nw).setArea
          .southwest sw).setArea .northeast ne).setArea .southeast se = combat' := by
  rw [setupExtArea, if_neg hlist]
  simp only [Option.bind_eq_bind, Option.bind_eq_some_iff, Option.some.injEq, blank]
  constructor
  · rintro ⟨nw, hnw, ne, hne, sw, hsw, se, hse, h⟩
    exact ⟨nw, ne, sw, se, hnw, hne, hsw, hse, h⟩
  · rintro ⟨nw, ne, sw, se, hnw, hne, hsw, hse, h⟩
    exact ⟨nw, hnw, ne, hne, sw, hsw, se, hse, h⟩

end AreaCombat

theorem Shaped.ne_nil {list : List (BitVec 32)} {rows : BitVec 32} (h : Shaped list rows) :
    list ≠ [] := by
  obtain ⟨v, hv, -⟩ := h.center
  exact List.ne_nil_of_mem hv

theorem Room.lt {rows cols centerY centerX : ℕ} (h : Room rows cols centerY centerX)
    (hrows : 0 < rows) (hcols : 0 < cols) : rows < 2 ^ 31 ∧ cols < 2 ^ 31 := by
  obtain ⟨hup, hdown, hleft, hright⟩ := h
  omega

theorem Fits.areaExact {combat : AreaCombat} {list : List (BitVec 32)} {rows : BitVec 32}
    (h : Fits list rows) (hshaped : Shaped list rows) : AreaExact combat list rows := by
  have hlt : rows.toNat < 2 ^ 31 ∧ list.length / rows.toNat < 2 ^ 31 := by
    obtain ⟨v, hv, hvalue⟩ := hshaped.center
    obtain ⟨i, hi, rfl⟩ := List.mem_iff_getElem.1 hv
    exact (h.room i hi hvalue).lt hshaped.rows_pos hshaped.cols_pos
  obtain ⟨area, hcreate, hrows, hcols, hcenterY, hcenterX, hactive, i, hi, hvalue, hcenter⟩ :=
    hshaped.exists_area (lt_trans hlt.2 (by decide))
  have hproper : area.Proper := by
    refine ⟨?_, ?_, hcenterY, hcenterX⟩
    · rw [hrows]
      exact hlt.1
    · rw [hcols]
      exact hlt.2
  have hroom : area.HasRoom := by
    obtain ⟨hy, hx⟩ := Prod.mk.inj hcenter
    rw [MatrixArea.HasRoom, hrows, hcols, hy, hx]
    exact h.room i hi hvalue
  constructor
  · obtain ⟨south, hsouth, hsouthOffsets⟩ := hproper.rotate_spec hroom (.inr (.inl rfl))
    obtain ⟨east, heast, heastOffsets⟩ := hproper.rotate_spec hroom (.inl rfl)
    obtain ⟨west, hwest, hwestOffsets⟩ := hproper.rotate_spec hroom (.inr (.inr rfl))
    rw [turn_rotate180] at hsouthOffsets
    rw [turn_rotate90] at heastOffsets
    rw [turn_rotate270] at hwestOffsets
    exact ⟨_, AreaCombat.setupArea_eq_some_iff.2
      ⟨area, south, east, west, hcreate, hsouth, heast, hwest, rfl⟩,
      ⟨area, east, rfl, rfl, heastOffsets⟩, ⟨area, south, rfl, rfl, hsouthOffsets⟩,
      ⟨area, west, rfl, rfl, hwestOffsets⟩⟩
  · obtain ⟨ne, sw, se, hne, hsw, hse, hneOffsets, hswOffsets, hseOffsets⟩ :=
      hproper.diagonal_spec fun hnonempty => by
        rw [hcols, hrows]
        exact h.square (hactive.1 hnonempty)
    exact ⟨_, (AreaCombat.setupExtArea_eq_some_iff hshaped.ne_nil).2
      ⟨area, ne, sw, se, hcreate, hne, hsw, hse, rfl⟩,
      ⟨area, ne, rfl, rfl, hneOffsets⟩, ⟨area, sw, rfl, rfl, hswOffsets⟩,
      ⟨area, se, rfl, rfl, hseOffsets⟩⟩

/-! ## Areas that do not fit -/

/-- Numbers that are turned around differ, so they need as much room as before. -/
theorem le_of_turned {n size : ℕ} (hn : n < 2 ^ 32) {center : BitVec 32} {k : ℤ}
    (h : ∀ i : ℤ, 0 ≤ i → i < n → 0 ≤ -(BitVec.ofInt 32 i - center).toInt + k ∧
      -(BitVec.ofInt 32 i - center).toInt + k < size) : n ≤ size := by
  have hcard : (Finset.Ico (0 : ℤ) n).card ≤ (Finset.Ico (0 : ℤ) size).card := by
    refine Finset.card_le_card_of_injOn (fun i => -(BitVec.ofInt 32 i - center).toInt + k)
      (fun i hi => ?_) fun i hi j hj he => ?_
    · obtain ⟨h₀, hi⟩ := Finset.mem_Ico.1 hi
      exact Finset.mem_coe.2 (Finset.mem_Ico.2 (h i h₀ hi))
    · obtain ⟨hi₀, hi⟩ := Finset.mem_Ico.1 hi
      obtain ⟨hj₀, hj⟩ := Finset.mem_Ico.1 hj
      have hsub := BitVec.toInt_inj.1 (neg_inj.1 (add_right_cancel he))
      have hij : BitVec.ofInt 32 i = BitVec.ofInt 32 j := by
        rw [← BitVec.sub_add_cancel (BitVec.ofInt 32 i) center, hsub, BitVec.sub_add_cancel]
      rw [← toNat_ofInt hi₀ (by omega), ← toNat_ofInt hj₀ (by omega), hij]
  rwa [Int.card_Ico, Int.card_Ico, sub_zero, sub_zero, Int.toNat_natCast, Int.toNat_natCast]
    at hcard

section Rotations

variable {area : MatrixArea} {op : MatrixOperation}

theorem target_of_rotate (hop : op.IsRotation) (h : (copyArea area (blank area) op).isSome = true)
    {c : ℤ × ℤ} (hc : area.Inside c) :
    (blank area).Writable (2 ^ 31) ((plan area (blank area) op).target c) := by
  have hin := writable_of_copyArea h c ((mem_cells_rotate hop c).2 hc)
  rwa [show (plan area (blank area) op).limit = 2 ^ 31 by rw [plan_rotate hop]] at hin

/-- The larger size, doubled, does not wrap around if there is room for the turned area. -/
theorem size_lt_of_rotate180 (hrows : 0 < area.rows.toNat) (hcols : 0 < area.cols.toNat)
    (h : (copyArea area (blank area) .rotate180).isSome = true) :
    area.rows.toNat < 2 ^ 31 ∧ area.cols.toNat < 2 ^ 31 := by
  have htarget : ∀ y x : ℤ, (0 ≤ y ∧ y < area.rows.toNat) → (0 ≤ x ∧ x < area.cols.toNat) →
      (blank area).Inside (-(BitVec.ofInt 32 y - area.centerY).toInt +
          ((blank area).rows / 2 - 1).toInt,
        -(BitVec.ofInt 32 x - area.centerX).toInt + ((blank area).cols / 2 - 1).toInt) := by
    intro y x hy hx
    have hop : MatrixOperation.IsRotation .rotate180 := .inr (.inl rfl)
    have hin := target_of_rotate hop h (c := (y, x)) ⟨hy, hx⟩
    rw [plan_rotate hop, turn_rotate180] at hin
    exact hin.1
  have hy := le_of_turned area.rows.isLt fun y h₀ hy =>
    (htarget y 0 ⟨h₀, hy⟩ ⟨le_refl 0, by omega⟩).1
  have hx := le_of_turned area.cols.isLt fun x h₀ hx =>
    (htarget 0 x ⟨le_refl 0, by omega⟩ ⟨h₀, hx⟩).2
  have hsize : (blank area).rows.toNat = 2 * max area.rows.toNat area.cols.toNat % 2 ^ 32 :=
    toNat_maxOutput_mod area
  have hsize' : (blank area).cols.toNat = 2 * max area.rows.toNat area.cols.toNat % 2 ^ 32 :=
    toNat_maxOutput_mod area
  have := area.rows.isLt
  have := area.cols.isLt
  omega

/-- The corners show that there is room. -/
theorem MatrixArea.Proper.room_of_rotate (h : area.Proper)
    (hsouth : (copyArea area (blank area) .rotate180).isSome = true)
    (heast : (copyArea area (blank area) .rotate90).isSome = true)
    (hwest : (copyArea area (blank area) .rotate270).isSome = true) : area.HasRoom := by
  have := h.centerY_lt
  have := h.centerX_lt
  have htarget : ∀ {op : MatrixOperation}, op.IsRotation →
      (copyArea area (blank area) op).isSome = true → ∀ {c : ℤ × ℤ}, area.Inside c →
        (op.turn (area.relative c)).1 + (max area.rows.toNat area.cols.toNat - 1) < 2 ^ 31 ∧
        (op.turn (area.relative c)).2 + (max area.rows.toNat area.cols.toNat - 1) < 2 ^ 31 := by
    intro op hop hcopy c hc
    have hin := (target_of_rotate hop hcopy hc).2
    rwa [h.target_rotate hop hc] at hin
  have hfirst : area.Inside (0, 0) := by
    rw [MatrixArea.Inside]
    omega
  have hlast : area.Inside (area.rows.toNat - 1, area.cols.toNat - 1) := by
    rw [MatrixArea.Inside]
    omega
  obtain ⟨hup, hleft⟩ := htarget (.inr (.inl rfl)) hsouth hfirst
  obtain ⟨hright, -⟩ := htarget (.inl rfl) heast hlast
  obtain ⟨-, hdown⟩ := htarget (.inr (.inr rfl)) hwest hlast
  rw [turn_rotate180, h.relative_eq] at hup hleft
  rw [turn_rotate90, h.relative_eq] at hright
  rw [turn_rotate270, h.relative_eq] at hdown
  constructor <;> dsimp only at * <;> omega

end Rotations

/-- Offsets that were mirrored at another place are not the mirrored ones. -/
theorem eq_zero_of_image_mirror {s : Finset (ℤ × ℤ)} {k : ℤ} (hs : s.Nonempty)
    (h : s.image (fun p => (p.1, k - p.2)) = s.image fun p => (p.1, -p.2)) : k = 0 := by
  obtain ⟨p, hp, hmin⟩ := s.exists_min_image Prod.snd hs
  have hle : k ≤ 0 := by
    have hmem : (p.1, k - p.2) ∈ s.image fun p => (p.1, -p.2) :=
      h ▸ Finset.mem_image_of_mem _ hp
    obtain ⟨q, hq, he⟩ := Finset.mem_image.1 hmem
    have := hmin q hq
    have := (Prod.mk.inj he).2
    omega
  have hge : 0 ≤ k := by
    have hmem : (p.1, -p.2) ∈ s.image fun p => (p.1, k - p.2) :=
      h ▸ Finset.mem_image_of_mem _ hp
    obtain ⟨q, hq, he⟩ := Finset.mem_image.1 hmem
    have := hmin q hq
    have := (Prod.mk.inj he).2
    omega
  exact le_antisymm hle hge

theorem MatrixArea.Proper.square_of_diagonal {area ne sw se : MatrixArea} (h : area.Proper)
    (hactive : area.active.Nonempty) (hne : copyArea area (blank area) .mirror = some ne)
    (hsw : copyArea area (blank area) .flip = some sw)
    (hse : copyArea sw (blank area) .mirror = some se)
    (hneOffsets : ne.offsets = area.offsets.image fun p => (p.1, -p.2))
    (hseOffsets : se.offsets = area.offsets.image fun p => (-p.1, -p.2)) :
    area.cols.toNat = area.rows.toNat ∧ area.rows.toNat < 2 ^ 30 := by
  have hoffsets : area.offsets.Nonempty := hactive.image _
  obtain ⟨ne', hne', hneOffsets'⟩ := h.mirror_spec
  obtain rfl := Option.some.inj (hne.symm.trans hne')
  have hsquare : (area.cols.toNat - area.rows.toNat : ℤ) = 0 :=
    eq_zero_of_image_mirror hoffsets (hneOffsets'.symm.trans hneOffsets)
  obtain ⟨sw', hsw', hrows, hcols, hcenter, -⟩ := h.flip_spec
  obtain rfl := Option.some.inj (hsw.symm.trans hsw')
  obtain ⟨se', hse', -, hnone⟩ := h.southeast_spec hrows hcols hcenter
  obtain rfl := Option.some.inj (hse.symm.trans hse')
  have hlt : (AreaCombat.maxOutput area).toNat < 2 ^ 31 := by
    by_contra hle
    have hempty := hseOffsets.symm.trans (hnone (not_lt.1 hle))
    rw [Finset.image_eq_empty] at hempty
    exact hoffsets.ne_empty hempty
  rw [h.toNat_maxOutput] at hlt
  omega

theorem AreaExact.fits {combat : AreaCombat} {list : List (BitVec 32)} {rows : BitVec 32}
    (h : AreaExact combat list rows) (hshaped : Shaped list rows)
    (hcols : list.length / rows.toNat < 2 ^ 32) : Fits list rows := by
  obtain ⟨area, hcreate, hrows, hcols, hcenterY, hcenterX, hactive, i, hi, hvalue, hcenter⟩ :=
    hshaped.exists_area hcols
  obtain ⟨combat₁, hsetup, -⟩ := h.rotated
  obtain ⟨north, south, east, west, hnorth, hsouth, heast, hwest, -⟩ :=
    AreaCombat.setupArea_eq_some_iff.1 hsetup
  obtain rfl := Option.some.inj (hcreate.symm.trans hnorth)
  have hsouth := Option.isSome_iff_exists.2 ⟨_, hsouth⟩
  obtain ⟨hrowsLt, hcolsLt⟩ := size_lt_of_rotate180 (Nat.zero_lt_of_lt hcenterY)
    (Nat.zero_lt_of_lt hcenterX) hsouth
  have hproper : area.Proper := ⟨hrowsLt, hcolsLt, hcenterY, hcenterX⟩
  constructor
  · intro j hj hvalue'
    obtain rfl := hshaped.unique hi hj hvalue hvalue'
    have hroom := hproper.room_of_rotate hsouth (Option.isSome_iff_exists.2 ⟨_, heast⟩)
      (Option.isSome_iff_exists.2 ⟨_, hwest⟩)
    obtain ⟨hy, hx⟩ := Prod.mk.inj hcenter
    rwa [MatrixArea.HasRoom, hrows, hcols, hy, hx] at hroom
  · intro hhit
    obtain ⟨combat₂, hsetup, hturnNe, -, hturnSe⟩ := h.mirrored
    obtain ⟨nw, ne, sw, se, hnw, hne, hsw, hse, rfl⟩ :=
      (AreaCombat.setupExtArea_eq_some_iff hshaped.ne_nil).1 hsetup
    obtain rfl := Option.some.inj (hcreate.symm.trans hnw)
    rw [← hcols, ← hrows]
    exact hproper.square_of_diagonal (hactive.2 hhit) hne hsw hse (hturnNe.offsets_eq rfl rfl)
      (hturnSe.offsets_eq rfl rfl)

/-- The diagonal areas are right for as many rows as columns, and for nothing to hit. Areas with
    more columns than can be counted are not considered to the contrary. -/
theorem area_exact_iff {combat : AreaCombat} {list : List (BitVec 32)} {rows : BitVec 32}
    (hdvd : rows.toNat ∣ list.length) (hcenter : list.countP (IsCenter ·) = 1) :
    (Fits list rows → AreaExact combat list rows) ∧
      (list.length / rows.toNat < 2 ^ 32 → AreaExact combat list rows → Fits list rows) := by
  have hshaped := Shaped.of_countP hdvd hcenter
  exact ⟨fun h => h.areaExact hshaped, fun hcols h => h.fits hshaped hcols⟩

/-- A square of two by two. -/
theorem area_exact_square : AreaExact {} [1, 0, 0, 2] 2 :=
  (area_exact_iff (by decide) (by decide)).1 ⟨by decide, fun _ => by decide⟩

/-- A row of two cells. The one to hit is to the right of the centre, and in the area that is
    mirrored it is the centre. -/
theorem mirrored_row : (1 : BitVec 32).toNat ∣ [(2 : BitVec 32), 1].length ∧
    [(2 : BitVec 32), 1].countP (IsCenter ·) = 1 ∧
    (∃ combat nw ne, ({} : AreaCombat).setupExtArea [2, 1] 1 = some combat ∧
      combat.areas .northwest = some nw ∧ combat.areas .northeast = some ne ∧
      nw.offsets = {(0, 1)} ∧ ne.offsets = {(0, 0)}) ∧ ¬AreaExact {} [2, 1] 1 := by
  refine ⟨by decide, by decide, ⟨_, _, _, rfl, rfl, rfl, by decide, by decide⟩, fun h => ?_⟩
  have hfits := h.fits (.of_countP (by decide) (by decide)) (by decide)
  exact absurd (hfits.square ⟨1, by decide, by decide⟩).1 (by decide)

end Canary.Combat
