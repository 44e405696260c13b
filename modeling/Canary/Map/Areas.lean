import Canary.Lib.Odometer
import Canary.Map.Zones
import Mathlib.Data.List.Iterate
import Mathlib.Data.List.Nodup

/-!
# The positions of an area

A zone is given an area by passing through it: the iterator counts `x` up to the upper corner, then
`y`, then `z`, and ends one floor below the last. A position is compared with the corner after it
has been counted up. As the coordinates wrap, a corner on the last `x` or the last `y` is never
passed: the iterator goes around the row, or around the floor, for ever. Where the area is of all
floors, the end is the beginning, and nothing is visited.

In all other cases the positions of the box are visited, each once (`visits_iff`), so that they are
what a zone gets or loses.
-/

namespace Canary.Map.Zones

namespace Area

variable (a : Area)

def contains (position : Position) : Bool :=
  position.x ≥ a.fromPos.x && position.x ≤ a.toPos.x && position.y ≥ a.fromPos.y &&
    position.y ≤ a.toPos.y && position.z ≥ a.fromPos.z && position.z ≤ a.toPos.z

/-- The corners are in order. -/
structure Ordered : Prop where
  x : a.fromPos.x ≤ a.toPos.x
  y : a.fromPos.y ≤ a.toPos.y
  z : a.fromPos.z ≤ a.toPos.z

/-- No row and no column ends at the last coordinate, and there is a floor that is not of the
    area. -/
def Bounded : Prop :=
  a.toPos.x ≠ 65535 ∧ a.toPos.y ≠ 65535 ∧ ¬(a.fromPos.z = 0 ∧ a.toPos.z = 255)

variable {a} {p : Position}

theorem contains_iff : a.contains p = true ↔ (a.fromPos.x ≤ p.x ∧ p.x ≤ a.toPos.x) ∧
    (a.fromPos.y ≤ p.y ∧ p.y ≤ a.toPos.y) ∧ a.fromPos.z ≤ p.z ∧ p.z ≤ a.toPos.z := by
  simp only [contains, Bool.and_eq_true, decide_eq_true_eq, ge_iff_le]
  tauto

theorem Ordered.contains_fromPos (h : a.Ordered) : a.contains a.fromPos = true :=
  contains_iff.2 ⟨⟨UInt16.le_refl _, h.x⟩, ⟨UInt16.le_refl _, h.y⟩, UInt8.le_refl _, h.z⟩

/-! ## Runs of the iterator -/

theorem visit_eq_some_iff {n : ℕ} {p : Position} {l : List Position} :
    a.visit n p = some l ↔ ∃ k < n, a.next^[k] p = a.endPosition ∧
      (∀ j < k, a.next^[j] p ≠ a.endPosition) ∧ l = List.iterate a.next p k := by
  induction n generalizing p l with
  | zero => simp [visit]
  | succ n ih =>
    rw [visit]
    split_ifs with hend
    · constructor
      · intro h
        exact ⟨0, Nat.succ_pos n, hend, fun j hj => absurd hj (Nat.not_lt_zero j),
          (Option.some.inj h).symm⟩
      · rintro ⟨k, -, -, hbefore, rfl⟩
        cases k with
        | zero => rfl
        | succ k => exact absurd hend (hbefore 0 (Nat.succ_pos k))
    · rw [Option.map_eq_some_iff]
      constructor
      · rintro ⟨l, hl, rfl⟩
        obtain ⟨k, hk, hat, hbefore, rfl⟩ := ih.1 hl
        refine ⟨k + 1, Nat.succ_lt_succ hk, hat, fun j hj => ?_, rfl⟩
        cases j with
        | zero => exact hend
        | succ j => exact hbefore j (Nat.lt_of_succ_lt_succ hj)
      · rintro ⟨k, hk, hat, hbefore, rfl⟩
        cases k with
        | zero => exact absurd hat hend
        | succ k => exact ⟨_, ih.2 ⟨k, Nat.lt_of_succ_lt_succ hk, hat,
            fun j hj => hbefore (j + 1) (Nat.succ_lt_succ hj), rfl⟩, rfl⟩

/-- An area is passed through if the iterator gets to its end, and visited is what comes before. -/
theorem visits_iff_exists {l : List Position} :
    a.Visits l ↔ ∃ k, a.next^[k] a.fromPos = a.endPosition ∧
      (∀ j < k, a.next^[j] a.fromPos ≠ a.endPosition) ∧ l = List.iterate a.next a.fromPos k := by
  constructor
  · rintro ⟨n, hn⟩
    obtain ⟨k, -, h⟩ := visit_eq_some_iff.1 hn
    exact ⟨k, h⟩
  · rintro ⟨k, h⟩
    exact ⟨k + 1, visit_eq_some_iff.2 ⟨k, Nat.lt_succ_self k, h⟩⟩

/-! ## The box by distances -/

/-- The sides of the box. -/
def width (a : Area) : ℕ := a.toPos.x.toNat - a.fromPos.x.toNat + 1
def height (a : Area) : ℕ := a.toPos.y.toNat - a.fromPos.y.toNat + 1
def depth (a : Area) : ℕ := a.toPos.z.toNat - a.fromPos.z.toNat + 1

/-- How many positions the box has. -/
def size (a : Area) : ℕ := a.width * a.height * a.depth

/-- The position at these distances from the lower corner. -/
def offset (a : Area) (d : ℕ × ℕ × ℕ) : Position :=
  ⟨a.fromPos.x + .ofNat d.1, a.fromPos.y + .ofNat d.2.1, a.fromPos.z + .ofNat d.2.2⟩

theorem toNat_coordinate {b c : UInt16} {n : ℕ} (hle : b ≤ c) (hn : n < c.toNat - b.toNat + 1) :
    (b + .ofNat n).toNat = b.toNat + n := by
  have hc := c.toNat_lt
  rw [UInt16.le_iff_toNat_le] at hle
  rw [UInt16.toNat_add, UInt16.toNat_ofNat']
  omega

theorem toNat_floor {b c : UInt8} {n : ℕ} (hle : b ≤ c) (hn : n < c.toNat - b.toNat + 1) :
    (b + .ofNat n).toNat = b.toNat + n := by
  have hc := c.toNat_lt
  rw [UInt8.le_iff_toNat_le] at hle
  rw [UInt8.toNat_add, UInt8.toNat_ofNat']
  omega

/-- The corner is passed after the last distance, if it is not the last coordinate. -/
theorem passes_iff {b c : UInt16} {n : ℕ} (hle : b ≤ c) (hc : c ≠ 65535)
    (hn : n < c.toNat - b.toNat + 1) :
    b + .ofNat n + 1 > c ↔ n + 1 = c.toNat - b.toNat + 1 := by
  have hlast : c.toNat ≠ 65535 := fun h => hc (UInt16.toNat_inj.1 h)
  have hlt := c.toNat_lt
  rw [gt_iff_lt, UInt16.lt_iff_toNat_lt, UInt16.toNat_add, toNat_coordinate hle hn,
    show (1 : UInt16).toNat = 1 from rfl]
  rw [UInt16.le_iff_toNat_le] at hle
  omega

variable (hord : a.Ordered)

include hord

/-- The iterator counts the distances. -/
theorem next_offset (hbound : a.Bounded) {d : ℕ × ℕ × ℕ} (hx : d.1 < a.width)
    (hy : d.2.1 < a.height) :
    a.next (a.offset d) = a.offset (Odometer.next a.width a.height d) := by
  obtain ⟨x, y, z⟩ := d
  have hpassx : a.fromPos.x + .ofNat x + 1 > a.toPos.x ↔ x + 1 = a.width :=
    passes_iff hord.x hbound.1 hx
  have hpassy : a.fromPos.y + .ofNat y + 1 > a.toPos.y ↔ y + 1 = a.height :=
    passes_iff hord.y hbound.2.1 hy
  have hzero : ∀ b : UInt16, b + .ofNat 0 = b := fun b => UInt16.add_zero b
  have hturn : ∀ (b : UInt16) (n : ℕ), b + .ofNat (n + 1) = b + .ofNat n + 1 := fun b n => by
    rw [UInt16.ofNat_add, ← UInt16.add_assoc]
    rfl
  rw [next, offset, Odometer.next]
  by_cases hw : x + 1 = a.width
  · rw [if_pos (hpassx.2 hw), if_pos hw]
    by_cases hh : y + 1 = a.height
    · rw [if_pos (hpassy.2 hh), if_pos hh, offset, hzero, hzero, UInt8.ofNat_add,
        ← UInt8.add_assoc]
      rfl
    · rw [if_neg (mt hpassy.1 hh), if_neg hh, offset, hzero, hturn]
  · rw [if_neg (mt hpassx.1 hw), if_neg hw, offset, hturn]

theorem iterate_next (hbound : a.Bounded) (i : ℕ) :
    a.next^[i] a.fromPos = a.offset (Odometer.digits a.width a.height i) := by
  induction i with
  | zero =>
    rw [Odometer.digits_zero, offset]
    simp
  | succ i ih =>
    have hw : 0 < a.width := Nat.succ_pos _
    have hh : 0 < a.height := Nat.succ_pos _
    rw [Function.iterate_succ_apply', ih, Odometer.digits_succ hw hh]
    exact next_offset hord hbound (Nat.mod_lt _ hw) (Nat.mod_lt _ hh)

/-- The positions of the box are those at distances below the sides. -/
theorem contains_iff_exists :
    a.contains p = true ↔ ∃ d, (d.1 < a.width ∧ d.2.1 < a.height ∧ d.2.2 < a.depth) ∧
      p = a.offset d := by
  have hx := hord.x
  have hy := hord.y
  have hz := hord.z
  rw [contains_iff]
  constructor
  · rintro ⟨⟨hx₁, hx₂⟩, ⟨hy₁, hy₂⟩, hz₁, hz₂⟩
    rw [UInt16.le_iff_toNat_le] at hx₁ hx₂ hy₁ hy₂
    rw [UInt8.le_iff_toNat_le] at hz₁ hz₂
    have hwx : p.x.toNat - a.fromPos.x.toNat < a.width := by rw [width]; omega
    have hwy : p.y.toNat - a.fromPos.y.toNat < a.height := by rw [height]; omega
    have hwz : p.z.toNat - a.fromPos.z.toNat < a.depth := by rw [depth]; omega
    refine ⟨(p.x.toNat - a.fromPos.x.toNat, p.y.toNat - a.fromPos.y.toNat,
      p.z.toNat - a.fromPos.z.toNat), ⟨hwx, hwy, hwz⟩, ?_⟩
    obtain ⟨x, y, z⟩ := p
    rw [offset, Position.mk.injEq]
    refine ⟨UInt16.toNat_inj.1 ?_, UInt16.toNat_inj.1 ?_, UInt8.toNat_inj.1 ?_⟩
    · rw [toNat_coordinate hx hwx, Nat.add_sub_cancel' hx₁]
    · rw [toNat_coordinate hy hwy, Nat.add_sub_cancel' hy₁]
    · rw [toNat_floor hz hwz, Nat.add_sub_cancel' hz₁]
  · rintro ⟨d, ⟨hwx, hwy, hwz⟩, rfl⟩
    rw [offset]
    simp only [UInt16.le_iff_toNat_le, UInt8.le_iff_toNat_le, toNat_coordinate hx hwx,
      toNat_coordinate hy hwy, toNat_floor hz hwz]
    rw [UInt16.le_iff_toNat_le] at hx hy
    rw [UInt8.le_iff_toNat_le] at hz
    rw [width] at hwx
    rw [height] at hwy
    rw [depth] at hwz
    omega

/-- Different distances below the sides lead to different positions. -/
theorem offset_injective {d e : ℕ × ℕ × ℕ}
    (hd : d.1 < a.width ∧ d.2.1 < a.height ∧ d.2.2 < a.depth)
    (he : e.1 < a.width ∧ e.2.1 < a.height ∧ e.2.2 < a.depth) (h : a.offset d = a.offset e) :
    d = e := by
  rw [offset, offset, Position.mk.injEq] at h
  obtain ⟨hx, hy, hz⟩ := h
  have hx := congrArg UInt16.toNat hx
  have hy := congrArg UInt16.toNat hy
  have hz := congrArg UInt8.toNat hz
  rw [toNat_coordinate hord.x hd.1, toNat_coordinate hord.x he.1] at hx
  rw [toNat_coordinate hord.y hd.2.1, toNat_coordinate hord.y he.2.1] at hy
  rw [toNat_floor hord.z hd.2.2, toNat_floor hord.z he.2.2] at hz
  exact Prod.ext (by omega) (Prod.ext (by omega) (by omega))

/-- No position of the box is the end, as the floor below is not of the box. -/
theorem ne_endPosition (hbound : a.Bounded) (hp : a.contains p = true) : p ≠ a.endPosition := by
  rintro rfl
  have hz := (contains_iff.1 hp).2.2
  have hbelow := hord.z
  have hlt := a.toPos.z.toNat_lt
  rw [endPosition, UInt8.le_iff_toNat_le, UInt8.le_iff_toNat_le, UInt8.toNat_add,
    show (1 : UInt8).toNat = 1 from rfl] at hz
  rw [UInt8.le_iff_toNat_le] at hbelow
  refine hbound.2.2 ⟨UInt8.toNat_inj.1 ?_, UInt8.toNat_inj.1 ?_⟩
  · rw [show (0 : UInt8).toNat = 0 from rfl]
    omega
  · rw [show (255 : UInt8).toNat = 255 from rfl]
    omega

theorem offset_end : a.offset (0, 0, a.depth) = a.endPosition := by
  have hz := hord.z
  rw [UInt8.le_iff_toNat_le] at hz
  rw [offset, endPosition, Position.mk.injEq]
  refine ⟨UInt16.add_zero _, UInt16.add_zero _, UInt8.toNat_inj.1 ?_⟩
  rw [UInt8.toNat_add, UInt8.toNat_add, UInt8.toNat_ofNat', show (1 : UInt8).toNat = 1 from rfl,
    depth]
  dsimp only
  omega

/-! ## What is visited -/

/-- The positions of the box are visited, each once. -/
theorem visits_of_bounded (hbound : a.Bounded) :
    ∃ l, a.Visits l ∧ l.Nodup ∧ ∀ p, p ∈ l ↔ a.contains p = true := by
  have hw : 0 < a.width := Nat.succ_pos _
  have hh : 0 < a.height := Nat.succ_pos _
  have hdigits : ∀ i < a.size, (Odometer.digits a.width a.height i).1 < a.width ∧
      (Odometer.digits a.width a.height i).2.1 < a.height ∧
      (Odometer.digits a.width a.height i).2.2 < a.depth := fun i hi =>
    Odometer.digits_lt hw hh hi
  have hmem : ∀ p, p ∈ List.iterate a.next a.fromPos a.size ↔ a.contains p = true := by
    intro p
    rw [List.mem_iterate, contains_iff_exists hord]
    constructor
    · rintro ⟨i, hi, rfl⟩
      exact ⟨_, hdigits i hi, iterate_next hord hbound i⟩
    · rintro ⟨d, hd, rfl⟩
      obtain ⟨i, hi, hid⟩ := (Odometer.exists_digits_iff (d := a.depth) hw hh).2 hd
      exact ⟨i, hi, by rw [iterate_next hord hbound, hid]⟩
  refine ⟨List.iterate a.next a.fromPos a.size, visits_iff_exists.2 ⟨a.size, ?_, ?_, rfl⟩, ?_,
    hmem⟩
  · rw [iterate_next hord hbound, size, Odometer.digits_end hw hh, offset_end hord]
  · intro j hj
    exact ne_endPosition hord hbound ((hmem _).1 (List.mem_iterate.2 ⟨j, hj, rfl⟩))
  · rw [← List.range_map_iterate]
    refine List.Nodup.map_on (fun i hi j hj hij => ?_) List.nodup_range
    rw [List.mem_range] at hi hj
    rw [iterate_next hord hbound, iterate_next hord hbound] at hij
    exact Odometer.digits_injective (offset_injective hord (hdigits i hi) (hdigits j hj) hij)

omit hord in
/-- A corner at the last coordinate is not passed: the iterator stays on its floor. -/
theorem z_iterate_next (h : a.toPos.x = 65535 ∨ a.toPos.y = 65535) (i : ℕ) (p : Position) :
    (a.next^[i] p).z = p.z := by
  have hnot : ∀ c : UInt16, ¬c > 65535 := fun c hc => by
    have := c.toNat_lt
    rw [gt_iff_lt, UInt16.lt_iff_toNat_lt, show (65535 : UInt16).toNat = 65535 from rfl] at hc
    omega
  have hstep : ∀ p, (a.next p).z = p.z := by
    intro p
    rw [next]
    rcases h with hx | hy
    · rw [hx, if_neg (hnot _)]
    · rw [hy, if_neg (hnot _)]
      split_ifs <;> rfl
  induction i with
  | zero => rfl
  | succ i ih => rw [Function.iterate_succ_apply', hstep, ih]

omit hord in
/-- If the iterator gets through any other area, the end is the beginning. -/
theorem eq_nil_of_not_bounded (hbound : ¬a.Bounded) {l : List Position} (hl : a.Visits l) :
    l = [] := by
  obtain ⟨k, hat, hbefore, rfl⟩ := visits_iff_exists.1 hl
  have hfloor : a.toPos.z + 1 = a.fromPos.z := by
    by_cases hedge : a.toPos.x = 65535 ∨ a.toPos.y = 65535
    · have hfloor := z_iterate_next hedge k a.fromPos
      rw [hat] at hfloor
      exact hfloor
    · push Not at hedge
      obtain ⟨hfirst, hlast⟩ : a.fromPos.z = 0 ∧ a.toPos.z = 255 := by
        by_contra hfloors
        exact hbound ⟨hedge.1, hedge.2, hfloors⟩
      rw [hfirst, hlast]
      rfl
  have hend : a.fromPos = a.endPosition := by rw [endPosition, hfloor]
  cases k with
  | zero => rfl
  | succ k => exact absurd hend (hbefore 0 (Nat.succ_pos k))

end Area

/-! ## Zones -/

variable {Z : Type} [DecidableEq Z] (r : Registry Z) (s : State Z) (zone zone' : Z) (p : Position)

theorem mem_positions_addArea (l : List Position) :
    p ∈ (addArea r s zone l).positions zone' ↔ p ∈ s.positions zone' ∨ zone' = zone ∧ p ∈ l := by
  rw [addArea, refresh, positions_refreshAll]
  exact (foldl_addPosition zone l s).2 zone' p

theorem mem_positions_subtractArea (l : List Position) :
    p ∈ (subtractArea r s zone l).positions zone' ↔
      p ∈ s.positions zone' ∧ ¬(zone' = zone ∧ p ∈ l) := by
  rw [subtractArea, refresh, positions_refreshAll]
  exact (foldl_removePosition zone l s).2 zone' p

namespace Area

/-- The iterator yields these positions, which are those of the box, each once, and the box is what
    a zone gets and loses by them. -/
structure Yields (a : Area) (l : List Position) : Prop where
  visits : a.Visits l
  nodup : l.Nodup
  mem_iff : ∀ p, p ∈ l ↔ a.contains p = true
  added : ∀ (Z : Type) [DecidableEq Z] (r : Registry Z) (s : State Z) (zone zone' : Z) p,
    p ∈ (addArea r s zone l).positions zone' ↔
      p ∈ s.positions zone' ∨ zone' = zone ∧ a.contains p = true
  subtracted : ∀ (Z : Type) [DecidableEq Z] (r : Registry Z) (s : State Z) (zone zone' : Z) p,
    p ∈ (subtractArea r s zone l).positions zone' ↔
      p ∈ s.positions zone' ∧ ¬(zone' = zone ∧ a.contains p = true)

theorem Yields.of_mem_iff {a : Area} {l : List Position} (hl : a.Visits l) (hnodup : l.Nodup)
    (hmem : ∀ p, p ∈ l ↔ a.contains p = true) : a.Yields l where
  visits := hl
  nodup := hnodup
  mem_iff := hmem
  added _ _ r s zone zone' p := by rw [mem_positions_addArea, hmem]
  subtracted _ _ r s zone zone' p := by rw [mem_positions_subtractArea, hmem]

/-- The lower corner would have to be visited. -/
theorem not_yields {a : Area} (hord : a.Ordered) (hbound : ¬a.Bounded) (l : List Position) :
    ¬a.Yields l := by
  intro h
  have hmem := (h.mem_iff _).2 hord.contains_fromPos
  rw [eq_nil_of_not_bounded hbound h.visits] at hmem
  exact List.not_mem_nil hmem

/-- The positions of an area are passed through as they are in the box if and only if the area is
    bounded. -/
theorem yields_iff {a : Area} (hord : a.Ordered) : (∃ l, a.Yields l) ↔ a.Bounded := by
  constructor
  · rintro ⟨l, hl⟩
    by_contra hbound
    exact not_yields hord hbound l hl
  · intro hbound
    obtain ⟨l, hl, hnodup, hmem⟩ := visits_of_bounded hord hbound
    exact ⟨l, .of_mem_iff hl hnodup hmem⟩

/-- Two floors at the edge of the coordinates, where the end is on floor 0. -/
def edge : Area := ⟨⟨65533, 65534, 254⟩, ⟨65534, 65534, 255⟩⟩

theorem yields_edge : ∃ l, edge.Yields l :=
  (yields_iff ⟨by decide, by decide, by decide⟩).2 ⟨by decide, by decide, by decide⟩

/-- The square in the last column. -/
def lastColumn : Area := ⟨⟨65535, 1000, 7⟩, ⟨65535, 1000, 7⟩⟩

theorem not_yields_lastColumn : ¬∀ a : Area, a.Ordered → ∃ l, a.Yields l := by
  intro h
  have hord : lastColumn.Ordered := ⟨by decide, by decide, by decide⟩
  obtain ⟨l, hl⟩ := h lastColumn hord
  exact not_yields hord (fun hbound => hbound.1 rfl) l hl

end Area

end Canary.Map.Zones
