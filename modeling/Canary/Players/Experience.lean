import Canary.Lib.Levels
import Canary.Lib.Transition
import Mathlib.Tactic.Ring

/-!
# Levels and experience

A player gains and loses experience, and with it levels, each of which brings some health, mana
and capacity: up to level 8 those of a player without a vocation, then those of his vocation.

The player is consistent if his level is the greatest that his experience reaches, and what he
has is what he got when he levelled up to it (`Consistent`). This holds in every run that
does not lose a level for less, or more, than it has brought (`consistent_of_balanced`):
the loop of `removeExperience` takes the gains of level 8 for level 9, and that of `death` takes
those of the vocation for all of them.
-/

namespace Canary.Players

open Transition Levels

def VOCATION_NONE : UInt16 := 0

/-- What a vocation brings with a level. -/
structure Vocation where
  id : UInt16
  gainHP : UInt32
  gainMana : UInt32
  gainCap : UInt32

/-- The vocation of the player, and the one with the id `VOCATION_NONE`. -/
structure Vocations where
  own : Vocation
  none : Vocation

/-- What grows with the level. The numbers are kept as they are in memory: `healthMax` has a
    sign, the others have not. -/
structure Attributes where
  healthMax : UInt32
  manaMax : UInt32
  capacity : UInt32
  deriving DecidableEq

namespace Attributes

def gain (a : Attributes) (vocation : Vocation) : Attributes where
  healthMax := a.healthMax + vocation.gainHP
  manaMax := a.manaMax + vocation.gainMana
  capacity := a.capacity + vocation.gainCap

/-- `std::max<int32_t>(0, value)`. -/
def nonneg (value : UInt32) : UInt32 := if value < 0x80000000 then value else 0

def lose (a : Attributes) (vocation : Vocation) : Attributes where
  healthMax := nonneg (a.healthMax - vocation.gainHP)
  manaMax := nonneg (a.manaMax - vocation.gainMana)
  capacity := nonneg (a.capacity - vocation.gainCap)

end Attributes

structure Player extends Attributes where
  level : ℕ
  experience : UInt64
  health : UInt32
  mana : UInt32
  deriving DecidableEq

/-- The level is at least 1. -/
def getExpForLevel (level : ℕ) : UInt64 :=
  let lv : UInt64 := .ofNat (level - 1)
  (50 * lv * lv * lv - 150 * lv * lv + 400 * lv) / 3

namespace Player

/-- The loop of `addExperience`: a level is reached as long as there is a next one. -/
def levelUp (experience : UInt64) (vocation : ℕ → Vocation) (level : ℕ) (a : Attributes)
    (nextLevelExp : UInt64) : ℕ × Attributes :=
  if experience ≥ nextLevelExp then
    -- The player has reached the maximum level.
    if nextLevelExp ≥ getExpForLevel (level + 2) then (level + 1, a.gain (vocation (level + 1)))
    else
      levelUp experience vocation (level + 1) (a.gain (vocation (level + 1)))
        (getExpForLevel (level + 2))
  else (level, a)
termination_by experience.toNat + 1 - nextLevelExp.toNat
decreasing_by
  simp only [ge_iff_le, UInt64.le_iff_toNat_le, not_le] at *
  omega

/-- The loops of `removeExperience` and `death`: a level is lost for the gains that are found
    for the level before. -/
def levelDown (experience : UInt64) (vocation : ℕ → Vocation) : ℕ → Attributes → ℕ × Attributes
  | level + 2, a =>
    if experience < getExpForLevel (level + 2) then
      levelDown experience vocation (level + 1) (a.lose (vocation (level + 1)))
    else (level + 2, a)
  | level, a => (level, a)

/-- The level and what grows with it; after a change of the level, health and mana are full. -/
def setLevel (p : Player) : ℕ × Attributes → Player
  | (level, a) =>
    if level ≠ p.level then
      { p with toAttributes := a, level := level, health := a.healthMax, mana := a.manaMax }
    else { p with toAttributes := a }

variable (V : Vocations)

/-- The vocation whose gains `addExperience` and `removeExperience` take. -/
def gainsOf (level : ℕ) : Vocation :=
  if V.own.id ≠ VOCATION_NONE ∧ level ≤ 8 then V.none else V.own

/-- `hazard` is what the hazard system makes of the experience that its monsters give. -/
def addExperience (p : Player) (exp : UInt64) (hazard : UInt64 → UInt64) : Player :=
  let nextLevelExp := getExpForLevel (p.level + 1)
  -- The player has reached the maximum level.
  if getExpForLevel p.level ≥ nextLevelExp then p
  else if exp = 0 then p
  else
    let p := { p with experience := p.experience + hazard exp }
    p.setLevel (levelUp p.experience (gainsOf V) p.level p.toAttributes nextLevelExp)

/-- `std::max<int64_t>(0, value)`. -/
def nonneg (value : UInt64) : UInt64 := if value < 0x8000000000000000 then value else 0

def removeExperience (p : Player) (exp : UInt64) : Player :=
  if p.experience = 0 ∨ exp = 0 then p
  else
    let p := { p with experience := nonneg (p.experience - exp) }
    p.setLevel (levelDown p.experience (gainsOf V) p.level p.toAttributes)

/-- The loss of experience and levels, and what becomes of health and mana. -/
def death (p : Player) (expLoss : UInt64) (blackSkull : Bool) : Player :=
  let p :=
    if expLoss ≠ 0 then
      let p := if V.own.id = VOCATION_NONE ∨ p.level > 7 then
        { p with experience := p.experience - expLoss } else p
      let (level, a) := levelDown p.experience (fun _ => V.own) p.level p.toAttributes
      { p with toAttributes := a, level := level }
    else p
  if blackSkull then { p with health := 40, mana := 0 }
  else { p with health := p.healthMax, mana := p.manaMax }

end Player

/-! ## Experience -/

/-- The formula, without overflow. -/
def expForLevel (level : ℕ) : ℕ :=
  let lv := level - 1
  (50 * (lv * lv * lv) + 400 * lv - 150 * (lv * lv)) / 3

theorem expForLevel_succ (n : ℕ) :
    3 * expForLevel (n + 1) + 150 * (n * n) = 50 * (n * n * n) + 400 * n := by
  obtain ⟨k, hk⟩ : ∃ k, 3 * k + 150 * (n * n) = 50 * (n * n * n) + 400 * n := by
    induction n with
    | zero => exact ⟨0, rfl⟩
    | succ n ih =>
      obtain ⟨k, hk⟩ := ih
      have hn : n ≤ n * n := Nat.le_mul_self n
      have h₁ : (n + 1) * (n + 1) = n * n + 2 * n + 1 := by ring
      have h₂ : (n + 1) * (n + 1) * (n + 1) = n * n * n + 3 * (n * n) + 3 * n + 1 := by ring
      rw [h₁] at h₂ ⊢
      rw [h₂]
      exact ⟨k + (50 * (n * n) + 100 - 50 * n), by omega⟩
  have hdiv : expForLevel (n + 1) = k := by
    rw [expForLevel, Nat.add_sub_cancel]
    omega
  rw [hdiv, hk]

/-- What a level takes, from the second on. -/
theorem expForLevel_add_two (n : ℕ) :
    expForLevel (n + 1 + 1) + 50 * n = expForLevel (n + 1) + 50 * (n * n) + 100 := by
  have h₁ := expForLevel_succ n
  have h₂ := expForLevel_succ (n + 1)
  have hsq : (n + 1) * (n + 1) = n * n + 2 * n + 1 := by ring
  have hcube : (n + 1) * (n + 1) * (n + 1) = n * n * n + 3 * (n * n) + 3 * n + 1 := by ring
  rw [hsq] at hcube h₂
  rw [hcube] at h₂
  omega

/-- Every level takes more experience than the one before. -/
theorem expForLevel_lt (level : ℕ) (h : 1 ≤ level) :
    expForLevel level < expForLevel (level + 1) := by
  obtain ⟨n, rfl⟩ := Nat.exists_eq_add_of_le' h
  have hstep := expForLevel_add_two n
  have hn : n ≤ n * n := Nat.le_mul_self n
  omega

/-- The last level that the formula reaches. -/
def maxLevel : ℕ := 717217

theorem getExpForLevel_toNat {level : ℕ} (h : 1 ≤ level) (hmax : level ≤ maxLevel) :
    (getExpForLevel level).toNat = expForLevel level := by
  obtain ⟨n, rfl⟩ := Nat.exists_eq_add_of_le' h
  have hexp := expForLevel_succ n
  have hword : 50 * UInt64.ofNat n * UInt64.ofNat n * UInt64.ofNat n -
      150 * UInt64.ofNat n * UInt64.ofNat n + 400 * UInt64.ofNat n =
      UInt64.ofNat (3 * expForLevel (n + 1)) := by
    have hsum := congrArg UInt64.ofNat hexp
    simp only [UInt64.ofNat_add, UInt64.ofNat_mul] at hsum ⊢
    have h50 : UInt64.ofNat 50 = 50 := rfl
    have h150 : UInt64.ofNat 150 = 150 := rfl
    have h400 : UInt64.ofNat 400 = 400 := rfl
    rw [h50, h150, h400] at hsum
    generalize UInt64.ofNat n = lv at hsum ⊢
    generalize UInt64.ofNat 3 * UInt64.ofNat (expForLevel (n + 1)) = e at hsum ⊢
    clear hexp
    grind
  have hlt : 3 * expForLevel (n + 1) < 2 ^ 64 := by
    have hle := Levels.le_of_le expForLevel_lt h hmax
    have hmaxExp : 3 * expForLevel maxLevel < 2 ^ 64 := by decide
    omega
  rw [getExpForLevel, Nat.add_sub_cancel, hword, UInt64.toNat_div, UInt64.toNat_ofNat',
    Nat.mod_eq_of_lt hlt]
  exact Nat.mul_div_cancel_left _ (by decide)
/-- Up to the last level, levels are compared as without overflow. -/
theorem getExpForLevel_le_iff (experience : UInt64) {level : ℕ} (h : 1 ≤ level)
    (hmax : level ≤ maxLevel) :
    getExpForLevel level ≤ experience ↔ expForLevel level ≤ experience.toNat := by
  rw [UInt64.le_iff_toNat_le, getExpForLevel_toNat h hmax]

theorem lt_getExpForLevel_iff (experience : UInt64) {level : ℕ} (h : 1 ≤ level)
    (hmax : level ≤ maxLevel) :
    experience < getExpForLevel level ↔ experience.toNat < expForLevel level := by
  rw [UInt64.lt_iff_toNat_lt, getExpForLevel_toNat h hmax]

/-- Behind the last level the formula overflows, which makes it the maximum level. -/
theorem getExpForLevel_succ_le_iff {level : ℕ} (h : 1 ≤ level) (hmax : level ≤ maxLevel) :
    getExpForLevel (level + 1) ≤ getExpForLevel level ↔ level = maxLevel := by
  constructor
  · intro hle
    by_contra hne
    have hlt : level + 1 ≤ maxLevel := Nat.lt_of_le_of_ne hmax hne
    rw [getExpForLevel_le_iff _ (Nat.le_add_left 1 level) hlt,
      getExpForLevel_toNat h hmax] at hle
    exact absurd (expForLevel_lt level h) (Nat.not_lt.2 hle)
  · rintro rfl
    decide

/-! ## Attributes -/

variable (V : Vocations) (a₁ : Attributes)

/-- What a player has who has levelled up from level 1, where he had `a₁`. -/
def levelled : ℕ → Attributes
  | n + 2 => (levelled (n + 1)).gain (Player.gainsOf V (n + 2))
  | _ => a₁

theorem levelled_succ {level : ℕ} (h : 1 ≤ level) :
    levelled V a₁ (level + 1) = (levelled V a₁ level).gain (Player.gainsOf V (level + 1)) := by
  obtain ⟨n, rfl⟩ := Nat.exists_eq_add_of_le' h
  rfl

/-- Two vocations bring the same with a level. -/
def Vocation.SameGains (v w : Vocation) : Prop :=
  v.gainHP = w.gainHP ∧ v.gainMana = w.gainMana ∧ v.gainCap = w.gainCap

instance (v w : Vocation) : Decidable (v.SameGains w) := inferInstanceAs (Decidable (_ ∧ _))

/-- Nothing is below 0 when it is taken for a number with a sign. -/
def Attributes.Nonneg (a : Attributes) : Prop :=
  a.healthMax < 0x80000000 ∧ a.manaMax < 0x80000000 ∧ a.capacity < 0x80000000

instance (a : Attributes) : Decidable a.Nonneg := inferInstanceAs (Decidable (_ ∧ _))

/-- What a level has brought is lost with it. -/
theorem Attributes.lose_gain {a : Attributes} {v w : Vocation} (ha : a.Nonneg)
    (h : w.SameGains v) : (a.gain v).lose w = a := by
  obtain ⟨hhealth, hmana, hcap⟩ := ha
  obtain ⟨hHP, hMana, hCap⟩ := h
  rw [gain, lose, hHP, hMana, hCap]
  simp only [UInt32.add_sub_cancel, nonneg, if_pos hhealth, if_pos hmana, if_pos hcap]

namespace Player

/-- The loop of `addExperience` ends at the level of the experience. -/
theorem levelUp_spec {experience : UInt64} {level : ℕ} (h : 1 ≤ level) (hmax : level < maxLevel)
    (hle : expForLevel level ≤ experience.toNat)
    (hfit : experience.toNat < expForLevel (maxLevel + 1)) :
    ∃ l, levelUp experience (gainsOf V) level (levelled V a₁ level)
        (getExpForLevel (level + 1)) = (l, levelled V a₁ l) ∧
      1 ≤ l ∧ l ≤ maxLevel ∧ IsLevel expForLevel experience.toNat l := by
  obtain ⟨k, hk⟩ := Nat.exists_eq_add_of_lt hmax
  induction k generalizing level with
  | zero =>
    -- The next level is the maximum level.
    have hiff := getExpForLevel_le_iff experience (Nat.le_add_left 1 level) hmax
    rw [levelUp]
    by_cases hnext : expForLevel (level + 1) ≤ experience.toNat
    · have hlast := (getExpForLevel_succ_le_iff (Nat.le_add_left 1 level) hmax).2 hk.symm
      rw [if_pos (hiff.2 hnext), if_pos hlast, ← levelled_succ V a₁ h]
      exact ⟨level + 1, rfl, Nat.le_add_left 1 level, hmax, hnext, hk ▸ hfit⟩
    · rw [if_neg (hiff.not.2 hnext)]
      exact ⟨level, rfl, h, Nat.le_of_lt hmax, hle, Nat.lt_of_not_le hnext⟩
  | succ k ih =>
    have hiff := getExpForLevel_le_iff experience (Nat.le_add_left 1 level) hmax
    rw [levelUp]
    by_cases hnext : expForLevel (level + 1) ≤ experience.toNat
    · have hmore := (getExpForLevel_succ_le_iff (Nat.le_add_left 1 level) hmax).not.2 (by omega)
      rw [if_pos (hiff.2 hnext), if_neg hmore, ← levelled_succ V a₁ h]
      exact ih (Nat.le_add_left 1 level) (by omega) hnext (by omega)
    · rw [if_neg (hiff.not.2 hnext)]
      exact ⟨level, rfl, h, Nat.le_of_lt hmax, hle, Nat.lt_of_not_le hnext⟩

variable {V a₁}

/-- The loops that lose levels end at the level of the experience that is left, if the levels
    that are lost were worth what is lost with them. -/
theorem levelDown_spec {experience : UInt64} {vocation : ℕ → Vocation} {level : ℕ} (h : 1 ≤ level)
    (hmax : level ≤ maxLevel) (hlt : experience.toNat < expForLevel (level + 1))
    (hlost : ∀ l < level, 1 ≤ l → experience.toNat < expForLevel (l + 1) →
      (vocation l).SameGains (gainsOf V (l + 1)) ∧ (levelled V a₁ l).Nonneg) :
    ∃ l, levelDown experience vocation level (levelled V a₁ level) = (l, levelled V a₁ l) ∧
      1 ≤ l ∧ l ≤ maxLevel ∧ IsLevel expForLevel experience.toNat l := by
  obtain ⟨n, rfl⟩ := Nat.exists_eq_add_of_le' h
  induction n with
  | zero => exact ⟨1, rfl, h, hmax, Nat.zero_le _, hlt⟩
  | succ n ih =>
    have hiff := lt_getExpForLevel_iff experience h hmax
    rw [levelDown]
    by_cases hless : experience.toNat < expForLevel (n + 1 + 1)
    · obtain ⟨hsame, hnonneg⟩ := hlost (n + 1) (Nat.lt_succ_self _) (Nat.le_add_left 1 n) hless
      rw [if_pos (hiff.2 hless), levelled_succ V a₁ (Nat.le_add_left 1 n),
        Attributes.lose_gain hnonneg hsame]
      exact ih (Nat.le_add_left 1 n) (Nat.le_of_succ_le hmax) hless fun l hl =>
        hlost l (Nat.lt_succ_of_lt hl)
    · rw [if_neg (hiff.not.2 hless)]
      exact ⟨n + 1 + 1, rfl, h, hmax, Nat.le_of_not_lt hless, hlt⟩

theorem setLevel_spec (p : Player) (l : ℕ) (a : Attributes) :
    (p.setLevel (l, a)).level = l ∧ (p.setLevel (l, a)).toAttributes = a ∧
      (p.setLevel (l, a)).experience = p.experience := by
  rw [setLevel]
  split
  · exact ⟨rfl, rfl, rfl⟩
  · next h => exact ⟨(not_not.1 h).symm, rfl, rfl⟩

/-! ## Runs -/

/-- The calls. -/
inductive Op
  | addExperience (exp : UInt64) (hazard : UInt64 → UInt64)
  | removeExperience (exp : UInt64)
  | death (expLoss : UInt64) (blackSkull : Bool)

variable (V a₁)

/-- A player who starts at level 1, with the attributes `a₁`. -/
def system : System Player Op where
  init p := p.level = 1 ∧ p.experience.toNat < expForLevel 2 ∧ p.toAttributes = a₁
  step p op p' :=
    match op with
    | .addExperience exp hazard => p' = p.addExperience V exp hazard
    | .removeExperience exp => p' = p.removeExperience V exp
    | .death expLoss blackSkull => p' = p.death V expLoss blackSkull

/-- The level is that of the experience, and the player has what he got on the way to it. -/
structure Consistent (p : Player) : Prop where
  level : IsGreatest {l | 1 ≤ l ∧ expForLevel l ≤ p.experience.toNat} p.level
  attributes : p.toAttributes = levelled V a₁ p.level

/-- With the experience `left` the player does not reach another level, and for the levels that
    he loses he loses what they brought, which was nothing below 0. -/
def Restores (p : Player) (vocation : ℕ → Vocation) (left : UInt64) : Prop :=
  left.toNat < expForLevel (p.level + 1) ∧
    ∀ l < p.level, 1 ≤ l → left.toNat < expForLevel (l + 1) →
      (vocation l).SameGains (gainsOf V (l + 1)) ∧ (levelled V a₁ l).Nonneg

/-- The experience stays below what the formula reaches, and losses restore what was gained. -/
def Balanced (p : Player) : Op → Prop
  | .addExperience exp hazard => p.level ≠ maxLevel → exp ≠ 0 →
    p.experience.toNat + (hazard exp).toNat < expForLevel (maxLevel + 1)
  | .removeExperience exp => p.experience ≠ 0 → exp ≠ 0 →
    Restores V a₁ p (gainsOf V) (nonneg (p.experience - exp))
  | .death expLoss _ => expLoss ≠ 0 →
    Restores V a₁ p (fun _ => V.own)
      (if V.own.id = VOCATION_NONE ∨ p.level > 7 then p.experience - expLoss else p.experience)

/-- What holds in such a run. -/
structure Levelled (p : Player) : Prop where
  pos : 1 ≤ p.level
  le : p.level ≤ maxLevel
  isLevel : IsLevel expForLevel p.experience.toNat p.level
  attributes : p.toAttributes = levelled V a₁ p.level

variable {V a₁}

theorem Levelled.setLevel {p : Player} {l : ℕ} (hpos : 1 ≤ l) (hle : l ≤ maxLevel)
    (hl : IsLevel expForLevel p.experience.toNat l) :
    Levelled V a₁ (p.setLevel (l, levelled V a₁ l)) := by
  obtain ⟨hlevel, hattributes, hexp⟩ := p.setLevel_spec l (levelled V a₁ l)
  exact ⟨by rwa [hlevel], by rwa [hlevel], by rwa [hexp, hlevel], by rw [hattributes, hlevel]⟩

theorem addExperience_spec {p : Player} (h : Levelled V a₁ p) {exp : UInt64}
    {hazard : UInt64 → UInt64} (hok : Balanced V a₁ p (.addExperience exp hazard)) :
    Levelled V a₁ (p.addExperience V exp hazard) := by
  rw [addExperience]
  have hmax := getExpForLevel_succ_le_iff h.pos h.le
  by_cases hlast : p.level = maxLevel
  · rw [if_pos (hmax.2 hlast)]
    exact h
  rw [if_neg (hmax.not.2 hlast)]
  by_cases hexp : exp = 0
  · rw [if_pos hexp]
    exact h
  rw [if_neg hexp]
  dsimp only
  have hfit := hok hlast hexp
  have hbound : expForLevel (maxLevel + 1) < 2 ^ 64 := by decide
  have hsum : (p.experience + hazard exp).toNat = p.experience.toNat + (hazard exp).toNat := by
    rw [UInt64.toNat_add]
    exact Nat.mod_eq_of_lt (by omega)
  have hle : expForLevel p.level ≤ (p.experience + hazard exp).toNat := by
    rw [hsum]
    exact Nat.le_trans h.isLevel.le (Nat.le_add_right _ _)
  rw [h.attributes]
  obtain ⟨l, hup, hpos, hlmax, hl⟩ := levelUp_spec V a₁ h.pos
    (Nat.lt_of_le_of_ne h.le hlast) hle (hsum ▸ hfit)
  rw [hup]
  exact .setLevel hpos hlmax hl

theorem removeExperience_spec {p : Player} (h : Levelled V a₁ p) {exp : UInt64}
    (hok : Balanced V a₁ p (.removeExperience exp)) :
    Levelled V a₁ (p.removeExperience V exp) := by
  rw [removeExperience]
  split
  · exact h
  next hne =>
    obtain ⟨hexp, hexp'⟩ := not_or.1 hne
    obtain ⟨hlt, hlost⟩ := hok hexp hexp'
    dsimp only
    rw [h.attributes]
    obtain ⟨l, hdown, hpos, hlmax, hl⟩ := levelDown_spec h.pos h.le hlt hlost
    rw [hdown]
    exact .setLevel hpos hlmax hl

theorem death_spec {p : Player} (h : Levelled V a₁ p) {expLoss : UInt64} {blackSkull : Bool}
    (hok : Balanced V a₁ p (.death expLoss blackSkull)) :
    Levelled V a₁ (p.death V expLoss blackSkull) := by
  -- Health and mana do not matter.
  suffices hq : ∀ q : Player, Levelled V a₁ q → Levelled V a₁
      (if blackSkull then { q with health := 40, mana := 0 }
        else { q with health := q.healthMax, mana := q.manaMax }) by
    rw [death]
    refine hq _ ?_
    split
    · next hne =>
      obtain ⟨hlt, hlost⟩ := hok hne
      -- The experience alone depends on the vocation and the level.
      have hp : (if V.own.id = VOCATION_NONE ∨ p.level > 7 then
          { p with experience := p.experience - expLoss } else p) =
          { p with experience := if V.own.id = VOCATION_NONE ∨ p.level > 7 then
            p.experience - expLoss else p.experience } := by
        split
        · rfl
        · rfl
      rw [hp]
      dsimp only
      rw [h.attributes]
      obtain ⟨l, hdown, hpos, hlmax, hl⟩ := levelDown_spec h.pos h.le hlt hlost
      rw [hdown]
      exact ⟨hpos, hlmax, hl, rfl⟩
    · exact h
  intro q hq
  split
  · exact ⟨hq.pos, hq.le, hq.isLevel, hq.attributes⟩
  · exact ⟨hq.pos, hq.le, hq.isLevel, hq.attributes⟩

theorem Levelled.consistent {p : Player} (h : Levelled V a₁ p) : Consistent V a₁ p :=
  ⟨h.isLevel.isGreatest expForLevel_lt h.pos, h.attributes⟩

theorem levelled_of_reachable {p : Player}
    (hp : (system V a₁).ReachableVia (Balanced V a₁) p) : Levelled V a₁ p := by
  refine hp.invariant ?_ ?_
  · rintro p ⟨hlevel, hexp, hattributes⟩
    refine ⟨Nat.le_of_eq hlevel.symm, ?_, ⟨?_, ?_⟩, ?_⟩
    · rw [hlevel]
      decide
    · rw [hlevel]
      exact Nat.zero_le _
    · rwa [hlevel]
    · rw [hlevel, hattributes]
      rfl
  · intro p op p' h hok hstep
    cases op with
    | addExperience exp hazard =>
      obtain rfl : p' = p.addExperience V exp hazard := hstep
      exact addExperience_spec h hok
    | removeExperience exp =>
      obtain rfl : p' = p.removeExperience V exp := hstep
      exact removeExperience_spec h hok
    | death expLoss blackSkull =>
      obtain rfl : p' = p.death V expLoss blackSkull := hstep
      exact death_spec h hok

/-- In a run whose losses restore what was gained, the player is consistent, and with the same
    experience he always has the same level and the same attributes. -/
theorem consistent_of_balanced {p : Player}
    (hp : (system V a₁).ReachableVia (Balanced V a₁) p) :
    Consistent V a₁ p ∧ ∀ p', (system V a₁).ReachableVia (Balanced V a₁) p' →
      p'.experience = p.experience → p'.level = p.level ∧ p'.toAttributes = p.toAttributes := by
  have h := levelled_of_reachable hp
  refine ⟨h.consistent, fun p' hp' hexp => ?_⟩
  have h' := levelled_of_reachable hp'
  have hlevel : p'.level = p.level :=
    (hexp ▸ h'.isLevel).unique h.isLevel expForLevel_lt h'.pos h.pos
  exact ⟨hlevel, by rw [h'.attributes, h.attributes, hlevel]⟩

/-! A knight. -/

def knight : Vocations where
  own := { id := 4, gainHP := 15, gainMana := 5, gainCap := 2500 }
  none := { id := VOCATION_NONE, gainHP := 5, gainMana := 5, gainCap := 1000 }

def beginner : Player where
  healthMax := 150
  manaMax := 55
  capacity := 40000
  level := 1
  experience := 0
  health := 150
  mana := 55

theorem init_beginner : (system knight beginner.toAttributes).init beginner :=
  ⟨rfl, by decide, rfl⟩

/-- He reaches level 10, and loses a level again. -/
theorem consistent_knight_removeExperience :
    Consistent knight beginner.toAttributes
      ((beginner.addExperience knight 10000 id).removeExperience knight 1000) := by
  have h₀ : (system knight beginner.toAttributes).ReachableVia
      (Balanced knight beginner.toAttributes) beginner := .init init_beginner
  have hadd : Balanced knight beginner.toAttributes beginner (.addExperience 10000 id) :=
    fun _ _ => by decide
  have h₁ := h₀.step hadd rfl
  have hremove : Balanced knight beginner.toAttributes (beginner.addExperience knight 10000 id)
      (.removeExperience 1000) := by
    intro _ _
    exact ⟨by decide +kernel, by decide +kernel⟩
  exact (consistent_of_balanced (h₁.step hremove rfl)).1

/-- When level 9 is lost, a knight loses the health of a player without a vocation. -/
theorem knight_keeps_health :
    ∃ p, (system knight beginner.toAttributes).Reachable p ∧
      p.experience = 6399 ∧ p.level = 8 ∧ p.healthMax = 195 ∧
      (levelled knight beginner.toAttributes 8).healthMax = 185 ∧
      ¬ Consistent knight beginner.toAttributes p := by
  refine ⟨(beginner.addExperience knight 6400 id).removeExperience knight 1, ?_, ?_⟩
  · have h₀ : (system knight beginner.toAttributes).Reachable beginner := .init init_beginner
    have h₁ : (system knight beginner.toAttributes).Reachable
        (beginner.addExperience knight 6400 id) :=
      h₀.step (a := .addExperience 6400 id) trivial rfl
    exact h₁.step (a := .removeExperience 1) trivial rfl
  · have hlevel : ((beginner.addExperience knight 6400 id).removeExperience knight 1).level =
        8 := by decide +kernel
    have hhealth : ((beginner.addExperience knight 6400 id).removeExperience knight 1).healthMax =
        195 := by decide +kernel
    refine ⟨by decide +kernel, hlevel, hhealth, rfl, fun h => ?_⟩
    have hattributes := congrArg Attributes.healthMax h.attributes
    rw [hhealth, hlevel] at hattributes
    exact absurd hattributes (by decide)

/-- In `death`, the levels up to 8 cost the health of the vocation. -/
example : ((beginner.addExperience knight 5000 id).death knight 2000 false).healthMax = 170 ∧
    (beginner.addExperience knight 3000 id).healthMax = 180 := by
  decide +kernel

/-- A loss of more than `int64_t` holds is a gain, which makes no level. -/
example : ((beginner.addExperience knight 50 id).removeExperience knight (2 ^ 64 - 60)).level = 1 ∧
    ((beginner.addExperience knight 50 id).removeExperience knight (2 ^ 64 - 60)).experience =
      110 := by
  decide +kernel

end Player

end Canary.Players
