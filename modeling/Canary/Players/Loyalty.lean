import Canary.Players.Skills

/-!
# Loyalty

Loyal players get a bonus on their skills: a part of all tries that they ever made counts once more.
`getLoyaltySkill` adds the bonus to the tries of the level, in 128 bits, and takes the tries of one
level after the other off it, until the next level is not reached or there is none.

The level that it returns is the greatest one up to the maximum whose total the tries reach with
the bonus (`isGreatest_getLoyaltySkill`), as long as what is got from the caches of the vocation
was not cut. So it is not below the level of the player, and more tries or a greater bonus never
make it less. Where the next level takes more than fits into 32 bits, a second call returns less
than the first one (`loyalty_falls`).
-/

namespace Canary.Players

/-- The totals that were asked for. -/
abbrev Totals := ℕ → Option (BitVec 128)

namespace Requirement

variable (r : Requirement)

/-- A word as an `absl::uint128`. -/
def wide (tries : UInt64) : BitVec 128 := tries.toBitVec.setWidth 128

/-- The loop of the totals; levels up to the first one add nothing. -/
def totalTries (cache : Cache) : ℕ → BitVec 128 × Cache
  | 0 => (0, cache)
  | level + 1 =>
    let total := totalTries cache level
    let tries := r.get total.2 (level + 1)
    (total.1 + wide tries.1, tries.2)

/-- `Vocation::getTotalSkillTries`, which has a cache of its own. -/
def getTotalSkillTries (totals : Totals) (cache : Cache) (level : ℕ) :
    BitVec 128 × Totals × Cache :=
  match totals level with
  | some total => (total, totals, cache)
  | none =>
    let total := r.totalTries cache level
    (total.1, Function.update totals level (some total.1), total.2)

/-- The loop of the bonus. The level does not wrap around: behind the last number there is no next
    level. -/
def loyaltyLevel (cache : Cache) (level : ℕ) (tries loyaltyTries nextReqTries : BitVec 128) :
    ℕ × Cache :=
  if tries + loyaltyTries ≥ nextReqTries then
    -- The bonus reaches the maximum level.
    if nextReqTries ≥ wide (r.next cache (level + 1)).1 then
      (level + 1, (r.next cache (level + 1)).2)
    else
      loyaltyLevel (r.next cache (level + 1)).2 (level + 1) 0
        (loyaltyTries - (nextReqTries - tries)) (wide (r.next cache (level + 1)).1)
  else (level, cache)
termination_by 2 ^ 64 - nextReqTries.toNat
decreasing_by
  have hlt := (r.next cache (level + 1)).1.toNat_lt
  simp only [ge_iff_le, BitVec.le_def, not_le, wide, BitVec.toNat_setWidth,
    UInt64.toNat_toBitVec] at *
  omega

def loyaltySkill (totals : Totals) (cache : Cache) (s : Skill) (loyaltyBonus : UInt16) :
    ℕ × Totals × Cache :=
  let currReqTries := r.get cache s.level
  let nextReqTries := r.next currReqTries.2 s.level
  if wide currReqTries.1 ≥ wide nextReqTries.1 then (s.level, totals, nextReqTries.2)
  else
    let total := r.getTotalSkillTries totals nextReqTries.2 s.level
    let totalTries := total.1 + wide s.tries
    let loyaltyTries := totalTries * loyaltyBonus.toBitVec.setWidth 128 / 100
    let level := r.loyaltyLevel total.2.2 s.level (wide s.tries) loyaltyTries (wide nextReqTries.1)
    (level.1, total.2.1, level.2)

end Requirement

/-- A player, and the totals that the vocation has in its cache. -/
structure Loyal extends Pupil where
  cacheSkillTotal : Skills → Totals

/-- `Player::getLoyaltySkill`: the level, and the player with the caches after that. -/
def Loyal.getLoyaltySkill (V : Requirements) (p : Loyal) (loyaltyBonus : UInt16)
    (skill : Skills) : ℕ × Loyal :=
  let level := (V.skill skill).loyaltySkill (p.cacheSkillTotal skill) (p.cacheSkill skill)
    (p.skills skill) loyaltyBonus
  (level.1, { p with
    cacheSkillTotal := Function.update p.cacheSkillTotal skill level.2.1
    cacheSkill := Function.update p.cacheSkill skill level.2.2 })

namespace Requirement

/-! ## Levels up to a maximum -/

/-- A level up to the maximum, with tries below those of the next level. -/
structure Below (r : Requirement) (maxLevel : ℕ) (s : Skill) : Prop where
  level_le : s.level ≤ maxLevel
  tries_lt : s.level < maxLevel → s.tries < r.req (s.level + 1)

variable {r : Requirement} {totals : Totals} {cache : Cache} {maxLevel : ℕ} {s : Skill}

/-- A level that is reached, with a next one that is not, is the greatest one. -/
theorem isGreatest_of_reached {x level : ℕ} (hle : level ≤ maxLevel) (hreach : r.sum level ≤ x)
    (hnext : level < maxLevel → x < r.sum (level + 1)) :
    IsGreatest {level | level ≤ maxLevel ∧ r.sum level ≤ x} level := by
  refine ⟨⟨hle, hreach⟩, fun level' ⟨hle', hreach'⟩ => ?_⟩
  by_contra hlt
  have hlt : level < level' := Nat.lt_of_not_le hlt
  have hx := hnext (Nat.lt_of_lt_of_le hlt hle')
  exact absurd (Nat.le_trans (sum_mono hlt) hreach') (Nat.not_le_of_lt hx)

/-! ## Wide numbers -/

theorem toNat_wide (tries : UInt64) : (wide tries).toNat = tries.toNat := by
  rw [wide, BitVec.toNat_setWidth, UInt64.toNat_toBitVec]
  exact Nat.mod_eq_of_lt (Nat.lt_trans tries.toNat_lt (by decide))

theorem wide_le_wide {tries tries' : UInt64} : wide tries ≤ wide tries' ↔ tries ≤ tries' := by
  rw [BitVec.le_def, toNat_wide, toNat_wide, UInt64.le_iff_toNat_le]

/-- The totals are far from 128 bits. -/
theorem sum_le (r : Requirement) (level : ℕ) : r.sum level ≤ level * 2 ^ 64 := by
  induction level with
  | zero => exact Nat.zero_le _
  | succ level ih =>
    have hlt := (r.req (level + 1)).toNat_lt
    rw [sum]
    omega

/-- The total of levels whose numbers are not cut. -/
theorem totalTries_spec (hkept : r.Kept cache) {level : ℕ} (hlt : level < 2 ^ 32)
    (hfits : ∀ l, r.minLevel < l → l ≤ level → r.kept (r.tries l) = r.tries l) :
    (r.totalTries cache level).1.toNat = r.sum level ∧ r.Kept (r.totalTries cache level).2 ∧
      ∀ l, level < l → (r.totalTries cache level).2 l = cache l := by
  induction level with
  | zero => exact ⟨rfl, hkept, fun _ _ => rfl⟩
  | succ level ih =>
    obtain ⟨hsum, hkept', hother⟩ := ih (Nat.lt_of_succ_lt hlt)
      fun l hl hle => hfits l hl (Nat.le_succ_of_le hle)
    have hgot := get_spec hkept' (level + 1)
    have hreq := hgot.eq fun hmin => .inr (hfits _ hmin (Nat.le_refl _))
    have hle := r.sum_le (level + 1)
    rw [sum] at hle
    simp only [totalTries]
    refine ⟨?_, hgot.kept, fun l hl => ?_⟩
    · rw [hreq, BitVec.toNat_add, hsum, toNat_wide, sum]
      exact Nat.mod_eq_of_lt (by omega)
    · rw [hgot.other l (by omega), hother l (by omega)]

/-! ## The loop -/

/-- What is left of the bonus at the next level. -/
theorem toNat_left {tries loyaltyTries next : BitVec 128} (hlt : tries < next)
    (hfit : tries.toNat + loyaltyTries.toNat < 2 ^ 128) (hreach : tries + loyaltyTries ≥ next) :
    next.toNat + (loyaltyTries - (next - tries)).toNat = tries.toNat + loyaltyTries.toNat := by
  rw [ge_iff_le, BitVec.le_def, BitVec.toNat_add_of_lt hfit] at hreach
  have hsub : (next - tries).toNat = next.toNat - tries.toNat :=
    BitVec.toNat_sub_of_le (BitVec.le_of_lt hlt)
  rw [BitVec.lt_def] at hlt
  have hle : next - tries ≤ loyaltyTries := by
    rw [BitVec.le_def, hsub]
    omega
  rw [BitVec.toNat_sub_of_le hle, hsub]
  omega

/-- The tries and the bonus together stay the same, counted from the first level. -/
theorem isGreatest_loyaltyLevel (h : r.UpTo maxLevel) {level : ℕ}
    {tries loyaltyTries nextReqTries : BitVec 128} (hkept : r.Kept cache)
    (hmin : r.minLevel ≤ level) (hlt : level < maxLevel)
    (hnext : nextReqTries = wide (r.req (level + 1))) (htries : tries < nextReqTries)
    (hfit : tries.toNat + loyaltyTries.toNat < 2 ^ 128)
    (hexact : ∀ l, level < l → l < maxLevel →
      r.sum l ≤ r.sum level + (tries.toNat + loyaltyTries.toNat) → r.Exact cache (l + 1)) :
    IsGreatest {l | l ≤ maxLevel ∧ r.sum l ≤ r.sum level + (tries.toNat + loyaltyTries.toNat)}
        (r.loyaltyLevel cache level tries loyaltyTries nextReqTries).1 ∧
      r.Kept (r.loyaltyLevel cache level tries loyaltyTries nextReqTries).2 := by
  have hsum : r.sum (level + 1) = r.sum level + nextReqTries.toNat := by
    rw [sum, hnext, toNat_wide]
  fun_induction loyaltyLevel with
  | case1 cache level tries loyaltyTries nextReqTries hreach hend =>
    have hleft := toNat_left htries hfit hreach
    have hreached : r.sum (level + 1) ≤ r.sum level + (tries.toNat + loyaltyTries.toNat) := by
      rw [hsum]
      omega
    -- The loop breaks where the requirement does not grow: at the last level only.
    have hmax : level + 1 = maxLevel := by
      by_contra hne
      have hlt' : level + 1 < maxLevel := Nat.lt_of_le_of_ne hlt hne
      have hgrow := h.req_lt_next hkept (Nat.le_succ_of_le hmin) hlt'
        (hexact _ (Nat.lt_succ_self _) hlt' hreached)
      rw [hnext, ge_iff_le, wide_le_wide] at hend
      exact absurd hgrow (UInt64.not_lt.2 hend)
    exact ⟨isGreatest_of_reached hlt hreached fun hlt' => absurd hmax (Nat.ne_of_lt hlt'),
      kept_next hkept _⟩
  | case2 cache level tries loyaltyTries nextReqTries hreach hend ih =>
    have hleft := toNat_left htries hfit hreach
    have hne : level + 1 ≠ maxLevel := fun hmax => hend (by
      rw [hnext, ge_iff_le, wide_le_wide, hmax]
      exact h.next_last_le hkept)
    have hlt' : level + 1 < maxLevel := Nat.lt_of_le_of_ne hlt hne
    have hgot := h.next_spec hkept hlt'
    have hreq := hgot.eq (hexact _ (Nat.lt_succ_self _) hlt' (by rw [hsum]; omega))
    have hpos : 0 < r.req (level + 1 + 1) :=
      UInt64.lt_of_le_of_lt UInt64.zero_le (h.growing _ (Nat.le_succ_of_le hmin) hlt')
    have hwide : 0 < wide (r.req (level + 1 + 1)) := by
      rw [BitVec.lt_def, toNat_wide]
      exact UInt64.lt_iff_toNat_lt.1 hpos
    have hzero : (0 : BitVec 128).toNat = 0 := rfl
    -- What is left over counts from the level reached.
    have htotal : r.sum (level + 1) + (0 + (loyaltyTries - (nextReqTries - tries)).toNat) =
        r.sum level + (tries.toNat + loyaltyTries.toNat) := by
      rw [hsum]
      omega
    rw [hreq, hzero, htotal] at ih
    rw [hreq]
    exact ih hgot.kept (Nat.le_succ_of_le hmin) hlt' rfl hwide
      (by rw [Nat.zero_add]; exact BitVec.isLt _)
      (fun l hl hmax hreached => (hexact l (Nat.lt_of_succ_lt hl) hmax hreached).other hgot
        (by omega)) (by rw [sum, toNat_wide])
  | case3 cache level tries loyaltyTries nextReqTries hreach =>
    refine ⟨isGreatest_of_reached (Nat.le_of_lt hlt) (Nat.le_add_right _ _) fun _ => ?_, hkept⟩
    rw [ge_iff_le, BitVec.le_def, BitVec.toNat_add_of_lt hfit] at hreach
    rw [hsum]
    omega

/-! ## The result -/

/-- All tries that were made, with the bonus. -/
def loyaltyTotal (r : Requirement) (s : Skill) (loyaltyBonus : UInt16) : ℕ :=
  r.total s + r.total s * loyaltyBonus.toNat / 100

theorem loyaltyTotal_mono {s s' : Skill} {loyaltyBonus loyaltyBonus' : UInt16}
    (hs : r.total s ≤ r.total s') (hbonus : loyaltyBonus ≤ loyaltyBonus') :
    r.loyaltyTotal s loyaltyBonus ≤ r.loyaltyTotal s' loyaltyBonus' :=
  Nat.add_le_add hs (Nat.div_le_div_right
    (Nat.mul_le_mul hs (UInt16.le_iff_toNat_le.1 hbonus)))

theorem sum_le_loyaltyTotal (s : Skill) (loyaltyBonus : UInt16) :
    r.sum s.level ≤ r.loyaltyTotal s loyaltyBonus := by
  rw [loyaltyTotal, total, Nat.add_assoc]
  exact Nat.le_add_right _ _

theorem total_lt (r : Requirement) {s : Skill} (hlevel : s.level < 2 ^ 16) :
    r.total s < 2 ^ 80 := by
  have hsum := r.sum_le s.level
  have htries := s.tries.toNat_lt
  rw [total]
  omega

theorem toNat_loyaltyTries {totalTries : BitVec 128} (hlt : totalTries.toNat < 2 ^ 80)
    (loyaltyBonus : UInt16) :
    (totalTries * loyaltyBonus.toBitVec.setWidth 128 / 100).toNat =
      totalTries.toNat * loyaltyBonus.toNat / 100 := by
  have hbonus : (loyaltyBonus.toBitVec.setWidth 128).toNat = loyaltyBonus.toNat := by
    rw [BitVec.toNat_setWidth, UInt16.toNat_toBitVec]
    exact Nat.mod_eq_of_lt (Nat.lt_trans loyaltyBonus.toNat_lt (by decide))
  have hmul : totalTries.toNat * loyaltyBonus.toNat < 2 ^ 80 * 2 ^ 16 :=
    Nat.mul_lt_mul'' hlt loyaltyBonus.toNat_lt
  rw [BitVec.toNat_udiv, BitVec.toNat_mul, hbonus,
    Nat.mod_eq_of_lt (Nat.lt_trans hmul (by decide))]
  rfl

theorem below_minLevel (h : r.UpTo maxLevel) (hs : r.Below maxLevel s) :
    r.minLevel ≤ s.level := by
  by_contra hlt
  have hlt : s.level < r.minLevel := Nat.lt_of_not_le hlt
  have htries := hs.tries_lt (Nat.lt_of_lt_of_le hlt h.minLevel_le)
  rw [req, if_pos (Nat.succ_le_of_lt hlt)] at htries
  exact absurd htries (UInt64.not_lt.2 UInt64.zero_le)

/-- What is got is not cut: the numbers for the levels that are reached with the bonus and for the
    one behind them are not in the cache, or fit. The total is in its cache as it is, or the numbers
    of all levels that it is the sum of fit. -/
structure BonusFits (r : Requirement) (maxLevel : ℕ) (totals : Totals) (cache : Cache) (s : Skill)
    (loyaltyBonus : UInt16) : Prop where
  last : s.level = maxLevel → r.Exact cache maxLevel
  total : s.level < maxLevel → totals s.level = some (.ofNat 128 (r.sum s.level)) ∨
    totals s.level = none ∧
      ∀ level, r.minLevel < level → level ≤ s.level → r.kept (r.tries level) = r.tries level
  exact : ∀ level, s.level ≤ level → level < maxLevel →
    r.sum level ≤ r.loyaltyTotal s loyaltyBonus → r.Exact cache (level + 1)

theorem getTotalSkillTries_spec (hkept : r.Kept cache) (hlevel : s.level < 2 ^ 16)
    (hfits : totals s.level = some (.ofNat 128 (r.sum s.level)) ∨ totals s.level = none ∧
      ∀ level, r.minLevel < level → level ≤ s.level → r.kept (r.tries level) = r.tries level) :
    let total := r.getTotalSkillTries totals cache s.level
    total.1.toNat = r.sum s.level ∧ r.Kept total.2.2 ∧
      ∀ l, s.level < l → total.2.2 l = cache l := by
  simp only [getTotalSkillTries]
  rcases hfits with hsome | ⟨hnone, hfits⟩
  · rw [hsome]
    have hlt := r.total_lt hlevel
    rw [Requirement.total] at hlt
    refine ⟨?_, hkept, fun _ _ => rfl⟩
    rw [BitVec.toNat_ofNat]
    exact Nat.mod_eq_of_lt (by omega)
  · rw [hnone]
    exact totalTries_spec hkept (Nat.lt_trans hlevel (by decide)) hfits

theorem isGreatest_loyaltySkill (h : r.UpTo maxLevel) (hwidth : r.width ≤ 16)
    (hs : r.Below maxLevel s) (hkept : r.Kept cache) {loyaltyBonus : UInt16}
    (hfits : r.BonusFits maxLevel totals cache s loyaltyBonus) :
    IsGreatest {level | level ≤ maxLevel ∧ r.sum level ≤ r.loyaltyTotal s loyaltyBonus}
        (r.loyaltySkill totals cache s loyaltyBonus).1 ∧
      r.Kept (r.loyaltySkill totals cache s loyaltyBonus).2.2 := by
  have hmin := below_minLevel h hs
  have hreach : r.sum s.level ≤ r.loyaltyTotal s loyaltyBonus :=
    sum_le_loyaltyTotal s loyaltyBonus
  have hcurr := get_spec hkept s.level
  simp only [loyaltySkill, ge_iff_le, wide_le_wide]
  rcases Nat.eq_or_lt_of_le hs.level_le with hend | hlt
  · have hle : (r.next (r.get cache s.level).2 s.level).1 ≤ (r.get cache s.level).1 := by
      rw [hcurr.eq (hend ▸ hfits.last hend), hend]
      exact h.next_last_le (hend ▸ hcurr.kept)
    rw [if_pos hle]
    exact ⟨isGreatest_of_reached hs.level_le hreach fun hlt => absurd hend (Nat.ne_of_lt hlt),
      kept_next hcurr.kept _⟩
  · have hexact : r.Exact (r.get cache s.level).2 (s.level + 1) :=
      (hfits.exact s.level (Nat.le_refl _) hlt hreach).other hcurr (by omega)
    have hgot := h.next_spec hcurr.kept hlt
    have hlt' := UInt64.lt_of_le_of_lt hcurr.le (h.req_lt_next hcurr.kept hmin hlt hexact)
    have hlevel : s.level < 2 ^ 16 :=
      Nat.lt_of_lt_of_le (Nat.lt_trans hlt h.lt_width) (Nat.pow_le_pow_right (by decide) hwidth)
    obtain ⟨hsum, hkept', hother⟩ := getTotalSkillTries_spec hgot.kept hlevel (hfits.total hlt)
    have hlt₈₀ := r.total_lt hlevel
    have htotal : ((r.getTotalSkillTries totals (r.next (r.get cache s.level).2 s.level).2
        s.level).1 + wide s.tries).toNat = r.total s := by
      rw [total] at hlt₈₀ ⊢
      rw [BitVec.toNat_add, hsum, toNat_wide]
      exact Nat.mod_eq_of_lt (Nat.lt_trans hlt₈₀ (by decide))
    have hbonus := toNat_loyaltyTries (htotal.symm ▸ hlt₈₀) loyaltyBonus
    rw [htotal] at hbonus
    have htries : wide s.tries < wide (r.req (s.level + 1)) := by
      rw [BitVec.lt_def, toNat_wide, toNat_wide]
      exact UInt64.lt_iff_toNat_lt.1 (hs.tries_lt hlt)
    have hsame : r.sum s.level + (s.tries.toNat + r.total s * loyaltyBonus.toNat / 100) =
        r.loyaltyTotal s loyaltyBonus := by
      rw [loyaltyTotal, total, Nat.add_assoc]
    have hfit : s.tries.toNat + r.total s * loyaltyBonus.toNat / 100 < 2 ^ 128 := by
      have hmul := Nat.mul_lt_mul'' hlt₈₀ loyaltyBonus.toNat_lt
      have hlt := s.tries.toNat_lt
      omega
    rw [if_neg (UInt64.not_le.2 hlt'), hgot.eq hexact]
    rw [← toNat_wide, ← hbonus] at hfit hsame
    rw [← hsame]
    refine isGreatest_loyaltyLevel h hkept' hmin hlt rfl htries hfit fun l hl hmax hreached => ?_
    -- Of the levels behind, the first one was asked for, and then those of the total.
    have hbefore := ((hfits.exact l (Nat.le_of_lt hl) hmax (hsame ▸ hreached)).other hcurr
      (by omega)).other hgot (by omega)
    exact fun hmin => by rw [hother _ (by omega)]; exact hbefore hmin

end Requirement

namespace Loyal

/-- The player and what the vocation has kept, in a state where a call is exact. -/
structure Fits (V : Requirements) (skill : Skills) (maxLevel : ℕ) (p : Loyal)
    (loyaltyBonus : UInt16) : Prop where
  below : (V.skill skill).Below maxLevel (p.skills skill)
  kept : (V.skill skill).Kept (p.cacheSkill skill)
  fits : (V.skill skill).BonusFits maxLevel (p.cacheSkillTotal skill) (p.cacheSkill skill)
    (p.skills skill) loyaltyBonus

/-- The level with the bonus is the greatest one up to the maximum that all tries reach with the
    bonus. It is not below the level of the player, and grows with the tries and the bonus. -/
theorem isGreatest_getLoyaltySkill {V : Requirements} {skill : Skills} {maxLevel : ℕ}
    (h : (V.skill skill).UpTo maxLevel) {p : Loyal} {loyaltyBonus : UInt16}
    (hp : p.Fits V skill maxLevel loyaltyBonus) :
    IsGreatest {level | level ≤ maxLevel ∧
        (V.skill skill).sum level ≤ (V.skill skill).loyaltyTotal (p.skills skill) loyaltyBonus}
        (p.getLoyaltySkill V loyaltyBonus skill).1 ∧
      (p.skills skill).level ≤ (p.getLoyaltySkill V loyaltyBonus skill).1 ∧
      (∀ (p' : Loyal) (loyaltyBonus' : UInt16), p'.Fits V skill maxLevel loyaltyBonus' →
        (V.skill skill).total (p.skills skill) ≤ (V.skill skill).total (p'.skills skill) →
        loyaltyBonus ≤ loyaltyBonus' →
        (p.getLoyaltySkill V loyaltyBonus skill).1 ≤
          (p'.getLoyaltySkill V loyaltyBonus' skill).1) ∧
      (V.skill skill).Kept ((p.getLoyaltySkill V loyaltyBonus skill).2.cacheSkill skill) := by
  obtain ⟨hgreatest, hkept⟩ :=
    Requirement.isGreatest_loyaltySkill h (Nat.le_refl 16) hp.below hp.kept hp.fits
  refine ⟨hgreatest, hgreatest.2 ⟨hp.below.level_le, Requirement.sum_le_loyaltyTotal _ _⟩,
    fun p' loyaltyBonus' hp' htotal hbonus => ?_, ?_⟩
  · have hgreatest' :=
      (Requirement.isGreatest_loyaltySkill h (Nat.le_refl 16) hp'.below hp'.kept hp'.fits).1
    have hreach := Nat.le_trans hgreatest.1.2 (Requirement.loyaltyTotal_mono htotal hbonus)
    exact hgreatest'.2 ⟨hgreatest.1.1, hreach⟩
  · have hself : (p.getLoyaltySkill V loyaltyBonus skill).2.cacheSkill skill =
        ((V.skill skill).loyaltySkill (p.cacheSkillTotal skill) (p.cacheSkill skill)
          (p.skills skill) loyaltyBonus).2.2 := Function.update_self _ _ _
    rw [hself]
    exact hkept

/-- A player whose vocation was not asked yet. -/
def swordsman (level : ℕ) (tries : UInt64) : Loyal where
  toPupil := Pupil.swordsman level tries
  cacheSkillTotal _ _ := none

/-- At level 20 with the tries for one half of the next level, a bonus of 50 percent makes it 21. -/
theorem loyalty_swordsman : ((swordsman 20 25000).getLoyaltySkill doubling 50 .sword).1 = 21 := by
  have h := Pupil.growing_doubling.skill .sword (by decide : 0 < Players.skillBase .sword)
  have hfits : ∀ level ≤ 20, (doubling.skill .sword).kept ((doubling.skill .sword).tries level) =
      (doubling.skill .sword).tries level := by
    decide +kernel
  have hp : (swordsman 20 25000).Fits doubling .sword 69 50 :=
    ⟨⟨by decide, fun _ => by decide +kernel⟩, fun _ _ h => (by cases h),
      ⟨fun _ _ => .inl rfl, fun _ => .inr ⟨rfl, fun level _ hle => hfits level hle⟩,
        fun _ _ _ _ _ => .inl rfl⟩⟩
  obtain ⟨⟨⟨-, hreach⟩, hgreatest⟩, -⟩ := isGreatest_getLoyaltySkill h hp
  refine Nat.le_antisymm ?_ (hgreatest ⟨by decide, by decide +kernel⟩)
  by_contra hlt
  have hsum := Nat.le_trans (Requirement.sum_mono (Nat.lt_of_not_le hlt)) hreach
  exact absurd hsum (by decide +kernel)

/-- One try short of level 38, which takes 6710886400, the first call with a bonus of 50 percent
    returns it. The second call gets 2415919104 from the cache, less than level 37 takes. -/
theorem loyalty_falls :
    (doubling.skill .sword).UpTo 69 ∧
      (doubling.skill .sword).Below 69 ((swordsman 37 6710886399).skills .sword) ∧
      ((swordsman 37 6710886399).getLoyaltySkill doubling 50 .sword).1 = 38 ∧
      (((swordsman 37 6710886399).getLoyaltySkill doubling 50 .sword).2.getLoyaltySkill doubling 50
        .sword).1 = 37 ∧
      ¬IsGreatest {level | level ≤ 69 ∧ (doubling.skill .sword).sum level ≤
        (doubling.skill .sword).loyaltyTotal ((swordsman 37 6710886399).skills .sword) 50} 37 := by
  refine ⟨Pupil.growing_doubling.skill .sword (by decide : 0 < Players.skillBase .sword),
    ⟨by decide, fun _ => by decide +kernel⟩, by decide +kernel, by decide +kernel, fun h => ?_⟩
  exact absurd (h.2 ⟨by decide, by decide +kernel⟩ : 38 ≤ 37) (by decide)

end Loyal

end Canary.Players
