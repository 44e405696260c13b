import Canary.Lib.Levels
import Canary.Lib.Transition
import Canary.Players.Vocation

/-!
# Skills

A player trains his skills, and by spending mana his magic level, which works the same way: the
tries that the vocation requires for the next level make a level, and what is left counts for
the one after it. A death takes a part of all tries that were ever made (`Requirement.total`),
and with them levels.

Gains and losses are exact, and the tries stay below those of the next level, as long as the
numbers fit (`accounted_of_reachable`). In `death` they have to fit into 32 bits, the remaining
tries into 31: more tries are lost, whatever the death costs. What a level requires has to fit into
32 bits where it is got from the cache of the vocation.
-/

namespace Canary.Players

open Transition Levels

namespace Requirement

variable (r : Requirement)

/-! ## Gains -/

/-- The loop of the gains: the tries that are left make levels as long as there is a next one. -/
def advance (cache : Cache) (level : ℕ) (tries count nextReqTries : UInt64) : Skill × Cache :=
  if tries + count ≥ nextReqTries then
    -- The player has reached the maximum level.
    if nextReqTries ≥ (r.next cache (level + 1)).1 then
      (⟨level + 1, 0⟩, (r.next cache (level + 1)).2)
    else
      advance (r.next cache (level + 1)).2 (level + 1) 0 (count - (nextReqTries - tries))
        (r.next cache (level + 1)).1
  else (⟨level, tries + count⟩, cache)
termination_by 2 ^ 64 - nextReqTries.toNat
decreasing_by
  have hlt := (r.next cache (level + 1)).1.toNat_lt
  simp only [ge_iff_le, UInt64.le_iff_toNat_le, not_le] at *
  omega

def gain (cache : Cache) (s : Skill) (count : UInt64) : Skill × Cache :=
  let currReqTries := r.get cache s.level
  let nextReqTries := r.next currReqTries.2 s.level
  if currReqTries.1 ≥ nextReqTries.1 then (s, nextReqTries.2)
  else if count = 0 then (s, nextReqTries.2)
  else r.advance nextReqTries.2 s.level s.tries count nextReqTries.1

/-! ## Losses -/

/-- What all levels up to this one have required. -/
def sumTries (cache : Cache) : ℕ → UInt64 × Cache
  | 0 => (0, cache)
  | level + 1 =>
    let sum := sumTries cache level
    let tries := r.get sum.2 (level + 1)
    (sum.1 + tries.1, tries.2)

/-- The level and tries that a loss has come to, and what is still to be lost. -/
structure Loss where
  level : ℕ
  tries : UInt64
  lost : UInt64
  cache : Cache

/-- The loop of the losses: the tries of a level are lost, and then those of the one before. -/
def borrow : ℕ → UInt64 → UInt64 → Cache → Loss
  | level + 1, tries, lost, cache =>
    if lost > tries ∧ level + 1 > r.minLevel then
      borrow level (r.get cache (level + 1)).1 (lost - tries) (r.get cache (level + 1)).2
    else ⟨level + 1, tries, lost, cache⟩
  | 0, tries, lost, cache => ⟨0, tries, lost, cache⟩

/-- `std::max<int32_t>(0, value)` -/
def nonneg (value : UInt64) : UInt64 :=
  if value.toUInt32 < 0x80000000 then value.toUInt32.toUInt64 else 0

def loseMana (cache : Cache) (s : Skill) (p : ℚ) : Skill × Cache :=
  let sumMana := r.sumTries cache s.level
  let loss := r.borrow s.level s.tries (.ofNat (lostPart (sumMana.1 + s.tries).toNat p)) sumMana.2
  let nextReqMana := r.next loss.cache loss.level
  (⟨loss.level, loss.tries - loss.lost⟩, (r.get nextReqMana.2 loss.level).2)

/-- The lost tries are a `uint32_t`. -/
def loseTries (cache : Cache) (s : Skill) (p : ℚ) : Skill × Cache :=
  let sumSkillTries := r.sumTries cache s.level
  let lostSkillTries := (UInt32.ofNat (lostPart (sumSkillTries.1 + s.tries).toNat p)).toUInt64
  let loss := r.borrow s.level s.tries lostSkillTries sumSkillTries.2
  (if loss.lost > loss.tries then ⟨r.minLevel, 0⟩
    else ⟨loss.level, nonneg (loss.tries - loss.lost)⟩, (r.get loss.cache loss.level).2)

/-- The loop over the levels up to the last number of the width does not end. -/
def Endless (s : Skill) : Prop := s.level + 1 = 2 ^ r.width

instance (s : Skill) : Decidable (r.Endless s) := inferInstanceAs (Decidable (_ = _))

end Requirement

/-- A player, and the flag `PlayerFlags_t::NotGainMana`. -/
structure Trainee where
  skills : Skills → Skill
  magic : Skill
  notGainMana : Bool

/-- A player and the caches of the vocation. -/
structure Pupil extends Trainee where
  cacheSkill : Skills → Cache
  cacheMana : Cache

/-- What can be trained offline. -/
inductive Training where
  | skill (skill : Skills)
  | magLevel
  | level

namespace Pupil

variable (V : Requirements)

def addSkillAdvance (p : Pupil) (skill : Skills) (count : UInt64) : Pupil :=
  let gained := (V.skill skill).gain (p.cacheSkill skill) (p.skills skill) count
  { p with
    skills := Function.update p.skills skill gained.1
    cacheSkill := Function.update p.cacheSkill skill gained.2 }

/-- The loop of the mana. -/
def gainMana (p : Pupil) (amount : UInt64) : Pupil :=
  let gained := V.magic.gain p.cacheMana p.magic amount
  { p with magic := gained.1, cacheMana := gained.2 }

def addManaSpent (p : Pupil) (amount : UInt64) : Pupil :=
  if p.notGainMana then p else p.gainMana V amount

/-- Without tries nothing is asked for. -/
def addOfflineTrainingTries (p : Pupil) (skill : Training) (tries : UInt64) : Pupil :=
  if tries = 0 then p
  else
    match skill with
    | .skill skill => p.addSkillAdvance V skill tries
    | .magLevel => p.gainMana V tries
    | .level => p

/-- The losses of a death, which are the part `p` of all that was trained. -/
def death (p : Pupil) (deathLossPercent : ℚ) : Option Pupil :=
  if V.magic.Endless p.magic ∨ ∃ skill ∈ Skills.all, (V.skill skill).Endless (p.skills skill) then
    none
  else
    let magic := V.magic.loseMana p.cacheMana p.magic deathLossPercent
    let skills := fun skill =>
      (V.skill skill).loseTries (p.cacheSkill skill) (p.skills skill) deathLossPercent
    some { p with
      magic := magic.1
      cacheMana := magic.2
      skills := fun skill => (skills skill).1
      cacheSkill := fun skill => (skills skill).2 }

/-- Somebody else asks the vocation. -/
def getReqSkillTries (p : Pupil) (skill : Skills) (level : ℕ) : Pupil :=
  { p with
    cacheSkill := Function.update p.cacheSkill skill
      ((V.skill skill).get (p.cacheSkill skill) level).2 }

end Pupil

/-! ## Accounts -/

namespace Requirement

/-- The tries are below those of the next level, if there is one. -/
structure Valid (r : Requirement) (maxLevel : ℕ) (s : Skill) : Prop where
  minLevel_le : r.minLevel ≤ s.level
  level_le : s.level ≤ maxLevel
  tries_lt : s.level < maxLevel → s.tries < r.req (s.level + 1)

/-- A gain: all tries count, unless they reach the maximum level. -/
structure Gains (r : Requirement) (maxLevel : ℕ) (s : Skill) (count : UInt64) (s' : Skill) :
    Prop where
  total_eq : s'.level < maxLevel → r.total s' = r.total s + count.toNat
  total_le : r.total s' ≤ r.total s + count.toNat
  last : s.level = maxLevel → s' = s

variable {r : Requirement} {cache : Cache} {s : Skill} {maxLevel : ℕ}

/-- The tries that are left when a level is reached. -/
theorem toNat_sub_sub {tries count next : UInt64} (hlt : tries < next)
    (hge : next.toNat ≤ tries.toNat + count.toNat) :
    (count - (next - tries)).toNat = tries.toNat + count.toNat - next.toNat := by
  rw [UInt64.lt_iff_toNat_lt] at hlt
  have hsub : (next - tries).toNat = next.toNat - tries.toNat :=
    UInt64.toNat_sub_of_le _ _ (UInt64.le_iff_toNat_le.2 (Nat.le_of_lt hlt))
  have hle : next - tries ≤ count := by
    rw [UInt64.le_iff_toNat_le, hsub]
    omega
  rw [UInt64.toNat_sub_of_le _ _ hle, hsub]
  omega

theorem le_of_reach {tries count next : UInt64} (h : tries + count ≥ next) :
    next.toNat ≤ tries.toNat + count.toNat := by
  rw [ge_iff_le, UInt64.le_iff_toNat_le, UInt64.toNat_add] at h
  exact Nat.le_trans h (Nat.mod_le _ _)

/-- The loop of the gains ends when the next level is not reached. -/
theorem advance_stop {level : ℕ} {tries count : UInt64} (hmin : r.minLevel ≤ level)
    (hlt : level < maxLevel)
    (hfit : tries.toNat + count.toNat < 2 ^ 64 ∨ r.req (level + 1) ≤ tries + count)
    (hreach : ¬ tries + count ≥ r.req (level + 1)) :
    Valid r maxLevel ⟨level, tries + count⟩ ∧
      Gains r maxLevel ⟨level, tries⟩ count ⟨level, tries + count⟩ := by
  have hsum : (tries + count).toNat = tries.toNat + count.toNat := by
    rw [UInt64.toNat_add]
    exact Nat.mod_eq_of_lt (hfit.resolve_right hreach)
  have htotal : r.total ⟨level, tries + count⟩ = r.total ⟨level, tries⟩ + count.toNat := by
    rw [total, total, hsum, Nat.add_assoc]
  exact ⟨⟨hmin, Nat.le_of_lt hlt, fun _ => UInt64.not_le.1 hreach⟩,
    fun _ => htotal, Nat.le_of_eq htotal, fun h => absurd h (Nat.ne_of_lt hlt)⟩

/-- The loop of the gains, from a level that has a next one. The levels that are reached, and the
    one behind them, are asked for. -/
theorem advance_spec (hr : r.UpTo maxLevel) {level : ℕ} (tries count : UInt64)
    (hkept : r.Kept cache) (hmin : r.minLevel ≤ level) (hlt : level < maxLevel)
    (htries : tries < r.req (level + 1))
    (hfit : tries.toNat + count.toNat < 2 ^ 64 ∨ r.req (level + 1) ≤ tries + count)
    (hexact : ∀ l, level < l → l < maxLevel →
      r.sum l ≤ r.sum level + tries.toNat + count.toNat → r.Exact cache (l + 1)) :
    let gained := r.advance cache level tries count (r.req (level + 1))
    Valid r maxLevel gained.1 ∧ Gains r maxLevel ⟨level, tries⟩ count gained.1 ∧
      r.Kept gained.2 := by
  obtain ⟨k, hk⟩ := Nat.exists_eq_add_of_lt hlt
  induction k generalizing cache level tries count with
  | zero =>
    rw [advance]
    by_cases hreach : tries + count ≥ r.req (level + 1)
    · have hge := le_of_reach hreach
      obtain rfl : maxLevel = level + 1 := by omega
      -- The last level: the tries that are left over are gone.
      rw [if_pos hreach, if_pos (hr.next_last_le hkept)]
      refine ⟨⟨Nat.le_succ_of_le hmin, Nat.le_refl _, fun h => absurd h (Nat.lt_irrefl _)⟩,
        ⟨fun h => absurd h (Nat.lt_irrefl _), ?_, fun h => absurd h (Nat.ne_of_lt hlt)⟩,
        kept_next hkept _⟩
      simp only [total, sum, UInt64.toNat_zero]
      omega
    · rw [if_neg hreach]
      obtain ⟨hvalid, hgains⟩ := advance_stop hmin hlt hfit hreach
      exact ⟨hvalid, hgains, hkept⟩
  | succ k ih =>
    rw [advance]
    by_cases hreach : tries + count ≥ r.req (level + 1)
    · have hge := le_of_reach hreach
      have hmore : level + 1 < maxLevel := by omega
      have hgrow := hr.growing (level + 1) (Nat.le_succ_of_le hmin) hmore
      have hsum : r.sum (level + 1) ≤ r.sum level + tries.toNat + count.toNat := by
        rw [sum]
        omega
      have hgot := hr.next_spec hkept hmore
      have hnext := hgot.eq (hexact (level + 1) (Nat.lt_succ_self _) hmore hsum)
      rw [if_pos hreach, hnext, if_neg (UInt64.not_le.2 hgrow)]
      have hpos : (0 : UInt64) < r.req (level + 1 + 1) := UInt64.lt_of_le_of_lt UInt64.zero_le hgrow
      have hleft := toNat_sub_sub htries hge
      have htotal : r.sum (level + 1) + (0 : UInt64).toNat +
          (count - (r.req (level + 1) - tries)).toNat =
            r.sum level + tries.toNat + count.toNat := by
        rw [sum, UInt64.toNat_zero]
        omega
      -- The next level begins with the tries that are left.
      obtain ⟨hvalid, ⟨heq, hle, -⟩, hkept'⟩ := ih 0 (count - (r.req (level + 1) - tries)) hgot.kept
        (Nat.le_succ_of_le hmin) hmore hpos (.inl (by
          rw [UInt64.toNat_zero, Nat.zero_add]
          exact UInt64.toNat_lt _))
        (fun l hl hmax hreached => (hexact l (Nat.lt_of_succ_lt hl) hmax
          (htotal ▸ hreached)).other hgot (by omega)) (by omega)
      have hsame : r.total ⟨level + 1, 0⟩ + (count - (r.req (level + 1) - tries)).toNat =
          r.total ⟨level, tries⟩ + count.toNat := htotal
      exact ⟨hvalid, ⟨fun h => (heq h).trans hsame, hsame ▸ hle,
        fun h => absurd h (Nat.ne_of_lt hlt)⟩, hkept'⟩
    · rw [if_neg hreach]
      obtain ⟨hvalid, hgains⟩ := advance_stop hmin hlt hfit hreach
      exact ⟨hvalid, hgains, hkept⟩

/-- The sum of the tries fits into a word, or reaches the next level all the same, and what the
    levels behind those that are reached require is not cut by the cache. -/
structure GainFits (r : Requirement) (maxLevel : ℕ) (cache : Cache) (s : Skill) (count : UInt64) :
    Prop where
  fit : s.level < maxLevel →
    s.tries.toNat + count.toNat < 2 ^ 64 ∨ r.req (s.level + 1) ≤ s.tries + count
  last : s.level = maxLevel → r.Exact cache maxLevel
  exact : ∀ level, s.level ≤ level → level < maxLevel →
    r.sum level ≤ r.total s + count.toNat → r.Exact cache (level + 1)

theorem gain_spec (hr : r.UpTo maxLevel) (hkept : r.Kept cache) (hs : r.Valid maxLevel s)
    {count : UInt64} (hfit : r.GainFits maxLevel cache s count) :
    r.Valid maxLevel (r.gain cache s count).1 ∧
      r.Gains maxLevel s count (r.gain cache s count).1 ∧ r.Kept (r.gain cache s count).2 := by
  have hcurr := get_spec hkept s.level
  have hkept' := kept_next hcurr.kept s.level
  rw [gain]
  rcases Nat.eq_or_lt_of_le hs.level_le with hend | hlt
  · -- There is no next level.
    have hle : (r.next (r.get cache s.level).2 s.level).1 ≤ (r.get cache s.level).1 := by
      rw [hcurr.eq (hend ▸ hfit.last hend), hend]
      exact hr.next_last_le (hend ▸ hcurr.kept)
    rw [if_pos hle]
    exact ⟨hs, ⟨fun h => absurd hend (Nat.ne_of_lt h), Nat.le_add_right _ _, fun _ => rfl⟩, hkept'⟩
  · have hexact : r.Exact (r.get cache s.level).2 (s.level + 1) :=
      (hfit.exact s.level (Nat.le_refl _) hlt (by rw [total]; omega)).other hcurr (by omega)
    have hgot := hr.next_spec hcurr.kept hlt
    have hlt' : (r.get cache s.level).1 < (r.next (r.get cache s.level).2 s.level).1 :=
      UInt64.lt_of_le_of_lt hcurr.le (hr.req_lt_next hcurr.kept hs.minLevel_le hlt hexact)
    rw [if_neg (UInt64.not_le.2 hlt')]
    by_cases hcount : count = 0
    · rw [if_pos hcount, hcount]
      exact ⟨hs, ⟨fun _ => rfl, Nat.le_refl _, fun _ => rfl⟩, hkept'⟩
    rw [if_neg hcount, hgot.eq hexact]
    refine advance_spec hr _ _ hgot.kept hs.minLevel_le hlt (hs.tries_lt hlt) (hfit.fit hlt)
      fun l hl hmax hreached => ?_
    exact ((hfit.exact l (Nat.le_of_lt hl) hmax hreached).other hcurr (by omega)).other hgot
      (by omega)

variable (maxLevel) in
/-- The loop of the losses, when no more is lost than there is: what is lost at its end is not
    more than the tries, which it leaves below those of the next level. -/
theorem borrow_spec {level : ℕ} (tries lost : UInt64) (hkept : r.Kept cache)
    (hmin : r.minLevel ≤ level)
    (htries : level < maxLevel → tries.toNat < (r.req (level + 1)).toNat + lost.toNat)
    (hlost : lost.toNat ≤ r.sum level + tries.toNat) (hmax : level ≤ maxLevel)
    (hagain : ∀ l, r.minLevel < l → l ≤ level →
      r.sum level + tries.toNat < r.sum l + lost.toNat → r.kept (r.tries l) = r.tries l) :
    ∃ loss, r.borrow level tries lost cache = loss ∧ r.minLevel ≤ loss.level ∧
      loss.level ≤ level ∧ loss.lost ≤ loss.tries ∧
      (loss.level < maxLevel →
        loss.tries.toNat < (r.req (loss.level + 1)).toNat + loss.lost.toNat) ∧
      r.sum loss.level + loss.tries.toNat + lost.toNat =
        r.sum level + tries.toNat + loss.lost.toNat ∧ r.Kept loss.cache := by
  induction level generalizing tries lost cache with
  | zero =>
    refine ⟨_, rfl, hmin, Nat.le_refl _, ?_, htries, rfl, hkept⟩
    rw [sum, Nat.zero_add] at hlost
    exact UInt64.le_iff_toNat_le.2 hlost
  | succ level ih =>
    rw [borrow]
    by_cases hmore : lost > tries ∧ level + 1 > r.minLevel
    · have hlt : tries.toNat < lost.toNat := UInt64.lt_iff_toNat_lt.1 hmore.1
      have hsub : (lost - tries).toNat = lost.toNat - tries.toNat :=
        UInt64.toNat_sub_of_le _ _ (UInt64.le_of_lt hmore.1)
      have hgot := get_spec hkept (level + 1)
      have hreq := hgot.eq (exact_of_kept (hagain _ hmore.2 (Nat.le_refl _) (by omega)))
      rw [sum] at hlost hagain
      obtain ⟨loss, hborrow, hmin', hle, hlost', htries', htotal, hkept'⟩ :=
        ih (r.req (level + 1)) (lost - tries) hgot.kept (Nat.le_of_lt_succ hmore.2)
          (fun _ => by omega) (by omega) (Nat.le_of_succ_le hmax)
          (fun l hl hle hreached => hagain l hl (Nat.le_succ_of_le hle) (by omega))
      rw [if_pos hmore, hreq]
      refine ⟨loss, hborrow, hmin', Nat.le_succ_of_le hle, hlost', htries', ?_, hkept'⟩
      rw [sum]
      omega
    · rw [if_neg hmore]
      refine ⟨_, rfl, hmin, Nat.le_refl _, ?_, htries, rfl, hkept⟩
      -- At the lowest level there is nothing to borrow from, and nothing was.
      by_contra hlt
      have hlevel : level + 1 ≤ r.minLevel :=
        Nat.le_of_not_lt fun h => hmore ⟨UInt64.not_le.1 hlt, h⟩
      rw [sum_eq_zero hlevel, Nat.zero_add] at hlost
      exact hlt (UInt64.le_iff_toNat_le.2 hlost)

/-- What a loss leaves: the level of the tries that are left. -/
theorem borrow_total (hkept : r.Kept cache) (hs : r.Valid maxLevel s) (lost : UInt64)
    (hlost : lost.toNat ≤ r.total s)
    (hagain : ∀ l, r.minLevel < l → l ≤ s.level → r.total s - lost.toNat < r.sum l →
      r.kept (r.tries l) = r.tries l) :
    ∃ loss, r.borrow s.level s.tries lost cache = loss ∧
      loss.lost ≤ loss.tries ∧ r.Valid maxLevel ⟨loss.level, loss.tries - loss.lost⟩ ∧
      r.total ⟨loss.level, loss.tries - loss.lost⟩ + lost.toNat = r.total s ∧
      (loss.level < maxLevel → IsLevel r.sum (r.total s - lost.toNat) loss.level) ∧
      r.Kept loss.cache := by
  obtain ⟨loss, hborrow, hmin, hle, hlost', hlt, htotal, hkept'⟩ :=
    borrow_spec (r := r) maxLevel s.tries lost hkept hs.minLevel_le
      (fun h => Nat.lt_add_right _ (UInt64.lt_iff_toNat_lt.1 (hs.tries_lt h))) hlost hs.level_le
      (fun l hl hls hreached => hagain l hl hls (by rw [total]; rw [total] at hlost; omega))
  have hsub : (loss.tries - loss.lost).toNat = loss.tries.toNat - loss.lost.toNat :=
    UInt64.toNat_sub_of_le _ _ hlost'
  have hlost'' := UInt64.le_iff_toNat_le.1 hlost'
  refine ⟨loss, hborrow, hlost', ⟨hmin, Nat.le_trans hle hs.level_le, fun h => ?_⟩, ?_,
    fun h => ⟨?_, ?_⟩, hkept'⟩
  · have hlt := hlt h
    rw [UInt64.lt_iff_toNat_lt, hsub]
    dsimp only
    omega
  · rw [total, total, hsub]
    dsimp only
    omega
  · rw [total]
    omega
  · have hlt := hlt h
    rw [total, sum]
    omega

/-- The part of the total that a death takes. -/
def lostOf (r : Requirement) (s : Skill) (p : ℚ) : ℕ := ⌊(r.total s : ℚ) * p⌋₊

theorem lostOf_le (r : Requirement) (s : Skill) {p : ℚ} (h₀ : 0 ≤ p) (h₁ : p ≤ 1) :
    r.lostOf s p ≤ r.total s := by
  have hle : ((r.lostOf s p : ℕ) : ℚ) ≤ r.total s :=
    calc ((r.lostOf s p : ℕ) : ℚ) ≤ r.total s * p :=
          Nat.floor_le (mul_nonneg (Nat.cast_nonneg _) h₀)
      _ ≤ r.total s := mul_le_of_le_one_right (Nat.cast_nonneg _) h₁
  exact Nat.cast_le.1 hle

theorem sumTries_spec (hkept : r.Kept cache) {level : ℕ}
    (hexact : ∀ l, l ≤ level → r.Exact cache l) :
    (r.sumTries cache level).1.toNat = r.sum level % 2 ^ 64 ∧ r.Kept (r.sumTries cache level).2 ∧
      ∀ l, level < l → (r.sumTries cache level).2 l = cache l := by
  induction level with
  | zero => exact ⟨rfl, hkept, fun _ _ => rfl⟩
  | succ level ih =>
    obtain ⟨hsum, hkept', hother⟩ := ih fun l hl => hexact l (Nat.le_succ_of_le hl)
    have hgot := get_spec hkept' (level + 1)
    have hexact' : r.Exact (r.sumTries cache level).2 (level + 1) := fun hmin => by
      rw [hother _ (Nat.lt_succ_self _)]
      exact hexact (level + 1) (Nat.le_refl _) hmin
    simp only [sumTries]
    refine ⟨?_, hgot.kept, fun l hl => ?_⟩
    · rw [hgot.eq hexact', sum, UInt64.toNat_add, hsum, Nat.mod_add_mod]
    · rw [hgot.other l (by omega), hother l (by omega)]

/-- The product is as exact as its integer part, the total fits into a word, and the required tries
    are not cut by the cache, those of the levels that are lost not even when they are kept. -/
structure LossFits (r : Requirement) (cache : Cache) (s : Skill) (p : ℚ) : Prop where
  total : r.total s < 2 ^ 64
  product : lostPart (r.total s) p = r.lostOf s p
  exact : ∀ level, level ≤ s.level → r.Exact cache level
  again : ∀ level, r.minLevel < level → level ≤ s.level →
    r.total s - r.lostOf s p < r.sum level → r.kept (r.tries level) = r.tries level

theorem LossFits.lost_eq {p : ℚ} (h : r.LossFits cache s p) (hkept : r.Kept cache) :
    lostPart ((r.sumTries cache s.level).1 + s.tries).toNat p = r.lostOf s p := by
  obtain ⟨hsum, -⟩ := sumTries_spec hkept h.exact
  rw [UInt64.toNat_add, hsum, Nat.mod_add_mod, ← h.product]
  exact congrArg (lostPart · p) (Nat.mod_eq_of_lt h.total)

/-- A loss: the part `p` of the total. -/
structure Loses (r : Requirement) (maxLevel : ℕ) (s : Skill) (p : ℚ) (s' : Skill) : Prop where
  valid : r.Valid maxLevel s'
  total_eq : r.total s' + r.lostOf s p = r.total s

theorem loseMana_spec (hkept : r.Kept cache) (hs : r.Valid maxLevel s) {p : ℚ} (h₀ : 0 ≤ p)
    (h₁ : p ≤ 1) (hfit : r.LossFits cache s p) :
    r.Loses maxLevel s p (r.loseMana cache s p).1 ∧ r.Kept (r.loseMana cache s p).2 := by
  have hle := r.lostOf_le s h₀ h₁
  have hlost : (UInt64.ofNat (r.lostOf s p)).toNat = r.lostOf s p := by
    rw [UInt64.toNat_ofNat']
    exact Nat.mod_eq_of_lt (Nat.lt_of_le_of_lt hle hfit.total)
  obtain ⟨-, hkept', -⟩ := sumTries_spec hkept hfit.exact
  obtain ⟨loss, hborrow, -, hvalid, htotal, -, hkept''⟩ :=
    borrow_total hkept' hs (.ofNat (r.lostOf s p)) (hlost.symm ▸ hle)
      (hlost.symm ▸ hfit.again)
  simp only [loseMana]
  rw [hfit.lost_eq hkept, hborrow]
  exact ⟨⟨hvalid, hlost ▸ htotal⟩, (get_spec (kept_next hkept'' _) _).kept⟩

/-- What is lost fits into 32 bits, and what is left of the level into 31. -/
structure TriesFit (r : Requirement) (maxLevel : ℕ) (cache : Cache) (s : Skill) (p : ℚ) : Prop
    extends LossFits r cache s p where
  lost : r.lostOf s p < 2 ^ 32
  left : ∀ level, (level = maxLevel ∨ IsLevel r.sum (r.total s - r.lostOf s p) level) →
    r.total s - r.lostOf s p < r.sum level + 2 ^ 31

theorem nonneg_of_lt {value : UInt64} (h : value.toNat < 2 ^ 31) : nonneg value = value := by
  have hword : value.toUInt32.toNat = value.toNat := by
    rw [UInt64.toNat_toUInt32]
    exact Nat.mod_eq_of_lt (by omega)
  rw [nonneg, if_pos (UInt32.lt_iff_toNat_lt.2 (hword ▸ h))]
  apply UInt64.toNat_inj.1
  rw [UInt32.toNat_toUInt64, hword]

theorem loseTries_spec (hkept : r.Kept cache) (hs : r.Valid maxLevel s) {p : ℚ} (h₀ : 0 ≤ p)
    (h₁ : p ≤ 1) (hfit : r.TriesFit maxLevel cache s p) :
    r.Loses maxLevel s p (r.loseTries cache s p).1 ∧ r.Kept (r.loseTries cache s p).2 := by
  have hle := r.lostOf_le s h₀ h₁
  have hlost : (UInt32.ofNat (r.lostOf s p)).toUInt64.toNat = r.lostOf s p := by
    rw [UInt32.toNat_toUInt64, UInt32.toNat_ofNat']
    exact Nat.mod_eq_of_lt hfit.lost
  obtain ⟨-, hkept', -⟩ := sumTries_spec hkept hfit.exact
  obtain ⟨loss, hborrow, hlost', hvalid, htotal, hlevel, hkept''⟩ :=
    borrow_total hkept' hs (UInt32.ofNat (r.lostOf s p)).toUInt64 (hlost.symm ▸ hle)
      (hlost.symm ▸ hfit.again)
  rw [hlost] at htotal hlevel
  have hleft : (loss.tries - loss.lost).toNat < 2 ^ 31 := by
    have h := hfit.left loss.level (hvalid.level_le.eq_or_lt.imp_right hlevel)
    rw [Requirement.total] at htotal
    dsimp only at htotal
    omega
  simp only [loseTries]
  rw [hfit.lost_eq hkept, hborrow, if_neg (UInt64.not_lt.2 hlost'), nonneg_of_lt hleft]
  exact ⟨⟨hvalid, htotal⟩, (get_spec hkept'' _).kept⟩

end Requirement

/-! ## Runs -/

/-- The skills that can be trained, and the maximum levels. -/
structure Limits where
  trained : Skills → Prop
  skill : Skills → ℕ
  magLevel : ℕ

/-- The required tries grow up to the maximum levels. -/
structure Requirements.Growing (V : Requirements) (L : Limits) : Prop where
  skill : ∀ skill, L.trained skill → (V.skill skill).UpTo (L.skill skill)
  magic : V.magic.UpTo L.magLevel

namespace Pupil

/-- The calls, those of others for the same vocation among them. -/
inductive Op
  | addSkillAdvance (skill : Skills) (count : UInt64)
  | addManaSpent (amount : UInt64)
  | addOfflineTrainingTries (skill : Training) (tries : UInt64)
  | death (deathLossPercent : ℚ)
  | getReqSkillTries (skill : Skills) (level : ℕ)

variable (V : Requirements) (L : Limits)

def next (p : Pupil) : Op → Option Pupil
  | .addSkillAdvance skill count => some (p.addSkillAdvance V skill count)
  | .addManaSpent amount => some (p.addManaSpent V amount)
  | .addOfflineTrainingTries skill tries => some (p.addOfflineTrainingTries V skill tries)
  | .death deathLossPercent => p.death V deathLossPercent
  | .getReqSkillTries skill level => some (p.getReqSkillTries V skill level)

/-- What the caches have was computed. -/
structure Kept (p : Pupil) : Prop where
  skill : ∀ skill, L.trained skill → (V.skill skill).Kept (p.cacheSkill skill)
  magic : V.magic.Kept p.cacheMana

/-- All tries are below those of the next level. -/
structure Valid (p : Pupil) : Prop where
  skills : ∀ skill, L.trained skill → (V.skill skill).Valid (L.skill skill) (p.skills skill)
  magic : V.magic.Valid L.magLevel p.magic

/-- The calls, from any valid player. -/
def system : System Pupil Op := .ofNext (fun p => Valid V L p ∧ Kept V L p) (next V)

def SkillFits (p : Pupil) (skill : Skills) (count : UInt64) : Prop :=
  L.trained skill →
    (V.skill skill).GainFits (L.skill skill) (p.cacheSkill skill) (p.skills skill) count

def MagicFits (p : Pupil) (amount : UInt64) : Prop :=
  V.magic.GainFits L.magLevel p.cacheMana p.magic amount

/-- The numbers of the call fit. -/
def Fits (p : Pupil) : Op → Prop
  | .addSkillAdvance skill count => p.SkillFits V L skill count
  | .addOfflineTrainingTries (.skill skill) tries => tries ≠ 0 → p.SkillFits V L skill tries
  | .addManaSpent amount => p.notGainMana = false → p.MagicFits V L amount
  | .addOfflineTrainingTries .magLevel tries => tries ≠ 0 → p.MagicFits V L tries
  | .addOfflineTrainingTries .level _ | .getReqSkillTries _ _ => True
  | .death deathLossPercent => 0 ≤ deathLossPercent ∧ deathLossPercent ≤ 1 ∧
    ¬V.magic.Endless p.magic ∧ (∀ skill, ¬(V.skill skill).Endless (p.skills skill)) ∧
    V.magic.LossFits p.cacheMana p.magic deathLossPercent ∧
    ∀ skill, L.trained skill → (V.skill skill).TriesFit (L.skill skill) (p.cacheSkill skill)
      (p.skills skill) deathLossPercent

/-- A gain of a skill, which changes nothing else. -/
def GainsSkill (p : Pupil) (skill : Skills) (count : UInt64) (p' : Pupil) : Prop :=
  (L.trained skill → (V.skill skill).Gains (L.skill skill) (p.skills skill) count
    (p'.skills skill)) ∧
    (∀ other, other ≠ skill → p'.skills other = p.skills other) ∧ p'.magic = p.magic

/-- A gain of the magic level, which changes nothing else. -/
def GainsMagic (p : Pupil) (amount : UInt64) (p' : Pupil) : Prop :=
  V.magic.Gains L.magLevel p.magic amount p'.magic ∧ p'.skills = p.skills

/-- What a call makes of the totals. -/
def Accounts (p : Pupil) (p' : Pupil) : Op → Prop
  | .addSkillAdvance skill count | .addOfflineTrainingTries (.skill skill) count =>
    GainsSkill V L p skill count p'
  | .addManaSpent amount => if p.notGainMana then p' = p else GainsMagic V L p amount p'
  | .addOfflineTrainingTries .magLevel tries => GainsMagic V L p tries p'
  | .addOfflineTrainingTries .level _ | .getReqSkillTries _ _ => p'.toTrainee = p.toTrainee
  | .death deathLossPercent =>
    V.magic.Loses L.magLevel p.magic deathLossPercent p'.magic ∧
    ∀ skill, L.trained skill → (V.skill skill).Loses (L.skill skill) (p.skills skill)
      deathLossPercent (p'.skills skill)

variable {V L} {p : Pupil}

/-- What is updated at a skill, and is as before at others. -/
theorem update_cases {β : Type*} {f : Skills → β} {skill : Skills} {x : β}
    {P : Skills → β → Prop} (hself : P skill x) (hother : ∀ other, P other (f other))
    (other : Skills) : P other (Function.update f skill x other) := by
  by_cases h : other = skill
  · rw [h, Function.update_self]
    exact hself
  · rw [Function.update_of_ne h]
    exact hother other

theorem addSkillAdvance_spec (hV : V.Growing L) (hp : Valid V L p) (hkept : Kept V L p)
    {skill : Skills} {count : UInt64} (hfit : p.SkillFits V L skill count) :
    Valid V L (p.addSkillAdvance V skill count) ∧ Kept V L (p.addSkillAdvance V skill count) ∧
      GainsSkill V L p skill count (p.addSkillAdvance V skill count) := by
  have hspec (h : L.trained skill) := Requirement.gain_spec (hV.skill skill h)
    (hkept.skill skill h) (hp.skills skill h) (hfit h)
  refine ⟨⟨?_, hp.magic⟩, ⟨?_, hkept.magic⟩, fun h => ?_, fun other h => ?_, rfl⟩
  · exact update_cases (P := fun skill s => L.trained skill →
      (V.skill skill).Valid (L.skill skill) s) (fun h => (hspec h).1) hp.skills
  · exact update_cases (P := fun skill cache => L.trained skill → (V.skill skill).Kept cache)
      (fun h => (hspec h).2.2) hkept.skill
  · have hself : (p.addSkillAdvance V skill count).skills skill =
        ((V.skill skill).gain (p.cacheSkill skill) (p.skills skill) count).1 :=
      Function.update_self _ _ _
    rw [hself]
    exact (hspec h).2.1
  · exact Function.update_of_ne h _ _

theorem gainMana_spec (hV : V.Growing L) (hp : Valid V L p) (hkept : Kept V L p)
    {amount : UInt64} (hfit : p.MagicFits V L amount) :
    Valid V L (p.gainMana V amount) ∧ Kept V L (p.gainMana V amount) ∧
      GainsMagic V L p amount (p.gainMana V amount) := by
  obtain ⟨hvalid, hgains, hkept'⟩ := Requirement.gain_spec hV.magic hkept.magic hp.magic hfit
  exact ⟨⟨hp.skills, hvalid⟩, ⟨hkept.skill, hkept'⟩, hgains, rfl⟩

/-- Nothing is gained. -/
theorem gains_zero {r : Requirement} {maxLevel : ℕ} (s : Skill) : r.Gains maxLevel s 0 s :=
  ⟨fun _ => rfl, Nat.le_refl _, fun _ => rfl⟩

theorem death_spec (hp : Valid V L p) (hkept : Kept V L p) {deathLossPercent : ℚ}
    (hfit : Fits V L p (.death deathLossPercent)) :
    ∃ p', p.death V deathLossPercent = some p' ∧ Valid V L p' ∧ Kept V L p' ∧
      Accounts V L p p' (.death deathLossPercent) := by
  obtain ⟨h₀, h₁, hmana, hends, hmagic, hskills⟩ := hfit
  have hmagic := Requirement.loseMana_spec hkept.magic hp.magic h₀ h₁ hmagic
  have hskill := fun skill h => Requirement.loseTries_spec (hkept.skill skill h)
    (hp.skills skill h) h₀ h₁ (hskills skill h)
  refine ⟨_, if_neg ?_, ⟨fun skill h => (hskill skill h).1.valid, hmagic.1.valid⟩,
    ⟨fun skill h => (hskill skill h).2, hmagic.2⟩, hmagic.1, fun skill h => (hskill skill h).1⟩
  rintro (hend | ⟨skill, -, hend⟩)
  · exact hmana hend
  · exact hends skill hend

/-- A call whose numbers fit keeps the books. -/
theorem next_spec (hV : V.Growing L) (hp : Valid V L p) (hkept : Kept V L p) (op : Op)
    (hfit : Fits V L p op) :
    ∃ p', p.next V op = some p' ∧ Valid V L p' ∧ Kept V L p' ∧ Accounts V L p p' op := by
  match op with
  | .addSkillAdvance skill count =>
    obtain ⟨hvalid, hkept', hgains⟩ := addSkillAdvance_spec hV hp hkept hfit
    exact ⟨_, rfl, hvalid, hkept', hgains⟩
  | .addOfflineTrainingTries (.skill skill) tries =>
    by_cases hzero : tries = 0
    · refine ⟨p, congrArg some (if_pos hzero), hp, hkept, fun _ => ?_, fun _ _ => rfl, rfl⟩
      rw [hzero]
      exact gains_zero _
    · obtain ⟨hvalid, hkept', hgains⟩ := addSkillAdvance_spec hV hp hkept (hfit hzero)
      exact ⟨_, congrArg some (if_neg hzero), hvalid, hkept', hgains⟩
  | .addManaSpent amount =>
    by_cases hflag : p.notGainMana = true
    · exact ⟨p, congrArg some (if_pos hflag), hp, hkept, by rw [Accounts, if_pos hflag]⟩
    · obtain ⟨hvalid, hkept', hgains⟩ :=
        gainMana_spec hV hp hkept (hfit (Bool.eq_false_of_not_eq_true hflag))
      refine ⟨_, congrArg some (if_neg hflag), hvalid, hkept', ?_⟩
      rw [Accounts, if_neg hflag]
      exact hgains
  | .addOfflineTrainingTries .magLevel tries =>
    by_cases hzero : tries = 0
    · refine ⟨p, congrArg some (if_pos hzero), hp, hkept, ?_, rfl⟩
      rw [hzero]
      exact gains_zero _
    · obtain ⟨hvalid, hkept', hgains⟩ := gainMana_spec hV hp hkept (hfit hzero)
      exact ⟨_, congrArg some (if_neg hzero), hvalid, hkept', hgains⟩
  | .addOfflineTrainingTries .level tries =>
    refine ⟨p, congrArg some ?_, hp, hkept, rfl⟩
    unfold addOfflineTrainingTries
    exact ite_self p
  | .death deathLossPercent => exact death_spec hp hkept hfit
  | .getReqSkillTries skill level =>
    -- A query moves no tries; it only fills the cache.
    refine ⟨_, rfl, ⟨hp.skills, hp.magic⟩, ⟨?_, hkept.magic⟩, rfl⟩
    exact update_cases (P := fun skill cache => L.trained skill → (V.skill skill).Kept cache)
      (fun h => (Requirement.get_spec (hkept.skill skill h) level).kept) hkept.skill

/-- In a run whose numbers fit, the tries stay below those of the next level, and every call
    that fits adds what is gained to the total, or takes its part of it. -/
theorem accounted_of_reachable (hV : V.Growing L) (hp : (system V L).ReachableVia (Fits V L) p) :
    Valid V L p ∧ ∀ op, Fits V L p op → ∃ p', p.next V op = some p' ∧ Accounts V L p p' op := by
  have hinv : Valid V L p ∧ Kept V L p := by
    refine hp.invariant (I := fun p => Valid V L p ∧ Kept V L p) (fun _ h => h) ?_
    intro p op p' h hfit hstep
    obtain ⟨p'', hnext, hvalid, hkept, -⟩ := next_spec hV h.1 h.2 op hfit
    obtain rfl : p'' = p' := Option.some.inj (hnext.symm.trans hstep)
    exact ⟨hvalid, hkept⟩
  refine ⟨hinv.1, fun op hfit => ?_⟩
  obtain ⟨p', hnext, -, -, haccounts⟩ := next_spec hV hinv.1 hinv.2 op hfit
  exact ⟨p', hnext, haccounts⟩

/-! With all multipliers 2 the numbers fit into a word up to these levels. -/

def doublingLimits : Limits where
  trained skill := 0 < skillBase skill
  skill
    | .shield => 68
    | .distance | .fishing => 70
    | _ => 69
  magLevel := 27

theorem growing_doubling : doubling.Growing doublingLimits where
  skill skill h := by
    have hgrow : ∀ skill : Skills, 0 < skillBase skill → ∀ level < doublingLimits.skill skill,
        10 ≤ level → (doubling.skill skill).req level < (doubling.skill skill).req (level + 1) := by
      intro skill h
      cases skill <;> first | exact absurd h (by decide) | decide +kernel
    refine ⟨?_, ?_, fun level hmin hlt => hgrow skill h level hlt hmin, ?_⟩
    · cases skill <;> decide
    · cases skill <;> decide
    · cases skill <;> decide +kernel
  magic := by
    have hgrow : ∀ level < 27, doubling.magic.req level < doubling.magic.req (level + 1) := by
      decide +kernel
    exact ⟨by decide, by decide, fun level _ hlt => hgrow level hlt, by decide +kernel⟩

/-- A player with a level of his sword skill, whose vocation was not asked yet. -/
def swordsman (level : ℕ) (tries : UInt64) : Pupil where
  skills skill := if skill = .sword then ⟨level, tries⟩ else ⟨10, 0⟩
  magic := ⟨0, 0⟩
  notGainMana := false
  cacheSkill _ _ := none
  cacheMana _ := none

theorem init_swordsman {level : ℕ} {tries : UInt64} (hmin : 10 ≤ level) (hmax : level < 69)
    (htries : tries < (doubling.skill .sword).req (level + 1)) :
    (system doubling doublingLimits).init (swordsman level tries) := by
  have hmagic : doubling.magic.Valid doublingLimits.magLevel ⟨0, 0⟩ :=
    ⟨by decide, by decide, fun _ => by decide +kernel⟩
  have hkept (r : Requirement) : r.Kept fun _ => none := by
    intro level tries h
    cases h
  refine ⟨⟨fun skill h => ?_, hmagic⟩, fun skill _ => hkept _, hkept _⟩
  by_cases hskill : skill = .sword
  · subst hskill
    exact ⟨hmin, Nat.le_of_lt hmax, fun _ => htries⟩
  · have hself : (swordsman level tries).skills skill = ⟨10, 0⟩ := if_neg hskill
    rw [hself]
    refine ⟨by cases skill <;> decide, by cases skill <;> decide, fun _ => ?_⟩
    have hbase : 0 < skillBase skill := h
    revert hbase
    cases skill <;> decide +kernel

/-- The loss of a young player without blessings, 0.05 as a `double`. -/
def lossPercent : ℚ := 3602879701896397 / 2 ^ 56

/-- With 100 tries the level 11, which takes 50, is reached. A death takes 5 of them. -/
theorem accounted_swordsman :
    ∃ p', ((swordsman 10 0).addSkillAdvance doubling .sword 100).next doubling
        (.death lossPercent) = some p' ∧
      (doubling.skill .sword).total (p'.skills .sword) + 5 = 100 := by
  have h₀ : (system doubling doublingLimits).ReachableVia (Fits doubling doublingLimits)
      (swordsman 10 0) := .init (init_swordsman (by decide) (by decide) (by decide +kernel))
  have hgain : Fits doubling doublingLimits (swordsman 10 0) (.addSkillAdvance .sword 100) :=
    fun _ => ⟨fun _ => .inl (by decide), fun _ _ => .inl rfl, fun _ _ _ _ _ => .inl rfl⟩
  have h₁ := h₀.step hgain rfl
  have hdeath : Fits doubling doublingLimits
      ((swordsman 10 0).addSkillAdvance doubling .sword 100) (.death lossPercent) := by
    have hfits : ∀ (skill : Skills) (level : ℕ), level ≤ 11 →
        (doubling.skill skill).kept ((doubling.skill skill).tries level) =
          (doubling.skill skill).tries level := by
      intro skill
      cases skill <;> decide +kernel
    have hlevel : ∀ skill, (((swordsman 10 0).addSkillAdvance doubling .sword 100).skills
        skill).level ≤ 11 := by
      intro skill
      cases skill <;> decide +kernel
    refine ⟨by decide +kernel, by decide +kernel, by decide, fun skill => ?_,
      ⟨by decide +kernel, by decide +kernel, fun level h => ?_, fun level h₁ h₂ => ?_⟩,
      fun skill _ => ⟨⟨?_, ?_, fun level h => ?_, fun level _ h _ => ?_⟩, ?_, fun level _ => ?_⟩⟩
    · exact Nat.ne_of_lt (Nat.lt_of_le_of_lt (Nat.succ_le_succ (hlevel skill))
        (by decide : 12 < 2 ^ 16))
    · exact fun _ => .inl rfl
    · exact absurd (Nat.lt_of_lt_of_le h₁ h₂) (by decide)
    · cases skill <;> decide +kernel
    · cases skill <;> decide +kernel
    · exact Requirement.exact_of_kept (hfits skill level (Nat.le_trans h (hlevel skill)))
    · exact hfits skill level (Nat.le_trans h (hlevel skill))
    · cases skill <;> decide +kernel
    · have htotal : (doubling.skill skill).total (((swordsman 10 0).addSkillAdvance doubling .sword
          100).skills skill) ≤ 100 := by
        cases skill <;> decide +kernel
      omega
  obtain ⟨-, h⟩ := accounted_of_reachable growing_doubling h₁
  obtain ⟨p', hnext, -, hskills⟩ := h _ hdeath
  refine ⟨p', hnext, ?_⟩
  have hlost := (hskills .sword (by decide : 0 < skillBase .sword)).total_eq
  have htotal : (doubling.skill .sword).total
      (((swordsman 10 0).addSkillAdvance doubling .sword 100).skills .sword) = 100 := by
    decide +kernel
  have hpart : (doubling.skill .sword).lostOf
      (((swordsman 10 0).addSkillAdvance doubling .sword 100).skills .sword) lossPercent = 5 := by
    decide +kernel
  rwa [htotal, hpart] at hlost

/-- At level 36 the player has 2.6 billion of the 3355443200 tries for level 37. A death that costs
    one part in twenty of all takes all of these. -/
theorem swordsman_loses_all :
    (doubling.Growing doublingLimits) ∧
      (system doubling doublingLimits).Reachable (swordsman 36 2600000000) ∧
      (doubling.skill .sword).total ((swordsman 36 2600000000).skills .sword) = 5955443150 ∧
      (doubling.skill .sword).lostOf ((swordsman 36 2600000000).skills .sword) lossPercent =
        297772157 ∧
      ((swordsman 36 2600000000).next doubling (.death lossPercent)).map
        (fun p => (doubling.skill .sword).total (p.skills .sword)) = some 3355443150 :=
  ⟨growing_doubling, .init (init_swordsman (by decide) (by decide) (by decide +kernel)),
    by decide +kernel, by decide +kernel, by decide +kernel⟩

end Pupil

end Canary.Players
