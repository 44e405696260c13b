import Mathlib.Data.Int.Log
import Mathlib.Data.Rat.Floor
import Mathlib.Logic.Function.Basic

/-!
# Required tries

What a vocation requires for the levels of a skill, and of the magic level. A number is computed once
for every level, and then kept in a cache, which all players of the vocation share. The cache of the
skills has numbers of 32 bits, so that the first one who asks gets another number than those after
him if it does not fit.

* `Requirement.get` is what is got for a level, `Requirement.req` what is computed.
* They agree where the cache is `Exact` (`get_spec`), and what is got is never more.
* `Requirement.UpTo`: the required tries grow up to a maximum level, behind which there is no next
  one.
-/

namespace Canary.Players

/-- The skills from `SKILL_FIRST` to `SKILL_LAST`. -/
inductive Skills where
  | fist
  | club
  | sword
  | axe
  | distance
  | shield
  | fishing
  | criticalHitChance
  | criticalHitDamage
  | lifeLeechChance
  | lifeLeechAmount
  | manaLeechChance
  | manaLeechAmount
  deriving DecidableEq, Repr

def Skills.all : List Skills :=
  [.fist, .club, .sword, .axe, .distance, .shield, .fishing, .criticalHitChance,
    .criticalHitDamage, .lifeLeechChance, .lifeLeechAmount, .manaLeechChance, .manaLeechAmount]

/-- A skill, or the magic level with the mana spent. -/
structure Skill where
  level : ℕ
  tries : UInt64
  deriving DecidableEq

/-- What is computed for the levels behind `minLevel`, which are numbers of `width` bits, and what a
cache keeps of it. -/
structure Requirement where
  minLevel : ℕ
  width : ℕ
  tries : ℕ → UInt64
  kept : UInt64 → UInt64
  kept_le : ∀ tries, kept tries ≤ tries

/-- The numbers that were asked for. -/
abbrev Cache := ℕ → Option UInt64

namespace Requirement

variable (r : Requirement)

/-- What it takes to reach the level. -/
def req (level : ℕ) : UInt64 := if level ≤ r.minLevel then 0 else r.tries level

/-- `getReqSkillTries` and `getReqMana` -/
def get (cache : Cache) (level : ℕ) : UInt64 × Cache :=
  if level ≤ r.minLevel then (0, cache)
  else
    match cache level with
    | some tries => (tries, cache)
    | none => (r.tries level, Function.update cache level (some (r.kept (r.tries level))))

/-- What it takes to reach the next level. -/
def next (cache : Cache) (level : ℕ) : UInt64 × Cache :=
  r.get cache ((level + 1) % 2 ^ r.width)

/-- What all levels up to this one have required, as it does not fit into a word. -/
def sum : ℕ → ℕ
  | 0 => 0
  | level + 1 => sum level + (r.req (level + 1)).toNat

/-- All tries that were made. -/
def total (s : Skill) : ℕ := r.sum s.level + s.tries.toNat

/-! ## The cache -/

/-- What the cache has was computed. -/
def Kept (cache : Cache) : Prop :=
  ∀ level tries, cache level = some tries → tries = r.kept (r.tries level)

/-- What is got for the level is what is computed: it is not in the cache, or fits. -/
def Exact (cache : Cache) (level : ℕ) : Prop :=
  r.minLevel < level → cache level = none ∨ r.kept (r.tries level) = r.tries level

/-- What is got for a level, and the cache after that. -/
structure Got (cache : Cache) (level : ℕ) (tries : UInt64) (cache' : Cache) : Prop where
  kept : r.Kept cache'
  le : tries ≤ r.req level
  eq : r.Exact cache level → tries = r.req level
  other : ∀ level', level' ≠ level → cache' level' = cache level'

variable {r} {cache : Cache}

theorem get_spec (h : r.Kept cache) (level : ℕ) :
    r.Got cache level (r.get cache level).1 (r.get cache level).2 := by
  by_cases hmin : level ≤ r.minLevel
  · rw [get, if_pos hmin]
    exact ⟨h, UInt64.zero_le, fun _ => by rw [req, if_pos hmin], fun _ _ => rfl⟩
  have hreq : r.req level = r.tries level := by rw [req, if_neg hmin]
  rw [get, if_neg hmin]
  cases hcache : cache level with
  | some tries =>
    have hkept : tries = r.kept (r.tries level) := h level tries hcache
    refine ⟨h, by rw [hreq, hkept]; exact r.kept_le _, fun hexact => ?_, fun _ _ => rfl⟩
    have hsame := (hexact (Nat.lt_of_not_le hmin)).resolve_left (by rw [hcache]; exact nofun)
    rw [hreq, hkept, hsame]
  | none =>
    refine ⟨fun level' tries htries => ?_, UInt64.le_of_eq hreq.symm, fun _ => hreq.symm,
      fun level' hne => Function.update_of_ne hne _ _⟩
    change Function.update cache level (some (r.kept (r.tries level))) level' = some tries at htries
    by_cases hlevel : level' = level
    · rw [hlevel, Function.update_self] at htries
      rw [hlevel]
      exact (Option.some.inj htries).symm
    · rw [Function.update_of_ne hlevel] at htries
      exact h level' tries htries

theorem kept_next (h : r.Kept cache) (level : ℕ) : r.Kept (r.next cache level).2 :=
  (get_spec h _).kept

theorem Exact.other {level level' : ℕ} (h : r.Exact cache level') {tries : UInt64} {cache' : Cache}
    (hgot : r.Got cache level tries cache') (hne : level' ≠ level) : r.Exact cache' level' :=
  fun hmin => by rw [hgot.other level' hne]; exact h hmin

/-- A number that fits is got from the cache, too. -/
theorem exact_of_kept {level : ℕ} (h : r.kept (r.tries level) = r.tries level) :
    r.Exact cache level :=
  fun _ => .inr h

/-! ## Levels up to a maximum -/

/-- The required tries grow up to the maximum level, which has no next one. -/
structure UpTo (r : Requirement) (maxLevel : ℕ) : Prop where
  minLevel_le : r.minLevel ≤ maxLevel
  lt_width : maxLevel < 2 ^ r.width
  growing : ∀ level, r.minLevel ≤ level → level < maxLevel → r.req level < r.req (level + 1)
  last : r.req ((maxLevel + 1) % 2 ^ r.width) ≤ r.req maxLevel

variable {maxLevel level : ℕ}

theorem sum_mono {level' : ℕ} (h : level ≤ level') : r.sum level ≤ r.sum level' := by
  induction h with
  | refl => exact Nat.le_refl _
  | step _ ih => exact Nat.le_trans ih (Nat.le_add_right _ _)

theorem sum_eq_zero (h : level ≤ r.minLevel) : r.sum level = 0 := by
  induction level with
  | zero => rfl
  | succ level ih => rw [sum, ih (Nat.le_of_succ_le h), req, if_pos h, UInt64.toNat_zero]

namespace UpTo

variable (h : r.UpTo maxLevel)

include h

/-- The next level, as long as there is one. -/
theorem next_spec (hkept : r.Kept cache) (hlt : level < maxLevel) :
    r.Got cache (level + 1) (r.next cache level).1 (r.next cache level).2 := by
  rw [next, Nat.mod_eq_of_lt (Nat.lt_of_le_of_lt hlt h.lt_width)]
  exact get_spec hkept _

/-- Behind the maximum level no more is asked for. -/
theorem next_last_le (hkept : r.Kept cache) : (r.next cache maxLevel).1 ≤ r.req maxLevel :=
  UInt64.le_trans (get_spec hkept _).le h.last

/-- A level that has a next one requires less than that. -/
theorem req_lt_next (hkept : r.Kept cache) (hmin : r.minLevel ≤ level) (hlt : level < maxLevel)
    (hexact : r.Exact cache (level + 1)) : r.req level < (r.next cache level).1 := by
  rw [(h.next_spec hkept hlt).eq hexact]
  exact h.growing level hmin hlt

end UpTo

end Requirement

/-- What is computed for a vocation, which is the multiplier of a skill to the power of the level,
times its base. -/
structure Requirements where
  reqSkillTries : Skills → ℕ → UInt64
  reqMana : ℕ → UInt64

namespace Requirements

variable (V : Requirements)

/-- `std::map<uint32_t, uint32_t> cacheSkill` -/
def skill (skill : Skills) : Requirement where
  minLevel := 10
  width := 16
  tries := V.reqSkillTries skill
  kept tries := tries.toUInt32.toUInt64
  kept_le tries := by
    rw [UInt64.le_iff_toNat_le, UInt32.toNat_toUInt64, UInt64.toNat_toUInt32]
    exact Nat.mod_le _ _

/-- `std::map<uint32_t, uint64_t> cacheMana` -/
def magic : Requirement where
  minLevel := 0
  width := 32
  tries := V.reqMana
  kept tries := tries
  kept_le _ := UInt64.le_refl _

end Requirements

/-! ## Losses -/

/-- The nearest number of 53 bits, and of two that are the even one. -/
def toDouble (x : ℚ) : ℚ :=
  let unit : ℚ := 2 ^ (Int.log 2 x - 52)
  let units := ⌊x / unit⌋
  let rest := x / unit - units
  (if rest < 1 / 2 ∨ rest = 1 / 2 ∧ units % 2 = 0 then units else units + 1) * unit

/-- The part `p` of the tries, multiplied as `double`s. -/
def lostPart (tries : ℕ) (p : ℚ) : ℕ := ⌊toDouble (toDouble tries * p)⌋₊

/-! ## A vocation whose powers are exact -/

/-- `Vocation::skillBase` -/
def skillBase : Skills → ℕ
  | .fist | .club | .sword | .axe => 50
  | .distance => 30
  | .shield => 100
  | .fishing => 20
  | _ => 0

/-- All multipliers of skills are 2, and that of the mana is 4. What is out of range is 0. -/
def doubling : Requirements where
  reqSkillTries skill level := .ofNat (let tries := skillBase skill * 2 ^ (level - 11)
    if tries < 2 ^ 64 then tries else 0)
  reqMana level := .ofNat (let mana := 1600 * 4 ^ (level - 1)
    if mana < 2 ^ 64 then mana else 0)

end Canary.Players
