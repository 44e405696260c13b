import Canary.Lib.Contributions
import Canary.Lib.Transition
import Mathlib.Algebra.Group.Pi.Basic
import Mathlib.Algebra.Group.Prod
import Mathlib.Algebra.Group.TransferInstance
import Mathlib.Data.BitVec

/-!
# Conditions on attributes

A condition of this kind changes numbers of the creature that has it: skills and stats of a
player, and the buffs, the absorbed and the increased damage, the chance of charms and the use of
the defense of any creature. It keeps what it has changed, to undo it at its end. Conditions of one
type, id and sub id are one: when another is added, the old changes are undone and those of the new
one are made.

In every run in which no condition with a negative increase ends or is refreshed, and only players
get charm modifiers (`Fits`), the numbers are as before when no condition remains
(`conditions_undone`). A negative increase is not undone (`increase_kept`).

The values of a percentage are computed in floating point, of numbers of the creature of which some
are read elsewhere. The computations are a parameter, what is read elsewhere is an argument of the
calls.
-/

namespace Canary.Conditions

open Transition Contributions

/-- `int32_t`, where an overflow wraps. -/
abbrev Value := BitVec 32

/-- `SKILL_FIRST` to `SKILL_LAST`. -/
abbrev Skill := Fin 13

inductive Stat where
  | maxHitPoints | maxManaPoints | soulPoints | magicPoints | capacity
  deriving DecidableEq

/-- `BUFF_FIRST` to `BUFF_LAST`. -/
abbrev Buff := Fin 3

/-- The index of a combat type, below `COMBAT_COUNT`. -/
abbrev CombatIndex := Fin 14

/-- The numbers that conditions change. A condition has what it adds, a creature the sum. -/
@[ext]
structure Modifiers where
  skills : Skill → Value
  stats : Stat → Value
  buffs : Buff → Value
  absorbs : CombatIndex → Value
  increases : CombatIndex → Value
  charmChanceModifier : BitVec 8

/-- What a condition has of its own. -/
structure Attributes extends Modifiers where
  skillsPercent : Skill → Value
  statsPercent : Stat → Value
  buffsPercent : Buff → Value
  absorbsPercent : CombatIndex → Value
  increasesPercent : CombatIndex → Value
  disableDefense : Bool

structure ConditionAttributes extends Attributes where
  conditionType : UInt8
  id : Int8
  subId : UInt32
  ticks : ℤ
  endTime : ℤ

structure Creature extends Modifiers where
  isPlayer : Bool
  canUseDefense : Bool
  conditions : List ConditionAttributes

/-- The computations in floating point. -/
structure FloatOps where
  /-- `x * ((percent - 100) / 100.f)` -/
  change : Value → Value → Value
  /-- `x * (percent / 100.f)` -/
  share : Value → Value → Value
  /-- `std::round((100 - x) * percent / 100.f)` -/
  rest : Value → Value → Value

/-- What a call reads of a player, and the time. -/
structure Reads where
  getBaseSkill : Skill → Value
  getMaxHealth : Value
  getMaxMana : Value
  getBaseMagicLevel : Value
  getCapacity : Value
  now : ℤ

namespace ConditionAttributes

variable (f : FloatOps) (r : Reads) (s : Creature) (c add : ConditionAttributes)

/-! ## The percentages -/

/-- A value is computed where there is a percentage. -/
def ofPercent {ι : Type} (percent value computed : ι → Value) : ι → Value := fun i =>
  if percent i = 0 then value i else computed i

def updatePercentSkills : ConditionAttributes :=
  { c with skills := ofPercent c.skillsPercent c.skills fun i =>
      f.change (r.getBaseSkill i) (c.skillsPercent i) }

def updatePercentStats : ConditionAttributes :=
  { c with stats := ofPercent c.statsPercent c.stats fun
    | .maxHitPoints => f.change r.getMaxHealth (c.statsPercent .maxHitPoints)
    | .maxManaPoints => f.change r.getMaxMana (c.statsPercent .maxManaPoints)
    | .soulPoints => c.stats .soulPoints
    | .magicPoints => f.change r.getBaseMagicLevel (c.statsPercent .magicPoints)
    | .capacity => f.share r.getCapacity (c.statsPercent .capacity) }

def updatePercentBuffs : ConditionAttributes :=
  { c with buffs := ofPercent c.buffsPercent c.buffs fun i =>
      f.change (s.buffs i) (c.buffsPercent i) }

def updatePercentAbsorbs : ConditionAttributes :=
  { c with absorbs := ofPercent c.absorbsPercent c.absorbs fun i =>
      f.rest (s.absorbs i) (c.absorbsPercent i) }

def updatePercentIncreases : ConditionAttributes :=
  { c with increases := ofPercent c.increasesPercent c.increases fun i =>
      f.rest (s.increases i) (c.increasesPercent i) }

/-! ## What a condition does to the creature -/

/-- What is not zero is added. -/
def added {ι : Type} (sum value : ι → Value) : ι → Value := fun i =>
  if value i = 0 then sum i else sum i + value i

def updateSkills : Creature := { s with skills := added s.skills c.skills }

def updateStats : Creature := { s with stats := added s.stats c.stats }

def updateBuffs : Creature := { s with buffs := added s.buffs c.buffs }

def updateAbsorbs : Creature := { s with absorbs := added s.absorbs c.absorbs }

def updateIncreases : Creature := { s with increases := added s.increases c.increases }

def updateCharmChanceModifier : Creature :=
  { s with charmChanceModifier := s.charmChanceModifier + c.charmChanceModifier }

/-- The calls of `startCondition` and of `addCondition`, in their order. -/
def update : Creature × ConditionAttributes :=
  let c := c.updatePercentBuffs f s
  let s := c.updateBuffs s
  let c := c.updatePercentAbsorbs f s
  let s := c.updateAbsorbs s
  let c := c.updatePercentIncreases f s
  let s := c.updateIncreases s
  let s := c.updateCharmChanceModifier s
  if s.isPlayer then
    let c := c.updatePercentSkills f r
    let s := c.updateSkills s
    let c := c.updatePercentStats f r
    let s := c.updateStats s
    (s, c)
  else (s, c)

/-- The increases, where they are positive, are taken away, and everything else is too. The charm
modifier is that of a player. -/
def endCondition : Creature :=
  let s : Creature :=
    if s.isPlayer then
      { s with
        skills := added s.skills (-c.skills)
        stats := added s.stats (-c.stats)
        charmChanceModifier := s.charmChanceModifier - c.charmChanceModifier }
    else s
  { s with
    buffs := added s.buffs (-c.buffs)
    absorbs := added s.absorbs (-c.absorbs)
    increases := fun i =>
      if 0 < (c.increases i).toInt then s.increases i + -c.increases i else s.increases i
    canUseDefense := if c.disableDefense then true else s.canUseDefense }

def setTicks (now ticks : ℤ) : ConditionAttributes :=
  { c with ticks := ticks, endTime := ticks + now }

def updateCondition (now : ℤ) : Bool :=
  c.conditionType = add.conditionType && !(c.ticks = -1 && add.ticks > 0) &&
    !(add.ticks ≥ 0 && c.endTime > now + add.ticks)

def startCondition : Creature × ConditionAttributes :=
  let c := if c.ticks > 0 then { c with endTime := c.ticks + r.now } else c
  update f r { s with canUseDefense := !c.disableDefense } c

/-- The condition `c` of the creature takes over what `add` has. -/
def addCondition : Creature × ConditionAttributes :=
  if c.updateCondition add r.now then
    let c := c.setTicks r.now add.ticks
    let s := c.endCondition s
    update f r s { c with toAttributes := add.toAttributes }
  else (s, c)

def executeCondition (interval : ℤ) : ConditionAttributes :=
  if c.ticks = -1 then c else { c with ticks := max 0 (c.ticks - interval) }

end ConditionAttributes

namespace Creature

variable (f : FloatOps) (r : Reads) (s : Creature)

/-- `getCondition` -/
def getCondition (c : ConditionAttributes) : Option (Fin s.conditions.length) :=
  s.conditions.findFinIdx? fun prev =>
    prev.conditionType = c.conditionType && prev.id = c.id && prev.subId = c.subId

def addCondition (c : ConditionAttributes) : Creature :=
  match s.getCondition c with
  | some i =>
    let (s', prev) := s.conditions[i].addCondition f r s c
    { s' with conditions := s.conditions.set i prev }
  | none =>
    let (s', c) := c.startCondition f r s
    { s' with conditions := s.conditions ++ [c] }

def removeCondition (i : ℕ) : Creature :=
  if h : i < s.conditions.length then
    { s.conditions[i].endCondition s with conditions := s.conditions.eraseIdx i }
  else s

def executeCondition (i : ℕ) (interval : ℤ) : Creature :=
  if h : i < s.conditions.length then
    { s with conditions := s.conditions.set i (s.conditions[i].executeCondition interval) }
  else s

end Creature

/-! ## Runs -/

inductive ConditionOp where
  | addCondition (r : Reads) (c : ConditionAttributes)
  | removeCondition (i : ℕ)
  | executeCondition (i : ℕ) (interval : ℤ)

namespace ConditionOp

def next (f : FloatOps) (s : Creature) : ConditionOp → Creature
  | addCondition r c => s.addCondition f r c
  | removeCondition i => s.removeCondition i
  | executeCondition i interval => s.executeCondition i interval

/-- The steps that undo what was done.

* A condition that is refreshed, or ends, has no negative increase.
* A condition that a creature other than a player gets has no charm modifier. -/
def Fits (s : Creature) : ConditionOp → Prop
  | addCondition r c =>
    match s.getCondition c with
    | some i =>
      s.conditions[i].updateCondition c r.now = true →
        (∀ j, 0 ≤ (s.conditions[i].increases j).toInt) ∧
          (s.isPlayer = false → c.charmChanceModifier = 0)
    | none => s.isPlayer = false → c.charmChanceModifier = 0
  | removeCondition i => ∀ c ∈ s.conditions[i]?, ∀ j, 0 ≤ (c.increases j).toInt
  | executeCondition _ _ => True

end ConditionOp

/-- A creature without these conditions can use its defense. -/
def Fresh (s : Creature) : Prop := s.conditions = [] ∧ s.canUseDefense = true

def attributes (f : FloatOps) (s₀ : Creature) : System Creature ConditionOp :=
  .ofNext (fun s => s = s₀) fun s op => some (op.next f s)

/-! ## Sums of modifiers -/

namespace Modifiers

def equiv : Modifiers ≃ (Skill → Value) × (Stat → Value) × (Buff → Value) ×
    (CombatIndex → Value) × (CombatIndex → Value) × BitVec 8 where
  toFun m := (m.skills, m.stats, m.buffs, m.absorbs, m.increases, m.charmChanceModifier)
  invFun p := ⟨p.1, p.2.1, p.2.2.1, p.2.2.2.1, p.2.2.2.2.1, p.2.2.2.2.2⟩

instance : AddCommGroup Modifiers := equiv.addCommGroup

variable (m n : Modifiers)

@[simp] theorem add_skills : (m + n).skills = m.skills + n.skills := rfl
@[simp] theorem add_stats : (m + n).stats = m.stats + n.stats := rfl
@[simp] theorem add_buffs : (m + n).buffs = m.buffs + n.buffs := rfl
@[simp] theorem add_absorbs : (m + n).absorbs = m.absorbs + n.absorbs := rfl
@[simp] theorem add_increases : (m + n).increases = m.increases + n.increases := rfl
@[simp] theorem add_charmChanceModifier :
    (m + n).charmChanceModifier = m.charmChanceModifier + n.charmChanceModifier := rfl
@[simp] theorem neg_skills : (-m).skills = -m.skills := rfl
@[simp] theorem neg_stats : (-m).stats = -m.stats := rfl
@[simp] theorem neg_buffs : (-m).buffs = -m.buffs := rfl
@[simp] theorem neg_absorbs : (-m).absorbs = -m.absorbs := rfl
@[simp] theorem neg_increases : (-m).increases = -m.increases := rfl
@[simp] theorem neg_charmChanceModifier :
    (-m).charmChanceModifier = -m.charmChanceModifier := rfl

end Modifiers

namespace ConditionAttributes

variable {f : FloatOps} {r : Reads} {s : Creature} {c add : ConditionAttributes}

/-- What the condition adds to a creature. -/
def effect (isPlayer : Bool) (c : ConditionAttributes) : Modifiers :=
  { c.toModifiers with
    skills := if isPlayer then c.skills else 0
    stats := if isPlayer then c.stats else 0 }

theorem added_eq {ι : Type} (sum value : ι → Value) : added sum value = sum + value := by
  funext i
  by_cases h : value i = 0
  · rw [added, if_pos h, Pi.add_apply, h, add_zero]
  · rw [added, if_neg h, Pi.add_apply]

theorem update_toModifiers :
    (update f r s c).1.toModifiers = s.toModifiers + (update f r s c).2.effect s.isPlayer := by
  rcases hp : s.isPlayer with _ | _
  · ext <;>
      simp [update, hp, effect, updateBuffs, updateAbsorbs, updateIncreases,
        updateCharmChanceModifier, updatePercentBuffs, updatePercentAbsorbs,
        updatePercentIncreases, added_eq]
  · ext <;>
      simp [update, hp, effect, updateBuffs, updateAbsorbs, updateIncreases,
        updateCharmChanceModifier, updatePercentBuffs, updatePercentAbsorbs,
        updatePercentIncreases, updateSkills, updateStats, updatePercentSkills,
        updatePercentStats, added_eq]

theorem update_canUseDefense : (update f r s c).1.canUseDefense = s.canUseDefense := by
  rcases hp : s.isPlayer with _ | _ <;>
    simp [update, hp, updateBuffs, updateAbsorbs, updateIncreases, updateCharmChanceModifier,
      updateSkills, updateStats]

theorem update_isPlayer : (update f r s c).1.isPlayer = s.isPlayer := by
  rcases hp : s.isPlayer with _ | _ <;>
    simp [update, hp, updateBuffs, updateAbsorbs, updateIncreases, updateCharmChanceModifier,
      updateSkills, updateStats]

theorem update_charmChanceModifier :
    (update f r s c).2.charmChanceModifier = c.charmChanceModifier := by
  rcases hp : s.isPlayer with _ | _ <;>
    simp [update, hp, updateBuffs, updateAbsorbs, updateIncreases, updateCharmChanceModifier,
      updatePercentBuffs, updatePercentAbsorbs, updatePercentIncreases, updateSkills, updateStats,
      updatePercentSkills, updatePercentStats]

theorem update_disableDefense : (update f r s c).2.disableDefense = c.disableDefense := by
  rcases hp : s.isPlayer with _ | _ <;>
    simp [update, hp, updateBuffs, updateAbsorbs, updateIncreases, updateCharmChanceModifier,
      updatePercentBuffs, updatePercentAbsorbs, updatePercentIncreases, updateSkills, updateStats,
      updatePercentSkills, updatePercentStats]

/-- What is not negative is taken away. -/
theorem increases_endCondition (h : ∀ i, 0 ≤ (c.increases i).toInt) :
    (c.endCondition s).increases = s.increases - c.increases := by
  funext i
  have hi := h i
  have hend : (c.endCondition s).increases i =
      if 0 < (c.increases i).toInt then s.increases i + -c.increases i else s.increases i := by
    rcases hp : s.isPlayer with _ | _ <;> simp [endCondition, hp]
  rw [hend, Pi.sub_apply]
  split
  case isTrue => exact (sub_eq_add_neg ..).symm
  case isFalse hle =>
    have hzero : (c.increases i).toInt = 0 := by omega
    have h0 : c.increases i = 0 := BitVec.eq_of_toInt_eq (hzero.trans BitVec.toInt_zero.symm)
    rw [h0, sub_zero]

theorem endCondition_toModifiers (h : ∀ i, 0 ≤ (c.increases i).toInt)
    (hc : s.isPlayer = false → c.charmChanceModifier = 0) :
    (c.endCondition s).toModifiers = s.toModifiers - c.effect s.isPlayer := by
  have hinc := increases_endCondition (s := s) h
  rcases hp : s.isPlayer with _ | _
  · have h0 := hc hp
    ext : 1
    case increases => exact hinc
    all_goals simp [endCondition, hp, effect, added_eq, h0, sub_eq_add_neg]
  · ext : 1
    case increases => exact hinc
    all_goals simp [endCondition, hp, effect, added_eq, sub_eq_add_neg]

theorem endCondition_isPlayer : (c.endCondition s).isPlayer = s.isPlayer := by
  rcases hp : s.isPlayer with _ | _ <;> simp [endCondition, hp]

theorem endCondition_canUseDefense :
    (c.endCondition s).canUseDefense = if c.disableDefense then true else s.canUseDefense := by
  rcases hp : s.isPlayer with _ | _ <;> simp [endCondition, hp]

theorem executeCondition_toModifiers (interval : ℤ) :
    (c.executeCondition interval).toModifiers = c.toModifiers := by
  rw [executeCondition]
  split <;> rfl

theorem executeCondition_disableDefense (interval : ℤ) :
    (c.executeCondition interval).disableDefense = c.disableDefense := by
  rw [executeCondition]
  split <;> rfl

end ConditionAttributes

/-! ## The steps -/

/-- What is at another place stays. -/
theorem mem_set_of_ne {α : Type*} {l : List α} {i j : ℕ} (hj : j < l.length) (hne : i ≠ j)
    (a : α) : l[j] ∈ l.set i a :=
  List.mem_of_getElem? ((List.getElem?_set_ne hne).trans (List.getElem?_eq_getElem hj))

/-- The modifiers are accounted for by the conditions, and the defense is disabled by one of
them, if it is. -/
structure Kept (s₀ s : Creature) : Prop where
  isPlayer : s.isPlayer = s₀.isPlayer
  accounted : Accounted (ConditionAttributes.effect s₀.isPlayer) s₀.toModifiers s.toModifiers
    s.conditions
  charm : s.isPlayer = false → ∀ c ∈ s.conditions, c.charmChanceModifier = 0
  defense : s.canUseDefense = false → ∃ c ∈ s.conditions, c.disableDefense = true

namespace Kept

open ConditionAttributes

variable {f : FloatOps} {r : Reads} {s₀ s : Creature} {c : ConditionAttributes}

theorem start (h : Kept s₀ s) (hc : s.isPlayer = false → c.charmChanceModifier = 0) :
    Kept s₀ { (c.startCondition f r s).1 with
      conditions := s.conditions ++ [(c.startCondition f r s).2] } := by
  have hplayer : (c.startCondition f r s).1.isPlayer = s.isPlayer := update_isPlayer
  have hmods : (c.startCondition f r s).1.toModifiers =
      s.toModifiers + (c.startCondition f r s).2.effect s.isPlayer := update_toModifiers
  have hcharm : (c.startCondition f r s).2.charmChanceModifier = c.charmChanceModifier := by
    rw [startCondition, update_charmChanceModifier]
    split <;> rfl
  have hdisable : (c.startCondition f r s).2.disableDefense = c.disableDefense := by
    rw [startCondition, update_disableDefense]
    split <;> rfl
  have hdef : (c.startCondition f r s).1.canUseDefense = !c.disableDefense := by
    rw [startCondition, update_canUseDefense]
    split <;> rfl
  refine ⟨hplayer.trans h.isPlayer, ?_, fun hp d hd => ?_, fun hno => ?_⟩
  · change Accounted _ _ (c.startCondition f r s).1.toModifiers _
    rw [hmods, h.isPlayer]
    exact h.accounted.push _
  · have hp' : s.isPlayer = false := hplayer.symm.trans hp
    rcases List.mem_append.1 hd with hd | hd
    · exact h.charm hp' d hd
    · rw [List.mem_singleton.1 hd, hcharm]
      exact hc hp'
  · change (c.startCondition f r s).1.canUseDefense = false at hno
    refine ⟨_, List.mem_concat_self, ?_⟩
    rw [hdef, Bool.not_eq_false'] at hno
    rw [hdisable, hno]

/-- A condition that is refreshed undoes what it did, and does what the new one does. -/
theorem refresh (h : Kept s₀ s) {i : ℕ} (hi : i < s.conditions.length)
    (hfits : s.conditions[i].updateCondition c r.now = true →
      (∀ j, 0 ≤ (s.conditions[i].increases j).toInt) ∧
        (s.isPlayer = false → c.charmChanceModifier = 0)) :
    Kept s₀ { (s.conditions[i].addCondition f r s c).1 with
      conditions := s.conditions.set i (s.conditions[i].addCondition f r s c).2 } := by
  rw [ConditionAttributes.addCondition]
  by_cases hup : s.conditions[i].updateCondition c r.now = true
  case neg =>
    rw [if_neg hup]
    simp only [List.set_getElem_self]
    exact ⟨h.isPlayer, h.accounted, h.charm, h.defense⟩
  rw [if_pos hup]
  obtain ⟨hinc, hc⟩ := hfits hup
  have hmem : s.conditions[i] ∈ s.conditions := List.getElem_mem hi
  have hend := endCondition_toModifiers (s := s) hinc fun hp => h.charm hp _ hmem
  have hdef := endCondition_canUseDefense (s := s) (c := s.conditions[i])
  refine ⟨?_, ?_, fun hp d hd => ?_, fun hno => ?_⟩
  · exact update_isPlayer.trans (endCondition_isPlayer.trans h.isPlayer)
  · change Accounted _ _ (update f r _ _).1.toModifiers _
    rw [update_toModifiers, endCondition_isPlayer]
    change Accounted _ _ ((s.conditions[i].endCondition s).toModifiers + _) _
    rw [hend, h.isPlayer]
    exact h.accounted.set hi _
  · have hp' : s.isPlayer = false :=
      endCondition_isPlayer.symm.trans (update_isPlayer.symm.trans hp)
    rcases List.mem_or_eq_of_mem_set hd with hd | rfl
    · exact h.charm hp' d hd
    · rw [update_charmChanceModifier]
      exact hc hp'
  · change (update f r _ _).1.canUseDefense = false at hno
    rw [update_canUseDefense] at hno
    change (s.conditions[i].endCondition s).canUseDefense = false at hno
    rw [hdef] at hno
    split at hno
    case isTrue => cases hno
    case isFalse hdis =>
      -- The flag is unset because of another condition, which is still there.
      obtain ⟨d, hd, hdd⟩ := h.defense hno
      obtain ⟨j, hj, rfl⟩ := List.getElem_of_mem hd
      have hne : i ≠ j := by
        rintro rfl
        exact hdis hdd
      exact ⟨_, mem_set_of_ne hj hne _, hdd⟩

theorem remove (h : Kept s₀ s) {i : ℕ} (hi : i < s.conditions.length)
    (hinc : ∀ j, 0 ≤ (s.conditions[i].increases j).toInt) :
    Kept s₀ { s.conditions[i].endCondition s with conditions := s.conditions.eraseIdx i } := by
  have hmem : s.conditions[i] ∈ s.conditions := List.getElem_mem hi
  have hend := endCondition_toModifiers (s := s) hinc fun hp => h.charm hp _ hmem
  refine ⟨endCondition_isPlayer.trans h.isPlayer, ?_, fun hp d hd => ?_, fun hno => ?_⟩
  · change Accounted _ _ (s.conditions[i].endCondition s).toModifiers _
    rw [hend, h.isPlayer]
    exact h.accounted.eraseIdx hi
  · exact h.charm (endCondition_isPlayer.symm.trans hp) d (List.mem_of_mem_eraseIdx hd)
  · change (s.conditions[i].endCondition s).canUseDefense = false at hno
    rw [endCondition_canUseDefense] at hno
    split at hno
    case isTrue => cases hno
    case isFalse hdis =>
      obtain ⟨d, hd, hdd⟩ := h.defense hno
      obtain ⟨j, hj, rfl⟩ := List.getElem_of_mem hd
      have hne : j ≠ i := by
        rintro rfl
        exact hdis hdd
      exact ⟨_, List.mem_eraseIdx_iff_getElem?.2 ⟨j, hne, List.getElem?_eq_getElem hj⟩, hdd⟩

theorem execute (h : Kept s₀ s) {i : ℕ} (hi : i < s.conditions.length) (interval : ℤ) :
    Kept s₀ { s with
      conditions := s.conditions.set i (s.conditions[i].executeCondition interval) } := by
  have hmods := executeCondition_toModifiers (c := s.conditions[i]) interval
  have hdis := executeCondition_disableDefense (c := s.conditions[i]) interval
  have heffect : effect s₀.isPlayer (s.conditions[i].executeCondition interval) =
      effect s₀.isPlayer s.conditions[i] := by
    rw [effect, effect, hmods]
  refine ⟨h.isPlayer, ?_, fun hp d hd => ?_, fun hno => ?_⟩
  · have hset := h.accounted.set hi (s.conditions[i].executeCondition interval)
    rw [heffect, sub_add_cancel] at hset
    exact hset
  · rcases List.mem_or_eq_of_mem_set hd with hd | rfl
    · exact h.charm hp d hd
    · rw [hmods]
      exact h.charm hp _ (List.getElem_mem hi)
  · obtain ⟨d, hd, hdd⟩ := h.defense hno
    obtain ⟨j, hj, rfl⟩ := List.getElem_of_mem hd
    by_cases hij : i = j
    · subst hij
      exact ⟨_, List.mem_set hi _, hdis.trans hdd⟩
    · exact ⟨_, mem_set_of_ne hj hij _, hdd⟩

theorem next {op : ConditionOp} (h : Kept s₀ s) (hfits : op.Fits s) : Kept s₀ (op.next f s) := by
  cases op with
  | addCondition r c =>
    change Kept s₀ (s.addCondition f r c)
    rw [Creature.addCondition]
    rw [ConditionOp.Fits] at hfits
    split
    case h_1 i hi =>
      rw [hi] at hfits
      exact h.refresh i.isLt hfits
    case h_2 hnone =>
      rw [hnone] at hfits
      exact h.start hfits
  | removeCondition i =>
    change Kept s₀ (s.removeCondition i)
    rw [Creature.removeCondition]
    split
    case isTrue hi => exact h.remove hi (hfits _ (List.getElem?_eq_getElem hi))
    case isFalse => exact h
  | executeCondition i interval =>
    change Kept s₀ (s.executeCondition i interval)
    rw [Creature.executeCondition]
    split
    case isTrue hi => exact h.execute hi interval
    case isFalse => exact h

end Kept

/-- In every run whose steps are fit, the modifiers and the use of the defense are as before when no
condition remains. -/
theorem conditions_undone {f : FloatOps} {s₀ s : Creature} (h₀ : Fresh s₀)
    (h : (attributes f s₀).ReachableVia (fun s op => op.Fits s) s) (hnone : s.conditions = []) :
    s.toModifiers = s₀.toModifiers ∧ s.canUseDefense = s₀.canUseDefense := by
  have hinit : Kept s₀ s₀ := by
    refine ⟨rfl, ?_, fun _ c hc => ?_, fun hno => ?_⟩
    · rw [h₀.1]
      exact accounted_nil.2 rfl
    · rw [h₀.1] at hc
      cases hc
    · rw [h₀.2] at hno
      cases hno
  have hkept : Kept s₀ s := by
    refine System.ReachableVia.invariant (I := Kept s₀) ?_ ?_ h
    · rintro _ rfl
      exact hinit
    · intro s op s' hs hfits hs'
      cases hs'
      exact hs.next hfits
  have haccounted := hkept.accounted
  rw [hnone] at haccounted
  refine ⟨accounted_nil.1 haccounted, ?_⟩
  rw [h₀.2]
  by_contra hno
  obtain ⟨c, hc, -⟩ := hkept.defense (Bool.eq_false_of_not_eq_true hno)
  rw [hnone] at hc
  cases hc

/-- The computations without fractions. -/
def wholeOps : FloatOps where
  change x percent := .ofInt 32 ((x.toInt * (percent.toInt - 100)).tdiv 100)
  share x percent := .ofInt 32 ((x.toInt * percent.toInt).tdiv 100)
  rest x percent := .ofInt 32 (((100 - x.toInt) * percent.toInt).tdiv 100)

def noReads : Reads := ⟨fun _ => 0, 0, 0, 0, 0, 0⟩

def noModifiers : Modifiers :=
  ⟨fun _ => 0, fun _ => 0, fun _ => 100, fun _ => 0, fun _ => 0, 0⟩

def freshPlayer : Creature := ⟨noModifiers, true, true, []⟩

/-- A condition that changes the physical damage by a percentage, for ten seconds. -/
def increaseBy (percent : Value) : ConditionAttributes where
  toModifiers := { noModifiers with buffs := fun _ => 0 }
  conditionType := 20
  id := 0
  subId := 0
  ticks := 10000
  endTime := 0
  skillsPercent _ := 0
  statsPercent _ := 0
  buffsPercent _ := 0
  absorbsPercent _ := 0
  increasesPercent i := if i = 0 then percent else 0
  disableDefense := true

/-- The player gets the condition, and it is removed. -/
def afterIncrease (percent : Value) : Creature :=
  ConditionOp.next wholeOps
    (ConditionOp.next wholeOps freshPlayer (.addCondition noReads (increaseBy percent)))
    (.removeCondition 0)

theorem conditions_undone_increase :
    (afterIncrease 20).toModifiers = freshPlayer.toModifiers ∧
      (afterIncrease 20).canUseDefense = freshPlayer.canUseDefense := by
  have hadd : (ConditionOp.addCondition noReads (increaseBy 20)).Fits freshPlayer :=
    fun hp => absurd hp (by decide)
  have hremove : (ConditionOp.removeCondition 0).Fits
      (ConditionOp.next wholeOps freshPlayer (.addCondition noReads (increaseBy 20))) := by
    intro c hc
    cases hc
    decide
  exact conditions_undone ⟨rfl, rfl⟩ (.step (.step (.init rfl) hadd rfl) hremove rfl) rfl

/-- A decrease by 20 percent stays. -/
theorem increase_kept :
    (attributes wholeOps freshPlayer).Reachable (afterIncrease (-20)) ∧
      (afterIncrease (-20)).conditions = [] ∧
      (afterIncrease (-20)).toModifiers ≠ freshPlayer.toModifiers := by
  refine ⟨.step (.step (.init rfl) trivial rfl) trivial rfl, rfl, fun heq => ?_⟩
  have hinc := congrFun (congrArg Modifiers.increases heq) 0
  exact absurd hinc (by decide)

end Canary.Conditions
