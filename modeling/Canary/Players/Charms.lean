import Canary.Lib.FlagWord
import Canary.Lib.Transition
import Mathlib.Algebra.BigOperators.Group.Finset.Basic
import Mathlib.Algebra.Order.BigOperators.Group.Finset
import Mathlib.Data.Fintype.Card

/-!
# Charms

Killing enough monsters of a race completes its entry of the bestiary, which earns charm points.
Points buy charm runes, and a rune that is unlocked can be set on a race. Which runes are
unlocked, which are used and on which race are three records, changed on request of the client.

In every run in which a rune is bought once, and set only if it is unlocked, on a race without a
rune, and in which no entry that is complete reaches another threshold (`Fits`), the points are
what the entries earned and the runes did not cost, a rune is used if it has a race, only
unlocked ones are, and no race has two (`charms_consistent`). None of these is checked: a rune
that is unlocked can be bought again (`bought_twice`).

Which charms there are, and the entries of the bestiary, are fixed. Whether a player is premium,
or can pay to take a rune off, is an argument of the calls.
-/

namespace Canary.Players

open Transition FlagWord Finset

/-- `charmRune_t`, from `CHARM_WOUND` to `CHARM_VOID`. -/
abbrev CharmRune := Fin 19

abbrev RaceId := UInt16

structure MonsterType where
  raceid : RaceId
  bestiaryFirstUnlock : UInt16
  bestiarySecondUnlock : UInt16
  bestiaryToUnlock : UInt16
  bestiaryCharmsPoints : UInt16
  deriving DecidableEq

structure Bestiary where
  /-- The runes that are registered, with their cost. -/
  charms : CharmRune → Option UInt16
  /-- The races of the bestiary, and the entry of each. -/
  races : Finset RaceId
  entry : RaceId → MonsterType

structure CharmPlayer where
  charmPoints : UInt32
  unlockedRunes : BitVec 32
  usedRunes : BitVec 32
  race : CharmRune → RaceId
  /-- The storage values of the kill counts, where a negative one is none. -/
  killCount : RaceId → UInt32

/-! ## The bestiary -/

/-- The flag of a rune. -/
def CharmRune.binary (rune : CharmRune) : BitVec 32 := BitVec.twoPow 32 rune

def Bestiary.getBestiaryCharm (b : Bestiary) (runeID : UInt8) : Option (CharmRune × UInt16) :=
  if h : runeID.toNat < 19 then (b.charms ⟨runeID.toNat, h⟩).map fun points => (⟨_, h⟩, points)
  else none

namespace CharmPlayer

variable (b : Bestiary) (s : CharmPlayer)

def addCharmPoints (amount : UInt16) (negative : Bool) : CharmPlayer :=
  { s with charmPoints :=
      if negative then s.charmPoints - amount.toUInt32 else s.charmPoints + amount.toUInt32 }

/-- A storage value has 32 bits, with a sign. -/
def storedCount (count : UInt32) : UInt32 := if count.toBitVec.msb then 0 else count

def addBestiaryKillCount (raceid : RaceId) (amount : UInt32) : CharmPlayer :=
  { s with killCount :=
      Function.update s.killCount raceid (storedCount (s.killCount raceid + amount)) }

/-- A threshold is reached with this count, and was not before. -/
def reached (curCount newCount : UInt32) (threshold : UInt16) : Bool :=
  curCount.toNat < threshold.toNat && threshold.toNat ≤ newCount.toNat

def addBestiaryKill (mtype : MonsterType) (amount : UInt32) : CharmPlayer :=
  if mtype.raceid = 0 then s
  else
    let curCount := s.killCount mtype.raceid
    let newCount := curCount + amount
    let s := s.addBestiaryKillCount mtype.raceid amount
    if curCount = 0 ∨ reached curCount newCount mtype.bestiaryFirstUnlock ∨
        reached curCount newCount mtype.bestiarySecondUnlock ∨
        reached curCount newCount mtype.bestiaryToUnlock then
      if mtype.bestiaryToUnlock.toNat ≤ newCount.toNat then
        s.addCharmPoints mtype.bestiaryCharmsPoints false
      else s
    else s

/-! ## The runes -/

def resetCharmRuneCreature (rune : CharmRune) : CharmPlayer :=
  { s with
    usedRunes := resetFlag s.usedRunes rune.binary
    race := Function.update s.race rune 0 }

def setCharmRuneCreature (rune : CharmRune) (raceid : RaceId) : CharmPlayer :=
  { s with
    race := Function.update s.race rune raceid
    usedRunes := setFlag s.usedRunes rune.binary }

/-- The number of flags that `getCharmUsedRuneBitAll` finds in a word that is not negative. -/
def usedRunesCount : ℕ := (List.range 32).countP fun i => s.usedRunes.getLsbD i

def limitRunes (isPremium charmExpansion : Bool) : ℕ :=
  if isPremium then if charmExpansion then 100 else 6 else 3

/-- `paid`: whether `removeMoney` takes the fee. -/
def sendBuyCharmRune (runeID action : UInt8) (raceid : RaceId)
    (isPremium charmExpansion paid : Bool) : CharmPlayer :=
  match b.getBestiaryCharm runeID with
  | none => s
  | some (rune, points) =>
    if action = 0 then
      if s.charmPoints < points.toUInt32 then s
      else
        let s := s.addCharmPoints points true
        { s with unlockedRunes := setFlag s.unlockedRunes rune.binary }
    else if action = 1 then
      if limitRunes isPremium charmExpansion ≤ s.usedRunesCount then s
      else s.setCharmRuneCreature rune raceid
    else if action = 2 then
      if paid then s.resetCharmRuneCreature rune else s
    else s

/-- `hasCharmUnlockedRuneBit`. -/
def unlocked (rune : CharmRune) : Bool := hasBitSet s.unlockedRunes rune.binary

def used (rune : CharmRune) : Bool := hasBitSet s.usedRunes rune.binary

/-- The entry of the race is complete. -/
def completed (raceid : RaceId) : Prop :=
  (b.entry raceid).bestiaryToUnlock.toNat ≤ (s.killCount raceid).toNat

instance (raceid : RaceId) : Decidable (s.completed b raceid) :=
  inferInstanceAs (Decidable (_ ≤ _))

/-- What the complete entries have earned. -/
def earned : ℕ :=
  ∑ raceid ∈ b.races.erase 0,
    if s.completed b raceid then (b.entry raceid).bestiaryCharmsPoints.toNat else 0

/-- What the unlocked runes cost, each once. -/
def spent : ℕ :=
  ∑ rune, if s.unlocked rune then ((b.charms rune).elim 0 UInt16.toNat) else 0

/-- The points and the three records of the runes agree. -/
structure Consistent : Prop where
  points : s.charmPoints.toNat + s.spent b = s.earned b
  used : ∀ rune, s.used rune = true ↔ s.race rune ≠ 0
  unlocked : ∀ rune, s.used rune = true → s.unlocked rune = true
  injective : ∀ rune rune', s.race rune ≠ 0 → s.race rune = s.race rune' → rune = rune'
  /-- The loop of `getCharmUsedRuneBitAll` ends. -/
  sign : s.usedRunes.msb = false

end CharmPlayer

/-! ## Runs -/

inductive CharmOp where
  | sendBuyCharmRune (runeID action : UInt8) (raceid : RaceId)
      (isPremium charmExpansion paid : Bool)
  | addBestiaryKill (mtype : MonsterType) (amount : UInt32)

namespace CharmOp

variable (b : Bestiary)

def next (s : CharmPlayer) : CharmOp → CharmPlayer
  | sendBuyCharmRune runeID action raceid isPremium charmExpansion paid =>
    s.sendBuyCharmRune b runeID action raceid isPremium charmExpansion paid
  | addBestiaryKill mtype amount => s.addBestiaryKill mtype amount

/-- The steps that keep the records consistent.

* A rune that is unlocked is not bought again (or costs nothing, or more than there is).
* A rune is set, if there is a slot for it, once it is unlocked, on a race which no other has.
* Kills are those of the entry of a race, a kill count stays below 2 ^ 31, and a complete entry
  does not reach another threshold. -/
def Fits (s : CharmPlayer) : CharmOp → Prop
  | sendBuyCharmRune runeID action raceid isPremium charmExpansion _ =>
    ∀ rune points, b.getBestiaryCharm runeID = some (rune, points) →
      (action = 0 → s.unlocked rune = false ∨ points = 0 ∨ s.charmPoints < points.toUInt32) ∧
      (action = 1 → s.usedRunesCount < CharmPlayer.limitRunes isPremium charmExpansion →
        s.unlocked rune = true ∧ raceid ≠ 0 ∧ ∀ rune', rune' ≠ rune → s.race rune' ≠ raceid)
  | addBestiaryKill mtype amount =>
    mtype.raceid ≠ 0 →
      mtype.raceid ∈ b.races ∧ b.entry mtype.raceid = mtype ∧
      (s.killCount mtype.raceid).toNat + amount.toNat < 2 ^ 31 ∧
      (s.completed b mtype.raceid → s.killCount mtype.raceid ≠ 0 ∧
        ∀ threshold ∈ [mtype.bestiaryFirstUnlock, mtype.bestiarySecondUnlock],
          CharmPlayer.reached (s.killCount mtype.raceid) (s.killCount mtype.raceid + amount)
            threshold = false)

end CharmOp

/-- Players with consistent records. -/
def charms (b : Bestiary) : System CharmPlayer CharmOp :=
  .ofNext (CharmPlayer.Consistent b) fun s op => some (op.next b s)

/-! ## Flags and sums -/

theorem hasBitSet_binary (rune rune' : CharmRune) :
    hasBitSet rune.binary rune'.binary = decide (rune = rune') := by
  have hlt := rune.isLt
  have hlt' := rune'.isLt
  rw [Bool.eq_iff_iff, hasBitSet_iff, decide_eq_true_iff]
  simp only [CharmRune.binary, BitVec.getLsbD_twoPow, Bool.and_eq_true, decide_eq_true_eq]
  constructor
  · rintro ⟨i, ⟨-, hi⟩, -, hi'⟩
    exact Fin.ext (hi.trans hi'.symm)
  · rintro rfl
    exact ⟨rune, ⟨by omega, rfl⟩, by omega, rfl⟩

theorem hasBitSet_setFlag_binary (flags : BitVec 32) (rune rune' : CharmRune) :
    hasBitSet (setFlag flags rune.binary) rune'.binary =
      (hasBitSet flags rune'.binary || decide (rune = rune')) := by
  rw [hasBitSet_setFlag, hasBitSet_binary]

theorem hasBitSet_resetFlag_binary (flags : BitVec 32) (rune rune' : CharmRune) :
    hasBitSet (resetFlag flags rune.binary) rune'.binary =
      (hasBitSet flags rune'.binary && decide (rune ≠ rune')) := by
  by_cases h : rune = rune'
  · subst h
    simp [hasBitSet_resetFlag_self]
  · have hmask : rune.binary &&& rune'.binary = 0 := by
      have hbit := hasBitSet_binary rune rune'
      rw [decide_eq_false h, hasBitSet, decide_eq_false_iff_not, not_not] at hbit
      exact hbit
    simp [hasBitSet_resetFlag_of_disjoint hmask, h]

theorem msb_binary (rune : CharmRune) : rune.binary.msb = false := by
  have hlt := rune.isLt
  rw [CharmRune.binary, BitVec.msb_eq_getLsbD_last, BitVec.getLsbD_twoPow]
  simp only [Bool.and_eq_false_iff, decide_eq_false_iff_not]
  exact .inr (by omega)

/-- Two sums that differ in one place. -/
theorem sum_of_ne {ι : Type*} [DecidableEq ι] {t : Finset ι} {f g : ι → ℕ} {a : ι} (ha : a ∈ t)
    (h : ∀ x, x ≠ a → f x = g x) : ∑ x ∈ t, f x + g a = ∑ x ∈ t, g x + f a := by
  have herase : ∑ x ∈ t.erase a, f x = ∑ x ∈ t.erase a, g x :=
    sum_congr rfl fun x hx => h x (ne_of_mem_erase hx)
  rw [← add_sum_erase t f ha, ← add_sum_erase t g ha, herase]
  omega

namespace CharmPlayer

variable {b : Bestiary} {s s' : CharmPlayer}

theorem card_races_le (races : Finset RaceId) : (races.erase 0).card ≤ 65535 := by
  have hmaps : ∀ raceid ∈ races.erase 0, raceid.toNat ∈ (range 65536).erase 0 := by
    intro raceid h
    have hne : raceid.toNat ≠ 0 := fun h0 => ne_of_mem_erase h (UInt16.toNat_inj.1 h0)
    exact mem_erase.2 ⟨hne, mem_range.2 raceid.toNat_lt⟩
  have hle := card_le_card_of_injOn UInt16.toNat hmaps fun _ _ _ _ h => UInt16.toNat_inj.1 h
  rwa [card_erase_of_mem (mem_range.2 (by decide)), card_range] at hle

/-- There are not so many races that their points would exceed 32 bits. -/
theorem earned_lt (b : Bestiary) (s : CharmPlayer) : s.earned b < 2 ^ 32 := by
  have hcard := card_races_le b.races
  have hle : s.earned b ≤ (b.races.erase 0).card • 65535 := by
    refine sum_le_card_nsmul _ _ _ fun raceid _ => ?_
    have hlt := (b.entry raceid).bestiaryCharmsPoints.toNat_lt
    split <;> omega
  rw [Nat.nsmul_eq_mul] at hle
  omega

theorem earned_congr (h : s'.killCount = s.killCount) : s'.earned b = s.earned b := by
  rw [earned, earned]
  exact sum_congr rfl fun raceid _ => if_congr (by rw [completed, completed, h]) rfl rfl

theorem spent_congr (h : s'.unlockedRunes = s.unlockedRunes) : s'.spent b = s.spent b := by
  have hun : s'.unlocked = s.unlocked := funext fun rune => by
    rw [CharmPlayer.unlocked, CharmPlayer.unlocked, h]
  rw [spent, spent, hun]

/-! ### The runes -/

theorem getBestiaryCharm_eq_some {runeID : UInt8} {rune : CharmRune} {points : UInt16}
    (h : b.getBestiaryCharm runeID = some (rune, points)) : b.charms rune = some points := by
  rw [Bestiary.getBestiaryCharm] at h
  split at h
  case isTrue =>
    obtain ⟨p, hp, heq⟩ := Option.map_eq_some_iff.1 h
    cases heq
    exact hp
  case isFalse => cases h

theorem addCharmPoints_negative {amount : UInt16} (hle : amount.toUInt32 ≤ s.charmPoints) :
    (s.addCharmPoints amount true).charmPoints.toNat + amount.toNat = s.charmPoints.toNat := by
  have hle' := UInt32.le_iff_toNat_le.1 hle
  rw [UInt16.toNat_toUInt32] at hle'
  rw [addCharmPoints, if_pos rfl, UInt32.toNat_sub_of_le _ _ hle, UInt16.toNat_toUInt32]
  omega

theorem addCharmPoints_positive {amount : UInt16}
    (hlt : s.charmPoints.toNat + amount.toNat < 2 ^ 32) :
    (s.addCharmPoints amount false).charmPoints.toNat = s.charmPoints.toNat + amount.toNat := by
  rw [addCharmPoints, if_neg (by decide), UInt32.toNat_add, UInt16.toNat_toUInt32,
    Nat.mod_eq_of_lt hlt]

def unlock (s : CharmPlayer) (rune : CharmRune) (points : UInt16) : CharmPlayer :=
  { s.addCharmPoints points true with unlockedRunes := setFlag s.unlockedRunes rune.binary }

theorem unlocked_unlock (s : CharmPlayer) (rune rune' : CharmRune) (points : UInt16) :
    (s.unlock rune points).unlocked rune' = (s.unlocked rune' || decide (rune = rune')) :=
  hasBitSet_setFlag_binary _ _ _

/-- What is spent grows by the cost of the rune. -/
theorem spent_unlock {rune : CharmRune} {points : UInt16} (hcost : b.charms rune = some points)
    (hnew : s.unlocked rune = false ∨ points = 0) :
    (s.unlock rune points).spent b = s.spent b + points.toNat := by
  have hsum := sum_of_ne (t := univ) (mem_univ rune)
    (f := fun rune' =>
      if (s.unlock rune points).unlocked rune' then (b.charms rune').elim 0 UInt16.toNat else 0)
    (g := fun rune' => if s.unlocked rune' then (b.charms rune').elim 0 UInt16.toNat else 0)
    (fun rune' hne => by simp only [unlocked_unlock, decide_eq_false (Ne.symm hne), Bool.or_false])
  have hself : (s.unlock rune points).unlocked rune = true := by
    rw [unlocked_unlock, decide_eq_true rfl, Bool.or_true]
  simp only [hself, if_true, hcost, Option.elim_some] at hsum
  rw [spent, spent, ← hsum]
  rcases hnew with hnew | hnew
  · rw [hnew]
    simp
  · subst hnew
    simp

/-- A rune is unlocked, for its cost. -/
theorem Consistent.unlock (h : s.Consistent b) {rune : CharmRune} {points : UInt16}
    (hcost : b.charms rune = some points) (hle : points.toUInt32 ≤ s.charmPoints)
    (hnew : s.unlocked rune = false ∨ points = 0) : (s.unlock rune points).Consistent b := by
  have hearned : (s.unlock rune points).earned b = s.earned b := earned_congr rfl
  have hpaid := addCharmPoints_negative hle
  have hpoints := h.points
  refine ⟨?_, h.used, fun rune' hu => ?_, h.injective, h.sign⟩
  · rw [hearned, spent_unlock hcost hnew]
    change (s.addCharmPoints points true).charmPoints.toNat + _ = _
    omega
  · rw [unlocked_unlock, h.unlocked rune' hu]
    rfl

theorem used_setCharmRuneCreature (s : CharmPlayer) (rune rune' : CharmRune) (raceid : RaceId) :
    (s.setCharmRuneCreature rune raceid).used rune' = (s.used rune' || decide (rune = rune')) :=
  hasBitSet_setFlag_binary _ _ _

theorem used_resetCharmRuneCreature (s : CharmPlayer) (rune rune' : CharmRune) :
    (s.resetCharmRuneCreature rune).used rune' = (s.used rune' && decide (rune ≠ rune')) :=
  hasBitSet_resetFlag_binary _ _ _

/-- A rune is set on a race that no other rune has. -/
theorem Consistent.setCharmRuneCreature (h : s.Consistent b) {rune : CharmRune} {raceid : RaceId}
    (hun : s.unlocked rune = true) (hne : raceid ≠ 0)
    (hfree : ∀ rune', rune' ≠ rune → s.race rune' ≠ raceid) :
    (s.setCharmRuneCreature rune raceid).Consistent b := by
  have hself : (s.setCharmRuneCreature rune raceid).race rune = raceid := Function.update_self ..
  have hother : ∀ rune', rune' ≠ rune →
      (s.setCharmRuneCreature rune raceid).race rune' = s.race rune' :=
    fun rune' hr => Function.update_of_ne hr ..
  refine ⟨?_, fun rune' => ?_, fun rune' hu => ?_, fun rune₁ rune₂ h0 heq => ?_, ?_⟩
  · have hearned : (s.setCharmRuneCreature rune raceid).earned b = s.earned b := earned_congr rfl
    have hspent : (s.setCharmRuneCreature rune raceid).spent b = s.spent b := spent_congr rfl
    rw [hearned, hspent]
    exact h.points
  · rw [used_setCharmRuneCreature]
    by_cases hr : rune' = rune
    · subst hr
      simp [hself, hne]
    · rw [hother rune' hr, decide_eq_false (Ne.symm hr), Bool.or_false]
      exact h.used rune'
  · rw [used_setCharmRuneCreature] at hu
    by_cases hr : rune' = rune
    · exact hr ▸ hun
    · rw [decide_eq_false (Ne.symm hr), Bool.or_false] at hu
      exact h.unlocked rune' hu
  · by_cases h₁ : rune₁ = rune <;> by_cases h₂ : rune₂ = rune
    · rw [h₁, h₂]
    · rw [h₁, hself, hother rune₂ h₂] at heq
      exact absurd heq.symm (hfree rune₂ h₂)
    · rw [h₂, hself, hother rune₁ h₁] at heq
      exact absurd heq (hfree rune₁ h₁)
    · rw [hother rune₁ h₁] at h0 heq
      rw [hother rune₂ h₂] at heq
      exact h.injective rune₁ rune₂ h0 heq
  · change (s.usedRunes ||| rune.binary).msb = false
    rw [BitVec.msb_or, h.sign, msb_binary]
    rfl

theorem Consistent.resetCharmRuneCreature (h : s.Consistent b) (rune : CharmRune) :
    (s.resetCharmRuneCreature rune).Consistent b := by
  have hself : (s.resetCharmRuneCreature rune).race rune = 0 := Function.update_self ..
  have hother : ∀ rune', rune' ≠ rune →
      (s.resetCharmRuneCreature rune).race rune' = s.race rune' :=
    fun rune' hr => Function.update_of_ne hr ..
  refine ⟨?_, fun rune' => ?_, fun rune' hu => ?_, fun rune₁ rune₂ h0 heq => ?_, ?_⟩
  · have hearned : (s.resetCharmRuneCreature rune).earned b = s.earned b := earned_congr rfl
    have hspent : (s.resetCharmRuneCreature rune).spent b = s.spent b := spent_congr rfl
    rw [hearned, hspent]
    exact h.points
  · rw [used_resetCharmRuneCreature]
    by_cases hr : rune' = rune
    · subst hr
      simp [hself]
    · rw [hother rune' hr, decide_eq_true (Ne.symm hr), Bool.and_true]
      exact h.used rune'
  · rw [used_resetCharmRuneCreature, Bool.and_eq_true] at hu
    exact h.unlocked rune' hu.1
  · have h₁ : rune₁ ≠ rune := fun hr => h0 (hr ▸ hself)
    have h₂ : rune₂ ≠ rune := fun hr => h0 (heq.trans (hr ▸ hself))
    rw [hother rune₁ h₁] at h0 heq
    rw [hother rune₂ h₂] at heq
    exact h.injective rune₁ rune₂ h0 heq
  · change (s.usedRunes &&& ~~~rune.binary).msb = false
    rw [BitVec.msb_and, h.sign, Bool.false_and]

theorem Consistent.sendBuyCharmRune (h : s.Consistent b) {runeID action : UInt8}
    {raceid : RaceId} {isPremium charmExpansion paid : Bool}
    (hfits :
      (CharmOp.sendBuyCharmRune runeID action raceid isPremium charmExpansion paid).Fits b s) :
    (s.sendBuyCharmRune b runeID action raceid isPremium charmExpansion paid).Consistent b := by
  rw [CharmPlayer.sendBuyCharmRune]
  split
  case h_1 => exact h
  case h_2 rune points hcharm =>
    obtain ⟨hbuy, hset⟩ := hfits rune points hcharm
    split_ifs with h0 hpoor h1 hfull h2 hpaid
    · exact h
    · have hle := UInt32.not_lt.1 hpoor
      have hnew := (or_assoc.2 (hbuy h0)).resolve_right hpoor
      exact h.unlock (getBestiaryCharm_eq_some hcharm) hle hnew
    · exact h
    · obtain ⟨hun, hne, hfree⟩ := hset h1 (Nat.lt_of_not_le hfull)
      exact h.setCharmRuneCreature hun hne hfree
    · exact h.resetCharmRuneCreature rune
    · exact h
    · exact h

/-! ### The kills -/

theorem storedCount_of_lt {count : UInt32} (h : count.toNat < 2 ^ 31) :
    storedCount count = count := by
  have hmsb : count.toBitVec.msb = false := BitVec.msb_eq_false_iff_two_mul_lt.2 (by
    change 2 * count.toNat < _
    omega)
  rw [storedCount, hmsb]
  rfl

/-- What the kills of one race earn. -/
theorem earned_addBestiaryKillCount {raceid : RaceId} (hmem : raceid ∈ b.races) (h0 : raceid ≠ 0)
    (amount : UInt32) :
    (s.addBestiaryKillCount raceid amount).earned b +
        (if s.completed b raceid then (b.entry raceid).bestiaryCharmsPoints.toNat else 0) =
      s.earned b + if (s.addBestiaryKillCount raceid amount).completed b raceid then
        (b.entry raceid).bestiaryCharmsPoints.toNat else 0 := by
  refine sum_of_ne (mem_erase.2 ⟨h0, hmem⟩) fun other hne => if_congr ?_ rfl rfl
  have hsame : (s.addBestiaryKillCount raceid amount).killCount other = s.killCount other :=
    Function.update_of_ne hne ..
  rw [completed, completed, hsame]

/-- The points are those of a completion, if the entry reaches no other threshold later. -/
theorem addBestiaryKill_eq {mtype : MonsterType} {amount : UInt32} (h0 : mtype.raceid ≠ 0)
    (hcomp : mtype.bestiaryToUnlock.toNat ≤ (s.killCount mtype.raceid).toNat →
      s.killCount mtype.raceid ≠ 0 ∧
        ∀ threshold ∈ [mtype.bestiaryFirstUnlock, mtype.bestiarySecondUnlock],
          reached (s.killCount mtype.raceid) (s.killCount mtype.raceid + amount)
            threshold = false) :
    s.addBestiaryKill mtype amount =
      if (s.killCount mtype.raceid).toNat < mtype.bestiaryToUnlock.toNat ∧
          mtype.bestiaryToUnlock.toNat ≤ (s.killCount mtype.raceid + amount).toNat then
        (s.addBestiaryKillCount mtype.raceid amount).addCharmPoints mtype.bestiaryCharmsPoints false
      else s.addBestiaryKillCount mtype.raceid amount := by
  rw [CharmPlayer.addBestiaryKill, if_neg h0]
  by_cases hc : mtype.bestiaryToUnlock.toNat ≤ (s.killCount mtype.raceid).toNat
  · obtain ⟨hne, hreach⟩ := hcomp hc
    have hfirst := hreach _ List.mem_cons_self
    have hsecond := hreach _ (List.mem_cons_of_mem _ List.mem_cons_self)
    have hthird : reached (s.killCount mtype.raceid) (s.killCount mtype.raceid + amount)
        mtype.bestiaryToUnlock = false := by
      rw [reached, decide_eq_false (Nat.not_lt.2 hc), Bool.false_and]
    simp only [hne, hfirst, hsecond, hthird, Bool.false_eq_true, or_self, if_false]
    rw [if_neg fun hlt => absurd hc (Nat.not_le.2 hlt.1)]
  · by_cases hnew : mtype.bestiaryToUnlock.toNat ≤ (s.killCount mtype.raceid + amount).toNat
    · have hthird : reached (s.killCount mtype.raceid) (s.killCount mtype.raceid + amount)
          mtype.bestiaryToUnlock = true := by
        rw [reached, decide_eq_true (Nat.lt_of_not_le hc), decide_eq_true hnew]
        rfl
      simp only [hthird, or_true, if_true, hnew, Nat.lt_of_not_le hc, and_self]
    · simp only [hnew, if_false, ite_self, and_false]

/-- The kills of a race, and the points for its entry. -/
theorem Consistent.addBestiaryKill (h : s.Consistent b) {mtype : MonsterType} {amount : UInt32}
    (hfits : (CharmOp.addBestiaryKill mtype amount).Fits b s) :
    (s.addBestiaryKill mtype amount).Consistent b := by
  by_cases h0 : mtype.raceid = 0
  · rw [CharmPlayer.addBestiaryKill, if_pos h0]
    exact h
  obtain ⟨hmem, hentry, hbound, hcomp⟩ := hfits h0
  have hpoints := h.points
  have hnew : (s.killCount mtype.raceid + amount).toNat =
      (s.killCount mtype.raceid).toNat + amount.toNat := by
    rw [UInt32.toNat_add, Nat.mod_eq_of_lt (by omega)]
  have hcount : (s.addBestiaryKillCount mtype.raceid amount).killCount mtype.raceid =
      s.killCount mtype.raceid + amount :=
    (Function.update_self ..).trans (storedCount_of_lt (by omega))
  have hearned := earned_addBestiaryKillCount (s := s) hmem h0 amount
  have hbefore : s.completed b mtype.raceid ↔
      mtype.bestiaryToUnlock.toNat ≤ (s.killCount mtype.raceid).toNat := by
    rw [completed, hentry]
  have hafter : (s.addBestiaryKillCount mtype.raceid amount).completed b mtype.raceid ↔
      mtype.bestiaryToUnlock.toNat ≤ (s.killCount mtype.raceid + amount).toNat := by
    rw [completed, hentry, hcount]
  rw [if_congr hbefore rfl rfl, if_congr hafter rfl rfl, hentry] at hearned
  have hsum := earned_lt b (s.addBestiaryKillCount mtype.raceid amount)
  have hspent : (s.addBestiaryKillCount mtype.raceid amount).spent b = s.spent b := spent_congr rfl
  rw [addBestiaryKill_eq h0 fun hc => hcomp (hbefore.2 hc)]
  split
  -- The kill completes the entry: its points are earned and added.
  case isTrue hc =>
    rw [if_neg (Nat.not_le.2 hc.1), if_pos hc.2] at hearned
    have hfit : (s.addBestiaryKillCount mtype.raceid amount).charmPoints.toNat +
        mtype.bestiaryCharmsPoints.toNat < 2 ^ 32 := by
      change s.charmPoints.toNat + _ < _
      omega
    have hpos := addCharmPoints_positive hfit
    have hspent' : ((s.addBestiaryKillCount mtype.raceid amount).addCharmPoints
        mtype.bestiaryCharmsPoints false).spent b = s.spent b := spent_congr rfl
    have hearned' : ((s.addBestiaryKillCount mtype.raceid amount).addCharmPoints
        mtype.bestiaryCharmsPoints false).earned b =
        (s.addBestiaryKillCount mtype.raceid amount).earned b := earned_congr rfl
    refine ⟨?_, h.used, h.unlocked, h.injective, h.sign⟩
    rw [hpos, hspent', hearned']
    change s.charmPoints.toNat + _ + _ = _
    omega
  case isFalse hc =>
    refine ⟨?_, h.used, h.unlocked, h.injective, h.sign⟩
    rw [hspent]
    change s.charmPoints.toNat + _ = _
    split at hearned <;> split at hearned <;> omega

end CharmPlayer

/-- In every run whose steps are fit, the charm points are what the complete entries earned and
the unlocked runes did not cost, a rune is used if and only if it has a race, only unlocked ones
are, and no race has two. -/
theorem charms_consistent {b : Bestiary} {s : CharmPlayer}
    (h : (charms b).ReachableVia (fun s op => op.Fits b s) s) :
    s.charmPoints.toNat + s.spent b = s.earned b ∧
    (∀ rune, s.used rune = true ↔ s.race rune ≠ 0) ∧
    (∀ rune, s.used rune = true → s.unlocked rune = true) ∧
    ∀ rune rune', s.race rune ≠ 0 → s.race rune = s.race rune' → rune = rune' := by
  have hc : s.Consistent b := by
    refine System.ReachableVia.invariant (I := CharmPlayer.Consistent b) (fun _ h => h) ?_ h
    intro s op s' hc hfits hs'
    cases hs'
    cases op with
    | sendBuyCharmRune runeID action raceid isPremium charmExpansion paid =>
      exact hc.sendBuyCharmRune hfits
    | addBestiaryKill mtype amount => exact hc.addBestiaryKill hfits
  exact ⟨hc.points, hc.used, hc.unlocked, hc.injective⟩

/-- The wound costs 10, and 3 kills of the only race earn 30. -/
def woundsOnly : Bestiary where
  charms rune := if rune = 0 then some 10 else none
  races := {1}
  entry _ := ⟨1, 1, 2, 3, 30⟩

/-- A player who has completed the entry. -/
def hunter : CharmPlayer := ⟨30, 0, 0, fun _ => 0, fun _ => 3⟩

theorem consistent_hunter : hunter.Consistent woundsOnly where
  points := by decide
  used := by decide
  unlocked := by decide
  injective _ _ h := absurd rfl h
  sign := by decide

/-- The hunter unlocks the wound. -/
def wounder : CharmPlayer := { hunter with charmPoints := 20, unlockedRunes := 1 }

theorem charms_consistent_wounder :
    wounder.charmPoints.toNat + wounder.spent woundsOnly = wounder.earned woundsOnly ∧
      (∀ rune, wounder.used rune = true ↔ wounder.race rune ≠ 0) ∧
      (∀ rune, wounder.used rune = true → wounder.unlocked rune = true) ∧
      ∀ rune rune', wounder.race rune ≠ 0 → wounder.race rune = wounder.race rune' →
        rune = rune' := by
  have hfits : (CharmOp.sendBuyCharmRune 0 0 0 false false false).Fits woundsOnly hunter := by
    intro rune points hcharm
    cases hcharm
    exact ⟨fun _ => .inl (by decide), fun h => absurd h (by decide)⟩
  exact charms_consistent (.step (.init consistent_hunter) hfits (by rfl))

/-- The wound is bought, and bought again. -/
theorem bought_twice :
    (charms woundsOnly).Reachable { wounder with charmPoints := 10 } ∧
      ({ wounder with charmPoints := 10 } : CharmPlayer).charmPoints.toNat +
          ({ wounder with charmPoints := 10 } : CharmPlayer).spent woundsOnly ≠
        ({ wounder with charmPoints := 10 } : CharmPlayer).earned woundsOnly :=
  ⟨System.reachable_of_foldlM (s := hunter)
    (l := [.sendBuyCharmRune 0 0 0 false false false, .sendBuyCharmRune 0 0 0 false false false])
    (.init consistent_hunter) (by rfl), by decide⟩

end Canary.Players
