import Canary.Map.Spectators
import Canary.Monsters.Targets
import Mathlib.Data.PNat.Defs

/-!
# The search for a target

`searchTarget` looks through the targets that a monster may attack for the nearest one, the one with
the least health, or the one that has dealt the most damage, and selects it. By an offset for the
faction, targets of higher factions are to come after the others, or before them for the damage.

The three loops do not add the offset to the same number:

* the distances all get the offset of the first target, except its own, which gets none;
* the health of a target gets the offset of the target before it in the list;
* the damage of a target gets its own offset, but is compared with damages without any, and the
  damage of the first target is not looked at.

For which factions of the targets, in their order, this does no harm is `Kind.Right`: then the
search selects an extremal target, whatever their places, healths and damages are, and else there
are some for which it does not (`selects_iff`).
-/

namespace Canary.Monsters.SearchTarget

open Map (Position)
open Targets (Faction)

def factionValue : Faction → ℤ
  | .default => 0
  | .player => 1
  | .lion => 2
  | .lionUsurpers => 3
  | .marid => 4
  | .efreet => 5
  | .deepling => 6
  | .deathling => 7
  | .anuma => 8
  | .fafnar => 9

inductive TargetSearchType
  | default | nearest | hp | damage | random
  deriving DecidableEq

/-- What a monster asks of a creature. -/
structure Creature where
  id : ℕ
  position : Position
  health : ℤ
  faction : Faction
  isRemoved : Bool
  isAttackable : Bool
  inProtectionZone : Bool
  /-- The creature is a player who is disconnected. -/
  isDisconnected : Bool
  deriving DecidableEq

structure Monster where
  position : Position
  isSummon : Bool
  isHostile : Bool
  /-- The monster has the condition of fear. -/
  feared : Bool
  /-- The monster is a familiar and stands in a protection zone. -/
  familiarInZone : Bool
  faction : Faction
  enemyFactions : List Faction
  targetDistance : ℤ
  /-- The ranges of `attackSpells`. -/
  spellRanges : List ℕ
  strategiesTargetNearest : ℤ
  strategiesTargetHealth : ℤ
  strategiesTargetDamage : ℤ
  /-- `none` is a reference to a creature that is gone. -/
  targetList : List (Option Creature)
  /-- The `total` of `damageMap`, to which only damage above 0 is added. -/
  damageMap : ℕ → Option ℕ+
  canSeeCreature : Creature → Bool
  isSightClear : Position → Position → Bool

/-- Whom the monster attacks and follows. -/
structure Attention where
  attackedCreature : Option Creature
  followCreature : Option Creature

namespace Monster

variable (m : Monster)

/-- `std::max` of `getDistanceX` and `getDistanceY` -/
def distance (creature : Creature) : ℤ :=
  max (m.position.ix - creature.position.ix).natAbs (m.position.iy - creature.position.iy).natAbs

/-- `Creature::canSee` -/
def canSee (pos : Position) : Bool :=
  let offsetz := m.position.iz - pos.iz
  (if m.position.iz ≤ Map.MAP_INIT_SURFACE_LAYER then
      decide (pos.iz ≤ Map.MAP_INIT_SURFACE_LAYER)
    else decide (offsetz.natAbs ≤ Map.MAP_LAYER_VIEW_LIMIT)) &&
  decide (pos.ix ≥ m.position.ix - Map.MAP_MAX_VIEW_PORT_X + offsetz) &&
  decide (pos.ix ≤ m.position.ix + Map.MAP_MAX_VIEW_PORT_X + offsetz) &&
  decide (pos.iy ≥ m.position.iy - Map.MAP_MAX_VIEW_PORT_Y + offsetz) &&
  decide (pos.iy ≤ m.position.iy + Map.MAP_MAX_VIEW_PORT_Y + offsetz)

def isTarget (creature : Creature) : Bool :=
  if creature.isRemoved || !creature.isAttackable || creature.inProtectionZone ||
      !m.canSeeCreature creature then false
  else if creature.position.z ≠ m.position.z then false
  else if !m.isSummon then
    if creature.isDisconnected then false
    else if m.faction ≠ .default then m.enemyFactions.contains creature.faction
    else true
  else true

def canUseAttack (creature : Creature) : Bool :=
  if m.isHostile then
    m.spellRanges.any (fun range => range ≠ 0 && decide (m.distance creature ≤ range)) &&
      m.isSightClear m.position creature.position
  else true

/-- `getTargetList` -/
def lockedTargets : List Creature := m.targetList.filterMap id

/-- `resultList` -/
def candidates : List Creature :=
  m.lockedTargets.filter fun creature =>
    m.isTarget creature && (m.targetDistance = 1 || m.canUseAttack creature)

/-! ## Selecting a target -/

def setAttackedCreature (creature : Creature) (s : Attention) : Attention :=
  if m.familiarInZone then s
  else if creature.position.z ≠ m.position.z ∨ !m.canSee creature.position then
    { s with attackedCreature := none }
  else { s with attackedCreature := some creature }

def setFollowCreature (creature : Creature) (s : Attention) : Bool × Attention :=
  if s.followCreature = some creature then (true, s)
  else if m.feared then (false, { s with followCreature := none })
  else if creature.position.z ≠ m.position.z ∨ !m.canSee creature.position then
    (false, { s with followCreature := none })
  else (true, { s with followCreature := some creature })

def selectTarget (creature : Creature) (s : Attention) : Bool × Attention :=
  if !m.isTarget creature then (false, s)
  else if !m.lockedTargets.any fun target => target.id = creature.id then (false, s)
  else
    let s := if m.isHostile || m.isSummon then m.setAttackedCreature creature s else s
    m.setFollowCreature creature s

/-- The first target that can be selected. -/
def selectFirst : List Creature → Attention → Bool × Attention
  | [], s => (false, s)
  | creature :: l, s =>
    let r := m.selectTarget creature s
    if r.1 then r else selectFirst l r.2

/-! ## The loops -/

def nearestLoop (factionOffset : ℤ) (getTarget : Creature) (minRange : ℤ) :
    List Creature → Creature
  | [] => getTarget
  | creature :: l =>
    let distance := m.distance creature + factionOffset
    if distance < minRange then nearestLoop factionOffset creature distance l
    else nearestLoop factionOffset getTarget minRange l

def hpLoop (factionOffset : ℤ) (getTarget : Creature) (minHp : ℤ) : List Creature → Creature
  | [] => getTarget
  | creature :: l =>
    let hp := creature.health + factionOffset
    let factionOffset := factionValue creature.faction * 100000
    if hp < minHp then hpLoop factionOffset creature hp l
    else hpLoop factionOffset getTarget minHp l

def damageLoop (getTarget : Creature) (mostDamage : ℤ) : List Creature → Creature
  | [] => getTarget
  | creature :: l =>
    let factionOffset := factionValue creature.faction * 100000
    match m.damageMap creature.id with
    | none => damageLoop getTarget mostDamage l
    | some total =>
      if total.val + factionOffset > mostDamage then damageLoop creature total.val l
      else damageLoop getTarget mostDamage l

/-- The target a search picks of the candidates, the first of which is given. -/
def pick (searchType : TargetSearchType) (index : ℕ) (first : Creature) (l : List Creature) :
    Creature :=
  match searchType with
  | .nearest => m.nearestLoop (factionValue first.faction * 100) first (m.distance first) l
  | .hp => hpLoop (factionValue first.faction * 100000) first
      (first.health + factionValue first.faction * 100000) l
  | .damage => m.damageLoop first 0 l
  | _ => (first :: l).getD index first

/-- What is searched for by default, by a number from 1 to 100. -/
def defaultSearchType (rnd : ℤ) : TargetSearchType :=
  let sum := m.strategiesTargetNearest
  if rnd > sum then
    let sum := sum + m.strategiesTargetHealth
    if rnd > sum then
      let sum := sum + m.strategiesTargetDamage
      if rnd > sum then .random else .damage
    else .hp
  else .nearest

/-- `searchTarget`, with the random numbers for the type and for the index. -/
def searchTarget (searchType : TargetSearchType) (rnd : ℤ) (index : ℕ) (s : Attention) :
    Bool × Attention :=
  let searchType := if searchType = .default then m.defaultSearchType rnd else searchType
  match m.candidates with
  | [] => (false, s)
  | first :: l =>
    let r := m.selectTarget (m.pick searchType index first l) s
    if r.1 || searchType = .random then r else m.selectFirst m.lockedTargets r.2

/-! ## The target that is searched for -/

/-- The damage recorded of a creature, or none. -/
def recordedDamage (creature : Creature) : ℕ := ((m.damageMap creature.id).map PNat.val).getD 0

/-- By what the targets are to be compared, with the offsets of their own factions: the least is
    searched for. -/
def key (searchType : TargetSearchType) (creature : Creature) : ℤ :=
  match searchType with
  | .nearest => m.distance creature + 100 * factionValue creature.faction
  | .hp => creature.health + 100000 * factionValue creature.faction
  | .damage => -(m.recordedDamage creature + 100000 * factionValue creature.faction)
  | _ => 0

/-- The search selects a candidate of which no other has a smaller key. -/
def Selects (searchType : TargetSearchType) (rnd : ℤ) (index : ℕ) (s : Attention) : Prop :=
  (m.searchTarget searchType rnd index s).1 = true ∧
    ∃ creature ∈ m.candidates,
      (m.searchTarget searchType rnd index s).2.followCreature = some creature ∧
        ∀ other ∈ m.candidates, m.key searchType creature ≤ m.key searchType other

/-- Each candidate can be selected, and who is followed is in sight: a creature that moves out of it
    is given up. -/
structure Ready (s : Attention) : Prop where
  selects : ∀ creature ∈ m.candidates, (m.selectTarget creature s).1 = true
  sees : ∀ creature, s.followCreature = some creature → m.canSee creature.position = true

end Monster

/-- The search for the nearest target, for the one with the least health, or the most damage. -/
def TargetSearchType.IsExtremal (searchType : TargetSearchType) : Prop :=
  searchType = .nearest ∨ searchType = .hp ∨ searchType = .damage

/-- The factions of the candidates in their order, and the damage recorded of the first one. -/
structure Kind where
  first : Faction
  others : List Faction
  firstDamage : ℕ
  deriving DecidableEq

def Monster.kind (m : Monster) : Option Kind :=
  match m.candidates with
  | [] => none
  | first :: l => some ⟨first.faction, l.map Creature.faction, m.recordedDamage first⟩

/-- The factions for which the offsets do no harm. Distances in sight differ by less than an offset.
-/
def Kind.Right (k : Kind) : TargetSearchType → Prop
  | .nearest => (k.first = .default ∧ ∀ f ∈ k.others, f = .default) ∨
      (k.first ≠ .default ∧ ∀ f ∈ k.others, factionValue k.first < factionValue f)
  | .hp => ∀ f ∈ k.others, f = k.first
  | .damage => ∀ f ∈ k.others, (f = .default ∨ k.others.length = 1) ∧
      100000 * factionValue f ≤ k.firstDamage + 100000 * factionValue k.first ∧
      k.firstDamage + 100000 * factionValue k.first ≤ 100000 * factionValue f + 1
  | _ => True

/-- The search selects an extremal target, whoever the candidates of the kind are. -/
def Kind.AllSelect (k : Kind) (searchType : TargetSearchType) : Prop :=
  ∀ (m : Monster) (s : Attention) (rnd : ℤ) (index : ℕ), m.kind = some k → m.Ready s →
    m.Selects searchType rnd index s

/-! ## What the loops pick -/

section loops

variable {m : Monster} {getTarget : Creature} {l : List Creature}

theorem factionValue_nonneg (faction : Faction) : 0 ≤ factionValue faction := by
  cases faction <;> decide

theorem factionValue_pos {faction : Faction} (h : faction ≠ .default) :
    1 ≤ factionValue faction := by
  cases faction <;> first | exact absurd rfl h | decide

theorem factionValue_le (faction : Faction) : factionValue faction ≤ 9 := by
  cases faction <;> decide

theorem factionValue_injective : Function.Injective factionValue := by
  intro f f' h
  cases f <;> cases f' <;> first | rfl | exact absurd h (by decide)

theorem nearestLoop_mem (factionOffset minRange : ℤ) :
    m.nearestLoop factionOffset getTarget minRange l ∈ getTarget :: l := by
  induction l generalizing getTarget minRange with
  | nil => exact List.mem_cons_self
  | cons creature l ih =>
    rw [Monster.nearestLoop]
    split
    · exact List.mem_cons_of_mem _ (ih _)
    · exact List.cons_subset_cons _ (List.subset_cons_self _ _) (ih _)

theorem nearestLoop_of_le {factionOffset minRange : ℤ}
    (h : ∀ creature ∈ l, minRange ≤ m.distance creature + factionOffset) :
    m.nearestLoop factionOffset getTarget minRange l = getTarget := by
  induction l with
  | nil => rfl
  | cons creature l ih =>
    rw [Monster.nearestLoop]
    rw [if_neg (not_lt.2 (h creature List.mem_cons_self)),
      ih fun c hc => h c (List.mem_cons_of_mem _ hc)]

variable (m getTarget) in
/-- Without an offset, one of the nearest targets is picked. -/
theorem nearestLoop_least : ∀ other ∈ getTarget :: l,
    m.distance (m.nearestLoop 0 getTarget (m.distance getTarget) l) ≤ m.distance other := by
  induction l generalizing getTarget with
  | nil => exact fun other hother => (List.mem_singleton.1 hother) ▸ le_rfl
  | cons creature l ih =>
    intro other hother
    rw [Monster.nearestLoop]
    rw [add_zero]
    split
    · next hlt =>
      rcases List.mem_cons.1 hother with rfl | hother
      · exact (ih _ _ List.mem_cons_self).trans hlt.le
      · exact ih _ _ hother
    · next hge =>
      rcases List.mem_cons.1 hother with rfl | hother
      · exact ih _ _ List.mem_cons_self
      · rcases List.mem_cons.1 hother with rfl | hother
        · exact (ih _ _ List.mem_cons_self).trans (not_lt.1 hge)
        · exact ih _ _ (List.mem_cons_of_mem _ hother)

theorem hpLoop_mem (factionOffset minHp : ℤ) :
    Monster.hpLoop factionOffset getTarget minHp l ∈ getTarget :: l := by
  induction l generalizing factionOffset getTarget minHp with
  | nil => exact List.mem_cons_self
  | cons creature l ih =>
    rw [Monster.hpLoop]
    split
    · exact List.mem_cons_of_mem _ (ih _ _)
    · exact List.cons_subset_cons _ (List.subset_cons_self _ _) (ih _ _)

theorem hpLoop_of_le {factionOffset minHp : ℤ} (hoffset : 0 ≤ factionOffset)
    (h : ∀ creature ∈ l, minHp ≤ creature.health) :
    Monster.hpLoop factionOffset getTarget minHp l = getTarget := by
  induction l generalizing factionOffset with
  | nil => rfl
  | cons creature l ih =>
    have hhealth := h creature List.mem_cons_self
    have hvalue := factionValue_nonneg creature.faction
    rw [Monster.hpLoop]
    rw [if_neg (by omega), ih (by omega) fun c hc => h c (List.mem_cons_of_mem _ hc)]

/-- Targets of one faction that have more health are gone past. -/
theorem hpLoop_append {f : Faction} {minHp : ℤ}
    (h : ∀ creature ∈ l, creature.faction = f ∧ minHp ≤ creature.health) (rest : List Creature) :
    Monster.hpLoop (factionValue f * 100000) getTarget minHp (l ++ rest) =
      Monster.hpLoop (factionValue f * 100000) getTarget minHp rest := by
  induction l with
  | nil => rfl
  | cons creature l ih =>
    obtain ⟨hfaction, hhealth⟩ := h creature List.mem_cons_self
    have hvalue := factionValue_nonneg f
    rw [List.cons_append, Monster.hpLoop]
    rw [if_neg (by omega), hfaction, ih fun c hc => h c (List.mem_cons_of_mem _ hc)]

/-- Of targets of one faction, one with the least health is picked. -/
theorem hpLoop_least {f : Faction} (h : ∀ creature ∈ l, creature.faction = f) :
    ∀ other ∈ getTarget :: l, (Monster.hpLoop (factionValue f * 100000) getTarget
      (getTarget.health + factionValue f * 100000) l).health ≤ other.health := by
  induction l generalizing getTarget with
  | nil => exact fun other hother => (List.mem_singleton.1 hother) ▸ le_rfl
  | cons creature l ih =>
    intro other hother
    have ih := fun getTarget => @ih getTarget fun c hc => h c (List.mem_cons_of_mem _ hc)
    rw [Monster.hpLoop]
    rw [h creature List.mem_cons_self]
    split
    · next hlt =>
      rcases List.mem_cons.1 hother with rfl | hother
      · exact (ih _ _ List.mem_cons_self).trans (by omega)
      · exact ih _ _ hother
    · next hge =>
      rcases List.mem_cons.1 hother with rfl | hother
      · exact ih _ _ List.mem_cons_self
      · rcases List.mem_cons.1 hother with rfl | hother
        · exact (ih _ _ List.mem_cons_self).trans (by omega)
        · exact ih _ _ (List.mem_cons_of_mem _ hother)

variable (m getTarget) in
theorem damageLoop_mem (mostDamage : ℤ) :
    m.damageLoop getTarget mostDamage l ∈ getTarget :: l := by
  induction l generalizing getTarget mostDamage with
  | nil => exact List.mem_cons_self
  | cons creature l ih =>
    have hskip := List.cons_subset_cons getTarget (List.subset_cons_self creature l)
    rw [Monster.damageLoop]
    split
    · exact hskip (ih _ _)
    · split
      · exact List.mem_cons_of_mem _ (ih _ _)
      · exact hskip (ih _ _)

theorem recordedDamage_of_none {creature : Creature} (h : m.damageMap creature.id = none) :
    m.recordedDamage creature = 0 := by
  rw [Monster.recordedDamage, h]
  rfl

theorem recordedDamage_of_some {creature : Creature} {total : ℕ+}
    (h : m.damageMap creature.id = some total) : m.recordedDamage creature = total.val := by
  rw [Monster.recordedDamage, h]
  rfl

/-- Targets of whom no damage is recorded are gone past. -/
theorem damageLoop_append {mostDamage : ℤ} (h : ∀ creature ∈ l, m.damageMap creature.id = none)
    (rest : List Creature) :
    m.damageLoop getTarget mostDamage (l ++ rest) = m.damageLoop getTarget mostDamage rest := by
  induction l with
  | nil => rfl
  | cons creature l ih =>
    rw [List.cons_append, Monster.damageLoop, h creature List.mem_cons_self]
    exact ih fun c hc => h c (List.mem_cons_of_mem _ hc)

variable (m getTarget) in
/-- Of targets without an offset, one that has dealt the most damage is picked, if that is more than
the given one. -/
theorem damageLoop_most {mostDamage : ℤ} (hmost : 0 ≤ mostDamage)
    (h : ∀ creature ∈ l, creature.faction = .default) :
    (m.damageLoop getTarget mostDamage l = getTarget ∧
        ∀ other ∈ l, (m.recordedDamage other : ℤ) ≤ mostDamage) ∨
      mostDamage < m.recordedDamage (m.damageLoop getTarget mostDamage l) ∧
        ∀ other ∈ l, m.recordedDamage other ≤
          m.recordedDamage (m.damageLoop getTarget mostDamage l) := by
  induction l generalizing getTarget mostDamage with
  | nil => exact .inl ⟨rfl, nofun⟩
  | cons creature l ih =>
    have hdefault : factionValue creature.faction = 0 := by
      rw [h creature List.mem_cons_self]
      rfl
    have hl : ∀ creature ∈ l, creature.faction = .default :=
      fun c hc => h c (List.mem_cons_of_mem _ hc)
    rw [Monster.damageLoop]
    cases htotal : m.damageMap creature.id with
    | none =>
      have hnone := recordedDamage_of_none htotal
      rcases ih getTarget hmost hl with ⟨heq, hle⟩ | ⟨hlt, hle⟩
      · refine .inl ⟨heq, List.forall_mem_cons.2 ⟨by omega, hle⟩⟩
      · exact .inr ⟨hlt, List.forall_mem_cons.2 ⟨by omega, hle⟩⟩
    | some total =>
      have hsome := recordedDamage_of_some htotal
      dsimp only
      rw [hdefault, zero_mul, add_zero]
      -- What is picked of the rest is compared with the larger one of the two.
      by_cases hmore : (total.val : ℤ) > mostDamage
      · rw [if_pos hmore]
        rcases ih creature (Int.natCast_nonneg total.val) hl with
          ⟨heq, hle⟩ | ⟨hlt, hle⟩
        · rw [heq]
          exact .inr ⟨by omega, List.forall_mem_cons.2 ⟨le_rfl, fun c hc => by
            have := hle c hc
            omega⟩⟩
        · exact .inr ⟨by omega, List.forall_mem_cons.2 ⟨by omega, hle⟩⟩
      · rw [if_neg hmore]
        rcases ih getTarget hmost hl with ⟨heq, hle⟩ | ⟨hlt, hle⟩
        · exact .inl ⟨heq, List.forall_mem_cons.2 ⟨by omega, hle⟩⟩
        · exact .inr ⟨hlt, List.forall_mem_cons.2 ⟨by omega, hle⟩⟩

theorem pick_mem {searchType : TargetSearchType} (htype : searchType.IsExtremal) (index : ℕ)
    (first : Creature) (l : List Creature) :
    m.pick searchType index first l ∈ first :: l := by
  rcases htype with rfl | rfl | rfl
  · exact nearestLoop_mem _ _
  · exact hpLoop_mem _ _
  · exact damageLoop_mem _ _ _

end loops

/-! ## What is selected -/

section select

variable {m : Monster} {s : Attention} {creature : Creature}

/-- A target that is selected is followed. -/
theorem followCreature_selectTarget (h : (m.selectTarget creature s).1 = true) :
    (m.selectTarget creature s).2.followCreature = some creature := by
  rw [Monster.selectTarget] at h ⊢
  split at h
  · cases h
  · next htarget =>
    rw [if_neg htarget]
    split at h
    · cases h
    · next hlisted =>
      rw [if_neg hlisted]
      dsimp only at h ⊢
      generalize (if m.isHostile || m.isSummon then m.setAttackedCreature creature s else s) = s'
        at h ⊢
      rw [Monster.setFollowCreature] at h ⊢
      by_cases hfollow : s'.followCreature = some creature
      · rw [if_pos hfollow]
        exact hfollow
      · rw [if_neg hfollow] at h ⊢
        split at h
        · cases h
        · next hfeared =>
          rw [if_neg hfeared]
          split at h
          · cases h
          · next hseen => rw [if_neg hseen]

/-- A search selects what it picks. -/
theorem selects_iff_pick {searchType : TargetSearchType} (htype : searchType.IsExtremal)
    (hready : m.Ready s) {first : Creature} {l : List Creature} (hl : m.candidates = first :: l)
    (rnd : ℤ) (index : ℕ) : m.Selects searchType rnd index s ↔
      ∀ other ∈ first :: l,
        m.key searchType (m.pick searchType index first l) ≤ m.key searchType other := by
  have hmem := hl ▸ pick_mem (m := m) htype index first l
  have hdefault : searchType ≠ .default := by
    rcases htype with rfl | rfl | rfl <;> decide
  have hselect := hready.selects _ hmem
  -- What is picked can be selected, so that no other target is tried.
  have hsearch : m.searchTarget searchType rnd index s =
      m.selectTarget (m.pick searchType index first l) s := by
    rw [Monster.searchTarget, if_neg hdefault, hl]
    dsimp only
    rw [hselect, Bool.true_or, if_pos rfl]
  rw [Monster.Selects, hsearch, followCreature_selectTarget hselect, hl]
  constructor
  · rintro ⟨-, creature, -, hcreature, hleast⟩
    rw [Option.some.inj hcreature]
    exact hleast
  · exact fun hleast => ⟨hselect, _, hl ▸ hmem, rfl, hleast⟩

theorem followCreature_setAttackedCreature :
    (m.setAttackedCreature creature s).followCreature = s.followCreature := by
  rw [Monster.setAttackedCreature]
  split
  · rfl
  · split <;> rfl

/-- A target that is selected is on the floor of the monster, and in sight or followed already. -/
theorem sees_of_selectTarget (h : (m.selectTarget creature s).1 = true) :
    m.isTarget creature = true ∧
      (s.followCreature = some creature ∨ m.canSee creature.position = true) := by
  rw [Monster.selectTarget] at h
  split at h
  · cases h
  · next htarget =>
    refine ⟨by simpa using htarget, ?_⟩
    split at h
    · cases h
    · dsimp only at h
      have hfollow : (if m.isHostile || m.isSummon then m.setAttackedCreature creature s
          else s).followCreature = s.followCreature := by
        split
        · exact followCreature_setAttackedCreature
        · rfl
      rw [Monster.setFollowCreature, hfollow] at h
      split at h
      · next hsame => exact .inl hsame
      · split at h
        · cases h
        · split at h
          · cases h
          · next hseen =>
            rw [not_or, Bool.not_eq_true', Bool.not_eq_false] at hseen
            exact .inr hseen.2

/-- A candidate is in sight, and so within eleven squares. -/
theorem Monster.Ready.distance_le (hready : m.Ready s) (hmem : creature ∈ m.candidates) :
    m.distance creature ≤ 11 := by
  obtain ⟨htarget, hsees⟩ := sees_of_selectTarget (hready.selects creature hmem)
  have hsee : m.canSee creature.position = true := hsees.elim (hready.sees creature) id
  have hfloor : creature.position.iz = m.position.iz := by
    rw [Monster.isTarget] at htarget
    split at htarget
    · cases htarget
    · split at htarget
      · cases htarget
      · next hz => rw [Map.Position.iz, not_not.1 hz, Map.Position.iz]
  -- On one floor there is no offset between the floors.
  rw [Monster.canSee, hfloor, sub_self] at hsee
  simp only [Bool.and_eq_true, Map.MAP_MAX_VIEW_PORT_X, Map.MAP_MAX_VIEW_PORT_Y] at hsee
  obtain ⟨⟨⟨⟨-, hwest⟩, heast⟩, hnorth⟩, hsouth⟩ := hsee
  have hwest := of_decide_eq_true hwest
  have heast := of_decide_eq_true heast
  have hnorth := of_decide_eq_true hnorth
  have hsouth := of_decide_eq_true hsouth
  rw [Monster.distance]
  omega

end select

/-! ## Factions for which the offsets do no harm -/

section right

variable {m : Monster} {s : Attention} {first : Creature} {l : List Creature}

theorem kind_eq_some {k : Kind} (h : m.kind = some k) : ∃ first l, m.candidates = first :: l ∧
    k = ⟨first.faction, l.map Creature.faction, m.recordedDamage first⟩ := by
  rw [Monster.kind] at h
  split at h
  · cases h
  · next first l hl => exact ⟨first, l, hl, (Option.some.inj h).symm⟩

theorem nearest_of_right (hready : m.Ready s) (hl : m.candidates = first :: l)
    (hright : Kind.Right ⟨first.faction, l.map Creature.faction, m.recordedDamage first⟩ .nearest)
    (index : ℕ) : ∀ other ∈ first :: l,
      m.key .nearest (m.pick .nearest index first l) ≤ m.key .nearest other := by
  rcases hright with ⟨hfirst, hothers⟩ | ⟨hfirst, hothers⟩
  · -- No target has an offset.
    dsimp only at hfirst hothers
    have hdefault : ∀ creature ∈ first :: l, factionValue creature.faction = 0 := fun c hc => by
      rcases List.mem_cons.1 hc with rfl | hc
      · rw [hfirst]
        rfl
      · rw [hothers _ (List.mem_map_of_mem hc)]
        rfl
    intro other hother
    rw [Monster.key, Monster.key, hdefault other hother, hdefault _ (pick_mem (.inl rfl) _ _ _),
      Monster.pick, hdefault first List.mem_cons_self]
    exact add_le_add_left (nearestLoop_least _ _ other hother) _
  · -- The first target is nearer than the others with the offset, and stays the picked one.
    dsimp only at hfirst hothers
    have hvalue := factionValue_pos hfirst
    have hnear := hready.distance_le (hl ▸ List.mem_cons_self)
    have hdistance : ∀ creature, 0 ≤ m.distance creature := fun creature => by
      rw [Monster.distance]
      omega
    have hpick : m.pick .nearest index first l = first :=
      nearestLoop_of_le fun creature _ => by
        have := hdistance creature
        omega
    rw [hpick]
    intro other hother
    rcases List.mem_cons.1 hother with rfl | hother
    · exact le_rfl
    · have hlt := hothers _ (List.mem_map_of_mem hother)
      have hother := hdistance other
      rw [Monster.key, Monster.key]
      omega

theorem hp_of_right
    (hright : Kind.Right ⟨first.faction, l.map Creature.faction, m.recordedDamage first⟩ .hp)
    (index : ℕ) : ∀ other ∈ first :: l,
      m.key .hp (m.pick .hp index first l) ≤ m.key .hp other := by
  have hsame : ∀ creature ∈ l, creature.faction = first.faction :=
    fun c hc => hright _ (List.mem_map_of_mem hc)
  have hall : ∀ creature ∈ first :: l, creature.faction = first.faction :=
    List.forall_mem_cons.2 ⟨rfl, hsame⟩
  intro other hother
  have hleast : (Monster.hpLoop _ first _ l).health ≤ other.health :=
    hpLoop_least hsame other hother
  rw [Monster.key, Monster.key, hall other hother, hall _ (pick_mem (m := m) (.inr (.inl rfl)) ..)]
  exact add_le_add_left hleast _

theorem damage_of_right
    (hright : Kind.Right ⟨first.faction, l.map Creature.faction, m.recordedDamage first⟩ .damage)
    (index : ℕ) : ∀ other ∈ first :: l,
      m.key .damage (m.pick .damage index first l) ≤ m.key .damage other := by
  have hothers : ∀ creature ∈ l, _ := fun c hc => hright _ (List.mem_map_of_mem hc)
  dsimp only at hothers
  rw [Monster.pick]
  by_cases hone : ∃ creature, l = [creature]
  · -- The only other target is picked if damage of it is recorded.
    obtain ⟨creature, rfl⟩ := hone
    obtain ⟨-, hle, hge⟩ := hothers creature List.mem_cons_self
    have hvalue := factionValue_nonneg creature.faction
    rw [Monster.damageLoop]
    cases htotal : m.damageMap creature.id with
    | none =>
      have hnone := recordedDamage_of_none htotal
      simp only [Monster.damageLoop, Monster.key, List.forall_mem_cons, le_refl, true_and]
      exact ⟨by omega, nofun⟩
    | some total =>
      have hsome := recordedDamage_of_some htotal
      have hpos : 0 < total.val := total.property
      simp only [Monster.damageLoop, Monster.key, List.forall_mem_cons]
      rw [if_pos (by omega)]
      exact ⟨by omega, le_rfl, nofun⟩
  · have hdefault : ∀ creature ∈ l, creature.faction = .default := fun creature hc =>
      (hothers creature hc).1.resolve_right fun hlen =>
        hone (List.length_eq_one_iff.1 (by simpa using hlen))
    have hzero : ∀ creature ∈ l, factionValue creature.faction = 0 := fun creature hc => by
      rw [hdefault creature hc]
      rfl
    have hmost := damageLoop_most m first (le_refl 0) hdefault
    have hmem : _ ∈ first :: l := damageLoop_mem m first 0
    generalize m.damageLoop first 0 l = picked at hmost hmem
    have hfirst : 0 ≤ factionValue first.faction := factionValue_nonneg _
    simp only [Monster.key, List.forall_mem_cons]
    rcases hmost with ⟨rfl, hle⟩ | ⟨hlt, hle⟩
    · refine ⟨le_rfl, fun other hother => ?_⟩
      have := hle other hother
      have := hzero other hother
      omega
    · have hpicked : 0 ≤ factionValue picked.faction := factionValue_nonneg _
      refine ⟨?_, fun other hother => ?_⟩
      · rcases List.mem_cons.1 hmem with rfl | hmem
        · exact le_rfl
        · obtain ⟨-, -, hge⟩ := hothers picked hmem
          have := hzero picked hmem
          omega
      · have := hle other hother
        have := hzero other hother
        omega

theorem selects_of_right {searchType : TargetSearchType} (htype : searchType.IsExtremal) {k : Kind}
    (hright : k.Right searchType) (hkind : m.kind = some k) (hready : m.Ready s) (rnd : ℤ)
    (index : ℕ) : m.Selects searchType rnd index s := by
  obtain ⟨first, l, hl, rfl⟩ := kind_eq_some hkind
  rw [selects_iff_pick htype hready hl]
  rcases htype with rfl | rfl | rfl
  · exact nearest_of_right hready hl hright index
  · exact hp_of_right hright index
  · exact damage_of_right hright index

end right

/-! ## Factions for which they do -/

/-- A creature that may be attacked. -/
def standing (id : ℕ) (x : UInt16) (health : ℤ) (faction : Faction) : Creature where
  id := id
  position := ⟨x, 1000, 7⟩
  health := health
  faction := faction
  isRemoved := false
  isAttackable := true
  inProtectionZone := false
  isDisconnected := false

/-- A monster that stands at 1000 and hunts all. -/
def hunter (targets : List Creature) (damageMap : ℕ → Option ℕ+) : Monster where
  position := ⟨1000, 1000, 7⟩
  isSummon := false
  isHostile := true
  feared := false
  familiarInZone := false
  faction := .default
  enemyFactions := []
  targetDistance := 1
  spellRanges := []
  strategiesTargetNearest := 100
  strategiesTargetHealth := 0
  strategiesTargetDamage := 0
  targetList := targets.map some
  damageMap := damageMap
  canSeeCreature _ := true
  isSightClear _ _ := true

def resting : Attention := ⟨none, none⟩

section pack

variable {targets : List Creature} {damageMap : ℕ → Option ℕ+} {first : Creature}
  {l : List Creature}

/-- What stands up to two squares to the east. -/
def Near (creature : Creature) : Prop :=
  ∃ id x health faction, creature = standing id x health faction ∧ (x = 1001 ∨ x = 1002)

variable (targets damageMap) in
theorem Near.sees {creature : Creature} (h : Near creature) :
    (hunter targets damageMap).isTarget creature = true ∧
      (hunter targets damageMap).canSee creature.position = true := by
  obtain ⟨id, x, health, faction, rfl, rfl | rfl⟩ := h <;> exact ⟨rfl, rfl⟩

theorem lockedTargets_hunter : (hunter targets damageMap).lockedTargets = targets := by
  rw [Monster.lockedTargets, hunter, List.filterMap_map]
  exact List.filterMap_some

theorem candidates_hunter (h : ∀ creature ∈ targets, Near creature) :
    (hunter targets damageMap).candidates = targets := by
  rw [Monster.candidates, lockedTargets_hunter, List.filter_eq_self]
  intro creature hcreature
  rw [((h creature hcreature).sees targets damageMap).1]
  rfl

theorem setFollowCreature_of_sees {m : Monster} {s : Attention} {creature : Creature}
    (hfear : m.feared = false) (hfloor : creature.position.z = m.position.z)
    (hsee : m.canSee creature.position = true) : (m.setFollowCreature creature s).1 = true := by
  rw [Monster.setFollowCreature]
  split
  · rfl
  · rw [hfear, hsee, if_neg (by decide), if_neg (by simp [hfloor])]

theorem ready_hunter (h : ∀ creature ∈ targets, Near creature) :
    (hunter targets damageMap).Ready resting := by
  refine ⟨fun creature hcreature => ?_, nofun⟩
  rw [candidates_hunter h] at hcreature
  obtain ⟨htarget, hsee⟩ := (h creature hcreature).sees targets damageMap
  have hlisted : ((hunter targets damageMap).lockedTargets.any
      fun target => target.id = creature.id) = true := by
    rw [lockedTargets_hunter]
    exact List.any_eq_true.2 ⟨creature, hcreature, decide_eq_true rfl⟩
  have hfloor : creature.position.z = (hunter targets damageMap).position.z := by
    obtain ⟨id, x, health, faction, rfl, -⟩ := h creature hcreature
    rfl
  rw [Monster.selectTarget, htarget, hlisted]
  exact setFollowCreature_of_sees rfl hfloor hsee

end pack

/-! ### A pack of some kind -/

def totals (n : ℕ) : Option ℕ+ := if h : 0 < n then some ⟨n, h⟩ else none

namespace Kind

variable (k : Kind) (x : Faction → UInt16) (health : ℕ → ℤ) (damage : ℕ → Option ℕ+)

def leader : Creature := standing 0 1002 (health 0) k.first

def follower (i : ℕ) (f : Faction) : Creature := standing (i + 1) (x f) (health (i + 1)) f

def followers : List Creature := k.others.mapIdx (follower x health)

def damages : ℕ → Option ℕ+
  | 0 => totals k.firstDamage
  | i + 1 => damage i

/-- The monster that hunts the pack. -/
def hunts : Monster := hunter (k.leader health :: k.followers x health) (k.damages damage)

variable {k x health damage}

theorem recordedDamage_leader : (k.hunts x health damage).recordedDamage (k.leader health) =
    k.firstDamage := by
  change ((totals k.firstDamage).map PNat.val).getD 0 = k.firstDamage
  rw [totals]
  split
  · rfl
  · next hpos => exact (Nat.eq_zero_of_not_pos hpos).symm

theorem near_pack (hx : ∀ f, x f = 1001 ∨ x f = 1002) :
    ∀ creature ∈ k.leader health :: k.followers x health, Near creature := by
  refine List.forall_mem_cons.2 ⟨⟨_, _, _, _, rfl, .inr rfl⟩, fun creature hcreature => ?_⟩
  obtain ⟨i, hi, rfl⟩ := List.mem_mapIdx.1 hcreature
  exact ⟨_, _, _, _, rfl, hx _⟩

theorem kind_hunts (hx : ∀ f, x f = 1001 ∨ x f = 1002) :
    (k.hunts x health damage).kind = some k := by
  have hfactions : (k.followers x health).map Creature.faction = k.others := by
    refine List.ext_getElem? fun i => ?_
    rw [followers, List.getElem?_map, List.getElem?_mapIdx, Option.map_map]
    exact congrFun Option.map_id _
  rw [Monster.kind, hunts, candidates_hunter (near_pack hx)]
  dsimp only
  rw [hfactions, ← hunts, recordedDamage_leader]
  rfl

/-- Where the search is right for all, it is so for the hunter of a pack. -/
theorem AllSelect.pick_le {searchType : TargetSearchType} (h : k.AllSelect searchType)
    (htype : searchType.IsExtremal) (x : Faction → UInt16) (hx : ∀ f, x f = 1001 ∨ x f = 1002)
    (health : ℕ → ℤ) (damage : ℕ → Option ℕ+) :
    ∀ other ∈ k.leader health :: k.followers x health,
      (k.hunts x health damage).key searchType ((k.hunts x health damage).pick searchType 0
          (k.leader health) (k.followers x health)) ≤
        (k.hunts x health damage).key searchType other := by
  have hready : (k.hunts x health damage).Ready resting := ready_hunter (near_pack hx)
  have hcandidates : (k.hunts x health damage).candidates =
      k.leader health :: k.followers x health := candidates_hunter (near_pack hx)
  exact (selects_iff_pick htype hready hcandidates 1 0).1 (h _ _ _ _ (kind_hunts hx) hready)

theorem distance_standing (id : ℕ) (health₀ : ℤ) (f : Faction) :
    (k.hunts x health damage).distance (standing id 1001 health₀ f) = 1 ∧
      (k.hunts x health damage).distance (standing id 1002 health₀ f) = 2 := by
  constructor <;> simp [Monster.distance, hunts, hunter, standing, Map.Position.ix, Map.Position.iy]

variable (x health) in
theorem follower_mem {f : Faction} (hf : f ∈ k.others) :
    ∃ i, follower x health i f ∈ k.followers x health := by
  obtain ⟨i, hi, rfl⟩ := List.getElem_of_mem hf
  exact ⟨i, List.mem_mapIdx.2 ⟨i, hi, rfl⟩⟩

/-- A target of a higher faction that is nearer than the first one, who has no offset, is picked. -/
theorem AllSelect.nearest_default (h : k.AllSelect .nearest) (hfirst : k.first = .default) :
    ∀ f ∈ k.others, f = .default := by
  intro f hf
  by_contra hne
  -- The first target and those without an offset are two squares away, the others one.
  let x (f : Faction) : UInt16 := if f = .default then 1002 else 1001
  let health (_ : ℕ) : ℤ := 100
  let m := k.hunts x health fun _ => none
  have hx : ∀ f, x f = 1001 ∨ x f = 1002 := fun f => by
    by_cases hf : f = .default <;> simp [x, hf]
  have hdistance (i : ℕ) (f : Faction) :
      m.distance (follower x health i f) = if f = .default then 2 else 1 := by
    dsimp only [follower, x]
    split
    · exact (distance_standing _ _ _).2
    · exact (distance_standing _ _ _).1
  have hleader : m.distance (k.leader health) = 2 := (distance_standing _ _ _).2
  obtain ⟨i, hi⟩ := follower_mem x health hf
  have hnear := nearestLoop_least m (k.leader health) _
    (List.mem_cons_of_mem _ hi)
  have hle := h.pick_le (.inl rfl) x hx health (fun _ => none) _ List.mem_cons_self
  have hmem := pick_mem (m := m) (.inl rfl) 0 (k.leader health) (k.followers x health)
  have hpick : m.pick .nearest 0 (k.leader health) (k.followers x health) = m.nearestLoop 0
      (k.leader health) (m.distance (k.leader health)) (k.followers x health) := by
    rw [Monster.pick, show (k.leader health).faction = .default from hfirst]
    rfl
  change m.key .nearest _ ≤ _ at hle
  rw [← hpick, hdistance, if_neg hne] at hnear
  rcases List.mem_cons.1 hmem with heq | hmem
  · rw [heq, hleader] at hnear
    omega
  · -- A nearer one is picked, whose own offset is more than the square.
    obtain ⟨j, hj, heq⟩ := List.mem_mapIdx.1 hmem
    rw [← heq, hdistance] at hnear
    have hhigher : k.others[j] ≠ .default := fun he => by
      rw [if_pos he] at hnear
      omega
    have hvalue := factionValue_pos hhigher
    rw [← heq, Monster.key, Monster.key, hdistance, if_neg hhigher] at hle
    change _ ≤ m.distance (k.leader health) + 100 * factionValue k.first at hle
    rw [hleader, hfirst] at hle
    change 1 + 100 * factionValue k.others[j] ≤ 2 + 100 * 0 at hle
    omega

/-- The first target, with an offset for all others, is picked though one of them that is not of a
higher faction is nearer. -/
theorem AllSelect.nearest_other (h : k.AllSelect .nearest) (hfirst : k.first ≠ .default) :
    ∀ f ∈ k.others, factionValue k.first < factionValue f := by
  intro f hf
  let x (_ : Faction) : UInt16 := 1001
  let health (_ : ℕ) : ℤ := 100
  let m := k.hunts x health fun _ => none
  have hdistance (i : ℕ) (f : Faction) : m.distance (follower x health i f) = 1 :=
    (distance_standing _ _ _).1
  have hleader : m.distance (k.leader health) = 2 := (distance_standing _ _ _).2
  obtain ⟨i, hi⟩ := follower_mem x health hf
  have hle := h.pick_le (.inl rfl) x (fun _ => .inl rfl) health (fun _ => none) _
    (List.mem_cons_of_mem _ hi)
  have hvalue := factionValue_pos hfirst
  have hpick : m.pick .nearest 0 (k.leader health) (k.followers x health) = k.leader health :=
    nearestLoop_of_le fun creature hcreature => by
      obtain ⟨j, hj, rfl⟩ := List.mem_mapIdx.1 hcreature
      rw [hleader, hdistance]
      change 2 ≤ 1 + factionValue k.first * 100
      omega
  change m.key .nearest (m.pick .nearest 0 (k.leader health) (k.followers x health)) ≤ _ at hle
  rw [hpick, Monster.key, Monster.key] at hle
  change m.distance (k.leader health) + 100 * factionValue k.first ≤
    m.distance (follower x health i f) + 100 * factionValue f at hle
  rw [hleader, hdistance] at hle
  omega

theorem followers_append {u v : List Faction} {f : Faction} (hothers : k.others = u ++ f :: v) :
    k.followers x health = u.mapIdx (follower x health) ++ follower x health u.length f ::
      v.mapIdx fun i => follower x health (i + 1 + u.length) := by
  rw [followers, hothers, List.mapIdx_append, List.mapIdx_cons, Nat.zero_add]

/-- The first target of another faction gets the offset of the first one. -/
theorem AllSelect.hp_same (h : k.AllSelect .hp) : ∀ f ∈ k.others, f = k.first := by
  by_contra hne
  obtain ⟨f, u, v, hothers, hf, hu⟩ : ∃ f u v, k.others = u ++ f :: v ∧ f ≠ k.first ∧
      ∀ g ∈ u, g = k.first := by
    cases hfind : k.others.find? (· ≠ k.first) with
    | none => exact absurd (by simpa using hfind) hne
    | some f =>
      obtain ⟨hf, u, v, hothers, hu⟩ := List.find?_eq_some_iff_append.1 hfind
      exact ⟨f, u, v, hothers, by simpa using hf, by simpa using hu⟩
  let x (_ : Faction) : UInt16 := 1001
  -- It has one less than the first target if its own offset is larger, and as much otherwise.
  let health (i : ℕ) : ℤ := if i = 0 then 1000000
    else if i = u.length + 1 then
      if factionValue k.first < factionValue f then 999999 else 1000000
    else 100000000
  have hfirst := factionValue_nonneg k.first
  have hfirst' := factionValue_le k.first
  have hnonneg := factionValue_nonneg f
  have hleader : (k.leader health).health = 1000000 := rfl
  have hfollower : (follower x health u.length f).health =
      if factionValue k.first < factionValue f then 999999 else 1000000 := if_pos rfl
  have hbefore : ∀ creature ∈ u.mapIdx (follower x health),
      creature.faction = k.first ∧ creature.health = 100000000 := fun creature hcreature => by
    obtain ⟨i, hi, rfl⟩ := List.mem_mapIdx.1 hcreature
    exact ⟨hu _ (List.getElem_mem hi), if_neg (by omega)⟩
  have hbehind : ∀ creature ∈ v.mapIdx fun i => follower x health (i + 1 + u.length),
      creature.health = 100000000 := fun creature hcreature => by
    obtain ⟨i, hi, rfl⟩ := List.mem_mapIdx.1 hcreature
    exact if_neg (by omega)
  have hle := h.pick_le (.inr (.inl rfl)) x (fun _ => .inl rfl) health (fun _ => none)
  have hpick : (k.hunts x health fun _ => none).pick .hp 0 (k.leader health)
      (k.followers x health) =
        if factionValue k.first < factionValue f then follower x health u.length f
        else k.leader health := by
    change Monster.hpLoop (factionValue k.first * 100000) (k.leader health)
      ((k.leader health).health + factionValue k.first * 100000) (k.followers x health) = _
    rw [followers_append hothers, hpLoop_append fun c hc => ⟨(hbefore c hc).1, by
      have := (hbefore c hc).2
      omega⟩, Monster.hpLoop]
    change (if _ then Monster.hpLoop (factionValue f * 100000) _ _ _
      else Monster.hpLoop (factionValue f * 100000) _ _ _) = _
    by_cases hlt : factionValue k.first < factionValue f
    · rw [if_pos hlt] at hfollower
      rw [if_pos hlt, if_pos (by omega), hpLoop_of_le (by omega) fun c hc => by
        have := hbehind c hc
        omega]
    · rw [if_neg hlt] at hfollower
      rw [if_neg hlt, if_neg (by omega), hpLoop_of_le (by omega) fun c hc => by
        have := hbehind c hc
        omega]
  rw [hpick] at hle
  by_cases hlt : factionValue k.first < factionValue f
  · have hover := hle _ List.mem_cons_self
    rw [if_pos hlt] at hover hfollower
    change (follower x health u.length f).health + 100000 * factionValue f ≤
      (k.leader health).health + 100000 * factionValue k.first at hover
    omega
  · have hover := hle (follower x health u.length f) (by simp [followers_append hothers])
    rw [if_neg hlt] at hover hfollower
    change (k.leader health).health + 100000 * factionValue k.first ≤
      (follower x health u.length f).health + 100000 * factionValue f at hover
    exact hf (factionValue_injective (by omega))

/-- What the first target has dealt, with its offset. -/
def firstKey (k : Kind) : ℤ := k.firstDamage + 100000 * factionValue k.first

theorem key_leader : (k.hunts x health damage).key .damage (k.leader health) = -k.firstKey := by
  rw [Monster.key, recordedDamage_leader]
  rfl

theorem recordedDamage_follower (i : ℕ) (f : Faction) :
    (k.hunts x health damage).recordedDamage (follower x health i f) =
      ((damage i).map PNat.val).getD 0 :=
  rfl

/-- No target but the first one has dealt damage. -/
theorem AllSelect.damage_le (h : k.AllSelect .damage) :
    ∀ f ∈ k.others, 100000 * factionValue f ≤ k.firstKey := by
  intro f hf
  let x (_ : Faction) : UInt16 := 1001
  let health (_ : ℕ) : ℤ := 100
  let m := k.hunts x health fun _ => none
  obtain ⟨i, hi⟩ := follower_mem x health hf
  have hpick : m.pick .damage 0 (k.leader health) (k.followers x health) = k.leader health := by
    have hnone : ∀ creature ∈ k.followers x health, m.damageMap creature.id = none :=
      fun creature hcreature => by
        obtain ⟨j, hj, rfl⟩ := List.mem_mapIdx.1 hcreature
        rfl
    have happend : m.damageLoop (k.leader health) 0 _ = _ := damageLoop_append hnone []
    rw [List.append_nil] at happend
    exact happend
  have hle := h.pick_le (.inr (.inr rfl)) x (fun _ => .inl rfl) health (fun _ => none) _
    (List.mem_cons_of_mem _ hi)
  change m.key .damage (m.pick .damage 0 (k.leader health) (k.followers x health)) ≤ _ at hle
  rw [hpick, key_leader, Monster.key, recordedDamage_follower] at hle
  change -k.firstKey ≤ -(((0 : ℕ) : ℤ) + 100000 * factionValue f) at hle
  omega

/-- One target has dealt damage of 1. -/
theorem AllSelect.le_damage (h : k.AllSelect .damage) :
    ∀ f ∈ k.others, k.firstKey ≤ 100000 * factionValue f + 1 := by
  intro f hf
  obtain ⟨u, v, hothers⟩ := List.append_of_mem hf
  let x (_ : Faction) : UInt16 := 1001
  let health (_ : ℕ) : ℤ := 100
  let damage (i : ℕ) : Option ℕ+ := if i = u.length then some 1 else none
  let m := k.hunts x health damage
  have hvalue := factionValue_nonneg f
  have hthere : m.damageMap (follower x health u.length f).id = some 1 := if_pos rfl
  have hbefore : ∀ creature ∈ u.mapIdx (follower x health), m.damageMap creature.id = none :=
    fun creature hcreature => by
      obtain ⟨i, hi, rfl⟩ := List.mem_mapIdx.1 hcreature
      exact if_neg (by omega)
  have hbehind : ∀ creature ∈ v.mapIdx fun i => follower x health (i + 1 + u.length),
      m.damageMap creature.id = none := fun creature hcreature => by
    obtain ⟨i, hi, rfl⟩ := List.mem_mapIdx.1 hcreature
    exact if_neg (by omega)
  have hpick : m.pick .damage 0 (k.leader health) (k.followers x health) =
      follower x health u.length f := by
    change m.damageLoop (k.leader health) 0 (k.followers x health) = _
    rw [followers_append hothers, damageLoop_append hbefore, Monster.damageLoop, hthere]
    change (if 1 + factionValue f * 100000 > 0 then m.damageLoop _ _ _ else _) = _
    rw [if_pos (by omega), ← List.append_nil (v.mapIdx _), damageLoop_append hbehind]
    rfl
  have hle := h.pick_le (.inr (.inr rfl)) x (fun _ => .inl rfl) health damage _ List.mem_cons_self
  change m.key .damage (m.pick .damage 0 (k.leader health) (k.followers x health)) ≤ _ at hle
  rw [hpick, key_leader, Monster.key, recordedDamage_follower, show damage u.length = some 1 from
    if_pos rfl] at hle
  change -(((1 : ℕ) : ℤ) + 100000 * factionValue f) ≤ -k.firstKey at hle
  omega

/-- Two targets with an offset have dealt damage of 2 and 1. -/
theorem AllSelect.damage_default (h : k.AllSelect .damage) :
    ∀ f ∈ k.others, f = .default ∨ k.others.length = 1 := by
  intro f hf
  by_contra hne
  rw [not_or] at hne
  have hvalue := factionValue_pos hne.1
  -- The offsets of the others are so close to one number that they are the same.
  have hsame : ∀ g ∈ k.others, factionValue g = factionValue f := fun g hg => by
    have hgle := h.damage_le g hg
    have hgge := h.le_damage g hg
    have hfle := h.damage_le f hf
    have hfge := h.le_damage f hf
    omega
  obtain ⟨f₁, f₂, l, hothers⟩ : ∃ f₁ f₂ l, k.others = f₁ :: f₂ :: l := by
    rcases hothers : k.others with _ | ⟨f₁, _ | ⟨f₂, l⟩⟩
    · rw [hothers] at hf
      cases hf
    · rw [hothers] at hne
      exact absurd rfl hne.2
    · exact ⟨f₁, f₂, l, rfl⟩
  have hone := hsame f₁ (by simp [hothers])
  have htwo := hsame f₂ (by simp [hothers])
  let x (_ : Faction) : UInt16 := 1001
  let health (_ : ℕ) : ℤ := 100
  -- The damage of 2 is kept without its offset, and that of 1 is compared with it with one.
  let damage : ℕ → Option ℕ+
    | 0 => some 2
    | 1 => some 1
    | _ => none
  let m := k.hunts x health damage
  have hfollowers : k.followers x health = follower x health 0 f₁ :: follower x health 1 f₂ ::
      l.mapIdx fun i => follower x health (i + 1 + 1) := by
    rw [followers, hothers, List.mapIdx_cons, List.mapIdx_cons]
  have hbehind : ∀ creature ∈ l.mapIdx fun i => follower x health (i + 1 + 1),
      m.damageMap creature.id = none := fun creature hcreature => by
    obtain ⟨i, hi, rfl⟩ := List.mem_mapIdx.1 hcreature
    rfl
  have hpick : m.pick .damage 0 (k.leader health) (k.followers x health) =
      follower x health 1 f₂ := by
    change m.damageLoop (k.leader health) 0 (k.followers x health) = _
    rw [hfollowers, Monster.damageLoop]
    change (if 2 + factionValue f₁ * 100000 > 0 then m.damageLoop (follower x health 0 f₁) 2 _
      else _) = _
    rw [if_pos (by omega), Monster.damageLoop]
    change (if 1 + factionValue f₂ * 100000 > 2 then m.damageLoop _ _ _ else _) = _
    rw [if_pos (by omega), ← List.append_nil (l.mapIdx _), damageLoop_append hbehind]
    rfl
  have hle := h.pick_le (.inr (.inr rfl)) x (fun _ => .inl rfl) health damage
    (follower x health 0 f₁) (by simp [hfollowers])
  change m.key .damage (m.pick .damage 0 (k.leader health) (k.followers x health)) ≤ _ at hle
  rw [hpick, Monster.key, Monster.key, recordedDamage_follower, recordedDamage_follower] at hle
  change -(((1 : ℕ) : ℤ) + 100000 * factionValue f₂) ≤
    -(((2 : ℕ) : ℤ) + 100000 * factionValue f₁) at hle
  omega

theorem AllSelect.right {searchType : TargetSearchType} (h : k.AllSelect searchType) :
    k.Right searchType := by
  cases searchType with
  | nearest =>
    by_cases hfirst : k.first = .default
    · exact .inl ⟨hfirst, h.nearest_default hfirst⟩
    · exact .inr ⟨hfirst, h.nearest_other hfirst⟩
  | hp => exact h.hp_same
  | damage => exact fun f hf => ⟨h.damage_default f hf, h.damage_le f hf, h.le_damage f hf⟩
  | default => trivial
  | random => trivial

end Kind

/-- A monster at 1000 that hunts players and lion usurpers. -/
def lion (targets : List Creature) : Monster :=
  { hunter targets fun _ => none with
    faction := .lion
    enemyFactions := [.player, .lionUsurpers] }

/-- A usurper is nearer than a player, but of a higher faction. -/
def ambush : Monster := lion [standing 1 1001 100 .lionUsurpers, standing 2 1002 100 .player]

end Canary.Monsters.SearchTarget
