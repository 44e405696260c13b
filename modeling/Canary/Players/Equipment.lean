import Canary.Lib.Contributions
import Canary.Lib.Transition
import Mathlib.Algebra.Group.Pi.Basic
import Mathlib.Algebra.Group.Prod
import Mathlib.Algebra.Order.Group.Int
import Mathlib.Data.List.FinRange

/-!
# Equipment and imbuements

An item that enters a slot of a player enables the ability of the slot, if the player may wield it,
and its bonuses and those of its imbuements are added to the modifiers of the player. They are
subtracted when it leaves. Imbuements are applied and cleared in between, and run out.

* What is added is what the enabled slots are worth (`total_exact`) if an imbuement that is applied,
  cleared or runs out belongs to an enabled slot and is stored where the item has room for it, a
  stat does not change while an item gives a percentage of it, and there is never more than one
  imbuement for capacity.
* Imbuements are added for any item in a slot, enabled or not, and before it is known whether they
  are stored; one in a slot of the item that it does not have is not taken back (`bonus_left`). A
  percentage is that of the stat when the item goes. The capacity is set by the last imbuement that
  comes and cleared by the first that goes.

Types that are transformed when they are equipped are left out, and conditions of items.
-/

namespace Canary.Players.Equipment

open Contributions Transition

/-- `CONST_SLOT_FIRST` to `CONST_SLOT_LAST` -/
abbrev Slots_t := Fin 11

def slots : List Slots_t := List.finRange 11

/-- `SKILL_FIRST` to `SKILL_LAST` -/
abbrev Skill := Fin 13

inductive Stat
  | maxHitPoints
  | maxManaPoints
  | soulPoints
  | magicPoints
  | capacity
  deriving DecidableEq

/-- Of skills, of stats, and of the speed. -/
abbrev Modifiers := (Skill → ℤ) × (Stat → ℤ) × ℤ

/-! ## Imbuements -/

structure Imbuement where
  id : ℕ
  baseId : ℕ
  category : ℕ
  skills : Skill → ℤ
  stats : Stat → ℤ
  speed : ℤ
  capacity : ℕ

def Imbuement.modifiers (imbuement : Imbuement) : Modifiers :=
  (imbuement.skills, imbuement.stats, imbuement.speed)

structure CategoryImbuement where
  id : ℕ
  agressive : Bool

/-- The imbuements that are loaded, and the arithmetic of percentages. -/
structure Config where
  imbuementMap : ℕ → Option Imbuement
  id_eq : ∀ id imbuement, imbuementMap id = some imbuement → imbuement.id = id
  /-- The duration of the base of an imbuement. -/
  getBaseByID : ℕ → Option ℕ
  getCategoryByID : ℕ → Option CategoryImbuement
  /-- `static_cast<int32_t>(stat * ((percent - 100) / 100.f))` -/
  scale : ℤ → ℤ → ℤ

def Config.getImbuement (c : Config) (id : ℕ) : Option Imbuement :=
  if id = 0 then none else c.imbuementMap id

structure Abilities where
  speed : ℤ
  skills : Skill → ℤ
  stats : Stat → ℤ
  statsPercent : Stat → ℤ

structure ItemType where
  abilities : Option Abilities
  /-- For each category the greatest base. -/
  imbuementTypes : ℕ → Option ℕ

structure Item where
  itemType : ItemType
  imbuementSlot : ℕ
  /-- The custom attributes `ITEM_IMBUEMENT_SLOT + slot`, 0 where there is none. -/
  customAttributes : ℕ → ℕ

namespace Item

variable (c : Config) (item : Item)

/-- An imbuement and its duration, if there is one with time left. -/
def getImbuementInfo (slot : ℕ) : Option (Imbuement × ℕ) :=
  let info := item.customAttributes slot % 2 ^ 32
  match c.getImbuement (info &&& 0xFF) with
  | none => none
  | some imbuement => if info >>> 8 ≠ 0 then some (imbuement, info >>> 8) else none

/-- The imbuement of a slot. -/
def imbuementAt (slot : ℕ) : Option Imbuement := (item.getImbuementInfo c slot).map Prod.fst

def setImbuement (slot imbuementId duration : ℕ) : Item :=
  let value := if duration > 0 then (duration <<< 8) % 2 ^ 32 ||| imbuementId else 0
  { item with customAttributes := Function.update item.customAttributes slot value }

def hasImbuementType (imbuementType imbuementTier : ℕ) : Bool :=
  match item.itemType.imbuementTypes imbuementType with
  | some tier => tier ≥ imbuementTier
  | none => false

def hasImbuementCategoryId (categoryId : ℕ) : Bool :=
  (List.range item.imbuementSlot).any fun slotid =>
    match item.imbuementAt c slotid with
    | some imbuement => (c.getCategoryByID imbuement.category).map (·.id) = some categoryId
    | none => false

/-- The item is held by a player. -/
def addImbuement (slot imbuementId duration : ℕ) : Item :=
  match c.getImbuement imbuementId with
  | none => item
  | some imbuement =>
    match c.getCategoryByID imbuement.category with
    | none => item
    | some categoryImbuement =>
      if !item.hasImbuementType categoryImbuement.id imbuement.baseId then item
      else if item.hasImbuementCategoryId c categoryImbuement.id then item
      else item.setImbuement slot imbuementId duration

def decayImbuementTime (slot imbuementId duration : ℕ) : Item :=
  item.setImbuement slot imbuementId duration

def clearImbuement (slot imbuementId : ℕ) : Item := item.setImbuement slot imbuementId 0

end Item

/-! ## Players -/

/-- What changes otherwise. -/
structure Growth where
  level : ℕ
  capacity : ℕ
  healthMax : ℕ
  manaMax : ℕ
  baseMagicLevel : ℕ
  loyaltyMagicLevel : ℕ
  /-- Of the wheel of destiny. -/
  wheelMagic : ℕ
  isPremium : Bool
  vocationId : ℕ
  ignoreWeaponCheck : Bool

def Growth.getDefaultStats (g : Growth) : Stat → ℤ
  | .maxHitPoints => g.healthMax
  | .maxManaPoints => g.manaMax
  | .magicPoints => g.baseMagicLevel
  | _ => 0

structure Player where
  growth : Growth
  inventory : Slots_t → Option Item
  inventoryAbilities : Slots_t → Bool
  varSkills : Skill → ℤ
  varStats : Stat → ℤ
  /-- The sum of the changes. -/
  varSpeed : ℤ
  bonusCapacity : ℕ

/-- What an item demands of those who wield it. -/
structure MoveEvent where
  wieldInfo : ℕ
  reqLevel : ℕ
  reqMagLevel : ℕ
  premium : Bool
  vocEquipMap : List ℕ

/-- The capacity that an imbuement gives. -/
def capacityOf (g : Growth) (imbuement : Imbuement) : ℕ :=
  g.capacity * imbuement.capacity % 2 ^ 32 / 100

/-- The modifiers of abilities. -/
def Abilities.modifiers (c : Config) (g : Growth) (it : Abilities) : Modifiers :=
  (it.skills,
    fun s => it.stats s +
      if it.statsPercent s ≠ 0 then c.scale (g.getDefaultStats s) (it.statsPercent s) else 0,
    it.speed)

namespace Player

variable (c : Config) (p : Player)

def modifiers : Modifiers := (p.varSkills, p.varStats, p.varSpeed)

def setModifiers (m : Modifiers) : Player :=
  { p with varSkills := m.1, varStats := m.2.1, varSpeed := m.2.2 }

def isItemAbilityEnabled (slot : Slots_t) : Bool := p.inventoryAbilities slot

def setItemAbility (slot : Slots_t) (enabled : Bool) : Player :=
  { p with inventoryAbilities := Function.update p.inventoryAbilities slot enabled }

def setItem (slot : Slots_t) (item : Option Item) : Player :=
  { p with inventory := Function.update p.inventory slot item }

def getMagicLevel : ℤ :=
  max 0 (p.growth.loyaltyMagicLevel + p.varStats .magicPoints) + p.growth.wheelMagic

def addItemImbuementStats (imbuement : Imbuement) : Player :=
  let p := p.setModifiers (p.modifiers + imbuement.modifiers)
  if imbuement.capacity ≠ 0 then { p with bonusCapacity := capacityOf p.growth imbuement } else p

def removeItemImbuementStats (imbuement : Imbuement) : Player :=
  let p := p.setModifiers (p.modifiers - imbuement.modifiers)
  if imbuement.capacity ≠ 0 then { p with bonusCapacity := 0 } else p

/-- The player may not wield the item. -/
def refused (m : MoveEvent) : Bool :=
  !p.growth.ignoreWeaponCheck && m.wieldInfo ≠ 0 &&
    (p.growth.level < m.reqLevel || p.getMagicLevel < m.reqMagLevel ||
      m.premium && !p.growth.isPremium ||
      !m.vocEquipMap.isEmpty && !m.vocEquipMap.contains p.growth.vocationId)

/-- What is done with the imbuement of a slot, if there is one. -/
def forImbuement (item : Item) (f : Player → Imbuement → Player) (p : Player) (slotid : ℕ) :
    Player :=
  match item.imbuementAt c slotid with
  | none => p
  | some imbuement => f p imbuement

/-- The loop over the imbuements of an item. -/
def forImbuements (item : Item) (f : Player → Imbuement → Player) : Player :=
  (List.range item.imbuementSlot).foldl (forImbuement c item f) p

def addAbilities (item : Item) : Player :=
  match item.itemType.abilities with
  | none => p
  | some it => p.setModifiers (p.modifiers + it.modifiers c p.growth)

def removeAbilities (item : Item) : Player :=
  match item.itemType.abilities with
  | none => p
  | some it => p.setModifiers (p.modifiers - it.modifiers c p.growth)

/-- `MoveEvent::EquipItem`, with what it returns. -/
def equipItem (m : MoveEvent) (item : Item) (slot : Slots_t) (isCheck : Bool) : ℕ × Player :=
  if p.isItemAbilityEnabled slot then (1, p)
  else if p.refused m then (0, p)
  else if isCheck then (1, p)
  else
    let p := p.setItemAbility slot true
    (1, (p.forImbuements c item addItemImbuementStats).addAbilities c item)

/-- `MoveEvent::DeEquipItem` -/
def deEquipItem (item : Item) (slot : Slots_t) : Player :=
  if !p.isItemAbilityEnabled slot then p
  else
    let p := p.setItemAbility slot false
    (p.forImbuements c item removeItemImbuementStats).removeAbilities c item

/-! ## Imbuing -/

/-- An attempt: what the player has, and whether it is successful. -/
structure Attempt where
  hasItems : Bool
  hasMoney : Bool
  succeeds : Bool

/-- `onApplyImbuement`, for an item in a slot or elsewhere -/
def onApplyImbuement (imbuement : Imbuement) (item : Item) (isParent : Bool) (slot : ℕ)
    (a : Attempt) : Player × Item :=
  if (item.imbuementAt c slot).isSome then (p, item)
  else if !a.hasItems then (p, item)
  else
    match c.getBaseByID imbuement.baseId with
    | none => (p, item)
    | some duration =>
      if !a.hasMoney then (p, item)
      else if !a.succeeds then (p, item)
      else
        (if isParent then p.addItemImbuementStats imbuement else p,
          item.addImbuement c slot imbuement.id duration)

def onClearImbuement (item : Item) (isParent : Bool) (slot : ℕ) (hasMoney : Bool) :
    Player × Item :=
  match item.imbuementAt c slot with
  | none => (p, item)
  | some imbuement =>
    if (c.getBaseByID imbuement.baseId).isNone then (p, item)
    else if !hasMoney then (p, item)
    else
      (if isParent then p.removeItemImbuementStats imbuement else p,
        item.clearImbuement slot imbuement.id)

/-- How the player fights, when imbuements decay. -/
structure Fight where
  isInProtectionZone : Bool
  isInFightMode : Bool
  nonAggressiveFightOnly : Bool

/-- The imbuement does not decay. The parent of the item is the player, and no container. -/
def skips (f : Fight) (imbuement : Imbuement) : Bool :=
  match c.getCategoryByID imbuement.category with
  | none => false
  | some categoryImbuement => (categoryImbuement.agressive || f.nonAggressiveFightOnly) &&
      (f.isInProtectionZone || !f.isInFightMode)

/-- One imbuement decays, by `EVENT_IMBUEMENT_INTERVAL / 1000`. -/
def decayImbuement (f : Fight) (slot : Slots_t) (p : Player) (slotid : ℕ) : Player :=
  match p.inventory slot with
  | none => p
  | some item =>
    match item.getImbuementInfo c slotid with
    | none => p
    | some (imbuement, duration) =>
      if skips c f imbuement then p
      else
        let p := p.setItem slot (item.decayImbuementTime slotid imbuement.id (duration - 1))
        if duration - 1 = 0 then p.removeItemImbuementStats imbuement else p

/-- The imbuements of one item decay. -/
def decayItem (f : Fight) (p : Player) (slot : Slots_t) : Player :=
  match p.inventory slot with
  | none => p
  | some item => (List.range item.imbuementSlot).foldl (decayImbuement c f slot) p

/-- `updateInventoryImbuement`, for the items in some order -/
def updateInventoryImbuement (f : Fight) (order : List Slots_t) : Player :=
  order.foldl (decayItem c f) p

end Player

/-! ## Runs -/

/-- An item in a slot, or in a container. -/
inductive Place
  | slot (slot : Slots_t)
  | container (item : Item)

inductive Event
  | equip (slot : Slots_t) (item : Item) (m : MoveEvent)
  | deEquip (slot : Slots_t)
  | apply (place : Place) (imbuementId slotid : ℕ) (a : Player.Attempt)
  | clear (place : Place) (slotid : ℕ) (hasMoney : Bool)
  | update (f : Player.Fight) (order : List Slots_t)
  | grow (g : Growth)

namespace Player

variable (c : Config)

/-- An item enters a slot that is empty, and one leaves that is not. The slots that are updated
each come once. -/
def next (p : Player) : Event → Option Player
  | .equip slot item m =>
    if (p.inventory slot).isSome then none
    else some ((p.setItem slot (some item)).equipItem c m item slot false).2
  | .deEquip slot =>
    (p.inventory slot).map fun item => (p.deEquipItem c item slot).setItem slot none
  | .apply place imbuementId slotid a =>
    (c.getImbuement imbuementId).bind fun imbuement =>
      match place with
      | .container item => some (p.onApplyImbuement c imbuement item false slotid a).1
      | .slot slot => (p.inventory slot).map fun item =>
        let (p, item) := p.onApplyImbuement c imbuement item true slotid a
        p.setItem slot (some item)
  | .clear place slotid hasMoney =>
    match place with
    | .container item => some (p.onClearImbuement c item false slotid hasMoney).1
    | .slot slot => (p.inventory slot).map fun item =>
      let (p, item) := p.onClearImbuement c item true slotid hasMoney
      p.setItem slot (some item)
  | .update f order =>
    if order.Perm slots then some (p.updateInventoryImbuement c f order) else none
  | .grow g => some { p with growth := g }

end Player

/-! ## What is meant -/

/-- Modifiers, the number of imbuements for capacity, and the capacity that they give. -/
abbrev Tally := Modifiers × ℤ × ℤ

def Imbuement.tally (g : Growth) (imbuement : Imbuement) : Tally :=
  (imbuement.modifiers, if imbuement.capacity ≠ 0 then (1, (capacityOf g imbuement : ℤ)) else 0)

/-- The imbuement gives nothing. -/
def Imbuement.Idle (imbuement : Imbuement) : Prop :=
  imbuement.modifiers = 0 ∧ imbuement.capacity = 0

namespace Item

variable (c : Config) (g : Growth) (item : Item)

/-- What the imbuement of a slot gives, if it has time left. -/
def tallyAt (slotid : ℕ) : Tally := (item.imbuementAt c slotid).elim 0 (Imbuement.tally g)

/-- What the type and the imbuements of an item give. -/
def tally : Tally :=
  ((List.range item.imbuementSlot).map (item.tallyAt c g)).sum +
    (item.itemType.abilities.elim 0 (Abilities.modifiers c g), 0)

end Item

namespace Player

variable (c : Config) (p : Player)

/-- What the item in a slot gives, if its ability is enabled. -/
def worth (slot : Slots_t) : Tally :=
  if p.isItemAbilityEnabled slot then (p.inventory slot).elim 0 (Item.tally c p.growth) else 0

def total : Tally := (slots.map (p.worth c)).sum

/-- The modifiers that come from elsewhere, and what is worn. -/
def Exact (base : Modifiers) : Prop :=
  p.modifiers = base + (p.total c).1 ∧ (p.bonusCapacity : ℤ) = (p.total c).2.2

/-- Nothing is worn. -/
def Bare : Prop :=
  (∀ slot, p.inventory slot = none ∧ p.isItemAbilityEnabled slot = false) ∧ p.bonusCapacity = 0

/-- An imbuement of an item in `slot` is counted, or it gives nothing. -/
def Counted (slot : Slots_t) (item : Item) (slotid : ℕ) (imbuement : Imbuement) : Prop :=
  p.isItemAbilityEnabled slot = true ∧ slotid < item.imbuementSlot ∨ imbuement.Idle

/-- An imbuement that was applied is found in its slot, unless it gives nothing. -/
def Stored (imbuement : Imbuement) (found : Option Imbuement) : Prop :=
  found = some imbuement ∨ imbuement.Idle ∧ found = none

/-- The steps after which what is added is what is worn. -/
def Fits (p : Player) : Event → Prop
  | .equip _ item m => p.refused m = true ∨
      (p.total c).2.1 + (item.tally c p.growth).2.1 ≤ 1
  | .deEquip _ => True
  | .apply (.container _) _ _ _ | .clear (.container _) _ _ => True
  | .apply (.slot slot) imbuementId slotid a => ∀ item imbuement duration,
      p.inventory slot = some item → item.imbuementAt c slotid = none →
      c.getImbuement imbuementId = some imbuement →
      c.getBaseByID imbuement.baseId = some duration →
      (a.hasItems && a.hasMoney && a.succeeds) = true →
      p.Counted slot item slotid imbuement ∧
        Stored imbuement
          ((item.addImbuement c slotid imbuement.id duration).imbuementAt c slotid) ∧
        (imbuement.capacity ≠ 0 → (p.total c).2.1 = 0)
  | .clear (.slot slot) slotid hasMoney => ∀ item imbuement, p.inventory slot = some item →
      item.imbuementAt c slotid = some imbuement →
      (c.getBaseByID imbuement.baseId).isSome = true → hasMoney = true →
      p.Counted slot item slotid imbuement
  | .update f _ => ∀ slot item slotid imbuement, p.inventory slot = some item →
      slotid < item.imbuementSlot → item.getImbuementInfo c slotid = some (imbuement, 1) →
      skips c f imbuement = false → p.Counted slot item slotid imbuement
  | .grow g => ∀ slot item, p.isItemAbilityEnabled slot = true → p.inventory slot = some item →
      (∀ it, item.itemType.abilities = some it → it.modifiers c g = it.modifiers c p.growth) ∧
        ∀ slotid imbuement, item.imbuementAt c slotid = some imbuement →
          capacityOf g imbuement = capacityOf p.growth imbuement

end Player

/-! ## Capacity

There is never more than one imbuement for capacity, so without it there is no capacity. -/

/-- No capacity is given without an imbuement for it. -/
def Light (t : Tally) : Prop := 0 ≤ t.2.1 ∧ (t.2.1 = 0 → t.2.2 = 0)

theorem light_zero : Light 0 := ⟨le_refl _, fun _ => rfl⟩

theorem Light.add {t u : Tally} (ht : Light t) (hu : Light u) : Light (t + u) := by
  obtain ⟨ht₀, ht⟩ := ht
  obtain ⟨hu₀, hu⟩ := hu
  refine ⟨add_nonneg ht₀ hu₀, fun hsum => ?_⟩
  have hsum : t.2.1 + u.2.1 = 0 := hsum
  change t.2.2 + u.2.2 = 0
  rw [ht (by omega), hu (by omega), add_zero]

theorem light_sum {α : Type*} {l : List α} {f : α → Tally} (h : ∀ a, Light (f a)) :
    Light (l.map f).sum := by
  induction l with
  | nil => exact light_zero
  | cons a l ih =>
    rw [List.map_cons, List.sum_cons]
    exact (h a).add ih

theorem light_imbuement (g : Growth) (imbuement : Imbuement) : Light (imbuement.tally g) := by
  unfold Imbuement.tally
  split
  · exact ⟨zero_le_one, fun hone => absurd hone one_ne_zero⟩
  · exact ⟨le_refl _, fun _ => rfl⟩

variable {c : Config} {g : Growth} {item item' : Item}

theorem light_tallyAt (slotid : ℕ) : Light (item.tallyAt c g slotid) := by
  unfold Item.tallyAt
  cases item.imbuementAt c slotid with
  | none => exact light_zero
  | some imbuement => exact light_imbuement g imbuement

theorem light_abilities (m : Modifiers) : Light (m, 0) := ⟨le_refl _, fun _ => rfl⟩

theorem light_tally (item : Item) : Light (item.tally c g) :=
  (light_sum light_tallyAt).add (light_abilities _)

theorem light_total (p : Player) : Light (p.total c) := by
  refine light_sum fun slot => ?_
  unfold Player.worth
  split
  · cases p.inventory slot with
    | none => exact light_zero
    | some item => exact light_tally item
  · exact light_zero

/-! ## What is held -/

/-- The player holds the modifiers and the capacity of a tally. -/
structure Held (base : Modifiers) (p : Player) (t : Tally) : Prop where
  modifiers : p.modifiers = base + t.1
  capacity : (p.bonusCapacity : ℤ) = t.2.2
  one : t.2.1 ≤ 1

/-- The same player but for what is held. -/
structure Same (p p' : Player) : Prop where
  growth : p'.growth = p.growth
  inventory : p'.inventory = p.inventory
  inventoryAbilities : p'.inventoryAbilities = p.inventoryAbilities

variable {base : Modifiers} {p p' : Player} {t : Tally} {imbuement : Imbuement}

theorem same_refl (p : Player) : Same p p := ⟨rfl, rfl, rfl⟩

theorem Same.trans {p₁ p₂ p₃ : Player} (h : Same p₁ p₂) (h' : Same p₂ p₃) : Same p₁ p₃ :=
  ⟨h'.growth.trans h.growth, h'.inventory.trans h.inventory,
    h'.inventoryAbilities.trans h.inventoryAbilities⟩

theorem Same.isItemAbilityEnabled (h : Same p p') (slot : Slots_t) :
    p'.isItemAbilityEnabled slot = p.isItemAbilityEnabled slot :=
  congrFun h.inventoryAbilities slot

theorem same_add : Same p (p.addItemImbuementStats imbuement) := by
  unfold Player.addItemImbuementStats
  simp only
  split
  · exact ⟨rfl, rfl, rfl⟩
  · exact ⟨rfl, rfl, rfl⟩

theorem same_remove : Same p (p.removeItemImbuementStats imbuement) := by
  unfold Player.removeItemImbuementStats
  simp only
  split
  · exact ⟨rfl, rfl, rfl⟩
  · exact ⟨rfl, rfl, rfl⟩

/-- What is added to a tally without capacity, or has none itself. -/
theorem Held.add (h : Held base p t) (ht : Light t)
    (hone : imbuement.capacity ≠ 0 → t.2.1 = 0) :
    Held base (p.addItemImbuementStats imbuement) (t + imbuement.tally p.growth) := by
  obtain ⟨hmodifiers, hcapacity, hle⟩ := h
  have hadd : p.modifiers + imbuement.modifiers = base + (t.1 + imbuement.modifiers) := by
    rw [hmodifiers, add_assoc]
  unfold Player.addItemImbuementStats Imbuement.tally
  simp only
  by_cases hzero : imbuement.capacity ≠ 0
  · rw [if_pos hzero, if_pos hzero]
    refine ⟨hadd, ?_, ?_⟩
    · change (capacityOf p.growth imbuement : ℤ) = t.2.2 + capacityOf p.growth imbuement
      rw [ht.2 (hone hzero), zero_add]
    · change t.2.1 + 1 ≤ 1
      rw [hone hzero, zero_add]
  · rw [if_neg hzero, if_neg hzero]
    refine ⟨hadd, ?_, ?_⟩
    · change (p.bonusCapacity : ℤ) = t.2.2 + 0
      rw [hcapacity, add_zero]
    · change t.2.1 + 0 ≤ 1
      rw [add_zero]
      exact hle

/-- What goes was the only one with capacity, or had none. -/
theorem Held.remove (h : Held base p (t + imbuement.tally p.growth)) (ht : Light t) :
    Held base (p.removeItemImbuementStats imbuement) t := by
  obtain ⟨hmodifiers, hcapacity, hle⟩ := h
  have hsub : p.modifiers - imbuement.modifiers = base + t.1 := by
    rw [hmodifiers]
    change base + (t.1 + imbuement.modifiers) - imbuement.modifiers = base + t.1
    rw [← add_assoc, add_sub_cancel_right]
  unfold Imbuement.tally at hcapacity hle
  unfold Player.removeItemImbuementStats
  simp only
  by_cases hzero : imbuement.capacity ≠ 0
  · rw [if_pos hzero] at hcapacity hle ⊢
    have hle : t.2.1 + 1 ≤ 1 := hle
    have hnone : t.2.1 = 0 := le_antisymm (by omega) ht.1
    exact ⟨hsub, (ht.2 hnone).symm, by rw [hnone]; exact zero_le_one⟩
  · rw [if_neg hzero] at hcapacity hle ⊢
    have hcapacity : (p.bonusCapacity : ℤ) = t.2.2 + 0 := hcapacity
    have hle : t.2.1 + 0 ≤ 1 := hle
    rw [add_zero] at hcapacity hle
    exact ⟨hsub, hcapacity, hle⟩

theorem held_setModifiers (h : Held base p t) (m : Modifiers) :
    Held base (p.setModifiers (p.modifiers + m)) (t + (m, 0)) := by
  obtain ⟨hmodifiers, hcapacity, hle⟩ := h
  refine ⟨?_, ?_, ?_⟩
  · change p.modifiers + m = base + (t.1 + m)
    rw [hmodifiers, add_assoc]
  · change (p.bonusCapacity : ℤ) = t.2.2 + 0
    rw [hcapacity, add_zero]
  · change t.2.1 + 0 ≤ 1
    rw [add_zero]
    exact hle

theorem held_addAbilities (item : Item) (h : Held base p t) :
    Same p (p.addAbilities c item) ∧ Held base (p.addAbilities c item)
      (t + (item.itemType.abilities.elim 0 (Abilities.modifiers c p.growth), 0)) := by
  unfold Player.addAbilities
  cases item.itemType.abilities with
  | none =>
    refine ⟨same_refl p, ?_⟩
    change Held base p (t + 0)
    rw [add_zero]
    exact h
  | some it => exact ⟨⟨rfl, rfl, rfl⟩, held_setModifiers h _⟩

theorem held_removeAbilities (item : Item)
    (h : Held base p (t + (item.itemType.abilities.elim 0 (Abilities.modifiers c p.growth), 0))) :
    Same p (p.removeAbilities c item) ∧ Held base (p.removeAbilities c item) t := by
  unfold Player.removeAbilities
  cases hit : item.itemType.abilities with
  | none =>
    rw [hit] at h
    have h : Held base p (t + 0) := h
    rw [add_zero] at h
    exact ⟨same_refl p, h⟩
  | some it =>
    rw [hit, Option.elim_some] at h
    refine ⟨⟨rfl, rfl, rfl⟩, ?_⟩
    have hback := held_setModifiers h (-it.modifiers c p.growth)
    rw [← sub_eq_add_neg] at hback
    have hcancel : ((it.modifiers c p.growth, 0) : Tally) + (-it.modifiers c p.growth, 0) = 0 := by
      rw [Prod.mk_add_mk, add_neg_cancel, add_zero]
      rfl
    rwa [add_assoc, hcancel, add_zero] at hback

theorem Held.same (h : Held base p t) (hm : p'.modifiers = p.modifiers)
    (hc : p'.bonusCapacity = p.bonusCapacity) : Held base p' t :=
  ⟨hm.trans h.modifiers, by rw [hc]; exact h.capacity, h.one⟩

/-! ## Loops over the imbuements of an item -/

theorem held_forImbuement_add (item : Item) (slotid : ℕ) (h : Held base p t) (ht : Light t)
    (hone : t.2.1 + (item.tallyAt c p.growth slotid).2.1 ≤ 1) :
    Same p (p.forImbuement c item Player.addItemImbuementStats slotid) ∧
      Held base (p.forImbuement c item Player.addItemImbuementStats slotid)
        (t + item.tallyAt c p.growth slotid) := by
  unfold Player.forImbuement Item.tallyAt at *
  cases hat : item.imbuementAt c slotid with
  | none => exact ⟨same_refl p, by rw [Option.elim_none, add_zero]; exact h⟩
  | some imbuement =>
    rw [hat, Option.elim_some] at hone
    refine ⟨same_add, h.add ht fun hzero => le_antisymm ?_ ht.1⟩
    unfold Imbuement.tally at hone
    rw [if_pos hzero] at hone
    have hone : t.2.1 + 1 ≤ 1 := hone
    omega

theorem held_foldl_add (item : Item) (l : List ℕ) (h : Held base p t) (ht : Light t)
    (hone : t.2.1 + (l.map (item.tallyAt c p.growth)).sum.2.1 ≤ 1) :
    Same p (l.foldl (Player.forImbuement c item Player.addItemImbuementStats) p) ∧
      Held base (l.foldl (Player.forImbuement c item Player.addItemImbuementStats) p)
        (t + (l.map (item.tallyAt c p.growth)).sum) := by
  induction l generalizing p t with
  | nil =>
    rw [List.map_nil, List.sum_nil, add_zero]
    exact ⟨same_refl p, h⟩
  | cons slotid l ih =>
    rw [List.map_cons, List.sum_cons] at hone ⊢
    have hone : t.2.1 + ((item.tallyAt c p.growth slotid).2.1 +
      (l.map (item.tallyAt c p.growth)).sum.2.1) ≤ 1 := hone
    have hrest : Light (l.map (item.tallyAt c p.growth)).sum := light_sum light_tallyAt
    have hfirst : t.2.1 + (item.tallyAt c p.growth slotid).2.1 ≤ 1 := by
      have hnonneg := hrest.1
      omega
    obtain ⟨hsame, hheld⟩ := held_forImbuement_add item slotid h ht hfirst
    rw [List.foldl_cons, ← add_assoc]
    rw [← hsame.growth] at hheld hone ⊢
    obtain ⟨hsame', hheld'⟩ := ih hheld (ht.add (light_tallyAt slotid)) (by
      change t.2.1 + _ + _ ≤ 1
      omega)
    exact ⟨hsame.trans hsame', hheld'⟩

theorem held_foldl_remove (item : Item) (l : List ℕ)
    (h : Held base p (t + (l.map (item.tallyAt c p.growth)).sum)) (ht : Light t) :
    Same p (l.foldl (Player.forImbuement c item Player.removeItemImbuementStats) p) ∧
      Held base (l.foldl (Player.forImbuement c item Player.removeItemImbuementStats) p) t := by
  induction l generalizing p with
  | nil =>
    rw [List.map_nil, List.sum_nil, add_zero] at h
    exact ⟨same_refl p, h⟩
  | cons slotid l ih =>
    rw [List.map_cons, List.sum_cons, add_comm (item.tallyAt c p.growth slotid), ← add_assoc] at h
    rw [List.foldl_cons]
    have hstep : Same p (p.forImbuement c item Player.removeItemImbuementStats slotid) ∧
        Held base (p.forImbuement c item Player.removeItemImbuementStats slotid)
          (t + (l.map (item.tallyAt c p.growth)).sum) := by
      unfold Player.forImbuement
      cases hat : item.imbuementAt c slotid with
      | none =>
        rw [Item.tallyAt, hat, Option.elim_none, add_zero] at h
        exact ⟨same_refl p, h⟩
      | some imbuement =>
        rw [Item.tallyAt, hat, Option.elim_some] at h
        exact ⟨same_remove, h.remove (ht.add (light_sum light_tallyAt))⟩
    rw [← hstep.1.growth] at hstep
    obtain ⟨hsame', hheld'⟩ := ih hstep.2
    exact ⟨hstep.1.trans hsame', hheld'⟩

/-! ## One slot changes -/

theorem worth_same (h : Same p p') (slot : Slots_t) : p'.worth c slot = p.worth c slot := by
  rw [Player.worth, Player.worth, h.isItemAbilityEnabled, h.growth, h.inventory]

theorem total_congr (h : ∀ slot, p'.worth c slot = p.worth c slot) : p'.total c = p.total c := by
  unfold Player.total
  rw [funext h]

theorem total_of_ne (slot : Slots_t) (h : ∀ s, s ≠ slot → p'.worth c s = p.worth c s) :
    p'.total c = p.total c - p.worth c slot + p'.worth c slot := by
  have hupdate : p'.worth c = Function.update (p.worth c) slot (p'.worth c slot) := by
    funext s
    by_cases hs : s = slot
    · subst hs
      rw [Function.update_self]
    · rw [Function.update_of_ne hs, h s hs]
  unfold Player.total slots
  rw [hupdate, sum_map_update (List.nodup_finRange 11) (List.mem_finRange slot),
    Function.update_self]

theorem worth_of_enabled {slot : Slots_t} (henabled : p.isItemAbilityEnabled slot = true)
    (hitem : p.inventory slot = some item) : p.worth c slot = item.tally c p.growth := by
  unfold Player.worth
  rw [if_pos henabled, hitem, Option.elim_some]

theorem worth_of_not_enabled {slot : Slots_t} (h : p.isItemAbilityEnabled slot = false) :
    p.worth c slot = 0 := by
  unfold Player.worth
  rw [if_neg (by rw [h]; exact Bool.false_ne_true)]

/-- What is held is what the enabled slots are worth, and these are not empty. -/
structure Inv (c : Config) (base : Modifiers) (p : Player) : Prop where
  held : Held base p (p.total c)
  worn : ∀ slot, p.isItemAbilityEnabled slot = true → (p.inventory slot).isSome

/-! ## Items come and go -/

@[simp] theorem inventory_setItem_self (p : Player) (slot : Slots_t) (item : Option Item) :
    (p.setItem slot item).inventory slot = item := Function.update_self ..

theorem inventory_setItem_of_ne {slot s : Slots_t} (hs : s ≠ slot) (item : Option Item) :
    (p.setItem slot item).inventory s = p.inventory s := Function.update_of_ne hs ..

@[simp] theorem enabled_setItem (p : Player) (slot s : Slots_t) (item : Option Item) :
    (p.setItem slot item).isItemAbilityEnabled s = p.isItemAbilityEnabled s := rfl

@[simp] theorem enabled_setItemAbility_self (p : Player) (slot : Slots_t) (enabled : Bool) :
    (p.setItemAbility slot enabled).isItemAbilityEnabled slot = enabled := Function.update_self ..

theorem enabled_setItemAbility_of_ne {slot s : Slots_t} (hs : s ≠ slot) (enabled : Bool) :
    (p.setItemAbility slot enabled).isItemAbilityEnabled s = p.isItemAbilityEnabled s :=
  Function.update_of_ne hs ..

theorem worth_setItem_of_ne {slot s : Slots_t} (hs : s ≠ slot) (item : Option Item) :
    (p.setItem slot item).worth c s = p.worth c s := by
  rw [Player.worth, Player.worth, enabled_setItem, inventory_setItem_of_ne hs]
  rfl

theorem worth_setItemAbility_of_ne {slot s : Slots_t} (hs : s ≠ slot) (enabled : Bool) :
    (p.setItemAbility slot enabled).worth c s = p.worth c s := by
  rw [Player.worth, Player.worth, enabled_setItemAbility_of_ne hs]
  rfl

/-- An item in a slot that is not enabled is not worth anything. -/
theorem inv_setItem_of_not_enabled (h : Inv c base p) {slot : Slots_t}
    (hslot : p.isItemAbilityEnabled slot = false) (item : Option Item) :
    Inv c base (p.setItem slot item) := by
  refine ⟨?_, fun s hs => ?_⟩
  · rw [total_congr (p := p) fun s => ?_]
    · exact h.held.same rfl rfl
    · by_cases hs : s = slot
      · subst hs
        rw [worth_of_not_enabled hslot, worth_of_not_enabled]
        exact hslot
      · exact worth_setItem_of_ne hs item
  · have hne : s ≠ slot := by
      rintro rfl
      exact absurd (hs.symm.trans hslot) (by decide)
    rw [inventory_setItem_of_ne hne]
    exact h.worn s hs

theorem held_equip (item : Item) (h : Held base p t) (ht : Light t)
    (hone : t.2.1 + (item.tally c p.growth).2.1 ≤ 1) :
    Same p ((p.forImbuements c item Player.addItemImbuementStats).addAbilities c item) ∧
      Held base ((p.forImbuements c item Player.addItemImbuementStats).addAbilities c item)
        (t + item.tally c p.growth) := by
  have hcount : (item.tally c p.growth).2.1 =
      ((List.range item.imbuementSlot).map (item.tallyAt c p.growth)).sum.2.1 := add_zero _
  obtain ⟨hsame, hheld⟩ := held_foldl_add item (List.range item.imbuementSlot) h ht
    (by rw [← hcount]; exact hone)
  obtain ⟨hsame', hheld'⟩ := held_addAbilities (c := c) item hheld
  rw [hsame.growth, add_assoc] at hheld'
  exact ⟨hsame.trans hsame', hheld'⟩

theorem held_deEquip (item : Item) (h : Held base p (t + item.tally c p.growth)) (ht : Light t) :
    Same p ((p.forImbuements c item Player.removeItemImbuementStats).removeAbilities c item) ∧
      Held base ((p.forImbuements c item Player.removeItemImbuementStats).removeAbilities c item)
        t := by
  unfold Item.tally at h
  rw [add_comm (List.sum _), ← add_assoc] at h
  obtain ⟨hsame, hheld⟩ := held_foldl_remove item (List.range item.imbuementSlot) h
    (ht.add (light_abilities _))
  rw [← hsame.growth] at hheld
  obtain ⟨hsame', hheld'⟩ := held_removeAbilities item hheld
  exact ⟨hsame.trans hsame', hheld'⟩

theorem inv_equip (h : Inv c base p) {slot : Slots_t} (hnone : p.inventory slot = none)
    {m : MoveEvent} (hok : p.refused m = true ∨ (p.total c).2.1 + (item.tally c p.growth).2.1 ≤ 1) :
    Inv c base ((p.setItem slot (some item)).equipItem c m item slot false).2 := by
  have hslot : p.isItemAbilityEnabled slot = false := by
    refine Bool.eq_false_iff.2 fun hslot => ?_
    have hworn := h.worn slot hslot
    rw [hnone] at hworn
    cases hworn
  have hput := inv_setItem_of_not_enabled h hslot (some item)
  unfold Player.equipItem
  rw [if_neg (by rw [enabled_setItem, hslot]; exact Bool.false_ne_true)]
  by_cases hrefused : (p.setItem slot (some item)).refused m = true
  · rw [if_pos hrefused]
    exact hput
  · rw [if_neg hrefused, if_neg Bool.false_ne_true]
    have hone := hok.resolve_left hrefused
    have hheld : Held base ((p.setItem slot (some item)).setItemAbility slot true) (p.total c) :=
      h.held.same rfl rfl
    obtain ⟨hsame, hheld'⟩ := held_equip item hheld (light_total p) hone
    have henabled := enabled_setItemAbility_self (p.setItem slot (some item)) slot true
    have hitem : ((p.setItem slot (some item)).setItemAbility slot true).inventory slot =
        some item := inventory_setItem_self p slot (some item)
    refine ⟨?_, fun s hs => ?_⟩
    · have htotal : ((p.setItem slot (some item)).setItemAbility slot true).total c =
          p.total c + item.tally c p.growth := by
        rw [total_of_ne (p := p) slot fun s hs => by
          rw [worth_setItemAbility_of_ne hs, worth_setItem_of_ne hs], worth_of_not_enabled hslot,
          worth_of_enabled henabled hitem, sub_zero]
        rfl
      simp only
      rw [total_congr (worth_same hsame), htotal]
      exact hheld'
    · rw [hsame.inventory]
      by_cases hne : s = slot
      · subst hne
        rw [hitem]
        rfl
      · rw [hsame.isItemAbilityEnabled, enabled_setItemAbility_of_ne hne] at hs
        exact (congrArg Option.isSome (inventory_setItem_of_ne hne _)).trans (h.worn s hs)

theorem inv_deEquip (h : Inv c base p) {slot : Slots_t} (hitem : p.inventory slot = some item) :
    Inv c base ((p.deEquipItem c item slot).setItem slot none) := by
  unfold Player.deEquipItem
  by_cases hslot : p.isItemAbilityEnabled slot = true
  · rw [if_neg (by rw [hslot]; decide)]
    have hoff := enabled_setItemAbility_self p slot false
    have htotal : p.total c =
        (p.setItemAbility slot false).total c + item.tally c p.growth := by
      rw [total_of_ne (p := p) slot fun s hs => worth_setItemAbility_of_ne hs false,
        worth_of_not_enabled hoff, worth_of_enabled hslot hitem, add_zero, sub_add_cancel]
    have hheld : Held base (p.setItemAbility slot false)
        ((p.setItemAbility slot false).total c + item.tally c p.growth) := by
      rw [← htotal]
      exact h.held.same rfl rfl
    obtain ⟨hsame, hheld'⟩ := held_deEquip item hheld (light_total _)
    refine inv_setItem_of_not_enabled ⟨?_, fun s hs => ?_⟩ ?_ none
    · rw [total_congr (worth_same hsame)]
      exact hheld'
    · rw [hsame.isItemAbilityEnabled] at hs
      rw [hsame.inventory]
      by_cases hne : s = slot
      · subst hne
        exact absurd (hs.symm.trans hoff) (by decide)
      · rw [enabled_setItemAbility_of_ne hne] at hs
        exact h.worn s hs
    · rw [hsame.isItemAbilityEnabled, hoff]
  · rw [Bool.not_eq_true] at hslot
    rw [if_pos (by rw [hslot]; decide)]
    exact inv_setItem_of_not_enabled h hslot none

/-! ## Imbuements come and go -/

/-- An item but for one of its imbuements. -/
structure Changed (c : Config) (item item' : Item) (slotid : ℕ) : Prop where
  itemType : item'.itemType = item.itemType
  imbuementSlot : item'.imbuementSlot = item.imbuementSlot
  others : ∀ k, k ≠ slotid → item'.getImbuementInfo c k = item.getImbuementInfo c k

variable {slot : Slots_t} {slotid : ℕ}

theorem changed_self (item : Item) (slotid : ℕ) : Changed c item item slotid :=
  ⟨rfl, rfl, fun _ _ => rfl⟩

theorem changed_setImbuement (c : Config) (item : Item) (slotid imbuementId duration : ℕ) :
    Changed c item (item.setImbuement slotid imbuementId duration) slotid := by
  refine ⟨rfl, rfl, fun k hk => ?_⟩
  unfold Item.setImbuement Item.getImbuementInfo
  simp only [Function.update_of_ne hk]

theorem changed_addImbuement (c : Config) (item : Item) (slotid imbuementId duration : ℕ) :
    Changed c item (item.addImbuement c slotid imbuementId duration) slotid := by
  have hsame : Changed c item item slotid := changed_self item slotid
  unfold Item.addImbuement
  cases c.getImbuement imbuementId with
  | none => exact hsame
  | some imbuement =>
    simp only
    cases c.getCategoryByID imbuement.category with
    | none => exact hsame
    | some categoryImbuement =>
      simp only
      split
      · exact hsame
      · split
        · exact hsame
        · exact changed_setImbuement ..

theorem imbuementAt_clearImbuement (item : Item) (slotid imbuementId : ℕ) :
    (item.clearImbuement slotid imbuementId).imbuementAt c slotid = none := by
  unfold Item.clearImbuement Item.setImbuement Item.imbuementAt Item.getImbuementInfo
  simp only [Function.update_self, Nat.lt_irrefl, if_false]
  rfl

/-- What is packed in 32 bits is read again. -/
theorem unpack (duration imbuementId : ℕ) (hduration : duration < 2 ^ 24)
    (hid : imbuementId < 2 ^ 8) :
    (((duration <<< 8) % 2 ^ 32 ||| imbuementId) % 2 ^ 32 &&& 0xFF) = imbuementId ∧
      (((duration <<< 8) % 2 ^ 32 ||| imbuementId) % 2 ^ 32) >>> 8 = duration := by
  have hshift : (duration <<< 8) % 2 ^ 32 = duration <<< 8 := by
    rw [Nat.shiftLeft_eq]
    omega
  have hvalue : (duration <<< 8 ||| imbuementId) % 2 ^ 32 = duration * 2 ^ 8 + imbuementId := by
    rw [← Nat.shiftLeft_add_eq_or_of_lt hid, Nat.shiftLeft_eq]
    omega
  rw [hshift, hvalue, show 0xFF = 2 ^ 8 - 1 from rfl, Nat.and_two_pow_sub_one_eq_mod,
    Nat.shiftRight_eq_div_pow]
  omega

theorem id_of_getImbuement {id : ℕ} (h : c.getImbuement id = some imbuement) :
    imbuement.id = id := by
  unfold Config.getImbuement at h
  split at h
  · cases h
  · exact c.id_eq id imbuement h

/-- A shorter duration is found again. -/
theorem getImbuementInfo_decay {duration : ℕ}
    (h : item.getImbuementInfo c slotid = some (imbuement, duration)) (hlong : duration ≠ 1) :
    (item.decayImbuementTime slotid imbuement.id (duration - 1)).getImbuementInfo c slotid =
      some (imbuement, duration - 1) := by
  unfold Item.getImbuementInfo at h
  simp only at h
  generalize hinfo : item.customAttributes slotid % 2 ^ 32 = info at h
  have hlt : info < 2 ^ 32 := by
    rw [← hinfo]
    exact Nat.mod_lt _ (by decide)
  split at h
  · cases h
  · rename_i found hfound
    split at h
    · rename_i hne
      cases h
      have hid := id_of_getImbuement hfound
      have hbyte : info &&& 0xFF < 2 ^ 8 := by
        rw [show 0xFF = 2 ^ 8 - 1 from rfl, Nat.and_two_pow_sub_one_eq_mod]
        exact Nat.mod_lt _ (by decide)
      rw [Nat.shiftRight_eq_div_pow] at hne hlong ⊢
      have hpos : info / 2 ^ 8 - 1 > 0 := by omega
      obtain ⟨hback, hagain⟩ := unpack (info / 2 ^ 8 - 1) _ (by omega) hbyte
      unfold Item.decayImbuementTime Item.setImbuement Item.getImbuementInfo
      simp only [Function.update_self, if_pos hpos, hid, hback, hagain, hfound]
      rw [if_pos (by omega)]
    · cases h

theorem tallyAt_of_changed (h : Changed c item item' slotid) (g : Growth) :
    item'.tallyAt c g =
      Function.update (item.tallyAt c g) slotid (item'.tallyAt c g slotid) := by
  funext k
  by_cases hk : k = slotid
  · subst hk
    rw [Function.update_self]
  · rw [Function.update_of_ne hk]
    unfold Item.tallyAt Item.imbuementAt
    rw [h.others k hk]

theorem tally_of_changed (h : Changed c item item' slotid) (g : Growth) :
    item'.tally c g = item.tally c g + if slotid < item.imbuementSlot then
      item'.tallyAt c g slotid - item.tallyAt c g slotid else 0 := by
  unfold Item.tally
  rw [h.itemType, h.imbuementSlot, tallyAt_of_changed h]
  split
  · rename_i hlt
    rw [sum_map_update List.nodup_range (List.mem_range.2 hlt), Function.update_self]
    abel
  · rename_i hge
    rw [add_zero, List.nodup_range.map_update, if_neg (mt List.mem_range.1 hge)]

theorem total_setItem (hitem : p.inventory slot = some item) (h : Changed c item item' slotid) :
    (p.setItem slot (some item')).total c = p.total c +
      if p.isItemAbilityEnabled slot = true ∧ slotid < item.imbuementSlot then
        item'.tallyAt c p.growth slotid - item.tallyAt c p.growth slotid else 0 := by
  have hput := inventory_setItem_self p slot (some item')
  rw [total_of_ne (p := p) slot fun s hs => worth_setItem_of_ne hs _]
  by_cases hslot : p.isItemAbilityEnabled slot = true
  · have hslot' : (p.setItem slot (some item')).isItemAbilityEnabled slot = true := hslot
    rw [worth_of_enabled hslot hitem, worth_of_enabled hslot' hput]
    change _ - _ + item'.tally c p.growth = _
    rw [tally_of_changed h]
    simp only [hslot, true_and]
    abel
  · have hslot' : (p.setItem slot (some item')).isItemAbilityEnabled slot = false :=
      Bool.eq_false_iff.2 hslot
    rw [if_neg fun hand => hslot hand.1, worth_of_not_enabled (Bool.eq_false_iff.2 hslot),
      worth_of_not_enabled hslot', sub_zero]

theorem tally_of_idle (h : imbuement.Idle) (g : Growth) : imbuement.tally g = 0 := by
  unfold Imbuement.tally
  rw [h.1, if_neg (not_not.2 h.2)]
  rfl

theorem worn_setItem (h : Inv c base p) (item : Item) (s : Slots_t)
    (hs : p.isItemAbilityEnabled s = true) :
    ((p.setItem slot (some item)).inventory s).isSome := by
  by_cases hne : s = slot
  · subst hne
    rw [inventory_setItem_self]
    rfl
  · rw [inventory_setItem_of_ne hne]
    exact h.worn s hs

/-- An item is put, and what is held is what is worn with it. -/
theorem inv_put (h : Inv c base p) (hsame : Same p p')
    (hheld : Held base p' ((p.setItem slot (some item')).total c)) :
    Inv c base (p'.setItem slot (some item')) := by
  have hput : Same (p.setItem slot (some item')) (p'.setItem slot (some item')) := by
    refine ⟨hsame.growth, ?_, hsame.inventoryAbilities⟩
    rw [Player.setItem, Player.setItem, hsame.inventory]
  refine ⟨?_, fun s hs => ?_⟩
  · rw [total_congr (worth_same hput)]
    exact hheld.same rfl rfl
  · rw [hput.isItemAbilityEnabled] at hs
    rw [hput.inventory]
    exact worn_setItem h item' s hs

/-- An imbuement is added and stored. -/
theorem inv_imbue (h : Inv c base p) (hitem : p.inventory slot = some item)
    (hchanged : Changed c item item' slotid) (hnone : item.imbuementAt c slotid = none)
    (hcounted : p.Counted slot item slotid imbuement)
    (hstored : Player.Stored imbuement (item'.imbuementAt c slotid))
    (hone : imbuement.capacity ≠ 0 → (p.total c).2.1 = 0) :
    Inv c base ((p.addItemImbuementStats imbuement).setItem slot (some item')) := by
  have htally : item'.tallyAt c p.growth slotid - item.tallyAt c p.growth slotid =
      imbuement.tally p.growth := by
    unfold Item.tallyAt
    rw [hnone, Option.elim_none, sub_zero]
    rcases hstored with hfound | ⟨hidle, hfound⟩
    · rw [hfound, Option.elim_some]
    · rw [hfound, Option.elim_none, tally_of_idle hidle]
  have htotal : (p.setItem slot (some item')).total c =
      p.total c + imbuement.tally p.growth := by
    rw [total_setItem hitem hchanged]
    split
    · rw [htally]
    · rename_i hnot
      rw [tally_of_idle (hcounted.resolve_left hnot)]
  refine inv_put h same_add ?_
  rw [htotal]
  exact h.held.add (light_total p) hone

/-- An imbuement is taken back and removed. -/
theorem inv_unimbue (h : Inv c base p) (hitem : p.inventory slot = some item)
    (hchanged : Changed c item item' slotid) (hat : item.imbuementAt c slotid = some imbuement)
    (hnone : item'.imbuementAt c slotid = none)
    (hcounted : p.Counted slot item slotid imbuement) :
    Inv c base ((p.removeItemImbuementStats imbuement).setItem slot (some item')) := by
  have htotal : p.total c =
      (p.setItem slot (some item')).total c + imbuement.tally p.growth := by
    rw [total_setItem hitem hchanged]
    unfold Item.tallyAt
    rw [hat, hnone, Option.elim_none, Option.elim_some, zero_sub]
    split
    · rw [neg_add_cancel_right]
    · rename_i hnot
      rw [tally_of_idle (hcounted.resolve_left hnot), add_zero, add_zero]
  have hheld := h.held
  rw [htotal] at hheld
  exact inv_put h same_remove (hheld.remove (light_total _))

/-- An imbuement is still there. -/
theorem inv_keep (h : Inv c base p) (hitem : p.inventory slot = some item)
    (hchanged : Changed c item item' slotid)
    (hsame : item'.imbuementAt c slotid = item.imbuementAt c slotid) :
    Inv c base (p.setItem slot (some item')) := by
  refine inv_put h (same_refl p) ?_
  rw [total_setItem hitem hchanged, Item.tallyAt, Item.tallyAt, hsame, sub_self, ite_self, add_zero]
  exact h.held

theorem inv_apply (h : Inv c base p) (hitem : p.inventory slot = some item) {id : ℕ}
    (himbuement : c.getImbuement id = some imbuement) {a : Player.Attempt}
    (hok : p.Fits c (.apply (.slot slot) id slotid a)) :
    Inv c base ((p.onApplyImbuement c imbuement item true slotid a).1.setItem slot
      (some (p.onApplyImbuement c imbuement item true slotid a).2)) := by
  have hkeep : Inv c base (p.setItem slot (some item)) :=
    inv_keep h hitem (changed_self item slotid) rfl
  unfold Player.onApplyImbuement
  split
  · exact hkeep
  · rename_i hnone
    split
    · exact hkeep
    · rename_i hitems
      cases hbase : c.getBaseByID imbuement.baseId with
      | none => exact hkeep
      | some duration =>
        simp only
        split
        · exact hkeep
        · rename_i hmoney
          split
          · exact hkeep
          · rename_i hsucceeds
            have hnone : item.imbuementAt c slotid = none := by simpa using hnone
            have hgoes : (a.hasItems && a.hasMoney && a.succeeds) = true := by
              simpa [and_assoc] using And.intro hitems (And.intro hmoney hsucceeds)
            obtain ⟨hcounted, hstored, hone⟩ :=
              hok item imbuement duration hitem hnone himbuement hbase hgoes
            exact inv_imbue h hitem (changed_addImbuement ..) hnone hcounted hstored hone

theorem inv_clear (h : Inv c base p) (hitem : p.inventory slot = some item) {hasMoney : Bool}
    (hok : p.Fits c (.clear (.slot slot) slotid hasMoney)) :
    Inv c base ((p.onClearImbuement c item true slotid hasMoney).1.setItem slot
      (some (p.onClearImbuement c item true slotid hasMoney).2)) := by
  have hkeep : Inv c base (p.setItem slot (some item)) :=
    inv_keep h hitem (changed_self item slotid) rfl
  unfold Player.onClearImbuement
  cases hat : item.imbuementAt c slotid with
  | none => exact hkeep
  | some imbuement =>
    simp only
    split
    · exact hkeep
    · rename_i hbase
      split
      · exact hkeep
      · rename_i hmoney
        have hbase : (c.getBaseByID imbuement.baseId).isSome = true := by
          simpa [Option.isSome_iff_ne_none] using hbase
        have hcounted := hok item imbuement hitem hat hbase (by simpa using hmoney)
        exact inv_unimbue h hitem (changed_setImbuement ..) hat
          (imbuementAt_clearImbuement item slotid imbuement.id) hcounted

/-! ## Time -/

/-- If the imbuement of a slot runs out, it is one that is counted. -/
def RunsOut (c : Config) (f : Player.Fight) (p : Player) (slot : Slots_t) (slotid : ℕ) : Prop :=
  ∀ item imbuement, p.inventory slot = some item →
    item.getImbuementInfo c slotid = some (imbuement, 1) → Player.skips c f imbuement = false →
      p.Counted slot item slotid imbuement

/-- Other imbuements are as they were. -/
structure Decayed (c : Config) (p p' : Player) (slot : Slots_t) (slotid : ℕ) : Prop where
  inventoryAbilities : p'.inventoryAbilities = p.inventoryAbilities
  others : ∀ s, s ≠ slot → p'.inventory s = p.inventory s
  changed : ∀ item', p'.inventory slot = some item' →
    ∃ item, p.inventory slot = some item ∧ Changed c item item' slotid

variable {f : Player.Fight}

theorem decayed_self (p : Player) (slot : Slots_t) (slotid : ℕ) : Decayed c p p slot slotid :=
  ⟨rfl, fun _ _ => rfl, fun item' h => ⟨item', h, changed_self item' slotid⟩⟩

theorem decayed_setItem (hitem : p.inventory slot = some item)
    (h : Changed c item item' slotid) : Decayed c p (p.setItem slot (some item')) slot slotid := by
  refine ⟨rfl, fun s hs => inventory_setItem_of_ne hs _, fun found hfound => ⟨item, hitem, ?_⟩⟩
  obtain rfl := Option.some.inj ((inventory_setItem_self p slot _).symm.trans hfound)
  exact h

theorem pos_of_getImbuementInfo {duration : ℕ}
    (h : item.getImbuementInfo c slotid = some (imbuement, duration)) : 0 < duration := by
  unfold Item.getImbuementInfo at h
  simp only at h
  split at h
  · cases h
  · split at h
    · rename_i hne
      cases h
      exact Nat.pos_of_ne_zero hne
    · cases h

theorem removeItemImbuementStats_setItem (p : Player) (item : Option Item) :
    (p.setItem slot item).removeItemImbuementStats imbuement =
      (p.removeItemImbuementStats imbuement).setItem slot item := by
  unfold Player.removeItemImbuementStats
  simp only
  split <;> rfl

theorem inv_decayImbuement (h : Inv c base p) (hok : RunsOut c f p slot slotid) :
    Inv c base (p.decayImbuement c f slot slotid) ∧
      Decayed c p (p.decayImbuement c f slot slotid) slot slotid := by
  unfold Player.decayImbuement
  cases hitem : p.inventory slot with
  | none => exact ⟨h, decayed_self p slot slotid⟩
  | some item =>
    simp only
    cases hinfo : item.getImbuementInfo c slotid with
    | none => exact ⟨h, decayed_self p slot slotid⟩
    | some info =>
      obtain ⟨imbuement, duration⟩ := info
      simp only
      split
      · exact ⟨h, decayed_self p slot slotid⟩
      · rename_i hskips
        have hchanged := changed_setImbuement c item slotid imbuement.id (duration - 1)
        have hat : item.imbuementAt c slotid = some imbuement := by
          rw [Item.imbuementAt, hinfo]
          rfl
        split
        · rename_i hout
          -- It runs out.
          have hpos := pos_of_getImbuementInfo hinfo
          obtain rfl : duration = 1 := by omega
          have hcounted := hok item imbuement hitem hinfo (Bool.eq_false_iff.2 hskips)
          have hinv := inv_unimbue h hitem hchanged hat
            (imbuementAt_clearImbuement item slotid imbuement.id) hcounted
          rw [removeItemImbuementStats_setItem]
          refine ⟨hinv, ?_⟩
          have hsame : Same p (p.removeItemImbuementStats imbuement) := same_remove
          have hdecayed := decayed_setItem (p := p.removeItemImbuementStats imbuement)
            (by rw [hsame.inventory]; exact hitem) hchanged
          refine ⟨hdecayed.inventoryAbilities.trans hsame.inventoryAbilities, fun s hs => ?_,
            fun found hfound => ?_⟩
          · rw [← hsame.inventory]
            exact hdecayed.others s hs
          · rw [← hsame.inventory]
            exact hdecayed.changed found hfound
        · rename_i hlong
          have hagain := getImbuementInfo_decay hinfo (by omega)
          refine ⟨inv_keep h hitem hchanged ?_, decayed_setItem hitem hchanged⟩
          rw [hat, Item.imbuementAt]
          exact congrArg (Option.map Prod.fst) hagain

/-- The other imbuements of the item run out as before. -/
theorem Decayed.runsOut (h : Decayed c p p' slot slotid) {k : ℕ} (hk : k ≠ slotid)
    (hok : RunsOut c f p slot k) : RunsOut c f p' slot k := by
  intro item' imbuement hitem' hinfo hskips
  obtain ⟨item, hitem, hchanged⟩ := h.changed item' hitem'
  rw [hchanged.others k hk] at hinfo
  unfold Player.Counted Player.isItemAbilityEnabled
  rw [h.inventoryAbilities, hchanged.imbuementSlot]
  exact hok item imbuement hitem hinfo hskips

/-- The same abilities, and the same items but for one slot. -/
structure Beside (p p' : Player) (slot : Slots_t) : Prop where
  inventoryAbilities : p'.inventoryAbilities = p.inventoryAbilities
  inventory : ∀ s, s ≠ slot → p'.inventory s = p.inventory s

theorem inv_foldl_decay {l : List ℕ} (hl : l.Nodup) (h : Inv c base p)
    (hok : ∀ k ∈ l, RunsOut c f p slot k) :
    Inv c base (l.foldl (Player.decayImbuement c f slot) p) ∧
      Beside p (l.foldl (Player.decayImbuement c f slot) p) slot := by
  induction l generalizing p with
  | nil => exact ⟨h, rfl, fun _ _ => rfl⟩
  | cons slotid l ih =>
    rw [List.nodup_cons] at hl
    rw [List.forall_mem_cons] at hok
    obtain ⟨hinv, hdecayed⟩ := inv_decayImbuement h hok.1
    obtain ⟨hinv', hbeside⟩ := ih hl.2 hinv fun k hk =>
      hdecayed.runsOut (fun heq => hl.1 (heq ▸ hk)) (hok.2 k hk)
    exact ⟨hinv', hbeside.inventoryAbilities.trans hdecayed.inventoryAbilities,
      fun s hs => (hbeside.inventory s hs).trans (hdecayed.others s hs)⟩

/-- Those imbuements that an item has room for are counted if they run out. -/
def ItemRunsOut (c : Config) (f : Player.Fight) (p : Player) (slot : Slots_t) : Prop :=
  ∀ item, p.inventory slot = some item → ∀ k < item.imbuementSlot, RunsOut c f p slot k

theorem Beside.itemRunsOut (h : Beside p p' slot) {s : Slots_t} (hs : s ≠ slot)
    (hok : ItemRunsOut c f p s) : ItemRunsOut c f p' s := by
  intro item hitem k hk found imbuement hfound hinfo hskips
  rw [h.inventory s hs] at hitem hfound
  unfold Player.Counted Player.isItemAbilityEnabled
  rw [h.inventoryAbilities]
  exact hok item hitem k hk found imbuement hfound hinfo hskips

theorem inv_decayItem (h : Inv c base p) (hok : ItemRunsOut c f p slot) :
    Inv c base (p.decayItem c f slot) ∧ Beside p (p.decayItem c f slot) slot := by
  unfold Player.decayItem
  cases hitem : p.inventory slot with
  | none => exact ⟨h, rfl, fun _ _ => rfl⟩
  | some item =>
    exact inv_foldl_decay List.nodup_range h fun k hk => hok item hitem k (List.mem_range.1 hk)

theorem inv_update {order : List Slots_t} (horder : order.Nodup) (h : Inv c base p)
    (hok : ∀ s ∈ order, ItemRunsOut c f p s) :
    Inv c base (p.updateInventoryImbuement c f order) := by
  unfold Player.updateInventoryImbuement
  induction order generalizing p with
  | nil => exact h
  | cons slot order ih =>
    rw [List.nodup_cons] at horder
    rw [List.forall_mem_cons] at hok
    obtain ⟨hinv, hbeside⟩ := inv_decayItem h hok.1
    exact ih horder.2 hinv fun s hs =>
      hbeside.itemRunsOut (fun heq => horder.1 (heq ▸ hs)) (hok.2 s hs)

/-! ## Steps and runs -/

theorem inv_grow (h : Inv c base p) {g : Growth} (hok : p.Fits c (.grow g)) :
    Inv c base { p with growth := g } := by
  refine ⟨?_, h.worn⟩
  rw [total_congr (p := p) fun slot => ?_]
  · exact h.held.same rfl rfl
  · by_cases hslot : p.isItemAbilityEnabled slot = true
    · obtain ⟨item, hitem⟩ := Option.isSome_iff_exists.1 (h.worn slot hslot)
      obtain ⟨habilities, hcapacity⟩ := hok slot item hslot hitem
      rw [worth_of_enabled (p := { p with growth := g }) hslot hitem, worth_of_enabled hslot hitem]
      have htallyAt : item.tallyAt c g = item.tallyAt c p.growth := by
        funext slotid
        unfold Item.tallyAt
        cases hat : item.imbuementAt c slotid with
        | none => rfl
        | some imbuement =>
          rw [Option.elim_some, Option.elim_some, Imbuement.tally, Imbuement.tally,
            hcapacity slotid imbuement hat]
      change item.tally c g = item.tally c p.growth
      rw [Item.tally, Item.tally, htallyAt]
      cases hit : item.itemType.abilities with
      | none => rfl
      | some it => rw [Option.elim_some, Option.elim_some, habilities it hit]
    · rw [Bool.not_eq_true] at hslot
      rw [worth_of_not_enabled (p := { p with growth := g }) hslot, worth_of_not_enabled hslot]

/-- An item in a container gives nothing. -/
theorem onApplyImbuement_container (p : Player) (item : Item) (a : Player.Attempt) :
    (p.onApplyImbuement c imbuement item false slotid a).1 = p := by
  unfold Player.onApplyImbuement
  split
  · rfl
  · split
    · rfl
    · cases c.getBaseByID imbuement.baseId with
      | none => rfl
      | some duration =>
        simp only
        split
        · rfl
        · split <;> rfl

theorem onClearImbuement_container (p : Player) (item : Item) (hasMoney : Bool) :
    (p.onClearImbuement c item false slotid hasMoney).1 = p := by
  unfold Player.onClearImbuement
  cases item.imbuementAt c slotid with
  | none => rfl
  | some imbuement =>
    simp only
    split
    · rfl
    · split <;> rfl

theorem inv_next (h : Inv c base p) {e : Event} (hok : p.Fits c e) (hstep : p.next c e = some p') :
    Inv c base p' := by
  cases e with
  | equip slot item m =>
    simp only [Player.next] at hstep
    split at hstep
    · cases hstep
    · rename_i hempty
      cases hstep
      exact inv_equip h (by simpa using hempty) hok
  | deEquip slot =>
    obtain ⟨item, hitem, rfl⟩ := Option.map_eq_some_iff.1 hstep
    exact inv_deEquip h hitem
  | apply place imbuementId slotid a =>
    obtain ⟨imbuement, himbuement, hstep⟩ := Option.bind_eq_some_iff.1 hstep
    cases place with
    | container item =>
      cases hstep
      rw [onApplyImbuement_container]
      exact h
    | slot slot =>
      obtain ⟨item, hitem, rfl⟩ := Option.map_eq_some_iff.1 hstep
      exact inv_apply h hitem himbuement hok
  | clear place slotid hasMoney =>
    cases place with
    | container item =>
      cases hstep
      rw [onClearImbuement_container]
      exact h
    | slot slot =>
      obtain ⟨item, hitem, rfl⟩ := Option.map_eq_some_iff.1 hstep
      exact inv_clear h hitem hok
  | update f order =>
    simp only [Player.next] at hstep
    split at hstep
    · rename_i hperm
      cases hstep
      -- The order of the slots is any, and each of them is visited once.
      refine inv_update (hperm.nodup_iff.2 (List.nodup_finRange 11)) h fun s _ => ?_
      intro item hitem k hk found imbuement hfound hinfo hskips
      obtain rfl := Option.some.inj (hitem.symm.trans hfound)
      exact hok s item k imbuement hitem hk hinfo hskips
    · cases hstep
  | grow g =>
    cases hstep
    exact inv_grow h hok

/-- The runs of a player who starts as `p₀`. -/
def system (c : Config) (p₀ : Player) : System Player Event := .ofNext (· = p₀) (Player.next c)

theorem total_eq_zero (h : ∀ slot, p.isItemAbilityEnabled slot = false) : p.total c = 0 := by
  refine List.sum_eq_zero fun x hx => ?_
  obtain ⟨slot, -, rfl⟩ := List.mem_map.1 hx
  exact worth_of_not_enabled (h slot)

theorem inv_of_bare (h : p.Bare) : Inv c p.modifiers p := by
  refine ⟨?_, fun slot hslot => ?_⟩
  · rw [total_eq_zero fun slot => (h.1 slot).2]
    refine ⟨(add_zero _).symm, ?_, zero_le_one⟩
    rw [h.2]
    rfl
  · rw [(h.1 slot).2] at hslot
    cases hslot

/-- In every run whose steps all fit, what was added to the modifiers and the capacity is what the
enabled slots are worth, so nothing is left when nothing is worn. -/
theorem total_exact {c : Config} {p₀ p : Player} (h₀ : p₀.Bare)
    (hrun : (system c p₀).ReachableVia (fun p e => p.Fits c e) p) :
    p.Exact c p₀.modifiers ∧
      ((∀ slot, p.inventory slot = none) → p.modifiers = p₀.modifiers ∧ p.bonusCapacity = 0) := by
  have hinv : Inv c p₀.modifiers p := by
    refine hrun.invariant (I := Inv c p₀.modifiers) ?_ fun _ _ _ hinv hok hstep =>
      inv_next hinv hok hstep
    rintro p rfl
    exact inv_of_bare h₀
  refine ⟨⟨hinv.held.modifiers, hinv.held.capacity⟩, fun hnone => ?_⟩
  have htotal : p.total c = 0 := total_eq_zero fun slot => by
    refine Bool.eq_false_iff.2 fun hslot => ?_
    have hworn := hinv.worn slot hslot
    rw [hnone slot] at hworn
    cases hworn
  have hm := hinv.held.modifiers
  have hc := hinv.held.capacity
  rw [htotal] at hm hc
  exact ⟨hm.trans (add_zero _), Int.natCast_eq_zero.1 hc⟩

/-! ## A helmet with an imbuement slot -/

def slash : Imbuement where
  id := 1
  baseId := 1
  category := 0
  skills i := if i = 2 then 1 else 0
  stats _ := 0
  speed := 0
  capacity := 0

def config : Config where
  imbuementMap id := if id = 1 then some slash else none
  id_eq id imbuement h := by
    split at h
    · rename_i hid
      cases h
      exact hid.symm
    · cases h
  getBaseByID baseId := if baseId = 1 then some 72000 else none
  getCategoryByID category := if category = 0 then some ⟨0, true⟩ else none
  scale stat percent := (stat * (percent - 100)).tdiv 100

def helmet : Item where
  itemType := ⟨none, fun category => if category = 0 then some 3 else none⟩
  imbuementSlot := 1
  customAttributes _ := 0

def knight : Player where
  growth := ⟨8, 470, 185, 90, 0, 0, 0, false, 4, false⟩
  inventory _ := none
  inventoryAbilities _ := false
  varSkills _ := 0
  varStats _ := 0
  varSpeed := 0
  bonusCapacity := 0

/-- With the helmet on. -/
def armed : Player := (knight.next config (.equip 0 helmet ⟨0, 0, 0, false, []⟩)).getD knight

/-- The imbuement is applied to a slot of the helmet. -/
def imbued (slotid : ℕ) : Player :=
  (armed.next config (.apply (.slot 0) 1 slotid ⟨true, true, true⟩)).getD armed

/-- The helmet is taken off again. -/
def disarmed (slotid : ℕ) : Player := ((imbued slotid).next config (.deEquip 0)).getD armed

theorem bare_knight : knight.Bare := ⟨fun _ => ⟨rfl, rfl⟩, rfl⟩

theorem total_exact_imbued : (imbued 0).Exact config knight.modifiers := by
  have harmed : (system config knight).ReachableVia (fun p e => p.Fits config e) armed :=
    .step (.init rfl) (a := .equip 0 helmet ⟨0, 0, 0, false, []⟩) (.inr (by decide)) rfl
  refine (total_exact bare_knight
    (harmed.step (a := .apply (.slot 0) 1 0 ⟨true, true, true⟩) ?_ rfl)).1
  intro item imbuement duration hitem _ himbuement hbase _
  cases hitem
  cases himbuement
  cases hbase
  exact ⟨.inl ⟨rfl, by decide⟩, .inl rfl, fun hzero => absurd rfl hzero⟩

/-- In a slot that the helmet does not have, the imbuement is added but not taken back. -/
theorem bonus_left :
    (system config knight).Reachable (disarmed 5) ∧
      (∀ slot, (disarmed 5).inventory slot = none) ∧
      (disarmed 5).varSkills 2 = 1 ∧ ¬(disarmed 5).Exact config knight.modifiers := by
  have harmed : (system config knight).Reachable armed :=
    .step (.init rfl) (a := .equip 0 helmet ⟨0, 0, 0, false, []⟩) trivial rfl
  have himbued : (system config knight).Reachable (imbued 5) :=
    harmed.step (a := .apply (.slot 0) 1 5 ⟨true, true, true⟩) trivial rfl
  refine ⟨himbued.step (a := .deEquip 0) trivial rfl, by decide, rfl, fun hexact => ?_⟩
  exact absurd (congrFun (congrArg Prod.fst hexact.1) 2) (by decide)

end Canary.Players.Equipment
