import Canary.Lib.Transition
import Mathlib.Algebra.Order.Group.Int
import Mathlib.Logic.Function.Basic
import Mathlib.Data.Nat.Notation
import Mathlib.Algebra.Order.Ring.Int

/-!
# Prey slots

A player has three prey slots. Each offers a list of nine monsters, or for some prey cards all
those of the bestiary; the monster that is selected is hunted with a bonus for some time. Bonuses
are drawn again for prey cards, and lists for money.

* No two slots have the same monster, a slot has bonus time only with a monster, and what is done
  is paid for exactly, and nothing else is (`prey_slots`).
* A monster that is selected from the list of a slot is in it. What is selected from the list of
  all monsters is not looked up: any race is accepted that no slot has.
-/

namespace Canary.Players.Prey

open Transition

/-! ## Slots -/

inductive PreySlot_t
  | one
  | two
  | three
  deriving DecidableEq

namespace PreySlot_t

def ofByte (slot : UInt8) : Option PreySlot_t :=
  if slot = 0 then some .one
  else if slot = 1 then some .two
  else if slot = 2 then some .three
  else none

def all : List PreySlot_t := [.one, .two, .three]

end PreySlot_t

inductive PreyDataState
  | locked
  | inactive
  | active
  | selection
  | selectionChangeMonster
  | listSelection
  | wildcardSelection
  deriving DecidableEq

inductive PreyBonus
  | damage
  | defense
  | experience
  | loot
  | none
  deriving DecidableEq

/-- `uniform_random` for the number that is drawn -/
def uniformRandom (minNumber maxNumber draw : ℕ) : ℕ :=
  minNumber + draw % (maxNumber - minNumber + 1)

/-- `uniform_random(PreyBonus_First, PreyBonus_Last)` -/
def PreyBonus.random (draw : ℕ) : PreyBonus :=
  match uniformRandom 0 3 draw with
  | 0 => damage
  | 1 => defense
  | 2 => experience
  | _ => loot

inductive PreyAction
  | listReroll
  | bonusReroll
  | monsterSelection
  | listAllCards
  | listAllSelection
  | option
  deriving DecidableEq

def PreyAction.ofByte (action : UInt8) : Option PreyAction :=
  if action = 0 then some .listReroll
  else if action = 1 then some .bonusReroll
  else if action = 2 then some .monsterSelection
  else if action = 3 then some .listAllCards
  else if action = 4 then some .listAllSelection
  else if action = 5 then some .option
  else none

/-- An option is any byte that the client sends. -/
def optionNone : UInt8 := 0

def optionAutomaticReroll : UInt8 := 1

def optionLocked : UInt8 := 2

def uint16 (n : ℤ) : ℕ := (n % 2 ^ 16).toNat

structure MonsterType where
  experience : ℕ
  bestiaryStars : ℕ

/-- The configuration, and the monsters. -/
structure Config where
  preyEnabled : Bool
  freeThirdSlot : Bool
  freeRerollTime : ℤ
  bonusTime : ℤ
  bonusRerollPrice : ℤ
  selectionListPrice : ℤ
  rerollPriceLevel : ℤ
  /-- The races of the bestiary, in order. -/
  bestiary : List UInt16
  getMonsterTypeByRaceId : UInt16 → Option MonsterType

structure PreySlot where
  bonus : PreyBonus := .none
  state : PreyDataState := .locked
  option : UInt8 := optionNone
  raceIdList : List UInt16 := []
  bonusRarity : ℕ := 1
  selectedRaceId : UInt16 := 0
  bonusPercentage : ℕ := 0
  bonusTimeLeft : ℕ := 0
  freeRerollTimeStamp : ℤ := 0

/-- The numbers that are drawn. -/
structure Draws where
  types : List ℕ
  rarity : ℕ
  monsters : List ℕ

/-- The loop of `reloadMonsterGrid`. -/
structure Grid where
  raceIdList : List UInt16
  blackList : List UInt16
  stageOne : ℕ
  stageTwo : ℕ
  stageThree : ℕ
  stageFour : ℕ
  tries : UInt8

namespace Grid

def new (blackList : List UInt16) (level : ℕ) : Grid :=
  if level / 100 = 0 then ⟨[], blackList, 3, 3, 2, 1, 0⟩
  else if level / 100 ≤ 2 then ⟨[], blackList, 1, 3, 3, 2, 0⟩
  else if level / 100 ≤ 4 then ⟨[], blackList, 1, 2, 3, 3, 0⟩
  else ⟨[], blackList, 1, 1, 3, 4, 0⟩

variable (c : Config)

def add (g : Grid) (raceId : UInt16) : Grid := { g with raceIdList := g.raceIdList ++ [raceId] }

/-- One monster is drawn. -/
def draw (g : Grid) (n : ℕ) : Grid :=
  let raceId := c.bestiary.getD (uniformRandom 0 (c.bestiary.length - 1) n) 0
  let g := { g with tries := g.tries + 1 }
  if raceId ∈ g.blackList then g
  else
    let g := { g with blackList := g.blackList ++ [raceId] }
    match c.getMonsterTypeByRaceId raceId with
    | none => g
    | some mtype =>
      if mtype.experience = 0 then g
      else if g.stageOne ≠ 0 ∧ mtype.bestiaryStars ≤ 1 then
        { g.add raceId with stageOne := g.stageOne - 1 }
      else if g.stageTwo ≠ 0 ∧ mtype.bestiaryStars = 2 then
        { g.add raceId with stageTwo := g.stageTwo - 1 }
      else if g.stageThree ≠ 0 ∧ mtype.bestiaryStars = 3 then
        { g.add raceId with stageThree := g.stageThree - 1 }
      else if g.stageFour ≠ 0 ∧ mtype.bestiaryStars ≥ 4 then
        { g.add raceId with stageFour := g.stageFour - 1 }
      else if g.tries ≥ 10 then { g.add raceId with tries := 0 }
      else g

/-- Until there are nine, if the draws are enough. -/
def fill (g : Grid) : List ℕ → Option (List UInt16)
  | [] => if g.raceIdList.length < 9 then none else some g.raceIdList
  | n :: draws => if g.raceIdList.length < 9 then (g.draw c n).fill draws else some g.raceIdList

end Grid

namespace PreySlot

variable (slot : PreySlot)

def isOccupied : Bool := slot.selectedRaceId ≠ 0 && slot.bonusTimeLeft > 0

def canSelect : Bool :=
  slot.state = .selection || slot.state = .selectionChangeMonster ||
    slot.state = .listSelection || slot.state = .inactive

def eraseBonus (maintainBonus : Bool) : PreySlot :=
  let slot := if maintainBonus then slot
    else { slot with bonus := .none, bonusPercentage := 5, bonusRarity := 1 }
  { slot with state := .selection, option := optionNone, selectedRaceId := 0, bonusTimeLeft := 0 }

def removeMonsterType (raceId : UInt16) : PreySlot :=
  { slot with raceIdList := slot.raceIdList.filter (· ≠ raceId) }

/-- With the highest rarity it is drawn until it is another one. -/
def reloadBonusType (draws : List ℕ) : Option PreySlot :=
  let types := draws.map PreyBonus.random
  (if slot.bonusRarity = 10 then types.find? (· ≠ slot.bonus) else types.head?).map
    fun bonus => { slot with bonus := bonus }

def reloadBonusValue (draw : ℕ) : PreySlot :=
  let bonusRarity := if slot.bonusRarity ≥ 9 then 10
    else uniformRandom (slot.bonusRarity + 1) 10 draw
  { slot with
    bonusRarity := bonusRarity
    bonusPercentage :=
      if slot.bonus = .damage then 2 * bonusRarity + 5
      else if slot.bonus = .defense then 2 * bonusRarity + 10
      else 3 * bonusRarity + 10 }

/-- `reloadBonusType` and `reloadBonusValue` -/
def reloadBonus (draws : Draws) : Option PreySlot :=
  (slot.reloadBonusType draws.types).map fun slot => slot.reloadBonusValue draws.rarity

def reloadMonsterGrid (c : Config) (blackList : List UInt16) (level : ℕ) (draws : List ℕ) :
    Option PreySlot :=
  if !c.preyEnabled then some { slot with raceIdList := [] }
  else if c.bestiary.length < 36 then some { slot with raceIdList := [] }
  else ((Grid.new blackList level).fill c draws).map fun l => { slot with raceIdList := l }

/-- A list reroll, but for the list. -/
def reroll (c : Config) (now : ℤ) : PreySlot :=
  let slot := if slot.freeRerollTimeStamp ≤ now then
    { slot with freeRerollTimeStamp := now + c.freeRerollTime * 1000 } else slot
  let slot := slot.eraseBonus true
  if slot.bonus ≠ .none then { slot with state := .selectionChangeMonster } else slot

/-- The constructor of a slot. -/
def new (c : Config) (now : ℤ) (draws : Draws) : Option PreySlot :=
  let slot := ({} : PreySlot).eraseBonus false
  let slot := slot.reloadBonusValue draws.rarity
  (slot.reloadBonusType draws.types).map
    fun slot => { slot with freeRerollTimeStamp := now + c.freeRerollTime * 1000 }

end PreySlot

/-- `getPreyBlackList` -/
def blackList (slots : List PreySlot) : List UInt16 :=
  slots.flatMap fun slot =>
    (if slot.isOccupied then [slot.selectedRaceId] else []) ++ slot.raceIdList

/-! ## Players -/

structure Player where
  preys : PreySlot_t → PreySlot
  preyCards : ℕ
  /-- The worth of the coins that are carried. -/
  coins : ℕ
  bankBalance : ℕ
  level : ℕ
  hasClient : Bool

namespace Player

variable (c : Config) (p : Player)

/-- The slots of `initializePrey`, each with a list that has none of those before. -/
def initializeSlot (now : ℤ) (isPremium : Bool) (level : ℕ) (slots : List PreySlot)
    (id : PreySlot_t) (draws : Draws) : Option PreySlot := do
  let slot ← PreySlot.new c now draws
  if !c.preyEnabled then some { slot with state := .inactive }
  else if id = .three ∧ !c.freeThirdSlot then some { slot with state := .locked }
  else if id = .two ∧ !isPremium then some { slot with state := .locked }
  else
    let slot : PreySlot := { slot with state := .selection }
    slot.reloadMonsterGrid c (blackList slots) level draws.monsters

def initializePrey (now : ℤ) (isPremium : Bool) (draws : PreySlot_t → Draws) : Option Player := do
  let one ← initializeSlot c now isPremium p.level [] .one (draws .one)
  let two ← initializeSlot c now isPremium p.level [one] .two (draws .two)
  let three ← initializeSlot c now isPremium p.level [one, two] .three (draws .three)
  some { p with preys := fun
    | .one => one
    | .two => two
    | .three => three }

def getPreyBlackList : List UInt16 := blackList (PreySlot_t.all.map p.preys)

/-- Whether `getPreyWithMonster` finds a slot. -/
def getPreyWithMonster (raceId : UInt16) : Bool :=
  c.preyEnabled && PreySlot_t.all.any fun id => (p.preys id).selectedRaceId = raceId

def usePreyCards (amount : ℕ) : Option Player :=
  if p.preyCards < amount then none else some { p with preyCards := p.preyCards - amount }

def getPreyRerollPrice : ℕ := (p.level * c.rerollPriceLevel % 2 ^ 32).toNat

/-- `Game::removeMoney`: the coins first, with change, and what is left from the balance. Here the
    change always comes to the player, and the sum of coins and balance does not exceed 64 bits;
    what happens otherwise is with the bank and the rent of houses. -/
def removeMoney (money : ℕ) : Option Player :=
  if money = 0 then some p
  else if p.coins + p.bankBalance < money then none
  else if p.coins < money then
    some { p with coins := 0, bankBalance := p.bankBalance - (money - p.coins) }
  else some { p with coins := p.coins - money }

def setSlot (id : PreySlot_t) (slot : PreySlot) : Player :=
  { p with preys := Function.update p.preys id slot }

/-- `sendPreyData` removes the first race that is unknown from the list. -/
def reloadPreySlot (id : PreySlot_t) : Player :=
  if c.preyEnabled && p.hasClient then
    match (p.preys id).raceIdList.find? fun raceId => (c.getMonsterTypeByRaceId raceId).isNone with
    | some raceId => p.setSlot id ((p.preys id).removeMonsterType raceId)
    | none => p
  else p

/-! ## Actions -/

/-- The player after an action, and the dialog if it was refused. -/
abbrev Result := Player × Option String

def refuse (message : String) : Option Result := some (p, some message)

def textProcessingError : String :=
  "There was an error while processing your action. Please try reopening the prey window."

def done (id : PreySlot_t) : Result := (p.reloadPreySlot c id, none)

def listReroll (now : ℤ) (draws : Draws) (id : PreySlot_t) : Option Result :=
  let slot := p.preys id
  let paid := if slot.freeRerollTimeStamp > now then p.removeMoney (p.getPreyRerollPrice c)
    else some p
  match paid with
  | none => p.refuse "You don't have enought money to reroll the prey slot."
  | some p =>
    let slot := slot.reroll c now
    let p := p.setSlot id slot
    (slot.reloadMonsterGrid c p.getPreyBlackList p.level draws.monsters).map
      fun slot => (p.setSlot id slot).done c id

def listAllCards (id : PreySlot_t) : Option Result :=
  match p.usePreyCards (uint16 c.selectionListPrice) with
  | none => p.refuse "You don't have enought prey cards to choose a monsters on the list."
  | some p =>
    let slot := { p.preys id with bonusTimeLeft := 0, selectedRaceId := 0, state := .listSelection }
    some ((p.setSlot id slot).done c id)

/-- A monster is selected. -/
def select (draws : Draws) (id : PreySlot_t) (raceId : UInt16) : Option Result :=
  let slot := p.preys id
  let drawn := if slot.bonus = .none then slot.reloadBonus draws else some slot
  drawn.map fun slot =>
    let slot := { slot with state := .active, selectedRaceId := raceId }.removeMonsterType raceId
    (p.setSlot id { slot with bonusTimeLeft := uint16 c.bonusTime }).done c id

def listAllSelection (draws : Draws) (id : PreySlot_t) (raceId : UInt16) : Option Result :=
  let slot := p.preys id
  if slot.isOccupied then p.refuse "You already have an active monster on this prey slot."
  else if !slot.canSelect ∨ slot.state ≠ .listSelection then
    p.refuse textProcessingError
  else if p.getPreyWithMonster c raceId then
    p.refuse "This creature is already selected on another slot."
  else p.select c draws id raceId

def bonusReroll (draws : Draws) (id : PreySlot_t) : Option Result :=
  if !(p.preys id).isOccupied then
    p.refuse "You don't have any active monster on this prey slot."
  else match p.usePreyCards (uint16 c.bonusRerollPrice) with
  | none =>
    p.refuse "You don't have enought prey cards to reroll this prey slot bonus type."
  | some p =>
    ((p.preys id).reloadBonus draws).map fun slot =>
      (p.setSlot id { slot with bonusTimeLeft := uint16 c.bonusTime }).done c id

def monsterSelection (draws : Draws) (id : PreySlot_t) (index : Int8) : Option Result :=
  let slot := p.preys id
  if slot.isOccupied then p.refuse "You already have an active monster on this prey slot."
  -- `(index + 1) > slot->raceIdList.size()`: what is negative is taken for an unsigned number.
  else if !slot.canSelect ∨ index = -1 ∨ index.toInt + 1 < 0 ∨
      slot.raceIdList.length < index.toInt + 1 then
    p.refuse textProcessingError
  else
    let raceId := slot.raceIdList.getD index.toInt.toNat 0
    if p.getPreyWithMonster c raceId then
      p.refuse "This creature is already selected on another slot."
    else p.select c draws id raceId

def setOption (id : PreySlot_t) (option : UInt8) : Option Result :=
  if option = optionAutomaticReroll ∧ p.preyCards < c.bonusRerollPrice % 2 ^ 64 then
    p.refuse "You don't have enought prey cards to enable automatic reroll when your slot expire."
  else if option = optionLocked ∧ p.preyCards < c.selectionListPrice % 2 ^ 64 then
    p.refuse "You don't have enought prey cards to lock monster and bonus when the slot expire."
  else some ((p.setSlot id { p.preys id with option := option }).done c id)

/-- What the client sends for a prey slot. -/
structure Request where
  slot : UInt8
  action : UInt8
  option : UInt8
  index : Int8
  raceId : UInt16

/-- `IOPrey::parsePreyAction` -/
def parsePreyAction (now : ℤ) (draws : Draws) (r : Request) : Option Result :=
  match PreySlot_t.ofByte r.slot with
  | none => p.refuse "To unlock this prey slot first you must buy it on store."
  | some id =>
    if (p.preys id).state = .locked then
      p.refuse "To unlock this prey slot first you must buy it on store."
    else match PreyAction.ofByte r.action with
    | some .listReroll => p.listReroll c now draws id
    | some .listAllCards => p.listAllCards c id
    | some .listAllSelection => p.listAllSelection c draws id r.raceId
    | some .bonusReroll => p.bonusReroll c draws id
    | some .monsterSelection => p.monsterSelection c draws id r.index
    | some .option => p.setOption c id r.option
    | none => p.refuse "Unknown prey action"

/-! ## Time -/

def textTypeReset : String := "Your prey bonus type and time has been succesfully reseted."

def textTimeReset : String := "Your prey bonus time has been succesfully reseted."

/-- The bonus expires, and the slot is told. -/
def expire (id : PreySlot_t) (text : String) : Player × List String :=
  ((p.setSlot id ((p.preys id).eraseBonus false)).reloadPreySlot c id, [text])

/-- One slot of `checkPlayerPreys`, and what the player is told. -/
def checkPrey (amount : UInt8) (id : PreySlot_t) (draws : Draws) :
    Option (Player × List String) :=
  let slot := p.preys id
  if slot.isOccupied then
    if slot.bonusTimeLeft ≤ amount.toNat then
      if slot.option = optionAutomaticReroll then
        match p.usePreyCards (uint16 c.bonusRerollPrice) with
        | some p => (slot.reloadBonus draws).map fun slot =>
          ((p.setSlot id { slot with bonusTimeLeft := uint16 c.bonusTime }).reloadPreySlot c id,
            [textTypeReset])
        | none => some (p.expire c id
          "You don't have enought prey cards to enable automatic reroll when your slot expire.")
      else if slot.option = optionLocked then
        match p.usePreyCards (uint16 c.selectionListPrice) with
        | some p =>
          let slot := { slot with bonusTimeLeft := uint16 c.bonusTime }
          some ((p.setSlot id slot).reloadPreySlot c id, [textTimeReset])
        | none => some (p.expire c id
          "You don't have enought prey cards to lock monster and bonus when the slot expire.")
      else some (p.expire c id "Your prey bonus has expired.")
    else
      some (p.setSlot id { slot with bonusTimeLeft := slot.bonusTimeLeft - amount.toNat }, [])
  else some (p, [])

/-- `IOPrey::checkPlayerPreys` -/
def checkPlayerPreys (amount : UInt8) (draws : PreySlot_t → Draws) :
    Option (Player × List String) := do
  let (p, one) ← p.checkPrey c amount .one (draws .one)
  let (p, two) ← p.checkPrey c amount .two (draws .two)
  let (p, three) ← p.checkPrey c amount .three (draws .three)
  some (p, one ++ two ++ three)

end Player

/-! ## Runs -/

inductive Event
  | action (now : ℤ) (draws : Draws) (r : Player.Request)
  | kill (amount : UInt8) (draws : PreySlot_t → Draws)
  /-- Cards, money and the level also change otherwise. -/
  | earn (preyCards coins bankBalance level : ℕ)

namespace Player

variable (c : Config) (p : Player)

/-- Without prey, requests are dropped. -/
def next (p : Player) : Event → Option Player
  | .action now draws r =>
    if c.preyEnabled then (p.parsePreyAction c now draws r).map Prod.fst else none
  | .kill amount draws => (p.checkPlayerPreys c amount draws).map Prod.fst
  | .earn preyCards coins bankBalance level => some { p with
      preyCards := preyCards
      coins := coins
      bankBalance := bankBalance
      level := level }

/-! ## What is meant -/

/-- No two slots have the same monster. -/
def Unique : Prop :=
  ∀ i j, i ≠ j → (p.preys i).isOccupied → (p.preys j).isOccupied →
    (p.preys i).selectedRaceId ≠ (p.preys j).selectedRaceId

/-- Bonus time is left only where there is a monster. -/
def Timed : Prop := ∀ i, 0 < (p.preys i).bonusTimeLeft → (p.preys i).isOccupied

/-- The prey cards for an action. -/
def cardPrice : PreyAction → ℕ
  | .listAllCards => uint16 c.selectionListPrice
  | .bonusReroll => uint16 c.bonusRerollPrice
  | _ => 0

/-- The money for an action: the list is free from time to time. -/
def moneyPrice (now : ℤ) (id : PreySlot_t) : PreyAction → ℕ
  | .listReroll => if (p.preys id).freeRerollTimeStamp > now then p.getPreyRerollPrice c else 0
  | _ => 0

/-- An action that is refused changes nothing, and others are paid for. -/
def Charged (now : ℤ) (r : Request) : Result → Prop
  | (p', some _) => p' = p
  | (p', none) => ∃ id action, PreySlot_t.ofByte r.slot = some id ∧
      PreyAction.ofByte r.action = some action ∧
      p'.preyCards + cardPrice c action = p.preyCards ∧
      p'.coins + p'.bankBalance + p.moneyPrice c now id action = p.coins + p.bankBalance

/-- The prey cards for what the player is told. -/
def textPrice (text : String) : ℕ :=
  if text = textTypeReset then uint16 c.bonusRerollPrice
  else if text = textTimeReset then uint16 c.selectionListPrice
  else 0

/-- What is renewed is paid for, each once. -/
def Renewed (p' : Player) (texts : List String) : Prop :=
  p'.preyCards + (texts.map (textPrice c)).sum = p.preyCards ∧
    p'.coins + p'.bankBalance = p.coins + p.bankBalance

/-- A race that is selected was in the list that was offered for this. -/
def Offered (r : Request) (p' : Player) : Prop :=
  ∀ i, (p'.preys i).selectedRaceId ≠ (p.preys i).selectedRaceId →
    (p'.preys i).selectedRaceId ≠ 0 →
      PreyAction.ofByte r.action = some .monsterSelection ∧
        (p'.preys i).selectedRaceId ∈ (p.preys i).raceIdList ∨
      PreyAction.ofByte r.action = some .listAllSelection ∧
        (p'.preys i).selectedRaceId ∈ c.bestiary

/-- A race from the list of all is in the bestiary, if it is free. -/
def Listed (r : Request) : Prop :=
  PreyAction.ofByte r.action = some .listAllSelection →
    ∀ id, PreySlot_t.ofByte r.slot = some id → (p.preys id).state = .listSelection →
      (∀ j, (p.preys j).selectedRaceId ≠ r.raceId) → r.raceId ∈ c.bestiary

end Player

/-! ## Hunts

What is hunted, and for how long: a slot is released, or a monster is selected that no other slot
has, or the time of the same monster is set. -/

structure Hunt where
  state : PreyDataState
  selectedRaceId : UInt16
  bonusTimeLeft : ℕ

/-- How one of the hunts changes. -/
inductive Hunt.Changes (hunts : PreySlot_t → Hunt) (id : PreySlot_t) : Hunt → Prop
  | same : Changes hunts id (hunts id)
  | release {state : PreyDataState} : state ≠ .active → Changes hunts id ⟨state, 0, 0⟩
  | select {raceId : UInt16} {time : ℕ} : (hunts id).state ≠ .active →
      (∀ j, (hunts j).selectedRaceId ≠ raceId) → Changes hunts id ⟨.active, raceId, time⟩
  | keep {time : ℕ} : (hunts id).selectedRaceId ≠ 0 →
      Changes hunts id { hunts id with bonusTimeLeft := time }

/-- What holds of the hunts. -/
structure Hunt.Inv (hunts : PreySlot_t → Hunt) : Prop where
  selected : ∀ i, (hunts i).state ≠ .active → (hunts i).selectedRaceId = 0
  timed : ∀ i, (hunts i).selectedRaceId = 0 → (hunts i).bonusTimeLeft = 0
  unique : ∀ i j, i ≠ j → (hunts i).selectedRaceId ≠ 0 →
    (hunts i).selectedRaceId ≠ (hunts j).selectedRaceId

theorem Hunt.Inv.changes {hunts : PreySlot_t → Hunt} (h : Inv hunts) {id : PreySlot_t} {hunt : Hunt}
    (hchanges : Changes hunts id hunt) : Inv (Function.update hunts id hunt) := by
  have hone : (hunt.state ≠ .active → hunt.selectedRaceId = 0) ∧
      (hunt.selectedRaceId = 0 → hunt.bonusTimeLeft = 0) ∧
      ∀ j, j ≠ id → hunt.selectedRaceId ≠ 0 →
        hunt.selectedRaceId ≠ (hunts j).selectedRaceId := by
    cases hchanges with
    | same => exact ⟨h.selected id, h.timed id, fun j hj => h.unique id j hj.symm⟩
    | release hstate => exact ⟨fun _ => rfl, fun _ => rfl, fun _ _ hne => absurd rfl hne⟩
    | select hstate hfree =>
      refine ⟨fun hne => absurd rfl hne, fun hzero => ?_, fun j _ _ => (hfree j).symm⟩
      exact absurd ((h.selected id hstate).trans hzero.symm) (hfree id)
    | keep hselected =>
      exact ⟨h.selected id, fun hzero => absurd hzero hselected, fun j hj => h.unique id j hj.symm⟩
  refine ⟨fun i => ?_, fun i => ?_, fun i j hij hne => ?_⟩
  · rw [Function.update_apply]
    split
    · exact hone.1
    · exact h.selected i
  · rw [Function.update_apply]
    split
    · exact hone.2.1
    · exact h.timed i
  · by_cases hi : i = id
    · subst hi
      rw [Function.update_self] at hne ⊢
      rw [Function.update_of_ne hij.symm]
      exact hone.2.2 j hij.symm hne
    · rw [Function.update_of_ne hi] at hne ⊢
      by_cases hj : j = id
      · subst hj
        rw [Function.update_self]
        by_cases hzero : hunt.selectedRaceId = 0
        · rw [hzero]
          exact hne
        · exact (hone.2.2 i hi hzero).symm
      · rw [Function.update_of_ne hj]
        exact h.unique i j hij hne

def PreySlot.hunt (slot : PreySlot) : Hunt :=
  ⟨slot.state, slot.selectedRaceId, slot.bonusTimeLeft⟩

namespace Player

variable {c : Config} {p p' : Player} {id : PreySlot_t} {now : ℤ} {draws : Draws}

def hunts (p : Player) : PreySlot_t → Hunt := fun i => (p.preys i).hunt

theorem hunts_setSlot (slot : PreySlot) :
    (p.setSlot id slot).hunts = Function.update p.hunts id slot.hunt := by
  funext i
  unfold hunts setSlot
  by_cases hi : i = id
  · subst hi
    simp only [Function.update_self]
  · simp only [Function.update_of_ne hi]

/-- What is sent changes no more than the list of a slot. -/
theorem reloadPreySlot_eq (c : Config) (p : Player) (id : PreySlot_t) :
    ∃ slot : PreySlot, slot.hunt = (p.preys id).hunt ∧
      p.reloadPreySlot c id = p.setSlot id slot := by
  have hsame : p = p.setSlot id (p.preys id) := by
    unfold setSlot
    rw [Function.update_eq_self]
  unfold reloadPreySlot
  split
  · split
    · exact ⟨(p.preys id).removeMonsterType _, rfl, rfl⟩
    · exact ⟨_, rfl, hsame⟩
  · exact ⟨_, rfl, hsame⟩

/-- One slot has changed, and this was paid for. -/
structure Effect (p p' : Player) (id : PreySlot_t) (cards money : ℕ) (hunt : Hunt) : Prop where
  preyCards : p'.preyCards + cards = p.preyCards
  money : p'.coins + p'.bankBalance + money = p.coins + p.bankBalance
  hunts : p'.hunts = Function.update p.hunts id hunt

/-- A payment leaves the slots as they are. -/
structure Paid (p p' : Player) (cards money : ℕ) : Prop where
  preyCards : p'.preyCards + cards = p.preyCards
  money : p'.coins + p'.bankBalance + money = p.coins + p.bankBalance
  preys : p'.preys = p.preys

theorem paid_self : Paid p p 0 0 := ⟨rfl, rfl, rfl⟩

theorem paid_usePreyCards {amount : ℕ} (h : p.usePreyCards amount = some p') :
    Paid p p' amount 0 := by
  unfold usePreyCards at h
  split at h
  · cases h
  · rename_i hle
    cases h
    exact ⟨Nat.sub_add_cancel (Nat.not_lt.1 hle), rfl, rfl⟩

theorem paid_removeMoney {money : ℕ} (h : p.removeMoney money = some p') :
    Paid p p' 0 money := by
  unfold removeMoney at h
  split_ifs at h with hzero hless hcoins
  · cases h
    exact ⟨rfl, by rw [hzero, Nat.add_zero], rfl⟩
  · cases h
    exact ⟨rfl, by simp only; omega, rfl⟩
  · cases h
    exact ⟨rfl, by simp only; omega, rfl⟩

/-- A slot is set after a payment, and sent. -/
theorem Paid.effect {cards money : ℕ} (h : Paid p p' cards money) (c : Config) (id : PreySlot_t)
    (slot : PreySlot) :
    Effect p ((p'.setSlot id slot).reloadPreySlot c id) id cards money slot.hunt := by
  obtain ⟨sent, hsent, heq⟩ := reloadPreySlot_eq c (p'.setSlot id slot) id
  rw [heq]
  refine ⟨h.preyCards, h.money, ?_⟩
  have hslot : (p'.setSlot id slot).preys id = slot := Function.update_self ..
  rw [hunts_setSlot, hunts_setSlot, hsent, hslot, Function.update_idem]
  unfold hunts
  rw [h.preys]

/-- An action was refused, or it was paid for and the slot has a hunt as in `P`. -/
def Outcome (p : Player) (id : PreySlot_t) (cards money : ℕ) (P : Hunt → Prop) (res : Result) :
    Prop :=
  (∃ message, res = (p, some message)) ∨
    ∃ p' hunt, res = (p', none) ∧ Effect p p' id cards money hunt ∧ P hunt

variable {cards money : ℕ} {P : Hunt → Prop} {res : Result}

theorem outcome_refuse {message : String} (h : p.refuse message = some res) :
    Outcome p id cards money P res :=
  .inl ⟨message, (Option.some.inj h).symm⟩

theorem hunt_reloadMonsterGrid {slot slot' : PreySlot} {blackList : List UInt16} {level : ℕ}
    {l : List ℕ} (h : slot.reloadMonsterGrid c blackList level l = some slot') :
    slot'.hunt = slot.hunt := by
  unfold PreySlot.reloadMonsterGrid at h
  split_ifs at h
  · cases h
    rfl
  · cases h
    rfl
  · obtain ⟨raceIdList, -, rfl⟩ := Option.map_eq_some_iff.1 h
    rfl

theorem hunt_reloadBonus {slot slot' : PreySlot} (h : slot.reloadBonus draws = some slot') :
    slot'.hunt = slot.hunt := by
  obtain ⟨slot₁, hslot₁, rfl⟩ := Option.map_eq_some_iff.1 h
  obtain ⟨bonus, -, rfl⟩ := Option.map_eq_some_iff.1 hslot₁
  rfl

theorem hunt_reroll (slot : PreySlot) :
    (slot.reroll c now).state ≠ .active ∧
      (slot.reroll c now).hunt = ⟨(slot.reroll c now).state, 0, 0⟩ := by
  unfold PreySlot.reroll
  simp only
  split_ifs <;> exact ⟨(fun h => nomatch h), rfl⟩

theorem setSlot_setSlot (slot slot' : PreySlot) :
    (p.setSlot id slot).setSlot id slot' = p.setSlot id slot' := by
  unfold setSlot
  rw [Function.update_idem]

theorem outcome_listReroll (h : p.listReroll c now draws id = some res) :
    Outcome p id 0 (p.moneyPrice c now id .listReroll)
      (fun hunt => hunt.state ≠ .active ∧ hunt = ⟨hunt.state, 0, 0⟩) res := by
  unfold listReroll at h
  simp only at h
  split at h
  · exact outcome_refuse h
  · rename_i p₁ hpaid
    have hpaid : Paid p p₁ 0 (p.moneyPrice c now id .listReroll) := by
      unfold moneyPrice
      split_ifs at hpaid ⊢
      · exact paid_removeMoney hpaid
      · cases hpaid
        exact paid_self
    obtain ⟨slot, hslot, rfl⟩ := Option.map_eq_some_iff.1 h
    have heffect := hpaid.effect c id slot
    rw [hunt_reloadMonsterGrid hslot] at heffect
    refine .inr ⟨_, ((p.preys id).reroll c now).hunt, rfl, ?_, hunt_reroll _⟩
    rw [setSlot_setSlot]
    exact heffect

theorem outcome_listAllCards (h : p.listAllCards c id = some res) :
    Outcome p id (cardPrice c .listAllCards) 0 (· = ⟨.listSelection, 0, 0⟩) res := by
  unfold listAllCards at h
  split at h
  · exact outcome_refuse h
  · rename_i p₁ hpaid
    cases h
    exact .inr ⟨_, _, rfl, (paid_usePreyCards hpaid).effect c id _, rfl⟩

theorem outcome_bonusReroll (h : p.bonusReroll c draws id = some res) :
    Outcome p id (cardPrice c .bonusReroll) 0 (fun hunt => (p.preys id).selectedRaceId ≠ 0 ∧
      hunt = { (p.preys id).hunt with bonusTimeLeft := uint16 c.bonusTime }) res := by
  unfold bonusReroll at h
  split_ifs at h with hoccupied
  · exact outcome_refuse h
  · split at h
    · exact outcome_refuse h
    · rename_i p₁ hpaid
      have hpaid := paid_usePreyCards hpaid
      obtain ⟨slot, hslot, rfl⟩ := Option.map_eq_some_iff.1 h
      rw [hpaid.preys] at hslot
      have hhunt := hunt_reloadBonus hslot
      refine .inr ⟨_, _, rfl, hpaid.effect c id _, ?_, ?_⟩
      · unfold PreySlot.isOccupied at hoccupied
        simp only [Bool.not_eq_true, Bool.not_eq_false', Bool.and_eq_true,
          decide_eq_true_eq] at hoccupied
        exact hoccupied.1
      · rw [← hhunt]
        rfl

theorem outcome_select {raceId : UInt16} (h : p.select c draws id raceId = some res) :
    Outcome p id 0 0 (· = ⟨.active, raceId, uint16 c.bonusTime⟩) res := by
  obtain ⟨slot, hslot, rfl⟩ := Option.map_eq_some_iff.1 h
  exact .inr ⟨_, _, rfl, paid_self.effect c id _, rfl⟩

theorem Outcome.mono {P' : Hunt → Prop} (h : Outcome p id cards money P res)
    (hP : ∀ hunt, P hunt → P' hunt) : Outcome p id cards money P' res := by
  rcases h with hrefused | ⟨p', hunt, hres, heffect, hhunt⟩
  · exact .inl hrefused
  · exact .inr ⟨p', hunt, hres, heffect, hP hunt hhunt⟩

theorem free_of_getPreyWithMonster (henabled : c.preyEnabled = true) {raceId : UInt16}
    (h : ¬p.getPreyWithMonster c raceId = true) (j : PreySlot_t) :
    (p.preys j).selectedRaceId ≠ raceId := by
  intro heq
  refine h ?_
  unfold getPreyWithMonster
  rw [henabled, Bool.true_and, List.any_eq_true]
  exact ⟨j, by cases j <;> decide, decide_eq_true heq⟩

theorem state_ne_of_canSelect {slot : PreySlot} (h : slot.canSelect = true) :
    slot.state ≠ .active := by
  intro hactive
  unfold PreySlot.canSelect at h
  rw [hactive] at h
  exact absurd h (by decide)

theorem outcome_monsterSelection (henabled : c.preyEnabled = true) {index : Int8}
    (h : p.monsterSelection c draws id index = some res) :
    Outcome p id 0 0 (fun hunt => (p.preys id).state ≠ .active ∧
      (∀ j, (p.preys j).selectedRaceId ≠ hunt.selectedRaceId) ∧
      hunt.selectedRaceId ∈ (p.preys id).raceIdList ∧
      hunt = ⟨.active, hunt.selectedRaceId, hunt.bonusTimeLeft⟩) res := by
  unfold monsterSelection at h
  simp only at h
  split_ifs at h with hoccupied hrefused hselected
  · exact outcome_refuse h
  · exact outcome_refuse h
  · exact outcome_refuse h
  · simp only [not_or] at hrefused
    refine (outcome_select h).mono ?_
    rintro hunt rfl
    refine ⟨state_ne_of_canSelect (by simpa using hrefused.1),
      free_of_getPreyWithMonster henabled hselected, ?_, rfl⟩
    -- An index from 0 on, and within the list.
    have hindex : index.toInt.toNat < (p.preys id).raceIdList.length := by
      have hne : index.toInt ≠ -1 := fun heq => hrefused.2.1 (Int8.toInt_inj.1 heq)
      omega
    simp only [List.getD_eq_getElem?_getD, List.getElem?_eq_getElem hindex, Option.getD_some]
    exact List.getElem_mem hindex

theorem outcome_listAllSelection (henabled : c.preyEnabled = true) {raceId : UInt16}
    (h : p.listAllSelection c draws id raceId = some res) :
    Outcome p id 0 0 (fun hunt => (p.preys id).state = .listSelection ∧
      (∀ j, (p.preys j).selectedRaceId ≠ raceId) ∧
      hunt = ⟨.active, raceId, hunt.bonusTimeLeft⟩) res := by
  unfold listAllSelection at h
  simp only at h
  split_ifs at h with hoccupied hrefused hselected
  · exact outcome_refuse h
  · exact outcome_refuse h
  · exact outcome_refuse h
  · rw [not_or, not_not] at hrefused
    refine (outcome_select h).mono ?_
    rintro hunt rfl
    exact ⟨hrefused.2, free_of_getPreyWithMonster henabled hselected, rfl⟩

theorem outcome_setOption {option : UInt8} (h : p.setOption c id option = some res) :
    Outcome p id 0 0 (· = (p.preys id).hunt) res := by
  unfold setOption at h
  split_ifs at h
  · exact outcome_refuse h
  · exact outcome_refuse h
  · cases h
    exact .inr ⟨_, _, rfl, paid_self.effect c id _, rfl⟩

/-! ## Requests -/

/-- The race of a slot after an action that is not refused. -/
def Chosen (p : Player) (r : Request) (id : PreySlot_t) (hunt : Hunt) : PreyAction → Prop
  | .monsterSelection => hunt.selectedRaceId ∈ (p.preys id).raceIdList
  | .listAllSelection => hunt.selectedRaceId = r.raceId ∧ (p.preys id).state = .listSelection ∧
      ∀ j, (p.preys j).selectedRaceId ≠ r.raceId
  | _ => hunt.selectedRaceId = (p.preys id).selectedRaceId ∨ hunt.selectedRaceId = 0

/-- A request is refused, or one slot changes, for which is paid. -/
theorem outcome_parsePreyAction (henabled : c.preyEnabled = true) {r : Request}
    (h : p.parsePreyAction c now draws r = some res) :
    (∃ message, res = (p, some message)) ∨
      ∃ id action p' hunt, PreySlot_t.ofByte r.slot = some id ∧
        PreyAction.ofByte r.action = some action ∧ res = (p', none) ∧
        Effect p p' id (cardPrice c action) (p.moneyPrice c now id action) hunt ∧
        Hunt.Changes p.hunts id hunt ∧ p.Chosen r id hunt action := by
  unfold parsePreyAction at h
  split at h
  · exact .inl ⟨_, (Option.some.inj h).symm⟩
  · rename_i id hid
    split at h
    · exact .inl ⟨_, (Option.some.inj h).symm⟩
    · split at h
      case h_1 haction =>
        refine (outcome_listReroll h).imp_right ?_
        rintro ⟨p', hunt, hres, heffect, hstate, hhunt⟩
        refine ⟨id, _, p', hunt, hid, haction, hres, heffect, ?_, .inr ?_⟩
        · rw [hhunt]
          exact .release hstate
        · rw [hhunt]
      case h_2 haction =>
        refine (outcome_listAllCards h).imp_right ?_
        rintro ⟨p', hunt, hres, heffect, rfl⟩
        exact ⟨id, _, p', _, hid, haction, hres, heffect, .release (fun h => nomatch h), .inr rfl⟩
      case h_3 haction =>
        refine (outcome_listAllSelection henabled h).imp_right ?_
        rintro ⟨p', hunt, hres, heffect, hstate, hfree, hhunt⟩
        refine ⟨id, _, p', hunt, hid, haction, hres, heffect, ?_, ?_, hstate, hfree⟩
        · rw [hhunt]
          refine .select (fun hactive => ?_) hfree
          exact absurd (hactive.symm.trans hstate) (by decide)
        · rw [hhunt]
      case h_4 haction =>
        refine (outcome_bonusReroll h).imp_right ?_
        rintro ⟨p', hunt, hres, heffect, hselected, rfl⟩
        exact ⟨id, _, p', _, hid, haction, hres, heffect, .keep hselected, .inl rfl⟩
      case h_5 haction =>
        refine (outcome_monsterSelection henabled h).imp_right ?_
        rintro ⟨p', hunt, hres, heffect, hstate, hfree, hmem, hhunt⟩
        refine ⟨id, _, p', hunt, hid, haction, hres, heffect, ?_, hmem⟩
        rw [hhunt]
        exact .select hstate hfree
      case h_6 haction =>
        refine (outcome_setOption h).imp_right ?_
        rintro ⟨p', hunt, hres, heffect, rfl⟩
        exact ⟨id, _, p', _, hid, haction, hres, heffect, .same, .inl rfl⟩
      case h_7 => exact .inl ⟨_, (Option.some.inj h).symm⟩

theorem selectedRaceId_of_hunts {hunt : Hunt} (h : p'.hunts = Function.update p.hunts id hunt)
    (i : PreySlot_t) : (p'.preys i).selectedRaceId =
      if i = id then hunt.selectedRaceId else (p.preys i).selectedRaceId := by
  have hi := congrArg Hunt.selectedRaceId (congrFun h i)
  rw [Function.update_apply] at hi
  refine hi.trans ?_
  split <;> rfl

theorem charged_parsePreyAction (henabled : c.preyEnabled = true) {r : Request}
    (h : p.parsePreyAction c now draws r = some res) : p.Charged c now r res := by
  rcases outcome_parsePreyAction henabled h with
    ⟨message, rfl⟩ | ⟨id, action, p', hunt, hid, haction, rfl, heffect, -, -⟩
  · rfl
  · exact ⟨id, action, hid, haction, heffect.preyCards, heffect.money⟩

/-- In a slot where the list of all is chosen from, a race that is free is not refused. -/
theorem parsePreyAction_eq_select (hinv : Hunt.Inv p.hunts) {r : Request}
    (haction : PreyAction.ofByte r.action = some .listAllSelection)
    (hid : PreySlot_t.ofByte r.slot = some id) (hstate : (p.preys id).state = .listSelection)
    (hfree : ∀ j, (p.preys j).selectedRaceId ≠ r.raceId) :
    p.parsePreyAction c now draws r = p.select c draws id r.raceId := by
  have hnull : (p.preys id).selectedRaceId = 0 :=
    hinv.selected id fun hactive => absurd (hactive.symm.trans hstate) (by decide)
  have hoccupied : (p.preys id).isOccupied = false := by
    unfold PreySlot.isOccupied
    rw [hnull]
    rfl
  have hselected : p.getPreyWithMonster c r.raceId = false := by
    unfold getPreyWithMonster
    rw [List.any_eq_false.2 fun j _ => by simpa using hfree j, Bool.and_false]
  unfold parsePreyAction listAllSelection
  rw [hid, haction]
  simp [PreySlot.canSelect, hstate, hoccupied, hselected]

/-- A race that is selected was offered, unless it is one that is not in the list of all. -/
theorem offered_iff (henabled : c.preyEnabled = true) (hinv : Hunt.Inv p.hunts) {r : Request}
    {text : Option String} (h : p.parsePreyAction c now draws r = some (p', text)) :
    p.Offered c r p' ↔ p.Listed c r := by
  rcases outcome_parsePreyAction henabled h with
    ⟨message, heq⟩ | ⟨id, action, p₁, hunt, hid, haction, heq, heffect, -, hchosen⟩
  · cases heq
    constructor
    · rintro - hall id hid hstate hfree
      rw [parsePreyAction_eq_select hinv hall hid hstate hfree] at h
      obtain ⟨slot, -, hslot⟩ := Option.map_eq_some_iff.1 h
      exact nomatch (congrArg Prod.snd hslot : (none : Option String) = some message)
    · rintro - i hne
      exact absurd rfl hne
  · cases heq
    constructor
    · rintro hoffered hall id' hid' hstate hfree
      obtain rfl := Option.some.inj (hid'.symm.trans hid)
      obtain rfl := Option.some.inj (haction.symm.trans hall)
      have hrace := (selectedRaceId_of_hunts heffect.hunts id').trans (if_pos rfl)
      rw [hchosen.1] at hrace
      have hnull : (p.preys id').selectedRaceId = 0 :=
        hinv.selected id' fun hactive => absurd (hactive.symm.trans hstate) (by decide)
      have hmem := hoffered id' (by rw [hrace]; exact (hfree id').symm)
        (by rw [hrace, ← hnull]; exact (hfree id').symm)
      rw [hrace, haction] at hmem
      exact (hmem.resolve_left fun hlist => nomatch hlist.1).2
    · intro hlisted i hne hzero
      rw [selectedRaceId_of_hunts heffect.hunts] at hne hzero ⊢
      by_cases hi : i = id
      · subst hi
        rw [if_pos rfl] at hne hzero ⊢
        cases action with
        | monsterSelection => exact .inl ⟨haction, hchosen⟩
        | listAllSelection =>
          refine .inr ⟨haction, ?_⟩
          rw [hchosen.1]
          exact hlisted haction i hid hchosen.2.1 hchosen.2.2
        | _ => exact (hchosen.elim hne hzero).elim
      · exact absurd (if_neg hi) hne

/-! ## Time -/

theorem selectedRaceId_ne_of_isOccupied {slot : PreySlot} (h : slot.isOccupied = true) :
    slot.selectedRaceId ≠ 0 := by
  unfold PreySlot.isOccupied at h
  rw [Bool.and_eq_true, decide_eq_true_eq] at h
  exact h.1

/-- One slot of `checkPlayerPreys` is renewed, released or kept. -/
theorem effect_checkPrey {amount : UInt8} {texts : List String}
    (h : p.checkPrey c amount id draws = some (p', texts)) :
    ∃ hunt, Effect p p' id (texts.map (textPrice c)).sum 0 hunt ∧
      Hunt.Changes p.hunts id hunt := by
  have hexpire : ∀ text, textPrice c text = 0 → p.expire c id text = (p', texts) →
      ∃ hunt, Effect p p' id (texts.map (textPrice c)).sum 0 hunt ∧
        Hunt.Changes p.hunts id hunt := by
    intro text htext heq
    cases heq
    refine ⟨⟨.selection, 0, 0⟩, ?_, .release fun h => nomatch h⟩
    rw [List.map_singleton, List.sum_singleton, htext]
    exact paid_self.effect c id _
  unfold checkPrey at h
  simp only at h
  split_ifs at h with hoccupied htime hreroll hlocked
  · have hselected := selectedRaceId_ne_of_isOccupied hoccupied
    split at h
    · rename_i p₁ hpaid
      obtain ⟨slot, hslot, heq⟩ := Option.map_eq_some_iff.1 h
      cases heq
      have heffect := (paid_usePreyCards hpaid).effect c id
        { slot with bonusTimeLeft := uint16 c.bonusTime }
      refine ⟨_, heffect, ?_⟩
      have hkeep : Hunt.Changes p.hunts id
          { p.hunts id with bonusTimeLeft := uint16 c.bonusTime } := .keep hselected
      rwa [show p.hunts id = slot.hunt from (hunt_reloadBonus hslot).symm] at hkeep
    · exact hexpire _ rfl (Option.some.inj h)
  · have hselected := selectedRaceId_ne_of_isOccupied hoccupied
    split at h
    · rename_i p₁ hpaid
      cases h
      exact ⟨_, (paid_usePreyCards hpaid).effect c id _, .keep hselected⟩
    · exact hexpire _ rfl (Option.some.inj h)
  · exact hexpire _ rfl (Option.some.inj h)
  · cases h
    exact ⟨_, ⟨rfl, rfl, hunts_setSlot _⟩, .keep (selectedRaceId_ne_of_isOccupied hoccupied)⟩
  · cases h
    exact ⟨_, ⟨rfl, rfl, (Function.update_eq_self id p.hunts).symm⟩, .same⟩

theorem renewed_checkPlayerPreys {amount : UInt8} {drawn : PreySlot_t → Draws}
    {texts : List String} (h : p.checkPlayerPreys c amount drawn = some (p', texts)) :
    p.Renewed c p' texts ∧ (Hunt.Inv p.hunts → Hunt.Inv p'.hunts) := by
  obtain ⟨⟨p₁, one⟩, hone, h⟩ := Option.bind_eq_some_iff.1 h
  obtain ⟨⟨p₂, two⟩, htwo, h⟩ := Option.bind_eq_some_iff.1 h
  obtain ⟨⟨p₃, three⟩, hthree, h⟩ := Option.bind_eq_some_iff.1 h
  cases h
  obtain ⟨hunt₁, he₁, hc₁⟩ := effect_checkPrey hone
  obtain ⟨hunt₂, he₂, hc₂⟩ := effect_checkPrey htwo
  obtain ⟨hunt₃, he₃, hc₃⟩ := effect_checkPrey hthree
  have hcards₁ := he₁.preyCards
  have hcards₂ := he₂.preyCards
  have hcards₃ := he₃.preyCards
  have hmoney₁ := he₁.money
  have hmoney₂ := he₂.money
  have hmoney₃ := he₃.money
  refine ⟨⟨?_, by omega⟩, fun hinv => ?_⟩
  · rw [List.map_append, List.map_append, List.sum_append, List.sum_append]
    omega
  · rw [he₃.hunts]
    refine Hunt.Inv.changes ?_ hc₃
    rw [he₂.hunts]
    refine Hunt.Inv.changes ?_ hc₂
    rw [he₁.hunts]
    exact hinv.changes hc₁

theorem inv_next {e : Event} (hinv : Hunt.Inv p.hunts) (h : p.next c e = some p') :
    Hunt.Inv p'.hunts := by
  cases e with
  | action now draws r =>
    simp only [next] at h
    split_ifs at h with henabled
    obtain ⟨res, hres, rfl⟩ := Option.map_eq_some_iff.1 h
    rcases outcome_parsePreyAction henabled hres with
      ⟨message, rfl⟩ | ⟨id, action, p', hunt, -, -, rfl, heffect, hchanges, -⟩
    · exact hinv
    · rw [heffect.hunts]
      exact hinv.changes hchanges
  | kill amount draws =>
    obtain ⟨res, hres, rfl⟩ := Option.map_eq_some_iff.1 h
    exact (renewed_checkPlayerPreys hres).2 hinv
  | earn preyCards coins bankBalance level =>
    cases h
    exact hinv

theorem hunt_initializeSlot {isPremium : Bool} {level : ℕ} {slots : List PreySlot}
    {slot : PreySlot} (h : initializeSlot c now isPremium level slots id draws = some slot) :
    ∃ state, slot.hunt = ⟨state, 0, 0⟩ := by
  obtain ⟨slot₀, hnew, h⟩ := Option.bind_eq_some_iff.1 h
  obtain ⟨slot₁, hslot₁, rfl⟩ := Option.map_eq_some_iff.1 hnew
  obtain ⟨bonus, -, rfl⟩ := Option.map_eq_some_iff.1 hslot₁
  split_ifs at h
  · cases h
    exact ⟨_, rfl⟩
  · cases h
    exact ⟨_, rfl⟩
  · cases h
    exact ⟨_, rfl⟩
  · rw [hunt_reloadMonsterGrid h]
    exact ⟨_, rfl⟩

theorem inv_initializePrey {isPremium : Bool} {drawn : PreySlot_t → Draws}
    (h : p.initializePrey c now isPremium drawn = some p') : Hunt.Inv p'.hunts := by
  obtain ⟨one, hone, h⟩ := Option.bind_eq_some_iff.1 h
  obtain ⟨two, htwo, h⟩ := Option.bind_eq_some_iff.1 h
  obtain ⟨three, hthree, h⟩ := Option.bind_eq_some_iff.1 h
  cases h
  have hhunts : ∀ i, ∃ state, (Player.hunts { p with preys := fun
    | .one => one
    | .two => two
    | .three => three } i) = ⟨state, 0, 0⟩ := by
    intro i
    cases i with
    | one => exact hunt_initializeSlot hone
    | two => exact hunt_initializeSlot htwo
    | three => exact hunt_initializeSlot hthree
  refine ⟨fun i _ => ?_, fun i _ => ?_, fun i j _ hne => ?_⟩
  · obtain ⟨state, heq⟩ := hhunts i
    rw [heq]
  · obtain ⟨state, heq⟩ := hhunts i
    rw [heq]
  · obtain ⟨state, heq⟩ := hhunts i
    rw [heq] at hne
    exact absurd rfl hne

theorem unique_of_inv (hinv : Hunt.Inv p.hunts) : p.Unique := fun i j hij hi _ =>
  hinv.unique i j hij (selectedRaceId_ne_of_isOccupied hi)

theorem timed_of_inv (hinv : Hunt.Inv p.hunts) : p.Timed := by
  intro i htime
  have hselected : (p.preys i).selectedRaceId ≠ 0 := fun hzero =>
    absurd (hinv.timed i hzero) (Nat.ne_of_gt htime)
  unfold PreySlot.isOccupied
  rw [decide_eq_true hselected, decide_eq_true htime, Bool.true_and]

end Player

/-- A player whose slots are new. -/
def system (c : Config) : System Player Event :=
  .ofNext (fun p => ∃ p₀ now isPremium draws,
    Player.initializePrey c p₀ now isPremium draws = some p) (Player.next c)

def oneRace : Config where
  preyEnabled := true
  freeThirdSlot := false
  freeRerollTime := 72000
  bonusTime := 7200
  bonusRerollPrice := 1
  selectionListPrice := 5
  rerollPriceLevel := 200
  bestiary := [7]
  getMonsterTypeByRaceId _ := none

def drawn : Draws := ⟨[0], 0, []⟩

def novice : Player := ⟨fun _ => {}, 5, 0, 0, 8, false⟩

/-- With new slots. -/
def fresh : Player := (novice.initializePrey oneRace 0 false fun _ => drawn).getD novice

/-- The first slot shows the list of all. -/
def chooser : Player := (fresh.next oneRace (.action 0 drawn ⟨0, 3, 0, -1, 0⟩)).getD fresh

/-- A race is selected. -/
def hunter (raceId : UInt16) : Player :=
  (chooser.next oneRace (.action 0 drawn ⟨0, 4, 0, -1, raceId⟩)).getD chooser

theorem reachable_chooser : (system oneRace).Reachable chooser :=
  .step (.init (s := fresh) ⟨novice, 0, false, fun _ => drawn, rfl⟩) trivial
    (a := .action 0 drawn ⟨0, 3, 0, -1, 0⟩) rfl

end Canary.Players.Prey
