import Canary.Conditions.Attributes
import Canary.Lib.Bytes
import Canary.Lib.FieldStream

/-!
# Stored conditions

The conditions of a player that persist are saved as bytes: each is a header, with which it is
created again, and fields, each a tag and its value, up to an end tag. Every class of conditions
has fields of its own, and fields that it does not know are those of the class `Condition`. Members
that are not saved have the values that the constructor gives them.

The skills, stats and buffs of `ConditionAttributes` are stored one field each, and read back
through a running index. Where the index is past the end of the array, the value is written
outside of it.

An `Outfit_t` and an `IntervalInfo` go to the stream as they lie in memory, a `float` as its bits.
The end time of a condition, which follows from its ticks and the clock, is left out.
-/

namespace Canary.Conditions

open Bytes (encode decode)
open FieldStream

/-! ## The values in the stream -/

/-- The value of bytes, the lowest first. -/
def value (w : ℕ) (l : List UInt8) : BitVec w := .ofNat w (decode l)

/-- The lowest `n` bytes of a value. -/
def bytes (n : ℕ) {w : ℕ} (v : BitVec w) : List UInt8 := encode n v.toNat

def boolByte (b : Bool) : List UInt8 := [if b then 1 else 0]

/-- The tags of the fields (`ConditionAttr_t`), without the end tag. -/
inductive ConditionAttr
  | type | id | ticks | healthTicks | healthGain | manaTicks | manaGain | delayed | owner
  | intervalData | speedDelta | formulaMinA | formulaMinB | formulaMaxA | formulaMaxB | lightColor
  | lightLevel | lightTicks | lightInterval | soulTicks | soulGain | skills | stats | buffs | outfit
  | periodDamage | isBuff | subId | manaShield | addSound | tickSound | absorbs | increases
  | charmChanceModifier
  deriving DecidableEq

namespace ConditionAttr

def all : List ConditionAttr :=
  [type, id, ticks, healthTicks, healthGain, manaTicks, manaGain, delayed, owner, intervalData,
    speedDelta, formulaMinA, formulaMinB, formulaMaxA, formulaMaxB, lightColor, lightLevel,
    lightTicks, lightInterval, soulTicks, soulGain, skills, stats, buffs, outfit, periodDamage,
    isBuff, subId, manaShield, addSound, tickSound, absorbs, increases, charmChanceModifier]

/-- The tags are counted from 1. -/
def toByte (attr : ConditionAttr) : UInt8 := .ofNat (all.idxOf attr + 1)

/-- The tag of a byte, if it is one. -/
def ofByte (b : UInt8) : Option ConditionAttr := all.find? fun attr => attr.toByte = b

end ConditionAttr

/-- `CONDITIONATTR_END` -/
def endTag : UInt8 := 254

/-! ## Conditions -/

/-- The members of `Condition`. -/
@[ext]
structure ConditionBase where
  conditionType : BitVec 8
  id : BitVec 8
  ticks : Value
  isBuff : Bool
  subId : Value
  tickSound : BitVec 16
  addSound : BitVec 16
  deriving DecidableEq

@[ext]
structure IntervalInfo where
  timeLeft : Value
  value : Value
  interval : Value
  deriving DecidableEq

structure Damage where
  maxDamage : Value := 0
  minDamage : Value := 0
  startDamage : Value := 0
  periodDamage : Value := 0
  periodDamageTick : Value := 0
  tickInterval : Value := 2000
  forceUpdate : Bool := false
  delayed : Bool := false
  field : Bool := false
  owner : Value := 0
  damageList : List IntervalInfo := []

structure Speed where
  speedDelta : Value := 0
  mina : Value := 0
  minb : Value := 0
  maxa : Value := 0
  maxb : Value := 0

structure Outfit where
  outfit : BitVec 144 := 0
  monsterName : String := ""

structure Light where
  color : BitVec 8 := 0
  level : BitVec 8 := 0
  internalLightTicks : Value := 0
  lightChangeInterval : Value := 0

structure Regeneration where
  internalHealthTicks : Value := 0
  internalManaTicks : Value := 0
  healthTicks : Value := 1000
  manaTicks : Value := 1000
  healthGain : Value := 0
  manaGain : Value := 0

structure Soul where
  internalSoulTicks : Value := 0
  soulTicks : Value := 0
  soulGain : Value := 0

structure ManaShield where
  manaShield : BitVec 16 := 0

structure Feared where
  /-- `fleeingFromPos`, by its coordinates. -/
  fleeingFromPos : BitVec 16 × BitVec 16 × BitVec 8 := (0, 0, 0)
  fleeIndx : BitVec 8 := 99

/-- The classes that conditions are created of. -/
inductive Kind
  | damage | speed | invisible | outfit | light | regeneration | soul | attributes | spellCooldown
  | spellGroupCooldown | manaShield | feared | generic
  deriving DecidableEq

namespace Kind

/-- The members of a class besides those of `Condition`. -/
def Data : Kind → Type
  | damage => Damage
  | speed => Speed
  | outfit => Outfit
  | light => Light
  | regeneration => Regeneration
  | soul => Soul
  | attributes => Attributes
  | manaShield => ManaShield
  | feared => Feared
  | invisible | spellCooldown | spellGroupCooldown | generic => Unit

/-- The values of the constructor. -/
def init : (kind : Kind) → kind.Data
  | damage => ({} : Damage)
  | speed => ({} : Speed)
  | outfit => ({} : Outfit)
  | light => ({} : Light)
  | regeneration => ({} : Regeneration)
  | soul => ({} : Soul)
  | attributes =>
    ({ skills := 0, stats := 0, buffs := 0, absorbs := 0, increases := 0, charmChanceModifier := 0,
       skillsPercent := 0, statsPercent := 0, buffsPercent := 0, absorbsPercent := 0,
       increasesPercent := 0, disableDefense := false } : Attributes)
  | manaShield => ({} : ManaShield)
  | feared => ({} : Feared)
  | invisible | spellCooldown | spellGroupCooldown | generic => ()

/-- The class of a type (`createCondition`). -/
def ofType : BitVec 8 → Option Kind
  | 1 | 2 | 3 | 16 | 21 | 22 | 23 | 4 => some damage
  | 5 | 6 => some speed
  | 8 => some invisible
  | 7 => some outfit
  | 9 => some light
  | 14 => some regeneration
  | 15 => some soul
  | 20 => some attributes
  | 27 => some spellCooldown
  | 28 => some spellGroupCooldown
  | 10 => some manaShield
  | 30 => some feared
  | 29 | 11 | 12 | 13 | 24 | 25 | 17 | 18 | 19 | 26 => some generic
  | _ => none

end Kind

structure Condition where
  kind : Kind
  base : ConditionBase
  data : kind.Data

namespace Condition

/-- `isPersistent`, where `CONDITIONID_DEFAULT` is -1 and `CONDITIONID_COMBAT` 0. -/
def isPersistent (c : Condition) : Bool :=
  c.base.ticks != -1 && (c.base.id == -1 || c.base.id == 0)

/-- The class of the condition is that of its type. -/
def Created (c : Condition) : Prop := Kind.ofType c.base.conditionType = some c.kind

end Condition

/-! ## Writing -/

/-- A field with one value. -/
def entry (attr : ConditionAttr) (part : List UInt8) : Entry := (attr.toByte, [part])

namespace ConditionBase

/-- `Condition::serialize`, as far as `createCondition` reads it. -/
def header (c : ConditionBase) : List Entry :=
  [entry .type (bytes 1 c.conditionType),
    entry .id (bytes 4 (c.id.signExtend 32)),
    entry .ticks (bytes 4 c.ticks),
    entry .isBuff (boolByte c.isBuff),
    entry .subId (bytes 4 c.subId)]

/-- The rest of `Condition::serialize`. -/
def sounds (c : ConditionBase) : List Entry :=
  [entry .tickSound (bytes 2 c.tickSound), entry .addSound (bytes 2 c.addSound)]

end ConditionBase

/-- The memory of an `IntervalInfo`. -/
def IntervalInfo.bytes (info : IntervalInfo) : List UInt8 :=
  encode 4 info.timeLeft.toNat ++ encode 4 info.value.toNat ++ encode 4 info.interval.toNat

def IntervalInfo.ofBytes (l : List UInt8) : IntervalInfo where
  timeLeft := .ofNat 32 (decode (l.take 4))
  value := .ofNat 32 (decode ((l.drop 4).take 4))
  interval := .ofNat 32 (decode (l.drop 8))

def Damage.entries (d : Damage) : List Entry :=
  entry .delayed (boolByte d.delayed) :: entry .periodDamage (bytes 4 d.periodDamage) ::
    d.damageList.map fun info => entry .intervalData info.bytes

def Speed.entries (d : Speed) : List Entry :=
  [entry .speedDelta (bytes 4 d.speedDelta), entry .formulaMinA (bytes 4 d.mina),
    entry .formulaMinB (bytes 4 d.minb), entry .formulaMaxA (bytes 4 d.maxa),
    entry .formulaMaxB (bytes 4 d.maxb)]

def Outfit.entries (d : Outfit) : List Entry := [entry .outfit (bytes 18 d.outfit)]

def Light.entries (d : Light) : List Entry :=
  [entry .lightColor (bytes 4 (d.color.setWidth 32)),
    entry .lightLevel (bytes 4 (d.level.setWidth 32)),
    entry .lightTicks (bytes 4 d.internalLightTicks),
    entry .lightInterval (bytes 4 d.lightChangeInterval)]

def Regeneration.entries (d : Regeneration) : List Entry :=
  [entry .healthTicks (bytes 4 d.healthTicks), entry .healthGain (bytes 4 d.healthGain),
    entry .manaTicks (bytes 4 d.manaTicks), entry .manaGain (bytes 4 d.manaGain)]

def Soul.entries (d : Soul) : List Entry :=
  [entry .soulGain (bytes 4 d.soulGain), entry .soulTicks (bytes 4 d.soulTicks)]

def ManaShield.entries (d : ManaShield) : List Entry := [entry .manaShield (bytes 2 d.manaShield)]

/-- `STAT_FIRST` to `STAT_LAST`. -/
def Stat.all : List Stat := [.maxHitPoints, .maxManaPoints, .soulPoints, .magicPoints, .capacity]

/-- One field for each value of an array. -/
def arrayEntries {ι : Type} (attr : ConditionAttr) (all : List ι) (a : ι → Value) : List Entry :=
  all.map fun i => entry attr (bytes 4 (a i))

/-- A field with the indices and the values of an array. -/
def indexedEntry (attr : ConditionAttr) (a : CombatIndex → Value) : Entry :=
  (attr.toByte, (List.finRange 14).flatMap fun (i : CombatIndex) =>
    [[UInt8.ofNat i.val], bytes 4 (a i)])

def Attributes.entries (d : Attributes) : List Entry :=
  arrayEntries .skills (List.finRange 13) d.skills ++ arrayEntries .stats Stat.all d.stats ++
    arrayEntries .buffs (List.finRange 3) d.buffs ++
    [indexedEntry .absorbs d.absorbs, indexedEntry .increases d.increases,
      entry .charmChanceModifier (bytes 1 d.charmChanceModifier)]

/-- What `serialize` of the class writes after `Condition::serialize`. -/
def Kind.entries : (kind : Kind) → kind.Data → List Entry
  | damage, d => Damage.entries d
  | speed, d => Speed.entries d
  | outfit, d => Outfit.entries d
  | light, d => Light.entries d
  | regeneration, d => Regeneration.entries d
  | soul, d => Soul.entries d
  | attributes, d => Attributes.entries d
  | manaShield, d => ManaShield.entries d
  | feared, _ | invisible, _ | spellCooldown, _ | spellGroupCooldown, _ | generic, _ => []

def Condition.serialize (c : Condition) : List UInt8 :=
  write (c.base.header ++ (c.base.sounds ++ c.kind.entries c.data))

/-- The conditions that persist, as `savePlayerFirst` writes them. -/
def savePlayerConditions (conditions : List Condition) : List UInt8 :=
  (conditions.filter Condition.isPersistent).flatMap fun c => c.serialize ++ [endTag]

/-! ## Reading -/

/-- A condition that is read. The indices are members of `ConditionAttributes`. -/
structure Reading (D : Type) where
  base : ConditionBase
  data : D
  currentSkill : ℕ := 0
  currentStat : ℕ := 0
  currentBuff : ℕ := 0

section Fields

variable {D : Type}

/-- A field with one value of `n` bytes. -/
def single (n : ℕ) (set : List UInt8 → Reading D → Reading D) : Handler (Reading D) where
  sizes := [n]
  apply parts c := some (set (parts.headD []) c)

def singleBase (n : ℕ) (set : List UInt8 → ConditionBase → ConditionBase) : Handler (Reading D) :=
  single n fun l c => { c with base := set l c.base }

def singleData (n : ℕ) (set : List UInt8 → D → D) : Handler (Reading D) :=
  single n fun l c => { c with data := set l c.data }

/-- `Condition::unserializeProp` -/
def ConditionBase.unserializeProp : ConditionAttr → Option (Handler (Reading D))
  | .type => some (singleBase 4 fun l c => { c with conditionType := value 8 l })
  | .id => some (singleBase 4 fun l c => { c with id := value 8 l })
  | .ticks => some (singleBase 4 fun l c => { c with ticks := value 32 l })
  | .isBuff => some (singleBase 1 fun l c => { c with isBuff := decode l ≠ 0 })
  | .subId => some (singleBase 4 fun l c => { c with subId := value 32 l })
  | .tickSound => some (singleBase 2 fun l c => { c with tickSound := value 16 l })
  | .addSound => some (singleBase 2 fun l c => { c with addSound := value 16 l })
  | _ => none

end Fields

/-- The ticks grow with every interval that is read, unless they are -1. -/
def Damage.unserializeProp : ConditionAttr → Option (Handler (Reading Damage))
  | .delayed => some (singleData 1 fun l d => { d with delayed := decode l ≠ 0 })
  | .periodDamage => some (singleData 4 fun l d => { d with periodDamage := value 32 l })
  | .owner => some (single 4 fun _ c => c)
  | .intervalData => some (single 12 fun l c =>
      let damageInfo := IntervalInfo.ofBytes l
      { c with
        base := { c.base with
          ticks := if c.base.ticks = -1 then c.base.ticks
            else c.base.ticks + damageInfo.interval }
        data := { c.data with damageList := c.data.damageList ++ [damageInfo] } })
  | attr => ConditionBase.unserializeProp attr

def Speed.unserializeProp : ConditionAttr → Option (Handler (Reading Speed))
  | .speedDelta => some (singleData 4 fun l d => { d with speedDelta := value 32 l })
  | .formulaMinA => some (singleData 4 fun l d => { d with mina := value 32 l })
  | .formulaMinB => some (singleData 4 fun l d => { d with minb := value 32 l })
  | .formulaMaxA => some (singleData 4 fun l d => { d with maxa := value 32 l })
  | .formulaMaxB => some (singleData 4 fun l d => { d with maxb := value 32 l })
  | attr => ConditionBase.unserializeProp attr

def Outfit.unserializeProp : ConditionAttr → Option (Handler (Reading Outfit))
  | .outfit => some (singleData 18 fun l d => { d with outfit := value 144 l })
  | attr => ConditionBase.unserializeProp attr

def Light.unserializeProp : ConditionAttr → Option (Handler (Reading Light))
  | .lightColor => some (singleData 4 fun l d => { d with color := value 8 l })
  | .lightLevel => some (singleData 4 fun l d => { d with level := value 8 l })
  | .lightTicks => some (singleData 4 fun l d => { d with internalLightTicks := value 32 l })
  | .lightInterval => some (singleData 4 fun l d => { d with lightChangeInterval := value 32 l })
  | attr => ConditionBase.unserializeProp attr

def Regeneration.unserializeProp : ConditionAttr → Option (Handler (Reading Regeneration))
  | .healthTicks => some (singleData 4 fun l d => { d with healthTicks := value 32 l })
  | .healthGain => some (singleData 4 fun l d => { d with healthGain := value 32 l })
  | .manaTicks => some (singleData 4 fun l d => { d with manaTicks := value 32 l })
  | .manaGain => some (singleData 4 fun l d => { d with manaGain := value 32 l })
  | attr => ConditionBase.unserializeProp attr

def Soul.unserializeProp : ConditionAttr → Option (Handler (Reading Soul))
  | .soulGain => some (singleData 4 fun l d => { d with soulGain := value 32 l })
  | .soulTicks => some (singleData 4 fun l d => { d with soulTicks := value 32 l })
  | attr => ConditionBase.unserializeProp attr

def ManaShield.unserializeProp : ConditionAttr → Option (Handler (Reading ManaShield))
  | .manaShield => some (singleData 2 fun l d => { d with manaShield := value 16 l })
  | attr => ConditionBase.unserializeProp attr

/-- Write the value at the running index of an array, whose places are `all`, if it is inside. -/
def put {ι : Type} [DecidableEq ι] (all : List ι) (a : ι → Value) (i : ℕ) (v : Value) :
    Option (ι → Value) :=
  all[i]?.map fun x => Function.update a x v

/-- A field with the next value of an array. -/
def running {D ι : Type} [DecidableEq ι] (all : List ι) (array : Reading D → ι → Value)
    (index : Reading D → ℕ) (store : (ι → Value) → ℕ → Reading D → Reading D) :
    Handler (Reading D) where
  sizes := [4]
  apply parts c := (put all (array c) (index c) (value 32 (parts.headD []))).map fun a =>
    store a (index c + 1) c

/-- `setAbsorb` and `setIncrease`, for an index and a value after the other: an index that is out
of range is logged. -/
def setIndexed (a : CombatIndex → Value) : List (List UInt8) → CombatIndex → Value
  | index :: v :: parts =>
    if h : decode index < 14 then
      setIndexed (Function.update a ⟨decode index, h⟩ (value 32 v)) parts
    else setIndexed a parts
  | _ => a

/-- The sizes of indices and values. -/
def indexedSizes : List ℕ := (List.replicate 14 [1, 4]).flatten

def Attributes.unserializeProp : ConditionAttr → Option (Handler (Reading Attributes))
  | .skills => some (running (List.finRange 13) (·.data.skills) (·.currentSkill) fun a i c =>
      { c with data := { c.data with skills := a }, currentSkill := i })
  | .stats => some (running Stat.all (·.data.stats) (·.currentStat) fun a i c =>
      { c with data := { c.data with stats := a }, currentStat := i })
  | .buffs => some (running (List.finRange 3) (·.data.buffs) (·.currentBuff) fun a i c =>
      { c with data := { c.data with buffs := a }, currentBuff := i })
  | .absorbs => some {
      sizes := indexedSizes
      apply := fun parts c => some
        { c with data := { c.data with absorbs := setIndexed c.data.absorbs parts } } }
  | .increases => some {
      sizes := indexedSizes
      apply := fun parts c => some
        { c with data := { c.data with increases := setIndexed c.data.increases parts } } }
  | .charmChanceModifier =>
    some (singleData 1 fun l d => { d with charmChanceModifier := value 8 l })
  | attr => ConditionBase.unserializeProp attr

namespace Kind

/-- `unserializeProp` of the class. -/
def unserializeProp : (kind : Kind) → ConditionAttr → Option (Handler (Reading kind.Data))
  | damage => Damage.unserializeProp
  | speed => Speed.unserializeProp
  | outfit => Outfit.unserializeProp
  | light => Light.unserializeProp
  | regeneration => Regeneration.unserializeProp
  | soul => Soul.unserializeProp
  | attributes => Attributes.unserializeProp
  | manaShield => ManaShield.unserializeProp
  | feared | invisible | spellCooldown | spellGroupCooldown | generic => ConditionBase.unserializeProp

/-- What a tag stands for. A byte that is no tag is refused. -/
def table (kind : Kind) (tag : UInt8) : Option (Handler (Reading kind.Data)) :=
  (ConditionAttr.ofByte tag).bind kind.unserializeProp

end Kind

/-- Take the tag and `n` bytes. -/
def takeField (attr : ConditionAttr) (n : ℕ) (s : List UInt8) :
    Option (List UInt8 × List UInt8) :=
  match s with
  | [] => none
  | tag :: s => if tag = attr.toByte then Bytes.take n s else none

/-- The header, in its order. A damage condition is created without ticks. -/
def createCondition (s : List UInt8) : Option (Condition × List UInt8) := do
  let (type, s) ← takeField .type 1 s
  let (id, s) ← takeField .id 4 s
  let (ticks, s) ← takeField .ticks 4 s
  let (buff, s) ← takeField .isBuff 1 s
  let (subId, s) ← takeField .subId 4 s
  let kind ← Kind.ofType (value 8 type)
  return ({
    kind := kind
    base := {
      conditionType := value 8 type
      id := value 8 id
      ticks := if kind = .damage then 0 else value 32 ticks
      isBuff := decode buff ≠ 0
      subId := value 32 subId
      tickSound := 0
      addSound := 0 }
    data := kind.init }, s)

/-- Read the fields of a condition that has been created. -/
def Condition.unserialize (c : Condition) (s : List UInt8) : Option (Outcome (Reading c.kind.Data)) :=
  read endTag c.kind.table s { base := c.base, data := c.data }

/-- What comes of loading: the list, or a write outside of an array. -/
inductive Loaded
  | outside
  | conditions (storedConditionList : List Condition)

/-- Load at most `n` conditions. What is refused is left out, and the next one is looked for behind
it. -/
def loadFrom : ℕ → List UInt8 → List Condition → Option Loaded
  | 0, s, list => if (createCondition s).isNone then some (.conditions list) else none
  | n + 1, s, list =>
    match createCondition s with
    | none => some (.conditions list)
    | some (c, s) =>
      match c.unserialize s with
      | none => none
      | some .outside => some .outside
      | some (.refused s) => loadFrom n s list
      | some (.done r s) => loadFrom n s (⟨c.kind, r.base, r.data⟩ :: list)

/-- The stream is as much fuel as it takes. -/
def loadPlayerConditions (s : List UInt8) : Option Loaded := loadFrom s.length s []

end Canary.Conditions
