import Canary.Conditions.Stored
import Mathlib.Algebra.Order.BigOperators.Group.List
import Mathlib.Algebra.Order.Group.Nat
import Mathlib.Algebra.Order.Ring.Nat

/-!
# Damage over time

A `ConditionDamage` has a list of intervals with damage. Every second its first interval is shortened
by a second, and when nothing is left of it the damage is dealt and the next interval begins. The
condition itself ends when its time is up, which is the sum of the intervals, counted from its start.

* An interval that is not a number of whole seconds ends late, and the next one begins late. The end
  of the condition is not put off. So the last damage may never be dealt.
* On a field of its own kind, the first interval begins again when its damage is dealt, and the end
  is put off by the seconds that are spent there. On another field, a condition without end counts
  down as well.
* The sum of the intervals wraps. If it is `-1`, the condition has no end, and deals the first damage
  again and again.

All damage is dealt, each once, if and only if no interval but the last ends on a field that keeps
it, and the condition has not ended before the last one does (`delivered_iff`).
-/

namespace Canary.Conditions

/-- `EVENT_CREATURE_THINK_INTERVAL` -/
def thinkInterval : Value := 1000

/-- The types of conditions that `createCondition` makes a `ConditionDamage` of. -/
inductive DamageType
  | poison | fire | energy | bleeding | drown | freezing | dazzled | cursed
  deriving DecidableEq

inductive CombatType
  | physical | energy | earth | fire | undefined | lifeDrain | manaDrain | healing | drown | ice
  | holy | death | agony | neutral | none
  deriving DecidableEq

/-- The damage of the fields on which the condition stays. -/
def DamageType.combatType : DamageType → CombatType
  | .fire => .fire
  | .energy => .energy
  | .poison => .earth
  | .freezing => .ice
  | .dazzled => .holy
  | .cursed => .death
  | .drown => .drown
  | .bleeding => .physical

/-- `Creature::onTickCondition`, on a tile with this field. -/
def onTickCondition (type : DamageType) (field : Option CombatType) (bRemove : Bool) : Bool :=
  match field with
  | none => bRemove
  | some combatType => combatType ≠ type.combatType

/-- What a condition asks the random numbers, and the floating point. -/
structure Rolls where
  uniform_random : Value → Value → Value
  uniform_random_self : ∀ v, uniform_random v v = v
  generateDamageList : Value → Value → List Value

structure ConditionDamage extends Damage where
  conditionType : DamageType
  ticks : Value := 0
  endTime : ℤ := 0

/-- What a call returns and leaves, and what has been passed to `doDamage`. -/
structure Outcome where
  result : Bool
  condition : ConditionDamage
  damage : Option Value := none

namespace ConditionDamage

variable (c : ConditionDamage)

def setTicks (newTicks : Value) (now : ℤ) : ConditionDamage :=
  { c with ticks := newTicks, endTime := newTicks.toInt + now }

/-- A round of `addDamage`. -/
def addRound (now : ℤ) (time value : Value) : ConditionDamage :=
  let c := { c with damageList := c.damageList ++ [⟨time, value, time⟩] }
  if c.ticks ≠ -1 then c.setTicks (c.ticks + time) now else c

/-- `std::max` with the think interval. -/
def atLeast (time : Value) : Value :=
  if time.toInt < thinkInterval.toInt then thinkInterval else time

def addDamage (now : ℤ) (rounds time value : Value) : Bool × ConditionDamage :=
  let time := atLeast time
  if rounds = -1 then
    (true, { c with periodDamage := value, tickInterval := time.abs, ticks := -1 })
  else if 0 < c.periodDamage.toInt then (false, c)
  else (true, (fun c => c.addRound now time value)^[rounds.toInt.toNat] c)

/-- The damage to start with, if none is set (`init`). -/
def firstDamage (amount : Value) : Value :=
  if c.maxDamage.toInt < c.startDamage.toInt then c.maxDamage
  else if c.startDamage = 0 then .ofInt 32 (max 1 ((amount.toInt + 19) / 20))
  else c.startDamage

def init (rolls : Rolls) (now : ℤ) : Bool × ConditionDamage :=
  if c.periodDamage ≠ 0 then (true, c)
  else if c.damageList = [] then
    let c := c.setTicks 0 now
    let amount := rolls.uniform_random c.minDamage c.maxDamage
    let c :=
      if amount ≠ 0 then
        let startDamage := c.firstDamage amount
        (rolls.generateDamageList amount startDamage).foldl
          (fun c value => (c.addDamage now 1 c.tickInterval (-value)).2) { c with startDamage }
      else c
    (c.damageList ≠ [], c)
  else (true, c)

def getNextDamage : Option Value × ConditionDamage :=
  if c.periodDamage ≠ 0 then (some c.periodDamage, c)
  else match c.damageList with
    | [] => (none, c)
    | damageInfo :: rest =>
      (some damageInfo.value, if c.ticks ≠ -1 then { c with damageList := rest } else c)

/-- `Condition::startCondition` -/
def start (now : ℤ) : ConditionDamage :=
  if 0 < c.ticks.toInt then { c with endTime := c.ticks.toInt + now } else c

/-- A condition that does not delay deals its first damage at once, and is not started if it cannot
    be dealt. -/
def startCondition (rolls : Rolls) (doDamage : Value → Bool) (now : ℤ) : Outcome :=
  let (started, c) := (c.start now).init rolls now
  if !started then ⟨false, c, none⟩
  else if c.delayed then ⟨true, c, none⟩
  else match c.getNextDamage with
    | (some damage, c) => ⟨doDamage damage, c, some damage⟩
    | (none, c) => ⟨true, c, none⟩

/-- `Condition::executeCondition` -/
def execute (now : ℤ) (interval : Value) : Bool × ConditionDamage :=
  if c.ticks = -1 then (true, c)
  else
    let ticks := c.ticks - interval
    (!decide (c.endTime < now), { c with ticks := if ticks.toInt < 0 then 0 else ticks })

/-- The condition is executed on a tile with this field. -/
def executeCondition (now : ℤ) (interval : Value) (field : Option CombatType) : Outcome :=
  if c.periodDamage ≠ 0 then
    let periodDamageTick := c.periodDamageTick + interval
    if c.tickInterval.toInt ≤ periodDamageTick.toInt then
      let (result, c) := { c with periodDamageTick := 0 }.execute now interval
      ⟨result, c, some c.periodDamage⟩
    else
      let (result, c) := { c with periodDamageTick }.execute now interval
      ⟨result, c, none⟩
  else match c.damageList with
    | [] =>
      let (result, c) := c.execute now interval
      ⟨result, c, none⟩
    | damageInfo :: rest =>
      let bRemove := onTickCondition c.conditionType field (c.ticks ≠ -1)
      let timeLeft := damageInfo.timeLeft - interval
      let due := timeLeft.toInt ≤ 0
      let damageList :=
        if due then
          if bRemove then rest else { damageInfo with timeLeft := damageInfo.interval } :: rest
        else { damageInfo with timeLeft } :: rest
      let c := { c with damageList }
      let (result, c) :=
        if bRemove then c.execute now interval
        else
          { c with
            endTime := if 0 < c.ticks.toInt then c.endTime + interval.toInt else c.endTime
          }.execute now 0
      ⟨result, c, if due then some damageInfo.value else none⟩

end ConditionDamage

/-! ## Runs -/

/-- A call of `addDamage`, so many milliseconds after the one before. -/
structure AddDamage where
  elapsed : ℕ
  rounds : Value
  time : Value
  value : Value

/-- How a condition is filled and started. -/
structure Setup where
  conditionType : DamageType
  delayed : Bool
  /-- The clock when the condition is made. -/
  made : ℤ
  calls : List AddDamage
  /-- The time between the last call and the start. -/
  wait : ℕ

/-- A value that has been passed to `doDamage`, the number of its entry in the list that the
    condition had at first, and the time. -/
structure Dealt where
  entry : ℕ
  time : ℤ
  value : Value
  deriving DecidableEq

/-- A condition after its start, until it has ended. -/
structure Running where
  condition : ConditionDamage
  ended : Bool
  log : List Dealt

namespace Setup

variable (s : Setup)

/-- What the calls put on the list. -/
def schedule : List IntervalInfo :=
  s.calls.flatMap fun call =>
    List.replicate call.rounds.toInt.toNat
      ⟨ConditionDamage.atLeast call.time, call.value, ConditionDamage.atLeast call.time⟩

/-- The clock and the condition after some calls. -/
def fill (calls : List AddDamage) (now : ℤ) (c : ConditionDamage) : ℤ × ConditionDamage :=
  calls.foldl (fun (now, c) call =>
    (now + call.elapsed,
      (c.addDamage (now + call.elapsed) call.rounds call.time call.value).2)) (now, c)

/-- The condition when it has been filled. -/
def filled : ConditionDamage :=
  (fill s.calls s.made { conditionType := s.conditionType, delayed := s.delayed }).2

/-- The clock at the start. -/
def startTime : ℤ := s.made + (s.calls.map (·.elapsed)).sum + s.wait

/-- The number of an entry that is at the head of the list. -/
def entryOf (c : ConditionDamage) : ℕ := s.schedule.length - c.damageList.length

/-- What a call has passed to `doDamage`, at the head of the list before the call. -/
def dealt (c : ConditionDamage) (time : ℤ) (out : Outcome) : List Dealt :=
  (out.damage.map fun value => ⟨s.entryOf c, time, value⟩).toList

variable (rolls : Rolls) (doDamage : Value → Bool) (fields : ℕ → Option CombatType)

def started : Outcome := s.filled.startCondition rolls doDamage s.startTime

/-- The condition after it has been executed so many times, a second after another, on tiles with
    these fields. -/
def run : ℕ → Running
  | 0 =>
    ⟨(s.started rolls doDamage).condition, false,
      s.dealt s.filled s.startTime (s.started rolls doDamage)⟩
  | k + 1 =>
    let r := run k
    if r.ended then r
    else
      let now := s.startTime + 1000 * (k + 1 : ℕ)
      let out := r.condition.executeCondition now thinkInterval (fields (k + 1))
      ⟨out.condition, !out.result, r.log ++ s.dealt r.condition now out⟩

/-- All values of the schedule are dealt, each once and in order, no value before its interval is
    over, and the condition does not end before. -/
structure Delivered : Prop where
  once : ∀ k, (s.run rolls doDamage fields k).log.map (·.entry) =
    List.range (s.run rolls doDamage fields k).log.length
  values : ∀ k, (s.run rolls doDamage fields k).log.map (·.value) <+: s.schedule.map (·.value)
  all : ∃ k, (s.run rolls doDamage fields k).log.map (·.value) = s.schedule.map (·.value)
  spaced : ∀ k i d d' info, (s.run rolls doDamage fields k).log[i]? = some d →
    (s.run rolls doDamage fields k).log[i + 1]? = some d' → s.schedule[i + 1]? = some info →
    d.time + info.interval.toInt ≤ d'.time
  ended : ∀ k, (s.run rolls doDamage fields k).ended = true →
    (s.run rolls doDamage fields k).log.map (·.value) = s.schedule.map (·.value)

/-! ## When it works -/

/-- How often the condition is executed until an interval is over. -/
def turns (info : IntervalInfo) : ℕ := (info.interval.toInt.toNat + 999) / 1000

/-- The ticks of the condition: the sum of the intervals, unless it has been `-1`. -/
def sumOf (l : List IntervalInfo) : Value :=
  l.foldl (fun ticks info => if ticks = -1 then -1 else ticks + info.interval) 0

def ticks : ℤ := (sumOf s.schedule).toInt

/-- How many entries are dealt at the start. -/
def first : ℕ := if s.delayed then 0 else 1

/-- How often the condition is executed until so many entries are gone. -/
def reached (i : ℕ) : ℕ := (((s.schedule.take i).drop s.first).map turns).sum

/-- An interval that is over with this call is removed. -/
def removes (k : ℕ) : Bool := onTickCondition s.conditionType (fields k) (s.ticks ≠ -1)

/-- How many of the calls count down. -/
def countdowns : ℕ → ℕ
  | 0 => 0
  | k + 1 => countdowns k + if s.removes fields (k + 1) then 1 else 0

/-- The condition has ended with this call, if entries were left until then. -/
def EndsBy (k : ℕ) : Prop :=
  0 < k ∧ s.ticks ≠ -1 ∧ (s.ticks < 1000 * s.countdowns fields k ∨
    s.removes fields k = false ∧ s.ticks ≤ 1000 * s.countdowns fields k)

/-- The last value is dealt before the end, and each entry is removed when it is dealt, or else it
    is the last one and the condition ends before it is dealt again. -/
structure OnTime : Prop where
  starts : s.delayed = true ∨ s.ticks ≠ -1
  removed : ∀ i, s.first ≤ i → i + 1 < s.schedule.length →
    s.removes fields (s.reached (i + 1)) = true
  inTime : s.first < s.schedule.length → ¬s.EndsBy fields (s.reached s.schedule.length - 1)
  last : ∀ info, s.first < s.schedule.length → s.schedule.getLast? = some info →
    s.removes fields (s.reached s.schedule.length) = true ∨
      s.EndsBy fields (s.reached s.schedule.length + turns info - 1)

/-! ## Filling and starting -/

section fill

theorem toInt_atLeast (time : Value) : 1000 ≤ (ConditionDamage.atLeast time).toInt := by
  have hthink : thinkInterval.toInt = 1000 := by decide
  rw [ConditionDamage.atLeast]
  split_ifs with h <;> omega

/-- What is left of a positive time after a second. -/
theorem toInt_sub_think {v : Value} (hv : 0 ≤ v.toInt) :
    (v - thinkInterval).toInt = v.toInt - 1000 := by
  have hthink : thinkInterval.toInt = 1000 := by decide
  have hlt := v.toInt_lt
  rw [BitVec.toInt_sub, hthink]
  exact Int.bmod_eq_of_le (by omega) (by omega)

theorem sumOf_concat (l : List IntervalInfo) (info : IntervalInfo) :
    sumOf (l ++ [info]) = if sumOf l = -1 then -1 else sumOf l + info.interval := by
  rw [sumOf, List.foldl_append]
  rfl

/-- What is known of a condition that is filled. -/
structure Filling (c : ConditionDamage) (now : ℤ) : Prop where
  conditionType : c.conditionType = s.conditionType
  delayed : c.delayed = s.delayed
  periodDamage : c.periodDamage = 0
  damage : c.minDamage = 0 ∧ c.maxDamage = 0
  ticks : c.ticks = sumOf c.damageList
  past : c.damageList ≠ [] → c.ticks ≠ -1 → c.endTime ≤ c.ticks.toInt + now

variable {s} {c : ConditionDamage} {now : ℤ}

theorem Filling.mono (h : s.Filling c now) {now' : ℤ} (hle : now ≤ now') : s.Filling c now' :=
  { h with past := fun hlist hticks => (h.past hlist hticks).trans (by omega) }

theorem Filling.addRound (h : s.Filling c now) (time value : Value) :
    s.Filling (c.addRound now time value) now := by
  rw [ConditionDamage.addRound]
  dsimp only
  split_ifs with hticks
  · refine { h with ticks := ?_, past := fun _ _ => le_rfl }
    dsimp only [ConditionDamage.setTicks]
    rw [sumOf_concat, ← h.ticks, if_neg hticks]
  · refine { h with ticks := ?_, past := fun _ hne => absurd hne hticks }
    dsimp only
    rw [not_not] at hticks
    rw [sumOf_concat, ← h.ticks, if_pos hticks, hticks]

theorem damageList_addRound (time value : Value) :
    (c.addRound now time value).damageList = c.damageList ++ [⟨time, value, time⟩] := by
  rw [ConditionDamage.addRound]
  dsimp only
  split_ifs <;> rfl

/-- Rounds, one after another. -/
theorem Filling.addRounds (h : s.Filling c now) (time value : Value) (n : ℕ) :
    s.Filling ((fun c => c.addRound now time value)^[n] c) now ∧
      ((fun c => c.addRound now time value)^[n] c).damageList =
        c.damageList ++ List.replicate n ⟨time, value, time⟩ := by
  induction n with
  | zero => exact ⟨h, (List.append_nil _).symm⟩
  | succ n ih =>
    rw [Function.iterate_succ_apply']
    refine ⟨ih.1.addRound time value, ?_⟩
    rw [damageList_addRound, ih.2, List.append_assoc, ← List.replicate_succ']

theorem Filling.addDamage (h : s.Filling c now) {rounds : Value} (hrounds : 0 ≤ rounds.toInt)
    (time value : Value) :
    s.Filling (c.addDamage now rounds time value).2 now ∧
      (c.addDamage now rounds time value).2.damageList = c.damageList ++
        List.replicate rounds.toInt.toNat
          ⟨ConditionDamage.atLeast time, value, ConditionDamage.atLeast time⟩ := by
  have hne : rounds ≠ -1 := by
    rintro rfl
    exact absurd hrounds (by decide)
  have hperiod : ¬0 < c.periodDamage.toInt := by
    rw [h.periodDamage]
    decide
  rw [ConditionDamage.addDamage]
  rw [if_neg hne, if_neg hperiod]
  exact h.addRounds _ _ _

theorem Filling.fill {calls : List AddDamage} (h : s.Filling c now)
    (hrounds : ∀ call ∈ calls, 0 ≤ call.rounds.toInt) :
    (Setup.fill calls now c).1 = now + (calls.map (·.elapsed)).sum ∧
      s.Filling (Setup.fill calls now c).2 (Setup.fill calls now c).1 ∧
      (Setup.fill calls now c).2.damageList = c.damageList ++ calls.flatMap fun call =>
        List.replicate call.rounds.toInt.toNat
          ⟨ConditionDamage.atLeast call.time, call.value, ConditionDamage.atLeast call.time⟩ := by
  induction calls generalizing c now with
  | nil => exact ⟨(add_zero now).symm, h, (List.append_nil _).symm⟩
  | cons call calls ih =>
    have hlater : s.Filling c (now + call.elapsed) := h.mono (by omega)
    obtain ⟨hfill, hlist⟩ := hlater.addDamage (hrounds call List.mem_cons_self) call.time call.value
    obtain ⟨hclock, hfill, hlist'⟩ := ih hfill fun call h => hrounds call (List.mem_cons_of_mem _ h)
    refine ⟨?_, hfill, ?_⟩
    · rw [Setup.fill, List.foldl_cons]
      refine hclock.trans ?_
      rw [List.map_cons, List.sum_cons, Nat.cast_add, add_assoc]
    · rw [Setup.fill, List.foldl_cons]
      refine hlist'.trans ?_
      rw [hlist, List.flatMap_cons, List.append_assoc]

variable (s)

theorem filling_filled (hrounds : ∀ call ∈ s.calls, 0 ≤ call.rounds.toInt) :
    s.Filling s.filled s.startTime ∧ s.filled.damageList = s.schedule := by
  have hnew : s.Filling { conditionType := s.conditionType, delayed := s.delayed } s.made :=
    { conditionType := rfl
      delayed := rfl
      periodDamage := rfl
      damage := ⟨rfl, rfl⟩
      ticks := rfl
      past := fun hne => absurd rfl hne }
  obtain ⟨hclock, hfill, hlist⟩ := hnew.fill hrounds
  refine ⟨hfill.mono ?_, hlist⟩
  rw [hclock, startTime]
  omega

end fill

/-! ## The clock -/

section clock

variable {s} {fields : ℕ → Option CombatType} {k : ℕ} {c : ConditionDamage}

/-- The end of a condition after so many calls, none of which has ended it. A call that does not
    count down puts it off. -/
structure Clock (s : Setup) (fields : ℕ → Option CombatType) (k : ℕ) (c : ConditionDamage) :
    Prop where
  infinite : s.ticks = -1 → c.ticks = -1
  ticks : s.ticks ≠ -1 → c.ticks.toInt = s.ticks - 1000 * s.countdowns fields k
  ahead : 0 < s.ticks → c.endTime = s.startTime + s.ticks + 1000 * (k - s.countdowns fields k) ∧
    1000 * s.countdowns fields k ≤ s.ticks
  past : s.ticks ≤ 0 → s.ticks ≠ -1 → k = 0 ∧ c.endTime ≤ s.startTime

theorem countdowns_succ (s : Setup) (fields : ℕ → Option CombatType) (k : ℕ) :
    s.countdowns fields (k + 1) =
      s.countdowns fields k + if s.removes fields (k + 1) then 1 else 0 := rfl

theorem toInt_eq_neg_one {v : Value} : v.toInt = -1 ↔ v = -1 := by
  rw [← BitVec.toInt_inj]
  exact Iff.rfl

theorem Clock.ticks_eq_iff (h : Clock s fields k c) : c.ticks = -1 ↔ s.ticks = -1 := by
  refine ⟨fun hc => ?_, h.infinite⟩
  by_contra hne
  have hticks := h.ticks hne
  rw [hc, show (-1 : Value).toInt = -1 by decide] at hticks
  rcases lt_or_ge 0 s.ticks with hpos | hneg
  · have := (h.ahead hpos).2
    omega
  · obtain ⟨rfl, -⟩ := h.past hneg hne
    exact hne (hticks.trans (by rw [countdowns]; omega)).symm

theorem execute_of_ne {now : ℤ} {interval : Value} (hne : c.ticks ≠ -1) :
    c.execute now interval = (!decide (c.endTime < now),
      { c with ticks := if (c.ticks - interval).toInt < 0 then 0 else c.ticks - interval }) := by
  rw [ConditionDamage.execute, if_neg hne]

/-- The end is put off, if time is left. -/
def postponed (c : ConditionDamage) : ConditionDamage :=
  { c with endTime := if 0 < c.ticks.toInt then c.endTime + thinkInterval.toInt else c.endTime }

/-- What a call does to the clock, if it counts down or not. -/
def count (c : ConditionDamage) (now : ℤ) (bRemove : Bool) : Bool × ConditionDamage :=
  if bRemove then c.execute now thinkInterval else (postponed c).execute now 0

theorem endsBy_of_removes (hne : s.ticks ≠ -1) (hremoves : s.removes fields (k + 1) = true) :
    s.EndsBy fields (k + 1) ↔ s.ticks < 1000 * (s.countdowns fields k + 1) := by
  simp [EndsBy, countdowns_succ, hremoves, hne]

theorem endsBy_of_not_removes (hne : s.ticks ≠ -1)
    (hremoves : s.removes fields (k + 1) = false) :
    s.EndsBy fields (k + 1) ↔ s.ticks ≤ 1000 * s.countdowns fields k := by
  simp only [EndsBy, countdowns_succ, hremoves, Nat.succ_pos, hne, ne_eq, not_false_eq_true,
    true_and, Bool.false_eq_true, if_false, Nat.add_zero]
  omega

/-- A call that counts down. -/
theorem Clock.count_true (h : Clock s fields k c) (hne : s.ticks ≠ -1)
    (hremoves : s.removes fields (k + 1) = true) {out : Bool × ConditionDamage}
    (hout : out = count c (s.startTime + 1000 * (k + 1 : ℕ)) true) :
    (out.1 = false ↔ s.EndsBy fields (k + 1)) ∧ (out.1 = true → Clock s fields (k + 1) out.2) := by
  have hticks := h.ticks hne
  have hsucc : s.countdowns fields (k + 1) = s.countdowns fields k + 1 := by
    rw [countdowns_succ, if_pos hremoves]
  rw [count, if_pos rfl, execute_of_ne (mt h.ticks_eq_iff.1 hne)] at hout
  subst hout
  rw [endsBy_of_removes hne hremoves]
  simp only [Bool.not_eq_false', Bool.not_eq_true', decide_eq_true_eq, decide_eq_false_iff_not,
    not_lt]
  rcases lt_or_ge 0 s.ticks with hpos | hneg
  · obtain ⟨hend, hle⟩ := h.ahead hpos
    refine ⟨by omega, fun hlater => ?_⟩
    have hleft := toInt_sub_think (v := c.ticks) (by omega)
    rw [if_neg (by omega)]
    exact
      { infinite := fun he => absurd he hne
        ticks := fun _ => by rw [hsucc, hleft, hticks]; omega
        ahead := fun _ => by rw [hsucc, hend]; omega
        past := fun h => absurd hpos (by omega) }
  · obtain ⟨rfl, hpast⟩ := h.past hneg hne
    rw [countdowns]
    exact ⟨by omega, fun hlater => absurd hpast (by omega)⟩

/-- A call on a field where the condition stays. -/
theorem Clock.count_false (h : Clock s fields k c) (hne : s.ticks ≠ -1)
    (hremoves : s.removes fields (k + 1) = false) {out : Bool × ConditionDamage}
    (hout : out = count c (s.startTime + 1000 * (k + 1 : ℕ)) false) :
    (out.1 = false ↔ s.EndsBy fields (k + 1)) ∧ (out.1 = true → Clock s fields (k + 1) out.2) := by
  have hthink : thinkInterval.toInt = 1000 := by decide
  have hzero : c.ticks - 0 = c.ticks := BitVec.sub_zero _
  have hticks := h.ticks hne
  have hsucc : s.countdowns fields (k + 1) = s.countdowns fields k := by
    rw [countdowns_succ, hremoves]
    rfl
  have hkept : (postponed c).ticks ≠ -1 := mt h.ticks_eq_iff.1 hne
  rw [count, if_neg Bool.false_ne_true, execute_of_ne hkept] at hout
  subst hout
  rw [endsBy_of_not_removes hne hremoves]
  simp only [postponed, Bool.not_eq_false', Bool.not_eq_true', decide_eq_true_eq,
    decide_eq_false_iff_not, not_lt, hthink, hzero]
  rcases lt_or_ge 0 s.ticks with hpos | hneg
  · obtain ⟨hend, hle⟩ := h.ahead hpos
    rw [if_neg (by omega : ¬c.ticks.toInt < 0)]
    split_ifs with hleft
    · refine ⟨by omega, fun hlater => ?_⟩
      exact
        { infinite := fun he => absurd he hne
          ticks := fun _ => by rw [hsucc, hticks]
          ahead := fun _ => by dsimp only; rw [hsucc, hend]; omega
          past := fun h => absurd hpos (by omega) }
    · exact ⟨by omega, fun hlater => absurd hlater (by omega)⟩
  · obtain ⟨rfl, hpast⟩ := h.past hneg hne
    rw [countdowns] at hticks ⊢
    rw [if_neg (by omega : ¬0 < c.ticks.toInt)]
    exact ⟨by omega, fun hlater => absurd hpast (by omega)⟩

/-- A condition with a clock ends with the next call, or has one after it. -/
theorem Clock.count (h : Clock s fields k c) {out : Bool × ConditionDamage}
    (hout : out = Setup.count c (s.startTime + 1000 * (k + 1 : ℕ)) (s.removes fields (k + 1))) :
    (out.1 = false ↔ s.EndsBy fields (k + 1)) ∧ (out.1 = true → Clock s fields (k + 1) out.2) := by
  by_cases hne : s.ticks = -1
  · -- It has no end.
    have hexecute : ∀ (c : ConditionDamage) (now : ℤ) (interval : Value), c.ticks = -1 →
        c.execute now interval = (true, c) := fun c now interval hc => by
      rw [ConditionDamage.execute, if_pos hc]
    have hc := h.infinite hne
    have hkeep : out.1 = true ∧ out.2.ticks = -1 := by
      rw [Setup.count] at hout
      subst hout
      split_ifs
      · rw [hexecute c _ _ hc]
        exact ⟨rfl, hc⟩
      · rw [hexecute (postponed c) _ _ hc]
        exact ⟨rfl, hc⟩
    refine ⟨?_, fun _ => ?_⟩
    · rw [hkeep.1]
      exact iff_of_false Bool.noConfusion fun hends => hends.2.1 hne
    · exact
        { infinite := fun _ => hkeep.2
          ticks := fun h => absurd hne h
          ahead := fun h => absurd h (by omega)
          past := fun _ h => absurd hne h }
  · rcases hremoves : s.removes fields (k + 1) with _ | _
    · exact h.count_false hne hremoves (hremoves ▸ hout)
    · exact h.count_true hne hremoves (hremoves ▸ hout)

end clock

/-! ## The list -/

section list

variable {s} {fields : ℕ → Option CombatType} {m k i : ℕ} {info : IntervalInfo}
  {c : ConditionDamage}

theorem of_mem_schedule (h : info ∈ s.schedule) :
    info.timeLeft = info.interval ∧ 1000 ≤ info.interval.toInt := by
  obtain ⟨call, -, hinfo⟩ := List.mem_flatMap.1 h
  obtain rfl := List.eq_of_mem_replicate hinfo
  exact ⟨rfl, toInt_atLeast _⟩

theorem of_getElem?_schedule (h : s.schedule[i]? = some info) :
    info.timeLeft = info.interval ∧ 1000 ≤ info.interval.toInt :=
  of_mem_schedule (List.mem_of_getElem? h)

/-- The list when its first entry has been shortened. -/
def shortened (info : IntervalInfo) (rest : List IntervalInfo) (bRemove : Bool) :
    List IntervalInfo :=
  if (info.timeLeft - thinkInterval).toInt ≤ 0 then
    if bRemove then rest else { info with timeLeft := info.interval } :: rest
  else { info with timeLeft := info.timeLeft - thinkInterval } :: rest

theorem executeCondition_cons {rest : List IntervalInfo} (hperiod : c.periodDamage = 0)
    (hlist : c.damageList = info :: rest) (now : ℤ) (field : Option CombatType) :
    c.executeCondition now thinkInterval field =
      let bRemove := onTickCondition c.conditionType field (c.ticks ≠ -1)
      let out := count { c with damageList := shortened info rest bRemove } now bRemove
      ⟨out.1, out.2, if (info.timeLeft - thinkInterval).toInt ≤ 0 then some info.value else none⟩ := by
  rw [ConditionDamage.executeCondition, if_neg (not_not.2 hperiod), hlist]
  dsimp only
  rcases onTickCondition c.conditionType field (c.ticks ≠ -1) with _ | _ <;> rfl

theorem executeCondition_nil (hperiod : c.periodDamage = 0) (hlist : c.damageList = []) (now : ℤ)
    (field : Option CombatType) :
    c.executeCondition now thinkInterval field =
      ⟨(c.execute now thinkInterval).1, (c.execute now thinkInterval).2, none⟩ := by
  rw [ConditionDamage.executeCondition, if_neg (not_not.2 hperiod), hlist]

/-- The members that no call changes. -/
structure Steady (s : Setup) (c : ConditionDamage) : Prop where
  conditionType : c.conditionType = s.conditionType
  periodDamage : c.periodDamage = 0

theorem damageList_execute (c : ConditionDamage) (now : ℤ) (interval : Value) :
    (c.execute now interval).2.damageList = c.damageList := by
  rw [ConditionDamage.execute]
  split_ifs <;> rfl

theorem Steady.execute (h : Steady s c) (now : ℤ) (interval : Value) :
    Steady s (c.execute now interval).2 := by
  rw [ConditionDamage.execute]
  split_ifs <;> exact ⟨h.conditionType, h.periodDamage⟩

theorem damageList_count (c : ConditionDamage) (now : ℤ) (bRemove : Bool) :
    (count c now bRemove).2.damageList = c.damageList := by
  rw [count]
  split_ifs <;> exact damageList_execute _ _ _

theorem Steady.count (h : Steady s c) (now : ℤ) (bRemove : Bool) :
    Steady s (Setup.count c now bRemove).2 := by
  have hpostponed : Steady s (postponed c) := ⟨h.conditionType, h.periodDamage⟩
  rw [Setup.count]
  split_ifs
  · exact h.execute _ _
  · exact hpostponed.execute _ _

/-- The entry is at the head of the list, since so many calls, and its interval is not over. -/
structure Waits (s : Setup) (m k i : ℕ) (info : IntervalInfo) (c : ConditionDamage) : Prop where
  get : s.schedule[i]? = some info
  list : ∃ timeLeft : Value, c.damageList = { info with timeLeft } :: s.schedule.drop (i + 1) ∧
    timeLeft.toInt = info.interval.toInt - 1000 * (k - m) ∧ 0 < timeLeft.toInt
  since : m ≤ k

theorem Waits.lt (h : Waits s m k i info c) : k < m + turns info := by
  obtain ⟨t, -, ht, hpos⟩ := h.list
  have hle := h.since
  rw [turns]
  omega

/-- An entry that comes to the head. -/
theorem waits_drop (hget : s.schedule[i]? = some info)
    (hlist : c.damageList = s.schedule.drop i) : Waits s k k i info c := by
  obtain ⟨htime, hpos⟩ := of_getElem?_schedule hget
  refine ⟨hget, ⟨info.timeLeft, ?_, by rw [htime]; omega, by rw [htime]; omega⟩, le_rfl⟩
  obtain ⟨hi, he⟩ := List.getElem?_eq_some_iff.1 hget
  rw [hlist, List.drop_eq_getElem_cons hi, he]

/-- What a call does to an entry that waits. -/
structure Waited (s : Setup) (fields : ℕ → Option CombatType) (m k i : ℕ) (info : IntervalInfo)
    (out : Outcome) : Prop where
  steady : Steady s out.condition
  result : out.result = false ↔ s.EndsBy fields (k + 1)
  clock : out.result = true → Clock s fields (k + 1) out.condition
  wait : k + 1 < m + turns info → out.damage = none ∧ Waits s m (k + 1) i info out.condition
  due : k + 1 = m + turns info → out.damage = some info.value
  removed : k + 1 = m + turns info → s.removes fields (k + 1) = true →
    out.condition.damageList = s.schedule.drop (i + 1)
  kept : k + 1 = m + turns info → s.removes fields (k + 1) = false →
    Waits s (k + 1) (k + 1) i info out.condition

theorem Waits.executeCondition (h : Waits s m k i info c) (hsteady : Steady s c)
    (hclock : Clock s fields k c) :
    Waited s fields m k i info (c.executeCondition (s.startTime + 1000 * (k + 1 : ℕ))
      thinkInterval (fields (k + 1))) := by
  obtain ⟨t, hlist, ht, hpos⟩ := h.list
  have hsince := h.since
  have hlt := h.lt
  have hinterval := (of_getElem?_schedule h.get).2
  have hleft := toInt_sub_think hpos.le
  have hremoves : onTickCondition c.conditionType (fields (k + 1)) (c.ticks ≠ -1) =
      s.removes fields (k + 1) := by
    rw [removes, hsteady.conditionType]
    simp only [ne_eq, hclock.ticks_eq_iff]
  rw [executeCondition_cons hsteady.periodDamage hlist]
  simp only [hremoves]
  generalize hshort : shortened { info with timeLeft := t } (s.schedule.drop (i + 1))
    (s.removes fields (k + 1)) = l
  have hclock' : Clock s fields k { c with damageList := l } :=
    ⟨hclock.infinite, hclock.ticks, hclock.ahead, hclock.past⟩
  have hsteady' : Steady s { c with damageList := l } :=
    ⟨hsteady.conditionType, hsteady.periodDamage⟩
  have hcount := hclock'.count rfl
  have hdue : (t - thinkInterval).toInt ≤ 0 ↔ k + 1 = m + turns info := by
    rw [hleft, turns] at *
    omega
  rw [shortened] at hshort
  refine ⟨hsteady'.count _ _, hcount.1, hcount.2,
    fun hwait => ?_, fun hk => if_pos (hdue.2 hk), fun hk hr => ?_, fun hk hr => ?_⟩
  · have hnot : ¬(t - thinkInterval).toInt ≤ 0 := fun hd => by
      have := hdue.1 hd
      omega
    rw [if_neg hnot] at hshort
    refine ⟨if_neg hnot, h.get, ⟨t - thinkInterval, ?_, ?_, by omega⟩, by omega⟩
    · rw [damageList_count, ← hshort]
    · rw [hleft]
      omega
  · rw [if_pos (hdue.2 hk), if_pos hr] at hshort
    rw [damageList_count, ← hshort]
  · rw [if_pos (hdue.2 hk), hr] at hshort
    refine ⟨h.get, ⟨info.interval, ?_, by omega, by omega⟩, le_rfl⟩
    rw [damageList_count, ← hshort]
    rfl

end list

/-! ## Plans -/

section plan

variable {fields : ℕ → Option CombatType} {i j k : ℕ} {info : IntervalInfo}

/-- An entry as it should be dealt. -/
def planned (m : ℕ) : Dealt :=
  ⟨m, s.startTime + 1000 * s.reached (m + 1), (s.schedule.map (·.value)).getD m 0⟩

/-- The first entries as they should be dealt. -/
def plan (i : ℕ) : List Dealt := (List.range i).map s.planned

variable {s}

theorem plan_succ (i : ℕ) : s.plan (i + 1) = s.plan i ++ [s.planned i] := by
  rw [plan, List.range_succ, List.map_append]
  rfl

theorem length_plan (i : ℕ) : (s.plan i).length = i := by
  rw [plan, List.length_map, List.length_range]

theorem entries_plan (i : ℕ) : (s.plan i).map (·.entry) = List.range i := by
  rw [plan, List.map_map]
  exact List.map_id _

theorem values_plan (hi : i ≤ s.schedule.length) :
    (s.plan i).map (·.value) = (s.schedule.map (·.value)).take i := by
  refine List.ext_getElem? fun m => ?_
  rw [plan, List.map_map, List.getElem?_map, List.getElem?_take]
  split_ifs with hm
  · rw [List.getElem?_range hm, Option.map_some]
    have hlt : m < (s.schedule.map (·.value)).length := by
      rw [List.length_map]
      omega
    rw [List.getElem?_eq_getElem hlt]
    dsimp only [Function.comp_apply, planned]
    rw [List.getD_eq_getElem?_getD, List.getElem?_eq_getElem hlt, Option.getD_some]
  · rw [List.getElem?_eq_none (by rw [List.length_range]; omega), Option.map_none]

theorem values_plan_all : (s.plan s.schedule.length).map (·.value) = s.schedule.map (·.value) := by
  rw [values_plan le_rfl, List.take_of_length_le]
  rw [List.length_map]

theorem getElem?_plan {d : Dealt} (h : (s.plan i)[j]? = some d) : d = s.planned j := by
  rw [plan, List.getElem?_map, Option.map_eq_some_iff] at h
  obtain ⟨m, hm, rfl⟩ := h
  rw [List.getElem?_range (by
    by_contra hlt
    rw [List.getElem?_eq_none (by rw [List.length_range]; omega)] at hm
    cases hm)] at hm
  rw [← Option.some.inj hm]

theorem first_le_one (s : Setup) : s.first ≤ 1 := by
  rw [first]
  split_ifs <;> omega

theorem reached_of_le (hi : i ≤ s.first) : s.reached i = 0 := by
  rw [reached, List.drop_of_length_le]
  · rfl
  · exact (List.length_take_le _ _).trans hi

theorem reached_succ (hi : s.first ≤ i) (hget : s.schedule[i]? = some info) :
    s.reached (i + 1) = s.reached i + turns info := by
  obtain ⟨hlt, rfl⟩ := List.getElem?_eq_some_iff.1 hget
  have hlength : s.first ≤ (s.schedule.take i).length := by
    rw [List.length_take]
    omega
  rw [reached, reached, List.take_add_one, List.getElem?_eq_getElem hlt, Option.toList_some,
    List.drop_append_of_le_length hlength, List.map_append, List.sum_append]
  rfl

theorem turns_pos (hget : s.schedule[i]? = some info) : 0 < turns info := by
  have hpos := (of_getElem?_schedule hget).2
  rw [turns]
  omega

theorem le_turns (hget : s.schedule[i]? = some info) :
    info.interval.toInt ≤ 1000 * turns info := by
  have hpos := (of_getElem?_schedule hget).2
  rw [turns]
  omega

theorem reached_mono (hij : i ≤ j) : s.reached i ≤ s.reached j := by
  rw [reached, reached]
  refine List.Sublist.sum_le_sum (List.Sublist.map _ (List.Sublist.drop ?_ _)) fun _ _ =>
    Nat.zero_le _
  exact (List.take_prefix_take_left hij).sublist

theorem endsBy_mono (h : s.EndsBy fields k) : s.EndsBy fields (k + 1) := by
  obtain ⟨-, hne, hends⟩ := h
  rcases hremoves : s.removes fields (k + 1) with _ | _
  · rw [endsBy_of_not_removes hne hremoves]
    omega
  · rw [endsBy_of_removes hne hremoves]
    omega

theorem not_endsBy_zero : ¬s.EndsBy fields 0 := fun h => absurd h.1 (Nat.lt_irrefl 0)

theorem not_endsBy_of_le (h : ¬s.EndsBy fields j) (hij : i ≤ j) : ¬s.EndsBy fields i := by
  induction j, hij using Nat.le_induction with
  | base => exact h
  | succ j _ ih => exact ih fun hj => h (endsBy_mono hj)

end plan

/-! ## The start -/

section start

variable {s} {c : ConditionDamage} (fields : ℕ → Option CombatType) (rolls : Rolls)
  (doDamage : Value → Bool)

theorem init_of_ne_nil (hperiod : c.periodDamage = 0) (hlist : c.damageList ≠ []) (now : ℤ) :
    c.init rolls now = (true, c) := by
  rw [ConditionDamage.init, if_neg (not_not.2 hperiod), if_neg hlist]

/-- Without damage, and without random damage, a condition is not started. -/
theorem init_of_nil (h : s.Filling c s.startTime) (hlist : c.damageList = []) :
    ((c.start s.startTime).init rolls s.startTime).1 = false := by
  have hstart : (c.start s.startTime).periodDamage = 0 ∧ (c.start s.startTime).damageList = [] ∧
      (c.start s.startTime).minDamage = 0 ∧ (c.start s.startTime).maxDamage = 0 := by
    rw [ConditionDamage.start]
    split_ifs <;> exact ⟨h.periodDamage, hlist, h.damage⟩
  obtain ⟨hperiod, hlist, hmin, hmax⟩ := hstart
  rw [ConditionDamage.init, if_neg (not_not.2 hperiod), if_pos hlist]
  simp only [ConditionDamage.setTicks, hmin, hmax, rolls.uniform_random_self, ne_eq,
    not_true_eq_false, if_false, hlist, decide_false]

theorem startCondition_cons {info : IntervalInfo} {rest : List IntervalInfo}
    (h : s.Filling c s.startTime) (hlist : c.damageList = info :: rest) :
    c.startCondition rolls doDamage s.startTime =
      if s.delayed then ⟨true, c.start s.startTime, none⟩
      else ⟨doDamage info.value,
        if c.ticks ≠ -1 then { c.start s.startTime with damageList := rest }
        else c.start s.startTime, some info.value⟩ := by
  have hstart : (c.start s.startTime).periodDamage = 0 ∧
      (c.start s.startTime).damageList = info :: rest ∧
      (c.start s.startTime).delayed = s.delayed ∧ (c.start s.startTime).ticks = c.ticks := by
    rw [ConditionDamage.start]
    split_ifs <;> exact ⟨h.periodDamage, hlist, h.delayed, rfl⟩
  obtain ⟨hperiod, hlist, hdelayed, hticks⟩ := hstart
  rw [ConditionDamage.startCondition, init_of_ne_nil rolls hperiod (by rw [hlist]; nofun)]
  dsimp only
  rw [ConditionDamage.getNextDamage, if_neg (not_not.2 hperiod), hlist, hticks]
  rcases hdelay : s.delayed with _ | _ <;> rw [hdelayed, hdelay] <;> rfl

/-- A condition that starts has its clock. -/
theorem clock_start (h : s.Filling c s.startTime) (hlist : c.damageList = s.schedule)
    (hne : s.schedule ≠ []) :
    Steady s (c.start s.startTime) ∧ Clock s fields 0 (c.start s.startTime) := by
  have hticks : c.ticks.toInt = s.ticks := by rw [h.ticks, hlist, ticks]
  have hpast := h.past (hlist ▸ hne)
  rw [ConditionDamage.start]
  split_ifs with hpos
  · refine ⟨⟨h.conditionType, h.periodDamage⟩, fun hinf => toInt_eq_neg_one.1 (hticks.trans hinf),
      fun _ => ?_, fun _ => ?_, fun hneg => absurd hpos (by omega)⟩
    · rw [countdowns, hticks]
      omega
    · dsimp only
      rw [countdowns, hticks]
      omega
  · refine ⟨⟨h.conditionType, h.periodDamage⟩, fun hinf => toInt_eq_neg_one.1 (hticks.trans hinf),
      fun _ => ?_, fun hpos' => absurd hpos' (by omega), fun hneg hinf => ⟨rfl, ?_⟩⟩
    · rw [countdowns, hticks]
      omega
    · have := hpast fun he => hinf (by rw [← hticks, he]; decide)
      omega

variable {fields rolls doDamage} (hrounds : ∀ call ∈ s.calls, 0 ≤ call.rounds.toInt)
  (hstart : (s.started rolls doDamage).result = true)

include hrounds hstart

/-- What is started has a first entry. -/
theorem exists_schedule_eq : ∃ info rest, s.schedule = info :: rest := by
  obtain ⟨hfill, hlist⟩ := s.filling_filled hrounds
  rcases hs : s.schedule with _ | ⟨info, rest⟩
  · rw [started, ConditionDamage.startCondition] at hstart
    have hinit := init_of_nil rolls hfill (hlist.trans hs)
    rcases he : (s.filled.start s.startTime).init rolls s.startTime with ⟨started, c⟩
    rw [he] at hinit hstart
    dsimp only at hinit hstart
    rw [hinit] at hstart
    exact absurd hstart Bool.false_ne_true
  · exact ⟨info, rest, rfl⟩

/-- A first entry that is dealt stays on the list of a condition without end. -/
structure Begun (s : Setup) (fields : ℕ → Option CombatType) (r : Running) : Prop where
  ended : r.ended = false
  steady : Steady s r.condition
  clock : Clock s fields 0 r.condition
  log : r.log = s.plan s.first
  list : s.delayed = true ∨ s.ticks ≠ -1 → r.condition.damageList = s.schedule.drop s.first
  kept : s.delayed = false → s.ticks = -1 → r.condition.damageList = s.schedule

theorem begun_run : Begun s fields (s.run rolls doDamage fields 0) := by
  obtain ⟨info, rest, hs⟩ := exists_schedule_eq hrounds hstart
  obtain ⟨hfill, hlist⟩ := s.filling_filled hrounds
  obtain ⟨hsteady, hclock⟩ := clock_start fields hfill hlist (by rw [hs]; nofun)
  have hticks : s.filled.ticks = -1 ↔ s.ticks = -1 := by
    rw [hfill.ticks, hlist, ← toInt_eq_neg_one, ticks]
  have hentry : s.entryOf s.filled = 0 := by
    rw [entryOf, hlist, Nat.sub_self]
  have hkeep : (s.filled.start s.startTime).damageList = s.schedule := by
    rw [← hlist, ConditionDamage.start]
    split_ifs <;> rfl
  have hout := startCondition_cons rolls doDamage hfill (hlist.trans hs)
  rw [run, started, hout]
  -- Without a delay the first hit falls on the start, and none of the schedule is gone.
  rcases hdelayed : s.delayed with _ | _
  · have hfirst : s.first = 1 := by
      rw [first, hdelayed]
      rfl
    have hplan : s.plan 1 = [⟨0, s.startTime, info.value⟩] := by
      have hzero : s.reached 1 = 0 := reached_of_le hfirst.ge
      rw [plan, List.range_one, List.map_singleton, planned, hzero, hs]
      simp
    rw [if_neg Bool.false_ne_true]
    -- Only a condition that ends has its entry taken from the list.
    by_cases hinf : s.ticks = -1
    · rw [if_neg (not_not.2 (hticks.2 hinf))]
      refine ⟨rfl, hsteady, hclock, ?_, fun h => absurd hinf (h.resolve_left (by simp [hdelayed])),
        fun _ _ => hkeep⟩
      rw [hfirst, hplan, dealt, hentry]
      rfl
    · rw [if_pos (mt hticks.1 hinf)]
      refine ⟨rfl, ⟨hsteady.conditionType, hsteady.periodDamage⟩,
        ⟨hclock.infinite, hclock.ticks, hclock.ahead, hclock.past⟩, ?_, fun _ => ?_,
        fun _ h => absurd h hinf⟩
      · rw [hfirst, hplan, dealt, hentry]
        rfl
      · rw [hfirst, hs]
        rfl
  · have hfirst : s.first = 0 := by
      rw [first, hdelayed]
      rfl
    rw [if_pos rfl]
    refine ⟨rfl, hsteady, hclock, ?_, fun _ => ?_, fun h => absurd hdelayed (by simp [h])⟩
    · rw [hfirst]
      rfl
    · rw [hkeep, hfirst, List.drop_zero]

end start

/-! ## Stages -/

section stages

variable {s} {fields : ℕ → Option CombatType} {rolls : Rolls} {doDamage : Value → Bool}
  {m k j i : ℕ} {l : List Dealt} {info : IntervalInfo}

/-- The condition has not ended, and an entry waits. -/
structure Waiting (s : Setup) (fields : ℕ → Option CombatType) (m : ℕ) (l : List Dealt) (k i : ℕ)
    (info : IntervalInfo) (r : Running) : Prop where
  ended : r.ended = false
  steady : Steady s r.condition
  clock : Clock s fields k r.condition
  early : ¬s.EndsBy fields k
  log : r.log = l
  waits : Waits s m k i info r.condition

theorem run_succ (hended : (s.run rolls doDamage fields k).ended = false) :
    s.run rolls doDamage fields (k + 1) =
      let now := s.startTime + 1000 * (k + 1 : ℕ)
      let c := (s.run rolls doDamage fields k).condition
      let out := c.executeCondition now thinkInterval (fields (k + 1))
      ⟨out.condition, !out.result,
        (s.run rolls doDamage fields k).log ++ s.dealt c now out⟩ := by
  rw [run]
  dsimp only
  rw [hended, if_neg Bool.false_ne_true]

theorem run_of_ended (hended : (s.run rolls doDamage fields k).ended = true) (hle : k ≤ j) :
    s.run rolls doDamage fields j = s.run rolls doDamage fields k := by
  induction j, hle using Nat.le_induction with
  | base => rfl
  | succ j _ ih =>
    rw [run]
    dsimp only
    rw [ih, hended, if_pos rfl]

theorem Waits.entryOf {c : ConditionDamage} (h : Waits s m k i info c) : s.entryOf c = i := by
  obtain ⟨hlt, -⟩ := List.getElem?_eq_some_iff.1 h.get
  obtain ⟨t, hlist, -⟩ := h.list
  rw [Setup.entryOf, hlist, List.length_cons, List.length_drop]
  omega

section waiting

variable (h : Waiting s fields m l k i info (s.run rolls doDamage fields k))

include h

theorem Waiting.waited :
    Waited s fields m k i info ((s.run rolls doDamage fields k).condition.executeCondition
      (s.startTime + 1000 * (k + 1 : ℕ)) thinkInterval (fields (k + 1))) :=
  h.waits.executeCondition h.steady h.clock

theorem Waiting.ended_succ :
    (s.run rolls doDamage fields (k + 1)).ended = true ↔ s.EndsBy fields (k + 1) := by
  rw [run_succ h.ended]
  dsimp only
  rw [Bool.not_eq_true']
  exact h.waited.result

/-- The clock goes on. -/
theorem Waiting.result (hearly : ¬s.EndsBy fields (k + 1)) :
    ((s.run rolls doDamage fields k).condition.executeCondition
      (s.startTime + 1000 * (k + 1 : ℕ)) thinkInterval (fields (k + 1))).result = true := by
  rw [← Bool.not_eq_false]
  exact mt h.waited.result.1 hearly

theorem Waiting.next (hlt : k + 1 < m + turns info) :
    (s.run rolls doDamage fields (k + 1)).log = l ∧ (¬s.EndsBy fields (k + 1) →
      Waiting s fields m l (k + 1) i info (s.run rolls doDamage fields (k + 1))) := by
  obtain ⟨hdamage, hwaits⟩ := h.waited.wait hlt
  have hlog : (s.run rolls doDamage fields (k + 1)).log = l := by
    rw [run_succ h.ended]
    dsimp only
    rw [dealt, hdamage, h.log]
    exact List.append_nil l
  refine ⟨hlog, fun hearly => ?_⟩
  have hresult := h.result hearly
  refine ⟨?_, ?_, ?_, hearly, hlog, ?_⟩
  · rw [← Bool.not_eq_true]
    exact mt h.ended_succ.1 hearly
  · rw [run_succ h.ended]
    exact h.waited.steady
  · rw [run_succ h.ended]
    exact h.waited.clock hresult
  · rw [run_succ h.ended]
    exact hwaits

theorem Waiting.due (hk : k + 1 = m + turns info) :
    (s.run rolls doDamage fields (k + 1)).log =
      l ++ [⟨i, s.startTime + 1000 * (k + 1 : ℕ), info.value⟩] := by
  rw [run_succ h.ended]
  dsimp only
  rw [dealt, h.waited.due hk, h.log, h.waits.entryOf]
  rfl

theorem Waiting.removed (hk : k + 1 = m + turns info)
    (hremoves : s.removes fields (k + 1) = true) (hearly : ¬s.EndsBy fields (k + 1)) :
    (s.run rolls doDamage fields (k + 1)).ended = false ∧
      Steady s (s.run rolls doDamage fields (k + 1)).condition ∧
      Clock s fields (k + 1) (s.run rolls doDamage fields (k + 1)).condition ∧
      (s.run rolls doDamage fields (k + 1)).condition.damageList = s.schedule.drop (i + 1) := by
  have hresult := h.result hearly
  refine ⟨?_, ?_, ?_, ?_⟩
  · rw [← Bool.not_eq_true]
    exact mt h.ended_succ.1 hearly
  · rw [run_succ h.ended]
    exact h.waited.steady
  · rw [run_succ h.ended]
    exact h.waited.clock hresult
  · rw [run_succ h.ended]
    exact h.waited.removed hk hremoves

theorem Waiting.kept (hk : k + 1 = m + turns info)
    (hremoves : s.removes fields (k + 1) = false) (hearly : ¬s.EndsBy fields (k + 1)) :
    Waiting s fields (k + 1) (l ++ [⟨i, s.startTime + 1000 * (k + 1 : ℕ), info.value⟩]) (k + 1) i
      info (s.run rolls doDamage fields (k + 1)) := by
  have hresult := h.result hearly
  refine ⟨?_, ?_, ?_, hearly, h.due hk, ?_⟩
  · rw [← Bool.not_eq_true]
    exact mt h.ended_succ.1 hearly
  · rw [run_succ h.ended]
    exact h.waited.steady
  · rw [run_succ h.ended]
    exact h.waited.clock hresult
  · rw [run_succ h.ended]
    exact h.waited.kept hk hremoves

end waiting

/-- Until its interval is over, an entry waits, or the condition has ended. -/
theorem Waiting.until (h : Waiting s fields m l m i info (s.run rolls doDamage fields m))
    (hle : m ≤ k) (hlt : k < m + turns info) :
    (s.run rolls doDamage fields k).log = l ∧
      (s.EndsBy fields k → (s.run rolls doDamage fields k).ended = true) ∧
      (¬s.EndsBy fields k → Waiting s fields m l k i info (s.run rolls doDamage fields k)) := by
  induction k, hle using Nat.le_induction with
  | base => exact ⟨h.log, fun hends => absurd hends h.early, fun _ => h⟩
  | succ k hk ih =>
    obtain ⟨hlog, hended, hwaiting⟩ := ih (by omega)
    by_cases hends : s.EndsBy fields k
    · have hsame := run_of_ended (hended hends) (Nat.le_succ k)
      rw [hsame]
      exact ⟨hlog, fun _ => hended hends, fun hearly => absurd (endsBy_mono hends) hearly⟩
    · have hwaits := hwaiting hends
      exact ⟨(hwaits.next hlt).1, hwaits.ended_succ.2, (hwaits.next hlt).2⟩

/-- A condition that has not ended before deals the damage when the interval is over. -/
theorem Waiting.last (h : Waiting s fields m l m i info (s.run rolls doDamage fields m))
    (hearly : ¬s.EndsBy fields (m + turns info - 1)) :
    Waiting s fields m l (m + turns info - 1) i info
        (s.run rolls doDamage fields (m + turns info - 1)) ∧
      m + turns info - 1 + 1 = m + turns info := by
  have hpos := turns_pos h.waits.get
  exact ⟨(h.until (by omega) (by omega)).2.2 hearly, by omega⟩

/-- An entry that has been dealt, and was not removed, is dealt again unless the condition ends. -/
theorem Waiting.again (h : Waiting s fields m (s.plan (i + 1)) m i info
      (s.run rolls doDamage fields m)) (hdelivered : s.Delivered rolls doDamage fields) :
    s.EndsBy fields (m + turns info - 1) ∧ s.schedule.length = i + 1 := by
  have hpos := turns_pos h.waits.get
  have hends : s.EndsBy fields (m + turns info - 1) := by
    by_contra hearly
    obtain ⟨hlast, hk⟩ := h.last hearly
    have honce := hdelivered.once (m + turns info - 1 + 1)
    rw [hlast.due hk, List.map_append, List.length_append, length_plan, entries_plan,
      List.length_singleton, @List.range_succ (i + 1), List.map_singleton] at honce
    have heq := List.head_eq_of_cons_eq (List.append_cancel_left honce)
    dsimp only at heq
    omega
  refine ⟨hends, ?_⟩
  obtain ⟨hlog, hended, -⟩ := h.until (k := m + turns info - 1) (by omega) (by omega)
  have hall := congrArg List.length (hdelivered.ended _ (hended hends))
  rw [hlog, List.length_map, List.length_map, length_plan] at hall
  exact hall.symm

end stages

/-! ## Without fields -/

section noField

variable {s}

end noField

/-! ## Delivery -/

section delivery

variable {s} {fields : ℕ → Option CombatType} {rolls : Rolls} {doDamage : Value → Bool} {k i : ℕ}

/-- All entries before have been dealt as planned, and the next one begins. -/
def Stage (s : Setup) (fields : ℕ → Option CombatType) (i : ℕ) (run : ℕ → Running) : Prop :=
  ∃ info, Waiting s fields (s.reached i) (s.plan i) (s.reached i) i info (run (s.reached i))

theorem waiting_of_drop {r : Running} {m : ℕ} (hi : i < s.schedule.length)
    (hended : r.ended = false) (hsteady : Steady s r.condition) (hclock : Clock s fields m r.condition)
    (hearly : ¬s.EndsBy fields m) (hlist : r.condition.damageList = s.schedule.drop i) :
    Waiting s fields m r.log m i s.schedule[i] r :=
  ⟨hended, hsteady, hclock, hearly, rfl, waits_drop (List.getElem?_eq_getElem hi) hlist⟩

/-- The stage that the start leaves. -/
theorem Begun.stage (h : Begun s fields (s.run rolls doDamage fields 0))
    (hstarts : s.delayed = true ∨ s.ticks ≠ -1) (hlt : s.first < s.schedule.length) :
    Stage s fields s.first (s.run rolls doDamage fields) := by
  have hwaiting := waiting_of_drop hlt h.ended h.steady h.clock not_endsBy_zero (h.list hstarts)
  rw [h.log] at hwaiting
  refine ⟨s.schedule[s.first], ?_⟩
  rw [reached_of_le le_rfl]
  exact hwaiting

/-- What the last call of a stage leaves. -/
structure Staged (s : Setup) (fields : ℕ → Option CombatType) (i : ℕ) (run : ℕ → Running) :
    Prop where
  lt : s.reached i < s.reached (i + 1)
  before : ∀ k, s.reached i ≤ k → k < s.reached (i + 1) →
    (run k).ended = false ∧ (run k).log = s.plan i
  log : (run (s.reached (i + 1))).log = s.plan (i + 1)
  ended : s.EndsBy fields (s.reached (i + 1)) → (run (s.reached (i + 1))).ended = true
  removed : ¬s.EndsBy fields (s.reached (i + 1)) →
    s.removes fields (s.reached (i + 1)) = true →
      (run (s.reached (i + 1))).ended = false ∧ Steady s (run (s.reached (i + 1))).condition ∧
      Clock s fields (s.reached (i + 1)) (run (s.reached (i + 1))).condition ∧
      (run (s.reached (i + 1))).condition.damageList = s.schedule.drop (i + 1)
  kept : ¬s.EndsBy fields (s.reached (i + 1)) →
    s.removes fields (s.reached (i + 1)) = false → ∃ info, s.schedule[i]? = some info ∧
      Waiting s fields (s.reached (i + 1)) (s.plan (i + 1)) (s.reached (i + 1)) i info
        (run (s.reached (i + 1)))

theorem Stage.staged (h : Stage s fields i (s.run rolls doDamage fields)) (hi : s.first ≤ i)
    (hearly : ¬s.EndsBy fields (s.reached (i + 1) - 1)) :
    Staged s fields i (s.run rolls doDamage fields) := by
  obtain ⟨info, h⟩ := h
  have hget := h.waits.get
  have hsucc := reached_succ hi hget
  have hpos := turns_pos hget
  rw [hsucc] at hearly
  obtain ⟨hlast, hk⟩ := h.last hearly
  rw [← hsucc] at hlast hk
  have hplan : s.plan (i + 1) = s.plan i ++
      [⟨i, s.startTime + 1000 * (s.reached (i + 1) : ℕ), info.value⟩] := by
    obtain ⟨hlt, rfl⟩ := List.getElem?_eq_some_iff.1 hget
    rw [plan_succ, planned, List.getD_eq_getElem?_getD, List.getElem?_map, hget]
    rfl
  have hdue := hlast.due (hk.trans hsucc)
  have hended := hlast.ended_succ
  have hremoved := hlast.removed (hk.trans hsucc)
  have hkept := hlast.kept (hk.trans hsucc)
  rw [hk] at hdue hended hremoved hkept
  rw [← hplan] at hdue hkept
  exact
    { lt := by omega
      before := fun k hle hlt => by
        obtain ⟨hlog, -, hwaiting⟩ := h.until hle (by omega)
        exact ⟨(hwaiting (not_endsBy_of_le hearly (by omega))).ended, hlog⟩
      log := hdue
      ended := hended.2
      removed := fun hearly hremoves => hremoved hremoves hearly
      kept := fun hearly hremoves => ⟨info, hget, hkept hremoves hearly⟩ }

theorem Staged.stage (h : Staged s fields i (s.run rolls doDamage fields))
    (hearly : ¬s.EndsBy fields (s.reached (i + 1)))
    (hremoves : s.removes fields (s.reached (i + 1)) = true) (hlt : i + 1 < s.schedule.length) :
    Stage s fields (i + 1) (s.run rolls doDamage fields) := by
  obtain ⟨hended, hsteady, hclock, hlist⟩ := h.removed hearly hremoves
  have hwaiting := waiting_of_drop hlt hended hsteady hclock hearly hlist
  rw [h.log] at hwaiting
  exact ⟨s.schedule[i + 1], hwaiting⟩

theorem reached_lt (hi : s.first ≤ i) (hlt : i < s.schedule.length) :
    s.reached i < s.reached (i + 1) := by
  have hget := List.getElem?_eq_getElem hlt
  have hpos := turns_pos hget
  rw [reached_succ hi hget]
  omega

/-- When nothing is left on the list, nothing is dealt. -/
theorem log_of_nil {m : ℕ} (hsteady : Steady s (s.run rolls doDamage fields m).condition)
    (hlist : (s.run rolls doDamage fields m).condition.damageList = []) (hle : m ≤ k) :
    (s.run rolls doDamage fields k).log = (s.run rolls doDamage fields m).log ∧
      Steady s (s.run rolls doDamage fields k).condition ∧
      (s.run rolls doDamage fields k).condition.damageList = [] := by
  induction k, hle using Nat.le_induction with
  | base => exact ⟨rfl, hsteady, hlist⟩
  | succ k _ ih =>
    obtain ⟨hlog, hsteady, hlist⟩ := ih
    rcases hended : (s.run rolls doDamage fields k).ended with _ | _
    · rw [run_succ hended]
      dsimp only
      rw [executeCondition_nil hsteady.periodDamage hlist, dealt, damageList_execute]
      exact ⟨(List.append_nil _).trans hlog, hsteady.execute _ _, hlist⟩
    · rw [run_of_ended hended (Nat.le_succ k)]
      exact ⟨hlog, hsteady, hlist⟩

/-- An entry that is left is not dealt again, if the condition ends before. -/
theorem log_of_kept {m : ℕ} {l : List Dealt} {info : IntervalInfo}
    (h : Waiting s fields m l m i info (s.run rolls doDamage fields m))
    (hends : s.EndsBy fields (m + turns info - 1)) (hle : m ≤ k) :
    (s.run rolls doDamage fields k).log = l := by
  have hpos := turns_pos h.waits.get
  obtain ⟨hlog, hended, -⟩ := h.until (k := m + turns info - 1) (by omega) (by omega)
  rcases lt_or_ge k (m + turns info) with hlt | hge
  · exact (h.until hle hlt).1
  · rw [run_of_ended (hended hends) (by omega)]
    exact hlog

section onTime

variable (hbegun : Begun s fields (s.run rolls doDamage fields 0)) (h : s.OnTime fields)

include hbegun h

theorem OnTime.staged (hi : s.first ≤ i) (hlt : i < s.schedule.length) :
    Staged s fields i (s.run rolls doDamage fields) := by
  have hearly : ∀ j, j < s.schedule.length → s.first ≤ j →
      ¬s.EndsBy fields (s.reached (j + 1) - 1) := fun j hj hfirst =>
    not_endsBy_of_le (h.inTime (by omega)) (Nat.sub_le_sub_right (reached_mono (by omega)) 1)
  have hstage : Stage s fields i (s.run rolls doDamage fields) := by
    induction i, hi using Nat.le_induction with
    | base => exact hbegun.stage h.starts hlt
    | succ i hi ih =>
      have hstaged := (ih (by omega)).staged hi (hearly i (by omega) hi)
      -- The call with which a stage begins is not the last of the run.
      have hlater := reached_lt (s := s) (by omega : s.first ≤ i + 1) hlt
      have hnot := not_endsBy_of_le (hearly (i + 1) hlt (by omega))
        (by omega : s.reached (i + 1) ≤ s.reached (i + 1 + 1) - 1)
      exact hstaged.stage hnot (h.removed i hi hlt) hlt
  exact hstage.staged hi (hearly i hlt hi)

/-- After the last stage nothing is dealt. -/
theorem OnTime.final (hne : s.first ≤ s.schedule.length) (hle : s.reached s.schedule.length ≤ k) :
    (s.run rolls doDamage fields k).log = s.plan s.schedule.length := by
  rcases hne.lt_or_eq with hlt | heq
  · obtain ⟨i, hi⟩ : ∃ i, s.schedule.length = i + 1 := ⟨s.schedule.length - 1, by omega⟩
    have hstaged := h.staged hbegun (by omega : s.first ≤ i) (by omega)
    have hlast := h.last
    rw [hi] at hle hlast ⊢
    by_cases hends : s.EndsBy fields (s.reached (i + 1))
    · rw [run_of_ended (hstaged.ended hends) hle]
      exact hstaged.log
    · rcases hremoves : s.removes fields (s.reached (i + 1)) with _ | _
      · obtain ⟨info, hget, hwaiting⟩ := hstaged.kept hends hremoves
        have hgetLast : s.schedule.getLast? = some info := by
          rw [List.getLast?_eq_getElem?, hi]
          exact hget
        have hends' := (hlast info (by omega) hgetLast).resolve_left (by simp [hremoves])
        exact log_of_kept hwaiting hends' hle
      · obtain ⟨-, hsteady, -, hlist⟩ := hstaged.removed hends hremoves
        rw [List.drop_of_length_le hi.le] at hlist
        rw [(log_of_nil hsteady hlist hle).1]
        exact hstaged.log
  · -- Everything has been dealt at the start.
    have hlist := hbegun.list h.starts
    rw [List.drop_of_length_le heq.ge] at hlist
    rw [(log_of_nil hbegun.steady hlist k.zero_le).1, hbegun.log, heq]

/-- Up to the last stage, the condition has not ended. -/
theorem OnTime.before (hi : s.first ≤ i) (hle : i ≤ s.schedule.length) (hlt : k < s.reached i) :
    (s.run rolls doDamage fields k).ended = false ∧
      ∃ j ≤ s.schedule.length, (s.run rolls doDamage fields k).log = s.plan j := by
  induction i, hi using Nat.le_induction with
  | base =>
    rw [reached_of_le le_rfl] at hlt
    exact absurd hlt k.not_lt_zero
  | succ i hi ih =>
    rcases lt_or_ge k (s.reached i) with hbefore | hafter
    · exact ih (by omega) hbefore
    · obtain ⟨hended, hlog⟩ := (h.staged hbegun hi hle).before k hafter hlt
      exact ⟨hended, i, by omega, hlog⟩

theorem OnTime.delivered (hne : s.first ≤ s.schedule.length) :
    s.Delivered rolls doDamage fields := by
  have hplan : ∀ k, ∃ j ≤ s.schedule.length,
      (s.run rolls doDamage fields k).log = s.plan j := fun k => by
    rcases lt_or_ge k (s.reached s.schedule.length) with hlt | hge
    · exact (h.before hbegun hne le_rfl hlt).2
    · exact ⟨s.schedule.length, le_rfl, h.final hbegun hne hge⟩
  refine ⟨fun k => ?_, fun k => ?_, ⟨s.reached s.schedule.length, ?_⟩,
    fun k i d d' info hd hd' hget => ?_, fun k hended => ?_⟩
  · obtain ⟨j, -, hlog⟩ := hplan k
    rw [hlog, entries_plan, length_plan]
  · obtain ⟨j, hj, hlog⟩ := hplan k
    rw [hlog, values_plan hj]
    exact List.take_prefix _ _
  · rw [h.final hbegun hne le_rfl, values_plan_all]
  · obtain ⟨j, -, hlog⟩ := hplan k
    rw [hlog] at hd hd'
    obtain rfl := getElem?_plan hd
    obtain rfl := getElem?_plan hd'
    have hinterval := le_turns hget
    have hfirst := s.first_le_one
    dsimp only [planned]
    rw [reached_succ (by omega : s.first ≤ i + 1) hget]
    omega
  · rcases lt_or_ge k (s.reached s.schedule.length) with hlt | hge
    · have hrunning := (h.before hbegun hne le_rfl hlt).1
      exact absurd (hrunning.symm.trans hended) Bool.false_ne_true
    · rw [h.final hbegun hne hge, values_plan_all]

end onTime

section delivered

variable (hbegun : Begun s fields (s.run rolls doDamage fields 0))
  (h : s.Delivered rolls doDamage fields)

include h in
/-- A condition that has ended has dealt everything. -/
theorem Delivered.length (hended : (s.run rolls doDamage fields k).ended = true)
    (hlog : (s.run rolls doDamage fields k).log = s.plan i) : i = s.schedule.length := by
  have hall := congrArg List.length (h.ended k hended)
  rw [hlog, List.length_map, List.length_map, length_plan] at hall
  exact hall

include h in
/-- A stage is over before the condition ends. -/
theorem Delivered.early (hstage : Stage s fields i (s.run rolls doDamage fields))
    (hi : s.first ≤ i) (hlt : i < s.schedule.length) :
    ¬s.EndsBy fields (s.reached (i + 1) - 1) := by
  intro hends
  obtain ⟨info, hwaiting⟩ := hstage
  have hget := hwaiting.waits.get
  have hpos := turns_pos hget
  rw [reached_succ hi hget] at hends
  obtain ⟨hlog, hended, -⟩ := hwaiting.until
    (k := s.reached i + turns info - 1) (by omega) (by omega)
  have := h.length (hended hends) hlog
  omega

include h in
theorem Delivered.removes (hstaged : Staged s fields i (s.run rolls doDamage fields))
    (hlt : i + 1 < s.schedule.length) :
    ¬s.EndsBy fields (s.reached (i + 1)) ∧ s.removes fields (s.reached (i + 1)) = true := by
  have hearly : ¬s.EndsBy fields (s.reached (i + 1)) := fun hends => by
    have := h.length (hstaged.ended hends) hstaged.log
    omega
  refine ⟨hearly, ?_⟩
  by_contra hkept
  obtain ⟨info, -, hwaiting⟩ := hstaged.kept hearly (Bool.not_eq_true _ ▸ hkept)
  have := (hwaiting.again h).2
  omega

include hbegun h

/-- The first damage is not dealt at the start and again later. -/
theorem Delivered.starts (hne : 0 < s.schedule.length) : s.delayed = true ∨ s.ticks ≠ -1 := by
  by_contra hnot
  rw [not_or, not_not, Bool.not_eq_true] at hnot
  obtain ⟨hdelayed, hinf⟩ := hnot
  have hfirst : s.first = 1 := by
    rw [first, hdelayed]
    rfl
  have hwaiting := waiting_of_drop hne hbegun.ended hbegun.steady hbegun.clock not_endsBy_zero
    (hbegun.kept hdelayed hinf)
  rw [hbegun.log, hfirst] at hwaiting
  exact (hwaiting.again h).1.2.1 hinf

theorem Delivered.stage (hi : s.first ≤ i) (hlt : i < s.schedule.length) :
    Stage s fields i (s.run rolls doDamage fields) := by
  induction i, hi using Nat.le_induction with
  | base => exact hbegun.stage (h.starts hbegun (by omega)) hlt
  | succ i hi ih =>
    have hstage := ih (by omega)
    have hstaged := hstage.staged hi (h.early hstage hi (by omega))
    obtain ⟨hearly, hremoves⟩ := h.removes hstaged hlt
    exact hstaged.stage hearly hremoves hlt

theorem Delivered.onTime (hne : 0 < s.schedule.length) : s.OnTime fields := by
  refine ⟨h.starts hbegun hne, fun i hi hlt => ?_, fun hlt => ?_, fun info hlt hlast => ?_⟩
  · have hstage := h.stage hbegun hi (by omega)
    exact (h.removes (hstage.staged hi (h.early hstage hi (by omega))) hlt).2
  · obtain ⟨i, hi⟩ : ∃ i, s.schedule.length = i + 1 := ⟨s.schedule.length - 1, by omega⟩
    have hearly := h.early (h.stage hbegun (by omega : s.first ≤ i) (by omega)) (by omega)
      (by omega)
    rw [hi]
    exact hearly
  · obtain ⟨i, hi⟩ : ∃ i, s.schedule.length = i + 1 := ⟨s.schedule.length - 1, by omega⟩
    have hstage := h.stage hbegun (by omega : s.first ≤ i) (by omega)
    have hstaged := hstage.staged (by omega) (h.early hstage (by omega) (by omega))
    have hget : s.schedule[i]? = some info := by
      rw [← hlast, List.getLast?_eq_getElem?, hi, Nat.add_sub_cancel]
    have hpos := turns_pos hget
    rw [hi]
    by_cases hends : s.EndsBy fields (s.reached (i + 1))
    · refine Or.inr (by_contra fun hnot => ?_)
      exact not_endsBy_of_le hnot (by omega) hends
    · rcases hremoves : s.removes fields (s.reached (i + 1)) with _ | _
      · obtain ⟨info', hget', hwaiting⟩ := hstaged.kept hends hremoves
        obtain rfl := Option.some.inj (hget.symm.trans hget')
        exact Or.inr (hwaiting.again h).1
      · exact Or.inl rfl

end delivered

variable (s rolls doDamage fields)

theorem delivered_iff (hrounds : ∀ call ∈ s.calls, 0 ≤ call.rounds.toInt)
    (hstart : (s.started rolls doDamage).result = true) :
    s.Delivered rolls doDamage fields ↔ s.OnTime fields := by
  obtain ⟨info, rest, hs⟩ := exists_schedule_eq hrounds hstart
  have hbegun : Begun s fields (s.run rolls doDamage fields 0) := begun_run hrounds hstart
  have hne : 0 < s.schedule.length := by
    rw [hs]
    exact Nat.succ_pos _
  refine ⟨fun h => h.onTime hbegun hne, fun h => h.delivered hbegun ?_⟩
  exact s.first_le_one.trans hne

/-- Damage after one second and after two more. -/
def burning : Setup :=
  { conditionType := .fire
    delayed := true
    made := 0
    calls := [⟨0, 1, 1000, -20⟩, ⟨0, 1, 2000, -10⟩]
    wait := 0 }

/-- Nothing is random. -/
def noRolls : Rolls := ⟨fun low _ => low, fun _ => rfl, fun _ _ => []⟩

theorem burning_delivered_iff :
    burning.Delivered noRolls (fun _ => true) (fun _ => none) ↔
      burning.OnTime fun _ => none :=
  delivered_iff burning (fun _ => none) noRolls (fun _ => true) (by decide) (by decide)

/-- Three times a second and a half: each is late by half a second, and the condition has ended
    before the last is over. -/
def halves : Setup :=
  { conditionType := .fire
    delayed := true
    made := 0
    calls := [⟨0, 3, 1500, -10⟩]
    wait := 0 }

theorem halves_not_delivered :
    (halves.started noRolls fun _ => true).result = true ∧
      (halves.run noRolls (fun _ => true) (fun _ => none) 5).ended = true ∧
      (halves.run noRolls (fun _ => true) (fun _ => none) 5).log = [⟨0, 2000, -10⟩, ⟨1, 4000, -10⟩] ∧
      ¬halves.Delivered noRolls (fun _ => true) fun _ => none := by
  refine ⟨by decide, by decide, by decide, fun h => ?_⟩
  have hall := h.ended 5 (by decide)
  exact absurd hall (by decide)

end delivery

end Setup

end Canary.Conditions
