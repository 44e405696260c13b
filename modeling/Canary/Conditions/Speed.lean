import Canary.Lib.Contributions
import Mathlib.Algebra.Order.Group.Int
import Mathlib.Algebra.BigOperators.Group.List.Lemmas
import Mathlib.Data.List.Induction

/-!
# Speed

The speed of a creature is its base and a variation, to which conditions and other changes add
their deltas, and take them back at their end. It is kept as the base and the variation, but read
as a `uint16_t`, from which `changeSpeed` gets the variation back. And `setSpeed` does nothing once
the greatest speed is reached.

So in a run the variation is the sum of the deltas in force, and the speed what they give, exactly
if this sum with the base always fits in 16 bits, and nothing is changed from the greatest speed on
(`speed_exact_iff`).

The base is that of the whole run. What follows from a new speed for the steps of the creature is
left out. `uniform_random` between the values of the formula is an argument of what calls it.
-/

namespace Canary.Conditions.Speed

open Contributions

/-- `int32_t` -/
def int32 (x : ℤ) : ℤ := (x + 2 ^ 31) % 2 ^ 32 - 2 ^ 31

/-- `uint16_t` -/
def uint16 (x : ℤ) : ℤ := x % 2 ^ 16

/-- `PLAYER_MAX_SPEED` -/
def maxSpeed : ℤ := 65535

structure Creature where
  baseSpeed : UInt16
  varSpeed : ℤ
  deriving DecidableEq

namespace Creature

variable (c : Creature)

def getBaseSpeed : ℤ := c.baseSpeed.toNat

def getSpeed : ℤ := uint16 (c.getBaseSpeed + c.varSpeed)

def setSpeed (varSpeedDelta : ℤ) : Creature :=
  if c.getSpeed ≥ maxSpeed then c else { c with varSpeed := varSpeedDelta }

/-- `Game::changeSpeed` -/
def changeSpeed (varSpeedDelta : ℤ) : Creature :=
  c.setSpeed (int32 (c.getSpeed - c.getBaseSpeed + varSpeedDelta))

end Creature

/-! ## Conditions -/

inductive ConditionType
  | haste | paralyze
  deriving DecidableEq

structure ConditionSpeed where
  conditionType : ConditionType
  ticks : ℤ
  speedDelta : ℤ
  deriving DecidableEq

/-- The delta, by the formula if it is 0. -/
def ConditionSpeed.formula (c : ConditionSpeed) (baseSpeed random : ℤ) : ConditionSpeed :=
  if c.speedDelta = 0 then
    let speedDelta := random - baseSpeed
    { c with speedDelta :=
        if c.conditionType = .paralyze ∧ speedDelta < 40 - baseSpeed then 40 - baseSpeed
        else speedDelta }
  else c

/-- What is in force: a condition, or a change that will be taken back. -/
inductive Force
  | condition (c : ConditionSpeed)
  | change (delta : ℤ)
  deriving DecidableEq

def Force.delta : Force → ℤ
  | condition c => c.speedDelta
  | change delta => delta

inductive Event
  | startCondition (c : ConditionSpeed) (random : ℤ)
  | addCondition (i : ℕ) (c : ConditionSpeed) (random : ℤ)
  | endCondition (i : ℕ)
  | changeSpeed (delta : ℤ)
  /-- The opposite of an earlier change. -/
  | undo (i : ℕ)

/-- The change of the speed that is asked for, if any, and what is in force then. -/
def Event.apply (baseSpeed : ℤ) (force : List Force) : Event → Option ℤ × List Force
  | startCondition c random =>
    let c := c.formula baseSpeed random
    (some c.speedDelta, force ++ [.condition c])
  | addCondition i c random =>
    match force[i]? with
    | some (.condition prev) =>
      if prev.conditionType ≠ c.conditionType then (none, force)
      else if prev.ticks = -1 ∧ c.ticks > 0 then (none, force)
      else
        let c := c.formula baseSpeed random
        let newSpeedChange := int32 (c.speedDelta - prev.speedDelta)
        (if newSpeedChange ≠ 0 then some newSpeedChange else none, force.set i (.condition c))
    | _ => (none, force)
  | endCondition i =>
    match force[i]? with
    | some (.condition c) => (some (int32 (-c.speedDelta)), force.eraseIdx i)
    | _ => (none, force)
  | changeSpeed delta => (some delta, force ++ [.change delta])
  | undo i =>
    match force[i]? with
    | some (.change delta) => (some (int32 (-delta)), force.eraseIdx i)
    | _ => (none, force)

/-! ## Runs -/

structure State where
  creature : Creature
  force : List Force
  deriving DecidableEq

def State.step (s : State) (e : Event) : State :=
  let (change, force) := e.apply s.creature.getBaseSpeed s.force
  { creature := (change.map s.creature.changeSpeed).getD s.creature, force }

/-- What comes of events, from a creature with nothing in force. -/
def run (baseSpeed : UInt16) (events : List Event) : State :=
  events.foldl State.step ⟨⟨baseSpeed, 0⟩, []⟩

/-- What is in force after events, whatever the speed is. -/
def forceAfter (baseSpeed : UInt16) (events : List Event) : List Force :=
  events.foldl (fun force e => (e.apply baseSpeed.toNat force).2) []

def total (force : List Force) : ℤ := (force.map Force.delta).sum

namespace State

/-- The variation is the sum of the deltas in force, and the speed what they give. -/
def Exact (s : State) : Prop :=
  s.creature.varSpeed = total s.force ∧
    s.creature.getSpeed = s.creature.getBaseSpeed + s.creature.varSpeed

end State

/-- The speed that is meant fits in 16 bits. -/
def InRange (baseSpeed : UInt16) (force : List Force) : Prop :=
  0 ≤ baseSpeed.toNat + total force ∧ baseSpeed.toNat + total force ≤ maxSpeed

/-! ## One event -/

theorem dvd_int32 (x : ℤ) : (2 : ℤ) ^ 32 ∣ int32 x - x := by
  unfold int32
  omega

/-- A number that fits is found again. -/
theorem int32_eq {x y : ℤ} (h : (2 : ℤ) ^ 32 ∣ x - y) (hlow : -2 ^ 31 ≤ y) (hhigh : y < 2 ^ 31) :
    int32 x = y := by
  unfold int32
  omega

theorem total_append (force : List Force) (f : Force) :
    total (force ++ [f]) = total force + f.delta := by
  simp [total]

theorem total_eraseIdx {force : List Force} {i : ℕ} {f : Force} (h : force[i]? = some f) :
    total (force.eraseIdx i) = total force - f.delta := by
  obtain ⟨hi, rfl⟩ := List.getElem?_eq_some_iff.1 h
  have haccounted : Accounted Force.delta 0 (total force) force := (zero_add _).symm
  have herase := haccounted.eraseIdx hi
  rw [Accounted, zero_add] at herase
  exact herase.symm

theorem total_set {force : List Force} {i : ℕ} {f g : Force} (h : force[i]? = some f) :
    total (force.set i g) = total force - f.delta + g.delta := by
  obtain ⟨hi, rfl⟩ := List.getElem?_eq_some_iff.1 h
  have haccounted : Accounted Force.delta 0 (total force) force := (zero_add _).symm
  have hset := haccounted.set hi g
  rw [Accounted, zero_add] at hset
  exact hset.symm

/-- What is asked for is the difference in what is in force, as far as 32 bits tell. -/
theorem dvd_apply (baseSpeed : ℤ) (force : List Force) (e : Event) :
    (2 : ℤ) ^ 32 ∣ (e.apply baseSpeed force).1.getD 0 -
      (total (e.apply baseSpeed force).2 - total force) := by
  cases e with
  | startCondition c random => simp [Event.apply, total_append, Force.delta]
  | addCondition i c random =>
    simp only [Event.apply]
    split
    · rename_i prev hi
      split
      · simp
      · split
        · simp
        · rw [total_set hi]
          have hdvd := dvd_int32 ((c.formula baseSpeed random).speedDelta - prev.speedDelta)
          simp only [Force.delta]
          split
          · rw [Option.getD_some]
            omega
          -- A difference of 0 in 32 bits is not asked for.
          · rename_i hzero
            rw [not_not.1 hzero] at hdvd
            rw [Option.getD_none]
            omega
    · simp
  | endCondition i =>
    simp only [Event.apply]
    split
    · rename_i c hi
      have hdvd := dvd_int32 (-c.speedDelta)
      rw [total_eraseIdx hi, Option.getD_some, Force.delta]
      omega
    · simp
  | changeSpeed delta => simp [Event.apply, total_append, Force.delta]
  | undo i =>
    simp only [Event.apply]
    split
    · rename_i delta hi
      have hdvd := dvd_int32 (-delta)
      rw [total_eraseIdx hi, Option.getD_some, Force.delta]
      omega
    · simp

namespace State

variable {s : State}

theorem baseSpeed_step (e : Event) : (s.step e).creature.baseSpeed = s.creature.baseSpeed := by
  simp only [step]
  cases (e.apply s.creature.getBaseSpeed s.force).1 with
  | none => rfl
  | some delta =>
    simp only [Option.map_some, Option.getD_some, Creature.changeSpeed, Creature.setSpeed]
    split <;> rfl

theorem force_step (e : Event) :
    (s.step e).force = (e.apply s.creature.getBaseSpeed s.force).2 := rfl

/-- The speed is what the variation gives if this fits. -/
theorem exact_iff : s.Exact ↔
    s.creature.varSpeed = total s.force ∧ InRange s.creature.baseSpeed s.force := by
  unfold Exact Creature.getSpeed Creature.getBaseSpeed uint16 InRange maxSpeed
  refine and_congr_right fun h => ?_
  rw [h]
  omega

/-- One event keeps to the deltas in force if the speed that is meant still fits, and the greatest
speed is not changed. -/
theorem exact_step_iff (h : s.Exact) (e : Event) :
    (s.step e).Exact ↔ InRange s.creature.baseSpeed (s.step e).force ∧
      (s.creature.baseSpeed.toNat + total s.force = maxSpeed →
        total (s.step e).force = total s.force) := by
  obtain ⟨hvar, hlow, hhigh⟩ := exact_iff.1 h
  have hbase : (s.creature.baseSpeed.toNat : ℤ) = s.creature.getBaseSpeed := rfl
  have hbase_nonneg : 0 ≤ s.creature.getBaseSpeed := Int.natCast_nonneg _
  have hbase_le : s.creature.getBaseSpeed < 2 ^ 16 := by
    have hlt := s.creature.baseSpeed.toNat_lt
    unfold Creature.getBaseSpeed
    omega
  -- While the deltas are exact, the 16 bits of `getSpeed` lose nothing.
  have hspeed : s.creature.getSpeed = s.creature.getBaseSpeed + total s.force := by
    rw [h.2, hvar]
  have hdvd := dvd_apply s.creature.getBaseSpeed s.force e
  rw [exact_iff, baseSpeed_step, and_comm]
  unfold InRange
  rw [hbase] at hlow hhigh ⊢
  refine and_congr_right fun ⟨hlow', hhigh'⟩ => ?_
  simp only [step] at hlow' hhigh' ⊢
  unfold maxSpeed at hhigh hhigh' ⊢
  generalize total (e.apply s.creature.getBaseSpeed s.force).2 = total' at *
  cases hchange : (e.apply s.creature.getBaseSpeed s.force).1 with
  | none =>
    rw [hchange] at hdvd
    simp only [Option.map_none, Option.getD_none] at hdvd ⊢
    rw [hvar]
    omega
  | some delta =>
    rw [hchange] at hdvd
    simp only [Option.map_some, Option.getD_some, Creature.changeSpeed, Creature.setSpeed, hspeed,
      maxSpeed] at hdvd ⊢
    split
    · rw [hvar]
      omega
    · rename_i hlt
      -- Below the greatest speed the change is stored as it was asked for.
      have hnew : int32 (s.creature.getBaseSpeed + total s.force - s.creature.getBaseSpeed +
          delta) = total' :=
        int32_eq (by omega) (by omega) (by omega)
      simp only [hnew]
      exact iff_of_true trivial fun hmax => absurd hmax.ge hlt

end State

/-! ## All events -/

theorem run_append (baseSpeed : UInt16) (done : List Event) (e : Event) :
    run baseSpeed (done ++ [e]) = (run baseSpeed done).step e := by
  rw [run, List.foldl_append]
  rfl

theorem forceAfter_append (baseSpeed : UInt16) (done : List Event) (e : Event) :
    forceAfter baseSpeed (done ++ [e]) = (e.apply baseSpeed.toNat (forceAfter baseSpeed done)).2 := by
  rw [forceAfter, List.foldl_append]
  rfl

theorem run_spec (baseSpeed : UInt16) (events : List Event) :
    (run baseSpeed events).creature.baseSpeed = baseSpeed ∧
      (run baseSpeed events).force = forceAfter baseSpeed events := by
  induction events using List.reverseRecOn with
  | nil => exact ⟨rfl, rfl⟩
  | append_singleton done e ih =>
    obtain ⟨hbase, hforce⟩ := ih
    rw [run_append, forceAfter_append, State.baseSpeed_step, State.force_step, hforce,
      Creature.getBaseSpeed, hbase]
    exact ⟨rfl, rfl⟩

/-- In every state of a run the variation is the sum of the deltas in force, and the speed what they
give, exactly if that always fits, and nothing is changed from the greatest speed on. -/
theorem speed_exact_iff (baseSpeed : UInt16) (events : List Event) :
    (∀ done, done <+: events → (run baseSpeed done).Exact) ↔
      ∀ done, done <+: events → InRange baseSpeed (forceAfter baseSpeed done) ∧
        ∀ e, done ++ [e] <+: events →
          baseSpeed.toNat + total (forceAfter baseSpeed done) = maxSpeed →
            total (forceAfter baseSpeed (done ++ [e])) = total (forceAfter baseSpeed done) := by
  have hbase (done : List Event) := (run_spec baseSpeed done).1
  have hforce (done : List Event) := (run_spec baseSpeed done).2
  constructor
  · intro h done hdone
    have hexact := h done hdone
    refine ⟨?_, fun e he hmax => ?_⟩
    · have hrange := (State.exact_iff.1 hexact).2
      rw [hbase, hforce] at hrange
      exact hrange
    · have hnext := h _ he
      rw [run_append, State.exact_step_iff hexact, ← run_append, hbase, hforce, hforce] at hnext
      exact hnext.2 hmax
  · intro h done
    induction done using List.reverseRecOn with
    | nil =>
      intro hdone
      refine State.exact_iff.2 ⟨rfl, ?_⟩
      exact (h [] hdone).1
    | append_singleton done e ih =>
      intro hdone
      have hprefix := (List.prefix_append done [e]).trans hdone
      rw [run_append, State.exact_step_iff (ih hprefix), ← run_append, hbase, hforce, hforce]
      exact ⟨(h _ hdone).1, (h done hprefix).2 e hdone⟩

/-- A creature of speed 110 is paralyzed by 200, and the variation is 2^16 when that ends. -/
theorem paralyze_wraps :
    (run 110 [.startCondition ⟨.paralyze, 4000, -200⟩ 0]).creature.getSpeed = 65446 ∧
      run 110 [.startCondition ⟨.paralyze, 4000, -200⟩ 0, .endCondition 0] =
        ⟨⟨110, 65536⟩, []⟩ ∧
      ¬(run 110 [.startCondition ⟨.paralyze, 4000, -200⟩ 0, .endCondition 0]).Exact := by
  refine ⟨by decide, by decide, fun h => ?_⟩
  have hvar := h.1
  revert hvar
  decide

end Canary.Conditions.Speed
