import Canary.Lib.SortedMap
import Canary.Lib.Transition
import Mathlib.Algebra.Order.Ring.Int
import Mathlib.Logic.Function.Basic

/-!
# Decaying items

An item that decays is registered in `decayMap` under the time at which it is due, in the
bucket of the items due at that time, and its attributes say that it is. `startDecay`
registers an item, `stopDecay` takes it out of its bucket, and `checkDecay` takes out the
buckets that are due and lets their items decay, one after the other. A timer, scheduled
with the dispatcher, runs `checkDecay` when the first bucket is due; its id is kept in
`eventId`.

What becomes of an item when it decays may start and stop the decay of any items. These
are further calls of a run, between the items of one `checkDecay`, and behind the call of
`startDecay` that lets an item decay at once. Whether an item can decay is an argument of
the calls that ask for it.
-/

namespace Canary.Decay

open Transition

/-- `ItemDecayState_t`. -/
inductive DecayState where
  | decayingFalse
  | decayingTrue
  | decayingPending
  | decayingStopping
  deriving DecidableEq, Repr

/-- A number converted to `int32_t`. -/
def toInt32 (n : Int) : Int := n.bmod (2 ^ 32)

/-- The attributes of an item that are about its decay. -/
structure Attributes where
  /-- `DECAYSTATE`. -/
  decayState : Option DecayState
  /-- `DURATION`, in ms. -/
  duration : Option Int
  /-- `DURATION_TIMESTAMP`. -/
  durationTimestamp : Option Int
  deriving DecidableEq, Repr

namespace Attributes

def getDecaying (a : Attributes) : DecayState := a.decayState.getD .decayingFalse

def getDuration (a : Attributes) (now : Int) : Int :=
  if a.getDecaying = .decayingTrue ∨ a.getDecaying = .decayingStopping then
    max 0 (toInt32 (a.durationTimestamp.getD 0 - now))
  else toInt32 (a.duration.getD 0)

def setDuration (a : Attributes) (time : Int) : Attributes :=
  { a with duration := some (max 0 time) }

/-- `setDecaying(DECAYING_FALSE)`, which removes the timestamp as well. -/
def setDecayingFalse (a : Attributes) : Attributes :=
  { a with decayState := some .decayingFalse, durationTimestamp := none }

/-- What is done to the attributes of an item that is found in its bucket. -/
def stopped (a : Attributes) (now : Int) : Attributes :=
  { (if a.duration.isSome then a.setDuration (a.getDuration now) else a) with decayState := none }

end Attributes

/-- A `checkDecay` that is scheduled with the dispatcher. -/
structure Event where
  id : UInt64
  /-- When it was scheduled, and when it is due. -/
  scheduledAt : Int
  due : Int
  deriving DecidableEq, Repr

/-- Where `checkDecay` is. -/
structure Checking (I : Type) where
  /-- The items of `tempItems` that are left. -/
  tempItems : List I
  /-- The key of the bucket the iterator designates, unless that is the end. -/
  it : Option Int

structure State (I : Type) where
  attributes : I → Attributes
  decayMap : SortedMap Int (List I)
  eventId : UInt32
  /-- The events that are pending, and the id the dispatcher gave last. -/
  events : List Event
  lastEventId : UInt64
  /-- `OTSYS_TIME()`. -/
  now : Int
  checking : Option (Checking I)

/-- An element is replaced by the last one, which is taken off the end. -/
def swapRemove {I : Type} [DecidableEq I] (l : List I) (x : I) : List I :=
  (l.set (l.idxOf x) (l.getLastD x)).dropLast

variable {I : Type} [DecidableEq I]

namespace State

def setAttributes (s : State I) (x : I) (a : Attributes) : State I :=
  { s with attributes := Function.update s.attributes x a }

@[simp]
theorem setAttributes_self (s : State I) (x : I) (a : Attributes) :
    (s.setAttributes x a).attributes x = a :=
  Function.update_self _ _ _

theorem setAttributes_of_ne (s : State I) {x y : I} (h : y ≠ x) (a : Attributes) :
    (s.setAttributes x a).attributes y = s.attributes y :=
  Function.update_of_ne h _ _

/-- `SCHEDULER_MINTICKS`. -/
def schedulerMinticks : Int := 50

/-- The id the dispatcher gives next (`Task::getId`). -/
def nextId (s : State I) : UInt64 :=
  if s.lastEventId + 1 = 0 then 1 else s.lastEventId + 1

/-- `g_dispatcher().scheduleEvent(std::max<int32_t>(SCHEDULER_MINTICKS, delay), ...)`. The id
    is kept in 32 bits. -/
def scheduleEvent (s : State I) (delay : Int) : State I :=
  { s with
    events := s.events ++ [⟨s.nextId, s.now, s.now + max schedulerMinticks (toInt32 delay)⟩]
    lastEventId := s.nextId
    eventId := s.nextId.toUInt32 }

/-- `g_dispatcher().stopEvent(eventId)`. -/
def stopEvent (s : State I) : State I :=
  { s with events := s.events.filter fun e => e.id ≠ s.eventId.toUInt64 }

def stopDecay (s : State I) (x : I) : State I :=
  let a := s.attributes x
  if a.decayState.isSome then
    match a.durationTimestamp with
    | some timestamp =>
      match s.decayMap.lookup timestamp with
      | some decayItems =>
        if decayItems.length = 1 then
          if decayItems.head? = some x then
            { s.setAttributes x (a.stopped s.now) with decayMap := s.decayMap.erase timestamp }
          else s
        else if x ∈ decayItems then
          { s.setAttributes x (a.stopped s.now) with
            decayMap := s.decayMap.insert timestamp (swapRemove decayItems x) }
        else s.setAttributes x { a with durationTimestamp := none }
      | none => s.setAttributes x { a with durationTimestamp := none }
    | none => s.setAttributes x { a with decayState := none }
  else s

/-- A timer for an item that is due at `timestamp`, unless there is one before. -/
def startTimer (s : State I) (timestamp duration : Int) : State I :=
  match s.decayMap.entries.head? with
  | none => s.scheduleEvent duration
  | some first => if timestamp < first.1 then s.stopEvent.scheduleEvent duration else s

/-- The item is put at the end of the bucket. -/
def enter (s : State I) (x : I) (timestamp : Int) : State I :=
  { s.setAttributes x { s.attributes x with
      decayState := some .decayingTrue, durationTimestamp := some timestamp } with
    decayMap := s.decayMap.insert timestamp ((s.decayMap.lookup timestamp).getD [] ++ [x]) }

/-- The end of `startDecay`, for an item with a duration. -/
def register (s : State I) (x : I) (duration : Int) : State I :=
  let s := if (s.attributes x).durationTimestamp.isSome then s.stopDecay x else s
  (s.startTimer (s.now + duration) duration).enter x (s.now + duration)

/-- The first branch of `startDecay`, which stops the decay. -/
def stopsDecay (s : State I) (x : I) (canDecay : Bool) : Bool :=
  (s.attributes x).getDecaying = .decayingStopping ||
    !canDecay && (s.attributes x).getDecaying = .decayingTrue

def startDecay (s : State I) (x : I) (canDecay : Bool) : State I :=
  let a := s.attributes x
  if s.stopsDecay x canDecay then s.stopDecay x
  else if !canDecay ∨ a.getDecaying = .decayingTrue then s
  else if a.duration.getD 0 ≤ 0 ∧ a.duration.isSome then
    -- The item decays at once (`internalDecayItem`).
    s
  else if 0 < a.duration.getD 0 then s.register x (a.duration.getD 0)
  else s

/-- The beginning of `checkDecay`: the items of the buckets that are due. -/
def checkDecay (s : State I) : State I :=
  { s with
    decayMap := s.decayMap.above s.now
    checking := some {
      tempItems := (s.decayMap.upTo s.now).flatMap Prod.snd
      it := (s.decayMap.above s.now).entries.head?.map Prod.fst } }

/-- `checkDecay` comes to the next item. If it can decay, it does (`internalDecayItem`). -/
def checkItem (s : State I) (x : I) (tempItems : List I) (it : Option Int) (canDecay : Bool) :
    State I :=
  let a := s.attributes x
  { s.setAttributes x (if canDecay then a.setDecayingFalse
      else (a.setDuration (a.getDuration s.now)).setDecayingFalse) with
    checking := some ⟨tempItems, it⟩ }

/-- The end of `checkDecay`: it schedules itself for the bucket of the iterator. -/
def endCheck (s : State I) (it : Option Int) : State I :=
  match it with
  | none => { s with checking := none }
  | some first => { s.scheduleEvent (first - s.now) with checking := none }

end State

/-- The calls, and what else happens. -/
inductive Label (I : Type) where
  | startDecay (item : I) (canDecay : Bool)
  | stopDecay (item : I)
  /-- The dispatcher runs the pending event. -/
  | checkDecay (e : Event)
  | checkItem (canDecay : Bool)
  | endCheck
  /-- The clock advances. -/
  | tick (now : Int)
  /-- Another event is scheduled, and gets an id. -/
  | otherEvent
  /-- The attribute `DURATION` of an item is set, or removed. -/
  | setDuration (item : I) (duration : Option Int)

def next (s : State I) : Label I → Option (State I)
  | .startDecay x canDecay => some (s.startDecay x canDecay)
  | .stopDecay x => some (s.stopDecay x)
  | .checkDecay e =>
    if e ∈ s.events ∧ e.due ≤ s.now ∧ s.checking.isNone then
      some { s.checkDecay with events := s.events.erase e }
    else none
  | .checkItem canDecay =>
    match s.checking with
    | some ⟨x :: tempItems, it⟩ => some (s.checkItem x tempItems it canDecay)
    | _ => none
  | .endCheck =>
    match s.checking with
    | some ⟨[], it⟩ => some (s.endCheck it)
    | _ => none
  | .tick now => if s.now ≤ now ∧ s.checking.isNone then some { s with now := now } else none
  | .otherEvent => some { s with lastEventId := s.nextId }
  | .setDuration x duration =>
    some (s.setAttributes x { s.attributes x with duration := duration })

/-- Nothing is registered or pending; items are as they are made or loaded. -/
def Init (s : State I) : Prop :=
  s.decayMap = .empty ∧ s.events = [] ∧ s.checking = none ∧
    ∀ x, (s.attributes x).durationTimestamp = none ∧
      (s.attributes x).decayState ≠ some .decayingTrue

def system : System (State I) (Label I) := .ofNext Init next

/-- Nothing is registered, and every item has a duration of 100 ms. -/
def unregistered : State Nat where
  attributes _ := ⟨none, some 100, none⟩
  decayMap := .empty
  eventId := 0
  events := []
  lastEventId := 0
  now := 0
  checking := none

theorem init_unregistered : Init unregistered :=
  ⟨rfl, rfl, rfl, fun _ => ⟨rfl, nofun⟩⟩

end Canary.Decay
