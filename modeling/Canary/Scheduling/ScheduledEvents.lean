import Canary.Lib.Transition
import Mathlib.Algebra.BigOperators.Fin
import Mathlib.Algebra.Order.BigOperators.Group.Finset
import Mathlib.Data.List.FinRange
import Mathlib.Data.List.Sort
import Mathlib.Logic.Function.Basic

/-!
# Scheduled events

A task is scheduled for a time, once or in cycles. It is queued with the thread that
schedules it, then with the dispatcher, ordered by time, and executed when it is due; a
cycle task is then queued again, for a later time. A map `scheduledTasksRef` from ids to
tasks serves to stop a task wherever it is queued, also when it is being executed, or is
due in the same iteration: it is cancelled, and skipped later.

Tasks are objects that are shared by the queues and the map. They are numbered in the
order they were scheduled in; what a task does while it is executed are further calls,
between its start and its return.

In every run in which no id is given to a task while another task with it is queued
(`FreshId`), a one-shot task that is not stopped is executed once, when it is due, tasks
that are stopped do not start again, due tasks are executed in the order of their times,
and the map has exactly the tasks that are queued and not stopped (`executes_once`). Ids
are numbers of 64 bits, and wrap; the run that reaches this, with a task that stays in
the queue, executes a task whose id was stopped (`starts_stopped`).
-/

namespace Canary.Scheduling.ScheduledEvents

open Transition

/-- A scheduled task. (The function itself, its context, and what is logged, are left
    out.) -/
structure Task where
  id : UInt64
  /-- When it is due, in ms. -/
  utime : Nat
  delay : Nat
  cycle : Bool
  /-- `func` is not null: the task has not been cancelled. -/
  func : Bool
  deriving DecidableEq, Repr

/-- Where the dispatcher is. -/
inductive Phase (n : Nat) where
  /-- Outside `executeScheduledEvents` and `mergeEvents`. -/
  | events
  /-- In `executeScheduledEvents`, the iterator at the index. -/
  | loop (it : Nat)
  /-- The task at the index is being executed. -/
  | running (it : Nat)
  /-- At the end of `executeScheduledEvents`, behind the loop. -/
  | executed
  /-- In `mergeEvents`, with the threads left. -/
  | merge (threads : List (Fin n))
  deriving DecidableEq, Repr

structure State (n : Nat) where
  /-- The task objects, and their number. -/
  task : Nat → Task
  made : Nat
  /-- `Task::LAST_EVENT_ID`. -/
  lastEventId : UInt64
  /-- `scheduledTasks` of the threads. -/
  threadTasks : Fin n → List Nat
  /-- `scheduledTasks` of the dispatcher, in order. -/
  scheduledTasks : List Nat
  scheduledTasksRef : UInt64 → Option Nat
  phase : Phase n
  /-- `OTSYS_TIME()`. -/
  now : Nat
  /-- How often each task was started. -/
  starts : Nat → Nat
  /-- The tasks whose ids were stopped, after they were scheduled. -/
  stopped : Nat → Bool
  /-- The times of the tasks started in this iteration, in order. -/
  ran : List Nat

inductive Label (n : Nat) where
  /-- A thread schedules a task made for the time `utime`. -/
  | scheduleEvent (i : Fin n) (utime delay : Nat) (cycle : Bool)
  | stopEvent (eventId : UInt64)
  /-- The dispatcher updates its clock and begins an iteration. -/
  | iterate (now : Nat)
  /-- The dispatcher goes on. A task that is being executed returns. -/
  | step
  deriving DecidableEq, Repr

variable {n : Nat}

namespace State

/-- The id `Task::getId` gives to a new task. -/
def nextId (s : State n) : UInt64 :=
  if s.lastEventId + 1 = 0 then 1 else s.lastEventId + 1

def scheduleEvent (s : State n) (i : Fin n) (utime delay : Nat) (cycle : Bool) : State n :=
  { s with
    task := Function.update s.task s.made ⟨s.nextId, utime, delay, cycle, true⟩
    made := s.made + 1
    lastEventId := s.nextId
    threadTasks := Function.update s.threadTasks i (s.threadTasks i ++ [s.made])
    -- `emplace` leaves an entry that is there.
    scheduledTasksRef := Function.update s.scheduledTasksRef s.nextId
      ((s.scheduledTasksRef s.nextId).or (some s.made)) }

/-- `Task::cancel`. -/
def cancel (s : State n) (r : Nat) : State n :=
  { s with task := Function.update s.task r { s.task r with func := false } }

/-- `scheduledTasksRef.erase`. -/
def eraseRef (s : State n) (id : UInt64) : State n :=
  { s with scheduledTasksRef := Function.update s.scheduledTasksRef id none }

/-- The tasks with the id count as stopped from now on. -/
def noteStopped (s : State n) (id : UInt64) : State n :=
  { s with stopped := fun r => if r < s.made ∧ (s.task r).id = id then true else s.stopped r }

def stopEvent (s : State n) (eventId : UInt64) : State n :=
  match s.scheduledTasksRef eventId with
  | some r => ((s.cancel r).eraseRef eventId).noteStopped eventId
  | none => s.noteStopped eventId

/-- The task is executed; it begins. -/
def start (s : State n) (it r : Nat) : State n :=
  { s with
    phase := .running it
    starts := Function.update s.starts r (s.starts r + 1)
    ran := s.ran ++ [(s.task r).utime] }

/-- `updateTime`, and the task is queued again with the thread of the dispatcher. -/
def requeue (s : State n) (d : Fin n) (it r : Nat) : State n :=
  { s with
    task := Function.update s.task r { s.task r with utime := s.now + (s.task r).delay }
    threadTasks := Function.update s.threadTasks d (s.threadTasks d ++ [r])
    phase := .loop (it + 1) }

/-- The dispatcher is done with a task. -/
def discard (s : State n) (it r : Nat) : State n :=
  { s.eraseRef (s.task r).id with phase := .loop (it + 1) }

/-- The tasks before the iterator are erased, and the loop is left. -/
def leave (s : State n) (it : Nat) : State n :=
  { s with scheduledTasks := s.scheduledTasks.drop it, phase := .executed }

/-- A task is inserted in order, behind those with the same time. -/
def insertTask (s : State n) (l : List Nat) (r : Nat) : List Nat :=
  l.orderedInsert (fun a b => (s.task a).utime < (s.task b).utime) r

/-- The tasks queued with the thread are moved to the dispatcher. -/
def mergeThread (s : State n) (i : Fin n) : State n :=
  { s with
    scheduledTasks := (s.threadTasks i).foldl s.insertTask s.scheduledTasks
    threadTasks := Function.update s.threadTasks i [] }

/-- The dispatcher, in the thread `d`, goes on. -/
def step (d : Fin n) (s : State n) : Option (State n) :=
  match s.phase with
  | .events => none
  | .loop it =>
    match s.scheduledTasks[it]? with
    | none => some (s.leave it)
    | some r =>
      if s.now < (s.task r).utime then some (s.leave it)
      else if (s.task r).func then some (s.start it r)
      else some (s.discard it r)
  | .running it =>
    match s.scheduledTasks[it]? with
    | none => none
    | some r =>
      if (s.task r).cycle then some (s.requeue d it r)
      else some (s.discard it r)
  | .executed => some { s with phase := .merge (List.finRange n) }
  | .merge [] => some { s with phase := .events }
  | .merge (i :: threads) => some { s.mergeThread i with phase := .merge threads }

end State

def next (d : Fin n) (s : State n) : Label n → Option (State n)
  | .scheduleEvent i utime delay cycle => some (s.scheduleEvent i utime delay cycle)
  | .stopEvent eventId => some (s.stopEvent eventId)
  | .iterate now =>
    if s.phase = .events then some { s with now := now, phase := .loop 0, ran := [] } else none
  | .step => s.step d

/-- Nothing has been scheduled yet. -/
def start : State n where
  task _ := ⟨0, 0, 0, false, false⟩
  made := 0
  lastEventId := 0
  threadTasks _ := []
  scheduledTasks := []
  scheduledTasksRef _ := none
  phase := .events
  now := 0
  starts _ := 0
  stopped _ := false
  ran := []

/-- The runs of a dispatcher in the thread `d`. -/
def system (d : Fin n) : System (State n) (Label n) := .ofNext (· = start) (next d)

/-! ## Where a task is -/

namespace State

/-- The tasks of the dispatcher that are still to be looked at. -/
def pending (s : State n) : List Nat :=
  match s.phase with
  | .loop it => s.scheduledTasks.drop it
  | .running it => s.scheduledTasks.drop (it + 1)
  | _ => s.scheduledTasks

/-- The task that is being executed. -/
def running (s : State n) : Option Nat :=
  match s.phase with
  | .running it => s.scheduledTasks[it]?
  | _ => none

/-- How often a task is queued. -/
def queued (s : State n) (r : Nat) : Nat :=
  s.pending.count r + ∑ i, (s.threadTasks i).count r

/-- How often a task is queued or being executed. -/
def live (s : State n) (r : Nat) : Nat := s.queued r + s.running.toList.count r

end State

/-- A queue of a thread is replaced. -/
theorem sum_count_update (f : Fin n → List Nat) (i : Fin n) (l : List Nat) (r : Nat) :
    ∑ j, (Function.update f i l j).count r + (f i).count r =
      ∑ j, (f j).count r + l.count r := by
  have h : ∀ g : Fin n → List Nat, ∑ j, (g j).count r =
      (g i).count r + ∑ j ∈ Finset.univ.erase i, (g j).count r := fun g =>
    (Finset.add_sum_erase _ _ (Finset.mem_univ i)).symm
  have hrest : ∑ j ∈ Finset.univ.erase i, (Function.update f i l j).count r =
      ∑ j ∈ Finset.univ.erase i, (f j).count r :=
    Finset.sum_congr rfl fun j hj => by
      rw [Function.update_of_ne (Finset.ne_of_mem_erase hj)]
  rw [h, h f, hrest, Function.update_self]
  omega

namespace State

/-- What a step does not move stays where it is. -/
theorem queued_congr {s s' : State n} (hp : s'.pending = s.pending)
    (ht : s'.threadTasks = s.threadTasks) : s'.queued = s.queued := by
  funext r
  rw [queued, queued, hp, ht]

theorem live_congr {s s' : State n} (hq : s'.queued = s.queued) (hr : s'.running = s.running) :
    s'.live = s.live := by
  funext r
  rw [live, live, hq, hr]

theorem queued_scheduleEvent (s : State n) (i : Fin n) (utime delay : Nat) (cycle : Bool)
    (r : Nat) :
    (s.scheduleEvent i utime delay cycle).queued r = s.queued r + if r = s.made then 1 else 0 := by
  have h := sum_count_update s.threadTasks i (s.threadTasks i ++ [s.made]) r
  have hp : (s.scheduleEvent i utime delay cycle).pending = s.pending := rfl
  have ht : (s.scheduleEvent i utime delay cycle).threadTasks =
      Function.update s.threadTasks i (s.threadTasks i ++ [s.made]) := rfl
  simp only [List.count_append, List.count_singleton, beq_iff_eq, eq_comm (b := r)] at h
  rw [queued, queued, hp, ht]
  omega

theorem live_scheduleEvent (s : State n) (i : Fin n) (utime delay : Nat) (cycle : Bool) (r : Nat) :
    (s.scheduleEvent i utime delay cycle).live r = s.live r + if r = s.made then 1 else 0 := by
  have hr : (s.scheduleEvent i utime delay cycle).running = s.running := rfl
  rw [live, live, queued_scheduleEvent, hr]
  omega

/-- What stopping an event leaves as it is. -/
theorem stopEvent_frame (s : State n) (eventId : UInt64) :
    (s.stopEvent eventId).made = s.made ∧ (s.stopEvent eventId).starts = s.starts ∧
      ∀ r, ((s.stopEvent eventId).task r).cycle = (s.task r).cycle := by
  rw [stopEvent]
  split
  · next r' _ =>
    refine ⟨rfl, rfl, fun r => ?_⟩
    by_cases h : r = r'
    · subst h
      simp [noteStopped, eraseRef, cancel]
    · simp [noteStopped, eraseRef, cancel, Function.update_of_ne h]
  · exact ⟨rfl, rfl, fun _ => rfl⟩

theorem queued_stopEvent (s : State n) (eventId : UInt64) :
    (s.stopEvent eventId).queued = s.queued := by
  refine queued_congr ?_ ?_ <;> rw [stopEvent] <;> split <;> rfl

theorem live_stopEvent (s : State n) (eventId : UInt64) :
    (s.stopEvent eventId).live = s.live := by
  refine live_congr (s.queued_stopEvent eventId) ?_
  rw [stopEvent]
  split <;> rfl

/-- The task that is stopped keeps all but its function. -/
theorem task_stopEvent (s : State n) (eventId : UInt64) (r : Nat) :
    (s.stopEvent eventId).task r =
      if s.scheduledTasksRef eventId = some r then { s.task r with func := false }
      else s.task r := by
  rw [stopEvent]
  split
  · next r' hr' =>
    by_cases h : r = r'
    · subst h
      simp [noteStopped, eraseRef, cancel, hr']
    · simp [noteStopped, eraseRef, cancel, Function.update_of_ne h, hr', Ne.symm h]
  · next hnone => simp [noteStopped, hnone]

theorem func_stopEvent (s : State n) (eventId : UInt64) (r : Nat) :
    ((s.stopEvent eventId).task r).func =
      if s.scheduledTasksRef eventId = some r then false else (s.task r).func := by
  rw [task_stopEvent]
  split <;> rfl

theorem id_stopEvent (s : State n) (eventId : UInt64) (r : Nat) :
    ((s.stopEvent eventId).task r).id = (s.task r).id := by
  rw [task_stopEvent]
  split <;> rfl

theorem utime_stopEvent (s : State n) (eventId : UInt64) (r : Nat) :
    ((s.stopEvent eventId).task r).utime = (s.task r).utime := by
  rw [task_stopEvent]
  split <;> rfl

theorem ref_stopEvent (s : State n) (eventId : UInt64) :
    (s.stopEvent eventId).scheduledTasksRef = Function.update s.scheduledTasksRef eventId none := by
  rw [stopEvent]
  split
  · rfl
  · next hnone => exact (Function.update_eq_self_iff.2 hnone.symm).symm

theorem stopped_stopEvent (s : State n) (eventId : UInt64) (r : Nat) :
    (s.stopEvent eventId).stopped r =
      if r < s.made ∧ (s.task r).id = eventId then true else s.stopped r := by
  rw [stopEvent]
  split
  · next r' _ =>
    by_cases h : r = r'
    · subst h
      simp [noteStopped, eraseRef, cancel]
    · simp [noteStopped, eraseRef, cancel, Function.update_of_ne h]
  · rfl

theorem pending_eq_drop {s : State n} {it : Nat} (hph : s.phase = .loop it) :
    s.pending = s.scheduledTasks.drop it := by
  rw [pending, hph]

/-- In the loop, the task at the iterator is the next one. -/
theorem pending_loop {s : State n} {it r : Nat} (hph : s.phase = .loop it)
    (hr : s.scheduledTasks[it]? = some r) : s.pending = r :: s.scheduledTasks.drop (it + 1) := by
  obtain ⟨hit, rfl⟩ := List.getElem?_eq_some_iff.1 hr
  rw [pending_eq_drop hph]
  exact List.drop_eq_getElem_cons hit

theorem running_loop {s : State n} {it : Nat} (hph : s.phase = .loop it) : s.running = none := by
  rw [running, hph]

theorem live_start {s : State n} {it r : Nat} (hph : s.phase = .loop it)
    (hr : s.scheduledTasks[it]? = some r) : (s.start it r).live = s.live := by
  funext r'
  have hrun : (s.start it r).running = some r := hr
  have hpend : (s.start it r).pending = s.scheduledTasks.drop (it + 1) := rfl
  have ht : (s.start it r).threadTasks = s.threadTasks := rfl
  rw [live, live, queued, queued, hrun, hpend, ht, running_loop hph, pending_loop hph hr]
  simp only [List.count_cons, Option.toList_some, Option.toList_none, List.count_nil]
  omega

theorem queued_start {s : State n} {it r : Nat} (hph : s.phase = .loop it)
    (hr : s.scheduledTasks[it]? = some r) (r' : Nat) :
    s.queued r' = (s.start it r).queued r' + if r' = r then 1 else 0 := by
  have hpend : (s.start it r).pending = s.scheduledTasks.drop (it + 1) := rfl
  have ht : (s.start it r).threadTasks = s.threadTasks := rfl
  rw [queued, queued, hpend, ht, pending_loop hph hr, List.count_cons]
  simp only [beq_iff_eq, eq_comm (a := r')]
  omega

/-- The merge keeps every task, once. -/
theorem count_foldl_insertTask (s : State n) (l l' : List Nat) (r : Nat) :
    (l'.foldl s.insertTask l).count r = l.count r + l'.count r := by
  induction l' generalizing l with
  | nil => rfl
  | cons a l' ih =>
    rw [List.foldl_cons, ih, insertTask, (List.perm_orderedInsert _ _ _).count_eq,
      List.count_cons, List.count_cons]
    omega

end State

/-! ## The invariant -/

/-- The id of the task scheduled next is not the id of a task that is queued or being
    executed. -/
def FreshId (s : State n) : Label n → Prop
  | .scheduleEvent .. => ∀ r < s.made, s.live r ≠ 0 → (s.task r).id ≠ s.nextId
  | _ => True

instance (s : State n) (a : Label n) : Decidable (FreshId s a) :=
  match a with
  | .scheduleEvent .. =>
    inferInstanceAs (Decidable (∀ r < s.made, s.live r ≠ 0 → (s.task r).id ≠ s.nextId))
  | .stopEvent _ | .iterate _ | .step => isTrue trivial

/-- The queues, the map, and the marks of the tasks agree. -/
structure Placed (s : State n) : Prop where
  unmade : ∀ r, s.made ≤ r → s.live r = 0 ∧ s.starts r = 0 ∧ s.stopped r = false
  once : ∀ r, s.live r ≤ 1
  ids : ∀ r r', s.live r ≠ 0 → s.live r' ≠ 0 → (s.task r).id = (s.task r').id → r = r'
  ref : ∀ id r, s.scheduledTasksRef id = some r ↔
    s.live r ≠ 0 ∧ (s.task r).id = id ∧ s.stopped r = false
  func : ∀ r, s.live r ≠ 0 → (s.task r).func = !s.stopped r
  starts : ∀ r < s.made, (s.task r).cycle = false → s.stopped r = false →
    s.starts r = if s.queued r = 0 then 1 else 0

/-- The tasks still to be looked at are in order, behind those started in this iteration. -/
structure Ordered (s : State n) : Prop where
  sorted : s.pending.Pairwise fun a b => (s.task a).utime ≤ (s.task b).utime
  ran : s.ran.Pairwise (· ≤ ·)
  ran_le : ∀ it, s.phase = .loop it ∨ s.phase = .running it →
    ∀ t ∈ s.ran, ∀ r ∈ s.pending, t ≤ (s.task r).utime
  left : s.phase = .executed → ∀ r ∈ s.pending, s.now < (s.task r).utime

/-- What neither moves a one-shot task nor marks a task. -/
theorem Placed.congr {s s' : State n} (hs : Placed s) (hmade : s'.made = s.made)
    (hq : ∀ r, (s.task r).cycle = false → s'.queued r = s.queued r) (hl : s'.live = s.live)
    (htask : ∀ r, (s'.task r).id = (s.task r).id ∧ (s'.task r).func = (s.task r).func ∧
      (s'.task r).cycle = (s.task r).cycle)
    (href : s'.scheduledTasksRef = s.scheduledTasksRef) (hstarts : s'.starts = s.starts)
    (hstopped : s'.stopped = s.stopped) : Placed s' := by
  refine ⟨?_, ?_, fun r r' => ?_, fun id r => ?_, fun r => ?_, fun r => ?_⟩
  · rw [hmade, hl, hstarts, hstopped]
    exact hs.unmade
  · rw [hl]
    exact hs.once
  · rw [hl, (htask r).1, (htask r').1]
    exact hs.ids r r'
  · rw [href, hl, (htask r).1, hstopped]
    exact hs.ref id r
  · rw [hl, (htask r).2.1, hstopped]
    exact hs.func r
  · rw [hmade, (htask r).2.2, hstopped, hstarts]
    intro hr hc hst
    rw [hq r hc]
    exact hs.starts r hr hc hst

/-- A task is done with. -/
theorem Placed.remove {s s' : State n} (hs : Placed s) {r : Nat} (hr : s.live r ≠ 0)
    (hmade : s'.made = s.made) (htask : s'.task = s.task)
    (href : s'.scheduledTasksRef = Function.update s.scheduledTasksRef (s.task r).id none)
    (hl : ∀ r', s.live r' = s'.live r' + if r' = r then 1 else 0)
    (hq : ∀ r', (s.task r').cycle = false → s.stopped r' = false → s'.queued r' = s.queued r')
    (hstarts : s'.starts = s.starts) (hstopped : s'.stopped = s.stopped) : Placed s' := by
  have hle : ∀ r', s'.live r' ≤ s.live r' := fun r' => by
    rw [hl r']
    exact Nat.le_add_right _ _
  -- A task is in one place at most, and was in the one that it leaves.
  have hgone : s'.live r = 0 := by
    have h₁ := hl r
    have h₂ := hs.once r
    rw [if_pos rfl] at h₁
    omega
  refine ⟨fun r' h => ?_, fun r' => (hle r').trans (hs.once r'), fun r₁ r₂ h₁ h₂ hid => ?_,
    fun id r' => ?_, fun r' h => ?_, fun r' => ?_⟩
  · rw [hmade] at h
    obtain ⟨h₁, h₂, h₃⟩ := hs.unmade r' h
    exact ⟨Nat.le_zero.1 (h₁ ▸ hle r'), by rw [hstarts, h₂], by rw [hstopped, h₃]⟩
  · have hle₁ := hle r₁
    have hle₂ := hle r₂
    rw [htask] at hid
    exact hs.ids r₁ r₂ (by omega) (by omega) hid
  · rw [href, htask, hstopped]
    by_cases hne : r' = r
    · subst hne
      refine ⟨fun h => ?_, fun h => absurd hgone h.1⟩
      by_cases hid : id = (s.task r').id
      · rw [hid, Function.update_self] at h
        cases h
      · rw [Function.update_of_ne hid] at h
        exact absurd ((hs.ref id r').1 h).2.1.symm hid
    · have hsame : s'.live r' = s.live r' := by rw [hl r', if_neg hne, Nat.add_zero]
      rw [hsame]
      by_cases hid : id = (s.task r).id
      · -- No other task has the id.
        rw [hid, Function.update_self]
        exact ⟨nofun, fun h => absurd (hs.ids r' r h.1 hr h.2.1) hne⟩
      · rw [Function.update_of_ne hid]
        exact hs.ref id r'
  · have hle' := hle r'
    rw [htask, hstopped]
    exact hs.func r' (by omega)
  · rw [hmade, htask, hstopped, hstarts]
    intro h hc hst
    rw [hq r' hc hst]
    exact hs.starts r' h hc hst

/-- What neither moves a task that is still to be looked at nor changes its time. -/
theorem Ordered.congr {s s' : State n} (hs : Ordered s) (hp : s'.pending = s.pending)
    (htime : ∀ r ∈ s.pending, (s'.task r).utime = (s.task r).utime)
    (hran : s'.ran = s.ran) (hnow : s'.now = s.now)
    (hloop : ∀ it, s'.phase = .loop it ∨ s'.phase = .running it →
      ∃ it', s.phase = .loop it' ∨ s.phase = .running it')
    (hexec : s'.phase = .executed → s.phase = .executed) : Ordered s' := by
  refine ⟨?_, ?_, fun it hph t ht r hr => ?_, fun hph r hr => ?_⟩
  · rw [hp]
    refine hs.sorted.imp_of_mem fun ha hb h => ?_
    rwa [htime _ ha, htime _ hb]
  · rw [hran]
    exact hs.ran
  · rw [hp] at hr
    rw [hran] at ht
    rw [htime r hr]
    obtain ⟨it', hph'⟩ := hloop it hph
    exact hs.ran_le it' hph' t ht r hr
  · rw [hp] at hr
    rw [hnow, htime r hr]
    exact hs.left (hexec hph) r hr

theorem placed_start : Placed (start : State n) := by
  have hl : ∀ r, (start : State n).live r = 0 := fun r => by
    simp [State.live, State.queued, State.pending, State.running, start]
  refine ⟨fun r _ => ⟨hl r, rfl, rfl⟩, fun r => (hl r).le.trans zero_le_one,
    fun r _ h => absurd (hl r) h, fun id r => ⟨nofun, fun h => absurd (hl r) h.1⟩,
    fun r h => absurd (hl r) h, fun r hr => absurd hr (Nat.not_lt_zero r)⟩

theorem ordered_start : Ordered (start : State n) :=
  ⟨.nil, .nil, fun _ _ _ h => absurd h List.not_mem_nil, nofun⟩

namespace Placed

variable {s : State n} (hs : Placed s)

include hs

/-- A task that is queued or being executed has been made. -/
theorem lt_made {r : Nat} (hr : s.live r ≠ 0) : r < s.made :=
  Nat.lt_of_not_le fun h => hr (hs.unmade r h).1

/-- Nothing is entered in the map for an id that no task has. -/
theorem ref_eq_none {id : UInt64} (h : ∀ r, s.live r ≠ 0 → (s.task r).id ≠ id) :
    s.scheduledTasksRef id = none := by
  rcases hr : s.scheduledTasksRef id with _ | r
  · rfl
  · obtain ⟨hl, hid, -⟩ := (hs.ref id r).1 hr
    exact absurd hid (h r hl)

theorem scheduleEvent {i : Fin n} {utime delay : Nat} {cycle : Bool}
    (hfresh : ∀ r, s.live r ≠ 0 → (s.task r).id ≠ s.nextId) :
    Placed (s.scheduleEvent i utime delay cycle) := by
  have hlive := s.live_scheduleEvent i utime delay cycle
  have hqueued := s.queued_scheduleEvent i utime delay cycle
  have hnew := hs.unmade s.made le_rfl
  have htask : ∀ r, r ≠ s.made → (s.scheduleEvent i utime delay cycle).task r = s.task r :=
    fun r hr => Function.update_of_ne hr _ _
  have hself : (s.scheduleEvent i utime delay cycle).task s.made =
      ⟨s.nextId, utime, delay, cycle, true⟩ := Function.update_self _ _ _
  -- A task is the new one, or is where it was.
  have hcases : ∀ r, (s.scheduleEvent i utime delay cycle).live r ≠ 0 →
      r = s.made ∨ r ≠ s.made ∧ s.live r ≠ 0 := by
    intro r hr
    rw [hlive] at hr
    by_cases h : r = s.made
    · exact .inl h
    · exact .inr ⟨h, by simpa [h] using hr⟩
  refine ⟨fun r hr => ?_, fun r => ?_, fun r r' hr hr' hid => ?_, fun id r => ?_, fun r hr => ?_,
    fun r hr hc hst => ?_⟩
  · have hr' : s.made + 1 ≤ r := hr
    obtain ⟨h₁, h₂, h₃⟩ := hs.unmade r (by omega)
    exact ⟨by rw [hlive, h₁, if_neg (by omega)], h₂, h₃⟩
  · rw [hlive]
    split
    · next h => rw [h, hnew.1]
    · exact hs.once r
  · rcases hcases r hr with rfl | ⟨hne, hl⟩ <;> rcases hcases r' hr' with rfl | ⟨hne', hl'⟩
    · rfl
    · rw [hself, htask r' hne'] at hid
      exact absurd hid.symm (hfresh r' hl')
    · rw [hself, htask r hne] at hid
      exact absurd hid (hfresh r hl)
    · rw [htask r hne, htask r' hne'] at hid
      exact hs.ids r r' hl hl' hid
  · -- The map had no task under the new id, so that `emplace` adds it.
    have hnone := hs.ref_eq_none hfresh
    have href : (s.scheduleEvent i utime delay cycle).scheduledTasksRef =
        Function.update s.scheduledTasksRef s.nextId (some s.made) := by
      rw [State.scheduleEvent, hnone]
      rfl
    have hst : (s.scheduleEvent i utime delay cycle).stopped r = s.stopped r := rfl
    rw [href, hlive, hst]
    by_cases hr : r = s.made
    · -- The new task has the new id.
      subst hr
      rw [hself]
      by_cases hid : id = s.nextId
      · subst hid
        simp [hnew.2.2]
      · have hold : s.scheduledTasksRef id ≠ some s.made := fun h =>
          ((hs.ref id _).1 h).1 hnew.1
        simp [Function.update_of_ne hid, hold, Ne.symm hid]
    · rw [htask r hr, if_neg hr, Nat.add_zero]
      by_cases hid : id = s.nextId
      · subst hid
        rw [Function.update_self]
        exact ⟨fun h => absurd (Option.some.inj h).symm hr, fun h => absurd h.2.1 (hfresh r h.1)⟩
      · rw [Function.update_of_ne hid]
        exact hs.ref id r
  · rcases hcases r hr with rfl | ⟨hne, hl⟩
    · rw [hself]
      exact (by simpa using hnew.2.2 : (true : Bool) = !s.stopped s.made)
    · rw [htask r hne]
      exact hs.func r hl
  · have hr' : r < s.made + 1 := hr
    rw [hqueued]
    by_cases hne : r = s.made
    · subst hne
      have hst : (s.scheduleEvent i utime delay cycle).starts s.made = 0 := hnew.2.1
      rw [hst, if_pos rfl, if_neg (Nat.succ_ne_zero _)]
    · rw [htask r hne] at hc
      rw [if_neg hne, Nat.add_zero]
      exact hs.starts r (by omega) hc hst

/-- A task whose id is stopped is cancelled. -/
theorem stopEvent (eventId : UInt64) : Placed (s.stopEvent eventId) := by
  have hlive := s.live_stopEvent eventId
  have hqueued := s.queued_stopEvent eventId
  have hid := s.id_stopEvent eventId
  have hstopped := s.stopped_stopEvent eventId
  obtain ⟨hmade, hstarts, hcycle⟩ := s.stopEvent_frame eventId
  -- Being stopped is not undone.
  have hstill : ∀ r, (s.stopEvent eventId).stopped r = false → s.stopped r = false := by
    intro r hr
    rw [hstopped] at hr
    split at hr
    · cases hr
    · exact hr
  refine ⟨fun r hr => ?_, fun r => ?_, fun r r' hr hr' h => ?_, fun id r => ?_, fun r hr => ?_,
    fun r hr hc hst => ?_⟩
  · rw [hmade] at hr
    obtain ⟨h₁, h₂, h₃⟩ := hs.unmade r hr
    refine ⟨by rw [hlive, h₁], by rw [hstarts, h₂], ?_⟩
    rw [hstopped, if_neg fun h => absurd h.1 (Nat.not_lt_of_le hr), h₃]
  · rw [hlive]
    exact hs.once r
  · rw [hlive] at hr hr'
    rw [hid, hid] at h
    exact hs.ids r r' hr hr' h
  · rw [hlive, hid, hstopped, s.ref_stopEvent]
    by_cases h : id = eventId
    · subst h
      rw [Function.update_self]
      refine ⟨nofun, fun ⟨hl, hr, hst⟩ => ?_⟩
      rw [if_pos ⟨hs.lt_made hl, hr⟩] at hst
      cases hst
    · rw [Function.update_of_ne h, hs.ref]
      refine and_congr_right fun _ => and_congr_right fun hr => ?_
      rw [if_neg fun h' => h (hr.symm.trans h'.2)]
  · rw [hlive] at hr
    rw [hstopped, s.func_stopEvent]
    by_cases h : r < s.made ∧ (s.task r).id = eventId
    · -- The map leads to the task, unless it has been stopped before.
      rw [if_pos h]
      split
      · rfl
      · next hne =>
        rcases hst : s.stopped r with _ | _
        · exact absurd ((hs.ref _ _).2 ⟨hr, h.2, hst⟩) hne
        · rw [hs.func r hr, hst]
    · rw [if_neg h, if_neg, hs.func r hr]
      intro href
      exact h ⟨hs.lt_made hr, ((hs.ref _ _).1 href).2.1⟩
  · rw [hmade] at hr
    rw [hcycle] at hc
    rw [hstarts, hqueued]
    exact hs.starts r hr hc (hstill r hst)

/-- A task that is not cancelled is started. -/
theorem start {it r : Nat} (hph : s.phase = .loop it) (hr : s.scheduledTasks[it]? = some r)
    (hf : (s.task r).func = true) : Placed (s.start it r) := by
  have hlive : (s.start it r).live = s.live := State.live_start hph hr
  have hqueued := State.queued_start hph hr
  have hl : s.live r ≠ 0 := by
    have := hqueued r
    rw [if_pos rfl] at this
    rw [State.live]
    omega
  refine ⟨fun r' hr' => ?_, ?_, ?_, ?_, ?_, fun r' hr' hc hst => ?_⟩
  · obtain ⟨h₁, h₂, h₃⟩ := hs.unmade r' hr'
    have hne : r' ≠ r := by
      rintro rfl
      exact hl h₁
    exact ⟨by rw [hlive, h₁], (Function.update_of_ne hne _ _).trans h₂, h₃⟩
  · rw [hlive]
    exact hs.once
  · rw [hlive]
    exact hs.ids
  · rw [hlive]
    exact hs.ref
  · rw [hlive]
    exact hs.func
  · have hold := hs.starts r' hr' hc hst
    have hq := hqueued r'
    by_cases hne : r' = r
    · subst hne
      rw [if_pos rfl] at hq
      have honce := hs.once r'
      rw [State.live] at honce
      have hnow : (s.start it r').starts r' = s.starts r' + 1 := Function.update_self _ _ _
      rw [hnow, hold, if_neg (by omega), if_pos (by omega)]
    · have hnow : (s.start it r).starts r' = s.starts r' := Function.update_of_ne hne _ _
      rw [if_neg hne, Nat.add_zero] at hq
      rw [hnow, hold, hq]

/-- A task that was cancelled is skipped. -/
theorem skip {it r : Nat} (hph : s.phase = .loop it) (hr : s.scheduledTasks[it]? = some r)
    (hf : (s.task r).func = false) :
    Placed (s.discard it r) := by
  have hpend : (s.discard it r).pending =
      s.scheduledTasks.drop (it + 1) := rfl
  have hq : ∀ r', s.queued r' =
      (s.discard it r).queued r' +
        if r' = r then 1 else 0 := by
    intro r'
    have ht : (s.discard it r).threadTasks = s.threadTasks := rfl
    rw [State.queued, State.queued, hpend, ht, State.pending_loop hph hr, List.count_cons]
    simp only [beq_iff_eq, eq_comm (a := r)]
    omega
  have hl : ∀ r', s.live r' =
      (s.discard it r).live r' +
        if r' = r then 1 else 0 := by
    intro r'
    rw [State.live, State.live, hq, State.running_loop hph, State.running_loop rfl]
    omega
  have hlive : s.live r ≠ 0 := by
    have h := hl r
    rw [if_pos rfl] at h
    omega
  refine hs.remove hlive rfl rfl rfl hl (fun r' _ hst => ?_) rfl rfl
  have hne : r' ≠ r := by
    rintro rfl
    rw [hs.func _ hlive, hst] at hf
    cases hf
  rw [hq r', if_neg hne, Nat.add_zero]

/-- A one-shot task returns. -/
theorem finish {it r : Nat} (hph : s.phase = .running it) (hr : s.scheduledTasks[it]? = some r) :
    Placed (s.discard it r) := by
  have hrun : s.running = some r := by rw [State.running, hph, ← hr]
  have hq : (s.discard it r).queued = s.queued := by
    refine State.queued_congr ?_ rfl
    rw [State.pending, State.pending, hph]
    rfl
  have hl : ∀ r', s.live r' =
      (s.discard it r).live r' +
        if r' = r then 1 else 0 := by
    intro r'
    rw [State.live, State.live, hq, hrun, State.running_loop rfl]
    simp [List.count_singleton, eq_comm (a := r)]
  have hlive : s.live r ≠ 0 := by
    have h := hl r
    rw [if_pos rfl] at h
    omega
  exact hs.remove hlive rfl rfl rfl hl (fun r' _ _ => congrFun hq r') rfl rfl

/-- A cycle task returns, and is queued again. -/
theorem requeue {d : Fin n} {it r : Nat} (hph : s.phase = .running it)
    (hr : s.scheduledTasks[it]? = some r) (hc : (s.task r).cycle = true) :
    Placed (s.requeue d it r) := by
  have hrun : s.running = some r := by rw [State.running, hph, ← hr]
  have hq : ∀ r', (s.requeue d it r).queued r' =
      s.queued r' + if r' = r then 1 else 0 := by
    intro r'
    have h := sum_count_update s.threadTasks d (s.threadTasks d ++ [r]) r'
    have ht : (s.requeue d it r).threadTasks =
        Function.update s.threadTasks d (s.threadTasks d ++ [r]) := rfl
    have hp : (s.requeue d it r).pending = s.pending := by
      rw [State.pending, State.pending, hph]
      rfl
    simp only [List.count_append, List.count_singleton, beq_iff_eq, eq_comm (a := r)] at h
    rw [State.queued, State.queued, hp, ht]
    omega
  refine hs.congr rfl (fun r' hc' => ?_) ?_ (fun r' => ?_) rfl rfl rfl
  · have hne : r' ≠ r := by
      rintro rfl
      rw [hc] at hc'
      cases hc'
    rw [hq, if_neg hne, Nat.add_zero]
  · funext r'
    rw [State.live, State.live, hq, hrun, State.running_loop rfl]
    simp [List.count_singleton, eq_comm (a := r)]
  · by_cases hne : r' = r
    · subst hne
      simp [State.requeue]
    · simp [State.requeue, Function.update_of_ne hne]

/-- The queue of a thread is merged. -/
theorem mergeThread {i : Fin n} {threads : List (Fin n)} (hph : s.phase = .merge (i :: threads)) :
    Placed { s.mergeThread i with phase := .merge threads } := by
  have hq : State.queued { s.mergeThread i with phase := .merge threads } = s.queued := by
    funext r
    have h := sum_count_update s.threadTasks i [] r
    have hc := s.count_foldl_insertTask s.scheduledTasks (s.threadTasks i) r
    have hp : s.pending = s.scheduledTasks := by rw [State.pending, hph]
    have hp' : State.pending { s.mergeThread i with phase := .merge threads } =
        (s.threadTasks i).foldl s.insertTask s.scheduledTasks := rfl
    have ht : State.threadTasks { s.mergeThread i with phase := .merge threads } =
        Function.update s.threadTasks i [] := rfl
    rw [List.count_nil] at h
    rw [State.queued, State.queued, hp, hp', ht]
    omega
  have hl : State.live { s.mergeThread i with phase := .merge threads } = s.live := by
    refine State.live_congr hq ?_
    rw [State.running, State.running, hph]
  exact hs.congr rfl (fun r _ => congrFun hq r) hl (fun _ => ⟨rfl, rfl, rfl⟩) rfl rfl rfl

/-- A step from one phase to another that moves no task. -/
theorem setPhase {s' : State n} (hmade : s'.made = s.made) (hp : s'.pending = s.pending)
    (hr : s'.running = s.running) (ht : s'.threadTasks = s.threadTasks) (htask : s'.task = s.task)
    (href : s'.scheduledTasksRef = s.scheduledTasksRef) (hstarts : s'.starts = s.starts)
    (hstopped : s'.stopped = s.stopped) : Placed s' := by
  have hq := State.queued_congr hp ht
  refine hs.congr hmade (fun r _ => congrFun hq r) (State.live_congr hq hr) (fun r => ?_) href
    hstarts hstopped
  rw [htask]
  exact ⟨rfl, rfl, rfl⟩

/-- What is pending has been made. -/
theorem lt_made_of_pending {r : Nat} (hr : r ∈ s.pending) : r < s.made := by
  refine hs.lt_made ?_
  have h := List.count_pos_iff.2 hr
  rw [State.live, State.queued]
  omega

/-- The task that is being executed is not pending. -/
theorem not_pending_of_running {r : Nat} (hr : s.running = some r) : r ∉ s.pending := by
  intro hp
  have h := List.count_pos_iff.2 hp
  have honce := hs.once r
  rw [State.live, State.queued, hr] at honce
  simp at honce
  omega

end Placed

namespace Ordered

variable {s : State n} (hs : Ordered s)

include hs

theorem scheduleEvent (hpl : Placed s) {i : Fin n} {utime delay : Nat} {cycle : Bool} :
    Ordered (s.scheduleEvent i utime delay cycle) := by
  refine hs.congr rfl (fun r hr => ?_) rfl rfl (fun it h => ⟨it, h⟩) id
  have hne : r ≠ s.made := Nat.ne_of_lt (hpl.lt_made_of_pending hr)
  exact congrArg Task.utime (Function.update_of_ne hne _ _)

theorem stopEvent (eventId : UInt64) : Ordered (s.stopEvent eventId) := by
  have hphase : (s.stopEvent eventId).phase = s.phase := by
    rw [State.stopEvent]
    split <;> rfl
  refine hs.congr ?_ (fun r _ => s.utime_stopEvent eventId r) ?_ ?_ (fun it h => ⟨it, hphase ▸ h⟩)
    (fun h => hphase ▸ h)
  all_goals
    rw [State.stopEvent]
    split <;> rfl

theorem start {it r : Nat} (hph : s.phase = .loop it) (hr : s.scheduledTasks[it]? = some r) :
    Ordered (s.start it r) := by
  have hp := State.pending_loop hph hr
  have hsorted := hs.sorted
  rw [hp, List.pairwise_cons] at hsorted
  have hle := hs.ran_le it (.inl hph)
  refine ⟨hsorted.2, ?_, fun _ _ t ht r' hr' => ?_, nofun⟩
  · refine List.pairwise_append.2 ⟨hs.ran, List.pairwise_singleton _ _, fun t ht t' ht' => ?_⟩
    obtain rfl := List.mem_singleton.1 ht'
    exact hle t ht r (by simp [hp])
  · rcases List.mem_append.1 ht with ht | ht
    · exact hle t ht r' (by
        rw [hp]
        exact List.mem_cons_of_mem _ hr')
    · obtain rfl := List.mem_singleton.1 ht
      exact hsorted.1 r' hr'

theorem skip {it r : Nat} (hph : s.phase = .loop it) (hr : s.scheduledTasks[it]? = some r) :
    Ordered (s.discard it r) := by
  have hp := State.pending_loop hph hr
  have hsorted := hs.sorted
  rw [hp, List.pairwise_cons] at hsorted
  refine ⟨hsorted.2, hs.ran, fun _ _ t ht r' hr' => ?_, nofun⟩
  refine hs.ran_le it (.inl hph) t ht r' ?_
  rw [hp]
  exact List.mem_cons_of_mem _ hr'

theorem finish {it r : Nat} (hph : s.phase = .running it) : Ordered (s.discard it r) := by
  refine hs.congr ?_ (fun _ _ => rfl) rfl rfl (fun _ _ => ⟨it, .inr hph⟩) nofun
  rw [State.pending, State.pending, hph]
  rfl

theorem requeue (hpl : Placed s) {d : Fin n} {it r : Nat} (hph : s.phase = .running it)
    (hr : s.scheduledTasks[it]? = some r) : Ordered (s.requeue d it r) := by
  have hrun : s.running = some r := by rw [State.running, hph, ← hr]
  refine hs.congr ?_ (fun r' hr' => ?_) rfl rfl (fun _ _ => ⟨it, .inr hph⟩) nofun
  · rw [State.pending, State.pending, hph]
    rfl
  · have hne : r' ≠ r := by
      rintro rfl
      exact hpl.not_pending_of_running hrun hr'
    exact congrArg Task.utime (Function.update_of_ne hne _ _)

/-- The tasks that are left when the loop is left are not due: the first one is not, and
    they are in order. -/
theorem leave {it : Nat} (hph : s.phase = .loop it)
    (hr : ∀ r, s.scheduledTasks[it]? = some r → s.now < (s.task r).utime) :
    Ordered (s.leave it) := by
  have hp : (s.leave it).pending = s.pending := by
    rw [State.pending, State.pending, hph]
    rfl
  refine ⟨?_, hs.ran, nofun, fun _ r' hr' => ?_⟩
  · rw [hp]
    exact hs.sorted
  · rw [hp] at hr'
    rcases h : s.scheduledTasks[it]? with _ | r
    · rw [State.pending_eq_drop hph, List.drop_eq_nil_of_le (List.getElem?_eq_none_iff.1 h)] at hr'
      cases hr'
    · have hsorted := hs.sorted
      rw [State.pending_loop hph h] at hsorted hr'
      rcases List.mem_cons.1 hr' with rfl | hr'
      · exact hr r' h
      · exact (hr r h).trans_le ((List.pairwise_cons.1 hsorted).1 r' hr')

theorem iterate (now : Nat) (hph : s.phase = .events) :
    Ordered { s with now := now, phase := .loop 0, ran := [] } := by
  refine ⟨?_, .nil, fun _ _ _ h => absurd h List.not_mem_nil, nofun⟩
  have h := hs.sorted
  rwa [State.pending, hph] at h

end Ordered

/-- A task is inserted in order. -/
theorem pairwise_insertTask (s : State n) {l : List Nat} (r : Nat)
    (hl : l.Pairwise fun a b => (s.task a).utime ≤ (s.task b).utime) :
    (s.insertTask l r).Pairwise fun a b => (s.task a).utime ≤ (s.task b).utime := by
  induction l with
  | nil => exact List.pairwise_singleton _ _
  | cons b l ih =>
    obtain ⟨hb, hl'⟩ := List.pairwise_cons.1 hl
    rw [State.insertTask, List.orderedInsert_cons]
    split
    · next hlt =>
      refine List.pairwise_cons.2 ⟨fun c hc => ?_, hl⟩
      rcases List.mem_cons.1 hc with rfl | hc
      · exact hlt.le
      · exact hlt.le.trans (hb c hc)
    · next hge =>
      refine List.pairwise_cons.2 ⟨fun c hc => ?_, ih hl'⟩
      rcases (List.mem_orderedInsert _).1 hc with rfl | hc
      · exact Nat.le_of_not_lt hge
      · exact hb c hc

theorem Ordered.mergeThread {s : State n} (hs : Ordered s) {i : Fin n} {threads : List (Fin n)}
    (hph : s.phase = .merge (i :: threads)) :
    Ordered { s.mergeThread i with phase := .merge threads } := by
  refine ⟨?_, hs.ran, nofun, nofun⟩
  have hsorted := hs.sorted
  rw [State.pending, hph] at hsorted
  have hfold : ∀ l' l : List Nat, (l.Pairwise fun a b => (s.task a).utime ≤ (s.task b).utime) →
      (l'.foldl s.insertTask l).Pairwise fun a b => (s.task a).utime ≤ (s.task b).utime := by
    intro l'
    induction l' with
    | nil => exact fun _ h => h
    | cons a l' ih => exact fun l h => ih _ (pairwise_insertTask s a h)
  exact hfold _ _ hsorted

/-- The steps of the dispatcher, by what they do. -/
inductive Goes (d : Fin n) (s : State n) : State n → Prop
  | start {it r : Nat} : s.phase = .loop it → s.scheduledTasks[it]? = some r →
      (s.task r).utime ≤ s.now → (s.task r).func = true → Goes d s (s.start it r)
  | skip {it r : Nat} : s.phase = .loop it → s.scheduledTasks[it]? = some r →
      (s.task r).func = false → Goes d s (s.discard it r)
  | leave {it : Nat} : s.phase = .loop it →
      (∀ r, s.scheduledTasks[it]? = some r → s.now < (s.task r).utime) → Goes d s (s.leave it)
  | requeue {it r : Nat} : s.phase = .running it → s.scheduledTasks[it]? = some r →
      (s.task r).cycle = true → Goes d s (s.requeue d it r)
  | finish {it r : Nat} : s.phase = .running it → s.scheduledTasks[it]? = some r →
      Goes d s (s.discard it r)
  | merge : s.phase = .executed → Goes d s { s with phase := .merge (List.finRange n) }
  | mergeThread {i : Fin n} {threads : List (Fin n)} : s.phase = .merge (i :: threads) →
      Goes d s { s.mergeThread i with phase := .merge threads }
  | merged : s.phase = .merge [] → Goes d s { s with phase := .events }

theorem goes_of_step {d : Fin n} {s s' : State n} (h : s.step d = some s') : Goes d s s' := by
  rw [State.step] at h
  split at h
  · cases h
  · next it hph =>
    split at h
    · next hr =>
      obtain rfl := Option.some.inj h
      exact .leave hph fun r hr' => by
        rw [hr] at hr'
        cases hr'
    · next r hr =>
      split at h
      · next hdue =>
        obtain rfl := Option.some.inj h
        exact .leave hph fun r' hr' => by
          obtain rfl := Option.some.inj (hr.symm.trans hr')
          exact hdue
      · next hdue =>
        split at h <;> obtain rfl := Option.some.inj h
        · next hf => exact .start hph hr (Nat.le_of_not_lt hdue) hf
        · next hf => exact .skip hph hr (Bool.eq_false_iff.2 hf)
  · next it hph =>
    split at h
    · cases h
    · next r hr =>
      split at h <;> obtain rfl := Option.some.inj h
      · next hc => exact .requeue hph hr hc
      · exact .finish hph hr
  · next hph =>
    obtain rfl := Option.some.inj h
    exact .merge hph
  · next hph =>
    obtain rfl := Option.some.inj h
    exact .merged hph
  · next i threads hph =>
    obtain rfl := Option.some.inj h
    exact .mergeThread hph

theorem sound_next {d : Fin n} {s s' : State n} {a : Label n} (hs : Placed s ∧ Ordered s)
    (hf : FreshId s a) (h : (system d).step s a s') : Placed s' ∧ Ordered s' := by
  obtain ⟨hp, ho⟩ := hs
  cases a with
  | scheduleEvent i utime delay cycle =>
    obtain rfl := Option.some.inj h
    exact ⟨hp.scheduleEvent fun r hr => hf r (hp.lt_made hr) hr, ho.scheduleEvent hp⟩
  | stopEvent eventId =>
    obtain rfl := Option.some.inj h
    exact ⟨hp.stopEvent eventId, ho.stopEvent eventId⟩
  | iterate now =>
    obtain ⟨hph, h⟩ := Option.ite_none_right_eq_some.1 h
    obtain rfl := Option.some.inj h
    refine ⟨hp.setPhase rfl ?_ ?_ rfl rfl rfl rfl rfl, ho.iterate now hph⟩
    · rw [State.pending, State.pending, hph]
      rfl
    · rw [State.running, State.running, hph]
  | step =>
    cases goes_of_step h with
    | start hph hr hdue hfunc => exact ⟨hp.start hph hr hfunc, ho.start hph hr⟩
    | skip hph hr hfunc => exact ⟨hp.skip hph hr hfunc, ho.skip hph hr⟩
    | leave hph hr =>
      refine ⟨hp.setPhase rfl ?_ ?_ rfl rfl rfl rfl rfl, ho.leave hph hr⟩
      · rw [State.pending_eq_drop hph]
        rfl
      · rw [State.running_loop hph]
        rfl
    | requeue hph hr hc => exact ⟨hp.requeue hph hr hc, ho.requeue hp hph hr⟩
    | finish hph hr => exact ⟨hp.finish hph hr, ho.finish hph⟩
    | mergeThread hph => exact ⟨hp.mergeThread hph, ho.mergeThread hph⟩
    | merge hph | merged hph =>
      refine ⟨hp.setPhase rfl ?_ ?_ rfl rfl rfl rfl rfl, ho.congr ?_ (fun _ _ => rfl) rfl rfl
        nofun nofun⟩
      all_goals simp only [State.pending, State.running, hph]

theorem sound_of_reachableVia {d : Fin n} {s : State n} (hs : (system d).ReachableVia FreshId s) :
    Placed s ∧ Ordered s :=
  hs.invariant (fun _ h => h ▸ ⟨placed_start, ordered_start⟩) fun _ _ _ => sound_next

/-! ## Tasks are executed once -/

/-- A task that is started is the one at the iterator. -/
theorem started {d : Fin n} {s s' : State n} {a : Label n} (h : (system d).step s a s') {r : Nat}
    (hr : s'.starts r ≠ s.starts r) :
    ∃ it, s.phase = .loop it ∧ s.scheduledTasks[it]? = some r ∧ (s.task r).utime ≤ s.now ∧
      (s.task r).func = true ∧ s' = s.start it r := by
  cases a with
  | scheduleEvent i utime delay cycle =>
    obtain rfl := Option.some.inj h
    exact absurd rfl hr
  | stopEvent eventId =>
    obtain rfl := Option.some.inj h
    rw [(s.stopEvent_frame eventId).2.1] at hr
    exact absurd rfl hr
  | iterate now =>
    obtain ⟨-, h⟩ := Option.ite_none_right_eq_some.1 h
    obtain rfl := Option.some.inj h
    exact absurd rfl hr
  | step =>
    cases goes_of_step h with
    | @start it r' hph hr' hdue hf =>
      obtain rfl : r = r' := by
        by_contra hne
        exact hr (Function.update_of_ne hne _ _)
      exact ⟨it, hph, hr', hdue, hf, rfl⟩
    | _ => exact absurd rfl hr

/-- What holds of the tasks in every state. -/
structure ExecutesOnce (s : State n) : Prop where
  /-- A one-shot task that was not stopped is queued, or was started once. -/
  once : ∀ r < s.made, (s.task r).cycle = false → s.stopped r = false →
    s.starts r = if s.queued r = 0 then 1 else 0
  /-- It was started once when an iteration has passed its time, unless it is not yet
      merged. -/
  passed : s.phase = .executed → ∀ r < s.made, (s.task r).cycle = false → s.stopped r = false →
    (s.task r).utime ≤ s.now → (∀ i, r ∉ s.threadTasks i) → s.starts r = 1
  /-- While no task is executed, the map has the tasks that are queued and not stopped. -/
  ref : s.running = none → ∀ id r, s.scheduledTasksRef id = some r ↔
    s.queued r ≠ 0 ∧ (s.task r).id = id ∧ s.stopped r = false
  /-- The tasks of an iteration are started in the order of their times. -/
  ran : s.ran.Pairwise (· ≤ ·)

/-- A task is started when it is due and not stopped, a one-shot task for the first time. -/
def StartsInTime (s s' : State n) : Prop :=
  ∀ r, s'.starts r ≠ s.starts r → (s.task r).utime ≤ s.now ∧ s.stopped r = false ∧
    ((s.task r).cycle = false → s.starts r = 0 ∧ s'.starts r = 1)

theorem Placed.startsInTime {d : Fin n} {s s' : State n} {a : Label n} (hs : Placed s)
    (h : (system d).step s a s') : StartsInTime s s' := by
  intro r hr
  obtain ⟨it, hph, hit, hdue, hf, rfl⟩ := started h hr
  have hq : s.queued r ≠ 0 := by
    rw [State.queued_start hph hit, if_pos rfl]
    omega
  have hlive : s.live r ≠ 0 := by
    rw [State.live]
    omega
  have hst : s.stopped r = false := by
    rw [hs.func r hlive] at hf
    simpa using hf
  refine ⟨hdue, hst, fun hc => ?_⟩
  have h0 := hs.starts r (hs.lt_made hlive) hc hst
  rw [if_neg hq] at h0
  exact ⟨h0, (Function.update_self _ _ _).trans (congrArg (· + 1) h0)⟩

theorem executesOnce_of_sound {s : State n} (hp : Placed s) (ho : Ordered s) :
    ExecutesOnce s where
  once := hp.starts
  passed hph r hr hc hst hdue hth := by
    -- The task is neither with a thread nor, as it is due, with the dispatcher.
    have hpend : r ∉ s.pending := fun h => absurd (ho.left hph r h) (Nat.not_lt_of_le hdue)
    rw [hp.starts r hr hc hst, if_pos]
    rw [State.queued, List.count_eq_zero_of_not_mem hpend, Nat.zero_add]
    exact Finset.sum_eq_zero fun i _ => List.count_eq_zero_of_not_mem (hth i)
  ref hrun id r := by
    rw [hp.ref, State.live, hrun]
    rfl
  ran := ho.ran

/-- In every run in which no id is given to a task while another one with it is queued or
    being executed, one-shot tasks that are not stopped are executed once, when they are
    due, no task is started that was stopped, tasks are started in the order of their
    times, and the map has the tasks that are queued and not stopped. -/
theorem executes_once {d : Fin n} {s : State n} (hs : (system d).ReachableVia FreshId s) :
    ExecutesOnce s ∧ ∀ a s', (system d).step s a s' → StartsInTime s s' := by
  obtain ⟨hp, ho⟩ := sound_of_reachableVia hs
  exact ⟨executesOnce_of_sound hp ho, fun _ _ => hp.startsInTime⟩

/-! ## Iterations end -/

/-- A run that schedules a cycle task and a one-shot task, of which the cycle task stops
    itself when it is executed. -/
theorem executes_once_stopEvent :
    ∃ s : State 1, s.phase = .executed ∧ s.starts 0 = 1 ∧ s.starts 1 = 1 ∧ ExecutesOnce s := by
  have hs : (system (n := 1) 0).ReachableVia FreshId _ :=
    System.reachableVia_of_foldlM (.init rfl)
      (l := [.scheduleEvent 0 5 10 true, .scheduleEvent 0 7 0 false, .iterate 0, .step, .step,
        .step, .step, .iterate 7, .step, .stopEvent 1, .step, .step, .step, .step]) rfl
  exact ⟨_, rfl, rfl, rfl, (executes_once hs).1⟩

/-! ## Ids that wrap -/

/-- The first task has the id 1. It is queued with the thread, like others, and none is due
    at 0. The last id given is `k`. -/
structure Parked (k : UInt64) (s : State 1) : Prop where
  phase : s.phase = .events
  scheduledTasks : s.scheduledTasks = []
  made : 0 < s.made
  lastEventId : s.lastEventId = k
  ref : s.scheduledTasksRef 1 = some 0
  later : ∀ r ∈ s.threadTasks 0, r < s.made ∧ 0 < (s.task r).utime

theorem exists_parked_one : ∃ s, (system (n := 1) 0).Reachable s ∧ Parked 1 s := by
  have hs : (system (n := 1) 0).Reachable _ :=
    System.reachableVia_of_foldlM (.init rfl) (l := [.scheduleEvent 0 1 0 false]) rfl
  exact ⟨_, hs, rfl, rfl, by decide, rfl, rfl, by decide⟩

/-- Another task is scheduled. -/
theorem Parked.succ {k : UInt64} {s : State 1} (h : Parked k s) (hk : k + 1 ≠ 0)
    (hk1 : k + 1 ≠ 1) : Parked (k + 1) (s.scheduleEvent 0 1 0 false) := by
  have hnext : s.nextId = k + 1 := by
    rw [State.nextId, h.lastEventId, if_neg hk]
  refine ⟨h.phase, h.scheduledTasks, Nat.succ_pos _, hnext, ?_, fun r hr => ?_⟩
  · have hne : (1 : UInt64) ≠ s.nextId := by
      rw [hnext]
      exact Ne.symm hk1
    exact (Function.update_of_ne hne _ _).trans h.ref
  · have hr' : r ∈ s.threadTasks 0 ++ [s.made] := hr
    rcases List.mem_append.1 hr' with hr' | hr'
    · obtain ⟨hlt, htime⟩ := h.later r hr'
      have hsame : (s.scheduleEvent 0 1 0 false).task r = s.task r :=
        Function.update_of_ne hlt.ne _ _
      exact ⟨Nat.lt_succ_of_lt hlt, by rwa [hsame]⟩
    · obtain rfl := List.mem_singleton.1 hr'
      have hself : (s.scheduleEvent 0 1 0 false).task s.made = ⟨s.nextId, 1, 0, false, true⟩ :=
        Function.update_self _ _ _
      exact ⟨Nat.lt_succ_self _, by rw [hself]; exact Nat.one_pos⟩

theorem exists_parked (k : Nat) (hk : k + 1 < 2 ^ 64) :
    ∃ s, (system (n := 1) 0).Reachable s ∧ Parked (UInt64.ofNat (k + 1)) s := by
  induction k with
  | zero => exact exists_parked_one
  | succ k ih =>
    obtain ⟨s, hs, h⟩ := ih (Nat.lt_of_succ_lt hk)
    have hsucc : UInt64.ofNat (k + 1) + 1 = UInt64.ofNat (k + 1 + 1) := by
      rw [UInt64.ofNat_add (k + 1) 1]
      rfl
    have hnat : (UInt64.ofNat (k + 1 + 1)).toNat = k + 2 := by
      rw [UInt64.toNat_ofNat', Nat.mod_eq_of_lt hk]
    refine ⟨_, hs.step (a := .scheduleEvent 0 1 0 false) trivial rfl, ?_⟩
    rw [← hsucc] at hnat ⊢
    refine h.succ (fun h0 => ?_) (fun h1 => ?_)
    · rw [h0] at hnat
      cases hnat
    · rw [h1] at hnat
      cases hnat

/-- The queue of the thread has been merged, and an iteration begins at 0. -/
def State.again (s : State 1) : State 1 :=
  { s with
    now := 0, phase := .loop 0, ran := []
    scheduledTasks := (s.threadTasks 0).foldl s.insertTask []
    threadTasks := Function.update s.threadTasks 0 [] }

/-- When nothing is queued with the dispatcher, the next iteration executes nothing and
    merges the queue of the thread. -/
theorem iterate_twice {s : State 1} (hph : s.phase = .events) (hset : s.scheduledTasks = []) :
    [.iterate 0, .step, .step, .step, .step, .iterate 0].foldlM (next 0) s = some s.again := by
  obtain ⟨task, made, last, threadTasks, set, ref, phase, now, starts, stopped, ran⟩ := s
  obtain rfl : phase = .events := hph
  obtain rfl : set = [] := hset
  rfl

/-- The task inserted last is the first one, if the others are due later. -/
theorem foldl_insertTask_concat {s : State 1} {l : List Nat} {c : Nat}
    (h : ∀ r ∈ l, (s.task c).utime < (s.task r).utime) :
    ((l ++ [c]).foldl s.insertTask [])[0]? = some c := by
  rw [List.foldl_append, List.foldl_cons, List.foldl_nil]
  have hmem : ∀ r ∈ l.foldl s.insertTask [], r ∈ l := fun r hr => by
    have hc := s.count_foldl_insertTask [] l r
    have hpos := List.count_pos_iff.2 hr
    exact List.count_pos_iff.1 (by simpa [hc] using hpos)
  cases hl : l.foldl s.insertTask [] with
  | nil => rfl
  | cons b l' =>
    have hb : (s.task c).utime < (s.task b).utime := h b (hmem b (by simp [hl]))
    rw [State.insertTask, List.orderedInsert_cons, if_pos hb]
    rfl

/-- When the ids have wrapped, the next task has the id of the first one, which is still
    queued. The id is stopped, and the task is started all the same. -/
theorem starts_stopped :
    ¬ ∀ s : State 1, (system 0).Reachable s →
      ExecutesOnce s ∧ ∀ a s', (system 0).step s a s' → StartsInTime s s' := by
  intro hall
  obtain ⟨s, hs, hph, hset, hmade, hlast, href, hlater⟩ := exists_parked (2 ^ 64 - 2) (by decide)
  have hnext : s.nextId = 1 := by
    rw [State.nextId, hlast]
    rfl
  -- The map keeps the first task, which is the one that is cancelled.
  let t := s.scheduleEvent 0 0 0 false
  have htref : t.scheduledTasksRef 1 = some 0 := by
    change Function.update _ s.nextId _ 1 = _
    rw [hnext, Function.update_self, href]
    rfl
  have htask : t.task s.made = ⟨1, 0, 0, false, true⟩ := by
    rw [← hnext]
    exact Function.update_self _ _ _
  have hu : t.stopEvent 1 = ((t.cancel 0).eraseRef 1).noteStopped 1 := by
    rw [State.stopEvent, htref]
  have ht : (system 0).Reachable t := .step (a := .scheduleEvent 0 0 0 false) hs trivial rfl
  have hreach : (system 0).Reachable (t.stopEvent 1) := .step (a := .stopEvent 1) ht trivial rfl
  have hutask : (t.stopEvent 1).task s.made = ⟨1, 0, 0, false, true⟩ := by
    rw [hu, ← htask]
    exact Function.update_of_ne hmade.ne' _ _
  have hstopped : (t.stopEvent 1).stopped s.made = true := by
    rw [t.stopped_stopEvent, if_pos ⟨Nat.lt_succ_self _, by rw [htask]⟩]
  have huph : (t.stopEvent 1).phase = .events := by
    rw [hu]
    exact hph
  have huset : (t.stopEvent 1).scheduledTasks = [] := by
    rw [hu]
    exact hset
  have hth : (t.stopEvent 1).threadTasks 0 = s.threadTasks 0 ++ [s.made] := by
    rw [hu]
    rfl
  -- The task is the first one to be started, as none of the others is due at 0.
  have hfirst : (((t.stopEvent 1).threadTasks 0).foldl (t.stopEvent 1).insertTask [])[0]? =
      some s.made := by
    rw [hth]
    refine foldl_insertTask_concat fun r hr => ?_
    obtain ⟨hlt, htime⟩ := hlater r hr
    have htr : t.task r = s.task r := Function.update_of_ne hlt.ne _ _
    rw [hutask, t.utime_stopEvent, htr]
    exact htime
  have hreach' := System.reachable_of_foldlM hreach (iterate_twice huph huset)
  have hstep : (t.stopEvent 1).again.step 0 = some ((t.stopEvent 1).again.start 0 s.made) := by
    simp only [State.step, State.again, hfirst, hutask]
    rfl
  have hstarts := (hall _ hreach').2 .step _ hstep
  have hnot : (t.stopEvent 1).stopped s.made = false := by
    refine (hstarts s.made fun h => ?_).2.1
    exact absurd ((Function.update_self _ _ _).symm.trans h) (Nat.succ_ne_self _)
  rw [hstopped] at hnot
  cases hnot

end Canary.Scheduling.ScheduledEvents
