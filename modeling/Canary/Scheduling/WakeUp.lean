import Canary.Lib.Transition
import Mathlib.Data.List.FinRange
import Mathlib.Data.Fintype.Defs
import Mathlib.Data.Finset.Insert
import Mathlib.Logic.Function.Basic

/-!
# Waking the dispatcher

Tasks reach the dispatcher through a queue for each thread. A thread adds a task to its
own queue, under the mutex of that queue; then it sets `hasPendingTasks`, if it finds it
cleared, and notifies (`notify`). The dispatcher collects the queues one after the
other, clears the flag, sets it again if it holds tasks to execute, and waits if it
finds it cleared: until it is notified or, if it holds scheduled tasks, the first of them
is due.

A run interleaves the accesses of any number of threads and of the dispatcher to the
queues, to the flag and to the condition variable, one at a time; what is done under a
mutex is one step where no other thread can tell the difference. The dispatcher may be
woken spuriously.

The flag is cleared after the queues were collected, and tested before the wait, without
a lock that the threads would take too. A task added in between is not seen, and nobody
wakes the dispatcher for it (`lost_wakeUp`). Apart from these two places no wake-up is
lost (`no_lost_wakeUp`).
-/

namespace Canary.Scheduling.Dispatcher

open Transition

/-- Where a task is queued: `tasks[Serial]` (`addEvent`), `tasks[GenericParallel]`
    (`asyncEvent`) and `scheduledTasks` (`scheduleEvent`). -/
inductive Queue where
  | serial
  | parallel
  | scheduled
  deriving DecidableEq, Repr

instance : Fintype Queue where
  elems := {.serial, .parallel, .scheduled}
  complete q := by cases q <;> decide

/-- What a thread that may add tasks is about to do. -/
inductive Producer where
  | idle
  /-- The task is in the queue, the flag is to be tested. The mutex is held. -/
  | test (q : Queue)
  /-- The flag was found cleared, it is to be set. The mutex is held. -/
  | set (q : Queue)
  /-- The flag is set, the condition variable is to be notified. The mutex is held. -/
  | notify (q : Queue)
  deriving DecidableEq, Repr

/-- What the dispatcher is about to do. The lists are the threads whose queues are still
    to be collected. -/
inductive Pc (n : Nat) where
  | executeEvents
  | executeScheduledEvents
  /-- `scheduled`: in `executeScheduledEvents`, otherwise in `executeEvents`. -/
  | mergeAsyncEvents (scheduled : Bool) (threads : List (Fin n))
  | executeParallelEvents (scheduled : Bool)
  | mergeEvents (threads : List (Fin n))
  /-- `checkPendingTasks`: to clear the flag. -/
  | clearPending
  /-- `checkPendingTasks`: to look for tasks. -/
  | checkTasks
  | testPending
  | wait
  | waiting (notified : Bool)
  deriving DecidableEq, Repr

/-- `τ` are the tasks, `n` is the number of threads. -/
structure State (n : Nat) (τ : Type) where
  /-- The queues of the threads. -/
  queue : Fin n → Queue → List τ
  producer : Fin n → Producer
  /-- `m_tasks` and `scheduledTasks`, the queues of the dispatcher. -/
  own : Queue → List τ
  hasPendingTasks : Bool
  pc : Pc n

inductive Label (n : Nat) (τ : Type) where
  /-- The thread calls `addEvent`, `asyncEvent` or `scheduleEvent`. -/
  | add (i : Fin n) (q : Queue) (task : τ)
  /-- The thread takes the next step of the call. -/
  | produce (i : Fin n)
  /-- The dispatcher takes its next step. -/
  | dispatch
  /-- The dispatcher executes its first `due` scheduled tasks; those in `cycle` are
      queued again. -/
  | executeScheduled (due : Nat) (cycle : τ → Bool)
  /-- The dispatcher is woken: by a notification, by its timeout, or spuriously. -/
  | wake

variable {n : Nat} {τ : Type}

/-- A notification is made. It has no effect if the dispatcher does not wait. -/
def Pc.notified : Pc n → Pc n
  | .waiting _ => .waiting true
  | pc => pc

namespace State

/-- The dispatcher executes tasks, which may themselves add tasks. -/
def executes (s : State n τ) : Bool :=
  match s.pc with
  | .executeEvents => !(s.own .serial).isEmpty
  | .executeScheduledEvents => !(s.own .scheduled).isEmpty
  | _ => false

/-- The calling thread puts the task in its queue. -/
def add (s : State n τ) (i : Fin n) (q : Queue) (task : τ) : State n τ :=
  { s with
    queue := Function.update s.queue i
      (Function.update (s.queue i) q (s.queue i q ++ [task]))
    producer := Function.update s.producer i (.test q) }

/-- `notify`, one access at a time. -/
def produce (s : State n τ) (i : Fin n) : Option (State n τ) :=
  match s.producer i with
  | .idle => none
  | .test q =>
    let p := if s.hasPendingTasks then .idle else .set q
    some { s with producer := Function.update s.producer i p }
  | .set q =>
    some { s with hasPendingTasks := true, producer := Function.update s.producer i (.notify q) }
  | .notify _ =>
    some { s with
      producer := Function.update s.producer i .idle
      pc := s.pc.notified }

/-- The tasks of a queue of a thread are moved to the same queue of the dispatcher. -/
def move (s : State n τ) (i : Fin n) (q : Queue) : State n τ :=
  { s with
    queue := Function.update s.queue i (Function.update (s.queue i) q [])
    own := Function.update s.own q (s.own q ++ s.queue i q) }

/-- A step of the loop of the dispatcher. A queue is collected when its mutex is free. -/
def dispatch (s : State n τ) : Option (State n τ) :=
  match s.pc with
  | .executeEvents =>
    if s.own .serial = [] then some { s with pc := .executeScheduledEvents }
    else some { s with
      own := Function.update s.own .serial []
      pc := .mergeAsyncEvents false (List.finRange n) }
  | .executeScheduledEvents => none
  | .mergeAsyncEvents b [] => some { s with pc := .executeParallelEvents b }
  | .mergeAsyncEvents b (i :: threads) =>
    if s.producer i = .idle then
      some { s.move i .parallel with pc := .mergeAsyncEvents b threads }
    else none
  | .executeParallelEvents b =>
    some { s with
      own := Function.update s.own .parallel []
      pc := if b then .mergeEvents (List.finRange n) else .executeScheduledEvents }
  | .mergeEvents [] => some { s with pc := .clearPending }
  | .mergeEvents (i :: threads) =>
    if s.producer i = .idle then
      some { (s.move i .serial).move i .scheduled with pc := .mergeEvents threads }
    else none
  | .clearPending => some { s with hasPendingTasks := false, pc := .checkTasks }
  | .checkTasks =>
    some { s with
      hasPendingTasks := s.hasPendingTasks || !(s.own .serial).isEmpty || !(s.own .parallel).isEmpty
      pc := .testPending }
  | .testPending => some { s with pc := if s.hasPendingTasks then .executeEvents else .wait }
  | .wait => some { s with pc := .waiting false }
  | .waiting _ => none

/-- `executeScheduledEvents`, up to the merge. The thread of the dispatcher is `d`. -/
def executeScheduled (d : Fin n) (s : State n τ) (due : Nat) (cycle : τ → Bool) : State n τ :=
  { s with
    own := Function.update s.own .scheduled ((s.own .scheduled).drop due)
    queue := Function.update s.queue d (Function.update (s.queue d) .scheduled
      (s.queue d .scheduled ++ ((s.own .scheduled).take due).filter cycle))
    pc := .mergeAsyncEvents true (List.finRange n) }

end State

/-- The steps. The thread of the dispatcher, `d`, adds tasks while it executes some, and
    goes on when these calls have returned. -/
def next (d : Fin n) (s : State n τ) : Label n τ → Option (State n τ)
  | .add i q task =>
    if s.producer i = .idle ∧ (i = d → s.executes) then some (s.add i q task) else none
  | .produce i => s.produce i
  | .dispatch => if s.producer d = .idle then s.dispatch else none
  | .executeScheduled due cycle =>
    if s.producer d = .idle ∧ s.pc = .executeScheduledEvents then
      some (s.executeScheduled d due cycle)
    else none
  | .wake =>
    match s.pc with
    | .waiting _ => some { s with pc := .executeEvents }
    | _ => none

/-- The state in which the dispatcher is started. -/
def start : State n τ := ⟨fun _ _ => [], fun _ => .idle, fun _ => [], false, .executeEvents⟩

/-- The runs of a dispatcher in the thread `d`. -/
def system (d : Fin n) : System (State n τ) (Label n τ) := .ofNext (· = start) (next d)

/-! ## What is lost, and where -/

namespace State

/-- The tasks in a queue of the thread that were added by calls that have returned: all
    but the one of the call at work, if there is one. -/
def returned (s : State n τ) (i : Fin n) (q : Queue) : List τ :=
  match s.producer i with
  | .idle => s.queue i q
  | .test q' | .set q' | .notify q' => if q' = q then (s.queue i q).dropLast else s.queue i q

/-- The thread is about to notify. -/
def notifies (s : State n τ) (i : Fin n) : Bool :=
  match s.producer i with
  | .notify _ => true
  | _ => false

/-- The dispatcher waits, without a timeout, and no notification has been made or is on
    its way. -/
def Sleeps (s : State n τ) : Prop :=
  s.pc = .waiting false ∧ s.own .scheduled = [] ∧ ∀ i, s.notifies i = false

/-- The tasks of the thread all belong to a call that has still to look at the flag, or
    to set it. -/
def Fresh (s : State n τ) (i : Fin n) : Prop :=
  (∀ q, s.returned i q = []) ∧ s.notifies i = false

instance (s : State n τ) (i : Fin n) : Decidable (s.Fresh i) :=
  inferInstanceAs (Decidable ((∀ q, s.returned i q = []) ∧ s.notifies i = false))

/-- The dispatcher has no task to execute at once. -/
def Idle (s : State n τ) : Prop := s.own .serial = [] ∧ s.own .parallel = []

instance (s : State n τ) : Decidable s.Idle :=
  inferInstanceAs (Decidable (s.own .serial = [] ∧ s.own .parallel = []))

end State

/-- The two places where a wake-up may be lost are passed in time: the flag is cleared
    when no task has been left behind, unless there are others to execute; and the wait
    begins when the flag has not been set since it was tested, unless there is a timeout
    or the notification is still to come. -/
def InTime (s : State n τ) : Label n τ → Prop
  | .dispatch =>
    (s.pc = .clearPending → ¬ s.Idle ∨ ∀ i, s.Fresh i) ∧
      (s.pc = .wait → s.own .scheduled ≠ [] ∨ s.hasPendingTasks = false ∨
        ∃ i, s.notifies i = true)
  | _ => True

instance (s : State n τ) (a : Label n τ) : Decidable (InTime s a) :=
  match a with
  | .dispatch => inferInstanceAs (Decidable ((_ → _) ∧ (_ → _)))
  | .add .. | .produce _ | .executeScheduled .. | .wake => isTrue trivial

namespace Pc

/-- The flag was cleared, and the dispatcher has not been woken since. -/
def cleared : Pc n → Bool
  | .checkTasks | .testPending | .wait | .waiting _ => true
  | _ => false

/-- The flag was found cleared, and the dispatcher has not been woken since. -/
def sleeps : Pc n → Bool
  | .wait | .waiting _ => true
  | _ => false

theorem cleared_of_sleeps {pc : Pc n} (h : pc.sleeps = true) : pc.cleared = true := by
  cases pc <;> first | exact h | rfl

@[simp]
theorem cleared_notified (pc : Pc n) : pc.notified.cleared = pc.cleared := by
  cases pc <;> rfl

@[simp]
theorem sleeps_notified (pc : Pc n) : pc.notified.sleeps = pc.sleeps := by
  cases pc <;> rfl

theorem notified_ne_waiting (pc : Pc n) : pc.notified ≠ .waiting false := by
  cases pc <;> rintro ⟨⟩

theorem eq_testPending_of_notified {pc : Pc n} (h : pc.notified = .testPending) :
    pc = .testPending := by
  cases pc <;> first | exact h | cases h

end Pc

/-- From the time the flag is cleared: as long as it is, and there is nothing to execute,
    no task has been left behind; and a dispatcher that waits will be woken if it is set. -/
structure Watched (s : State n τ) : Prop where
  tested : s.pc = .testPending → s.hasPendingTasks = false → s.Idle
  idle : s.pc.sleeps = true → s.Idle
  fresh : s.pc.cleared = true → s.Idle → s.hasPendingTasks = false → ∀ i, s.Fresh i
  woken : s.pc = .waiting false → s.own .scheduled ≠ [] ∨ s.hasPendingTasks = false ∨
    ∃ i, s.notifies i = true

theorem watched_start : Watched (start : State n τ) := ⟨nofun, nofun, nofun, nofun⟩

theorem notifies_congr {s s' : State n τ} {i : Fin n} (hp : s'.producer i = s.producer i) :
    s'.notifies i = s.notifies i := by
  rw [State.notifies, State.notifies, hp]

/-- What a thread has left behind depends on its queues and its call only. -/
theorem fresh_congr {s s' : State n τ} {i : Fin n} (hq : s'.queue i = s.queue i)
    (hp : s'.producer i = s.producer i) : s'.Fresh i ↔ s.Fresh i := by
  rw [State.Fresh, State.Fresh, notifies_congr hp]
  simp only [State.returned, hq, hp]

/-- A task that is added belongs to a call at work. -/
theorem fresh_add {s : State n τ} {i : Fin n} (hi : s.producer i = .idle) (q : Queue)
    (task : τ) (hs : s.Fresh i) : (s.add i q task).Fresh i := by
  refine ⟨fun q' => ?_, by simp [State.notifies, State.add]⟩
  rcases eq_or_ne q q' with rfl | hq
  · simpa [State.returned, State.add, hi] using hs.1 q
  · simpa [State.returned, State.add, hi, hq, Function.update_of_ne hq.symm] using hs.1 q'

theorem watched_add {s : State n τ} (hs : Watched s) {i : Fin n} (hi : s.producer i = .idle)
    (q : Queue) (task : τ) : Watched (s.add i q task) where
  tested := hs.tested
  idle := hs.idle
  fresh hpc hidle hflag j := by
    have hj := hs.fresh hpc hidle hflag j
    rcases eq_or_ne j i with rfl | hne
    · exact fresh_add hi q task hj
    · exact (fresh_congr (Function.update_of_ne hne _ _) (Function.update_of_ne hne _ _)).2 hj
  woken hpc := by
    refine (hs.woken hpc).imp_right fun h => h.imp_right fun ⟨j, hj⟩ => ⟨j, ?_⟩
    have hne : j ≠ i := by
      rintro rfl
      simp [State.notifies, hi] at hj
    rwa [notifies_congr (Function.update_of_ne hne _ _)]

/-- A call that finds the flag cleared goes on; it has not notified yet. -/
theorem fresh_test {s s' : State n τ} {i : Fin n} {q : Queue} (hp : s.producer i = .test q)
    (hq : s'.queue = s.queue) (hp' : s'.producer = Function.update s.producer i (.set q))
    {j : Fin n} (hs : s.Fresh j) : s'.Fresh j := by
  rcases eq_or_ne j i with rfl | hne
  · refine ⟨fun q' => ?_, by simp [State.notifies, hp']⟩
    simpa [State.returned, hp, hp', hq] using hs.1 q'
  · exact (fresh_congr (congrFun hq j) (hp' ▸ Function.update_of_ne hne _ _)).2 hs

/-- A step of a call. -/
theorem watched_produce {s s' : State n τ} (hs : Watched s) {i : Fin n}
    (h : s.produce i = some s') : Watched s' := by
  rw [State.produce] at h
  cases hp : s.producer i with
  | idle =>
    rw [hp] at h
    cases h
  | test q =>
    rw [hp] at h
    obtain rfl := Option.some.inj h
    refine ⟨hs.tested, hs.idle, fun hpc hidle hflag j => ?_, fun hpc => ?_⟩
    · have hflag' : s.hasPendingTasks = false := hflag
      refine fresh_test hp ?_ ?_ (hs.fresh hpc hidle hflag j)
      · rfl
      · rw [hflag']
        rfl
    · refine (hs.woken hpc).imp_right fun h => h.imp_right fun ⟨j, hj⟩ => ⟨j, ?_⟩
      have hne : j ≠ i := by
        rintro rfl
        simp [State.notifies, hp] at hj
      rwa [notifies_congr (Function.update_of_ne hne _ _)]
  | set q =>
    rw [hp] at h
    obtain rfl := Option.some.inj h
    refine ⟨fun _ hflag => ?_, hs.idle, fun _ _ hflag => ?_, fun _ => ?_⟩
    · cases hflag
    · cases hflag
    · exact .inr (.inr ⟨i, by simp [State.notifies]⟩)
  | notify q =>
    rw [hp] at h
    obtain rfl := Option.some.inj h
    have hn : s.notifies i = true := by rw [State.notifies, hp]
    refine ⟨fun hpc => hs.tested (Pc.eq_testPending_of_notified hpc), fun hpc => hs.idle ?_,
      fun hpc hidle hflag => ?_, fun hpc => absurd hpc (Pc.notified_ne_waiting _)⟩
    · rwa [Pc.sleeps_notified] at hpc
    · -- The flag has been set, to notify.
      rw [Pc.cleared_notified] at hpc
      have hf := (hs.fresh hpc hidle hflag i).2
      rw [hn] at hf
      cases hf

/-- While the flag has not been cleared, there is nothing to keep. -/
theorem watched_of_not_cleared {s : State n τ} (h : s.pc.cleared = false) : Watched s := by
  refine ⟨fun hpc => ?_, fun hpc => ?_, fun hpc => ?_, fun hpc => ?_⟩
  · rw [hpc] at h
    cases h
  · rw [Pc.cleared_of_sleeps hpc] at h
    cases h
  · rw [h] at hpc
    cases hpc
  · rw [hpc] at h
    cases h

/-- A step of the dispatcher, which passes the two places in time. -/
theorem watched_dispatch {s s' : State n τ} (hs : Watched s)
    (hin : InTime s (.dispatch : Label n τ)) (h : s.dispatch = some s') : Watched s' := by
  rw [State.dispatch] at h
  cases hpc : s.pc with
  | clearPending =>
    -- What has been left behind by now would stay there.
    rw [hpc] at h
    obtain rfl := Option.some.inj h
    refine ⟨nofun, nofun, fun _ hidle _ => ?_, nofun⟩
    exact (hin.1 hpc).resolve_left (not_not_intro hidle)
  | checkTasks =>
    rw [hpc] at h
    obtain rfl := Option.some.inj h
    refine ⟨fun _ hflag => ?_, nofun, fun _ hidle hflag => ?_, nofun⟩
    · obtain ⟨h₁, h₂⟩ := Bool.or_eq_false_iff.1 hflag
      obtain ⟨-, h₁⟩ := Bool.or_eq_false_iff.1 h₁
      exact ⟨by simpa using h₁, by simpa using h₂⟩
    · obtain ⟨h₁, -⟩ := Bool.or_eq_false_iff.1 (Bool.or_eq_false_iff.1 hflag).1
      exact hs.fresh (by rw [hpc]; rfl) hidle h₁
  | testPending =>
    rw [hpc] at h
    obtain rfl := Option.some.inj h
    rcases hflag : s.hasPendingTasks with _ | _
    · have hidle := hs.tested hpc hflag
      refine ⟨nofun, fun _ => hidle, fun _ _ _ => ?_, nofun⟩
      exact hs.fresh (by rw [hpc]; rfl) hidle hflag
    · exact watched_of_not_cleared rfl
  | wait =>
    rw [hpc] at h
    obtain rfl := Option.some.inj h
    have hidle := hs.idle (by rw [hpc]; rfl)
    exact ⟨nofun, fun _ => hidle, fun _ _ => hs.fresh (by rw [hpc]; rfl) hidle, fun _ => hin.2 hpc⟩
  | waiting b =>
    rw [hpc] at h
    cases h
  | executeEvents =>
    rw [hpc] at h
    refine watched_of_not_cleared ?_
    dsimp only at h
    split at h <;> obtain rfl := Option.some.inj h <;> rfl
  | executeScheduledEvents =>
    rw [hpc] at h
    cases h
  | mergeAsyncEvents b threads =>
    rw [hpc] at h
    refine watched_of_not_cleared ?_
    cases threads with
    | nil =>
      obtain rfl := Option.some.inj h
      rfl
    | cons i threads =>
      obtain ⟨-, h⟩ := Option.ite_none_right_eq_some.1 h
      obtain rfl := Option.some.inj h
      rfl
  | executeParallelEvents b =>
    rw [hpc] at h
    obtain rfl := Option.some.inj h
    refine watched_of_not_cleared ?_
    cases b <;> rfl
  | mergeEvents threads =>
    rw [hpc] at h
    refine watched_of_not_cleared ?_
    cases threads with
    | nil =>
      obtain rfl := Option.some.inj h
      rfl
    | cons i threads =>
      obtain ⟨-, h⟩ := Option.ite_none_right_eq_some.1 h
      obtain rfl := Option.some.inj h
      rfl

theorem watched_next {d : Fin n} {s s' : State n τ} {a : Label n τ} (hs : Watched s)
    (hin : InTime s a) (h : (system d).step s a s') : Watched s' := by
  cases a with
  | add i q task =>
    obtain ⟨hi, h⟩ := Option.ite_none_right_eq_some.1 h
    obtain rfl := Option.some.inj h
    exact watched_add hs hi.1 q task
  | produce i => exact watched_produce hs h
  | dispatch => exact watched_dispatch hs hin (Option.ite_none_right_eq_some.1 h).2
  | executeScheduled due cycle =>
    obtain ⟨-, h⟩ := Option.ite_none_right_eq_some.1 h
    obtain rfl := Option.some.inj h
    exact watched_of_not_cleared rfl
  | wake =>
    simp only [system, System.ofNext, next] at h
    split at h
    · obtain rfl := Option.some.inj h
      exact watched_of_not_cleared rfl
    · cases h

/-- When the dispatcher waits, without a timeout, and no notification has been made or is
    on its way, the task of every call that has returned has been moved to the dispatcher,
    in every run that passes the two places in time. -/
theorem no_lost_wakeUp {d : Fin n} {s : State n τ} (hs : (system d).ReachableVia InTime s)
    (hsleeps : s.Sleeps) (i : Fin n) (q : Queue) : s.returned i q = [] := by
  have hw : Watched s := hs.invariant (fun _ h => h ▸ watched_start) fun _ _ _ => watched_next
  obtain ⟨hpc, hown, hn⟩ := hsleeps
  have hidle : s.Idle := hw.idle (by rw [hpc]; rfl)
  have hflag : s.hasPendingTasks = false := by
    rcases hw.woken hpc with h | h | ⟨j, hj⟩
    · exact absurd hown h
    · exact h
    · rw [hn j] at hj
      cases hj
  exact (hw.fresh (by rw [hpc]; rfl) hidle hflag i).1 q

/-- The steps by which the dispatcher, with nothing to execute, has collected the queues
    of both threads, of which the first one is its own. -/
def collect : List (Label 2 Nat) :=
  [.dispatch, .executeScheduled 0 fun _ => false, .dispatch, .dispatch, .dispatch, .dispatch,
    .dispatch, .dispatch, .dispatch]

/-- The call of `addEvent` by the second thread. -/
def addEvent (task : Nat) : List (Label 2 Nat) :=
  [.add 1 .serial task, .produce 1, .produce 1, .produce 1]

/-- The second thread adds a task before its queue is collected. The dispatcher does not
    wait until it has executed it. -/
theorem no_lost_wakeUp_addEvent :
    ∃ s : State 2 Nat, s.Sleeps ∧ s.own .serial = [] ∧ s.returned 1 .serial = [] := by
  have hs : (system (n := 2) (τ := Nat) 0).ReachableVia InTime _ :=
    System.reachableVia_of_foldlM (.init rfl)
      (l := addEvent 42 ++ collect ++ List.replicate 8 .dispatch ++ collect.tail ++
        List.replicate 4 .dispatch) rfl
  refine ⟨_, ?_, rfl, no_lost_wakeUp hs ?_ 1 .serial⟩ <;>
    exact ⟨rfl, rfl, Fin.forall_fin_two.2 ⟨rfl, rfl⟩⟩

/-- The second thread adds a task when its queue has been collected and the flag has not
    been cleared yet. The dispatcher waits, and the task stays in its queue. -/
theorem lost_wakeUp :
    ¬ ∀ s, (system (n := 2) (τ := Nat) 0).Reachable s → s.Sleeps → ∀ i q, s.returned i q = [] := by
  intro h
  have hs : (system (n := 2) (τ := Nat) 0).Reachable _ :=
    System.reachableVia_of_foldlM (.init rfl)
      (l := collect ++ addEvent 42 ++ [.dispatch, .dispatch, .dispatch, .dispatch]) rfl
  have hq := h _ hs ⟨rfl, rfl, Fin.forall_fin_two.2 ⟨rfl, rfl⟩⟩ 1 .serial
  cases hq

end Canary.Scheduling.Dispatcher
