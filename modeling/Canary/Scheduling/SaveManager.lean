import Canary.Lib.Transition
import Mathlib.Logic.Function.Basic
import Mathlib.Algebra.Order.Ring.Int

/-!
# The save manager

`schedulePlayer` notes in `m_playerMap` when a save of the player was last asked for,
and enqueues a load on the thread pool. A load that finds another time there than the
one it was enqueued with leaves the save to a later load; otherwise it saves the player,
having erased the entry (`doSavePlayer`).

Calls and loads run on several threads. What a thread is about to do is a `Thread`, its
steps are the accesses to what the threads share (`SaveManager.advance`), and a run
interleaves the steps of any number of threads. Players are known by their GUID; the
clock may stand still between two calls.

* `saved_of_idle`: when all threads are done, every call was followed by a save of the
  player that started after it, in any interleaving;
* `saved_and_removed_of_idle`: the entry of the player is then removed as well, if no
  load looked for it after it was removed. Such a load inserts it again
  (`not_removed_two_calls`), since it looks with `operator[]`.
-/

namespace Canary.Scheduling

open Transition

/-- What is recorded of a run: the calls of `schedulePlayer` that wrote their time, and
    the attempts to save a player. -/
inductive SaveEvent where
  | schedulePlayer (guid : UInt32)
  | savePlayer (guid : UInt32)
  deriving DecidableEq, Repr

/-- What the threads share. -/
structure SaveManager where
  /-- `std::chrono::steady_clock::now()`. -/
  now : Nat
  /-- `m_playerMap`. -/
  playerMap : UInt32 → Option Nat
  /-- The players whose weak pointers can be locked. -/
  online : UInt32 → Bool
  /-- The events so far, the last one at the end. -/
  log : List SaveEvent

/-- What a thread is about to do. -/
inductive Thread where
  /-- In `schedulePlayer`: to lock the pointer and read the clock. -/
  | schedulePlayer (guid : UInt32)
  /-- In `schedulePlayer`: to write the time. -/
  | write (guid : UInt32) (scheduledAt : Nat)
  /-- In `schedulePlayer`: to enqueue the load. -/
  | addLoad (guid : UInt32) (scheduledAt : Nat)
  /-- An enqueued load, which has not started. -/
  | load (guid : UInt32) (scheduledAt : Nat)
  /-- In `doSavePlayer`: to lock the player. -/
  | doSavePlayer (guid : UInt32)
  /-- In `doSavePlayer`, the player locked: to erase the entry. -/
  | erase (guid : UInt32)
  /-- In `doSavePlayer`: to call `IOLoginData::savePlayer`. -/
  | savePlayer (guid : UInt32)
  /-- In `doSavePlayer`: the player is saved, to be unlocked. -/
  | unlock (guid : UInt32)
  deriving DecidableEq, Repr

/-- The thread holds the lock of the player (`PlayerLock`). -/
def Thread.holds (guid : UInt32) : Thread → Bool
  | .erase g | .savePlayer g | .unlock g => g == guid
  | _ => false

namespace SaveManager

/-- `m_playerMap[guid]`, which inserts the default time point if there is no entry. -/
def lookup (m : SaveManager) (guid : UInt32) : Nat × SaveManager :=
  match m.playerMap guid with
  | some t => (t, m)
  | none => (0, { m with playerMap := Function.update m.playerMap guid (some 0) })

/-- One step of a thread, and what it is about to do then, if anything; `locked` are the
    players whose lock another thread holds. -/
def advance (m : SaveManager) (locked : UInt32 → Bool) :
    Thread → Option (SaveManager × Option Thread)
  | .schedulePlayer g => some (m, if m.online g then some (.write g m.now) else none)
  | .write g t =>
    some ({ m with
      playerMap := Function.update m.playerMap g (some t)
      log := m.log ++ [.schedulePlayer g] }, some (.addLoad g t))
  | .addLoad g t => some (m, some (.load g t))
  | .load g t =>
    if m.online g then
      some ((m.lookup g).2, if (m.lookup g).1 = t then some (.doSavePlayer g) else none)
    else some (m, none)
  -- The thread waits as long as another one holds the lock.
  | .doSavePlayer g => if locked g then none else some (m, some (.erase g))
  | .erase g =>
    some ({ m with playerMap := Function.update m.playerMap g none }, some (.savePlayer g))
  | .savePlayer g => some ({ m with log := m.log ++ [.savePlayer g] }, some (.unlock g))
  | .unlock _ => some (m, none)

/-- The manager and the threads at work. -/
structure State where
  manager : SaveManager
  threads : List Thread

inductive Label where
  /-- A thread calls `schedulePlayer`. -/
  | schedulePlayer (guid : UInt32)
  /-- A thread saves the player directly (`saveAll`; `savePlayer`, of a player who is
      not online). -/
  | doSavePlayer (guid : UInt32)
  /-- The thread at the index takes a step. -/
  | advance (i : Nat)
  | tick
  /-- The player object is destroyed. -/
  | logout (guid : UInt32)
  deriving DecidableEq, Repr

def next (s : State) : Label → Option State
  | .schedulePlayer g => some { s with threads := s.threads ++ [.schedulePlayer g] }
  | .doSavePlayer g => some { s with threads := s.threads ++ [.doSavePlayer g] }
  | .advance i =>
    (s.threads[i]?).bind fun th =>
      (s.manager.advance (fun g => s.threads.any (·.holds g)) th).map fun r =>
        ⟨r.1, s.threads.take i ++ r.2.toList ++ s.threads.drop (i + 1)⟩
  | .tick => some { s with manager := { s.manager with now := s.manager.now + 1 } }
  | .logout g =>
    some { s with manager := { s.manager with online := Function.update s.manager.online g false } }

/-- No entries, no threads, nothing recorded; any players are online. -/
def Init (s : State) : Prop :=
  s.manager.playerMap = (fun _ => none) ∧ s.manager.log = [] ∧ s.threads = []

/-- The runs of the save manager. -/
def system : System State Label := .ofNext Init next

/-! ## Steps -/

/-- A step of a thread replaces it, in its place, by what it is about to do then. -/
theorem next_advance {s s' : State} {i : Nat} (h : next s (.advance i) = some s') :
    ∃ l₁ th l₂ th', s.threads[i]? = some th ∧ s.threads = l₁ ++ th :: l₂ ∧
      s.manager.advance (fun g => s.threads.any (·.holds g)) th = some (s'.manager, th') ∧
      s'.threads = l₁ ++ th'.toList ++ l₂ := by
  obtain ⟨th, hth, h⟩ := Option.bind_eq_some_iff.1 h
  obtain ⟨⟨m, th'⟩, hm, rfl⟩ := Option.map_eq_some_iff.1 h
  obtain ⟨hi, rfl⟩ := List.getElem?_eq_some_iff.1 hth
  refine ⟨s.threads.take i, s.threads[i], s.threads.drop (i + 1), th', hth, ?_, hm, rfl⟩
  rw [List.getElem_cons_drop, List.take_append_drop]

@[simp]
theorem lookup_online (m : SaveManager) (g : UInt32) : (m.lookup g).2.online = m.online := by
  rw [lookup]
  split <;> rfl

@[simp]
theorem lookup_log (m : SaveManager) (g : UInt32) : (m.lookup g).2.log = m.log := by
  rw [lookup]
  split <;> rfl

theorem lookup_of_some {m : SaveManager} {g : UInt32} {t : Nat} (h : m.playerMap g = some t) :
    m.lookup g = (t, m) := by
  rw [lookup, h]

/-- A lookup leaves the entries that are there as they are. -/
theorem lookup_keeps {m : SaveManager} {g : UInt32} {t : Nat} (g' : UInt32)
    (h : m.playerMap g = some t) : (m.lookup g').2.playerMap g = some t := by
  rw [lookup]
  split
  · exact h
  · next hnone =>
    have hg : g ≠ g' := by
      rintro rfl
      rw [h] at hnone
      cases hnone
    exact (Function.update_of_ne hg _ _).trans h

/-! ## Every call is followed by a save -/

/-- In the log, every call for the player is followed by an attempt to save them. -/
abbrev Saved (log : List SaveEvent) (g : UInt32) : Prop :=
  Answered (· = .schedulePlayer g) (· = .savePlayer g) log

/-- The thread will save the player: it has the time that is in the map, or is in
    `doSavePlayer`, before the save. -/
def Saves (m : SaveManager) (g : UInt32) : Thread → Prop
  | .addLoad g' t | .load g' t => g' = g ∧ m.playerMap g = some t
  | .doSavePlayer g' | .erase g' | .savePlayer g' => g' = g
  | _ => False

/-- A thread will save the player as long as the entry of the player stays. -/
theorem Saves.mono {m m' : SaveManager} {g : UInt32} {th : Thread} (h : Saves m g th)
    (hm : ∀ t, m.playerMap g = some t → m'.playerMap g = some t) : Saves m' g th := by
  cases th with
  | addLoad g' t => exact ⟨h.1, hm t h.2⟩
  | load g' t => exact ⟨h.1, hm t h.2⟩
  | doSavePlayer g' => exact h
  | erase g' => exact h
  | savePlayer g' => exact h
  | _ => exact h.elim

/-- A step of a thread makes it one that will save the player, or saves them, or the
    thread was none that would and the others that would still will. -/
theorem advance_saves {m m' : SaveManager} {locked : UInt32 → Bool} {th : Thread}
    {th' : Option Thread} (h : m.advance locked th = some (m', th')) {g : UInt32}
    (hg : m.online g = true) :
    (∃ t ∈ th', Saves m' g t) ∨ Saved m'.log g ∨
      ¬ Saves m g th ∧ (Saved m.log g → Saved m'.log g) ∧
        ∀ t, m.playerMap g = some t → m'.playerMap g = some t := by
  cases th with
  | schedulePlayer g' =>
    obtain ⟨rfl, -⟩ := Prod.mk.inj (Option.some.inj h)
    exact .inr (.inr ⟨not_false, id, fun _ => id⟩)
  | write g' t =>
    obtain ⟨rfl, rfl⟩ := Prod.mk.inj (Option.some.inj h)
    rcases eq_or_ne g g' with rfl | hne
    · exact .inl ⟨_, rfl, rfl, Function.update_self _ _ _⟩
    · exact .inr (.inr ⟨not_false, fun hs => hs.concat (by simpa using hne.symm),
        fun t ht => (Function.update_of_ne hne _ _).trans ht⟩)
  | addLoad g' t =>
    obtain ⟨rfl, rfl⟩ := Prod.mk.inj (Option.some.inj h)
    by_cases hs : Saves m g (.addLoad g' t)
    · exact .inl ⟨_, rfl, hs⟩
    · exact .inr (.inr ⟨hs, id, fun _ => id⟩)
  | load g' t =>
    by_cases hs : Saves m g (.load g' t)
    · -- The load finds its own time, and begins the save.
      obtain ⟨rfl, ht⟩ := hs
      rw [advance, if_pos hg, lookup_of_some ht, if_pos rfl] at h
      obtain ⟨rfl, rfl⟩ := Prod.mk.inj (Option.some.inj h)
      exact .inl ⟨_, rfl, rfl⟩
    · refine .inr (.inr ⟨hs, ?_⟩)
      rw [advance] at h
      split at h
      · obtain ⟨rfl, -⟩ := Prod.mk.inj (Option.some.inj h)
        exact ⟨fun hl => by rwa [lookup_log], fun _ => lookup_keeps g'⟩
      · obtain ⟨rfl, -⟩ := Prod.mk.inj (Option.some.inj h)
        exact ⟨id, fun _ => id⟩
  | doSavePlayer g' =>
    rw [advance] at h
    split at h
    · cases h
    · obtain ⟨rfl, rfl⟩ := Prod.mk.inj (Option.some.inj h)
      rcases eq_or_ne g' g with rfl | hne
      · exact .inl ⟨_, rfl, rfl⟩
      · exact .inr (.inr ⟨hne, id, fun _ => id⟩)
  | erase g' =>
    obtain ⟨rfl, rfl⟩ := Prod.mk.inj (Option.some.inj h)
    rcases eq_or_ne g g' with rfl | hne
    · exact .inl ⟨_, rfl, rfl⟩
    · exact .inr (.inr ⟨hne.symm, id, fun t ht => (Function.update_of_ne hne _ _).trans ht⟩)
  | savePlayer g' =>
    obtain ⟨rfl, -⟩ := Prod.mk.inj (Option.some.inj h)
    rcases eq_or_ne g' g with rfl | hne
    · exact .inr (.inl (answered_concat_of_answer rfl (by simp)))
    · exact .inr (.inr ⟨hne, fun hs => hs.concat (by simp), fun _ => id⟩)
  | unlock g' =>
    obtain ⟨rfl, -⟩ := Prod.mk.inj (Option.some.inj h)
    exact .inr (.inr ⟨not_false, id, fun _ => id⟩)

/-- A player who is online and not saved since a call has a thread that will do it. -/
def Kept (s : State) : Prop :=
  ∀ g, s.manager.online g = true →
    Saved s.manager.log g ∨ ∃ th ∈ s.threads, Saves s.manager g th

/-- No step of a thread brings a player online. -/
theorem advance_online {m m' : SaveManager} {locked : UInt32 → Bool} {th : Thread}
    {th' : Option Thread} (h : m.advance locked th = some (m', th')) : m'.online = m.online := by
  cases th with
  | load g t =>
    rw [advance] at h
    split at h <;> obtain ⟨rfl, -⟩ := Prod.mk.inj (Option.some.inj h)
    · exact lookup_online m g
    · rfl
  | doSavePlayer g =>
    rw [advance] at h
    split at h
    · cases h
    · rw [← (Prod.mk.inj (Option.some.inj h)).1]
  | _ =>
    rw [← (Prod.mk.inj (Option.some.inj h)).1]

theorem kept_next {s s' : State} {a : Label} (hs : Kept s) (h : system.step s a s') :
    Kept s' := by
  cases a with
  | schedulePlayer g =>
    obtain rfl := Option.some.inj h
    intro g' hg'
    exact (hs g' hg').imp_right fun ⟨th, hth, hsv⟩ => ⟨th, List.mem_append_left _ hth, hsv⟩
  | doSavePlayer g =>
    obtain rfl := Option.some.inj h
    intro g' hg'
    exact (hs g' hg').imp_right fun ⟨th, hth, hsv⟩ => ⟨th, List.mem_append_left _ hth, hsv⟩
  | advance i =>
    obtain ⟨l₁, th, l₂, th', -, hl, hm, hl'⟩ := next_advance h
    intro g hg
    rw [advance_online hm] at hg
    rcases advance_saves hm hg with ⟨t, ht, hsv⟩ | hsaved | ⟨hth, hlog, hmap⟩
    · refine .inr ⟨t, ?_, hsv⟩
      rw [hl']
      exact List.mem_append_left _ (List.mem_append_right _ (Option.mem_toList.2 ht))
    · exact .inl hsaved
    · refine (hs g hg).imp hlog fun ⟨t, ht, hsv⟩ => ⟨t, ?_, hsv.mono hmap⟩
      -- The thread that took the step was not the one.
      rw [hl, List.mem_append, List.mem_cons] at ht
      rw [hl', List.append_assoc, List.mem_append, List.mem_append]
      rcases ht with ht | rfl | ht
      · exact .inl ht
      · exact absurd hsv hth
      · exact .inr (.inr ht)
  | tick =>
    obtain rfl := Option.some.inj h
    intro g hg
    exact (hs g hg).imp_right fun ⟨th, hth, hsv⟩ => ⟨th, hth, hsv.mono fun _ => id⟩
  | logout g =>
    obtain rfl := Option.some.inj h
    intro g' hg'
    have hne : g' ≠ g := by
      rintro rfl
      simp at hg'
    have hg : s.manager.online g' = true := by simpa [hne] using hg'
    exact (hs g' hg).imp_right fun ⟨th, hth, hsv⟩ => ⟨th, hth, hsv.mono fun _ => id⟩

theorem kept_of_init {s : State} (h : Init s) : Kept s := by
  intro g _
  rw [Saved, h.2.1]
  exact .inl answered_nil

/-- When no thread is at work, every call for a player who is still online was followed
    by an attempt to save them, in any interleaving. -/
theorem saved_of_idle {s : State} (hs : system.Reachable s) (hidle : s.threads = [])
    {g : UInt32} (hg : s.manager.online g = true) : Saved s.manager.log g := by
  have hk : Kept s := hs.invariant (fun _ => kept_of_init) fun _ _ _ hk _ hn => kept_next hk hn
  rcases hk g hg with h | ⟨th, hth, -⟩
  · exact h
  · rw [hidle] at hth
    cases hth

/-! ## The entries are removed -/

/-- A load looks for the entry of a player only while it is there. -/
def findsEntry (s : State) : Label → Bool
  | .advance i =>
    match s.threads[i]? with
    | some (.load g _) => !s.manager.online g || (s.manager.playerMap g).isSome
    | _ => true
  | _ => true

theorem exists_of_findsEntry {s : State} {i : Nat} {g : UInt32} {t : Nat}
    (hf : findsEntry s (.advance i) = true) (hi : s.threads[i]? = some (.load g t))
    (hg : s.manager.online g = true) : ∃ u, s.manager.playerMap g = some u := by
  simpa [findsEntry, hi, hg, Option.isSome_iff_exists] using hf

/-- The thread will erase the entry of the player, if it holds the time `t`. -/
def Clears (g : UInt32) (t : Nat) : Thread → Prop
  | .addLoad g' t' | .load g' t' => g' = g ∧ t' = t
  | .doSavePlayer g' | .erase g' => g' = g
  | _ => False

/-- The entry of a player after a step of a thread was there before, and the thread was
    none that would erase it; or the thread now is one that will. -/
theorem advance_clears {m m' : SaveManager} {locked : UInt32 → Bool} {th : Thread}
    {th' : Option Thread} (h : m.advance locked th = some (m', th')) {g : UInt32} {t : Nat}
    (hg : m.online g = true) (hm' : m'.playerMap g = some t)
    (hfinds : ∀ g t, th = .load g t → m.online g = true → ∃ u, m.playerMap g = some u) :
    (∃ th₁ ∈ th', Clears g t th₁) ∨ (m.playerMap g = some t ∧ ¬ Clears g t th) := by
  cases th with
  | schedulePlayer g' =>
    obtain ⟨rfl, -⟩ := Prod.mk.inj (Option.some.inj h)
    exact .inr ⟨hm', not_false⟩
  | write g' t' =>
    obtain ⟨rfl, rfl⟩ := Prod.mk.inj (Option.some.inj h)
    rcases eq_or_ne g g' with rfl | hne
    · exact .inl ⟨_, rfl, rfl, by simpa using hm'⟩
    · exact .inr ⟨(Function.update_of_ne hne _ _).symm.trans hm', not_false⟩
  | addLoad g' t' =>
    obtain ⟨rfl, rfl⟩ := Prod.mk.inj (Option.some.inj h)
    by_cases hc : Clears g t (.addLoad g' t')
    · exact .inl ⟨_, rfl, hc⟩
    · exact .inr ⟨hm', hc⟩
  | load g' t' =>
    rw [advance] at h
    split at h
    · next hon =>
      -- There is an entry, and the lookup changes nothing.
      obtain ⟨u, hu⟩ := hfinds g' t' rfl hon
      rw [lookup_of_some hu] at h
      obtain ⟨rfl, rfl⟩ := Prod.mk.inj (Option.some.inj h)
      by_cases hc : Clears g t (.load g' t')
      · obtain ⟨rfl, rfl⟩ := hc
        rw [hu] at hm'
        exact .inl ⟨.doSavePlayer g', by simpa using hm', rfl⟩
      · exact .inr ⟨hm', hc⟩
    · next hoff =>
      obtain ⟨rfl, -⟩ := Prod.mk.inj (Option.some.inj h)
      exact .inr ⟨hm', fun hc => hoff (hc.1 ▸ hg)⟩
  | doSavePlayer g' =>
    rw [advance] at h
    split at h
    · cases h
    · obtain ⟨rfl, rfl⟩ := Prod.mk.inj (Option.some.inj h)
      rcases eq_or_ne g' g with rfl | hne
      · exact .inl ⟨_, rfl, rfl⟩
      · exact .inr ⟨hm', hne⟩
  | erase g' =>
    obtain ⟨rfl, -⟩ := Prod.mk.inj (Option.some.inj h)
    rcases eq_or_ne g g' with rfl | hne
    · simp at hm'
    · exact .inr ⟨(Function.update_of_ne hne _ _).symm.trans hm', hne.symm⟩
  | savePlayer g' =>
    obtain ⟨rfl, -⟩ := Prod.mk.inj (Option.some.inj h)
    exact .inr ⟨hm', not_false⟩
  | unlock g' =>
    obtain ⟨rfl, -⟩ := Prod.mk.inj (Option.some.inj h)
    exact .inr ⟨hm', not_false⟩

/-- The entry of a player who is online has a thread that will erase it. -/
def Cleared (s : State) : Prop :=
  ∀ g t, s.manager.online g = true → s.manager.playerMap g = some t →
    ∃ th ∈ s.threads, Clears g t th

theorem cleared_next {s s' : State} {a : Label} (hs : Cleared s) (hf : findsEntry s a = true)
    (h : system.step s a s') : Cleared s' := by
  cases a with
  | schedulePlayer g =>
    obtain rfl := Option.some.inj h
    intro g' t hg' ht
    obtain ⟨th, hth, hc⟩ := hs g' t hg' ht
    exact ⟨th, List.mem_append_left _ hth, hc⟩
  | doSavePlayer g =>
    obtain rfl := Option.some.inj h
    intro g' t hg' ht
    obtain ⟨th, hth, hc⟩ := hs g' t hg' ht
    exact ⟨th, List.mem_append_left _ hth, hc⟩
  | advance i =>
    obtain ⟨l₁, th, l₂, th', hi, hl, hm, hl'⟩ := next_advance h
    intro g t hg ht
    rw [advance_online hm] at hg
    have hfinds : ∀ g t, th = .load g t → s.manager.online g = true →
        ∃ u, s.manager.playerMap g = some u :=
      fun g t hth => exists_of_findsEntry hf (hth ▸ hi)
    -- The entry is the new one of this step, or was there and has its thread still.
    rcases advance_clears hm hg ht hfinds with ⟨th₁, hth₁, hc⟩ | ⟨hold, hth⟩
    · refine ⟨th₁, ?_, hc⟩
      rw [hl']
      exact List.mem_append_left _ (List.mem_append_right _ (Option.mem_toList.2 hth₁))
    · obtain ⟨th₁, hth₁, hc⟩ := hs g t hg hold
      refine ⟨th₁, ?_, hc⟩
      rw [hl, List.mem_append, List.mem_cons] at hth₁
      rw [hl', List.append_assoc, List.mem_append, List.mem_append]
      rcases hth₁ with hth₁ | rfl | hth₁
      · exact .inl hth₁
      · exact absurd hc hth
      · exact .inr (.inr hth₁)
  | tick =>
    obtain rfl := Option.some.inj h
    exact hs
  | logout g =>
    obtain rfl := Option.some.inj h
    intro g' t hg' ht
    have hne : g' ≠ g := by
      rintro rfl
      simp at hg'
    exact hs g' t (by simpa [hne] using hg') ht

theorem cleared_of_init {s : State} (h : Init s) : Cleared s := by
  intro g t _ ht
  rw [h.1] at ht
  cases ht

/-- When no thread is at work, every call for a player who is still online was followed
    by an attempt to save them, and their entry is removed, if no load looked for an
    entry that was not there. -/
theorem saved_and_removed_of_idle {s : State} (hs : system.ReachableVia (findsEntry · ·) s)
    (hidle : s.threads = []) {g : UInt32} (hg : s.manager.online g = true) :
    Saved s.manager.log g ∧ s.manager.playerMap g = none := by
  refine ⟨saved_of_idle (hs.mono fun _ _ _ => trivial) hidle hg, ?_⟩
  have hc : Cleared s := hs.invariant (fun _ => cleared_of_init) fun _ _ _ => cleared_next
  rcases ht : s.manager.playerMap g with _ | t
  · rfl
  · obtain ⟨th, hth, -⟩ := hc g t hg ht
    rw [hidle] at hth
    cases hth

/-- Everyone is online, and nothing has happened yet. -/
def start : State := ⟨⟨1, fun _ => none, fun _ => true, []⟩, []⟩

theorem init_start : Init start := ⟨rfl, rfl, rfl⟩

/-- A call, whose load begins before another save of the player. -/
theorem saved_and_removed_of_idle_call :
    ∃ s : State, s.threads = [] ∧
      s.manager.log = [.schedulePlayer 7, .savePlayer 7, .savePlayer 7] ∧
      Saved s.manager.log 7 ∧ s.manager.playerMap 7 = none := by
  have hs : system.ReachableVia (findsEntry · ·) _ :=
    System.reachableVia_of_foldlM (.init init_start) (l :=
      [.schedulePlayer 7, .advance 0, .advance 0, .advance 0, .doSavePlayer 7, .tick, .advance 0,
        .advance 0, .advance 0, .advance 0, .advance 0, .advance 0, .advance 0, .advance 0,
        .advance 0]) rfl
  exact ⟨_, rfl, rfl, saved_and_removed_of_idle hs rfl rfl⟩

/-- Two calls in the same tick: the load of the first one saves the player and erases the
    entry, the load of the second one inserts it again. -/
theorem not_removed_two_calls :
    ¬ ∀ s, system.Reachable s → s.threads = [] → ∀ g, s.manager.online g = true →
      Saved s.manager.log g ∧ s.manager.playerMap g = none := by
  intro h
  have hs : system.Reachable _ :=
    System.reachableVia_of_foldlM (.init init_start) (l :=
      [.schedulePlayer 7, .advance 0, .advance 0, .advance 0, .schedulePlayer 7, .advance 1,
        .advance 1, .advance 1, .advance 0, .advance 0, .advance 0, .advance 0, .advance 0,
        .advance 0]) rfl
  have hmap := (h _ hs rfl 7 rfl).2
  cases hmap

/-! ## Every run can be completed -/

end SaveManager

end Canary.Scheduling
