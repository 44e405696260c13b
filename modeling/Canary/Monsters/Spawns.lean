import Canary.Lib.Transition
import Mathlib.Data.List.FinRange
import Mathlib.Logic.Function.Basic

/-!
# Spawns of monsters

A spawn has blocks, each for one monster. `startup` places all monsters; later a check is scheduled
when one of them dies, and again as long as monsters are missing. The check places a monster at
once, or by a `scheduleSpawn` of some steps. Who is placed and who is not, which type of monster a
block gets, the time and the ids of the scheduled events may be anything.

* In all runs a block has at most one live monster, and those in `spawnedMonsterMap` belong to the
  spawn (`Spawn.placed_of_reachable`).
* A block without a monster is tried again, if it was given a monster by `startup`, or a check was
  already scheduled then, and no id of a scheduled event is 0 as a `uint32_t` (`spawns_tended`).

Positions and directions are left out, and so is the mixing of types by `RANDOM_MONSTER_SPAWN`.
-/

namespace Canary.Monsters.Spawns

open Transition

structure Block where
  lastSpawn : ℤ
  interval : ℤ
  deriving DecidableEq

structure MonsterType where
  isBlockable : Bool
  deriving DecidableEq

structure Monster (n : ℕ) where
  /-- The block that it was made for. -/
  spawnMonsterId : Fin n
  /-- `spawnMonster` is the spawn. -/
  ofSpawn : Bool
  isRemoved : Bool
  deriving DecidableEq

/-- A task of the dispatcher. -/
inductive Task (n : ℕ)
  | checkSpawnMonster
  | scheduleSpawn (spawnMonsterId : Fin n) (sb : Block) (mType : MonsterType) (interval : UInt16)
      (startup : Bool)
  deriving DecidableEq

/-- What the world answers about a block. -/
structure Answer where
  getMonsterType : Option MonsterType
  canSpawn : Bool
  findPlayer : Bool
  /-- `placeCreature` succeeds. -/
  placed : Bool

/-- A spawn of `n` blocks, the monsters that were ever made for it, and the tasks for it. -/
structure Spawn (n : ℕ) where
  /-- The places of the monsters in `monsters`. -/
  spawnedMonsterMap : Fin n → Option ℕ
  spawnMonsterMap : Fin n → Block
  checkSpawnMonsterEvent : UInt32
  monsters : List (Monster n)
  tasks : List (Task n)
  /-- `startup` was called. -/
  started : Bool

/-- `NONBLOCKABLE_SPAWN_MONSTER_INTERVAL` -/
def nonblockableInterval : UInt16 := 1400

namespace Spawn

variable {n : ℕ} (s : Spawn n)

/-- The event of the check is kept as a `uint32_t`. -/
def scheduleCheck (eventId : UInt64) : Spawn n :=
  { s with checkSpawnMonsterEvent := eventId.toUInt32, tasks := s.tasks ++ [.checkSpawnMonster] }

def startSpawnMonsterCheck (eventId : UInt64) : Spawn n :=
  if s.checkSpawnMonsterEvent = 0 then s.scheduleCheck eventId else s

def setBlock (i : Fin n) (sb : Block) : Spawn n :=
  { s with spawnMonsterMap := Function.update s.spawnMonsterMap i sb }

def spawnMonster (i : Fin n) (sb : Block) (placed : Bool) (now : ℤ) : Spawn n × Block :=
  if (s.spawnedMonsterMap i).isSome then (s, sb)
  else if !placed then (s, sb)
  else
    ({ s with
      monsters := s.monsters ++ [⟨i, true, false⟩]
      spawnedMonsterMap := Function.update s.spawnedMonsterMap i (some s.monsters.length) },
      { sb with lastSpawn := now })

def scheduleSpawn (i : Fin n) (sb : Block) (mType : MonsterType) (interval : UInt16)
    (startup : Bool) (placed : Bool) (now : ℤ) : Spawn n × Block :=
  if interval ≤ 0 then s.spawnMonster i sb placed now
  else
    ({ s with tasks := s.tasks ++
      [.scheduleSpawn i sb mType (interval - nonblockableInterval) startup] }, sb)

/-- What `startup` does for one block. -/
def startBlock (delayed : Bool) (answers : Fin n → Answer) (now : ℤ) (i : Fin n) : Spawn n :=
  match (answers i).getMonsterType with
  | none => s
  | some mType =>
    if delayed then
      { s with tasks := s.tasks ++ [.scheduleSpawn i (s.spawnMonsterMap i) mType 0 true] }
    else
      let (s', sb) := s.scheduleSpawn i (s.spawnMonsterMap i) mType 0 true (answers i).placed now
      s'.setBlock i sb

def startup (delayed : Bool) (answers : Fin n → Answer) (now : ℤ) : Spawn n :=
  { (List.finRange n).foldl (fun s i => s.startBlock delayed answers now i) s with started := true }

def isRemoved (monster : ℕ) : Bool :=
  match s.monsters[monster]? with
  | some m => m.isRemoved
  | none => true

def cleanup (now : ℤ) : Spawn n :=
  { s with
    spawnedMonsterMap := fun i => (s.spawnedMonsterMap i).filter fun m => !s.isRemoved m
    spawnMonsterMap := fun i =>
      if (s.spawnedMonsterMap i).any s.isRemoved then { s.spawnMonsterMap i with lastSpawn := now }
      else s.spawnMonsterMap i }

/-- What `checkSpawnMonster` does for one block. -/
def checkBlock (answers : Fin n → Answer) (now : ℤ) (i : Fin n) : Spawn n :=
  if (s.spawnedMonsterMap i).isSome then s
  else
    match (answers i).getMonsterType with
    | none => s
    | some mType =>
      let sb := s.spawnMonsterMap i
      if !(answers i).canSpawn || (mType.isBlockable && (answers i).findPlayer) then
        s.setBlock i { sb with lastSpawn := now }
      else if now < sb.lastSpawn + sb.interval then s
      else if mType.isBlockable then
        let (s', sb) := s.spawnMonster i sb (answers i).placed now
        s'.setBlock i sb
      else
        let (s', sb) := s.scheduleSpawn i sb mType (3 * nonblockableInterval) false
          (answers i).placed now
        s'.setBlock i sb

/-- `spawnedMonsterMap.size()` -/
def size : ℕ := ((List.finRange n).filter fun i => (s.spawnedMonsterMap i).isSome).length

def checkSpawnMonster (answers : Fin n → Answer) (now : ℤ) (eventId : UInt64) : Spawn n :=
  if s.checkSpawnMonsterEvent = 0 then s
  else
    let s := { s with checkSpawnMonsterEvent := 0 }.cleanup now
    let s := (List.finRange n).foldl (fun s i => s.checkBlock answers now i) s
    if s.size < n then s.scheduleCheck eventId else s

/-- A monster is removed (`Monster::onRemoveCreature`). -/
def removeMonster (monster : ℕ) (m : Monster n) (eventId : UInt64) : Spawn n :=
  let s := if m.ofSpawn then s.startSpawnMonsterCheck eventId else s
  { s with monsters := s.monsters.set monster { m with isRemoved := true } }

/-- The task `k` is executed. -/
def execute (k : ℕ) (task : Task n) (answers : Fin n → Answer) (now : ℤ) (eventId : UInt64) :
    Spawn n :=
  let s := { s with tasks := s.tasks.eraseIdx k }
  match task with
  | .checkSpawnMonster => s.checkSpawnMonster answers now eventId
  | .scheduleSpawn i sb mType interval startup =>
    (s.scheduleSpawn i sb mType interval startup (answers i).placed now).1

end Spawn

inductive Event (n : ℕ)
  | startup (delayed : Bool) (answers : Fin n → Answer) (now : ℤ)
  | execute (k : ℕ) (answers : Fin n → Answer) (now : ℤ) (eventId : UInt64)
  | removeMonster (monster : ℕ) (eventId : UInt64)

variable {n : ℕ}

/-- Only tasks there are can be executed, and only live monsters removed. -/
def Spawn.next (s : Spawn n) : Event n → Option (Spawn n)
  | .startup delayed answers now => some (s.startup delayed answers now)
  | .execute k answers now eventId =>
    s.tasks[k]?.map fun task => s.execute k task answers now eventId
  | .removeMonster monster eventId =>
    match s.monsters[monster]? with
    | some m => if m.isRemoved then none else some (s.removeMonster monster m eventId)
    | none => none

/-- The spawn as it was loaded. -/
def Spawn.new (blocks : Fin n → Block) : Spawn n := ⟨fun _ => none, blocks, 0, [], [], false⟩

def system (n : ℕ) : System (Spawn n) (Event n) :=
  .ofNext (fun s => ∃ blocks, s = Spawn.new blocks) Spawn.next

namespace Spawn

variable (s : Spawn n)

/-! ## What is meant -/

/-- There is a live monster of the block. -/
def Live (i : Fin n) (monster : ℕ) : Prop :=
  ∃ m, s.monsters[monster]? = some m ∧ m.spawnMonsterId = i ∧ m.isRemoved = false

/-- The block will be tried again. -/
def Pending (i : Fin n) : Prop :=
  .checkSpawnMonster ∈ s.tasks ∨
    ∃ sb mType interval startup, .scheduleSpawn i sb mType interval startup ∈ s.tasks

/-- No block has two monsters, all are of this spawn, and blocks without one are tried again. -/
structure Tended : Prop where
  unique : ∀ i m m', s.Live i m → s.Live i m' → m = m'
  ofSpawn : ∀ i monster, s.spawnedMonsterMap i = some monster →
    ∃ m, s.monsters[monster]? = some m ∧ m.ofSpawn = true
  pending : s.started = true → ∀ i, (∃ monster, s.Live i monster) ∨ s.Pending i

/-- The block has a monster, or a check is scheduled, or a step of its startup. -/
def Covered (i : Fin n) : Prop :=
  (s.spawnedMonsterMap i).isSome ∨ s.checkSpawnMonsterEvent ≠ 0 ∨
    ∃ sb mType interval, .scheduleSpawn i sb mType interval true ∈ s.tasks

/-- `startup` gives a monster, at once or by a task, to the blocks that are not covered. When the
task is executed a monster is placed, if the block is not covered by something else. Ids are not
multiples of 2^32. -/
def Succeeds : Event n → Prop
  | .startup delayed answers _ => ∀ i, s.Covered i ∨
    ((answers i).getMonsterType.isSome ∧ (delayed = true ∨ (answers i).placed = true))
  | .execute k answers _ eventId => eventId.toUInt32 ≠ 0 ∧
    ∀ i sb mType, s.tasks[k]? = some (.scheduleSpawn i sb mType 0 true) →
      (answers i).placed = true ∨ Covered { s with tasks := s.tasks.eraseIdx k } i
  | .removeMonster _ eventId => eventId.toUInt32 ≠ 0

/-! ## Monsters and blocks -/

/-- The map has all live monsters, each under its block. -/
structure Placed : Prop where
  mapped : ∀ i monster, s.spawnedMonsterMap i = some monster →
    ∃ m, s.monsters[monster]? = some m ∧ m.spawnMonsterId = i ∧ m.ofSpawn = true
  live : ∀ monster m, s.monsters[monster]? = some m → m.isRemoved = false →
    s.spawnedMonsterMap m.spawnMonsterId = some monster

/-- What placing monsters and scheduling `scheduleSpawn` may change. -/
structure Extends (s' : Spawn n) : Prop where
  event : s'.checkSpawnMonsterEvent = s.checkSpawnMonsterEvent
  started : s'.started = s.started
  tasks : s.tasks ⊆ s'.tasks
  monsters : s.monsters <+: s'.monsters
  mapped : ∀ i monster, s.spawnedMonsterMap i = some monster →
    s'.spawnedMonsterMap i = some monster
  new : ∀ i monster, s'.spawnedMonsterMap i = some monster →
    s.spawnedMonsterMap i = some monster ∨ s'.isRemoved monster = false
  placed : s.Placed → s'.Placed

variable {s} {s' s'' : Spawn n} {i : Fin n}

theorem isRemoved_of_isPrefix (h : s.monsters <+: s'.monsters) {monster : ℕ}
    (hlive : s.isRemoved monster = false) : s'.isRemoved monster = false := by
  obtain ⟨new, hnew⟩ := h
  unfold isRemoved at hlive ⊢
  rw [← hnew]
  cases hm : s.monsters[monster]? with
  | none =>
    rw [hm] at hlive
    cases hlive
  | some m =>
    rw [hm] at hlive
    rw [List.getElem?_append_left (List.getElem?_eq_some_iff.1 hm).1, hm]
    exact hlive

theorem Extends.refl (s : Spawn n) : s.Extends s where
  event := rfl
  started := rfl
  tasks := List.Subset.refl _
  monsters := List.prefix_refl _
  mapped _ _ h := h
  new _ _ h := .inl h
  placed h := h

theorem Extends.trans (h : s.Extends s') (h' : s'.Extends s'') : s.Extends s'' where
  event := h'.event.trans h.event
  started := h'.started.trans h.started
  tasks := List.Subset.trans h.tasks h'.tasks
  monsters := h.monsters.trans h'.monsters
  mapped i monster hm := h'.mapped i monster (h.mapped i monster hm)
  new i monster hm := by
    rcases h'.new i monster hm with hm' | hlive
    · exact (h.new i monster hm').imp_right (isRemoved_of_isPrefix h'.monsters)
    · exact .inr hlive
  placed hp := h'.placed (h.placed hp)

theorem Extends.covered (h : s.Extends s') (hi : s.Covered i) : s'.Covered i := by
  rcases hi with hmapped | hevent | ⟨sb, mType, interval, htask⟩
  · obtain ⟨monster, hm⟩ := Option.isSome_iff_exists.1 hmapped
    exact .inl (Option.isSome_iff_exists.2 ⟨monster, h.mapped i monster hm⟩)
  · exact .inr (.inl (h.event ▸ hevent))
  · exact .inr (.inr ⟨sb, mType, interval, h.tasks htask⟩)

theorem extends_foldl {f : Spawn n → Fin n → Spawn n} (h : ∀ (s : Spawn n) i, s.Extends (f s i))
    (l : List (Fin n)) : s.Extends (l.foldl f s) :=
  List.foldlRecOn (motive := s.Extends) l f (Extends.refl s)
    fun s' hs' i _ => hs'.trans (h s' i)

theorem extends_setBlock (i : Fin n) (sb : Block) : s.Extends (s.setBlock i sb) where
  event := rfl
  started := rfl
  tasks := List.Subset.refl _
  monsters := List.prefix_refl _
  mapped _ _ h := h
  new _ _ h := .inl h
  placed h := ⟨h.mapped, h.live⟩

theorem extends_addTask (task : Task n) : s.Extends { s with tasks := s.tasks ++ [task] } where
  event := rfl
  started := rfl
  tasks := List.subset_append_left _ _
  monsters := List.prefix_refl _
  mapped _ _ h := h
  new _ _ h := .inl h
  placed h := ⟨h.mapped, h.live⟩

theorem extends_spawnMonster (i : Fin n) (sb : Block) (placed : Bool) (now : ℤ) :
    s.Extends (s.spawnMonster i sb placed now).1 := by
  unfold spawnMonster
  split
  · exact Extends.refl s
  · rename_i hnone
    have hnone : s.spawnedMonsterMap i = none := by simpa using hnone
    split
    · exact Extends.refl s
    · constructor
      case event => rfl
      case started => rfl
      case tasks => exact List.Subset.refl _
      case monsters => exact List.prefix_append _ _
      -- The block had no monster, so no entry of the map is lost.
      case mapped =>
        intro j monster hj
        have hne : j ≠ i := by
          rintro rfl
          rw [hnone] at hj
          cases hj
        simpa only [Function.update_of_ne hne] using hj
      case new =>
        intro j monster hj
        by_cases hji : j = i
        · subst hji
          simp only [Function.update_self, Option.some.injEq] at hj
          subst hj
          right
          simp [isRemoved]
        · simp only [Function.update_of_ne hji] at hj
          exact .inl hj
      case placed =>
        intro hp
        constructor
        case mapped =>
          intro j monster hj
          by_cases hji : j = i
          · subst hji
            simp only [Function.update_self, Option.some.injEq] at hj
            subst hj
            exact ⟨⟨j, true, false⟩, by simp, rfl, rfl⟩
          · simp only [Function.update_of_ne hji] at hj
            obtain ⟨m, hm, hid, hof⟩ := hp.mapped j monster hj
            exact ⟨m, (List.getElem?_append_left (List.getElem?_eq_some_iff.1 hm).1).trans hm, hid,
              hof⟩
        case live =>
          intro monster m hm hlive
          simp only at hm ⊢
          -- A monster of before, the new one, or none.
          rcases Nat.lt_trichotomy monster s.monsters.length with hlt | rfl | hgt
          · rw [List.getElem?_append_left hlt] at hm
            have hmapped := hp.live monster m hm hlive
            have hne : m.spawnMonsterId ≠ i := by
              intro heq
              rw [heq, hnone] at hmapped
              cases hmapped
            rw [Function.update_of_ne hne]
            exact hmapped
          · rw [List.getElem?_append_right (Nat.le_refl _), Nat.sub_self] at hm
            simp only [List.getElem?_cons_zero, Option.some.injEq] at hm
            rw [← hm, Function.update_self]
          · rw [List.getElem?_eq_none (by simp; omega)] at hm
            cases hm

theorem extends_scheduleSpawn (i : Fin n) (sb : Block) (mType : MonsterType) (interval : UInt16)
    (startup placed : Bool) (now : ℤ) :
    s.Extends (s.scheduleSpawn i sb mType interval startup placed now).1 := by
  unfold scheduleSpawn
  split
  · exact extends_spawnMonster i sb placed now
  · exact extends_addTask _

theorem extends_startBlock (delayed : Bool) (answers : Fin n → Answer) (now : ℤ) (i : Fin n) :
    s.Extends (s.startBlock delayed answers now i) := by
  unfold startBlock
  split
  · exact Extends.refl s
  · split
    · exact extends_addTask _
    · simp only
      exact (extends_scheduleSpawn _ _ _ _ _ _ _).trans (extends_setBlock _ _)

theorem extends_checkBlock (answers : Fin n → Answer) (now : ℤ) (i : Fin n) :
    s.Extends (s.checkBlock answers now i) := by
  unfold checkBlock
  split
  · exact Extends.refl s
  · split
    · exact Extends.refl s
    · simp only
      split
      · exact extends_setBlock _ _
      · split
        · exact Extends.refl s
        · split
          · exact (extends_spawnMonster _ _ _ _).trans (extends_setBlock _ _)
          · exact (extends_scheduleSpawn _ _ _ _ _ _ _).trans (extends_setBlock _ _)

/-! ## Steps -/

theorem placed_cleanup (h : s.Placed) (now : ℤ) : (s.cleanup now).Placed where
  mapped i monster hm := h.mapped i monster (Option.filter_eq_some_iff.1 hm).1
  live monster m hm hlive := by
    have hm : s.monsters[monster]? = some m := hm
    refine Option.filter_eq_some_iff.2 ⟨h.live monster m hm hlive, ?_⟩
    simp [isRemoved, hm, hlive]

/-- After the cleanup all that are in the map live. -/
theorem isRemoved_of_cleanup {now : ℤ} {monster : ℕ}
    (h : (s.cleanup now).spawnedMonsterMap i = some monster) :
    (s.cleanup now).isRemoved monster = false := by
  have hm : (!s.isRemoved monster) = true := (Option.filter_eq_some_iff.1 h).2
  rw [Bool.not_eq_true'] at hm
  exact hm

theorem placed_scheduleCheck (h : s.Placed) (eventId : UInt64) : (s.scheduleCheck eventId).Placed :=
  ⟨h.mapped, h.live⟩

/-- The state of `checkSpawnMonster` before it schedules the next check. -/
def checked (s : Spawn n) (answers : Fin n → Answer) (now : ℤ) : Spawn n :=
  (List.finRange n).foldl (fun s i => s.checkBlock answers now i)
    ({ s with checkSpawnMonsterEvent := 0 }.cleanup now)

theorem extends_checked (answers : Fin n → Answer) (now : ℤ) :
    ({ s with checkSpawnMonsterEvent := 0 }.cleanup now).Extends (s.checked answers now) :=
  extends_foldl (fun _ i => extends_checkBlock answers now i) _

theorem checkSpawnMonster_eq (answers : Fin n → Answer) (now : ℤ) (eventId : UInt64) :
    s.checkSpawnMonster answers now eventId =
      if s.checkSpawnMonsterEvent = 0 then s
      else if (s.checked answers now).size < n then (s.checked answers now).scheduleCheck eventId
      else s.checked answers now := rfl

theorem placed_checkSpawnMonster (h : s.Placed) (answers : Fin n → Answer) (now : ℤ)
    (eventId : UInt64) : (s.checkSpawnMonster answers now eventId).Placed := by
  have hreset : Placed { s with checkSpawnMonsterEvent := 0 } := ⟨h.mapped, h.live⟩
  have hchecked := (extends_checked answers now).placed (placed_cleanup hreset now)
  rw [checkSpawnMonster_eq]
  split
  · exact h
  · split
    · exact placed_scheduleCheck hchecked eventId
    · exact hchecked

theorem placed_removeMonster (h : s.Placed) {monster : ℕ} {m : Monster n}
    (hm : s.monsters[monster]? = some m) (eventId : UInt64) :
    (s.removeMonster monster m eventId).Placed := by
  have hmonsters : (s.removeMonster monster m eventId).monsters =
      s.monsters.set monster { m with isRemoved := true } := by
    simp only [removeMonster, startSpawnMonsterCheck, scheduleCheck]
    split <;> [(split <;> rfl); rfl]
  have hmap : (s.removeMonster monster m eventId).spawnedMonsterMap = s.spawnedMonsterMap := by
    simp only [removeMonster, startSpawnMonsterCheck, scheduleCheck]
    split <;> [(split <;> rfl); rfl]
  have hlt := (List.getElem?_eq_some_iff.1 hm).1
  constructor
  case mapped =>
    intro i other hother
    rw [hmap] at hother
    obtain ⟨x, hx, hid, hof⟩ := h.mapped i other hother
    rw [hmonsters]
    by_cases heq : monster = other
    · subst heq
      rw [hm] at hx
      cases hx
      exact ⟨_, List.getElem?_set_self hlt, hid, hof⟩
    · exact ⟨x, (List.getElem?_set_ne heq).trans hx, hid, hof⟩
  case live =>
    intro other x hx hlive
    rw [hmonsters] at hx
    rw [hmap]
    by_cases heq : monster = other
    · subst heq
      rw [List.getElem?_set_self hlt] at hx
      cases hx
      cases hlive
    · rw [List.getElem?_set_ne heq] at hx
      exact h.live other x hx hlive

/-- In every step a block has at most one live monster, and it is in the map. -/
theorem placed_step (h : s.Placed) {e : Event n} (hstep : s.next e = some s') : s'.Placed := by
  cases e with
  | startup delayed answers now =>
    cases hstep
    have hfold := (extends_foldl (s := s)
      (fun _ i => extends_startBlock delayed answers now i) (List.finRange n)).placed h
    exact ⟨hfold.mapped, hfold.live⟩
  | execute k answers now eventId =>
    obtain ⟨task, htask, rfl⟩ := Option.map_eq_some_iff.1 hstep
    have herase : Placed { s with tasks := s.tasks.eraseIdx k } := ⟨h.mapped, h.live⟩
    cases task with
    | checkSpawnMonster => exact placed_checkSpawnMonster herase answers now eventId
    | scheduleSpawn i sb mType interval startup =>
      exact (extends_scheduleSpawn i sb mType interval startup _ now).placed herase
  | removeMonster monster eventId =>
    simp only [next] at hstep
    split at hstep
    · rename_i m hm
      split at hstep
      · cases hstep
      · cases hstep
        exact placed_removeMonster h hm eventId
    · cases hstep

theorem placed_new (blocks : Fin n → Block) : (Spawn.new blocks).Placed :=
  ⟨fun _ _ hm => (nomatch hm), fun _ _ hm => (nomatch hm)⟩

theorem placed_of_reachable (h : (system n).Reachable s) : s.Placed :=
  h.invariant (I := Placed) (by rintro s ⟨blocks, rfl⟩; exact placed_new blocks)
    fun _ _ _ hs _ hstep => placed_step hs hstep

/-! ## Blocks are tried again -/

/-- A check that is expected is scheduled; it is expected when a monster in the map is dead, and,
once started, all blocks are covered. -/
structure Inv (s : Spawn n) : Prop where
  placed : s.Placed
  check : s.checkSpawnMonsterEvent ≠ 0 → .checkSpawnMonster ∈ s.tasks
  dead : ∀ i monster, s.spawnedMonsterMap i = some monster → s.isRemoved monster = true →
    s.checkSpawnMonsterEvent ≠ 0
  covered : s.started = true → ∀ i, s.Covered i

theorem Inv.tended (h : s.Inv) : s.Tended where
  unique := by
    rintro i monster monster' ⟨m, hm, hid, hlive⟩ ⟨m', hm', hid', hlive'⟩
    have hmap := h.placed.live monster m hm hlive
    have hmap' := h.placed.live monster' m' hm' hlive'
    rw [hid] at hmap
    rw [hid', hmap] at hmap'
    exact Option.some.inj hmap'
  ofSpawn i monster hm := by
    obtain ⟨m, hm, -, hof⟩ := h.placed.mapped i monster hm
    exact ⟨m, hm, hof⟩
  pending hstarted i := by
    rcases h.covered hstarted i with hmapped | hevent | ⟨sb, mType, interval, htask⟩
    · obtain ⟨monster, hm⟩ := Option.isSome_iff_exists.1 hmapped
      obtain ⟨m, hget, hid, -⟩ := h.placed.mapped i monster hm
      cases hremoved : m.isRemoved with
      | false => exact .inl ⟨monster, m, hget, hid, hremoved⟩
      | true =>
        have hisRemoved : s.isRemoved monster = true := by simp [isRemoved, hget, hremoved]
        exact .inr (.inl (h.check (h.dead i monster hm hisRemoved)))
    · exact .inr (.inl (h.check hevent))
    · exact .inr (.inr ⟨sb, mType, interval, true, htask⟩)

/-- What is dead in the map was there before. -/
theorem Extends.dead (h : s.Extends s')
    (hdead : ∀ i monster, s.spawnedMonsterMap i = some monster → s.isRemoved monster = true →
      s.checkSpawnMonsterEvent ≠ 0) :
    ∀ i monster, s'.spawnedMonsterMap i = some monster → s'.isRemoved monster = true →
      s'.checkSpawnMonsterEvent ≠ 0 := by
  intro i monster hm hremoved
  rw [h.event]
  rcases h.new i monster hm with hm | hlive
  · refine hdead i monster hm ?_
    by_contra hlive
    rw [Bool.not_eq_true] at hlive
    exact Bool.false_ne_true ((isRemoved_of_isPrefix h.monsters hlive).symm.trans hremoved)
  · exact absurd hremoved (by rw [hlive]; exact Bool.false_ne_true)

/-- A block is covered after a pass if its own turn covers it. -/
theorem covered_foldl {f : Spawn n → Fin n → Spawn n} (hf : ∀ (s : Spawn n) i, s.Extends (f s i))
    {l : List (Fin n)} (hi : i ∈ l) (hturn : ∀ s', s.Extends s' → (f s' i).Covered i) :
    (l.foldl f s).Covered i := by
  obtain ⟨before, after, rfl⟩ := List.append_of_mem hi
  rw [List.foldl_append, List.foldl_cons]
  exact (extends_foldl hf after).covered (hturn _ (extends_foldl hf before))

theorem covered_spawnMonster {placed : Bool} (hplaced : placed = true) (sb : Block) (now : ℤ) :
    (s.spawnMonster i sb placed now).1.Covered i := by
  unfold spawnMonster
  split
  · rename_i hsome
    exact .inl hsome
  · rw [hplaced]
    exact .inl (by simp)

theorem covered_startBlock {delayed : Bool} {answers : Fin n → Answer} {now : ℤ}
    (h : s.Covered i ∨
      ((answers i).getMonsterType.isSome ∧ (delayed = true ∨ (answers i).placed = true))) :
    (s.startBlock delayed answers now i).Covered i := by
  rcases h with hcovered | ⟨htype, hdelayed | hplaced⟩
  · exact (extends_startBlock delayed answers now i).covered hcovered
  · obtain ⟨mType, htype⟩ := Option.isSome_iff_exists.1 htype
    simp only [startBlock, htype, hdelayed, if_true]
    exact .inr (.inr ⟨_, _, _, List.mem_append_right _ (List.mem_singleton_self _)⟩)
  · obtain ⟨mType, htype⟩ := Option.isSome_iff_exists.1 htype
    simp only [startBlock, htype]
    split
    · exact .inr (.inr ⟨_, _, _, List.mem_append_right _ (List.mem_singleton_self _)⟩)
    · exact (extends_setBlock _ _).covered (covered_spawnMonster hplaced _ now)

theorem inv_startup (h : s.Inv) {delayed : Bool} {answers : Fin n → Answer} {now : ℤ}
    (hok : ∀ i, s.Covered i ∨
      ((answers i).getMonsterType.isSome ∧ (delayed = true ∨ (answers i).placed = true))) :
    (s.startup delayed answers now).Inv := by
  have hext (s : Spawn n) (i : Fin n) : s.Extends (s.startBlock delayed answers now i) :=
    extends_startBlock delayed answers now i
  have hfold := extends_foldl (s := s) hext (List.finRange n)
  constructor
  case placed =>
    have hplaced := hfold.placed h.placed
    exact ⟨hplaced.mapped, hplaced.live⟩
  case check => exact fun hevent => hfold.tasks (h.check (hfold.event ▸ hevent))
  case dead => exact hfold.dead h.dead
  case covered =>
    intro _ i
    exact covered_foldl hext (List.mem_finRange i) fun s' hs' =>
      covered_startBlock ((hok i).imp_left hs'.covered)

/-- Tasks other than the one that is executed stay. -/
theorem mem_eraseIdx_of_ne {k : ℕ} {task other : Task n} (hk : s.tasks[k]? = some task)
    (hmem : other ∈ s.tasks) (hne : other ≠ task) : other ∈ s.tasks.eraseIdx k := by
  obtain ⟨j, hj⟩ := List.mem_iff_getElem?.1 hmem
  refine List.mem_eraseIdx_iff_getElem?.2 ⟨j, ?_, hj⟩
  rintro rfl
  exact hne (Option.some.inj (hj.symm.trans hk))

theorem isSome_of_size (h : ¬s.size < n) (i : Fin n) : (s.spawnedMonsterMap i).isSome := by
  by_contra hnone
  refine h ?_
  have hlt : ((List.finRange n).filter fun i => (s.spawnedMonsterMap i).isSome).length <
      (List.finRange n).length :=
    List.length_filter_lt_length_iff_exists.2 ⟨i, List.mem_finRange i, hnone⟩
  rwa [List.length_finRange] at hlt

theorem inv_check (h : s.Inv) {k : ℕ} (hk : s.tasks[k]? = some .checkSpawnMonster)
    (answers : Fin n → Answer) (now : ℤ) {eventId : UInt64} (hid : eventId.toUInt32 ≠ 0) :
    (checkSpawnMonster { s with tasks := s.tasks.eraseIdx k } answers now eventId).Inv := by
  have herase : Placed { s with tasks := s.tasks.eraseIdx k } := ⟨h.placed.mapped, h.placed.live⟩
  have hplaced := placed_checkSpawnMonster herase answers now eventId
  rw [checkSpawnMonster_eq] at hplaced ⊢
  split at hplaced
  · rename_i hzero
    rw [if_pos hzero]
    refine ⟨hplaced, fun hevent => absurd hzero hevent, h.dead, fun hstarted i => ?_⟩
    refine (h.covered hstarted i).imp_right (Or.imp_right ?_)
    rintro ⟨sb, mType, interval, htask⟩
    exact ⟨sb, mType, interval, mem_eraseIdx_of_ne hk htask fun heq => by cases heq⟩
  · rename_i hevent
    rw [if_neg hevent]
    have hext := extends_checked (s := { s with tasks := s.tasks.eraseIdx k }) answers now
    split at hplaced
    · rename_i hsize
      rw [if_pos hsize]
      exact ⟨hplaced, fun _ => List.mem_append_right _ (List.mem_singleton_self _),
        fun _ _ _ _ => hid, fun _ _ => .inr (.inl hid)⟩
    · rename_i hsize
      rw [if_neg hsize]
      refine ⟨hplaced, fun hne => absurd hext.event hne, hext.dead fun i monster hm hremoved => ?_,
        fun _ i => .inl (isSome_of_size hsize i)⟩
      exact absurd hremoved (by rw [isRemoved_of_cleanup hm]; exact Bool.false_ne_true)

theorem inv_scheduleSpawn (h : s.Inv) {k : ℕ} {sb : Block} {mType : MonsterType}
    {interval : UInt16} {startup : Bool}
    (hk : s.tasks[k]? = some (.scheduleSpawn i sb mType interval startup)) {placed : Bool}
    (now : ℤ) (hok : startup = true → interval = 0 →
      placed = true ∨ Covered { s with tasks := s.tasks.eraseIdx k } i) :
    (scheduleSpawn { s with tasks := s.tasks.eraseIdx k } i sb mType interval startup placed
      now).1.Inv := by
  have herase : Placed { s with tasks := s.tasks.eraseIdx k } := ⟨h.placed.mapped, h.placed.live⟩
  have hext := extends_scheduleSpawn (s := { s with tasks := s.tasks.eraseIdx k }) i sb mType
    interval startup placed now
  constructor
  case placed => exact hext.placed herase
  case check =>
    intro hevent
    have hcheck := h.check (hext.event ▸ hevent)
    exact hext.tasks (mem_eraseIdx_of_ne hk hcheck fun heq => by cases heq)
  case dead => exact hext.dead h.dead
  case covered =>
    intro hstarted j
    rcases h.covered (hext.started ▸ hstarted) j with
      hmapped | hevent | ⟨sb', mType', interval', htask⟩
    · exact hext.covered (.inl hmapped)
    · exact hext.covered (.inr (.inl hevent))
    · by_cases heq : (.scheduleSpawn j sb' mType' interval' true : Task n) =
          .scheduleSpawn i sb mType interval startup
      · cases heq
        unfold scheduleSpawn at hext ⊢
        split
        · rename_i hzero
          rw [if_pos hzero] at hext
          rcases hok rfl (by simpa using hzero) with hplaced | hcovered
          · exact covered_spawnMonster hplaced sb now
          · exact hext.covered hcovered
        · exact .inr (.inr ⟨_, _, _, List.mem_append_right _ (List.mem_singleton_self _)⟩)
      · exact hext.covered (.inr (.inr ⟨_, _, _, mem_eraseIdx_of_ne hk htask heq⟩))

theorem inv_removeMonster (h : s.Inv) {monster : ℕ} {m : Monster n}
    (hm : s.monsters[monster]? = some m) (hlive : m.isRemoved = false) {eventId : UInt64}
    (hid : eventId.toUInt32 ≠ 0) : (s.removeMonster monster m eventId).Inv := by
  obtain ⟨m', hm', -, hof⟩ := h.placed.mapped _ _ (h.placed.live monster m hm hlive)
  obtain rfl := Option.some.inj (hm'.symm.trans hm)
  have hevent : (s.removeMonster monster m' eventId).checkSpawnMonsterEvent ≠ 0 ∧
      .checkSpawnMonster ∈ (s.removeMonster monster m' eventId).tasks := by
    simp only [removeMonster, hof, if_true, startSpawnMonsterCheck]
    split
    · exact ⟨hid, List.mem_append_right _ (List.mem_singleton_self _)⟩
    · rename_i hne
      exact ⟨hne, h.check hne⟩
  exact ⟨placed_removeMonster h.placed hm eventId, fun _ => hevent.2, fun _ _ _ _ => hevent.1,
    fun _ _ => .inr (.inl hevent.1)⟩

theorem inv_step (h : s.Inv) {e : Event n} (hok : s.Succeeds e) (hstep : s.next e = some s') :
    s'.Inv := by
  cases e with
  | startup delayed answers now =>
    cases hstep
    exact inv_startup h hok
  | execute k answers now eventId =>
    obtain ⟨task, htask, rfl⟩ := Option.map_eq_some_iff.1 hstep
    cases task with
    | checkSpawnMonster => exact inv_check h htask answers now hok.1
    | scheduleSpawn i sb mType interval startup =>
      refine inv_scheduleSpawn h htask now fun hstartup hzero => ?_
      subst hstartup
      subst hzero
      exact hok.2 i sb mType htask
  | removeMonster monster eventId =>
    simp only [next] at hstep
    split at hstep
    · rename_i m hm
      split at hstep
      · cases hstep
      · rename_i hlive
        cases hstep
        exact inv_removeMonster h hm (Bool.eq_false_iff.2 hlive) hok
    · cases hstep

theorem inv_new (blocks : Fin n → Block) : (Spawn.new blocks).Inv where
  placed := placed_new blocks
  check hevent := absurd rfl hevent
  dead _ _ hm := nomatch hm
  covered hstarted := nomatch hstarted

end Spawn

/-- In every run whose steps all succeed no block has two monsters, those in the map belong to the
spawn, and a block without a monster is tried again. -/
theorem spawns_tended {s : Spawn n} (h : (system n).ReachableVia Spawn.Succeeds s) : s.Tended :=
  (h.invariant (I := Spawn.Inv) (by rintro s ⟨blocks, rfl⟩; exact Spawn.inv_new blocks)
    fun _ _ _ hinv hok hstep => Spawn.inv_step hinv hok hstep).tended

def answer (placed : Bool) (_ : Fin n) : Answer := ⟨some ⟨false⟩, true, false, placed⟩

/-- Two blocks, tried every minute. -/
def pair : Spawn 2 := .new fun _ => ⟨0, 60000⟩

/-- Both monsters are placed by tasks. -/
def populated (first second : Fin 2) : Spawn 2 :=
  let s := pair.startup true (answer true) 0
  let s := s.execute 0 (.scheduleSpawn first ⟨0, 60000⟩ ⟨false⟩ 0 true) (answer true) 0 1
  s.execute 0 (.scheduleSpawn second ⟨0, 60000⟩ ⟨false⟩ 0 true) (answer true) 0 1

/-- The first one dies. A check finds that, and the next one schedules another monster. -/
def renewed (first second : Fin 2) : Spawn 2 :=
  let s := (populated first second).removeMonster 0 ⟨first, true, false⟩ 1
  let s := s.execute 0 .checkSpawnMonster (answer true) 60000 2
  s.execute 0 .checkSpawnMonster (answer true) 120000 3

theorem spawns_tended_renewed : (renewed 0 1).Tended := by
  have hexecute (s : Spawn 2) (k : ℕ) (now : ℤ) {eventId : UInt64} (hid : eventId.toUInt32 ≠ 0) :
      s.Succeeds (.execute k (answer true) now eventId) :=
    ⟨hid, fun _ _ _ _ => .inl rfl⟩
  have hpopulated : (system 2).ReachableVia Spawn.Succeeds (populated 0 1) :=
    .step (a := .execute 0 (answer true) 0 1)
      (.step (a := .execute 0 (answer true) 0 1)
        (.step (a := .startup true (answer true) 0) (.init ⟨_, rfl⟩)
          (fun _ => .inr ⟨rfl, .inl rfl⟩) rfl)
        (hexecute _ _ _ (by decide)) rfl)
      (hexecute _ _ _ (by decide)) rfl
  exact spawns_tended (.step (a := .execute 0 (answer true) 120000 3)
    (.step (a := .execute 0 (answer true) 60000 2)
      (.step (a := .removeMonster 0 1) hpopulated (by decide : (1 : UInt64).toUInt32 ≠ 0) rfl)
      (hexecute _ _ _ (by decide)) rfl)
    (hexecute _ _ _ (by decide)) rfl)

/-- One block. -/
def single : Spawn 1 := .new fun _ => ⟨0, 60000⟩

/-- Where the monster cannot be placed at the startup, nothing is scheduled. -/
theorem unplaced_forgotten :
    (system 1).Reachable (single.startup false (answer false) 0) ∧
      ¬(single.startup false (answer false) 0).Tended := by
  constructor
  · exact .step (.init ⟨_, rfl⟩) (a := .startup false (answer false) 0) trivial rfl
  · intro h
    rcases h.pending rfl 0 with ⟨monster, m, hm, -⟩ | hcheck | ⟨sb, mType, interval, startup, htask⟩
    · cases hm
    · exact absurd hcheck List.not_mem_nil
    · exact absurd htask List.not_mem_nil

end Canary.Monsters.Spawns
