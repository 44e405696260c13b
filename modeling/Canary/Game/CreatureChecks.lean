import Canary.Lib.SwapRemove
import Mathlib.Algebra.BigOperators.Fin
import Mathlib.Algebra.Order.BigOperators.Group.Finset
import Mathlib.Data.List.Induction
import Mathlib.Data.List.Nodup

/-!
# The checks of creatures

The creatures that think are in one of ten lists, of which `checkCreatures` walks the next one. A
creature that is no longer to be checked stays in its list until its turn, when the last one of
the list is put in its place, and the walk then ends one earlier.

* Out of a walk, and in all of its callbacks, a creature is marked exactly if it is in one of the
  lists, and then it is there once (`Checks.exact_apply`, `Walk.exact_visit`).
* A walk calls a creature at most once (`called_nodup`). It calls all that were in its list and are
  enabled at its end, if nobody is taken out of a list that has grown in the walk (but as the last
  one of the walk), and nobody who was taken out is added again (`checks_exact`).

The callbacks of a turn (`onThink`, `onAttacking` and `executeConditions`, or `onDeath`) may add and
remove any checks.
-/

namespace Canary.Game.CreatureChecks

open SwapRemove

/-- The marks of creatures and the lists of `Game`; `EVENT_CREATURECOUNT` is 10. -/
structure Checks (C : Type*) where
  creatureCheck : C → Bool
  inCheckCreaturesVector : C → Bool
  checkCreatureLists : Fin 10 → List C
  /-- Of the list that is walked next. -/
  index : Fin 10

/-- A call, with the list that `uniform_random` gives. -/
inductive Action (C : Type*)
  | addCreatureCheck (creature : C) (random : Fin 10)
  | removeCreatureCheck (creature : C)

/-- What the callbacks of one creature do: its health when its turn comes, and their calls. -/
structure Turn (C : Type*) where
  health : ℤ
  actions : List (Action C)

inductive Callback
  | onThink | onDeath
  deriving DecidableEq

variable {C : Type*} [DecidableEq C]

namespace Checks

variable (g : Checks C)

def addCreatureCheck (creature : C) (random : Fin 10) : Checks C :=
  let g := { g with creatureCheck := Function.update g.creatureCheck creature true }
  if g.inCheckCreaturesVector creature then g
  else { g with
    inCheckCreaturesVector := Function.update g.inCheckCreaturesVector creature true
    checkCreatureLists := Function.update g.checkCreatureLists random
      (g.checkCreatureLists random ++ [creature]) }

def removeCreatureCheck (creature : C) : Checks C :=
  if g.inCheckCreaturesVector creature then
    { g with creatureCheck := Function.update g.creatureCheck creature false }
  else g

def apply : Action C → Checks C
  | .addCreatureCheck creature random => g.addCreatureCheck creature random
  | .removeCreatureCheck creature => g.removeCreatureCheck creature

/-- The list of the walk. -/
def list : List C := g.checkCreatureLists g.index

theorem prefix_apply (a : Action C) (i : Fin 10) :
    g.checkCreatureLists i <+: (g.apply a).checkCreatureLists i := by
  cases a with
  | addCreatureCheck creature random =>
    simp only [apply, addCreatureCheck]
    split
    · exact List.prefix_refl _
    · by_cases hi : i = random
      · subst hi
        simp only [Function.update_self]
        exact List.prefix_append _ _
      · simp only [Function.update_of_ne hi]
        exact List.prefix_refl _
  | removeCreatureCheck creature =>
    simp only [apply, removeCreatureCheck]
    split <;> exact List.prefix_refl _

theorem index_apply (a : Action C) : (g.apply a).index = g.index := by
  cases a with
  | addCreatureCheck creature random =>
    simp only [apply, addCreatureCheck]
    split <;> rfl
  | removeCreatureCheck creature =>
    simp only [apply, removeCreatureCheck]
    split <;> rfl

/-- Callbacks can only lengthen the list. -/
theorem prefix_actions (actions : List (Action C)) :
    g.list <+: (actions.foldl apply g).list ∧ (actions.foldl apply g).index = g.index := by
  induction actions generalizing g with
  | nil => exact ⟨List.prefix_refl _, rfl⟩
  | cons a actions ih =>
    obtain ⟨hlonger, hindex⟩ := ih (g.apply a)
    refine ⟨List.IsPrefix.trans ?_ hlonger, hindex.trans (g.index_apply a)⟩
    rw [list, list, index_apply]
    exact g.prefix_apply a g.index

end Checks

/-! ## The walk -/

/-- In the midst of `checkCreatures`: `it`, `end`, and who was called. -/
structure Walk (C : Type*) where
  checks : Checks C
  it : ℕ
  stop : ℕ
  calls : List (C × Callback)
  it_le : it ≤ stop
  stop_le : stop ≤ checks.list.length

namespace Walk

def start (g : Checks C) : Walk C := ⟨g, 0, g.list.length, [], Nat.zero_le _, le_rfl⟩

variable (w : Walk C)

omit [DecidableEq C] in
theorem it_lt_length {w : Walk C} (h : w.it < w.stop) : w.it < w.checks.list.length :=
  h.trans_le w.stop_le

/-- The one whose turn it is. -/
def creature (h : w.it < w.stop) : C := w.checks.list.get ⟨w.it, it_lt_length h⟩

/-- The checks after its callbacks. -/
def calledBack (turn : Turn C) : Checks C := turn.actions.foldl Checks.apply w.checks

/-- The checks after it was taken out. -/
def takenOut (h : w.it < w.stop) : Checks C :=
  { w.checks with
    inCheckCreaturesVector :=
      Function.update w.checks.inCheckCreaturesVector (w.creature h) false
    checkCreatureLists := Function.update w.checks.checkCreatureLists w.checks.index
      (swapRemove w.checks.list w.it (it_lt_length h)) }

theorem list_takenOut (h : w.it < w.stop) :
    (w.takenOut h).list = swapRemove w.checks.list w.it (it_lt_length h) :=
  Function.update_self _ _ _

/-- One turn of the walk. -/
def visit (h : w.it < w.stop) (turn : Turn C) : Walk C :=
  if w.checks.creatureCheck (w.creature h) then
    { checks := w.calledBack turn
      it := w.it + 1
      stop := w.stop
      calls := w.calls ++ [(w.creature h, if turn.health > 0 then .onThink else .onDeath)]
      it_le := h
      stop_le := w.stop_le.trans (w.checks.prefix_actions turn.actions).1.length_le }
  else
    { checks := w.takenOut h
      it := w.it
      stop := w.stop - 1
      calls := w.calls
      it_le := Nat.le_sub_one_of_lt h
      stop_le := by
        rw [list_takenOut, length_swapRemove]
        exact Nat.sub_le_sub_right w.stop_le 1 }

theorem visit_room (h : w.it < w.stop) (turn : Turn C) :
    (w.visit h turn).stop - (w.visit h turn).it + 1 = w.stop - w.it := by
  unfold visit
  split <;> simp only <;> omega

/-- `turns k` is the turn after `k` others. -/
def loop (turns : ℕ → Turn C) (k : ℕ) (w : Walk C) : Walk C :=
  if h : w.it < w.stop then (w.visit h (turns k)).loop turns (k + 1) else w
termination_by w.stop - w.it
decreasing_by
  have := w.visit_room h (turns k)
  omega

/-- The walk after `k` turns. -/
def after (turns : ℕ → Turn C) (w : Walk C) : ℕ → Walk C
  | 0 => w
  | k + 1 =>
    let w := after turns w k
    if h : w.it < w.stop then w.visit h (turns k) else w

end Walk

/-- The checks after a walk, and who was called. -/
def Checks.checkCreatures (g : Checks C) (turns : ℕ → Turn C) : Checks C × List (C × Callback) :=
  let w := (Walk.start g).loop turns 0
  ({ w.checks with index := w.checks.index + 1 }, w.calls)

inductive Event (C : Type*)
  | action (a : Action C)
  | checkCreatures (turns : ℕ → Turn C)

def Checks.step (g : Checks C) : Event C → Checks C
  | .action a => g.apply a
  | .checkCreatures turns => (g.checkCreatures turns).1

/-- From a game where nobody is checked. -/
def run (events : List (Event C)) : Checks C :=
  events.foldl Checks.step ⟨fun _ => false, fun _ => false, fun _ => [], 0⟩

/-! ## What is kept -/

/-- A creature is marked exactly if it is in a list, and then it is there once. -/
def Checks.Exact (g : Checks C) : Prop :=
  ∀ creature, ∑ i, (g.checkCreatureLists i).count creature =
    if g.inCheckCreaturesVector creature then 1 else 0

/-- All that were in the list and are enabled in the end were called once. -/
def Checks.PassExact (g : Checks C) (turns : ℕ → Turn C) : Prop :=
  ∀ creature ∈ g.list, (g.checkCreatures turns).1.creatureCheck creature →
    ((g.checkCreatures turns).2.map Prod.fst).count creature = 1

/-- A turn of a walk of `list`: one that is taken out is the last of the walk, if the list has grown,
and nobody who was taken out is added. -/
def Walk.Orderly (list : List C) (w : Walk C) (turn : Turn C) : Prop :=
  ∀ h : w.it < w.stop,
    if w.checks.creatureCheck (w.creature h) then
      ∀ creature random, .addCreatureCheck creature random ∈ turn.actions → creature ∈ list →
        w.checks.inCheckCreaturesVector creature
    else w.checks.list.length = w.stop ∨ w.it + 1 = w.stop

/-- All turns of the walk are orderly. -/
def Checks.Orderly (g : Checks C) (turns : ℕ → Turn C) : Prop :=
  ∀ k, ((Walk.start g).after turns k).Orderly g.list (turns k)

/-! ## Marks -/

/-- How often a creature is in the lists if one of them is replaced. -/
theorem sum_count_update (lists : Fin 10 → List C) (i : Fin 10) (l : List C) (c : C) :
    ∑ j, (Function.update lists i l j).count c + (lists i).count c =
      ∑ j, (lists j).count c + l.count c := by
  have hothers : ∑ j ∈ Finset.univ.erase i, (Function.update lists i l j).count c =
      ∑ j ∈ Finset.univ.erase i, (lists j).count c :=
    Finset.sum_congr rfl fun j hj => by rw [Function.update_of_ne (Finset.ne_of_mem_erase hj)]
  rw [← Finset.add_sum_erase _ _ (Finset.mem_univ i), hothers, Function.update_self,
    ← Finset.add_sum_erase _ (fun j => (lists j).count c) (Finset.mem_univ i)]
  omega

namespace Checks

variable {g : Checks C} {c : C}

theorem count_le_sum (g : Checks C) (i : Fin 10) (c : C) :
    (g.checkCreatureLists i).count c ≤ ∑ j, (g.checkCreatureLists j).count c :=
  Finset.single_le_sum (f := fun j => (g.checkCreatureLists j).count c)
    (fun _ _ => Nat.zero_le _) (Finset.mem_univ i)

theorem Exact.nodup (h : g.Exact) (i : Fin 10) : (g.checkCreatureLists i).Nodup := by
  refine List.nodup_iff_count_le_one.2 fun c => ?_
  have hle := g.count_le_sum i c
  have hsum := h c
  split at hsum <;> omega

theorem Exact.marked (h : g.Exact) {i : Fin 10} (hc : c ∈ g.checkCreatureLists i) :
    g.inCheckCreaturesVector c = true := by
  have hpos := List.count_pos_iff.2 hc
  have hle := g.count_le_sum i c
  have hsum := h c
  by_contra hmark
  rw [if_neg hmark] at hsum
  omega

/-- A call marks whom it adds. -/
theorem exact_apply (h : g.Exact) (a : Action C) : (g.apply a).Exact := by
  cases a with
  | addCreatureCheck creature random =>
    simp only [apply, addCreatureCheck]
    split
    · exact h
    · rename_i hmark
      intro c
      have hsum := sum_count_update g.checkCreatureLists random
        (g.checkCreatureLists random ++ [creature]) c
      have hc := h c
      rw [List.count_append, List.count_singleton] at hsum
      by_cases hcreature : c = creature
      · subst hcreature
        rw [if_neg hmark] at hc
        rw [beq_self_eq_true, if_pos rfl] at hsum
        simp only [Function.update_self, if_true]
        omega
      · rw [if_neg (by simpa using Ne.symm hcreature)] at hsum
        simp only [Function.update_of_ne hcreature]
        omega
  | removeCreatureCheck creature =>
    simp only [apply, removeCreatureCheck]
    split <;> exact h

theorem exact_actions (h : g.Exact) (actions : List (Action C)) :
    (actions.foldl apply g).Exact :=
  List.foldlRecOn actions apply h fun _ hg a _ => exact_apply hg a

/-- One that is in no list and not enabled stays so if nobody adds it. -/
theorem unmarked_actions {actions : List (Action C)} (hmark : g.inCheckCreaturesVector c = false)
    (hcheck : g.creatureCheck c = false) (hadd : ∀ random, .addCreatureCheck c random ∉ actions) :
    (actions.foldl apply g).inCheckCreaturesVector c = false ∧
      (actions.foldl apply g).creatureCheck c = false := by
  induction actions generalizing g with
  | nil => exact ⟨hmark, hcheck⟩
  | cons a actions ih =>
    refine ih (g := g.apply a) ?_ ?_ fun random hmem => hadd random (List.mem_cons_of_mem _ hmem)
    all_goals
      cases a with
      | addCreatureCheck creature random =>
        have hne : c ≠ creature := by
          rintro rfl
          exact hadd random List.mem_cons_self
        simp only [apply, addCreatureCheck]
        split <;> simp [Function.update_of_ne hne, hmark, hcheck]
      | removeCreatureCheck creature =>
        simp only [apply, removeCreatureCheck]
        split
        · rename_i hcreature
          have hne : c ≠ creature := by
            rintro rfl
            exact Bool.false_ne_true (hmark.symm.trans hcreature)
          simp [Function.update_of_ne hne, hmark, hcheck]
        · first | exact hmark | exact hcheck

end Checks

namespace Walk

variable {w : Walk C} {turns : ℕ → Turn C}

omit [DecidableEq C] in
theorem creature_mem (h : w.it < w.stop) : w.creature h ∈ w.checks.list := List.get_mem _ _

omit [DecidableEq C] in
/-- The one that is taken out, and those that stay. -/
theorem takenOut_perm (h : w.it < w.stop) :
    (w.creature h :: swapRemove w.checks.list w.it (it_lt_length h)).Perm w.checks.list :=
  swapRemove_perm (it_lt_length h)

theorem exact_takenOut (hexact : w.checks.Exact) (h : w.it < w.stop) : (w.takenOut h).Exact := by
  intro c
  have hsum := sum_count_update w.checks.checkCreatureLists w.checks.index
    (swapRemove w.checks.list w.it (it_lt_length h)) c
  have hlist : w.checks.checkCreatureLists w.checks.index = w.checks.list := rfl
  have hperm := (takenOut_perm h).count_eq c
  have hc := hexact c
  rw [List.count_cons] at hperm
  rw [hlist] at hsum
  simp only [takenOut]
  by_cases hcreature : c = w.creature h
  · subst hcreature
    rw [hexact.marked (creature_mem h), if_pos rfl] at hc
    rw [beq_self_eq_true, if_pos rfl] at hperm
    simp only [Function.update_self, Bool.false_eq_true, if_false]
    omega
  · rw [if_neg (by simpa using Ne.symm hcreature)] at hperm
    simp only [Function.update_of_ne hcreature]
    omega

theorem exact_visit (hexact : w.checks.Exact) (h : w.it < w.stop) (turn : Turn C) :
    (w.visit h turn).checks.Exact := by
  unfold visit
  split
  · exact Checks.exact_actions hexact turn.actions
  · exact exact_takenOut hexact h

/-- Those that were called are the walked part of the list. -/
theorem calls_visit (hcalls : w.calls.map Prod.fst = w.checks.list.take w.it) (h : w.it < w.stop)
    (turn : Turn C) : (w.visit h turn).calls.map Prod.fst =
      (w.visit h turn).checks.list.take (w.visit h turn).it := by
  have hlt := it_lt_length h
  unfold visit
  split
  · obtain ⟨after, hafter⟩ := (w.checks.prefix_actions turn.actions).1
    simp only [calledBack]
    rw [← hafter, List.take_append_of_le_length hlt, List.take_succ_eq_append_getElem hlt, ← hcalls,
      List.map_append]
    rfl
  · simp only
    rw [list_takenOut, take_swapRemove, hcalls]

/-- Of those in the list of the walk: they are still in its part that is walked, or were taken out
and stay out. -/
def Kept (list : List C) (w : Walk C) : Prop :=
  ∀ c ∈ list, c ∈ w.checks.list.take w.stop ∨
    (w.checks.inCheckCreaturesVector c = false ∧ w.checks.creatureCheck c = false)

theorem kept_visit {list : List C} (hkept : w.Kept list) (h : w.it < w.stop) {turn : Turn C}
    (horderly : w.Orderly list turn) : (w.visit h turn).Kept list := by
  have hlt := it_lt_length h
  have horder := horderly h
  intro c hc
  unfold visit
  by_cases hcheck : w.checks.creatureCheck (w.creature h) = true
  · rw [if_pos hcheck] at horder ⊢
    simp only [calledBack]
    rcases hkept c hc with hmem | ⟨hmark, hdisabled⟩
    · obtain ⟨after, hafter⟩ := (w.checks.prefix_actions turn.actions).1
      left
      rwa [← hafter, List.take_append_of_le_length w.stop_le]
    · right
      refine Checks.unmarked_actions hmark hdisabled fun random hadd => ?_
      exact Bool.false_ne_true (hmark.symm.trans (horder c random hadd hc))
  · rw [if_neg hcheck] at horder ⊢
    simp only [list_takenOut]
    by_cases hcreature : c = w.creature h
    · subst hcreature
      right
      simp only [takenOut, Function.update_self, true_and]
      exact Bool.eq_false_iff.2 hcheck
    · rcases hkept c hc with hmem | ⟨hmark, hdisabled⟩
      · left
        rcases horder with hlength | hlast
        · have hmem' := (takenOut_perm h).mem_iff.2 (List.mem_of_mem_take hmem)
          rw [List.take_of_length_le (by rw [length_swapRemove]; omega)]
          exact (List.mem_cons.1 hmem').resolve_left hcreature
        · have hstop : w.stop - 1 = w.it := by omega
          rw [hstop, take_swapRemove]
          rw [← hlast, List.take_succ_eq_append_getElem hlt, List.mem_append,
            List.mem_singleton] at hmem
          exact hmem.resolve_right hcreature
      · right
        simp only [takenOut, Function.update_of_ne hcreature]
        exact ⟨hmark, hdisabled⟩

/-! ### A whole walk -/

theorem after_room (k : ℕ) : (w.after turns k).stop - (w.after turns k).it = w.stop - w.it - k := by
  induction k with
  | zero => rfl
  | succ k ih =>
    simp only [after]
    split
    · rename_i h
      have hroom := (w.after turns k).visit_room h (turns k)
      omega
    · omega

/-- The loop ends after as many turns as there are creatures. -/
theorem loop_eq_after (n k : ℕ) (hroom : (w.after turns k).stop - (w.after turns k).it = n) :
    (w.after turns k).loop turns k = w.after turns (k + n) := by
  induction n generalizing k with
  | zero =>
    rw [loop, dif_neg (by omega)]
    rfl
  | succ n ih =>
    have h : (w.after turns k).it < (w.after turns k).stop := by omega
    have hafter : w.after turns (k + 1) = (w.after turns k).visit h (turns k) := by
      rw [after, dif_pos h]
    rw [loop, dif_pos h, ← hafter, ih (k + 1), Nat.add_right_comm, Nat.add_assoc]
    rw [after_room] at hroom ⊢
    omega

theorem loop_start (g : Checks C) (turns : ℕ → Turn C) :
    (start g).loop turns 0 = (start g).after turns g.list.length := by
  have hloop : (start g).loop turns 0 = (start g).after turns (0 + g.list.length) :=
    loop_eq_after g.list.length 0 rfl
  rwa [Nat.zero_add] at hloop

/-- What every turn keeps holds after any number of them. -/
theorem after_invariant {P : Walk C → Prop} (h₀ : P w)
    (hvisit : ∀ k (h : (w.after turns k).it < (w.after turns k).stop), P (w.after turns k) →
      P ((w.after turns k).visit h (turns k))) (k : ℕ) : P (w.after turns k) := by
  induction k with
  | zero => exact h₀
  | succ k ih =>
    simp only [after]
    split
    · exact hvisit k _ ih
    · exact ih

end Walk

namespace Checks

variable {g : Checks C}

/-- The marks are those of the lists in all of a walk. -/
theorem exact_after (h : g.Exact) (turns : ℕ → Turn C) (k : ℕ) :
    ((Walk.start g).after turns k).checks.Exact :=
  Walk.after_invariant (P := fun w => w.checks.Exact) h
    (fun _ hlt hexact => Walk.exact_visit hexact hlt _) k

theorem exact_checkCreatures (h : g.Exact) (turns : ℕ → Turn C) :
    (g.checkCreatures turns).1.Exact := by
  have hafter := exact_after h turns g.list.length
  simp only [checkCreatures, Walk.loop_start]
  exact hafter

/-- Who was called is the walked part of the list. -/
theorem calls_checkCreatures (turns : ℕ → Turn C) :
    ((g.checkCreatures turns).2).map Prod.fst =
      (((Walk.start g).after turns g.list.length).checks.list).take
        ((Walk.start g).after turns g.list.length).it := by
  simp only [checkCreatures, Walk.loop_start]
  exact Walk.after_invariant (P := fun w => w.calls.map Prod.fst = w.checks.list.take w.it) rfl
    (fun _ hlt hcalls => Walk.calls_visit hcalls hlt _) _

/-- Nobody is called twice. -/
theorem called_nodup (h : g.Exact) (turns : ℕ → Turn C) :
    ((g.checkCreatures turns).2.map Prod.fst).Nodup := by
  rw [calls_checkCreatures]
  exact ((exact_after h turns _).nodup _).sublist (List.take_sublist _ _)

/-- An orderly walk calls all that are still enabled. -/
theorem passExact_of_orderly (h : g.Exact) {turns : ℕ → Turn C} (horderly : g.Orderly turns) :
    g.PassExact turns := by
  intro c hc hcheck
  have hkept : ((Walk.start g).after turns g.list.length).Kept g.list :=
    Walk.after_invariant (fun c hc => .inl (by simpa [Walk.start] using hc))
      (fun k hlt hkept => Walk.kept_visit hkept hlt (horderly k)) _
  have hroom : ((Walk.start g).after turns g.list.length).stop -
      ((Walk.start g).after turns g.list.length).it = (Walk.start g).stop - (Walk.start g).it -
        g.list.length := Walk.after_room _
  have hend : ((Walk.start g).after turns g.list.length).it =
      ((Walk.start g).after turns g.list.length).stop := by
    have hle := ((Walk.start g).after turns g.list.length).it_le
    simp only [Walk.start] at hroom hle ⊢
    omega
  refine List.count_eq_one_of_mem (called_nodup h turns) ?_
  rw [calls_checkCreatures, hend]
  refine (hkept c hc).resolve_right fun hgone => ?_
  simp only [checkCreatures, Walk.loop_start] at hcheck
  exact Bool.false_ne_true (hgone.2.symm.trans hcheck)

theorem exact_step (h : g.Exact) (e : Event C) : (g.step e).Exact := by
  cases e with
  | action a => exact exact_apply h a
  | checkCreatures turns => exact exact_checkCreatures h turns

end Checks

theorem exact_run (events : List (Event C)) : (run events).Exact :=
  List.foldlRecOn (motive := Checks.Exact) events Checks.step (fun _ => by simp)
    fun _ hg e _ => Checks.exact_step hg e

/-- In every state of a run the marks are those of the lists, and every orderly walk of the run calls
all that were in its list and are enabled in the end, once each. -/
theorem checks_exact (events : List (Event C)) :
    (∀ done, done <+: events → (run done).Exact) ∧
      ∀ done turns, done ++ [.checkCreatures turns] <+: events → (run done).Orderly turns →
        (run done).PassExact turns :=
  ⟨fun done _ => exact_run done,
    fun done _ _ horderly => Checks.passExact_of_orderly (exact_run done) horderly⟩

/-- The creatures 0, 1 and 2 are added to one list, and 1 is no longer to be checked. -/
def three : List (Event ℕ) :=
  [.action (.addCreatureCheck 0 0), .action (.addCreatureCheck 1 0),
    .action (.addCreatureCheck 2 0), .action (.removeCreatureCheck 1)]

/-- All live, and nobody calls anything. -/
def quiet (_ : ℕ) : Turn ℕ := ⟨100, []⟩

/-- The first one adds 3 to the list. -/
def summons (k : ℕ) : Turn ℕ := ⟨100, if k = 0 then [.addCreatureCheck 3 0] else []⟩

theorem quiet_orderly : (run three).Orderly quiet := by
  intro k
  have hlength : ((Walk.start (run three)).after quiet k).checks.list.length =
      ((Walk.start (run three)).after quiet k).stop :=
    Walk.after_invariant (P := fun w => w.checks.list.length = w.stop) rfl
      (fun k hlt hlength => by
        unfold Walk.visit
        split
        · exact hlength
        · simp only [Walk.list_takenOut, length_swapRemove, hlength]) k
  intro hlt
  split
  · intro creature random hmem
    exact absurd hmem List.not_mem_nil
  · exact .inl hlength

theorem checks_exact_three : (run three).PassExact quiet :=
  (checks_exact (three ++ [.checkCreatures quiet])).2 three quiet (List.prefix_refl _)
    quiet_orderly

/-- The newcomer stands in for 1, and 2, who is still enabled, is not called. -/
theorem grown_list_skips : ¬(run three).PassExact summons := by
  intro h
  have hcount := h 2 (by decide) (by simp only [Checks.checkCreatures, Walk.loop_start]; decide)
  simp only [Checks.checkCreatures, Walk.loop_start] at hcount
  revert hcount
  decide

end Canary.Game.CreatureChecks
