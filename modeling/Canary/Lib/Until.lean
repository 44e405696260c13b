import Mathlib.Logic.Function.Iterate
import Mathlib.Order.Nat
import Mathlib.Tactic.NthRewrite

/-!
# Loops until an answer

A loop looks at an index and goes on to the next one until an index answers. So it ends with the
first answer (`First`), of which there is at most one (`First.unique`). Where the indices come
around, it is in the first round (`First.lt`), or there is none and the loop does not end.

Some answers may be good and others not. The first one is good if and only if an index has a good
answer and none before it a bad one (`exists_first_good_iff`).
-/

namespace Until

variable {ι β : Type*} {answer : ι → Option β} {next : ι → ι} {i : ι} {n : ℕ} {b : β}

/-- The index `n` steps on is the first to answer. -/
structure First (answer : ι → Option β) (next : ι → ι) (i : ι) (n : ℕ) (b : β) : Prop where
  answers : answer (next^[n] i) = some b
  before : ∀ m < n, answer (next^[m] i) = none

theorem first_zero_iff : First answer next i 0 b ↔ answer i = some b :=
  ⟨fun h => h.answers, fun h => ⟨h, fun _ hm => absurd hm (Nat.not_lt_zero _)⟩⟩

theorem first_succ_iff :
    First answer next i (n + 1) b ↔ answer i = none ∧ First answer next (next i) n b := by
  constructor
  · rintro ⟨hanswer, hbefore⟩
    exact ⟨hbefore 0 (Nat.succ_pos n), hanswer, fun m hm => hbefore (m + 1) (Nat.succ_lt_succ hm)⟩
  · rintro ⟨hnone, hanswer, hbefore⟩
    refine ⟨hanswer, fun m hm => ?_⟩
    cases m with
    | zero => exact hnone
    | succ m => exact hbefore m (Nat.lt_of_succ_lt_succ hm)

namespace First

variable (h : First answer next i n b)

include h

theorem le_of_answer {m : ℕ} {b' : β} (hm : answer (next^[m] i) = some b') : n ≤ m := by
  refine Nat.le_of_not_lt fun hlt => ?_
  rw [h.before m hlt] at hm
  cases hm

theorem unique {n' : ℕ} {b' : β} (h' : First answer next i n' b') : n = n' ∧ b = b' := by
  obtain rfl := le_antisymm (h.le_of_answer h'.answers) (h'.le_of_answer h.answers)
  exact ⟨rfl, Option.some.inj (h.answers.symm.trans h'.answers)⟩

/-- After a round, the indices are the same again. -/
theorem lt {size : ℕ} (hround : next^[size] i = i) (hsize : 0 < size) : n < size := by
  refine Nat.lt_of_not_le fun hle => ?_
  have hanswer : answer (next^[n - size] i) = some b := by
    rw [← h.answers]
    nth_rewrite 2 [← Nat.sub_add_cancel hle]
    rw [Function.iterate_add_apply, hround]
  have := h.le_of_answer hanswer
  omega

end First

theorem exists_first {b : β} (h : answer (next^[n] i) = some b) :
    ∃ m ≤ n, ∃ b, First answer next i m b := by
  induction n generalizing i with
  | zero => exact ⟨0, le_rfl, b, first_zero_iff.2 h⟩
  | succ n ih =>
    rcases hi : answer i with _ | b'
    · obtain ⟨m, hm, b', hfirst⟩ := ih h
      exact ⟨m + 1, Nat.succ_le_succ hm, b', first_succ_iff.2 ⟨hi, hfirst⟩⟩
    · exact ⟨0, Nat.zero_le _, b', first_zero_iff.2 hi⟩

theorem exists_first_good_iff {good : β → Prop} :
    (∃ n b, First answer next i n b ∧ good b) ↔
      ∃ n b, answer (next^[n] i) = some b ∧ good b ∧
        ∀ m < n, ∀ b, answer (next^[m] i) = some b → good b := by
  constructor
  · rintro ⟨n, b, hfirst, hgood⟩
    refine ⟨n, b, hfirst.answers, hgood, fun m hm b' hb' => ?_⟩
    exact absurd (hfirst.le_of_answer hb') (Nat.not_le_of_lt hm)
  · rintro ⟨n, b, hanswer, hgood, hbefore⟩
    obtain ⟨m, hm, b', hfirst⟩ := exists_first hanswer
    rcases Nat.lt_or_eq_of_le hm with hlt | rfl
    · exact ⟨m, b', hfirst, hbefore m hlt b' hfirst.answers⟩
    · exact ⟨m, b, ⟨hanswer, hfirst.before⟩, hgood⟩

end Until
