import Mathlib.Logic.Function.Basic
import Mathlib.Data.Nat.Notation

/-!
# Arrays that change in place

A loop that shifts the elements of an array by one assigns one after the other, and reads what it
has not yet written: upwards it has to run backwards.
-/

namespace InPlace

variable {α : Type*}

/-- Elements `1 .. n` become those before them. -/
def shiftUp (n : ℕ) (f : ℕ → α) : ℕ → α :=
  (List.range n).reverse.foldl (fun f k => Function.update f (k + 1) (f k)) f

/-- Elements `0 .. n - 1` become those after them. -/
def shiftDown (n : ℕ) (f : ℕ → α) : ℕ → α :=
  (List.range n).foldl (fun f k => Function.update f k (f (k + 1))) f

theorem shiftUp_apply (n : ℕ) (f : ℕ → α) (j : ℕ) :
    shiftUp n f j = if 1 ≤ j ∧ j ≤ n then f (j - 1) else f j := by
  unfold shiftUp
  induction n generalizing f with
  | zero => rw [if_neg (by omega)]; rfl
  | succ n ih =>
    rw [List.range_succ, List.reverse_append, List.reverse_singleton, List.singleton_append,
      List.foldl_cons, ih]
    by_cases hj : 1 ≤ j ∧ j ≤ n
    · rw [if_pos hj, if_pos (by omega), Function.update_of_ne (by omega)]
    · rw [if_neg hj]
      by_cases hlast : j = n + 1
      · subst hlast
        rw [Function.update_self, if_pos (by omega), Nat.add_sub_cancel]
      · rw [Function.update_of_ne hlast, if_neg (by omega)]

theorem shiftDown_apply (n : ℕ) (f : ℕ → α) (j : ℕ) :
    shiftDown n f j = if j < n then f (j + 1) else f j := by
  unfold shiftDown
  induction n with
  | zero => rfl
  | succ n ih =>
    rw [List.range_succ, List.foldl_append, List.foldl_cons, List.foldl_nil]
    by_cases hlast : j = n
    · subst hlast
      rw [Function.update_self, if_pos (Nat.lt_succ_self j)]
      have hnext : ∀ m ≤ j, (List.range m).foldl (fun f k => Function.update f k (f (k + 1))) f
          (j + 1) = f (j + 1) := by
        intro m hm
        induction m with
        | zero => rfl
        | succ m ihm =>
          rw [List.range_succ, List.foldl_append, List.foldl_cons, List.foldl_nil,
            Function.update_of_ne (by omega), ihm (by omega)]
      exact hnext j (Nat.le_refl j)
    · rw [Function.update_of_ne hlast, ih]
      by_cases hj : j < n
      · rw [if_pos hj, if_pos (by omega)]
      · rw [if_neg hj, if_neg (by omega)]

end InPlace
