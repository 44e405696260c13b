import Mathlib.Data.List.Basic

/-!
# Removal by the last element

An element of an array is removed by putting the last one in its place. The others stay
(`swapRemove_perm`), those before it at their place (`take_swapRemove`).
-/

namespace SwapRemove

variable {α : Type*}

/-- The list without its element at `i`, for which the last one stands in. -/
def swapRemove (l : List α) (i : ℕ) (h : i < l.length) : List α :=
  (l.set i (l.getLast (List.ne_nil_of_length_pos (Nat.zero_lt_of_lt h)))).dropLast

variable {l : List α} {i : ℕ} (h : i < l.length)

theorem length_swapRemove : (swapRemove l i h).length = l.length - 1 := by
  rw [swapRemove, List.length_dropLast, List.length_set]

theorem take_swapRemove : (swapRemove l i h).take i = l.take i := by
  rw [swapRemove, List.dropLast_eq_take, List.take_take, List.length_set,
    Nat.min_eq_left (by omega), List.take_set_of_le (Nat.le_refl _)]

/-- The element that is removed is the only one that goes. -/
theorem swapRemove_perm : (l[i] :: swapRemove l i h).Perm l := by
  obtain ⟨before, after, hlist, hlength⟩ : ∃ before after, l = before ++ l[i] :: after ∧
      before.length = i :=
    ⟨l.take i, l.drop (i + 1), by simp, by simp [Nat.le_of_lt h]⟩
  generalize l[i] = x at hlist ⊢
  subst hlist
  subst hlength
  rw [swapRemove, List.set_append_right _ _ (Nat.le_refl _), Nat.sub_self, List.set_cons_zero]
  rcases List.eq_nil_or_concat after with rfl | ⟨rest, y, rfl⟩
  · simpa using (List.perm_append_singleton x before).symm
  · simp only [List.concat_eq_append]
    have hlast : (before ++ x :: (rest ++ [y])).getLast (by simp) = y := by simp
    have hdrop : (before ++ y :: (rest ++ [y])).dropLast = before ++ y :: rest := by
      rw [← List.cons_append, ← List.append_assoc, List.dropLast_concat]
    rw [hlast, hdrop]
    calc x :: (before ++ y :: rest)
      _ |>.Perm (before ++ x :: y :: rest) := List.perm_middle.symm
      _ |>.Perm (before ++ x :: (rest ++ [y])) :=
        ((List.perm_append_singleton y rest).symm.cons x).append_left before

end SwapRemove
