import Mathlib.Algebra.BigOperators.Group.List.Basic
import Mathlib.Data.List.Nodup
import Mathlib.Tactic.Abel

/-!
# Contributions

A value is the sum of a base and of the effects of a list of items. An item that comes adds its
effect, one that goes subtracts it, and one that is replaced does both. When no item is left the
value is the base again (`accounted_nil`).

Where each of a list of places has an effect, a place that changes does both as well
(`sum_map_update`). Where items come in groups, what divides the sum of every group divides that
of all (`dvd_sum_of_groups`).
-/

namespace Contributions

variable {G α : Type*} [AddCommGroup G]

/-- The value is accounted for by the base and by the effects of the items. -/
def Accounted (effect : α → G) (base value : G) (items : List α) : Prop :=
  value = base + (items.map effect).sum

variable {effect : α → G} {base value : G} {items : List α}

theorem accounted_nil : Accounted effect base value [] ↔ value = base := by
  rw [Accounted, List.map_nil, List.sum_nil, add_zero]

theorem Accounted.push (h : Accounted effect base value items) (x : α) :
    Accounted effect base (value + effect x) (items ++ [x]) := by
  rw [Accounted, h, List.map_append, List.sum_append, add_assoc]
  simp

theorem Accounted.eraseIdx (h : Accounted effect base value items) {i : ℕ}
    (hi : i < items.length) :
    Accounted effect base (value - effect items[i]) (items.eraseIdx i) := by
  have hi' : i < (items.map effect).length := by simpa using hi
  have hsum := List.CommMonoid.add_sum_eraseIdx hi'
  rw [List.getElem_map, List.eraseIdx_map] at hsum
  rw [Accounted, h, ← hsum]
  abel

theorem Accounted.set (h : Accounted effect base value items) {i : ℕ} (hi : i < items.length)
    (x : α) : Accounted effect base (value - effect items[i] + effect x) (items.set i x) := by
  have hi' : i < (items.map effect).length := by simpa using hi
  rw [Accounted, h, List.map_set, List.sum_set', dif_pos hi', List.getElem_map]
  abel

/-- The effect of one of the places changes. -/
theorem sum_map_update [DecidableEq α] {l : List α} (hl : l.Nodup) {a : α} (ha : a ∈ l)
    (effect : α → G) (x : G) :
    (l.map (Function.update effect a x)).sum = (l.map effect).sum - effect a + x := by
  have hlt : l.idxOf a < l.length := List.idxOf_lt_length_iff.2 ha
  rw [hl.map_update, if_pos ha, List.sum_set', dif_pos (by simpa using hlt), List.getElem_map,
    List.getElem_idxOf hlt]
  abel

/-- The items by a key of theirs: if a number divides the sum of those with any one key, it
    divides the sum of all. -/
theorem dvd_sum_of_groups {κ : Type*} [DecidableEq κ] (key : α → κ) (w : α → ℕ) {d : ℕ}
    {l : List α} (h : ∀ k, d ∣ ((l.filter fun a => key a = k).map w).sum) :
    d ∣ (l.map w).sum := by
  induction hn : l.length using Nat.strong_induction_on generalizing l with
  | _ n ih =>
    cases l with
    | nil => exact Nat.dvd_zero d
    | cons a l =>
      -- Those with the key of the first item, and the rest.
      have hsplit := List.filter_append_perm (fun b => decide (key b = key a)) (a :: l)
      rw [← (hsplit.map w).sum_eq, List.map_append, List.sum_append]
      refine Nat.dvd_add (h (key a)) (ih _ ?_ (fun k => ?_) rfl)
      · rw [← hn, List.filter_cons_of_neg (by simp)]
        exact Nat.lt_succ_of_le (List.length_filter_le _ _)
      · rw [List.filter_filter]
        by_cases hk : k = key a
        · have hnil : (a :: l).filter (fun b => decide (key b = k) && !decide (key b = key a)) =
              [] := List.filter_eq_nil_iff.2 fun b _ => by simp [hk]
          rw [hnil]
          exact Nat.dvd_zero d
        · have hsame : (a :: l).filter (fun b => decide (key b = k) && !decide (key b = key a)) =
              (a :: l).filter fun b => key b = k := List.filter_congr fun b _ => by
            by_cases hb : key b = k
            · simp [hb, hk]
            · simp [hb]
          rw [hsame]
          exact h k

end Contributions
