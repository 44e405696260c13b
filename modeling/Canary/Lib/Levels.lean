import Mathlib.Order.Bounds.Basic

/-!
# Levels

What is collected (experience, tries) makes a level: every level `l`, from the first level `b`
on, begins at a threshold `t l`, and the thresholds grow. The level of an amount is the one
whose interval it lies in (`IsLevel`), which is the greatest level that it reaches
(`IsLevel.isGreatest`), and there is no other (`IsLevel.unique`).
-/

namespace Levels

/-- The amount `x` has reached the level `l`, and not the next one. -/
structure IsLevel (t : ℕ → ℕ) (x l : ℕ) : Prop where
  le : t l ≤ x
  lt : x < t (l + 1)

variable {t : ℕ → ℕ} {b x l l' : ℕ}

/-- The thresholds grow, from one level to a later one. -/
theorem le_of_le (ht : ∀ l, b ≤ l → t l < t (l + 1)) (hb : b ≤ l) (h : l ≤ l') : t l ≤ t l' := by
  induction h with
  | refl => exact Nat.le_refl _
  | step h ih => exact Nat.le_trans ih (Nat.le_of_lt (ht _ (Nat.le_trans hb h)))

/-- An amount that reaches a later level reaches the next one. -/
theorem IsLevel.le_of_le (h : IsLevel t x l) (ht : ∀ l, b ≤ l → t l < t (l + 1)) (hb : b ≤ l)
    (hx : t l' ≤ x) : l' ≤ l := by
  by_contra hlt
  have hle : t (l + 1) ≤ t l' :=
    Levels.le_of_le ht (Nat.le_succ_of_le hb) (Nat.lt_of_not_le hlt)
  exact absurd h.lt (Nat.not_lt.2 (Nat.le_trans hle hx))

theorem IsLevel.isGreatest (h : IsLevel t x l) (ht : ∀ l, b ≤ l → t l < t (l + 1))
    (hb : b ≤ l) : IsGreatest {l | b ≤ l ∧ t l ≤ x} l :=
  ⟨⟨hb, h.le⟩, fun _ hl' => h.le_of_le ht hb hl'.2⟩

theorem IsLevel.unique (h : IsLevel t x l) (h' : IsLevel t x l')
    (ht : ∀ l, b ≤ l → t l < t (l + 1)) (hb : b ≤ l) (hb' : b ≤ l') : l = l' :=
  Nat.le_antisymm (h'.le_of_le ht hb' h.le) (h.le_of_le ht hb h'.le)

end Levels
