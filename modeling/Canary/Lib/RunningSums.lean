import Mathlib.Algebra.Ring.Basic
import Mathlib.Algebra.BigOperators.Group.List.Basic
import Mathlib.Algebra.Order.Ring.Nat
import Mathlib.Data.Nat.Cast.Basic
import Mathlib.Tactic.Ring
import Mathlib.Tactic.LinearCombination

/-!
# Running sums

A checksum of two *running sums*: the first is the sum of the letters, the second the sum of
what the first one was after each letter. So the second counts every letter as often as there
are letters from it on.

Over a ring without zero divisors in which the numbers up to the length of the words differ
from 0, two words that differ in one letter differ in both sums (`first_ne`, `second_ne`), and
two that differ in two letters in one of them (`sums_ne`): the sums with the word are a code of
distance three.
-/

namespace RunningSums

variable {R : Type*}

/-- The two sums, begun at `a` and `b`. -/
def sums [Add R] (a b : R) (l : List R) : R × R :=
  l.foldl (fun s d => (s.1 + d, s.2 + (s.1 + d))) (a, b)

/-- The number of places at which two words differ. -/
def distance {α : Type*} [DecidableEq α] (l l' : List α) : ℕ :=
  (l.zip l').countP fun p => p.1 ≠ p.2

section Distance

variable {α : Type*} [DecidableEq α]

theorem distance_append {l l' m m' : List α} (h : l.length = l'.length) :
    distance (l ++ m) (l' ++ m') = distance l l' + distance m m' := by
  rw [distance, List.zip_append h, List.countP_append]
  rfl

theorem distance_cons (x y : α) (l l' : List α) :
    distance (x :: l) (y :: l') = distance l l' + if x ≠ y then 1 else 0 := by
  rw [distance, List.zip_cons_cons, List.countP_cons]
  congr 1
  simp only [decide_eq_true_eq]

theorem distance_eq_zero {l l' : List α} (h : l.length = l'.length) :
    distance l l' = 0 ↔ l = l' := by
  induction l generalizing l' with
  | nil =>
    rw [List.eq_nil_of_length_eq_zero h.symm]
    exact iff_of_true rfl rfl
  | cons x l ih =>
    obtain _ | ⟨y, l'⟩ := l'
    · cases h
    · rw [distance_cons, Nat.add_eq_zero_iff, ih (Nat.succ_inj.1 h), List.cons.injEq, and_comm]
      by_cases hxy : x = y
      · rw [if_neg (not_not.2 hxy)]
        exact and_congr (iff_of_true rfl hxy) Iff.rfl
      · rw [if_pos hxy]
        exact ⟨fun h => absurd h.1 Nat.one_ne_zero, fun h => absurd h.1 hxy⟩

/-- Letters that are told apart are told apart as what they stand for. -/
theorem distance_map {β : Type*} [DecidableEq β] {f : α → β} (hf : f.Injective)
    (l l' : List α) : distance (l.map f) (l'.map f) = distance l l' := by
  rw [distance, List.zip_map, List.countP_map]
  exact List.countP_congr fun p _ => by simp [hf.eq_iff]

end Distance

/-- The sums of what the letters stand for. -/
theorem map_sums {S : Type*} [Add R] [Add S] {f : R → S} (hf : ∀ x y, f (x + y) = f x + f y)
    (a b : R) (l : List R) : Prod.map f f (sums a b l) = sums (f a) (f b) (l.map f) := by
  induction l generalizing a b with
  | nil => rfl
  | cons d l ih =>
    have hstep : sums a b (d :: l) = sums (a + d) (b + (a + d)) l := rfl
    rw [hstep, ih, hf, hf, hf]
    rfl

section Difference

variable [CommRing R]

/-- What a word adds to the second sum, if the first begins at 0. -/
def weighted : List R → R
  | [] => 0
  | d :: l => (l.length + 1) * d + weighted l

theorem sums_eq (a b : R) (l : List R) :
    sums a b l = (a + l.sum, b + l.length * a + weighted l) := by
  induction l generalizing a b with
  | nil => simp [sums, weighted]
  | cons d l ih =>
    have hstep : sums a b (d :: l) = sums (a + d) (b + (a + d)) l := rfl
    rw [hstep, ih, List.sum_cons, List.length_cons, weighted, Nat.cast_succ]
    refine Prod.ext ?_ ?_
    · exact add_assoc _ _ _
    · dsimp only
      ring

/-- The differences of the letters of two words. -/
def differences (l l' : List R) : List R := (l.zip l').map fun p => p.1 - p.2

theorem sum_differences {l l' : List R} (h : l.length = l'.length) :
    (differences l l').sum = l.sum - l'.sum := by
  induction l generalizing l' with
  | nil =>
    rw [List.eq_nil_of_length_eq_zero h.symm]
    exact (sub_self _).symm
  | cons x l ih =>
    obtain _ | ⟨y, l'⟩ := l'
    · cases h
    · have hrest := ih (Nat.succ_inj.1 h)
      rw [differences] at hrest
      rw [differences, List.zip_cons_cons, List.map_cons, List.sum_cons, List.sum_cons,
        List.sum_cons, hrest]
      ring

theorem length_differences {l l' : List R} (h : l.length = l'.length) :
    (differences l l').length = l.length := by
  rw [differences, List.length_map, List.length_zip, h, Nat.min_self]

theorem weighted_differences {l l' : List R} (h : l.length = l'.length) :
    weighted (differences l l') = weighted l - weighted l' := by
  induction l generalizing l' with
  | nil =>
    rw [List.eq_nil_of_length_eq_zero h.symm]
    exact (sub_self _).symm
  | cons x l ih =>
    obtain _ | ⟨y, l'⟩ := l'
    · cases h
    · have hl := Nat.succ_inj.1 h
      have hrest := ih hl
      have hlen := length_differences hl
      rw [differences] at hrest hlen
      rw [differences, List.zip_cons_cons, List.map_cons, weighted, weighted, weighted, hrest, hlen,
        ← hl]
      ring

variable [DecidableEq R]

theorem distance_eq_countP (l l' : List R) :
    distance l l' = (differences l l').countP fun d => d ≠ 0 := by
  rw [distance, differences, List.countP_map]
  exact List.countP_congr fun p _ => by simp [sub_eq_zero]

/-- No letter but zeros. -/
theorem sums_of_zero {e : List R} (h : (e.countP fun d => d ≠ 0) = 0) :
    e.sum = 0 ∧ weighted e = 0 := by
  induction e with
  | nil => exact ⟨rfl, rfl⟩
  | cons d e ih =>
    rw [List.countP_cons, Nat.add_eq_zero_iff] at h
    have hd : d = 0 := by simpa using h.2
    obtain ⟨hs, hw⟩ := ih h.1
    rw [List.sum_cons, weighted, hs, hw, hd]
    exact ⟨add_zero _, by rw [mul_zero, add_zero]⟩

/-- One letter: the first sum is it, the second counts it once or more. -/
theorem sums_of_one {e : List R} (h : (e.countP fun d => d ≠ 0) = 1) :
    ∃ x : R, ∃ k : ℕ, x ≠ 0 ∧ 1 ≤ k ∧ k ≤ e.length ∧ e.sum = x ∧ weighted e = k * x := by
  induction e with
  | nil => cases h
  | cons d e ih =>
    rw [List.countP_cons] at h
    by_cases hd : d = 0
    · rw [if_neg (by simpa using hd), Nat.add_zero] at h
      obtain ⟨x, k, hx, hk, hle, hs, hw⟩ := ih h
      refine ⟨x, k, hx, hk, Nat.le_succ_of_le hle, ?_, ?_⟩
      · rw [List.sum_cons, hs, hd, zero_add]
      · rw [weighted, hw, hd, mul_zero, zero_add]
    · rw [if_pos (by simpa using hd)] at h
      obtain ⟨hs, hw⟩ := sums_of_zero (Nat.succ_inj.1 h)
      refine ⟨d, e.length + 1, hd, Nat.succ_pos _, le_rfl, ?_, ?_⟩
      · rw [List.sum_cons, hs, add_zero]
      · rw [weighted, hw, add_zero, Nat.cast_succ]

/-- Two letters, which the second sum counts differently often. -/
theorem sums_of_two {e : List R} (h : (e.countP fun d => d ≠ 0) = 2) :
    ∃ x y : R, ∃ j k : ℕ, x ≠ 0 ∧ j < k ∧ k ≤ e.length ∧ e.sum = x + y ∧
      weighted e = k * x + j * y := by
  induction e with
  | nil => cases h
  | cons d e ih =>
    rw [List.countP_cons] at h
    by_cases hd : d = 0
    · rw [if_neg (by simpa using hd), Nat.add_zero] at h
      obtain ⟨x, y, j, k, hx, hjk, hle, hs, hw⟩ := ih h
      refine ⟨x, y, j, k, hx, hjk, Nat.le_succ_of_le hle, ?_, ?_⟩
      · rw [List.sum_cons, hs, hd, zero_add]
      · rw [weighted, hw, hd, mul_zero, zero_add]
    · rw [if_pos (by simpa using hd)] at h
      obtain ⟨y, j, -, -, hj, hs, hw⟩ := sums_of_one (Nat.succ_inj.1 h)
      refine ⟨d, y, j, e.length + 1, hd, Nat.lt_succ_of_le hj, le_rfl, ?_, ?_⟩
      · rw [List.sum_cons, hs]
      · rw [weighted, hw, Nat.cast_succ]

end Difference

section Code

variable [CommRing R] [DecidableEq R] {l l' : List R}

theorem first_ne (a b : R) (hlen : l.length = l'.length) (h : distance l l' = 1) :
    (sums a b l).1 ≠ (sums a b l').1 := by
  rw [distance_eq_countP] at h
  obtain ⟨x, k, hx, -, -, hs, -⟩ := sums_of_one h
  rw [sum_differences hlen] at hs
  intro heq
  rw [sums_eq, sums_eq] at heq
  refine hx ?_
  rw [← hs, sub_eq_zero]
  exact add_left_cancel heq

variable [NoZeroDivisors R]

theorem second_ne (a b : R) (hlen : l.length = l'.length)
    (hcast : ∀ n : ℕ, 1 ≤ n → n ≤ l.length → (n : R) ≠ 0) (h : distance l l' = 1) :
    (sums a b l).2 ≠ (sums a b l').2 := by
  rw [distance_eq_countP] at h
  obtain ⟨x, k, hx, hk, hle, -, hw⟩ := sums_of_one h
  rw [weighted_differences hlen] at hw
  rw [length_differences hlen] at hle
  intro heq
  rw [sums_eq, sums_eq, hlen] at heq
  refine mul_ne_zero (hcast k hk hle) hx ?_
  rw [← hw, sub_eq_zero]
  exact add_left_cancel heq

/-- Words that differ in one letter or in two do not have the same sums. -/
theorem sums_ne (a b : R) (hlen : l.length = l'.length)
    (hcast : ∀ n : ℕ, 1 ≤ n → n ≤ l.length → (n : R) ≠ 0)
    (h : 1 ≤ distance l l') (h' : distance l l' ≤ 2) : sums a b l ≠ sums a b l' := by
  intro heq
  obtain hone | htwo : distance l l' = 1 ∨ distance l l' = 2 := by omega
  · exact first_ne a b hlen hone (congrArg Prod.fst heq)
  · rw [distance_eq_countP] at htwo
    obtain ⟨x, y, j, k, hx, hjk, hle, hs, hw⟩ := sums_of_two htwo
    rw [sum_differences hlen] at hs
    rw [weighted_differences hlen] at hw
    rw [length_differences hlen] at hle
    rw [sums_eq, sums_eq, hlen, Prod.mk.injEq] at heq
    -- The letters change by `x` and by `-x`, which the second sum does not count equally often.
    have hxy : x + y = 0 := by rw [← hs, sub_eq_zero]; exact add_left_cancel heq.1
    have hkj : (k : R) * x + j * y = 0 := by rw [← hw, sub_eq_zero]; exact add_left_cancel heq.2
    refine mul_ne_zero (hcast (k - j) (by omega) (by omega)) hx ?_
    rw [Nat.cast_sub hjk.le]
    linear_combination hkj - j * hxy

end Code

end RunningSums
