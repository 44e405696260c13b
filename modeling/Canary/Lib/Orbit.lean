import Mathlib.Computability.StateTransition
import Mathlib.Data.Fintype.Pigeonhole

/-!
# Orbits of a partial function

From a point, a partial function is followed as far as it leads: to a point where it is not
defined (`Ends`), back to the point it started from (`Returns`), or into a circle that this point
is not on (`Caught`). Among finitely many points there is nothing else
(`ends_or_returns_or_caught`), and only one of the three happens.

A search that looks only for the point it started from (`search`) tells the first two apart
(`search_eq_true_iff`, `search_eq_false_iff`), and never ends if it is caught.
-/

namespace Orbit

open Relation StateTransition

variable {α : Type*} {f : α → Option α} {a b c : α}

variable (f a) in
/-- From `a`, the function leads to a point where it is not defined. -/
def Ends : Prop := ∃ b, Reaches f a b ∧ f b = none

variable (f a) in
/-- From `a`, the function leads back to `a`. -/
def Returns : Prop := Reaches₁ f a a

variable (f a) in
/-- From `a`, the function leads into a circle that `a` is not on. -/
def Caught : Prop := ¬ Returns f a ∧ ∃ b, Reaches f a b ∧ Returns f b

theorem reaches_of_step (h : f a = some b) (hbc : Reaches f b c) : Reaches f a c :=
  ReflTransGen.head h hbc

/-- One step, and what follows. -/
theorem reaches₁_iff (h : f a = some b) : Reaches₁ f a c ↔ Reaches f b c := by
  refine ⟨fun hc => reaches₁_fwd hc h, fun hc => ?_⟩
  exact TransGen.head' h hc

theorem not_reaches₁ (h : f a = none) : ¬ Reaches₁ f a c := by
  intro hc
  obtain ⟨b, hb, -⟩ := TransGen.head'_iff.1 hc
  cases h.symm.trans hb

theorem ends_of_none (h : f a = none) : Ends f a := ⟨a, .refl, h⟩

theorem ends_iff (h : f a = some b) : Ends f a ↔ Ends f b := by
  constructor
  · rintro ⟨c, hac, hc⟩
    refine ⟨c, ?_, hc⟩
    rcases ReflTransGen.cases_head hac with rfl | ⟨b', hb', hbc⟩
    · cases hc.symm.trans h
    · exact Option.mem_unique hb' h ▸ hbc
  · rintro ⟨c, hbc, hc⟩
    exact ⟨c, reaches_of_step h hbc, hc⟩

theorem Ends.of_reaches (h : Ends f a) (hab : Reaches f a b) : Ends f b := by
  induction hab with
  | refl => exact h
  | tail _ hstep ih => exact (ends_iff hstep).1 ih

/-- On a circle, every point is left again. -/
theorem Ends.not_returns (h : Ends f a) : ¬ Returns f a := by
  obtain ⟨b, hab, hb⟩ := h
  intro hcircle
  -- The circle leads from `a` to the end, or the end lies before.
  induction hab using ReflTransGen.head_induction_on with
  | refl => exact not_reaches₁ hb hcircle
  | head hstep _ ih => exact ih (TransGen.tail' ((reaches₁_iff hstep).1 hcircle) hstep)

/-- A function that is defined at fewer points ends too. -/
theorem Ends.mono {g : α → Option α} (h : Ends f a) (hg : ∀ b c, g b = some c → f b = some c) :
    Ends g a := by
  obtain ⟨b, hab, hb⟩ := h
  induction hab using ReflTransGen.head_induction_on with
  | refl =>
    refine ends_of_none (Option.eq_none_iff_forall_ne_some.2 fun c hc => ?_)
    cases hb.symm.trans (hg b c hc)
  | @head a d hstep _ ih =>
    rcases ha : g a with _ | c
    · exact ends_of_none ha
    · rw [ends_iff ha]
      exact Option.mem_unique (hg a c ha) hstep ▸ ih

theorem Ends.not_caught (h : Ends f a) : ¬ Caught f a := by
  rintro ⟨-, b, hab, hb⟩
  exact (h.of_reaches hab).not_returns hb

/-- Among finitely many points, a path that does not end comes to a point twice. -/
theorem exists_returns [Finite α] (h : ¬ Ends f a) : ∃ b, Reaches f a b ∧ Returns f b := by
  -- Without an end, there is a path of every length.
  have hstep {b : α} (hb : Reaches f a b) : f b = some ((f b).getD b) := by
    rcases hc : f b with _ | c
    · exact absurd ⟨b, hb, hc⟩ h
    · rfl
  let path (n : ℕ) : α := (fun b => (f b).getD b)^[n] a
  have hpath (n : ℕ) : path (n + 1) = (f (path n)).getD (path n) :=
    Function.iterate_succ_apply' _ _ _
  have hreach (n : ℕ) : Reaches f a (path n) := by
    induction n with
    | zero => exact .refl
    | succ n ih => exact hpath n ▸ ih.tail (hstep ih)
  have hnext (n : ℕ) : f (path n) = some (path (n + 1)) := hpath n ▸ hstep (hreach n)
  have hgo (n k : ℕ) : Reaches f (path n) (path (n + k)) := by
    induction k with
    | zero => exact .refl
    | succ k ih => exact ih.tail (hnext (n + k))
  obtain ⟨m, n, hne, heq⟩ := Finite.exists_ne_map_eq_of_infinite path
  wlog hlt : m < n generalizing m n
  · exact this n m hne.symm heq.symm (lt_of_le_of_ne (Nat.le_of_not_lt hlt) hne.symm)
  refine ⟨path m, hreach m, ?_⟩
  have hround := hgo (m + 1) (n - (m + 1))
  rw [Nat.add_sub_of_le hlt, ← heq] at hround
  exact (reaches₁_iff (hnext m)).2 hround

theorem ends_or_returns_or_caught [Finite α] : Ends f a ∨ Returns f a ∨ Caught f a := by
  by_cases hend : Ends f a
  · exact .inl hend
  · by_cases hreturn : Returns f a
    · exact .inr (.inl hreturn)
    · exact .inr (.inr ⟨hreturn, exists_returns hend⟩)

/-! ## Looking for the way back -/

section Search

variable [DecidableEq α] {n m : ℕ} {found : Bool}

variable (f a) in
/-- Does the function lead from `b` to `a`? The search stops at `a` or at an end. -/
def search : ℕ → α → Option Bool
  | 0, _ => none
  | n + 1, b =>
    match f b with
    | none => some false
    | some c => if a = c then some true else search n c

theorem search_none (h : f b = none) : search f a (n + 1) b = some false := by
  rw [search, h]

theorem search_some (h : f b = some c) :
    search f a (n + 1) b = if a = c then some true else search f a n c := by
  rw [search, h]

/-- With more steps, the search says the same. -/
theorem search_mono (hnm : n ≤ m) (h : search f a n b = some found) :
    search f a m b = some found := by
  induction n generalizing m b with
  | zero => cases h
  | succ n ih =>
    obtain ⟨m, rfl⟩ := Nat.exists_eq_add_of_le' (Nat.lt_of_lt_of_le n.succ_pos hnm)
    rcases hb : f b with _ | c
    · rwa [search_none hb] at h ⊢
    · rw [search_some hb] at h ⊢
      split at h
      · rwa [if_pos ‹_›]
      · rw [if_neg ‹_›]
        exact ih (Nat.le_of_succ_le_succ hnm) h

theorem search_sound (h : search f a n b = some found) :
    if found then Reaches₁ f b a else Ends f b ∧ ¬ Reaches₁ f b a := by
  induction n generalizing b with
  | zero => cases h
  | succ n ih =>
    rcases hb : f b with _ | c
    · rw [search_none hb] at h
      obtain rfl := Option.some.inj h
      exact ⟨ends_of_none hb, not_reaches₁ hb⟩
    · rw [search_some hb] at h
      split at h
      case isTrue heq =>
        obtain rfl := Option.some.inj h
        exact heq ▸ TransGen.single hb
      case isFalse hne =>
        -- The way from `b` goes on from `c`, which is not yet `a`.
        have hiff : Reaches₁ f b a ↔ Reaches₁ f c a := by
          rw [reaches₁_iff hb]
          refine ⟨fun hca => ?_, TransGen.to_reflTransGen⟩
          exact (reflTransGen_iff_eq_or_transGen.1 hca).resolve_left hne
        rw [hiff, ends_iff hb]
        exact ih h

theorem exists_search_of_ends (h : Ends f b) : ∃ n found, search f a n b = some found := by
  obtain ⟨c, hbc, hc⟩ := h
  induction hbc using ReflTransGen.head_induction_on with
  | refl => exact ⟨1, false, search_none hc⟩
  | @head b d hstep _ ih =>
    obtain ⟨n, found, hn⟩ := ih
    by_cases had : a = d
    · exact ⟨n + 1, true, by rw [search_some hstep, if_pos had]⟩
    · exact ⟨n + 1, found, by rw [search_some hstep, if_neg had, hn]⟩

theorem search_eq_true_iff : (∃ n, search f a n b = some true) ↔ Reaches₁ f b a := by
  refine ⟨fun ⟨_, hn⟩ => search_sound hn, fun h => ?_⟩
  induction h using TransGen.head_induction_on with
  | single hstep => exact ⟨1, by rw [search_some hstep, if_pos rfl]⟩
  | @head b d hstep _ ih =>
    obtain ⟨n, hn⟩ := ih
    by_cases had : a = d
    · exact ⟨n + 1, by rw [search_some hstep, if_pos had]⟩
    · exact ⟨n + 1, by rw [search_some hstep, if_neg had, hn]⟩

theorem search_eq_false_iff :
    (∃ n, search f a n b = some false) ↔ Ends f b ∧ ¬ Reaches₁ f b a := by
  refine ⟨fun ⟨_, hn⟩ => search_sound hn, fun ⟨hend, hnot⟩ => ?_⟩
  obtain ⟨n, found, hn⟩ := exists_search_of_ends (a := a) hend
  cases found with
  | false => exact ⟨n, hn⟩
  | true => exact absurd (search_sound hn) hnot

end Search

end Orbit
