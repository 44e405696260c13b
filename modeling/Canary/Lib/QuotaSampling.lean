import Mathlib.Data.Finset.Card
import Mathlib.Algebra.BigOperators.Group.Finset.Piecewise
import Mathlib.Logic.Function.Basic
import Mathlib.Data.Nat.Notation

/-!
# Sampling with quotas

Elements of a pool are drawn in any order and as often as they come; some are chosen. An element
may have a kind, and there is room for so many of each kind. What was drawn once is spent: it is
not looked at again, whether it was chosen or refused (`Draw`).

* An element whose kind has room is always chosen, so that of a kind with room left exactly those
  are spent that were chosen (`Tracks.kept`). Hence if there are enough elements of every kind, then
  at any time there is one left of a kind that has room (`Tracks.exists_room`).
* If there are too few of a kind then room is left for it for ever (`Tracks.room_ne_zero`).
-/

namespace Sampling

universe u v

variable {α : Type u} {ι : Type v}

/-- What is chosen, what is spent, and the room that is left for each kind. -/
structure Sample (α : Type u) (ι : Type v) where
  chosen : List α
  spent : List α
  room : ι → ℕ

/-- The room with one place of a kind taken. -/
def takeRoom [DecidableEq ι] (room : ι → ℕ) (i : ι) : ι → ℕ := Function.update room i (room i - 1)

/-- What drawing `a` may do. An element of a kind without room may be chosen or refused. -/
inductive Draw [DecidableEq ι] (kind : α → Option ι) (s : Sample α ι) (a : α) : Sample α ι → Prop
  | again : a ∈ s.spent → Draw kind s a s
  | refuse : a ∉ s.spent → (∀ i, kind a = some i → s.room i = 0) →
      Draw kind s a { s with spent := s.spent ++ [a] }
  | take {i : ι} : a ∉ s.spent → kind a = some i → s.room i ≠ 0 →
      Draw kind s a ⟨s.chosen ++ [a], s.spent ++ [a], takeRoom s.room i⟩
  | exceed {i : ι} : a ∉ s.spent → kind a = some i → s.room i = 0 →
      Draw kind s a ⟨s.chosen ++ [a], s.spent ++ [a], s.room⟩

variable [DecidableEq ι] {kind : α → Option ι} {s₀ s s' : Sample α ι} {a : α} {i j : ι}

theorem takeRoom_self (room : ι → ℕ) : takeRoom room i i = room i - 1 :=
  Function.update_self i _ room

theorem takeRoom_of_ne {room : ι → ℕ} (hne : j ≠ i) : takeRoom room i j = room j :=
  Function.update_of_ne hne _ room

theorem Draw.length_le (h : Draw kind s a s') : s'.chosen.length ≤ s.chosen.length + 1 := by
  cases h <;> simp

theorem Draw.mem_spent (h : Draw kind s a s') : a ∈ s'.spent := by
  cases h with
  | again ha => exact ha
  | _ => exact List.mem_append_right _ List.mem_cons_self

theorem Draw.spent_subset (h : Draw kind s a s') : s.spent ⊆ s'.spent := by
  cases h with
  | again _ => exact List.Subset.refl _
  | _ => exact List.subset_append_left _ _

/-! ## The size of a sample -/

section Size

variable [Fintype ι]

/-- What is chosen, with the room that is left. -/
def Sample.size (s : Sample α ι) : ℕ := s.chosen.length + ∑ i, s.room i

theorem sum_takeRoom {room : ι → ℕ} (hroom : room i ≠ 0) :
    ∑ j, takeRoom room i j + 1 = ∑ j, room j := by
  rw [takeRoom, Finset.sum_update_of_mem (Finset.mem_univ i),
    ← Finset.add_sum_erase _ _ (Finset.mem_univ i), Finset.sdiff_singleton_eq_erase]
  omega

theorem size_take {chosen spent spent' : List α} {room : ι → ℕ} (hroom : room i ≠ 0) :
    Sample.size ⟨chosen ++ [a], spent', takeRoom room i⟩ = Sample.size ⟨chosen, spent, room⟩ := by
  have hsum := sum_takeRoom hroom
  simp only [Sample.size, List.length_append, List.length_singleton]
  omega

theorem Draw.size_le (h : Draw kind s a s') : s.size ≤ s'.size := by
  cases h with
  | again _ => exact le_rfl
  | refuse _ _ => exact le_rfl
  | take _ _ hroom => exact (size_take hroom).ge
  | exceed _ _ _ =>
    simp only [Sample.size, List.length_append, List.length_singleton]
    omega

end Size

/-! ## What draws keep -/

variable [DecidableEq α] {pool : Finset α} {spent : List α}

variable (kind pool) in
/-- The elements of a kind that are not spent. -/
def available (spent : List α) (i : ι) : Finset α :=
  {a ∈ pool | a ∉ spent ∧ kind a = some i}

theorem mem_available :
    a ∈ available kind pool spent i ↔ a ∈ pool ∧ a ∉ spent ∧ kind a = some i := by
  rw [available, Finset.mem_filter]

theorem available_concat :
    available kind pool (spent ++ [a]) i = (available kind pool spent i).erase a := by
  ext b
  rw [Finset.mem_erase, mem_available, mem_available, List.mem_append, List.mem_singleton]
  tauto

/-- An element of another kind, or of none, leaves those of a kind. -/
theorem available_concat_of_ne (hkind : kind a ≠ some i) :
    available kind pool (spent ++ [a]) i = available kind pool spent i := by
  rw [available_concat, Finset.erase_eq_of_notMem]
  exact fun h => hkind (mem_available.1 h).2.2

theorem card_available_concat (hpool : a ∈ pool) (ha : a ∉ spent) (hkind : kind a = some i) :
    (available kind pool (spent ++ [a]) i).card + 1 = (available kind pool spent i).card := by
  rw [available_concat]
  exact Finset.card_erase_add_one (mem_available.2 ⟨hpool, ha, hkind⟩)

variable (kind a i pool spent) in
theorem card_available_concat_le :
    (available kind pool (spent ++ [a]) i).card ≤ (available kind pool spent i).card := by
  rw [available_concat]
  exact Finset.card_erase_le

variable (kind pool) in
/-- How a sample goes on from the first one. -/
structure Tracks (s₀ s : Sample α ι) : Prop where
  nodup : s.chosen.Nodup
  spent_of_chosen : ∀ a ∈ s.chosen, a ∈ s.spent
  fresh : ∀ a ∈ s.chosen, a ∉ s₀.spent
  spent_subset : s₀.spent ⊆ s.spent
  /-- No more of a kind are left than it had, without those that took its room. -/
  used : ∀ i, (available kind pool s.spent i).card + s₀.room i ≤
    (available kind pool s₀.spent i).card + s.room i
  /-- As long as there is room for a kind, the others are left. -/
  kept : ∀ i, s.room i ≠ 0 → (available kind pool s₀.spent i).card + s.room i =
    (available kind pool s.spent i).card + s₀.room i

theorem tracks_refl (h : s.chosen = []) : Tracks kind pool s s where
  nodup := h ▸ List.nodup_nil
  spent_of_chosen := by simp [h]
  fresh := by simp [h]
  spent_subset := List.Subset.refl _
  used _ := le_rfl
  kept _ _ := rfl

namespace Tracks

/-- The list with an element that was not spent. -/
theorem choose (h : Tracks kind pool s₀ s) (ha : a ∉ s.spent) :
    (s.chosen ++ [a]).Nodup ∧ (∀ b ∈ s.chosen ++ [a], b ∈ s.spent ++ [a]) ∧
      ∀ b ∈ s.chosen ++ [a], b ∉ s₀.spent := by
  refine ⟨?_, fun b hb => ?_, fun b hb => ?_⟩
  · rw [List.nodup_append]
    refine ⟨h.nodup, List.nodup_singleton a, fun b hb c hc hbc => ha ?_⟩
    rw [← List.mem_singleton.1 hc, ← hbc]
    exact h.spent_of_chosen b hb
  · exact List.mem_append.2 ((List.mem_append.1 hb).imp_left (h.spent_of_chosen b))
  · rcases List.mem_append.1 hb with hb | hb
    · exact h.fresh b hb
    · rw [List.mem_singleton.1 hb]
      exact fun hspent => ha (h.spent_subset hspent)

/-- Spending an element of a kind that has no room. -/
theorem spend (h : Tracks kind pool s₀ s) (hfull : ∀ i, kind a = some i → s.room i = 0) :
    (∀ i, (available kind pool (s.spent ++ [a]) i).card + s₀.room i ≤
      (available kind pool s₀.spent i).card + s.room i) ∧
    ∀ i, s.room i ≠ 0 → (available kind pool s₀.spent i).card + s.room i =
      (available kind pool (s.spent ++ [a]) i).card + s₀.room i := by
  refine ⟨fun i => ?_, fun i hi => ?_⟩
  · have hle := h.used i
    have hcard := card_available_concat_le kind a i pool s.spent
    omega
  · rw [available_concat_of_ne fun hkind => hi (hfull i hkind)]
    exact h.kept i hi

theorem draw (h : Tracks kind pool s₀ s) (hpool : a ∈ pool) (hdraw : Draw kind s a s') :
    Tracks kind pool s₀ s' := by
  have hsubset : s₀.spent ⊆ s.spent ++ [a] :=
    List.Subset.trans h.spent_subset (List.subset_append_left _ _)
  cases hdraw with
  | again _ => exact h
  | refuse ha hfull =>
    obtain ⟨hused, hkept⟩ := h.spend hfull
    exact ⟨h.nodup, fun b hb => List.mem_append_left _ (h.spent_of_chosen b hb), h.fresh,
      hsubset, hused, hkept⟩
  | @exceed i ha hkind hroom =>
    obtain ⟨hnodup, hspent, hfresh⟩ := h.choose ha
    obtain ⟨hused, hkept⟩ := h.spend fun j hj => Option.some.inj (hkind.symm.trans hj) ▸ hroom
    exact ⟨hnodup, hspent, hfresh, hsubset, hused, hkept⟩
  | @take i ha hkind hroom =>
    obtain ⟨hnodup, hspent, hfresh⟩ := h.choose ha
    have hcard := card_available_concat hpool ha hkind
    refine ⟨hnodup, hspent, hfresh, hsubset,
      fun j => ?_, fun j hj => ?_⟩
    · change (available kind pool (s.spent ++ [a]) j).card + _ ≤ _ + takeRoom s.room i j
      rcases eq_or_ne j i with rfl | hne
      · have hused := h.used j
        rw [takeRoom_self]
        omega
      · rw [takeRoom_of_ne hne, available_concat_of_ne]
        · exact h.used j
        · exact fun hj => hne (Option.some.inj (hj.symm.trans hkind))
    · change _ + takeRoom s.room i j = (available kind pool (s.spent ++ [a]) j).card + _
      rcases eq_or_ne j i with rfl | hne
      · have hkept := h.kept j hroom
        rw [takeRoom_self]
        omega
      · have hjroom : takeRoom s.room i j ≠ 0 := hj
        rw [takeRoom_of_ne hne] at hjroom
        rw [takeRoom_of_ne hne, available_concat_of_ne]
        · exact h.kept j hjroom
        · exact fun hj => hne (Option.some.inj (hj.symm.trans hkind))

/-- With enough elements of a kind, one is left as long as there is room. -/
theorem exists_room (h : Tracks kind pool s₀ s) (hroom : s.room i ≠ 0)
    (henough : s₀.room i ≤ (available kind pool s₀.spent i).card) :
    ∃ a ∈ pool, a ∉ s.spent ∧ kind a = some i := by
  have hkept := h.kept i hroom
  have hpos : 0 < (available kind pool s.spent i).card := by omega
  obtain ⟨a, ha⟩ := Finset.card_pos.1 hpos
  exact ⟨a, mem_available.1 ha⟩

/-- With too few elements of a kind, there is always room. -/
theorem room_ne_zero (h : Tracks kind pool s₀ s)
    (hfew : (available kind pool s₀.spent i).card < s₀.room i) : s.room i ≠ 0 := by
  have hused := h.used i
  omega

end Tracks

end Sampling
