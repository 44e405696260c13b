import Mathlib.Data.List.Basic
import Mathlib.Logic.Function.Basic

/-!
# Scattered writes

Values are written at keys, in order, into a map of which not all keys can be written to. If all of
them can (`scatter_isSome_iff`), each key holds the last value written to it, if there is one
(`scatter_cases`). Where no two values are written to one key, each key holds its value
(`scatter_apply`), and a map of truth values that was false holds the keys of the true ones
(`scatter_eq_true_iff`).
-/

namespace Scatter

variable {κ β : Type*} [DecidableEq κ]

/-- A write to a key that is not `ok` ends the run. -/
def scatter (ok : κ → Prop) [DecidablePred ok] (m : κ → β) (l : List (κ × β)) : Option (κ → β) :=
  l.foldlM (fun m p => if ok p.1 then some (Function.update m p.1 p.2) else none) m

variable {ok : κ → Prop} [DecidablePred ok] {m m' : κ → β} {l : List (κ × β)}

theorem scatter_cons (p : κ × β) (l : List (κ × β)) : scatter ok m (p :: l) =
    if ok p.1 then scatter ok (Function.update m p.1 p.2) l else none := by
  rw [scatter, List.foldlM_cons]
  split_ifs <;> rfl

theorem scatter_isSome_iff : (scatter ok m l).isSome = true ↔ ∀ p ∈ l, ok p.1 := by
  induction l generalizing m with
  | nil => exact ⟨fun _ _ hp => absurd hp List.not_mem_nil, fun _ => rfl⟩
  | cons p l ih =>
    rw [scatter_cons, List.forall_mem_cons]
    split_ifs with hp
    · rw [ih, and_iff_right hp]
    · exact ⟨fun h => absurd h Bool.false_ne_true, fun h => absurd h.1 hp⟩

/-- A key holds what it held, or a value written to it. -/
theorem scatter_cases (h : scatter ok m l = some m') (k : κ) :
    (m' k = m k ∧ ∀ p ∈ l, p.1 ≠ k) ∨ ∃ p ∈ l, p.1 = k ∧ m' k = p.2 := by
  induction l generalizing m with
  | nil => exact .inl ⟨congrFun (Option.some.inj h).symm k, fun _ hp => absurd hp List.not_mem_nil⟩
  | cons p l ih =>
    rw [scatter_cons] at h
    split_ifs at h with hp
    rcases ih h with ⟨hk, hl⟩ | ⟨q, hq, hqk, hv⟩
    · by_cases hpk : p.1 = k
      · refine .inr ⟨p, List.mem_cons_self, hpk, ?_⟩
        rw [hk, ← hpk, Function.update_self]
      · refine .inl ⟨?_, List.forall_mem_cons.2 ⟨hpk, hl⟩⟩
        rw [hk, Function.update_of_ne (Ne.symm hpk)]
    · exact .inr ⟨q, List.mem_cons_of_mem _ hq, hqk, hv⟩

theorem scatter_apply (h : scatter ok m l = some m')
    (hl : ∀ p ∈ l, ∀ q ∈ l, p.1 = q.1 → p.2 = q.2) {p : κ × β} (hp : p ∈ l) : m' p.1 = p.2 := by
  rcases scatter_cases h p.1 with ⟨-, hnone⟩ | ⟨q, hq, hqp, hv⟩
  · exact absurd rfl (hnone p hp)
  · rw [hv, hl q hq p hp hqp]

theorem scatter_eq_true_iff {m m' : κ → Bool} {l : List (κ × Bool)} (h : scatter ok m l = some m')
    (hl : ∀ p ∈ l, ∀ q ∈ l, p.1 = q.1 → p.2 = q.2) (hm : ∀ k, m k = false) (k : κ) :
    m' k = true ↔ (k, true) ∈ l := by
  constructor
  · intro hk
    rcases scatter_cases h k with ⟨hsame, -⟩ | ⟨⟨k', v⟩, hp, rfl, hv⟩
    · rw [hsame, hm] at hk
      exact absurd hk Bool.false_ne_true
    · rw [← hk, hv]
      exact hp
  · exact fun hk => scatter_apply h hl hk

end Scatter
