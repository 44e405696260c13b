import Canary.Lib.SwapRemove
import Mathlib.Data.List.Perm.Basic
import Mathlib.Logic.Function.Basic
import Mathlib.Data.List.Nodup

/-!
# Buckets

Elements kept in lists, one for each key. The lists are *filed* by the key of the elements, if
each element is in the list of its key, once, and in no other (`Filed`). An element is added at
the end of its list, and taken out of it with the last one put in its place.

It stays so when an element is filed (`Filed.add`), and when one is taken out (`Filed.remove`,
which also tells that the element is found).
-/

namespace Buckets

variable {α κ : Type*}

/-- Take out the first element of this kind, if there is one. -/
def swapErase [DecidableEq α] (l : List α) (a : α) : Option (List α) :=
  if h : l.idxOf a < l.length then some (SwapRemove.swapRemove l (l.idxOf a) h) else none

theorem swapErase_perm [DecidableEq α] {l : List α} {a : α} (ha : a ∈ l) :
    ∃ l', swapErase l a = some l' ∧ (a :: l').Perm l := by
  have h : l.idxOf a < l.length := List.idxOf_lt_length_iff.2 ha
  refine ⟨_, dif_pos h, ?_⟩
  have hperm := SwapRemove.swapRemove_perm h
  rwa [List.getElem_idxOf h] at hperm

/-- Each element is in the list of its key, once, and nowhere else. -/
structure Filed (bucket : κ → List α) (key : α → Option κ) : Prop where
  nodup : ∀ k, (bucket k).Nodup
  mem_iff : ∀ k a, a ∈ bucket k ↔ key a = some k

variable {bucket : κ → List α} {key : α → Option κ} {a : α} {k : κ}

theorem filed_nil : Filed (fun _ : κ => ([] : List α)) fun _ => none where
  nodup _ := List.nodup_nil
  mem_iff _ _ := ⟨fun h => absurd h List.not_mem_nil, fun h => absurd h.symm (Option.some_ne_none _)⟩

/-- The lists may be filed by any key that says the same. -/
theorem Filed.congr (h : Filed bucket key) {key' : α → Option κ} (heq : ∀ a, key' a = key a) :
    Filed bucket key' where
  nodup := h.nodup
  mem_iff k a := by rw [heq, h.mem_iff]

variable [DecidableEq α] [DecidableEq κ]

/-- An element that has no key is filed. -/
theorem Filed.add (h : Filed bucket key) (ha : key a = none) (k : κ) :
    Filed (Function.update bucket k (bucket k ++ [a])) (Function.update key a (some k)) where
  nodup k' := by
    have hnotMem : a ∉ bucket k := fun hmem =>
      Option.some_ne_none k (((h.mem_iff k a).1 hmem).symm.trans ha)
    by_cases hk : k' = k
    · rw [hk, Function.update_self]
      exact (List.nodup_middle.2 (List.nodup_cons.2 ⟨by rwa [List.append_nil],
        by rw [List.append_nil]; exact h.nodup k⟩))
    · rw [Function.update_of_ne hk]
      exact h.nodup k'
  mem_iff k' b := by
    by_cases hb : b = a
    · subst hb
      rw [Function.update_self, Option.some_inj]
      by_cases hk : k' = k
      · subst hk
        rw [Function.update_self]
        exact ⟨fun _ => rfl, fun _ => List.mem_append_right _ (List.mem_singleton_self _)⟩
      · rw [Function.update_of_ne hk, h.mem_iff, ha]
        exact ⟨fun hne => absurd hne.symm (Option.some_ne_none _), fun heq => absurd heq.symm hk⟩
    · rw [Function.update_of_ne hb, ← h.mem_iff]
      by_cases hk : k' = k
      · subst hk
        rw [Function.update_self, List.mem_append, List.mem_singleton]
        exact or_iff_left hb
      · rw [Function.update_of_ne hk]

/-- An element is found in the list of its key, and taken out. -/
theorem Filed.remove (h : Filed bucket key) (ha : key a = some k) :
    ∃ l', swapErase (bucket k) a = some l' ∧
      Filed (Function.update bucket k l') (Function.update key a none) := by
  obtain ⟨l', hl', hperm⟩ := swapErase_perm ((h.mem_iff k a).2 ha)
  obtain ⟨hnotMem, hnodup⟩ := List.nodup_cons.1 (hperm.nodup_iff.2 (h.nodup k))
  refine ⟨l', hl', fun k' => ?_, fun k' b => ?_⟩
  · by_cases hk : k' = k
    · rwa [hk, Function.update_self]
    · rw [Function.update_of_ne hk]
      exact h.nodup k'
  · by_cases hb : b = a
    · subst hb
      rw [Function.update_self]
      refine ⟨fun hmem => ?_, fun heq => absurd heq.symm (Option.some_ne_none _)⟩
      by_cases hk : k' = k
      · rw [hk, Function.update_self] at hmem
        exact absurd hmem hnotMem
      · rw [Function.update_of_ne hk, h.mem_iff, ha] at hmem
        exact absurd (Option.some.inj hmem).symm hk
    · rw [Function.update_of_ne hb, ← h.mem_iff]
      by_cases hk : k' = k
      · subst hk
        rw [Function.update_self, ← hperm.mem_iff, List.mem_cons, or_iff_right hb]
      · rw [Function.update_of_ne hk]

end Buckets
