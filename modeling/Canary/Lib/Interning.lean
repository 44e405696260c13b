import Mathlib.Data.List.AList

/-!
# Interning

Equal values can share one copy: a table keeps the first value seen under each key,
and every later value with that key is replaced by it. If the key is not the value
itself but computed from it, the replacement may be a different value.

Interning a sequence of values, starting from nothing, changes none of them exactly
if no two different values of the sequence have the same key (`internAll_eq_self_iff`).
-/

namespace Interning

variable {K α : Type*} [DecidableEq K]

/-- The values kept so far. -/
abbrev Table (K α : Type*) := AList fun _ : K => α

/-- The value kept under a key, the given one if there is none yet. -/
def tryEmplace (t : Table K α) (k : K) (x : α) : α × Table K α :=
  match t.lookup k with
  | some y => (y, t)
  | none => (x, t.insert k x)

/-- The values kept in place of those of a sequence. -/
def internAll (key : α → K) : Table K α → List α → List α
  | _, [] => []
  | t, x :: l =>
    let r := tryEmplace t (key x) x
    r.1 :: internAll key r.2 l

/-- Every value is kept under its own key. -/
def Filed (key : α → K) (t : Table K α) : Prop := ∀ k y, t.lookup k = some y → key y = k

theorem tryEmplace_of_lookup {t : Table K α} {k : K} {y : α} (h : t.lookup k = some y) (x : α) :
    tryEmplace t k x = (y, t) := by
  rw [tryEmplace, h]

theorem tryEmplace_of_not_mem {t : Table K α} {k : K} (h : t.lookup k = none) (x : α) :
    tryEmplace t k x = (x, t.insert k x) := by
  rw [tryEmplace, h]

theorem Filed.insert {key : α → K} {t : Table K α} (h : Filed key t) (x : α) :
    Filed key (t.insert (key x) x) := by
  intro k y hy
  by_cases hk : k = key x
  · subst hk
    rw [AList.lookup_insert] at hy
    rw [Option.some.inj hy]
  · rw [AList.lookup_insert_ne hk] at hy
    exact h k y hy

/-- From a table on: no value of the sequence may differ from the value kept under its
    key, or from another value of the sequence with the same key. -/
theorem internAll_eq_iff {key : α → K} {t : Table K α} (ht : Filed key t) (l : List α) :
    internAll key t l = l ↔
      (∀ x ∈ l, ∀ y, t.lookup (key x) = some y → y = x) ∧
        ∀ x ∈ l, ∀ y ∈ l, key x = key y → x = y := by
  induction l generalizing t with
  | nil => simp [internAll]
  | cons x l ih =>
    rw [internAll, List.cons.injEq]
    cases hx : t.lookup (key x) with
    | some y =>
      -- The table stays as it is: what holds of `y` there holds of `x`.
      rw [tryEmplace_of_lookup hx, ih ht]
      constructor
      · rintro ⟨rfl, hkept, hpairs⟩
        refine ⟨List.forall_mem_cons.2 ⟨fun z hz => ?_, hkept⟩, ?_⟩
        · exact Option.some.inj (hz.symm.trans hx)
        · refine List.forall_mem_cons.2 ⟨List.forall_mem_cons.2 ⟨fun _ => rfl, ?_⟩, ?_⟩
          · exact fun z hz hxz => hkept z hz y (hxz ▸ hx)
          · exact fun z hz => List.forall_mem_cons.2
              ⟨fun hzx => (hkept z hz y (hzx ▸ hx)).symm, hpairs z hz⟩
      · rintro ⟨hkept, hpairs⟩
        exact ⟨hkept x List.mem_cons_self y hx,
          fun z hz => hkept z (List.mem_cons_of_mem x hz),
          fun z hz w hw => hpairs z (List.mem_cons_of_mem x hz) w (List.mem_cons_of_mem x hw)⟩
    | none =>
      rw [tryEmplace_of_not_mem hx, ih (ht.insert x)]
      constructor
      · rintro ⟨-, hkept, hpairs⟩
        have hself : ∀ z ∈ l, key z = key x → x = z := fun z hz hzx =>
          hkept z hz x (by rw [hzx, AList.lookup_insert])
        refine ⟨List.forall_mem_cons.2 ⟨fun z hz => ?_, fun z hz y hy => ?_⟩, ?_⟩
        · exact absurd (hx.symm.trans hz) (by simp)
        · refine hkept z hz y ?_
          rwa [AList.lookup_insert_ne]
          intro hzx
          exact absurd (hx.symm.trans (hzx ▸ hy)) (by simp)
        · refine List.forall_mem_cons.2 ⟨List.forall_mem_cons.2 ⟨fun _ => rfl, ?_⟩, ?_⟩
          · exact fun z hz hxz => hself z hz hxz.symm
          · exact fun z hz => List.forall_mem_cons.2
              ⟨fun hzx => (hself z hz hzx).symm, hpairs z hz⟩
      · rintro ⟨hkept, hpairs⟩
        refine ⟨rfl, fun z hz y hy => ?_,
          fun z hz w hw => hpairs z (List.mem_cons_of_mem x hz) w (List.mem_cons_of_mem x hw)⟩
        by_cases hzx : key z = key x
        · rw [hzx, AList.lookup_insert] at hy
          rw [← Option.some.inj hy]
          exact hpairs x List.mem_cons_self z (List.mem_cons_of_mem x hz) hzx.symm
        · rw [AList.lookup_insert_ne hzx] at hy
          exact hkept z (List.mem_cons_of_mem x hz) y hy

/-- Interning a sequence changes none of its values exactly if the key tells them apart. -/
theorem internAll_eq_self_iff (key : α → K) (l : List α) :
    internAll key ∅ l = l ↔ ∀ x ∈ l, ∀ y ∈ l, key x = key y → x = y := by
  rw [internAll_eq_iff (fun k y h => by simp at h)]
  exact and_iff_right fun x _ y h => by simp at h

end Interning
