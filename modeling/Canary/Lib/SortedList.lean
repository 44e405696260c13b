import Mathlib.Data.Finset.Sort
import Mathlib.Data.Multiset.Sort

/-!
# Sorted lists

The search for a place in a sorted list: the first element that is not less (`lowerBound`). A value
that is in the list is at that place, where it is erased (`eraseIdx_lowerBound`), and a value that is
not in the list is only told by comparing it (`binarySearch_iff`).

Of a sorted list, the repetitions are taken out by comparing neighbours (`unique`).
-/

namespace Canary.SortedList

universe u

variable {T : Type u} [LinearOrder T]

/-- The index of the first element that is not less, or the end. -/
def lowerBound (l : List T) (v : T) : ℕ := l.findIdx fun x => !(x < v)

/-- The element that is not less is not greater. -/
def binarySearch (l : List T) (v : T) : Bool :=
  match l[lowerBound l v]? with
  | some x => !(v < x)
  | none => false

/-- Of equal neighbours, the first one. -/
def unique : List T → List T
  | [] => []
  | x :: l =>
    match unique l with
    | [] => [x]
    | y :: l' => if x = y then y :: l' else x :: y :: l'

theorem lowerBound_cons (x : T) (l : List T) (v : T) :
    lowerBound (x :: l) v = if x < v then lowerBound l v + 1 else 0 := by
  rw [lowerBound, List.findIdx_cons, ← lowerBound]
  by_cases hx : x < v
  · rw [if_pos hx, decide_eq_true hx]
    rfl
  · rw [if_neg hx, decide_eq_false hx]
    rfl

/-- The end is found if and only if all elements are less. -/
theorem lowerBound_eq_length_iff (l : List T) (v : T) :
    lowerBound l v = l.length ↔ ∀ x ∈ l, x < v := by
  rw [lowerBound, List.findIdx_eq_length]
  refine forall₂_congr fun x _ => ?_
  simp

/-- A value of a sorted list is erased at its place. -/
theorem eraseIdx_lowerBound {l : List T} (hl : l.Pairwise (· ≤ ·)) {v : T} (hv : v ∈ l) :
    l.eraseIdx (lowerBound l v) = l.erase v := by
  induction l with
  | nil => exact absurd hv List.not_mem_nil
  | cons x l ih =>
    rw [List.pairwise_cons] at hl
    rw [lowerBound_cons]
    split_ifs with hx
    · have hv' : v ∈ l := (List.mem_cons.1 hv).resolve_left hx.ne'
      rw [List.eraseIdx_cons_succ, ih hl.2 hv', List.erase_cons_tail]
      simpa using hx.ne
    · -- The first element is not less, hence the value.
      have hxv : x = v := by
        rcases List.mem_cons.1 hv with he | hv'
        · exact he.symm
        · exact le_antisymm (hl.1 v hv') (not_lt.1 hx)
      rw [hxv, List.eraseIdx_cons_zero, List.erase_cons_head]

theorem binarySearch_iff {l : List T} (hl : l.Pairwise (· ≤ ·)) (v : T) :
    binarySearch l v = true ↔ v ∈ l := by
  induction l with
  | nil => exact iff_of_false Bool.false_ne_true List.not_mem_nil
  | cons x l ih =>
    rw [List.pairwise_cons] at hl
    rw [binarySearch, lowerBound_cons]
    by_cases hx : x < v
    · rw [if_pos hx, List.getElem?_cons_succ, ← binarySearch, ih hl.2, List.mem_cons]
      exact (or_iff_right hx.ne').symm
    · rw [if_neg hx, List.getElem?_cons_zero, List.mem_cons]
      simp only [Bool.not_eq_true', decide_eq_false_iff_not, not_lt]
      constructor
      · exact fun hle => .inl (le_antisymm (not_lt.1 hx) hle)
      · rintro (rfl | hv)
        · exact le_refl v
        · exact hl.1 v hv

theorem mem_unique {l : List T} {v : T} : v ∈ unique l ↔ v ∈ l := by
  induction l with
  | nil => exact Iff.rfl
  | cons x l ih =>
    rw [unique, List.mem_cons, ← ih]
    rcases unique l with _ | ⟨y, l'⟩
    · rw [List.mem_singleton]
      exact (or_iff_left List.not_mem_nil).symm
    · dsimp only
      split_ifs with hxy
      · rw [hxy, List.mem_cons]
        tauto
      · rw [List.mem_cons]

/-- Without repetitions, a sorted list is strictly increasing. -/
theorem pairwise_unique {l : List T} (hl : l.Pairwise (· ≤ ·)) : (unique l).Pairwise (· < ·) := by
  induction l with
  | nil => exact .nil
  | cons x l ih =>
    rw [List.pairwise_cons] at hl
    have hrest := ih hl.2
    have hle : ∀ y ∈ unique l, x ≤ y := fun y hy => hl.1 y (mem_unique.1 hy)
    rw [unique]
    generalize unique l = u at hrest hle ⊢
    rcases u with _ | ⟨y, l'⟩
    · exact List.pairwise_singleton _ _
    · dsimp only
      split_ifs with hxy
      · exact hrest
      · have hlt : x < y := lt_of_le_of_ne (hle y List.mem_cons_self) hxy
        refine List.pairwise_cons.2 ⟨fun z hz => ?_, hrest⟩
        rcases List.mem_cons.1 hz with rfl | hz
        · exact hlt
        · exact hlt.trans ((List.pairwise_cons.1 hrest).1 z hz)

/-- A strictly increasing list is the sorted list of its elements. -/
theorem eq_sort {l : List T} (hl : l.Pairwise (· < ·)) : l = l.toFinset.sort :=
  ((List.toFinset_sort (· ≤ ·) (hl.imp fun h => h.ne)).2 (hl.imp le_of_lt)).symm

end Canary.SortedList
