import Mathlib.Data.Nat.Notation

/-!
# Windows of a list

A window shows the `c` elements of a list from `i` on. What it shows after the list has changed
follows from what it showed, and from the element that moves into it.
-/

namespace Window

variable {α : Type*}

/-- The elements `i .. i + c - 1`. -/
def window (l : List α) (i c : ℕ) : List α := (l.drop i).take c

variable {l : List α} {i c k : ℕ}

theorem getElem?_window (j : ℕ) : (window l i c)[j]? = if j < c then l[i + j]? else none := by
  rw [window, List.getElem?_take, List.getElem?_drop]

theorem length_window : (window l i c).length = min c (l.length - i) := by
  rw [window, List.length_take, List.length_drop]

theorem window_set_of_mem (hk : i ≤ k) (x : α) :
    window (l.set k x) i c = (window l i c).set (k - i) x := by
  rw [window, window, List.drop_set, if_neg (by omega), List.take_set]

/-- What changes outside is not shown. -/
theorem window_set_of_not_mem (hk : ¬(i ≤ k ∧ k < i + c)) (x : α) :
    window (l.set k x) i c = window l i c := by
  refine List.ext_getElem? fun j => ?_
  rw [getElem?_window, getElem?_window]
  split
  · rw [List.getElem?_set_ne (by omega)]
  · rfl

theorem window_cons (x : α) : window (x :: l) 0 c = (x :: window l 0 c).take c := by
  refine List.ext_getElem? fun j => ?_
  rw [getElem?_window, List.getElem?_take]
  split
  · rw [Nat.zero_add]
    cases j with
    | zero => rfl
    | succ j =>
      rw [List.getElem?_cons_succ, List.getElem?_cons_succ, getElem?_window, if_pos (by omega),
        Nat.zero_add]
  · rfl

/-- An element of the window goes: those after it move by one. -/
theorem window_eraseIdx_of_mem (hik : i ≤ k) (hkc : k < i + c) (hk : k < l.length) :
    window (l.eraseIdx k) i c = (window l i c).eraseIdx (k - i) ++ l[i + c]?.toList := by
  refine List.ext_getElem? fun j => ?_
  have hlength := length_window (l := l) (i := i) (c := c)
  have herase : ((window l i c).eraseIdx (k - i)).length = min c (l.length - i) - 1 := by
    rw [List.length_eraseIdx, if_pos (by omega), hlength]
  rw [getElem?_window, List.getElem?_append, herase, List.getElem?_eraseIdx,
    List.getElem?_eraseIdx, getElem?_window, getElem?_window]
  grind

/-- An element before the window goes: all move by one. -/
theorem window_eraseIdx_of_lt (hk : k < i) (hi : i < l.length) (hc : 0 < c) :
    window (l.eraseIdx k) i c = (window l i c).eraseIdx 0 ++ l[i + c]?.toList := by
  have hfirst : window (l.eraseIdx k) i c = window (l.eraseIdx i) i c := by
    refine List.ext_getElem? fun j => ?_
    rw [getElem?_window, getElem?_window, List.getElem?_eraseIdx_of_ge (by omega),
      List.getElem?_eraseIdx_of_ge (by omega)]
  rw [hfirst, window_eraseIdx_of_mem (Nat.le_refl i) (by omega) hi, Nat.sub_self]

/-- What goes after the window is not shown. -/
theorem window_eraseIdx_of_le (hk : i + c ≤ k) : window (l.eraseIdx k) i c = window l i c := by
  refine List.ext_getElem? fun j => ?_
  rw [getElem?_window, getElem?_window]
  split
  · rw [List.getElem?_eraseIdx_of_lt (by omega)]
  · rfl

end Window
