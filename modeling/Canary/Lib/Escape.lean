import Mathlib.Data.List.Basic
import Mathlib.Tactic.Common

/-!
# Escaped streams

Some symbols are markers of a stream. A symbol of its contents that is one of these, or the
escape symbol, is written with the escape symbol in front of it.

* `readMany_writeAll`: reading symbols gives back the ones that were written, and the rest of
  the stream;
* `readMany_isSome_iff`: a number of symbols can be read from any stream whatsoever exactly when
  it holds that many (`unescape`).
-/

namespace Escape

universe u

variable {β : Type u} (esc : β) (marked : β → Bool)

/-- How a symbol is written. -/
def write (b : β) : List β := if marked b then [esc, b] else [b]

def writeAll (l : List β) : List β := l.flatMap (write esc marked)

variable {esc marked}

/-! ## Writing -/

theorem write_of_marked {b : β} (h : marked b = true) : write esc marked b = [esc, b] := if_pos h

theorem write_of_not_marked {b : β} (h : marked b = false) : write esc marked b = [b] :=
  if_neg (by simp [h])

@[simp] theorem writeAll_nil : writeAll esc marked [] = [] := rfl

@[simp] theorem writeAll_cons (b : β) (l : List β) :
    writeAll esc marked (b :: l) = write esc marked b ++ writeAll esc marked l := rfl

variable (esc marked) in
theorem one_le_length_write (b : β) : 1 ≤ (write esc marked b).length := by
  rw [write]
  split <;> simp

variable (esc marked) in
theorem length_le_writeAll (l : List β) : l.length ≤ (writeAll esc marked l).length := by
  induction l with
  | nil => exact Nat.zero_le _
  | cons b l ih =>
    have hb := one_le_length_write esc marked b
    rw [writeAll_cons, List.length_append, List.length_cons]
    omega

variable (esc) in
/-- Only without a marked symbol is a text written as it is. -/
theorem length_writeAll_eq_iff {l : List β} :
    (writeAll esc marked l).length = l.length ↔ ∀ b ∈ l, marked b = false := by
  induction l with
  | nil => simp
  | cons b l ih =>
    have hl := length_le_writeAll esc marked l
    rw [writeAll_cons, List.length_append, List.length_cons, List.forall_mem_cons, ← ih]
    rcases hb : marked b with _ | _
    · rw [write_of_not_marked hb]
      simp only [List.length_singleton, true_and]
      omega
    · rw [write_of_marked hb]
      simp only [List.length_cons, List.length_nil, Bool.true_eq_false, false_and, iff_false]
      omega

theorem writeAll_of_not_marked {l : List β} (h : ∀ b ∈ l, marked b = false) :
    writeAll esc marked l = l := by
  induction l with
  | nil => rfl
  | cons b l ih =>
    rw [writeAll_cons, write_of_not_marked (h b List.mem_cons_self),
      ih fun c hc => h c (List.mem_cons_of_mem _ hc)]
    rfl

/-! ## Reading -/

section Reading

variable [DecidableEq β]

variable (esc) in
/-- Read a symbol, with the escape in front of it. -/
def read : List β → Option (β × List β)
  | [] => none
  | [b] => if b = esc then none else some (b, [])
  | b :: c :: l => if b = esc then some (c, l) else some (b, c :: l)

variable (esc) in
def readMany : Nat → List β → Option (List β × List β)
  | 0, l => some ([], l)
  | n + 1, l => (read esc l).bind fun p => (readMany n p.2).map fun q => (p.1 :: q.1, q.2)

variable (esc) in
/-- The symbols of a stream. An escape at its end stands for none. -/
def unescape : List β → List β
  | [] => []
  | [b] => if b = esc then [] else [b]
  | b :: c :: l => if b = esc then c :: unescape l else b :: unescape (c :: l)

theorem read_esc_cons (c : β) (l : List β) : read esc (esc :: c :: l) = some (c, l) := if_pos rfl

theorem read_cons_of_ne {b : β} (h : b ≠ esc) (l : List β) : read esc (b :: l) = some (b, l) := by
  cases l with
  | nil => exact if_neg h
  | cons c l => exact if_neg h

/-- What is written is read, if the escape is one of the marked symbols. -/
theorem read_write (hesc : marked esc = true) (b : β) (l : List β) :
    read esc (write esc marked b ++ l) = some (b, l) := by
  rcases hb : marked b with _ | _
  · rw [write_of_not_marked hb]
    exact read_cons_of_ne (by rintro rfl; rw [hesc] at hb; cases hb) l
  · rw [write_of_marked hb]
    exact read_esc_cons b l

theorem readMany_writeAll (hesc : marked esc = true) (bs l : List β) :
    readMany esc bs.length (writeAll esc marked bs ++ l) = some (bs, l) := by
  induction bs with
  | nil => rfl
  | cons b bs ih =>
    rw [List.length_cons, readMany, writeAll_cons, List.append_assoc, read_write hesc,
      Option.bind_some, ih]
    rfl

theorem read_suffix {l l' : List β} {b : β} (h : read esc l = some (b, l')) :
    l' <:+ l ∧ l'.length < l.length := by
  rcases l with _ | ⟨c, _ | ⟨d, l⟩⟩
  · cases h
  · rw [read] at h
    split at h
    · cases h
    · cases h
      exact ⟨List.nil_suffix, Nat.one_pos⟩
  · rw [read] at h
    split at h
    · cases h
      exact ⟨⟨[c, b], rfl⟩, Nat.lt_succ_of_lt (Nat.lt_succ_self _)⟩
    · cases h
      exact ⟨List.suffix_cons _ _, Nat.lt_succ_self _⟩

theorem unescape_cons_of_ne {b : β} (h : b ≠ esc) (l : List β) :
    unescape esc (b :: l) = b :: unescape esc l := by
  cases l with
  | nil => exact if_neg h
  | cons c l => exact if_neg h

theorem unescape_esc_cons (c : β) (l : List β) :
    unescape esc (esc :: c :: l) = c :: unescape esc l := if_pos rfl

theorem unescape_singleton : unescape esc [esc] = [] := if_pos rfl

/-- The symbol that is read is the first of the stream. -/
theorem unescape_eq_cons_iff {l l' : List β} {b : β} (h : read esc l = some (b, l')) :
    unescape esc l = b :: unescape esc l' := by
  rcases l with _ | ⟨c, _ | ⟨d, l⟩⟩
  · cases h
  · rw [read] at h
    split at h
    case isTrue => cases h
    case isFalse hc =>
      cases h
      exact unescape_cons_of_ne hc _
  · rw [read] at h
    split at h
    case isTrue hc =>
      cases h
      subst hc
      exact unescape_esc_cons _ _
    case isFalse hc =>
      cases h
      exact unescape_cons_of_ne hc _

theorem unescape_eq_nil {l : List β} (h : read esc l = none) : unescape esc l = [] := by
  rcases l with _ | ⟨c, _ | ⟨d, l⟩⟩
  · rfl
  · rw [read] at h
    split at h
    case isTrue hc => rw [hc, unescape_singleton]
    case isFalse => cases h
  · rw [read] at h
    split at h <;> cases h

theorem read_isSome_iff {l : List β} : (read esc l).isSome ↔ 1 ≤ (unescape esc l).length := by
  rcases h : read esc l with _ | ⟨b, l'⟩
  · simp [unescape_eq_nil h]
  · simp [unescape_eq_cons_iff h]

/-- As many symbols can be read as the stream has. -/
theorem readMany_isSome_iff {n : Nat} {l : List β} :
    (readMany esc n l).isSome ↔ n ≤ (unescape esc l).length := by
  induction n generalizing l with
  | zero => simp [readMany]
  | succ n ih =>
    rw [readMany]
    rcases h : read esc l with _ | ⟨b, l'⟩
    · simp [unescape_eq_nil h]
    · simp [unescape_eq_cons_iff h, ih]

end Reading

end Escape
