import Mathlib.Data.BitVec

/-!
# Flag words

A word of flags, and masks of one flag or of several. A mask is set in a word if one of its
flags is (`hasBitSet`); it is set and reset as a whole.

Masks that have no flag in common do not get into each other's way.
-/

namespace FlagWord

variable {w : ℕ} (flags mask other : BitVec w)

/-- One of the flags of the mask is set. -/
def hasBitSet : Bool := flags &&& mask ≠ 0

def setFlag : BitVec w := flags ||| mask

def resetFlag : BitVec w := flags &&& ~~~mask

variable {flags mask other}

theorem and_eq_zero_iff : mask &&& other = 0 ↔
    ∀ i : ℕ, mask.getLsbD i = true → other.getLsbD i = false := by
  constructor
  · intro h i hi
    simpa [hi] using congrArg (·.getLsbD i) h
  · intro h
    ext i hi
    simpa [BitVec.getLsbD_eq_getElem hi] using h i

theorem hasBitSet_iff :
    hasBitSet flags mask = true ↔ ∃ i : ℕ, flags.getLsbD i = true ∧ mask.getLsbD i = true := by
  rw [hasBitSet, decide_eq_true_iff, ← not_iff_not, not_not, and_eq_zero_iff]
  push Not
  simp only [ne_eq, Bool.not_eq_true]

/-- A mask is set after another one is, if it was before, or has a flag of the other. -/
theorem hasBitSet_setFlag :
    hasBitSet (setFlag flags mask) other = (hasBitSet flags other || hasBitSet mask other) := by
  rw [Bool.eq_iff_iff, Bool.or_eq_true, hasBitSet_iff, hasBitSet_iff, hasBitSet_iff]
  simp only [setFlag, BitVec.getLsbD_or, Bool.or_eq_true, or_and_right, exists_or]

/-- No flag of the mask is left. -/
theorem hasBitSet_resetFlag_self : hasBitSet (resetFlag flags mask) mask = false := by
  simp [hasBitSet, resetFlag, BitVec.and_assoc]

/-- Masks that have no flag in common. -/
theorem hasBitSet_resetFlag_of_disjoint (h : mask &&& other = 0) :
    hasBitSet (resetFlag flags mask) other = hasBitSet flags other := by
  have hother : ~~~mask &&& other = other := by
    ext i hi
    have hdis := and_eq_zero_iff.1 h i
    rw [BitVec.getLsbD_eq_getElem hi, BitVec.getLsbD_eq_getElem hi] at hdis
    cases hmask : mask[i] <;> simp_all
  rw [hasBitSet, hasBitSet, resetFlag, BitVec.and_assoc, hother]

end FlagWord
