import Mathlib.Logic.Function.Basic
import Mathlib.Tactic.Common

/-!
# Tries

Trees that are addressed by paths: an inner node has a child for every letter, and what is
kept is in leaves, all of them at the same depth (`Trie.Uniform`). A leaf is added at the
end of a path unless there is one (`Trie.add`), and then found by this path and no other
one (`Trie.get_add`).
-/

/-- A tree over the letters `ι`, with leaves in `α`. -/
inductive Trie (ι α : Type*) where
  | null
  | leaf (a : α)
  | node (child : ι → Trie ι α)

namespace Trie

variable {ι α : Type*}

/-- The leaf that a path leads to. -/
def get : Trie ι α → List ι → Option α
  | .null, _ => none
  | .leaf a, _ => some a
  | .node _, [] => none
  | .node child, i :: p => (child i).get p

/-- All leaves are at the depth `n`. -/
inductive Uniform : ℕ → Trie ι α → Prop
  | null (n : ℕ) : Uniform n .null
  | leaf (a : α) : Uniform 0 (.leaf a)
  | node {n : ℕ} {child : ι → Trie ι α} : (∀ i, Uniform n (child i)) → Uniform (n + 1) (.node child)

variable [DecidableEq ι]

/-- Add a leaf at the end of a path, and the nodes on the way, unless there is a leaf. -/
def add (new : α) : List ι → Trie ι α → Trie ι α
  | _, .leaf a => .leaf a
  | [], .null => .leaf new
  | [], .node child => .node child
  | i :: p, .null => .node (Function.update (fun _ => .null) i (add new p .null))
  | i :: p, .node child => .node (Function.update child i (add new p (child i)))

variable {n : ℕ} {t : Trie ι α} {p q : List ι} {new : α}

theorem get_update {child : ι → Trie ι α} {i j : ι} {c : Trie ι α} :
    (Trie.node (Function.update child i c)).get (j :: q) =
      if i = j then c.get q else (child j).get q := by
  rw [get]
  split
  · next h => rw [h, Function.update_self]
  · next h => rw [Function.update_of_ne (Ne.symm h)]

/-- The path leads to its leaf, the old one or the new one, and the other paths lead where
    they did. -/
theorem get_add (ht : t.Uniform n) (hp : p.length = n) (hq : q.length = n) :
    (add new p t).get q = if p = q then some ((t.get p).getD new) else t.get q := by
  induction p generalizing t q n with
  | nil =>
    obtain rfl := hp
    obtain rfl := List.eq_nil_of_length_eq_zero hq
    cases ht with
    | null => rfl
    | leaf a => rfl
  | cons i p ih =>
    cases q with
    | nil => rw [← hp] at hq; cases hq
    | cons j q =>
      obtain rfl := hp
      have hq : q.length = p.length := Nat.succ.inj hq
      simp only [List.cons.injEq, ite_and]
      cases ht with
      | null =>
        rw [add, get_update, ih (.null _) rfl hq]
        split <;> rfl
      | node h =>
        rw [add, get_update, ih (h i) rfl hq]
        split
        · next hij => rw [hij]; rfl
        · rfl

theorem Uniform.add (ht : t.Uniform n) (hp : p.length = n) : (t.add new p).Uniform n := by
  induction p generalizing t n with
  | nil =>
    obtain rfl := hp
    cases ht with
    | null => exact .leaf new
    | leaf a => exact .leaf a
  | cons i p ih =>
    obtain rfl := hp
    have hupdate : ∀ {child : ι → Trie ι α}, (∀ j, (child j).Uniform p.length) →
        (Trie.node (Function.update child i (Trie.add new p (child i)))).Uniform (p.length + 1) := by
      intro child h
      refine .node fun j => ?_
      by_cases hij : j = i
      · rw [hij, Function.update_self]
        exact ih (h i) rfl
      · rw [Function.update_of_ne hij]
        exact h j
    cases ht with
    | null => exact hupdate fun _ => .null _
    | node h => exact hupdate h

end Trie
