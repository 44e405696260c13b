import Mathlib.Tactic.Common

/-!
# Memories

What is at each address of a memory, which is read and written in ranges.

A range that was written reads back (`Memory.read_write`), and ranges that do not meet it
are not changed (`Memory.read_write_of_disjoint`). A function on the blocks of a range is
undone, block by block, by its inverse (`Memory.read_mapBlocks_mapBlocks`).
-/

/-- What is at each address. -/
abbrev Memory (α : Type*) := Nat → α

namespace Memory

variable {α : Type*}

/-- The `n` cells from `p` on. -/
def read (m : Memory α) (p n : Nat) : List α := (List.range' p n).map m

/-- A list is put in the cells from `p` on. -/
def write (m : Memory α) (p : Nat) (l : List α) : Memory α :=
  fun i => if p ≤ i then l[i - p]?.getD (m i) else m i

@[simp] theorem length_read (m : Memory α) (p n : Nat) : (m.read p n).length = n := by
  rw [read, List.length_map, List.length_range']

theorem read_zero (m : Memory α) (p : Nat) : m.read p 0 = [] := rfl

theorem read_add (m : Memory α) (p n k : Nat) :
    m.read p (n + k) = m.read p n ++ m.read (p + n) k := by
  rw [read, ← List.range'_append_1, List.map_append]
  rfl

theorem read_congr {m m' : Memory α} {p n : Nat} (h : ∀ i, p ≤ i → i < p + n → m i = m' i) :
    m.read p n = m'.read p n := by
  refine List.map_congr_left fun i hi => ?_
  obtain ⟨hp, hn⟩ := List.mem_range'_1.1 hi
  exact h i hp hn

theorem getElem_read {m : Memory α} {p n i : Nat} (h : i < (m.read p n).length) :
    (m.read p n)[i] = m (p + i) := by
  simp [read]

/-- What was written is read back. -/
@[simp] theorem read_write (m : Memory α) (p : Nat) (l : List α) :
    (m.write p l).read p l.length = l := by
  refine List.ext_getElem (length_read _ _ _) fun i _ hi => ?_
  rw [getElem_read, write, if_pos (Nat.le_add_right _ _), Nat.add_sub_cancel_left,
    List.getElem?_eq_getElem hi, Option.getD_some]

/-- The cells outside of the range are not changed. -/
theorem write_of_disjoint (m : Memory α) {p i : Nat} {l : List α}
    (h : i < p ∨ p + l.length ≤ i) : m.write p l i = m i := by
  rw [write]
  split
  · next hp =>
    have hle : l.length ≤ i - p := by omega
    rw [List.getElem?_eq_none hle, Option.getD_none]
  · rfl

theorem read_write_of_disjoint (m : Memory α) {p q n : Nat} {l : List α}
    (h : p + n ≤ q ∨ q + l.length ≤ p) : (m.write q l).read p n = m.read p n :=
  read_congr fun i hp hn => m.write_of_disjoint (by omega)

/-- Lists that were written one behind the other are read together. -/
theorem read_write_write (m : Memory α) {p n k : Nat} {l l' : List α} (hl : l.length = n)
    (hl' : l'.length = k) : ((m.write p l).write (p + n) l').read p (n + k) = l ++ l' := by
  subst hl hl'
  rw [read_add, read_write, read_write_of_disjoint _ (.inl (Nat.le_refl _)), read_write]

@[simp] theorem write_nil (m : Memory α) (p : Nat) : m.write p [] = m := by
  funext i
  exact m.write_of_disjoint (Nat.lt_or_ge i p)

/-! ## Blocks -/

/-- The function is applied to `n` blocks of `k` cells, one after the other. -/
def mapBlocks (f : List α → List α) (k : Nat) : Nat → Nat → Memory α → Memory α
  | 0, _, m => m
  | n + 1, p, m => mapBlocks f k n (p + k) (m.write p (f (m.read p k)))

variable {f g : List α → List α} {k : Nat}

/-- The cells outside of the blocks are not changed. -/
theorem mapBlocks_of_disjoint (hf : ∀ l, l.length = k → (f l).length = k) {n p i : Nat}
    (m : Memory α) (h : i < p ∨ p + n * k ≤ i) : mapBlocks f k n p m i = m i := by
  induction n generalizing p m with
  | zero => rfl
  | succ n ih =>
    rw [Nat.succ_mul] at h
    have hlen : (f (m.read p k)).length = k := hf _ (length_read _ _ _)
    have hle : k ≤ n * k + k := Nat.le_add_left _ _
    rw [mapBlocks, ih _ (by omega), write_of_disjoint _ (by omega)]

theorem read_mapBlocks_of_disjoint (hf : ∀ l, l.length = k → (f l).length = k) {n p q j : Nat}
    (m : Memory α) (h : q + j ≤ p ∨ p + n * k ≤ q) :
    (mapBlocks f k n p m).read q j = m.read q j :=
  read_congr fun _ _ _ => mapBlocks_of_disjoint hf m (by omega)

/-- What the first block becomes. -/
theorem read_mapBlocks_first (hf : ∀ l, l.length = k → (f l).length = k) (n p : Nat)
    (m : Memory α) : (mapBlocks f k (n + 1) p m).read p k = f (m.read p k) := by
  have hlen : (f (m.read p k)).length = k := hf _ (length_read _ _ _)
  have hw := m.read_write p (f (m.read p k))
  rw [hlen] at hw
  rw [mapBlocks, read_mapBlocks_of_disjoint hf _ (.inl (Nat.le_refl _)), hw]

/-- What the blocks become depends on them only. -/
theorem read_mapBlocks_congr (hf : ∀ l, l.length = k → (f l).length = k) {n p q : Nat}
    {m m' : Memory α} (h : m.read p (n * k) = m'.read q (n * k)) :
    (mapBlocks f k n p m).read p (n * k) = (mapBlocks f k n q m').read q (n * k) := by
  induction n generalizing p q m m' with
  | zero => rw [Nat.zero_mul, read_zero, read_zero]
  | succ n ih =>
    have hk : (n + 1) * k = k + n * k := by rw [Nat.succ_mul, Nat.add_comm]
    rw [hk] at h ⊢
    rw [read_add, read_add] at h
    obtain ⟨hhead, htail⟩ := List.append_inj h (by rw [length_read, length_read])
    have hlen : (f (m.read p k)).length = k := hf _ (length_read _ _ _)
    have hlen' : (f (m'.read q k)).length = k := hf _ (length_read _ _ _)
    rw [read_add, read_add, read_mapBlocks_first hf, read_mapBlocks_first hf, hhead, mapBlocks,
      mapBlocks]
    congr 1
    refine ih ?_
    rw [read_write_of_disjoint _ (.inr (by omega)), read_write_of_disjoint _ (.inr (by omega)),
      htail]

/-- A function on blocks is undone by its inverse. -/
theorem read_mapBlocks_mapBlocks (hf : ∀ l, l.length = k → (f l).length = k)
    (hg : ∀ l, l.length = k → (g l).length = k) (hgf : ∀ l, l.length = k → g (f l) = l)
    (n p : Nat) (m : Memory α) :
    (mapBlocks g k n p (mapBlocks f k n p m)).read p (n * k) = m.read p (n * k) := by
  induction n generalizing p m with
  | zero => rw [Nat.zero_mul, read_zero, read_zero]
  | succ n ih =>
    have hk : (n + 1) * k = k + n * k := by rw [Nat.succ_mul, Nat.add_comm]
    have hlen : (f (m.read p k)).length = k := hf _ (length_read _ _ _)
    rw [hk, read_add, read_add, read_mapBlocks_first hg, read_mapBlocks_first hf,
      hgf _ (length_read _ _ _)]
    congr 1
    -- To the other blocks, the writes of the first one do not matter.
    have hframe := read_write_of_disjoint (p := p + k) (q := p) (n := n * k)
      (l := g ((mapBlocks f k (n + 1) p m).read p k)) (mapBlocks f k (n + 1) p m)
      (.inr (Nat.le_of_eq (by rw [hg _ (length_read _ _ _)])))
    rw [mapBlocks, read_mapBlocks_congr hg hframe, mapBlocks, ih,
      read_write_of_disjoint _ (.inr (by omega))]

end Memory
