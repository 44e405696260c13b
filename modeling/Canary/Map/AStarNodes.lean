import Mathlib.Algebra.BigOperators.Group.Finset.Basic
import Mathlib.Algebra.Order.BigOperators.Group.Finset
import Mathlib.Data.Prod.Lex
import Mathlib.Order.WellFounded

/-!
# The nodes of the path search

A search for a path keeps a pool of 512 nodes, each for a square and with a cost and the node that
it is reached from. A node is found by its square; the open nodes are those to be looked at.

* A node is found if and only if it is in the pool (`Wf.getNodeByPosition_eq_some_iff`).
* `getBestNode` gives an open node of the least cost (`getBestNode_eq_some`).
* A node that gets cheaper, one more node, and one that is closed make the pool less
  (`measure`): a search ends.
-/

namespace Canary.Map

/-- The parent is a node of the pool, by its index. -/
structure AStarNode where
  parent : Option ℕ := none
  f : ℤ := 0
  x : UInt16 := 0
  y : UInt16 := 0

structure AStarNodes where
  nodes : ℕ → AStarNode
  openNodes : ℕ → Bool
  nodeTable : UInt32 → Option ℕ
  curNode : ℕ
  closedNodes : ℤ

namespace AStarNodes

/-- `MAX_NODES` -/
def maxNodes : ℕ := 512

/-- `(x << 16) | y` -/
def key (x y : UInt16) : UInt32 := (x.toUInt32 <<< 16) ||| y.toUInt32

def new (x y : UInt16) : AStarNodes where
  nodes := Function.update (fun _ => {}) 0 { x, y }
  openNodes := Function.update (fun _ => false) 0 true
  nodeTable := Function.update (fun _ => none) (key x y) (some 0)
  curNode := 1
  closedNodes := 0

variable (s : AStarNodes)

def createOpenNode (parent : ℕ) (x y : UInt16) (f : ℤ) : Option AStarNodes :=
  if maxNodes ≤ s.curNode then none
  else some { s with
    nodes := Function.update s.nodes s.curNode ⟨some parent, f, x, y⟩
    openNodes := Function.update s.openNodes s.curNode true
    nodeTable := Function.update s.nodeTable (key x y) (some s.curNode)
    curNode := s.curNode + 1 }

/-- One node in the loop of `getBestNode`, with the best so far. -/
def better (best : ℤ × Option ℕ) (i : ℕ) : ℤ × Option ℕ :=
  if s.openNodes i ∧ (s.nodes i).f < best.1 then ((s.nodes i).f, some i) else best

def getBestNode : Option ℕ := ((List.range s.curNode).foldl s.better (2 ^ 31 - 1, none)).2

def closeNode (i : ℕ) : AStarNodes :=
  { s with
    openNodes := Function.update s.openNodes i false
    closedNodes := s.closedNodes + 1 }

def openNode (i : ℕ) : AStarNodes :=
  if s.openNodes i then s
  else { s with
    openNodes := Function.update s.openNodes i true
    closedNodes := s.closedNodes - 1 }

def getNodeByPosition (x y : UInt16) : Option ℕ := s.nodeTable (key x y)

/-- `neighborNode->f = newf`, `neighborNode->parent = n`, and the node is open again. -/
def reach (i n : ℕ) (newf : ℤ) : AStarNodes :=
  openNode { s with
    nodes := Function.update s.nodes i { s.nodes i with f := newf, parent := some n } } i

/-! ## Keys -/

theorem toNat_key (x y : UInt16) : (key x y).toNat = x.toNat * 2 ^ 16 + y.toNat := by
  have hx := x.toNat_lt
  have hy := y.toNat_lt
  have hshift : (x.toUInt32 <<< 16).toNat = x.toNat <<< 16 := by
    rw [UInt32.toNat_shiftLeft, UInt16.toNat_toUInt32, Nat.shiftLeft_eq, Nat.shiftLeft_eq]
    exact Nat.mod_eq_of_lt (by change x.toNat * 2 ^ 16 < 2 ^ 32; omega)
  rw [key, UInt32.toNat_or, hshift, UInt16.toNat_toUInt32, ← Nat.shiftLeft_add_eq_or_of_lt hy,
    Nat.shiftLeft_eq]

theorem key_inj {x y x' y' : UInt16} : key x y = key x' y' ↔ x = x' ∧ y = y' := by
  have hy := y.toNat_lt
  have hy' := y'.toNat_lt
  rw [← UInt32.toNat_inj, toNat_key, toNat_key, ← UInt16.toNat_inj, ← UInt16.toNat_inj]
  omega

/-! ## The best node -/

/-- The best of some nodes is as good as any that is open, and as the best so far. -/
theorem foldl_better (l : List ℕ) (best : ℤ × Option ℕ) :
    (l.foldl s.better best).1 ≤ best.1 ∧
      (∀ i ∈ l, s.openNodes i = true → (l.foldl s.better best).1 ≤ (s.nodes i).f) ∧
      (l.foldl s.better best = best ∨ ∃ i ∈ l, s.openNodes i = true ∧
        l.foldl s.better best = ((s.nodes i).f, some i)) := by
  induction l generalizing best with
  | nil => exact ⟨le_rfl, fun i hi => absurd hi List.not_mem_nil, .inl rfl⟩
  | cons i l ih =>
    rw [List.foldl_cons]
    obtain ⟨hle, hmin, hfrom⟩ := ih (s.better best i)
    have hstep : (s.better best i).1 ≤ best.1 ∧
        (s.openNodes i = true → (s.better best i).1 ≤ (s.nodes i).f) := by
      rw [better]
      split_ifs with h
      · exact ⟨h.2.le, fun _ => le_rfl⟩
      · exact ⟨le_rfl, fun hopen => not_lt.1 fun hlt => h ⟨hopen, hlt⟩⟩
    refine ⟨hle.trans hstep.1, fun j hj hopen => ?_, ?_⟩
    · rcases List.mem_cons.1 hj with rfl | hj
      · exact hle.trans (hstep.2 hopen)
      · exact hmin j hj hopen
    · rcases hfrom with heq | ⟨j, hj, hopen, heq⟩
      · rw [heq, better]
        split_ifs with h
        · exact .inr ⟨i, List.mem_cons_self, h.1, rfl⟩
        · exact .inl rfl
      · exact .inr ⟨j, List.mem_cons_of_mem _ hj, hopen, heq⟩

variable {s}

theorem getBestNode_eq_some {n : ℕ} (h : s.getBestNode = some n) :
    n < s.curNode ∧ s.openNodes n = true ∧
      ∀ i < s.curNode, s.openNodes i = true → (s.nodes n).f ≤ (s.nodes i).f := by
  obtain ⟨-, hmin, hfrom⟩ := s.foldl_better (List.range s.curNode) (2 ^ 31 - 1, none)
  rw [getBestNode] at h
  rcases hfrom with heq | ⟨i, hi, hopen, heq⟩
  · rw [heq] at h
    cases h
  · rw [heq] at h hmin
    obtain rfl := Option.some.inj h
    exact ⟨List.mem_range.1 hi, hopen, fun j hj => hmin j (List.mem_range.2 hj)⟩

/-! ## Changes of the pool -/

@[simp] theorem closeNode_nodes (i : ℕ) : (s.closeNode i).nodes = s.nodes := rfl

@[simp] theorem closeNode_curNode (i : ℕ) : (s.closeNode i).curNode = s.curNode := rfl

@[simp] theorem closeNode_nodeTable (i : ℕ) : (s.closeNode i).nodeTable = s.nodeTable := rfl

@[simp] theorem closeNode_openNodes (i : ℕ) :
    (s.closeNode i).openNodes = Function.update s.openNodes i false := rfl

theorem openNode_openNodes (i : ℕ) :
    (s.openNode i).openNodes = Function.update s.openNodes i true := by
  rw [openNode]
  split_ifs with h
  · rw [← h, Function.update_eq_self]
  · rfl

@[simp] theorem reach_nodes (i n : ℕ) (newf : ℤ) : (s.reach i n newf).nodes =
    Function.update s.nodes i { s.nodes i with f := newf, parent := some n } := by
  rw [reach, openNode]
  split_ifs <;> rfl

@[simp] theorem reach_curNode (i n : ℕ) (newf : ℤ) : (s.reach i n newf).curNode = s.curNode := by
  rw [reach, openNode]
  split_ifs <;> rfl

@[simp] theorem reach_nodeTable (i n : ℕ) (newf : ℤ) :
    (s.reach i n newf).nodeTable = s.nodeTable := by
  rw [reach, openNode]
  split_ifs <;> rfl

@[simp] theorem reach_openNodes (i n : ℕ) (newf : ℤ) :
    (s.reach i n newf).openNodes = Function.update s.openNodes i true := by
  rw [reach, openNode_openNodes]

/-! ## Well-formed pools -/

/-- The table knows the nodes of the pool, and no other ones. -/
structure Wf (s : AStarNodes) : Prop where
  pos : 0 < s.curNode
  le : s.curNode ≤ maxNodes
  table : ∀ k i, s.nodeTable k = some i ↔
    i < s.curNode ∧ key (s.nodes i).x (s.nodes i).y = k

namespace Wf

variable (h : s.Wf)

include h

theorem getNodeByPosition_eq_some_iff {x y : UInt16} {i : ℕ} :
    s.getNodeByPosition x y = some i ↔
      i < s.curNode ∧ (s.nodes i).x = x ∧ (s.nodes i).y = y := by
  rw [getNodeByPosition, h.table, key_inj]

/-- There is one node for a square. -/
theorem unique {i j : ℕ} (hi : i < s.curNode) (hj : j < s.curNode)
    (hx : (s.nodes i).x = (s.nodes j).x) (hy : (s.nodes i).y = (s.nodes j).y) : i = j := by
  have hi' := (h.table _ i).2 ⟨hi, rfl⟩
  have hj' := (h.table (key (s.nodes i).x (s.nodes i).y) j).2 ⟨hj, key_inj.2 ⟨hx.symm, hy.symm⟩⟩
  exact Option.some.inj (hi'.symm.trans hj')

theorem closeNode (i : ℕ) : (s.closeNode i).Wf := ⟨h.pos, h.le, h.table⟩

theorem reach (i n : ℕ) (newf : ℤ) : (s.reach i n newf).Wf where
  pos := by rw [reach_curNode]; exact h.pos
  le := by rw [reach_curNode]; exact h.le
  table k j := by
    rw [reach_nodeTable, reach_curNode, reach_nodes, h.table]
    by_cases hj : j = i
    · subst hj
      rw [Function.update_self]
    · rw [Function.update_of_ne hj]

theorem createOpenNode {parent : ℕ} {x y : UInt16} {f : ℤ} {s' : AStarNodes}
    (hs : s.createOpenNode parent x y f = some s') (hnew : s.getNodeByPosition x y = none) :
    s'.Wf := by
  rw [AStarNodes.createOpenNode] at hs
  split_ifs at hs with hle
  obtain rfl := Option.some.inj hs
  refine ⟨Nat.succ_pos _, not_le.1 hle, fun k i => ?_⟩
  dsimp only
  rw [Nat.lt_succ_iff_lt_or_eq]
  by_cases hk : k = key x y
  · -- The square had no node.
    have hnone : ∀ i < s.curNode, key (s.nodes i).x (s.nodes i).y ≠ key x y := by
      intro i hi he
      have := (h.table _ i).2 ⟨hi, he⟩
      rw [getNodeByPosition] at hnew
      rw [hnew] at this
      cases this
    subst hk
    rw [Function.update_self, Option.some_inj]
    constructor
    · rintro rfl
      rw [Function.update_self]
      exact ⟨.inr rfl, rfl⟩
    · rintro ⟨hi | rfl, he⟩
      · rw [Function.update_of_ne hi.ne] at he
        exact absurd he (hnone i hi)
      · rfl
  · rw [Function.update_of_ne hk, h.table]
    by_cases hi : i = s.curNode
    · subst hi
      rw [Function.update_self]
      exact ⟨fun h' => absurd h'.1 (lt_irrefl _), fun h' => absurd h'.2.symm hk⟩
    · rw [Function.update_of_ne hi]
      exact and_congr_left fun _ => (or_iff_left hi).symm

end Wf

theorem wf_new (x y : UInt16) : (new x y).Wf where
  pos := Nat.one_pos
  le := show 1 ≤ maxNodes by decide
  table k i := by
    rw [new]
    dsimp only
    by_cases hk : k = key x y
    · subst hk
      rw [Function.update_self, Option.some_inj, Nat.lt_one_iff]
      constructor
      · rintro rfl
        exact ⟨rfl, by rw [Function.update_self]⟩
      · exact fun h => h.1.symm
    · rw [Function.update_of_ne hk]
      refine ⟨nofun, fun ⟨hi, he⟩ => absurd he.symm ?_⟩
      rw [Nat.lt_one_iff.1 hi, Function.update_self]
      exact hk

/-! ## Pools that become less -/

/-- How many nodes can be added, what the nodes cost, and how many are open. -/
def measure (s : AStarNodes) : ℕ ×ₗ ℕ ×ₗ ℕ :=
  toLex (maxNodes - s.curNode, toLex (∑ i ∈ Finset.range s.curNode, (s.nodes i).f.toNat,
    ((Finset.range s.curNode).filter fun i => s.openNodes i = true).card))

theorem measure_createOpenNode {parent : ℕ} {x y : UInt16} {f : ℤ} {s' : AStarNodes}
    (h : s.createOpenNode parent x y f = some s') : s'.measure < s.measure := by
  rw [createOpenNode] at h
  split_ifs at h with hle
  obtain rfl := Option.some.inj h
  refine Prod.Lex.toLex_lt_toLex.2 (.inl ?_)
  dsimp only
  omega

theorem measure_reach {i n : ℕ} {newf : ℤ} (hi : i < s.curNode) (hnonneg : 0 ≤ newf)
    (hlt : newf < (s.nodes i).f) : (s.reach i n newf).measure < s.measure := by
  refine Prod.Lex.toLex_lt_toLex.2 (.inr ⟨?_, Prod.Lex.toLex_lt_toLex.2 (.inl ?_)⟩)
  · rw [reach_curNode]
  · rw [reach_curNode, reach_nodes]
    refine Finset.sum_lt_sum (fun j _ => ?_) ⟨i, Finset.mem_range.2 hi, ?_⟩
    · by_cases hj : j = i
      · subst hj
        rw [Function.update_self]
        exact Int.toNat_le_toNat hlt.le
      · rw [Function.update_of_ne hj]
    · rw [Function.update_self]
      dsimp only
      omega

theorem measure_closeNode {i : ℕ} (hi : i < s.curNode) (hopen : s.openNodes i = true) :
    (s.closeNode i).measure < s.measure := by
  have hcard : ((Finset.range s.curNode).filter fun j => (s.closeNode i).openNodes j = true).card <
      ((Finset.range s.curNode).filter fun j => s.openNodes j = true).card := by
    refine Finset.card_lt_card ((Finset.ssubset_iff_of_subset ?_).2 ⟨i, ?_, ?_⟩)
    · intro j hj
      obtain ⟨hlt, hj⟩ := Finset.mem_filter.1 hj
      refine Finset.mem_filter.2 ⟨hlt, ?_⟩
      by_cases hji : j = i
      · rw [hji]
        exact hopen
      · rwa [closeNode_openNodes, Function.update_of_ne hji] at hj
    · exact Finset.mem_filter.2 ⟨Finset.mem_range.2 hi, hopen⟩
    · intro h
      have := (Finset.mem_filter.1 h).2
      rw [closeNode_openNodes, Function.update_self] at this
      cases this
  exact Prod.Lex.toLex_lt_toLex.2 (.inr ⟨rfl, Prod.Lex.toLex_lt_toLex.2 (.inr ⟨rfl, hcard⟩)⟩)

end AStarNodes

end Canary.Map
