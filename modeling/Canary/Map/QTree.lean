import Canary.Lib.Trie
import Canary.Map.Spectators
import Mathlib

/-!
# The quad tree of the map

The leaves of the map, blocks of 8 × 8 squares, are in a tree: each level takes the top bits of
the coordinates, which are shifted out on the way down. A leaf is made when it is first asked
for (`getBestLeaf`), and linked with the leaves around it: each leaf knows the next one to the
east and to the south. `Spectators::find` walks along these links (`leafWalk`), and looks up the
leaf anew behind a gap.

There is one leaf for each block that was asked for, and the walk meets the leaves of the blocks
of a rectangle, once each (`Inv`). The links wrap at the border, as the coordinates do: a leaf on
the last row is linked with the one on the first row (`correct_iff`). The walk ends before such
a link.
-/

namespace Canary.Map

def FLOOR_BITS : ℕ := 3

/-- The address of a leaf. -/
abbrev LeafId := ℕ

/-- A node of the tree, or a null pointer. -/
abbrev QTreeNode := Trie (Fin 4) LeafId

namespace QTreeNode

/-- The child for the top bits of the coordinates. -/
def index (x y : UInt32) : Fin 4 :=
  Fin.ofNat 4 (((x &&& 0x8000) >>> 15) ||| ((y &&& 0x8000) >>> 14)).toNat

def getLeaf : QTreeNode → UInt32 → UInt32 → Option LeafId
  | .null, _, _ => none
  | .leaf id, _, _ => some id
  | .node child, x, y => getLeaf (child (index x y)) (x <<< 1) (y <<< 1)

/-- The loop begins below the node: a leaf has no children. -/
def getLeafStatic : QTreeNode → UInt32 → UInt32 → Option LeafId
  | .null, _, _ => none
  | .leaf _, _, _ => none
  | .node child, x, y =>
    match child (index x y) with
    | .null => none
    | .leaf id => some id
    | .node _ => getLeafStatic (child (index x y)) (x <<< 1) (y <<< 1)

/-- The tree with the leaf, the leaf, and whether it is the new one (`newLeaf`). A leaf is made
    on the level `FLOOR_BITS`; there is no end below it. -/
def createLeaf (new : LeafId) :
    ℕ → QTreeNode → UInt32 → UInt32 → Option (QTreeNode × LeafId × Bool)
  | _, .leaf id, _, _ => some (.leaf id, id, false)
  | _, .null, _, _ => none
  | 0, .node _, _, _ => none
  | level + 1, .node child, x, y =>
    let (next, made) :=
      match child (index x y) with
      | .null =>
        if level + 1 ≠ FLOOR_BITS then (Trie.node fun _ => Trie.null, false)
        else (Trie.leaf new, true)
      | c => (c, false)
    (createLeaf new level next (x * 2) (y * 2)).map fun (c, id, newLeaf) =>
      (.node (Function.update child (index x y) c), id, made || newLeaf)

end QTreeNode

open QTreeNode

/-- Set the link of a leaf, unless it or the next one is missing. -/
def setLink (links : LeafId → Option LeafId) :
    Option LeafId → Option LeafId → LeafId → Option LeafId
  | some leaf, some next => Function.update links leaf (some next)
  | _, _ => links

/-- The tree of the map, with the links of its leaves. -/
structure QTree where
  root : QTreeNode
  leafS : LeafId → Option LeafId
  leafE : LeafId → Option LeafId
  /-- The leaves made so far. -/
  created : ℕ

namespace QTree

def empty : QTree := ⟨.node fun _ => .null, fun _ => none, fun _ => none, 0⟩

/-- Link a new leaf with the leaves around it. -/
def link (s : QTree) (tempLeaf : LeafId) (x y : UInt32) : QTree :=
  let floorSize := UInt32.ofNat FLOOR_SIZE
  -- update north
  let s := { s with leafS := setLink s.leafS (getLeaf s.root x (y - floorSize)) (some tempLeaf) }
  -- update west leaf
  let s := { s with leafE := setLink s.leafE (getLeaf s.root (x - floorSize) y) (some tempLeaf) }
  -- update south
  let s := { s with leafS := setLink s.leafS (some tempLeaf) (getLeaf s.root x (y + floorSize)) }
  -- update east
  { s with leafE := setLink s.leafE (some tempLeaf) (getLeaf s.root (x + floorSize) y) }

def getBestLeaf (s : QTree) (x y : UInt32) (level : ℕ) : Option (QTree × LeafId) :=
  (createLeaf s.created level s.root x y).map fun (root, tempLeaf, newLeaf) =>
    if newLeaf then
      (link { s with root := root, created := s.created + 1 } tempLeaf x y, tempLeaf)
    else ({ s with root := root }, tempLeaf)

/-- `Map::getQTNode` -/
def getQTNode (s : QTree) (x y : UInt16) : Option LeafId :=
  getLeafStatic s.root x.toUInt32 y.toUInt32

/-- The calls of `getBestLeaf`, as `Map::setTile` makes them. -/
def run (calls : List (UInt16 × UInt16)) : Option QTree :=
  calls.foldlM (fun s c => (getBestLeaf s c.1.toUInt32 c.2.toUInt32 15).map Prod.fst) empty

/-! ## The walk -/

/-- The leaves met on a row, from `leafE` on. -/
def walkRow (s : QTree) (ny : ℕ) : List ℕ → Option LeafId → List LeafId
  | [], _ => []
  | _ :: l, some leafE => leafE :: walkRow s ny l (s.leafE leafE)
  | nx :: l, none =>
    walkRow s ny l (s.getQTNode (UInt16.ofNat (nx + FLOOR_SIZE)) (UInt16.ofNat ny))

/-- The rows, from `leafS` on, the first leaf of a row. -/
def walkRows (s : QTree) (startx1 : ℕ) (nxs : List ℕ) : List ℕ → Option LeafId → List LeafId
  | [], _ => []
  | ny :: l, leafS =>
    walkRow s ny nxs leafS ++ walkRows s startx1 nxs l
      (match leafS with
      | some leaf => s.leafS leaf
      | none => s.getQTNode (UInt16.ofNat startx1) (UInt16.ofNat (ny + FLOOR_SIZE)))

/-- The leaves that `Spectators::find` walks along, for a rectangle on the map. -/
def leafWalk (s : QTree) (x1 y1 x2 y2 : ℕ) : List LeafId :=
  let startx1 := x1 - x1 % FLOOR_SIZE
  let starty1 := y1 - y1 % FLOOR_SIZE
  walkRows s startx1 (Spectators.blocks x1 x2) (Spectators.blocks y1 y2)
    (s.getQTNode (UInt16.ofNat startx1) (UInt16.ofNat starty1))

end QTree

/-! ## Paths -/

namespace QTreeNode

/-- The children on the way down. -/
def path : ℕ → UInt32 → UInt32 → List (Fin 4)
  | 0, _, _ => []
  | n + 1, x, y => index x y :: path n (x <<< 1) (y <<< 1)

theorem length_path (n : ℕ) (x y : UInt32) : (path n x y).length = n := by
  induction n generalizing x y with
  | zero => rfl
  | succ n ih => rw [path, List.length_cons, ih]

theorem getLeaf_eq_get {n : ℕ} {t : QTreeNode} (ht : t.Uniform n) (x y : UInt32) :
    getLeaf t x y = t.get (path n x y) := by
  induction ht generalizing x y with
  | null n => rfl
  | leaf id => rfl
  | node _ ih => exact ih _ _ _

theorem getLeafStatic_eq_getLeaf {n : ℕ} {child : Fin 4 → QTreeNode}
    (ht : Trie.Uniform n (.node child)) (x y : UInt32) :
    getLeafStatic (.node child) x y = getLeaf (.node child) x y := by
  induction n generalizing child x y with
  | zero => cases ht
  | succ n ih =>
    cases ht with
    | node h =>
      have hc := h (index x y)
      rw [getLeafStatic, getLeaf]
      cases hchild : child (index x y) with
      | null => rfl
      | leaf id => rfl
      | node child' =>
        rw [hchild] at hc
        exact ih hc _ _

theorem mul_two_eq (x : UInt32) : x * (2 : UInt32) = x <<< (1 : UInt32) := by
  rw [← UInt32.toNat_inj, UInt32.toNat_mul, UInt32.toNat_shiftLeft]
  simp [Nat.shiftLeft_eq]

/-- What `createLeaf` goes on with for a child that is missing. -/
theorem get_made (new : LeafId) {n : ℕ} {p : List (Fin 4)} (hp : p.length = n + 1) :
    (Trie.node fun _ => .null : QTreeNode).get p = none ∧
      (Trie.node fun _ => .null : QTreeNode).add new p = Trie.null.add new p := by
  cases p with
  | nil => cases hp
  | cons i p => exact ⟨rfl, rfl⟩

/-- A leaf is found at the end of the path, or made there. -/
theorem createLeaf_eq {n : ℕ} {t : QTreeNode} (ht : t.Uniform n) (hnull : t ≠ .null)
    (x y : UInt32) (new : LeafId) :
    createLeaf new (n + 2) t x y = some (t.add new (path n x y),
      (t.get (path n x y)).getD new, (t.get (path n x y)).isNone) := by
  induction n generalizing t x y with
  | zero =>
    cases ht with
    | null => exact absurd rfl hnull
    | leaf id => rfl
  | succ n ih =>
    cases ht with
    | null => exact absurd rfl hnull
    | @node _ child h =>
      have hc := h (index x y)
      have hstep : ∀ next : QTreeNode, next.Uniform n → next ≠ .null →
          next.get (path n (x <<< 1) (y <<< 1)) =
            (child (index x y)).get (path n (x <<< 1) (y <<< 1)) →
          next.add new (path n (x <<< 1) (y <<< 1)) =
            (child (index x y)).add new (path n (x <<< 1) (y <<< 1)) →
          (createLeaf new (n + 2) next (x * 2) (y * 2)).map (fun (c, id, newLeaf) =>
            (Trie.node (Function.update child (index x y) c), id, newLeaf)) =
          some ((Trie.node child).add new (path (n + 1) x y),
            ((Trie.node child).get (path (n + 1) x y)).getD new,
            ((Trie.node child).get (path (n + 1) x y)).isNone) := by
        intro next hnext hne hget hadd
        rw [mul_two_eq, mul_two_eq, ih hnext hne, hget, hadd]
        rfl
      cases hchild : child (index x y) with
      | leaf id =>
        rw [createLeaf]
        simp only [hchild, Bool.false_or]
        exact hstep (.leaf id) (hchild ▸ hc) (by intro h; cases h) (by rw [hchild]) (by rw [hchild])
      | node child' =>
        rw [createLeaf]
        simp only [hchild, Bool.false_or]
        exact hstep (.node child') (hchild ▸ hc) (by intro h; cases h) (by rw [hchild])
          (by rw [hchild])
      | null =>
        cases n with
        | zero =>
          -- The level is `FLOOR_BITS`: the child is the new leaf.
          simp [createLeaf, hchild, FLOOR_BITS, path, Trie.add, Trie.get]
        | succ n =>
          have hlevel : n + 1 + 2 + 1 ≠ FLOOR_BITS := by rw [FLOOR_BITS]; omega
          have hmade := get_made new (length_path (n + 1) (x <<< 1) (y <<< 1))
          rw [createLeaf]
          simp only [hchild, if_pos hlevel, Bool.false_or]
          exact hstep (.node fun _ => .null) (.node fun _ => .null _) (by intro h; cases h)
            (by rw [hchild, hmade.1]; rfl)
            (by rw [hchild, hmade.2])

/-! ## Blocks -/

/-- The number of the block of a coordinate, of which the low 16 bits count. -/
def block (x : UInt32) : ℕ := x.toNat % 2 ^ 16 / FLOOR_SIZE

theorem and_top_bit (m : ℕ) : m &&& 2 ^ 15 = m / 2 ^ 15 % 2 * 2 ^ 15 := by
  rw [Nat.and_two_pow, Nat.testBit_eq_decide_div_mod_eq]
  rcases Nat.mod_two_eq_zero_or_one (m / 2 ^ 15) with h | h <;> rw [h] <;> rfl

theorem index_val (x y : UInt32) :
    (index x y).val = x.toNat / 2 ^ 15 % 2 + 2 * (y.toNat / 2 ^ 15 % 2) := by
  have hx : (x &&& 0x8000).toNat = x.toNat / 2 ^ 15 % 2 * 2 ^ 15 := and_top_bit _
  have hy : (y &&& 0x8000).toNat = y.toNat / 2 ^ 15 % 2 * 2 ^ 15 := and_top_bit _
  simp only [index, Fin.ofNat, UInt32.toNat_or, UInt32.toNat_shiftRight, hx, hy]
  rcases Nat.mod_two_eq_zero_or_one (x.toNat / 2 ^ 15) with h | h <;>
    rcases Nat.mod_two_eq_zero_or_one (y.toNat / 2 ^ 15) with h' | h' <;> rw [h, h'] <;> rfl

theorem index_eq_iff {x y x' y' : UInt32} : index x y = index x' y' ↔
    x.toNat / 2 ^ 15 % 2 = x'.toNat / 2 ^ 15 % 2 ∧
      y.toNat / 2 ^ 15 % 2 = y'.toNat / 2 ^ 15 % 2 := by
  rw [← Fin.val_inj, index_val, index_val]
  omega

/-- The top `n` bits of a coordinate, of 16. -/
def topBits (n : ℕ) (x : UInt32) : ℕ := x.toNat % 2 ^ 16 / 2 ^ (16 - n)

theorem topBits_lt {n : ℕ} (hn : n ≤ 16) (x : UInt32) : topBits n x < 2 ^ n := by
  rw [topBits, Nat.div_lt_iff_lt_mul (Nat.two_pow_pos _), ← Nat.pow_add, Nat.add_sub_cancel' hn]
  exact Nat.mod_lt _ (Nat.two_pow_pos _)

theorem topBits_succ {n : ℕ} (hn : n ≤ 15) (x : UInt32) :
    topBits (n + 1) x = 2 ^ n * (x.toNat / 2 ^ 15 % 2) + topBits n (x <<< 1) := by
  have hshift : (x <<< 1).toNat % 2 ^ 16 = 2 * (x.toNat % 2 ^ 15) := by
    have h : (x <<< 1).toNat = x.toNat * 2 % 2 ^ 32 := by
      rw [UInt32.toNat_shiftLeft, Nat.shiftLeft_eq]
      rfl
    rw [h]
    omega
  have hpow : 2 ^ (16 - n) = 2 * 2 ^ (15 - n) := by
    rw [← Nat.pow_succ', Nat.succ_eq_add_one, show 15 - n + 1 = 16 - n by omega]
  have hsplit : x.toNat % 2 ^ 16 = 2 ^ (15 - n) * (2 ^ n * (x.toNat / 2 ^ 15 % 2)) +
      x.toNat % 2 ^ 15 := by
    rw [← Nat.mul_assoc, ← Nat.pow_add, show 15 - n + n = 15 by omega]
    omega
  rw [topBits, topBits, hshift, hpow, Nat.mul_div_mul_left _ _ Nat.two_pos, hsplit,
    show 16 - (n + 1) = 15 - n by omega, Nat.mul_add_div (Nat.two_pow_pos _)]

/-- A bit in front of the others. -/
theorem two_pow_mul_add_inj {n a b c d : ℕ} (hb : b < 2 ^ n) (hd : d < 2 ^ n) :
    2 ^ n * a + b = 2 ^ n * c + d ↔ a = c ∧ b = d := by
  constructor
  · intro h
    have h₁ := congrArg (· / 2 ^ n) h
    have h₂ := congrArg (· % 2 ^ n) h
    simp only [Nat.mul_add_div (Nat.two_pow_pos n), Nat.div_eq_of_lt hb, Nat.div_eq_of_lt hd,
      Nat.mul_add_mod, Nat.mod_eq_of_lt hb, Nat.mod_eq_of_lt hd] at h₁ h₂
    exact ⟨h₁, h₂⟩
  · rintro ⟨rfl, rfl⟩
    rfl

theorem path_eq_iff {n : ℕ} (hn : n ≤ 16) {x y x' y' : UInt32} :
    path n x y = path n x' y' ↔ topBits n x = topBits n x' ∧ topBits n y = topBits n y' := by
  induction n generalizing x y x' y' with
  | zero =>
    have h (x : UInt32) : topBits 0 x = 0 := Nat.lt_one_iff.1 (topBits_lt (Nat.zero_le 16) x)
    simp only [path, h, and_self]
  | succ n ih =>
    have hlt := topBits_lt (n := n) (by omega)
    rw [path, path, List.cons.injEq, index_eq_iff, ih (by omega), topBits_succ (by omega),
      topBits_succ (by omega), topBits_succ (by omega), topBits_succ (by omega),
      two_pow_mul_add_inj (hlt _) (hlt _), two_pow_mul_add_inj (hlt _) (hlt _)]
    tauto

/-- The same path leads to all squares of a block, and to no others. -/
theorem path_eq_iff_block {x y x' y' : UInt32} :
    path 13 x y = path 13 x' y' ↔ block x = block x' ∧ block y = block y' :=
  path_eq_iff (by omega)

theorem block_lt (x : UInt32) : block x < 8192 := topBits_lt (n := 13) (by omega) x

/-- So many blocks on, with no end at the border. -/
theorem block_add {d : UInt32} {k : ℕ} (hd : d.toNat = k * FLOOR_SIZE) (x : UInt32) :
    block (x + d) = (block x + k) % 8192 := by
  rw [block, block, UInt32.toNat_add, hd, FLOOR_SIZE]
  omega

theorem getLeaf_congr {t : QTreeNode} (ht : t.Uniform 13) {x y x' y' : UInt32}
    (hx : block x = block x') (hy : block y = block y') : getLeaf t x y = getLeaf t x' y' := by
  rw [getLeaf_eq_get ht, getLeaf_eq_get ht, path_eq_iff_block.2 ⟨hx, hy⟩]

theorem getLeaf_add {t : QTreeNode} (ht : t.Uniform 13) (new : LeafId) (x y x' y' : UInt32) :
    getLeaf (t.add new (path 13 x y)) x' y' =
      if block x = block x' ∧ block y = block y' then some ((getLeaf t x y).getD new)
      else getLeaf t x' y' := by
  have hlen := length_path 13
  rw [getLeaf_eq_get (ht.add (hlen x y)), Trie.get_add ht (hlen x y) (hlen x' y'),
    getLeaf_eq_get ht, getLeaf_eq_get ht]
  simp only [path_eq_iff_block]

/-! ## Links -/

/-- No two blocks share a leaf. -/
def Separate (t : QTreeNode) : Prop :=
  ∀ x y x' y' id, getLeaf t x y = some id → getLeaf t x' y' = some id →
    block x = block x' ∧ block y = block y'

/-- The leaves are linked with those at a distance. -/
def Linked (t : QTreeNode) (next : LeafId → Option LeafId) (dx dy : UInt32) : Prop :=
  ∀ x y id, getLeaf t x y = some id → next id = getLeaf t (x + dx) (y + dy)

/-- What `link` does to the links in one direction, for the leaves before and after the new
    one. -/
def relink (links : LeafId → Option LeafId) (before after : Option LeafId) (new : LeafId) :
    LeafId → Option LeafId :=
  setLink (setLink links before (some new)) (some new) after

theorem relink_new {links : LeafId → Option LeafId} {before after : Option LeafId} {new : LeafId}
    (hbefore : before ≠ some new) (hnew : links new = none) :
    relink links before after new new = after := by
  cases after with
  | some id => exact Function.update_self ..
  | none =>
    cases before with
    | none => exact hnew
    | some id =>
      have hne : new ≠ id := fun h => hbefore (congrArg some h.symm)
      exact (Function.update_of_ne hne ..).trans hnew

theorem relink_of_ne {links : LeafId → Option LeafId} {before after : Option LeafId}
    {new id : LeafId} (hid : id ≠ new) :
    relink links before after new id = if before = some id then some new else links id := by
  have h : relink links before after new id = setLink links before (some new) id := by
    cases after with
    | some id' => exact Function.update_of_ne hid ..
    | none => rfl
  rw [h]
  cases before with
  | none => rfl
  | some id' =>
    rw [setLink, Function.update_apply]
    simp only [Option.some.injEq, eq_comm]

/-- The links are right again once the new leaf is linked with those before and after it. -/
theorem Linked.relink {t : QTreeNode} (ht : t.Uniform 13) (hsep : Separate t)
    {next : LeafId → Option LeafId} {dx dy : UInt32} (h : Linked t next dx dy)
    {i j : ℕ} (hdx : dx.toNat = i * FLOOR_SIZE) (hdy : dy.toNat = j * FLOOR_SIZE)
    (hij : (i = 0 ∧ j = 1) ∨ (i = 1 ∧ j = 0)) {new : LeafId} (hnew : next new = none)
    (hunused : ∀ x y, getLeaf t x y ≠ some new) {x y : UInt32} (hxy : getLeaf t x y = none) :
    Linked (t.add new (path 13 x y))
      (QTreeNode.relink next (getLeaf (t.add new (path 13 x y)) (x - dx) (y - dy))
        (getLeaf (t.add new (path 13 x y)) (x + dx) (y + dy)) new) dx dy := by
  intro x' y' id hid
  have hadd (u v : UInt32) : getLeaf (t.add new (path 13 x y)) u v =
      if block x = block u ∧ block y = block v then some new else getLeaf t u v := by
    rw [getLeaf_add ht, hxy, Option.getD_none]
  have hx (u : UInt32) := block_add hdx u
  have hy (v : UInt32) := block_add hdy v
  have hback : block x = (block (x - dx) + i) % 8192 ∧ block y = (block (y - dy) + j) % 8192 := by
    rw [← hx, ← hy, UInt32.sub_add_cancel, UInt32.sub_add_cancel]
    exact ⟨rfl, rfl⟩
  have hapart : ¬ (block x = block (x - dx) ∧ block y = block (y - dy)) := by
    have := block_lt (x - dx)
    have := block_lt (y - dy)
    omega
  rw [hadd] at hid
  split at hid
  · next hsame =>
    -- The new leaf.
    obtain rfl := Option.some.inj hid
    rw [relink_new (by rw [hadd, if_neg hapart]; exact hunused _ _) hnew]
    exact getLeaf_congr (ht.add (length_path 13 x y)) (by rw [hx, hx, hsame.1])
      (by rw [hy, hy, hsame.2])
  · next hother =>
    -- A leaf that was there: the next one is the new one, or what it was.
    have hne : id ≠ new := fun h => hunused x' y' (h ▸ hid)
    have hbefore : getLeaf (t.add new (path 13 x y)) (x - dx) (y - dy) = some id ↔
        block x = block (x' + dx) ∧ block y = block (y' + dy) := by
      rw [hadd, if_neg hapart, hx, hy]
      constructor
      · intro h
        obtain ⟨h₁, h₂⟩ := hsep _ _ _ _ _ h hid
        rw [← h₁, ← h₂]
        exact hback
      · rintro ⟨h₁, h₂⟩
        rw [← hid]
        have := block_lt x'
        have := block_lt y'
        have := block_lt (x - dx)
        have := block_lt (y - dy)
        exact getLeaf_congr ht (by omega) (by omega)
    rw [relink_of_ne hne, hadd (x' + dx) (y' + dy)]
    exact if_congr hbefore rfl (h x' y' id hid)

end QTreeNode

/-! ## The tree of a run -/

namespace QTree

theorem leafS_link (s : QTree) (tempLeaf : LeafId) (x y : UInt32) :
    (s.link tempLeaf x y).leafS = relink s.leafS (getLeaf s.root (x - 0) (y - 8))
      (getLeaf s.root (x + 0) (y + 8)) tempLeaf := by
  rw [UInt32.sub_zero, UInt32.add_zero]
  rfl

theorem leafE_link (s : QTree) (tempLeaf : LeafId) (x y : UInt32) :
    (s.link tempLeaf x y).leafE = relink s.leafE (getLeaf s.root (x - 8) (y - 0))
      (getLeaf s.root (x + 8) (y + 0)) tempLeaf := by
  rw [UInt32.sub_zero, UInt32.add_zero]
  rfl

/-- What holds of the tree after the calls. -/
structure Inv (s : QTree) (calls : List (UInt16 × UInt16)) : Prop where
  root : ∃ child, s.root = .node child
  uniform : s.root.Uniform 13
  lt_created : ∀ x y id, getLeaf s.root x y = some id → id < s.created
  separate : Separate s.root
  isSome_iff : ∀ x y, (getLeaf s.root x y).isSome ↔
    ∃ c ∈ calls, block c.1.toUInt32 = block x ∧ block c.2.toUInt32 = block y
  leafS : Linked s.root s.leafS 0 8
  leafE : Linked s.root s.leafE 8 0
  unlinked : ∀ id, s.created ≤ id → s.leafS id = none ∧ s.leafE id = none

theorem inv_empty : Inv empty [] where
  root := ⟨_, rfl⟩
  uniform := .node fun _ => .null _
  lt_created _ _ _ := nofun
  separate _ _ _ _ _ := nofun
  isSome_iff _ _ := ⟨nofun, fun ⟨_, h, _⟩ => absurd h List.not_mem_nil⟩
  leafS _ _ _ := nofun
  leafE _ _ _ := nofun
  unlinked _ _ := ⟨rfl, rfl⟩

section

variable {s : QTree} {calls : List (UInt16 × UInt16)}

/-- A leaf is added to a tree without one there. -/
theorem Inv.link (h : Inv s calls) (c : UInt16 × UInt16)
    (hnone : getLeaf s.root c.1.toUInt32 c.2.toUInt32 = none) :
    Inv (QTree.link
      { s with
        root := s.root.add s.created (path 13 c.1.toUInt32 c.2.toUInt32)
        created := s.created + 1 }
      s.created c.1.toUInt32 c.2.toUInt32) (calls ++ [c]) := by
  -- The new leaf answers for its own block only.
  have hadd (x y : UInt32) :
      getLeaf (s.root.add s.created (path 13 c.1.toUInt32 c.2.toUInt32)) x y =
        if block c.1.toUInt32 = block x ∧ block c.2.toUInt32 = block y then some s.created
        else getLeaf s.root x y := by
    rw [getLeaf_add h.uniform, hnone, Option.getD_none]
  have hunused (x y : UInt32) : getLeaf s.root x y ≠ some s.created := fun hid =>
    Nat.lt_irrefl _ (h.lt_created x y _ hid)
  have hnew := h.unlinked s.created (Nat.le_refl _)
  have hlt (x y : UInt32) (id : LeafId)
      (hid : getLeaf (s.root.add s.created (path 13 c.1.toUInt32 c.2.toUInt32)) x y = some id) :
      id < s.created + 1 := by
    rw [hadd] at hid
    split at hid
    · exact Nat.lt_succ_of_le (Nat.le_of_eq (Option.some.inj hid).symm)
    · exact Nat.lt_succ_of_lt (h.lt_created x y id hid)
  have hunlinked {links : LeafId → Option LeafId} {x y : UInt32} {after : Option LeafId}
      {id : LeafId} (hid : s.created + 1 ≤ id) (hlinks : links id = none) :
      relink links (getLeaf (s.root.add s.created (path 13 c.1.toUInt32 c.2.toUInt32)) x y)
        after s.created id = none := by
    rw [relink_of_ne (Nat.ne_of_gt hid), if_neg, hlinks]
    exact fun hbefore => absurd (hlt x y id hbefore) (Nat.not_lt.2 hid)
  constructor
  case root =>
    obtain ⟨child, hroot⟩ := h.root
    exact ⟨_, by rw [QTree.link, hroot]; rfl⟩
  case uniform => exact h.uniform.add (length_path 13 _ _)
  case lt_created => exact hlt
  case separate =>
    intro x y x' y' id hid hid'
    change getLeaf (s.root.add s.created (path 13 c.1.toUInt32 c.2.toUInt32)) _ _ = _ at hid hid'
    rw [hadd] at hid hid'
    -- Two squares share the new leaf, an old one, or one of each, which cannot be.
    split at hid <;> split at hid'
    · next h₁ h₂ => exact ⟨h₁.1.symm.trans h₂.1, h₁.2.symm.trans h₂.2⟩
    · exact absurd (hid'.trans hid.symm) (hunused x' y')
    · exact absurd (hid.trans hid'.symm) (hunused x y)
    · exact h.separate x y x' y' id hid hid'
  case isSome_iff =>
    intro x y
    change (getLeaf (s.root.add s.created (path 13 c.1.toUInt32 c.2.toUInt32)) x y).isSome ↔ _
    rw [hadd]
    simp only [List.mem_append, List.mem_singleton, or_and_right, exists_or, exists_eq_left,
      ← h.isSome_iff]
    split
    · next hc => exact ⟨fun _ => .inr hc, fun _ => rfl⟩
    · next hc => exact ⟨.inl, fun hor => hor.resolve_right hc⟩
  case leafS =>
    rw [leafS_link]
    exact h.leafS.relink h.uniform h.separate (i := 0) (j := 1) rfl rfl (.inl ⟨rfl, rfl⟩) hnew.1
      hunused hnone
  case leafE =>
    rw [leafE_link]
    exact h.leafE.relink h.uniform h.separate (i := 1) (j := 0) rfl rfl (.inr ⟨rfl, rfl⟩) hnew.2
      hunused hnone
  case unlinked =>
    intro id hid
    rw [leafS_link, leafE_link]
    have hold := h.unlinked id (Nat.le_of_succ_le hid)
    exact ⟨hunlinked hid hold.1, hunlinked hid hold.2⟩

/-- The way to a leaf that there is stays as it was. -/
theorem Inv.find (h : Inv s calls) (c : UInt16 × UInt16) {id : LeafId}
    (hsome : getLeaf s.root c.1.toUInt32 c.2.toUInt32 = some id) :
    Inv { s with root := s.root.add s.created (path 13 c.1.toUInt32 c.2.toUInt32) }
      (calls ++ [c]) := by
  have hadd (x y : UInt32) :
      getLeaf (s.root.add s.created (path 13 c.1.toUInt32 c.2.toUInt32)) x y =
        getLeaf s.root x y := by
    rw [getLeaf_add h.uniform, hsome, Option.getD_some]
    split
    · next hc => rw [← hsome, getLeaf_congr h.uniform hc.1 hc.2]
    · rfl
  constructor
  case root =>
    obtain ⟨child, hroot⟩ := h.root
    exact ⟨_, by rw [hroot]; rfl⟩
  case uniform => exact h.uniform.add (length_path 13 _ _)
  case lt_created => simpa only [hadd] using h.lt_created
  case separate => simpa only [Separate, hadd] using h.separate
  case isSome_iff =>
    intro x y
    simp only [List.mem_append, List.mem_singleton, or_and_right, exists_or, exists_eq_left,
      ← h.isSome_iff, hadd]
    refine ⟨.inl, fun hor => hor.elim (fun hold => hold) fun hc => ?_⟩
    rw [← getLeaf_congr h.uniform hc.1 hc.2, hsome]
    rfl
  case leafS => simpa only [Linked, hadd] using h.leafS
  case leafE => simpa only [Linked, hadd] using h.leafE
  case unlinked => exact h.unlinked

/-- A call finds the leaf of its block, or makes it. -/
theorem Inv.getBestLeaf (h : Inv s calls) (c : UInt16 × UInt16) :
    ∃ s' id, s.getBestLeaf c.1.toUInt32 c.2.toUInt32 15 = some (s', id) ∧
      Inv s' (calls ++ [c]) ∧ getLeaf s'.root c.1.toUInt32 c.2.toUInt32 = some id := by
  have hnull : s.root ≠ .null := by
    obtain ⟨child, hroot⟩ := h.root
    exact hroot ▸ nofun
  have hcreate := createLeaf_eq h.uniform hnull c.1.toUInt32 c.2.toUInt32 s.created
  have hadd := getLeaf_add h.uniform s.created c.1.toUInt32 c.2.toUInt32 c.1.toUInt32 c.2.toUInt32
  rw [← getLeaf_eq_get h.uniform] at hcreate
  rw [if_pos ⟨rfl, rfl⟩] at hadd
  rw [QTree.getBestLeaf, hcreate]
  cases hleaf : getLeaf s.root c.1.toUInt32 c.2.toUInt32 with
  | some id =>
    rw [hleaf] at hadd
    exact ⟨_, _, rfl, h.find c hleaf, hadd⟩
  | none =>
    rw [hleaf] at hadd
    exact ⟨_, _, rfl, h.link c hleaf, hadd⟩

theorem Inv.run (h : Inv s calls) (l : List (UInt16 × UInt16)) :
    ∃ s', l.foldlM (fun s c => (s.getBestLeaf c.1.toUInt32 c.2.toUInt32 15).map Prod.fst) s =
      some s' ∧ Inv s' (calls ++ l) := by
  induction l generalizing s calls with
  | nil => exact ⟨s, rfl, by rwa [List.append_nil]⟩
  | cons c l ih =>
    obtain ⟨s₁, id, hs₁, hinv, -⟩ := h.getBestLeaf c
    obtain ⟨s', hs', hinv'⟩ := ih hinv
    refine ⟨s', ?_, by rwa [List.append_cons]⟩
    rw [List.foldlM_cons, hs₁]
    exact hs'

/-! ## The walk meets the leaves of its rectangle -/

theorem block_ofNat (u : ℕ) : block (UInt16.ofNat u).toUInt32 = u % 65536 / 8 := by
  rw [block, FLOOR_SIZE, UInt16.toNat_toUInt32, UInt16.toNat_ofNat']
  omega

theorem Inv.getQTNode (h : Inv s calls) (x y : UInt16) :
    s.getQTNode x y = getLeaf s.root x.toUInt32 y.toUInt32 := by
  obtain ⟨child, hroot⟩ := h.root
  have huniform := h.uniform
  rw [QTree.getQTNode]
  rw [hroot] at huniform ⊢
  exact getLeafStatic_eq_getLeaf huniform _ _

/-- The link of a leaf is what a look-up of the next block gives. -/
theorem Inv.leafE_eq (h : Inv s calls) {u v : ℕ} {id : LeafId}
    (hid : s.getQTNode (UInt16.ofNat u) (UInt16.ofNat v) = some id) :
    s.leafE id = s.getQTNode (UInt16.ofNat (u + FLOOR_SIZE)) (UInt16.ofNat v) := by
  rw [h.getQTNode] at hid ⊢
  rw [h.leafE _ _ _ hid]
  refine getLeaf_congr h.uniform ?_ (by rw [UInt32.add_zero])
  rw [block_add (k := 1) rfl, block_ofNat, block_ofNat, FLOOR_SIZE]
  omega

theorem Inv.leafS_eq (h : Inv s calls) {u v : ℕ} {id : LeafId}
    (hid : s.getQTNode (UInt16.ofNat u) (UInt16.ofNat v) = some id) :
    s.leafS id = s.getQTNode (UInt16.ofNat u) (UInt16.ofNat (v + FLOOR_SIZE)) := by
  rw [h.getQTNode] at hid ⊢
  rw [h.leafS _ _ _ hid]
  refine getLeaf_congr h.uniform (by rw [UInt32.add_zero]) ?_
  rw [block_add (k := 1) rfl, block_ofNat, block_ofNat, FLOOR_SIZE]
  omega

/-- The starts of blocks, one after the other. -/
theorem starts_succ (start k : ℕ) :
    ((List.range (k + 1)).map fun i => start + FLOOR_SIZE * i) =
      start :: (List.range k).map fun i => start + FLOOR_SIZE + FLOOR_SIZE * i := by
  rw [List.range_succ_eq_map, List.map_cons, List.map_map, Nat.mul_zero, Nat.add_zero]
  refine congrArg _ (List.map_congr_left fun i _ => ?_)
  rw [Function.comp_apply, Nat.mul_succ]
  omega

theorem Inv.walkRow_eq (h : Inv s calls) (v u k : ℕ) :
    s.walkRow v ((List.range k).map fun i => u + FLOOR_SIZE * i)
      (s.getQTNode (UInt16.ofNat u) (UInt16.ofNat v)) =
      ((List.range k).map fun i => u + FLOOR_SIZE * i).filterMap fun u =>
        s.getQTNode (UInt16.ofNat u) (UInt16.ofNat v) := by
  induction k generalizing u with
  | zero => rfl
  | succ k ih =>
    rw [starts_succ]
    cases hid : s.getQTNode (UInt16.ofNat u) (UInt16.ofNat v) with
    | none => rw [walkRow, ih, List.filterMap_cons, hid]
    | some id => rw [walkRow, h.leafE_eq hid, ih, List.filterMap_cons, hid]

theorem Inv.walkRows_eq (h : Inv s calls) (u n v k : ℕ) :
    s.walkRows u ((List.range n).map fun i => u + FLOOR_SIZE * i)
      ((List.range k).map fun i => v + FLOOR_SIZE * i)
      (s.getQTNode (UInt16.ofNat u) (UInt16.ofNat v)) =
      ((List.range k).map fun i => v + FLOOR_SIZE * i).flatMap fun v =>
        ((List.range n).map fun i => u + FLOOR_SIZE * i).filterMap fun u =>
          s.getQTNode (UInt16.ofNat u) (UInt16.ofNat v) := by
  induction k generalizing v with
  | zero => rfl
  | succ k ih =>
    have hnext : (match s.getQTNode (UInt16.ofNat u) (UInt16.ofNat v) with
        | some leaf => s.leafS leaf
        | none => s.getQTNode (UInt16.ofNat u) (UInt16.ofNat (v + FLOOR_SIZE))) =
        s.getQTNode (UInt16.ofNat u) (UInt16.ofNat (v + FLOOR_SIZE)) := by
      split
      · next id hid => exact h.leafS_eq hid
      · rfl
    rw [starts_succ v, List.flatMap_cons, ← h.walkRow_eq, ← ih, ← hnext]
    rfl

/-- The walk meets the leaves of the blocks, row by row. -/
theorem Inv.leafWalk_eq (h : Inv s calls) (x1 y1 x2 y2 : ℕ) :
    s.leafWalk x1 y1 x2 y2 = (Spectators.blocks y1 y2).flatMap fun ny =>
      (Spectators.blocks x1 x2).filterMap fun nx =>
        s.getQTNode (UInt16.ofNat nx) (UInt16.ofNat ny) :=
  h.walkRows_eq _ _ _ _

theorem mem_blocks_iff {a b n : ℕ} : n ∈ Spectators.blocks a b ↔
    n % FLOOR_SIZE = 0 ∧ a / FLOOR_SIZE ≤ n / FLOOR_SIZE ∧ n / FLOOR_SIZE ≤ b / FLOOR_SIZE := by
  simp only [Spectators.blocks, List.mem_map, List.mem_range, FLOOR_SIZE]
  constructor
  · rintro ⟨i, hi, rfl⟩
    omega
  · rintro ⟨h, ha, hb⟩
    exact ⟨n / 8 - a / 8, by omega, by omega⟩

theorem pairwise_blocks (a b : ℕ) : (Spectators.blocks a b).Pairwise (· ≠ ·) := by
  refine List.pairwise_map.2 (List.nodup_range.imp fun hij h => hij ?_)
  rw [FLOOR_SIZE] at h
  omega

/-- In the same block of 8 × 8 squares. -/
def SameBlock (x y x' y' : UInt16) : Prop :=
  x.toNat / FLOOR_SIZE = x'.toNat / FLOOR_SIZE ∧ y.toNat / FLOOR_SIZE = y'.toNat / FLOOR_SIZE

/-- What the tree is for. -/
structure Correct (s : QTree) (calls : List (UInt16 × UInt16)) : Prop where
  getLeafStatic_eq : ∀ x y : UInt16,
    getLeafStatic s.root x.toUInt32 y.toUInt32 = getLeaf s.root x.toUInt32 y.toUInt32
  created_iff : ∀ x y : UInt16, (getLeaf s.root x.toUInt32 y.toUInt32).isSome ↔
    ∃ c ∈ calls, SameBlock c.1 c.2 x y
  shared_iff : ∀ x y x' y' : UInt16, ∀ id, getLeaf s.root x.toUInt32 y.toUInt32 = some id →
    (getLeaf s.root x'.toUInt32 y'.toUInt32 = some id ↔ SameBlock x y x' y')
  leafE_eq : ∀ x y : UInt16, ∀ id, getLeaf s.root x.toUInt32 y.toUInt32 = some id →
    s.leafE id = if x.toNat + FLOOR_SIZE < 2 ^ 16 then
      getLeaf s.root (x.toUInt32 + 8) y.toUInt32 else none
  leafS_eq : ∀ x y : UInt16, ∀ id, getLeaf s.root x.toUInt32 y.toUInt32 = some id →
    s.leafS id = if y.toNat + FLOOR_SIZE < 2 ^ 16 then
      getLeaf s.root x.toUInt32 (y.toUInt32 + 8) else none
  nodup_leafWalk : ∀ x1 y1 x2 y2 : UInt16,
    (s.leafWalk x1.toNat y1.toNat x2.toNat y2.toNat).Nodup
  mem_leafWalk : ∀ x1 y1 x2 y2 : UInt16, x1 ≤ x2 → y1 ≤ y2 →
    ∀ id, id ∈ s.leafWalk x1.toNat y1.toNat x2.toNat y2.toNat ↔
      ∃ x y : UInt16, x1 ≤ x ∧ x ≤ x2 ∧ y1 ≤ y ∧ y ≤ y2 ∧
        getLeaf s.root x.toUInt32 y.toUInt32 = some id

/-- Leaves were asked for on both sides of the border, opposite to each other. -/
def MeetsAtBorder (calls : List (UInt16 × UInt16)) : Prop :=
  ∃ c ∈ calls, ∃ d ∈ calls,
    (2 ^ 16 ≤ c.1.toNat + FLOOR_SIZE ∧ d.1.toNat < FLOOR_SIZE ∧
        c.2.toNat / FLOOR_SIZE = d.2.toNat / FLOOR_SIZE) ∨
      (2 ^ 16 ≤ c.2.toNat + FLOOR_SIZE ∧ d.2.toNat < FLOOR_SIZE ∧
        c.1.toNat / FLOOR_SIZE = d.1.toNat / FLOOR_SIZE)

theorem block_toUInt32 (x : UInt16) : block x.toUInt32 = x.toNat / FLOOR_SIZE := by
  rw [block, UInt16.toNat_toUInt32, Nat.mod_eq_of_lt x.toNat_lt]

theorem Inv.nodup_leafWalk (h : Inv s calls) {x1 y1 x2 y2 : ℕ} (hx : x2 < 2 ^ 16)
    (hy : y2 < 2 ^ 16) : (s.leafWalk x1 y1 x2 y2).Nodup := by
  have hsep {u v u' v' : ℕ} {id : LeafId}
      (hid : s.getQTNode (UInt16.ofNat u) (UInt16.ofNat v) = some id)
      (hid' : s.getQTNode (UInt16.ofNat u') (UInt16.ofNat v') = some id) :
      u % 65536 / 8 = u' % 65536 / 8 ∧ v % 65536 / 8 = v' % 65536 / 8 := by
    rw [h.getQTNode] at hid hid'
    have := h.separate _ _ _ _ _ hid hid'
    rwa [block_ofNat, block_ofNat, block_ofNat, block_ofNat] at this
  have hne {a b u u' : ℕ} (hb : b < 2 ^ 16) (hu : u ∈ Spectators.blocks a b)
      (hu' : u' ∈ Spectators.blocks a b) (hne : u ≠ u') : u % 65536 / 8 ≠ u' % 65536 / 8 := by
    rw [mem_blocks_iff, FLOOR_SIZE] at hu hu'
    omega
  rw [h.leafWalk_eq, List.Nodup, List.pairwise_flatMap]
  refine ⟨fun v _ => List.pairwise_filterMap.2 ?_, ?_⟩
  · refine (pairwise_blocks x1 x2).imp_of_mem fun hu hu' hdiff id hid id' hid' he => ?_
    exact hne hx hu hu' hdiff (hsep hid (he ▸ hid')).1
  · refine (pairwise_blocks y1 y2).imp_of_mem fun hv hv' hdiff id hid id' hid' he => ?_
    obtain ⟨u, _, hid⟩ := List.mem_filterMap.1 hid
    obtain ⟨u', _, hid'⟩ := List.mem_filterMap.1 hid'
    exact hne hy hv hv' hdiff (hsep hid (he ▸ hid')).2

theorem Inv.mem_leafWalk (h : Inv s calls) (x1 y1 x2 y2 : UInt16) (hx : x1 ≤ x2) (hy : y1 ≤ y2)
    (id : LeafId) : id ∈ s.leafWalk x1.toNat y1.toNat x2.toNat y2.toNat ↔
      ∃ x y : UInt16, x1 ≤ x ∧ x ≤ x2 ∧ y1 ≤ y ∧ y ≤ y2 ∧
        getLeaf s.root x.toUInt32 y.toUInt32 = some id := by
  have hx2 := x2.toNat_lt
  have hy2 := y2.toNat_lt
  rw [h.leafWalk_eq]
  simp only [List.mem_flatMap, List.mem_filterMap, mem_blocks_iff, UInt16.le_iff_toNat_le,
    h.getQTNode, FLOOR_SIZE] at hx hy ⊢
  constructor
  · -- A square of the block, inside the rectangle.
    rintro ⟨v, hv, u, hu, hid⟩
    have hu' : (UInt16.ofNat (max u x1.toNat)).toNat = max u x1.toNat := by
      rw [UInt16.toNat_ofNat']
      omega
    have hv' : (UInt16.ofNat (max v y1.toNat)).toNat = max v y1.toNat := by
      rw [UInt16.toNat_ofNat']
      omega
    refine ⟨UInt16.ofNat (max u x1.toNat), UInt16.ofNat (max v y1.toNat), by omega, by omega,
      by omega, by omega, ?_⟩
    rw [← hid]
    exact getLeaf_congr h.uniform (by rw [block_ofNat, block_ofNat]; omega)
      (by rw [block_ofNat, block_ofNat]; omega)
  · rintro ⟨x, y, hx1, hx2, hy1, hy2, hid⟩
    refine ⟨y.toNat / 8 * 8, by omega, x.toNat / 8 * 8, by omega, ?_⟩
    rw [← hid]
    exact getLeaf_congr h.uniform (by rw [block_ofNat, block_toUInt32, FLOOR_SIZE]; omega)
      (by rw [block_ofNat, block_toUInt32, FLOOR_SIZE]; omega)

/-- There is a leaf at the distance of some blocks if it was asked for. -/
theorem Inv.isSome_add_iff (h : Inv s calls) (dx dy : UInt32) {i j : ℕ}
    (hdx : dx.toNat = i * FLOOR_SIZE) (hdy : dy.toNat = j * FLOOR_SIZE) (x y : UInt16) :
    (getLeaf s.root (x.toUInt32 + dx) (y.toUInt32 + dy)).isSome ↔
      ∃ d ∈ calls, d.1.toNat / 8 = (x.toNat / 8 + i) % 8192 ∧
        d.2.toNat / 8 = (y.toNat / 8 + j) % 8192 := by
  rw [h.isSome_iff, block_add hdx, block_add hdy]
  simp only [block_toUInt32, FLOOR_SIZE]

theorem Inv.created_iff (h : Inv s calls) (x y : UInt16) :
    (getLeaf s.root x.toUInt32 y.toUInt32).isSome ↔ ∃ c ∈ calls, SameBlock c.1 c.2 x y := by
  rw [h.isSome_iff]
  simp only [block_toUInt32, SameBlock]

theorem Inv.correct_iff (h : Inv s calls) : Correct s calls ↔ ¬ MeetsAtBorder calls := by
  constructor
  · rintro hcorrect ⟨c, hc, d, hd, hmeet⟩
    obtain ⟨id, hid⟩ := Option.isSome_iff_exists.1 ((h.created_iff c.1 c.2).2 ⟨c, hc, rfl, rfl⟩)
    -- A link of the last column or row wraps to the first one, where a leaf is.
    rcases hmeet with ⟨hlast, hfirst, hrow⟩ | ⟨hlast, hfirst, hrow⟩ <;> rw [FLOOR_SIZE] at *
    · have hlink := hcorrect.leafE_eq c.1 c.2 id hid
      rw [FLOOR_SIZE, if_neg (Nat.not_lt.2 hlast), h.leafE _ _ _ hid] at hlink
      have hsome := (h.isSome_add_iff 8 0 (i := 1) (j := 0) rfl rfl c.1 c.2).2
        ⟨d, hd, by have := c.1.toNat_lt; omega, by have := c.2.toNat_lt; omega⟩
      rw [hlink] at hsome
      cases hsome
    · have hlink := hcorrect.leafS_eq c.1 c.2 id hid
      rw [FLOOR_SIZE, if_neg (Nat.not_lt.2 hlast), h.leafS _ _ _ hid] at hlink
      have hsome := (h.isSome_add_iff 0 8 (i := 0) (j := 1) rfl rfl c.1 c.2).2
        ⟨d, hd, by have := c.1.toNat_lt; omega, by have := c.2.toNat_lt; omega⟩
      rw [hlink] at hsome
      cases hsome
  · intro hborder
    constructor
    case getLeafStatic_eq => exact h.getQTNode
    case created_iff => exact h.created_iff
    case shared_iff =>
      intro x y x' y' id hid
      simp only [SameBlock, ← block_toUInt32]
      exact ⟨h.separate _ _ _ _ id hid, fun hxy => getLeaf_congr h.uniform hxy.1 hxy.2 ▸ hid⟩
    case leafE_eq =>
      intro x y id hid
      rw [h.leafE _ _ _ hid]
      split
      · rw [UInt32.add_zero]
      -- At the border no leaf may be found across the edge.
      · next hlast =>
        rw [← Option.not_isSome_iff_eq_none, h.isSome_add_iff 8 0 (i := 1) (j := 0) rfl rfl]
        rintro ⟨d, hd, hfirst, hrow⟩
        obtain ⟨c, hc, hcx, hcy⟩ := (h.created_iff x y).1 (hid ▸ rfl)
        have := x.toNat_lt
        have := y.toNat_lt
        rw [FLOOR_SIZE] at *
        exact hborder ⟨c, hc, d, hd, .inl (by rw [FLOOR_SIZE]; omega)⟩
    case leafS_eq =>
      intro x y id hid
      rw [h.leafS _ _ _ hid]
      split
      · rw [UInt32.add_zero]
      · next hlast =>
        rw [← Option.not_isSome_iff_eq_none, h.isSome_add_iff 0 8 (i := 0) (j := 1) rfl rfl]
        rintro ⟨d, hd, hrow, hfirst⟩
        obtain ⟨c, hc, hcx, hcy⟩ := (h.created_iff x y).1 (hid ▸ rfl)
        have := x.toNat_lt
        have := y.toNat_lt
        rw [FLOOR_SIZE] at *
        exact hborder ⟨c, hc, d, hd, .inr (by rw [FLOOR_SIZE]; omega)⟩
    case nodup_leafWalk => exact fun _ _ x2 y2 => h.nodup_leafWalk x2.toNat_lt y2.toNat_lt
    case mem_leafWalk => exact h.mem_leafWalk

end

/-- The tree is right after any calls, unless leaves meet at the border. -/
theorem run_correct_iff (calls : List (UInt16 × UInt16)) :
    ∃ s, run calls = some s ∧ (Correct s calls ↔ ¬ MeetsAtBorder calls) := by
  obtain ⟨s, hs, hinv⟩ := inv_empty.run calls
  exact ⟨s, hs, Inv.correct_iff hinv⟩

/-- Two leaves on one row, the last one and the first one: the last one is linked with the
    first one, although there is nothing to its east. -/
theorem linked_over_border :
    ∃ s, run [(65535, 0), (0, 0)] = some s ∧ ¬ Correct s [(65535, 0), (0, 0)] := by
  obtain ⟨s, hs, hinv⟩ := inv_empty.run [(65535, 0), (0, 0)]
  refine ⟨s, hs, fun hcorrect => Inv.correct_iff hinv |>.1 hcorrect ?_⟩
  exact ⟨_, List.mem_cons_self, _, List.mem_cons_of_mem _ List.mem_cons_self,
    .inl ⟨by decide, by decide, rfl⟩⟩

end QTree

end Canary.Map
