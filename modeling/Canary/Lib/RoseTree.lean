import Mathlib.Data.List.Nodup
import Mathlib.Data.List.Chain
import Mathlib.Data.List.Flatten
import Mathlib.Algebra.BigOperators.Group.List.Basic
import Mathlib.Algebra.Order.Ring.Int

/-!
# Trees of objects

A heap of objects that hold each other, as a forest: a node is an object, with a label and the
objects it holds. The objects of a forest are told apart by a key of their labels, their
address. `modify` replaces the object at an address, wherever it is.

* `exists_split`: what is at an address takes up one part of the forest, and a replacement takes
  the place of it; hence what a forest sums up to (`sum_modify`), and that its keys stay
  different (`Distinct.modify`).
* `mem_nodes_modify`: an object still holds what it held, with the replacement in its place.
-/

namespace Canary

universe u v

/-- A tree with labels, of any number of children. -/
inductive RoseTree (α : Type u) : Type u
  | node (label : α) (children : List (RoseTree α))

namespace RoseTree

variable {α : Type u} {κ : Type v}

def label : RoseTree α → α
  | node a _ => a

def children : RoseTree α → List (RoseTree α)
  | node _ cs => cs

@[simp] theorem label_node (a : α) (cs : List (RoseTree α)) : (node a cs).label = a := rfl

@[simp] theorem children_node (a : α) (cs : List (RoseTree α)) : (node a cs).children = cs := rfl

/-- Induction, with the hypothesis for every child. -/
@[elab_as_elim, induction_eliminator]
theorem ind {motive : RoseTree α → Prop}
    (node : ∀ a cs, (∀ c ∈ cs, motive c) → motive (node a cs)) (t : RoseTree α) : motive t :=
  RoseTree.rec (motive_1 := motive) (motive_2 := fun cs => ∀ c ∈ cs, motive c) node
    (fun _ h => absurd h List.not_mem_nil)
    (fun _ _ h hs _ hc => (List.mem_cons.1 hc).elim (fun he => he ▸ h) (hs _)) t

/-! ## Nodes -/

mutual

/-- The tree and all that is below it, from the root on. -/
def nodes : RoseTree α → List (RoseTree α)
  | node a cs => node a cs :: forestNodes cs

def forestNodes : List (RoseTree α) → List (RoseTree α)
  | [] => []
  | t :: ts => nodes t ++ forestNodes ts

end

theorem forestNodes_eq : ∀ ts : List (RoseTree α), forestNodes ts = ts.flatMap nodes
  | [] => rfl
  | t :: ts => congrArg (t.nodes ++ ·) (forestNodes_eq ts)

theorem nodes_node (a : α) (cs : List (RoseTree α)) :
    (node a cs).nodes = node a cs :: cs.flatMap nodes := by
  rw [nodes, forestNodes_eq]

theorem mem_nodes_self (t : RoseTree α) : t ∈ t.nodes := by
  cases t
  rw [nodes_node]
  exact List.mem_cons_self

theorem mem_nodes_of_mem_children {t c s : RoseTree α} (hc : c ∈ t.children)
    (hs : s ∈ c.nodes) : s ∈ t.nodes := by
  cases t
  rw [nodes_node]
  exact List.mem_cons_of_mem _ (List.mem_flatMap.2 ⟨c, hc, hs⟩)

/-- What is below what is below a tree is below the tree. -/
theorem nodes_trans {t s r : RoseTree α} (hs : s ∈ t.nodes) (hr : r ∈ s.nodes) :
    r ∈ t.nodes := by
  induction t with
  | node a cs ih =>
    rw [nodes_node] at hs
    rcases List.mem_cons.1 hs with rfl | hs
    · exact hr
    · obtain ⟨c, hc, hs⟩ := List.mem_flatMap.1 hs
      exact mem_nodes_of_mem_children hc (ih c hc hs)

/-! ## Labels and keys -/

def labels (t : RoseTree α) : List α := t.nodes.map label

theorem labels_node (a : α) (cs : List (RoseTree α)) :
    (node a cs).labels = a :: cs.flatMap labels := by
  rw [labels, nodes_node, List.map_cons, List.map_flatMap]
  rfl

/-- What the labels sum up to. -/
def sum (w : α → ℕ) (t : RoseTree α) : ℕ := (t.labels.map w).sum

theorem sum_map_sum (w : α → ℕ) (ts : List (RoseTree α)) :
    (ts.map (sum w)).sum = ((ts.flatMap labels).map w).sum := by
  rw [List.flatMap_def, List.map_flatten, List.sum_flatten, List.map_map, List.map_map]
  rfl

theorem sum_node (w : α → ℕ) (a : α) (cs : List (RoseTree α)) :
    (node a cs).sum w = w a + (cs.map (sum w)).sum := by
  rw [sum, labels_node, List.map_cons, List.sum_cons, sum_map_sum]

variable (key : α → κ)

/-- The keys in a forest. -/
def keys (ts : List (RoseTree α)) : List κ := (ts.flatMap labels).map key

/-- Different objects have different keys. -/
def Distinct (ts : List (RoseTree α)) : Prop := (keys key ts).Nodup

theorem keys_cons (t : RoseTree α) (ts : List (RoseTree α)) :
    keys key (t :: ts) = keys key [t] ++ keys key ts := by
  simp [keys]

theorem keys_append (ts ts' : List (RoseTree α)) :
    keys key (ts ++ ts') = keys key ts ++ keys key ts' := by
  simp [keys]

theorem keys_node (a : α) (cs : List (RoseTree α)) :
    keys key [node a cs] = key a :: keys key cs := by
  simp [keys, labels_node]

/-- A tree with another child. -/
theorem keys_push (a : α) (t : RoseTree α) (cs : List (RoseTree α)) :
    (keys key [node a (t :: cs)]).Perm (keys key [t] ++ keys key [node a cs]) := by
  rw [keys_node, keys_cons, keys_node]
  exact List.perm_middle.symm

theorem mem_keys {ts : List (RoseTree α)} {k : κ} :
    k ∈ keys key ts ↔ ∃ s ∈ ts.flatMap nodes, key s.label = k := by
  simp only [keys, labels, List.mem_map, List.mem_flatMap]
  constructor
  · rintro ⟨a, ⟨t, ht, s, hs, rfl⟩, rfl⟩
    exact ⟨s, ⟨t, ht, hs⟩, rfl⟩
  · rintro ⟨s, ⟨t, ht, hs⟩, rfl⟩
    exact ⟨s.label, ⟨t, ht, s, hs, rfl⟩, rfl⟩

theorem key_mem_keys {t s : RoseTree α} (hs : s ∈ t.nodes) : key s.label ∈ keys key [t] :=
  (mem_keys key).2 ⟨s, List.mem_flatMap.2 ⟨t, List.mem_singleton_self t, hs⟩, rfl⟩

theorem mem_keys_of_mem {ts : List (RoseTree α)} {t : RoseTree α} (ht : t ∈ ts) {k : κ}
    (hk : k ∈ keys key [t]) : k ∈ keys key ts := by
  obtain ⟨s, hs, rfl⟩ := (mem_keys key).1 hk
  rw [List.flatMap_singleton] at hs
  exact (mem_keys key).2 ⟨s, List.mem_flatMap.2 ⟨t, ht, hs⟩, rfl⟩

/-- With distinct keys, a key is that of one object. -/
theorem Distinct.eq_of_key_eq {ts : List (RoseTree α)} (h : Distinct key ts) {s s' : RoseTree α}
    (hs : s ∈ ts.flatMap nodes) (hs' : s' ∈ ts.flatMap nodes)
    (he : key s.label = key s'.label) : s = s' := by
  have hmap : keys key ts = (ts.flatMap nodes).map fun t => key t.label := by
    rw [keys, List.map_flatMap, List.map_flatMap]
    exact List.flatMap_congr fun t _ => List.map_map
  rw [Distinct, hmap] at h
  exact List.inj_on_of_nodup_map h hs hs' he

variable {key} in
theorem keys_sublist {t s : RoseTree α} (hs : s ∈ t.nodes) :
    (keys key [s]).Sublist (keys key [t]) := by
  induction t with
  | node a cs ih =>
    rw [nodes_node] at hs
    rcases List.mem_cons.1 hs with rfl | hs
    · exact List.Sublist.refl _
    · obtain ⟨c, hc, hsc⟩ := List.mem_flatMap.1 hs
      obtain ⟨l, l', rfl⟩ := List.append_of_mem hc
      rw [keys_node, keys_append, keys_cons key c]
      refine (ih c hc hsc).trans (List.Sublist.cons _ ?_)
      exact (List.sublist_append_left _ _).trans (List.sublist_append_right _ _)

variable {key} in
theorem Distinct.of_nodes {t s : RoseTree α} (h : Distinct key [t]) (hs : s ∈ t.nodes) :
    Distinct key [s] :=
  List.Nodup.sublist (keys_sublist hs) h

section find

variable [DecidableEq κ]

/-- The object at an address. -/
def find? (k : κ) (ts : List (RoseTree α)) : Option (RoseTree α) :=
  (ts.flatMap nodes).find? fun t => key t.label = k

theorem find?_mem {ts : List (RoseTree α)} {k : κ} {s : RoseTree α} (h : find? key k ts = some s) :
    s ∈ ts.flatMap nodes ∧ key s.label = k :=
  ⟨List.mem_of_find?_eq_some h, by simpa using List.find?_some h⟩

theorem find?_eq_some_iff {ts : List (RoseTree α)} (hd : Distinct key ts) {k : κ}
    {s : RoseTree α} : find? key k ts = some s ↔ s ∈ ts.flatMap nodes ∧ key s.label = k := by
  refine ⟨find?_mem key, fun ⟨hs, hk⟩ => ?_⟩
  rcases h : find? key k ts with _ | s'
  · exact absurd hk (by simpa using List.find?_eq_none.1 h s hs)
  · obtain ⟨hs', hk'⟩ := find?_mem key h
    rw [hd.eq_of_key_eq key hs hs' (hk.trans hk'.symm)]

/-! ## Replacement -/

mutual

/-- The tree with `f` applied to the object at the address `k`. -/
def modify (k : κ) (f : RoseTree α → RoseTree α) : RoseTree α → RoseTree α
  | node a cs => if key a = k then f (node a cs) else node a (forestModify k f cs)

def forestModify (k : κ) (f : RoseTree α → RoseTree α) : List (RoseTree α) → List (RoseTree α)
  | [] => []
  | t :: ts => modify k f t :: forestModify k f ts

end

theorem forestModify_eq (k : κ) (f : RoseTree α → RoseTree α) :
    ∀ ts, forestModify key k f ts = ts.map (modify key k f)
  | [] => rfl
  | t :: ts => congrArg (modify key k f t :: ·) (forestModify_eq k f ts)

theorem modify_node (k : κ) (f : RoseTree α → RoseTree α) (a : α) (cs : List (RoseTree α)) :
    modify key k f (node a cs) =
      if key a = k then f (node a cs) else node a (cs.map (modify key k f)) := by
  rw [modify, forestModify_eq]

theorem modify_self {f : RoseTree α → RoseTree α} {t : RoseTree α} :
    modify key (key t.label) f t = f t := by
  cases t
  rw [modify_node, label_node, if_pos rfl]

theorem modify_of_notMem {k : κ} (f : RoseTree α → RoseTree α) {t : RoseTree α}
    (h : k ∉ keys key [t]) : modify key k f t = t := by
  induction t with
  | node a cs ih =>
    rw [keys_node, List.mem_cons, not_or] at h
    have hcs : cs.map (modify key k f) = cs.map id :=
      List.map_congr_left fun c hc => ih c hc fun hk => h.2 (mem_keys_of_mem key hc hk)
    rw [modify_node, if_neg (Ne.symm h.1), hcs, List.map_id]

theorem map_modify_of_notMem {k : κ} (f : RoseTree α → RoseTree α) {ts : List (RoseTree α)}
    (h : k ∉ keys key ts) : ts.map (modify key k f) = ts := by
  have hts : ts.map (modify key k f) = ts.map id :=
    List.map_congr_left fun t ht => modify_of_notMem key f fun hk => h (mem_keys_of_mem key ht hk)
  rw [hts, List.map_id]

/-- The part of a forest that an object takes up, and that its replacement takes up. -/
def Splits (ts : List (RoseTree α)) (s : RoseTree α) : Prop :=
  ∃ pre post, ts.flatMap labels = pre ++ s.labels ++ post ∧
    ∀ f, (ts.map (modify key (key s.label) f)).flatMap labels = pre ++ (f s).labels ++ post

omit [DecidableEq κ] in
theorem Distinct.of_append {ts ts' : List (RoseTree α)} (h : Distinct key (ts ++ ts')) :
    Distinct key ts ∧ Distinct key ts' ∧ (keys key ts).Disjoint (keys key ts') := by
  rw [Distinct, keys_append] at h
  exact List.nodup_append'.1 h

omit [DecidableEq κ] in
theorem Distinct.of_cons {t : RoseTree α} {ts : List (RoseTree α)} (h : Distinct key (t :: ts)) :
    Distinct key [t] ∧ Distinct key ts ∧ (keys key [t]).Disjoint (keys key ts) :=
  of_append key h

omit [DecidableEq κ] in
theorem Distinct.of_mem {ts : List (RoseTree α)} (h : Distinct key ts) {t : RoseTree α}
    (ht : t ∈ ts) : Distinct key [t] := by
  induction ts with
  | nil => exact absurd ht List.not_mem_nil
  | cons t' ts ih =>
    obtain ⟨ht', hts, -⟩ := h.of_cons
    rcases List.mem_cons.1 ht with rfl | ht
    · exact ht'
    · exact ih hts ht

variable {key}

/-- Trees split at their objects, hence so does a forest. -/
theorem splits_of_trees {ts : List (RoseTree α)} {s : RoseTree α}
    (ih : ∀ t ∈ ts, Distinct key [t] → s ∈ t.nodes → Splits key [t] s) (hd : Distinct key ts)
    (hs : s ∈ ts.flatMap nodes) : Splits key ts s := by
  induction ts with
  | nil => exact absurd hs List.not_mem_nil
  | cons t ts ihs =>
    obtain ⟨ht, hts, hdisj⟩ := hd.of_cons
    rw [List.flatMap_cons, List.mem_append] at hs
    rcases hs with hs | hs
    · -- The other trees do not have the key.
      obtain ⟨pre, post, h, hf⟩ := ih t List.mem_cons_self ht hs
      rw [List.flatMap_singleton] at h
      refine ⟨pre, post ++ ts.flatMap labels, ?_, fun f => ?_⟩
      · rw [List.flatMap_cons, h, List.append_assoc]
      · have hrest := map_modify_of_notMem key f fun hk => hdisj (key_mem_keys key hs) hk
        have htree := hf f
        rw [List.map_singleton, List.flatMap_singleton] at htree
        rw [List.map_cons, List.flatMap_cons, htree, hrest, List.append_assoc]
    · obtain ⟨pre, post, h, hf⟩ := ihs (fun t ht => ih t (List.mem_cons_of_mem _ ht)) hts hs
      have hk : key s.label ∈ keys key ts := (mem_keys key).2 ⟨s, hs, rfl⟩
      refine ⟨t.labels ++ pre, post, ?_, fun f => ?_⟩
      · rw [List.flatMap_cons, h]
        simp only [List.append_assoc]
      · have htree := modify_of_notMem key f fun hk' => hdisj hk' hk
        rw [List.map_cons, List.flatMap_cons, htree, hf f]
        simp only [List.append_assoc]

theorem splits_tree {t s : RoseTree α} (hd : Distinct key [t]) (hs : s ∈ t.nodes) :
    Splits key [t] s := by
  induction t with
  | node a cs ih =>
    rw [nodes_node] at hs
    rcases List.mem_cons.1 hs with rfl | hs
    · refine ⟨[], [], ?_, fun f => ?_⟩
      · rw [List.flatMap_singleton, List.nil_append, List.append_nil]
      · rw [List.map_singleton, modify_self, List.flatMap_singleton, List.nil_append,
          List.append_nil]
    · rw [Distinct, keys_node, List.nodup_cons] at hd
      have hne : key a ≠ key s.label := fun he => hd.1 (he ▸ (mem_keys key).2 ⟨s, hs, rfl⟩)
      obtain ⟨pre, post, h, hf⟩ := splits_of_trees ih hd.2 hs
      refine ⟨a :: pre, post, ?_, fun f => ?_⟩
      · rw [List.flatMap_singleton, labels_node, h]
        rfl
      · rw [List.map_singleton, List.flatMap_singleton, modify_node, if_neg hne, labels_node, hf f]
        rfl

/-- What is at an address takes up one part of the forest. -/
theorem exists_split {ts : List (RoseTree α)} (hd : Distinct key ts) {s : RoseTree α}
    (hs : s ∈ ts.flatMap nodes) : Splits key ts s :=
  splits_of_trees (fun _ _ => splits_tree) hd hs

/-- What is at an address, and the rest: a replacement leaves the rest. -/
theorem exists_rest {ts : List (RoseTree α)} (hd : Distinct key ts) {s : RoseTree α}
    (hs : s ∈ ts.flatMap nodes) : ∃ rest : List α, (ts.flatMap labels).Perm (s.labels ++ rest) ∧
      ∀ f, ((ts.map (modify key (key s.label) f)).flatMap labels).Perm ((f s).labels ++ rest) := by
  obtain ⟨pre, post, h, hf⟩ := exists_split hd hs
  have hperm : ∀ l : List α, (pre ++ l ++ post).Perm (l ++ (pre ++ post)) := by
    intro l
    rw [← List.append_assoc]
    exact List.perm_append_comm.append_right post
  exact ⟨pre ++ post, h ▸ hperm _, fun f => hf f ▸ hperm _⟩

/-- The sum of a forest changes as that of the object replaced. -/
theorem sum_modify (w : α → ℕ) {ts : List (RoseTree α)} (hd : Distinct key ts) {s : RoseTree α}
    (hs : s ∈ ts.flatMap nodes) (f : RoseTree α → RoseTree α) :
    (((ts.map (modify key (key s.label) f)).flatMap labels).map w).sum + s.sum w =
      ((ts.flatMap labels).map w).sum + (f s).sum w := by
  obtain ⟨rest, h, hf⟩ := exists_rest hd hs
  rw [((hf f).map w).sum_eq, (h.map w).sum_eq, List.map_append, List.map_append, List.sum_append,
    List.sum_append, sum, sum]
  omega

/-- Replacing an object by one with other keys as well, all of them new. -/
theorem Distinct.modify {ts : List (RoseTree α)} (hd : Distinct key ts) {s : RoseTree α}
    (hs : s ∈ ts.flatMap nodes) {f : RoseTree α → RoseTree α} (hf : Distinct key [f s])
    (hnew : ∀ k ∈ keys key [f s], k ∈ keys key [s] ∨ k ∉ keys key ts) :
    Distinct key (ts.map (RoseTree.modify key (key s.label) f)) := by
  obtain ⟨rest, h, hrest⟩ := exists_rest hd hs
  have hkeys : (keys key ts).Perm (keys key [s] ++ rest.map key) := by
    rw [keys, keys, List.flatMap_singleton, ← List.map_append]
    exact h.map key
  have hkeys' : (keys key (ts.map (RoseTree.modify key (key s.label) f))).Perm
      (keys key [f s] ++ rest.map key) := by
    rw [keys, keys, List.flatMap_singleton, ← List.map_append]
    exact (hrest f).map key
  have hnodup := hkeys.nodup_iff.1 hd
  rw [List.nodup_append'] at hnodup
  refine hkeys'.nodup_iff.2 (List.nodup_append'.2 ⟨hf, hnodup.2.1, fun k hk hk' => ?_⟩)
  rcases hnew k hk with hs | hn
  · exact hnodup.2.2 hs hk'
  · exact hn (hkeys.mem_iff.2 (List.mem_append_right _ hk'))

/-- The keys of a forest change as those of the object replaced. -/
theorem keys_modify_perm {ts : List (RoseTree α)} (hd : Distinct key ts) {s : RoseTree α}
    (hs : s ∈ ts.flatMap nodes) {f : RoseTree α → RoseTree α} {l l' : List κ}
    (hf : (l ++ keys key [f s]).Perm (l' ++ keys key [s])) :
    (l ++ keys key (ts.map (RoseTree.modify key (key s.label) f))).Perm (l' ++ keys key ts) := by
  obtain ⟨rest, h, hrest⟩ := exists_rest hd hs
  have hkeys : (keys key ts).Perm (keys key [s] ++ rest.map key) := by
    rw [keys, keys, List.flatMap_singleton, ← List.map_append]
    exact h.map key
  have hkeys' : (keys key (ts.map (RoseTree.modify key (key s.label) f))).Perm
      (keys key [f s] ++ rest.map key) := by
    rw [keys, keys, List.flatMap_singleton, ← List.map_append]
    exact (hrest f).map key
  refine (hkeys'.append_left l).trans (.trans ?_ (hkeys.append_left l').symm)
  rw [← List.append_assoc, ← List.append_assoc]
  exact hf.append_right _

/-- An object that holds what is replaced holds the replacement. -/
theorem mem_nodes_modify {t r : RoseTree α} (hd : Distinct key [t]) (hr : r ∈ t.nodes) {k : κ}
    (hk : k ∈ keys key [r]) (f : RoseTree α → RoseTree α) :
    modify key k f r ∈ (modify key k f t).nodes := by
  induction t with
  | node a cs ih =>
    rw [nodes_node] at hr
    rcases List.mem_cons.1 hr with rfl | hr
    · exact mem_nodes_self _
    · obtain ⟨c, hc, hr⟩ := List.mem_flatMap.1 hr
      rw [Distinct, keys_node, List.nodup_cons] at hd
      have hkc := mem_keys_of_mem key hc ((keys_sublist hr).subset hk)
      have hne : key a ≠ k := fun he => hd.1 (he ▸ hkc)
      rw [modify_node, if_neg hne]
      exact mem_nodes_of_mem_children (List.mem_map_of_mem hc)
        (ih c hc (Distinct.of_mem key hd.2 hc) hr)

/-- An object after a replacement is part of it, or was there, with the replacement below it. -/
theorem nodes_modify_cases {k : κ} {f : RoseTree α → RoseTree α} {t r : RoseTree α}
    (hr : r ∈ (modify key k f t).nodes) :
    (∃ s ∈ t.nodes, key s.label = k ∧ r ∈ (f s).nodes) ∨
      ∃ s ∈ t.nodes, key s.label ≠ k ∧ r.label = s.label ∧
        r.children = s.children.map (modify key k f) := by
  induction t with
  | node a cs ih =>
    rw [modify_node] at hr
    split at hr
    · next he => exact .inl ⟨_, mem_nodes_self _, he, hr⟩
    · next hne =>
      rw [nodes_node] at hr
      rcases List.mem_cons.1 hr with rfl | hr
      · exact .inr ⟨_, mem_nodes_self _, hne, rfl, rfl⟩
      · obtain ⟨c', hc', hr⟩ := List.mem_flatMap.1 hr
        obtain ⟨c, hc, rfl⟩ := List.mem_map.1 hc'
        rcases ih c hc hr with ⟨s, hs, h⟩ | ⟨s, hs, h⟩
        · exact .inl ⟨s, mem_nodes_of_mem_children hc hs, h⟩
        · exact .inr ⟨s, mem_nodes_of_mem_children hc hs, h⟩

/-! ## Parents -/

omit [DecidableEq κ] in
/-- What an object of a tree holds is below the root. -/
theorem key_mem_keys_children {t q x : RoseTree α} (hq : q ∈ t.nodes) (hx : x ∈ q.children) :
    key x.label ∈ keys key t.children := by
  obtain ⟨a, cs⟩ := t
  rw [children_node]
  rw [nodes_node] at hq
  rcases List.mem_cons.1 hq with rfl | hq
  · exact (mem_keys key).2 ⟨x, List.mem_flatMap.2 ⟨x, hx, mem_nodes_self x⟩, rfl⟩
  · obtain ⟨c, hc, hq⟩ := List.mem_flatMap.1 hq
    exact (mem_keys key).2 ⟨x, List.mem_flatMap.2
      ⟨c, hc, nodes_trans hq (mem_nodes_of_mem_children hx (mem_nodes_self x))⟩, rfl⟩

omit [DecidableEq κ] in
/-- A key is in one tree only. -/
theorem Distinct.eq_of_mem_keys {ts : List (RoseTree α)} (hd : Distinct key ts) {t t' : RoseTree α}
    (ht : t ∈ ts) (ht' : t' ∈ ts) {k : κ} (hk : k ∈ keys key [t]) (hk' : k ∈ keys key [t']) :
    t = t' := by
  induction ts with
  | nil => exact absurd ht List.not_mem_nil
  | cons t₀ ts ih =>
    obtain ⟨-, hts, hdisj⟩ := hd.of_cons
    rcases List.mem_cons.1 ht with rfl | hmem <;> rcases List.mem_cons.1 ht' with rfl | hmem'
    · rfl
    · exact absurd (mem_keys_of_mem key hmem' hk') (hdisj hk)
    · exact absurd (mem_keys_of_mem key hmem hk) (hdisj hk')
    · exact ih hts hmem hmem'

omit [DecidableEq κ] in
/-- A root is held by no object. -/
theorem Distinct.root_ne {ts : List (RoseTree α)} (hd : Distinct key ts) {t q x : RoseTree α}
    (ht : t ∈ ts) (hq : q ∈ ts.flatMap nodes) (hx : x ∈ q.children) :
    key t.label ≠ key x.label := by
  intro he
  obtain ⟨t', ht', hq⟩ := List.mem_flatMap.1 hq
  have hx' : key x.label ∈ keys key [t'] :=
    key_mem_keys key (nodes_trans hq (mem_nodes_of_mem_children hx (mem_nodes_self x)))
  obtain rfl : t = t' :=
    hd.eq_of_mem_keys ht ht' (he ▸ key_mem_keys key (mem_nodes_self t)) hx'
  have hroot := hd.of_mem key ht
  obtain ⟨a, cs⟩ := t
  rw [Distinct, keys_node, List.nodup_cons] at hroot
  exact hroot.1 (he ▸ key_mem_keys_children hq hx)

omit [DecidableEq κ] in
theorem parent_unique_tree {t q q' x x' : RoseTree α} (hd : Distinct key [t]) (hq : q ∈ t.nodes)
    (hq' : q' ∈ t.nodes) (hx : x ∈ q.children) (hx' : x' ∈ q'.children)
    (he : key x.label = key x'.label) : q = q' := by
  induction t with
  | node a cs ih =>
    rw [Distinct, keys_node, List.nodup_cons] at hd
    rw [nodes_node] at hq hq'
    rcases List.mem_cons.1 hq with rfl | hq <;> rcases List.mem_cons.1 hq' with rfl | hq'
    · rfl
    · exact absurd he (Distinct.root_ne hd.2 hx hq' hx')
    · exact absurd he.symm (Distinct.root_ne hd.2 hx' hq hx)
    · obtain ⟨c, hc, hq⟩ := List.mem_flatMap.1 hq
      obtain ⟨c', hc', hq'⟩ := List.mem_flatMap.1 hq'
      have hk := key_mem_keys key (nodes_trans hq (mem_nodes_of_mem_children hx (mem_nodes_self x)))
      have hk' :=
        key_mem_keys key (nodes_trans hq' (mem_nodes_of_mem_children hx' (mem_nodes_self x')))
      obtain rfl : c = c' := Distinct.eq_of_mem_keys hd.2 hc hc' hk (he ▸ hk')
      exact ih c hc (Distinct.of_mem key hd.2 hc) hq hq'

omit [DecidableEq κ] in
/-- An object is held by one object only. -/
theorem Distinct.parent_unique {ts : List (RoseTree α)} (hd : Distinct key ts)
    {q q' x x' : RoseTree α} (hq : q ∈ ts.flatMap nodes) (hq' : q' ∈ ts.flatMap nodes)
    (hx : x ∈ q.children) (hx' : x' ∈ q'.children) (he : key x.label = key x'.label) : q = q' := by
  obtain ⟨t, ht, hq⟩ := List.mem_flatMap.1 hq
  obtain ⟨t', ht', hq'⟩ := List.mem_flatMap.1 hq'
  have hk := key_mem_keys key (nodes_trans hq (mem_nodes_of_mem_children hx (mem_nodes_self x)))
  have hk' :=
    key_mem_keys key (nodes_trans hq' (mem_nodes_of_mem_children hx' (mem_nodes_self x')))
  obtain rfl : t = t' := hd.eq_of_mem_keys ht ht' hk (he ▸ hk')
  exact parent_unique_tree (hd.of_mem key ht) hq hq' hx hx' he

omit [DecidableEq κ] in
/-- What an object holds has other keys than the object. -/
theorem Distinct.children {ts : List (RoseTree α)} (hd : Distinct key ts) {c : RoseTree α}
    (hc : c ∈ ts.flatMap nodes) :
    Distinct key c.children ∧ key c.label ∉ keys key c.children := by
  obtain ⟨t, ht, hct⟩ := List.mem_flatMap.1 hc
  have hdc := (hd.of_mem key ht).of_nodes hct
  obtain ⟨a, cs⟩ := c
  rw [Distinct, keys_node, List.nodup_cons] at hdc
  exact ⟨hdc.2, hdc.1⟩

/-- A replacement of a tree leaves the other ones. -/
theorem Distinct.map_modify {l l' : List (RoseTree α)} {s : RoseTree α}
    (hd : Distinct key (l ++ s :: l')) (f : RoseTree α → RoseTree α) :
    (l ++ s :: l').map (RoseTree.modify key (key s.label) f) = l ++ f s :: l' := by
  obtain ⟨-, hdl, hdisj⟩ := hd.of_append
  obtain ⟨-, -, hdisj'⟩ := hdl.of_cons
  have hself := key_mem_keys key (mem_nodes_self s)
  have hl : key s.label ∉ keys key l := fun hk =>
    hdisj hk (mem_keys_of_mem key List.mem_cons_self hself)
  rw [List.map_append, List.map_cons, map_modify_of_notMem key _ hl,
    map_modify_of_notMem key _ (hdisj' hself), modify_self]

/-- A tree, and the other ones. -/
theorem Distinct.perm_cons_filter {ts : List (RoseTree α)} (hd : Distinct key ts)
    {s : RoseTree α} (hs : s ∈ ts) :
    (s :: ts.filter fun t => key t.label ≠ key s.label).Perm ts := by
  induction ts with
  | nil => exact absurd hs List.not_mem_nil
  | cons t ts ih =>
    obtain ⟨-, hts, hdisj⟩ := hd.of_cons
    rcases List.mem_cons.1 hs with rfl | hmem
    · have hothers : ∀ t' ∈ ts, decide (key t'.label ≠ key s.label) = true := by
        intro t' ht'
        refine decide_eq_true fun he => ?_
        exact hdisj (key_mem_keys key (mem_nodes_self s))
          (he ▸ mem_keys_of_mem key ht' (key_mem_keys key (mem_nodes_self t')))
      rw [List.filter_cons_of_neg (by simp), List.filter_eq_self.2 hothers]
    · have hne : key t.label ≠ key s.label := fun he =>
        hdisj (he ▸ key_mem_keys key (mem_nodes_self t))
          (mem_keys_of_mem key hmem (key_mem_keys key (mem_nodes_self s)))
      have hkept : decide (key t.label ≠ key s.label) = true := decide_eq_true hne
      rw [List.filter_cons, if_pos hkept]
      exact (List.Perm.swap _ _ _).trans ((ih hts hmem).cons t)

/-- What replaces a child is replaced with the children of the object that holds it. -/
theorem map_modify_child {ts : List (RoseTree α)} (hd : Distinct key ts) {c s : RoseTree α}
    (hc : c ∈ ts.flatMap nodes) (hs : s ∈ c.children) (f : RoseTree α → RoseTree α) :
    ts.map (modify key (key s.label) f) = ts.map (modify key (key c.label) fun t =>
      node t.label (t.children.map (modify key (key s.label) f))) := by
  refine List.map_congr_left fun t ht => ?_
  have htree : ∀ t ∈ ts.flatMap nodes, key t.label ≠ key s.label →
      modify key (key s.label) f t = modify key (key c.label) (fun t =>
        node t.label (t.children.map (modify key (key s.label) f))) t := by
    intro t ht hne
    induction t with
    | node a cs ih =>
      rw [label_node] at hne
      rw [modify_node, modify_node, if_neg hne]
      split_ifs with hkey
      · rfl
      · refine congrArg (node a) (List.map_congr_left fun b hb => ih b hb ?_ fun he => hkey ?_)
        · obtain ⟨t₀, ht₀, hnode⟩ := List.mem_flatMap.1 ht
          exact List.mem_flatMap.2
            ⟨t₀, ht₀, nodes_trans hnode (mem_nodes_of_mem_children hb (mem_nodes_self b))⟩
        · rw [← hd.parent_unique ht hc hb hs he, label_node]
  exact htree t (List.mem_flatMap.2 ⟨t, ht, mem_nodes_self t⟩) (hd.root_ne ht hc hs)

/-! ## The way to the root -/

variable (key)

mutual

/-- The object at an address and those that hold it, up to the root. -/
def path (k : κ) : RoseTree α → Option (List (RoseTree α))
  | node a cs =>
    if key a = k then some [node a cs] else (forestPath k cs).map (· ++ [node a cs])

def forestPath (k : κ) : List (RoseTree α) → Option (List (RoseTree α))
  | [] => none
  | t :: ts => (path k t).orElse fun _ => forestPath k ts

end

variable {key}

theorem forestPath_eq_some {k : κ} {ts p : List (RoseTree α)}
    (h : forestPath key k ts = some p) : ∃ t ∈ ts, path key k t = some p := by
  induction ts with
  | nil => nomatch h
  | cons t ts ih =>
    rw [forestPath] at h
    rcases hp : path key k t with _ | q
    · rw [hp, Option.orElse_none] at h
      obtain ⟨t', ht', h'⟩ := ih h
      exact ⟨t', List.mem_cons_of_mem _ ht', h'⟩
    · rw [hp, Option.orElse_some] at h
      exact ⟨t, List.mem_cons_self, hp.trans h⟩

/-- The way to the root goes through objects of the tree. -/
theorem mem_nodes_of_mem_path {k : κ} {t : RoseTree α} {p : List (RoseTree α)}
    (h : path key k t = some p) : ∀ s ∈ p, s ∈ t.nodes := by
  induction t generalizing p with
  | node a cs ih =>
    rw [path] at h
    split at h
    · obtain rfl := Option.some.inj h
      intro s hs
      rw [List.mem_singleton] at hs
      exact hs ▸ mem_nodes_self _
    · obtain ⟨q, hq, rfl⟩ := Option.map_eq_some_iff.1 h
      obtain ⟨c, hc, hp⟩ := forestPath_eq_some hq
      intro s hs
      rcases List.mem_append.1 hs with hs | hs
      · exact mem_nodes_of_mem_children hc (ih c hc hp s hs)
      · rw [List.mem_singleton] at hs
        exact hs ▸ mem_nodes_self _

/-- It begins with the object at the address. -/
theorem path_eq_cons {k : κ} {t : RoseTree α} {p : List (RoseTree α)}
    (h : path key k t = some p) : ∃ s q, p = s :: q ∧ key s.label = k := by
  induction t generalizing p with
  | node a cs ih =>
    rw [path] at h
    split at h
    · next he => exact ⟨_, [], (Option.some.inj h).symm, he⟩
    · obtain ⟨q, hq, rfl⟩ := Option.map_eq_some_iff.1 h
      obtain ⟨c, hc, hp⟩ := forestPath_eq_some hq
      obtain ⟨s, q', rfl, hs⟩ := ih c hc hp
      exact ⟨s, q' ++ [node a cs], rfl, hs⟩

/-- Those on the way up hold something. -/
theorem children_ne_nil_of_mem_path {k : κ} {t : RoseTree α} {p : List (RoseTree α)}
    (h : path key k t = some p) : ∀ s ∈ p.tail, s.children ≠ [] := by
  induction t generalizing p with
  | node a cs ih =>
    rw [path] at h
    split at h
    · obtain rfl := Option.some.inj h
      exact fun _ hs => absurd hs List.not_mem_nil
    · obtain ⟨q, hq, rfl⟩ := Option.map_eq_some_iff.1 h
      obtain ⟨c, hc, hp⟩ := forestPath_eq_some hq
      obtain ⟨s₀, q', rfl, -⟩ := path_eq_cons hp
      intro s hs
      rcases List.mem_append.1 hs with hs | hs
      · exact ih c hc hp s hs
      · rw [List.mem_singleton] at hs
        rw [hs, children_node]
        exact List.ne_nil_of_mem hc

/-- An object is one of the trees, or held by the next one on the way up. -/
theorem path_cases {k : κ} {t s : RoseTree α} {q : List (RoseTree α)}
    (h : path key k t = some (s :: q)) :
    (q = [] ∧ s = t) ∨ ∃ c q', q = c :: q' ∧ c ∈ t.nodes ∧ s ∈ c.children := by
  induction t generalizing s q with
  | node a cs ih =>
    rw [path] at h
    split at h
    · obtain ⟨rfl, rfl⟩ := List.cons.inj (Option.some.inj h)
      exact .inl ⟨rfl, rfl⟩
    · obtain ⟨p, hp, he⟩ := Option.map_eq_some_iff.1 h
      obtain ⟨c, hc, hpath⟩ := forestPath_eq_some hp
      obtain ⟨s', q', rfl, -⟩ := path_eq_cons hpath
      obtain ⟨rfl, rfl⟩ := List.cons.inj he
      refine .inr ?_
      rcases ih c hc hpath with ⟨rfl, rfl⟩ | ⟨c', q'', rfl, hc', hs⟩
      · exact ⟨node a cs, [], rfl, mem_nodes_self _, hc⟩
      · exact ⟨c', q'' ++ [node a cs], rfl, mem_nodes_of_mem_children hc hc', hs⟩

/-- Each object on the way up is held by the next one. -/
theorem isChain_path {k : κ} {t : RoseTree α} {p : List (RoseTree α)}
    (h : path key k t = some p) :
    p.IsChain (fun s q => s ∈ q.children) ∧ p.getLast? = some t := by
  induction t generalizing p with
  | node a cs ih =>
    rw [path] at h
    split at h
    · obtain rfl := Option.some.inj h
      exact ⟨List.isChain_singleton _, rfl⟩
    · obtain ⟨q, hq, rfl⟩ := Option.map_eq_some_iff.1 h
      obtain ⟨c, hc, hp⟩ := forestPath_eq_some hq
      obtain ⟨hchain, hlast⟩ := ih c hc hp
      refine ⟨List.isChain_append.2 ⟨hchain, List.isChain_singleton _, ?_⟩, by simp⟩
      intro s hs r hr
      obtain rfl := Option.some.inj (hlast.symm.trans hs)
      obtain rfl := Option.some.inj hr
      exact hc

/-- On the way up are the objects that hold the address. -/
theorem mem_path_iff {k : κ} {t : RoseTree α} (hd : Distinct key [t]) {p : List (RoseTree α)}
    (h : path key k t = some p) {s : RoseTree α} :
    s ∈ p ↔ s ∈ t.nodes ∧ k ∈ keys key [s] := by
  induction t generalizing p with
  | node a cs ih =>
    rw [Distinct, keys_node, List.nodup_cons] at hd
    have hbelow : ∀ c ∈ cs, s ∈ c.nodes → k ∈ keys key [s] → k ∈ keys key [c] :=
      fun c _ hs hk => (keys_sublist hs).subset hk
    rw [path] at h
    split at h
    · next he =>
      obtain rfl := Option.some.inj h
      rw [List.mem_singleton, nodes_node, List.mem_cons]
      refine ⟨?_, fun hs => hs.1.resolve_right fun hmem => ?_⟩
      · rintro rfl
        exact ⟨.inl rfl, by rw [keys_node, he]; exact List.mem_cons_self⟩
      · obtain ⟨c, hc, hsc⟩ := List.mem_flatMap.1 hmem
        exact hd.1 (he ▸ mem_keys_of_mem key hc (hbelow c hc hsc hs.2))
    · next hne =>
      obtain ⟨q, hq, rfl⟩ := Option.map_eq_some_iff.1 h
      obtain ⟨c, hc, hp⟩ := forestPath_eq_some hq
      have hdc := Distinct.of_mem key hd.2 hc
      obtain ⟨s₀, q', rfl, hs₀⟩ := path_eq_cons hp
      have hkc : k ∈ keys key [c] :=
        hs₀ ▸ key_mem_keys key (mem_nodes_of_mem_path hp s₀ List.mem_cons_self)
      rw [List.mem_append, List.mem_singleton, ih c hc hdc hp, nodes_node, List.mem_cons]
      constructor
      · rintro (⟨hs, hk⟩ | rfl)
        · exact ⟨.inr (List.mem_flatMap.2 ⟨c, hc, hs⟩), hk⟩
        · refine ⟨.inl rfl, ?_⟩
          rw [keys_node]
          exact List.mem_cons_of_mem _ (mem_keys_of_mem key hc hkc)
      · rintro ⟨rfl | hs, hk⟩
        · exact .inr rfl
        · obtain ⟨c', hc', hs⟩ := List.mem_flatMap.1 hs
          obtain rfl : c' = c := Distinct.eq_of_mem_keys hd.2 hc' hc (hbelow c' hc' hs hk) hkc
          exact .inl ⟨hs, hk⟩

/-- There is a way to the root from every object that is there. -/
theorem forestPath_isSome {k : κ} {ts : List (RoseTree α)} :
    (forestPath key k ts).isSome = true ↔ k ∈ keys key ts := by
  suffices hforest : ∀ ts : List (RoseTree α),
      (∀ t ∈ ts, (path key k t).isSome = true ↔ k ∈ keys key [t]) →
        ((forestPath key k ts).isSome = true ↔ k ∈ keys key ts) by
    refine hforest ts fun t _ => ?_
    clear * - hforest
    induction t with
    | node a cs ih =>
      rw [path, keys_node, List.mem_cons]
      split
      · next he => exact iff_of_true rfl (.inl he.symm)
      · next hne => rw [Option.isSome_map, hforest cs ih, or_iff_right (Ne.symm hne)]
  intro ts
  induction ts with
  | nil => exact fun _ => iff_of_false Bool.false_ne_true List.not_mem_nil
  | cons t ts ih =>
    intro h
    rw [keys_cons, List.mem_append, ← h t List.mem_cons_self,
      ← ih fun t' ht' => h t' (List.mem_cons_of_mem _ ht'), forestPath]
    rcases path key k t with _ | p
    · rw [Option.orElse_none, Option.isSome_none, or_iff_right Bool.false_ne_true]
    · exact iff_of_true rfl (.inl rfl)

end find

/-! ## New labels -/

mutual

/-- The tree with `g` applied to every label. -/
def relabel (g : α → α) : RoseTree α → RoseTree α
  | node a cs => node (g a) (forestRelabel g cs)

def forestRelabel (g : α → α) : List (RoseTree α) → List (RoseTree α)
  | [] => []
  | t :: ts => relabel g t :: forestRelabel g ts

end

theorem forestRelabel_eq (g : α → α) :
    ∀ ts : List (RoseTree α), forestRelabel g ts = ts.map (relabel g)
  | [] => rfl
  | t :: ts => congrArg (relabel g t :: ·) (forestRelabel_eq g ts)

theorem relabel_node (g : α → α) (a : α) (cs : List (RoseTree α)) :
    (node a cs).relabel g = node (g a) (cs.map (relabel g)) := by
  rw [relabel, forestRelabel_eq]

theorem label_relabel (g : α → α) (t : RoseTree α) : (t.relabel g).label = g t.label := by
  cases t
  rw [relabel_node, label_node, label_node]

theorem nodes_relabel (g : α → α) (t : RoseTree α) :
    (t.relabel g).nodes = t.nodes.map (relabel g) := by
  induction t with
  | node a cs ih =>
    rw [relabel_node, nodes_node, nodes_node, List.map_cons, relabel_node, List.flatMap_map,
      List.map_flatMap]
    exact congrArg _ (List.flatMap_congr ih)

theorem labels_relabel (g : α → α) (t : RoseTree α) : (t.relabel g).labels = t.labels.map g := by
  rw [labels, nodes_relabel, labels, List.map_map, List.map_map]
  exact List.map_congr_left fun s _ => label_relabel g s

theorem relabel_relabel (g f : α → α) (t : RoseTree α) :
    (t.relabel f).relabel g = t.relabel (g ∘ f) := by
  induction t with
  | node a cs ih =>
    rw [relabel_node, relabel_node, relabel_node, List.map_map]
    exact congrArg _ (List.map_congr_left ih)

theorem relabel_congr {g f : α → α} {t : RoseTree α} (h : ∀ a ∈ t.labels, g a = f a) :
    t.relabel g = t.relabel f := by
  induction t with
  | node a cs ih =>
    rw [labels_node] at h
    rw [relabel_node, relabel_node, h a List.mem_cons_self]
    refine congrArg _ (List.map_congr_left fun c hc => ih c hc fun b hb => ?_)
    exact h b (List.mem_cons_of_mem _ (List.mem_flatMap.2 ⟨c, hc, hb⟩))

theorem relabel_self {g : α → α} {t : RoseTree α} (h : ∀ a ∈ t.labels, g a = a) :
    t.relabel g = t := by
  induction t with
  | node a cs ih =>
    rw [labels_node] at h
    rw [relabel_node, h a List.mem_cons_self]
    refine congrArg _ ((List.map_congr_left fun c hc => ?_).trans (List.map_id cs))
    exact ih c hc fun b hb => h b (List.mem_cons_of_mem _ (List.mem_flatMap.2 ⟨c, hc, hb⟩))

theorem sum_relabel {w : α → ℕ} {g : α → α} (hg : ∀ a, w (g a) = w a) (t : RoseTree α) :
    (t.relabel g).sum w = t.sum w := by
  rw [sum, labels_relabel, List.map_map, sum]
  exact congrArg _ (List.map_congr_left fun a _ => hg a)

theorem flatMap_nodes_relabel (g : α → α) (ts : List (RoseTree α)) :
    (ts.map (relabel g)).flatMap nodes = (ts.flatMap nodes).map (relabel g) := by
  rw [List.flatMap_map, List.map_flatMap]
  exact List.flatMap_congr fun t _ => nodes_relabel g t

theorem keys_relabel {key : α → κ} {g : α → α} (hg : ∀ a, key (g a) = key a)
    (ts : List (RoseTree α)) : keys key (ts.map (relabel g)) = keys key ts := by
  rw [keys, keys, List.flatMap_map, List.map_flatMap, List.map_flatMap]
  refine List.flatMap_congr fun t _ => ?_
  rw [labels_relabel, List.map_map]
  exact List.map_congr_left fun a _ => hg a

theorem find?_relabel [DecidableEq κ] {key : α → κ} {g : α → α} (hg : ∀ a, key (g a) = key a)
    (k : κ) (ts : List (RoseTree α)) :
    find? key k (ts.map (relabel g)) = (find? key k ts).map (relabel g) := by
  rw [find?, flatMap_nodes_relabel, List.find?_map, find?]
  refine congrArg _ (congrArg (List.find? · _) ?_)
  ext t
  simp only [Function.comp, label_relabel, hg]

/-! ## Trees with other labels -/

section Map

variable {β : Type*} (g : α → β)

mutual

/-- The tree with a function of every label. -/
def map : RoseTree α → RoseTree β
  | node a cs => node (g a) (forestMap cs)

def forestMap : List (RoseTree α) → List (RoseTree β)
  | [] => []
  | t :: ts => map t :: forestMap ts

end

theorem forestMap_eq : ∀ ts : List (RoseTree α), forestMap g ts = ts.map (map g)
  | [] => rfl
  | t :: ts => congrArg (t.map g :: ·) (forestMap_eq ts)

theorem map_node (a : α) (cs : List (RoseTree α)) :
    (node a cs).map g = node (g a) (cs.map (map g)) := by
  rw [map, forestMap_eq]

theorem map_map {γ : Type*} (f : β → γ) (t : RoseTree α) : (t.map g).map f = t.map (f ∘ g) := by
  induction t with
  | node a cs ih =>
    rw [map_node, map_node, map_node, List.map_map]
    exact congrArg _ (List.map_congr_left ih)

end Map

end RoseTree

end Canary
