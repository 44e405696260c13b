import Canary.Lib.RoseTree

/-!
# Cached sums

Trees of objects, some of which keep the sum of the weights of their children. The weight of an
object is one of its own and what it keeps, so that a change of weight has to be added to all
objects on the way to the root.

What the object at an address lacks is the weight to be added to what it keeps (`Lacks`). Other
children for it are a weight that it lacks more (`lacks_withChildren`). When a weight is added to it
and to the objects that hold it, then it lacks as much less, and nothing else changes
(`lacks_relabel`).
-/

namespace Canary.RoseTree

universe u v w

variable {α : Type u} {κ : Type v} {M : Type w} [AddCommMonoid M]

/-- The weights of labels, those that are kept, and how to add to them. -/
structure Weighing (α : Type u) (κ : Type v) (M : Type w) [AddCommMonoid M] where
  key : α → κ
  own : α → M
  cache : α → Option M
  add : M → α → α
  key_add : ∀ d a, key (add d a) = key a
  own_add : ∀ d a, own (add d a) = own a
  cache_add : ∀ d a, cache (add d a) = (cache a).map (· + d)

namespace Weighing

variable (C : Weighing α κ M)

def weight (t : RoseTree α) : M := C.own t.label + (C.cache t.label).getD 0

def weights (ts : List (RoseTree α)) : M := (ts.map C.weight).sum

/-- What a tree keeps is the weight of its children, but for `d` at the address `k`. -/
def Lacks [DecidableEq κ] (k : κ) (d : M) (t : RoseTree α) : Prop :=
  ∀ m, C.cache t.label = some m →
    m + (if C.key t.label = k then d else 0) = C.weights t.children

/-- Adding to the labels whose key is in a list. -/
def addAt [DecidableEq κ] (ks : List κ) (d : M) (a : α) : α :=
  if C.key a ∈ ks then C.add d a else a

variable {C} [DecidableEq κ] {k : κ} {d e : M} {t : RoseTree α} {ts : List (RoseTree α)}

theorem key_addAt (ks : List κ) (d : M) (a : α) : C.key (C.addAt ks d a) = C.key a := by
  rw [addAt]
  split_ifs
  · exact C.key_add d a
  · rfl

omit [DecidableEq κ] in
theorem weights_append (ts ts' : List (RoseTree α)) :
    C.weights (ts ++ ts') = C.weights ts + C.weights ts' := by
  rw [weights, List.map_append, List.sum_append, weights, weights]

omit [DecidableEq κ] in
theorem weights_cons (t : RoseTree α) (ts : List (RoseTree α)) :
    C.weights (t :: ts) = C.weight t + C.weights ts := by
  rw [weights, List.map_cons, List.sum_cons, weights]

omit [DecidableEq κ] in
theorem weights_perm {ts ts' : List (RoseTree α)} (hp : ts.Perm ts') :
    C.weights ts = C.weights ts' :=
  (hp.map _).sum_eq

theorem lacks_of_ne (hne : C.key t.label ≠ k) (h : C.Lacks k d t) : C.Lacks k e t := by
  intro m hm
  have hsum := h m hm
  rw [if_neg hne] at hsum ⊢
  exact hsum

/-- With nothing lacking, no address matters. -/
theorem lacks_zero : C.Lacks k 0 t ↔ ∀ m, C.cache t.label = some m → m = C.weights t.children := by
  refine forall₂_congr fun m _ => ?_
  rw [ite_self, add_zero]

/-! ## Other children -/

/-- The tree with other children. -/
def withChildren (f : List (RoseTree α) → List (RoseTree α)) (t : RoseTree α) : RoseTree α :=
  node t.label (f t.children)

variable {f : List (RoseTree α) → List (RoseTree α)} {s : RoseTree α}

theorem weights_modify_withChildren (cs : List (RoseTree α)) :
    C.weights (cs.map (modify C.key k (withChildren f))) = C.weights cs := by
  rw [weights, List.map_map, weights]
  refine congrArg List.sum (List.map_congr_left fun t _ => ?_)
  obtain ⟨a, cs⟩ := t
  rw [Function.comp, modify_node]
  split_ifs <;> rfl

/-- The object at an address gets other children: it lacks the weight that they have more. -/
theorem lacks_withChildren (hd : Distinct C.key ts) (hs : s ∈ ts.flatMap nodes)
    (h : ∀ t ∈ ts.flatMap nodes, C.Lacks (C.key s.label) e t)
    (hf : ∀ t ∈ (f s.children).flatMap nodes,
      C.key t.label ≠ C.key s.label ∧ C.Lacks (C.key s.label) e t)
    (hsum : C.weights (f s.children) = C.weights s.children + d) :
    ∀ t ∈ (ts.map (modify C.key (C.key s.label) (withChildren f))).flatMap nodes,
      C.Lacks (C.key s.label) (e + d) t := by
  intro t ht
  obtain ⟨t', ht', ht⟩ := List.mem_flatMap.1 ht
  obtain ⟨t₀, ht₀, rfl⟩ := List.mem_map.1 ht'
  rcases nodes_modify_cases ht with ⟨s', hs', hkey, hnode⟩ | ⟨s', hs', hne, hlabel, hchildren⟩
  · obtain rfl : s' = s :=
      hd.eq_of_key_eq C.key (List.mem_flatMap.2 ⟨t₀, ht₀, hs'⟩) hs hkey
    rw [withChildren, nodes_node] at hnode
    rcases List.mem_cons.1 hnode with rfl | hbelow
    · intro m hm
      have hlacks := h s' hs m hm
      rw [if_pos rfl] at hlacks
      rw [label_node, if_pos rfl, children_node, hsum, ← hlacks, add_assoc]
    · exact lacks_of_ne (hf t hbelow).1 (hf t hbelow).2
  · have hlacks := h s' (List.mem_flatMap.2 ⟨t₀, ht₀, hs'⟩)
    intro m hm
    rw [hlabel] at hm
    have hold := hlacks m hm
    rw [if_neg hne] at hold
    rw [hlabel, if_neg hne, hold, hchildren, weights_modify_withChildren]

/-! ## Adding on the way to the root -/

/-- Of different trees, at most one holds an address. -/
theorem sum_held (hd : Distinct C.key ts) :
    (ts.map fun t => if k ∈ keys C.key [t] then d else 0).sum =
      if k ∈ keys C.key ts then d else 0 := by
  induction ts with
  | nil => rfl
  | cons t ts ih =>
    obtain ⟨-, hts, hdisj⟩ := hd.of_cons
    rw [List.map_cons, List.sum_cons, ih hts]
    by_cases ht : k ∈ keys C.key [t]
    · have hkts : k ∉ keys C.key ts := fun hk => hdisj ht hk
      rw [if_pos ht, if_neg hkts, if_pos, add_zero]
      rw [keys_cons]
      exact List.mem_append_left _ ht
    · rw [if_neg ht, zero_add, keys_cons]
      refine if_congr ?_ rfl rfl
      rw [List.mem_append, or_iff_right ht]

theorem weight_relabel {ks : List κ} (hcache : C.key t.label ∈ ks → (C.cache t.label).isSome) :
    C.weight (t.relabel (C.addAt ks d)) =
      C.weight t + if C.key t.label ∈ ks then d else 0 := by
  rw [weight, label_relabel, addAt]
  split_ifs with hk
  · obtain ⟨m, hm⟩ := Option.isSome_iff_exists.1 (hcache hk)
    rw [C.own_add, C.cache_add, weight, hm, Option.map_some, Option.getD_some, Option.getD_some,
      add_assoc]
  · rw [add_zero, weight]

/-- A weight is added to the labels of the object at an address, and of those that hold it. -/
theorem lacks_relabel {ks : List κ} (hd : Distinct C.key [t])
    (hleaf : ∀ s ∈ t.nodes, C.cache s.label = none → s.children = [])
    (hcache : ∀ s ∈ t.nodes, C.key s.label = k → (C.cache s.label).isSome)
    (hks : ∀ s ∈ t.nodes, C.key s.label ∈ ks ↔ k ∈ keys C.key [s])
    (h : ∀ s ∈ t.nodes, C.Lacks k (e + d) s) :
    ∀ s ∈ (t.relabel (C.addAt ks d)).nodes, C.Lacks k e s := by
  intro s' hs'
  rw [nodes_relabel] at hs'
  obtain ⟨s, hs, rfl⟩ := List.mem_map.1 hs'
  have hds := hd.of_nodes hs
  obtain ⟨a, cs⟩ := s
  rw [Distinct, keys_node, List.nodup_cons] at hds
  -- The children that hold the address have the weight more, and one at most does.
  have hchildren : C.weights (cs.map (relabel (C.addAt ks d))) =
      C.weights cs + if k ∈ keys C.key cs then d else 0 := by
    rw [← sum_held hds.2, weights, List.map_map, weights, ← List.sum_map_add]
    refine congrArg List.sum (List.map_congr_left fun c hc => ?_)
    have hnode := nodes_trans hs (mem_nodes_of_mem_children hc (mem_nodes_self c))
    rw [Function.comp, weight_relabel fun hk => ?_, if_congr (hks c hnode) rfl rfl]
    by_contra hnone
    rw [Bool.not_eq_true, Option.isSome_eq_false_iff, Option.isNone_iff_eq_none] at hnone
    have hheld := (hks c hnode).1 hk
    obtain ⟨b, ds⟩ := c
    have hnil := hleaf _ hnode hnone
    rw [children_node] at hnil
    rw [hnil, keys_node] at hheld
    have hkb := (List.mem_singleton.1 hheld).symm
    rw [label_node] at hnone
    have hsome := hcache _ hnode hkb
    rw [label_node, hnone] at hsome
    exact Bool.false_ne_true hsome
  have hka := hks _ hs
  rw [keys_node, List.mem_cons, label_node] at hka
  have hlacks := h _ hs
  intro m' hm'
  rw [label_relabel, label_node, addAt] at hm'
  rw [label_relabel, label_node, key_addAt, relabel_node, children_node, hchildren]
  by_cases hk : C.key a ∈ ks
  · rw [if_pos hk, C.cache_add] at hm'
    obtain ⟨m, hm, rfl⟩ := Option.map_eq_some_iff.1 hm'
    have hold := hlacks m hm
    rw [label_node, children_node] at hold
    rcases eq_or_ne (C.key a) k with rfl | hne
    · rw [if_pos rfl] at hold
      rw [if_pos rfl, if_neg hds.1, add_zero, ← hold, add_assoc, add_comm d e]
    · have hcs := (hka.1 hk).resolve_left (Ne.symm hne)
      rw [if_neg hne, add_zero] at hold
      rw [if_neg hne, if_pos hcs, add_zero, hold]
  · rw [if_neg hk] at hm'
    have hold := hlacks m' hm'
    rw [label_node, children_node] at hold
    have hnot := mt hka.2 hk
    rw [not_or] at hnot
    rw [if_neg (Ne.symm hnot.1)] at hold ⊢
    rw [if_neg hnot.2, hold, add_zero]

end Weighing

end Canary.RoseTree
