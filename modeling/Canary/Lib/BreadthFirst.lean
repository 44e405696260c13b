import Canary.Lib.RoseTree
import Mathlib.Data.List.Perm.Basic

/-!
# Breadth-first search

A queue of trees is worked off: the children of the first one are found, and those that are to be
expanded join the queue. With fuel for all nodes, the search finds what is below the trees
(`breadthFirst_perm`), each node once, and goes level by level (`search_eq_levelOrder`).
-/

namespace Canary.RoseTree

universe u

variable {α : Type u} (expand : RoseTree α → Bool)

mutual

/-- What is below a tree, as far as nodes are expanded. -/
def under : RoseTree α → List (RoseTree α)
  | node _ cs => forestUnder cs

def forestUnder : List (RoseTree α) → List (RoseTree α)
  | [] => []
  | t :: ts => t :: ((if expand t then under t else []) ++ forestUnder ts)

end

theorem under_node (a : α) (cs : List (RoseTree α)) :
    (node a cs).under expand = forestUnder expand cs := by
  rw [under]

theorem under_eq (t : RoseTree α) : t.under expand = forestUnder expand t.children := by
  cases t
  rw [under_node, children_node]

/-- Where only trees without children are not expanded, that is all. -/
theorem forestUnder_eq {expand : RoseTree α → Bool} {ts : List (RoseTree α)}
    (h : ∀ t ∈ ts.flatMap nodes, expand t = false → t.children = []) :
    forestUnder expand ts = ts.flatMap nodes := by
  have hforest : ∀ ts : List (RoseTree α),
      (∀ t ∈ ts, (if expand t then t.under expand else []) = t.children.flatMap nodes) →
        forestUnder expand ts = ts.flatMap nodes := by
    intro ts hts
    induction ts with
    | nil => rw [forestUnder, List.flatMap_nil]
    | cons t ts ih =>
      obtain ⟨a, cs⟩ := t
      rw [forestUnder, hts _ List.mem_cons_self,
        ih fun t ht => hts t (List.mem_cons_of_mem _ ht), List.flatMap_cons, nodes_node,
        children_node, List.cons_append]
  refine hforest ts fun t ht => ?_
  have htree : ∀ s ∈ t.nodes, expand s = false → s.children = [] := fun s hs =>
    h s (List.mem_flatMap.2 ⟨t, ht, hs⟩)
  clear * - htree hforest
  induction t with
  | node a cs ih =>
    split_ifs with he
    · rw [under_node, children_node]
      exact hforest cs fun c hc => ih c hc fun s hs =>
        htree s (mem_nodes_of_mem_children hc hs)
    · rw [htree _ (mem_nodes_self _) (Bool.eq_false_iff.2 he), List.flatMap_nil]

/-- The search, one tree of the queue at a time. -/
def breadthFirst : ℕ → List (RoseTree α) → List (RoseTree α)
  | 0, _ => []
  | _, [] => []
  | fuel + 1, t :: queue => t.children ++ breadthFirst fuel (queue ++ t.children.filter expand)

theorem breadthFirst_nil (fuel : ℕ) : breadthFirst expand fuel [] = [] := by
  cases fuel <;> rfl

variable {expand}

/-- The children come first, or each before what is below it. -/
theorem forestUnder_perm (ts : List (RoseTree α)) :
    (forestUnder expand ts).Perm (ts ++ (ts.filter expand).flatMap (under expand)) := by
  induction ts with
  | nil => rw [forestUnder, List.filter_nil, List.flatMap_nil, List.append_nil]
  | cons t ts ih =>
    rw [forestUnder, List.cons_append, List.filter_cons]
    refine List.Perm.cons t ?_
    split_ifs
    · rw [List.flatMap_cons]
      refine (ih.append_left _).trans ?_
      rw [← List.append_assoc, ← List.append_assoc]
      exact List.perm_append_comm.append_right _
    · rw [List.nil_append]
      exact ih

theorem length_nodes_pos (t : RoseTree α) : 0 < t.nodes.length :=
  List.length_pos_of_mem t.mem_nodes_self

/-- A tree has more nodes than those of its children that join the queue. -/
theorem length_nodes_children (expand : RoseTree α → Bool) (t : RoseTree α) :
    ((t.children.filter expand).flatMap nodes).length < t.nodes.length := by
  have hsub : ((t.children.filter expand).flatMap nodes).length ≤
      (t.children.flatMap nodes).length :=
    (List.filter_sublist.flatMap nodes).length_le
  obtain ⟨a, cs⟩ := t
  rw [nodes_node, List.length_cons]
  exact Nat.lt_succ_of_le hsub

/-- Without nodes there are no trees. -/
theorem eq_nil_of_length_nodes {queue : List (RoseTree α)}
    (h : (queue.flatMap nodes).length ≤ 0) : queue = [] := by
  cases queue with
  | nil => rfl
  | cons t queue =>
    have := length_nodes_pos t
    rw [List.flatMap_cons, List.length_append] at h
    omega

/-- One tree worked off leaves fewer nodes. -/
theorem length_nodes_step (expand : RoseTree α → Bool) (t : RoseTree α)
    (queue : List (RoseTree α)) :
    ((queue ++ t.children.filter expand).flatMap nodes).length <
      ((t :: queue).flatMap nodes).length := by
  have := length_nodes_children expand t
  rw [List.flatMap_append, List.flatMap_cons, List.length_append, List.length_append]
  omega

theorem breadthFirst_perm {fuel : ℕ} {queue : List (RoseTree α)}
    (hfuel : (queue.flatMap nodes).length ≤ fuel) :
    (breadthFirst expand fuel queue).Perm (queue.flatMap (under expand)) := by
  induction fuel generalizing queue with
  | zero =>
    rw [eq_nil_of_length_nodes hfuel]
    exact .refl _
  | succ fuel ih =>
    cases queue with
    | nil => exact .refl _
    | cons t queue =>
      have hlt := Nat.lt_of_lt_of_le (length_nodes_step expand t queue) hfuel
      have hrest := ih (Nat.le_of_lt_succ hlt)
      rw [breadthFirst, List.flatMap_cons]
      refine (hrest.append_left _).trans ?_
      rw [under_eq, List.flatMap_append]
      refine List.Perm.trans ?_ ((forestUnder_perm t.children).symm.append_right _)
      rw [List.append_assoc]
      exact List.perm_append_comm.append_left _

/-! ## The search in order -/

variable (expand) in
/-- The search, with fuel for all nodes. -/
def search (queue : List (RoseTree α)) : List (RoseTree α) :=
  breadthFirst expand (queue.flatMap nodes).length queue

/-- More fuel is not used. -/
theorem breadthFirst_eq_search {fuel : ℕ} {queue : List (RoseTree α)}
    (hfuel : (queue.flatMap nodes).length ≤ fuel) :
    breadthFirst expand fuel queue = search expand queue := by
  have hsame : ∀ fuel fuel' (queue : List (RoseTree α)), (queue.flatMap nodes).length ≤ fuel →
      (queue.flatMap nodes).length ≤ fuel' →
        breadthFirst expand fuel queue = breadthFirst expand fuel' queue := by
    intro fuel
    induction fuel with
    | zero =>
      intro fuel' queue h _
      rw [eq_nil_of_length_nodes h, breadthFirst_nil, breadthFirst_nil]
    | succ fuel ih =>
      intro fuel' queue h h'
      cases queue with
      | nil => rw [breadthFirst_nil, breadthFirst_nil]
      | cons t queue =>
        have hlt := length_nodes_step expand t queue
        obtain ⟨m, rfl⟩ : ∃ m, fuel' = m + 1 := ⟨fuel' - 1, by omega⟩
        rw [breadthFirst, breadthFirst, ih m _ (by omega) (by omega)]
  exact hsame _ _ queue hfuel (Nat.le_refl _)

theorem search_nil : search expand ([] : List (RoseTree α)) = [] :=
  breadthFirst_nil expand _

theorem search_cons (t : RoseTree α) (queue : List (RoseTree α)) :
    search expand (t :: queue) =
      t.children ++ search expand (queue ++ t.children.filter expand) := by
  have hlt := length_nodes_step expand t queue
  obtain ⟨m, hm⟩ : ∃ m, ((t :: queue).flatMap nodes).length = m + 1 :=
    ⟨((t :: queue).flatMap nodes).length - 1, by omega⟩
  rw [search, hm, breadthFirst, breadthFirst_eq_search (by omega)]

variable (expand) in
/-- The first trees of the queue are worked off before those that join it. -/
theorem search_append (ts us : List (RoseTree α)) :
    search expand (ts ++ us.filter expand) =
      ts.flatMap children ++ search expand ((us ++ ts.flatMap children).filter expand) := by
  induction ts generalizing us with
  | nil => rw [List.nil_append, List.flatMap_nil, List.append_nil, List.nil_append]
  | cons t ts ih =>
    rw [List.cons_append, search_cons, List.append_assoc, ← List.filter_append, ih,
      List.flatMap_cons, List.append_assoc, List.append_assoc]

/-- The trees, then those right below them, and so on for so many levels. -/
def levelOrder : ℕ → List (RoseTree α) → List (RoseTree α)
  | 0, _ => []
  | n + 1, ts => ts ++ levelOrder n (ts.flatMap children)

/-- What is below trees are fewer nodes. -/
theorem length_nodes_flatMap_children (ts : List (RoseTree α)) :
    ((ts.flatMap children).flatMap nodes).length + ts.length = (ts.flatMap nodes).length := by
  induction ts with
  | nil => rfl
  | cons t ts ih =>
    obtain ⟨a, cs⟩ := t
    rw [List.flatMap_cons, List.flatMap_append, List.flatMap_cons, nodes_node, children_node,
      List.length_append, List.length_append, List.length_cons, List.length_cons]
    omega

theorem length_nodes_below {n : ℕ} {ts : List (RoseTree α)}
    (hn : (ts.flatMap nodes).length ≤ n + 1) :
    ((ts.flatMap children).flatMap nodes).length ≤ n := by
  have hlength := length_nodes_flatMap_children ts
  rcases ts with _ | ⟨t, ts⟩
  · exact Nat.zero_le n
  · rw [List.length_cons] at hlength
    omega

/-- On enough levels are all nodes, each once. -/
theorem levelOrder_perm {n : ℕ} {ts : List (RoseTree α)} (hn : (ts.flatMap nodes).length ≤ n) :
    (levelOrder n ts).Perm (ts.flatMap nodes) := by
  have hroots : ∀ ts : List (RoseTree α),
      (ts ++ (ts.flatMap children).flatMap nodes).Perm (ts.flatMap nodes) := by
    intro ts
    induction ts with
    | nil => exact .refl _
    | cons t ts ih =>
      obtain ⟨a, cs⟩ := t
      rw [List.flatMap_cons, List.flatMap_append, List.flatMap_cons, nodes_node, children_node,
        List.cons_append, List.cons_append]
      refine List.Perm.cons _ ?_
      refine List.Perm.trans ?_ (ih.append_left _)
      rw [← List.append_assoc, ← List.append_assoc]
      exact List.perm_append_comm.append_right _
  induction n generalizing ts with
  | zero =>
    rw [eq_nil_of_length_nodes hn]
    exact .refl _
  | succ n ih => exact ((ih (length_nodes_below hn)).append_left ts).trans (hroots ts)

/-- Where only trees without children are not expanded, the search goes level by level. -/
theorem search_eq_levelOrder {n : ℕ} {ts : List (RoseTree α)}
    (h : ∀ t ∈ ts.flatMap nodes, expand t = false → t.children = [])
    (hn : (ts.flatMap nodes).length ≤ n) :
    search expand (ts.filter expand) = levelOrder n (ts.flatMap children) := by
  induction n generalizing ts with
  | zero =>
    rw [eq_nil_of_length_nodes hn]
    exact search_nil
  | succ n ih =>
    have hall : (ts.filter expand).flatMap children = ts.flatMap children := by
      have hroot : ∀ t ∈ ts, expand t = false → t.children = [] := fun t ht =>
        h t (List.mem_flatMap.2 ⟨t, ht, t.mem_nodes_self⟩)
      clear * - hroot
      induction ts with
      | nil => rfl
      | cons t ts ih =>
        rw [List.filter_cons, List.flatMap_cons, ← ih fun t' ht' =>
          hroot t' (List.mem_cons_of_mem _ ht')]
        split_ifs with he
        · rw [List.flatMap_cons]
        · rw [hroot t List.mem_cons_self (Bool.eq_false_iff.2 he), List.nil_append]
    have hbelow : ∀ t ∈ (ts.flatMap children).flatMap nodes, expand t = false →
        t.children = [] := by
      intro t ht
      obtain ⟨c, hc, ht⟩ := List.mem_flatMap.1 ht
      obtain ⟨s, hs, hc⟩ := List.mem_flatMap.1 hc
      exact h t (List.mem_flatMap.2 ⟨s, hs, mem_nodes_of_mem_children hc ht⟩)
    have happend := search_append expand (ts.filter expand) []
    rw [List.filter_nil, List.append_nil, List.nil_append, hall] at happend
    rw [happend, ih hbelow (length_nodes_below hn), levelOrder]

end Canary.RoseTree
