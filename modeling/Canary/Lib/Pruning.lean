import Canary.Lib.RoseTree
import Mathlib.Data.List.Perm.Basic

/-!
# Pruning

Subtrees are cut off a forest: all nodes that are `gone` are taken out, with what is below them.
What was in the forest is what stays in it and what is `lost` (`labels_pruneForest_perm`), and one
pruning after another is a single one (`pruneForest_pruneForest`), so that the order in which
subtrees are cut off does not matter, nor that a subtree may go with another.
-/

namespace Canary.RoseTree

universe u v

variable {α : Type u} {κ : Type v}

/-- Induction over a forest: the first tree, by what is below its root, and the other trees. -/
theorem forest_ind {motive : List (RoseTree α) → Prop} (nil : motive [])
    (cons : ∀ a cs ts, motive cs → motive ts → motive (node a cs :: ts))
    (ts : List (RoseTree α)) : motive ts := by
  have hchildren : ∀ t : RoseTree α, motive t.children := by
    intro t
    induction t with
    | node a cs ih =>
      rw [children_node]
      induction cs with
      | nil => exact nil
      | cons t ts ihts =>
        obtain ⟨b, ds⟩ := t
        exact cons b ds ts (ih _ List.mem_cons_self)
          (ihts fun c hc => ih c (List.mem_cons_of_mem _ hc))
  induction ts with
  | nil => exact nil
  | cons t ts ih =>
    obtain ⟨a, cs⟩ := t
    exact cons a cs ts (hchildren (node a cs)) ih

variable (gone : α → Bool)

mutual

/-- The tree without the nodes that are gone, and what is below them, if anything is left of it. -/
def prune : RoseTree α → List (RoseTree α)
  | node a cs => if gone a then [] else [node a (pruneForest cs)]

def pruneForest : List (RoseTree α) → List (RoseTree α)
  | [] => []
  | t :: ts => prune t ++ pruneForest ts

end

mutual

/-- What goes with the nodes that are gone. -/
def lostOf : RoseTree α → List α
  | node a cs => if gone a then a :: cs.flatMap labels else lost cs

def lost : List (RoseTree α) → List α
  | [] => []
  | t :: ts => lostOf t ++ lost ts

end

variable {gone}

theorem pruneForest_nil : pruneForest gone [] = [] := by
  rw [pruneForest]

theorem pruneForest_cons (a : α) (cs ts : List (RoseTree α)) :
    pruneForest gone (node a cs :: ts) =
      if gone a then pruneForest gone ts
      else node a (pruneForest gone cs) :: pruneForest gone ts := by
  rw [pruneForest, prune]
  split_ifs <;> rfl

theorem lost_nil : lost gone [] = [] := by
  rw [lost]

theorem lost_cons (a : α) (cs ts : List (RoseTree α)) :
    lost gone (node a cs :: ts) =
      (if gone a then a :: cs.flatMap labels else lost gone cs) ++ lost gone ts := by
  rw [lost, lostOf]

theorem flatMap_labels_cons (a : α) (cs ts : List (RoseTree α)) :
    (node a cs :: ts).flatMap labels = a :: (cs.flatMap labels ++ ts.flatMap labels) := by
  rw [List.flatMap_cons, labels_node, List.cons_append]

theorem mem_nodes_cons {a : α} {cs ts : List (RoseTree α)} {t : RoseTree α} :
    t ∈ (node a cs :: ts).flatMap nodes ↔
      t = node a cs ∨ t ∈ cs.flatMap nodes ∨ t ∈ ts.flatMap nodes := by
  rw [List.flatMap_cons, List.mem_append, nodes_node, List.mem_cons, or_assoc]

theorem pruneForest_append (ts ts' : List (RoseTree α)) :
    pruneForest gone (ts ++ ts') = pruneForest gone ts ++ pruneForest gone ts' := by
  induction ts with
  | nil => rw [pruneForest_nil, List.nil_append, List.nil_append]
  | cons t ts ih => rw [List.cons_append, pruneForest, ih, pruneForest, List.append_assoc]

/-- Labels that are gone just as before. -/
theorem pruneForest_relabel {g : α → α} (hg : ∀ a, gone (g a) = gone a)
    (ts : List (RoseTree α)) :
    pruneForest gone (ts.map (relabel g)) = (pruneForest gone ts).map (relabel g) := by
  induction ts using forest_ind with
  | nil => rw [List.map_nil, pruneForest_nil, List.map_nil]
  | cons a cs ts ihcs ihts =>
    rw [List.map_cons, relabel_node, pruneForest_cons, pruneForest_cons, hg, ihcs, ihts]
    split_ifs
    · rfl
    · rw [List.map_cons, relabel_node]

/-- What stays was there, with what stays of what is below it. -/
theorem exists_of_mem_pruneForest (ts : List (RoseTree α)) :
    ∀ t' ∈ (pruneForest gone ts).flatMap nodes, ∃ t ∈ ts.flatMap nodes, t'.label = t.label ∧
      t'.children = pruneForest gone t.children := by
  induction ts using forest_ind with
  | nil =>
    rw [pruneForest_nil]
    exact fun t' ht' => absurd ht' List.not_mem_nil
  | cons a cs ts ihcs ihts =>
    intro t' ht'
    have hlift : ∀ t, t ∈ cs.flatMap nodes ∨ t ∈ ts.flatMap nodes →
        t ∈ (node a cs :: ts).flatMap nodes := by
      intro t ht
      rw [List.flatMap_cons, nodes_node, List.mem_append, List.mem_cons]
      exact ht.imp_left .inr
    rw [pruneForest_cons] at ht'
    split_ifs at ht' with ha
    · obtain ⟨t, ht, h⟩ := ihts t' ht'
      exact ⟨t, hlift t (.inr ht), h⟩
    · rw [List.flatMap_cons, nodes_node, List.mem_append, List.mem_cons] at ht'
      rcases ht' with (rfl | ht') | ht'
      · exact ⟨node a cs, List.mem_flatMap.2 ⟨_, List.mem_cons_self, mem_nodes_self _⟩, rfl, rfl⟩
      · obtain ⟨t, ht, h⟩ := ihcs t' ht'
        exact ⟨t, hlift t (.inl ht), h⟩
      · obtain ⟨t, ht, h⟩ := ihts t' ht'
        exact ⟨t, hlift t (.inr ht), h⟩

/-- What was there lies in something that is gone, or stays with what stays of what is below it. -/
theorem mem_nodes_pruneForest (gone : α → Bool) (ts : List (RoseTree α)) :
    ∀ t ∈ ts.flatMap nodes, (∃ s ∈ ts.flatMap nodes, gone s.label = true ∧ t ∈ s.nodes) ∨
      ∃ t' ∈ (pruneForest gone ts).flatMap nodes, t'.label = t.label ∧
        t'.children = pruneForest gone t.children := by
  induction ts using forest_ind with
  | nil => exact fun t ht => absurd ht List.not_mem_nil
  | cons a cs ts ihcs ihts =>
    intro t ht
    rw [mem_nodes_cons] at ht
    simp only [mem_nodes_cons]
    rw [pruneForest_cons]
    by_cases ha : gone a = true
    · rw [if_pos ha]
      rcases ht with ht | ht | ht
      · exact .inl ⟨node a cs, .inl rfl, ha, ht ▸ mem_nodes_self _⟩
      · refine .inl ⟨node a cs, .inl rfl, ha, ?_⟩
        rw [nodes_node]
        exact List.mem_cons_of_mem _ ht
      · refine (ihts t ht).imp_left ?_
        rintro ⟨s, hs, h⟩
        exact ⟨s, .inr (.inr hs), h⟩
    · rw [if_neg ha]
      simp only [mem_nodes_cons]
      rcases ht with rfl | ht | ht
      · exact .inr ⟨_, .inl rfl, rfl, rfl⟩
      · refine (ihcs t ht).imp ?_ ?_
        · rintro ⟨s, hs, h⟩
          exact ⟨s, .inr (.inl hs), h⟩
        · rintro ⟨t', ht', h⟩
          exact ⟨t', .inr (.inl ht'), h⟩
      · refine (ihts t ht).imp ?_ ?_
        · rintro ⟨s, hs, h⟩
          exact ⟨s, .inr (.inr hs), h⟩
        · rintro ⟨t', ht', h⟩
          exact ⟨t', .inr (.inr ht'), h⟩

/-- What was there stays, or is lost. -/
theorem labels_pruneForest_perm (gone : α → Bool) (ts : List (RoseTree α)) :
    (ts.flatMap labels).Perm ((pruneForest gone ts).flatMap labels ++ lost gone ts) := by
  induction ts using forest_ind with
  | nil =>
    rw [pruneForest_nil, lost_nil]
    exact .refl _
  | cons a cs ts ihcs ihts =>
    rw [pruneForest_cons, lost_cons, flatMap_labels_cons]
    split_ifs
    · rw [← List.cons_append]
      refine (ihts.append_left _).trans ?_
      rw [← List.append_assoc, ← List.append_assoc]
      exact List.perm_append_comm.append_right _
    · rw [flatMap_labels_cons, List.cons_append]
      refine List.Perm.cons a ((ihcs.append ihts).trans ?_)
      rw [List.append_assoc, List.append_assoc]
      refine List.Perm.append_left _ ?_
      rw [← List.append_assoc, ← List.append_assoc]
      exact List.perm_append_comm.append_right _

/-- What a forest sums up to is what stays and what is lost. -/
theorem sum_pruneForest (gone : α → Bool) (w : α → ℕ) (ts : List (RoseTree α)) :
    ((ts.flatMap labels).map w).sum =
      (((pruneForest gone ts).flatMap labels).map w).sum + ((lost gone ts).map w).sum := by
  rw [((labels_pruneForest_perm gone ts).map w).sum_eq, List.map_append, List.sum_append]

theorem labels_pruneForest_sublist (gone : α → Bool) (ts : List (RoseTree α)) :
    ((pruneForest gone ts).flatMap labels).Sublist (ts.flatMap labels) := by
  induction ts using forest_ind with
  | nil =>
    rw [pruneForest_nil]
  | cons a cs ts ihcs ihts =>
    rw [pruneForest_cons, flatMap_labels_cons]
    split_ifs
    · exact (ihts.trans (List.sublist_append_right _ _)).cons a
    · rw [flatMap_labels_cons]
      exact (ihcs.append ihts).cons_cons a

/-- What is gone does not stay. -/
theorem not_gone_of_mem_pruneForest (ts : List (RoseTree α)) :
    ∀ a ∈ (pruneForest gone ts).flatMap labels, gone a = false := by
  induction ts using forest_ind with
  | nil =>
    rw [pruneForest_nil]
    exact fun a ha => absurd ha List.not_mem_nil
  | cons b cs ts ihcs ihts =>
    intro a ha
    rw [pruneForest_cons] at ha
    split_ifs at ha with hb
    · exact ihts a ha
    · rw [flatMap_labels_cons, List.mem_cons, List.mem_append] at ha
      rcases ha with rfl | ha | ha
      · exact Bool.eq_false_iff.2 hb
      · exact ihcs a ha
      · exact ihts a ha

theorem pruneForest_eq_self {ts : List (RoseTree α)}
    (h : ∀ a ∈ ts.flatMap labels, gone a = false) : pruneForest gone ts = ts := by
  induction ts using forest_ind with
  | nil => rw [pruneForest_nil]
  | cons a cs ts ihcs ihts =>
    rw [flatMap_labels_cons] at h
    have ha := h a List.mem_cons_self
    rw [pruneForest_cons, if_neg (Bool.eq_false_iff.1 ha),
      ihcs fun b hb => h b (List.mem_cons_of_mem _ (List.mem_append_left _ hb)),
      ihts fun b hb => h b (List.mem_cons_of_mem _ (List.mem_append_right _ hb))]

/-- Two prunings are one. -/
theorem pruneForest_pruneForest (gone gone' : α → Bool) (ts : List (RoseTree α)) :
    pruneForest gone' (pruneForest gone ts) = pruneForest (fun a => gone a || gone' a) ts := by
  induction ts using forest_ind with
  | nil => rw [pruneForest_nil, pruneForest_nil, pruneForest_nil]
  | cons a cs ts ihcs ihts =>
    rw [pruneForest_cons, pruneForest_cons]
    by_cases h : gone a = true
    · rw [if_pos h, ihts, h, Bool.true_or, if_pos rfl]
    · rw [if_neg h, pruneForest_cons, ihcs, ihts, Bool.eq_false_iff.2 h, Bool.false_or]

/-- The roots that are not gone stay. -/
theorem map_label_pruneForest (ts : List (RoseTree α)) :
    (pruneForest gone ts).map label = (ts.map label).filter fun a => !gone a := by
  induction ts with
  | nil => rw [pruneForest_nil, List.map_nil, List.filter_nil]
  | cons t ts ih =>
    obtain ⟨a, cs⟩ := t
    rw [pruneForest_cons, List.map_cons, label_node, List.filter_cons, ← ih]
    cases gone a <;> rfl

theorem pruneForest_congr {gone gone' : α → Bool} {ts : List (RoseTree α)}
    (h : ∀ a ∈ ts.flatMap labels, gone a = gone' a) :
    pruneForest gone ts = pruneForest gone' ts := by
  induction ts using forest_ind with
  | nil => rw [pruneForest_nil, pruneForest_nil]
  | cons a cs ts ihcs ihts =>
    rw [flatMap_labels_cons] at h
    rw [pruneForest_cons, pruneForest_cons, h a List.mem_cons_self,
      ihcs fun b hb => h b (List.mem_cons_of_mem _ (List.mem_append_left _ hb)),
      ihts fun b hb => h b (List.mem_cons_of_mem _ (List.mem_append_right _ hb))]

section keys

variable {key : α → κ} {ts : List (RoseTree α)}

/-- An object is known by its key. -/
theorem Distinct.label_eq (hd : Distinct key ts) {a b : α} (ha : a ∈ ts.flatMap labels)
    (hb : b ∈ ts.flatMap labels) (h : key a = key b) : a = b :=
  List.inj_on_of_nodup_map hd ha hb h

theorem Distinct.pruneForest (hd : Distinct key ts) (gone : α → Bool) :
    Distinct key (pruneForest gone ts) :=
  List.Nodup.sublist ((labels_pruneForest_sublist gone ts).map key) hd

/-- What is lost is not what stays. -/
theorem mem_pruneForest_iff (hd : Distinct key ts) {a : α} (ha : a ∈ ts.flatMap labels) :
    a ∈ (pruneForest gone ts).flatMap labels ↔ a ∉ lost gone ts := by
  have hperm := labels_pruneForest_perm gone ts
  have hnodup : (ts.flatMap labels).Nodup := List.Nodup.of_map key hd
  rw [hperm.nodup_iff, List.nodup_append'] at hnodup
  refine ⟨fun h h' => hnodup.2.2 h h', fun h => ?_⟩
  exact (List.mem_append.1 (hperm.mem_iff.1 ha)).resolve_right h

variable [DecidableEq κ]

theorem find?_eq_none_iff {k : κ} :
    find? key k ts = none ↔ ∀ a ∈ ts.flatMap labels, key a ≠ k := by
  rw [find?, List.find?_eq_none]
  constructor
  · intro h a ha hk
    obtain ⟨t, ht, hat⟩ := List.mem_flatMap.1 ha
    obtain ⟨s, hs, rfl⟩ := List.mem_map.1 hat
    exact h s (List.mem_flatMap.2 ⟨t, ht, hs⟩) (decide_eq_true hk)
  · intro h s hs hk
    obtain ⟨t, ht, hs⟩ := List.mem_flatMap.1 hs
    exact h s.label (List.mem_flatMap.2 ⟨t, ht, List.mem_map_of_mem hs⟩) (of_decide_eq_true hk)

/-! ## One object -/

/-- All but the object with the key. -/
def without (key : α → κ) (k : κ) (ts : List (RoseTree α)) : List (RoseTree α) :=
  pruneForest (fun a => decide (key a = k)) ts

theorem without_of_notMem {k : κ} (h : k ∉ keys key ts) : without key k ts = ts :=
  pruneForest_eq_self fun _ ha =>
    decide_eq_false fun he => h (List.mem_map.2 ⟨_, ha, he⟩)

theorem without_cons_of_ne {k : κ} {a : α} (h : key a ≠ k) (cs ts : List (RoseTree α)) :
    without key k (node a cs :: ts) = node a (without key k cs) :: without key k ts := by
  rw [without, pruneForest_cons, if_neg fun he => h (of_decide_eq_true he)]
  rfl

/-- Another object is found as before, if neither holds the other. -/
theorem find?_without {k k' : κ} (hd : Distinct key ts)
    (h : ∀ s, find? key k ts = some s → k' ∉ keys key [s])
    (h' : ∀ s, find? key k' ts = some s → k ∉ keys key [s]) :
    find? key k' (without key k ts) = find? key k' ts := by
  have hd' : Distinct key (without key k ts) := hd.pruneForest _
  cases hfind : find? key k' ts with
  | none =>
    rw [find?_eq_none_iff] at hfind ⊢
    exact fun a ha => hfind a ((labels_pruneForest_sublist _ ts).subset ha)
  | some s =>
    obtain ⟨hs, hk⟩ := find?_mem key hfind
    rw [find?_eq_some_iff key hd']
    rcases mem_nodes_pruneForest (fun a => decide (key a = k)) ts s hs with
      ⟨r, hr, hgone, hsr⟩ | ⟨t, ht, hlabel, hchildren⟩
    · have hr' : find? key k ts = some r :=
        (find?_eq_some_iff key hd).2 ⟨hr, of_decide_eq_true hgone⟩
      exact absurd (hk ▸ key_mem_keys key hsr) (h r hr')
    · have hkeep : pruneForest (fun a => decide (key a = k)) s.children = s.children := by
        refine pruneForest_eq_self fun a ha => decide_eq_false fun he => h' s hfind ?_
        obtain ⟨b, cs⟩ := s
        rw [keys_node]
        exact List.mem_cons_of_mem _ (he ▸ List.mem_map_of_mem ha)
      obtain rfl : t = s := by
        obtain ⟨a, cs⟩ := t
        obtain ⟨b, ds⟩ := s
        rw [label_node, label_node] at hlabel
        rw [children_node, children_node] at hchildren
        rw [hlabel, hchildren]
        exact congrArg _ hkeep
      exact ⟨ht, hk⟩

/-- One of the trees is taken out. -/
theorem without_root {s : RoseTree α} (hd : Distinct key ts) (hs : s ∈ ts) :
    without key (key s.label) ts = ts.filter fun t => key t.label ≠ key s.label := by
  induction ts with
  | nil => exact absurd hs List.not_mem_nil
  | cons t ts ih =>
    obtain ⟨-, hts, hdisj⟩ := hd.of_cons
    have hkey : ∀ t' ∈ ts, key t'.label ∈ keys key ts := fun t' ht' =>
      mem_keys_of_mem key ht' (key_mem_keys key (mem_nodes_self t'))
    rw [List.filter_cons]
    rcases List.mem_cons.1 hs with rfl | hs
    · -- The other trees do not have the key.
      have hn : key s.label ∉ keys key ts := fun h =>
        hdisj (key_mem_keys key (mem_nodes_self s)) h
      have hts' : ts.filter (fun t => key t.label ≠ key s.label) = ts :=
        List.filter_eq_self.2 fun t' ht' => decide_eq_true fun he => hn (he ▸ hkey t' ht')
      obtain ⟨a, cs⟩ := s
      rw [if_neg (by simp), hts', without, pruneForest_cons, label_node,
        if_pos (decide_eq_true rfl)]
      exact without_of_notMem hn
    · have hn : key s.label ∉ keys key [t] := fun h => hdisj h (hkey s hs)
      have hne : key t.label ≠ key s.label := fun he =>
        hn (he ▸ key_mem_keys key (mem_nodes_self t))
      have ht := without_of_notMem hn
      rw [if_pos (decide_eq_true hne), ← List.singleton_append, without, pruneForest_append]
      exact congrArg₂ (· ++ ·) ht (ih hts hs)

/-- An object is taken out of the one that holds it. -/
theorem without_child {t s : RoseTree α} (hd : Distinct key ts) (ht : t ∈ ts.flatMap nodes)
    (hs : s ∈ t.children) : without key (key s.label) ts =
      ts.map (modify key (key t.label) fun c =>
        node c.label (c.children.filter fun i => key i.label ≠ key s.label)) := by
  induction ts using forest_ind with
  | nil => exact absurd ht List.not_mem_nil
  | cons a cs ts ihcs ihts =>
    obtain ⟨htree, hts, hdisj⟩ := hd.of_cons
    rw [keys_node] at hdisj
    rw [Distinct, keys_node, List.nodup_cons] at htree
    have hmem : ∀ l : List (RoseTree α), t ∈ l.flatMap nodes →
        key t.label ∈ keys key l ∧ key s.label ∈ keys key l := by
      intro l hl
      obtain ⟨t₀, ht₀, htt⟩ := List.mem_flatMap.1 hl
      exact ⟨mem_keys_of_mem key ht₀ (key_mem_keys key htt),
        mem_keys_of_mem key ht₀ (key_mem_keys key
          (nodes_trans htt (mem_nodes_of_mem_children hs (mem_nodes_self s))))⟩
    rw [List.map_cons, modify_node]
    rw [List.flatMap_cons, List.mem_append, nodes_node, List.mem_cons] at ht
    rcases ht with (rfl | ht) | ht
    · -- The first tree holds it.
      rw [children_node] at hs
      have hsk : key s.label ∈ keys key cs :=
        mem_keys_of_mem key hs (key_mem_keys key (mem_nodes_self s))
      have hne : key a ≠ key s.label := fun he => htree.1 (he ▸ hsk)
      rw [label_node, if_pos rfl, without_cons_of_ne hne, without_root htree.2 hs,
        map_modify_of_notMem key _ fun h => hdisj List.mem_cons_self h,
        without_of_notMem fun h => hdisj (List.mem_cons_of_mem _ hsk) h]
      rfl
    · obtain ⟨htk, hsk⟩ := hmem cs ht
      have hne : key a ≠ key s.label := fun he => htree.1 (he ▸ hsk)
      have hne' : key a ≠ key t.label := fun he => htree.1 (he ▸ htk)
      rw [if_neg hne', without_cons_of_ne hne, ihcs htree.2 ht,
        map_modify_of_notMem key _ fun h => hdisj (List.mem_cons_of_mem _ htk) h,
        without_of_notMem fun h => hdisj (List.mem_cons_of_mem _ hsk) h]
    · obtain ⟨htk, hsk⟩ := hmem ts ht
      have hcs : ∀ k ∈ keys key ts, k ∉ keys key cs := fun k hk hk' =>
        hdisj (List.mem_cons_of_mem _ hk') hk
      have ha : ∀ k ∈ keys key ts, key a ≠ k := fun k hk he =>
        hdisj (he ▸ List.mem_cons_self) hk
      rw [if_neg (ha _ htk), without_cons_of_ne (ha _ hsk), ihts hts ht,
        map_modify_of_notMem key _ (hcs _ htk), without_of_notMem (hcs _ hsk)]

/-- An object with another label, which is that of the key. -/
theorem map_modify_label {k : κ} {F : RoseTree α → RoseTree α} {f : α → α}
    (hd : Distinct key ts)
    (hF : ∀ c ∈ ts.flatMap nodes, key c.label = k → F c = node (f c.label) c.children) :
    ts.map (modify key k F) = ts.map (relabel fun a => if key a = k then f a else a) := by
  refine List.map_congr_left fun t ht => ?_
  have hFt : ∀ c ∈ t.nodes, key c.label = k → F c = node (f c.label) c.children := fun c hc =>
    hF c (List.mem_flatMap.2 ⟨t, ht, hc⟩)
  have hdt := hd.of_mem key ht
  clear * - hFt hdt
  induction t with
  | node a cs ih =>
    rw [Distinct, keys_node, List.nodup_cons] at hdt
    rw [modify_node, relabel_node]
    split_ifs with he
    · -- What it holds has other keys.
      refine (hFt _ (mem_nodes_self _) he).trans (congrArg _ ?_)
      refine ((List.map_congr_left fun c hc => ?_).trans (List.map_id cs)).symm
      refine relabel_self fun b hb => if_neg fun hb' => hdt.1 ?_
      rw [he, ← hb']
      exact List.mem_map_of_mem (List.mem_flatMap.2 ⟨c, hc, hb⟩)
    · refine congrArg _ (List.map_congr_left fun c hc => ih c hc ?_ (Distinct.of_mem key hdt.2 hc))
      exact fun s hs => hFt s (mem_nodes_of_mem_children hc hs)

/-- It is lost with what is below it. -/
theorem lost_without {s : RoseTree α} (hd : Distinct key ts) (hs : s ∈ ts.flatMap nodes) :
    lost (fun a => decide (key a = key s.label)) ts = s.labels := by
  have hnone : ∀ l : List (RoseTree α), key s.label ∉ keys key l →
      lost (fun a => decide (key a = key s.label)) l = [] := by
    intro l hl
    have hperm := labels_pruneForest_perm (fun a => decide (key a = key s.label)) l
    rw [pruneForest_eq_self fun a ha =>
      decide_eq_false fun he => hl (List.mem_map.2 ⟨_, ha, he⟩)] at hperm
    have hlength := hperm.length_eq
    rw [List.length_append] at hlength
    exact List.length_eq_zero_iff.1 (by omega)
  induction ts using forest_ind with
  | nil => exact absurd hs List.not_mem_nil
  | cons a cs ts ihcs ihts =>
    obtain ⟨htree, hts, hdisj⟩ := hd.of_cons
    rw [keys_node] at hdisj
    rw [Distinct, keys_node, List.nodup_cons] at htree
    have hmem : ∀ l : List (RoseTree α), s ∈ l.flatMap nodes → key s.label ∈ keys key l :=
      fun l hl => (mem_keys key).2 ⟨s, hl, rfl⟩
    rw [lost_cons]
    rw [List.flatMap_cons, List.mem_append, nodes_node, List.mem_cons] at hs
    rcases hs with (rfl | hs) | hs
    · rw [label_node] at hnone ⊢
      rw [if_pos (decide_eq_true rfl), hnone ts fun h => hdisj List.mem_cons_self h,
        List.append_nil, labels_node]
    · have hk := hmem cs hs
      have hne : key a ≠ key s.label := fun he => htree.1 (he ▸ hk)
      rw [if_neg fun he => hne (of_decide_eq_true he), ihcs htree.2 hs,
        hnone ts fun h => hdisj (List.mem_cons_of_mem _ hk) h, List.append_nil]
    · have hk := hmem ts hs
      have hne : key a ≠ key s.label := fun he => hdisj (he ▸ List.mem_cons_self) hk
      rw [if_neg fun he => hne (of_decide_eq_true he),
        hnone cs fun h => hdisj (List.mem_cons_of_mem _ h) hk, ihts hts hs, List.nil_append]

end keys

end Canary.RoseTree
