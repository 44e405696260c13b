import Canary.Inventory.World

/-!
# The units a cylinder holds

`Heap`: the things of a state are different objects, containers alone hold things, and stacks
are not containers. Each change of a cylinder is one of the units that it holds: a thing added
adds its units (`unitsOf_addThing_container`, `unitsOf_addThing_player`), a stack updated has its
new count (`updateThing_spec`). Weights and notifications change none.
-/

namespace Canary.Inventory

open RoseTree

/-! ## Heaps -/

/-- Things as the server has them, all below the address `n`. -/
structure Heap (types : ItemTable) (n : Ref) (ts : List Thing) : Prop where
  distinct : Distinct Object.ref ts
  lt : ∀ r ∈ keys Object.ref ts, r < n
  leaf : ∀ t ∈ ts.flatMap nodes, t.label.storage = none → t.children = []
  plain : ∀ t ∈ ts.flatMap nodes, t.label.isStackable types = true → t.label.storage = none

namespace Heap

variable {types : ItemTable} {n n' : Ref} {item s : Thing} {ts : List Thing}

/-- A thing beside others. -/
theorem cons_iff : Heap types n (item :: ts) ↔
    Heap types n [item] ∧ Heap types n ts ∧
      (keys Object.ref [item]).Disjoint (keys Object.ref ts) := by
  have hnodes : ∀ t : Thing, t ∈ (item :: ts).flatMap nodes ↔
      t ∈ [item].flatMap nodes ∨ t ∈ ts.flatMap nodes := by
    intro t
    rw [List.flatMap_cons, List.mem_append, List.flatMap_singleton]
  have hkeys : ∀ r, r ∈ keys Object.ref (item :: ts) ↔
      r ∈ keys Object.ref [item] ∨ r ∈ keys Object.ref ts := by
    intro r
    rw [keys_cons, List.mem_append]
  constructor
  · intro h
    obtain ⟨h₁, h₂, hdisj⟩ := h.distinct.of_cons
    exact ⟨⟨h₁, fun r hr => h.lt r ((hkeys r).2 (.inl hr)),
        fun t ht => h.leaf t ((hnodes t).2 (.inl ht)),
        fun t ht => h.plain t ((hnodes t).2 (.inl ht))⟩,
      ⟨h₂, fun r hr => h.lt r ((hkeys r).2 (.inr hr)),
        fun t ht => h.leaf t ((hnodes t).2 (.inr ht)),
        fun t ht => h.plain t ((hnodes t).2 (.inr ht))⟩, hdisj⟩
  · rintro ⟨h₁, h₂, hdisj⟩
    refine ⟨?_, fun r hr => ((hkeys r).1 hr).elim (h₁.lt r) (h₂.lt r),
      fun t ht => ((hnodes t).1 ht).elim (h₁.leaf t) (h₂.leaf t),
      fun t ht => ((hnodes t).1 ht).elim (h₁.plain t) (h₂.plain t)⟩
    rw [Distinct, keys_cons]
    exact List.nodup_append'.2 ⟨h₁.distinct, h₂.distinct, hdisj⟩

/-- A stack holds nothing. -/
theorem children_of_stackable (h : Heap types n ts) (hs : s ∈ ts.flatMap nodes)
    (hstack : s.label.isStackable types = true) : s.children = [] :=
  h.leaf s hs (h.plain s hs hstack)

/-- Replacing a thing by one that is a heap for itself, with new addresses. -/
theorem modify (h : Heap types n ts) (hs : s ∈ ts.flatMap nodes) {f : Thing → Thing}
    (hf : Heap types n' [f s]) (hn : n ≤ n')
    (hnew : ∀ r ∈ keys Object.ref [f s], r ∈ keys Object.ref [s] ∨ r ∉ keys Object.ref ts) :
    Heap types n' (ts.map (RoseTree.modify Object.ref s.ref f)) := by
  -- A node is one of the replacement, or was there, perhaps with other things below it.
  have hnodes : ∀ t ∈ (ts.map (RoseTree.modify Object.ref s.ref f)).flatMap nodes,
      t ∈ (f s).nodes ∨ ∃ t' ∈ ts.flatMap nodes, t.label = t'.label ∧
        t.children = t'.children.map (RoseTree.modify Object.ref s.ref f) := by
    intro t ht
    obtain ⟨t₁, ht₁, ht⟩ := List.mem_flatMap.1 ht
    obtain ⟨t₀, ht₀, rfl⟩ := List.mem_map.1 ht₁
    rcases nodes_modify_cases ht with ⟨s', hs', hk, hr⟩ | ⟨t', ht', -, he⟩
    · have hs'ts : s' ∈ ts.flatMap nodes := List.mem_flatMap.2 ⟨t₀, ht₀, hs'⟩
      exact .inl (h.distinct.eq_of_key_eq Object.ref hs'ts hs hk ▸ hr)
    · exact .inr ⟨t', List.mem_flatMap.2 ⟨t₀, ht₀, ht'⟩, he⟩
  have hself : ∀ t ∈ (f s).nodes, t ∈ [f s].flatMap nodes := by
    intro t ht
    rwa [List.flatMap_singleton]
  refine ⟨h.distinct.modify hs hf.distinct hnew, fun r hr => ?_, fun t ht hc => ?_,
    fun t ht hc => ?_⟩
  · obtain ⟨t, ht, rfl⟩ := (mem_keys Object.ref).1 hr
    rcases hnodes t ht with ht | ⟨t', ht', he, -⟩
    · exact hf.lt _ (key_mem_keys Object.ref ht)
    · rw [he]
      exact (h.lt _ ((mem_keys Object.ref).2 ⟨t', ht', rfl⟩)).trans_le hn
  · rcases hnodes t ht with ht | ⟨t', ht', he, hchildren⟩
    · exact hf.leaf t (hself t ht) hc
    · rw [he] at hc
      rw [hchildren, h.leaf t' ht' hc, List.map_nil]
  · rcases hnodes t ht with ht | ⟨t', ht', he, -⟩
    · exact hf.plain t (hself t ht) hc
    · rw [he] at hc ⊢
      exact h.plain t' ht' hc

/-- New labels of the same addresses and types. -/
theorem relabel (h : Heap types n ts) {g : Object → Object}
    (hg : ∀ o, (g o).ref = o.ref ∧ (g o).id = o.id ∧ (g o).storage.isSome = o.storage.isSome) :
    Heap types n (ts.map (RoseTree.relabel g)) := by
  have hkeys := keys_relabel (fun o => (hg o).1) ts
  have hstorage : ∀ o, (g o).storage = none ↔ o.storage = none := by
    intro o
    rw [← Option.not_isSome_iff_eq_none, (hg o).2.2, Option.not_isSome_iff_eq_none]
  refine ⟨?_, fun r hr => h.lt r (hkeys ▸ hr), fun t ht hc => ?_, fun t ht hc => ?_⟩
  · rw [Distinct, hkeys]
    exact h.distinct
  · rw [flatMap_nodes_relabel] at ht
    obtain ⟨⟨o, cs⟩, ht', rfl⟩ := List.mem_map.1 ht
    rw [label_relabel, hstorage] at hc
    have hcs : cs = [] := h.leaf _ ht' hc
    rw [relabel_node, children_node, hcs, List.map_nil]
  · rw [flatMap_nodes_relabel] at ht
    obtain ⟨t', ht', rfl⟩ := List.mem_map.1 ht
    rw [label_relabel, Object.isStackable, (hg _).2.1] at hc
    rw [label_relabel, hstorage]
    exact h.plain t' ht' hc

end Heap

/-! ## Labels of stacks -/

namespace Object

variable {types : ItemTable}

theorem setID_keeps (types : ItemTable) (o : Object) (newid : BitVec 16) :
    (o.setID types newid).ref = o.ref ∧ (o.setID types newid).id = newid ∧
      (o.setID types newid).count = o.count ∧ (o.setID types newid).storage = o.storage := by
  rw [setID]
  dsimp only
  split_ifs <;> exact ⟨rfl, rfl, rfl, rfl⟩

/-- The sub type of a stack is its count, of 8 bits. -/
theorem setSubType_stack (o : Object) (h : o.isStackable types = true) (n : ℕ) :
    (o.setSubType types n).ref = o.ref ∧ (o.setSubType types n).id = o.id ∧
      (o.setSubType types n).getItemCount = n % 256 ∧
      (o.setSubType types n).storage = o.storage := by
  have hfluid : ¬ (types.server.items o.id).hasFluid = true := by
    rw [(types.stackable_plain o.id h).1]
    exact Bool.false_ne_true
  rw [isStackable] at h
  rw [setSubType, Items.Item.setSubType]
  dsimp only
  rw [if_neg hfluid, if_pos h]
  refine ⟨rfl, rfl, ?_, rfl⟩
  rw [getItemCount]
  simp

/-- The label of a stack that is updated to the same type and another count. -/
theorem update_stack (o : Object) (h : o.isStackable types = true) (n : ℕ) :
    ((o.setID types o.id).setSubType types n).ref = o.ref ∧
      ((o.setID types o.id).setSubType types n).id = o.id ∧
      ((o.setID types o.id).setSubType types n).getItemCount = n % 256 ∧
      ((o.setID types o.id).setSubType types n).storage = o.storage := by
  obtain ⟨href, hid, -, hstorage⟩ := o.setID_keeps types o.id
  have hstack : (o.setID types o.id).isStackable types = true := by
    rw [isStackable, hid]
    exact h
  obtain ⟨href', hid', hcount, hstorage'⟩ := (o.setID types o.id).setSubType_stack hstack n
  exact ⟨href'.trans href, hid'.trans hid, hcount, hstorage'.trans hstorage⟩

end Object

/-! ## New labels -/

/-- Labels that change neither addresses nor units. -/
def KeepsUnits (g : Object → Object) : Prop :=
  ∀ o, (g o).ref = o.ref ∧ (g o).id = o.id ∧ (g o).count = o.count ∧
    (g o).storage.isSome = o.storage.isSome

namespace KeepsUnits

variable {types : ItemTable} {n : Ref} {g : Object → Object} (hg : KeepsUnits g)

include hg

theorem ref (o : Object) : (g o).ref = o.ref := (hg o).1

theorem units (id : BitVec 16) (t : Thing) : Thing.units id (t.relabel g) = Thing.units id t := by
  refine sum_relabel (fun o => ?_) t
  rw [(hg o).2.1, Object.getItemCount, (hg o).2.2.1, Object.getItemCount]

theorem heap {ts : List Thing} (h : Heap types n ts) : Heap types n (ts.map (relabel g)) :=
  h.relabel fun o => ⟨(hg o).1, (hg o).2.1, (hg o).2.2.2⟩

end KeepsUnits

namespace World

variable {types : ItemTable} {w : World}

/-! ## What a cylinder holds -/

/-- The things below a player, or the container. -/
def heldBy (w : World) (cylinder : Cylinder) : List Thing :=
  match cylinder with
  | .player id => ((w.player? id).map Player.things).getD []
  | .container r => (w.find r).toList

/-- The units of an item id that a cylinder holds, however deep. -/
def unitsOf (w : World) (cylinder : Cylinder) (id : BitVec 16) : ℕ :=
  ((w.heldBy cylinder).map (Thing.units id)).sum

theorem things_subset_forest {p : Player} (hp : p ∈ w.players) : p.things ⊆ w.forest :=
  fun _ ht => List.mem_append_left _ (List.mem_flatMap.2 ⟨p, hp, ht⟩)

theorem exists_forest_eq {p : Player} (hp : p ∈ w.players) :
    ∃ l l', w.forest = l ++ p.things ++ l' := by
  obtain ⟨ps, ps', hps⟩ := List.append_of_mem hp
  refine ⟨ps.flatMap Player.things, ps'.flatMap Player.things ++ (w.tiles ++ w.loose), ?_⟩
  rw [forest, hps, List.flatMap_append, List.flatMap_cons]
  simp only [List.append_assoc]

theorem player?_mem {id : PlayerId} {p : Player} (h : w.player? id = some p) :
    p ∈ w.players ∧ p.id = id :=
  ⟨List.mem_of_find?_eq_some h, by simpa using List.find?_some h⟩

theorem find_mem {r : Ref} {t : Thing} (h : w.find r = some t) :
    t ∈ w.forest.flatMap nodes ∧ t.ref = r :=
  find?_mem Object.ref h

/-- What a cylinder holds are things of the state. -/
theorem heldBy_nodes {cylinder : Cylinder} {s : Thing}
    (hs : s ∈ (w.heldBy cylinder).flatMap nodes) : s ∈ w.forest.flatMap nodes := by
  rcases cylinder with id | r
  · rw [heldBy] at hs
    rcases hp : w.player? id with _ | p
    · rw [hp] at hs
      exact absurd hs List.not_mem_nil
    · rw [hp, Option.map_some, Option.getD_some] at hs
      obtain ⟨t, ht, hs⟩ := List.mem_flatMap.1 hs
      exact List.mem_flatMap.2 ⟨t, things_subset_forest (player?_mem hp).1 ht, hs⟩
  · rw [heldBy] at hs
    rcases hc : w.find r with _ | c
    · rw [hc] at hs
      exact absurd hs List.not_mem_nil
    · rw [hc, Option.toList_some, List.flatMap_singleton] at hs
      obtain ⟨t, ht, hct⟩ := List.mem_flatMap.1 (find_mem hc).1
      exact List.mem_flatMap.2 ⟨t, ht, nodes_trans hct hs⟩

/-! ## Changes to all things -/

theorem things_mapThings (f : Thing → Thing) (p : Player) :
    ({ p with inventory := fun slot => (p.inventory slot).map f } : Player).things =
      p.things.map f := by
  rw [Player.things, Player.things, List.map_filterMap]

theorem forest_mapThings (w : World) (f : Thing → Thing) :
    (w.mapThings f).forest = w.forest.map f := by
  rw [forest, forest, List.map_append, List.map_append, List.map_flatMap]
  refine congrArg (· ++ _) ?_
  rw [mapThings, List.flatMap_map]
  exact List.flatMap_congr fun p _ => things_mapThings f p

theorem player?_mapThings (f : Thing → Thing) (id : PlayerId) :
    (w.mapThings f).player? id = (w.player? id).map fun p =>
      { p with inventory := fun slot => (p.inventory slot).map f } := by
  rw [player?, player?, mapThings, List.find?_map]
  rfl

theorem heldBy_player_mapThings (f : Thing → Thing) (id : PlayerId) :
    (w.mapThings f).heldBy (.player id) = (w.heldBy (.player id)).map f := by
  rw [heldBy, heldBy, player?_mapThings]
  rcases w.player? id with _ | p
  · rfl
  · exact things_mapThings f p

section relabel

variable {g : Object → Object} (hg : KeepsUnits g)

include hg

theorem find_relabel (r : Ref) :
    (w.mapThings (relabel g)).find r = (w.find r).map (relabel g) := by
  rw [find, forest_mapThings, find?_relabel hg.ref, find]

theorem heldBy_relabel (cylinder : Cylinder) :
    (w.mapThings (relabel g)).heldBy cylinder = (w.heldBy cylinder).map (relabel g) := by
  rcases cylinder with id | r
  · exact heldBy_player_mapThings _ id
  · rw [heldBy, find_relabel hg, heldBy, Option.toList_map]

theorem unitsOf_relabel (cylinder : Cylinder) (id : BitVec 16) :
    (w.mapThings (relabel g)).unitsOf cylinder id = w.unitsOf cylinder id := by
  rw [unitsOf, heldBy_relabel hg, List.map_map, unitsOf]
  exact congrArg _ (List.map_congr_left fun t _ => hg.units id t)

theorem keys_mapThings_relabel :
    keys Object.ref (w.mapThings (relabel g)).forest = keys Object.ref w.forest := by
  rw [forest_mapThings, keys_relabel hg.ref]

theorem heap_mapThings_relabel {n : Ref} {item : Thing} (h : Heap types n (item :: w.forest)) :
    Heap types n (item :: (w.mapThings (relabel g)).forest) := by
  obtain ⟨hitem, hforest, hdisj⟩ := Heap.cons_iff.1 h
  refine Heap.cons_iff.2 ⟨hitem, ?_, ?_⟩
  · rw [forest_mapThings]
    exact hg.heap hforest
  · rwa [keys_mapThings_relabel hg]

end relabel

/-! ## Replacing a thing -/

section modify

variable {r : Ref} {f : Thing → Thing} (hf : ∀ t : Thing, t.label.ref = r → (f t).label.ref = r)

include hf

theorem ref_modify (t : Thing) : (RoseTree.modify Object.ref r f t).label.ref = t.label.ref := by
  obtain ⟨o, cs⟩ := t
  rw [modify_node]
  split
  · next he => rw [hf (.node o cs) he, label_node, he]
  · rfl

/-- A cylinder that holds the thing replaced holds the replacement. -/
theorem heldBy_modify (hd : Distinct Object.ref w.forest)
    (hd' : Distinct Object.ref (w.modify r f).forest) {cylinder : Cylinder}
    (hr : r ∈ keys Object.ref (w.heldBy cylinder)) :
    (w.modify r f).heldBy cylinder =
      (w.heldBy cylinder).map (RoseTree.modify Object.ref r f) := by
  rcases cylinder with id | c
  · exact heldBy_player_mapThings _ id
  · rw [heldBy, heldBy, ← Option.toList_map]
    refine congrArg _ ?_
    rcases hc : w.find c with _ | t
    · rw [heldBy, hc] at hr
      exact absurd hr List.not_mem_nil
    · rw [heldBy, hc] at hr
      obtain ⟨hmem, rfl⟩ := find_mem hc
      obtain ⟨t₀, ht₀, ht⟩ := List.mem_flatMap.1 hmem
      -- The container is still there, with the replacement in it.
      refine (find?_eq_some_iff Object.ref hd').2 ⟨?_, ref_modify hf t⟩
      rw [modify, forest_mapThings]
      exact List.mem_flatMap.2 ⟨_, List.mem_map_of_mem ht₀,
        mem_nodes_modify (hd.of_mem Object.ref ht₀) ht hr f⟩

end modify

theorem unitsOf_eq (w : World) (cylinder : Cylinder) (id : BitVec 16) :
    w.unitsOf cylinder id = (((w.heldBy cylinder).flatMap labels).map fun o =>
      if o.id = id then o.getItemCount else 0).sum :=
  sum_map_sum _ _

theorem distinct_heldBy (hd : Distinct Object.ref w.forest) (cylinder : Cylinder) :
    Distinct Object.ref (w.heldBy cylinder) := by
  rcases cylinder with id | c
  · rw [heldBy]
    rcases hp : w.player? id with _ | p
    · exact List.nodup_nil
    · obtain ⟨l, l', hl⟩ := exists_forest_eq (player?_mem hp).1
      rw [hl] at hd
      exact hd.of_append.1.of_append.2.1
  · rw [heldBy]
    rcases hc : w.find c with _ | t
    · exact List.nodup_nil
    · obtain ⟨t₀, ht₀, ht⟩ := List.mem_flatMap.1 (find_mem hc).1
      exact (hd.of_mem Object.ref ht₀).of_nodes ht

/-- The units change as those of the thing replaced. -/
theorem unitsOf_modify {s : Thing} {f : Thing → Thing}
    (hf : ∀ t : Thing, t.label.ref = s.label.ref → (f t).label.ref = s.label.ref)
    (hd : Distinct Object.ref w.forest)
    (hd' : Distinct Object.ref (w.modify s.label.ref f).forest) {cylinder : Cylinder}
    (hs : s ∈ (w.heldBy cylinder).flatMap nodes) (id : BitVec 16) :
    (w.modify s.label.ref f).unitsOf cylinder id + Thing.units id s =
      w.unitsOf cylinder id + Thing.units id (f s) := by
  have hr := (mem_keys Object.ref).2 ⟨s, hs, rfl⟩
  rw [unitsOf_eq, heldBy_modify hf hd hd' hr, unitsOf_eq]
  exact sum_modify _ (distinct_heldBy hd cylinder) hs f

/-! ## Adding to a container -/

theorem container?_eq_some {r : Ref} {c : Thing} (h : w.container? r = some c) :
    w.find r = some c ∧ c.label.storage.isSome = true := by
  rw [container?, Option.filter_eq_some_iff] at h
  exact h

theorem keepsUnits_weight (refs : List Ref) (diff : BitVec 32) : KeepsUnits fun o =>
    if o.ref ∈ refs then
      { o with storage := o.storage.map fun c => { c with totalWeight := c.totalWeight + diff } }
    else o := by
  intro o
  dsimp only
  split
  · exact ⟨rfl, rfl, rfl, Option.isSome_map⟩
  · exact ⟨rfl, rfl, rfl, rfl⟩

theorem unitsOf_updateItemWeight (r : Ref) (diff : BitVec 32) (cylinder : Cylinder)
    (id : BitVec 16) : (w.updateItemWeight r diff).unitsOf cylinder id = w.unitsOf cylinder id :=
  unitsOf_relabel (keepsUnits_weight _ _) cylinder id

theorem heap_updateItemWeight (r : Ref) (diff : BitVec 32) {n : Ref} {item : Thing}
    (h : Heap types n (item :: w.forest)) :
    Heap types n (item :: (w.updateItemWeight r diff).forest) :=
  heap_mapThings_relabel (keepsUnits_weight _ _) h

/-- A thing is put first in a container. -/
def push (item : Thing) (c : Thing) : Thing := .node c.label (item :: c.children)

theorem units_push (id : BitVec 16) (item c : Thing) :
    Thing.units id (push item c) = Thing.units id c + Thing.units id item := by
  obtain ⟨o, cs⟩ := c
  rw [push, label_node, children_node, Thing.units, Thing.units, sum_node, sum_node,
    List.map_cons, List.sum_cons, Thing.units]
  omega

/-- A thing put first in a container. -/
theorem heap_push {n : Ref} {item c : Thing} (h : Heap types n (item :: w.forest))
    (hc : c ∈ w.forest.flatMap nodes) (hcontainer : c.label.storage.isSome = true) :
    Heap types n (w.modify c.label.ref (push item)).forest := by
  obtain ⟨hitem, hforest, hdisj⟩ := Heap.cons_iff.1 h
  obtain ⟨t, ht, hct⟩ := List.mem_flatMap.1 hc
  have hperm := keys_push Object.ref c.label item c.children
  have hself : RoseTree.node c.label c.children = c := by
    cases c
    rfl
  rw [hself] at hperm
  have hkc : keys Object.ref [c] ⊆ keys Object.ref w.forest := fun k hk =>
    mem_keys_of_mem Object.ref ht ((keys_sublist hct).subset hk)
  -- What is below the container is the item, or was there.
  have hnodes : ∀ s ∈ [push item c].flatMap nodes, s = push item c ∨
      s ∈ (item :: w.forest).flatMap nodes := by
    intro s hs
    rw [List.flatMap_singleton, push, nodes_node, List.mem_cons, List.flatMap_cons,
      List.mem_append] at hs
    refine hs.imp_right fun hs => ?_
    rw [List.flatMap_cons, List.mem_append]
    refine hs.imp_right fun hs => ?_
    obtain ⟨i, hi, hsi⟩ := List.mem_flatMap.1 hs
    exact List.mem_flatMap.2 ⟨t, ht, nodes_trans hct (mem_nodes_of_mem_children hi hsi)⟩
  rw [modify, forest_mapThings]
  refine hforest.modify hc (f := push item) ⟨?_, fun r hr => ?_, fun s hs hnone => ?_,
    fun s hs hstack => ?_⟩ le_rfl fun k hk => ?_
  · rw [Distinct, push, hperm.nodup_iff, List.nodup_append']
    exact ⟨hitem.distinct, (hforest.distinct.of_mem Object.ref ht).of_nodes hct,
      fun k hk hk' => hdisj hk (hkc hk')⟩
  · rw [push, hperm.mem_iff, List.mem_append] at hr
    exact hr.elim (hitem.lt r) fun hr => hforest.lt r (hkc hr)
  · rcases hnodes s hs with rfl | hs
    · rw [push, label_node] at hnone
      rw [hnone] at hcontainer
      cases hcontainer
    · exact h.leaf s hs hnone
  · rcases hnodes s hs with rfl | hs
    · exact hforest.plain c hc hstack
    · exact h.plain s hs hstack
  · rw [push, hperm.mem_iff, List.mem_append] at hk
    exact hk.elim (fun hk => .inr (hdisj hk)) .inl

/-- What is added to a container adds its units, if the index is one of the container. -/
theorem unitsOf_addThing_container {n : Ref} {item c : Thing}
    (h : Heap types n (item :: w.forest)) {r : Ref} (hc : w.container? r = some c) {index : ℤ}
    (hindex : index < c.capacity) {cylinder : Cylinder}
    (hheld : c ∈ (w.heldBy cylinder).flatMap nodes) (id : BitVec 16) :
    (w.addThing types (.container r) index item).unitsOf cylinder id =
      w.unitsOf cylinder id + Thing.units id item := by
  obtain ⟨hfind, hcontainer⟩ := container?_eq_some hc
  obtain ⟨hmem, hr⟩ := find_mem hfind
  rw [addThing, hc]
  dsimp only
  rw [if_neg (not_le.2 hindex), unitsOf_updateItemWeight, ← hr]
  have hsum := unitsOf_modify (f := push item) (fun _ ht => ht)
    (Heap.cons_iff.1 h).2.1.distinct (heap_push h hmem hcontainer).distinct hheld id
  rw [units_push] at hsum
  have hpush : (w.modify c.ref fun c => .node c.label (item :: c.children)) =
      w.modify c.label.ref (push item) := rfl
  rw [hpush]
  omega

theorem addThing_container_of_le {r : Ref} {c item : Thing} (hc : w.container? r = some c)
    {index : ℤ} (hindex : c.capacity ≤ index) : w.addThing types (.container r) index item = w := by
  rw [addThing, hc]
  exact if_pos hindex

/-! ## Players -/

theorem player?_modifyPlayer {f : Player → Player} (hf : ∀ p, (f p).id = p.id)
    (id id' : PlayerId) : (w.modifyPlayer id f).player? id' =
      (w.player? id').map fun p => if p.id = id then f p else p := by
  rw [player?, modifyPlayer, List.find?_map, player?]
  refine congrArg _ (congrArg (List.find? · _) ?_)
  ext p
  rw [Function.comp]
  split
  · rw [hf]
  · rfl

/-- A change of a player besides the inventory. -/
theorem forest_modifyPlayer {f : Player → Player} (hf : ∀ p, (f p).things = p.things)
    (id : PlayerId) : (w.modifyPlayer id f).forest = w.forest := by
  rw [forest, forest, modifyPlayer, List.flatMap_map]
  refine congrArg (· ++ _) (List.flatMap_congr fun p _ => ?_)
  split
  · exact hf p
  · rfl

theorem heldBy_modifyPlayer {f : Player → Player} (hid : ∀ p, (f p).id = p.id)
    (hf : ∀ p, (f p).things = p.things) (id : PlayerId) (cylinder : Cylinder) :
    (w.modifyPlayer id f).heldBy cylinder = w.heldBy cylinder := by
  rcases cylinder with id' | r
  · rw [heldBy, heldBy, player?_modifyPlayer hid, Option.map_map]
    refine congrArg (Option.getD · _) (congrArg (Option.map · _) ?_)
    ext1 p
    rw [Function.comp]
    split
    · exact hf p
    · rfl
  · rw [heldBy, heldBy, find, find, forest_modifyPlayer hf]

theorem updateInventoryWeight_id (p : Player) : (p.updateInventoryWeight types).id = p.id := by
  rw [Player.updateInventoryWeight]
  split <;> rfl

theorem updateInventoryWeight_things (p : Player) :
    (p.updateInventoryWeight types).things = p.things := by
  rw [Player.updateInventoryWeight]
  split <;> rfl

/-- A notification changes at most the weight that a player carries. -/
theorem postNotification_cases (types : ItemTable) (w : World) (cylinder : Cylinder) :
    w.postNotification types cylinder = w ∨ ∃ id, w.postNotification types cylinder =
      w.modifyPlayer id (Player.updateInventoryWeight types) := by
  rcases cylinder with id | r
  · exact .inr ⟨id, rfl⟩
  · rw [postNotification]
    rcases w.container? r with _ | c
    · exact .inl rfl
    · rcases h : notified (.container c :: w.parents r) with _ | id
      · exact .inl (by simp only [h, Option.map_none, Option.getD_none])
      · exact .inr ⟨id, by simp only [h, Option.map_some, Option.getD_some]⟩

theorem heldBy_postNotification (cylinder cylinder' : Cylinder) :
    (w.postNotification types cylinder).heldBy cylinder' = w.heldBy cylinder' := by
  rcases w.postNotification_cases types cylinder with h | ⟨id, h⟩
  · rw [h]
  · rw [h, heldBy_modifyPlayer updateInventoryWeight_id updateInventoryWeight_things]

theorem sum_filterMap_slots (inventory : Slot → Option Thing) (f : Thing → ℕ) :
    ((Slot.all.filterMap inventory).map f).sum =
      (Slot.all.map fun slot => ((inventory slot).map f).getD 0).sum := by
  generalize Slot.all = l
  induction l with
  | nil => rfl
  | cons slot l ih =>
    rw [List.filterMap_cons, List.map_cons, List.sum_cons]
    rcases inventory slot with _ | t
    · rw [Option.map_none, Option.getD_none, Nat.zero_add]
      exact ih
    · rw [Option.map_some, Option.getD_some]
      exact congrArg (f t + ·) ih

/-- A thing in a slot takes the place of what was there. -/
theorem sum_update_slot (inventory : Slot → Option Thing) (slot : Slot) (item : Option Thing)
    (f : Thing → ℕ) :
    ((Slot.all.filterMap (Function.update inventory slot item)).map f).sum +
        ((inventory slot).map f).getD 0 =
      ((Slot.all.filterMap inventory).map f).sum + (item.map f).getD 0 := by
  rw [sum_filterMap_slots, sum_filterMap_slots]
  cases slot <;> simp [Slot.all, Function.update] <;> omega

/-- What is added to a slot adds its units, and takes the place of what was there. -/
theorem unitsOf_addThing_player (types : ItemTable) {id : PlayerId} {p : Player}
    (hp : w.player? id = some p) {index : ℤ} {slot : Slot}
    (hslot : Slot.ofIndex index = some slot) (item : Thing) (i : BitVec 16) :
    (w.addThing types (.player id) index item).unitsOf (.player id) i +
        ((p.inventory slot).map (Thing.units i)).getD 0 =
      w.unitsOf (.player id) i + Thing.units i item := by
  have hid := (player?_mem hp).2
  have hsum := sum_update_slot p.inventory slot (some item) (Thing.units i)
  rw [addThing, hslot]
  dsimp only
  have hset : ∀ p, (Player.setSlot slot item p).id = p.id := fun _ => rfl
  rw [unitsOf, unitsOf, heldBy, heldBy, player?_modifyPlayer hset, hp, Option.map_some,
    Option.map_some, if_pos hid]
  exact hsum

theorem addThing_player_of_none {id : PlayerId} {index : ℤ} (hslot : Slot.ofIndex index = none)
    (item : Thing) : w.addThing types (.player id) index item = w := by
  rw [addThing, hslot]

/-! ## Updating a stack -/

/-- Another label, of the same address, for a stack. -/
def stackWith (o : Object) : Thing := .node o []

theorem units_stackWith (o : Object) (id : BitVec 16) :
    Thing.units id (stackWith o) = if o.id = id then o.getItemCount else 0 := by
  rw [stackWith, Thing.units, sum_node, List.map_nil, List.sum_nil, Nat.add_zero]

theorem eq_stackWith {t : Thing} (h : t.children = []) : t = stackWith t.label := by
  obtain ⟨o, cs⟩ := t
  rw [children_node] at h
  rw [h]
  rfl

theorem keys_stackWith (o : Object) : keys Object.ref [stackWith o] = [o.ref] := by
  rw [stackWith, keys_node, keys, List.flatMap_nil, List.map_nil]

/-- A stack alone. -/
theorem heap_singleton {n : Ref} {o : Object} (hlt : o.ref < n) (hnone : o.storage = none) :
    Heap types n [stackWith o] := by
  have hnodes : ∀ s : Thing, s ∈ [stackWith o].flatMap nodes → s = stackWith o := by
    intro s hs
    rw [List.flatMap_singleton, stackWith, nodes_node] at hs
    exact List.mem_singleton.1 hs
  refine ⟨?_, fun r hr => ?_, fun s hs _ => ?_, fun s hs _ => ?_⟩
  · rw [Distinct, keys_stackWith]
    exact List.nodup_singleton _
  · rw [keys_stackWith, List.mem_singleton] at hr
    exact hr ▸ hlt
  · rw [hnodes s hs]
    rfl
  · rw [hnodes s hs]
    exact hnone

/-- A new stack beside the things that there were. -/
theorem heap_stackWith {n n' : Ref} {ts : List Thing} (h : Heap types n ts) {o : Object}
    (hle : n ≤ o.ref) (hlt : o.ref < n') (hnone : o.storage = none) :
    Heap types n' (stackWith o :: ts) := by
  refine Heap.cons_iff.2 ⟨heap_singleton hlt hnone,
    ⟨h.distinct, fun r hr => ((h.lt r hr).trans_le hle).trans hlt, h.leaf, h.plain⟩,
    fun r hr hr' => ?_⟩
  -- The addresses of the others are lower.
  rw [keys_stackWith, List.mem_singleton] at hr
  exact absurd (h.lt r hr') (Nat.not_lt.2 (hr ▸ hle))

section update

variable {n : Ref} {item t : Thing} (h : Heap types n (item :: w.forest))
  (ht : t ∈ w.forest.flatMap nodes) {o : Object} (href : o.ref = t.label.ref)
  (hstack : t.label.isStackable types = true) (hstorage : o.storage = t.label.storage)

include h ht href hstack hstorage

theorem heap_modify_stack :
    Heap types n (item :: (w.modify t.label.ref fun _ => stackWith o).forest) := by
  obtain ⟨hitem, hforest, hdisj⟩ := Heap.cons_iff.1 h
  have hnone : o.storage = none := hstorage.trans (hforest.plain t ht hstack)
  have hkeys : keys Object.ref [stackWith o] = keys Object.ref [t] := by
    rw [eq_stackWith (hforest.children_of_stackable ht hstack), keys_stackWith, keys_stackWith,
      href]
  have hlt : o.ref < n := hforest.lt _ ((mem_keys Object.ref).2 ⟨t, ht, href.symm⟩)
  have hstackWith : Heap types n [stackWith o] := heap_singleton hlt hnone
  have hmodify := hforest.modify ht (f := fun _ => stackWith o) hstackWith le_rfl fun r hr =>
    .inl (hkeys ▸ hr)
  refine Heap.cons_iff.2 ⟨hitem, ?_, fun r hr hr' => hdisj hr ?_⟩
  · rw [modify, forest_mapThings]
    exact hmodify
  · -- The addresses are those that were there.
    rw [modify, forest_mapThings] at hr'
    obtain ⟨rest, hperm, hperm'⟩ := exists_rest hforest.distinct ht
    have hk : ∀ ts : List Thing, keys Object.ref ts = (ts.flatMap labels).map Object.ref :=
      fun _ => rfl
    rw [hk, ((hperm' fun _ => stackWith o).map Object.ref).mem_iff, List.map_append,
      List.mem_append] at hr'
    rw [hk, (hperm.map Object.ref).mem_iff, List.map_append, List.mem_append]
    refine hr'.imp_left fun hr' => ?_
    have hs : (labels (stackWith o)).map Object.ref = (labels t).map Object.ref := by
      simpa [keys] using hkeys
    rwa [hs] at hr'

theorem unitsOf_modify_stack (hid : o.id = t.label.id) {cylinder : Cylinder}
    (hheld : t ∈ (w.heldBy cylinder).flatMap nodes) (id : BitVec 16) :
    (w.modify t.label.ref fun _ => stackWith o).unitsOf cylinder id +
        (if t.label.id = id then t.label.getItemCount else 0) =
      w.unitsOf cylinder id + if t.label.id = id then o.getItemCount else 0 := by
  have hforest := (Heap.cons_iff.1 h).2.1
  have hd' := (Heap.cons_iff.1 (heap_modify_stack h ht href hstack hstorage)).2.1.distinct
  have hsum := unitsOf_modify (f := fun _ => stackWith o) (fun _ _ => href) hforest.distinct hd'
    hheld id
  have hunits : Thing.units id t = if t.label.id = id then t.label.getItemCount else 0 := by
    rw [eq_stackWith (hforest.children_of_stackable ht hstack), units_stackWith]
    rfl
  rwa [hunits, units_stackWith, hid] at hsum

end update

/-- A stack that is updated to its type and a count has that count. -/
theorem updateThing_spec {n : Ref} {item t : Thing} (h : Heap types n (item :: w.forest))
    {r : Ref} (ht : w.find r = some t) (hstack : t.label.isStackable types = true)
    {cylinder toCylinder : Cylinder} (hindex : (w.getThingIndex toCylinder r).isSome = true)
    (hheld : t ∈ (w.heldBy cylinder).flatMap nodes) (count : ℕ) :
    Heap types n (item :: (w.updateThing types toCylinder r t.label.id count).forest) ∧
      ∀ id, (w.updateThing types toCylinder r t.label.id count).unitsOf cylinder id +
          (if t.label.id = id then t.label.getItemCount else 0) =
        w.unitsOf cylinder id + if t.label.id = id then count % 256 else 0 := by
  obtain ⟨hmem, rfl⟩ := find_mem ht
  obtain ⟨i, hi⟩ := Option.isSome_iff_exists.1 hindex
  obtain ⟨href, hid, hcount, hstorage⟩ := t.label.update_stack hstack count
  have hchildren := (Heap.cons_iff.1 h).2.1.children_of_stackable hmem hstack
  have hheap := heap_modify_stack h hmem href hstack hstorage
  have hunits := unitsOf_modify_stack h hmem href hstack hstorage hid hheld
  rw [hcount] at hunits
  rw [updateThing, hi, ht]
  dsimp only
  rw [hchildren]
  rcases toCylinder with p | c
  · exact ⟨hheap, hunits⟩
  · refine ⟨heap_updateItemWeight _ _ hheap, fun id => ?_⟩
    rw [unitsOf_updateItemWeight]
    exact hunits id

/-! ## Clones -/

theorem new_id (server : Items.Server) (class_ : Items.ItemClass) (id count : BitVec 16) :
    (Items.Item.new server class_ id count).id = id := by
  have hsub : (Items.Item.withDefaultSubtype server class_ id count).id = id := by
    rw [Items.Item.withDefaultSubtype]
    dsimp only
    split_ifs <;> rfl
  have hdur : ((Items.Item.withDefaultSubtype server class_ id count).setDefaultDuration
      server).id = id := by
    rw [Items.Item.setDefaultDuration]
    split_ifs <;> exact hsub
  rw [Items.Item.new]
  split_ifs
  · rw [Items.Item.setString]
    split_ifs <;> exact hdur
  · exact hdur

/-- A clone of a stack is at a new address. Its type is the one that a fresh item gets. -/
theorem clone_stack (types : ItemTable) (w : World) (o : Object) (k : ℕ) : ∃ o' : Object,
    Thing.setItemCount (w.clone types (stackWith o)).1 k = stackWith o' ∧
      o'.ref = o.ref + w.nextRef ∧ o'.id = Items.Item.createdId types.server o.id ∧
      o'.getItemCount = k % 256 ∧ o'.storage = o.storage := by
  refine ⟨_, rfl, rfl, ?_, ?_, rfl⟩
  · have hnew := new_id types.server (Items.Item.classOf (types.server.items o.id))
      (Items.Item.createdId types.server o.id) (o.count.setWidth 16)
    rw [Object.setItemCount, clone]
    dsimp only
    rw [label_relabel]
    dsimp only
    split_ifs <;> exact hnew
  · rw [Object.setItemCount, Object.getItemCount]
    simp

theorem forest_clone (t : Thing) : (w.clone types t).2.forest = w.forest := rfl

theorem nextRef_clone (t : Thing) : (w.clone types t).2.nextRef = 2 * w.nextRef := rfl

theorem heldBy_clone (t : Thing) (cylinder : Cylinder) :
    (w.clone types t).2.heldBy cylinder = w.heldBy cylinder := by
  cases cylinder <;> rfl

/-- A clone beside the things that there were. -/
theorem heap_clone {o : Object} (h : Heap types w.nextRef (stackWith o :: w.forest))
    {o' : Object} (href : o'.ref = o.ref + w.nextRef) (hnone : o'.storage = none) :
    Heap types (2 * w.nextRef) (stackWith o' :: w.forest) := by
  obtain ⟨hitem, hforest, -⟩ := Heap.cons_iff.1 h
  have hlt : o.ref < w.nextRef :=
    hitem.lt _ (by rw [keys_stackWith]; exact List.mem_singleton_self _)
  refine heap_stackWith hforest (href ▸ Nat.le_add_left _ _) ?_ hnone
  rw [href, Nat.two_mul]
  exact Nat.add_lt_add_right hlt _

end World

end Canary.Inventory
