import Canary.Inventory.MoveItem
import Canary.Inventory.WhereEver
import Canary.Lib.Pruning

/-!
# Removing an item

`internalRemoveItem` takes units of an item, or the item as a whole with all that it holds, from
the player or container that it is in. An item that may not be removed stays.

What a player carries is compared without the weights of the containers (`carried`), which change
with each removal. So a removal cuts an item off what the player carries, or lowers the count of a
stack (`carried_internalRemoveItem`), and a run of removals cuts off all of its items at once
(`carried_removeItems`).
-/

namespace Canary.Inventory

open RoseTree

/-- How items came to be: those of the map, and those that do not decay for now. -/
structure Marks where
  loadedFromMap : Ref → Bool
  decayDisabled : Ref → Bool

namespace Object

def canRemove (o : Object) : Bool :=
  match o.storage with
  | some c => c.class_ = .container || c.class_ = .reward
  | none => true

/-- `canDecay`, of an item that is not removed. -/
def canDecay (types : ItemTable) (marks : Marks) (o : Object) : Bool :=
  !marks.decayDisabled o.ref &&
  !((types.traits o.id).decaysToNothing || (types.server.items o.id).decayTime = 0) &&
  !o.hasAttribute .uniqueId

/-- A stack of the address has fewer units. -/
def lower (r : Ref) (n : ℕ) (o : Object) : Object :=
  if o.ref = r then o.setItemCount (o.getItemCount - n) else o

/-- What a removal takes of an object: nothing, some of a stack, or all. -/
inductive Taken
  | nothing
  | part (n : ℕ)
  | whole
  deriving DecidableEq

/-- What is taken of an item of a player, who may be on a tile. -/
def taken (types : ItemTable) (marks : Marks) (placed : Bool) (o : Object) (count : Option ℕ) :
    Taken :=
  let n := count.getD o.getItemCount
  if n = 0 ∨ (o.isStackable types ∧ n > o.getItemCount) then .nothing
  else if !o.canRemove then .nothing
  else if o.canDecay types marks ∧ placed ∧ marks.loadedFromMap o.ref then .nothing
  else if o.isStackable types ∧ n ≠ o.getItemCount then .part n
  else .whole

/-- What is left of a forest. -/
def Taken.rest (r : Ref) (ts : List Thing) : Taken → List Thing
  | .nothing => ts
  | .part n => ts.map (relabel (lower r n))
  | .whole => without Object.ref r ts

/-- The object, whatever what it holds weighs. -/
def weightless (o : Object) : Object :=
  { o with storage := o.storage.map fun c => { c with totalWeight := 0 } }

end Object

namespace World

variable (g : Game) (marks : Marks) (w : World)

/-- `getParent`, of a thing that a player or a container holds. -/
def getParent (r : Ref) : Option Cylinder :=
  match (w.parents r).head? with
  | some (.container t) => some (.container t.ref)
  | some (.player p) => some (.player p.id)
  | _ => none

/-- `getTile()` is not null. -/
def hasTile (r : Ref) : Bool :=
  (w.chain r).any fun
    | .tile => true
    | _ => false

/-- `Game::internalRemoveItem`; without a count, all of a stack. -/
def internalRemoveItem (r : Ref) (count : Option ℕ) : ReturnValue × World :=
  match w.find r, w.getParent r with
  | some item, some cylinder =>
    let count := count.getD item.label.getItemCount
    let ret := w.queryRemove g cylinder item count flagIgnoreNotMovable
    if ret ≠ .noError then (ret, w)
    else if !item.label.canRemove then (.notPossible, w)
    -- an item with decay that was loaded from the map
    else if item.label.canDecay g.types marks ∧ w.hasTile r ∧ marks.loadedFromMap r then
      (.thisIsImpossible, w)
    else (.noError, (w.detach g cylinder r count).postNotification g.types cylinder)
  | _, _ => (.notPossible, w)

/-- What a cylinder holds, whatever it weighs. -/
def carried (cylinder : Cylinder) : List Thing :=
  (w.heldBy cylinder).map (relabel Object.weightless)

/-- What is nowhere, whatever it weighs. -/
def adrift : List Thing := w.loose.map (relabel Object.weightless)

/-- The player is on a tile. -/
def isPlaced (id : PlayerId) : Bool := (w.player? id).any Player.placed

end World

/-! ## Weights -/

theorem keepsUnits_weightless : KeepsUnits Object.weightless :=
  fun _ => ⟨rfl, rfl, rfl, Option.isSome_map⟩

namespace Heap

variable {types : ItemTable} {n : Ref} {ts : List Thing}

/-- What stays of a heap. -/
theorem pruneForest (h : Heap types n ts) (gone : Object → Bool) :
    Heap types n (RoseTree.pruneForest gone ts) := by
  have hsub := (labels_pruneForest_sublist gone ts).map Object.ref
  refine ⟨h.distinct.pruneForest gone, fun r hr => h.lt r (hsub.subset hr), fun t ht hc => ?_,
    fun t ht hc => ?_⟩
  · obtain ⟨s, hs, hlabel, hchildren⟩ := exists_of_mem_pruneForest ts t ht
    rw [hlabel] at hc
    rw [hchildren, h.leaf s hs hc, pruneForest_nil]
  · obtain ⟨s, hs, hlabel, -⟩ := exists_of_mem_pruneForest ts t ht
    rw [hlabel] at hc ⊢
    exact h.plain s hs hc

/-- One thing of a heap. -/
theorem of_mem_nodes (h : Heap types n ts) {t : Thing} (ht : t ∈ ts.flatMap nodes) :
    Heap types n [t] := by
  obtain ⟨t₀, ht₀, htt⟩ := List.mem_flatMap.1 ht
  have hnodes : ∀ s ∈ [t].flatMap nodes, s ∈ ts.flatMap nodes := by
    intro s hs
    rw [List.flatMap_singleton] at hs
    exact List.mem_flatMap.2 ⟨t₀, ht₀, nodes_trans htt hs⟩
  exact ⟨(h.distinct.of_mem Object.ref ht₀).of_nodes htt,
    fun r hr => h.lt r (mem_keys_of_mem Object.ref ht₀ ((keys_sublist htt).subset hr)),
    fun s hs => h.leaf s (hnodes s hs), fun s hs => h.plain s (hnodes s hs)⟩

end Heap

namespace World

variable {g : Game} {w : World}

theorem isPlaced_mapThings (f : Thing → Thing) (id : PlayerId) :
    (w.mapThings f).isPlaced id = w.isPlaced id := by
  rw [isPlaced, player?_mapThings, isPlaced]
  rcases w.player? id with _ | p <;> rfl

theorem isPlaced_modifyPlayer {f : Player → Player} (hid : ∀ p, (f p).id = p.id)
    (hf : ∀ p, (f p).placed = p.placed) (id id' : PlayerId) :
    (w.modifyPlayer id f).isPlaced id' = w.isPlaced id' := by
  rw [isPlaced, player?_modifyPlayer hid, isPlaced]
  rcases w.player? id' with _ | p
  · rfl
  · rw [Option.map_some, Option.any_some, Option.any_some]
    split
    · exact hf p
    · rfl

theorem isPlaced_postNotification (types : ItemTable) (cylinder : Cylinder) (id : PlayerId) :
    (w.postNotification types cylinder).isPlaced id = w.isPlaced id := by
  rcases w.postNotification_cases types cylinder with h | ⟨id', h⟩
  · rw [h]
  · rw [h, isPlaced_modifyPlayer updateInventoryWeight_id]
    intro p
    rw [Player.updateInventoryWeight]
    split <;> rfl

/-- Things have got other weights. -/
def Reweighs (w w₁ : World) : Prop :=
  ∃ f : Object → Object, KeepsUnits f ∧ (∀ o, (f o).weightless = o.weightless) ∧
    w₁ = w.mapThings (relabel f)

theorem Reweighs.refl (w : World) : Reweighs w w := by
  refine ⟨id, fun _ => ⟨rfl, rfl, rfl, rfl⟩, fun _ => rfl, ?_⟩
  have hid : relabel (id : Object → Object) = id := funext fun t => relabel_self fun _ _ => rfl
  have hplayer : ∀ p : Player,
      ({ p with inventory := fun slot => (p.inventory slot).map id } : Player) = p := by
    intro p
    simp only [Option.map_id_fun, id_eq]
  rw [mapThings, hid, List.map_id, List.map_id, List.map_congr_left fun p _ => hplayer p,
    List.map_id']

theorem reweighs_updateItemWeight (w : World) (r : Ref) (diff : BitVec 32) :
    Reweighs w (w.updateItemWeight r diff) := by
  refine ⟨_, keepsUnits_weight _ _, fun o => ?_, rfl⟩
  split
  · rw [Object.weightless, Object.weightless, Option.map_map]
    rfl
  · rfl

namespace Reweighs

variable {w₁ : World} (hw : Reweighs w w₁)

include hw

theorem wellFormed (h : w.WellFormed g.types) : w₁.WellFormed g.types := by
  obtain ⟨f, hf, -, rfl⟩ := hw
  exact h.mapThings_relabel hf

theorem carried (cylinder : Cylinder) : w₁.carried cylinder = w.carried cylinder := by
  obtain ⟨f, hf, hweightless, rfl⟩ := hw
  rw [World.carried, heldBy_relabel hf, List.map_map, World.carried]
  refine List.map_congr_left fun t _ => ?_
  rw [Function.comp, relabel_relabel]
  exact relabel_congr fun o _ => hweightless o

theorem adrift : w₁.adrift = w.adrift := by
  obtain ⟨f, -, hweightless, rfl⟩ := hw
  rw [World.adrift, World.adrift]
  refine (List.map_map ..).trans (List.map_congr_left fun t _ => ?_)
  rw [Function.comp, relabel_relabel]
  exact relabel_congr fun o _ => hweightless o

theorem isPlaced (id : PlayerId) : w₁.isPlaced id = w.isPlaced id := by
  obtain ⟨f, -, -, rfl⟩ := hw
  exact isPlaced_mapThings _ id

theorem nextRef : w₁.nextRef = w.nextRef := by
  obtain ⟨f, -, -, rfl⟩ := hw
  rfl

theorem find {r : Ref} {t : Thing} (ht : w.find r = some t) :
    ∃ t₁, w₁.find r = some t₁ ∧ keys Object.ref [t₁] = keys Object.ref [t] := by
  obtain ⟨f, hf, -, rfl⟩ := hw
  exact ⟨_, (find_relabel hf r).trans (congrArg _ ht), keys_relabel hf.ref [t]⟩

end Reweighs

theorem carried_postNotification (types : ItemTable) (cylinder cylinder' : Cylinder) :
    (w.postNotification types cylinder).carried cylinder' = w.carried cylinder' := by
  rw [carried, heldBy_postNotification, carried]

/-! ## Where a thing is -/

/-- What is at an index of a cylinder is in a slot, or in a container. -/
theorem getThingIndex_isSome {cylinder : Cylinder} {r : Ref}
    (h : (w.getThingIndex cylinder r).isSome = true) :
    (∃ id p slot t, cylinder = .player id ∧ w.player? id = some p ∧
        p.inventory slot = some t ∧ t.label.ref = r) ∨
      ∃ c t : Thing, cylinder = .container c.label.ref ∧ w.container? c.label.ref = some c ∧
        t ∈ c.children ∧ t.label.ref = r := by
  rcases cylinder with id | c
  · rw [getThingIndex, Option.isSome_bind, Option.any_eq_true] at h
    obtain ⟨p, hp, h⟩ := h
    rw [Option.isSome_map, List.find?_isSome] at h
    obtain ⟨slot, -, hslot⟩ := h
    obtain ⟨t, ht, hr⟩ := (Option.any_eq_true ..).1 hslot
    exact .inl ⟨id, p, slot, t, rfl, hp, ht, of_decide_eq_true hr⟩
  · rw [getThingIndex, Option.isSome_bind, Option.any_eq_true] at h
    obtain ⟨t, ht, h⟩ := h
    rw [Option.isSome_map, List.findIdx?_isSome, List.any_eq_true] at h
    obtain ⟨i, hi, hr⟩ := h
    obtain ⟨-, rfl⟩ := find_mem (container?_eq_some ht).1
    exact .inr ⟨t, i, rfl, ht, hi, of_decide_eq_true hr⟩

/-! ## A thing is taken out -/

theorem without_map_relabel {f : Object → Object} (hf : ∀ o, (f o).ref = o.ref) (r : Ref)
    (ts : List Thing) : without Object.ref r (ts.map (relabel f)) =
      (without Object.ref r ts).map (relabel f) :=
  pruneForest_relabel (fun o => by rw [hf]) ts

/-- A thing that is in one part of the forest is taken out of that part. -/
theorem without_middle {l ts l' : List Thing} (hd : Distinct Object.ref (l ++ ts ++ l')) {r : Ref}
    (hr : r ∈ keys Object.ref ts) :
    without Object.ref r (l ++ ts ++ l') = l ++ without Object.ref r ts ++ l' := by
  obtain ⟨hlts, -, hdisj⟩ := hd.of_append
  have hl : r ∉ keys Object.ref l := fun h => hlts.of_append.2.2 h hr
  have hl' : r ∉ keys Object.ref l' := fun h =>
    hdisj (by rw [keys_append]; exact List.mem_append_right _ hr) h
  rw [without, pruneForest_append, pruneForest_append]
  exact congrArg₂ (· ++ ·) (congrArg (· ++ _) (without_of_notMem hl)) (without_of_notMem hl')

/-- The thing is taken out, with what it holds. -/
structure TakesOut (w w' : World) (r : Ref) : Prop where
  forest : w'.forest = without Object.ref r w.forest
  heldBy : ∀ id, w'.heldBy (.player id) = without Object.ref r (w.heldBy (.player id))
  loose : w'.loose = without Object.ref r w.loose
  ids : w'.players.map Player.id = w.players.map Player.id
  nextRef : w'.nextRef = w.nextRef
  placed : ∀ id, w'.isPlaced id = w.isPlaced id

/-- What a player holds is a part of the forest. -/
theorem exists_forest_eq_heldBy (w : World) (id : PlayerId) :
    ∃ l l', w.forest = l ++ w.heldBy (.player id) ++ l' := by
  rw [World.heldBy]
  rcases hp : w.player? id with _ | p
  · exact ⟨w.forest, [], by simp⟩
  · exact exists_forest_eq (player?_mem hp).1

/-- In each part of the forest, the child of a container is taken out with it. -/
theorem map_modify_child (h : w.WellFormed g.types) {c s : Thing}
    (hc : c ∈ w.forest.flatMap nodes) (hs : s ∈ c.children) {l ts l' : List Thing}
    (hl : w.forest = l ++ ts ++ l') :
    ts.map (RoseTree.modify Object.ref c.label.ref fun c =>
      .node c.label (c.children.filter fun t : Thing => t.ref ≠ s.label.ref)) =
        without Object.ref s.label.ref ts := by
  have hdist := h.heap.distinct
  rw [hl] at hc hdist
  obtain ⟨hlts, -, hdisj⟩ := hdist.of_append
  by_cases hin : c ∈ ts.flatMap nodes
  · exact (without_child hlts.of_append.2.1 hin hs).symm
  · -- The part does not have the container, and so not the thing.
    have hsub : ∀ r ∈ keys Object.ref ts, ∀ p : List Thing, c ∈ p.flatMap nodes →
        r = c.label.ref ∨ r = s.label.ref → r ∈ keys Object.ref p := by
      rintro r - p hp hr
      obtain ⟨t, ht, hct⟩ := List.mem_flatMap.1 hp
      rcases hr with rfl | rfl
      · exact mem_keys_of_mem Object.ref ht (key_mem_keys Object.ref hct)
      · exact mem_keys_of_mem Object.ref ht (key_mem_keys Object.ref
          (nodes_trans hct (mem_nodes_of_mem_children hs (mem_nodes_self s))))
    have hnone : ∀ r, r = c.label.ref ∨ r = s.label.ref → r ∉ keys Object.ref ts := by
      intro r hr hk
      rw [List.flatMap_append, List.flatMap_append, List.mem_append, List.mem_append] at hc
      rcases hc with (hc | hc) | hc
      · exact hlts.of_append.2.2 (hsub r hk l hc hr) hk
      · exact hin hc
      · exact hdisj (by rw [keys_append]; exact List.mem_append_right _ hk) (hsub r hk l' hc hr)
    rw [map_modify_of_notMem Object.ref _ (hnone _ (.inl rfl)),
      without_of_notMem (hnone _ (.inr rfl))]

theorem takesOut_child (h : w.WellFormed g.types) {c s : Thing}
    (hc : c ∈ w.forest.flatMap nodes) (hs : s ∈ c.children) :
    TakesOut w (w.modify c.label.ref fun c =>
      .node c.label (c.children.filter fun t : Thing => t.ref ≠ s.label.ref)) s.label.ref := by
  refine ⟨?_, fun id => ?_, ?_, ids_mapThings _, rfl, isPlaced_mapThings _⟩
  · rw [modify, forest_mapThings]
    exact (without_child h.heap.distinct hc hs).symm
  · rw [modify, heldBy_player_mapThings]
    obtain ⟨l, l', hl⟩ := w.exists_forest_eq_heldBy id
    exact map_modify_child h hc hs hl
  · have hl : w.forest = (w.players.flatMap Player.things ++ w.tiles) ++ w.loose ++ [] := by
      rw [forest, List.append_nil, List.append_assoc]
    exact map_modify_child h hc hs hl

/-- The player without what is in the slot of an address. -/
def dropSlot (r : Ref) (p : Player) : Player :=
  { p with inventory := fun slot => (p.inventory slot).filter fun t : Thing => t.ref ≠ r }

theorem things_dropSlot (r : Ref) (p : Player) :
    (dropSlot r p).things = p.things.filter fun t : Thing => t.ref ≠ r := by
  rw [Player.things, Player.things, List.filter_filterMap]
  rfl

theorem takesOut_slot (h : w.WellFormed g.types) {id : PlayerId} {p : Player}
    (hp : w.player? id = some p) {slot : Slot} {s : Thing} (hs : p.inventory slot = some s) :
    TakesOut w (w.modifyPlayer id (dropSlot s.label.ref)) s.label.ref := by
  have hids : ∀ p, (dropSlot s.label.ref p).id = p.id := fun _ => rfl
  have hr : s.label.ref ∈ keys Object.ref p.things :=
    mem_keys_of_mem Object.ref (mem_things hs) (key_mem_keys Object.ref (mem_nodes_self s))
  obtain ⟨ps, ps', hps, hps'⟩ := exists_players_eq h.players hp
  have hforest : w.forest = ps.flatMap Player.things ++ p.things ++
      (ps'.flatMap Player.things ++ (w.tiles ++ w.loose)) := by
    rw [forest, hps, List.flatMap_append, List.flatMap_cons]
    simp only [List.append_assoc]
  have hdist := h.heap.distinct
  rw [hforest] at hdist
  have hthings : without Object.ref s.label.ref p.things = (dropSlot s.label.ref p).things :=
    (without_root hdist.of_append.1.of_append.2.1 (mem_things hs)).trans
      (things_dropSlot _ p).symm
  refine ⟨?_, fun id' => ?_, ?_, ids_modifyPlayer hids _, rfl,
    isPlaced_modifyPlayer hids (fun _ => rfl) _⟩
  · rw [hforest, without_middle hdist hr, hthings, forest, hps', List.flatMap_append,
      List.flatMap_cons]
    simp only [List.append_assoc]
    rfl
  · rw [World.heldBy, World.heldBy, player?_modifyPlayer hids, Option.map_map]
    by_cases hid : id' = id
    · rw [hid, hp, Option.map_some, Option.getD_some, Option.map_some, Option.getD_some,
        Function.comp, if_pos (player?_mem hp).2, hthings]
    · -- Another player does not hold the thing.
      rcases hp' : w.player? id' with _ | p'
      · rfl
      · obtain ⟨hmem, rfl⟩ := player?_mem hp'
        rw [Option.map_some, Option.getD_some, Option.map_some, Option.getD_some, Function.comp,
          if_neg hid, without_of_notMem]
        intro hk
        have hsub : ∀ l : List Player, p' ∈ l →
            s.label.ref ∈ keys Object.ref (l.flatMap Player.things) := by
          intro l hl
          obtain ⟨s', hs', he⟩ := (mem_keys Object.ref).1 hk
          obtain ⟨t, ht, hst⟩ := List.mem_flatMap.1 hs'
          exact (mem_keys Object.ref).2
            ⟨s', List.mem_flatMap.2 ⟨t, List.mem_flatMap.2 ⟨p', hl, ht⟩, hst⟩, he⟩
        rw [hps, List.mem_append, List.mem_cons] at hmem
        obtain ⟨hdist, -, hdisj⟩ := hdist.of_append
        rcases hmem with hmem | rfl | hmem
        · exact hdist.of_append.2.2 (hsub ps hmem) hr
        · exact hid (player?_mem hp).2
        · refine hdisj (by rw [keys_append]; exact List.mem_append_right _ hr) ?_
          rw [keys_append]
          exact List.mem_append_left _ (hsub ps' hmem)
  · refine (without_of_notMem fun hk => ?_).symm
    refine hdist.of_append.2.2 (by rw [keys_append]; exact List.mem_append_right _ hr) ?_
    rw [keys_append, keys_append]
    exact List.mem_append_right _ (List.mem_append_right _ hk)

/-- An item, or all of a stack, is taken out. -/
theorem removeThing_takesOut (h : w.WellFormed g.types) {cylinder : Cylinder} {r : Ref}
    (hindex : (w.getThingIndex cylinder r).isSome = true) {t : Thing} (ht : w.find r = some t)
    {count : ℕ} (hcount : ¬(t.label.isStackable g.types = true ∧ count ≠ t.label.getItemCount)) :
    ∃ w₁, Reweighs w w₁ ∧ TakesOut w₁ (w.removeThing g.types cylinder r count) r := by
  obtain ⟨i, hi⟩ := Option.isSome_iff_exists.1 hindex
  rw [removeThing, hi, ht]
  dsimp only
  rw [if_neg hcount]
  rcases getThingIndex_isSome hindex with
    ⟨id, p, slot, s, rfl, hp, hs, rfl⟩ | ⟨c, s, rfl, hc, hs, rfl⟩
  · exact ⟨w, .refl w, takesOut_slot h hp hs⟩
  · obtain ⟨hmem, -⟩ := find_mem (container?_eq_some hc).1
    obtain ⟨f, hf, hweightless, hw⟩ :=
      w.reweighs_updateItemWeight c.label.ref (-t.getWeight g.types)
    refine ⟨_, ⟨f, hf, hweightless, rfl⟩, ?_⟩
    -- The container and the item, with other weights.
    have hc' : c.relabel f ∈ (w.mapThings (relabel f)).forest.flatMap nodes := by
      rw [forest_mapThings, flatMap_nodes_relabel]
      exact List.mem_map_of_mem hmem
    have hs' : s.relabel f ∈ (c.relabel f).children := by
      obtain ⟨o, cs⟩ := c
      rw [relabel_node]
      exact List.mem_map_of_mem hs
    have hchild := takesOut_child (h.mapThings_relabel hf) hc' hs'
    rw [label_relabel, label_relabel, hf.ref, hf.ref] at hchild
    dsimp only
    rw [hw]
    exact hchild

/-- What has been taken out is nowhere, beside the rest. -/
theorem heap_detached (h : w.WellFormed g.types) {w₁ w' : World} {r : Ref}
    (hw : Reweighs w w₁) (hout : TakesOut w₁ w' r) {t : Thing} (ht : w.find r = some t) :
    Heap g.types w.nextRef (t :: w'.forest) := by
  have hw₁ := hw.wellFormed h
  have hrest := hw₁.heap.pruneForest fun o => decide (o.ref = r)
  have hheap := hw₁.heap
  rw [hw.nextRef] at hrest hheap
  refine Heap.cons_iff.2 ⟨h.heap.of_mem_nodes (find_mem ht).1, ?_, fun k hk hk' => ?_⟩
  · rw [hout.forest]
    exact hrest
  · -- What stays and what is lost have different addresses.
    obtain ⟨t₁, ht₁, hkeys⟩ := hw.find ht
    obtain ⟨hmem, rfl⟩ := find_mem ht₁
    have hperm := (labels_pruneForest_perm (fun o : Object => decide (o.ref = t₁.ref))
      w₁.forest).map Object.ref
    have hlost := lost_without hheap.distinct hmem
    rw [List.map_append] at hperm
    have hnodup := hperm.nodup_iff.1 hheap.distinct
    rw [hout.forest] at hk'
    refine (List.nodup_append'.1 hnodup).2.2 hk' ?_
    rw [← hkeys, keys, List.flatMap_singleton, ← hlost] at hk
    exact hk

/-- An item, or all of a stack, is taken from where it is, and is nowhere. -/
theorem detach_whole (h : w.WellFormed g.types) {cylinder : Cylinder} {r : Ref}
    (hindex : (w.getThingIndex cylinder r).isSome = true) {t : Thing} (ht : w.find r = some t)
    {count : ℕ} (hcount : ¬(t.label.isStackable g.types = true ∧ count ≠ t.label.getItemCount)) :
    (w.detach g cylinder r count).WellFormed g.types ∧
      (∀ id, (w.detach g cylinder r count).carried (.player id) =
        without Object.ref r (w.carried (.player id))) ∧
      (w.detach g cylinder r count).adrift =
        t.relabel Object.weightless :: without Object.ref r w.adrift ∧
      ∀ id, (w.detach g cylinder r count).isPlaced id = w.isPlaced id := by
  obtain ⟨w₁, hw, hout⟩ := removeThing_takesOut h hindex ht hcount
  have hheap := heap_detached h hw hout ht
  have hgone : (w.removeThing g.types cylinder r count).find r = none := by
    rw [find, hout.forest, find?_eq_none_iff]
    exact fun o ho => of_decide_eq_false (not_gone_of_mem_pruneForest _ o ho)
  rw [detach, hgone, ht, Option.isNone_none, if_pos rfl, Option.toList_some,
    List.singleton_append]
  generalize w.removeThing g.types cylinder r count = w' at hout hheap
  refine ⟨⟨?_, ?_⟩, fun id => ?_, ?_, fun id => ?_⟩
  · rw [hout.nextRef, hw.nextRef]
    refine hheap.subperm (List.Perm.subperm ?_)
    rw [forest, forest]
    dsimp only
    rw [← List.append_assoc, ← List.append_assoc]
    exact List.perm_middle
  · rw [hout.ids]
    exact (hw.wellFormed h).players
  · rw [← hw.carried, carried, carried, without_map_relabel keepsUnits_weightless.ref,
      ← hout.heldBy]
    rfl
  · rw [← hw.adrift, adrift, adrift, without_map_relabel keepsUnits_weightless.ref, ← hout.loose]
    rfl
  · rw [← hw.isPlaced, ← hout.placed]
    rfl

end World

theorem Object.lower_keeps (r : Ref) (n : ℕ) (o : Object) : (o.lower r n).ref = o.ref ∧
    (o.lower r n).id = o.id ∧ (o.lower r n).storage.isSome = o.storage.isSome := by
  rw [Object.lower]
  split_ifs <;> exact ⟨rfl, rfl, rfl⟩

theorem Object.weightless_lower (r : Ref) (n : ℕ) (o : Object) :
    (o.lower r n).weightless = o.weightless.lower r n := by
  rw [Object.lower, Object.lower]
  split_ifs with h h' h' <;> first | rfl | exact absurd h h' | exact absurd h' h

namespace World

variable {g : Game} {w : World}

/-- A part of a stack is taken from where it is. -/
theorem detach_part (h : w.WellFormed g.types) {cylinder : Cylinder} {r : Ref}
    (hindex : (w.getThingIndex cylinder r).isSome = true) {t : Thing} (ht : w.find r = some t)
    {count : ℕ} (hcount : t.label.isStackable g.types = true ∧ count ≠ t.label.getItemCount) :
    (w.detach g cylinder r count).WellFormed g.types ∧
      (∀ id, (w.detach g cylinder r count).carried (.player id) =
        (w.carried (.player id)).map (relabel (Object.lower r count))) ∧
      (w.detach g cylinder r count).adrift = w.adrift.map (relabel (Object.lower r count)) ∧
      ∀ id, (w.detach g cylinder r count).isPlaced id = w.isPlaced id := by
  obtain ⟨hmem, rfl⟩ := find_mem ht
  -- The stack with its new count.
  let item : Thing := .node (t.label.setItemCount (t.label.getItemCount - count)) t.children
  have hitem : ∀ ts : List Thing, ts.flatMap nodes ⊆ w.forest.flatMap nodes →
      Distinct Object.ref ts → ts.map (RoseTree.modify Object.ref t.ref fun _ => item) =
        ts.map (relabel (Object.lower t.ref count)) := by
    intro ts hts hd
    refine map_modify_label (f := fun o => o.setItemCount (o.getItemCount - count)) hd
      fun c hc he => ?_
    rw [h.heap.distinct.eq_of_key_eq Object.ref (hts hc) hmem he]
  have hforest : (w.modify t.ref fun _ => item).forest =
      w.forest.map (relabel (Object.lower t.ref count)) := by
    rw [modify, forest_mapThings, hitem _ (fun _ hs => hs) h.heap.distinct]
  have hheld : ∀ id, (w.modify t.ref fun _ => item).heldBy (.player id) =
      (w.heldBy (.player id)).map (relabel (Object.lower t.ref count)) := by
    intro id
    rw [modify, heldBy_player_mapThings]
    exact hitem _ (fun _ hs => heldBy_nodes hs) (distinct_heldBy h.heap.distinct _)
  have hloose : (w.modify t.ref fun _ => item).loose =
      w.loose.map (relabel (Object.lower t.ref count)) := by
    refine hitem _ (fun s hs => ?_) ?_
    · rw [forest, List.flatMap_append, List.flatMap_append]
      exact List.mem_append_right _ (List.mem_append_right _ hs)
    · have hd := h.heap.distinct
      rw [forest, ← List.append_assoc] at hd
      exact hd.of_append.2.1
  have hwell : (w.modify t.ref fun _ => item).WellFormed g.types := by
    refine ⟨?_, (ids_mapThings _).symm ▸ h.players⟩
    rw [hforest]
    exact h.heap.relabel (Object.lower_keeps _ _)
  have hplaced : ∀ id, (w.modify t.ref fun _ => item).isPlaced id = w.isPlaced id :=
    isPlaced_mapThings _
  obtain ⟨w₂, hw₂, hremove⟩ : ∃ w₂, Reweighs (w.modify t.ref fun _ => item) w₂ ∧
      w.removeThing g.types cylinder t.ref count = w₂ := by
    obtain ⟨i, hi⟩ := Option.isSome_iff_exists.1 hindex
    rw [removeThing, hi, ht]
    dsimp only
    rw [if_pos hcount]
    rcases cylinder with id | c
    · exact ⟨_, .refl _, rfl⟩
    · exact ⟨_, reweighs_updateItemWeight _ _ _, rfl⟩
  have hthere : (w₂.find t.ref).isNone = false := by
    have hkeys : t.ref ∈ keys Object.ref (w.modify t.ref fun _ => item).forest := by
      rw [hforest, keys_relabel fun o => (o.lower_keeps _ _).1]
      exact (mem_keys Object.ref).2 ⟨t, hmem, rfl⟩
    obtain ⟨s, hs, he⟩ := (mem_keys Object.ref).1 hkeys
    have hfind := find_eq_some hwell.heap hs
    rw [show Thing.ref s = t.ref from he] at hfind
    obtain ⟨s', hs', -⟩ := hw₂.find hfind
    rw [hs']
    rfl
  rw [detach, hremove, hthere, if_neg Bool.false_ne_true]
  have hlower : ∀ ts : List Thing, (ts.map (relabel (Object.lower t.ref count))).map
      (relabel Object.weightless) =
        (ts.map (relabel Object.weightless)).map (relabel (Object.lower t.ref count)) := by
    intro ts
    rw [List.map_map, List.map_map]
    refine List.map_congr_left fun s _ => ?_
    rw [Function.comp, Function.comp, relabel_relabel, relabel_relabel]
    exact relabel_congr fun o _ => o.weightless_lower _ _
  refine ⟨hw₂.wellFormed hwell, fun id => ?_, ?_, fun id => (hw₂.isPlaced id).trans (hplaced id)⟩
  · rw [hw₂.carried, carried, hheld, hlower, carried]
  · rw [hw₂.adrift, adrift, hloose, hlower, adrift]

/-! ## What is taken -/

/-- The way from a thing that a player carries to the player, and to the tile. -/
theorem chain_carried (h : w.WellFormed g.types) {id : PlayerId} {p : Player}
    (hp : w.player? id = some p) {r : Ref} (hr : r ∈ keys Object.ref p.things) :
    ∃ l, forestPath Object.ref r p.things = some l ∧ w.chain r =
      l.map .container ++ (.player p :: if p.placed then [.tile] else []) := by
  obtain ⟨l, hl⟩ := Option.isSome_iff_exists.1 (forestPath_isSome.2 hr)
  obtain ⟨ps, ps', hps, -⟩ := exists_players_eq h.players hp
  have hdist := h.heap.distinct
  rw [forest, hps, List.flatMap_append, List.flatMap_cons, List.append_assoc] at hdist
  obtain ⟨-, -, hdisj⟩ := hdist.of_append
  -- The players before do not carry it.
  have hnone : ps.findSome? (fun p =>
      way r p.things (.player p :: if p.placed then [.tile] else [])) = none := by
    refine List.findSome?_eq_none_iff.2 fun q hq => ?_
    rw [way, Option.map_eq_none_iff, ← Option.not_isSome_iff_eq_none, forestPath_isSome]
    intro hqr
    refine hdisj (?_ : r ∈ keys Object.ref (ps.flatMap Player.things)) ?_
    · obtain ⟨s, hs, rfl⟩ := (mem_keys Object.ref).1 hqr
      obtain ⟨t, ht, hst⟩ := List.mem_flatMap.1 hs
      exact (mem_keys Object.ref).2
        ⟨s, List.mem_flatMap.2 ⟨t, List.mem_flatMap.2 ⟨q, hq, ht⟩, hst⟩, rfl⟩
    · rw [List.append_assoc, keys_append]
      exact List.mem_append_left _ hr
  have hsome : way r p.things (.player p :: if p.placed then [.tile] else []) =
      some (l.map .container ++ (.player p :: if p.placed then [.tile] else [])) := by
    rw [way, hl, Option.map_some]
  refine ⟨l, hl, ?_⟩
  rw [chain, hps, List.findSome?_append, hnone, Option.none_or, List.findSome?_cons, hsome]
  rfl

/-- A thing that a player carries, and the player. -/
theorem exists_player_of_carried {id : PlayerId} {s : Thing}
    (hs : s ∈ (w.heldBy (.player id)).flatMap nodes) :
    ∃ p, w.player? id = some p ∧ s ∈ p.things.flatMap nodes := by
  rw [heldBy] at hs
  rcases hp : w.player? id with _ | p
  · rw [hp] at hs
    exact absurd hs List.not_mem_nil
  · rw [hp] at hs
    exact ⟨p, rfl, hs⟩

/-- An item that may be removed has what it is in as its parent: a container, or what is above. -/
theorem parent_cases (h : w.WellFormed g.types) {ts : List Thing} {top : List Ancestor}
    (hts : ts.flatMap nodes ⊆ w.forest.flatMap nodes) {s : Thing} (hs : s ∈ ts.flatMap nodes)
    {l : List Thing} (hl : forestPath Object.ref s.label.ref ts = some l)
    (hchain : w.chain s.label.ref = l.map .container ++ top)
    (hremove : s.label.canRemove = true) :
    s ∈ ts ∧ (w.parents s.label.ref).head? = top.head? ∨
      ∃ c ∈ ts.flatMap nodes, s ∈ c.children ∧
        w.getParent s.label.ref = some (.container c.label.ref) := by
  obtain ⟨t, ht, hpath⟩ := forestPath_eq_some hl
  obtain ⟨s', q, rfl, hs'⟩ := path_eq_cons hpath
  obtain rfl : s' = s := h.heap.distinct.eq_of_key_eq Object.ref
    (hts (List.mem_flatMap.2 ⟨t, ht, mem_nodes_of_mem_path hpath _ List.mem_cons_self⟩))
    (hts hs) hs'
  have hclass : Thing.class_ s' = .container ∨ Thing.class_ s' = .reward := by
    rw [Object.canRemove] at hremove
    rw [Thing.class_]
    rcases hstorage : s'.label.storage with _ | c
    · exact .inl rfl
    · rw [hstorage] at hremove
      simpa using hremove
  have hparents : ∀ rest, (parentsOf (.container s' :: rest)).head? = rest.head? := by
    intro rest
    rw [parentsOf]
    rcases hclass with hc | hc <;> rw [hc] <;> dsimp only <;> rcases rest with _ | ⟨a, rest⟩ <;> rfl
  rw [getParent, parents, hchain, List.map_cons, List.cons_append, hparents]
  rcases path_cases hpath with ⟨rfl, rfl⟩ | ⟨c, q', rfl, hc, hsc⟩
  · exact .inl ⟨ht, rfl⟩
  · exact .inr ⟨c, List.mem_flatMap.2 ⟨t, ht, hc⟩, hsc, rfl⟩

theorem getParent_cases (h : w.WellFormed g.types) {id : PlayerId} {s : Thing}
    (hs : s ∈ (w.heldBy (.player id)).flatMap nodes) (hremove : s.label.canRemove = true) :
    s ∈ w.heldBy (.player id) ∧ w.getParent s.label.ref = some (.player id) ∨
      ∃ c ∈ (w.heldBy (.player id)).flatMap nodes, s ∈ c.children ∧
        w.getParent s.label.ref = some (.container c.label.ref) := by
  obtain ⟨p, hp, hsp⟩ := exists_player_of_carried hs
  obtain ⟨l, hl, hchain⟩ := chain_carried h hp ((mem_keys Object.ref).2 ⟨s, hsp, rfl⟩)
  rw [← heldBy_player hp] at hl
  refine (parent_cases h (fun _ ht => heldBy_nodes ht) hs hl hchain hremove).imp_left ?_
  rintro ⟨hroot, hparent⟩
  -- The item is in a slot.
  refine ⟨hroot, ?_⟩
  rw [getParent, hparent, List.head?_cons]
  exact congrArg (fun id => some (Cylinder.player id)) (player?_mem hp).2

/-- What is in a container has an index there. -/
theorem getThingIndex_of_mem_children (h : w.WellFormed g.types) {c s : Thing}
    (hc : c ∈ w.forest.flatMap nodes) (hs : s ∈ c.children) :
    (w.getThingIndex (.container c.label.ref) s.label.ref).isSome = true := by
  have hcontainer : Thing.isContainer c = true := by
    by_contra hnone
    rw [Thing.isContainer, Option.not_isSome_iff_eq_none] at hnone
    rw [h.heap.leaf c hc hnone] at hs
    exact absurd hs List.not_mem_nil
  have hfind : w.container? c.label.ref = some c := container?_eq h.heap hc hcontainer
  rw [getThingIndex, hfind, Option.bind_some, Option.isSome_map, List.findIdx?_isSome]
  exact List.any_eq_true.2 ⟨s, hs, decide_eq_true rfl⟩

theorem getParent_carried (h : w.WellFormed g.types) {id : PlayerId} {s : Thing}
    (hs : s ∈ (w.heldBy (.player id)).flatMap nodes) (hremove : s.label.canRemove = true) :
    ∃ cylinder, w.getParent s.label.ref = some cylinder ∧
      (w.getThingIndex cylinder s.label.ref).isSome = true := by
  rcases getParent_cases h hs hremove with ⟨hroot, hparent⟩ | ⟨c, hc, hsc, hparent⟩
  · obtain ⟨p, hp, -⟩ := exists_player_of_carried hs
    rw [heldBy_player hp] at hroot
    obtain ⟨slot, -, hslot⟩ := List.mem_filterMap.1 hroot
    obtain ⟨-, -, -, hindex⟩ := isIn_of_inventory h.heap hp hslot
    exact ⟨_, hparent, hindex⟩
  · exact ⟨_, hparent, getThingIndex_of_mem_children h (heldBy_nodes hc) hsc⟩

theorem hasTile_carried (h : w.WellFormed g.types) {id : PlayerId} {s : Thing}
    (hs : s ∈ (w.heldBy (.player id)).flatMap nodes) :
    w.hasTile s.label.ref = w.isPlaced id := by
  obtain ⟨p, hp, hsp⟩ := exists_player_of_carried hs
  obtain ⟨l, -, hchain⟩ := chain_carried h hp ((mem_keys Object.ref).2 ⟨s, hsp, rfl⟩)
  rw [hasTile, hchain, List.any_append, isPlaced, hp, Option.any_some]
  have hl : (l.map Ancestor.container).any (fun
      | .tile => true
      | _ => false) = false := by
    rw [List.any_map, List.any_eq_false]
    exact fun _ _ => Bool.false_ne_true
  rw [hl, Bool.false_or]
  cases p.placed <;> rfl

/-- An item that is in a cylinder is refused, or taken from where it is. -/
theorem internalRemoveItem_cases (marks : Marks) (h : w.WellFormed g.types) {s : Thing}
    (hs : s ∈ w.forest.flatMap nodes) {placed : Bool}
    (hin : s.label.canRemove = true → ∃ cylinder, w.getParent s.label.ref = some cylinder ∧
      (w.getThingIndex cylinder s.label.ref).isSome = true)
    (htile : w.hasTile s.label.ref = placed) (count : Option ℕ) :
    (s.label.taken g.types marks placed count = .nothing ∧ ∃ ret, ret ≠ .noError ∧
        w.internalRemoveItem g marks s.label.ref count = (ret, w)) ∨
      (s.label.taken g.types marks placed count =
          if s.label.isStackable g.types ∧ count.getD s.label.getItemCount ≠ s.label.getItemCount
          then .part (count.getD s.label.getItemCount) else .whole) ∧
        ∃ cylinder, (w.getThingIndex cylinder s.label.ref).isSome = true ∧
          w.internalRemoveItem g marks s.label.ref count = (.noError,
            (w.detach g cylinder s.label.ref (count.getD s.label.getItemCount)).postNotification
              g.types cylinder) := by
  have hfind : w.find s.label.ref = some s := find_eq_some h.heap hs
  obtain ⟨n, hn⟩ : ∃ n, count.getD s.label.getItemCount = n := ⟨_, rfl⟩
  rw [internalRemoveItem, hfind, Object.taken]
  dsimp only
  rw [hn]
  by_cases hremove : s.label.canRemove = true
  · obtain ⟨cylinder, hparent, hindex⟩ := hin hremove
    have hquery : w.queryRemove g cylinder s n flagIgnoreNotMovable =
        if n = 0 ∨ (s.label.isStackable g.types ∧ n > s.label.getItemCount) then .notPossible
        else .noError := by
      have hflag : hasBitSet flagIgnoreNotMovable flagIgnoreNotMovable = true := by decide
      rw [queryRemove, Thing.ref, Option.isNone_eq_false_iff.2 hindex,
        if_neg Bool.false_ne_true, hflag]
      simp
    rw [hparent]
    dsimp only
    rw [hn, hremove, htile, hquery]
    by_cases hcount : n = 0 ∨ (s.label.isStackable g.types ∧ n > s.label.getItemCount)
    · rw [if_pos hcount, if_pos hcount]
      exact .inl ⟨rfl, .notPossible, (by intro h; cases h), rfl⟩
    · rw [if_neg hcount, if_neg hcount, if_neg (not_not.2 rfl), Bool.not_true,
        if_neg Bool.false_ne_true, if_neg Bool.false_ne_true]
      by_cases hdecay : s.label.canDecay g.types marks ∧ placed ∧
          marks.loadedFromMap s.label.ref
      · rw [if_pos hdecay, if_pos hdecay]
        exact .inl ⟨rfl, .thisIsImpossible, (by intro h; cases h), rfl⟩
      · rw [if_neg hdecay, if_neg hdecay]
        exact .inr ⟨rfl, cylinder, hindex, rfl⟩
  · -- It may not be removed.
    rw [Bool.not_eq_true] at hremove
    refine .inl ⟨?_, ?_⟩
    · rw [hremove, Bool.not_false, if_pos rfl, ite_self]
    · rcases w.getParent s.label.ref with _ | cylinder
      · exact ⟨.notPossible, (by intro h; cases h), rfl⟩
      · dsimp only
        rw [hn]
        by_cases hquery : w.queryRemove g cylinder s n flagIgnoreNotMovable ≠ .noError
        · rw [if_pos hquery]
          exact ⟨_, hquery, rfl⟩
        · rw [if_neg hquery, hremove, Bool.not_false, if_pos rfl]
          exact ⟨.notPossible, (by intro h; cases h), rfl⟩

/-- A removal leaves all as it is, or takes something from where it is. -/
theorem internalRemoveItem_detach (marks : Marks) (w : World) (r : Ref) (count : Option ℕ) :
    (w.internalRemoveItem g marks r count).2 = w ∨ ∃ s cylinder n, w.find r = some s ∧
      (w.getThingIndex cylinder r).isSome = true ∧ (w.internalRemoveItem g marks r count).2 =
        (w.detach g cylinder r n).postNotification g.types cylinder := by
  rw [internalRemoveItem]
  split
  · next s cylinder hs _ =>
    dsimp only
    split_ifs with hquery _ _
    · exact .inl rfl
    · exact .inl rfl
    · exact .inl rfl
    · refine .inr ⟨s, cylinder, _, hs, ?_, rfl⟩
      by_contra hnone
      rw [Option.not_isSome_iff_eq_none] at hnone
      obtain ⟨-, rfl⟩ := find_mem hs
      refine hquery ?_
      rw [Thing.ref] at hnone
      rw [queryRemove, Thing.ref, hnone, Option.isNone_none, if_pos rfl]
      intro h; cases h
  · exact .inl rfl

/-- What the player carries after a removal. -/
theorem carried_internalRemoveItem (marks : Marks) (h : w.WellFormed g.types) {id : PlayerId}
    {s : Thing} (hs : s ∈ (w.heldBy (.player id)).flatMap nodes) (count : Option ℕ) :
    (w.internalRemoveItem g marks s.label.ref count).2.WellFormed g.types ∧
      (w.internalRemoveItem g marks s.label.ref count).2.carried (.player id) =
        (s.label.taken g.types marks (w.isPlaced id) count).rest s.label.ref
          (w.carried (.player id)) ∧
      ∀ id', (w.internalRemoveItem g marks s.label.ref count).2.isPlaced id' = w.isPlaced id' := by
  have hfind : w.find s.label.ref = some s := find_eq_some h.heap (heldBy_nodes hs)
  rcases internalRemoveItem_cases marks h (heldBy_nodes hs) (getParent_carried h hs)
      (hasTile_carried h hs) count with ⟨htaken, ret, -, heq⟩ | ⟨htaken, cylinder, hindex, heq⟩
  · rw [htaken, heq]
    exact ⟨h, rfl, fun _ => rfl⟩
  · rw [htaken, heq]
    dsimp only
    simp only [carried_postNotification, isPlaced_postNotification]
    split_ifs with hpart
    · obtain ⟨hwell, hcarried, -, hplaced⟩ := detach_part h hindex hfind hpart
      exact ⟨hwell.postNotification _, hcarried id, hplaced⟩
    · obtain ⟨hwell, hcarried, -, hplaced⟩ := detach_whole h hindex hfind hpart
      exact ⟨hwell.postNotification _, hcarried id, hplaced⟩

/-- A removal of something that the player does not carry. -/
theorem carried_internalRemoveItem_other (marks : Marks) (h : w.WellFormed g.types)
    {id : PlayerId} {r : Ref} (hr : r ∉ keys Object.ref (w.carried (.player id))) (count : Option ℕ) :
    (w.internalRemoveItem g marks r count).2.WellFormed g.types ∧
      (w.internalRemoveItem g marks r count).2.carried (.player id) = w.carried (.player id) ∧
      ∀ id', (w.internalRemoveItem g marks r count).2.isPlaced id' = w.isPlaced id' := by
  rcases internalRemoveItem_detach marks w r count with heq | ⟨s, cylinder, n, hs, hindex, heq⟩
  · rw [heq]
    exact ⟨h, rfl, fun _ => rfl⟩
  · obtain ⟨hmem, rfl⟩ := find_mem hs
    rw [heq]
    simp only [carried_postNotification, isPlaced_postNotification]
    have hother : ∀ t ∈ (w.carried (.player id)).flatMap labels, t.ref ≠ s.label.ref :=
      fun o ho he => hr (List.mem_map.2 ⟨o, ho, he⟩)
    by_cases hpart : s.label.isStackable g.types = true ∧ n ≠ s.label.getItemCount
    · obtain ⟨hwell, hcarried, -, hplaced⟩ := detach_part h hindex hs hpart
      refine ⟨hwell.postNotification _, (hcarried id).trans ?_, hplaced⟩
      refine (List.map_congr_left fun t ht => ?_).trans (List.map_id _)
      exact relabel_self fun o ho => if_neg (hother o (List.mem_flatMap.2 ⟨t, ht, ho⟩))
    · obtain ⟨hwell, hcarried, -, hplaced⟩ := detach_whole h hindex hs hpart
      exact ⟨hwell.postNotification _, (hcarried id).trans (without_of_notMem hr), hplaced⟩

/-! ## One removal after another -/

/-- Removals of items as they were at first, each with a count. -/
def removeItems (g : Game) (marks : Marks) (w : World) (calls : List (Object × Option ℕ)) : World :=
  calls.foldl (fun w c => (w.internalRemoveItem g marks c.1.ref c.2).2) w

end World

namespace Object

variable (types : ItemTable) (marks : Marks) (placed : Bool)

theorem canRemove_weightless (o : Object) : o.weightless.canRemove = o.canRemove := by
  rw [canRemove, canRemove, weightless]
  rcases o.storage with _ | c <;> rfl

/-- Weights do not matter for what is taken. -/
theorem taken_weightless (o : Object) (count : Option ℕ) :
    o.weightless.taken types marks placed count = o.taken types marks placed count := by
  rw [taken, taken, canRemove_weightless]
  rfl

/-- The units of a stack of which a part is taken. -/
def Taken.less : Taken → ℕ
  | .part n => n
  | _ => 0

variable (calls : List (Object × Option ℕ))

/-- The object is removed. -/
def goneBy (o : Object) : Bool :=
  calls.any fun c => c.1.ref = o.ref ∧ c.1.taken types marks placed c.2 = .whole

/-- The units taken of a stack that stays. -/
def lessBy (r : Ref) : ℕ :=
  (calls.map fun c => if c.1.ref = r then (c.1.taken types marks placed c.2).less else 0).sum

/-- A stack after the removals. -/
def lowerBy (o : Object) : Object :=
  o.setItemCount (o.getItemCount - lessBy types marks placed calls o.ref)

theorem setItemCount_getItemCount (o : Object) : o.setItemCount o.getItemCount = o := by
  rw [setItemCount, getItemCount, BitVec.ofNat_toNat, BitVec.setWidth_eq]

variable {types marks placed calls} {c : Object × Option ℕ}

theorem lessBy_cons (r : Ref) : lessBy types marks placed (c :: calls) r =
    (if c.1.ref = r then (c.1.taken types marks placed c.2).less else 0) +
      lessBy types marks placed calls r := by
  rw [lessBy, List.map_cons, List.sum_cons, lessBy]

theorem lowerBy_nil (o : Object) : lowerBy types marks placed [] o = o :=
  o.setItemCount_getItemCount

theorem goneBy_cons (o : Object) : goneBy types marks placed (c :: calls) o =
    (decide (c.1.ref = o.ref ∧ c.1.taken types marks placed c.2 = .whole) ||
      goneBy types marks placed calls o) := by
  rw [goneBy, List.any_cons, goneBy]

theorem goneBy_cons_of_ne (h : c.1.taken types marks placed c.2 ≠ .whole) :
    goneBy types marks placed (c :: calls) = goneBy types marks placed calls := by
  funext o
  rw [goneBy_cons, decide_eq_false fun hc => h hc.2]
  rfl

theorem lowerBy_cons_of_less (h : (c.1.taken types marks placed c.2).less = 0) :
    lowerBy types marks placed (c :: calls) = lowerBy types marks placed calls := by
  funext o
  rw [lowerBy, lessBy_cons, h, ite_self, Nat.zero_add, lowerBy]

/-- The first removal, then the others. -/
theorem rest_then (ts : List Thing) :
    ((pruneForest (goneBy types marks placed calls)
        ((c.1.taken types marks placed c.2).rest c.1.ref ts)).map
          (relabel (lowerBy types marks placed calls))) =
      (pruneForest (goneBy types marks placed (c :: calls)) ts).map
        (relabel (lowerBy types marks placed (c :: calls))) := by
  rcases htaken : c.1.taken types marks placed c.2 with _ | n | _
  · rw [goneBy_cons_of_ne (by rw [htaken]; exact nofun), lowerBy_cons_of_less (by rw [htaken]; rfl),
      Taken.rest]
  · have hprune : ∀ o, goneBy types marks placed calls (lower c.1.ref n o) =
        goneBy types marks placed calls o := fun o => by
      rw [goneBy, (o.lower_keeps c.1.ref n).1, goneBy]
    rw [goneBy_cons_of_ne (by rw [htaken]; exact nofun), Taken.rest, pruneForest_relabel hprune,
      List.map_map]
    refine List.map_congr_left fun t _ => ?_
    rw [Function.comp, relabel_relabel]
    refine relabel_congr fun o _ => ?_
    -- Both parts are taken from the count.
    rw [Function.comp, lowerBy, (o.lower_keeps c.1.ref n).1, lowerBy, lessBy_cons, htaken,
      Taken.less, lower]
    by_cases hr : o.ref = c.1.ref
    · have hcount : (o.setItemCount (o.getItemCount - n)).getItemCount = o.getItemCount - n := by
        rw [getItemCount, setItemCount, BitVec.toNat_ofNat]
        exact Nat.mod_eq_of_lt (Nat.lt_of_le_of_lt (Nat.sub_le _ _) o.count.isLt)
      rw [if_pos hr, if_pos hr.symm, ← Nat.sub_sub, hcount]
      rfl
    · rw [if_neg hr, if_neg (Ne.symm hr), Nat.zero_add]
  · rw [lowerBy_cons_of_less (by rw [htaken]; rfl), Taken.rest, without, pruneForest_pruneForest]
    refine congrArg _ (pruneForest_congr fun o _ => ?_)
    rw [goneBy_cons, htaken]
    refine congrArg (· || _) (decide_eq_decide.2 ?_)
    rw [and_iff_left rfl, eq_comm]

end Object

namespace World

variable {g : Game} {w : World}

/-- A removal of an item as it was at first, wherever it is now. -/
theorem internalRemoveItem_step (marks : Marks) (h : w.WellFormed g.types) {id : PlayerId}
    {o : Object}
    (ho : ∀ o' ∈ (w.carried (.player id)).flatMap labels, o'.ref = o.ref → o' = o.weightless)
    (count : Option ℕ) :
    (w.internalRemoveItem g marks o.ref count).2.WellFormed g.types ∧
      (w.internalRemoveItem g marks o.ref count).2.carried (.player id) =
        (o.taken g.types marks (w.isPlaced id) count).rest o.ref (w.carried (.player id)) ∧
      ∀ id', (w.internalRemoveItem g marks o.ref count).2.isPlaced id' = w.isPlaced id' := by
  by_cases hr : o.ref ∈ keys Object.ref (w.carried (.player id))
  · -- It is still there.
    rw [carried, keys_relabel keepsUnits_weightless.ref] at hr
    obtain ⟨s, hs, he⟩ := (mem_keys Object.ref).1 hr
    have hlabel : s.label.weightless = o.weightless := by
      refine ho _ ?_ he
      rw [carried, List.flatMap_map]
      obtain ⟨t, ht, hst⟩ := List.mem_flatMap.1 hs
      refine List.mem_flatMap.2 ⟨t, ht, ?_⟩
      rw [labels_relabel]
      exact List.mem_map_of_mem (List.mem_map_of_mem hst)
    have hstep := carried_internalRemoveItem marks h hs count
    rw [he, ← Object.taken_weightless, hlabel, Object.taken_weightless] at hstep
    exact hstep
  · obtain ⟨hwell, hcarried, hplaced⟩ := carried_internalRemoveItem_other marks h hr count
    refine ⟨hwell, hcarried.trans ?_, hplaced⟩
    rcases o.taken g.types marks (w.isPlaced id) count with _ | n | _
    · rfl
    · refine ((List.map_congr_left fun t ht => ?_).trans (List.map_id _)).symm
      refine relabel_self fun o' ho' => if_neg fun he => hr ?_
      exact List.mem_map.2 ⟨o', List.mem_flatMap.2 ⟨t, ht, ho'⟩, he⟩
    · exact (without_of_notMem hr).symm

/-- All removals at once. -/
theorem carried_removeItems (marks : Marks) (id : PlayerId) (calls : List (Object × Option ℕ)) :
    ∀ {w : World}, w.WellFormed g.types → (calls.map fun c => c.1.ref).Nodup →
      (∀ c ∈ calls, ∀ o ∈ (w.carried (.player id)).flatMap labels,
        o.ref = c.1.ref → o = c.1.weightless) →
      (w.removeItems g marks calls).WellFormed g.types ∧
        (w.removeItems g marks calls).carried (.player id) =
          (pruneForest (Object.goneBy g.types marks (w.isPlaced id) calls)
            (w.carried (.player id))).map
              (relabel (Object.lowerBy g.types marks (w.isPlaced id) calls)) ∧
        (w.removeItems g marks calls).isPlaced id = w.isPlaced id := by
  induction calls with
  | nil =>
    intro w h _ _
    refine ⟨h, ?_, rfl⟩
    have hnone : pruneForest (Object.goneBy g.types marks (w.isPlaced id) [])
        (w.carried (.player id)) = w.carried (.player id) := pruneForest_eq_self fun _ _ => rfl
    rw [hnone]
    exact ((List.map_congr_left fun t _ =>
      relabel_self fun o _ => Object.lowerBy_nil o).trans (List.map_id _)).symm
  | cons c calls ih =>
    intro w h hn hcalls
    obtain ⟨hwell, hcarried, hplaced⟩ :=
      internalRemoveItem_step marks h (hcalls c List.mem_cons_self) c.2
    rw [List.map_cons, List.nodup_cons] at hn
    have hrest := ih hwell hn.2 fun c' hc' o ho he => ?_
    · rw [hplaced, hcarried, Object.rest_then] at hrest
      exact hrest
    · -- The other items are as they were.
      have hne : c'.1.ref ≠ c.1.ref := fun hr => hn.1 (hr ▸ List.mem_map_of_mem hc')
      refine hcalls c' (List.mem_cons_of_mem _ hc') o ?_ he
      rw [hcarried] at ho
      rcases hother : c.1.taken g.types marks (w.isPlaced id) c.2 with _ | n | _
      · rw [hother] at ho
        exact ho
      · rw [hother, Object.Taken.rest] at ho
        obtain ⟨t, ht, ho⟩ := List.mem_flatMap.1 ho
        obtain ⟨t₀, ht₀, rfl⟩ := List.mem_map.1 ht
        rw [labels_relabel] at ho
        obtain ⟨o₀, ho₀, rfl⟩ := List.mem_map.1 ho
        rw [(o₀.lower_keeps _ _).1] at he
        rw [Object.lower, if_neg fun hr => hne (he.symm.trans hr)]
        exact List.mem_flatMap.2 ⟨t₀, ht₀, ho₀⟩
      · rw [hother, Object.Taken.rest] at ho
        exact (labels_pruneForest_sublist _ _).subset ho

theorem distinct_carried (h : w.WellFormed g.types) (id : PlayerId) :
    Distinct Object.ref (w.carried (.player id)) := by
  rw [Distinct, carried, keys_relabel keepsUnits_weightless.ref]
  exact distinct_heldBy h.heap.distinct _

end World

end Canary.Inventory
