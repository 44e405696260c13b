import Canary.Inventory.MoveItem
import Canary.Lib.CachedSum
import Canary.Lib.Pruning
import Canary.Lib.Transition
import Mathlib.Tactic.Abel

/-!
# The weights of containers

A container keeps the weight of what it holds. Whatever changes in it, the difference is added to
its weight, and to those of the containers it is in.

* `removeItem` forgets the difference, in contrast to `removeThing`: the weights stay as they were.
* The containers that a container is in are found by `getParent`. Depot chests and inboxes leave out
  the container that they are in, or more of them, whose weights stay as they were.

So the weights are right in every state as long as what `removeItem` removes weighs nothing, and
nothing changes below a depot chest or an inbox that is in a container (`weighed_of_reachable`).
-/

namespace Canary.Inventory

open RoseTree Transition

/-! ## Changes of a container -/

namespace World

variable (types : ItemTable) (w : World)

def internalAddThing (r : Ref) (item : Thing) : World :=
  match w.container? r with
  | none => w
  | some _ => (w.modify r fun c => .node c.label (item :: c.children)).updateItemWeight r
      (item.getWeight types)

def addItemBack (r : Ref) (item : Thing) : World :=
  match w.container? r with
  | none => w
  | some _ => (w.modify r fun c => .node c.label (c.children ++ [item])).updateItemWeight r
      (item.getWeight types)

/-- `replaceThing`; what is replaced is nowhere then. -/
def replaceThing (r : Ref) (index : ℕ) (item : Thing) : World :=
  match (w.container? r).bind fun c => c.children[index]? with
  | none => w
  | some replacedItem =>
    let w' := (w.modify r fun c => .node c.label (c.children.set index item)).updateItemWeight r
      (item.getWeight types - Thing.getWeight types replacedItem)
    { w' with loose := replacedItem :: w'.loose }

/-- `removeItem`; what is removed is nowhere then. -/
def removeItem (r thing : Ref) : World :=
  match (w.container? r).bind fun c => c.children.find? fun t : Thing => t.ref = thing with
  | none => w
  | some itemToRemove =>
    let w' := w.modify r fun c => .node c.label (c.children.filter fun t : Thing => t.ref ≠ thing)
    { w' with loose := itemToRemove :: w'.loose }

/-- A thing that is nowhere, and the state without it. -/
def takeLoose (r : Ref) : Option (Thing × World) :=
  (w.loose.find? fun t : Thing => t.ref = r).map fun item =>
    (item, { w with loose := w.loose.filter fun t : Thing => t.ref ≠ r })

end World

/-- The calls that change a container. -/
inductive ContainerCall
  | addThing (container : Ref) (index : ℤ) (thing : Ref)
  | internalAddThing (container thing : Ref)
  | addItemBack (container item : Ref)
  | updateThing (container thing : Ref) (itemId : BitVec 16) (count : ℕ)
  | replaceThing (container : Ref) (index : ℕ) (thing : Ref)
  | removeThing (container thing : Ref) (count : ℕ)
  | removeItem (container thing : Ref)

namespace ContainerCall

def container : ContainerCall → Ref
  | addThing c _ _ => c
  | internalAddThing c _ => c
  | addItemBack c _ => c
  | updateThing c _ _ _ => c
  | replaceThing c _ _ => c
  | removeThing c _ _ => c
  | removeItem c _ => c

variable (g : Game)

/-- A call, on a container that is there. What is put into it was nowhere before, and it is not in
    what is put into it. -/
def next (w : World) : ContainerCall → Option World
  | addThing c index r => (w.takeLoose r).bind fun p => (p.2.container? c).map fun t =>
      if index ≥ t.capacity then w else p.2.addThing g.types (.container c) index p.1
  | internalAddThing c r => (w.takeLoose r).bind fun p => (p.2.container? c).map fun _ =>
      p.2.internalAddThing g.types c p.1
  | addItemBack c r => (w.takeLoose r).bind fun p => (p.2.container? c).map fun _ =>
      p.2.addItemBack g.types c p.1
  | updateThing c r itemId count => (w.container? c).map fun _ =>
      w.updateThing g.types (.container c) r itemId count
  | replaceThing c index r => (w.takeLoose r).bind fun p => (p.2.container? c).map fun t =>
      if t.size ≤ index then w else p.2.replaceThing g.types c index p.1
  | removeThing c r count => (w.container? c).map fun _ => w.detach g (.container c) r count
  | removeItem c r => (w.container? c).map fun _ => w.removeItem c r

end ContainerCall

/-! ## Weights -/

/-- The weights of objects, and those that containers keep. -/
def weighing (types : ItemTable) : Weighing Object Ref (BitVec 32) where
  key := Object.ref
  own := Object.itemWeight types
  cache o := o.storage.map Storage.totalWeight
  add d o :=
    { o with storage := o.storage.map fun c => { c with totalWeight := c.totalWeight + d } }
  key_add _ _ := rfl
  own_add _ _ := rfl
  cache_add d o := by
    rw [Option.map_map, Option.map_map]
    rfl

theorem weight_weighing (types : ItemTable) (t : Thing) :
    (weighing types).weight t = t.getWeight types := rfl

/-- Different objects, of which containers alone hold something, and the weights that they keep: all
    are right, but for `d` that the container at `r` lacks. -/
structure Lacking (types : ItemTable) (r : Ref) (d : BitVec 32) (ts : List Thing) : Prop where
  distinct : Distinct Object.ref ts
  leaf : ∀ t ∈ ts.flatMap nodes, t.label.storage = none → t.children = []
  lacks : ∀ t ∈ ts.flatMap nodes, (weighing types).Lacks r d t

namespace Lacking

variable {types : ItemTable} {r : Ref} {d e : BitVec 32} {ts ts' : List Thing} {c : Thing}

theorem perm (h : Lacking types r d ts) (hp : ts.Perm ts') : Lacking types r d ts' := by
  have hnodes : ∀ t, t ∈ ts'.flatMap nodes → t ∈ ts.flatMap nodes := fun t =>
    (hp.flatMap_right nodes).mem_iff.2
  exact ⟨((hp.flatMap_right labels).map _).nodup_iff.1 h.distinct,
    fun t ht => h.leaf t (hnodes t ht), fun t ht => h.lacks t (hnodes t ht)⟩

theorem append_right (h : Lacking types r d (ts ++ ts')) : Lacking types r d ts' := by
  have hnodes : ∀ t, t ∈ ts'.flatMap nodes → t ∈ (ts ++ ts').flatMap nodes := by
    intro t ht
    rw [List.flatMap_append]
    exact List.mem_append_right _ ht
  exact ⟨h.distinct.of_append.2.1, fun t ht => h.leaf t (hnodes t ht),
    fun t ht => h.lacks t (hnodes t ht)⟩

/-- A container gets other children, from things that were elsewhere, and others are left over. -/
theorem withChildren (gone new : List Thing) {f : List Thing → List Thing}
    (h : Lacking types c.ref e (new ++ ts)) (hc : c ∈ ts.flatMap nodes)
    (hcont : c.isContainer = true)
    (hkeys : (keys Object.ref gone ++ keys Object.ref (f c.children)).Perm
      (keys Object.ref new ++ keys Object.ref c.children))
    (hnodes : ∀ t ∈ (gone ++ f c.children).flatMap nodes,
      (t.label.storage = none → t.children = []) ∧ (weighing types).Lacks c.ref e t)
    (hsum : (weighing types).weights (f c.children) = (weighing types).weights c.children + d) :
    Lacking types c.ref (e + d)
      (gone ++ ts.map (RoseTree.modify Object.ref c.ref (Weighing.withChildren f))) := by
  have hts := h.append_right
  obtain ⟨-, -, hdisj⟩ := h.distinct.of_append
  -- The container is in none of the things.
  have hne : ∀ t ∈ (gone ++ f c.children).flatMap nodes, t.label.ref ≠ c.ref := by
    intro t ht he
    have hmem : c.ref ∈ keys Object.ref gone ++ keys Object.ref (f c.children) := by
      rw [← keys_append]
      exact (mem_keys Object.ref).2 ⟨t, ht, he⟩
    rcases List.mem_append.1 (hkeys.mem_iff.1 hmem) with hnew | hchild
    · exact hdisj hnew ((mem_keys Object.ref).2 ⟨c, hc, rfl⟩)
    · exact (hts.distinct.children hc).2 hchild
  have hgone : ∀ t ∈ gone.flatMap nodes, t ∈ (gone ++ f c.children).flatMap nodes := by
    intro t ht
    rw [List.flatMap_append]
    exact List.mem_append_left _ ht
  have hbelow : ∀ t ∈ (f c.children).flatMap nodes, t ∈ (gone ++ f c.children).flatMap nodes := by
    intro t ht
    rw [List.flatMap_append]
    exact List.mem_append_right _ ht
  refine ⟨?_, fun t ht => ?_, fun t ht => ?_⟩
  · have hperm : (keys Object.ref gone ++ keys Object.ref [Weighing.withChildren f c]).Perm
        (keys Object.ref new ++ keys Object.ref [c]) := by
      obtain ⟨o, cs⟩ := c
      rw [Weighing.withChildren, keys_node, keys_node]
      exact List.perm_middle.trans ((hkeys.cons _).trans List.perm_middle.symm)
    have hall := keys_modify_perm hts.distinct hc hperm
    rw [← keys_append, ← keys_append] at hall
    exact hall.nodup_iff.2 h.distinct
  · rw [List.flatMap_append] at ht
    rcases List.mem_append.1 ht with ht | ht
    · exact (hnodes t (hgone t ht)).1
    · obtain ⟨t', ht', ht⟩ := List.mem_flatMap.1 ht
      obtain ⟨t₁, ht₁, rfl⟩ := List.mem_map.1 ht'
      rcases nodes_modify_cases ht with ⟨s, hs, hkey, hnode⟩ | ⟨s, hs, -, hlabel, hchildren⟩
      · obtain rfl : s = c :=
          hts.distinct.eq_of_key_eq Object.ref (List.mem_flatMap.2 ⟨t₁, ht₁, hs⟩) hc hkey
        rw [Weighing.withChildren, nodes_node] at hnode
        rcases List.mem_cons.1 hnode with rfl | hnode
        · intro hnone
          rw [Thing.isContainer, ← label_node s.label (f s.children), hnone] at hcont
          exact absurd hcont Bool.false_ne_true
        · exact (hnodes t (hbelow t hnode)).1
      · intro hnone
        rw [hlabel] at hnone
        rw [hchildren, hts.leaf s (List.mem_flatMap.2 ⟨t₁, ht₁, hs⟩) hnone, List.map_nil]
  · rw [List.flatMap_append] at ht
    rcases List.mem_append.1 ht with ht | ht
    · exact Weighing.lacks_of_ne (hne t (hgone t ht)) (hnodes t (hgone t ht)).2
    · exact Weighing.lacks_withChildren (C := weighing types) hts.distinct hc hts.lacks
        (fun t ht => ⟨hne t (hbelow t ht), (hnodes t (hbelow t ht)).2⟩) hsum t ht

end Lacking

/-! ## The containers that a container is in -/

namespace World

variable {types : ItemTable} {w : World} {r : Ref}

/-- On the way up from a container, no depot chest or inbox is in a container. -/
def Reaches (w : World) (r : Ref) : Prop :=
  ∀ q ∈ w.forest.flatMap nodes, ∀ t ∈ q.children, r ∈ keys Object.ref [t] →
    Thing.class_ t ≠ .depotChest ∧ Thing.class_ t ≠ .inbox

theorem chain_ne_nil (hr : r ∈ keys Object.ref w.forest) : w.chain r ≠ [] := by
  have hway : ∀ {ts : List Thing} {top l : List Ancestor}, way r ts top = some l → l ≠ [] := by
    intro ts top l hl
    obtain ⟨p, hp, rfl⟩ := Option.map_eq_some_iff.1 hl
    obtain ⟨t, -, hpath⟩ := forestPath_eq_some hp
    obtain ⟨s, q, rfl, -⟩ := path_eq_cons hpath
    exact List.cons_ne_nil _ _
  have hsome : ∀ {ts : List Thing} (top : List Ancestor), r ∈ keys Object.ref ts →
      (way r ts top).isSome = true := by
    intro ts top hts
    rw [way, Option.isSome_map]
    exact forestPath_isSome.2 hts
  rw [chain]
  rcases hp : w.players.findSome? _ with _ | l
  · rw [Option.orElse_eq_orElse, Option.orElse_none]
    rcases ht : way r w.tiles [.tile] with _ | l
    · rw [Option.orElse_none]
      rcases hl : way r w.loose [] with _ | l
      · -- It is nowhere.
        rw [forest, keys_append, keys_append] at hr
        rcases List.mem_append.1 hr with hr | hr
        · obtain ⟨t, ht', rfl⟩ := (mem_keys Object.ref).1 hr
          obtain ⟨t₀, ht₀, htt⟩ := List.mem_flatMap.1 ht'
          obtain ⟨p, hmem, hpt⟩ := List.mem_flatMap.1 ht₀
          have hnone := List.findSome?_eq_none_iff.1 hp p hmem
          have hs := hsome (.player p :: if p.placed then [.tile] else [])
            (mem_keys_of_mem Object.ref hpt (key_mem_keys Object.ref htt))
          rw [hnone] at hs
          exact absurd hs Bool.false_ne_true
        · rcases List.mem_append.1 hr with hr | hr
          · have hs := hsome [.tile] hr
            rw [ht] at hs
            exact absurd hs Bool.false_ne_true
          · have hs := hsome [] hr
            rw [hl] at hs
            exact absurd hs Bool.false_ne_true
      · exact hway hl
    · exact hway ht
  · obtain ⟨p, -, hl⟩ := List.exists_of_findSome?_eq_some hp
    exact hway hl

/-- The chain of a thing is the way to the root of its tree, and what is above. -/
theorem exists_path (hr : r ∈ keys Object.ref w.forest) : ∃ t ∈ w.forest, ∃ p top,
    path Object.ref r t = some p ∧ (∀ t, Ancestor.container t ∉ top) ∧
      w.chain r = p.map .container ++ top := by
  rcases w.chain_cases r with hnil | ⟨ts, top, hts, htop, hway⟩
  · exact absurd hnil (chain_ne_nil hr)
  · obtain ⟨p, hp, hchain⟩ := Option.map_eq_some_iff.1 hway
    obtain ⟨t, ht, hpath⟩ := forestPath_eq_some hp
    exact ⟨t, hts ht, p, top, hpath, htop, hchain.symm⟩

/-- The containers that are found from a way up where none is left out. -/
theorem parentsOf_takeWhile {p : List Thing} {top : List Ancestor}
    (htop : ∀ t, Ancestor.container t ∉ top)
    (hplain : ∀ t ∈ p.dropLast, Thing.class_ t ≠ .depotChest ∧ Thing.class_ t ≠ .inbox) :
    ((parentsOf (p.map .container ++ top)).takeWhile fun
      | .container _ => true
      | _ => false) = p.tail.map .container := by
  have hnone : ∀ l : List Ancestor, l ⊆ top → (l.takeWhile fun
      | .container _ => true
      | _ => false) = [] := by
    rintro (_ | ⟨t | _ | _, l⟩) hl
    · rfl
    · exact absurd (hl List.mem_cons_self) (htop t)
    · rfl
    · rfl
  induction p with
  | nil => exact hnone _ fun _ ha => List.mem_of_mem_tail (parentsOf_subset top ha)
  | cons t p ih =>
    rcases p with _ | ⟨t', p⟩
    · exact hnone _ (parentsOf_subset _)
    · obtain ⟨hchest, hinbox⟩ := hplain t List.mem_cons_self
      have hparents : parentsOf ((t :: t' :: p).map .container ++ top) =
          .container t' :: parentsOf ((t' :: p).map .container ++ top) := by
        rw [List.map_cons, List.cons_append, parentsOf]
        split
        · next h => exact absurd h hchest
        · next h => exact absurd h hinbox
        · rfl
      rw [hparents, List.takeWhile_cons_of_pos rfl,
        ih fun s hs => hplain s (List.mem_cons_of_mem _ hs), List.tail_cons, List.tail_cons,
        List.map_cons]

/-- The addresses of a container and of those whose weights are updated with it. -/
def weighedWith (w : World) (r : Ref) : List Ref :=
  r :: ((w.parents r).takeWhile fun
    | .container _ => true
    | _ => false).filterMap fun
    | .container t => some t.ref
    | _ => none

theorem updateItemWeight_eq (types : ItemTable) (w : World) (r : Ref) (diff : BitVec 32) :
    w.updateItemWeight r diff =
      w.mapThings (relabel ((weighing types).addAt (w.weighedWith r) diff)) := rfl

/-- Where none is left out, those are the things that the container is in, or is. -/
theorem mem_weighedWith (hd : Distinct Object.ref w.forest) (hr : r ∈ keys Object.ref w.forest)
    (hreach : w.Reaches r) {s : Thing} (hs : s ∈ w.forest.flatMap nodes) :
    s.ref ∈ w.weighedWith r ↔ r ∈ keys Object.ref [s] := by
  obtain ⟨t, ht, p, top, hpath, htop, hchain⟩ := exists_path hr
  have hdt := hd.of_mem Object.ref ht
  have hmem := fun s : Thing => mem_path_iff (s := s) hdt hpath
  have hnodes : ∀ s ∈ t.nodes, s ∈ w.forest.flatMap nodes := fun s hs =>
    List.mem_flatMap.2 ⟨t, ht, hs⟩
  -- Every thing on the way up, but the root, is in the next one.
  have hplain : ∀ s ∈ p.dropLast, Thing.class_ s ≠ .depotChest ∧ Thing.class_ s ≠ .inbox := by
    intro s hs
    obtain ⟨i, hi, rfl⟩ := List.mem_iff_getElem.1 hs
    rw [List.length_dropLast] at hi
    rw [List.getElem_dropLast]
    have hsucc := List.isChain_iff_getElem.1 (isChain_path hpath).1 i (by omega)
    have hnext := (hmem p[i + 1]).1 (List.getElem_mem _)
    have hthis := (hmem p[i]).1 (List.getElem_mem _)
    exact hreach _ (hnodes _ hnext.1) _ hsucc hthis.2
  have hrefs : w.weighedWith r = p.map Thing.ref := by
    obtain ⟨s₀, q, rfl, hs₀⟩ := path_eq_cons hpath
    rw [weighedWith, parents, hchain, parentsOf_takeWhile htop hplain, List.filterMap_map,
      List.map_cons, List.tail_cons]
    refine congrArg₂ _ hs₀.symm ?_
    exact congrFun List.filterMap_eq_map q
  rw [hrefs, List.mem_map]
  constructor
  · rintro ⟨s', hs', he⟩
    have hs'mem := (hmem s').1 hs'
    obtain rfl : s' = s := hd.eq_of_key_eq Object.ref (hnodes s' hs'mem.1) hs he
    exact hs'mem.2
  · intro hk
    obtain ⟨t', ht', hst⟩ := List.mem_flatMap.1 hs
    obtain ⟨s₀, q, rfl, hs₀⟩ := path_eq_cons hpath
    have hkt : r ∈ keys Object.ref [t] := by
      rw [← hs₀]
      exact key_mem_keys Object.ref (mem_nodes_of_mem_path hpath s₀ List.mem_cons_self)
    obtain rfl : t' = t := hd.eq_of_mem_keys ht' ht ((keys_sublist hst).subset hk) hkt
    exact ⟨s, (hmem s).2 ⟨hst, hk⟩, rfl⟩

end World

namespace Lacking

variable {types : ItemTable} {w : World} {d e : BitVec 32} {c : Thing}

/-- A weight that the container lacks is added to it, and to all that it is in. -/
theorem updateItemWeight (others : List Thing)
    (h : Lacking types c.ref (e + d) (others ++ w.forest))
    (hc : c ∈ w.forest.flatMap nodes) (hcont : c.isContainer = true) (hreach : w.Reaches c.ref) :
    Lacking types c.ref e (others ++ (w.updateItemWeight c.ref d).forest) := by
  have hw := h.append_right
  obtain ⟨hothers, -, hdisj⟩ := h.distinct.of_append
  have hr : c.ref ∈ keys Object.ref w.forest := (mem_keys Object.ref).2 ⟨c, hc, rfl⟩
  have hforest : (w.updateItemWeight c.ref d).forest =
      w.forest.map (relabel ((weighing types).addAt (w.weighedWith c.ref) d)) := by
    rw [World.updateItemWeight_eq types, World.forest_mapThings]
  rw [hforest]
  have hkeys : keys Object.ref
      (w.forest.map (relabel ((weighing types).addAt (w.weighedWith c.ref) d))) =
        keys Object.ref w.forest :=
    keys_relabel (Weighing.key_addAt (C := weighing types) _ d) _
  -- The labels of the containers above change and nothing else of the forest.
  refine ⟨?_, fun t ht => ?_, fun t ht => ?_⟩
  · have hd := h.distinct
    rw [Distinct, keys_append] at hd ⊢
    rwa [hkeys]
  · rw [List.flatMap_append] at ht
    rcases List.mem_append.1 ht with ht | ht
    · refine h.leaf t ?_
      rw [List.flatMap_append]
      exact List.mem_append_left _ ht
    · rw [flatMap_nodes_relabel] at ht
      obtain ⟨⟨o, cs⟩, hs, rfl⟩ := List.mem_map.1 ht
      intro hnone
      have hstorage : o.storage = none := by
        rw [label_relabel, label_node, Weighing.addAt] at hnone
        split_ifs at hnone
        · exact Option.map_eq_none_iff.1 hnone
        · exact hnone
      have hcs : cs = [] := hw.leaf _ hs hstorage
      rw [relabel_node, children_node, hcs, List.map_nil]
  · rw [List.flatMap_append] at ht
    rcases List.mem_append.1 ht with ht | ht
    · have hne : Thing.ref t ≠ c.ref := by
        intro he
        exact hdisj (he ▸ (mem_keys Object.ref).2 ⟨t, ht, rfl⟩) hr
      refine Weighing.lacks_of_ne hne (h.lacks t ?_)
      rw [List.flatMap_append]
      exact List.mem_append_left _ ht
    · obtain ⟨t', ht', ht⟩ := List.mem_flatMap.1 ht
      obtain ⟨t₀, ht₀, rfl⟩ := List.mem_map.1 ht'
      have hnodes : ∀ s ∈ t₀.nodes, s ∈ w.forest.flatMap nodes := fun s hs =>
        List.mem_flatMap.2 ⟨t₀, ht₀, hs⟩
      -- Inside the tree the correction reaches every container that holds `c`.
      refine Weighing.lacks_relabel (C := weighing types) (hw.distinct.of_mem Object.ref ht₀)
        (fun s hs hnone => hw.leaf s (hnodes s hs) (Option.map_eq_none_iff.1 hnone))
        (fun s hs hkey => ?_)
        (fun s hs => World.mem_weighedWith hw.distinct hr hreach (hnodes s hs))
        (fun s hs => hw.lacks s (hnodes s hs)) t ht
      obtain rfl : s = c := hw.distinct.eq_of_key_eq Object.ref (hnodes s hs) hc hkey
      exact (Option.isSome_map).trans hcont

/-- The children of a container are rearranged, with things from elsewhere. -/
theorem rearrange (gone new : List Thing) {f : List Thing → List Thing}
    (h : Lacking types c.ref e (new ++ w.forest)) (hc : c ∈ w.forest.flatMap nodes)
    (hcont : c.isContainer = true) (hperm : (gone ++ f c.children).Perm (new ++ c.children)) :
    Lacking types c.ref
      (e + ((weighing types).weights new - (weighing types).weights gone))
      (gone ++ (w.modify c.ref (Weighing.withChildren f)).forest) := by
  rw [World.modify, World.forest_mapThings]
  refine h.withChildren gone new hc hcont ?_ (fun t ht => ?_) ?_
  · rw [← keys_append, ← keys_append]
    exact (hperm.flatMap_right labels).map _
  · have hmem : t ∈ (new ++ w.forest).flatMap nodes := by
      have hnode := (hperm.flatMap_right nodes).mem_iff.1 ht
      rw [List.flatMap_append, List.mem_append] at hnode ⊢
      refine hnode.imp_right fun hchild => ?_
      obtain ⟨b, hb, htb⟩ := List.mem_flatMap.1 hchild
      obtain ⟨t₀, ht₀, hct⟩ := List.mem_flatMap.1 hc
      exact List.mem_flatMap.2 ⟨t₀, ht₀, nodes_trans hct (mem_nodes_of_mem_children hb htb)⟩
    exact ⟨h.leaf t hmem, h.lacks t hmem⟩
  · have hsum := Weighing.weights_perm (C := weighing types) hperm
    rw [Weighing.weights_append, Weighing.weights_append] at hsum
    rw [← add_sub_assoc, eq_sub_iff_add_eq, add_comm _ ((weighing types).weights gone), hsum,
      add_comm]

end Lacking

namespace World

variable {types : ItemTable} {w : World} {c : Thing}

/-- The container with other children is where it was. -/
theorem mem_withChildren (hd : Distinct Object.ref w.forest) (hc : c ∈ w.forest.flatMap nodes)
    (f : List Thing → List Thing) : Weighing.withChildren f c ∈
      (w.modify c.ref (Weighing.withChildren f)).forest.flatMap nodes := by
  obtain ⟨t, ht, hct⟩ := List.mem_flatMap.1 hc
  have hmem := mem_nodes_modify (hd.of_mem Object.ref ht) hct
    (key_mem_keys Object.ref (mem_nodes_self c)) (Weighing.withChildren f)
  rw [modify_self] at hmem
  rw [modify, forest_mapThings]
  exact List.mem_flatMap.2 ⟨_, List.mem_map_of_mem ht, hmem⟩

theorem Reaches.withChildren (hreach : w.Reaches c.ref) (hd : Distinct Object.ref w.forest)
    (hc : c ∈ w.forest.flatMap nodes) {f : List Thing → List Thing}
    (hnot : c.ref ∉ keys Object.ref (f c.children)) :
    (w.modify c.ref (Weighing.withChildren f)).Reaches c.ref := by
  intro q hq t ht hk
  rw [modify, forest_mapThings] at hq
  obtain ⟨t', ht', hq⟩ := List.mem_flatMap.1 hq
  obtain ⟨t₀, ht₀, rfl⟩ := List.mem_map.1 ht'
  rcases nodes_modify_cases hq with ⟨s, hs, hkey, hnode⟩ | ⟨s, hs, -, -, hchildren⟩
  · -- Below the container itself it is not.
    obtain rfl : s = c := hd.eq_of_key_eq Object.ref (List.mem_flatMap.2 ⟨t₀, ht₀, hs⟩) hc hkey
    refine absurd ?_ hnot
    rw [Weighing.withChildren, nodes_node] at hnode
    rcases List.mem_cons.1 hnode with rfl | hnode
    · exact mem_keys_of_mem Object.ref ht hk
    · obtain ⟨b, hb, hqb⟩ := List.mem_flatMap.1 hnode
      have htb := nodes_trans hqb (mem_nodes_of_mem_children ht (mem_nodes_self t))
      exact mem_keys_of_mem Object.ref hb ((keys_sublist htb).subset hk)
  · rw [hchildren] at ht
    obtain ⟨t₁, ht₁, rfl⟩ := List.mem_map.1 ht
    have hlabel : (RoseTree.modify Object.ref c.ref (Weighing.withChildren f) t₁).label =
        t₁.label := by
      obtain ⟨o, cs⟩ := t₁
      rw [modify_node]
      split_ifs <;> rfl
    have hk₁ : c.ref ∈ keys Object.ref [t₁] := by
      by_contra hnone
      rw [modify_of_notMem Object.ref _ hnone] at hk
      exact hnone hk
    rw [Thing.class_, hlabel]
    exact hreach s (List.mem_flatMap.2 ⟨t₀, ht₀, hs⟩) t₁ ht₁ hk₁

end World

/-! ## The calls -/

/-- The weights are right. -/
def Balanced (types : ItemTable) (ts : List Thing) : Prop := ∀ r, Lacking types r 0 ts

theorem Lacking.balanced {types : ItemTable} {r : Ref} {ts : List Thing}
    (h : Lacking types r 0 ts) : Balanced types ts :=
  fun _ => ⟨h.distinct, h.leaf, fun t ht =>
    Weighing.lacks_zero.2 (Weighing.lacks_zero.1 (h.lacks t ht))⟩

namespace Balanced

variable {types : ItemTable} {w : World} {c : Thing} {ts ts' : List Thing}

theorem perm (h : Balanced types ts) (hp : ts.Perm ts') : Balanced types ts' :=
  fun r => (h r).perm hp

theorem distinct (h : Balanced types ts) : Distinct Object.ref ts := (h 0).distinct

/-- The children of a container are rearranged, and the weight that they have more is added. -/
theorem rearrange (gone new : List Thing) {f : List Thing → List Thing}
    (h : Balanced types (new ++ w.forest)) (hc : c ∈ w.forest.flatMap nodes)
    (hcont : c.isContainer = true) (hreach : w.Reaches c.ref)
    (hperm : (gone ++ f c.children).Perm (new ++ c.children)) :
    Balanced types (gone ++ ((w.modify c.ref (Weighing.withChildren f)).updateItemWeight c.ref
      ((weighing types).weights new - (weighing types).weights gone)).forest) := by
  have hlacking := (h c.ref).rearrange gone new hc hcont hperm
  have hd := h.distinct.of_append.2.1
  have hmem := World.mem_withChildren hd hc f
  have hnot := (hlacking.append_right.distinct.children hmem).2
  exact (Lacking.updateItemWeight (c := Weighing.withChildren f c) gone hlacking hmem hcont
    (hreach.withChildren hd hc hnot)).balanced

/-- Something is put into a container. -/
theorem put {item : Thing} {f : List Thing → List Thing} (h : Balanced types (item :: w.forest))
    (hc : c ∈ w.forest.flatMap nodes) (hcont : c.isContainer = true) (hreach : w.Reaches c.ref)
    (hf : (f c.children).Perm (item :: c.children)) :
    Balanced types ((w.modify c.ref (Weighing.withChildren f)).updateItemWeight c.ref
      (item.getWeight types)).forest := by
  have hput := Balanced.rearrange [] [item] h hc hcont hreach hf
  have hweight : (weighing types).weights [item] - (weighing types).weights [] =
      item.getWeight types := by
    rw [Weighing.weights, Weighing.weights, List.map_singleton, List.sum_singleton, List.map_nil,
      List.sum_nil, sub_zero, weight_weighing]
  rwa [hweight] at hput

end Balanced

namespace World

variable {types : ItemTable} {w w' : World} {r : Ref} {item c : Thing}

theorem takeLoose_spec (hd : Distinct Object.ref w.forest) (h : w.takeLoose r = some (item, w')) :
    (item :: w'.forest).Perm w.forest ∧ w'.forest.Sublist w.forest := by
  obtain ⟨t, ht, he⟩ := Option.map_eq_some_iff.1 h
  obtain ⟨rfl, rfl⟩ := Prod.mk.inj he
  have hr : t.ref = r := by simpa using List.find?_some ht
  have hmem := List.mem_of_find?_eq_some ht
  have hloose : Distinct Object.ref w.loose := by
    rw [forest, ← List.append_assoc] at hd
    exact hd.of_append.2.1
  subst hr
  have hperm := hloose.perm_cons_filter hmem
  constructor
  · rw [forest, forest]
    refine List.Perm.trans ?_ (((hperm.append_left w.tiles).append_left _))
    refine List.perm_middle.symm.trans ?_
    exact List.Perm.append_left _ List.perm_middle.symm
  · rw [forest, forest]
    exact List.Sublist.append_left (List.Sublist.append_left (List.filter_sublist) _) _

theorem Reaches.mono (hreach : w.Reaches r) (hsub : w'.forest.Sublist w.forest) :
    w'.Reaches r :=
  fun q hq => hreach q ((hsub.flatMap nodes).subset hq)

/-- A thing beside the others that are nowhere. -/
theorem forest_loose_cons (w : World) (t : Thing) :
    (t :: w.forest).Perm { w with loose := t :: w.loose }.forest := by
  rw [forest, forest]
  refine List.perm_middle.symm.trans ?_
  exact List.Perm.append_left _ List.perm_middle.symm

theorem find_isNone_iff (w : World) (r : Ref) :
    (w.find r).isNone = true ↔ r ∉ keys Object.ref w.forest := by
  rw [Option.isNone_iff_eq_none, find, find?_eq_none_iff, keys, List.mem_map, not_exists]
  exact forall_congr' fun o => not_and.symm

theorem container?_spec (h : w.container? r = some c) :
    c ∈ w.forest.flatMap nodes ∧ c.ref = r ∧ c.isContainer = true := by
  obtain ⟨hfind, hcont⟩ := container?_eq_some h
  obtain ⟨hmem, hr⟩ := find_mem hfind
  exact ⟨hmem, hr, hcont⟩

end World

namespace Balanced

variable {types : ItemTable} {g : Game} {w w' : World} {r : Ref} {item c s : Thing}

/-- What is taken from nowhere is beside the others. -/
theorem takeLoose (h : Balanced types w.forest) (ht : w.takeLoose r = some (item, w')) :
    Balanced types (item :: w'.forest) :=
  h.perm (World.takeLoose_spec h.distinct ht).1.symm

theorem addThing (h : Balanced types (item :: w.forest)) (hc : w.container? r = some c)
    (hreach : w.Reaches r) {index : ℤ} (hindex : ¬index ≥ c.capacity) :
    Balanced types (w.addThing types (.container r) index item).forest := by
  obtain ⟨hmem, rfl, hcont⟩ := World.container?_spec hc
  rw [World.addThing, hc]
  dsimp only
  rw [if_neg hindex]
  exact h.put (f := fun cs => item :: cs) hmem hcont hreach (.refl _)

theorem internalAddThing (h : Balanced types (item :: w.forest)) (hc : w.container? r = some c)
    (hreach : w.Reaches r) : Balanced types (w.internalAddThing types r item).forest := by
  obtain ⟨hmem, rfl, hcont⟩ := World.container?_spec hc
  rw [World.internalAddThing, hc]
  exact h.put (f := fun cs => item :: cs) hmem hcont hreach (.refl _)

theorem addItemBack (h : Balanced types (item :: w.forest)) (hc : w.container? r = some c)
    (hreach : w.Reaches r) : Balanced types (w.addItemBack types r item).forest := by
  obtain ⟨hmem, rfl, hcont⟩ := World.container?_spec hc
  rw [World.addItemBack, hc]
  exact h.put (f := fun cs => cs ++ [item]) hmem hcont hreach (List.perm_append_singleton _ _)

theorem replaceThing (h : Balanced types (item :: w.forest)) (hc : w.container? r = some c)
    (hreach : w.Reaches r) {index : ℕ} (hindex : index < c.size) :
    Balanced types (w.replaceThing types r index item).forest := by
  obtain ⟨hmem, rfl, hcont⟩ := World.container?_spec hc
  obtain ⟨old, hold⟩ : ∃ old, c.children[index]? = some old :=
    ⟨_, List.getElem?_eq_getElem hindex⟩
  rw [World.replaceThing, hc, Option.bind_some, hold]
  refine Balanced.perm ?_ (World.forest_loose_cons _ old)
  have hperm : ([old] ++ c.children.set index item).Perm ([item] ++ c.children) := by
    obtain ⟨hlt, rfl⟩ := List.getElem?_eq_some_iff.1 hold
    have hchildren : c.children =
        c.children.take index ++ c.children[index] :: c.children.drop (index + 1) := by
      rw [← List.drop_eq_getElem_cons, List.take_append_drop]
    rw [List.set_eq_take_append_cons_drop, if_pos hlt]
    conv => rhs; rw [hchildren]
    refine (List.perm_middle.cons _).trans (.trans (.swap _ _ _) ?_)
    exact List.perm_middle.symm.cons _
  have hset := Balanced.rearrange [old] [item] (f := fun cs => cs.set index item) h hmem hcont
    hreach hperm
  have hweight : (weighing types).weights [item] - (weighing types).weights [old] =
      item.getWeight types - Thing.getWeight types old := by
    rw [Weighing.weights, Weighing.weights, List.map_singleton, List.sum_singleton,
      List.map_singleton, List.sum_singleton, weight_weighing, weight_weighing]
  rwa [hweight] at hset

/-- An item of a container is changed in place. -/
theorem changeChild (h : Balanced types w.forest) (hc : c ∈ w.forest.flatMap nodes)
    (hcont : c.isContainer = true) (hreach : w.Reaches c.ref) (hs : s ∈ c.children) {o : Object}
    (href : o.ref = s.ref) (hstorage : o.storage = s.label.storage) :
    Balanced types ((w.modify s.ref fun _ => .node o s.children).updateItemWeight c.ref
      (Thing.getWeight types (.node o s.children) - s.getWeight types)).forest := by
  let item : Thing := .node o s.children
  let g : List Thing → List Thing := List.map (RoseTree.modify Object.ref s.ref fun _ => item)
  have hd := h.distinct
  -- The container has the item in place of the other one.
  have hforest : (w.modify s.ref fun _ => item).forest =
      (w.modify c.ref (Weighing.withChildren g)).forest := by
    rw [World.modify, World.modify, World.forest_mapThings, World.forest_mapThings]
    exact map_modify_child hd hc hs fun _ => item
  obtain ⟨l, l', hl⟩ := List.append_of_mem hs
  have hdc := (hd.children hc).1
  rw [hl] at hdc
  have hg : g c.children = l ++ item :: l' := by
    rw [hl]
    exact hdc.map_modify _
  have hkeys : keys Object.ref (g c.children) = keys Object.ref c.children := by
    have hitem : keys Object.ref [item] = keys Object.ref [s] := by
      obtain ⟨o', cs⟩ := s
      rw [keys_node, keys_node, href]
      rfl
    rw [hg, hl, keys_append, keys_append, keys_cons _ item l', keys_cons _ s l', hitem]
  have hchildren : ∀ b ∈ c.children, ∀ t ∈ b.nodes, t ∈ w.forest.flatMap nodes := by
    intro b hb t ht
    obtain ⟨t₀, ht₀, hct⟩ := List.mem_flatMap.1 hc
    exact List.mem_flatMap.2 ⟨t₀, ht₀, nodes_trans hct (mem_nodes_of_mem_children hb ht)⟩
  have hlacking : Lacking types c.ref (0 + (Thing.getWeight types item - s.getWeight types))
      ([] ++ w.forest.map (RoseTree.modify Object.ref c.ref (Weighing.withChildren g))) := by
    refine (h c.ref).withChildren [] [] hc hcont (.of_eq hkeys) (fun t ht => ?_) ?_
    · obtain ⟨b, hb, htb⟩ := List.mem_flatMap.1 ht
      rw [List.nil_append, hg] at hb
      have hold : ∀ b ∈ c.children, t ∈ b.nodes →
          (t.label.storage = none → t.children = []) ∧ (weighing types).Lacks c.ref 0 t :=
        fun b hb htb => ⟨(h c.ref).leaf t (hchildren b hb t htb),
          (h c.ref).lacks t (hchildren b hb t htb)⟩
      rcases List.mem_append.1 hb with hb | hb
      · exact hold b (hl ▸ List.mem_append_left _ hb) htb
      · rcases List.mem_cons.1 hb with rfl | hb
        · -- The item keeps what it holds, and the weight of it.
          have hself := hchildren s hs s (mem_nodes_self s)
          rw [nodes_node] at htb
          rcases List.mem_cons.1 htb with rfl | htb
          · refine ⟨fun hnone => (h c.ref).leaf s hself (hstorage ▸ hnone), ?_⟩
            refine Weighing.lacks_zero.2 fun m hm => ?_
            rw [label_node] at hm
            refine Weighing.lacks_zero.1 ((h c.ref).lacks s hself) m ?_
            rw [← hm]
            exact congrArg (Option.map Storage.totalWeight) hstorage.symm
          · obtain ⟨b, hb, htb⟩ := List.mem_flatMap.1 htb
            have hnode := hchildren s hs t (mem_nodes_of_mem_children hb htb)
            exact ⟨(h c.ref).leaf t hnode, (h c.ref).lacks t hnode⟩
        · exact hold b (hl ▸ List.mem_append_right _ (List.mem_cons_of_mem _ hb)) htb
    · rw [hg, hl, Weighing.weights_append, Weighing.weights_append, Weighing.weights_cons,
        Weighing.weights_cons, weight_weighing, weight_weighing]
      abel
  have hmem := World.mem_withChildren hd hc g
  rw [← hforest] at hmem
  have hnot : c.ref ∉ keys Object.ref (g c.children) := by
    rw [hkeys]
    exact (hd.children hc).2
  have hreach' : (w.modify s.ref fun _ => item).Reaches c.ref := by
    intro q hq
    rw [hforest] at hq
    exact hreach.withChildren hd hc hnot q hq
  have hmap : w.forest.map (RoseTree.modify Object.ref c.ref (Weighing.withChildren g)) =
      (w.modify s.ref fun _ => item).forest := by
    rw [hforest, World.modify, World.forest_mapThings]
  rw [hmap] at hlacking
  exact (Lacking.updateItemWeight (c := Weighing.withChildren g c) [] hlacking hmem hcont
    hreach').balanced

/-- What a container has an index for is in it. -/
theorem exists_child (h : Balanced types w.forest) (hc : w.container? r = some c) {thing : Ref}
    {i : ℤ} (hi : w.getThingIndex (.container r) thing = some i) :
    ∃ s : Thing, s ∈ c.children ∧ s.ref = thing ∧ w.find thing = some s := by
  obtain ⟨hmem, -, -⟩ := World.container?_spec hc
  rw [World.getThingIndex, hc, Option.bind_some, Option.map_eq_some_iff] at hi
  obtain ⟨n, hn, -⟩ := hi
  obtain ⟨hlt, href, -⟩ := List.findIdx?_eq_some_iff_getElem.1 hn
  have href : Thing.ref c.children[n] = thing := of_decide_eq_true href
  have hs := List.getElem_mem hlt
  refine ⟨c.children[n], hs, href, (find?_eq_some_iff Object.ref h.distinct).2 ⟨?_, href⟩⟩
  obtain ⟨t, ht, hct⟩ := List.mem_flatMap.1 hmem
  exact List.mem_flatMap.2
    ⟨t, ht, nodes_trans hct (mem_nodes_of_mem_children hs (mem_nodes_self _))⟩

theorem updateThing (h : Balanced types w.forest) (hc : w.container? r = some c)
    (hreach : w.Reaches r) (thing : Ref) (itemId : BitVec 16) (count : ℕ) :
    Balanced types (w.updateThing types (.container r) thing itemId count).forest := by
  rw [World.updateThing]
  split
  · next i t hi ht =>
    obtain ⟨s, hs, rfl, hfind⟩ := h.exists_child hc hi
    obtain rfl : s = t := Option.some.inj (hfind.symm.trans ht)
    obtain ⟨hmem, rfl, hcont⟩ := World.container?_spec hc
    obtain ⟨href, -, -, hstorage⟩ := s.label.setID_keeps types itemId
    exact h.changeChild hmem hcont hreach hs
      (o := (s.label.setID types itemId).setSubType types count) href hstorage
  · exact h

/-- A part of a stack is taken. -/
theorem detach_part (h : Balanced g.types w.forest) (hc : w.container? r = some c)
    (hreach : w.Reaches r) {thing : Ref} {i : ℤ} {s : Thing}
    (hi : w.getThingIndex (.container r) thing = some i) (hs : w.find thing = some s) {count : ℕ}
    (hcount : s.label.isStackable g.types = true ∧ count ≠ s.label.getItemCount) :
    Balanced g.types (w.detach g (.container r) thing count).forest := by
  obtain ⟨t, ht, rfl, hfind⟩ := h.exists_child hc hi
  obtain rfl : t = s := Option.some.inj (hfind.symm.trans hs)
  obtain ⟨hmem, rfl, hcont⟩ := World.container?_spec hc
  let item : Thing := .node (Object.setItemCount t.label (t.label.getItemCount - count)) t.children
  have hchange := h.changeChild hmem hcont hreach ht
    (o := Object.setItemCount t.label (t.label.getItemCount - count)) rfl rfl
  have hremove : w.removeThing g.types (.container c.ref) t.ref count =
      (w.modify t.ref fun _ => item).updateItemWeight c.ref
        (item.getWeight g.types - t.getWeight g.types) := by
    rw [World.removeThing, hi, hs]
    exact if_pos hcount
  -- The stack is still there.
  have hthere : t.ref ∈ keys Object.ref ((w.modify t.ref fun _ => item).updateItemWeight c.ref
      (item.getWeight g.types - t.getWeight g.types)).forest := by
    obtain ⟨t₀, ht₀, htt⟩ := List.mem_flatMap.1 (World.find_mem hs).1
    have hnode := mem_nodes_modify (h.distinct.of_mem Object.ref ht₀) htt
      (key_mem_keys Object.ref (mem_nodes_self t)) fun _ => item
    rw [modify_self] at hnode
    have hkey := key_mem_keys Object.ref hnode
    rw [World.updateItemWeight_eq g.types, World.keys_mapThings_relabel]
    · rw [World.modify, World.forest_mapThings]
      exact mem_keys_of_mem Object.ref (List.mem_map_of_mem ht₀) hkey
    · exact World.keepsUnits_weight _ _
  rw [World.detach, hremove, if_neg]
  · exact hchange
  · rw [World.find_isNone_iff]
    exact not_not.2 hthere

/-- An item, or all of a stack, is taken. -/
theorem detach_whole (h : Balanced g.types w.forest) (hc : w.container? r = some c)
    (hreach : w.Reaches r) {thing : Ref} {i : ℤ} {s : Thing}
    (hi : w.getThingIndex (.container r) thing = some i) (hs : w.find thing = some s) {count : ℕ}
    (hcount : ¬(s.label.isStackable g.types = true ∧ count ≠ s.label.getItemCount)) :
    Balanced g.types (w.detach g (.container r) thing count).forest := by
  obtain ⟨t, ht, rfl, hfind⟩ := h.exists_child hc hi
  obtain rfl : t = s := Option.some.inj (hfind.symm.trans hs)
  obtain ⟨hmem, rfl, hcont⟩ := World.container?_spec hc
  have hd := h.distinct
  -- The weight is taken off first: the container lacks it then, until the item is gone.
  let w₁ := w.updateItemWeight c.ref (-t.getWeight g.types)
  have hlacks : Lacking g.types c.ref (t.getWeight g.types) ([] ++ w₁.forest) := by
    refine Lacking.updateItemWeight [] ?_ hmem hcont hreach
    rw [add_neg_cancel]
    exact h c.ref
  have hw₁ : w₁.forest = w.forest.map (relabel ((weighing g.types).addAt (w.weighedWith c.ref)
      (-t.getWeight g.types))) := by
    change (w.updateItemWeight c.ref (-t.getWeight g.types)).forest = _
    rw [World.updateItemWeight_eq g.types, World.forest_mapThings]
  generalize hf : (weighing g.types).addAt (w.weighedWith c.ref) (-t.getWeight g.types) = f at hw₁
  have hcr : c.ref ∈ keys Object.ref w.forest := (mem_keys Object.ref).2 ⟨c, hmem, rfl⟩
  -- What is in the container stays as it is.
  have hsame : c.children.map (relabel f) = c.children := by
    conv => rhs; rw [← List.map_id c.children]
    refine List.map_congr_left fun b hb => relabel_self fun o ho => ?_
    obtain ⟨q, hq, rfl⟩ := List.mem_map.1 ho
    obtain ⟨t₀, ht₀, hct⟩ := List.mem_flatMap.1 hmem
    have hnode : q ∈ w.forest.flatMap nodes :=
      List.mem_flatMap.2 ⟨t₀, ht₀, nodes_trans hct (mem_nodes_of_mem_children hb hq)⟩
    have hnot : q.label.ref ∉ w.weighedWith c.ref := by
      intro hk
      refine (hd.children hmem).2 ?_
      exact mem_keys_of_mem Object.ref hb
        ((keys_sublist hq).subset ((World.mem_weighedWith hd hcr hreach hnode).1 hk))
    rw [← hf, Weighing.addAt]
    exact if_neg hnot
  let c₁ : Thing := .node (f c.label) c.children
  have hc₁ : c₁ ∈ w₁.forest.flatMap nodes := by
    rw [hw₁, flatMap_nodes_relabel]
    refine List.mem_map.2 ⟨c, hmem, ?_⟩
    obtain ⟨o, cs⟩ := c
    rw [relabel_node]
    exact congrArg (node (f o)) hsame
  have href : c₁.ref = c.ref := by
    change (f c.label).ref = c.label.ref
    rw [← hf]
    exact Weighing.key_addAt (C := weighing g.types) _ _ _
  have hcont₁ : c₁.isContainer = true := by
    change (f c.label).storage.isSome = true
    rw [← hf, Weighing.addAt]
    split_ifs
    · exact (Option.isSome_map).trans hcont
    · exact hcont
  have hgone := Lacking.rearrange (c := c₁) [t] []
    (f := fun cs => cs.filter fun b : Thing => b.ref ≠ t.ref) (href ▸ hlacks) hc₁ hcont₁
    ((hd.children hmem).1.perm_cons_filter ht)
  have hzero : t.getWeight g.types +
      ((weighing g.types).weights [] - (weighing g.types).weights [t]) = 0 := by
    rw [Weighing.weights, Weighing.weights, List.map_nil, List.sum_nil, List.map_singleton,
      List.sum_singleton, weight_weighing, zero_sub, add_neg_cancel]
  rw [hzero, href] at hgone
  have hremove : w.removeThing g.types (.container c.ref) t.ref count =
      w₁.modify c.ref
        (Weighing.withChildren fun cs => cs.filter fun b : Thing => b.ref ≠ t.ref) := by
    rw [World.removeThing, hi, hs]
    exact if_neg hcount
  have hnone :
      ((w.removeThing g.types (.container c.ref) t.ref count).find t.ref).isNone = true := by
    rw [World.find_isNone_iff, hremove]
    obtain ⟨-, -, hdisj⟩ := hgone.distinct.of_append
    exact hdisj (key_mem_keys Object.ref (mem_nodes_self t))
  rw [World.detach, if_pos hnone, hs, hremove]
  exact hgone.balanced.perm (World.forest_loose_cons _ t)

theorem detach (h : Balanced g.types w.forest) (hc : w.container? r = some c)
    (hreach : w.Reaches r) (thing : Ref) (count : ℕ) :
    Balanced g.types (w.detach g (.container r) thing count).forest := by
  rcases hi : w.getThingIndex (.container r) thing with _ | i
  · -- It is not in the container, and nothing happens.
    have hsame : w.removeThing g.types (.container r) thing count = w := by
      rw [World.removeThing, hi]
    rw [World.detach, hsame]
    rcases hf : w.find thing with _ | s
    · exact h
    · exact h
  · obtain ⟨s, -, -, hs⟩ := h.exists_child hc hi
    by_cases hcount : s.label.isStackable g.types = true ∧ count ≠ s.label.getItemCount
    · exact h.detach_part hc hreach hi hs hcount
    · exact h.detach_whole hc hreach hi hs hcount

/-- What is removed without its weight weighs nothing. -/
theorem removeItem (h : Balanced types w.forest) (hc : w.container? r = some c) {thing : Ref}
    (hzero : ∀ s ∈ c.children, Thing.ref s = thing → Thing.getWeight types s = 0) :
    Balanced types (w.removeItem r thing).forest := by
  rw [World.removeItem, hc, Option.bind_some]
  rcases hs : c.children.find? (fun t : Thing => t.ref = thing) with _ | s
  · exact h
  · obtain ⟨hmem, rfl, hcont⟩ := World.container?_spec hc
    have hchild := List.mem_of_find?_eq_some hs
    have href : Thing.ref s = thing := by simpa using List.find?_some hs
    subst href
    have hgone := (h c.ref).rearrange [s] []
      (f := fun cs => cs.filter fun b : Thing => b.ref ≠ s.ref) hmem hcont
      ((h.distinct.children hmem).1.perm_cons_filter hchild)
    have hweight : 0 + ((weighing types).weights [] - (weighing types).weights [s]) = 0 := by
      rw [Weighing.weights, Weighing.weights, List.map_nil, List.sum_nil, List.map_singleton,
        List.sum_singleton, weight_weighing, hzero s hchild rfl, sub_zero, add_zero]
    rw [hweight] at hgone
    exact hgone.balanced.perm (World.forest_loose_cons _ s)

end Balanced

/-! ## Runs of calls -/

/-- Every container keeps the weight of what it holds. -/
def Weighed (types : ItemTable) (w : World) : Prop :=
  ∀ t ∈ w.forest.flatMap nodes, ∀ s, t.label.storage = some s →
    s.totalWeight = (t.children.map (Thing.getWeight types)).sum

/-- Different objects, of which containers alone hold something, and containers with the weights
    of what they hold. -/
structure Sound (types : ItemTable) (w : World) : Prop where
  distinct : Distinct Object.ref w.forest
  leaf : ∀ t ∈ w.forest.flatMap nodes, t.label.storage = none → t.children = []
  weighed : Weighed types w

theorem balanced_iff {types : ItemTable} {w : World} :
    Balanced types w.forest ↔ Sound types w := by
  constructor
  · intro h
    refine ⟨h.distinct, (h 0).leaf, fun t ht s hs => ?_⟩
    exact Weighing.lacks_zero.1 ((h 0).lacks t ht) s.totalWeight
      (congrArg (Option.map Storage.totalWeight) hs)
  · intro h r
    refine ⟨h.distinct, h.leaf, fun t ht => Weighing.lacks_zero.2 fun m hm => ?_⟩
    obtain ⟨s, hs, rfl⟩ := Option.map_eq_some_iff.1 hm
    exact h.weighed t ht s hs

/-- The runs of calls, from things with the right weights. -/
def containerCalls (g : Game) : System World ContainerCall :=
  .ofNext (Sound g.types) (ContainerCall.next g)

namespace ContainerCall

/-- No call below a depot chest or an inbox that is in a container, and no `removeItem` of something
    that weighs something. -/
def Exact (g : Game) (w : World) : ContainerCall → Prop
  | removeItem r thing => ∀ c : Thing, w.container? r = some c → ∀ s ∈ c.children,
      Thing.ref s = thing → Thing.getWeight g.types s = 0
  | call => w.Reaches call.container

variable {g : Game} {w w' : World}

/-- What is put into a container was nowhere, and the weights of the others stay right. -/
theorem exists_of_put (h : Balanced g.types w.forest) {r thing : Ref} (hreach : w.Reaches r)
    {put : Thing × World → Thing → World}
    (hstep : ((w.takeLoose thing).bind fun p => (p.2.container? r).map fun c => put p c) =
      some w') :
    ∃ item w₁ c, Balanced g.types (item :: w₁.forest) ∧ w₁.container? r = some c ∧
      w₁.Reaches r ∧ put (item, w₁) c = w' := by
  obtain ⟨⟨item, w₁⟩, htake, hstep⟩ := Option.bind_eq_some_iff.1 hstep
  obtain ⟨c, hc, hput⟩ := Option.map_eq_some_iff.1 hstep
  have hsub := (World.takeLoose_spec h.distinct htake).2
  exact ⟨item, w₁, c, h.takeLoose htake, hc, hreach.mono hsub, hput⟩

theorem balanced_next (h : Balanced g.types w.forest) {call : ContainerCall}
    (hok : call.Exact g w) (hstep : call.next g w = some w') : Balanced g.types w'.forest := by
  cases call with
  | addThing r index thing =>
    obtain ⟨item, w₁, c, hitem, hc, hreach, rfl⟩ := exists_of_put h hok hstep
    dsimp only
    split_ifs with hindex
    · exact h
    · exact hitem.addThing hc hreach hindex
  | internalAddThing r thing =>
    obtain ⟨item, w₁, c, hitem, hc, hreach, rfl⟩ := exists_of_put h hok hstep
    exact hitem.internalAddThing hc hreach
  | addItemBack r thing =>
    obtain ⟨item, w₁, c, hitem, hc, hreach, rfl⟩ := exists_of_put h hok hstep
    exact hitem.addItemBack hc hreach
  | updateThing r thing itemId count =>
    obtain ⟨c, hc, rfl⟩ := Option.map_eq_some_iff.1 hstep
    exact h.updateThing hc hok thing itemId count
  | replaceThing r index thing =>
    obtain ⟨item, w₁, c, hitem, hc, hreach, rfl⟩ := exists_of_put h hok hstep
    dsimp only
    split_ifs with hindex
    · exact h
    · exact hitem.replaceThing hc hreach (Nat.lt_of_not_le hindex)
  | removeThing r thing count =>
    obtain ⟨c, hc, rfl⟩ := Option.map_eq_some_iff.1 hstep
    exact h.detach hc hok thing count
  | removeItem r thing =>
    obtain ⟨c, hc, rfl⟩ := Option.map_eq_some_iff.1 hstep
    exact h.removeItem hc (hok c hc)

end ContainerCall

theorem weighed_of_reachable (g : Game) {w : World}
    (h : (containerCalls g).ReachableVia (fun w call => call.Exact g w) w) :
    Weighed g.types w := by
  have hbalanced : Balanced g.types w.forest :=
    h.invariant (fun _ h₀ => balanced_iff.2 h₀)
      (fun _ _ _ hw hok hstep => ContainerCall.balanced_next hw hok hstep)
  exact (balanced_iff.1 hbalanced).weighed

/-- A box in a box that keep this weight, and things that are nowhere. -/
def nestedBoxes (weight : BitVec 32) (items others : List Thing) : World where
  players := []
  tiles := []
  loose := others ++ [weighed 1 [weighed 2 items]]
  nextRef := 4
where
  weighed (r : Ref) (items : List Thing) : Thing :=
    .node { class_ := .container, id := 2853, count := 1, ref := r,
            storage := some { maxSize := 4, maxItems := 100, totalWeight := weight } } items

/-- 100 arrows weigh 7000. -/
theorem sound_nestedBoxes : Sound quiverlessGame.types (nestedBoxes 0 [] [arrows 3 100]) := by
  have hnodes : (nestedBoxes 0 [] [arrows 3 100]).forest.flatMap nodes =
      [arrows 3 100, nestedBoxes.weighed 0 1 [nestedBoxes.weighed 0 2 []],
        nestedBoxes.weighed 0 2 []] := rfl
  refine ⟨?_, fun t ht hnone => ?_, fun t ht s hs => ?_⟩
  · rw [Distinct]
    decide
  · rw [hnodes, List.mem_cons, List.mem_cons, List.mem_singleton] at ht
    rcases ht with rfl | rfl | rfl
    · rfl
    · cases hnone
    · cases hnone
  · rw [hnodes, List.mem_cons, List.mem_cons, List.mem_singleton] at ht
    rcases ht with rfl | rfl | rfl
    · cases hs
    · cases hs
      rfl
    · cases hs
      rfl

/-- The arrows are put into the inner box, and 50 of them are taken out again. -/
theorem weighed_nestedBoxes : Weighed quiverlessGame.types (nestedBoxes 3500 [arrows 3 50] []) := by
  have hput : (ContainerCall.addThing 2 0 3).next quiverlessGame (nestedBoxes 0 [] [arrows 3 100]) =
      some (nestedBoxes 7000 [arrows 3 100] []) := rfl
  have htake : (ContainerCall.removeThing 2 3 50).next quiverlessGame
      (nestedBoxes 7000 [arrows 3 100] []) = some (nestedBoxes 3500 [arrows 3 50] []) := rfl
  have hreach₁ : (nestedBoxes 0 [] [arrows 3 100]).Reaches 2 := by
    rw [World.Reaches]
    decide
  have hreach₂ : (nestedBoxes 7000 [arrows 3 100] []).Reaches 2 := by
    rw [World.Reaches]
    decide
  exact weighed_of_reachable quiverlessGame
    (.step (a := .removeThing 2 3 50)
      (.step (a := .addThing 2 0 3) (.init sound_nestedBoxes) hreach₁ hput) hreach₂ htake)

/-- `removeItem` takes the arrows out, and their weight stays. -/
theorem removeItem_keeps_weight : ¬ ∀ w,
    (containerCalls quiverlessGame).Reachable w → Weighed quiverlessGame.types w := by
  intro h
  have hput : (ContainerCall.addThing 2 0 3).next quiverlessGame (nestedBoxes 0 [] [arrows 3 100]) =
      some (nestedBoxes 7000 [arrows 3 100] []) := rfl
  have hremove : (ContainerCall.removeItem 2 3).next quiverlessGame
      (nestedBoxes 7000 [arrows 3 100] []) = some (nestedBoxes 7000 [] [arrows 3 100]) := rfl
  have hweighed := h _ (.step (.step (.init sound_nestedBoxes) trivial hput) trivial hremove)
  -- The inner box is empty.
  have hinner := hweighed (nestedBoxes.weighed 7000 2 [])
    (List.mem_cons_of_mem _ (List.mem_cons_of_mem _ List.mem_cons_self)) _ rfl
  revert hinner
  decide

end Canary.Inventory
