import Canary.Inventory.AddItem
import Canary.Inventory.Destination

/-!
# The units of an item added

When `internalAddItem` reports success, the units of the item are in the destination if and only
if they found a place there (`Lands`): the queries are told the count and the room, but they are
not always asked, and what they answer is not always waited for.

* `units_internalAddItem`: no unit comes from nowhere, and all of them arrive where the item
  `Lands`;
* `world_internalAddItem`: an error changes nothing.

Items that are transformed when they are equipped, by an event of their type, are left out: the
types here are those of items for which there is none, as coins and arrows are.
-/

namespace Canary.Inventory

open RoseTree

namespace World

variable {g : Game} {w : World} {n : Ref} {item : Thing} {top : Cylinder} {d : Destination}

/-! ## Placing -/

theorem heldBy_notifyOf (w : World) (cylinder : Cylinder) (r : Ref) (top : Cylinder) :
    (w.notifyOf g cylinder r).heldBy top = w.heldBy top := by
  rw [notifyOf]
  split
  · exact heldBy_postNotification cylinder top
  · rfl

theorem unitsOf_notifyOf (w : World) (cylinder : Cylinder) (r : Ref) (top : Cylinder)
    (id : BitVec 16) : (w.notifyOf g cylinder r).unitsOf top id = w.unitsOf top id := by
  rw [unitsOf, heldBy_notifyOf, unitsOf]

/-- The place is one of the cylinder, and the units of the item take the place of none: a
    container drops what is added at an index that it does not have, a player what is added to
    no slot, and a slot what was there. -/
def Free (w : World) (d : Destination) (item : Thing) : Prop :=
  let units := Thing.units item.label.id
  match d.cylinder with
  | .container r => ∀ c, w.container? r = some c → d.index < c.capacity ∨ units item = 0
  | .player id => ∀ p, w.player? id = some p →
    match Slot.ofIndex d.index with
    | some slot => ((p.inventory slot).map units).getD 0 = 0
    | none => units item = 0

/-- What is placed adds at most its units, and all of them in a free place. -/
theorem units_place (h : Heap g.types n (item :: w.forest)) (hd : w.LiesIn top d.cylinder)
    (hthere : w.IsThere d.cylinder) :
    (∀ id, (w.place g d.cylinder d.index item).unitsOf top id ≤
        w.unitsOf top id + Thing.units id item) ∧
      ((w.place g d.cylinder d.index item).unitsOf top item.label.id =
        w.unitsOf top item.label.id + Thing.units item.label.id item ↔ w.Free d item) := by
  obtain ⟨cylinder, index, destItem⟩ := d
  simp only [place, unitsOf_notifyOf, Free]
  rcases cylinder with id | r
  · obtain rfl : top = .player id := hd
    obtain ⟨p, hp⟩ := Option.isSome_iff_exists.1 hthere
    -- A player adds to a slot, and drops what is added elsewhere.
    rcases hslot : Slot.ofIndex index with _ | slot
    · rw [addThing_player_of_none hslot]
      refine ⟨fun _ => Nat.le_add_right _ _, ?_⟩
      simp only [hp, Option.some.injEq, forall_eq']
      rw [eq_comm, Nat.add_eq_left]
    · have hunits := unitsOf_addThing_player g.types hp hslot item
      refine ⟨fun i => (Nat.le_add_right _ _).trans_eq (hunits i), ?_⟩
      simp only [hp, Option.some.injEq, forall_eq']
      rw [← hunits, eq_comm, Nat.add_eq_left]
  · obtain ⟨c, hc, hheld⟩ := hd
    simp only [hc, Option.some.injEq, forall_eq']
    -- A container adds at the front, and drops what is added at an index it does not have.
    rcases lt_or_ge index (c.capacity : ℤ) with hindex | hindex
    · have hunits := unitsOf_addThing_container h hc hindex hheld
      exact ⟨fun i => (hunits i).le, iff_of_true (hunits _) (.inl hindex)⟩
    · rw [addThing_container_of_le hc hindex]
      refine ⟨fun _ => Nat.le_add_right _ _, ?_⟩
      rw [or_iff_right (not_lt.2 hindex), eq_comm, Nat.add_eq_left]

/-! ## Merging -/

theorem merged_eq_some {toItem : Thing} (hm : w.merged g d item = some toItem) :
    d.destItem = some toItem.ref ∧ w.find toItem.ref = some toItem ∧
      item.label.isStackable g.types = true ∧ item.label.id = toItem.label.id := by
  rw [merged, Option.filter_eq_some_iff, Option.bind_eq_some_iff, Bool.and_eq_true] at hm
  obtain ⟨⟨r, hr, hfind⟩, hstack, hequals⟩ := hm
  obtain ⟨-, rfl⟩ := find_mem hfind
  simp only [Thing.equals, Bool.and_eq_true, decide_eq_true_eq] at hequals
  exact ⟨hr, hfind, hstack, hequals.1.1.1.1⟩

/-- The stack that is merged with. -/
structure Stack (g : Game) (w : World) (top : Cylinder) (d : Destination) (item toItem : Thing) :
    Prop where
  find : w.find toItem.ref = some toItem
  held : toItem ∈ (w.heldBy top).flatMap nodes
  index : (w.getThingIndex d.cylinder toItem.ref).isSome = true
  item_stackable : item.label.isStackable g.types = true
  stackable : toItem.label.isStackable g.types = true
  id : item.label.id = toItem.label.id

theorem stack_of_merged {toItem : Thing} (hd : d.Within w top)
    (hm : w.merged g d item = some toItem) : Stack g w top d item toItem := by
  obtain ⟨hdest, hfind, hstack, hid⟩ := merged_eq_some hm
  obtain ⟨t, ht, hheld, hindex⟩ := hd.destItem _ hdest
  obtain rfl : toItem = t := Option.some.inj (hfind.symm.trans ht)
  have hstack' := hstack
  rw [Object.isStackable, hid] at hstack'
  exact ⟨hfind, hheld, hindex, hstack, hstack', hid⟩

theorem nextRef_updateThing (w : World) (cylinder : Cylinder) (r : Ref) (id : BitVec 16)
    (count : ℕ) : (w.updateThing g.types cylinder r id count).nextRef = w.nextRef := by
  rw [updateThing]
  split
  · cases cylinder <;> rfl
  · rfl

theorem liesIn_relabel {f : Object → Object} (hf : KeepsUnits f) {cylinder : Cylinder}
    (hd : w.LiesIn top cylinder) : (w.mapThings (relabel f)).LiesIn top cylinder := by
  rcases cylinder with id | r
  · exact hd
  · obtain ⟨c, hc, hheld⟩ := hd
    refine ⟨c.relabel f, ?_, ?_⟩
    · rw [container?, find_relabel hf, (container?_eq_some hc).1, Option.map_some,
        Option.filter_some, if_pos]
      rw [Thing.isContainer, label_relabel, (hf c.label).2.2.2]
      exact (container?_eq_some hc).2
    · rw [heldBy_relabel hf, flatMap_nodes_relabel]
      exact List.mem_map_of_mem hheld

/-- A stack that is replaced leaves the containers where they are. -/
theorem liesIn_modify_stack {toItem : Thing} (h : Heap g.types n (item :: w.forest))
    (hheld : toItem ∈ (w.heldBy top).flatMap nodes)
    (hstack : toItem.label.isStackable g.types = true) {o : Object} (href : o.ref = toItem.ref)
    (hstorage : o.storage = toItem.label.storage) {cylinder : Cylinder}
    (hindex : (w.getThingIndex cylinder toItem.ref).isSome = true)
    (hd : w.LiesIn top cylinder) :
    (w.modify toItem.ref fun _ => stackWith o).LiesIn top cylinder := by
  rcases cylinder with id | r
  · exact hd
  obtain ⟨c, hc, hcheld⟩ := hd
  obtain ⟨hfind, hcontainer⟩ := container?_eq_some hc
  obtain ⟨-, rfl⟩ := find_mem hfind
  have hforest := (Heap.cons_iff.1 h).2.1
  have hheap := heap_modify_stack h (heldBy_nodes hheld) href hstack hstorage
  have hforest' := (Heap.cons_iff.1 hheap).2.1
  -- The container holds the stack, and is not the stack.
  have hkey : toItem.ref ∈ keys Object.ref [c] := by
    rw [getThingIndex, hc, Option.bind_some, Option.isSome_map, List.findIdx?_isSome,
      List.any_eq_true] at hindex
    obtain ⟨i, hi, hiref⟩ := hindex
    rw [← of_decide_eq_true hiref]
    exact key_mem_keys Object.ref (mem_nodes_of_mem_children hi (mem_nodes_self i))
  have hne : c.label.ref ≠ toItem.ref := fun he => by
    have hplain := hforest.plain toItem (heldBy_nodes hheld) hstack
    rw [← hforest.distinct.eq_of_key_eq Object.ref (heldBy_nodes hcheld) (heldBy_nodes hheld) he]
      at hplain
    rw [hplain] at hcontainer
    cases hcontainer
  have hlabel : (RoseTree.modify Object.ref toItem.ref (fun _ => stackWith o) c).label =
      c.label := by
    obtain ⟨a, cs⟩ := c
    rw [label_node] at hne
    rw [modify_node, if_neg hne]
    rfl
  have hmem : RoseTree.modify Object.ref toItem.ref (fun _ => stackWith o) c ∈
      ((w.modify toItem.ref fun _ => stackWith o).heldBy top).flatMap nodes := by
    rw [heldBy_modify (f := fun _ => stackWith o) (fun _ _ => href) hforest.distinct
      hforest'.distinct ((mem_keys Object.ref).2 ⟨toItem, hheld, rfl⟩)]
    obtain ⟨t, ht, hct⟩ := List.mem_flatMap.1 hcheld
    exact List.mem_flatMap.2 ⟨_, List.mem_map_of_mem ht, mem_nodes_modify
      ((distinct_heldBy hforest.distinct top).of_mem Object.ref ht) hct hkey _⟩
  have hthere := container?_eq hforest' (heldBy_nodes hmem) (by
    rw [Thing.isContainer, hlabel]
    exact hcontainer)
  rw [Thing.ref, hlabel] at hthere
  exact ⟨_, hthere, hmem⟩

namespace Stack

variable {toItem : Thing}

theorem liesIn_merge (hs : Stack g w top d item toItem) (h : Heap g.types n (item :: w.forest))
    (hd : w.LiesIn top d.cylinder) (k : ℕ) :
    (w.merge g d toItem k).LiesIn top d.cylinder := by
  obtain ⟨href, -, -, hstorage⟩ := toItem.label.update_stack hs.stackable
    (toItem.label.getItemCount + k)
  have hmodify := liesIn_modify_stack h hs.held hs.stackable href hstorage hs.index hd
  obtain ⟨i, hi⟩ := Option.isSome_iff_exists.1 hs.index
  have hchildren := (Heap.cons_iff.1 h).2.1.children_of_stackable (heldBy_nodes hs.held)
    hs.stackable
  rw [merge, updateThing, hi, hs.find]
  dsimp only
  rw [hchildren]
  rcases hcylinder : d.cylinder with id | r
  · rw [hcylinder] at hmodify
    exact hmodify
  · rw [hcylinder] at hmodify
    exact liesIn_relabel (keepsUnits_weight _ _) hmodify

theorem merge_spec (hs : Stack g w top d item toItem) (h : Heap g.types n (item :: w.forest))
    (k : ℕ) : Heap g.types n (item :: (w.merge g d toItem k).forest) ∧
      ∀ id, (w.merge g d toItem k).unitsOf top id +
          (if item.label.id = id then toItem.label.getItemCount else 0) =
        w.unitsOf top id +
          if item.label.id = id then (toItem.label.getItemCount + k) % 256 else 0 := by
  rw [hs.id]
  exact updateThing_spec h hs.find hs.stackable hs.index hs.held _

theorem isThere_merge (hs : Stack g w top d item toItem)
    (h : Heap g.types n (item :: w.forest)) (hd : w.LiesIn top d.cylinder)
    (hthere : w.IsThere d.cylinder) (k : ℕ) : (w.merge g d toItem k).IsThere d.cylinder := by
  have hlies := hs.liesIn_merge h hd k
  rcases hcylinder : d.cylinder with id | r
  · rw [hcylinder, IsThere] at hthere
    rw [IsThere, merge, hcylinder, updateThing]
    split
    · dsimp only
      rw [World.modify, player?_mapThings, Option.isSome_map]
      exact hthere
    · exact hthere
  · rw [hcylinder] at hlies
    obtain ⟨c, hc, -⟩ := hlies
    rw [IsThere, hc]
    rfl

/-- A stack to be added is not a container. -/
theorem item_eq (hs : Stack g w top d item toItem) (h : Heap g.types n (item :: w.forest)) :
    item = stackWith item.label := by
  refine eq_stackWith ((Heap.cons_iff.1 h).1.children_of_stackable ?_ hs.item_stackable)
  rw [List.flatMap_singleton]
  exact mem_nodes_self item

theorem units_item (hs : Stack g w top d item toItem) (h : Heap g.types n (item :: w.forest))
    (id : BitVec 16) :
    Thing.units id item = if item.label.id = id then item.label.getItemCount else 0 := by
  rw [hs.item_eq h, units_stackWith]
  rfl

end Stack

/-! ## When the units arrive -/

section call

variable (g) (destCylinder : Cylinder) (flags : Flags)

/-- All units are to be added, and the stack has room for those that it takes: a stack of 256
    units or more starts again from 0. -/
def Fills (w : World) (item toItem : Thing) : Prop :=
  let amounts := w.amounts g destCylinder item toItem flags
  amounts.1 = item.label.getItemCount ∧ toItem.label.getItemCount + amounts.2 < 256

/-- All units of the item land: the item is not refused, its place is free, or the stack has
    room for it and the rest lands, which is still of the type of the item. -/
def Lands (w : World) (item : Thing) (index : ℤ) : Prop :=
  let d := w.queryDestination g destCylinder index item none flags
  w.addReturn g destCylinder item index flags = .noError ∧
  match w.merged g d item with
  | none => w.Free d item
  | some toItem =>
    let count := w.restCount g destCylinder item toItem flags
    w.Fills g destCylinder flags item toItem ∧
    if 0 < count then
      if _hcount : item.label.getItemCount ≠ count then
        let clone := w.remainderItem g destCylinder d item toItem flags
        clone.1.label.id = item.label.id ∧ Lands clone.2 clone.1 indexWhereEver
      else (w.mergedWorld g destCylinder d item toItem flags).Free d item
    else True
termination_by item.label.getItemCount
decreasing_by
  exact w.getItemCount_remainderItem_lt g destCylinder d item toItem flags _hcount

variable {g destCylinder flags} {index : ℤ}

/-- A cylinder that is not there refuses. -/
theorem isThere_of_addReturn (hret : w.addReturn g destCylinder item index flags = .noError) :
    w.IsThere destCylinder ∧
      w.IsThere (w.queryDestination g destCylinder index item none flags).cylinder := by
  have hadd : w.queryAdd g (w.queryDestination g destCylinder index item none flags).cylinder
      (w.queryDestination g destCylinder index item none flags).index item
      item.label.getItemCount flags none = .noError := by
    rw [addReturn] at hret
    dsimp only at hret
    by_contra hne
    rw [if_pos hne] at hret
    exact hne hret
  -- `queryAdd` is asked of the cylinder that was found.
  have hthere : ∀ {cylinder : Cylinder} {index : ℤ},
      w.queryAdd g cylinder index item item.label.getItemCount flags none = .noError →
        w.IsThere cylinder := by
    intro cylinder index hq
    rcases cylinder with id | r
    · rw [queryAdd] at hq
      rcases hp : w.player? id with _ | p
      · rw [hp] at hq
        cases hq
      · rw [IsThere, hp]
        rfl
    · rw [queryAdd] at hq
      rcases hc : w.container? r with _ | c
      · rw [hc] at hq
        cases hq
      · rw [IsThere, hc]
        rfl
  refine ⟨?_, hthere hadd⟩
  rcases destCylinder with id | r
  · rcases hp : w.player? id with _ | p
    · rw [queryDestination, hp] at hadd
      exact hthere hadd
    · rw [IsThere, hp]
      rfl
  · rcases hc : w.container? r with _ | c
    · rw [queryDestination, hc] at hadd
      exact hthere hadd
    · rw [IsThere, hc]
      rfl

/-- A stack is found at no index that names the cylinder above. -/
theorem destinationOf_eq {toItem : Thing}
    (hm : w.merged g (w.queryDestination g destCylinder index item none flags) item = some toItem)
    (index' : ℤ) (hindex' : index' ≠ 254) (item' : Thing) (w' : World) :
    w'.destinationOf g destCylinder index' item' flags =
      w.destinationOf g destCylinder index item flags := by
  rcases destCylinder with id | r
  · rfl
  · have hindex : index ≠ 254 := by
      rintro rfl
      have hdest := (merged_eq_some hm).1
      rw [queryDestination] at hdest
      rcases hc : w.container? r with _ | c
      · rw [hc] at hdest
        cases hdest
      · rw [hc] at hdest
        dsimp only at hdest
        rw [containerQueryDestination, if_pos rfl] at hdest
        split_ifs at hdest
        · cases hdest
        · split at hdest <;> cases hdest
    rw [destinationOf, if_neg hindex', destinationOf, if_neg hindex]

/-! ## The branches of the call -/

theorem internalAddItem_refused
    (hret : w.addReturn g destCylinder item index flags ≠ .noError) :
    w.internalAddItem g destCylinder item index flags false =
      ⟨w.addReturn g destCylinder item index flags, 0, w⟩ := by
  rw [internalAddItem]
  exact if_pos hret

section accepted

variable (hret : w.addReturn g destCylinder item index flags = .noError)
  (hd : w.queryDestination g destCylinder index item none flags = d)
include hret hd

theorem internalAddItem_placed (hm : w.merged g d item = none) :
    w.internalAddItem g destCylinder item index flags false =
      ⟨.noError, 0, w.place g d.cylinder d.index item⟩ := by
  rw [internalAddItem, hd]
  simp only [hret, hm, ne_eq, not_true_eq_false, if_false, Bool.false_eq_true]

variable {toItem : Thing} (hm : w.merged g d item = some toItem)
include hm

theorem internalAddItem_filled (hrest : w.restCount g destCylinder item toItem flags = 0) :
    w.internalAddItem g destCylinder item index flags false =
      ⟨.noError, 0, (w.mergedWorld g destCylinder d item toItem flags).notifyOf g d.cylinder
        toItem.ref⟩ := by
  rw [internalAddItem, hd]
  simp only [hret, hm, hrest, ne_eq, not_true_eq_false, if_false, Bool.false_eq_true, lt_irrefl]

variable (hrest : 0 < w.restCount g destCylinder item toItem flags)
include hrest

theorem internalAddItem_beside
    (hcount : item.label.getItemCount = w.restCount g destCylinder item toItem flags) :
    w.internalAddItem g destCylinder item index flags false =
      ⟨.noError, 0, (w.mergedWorld g destCylinder d item toItem flags).place g d.cylinder d.index
        item⟩ := by
  rw [internalAddItem, hd]
  simp only [hret, hm, hrest, ne_eq, not_true_eq_false, if_false, Bool.false_eq_true, if_true]
  rw [dif_neg (not_not.2 hcount)]

theorem internalAddItem_split
    (hcount : item.label.getItemCount ≠ w.restCount g destCylinder item toItem flags) :
    w.internalAddItem g destCylinder item index flags false =
      let clone := w.remainderItem g destCylinder d item toItem flags
      let rest := clone.2.internalAddItem g destCylinder clone.1 indexWhereEver flags false
      ⟨.noError, if rest.ret ≠ .noError then w.restCount g destCylinder item toItem flags else 0,
        rest.world⟩ := by
  rw [internalAddItem, hd]
  simp only [hret, hm, hrest, ne_eq, not_true_eq_false, if_false, Bool.false_eq_true, if_true]
  rw [dif_pos hcount]

end accepted

/-! ## The units after the call -/

theorem getItemCount_lt (o : Object) : o.getItemCount < 256 := o.count.isLt

theorem restCount_le (toItem : Thing) : w.restCount g destCylinder item toItem flags ≤
    item.label.getItemCount :=
  (Nat.sub_le _ _).trans (w.amounts_le g destCylinder item toItem flags)

section merged

variable (destCylinder flags)

variable {toItem : Thing} (hs : Stack g w top d item toItem)
  (h : Heap g.types w.nextRef (item :: w.forest))
include hs h

theorem heap_mergedWorld :
    Heap g.types (w.mergedWorld g destCylinder d item toItem flags).nextRef
      (item :: (w.mergedWorld g destCylinder d item toItem flags).forest) := by
  have hnext : (w.mergedWorld g destCylinder d item toItem flags).nextRef = w.nextRef :=
    nextRef_updateThing _ _ _ _ _
  rw [hnext]
  exact (hs.merge_spec h _).1

/-- The clone with the rest is a new stack of as many units. -/
theorem remainderItem_spec :
    Heap g.types (w.remainderItem g destCylinder d item toItem flags).2.nextRef
        ((w.remainderItem g destCylinder d item toItem flags).1 ::
          (w.remainderItem g destCylinder d item toItem flags).2.forest) ∧
      (∀ id, (w.remainderItem g destCylinder d item toItem flags).2.unitsOf top id =
        (w.mergedWorld g destCylinder d item toItem flags).unitsOf top id) ∧
      (w.remainderItem g destCylinder d item toItem flags).1.label.getItemCount =
        w.restCount g destCylinder item toItem flags ∧
      ∀ id, Thing.units id (w.remainderItem g destCylinder d item toItem flags).1 =
        if (w.remainderItem g destCylinder d item toItem flags).1.label.id = id then
          w.restCount g destCylinder item toItem flags else 0 := by
  have hheap := heap_mergedWorld destCylinder flags hs h
  have hitem := hs.item_eq h
  obtain ⟨o', hclone, href, -, hcount, hstorage⟩ :=
    (w.mergedWorld g destCylinder d item toItem flags).clone_stack g.types item.label
      (w.restCount g destCylinder item toItem flags)
  rw [Nat.mod_eq_of_lt ((restCount_le toItem).trans_lt (getItemCount_lt item.label))] at hcount
  have hnone : o'.storage = none := by
    rw [hstorage]
    refine (Heap.cons_iff.1 h).1.plain item ?_ hs.item_stackable
    rw [List.flatMap_singleton]
    exact mem_nodes_self item
  -- A stack holds nothing, and its clone is one that holds nothing.
  have hstack : (w.remainderItem g destCylinder d item toItem flags).1 = stackWith o' := by
    rw [← hclone, ← hitem]
    rfl
  have hworld : (w.remainderItem g destCylinder d item toItem flags).2 =
      ((w.mergedWorld g destCylinder d item toItem flags).clone g.types item).2 := rfl
  refine ⟨?_, fun id => ?_, ?_, fun id => ?_⟩
  · rw [hstack, hworld, forest_clone, nextRef_clone]
    generalize w.mergedWorld g destCylinder d item toItem flags = w' at hheap href
    rw [hitem] at hheap
    exact heap_clone hheap href hnone
  · rw [hworld, unitsOf, heldBy_clone, unitsOf]
  · rw [hstack]
    exact hcount
  · rw [hstack, units_stackWith, ← hcount]
    rfl

end merged

/-- The call returns what the queries say. -/
theorem ret_internalAddItem (w : World) (destCylinder : Cylinder) (item : Thing) (index : ℤ)
    (flags : Flags) : (w.internalAddItem g destCylinder item index flags false).ret =
      w.addReturn g destCylinder item index flags := by
  by_cases hret : w.addReturn g destCylinder item index flags = .noError
  · rcases hm : w.merged g (w.queryDestination g destCylinder index item none flags) item
      with _ | toItem
    · rw [internalAddItem_placed hret rfl hm, hret]
    · rcases Nat.eq_zero_or_pos (w.restCount g destCylinder item toItem flags) with hrest | hrest
      · rw [internalAddItem_filled hret rfl hm hrest, hret]
      · by_cases hcount : item.label.getItemCount = w.restCount g destCylinder item toItem flags
        · rw [internalAddItem_beside hret rfl hm hrest hcount, hret]
        · rw [internalAddItem_split hret rfl hm hrest hcount, hret]
  · rw [internalAddItem_refused hret]

/-- An error changes nothing. -/
theorem world_internalAddItem
    (hret : (w.internalAddItem g destCylinder item index flags false).ret ≠ .noError) :
    (w.internalAddItem g destCylinder item index flags false).world = w := by
  rw [ret_internalAddItem] at hret
  rw [internalAddItem_refused hret]

/-- The most units of an id that an item adds: the rest may be of another type. -/
def most (id : BitVec 16) (item : Thing) : ℕ :=
  Thing.units id item + if item.label.id = id then 0 else item.label.getItemCount - 1

/-- The call succeeds, and all units are in the cylinder. -/
def Arrives (w : World) (top : Cylinder) (item : Thing) (a : Added) : Prop :=
  a.ret = .noError ∧ a.world.unitsOf top item.label.id =
    w.unitsOf top item.label.id + Thing.units item.label.id item

/-- What holds of the units after a call. -/
structure Spec (w : World) (top : Cylinder) (item : Thing) (a : Added) (lands : Prop) : Prop where
  le : ∀ id, a.world.unitsOf top id ≤ w.unitsOf top id + most id item
  arrives : Arrives w top item a ↔ lands

section units

variable {toItem : Thing} (hs : Stack g w top d item toItem)
  (h : Heap g.types w.nextRef (item :: w.forest))
include hs h

variable (destCylinder flags) in
/-- The stack takes units of the item. -/
theorem unitsOf_mergedWorld (id : BitVec 16) :
    (w.mergedWorld g destCylinder d item toItem flags).unitsOf top id +
        (if item.label.id = id then toItem.label.getItemCount else 0) =
      w.unitsOf top id + if item.label.id = id then
        (toItem.label.getItemCount +
          (w.amounts g destCylinder item toItem flags).2) % 256 else 0 :=
  (hs.merge_spec h _).2 id

/-- No rest: the stack takes all that is added. -/
theorem filled_spec (hrest : w.restCount g destCylinder item toItem flags = 0) (r : Ref) :
    Spec w top item ⟨.noError, 0, (w.mergedWorld g destCylinder d item toItem flags).notifyOf g
      d.cylinder r⟩ (w.Fills g destCylinder flags item toItem) := by
  have hle := w.amounts_le g destCylinder item toItem flags
  have hle' := w.amounts_snd_le g destCylinder item toItem flags
  have hunits := unitsOf_mergedWorld destCylinder flags hs h
  refine ⟨fun id => ?_, ?_⟩
  · have hid := hunits id
    rw [unitsOf_notifyOf, most, hs.units_item h]
    rw [restCount] at hrest
    split_ifs at hid ⊢ <;> omega
  · have hid := hunits item.label.id
    rw [if_pos rfl, if_pos rfl] at hid
    rw [Arrives, unitsOf_notifyOf, hs.units_item h, if_pos rfl, Fills, and_iff_right rfl]
    rw [restCount] at hrest
    omega

/-- The stack takes nothing: the item is placed. -/
theorem beside_spec (hd : w.LiesIn top d.cylinder) (hthere : w.IsThere d.cylinder)
    (hrest : 0 < w.restCount g destCylinder item toItem flags)
    (hcount : item.label.getItemCount = w.restCount g destCylinder item toItem flags) :
    Spec w top item ⟨.noError, 0, (w.mergedWorld g destCylinder d item toItem flags).place g
      d.cylinder d.index item⟩
      (w.Fills g destCylinder flags item toItem ∧
        (w.mergedWorld g destCylinder d item toItem flags).Free d item) := by
  have hle := w.amounts_le g destCylinder item toItem flags
  have hlt := getItemCount_lt toItem.label
  have hunits := unitsOf_mergedWorld destCylinder flags hs h
  have hlies := hs.liesIn_merge h hd (w.amounts g destCylinder item toItem flags).2
  obtain ⟨hplace, hfree⟩ := units_place (heap_mergedWorld destCylinder flags hs h) hlies
    (hs.isThere_merge h hd hthere _)
  -- The count of the stack is the one it had.
  have hkeep : ∀ id, (w.mergedWorld g destCylinder d item toItem flags).unitsOf top id =
      w.unitsOf top id := by
    intro id
    have hid := hunits id
    rw [restCount] at hcount hrest
    split_ifs at hid <;> omega
  refine ⟨fun id => ?_, ?_⟩
  · rw [← hkeep id, most, ← Nat.add_assoc]
    exact (hplace id).trans (Nat.le_add_right _ _)
  · have hfills : w.Fills g destCylinder flags item toItem := by
      rw [restCount] at hcount hrest
      rw [Fills]
      omega
    rw [Arrives, and_iff_right rfl, and_iff_right hfills, ← hkeep]
    exact hfree

/-- The stack takes a part, and the rest is added as a clone. -/
theorem split_spec {clone : Thing × World}
    (hclone : w.remainderItem g destCylinder d item toItem flags = clone)
    (hrest : 0 < w.restCount g destCylinder item toItem flags)
    (hcount : item.label.getItemCount ≠ w.restCount g destCylinder item toItem flags)
    {rest : Added} {lands : Prop} (ih : Spec clone.2 top clone.1 rest lands)
    (hrefused : rest.ret ≠ .noError → rest.world = clone.2) (remainder : ℕ) :
    Spec w top item ⟨.noError, remainder, rest.world⟩
      (w.Fills g destCylinder flags item toItem ∧ clone.1.label.id = item.label.id ∧ lands) := by
  have hle := w.amounts_le g destCylinder item toItem flags
  have hle' := w.amounts_snd_le g destCylinder item toItem flags
  have hunits := unitsOf_mergedWorld destCylinder flags hs h
  obtain ⟨-, hkeep, hcloneCount, hcloneUnits⟩ :=
    remainderItem_spec destCylinder flags hs h
  rw [hclone] at hkeep hcloneCount hcloneUnits
  -- The units of the clone are those of the rest, if it has kept its type.
  have hrestle : ∀ id, rest.world.unitsOf top id ≤
      (w.mergedWorld g destCylinder d item toItem flags).unitsOf top id +
        if clone.1.label.id = id then w.restCount g destCylinder item toItem flags
        else w.restCount g destCylinder item toItem flags - 1 := by
    intro id
    have hid := ih.le id
    rw [most, hkeep, hcloneUnits, hcloneCount] at hid
    split_ifs at hid ⊢ <;> omega
  refine ⟨fun id => ?_, ?_⟩
  · have hid := hunits id
    have hle₂ := hrestle id
    dsimp only
    rw [most, hs.units_item h]
    rw [restCount] at hle₂ hcount hrest
    split_ifs at hid hle₂ ⊢ <;> omega
  · have hid := hunits item.label.id
    have hle₂ := hrestle item.label.id
    rw [if_pos rfl, if_pos rfl] at hid
    rw [Arrives, hs.units_item h, if_pos rfl, and_iff_right rfl, Fills]
    dsimp only
    -- `Item::CreateItem` makes another type of the clones of some.
    by_cases htype : clone.1.label.id = item.label.id
    · rw [if_pos htype] at hle₂
      have harrives := ih.arrives
      rw [Arrives, hcloneUnits, if_pos rfl, hkeep, htype] at harrives
      rw [and_iff_right htype, ← harrives]
      by_cases hret : rest.ret = .noError
      · rw [and_iff_right hret]
        rw [restCount] at hle₂ hcount hrest ⊢
        omega
      · -- A rest that is refused adds nothing.
        have hsame : rest.world.unitsOf top item.label.id =
            (w.mergedWorld g destCylinder d item toItem flags).unitsOf top item.label.id := by
          rw [hrefused hret, hkeep]
        rw [restCount] at hcount hrest
        exact iff_of_false (by omega) fun hland => hret hland.2.1
    · -- The rest is of another type.
      rw [if_neg htype] at hle₂
      rw [restCount] at hle₂ hcount hrest
      exact iff_of_false (by omega) fun hland => htype hland.2.1

end units

/-- The units of a call: no more than the item has are added, and all of them where they land.
    By induction on the count, which is lower in the rest. -/
theorem units_internalAddItem (destCylinder : Cylinder) (flags : Flags) (k : ℕ) :
    ∀ {w : World} {item : Thing} (index : ℤ), item.label.getItemCount = k →
      Heap g.types w.nextRef (item :: w.forest) →
        Spec w (w.destinationOf g destCylinder index item flags) item
          (w.internalAddItem g destCylinder item index flags false)
          (w.Lands g destCylinder flags item index) := by
  induction k using Nat.strong_induction_on with
  | _ k ih =>
  intro w item index hk h
  by_cases hret : w.addReturn g destCylinder item index flags = .noError
  · obtain ⟨hdest, hthere⟩ := isThere_of_addReturn hret
    have hwithin := queryDestination_within (g := g) (Heap.cons_iff.1 h).2.1 hdest index item
      flags
    have htop (toItem : Thing) (hm : w.merged g
        (w.queryDestination g destCylinder index item none flags) item = some toItem)
        (item' : Thing) (w' : World) :
        w'.destinationOf g destCylinder indexWhereEver item' flags =
          w.destinationOf g destCylinder index item flags :=
      destinationOf_eq hm indexWhereEver (by decide) item' w'
    rw [Lands]
    dsimp only
    generalize hd : w.queryDestination g destCylinder index item none flags = d at *
    generalize w.destinationOf g destCylinder index item flags = top at *
    rw [and_iff_right hret]
    -- Without a stack to merge with, the item is placed as it is.
    rcases hm : w.merged g d item with _ | toItem
    · rw [internalAddItem_placed hret hd hm]
      obtain ⟨hle, hfree⟩ := units_place h hwithin.cylinder hthere
      refine ⟨fun id => ?_, ?_⟩
      · exact (hle id).trans (Nat.add_le_add_left (Nat.le_add_right _ _) _)
      · rw [Arrives, and_iff_right rfl]
        exact hfree
    · have hs := stack_of_merged hwithin hm
      dsimp only
      rcases Nat.eq_zero_or_pos (w.restCount g destCylinder item toItem flags) with hrest | hrest
      · rw [internalAddItem_filled hret hd hm hrest, if_neg (hrest.not_gt), and_true]
        exact filled_spec hs h hrest _
      · rw [if_pos hrest]
        by_cases hcount : item.label.getItemCount = w.restCount g destCylinder item toItem flags
        · rw [internalAddItem_beside hret hd hm hrest hcount, dif_neg (not_not.2 hcount)]
          exact beside_spec hs h hwithin.cylinder hthere hrest hcount
        · rw [internalAddItem_split hret hd hm hrest hcount, dif_pos hcount]
          have hlt := w.getItemCount_remainderItem_lt g destCylinder d item toItem flags hcount
          have hclone := (remainderItem_spec destCylinder flags hs h).1
          have hnested := ih _ (hk ▸ hlt) indexWhereEver rfl hclone
          rw [htop toItem hm] at hnested
          exact split_spec hs h rfl hrest hcount hnested world_internalAddItem _
  · -- A refusal.
    rw [internalAddItem_refused hret]
    refine ⟨fun id => Nat.le_add_right _ _, iff_of_false (fun harrives => hret harrives.1) ?_⟩
    rw [Lands]
    exact fun hland => hret hland.1

/-- Without a stack to merge with, an item that is not refused lands in a free place. -/
theorem lands_of_free (hret : w.addReturn g destCylinder item index flags = .noError)
    (hm : w.merged g (w.queryDestination g destCylinder index item none flags) item = none)
    (hfree : w.Free (w.queryDestination g destCylinder index item none flags) item) :
    w.Lands g destCylinder flags item index := by
  rw [Lands]
  dsimp only
  rw [hm]
  exact ⟨hret, hfree⟩

end call

end World

/-! ## A game with arrows -/

/-- Items are arrows, or plain. -/
def quiverlessGame : Game where
  types :=
    { server :=
        { items := fun id => { id, group := .none, type := .other, stackable := id = 3447,
                               movable := true, charges := 0, decayTime := 0 }
          forgeMaxItemTier := 10
          time := 0
          timeNow := 0
          nameByGuid := fun _ => []
          addUniqueItem := fun _ => true }
      traits := fun id => if id = 3447 then
        { weight := 70, slotPosition := slotpHand ||| slotpAmmo, weaponType := .ammo } else {}
      stackable_plain := fun _ _ => ⟨rfl, rfl⟩ }
  maxContainer := 100
  isOwner := fun _ _ => true
  onPlayerEquip := fun _ _ _ => true

def arrows (r : Ref) (n : BitVec 8) : Thing :=
  .node { class_ := .item, id := 3447, count := n, ref := r } []

end Canary.Inventory
