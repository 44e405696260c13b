import Canary.Inventory.Conservation

/-!
# Adding an item wherever there is room

At `INDEX_WHEREEVER` the cylinder has its choice. It chooses a stack to merge with that is not
full, or a place where nothing is (`queryDestination_suits`). What lands then adds its units, and
no unit of any type is lost (`unitsOf_internalAddItem`).

The things stay different objects, whatever is added (`wellFormed_internalAddItem`). Both follow
from a rule for the branches of the call (`internalAddItem_rule`).
-/

namespace Canary.Inventory

open RoseTree

/-! ## Slots -/

theorem Slot.ofIndex_index (slot : Slot) : Slot.ofIndex slot.index = some slot := by
  cases slot <;> decide

theorem Slot.ofIndex_whereEver : Slot.ofIndex indexWhereEver = none := by
  decide

/-! ## Equal stacks -/

namespace Thing

theorem equals_symm {t s : Thing} (h : t.equals s = true) : s.equals t = true := by
  rw [equals] at h ⊢
  simp only [Bool.and_eq_true, decide_eq_true_eq, List.all_eq_true, Bool.or_eq_true] at h ⊢
  obtain ⟨⟨⟨⟨hid, hstore⟩, howner⟩, hints⟩, hstrings⟩ := h
  refine ⟨⟨⟨⟨hid.symm, hstore.symm⟩, howner.symm⟩, fun a ha => ?_⟩, fun a ha => ?_⟩
  · refine (hints a ha).imp_right fun hv => ?_
    rcases ht : t.label.ints a with _ | v <;> rcases hs : s.label.ints a with _ | v' <;> try rfl
    rw [ht, hs] at hv
    exact decide_eq_true (of_decide_eq_true hv).symm
  · have hv := hstrings a ha
    rcases ht : t.label.strings a with _ | v <;> rcases hs : s.label.strings a with _ | v' <;>
      try rfl
    rw [ht, hs] at hv
    exact decide_eq_true (of_decide_eq_true hv).symm

theorem equals_of_stacksWith {types : ItemTable} {t item : Thing}
    (h : t.stacksWith types item = true) : item.equals t = true := by
  rw [stacksWith, Bool.and_eq_true] at h
  exact equals_symm h.1

/-- A stack to merge with has room. -/
theorem room_pos {types : ItemTable} {t item : Thing} (h : t.stacksWith types item = true) :
    0 < t.room types := by
  rw [stacksWith, Bool.and_eq_true, decide_eq_true_eq] at h
  have hsize : t.label.getStackSize types < 256 := by
    rw [Object.getStackSize]
    split
    · exact BitVec.isLt _
    · decide
  have hlt := h.2
  rw [room, BitVec.toNat_sub_of_le]
  · rw [BitVec.toNat_ofNat, BitVec.toNat_ofNat]
    omega
  · rw [BitVec.le_def, BitVec.toNat_ofNat, BitVec.toNat_ofNat]
    omega

end Thing

namespace World

variable {g : Game} {w : World} {item : Thing} {d : Destination}

/-! ## What is chosen -/

variable (g w) in
/-- A stack to merge with that is not full, or a place that is free. -/
def Suits (item : Thing) (d : Destination) : Prop :=
  match d.destItem with
  | some r => item.label.isStackable g.types = true ∧
      ∃ i, w.find r = some i ∧ i.stacksWith g.types item = true
  | none => ∀ id p slot, d.cylinder = .player id → w.player? id = some p →
      Slot.ofIndex d.index = some slot → p.inventory slot = none

theorem suits_inContainer (c : Thing) (index : ℤ) : w.Suits g item (inContainer c index none) :=
  nofun

theorem suits_stack (h : Heap g.types w.nextRef w.forest) {cylinder : Cylinder} {index : ℤ}
    {i : Thing} (hi : i ∈ w.forest.flatMap nodes)
    (hstack : item.label.isStackable g.types = true) (hroom : i.stacksWith g.types item = true) :
    w.Suits g item ⟨cylinder, index, some i.ref⟩ :=
  ⟨hstack, i, find_eq_some h hi, hroom⟩

theorem stackIn_stacksWith (p : Player) (is : List Thing) :
    ∀ (k : ℕ) (containers : List Thing) {n : ℕ} {i : Thing},
      stackIn g p item k containers is = .inl (n, i) → i.stacksWith g.types item = true := by
  induction is with
  | nil => exact fun k containers n i h => nomatch h
  | cons i' is ih =>
    intro k containers n i h
    rw [stackIn] at h
    split_ifs at h with _ hroom
    · exact ih _ _ h
    · obtain ⟨-, rfl⟩ := Prod.mk.inj (Sum.inl.inj h)
      exact hroom
    · exact ih _ _ h
    · exact ih _ _ h

theorem containerSearch_suits (h : Heap g.types w.nextRef w.forest) {id : PlayerId} (p : Player)
    (flags : Flags) (fuel : ℕ) : ∀ containers, (∀ c ∈ containers, w.Carried id c) →
      ∀ d, w.containerSearch g p item flags fuel containers = some d → w.Suits g item d := by
  induction fuel with
  | zero => exact fun _ _ _ hd => nomatch hd
  | succ fuel ih =>
    rintro (_ | ⟨c, containers⟩) hcarried d hd
    · nomatch hd
    have hc := hcarried c List.mem_cons_self
    have hrest : ∀ subContainers : List Thing,
        (∀ i ∈ subContainers, i ∈ c.children ∧ Thing.isContainer i = true) →
        ∀ c' ∈ containers ++ subContainers, w.Carried id c' := by
      intro subContainers hsub c' hc'
      rcases List.mem_append.1 hc' with hc' | hc'
      · exact hcarried c' (List.mem_cons_of_mem _ hc')
      · exact hc.children (hsub c' hc').1 (hsub c' hc').2
    rw [containerSearch] at hd
    split at hd
    · split at hd
      · rw [← Option.some.inj hd]
        exact suits_inContainer c _
      · exact ih _ (hrest _ fun i hi => List.mem_filter.1 hi) d hd
    · next hflags =>
      have hspec := stackIn_spec (g := g) p item c.children 0 []
      split at hd
      · next k i hs =>
        rw [hs] at hspec
        rw [Bool.or_eq_true, not_or, Bool.not_eq_true', Bool.not_eq_false] at hflags
        rw [← Option.some.inj hd]
        exact suits_stack h (heldBy_nodes (mem_heldBy_of_mem_children hc.1 hspec)) hflags.2
          (stackIn_stacksWith p _ _ _ hs)
      · next subContainers k hs =>
        rw [hs] at hspec
        split at hd
        · rw [← Option.some.inj hd]
          exact suits_inContainer c _
        · refine ih _ (hrest _ fun i hi => ?_) d hd
          exact (hspec i hi).resolve_left List.not_mem_nil

theorem slotSearch_suits (h : Heap g.types w.nextRef w.forest) {id : PlayerId} {p : Player}
    (hp : w.player? id = some p) (flags : Flags) (slots : List Slot) :
    ∀ containers d, w.slotSearch g p item flags slots containers = .inl d →
      w.Suits g item d := by
  induction slots with
  | nil => exact fun _ _ hd => nomatch hd
  | cons slot slots ih =>
    intro containers d hd
    rw [slotSearch] at hd
    rcases hi : p.inventory slot with _ | i
    · rw [hi] at hd
      dsimp only at hd
      split_ifs at hd
      · rw [← Sum.inl.inj hd]
        -- The slot is empty.
        intro id' p' slot' hcylinder hp' hslot
        obtain rfl := Cylinder.player.inj hcylinder
        rw [(player?_mem hp).2, hp] at hp'
        rw [Slot.ofIndex_index] at hslot
        rw [← Option.some.inj hslot, ← Option.some.inj hp', hi]
      · exact ih _ _ hd
    · rw [hi] at hd
      dsimp only at hd
      split_ifs at hd with _ hstack
      · exact ih _ _ hd
      · rw [← Sum.inl.inj hd]
        simp only [Bool.and_eq_true] at hstack
        refine suits_stack h ?_ hstack.1.1.2 hstack.2
        exact List.mem_flatMap.2
          ⟨i, things_subset_forest (player?_mem hp).1 (mem_things hi), mem_nodes_self i⟩
      · exact ih _ _ hd
      · exact ih _ _ hd

/-- At `INDEX_WHEREEVER` a stack is chosen that is not full, or a free place. -/
theorem queryDestination_suits (h : Heap g.types w.nextRef w.forest) (cylinder : Cylinder)
    (item : Thing) (flags : Flags) :
    w.Suits g item (w.queryDestination g cylinder indexWhereEver item none flags) := by
  rcases cylinder with id | r
  · rw [queryDestination]
    rcases hp : w.player? id with _ | p
    · intro _ _ _ _ _ hslot
      rw [Slot.ofIndex_whereEver] at hslot
      cases hslot
    · dsimp only
      rw [playerQueryDestination, if_pos (.inr rfl)]
      have hslots := slotSearch_within hp h (g := g) item flags
        (Slot.all.filter (· ≠ .storeInbox)) [] (fun c hc => absurd hc List.not_mem_nil)
      split
      · next d hs => exact slotSearch_suits h hp flags _ _ _ hs
      · next containers hs =>
        rw [hs] at hslots
        rcases hd : w.containerSearch g p item flags _ containers with _ | d
        · intro _ _ _ _ _ hslot
          rw [Option.getD_none, Slot.ofIndex_whereEver] at hslot
          cases hslot
        · exact containerSearch_suits h p flags _ _ hslots d hd
  · rw [queryDestination]
    rcases hc : w.container? r with _ | c
    · dsimp only
      intro _ _ _ hplayer
      cases hplayer
    · dsimp only
      obtain ⟨hfind, -⟩ := container?_eq_some hc
      rw [containerQueryDestination, if_neg (by decide : ¬indexWhereEver = 254)]
      split
      · exact suits_inContainer c _
      · rw [if_pos (.inr (.inr rfl)), if_pos rfl, Option.bind_none, autoStack]
        dsimp only
        split_ifs with hstack hdest
        · simp at hdest
        · split
          · next n listItem _ hlist =>
            simp only [Bool.and_eq_true] at hstack
            have hsuitable := List.find?_some hlist
            rw [Bool.and_eq_true] at hsuitable
            refine suits_stack h ?_ hstack.1.2 hsuitable.2
            obtain ⟨t, ht, hct⟩ := List.mem_flatMap.1 (find_mem hfind).1
            exact List.mem_flatMap.2 ⟨t, ht, nodes_trans hct
              (mem_nodes_of_mem_children (List.mem_of_find?_eq_some hlist) (mem_nodes_self _))⟩
          · exact suits_inContainer c _
        · exact suits_inContainer c _

/-- A stack that is chosen is merged with. -/
theorem Suits.merged (hd : w.Suits g item d) {r : Ref} (hr : d.destItem = some r) :
    ∃ i, w.merged g d item = some i ∧ 0 < i.room g.types := by
  rw [Suits, hr] at hd
  obtain ⟨hstack, i, hi, hroom⟩ := hd
  refine ⟨i, ?_, Thing.room_pos hroom⟩
  rw [World.merged, hr, Option.bind_some, hi, Option.filter_some,
    if_pos (by rw [hstack, Thing.equals_of_stacksWith hroom]; rfl)]

/-- Where nothing is merged, the place is free. -/
theorem Suits.free (hd : w.Suits g item d) (hm : w.merged g d item = none) {id : PlayerId}
    {p : Player} {slot : Slot} (hcylinder : d.cylinder = .player id) (hp : w.player? id = some p)
    (hslot : Slot.ofIndex d.index = some slot) : p.inventory slot = none := by
  rcases hr : d.destItem with _ | r
  · rw [Suits, hr] at hd
    exact hd id p slot hcylinder hp hslot
  · obtain ⟨i, hi, -⟩ := hd.merged hr
    rw [hm] at hi
    nomatch hi

end World

/-! ## Different objects -/

namespace Heap

variable {types : ItemTable} {n : Ref} {ts ts' : List Thing}

/-- Some of the things of a heap, in any order. -/
theorem subperm (h : Heap types n ts) (hs : ts'.Subperm ts) : Heap types n ts' := by
  obtain ⟨l, hperm, hsub⟩ := hs
  have hkeys : (keys Object.ref l).Perm (keys Object.ref ts') :=
    (hperm.flatMap_right labels).map _
  have hkeys' : (keys Object.ref l).Sublist (keys Object.ref ts) := (hsub.flatMap labels).map _
  have hnodes : ∀ t ∈ ts'.flatMap nodes, t ∈ ts.flatMap nodes := fun t ht =>
    (hsub.flatMap nodes).subset ((hperm.flatMap_right nodes).mem_iff.2 ht)
  exact ⟨hkeys.nodup_iff.1 (h.distinct.sublist hkeys'),
    fun r hr => h.lt r (hkeys'.subset (hkeys.mem_iff.2 hr)),
    fun t ht => h.leaf t (hnodes t ht), fun t ht => h.plain t (hnodes t ht)⟩

end Heap

theorem Slot.exists_all_eq (slot : Slot) :
    ∃ slots slots', Slot.all = slots ++ slot :: slots' ∧ slot ∉ slots ∧ slot ∉ slots' := by
  obtain ⟨slots, slots', h⟩ := List.append_of_mem slot.mem_all
  have hn : Slot.all.Nodup := by decide
  rw [h, List.nodup_middle, List.nodup_cons, List.mem_append, not_or] at hn
  exact ⟨slots, slots', h, hn.1⟩

/-- What is in a slot, and in the other slots. -/
theorem Player.exists_things_eq (p : Player) (slot : Slot) : ∃ l l' : List Thing,
    p.things = l ++ (p.inventory slot).toList ++ l' ∧
      ∀ item, ({ p with inventory := Function.update p.inventory slot item } : Player).things =
        l ++ item.toList ++ l' := by
  obtain ⟨slots, slots', h, hn, hn'⟩ := slot.exists_all_eq
  have hkeep : ∀ {l : List Slot} (item : Option Thing), slot ∉ l →
      l.filterMap (Function.update p.inventory slot item) = l.filterMap p.inventory :=
    fun item hl => List.filterMap_congr fun s hs =>
      Function.update_of_ne (fun (he : s = slot) => hl (he ▸ hs)) _ _
  have hcons : ∀ inventory : Slot → Option Thing,
      (slots ++ slot :: slots').filterMap inventory =
        slots.filterMap inventory ++ (inventory slot).toList ++ slots'.filterMap inventory := by
    intro inventory
    rw [List.filterMap_append, List.filterMap_cons]
    rcases inventory slot with _ | t <;> simp
  refine ⟨slots.filterMap p.inventory, slots'.filterMap p.inventory, ?_, fun item => ?_⟩
  · rw [Player.things, h, hcons]
  · have hself : Function.update p.inventory slot item slot = item := Function.update_self ..
    rw [Player.things, h]
    dsimp only
    rw [hcons, hkeep item hn, hkeep item hn', hself]

namespace World

variable {g : Game} {w : World} {item : Thing} {types : ItemTable}

/-- All things of a state are different objects, and so are its players. -/
structure WellFormed (types : ItemTable) (w : World) : Prop where
  heap : Heap types w.nextRef w.forest
  players : (w.players.map Player.id).Nodup

/-- The item is none of the things of a well-formed state. -/
structure Apart (types : ItemTable) (w : World) (item : Thing) : Prop where
  heap : Heap types w.nextRef (item :: w.forest)
  players : (w.players.map Player.id).Nodup

theorem Apart.wellFormed (h : w.Apart types item) : w.WellFormed types :=
  ⟨(Heap.cons_iff.1 h.heap).2.1, h.players⟩

/-! ### Players -/

/-- One player is changed. -/
theorem exists_players_eq (hn : (w.players.map Player.id).Nodup) {id : PlayerId} {p : Player}
    (hp : w.player? id = some p) : ∃ ps ps', w.players = ps ++ p :: ps' ∧
      ∀ f, (w.modifyPlayer id f).players = ps ++ f p :: ps' := by
  obtain ⟨hmem, rfl⟩ := player?_mem hp
  obtain ⟨ps, ps', h⟩ := List.append_of_mem hmem
  rw [h, List.map_append, List.map_cons, List.nodup_middle, List.nodup_cons, List.mem_append,
    not_or] at hn
  have hkeep : ∀ {l : List Player} (f : Player → Player), p.id ∉ l.map Player.id →
      (l.map fun p' => if p'.id = p.id then f p' else p') = l := by
    intro l f hl
    refine (List.map_congr_left fun p' hp' => ?_).trans (List.map_id l)
    exact if_neg fun he => hl (List.mem_map.2 ⟨p', hp', he⟩)
  refine ⟨ps, ps', h, fun f => ?_⟩
  rw [modifyPlayer, h, List.map_append, List.map_cons, if_pos rfl, hkeep f hn.1.1, hkeep f hn.1.2]

/-- What is in a slot of a player, and the other things. -/
theorem exists_forest_eq_slot (hn : (w.players.map Player.id).Nodup) {id : PlayerId} {p : Player}
    (hp : w.player? id = some p) (slot : Slot) : ∃ l l' : List Thing,
      w.forest = l ++ (p.inventory slot).toList ++ l' ∧
        ∀ f item, (f p).inventory = Function.update p.inventory slot item →
          (w.modifyPlayer id f).forest = l ++ item.toList ++ l' := by
  obtain ⟨ps, ps', hps, hps'⟩ := exists_players_eq hn hp
  obtain ⟨l, l', hl, hl'⟩ := p.exists_things_eq slot
  refine ⟨ps.flatMap Player.things ++ l, l' ++ (ps'.flatMap Player.things ++ (w.tiles ++ w.loose)),
    ?_, fun f item hf => ?_⟩
  · rw [forest, hps, List.flatMap_append, List.flatMap_cons, hl]
    simp only [List.append_assoc]
  · have hthings : (f p).things = l ++ item.toList ++ l' := by
      rw [← hl', Player.things, Player.things, hf]
    rw [forest, hps', List.flatMap_append, List.flatMap_cons, hthings]
    simp only [List.append_assoc]
    rfl

theorem ids_modifyPlayer {f : Player → Player} (hf : ∀ p, (f p).id = p.id) (id : PlayerId) :
    (w.modifyPlayer id f).players.map Player.id = w.players.map Player.id := by
  rw [modifyPlayer, List.map_map]
  refine List.map_congr_left fun p _ => ?_
  rw [Function.comp]
  split
  · exact hf p
  · rfl

theorem ids_mapThings (f : Thing → Thing) :
    (w.mapThings f).players.map Player.id = w.players.map Player.id := by
  rw [mapThings, List.map_map]
  rfl

theorem WellFormed.postNotification (h : w.WellFormed types) (cylinder : Cylinder) :
    (w.postNotification types cylinder).WellFormed types := by
  rcases w.postNotification_cases types cylinder with heq | ⟨id, heq⟩
  · rw [heq]
    exact h
  · rw [heq]
    refine ⟨?_, ?_⟩
    · rw [forest_modifyPlayer updateInventoryWeight_things]
      exact h.heap
    · rw [ids_modifyPlayer updateInventoryWeight_id]
      exact h.players

theorem WellFormed.notifyOf (h : w.WellFormed g.types) (cylinder : Cylinder) (r : Ref) :
    (w.notifyOf g cylinder r).WellFormed g.types := by
  rw [World.notifyOf]
  split
  · exact h.postNotification cylinder
  · exact h

theorem WellFormed.mapThings_relabel (h : w.WellFormed types) {f : Object → Object}
    (hf : KeepsUnits f) : (w.mapThings (relabel f)).WellFormed types := by
  refine ⟨?_, ?_⟩
  · rw [forest_mapThings]
    exact hf.heap h.heap
  · rw [ids_mapThings]
    exact h.players

theorem WellFormed.updateItemWeight (h : w.WellFormed types) (r : Ref) (diff : BitVec 32) :
    (w.updateItemWeight r diff).WellFormed types :=
  h.mapThings_relabel (keepsUnits_weight _ _)

/-! ### Adding -/

theorem Apart.addThing (h : w.Apart types item) (cylinder : Cylinder) (index : ℤ) :
    (w.addThing types cylinder index item).WellFormed types := by
  rcases cylinder with id | r
  · rw [World.addThing]
    rcases Slot.ofIndex index with _ | slot
    · exact h.wellFormed
    · dsimp only
      have hset : ∀ p, (Player.setSlot slot item p).id = p.id := fun _ => rfl
      refine ⟨?_, by rw [ids_modifyPlayer hset]; exact h.players⟩
      rcases hp : w.player? id with _ | p
      · have hkeep : (w.modifyPlayer id (Player.setSlot slot item)).players = w.players := by
          refine (List.map_congr_left fun p hp' => ?_).trans (List.map_id _)
          exact if_neg fun he => List.find?_eq_none.1 hp p hp' (decide_eq_true he)
        rw [forest, hkeep]
        exact h.wellFormed.heap
      · -- The item takes the place of what was in the slot.
        obtain ⟨l, l', hl, hl'⟩ := exists_forest_eq_slot h.players hp slot
        refine h.heap.subperm ?_
        rw [hl' _ (some item) rfl, hl, Option.toList_some, List.append_assoc, List.append_assoc,
          List.singleton_append]
        exact ⟨item :: (l ++ l'), List.perm_middle.symm,
          (((List.sublist_append_right _ _).append_left l).cons_cons item)⟩
  · rw [World.addThing]
    rcases hc : w.container? r with _ | c
    · exact h.wellFormed
    · dsimp only
      split
      · exact h.wellFormed
      · obtain ⟨hfind, hcontainer⟩ := container?_eq_some hc
        obtain ⟨hmem, rfl⟩ := find_mem hfind
        refine WellFormed.updateItemWeight ⟨heap_push h.heap hmem hcontainer, ?_⟩ _ _
        rw [modify, ids_mapThings]
        exact h.players

/-! ### Merging -/

theorem ids_updateThing (w : World) (cylinder : Cylinder) (r : Ref) (id : BitVec 16) (count : ℕ) :
    (w.updateThing types cylinder r id count).players.map Player.id =
      w.players.map Player.id := by
  rw [updateThing]
  split
  · cases cylinder
    · exact ids_mapThings _
    · exact (ids_mapThings _).trans (ids_mapThings _)
  · rfl

section merged

variable {d : Destination} {top : Cylinder} {toItem : Thing} (destCylinder : Cylinder)
  (flags : Flags)

theorem Apart.mergedWorld (h : w.Apart g.types item) (hs : Stack g w top d item toItem) :
    (w.mergedWorld g destCylinder d item toItem flags).Apart g.types item :=
  ⟨heap_mergedWorld destCylinder flags hs h.heap, by
    rw [World.mergedWorld, merge, ids_updateThing]
    exact h.players⟩

theorem Apart.remainderItem (h : w.Apart g.types item) (hs : Stack g w top d item toItem) :
    (w.remainderItem g destCylinder d item toItem flags).2.Apart g.types
      (w.remainderItem g destCylinder d item toItem flags).1 :=
  ⟨(remainderItem_spec destCylinder flags hs h.heap).1,
    (h.mergedWorld destCylinder flags hs).players⟩

/-- The rest is a stack as well. -/
theorem children_remainderItem (hitem : item.children = []) :
    (w.remainderItem g destCylinder d item toItem flags).1.children = [] := by
  obtain ⟨o, cs⟩ := item
  rw [children_node] at hitem
  rw [hitem]
  rfl

end merged

theorem Apart.place (h : w.Apart g.types item) (cylinder : Cylinder) (index : ℤ) :
    (w.place g cylinder index item).WellFormed g.types :=
  (h.addThing cylinder index).notifyOf cylinder item.ref

/-! ## The branches of the call -/

/-- What holds of the item and the state in each branch holds after the call: if the item is
    refused, placed, merged, placed beside the stack, or merged with a rest that is added. -/
theorem internalAddItem_rule (destCylinder : Cylinder) (flags : Flags)
    {motive : World → Thing → ℤ → World → Prop}
    (refused : ∀ {w item} index, w.Apart g.types item →
      w.addReturn g destCylinder item index flags ≠ .noError → motive w item index w)
    (placed : ∀ {w item index d}, w.Apart g.types item →
      w.addReturn g destCylinder item index flags = .noError →
      w.queryDestination g destCylinder index item none flags = d → w.merged g d item = none →
      motive w item index (w.place g d.cylinder d.index item))
    (filled : ∀ {w item index d toItem}, w.Apart g.types item →
      w.queryDestination g destCylinder index item none flags = d →
      w.merged g d item = some toItem →
      Stack g w (w.destinationOf g destCylinder index item flags) d item toItem →
      w.restCount g destCylinder item toItem flags = 0 →
      motive w item index ((w.mergedWorld g destCylinder d item toItem flags).notifyOf g
        d.cylinder toItem.ref))
    (beside : ∀ {w item index d toItem}, w.Apart g.types item →
      w.queryDestination g destCylinder index item none flags = d →
      w.merged g d item = some toItem →
      Stack g w (w.destinationOf g destCylinder index item flags) d item toItem →
      0 < w.restCount g destCylinder item toItem flags →
      item.label.getItemCount = w.restCount g destCylinder item toItem flags →
      motive w item index ((w.mergedWorld g destCylinder d item toItem flags).place g
        d.cylinder d.index item))
    (split : ∀ {w item index d toItem w'}, w.Apart g.types item →
      w.queryDestination g destCylinder index item none flags = d →
      w.merged g d item = some toItem →
      Stack g w (w.destinationOf g destCylinder index item flags) d item toItem →
      0 < w.restCount g destCylinder item toItem flags →
      item.label.getItemCount ≠ w.restCount g destCylinder item toItem flags →
      motive (w.remainderItem g destCylinder d item toItem flags).2
        (w.remainderItem g destCylinder d item toItem flags).1 indexWhereEver w' →
      motive w item index w')
    (index : ℤ) (h : w.Apart g.types item) :
    motive w item index (w.internalAddItem g destCylinder item index flags false).world := by
  -- The rest of a split stack is added again and is smaller: induction on the count.
  induction hk : item.label.getItemCount using Nat.strong_induction_on
    generalizing w item index with
  | _ k ih =>
  by_cases hret : w.addReturn g destCylinder item index flags = .noError
  · have hwithin := queryDestination_within (g := g) h.wellFormed.heap (isThere_of_addReturn hret).1
      index item flags
    rcases hm : w.merged g (w.queryDestination g destCylinder index item none flags) item
      with _ | toItem
    · rw [internalAddItem_placed hret rfl hm]
      exact placed h hret rfl hm
    · have hs := stack_of_merged hwithin hm
      rcases Nat.eq_zero_or_pos (w.restCount g destCylinder item toItem flags) with hrest | hrest
      · rw [internalAddItem_filled hret rfl hm hrest]
        exact filled h rfl hm hs hrest
      · by_cases hcount : item.label.getItemCount = w.restCount g destCylinder item toItem flags
        · rw [internalAddItem_beside hret rfl hm hrest hcount]
          exact beside h rfl hm hs hrest hcount
        · rw [internalAddItem_split hret rfl hm hrest hcount]
          have hlt := w.getItemCount_remainderItem_lt g destCylinder
            (w.queryDestination g destCylinder index item none flags) item toItem flags hcount
          exact split h rfl hm hs hrest hcount
            (ih _ (hk ▸ hlt) indexWhereEver (h.remainderItem destCylinder flags hs) rfl)
  · rw [internalAddItem_refused hret]
    exact refused index h hret

/-- What is added leaves the state well formed. -/
theorem wellFormed_internalAddItem (destCylinder : Cylinder) (flags : Flags) (index : ℤ)
    (h : w.Apart g.types item) :
    (w.internalAddItem g destCylinder item index flags false).world.WellFormed g.types :=
  internalAddItem_rule destCylinder flags (motive := fun _ _ _ w' => w'.WellFormed g.types)
    (fun _ h _ => h.wellFormed)
    (fun h _ _ _ => h.place _ _)
    (fun h _ _ hs _ => (h.mergedWorld destCylinder flags hs).wellFormed.notifyOf _ _)
    (fun h _ _ hs _ _ => (h.mergedWorld destCylinder flags hs).place _ _)
    (fun _ _ _ _ _ _ ih => ih) index h

/-! ## The units -/

theorem units_of_children {t : Thing} (h : t.children = []) (id : BitVec 16) :
    Thing.units id t = if t.label.id = id then t.label.getItemCount else 0 := by
  rw [eq_stackWith h, units_stackWith]
  rfl

section units

variable {d : Destination} {top : Cylinder} {toItem : Thing} {destCylinder : Cylinder}
  {flags : Flags}

/-- What is added to a free place adds its units, and takes the place of none. -/
theorem unitsOf_place (h : w.Apart g.types item) (hitem : item.children = [])
    (hd : w.LiesIn top d.cylinder) (hthere : w.IsThere d.cylinder) (hfree : w.Free d item)
    (hslot : ∀ id p slot, d.cylinder = .player id → w.player? id = some p →
      Slot.ofIndex d.index = some slot → p.inventory slot = none) (id : BitVec 16) :
    (w.place g d.cylinder d.index item).unitsOf top id =
      w.unitsOf top id + Thing.units id item := by
  -- An item without units adds none of any type.
  have hnone : Thing.units item.label.id item = 0 → ∀ id, Thing.units id item = 0 := by
    intro hzero id
    rw [units_of_children hitem, if_pos rfl] at hzero
    rw [units_of_children hitem, hzero, ite_self]
  obtain ⟨cylinder, index, destItem⟩ := d
  simp only [place, unitsOf_notifyOf, Free] at hfree hslot ⊢
  rcases cylinder with i | r
  · obtain rfl : top = .player i := hd
    obtain ⟨p, hp⟩ := Option.isSome_iff_exists.1 hthere
    have hfree := hfree p hp
    rcases hindex : Slot.ofIndex index with _ | slot
    · rw [hindex] at hfree
      rw [addThing_player_of_none hindex, hnone hfree, Nat.add_zero]
    · have hunits := unitsOf_addThing_player g.types hp hindex item id
      rwa [hslot i p slot rfl hp hindex, Option.map_none, Option.getD_none, Nat.add_zero] at hunits
  · obtain ⟨c, hc, hheld⟩ := hd
    rcases lt_or_ge index (c.capacity : ℤ) with hindex | hindex
    · exact unitsOf_addThing_container h.heap hc hindex hheld id
    · rw [addThing_container_of_le hc hindex,
        hnone ((hfree c hc).resolve_left (not_lt.2 hindex)), Nat.add_zero]

/-- A stack that is chosen takes some of the units. -/
theorem restCount_lt_of_suits (hsuits : w.Suits g item d) (hm : w.merged g d item = some toItem)
    (hrest : 0 < w.restCount g destCylinder item toItem flags) :
    w.restCount g destCylinder item toItem flags < item.label.getItemCount := by
  obtain ⟨i, hi, hroom⟩ := hsuits.merged (merged_eq_some hm).1
  obtain rfl := Option.some.inj (hm.symm.trans hi)
  have hle := w.amounts_le g destCylinder item toItem flags
  rw [restCount, amounts] at hrest ⊢
  rw [amounts] at hle
  dsimp only at hrest hle ⊢
  omega

theorem destinationOf_whereEver (w : World) (cylinder : Cylinder) (item : Thing) (flags : Flags) :
    w.destinationOf g cylinder indexWhereEver item flags = cylinder := by
  rcases cylinder with id | r
  · rfl
  · have hne : indexWhereEver ≠ 254 := by decide
    rw [destinationOf, if_neg hne]

/-- What lands, of an item added wherever there is room, adds its units and takes none away. -/
theorem unitsOf_internalAddItem (destCylinder : Cylinder) (flags : Flags)
    (h : w.Apart g.types item) (hitem : item.children = [])
    (hlands : w.Lands g destCylinder flags item indexWhereEver) (id : BitVec 16) :
    (w.internalAddItem g destCylinder item indexWhereEver flags false).world.unitsOf destCylinder
      id = w.unitsOf destCylinder id + Thing.units id item := by
  -- The five cases of the rule, in its order; refused things do not land.
  refine internalAddItem_rule destCylinder flags (motive := fun w item index w' =>
    index = indexWhereEver → item.children = [] → w.Lands g destCylinder flags item index →
      w'.unitsOf destCylinder id = w.unitsOf destCylinder id + Thing.units id item)
    ?_ ?_ ?_ ?_ ?_ indexWhereEver h rfl hitem hlands
  · intro w item index h hret _ _ hlands
    rw [Lands] at hlands
    exact absurd hlands.1 hret
  · rintro w item index d h hret hd hm rfl hitem hlands
    obtain ⟨hthere, hthere'⟩ := isThere_of_addReturn hret
    have hwithin := queryDestination_within (g := g) h.wellFormed.heap hthere indexWhereEver item
      flags
    have hsuits := queryDestination_suits h.wellFormed.heap destCylinder item flags
    rw [Lands] at hlands
    dsimp only at hlands
    rw [hd] at hwithin hthere' hsuits hlands
    rw [hm] at hlands
    rw [destinationOf_whereEver] at hwithin
    exact unitsOf_place h hitem hwithin.cylinder hthere' hlands.2
      (fun _ _ _ hcylinder hp hslot => hsuits.free hm hcylinder hp hslot) id
  · rintro w item index d toItem h hd hm hs hrest rfl hitem hlands
    have hunits := unitsOf_mergedWorld destCylinder flags hs h.heap id
    rw [destinationOf_whereEver] at hunits
    rw [Lands] at hlands
    dsimp only at hlands
    rw [hd, hm] at hlands
    have hfills := hlands.2.1
    rw [unitsOf_notifyOf, units_of_children hitem]
    have hle := w.amounts_snd_le g destCylinder item toItem flags
    rw [Fills] at hfills
    rw [restCount] at hrest
    split_ifs at hunits ⊢ <;> omega
  · rintro w item index d toItem h hd hm hs hrest hcount rfl hitem hlands
    have hsuits := queryDestination_suits h.wellFormed.heap destCylinder item flags
    rw [hd] at hsuits
    exact absurd hcount (restCount_lt_of_suits hsuits hm hrest).ne'
  · rintro w item index d toItem w' h hd hm hs hrest hcount ih rfl hitem hlands
    have hunits := unitsOf_mergedWorld destCylinder flags hs h.heap id
    obtain ⟨-, hkeep, hcloneCount, hcloneUnits⟩ := remainderItem_spec destCylinder flags hs h.heap
    rw [Lands] at hlands
    dsimp only at hlands
    rw [hd, hm] at hlands
    dsimp only at hlands
    rw [if_pos hrest, dif_pos hcount] at hlands
    obtain ⟨-, hfills, htype, hlands⟩ := hlands
    -- The units of the first part and, by induction, those of the rest.
    have hrestUnits := ih rfl (children_remainderItem destCylinder flags hitem) hlands
    rw [destinationOf_whereEver] at hunits hkeep
    rw [hkeep, hcloneUnits, htype] at hrestUnits
    rw [hrestUnits, units_of_children hitem]
    have hle := w.amounts_snd_le g destCylinder item toItem flags
    rw [Fills] at hfills
    rw [restCount]
    split_ifs at hunits ⊢ <;> omega

/-- The rest of a stack is of the type that clones of it are made of. -/
theorem id_remainderItem (w : World) (destCylinder : Cylinder) (d : Destination) (toItem : Thing)
    (flags : Flags) (hitem : item.children = []) :
    (w.remainderItem g destCylinder d item toItem flags).1.label.id =
      Items.Item.createdId g.types.server item.label.id := by
  obtain ⟨o', hclone, -, hid, -⟩ :=
    (w.mergedWorld g destCylinder d item toItem flags).clone_stack g.types item.label
      (w.restCount g destCylinder item toItem flags)
  rw [← eq_stackWith hitem] at hclone
  rw [World.remainderItem]
  dsimp only
  rw [hclone]
  exact hid

/-- No unit comes from nowhere, of a stack whose clones are of its type. -/
theorem unitsOf_internalAddItem_le (destCylinder : Cylinder) (flags : Flags)
    (h : w.Apart g.types item) (hitem : item.children = [])
    (htype : Items.Item.createdId g.types.server item.label.id = item.label.id) (id : BitVec 16) :
    (w.internalAddItem g destCylinder item indexWhereEver flags false).world.unitsOf destCylinder
      id ≤ w.unitsOf destCylinder id + Thing.units id item := by
  refine internalAddItem_rule destCylinder flags (motive := fun w item index w' =>
    index = indexWhereEver → item.children = [] →
      Items.Item.createdId g.types.server item.label.id = item.label.id →
      w'.unitsOf destCylinder id ≤ w.unitsOf destCylinder id + Thing.units id item)
    ?_ ?_ ?_ ?_ ?_ indexWhereEver h rfl hitem htype
  · exact fun _ _ _ _ _ _ => Nat.le_add_right _ _
  · rintro w item index d h hret hd hm rfl hitem htype
    obtain ⟨hthere, hthere'⟩ := isThere_of_addReturn hret
    have hwithin := queryDestination_within (g := g) h.wellFormed.heap hthere indexWhereEver item
      flags
    rw [hd] at hwithin hthere'
    rw [destinationOf_whereEver] at hwithin
    exact (units_place h.heap hwithin.cylinder hthere').1 id
  · rintro w item index d toItem h hd hm hs hrest rfl hitem htype
    have hunits := unitsOf_mergedWorld destCylinder flags hs h.heap id
    rw [destinationOf_whereEver] at hunits
    rw [unitsOf_notifyOf, units_of_children hitem]
    have hle := w.amounts_le g destCylinder item toItem flags
    have hle' := w.amounts_snd_le g destCylinder item toItem flags
    split_ifs at hunits ⊢ <;> omega
  · rintro w item index d toItem h hd hm hs hrest hcount rfl hitem htype
    have hsuits := queryDestination_suits h.wellFormed.heap destCylinder item flags
    rw [hd] at hsuits
    exact absurd hcount (restCount_lt_of_suits hsuits hm hrest).ne'
  · rintro w item index d toItem w' h hd hm hs hrest hcount ih rfl hitem htype
    have hunits := unitsOf_mergedWorld destCylinder flags hs h.heap id
    obtain ⟨-, hkeep, hcloneCount, hcloneUnits⟩ := remainderItem_spec destCylinder flags hs h.heap
    have hid := (id_remainderItem w destCylinder d toItem flags hitem).trans htype
    have hrestUnits := ih rfl (children_remainderItem destCylinder flags hitem)
      (by rw [hid]; exact htype)
    rw [destinationOf_whereEver] at hunits hkeep
    rw [hkeep, hcloneUnits, hid] at hrestUnits
    rw [units_of_children hitem]
    have hle := w.amounts_le g destCylinder item toItem flags
    have hle' := w.amounts_snd_le g destCylinder item toItem flags
    rw [restCount] at hrestUnits
    split_ifs at hunits hrestUnits ⊢ <;> omega

end units

end World

end Canary.Inventory
