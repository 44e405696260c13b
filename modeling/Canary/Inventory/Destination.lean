import Canary.Inventory.Queries
import Canary.Inventory.Units

/-!
# Where an item goes

The cylinder that `queryDestination` finds is the one asked, or a container below it, with one
exception: index 254 names the container above. A stack that it finds is in that cylinder.
-/

namespace Canary.Inventory

open RoseTree

namespace World

variable {g : Game} {w : World} {types : ItemTable} {n : Ref}

/-! ## Things by their address -/

theorem find_eq_some (h : Heap types n w.forest) {t : Thing} (ht : t ∈ w.forest.flatMap nodes) :
    w.find t.ref = some t :=
  (find?_eq_some_iff Object.ref h.distinct).2 ⟨ht, rfl⟩

theorem container?_eq (h : Heap types n w.forest) {t : Thing} (ht : t ∈ w.forest.flatMap nodes)
    (hc : Thing.isContainer t = true) : w.container? t.ref = some t := by
  rw [container?, find_eq_some h ht, Option.filter_some, if_pos hc]

/-- The chain of a thing is its way to the top of one of the trees. -/
theorem chain_cases (w : World) (r : Ref) : w.chain r = [] ∨
    ∃ ts top, ts ⊆ w.forest ∧ (∀ t, Ancestor.container t ∉ top) ∧
      way r ts top = some (w.chain r) := by
  have htile : ∀ t, Ancestor.container t ∉ [Ancestor.tile] := by
    intro t ht
    nomatch List.mem_singleton.1 ht
  rw [chain]
  rcases hp : w.players.findSome? _ with _ | l
  · rw [Option.orElse_eq_orElse, Option.orElse_none]
    rcases ht : way r w.tiles [.tile] with _ | l
    · rw [Option.orElse_none]
      rcases hl : way r w.loose [] with _ | l
      · exact .inl rfl
      · exact .inr ⟨w.loose, [], fun t ht => List.mem_append_right _ (List.mem_append_right _ ht),
          fun _ => List.not_mem_nil, hl⟩
    · exact .inr ⟨w.tiles, [.tile],
        fun t ht => List.mem_append_right _ (List.mem_append_left _ ht), htile, ht⟩
  · obtain ⟨p, hmem, hway⟩ := List.exists_of_findSome?_eq_some hp
    refine .inr ⟨p.things, _, things_subset_forest hmem, fun t ht => ?_, hway⟩
    rcases List.mem_cons.1 ht with he | ht
    · nomatch he
    · split at ht
      · exact htile t ht
      · exact List.not_mem_nil ht

/-- The containers on the way to the top are containers of the state. -/
theorem chain_containers (h : Heap types n w.forest) {r : Ref} {t : Thing}
    (ht : Ancestor.container t ∈ (w.chain r).tail) :
    t ∈ w.forest.flatMap nodes ∧ Thing.isContainer t = true := by
  rcases w.chain_cases r with hnil | ⟨ts, top, hts, htop, hway⟩
  · rw [hnil] at ht
    exact absurd ht List.not_mem_nil
  · obtain ⟨l, hl, he⟩ := Option.map_eq_some_iff.1 hway
    obtain ⟨t₀, ht₀, hp⟩ := forestPath_eq_some hl
    obtain ⟨s, q, rfl, -⟩ := path_eq_cons hp
    rw [← he, List.map_cons, List.cons_append, List.tail_cons, List.mem_append] at ht
    have hq : t ∈ q := by
      refine ht.elim (fun hmem => ?_) fun hmem => absurd hmem (htop t)
      obtain ⟨t', ht', he⟩ := List.mem_map.1 hmem
      exact Ancestor.container.inj he ▸ ht'
    have hnode : t ∈ w.forest.flatMap nodes := List.mem_flatMap.2
      ⟨t₀, hts ht₀, mem_nodes_of_mem_path hp t (List.mem_cons_of_mem _ hq)⟩
    refine ⟨hnode, ?_⟩
    -- What is not a container holds nothing.
    by_contra hc
    rw [Thing.isContainer, Option.not_isSome_iff_eq_none] at hc
    exact children_ne_nil_of_mem_path hp t hq (h.leaf t hnode hc)

/-- `getParent` gives cylinders on the way to the top. -/
theorem parentsOf_subset (l : List Ancestor) : parentsOf l ⊆ l.tail := by
  induction l with
  | nil => exact List.nil_subset _
  | cons a l ih =>
    have hl : parentsOf l ⊆ l := fun _ hb => List.mem_of_mem_tail (ih hb)
    have hplain : l.head?.toList ++ parentsOf l ⊆ l := by
      rcases l with _ | ⟨b, l⟩
      · exact List.nil_subset _
      · exact List.append_subset.2
          ⟨fun c hc => List.mem_cons.2 (.inl (List.mem_singleton.1 hc)), hl⟩
    rw [List.tail_cons]
    rcases a with t | p | _
    · rw [parentsOf]
      split
      · exact fun b hb => hl (List.mem_of_mem_tail hb)
      · exact hl
      · exact hplain
    · exact hplain
    · exact hplain

theorem parents_containers (h : Heap types n w.forest) {r : Ref} {t : Thing}
    (ht : Ancestor.container t ∈ w.parents r) :
    t ∈ w.forest.flatMap nodes ∧ Thing.isContainer t = true :=
  chain_containers h (parentsOf_subset _ ht)

/-! ## Destinations -/

/-- The cylinder is `c` or a container below it. -/
def LiesIn (w : World) (c : Cylinder) : Cylinder → Prop
  | .player id => c = .player id
  | .container r => ∃ t, w.container? r = some t ∧ t ∈ (w.heldBy c).flatMap nodes

/-- The thing is directly in the cylinder, in or below `c`. -/
def IsIn (w : World) (c cylinder : Cylinder) (r : Ref) : Prop :=
  ∃ t, w.find r = some t ∧ t ∈ (w.heldBy c).flatMap nodes ∧
    (w.getThingIndex cylinder r).isSome = true

/-- A destination in or below `c`. -/
structure Destination.Within (w : World) (c : Cylinder) (d : Destination) : Prop where
  cylinder : w.LiesIn c d.cylinder
  destItem : ∀ r, d.destItem = some r → w.IsIn c d.cylinder r

theorem mem_heldBy_of_mem_children {c : Cylinder} {t i : Thing}
    (ht : t ∈ (w.heldBy c).flatMap nodes) (hi : i ∈ t.children) :
    i ∈ (w.heldBy c).flatMap nodes := by
  obtain ⟨t₀, ht₀, htt⟩ := List.mem_flatMap.1 ht
  exact List.mem_flatMap.2
    ⟨t₀, ht₀, nodes_trans htt (mem_nodes_of_mem_children hi (mem_nodes_self i))⟩

theorem isIn_of_mem_children (h : Heap types n w.forest) {c : Cylinder} {t i : Thing}
    (ht : w.container? t.ref = some t) (hheld : t ∈ (w.heldBy c).flatMap nodes)
    (hi : i ∈ t.children) : w.IsIn c (.container t.ref) i.ref := by
  have hnode := mem_heldBy_of_mem_children hheld hi
  refine ⟨i, find_eq_some h (heldBy_nodes hnode), hnode, ?_⟩
  rw [getThingIndex, ht, Option.bind_some, Option.isSome_map, List.findIdx?_isSome]
  exact List.any_eq_true.2 ⟨i, hi, decide_eq_true rfl⟩

theorem heldBy_player {id : PlayerId} {p : Player} (hp : w.player? id = some p) :
    w.heldBy (.player id) = p.things := by
  rw [heldBy, hp, Option.map_some, Option.getD_some]

theorem mem_things {p : Player} {slot : Slot} {i : Thing} (hi : p.inventory slot = some i) :
    i ∈ p.things :=
  List.mem_filterMap.2 ⟨slot, slot.mem_all, hi⟩

theorem isIn_of_inventory (h : Heap types n w.forest) {id : PlayerId} {p : Player}
    (hp : w.player? id = some p) {slot : Slot} {i : Thing} (hi : p.inventory slot = some i) :
    w.IsIn (.player id) (.player id) i.ref := by
  have hnode : i ∈ (w.heldBy (.player id)).flatMap nodes := by
    rw [heldBy_player hp]
    exact List.mem_flatMap.2 ⟨i, mem_things hi, mem_nodes_self i⟩
  refine ⟨i, find_eq_some h (heldBy_nodes hnode), hnode, ?_⟩
  rw [getThingIndex, hp, Option.bind_some, Option.isSome_map, List.find?_isSome]
  refine ⟨slot, slot.mem_all, ?_⟩
  rw [hi]
  exact decide_eq_true rfl

/-! ## Containers -/

theorem getItemByIndex_mem {c i : Thing} {index : ℤ} (h : getItemByIndex c index = some i) :
    i ∈ c.children := by
  rw [getItemByIndex] at h
  split at h
  · nomatch h
  · exact List.mem_of_getElem? h

section container

variable {c : Thing} (hc : w.container? c.ref = some c)
include hc

theorem container_self : c ∈ (w.heldBy (.container c.ref)).flatMap nodes := by
  rw [heldBy, (container?_eq_some hc).1, Option.toList_some, List.flatMap_singleton]
  exact mem_nodes_self c

variable (h : Heap types n w.forest)
include h

theorem inContainer_within {top : Cylinder} (hheld : c ∈ (w.heldBy top).flatMap nodes)
    (index : ℤ) {destItem : Option Thing} (hi : ∀ i, destItem = some i → i ∈ c.children) :
    (inContainer c index destItem).Within w top := by
  refine ⟨⟨c, hc, hheld⟩, fun r hr => ?_⟩
  obtain ⟨i, hdest, rfl⟩ := Option.map_eq_some_iff.1 hr
  exact isIn_of_mem_children h hc hheld (hi i hdest)

theorem autoStack_within (index : ℤ) (item : Thing) {destItem : Option Thing} (flags : Flags)
    (hi : ∀ i, destItem = some i → i ∈ c.children) :
    (w.autoStack g c index item destItem flags).Within w (.container c.ref) := by
  have hhere := inContainer_within hc h (container_self hc) index hi
  rw [autoStack]
  dsimp only
  split
  · split
    · exact hhere
    · split
      · next _ _ _ hfind =>
        refine inContainer_within hc h (container_self hc) _ fun i hi => ?_
        exact Option.some.inj hi ▸ List.mem_of_find?_eq_some hfind
      · exact hhere
  · exact hhere

/-- A container adds to itself, or to a container in it. -/
theorem containerQueryDestination_within {index : ℤ} (hindex : index ≠ 254) (item : Thing)
    (flags : Flags) :
    (w.containerQueryDestination g c index item none flags).Within w (.container c.ref) := by
  rw [containerQueryDestination, if_neg hindex]
  split
  · exact inContainer_within hc h (container_self hc) index nofun
  · split
    · rw [ite_self]
      exact autoStack_within hc h _ item flags nofun
    · have hchild : ∀ i, (getItemByIndex c index <|> none) = some i → i ∈ c.children := by
        intro i hi
        rcases hget : getItemByIndex c index with _ | i'
        · rw [hget] at hi
          nomatch hi
        · rw [hget] at hi
          exact Option.some.inj hi ▸ getItemByIndex_mem hget
      dsimp only
      split
      · next subCylinder hsub =>
        rw [Option.filter_eq_some_iff] at hsub
        have hnode := mem_heldBy_of_mem_children (container_self hc) (hchild _ hsub.1)
        exact ⟨⟨_, container?_eq h (heldBy_nodes hnode) hsub.2, hnode⟩, nofun⟩
      · exact autoStack_within hc h index item flags hchild

end container

/-! ## Players -/

theorem stackIn_spec (p : Player) (item : Thing) (is : List Thing) :
    ∀ (k : ℕ) (containers : List Thing), match stackIn g p item k containers is with
      | .inl (_, i) => i ∈ is
      | .inr (containers', _) =>
        ∀ c ∈ containers', c ∈ containers ∨ c ∈ is ∧ Thing.isContainer c = true := by
  induction is with
  | nil => exact fun _ _ _ hc => .inl hc
  | cons i is ih =>
    -- A search of the rest finds what it finds in the list.
    have hrest : ∀ (k : ℕ) (containers containers₀ : List Thing),
        (∀ c ∈ containers₀, c ∈ containers ∨ c ∈ i :: is ∧ Thing.isContainer c = true) →
        match stackIn g p item k containers₀ is with
        | .inl (_, i') => i' ∈ i :: is
        | .inr (containers', _) =>
          ∀ c ∈ containers', c ∈ containers ∨ c ∈ i :: is ∧ Thing.isContainer c = true := by
      intro k containers containers₀ h₀
      have hih := ih k containers₀
      rcases hs : stackIn g p item k containers₀ is with ⟨_, i'⟩ | ⟨containers', _⟩
      · rw [hs] at hih
        exact List.mem_cons_of_mem _ hih
      · rw [hs] at hih
        exact fun c hc => (hih c hc).elim (h₀ c) fun h => .inr ⟨List.mem_cons_of_mem _ h.1, h.2⟩
    intro k containers
    rw [stackIn]
    split_ifs with _ _ hi
    · exact hrest k containers containers fun _ hc => .inl hc
    · exact List.mem_cons_self
    · refine hrest (k + 1) containers _ fun c hc => ?_
      rcases List.mem_append.1 hc with hc | hc
      · exact .inl hc
      · rw [List.mem_singleton.1 hc]
        exact .inr ⟨List.mem_cons_self, hi⟩
    · exact hrest (k + 1) containers containers fun _ hc => .inl hc

section player

variable {id : PlayerId} {p : Player} (hp : w.player? id = some p) (h : Heap types n w.forest)

/-- A container that the player holds. -/
def Carried (w : World) (id : PlayerId) (c : Thing) : Prop :=
  c ∈ (w.heldBy (.player id)).flatMap nodes ∧ Thing.isContainer c = true

theorem Carried.children {c i : Thing} (hc : w.Carried id c) (hi : i ∈ c.children)
    (hcontainer : Thing.isContainer i = true) : w.Carried id i :=
  ⟨mem_heldBy_of_mem_children hc.1 hi, hcontainer⟩

theorem carried_inventory (hp : w.player? id = some p) {slot : Slot} {i : Thing}
    (hi : p.inventory slot = some i) (hcontainer : Thing.isContainer i = true) :
    w.Carried id i := by
  refine ⟨?_, hcontainer⟩
  rw [heldBy_player hp]
  exact List.mem_flatMap.2 ⟨i, mem_things hi, mem_nodes_self i⟩

include h

theorem Carried.container? {c : Thing} (hc : w.Carried id c) : w.container? c.ref = some c :=
  container?_eq h (heldBy_nodes hc.1) hc.2

theorem Carried.within {c : Thing} (hc : w.Carried id c) (index : ℤ) (destItem : Option Thing)
    (hi : ∀ i, destItem = some i → i ∈ c.children) :
    (inContainer c index destItem).Within w (.player id) :=
  inContainer_within (hc.container? h) h hc.1 index hi

/-- The containers that are searched are carried by the player. -/
theorem containerSearch_within (p : Player) (item : Thing) (flags : Flags) (fuel : ℕ) :
    ∀ containers, (∀ c ∈ containers, w.Carried id c) →
      ∀ d, w.containerSearch g p item flags fuel containers = some d →
        d.Within w (.player id) := by
  induction fuel with
  | zero =>
    intro containers _ d hd
    nomatch hd
  | succ fuel ih =>
    rintro (_ | ⟨c, containers⟩) hcarried d hd
    · nomatch hd
    have hc := hcarried c List.mem_cons_self
    -- The containers that `c` holds join the queue.
    have hrest : ∀ subContainers : List Thing,
        (∀ i ∈ subContainers, i ∈ c.children ∧ Thing.isContainer i = true) →
        ∀ c' ∈ containers ++ subContainers, w.Carried id c' := by
      intro subContainers hsub c' hc'
      rcases List.mem_append.1 hc' with hc' | hc'
      · exact hcarried c' (List.mem_cons_of_mem _ hc')
      · exact hc.children (hsub c' hc').1 (hsub c' hc').2
    rw [containerSearch] at hd
    split at hd
    · split at hd
      · rw [← Option.some.inj hd]
        exact hc.within h _ none nofun
      · exact ih _ (hrest _ fun i hi => List.mem_filter.1 hi) d hd
    · -- A stackable item: `c` is searched for a stack with room.
      have hspec := stackIn_spec (g := g) p item c.children 0 []
      split at hd
      · next k i hs =>
        rw [hs] at hspec
        rw [← Option.some.inj hd]
        refine hc.within h k (some i) fun i' hi' => ?_
        exact Option.some.inj hi' ▸ hspec
      · next subContainers k hs =>
        rw [hs] at hspec
        split at hd
        · rw [← Option.some.inj hd]
          exact hc.within h _ none nofun
        · refine ih _ (hrest _ fun i hi => ?_) d hd
          exact (hspec i hi).resolve_left List.not_mem_nil

include hp

/-- A slot, and what is in it. -/
theorem slot_within (index : ℤ) (slot : Slot) (destItem : Option Thing)
    (hi : ∀ i, destItem = some i → p.inventory slot = some i) :
    (⟨.player p.id, index, destItem.map Thing.ref⟩ : Destination).Within w (.player id) := by
  refine ⟨congrArg Cylinder.player (player?_mem hp).2.symm, fun r hr => ?_⟩
  obtain ⟨i, hdest, rfl⟩ := Option.map_eq_some_iff.1 hr
  rw [(player?_mem hp).2]
  exact isIn_of_inventory h hp (hi i hdest)

/-- The slots that are searched hold the containers found. -/
theorem slotSearch_within (item : Thing) (flags : Flags) (slots : List Slot) :
    ∀ containers, (∀ c ∈ containers, w.Carried id c) →
      match w.slotSearch g p item flags slots containers with
      | .inl d => d.Within w (.player id)
      | .inr containers' => ∀ c ∈ containers', w.Carried id c := by
  induction slots with
  | nil => exact fun containers hcarried => hcarried
  | cons slot slots ih =>
    intro containers hcarried
    rw [slotSearch]
    rcases hi : p.inventory slot with _ | i
    · dsimp only
      split_ifs
      · exact slot_within hp h slot.index slot none nofun
      · exact ih containers hcarried
    · dsimp only
      split_ifs with _ _ hcontainer
      · exact ih containers hcarried
      · refine slot_within hp h slot.index slot (some i) fun i' hi' => ?_
        rw [hi, hi']
      · refine ih _ fun c hc => ?_
        rcases List.mem_append.1 hc with hc | hc
        · exact hcarried c hc
        · exact List.mem_singleton.1 hc ▸ carried_inventory hp hi hcontainer
      · exact ih containers hcarried

/-- A player adds to a slot, or to a container that the player carries. -/
theorem playerQueryDestination_within (index : ℤ) (item : Thing) (flags : Flags) :
    (w.playerQueryDestination g p index item none flags).Within w (.player id) := by
  rw [playerQueryDestination]
  split
  · have hslots := slotSearch_within hp h (g := g) item flags
      (Slot.all.filter (· ≠ .storeInbox)) [] (fun c hc => absurd hc List.not_mem_nil)
    split
    · next d hs =>
      rw [hs] at hslots
      exact hslots
    · next containers hs =>
      rw [hs] at hslots
      rcases hd : w.containerSearch g p item flags _ containers with _ | d
      · exact slot_within hp h index .head none nofun
      · exact containerSearch_within h p item flags _ containers hslots d hd
  · have hthing : ∀ i, (Slot.ofIndex index).bind p.inventory = some i →
        ∃ slot, p.inventory slot = some i := by
      intro i hi
      obtain ⟨slot, -, hi⟩ := Option.bind_eq_some_iff.1 hi
      exact ⟨slot, hi⟩
    generalize (Slot.ofIndex index).bind p.inventory = destThing at hthing
    -- The player is the destination, unless a container is in the slot.
    have hhere : (⟨.player p.id, index, (destThing <|> none).map Thing.ref⟩ :
        Destination).Within w (.player id) := by
      rcases destThing with _ | i
      · exact slot_within hp h index .head none nofun
      · obtain ⟨slot, hi⟩ := hthing i rfl
        refine slot_within hp h index slot (some i) fun i' hi' => ?_
        exact hi' ▸ hi
    dsimp only
    split
    · exact hhere
    · split
      · next subCylinder hsub =>
        rw [Option.filter_eq_some_iff] at hsub
        obtain ⟨slot, hi⟩ := hthing _ hsub.1
        have hc := carried_inventory hp hi hsub.2
        exact hc.within h indexWhereEver none nofun
      · exact hhere

end player

/-! ## The cylinder that is added to -/

variable (g w) in
/-- The cylinder that is asked for: at index 254, the one above. -/
def destinationOf (toCylinder : Cylinder) (index : ℤ) (item : Thing) (flags : Flags) : Cylinder :=
  match toCylinder with
  | .player id => .player id
  | .container r =>
    if index = 254 then (w.queryDestination g (.container r) index item none flags).cylinder
    else .container r

/-- A cylinder of the state. -/
def IsThere (w : World) : Cylinder → Prop
  | .player id => (w.player? id).isSome = true
  | .container r => (w.container? r).isSome = true

/-- The destination is in the cylinder that is asked for, or below. -/
theorem queryDestination_within (h : Heap types n w.forest) {toCylinder : Cylinder}
    (hthere : w.IsThere toCylinder) (index : ℤ) (item : Thing) (flags : Flags) :
    (w.queryDestination g toCylinder index item none flags).Within w
      (w.destinationOf g toCylinder index item flags) := by
  rcases toCylinder with id | r
  · obtain ⟨p, hp⟩ := Option.isSome_iff_exists.1 hthere
    rw [queryDestination, hp]
    exact playerQueryDestination_within hp h index item flags
  · obtain ⟨c, hc⟩ := Option.isSome_iff_exists.1 hthere
    obtain ⟨-, rfl⟩ := find_mem (container?_eq_some hc).1
    rw [destinationOf]
    split
    · next hindex =>
      -- Neither the container nor the one above names a thing in it.
      have habove : ∀ index {t : Thing}, w.container? t.ref = some t →
          (inContainer t index none).Within w (.container t.ref) := fun index t ht =>
        inContainer_within ht h (container_self ht) index (by intro i hi; cases hi)
      rw [queryDestination, hc]
      dsimp only
      rw [containerQueryDestination, if_pos hindex]
      split
      · exact habove index hc
      · split
        · next t _ hparents =>
          have ht := parents_containers h (hparents ▸ List.mem_cons_self)
          exact habove indexWhereEver (container?_eq h ht.1 ht.2)
        · exact habove indexWhereEver hc
    · next hindex =>
      rw [queryDestination, hc]
      exact containerQueryDestination_within hc h hindex item flags

end World

end Canary.Inventory
