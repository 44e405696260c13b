import Canary.Houses.Clearing

/-!
# What arrives in the depot

An item of a house that is cleared arrives if it is still somewhere, and can be carried away. What
is in a piece of furniture that is wrapped is nowhere any more, since the furniture is replaced by a
new object and destroyed, with its items on the list of those to be moved; a move from nowhere does
nothing (`cabinet_not_kept`). So a house is cleared as it should be if and only if no furniture
holds something that should arrive, and all that should arrive can be carried away (`kept_iff`).
-/

namespace Canary.Houses.Clearing

open Inventory (Object Ref Thing)
open Map (Position)
open RoseTree
open Wrapping

/-! ## A tile after the walk -/

variable {g : Game} {player : Player} {p : Position} {kit : Ref → Thing}

section walked

variable {types : Catalogue} {s : Wrapping.State} {c : Wrapping.State × List Ref} {t t' x : Thing}

theorem distinct_listed (h : Distinct Object.ref [t]) : Distinct Object.ref (listed types t) := by
  rw [listed]
  split_ifs
  · have hmem : t ∈ [t].flatMap nodes :=
      List.mem_flatMap.2 ⟨t, List.mem_singleton_self t, mem_nodes_self t⟩
    exact (h.children hmem).1
  · exact h

theorem mem_nodes_of_mem_listed (hx : x ∈ listed types t) : x ∈ t.nodes := by
  rw [listed] at hx
  split_ifs at hx
  · exact mem_nodes_of_mem_children hx (mem_nodes_self x)
  · exact List.mem_singleton.1 hx ▸ mem_nodes_self x

theorem ref_mem_keys {ts : List Thing} (hx : x ∈ ts.flatMap nodes) :
    x.ref ∈ keys Object.ref ts := by
  obtain ⟨t, ht, hxt⟩ := List.mem_flatMap.1 hx
  exact mem_keys_of_mem Object.ref ht (key_mem_keys Object.ref hxt)

theorem exists_mem_keys {ts : List Thing} {k : Ref} (hk : k ∈ keys Object.ref ts) :
    ∃ t ∈ ts, k ∈ keys Object.ref [t] := by
  obtain ⟨i, hi, rfl⟩ := (mem_keys Object.ref).1 hk
  obtain ⟨t, ht, hit⟩ := List.mem_flatMap.1 hi
  exact ⟨t, ht, key_mem_keys Object.ref hit⟩

/-- An item puts on the list what should arrive, and the kit that it has become. -/
theorem entries_eq (t : Thing) : entries types kit t =
    (listed types t).map Thing.ref ++
      if types.isWrapable t.label.id then [(kit t.ref).ref] else [] := by
  rw [entries, listed]
  by_cases hw : types.isWrapable t.label.id = true
  · rw [if_pos hw, if_pos hw, if_pos (.inl hw)]
  · rw [if_neg hw, if_neg hw, List.append_nil]
    by_cases hp : t.label.isPickupable types.toItemTable = true
    · rw [if_pos hp, if_neg (not_or.2 ⟨hw, by simp [hp]⟩)]
      rfl
    · rw [if_neg hp, if_pos (.inr (by simp [hp]))]

/-- A kit holds nothing. -/
theorem eq_leaf {n : Ref} {k : Thing} (h : KitOf types n x k) : k = .node k.label [] := by
  have hchildren := h.children
  obtain ⟨o, cs⟩ := k
  exact congrArg _ hchildren

variable (hs : s.Wf types) (h : Walked types p s kit (s.tiles p).items [] c)

include h

theorem perm_afterwards :
    (c.1.tiles p).items.Perm ((s.tiles p).items.map (afterwards types kit)) := by
  obtain ⟨done, hitems, hperm⟩ := h.items
  rw [hitems, List.append_nil]
  exact hperm

/-- An object of the tile is a kit, or has not changed. -/
theorem mem_walked {i : Thing} (hi : i ∈ (c.1.tiles p).items.flatMap nodes) :
    ∃ t ∈ (s.tiles p).items, (types.isWrapable t.label.id = true ∧ i = kit t.ref) ∨
      (types.isWrapable t.label.id = false ∧ i ∈ t.nodes) := by
  obtain ⟨i', hi', hmem⟩ := List.mem_flatMap.1 hi
  obtain ⟨t, ht, rfl⟩ := List.mem_map.1 ((perm_afterwards h).mem_iff.1 hi')
  refine ⟨t, ht, ?_⟩
  rw [afterwards] at hmem
  split_ifs at hmem with hw
  · have hleaf := eq_leaf (h.kits t ht hw)
    rw [hleaf, nodes_node, List.flatMap_nil, List.mem_singleton] at hmem
    exact .inl ⟨hw, hmem.trans hleaf.symm⟩
  · exact .inr ⟨Bool.eq_false_iff.2 hw, hmem⟩

theorem mem_afterwards (ht : t ∈ (s.tiles p).items) :
    afterwards types kit t ∈ (c.1.tiles p).items :=
  (perm_afterwards h).mem_iff.2 (List.mem_map_of_mem ht)

/-- A kit is found on the tile. -/
theorem find?_kit (ht : t ∈ (s.tiles p).items) (hw : types.isWrapable t.label.id = true) :
    find? Object.ref (kit t.ref).ref (c.1.tiles p).items = some (kit t.ref) := by
  have hmem := mem_afterwards h ht
  rw [afterwards, if_pos hw] at hmem
  rw [find?_eq_some_iff Object.ref (h.wf p).heap.distinct]
  exact ⟨List.mem_flatMap.2 ⟨_, hmem, mem_nodes_self _⟩, rfl⟩

/-- What is in an item that is not wrapped is found on the tile. -/
theorem find?_kept (ht : t ∈ (s.tiles p).items) (hw : types.isWrapable t.label.id = false)
    (hx : x ∈ t.nodes) : find? Object.ref x.ref (c.1.tiles p).items = some x := by
  have hmem := mem_afterwards h ht
  rw [afterwards, if_neg (Bool.eq_false_iff.1 hw)] at hmem
  rw [find?_eq_some_iff Object.ref (h.wf p).heap.distinct]
  exact ⟨List.mem_flatMap.2 ⟨t, hmem, hx⟩, rfl⟩

/-- The tile has only what it had, and new objects. -/
theorem keys_walked {k : Ref} (hk : k ∈ keys Object.ref (c.1.tiles p).items) :
    k ∈ keys Object.ref (s.tiles p).items ∨ s.nextRef ≤ k := by
  obtain ⟨i, hi, rfl⟩ := (mem_keys Object.ref).1 hk
  obtain ⟨t, ht, ⟨hw, rfl⟩ | ⟨-, hmem⟩⟩ := mem_walked h hi
  · rcases (h.kits t ht hw).owner with ⟨href, -⟩ | ⟨href, -⟩
    · refine .inl ?_
      have hkey := ref_mem_keys (List.mem_flatMap.2 ⟨t, ht, mem_nodes_self t⟩)
      exact (congrArg (· ∈ _) href).mpr hkey
    · exact .inr href
  · exact .inl (ref_mem_keys (List.mem_flatMap.2 ⟨t, ht, hmem⟩))

/-- Different items have become different things. -/
theorem afterwards_inj (ht : t ∈ (s.tiles p).items) (ht' : t' ∈ (s.tiles p).items)
    (href : (afterwards types kit t).ref = (afterwards types kit t').ref) : t = t' := by
  have hnodup := nodup_refs (h.wf p).heap.distinct
  rw [((perm_afterwards h).map Thing.ref).nodup_iff, List.map_map] at hnodup
  exact List.inj_on_of_nodup_map hnodup ht ht' href

include hs

/-- What was in an item that was wrapped is nowhere on the tile. -/
theorem notMem_lost (ht : t ∈ (s.tiles p).items) (hw : types.isWrapable t.label.id = true)
    (hx : x ∈ t.children) : x.ref ∉ keys Object.ref (c.1.tiles p).items := by
  have hd := (hs p).heap.distinct
  have htmem : t ∈ (s.tiles p).items.flatMap nodes :=
    List.mem_flatMap.2 ⟨t, ht, mem_nodes_self t⟩
  have hxmem : x ∈ (s.tiles p).items.flatMap nodes :=
    List.mem_flatMap.2 ⟨t, ht, mem_nodes_of_mem_children hx (mem_nodes_self x)⟩
  intro hk
  obtain ⟨i, hi, href⟩ := (mem_keys Object.ref).1 hk
  have href : Inventory.Thing.ref i = x.ref := href
  obtain ⟨t', ht', ⟨hw', rfl⟩ | ⟨hw', hmem⟩⟩ := mem_walked h hi
  · rcases (h.kits t' ht' hw').owner with ⟨href', -⟩ | ⟨href', -⟩
    · -- The kit is an item of the tile, and not one in another.
      exact hd.root_ne ht' htmem hx (href'.symm.trans href)
    · have hlt := (hs p).heap.lt x.ref (ref_mem_keys hxmem)
      exact (hlt.trans_le href').ne' href
  · obtain rfl := hd.eq_of_key_eq Object.ref (List.mem_flatMap.2 ⟨t', ht', hmem⟩) hxmem href
    have hkey := ref_mem_keys (List.mem_flatMap.2 ⟨t', List.mem_singleton_self t', hmem⟩)
    have hkey' := ref_mem_keys (List.mem_flatMap.2 ⟨t, List.mem_singleton_self t,
      mem_nodes_of_mem_children hx (mem_nodes_self i)⟩)
    rw [hd.eq_of_mem_keys ht' ht hkey hkey', hw] at hw'
    cases hw'

/-- An address that is on the list because of an item is in this item only. -/
theorem eq_of_mem_entries {r : Ref} (ht : t ∈ (s.tiles p).items) (ht' : t' ∈ (s.tiles p).items)
    (hr : r ∈ entries types kit t)
    (hr' : r ∈ keys Object.ref [t'] ∨ r ∈ entries types kit t') : t = t' := by
  have hd := (hs p).heap.distinct
  have hcases : ∀ i ∈ (s.tiles p).items, r ∈ entries types kit i → r ∈ keys Object.ref [i] ∨
      (s.nextRef ≤ r ∧ r = (afterwards types kit i).ref) := by
    intro i hi hri
    rw [entries_eq, List.mem_append] at hri
    rcases hri with hri | hri
    · obtain ⟨x, hx, rfl⟩ := List.mem_map.1 hri
      exact .inl (ref_mem_keys (List.mem_flatMap.2 ⟨i, List.mem_singleton_self i,
        mem_nodes_of_mem_listed hx⟩))
    · split_ifs at hri with hw
      · obtain rfl := List.mem_singleton.1 hri
        rcases (h.kits i hi hw).owner with ⟨href, -⟩ | ⟨href, -⟩
        · have hkey := ref_mem_keys (List.mem_flatMap.2 ⟨i, List.mem_singleton_self i,
            mem_nodes_self i⟩)
          exact .inl ((congrArg (· ∈ _) href).mpr hkey)
        · exact .inr ⟨href, by rw [afterwards, if_pos hw]⟩
      · exact absurd hri List.not_mem_nil
  have hlt : ∀ i ∈ (s.tiles p).items, r ∈ keys Object.ref [i] → ¬s.nextRef ≤ r := by
    intro i hi hri
    exact not_le.2 ((hs p).heap.lt r (mem_keys_of_mem Object.ref hi hri))
  have hr'' := hr'.elim .inl (hcases t' ht')
  rcases hcases t ht hr with hk | ⟨hle, href⟩
  · rcases hr'' with hk' | ⟨hle', -⟩
    · exact hd.eq_of_mem_keys ht ht' hk hk'
    · exact absurd hle' (hlt t ht hk)
  · rcases hr'' with hk' | ⟨-, href'⟩
    · exact absurd hle (hlt t' ht' hk')
    · exact afterwards_inj h ht ht' (href.symm.trans href')

/-- What is found of the list. -/
theorem find?_entries {r : Ref} (ht : t ∈ (s.tiles p).items) (hr : r ∈ entries types kit t)
    (hx : find? Object.ref r (c.1.tiles p).items = some x) :
    (types.isWrapable t.label.id = false ∧ x ∈ listed types t) ∨
      (types.isWrapable t.label.id = true ∧ x = kit t.ref) := by
  rw [entries_eq, List.mem_append] at hr
  by_cases hw : types.isWrapable t.label.id = true
  · refine .inr ⟨hw, ?_⟩
    rw [if_pos hw] at hr
    rcases hr with hr | hr
    · -- It is nowhere any more.
      obtain ⟨y, hy, rfl⟩ := List.mem_map.1 hr
      have hlisted : listed types t = t.children := by rw [listed, if_pos (.inl hw)]
      have hmem := find?_mem Object.ref hx
      exact absurd (hmem.2 ▸ ref_mem_keys hmem.1) (notMem_lost hs h ht hw (hlisted ▸ hy))
    · rw [List.mem_singleton.1 hr, find?_kit h ht hw] at hx
      exact (Option.some.inj hx).symm
  · refine .inl ⟨Bool.eq_false_iff.2 hw, ?_⟩
    rw [if_neg hw] at hr
    obtain ⟨y, hy, rfl⟩ := List.mem_map.1 (hr.resolve_right List.not_mem_nil)
    rw [find?_kept h ht (Bool.eq_false_iff.2 hw) (mem_nodes_of_mem_listed hy)] at hx
    exact Option.some.inj hx ▸ hy

/-- No item of the list is in another one. -/
theorem apart_list : Apart (c.1.tiles p).items c.2 := by
  have hd := (hs p).heap.distinct
  have hdt : ∀ t ∈ (s.tiles p).items, Distinct Object.ref (listed types t) := fun t ht =>
    distinct_listed (hd.of_mem Object.ref ht)
  rw [h.list]
  refine ⟨List.nodup_flatMap.2 ⟨fun t ht => ?_, ?_⟩, fun r hr x hx r' hr' hk => ?_⟩
  · rw [entries_eq]
    split_ifs with hw
    · refine List.nodup_append'.2 ⟨nodup_refs (hdt t ht), List.nodup_singleton _, ?_⟩
      intro r hr hr'
      obtain ⟨x, hx, rfl⟩ := List.mem_map.1 hr
      have hlisted : listed types t = t.children := by rw [listed, if_pos (.inl hw)]
      refine notMem_lost hs h ht hw (hlisted ▸ hx) ?_
      have hkit := find?_mem Object.ref (find?_kit h ht hw)
      rw [List.mem_singleton.1 hr']
      exact ref_mem_keys hkit.1
    · rw [List.append_nil]
      exact nodup_refs (hdt t ht)
  · refine (List.Nodup.of_map _ (nodup_refs hd)).pairwise_of_forall_ne fun t ht t' ht' hne => ?_
    exact fun r hr hr' => hne (eq_of_mem_entries hs h ht ht' hr (.inr hr'))
  · obtain ⟨t, ht, hr⟩ := List.mem_flatMap.1 hr
    obtain ⟨t', ht', hr'⟩ := List.mem_flatMap.1 hr'
    rcases find?_entries hs h ht hr hx with ⟨hw, hlisted⟩ | ⟨hw, rfl⟩
    · have hkt : r' ∈ keys Object.ref [t] :=
        (keys_sublist (mem_nodes_of_mem_listed hlisted)).subset hk
      obtain rfl := eq_of_mem_entries hs h ht' ht hr' (.inl hkt)
      rw [entries_eq, hw, if_neg Bool.false_ne_true, List.append_nil] at hr'
      obtain ⟨y, hy, rfl⟩ := List.mem_map.1 hr'
      have hkey := ref_mem_keys (List.mem_flatMap.2 ⟨y, List.mem_singleton_self y,
        mem_nodes_self y⟩)
      rw [(hdt t' ht).eq_of_mem_keys hy hlisted hkey hk]
      exact (find?_mem Object.ref hx).2
    · rw [eq_leaf (h.kits t ht hw), keys_node] at hk
      exact (List.mem_singleton.1 hk).trans (find?_mem Object.ref hx).2

end walked

section tile

variable {s : State} {c : Wrapping.State × List Ref} {t x : Thing}

/-- Objects are still in one place only after the walk. -/
theorem State.Wf.walked (hs : s.Wf g.types)
    (h : Walked g.types p s.toState kit (s.tiles p).items [] c) :
    State.Wf g.types { s with toState := c.1 } := by
  have hkeys : ∀ q, ∀ k ∈ keys Object.ref (c.1.tiles q).items,
      k ∈ keys Object.ref (s.tiles q).items ∨ (q = p ∧ s.nextRef ≤ k) := by
    intro q k hk
    by_cases hq : q = p
    · subst hq
      exact (keys_walked h hk).imp_right fun hle => ⟨rfl, hle⟩
    · exact .inl ((h.others q hq).keys.mem_iff.1 hk)
  have hlt : ∀ q, ∀ k ∈ keys Object.ref (s.tiles q).items, ¬s.nextRef ≤ k :=
    fun q k hk => not_le.2 ((hs.tiles q).heap.lt k hk)
  refine ⟨h.wf, hs.distinct, fun guid k hk => (hs.lt guid k hk).trans_le h.nextRef,
    fun q q' hne k hk hk' => ?_, fun q guid k hk hk' => ?_, hs.inbox_inbox⟩
  · rcases hkeys q k hk with hq | ⟨hq, hle⟩
    · rcases hkeys q' k hk' with hq' | ⟨-, hle'⟩
      · exact hs.tile_tile q q' hne hq hq'
      · exact hlt q k hq hle'
    · rcases hkeys q' k hk' with hq' | ⟨hq', -⟩
      · exact hlt q' k hq' hle
      · exact hne (hq.trans hq'.symm)
  · rcases hkeys q k hk with hq | ⟨-, hle⟩
    · exact hs.tile_inbox q guid hq hk'
    · exact absurd hle (not_le.2 (hs.lt guid k hk'))

/-- A kit can be carried away, and is not a stack. -/
theorem kit_carriable {types : Catalogue} {n : Ref} {k : Thing} (h : KitOf types n x k) :
    Carriable types k ∧ k.label.isStackable types.toItemTable = false := by
  have hstack : k.label.isStackable types.toItemTable = false := by
    rw [Object.isStackable, h.id]
    exact types.kit_stackable
  refine ⟨⟨?_, ?_, fun hs => ?_⟩, hstack⟩
  · rw [Object.isPickupable, h.id]
    exact types.kit_pickupable
  · rw [Object.isMovable, h.id]
    exact types.kit_movable
  · rw [hstack] at hs
    cases hs

/-- The same item, with its count and what it holds. -/
structure Same (x z : Thing) : Prop where
  ref : z.ref = x.ref
  children : z.children = x.children
  count : z.label.count = x.label.count

/-- What becomes of tiles that are cleared, and what arrives from them. -/
structure Cleared (g : Game) (player : Player) (houseTiles : List Position) (s : State)
    (kit : Ref → Thing) (s' : State) : Prop where
  wf : s'.Wf g.types
  nextRef : s.nextRef ≤ s'.nextRef
  others : ∀ q ∉ houseTiles, Alike g.types (s.tiles q).items (s'.tiles q).items
  stay : ∀ guid, (s.inbox guid).children ⊆ (s'.inbox guid).children
  kits : ∀ p ∈ houseTiles, ∀ t ∈ (s.tiles p).items, g.types.isWrapable t.label.id = true →
    KitOf g.types s.nextRef t (kit t.ref) ∧ (kit t.ref).ref < s'.nextRef
  inj : ∀ p ∈ houseTiles, ∀ t ∈ (s.tiles p).items, g.types.isWrapable t.label.id = true →
    ∀ p' ∈ houseTiles, ∀ t' ∈ (s.tiles p').items, g.types.isWrapable t'.label.id = true →
      (kit t.ref).ref = (kit t'.ref).ref → t.ref = t'.ref
  arrive : ∀ p ∈ houseTiles, ∀ t ∈ (s.tiles p).items, g.types.isWrapable t.label.id = false →
    ∀ x ∈ listed g.types t, Carriable g.types x →
      ∀ targetPlayer, g.targetPlayer player x = some targetPlayer →
        ∃ z ∈ (s'.inbox targetPlayer.guid).children, Same x z
  kits_arrive : ∀ p ∈ houseTiles, ∀ t ∈ (s.tiles p).items,
    g.types.isWrapable t.label.id = true →
      ∀ targetPlayer, g.targetPlayer player (kit t.ref) = some targetPlayer →
        kit t.ref ∈ (s'.inbox targetPlayer.guid).children
  only : ∀ guid, ∀ k ∈ keys Object.ref [s'.inbox guid], k ∈ keys Object.ref [s.inbox guid] ∨
    (∃ p ∈ houseTiles, ∃ t ∈ (s.tiles p).items, g.types.isWrapable t.label.id = false ∧
      ∃ x ∈ listed g.types t, Carriable g.types x ∧ k ∈ keys Object.ref [x]) ∨
    ∃ p ∈ houseTiles, ∃ t ∈ (s.tiles p).items, g.types.isWrapable t.label.id = true ∧
      k = (kit t.ref).ref
  fixed : ∀ p ∈ houseTiles, ∀ t ∈ (s.tiles p).items, g.types.isWrapable t.label.id = false →
    t.label.isPickupable g.types.toItemTable = false → ∃ t' ∈ (s'.tiles p).items, t'.ref = t.ref

theorem transferTile_spec (hs : s.Wf g.types)
    (haccept : g.acceptsAll player p { s with toState := (listItems g.types p s.toState).1 }
      (listItems g.types p s.toState).2 = true) :
    ∃ kit, Cleared g player [p] s kit (g.transferTile player s p) := by
  obtain ⟨kit, h⟩ := walked_listItems (p := p) hs.tiles
  rw [Game.transferTile]
  generalize hc : listItems g.types p s.toState = c at h haccept
  obtain ⟨s', moveItemList⟩ := c
  dsimp only at h haccept ⊢
  have hapart := apart_list hs.tiles h
  obtain ⟨hwf, hnext, htiles, hinbox, hstay⟩ :=
    sendAll_spec (hs.walked h) hapart haccept
  -- What the walk listed and the recipient may carry is in the inbox after the loop.
  have harrival : ∀ guid, ∀ r ∈ moveItemList, ∀ x, find? Object.ref r (s'.tiles p).items = some x →
      (g.targetPlayer player x).map Player.guid = some guid → Carriable g.types x →
      g.moveItem x x.label.getItemCount ∈
        ((moveItemList.foldl (g.sendItem player p)
          { s with toState := s' }).inbox guid).children := by
    intro guid r hr x hx htarget hcarriable
    rw [hinbox guid, children_node, List.mem_append, List.mem_reverse, List.mem_filterMap]
    refine .inl ⟨r, hr, ?_⟩
    rw [Game.arrival, hx, Option.bind_some, if_pos ⟨htarget, hcarriable⟩]
  have hmem : ∀ t ∈ (s.tiles p).items, ∀ r ∈ entries g.types kit t, r ∈ moveItemList := by
    intro t ht r hr
    have hlist : moveItemList = _ := h.list
    rw [hlist]
    exact List.mem_flatMap.2 ⟨t, ht, hr⟩
  have hsingle : ∀ {q}, q ∈ [p] → q = p := List.mem_singleton.1
  -- The fields of `Cleared`, in their order.
  refine ⟨kit, hwf, ?_, fun q hq => ?_, fun guid => ?_, fun q hq t ht hw => ?_,
    fun q hq t ht hw q' hq' t' ht' hw' href => ?_,
    fun q hq t ht hw x hx hcarriable targetPlayer htarget => ?_,
    fun q hq t ht hw targetPlayer htarget => ?_, fun guid k hk => ?_, fun q hq t ht hw hp => ?_⟩
  · rw [hnext]
    exact h.nextRef
  · have hq := List.ne_of_not_mem_cons hq
    rw [htiles q hq]
    exact h.others q hq
  · rw [hinbox guid, children_node]
    exact List.subset_append_right _ _
  · obtain rfl := hsingle hq
    refine ⟨h.kits t ht hw, ?_⟩
    rw [hnext]
    exact (h.wf q).heap.lt _ (ref_mem_keys (find?_mem Object.ref (find?_kit h ht hw)).1)
  · obtain rfl := hsingle hq
    obtain rfl := hsingle hq'
    rw [afterwards_inj h ht ht' (by rw [afterwards, afterwards, if_pos hw, if_pos hw', href])]
  · obtain rfl := hsingle hq
    have hfind := find?_kept h ht hw (mem_nodes_of_mem_listed hx)
    have hentry : x.ref ∈ entries g.types kit t := by
      rw [entries_eq]
      exact List.mem_append_left _ (List.mem_map_of_mem hx)
    obtain ⟨href, hchildren, hcount, -⟩ := moveItem_spec (h.wf q) (find?_mem Object.ref hfind).1
    exact ⟨_, harrival _ _ (hmem t ht _ hentry) x hfind (by rw [htarget]; rfl) hcarriable,
      ⟨href, hchildren, hcount⟩⟩
  · obtain rfl := hsingle hq
    have hfind := find?_kit h ht hw
    have hentry : (kit t.ref).ref ∈ entries g.types kit t := by
      rw [entries_eq, if_pos hw]
      exact List.mem_append_right _ (List.mem_singleton_self _)
    obtain ⟨hcarriable, hstack⟩ := kit_carriable (h.kits t ht hw)
    have hsame : g.moveItem (kit t.ref) (kit t.ref).label.getItemCount = kit t.ref := by
      rw [Game.moveItem, if_neg (Bool.eq_false_iff.1 hstack)]
    rw [← hsame]
    exact harrival _ _ (hmem t ht _ hentry) _ hfind (by rw [htarget]; rfl) hcarriable
  -- Nothing else is in an inbox: the new things are the listed ones and the kits.
  · have hself : keys Object.ref [s.inbox guid] =
        (s.inbox guid).label.ref :: keys Object.ref (s.inbox guid).children := by
      generalize s.inbox guid = i
      obtain ⟨o, cs⟩ := i
      exact keys_node ..
    rw [hinbox guid, keys_node, keys_append, List.mem_cons, List.mem_append] at hk
    rw [hself, List.mem_cons]
    rcases hk with hk | hk | hk
    · exact .inl (.inl hk)
    · obtain ⟨z, hz, hkz⟩ := exists_mem_keys hk
      rw [List.mem_reverse, List.mem_filterMap] at hz
      obtain ⟨r, hr, hz⟩ := hz
      obtain ⟨x, hx, hz⟩ := Option.bind_eq_some_iff.1 hz
      split_ifs at hz with hcond
      obtain rfl := Option.some.inj hz
      rw [(moveItem_spec (h.wf p) (find?_mem Object.ref hx).1).2.2.2] at hkz
      have hlist : moveItemList = _ := h.list
      rw [hlist] at hr
      obtain ⟨t, ht, hr⟩ := List.mem_flatMap.1 hr
      refine .inr ?_
      -- A listed entry is part of a thing that is left, or the kit of a wrapped one.
      rcases find?_entries hs.tiles h ht hr hx with ⟨hw, hlisted⟩ | ⟨hw, rfl⟩
      · exact .inl ⟨p, List.mem_singleton_self p, t, ht, hw, x, hlisted, hcond.2, hkz⟩
      · rw [eq_leaf (h.kits t ht hw), keys_node] at hkz
        exact .inr ⟨p, List.mem_singleton_self p, t, ht, hw, List.mem_singleton.1 hkz⟩
    · exact .inl (.inr hk)
  · obtain rfl := hsingle hq
    have hkept : t ∈ (s'.tiles q).items := by
      have hmem := mem_afterwards h ht
      rwa [afterwards, hw, if_neg Bool.false_ne_true] at hmem
    have hkey := ref_mem_keys (List.mem_flatMap.2 ⟨t, List.mem_singleton_self t,
      mem_nodes_self t⟩)
    -- An item that is not taken is no entry of another item either.
    refine hstay t hkept fun hr => ?_
    have hlist : moveItemList = _ := h.list
    rw [hlist] at hr
    obtain ⟨t', ht', hr⟩ := List.mem_flatMap.1 hr
    obtain rfl := eq_of_mem_entries hs.tiles h ht' ht hr (.inl hkey)
    rw [entries, hw, hp, if_neg Bool.false_ne_true, if_neg Bool.false_ne_true] at hr
    obtain ⟨x, hx, href⟩ := List.mem_map.1 hr
    have hmem : t' ∈ (s.tiles q).items.flatMap nodes :=
      List.mem_flatMap.2 ⟨t', ht', mem_nodes_self t'⟩
    exact (hs.tiles q).heap.distinct.root_ne ht' hmem hx href.symm

end tile

/-! ## Items that look different -/

section looks

variable {types : Catalogue} {t t' x x' : Thing}

theorem isPickupable_of_looks (h : Looks types t t') :
    t'.label.isPickupable types.toItemTable = t.label.isPickupable types.toItemTable :=
  h.id.isPickupable_eq

/-- What should arrive looks the same, or is the item itself. -/
theorem listed_of_looks (h : Looks types t t') (hx : x ∈ listed types t) :
    ∃ x' ∈ listed types t', Looks types x x' := by
  rw [listed, h.id.isWrapable_eq, isPickupable_of_looks h]
  rw [listed] at hx
  split_ifs at hx ⊢ with hcond
  · exact ⟨x, h.children ▸ hx, .refl x⟩
  · obtain rfl := List.mem_singleton.1 hx
    exact ⟨t', List.mem_singleton_self t', h⟩

theorem listed_of_looks_back (h : Looks types t t') (hx' : x' ∈ listed types t') :
    ∃ x ∈ listed types t, Looks types x x' := by
  rw [listed, h.id.isWrapable_eq, isPickupable_of_looks h] at hx'
  rw [listed]
  split_ifs at hx' ⊢ with hcond
  · exact ⟨x', h.children ▸ hx', .refl x'⟩
  · obtain rfl := List.mem_singleton.1 hx'
    exact ⟨t, List.mem_singleton_self t, h⟩

/-- A bed is never carried away, and nothing else looks different. -/
theorem carriable_of_looks (h : Looks types t t') : Carriable types t' ↔ Carriable types t := by
  cases hbed : types.isBed t.label.id with
  | false =>
    have hid : t'.label.id = t.label.id := h.id.eq hbed
    have hcount : t'.label.getItemCount = t.label.getItemCount := by
      rw [Object.getItemCount, Object.getItemCount, h.count]
    rw [Carriable, Carriable, hcount, Object.isPickupable, Object.isMovable, Object.isStackable,
      hid]
    rfl
  | true =>
    have hpickupable : t.label.isPickupable types.toItemTable = false :=
      types.bed_pickupable _ (of_decide_eq_true hbed)
    rw [Carriable, Carriable, isPickupable_of_looks h, hpickupable]
    exact iff_of_false (fun h => Bool.false_ne_true h.1) fun h => Bool.false_ne_true h.1

theorem targetPlayer_of_ownerId (hid : Game.getOwnerId t' = Game.getOwnerId t) :
    g.targetPlayer player t' = g.targetPlayer player t := by
  rw [Game.targetPlayer, Game.targetPlayer, Game.isOwner, Game.isOwner, Game.isOwnerId,
    Game.isOwnerId, Game.isOwnerId, Game.isOwnerId, hid]

theorem itemOwnerId_congr {o o' : Object} (howner : o'.ints .owner = o.ints .owner) :
    o'.itemOwnerId = o.itemOwnerId := by
  rw [Object.itemOwnerId, Object.itemOwnerId, Items.Item.hasAttribute, Items.Item.hasAttribute,
    Items.Item.getAttribute, Items.Item.getAttribute, howner]

/-- The owner of an item is that of the item, or of something in it. -/
theorem targetPlayer_congr (howner : t'.label.ints .owner = t.label.ints .owner)
    (hchildren : t'.children = t.children) (hstorage : t'.label.storage = t.label.storage) :
    g.targetPlayer player t' = g.targetPlayer player t := by
  refine targetPlayer_of_ownerId ?_
  obtain ⟨o, cs⟩ := t
  obtain ⟨o', cs'⟩ := t'
  rw [children_node, children_node] at hchildren
  rw [label_node, label_node] at howner hstorage
  rw [Game.getOwnerId, Game.getOwnerId, Inventory.Thing.getOwnerId, Inventory.Thing.getOwnerId,
    hchildren, hstorage, itemOwnerId_congr howner]

/-- Who a kit is sent to. A new object has no owner. -/
theorem targetPlayer_kit {n : Ref} {k : Thing} (hk : KitOf g.types n t k) :
    g.targetPlayer player k = some player ∨
      g.targetPlayer player k = g.targetPlayer player t := by
  have hid : Game.getOwnerId k = k.label.itemOwnerId.setWidth 32 := by
    have hstorage := hk.storage
    rw [eq_leaf hk] at hstorage ⊢
    rw [label_node] at hstorage
    rw [Game.getOwnerId, Inventory.Thing.getOwnerId, hstorage, label_node]
    split_ifs with hne h
    · rfl
    · cases h
    · rw [not_not.1 hne]
  have hnobody : k.label.itemOwnerId = 0 → g.targetPlayer player k = some player := by
    intro hzero
    rw [hzero] at hid
    rw [Game.targetPlayer, if_neg fun h => h.1 hid]
  rcases hk.owner with ⟨-, howner⟩ | ⟨-, howner⟩
  · by_cases hzero : k.label.itemOwnerId = 0
    · exact .inl (hnobody hzero)
    · refine .inr (targetPlayer_of_ownerId ?_)
      have hitem := itemOwnerId_congr howner
      rw [hid, hitem]
      rw [hitem] at hzero
      obtain ⟨o, cs⟩ := t
      rw [label_node] at hzero
      rw [Game.getOwnerId, Inventory.Thing.getOwnerId, if_pos hzero, label_node]
  · refine .inl (hnobody ?_)
    rw [Object.itemOwnerId, Items.Item.hasAttribute, howner]
    rfl

theorem targetPlayer_of_looks (h : Looks g.types t t') :
    g.targetPlayer player t' = g.targetPlayer player t :=
  targetPlayer_congr h.owner h.children h.storage

theorem Same.of_looks {z : Thing} (h : Looks types x x') (hz : Same x' z) : Same x z :=
  ⟨hz.ref.trans h.ref, hz.children.trans h.children, hz.count.trans h.count⟩

/-- The kit that an item becomes that looked different before. -/
theorem kitOf_of_looks {n n' : Ref} {k : Thing} (h : Looks types t t') (hk : KitOf types n' t' k)
    (hn : n ≤ n') : KitOf types n t k := by
  refine ⟨hk.id, hk.children, hk.storage, ⟨?_, fun hcount => ?_⟩, ?_⟩
  · obtain ⟨id, hid, hunWrapId⟩ := hk.recorded.id
    exact ⟨id, h.id.trans hid, hunWrapId⟩
  · rw [hk.recorded.amount (h.count ▸ hcount), h.count]
  · rcases hk.owner with ⟨href, howner⟩ | ⟨href, howner⟩
    · exact .inl ⟨href.trans h.ref, howner.trans h.owner⟩
    · exact .inr ⟨hn.trans href, howner⟩

end looks

/-! ## All tiles -/

namespace Cleared

variable {s s' f : State} {houseTiles : List Position}

theorem nil (hs : s.Wf g.types) (kit : Ref → Thing) : Cleared g player [] s kit s where
  wf := hs
  nextRef := le_rfl
  others _ _ := .refl _
  stay _ := List.Subset.refl _
  kits _ hp := absurd hp List.not_mem_nil
  inj _ hp := absurd hp List.not_mem_nil
  arrive _ hp := absurd hp List.not_mem_nil
  kits_arrive _ hp := absurd hp List.not_mem_nil
  only _ _ hk := .inl hk
  fixed _ hp := absurd hp List.not_mem_nil

/-- Other tiles are cleared after a first one. -/
theorem cons {kit₁ kit₂ : Ref → Thing} (hs : s.Wf g.types) (hp : p ∉ houseTiles)
    (h₁ : Cleared g player [p] s kit₁ s') (h₂ : Cleared g player houseTiles s' kit₂ f) :
    ∃ kit, Cleared g player (p :: houseTiles) s kit f := by
  have hself : p ∈ [p] := List.mem_singleton_self p
  have hne : ∀ q ∈ houseTiles, q ∉ [p] := fun q hq hqp => hp (List.mem_singleton.1 hqp ▸ hq)
  have hroot : ∀ {q} {t : Thing}, t ∈ (s.tiles q).items →
      t.ref ∈ keys Object.ref (s.tiles q).items :=
    fun ht => ref_mem_keys (List.mem_flatMap.2 ⟨_, ht, mem_nodes_self _⟩)
  -- The items of the other tiles are those that there were before.
  have hforth : ∀ q ∈ houseTiles, ∀ t ∈ (s.tiles q).items,
      ∃ t' ∈ (s'.tiles q).items, Looks g.types t t' :=
    fun q hq => (h₁.others q (hne q hq)).forth
  have hback : ∀ q ∈ houseTiles, ∀ t' ∈ (s'.tiles q).items,
      ∃ t ∈ (s.tiles q).items, Looks g.types t t' :=
    fun q hq => (h₁.others q (hne q hq)).back
  let kit : Ref → Thing := fun r => if r ∈ (s.tiles p).items.map Thing.ref then kit₁ r else kit₂ r
  have hkit₁ : ∀ t ∈ (s.tiles p).items, kit t.ref = kit₁ t.ref := fun t ht =>
    if_pos (List.mem_map_of_mem ht)
  have hkit₂ : ∀ q ∈ houseTiles, ∀ t ∈ (s.tiles q).items, ∀ t', Looks g.types t t' →
      kit t.ref = kit₂ t'.ref := by
    intro q hq t ht t' hlooks
    rw [hlooks.ref]
    refine if_neg fun hmem => ?_
    obtain ⟨i, hi, href⟩ := List.mem_map.1 hmem
    have hpq : p ≠ q := fun he => hp (he ▸ hq)
    exact hs.tile_tile p q hpq (href ▸ hroot hi) (hroot ht)
  -- Kits of the first tile are no kits of the others.
  have hcross : ∀ t ∈ (s.tiles p).items, g.types.isWrapable t.label.id = true →
      ∀ q ∈ houseTiles, ∀ t' ∈ (s.tiles q).items, g.types.isWrapable t'.label.id = true →
        (kit t.ref).ref = (kit t'.ref).ref → t.ref = t'.ref := by
    intro t ht hw q hq t' ht' hw' href
    obtain ⟨t'', ht'', hlooks⟩ := hforth q hq t' ht'
    rw [hkit₁ t ht, hkit₂ q hq t' ht' t'' hlooks] at href
    obtain ⟨hof, hlt⟩ := h₁.kits p hself t ht hw
    obtain ⟨hof', -⟩ := h₂.kits q hq t'' ht'' (hlooks.id.isWrapable_eq.trans hw')
    rcases hof'.owner with ⟨href', -⟩ | ⟨hle', -⟩
    · rcases hof.owner with ⟨href₁, -⟩ | ⟨hle, -⟩
      · exact href₁.symm.trans (href.trans (href'.trans hlooks.ref))
      · have hlt' := (hs.tiles q).heap.lt t'.ref (hroot ht')
        rw [href, href', hlooks.ref] at hle
        exact absurd hle (not_le.2 hlt')
    · exact absurd hle' (not_le.2 (href ▸ hlt))
  refine ⟨kit, h₂.wf, h₁.nextRef.trans h₂.nextRef, fun q hq => ?_,
    fun guid => List.Subset.trans (h₁.stay guid) (h₂.stay guid), fun q hq t ht hw => ?_,
    fun q hq t ht hw q' hq' t' ht' hw' href => ?_,
    fun q hq t ht hw x hx hcarriable targetPlayer htarget => ?_,
    fun q hq t ht hw targetPlayer htarget => ?_, fun guid k hk => ?_, fun q hq t ht hw hpick => ?_⟩
  · rw [List.mem_cons, not_or] at hq
    exact (h₁.others q fun h => hq.1 (List.mem_singleton.1 h)).trans (h₂.others q hq.2)
  · rcases List.mem_cons.1 hq with rfl | hq
    · rw [hkit₁ t ht]
      obtain ⟨hof, hlt⟩ := h₁.kits q hself t ht hw
      exact ⟨hof, hlt.trans_le h₂.nextRef⟩
    · obtain ⟨t', ht', hlooks⟩ := hforth q hq t ht
      rw [hkit₂ q hq t ht t' hlooks]
      obtain ⟨hof, hlt⟩ := h₂.kits q hq t' ht' (hlooks.id.isWrapable_eq.trans hw)
      exact ⟨kitOf_of_looks hlooks hof h₁.nextRef, hlt⟩
  · rcases List.mem_cons.1 hq with rfl | hq₁
    · rcases List.mem_cons.1 hq' with rfl | hq'
      · rw [hkit₁ t ht, hkit₁ t' ht'] at href
        exact h₁.inj q' hself t ht hw q' hself t' ht' hw' href
      · exact hcross t ht hw q' hq' t' ht' hw' href
    · rcases List.mem_cons.1 hq' with rfl | hq'
      · exact (hcross t' ht' hw' q hq₁ t ht hw href.symm).symm
      · obtain ⟨i, hi, hlooks⟩ := hforth q hq₁ t ht
        obtain ⟨i', hi', hlooks'⟩ := hforth q' hq' t' ht'
        rw [hkit₂ q hq₁ t ht i hlooks, hkit₂ q' hq' t' ht' i' hlooks'] at href
        have hii' := h₂.inj q hq₁ i hi (hlooks.id.isWrapable_eq.trans hw) q' hq' i' hi'
          (hlooks'.id.isWrapable_eq.trans hw') href
        exact hlooks.ref.symm.trans (hii'.trans hlooks'.ref)
  · rcases List.mem_cons.1 hq with rfl | hq
    · obtain ⟨z, hz, hsame⟩ := h₁.arrive q hself t ht hw x hx hcarriable targetPlayer htarget
      exact ⟨z, h₂.stay _ hz, hsame⟩
    · obtain ⟨t', ht', hlooks⟩ := hforth q hq t ht
      obtain ⟨x', hx', hlooks'⟩ := listed_of_looks hlooks hx
      obtain ⟨z, hz, hsame⟩ := h₂.arrive q hq t' ht' (hlooks.id.isWrapable_eq.trans hw) x' hx'
        ((carriable_of_looks hlooks').2 hcarriable) targetPlayer
        ((targetPlayer_of_looks hlooks').trans htarget)
      exact ⟨z, hz, hsame.of_looks hlooks'⟩
  · rcases List.mem_cons.1 hq with rfl | hq
    · rw [hkit₁ t ht] at htarget ⊢
      exact h₂.stay _ (h₁.kits_arrive q hself t ht hw targetPlayer htarget)
    · obtain ⟨t', ht', hlooks⟩ := hforth q hq t ht
      rw [hkit₂ q hq t ht t' hlooks] at htarget ⊢
      exact h₂.kits_arrive q hq t' ht' (hlooks.id.isWrapable_eq.trans hw) targetPlayer htarget
  · rcases h₂.only guid k hk with hk | ⟨q, hq, t', ht', hw, x', hx', hcarriable, hk⟩ |
      ⟨q, hq, t', ht', hw, rfl⟩
    · rcases h₁.only guid k hk with hk | ⟨q, hq, t, ht, hw, x, hx, hcarriable, hk⟩ |
        ⟨q, hq, t, ht, hw, rfl⟩
      · exact .inl hk
      · obtain rfl := List.mem_singleton.1 hq
        exact .inr (.inl ⟨q, List.mem_cons_self, t, ht, hw, x, hx, hcarriable, hk⟩)
      · obtain rfl := List.mem_singleton.1 hq
        exact .inr (.inr ⟨q, List.mem_cons_self, t, ht, hw, by rw [hkit₁ t ht]⟩)
    · obtain ⟨t, ht, hlooks⟩ := hback q hq t' ht'
      obtain ⟨x, hx, hlooks'⟩ := listed_of_looks_back hlooks hx'
      exact .inr (.inl ⟨q, List.mem_cons_of_mem _ hq, t, ht, hlooks.id.isWrapable_eq.symm.trans hw,
        x, hx, (carriable_of_looks hlooks').1 hcarriable, hlooks'.keys_eq ▸ hk⟩)
    · obtain ⟨t, ht, hlooks⟩ := hback q hq t' ht'
      exact .inr (.inr ⟨q, List.mem_cons_of_mem _ hq, t, ht,
        hlooks.id.isWrapable_eq.symm.trans hw, by rw [hkit₂ q hq t ht t' hlooks]⟩)
  · rcases List.mem_cons.1 hq with rfl | hq
    · obtain ⟨t', ht', href⟩ := h₁.fixed q hself t ht hw hpick
      obtain ⟨t'', ht'', hlooks⟩ := (h₂.others q hp).forth t' ht'
      exact ⟨t'', ht'', hlooks.ref.trans href⟩
    · obtain ⟨t', ht', hlooks⟩ := hforth q hq t ht
      obtain ⟨t'', ht'', href⟩ := h₂.fixed q hq t' ht' (hlooks.id.isWrapable_eq.trans hw)
        ((isPickupable_of_looks hlooks).trans hpick)
      exact ⟨t'', ht'', href.trans hlooks.ref⟩

end Cleared

/-- Tiles that are cleared one after the other. -/
theorem transferTiles_spec {s : State} {houseTiles : List Position} (hs : s.Wf g.types)
    (hnodup : houseTiles.Nodup) (haccept : g.acceptsTiles player s houseTiles = true) :
    ∃ kit, Cleared g player houseTiles s kit (g.transferTiles player houseTiles s) := by
  induction houseTiles generalizing s with
  | nil =>
    exact ⟨fun r => .node { class_ := .item, id := 0, ref := r } [], .nil hs _⟩
  | cons p houseTiles ih =>
    obtain ⟨hp, hnodup⟩ := List.nodup_cons.1 hnodup
    rw [Game.acceptsTiles, Bool.and_eq_true] at haccept
    obtain ⟨kit₁, h₁⟩ := transferTile_spec hs haccept.1
    obtain ⟨kit₂, h₂⟩ := ih h₁.wf hnodup haccept.2
    exact h₁.cons hs hp h₂

/-! ## What is kept -/

/-- The items that the loop over a tile reads. -/
def visitedItems (types : Catalogue) (p : Position) (s : Wrapping.State) : List Ref :=
  (List.range (s.tiles p).items.length).filterMap fun k =>
    ((turns types p s k).1.tiles p).items[k]?.map Thing.ref

/-- The items that the loops over the tiles read. -/
def Game.visits (g : Game) (player : Player) (s : State) : List Position → List Ref
  | [] => []
  | p :: houseTiles =>
    visitedItems g.types p s.toState ++ visits g player (g.transferTile player s p) houseTiles

def House.visits (house : House) (g : Game) (player : Player) (s : State) : List Ref :=
  if house.townId = 0 then [] else g.visits player s house.houseTiles

/-- An item is in this inbox, with its count and what it holds, and nowhere else. -/
structure Arrives (s : State) (guid : BitVec 32) (x : Thing) : Prop where
  inbox : ∃ z ∈ (s.inbox guid).children, Same x z
  others : ∀ guid', guid' ≠ guid → x.ref ∉ keys Object.ref [s.inbox guid']
  tiles : ∀ q, x.ref ∉ keys Object.ref (s.tiles q).items

/-- The things of the owner are kept when a house is cleared. -/
structure Kept (g : Game) (player : Player) (house : House) (s : State) : Prop where
  visited : (house.visits g player s).Perm
    (house.houseTiles.flatMap fun p => (s.tiles p).items.map Thing.ref)
  arrived : ∀ p ∈ house.houseTiles, ∀ t ∈ (s.tiles p).items, ∀ x ∈ listed g.types t,
    ∀ targetPlayer, g.targetPlayer player x = some targetPlayer →
      Arrives (house.transferToDepot g player s).2 targetPlayer.guid x
  kits : ∃ kit : Ref → Thing, (∀ p ∈ house.houseTiles, ∀ t ∈ (s.tiles p).items,
      g.types.isWrapable t.label.id = true → KitOf g.types s.nextRef t (kit t.ref) ∧
        ∀ targetPlayer, g.targetPlayer player t = some targetPlayer →
          Arrives (house.transferToDepot g player s).2 player.guid (kit t.ref) ∨
            Arrives (house.transferToDepot g player s).2 targetPlayer.guid (kit t.ref)) ∧
    ∀ p ∈ house.houseTiles, ∀ t ∈ (s.tiles p).items, g.types.isWrapable t.label.id = true →
      ∀ p' ∈ house.houseTiles, ∀ t' ∈ (s.tiles p').items,
        g.types.isWrapable t'.label.id = true → (kit t.ref).ref = (kit t'.ref).ref → t.ref = t'.ref
  fixed : ∀ p ∈ house.houseTiles, ∀ t ∈ (s.tiles p).items,
    g.types.isWrapable t.label.id = false → t.label.isPickupable g.types.toItemTable = false →
      ∃ t' ∈ ((house.transferToDepot g player s).2.tiles p).items, t'.ref = t.ref
  others : ∀ q ∉ house.houseTiles,
    Alike g.types (s.tiles q).items ((house.transferToDepot g player s).2.tiles q).items
  stay : ∀ guid,
    (s.inbox guid).children ⊆ ((house.transferToDepot g player s).2.inbox guid).children

section kept

variable {s f : State} {houseTiles : List Position} {t x : Thing}

/-- All that is read by index is the list. -/
theorem filterMap_getElem?_range {α : Type*} (l : List α) :
    ((List.range l.length).filterMap fun k => l[k]?) = l := by
  have hmap : ((List.range l.length).map fun k => l[k]?) = l.map some :=
    List.ext_getElem (by simp) fun k hk hk' => by simp
  have hid : ((List.range l.length).filterMap fun k => l[k]?) =
      ((List.range l.length).map fun k => l[k]?).filterMap id := by
    rw [List.filterMap_map]
    rfl
  rw [hid, hmap, List.filterMap_map]
  exact List.filterMap_some

theorem visitedItems_eq {types : Catalogue} {s : Wrapping.State} (hs : s.Wf types) :
    visitedItems types p s = (s.tiles p).items.map Thing.ref := by
  have hread : ∀ k ∈ List.range (s.tiles p).items.length,
      (((turns types p s k).1.tiles p).items[k]?.map Thing.ref) =
        ((s.tiles p).items.map Thing.ref)[k]? := by
    intro k hk
    rw [turns_read hs (List.mem_range.1 hk), List.getElem?_map]
  rw [visitedItems, List.filterMap_congr hread]
  have hlength : (s.tiles p).items.length = ((s.tiles p).items.map Thing.ref).length :=
    (List.length_map ..).symm
  rw [hlength]
  exact filterMap_getElem?_range _

/-- The roots of another tile are those that there were. -/
theorem perm_refs {types : Catalogue} {n n' : Ref} {ts ts' : List Thing} (h : Alike types ts ts')
    (hts : Sound types n ts) (hts' : Sound types n' ts') :
    (ts'.map Thing.ref).Perm (ts.map Thing.ref) := by
  refine (List.perm_ext_iff_of_nodup (nodup_refs hts'.heap.distinct)
    (nodup_refs hts.heap.distinct)).2 fun r => ?_
  rw [List.mem_map, List.mem_map]
  constructor
  · rintro ⟨t', ht', rfl⟩
    obtain ⟨t, ht, hlooks⟩ := h.back t' ht'
    exact ⟨t, ht, hlooks.ref.symm⟩
  · rintro ⟨t, ht, rfl⟩
    obtain ⟨t', ht', hlooks⟩ := h.forth t ht
    exact ⟨t', ht', hlooks.ref⟩

/-- Each item is visited once. -/
theorem visits_perm (hs : s.Wf g.types) (hnodup : houseTiles.Nodup)
    (haccept : g.acceptsTiles player s houseTiles = true) :
    (g.visits player s houseTiles).Perm
      (houseTiles.flatMap fun p => (s.tiles p).items.map Thing.ref) := by
  induction houseTiles generalizing s with
  | nil => exact .refl _
  | cons p houseTiles ih =>
    obtain ⟨hp, hnodup⟩ := List.nodup_cons.1 hnodup
    rw [Game.acceptsTiles, Bool.and_eq_true] at haccept
    obtain ⟨kit, h⟩ := transferTile_spec hs haccept.1
    rw [Game.visits, visitedItems_eq hs.tiles, List.flatMap_cons]
    refine List.Perm.append_left _ ((ih h.wf hnodup haccept.2).trans ?_)
    refine List.Perm.flatMap_left _ fun q hq => ?_
    have hne : q ∉ [p] := fun hqp => hp (List.mem_singleton.1 hqp ▸ hq)
    exact perm_refs (h.others q hne) (hs.tiles q) (h.wf.tiles q)

theorem arrives_of_mem (hf : f.Wf g.types) {guid : BitVec 32} {z : Thing}
    (hz : z ∈ (f.inbox guid).children) (hsame : Same x z) : Arrives f guid x := by
  have hkey : x.ref ∈ keys Object.ref [f.inbox guid] := by
    rw [← hsame.ref]
    exact key_mem_keys Object.ref (mem_nodes_of_mem_children hz (mem_nodes_self z))
  exact ⟨⟨z, hz, hsame⟩, fun guid' hne hk => hf.inbox_inbox guid' guid hne hk hkey,
    fun q hk => hf.tile_inbox q guid hk hkey⟩

/-- What arrived was not in furniture, and could be carried away. -/
theorem Cleared.arrived_cases (hs : s.Wf g.types) (h : Cleared g player houseTiles s kit f)
    (hp : p ∈ houseTiles) (ht : t ∈ (s.tiles p).items) (hx : x ∈ listed g.types t)
    {guid : BitVec 32} (hk : x.ref ∈ keys Object.ref [f.inbox guid]) :
    g.types.isWrapable t.label.id = false ∧ Carriable g.types x := by
  have hd := (hs.tiles p).heap.distinct
  have hxt : x.ref ∈ keys Object.ref [t] :=
    ref_mem_keys (List.mem_flatMap.2 ⟨t, List.mem_singleton_self t, mem_nodes_of_mem_listed hx⟩)
  have hxp : x.ref ∈ keys Object.ref (s.tiles p).items := mem_keys_of_mem Object.ref ht hxt
  -- An item with the address is this one.
  have hsame : ∀ q, ∀ t' ∈ (s.tiles q).items, x.ref ∈ keys Object.ref [t'] → q = p ∧ t' = t := by
    intro q t' ht' hk'
    have hq : q = p := by
      by_contra hne
      exact hs.tile_tile q p hne (mem_keys_of_mem Object.ref ht' hk') hxp
    subst hq
    exact ⟨rfl, hd.eq_of_mem_keys ht' ht hk' hxt⟩
  rcases h.only guid _ hk with hk | ⟨q, -, t', ht', hw, x', hx', hcarriable, hk⟩ |
    ⟨q, hq, t', ht', hw, href⟩
  · exact absurd hk (hs.tile_inbox p guid hxp)
  · obtain ⟨rfl, rfl⟩ := hsame q t' ht' ((keys_sublist (mem_nodes_of_mem_listed hx')).subset hk)
    have hkey := ref_mem_keys (List.mem_flatMap.2 ⟨x, List.mem_singleton_self x,
      mem_nodes_self x⟩)
    have hdl : Distinct Object.ref (listed g.types t') := distinct_listed (hd.of_mem Object.ref ht)
    rw [hdl.eq_of_mem_keys hx hx' hkey hk]
    exact ⟨hw, hcarriable⟩
  · exfalso
    rcases (h.kits q hq t' ht' hw).1.owner with ⟨hown, -⟩ | ⟨hle, -⟩
    · -- The kit is an item of the tile, and not one in another.
      have hown := href.trans hown
      have hkey := ref_mem_keys (List.mem_flatMap.2 ⟨t', List.mem_singleton_self t',
        mem_nodes_self t'⟩)
      obtain ⟨rfl, rfl⟩ := hsame q t' ht' (hown ▸ hkey)
      rw [listed, if_pos (.inl hw)] at hx
      have hmem : t' ∈ (s.tiles q).items.flatMap nodes :=
        List.mem_flatMap.2 ⟨t', ht', mem_nodes_self t'⟩
      exact hd.root_ne ht' hmem hx hown.symm
    · exact absurd (href ▸ hle) (not_le.2 ((hs.tiles p).heap.lt x.ref hxp))

/-- A kit goes to the owner of the house, or to that of the item. -/
theorem Cleared.kit_arrives (h : Cleared g player houseTiles s kit f) (hp : p ∈ houseTiles)
    (ht : t ∈ (s.tiles p).items) (hw : g.types.isWrapable t.label.id = true)
    {targetPlayer : Player} (htarget : g.targetPlayer player t = some targetPlayer) :
    Arrives f player.guid (kit t.ref) ∨ Arrives f targetPlayer.guid (kit t.ref) := by
  have harrives : ∀ y, g.targetPlayer player (kit t.ref) = some y →
      Arrives f y.guid (kit t.ref) := fun y hy =>
    arrives_of_mem h.wf (h.kits_arrive p hp t ht hw y hy) ⟨rfl, rfl, rfl⟩
  have htargets : g.targetPlayer player (kit t.ref) = some player ∨
      g.targetPlayer player (kit t.ref) = g.targetPlayer player t :=
    targetPlayer_kit (h.kits p hp t ht hw).1
  rcases htargets with hkit | hkit
  · exact .inl (harrives _ hkit)
  · exact .inr (harrives _ (hkit.trans htarget))

/-- A house is cleared as it should be if and only if no furniture holds anything that should
    arrive, and all that should arrive can be carried away. Without a town, nothing is done. -/
theorem kept_iff {house : House} (hs : s.Wf g.types)
    (haccept : g.acceptsTiles player s house.houseTiles = true) :
    Kept g player house s ↔
      (house.townId = 0 → ∀ p ∈ house.houseTiles, (s.tiles p).items = []) ∧
      ∀ p ∈ house.houseTiles, ∀ t ∈ (s.tiles p).items, ∀ x ∈ listed g.types t,
        g.targetPlayer player x ≠ none →
          g.types.isWrapable t.label.id = false ∧ Carriable g.types x := by
  by_cases htown : house.townId = 0
  -- Without a town the function returns at once, so nothing may be on the tiles.
  · have hresult : (house.transferToDepot g player s).2 = s := by
      rw [House.transferToDepot, if_pos htown]
    constructor
    · intro h
      have hempty : ∀ p ∈ house.houseTiles, (s.tiles p).items = [] := by
        have hvisited := h.visited
        rw [House.visits, if_pos htown] at hvisited
        have hnil := List.flatMap_eq_nil_iff.1 hvisited.nil_eq.symm
        exact fun p hp => List.map_eq_nil_iff.1 (hnil p hp)
      refine ⟨fun _ => hempty, fun p hp t ht => ?_⟩
      rw [hempty p hp] at ht
      exact absurd ht List.not_mem_nil
    · rintro ⟨hempty, -⟩
      have hnone : ∀ p ∈ house.houseTiles, ∀ t, t ∉ (s.tiles p).items := fun p hp t ht =>
        List.not_mem_nil (hempty htown p hp ▸ ht)
      refine ⟨?_, fun p hp t ht => absurd ht (hnone p hp t), ?_,
        fun p hp t ht => absurd ht (hnone p hp t), fun q _ => ?_, fun guid => ?_⟩
      · have hnil : (house.houseTiles.flatMap fun p => (s.tiles p).items.map Thing.ref) = [] :=
          List.flatMap_eq_nil_iff.2 fun p hp => List.map_eq_nil_iff.2 (hempty htown p hp)
        rw [House.visits, if_pos htown, hnil]
      · exact ⟨fun r => .node { class_ := .item, id := 0, ref := r } [],
          fun p hp t ht => absurd ht (hnone p hp t), fun p hp t ht => absurd ht (hnone p hp t)⟩
      · rw [hresult]
        exact .refl _
      · rw [hresult]
        exact List.Subset.refl _
  · obtain ⟨kit, h⟩ := transferTiles_spec hs house.nodup haccept
    have hresult : (house.transferToDepot g player s).2 =
        g.transferTiles player house.houseTiles s := by
      rw [House.transferToDepot, if_neg htown]
    constructor
    · intro hkept
      refine ⟨fun h => absurd h htown, fun p hp t ht x hx htarget => ?_⟩
      obtain ⟨y, hy⟩ := Option.ne_none_iff_exists'.1 htarget
      have harrives := hkept.arrived p hp t ht x hx y hy
      rw [hresult] at harrives
      obtain ⟨z, hz, hsame⟩ := harrives.inbox
      -- What arrived was listed, so it is no part of a wrapped thing and can be carried.
      have hkey : x.ref ∈ keys Object.ref
          [(g.transferTiles player house.houseTiles s).inbox y.guid] := by
        rw [← hsame.ref]
        exact key_mem_keys Object.ref (mem_nodes_of_mem_children hz (mem_nodes_self z))
      exact h.arrived_cases hs hp ht hx hkey
    · rintro ⟨-, hcond⟩
      refine ⟨?_, fun p hp t ht x hx y hy => ?_, ⟨kit, fun p hp t ht hw => ⟨?_, fun y hy => ?_⟩,
        h.inj⟩, ?_, ?_, ?_⟩
      · rw [House.visits, if_neg htown]
        exact visits_perm hs house.nodup haccept
      · obtain ⟨hw, hcarriable⟩ := hcond p hp t ht x hx (by rw [hy]; exact Option.some_ne_none y)
        obtain ⟨z, hz, hsame⟩ := h.arrive p hp t ht hw x hx hcarriable y hy
        rw [hresult]
        exact arrives_of_mem h.wf hz hsame
      · exact (h.kits p hp t ht hw).1
      · rw [hresult]
        exact h.kit_arrives hp ht hw hy
      · rw [hresult]
        exact h.fixed
      · rw [hresult]
        exact h.others
      · rw [hresult]
        exact h.stay

end kept

/-! ## A cabinet -/

/-- A container that can be wrapped. -/
def magnificentCabinet : BitVec 16 := 23419

def sword : BitVec 16 := 3264

def cabinetServer : Items.Server where
  items id := {
    id
    group := if id = magnificentCabinet then .container else .none
    type := .other
    stackable := false
    movable := true
    charges := 0
    decayTime := 0 }
  forgeMaxItemTier := 10
  time := 0
  timeNow := 0
  nameByGuid _ := []
  addUniqueItem _ := false

def cabinetFurniture (id : BitVec 16) : Furniture :=
  if id = magnificentCabinet then
    { wrapable := true, wrapableTo := 23398, wrapContainer := true, otherType := 1 }
  else {}

theorem eq_cabinet {id : BitVec 16} (h : (cabinetFurniture id).wrapable = true) :
    id = magnificentCabinet := by
  rw [cabinetFurniture] at h
  split_ifs at h with hid
  exact hid

theorem not_bed {p : Prop} (id : BitVec 16) (h : (cabinetServer.items id).type = .bed) : p := by
  cases h

/-- Magnificent cabinets, and items that can be carried away. -/
def cabinetTypes : Catalogue where
  server := cabinetServer
  traits _ := {}
  stackable_plain id h := by cases h
  furniture := cabinetFurniture
  kit_id := rfl
  kit_class := by decide
  kit_hasFluid := by decide
  kit_stackable := rfl
  kit_charges := rfl
  kit_movable := rfl
  kit_pickupable := rfl
  kit_order := by decide
  container_wrapContainer id h := by
    rw [eq_cabinet h]
    decide
  container_order id h := by
    rw [eq_cabinet h]
    decide
  container_type id h := by
    rw [eq_cabinet h]
    decide
  bed_group id h := not_bed id h
  bed_stackable id h := not_bed id h
  bed_charges id h := not_bed id h
  bed_pickupable id h := not_bed id h
  bed_partner id h := not_bed id h
  bed_free id h := not_bed id h

def houseOwner : Player where
  id := 0x10000001
  guid := 1

def cabinetGame : Game where
  types := cabinetTypes
  marks := { loadedFromMap := fun _ => false, decayDisabled := fun _ => false }
  players := [houseOwner]

/-- Who has one has an inbox, which is empty. -/
def emptyInbox (guid : BitVec 32) : Thing :=
  .node { class_ := .container, id := 12902, ref := guid.toNat + 2
          storage := some {
            class_ := .inbox, maxSize := 30, maxItems := 0, unlocked := false, pagination := true
            maxStored := 65535 } } []

def housePosition : Position := ⟨100, 100, 7⟩

/-- A house of one tile. -/
def smallHouse : House where
  townId := 1
  houseTiles := [housePosition]
  nodup := List.nodup_singleton _

def houseState (items : List Thing) : State where
  tiles p := if p = housePosition then { down := items } else {}
  nextRef := 2 ^ 32 + 2
  inbox := emptyInbox

def swordItem : Thing := .node { class_ := .item, id := sword, ref := 1 } []

def cabinetItem (items : List Thing) : Thing :=
  .node { class_ := .container, id := magnificentCabinet, ref := 0
          storage := some { maxSize := 8, maxItems := 0 } } items

theorem houseState_wf {items : List Thing} (h : Sound cabinetTypes (2 ^ 32 + 2) items)
    (hlt : ∀ r ∈ keys Object.ref items, r < 2) :
    (houseState items).Wf cabinetTypes := by
  have hempty : ∀ q, q ≠ housePosition → ((houseState items).tiles q).items = [] := fun q hq => by
    exact congrArg HouseTile.items (if_neg hq)
  have hitems : ((houseState items).tiles housePosition).items = items := by
    exact (congrArg HouseTile.items (if_pos rfl)).trans (List.append_nil _)
  have hkeys : ∀ q, ∀ r ∈ keys Object.ref ((houseState items).tiles q).items,
      q = housePosition ∧ r < 2 := by
    intro q r hr
    by_cases hq : q = housePosition
    · rw [hq, hitems] at hr
      exact ⟨hq, hlt r hr⟩
    · rw [hempty q hq] at hr
      exact absurd hr List.not_mem_nil
  have hinbox : ∀ guid, keys Object.ref [(houseState items).inbox guid] = [guid.toNat + 2] :=
    fun guid => rfl
  refine ⟨fun q => ?_, fun guid => ?_, fun guid r hr => ?_, fun p q hne r hr hr' => ?_,
    fun q guid r hr hr' => ?_, fun guid guid' hne r hr hr' => ?_⟩
  · by_cases hq : q = housePosition
    · rw [hq]
      exact hitems.symm ▸ h
    · have hsub : ((houseState items).tiles q).items.Subperm items := by
        rw [hempty q hq]
        exact List.nil_subperm
      exact h.subperm hsub
  · rw [Distinct, hinbox]
    exact List.nodup_singleton _
  · rw [hinbox, List.mem_singleton] at hr
    rw [hr]
    exact Nat.add_lt_add_right guid.isLt 2
  · exact hne ((hkeys p r hr).1.trans (hkeys q r hr').1.symm)
  · rw [hinbox, List.mem_singleton] at hr'
    exact absurd (hkeys q r hr).2 (not_lt.2 (hr' ▸ Nat.le_add_left ..))
  · rw [hinbox, List.mem_singleton] at hr hr'
    exact hne (BitVec.eq_of_toNat_eq (Nat.add_right_cancel (hr.symm.trans hr')))

theorem sound_beside : Sound cabinetTypes (2 ^ 32 + 2) [cabinetItem [], swordItem] := by
  refine ⟨⟨by rw [Distinct]; decide, by decide, ?_, ?_⟩, ?_⟩
  all_goals simp [cabinetItem, swordItem, nodes_node, cabinetTypes, Object.isStackable,
    cabinetServer]
  decide

theorem sound_inside : Sound cabinetTypes (2 ^ 32 + 2) [cabinetItem [swordItem]] := by
  refine ⟨⟨by rw [Distinct]; decide, by decide, ?_, ?_⟩, ?_⟩
  all_goals simp [cabinetItem, swordItem, nodes_node, cabinetTypes, Object.isStackable,
    cabinetServer]
  decide

/-- A sword beside a cabinet arrives. -/
theorem cabinet_kept : Kept cabinetGame houseOwner smallHouse
    (houseState [cabinetItem [], swordItem]) :=
  (kept_iff (houseState_wf sound_beside (by decide)) (by decide +kernel)).2
    ⟨by decide, by decide +kernel⟩

/-- A sword in a cabinet that is wrapped is lost. -/
theorem cabinet_not_kept : (houseState [cabinetItem [swordItem]]).Wf cabinetTypes ∧
    cabinetGame.acceptsTiles houseOwner (houseState [cabinetItem [swordItem]])
      smallHouse.houseTiles = true ∧
    ¬Kept cabinetGame houseOwner smallHouse (houseState [cabinetItem [swordItem]]) := by
  refine ⟨houseState_wf sound_inside (by decide), by decide +kernel, fun h => ?_⟩
  obtain ⟨⟨z, hz, hsame⟩, -, -⟩ := h.arrived housePosition (List.mem_singleton_self _)
    (cabinetItem [swordItem]) (List.mem_singleton_self _) swordItem (List.mem_singleton_self _)
    houseOwner rfl
  have hrefs : ((smallHouse.transferToDepot cabinetGame houseOwner
      (houseState [cabinetItem [swordItem]])).2.inbox houseOwner.guid).children.map Thing.ref =
        [2 ^ 32 + 2] := by
    decide +kernel
  have href : Inventory.Thing.ref z ∈ [2 ^ 32 + 2] := hrefs ▸ List.mem_map_of_mem hz
  rw [hsame.ref] at href
  exact absurd href (by decide)

end Canary.Houses.Clearing
