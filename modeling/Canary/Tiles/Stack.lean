import Canary.Tiles.Tile
import Mathlib

/-!
# The order of things on a tile

The first `downItemCount` items of the vector are those that are not on top; the others are on
top, and their orders do not go down (`Stacked`). An index then finds the thing it was asked for.

Whatever is added or removed keeps this order. An item that changes its type, or is replaced,
stays where it is in the vector, whatever the order of its new type: the order is kept if and only
if the new type fits in there (`stacked_updateThing_iff`, `stacked_replaceThing_iff`), and so it
holds in every run in which it always does (`stacked_of_reachable`).
-/

namespace Canary.Tiles

open Transition

/-! ## Lists -/

section

variable {α : Type} {stop : α → Bool} {a : α} {l : List α}

/-- What is inserted stops at what is not lower, and passes only what is not higher. -/
theorem pairwise_insertBefore {f : α → ℕ} (h : l.Pairwise (f · ≤ f ·))
    (hstop : ∀ b, stop b = true → f a ≤ f b) (hpass : ∀ b, stop b = false → f b ≤ f a) :
    (insertBefore stop a l).Pairwise (f · ≤ f ·) := by
  induction l with
  | nil => exact List.pairwise_singleton _ a
  | cons b l ih =>
    obtain ⟨hb, hl⟩ := List.pairwise_cons.1 h
    rw [insertBefore]
    split
    next hs =>
      refine List.pairwise_cons.2 ⟨fun c hc => ?_, h⟩
      rcases List.mem_cons.1 hc with rfl | hc
      · exact hstop _ hs
      · exact (hstop b hs).trans (hb c hc)
    next hs =>
      refine List.pairwise_cons.2 ⟨fun c hc => ?_, ih hl⟩
      rcases List.mem_cons.1 (perm_insertBefore.mem_iff.1 hc) with rfl | hc
      · exact hpass b (Bool.eq_false_iff.2 hs)
      · exact hb c hc

/-- A number in a sorted list is replaced by another. -/
theorem pairwise_replace_iff {l₁ l₂ : List ℕ} {a b : ℕ} (h : (l₁ ++ a :: l₂).Pairwise (· ≤ ·)) :
    (l₁ ++ b :: l₂).Pairwise (· ≤ ·) ↔ (∀ x ∈ l₁, x ≤ b) ∧ ∀ x ∈ l₂, b ≤ x := by
  obtain ⟨h₁, h₂, h₁₂⟩ := List.pairwise_append.1 h
  rw [List.pairwise_append, List.pairwise_cons]
  constructor
  · rintro ⟨-, ⟨hb, -⟩, hlt⟩
    exact ⟨fun x hx => hlt x hx b List.mem_cons_self, hb⟩
  · rintro ⟨hle, hge⟩
    refine ⟨h₁, ⟨hge, (List.pairwise_cons.1 h₂).2⟩, fun x hx y hy => ?_⟩
    rcases List.mem_cons.1 hy with rfl | hy
    · exact hle x hx
    · exact h₁₂ x hx y (List.mem_cons_of_mem _ hy)

end

namespace Tile

variable {types : ItemTypes} {t : Tile}

/-! ## The invariant -/

/-- The vector is split by the count, and no thing is twice on the tile. -/
structure Stacked (types : ItemTypes) (t : Tile) : Prop where
  count_le : t.downItemCount ≤ t.items.length
  onTile_nodup : t.onTile.Nodup
  creatures_nodup : t.creatures.Nodup
  down_order : ∀ r ∈ t.downItems, t.order types r = 0
  top_order : ∀ r ∈ t.topItems, t.order types r ≠ 0
  sorted : (t.topItems.map (t.order types)).Pairwise (· ≤ ·)

theorem isAlwaysOnTop_iff {r : ℕ} :
    (t.object r).isAlwaysOnTop types = true ↔ t.order types r ≠ 0 := decide_eq_true_iff

/-- The flags have nothing to do with it. -/
theorem stacked_setTileFlags {r : ℕ} : Stacked types (t.setTileFlags types r) ↔ Stacked types t :=
  ⟨fun h => ⟨h.1, h.2, h.3, h.4, h.5, h.6⟩, fun h => ⟨h.1, h.2, h.3, h.4, h.5, h.6⟩⟩

theorem stacked_resetTileFlags {r : ℕ} :
    Stacked types (t.resetTileFlags types r) ↔ Stacked types t :=
  ⟨fun h => ⟨h.1, h.2, h.3, h.4, h.5, h.6⟩, fun h => ⟨h.1, h.2, h.3, h.4, h.5, h.6⟩⟩

theorem stacked_withItems {down top : List ℕ} : Stacked types (t.withItems down top) ↔
    (t.ground.toList ++ (down ++ top)).Nodup ∧ t.creatures.Nodup ∧
      (∀ r ∈ down, t.order types r = 0) ∧ (∀ r ∈ top, t.order types r ≠ 0) ∧
      (top.map (t.order types)).Pairwise (· ≤ ·) := by
  constructor
  · rintro ⟨-, hn, hc, hd, ht, hs⟩
    rw [downItems_withItems] at hd
    rw [topItems_withItems] at ht hs
    exact ⟨hn, hc, hd, ht, hs⟩
  · rintro ⟨hn, hc, hd, ht, hs⟩
    refine ⟨?_, hn, hc, ?_, ?_, ?_⟩
    · exact (List.length_append ..).symm ▸ Nat.le_add_right _ _
    · rwa [downItems_withItems]
    · rwa [topItems_withItems]
    · rwa [topItems_withItems]

namespace Stacked

variable (h : Stacked types t)
include h

theorem parts_nodup : (t.ground.toList ++ (t.downItems ++ t.topItems)).Nodup :=
  onTile_eq (t := t) ▸ h.onTile_nodup

/-- Items are taken out of both halves. -/
theorem sublist {down top : List ℕ} (hd : down.Sublist t.downItems)
    (ht : top.Sublist t.topItems) : Stacked types (t.withItems down top) :=
  stacked_withItems.2 ⟨h.parts_nodup.sublist ((hd.append ht).append_left _), h.creatures_nodup,
    fun r hr => h.down_order r (hd.subset hr), fun r hr => h.top_order r (ht.subset hr),
    h.sorted.sublist (ht.map _)⟩

theorem insertDown {r : ℕ} (hr : r ∉ t.onTile) (ho : t.order types r = 0) :
    Stacked types (t.insertDown r) := by
  have hn : (r :: (t.ground.toList ++ (t.downItems ++ t.topItems))).Nodup :=
    List.nodup_cons.2 ⟨onTile_eq (t := t) ▸ hr, h.parts_nodup⟩
  refine stacked_withItems.2 ⟨hn.perm List.perm_middle.symm, h.creatures_nodup, fun q hq => ?_,
    h.top_order, h.sorted⟩
  rcases List.mem_cons.1 hq with rfl | hq
  · exact ho
  · exact h.down_order q hq

theorem insertTop {stop : ℕ → Bool} {r : ℕ} (hr : r ∉ t.onTile) (ho : t.order types r ≠ 0)
    (hstop : ∀ q, stop q = true → t.order types r ≤ t.order types q)
    (hpass : ∀ q, stop q = false → t.order types q ≤ t.order types r) :
    Stacked types (t.insertTop stop r) := by
  have hn : (r :: (t.ground.toList ++ (t.downItems ++ t.topItems))).Nodup :=
    List.nodup_cons.2 ⟨onTile_eq (t := t) ▸ hr, h.parts_nodup⟩
  have hperm : (r :: (t.ground.toList ++ (t.downItems ++ t.topItems))).Perm
      (t.ground.toList ++ (t.downItems ++ insertBefore stop r t.topItems)) := by
    refine .trans ?_ ((perm_insertBefore.symm.append_left _).append_left _)
    rw [← List.append_assoc, ← List.append_assoc]
    exact List.perm_middle.symm
  refine stacked_withItems.2 ⟨hn.perm hperm, h.creatures_nodup, h.down_order, fun q hq => ?_,
    List.pairwise_map.2 (pairwise_insertBefore (List.pairwise_map.1 h.sorted) hstop hpass)⟩
  rcases List.mem_cons.1 (perm_insertBefore.mem_iff.1 hq) with rfl | hq
  · exact ho
  · exact h.top_order q hq

/-- The ground is taken away, or another item takes its place. -/
theorem setGround {ground : Option ℕ} (hg : ∀ r ∈ ground, r ∉ t.onTile) :
    Stacked types { t with ground := ground } := by
  refine ⟨h.count_le, ?_, h.creatures_nodup, h.down_order, h.top_order, h.sorted⟩
  have hitems : t.items.Nodup := (List.nodup_append.1 h.onTile_nodup).2.1
  cases ground with
  | none => exact hitems
  | some r =>
    exact List.nodup_cons.2 ⟨fun hr => hg r rfl (List.mem_append_right _ hr), hitems⟩

/-- Items on the tile keep their types. -/
theorem setObject {object : ℕ → Item}
    (hid : ∀ r ∈ t.onTile, (object r).id = (t.object r).id) :
    Stacked types { t with object := object } := by
  have horder : ∀ r ∈ t.onTile, (types (object r).id).alwaysOnTopOrder = t.order types r :=
    fun r hr => by rw [hid r hr]; rfl
  have hdown : ∀ r ∈ t.downItems, r ∈ t.onTile := fun r hr => mem_onTile.2 (.inr (.inl hr))
  have htop : ∀ r ∈ t.topItems, r ∈ t.onTile := fun r hr => mem_onTile.2 (.inr (.inr hr))
  refine ⟨h.count_le, h.onTile_nodup, h.creatures_nodup,
    fun r hr => (horder r (hdown r hr)).trans (h.down_order r hr),
    fun r hr => (horder r (htop r hr)).trans_ne (h.top_order r hr), ?_⟩
  exact (List.map_congr_left fun r hr => horder r (htop r hr)).symm ▸ h.sorted

/-! ## Adding and removing -/

theorem removeThing (thing : Thing) (count : ℕ) :
    Stacked types (t.removeThing types thing count) := by
  cases thing with
  | creature c =>
    exact ⟨h.count_le, h.onTile_nodup, h.creatures_nodup.erase c, h.down_order, h.top_order,
      h.sorted⟩
  | item r =>
    simp only [Tile.removeThing]
    split_ifs with _ _ _ _ _ hstack
    · exact h
    · exact stacked_resetTileFlags.2 (h.setGround fun _ hr => nomatch hr)
    · exact stacked_resetTileFlags.2 (h.sublist (List.Sublist.refl _) List.erase_sublist)
    · exact h
    · -- A part of the stack is left.
      refine h.setObject fun q _ => ?_
      rcases eq_or_ne q r with rfl | hq
      · rw [Function.update_self]; rfl
      · rw [Function.update_of_ne hq]
    · exact stacked_resetTileFlags.2 (h.sublist List.erase_sublist (List.Sublist.refl _))
    · exact h

theorem addCreature {c : ℕ} (hc : c ∉ t.creatures) :
    Stacked types { t with creatures := c :: t.creatures } :=
  ⟨h.count_le, h.onTile_nodup, List.nodup_cons.2 ⟨hc, h.creatures_nodup⟩, h.down_order,
    h.top_order, h.sorted⟩

end Stacked

theorem onTile_withItems_subset {down top : List ℕ} (hd : down ⊆ t.downItems)
    (ht : top ⊆ t.topItems) : (t.withItems down top).onTile ⊆ t.onTile := by
  intro r hr
  rw [mem_onTile, downItems_withItems, topItems_withItems] at hr
  exact mem_onTile.2 (hr.imp_right (Or.imp (@hd r) (@ht r)))

/-- What is removed does not come back, and what is not on the tile does not change. -/
theorem removeThing_frame (types : ItemTypes) {r old : ℕ} (count : ℕ) (hr : r ∉ t.onTile)
    (hold : old ∈ t.onTile) :
    r ∉ (t.removeThing types (.item old) count).onTile ∧
      (t.removeThing types (.item old) count).object r = t.object r := by
  have hne : r ≠ old := fun h => hr (h ▸ hold)
  simp only [removeThing]
  split_ifs
  · exact ⟨hr, rfl⟩
  · exact ⟨fun h => hr (List.mem_append_right _ h), rfl⟩
  · exact ⟨fun h => hr (onTile_withItems_subset (List.Subset.refl _) List.erase_subset h), rfl⟩
  · exact ⟨hr, rfl⟩
  · exact ⟨hr, Function.update_of_ne hne _ _⟩
  · exact ⟨fun h => hr (onTile_withItems_subset List.erase_subset (List.Subset.refl _) h), rfl⟩
  · exact ⟨hr, rfl⟩

theorem removeOldSplash_frame (types : ItemTypes) {r : ℕ} (hr : r ∉ t.onTile) :
    r ∉ (t.removeOldSplash types).onTile ∧ (t.removeOldSplash types).object r = t.object r := by
  rw [removeOldSplash]
  split
  next old hold =>
    exact removeThing_frame types 1 hr (mem_onTile.2 (.inr (.inr (List.mem_of_find?_eq_some hold))))
  next => exact ⟨hr, rfl⟩

namespace Stacked

variable (h : Stacked types t)
include h

theorem removeOldSplash : Stacked types (t.removeOldSplash types) := by
  rw [Tile.removeOldSplash]
  split
  · exact h.removeThing _ _
  · exact h

/-- The item goes before the first one that is not lower. -/
theorem insertTop_addItem {r : ℕ} (hr : r ∉ t.onTile) (ho : t.order types r ≠ 0) :
    Stacked types (t.insertTop (fun top => t.order types r ≤ t.order types top) r) :=
  h.insertTop hr ho (fun _ hq => of_decide_eq_true hq)
    fun _ hq => (Nat.lt_of_not_le (of_decide_eq_false hq)).le

theorem addThing {thing : Thing} (hthing : thing ∉ t.things) :
    Stacked types (t.addThing types thing) := by
  cases thing with
  | creature c => exact h.addCreature fun hc => hthing (creature_mem_things.2 hc)
  | item r =>
    have hr : r ∉ t.onTile := fun hr => hthing (item_mem_things.2 hr)
    have hset : Stacked types { t with ground := some r } :=
      h.setGround fun q hq => Option.some.inj hq ▸ hr
    simp only [Tile.addThing, addItem]
    split_ifs with hfull hground htop hsplash hfield
    · exact h
    · split
      · exact stacked_setTileFlags.2 hset
      · exact stacked_setTileFlags.2 (stacked_resetTileFlags.2 hset)
    · -- A splash takes the place of the old one.
      obtain ⟨hr', hobject⟩ := removeOldSplash_frame types hr
      refine stacked_setTileFlags.2 (h.removeOldSplash.insertTop_addItem hr' ?_)
      rw [order, hobject]
      exact isAlwaysOnTop_iff.1 htop
    · exact stacked_setTileFlags.2 (h.insertTop_addItem hr (isAlwaysOnTop_iff.1 htop))
    all_goals
      have ho : t.order types r = 0 := not_not.1 (mt isAlwaysOnTop_iff.2 htop)
    · split
      · exact stacked_setTileFlags.2 (h.insertDown hr ho)
      next old hold =>
        split_ifs
        · obtain ⟨hr', hobject⟩ := removeThing_frame types 1 hr
            (mem_onTile.2 (.inr (.inl (List.mem_of_find?_eq_some hold))))
          refine stacked_setTileFlags.2 ((h.removeThing _ _).insertDown hr' ?_)
          rw [order, hobject]
          exact ho
        · exact h
    · exact stacked_setTileFlags.2 (h.insertDown hr ho)

theorem internalAddThing {thing : Thing} (hthing : thing ∉ t.things) :
    Stacked types (t.internalAddThing types thing) := by
  cases thing with
  | creature c => exact h.addCreature fun hc => hthing (creature_mem_things.2 hc)
  | item r =>
    have hr : r ∉ t.onTile := fun hr => hthing (item_mem_things.2 hr)
    simp only [Tile.internalAddThing, internalAddItem]
    split_ifs with hground hfull htop
    · split
      · exact stacked_setTileFlags.2 (h.setGround fun q hq => Option.some.inj hq ▸ hr)
      · exact h
    · exact h
    · -- The item goes before the first one that is higher.
      refine stacked_setTileFlags.2 (h.insertTop hr (isAlwaysOnTop_iff.1 htop)
        (fun q hq => (of_decide_eq_true hq).le)
        fun q hq => Nat.le_of_not_lt (of_decide_eq_false hq))
    · exact stacked_setTileFlags.2 (h.insertDown hr (not_not.1 (mt isAlwaysOnTop_iff.2 htop)))

end Stacked

/-! ## Items that change, or are replaced -/

/-- An item of this order fits in at the place of an item of the tile: among the down items it is
    not on top, among the others it is, and not lower than what is before, nor higher than what
    is behind. -/
def FitsAt (types : ItemTypes) (t : Tile) (r order : ℕ) : Prop :=
  (r ∈ t.downItems → order = 0) ∧
    ∀ before behind, t.topItems = before ++ r :: behind →
      order ≠ 0 ∧ (∀ q ∈ before, t.order types q ≤ order) ∧ ∀ q ∈ behind, order ≤ t.order types q

/-- A list without repetitions is split at an item in one way. -/
theorem split_unique {l before behind before' behind' : List ℕ} {r : ℕ} (hn : l.Nodup)
    (h : l = before ++ r :: behind) (h' : l = before' ++ r :: behind') :
    before = before' ∧ behind = behind' := by
  obtain ⟨hr, -⟩ := List.nodup_cons.1 (List.nodup_middle.1 (h ▸ hn))
  rw [List.mem_append, not_or] at hr
  obtain ⟨h₁, -, h₂⟩ := (List.append_cons_inj_of_notMem hr.1 hr.2).1 (h.symm.trans h')
  exact ⟨h₁, h₂⟩

section

variable (h : Stacked types t)
include h

theorem topItems_nodup : t.topItems.Nodup :=
  (List.nodup_append.1 (List.nodup_append.1 h.parts_nodup).2.1).2.1

/-- The orders of the items on top, when one of them changes its own. -/
theorem map_update_order {before behind : List ℕ} {f : ℕ → ℕ} {r order : ℕ}
    (htop : t.topItems = before ++ r :: behind) :
    (before ++ r :: behind).map (Function.update f r order) =
      before.map f ++ order :: behind.map f := by
  have hn := htop ▸ topItems_nodup h
  obtain ⟨-, hcons, hdis⟩ := List.nodup_append.1 hn
  have hbehind := (List.nodup_cons.1 hcons).1
  have hbefore : r ∉ before := fun hr => hdis r hr r List.mem_cons_self rfl
  rw [List.map_append, List.map_cons, Function.update_self]
  congr 1
  · exact List.map_congr_left fun q hq =>
      Function.update_of_ne (ne_of_mem_of_not_mem hq hbefore) _ _
  · congr 1
    exact List.map_congr_left fun q hq =>
      Function.update_of_ne (ne_of_mem_of_not_mem hq hbehind) _ _

end

theorem order_changeItem (types : ItemTypes) (t : Tile) (r itemId count : ℕ) :
    (t.changeItem types r itemId count).order types =
      Function.update (t.order types) r (types itemId).alwaysOnTopOrder := by
  have hid (item : Item) : (item.setSubType types count).id = item.id := by
    rw [Item.setSubType]
    split_ifs <;> rfl
  funext q
  rcases eq_or_ne q r with rfl | hq
  · simp only [order, changeItem, Item.type, Function.update_self, hid, Item.setID]
  · simp only [order, changeItem, Item.type, Function.update_of_ne hq]

/-- The item changes where it is. -/
theorem stacked_changeItem_iff (h : Stacked types t) {r itemId count : ℕ} :
    Stacked types (t.changeItem types r itemId count) ↔
      FitsAt types t r (types itemId).alwaysOnTopOrder := by
  have horder := order_changeItem types t r itemId count
  constructor
  · intro h'
    refine ⟨fun hr => ?_, fun before behind htop => ?_⟩
    · have := h'.down_order r hr
      rwa [horder, Function.update_self] at this
    · -- The orders stayed sorted when one of them changed, so that it lies between its neighbours.
      have hne := h'.top_order r (show r ∈ t.topItems by simp [htop])
      have hsorted := h'.sorted
      rw [horder, Function.update_self] at hne
      rw [horder, show (t.changeItem types r itemId count).topItems = t.topItems from rfl, htop,
        map_update_order h htop] at hsorted
      have hold := h.sorted
      rw [htop, List.map_append, List.map_cons] at hold
      obtain ⟨hbefore, hbehind⟩ := (pairwise_replace_iff hold).1 hsorted
      exact ⟨hne, fun q hq => hbefore _ (List.mem_map_of_mem hq),
        fun q hq => hbehind _ (List.mem_map_of_mem hq)⟩
  · rintro ⟨hdown, htop⟩
    have hdown' : ∀ q ∈ t.downItems, (t.changeItem types r itemId count).order types q = 0 := by
      intro q hq
      rw [horder]
      rcases eq_or_ne q r with rfl | hqr
      · exact (Function.update_self ..).trans (hdown hq)
      · exact (Function.update_of_ne hqr ..).trans (h.down_order q hq)
    by_cases hr : r ∈ t.topItems
    · obtain ⟨before, behind, hsplit⟩ := List.append_of_mem hr
      obtain ⟨hne, hbefore, hbehind⟩ := htop before behind hsplit
      refine ⟨h.count_le, h.onTile_nodup, h.creatures_nodup, hdown', fun q hq => ?_, ?_⟩
      · rw [horder]
        rcases eq_or_ne q r with rfl | hqr
        · exact (Function.update_self ..).trans_ne hne
        · exact (Function.update_of_ne hqr ..).trans_ne (h.top_order q hq)
      · have hold := h.sorted
        rw [hsplit, List.map_append, List.map_cons] at hold
        rw [horder, show (t.changeItem types r itemId count).topItems = t.topItems from rfl, hsplit,
          map_update_order h hsplit]
        exact (pairwise_replace_iff hold).2
          ⟨List.forall_mem_map.2 hbefore, List.forall_mem_map.2 hbehind⟩
    · -- The item is not on top, and the orders there are what they were.
      have hsame : ∀ q ∈ t.topItems,
          (t.changeItem types r itemId count).order types q = t.order types q := fun q hq => by
        rw [horder, Function.update_of_ne (ne_of_mem_of_not_mem hq hr)]
      exact ⟨h.count_le, h.onTile_nodup, h.creatures_nodup, hdown',
        fun q hq => (hsame q hq).trans_ne (h.top_order q hq),
        (List.map_congr_left hsame).symm ▸ h.sorted⟩

theorem getThingIndex_eq_none {r : ℕ} (hr : r ∉ t.onTile) :
    t.getThingIndex types (.item r) = none := by
  obtain ⟨hground, hdown, htop⟩ : t.ground ≠ some r ∧ r ∉ t.downItems ∧ r ∉ t.topItems := by
    simpa only [mem_onTile, not_or] using hr
  rw [getThingIndex, if_neg hground, List.idxOf?_eq_none_iff.2 htop,
    List.idxOf?_eq_none_iff.2 hdown]
  exact ite_self _

/-- An update keeps the order if and only if the new type fits in where the item is. -/
theorem stacked_updateThing_iff (h : Stacked types t) {r itemId count : ℕ}
    (hr : t.getThingIndex types (.item r) ≠ none) :
    Stacked types (t.updateThing types (.item r) itemId count) ↔
      FitsAt types t r (types itemId).alwaysOnTopOrder := by
  rw [updateThing, if_neg hr, stacked_setTileFlags,
    stacked_changeItem_iff (stacked_resetTileFlags.2 h)]
  exact Iff.rfl

/-- An item is exchanged if there is one at the index. -/
theorem exchange_iff (hc : t.downItemCount ≤ t.items.length) {index r old : ℕ} :
    (∃ u, t.exchange index r = some (old, u)) ↔ t.getThing index = some (.item old) := by
  unfold exchange getThing
  split
  · simp
  · rename_i index _ _ _
    dsimp only
    generalize index - t.ground.toList.length = pos
    have hlen : t.downItems.length = t.downItemCount := List.length_take_of_le hc
    split_ifs with htop hcreature hdown
    · rw [← List.getElem?_drop, ← topItems, List.getElem?_eq_getElem htop]
      simp
    · rw [List.getElem?_eq_getElem hcreature]
      simp
    · have hget : t.items[pos - t.topItems.length - t.creatures.length]? =
          t.downItems[pos - t.topItems.length - t.creatures.length]? :=
        (List.getElem?_take_of_lt hdown).symm
      rw [hget, List.getElem?_eq_getElem (hlen ▸ hdown)]
      simp
    · rw [List.getElem?_eq_none (hlen ▸ Nat.le_of_not_lt hdown)]
      simp

theorem stacked_exchanged_iff (h : Stacked types t) {old r : ℕ} {t' : Tile} (hr : r ∉ t.onTile)
    (he : Exchanged t old r t') :
    Stacked types t' ↔ FitsAt types t old (t.order types r) := by
  have hn := h.parts_nodup
  obtain ⟨-, hitems, hdis⟩ := List.nodup_append.1 hn
  obtain ⟨-, -, hdis'⟩ := List.nodup_append.1 hitems
  -- The items with `r` in the place of `old`.
  have hswap (l₁ l₂ : List ℕ) (hl : t.onTile = l₁ ++ old :: l₂) : (l₁ ++ r :: l₂).Nodup := by
    have hnot : r ∉ l₁ ++ l₂ := fun hmem => hr (hl ▸ by
      rcases List.mem_append.1 hmem with hmem | hmem
      · exact List.mem_append_left _ hmem
      · exact List.mem_append_right _ (List.mem_cons_of_mem _ hmem))
    have hl' := List.nodup_middle.1 (hl ▸ h.onTile_nodup)
    exact List.nodup_middle.2 (List.nodup_cons.2 ⟨hnot, (List.nodup_cons.1 hl').2⟩)
  cases he with
  | ground hground =>
    -- The ground has no order: any item fits in there.
    have hold : old ∉ t.downItems ∧ old ∉ t.topItems := by
      rw [hground] at hdis
      exact ⟨fun hd => hdis old (by simp) old (List.mem_append_left _ hd) rfl,
        fun ht => hdis old (by simp) old (List.mem_append_right _ ht) rfl⟩
    refine iff_of_true (h.setGround fun q hq => Option.some.inj hq ▸ hr)
      ⟨fun hd => absurd hd hold.1, fun before behind ht => ?_⟩
    exact absurd (ht ▸ List.mem_append_right _ List.mem_cons_self) hold.2
  | @top before behind htop =>
    have hold : old ∉ t.downItems := fun hd =>
      hdis' old hd old (htop ▸ List.mem_append_right _ List.mem_cons_self) rfl
    -- Only the order of the item itself can be in the wrong place.
    have hsorted := h.sorted
    rw [htop, List.map_append, List.map_cons] at hsorted
    rw [stacked_withItems, List.map_append, List.map_cons, pairwise_replace_iff hsorted]
    constructor
    · rintro ⟨-, -, -, hne, hbefore, hbehind⟩
      refine ⟨fun hd => absurd hd hold, fun before' behind' hsplit => ?_⟩
      obtain ⟨rfl, rfl⟩ := split_unique (topItems_nodup h) htop hsplit
      exact ⟨hne r (List.mem_append_right _ List.mem_cons_self),
        fun q hq => hbefore _ (List.mem_map_of_mem hq),
        fun q hq => hbehind _ (List.mem_map_of_mem hq)⟩
    · rintro ⟨-, hfits⟩
      obtain ⟨hne, hbefore, hbehind⟩ := hfits before behind htop
      refine ⟨?_, h.creatures_nodup, h.down_order, fun q hq => ?_, List.forall_mem_map.2 hbefore,
        List.forall_mem_map.2 hbehind⟩
      · have := hswap (t.ground.toList ++ (t.downItems ++ before)) behind
          (by rw [onTile_eq, htop]; simp only [List.append_assoc])
        simpa only [List.append_assoc] using this
      · rcases List.mem_append.1 hq with hq | hq
        · exact h.top_order q (htop ▸ List.mem_append_left _ hq)
        · rcases List.mem_cons.1 hq with rfl | hq
          · exact hne
          · exact h.top_order q (htop ▸ List.mem_append_right _ (List.mem_cons_of_mem _ hq))
  | @down before behind hdown =>
    have hold : old ∈ t.downItems := hdown ▸ List.mem_append_right _ List.mem_cons_self
    rw [stacked_withItems]
    constructor
    · rintro ⟨-, -, hzero, -, -⟩
      refine ⟨fun _ => hzero r (List.mem_append_right _ List.mem_cons_self), fun _ _ hsplit => ?_⟩
      exact absurd rfl (hdis' old hold old (hsplit ▸ List.mem_append_right _ List.mem_cons_self))
    · rintro ⟨hzero, -⟩
      refine ⟨?_, h.creatures_nodup, fun q hq => ?_, h.top_order, h.sorted⟩
      · have := hswap (t.ground.toList ++ before) (behind ++ t.topItems)
          (by rw [onTile_eq, hdown]; simp only [List.append_assoc, List.cons_append])
        simpa only [List.append_assoc, List.cons_append] using this
      · rcases List.mem_append.1 hq with hq | hq
        · exact h.down_order q (hdown ▸ List.mem_append_left _ hq)
        · rcases List.mem_cons.1 hq with rfl | hq
          · exact hzero hold
          · exact h.down_order q (hdown ▸ List.mem_append_right _ (List.mem_cons_of_mem _ hq))

/-- A replacement keeps the order if and only if the new item fits in where the old one was. -/
theorem stacked_replaceThing_iff (h : Stacked types t) {index old r : ℕ} (hr : r ∉ t.onTile)
    (hold : t.getThing index = some (.item old)) :
    Stacked types (t.replaceThing types index (.item r)) ↔
      FitsAt types t old (t.order types r) := by
  obtain ⟨u, hex⟩ := (exchange_iff (r := r) h.count_le).2 hold
  rw [replaceThing, hex]
  exact stacked_setTileFlags.trans
    (stacked_resetTileFlags.trans (stacked_exchanged_iff h hr (exchanged_of_exchange hex)))

/-! ## Indices -/

theorem getThing_eq (hc : t.downItemCount ≤ t.items.length) (index : ℕ) :
    t.getThing index = t.things[index]? := by
  have hdownLength : t.downItems.length = t.downItemCount := List.length_take_of_le hc
  rw [things]
  unfold getThing
  split
  next ground hground => simp [hground]
  · rename_i index _ _ hpos
    -- Behind the ground, the index is counted from the first item on top.
    have hground : (t.ground.toList.map Thing.item).length ≤ index := by
      cases hg : t.ground with
      | none => exact Nat.zero_le _
      | some ground => exact Nat.one_le_iff_ne_zero.2 (hpos ground hg)
    rw [List.append_assoc, List.append_assoc, List.getElem?_append_right hground, List.length_map]
    dsimp only
    generalize index - t.ground.toList.length = pos
    split_ifs with htop hcreature hdown
    · rw [List.getElem?_append_left (by rwa [List.length_map]), List.getElem?_map, topItems,
        List.getElem?_drop]
    all_goals
      rw [List.getElem?_append_right (by rwa [List.length_map, ← Nat.not_lt]), List.length_map]
      generalize pos - t.topItems.length = pos at *
    · rw [List.getElem?_append_left (by rwa [List.length_map]), List.getElem?_map]
    all_goals
      rw [List.getElem?_append_right (by rwa [List.length_map, ← Nat.not_lt]), List.length_map,
        List.getElem?_map]
      generalize pos - t.creatures.length = pos at *
    · rw [downItems, List.getElem?_take_of_lt hdown]
    · rw [List.getElem?_eq_none (hdownLength ▸ Nat.le_of_not_lt hdown), Option.map_none]

theorem length_things : t.things.length = t.getThingCount := by
  have hitems := congrArg List.length (items_eq (t := t))
  rw [List.length_append] at hitems
  simp only [things, getThingCount, List.length_append, List.length_map]
  omega

theorem exists_idxOf? {l : List ℕ} {a : ℕ} (ha : a ∈ l) :
    ∃ i, l.idxOf? a = some i ∧ l[i]? = some a := by
  obtain ⟨i, hi⟩ := Option.isSome_iff_exists.1 (List.isSome_idxOf?.2 ha)
  obtain ⟨hlt, hget, -⟩ := List.idxOf?_eq_some_iff.1 hi
  exact ⟨i, hi, (List.getElem?_eq_getElem hlt).trans (congrArg some hget)⟩

theorem getElem?_middle {α : Type} {l₁ l₂ l₃ : List α} {i : ℕ} {a : α} (h : l₂[i]? = some a) :
    (l₁ ++ (l₂ ++ l₃))[l₁.length + i]? = some a := by
  rw [List.getElem?_append_right (Nat.le_add_right _ _), Nat.add_sub_cancel_left,
    List.getElem?_append_left (List.getElem?_eq_some_iff.1 h).1, h]

/-- The index of a thing finds the thing. -/
theorem getThing_getThingIndex (h : Stacked types t) {thing : Thing} (hthing : thing ∈ t.things) :
    ∃ index < t.getThingCount,
      t.getThingIndex types thing = some index ∧ t.getThing index = some thing := by
  suffices hsuff : ∃ index, t.getThingIndex types thing = some index ∧
      t.things[index]? = some thing by
    obtain ⟨index, hindex, hget⟩ := hsuff
    refine ⟨index, ?_, hindex, (getThing_eq h.count_le index).trans hget⟩
    exact length_things (t := t) ▸ (List.getElem?_eq_some_iff.1 hget).1
  -- The things before those of the same kind are as many as the index counts.
  have hthings : t.things = t.ground.toList.map .item ++ (t.topItems.map .item ++
      (t.creatures.map .creature ++ (t.downItems.map .item ++ []))) := by
    simp only [things, List.append_assoc, List.append_nil]
  rw [hthings]
  cases thing with
  | creature c =>
    obtain ⟨i, hi, hget⟩ := exists_idxOf? (creature_mem_things.1 hthing)
    refine ⟨_, by rw [getThingIndex, hi, Option.map_some], ?_⟩
    have hmap : (t.creatures.map Thing.creature)[i]? = some (.creature c) := by
      rw [List.getElem?_map, hget, Option.map_some]
    rw [← List.append_assoc, show t.ground.toList.length + t.topItems.length =
      (t.ground.toList.map Thing.item ++ t.topItems.map Thing.item).length by simp]
    exact getElem?_middle hmap
  | item r =>
    have hr := item_mem_things.1 hthing
    by_cases hground : t.ground = some r
    · exact ⟨0, by rw [getThingIndex, if_pos hground], by simp [hground]⟩
    · have hmap {l : List ℕ} {i : ℕ} (hget : l[i]? = some r) :
          (l.map Thing.item)[i]? = some (.item r) := by
        rw [List.getElem?_map, hget, Option.map_some]
      rcases (mem_onTile.1 hr).resolve_left hground with hdown | htop
      · obtain ⟨i, hi, hget⟩ := exists_idxOf? hdown
        refine ⟨_, by rw [getThingIndex, if_neg hground,
          if_neg (mt isAlwaysOnTop_iff.1 (not_not.2 (h.down_order r hdown))), hi,
          Option.map_some], ?_⟩
        rw [← List.append_assoc, ← List.append_assoc,
          show t.ground.toList.length + t.topItems.length + t.creatures.length =
            (t.ground.toList.map Thing.item ++ t.topItems.map Thing.item ++
              t.creatures.map Thing.creature).length by simp [Nat.add_assoc]]
        exact getElem?_middle (hmap hget)
      · obtain ⟨i, hi, hget⟩ := exists_idxOf? htop
        refine ⟨_, by rw [getThingIndex, if_neg hground,
          if_pos (isAlwaysOnTop_iff.2 (h.top_order r htop)), hi, Option.map_some], ?_⟩
        rw [show t.ground.toList.length = (t.ground.toList.map Thing.item).length by simp]
        exact getElem?_middle (hmap hget)

/-! ## Runs -/

/-- A new type, and a new item, fit in where they are put. -/
def Fits (types : ItemTypes) (t : Tile) : Op → Prop
  | .updateThing thing itemId _ => ∀ r, thing = .item r → r ∈ t.onTile →
    FitsAt types t r (types itemId).alwaysOnTopOrder
  | .replaceThing index thing => ∀ r old, thing = .item r → t.getThing index = some (.item old) →
    FitsAt types t old (t.order types r)
  | _ => True

theorem Stacked.apply (h : Stacked types t) {op : Op} (hc : t.Called types op)
    (hfits : Fits types t op) : Stacked types (t.apply types op) := by
  cases op with
  | addThing thing => exact h.addThing hc
  | internalAddThing thing => exact h.internalAddThing hc
  | removeThing thing count => exact h.removeThing thing count
  | updateThing thing itemId count =>
    cases thing with
    | creature c => exact h
    | item r =>
      by_cases hr : t.getThingIndex types (.item r) = none
      · rw [Tile.apply, updateThing, if_pos hr]
        exact h
      · refine (stacked_updateThing_iff h hr).2 (hfits r rfl ?_)
        exact not_not.1 (mt getThingIndex_eq_none hr)
  | replaceThing index thing =>
    cases thing with
    | creature c => exact h
    | item r =>
      have hr : r ∉ t.onTile := fun hr => hc.1 (item_mem_things.2 hr)
      cases hex : t.exchange index r with
      | none =>
        rw [Tile.apply, replaceThing, hex]
        exact h
      | some p =>
        have hget := (exchange_iff h.count_le).1 ⟨p.2, hex⟩
        exact (stacked_replaceThing_iff h hr hget).2 (hfits r p.1 rfl hget)
  | elsewhere object => exact h.setObject fun r hr => congrArg Item.id (hc r hr)

theorem stacked_empty {object : ℕ → Item} : Stacked types (empty object) := by
  refine ⟨le_rfl, List.nodup_nil, List.nodup_nil, ?_, ?_, List.Pairwise.nil⟩ <;>
    exact fun _ hr => nomatch hr

/-- Every run in which new types and new items fit in keeps the vector split and sorted, and the
    indices of the things on the tile find them. -/
theorem stacked_of_reachable (h : (system types).ReachableVia (Fits types) t) :
    Stacked types t ∧
      (∀ thing ∈ t.things, ∃ index < t.getThingCount,
        t.getThingIndex types thing = some index ∧ t.getThing index = some thing) ∧
      ∀ thing ∈ t.things, ∀ thing' ∈ t.things,
        t.getThingIndex types thing = t.getThingIndex types thing' → thing = thing' := by
  have hs : Stacked types t := by
    refine h.invariant (fun t₀ h₀ => ?_) fun t op t' ht hfits hstep => ?_
    · obtain ⟨object, rfl⟩ := h₀
      exact stacked_empty
    · obtain ⟨hc, rfl⟩ := hstep
      exact ht.apply hc hfits
  refine ⟨hs, fun thing hthing => getThing_getThingIndex hs hthing, ?_⟩
  intro thing hthing thing' hthing' heq
  obtain ⟨index, -, hindex, hget⟩ := getThing_getThingIndex hs hthing
  obtain ⟨index', -, hindex', hget'⟩ := getThing_getThingIndex hs hthing'
  obtain rfl : index = index' := by
    rw [hindex, hindex'] at heq
    exact Option.some.inj heq
  rw [hget] at hget'
  exact Option.some.inj hget'

/-- Types of every order. -/
def orders : ItemTypes := fun id =>
  { alwaysOnTopOrder := id, floorChange_mask := zero_and_floorChangeFlags }

/-- Two items on top, of orders 1 and 2. -/
def twoOnTop : Tile :=
  ((empty fun r => { id := r }).addThing orders (.item 1)).addThing orders (.item 2)

theorem reachable_twoOnTop {ok : Tile → Op → Prop} (hok : ∀ t thing, ok t (.addThing thing)) :
    (system orders).ReachableVia ok twoOnTop :=
  .step (a := .addThing (.item 2))
    (.step (a := .addThing (.item 1)) (.init ⟨_, rfl⟩) (hok _ _)
      ⟨show Thing.item 1 ∉ (empty _).things by decide, rfl⟩)
    (hok _ _)
    ⟨show Thing.item 2 ∉ ((empty fun r => { id := r }).addThing orders (.item 1)).things by decide,
      rfl⟩

/-- The lower one becomes as high as the other. -/
theorem stacked_twoOnTop_updateThing :
    (system orders).ReachableVia (Fits orders)
        (twoOnTop.updateThing orders (.item 1) 2 1) ∧
      Stacked orders (twoOnTop.updateThing orders (.item 1) 2 1) := by
  have hfits : Fits orders twoOnTop (.updateThing (.item 1) 2 1) := by
    rintro r ⟨⟩ -
    refine ⟨fun h => absurd h (by decide), fun before behind h => ?_⟩
    have htop : [1, 2] = [] ++ 1 :: [2] := rfl
    obtain ⟨rfl, rfl⟩ := split_unique (by decide) htop h
    decide
  have h : (system orders).ReachableVia (Fits orders)
      (twoOnTop.updateThing orders (.item 1) 2 1) :=
    .step (reachable_twoOnTop fun _ _ => trivial) hfits ⟨by rintro r ⟨⟩; decide, rfl⟩
  exact ⟨h, (stacked_of_reachable h).1⟩

/-- The lower one becomes higher than the other, and stays below it. -/
theorem higher_below_lower :
    (system orders).Reachable (twoOnTop.updateThing orders (.item 1) 3 1) ∧
      ¬ ((twoOnTop.updateThing orders (.item 1) 3 1).topItems.map
        ((twoOnTop.updateThing orders (.item 1) 3 1).order orders)).Pairwise (· ≤ ·) :=
  ⟨.step (a := .updateThing (.item 1) 3 1) (reachable_twoOnTop fun _ _ => trivial) trivial
    ⟨by rintro r ⟨⟩; decide, rfl⟩, by decide⟩

end Tile

end Canary.Tiles
