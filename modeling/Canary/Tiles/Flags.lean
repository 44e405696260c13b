import Canary.Tiles.Tile

/-!
# The flags of a tile

A flag that items give is set if the ground, or an item on the tile, has what it stands for
(`Derived`). Items set their flags when they are put on the tile. When one is taken away, changed
or replaced, its flags are reset: some only if no other item gives them (`rechecked`), the others
in any case.

So a call keeps the flags derived if and only if no other item on the tile gives a flag of the
latter kind that the item gives, and the item that takes its place does not (`derived_apply_iff`).
They are derived in every run of such calls (`derived_of_reachable`).
-/

namespace Canary.Tiles

open FlagWord Transition

/-! ## What items give -/

/-- The item has what the flag stands for. -/
def Item.marks (types : ItemTypes) (item : Item) : TileState → Bool
  | .floorChange => (item.type types).floorChange ≠ 0
  | .teleport => item.getTeleport
  | .magicField => item.getMagicField
  | .mailbox => item.getMailbox
  | .trashHolder => item.getTrashHolder
  | .bed => item.getBed
  | .depot => item.getDepotLocker
  | .blockSolid => item.hasProperty types .blockSolid
  | .blockPath => item.hasProperty types .blockPath
  | .immovableBlockSolid => item.hasProperty types .immovableBlockSolid
  | .immovableBlockPath => item.hasProperty types .immovableBlockPath
  | .immovableNoFieldBlockPath => item.hasProperty types .immovableNoFieldBlockPath
  | .noFieldBlockPath => item.hasProperty types .noFieldBlockPath
  | .supportsHangable => item.hasProperty types .supportHangable
  | .movable => item.hasProperty types .movable
  | .isHorizontal => item.hasProperty types .isHorizontal
  | .isVertical => item.hasProperty types .isVertical
  | .blockProjectile => item.hasProperty types .blockProjectile
  | .hasHeight => item.hasProperty types .hasHeight

namespace TileState

/-- The flag is reset only if no other item on the tile gives it. -/
def rechecked : TileState → Bool
  | .floorChange | .teleport | .magicField | .mailbox | .trashHolder | .bed | .depot
  | .supportsHangable => false
  | _ => true

variable {f g : TileState}

/-- The masks have no flag in common. -/
theorem hasBitSet_mask : hasBitSet g.mask f.mask = decide (g = f) := by
  cases g <;> cases f <;> rfl

theorem mask_and_mask (h : g ≠ f) : g.mask &&& f.mask = 0 := by
  have : hasBitSet g.mask f.mask = false := hasBitSet_mask.trans (decide_eq_false h)
  exact not_not.1 (of_decide_eq_false this)

end TileState

namespace Tile

variable {types : ItemTypes} {t : Tile} {f : TileState}

theorem hasBitSet_setIf {c : Bool} {g : TileState} {flags : BitVec 32} :
    hasBitSet (setIf c g flags) f.mask = (hasBitSet flags f.mask || (c && decide (g = f))) := by
  cases c with
  | false => simp [setIf]
  | true => simp [setIf, hasBitSet_setFlag, TileState.hasBitSet_mask]

theorem hasBitSet_resetIf {c : Bool} {g : TileState} {flags : BitVec 32} :
    hasBitSet (resetIf c g flags) f.mask = (hasBitSet flags f.mask && !(c && decide (g = f))) := by
  cases c with
  | false => simp [resetIf]
  | true =>
    rcases eq_or_ne g f with rfl | hne
    · simp [resetIf, hasBitSet_resetFlag_self]
    · simp [resetIf, hasBitSet_resetFlag_of_disjoint (TileState.mask_and_mask hne), hne]

/-! The flags are kept apart from the items. -/

@[simp] theorem object_setTileFlags {r : ℕ} : (t.setTileFlags types r).object = t.object := rfl

@[simp] theorem object_resetTileFlags {r : ℕ} : (t.resetTileFlags types r).object = t.object := rfl

theorem hasFlag_congr {u : Tile} (h : u.flags = t.flags) : u.hasFlag f = t.hasFlag f := by
  rw [hasFlag, hasFlag, h]

theorem hasFlag_changeItem {r itemId count : ℕ} :
    (t.changeItem types r itemId count).hasFlag f = t.hasFlag f := hasFlag_congr rfl

theorem object_changeItem_self {r itemId count : ℕ} :
    (t.changeItem types r itemId count).object r =
      ((t.object r).setID itemId).setSubType types count := Function.update_self ..

theorem object_changeItem_of_ne {r q itemId count : ℕ} (h : q ≠ r) :
    (t.changeItem types r itemId count).object q = t.object q := Function.update_of_ne h ..

/-- A type changes the floor in one of the directions. -/
theorem hasBitSet_floorChange (it : ItemType) :
    hasBitSet it.floorChange f.mask =
      (decide (it.floorChange ≠ 0) && decide (TileState.floorChange = f)) := by
  rcases eq_or_ne TileState.floorChange f with rfl | hne
  · rw [hasBitSet, TileState.mask, it.floorChange_mask]
    simp
  · have hmask : it.floorChange &&& f.mask = 0 := by
      have := TileState.mask_and_mask hne
      rw [TileState.mask] at this
      rw [← it.floorChange_mask, BitVec.and_assoc, this]
      simp
    simp [hasBitSet, hmask, hne]

/-- An item sets the flags that it gives. -/
theorem hasFlag_setTileFlags {r : ℕ} :
    (t.setTileFlags types r).hasFlag f = (t.hasFlag f || (t.object r).marks types f) := by
  have hfloor : hasBitSet (if !t.hasFlag .floorChange ∧ ((t.object r).type types).floorChange ≠ 0
        then setFlag t.flags ((t.object r).type types).floorChange else t.flags) f.mask =
      (hasBitSet t.flags f.mask || (decide (((t.object r).type types).floorChange ≠ 0) &&
        decide (TileState.floorChange = f))) := by
    split_ifs with h
    · rw [hasBitSet_setFlag, hasBitSet_floorChange]
    · rcases eq_or_ne TileState.floorChange f with rfl | hne
      · rw [hasFlag] at h
        simp only [Bool.not_eq_true', not_and, ne_eq, not_not] at h
        cases hflag : hasBitSet t.flags TileState.floorChange.mask with
        | false => simp [h hflag]
        | true => rfl
      · simp [hne]
  simp only [hasFlag] at hfloor
  simp only [setTileFlags, hasFlag, hasBitSet_setIf, hfloor]
  cases f <;> simp [Item.marks]

/-- Another item on the tile gives the flag. -/
def othersMark (types : ItemTypes) (t : Tile) (exclude : ℕ) (f : TileState) : Bool :=
  t.onTile.any fun r => r ≠ exclude && (t.object r).marks types f

/-- An item resets the flags that it gives, some only if no other item gives them. -/
theorem hasFlag_resetTileFlags {r : ℕ} :
    (t.resetTileFlags types r).hasFlag f =
      (t.hasFlag f && !((t.object r).marks types f &&
        (!f.rechecked || !t.othersMark types r f))) := by
  simp only [resetTileFlags, hasFlag, hasBitSet_resetIf]
  cases f <;>
    simp [Item.marks, TileState.rechecked, onlyOne, othersMark, hasProperty]

/-! ## The invariant -/

/-- One of the items gives the flag. -/
def anyMarks (types : ItemTypes) (t : Tile) (l : List ℕ) (f : TileState) : Bool :=
  l.any fun r => (t.object r).marks types f

/-- The flags are those that the items on the tile give. -/
def Derived (types : ItemTypes) (t : Tile) : Prop :=
  ∀ f, t.hasFlag f = t.anyMarks types t.onTile f

theorem anyMarks_perm {l l' : List ℕ} (h : l.Perm l') :
    t.anyMarks types l f = t.anyMarks types l' f := h.any_eq

theorem anyMarks_append {l l' : List ℕ} :
    t.anyMarks types (l ++ l') f = (t.anyMarks types l f || t.anyMarks types l' f) :=
  List.any_append

theorem any_congr_of_mem {α : Type} {l : List α} {p q : α → Bool} (h : ∀ a ∈ l, p a = q a) :
    l.any p = l.any q := by
  rw [Bool.eq_iff_iff, List.any_eq_true, List.any_eq_true]
  exact exists_congr fun a => and_congr_right fun ha => by rw [h a ha]

theorem anyMarks_congr {t' : Tile} {l : List ℕ}
    (h : ∀ q ∈ l, (t'.object q).marks types f = (t.object q).marks types f) :
    t'.anyMarks types l f = t.anyMarks types l f := any_congr_of_mem h

/-- The others are the items that are left without this one. -/
theorem othersMark_eq {r : ℕ} {others : List ℕ} (hn : t.onTile.Nodup)
    (h : t.onTile.Perm (r :: others)) : t.othersMark types r f = t.anyMarks types others f := by
  have hr : r ∉ others := (List.nodup_cons.1 (h.nodup_iff.1 hn)).1
  rw [othersMark, h.any_eq, List.any_cons]
  simp only [ne_eq, not_true_eq_false, decide_false, Bool.false_and, Bool.false_or]
  exact any_congr_of_mem fun q hq => by simp [ne_of_mem_of_not_mem hq hr]

/-- What a call does: the items `old` (one, or none) are taken away, and reset their flags; then
    the items `new` (one, or none) are put on the tile, and set theirs. -/
structure Effect (types : ItemTypes) (t t' : Tile) (old new others : List ℕ) : Prop where
  before : t.onTile.Perm (old ++ others)
  after : t'.onTile.Perm (new ++ others)
  same : ∀ q ∈ others, ∀ f, (t'.object q).marks types f = (t.object q).marks types f
  flags : ∀ f, t'.hasFlag f =
    ((t.hasFlag f && !(t.anyMarks types old f && (!f.rechecked || !t.anyMarks types others f))) ||
      t'.anyMarks types new f)

namespace Effect

variable {t' : Tile} {old new others : List ℕ}

/-- The flags stay derived, unless an item gave a flag that another one gives. -/
theorem derived_iff (e : Effect types t t' old new others) (h : Derived types t) :
    Derived types t' ↔ ∀ f, f.rechecked = false → t.anyMarks types old f = true →
      t.anyMarks types others f = true → t'.anyMarks types new f = true := by
  refine forall_congr' fun f => ?_
  rw [e.flags, h f, anyMarks_perm e.before, anyMarks_perm e.after, anyMarks_append,
    anyMarks_append, anyMarks_congr fun q hq => e.same q hq f]
  cases f.rechecked <;> cases t.anyMarks types old f <;> cases t.anyMarks types others f <;>
    cases t'.anyMarks types new f <;> decide

theorem nodup (e : Effect types t t' old new others) (h : t.onTile.Nodup) (hnew : new.Nodup)
    (hdis : ∀ r ∈ new, r ∉ others) : t'.onTile.Nodup := by
  have hothers : others.Nodup := (List.nodup_append.1 (e.before.nodup_iff.1 h)).2.1
  refine e.after.nodup_iff.2 (List.nodup_append.2 ⟨hnew, hothers, fun r hr q hq hrq => ?_⟩)
  exact hdis r hr (hrq ▸ hq)

/-- Nothing is taken away, and nothing is put on the tile. -/
theorem refl (htile : t'.onTile = t.onTile)
    (hsame : ∀ q ∈ t.onTile, ∀ f, (t'.object q).marks types f = (t.object q).marks types f)
    (hflags : t'.flags = t.flags) : Effect types t t' [] [] t.onTile where
  before := .refl _
  after := by rw [htile]; exact .refl _
  same := hsame
  flags := fun f => by simp [hasFlag, hflags, anyMarks]

/-- An item is put on the tile after what was done before. -/
theorem set {u : Tile} {r : ℕ} (e : Effect types t t' old [] others)
    (htile : u.onTile.Perm (r :: t'.onTile)) (hobject : u.object = t'.object)
    (hflags : u.flags = t'.flags) :
    Effect types t (u.setTileFlags types r) old [r] others where
  before := e.before
  after := htile.trans (e.after.cons r)
  same := fun q hq f => by
    rw [object_setTileFlags, hobject]
    exact e.same q hq f
  flags := fun f => by
    rw [hasFlag_setTileFlags, hasFlag_congr hflags, e.flags f]
    simp [anyMarks]

/-- An item is taken away. -/
theorem reset {u : Tile} {r : ℕ} (hn : t.onTile.Nodup) (htile : t.onTile.Perm (r :: u.onTile))
    (hobject : u.object = t.object) (hflags : u.flags = t.flags) :
    Effect types t (u.resetTileFlags types r) [r] [] u.onTile where
  before := htile
  after := .refl _
  same := fun q _ f => by
    rw [object_resetTileFlags, hobject]
  flags := fun f => by
    have hr : r ∉ u.onTile := (List.nodup_cons.1 (htile.nodup_iff.1 hn)).1
    have hothers : u.othersMark types r f = t.anyMarks types u.onTile f := by
      refine (any_congr_of_mem fun q hq => ?_).trans (anyMarks_congr fun q _ => by rw [hobject])
      simp [ne_of_mem_of_not_mem hq hr]
    rw [hasFlag_resetTileFlags, hasFlag_congr hflags, hothers, hobject]
    simp [anyMarks]

/-- An item takes the place of another one. The new one is on the tile when the flags are
    reset. -/
theorem replace {u : Tile} {r q : ℕ} (hn : t.onTile.Nodup) (hq : q ∉ t.onTile)
    (hbefore : t.onTile.Perm (r :: others)) (hafter : u.onTile.Perm (q :: others))
    (hobject : u.object = t.object) (hflags : u.flags = t.flags) :
    Effect types t ((u.resetTileFlags types r).setTileFlags types q) [r] [q] others where
  before := hbefore
  after := hafter
  same := fun p _ f => by
    rw [object_setTileFlags, object_resetTileFlags, hobject]
  flags := fun f => by
    have hr : r ∉ others := (List.nodup_cons.1 (hbefore.nodup_iff.1 hn)).1
    have hqr : q ≠ r := fun h => hq (hbefore.mem_iff.2 (h ▸ List.mem_cons_self))
    have hothers : u.othersMark types r f =
        ((t.object q).marks types f || t.anyMarks types others f) := by
      rw [othersMark, hafter.any_eq, List.any_cons, hobject]
      congr 1
      · simp [hqr]
      · exact any_congr_of_mem fun p hp => by simp [ne_of_mem_of_not_mem hp hr]
    rw [hasFlag_setTileFlags, hasFlag_resetTileFlags, hothers, hasFlag_congr hflags,
      object_resetTileFlags, hobject]
    simp only [anyMarks, List.any_cons, List.any_nil, Bool.or_false, object_setTileFlags,
      object_resetTileFlags, hobject]
    cases t.hasFlag f <;> cases f.rechecked <;> cases (t.object r).marks types f <;>
      cases (t.object q).marks types f <;> simp

end Effect

/-! ## What goes, and what takes its place -/

/-- `removeThing` takes the item away, not only a part of it. -/
def removes (types : ItemTypes) (t : Tile) (r count : ℕ) : Bool :=
  t.getThingIndex types (.item r) ≠ none ∧
    (t.ground = some r ∨ (t.object r).isAlwaysOnTop types = true ∨
      ¬ (((t.object r).type types).stackable ∧ count ≠ (t.object r).count))

/-- The item that a call takes away, or changes. -/
def displaced (types : ItemTypes) (t : Tile) : Op → Option ℕ
  | .addThing (.item r) =>
    if t.items.length ≥ 0xFFFF then none
    else if ((t.object r).type types).group = .ground then t.ground
    else if (t.object r).isAlwaysOnTop types then
      if ((t.object r).type types).group = .splash then
        (t.topItems.find? fun q => ((t.object q).type types).group = .splash).filter
          (t.removes types · 1)
      else none
    else if ((t.object r).type types).isMagicField then
      t.oldField.filter fun q => ((t.object q).type types).replaceable && t.removes types q 1
    else none
  | .removeThing (.item r) count => if t.removes types r count then some r else none
  | .updateThing (.item r) _ _ => if t.getThingIndex types (.item r) = none then none else some r
  | .replaceThing index (.item r) => (t.exchange index r).map Prod.fst
  | _ => none

/-- What takes its place, and what the item becomes. -/
def placed (types : ItemTypes) (t : Tile) : Op → Option Item
  | .addThing (.item r) => some (t.object r)
  | .updateThing (.item r) itemId count =>
    some (((t.object r).setID itemId).setSubType types count)
  | .replaceThing _ (.item r) => some (t.object r)
  | _ => none

/-- If the item that goes gives a flag that is not rechecked, and another item on the tile gives
    it too, what takes its place gives it. -/
def Keeps (types : ItemTypes) (t : Tile) (op : Op) : Prop :=
  ∀ old ∈ t.displaced types op, ∀ f, f.rechecked = false →
    (t.object old).marks types f = true → t.othersMark types old f = true →
    ∃ item ∈ t.placed types op, item.marks types f = true

/-! ## The effects of the calls -/

theorem marks_takeFromStack {r count q : ℕ} {f : TileState} :
    ((t.takeFromStack r count).object q).marks types f = (t.object q).marks types f := by
  rcases eq_or_ne q r with rfl | hq
  · simp only [takeFromStack, Function.update_self]
    cases f <;> rfl
  · simp only [takeFromStack, Function.update_of_ne hq]

theorem perm_erase_down {r : ℕ} (hr : r ∈ t.downItems) :
    t.onTile.Perm (r :: (t.withItems (t.downItems.erase r) t.topItems).onTile) := by
  have h : (t.downItems ++ t.topItems).Perm (r :: (t.downItems.erase r ++ t.topItems)) :=
    (List.perm_cons_erase hr).append_right _
  rw [onTile_eq]
  exact (h.append_left _).trans List.perm_middle

theorem perm_erase_top {r : ℕ} (hr : r ∈ t.topItems) :
    t.onTile.Perm (r :: (t.withItems t.downItems (t.topItems.erase r)).onTile) := by
  have h : (t.downItems ++ t.topItems).Perm (r :: (t.downItems ++ t.topItems.erase r)) :=
    ((List.perm_cons_erase hr).append_left _).trans List.perm_middle
  rw [onTile_eq]
  exact (h.append_left _).trans List.perm_middle

/-- A thing that is found is in the half where it is looked for. -/
theorem mem_of_getThingIndex {r : ℕ} (h : t.getThingIndex types (.item r) ≠ none) :
    t.ground = some r ∨ (if (t.object r).isAlwaysOnTop types then r ∈ t.topItems
      else r ∈ t.downItems) := by
  by_cases hground : t.ground = some r
  · exact .inl hground
  rw [getThingIndex, if_neg hground] at h
  refine .inr ?_
  split
  next htop =>
    rw [if_pos htop] at h
    exact by_contra fun hr => h (by rw [List.idxOf?_eq_none_iff.2 hr, Option.map_none])
  next htop =>
    rw [if_neg htop] at h
    exact by_contra fun hr => h (by rw [List.idxOf?_eq_none_iff.2 hr, Option.map_none])

theorem effect_removeThing (types : ItemTypes) (hn : t.onTile.Nodup) (r count : ℕ) :
    ∃ others, Effect types t (t.removeThing types (.item r) count)
        (if t.removes types r count then [r] else []) [] others ∧
      ∀ q f, ((t.removeThing types (.item r) count).object q).marks types f =
        (t.object q).marks types f := by
  -- The cases are those of `removeThing`: the ground, items on top, stacks and other down items.
  have hsame {u : Tile} (hu : u.object = t.object) (q : ℕ) (f : TileState) :
      (u.object q).marks types f = (t.object q).marks types f := by rw [hu]
  by_cases hindex : t.getThingIndex types (.item r) = none
  · rw [removeThing, if_pos hindex, if_neg (by simp [removes, hindex])]
    exact ⟨_, .refl rfl (fun _ _ _ => rfl) rfl, hsame rfl⟩
  have hmem := mem_of_getThingIndex hindex
  rw [removeThing, if_neg hindex]
  by_cases hground : t.ground = some r
  · rw [if_pos hground, if_pos (by simp [removes, hindex, hground])]
    refine ⟨_, .reset hn ?_ rfl rfl, hsame rfl⟩
    rw [onTile, hground]
    exact .refl _
  rw [if_neg hground]
  have hmem := hmem.resolve_left hground
  by_cases htop : (t.object r).isAlwaysOnTop types = true
  · rw [if_pos htop] at hmem
    rw [if_pos htop, if_pos hmem, if_pos (by simp [removes, hindex, htop])]
    exact ⟨_, .reset hn (perm_erase_top hmem) rfl rfl, hsame rfl⟩
  rw [if_neg htop] at hmem
  rw [if_neg htop, if_pos hmem]
  by_cases hstack : ((t.object r).type types).stackable ∧ count ≠ (t.object r).count
  · rw [if_pos hstack, if_neg (by simp [removes, hground, htop, hstack])]
    -- A stack that keeps some of its items marks what it marked.
    exact ⟨_, .refl rfl (fun _ _ _ => marks_takeFromStack) rfl, fun _ _ => marks_takeFromStack⟩
  · rw [if_neg hstack, if_pos (by simp only [removes, decide_eq_true_eq]; tauto)]
    exact ⟨_, .reset hn (perm_erase_down hmem) rfl rfl, hsame rfl⟩

/-- The call has an effect by which `old` goes, and `placed` takes its place. -/
def HasEffect (types : ItemTypes) (t t' : Tile) (old : Option ℕ) (placed : Option Item) : Prop :=
  ∃ new others, Effect types t t' old.toList new others ∧ new.Nodup ∧ (∀ r ∈ new, r ∉ others) ∧
    ∀ f, old ≠ none → t'.anyMarks types new f = placed.any (·.marks types f)

theorem hasEffect_of_same {t' : Tile} {placed : Option Item} (htile : t'.onTile = t.onTile)
    (hsame : ∀ q ∈ t.onTile, t'.object q = t.object q) (hflags : t'.flags = t.flags) :
    HasEffect types t t' none placed :=
  ⟨[], t.onTile, .refl htile (fun q hq _ => by rw [hsame q hq]) hflags, List.nodup_nil,
    fun _ hr => (nomatch hr), fun _ h => absurd rfl h⟩

theorem hasEffect_refl {placed : Option Item} : HasEffect types t t none placed :=
  hasEffect_of_same rfl (fun _ _ => rfl) rfl

/-- After something was taken away, or nothing, an item is put on the tile. -/
theorem hasEffect_set {t' u : Tile} (old : Option ℕ) {others : List ℕ} {r : ℕ}
    (hr : r ∉ t.onTile) (e : Effect types t t' old.toList [] others)
    (hsame : ∀ q f, (t'.object q).marks types f = (t.object q).marks types f)
    (htile : u.onTile.Perm (r :: t'.onTile)) (hobject : u.object = t'.object)
    (hflags : u.flags = t'.flags) :
    HasEffect types t (u.setTileFlags types r) old (some (t.object r)) := by
  refine ⟨[r], others, e.set htile hobject hflags, List.nodup_singleton r, fun q hq hmem => ?_,
    fun f _ => ?_⟩
  · exact hr (e.before.mem_iff.2 (List.mem_append_right _ (List.mem_singleton.1 hq ▸ hmem)))
  · simp only [anyMarks, List.any_cons, List.any_nil, Bool.or_false, Option.any_some]
    rw [object_setTileFlags, hobject, hsame]

theorem hasEffect_replace {u : Tile} {r q : ℕ} {others : List ℕ} (hn : t.onTile.Nodup)
    (hq : q ∉ t.onTile) (hbefore : t.onTile.Perm (r :: others))
    (hafter : u.onTile.Perm (q :: others)) (hobject : u.object = t.object)
    (hflags : u.flags = t.flags) :
    HasEffect types t ((u.resetTileFlags types r).setTileFlags types q) (some r)
      (some (t.object q)) := by
  refine ⟨[q], others, .replace hn hq hbefore hafter hobject hflags, List.nodup_singleton q,
    fun p hp hmem => ?_, fun f _ => ?_⟩
  · exact hq (hbefore.mem_iff.2 (List.mem_cons_of_mem _ (List.mem_singleton.1 hp ▸ hmem)))
  · simp only [anyMarks, List.any_cons, List.any_nil, Bool.or_false, Option.any_some]
    rw [object_setTileFlags, object_resetTileFlags, hobject]

theorem perm_insertDown {r : ℕ} : (t.insertDown r).onTile.Perm (r :: t.onTile) := by
  rw [onTile_eq (t := t)]
  exact List.perm_middle

theorem perm_insertTop {stop : ℕ → Bool} {r : ℕ} :
    (t.insertTop stop r).onTile.Perm (r :: t.onTile) := by
  have h : (t.downItems ++ insertBefore stop r t.topItems).Perm
      (r :: (t.downItems ++ t.topItems)) :=
    (perm_insertBefore.append_left _).trans List.perm_middle
  rw [onTile_eq (t := t)]
  exact (h.append_left _).trans List.perm_middle

/-- An old splash, or an old field, goes. -/
theorem effect_removeOld (types : ItemTypes) (hn : t.onTile.Nodup) (old : Option ℕ) (count : ℕ) :
    ∃ others, Effect types t (old.elim t fun r => t.removeThing types (.item r) count)
        (old.filter (t.removes types · count)).toList [] others ∧
      ∀ q f, (((old.elim t fun r => t.removeThing types (.item r) count)).object q).marks types f =
        (t.object q).marks types f := by
  cases old with
  | none => exact ⟨_, .refl rfl (fun _ _ _ => rfl) rfl, fun _ _ => rfl⟩
  | some r =>
    obtain ⟨others, he, hsame⟩ := effect_removeThing types hn r count
    refine ⟨others, ?_, hsame⟩
    rw [Option.filter_some, apply_ite Option.toList]
    exact he

theorem hasEffect_addItem (hn : t.onTile.Nodup) {r : ℕ} (hr : r ∉ t.onTile) :
    HasEffect types t (t.addItem types r) (t.displaced types (.addThing (.item r)))
      (some (t.object r)) := by
  have hrefl : Effect types t t (none : Option ℕ).toList [] t.onTile :=
    .refl rfl (fun _ _ _ => rfl) rfl
  simp only [addItem, displaced]
  split_ifs with hfull hground htop hsplash hfield
  · exact hasEffect_refl
  · split
    next hnone =>
      rw [hnone]
      refine hasEffect_set _ hr hrefl (fun _ _ => rfl) ?_ rfl rfl
      rw [onTile, onTile, hnone]
      exact .refl _
    next oldGround hsome =>
      rw [hsome]
      refine hasEffect_replace hn hr ?_ (.refl _) rfl rfl
      rw [onTile, hsome]
      exact .refl _
  · -- A splash: the old one goes first.
    obtain ⟨others, he, hsame⟩ := effect_removeOld types hn
      (t.topItems.find? fun q => ((t.object q).type types).group = .splash) 1
    have hremove : t.removeOldSplash types =
        (t.topItems.find? fun q => ((t.object q).type types).group = .splash).elim t
          fun q => t.removeThing types (.item q) 1 := by
      rw [removeOldSplash]
      cases t.topItems.find? fun q => ((t.object q).type types).group = .splash <;> rfl
    rw [← hremove] at he hsame
    exact hasEffect_set _ hr he hsame perm_insertTop rfl rfl
  · exact hasEffect_set _ hr hrefl (fun _ _ => rfl) perm_insertTop rfl rfl
  · -- A field: the old one goes if it may be replaced.
    cases hfind : t.oldField with
    | none => exact hasEffect_set _ hr hrefl (fun _ _ => rfl) perm_insertDown rfl rfl
    | some oldField =>
      dsimp only
      rw [Option.filter_some]
      split_ifs with hreplace hremoves hremoves
      · obtain ⟨others, he, hsame⟩ := effect_removeThing types hn oldField 1
        rw [if_pos (Bool.and_eq_true_iff.1 hremoves).2] at he
        exact hasEffect_set _ hr he hsame perm_insertDown rfl rfl
      · obtain ⟨others, he, hsame⟩ := effect_removeThing types hn oldField 1
        rw [if_neg fun h => hremoves (Bool.and_eq_true_iff.2 ⟨hreplace, h⟩)] at he
        exact hasEffect_set none hr he hsame perm_insertDown rfl rfl
      · exact absurd (Bool.and_eq_true_iff.1 hremoves).1 hreplace
      · exact hasEffect_refl
  · exact hasEffect_set _ hr hrefl (fun _ _ => rfl) perm_insertDown rfl rfl

theorem hasEffect_internalAddItem (types : ItemTypes) {r : ℕ} (hr : r ∉ t.onTile) :
    HasEffect types t (t.internalAddItem types r) none (some (t.object r)) := by
  have hrefl : Effect types t t (none : Option ℕ).toList [] t.onTile :=
    .refl rfl (fun _ _ _ => rfl) rfl
  simp only [internalAddItem]
  split_ifs with hground hfull htop
  · split
    next hnone =>
      refine hasEffect_set _ hr hrefl (fun _ _ => rfl) ?_ rfl rfl
      rw [onTile, onTile, hnone]
      exact .refl _
    · exact hasEffect_refl
  · exact hasEffect_refl
  · exact hasEffect_set _ hr hrefl (fun _ _ => rfl) perm_insertTop rfl rfl
  · exact hasEffect_set _ hr hrefl (fun _ _ => rfl) perm_insertDown rfl rfl

theorem hasEffect_removeThing (hn : t.onTile.Nodup) (thing : Thing) (count : ℕ) :
    HasEffect types t (t.removeThing types thing count)
      (t.displaced types (.removeThing thing count)) none := by
  cases thing with
  | creature c => exact hasEffect_of_same rfl (fun _ _ => rfl) rfl
  | item r =>
    obtain ⟨others, he, -⟩ := effect_removeThing types hn r count
    refine ⟨[], others, ?_, List.nodup_nil, fun _ hr => (nomatch hr), fun _ _ => rfl⟩
    rw [displaced, apply_ite Option.toList]
    exact he

/-- An item on the tile changes. -/
theorem Effect.change (hn : t.onTile.Nodup) {r itemId count : ℕ} (hr : r ∈ t.onTile) :
    Effect types t
      (((t.resetTileFlags types r).changeItem types r itemId count).setTileFlags types r)
      [r] [r] (t.onTile.erase r) where
  before := List.perm_cons_erase hr
  after := List.perm_cons_erase hr
  same := fun q hq f => by
    have hqr : q ≠ r := fun h => hn.not_mem_erase (h ▸ hq)
    rw [object_setTileFlags, object_changeItem_of_ne hqr, object_resetTileFlags]
  flags := fun f => by
    -- The change of the item leaves the flags as the reset left them.
    rw [hasFlag_setTileFlags, hasFlag_changeItem, hasFlag_resetTileFlags,
      othersMark_eq hn (List.perm_cons_erase hr)]
    simp [anyMarks]

/-- The item resets the flags of its old type, and sets those of its new one. -/
theorem hasEffect_updateThing (hn : t.onTile.Nodup) (thing : Thing) (itemId count : ℕ) :
    HasEffect types t (t.updateThing types thing itemId count)
      (t.displaced types (.updateThing thing itemId count))
      (t.placed types (.updateThing thing itemId count)) := by
  cases thing with
  | creature c => exact hasEffect_refl
  | item r =>
    rw [updateThing, displaced]
    by_cases hindex : t.getThingIndex types (.item r) = none
    · rw [if_pos hindex, if_pos hindex]
      exact hasEffect_refl
    · rw [if_neg hindex, if_neg hindex]
      have hr : r ∈ t.onTile := by
        rcases mem_of_getThingIndex hindex with hground | hmem
        · exact mem_onTile.2 (.inl hground)
        · split at hmem
          · exact mem_onTile.2 (.inr (.inr hmem))
          · exact mem_onTile.2 (.inr (.inl hmem))
      refine ⟨[r], t.onTile.erase r, .change hn hr, List.nodup_singleton r, fun q hq hmem => ?_,
        fun f _ => ?_⟩
      · exact hn.not_mem_erase (List.mem_singleton.1 hq ▸ hmem)
      · simp only [anyMarks, List.any_cons, List.any_nil, Bool.or_false, placed, Option.any_some]
        rw [object_setTileFlags, object_changeItem_self, object_resetTileFlags]

theorem hasEffect_of_exchanged (hn : t.onTile.Nodup) {old r : ℕ} {u : Tile} (hr : r ∉ t.onTile)
    (he : Exchanged t old r u) :
    HasEffect types t ((u.resetTileFlags types old).setTileFlags types r) (some old)
      (some (t.object r)) := by
  cases he with
  | ground hground =>
    refine hasEffect_replace hn hr ?_ (.refl _) rfl rfl
    rw [onTile, hground]
    exact .refl _
  | @top before behind htop =>
    have hmiddle (q : ℕ) : (t.ground.toList ++ (t.downItems ++ (before ++ q :: behind))).Perm
        (q :: (t.ground.toList ++ (t.downItems ++ (before ++ behind)))) := by
      simp only [← List.append_assoc]
      exact List.perm_middle
    refine hasEffect_replace hn hr ?_ (hmiddle r) rfl rfl
    rw [onTile_eq, htop]
    exact hmiddle old
  | @down before behind hdown =>
    have hmiddle (q : ℕ) : (t.ground.toList ++ (before ++ q :: behind ++ t.topItems)).Perm
        (q :: (t.ground.toList ++ (before ++ (behind ++ t.topItems)))) := by
      rw [List.append_assoc, List.cons_append, ← List.append_assoc, ← List.append_assoc]
      exact List.perm_middle
    refine hasEffect_replace hn hr ?_ (hmiddle r) rfl rfl
    rw [onTile_eq, hdown]
    exact hmiddle old

theorem hasEffect_replaceThing (hn : t.onTile.Nodup) (index : ℕ) {thing : Thing}
    (hthing : thing ∉ t.things) :
    HasEffect types t (t.replaceThing types index thing)
      (t.displaced types (.replaceThing index thing))
      (t.placed types (.replaceThing index thing)) := by
  cases thing with
  | creature c => exact hasEffect_refl
  | item r =>
    have hr : r ∉ t.onTile := fun hr => hthing (item_mem_things.2 hr)
    rw [replaceThing, displaced]
    cases hex : t.exchange index r with
    | none => exact hasEffect_refl
    | some p =>
      obtain ⟨old, u⟩ := p
      refine hasEffect_of_exchanged hn hr (exchanged_of_exchange hex)

/-! ## Runs -/

theorem hasEffect_apply (hn : t.onTile.Nodup) {op : Op} (hc : t.Called types op) :
    HasEffect types t (t.apply types op) (t.displaced types op) (t.placed types op) := by
  cases op with
  | addThing thing =>
    cases thing with
    | creature c => exact hasEffect_of_same rfl (fun _ _ => rfl) rfl
    | item r => exact hasEffect_addItem hn fun hr => hc (item_mem_things.2 hr)
  | internalAddThing thing =>
    cases thing with
    | creature c => exact hasEffect_of_same rfl (fun _ _ => rfl) rfl
    | item r =>
      obtain ⟨new, others, he, hnew, hdis, -⟩ :=
        hasEffect_internalAddItem types fun hr => hc (item_mem_things.2 hr)
      exact ⟨new, others, he, hnew, hdis, fun _ h => absurd rfl h⟩
  | removeThing thing count => exact hasEffect_removeThing hn thing count
  | updateThing thing itemId count => exact hasEffect_updateThing hn thing itemId count
  | replaceThing index thing => exact hasEffect_replaceThing hn index hc.1
  | elsewhere object => exact hasEffect_of_same rfl hc rfl

/-- A call keeps the flags derived if and only if it meets the condition. -/
theorem derived_apply_iff (hn : t.onTile.Nodup) (h : Derived types t) {op : Op}
    (hc : t.Called types op) : Derived types (t.apply types op) ↔ Keeps types t op := by
  obtain ⟨new, others, he, -, -, hplaced⟩ := hasEffect_apply hn hc
  rw [he.derived_iff h, Keeps]
  cases hold : t.displaced types op with
  | none => simp [anyMarks]
  | some old =>
    rw [hold] at he hplaced
    have hnew (f : TileState) : (t.apply types op).anyMarks types new f = true ↔
        ∃ item ∈ t.placed types op, item.marks types f = true := by
      rw [hplaced f (Option.some_ne_none _), Option.any_eq_true]
      simp only [Option.mem_def]
    have hothers (f : TileState) : t.othersMark types old f = t.anyMarks types others f :=
      othersMark_eq hn he.before
    simp only [Option.mem_def, Option.some.injEq, forall_eq', hnew, hothers]
    simp [anyMarks]

theorem nodup_apply (hn : t.onTile.Nodup) {op : Op} (hc : t.Called types op) :
    (t.apply types op).onTile.Nodup := by
  obtain ⟨new, others, he, hnew, hdis, -⟩ := hasEffect_apply hn hc
  exact he.nodup hn hnew hdis

theorem derived_empty {object : ℕ → Item} : Derived types (empty object) := fun f => by
  simp [hasFlag, hasBitSet, anyMarks, onTile, empty]

/-- The flags are derived in every run of calls that meet the condition. -/
theorem derived_of_reachable (h : (system types).ReachableVia (Keeps types) t) :
    ∀ f, t.hasFlag f = true ↔ ∃ r ∈ t.onTile, (t.object r).marks types f = true := by
  suffices hs : t.onTile.Nodup ∧ Derived types t by
    intro f
    rw [hs.2 f, anyMarks, List.any_eq_true]
  refine h.invariant (I := fun t => t.onTile.Nodup ∧ Derived types t) (fun t₀ h₀ => ?_)
    fun t op t' ht hkeeps hstep => ?_
  · obtain ⟨object, rfl⟩ := h₀
    exact ⟨List.nodup_nil, derived_empty⟩
  · obtain ⟨hc, rfl⟩ := hstep
    exact ⟨nodup_apply ht.1 hc, (derived_apply_iff ht.1 ht.2 hc).2 hkeeps⟩

/-- Types of items that are walls, on which something can be hung. -/
def walls : ItemTypes := fun _ => { isHorizontal := true }

def oneWall : Tile := (empty fun _ => { id := 1 }).addThing walls (.item 1)

def twoWalls : Tile := oneWall.addThing walls (.item 2)

theorem reachable_oneWall {ok : Tile → Op → Prop}
    (hok : ok (empty fun _ => { id := 1 }) (.addThing (.item 1))) :
    (system walls).ReachableVia ok oneWall :=
  .step (a := .addThing (.item 1)) (.init ⟨_, rfl⟩) hok
    ⟨show Thing.item 1 ∉ (empty _).things by decide, rfl⟩

/-- A wall is built, and taken away. -/
theorem derived_oneWall_removeThing :
    (system walls).ReachableVia (Keeps walls) (oneWall.removeThing walls (.item 1) 1) ∧
      ((oneWall.removeThing walls (.item 1) 1).hasFlag .supportsHangable = true ↔
        ∃ r ∈ (oneWall.removeThing walls (.item 1) 1).onTile,
          ((oneWall.removeThing walls (.item 1) 1).object r).marks walls .supportsHangable =
            true) := by
  have h : (system walls).ReachableVia (Keeps walls) (oneWall.removeThing walls (.item 1) 1) := by
    refine .step (a := .removeThing (.item 1) 1) (reachable_oneWall fun old h => nomatch h) ?_
      ⟨trivial, rfl⟩
    -- No other item is on the tile.
    rintro old h f - - hothers
    obtain rfl : (1 : ℕ) = old := Option.some.inj h
    cases f <;> exact absurd hothers (by decide)
  exact ⟨h, derived_of_reachable h .supportsHangable⟩

/-- One of two walls is taken away. -/
theorem wall_without_flag :
    (system walls).Reachable (twoWalls.removeThing walls (.item 2) 1) ∧
      1 ∈ (twoWalls.removeThing walls (.item 2) 1).onTile ∧
      (((twoWalls.removeThing walls (.item 2) 1).object 1).marks walls .supportsHangable = true) ∧
      (twoWalls.removeThing walls (.item 2) 1).hasFlag .supportsHangable = false :=
  ⟨.step (a := .removeThing (.item 2) 1) (.step (a := .addThing (.item 2))
    (reachable_oneWall trivial) trivial
    ⟨show Thing.item 2 ∉ oneWall.things by decide, rfl⟩) trivial ⟨trivial, rfl⟩, by decide,
    by decide, by decide⟩

end Tile

end Canary.Tiles
