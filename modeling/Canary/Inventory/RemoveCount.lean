import Canary.Inventory.AddMoney
import Canary.Inventory.RemoveItem
import Canary.Inventory.Stash
import Canary.Lib.BreadthFirst
import Mathlib.Algebra.Order.BigOperators.Group.List
import Mathlib.Algebra.Order.Group.Nat

/-!
# Removing so many units of an item

A player is to give units of an item id (`removeItemCountById`), perhaps of a sub type
(`removeItemOfType`), from the inventory and the stash. Both go through the inventory in order and
pick items until the amount is reached.

What is picked is not always what is lost. An item may stay because it may not be removed, and a
container is lost with what it holds. The amount is taken, and nothing else, if and only if nothing
but eligible items goes along, as many units as stay behind (`removal_exact_iff`).
-/

namespace Canary.Inventory

open RoseTree

namespace Object

variable (types : ItemTable) (o : Object)

def getSubType : BitVec 16 := (Items.Item.getSubType types.server o.toItem).setWidth 16

def getTierOf : BitVec 8 := (Items.Item.getTier types.server o.toItem).setWidth 8

/-- `Item::countByType` -/
def countByType (subType : BitVec 32) : ℕ :=
  if subType = -1 ∨ subType = (o.getSubType types).setWidth 32 then o.getItemCount else 0

end Object

/-- The world, and the stash of a player. -/
structure Belongings where
  world : World
  stashItems : StashItemList

namespace Belongings

variable (g : Game) (marks : Marks) (id : PlayerId) (s : Belongings)

/-- What is in the slots of the player. -/
def inventory : List Thing := s.world.heldBy (.player id)

/-- The items of a container, and nothing for another item. -/
def iterated (item : Thing) : List Thing :=
  if Thing.isContainer item then Thing.iterator item else []

def getAllInventoryItems (ignoreEquiped ignoreItemWithTier : Bool) : List Thing :=
  (s.inventory id).flatMap fun item =>
    (if ignoreEquiped then [] else [item]) ++ (iterated item).filter fun i =>
      !(ignoreItemWithTier && 0 < i.label.getTierOf g.types)

def getItemTypeCount (itemId : BitVec 16) (subType : BitVec 32) : BitVec 32 :=
  ((s.inventory id).flatMap fun item => item :: iterated item).foldl (fun count item =>
    if item.label.id = itemId then count + BitVec.ofNat 32 (item.label.countByType g.types subType)
    else count) 0

def hasItemCountById (itemId : BitVec 16) (itemAmount : BitVec 32) (checkStash : Bool) : Bool :=
  let newCount := (s.getAllInventoryItems g id false false).foldl (fun newCount item =>
    if item.label.id ≠ itemId then newCount
    else newCount + BitVec.ofNat 32 item.label.getItemCount) (0 : BitVec 32)
  let newCount := if checkStash then newCount + s.stashItems.getStashItemCount itemId else newCount
  itemAmount ≤ newCount

/-- The loop over the items, with what is then still to be removed, if anything. -/
def removeById (itemId : BitVec 16) : List Thing → ℕ → World → World × Option ℕ
  | [], amountToRemove, w => (w, some amountToRemove)
  | item :: items, amountToRemove, w =>
    if item.label.id ≠ itemId then removeById itemId items amountToRemove w
    else if item.label.getItemCount ≥ amountToRemove then
      ((w.internalRemoveItem g marks item.label.ref (some amountToRemove)).2, none)
    else removeById itemId items (amountToRemove - item.label.getItemCount)
      (w.internalRemoveItem g marks item.label.ref none).2

/-- `Player::removeItemCountById` -/
def removeItemCountById (itemId : BitVec 16) (itemAmount : BitVec 32) (removeFromStash : Bool) :
    Bool × Belongings :=
  if !s.hasItemCountById g id itemId itemAmount removeFromStash then (false, s)
  else
    match removeById g marks itemId (s.getAllInventoryItems g id false false) itemAmount.toNat
        s.world with
    | (w, none) => (true, { s with world := w })
    | (w, some amountToRemove) =>
      if removeFromStash ∧ amountToRemove > 0 then
        match s.stashItems.withdrawItem itemId (BitVec.ofNat 32 amountToRemove) with
        | some stash => (true, ⟨w, stash⟩)
        | none => (false, { s with world := w })
      else (false, { s with world := w })

/-- The items that are looked at, in order. What an item of the id holds is not, if the item is
    looked at itself. -/
def searched (itemId : BitVec 16) (ignoreEquipped : Bool) : List Thing :=
  (s.inventory id).flatMap fun item =>
    if !ignoreEquipped ∧ item.label.id = itemId then [item]
    else (iterated item).filter fun i => i.label.id = itemId

/-- The items up to the amount, if it is reached. -/
def collect (subType amount : BitVec 32) : List Thing → BitVec 32 → Option (List Thing)
  | [], _ => none
  | item :: items, count =>
    let itemCount := item.label.countByType g.types subType
    if itemCount = 0 then collect subType amount items count
    else if count + BitVec.ofNat 32 itemCount ≥ amount then some [item]
    else (collect subType amount items (count + BitVec.ofNat 32 itemCount)).map (item :: ·)

/-- `Game::internalRemoveItems` -/
def internalRemoveItems (stackable : Bool) : List Thing → ℕ → World → World
  | [], _, w => w
  | item :: items, amount, w =>
    if stackable then
      if item.label.getItemCount > amount then
        (w.internalRemoveItem g marks item.label.ref (some amount)).2
      else internalRemoveItems stackable items (amount - item.label.getItemCount)
        (w.internalRemoveItem g marks item.label.ref none).2
    else internalRemoveItems stackable items amount
      (w.internalRemoveItem g marks item.label.ref none).2

/-- `Player::removeItemOfType` -/
def removeItemOfType (itemId : BitVec 16) (amount subType : BitVec 32) (ignoreEquipped : Bool) :
    Bool × Belongings :=
  if amount = 0 then (true, s)
  else
    match collect g subType amount (s.searched id itemId ignoreEquipped) 0 with
    | some itemList =>
      let stackable := (g.types.server.items itemId).stackable
      (true, { s with
        world := internalRemoveItems g marks stackable itemList amount.toNat s.world })
    | none => (false, s)

end Belongings

/-! ## What is picked -/

theorem sum_map_filter (p : Object → Bool) (f : Object → ℕ) (l : List Object) :
    (l.map fun o => if p o then f o else 0).sum = ((l.filter p).map f).sum := by
  induction l with
  | nil => rfl
  | cons o l ih =>
    rw [List.map_cons, List.sum_cons, List.filter_cons, ih]
    split_ifs
    · rw [List.map_cons, List.sum_cons]
    · exact Nat.zero_add _

/-- Of different addresses, one is the right one. -/
theorem sum_map_ite_eq {l : List Ref} (hn : l.Nodup) {r : Ref} (hr : r ∈ l) {n : ℕ} :
    (l.map fun r' => if r = r' then n else 0).sum = n := by
  induction l with
  | nil => exact absurd hr List.not_mem_nil
  | cons r' l ih =>
    rw [List.nodup_cons] at hn
    rw [List.map_cons, List.sum_cons]
    rcases List.mem_cons.1 hr with rfl | hr
    · rw [if_pos rfl, List.sum_eq_zero, Nat.add_zero]
      intro m hm
      obtain ⟨r'', hr'', rfl⟩ := List.mem_map.1 hm
      have hne : r ≠ r'' := fun he => hn.1 (he ▸ hr'')
      exact if_neg hne
    · have hne : r ≠ r' := fun he => hn.1 (he ▸ hr)
      rw [if_neg hne, ih hn.2 hr, Nat.zero_add]

namespace Object

/-- From each object in turn, as much as is still missing. -/
def picks : List Object → ℕ → List (Object × ℕ)
  | [], _ => []
  | o :: os, amount => (o, min o.getItemCount amount) :: picks os (amount - o.getItemCount)

/-- The units that are picked of the object at an address. -/
def asked (os : List Object) (amount : ℕ) (r : Ref) : ℕ :=
  ((picks os amount).map fun c => if c.1.ref = r then c.2 else 0).sum

theorem asked_cons (o : Object) (os : List Object) (amount : ℕ) (r : Ref) :
    asked (o :: os) amount r = (if o.ref = r then min o.getItemCount amount else 0) +
      asked os (amount - o.getItemCount) r := by
  rw [asked, picks, List.map_cons, List.sum_cons, asked]

theorem asked_zero (os : List Object) (r : Ref) : asked os 0 r = 0 := by
  induction os with
  | nil => rfl
  | cons o os ih => rw [asked_cons, Nat.min_zero, ite_self, Nat.zero_sub, ih]

theorem asked_of_notMem {os : List Object} {r : Ref} (h : ∀ o ∈ os, o.ref ≠ r) (amount : ℕ) :
    asked os amount r = 0 := by
  induction os generalizing amount with
  | nil => rfl
  | cons o os ih =>
    rw [asked_cons, if_neg (h o List.mem_cons_self),
      ih fun o' ho' => h o' (List.mem_cons_of_mem _ ho')]

/-- No more is picked of an object than there is. -/
theorem asked_le {os : List Object} (hn : (os.map Object.ref).Nodup) {o : Object} {m : ℕ}
    (ho : ∀ o' ∈ os, o'.ref = o.ref → o'.getItemCount ≤ m) (amount : ℕ) :
    asked os amount o.ref ≤ m := by
  induction os generalizing amount with
  | nil => exact Nat.zero_le _
  | cons o' os ih =>
    rw [List.map_cons, List.nodup_cons] at hn
    rw [asked_cons]
    split_ifs with he
    · rw [asked_of_notMem fun o₂ ho₂ he₂ => hn.1 (he.trans he₂.symm ▸ List.mem_map_of_mem ho₂)]
      exact (min_le_left _ _).trans (ho o' List.mem_cons_self he)
    · rw [Nat.zero_add]
      exact ih hn.2 (fun o₂ ho₂ => ho o₂ (List.mem_cons_of_mem _ ho₂)) _

/-- The objects have so many units. -/
def total (os : List Object) : ℕ := (os.map getItemCount).sum

theorem total_cons (o : Object) (os : List Object) :
    total (o :: os) = o.getItemCount + total os := by
  rw [total, List.map_cons, List.sum_cons, total]

/-- What is picked is the amount, or all that there is. -/
theorem sum_picks (os : List Object) (amount : ℕ) :
    ((picks os amount).map Prod.snd).sum = min (total os) amount := by
  induction os generalizing amount with
  | nil => rw [picks, total, List.map_nil, List.map_nil, List.sum_nil, Nat.zero_min]
  | cons o os ih =>
    rw [picks, List.map_cons, List.sum_cons, ih, total_cons]
    omega

/-- What is picked of the objects of a list that has those picked. -/
theorem sum_asked {os before : List Object} (hn : (before.map Object.ref).Nodup)
    (hsub : ∀ o ∈ os, o.ref ∈ before.map Object.ref) (amount : ℕ) :
    (before.map fun o => asked os amount o.ref).sum = min (total os) amount := by
  rw [← sum_picks]
  induction os generalizing amount with
  | nil =>
    refine List.sum_eq_zero fun n hn => ?_
    obtain ⟨o, -, rfl⟩ := List.mem_map.1 hn
    rfl
  | cons o os ih =>
    have hone : (before.map fun o' => if o.ref = o'.ref then min o.getItemCount amount else 0).sum =
        min o.getItemCount amount := by
      have hmap : (before.map fun o' => if o.ref = o'.ref then min o.getItemCount amount else 0) =
          (before.map Object.ref).map fun r =>
            if o.ref = r then min o.getItemCount amount else 0 := by
        rw [List.map_map]
        rfl
      rw [hmap]
      exact sum_map_ite_eq hn (hsub o List.mem_cons_self)
    have hsum : (before.map fun o' => asked (o :: os) amount o'.ref) = before.map fun o' =>
        (if o.ref = o'.ref then min o.getItemCount amount else 0) +
          asked os (amount - o.getItemCount) o'.ref :=
      List.map_congr_left fun o' _ => asked_cons o os amount o'.ref
    rw [hsum, List.sum_map_add, hone, ih fun o' ho' => hsub o' (List.mem_cons_of_mem _ ho'), picks,
      List.map_cons, List.sum_cons]

end Object

/-! ## What is lost -/

section balance

variable (eligible : Ref → Bool) (gone : Object → Bool) (less ask : Ref → ℕ) (ts : List Thing)

/-- The units of the objects at certain addresses. -/
def unitsAt (objects : List Object) : ℕ :=
  (objects.map fun o => if eligible o.ref then o.getItemCount else 0).sum

/-- The units that are lost and have not been picked. -/
def goneAlong : ℕ :=
  ((lost gone ts).map fun o => (if eligible o.ref then o.getItemCount else 0) - ask o.ref).sum

/-- The units that have been picked and are not taken. -/
def leftBehind : ℕ :=
  (((pruneForest gone ts).flatMap labels).map fun o => ask o.ref - less o.ref).sum

/-- The objects with some units less, without those that are gone. -/
def remaining : List Object :=
  ((pruneForest gone ts).flatMap labels).map fun o =>
    o.setItemCount (o.getItemCount - less o.ref)

theorem sum_sub_add {l : List Object} {f f' : Object → ℕ} (h : ∀ o ∈ l, f' o ≤ f o) :
    (l.map fun o => f o - f' o).sum + (l.map f').sum = (l.map f).sum := by
  rw [← List.sum_map_add]
  exact congrArg _ (List.map_congr_left fun o ho => Nat.sub_add_cancel (h o ho))

variable {less ask ts}

/-- What remains is what has been there without what was picked, up to what goes along and what
    is left behind. -/
theorem unitsAt_remaining (hless : ∀ o ∈ ts.flatMap labels, less o.ref ≤ ask o.ref)
    (hask : ∀ o ∈ ts.flatMap labels, ask o.ref ≤ if eligible o.ref then o.getItemCount else 0) :
    unitsAt eligible (remaining gone less ts) + ((ts.flatMap labels).map fun o => ask o.ref).sum +
        goneAlong eligible gone ask ts =
      unitsAt eligible (ts.flatMap labels) + leftBehind gone less ask ts := by
  have hperm := labels_pruneForest_perm gone ts
  have hstays : ∀ o ∈ (pruneForest gone ts).flatMap labels, o ∈ ts.flatMap labels := fun o ho =>
    hperm.mem_iff.2 (List.mem_append_left _ ho)
  have hlost : ∀ o ∈ lost gone ts, o ∈ ts.flatMap labels := fun o ho =>
    hperm.mem_iff.2 (List.mem_append_right _ ho)
  have hremaining : unitsAt eligible (remaining gone less ts) =
      (((pruneForest gone ts).flatMap labels).map fun o =>
        (if eligible o.ref then o.getItemCount else 0) - less o.ref).sum := by
    rw [unitsAt, remaining, List.map_map]
    refine congrArg _ (List.map_congr_left fun o _ => ?_)
    have hcount : (o.setItemCount (o.getItemCount - less o.ref)).getItemCount =
        o.getItemCount - less o.ref := by
      rw [Object.getItemCount, Object.setItemCount, BitVec.toNat_ofNat]
      exact Nat.mod_eq_of_lt (Nat.lt_of_le_of_lt (Nat.sub_le _ _) o.count.isLt)
    rw [Function.comp, hcount, Object.setItemCount]
    split
    · rfl
    · exact (Nat.zero_sub _).symm
  have hunits := sum_pruneForest gone
    (fun o : Object => if eligible o.ref then o.getItemCount else 0) ts
  have hasked := sum_pruneForest gone (fun o : Object => ask o.ref) ts
  -- Each of the four differences is exact.
  have h₁ := sum_sub_add fun o ho => (hless o (hstays o ho)).trans (hask o (hstays o ho))
  have h₂ := sum_sub_add fun o ho => hless o (hstays o ho)
  have h₃ := sum_sub_add fun o ho => hask o (hlost o ho)
  rw [hremaining, goneAlong, leftBehind, unitsAt]
  omega

/-- The others remain if and only if none of them is lost. -/
theorem remaining_iff (hd : Distinct Object.ref ts)
    (hless : ∀ o ∈ ts.flatMap labels, eligible o.ref = false → less o.ref = 0) :
    (∀ o ∈ ts.flatMap labels, eligible o.ref = false → o ∈ remaining gone less ts) ↔
      ∀ o ∈ lost gone ts, eligible o.ref = true := by
  have hperm := labels_pruneForest_perm gone ts
  have hmem : ∀ o ∈ ts.flatMap labels, eligible o.ref = false →
      (o ∈ remaining gone less ts ↔ o ∉ lost gone ts) := by
    intro o ho hother
    have hsame : o.setItemCount (o.getItemCount - less o.ref) = o := by
      rw [hless o ho hother]
      exact o.setItemCount_getItemCount
    rw [← mem_pruneForest_iff hd ho, remaining, List.mem_map]
    constructor
    · rintro ⟨o', ho', he⟩
      have hr : o'.ref = o.ref := by
        rw [← he]
        rfl
      rw [← hd.label_eq (hperm.mem_iff.2 (List.mem_append_left _ ho')) ho hr]
      exact ho'
    · exact fun h => ⟨o, h, hsame⟩
  constructor
  · intro h o ho
    have ho' : o ∈ ts.flatMap labels := hperm.mem_iff.2 (List.mem_append_right _ ho)
    by_contra hother
    rw [Bool.not_eq_true] at hother
    exact (hmem o ho' hother).1 (h o ho' hother) ho
  · intro h o ho hother
    refine (hmem o ho hother).2 fun hlost => ?_
    rw [h o hlost] at hother
    nomatch hother

end balance

/-! ## The loops -/

namespace Object

variable (types : ItemTable) (marks : Marks) (placed : Bool)

/-- The removals of what is picked. -/
def removals (os : List Object) (amount : ℕ) : List (Object × Option ℕ) :=
  (picks os amount).map fun c => (c.1, some c.2)

/-- The removals `calls` take as much as the removals of what is picked. -/
structure Picks (calls : List (Object × Option ℕ)) (os : List Object) (amount : ℕ) : Prop where
  sublist : (calls.map Prod.fst).Sublist os
  gone : goneBy types marks placed calls = goneBy types marks placed (removals os amount)
  less : lessBy types marks placed calls = lessBy types marks placed (removals os amount)

variable {types marks placed}

/-- Nothing is taken where nothing is picked. -/
theorem taken_zero (o : Object) : o.taken types marks placed (some 0) = .nothing := by
  rw [taken]
  exact if_pos (.inl rfl)

theorem less_taken_le (o : Object) (n : ℕ) :
    (o.taken types marks placed (some n)).less ≤ n := by
  rw [taken, Option.getD_some]
  split_ifs <;> first | exact Nat.zero_le _ | exact Nat.le_refl n

theorem lessBy_removals_le (os : List Object) (amount : ℕ) (r : Ref) :
    lessBy types marks placed (removals os amount) r ≤ asked os amount r := by
  induction os generalizing amount with
  | nil => exact Nat.zero_le _
  | cons o os ih =>
    rw [asked_cons, removals, picks, List.map_cons, lessBy_cons]
    refine Nat.add_le_add ?_ (ih _)
    split_ifs
    · exact less_taken_le o _
    · exact Nat.le_refl 0

theorem picks_nil (os : List Object) : Picks types marks placed [] os 0 := by
  refine ⟨List.nil_sublist os, ?_, ?_⟩
  · induction os with
    | nil => rfl
    | cons o os ih =>
      rw [removals, picks, Nat.min_zero, Nat.zero_sub, List.map_cons,
        goneBy_cons_of_ne (by rw [taken_zero]; exact nofun)]
      exact ih
  · funext r
    exact (Nat.le_zero.1 ((lessBy_removals_le os 0 r).trans (asked_zero os r).le)).symm

theorem Picks.cons {calls : List (Object × Option ℕ)} {os : List Object} {amount : ℕ} {o : Object}
    {count : Option ℕ} (h : Picks types marks placed calls os (amount - o.getItemCount))
    (hcount : o.taken types marks placed count =
      o.taken types marks placed (some (min o.getItemCount amount))) :
    Picks types marks placed ((o, count) :: calls) (o :: os) amount := by
  refine ⟨h.sublist.cons_cons o, ?_, ?_⟩
  · funext o'
    rw [removals, picks, List.map_cons, goneBy_cons, goneBy_cons, hcount, h.gone, removals]
  · funext r
    rw [removals, picks, List.map_cons, lessBy_cons, lessBy_cons, hcount, h.less, removals]

end Object

namespace Belongings

variable {g : Game} {marks : Marks}

/-- The items of an id, as objects. -/
def ofId (itemId : BitVec 16) (items : List Thing) : List Object :=
  (items.filter fun i => i.label.id = itemId).map label

theorem ofId_cons_of_eq {itemId : BitVec 16} {item : Thing} {items : List Thing}
    (hid : item.label.id = itemId) :
    ofId itemId (item :: items) = item.label :: ofId itemId items := by
  rw [ofId, List.filter_cons, if_pos (decide_eq_true hid), List.map_cons, ofId]

theorem ofId_cons_of_ne {itemId : BitVec 16} {item : Thing} {items : List Thing}
    (hid : item.label.id ≠ itemId) : ofId itemId (item :: items) = ofId itemId items := by
  rw [ofId, List.filter_cons, if_neg fun h => hid (of_decide_eq_true h), ofId]

/-- The loop of `removeItemCountById` picks from the items of the id in turn. -/
theorem removeById_eq (marks : Marks) (placed : Bool) (itemId : BitVec 16) (items : List Thing) :
    ∀ amount, 0 < amount → ∃ calls,
      Object.Picks g.types marks placed calls (ofId itemId items) amount ∧ ∀ w : World,
        removeById g marks itemId items amount w = (w.removeItems g marks calls,
          if amount ≤ Object.total (ofId itemId items) then none
          else some (amount - Object.total (ofId itemId items))) := by
  induction items with
  | nil =>
    intro amount hamount
    refine ⟨[], ⟨List.nil_sublist _, rfl, rfl⟩, fun w => ?_⟩
    rw [removeById, if_neg (by exact Nat.not_le.2 hamount)]
    rfl
  | cons item items ih =>
    intro amount hamount
    by_cases hid : item.label.id = itemId
    · rw [ofId_cons_of_eq hid, Object.total_cons]
      by_cases hlast : item.label.getItemCount ≥ amount
      · -- The item has all that is missing.
        refine ⟨[(item.label, some amount)], Object.Picks.cons ?_ ?_, fun w => ?_⟩
        · rw [Nat.sub_eq_zero_of_le hlast]
          exact Object.picks_nil _
        · rw [Nat.min_eq_right hlast]
        · rw [removeById, if_neg (not_not.2 hid), if_pos hlast,
            if_pos (Nat.le_trans hlast (Nat.le_add_right _ _))]
          rfl
      · have hlt := Nat.not_le.1 hlast
        obtain ⟨calls, hpicks, hrun⟩ := ih (amount - item.label.getItemCount) (by omega)
        refine ⟨(item.label, none) :: calls, hpicks.cons ?_, fun w => ?_⟩
        · rw [Nat.min_eq_left hlt.le]
          rfl
        · rw [removeById, if_neg (not_not.2 hid), if_neg hlast, hrun]
          refine congrArg₂ Prod.mk rfl ?_
          rw [Nat.sub_sub]
          exact if_congr Nat.sub_le_iff_le_add' rfl rfl
    · obtain ⟨calls, hpicks, hrun⟩ := ih amount hamount
      rw [ofId_cons_of_ne hid]
      refine ⟨calls, hpicks, fun w => ?_⟩
      rw [removeById, if_pos hid, hrun]

/-- `internalRemoveItems` picks from a stack in turn. -/
theorem internalRemoveItems_stackable (marks : Marks) (placed : Bool) (items : List Thing) :
    ∀ amount, ∃ calls,
    Object.Picks g.types marks placed calls (items.map label) amount ∧ ∀ w : World,
      internalRemoveItems g marks true items amount w = w.removeItems g marks calls := by
  induction items with
  | nil => exact fun amount => ⟨[], ⟨List.nil_sublist _, rfl, rfl⟩, fun w => rfl⟩
  | cons item items ih =>
    intro amount
    rw [List.map_cons]
    by_cases hlast : item.label.getItemCount > amount
    · refine ⟨[(item.label, some amount)], Object.Picks.cons ?_ ?_, fun w => ?_⟩
      · rw [Nat.sub_eq_zero_of_le hlast.le]
        exact Object.picks_nil _
      · rw [Nat.min_eq_right hlast.le]
      · rw [internalRemoveItems, if_pos rfl, if_pos hlast]
        rfl
    · obtain ⟨calls, hpicks, hrun⟩ := ih (amount - item.label.getItemCount)
      refine ⟨(item.label, none) :: calls, hpicks.cons ?_, fun w => ?_⟩
      · rw [Nat.min_eq_left (Nat.not_lt.1 hlast)]
        rfl
      · rw [internalRemoveItems, if_pos rfl, if_neg hlast, hrun]
        rfl

/-- Items that do not stack are removed as they are. -/
theorem internalRemoveItems_plain (items : List Thing) (amount : ℕ) (w : World) :
    internalRemoveItems g marks false items amount w =
      w.removeItems g marks (items.map fun i => (i.label, none)) := by
  induction items generalizing w with
  | nil => rfl
  | cons item items ih =>
    rw [internalRemoveItems, if_neg Bool.false_ne_true, ih]
    rfl

end Belongings

/-! ## The items of an inventory -/

namespace Thing

theorem iterate_eq (fuel : ℕ) (queue : List Thing) : iterate fuel queue =
    breadthFirst (fun i => isContainer i && size i ≠ 0) fuel queue := by
  induction fuel generalizing queue with
  | zero => rw [iterate, breadthFirst]
  | succ fuel ih =>
    rcases queue with _ | ⟨c, queue⟩
    · rfl
    · rw [iterate, breadthFirst, ih]

end Thing

namespace Belongings

variable {g : Game} {marks : Marks} {id : PlayerId} {s : Belongings}

/-- All that is in a container, however deep, in another order. -/
theorem iterated_perm {t : Thing}
    (h : ∀ i ∈ t.nodes, i.label.storage = none → i.children = []) :
    (iterated t).Perm (t.children.flatMap nodes) := by
  rw [iterated]
  split_ifs with hc
  · rw [Thing.iterator, Thing.iterate_eq]
    refine (breadthFirst_perm (by rw [List.flatMap_singleton])).trans ?_
    rw [List.flatMap_singleton, under_eq, forestUnder_eq]
    intro i hi hexpand
    obtain ⟨c, hct, hi⟩ := List.mem_flatMap.1 hi
    rw [Bool.and_eq_false_iff] at hexpand
    rcases hexpand with hnone | hsize
    · exact h i (mem_nodes_of_mem_children hct hi) (Option.not_isSome_iff_eq_none.1 (by
        rw [← Thing.isContainer, hnone]
        exact Bool.false_ne_true))
    · exact List.length_eq_zero_iff.1 (by simpa [Thing.size] using hsize)
  · rw [Thing.isContainer, Bool.not_eq_true, Option.isSome_eq_false_iff,
      Option.isNone_iff_eq_none] at hc
    rw [h t (mem_nodes_self t) hc]
    exact .refl _

theorem leaf_inventory (id : PlayerId) (h : s.world.WellFormed g.types) :
    ∀ t ∈ s.inventory id, ∀ i ∈ t.nodes, i.label.storage = none → i.children = [] :=
  fun t ht i hi => h.heap.leaf i (World.heldBy_nodes (List.mem_flatMap.2 ⟨t, ht, hi⟩))

/-- Every item that the player carries, each once. -/
theorem getAllInventoryItems_perm (h : s.world.WellFormed g.types) :
    (s.getAllInventoryItems g id false false).Perm ((s.inventory id).flatMap nodes) := by
  refine List.Perm.flatMap_left _ fun t ht => ?_
  have hall : (iterated t).filter (fun i => !(false && decide (0 < i.label.getTierOf g.types))) =
      iterated t :=
    List.filter_eq_self.2 fun _ _ => rfl
  obtain ⟨o, cs⟩ := t
  rw [if_neg Bool.false_ne_true, hall, nodes_node, List.singleton_append]
  exact (iterated_perm (leaf_inventory id h _ ht)).cons _

/-- The items that are looked at are among those that the player carries. -/
theorem searched_subperm (id : PlayerId) (h : s.world.WellFormed g.types) (itemId : BitVec 16)
    (ignoreEquipped : Bool) : (s.searched id itemId ignoreEquipped).Subperm
      ((s.inventory id).flatMap fun t =>
        if ignoreEquipped then t.children.flatMap nodes else nodes t) := by
  have hleaf := leaf_inventory id h
  rw [searched]
  generalize s.inventory id = inventory at hleaf ⊢
  induction inventory with
  | nil => exact List.Subperm.refl _
  | cons t ts ih =>
    rw [List.flatMap_cons, List.flatMap_cons]
    refine List.Subperm.append ?_ (ih fun t' ht' => hleaf t' (List.mem_cons_of_mem _ ht'))
    have hperm := iterated_perm (hleaf t List.mem_cons_self)
    have hbelow : ((iterated t).filter fun i => i.label.id = itemId).Subperm
        (t.children.flatMap nodes) :=
      List.filter_sublist.subperm.trans hperm.subperm
    obtain ⟨o, cs⟩ := t
    cases ignoreEquipped
    · rw [if_neg Bool.false_ne_true, nodes_node]
      split_ifs
      · exact (List.singleton_sublist.2 List.mem_cons_self).subperm
      · exact hbelow.trans (List.sublist_cons_self _ _).subperm
    · rw [if_neg fun hc => Bool.false_ne_true hc.1, if_pos rfl]
      exact hbelow

/-! ## All or nothing -/

variable (g marks id s)

/-- What the player carries, whatever it weighs. -/
def objects : List Object := (s.world.carried (.player id)).flatMap labels

/-- What the player carries besides what is in the slots. -/
def stored : List Object :=
  (s.world.carried (.player id)).flatMap fun t => t.children.flatMap labels

/-- The addresses of the objects of a kind. -/
def addresses (kind : Object → Bool) (os : List Object) (r : Ref) : Bool :=
  os.any fun o => kind o && o.ref = r

/-- The eligible units that the player has, with those of an item id in the stash. -/
def held (eligible : Ref → Bool) (stashId : Option (BitVec 16)) : ℕ :=
  unitsAt eligible (s.objects id) +
    ((stashId.map s.stashItems.getStashItemCount).getD 0).toNat

/-- An amount of the eligible units is removed if there is that much, and else nothing. -/
structure AllOrNothing (eligible : Ref → Bool) (stashId : Option (BitVec 16)) (amount : ℕ)
    (ret : Bool) (s' : Belongings) : Prop where
  ret_iff : ret = true ↔ amount ≤ s.held id eligible stashId
  removed : ret = true →
    s'.held id eligible stashId + amount = s.held id eligible stashId
  kept : ret = true → ∀ o ∈ s.objects id, eligible o.ref = false → o ∈ s'.objects id
  stash : ret = true → ∀ i, stashId ≠ some i →
    s'.stashItems.getStashItemCount i = s.stashItems.getStashItemCount i
  unchanged : ret = false → s' = s

/-- Of what is lost with the removals all is eligible, and as many units that were not picked go
    along as picked units stay. -/
structure Exact (eligible : Ref → Bool) (calls : List (Object × Option ℕ)) (os : List Object)
    (amount : ℕ) : Prop where
  lost_eligible : ∀ o ∈ lost (Object.goneBy g.types marks (s.world.isPlaced id) calls)
    (s.world.carried (.player id)), eligible o.ref = true
  balanced : goneAlong eligible (Object.goneBy g.types marks (s.world.isPlaced id) calls)
      (Object.asked os amount) (s.world.carried (.player id)) =
    leftBehind (Object.goneBy g.types marks (s.world.isPlaced id) calls)
      (Object.lessBy g.types marks (s.world.isPlaced id) calls) (Object.asked os amount)
      (s.world.carried (.player id))

variable {g marks id s}

theorem objects_eq : s.objects id =
    ((s.inventory id).flatMap labels).map Object.weightless := by
  rw [objects, World.carried, List.flatMap_map, inventory, List.map_flatMap]
  exact List.flatMap_congr fun t _ => labels_relabel _ t

theorem mem_objects {o : Object} (ho : o ∈ (s.inventory id).flatMap labels) :
    o.weightless ∈ s.objects id := by
  rw [objects_eq]
  exact List.mem_map_of_mem ho

theorem distinct_carried (id : PlayerId) (h : s.world.WellFormed g.types) :
    Distinct Object.ref (s.world.carried (.player id)) :=
  World.distinct_carried h id

/-- What remains of what the player carries, after removals. -/
theorem objects_removeItems (marks : Marks) (h : s.world.WellFormed g.types)
    {calls : List (Object × Option ℕ)}
    (hn : (calls.map fun c => c.1.ref).Nodup)
    (hcalls : ∀ c ∈ calls, c.1 ∈ (s.inventory id).flatMap labels) (stash : StashItemList) :
    objects id ⟨s.world.removeItems g marks calls, stash⟩ =
      remaining (Object.goneBy g.types marks (s.world.isPlaced id) calls)
        (Object.lessBy g.types marks (s.world.isPlaced id) calls)
        (s.world.carried (.player id)) := by
  obtain ⟨-, hcarried, -⟩ := World.carried_removeItems marks id calls h hn
    fun c hc o ho hr => (distinct_carried id h).label_eq ho (mem_objects (hcalls c hc)) hr
  rw [objects, hcarried, List.flatMap_map, remaining, List.map_flatMap]
  exact List.flatMap_congr fun t _ => labels_relabel _ t

/-- Removals that take the same are as exact. -/
theorem Exact.congr {eligible : Ref → Bool} {calls calls' : List (Object × Option ℕ)}
    {os : List Object} {amount : ℕ}
    (hgone : Object.goneBy g.types marks (s.world.isPlaced id) calls =
      Object.goneBy g.types marks (s.world.isPlaced id) calls')
    (hless : Object.lessBy g.types marks (s.world.isPlaced id) calls =
      Object.lessBy g.types marks (s.world.isPlaced id) calls')
    (he : s.Exact g marks id eligible calls os amount) :
    s.Exact g marks id eligible calls' os amount := by
  obtain ⟨hlost, hbalanced⟩ := he
  rw [hgone] at hlost
  rw [hgone, hless] at hbalanced
  exact ⟨hlost, hbalanced⟩

/-- The objects picked from are eligible objects of the player. -/
structure PicksFrom (id : PlayerId) (s : Belongings) (eligible : Ref → Bool)
    (os : List Object) : Prop where
  nodup : (os.map Object.ref).Nodup
  mem : ∀ o ∈ os, o ∈ (s.inventory id).flatMap labels
  eligible : ∀ o ∈ os, eligible o.ref = true

theorem PicksFrom.asked_le {eligible : Ref → Bool} {os : List Object}
    (hos : PicksFrom id s eligible os) (h : s.world.WellFormed g.types) (amount : ℕ) :
    ∀ o ∈ s.objects id, Object.asked os amount o.ref ≤
      if eligible o.ref then o.getItemCount else 0 := by
  intro o ho
  by_cases hin : ∃ o' ∈ os, o'.ref = o.ref
  · obtain ⟨o', ho', hr⟩ := hin
    rw [if_pos (hr ▸ hos.eligible o' ho')]
    refine Object.asked_le hos.nodup (fun o₂ ho₂ hr₂ => ?_) amount
    have hsame : o = o₂.weightless :=
      (distinct_carried id h).label_eq ho (mem_objects (hos.mem o₂ ho₂)) hr₂.symm
    rw [hsame]
    exact Nat.le_refl _
  · rw [Object.asked_of_notMem fun o' ho' hr => hin ⟨o', ho', hr⟩]
    exact Nat.zero_le _

/-- What was picked is taken, and nothing else, if and only if the removals are exact. -/
theorem exact_iff (h : s.world.WellFormed g.types) {eligible : Ref → Bool} {os : List Object}
    (hos : PicksFrom id s eligible os) {calls : List (Object × Option ℕ)} {amount : ℕ}
    (hless : ∀ r, Object.lessBy g.types marks (s.world.isPlaced id) calls r ≤
      Object.asked os amount r) :
    (unitsAt eligible (remaining (Object.goneBy g.types marks (s.world.isPlaced id) calls)
            (Object.lessBy g.types marks (s.world.isPlaced id) calls)
            (s.world.carried (.player id))) + min (Object.total os) amount =
          unitsAt eligible (s.objects id) ∧
        ∀ o ∈ s.objects id, eligible o.ref = false →
          o ∈ remaining (Object.goneBy g.types marks (s.world.isPlaced id) calls)
            (Object.lessBy g.types marks (s.world.isPlaced id) calls)
            (s.world.carried (.player id))) ↔
      s.Exact g marks id eligible calls os amount := by
  have hask := hos.asked_le h amount
  have hsum : ((s.objects id).map fun o => Object.asked os amount o.ref).sum =
      min (Object.total os) amount := by
    refine Object.sum_asked (distinct_carried id h) (fun o ho => ?_) amount
    exact List.mem_map.2 ⟨o.weightless, mem_objects (hos.mem o ho), rfl⟩
  have hunits := unitsAt_remaining eligible
    (Object.goneBy g.types marks (s.world.isPlaced id) calls) (fun o _ => hless o.ref) hask
  have hless₀ : ∀ o ∈ s.objects id, eligible o.ref = false →
      Object.lessBy g.types marks (s.world.isPlaced id) calls o.ref = 0 := by
    intro o ho hother
    have hle := hask o ho
    rw [hother, if_neg Bool.false_ne_true] at hle
    exact Nat.le_zero.1 ((hless o.ref).trans hle)
  have hkept := remaining_iff eligible (Object.goneBy g.types marks (s.world.isPlaced id) calls)
    (distinct_carried id h) hless₀
  rw [← objects, hsum] at hunits
  constructor
  · rintro ⟨hremoved, hothers⟩
    exact ⟨hkept.1 hothers, by omega⟩
  · rintro ⟨hlost, hbalanced⟩
    exact ⟨by omega, hkept.2 hlost⟩

/-! ## By id -/

theorem addresses_iff (h : s.world.WellFormed g.types) {kind : Object → Bool} {os : List Object}
    (hsub : os ⊆ s.objects id) {o : Object} (ho : o ∈ s.objects id) :
    addresses kind os o.ref = true ↔ o ∈ os ∧ kind o = true := by
  rw [addresses, List.any_eq_true]
  constructor
  · rintro ⟨o', ho', hkind⟩
    rw [Bool.and_eq_true, decide_eq_true_eq] at hkind
    rw [← (distinct_carried id h).label_eq (hsub ho') ho hkind.2]
    exact ⟨ho', hkind.1⟩
  · rintro ⟨hos, hkind⟩
    exact ⟨o, hos, by rw [hkind, decide_eq_true rfl]; rfl⟩

variable (g id s) in
/-- The items of an id that the player carries, in the order of the inventory. -/
def itemsOfId (itemId : BitVec 16) : List Object :=
  ofId itemId (s.getAllInventoryItems g id false false)

variable (id s) in
/-- The addresses of the items of an id. -/
def isOfId (itemId : BitVec 16) : Ref → Bool :=
  addresses (fun o => o.id = itemId) (s.objects id)

theorem labels_getAllInventoryItems (h : s.world.WellFormed g.types) :
    ((s.getAllInventoryItems g id false false).map label).Perm
      ((s.inventory id).flatMap labels) := by
  refine ((getAllInventoryItems_perm h).map label).trans ?_
  rw [List.map_flatMap]
  exact .refl _

theorem itemsOfId_perm (id : PlayerId) (h : s.world.WellFormed g.types) (itemId : BitVec 16) :
    (s.itemsOfId g id itemId).Perm
      (((s.inventory id).flatMap labels).filter fun o => o.id = itemId) := by
  refine List.Perm.trans ?_ ((labels_getAllInventoryItems h).filter _)
  rw [itemsOfId, ofId, List.filter_map]
  exact .refl _

theorem picksFrom_itemsOfId (id : PlayerId) (h : s.world.WellFormed g.types) (itemId : BitVec 16) :
    PicksFrom id s (s.isOfId id itemId) (s.itemsOfId g id itemId) := by
  have hperm := itemsOfId_perm id h itemId
  refine ⟨?_, fun o ho => ?_, fun o ho => ?_⟩
  · refine (hperm.map Object.ref).nodup_iff.2 ?_
    exact (World.distinct_heldBy h.heap.distinct _).sublist (List.filter_sublist.map _)
  · exact (List.mem_filter.1 (hperm.mem_iff.1 ho)).1
  · obtain ⟨hmem, hid⟩ := List.mem_filter.1 (hperm.mem_iff.1 ho)
    exact (addresses_iff h (List.Subset.refl _) (mem_objects hmem)).2 ⟨mem_objects hmem, hid⟩

theorem total_itemsOfId (id : PlayerId) (h : s.world.WellFormed g.types) (itemId : BitVec 16) :
    unitsAt (s.isOfId id itemId) (s.objects id) = Object.total (s.itemsOfId g id itemId) := by
  have hkind : ∀ o ∈ s.objects id, (if s.isOfId id itemId o.ref then o.getItemCount else 0) =
      if o.id = itemId then o.getItemCount else 0 := by
    intro o ho
    refine if_congr ?_ rfl rfl
    rw [isOfId, addresses_iff h (List.Subset.refl _) ho, and_iff_right ho, decide_eq_true_eq]
  rw [unitsAt, List.map_congr_left hkind, objects_eq, List.map_map, Object.total,
    ((itemsOfId_perm id h itemId).map _).sum_eq, ← sum_map_filter]
  refine congrArg _ (List.map_congr_left fun o _ => ?_)
  exact if_congr decide_eq_true_iff.symm rfl rfl

/-- The counts that are added up in 32 bits. -/
theorem hasItemCountById_iff (itemId : BitVec 16) (itemAmount : BitVec 32) (checkStash : Bool) :
    s.hasItemCountById g id itemId itemAmount checkStash = true ↔ itemAmount.toNat ≤
      (Object.total (s.itemsOfId g id itemId) +
        if checkStash then (s.stashItems.getStashItemCount itemId).toNat else 0) % 2 ^ 32 := by
  have hfold : ∀ (items : List Thing) (n : BitVec 32), items.foldl (fun newCount item =>
      if item.label.id ≠ itemId then newCount
      else newCount + BitVec.ofNat 32 item.label.getItemCount) n =
        n + BitVec.ofNat 32 (Object.total (ofId itemId items)) := by
    intro items
    induction items with
    | nil => exact fun n => (BitVec.add_zero n).symm
    | cons item items ih =>
      intro n
      rw [List.foldl_cons, ih]
      by_cases hid : item.label.id = itemId
      · rw [if_neg (not_not.2 hid), ofId_cons_of_eq hid, Object.total_cons, BitVec.ofNat_add,
          BitVec.add_assoc]
      · rw [if_pos hid, ofId_cons_of_ne hid]
  rw [hasItemCountById, hfold, zero_add, ← itemsOfId, decide_eq_true_eq, BitVec.le_def]
  cases checkStash
  · rw [if_neg Bool.false_ne_true, if_neg Bool.false_ne_true, BitVec.toNat_ofNat, Nat.add_zero]
  · rw [if_pos rfl, if_pos rfl, BitVec.toNat_add, BitVec.toNat_ofNat, Nat.mod_add_mod]

/-- A run of removals of what is picked, and then a stash. -/
theorem allOrNothing_iff (h : s.world.WellFormed g.types) {eligible : Ref → Bool}
    {os : List Object} (hos : PicksFrom id s eligible os) {calls : List (Object × Option ℕ)}
    {amount : ℕ} (hsub : (calls.map Prod.fst).Sublist os)
    (hless : ∀ r, Object.lessBy g.types marks (s.world.isPlaced id) calls r ≤
      Object.asked os amount r) {stashId : Option (BitVec 16)} {stash : StashItemList}
    (henough : amount ≤ s.held id eligible stashId)
    (hstash : ∀ i, stashId ≠ some i →
      stash.getStashItemCount i = s.stashItems.getStashItemCount i)
    (hrest : ((stashId.map stash.getStashItemCount).getD 0).toNat + (amount - Object.total os) =
      ((stashId.map s.stashItems.getStashItemCount).getD 0).toNat) :
    s.AllOrNothing id eligible stashId amount true ⟨s.world.removeItems g marks calls, stash⟩ ↔
      s.Exact g marks id eligible calls os amount := by
  have hn : (calls.map fun c => c.1.ref).Nodup := by
    have hnodup := hos.nodup.sublist (hsub.map Object.ref)
    rwa [List.map_map] at hnodup
  have hcalls : ∀ c ∈ calls, c.1 ∈ (s.inventory id).flatMap labels := fun c hc =>
    hos.mem c.1 (hsub.subset (List.mem_map_of_mem hc))
  have hobjects := objects_removeItems marks h hn hcalls stash
  rw [← exact_iff h hos hless, ← hobjects]
  constructor
  · rintro ⟨-, hremoved, hkept, -, -⟩
    have hheld := hremoved rfl
    rw [held, held] at hheld
    exact ⟨by dsimp only at hheld; omega, hkept rfl⟩
  · rintro ⟨hremoved, hkept⟩
    refine ⟨iff_of_true rfl henough, fun _ => ?_, fun _ => hkept, fun _ => hstash, nofun⟩
    rw [held, held]
    dsimp only
    omega

/-- `removeItemCountById` takes the amount if there is that much, and else nothing, if and only if
    the counts that reach the amount do so when they are added up in 32 bits and the removals of
    the items of the id, in order, are exact. -/
theorem removeItemCountById_iff (h : s.world.WellFormed g.types) (itemId : BitVec 16)
    {itemAmount : BitVec 32} (hamount : 0 < itemAmount.toNat) (removeFromStash : Bool) :
    s.AllOrNothing id (s.isOfId id itemId) (if removeFromStash then some itemId else none)
        itemAmount.toNat
        (s.removeItemCountById g marks id itemId itemAmount removeFromStash).1
        (s.removeItemCountById g marks id itemId itemAmount removeFromStash).2 ↔
      (itemAmount.toNat ≤
          s.held id (s.isOfId id itemId) (if removeFromStash then some itemId else none) →
        itemAmount.toNat ≤
            s.held id (s.isOfId id itemId) (if removeFromStash then some itemId else none) % 2 ^ 32 ∧
          s.Exact g marks id (s.isOfId id itemId)
            (Object.removals (s.itemsOfId g id itemId) itemAmount.toNat)
            (s.itemsOfId g id itemId) itemAmount.toNat) := by
  have hos := picksFrom_itemsOfId id h itemId
  have htotal := total_itemsOfId id h itemId
  have hheld : s.held id (s.isOfId id itemId) (if removeFromStash then some itemId else none) =
      Object.total (s.itemsOfId g id itemId) +
        if removeFromStash then (s.stashItems.getStashItemCount itemId).toNat else 0 := by
    rw [held, htotal]
    cases removeFromStash <;> rfl
  rw [removeItemCountById]
  by_cases hhas : s.hasItemCountById g id itemId itemAmount removeFromStash = true
  · have hreach := (hasItemCountById_iff itemId itemAmount removeFromStash).1 hhas
    rw [← hheld] at hreach
    have henough := hreach.trans (Nat.mod_le _ _)
    rw [hhas, Bool.not_true, if_neg Bool.false_ne_true, forall_prop_of_true henough,
      and_iff_right hreach]
    obtain ⟨calls, hpicks, hrun⟩ := removeById_eq (g := g) marks (s.world.isPlaced id)
      itemId (s.getAllInventoryItems g id false false) itemAmount.toNat hamount
    have hless : ∀ r, Object.lessBy g.types marks (s.world.isPlaced id) calls r ≤
        Object.asked (s.itemsOfId g id itemId) itemAmount.toNat r := fun r =>
      hpicks.less ▸ Object.lessBy_removals_le _ _ r
    rw [hrun, ← itemsOfId]
    refine Iff.trans ?_ ⟨Exact.congr hpicks.gone hpicks.less,
      Exact.congr hpicks.gone.symm hpicks.less.symm⟩
    by_cases hall : itemAmount.toNat ≤ Object.total (s.itemsOfId g id itemId)
    · -- The items of the inventory are enough.
      rw [if_pos hall]
      exact allOrNothing_iff h hos hpicks.sublist hless henough (fun _ _ => rfl)
        (by rw [Nat.sub_eq_zero_of_le hall, Nat.add_zero])
    · -- The rest is taken from the stash, where there is as much.
      rw [if_neg hall]
      rw [hheld] at henough
      cases removeFromStash
      · exact absurd henough hall
      · rw [if_pos rfl] at henough
        have hlt := itemAmount.isLt
        have hrest : (BitVec.ofNat 32 (itemAmount.toNat -
            Object.total (s.itemsOfId g id itemId))).toNat =
              itemAmount.toNat - Object.total (s.itemsOfId g id itemId) := by
          rw [BitVec.toNat_ofNat]
          exact Nat.mod_eq_of_lt (by omega)
        have hmissing : true = true ∧
            itemAmount.toNat - Object.total (s.itemsOfId g id itemId) > 0 := ⟨rfl, by omega⟩
        dsimp only
        rw [if_pos hmissing, if_pos rfl]
        rcases hw : s.stashItems.withdrawItem itemId (BitVec.ofNat 32 (itemAmount.toNat -
            Object.total (s.itemsOfId g id itemId))) with _ | stash
        · -- The stash has an entry, and the count is high enough.
          rcases StashItemList.withdrawItem_eq_none hw with hnone | hless
          · rw [StashItemList.getStashItemCount, hnone] at henough
            exact absurd henough hall
          · rw [BitVec.lt_def, hrest] at hless
            omega
        · obtain ⟨hle, hcounts⟩ := StashItemList.withdrawItem_spec hw
          refine allOrNothing_iff h hos hpicks.sublist hless ?_ (fun i hi => ?_) ?_
          · rw [held, htotal]
            exact henough
          · rw [hcounts, if_neg fun he => hi (congrArg some he.symm)]
            exact sub_zero _
          · rw [Option.map_some, Option.map_some, Option.getD_some, Option.getD_some, hcounts,
              if_pos rfl, BitVec.toNat_sub_of_le hle, hrest]
            rw [BitVec.le_def, hrest] at hle
            omega
  · have hfew := mt (hasItemCountById_iff itemId itemAmount removeFromStash).2 hhas
    rw [← hheld] at hfew
    rw [Bool.not_eq_true] at hhas
    rw [hhas, Bool.not_false, if_pos rfl]
    constructor
    · exact fun hall henough => absurd (hall.ret_iff.2 henough) Bool.false_ne_true
    · intro himp
      have hnot : ¬ itemAmount.toNat ≤ s.held id (s.isOfId id itemId)
          (if removeFromStash then some itemId else none) := fun henough => hfew (himp henough).1
      exact ⟨iff_of_false Bool.false_ne_true hnot, (by intro h; cases h), (by intro h; cases h),
        (by intro h; cases h), fun _ => rfl⟩

/-! ## By type -/

/-- The shortest beginning of a list that has the amount, in 32 bits. -/
structure Reaches (amount : ℕ) (candidates picked : List Object) : Prop where
  isPrefix : picked <+: candidates
  reached : amount ≤ Object.total picked % 2 ^ 32
  first : ∀ l, l <+: picked → l ≠ picked → Object.total l % 2 ^ 32 < amount

/-- A list has one shortest beginning. -/
theorem Reaches.unique {amount : ℕ} {candidates picked picked' : List Object}
    (h : Reaches amount candidates picked) (h' : Reaches amount candidates picked') :
    picked = picked' := by
  by_contra hne
  rcases List.prefix_or_prefix_of_prefix h.isPrefix h'.isPrefix with hp | hp
  · exact absurd h.reached (Nat.not_le.2 (h'.first picked hp hne))
  · exact absurd h'.reached (Nat.not_le.2 (h.first picked' hp (Ne.symm hne)))

variable (g) in
/-- The items of a sub type, as objects. -/
def ofSubType (subType : BitVec 32) (items : List Thing) : List Object :=
  (items.filter fun i => i.label.countByType g.types subType ≠ 0).map label

theorem countByType_of_ne_zero {types : ItemTable} {o : Object} {subType : BitVec 32}
    (h : o.countByType types subType ≠ 0) : o.countByType types subType = o.getItemCount := by
  rw [Object.countByType] at h ⊢
  split_ifs at h ⊢
  · rfl
  · exact absurd rfl h

/-- `collect` finds the shortest beginning that reaches the amount, if there is one. -/
theorem collect_spec (subType amount : BitVec 32) (items : List Thing) (counted : ℕ)
    (hcounted : counted % 2 ^ 32 < amount.toNat) :
    match collect g subType amount items (BitVec.ofNat 32 counted) with
    | some picked => picked.map label <+: ofSubType g subType items ∧
        amount.toNat ≤ (counted + Object.total (picked.map label)) % 2 ^ 32 ∧
        ∀ l, l <+: picked.map label → l ≠ picked.map label →
          (counted + Object.total l) % 2 ^ 32 < amount.toNat
    | none => ∀ l, l <+: ofSubType g subType items →
        (counted + Object.total l) % 2 ^ 32 < amount.toNat := by
  induction items generalizing counted with
  | nil =>
    intro l hl
    rw [List.prefix_nil.1 hl]
    exact hcounted
  | cons item items ih =>
    rw [collect]
    by_cases hzero : item.label.countByType g.types subType = 0
    · have hskip : ofSubType g subType (item :: items) = ofSubType g subType items := by
        rw [ofSubType, List.filter_cons, if_neg (by rw [hzero]; decide), ofSubType]
      rw [if_pos hzero, hskip]
      exact ih counted hcounted
    · have hcons : ofSubType g subType (item :: items) =
          item.label :: ofSubType g subType items := by
        rw [ofSubType, List.filter_cons, if_pos (decide_eq_true hzero), List.map_cons, ofSubType]
      have hsum : ∀ l, counted + Object.total (item.label :: l) =
          counted + item.label.getItemCount + Object.total l := fun l => by
        rw [Object.total_cons, Nat.add_assoc]
      have hle : amount ≤ BitVec.ofNat 32 (counted + item.label.getItemCount) ↔
          amount.toNat ≤ (counted + item.label.getItemCount) % 2 ^ 32 := by
        rw [BitVec.le_def, BitVec.toNat_ofNat]
      rw [if_neg hzero, countByType_of_ne_zero hzero, hcons, ← BitVec.ofNat_add]
      -- The loop stops at the first sum, kept in 32 bits, that is enough.
      by_cases hreach : BitVec.ofNat 32 (counted + item.label.getItemCount) ≥ amount
      · rw [if_pos hreach]
        dsimp only
        rw [List.map_cons, List.map_nil]
        refine ⟨List.prefix_append [item.label] _, ?_, fun l hl hne => ?_⟩
        · rw [hsum]
          exact hle.1 hreach
        · rcases l with _ | ⟨o, l⟩
          · exact hcounted
          · obtain ⟨rfl, hl'⟩ := List.cons_prefix_cons.1 hl
            exact absurd (congrArg _ (List.prefix_nil.1 hl')) hne
      · rw [if_neg hreach]
        -- The sums before the stop go on from the amount counted so far.
        have hrest := ih (counted + item.label.getItemCount)
          (Nat.not_le.1 fun h => hreach (hle.2 h))
        rcases hc : collect g subType amount items
            (BitVec.ofNat 32 (counted + item.label.getItemCount)) with _ | picked
        · rw [hc] at hrest
          intro l hl
          rcases l with _ | ⟨o, l⟩
          · exact hcounted
          · obtain ⟨rfl, hl'⟩ := List.cons_prefix_cons.1 hl
            rw [hsum]
            exact hrest l hl'
        · rw [hc] at hrest
          obtain ⟨hfront, hamount, hfirst⟩ := hrest
          dsimp only [Option.map_some]
          rw [List.map_cons]
          refine ⟨List.cons_prefix_cons.2 ⟨rfl, hfront⟩, ?_, fun l hl hne => ?_⟩
          · rw [hsum]
            exact hamount
          · rcases l with _ | ⟨o, l⟩
            · exact hcounted
            · obtain ⟨rfl, hl'⟩ := List.cons_prefix_cons.1 hl
              rw [hsum]
              exact hfirst l hl' fun he => hne (by rw [he])

variable (g id s) in
/-- The items that `removeItemOfType` may pick, in order. -/
def candidates (itemId : BitVec 16) (subType : BitVec 32) (ignoreEquipped : Bool) : List Object :=
  ofSubType g subType (s.searched id itemId ignoreEquipped)

variable (g) in
/-- Items of an id and a sub type. -/
def isOfType (itemId : BitVec 16) (subType : BitVec 32) (o : Object) : Bool :=
  o.id = itemId ∧ (subType = -1 ∨ subType = (o.getSubType g.types).setWidth 32)

variable (g id s) in
/-- The addresses of the items of an id and a sub type, perhaps without those in the slots. -/
def typeAt (itemId : BitVec 16) (subType : BitVec 32) (ignoreEquipped : Bool) : Ref → Bool :=
  addresses (isOfType g itemId subType) (if ignoreEquipped then s.stored id else s.objects id)

variable (g) in
/-- The removals of `internalRemoveItems`: of stacks up to the amount, of other items all. -/
def callsFor (itemId : BitVec 16) (amount : ℕ) (picked : List Object) :
    List (Object × Option ℕ) :=
  if (g.types.server.items itemId).stackable then Object.removals picked amount
  else picked.map fun o => (o, none)

theorem stored_eq : s.stored id =
    ((s.inventory id).flatMap fun t => t.children.flatMap labels).map Object.weightless := by
  rw [stored, World.carried, List.flatMap_map, inventory, List.map_flatMap]
  refine List.flatMap_congr fun t _ => ?_
  rw [List.map_flatMap]
  obtain ⟨o, cs⟩ := t
  rw [relabel_node, children_node, children_node, List.flatMap_map]
  exact List.flatMap_congr fun c _ => labels_relabel _ c

theorem stored_subset : s.stored id ⊆ s.objects id := by
  intro o ho
  obtain ⟨t, ht, ho⟩ := List.mem_flatMap.1 ho
  obtain ⟨a, cs⟩ := t
  refine List.mem_flatMap.2 ⟨_, ht, ?_⟩
  rw [labels_node]
  exact List.mem_cons_of_mem _ ho

theorem mem_searched_id {itemId : BitVec 16} {ignoreEquipped : Bool} {i : Thing}
    (hi : i ∈ s.searched id itemId ignoreEquipped) : i.label.id = itemId := by
  obtain ⟨t, -, hi⟩ := List.mem_flatMap.1 hi
  split_ifs at hi with ht
  · rw [List.mem_singleton.1 hi]
    exact ht.2
  · exact of_decide_eq_true (List.mem_filter.1 hi).2

theorem isOfType_of_count {itemId : BitVec 16} {subType : BitVec 32} {o : Object}
    (hid : o.id = itemId) (hcount : o.countByType g.types subType ≠ 0) :
    isOfType g itemId subType o = true := by
  rw [isOfType, decide_eq_true_eq]
  refine ⟨hid, ?_⟩
  by_contra htype
  exact hcount (if_neg htype)

/-- What may be picked is carried by the player, each item once, and of the type. -/
theorem picksFrom_candidates (id : PlayerId) (h : s.world.WellFormed g.types) (itemId : BitVec 16)
    (subType : BitVec 32) (ignoreEquipped : Bool) :
    PicksFrom id s (s.typeAt g id itemId subType ignoreEquipped)
      (s.candidates g id itemId subType ignoreEquipped) := by
  obtain ⟨l, hl, hsub⟩ := searched_subperm id h itemId ignoreEquipped
  have hnodes : ((s.inventory id).flatMap fun t =>
      if ignoreEquipped then t.children.flatMap nodes else nodes t).Sublist
        ((s.inventory id).flatMap nodes) := by
    refine List.Sublist.flatMap_right _ fun t _ => ?_
    split_ifs
    · obtain ⟨o, cs⟩ := t
      rw [nodes_node]
      exact List.sublist_cons_self _ _
    · exact List.Sublist.refl _
  have hlabels : (((s.inventory id).flatMap nodes).map label).Sublist
      ((s.inventory id).flatMap labels) := by
    rw [List.map_flatMap]
    exact List.Sublist.refl _
  -- As labels, the candidates are a part of what the player carries.
  have hin : (s.candidates g id itemId subType ignoreEquipped).Subperm
      ((s.inventory id).flatMap labels) :=
    ((List.filter_sublist.map label).subperm.trans (hl.symm.map label).subperm).trans
      (((hsub.trans hnodes).map label).trans hlabels).subperm
  refine ⟨?_, fun o ho => hin.subset ho, fun o ho => ?_⟩
  · obtain ⟨l', hl', hsub'⟩ := hin
    refine (hl'.map Object.ref).nodup_iff.1 ?_
    exact (World.distinct_heldBy h.heap.distinct _).sublist (hsub'.map _)
  · obtain ⟨i, hi, rfl⟩ := List.mem_map.1 ho
    obtain ⟨hi, hcount⟩ := List.mem_filter.1 hi
    have htype := isOfType_of_count (mem_searched_id hi) (of_decide_eq_true hcount)
    have hobject := mem_objects (hin.subset ho)
    cases ignoreEquipped
    · exact (addresses_iff h (List.Subset.refl _) hobject).2 ⟨hobject, htype⟩
    · refine (addresses_iff h stored_subset hobject).2 ⟨?_, htype⟩
      rw [stored_eq]
      refine List.mem_map_of_mem ?_
      have hstored := List.mem_map_of_mem (f := label) (hsub.subset (hl.mem_iff.2 hi))
      rw [List.map_flatMap] at hstored
      obtain ⟨t, ht, hstored⟩ := List.mem_flatMap.1 hstored
      refine List.mem_flatMap.2 ⟨t, ht, ?_⟩
      rw [if_pos rfl, List.map_flatMap] at hstored
      exact hstored

theorem PicksFrom.of_sublist {eligible : Ref → Bool} {os os' : List Object}
    (h : PicksFrom id s eligible os') (hsub : os.Sublist os') : PicksFrom id s eligible os :=
  ⟨h.nodup.sublist (hsub.map _), fun o ho => h.mem o (hsub.subset ho),
    fun o ho => h.eligible o (hsub.subset ho)⟩

/-- No more can be picked than there is. -/
theorem PicksFrom.total_le {eligible : Ref → Bool} {os : List Object}
    (hos : PicksFrom id s eligible os) (h : s.world.WellFormed g.types) :
    Object.total os ≤ unitsAt eligible (s.objects id) := by
  have hsum := Object.sum_asked (distinct_carried id h)
    (fun o ho => List.mem_map.2 ⟨o.weightless, mem_objects (hos.mem o ho), rfl⟩) (Object.total os)
  rw [Nat.min_self] at hsum
  rw [← hsum]
  exact List.sum_le_sum fun o ho => hos.asked_le h _ o ho

theorem lessBy_whole {types : ItemTable} {placed : Bool} (os : List Object) (r : Ref) :
    Object.lessBy types marks placed (os.map fun o => (o, none)) r = 0 := by
  rw [Object.lessBy, List.map_map]
  refine List.sum_eq_zero fun n hn => ?_
  obtain ⟨o, -, rfl⟩ := List.mem_map.1 hn
  rw [Function.comp, ite_eq_right_iff]
  intro _
  rw [Object.taken, Option.getD_none]
  split_ifs with _ _ _ hpart
  · rfl
  · rfl
  · rfl
  · exact absurd rfl hpart.2
  · rfl

/-- `removeItemOfType` takes the amount if there is that much, and else nothing, if and only if the
    items that are looked at have the amount when they are added up in 32 bits, and the removals of
    the first of them that do are exact. -/
theorem removeItemOfType_iff (h : s.world.WellFormed g.types) (itemId : BitVec 16)
    {amount : BitVec 32} (hamount : 0 < amount.toNat) (subType : BitVec 32)
    (ignoreEquipped : Bool) :
    s.AllOrNothing id (s.typeAt g id itemId subType ignoreEquipped) none amount.toNat
        (s.removeItemOfType g marks id itemId amount subType ignoreEquipped).1
        (s.removeItemOfType g marks id itemId amount subType ignoreEquipped).2 ↔
      (amount.toNat ≤ s.held id (s.typeAt g id itemId subType ignoreEquipped) none →
        ∃ picked, Reaches amount.toNat (s.candidates g id itemId subType ignoreEquipped) picked ∧
          s.Exact g marks id (s.typeAt g id itemId subType ignoreEquipped)
            (callsFor g itemId amount.toNat picked) picked amount.toNat) := by
  have hos := picksFrom_candidates id h itemId subType ignoreEquipped
  have hzero : amount ≠ 0 := by
    rintro rfl
    exact absurd hamount (Nat.lt_irrefl 0)
  have hspec := collect_spec (g := g) subType amount (s.searched id itemId ignoreEquipped) 0 hamount
  rw [removeItemOfType, if_neg hzero]
  have hstart : BitVec.ofNat 32 0 = (0 : BitVec 32) := rfl
  rw [hstart] at hspec
  rcases hc : collect g subType amount (s.searched id itemId ignoreEquipped) 0 with _ | itemList
  · -- The items that are looked at are too few.
    rw [hc] at hspec
    simp only [Nat.zero_add] at hspec
    constructor
    · exact fun hall henough => absurd (hall.ret_iff.2 henough) Bool.false_ne_true
    · intro himp
      have hnot : ¬ amount.toNat ≤
          s.held id (s.typeAt g id itemId subType ignoreEquipped) none := by
        intro henough
        obtain ⟨picked, hreaches, -⟩ := himp henough
        exact absurd hreaches.reached (Nat.not_le.2 (hspec picked hreaches.isPrefix))
      exact ⟨iff_of_false Bool.false_ne_true hnot, nofun, nofun, nofun, fun _ => rfl⟩
  · rw [hc] at hspec
    simp only [Nat.zero_add] at hspec
    obtain ⟨hfront, hamount', hfirst⟩ := hspec
    have hreaches : Reaches amount.toNat (s.candidates g id itemId subType ignoreEquipped)
        (itemList.map label) := ⟨hfront, hamount', hfirst⟩
    have hpicked := hos.of_sublist hfront.sublist
    have htotal := hamount'.trans (Nat.mod_le _ _)
    have henough : amount.toNat ≤
        s.held id (s.typeAt g id itemId subType ignoreEquipped) none :=
      (htotal.trans (hpicked.total_le h)).trans (Nat.le_add_right _ _)
    have hunique : (∃ picked,
        Reaches amount.toNat (s.candidates g id itemId subType ignoreEquipped) picked ∧
          s.Exact g marks id (s.typeAt g id itemId subType ignoreEquipped)
            (callsFor g itemId amount.toNat picked) picked amount.toNat) ↔
        s.Exact g marks id (s.typeAt g id itemId subType ignoreEquipped)
          (callsFor g itemId amount.toNat (itemList.map label)) (itemList.map label)
          amount.toNat := by
      constructor
      · rintro ⟨picked, hpicked, hexact⟩
        rwa [hpicked.unique hreaches] at hexact
      · exact fun hexact => ⟨_, hreaches, hexact⟩
    rw [forall_prop_of_true henough, hunique, callsFor]
    dsimp only
    have hrest : ((none : Option (BitVec 16)).map s.stashItems.getStashItemCount |>.getD 0).toNat +
        (amount.toNat - Object.total (itemList.map label)) =
          ((none : Option (BitVec 16)).map s.stashItems.getStashItemCount |>.getD 0).toNat := by
      rw [Nat.sub_eq_zero_of_le htotal, Nat.add_zero]
    rcases hstack : (g.types.server.items itemId).stackable
    · have hmap : (itemList.map fun i => (i.label, none)) =
          (itemList.map label).map fun o => (o, (none : Option ℕ)) :=
        (List.map_map (g := fun o => (o, (none : Option ℕ)))).symm
      rw [internalRemoveItems_plain, if_neg Bool.false_ne_true, hmap]
      refine allOrNothing_iff h hpicked ?_ (fun r => ?_) henough (fun _ _ => rfl) hrest
      · rw [List.map_map]
        exact (List.map_id _).symm ▸ List.Sublist.refl _
      · rw [lessBy_whole]
        exact Nat.zero_le _
    · obtain ⟨calls, hpicks, hrun⟩ := internalRemoveItems_stackable (g := g) marks
        (s.world.isPlaced id) itemList amount.toNat
      rw [hrun, if_pos rfl]
      refine Iff.trans (allOrNothing_iff h hpicked hpicks.sublist (fun r =>
        hpicks.less ▸ Object.lessBy_removals_le _ _ r) henough (fun _ _ => rfl) hrest) ?_
      exact ⟨Exact.congr hpicks.gone hpicks.less, Exact.congr hpicks.gone.symm hpicks.less.symm⟩

/-! ## Both removals -/

/-- Both removals take the amount if there is that much, and else nothing, if and only if what they
    count reaches the amount in 32 bits and what they then remove is exact. -/
theorem removal_exact_iff (h : s.world.WellFormed g.types) (marks : Marks) (id : PlayerId)
    (itemId : BitVec 16) {amount : BitVec 32} (hamount : 0 < amount.toNat) :
    (∀ removeFromStash : Bool,
      s.AllOrNothing id (s.isOfId id itemId) (if removeFromStash then some itemId else none)
          amount.toNat (s.removeItemCountById g marks id itemId amount removeFromStash).1
          (s.removeItemCountById g marks id itemId amount removeFromStash).2 ↔
        (amount.toNat ≤
            s.held id (s.isOfId id itemId) (if removeFromStash then some itemId else none) →
          amount.toNat ≤ s.held id (s.isOfId id itemId)
              (if removeFromStash then some itemId else none) % 2 ^ 32 ∧
            s.Exact g marks id (s.isOfId id itemId)
              (Object.removals (s.itemsOfId g id itemId) amount.toNat)
              (s.itemsOfId g id itemId) amount.toNat)) ∧
      ∀ (subType : BitVec 32) (ignoreEquipped : Bool),
        s.AllOrNothing id (s.typeAt g id itemId subType ignoreEquipped) none amount.toNat
            (s.removeItemOfType g marks id itemId amount subType ignoreEquipped).1
            (s.removeItemOfType g marks id itemId amount subType ignoreEquipped).2 ↔
          (amount.toNat ≤ s.held id (s.typeAt g id itemId subType ignoreEquipped) none →
            ∃ picked,
              Reaches amount.toNat (s.candidates g id itemId subType ignoreEquipped) picked ∧
                s.Exact g marks id (s.typeAt g id itemId subType ignoreEquipped)
                  (callsFor g itemId amount.toNat picked) picked amount.toNat) :=
  ⟨removeItemCountById_iff h itemId hamount, removeItemOfType_iff h itemId hamount⟩

/-- The traveller, without a stash. -/
def travelling : Belongings := ⟨traveller, SortedMap.empty⟩

/-- Items that are not from the map. -/
def unmarked : Marks := ⟨fun _ => false, fun _ => false⟩

/-- A bag is removed, and the coin in it is lost. -/
theorem travelling_loses_coin :
    travelling.world.WellFormed coinGame.types ∧
      ¬ travelling.AllOrNothing 1 (travelling.isOfId 1 2853) (some 2853) 1
        (travelling.removeItemCountById coinGame unmarked 1 2853 1 true).1
        (travelling.removeItemCountById coinGame unmarked 1 2853 1 true).2 := by
  refine ⟨wellFormed_traveller, fun hall => ?_⟩
  have hcoin : label (goldCoins 1 1) ∈ travelling.objects 1 := .tail _ (.head _)
  have hkept := List.mem_map_of_mem (f := Object.ref)
    (hall.kept (by decide +kernel) _ hcoin (by decide +kernel))
  revert hkept
  decide +kernel

theorem travelling_exact_iff :
    (travelling.AllOrNothing 1 (travelling.isOfId 1 itemGoldCoin) (some itemGoldCoin) 1
        (travelling.removeItemCountById coinGame unmarked 1 itemGoldCoin 1 true).1
        (travelling.removeItemCountById coinGame unmarked 1 itemGoldCoin 1 true).2 ↔
      (1 ≤ travelling.held 1 (travelling.isOfId 1 itemGoldCoin) (some itemGoldCoin) →
        1 ≤ travelling.held 1 (travelling.isOfId 1 itemGoldCoin) (some itemGoldCoin) % 2 ^ 32 ∧
          travelling.Exact coinGame unmarked 1 (travelling.isOfId 1 itemGoldCoin)
            (Object.removals (travelling.itemsOfId coinGame 1 itemGoldCoin) 1)
            (travelling.itemsOfId coinGame 1 itemGoldCoin) 1)) :=
  (removal_exact_iff (s := travelling) wellFormed_traveller unmarked 1 itemGoldCoin
    (by decide : 0 < (1 : BitVec 32).toNat)).1 true

end Belongings

end Canary.Inventory
