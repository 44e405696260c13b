import Canary.Inventory.Object
import Canary.Inventory.Stash
import Canary.Lib.BreadthFirst
import Canary.Lib.Contributions
import Mathlib.Algebra.BigOperators.Ring.List

/-!
# The locker as the market sees it

The market asks what a player has in the depot: the items in the locker, however deep, that may be
sold, and what is in the stash. They are counted by ware and tier (`requestLockerItems`).

* The containers of the locker are worked off from a queue, which ends (`visitContainers_eq`).
* The counts of the stash are summed up first and taken from the sum one by one, and the stash is
  gone through until the sum is 0. Entries without a ware stay in the sum: either the loop never
  ends, or what is in the stash is counted more than once (`requestLockerItems_wares_iff`).
* The table is exact if and only if there are no such entries and no count is too big for 32 bits
  (`requestLockerItems_iff`).
-/

namespace Canary.Inventory

open RoseTree

/-- The table of item types as the market reads it, and the imbuements. -/
structure MarketTable extends ItemTable where
  wareId : BitVec 16 → BitVec 16
  maxItems : BitVec 16 → BitVec 16
  imbuementSlot : BitVec 16 → BitVec 8
  /-- The ids in `imbuementMap`. -/
  imbuementMap : BitVec 16 → Bool

/-- `ITEM_IMBUEMENT_SLOT` -/
def itemImbuementSlot : ℕ := 500

variable (table : MarketTable)

namespace MarketTable

/-- `getImbuement(id)` is not null. -/
def getImbuement (id : BitVec 16) : Bool := id ≠ 0 && table.imbuementMap id

end MarketTable

namespace Object

variable (o : Object)

def getImbuementSlot : BitVec 8 :=
  if o.hasAttribute .imbuementSlot then (o.getAttribute .u8 .imbuementSlot).setWidth 8
  else table.imbuementSlot o.id

def getImbuementInfo (slot : ℕ) : Bool :=
  let info : BitVec 32 :=
    match o.custom.getCustomAttribute (Items.ascii (toString (itemImbuementSlot + slot))) with
    | some (.int64 v) => v.setWidth 32
    | _ => 0
  info >>> 8 ≠ 0 && table.getImbuement ((info &&& 0xFF).setWidth 16)

def hasImbuements : Bool :=
  (List.range (o.getImbuementSlot table).toNat).any (o.getImbuementInfo table)

def getTier : BitVec 8 := (Items.Item.getTier table.server o.toItem).setWidth 8

end Object

namespace Thing

def hasMarketAttributes (t : Thing) : Bool :=
  let o := t.label
  let it := table.server.items o.id
  (match o.ints .charges with
    | some v => (v.setWidth 16).setWidth 32 = it.charges
    | none => true) &&
  (match o.ints .duration with
    | some v => v.setWidth 32 = it.decayTime * 1000
    | none => true) &&
  (match o.ints .tier with
    | some v => v.setWidth 8 = o.getTier table
    | none => true) &&
  !o.hasImbuements table && !o.isStoreItem && !hasOwner t

/-- `Item::countByType(item, -1)` -/
def count (t : Thing) : ℕ := t.label.getItemCount

def wareId (t : Thing) : BitVec 16 := table.wareId t.label.id

/-- A container that is not empty is looked into. -/
def isFilled (t : Thing) : Bool := isContainer t && size t ≠ 0

end Thing

open Thing

/-! ## The containers -/

/-- The counts by ware and tier, 0 where there is no entry. -/
abbrev WareTable := BitVec 16 → BitVec 8 → BitVec 32

/-- `(lockerItems[ware])[tier] += n` -/
def WareTable.add (lockerItems : WareTable) (ware : BitVec 16) (tier : BitVec 8) (n : BitVec 32) :
    WareTable :=
  fun w r => if w = ware ∧ r = tier then lockerItems w r + n else lockerItems w r

variable (sendToClient : Bool) (tier : BitVec 8)

/-- The checks of an item that is no filled container. -/
def accepts (item : Thing) : Bool :=
  if item.label.isStoreItem then false
  else if wareId table item = 0 then false
  else if isContainer item && (!(table.server.items item.label.id).isContainer ||
      capacity item ≠ (table.maxItems item.label.id).toNat) then false
  else if !hasMarketAttributes table item then false
  else if !sendToClient && item.label.getTier table ≠ tier then false
  else true

/-- `(lockerItems[itemType.wareId])[item->getTier()] += Item::countByType(item, -1)` -/
def enter (lockerItems : WareTable) (item : Thing) : WareTable :=
  lockerItems.add (wareId table item) (item.label.getTier table) (BitVec.ofNat 32 (count item))

/-- The containers that are still to be gone through, and what was found. -/
structure Requested where
  containers : List Thing
  itemVector : List Thing
  lockerItems : WareTable

def visit (s : Requested) (item : Thing) : Requested :=
  if isFilled item then { s with containers := s.containers ++ [item] }
  else if accepts table sendToClient tier item then
    { s with
      lockerItems := enter table s.lockerItems item
      itemVector := s.itemVector ++ [item] }
  else s

/-- The loop over the containers. -/
def visitContainers : ℕ → Requested → Option Requested
  | fuel, s =>
    match s.containers with
    | [] => some s
    | container :: containers =>
      match fuel with
      | 0 => none
      | fuel + 1 =>
        visitContainers fuel
          (container.children.foldl (visit table sendToClient tier) { s with containers })

/-! ## The stash -/

/-- One time through the stash. -/
def sumStash (stash : List (BitVec 16 × BitVec 32)) (s : BitVec 32 × WareTable) :
    BitVec 32 × WareTable :=
  stash.foldl (fun s e =>
    if table.wareId e.1 = 0 then s
    else (s.1 - e.2, s.2.add (table.wareId e.1) 0 e.2)) s

/-- The loop over the stash, which ends when nothing is left of the sum. -/
def sumStashes (stash : List (BitVec 16 × BitVec 32)) :
    ℕ → BitVec 32 × WareTable → Option WareTable
  | 0, _ => none
  | fuel + 1, s =>
    let s := sumStash table stash s
    if 0 < s.1 then sumStashes stash fuel s else some s.2

def requestLockerItems (stashItems : StashItemList) (depotLocker : Option Thing) (fuel : ℕ) :
    Option (List Thing × WareTable) :=
  match depotLocker with
  | none => some ([], fun _ _ => 0)
  | some depotLocker =>
    match visitContainers table sendToClient tier fuel ⟨[depotLocker], [], fun _ _ => 0⟩ with
    | none => none
    | some s =>
      let countSize := (stashItems.entries.map Prod.snd).foldl (· + ·) 0
      (sumStashes table stashItems.entries fuel (countSize, s.lockerItems)).map fun lockerItems =>
        (s.itemVector, lockerItems)

/-! ## What is found -/

/-- What is counted. -/
def passes (item : Thing) : Bool := !isFilled item && accepts table sendToClient tier item

variable {table sendToClient tier}

theorem foldl_visit (items : List Thing) (s : Requested) :
    items.foldl (visit table sendToClient tier) s =
      { containers := s.containers ++ items.filter isFilled
        itemVector := s.itemVector ++ items.filter (passes table sendToClient tier)
        lockerItems := (items.filter (passes table sendToClient tier)).foldl (enter table)
          s.lockerItems } := by
  induction items generalizing s with
  | nil => simp
  | cons item items ih =>
    rw [List.foldl_cons, ih, List.filter_cons, List.filter_cons, visit, passes]
    by_cases hf : isFilled item = true
    · simp [hf]
    · by_cases ha : accepts table sendToClient tier item = true
      · simp [hf, ha, enter]
      · simp [hf, ha]

theorem visitContainers_nil (fuel : ℕ) (itemVector : List Thing) (lockerItems : WareTable) :
    visitContainers table sendToClient tier fuel ⟨[], itemVector, lockerItems⟩ =
      some ⟨[], itemVector, lockerItems⟩ := by
  rw [visitContainers.eq_def]

/-- With fuel for all that is in the containers the loop ends, and has found what is in them. -/
theorem visitContainers_eq {fuel : ℕ} {containers itemVector : List Thing}
    {lockerItems : WareTable} (hfuel : (containers.flatMap nodes).length ≤ fuel) :
    visitContainers table sendToClient tier fuel ⟨containers, itemVector, lockerItems⟩ = some
      { containers := []
        itemVector := itemVector ++
          (breadthFirst isFilled fuel containers).filter (passes table sendToClient tier)
        lockerItems := ((breadthFirst isFilled fuel containers).filter
          (passes table sendToClient tier)).foldl (enter table) lockerItems } := by
  induction fuel generalizing containers itemVector lockerItems with
  | zero =>
    rw [eq_nil_of_length_nodes hfuel, visitContainers_nil]
    simp [breadthFirst]
  | succ fuel ih =>
    cases containers with
    | nil =>
      rw [visitContainers_nil]
      simp [breadthFirst]
    | cons container containers =>
      have hlt := (length_nodes_step isFilled container containers).trans_le hfuel
      rw [visitContainers.eq_def]
      dsimp only
      rw [foldl_visit, ih (Nat.le_of_lt_succ hlt), breadthFirst, List.filter_append,
        List.foldl_append, List.append_assoc]

/-- More fuel changes nothing. -/
theorem visitContainers_mono {fuel fuel' : ℕ} (hle : fuel ≤ fuel') {s s' : Requested}
    (h : visitContainers table sendToClient tier fuel s = some s') :
    visitContainers table sendToClient tier fuel' s = some s' := by
  induction fuel generalizing fuel' s with
  | zero =>
    obtain ⟨_ | ⟨container, containers⟩, itemVector, lockerItems⟩ := s
    · rw [visitContainers_nil] at h ⊢
      exact h
    · cases h
  | succ fuel ih =>
    obtain ⟨_ | ⟨container, containers⟩, itemVector, lockerItems⟩ := s
    · rw [visitContainers_nil] at h ⊢
      exact h
    · obtain ⟨n, rfl⟩ := Nat.exists_eq_add_of_le' hle
      exact ih (Nat.le_add_left _ n) h

/-! ## What is counted -/

theorem foldl_enter (items : List Thing) (lockerItems : WareTable) (ware : BitVec 16)
    (r : BitVec 8) : items.foldl (enter table) lockerItems ware r = lockerItems ware r +
      BitVec.ofNat 32 ((items.filter fun item =>
        wareId table item = ware && item.label.getTier table = r).map count).sum := by
  induction items generalizing lockerItems with
  | nil => exact (add_zero _).symm
  | cons item items ih =>
    rw [List.foldl_cons, ih, enter, WareTable.add, List.filter_cons]
    by_cases h : wareId table item = ware ∧ item.label.getTier table = r
    · rw [if_pos ⟨h.1.symm, h.2.symm⟩, if_pos (by simpa using h), List.map_cons, List.sum_cons,
        BitVec.ofNat_add, add_assoc]
    · rw [if_neg fun h' => h ⟨h'.1.symm, h'.2.symm⟩, if_neg (by simpa using h)]

variable (table)

/-- The counts of the entries whose types have a ware. -/
def wareSum (stash : List (BitVec 16 × BitVec 32)) : ℕ :=
  ((stash.filter fun e => table.wareId e.1 ≠ 0).map fun e => e.2.toNat).sum

/-- The count of the item types with a ware id. -/
def stashCount (stash : List (BitVec 16 × BitVec 32)) (ware : BitVec 16) : ℕ :=
  ((stash.filter fun e => table.wareId e.1 = ware).map fun e => e.2.toNat).sum

variable {table}

theorem wareSum_cons (e : BitVec 16 × BitVec 32) (stash : List (BitVec 16 × BitVec 32)) :
    wareSum table (e :: stash) =
      (if table.wareId e.1 = 0 then 0 else e.2.toNat) + wareSum table stash := by
  rw [wareSum, wareSum, List.filter_cons]
  by_cases h : table.wareId e.1 = 0
  · rw [if_neg (by simpa using h), if_pos h, Nat.zero_add]
  · rw [if_pos (decide_eq_true h), if_neg h, List.map_cons, List.sum_cons]

theorem stashCount_cons (e : BitVec 16 × BitVec 32) (stash : List (BitVec 16 × BitVec 32))
    (ware : BitVec 16) : stashCount table (e :: stash) ware =
      (if table.wareId e.1 = ware then e.2.toNat else 0) + stashCount table stash ware := by
  rw [stashCount, stashCount, List.filter_cons]
  by_cases h : table.wareId e.1 = ware <;> simp [h]

theorem sumStash_fst (stash : List (BitVec 16 × BitVec 32)) (s : BitVec 32 × WareTable) :
    (sumStash table stash s).1 = s.1 - BitVec.ofNat 32 (wareSum table stash) := by
  induction stash generalizing s with
  | nil => exact (sub_zero _).symm
  | cons e stash ih =>
    rw [sumStash, List.foldl_cons, ← sumStash, ih, wareSum_cons, BitVec.ofNat_add, ← sub_sub]
    split_ifs with h
    · exact congrArg (· - _) (sub_zero _).symm
    · rw [BitVec.ofNat_toNat, BitVec.setWidth_eq]

/-- What one time through the stash adds: nothing for the ware id 0. -/
theorem sumStash_snd (stash : List (BitVec 16 × BitVec 32)) (s : BitVec 32 × WareTable)
    (ware : BitVec 16) (r : BitVec 8) : (sumStash table stash s).2 ware r = s.2 ware r +
      BitVec.ofNat 32 (if ware ≠ 0 ∧ r = 0 then stashCount table stash ware else 0) := by
  induction stash generalizing s with
  | nil =>
    rw [stashCount, List.filter_nil, List.map_nil, List.sum_nil, ite_self]
    exact (add_zero _).symm
  | cons e stash ih =>
    rw [sumStash, List.foldl_cons, ← sumStash, ih, stashCount_cons]
    by_cases h : table.wareId e.1 = 0
    · -- The entry is passed over.
      rw [if_pos h]
      by_cases hw : ware ≠ 0 ∧ r = 0
      · rw [if_pos hw, if_pos hw, if_neg fun he => hw.1 (he.symm.trans h), Nat.zero_add]
      · rw [if_neg hw, if_neg hw]
    · simp only [if_neg h, WareTable.add]
      by_cases he : ware = table.wareId e.1 ∧ r = 0
      · have hw : ware ≠ 0 ∧ r = 0 := ⟨fun h0 => h (he.1.symm.trans h0), he.2⟩
        rw [if_pos he, if_pos hw, if_pos hw, if_pos he.1.symm, BitVec.ofNat_add,
          BitVec.ofNat_toNat, BitVec.setWidth_eq, add_assoc]
      · rw [if_neg he]
        by_cases hw : ware ≠ 0 ∧ r = 0
        · rw [if_pos hw, if_pos hw, if_neg fun h' => he ⟨h'.symm, hw.2⟩, Nat.zero_add]
        · rw [if_neg hw, if_neg hw]

/-- The loop went through the stash a number of times. -/
theorem sumStashes_eq_some {stash : List (BitVec 16 × BitVec 32)} {fuel : ℕ}
    (countSize : BitVec 32) (lockerItems : WareTable) {t : WareTable}
    (h : sumStashes table stash fuel (countSize, lockerItems) = some t) :
    ∃ k, countSize = BitVec.ofNat 32 ((k + 1) * wareSum table stash) ∧ ∀ ware r, t ware r =
      lockerItems ware r + BitVec.ofNat 32
        (if ware ≠ 0 ∧ r = 0 then (k + 1) * stashCount table stash ware else 0) := by
  induction fuel generalizing countSize lockerItems with
  | zero => cases h
  | succ fuel ih =>
    rw [sumStashes] at h
    split_ifs at h with hpos
    · obtain ⟨k, hk, ht⟩ := ih (sumStash table stash (countSize, lockerItems)).1
        (sumStash table stash (countSize, lockerItems)).2 h
      refine ⟨k + 1, ?_, fun ware r => ?_⟩
      · rw [sumStash_fst, sub_eq_iff_eq_add, ← BitVec.ofNat_add] at hk
        exact hk.trans (congrArg _ (Nat.succ_mul (k + 1) _).symm)
      · rw [ht, sumStash_snd, add_assoc, ← BitVec.ofNat_add]
        split_ifs
        · rw [Nat.succ_mul (k + 1), Nat.add_comm]
        · rfl
    · obtain rfl := Option.some.inj h
      refine ⟨0, ?_, fun ware r => ?_⟩
      · have hzero : (sumStash table stash (countSize, lockerItems)).1 = 0 :=
          BitVec.eq_of_toNat_eq (Nat.le_zero.1 (not_lt.1 hpos))
        rw [sumStash_fst, sub_eq_zero] at hzero
        rw [Nat.zero_add, Nat.one_mul]
        exact hzero
      · rw [sumStash_snd, Nat.zero_add, Nat.one_mul]

/-- If the sum is that of the entries with a ware, the loop ends at once. -/
theorem sumStashes_once {stash : List (BitVec 16 × BitVec 32)} (fuel : ℕ)
    {countSize : BitVec 32} {lockerItems : WareTable}
    (h : countSize = BitVec.ofNat 32 (wareSum table stash)) :
    sumStashes table stash (fuel + 1) (countSize, lockerItems) =
      some (sumStash table stash (countSize, lockerItems)).2 := by
  have hzero : (sumStash table stash (countSize, lockerItems)).1 = 0 := by
    rw [sumStash_fst, h, sub_self]
  rw [sumStashes, hzero, if_neg (lt_irrefl _)]

/-! ## The request -/

theorem countSize_eq (table : MarketTable) (stash : List (BitVec 16 × BitVec 32)) :
    (stash.map Prod.snd).foldl (· + ·) 0 =
      BitVec.ofNat 32 (wareSum table stash + stashCount table stash 0) := by
  suffices h : ∀ c : BitVec 32, (stash.map Prod.snd).foldl (· + ·) c =
      c + BitVec.ofNat 32 (wareSum table stash + stashCount table stash 0) by
    exact (h 0).trans (zero_add _)
  induction stash with
  | nil => exact fun c => (add_zero c).symm
  | cons e stash ih =>
    intro c
    have hsum : wareSum table (e :: stash) + stashCount table (e :: stash) 0 =
        e.2.toNat + (wareSum table stash + stashCount table stash 0) := by
      rw [wareSum_cons, stashCount_cons]
      split_ifs <;> omega
    rw [List.map_cons, List.foldl_cons, ih, hsum, BitVec.ofNat_add e.2.toNat,
      BitVec.ofNat_toNat, BitVec.setWidth_eq, add_assoc]

variable (table sendToClient tier)

/-- The items of a locker, however deep, that pass the checks. -/
def passing (depotLocker : Thing) : List Thing :=
  (depotLocker.under isFilled).filter (passes table sendToClient tier)

def lockerCount (depotLocker : Thing) (ware : BitVec 16) (r : BitVec 8) : ℕ :=
  (((passing table sendToClient tier depotLocker).filter fun item =>
    wareId table item = ware && item.label.getTier table = r).map count).sum

/-- What there is of a ware and a tier: the stash has no tiers. -/
def total (stashItems : StashItemList) (depotLocker : Thing) (ware : BitVec 16) (r : BitVec 8) :
    ℕ :=
  lockerCount table sendToClient tier depotLocker ware r +
    if r = 0 then stashCount table stashItems.entries ware else 0

/-- The request returns, with every item that passes the checks and with the counts of some
    wares. -/
def Counts (stashItems : StashItemList) (depotLocker : Thing) (wares : BitVec 16 → Prop) : Prop :=
  ∃ fuel itemVector lockerItems,
    requestLockerItems table sendToClient tier stashItems (some depotLocker) fuel =
      some (itemVector, lockerItems) ∧
    itemVector.Perm (passing table sendToClient tier depotLocker) ∧
    ∀ ware, wares ware → ∀ r, (lockerItems ware r).toNat =
      total table sendToClient tier stashItems depotLocker ware r

variable {table sendToClient tier}

/-- The loop over the containers finds what passes the checks. -/
theorem visitContainers_spec {depotLocker : Thing} {fuel : ℕ} {s : Requested}
    (h : visitContainers table sendToClient tier fuel ⟨[depotLocker], [], fun _ _ => 0⟩ =
      some s) : s.itemVector.Perm (passing table sendToClient tier depotLocker) ∧
    ∀ ware r, s.lockerItems ware r =
      BitVec.ofNat 32 (lockerCount table sendToClient tier depotLocker ware r) := by
  have hmono := visitContainers_mono (Nat.le_add_right fuel ([depotLocker].flatMap nodes).length) h
  have hfuel := Nat.le_add_left ([depotLocker].flatMap nodes).length fuel
  rw [visitContainers_eq hfuel, List.nil_append] at hmono
  have hperm : s.itemVector.Perm (passing table sendToClient tier depotLocker) := by
    rw [← Option.some.inj hmono, passing, ← List.flatMap_singleton (under isFilled)]
    exact (breadthFirst_perm hfuel).filter _
  have hitems : s.lockerItems = s.itemVector.foldl (enter table) fun _ _ => 0 := by
    rw [← Option.some.inj hmono]
  refine ⟨hperm, fun ware r => ?_⟩
  rw [hitems, foldl_enter, lockerCount, ((hperm.filter _).map count).sum_eq]
  exact zero_add _

theorem exists_visitContainers (table : MarketTable) (sendToClient : Bool) (tier : BitVec 8)
    (depotLocker : Thing) : ∃ fuel s, visitContainers table sendToClient tier fuel
      ⟨[depotLocker], [], fun _ _ => 0⟩ = some s :=
  ⟨_, _, visitContainers_eq le_rfl⟩

/-- What divides the count of every ware divides the sum. -/
theorem dvd_wareSum {stash : List (BitVec 16 × BitVec 32)} {d k : ℕ}
    (h : ∀ ware, ware ≠ 0 → d ∣ k * stashCount table stash ware) :
    d ∣ k * wareSum table stash := by
  rw [wareSum, ← List.sum_map_mul_left]
  refine Contributions.dvd_sum_of_groups (fun e => table.wareId e.1) _ fun ware => ?_
  rw [List.filter_filter, List.sum_map_mul_left]
  by_cases hware : ware = 0
  · rw [List.filter_eq_nil_iff.2 fun e _ => by simp [hware]]
    exact Nat.dvd_zero d
  · rw [List.filter_congr fun e _ => show (decide (table.wareId e.1 = ware) &&
      decide (table.wareId e.1 ≠ 0)) = decide (table.wareId e.1 = ware) by
        by_cases he : table.wareId e.1 = ware
        · rw [he, decide_eq_true hware, Bool.and_true]
        · rw [decide_eq_false he, Bool.false_and]]
    exact h ware hware

/-- The request is exact for the wares if and only if the entries without a ware vanish in the sum
    and no count is too big. -/
theorem requestLockerItems_wares_iff (stashItems : StashItemList) (depotLocker : Thing) :
    Counts table sendToClient tier stashItems depotLocker (· ≠ 0) ↔
      stashCount table stashItems.entries 0 % 2 ^ 32 = 0 ∧ ∀ ware, ware ≠ 0 → ∀ r,
        total table sendToClient tier stashItems depotLocker ware r < 2 ^ 32 := by
  constructor
  · rintro ⟨fuel, itemVector, lockerItems, hrun, -, htotal⟩
    refine ⟨?_, fun ware hware r => htotal ware hware r ▸ (lockerItems ware r).isLt⟩
    rw [requestLockerItems] at hrun
    rcases hs : visitContainers table sendToClient tier fuel ⟨[depotLocker], [], fun _ _ => 0⟩
      with _ | s
    · rw [hs] at hrun
      cases hrun
    rw [hs] at hrun
    obtain ⟨t, ht, heq⟩ := Option.map_eq_some_iff.1 hrun
    obtain ⟨rfl, rfl⟩ := Prod.mk.inj heq
    obtain ⟨k, hk, hadd⟩ := sumStashes_eq_some _ _ ht
    -- The stash was counted `k` times too often, which is not seen in the count of any ware.
    have hware : ∀ ware, ware ≠ 0 → 2 ^ 32 ∣ k * stashCount table stashItems.entries ware := by
      intro ware hware
      have hcount := htotal ware hware 0
      rw [hadd, if_pos ⟨hware, rfl⟩, (visitContainers_spec hs).2, ← BitVec.ofNat_add,
        BitVec.toNat_ofNat, total, if_pos rfl, Nat.succ_mul] at hcount
      omega
    have hsum := dvd_wareSum hware
    rw [countSize_eq table] at hk
    have hmod := congrArg BitVec.toNat hk
    rw [BitVec.toNat_ofNat, BitVec.toNat_ofNat, Nat.succ_mul] at hmod
    omega
  · rintro ⟨hzero, hlt⟩
    obtain ⟨fuel, s, hs⟩ := exists_visitContainers table sendToClient tier depotLocker
    obtain ⟨hperm, hbase⟩ := visitContainers_spec hs
    have hsize : (stashItems.entries.map Prod.snd).foldl (· + ·) 0 =
        BitVec.ofNat 32 (wareSum table stashItems.entries) := by
      rw [countSize_eq table]
      refine BitVec.eq_of_toNat_eq ?_
      rw [BitVec.toNat_ofNat, BitVec.toNat_ofNat]
      omega
    refine ⟨fuel + 1, s.itemVector,
      (sumStash table stashItems.entries
        (BitVec.ofNat 32 (wareSum table stashItems.entries), s.lockerItems)).2,
      ?_, hperm, fun ware hware r => ?_⟩
    · rw [requestLockerItems, visitContainers_mono (Nat.le_succ fuel) hs]
      dsimp only
      rw [hsize, sumStashes_once fuel rfl, Option.map_some]
    · rw [sumStash_snd]
      dsimp only
      rw [hbase, ← BitVec.ofNat_add, BitVec.toNat_ofNat]
      have hcount := hlt ware hware r
      rw [total] at hcount ⊢
      by_cases hr : r = 0
      · rw [if_pos hr] at hcount ⊢
        rw [if_pos ⟨hware, hr⟩, Nat.mod_eq_of_lt hcount]
      · rw [if_neg hr] at hcount ⊢
        rw [if_neg fun h => hr h.2, Nat.mod_eq_of_lt hcount]

/-- If nothing in the stash has a ware, the loop does not end. -/
theorem requestLockerItems_eq_none {stashItems : StashItemList}
    (hware : wareSum table stashItems.entries = 0)
    (hcount : stashCount table stashItems.entries 0 % 2 ^ 32 ≠ 0) (depotLocker : Thing)
    (fuel : ℕ) :
    requestLockerItems table sendToClient tier stashItems (some depotLocker) fuel = none := by
  rw [requestLockerItems]
  rcases visitContainers table sendToClient tier fuel ⟨[depotLocker], [], fun _ _ => 0⟩ with _ | s
  · rfl
  · refine Option.map_eq_none_iff.2 (Option.eq_none_iff_forall_ne_some.2 fun t ht => hcount ?_)
    obtain ⟨k, hk, -⟩ := sumStashes_eq_some _ _ ht
    rw [countSize_eq table, hware] at hk
    have hmod := congrArg BitVec.toNat hk
    rwa [BitVec.toNat_ofNat, BitVec.toNat_ofNat, Nat.zero_add] at hmod

theorem lockerCount_zero (depotLocker : Thing) (r : BitVec 8) :
    lockerCount table sendToClient tier depotLocker 0 r = 0 := by
  have hnil : ((passing table sendToClient tier depotLocker).filter fun item =>
      wareId table item = 0 && item.label.getTier table = r) = [] := by
    refine List.filter_eq_nil_iff.2 fun item hitem h => ?_
    have haccepts := (Bool.and_eq_true_iff.1 (List.mem_filter.1 hitem).2).2
    have hware : wareId table item = 0 := of_decide_eq_true (Bool.and_eq_true_iff.1 h).1
    rw [accepts, if_pos hware, ite_self] at haccepts
    cases haccepts
  rw [lockerCount, hnil]
  rfl

/-- Nothing is counted for the ware id 0. -/
theorem requestLockerItems_zero {stashItems : StashItemList} {depotLocker : Thing} {fuel : ℕ}
    {itemVector : List Thing} {lockerItems : WareTable}
    (h : requestLockerItems table sendToClient tier stashItems (some depotLocker) fuel =
      some (itemVector, lockerItems)) (r : BitVec 8) : lockerItems 0 r = 0 := by
  rw [requestLockerItems] at h
  rcases hs : visitContainers table sendToClient tier fuel ⟨[depotLocker], [], fun _ _ => 0⟩
    with _ | s
  · rw [hs] at h
    cases h
  rw [hs] at h
  obtain ⟨t, ht, heq⟩ := Option.map_eq_some_iff.1 h
  obtain ⟨rfl, rfl⟩ := Prod.mk.inj heq
  obtain ⟨k, -, hadd⟩ := sumStashes_eq_some _ _ ht
  rw [hadd, if_neg fun h => h.1 rfl, (visitContainers_spec hs).2, lockerCount_zero]
  rfl

theorem stashCount_eq_zero_iff {stash : List (BitVec 16 × BitVec 32)} {ware : BitVec 16} :
    stashCount table stash ware = 0 ↔ ∀ e ∈ stash, table.wareId e.1 = ware → e.2 = 0 := by
  induction stash with
  | nil => exact ⟨fun _ _ he => absurd he List.not_mem_nil, fun _ => rfl⟩
  | cons e stash ih =>
    rw [stashCount_cons, Nat.add_eq_zero_iff, ih, List.forall_mem_cons]
    refine and_congr_left' ⟨fun h hware => ?_, fun h => ?_⟩
    · rw [if_pos hware] at h
      exact BitVec.eq_of_toNat_eq h
    · split_ifs with hware
      · rw [h hware]
        rfl
      · rfl

/-- The request returns with every count as it is if and only if all that is in the stash has a
    ware and no count is too big. -/
theorem requestLockerItems_iff (table : MarketTable) (sendToClient : Bool) (tier : BitVec 8)
    (stashItems : StashItemList) (depotLocker : Thing) :
    Counts table sendToClient tier stashItems depotLocker (fun _ => True) ↔
      (∀ e ∈ stashItems.entries, table.wareId e.1 = 0 → e.2 = 0) ∧ ∀ ware r,
        total table sendToClient tier stashItems depotLocker ware r < 2 ^ 32 := by
  rw [← stashCount_eq_zero_iff]
  constructor
  · rintro ⟨fuel, itemVector, lockerItems, hrun, -, htotal⟩
    refine ⟨?_, fun ware r => htotal ware trivial r ▸ (lockerItems ware r).isLt⟩
    have hzero := htotal 0 trivial 0
    rw [requestLockerItems_zero hrun, total, lockerCount_zero, if_pos rfl, Nat.zero_add] at hzero
    exact hzero.symm
  · rintro ⟨hzero, hlt⟩
    obtain ⟨fuel, itemVector, lockerItems, hrun, hperm, htotal⟩ :=
      (requestLockerItems_wares_iff stashItems depotLocker).2
        ⟨by rw [hzero]; rfl, fun ware _ r => hlt ware r⟩
    refine ⟨fuel, itemVector, lockerItems, hrun, hperm, fun ware _ r => ?_⟩
    by_cases hware : ware = 0
    · rw [hware, requestLockerItems_zero hrun, total, lockerCount_zero, hzero, ite_self]
      rfl
    · exact htotal ware hware r

/-! ## A stash of goods without a ware -/

/-- A table where nothing has a ware. -/
def noWares : MarketTable where
  server :=
    { items := fun id => ⟨id, .none, .other, false, true, 0, 0⟩
      forgeMaxItemTier := 10
      time := 0
      timeNow := 0
      nameByGuid := fun _ => []
      addUniqueItem := fun _ => true }
  traits := fun _ => {}
  stackable_plain := fun _ h => absurd h Bool.false_ne_true
  wareId := fun _ => 0
  maxItems := fun _ => 8
  imbuementSlot := fun _ => 0
  imbuementMap := fun _ => false

/-- With one such item in the stash the request does not return. -/
theorem noWares_never_returns : ¬ Counts noWares true 0 (SortedMap.empty.insert 2148 1)
    (.node { class_ := .depotLocker, id := 3497, ref := 0, storage := some ⟨.depotLocker, 3, 0,
      true, false, 0, 0⟩ } []) fun _ => True := by
  rintro ⟨fuel, itemVector, lockerItems, hrun, -⟩
  rw [requestLockerItems_eq_none rfl (by decide)] at hrun
  cases hrun

end Canary.Inventory
