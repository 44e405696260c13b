import Canary.Lib.SortedMap
import Mathlib.Data.BitVec

/-!
# The stash

What a player has stowed: a count for every item id, without the items. An id whose count would
become 0 is taken out; the counts wrap around.
-/

namespace Canary.Inventory

instance linearOrderBitVec (n : ℕ) : LinearOrder (BitVec n) where
  le_refl := BitVec.le_refl
  le_trans _ _ _ := BitVec.le_trans
  lt_iff_le_not_ge a b := by
    rw [BitVec.not_le]
    exact ⟨fun h => ⟨BitVec.le_of_lt h, h⟩, fun h => h.2⟩
  le_antisymm _ _ := BitVec.le_antisymm
  le_total := BitVec.le_total
  toDecidableLE := inferInstance

/-- `std::map<uint16_t, uint32_t>` -/
abbrev StashItemList := SortedMap (BitVec 16) (BitVec 32)

namespace StashItemList

variable (stashItems : StashItemList)

def getStashItemCount (itemId : BitVec 16) : BitVec 32 := (stashItems.lookup itemId).getD 0

def addItemOnStash (itemId : BitVec 16) (amount : BitVec 32) : StashItemList :=
  stashItems.insert itemId (stashItems.getStashItemCount itemId + amount)

/-- Nothing if there is less than the amount. -/
def withdrawItem (itemId : BitVec 16) (amount : BitVec 32) : Option StashItemList :=
  match stashItems.lookup itemId with
  | some n =>
    if amount < n then some (stashItems.insert itemId (n - amount))
    else if n = amount then some (stashItems.erase itemId)
    else none
  | none => none

variable {stashItems}

/-- A withdrawal takes the amount from the count of the id, and leaves the others. -/
theorem withdrawItem_spec {stash : StashItemList} {itemId : BitVec 16} {amount : BitVec 32}
    (h : stashItems.withdrawItem itemId amount = some stash) :
    amount ≤ stashItems.getStashItemCount itemId ∧ ∀ id, stash.getStashItemCount id =
      stashItems.getStashItemCount id - if id = itemId then amount else 0 := by
  rw [withdrawItem] at h
  rcases hn : stashItems.lookup itemId with _ | n
  · rw [hn] at h
    cases h
  · rw [hn] at h
    dsimp only at h
    have hcount : stashItems.getStashItemCount itemId = n := by rw [getStashItemCount, hn]; rfl
    split_ifs at h with hlt heq
    · obtain rfl := Option.some.inj h
      refine ⟨hcount ▸ hlt.le, fun id => ?_⟩
      rw [getStashItemCount, SortedMap.lookup_insert]
      split_ifs with hid
      · rw [hid, hcount]
        rfl
      · exact (sub_zero _).symm
    · obtain rfl := Option.some.inj h
      refine ⟨(hcount.trans heq).ge, fun id => ?_⟩
      rw [getStashItemCount, SortedMap.lookup_erase]
      split_ifs with hid
      · rw [hid, hcount, heq, sub_self]
        rfl
      · exact (sub_zero _).symm

theorem withdrawItem_eq_none {itemId : BitVec 16} {amount : BitVec 32}
    (h : stashItems.withdrawItem itemId amount = none) :
    stashItems.lookup itemId = none ∨ stashItems.getStashItemCount itemId < amount := by
  rw [withdrawItem] at h
  rcases hn : stashItems.lookup itemId with _ | n
  · exact .inl rfl
  · rw [hn] at h
    dsimp only at h
    split_ifs at h with hlt heq
    rw [getStashItemCount, hn]
    exact .inr (lt_of_le_of_ne (not_lt.1 hlt) heq)

end StashItemList

end Canary.Inventory
