import Canary.Login.RoundTrip

/-!
# Saving and loading a player

The items in the slots, the depot chests and the inbox of a player are saved to a table each, and
restored from it (`Player.restored`). The chests must have numbers below 100: a greater one is
taken for that of a container (`Player.chest_lost`).
-/

namespace Canary.Login

variable {α β : Type*}

theorem sorts_inventoryPlace : Sorts inventoryPlace where
  container pid h := if_neg fun hslot => absurd hslot.2 (by rw [CONST_SLOT_LAST]; omega)
  eq pid sid h := by
    rw [inventoryPlace] at h
    split at h
    · cases h
    · exact Place.container.inj h

theorem sorts_depotPlace : Sorts depotPlace where
  container pid h := if_neg (by omega)
  eq pid sid h := by
    rw [depotPlace] at h
    split at h
    · cases h
    · exact Place.container.inj h

theorem sorts_inboxPlace : Sorts inboxPlace where
  container pid h := if_neg (by omega)
  eq pid sid h := by
    rw [inboxPlace] at h
    split at h
    · cases h
    · exact Place.container.inj h

/-- Items with a key for each group, as they are written to a table. -/
def keyed {γ : Type*} (l : List γ) (key : γ → ℕ) (items : γ → List (Item α)) :
    List (ℕ × Item α) :=
  l.flatMap fun e => (items e).map (key e, ·)

theorem filter_keyed_of_notMem {γ : Type*} {l : List γ} {key : γ → ℕ} {k : ℕ}
    (h : k ∉ l.map key) (items : γ → List (Item α)) :
    (keyed l key items).filter (fun e => e.1 = k) = [] := by
  refine List.filter_eq_nil_iff.2 fun e he hk => h ?_
  obtain ⟨c, hc, he⟩ := List.mem_flatMap.1 he
  obtain ⟨x, -, rfl⟩ := List.mem_map.1 he
  exact List.mem_map.2 ⟨c, hc, of_decide_eq_true hk⟩

/-- The items with a key are those of its group. -/
theorem filter_keyed {γ : Type*} {l : List γ} (key : γ → ℕ) (hnodup : (l.map key).Nodup)
    {c : γ} (hc : c ∈ l) (items : γ → List (Item α)) :
    ((keyed l key items).filter fun e => e.1 = key c).map (·.2) = items c := by
  induction l with
  | nil => exact absurd hc List.not_mem_nil
  | cons d l ih =>
    rw [List.map_cons] at hnodup
    obtain ⟨hnotin, hnodup⟩ := List.nodup_cons.1 hnodup
    have hcons : keyed (d :: l) key items = (items d).map (key d, ·) ++ keyed l key items :=
      List.flatMap_cons
    rw [hcons, List.filter_append, List.map_append]
    rcases List.mem_cons.1 hc with rfl | hc
    · rw [filter_keyed_of_notMem hnotin, List.map_nil, List.append_nil,
        List.filter_eq_self.2 fun e he => ?_, List.map_map]
      · exact List.map_id' _
      · obtain ⟨x, -, rfl⟩ := List.mem_map.1 he
        exact decide_eq_true rfl
    · have hne : key d ≠ key c := fun heq => hnotin (heq ▸ List.mem_map_of_mem hc)
      have hnil : ((items d).map (key d, ·)).filter (fun e => e.1 = key c) = [] := by
        refine List.filter_eq_nil_iff.2 fun e he heq => ?_
        obtain ⟨x, -, rfl⟩ := List.mem_map.1 he
        exact hne (of_decide_eq_true heq)
      rw [hnil, List.map_nil, List.nil_append, ih hnodup hc]

/-- The items of a player: in his slots, depot chests and inbox. -/
structure Player (α : Type*) where
  inventory : ℕ → Option (Item α)
  depotChests : SortedMap ℕ (List (Item α))
  inbox : List (Item α)

namespace Player

variable (p : Player α)

/-- The items that `savePlayerItem` saves. -/
def inventoryList : List (ℕ × Item α) :=
  keyed (List.range' 1 CONST_SLOT_LAST) id fun slotId => (p.inventory slotId).toList

/-- The items that `savePlayerDepotItems` saves, after a depot was used. -/
def depotList : List (ℕ × Item α) := keyed p.depotChests.entries (·.1) (·.2)

/-- The items that `savePlayerInbox` saves. -/
def inboxList : List (ℕ × Item α) := p.inbox.map (0, ·)

variable {p}

theorem pid_inventoryList {e : ℕ × Item α} (he : e ∈ p.inventoryList) :
    1 ≤ e.1 ∧ e.1 ≤ CONST_SLOT_LAST := by
  obtain ⟨slotId, hslot, he⟩ := List.mem_flatMap.1 he
  obtain ⟨x, -, rfl⟩ := List.mem_map.1 he
  obtain ⟨hfirst, hlast⟩ := List.mem_range'_1.1 hslot
  rw [Nat.add_comm] at hlast
  exact ⟨hfirst, Nat.le_of_lt_succ hlast⟩

theorem roots_inventoryList : Roots inventoryPlace p.inventoryList := by
  intro e he
  have hpid := pid_inventoryList he
  have hlast : CONST_SLOT_LAST = 11 := rfl
  refine ⟨by omega, fun sid hsid => ?_⟩
  rw [inventoryPlace, if_pos hpid] at hsid
  cases hsid

/-- What is in a slot is saved as its item. -/
theorem filter_inventoryList (s : ℕ) :
    (p.inventoryList.filter fun e => inventoryPlace e.1 = .slot s) =
      p.inventoryList.filter fun e => e.1 = s := by
  refine List.filter_congr fun e he => decide_eq_decide.2 ?_
  rw [inventoryPlace, if_pos (pid_inventoryList he), Place.slot.injEq]

theorem map_filter_inventoryList {s : ℕ} (hs : s ∈ List.range' 1 CONST_SLOT_LAST) :
    (p.inventoryList.filter fun e => e.1 = s).map (·.2) = (p.inventory s).toList :=
  filter_keyed id (by rw [List.map_id]; exact List.nodup_range') hs _

theorem oneASlot_inventoryList : OneASlot inventoryPlace p.inventoryList := by
  intro s
  rw [filter_inventoryList]
  by_cases hs : s ∈ List.range' 1 CONST_SLOT_LAST
  · rw [← List.length_map (·.2), map_filter_inventoryList hs]
    exact Option.length_toList_le
  · rw [inventoryList, filter_keyed_of_notMem (by rwa [List.map_id])]
    exact Nat.zero_le _

/-- What is saved of the depot chests, if their numbers are below 100. -/
theorem depotPlace_depotList (h : ∀ e ∈ p.depotChests.entries, e.1 < 100) :
    ∀ e ∈ p.depotList, e.1 < 100 ∧ depotPlace e.1 = .depotChest e.1 := by
  intro e he
  obtain ⟨chest, hchest, he⟩ := List.mem_flatMap.1 he
  obtain ⟨x, -, rfl⟩ := List.mem_map.1 he
  exact ⟨h chest hchest, if_pos (h chest hchest)⟩

theorem map_filter_depotList (h : ∀ e ∈ p.depotChests.entries, e.1 < 100) (depotId : ℕ) :
    (p.depotList.filter fun e => depotPlace e.1 = .depotChest depotId).map (·.2) =
      (p.depotChests.lookup depotId).getD [] := by
  have hkey : (p.depotList.filter fun e => depotPlace e.1 = .depotChest depotId) =
      p.depotList.filter fun e => e.1 = depotId := by
    refine List.filter_congr fun e he => decide_eq_decide.2 ?_
    rw [(depotPlace_depotList h e he).2, Place.depotChest.injEq]
  have hnodup : (p.depotChests.entries.map (·.1)).Nodup :=
    List.pairwise_map.2 (p.depotChests.sorted.imp fun hlt => Nat.ne_of_lt hlt)
  rw [hkey]
  cases hlookup : p.depotChests.lookup depotId with
  | some items => exact filter_keyed _ hnodup (SortedMap.mem_entries.2 hlookup) (·.2)
  | none =>
    have hnotin : depotId ∉ p.depotChests.entries.map (·.1) := by
      intro hmem
      obtain ⟨⟨k, items⟩, he, rfl⟩ := List.mem_map.1 hmem
      cases hlookup.symm.trans (SortedMap.mem_entries.1 he)
    rw [depotList, filter_keyed_of_notMem hnotin]
    rfl

theorem inboxPlace_inboxList : ∀ e ∈ p.inboxList, e.1 = 0 ∧ inboxPlace e.1 = .inbox := by
  intro e he
  obtain ⟨x, -, rfl⟩ := List.mem_map.1 he
  exact ⟨rfl, rfl⟩

theorem map_filter_inboxList :
    (p.inboxList.filter fun e => inboxPlace e.1 = .inbox).map (·.2) = p.inbox := by
  rw [List.filter_eq_self.2 fun e he => decide_eq_true (inboxPlace_inboxList e he).2, inboxList,
    List.map_map]
  exact List.map_id' _

theorem oneASlot_of_ne {place : ℕ → Place} {itemList : List (ℕ × Item α)}
    (h : ∀ e ∈ itemList, ∀ s, place e.1 ≠ .slot s) : OneASlot place itemList := by
  intro s
  rw [List.filter_eq_nil_iff.2 fun e he heq => h e he s (of_decide_eq_true heq)]
  exact Nat.zero_le _

/-- After loading what was saved, the items are in the slots, the depot chests and the inbox as
    they were, each of them once. The numbers of the chests have to be below 100. -/
theorem restored (C : Codec α β) (p : Player α)
    (hchests : ∀ e ∈ p.depotChests.entries, e.1 < 100) :
    (∀ slotId, 1 ≤ slotId → slotId ≤ CONST_SLOT_LAST →
        Restores C inventoryPlace p.inventoryList (.slot slotId) (p.inventory slotId).toList) ∧
      (∀ depotId, Restores C depotPlace p.depotList (.depotChest depotId)
        ((p.depotChests.lookup depotId).getD [])) ∧
      Restores C inboxPlace p.inboxList .inbox p.inbox ∧
      Once C inventoryPlace p.inventoryList ∧ Once C depotPlace p.depotList ∧
      Once C inboxPlace p.inboxList := by
  have hdepot := depotPlace_depotList hchests
  have hinbox := inboxPlace_inboxList (p := p)
  have hdepotRoots : Roots depotPlace p.depotList := fun e he =>
    ⟨Nat.le_of_lt (hdepot e he).1, fun sid => by simp [(hdepot e he).2]⟩
  have hinboxRoots : Roots inboxPlace p.inboxList := fun e he =>
    ⟨by simp [(hinbox e he).1], fun sid => by simp [(hinbox e he).2]⟩
  have hdepotSlots : OneASlot depotPlace p.depotList :=
    oneASlot_of_ne fun e he s => by simp [(hdepot e he).2]
  have hinboxSlots : OneASlot inboxPlace p.inboxList :=
    oneASlot_of_ne fun e he s => by simp [(hinbox e he).2]
  refine ⟨fun slotId hfirst hlast => ?_, fun depotId => ?_, ?_,
    once_saved sorts_inventoryPlace roots_inventoryList oneASlot_inventoryList,
    once_saved sorts_depotPlace hdepotRoots hdepotSlots,
    once_saved sorts_inboxPlace hinboxRoots hinboxSlots⟩
  · have hslot := restores_saved (C := C) (.slot slotId) sorts_inventoryPlace
      (roots_inventoryList (p := p)) oneASlot_inventoryList fun _ => by simp
    rwa [filter_inventoryList, map_filter_inventoryList
      (List.mem_range'_1.2 ⟨hfirst, by omega⟩)] at hslot
  · have hchest := restores_saved (C := C) (.depotChest depotId) sorts_depotPlace
      hdepotRoots hdepotSlots fun _ => by simp
    rwa [map_filter_depotList hchests] at hchest
  · have hinbox := restores_saved (C := C) .inbox sorts_inboxPlace hinboxRoots
      hinboxSlots fun _ => by simp
    rwa [map_filter_inboxList] at hinbox

/-! Items that are written as they are. -/

def verbatim : Codec ℕ (ℕ × Bool) where
  serialize a isContainer := (a, isContainer)
  create := some
  create_serialize _ _ := rfl

/-- A backpack, with a bag and a coin, and the same bag in a depot chest. -/
def traveller (depotId : ℕ) : Player ℕ where
  inventory slotId := if slotId = 3 then some (.container 1988 [.container 1987 [.plain 2148],
    .plain 2148]) else none
  depotChests := ⟨[(depotId, [.container 1987 [.plain 2148]])], List.pairwise_singleton _ _⟩
  inbox := []

theorem restored_traveller :
    Restores verbatim inventoryPlace (traveller 2).inventoryList (.slot 3)
        [.container 1988 [.container 1987 [.plain 2148], .plain 2148]] ∧
      Restores verbatim depotPlace (traveller 2).depotList (.depotChest 2)
        [.container 1987 [.plain 2148]] := by
  obtain ⟨hslots, hchests, -⟩ := restored verbatim (traveller 2) (by decide)
  exact ⟨hslots 3 (by decide) (by decide), hchests 2⟩

/-- What was in the chest 100 is in no place when it is loaded. -/
theorem chest_lost :
    (traveller 100).depotChests.lookup 100 = some [.container 1987 [.plain 2148]] ∧
      load depotPlace (saved verbatim (traveller 100).depotList) (.depotChest 100) = [] ∧
      ¬ Restores verbatim depotPlace (traveller 100).depotList (.depotChest 100)
        [.container 1987 [.plain 2148]] := by
  have hload : load depotPlace (saved verbatim (traveller 100).depotList) (.depotChest 100) =
      [] := by
    decide +kernel
  refine ⟨rfl, hload, fun h => ?_⟩
  have hholds := (h []).1
  rw [hload] at hholds
  cases hholds rfl

end Player

end Canary.Login
