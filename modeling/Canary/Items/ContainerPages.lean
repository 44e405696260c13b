import Canary.Lib.Transition
import Canary.Lib.Window
import Mathlib.Algebra.Order.Group.Int
import Mathlib.Data.Int.Init
import Mathlib.Data.List.InsertIdx
import Mathlib.Algebra.Order.Ring.Int

/-!
# Pages of open containers

A player sees a page of an open container: the items from an index on, as many as the capacity. On
every change of the container a message tells the client what to do with the items that it shows.

* In all runs the index is a multiple of the capacity, and, if positive, smaller than the size
  (`View.paged_step`).
* The client shows the page, if items are put in front only while it shows the first page, and at
  the end only into an empty container, and the slots of items that change fit in 16 bits where
  they are compared (`pages_synced`).

On later pages an item in front moves another one into the page, for which the one before that is
sent; an item at the end is sent as one in front.

The container has a real parent. Weights are left out, and so is what items are.
-/

namespace Canary.Items.ContainerPages

open Transition Window

/-- What containers ask of items, and do with them. -/
class ContainerItem (I : Type*) where
  isStackable : I → Bool
  getItemCount : I → ℕ
  setItemCount : I → ℕ → I
  /-- `setID` and `setSubType` -/
  setIDAndSubType : I → ℕ → ℕ → I

open ContainerItem

/-- `uint16_t` -/
def uint16 (x : ℕ) : ℕ := x % 2 ^ 16

/-- `int32_t` -/
def int32 (x : ℕ) : ℤ := (x + 2 ^ 31) % 2 ^ 32 - 2 ^ 31

/-- An item and its address. -/
structure Thing (I : Type*) where
  pointer : ℕ
  item : I

structure Container (I : Type*) where
  itemlist : List (Thing I)
  capacity : ℕ
  isBrowseField : Bool
  hasPagination : Bool
  capacity_pos : 0 < capacity
  capacity_lt : capacity < 2 ^ 32

/-- What is sent to the client. -/
inductive Message (I : Type*)
  | container (firstIndex : ℕ) (items : List I)
  | add (slot : ℕ) (item : Option I)
  | update (slot : ℕ) (item : I)
  | remove (slot : ℕ) (last : Option I)

/-- The page that a client shows. -/
structure Client (I : Type*) where
  first : ℕ
  items : List I

variable {I : Type*}

namespace Container

variable (c : Container I)

def items : List I := c.itemlist.map Thing.item

def size : ℕ := c.itemlist.length

def getItemByIndex (index : ℕ) : Option I := c.items[index]?

def getThingIndex (pointer : ℕ) : Option ℕ := c.itemlist.findIdx? fun t => t.pointer == pointer

/-- An item of the container becomes another one. -/
def setItem (index : ℕ) (item : I) : Container I :=
  { c with itemlist := c.itemlist.modify index fun t => { t with item } }

end Container

/-! ## The client -/

def Client.receive (capacity : ℕ) (c : Client I) : Message I → Client I
  | .container firstIndex items => ⟨firstIndex, items⟩
  | .add slot (some item) =>
    { c with items := (c.items.insertIdx (slot - c.first) item).take capacity }
  | .add _ none => c
  | .update slot item => { c with items := c.items.set (slot - c.first) item }
  | .remove slot last =>
    if slot - c.first < c.items.length then
      { c with items := c.items.eraseIdx (slot - c.first) ++ last.toList }
    else c

/-! ## The player -/

/-- An open container of a player, with its index, and what the client shows. -/
structure View (I : Type*) where
  container : Container I
  index : ℕ
  client : Client I

namespace View

variable (v : View I)

/-- What a client is told. -/
def send (message : Message I) : View I :=
  { v with client := v.client.receive v.container.capacity message }

def sendContainer : View I :=
  v.send (.container v.index (window v.container.items v.index v.container.capacity))

def sendAddContainerItem (item : I) : View I :=
  if v.container.isBrowseField then
    let containerSize := uint16 (v.container.size - 1)
    let pageEnd := uint16 (v.index + v.container.capacity - 1)
    if containerSize > pageEnd then v.send (.add pageEnd (v.container.getItemByIndex pageEnd))
    else v.send (.add containerSize (some item))
  else if v.index ≥ v.container.capacity then
    v.send (.add v.index (v.container.getItemByIndex (v.index - 1)))
  else v.send (.add v.index (some item))

def sendUpdateContainerItem (slot : ℕ) (newItem : I) : View I :=
  if slot < v.index then v
  else if slot ≥ uint16 (v.index + v.container.capacity) then v
  else v.send (.update slot newItem)

def sendRemoveContainerItem (slot : ℕ) : View I :=
  let v :=
    if v.index > 0 ∧ v.index ≥ v.container.size - 1 then
      sendContainer { v with index := uint16 (v.index + 2 ^ 32 - v.container.capacity) }
    else v
  v.send (.remove (max slot v.index)
    (v.container.getItemByIndex ((v.container.capacity + v.index) % 2 ^ 32)))

/-! ## The container -/

def setItemlist (itemlist : List (Thing I)) : View I :=
  { v with container := { v.container with itemlist } }

def addThing (index : ℤ) (thing : Thing I) : View I :=
  if index ≥ int32 v.container.capacity then v
  else (v.setItemlist (thing :: v.container.itemlist)).sendAddContainerItem thing.item

def addItemBack (thing : Thing I) : View I :=
  (v.setItemlist (v.container.itemlist ++ [thing])).sendAddContainerItem thing.item

/-- An item of the container changes. -/
def change (index : ℕ) (item : I) : View I :=
  sendUpdateContainerItem { v with container := v.container.setItem index item } (uint16 index) item

def updateThing [ContainerItem I] (pointer itemId count : ℕ) : View I :=
  match v.container.getThingIndex pointer with
  | none => v
  | some index =>
    match v.container.getItemByIndex index with
    | none => v
    | some item => v.change index (setIDAndSubType item itemId count)

def replaceThing (index : ℕ) (thing : Thing I) : View I :=
  match v.container.getItemByIndex index with
  | none => v
  | some _ =>
    (v.setItemlist (v.container.itemlist.set index thing)).sendUpdateContainerItem (uint16 index)
      thing.item

def removeThing [ContainerItem I] (pointer count : ℕ) : View I :=
  match v.container.getThingIndex pointer with
  | none => v
  | some index =>
    match v.container.getItemByIndex index with
    | none => v
    | some item =>
      if isStackable item ∧ count ≠ getItemCount item then
        let newCount := (max 0 (int32 (getItemCount item + 2 ^ 32 - count))).toNat % 2 ^ 8
        v.change index (setItemCount item newCount)
      else
        let v := v.sendRemoveContainerItem (uint16 index)
        v.setItemlist (v.container.itemlist.eraseIdx index)

/-- `Game::playerSeekInContainer` -/
def playerSeekInContainer (index : ℕ) : View I :=
  if !v.container.hasPagination then v
  else if index % v.container.capacity ≠ 0 ∨ index ≥ v.container.size then v
  else sendContainer { v with index }

/-! ## What is meant -/

/-- The index is that of a page. -/
structure Paged (v : View I) : Prop where
  browse : v.container.isBrowseField = false
  lt : v.index < 2 ^ 16
  dvd : v.container.capacity ∣ v.index
  lt_size : 0 < v.index → v.index < v.container.size

/-- The client shows the page. -/
structure Synced (v : View I) : Prop where
  first : v.client.first = v.index
  items : v.client.items = window v.container.items v.index v.container.capacity

/-- The slot of an item that changes is compared with the page as it is. -/
def SlotFits (v : View I) (index : ℕ) : Prop :=
  if v.index ≤ uint16 index ∧ uint16 index < uint16 (v.index + v.container.capacity) then
    uint16 index = index
  else ¬(v.index ≤ index ∧ index < v.index + v.container.capacity)

/-- The slot of an item that goes is that of the item, or after the page like this. -/
def RemovalFits (v : View I) (index : ℕ) : Prop :=
  index < 2 ^ 16 ∨ v.index + v.container.capacity ≤ uint16 index

/-! ## The index -/

variable {v : View I} {index : ℕ} {item : I}

@[simp]
theorem container_send (message : Message I) : (v.send message).container = v.container := rfl

@[simp]
theorem index_send (message : Message I) : (v.send message).index = v.index := rfl

theorem sendAddContainerItem_eq (item : I) :
    (v.sendAddContainerItem item).container = v.container ∧
      (v.sendAddContainerItem item).index = v.index := by
  unfold sendAddContainerItem
  split
  · simp only
    split <;> exact ⟨rfl, rfl⟩
  · split <;> exact ⟨rfl, rfl⟩

theorem sendUpdateContainerItem_eq (slot : ℕ) (item : I) :
    (v.sendUpdateContainerItem slot item).container = v.container ∧
      (v.sendUpdateContainerItem slot item).index = v.index := by
  unfold sendUpdateContainerItem
  split
  · exact ⟨rfl, rfl⟩
  · split <;> exact ⟨rfl, rfl⟩

/-- A page switches to the one before. -/
theorem previous_eq (h : v.Paged) (hpos : 0 < v.index) :
    v.container.capacity ≤ v.index ∧
      uint16 (v.index + 2 ^ 32 - v.container.capacity) = v.index - v.container.capacity := by
  have hle := Nat.le_of_dvd hpos h.dvd
  have hlt := h.lt
  refine ⟨hle, ?_⟩
  unfold uint16
  omega

/-- More items, or as many, leave the index in place. -/
theorem Paged.of_size_le {v' : View I} (h : v.Paged)
    (hbrowse : v'.container.isBrowseField = v.container.isBrowseField)
    (hcapacity : v'.container.capacity = v.container.capacity) (hindex : v'.index = v.index)
    (hsize : v.container.size ≤ v'.container.size) : v'.Paged where
  browse := hbrowse.trans h.browse
  lt := hindex ▸ h.lt
  dvd := by
    rw [hcapacity, hindex]
    exact h.dvd
  lt_size hpos := (hindex ▸ h.lt_size (hindex ▸ hpos) : v'.index < v.container.size).trans_le hsize

theorem size_setItem (c : Container I) (index : ℕ) (item : I) :
    (c.setItem index item).size = c.size := List.length_modify _ _ _

theorem paged_change (h : v.Paged) (index : ℕ) (item : I) : (v.change index item).Paged := by
  obtain ⟨hcontainer, hindex⟩ := sendUpdateContainerItem_eq
    (v := { v with container := v.container.setItem index item }) (uint16 index) item
  refine h.of_size_le ?_ ?_ hindex ?_
  · rw [change, hcontainer]
    rfl
  · rw [change, hcontainer]
    rfl
  · rw [change, hcontainer]
    exact (size_setItem _ _ _).ge

theorem sendRemoveContainerItem_eq (h : v.Paged) (slot : ℕ) :
    (v.sendRemoveContainerItem slot).container = v.container ∧
      (v.sendRemoveContainerItem slot).index =
        if v.index > 0 ∧ v.index ≥ v.container.size - 1 then v.index - v.container.capacity
        else v.index := by
  simp only [sendRemoveContainerItem, container_send, index_send, -Nat.reducePow]
  split
  · rename_i hswitch
    simp only [sendContainer, container_send, index_send, (previous_eq h hswitch.1).2, and_self,
      -Nat.reducePow]
  · exact ⟨rfl, rfl⟩

/-! ## The page -/

theorem synced_sendContainer : v.sendContainer.Synced := ⟨rfl, rfl⟩

theorem items_setItem (c : Container I) (index : ℕ) (item : I) :
    (c.setItem index item).items = c.items.set index item := by
  refine List.ext_getElem? fun j => ?_
  simp only [Container.items, Container.setItem, List.getElem?_map, List.getElem?_modify,
    List.getElem?_set, List.length_map]
  split
  · rename_i hj
    subst hj
    cases hget : c.itemlist[index]? with
    | none => simp [List.getElem?_eq_none_iff.1 hget]
    | some t => simp [(List.getElem?_eq_some_iff.1 hget).1]
  · rw [id_map']

/-- The client replaces an item that it shows. -/
theorem synced_update (h : v.Synced) {c : Container I}
    (hitems : c.items = v.container.items.set index item)
    (hcapacity : c.capacity = v.container.capacity) (hfits : v.SlotFits index) :
    (sendUpdateContainerItem { v with container := c } (uint16 index) item).Synced := by
  unfold SlotFits at hfits
  unfold sendUpdateContainerItem
  simp only [hcapacity]
  by_cases hshown : v.index ≤ uint16 index ∧ uint16 index < uint16 (v.index + v.container.capacity)
  · rw [if_pos hshown] at hfits
    rw [if_neg (Nat.not_lt.2 hshown.1), if_neg (Nat.not_le.2 hshown.2)]
    constructor
    case first => exact h.first
    case items =>
      change v.client.items.set (uint16 index - v.client.first) item =
        window c.items v.index c.capacity
      rw [h.items, h.first, hitems, hcapacity, hfits, window_set_of_mem (hfits ▸ hshown.1)]
  · rw [if_neg hshown] at hfits
    have hkept : window c.items v.index c.capacity =
        window v.container.items v.index v.container.capacity := by
      rw [hitems, hcapacity, window_set_of_not_mem hfits]
    split
    · exact ⟨h.first, h.items.trans hkept.symm⟩
    · split
      · exact ⟨h.first, h.items.trans hkept.symm⟩
      · rename_i hle hlt
        exact absurd ⟨Nat.not_lt.1 hle, Nat.not_le.1 hlt⟩ hshown

theorem synced_change (h : v.Synced) (hfits : v.SlotFits index) (item : I) :
    (v.change index item).Synced :=
  synced_update h (items_setItem _ _ _) rfl hfits

/-- The client puts an item in front of the first page. -/
theorem synced_addThing (hpaged : v.Paged) (h : v.Synced) (hindex : v.index = 0) (thing : Thing I) :
    ((v.setItemlist (thing :: v.container.itemlist)).sendAddContainerItem thing.item).Synced := by
  have hpos := v.container.capacity_pos
  unfold sendAddContainerItem
  rw [if_neg (by simp [setItemlist, hpaged.browse])]
  rw [if_neg (by simp only [setItemlist]; omega)]
  constructor
  case first => exact h.first
  case items =>
    change (v.client.items.insertIdx (v.index - v.client.first) thing.item).take
      v.container.capacity = window (thing.item :: v.container.items) v.index v.container.capacity
    rw [h.items, h.first, Nat.sub_self, hindex, window_cons, List.insertIdx_zero]

/-- The first item of a container is the one at its end. -/
theorem synced_addItemBack (hpaged : v.Paged) (h : v.Synced) (hempty : v.container.itemlist = [])
    (thing : Thing I) : ((v.setItemlist (v.container.itemlist ++ [thing])).sendAddContainerItem
      thing.item).Synced := by
  have hindex : v.index = 0 := by
    have hlt := hpaged.lt_size
    simp only [Container.size, hempty, List.length_nil] at hlt
    omega
  have hfront := synced_addThing hpaged h hindex thing
  rw [hempty] at hfront ⊢
  exact hfront

/-- An item goes, and the client takes it from its page, if it is there, and gets the next one. -/
theorem synced_remove (h : v.Synced) (hlt : v.index < 2 ^ 16) (hindex : index < v.container.size)
    (hshown : v.index < v.container.size) (hroom : v.container.capacity + v.index < 2 ^ 32)
    (hfits : v.RemovalFits index) :
    ((v.send (.remove (max (uint16 index) v.index)
      (v.container.getItemByIndex ((v.container.capacity + v.index) % 2 ^ 32)))).setItemlist
        (v.container.itemlist.eraseIdx index)).Synced := by
  have hpos := v.container.capacity_pos
  have hlength : (window v.container.items v.index v.container.capacity).length =
      min v.container.capacity (v.container.size - v.index) := by
    rw [length_window, Container.items, List.length_map]
    rfl
  have hsize : v.container.items.length = v.container.size := List.length_map _
  constructor
  case first =>
    change (v.client.receive _ _).first = v.index
    unfold Client.receive
    simp only
    split <;> exact h.first
  case items =>
    change (v.client.receive _ _).items =
      window ((v.container.itemlist.eraseIdx index).map Thing.item) v.index v.container.capacity
    rw [← List.eraseIdx_map]
    change _ = window (v.container.items.eraseIdx index) v.index v.container.capacity
    simp only [Client.receive, h.first, h.items, Container.getItemByIndex]
    rw [Nat.mod_eq_of_lt hroom, Nat.add_comm v.container.capacity, hlength]
    rcases Nat.lt_or_ge index v.index with hbefore | hafter
    · have hslot : max (uint16 index) v.index - v.index = 0 := by
        unfold uint16
        omega
      rw [hslot, if_pos (by omega), window_eraseIdx_of_lt hbefore (by omega) hpos]
    · rcases Nat.lt_or_ge index (v.index + v.container.capacity) with hin | hbeyond
      · have hslot : max (uint16 index) v.index - v.index = index - v.index := by
          rcases hfits with hsmall | hlate
          · unfold uint16
            omega
          · unfold uint16 at hlate
            omega
        rw [hslot, if_pos (by omega), window_eraseIdx_of_mem hafter hin (by omega)]
      · have hslot : v.container.capacity ≤ max (uint16 index) v.index - v.index := by
          rcases hfits with hsmall | hlate
          · unfold uint16
            omega
          · omega
        rw [if_neg (by omega), window_eraseIdx_of_le hbeyond]
        exact h.items

/-- The page is that before, if the last one becomes empty. -/
theorem synced_sendRemoveContainerItem (hpaged : v.Paged) (h : v.Synced)
    (hindex : index < v.container.size) (hfits : v.RemovalFits index) :
    ((v.sendRemoveContainerItem (uint16 index)).setItemlist
      (v.container.itemlist.eraseIdx index)).Synced := by
  have hpos := v.container.capacity_pos
  have hcapacity := v.container.capacity_lt
  have hlt := hpaged.lt
  have hlt_size := hpaged.lt_size
  unfold sendRemoveContainerItem
  split
  · rename_i hswitch
    obtain ⟨hle, hprevious⟩ := previous_eq hpaged hswitch.1
    have hlast : index < 2 ^ 16 := by omega
    rw [hprevious]
    refine synced_remove (v := sendContainer { v with index := v.index - v.container.capacity })
      synced_sendContainer ?_ hindex ?_ ?_ (.inl hlast)
    all_goals
      simp only [sendContainer, index_send, container_send]
      omega
  · exact synced_remove h hlt hindex (by omega) (by
      rcases Nat.eq_zero_or_pos v.index with hzero | hpos'
      · omega
      · have := Nat.le_of_dvd hpos' hpaged.dvd
        omega) hfits

end View

/-! ## Runs -/

variable [ContainerItem I]

inductive Event (I : Type*)
  | addThing (index : ℤ) (thing : Thing I)
  | addItemBack (thing : Thing I)
  | updateThing (pointer : ℕ) (itemId : UInt16) (count : UInt32)
  | replaceThing (index : UInt32) (thing : Thing I)
  | removeThing (pointer : ℕ) (count : UInt32)
  | playerSeekInContainer (index : UInt16)

namespace View

/-- An item is at one place, so one that comes is not in the container. -/
def next (v : View I) : Event I → Option (View I)
  | .addThing index thing =>
    if (v.container.getThingIndex thing.pointer).isSome then none else some (v.addThing index thing)
  | .addItemBack thing =>
    if (v.container.getThingIndex thing.pointer).isSome then none else some (v.addItemBack thing)
  | .updateThing pointer itemId count =>
    some (v.updateThing pointer itemId.toNat count.toNat)
  | .replaceThing index thing =>
    if (v.container.getThingIndex thing.pointer).isSome then none
    else some (v.replaceThing index.toNat thing)
  | .removeThing pointer count => some (v.removeThing pointer count.toNat)
  | .playerSeekInContainer index => some (v.playerSeekInContainer index.toNat)

/-- The container is opened at its first page. -/
def opened (c : Container I) : View I := sendContainer ⟨c, 0, ⟨0, []⟩⟩

end View

/-- The runs with an open container that is no browse field. -/
def system (I : Type*) [ContainerItem I] : System (View I) (Event I) :=
  .ofNext (fun v => ∃ c : Container I, c.isBrowseField = false ∧ v = View.opened c) View.next

namespace View

/-- The changes for which the messages are right. -/
def Fits (v : View I) : Event I → Prop
  | .addThing index _ => index ≥ int32 v.container.capacity ∨ v.index = 0
  | .addItemBack _ => v.container.itemlist = []
  | .updateThing pointer _ _ => ∀ index, v.container.getThingIndex pointer = some index →
    v.SlotFits index
  | .replaceThing index _ => index.toNat < v.container.size → v.SlotFits index.toNat
  | .removeThing pointer count => ∀ index item, v.container.getThingIndex pointer = some index →
    v.container.getItemByIndex index = some item →
      if isStackable item ∧ count.toNat ≠ getItemCount item then v.SlotFits index
      else v.RemovalFits index
  | .playerSeekInContainer _ => True

variable {v : View I}

omit [ContainerItem I] in
theorem lt_size_of_getItemByIndex {c : Container I} {index : ℕ} {item : I}
    (h : c.getItemByIndex index = some item) : index < c.size := by
  simpa [Container.items, Container.size] using (List.getElem?_eq_some_iff.1 h).1

theorem paged_removeThing (h : v.Paged) (pointer count : ℕ) :
    (v.removeThing pointer count).Paged := by
  unfold removeThing
  cases v.container.getThingIndex pointer with
  | none => exact h
  | some index =>
    simp only
    cases hitem : v.container.getItemByIndex index with
    | none => exact h
    | some item =>
      simp only
      split
      · exact paged_change h index _
      · obtain ⟨hcontainer, hindex⟩ := sendRemoveContainerItem_eq h (uint16 index)
        have hlt := lt_size_of_getItemByIndex hitem
        have hpos := v.container.capacity_pos
        have hindexlt := h.lt
        constructor
        case browse =>
          change (v.sendRemoveContainerItem (uint16 index)).container.isBrowseField = false
          rw [hcontainer]
          exact h.browse
        case lt =>
          change (v.sendRemoveContainerItem (uint16 index)).index < 2 ^ 16
          rw [hindex]
          split <;> omega
        case dvd =>
          change (v.sendRemoveContainerItem (uint16 index)).container.capacity ∣
            (v.sendRemoveContainerItem (uint16 index)).index
          rw [hindex, hcontainer]
          split
          · exact Nat.dvd_sub h.dvd (Nat.dvd_refl _)
          · exact h.dvd
        case lt_size =>
          intro hindex_pos
          change (v.sendRemoveContainerItem (uint16 index)).index <
            ((v.sendRemoveContainerItem (uint16 index)).container.itemlist.eraseIdx index).length
          change 0 < (v.sendRemoveContainerItem (uint16 index)).index at hindex_pos
          have hsize : v.container.itemlist.length = v.container.size := rfl
          rw [hcontainer, List.length_eraseIdx, hsize, if_pos hlt]
          rw [hindex] at hindex_pos ⊢
          have hlt_size := h.lt_size
          split at hindex_pos <;> split <;> omega

theorem paged_step (h : v.Paged) {e : Event I} {v' : View I} (hstep : v.next e = some v') :
    v'.Paged := by
  -- The first index stays where it is but for a removal and a request of the client.
  cases e with
  | addThing position thing =>
    obtain ⟨-, hstep⟩ := Option.ite_none_left_eq_some.1 hstep
    cases hstep
    unfold addThing
    split
    · exact h
    · obtain ⟨hcontainer, hindex⟩ := sendAddContainerItem_eq
        (v := v.setItemlist (thing :: v.container.itemlist)) thing.item
      refine h.of_size_le ?_ ?_ hindex ?_ <;> rw [hcontainer]
      exacts [rfl, rfl, Nat.le_succ _]
  | addItemBack thing =>
    obtain ⟨-, hstep⟩ := Option.ite_none_left_eq_some.1 hstep
    cases hstep
    unfold addItemBack
    obtain ⟨hcontainer, hindex⟩ := sendAddContainerItem_eq
      (v := v.setItemlist (v.container.itemlist ++ [thing])) thing.item
    refine h.of_size_le ?_ ?_ hindex ?_ <;> rw [hcontainer]
    exacts [rfl, rfl, by simp [setItemlist, Container.size]]
  | updateThing pointer itemId count =>
    cases hstep
    unfold updateThing
    split
    · exact h
    · split
      · exact h
      · exact paged_change h _ _
  | replaceThing index thing =>
    obtain ⟨-, hstep⟩ := Option.ite_none_left_eq_some.1 hstep
    cases hstep
    unfold replaceThing
    split
    · exact h
    · obtain ⟨hcontainer, hindex⟩ := sendUpdateContainerItem_eq
        (v := v.setItemlist (v.container.itemlist.set index.toNat thing)) (uint16 index.toNat)
        thing.item
      refine h.of_size_le ?_ ?_ hindex ?_ <;> rw [hcontainer]
      exacts [rfl, rfl, by simp [setItemlist, Container.size]]
  | removeThing pointer count =>
    cases hstep
    exact paged_removeThing h pointer count.toNat
  | playerSeekInContainer index =>
    cases hstep
    unfold playerSeekInContainer
    split
    · exact h
    · split
      · exact h
      · rename_i hindex
        rw [not_or, not_not, not_le] at hindex
        exact ⟨h.browse, index.toNat_lt, Nat.dvd_of_mod_eq_zero hindex.1, fun _ => hindex.2⟩

/-! ## The page after each change -/

theorem synced_updateThing (h : v.Synced) {pointer : ℕ} (itemId count : ℕ)
    (hfits : ∀ index, v.container.getThingIndex pointer = some index → v.SlotFits index) :
    (v.updateThing pointer itemId count).Synced := by
  unfold updateThing
  split
  · exact h
  · rename_i index hindex
    split
    · exact h
    · exact synced_change h (hfits index hindex) _

omit [ContainerItem I] in
theorem synced_replaceThing (h : v.Synced) {index : ℕ} (thing : Thing I)
    (hfits : index < v.container.size → v.SlotFits index) :
    (v.replaceThing index thing).Synced := by
  unfold replaceThing
  split
  · exact h
  · rename_i item hitem
    have hlt := lt_size_of_getItemByIndex hitem
    exact synced_update h (List.map_set ..) rfl (hfits hlt)

theorem synced_removeThing (hpaged : v.Paged) (h : v.Synced) {pointer count : ℕ}
    (hfits : ∀ index item, v.container.getThingIndex pointer = some index →
      v.container.getItemByIndex index = some item →
        if isStackable item ∧ count ≠ getItemCount item then v.SlotFits index
        else v.RemovalFits index) : (v.removeThing pointer count).Synced := by
  unfold removeThing
  cases hindex : v.container.getThingIndex pointer with
  | none => exact h
  | some index =>
    simp only
    cases hitem : v.container.getItemByIndex index with
    | none => exact h
    | some item =>
      have hlt := lt_size_of_getItemByIndex hitem
      have hfit := hfits index item hindex hitem
      simp only
      split
      · rename_i hpart
        rw [if_pos hpart] at hfit
        exact synced_change h hfit _
      · rename_i hpart
        rw [if_neg hpart] at hfit
        rw [(sendRemoveContainerItem_eq hpaged _).1]
        exact synced_sendRemoveContainerItem hpaged h hlt hfit

theorem synced_step (hpaged : v.Paged) (h : v.Synced) {e : Event I} {v' : View I}
    (hfits : v.Fits e) (hstep : v.next e = some v') : v'.Synced := by
  cases e with
  | addThing position thing =>
    obtain ⟨-, hstep⟩ := Option.ite_none_left_eq_some.1 hstep
    cases hstep
    unfold addThing
    split
    · exact h
    · rename_i hposition
      exact synced_addThing hpaged h (hfits.resolve_left hposition) thing
  | addItemBack thing =>
    obtain ⟨-, hstep⟩ := Option.ite_none_left_eq_some.1 hstep
    cases hstep
    exact synced_addItemBack hpaged h hfits thing
  | updateThing pointer itemId count =>
    cases hstep
    exact synced_updateThing h _ _ hfits
  | replaceThing index thing =>
    obtain ⟨-, hstep⟩ := Option.ite_none_left_eq_some.1 hstep
    cases hstep
    exact synced_replaceThing h thing hfits
  | removeThing pointer count =>
    cases hstep
    exact synced_removeThing hpaged h hfits
  | playerSeekInContainer index =>
    cases hstep
    unfold playerSeekInContainer
    split
    · exact h
    · split
      · exact h
      · exact synced_sendContainer

theorem next_addThing {thing : Thing I} (position : ℤ)
    (h : v.container.getThingIndex thing.pointer = none) :
    v.next (.addThing position thing) = some (v.addThing position thing) := by
  rw [next, h, if_neg (by simp)]

theorem next_addItemBack {thing : Thing I} (h : v.container.getThingIndex thing.pointer = none) :
    v.next (.addItemBack thing) = some (v.addItemBack thing) := by
  rw [next, h, if_neg (by simp)]

omit [ContainerItem I] in
theorem paged_opened {c : Container I} (h : c.isBrowseField = false) : (opened c).Paged :=
  ⟨h, by simp [opened, sendContainer], by simp [opened, sendContainer],
    by simp [opened, sendContainer]⟩

end View

/-- In every run the index is that of a page. In every run whose changes fit the client shows the
page. -/
theorem pages_synced {v : View I} (h : (system I).ReachableVia View.Fits v) :
    v.Paged ∧ v.Synced :=
  h.invariant (I := fun v => v.Paged ∧ v.Synced)
    (by
      rintro v ⟨c, hc, rfl⟩
      exact ⟨View.paged_opened hc, View.synced_sendContainer⟩)
    fun _ _ _ ⟨hpaged, hsynced⟩ hfits hstep =>
      ⟨View.paged_step hpaged hstep, View.synced_step hpaged hsynced hfits hstep⟩

/-! ### Items behind the first -/

/-- Items of which only the id is seen. -/
instance : ContainerItem ℕ where
  isStackable _ := false
  getItemCount _ := 1
  setItemCount item _ := item
  setIDAndSubType _ itemId _ := itemId

/-- A container for one item on a page. -/
def bag : Container ℕ where
  itemlist := []
  capacity := 1
  isBrowseField := false
  hasPagination := true
  capacity_pos := Nat.zero_lt_one
  capacity_lt := by decide

/-- A container for two items on a page, with three. -/
def pouch : Container ℕ where
  itemlist := [⟨1, 2148⟩, ⟨2, 2152⟩, ⟨3, 2160⟩]
  capacity := 2
  isBrowseField := false
  hasPagination := true
  capacity_pos := Nat.zero_lt_two
  capacity_lt := by decide

/-- An item is put in front, and then the second page is shown. -/
def turned : View ℕ := ((View.opened pouch).addThing 0 ⟨4, 3031⟩).playerSeekInContainer 2

/-- The last item changes and goes, and then the other one of the page. -/
def turnedBack : View ℕ := ((turned.updateThing 3 2161 1).removeThing 3 1).removeThing 2 1

theorem pages_synced_turnedBack :
    turned.index = 2 ∧ turnedBack.index = 0 ∧ turnedBack.Paged ∧ turnedBack.Synced := by
  have hturned : (system ℕ).ReachableVia View.Fits turned :=
    .step (a := .playerSeekInContainer 2) (.step (a := .addThing 0 ⟨4, 3031⟩)
      (.init ⟨pouch, rfl, rfl⟩) (.inr rfl) (View.next_addThing _ (by decide))) trivial rfl
  -- An item that goes is one of the first 2^16.
  have hremove {v : View ℕ} {pointer index : ℕ} (hindex : index < 2 ^ 16)
      (h : v.container.getThingIndex pointer = some index) :
      v.Fits (.removeThing pointer 1) := fun index' item h' _ => by
    obtain rfl := Option.some.inj (h.symm.trans h')
    exact .inl hindex
  have hupdate : turned.Fits (.updateThing 3 2161 1) := fun index h => by
    obtain rfl : 3 = index := Option.some.inj h
    rw [View.SlotFits, if_pos (by decide)]
    rfl
  refine ⟨by decide, by decide, pages_synced (.step (a := .removeThing 2 1)
    (.step (a := .removeThing 3 1) (.step (a := .updateThing 3 2161 1) hturned hupdate rfl)
      (hremove (by decide) (by decide : _ = some 3)) rfl)
    (hremove (by decide) (by decide : _ = some 2)) rfl)⟩

/-- One item, and another one at the end: the client of the first page shows the second. -/
theorem item_back_shown_in_front :
    (system ℕ).Reachable (((View.opened bag).addThing 0 ⟨1, 2148⟩).addItemBack ⟨2, 2152⟩) ∧
      ¬(((View.opened bag).addThing 0 ⟨1, 2148⟩).addItemBack ⟨2, 2152⟩).Synced := by
  constructor
  · exact .step (.step (.init ⟨bag, rfl, rfl⟩) trivial (View.next_addThing _ (by decide))) trivial
      (View.next_addItemBack (by decide +kernel))
  · intro h
    have hitems := h.items
    revert hitems
    decide

end Canary.Items.ContainerPages
