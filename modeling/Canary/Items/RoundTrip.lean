import Canary.Items.Lossless

/-!
# The round trip of item trees

Loading what `saveItem` wrote: the bytes are taken off the stream to the last one, and a tree
of the same shape comes back (`loadItem_saveItem`). Every item in it has the type that
`createItem` makes items of its old type as, and an item that is `Lossless` is `Restored`.
-/

namespace Canary.Items

open Bytes (Scalar)

/-- Two trees of the same shape whose items, one by one, are in a relation. -/
inductive ItemTree.Rel (R : Item → Item → Prop) : ItemTree → ItemTree → Prop
  | node {item item' : Item} {itemlist itemlist' : List ItemTree} (root : R item item')
    (items : List.Forall₂ (Rel R) itemlist itemlist') :
    Rel R (.node item itemlist) (.node item' itemlist')

namespace IOMapSerialize

variable (server : Server)

/-! ## Nesting

A container takes at least the two bytes of its id, so the length of the stream bounds how
deep containers nest in it. -/

/-! ## What comes back -/

/-- What an item tree must be to be loaded again: the types exist, the classes are those of
    the types, none is a depot locker, only containers have contents, and the strings and
    numbers of items and custom attributes fit. -/
inductive Savable : ItemTree → Prop
  | node {item : Item} {itemlist : List ItemTree}
    (exists_ : (server.items item.id).id ≠ 0)
    (class_ : item.class_ = Item.classOf (server.items item.id))
    (notLocker : item.class_ ≠ .depotLocker)
    (fits : item.Fits)
    (leaf : item.isContainer = false → itemlist = [])
    (size : itemlist.length < 2 ^ 32)
    (items : ∀ t ∈ itemlist, Savable t) : Savable (.node item itemlist)

/-- A tree of the same shape, whose items have the types that items of the old types are made
    as; those that are lossless are restored. -/
def Rebuilt : ItemTree → ItemTree → Prop := ItemTree.Rel fun item item' =>
  item'.id = Item.createdId server item.id ∧ (item.Lossless server → item.Restored server item')

/-- Whatever follows and whatever the parent holds, loading a tree that was saved adds `t'`. -/
def Loads (t t' : ItemTree) : Prop :=
  ∀ n s itemlist, (saveItem server t ++ s).length ≤ n →
    loadNested server n (saveItem server t ++ s) itemlist = some (t' :: itemlist, s)

variable {server}

/-- The contents of a container, saved from the last to the first, come back in order. -/
theorem loadContainer_saveReversed {l l' : List ItemTree} (h : List.Forall₂ (Loads server) l l')
    {n k : Nat} {s : List UInt8} (hn : (saveReversed server l ++ s).length ≤ n)
    (itemlist : List ItemTree) :
    loadContainer (loadNested server n) (l.length + k) (saveReversed server l ++ s) itemlist =
      loadContainer (loadNested server n) k s (l' ++ itemlist) := by
  induction h generalizing k s itemlist with
  | nil => simp [saveReversed]
  | @cons t t' l l' ht _ ih =>
    rw [saveReversed, List.append_assoc] at hn ⊢
    have hlen : (t :: l).length + k = l.length + (k + 1) := by
      rw [List.length_cons]
      omega
    have ht' : (saveItem server t ++ s).length ≤ n := by
      rw [List.length_append] at hn
      omega
    rw [hlen, ih hn, loadContainer, ht n s _ ht']
    rfl

/-- How many contents are still to be read does not matter to what an item is. -/
theorem restored_serializationCount {item item' : Item} (h : item.Restored server item')
    (n : BitVec 32) : item.Restored server { item' with serializationCount := n } :=
  ⟨h.class_, h.id, h.count, h.integer, h.duration, h.decaying, h.string, h.custom, h.destPos,
    h.sleeper, h.noNewInteger, h.noNewString⟩

/-- The tag of the contents ends the attributes of a container. -/
theorem readTag_containerItems {item : Item} (hc : item.class_ = .container ∨
    item.class_ = .rewardChest) (k : Nat) (s : List UInt8) :
    Item.readTag server AttrTypes.containerItems.toByte
        (Scalar.u32.write (BitVec.ofNat 64 k) ++ s) item =
      .finish { item with serializationCount := BitVec.ofNat 32 k } s := by
  have hcast : (Scalar.u32.cast (BitVec.ofNat 64 k)).setWidth 32 = BitVec.ofNat 32 k := by
    refine (Scalar.setWidth_ofNat (T := .u32) (BitVec.ofNat 64 k).toNat).trans ?_
    rw [BitVec.ofNat_toNat]
    exact BitVec.setWidth_ofNat_of_le (by decide) k
  have hread (s : List UInt8) : item.readAttr server .containerItems s =
      item.containerReadAttr server .containerItems s := by
    rcases hc with hc | hc <;> simp only [Item.readAttr, hc]
  rw [Item.readTag, AttrTypes.ofByte_toByte]
  simp only [hread, Item.containerReadAttr, if_true, Scalar.read_write, hcast]

/-- The id of an item is read first, and a fresh item of the type reads the rest. -/
theorem loadNested_write {id : BitVec 16} {st : Item} (hst : Item.createItem server id = some st)
    (n : Nat) (s : List UInt8) (itemlist : List ItemTree) :
    loadNested server (n + 1) (Scalar.u16.write (id.setWidth 64) ++ s) itemlist =
      match st.unserializeAttr server s with
      | none => none
      | some (item, s) =>
        if item.isContainer then
          match loadContainer (loadNested server n) item.serializationCount.toNat s [] with
          | none => none
          | some (contents, s) =>
            some (.node { item with serializationCount := 0 } contents :: itemlist, s)
        else some (.node item [] :: itemlist, s) := by
  have hid : (Scalar.u16.cast (id.setWidth 64)).setWidth 16 = id :=
    Scalar.setWidth_cast (T := .u16) id
  rw [loadNested, Scalar.read_write]
  dsimp only
  split
  · next h =>
    rw [hid, hst] at h
    nomatch h
  · next item h =>
    rw [hid, hst] at h
    obtain rfl := Option.some.inj h
    rfl

section node

variable {item st : Item} {itemlist l' : List ItemTree} {i : BitVec 16} (hfits : item.Fits)
  (hst : Item.createItem server item.id = some st) (his : st.Is item.class_ i)

include hfits hst his

/-- A container whose contents load, loads. -/
theorem loads_container (hc : item.class_ = .container ∨ item.class_ = .rewardChest)
    (hsize : itemlist.length < 2 ^ 32) (hl : List.Forall₂ (Loads server) itemlist l') :
    Loads server (.node item itemlist)
      (.node { Item.reloaded server item st with serializationCount := 0 } l') := by
  intro n s items hn
  have hcont : item.isContainer := by rcases hc with hc | hc <;> simp [Item.isContainer, hc]
  have hR := Item.reloaded_is server hfits his
  have hc' : (Item.reloaded server item st).class_ = .container ∨
      (Item.reloaded server item st).class_ = .rewardChest := hR.1.symm ▸ hc
  have hcont' : (Item.reloaded server item st).isContainer := by
    rcases hc' with hc' | hc' <;> simp [Item.isContainer, hc']
  rw [saveItem, if_pos hcont] at hn ⊢
  simp only [List.append_assoc, List.cons_append, List.nil_append] at hn ⊢
  have hwrite : (Scalar.u16.write (item.id.setWidth 64)).length = 2 := Bytes.length_encode _ _
  obtain ⟨m, rfl⟩ : ∃ m, n = m + 1 := ⟨n - 1, by simp only [List.length_append] at hn; omega⟩
  have hm : (saveReversed server itemlist ++ 0 :: s).length ≤ m := by
    simp only [List.length_append, List.length_cons] at hn ⊢
    omega
  have hattr : st.unserializeAttr server (item.serializeAttr server ++
      AttrTypes.containerItems.toByte :: (Scalar.u32.write (BitVec.ofNat 64 itemlist.length) ++
        (saveReversed server itemlist ++ 0 :: s))) =
      some ({ Item.reloaded server item st with
        serializationCount := BitVec.ofNat 32 itemlist.length },
        saveReversed server itemlist ++ 0 :: s) := by
    rw [Item.unserializeAttr, Item.readAll_serializeAttr hfits his]
    exact Tagged.readAll_finish (AttrTypes.toByte_ne_zero _)
      (readTag_containerItems hc' itemlist.length _)
  have hcount : (BitVec.ofNat 32 itemlist.length).toNat = itemlist.length := by
    rw [BitVec.toNat_ofNat, Nat.mod_eq_of_lt hsize]
  have hload : loadContainer (loadNested server m) itemlist.length
      (saveReversed server itemlist ++ 0 :: s) [] = some (l', s) := by
    have h := loadContainer_saveReversed (k := 0) hl hm []
    rw [Nat.add_zero, List.append_nil] at h
    exact h
  rw [loadNested_write hst, hattr]
  simp only [hcount, hload]
  exact if_pos hcont'

/-- An item that is no container loads. -/
theorem loads_leaf (hc : ¬item.isContainer) :
    Loads server (.node item []) (.node (Item.reloaded server item st) []) := by
  intro n s items hn
  have hR := Item.reloaded_is server hfits his
  have hc' : ¬(Item.reloaded server item st).isContainer := by
    rwa [Item.isContainer, hR.1]
  rw [saveItem, if_neg hc] at hn ⊢
  simp only [List.append_assoc, List.cons_append, List.nil_append] at hn ⊢
  have hwrite : (Scalar.u16.write (item.id.setWidth 64)).length = 2 := Bytes.length_encode _ _
  obtain ⟨m, rfl⟩ : ∃ m, n = m + 1 := ⟨n - 1, by simp only [List.length_append] at hn; omega⟩
  have hattr : st.unserializeAttr server (item.serializeAttr server ++ 0 :: s) =
      some (Item.reloaded server item st, s) := by
    rw [Item.unserializeAttr, Item.readAll_serializeAttr hfits his, Tagged.readAll_zero]
  rw [loadNested_write hst, hattr]
  exact if_neg hc'

end node

/-- What exists for each tree of a list, exists for the list. -/
theorem exists_forall₂ {P Q : ItemTree → ItemTree → Prop} {l : List ItemTree}
    (h : ∀ t ∈ l, ∃ t', P t t' ∧ Q t t') : ∃ l', List.Forall₂ P l l' ∧ List.Forall₂ Q l l' := by
  induction l with
  | nil => exact ⟨[], .nil, .nil⟩
  | cons t l ih =>
    obtain ⟨t', hP, hQ⟩ := h t List.mem_cons_self
    obtain ⟨l', hPl, hQl⟩ := ih fun u hu => h u (List.mem_cons_of_mem _ hu)
    exact ⟨t' :: l', .cons hP hPl, .cons hQ hQl⟩

/-- Loading a tree that was saved gives back a rebuilt tree and the rest of the stream. -/
theorem exists_loads {t : ItemTree} (h : Savable server t) :
    ∃ t', Rebuilt server t t' ∧ Loads server t t' := by
  induction h with
  | @node item itemlist hexists hclass hlocker hfits hleaf hsize _ ih =>
    obtain ⟨l', hrebuilt, hloads⟩ := exists_forall₂ ih
    obtain ⟨st, hst⟩ := Item.createItem_isSome hexists
    have his : st.Is item.class_ (Item.createdId server item.id) := by
      obtain ⟨m, rfl⟩ := Item.createItem_eq hst
      exact hclass ▸ Item.new_is
    have hR := Item.reloaded_is server hfits his
    have hrestored (h : item.Lossless server) := Item.restored_reloaded hfits h hclass hst
    by_cases hc : item.isContainer
    · have hc' : item.class_ = .container ∨ item.class_ = .rewardChest := by
        simpa [Item.isContainer, hlocker] using hc
      exact ⟨.node { Item.reloaded server item st with serializationCount := 0 } l',
        ItemTree.Rel.node ⟨hR.2, fun h => restored_serializationCount (hrestored h) 0⟩ hrebuilt,
        loads_container hfits hst his hc' hsize hloads⟩
    · obtain rfl := hleaf (by simpa using hc)
      cases hrebuilt
      exact ⟨_, ItemTree.Rel.node ⟨hR.2, hrestored⟩ .nil, loads_leaf hfits hst his hc⟩

/-- **Round trip.** Loading the bytes of a saved tree succeeds, takes exactly these bytes off
    the stream, and puts a rebuilt tree into the parent. -/
theorem loadItem_saveItem {t : ItemTree} (h : Savable server t) (s : List UInt8) :
    ∃ t', loadItem server (saveItem server t ++ s) [] = some ([t'], s) ∧ Rebuilt server t t' := by
  obtain ⟨t', hrebuilt, hloads⟩ := exists_loads h
  exact ⟨t', hloads _ s [] (Nat.le_refl _), hrebuilt⟩

/-! ### Examples -/

/-- A server where the type 100 is a bag, the type 200 stacks, and all other types are plain. -/
def bagServer : Server where
  items id := {
    id := id
    group := if id = 100 then .container else .none
    type := .other
    stackable := id = 200
    movable := true
    charges := 0
    decayTime := 0 }
  forgeMaxItemTier := 10
  time := 0
  timeNow := 0
  nameByGuid _ := []
  addUniqueItem _ := true

theorem fits_of_no_attributes {c : ItemClass} {i : BitVec 16} {n : BitVec 8} :
    ({ class_ := c, id := i, count := n } : Item).Fits where
  string _ := Nat.zero_le _
  custom _ h := absurd h List.not_mem_nil
  custom_length := Nat.two_pow_pos 64

/-- A bag with 33 coins. -/
def bagOfCoins : ItemTree :=
  .node { class_ := .container, id := 100 } [.node { class_ := .item, id := 200, count := 33 } []]

theorem bagOfCoins_savable : Savable bagServer bagOfCoins := by
  refine .node (by decide) (by decide) (by decide) fits_of_no_attributes (by decide) (by decide) ?_
  intro t ht
  rw [List.mem_singleton.1 ht]
  exact .node (by decide) (by decide) (by decide) fits_of_no_attributes (fun _ => rfl) (by decide)
    fun _ h => absurd h List.not_mem_nil

theorem loadItem_saveItem_bag :
    ∃ t', loadItem bagServer (saveItem bagServer bagOfCoins ++ [200]) [] = some ([t'], [200]) ∧
      Rebuilt bagServer bagOfCoins t' :=
  loadItem_saveItem bagOfCoins_savable [200]

/-- An activated sword ring. -/
def activatedRing : ItemTree := .node { class_ := .item, id := 3094 } []

theorem activatedRing_savable : Savable bagServer activatedRing :=
  .node (by decide) (by decide) (by decide) fits_of_no_attributes (fun _ => rfl) (by decide)
    fun _ h => absurd h List.not_mem_nil

/-- An activated sword ring is not restored: what is loaded is a sword ring. -/
theorem not_restored_activatedRing : Savable bagServer activatedRing ∧
    ¬∃ t', loadItem bagServer (saveItem bagServer activatedRing) [] = some ([t'], []) ∧
      ItemTree.Rel (Item.Restored bagServer) activatedRing t' := by
  refine ⟨activatedRing_savable, ?_⟩
  rintro ⟨t', hload, hsame⟩
  obtain ⟨t, hrebuilt, hloads⟩ := exists_loads activatedRing_savable
  have ht := hloads _ [] [] (Nat.le_refl _)
  rw [List.append_nil] at ht
  obtain rfl : t' = t := by simpa using hload.symm.trans ht
  cases hsame with
  | node hrestored _ =>
    cases hrebuilt with
    | node hid _ => exact absurd (hid.1.symm.trans hrestored.id) (by decide)

end IOMapSerialize

end Canary.Items
