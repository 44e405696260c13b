import Canary.Items.Serialize

/-!
# Reading attributes back

What `unserializeAttr` makes of the attributes that `serializeAttr` wrote. Every attribute
written is a field of the stream that the reader takes in by one update of the item
(`itemFields`, `itemFields_reads`); the attributes of an item leave a fresh item in the state
`restoreItem`, field after field.
-/

namespace Canary.Items

open Bytes (Scalar readString writeString)
open Tagged (Outcome TagField)

/-! ## Nothing is given back to the stream -/

namespace Item

theorem readInteger_within {T : Scalar} {s : List UInt8} {k : BitVec 64 → Item} :
    (readInteger T s k).Within s := by
  unfold readInteger
  split
  · trivial
  · next h => exact Bytes.Scalar.read_length h

theorem readText_within {s : List UInt8} {k : List UInt8 → Item} : (readText s k).Within s := by
  unfold readText
  split
  · trivial
  · next h => exact Bytes.readString_length h

theorem skip_within {n : Nat} {s : List UInt8} {item : Item} : (skip n s item).Within s := by
  unfold skip
  split
  · trivial
  · next h =>
    exact Nat.le.intro (Bytes.take_length h)

theorem unserialize_length {s s' : List UInt8} {v : CustomAttribute}
    (h : CustomAttribute.unserialize s = some (v, s')) : s'.length ≤ s.length := by
  unfold CustomAttribute.unserialize at h
  split at h
  · cases h
  · next t r hr =>
    have hr' : r.length ≤ s.length := Bytes.Scalar.read_length hr
    -- Whatever the kind of the value, one more read follows.
    split at h
    · obtain ⟨⟨x, u⟩, hx, h⟩ := Option.map_eq_some_iff.1 h
      cases h
      exact (Bytes.readString_length hx).trans hr'
    · split at h
      · obtain ⟨⟨x, u⟩, hx, h⟩ := Option.map_eq_some_iff.1 h
        cases h
        exact (Bytes.Scalar.read_length hx).trans hr'
      · split at h
        · obtain ⟨⟨x, u⟩, hx, h⟩ := Option.map_eq_some_iff.1 h
          cases h
          exact (Bytes.Scalar.read_length hx).trans hr'
        · split at h
          · obtain ⟨⟨x, u⟩, hx, h⟩ := Option.map_eq_some_iff.1 h
            cases h
            exact (Bytes.Scalar.read_length hx).trans hr'
          · cases h

theorem readCustom_within {add : Item → List UInt8 → CustomAttribute → Item} {n : Nat}
    {s : List UInt8} {item : Item} : (readCustom add n s item).Within s := by
  induction n generalizing s item with
  | zero => exact Nat.le_refl _
  | succ n ih =>
    rw [readCustom]
    split
    · trivial
    · next key s₁ hkey =>
      have h₁ := Bytes.readString_length hkey
      split
      · trivial
      · next v s₂ hv =>
        have h₂ := unserialize_length hv
        exact ih.trans (h₂.trans h₁)

theorem readCustomMap_within {add : Item → List UInt8 → CustomAttribute → Item}
    {s : List UInt8} {item : Item} : (readCustomMap add s item).Within s := by
  unfold readCustomMap
  split
  · trivial
  · next h => exact readCustom_within.trans (Bytes.Scalar.read_length h)

variable {server : Server}

theorem itemReadAttr_within {attr : AttrTypes} {s : List UInt8} {item : Item} :
    (item.itemReadAttr server attr s).Within s := by
  cases attr <;>
    first
      | exact readInteger_within
      | exact readText_within
      | exact skip_within
      | exact readCustomMap_within
      | trivial

theorem readAttr_within {attr : AttrTypes} {s : List UInt8} {item : Item} :
    (item.readAttr server attr s).Within s := by
  have hitem := @itemReadAttr_within server attr s item
  unfold readAttr
  split
  · unfold containerReadAttr
    split
    · split
      · trivial
      · next h => exact Bytes.Scalar.read_length h
    · exact hitem
  · unfold containerReadAttr
    split
    · split
      · trivial
      · next h => exact Bytes.Scalar.read_length h
    · exact hitem
  · unfold depotLockerReadAttr
    split
    · exact readInteger_within
    · exact hitem
  · unfold teleportReadAttr
    split
    · split
      · trivial
      · next hx =>
        have hx := Bytes.Scalar.read_length hx
        split
        · trivial
        · next hy =>
          have hy := Bytes.Scalar.read_length hy
          split
          · trivial
          · next hz => exact (Bytes.Scalar.read_length hz).trans (hy.trans hx)
    · exact hitem
  · unfold doorReadAttr
    split
    · exact readInteger_within
    · exact hitem
  · unfold bedReadAttr
    split
    · exact readInteger_within
    · split
      · exact readInteger_within
      · exact hitem
  all_goals exact hitem

theorem readTag_shrinks (server : Server) : Tagged.Shrinks (readTag server) := by
  intro t s item
  unfold readTag
  split
  · trivial
  · exact readAttr_within

end Item

/-! ## Fields -/

namespace Item

/-- The states of an item while its attributes are read: class and id stay. -/
def Is (class_ : ItemClass) (id : BitVec 16) (item : Item) : Prop :=
  item.class_ = class_ ∧ item.id = id

@[simp] theorem setAttribute_is {item : Item} {a : IntegerAttribute} {v : BitVec 64}
    {c : ItemClass} {i : BitVec 16} : (item.setAttribute a v).Is c i ↔ item.Is c i := .rfl

@[simp] theorem setString_is {item : Item} {a : StringAttribute} {v : List UInt8}
    {c : ItemClass} {i : BitVec 16} : (item.setString a v).Is c i ↔ item.Is c i := by
  unfold setString
  split <;> exact .rfl

@[simp] theorem removeString_is {item : Item} {a : StringAttribute}
    {c : ItemClass} {i : BitVec 16} : (item.removeString a).Is c i ↔ item.Is c i := .rfl

@[simp] theorem addCustomAttribute_is {item : Item} {key : List UInt8} {v : CustomAttribute}
    {c : ItemClass} {i : BitVec 16} : (item.addCustomAttribute key v).Is c i ↔ item.Is c i := .rfl

@[simp] theorem setDuration_is {item : Item} {v : BitVec 64}
    {c : ItemClass} {i : BitVec 16} : (item.setDuration v).Is c i ↔ item.Is c i := .rfl

@[simp] theorem setSubType_is {server : Server} {item : Item} {n : BitVec 64}
    {c : ItemClass} {i : BitVec 16} : (item.setSubType server n).Is c i ↔ item.Is c i := by
  unfold setSubType
  dsimp only
  split
  · exact .rfl
  · split
    · exact .rfl
    · split <;> exact .rfl

@[simp] theorem setPending_is {item : Item} {v : BitVec 64}
    {c : ItemClass} {i : BitVec 16} : (item.setPending v).Is c i ↔ item.Is c i := by
  unfold setPending
  split <;> exact .rfl

@[simp] theorem setSpecial_is {item : Item} {v : List UInt8}
    {c : ItemClass} {i : BitVec 16} : (item.setSpecial v).Is c i ↔ item.Is c i := by
  unfold setSpecial
  dsimp only
  split <;> simp

@[simp] theorem setSleeper_is {server : Server} {item : Item} {v : BitVec 64}
    {c : ItemClass} {i : BitVec 16} : (item.setSleeper server v).Is c i ↔ item.Is c i := by
  unfold setSleeper
  dsimp only
  split
  · exact setString_is
  · exact .rfl

/-- The tags that some derived class reads in its own way. -/
def ownTags : List AttrTypes :=
  [.containerItems, .depotId, .teleDest, .houseDoorId, .sleeperGuid, .sleepStart]

variable {server : Server}

/-- Every other tag is left to `Item::readAttr`. -/
theorem readTag_item {attr : AttrTypes} (h : attr ∉ ownTags) (s : List UInt8) (item : Item) :
    readTag server attr.toByte s item = item.itemReadAttr server attr s := by
  have hne : ∀ a ∈ ownTags, attr ≠ a := fun a ha he => h (he ▸ ha)
  have h₁ := hne .containerItems (by decide)
  have h₂ := hne .depotId (by decide)
  have h₃ := hne .teleDest (by decide)
  have h₄ := hne .houseDoorId (by decide)
  have h₅ := hne .sleeperGuid (by decide)
  have h₆ := hne .sleepStart (by decide)
  simp only [readTag, AttrTypes.ofByte_toByte, readAttr]
  cases item.class_ <;>
    simp only [containerReadAttr, depotLockerReadAttr, teleportReadAttr, doorReadAttr, bedReadAttr,
      if_neg h₁, if_neg h₂, if_neg h₃, if_neg h₄, if_neg h₅, if_neg h₆]

variable {c : ItemClass} {i : BitVec 16}

/-- A tag whose integer value the reader passes to `k`. -/
theorem reads_integer {p : Prop} [Decidable p] {attr : AttrTypes} {T : Scalar} {v : BitVec 64}
    {k : Item → BitVec 64 → Item} (hattr : attr ∉ ownTags)
    (hread : ∀ s item, itemReadAttr server attr s item = readInteger T s (k item))
    (hk : ∀ item v, (k item v).Is c i ↔ item.Is c i) :
    (TagField.when p attr.toByte (T.write v) fun item => k item (T.cast v)).Reads (readTag server)
      (Is c i) := by
  refine TagField.reads_when attr.toByte_ne_zero (fun item h => (hk item _).2 h)
    fun _ item s _ => ?_
  rw [readTag_item hattr, hread, readInteger, Scalar.read_write]

/-- A tag whose string value the reader passes to `k`. -/
theorem reads_text {p : Prop} [Decidable p] {attr : AttrTypes} {v : List UInt8}
    {k : Item → List UInt8 → Item} (hattr : attr ∉ ownTags) (hv : v.length ≤ 65535)
    (hread : ∀ s item, itemReadAttr server attr s item = readText s (k item))
    (hk : ∀ item v, (k item v).Is c i ↔ item.Is c i) :
    (TagField.when p attr.toByte (writeString v) fun item => k item v).Reads (readTag server)
      (Is c i) := by
  refine TagField.reads_when attr.toByte_ne_zero (fun item h => (hk item _).2 h)
    fun _ item s _ => ?_
  rw [readTag_item hattr, hread, readText, Bytes.readString_writeString hv]

/-! ## Custom attributes -/

@[simp] theorem cast_i64 (v : BitVec 64) : Scalar.i64.cast v = v := by
  simp [Scalar.cast, Scalar.ofNat, Scalar.i64]

@[simp] theorem cast_u64 (v : BitVec 64) : Scalar.u64.cast v = v := by
  simp [Scalar.cast, Scalar.ofNat, Scalar.u64]

/-- The strings among the custom attributes have a length that fits. -/
def CustomFits (e : List UInt8 × CustomAttribute) : Prop :=
  e.1.length ≤ 65535 ∧ ∀ v, e.2 = .string v → v.length ≤ 65535

theorem unserialize_serialize {v : CustomAttribute} (h : ∀ w, v = .string w → w.length ≤ 65535)
    (s : List UInt8) : CustomAttribute.unserialize (v.serialize ++ s) = some (v, s) := by
  have h₁ : Scalar.u8.cast 1 = 1 := by decide
  have h₂ : Scalar.u8.cast 2 = 2 := by decide
  have h₃ : Scalar.u8.cast 3 = 3 := by decide
  have h₄ : Scalar.u8.cast 4 = 4 := by decide
  cases v with
  | string w =>
    rw [CustomAttribute.serialize, List.append_assoc, CustomAttribute.unserialize]
    simp only [Scalar.read_write, h₁, Bytes.readString_writeString (h w rfl), Option.map_some]
    rfl
  | int64 w =>
    rw [CustomAttribute.serialize, List.append_assoc, CustomAttribute.unserialize]
    simp only [Scalar.read_write, h₂, cast_i64, Option.map_some]
    rfl
  | double w =>
    rw [CustomAttribute.serialize, List.append_assoc, CustomAttribute.unserialize]
    simp only [Scalar.read_write, h₃, cast_u64, Option.map_some]
    rfl
  | bool w =>
    have hw : decide (Scalar.u8.cast (if w then 1 else 0) ≠ 0) = w := by cases w <;> decide
    rw [CustomAttribute.serialize, List.append_assoc, CustomAttribute.unserialize]
    simp only [Scalar.read_write, h₄, Option.map_some, hw]
    rfl

/-- Add a list of custom attributes, one after the other. -/
def addAll (l : List (List UInt8 × CustomAttribute)) (item : Item) : Item :=
  l.foldl (fun item e => item.addCustomAttribute e.1 e.2) item

theorem addAll_is (l : List (List UInt8 × CustomAttribute)) (item : Item) :
    (addAll l item).Is c i ↔ item.Is c i := by
  induction l generalizing item with
  | nil => exact .rfl
  | cons e l ih => exact (ih _).trans addCustomAttribute_is

theorem readCustom_serialize {l : List (List UInt8 × CustomAttribute)}
    (hl : ∀ e ∈ l, CustomFits e) (s : List UInt8) (item : Item) :
    readCustom addCustomAttribute l.length
      ((l.flatMap fun e => writeString e.1 ++ e.2.serialize) ++ s) item =
        .more (addAll l item) s := by
  induction l generalizing item with
  | nil => rfl
  | cons e l ih =>
    have he := hl e List.mem_cons_self
    rw [List.flatMap_cons, List.append_assoc, List.append_assoc, List.length_cons, readCustom,
      Bytes.readString_writeString he.1]
    simp only [unserialize_serialize he.2]
    exact ih (fun d hd => hl d (List.mem_cons_of_mem _ hd)) _

theorem reads_custom {p : Prop} [Decidable p] {item : Item}
    (hlen : item.custom.entries.entries.length < 2 ^ 64)
    (hl : ∀ e ∈ item.custom.entries.entries, CustomFits e) :
    (TagField.when p AttrTypes.custom.toByte item.serializeCustom
      (addAll item.custom.entries.entries)).Reads (readTag server) (Is c i) := by
  refine TagField.reads_when (AttrTypes.toByte_ne_zero _) (fun st h => (addAll_is _ st).2 h)
    fun _ st s _ => ?_
  have hsize : (BitVec.ofNat 64 item.custom.entries.entries.length).toNat =
      item.custom.entries.entries.length := by
    rw [BitVec.toNat_ofNat, Nat.mod_eq_of_lt hlen]
  rw [readTag_item (by decide), itemReadAttr, serializeCustom, List.append_assoc, readCustomMap,
    Scalar.read_write, cast_u64]
  simp only [hsize]
  exact readCustom_serialize hl s st

/-! ## The fields of an item -/

/-- The field of `writeInteger`. -/
def integerField (item : Item) (attr : AttrTypes) (T : Scalar) (a : IntegerAttribute) :
    TagField Item :=
  TagField.when (item.hasAttribute a) attr.toByte (T.write (item.getAttribute T a)) fun st =>
    st.setAttribute a (T.cast (item.getAttribute T a))

/-- The field of `writeNonzero`. -/
def nonzeroField (item : Item) (attr : AttrTypes) (T : Scalar) (a : IntegerAttribute) :
    TagField Item :=
  TagField.when (item.getAttribute T a ≠ 0) attr.toByte (T.write (item.getAttribute T a)) fun st =>
    st.setAttribute a (T.cast (item.getAttribute T a))

/-- The field of `writeText`. -/
def textField (item : Item) (attr : AttrTypes) (a : StringAttribute) : TagField Item :=
  TagField.when (item.hasString a) attr.toByte (writeString (item.getString a)) fun st =>
    st.setString a (item.getString a)

/-- The field of `writeNonempty`. -/
def nonemptyField (item : Item) (attr : AttrTypes) (a : StringAttribute) : TagField Item :=
  TagField.when (item.getString a ≠ []) attr.toByte (writeString (item.getString a)) fun st =>
    st.setString a (item.getString a)

/-- The sub type of a stack or a fluid, and the charges, become the sub type again. -/
def countField (server : Server) (item : Item) : TagField Item :=
  let it := server.items item.id
  TagField.when (it.stackable || it.hasFluid) AttrTypes.count.toByte
    (Scalar.u8.write (item.getSubType server)) fun st =>
      st.setSubType server (Scalar.u8.cast (item.getSubType server))

def chargesField (server : Server) (item : Item) : TagField Item :=
  TagField.when (item.getAttribute .u16 .charges ≠ 0) AttrTypes.charges.toByte
    (Scalar.u16.write (item.getAttribute .u16 .charges)) fun st =>
      st.setSubType server (Scalar.u16.cast (item.getAttribute .u16 .charges))

def actionIdField (server : Server) (item : Item) : TagField Item :=
  TagField.when ((server.items item.id).movable ∧ item.getAttribute .u16 .actionId ≠ 0)
    AttrTypes.actionId.toByte (Scalar.u16.write (item.getAttribute .u16 .actionId)) fun st =>
      st.setAttribute .actionId (Scalar.u16.cast (item.getAttribute .u16 .actionId))

def durationField (server : Server) (item : Item) : TagField Item :=
  TagField.when (item.hasAttribute .duration) AttrTypes.duration.toByte
    (Scalar.i32.write (item.getDuration server)) fun st =>
      st.setDuration (Scalar.i32.cast (item.getDuration server))

def decayingField (item : Item) : TagField Item :=
  TagField.when (item.getDecaying = decayingTrue ∨ item.getDecaying = decayingPending)
    AttrTypes.decayingState.toByte (Scalar.u8.write item.getDecaying) fun st =>
      st.setPending (Scalar.u8.cast item.getDecaying)

def specialField (item : Item) : TagField Item :=
  TagField.when (item.hasString .special) AttrTypes.special.toByte
    (writeString (item.getString .special)) fun st => st.setSpecial (item.getString .special)

def tierField (server : Server) (item : Item) : TagField Item :=
  TagField.when (item.hasAttribute .tier) AttrTypes.tier.toByte
    (Scalar.u8.write (item.getTier server)) fun st =>
      st.setAttribute .tier (Scalar.u8.cast (item.getTier server))

def customField (item : Item) : TagField Item :=
  TagField.when (item.custom.entries.entries ≠ []) AttrTypes.custom.toByte item.serializeCustom
    (addAll item.custom.entries.entries)

/-- The fields that `Item::serializeAttr` writes, in its order. -/
def itemFields (server : Server) (item : Item) : List (TagField Item) :=
  [item.nonzeroField .store .i64 .store,
    item.countField server,
    item.chargesField server,
    item.actionIdField server,
    item.nonemptyField .text .text,
    item.nonzeroField .writtenDate .u64 .date,
    item.nonemptyField .writtenBy .writer,
    item.nonemptyField .desc .description,
    item.durationField server,
    item.decayingField,
    item.textField .name .name,
    item.textField .article .article,
    item.textField .pluralName .pluralName,
    item.integerField .weight .u32 .weight,
    item.integerField .attack .i32 .attack,
    item.integerField .defense .i32 .defense,
    item.integerField .extraDefense .i32 .extraDefense,
    item.integerField .imbuementSlot .i32 .imbuementSlot,
    item.integerField .openContainer .u8 .openContainer,
    item.integerField .armor .i32 .armor,
    item.integerField .hitChance .i8 .hitChance,
    item.integerField .shootRange .u8 .shootRange,
    item.specialField,
    item.integerField .quickLootContainer .u32 .quickLootContainer,
    item.tierField server,
    item.integerField .amount .u16 .amount,
    item.textField .storeInboxCategory .storeInboxCategory,
    item.integerField .owner .u32 .owner,
    item.customField]

theorem itemSerializeAttr_eq (server : Server) (item : Item) :
    item.itemSerializeAttr server = (item.itemFields server).flatMap TagField.bytes := rfl

/-- What the strings and the custom attributes must fit in. -/
structure Fits (item : Item) : Prop where
  string : ∀ a, (item.getString a).length ≤ 65535
  custom : ∀ e ∈ item.custom.entries.entries, CustomFits e
  custom_length : item.custom.entries.entries.length < 2 ^ 64

variable {item : Item}

theorem integerField_reads {attr : AttrTypes} {T : Scalar} {a : IntegerAttribute}
    (hattr : attr ∉ ownTags)
    (hread : ∀ s st, itemReadAttr server attr s st = readInteger T s (st.setAttribute a)) :
    (item.integerField attr T a).Reads (readTag server) (Is c i) :=
  reads_integer hattr hread fun _ _ => setAttribute_is

theorem nonzeroField_reads {attr : AttrTypes} {T : Scalar} {a : IntegerAttribute}
    (hattr : attr ∉ ownTags)
    (hread : ∀ s st, itemReadAttr server attr s st = readInteger T s (st.setAttribute a)) :
    (item.nonzeroField attr T a).Reads (readTag server) (Is c i) :=
  reads_integer hattr hread fun _ _ => setAttribute_is

theorem textField_reads {attr : AttrTypes} {a : StringAttribute} (h : item.Fits)
    (hattr : attr ∉ ownTags)
    (hread : ∀ s st, itemReadAttr server attr s st = readText s (st.setString a)) :
    (item.textField attr a).Reads (readTag server) (Is c i) :=
  reads_text hattr (h.string a) hread fun _ _ => setString_is

theorem nonemptyField_reads {attr : AttrTypes} {a : StringAttribute} (h : item.Fits)
    (hattr : attr ∉ ownTags)
    (hread : ∀ s st, itemReadAttr server attr s st = readText s (st.setString a)) :
    (item.nonemptyField attr a).Reads (readTag server) (Is c i) :=
  reads_text hattr (h.string a) hread fun _ _ => setString_is

/-- The reader takes in each field by its effect. -/
theorem itemFields_reads (h : item.Fits) :
    ∀ f ∈ item.itemFields server, f.Reads (readTag server) (Is c i) := by
  simp only [itemFields, List.forall_mem_cons]
  refine ⟨nonzeroField_reads (by decide) fun _ _ => rfl,
    reads_integer (by decide) (fun _ _ => rfl) fun _ _ => setSubType_is,
    reads_integer (by decide) (fun _ _ => rfl) fun _ _ => setSubType_is,
    reads_integer (by decide) (fun _ _ => rfl) fun _ _ => setAttribute_is,
    nonemptyField_reads h (by decide) fun _ _ => rfl,
    nonzeroField_reads (by decide) fun _ _ => rfl,
    nonemptyField_reads h (by decide) fun _ _ => rfl,
    nonemptyField_reads h (by decide) fun _ _ => rfl,
    reads_integer (by decide) (fun _ _ => rfl) fun _ _ => setDuration_is,
    reads_integer (k := setPending) (by decide) (fun _ _ => rfl) fun _ _ => setPending_is,
    textField_reads h (by decide) fun _ _ => rfl,
    textField_reads h (by decide) fun _ _ => rfl,
    textField_reads h (by decide) fun _ _ => rfl,
    integerField_reads (by decide) fun _ _ => rfl,
    integerField_reads (by decide) fun _ _ => rfl,
    integerField_reads (by decide) fun _ _ => rfl,
    integerField_reads (by decide) fun _ _ => rfl,
    integerField_reads (by decide) fun _ _ => rfl,
    integerField_reads (by decide) fun _ _ => rfl,
    integerField_reads (by decide) fun _ _ => rfl,
    integerField_reads (by decide) fun _ _ => rfl,
    integerField_reads (by decide) fun _ _ => rfl,
    reads_text (by decide) (h.string _) (fun _ _ => rfl) fun _ _ => setSpecial_is,
    integerField_reads (by decide) fun _ _ => rfl,
    reads_integer (by decide) (fun _ _ => rfl) fun _ _ => setAttribute_is,
    integerField_reads (by decide) fun _ _ => rfl,
    textField_reads h (by decide) fun _ _ => rfl,
    integerField_reads (by decide) fun _ _ => rfl,
    reads_custom h.custom_length h.custom,
    fun _ h => absurd h List.not_mem_nil⟩

end Item

end Canary.Items
