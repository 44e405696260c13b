import Canary.Items.Restore

/-!
# Items that survive saving and loading

What a fresh item of a type is after it read the attributes that another item of the type
wrote. An item that is `Lossless` is `Restored`: its count and all attributes that its class
writes are what they were, and no others are there than the constructor sets
(`restored_reloaded`).

What is lost otherwise lies with the items code: some types are replaced by another when
items are made, a hireling lamp has its special attribute turned into a custom one, charges
are read back as the sub type whatever that is, and so on; `Lossless` lists it.
-/

namespace Canary.Items

open Bytes (Scalar readString writeString)
open Tagged (TagField)

namespace Item

variable (server : Server)

/-! ## Fresh items -/

section new

variable {server} {c : ItemClass} {i n : BitVec 16} {st : Item}

/-- The default duration is all that `setDefaultDuration` sets. -/
theorem setDefaultDuration_eq : st.setDefaultDuration server = st ∨
    ∃ v, st.setDefaultDuration server = st.setAttribute .duration v := by
  unfold setDefaultDuration
  dsimp only
  split
  · exact .inr ⟨_, rfl⟩
  · exact .inl rfl

/-- The fluid, the count or the charges are all that `withDefaultSubtype` sets. -/
theorem withDefaultSubtype_eq :
    let item : Item := { class_ := c, id := i }
    withDefaultSubtype server c i n = item ∨
      (∃ v, withDefaultSubtype server c i n = item.setAttribute .fluidType v) ∨
      (∃ v, withDefaultSubtype server c i n = item.setAttribute .charges v) ∨
      (¬(server.items i).hasFluid ∧ (server.items i).stackable ∧
        ∃ v, withDefaultSubtype server c i n = { item with count := v }) := by
  intro item
  unfold withDefaultSubtype
  dsimp only
  split
  · exact .inr (.inl ⟨_, rfl⟩)
  · next hf =>
    split
    · next hs =>
      refine .inr (.inr (.inr ⟨hf, hs, ?_⟩))
      repeat' split
      all_goals exact ⟨_, rfl⟩
    · split
      · exact .inr (.inr (.inl ⟨_, rfl⟩))
      · exact .inl rfl

/-- What holds of an item without attributes and is not changed by the count, the fluid, the
    charges, the duration and the note on a bed, holds of a fresh item. -/
theorem new_induction {P : Item → Prop} (h₀ : P { class_ := c, id := i })
    (hcount : ∀ st v, ¬(server.items i).hasFluid → (server.items i).stackable → P st →
      P { st with count := v })
    (hset : ∀ st a v, a ∈ [.fluidType, .charges, .duration] → P st → P (st.setAttribute a v))
    (hbed : ∀ st v, c = .bed → P st → P (st.setString .description v)) : P (new server c i n) := by
  have hw : P (withDefaultSubtype server c i n) := by
    rcases @withDefaultSubtype_eq server c i n with
      h | ⟨v, h⟩ | ⟨v, h⟩ | ⟨hf, hs, v, h⟩
    · rwa [h]
    · rw [h]
      exact hset _ _ v (by decide) h₀
    · rw [h]
      exact hset _ _ v (by decide) h₀
    · rw [h]
      exact hcount _ v hf hs h₀
  have hd : P ((withDefaultSubtype server c i n).setDefaultDuration server) := by
    rcases @setDefaultDuration_eq server (withDefaultSubtype server c i n) with
      h | ⟨v, h⟩
    · rwa [h]
    · rw [h]
      exact hset _ _ v (by decide) hw
  unfold new
  dsimp only
  split
  · next hc => exact hbed _ _ hc hd
  · exact hd

theorem new_is : (new server c i n).Is c i :=
  new_induction (P := Is c i) ⟨rfl, rfl⟩ (fun _ _ _ _ h => h) (fun _ _ _ _ h => h)
    fun _ _ _ h => setString_is.2 h

/-- The constructors set the fluid, the charges and the duration, and no more. -/
theorem new_ints {a : IntegerAttribute} (ha : a ∉ [.fluidType, .charges, .duration]) :
    (new server c i n).ints a = none := by
  refine new_induction (P := fun st => st.ints a = none) rfl (fun _ _ _ _ h => h)
    (fun st b v hb h => ?_) fun st v _ h => ?_
  · have hab : a ≠ b := fun hab => ha (hab ▸ hb)
    rw [setAttribute_ints, if_neg hab, h]
  · rw [setString_ints, h]

/-- Only a bed starts with a string attribute. -/
theorem new_strings (hc : c ≠ .bed) (a : StringAttribute) :
    (new server c i n).strings a = none :=
  new_induction (P := fun st => st.strings a = none) rfl (fun _ _ _ _ h => h)
    (fun _ _ _ _ h => h) fun _ _ hb _ => absurd hb hc

theorem new_custom : (new server c i n).custom = .empty :=
  new_induction (P := fun st => st.custom = .empty) rfl (fun _ _ _ _ h => h)
    (fun _ _ _ _ h => h) fun _ _ _ h => setString_custom.trans h

theorem new_bed : (new server c i n).sleeperGUID = 0 ∧ (new server c i n).sleepStart = 0 := by
  refine new_induction (P := fun st => st.sleeperGUID = 0 ∧ st.sleepStart = 0) ⟨rfl, rfl⟩
    (fun _ _ _ _ h => h) (fun _ _ _ _ h => h) fun st v _ h => ?_
  unfold setString
  split <;> exact h

theorem new_description : (new server .bed i n).hasString .description := by
  have hne : ascii "Nobody is sleeping there." ≠ [] := by decide
  rw [new, if_pos rfl, hasString, setString_strings, if_pos ⟨rfl, hne⟩]
  rfl

theorem new_count (h : ¬(server.items i).hasFluid → ¬(server.items i).stackable) :
    (new server c i n).count = 1 :=
  new_induction (P := fun st => st.count = 1) rfl (fun _ _ hf hs _ => absurd hs (h hf))
    (fun _ _ _ _ h => h) fun _ _ _ h => setString_count.trans h

theorem new_fluidType (h : (server.items i).hasFluid) :
    (new server c i n).hasAttribute .fluidType := by
  have hw : (withDefaultSubtype server c i n).hasAttribute .fluidType := by
    rw [withDefaultSubtype, if_pos h, hasAttribute, setAttribute_ints]
    rfl
  have hd : ((withDefaultSubtype server c i n).setDefaultDuration server).hasAttribute
      .fluidType := by
    rcases @setDefaultDuration_eq server (withDefaultSubtype server c i n) with
      h | ⟨v, h⟩
    · rwa [h]
    · rw [h, hasAttribute, setAttribute_ints]
      exact hw
  unfold new
  dsimp only
  split
  · rwa [hasAttribute, setString_ints]
  · exact hd

end new

/-! ## What is lost and what is restored -/

/-- The class writes the attributes of `Item`. -/
def writesAttributes (item : Item) : Bool := item.class_ ≠ .door && item.class_ ≠ .bed

/-- The type in which `serializeAttr` writes an integer attribute, if it does. The duration and
    the decay state, which are written in their own way, are left out. -/
def written (item : Item) (a : IntegerAttribute) : Option Scalar :=
  let it := server.items item.id
  if ¬item.writesAttributes then none
  else if a = .charges then if item.getAttribute .u16 .charges ≠ 0 then some .u16 else none
  else if a = .fluidType then if it.hasFluid then some .u16 else none
  else if a = .tier then if item.hasAttribute .tier then some .u8 else none
  else (plainType a).filter (item.writesPlain server a)

/-- Nothing that the item saves is read back as something else. -/
structure Lossless (item : Item) : Prop where
  /-- Items of its type are made as items of its type. -/
  createdId : createdId server item.id = item.id
  /-- Only a stack has a count other than 1. -/
  count : ¬((server.items item.id).stackable ∧ ¬(server.items item.id).hasFluid ∧
    item.writesAttributes) → item.count = 1
  /-- Doors and beds do not stack. -/
  single : ¬item.writesAttributes → ¬(server.items item.id).stackable
  /-- Only a type that has charges, and neither stacks nor holds a fluid, has charges. -/
  charges : item.getAttribute .u16 .charges ≠ 0 → takesCharges (server.items item.id)
  /-- The fluid fits in a byte. -/
  fluidType : (server.items item.id).hasFluid → (item.getAttribute .u16 .fluidType).toNat < 256
  /-- The duration is not negative. -/
  duration : ¬(item.getAttribute .i32 .duration).slt 0
  /-- The tier is one that items can have. -/
  tier : ((item.getAttribute .u8 .tier).toNat : Int) ≤ server.forgeMaxItemTier
  /-- A hireling lamp has no special attribute. -/
  special : item.id = hirelingLamp → item.hasString .special = false
  /-- The sleeper of a bed exists. -/
  sleeperGUID : item.class_ = .bed → item.sleeperGUID ≠ 0 → server.nameByGuid item.sleeperGUID ≠ []
  /-- The time a sleeper went to bed fits in 32 bits. -/
  sleepStart : item.class_ = .bed → item.sleepStart.toNat < 2 ^ 32

/-- The item `item'` has the type, the count and the attributes saved of `item`, and no
    others but those of a fresh item of the type. -/
structure Restored (item item' : Item) : Prop where
  class_ : item'.class_ = item.class_
  id : item'.id = item.id
  count : item'.count = item.count
  integer : ∀ a T, item.written server a = some T →
    item'.hasAttribute a ∧ item'.getAttribute T a = item.getAttribute T a
  duration : item.writesAttributes → item.hasAttribute .duration →
    item'.hasAttribute .duration ∧ item'.getDuration server = item.getDuration server
  decaying : item.writesAttributes →
    item.getDecaying = decayingTrue ∨ item.getDecaying = decayingPending →
      item'.getDecaying = decayingPending
  string : item.writesAttributes → ∀ a, a ≠ .lootMessageSuffix →
    item'.getString a = item.getString a
  custom : item'.custom = if item.writesAttributes then item.custom else .empty
  destPos : item.class_ = .teleport → item'.destPos = item.destPos
  sleeper : item.class_ = .bed →
    item'.sleeperGUID = item.sleeperGUID ∧ item'.sleepStart = item.sleepStart
  noNewInteger : ∀ a, item'.hasAttribute a →
    item.hasAttribute a ∨ ∃ fresh ∈ createItem server item.id, fresh.hasAttribute a
  noNewString : ∀ a, item'.hasString a →
    item.hasString a ∨ ∃ fresh ∈ createItem server item.id, fresh.hasString a

/-! ## Reading the attributes of an item -/

/-- The field of a teleport's destination. -/
def teleportField (item : Item) : TagField Item :=
  TagField.when True AttrTypes.teleDest.toByte
    (Scalar.u16.write (item.destPos.x.setWidth 64) ++
      Scalar.u16.write (item.destPos.y.setWidth 64) ++
      Scalar.u8.write (item.destPos.z.setWidth 64)) fun st => { st with destPos := item.destPos }

/-- The fields of a bed. -/
def bedFields (item : Item) : List (TagField Item) :=
  [TagField.when (item.sleeperGUID ≠ 0) AttrTypes.sleeperGuid.toByte
      (Scalar.u32.write (item.sleeperGUID.setWidth 64)) fun st =>
        st.setSleeper server (Scalar.u32.cast (item.sleeperGUID.setWidth 64)),
    TagField.when (item.sleepStart ≠ 0) AttrTypes.sleepStart.toByte
      (Scalar.u32.write item.sleepStart) fun st =>
        { st with sleepStart := Scalar.u32.cast item.sleepStart }]

/-- The fields that an item of its class writes. -/
def fields (item : Item) : List (TagField Item) :=
  match item.class_ with
  | .teleport => item.itemFields server ++ [item.teleportField]
  | .door => []
  | .bed => item.bedFields server
  | _ => item.itemFields server

variable {server} {item : Item} {i : BitVec 16}

theorem serializeAttr_eq :
    item.serializeAttr server = (item.fields server).flatMap TagField.bytes := by
  have hitem := itemSerializeAttr_eq server item
  unfold serializeAttr fields
  cases item.class_ with
  | teleport =>
    simp only [teleportSerializeAttr, hitem, List.flatMap_append, List.flatMap_singleton]
    simp only [teleportField, TagField.when, if_true]
  | door => rfl
  | bed =>
    simp only [bedSerializeAttr, bedFields, List.flatMap_cons, List.flatMap_nil, List.append_nil]
    rfl
  | _ => exact hitem

theorem teleportField_reads : item.teleportField.Reads (readTag server) (Is .teleport i) := by
  refine TagField.reads_when (AttrTypes.toByte_ne_zero _) (fun _ h => h) fun _ st s hst => ?_
  have hx : (Scalar.u16.cast (item.destPos.x.setWidth 64)).setWidth 16 = item.destPos.x :=
    Scalar.setWidth_cast (T := .u16) _
  have hy : (Scalar.u16.cast (item.destPos.y.setWidth 64)).setWidth 16 = item.destPos.y :=
    Scalar.setWidth_cast (T := .u16) _
  have hz : (Scalar.u8.cast (item.destPos.z.setWidth 64)).setWidth 8 = item.destPos.z :=
    Scalar.setWidth_cast (T := .u8) _
  simp only [readTag, AttrTypes.ofByte_toByte, readAttr, hst.1, teleportReadAttr, if_true,
    List.append_assoc, Scalar.read_write, hx, hy, hz]

theorem bedFields_reads : ∀ f ∈ item.bedFields server, f.Reads (readTag server) (Is .bed i) := by
  simp only [bedFields, List.forall_mem_cons]
  refine ⟨?_, ?_, fun _ h => absurd h List.not_mem_nil⟩
  · refine TagField.reads_when (AttrTypes.toByte_ne_zero _) (fun _ h => setSleeper_is.2 h)
      fun _ st s hst => ?_
    simp only [readTag, AttrTypes.ofByte_toByte, readAttr, hst.1, bedReadAttr, if_true, readInteger,
      Scalar.read_write]
  · refine TagField.reads_when (AttrTypes.toByte_ne_zero _) (fun _ h => h) fun _ st s hst => ?_
    simp only [readTag, AttrTypes.ofByte_toByte, readAttr, hst.1, bedReadAttr, if_true, readInteger,
      Scalar.read_write, reduceCtorEq, if_false]

theorem fields_reads (h : item.Fits) :
    ∀ f ∈ item.fields server, f.Reads (readTag server) (Is item.class_ i) := by
  unfold fields
  split
  · next hc =>
    rw [hc]
    intro f hf
    rcases List.mem_append.1 hf with hf | hf
    · exact itemFields_reads h f hf
    · rw [List.mem_singleton.1 hf]
      exact teleportField_reads
  · exact fun _ h => absurd h List.not_mem_nil
  · next hc =>
    rw [hc]
    exact bedFields_reads
  · exact itemFields_reads h

/-- The item `st` after reading what `item` writes. -/
def reloaded (server : Server) (item st : Item) : Item :=
  (item.fields server).foldl (fun st f => f.effect st) st

theorem readAll_serializeAttr (h : item.Fits) {st : Item} (hst : st.Is item.class_ i)
    (s : List UInt8) :
    Tagged.readAll (readTag server) (item.serializeAttr server ++ s) st =
      Tagged.readAll (readTag server) s (reloaded server item st) := by
  rw [serializeAttr_eq]
  exact Tagged.readAll_fields (readTag_shrinks server) (fields_reads h) hst s

theorem reloaded_is (server : Server) (h : item.Fits) {st : Item} (hst : st.Is item.class_ i) :
    (reloaded server item st).Is item.class_ i :=
  Tagged.foldl_effect (fields_reads h) hst

/-- Of the classes that write the attributes of `Item`, only a teleport writes more. -/
theorem reloaded_of_writes (server : Server) (hw : item.writesAttributes) (st : Item) :
    (reloaded server item st).ints = (restoreItem server item st).ints ∧
      (reloaded server item st).strings = (restoreItem server item st).strings ∧
      (reloaded server item st).custom = (restoreItem server item st).custom ∧
      (reloaded server item st).count = (restoreItem server item st).count := by
  unfold writesAttributes at hw
  unfold reloaded fields
  cases hc : item.class_ with
  | teleport =>
    simp only [List.foldl_append]
    exact ⟨rfl, rfl, rfl, rfl⟩
  | door => simp [hc] at hw
  | bed => simp [hc] at hw
  | _ => exact ⟨rfl, rfl, rfl, rfl⟩

theorem reloaded_destPos (hc : item.class_ = .teleport) (st : Item) :
    (reloaded server item st).destPos = item.destPos := by
  rw [reloaded, fields, hc]
  simp only [List.foldl_append]
  rfl

/-- A bed reads its sleeper. -/
theorem reloaded_bed (hc : item.class_ = .bed) (st : Item) : reloaded server item st =
    let st := if item.sleeperGUID ≠ 0 then st.setSleeper server (item.sleeperGUID.setWidth 64)
      else st
    if item.sleepStart ≠ 0 then { st with sleepStart := Scalar.u32.cast item.sleepStart }
    else st := by
  have hguid : Scalar.u32.cast (item.sleeperGUID.setWidth 64) = item.sleeperGUID.setWidth 64 := by
    refine Scalar.cast_of_lt rfl ?_
    rw [BitVec.toNat_setWidth_of_le (by decide)]
    exact item.sleeperGUID.isLt
  rw [reloaded, fields, hc]
  simp only [bedFields, List.foldl_cons, List.foldl_nil, effect_when, hguid]

/-- The name of a sleeper is noted in the description. -/
theorem setSleeper_only (st : Item) (guid : BitVec 64) :
    (st.setSleeper server guid).ints = st.ints ∧ (st.setSleeper server guid).custom = st.custom ∧
      (st.setSleeper server guid).count = st.count ∧
      ∀ a, (st.setSleeper server guid).hasString a → st.hasString a ∨ a = .description := by
  unfold setSleeper
  dsimp only
  split
  · refine ⟨setString_ints, setString_custom, setString_count, fun a ha => ?_⟩
    by_cases h : a = .description
    · exact .inr h
    · change ((st.setString .description _).strings a).isSome at ha
      rw [setString_strings, if_neg fun h' => h h'.1] at ha
      exact .inl ha
  · exact ⟨rfl, rfl, rfl, fun a ha => .inl ha⟩

/-- A known sleeper is set. -/
theorem setSleeper_known {guid : BitVec 32} (h : guid ≠ 0) (hn : server.nameByGuid guid ≠ [])
    (st : Item) : (st.setSleeper server (guid.setWidth 64)).sleeperGUID = guid ∧
      (st.setSleeper server (guid.setWidth 64)).sleepStart = st.sleepStart := by
  have hw : (guid.setWidth 64).setWidth 32 = guid := by
    rw [BitVec.setWidth_setWidth_of_le _ (by decide), BitVec.setWidth_eq]
  have h₀ : guid.setWidth 64 ≠ 0 := by
    intro h₀
    exact h (by rw [← hw, h₀]; rfl)
  rw [setSleeper]
  dsimp only
  rw [hw, if_pos ⟨h₀, hn⟩]
  refine ⟨rfl, ?_⟩
  unfold setString
  split <;> rfl

/-- The classes that do not write the attributes of `Item` leave a fresh item its own, but for
    the description of a bed. -/
theorem reloaded_of_not_writes (server : Server) (hw : ¬item.writesAttributes) (st : Item) :
    (reloaded server item st).ints = st.ints ∧ (reloaded server item st).custom = st.custom ∧
      (reloaded server item st).count = st.count ∧
      ∀ a, (reloaded server item st).hasString a →
        st.hasString a ∨ item.class_ = .bed ∧ a = .description := by
  have hc : item.class_ = .door ∨ item.class_ = .bed := by
    simpa [writesAttributes, imp_iff_not_or, or_comm] using hw
  rcases hc with hc | hc
  · rw [reloaded, fields, hc]
    exact ⟨rfl, rfl, rfl, fun a h => .inl h⟩
  · rw [reloaded_bed hc]
    obtain ⟨h₁, h₂, h₃, h₄⟩ := @setSleeper_only server st (item.sleeperGUID.setWidth 64)
    have h₄' : ∀ a, (st.setSleeper server (item.sleeperGUID.setWidth 64)).hasString a →
        st.hasString a ∨ item.class_ = .bed ∧ a = .description := fun a ha =>
      (h₄ a ha).imp_right fun h => ⟨hc, h⟩
    dsimp only
    split
    · split
      · exact ⟨h₁, h₂, h₃, h₄'⟩
      · exact ⟨rfl, rfl, rfl, fun a h => .inl h⟩
    · split
      · exact ⟨h₁, h₂, h₃, h₄'⟩
      · exact ⟨rfl, rfl, rfl, fun a h => .inl h⟩

/-! ## A lossless item is restored -/

theorem createItem_eq {id : BitVec 16} {st : Item} (h : createItem server id = some st) :
    ∃ n, st = new server (classOf (server.items id)) (createdId server id) n := by
  unfold createItem at h
  dsimp only at h
  split at h
  · cases h
    exact ⟨_, rfl⟩
  · cases h

theorem createItem_isSome {id : BitVec 16} (h : (server.items id).id ≠ 0) :
    ∃ st, createItem server id = some st := ⟨_, if_pos h⟩

/-- An attribute whose value is not 0 is there. -/
theorem hasAttribute_of_ne_zero {T : Scalar} {a : IntegerAttribute}
    (h : item.getAttribute T a ≠ 0) : item.hasAttribute a := by
  cases ha : item.ints a with
  | none => exact absurd (by rw [getAttribute, ha]; exact Scalar.cast_zero) h
  | some v => rw [hasAttribute, ha]; rfl

/-- An attribute set to the value of another item, as a `T`, has that value. -/
theorem getAttribute_of_ints {item' : Item} {T : Scalar} {a : IntegerAttribute}
    (h : item'.ints a = some (T.cast (item.getAttribute T a))) :
    item'.hasAttribute a ∧ item'.getAttribute T a = item.getAttribute T a := by
  refine ⟨by rw [hasAttribute, h]; rfl, ?_⟩
  rw [getAttribute, h, Option.getD_some, getAttribute, Scalar.cast_cast, Scalar.cast_cast]

theorem getDuration_cast : Scalar.i32.cast (item.getDuration server) = item.getDuration server := by
  unfold getDuration
  dsimp only
  split
  · split
    · exact Scalar.cast_zero
    · exact Scalar.cast_cast _
  · exact Scalar.cast_cast _

/-- The duration left of an item that decays is not negative. -/
theorem getDuration_not_slt (h : ¬(item.getAttribute .i32 .duration).slt 0) :
    ¬(item.getDuration server).slt 0 := by
  unfold getDuration
  dsimp only
  split
  · split
    · decide
    · assumption
  · exact h

/-- An attribute that is written is there. -/
theorem writesPlain_has {a : IntegerAttribute} {T : Scalar} (hw : item.writesPlain server a T) :
    item.hasAttribute a := by
  unfold writesPlain at hw
  split at hw
  · exact hasAttribute_of_ne_zero (of_decide_eq_true hw)
  · exact hasAttribute_of_ne_zero (of_decide_eq_true hw)
  · exact hasAttribute_of_ne_zero (of_decide_eq_true (Bool.and_eq_true_iff.1 hw).2)
  · exact hw

section restored

variable {st : Item} (h : item.Lossless server) (hi : st.id = item.id)

include h hi

theorem integer_restored {a : IntegerAttribute} {T : Scalar} (ha : item.written server a = some T) :
    (reloaded server item st).hasAttribute a ∧
      (reloaded server item st).getAttribute T a = item.getAttribute T a := by
  unfold written at ha
  dsimp only at ha
  split at ha
  · cases ha
  · next hw =>
    have hR := (reloaded_of_writes server (not_not.1 hw) st).1
    split at ha
    · next hac =>
      subst hac
      split at ha
      · next h₀ =>
        cases ha
        refine getAttribute_of_ints ?_
        rw [hR, restoreItem_charges hi h.charges, if_pos h₀]
      · cases ha
    · split at ha
      · next haf =>
        subst haf
        split at ha
        · next hf =>
          cases ha
          -- The fluid is written as one byte, which is enough.
          have hcast : Scalar.u8.cast (item.getAttribute .u16 .fluidType) =
              Scalar.u16.cast (item.getAttribute .u16 .fluidType) := by
            rw [Scalar.cast_of_lt rfl (h.fluidType hf), getAttribute, Scalar.cast_cast]
          refine getAttribute_of_ints ?_
          rw [hR, restoreItem_fluidType hi h.charges, if_pos hf, hcast]
        · cases ha
      · split at ha
        · next hat =>
          subst hat
          split at ha
          · next ht =>
            cases ha
            have htier : item.getTier server = item.getAttribute .u8 .tier := by
              rw [getTier, if_pos ht]
              exact if_neg (Int.not_lt.2 h.tier)
            refine getAttribute_of_ints ?_
            rw [hR, restoreItem_tier, if_pos ht, htier]
          · cases ha
        · obtain ⟨hp, hwr⟩ := Option.filter_eq_some_iff.1 ha
          refine getAttribute_of_ints ?_
          rw [hR, restoreItem_plain hp, if_pos hwr]

theorem count_restored (hc : ¬(server.items item.id).hasFluid →
    ¬(server.items item.id).stackable → st.count = 1)
    (hf : (server.items item.id).hasFluid → st.count = 1) :
    (reloaded server item st).count = item.count := by
  by_cases hw : item.writesAttributes
  · rw [(reloaded_of_writes server hw st).2.2.2, restoreItem_count hi h.charges]
    split
    · rfl
    · next hs =>
      have h₁ : item.count = 1 := h.count fun hs' => hs ⟨hs'.2.1, hs'.1⟩
      rw [h₁]
      by_cases hf' : (server.items item.id).hasFluid
      · exact hf hf'
      · exact hc hf' fun hs' => hs ⟨hf', hs'⟩
  · have h₁ : item.count = 1 := h.count fun hs => hw hs.2.2
    rw [(reloaded_of_not_writes server hw st).2.2.1, h₁]
    by_cases hf' : (server.items item.id).hasFluid
    · exact hf hf'
    · exact hc hf' (h.single hw)

omit h hi in
theorem decaying_restored (hw : item.writesAttributes) (hst : st.ints .decayState = none) :
    (reloaded server item st).getDecaying =
      if item.getDecaying = decayingTrue ∨ item.getDecaying = decayingPending then decayingPending
      else 0 := by
  rw [getDecaying, (reloaded_of_writes server hw st).1, restoreItem_decayState, hst]
  split <;> decide

omit hi in
theorem duration_restored (hw : item.writesAttributes) (hst : st.ints .decayState = none)
    (hd : item.hasAttribute .duration) :
    (reloaded server item st).hasAttribute .duration ∧
      (reloaded server item st).getDuration server = item.getDuration server := by
  have hints : (reloaded server item st).ints .duration = some (item.getDuration server) := by
    have hpos : ¬(item.getDuration server).slt 0 := getDuration_not_slt h.duration
    rw [(reloaded_of_writes server hw st).1, restoreItem_duration, if_pos hd]
    simp only [setDuration, setAttribute_ints, if_true, getDuration_cast, if_neg hpos]
  refine ⟨by rw [hasAttribute, hints]; rfl, ?_⟩
  -- What was saved does not decay yet when it is loaded.
  have hnot : ¬((reloaded server item st).getDecaying = decayingTrue ∨
      (reloaded server item st).getDecaying = decayingStopping) := by
    rw [decaying_restored hw hst]
    split <;> decide
  rw [getDuration, if_neg hnot, getAttribute, hints, Option.getD_some, getDuration_cast]

theorem string_restored (hw : item.writesAttributes) (hst : ∀ a, st.strings a = none)
    {a : StringAttribute} (ha : a ≠ .lootMessageSuffix) :
    (reloaded server item st).getString a = item.getString a := by
  have hlamp : st.id ≠ hirelingLamp ∨ item.hasString .special = false := by
    rw [hi]
    exact (Decidable.em (item.id = hirelingLamp)).symm.imp_right h.special
  rw [getString, (reloaded_of_writes server hw st).2.1, restoreItem_string hlamp ha, hst]
  split
  · rfl
  · next hnil => exact (not_not.1 hnil).symm

theorem custom_restored (hst : st.custom = .empty) : (reloaded server item st).custom =
    if item.writesAttributes then item.custom else .empty := by
  have hlamp : st.id ≠ hirelingLamp ∨ item.hasString .special = false := by
    rw [hi]
    exact (Decidable.em (item.id = hirelingLamp)).symm.imp_right h.special
  split
  · next hw =>
    rw [(reloaded_of_writes server hw st).2.2.1, restoreItem_custom hlamp, hst]
    exact item.custom.foldl_addCustomAttribute
  · next hw => rw [(reloaded_of_not_writes server hw st).2.1, hst]

omit hi in
theorem sleeper_restored (hc : item.class_ = .bed) (hst : st.sleeperGUID = 0 ∧ st.sleepStart = 0) :
    (reloaded server item st).sleeperGUID = item.sleeperGUID ∧
      (reloaded server item st).sleepStart = item.sleepStart := by
  have hread : (if item.sleeperGUID ≠ 0 then st.setSleeper server (item.sleeperGUID.setWidth 64)
      else st).sleeperGUID = item.sleeperGUID ∧
      (if item.sleeperGUID ≠ 0 then st.setSleeper server (item.sleeperGUID.setWidth 64)
        else st).sleepStart = 0 := by
    split
    · next hg =>
      have hs := setSleeper_known hg (h.sleeperGUID hc hg) st
      exact ⟨hs.1, hs.2.trans hst.2⟩
    · next hg => exact ⟨hst.1.trans (not_not.1 hg).symm, hst.2⟩
  have hcast : Scalar.u32.cast item.sleepStart = item.sleepStart :=
    Scalar.cast_of_lt rfl (h.sleepStart hc)
  rw [reloaded_bed hc]
  dsimp only
  split
  · exact ⟨hread.1, hcast⟩
  · next h₀ => exact ⟨hread.1, hread.2.trans (not_not.1 h₀).symm⟩

/-- Every integer attribute of the item that was loaded is one of the item saved, or one that
    the constructor set. -/
theorem noNewInteger_restored
    (hfluid : (server.items item.id).hasFluid → st.hasAttribute .fluidType)
    {a : IntegerAttribute} (ha : (reloaded server item st).hasAttribute a) :
    item.hasAttribute a ∨ st.hasAttribute a := by
  by_cases hw : item.writesAttributes
  · rw [hasAttribute, (reloaded_of_writes server hw st).1] at ha
    have key {p : Prop} [Decidable p] {v : Option (BitVec 64)} (hp : p → item.hasAttribute a)
        (hv : (restoreItem server item st).ints a = if p then v else st.ints a) :
        item.hasAttribute a ∨ st.hasAttribute a := by
      rw [hv] at ha
      split at ha
      · next h => exact .inl (hp h)
      · exact .inr ha
    cases hp : plainType a with
    | some T => exact key writesPlain_has (restoreItem_plain hp)
    | none =>
      cases a <;> simp only [plainType, reduceCtorEq] at hp
      case duration => exact key (fun hd => hd) restoreItem_duration
      case decayState =>
        refine key (fun hd => hasAttribute_of_ne_zero (T := .u8) ?_) restoreItem_decayState
        rcases hd with hd | hd <;>
        · change item.getDecaying ≠ 0
          rw [hd]
          decide
      case charges => exact key hasAttribute_of_ne_zero (restoreItem_charges hi h.charges)
      case fluidType =>
        by_cases hf : (server.items item.id).hasFluid
        · exact .inr (hfluid hf)
        · exact key (fun hf' => absurd hf' hf) (restoreItem_fluidType hi h.charges)
      case tier => exact key (fun ht => ht) restoreItem_tier
      -- The rest is never written.
      all_goals
        rw [restoreItem_other (by simp)] at ha
        exact .inr ha
  · rw [hasAttribute, (reloaded_of_not_writes server hw st).1] at ha
    exact .inr ha

theorem noNewString_restored (hbed : item.class_ = .bed → st.hasString .description)
    {a : StringAttribute} (ha : (reloaded server item st).hasString a) :
    item.hasString a ∨ st.hasString a := by
  by_cases hw : item.writesAttributes
  · have hlamp : st.id ≠ hirelingLamp ∨ item.hasString .special = false := by
      rw [hi]
      exact (Decidable.em (item.id = hirelingLamp)).symm.imp_right h.special
    rw [hasString, (reloaded_of_writes server hw st).2.1] at ha
    by_cases hl : a = .lootMessageSuffix
    · rw [hl, restoreItem_lootMessageSuffix hlamp] at ha
      exact .inr (hl ▸ ha)
    · rw [restoreItem_string hlamp hl] at ha
      split at ha
      · next hne =>
        -- A string that is not there reads as the empty one.
        refine .inl ?_
        cases hs : item.strings a with
        | none => exact absurd (by rw [getString, hs]; rfl) hne
        | some v => rw [hasString, hs]; rfl
      · exact .inr ha
  · rcases (reloaded_of_not_writes server hw st).2.2.2 a ha with ha | ⟨hc, rfl⟩
    · exact .inr ha
    · exact .inr (hbed hc)

end restored

/-- What a lossless item writes, a fresh item of its type reads back. -/
theorem restored_reloaded (hf : item.Fits) (h : item.Lossless server)
    (hc : item.class_ = classOf (server.items item.id)) {st : Item}
    (hst : createItem server item.id = some st) :
    item.Restored server (reloaded server item st) := by
  obtain ⟨n, rfl⟩ := createItem_eq hst
  rw [← hc, h.createdId] at hst ⊢
  have his : (new server item.class_ item.id n).Is item.class_ item.id := new_is
  have hdecay : (new server item.class_ item.id n).ints .decayState = none := new_ints (by decide)
  have hbed (hw : item.writesAttributes) : item.class_ ≠ .bed := by
    intro hb
    simp [writesAttributes, hb] at hw
  exact {
    class_ := (reloaded_is server hf his).1
    id := (reloaded_is server hf his).2
    count := count_restored h his.2 (fun _ hs => new_count fun _ => hs)
      fun hf => new_count fun hf' => absurd hf hf'
    integer := fun a T ha => integer_restored h his.2 ha
    duration := fun hw hd => duration_restored h hw hdecay hd
    decaying := fun hw hd => by rw [decaying_restored hw hdecay, if_pos hd]
    string := fun hw a ha => string_restored h his.2 hw (new_strings (hbed hw)) ha
    custom := custom_restored h his.2 new_custom
    destPos := fun hc => reloaded_destPos hc _
    sleeper := fun hc => sleeper_restored h hc new_bed
    noNewInteger := fun a ha => (noNewInteger_restored h his.2 new_fluidType ha).imp_right
      fun hs => ⟨_, hst, hs⟩
    noNewString := fun a ha => (noNewString_restored h his.2 (fun hb => hb ▸ new_description)
      ha).imp_right fun hs => ⟨_, hst, hs⟩ }

end Item

end Canary.Items
