import Canary.Items.ReadBack

/-!
# What comes back of an item

The state an item is in once it has read the attributes of another one (`restoreItem`),
attribute by attribute: the fields of the other item are read one after the other, and each
attribute is left as the one field that sets it leaves it.
-/

namespace Canary.Items

open Bytes (Scalar readString writeString)
open Tagged (TagField)

namespace Item

variable {server : Server} {item st : Item}

/-! ## What the updates change -/

theorem ints_ite {p : Prop} [Decidable p] {x y : Item} {a : IntegerAttribute} :
    (if p then x else y).ints a = if p then x.ints a else y.ints a := apply_ite (Item.ints · a) ..

theorem strings_ite {p : Prop} [Decidable p] {x y : Item} {a : StringAttribute} :
    (if p then x else y).strings a = if p then x.strings a else y.strings a :=
  apply_ite (Item.strings · a) ..

theorem custom_ite {p : Prop} [Decidable p] {x y : Item} :
    (if p then x else y).custom = if p then x.custom else y.custom := apply_ite Item.custom ..

theorem count_ite {p : Prop} [Decidable p] {x y : Item} :
    (if p then x else y).count = if p then x.count else y.count := apply_ite Item.count ..

theorem id_ite {p : Prop} [Decidable p] {x y : Item} :
    (if p then x else y).id = if p then x.id else y.id := apply_ite Item.id ..

section setAttribute

variable {a b : IntegerAttribute} {v : BitVec 64}

@[simp] theorem setAttribute_ints :
    (st.setAttribute b v).ints a = if a = b then some v else st.ints a := by
  simp [setAttribute, Function.update_apply]
@[simp] theorem setAttribute_strings : (st.setAttribute b v).strings = st.strings := rfl
@[simp] theorem setAttribute_custom : (st.setAttribute b v).custom = st.custom := rfl
@[simp] theorem setAttribute_count : (st.setAttribute b v).count = st.count := rfl
@[simp] theorem setAttribute_id : (st.setAttribute b v).id = st.id := rfl

end setAttribute

section setString

variable {a b : StringAttribute} {v : List UInt8}

@[simp] theorem setString_strings :
    (st.setString b v).strings a = if a = b ∧ v ≠ [] then some v else st.strings a := by
  unfold setString
  split
  · next h => simp [h]
  · next h => simp [h, Function.update_apply]

@[simp] theorem setString_ints : (st.setString b v).ints = st.ints := by
  unfold setString
  split <;> rfl

@[simp] theorem setString_custom : (st.setString b v).custom = st.custom := by
  unfold setString
  split <;> rfl

@[simp] theorem setString_count : (st.setString b v).count = st.count := by
  unfold setString
  split <;> rfl

@[simp] theorem setString_id : (st.setString b v).id = st.id := by
  unfold setString
  split <;> rfl

end setString

section setSubType

variable {n : BitVec 64}

/-- The sub type of a stack is the count. -/
@[simp] theorem setSubType_count : (st.setSubType server n).count =
    if (server.items st.id).hasFluid then st.count
    else if (server.items st.id).stackable then n.setWidth 8
    else if (server.items st.id).charges ≠ 0 then st.count else n.setWidth 8 := by
  unfold setSubType
  dsimp only
  repeat' split
  all_goals rfl

/-- The sub type of an item with a fluid is the fluid. -/
@[simp] theorem setSubType_fluidType : (st.setSubType server n).ints .fluidType =
    if (server.items st.id).hasFluid then some n else st.ints .fluidType := by
  unfold setSubType
  dsimp only
  repeat' split
  all_goals simp

/-- The type takes charges as its sub type. -/
def takesCharges (it : ItemType) : Bool := !it.hasFluid && !it.stackable && it.charges ≠ 0

@[simp] theorem setSubType_charges : (st.setSubType server n).ints .charges =
    if takesCharges (server.items st.id) then some n else st.ints .charges := by
  unfold setSubType takesCharges
  dsimp only
  repeat' split
  all_goals simp_all

@[simp] theorem setSubType_strings : (st.setSubType server n).strings = st.strings := by
  unfold setSubType
  dsimp only
  repeat' split
  all_goals rfl

@[simp] theorem setSubType_custom : (st.setSubType server n).custom = st.custom := by
  unfold setSubType
  dsimp only
  repeat' split
  all_goals rfl

@[simp] theorem setSubType_id : (st.setSubType server n).id = st.id := by
  unfold setSubType
  dsimp only
  repeat' split
  all_goals rfl

@[simp] theorem setSubType_ints {a : IntegerAttribute} (h : a ≠ .fluidType) (h' : a ≠ .charges) :
    (st.setSubType server n).ints a = st.ints a := by
  unfold setSubType
  dsimp only
  repeat' split
  all_goals simp [h, h']

end setSubType

section setPending

variable {v : BitVec 64}

@[simp] theorem setPending_ints {a : IntegerAttribute} :
    (st.setPending v).ints a =
      if a = .decayState ∧ v ≠ 0 then some decayingPending else st.ints a := by
  unfold setPending
  split
  · next h => simp only [setAttribute_ints, and_iff_left h]
  · next h => exact (if_neg fun h' => h h'.2).symm

@[simp] theorem setPending_strings : (st.setPending v).strings = st.strings := by
  unfold setPending
  split <;> rfl

@[simp] theorem setPending_custom : (st.setPending v).custom = st.custom := by
  unfold setPending
  split <;> rfl

@[simp] theorem setPending_count : (st.setPending v).count = st.count := by
  unfold setPending
  split <;> rfl

@[simp] theorem setPending_id : (st.setPending v).id = st.id := by
  unfold setPending
  split <;> rfl

end setPending

section setSpecial

variable {v : List UInt8}

/-- The special attribute of anything but a hireling lamp stays what it is. -/
theorem setSpecial_of_ne (h : st.id ≠ hirelingLamp) :
    st.setSpecial v = st.setString .special v := by
  rw [setSpecial, setString_id, if_neg h]

@[simp] theorem setSpecial_ints : (st.setSpecial v).ints = st.ints := by
  unfold setSpecial
  dsimp only
  split
  · exact setString_ints
  · exact setString_ints

@[simp] theorem setSpecial_count : (st.setSpecial v).count = st.count := by
  unfold setSpecial
  dsimp only
  split
  · exact setString_count
  · exact setString_count

end setSpecial

section addAll

variable {l : List (List UInt8 × CustomAttribute)}

@[simp] theorem addAll_custom : (addAll l st).custom =
    l.foldl (fun c e => c.addCustomAttribute e.1 e.2) st.custom := by
  induction l generalizing st with
  | nil => rfl
  | cons e l ih => exact ih

@[simp] theorem addAll_ints : (addAll l st).ints = st.ints := by
  induction l generalizing st with
  | nil => rfl
  | cons e l ih => exact ih

@[simp] theorem addAll_strings : (addAll l st).strings = st.strings := by
  induction l generalizing st with
  | nil => rfl
  | cons e l ih => exact ih

@[simp] theorem addAll_count : (addAll l st).count = st.count := by
  induction l generalizing st with
  | nil => rfl
  | cons e l ih => exact ih

end addAll

/-! ## The state after the fields of an item -/

/-- The item `st` after reading the fields of `item`. -/
def restoreItem (server : Server) (item st : Item) : Item :=
  (item.itemFields server).foldl (fun st f => f.effect st) st

theorem effect_when {p : Prop} [Decidable p] {t : UInt8} {l : List UInt8} {u : Item → Item} :
    (TagField.when p t l u).effect st = if p then u st else st := rfl

attribute [local simp] restoreItem itemFields integerField nonzeroField textField nonemptyField
  countField chargesField actionIdField durationField decayingField specialField tierField
  customField effect_when setDuration ints_ite strings_ite custom_ite count_ite id_ite

/-- The integer attributes that come back as they are, and the types they are written in. -/
def plainType : IntegerAttribute → Option Scalar
  | .store => some .i64
  | .actionId | .amount => some .u16
  | .date => some .u64
  | .weight | .quickLootContainer | .owner => some .u32
  | .attack | .defense | .extraDefense | .imbuementSlot | .armor => some .i32
  | .openContainer | .shootRange => some .u8
  | .hitChance => some .i8
  | _ => none

/-- When such an attribute is written. -/
def writesPlain (server : Server) (item : Item) (a : IntegerAttribute) (T : Scalar) : Bool :=
  match a with
  | .store | .date => item.getAttribute T a ≠ 0
  | .actionId => (server.items item.id).movable && item.getAttribute T a ≠ 0
  | _ => item.hasAttribute a

theorem restoreItem_plain {a : IntegerAttribute} {T : Scalar} (h : plainType a = some T) :
    (restoreItem server item st).ints a =
      if item.writesPlain server a T then some (T.cast (item.getAttribute T a))
      else st.ints a := by
  cases a <;> cases h <;> simp [writesPlain] <;> rfl

theorem restoreItem_tier :
    (restoreItem server item st).ints .tier =
      if item.hasAttribute .tier then some (Scalar.u8.cast (item.getTier server))
      else st.ints .tier := by
  simp

theorem restoreItem_duration :
    (restoreItem server item st).ints .duration =
      if item.hasAttribute .duration then
        ((st.setDuration (Scalar.i32.cast (item.getDuration server))).ints .duration)
      else st.ints .duration := by
  simp

theorem restoreItem_decayState :
    (restoreItem server item st).ints .decayState =
      if item.getDecaying = decayingTrue ∨ item.getDecaying = decayingPending then
        some decayingPending
      else st.ints .decayState := by
  have h₁ : Scalar.u8.cast decayingTrue ≠ 0 := by decide
  have h₂ : Scalar.u8.cast decayingPending ≠ 0 := by decide
  have h : item.getDecaying = decayingTrue ∨ item.getDecaying = decayingPending →
      Scalar.u8.cast item.getDecaying ≠ 0 := by
    rintro (h | h) <;> rwa [h]
  simp
  grind

/-- The attributes that are never written stay. -/
theorem restoreItem_other {a : IntegerAttribute}
    (h : a ∈ [.uniqueId, .corpseOwner, .doorId, .durationTimestamp]) :
    (restoreItem server item st).ints a = st.ints a := by
  cases a <;> simp at h <;> simp

/-- The string attributes that are written. -/
theorem restoreItem_string (hid : st.id ≠ hirelingLamp ∨ item.hasString .special = false)
    {a : StringAttribute} (ha : a ≠ .lootMessageSuffix) :
    (restoreItem server item st).strings a =
      if item.getString a ≠ [] then some (item.getString a) else st.strings a := by
  have hhas (a) (h : item.hasString a = false) : item.getString a = [] := by
    simp only [hasString, Option.isSome_eq_false_iff, Option.isNone_iff_eq_none] at h
    rw [getString, h]
    rfl
  rcases hid with h | h
  · cases a <;> simp [setSpecial_of_ne, h] <;> grind
  · cases a <;> simp [h] <;> grind

theorem restoreItem_lootMessageSuffix
    (hid : st.id ≠ hirelingLamp ∨ item.hasString .special = false) :
    (restoreItem server item st).strings .lootMessageSuffix = st.strings .lootMessageSuffix := by
  rcases hid with h | h
  · simp [setSpecial_of_ne, h]
  · simp [h]

theorem restoreItem_custom (hid : st.id ≠ hirelingLamp ∨ item.hasString .special = false) :
    (restoreItem server item st).custom =
      item.custom.entries.entries.foldl (fun c e => c.addCustomAttribute e.1 e.2) st.custom := by
  have hnil : item.custom.entries.entries = [] → st.custom =
      item.custom.entries.entries.foldl (fun c e => c.addCustomAttribute e.1 e.2) st.custom := by
    rintro h
    rw [h]
    rfl
  rcases hid with h | h
  · simpa [setSpecial_of_ne, h] using hnil
  · simpa [h] using hnil

/-! ### The sub type

The type of the item read into is that of the item written, and charges were only written
for a type that takes them. -/

/-- What only the fields of the sub type change. -/
theorem restoreItem_subType {β : Type*} (g : Item → β)
    (h : ∀ f ∈ (item.itemFields server).drop 3, ∀ st, g (f.effect st) = g st) :
    g (restoreItem server item st) =
      g ((item.chargesField server).effect ((item.countField server).effect
        ((item.nonzeroField .store .i64 .store).effect st))) := by
  have hsplit : restoreItem server item st =
      ((item.itemFields server).drop 3).foldl (fun st f => f.effect st)
        ((item.chargesField server).effect ((item.countField server).effect
          ((item.nonzeroField .store .i64 .store).effect st))) := rfl
  rw [hsplit, Tagged.foldl_effect_eq g h]

variable (hid : st.id = item.id)
  (hc : item.getAttribute .u16 .charges ≠ 0 → takesCharges (server.items item.id))

include hid hc

theorem restoreItem_fluidType : (restoreItem server item st).ints .fluidType =
    if (server.items item.id).hasFluid then
      some (Scalar.u8.cast (item.getAttribute .u16 .fluidType))
    else st.ints .fluidType := by
  rw [restoreItem_subType (fun st => st.ints .fluidType) (by simp)]
  by_cases h : (server.items item.id).hasFluid
  · have hsub : item.getSubType server = item.getAttribute .u16 .fluidType := if_pos h
    have h₀ : item.getAttribute .u16 .charges = 0 := not_not.1 fun h' => by
      simpa [takesCharges, h] using hc h'
    simp [hid, h, h₀, hsub]
  · simp [hid, h]

theorem restoreItem_charges : (restoreItem server item st).ints .charges =
    if item.getAttribute .u16 .charges ≠ 0 then
      some (Scalar.u16.cast (item.getAttribute .u16 .charges))
    else st.ints .charges := by
  rw [restoreItem_subType (fun st => st.ints .charges) (by simp)]
  by_cases h : takesCharges (server.items item.id)
  · have hs : ¬((server.items item.id).stackable || (server.items item.id).hasFluid) := by
      simp only [takesCharges, Bool.and_eq_true, Bool.not_eq_true'] at h
      simp [h.1]
    simp only [Bool.not_eq_true, Bool.or_eq_false_iff] at hs
    simp [hid, h, hs]
  · have h₀ : item.getAttribute .u16 .charges = 0 := not_not.1 fun h' => h (hc h')
    simp [hid, h, h₀]

theorem restoreItem_count : (restoreItem server item st).count =
    if ¬(server.items item.id).hasFluid ∧ (server.items item.id).stackable then item.count
    else st.count := by
  rw [restoreItem_subType Item.count (by simp)]
  by_cases h₀ : item.getAttribute .u16 .charges = 0
  · by_cases h : (server.items item.id).hasFluid
    · simp [hid, h, h₀]
    · by_cases hs : (server.items item.id).stackable
      · have hsub : item.getSubType server = item.count.setWidth 64 := by
          rw [getSubType, if_neg h, if_pos hs]
        have hcount : (Scalar.u8.cast (item.count.setWidth 64)).setWidth 8 = item.count :=
          Scalar.setWidth_cast (T := .u8) item.count
        simp [hid, h, hs, h₀, hsub, hcount]
      · simp [h, hs, h₀]
  · -- A type that takes charges has no other sub type.
    have h := hc h₀
    simp only [takesCharges, Bool.and_eq_true, Bool.not_eq_true', decide_eq_true_eq] at h
    have hcharges : (server.items item.id).charges ≠ 0#32 := h.2
    simp [hid, h, hcharges]

end Item

end Canary.Items
