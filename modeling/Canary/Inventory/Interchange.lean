import Canary.Inventory.WhereEver

/-!
# Interchangeable stacks

Two stacks are merged if they are equal, and then the units of the one have the attributes of the
other. `Item::equals` goes through the attributes of both, in two loops, and compares those that
both have (`equals_eq_compare`). So it is symmetric, but an attribute that only one of them has,
and all custom attributes, do not count: a stack without attributes is equal to any two others,
and what is merged with it loses its attributes, or gets some.

Equal items are interchangeable if and only if they have the same attributes and custom attributes
(`interchangeable_iff`), and the merged stack has none that its update drops or sets again.
-/

namespace Canary.Inventory

open Items (IntegerAttribute StringAttribute)

/-! ## The loops -/

/-- An entry of the vector of attributes: the value is of the kind that the type has. A string is
    given by its address. -/
inductive Attributes
  | integer (type : IntegerAttribute) (value : BitVec 64)
  | string (type : StringAttribute) (value : Ref)
  deriving DecidableEq

namespace Attributes

/-- The inner loop returns `false`. -/
def differs : Attributes → Attributes → Bool
  | .integer type value, .integer compareType compareValue =>
    type = compareType && value ≠ compareValue
  | .string type value, .string compareType compareValue =>
    type = compareType && value ≠ compareValue
  | _, _ => false

def isStore : Attributes → Bool
  | .integer type _ => type = .store
  | .string _ _ => false

/-- The loops of `Item::equals`. -/
def compare (attributeVector compareVector : List Attributes) : Bool :=
  attributeVector.all fun x => x.isStore || compareVector.all fun y => !x.differs y

/-- The vector has the attributes of the object, in any order. -/
structure Holds (o : Object) (v : List Attributes) : Prop where
  integer : ∀ type value, .integer type value ∈ v ↔ o.ints type = some value
  string : ∀ type value, .string type value ∈ v ↔
    (o.strings type).isSome = true ∧ o.stringRefs type = value

end Attributes

/-! ## Equal items -/

/-- The attributes that both have are the same, `Store` apart. -/
structure Object.Agree (o o' : Object) : Prop where
  ints : ∀ a, a ≠ .store → ∀ v v', o.ints a = some v → o'.ints a = some v' → v = v'
  strings : ∀ a, (o.strings a).isSome = true → (o'.strings a).isSome = true →
    o.stringRefs a = o'.stringRefs a

theorem mem_allIntegerAttributes (a : IntegerAttribute) : a ∈ allIntegerAttributes := by
  cases a <;> decide

theorem mem_allStringAttributes (a : StringAttribute) : a ∈ allStringAttributes := by
  cases a <;> decide

namespace Thing

/-- What `Item::equals` compares first. -/
structure Alike (t s : Thing) : Prop where
  id : t.label.id = s.label.id
  store : t.label.isStoreItem = s.label.isStoreItem
  owner : getOwnerId t = getOwnerId s

theorem equals_iff (t s : Thing) :
    t.equals s = true ↔ t.Alike s ∧ t.label.Agree s.label := by
  rw [equals]
  simp only [Bool.and_eq_true, decide_eq_true_eq, List.all_eq_true, Bool.or_eq_true]
  constructor
  · rintro ⟨⟨⟨⟨hid, hstore⟩, howner⟩, hints⟩, hstrings⟩
    refine ⟨⟨hid, hstore, howner⟩, fun a ha v v' hv hv' => ?_, fun a hv hv' => ?_⟩
    · have h := (hints a (mem_allIntegerAttributes a)).resolve_left ha
      rw [hv, hv'] at h
      exact of_decide_eq_true h
    · have h := hstrings a (mem_allStringAttributes a)
      obtain ⟨v, hv⟩ := Option.isSome_iff_exists.1 hv
      obtain ⟨v', hv'⟩ := Option.isSome_iff_exists.1 hv'
      rw [hv, hv'] at h
      exact of_decide_eq_true h
  · rintro ⟨⟨hid, hstore, howner⟩, hints, hstrings⟩
    refine ⟨⟨⟨⟨hid, hstore⟩, howner⟩, fun a _ => ?_⟩, fun a _ => ?_⟩
    · by_cases ha : a = .store
      · exact .inl ha
      · refine .inr ?_
        rcases ht : t.label.ints a with _ | v <;> rcases hs : s.label.ints a with _ | v' <;>
          try rfl
        exact decide_eq_true (hints a ha v v' ht hs)
    · rcases ht : t.label.strings a with _ | v <;> rcases hs : s.label.strings a with _ | v' <;>
        try rfl
      exact decide_eq_true (hstrings a (ht ▸ rfl) (hs ▸ rfl))

end Thing

namespace Attributes

variable {o o' : Object} {v v' : List Attributes}

/-- The loops find out whether the attributes agree. -/
theorem compare_iff (hv : Holds o v) (hv' : Holds o' v') : compare v v' = true ↔ o.Agree o' := by
  simp only [compare, List.all_eq_true, Bool.or_eq_true, Bool.not_eq_true']
  constructor
  · intro h
    refine ⟨fun a ha x x' hx hx' => ?_, fun a hx hx' => ?_⟩
    · have hmem := (hv.integer a x).2 hx
      have hstore : ¬(integer a x).isStore = true := fun hs => ha (of_decide_eq_true hs)
      have hsame := (h _ hmem).resolve_left hstore _ ((hv'.integer a x').2 hx')
      simpa [differs] using hsame
    · have hmem := (hv.string a _).2 ⟨hx, rfl⟩
      have hsame := (h _ hmem).resolve_left Bool.false_ne_true _ ((hv'.string a _).2 ⟨hx', rfl⟩)
      simpa [differs] using hsame
  · intro h x hx
    cases x with
    | integer a x =>
      -- The store attribute is skipped by the loop.
      by_cases ha : a = .store
      · exact .inl (decide_eq_true ha)
      · refine .inr fun y hy => ?_
        cases y with
        | integer a' x' =>
          by_contra hne
          rw [Bool.not_eq_false, differs, Bool.and_eq_true, decide_eq_true_eq,
            decide_eq_true_eq] at hne
          obtain ⟨rfl, hne⟩ := hne
          exact hne (h.ints a ha x x' ((hv.integer a x).1 hx) ((hv'.integer a x').1 hy))
        | string => rfl
    | string a r =>
      refine .inr fun y hy => ?_
      cases y with
      | integer => rfl
      | string a' r' =>
        by_contra hne
        rw [Bool.not_eq_false, differs, Bool.and_eq_true, decide_eq_true_eq,
          decide_eq_true_eq] at hne
        obtain ⟨rfl, hne⟩ := hne
        obtain ⟨hsome, rfl⟩ := (hv.string a r).1 hx
        obtain ⟨hsome', rfl⟩ := (hv'.string a r').1 hy
        exact hne (h.strings a hsome hsome')

/-- The vector of an object. -/
def vector (o : Object) : List Attributes :=
  (allIntegerAttributes.filterMap fun a => (o.ints a).map (integer a)) ++
    allStringAttributes.filterMap fun a => (o.strings a).map fun _ => string a (o.stringRefs a)

theorem holds_vector (o : Object) : Holds o (vector o) where
  integer type value := by
    simp only [vector, List.mem_append, List.mem_filterMap, Option.map_eq_some_iff,
      Attributes.integer.injEq, reduceCtorEq, and_false, exists_false, or_false]
    constructor
    · rintro ⟨a, -, v, hv, rfl, rfl⟩
      exact hv
    · exact fun h => ⟨type, mem_allIntegerAttributes type, value, h, rfl, rfl⟩
  string type value := by
    simp only [vector, List.mem_append, List.mem_filterMap, Option.map_eq_some_iff,
      Attributes.string.injEq, reduceCtorEq, and_false, exists_false, false_or]
    constructor
    · rintro ⟨a, -, v, hv, rfl, rfl⟩
      exact ⟨Option.isSome_iff_exists.2 ⟨v, hv⟩, rfl⟩
    · rintro ⟨h, rfl⟩
      obtain ⟨v, hv⟩ := Option.isSome_iff_exists.1 h
      exact ⟨type, mem_allStringAttributes type, v, hv, rfl, rfl⟩

end Attributes

/-- `Item::equals`, whatever the order of the attributes is. -/
theorem Thing.equals_eq_compare {t s : Thing} {v v' : List Attributes}
    (hv : Attributes.Holds t.label v) (hv' : Attributes.Holds s.label v') :
    t.equals s = (t.label.id = s.label.id && t.label.isStoreItem = s.label.isStoreItem &&
      getOwnerId t = getOwnerId s && Attributes.compare v v') := by
  rw [Bool.eq_iff_iff, equals_iff]
  simp only [Bool.and_eq_true, decide_eq_true_eq, Attributes.compare_iff hv hv']
  exact ⟨fun ⟨⟨hid, hstore, howner⟩, h⟩ => ⟨⟨⟨hid, hstore⟩, howner⟩, h⟩,
    fun ⟨⟨⟨hid, hstore⟩, howner⟩, h⟩ => ⟨⟨hid, hstore, howner⟩, h⟩⟩

/-! ## Interchangeable items -/

/-- Where the strings are in memory: an address has one string. -/
def Object.Stored (heap : Ref → List UInt8) (o : Object) : Prop :=
  ∀ a c, o.strings a = some c → heap (o.stringRefs a) = c

/-- An item whose strings are in memory. -/
abbrev StoredThing (heap : Ref → List UInt8) := { t : Thing // t.label.Stored heap }

/-- The same attributes with the same values, `Store` apart. -/
structure Object.SameAttributes (o o' : Object) : Prop where
  ints : ∀ a, a ≠ .store → o.ints a = o'.ints a
  strings : o.strings = o'.strings
  custom : o.custom = o'.custom

/-- The label of a stack that is merged with, with its new count. -/
def Object.merged (types : ItemTable) (o : Object) (n : ℕ) : Object :=
  (o.setID types o.id).setSubType types (o.getItemCount + n)

/-- The same types of attributes, `Store` apart, and the same custom attributes. -/
structure Object.Complete (o o' : Object) : Prop where
  ints : ∀ a, a ≠ .store → ((o.ints a).isSome ↔ (o'.ints a).isSome)
  strings : ∀ a, (o.strings a).isSome ↔ (o'.strings a).isSome
  custom : o.custom = o'.custom

/-- The update of a stack, which sets its type again, leaves the attributes as they are. -/
def Object.Settled (types : ItemTable) (o : Object) : Prop := (o.setID types o.id).ints = o.ints

namespace Thing

/-- What is expected of an item and a stack that it may be merged with: equal items have the same
    attributes, are equal to the same items, and can be merged without a change of any attribute. -/
structure Interchangeable (types : ItemTable) (t s : Thing) : Prop where
  refl : t.equals t = true
  symm : t.equals s = s.equals t
  alike : t.equals s = true → t.Alike s
  same : t.equals s = true → t.label.SameAttributes s.label
  trans : ∀ u, t.equals s = true → s.equals u = true → t.equals u = true
  merged : t.equals s = true → t.label.isStackable types = true → ∀ n,
    (s.label.merged types n).SameAttributes s.label ∧
      (s.label.merged types n).SameAttributes t.label

variable {types : ItemTable} {heap : Ref → List UInt8}

theorem equals_refl (t : Thing) : t.equals t = true :=
  (equals_iff t t).2 ⟨⟨rfl, rfl, rfl⟩, fun _ _ _ _ hv hv' => Option.some.inj (hv.symm.trans hv'),
    fun _ _ _ => rfl⟩

theorem equals_comm (t s : Thing) : t.equals s = s.equals t :=
  Bool.eq_iff_iff.2 ⟨equals_symm, equals_symm⟩

end Thing

namespace Object

variable {types : ItemTable} {heap : Ref → List UInt8} {o o' : Object}

theorem eq_of_isSome_iff {α : Type*} {x y : Option α} (h : x.isSome ↔ y.isSome)
    (hv : ∀ v v', x = some v → y = some v' → v = v') : x = y := by
  cases x with
  | none =>
    cases y with
    | none => rfl
    | some v' => exact absurd (h.2 rfl) Bool.false_ne_true
  | some v =>
    obtain ⟨v', rfl⟩ := Option.isSome_iff_exists.1 (h.1 rfl)
    rw [hv v v' rfl rfl]

theorem Agree.sameAttributes (h : o.Agree o') (hc : o.Complete o') (ho : o.Stored heap)
    (ho' : o'.Stored heap) : o.SameAttributes o' where
  ints a ha := eq_of_isSome_iff (hc.ints a ha) (h.ints a ha)
  strings := by
    funext a
    refine eq_of_isSome_iff (hc.strings a) fun v v' hv hv' => ?_
    rw [← ho a v hv, ← ho' a v' hv', h.strings a (hv ▸ rfl) (hv' ▸ rfl)]
  custom := hc.custom

theorem SameAttributes.complete (h : o.SameAttributes o') : o.Complete o' where
  ints a ha := by rw [h.ints a ha]
  strings a := by rw [h.strings]
  custom := h.custom

/-- With the same types of attributes, what agrees with the one agrees with the other. -/
theorem Agree.trans {u : Object} (h : o.Agree o') (hc : o.Complete o') (hu : o'.Agree u) :
    o.Agree u where
  ints a ha v x hv hx := by
    obtain ⟨v', hv'⟩ := Option.isSome_iff_exists.1 ((hc.ints a ha).1 (hv ▸ rfl))
    exact (h.ints a ha v v' hv hv').trans (hu.ints a ha v' x hv' hx)
  strings a hv hx :=
    (h.strings a hv ((hc.strings a).1 hv)).trans (hu.strings a ((hc.strings a).1 hv) hx)

theorem setID_fields (types : ItemTable) (o : Object) (newid : BitVec 16) :
    (o.setID types newid).strings = o.strings ∧ (o.setID types newid).custom = o.custom ∧
      (o.setID types newid).ints .store = o.ints .store := by
  have hdecay : IntegerAttribute.store ≠ .decayState := by decide
  have hduration : IntegerAttribute.store ≠ .duration := by decide
  have hcorpse : IntegerAttribute.store ≠ .corpseOwner := by decide
  rw [setID]
  dsimp only
  split_ifs <;>
    simp [setAttribute, removeAttribute, setDuration, Items.Item.setAttribute,
      Items.Item.setDuration, Function.update_of_ne, hdecay, hduration, hcorpse]

/-- A stack that is merged has the attributes that its update leaves. -/
theorem merged_fields (h : o.isStackable types = true) (n : ℕ) :
    (o.merged types n).ints = (o.setID types o.id).ints ∧
      (o.merged types n).strings = o.strings ∧ (o.merged types n).custom = o.custom := by
  obtain ⟨hstrings, hcustom, -⟩ := o.setID_fields types o.id
  have hid : (o.setID types o.id).id = o.id := (o.setID_keeps types o.id).2.1
  have hfluid : ¬(types.server.items o.id).hasFluid = true := by
    rw [(types.stackable_plain o.id h).1]
    exact Bool.false_ne_true
  rw [isStackable] at h
  rw [merged, setSubType, Items.Item.setSubType, hid]
  dsimp only
  rw [if_neg hfluid, if_pos h]
  exact ⟨rfl, hstrings, hcustom⟩

end Object

namespace Thing

variable {types : ItemTable} {heap : Ref → List UInt8}

/-- An item and a stack are interchangeable if and only if they differ in their type, in their
    owner, as store items or in an attribute that both have, or have the same types of attributes
    and the same custom attributes. The stack has no attribute that its update would change. -/
theorem interchangeable_iff (types : ItemTable) (t s : StoredThing heap) :
    t.1.Interchangeable types s.1 ↔ (t.1.Alike s.1 ∧ t.1.label.Agree s.1.label →
      t.1.label.Complete s.1.label ∧
        (t.1.label.isStackable types = true → s.1.label.Settled types)) := by
  obtain ⟨t, ht⟩ := t
  obtain ⟨s, hs⟩ := s
  constructor
  · rintro h hagree
    have hequals := (equals_iff t s).2 hagree
    refine ⟨(h.same hequals).complete, fun hstack => ?_⟩
    have hstack' : s.label.isStackable types = true := by
      rwa [Object.isStackable, ← hagree.1.id]
    have hmerged := (h.merged hequals hstack 0).1.ints
    rw [(Object.merged_fields hstack' 0).1] at hmerged
    funext a
    by_cases ha : a = .store
    · rw [ha, (s.label.setID_fields types s.label.id).2.2]
    · exact hmerged a ha
  · intro h
    refine ⟨equals_refl t, equals_comm t s, fun he => ((equals_iff t s).1 he).1, fun he => ?_,
      fun u he hu => ?_, fun he hstack n => ?_⟩
    · have hagree := (equals_iff t s).1 he
      exact hagree.2.sameAttributes (h hagree).1 ht hs
    · obtain ⟨halike, hagree⟩ := (equals_iff t s).1 he
      obtain ⟨halike', hagree'⟩ := (equals_iff s u).1 hu
      refine (equals_iff t u).2 ⟨⟨halike.id.trans halike'.id, halike.store.trans halike'.store,
        halike.owner.trans halike'.owner⟩, hagree.trans (h ⟨halike, hagree⟩).1 hagree'⟩
    · have hagree := (equals_iff t s).1 he
      have hstack' : s.label.isStackable types = true := by
        rwa [Object.isStackable, ← hagree.1.id]
      have hsettled := (h hagree).2 hstack
      have hsame := hagree.2.sameAttributes (h hagree).1 ht hs
      obtain ⟨hints, hstrings, hcustom⟩ := Object.merged_fields hstack' n
      have hmerged : (s.label.merged types n).SameAttributes s.label :=
        ⟨fun a _ => by rw [hints, hsettled], hstrings, hcustom⟩
      exact ⟨hmerged, fun a ha => (hmerged.ints a ha).trans (hsame.ints a ha).symm,
        hmerged.strings.trans hsame.strings.symm, hmerged.custom.trans hsame.custom.symm⟩

/-- Gold coins, with or without an action id. -/
def coins (actionId : Option (BitVec 64)) : Thing :=
  .node { class_ := .item, id := 3031, ref := 0,
          ints := fun a => if a = .actionId then actionId else none } []

/-- Coins without an action id are equal to those with any, which are not equal to each other. -/
theorem coins_equals :
    (coins (some 100)).equals (coins none) = true ∧
      (coins none).equals (coins (some 200)) = true ∧
      (coins (some 100)).equals (coins (some 200)) = false ∧
      ¬(coins (some 100)).label.SameAttributes (coins none).label := by
  refine ⟨by decide +kernel, by decide +kernel, by decide +kernel, fun h => ?_⟩
  exact absurd (h.ints .actionId (by decide)) (by decide)

end Thing

/-! ## Merges -/

namespace World

/-- What a merge puts in the place of a stack. -/
theorem updateThing_eq {types : ItemTable} {w : World} {cylinder : Cylinder} {toItem : Thing}
    {index : ℤ} (hindex : w.getThingIndex cylinder toItem.ref = some index)
    (hfind : w.find toItem.ref = some toItem) (n : ℕ) :
    let item : Thing := .node (toItem.label.merged types n) toItem.children
    w.updateThing types cylinder toItem.ref toItem.label.id (toItem.label.getItemCount + n) =
      match cylinder with
      | .player _ => w.modify toItem.ref fun _ => item
      | .container c => (w.modify toItem.ref fun _ => item).updateItemWeight c
          (item.getWeight types - toItem.getWeight types) := by
  rw [updateThing, hindex, hfind]
  cases cylinder <;> rfl

end World

end Canary.Inventory
