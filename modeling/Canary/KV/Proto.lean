import Canary.KV.Store
import Mathlib.Data.Char
import Mathlib.Data.List.Lex
import Mathlib.Data.List.Sort

/-!
# Values as messages

A value of the store is a string, a boolean, an integer, a double, an array or a map of values,
each with a timestamp. `toProto` makes it a message with one of the six cases set, and `fromProto`
makes the message a value again, with a given timestamp at all levels. Neither the timestamps nor
the marks of deletion are part of the message.

The maps are hash maps, which do not order their items. So two values are equal up to timestamps if
they are the same once all maps are in the order of their keys (`plain`, `plain_perm`).

What `fromProto` makes of a message of `toProto` is the value again, with the timestamp everywhere
(`fromProto_toProto`). Only for the timestamp 0 the constructor takes the time of the clock.
-/

namespace Canary.KV.Proto

/-! ## Values -/

variable {D : Type}

mutual

/-- `ValueVariant`. The doubles are of any type. A map is the list of its items. -/
inductive ValueVariant (D : Type)
  | string (s : List Char)
  | boolean (b : Bool)
  | int (i : Int32)
  | double (d : D)
  | array (a : List (ValueWrapper D))
  | map (m : List (Key × ValueWrapper D))

inductive ValueWrapper (D : Type)
  | mk (data : ValueVariant D) (timestamp : UInt64) (deleted : Bool)

end

/-- The message `ValueWrapper`, with the case of its `oneof`. -/
inductive Message (D : Type)
  | notSet
  | str_value (s : List Char)
  | int_value (i : Int32)
  | double_value (d : D)
  | array_value (values : List (Message D))
  | map_value (items : List (Key × Message D))
  | bool_value (b : Bool)

mutual

/-- `ProtoSerializable<ValueWrapper>::toProto` -/
def toProto : ValueWrapper D → Message D
  | .mk data _ _ => setProtoValue data

def setProtoValue : ValueVariant D → Message D
  | .string arg => .str_value arg
  | .boolean arg => .bool_value arg
  | .int arg => .int_value arg
  | .double arg => .double_value arg
  | .array arg => .array_value (setProtoArrayValue arg)
  | .map arg => .map_value (setProtoMapValue arg)

def setProtoArrayValue : List (ValueWrapper D) → List (Message D)
  | [] => []
  | elem :: arg => toProto elem :: setProtoArrayValue arg

def setProtoMapValue : List (Key × ValueWrapper D) → List (Key × Message D)
  | [] => []
  | (key, value) :: arg => (key, toProto value) :: setProtoMapValue arg

end

/-- `map[key] = value` -/
def assign {α : Type} (key : Key) (value : α) : List (Key × α) → List (Key × α)
  | [] => [(key, value)]
  | (k, v) :: m => if k = key then (k, value) :: m else (k, v) :: assign key value m

/-- Where a value is in another one: the indices down to it. -/
abbrev Path := List ℕ

section

variable (getTimeMsNow : Path → UInt64) (timestamp : UInt64)

/-- The constructor, at a path. -/
def construct (path : Path) (data : ValueVariant D) : ValueWrapper D :=
  .mk data (if timestamp = 0 then getTimeMsNow path else timestamp) false

mutual

/-- `ProtoSerializable<ValueWrapper>::fromProto`, at a path -/
def fromProto (path : Path) : Message D → ValueWrapper D
  | .str_value s => construct getTimeMsNow timestamp path (.string s)
  | .bool_value b => construct getTimeMsNow timestamp path (.boolean b)
  | .int_value i => construct getTimeMsNow timestamp path (.int i)
  | .double_value d => construct getTimeMsNow timestamp path (.double d)
  | .array_value values => construct getTimeMsNow timestamp path (.array (fromValues path 0 values))
  | .map_value items => construct getTimeMsNow timestamp path (.map (fromItems path 0 items []))
  | .notSet => construct getTimeMsNow timestamp path (.string [])

def fromValues (path : Path) (i : ℕ) : List (Message D) → List (ValueWrapper D)
  | [] => []
  | protoElem :: values => fromProto (i :: path) protoElem :: fromValues path (i + 1) values

def fromItems (path : Path) (i : ℕ) :
    List (Key × Message D) → List (Key × ValueWrapper D) → List (Key × ValueWrapper D)
  | [], map => map
  | (key, value) :: items, map =>
    fromItems path (i + 1) items (assign key (fromProto (i :: path) value) map)

end

end

/-! ## Equality -/

/-- A value without timestamps and marks, with its maps in the order of their keys. -/
inductive Plain (D : Type)
  | string (s : List Char)
  | boolean (b : Bool)
  | int (i : Int32)
  | double (d : D)
  | array (a : List (Plain D))
  | map (m : List (Key × Plain D))

def sortItems {α : Type} (m : List (Key × α)) : List (Key × α) :=
  m.mergeSort fun a b => decide (a.1 ≤ b.1)

mutual

def plain : ValueWrapper D → Plain D
  | .mk data _ _ => plainData data

def plainData : ValueVariant D → Plain D
  | .string s => .string s
  | .boolean b => .boolean b
  | .int i => .int i
  | .double d => .double d
  | .array a => .array (plainValues a)
  | .map m => .map (sortItems (plainItems m))

def plainValues : List (ValueWrapper D) → List (Plain D)
  | [] => []
  | v :: a => plain v :: plainValues a

def plainItems : List (Key × ValueWrapper D) → List (Key × Plain D)
  | [] => []
  | (key, v) :: m => (key, plain v) :: plainItems m

end

mutual

/-- All keys of a map differ. -/
def Keyed : ValueWrapper D → Prop
  | .mk data _ _ => KeyedData data

def KeyedData : ValueVariant D → Prop
  | .array a => KeyedValues a
  | .map m => (m.map Prod.fst).Nodup ∧ KeyedItems m
  | _ => True

def KeyedValues : List (ValueWrapper D) → Prop
  | [] => True
  | v :: a => Keyed v ∧ KeyedValues a

def KeyedItems : List (Key × ValueWrapper D) → Prop
  | [] => True
  | (_, v) :: m => Keyed v ∧ KeyedItems m

end

mutual

/-- The timestamp is the same at every level. -/
def Stamped (timestamp : UInt64) : ValueWrapper D → Prop
  | .mk data t _ => t = timestamp ∧ StampedData timestamp data

def StampedData (timestamp : UInt64) : ValueVariant D → Prop
  | .array a => StampedValues timestamp a
  | .map m => StampedItems timestamp m
  | _ => True

def StampedValues (timestamp : UInt64) : List (ValueWrapper D) → Prop
  | [] => True
  | v :: a => Stamped timestamp v ∧ StampedValues timestamp a

def StampedItems (timestamp : UInt64) : List (Key × ValueWrapper D) → Prop
  | [] => True
  | (_, v) :: m => Stamped timestamp v ∧ StampedItems timestamp m

end

theorem plainItems_eq (m : List (Key × ValueWrapper D)) :
    plainItems m = m.map fun p => (p.1, plain p.2) := by
  induction m with
  | nil => rfl
  | cons p m ih => exact congrArg _ ih

theorem sorted_sortItems {α : Type} (m : List (Key × α)) :
    (sortItems m).Pairwise fun a b => a.1 ≤ b.1 := by
  have htrans (a b c : Key × α) (hab : decide (a.1 ≤ b.1) = true)
      (hbc : decide (b.1 ≤ c.1) = true) : decide (a.1 ≤ c.1) = true :=
    decide_eq_true (le_trans (of_decide_eq_true hab) (of_decide_eq_true hbc))
  have htotal (a b : Key × α) : (decide (a.1 ≤ b.1) || decide (b.1 ≤ a.1)) = true := by
    rw [Bool.or_eq_true, decide_eq_true_iff, decide_eq_true_iff]
    exact le_total a.1 b.1
  exact (List.pairwise_mergeSort htrans htotal m).imp of_decide_eq_true

/-- The order of the items does not matter. -/
theorem sortItems_perm {α : Type} {m m' : List (Key × α)} (h : m.Perm m')
    (hkeys : (m.map Prod.fst).Nodup) : sortItems m = sortItems m' := by
  have hperm : (sortItems m).Perm (sortItems m') :=
    ((List.mergeSort_perm _ _).trans h).trans (List.mergeSort_perm _ _).symm
  refine hperm.eq_of_pairwise (fun a b ha hb hab hba => ?_) (sorted_sortItems m)
    (sorted_sortItems m')
  have hkey : a.1 = b.1 := le_antisymm hab hba
  have ha' : a ∈ m := (List.mergeSort_perm _ _).mem_iff.1 ha
  have hb' : b ∈ m := h.mem_iff.2 ((List.mergeSort_perm _ _).mem_iff.1 hb)
  exact List.inj_on_of_nodup_map hkeys ha' hb' hkey

theorem plain_perm {m m' : List (Key × ValueWrapper D)} (h : m.Perm m')
    (hkeys : (m.map Prod.fst).Nodup) : plainData (.map m) = plainData (.map m') := by
  rw [plainData, plainData, plainItems_eq, plainItems_eq]
  refine congrArg _ (sortItems_perm (h.map _) ?_)
  rwa [List.map_map]

/-! ## Maps -/

theorem assign_of_notMem {α : Type} {key : Key} {value : α} {m : List (Key × α)}
    (h : key ∉ m.map Prod.fst) : assign key value m = m ++ [(key, value)] := by
  induction m with
  | nil => rfl
  | cons p m ih =>
    rw [List.map_cons, List.mem_cons, not_or] at h
    rw [assign, if_neg (Ne.symm h.1), ih h.2, List.cons_append]

section

variable {getTimeMsNow : Path → UInt64} {timestamp : UInt64}

/-- The items, as they are read. -/
def readItems (getTimeMsNow : Path → UInt64) (timestamp : UInt64) (path : Path) (i : ℕ) :
    List (Key × Message D) → List (Key × ValueWrapper D)
  | [] => []
  | (key, value) :: items =>
    (key, fromProto getTimeMsNow timestamp (i :: path) value) ::
      readItems getTimeMsNow timestamp path (i + 1) items

/-- Items with different keys are added one by one. -/
theorem fromItems_eq {path : Path} {i : ℕ} {items : List (Key × Message D)}
    {m : List (Key × ValueWrapper D)} (h : (m.map Prod.fst ++ items.map Prod.fst).Nodup) :
    fromItems getTimeMsNow timestamp path i items m =
      m ++ readItems getTimeMsNow timestamp path i items := by
  induction items generalizing i m with
  | nil => rw [fromItems, readItems, List.append_nil]
  | cons p items ih =>
    obtain ⟨key, value⟩ := p
    have hkey : key ∉ m.map Prod.fst := fun hmem =>
      List.disjoint_of_nodup_append h hmem List.mem_cons_self
    rw [fromItems, assign_of_notMem hkey, ih, readItems, List.append_assoc]
    · rfl
    · rw [List.map_append, List.append_assoc]
      exact h

theorem keys_setProtoMapValue (m : List (Key × ValueWrapper D)) :
    (setProtoMapValue m).map Prod.fst = m.map Prod.fst := by
  induction m with
  | nil => rfl
  | cons p m ih => exact congrArg _ ih

theorem fromItems_setProtoMapValue {path : Path} {m : List (Key × ValueWrapper D)}
    (h : (m.map Prod.fst).Nodup) :
    fromItems getTimeMsNow timestamp path 0 (setProtoMapValue m) [] =
      readItems getTimeMsNow timestamp path 0 (setProtoMapValue m) := by
  rw [fromItems_eq, List.nil_append]
  rwa [List.map_nil, List.nil_append, keys_setProtoMapValue]

/-! ## The round trip -/

mutual

theorem plain_fromProto {v : ValueWrapper D} (h : Keyed v) (path : Path) :
    plain (fromProto getTimeMsNow timestamp path (toProto v)) = plain v := by
  cases v with
  | mk data t deleted =>
    rw [toProto, plain]
    cases data with
    | string s => rfl
    | boolean b => rfl
    | int i => rfl
    | double d => rfl
    | array a =>
      rw [setProtoValue, fromProto, construct, plain, plainData, plainData,
        plainValues_fromValues h]
    | map m =>
      rw [setProtoValue, fromProto, construct, plain, plainData, plainData,
        fromItems_setProtoMapValue h.1, plainItems_readItems h.2]

theorem plainValues_fromValues {a : List (ValueWrapper D)} (h : KeyedValues a) (path : Path)
    (i : ℕ) : plainValues (fromValues getTimeMsNow timestamp path i (setProtoArrayValue a)) =
      plainValues a := by
  cases a with
  | nil => rfl
  | cons v a =>
    rw [setProtoArrayValue, fromValues, plainValues, plainValues, plain_fromProto h.1,
      plainValues_fromValues h.2]

theorem plainItems_readItems {m : List (Key × ValueWrapper D)} (h : KeyedItems m) (path : Path)
    (i : ℕ) : plainItems (readItems getTimeMsNow timestamp path i (setProtoMapValue m)) =
      plainItems m := by
  cases m with
  | nil => rfl
  | cons p m =>
    obtain ⟨key, v⟩ := p
    rw [setProtoMapValue, readItems, plainItems, plainItems, plain_fromProto h.1,
      plainItems_readItems h.2]

end

/-! ## Timestamps -/

theorem stampedItems_assign {key : Key} {v : ValueWrapper D} {m : List (Key × ValueWrapper D)}
    (hv : Stamped timestamp v) (hm : StampedItems timestamp m) :
    StampedItems timestamp (assign key v m) := by
  induction m with
  | nil => exact ⟨hv, trivial⟩
  | cons p m ih =>
    rw [assign]
    split_ifs
    · exact ⟨hv, hm.2⟩
    · exact ⟨hm.1, ih hm.2⟩

theorem stamped_construct (ht : timestamp ≠ 0) {path : Path} {data : ValueVariant D}
    (h : StampedData timestamp data) :
    Stamped timestamp (construct getTimeMsNow timestamp path data) := by
  rw [construct, if_neg ht]
  exact ⟨rfl, h⟩

mutual

theorem stamped_fromProto (ht : timestamp ≠ 0) (path : Path) (p : Message D) :
    Stamped timestamp (fromProto getTimeMsNow timestamp path p) := by
  cases p with
  | array_value values => exact stamped_construct ht (stampedValues_fromValues ht path 0 values)
  | map_value items => exact stamped_construct ht (stampedItems_fromItems ht path 0 items trivial)
  | notSet => exact stamped_construct ht trivial
  | str_value s => exact stamped_construct ht trivial
  | int_value i => exact stamped_construct ht trivial
  | double_value d => exact stamped_construct ht trivial
  | bool_value b => exact stamped_construct ht trivial

theorem stampedValues_fromValues (ht : timestamp ≠ 0) (path : Path) (i : ℕ)
    (values : List (Message D)) :
    StampedValues timestamp (fromValues getTimeMsNow timestamp path i values) := by
  cases values with
  | nil => trivial
  | cons p values =>
    exact ⟨stamped_fromProto ht (i :: path) p, stampedValues_fromValues ht path (i + 1) values⟩

theorem stampedItems_fromItems (ht : timestamp ≠ 0) (path : Path) (i : ℕ)
    (items : List (Key × Message D)) {m : List (Key × ValueWrapper D)}
    (hm : StampedItems timestamp m) :
    StampedItems timestamp (fromItems getTimeMsNow timestamp path i items m) := by
  cases items with
  | nil => exact hm
  | cons p items =>
    obtain ⟨key, value⟩ := p
    exact stampedItems_fromItems ht path (i + 1) items
      (stampedItems_assign (stamped_fromProto ht (i :: path) value) hm)

end

end

/-! ## The result -/

/-- A value whose maps are maps. -/
abbrev Value (D : Type) := { v : ValueWrapper D // Keyed v }

/-- A message of a value is read as this value again, with the timestamp at all levels if it is not
    0; and values with one message are equal, all up to timestamps and marks. -/
theorem fromProto_toProto (getTimeMsNow : Path → UInt64) (timestamp : UInt64) (v w : Value D) :
    plain (fromProto getTimeMsNow timestamp [] (toProto v.1)) = plain v.1 ∧
      (timestamp ≠ 0 →
        Stamped timestamp (fromProto getTimeMsNow timestamp [] (toProto v.1))) ∧
      (plain v.1 ≠ plain w.1 → toProto v.1 ≠ toProto w.1) := by
  refine ⟨plain_fromProto v.2 [], fun ht => stamped_fromProto ht [] _, fun hne he => hne ?_⟩
  calc plain v.1 = plain (fromProto getTimeMsNow timestamp [] (toProto v.1)) :=
        (plain_fromProto v.2 []).symm
    _ = plain (fromProto getTimeMsNow timestamp [] (toProto w.1)) := by rw [he]
    _ = plain w.1 := plain_fromProto w.2 []

/-- The timestamp 0 is not kept, and the mark of deletion is not in the message. -/
theorem clock_and_mark :
    ¬Stamped 0
        (fromProto (fun _ => 1) 0 [] (toProto (.mk (.boolean true) 5 false : ValueWrapper ℕ))) ∧
      toProto (.mk (.boolean true) 5 false : ValueWrapper ℕ) =
        toProto (.mk (.boolean true) 5 true) :=
  ⟨fun h => absurd h.1 (by decide), rfl⟩

end Canary.KV.Proto
