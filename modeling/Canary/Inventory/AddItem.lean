import Canary.Inventory.Queries

/-!
# Adding an item

`internalAddItem` asks the cylinder where the item would go, and whether and how much of it, and
then adds it: it fills up the stack found, and adds a clone with the rest, or it puts the item
in its place.
-/

namespace Canary.Inventory

/-- What `internalAddItem` returns, with `remainderCount` and the state it leaves. -/
structure Added where
  ret : ReturnValue
  remainderCount : ℕ
  world : World

namespace Thing

/-- What is missing to a full stack, as a `uint32_t`. -/
def room (types : ItemTable) (t : Thing) : ℕ :=
  (BitVec.ofNat 32 (t.label.getStackSize types) - BitVec.ofNat 32 t.label.getItemCount).toNat

end Thing

namespace World

variable (g : Game) (w : World)

/-- `postAddNotification`, if the thing is there. -/
def notifyOf (cylinder : Cylinder) (r : Ref) : World :=
  if (w.getThingIndex cylinder r).isSome then w.postNotification g.types cylinder else w

def place (cylinder : Cylinder) (index : ℤ) (item : Thing) : World :=
  (w.addThing g.types cylinder index item).notifyOf g cylinder item.ref

/-- The stack that the item is merged with. -/
def merged (d : Destination) (item : Thing) : Option Thing :=
  (d.destItem.bind w.find).filter fun toItem =>
    item.label.isStackable g.types && item.equals toItem

/-- The cylinder may refuse the item for its count: a container does, reward containers apart. -/
def refusesCount (destCylinder : Cylinder) : Bool :=
  match destCylinder with
  | .player _ => false
  | .container r => (w.container? r).any fun c => c.label.id ≠ rewardContainer

/-- The units that are added, and those of them that the stack takes. -/
def amounts (destCylinder : Cylinder) (item toItem : Thing) (flags : Flags) : ℕ × ℕ :=
  let count := item.label.getItemCount
  let m := min count (w.queryMaxCount g destCylinder indexWhereEver item count flags).2
  (m, min (toItem.room g.types) m)

theorem amounts_le (destCylinder : Cylinder) (item toItem : Thing) (flags : Flags) :
    (w.amounts g destCylinder item toItem flags).1 ≤ item.label.getItemCount :=
  Nat.min_le_left _ _

theorem amounts_snd_le (destCylinder : Cylinder) (item toItem : Thing) (flags : Flags) :
    (w.amounts g destCylinder item toItem flags).2 ≤
      (w.amounts g destCylinder item toItem flags).1 :=
  Nat.min_le_right _ _

/-- The stack, with the units merged. -/
def merge (d : Destination) (toItem : Thing) (n : ℕ) : World :=
  w.updateThing g.types d.cylinder toItem.ref toItem.label.id (toItem.label.getItemCount + n)

/-- The units that the stack does not take. -/
def restCount (destCylinder : Cylinder) (item toItem : Thing) (flags : Flags) : ℕ :=
  let amounts := w.amounts g destCylinder item toItem flags
  amounts.1 - amounts.2

/-- The state after the merge. -/
def mergedWorld (destCylinder : Cylinder) (d : Destination) (item toItem : Thing)
    (flags : Flags) : World :=
  w.merge g d toItem (w.amounts g destCylinder item toItem flags).2

/-- A clone with the rest, and the state with the clone. -/
def remainderItem (destCylinder : Cylinder) (d : Destination) (item toItem : Thing)
    (flags : Flags) : Thing × World :=
  let clone := (w.mergedWorld g destCylinder d item toItem flags).clone g.types item
  (clone.1.setItemCount (w.restCount g destCylinder item toItem flags), clone.2)

theorem getItemCount_remainderItem_lt (destCylinder : Cylinder) (d : Destination)
    (item toItem : Thing) (flags : Flags)
    (hrest : item.label.getItemCount ≠ w.restCount g destCylinder item toItem flags) :
    (w.remainderItem g destCylinder d item toItem flags).1.label.getItemCount <
      item.label.getItemCount := by
  have hle := w.amounts_le g destCylinder item toItem flags
  rw [restCount] at hrest
  rw [remainderItem, restCount]
  simp only [Thing.setItemCount, RoseTree.label_node, Object.setItemCount, Object.getItemCount,
    BitVec.toNat_ofNat] at hrest ⊢
  refine (Nat.mod_le _ _).trans_lt (lt_of_le_of_ne ?_ (Ne.symm hrest))
  exact (Nat.sub_le _ _).trans hle

/-- Whether the item may be added, by the queries: of the cylinder found, and of the one asked. -/
def addReturn (destCylinder : Cylinder) (item : Thing) (index : ℤ) (flags : Flags) : ReturnValue :=
  let count := item.label.getItemCount
  let d := w.queryDestination g destCylinder index item none flags
  let ret := w.queryAdd g d.cylinder d.index item count flags none
  if ret ≠ .noError then ret
  else
    -- Check if we can add the whole amount, against the original cylinder.
    let ret := (w.queryMaxCount g destCylinder indexWhereEver item count flags).1
    if ret ≠ .noError ∧ w.refusesCount destCylinder then ret else .noError

/-- `Game::internalAddItem`. The call for the rest is that of the overload without
    `remainderCount`. -/
def internalAddItem (w : World) (destCylinder : Cylinder) (item : Thing) (index : ℤ)
    (flags : Flags) (test : Bool) : Added :=
  let ret := w.addReturn g destCylinder item index flags
  let d := w.queryDestination g destCylinder index item none flags
  if ret ≠ .noError then ⟨ret, 0, w⟩
  else if test then ⟨.noError, 0, w⟩
  else
    match w.merged g d item with
    | none => ⟨.noError, 0, w.place g d.cylinder d.index item⟩
    | some toItem =>
      let count := w.restCount g destCylinder item toItem flags
      let w' := w.mergedWorld g destCylinder d item toItem flags
      if 0 < count then
        if _hcount : item.label.getItemCount ≠ count then
          let clone := w.remainderItem g destCylinder d item toItem flags
          let rest := internalAddItem clone.2 destCylinder clone.1 indexWhereEver flags false
          ⟨.noError, if rest.ret ≠ .noError then count else 0, rest.world⟩
        else ⟨.noError, 0, w'.place g d.cylinder d.index item⟩
      else ⟨.noError, 0, w'.notifyOf g d.cylinder toItem.ref⟩
termination_by item.label.getItemCount
decreasing_by
  exact w.getItemCount_remainderItem_lt g destCylinder d item toItem flags _hcount

end World

end Canary.Inventory
