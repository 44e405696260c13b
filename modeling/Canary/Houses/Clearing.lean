import Canary.Houses.Wrapping

/-!
# Clearing a house

When a house loses its owner, the items on its tiles are sent away (`transferToDepot`). Furniture
is wrapped, what can be picked up goes as it is, and of all that holds items, but is not picked up,
the items go. Each goes to the inbox of the owner of the house, or to that of its own owner. If that
one is not online, the item is removed.

Where the inboxes have room, there are three outcomes when the turn of an item comes
(`sendItem_sent`): it stays, it is removed, or it arrives, with its count and all that it holds
(`moveItem_spec`). Since no item of the list is in another one, each of them is still what it was
when its turn comes (`sendAll_spec`). What that means for a house is in `Depot`.

Left out are what items weigh, saving the players, and all that `Wrapping` leaves out.
-/

namespace Canary.Houses.Clearing

open Inventory (Object Ref ReturnValue Thing)
open Map (Position)
open RoseTree
open Wrapping

/-! ## Players -/

structure Player where
  id : BitVec 32
  guid : BitVec 32

/-- The item types, the marks of items, and the players who are online. -/
structure Game where
  types : Catalogue
  marks : Inventory.Marks
  players : List Player

/-- `Player::playerFirstID` -/
def playerFirstID : BitVec 32 := 0x10000000

/-- `Player::playerLastID` -/
def playerLastID : BitVec 32 := 0x50000000

namespace Game

variable (g : Game)

def getPlayerByID (id : BitVec 32) : Option Player := g.players.find? fun p => p.id = id

def getPlayerByGUID (guid : BitVec 32) : Option Player :=
  if guid = 0 then none else g.players.find? fun p => p.guid = guid

/-- `getOwnerId`, of an item or a container. -/
def getOwnerId (item : Thing) : BitVec 32 := (Inventory.Thing.getOwnerId item).setWidth 32

/-- `Item::isOwner(uint32_t)` -/
def isOwnerId (item : Thing) (ownerId : BitVec 32) : Bool :=
  if getOwnerId item = ownerId then true
  else if playerFirstID ≤ ownerId ∧ ownerId ≤ playerLastID then
    (g.getPlayerByID ownerId).any fun player => player.guid = getOwnerId item
  else (g.getPlayerByGUID ownerId).any fun player => player.id = getOwnerId item

/-- `Item::isOwner`, of a player. -/
def isOwner (item : Thing) (player : Player) : Bool :=
  g.isOwnerId item player.id || g.isOwnerId item player.guid

/-- The player whom an item is sent to, when the house of this player is cleared. -/
def targetPlayer (player : Player) (item : Thing) : Option Player :=
  if getOwnerId item ≠ 0 ∧ !g.isOwner item player then g.getPlayerByGUID (getOwnerId item)
  else some player

end Game

/-! ## Moving the items -/

/-- The tiles of the map, and the inboxes of players. -/
structure State extends Wrapping.State where
  inbox : BitVec 32 → Thing

/-- An item is taken off a tile, or out of a container on it. -/
def without (t : HouseTile) (r : Ref) : HouseTile where
  down := RoseTree.without Object.ref r t.down
  top := RoseTree.without Object.ref r t.top

namespace Game

variable (g : Game)

/-- `queryRemove` of a tile or a container, for an item that it holds. -/
def queryRemove (o : Object) (count : ℕ) (ignoreNotMovable : Bool) : ReturnValue :=
  if count = 0 ∨ (o.isStackable g.types.toItemTable ∧ count > o.getItemCount) then .notPossible
  else if !o.isMovable g.types.toItemTable ∧ !ignoreNotMovable then .notMovable
  else .noError

/-- The places that an item takes up in an inbox that it is not in. -/
def addCount (item : Thing) : ℕ :=
  if item.isContainer then item.getItemHoldingCount + 1 else 1

/-- The inbox has room for the item. -/
def HasRoom (inbox item : Thing) : Prop :=
  inbox.getItemHoldingCount + addCount item ≤ inbox.maxStored

instance (inbox item : Thing) : Decidable (HasRoom inbox item) :=
  inferInstanceAs (Decidable (_ ≤ _))

/-- `Inbox::queryAdd`, without a limit. -/
def queryAdd (inbox item : Thing) : ReturnValue :=
  if !item.label.isPickupable g.types.toItemTable then .cannotPickup
  else if HasRoom inbox item then .noError
  else .depotIsFull

/-- What arrives in an inbox. A stack is cloned, and the clone gets its address here, which nothing
    else has any more. -/
def moveItem (item : Thing) (count : ℕ) : Thing :=
  if item.label.isStackable g.types.toItemTable then
    Inventory.Thing.setItemCount (Inventory.World.clone g.types.toItemTable ⟨[], [], [], 0⟩ item).1
      count
  else item

/-- `Game::internalMoveItem`, of all of an item of a tile to an inbox. An inbox is not unlocked, so
    that stacks are not merged in it (`Container::queryDestination`). -/
def internalMoveItem (p : Position) (s : State) (item : Thing) (player : Player) :
    ReturnValue × State :=
  let count := item.label.getItemCount
  let inbox := s.inbox player.guid
  let maxQueryCount := max 1 count
  let m := if item.label.isStackable g.types.toItemTable then min count maxQueryCount
    else maxQueryCount
  if g.queryRemove item.label 1 false ≠ .noError then (g.queryRemove item.label 1 false, s)
  else if g.queryAdd inbox item ≠ .noError then (g.queryAdd inbox item, s)
  else if g.queryRemove item.label m false ≠ .noError then (g.queryRemove item.label m false, s)
  else
    (.noError,
      { s with
        toState := s.setTile p (without (s.tiles p) item.ref)
        inbox := Function.update s.inbox player.guid
          (.node inbox.label (g.moveItem item m :: inbox.children)) })

/-- `Game::internalRemoveItem`, of all of an item of a tile. -/
def internalRemoveItem (p : Position) (s : State) (item : Thing) : ReturnValue × State :=
  let ret := g.queryRemove item.label item.label.getItemCount true
  if ret ≠ .noError then (ret, s)
  else if !item.label.canRemove then (.notPossible, s)
  -- an item with decay that was loaded from the map
  else if item.label.canDecay g.types.toItemTable g.marks ∧ g.marks.loadedFromMap item.ref then
    (.thisIsImpossible, s)
  else (.noError, { s with toState := s.setTile p (without (s.tiles p) item.ref) })

/-- One item of the list. If it has no parent any more, it is neither moved nor removed. -/
def sendItem (player : Player) (p : Position) (s : State) (r : Ref) : State :=
  match find? Object.ref r (s.tiles p).items with
  | none => s
  | some item =>
    match g.targetPlayer player item with
    | none => (g.internalRemoveItem p s item).2
    | some targetPlayer => (g.internalMoveItem p s item targetPlayer).2

/-- `House::transferToDepot`, of a tile. -/
def transferTile (player : Player) (s : State) (p : Position) : State :=
  let (s', moveItemList) := listItems g.types p s.toState
  moveItemList.foldl (g.sendItem player p) { s with toState := s' }

/-- The tiles of a house, one after the other. -/
def transferTiles (player : Player) (houseTiles : List Position) (s : State) : State :=
  houseTiles.foldl (g.transferTile player) s

end Game

structure House where
  townId : BitVec 32
  houseTiles : List Position
  nodup : houseTiles.Nodup

/-- `House::transferToDepot` -/
def House.transferToDepot (house : House) (g : Game) (player : Player) (s : State) :
    Bool × State :=
  if house.townId = 0 then (false, s) else (true, g.transferTiles player house.houseTiles s)

/-! ## What should arrive -/

/-- The items that should arrive as they are: those in an item that is wrapped or cannot be picked
    up, or else the item itself. -/
def listed (types : Catalogue) (t : Thing) : List Thing :=
  if types.isWrapable t.label.id ∨ !t.label.isPickupable types.toItemTable then t.children else [t]

/-- The item can be carried away. -/
def Carriable (types : Catalogue) (x : Thing) : Prop :=
  x.label.isPickupable types.toItemTable = true ∧ x.label.isMovable types.toItemTable = true ∧
    (x.label.isStackable types.toItemTable = true → x.label.getItemCount ≠ 0)

instance (types : Catalogue) (x : Thing) : Decidable (Carriable types x) :=
  inferInstanceAs (Decidable (_ ∧ _ ∧ (_ → _)))

namespace Game

variable (g : Game) (player : Player) (p : Position) (s : State)

/-- The inbox that the item is sent to has room for it, when its turn comes. -/
def accepts (r : Ref) : Bool :=
  match find? Object.ref r (s.tiles p).items with
  | none => true
  | some item =>
    match g.targetPlayer player item with
    | none => true
    | some targetPlayer => decide (HasRoom (s.inbox targetPlayer.guid) item)

def acceptsAll (s : State) : List Ref → Bool
  | [] => true
  | r :: moveItemList =>
    g.accepts player p s r && acceptsAll (g.sendItem player p s r) moveItemList

/-- The inboxes have room, all the time. -/
def acceptsTiles (s : State) : List Position → Bool
  | [] => true
  | p :: houseTiles =>
    g.acceptsAll player p { s with toState := (listItems g.types p s.toState).1 }
        (listItems g.types p s.toState).2 &&
      acceptsTiles (g.transferTile player s p) houseTiles

/-- What arrives in an inbox when the turn of an item comes. -/
def arrival (ts : List Thing) (guid : BitVec 32) (r : Ref) : Option Thing :=
  (find? Object.ref r ts).bind fun x =>
    if (g.targetPlayer player x).map Player.guid = some guid ∧ Carriable g.types x then
      some (g.moveItem x x.label.getItemCount)
    else none

end Game

/-! ## One item -/

/-- Objects are in one place only, on a tile or in an inbox. -/
structure State.Wf (types : Catalogue) (s : State) : Prop where
  tiles : s.toState.Wf types
  distinct : ∀ guid, Distinct Object.ref [s.inbox guid]
  lt : ∀ guid, ∀ r ∈ keys Object.ref [s.inbox guid], r < s.nextRef
  tile_tile : ∀ p q, p ≠ q →
    (keys Object.ref (s.tiles p).items).Disjoint (keys Object.ref (s.tiles q).items)
  tile_inbox : ∀ p guid,
    (keys Object.ref (s.tiles p).items).Disjoint (keys Object.ref [s.inbox guid])
  inbox_inbox : ∀ guid guid', guid ≠ guid' →
    (keys Object.ref [s.inbox guid]).Disjoint (keys Object.ref [s.inbox guid'])

theorem items_without (t : HouseTile) (r : Ref) :
    (without t r).items = RoseTree.without Object.ref r t.items := by
  rw [HouseTile.items, HouseTile.items, RoseTree.without, pruneForest_append]
  rfl

section moveItem

variable {g : Game} {player : Player} {p : Position} {s : State} {r : Ref}

/-- What arrives is the item, with its count and all that it holds. -/
theorem moveItem_spec {ts : List Thing} {n : Ref} {x : Thing}
    (h : Sound g.types n ts) (hx : x ∈ ts.flatMap nodes) :
    (g.moveItem x x.label.getItemCount).ref = x.ref ∧
      (g.moveItem x x.label.getItemCount).children = x.children ∧
      (g.moveItem x x.label.getItemCount).label.count = x.label.count ∧
      keys Object.ref [g.moveItem x x.label.getItemCount] = keys Object.ref [x] := by
  rw [Game.moveItem]
  split_ifs with hstack
  · have hchildren := h.heap.children_of_stackable hx hstack
    obtain ⟨o', hclone, href, -, hcount, -⟩ := Inventory.World.clone_stack g.types.toItemTable
      ⟨[], [], [], 0⟩ x.label x.label.getItemCount
    have hx' := Inventory.World.eq_stackWith hchildren
    have hcount' : o'.count = x.label.count := by
      refine BitVec.eq_of_toNat_eq (hcount.trans (Nat.mod_eq_of_lt ?_))
      exact x.label.count.isLt
    rw [← hx'] at hclone
    rw [hclone]
    refine ⟨href, ?_, hcount', ?_⟩
    · rw [hchildren]
      rfl
    · rw [hx', Inventory.World.keys_stackWith, Inventory.World.keys_stackWith, href]
      rfl
  · exact ⟨rfl, rfl, rfl, rfl⟩

/-- What becomes of an item when its turn comes: nothing, it is removed, or it arrives. -/
inductive Sent (g : Game) (player : Player) (p : Position) (s : State) (r : Ref) : State → Prop
  | stays (h : ∀ guid, g.arrival player (s.tiles p).items guid r = none) :
    Sent g player p s r s
  | removed {x : Thing} (hx : find? Object.ref r (s.tiles p).items = some x)
      (h : g.targetPlayer player x = none) :
    Sent g player p s r { s with toState := s.setTile p (without (s.tiles p) r) }
  | arrives {x : Thing} {targetPlayer : Player}
      (hx : find? Object.ref r (s.tiles p).items = some x)
      (htarget : g.targetPlayer player x = some targetPlayer) (h : Carriable g.types x) :
    Sent g player p s r
      { s with
        toState := s.setTile p (without (s.tiles p) r)
        inbox := Function.update s.inbox targetPlayer.guid
          (.node (s.inbox targetPlayer.guid).label
            (g.moveItem x x.label.getItemCount :: (s.inbox targetPlayer.guid).children)) }

/-- Where there is room, an item is moved if it can be carried away. -/
theorem internalMoveItem_eq {x : Thing} {targetPlayer : Player}
    (hroom : Game.HasRoom (s.inbox targetPlayer.guid) x) :
    (g.internalMoveItem p s x targetPlayer).2 =
      if Carriable g.types x then
        { s with
          toState := s.setTile p (without (s.tiles p) x.ref)
          inbox := Function.update s.inbox targetPlayer.guid
            (.node (s.inbox targetPlayer.guid).label
              (g.moveItem x x.label.getItemCount :: (s.inbox targetPlayer.guid).children)) }
      else s := by
  rw [Game.internalMoveItem]
  dsimp only
  by_cases h : Carriable g.types x
  · obtain ⟨hpickupable, hmovable, hcount⟩ := h
    have hremove : ∀ m, m ≠ 0 →
        (x.label.isStackable g.types.toItemTable = true → m ≤ x.label.getItemCount) →
        g.queryRemove x.label m false = .noError := by
      intro m hm hle
      rw [Game.queryRemove, if_neg (not_or.2 ⟨hm, fun h => absurd h.2 (not_lt.2 (hle h.1))⟩),
        hmovable]
      rfl
    have hadd : g.queryAdd (s.inbox targetPlayer.guid) x = .noError := by
      rw [Game.queryAdd, hpickupable, if_pos hroom]
      rfl
    have hone : g.queryRemove x.label 1 false = .noError :=
      hremove 1 Nat.one_ne_zero fun hstack => Nat.one_le_iff_ne_zero.2 (hcount hstack)
    have hcarriable : Carriable g.types x := ⟨hpickupable, hmovable, hcount⟩
    rw [hone, hadd, if_neg (not_not.2 rfl), if_neg (not_not.2 rfl), if_pos hcarriable]
    by_cases hstack : x.label.isStackable g.types.toItemTable = true
    · -- All of a stack is moved.
      have hmin : min x.label.getItemCount (max 1 x.label.getItemCount) =
          x.label.getItemCount := Nat.min_eq_left (Nat.le_max_right _ _)
      rw [if_pos hstack, hmin, hremove _ (hcount hstack) fun _ => le_rfl,
        if_neg (not_not.2 rfl)]
    · have hm : max 1 x.label.getItemCount ≠ 0 :=
        Nat.one_le_iff_ne_zero.1 (Nat.le_max_left _ _)
      rw [if_neg hstack, hremove _ hm fun h => absurd h hstack, if_neg (not_not.2 rfl),
        Game.moveItem, Game.moveItem, if_neg hstack, if_neg hstack]
  · have hrefused : g.queryRemove x.label 1 false ≠ .noError ∨
        g.queryAdd (s.inbox targetPlayer.guid) x ≠ .noError := by
      by_contra hcon
      obtain ⟨hremove, hadd⟩ := not_or.1 hcon
      refine h ⟨?_, ?_, fun hstack hzero => ?_⟩
      · by_contra hp
        have hrefused : g.queryAdd (s.inbox targetPlayer.guid) x = .cannotPickup := by
          rw [Game.queryAdd, Bool.eq_false_iff.2 hp]
          rfl
        exact hadd (hrefused ▸ ReturnValue.noConfusion)
      · by_contra hm
        rw [Game.queryRemove, Bool.eq_false_iff.2 hm] at hremove
        split_ifs at hremove <;> simp_all
      · rw [Game.queryRemove, if_pos (.inr ⟨hstack, hzero ▸ Nat.one_pos⟩)] at hremove
        exact hremove ReturnValue.noConfusion
    rw [if_neg h]
    rcases hrefused with hremove | hadd
    · rw [if_pos hremove]
    · split_ifs <;> rfl

theorem sendItem_sent (haccept : g.accepts player p s r = true) :
    Sent g player p s r (g.sendItem player p s r) := by
  rw [Game.accepts] at haccept
  rw [Game.sendItem]
  cases hfind : find? Object.ref r (s.tiles p).items with
  | none =>
    refine .stays fun guid => ?_
    rw [Game.arrival, hfind, Option.bind_none]
  | some x =>
    have href : Inventory.Thing.ref x = r := (find?_mem Object.ref hfind).2
    rw [hfind] at haccept
    dsimp only at haccept ⊢
    have hstay : ∀ guid, (g.targetPlayer player x).map Player.guid ≠ some guid ∨
        ¬Carriable g.types x → g.arrival player (s.tiles p).items guid r = none := by
      intro guid h
      rw [Game.arrival, hfind, Option.bind_some, if_neg]
      exact fun h' => h.elim (fun h => h h'.1) fun h => h h'.2
    cases htarget : g.targetPlayer player x with
    | none =>
      have hnone : ∀ guid, g.arrival player (s.tiles p).items guid r = none := fun guid =>
        hstay guid (.inl (by simp [htarget]))
      dsimp only
      rw [Game.internalRemoveItem]
      dsimp only
      split_ifs
      · exact .stays hnone
      · exact .stays hnone
      · exact .stays hnone
      · rw [href]
        exact .removed hfind htarget
    | some targetPlayer =>
      rw [htarget] at haccept
      dsimp only at haccept ⊢
      rw [internalMoveItem_eq (of_decide_eq_true haccept)]
      split_ifs with hcarriable
      · rw [href]
        exact .arrives hfind htarget hcarriable
      · exact .stays fun guid => hstay guid (.inr hcarriable)

theorem sound_without {types : Catalogue} {n : Ref} {ts : List Thing} (h : Sound types n ts)
    (r : Ref) : Sound types n (RoseTree.without Object.ref r ts) := by
  refine ⟨h.heap.pruneForest _, fun t ht hsome => ?_⟩
  obtain ⟨t', ht', hlabel, -⟩ := exists_of_mem_pruneForest ts t ht
  rw [hlabel] at hsome ⊢
  exact h.holder t' ht' hsome

theorem keys_without_subset (ts : List Thing) (r : Ref) :
    keys Object.ref (RoseTree.without Object.ref r ts) ⊆ keys Object.ref ts :=
  ((labels_pruneForest_sublist _ ts).map Object.ref).subset

/-- What is taken out is not there any more, nor is anything that it holds. -/
theorem disjoint_without {ts : List Thing} (hd : Distinct Object.ref ts) {x : Thing}
    (hx : x ∈ ts.flatMap nodes) :
    (keys Object.ref [x]).Disjoint (keys Object.ref (RoseTree.without Object.ref x.ref ts)) := by
  have hperm := (labels_pruneForest_perm (fun o : Object => decide (o.ref = x.ref)) ts).map
    Object.ref
  have hlost : lost (fun o : Object => decide (o.ref = x.ref)) ts = x.labels :=
    lost_without hd hx
  rw [hlost, List.map_append] at hperm
  have hnodup := hperm.nodup_iff.1 hd
  have hkeys : keys Object.ref [x] = x.labels.map Object.ref := by
    rw [keys, List.flatMap_singleton]
  rw [hkeys]
  exact fun k hk hk' => (List.nodup_append'.1 hnodup).2.2 hk' hk

namespace State.Wf

/-- An item is taken away. -/
theorem remove (hs : s.Wf g.types) (r : Ref) :
    State.Wf g.types { s with toState := s.setTile p (without (s.tiles p) r) } := by
  have hitems : ∀ q, (Function.update s.tiles p (without (s.tiles p) r) q).items =
      (s.tiles q).items ∨ q = p ∧ (Function.update s.tiles p (without (s.tiles p) r) q).items =
      RoseTree.without Object.ref r (s.tiles q).items := by
    intro q
    by_cases hq : q = p
    · subst hq
      rw [Function.update_self, items_without]
      exact .inr ⟨rfl, rfl⟩
    · rw [Function.update_of_ne hq]
      exact .inl rfl
  have hsubset : ∀ q, keys Object.ref (Function.update s.tiles p (without (s.tiles p) r) q).items ⊆
      keys Object.ref (s.tiles q).items := by
    intro q
    rcases hitems q with h | ⟨-, h⟩
    · rw [h]
      exact List.Subset.refl _
    · rw [h]
      exact keys_without_subset _ _
  refine ⟨fun q => ?_, hs.distinct, hs.lt, fun q q' hne k hk hk' => ?_, fun q guid k hk hk' => ?_,
    hs.inbox_inbox⟩
  · rcases hitems q with h | ⟨-, h⟩
    · exact h ▸ hs.tiles q
    · exact h ▸ sound_without (hs.tiles q) r
  · exact hs.tile_tile q q' hne (hsubset q hk) (hsubset q' hk')
  · exact hs.tile_inbox q guid (hsubset q hk) hk'

/-- An item that is nowhere else arrives. -/
theorem deliver {types : Catalogue} (hs : s.Wf types) (guid : BitVec 32) {y : Thing}
    (hd : Distinct Object.ref [y]) (hlt : ∀ r ∈ keys Object.ref [y], r < s.nextRef)
    (htile : ∀ q, (keys Object.ref [y]).Disjoint (keys Object.ref (s.tiles q).items))
    (hinbox : ∀ guid', (keys Object.ref [y]).Disjoint (keys Object.ref [s.inbox guid'])) :
    State.Wf types
      { s with
        inbox := Function.update s.inbox guid
          (.node (s.inbox guid).label (y :: (s.inbox guid).children)) } := by
  have hperm : (keys Object.ref [RoseTree.node (s.inbox guid).label
      (y :: (s.inbox guid).children)]).Perm
        (keys Object.ref [y] ++ keys Object.ref [s.inbox guid]) := by
    have hpush := keys_push Object.ref (s.inbox guid).label y (s.inbox guid).children
    generalize s.inbox guid = i at hpush ⊢
    cases i
    exact hpush
  have hkeys : ∀ guid' k, k ∈ keys Object.ref [Function.update s.inbox guid
      (.node (s.inbox guid).label (y :: (s.inbox guid).children)) guid'] →
      (guid' = guid ∧ k ∈ keys Object.ref [y]) ∨ k ∈ keys Object.ref [s.inbox guid'] := by
    intro guid' k hk
    by_cases hguid : guid' = guid
    · subst hguid
      rw [Function.update_self, hperm.mem_iff, List.mem_append] at hk
      exact hk.imp_left fun hk => ⟨rfl, hk⟩
    · rw [Function.update_of_ne hguid] at hk
      exact .inr hk
  have hdistinct : ∀ guid', Distinct Object.ref [Function.update s.inbox guid
      (.node (s.inbox guid).label (y :: (s.inbox guid).children)) guid'] := by
    intro guid'
    by_cases hguid : guid' = guid
    · subst hguid
      rw [Function.update_self, Distinct, hperm.nodup_iff, List.nodup_append']
      exact ⟨hd, hs.distinct _, hinbox _⟩
    · rw [Function.update_of_ne hguid]
      exact hs.distinct guid'
  -- Two inboxes share no key: `y` is new to all and goes to one of them.
  refine ⟨hs.tiles, hdistinct, fun guid' k hk => ?_, hs.tile_tile,
    fun q guid' k hk hk' => ?_, fun guid₁ guid₂ hne k hk hk' => ?_⟩
  · rcases hkeys guid' k hk with ⟨-, hk⟩ | hk
    · exact hlt k hk
    · exact hs.lt guid' k hk
  · rcases hkeys guid' k hk' with ⟨-, hk'⟩ | hk'
    · exact htile q hk' hk
    · exact hs.tile_inbox q guid' hk hk'
  · rcases hkeys guid₁ k hk with ⟨h₁, hy⟩ | hi
    · rcases hkeys guid₂ k hk' with ⟨h₂, -⟩ | hi'
      · exact hne (h₁.trans h₂.symm)
      · exact hinbox guid₂ hy hi'
    · rcases hkeys guid₂ k hk' with ⟨-, hy⟩ | hi'
      · exact hinbox guid₁ hy hi
      · exact hs.inbox_inbox guid₁ guid₂ hne hi hi'

end State.Wf

namespace Sent

variable {s' : State}

theorem nextRef_eq (h : Sent g player p s r s') : s'.nextRef = s.nextRef := by
  cases h <;> rfl

theorem tiles_eq (h : Sent g player p s r s') {q : Position} (hq : q ≠ p) :
    s'.tiles q = s.tiles q := by
  cases h with
  | stays => rfl
  | removed => exact Function.update_of_ne hq ..
  | arrives => exact Function.update_of_ne hq ..

/-- The item is still on the tile, or it is not. -/
theorem items_eq (h : Sent g player p s r s') : (s'.tiles p).items = (s.tiles p).items ∨
    (s'.tiles p).items = RoseTree.without Object.ref r (s.tiles p).items := by
  have hitems : (Function.update s.tiles p (without (s.tiles p) r) p).items =
      RoseTree.without Object.ref r (s.tiles p).items := by
    rw [Function.update_self, items_without]
  cases h with
  | stays => exact .inl rfl
  | removed => exact .inr hitems
  | arrives => exact .inr hitems

theorem inbox_eq (h : Sent g player p s r s') (guid : BitVec 32) :
    s'.inbox guid = .node (s.inbox guid).label
      ((g.arrival player (s.tiles p).items guid r).toList ++ (s.inbox guid).children) := by
  have hself : s.inbox guid = .node (s.inbox guid).label (s.inbox guid).children := by
    cases s.inbox guid
    rfl
  cases h with
  | stays hnone =>
    rw [hnone guid]
    exact hself
  | removed hx htarget =>
    rw [Game.arrival, hx, Option.bind_some, htarget, if_neg (by simp)]
    exact hself
  | @arrives x targetPlayer hx htarget hcarriable =>
    rw [Game.arrival, hx, Option.bind_some, htarget]
    by_cases hguid : guid = targetPlayer.guid
    · subst hguid
      rw [if_pos ⟨rfl, hcarriable⟩]
      exact Function.update_self ..
    · rw [if_neg fun h => hguid (Option.some.inj h.1).symm]
      exact (Function.update_of_ne hguid ..).trans hself

theorem wf (hs : s.Wf g.types) (h : Sent g player p s r s') : s'.Wf g.types := by
  cases h with
  | stays => exact hs
  | removed => exact hs.remove r
  | @arrives x targetPlayer hx htarget hcarriable =>
    obtain ⟨hmem, href⟩ := find?_mem Object.ref hx
    have href' : x.ref = r := href
    have hsub : keys Object.ref [x] ⊆ keys Object.ref (s.tiles p).items := by
      obtain ⟨t, ht, hxt⟩ := List.mem_flatMap.1 hmem
      exact fun k hk => mem_keys_of_mem Object.ref ht ((keys_sublist hxt).subset hk)
    obtain ⟨-, -, -, hkeys⟩ := moveItem_spec (hs.tiles p) hmem
    have hdisj := disjoint_without (hs.tiles p).heap.distinct hmem
    have hwf := hs.remove (p := p) r
    refine hwf.deliver targetPlayer.guid ?_ (fun k hk => ?_) (fun q k hk hk' => ?_)
      fun guid k hk hk' => ?_
    · rw [Distinct, hkeys]
      exact ((hs.tiles p).heap.of_mem_nodes hmem).distinct
    · exact (hs.tiles p).heap.lt k (hsub (hkeys ▸ hk))
    · rw [hkeys] at hk
      by_cases hq : q = p
      · subst hq
        have hitems : (Function.update s.tiles q (without (s.tiles q) r) q).items =
            RoseTree.without Object.ref x.ref (s.tiles q).items := by
          rw [Function.update_self, items_without, href']
        exact hdisj hk (hitems ▸ hk')
      · have htile : Function.update s.tiles p (without (s.tiles p) r) q = s.tiles q :=
          Function.update_of_ne hq ..
        exact hs.tile_tile p q (Ne.symm hq) (hsub hk) (htile ▸ hk')
    · exact hs.tile_inbox p guid (hsub (hkeys ▸ hk)) hk'

/-- Another item is found as before. -/
theorem find?_eq (hs : s.Wf g.types) (h : Sent g player p s r s') {r' : Ref}
    (hr : ∀ x, find? Object.ref r (s.tiles p).items = some x → r' ∉ keys Object.ref [x])
    (hr' : ∀ x, find? Object.ref r' (s.tiles p).items = some x → r ∉ keys Object.ref [x]) :
    find? Object.ref r' (s'.tiles p).items = find? Object.ref r' (s.tiles p).items := by
  rcases h.items_eq with hitems | hitems
  · rw [hitems]
  · rw [hitems]
    exact find?_without (hs.tiles p).heap.distinct hr hr'

/-- Another item stays on the tile. -/
theorem mem_items (h : Sent g player p s r s') {t : Thing}
    (ht : t ∈ (s.tiles p).items) (hr : t.ref ≠ r) : ∃ t' ∈ (s'.tiles p).items, t'.ref = t.ref := by
  rcases h.items_eq with hitems | hitems
  · exact ⟨t, hitems ▸ ht, rfl⟩
  · have hlabels := @map_label_pruneForest _ (fun o : Object => decide (o.ref = r))
      (s.tiles p).items
    have hmem : t.label ∈ (RoseTree.without Object.ref r (s.tiles p).items).map label := by
      have hr' : t.label.ref ≠ r := hr
      refine hlabels ▸ List.mem_filter.2 ⟨List.mem_map_of_mem ht, ?_⟩
      rw [decide_eq_false hr']
      rfl
    obtain ⟨t', ht', hlabel⟩ := List.mem_map.1 hmem
    exact ⟨t', hitems ▸ ht', congrArg Object.ref hlabel⟩

end Sent

/-! ## All items of the list -/

/-- Different addresses, none of something that is in something else of the list. -/
structure Apart (ts : List Thing) (l : List Ref) : Prop where
  nodup : l.Nodup
  eq : ∀ r ∈ l, ∀ x, find? Object.ref r ts = some x → ∀ r' ∈ l, r' ∈ keys Object.ref [x] → r' = r

/-- The turns of the items of a list, one after the other. -/
theorem sendAll_spec (hs : s.Wf g.types) {l : List Ref} (hl : Apart (s.tiles p).items l)
    (haccept : g.acceptsAll player p s l = true) :
    (l.foldl (g.sendItem player p) s).Wf g.types ∧
      (l.foldl (g.sendItem player p) s).nextRef = s.nextRef ∧
      (∀ q, q ≠ p → (l.foldl (g.sendItem player p) s).tiles q = s.tiles q) ∧
      (∀ guid, (l.foldl (g.sendItem player p) s).inbox guid = .node (s.inbox guid).label
        ((l.filterMap (g.arrival player (s.tiles p).items guid)).reverse ++
          (s.inbox guid).children)) ∧
      ∀ t ∈ (s.tiles p).items, t.ref ∉ l →
        ∃ t' ∈ ((l.foldl (g.sendItem player p) s).tiles p).items, t'.ref = t.ref := by
  induction l generalizing s with
  | nil =>
    refine ⟨hs, rfl, fun q _ => rfl, fun guid => ?_, fun t ht _ => ⟨t, ht, rfl⟩⟩
    rw [List.foldl_nil, List.filterMap_nil, List.reverse_nil, List.nil_append]
    cases s.inbox guid
    rfl
  | cons r l ih =>
    obtain ⟨hr, hl'⟩ := List.nodup_cons.1 hl.nodup
    rw [Game.acceptsAll, Bool.and_eq_true] at haccept
    have hsent := sendItem_sent haccept.1
    have hne : ∀ r' ∈ l, r' ≠ r := fun r' hr' he => hr (he ▸ hr')
    -- The others are found as before.
    have hfind : ∀ r' ∈ l, find? Object.ref r' ((g.sendItem player p s r).tiles p).items =
        find? Object.ref r' (s.tiles p).items := by
      refine fun r' hr' => hsent.find?_eq hs (fun x hx hk => ?_) fun x hx hk => ?_
      · exact hne r' hr' (hl.eq r List.mem_cons_self x hx r' (List.mem_cons_of_mem _ hr') hk)
      · exact hne r' hr' (hl.eq r' (List.mem_cons_of_mem _ hr') x hx r List.mem_cons_self hk).symm
    have harrival : ∀ guid, l.filterMap
        (g.arrival player ((g.sendItem player p s r).tiles p).items guid) =
          l.filterMap (g.arrival player (s.tiles p).items guid) := by
      refine fun guid => List.filterMap_congr fun r' hr' => ?_
      rw [Game.arrival, Game.arrival, hfind r' hr']
    have hapart : Apart ((g.sendItem player p s r).tiles p).items l := by
      refine ⟨hl', fun r' hr' x hx r'' hr'' => ?_⟩
      rw [hfind r' hr'] at hx
      exact hl.eq r' (List.mem_cons_of_mem _ hr') x hx r'' (List.mem_cons_of_mem _ hr'')
    obtain ⟨hwf, hnext, htiles, hinbox, hstay⟩ := ih (hsent.wf hs) hapart haccept.2
    rw [List.foldl_cons]
    refine ⟨hwf, hnext.trans hsent.nextRef_eq, fun q hq => ?_, fun guid => ?_, fun t ht hl => ?_⟩
    · rw [htiles q hq, hsent.tiles_eq hq]
    · rw [hinbox guid, harrival guid, hsent.inbox_eq guid, label_node, children_node,
        List.filterMap_cons]
      cases g.arrival player (s.tiles p).items guid r with
      | none => rfl
      | some y => simp
    · rw [List.mem_cons, not_or] at hl
      obtain ⟨t', ht', href⟩ := hsent.mem_items ht hl.1
      obtain ⟨t'', ht'', href'⟩ := hstay t' ht' (href ▸ hl.2)
      exact ⟨t'', ht'', href'.trans href⟩

end moveItem

end Canary.Houses.Clearing
