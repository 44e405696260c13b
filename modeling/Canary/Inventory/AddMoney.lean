import Canary.Inventory.WhereEver

/-!
# Giving money

`addMoney` makes stacks of crystal, platinum and gold coins and adds each of them to a cylinder. A
stack that is refused as a whole goes to the tile of the cylinder, where there is no limit: here it
is put with what was dropped there.

* The coins made are worth the money, except where the worth of the crystal coins wraps around in
  32 bits (`worth_coinStacks_iff`).
* No coin is lost if and only if each stack lands or is refused: a rest that is refused is not
  asked for (`giveAll_eq_iff`).
-/

namespace Canary.Inventory

open RoseTree

/-! ## Coins -/

/-- `ITEM_GOLD_COIN` -/
def itemGoldCoin : BitVec 16 := 3031
/-- `ITEM_PLATINUM_COIN` -/
def itemPlatinumCoin : BitVec 16 := 3035
/-- `ITEM_CRYSTAL_COIN` -/
def itemCrystalCoin : BitVec 16 := 3043

def coins : List (BitVec 16) := [itemGoldCoin, itemPlatinumCoin, itemCrystalCoin]

/-- The coins are registered as items that stack. -/
structure Minted (types : ItemTable) : Prop where
  id : ∀ coin ∈ coins, (types.server.items coin).id = coin
  stackable : ∀ coin ∈ coins, (types.server.items coin).stackable = true

/-- The worth of so many coins of each type. -/
def worth (units : BitVec 16 → ℕ) : ℕ :=
  units itemGoldCoin + 100 * units itemPlatinumCoin + 10000 * units itemCrystalCoin

theorem worth_add (u v : BitVec 16 → ℕ) : worth (fun id => u id + v id) = worth u + worth v := by
  rw [worth, worth, worth]
  omega

/-- The types and counts of the stacks of crystal coins. -/
def crystalStacks (crystalCoins : ℕ) : List (BitVec 16 × BitVec 16) :=
  if crystalCoins = 0 then []
  else (itemCrystalCoin, BitVec.ofNat 16 (min 100 crystalCoins)) ::
    crystalStacks (crystalCoins - min 100 crystalCoins)
termination_by crystalCoins

namespace World

variable (g : Game)

/-- `Item::CreateItem`, of a registered type of the class `Item`. -/
def createItem (types : ItemTable) (w : World) (type count : BitVec 16) : Thing × World :=
  let it := types.server.items type
  let count := if it.stackable ∧ count = 0 then 1 else count
  (.node { toItem := Items.Item.new types.server .item (Items.Item.createdId types.server type)
             count,
           ref := w.nextRef } [],
    { w with nextRef := w.nextRef + 1 })

end World

/-- A state, and what has been dropped on the tile. -/
structure Given where
  world : World
  tile : List Thing

namespace Given

variable (g : Game) (cylinder : Cylinder) (flags : Flags)

/-- Make a stack of coins and add it. One that is refused is dropped. -/
def give (s : Given) (type count : BitVec 16) : Given :=
  let remaindItem := s.world.createItem g.types type count
  let a := remaindItem.2.internalAddItem g cylinder remaindItem.1 indexWhereEver flags false
  if a.ret ≠ .noError then { s with world := a.world, tile := remaindItem.1 :: s.tile }
  else { s with world := a.world }

/-- The loop over the crystal coins. -/
def giveCrystalCoins (s : Given) (crystalCoins : ℕ) : Given :=
  if crystalCoins = 0 then s
  else giveCrystalCoins
    (s.give g cylinder flags itemCrystalCoin (BitVec.ofNat 16 (min 100 crystalCoins)))
    (crystalCoins - min 100 crystalCoins)
termination_by crystalCoins

/-- `Game::addMoney` -/
def addMoney (s : Given) (money : BitVec 64) : Given :=
  if money = 0 then s
  else
    let crystalCoins : BitVec 32 := (money / 10000).setWidth 32
    let money := money - (crystalCoins * 10000).setWidth 64
    let s := s.giveCrystalCoins g cylinder flags crystalCoins.toNat
    let platinumCoins : BitVec 16 := (money / 100).setWidth 16
    let s := if platinumCoins ≠ 0 then s.give g cylinder flags itemPlatinumCoin platinumCoins else s
    let money :=
      if platinumCoins ≠ 0 then money - platinumCoins.setWidth 64 * 100 else money
    if money ≠ 0 then s.give g cylinder flags itemGoldCoin (money.setWidth 16) else s

/-- The coins of a type in the cylinder and on the tile. -/
def units (s : Given) (id : BitVec 16) : ℕ :=
  s.world.unitsOf cylinder id + (s.tile.map (Thing.units id)).sum

/-- One stack after the other. -/
def giveAll (s : Given) (piles : List (BitVec 16 × BitVec 16)) : Given :=
  piles.foldl (fun s stack => s.give g cylinder flags stack.1 stack.2) s

end Given

/-! ## The coins made -/

/-- The number of coins in a stack: 8 bits of the count, or one coin for none. -/
def createCount (count : BitVec 16) : ℕ := if count = 0 then 1 else count.toNat % 256

/-- The stacks that are made of money. -/
def coinStacks (money : BitVec 64) : List (BitVec 16 × BitVec 16) :=
  if money = 0 then []
  else
    let crystalCoins : BitVec 32 := (money / 10000).setWidth 32
    let money := money - (crystalCoins * 10000).setWidth 64
    let platinumCoins : BitVec 16 := (money / 100).setWidth 16
    let rest := if platinumCoins ≠ 0 then money - platinumCoins.setWidth 64 * 100 else money
    crystalStacks crystalCoins.toNat ++
      (if platinumCoins ≠ 0 then [(itemPlatinumCoin, platinumCoins)] else []) ++
      if rest ≠ 0 then [(itemGoldCoin, rest.setWidth 16)] else []

/-- The coins of a type in the stacks. -/
def created (piles : List (BitVec 16 × BitVec 16)) (id : BitVec 16) : ℕ :=
  (piles.map fun stack => if stack.1 = id then createCount stack.2 else 0).sum

theorem created_append (l l' : List (BitVec 16 × BitVec 16)) (id : BitVec 16) :
    created (l ++ l') id = created l id + created l' id := by
  rw [created, List.map_append, List.sum_append]
  rfl

theorem created_cons (stack : BitVec 16 × BitVec 16) (l : List (BitVec 16 × BitVec 16))
    (id : BitVec 16) :
    created (stack :: l) id = (if stack.1 = id then createCount stack.2 else 0) + created l id := by
  rw [created, List.map_cons, List.sum_cons]
  rfl

/-- All crystal coins are made, in stacks of at most 100. -/
theorem created_crystalStacks (n : ℕ) (id : BitVec 16) :
    created (crystalStacks n) id = if itemCrystalCoin = id then n else 0 := by
  induction n using crystalStacks.induct with
  | case1 =>
    rw [crystalStacks, if_pos rfl, ite_self]
    rfl
  | case2 n hn ih =>
    have hcount : createCount (BitVec.ofNat 16 (min 100 n)) = min 100 n := by
      have hne : BitVec.ofNat 16 (min 100 n) ≠ 0 := fun h => by
        have := congrArg BitVec.toNat h
        rw [BitVec.toNat_ofNat] at this
        simp at this
        omega
      rw [createCount, if_neg hne, BitVec.toNat_ofNat]
      omega
    rw [crystalStacks, if_neg hn, created_cons, ih, hcount]
    split_ifs <;> omega

theorem mem_coins_of_mem_crystalStacks (n : ℕ) :
    ∀ stack ∈ crystalStacks n, stack.1 ∈ coins := by
  induction n using crystalStacks.induct with
  | case1 =>
    rw [crystalStacks, if_pos rfl]
    exact fun _ h => absurd h List.not_mem_nil
  | case2 n hn ih =>
    rw [crystalStacks, if_neg hn]
    rintro stack hstack
    rcases List.mem_cons.1 hstack with rfl | hstack
    · exact List.mem_of_elem_eq_true rfl
    · exact ih stack hstack

theorem mem_coins_of_mem_coinStacks (money : BitVec 64) :
    ∀ stack ∈ coinStacks money, stack.1 ∈ coins := by
  intro stack hstack
  have hmem : ∀ {p : Prop} [Decidable p] {coin count : BitVec 16}, coin ∈ coins →
      stack ∈ (if p then [(coin, count)] else []) → stack.1 ∈ coins := by
    intro p _ coin count hcoin h
    split_ifs at h
    · rw [List.mem_singleton.1 h]
      exact hcoin
    · exact absurd h List.not_mem_nil
  rw [coinStacks] at hstack
  split at hstack
  · exact absurd hstack List.not_mem_nil
  · rcases List.mem_append.1 hstack with hstack | hstack
    · rcases List.mem_append.1 hstack with hstack | hstack
      · exact mem_coins_of_mem_crystalStacks _ stack hstack
      · exact hmem (by decide) hstack
    · exact hmem (by decide) hstack

/-- `addMoney` adds one stack after the other. -/
theorem addMoney_eq (g : Game) (cylinder : Cylinder) (flags : Flags) (s : Given)
    (money : BitVec 64) :
    s.addMoney g cylinder flags money = s.giveAll g cylinder flags (coinStacks money) := by
  have hcrystal : ∀ (n : ℕ) (s : Given), s.giveCrystalCoins g cylinder flags n =
      s.giveAll g cylinder flags (crystalStacks n) := by
    intro n
    induction n using crystalStacks.induct with
    | case1 =>
      intro s
      rw [Given.giveCrystalCoins, if_pos rfl, crystalStacks, if_pos rfl]
      rfl
    | case2 n hn ih =>
      intro s
      rw [Given.giveCrystalCoins, if_neg hn, ih]
      conv_rhs => rw [crystalStacks, if_neg hn]
      rfl
  rw [Given.addMoney, coinStacks]
  dsimp only
  rw [hcrystal]
  split_ifs <;> simp [Given.giveAll, List.foldl_append]

/-! ## A stack of coins -/

theorem transform_coins : ∀ coin ∈ coins, Items.itemTransformationMap coin = none := by
  intro coin hcoin
  rw [coins, List.mem_cons, List.mem_cons, List.mem_singleton] at hcoin
  rcases hcoin with rfl | rfl | rfl <;> rfl

section give

variable {g : Game} {w : World} {coin : BitVec 16} (hcoins : Minted g.types)
  (hcoin : coin ∈ coins)

include hcoins hcoin

/-- Coins are made as what they are. -/
theorem createdId_coin : Items.Item.createdId g.types.server coin = coin := by
  rw [Items.Item.createdId, hcoins.id coin hcoin, transform_coins coin hcoin, Option.getD_none]
  exact ite_self coin

/-- A new stack of coins. -/
theorem createItem_coin (w : World) (count : BitVec 16) : ∃ o : Object,
    w.createItem g.types coin count = (World.stackWith o, { w with nextRef := w.nextRef + 1 }) ∧
      o.ref = w.nextRef ∧ o.id = coin ∧ o.getItemCount = createCount count ∧
        o.storage = none := by
  have hstack := hcoins.stackable coin hcoin
  refine ⟨_, rfl, rfl, ?_, ?_, rfl⟩
  · exact (World.new_id _ _ _ _).trans (createdId_coin hcoins hcoin)
  · dsimp only
    rw [Object.getItemCount, createdId_coin hcoins hcoin]
    have hfluid : (g.types.server.items coin).hasFluid = false :=
      (g.types.stackable_plain coin hstack).1
    have hduration : ∀ item : Items.Item,
        (item.setDefaultDuration g.types.server).count = item.count := by
      intro item
      rw [Items.Item.setDefaultDuration]
      split_ifs <;> rfl
    have hcount : (if (g.types.server.items coin).stackable = true ∧ count = 0 then 1 else count) =
        if count = 0 then 1 else count := by
      simp only [hstack, true_and]
    have hne : (if count = 0 then 1 else count) ≠ 0 := by
      split
      · decide
      · assumption
    rw [hcount, Items.Item.new, if_neg (by intro h; cases h), hduration, Items.Item.withDefaultSubtype]
    dsimp only
    rw [hfluid, if_neg Bool.false_ne_true, if_pos hstack, if_pos hne, createCount,
      BitVec.toNat_setWidth]
    split
    · rfl
    · rfl

/-- A new stack is none of the things of the state. -/
theorem apart_createItem (h : w.WellFormed g.types) (count : BitVec 16) :
    (w.createItem g.types coin count).2.Apart g.types (w.createItem g.types coin count).1 := by
  obtain ⟨o, ho, href, -, -, hnone⟩ := createItem_coin hcoins hcoin w count
  rw [ho]
  exact ⟨World.heap_stackWith h.heap href.ge (href ▸ Nat.lt_succ_self _) hnone, h.players⟩

theorem units_createItem (count : BitVec 16) (id : BitVec 16) :
    Thing.units id (w.createItem g.types coin count).1 =
      if coin = id then createCount count else 0 := by
  obtain ⟨o, ho, -, hid, hcount, -⟩ := createItem_coin hcoins hcoin w count
  rw [ho, World.units_stackWith, hid, hcount]

omit hcoins hcoin in
theorem unitsOf_createItem (w : World) (type count : BitVec 16) (cylinder : Cylinder)
    (id : BitVec 16) :
    (w.createItem g.types type count).2.unitsOf cylinder id = w.unitsOf cylinder id := by
  cases cylinder <;> rfl

end give

namespace Given

variable (g : Game) (cylinder : Cylinder) (flags : Flags)

/-- The new stack lands, unless it is refused. -/
def Fits (s : Given) (type count : BitVec 16) : Prop :=
  let item := s.world.createItem g.types type count
  item.2.addReturn g cylinder item.1 indexWhereEver flags = .noError →
    item.2.Lands g cylinder flags item.1 indexWhereEver

/-- What becomes of the coins of a stack. -/
structure Gives (s s' : Given) (coin : BitVec 16) (n : ℕ) (fits : Prop) : Prop where
  wellFormed : s'.world.WellFormed g.types
  le : ∀ id, s'.units cylinder id ≤ s.units cylinder id + if coin = id then n else 0
  eq : fits → ∀ id, s'.units cylinder id = s.units cylinder id + if coin = id then n else 0
  fits : s'.units cylinder coin = s.units cylinder coin + n → fits

variable {g} {s : Given} {coin : BitVec 16}

theorem give_spec (hcoins : Minted g.types) (hcoin : coin ∈ coins)
    (h : s.world.WellFormed g.types) (count : BitVec 16) :
    Gives g cylinder s (s.give g cylinder flags coin count) coin (createCount count)
      (s.Fits g cylinder flags coin count) := by
  have hapart := apart_createItem hcoins hcoin h count
  have hunits := units_createItem (w := s.world) hcoins hcoin count
  have hkeep := unitsOf_createItem (g := g) s.world coin count cylinder
  obtain ⟨o, ho, -, hid, -⟩ := createItem_coin hcoins hcoin s.world count
  have hitem : (s.world.createItem g.types coin count).1 = World.stackWith o := by rw [ho]
  have hchildren : (s.world.createItem g.types coin count).1.children = [] := by
    rw [hitem]
    rfl
  have hlabel : (s.world.createItem g.types coin count).1.label.id = coin := by
    rw [hitem]
    exact hid
  rw [give, Fits]
  generalize s.world.createItem g.types coin count = item at hapart hunits hkeep hchildren hlabel ⊢
  by_cases hret : item.2.addReturn g cylinder item.1 indexWhereEver flags = .noError
  · -- The stack is added, perhaps in part.
    rw [World.ret_internalAddItem, if_neg (not_not.2 hret)]
    have hle := World.unitsOf_internalAddItem_le cylinder flags hapart hchildren
      (by rw [hlabel, createdId_coin hcoins hcoin])
    have hspec := World.units_internalAddItem cylinder flags _ indexWhereEver rfl hapart.heap
    rw [World.destinationOf_whereEver] at hspec
    refine ⟨World.wellFormed_internalAddItem cylinder flags _ hapart, fun id => ?_,
      fun hfits id => ?_, fun heq _ => ?_⟩
    · have := hle id
      rw [hkeep, hunits] at this
      rw [units, units]
      dsimp only
      omega
    · have := World.unitsOf_internalAddItem cylinder flags hapart hchildren (hfits hret) id
      rw [hkeep, hunits] at this
      rw [units, units]
      dsimp only
      omega
    · refine hspec.arrives.1 ⟨(World.ret_internalAddItem _ _ _ _ _).trans hret, ?_⟩
      rw [units, units] at heq
      dsimp only at heq
      rw [hlabel, hkeep, hunits, if_pos rfl]
      omega
  · rw [World.ret_internalAddItem, if_pos hret, World.internalAddItem_refused hret]
    have heq : ∀ id, units cylinder ⟨item.2, item.1 :: s.tile⟩ id =
        s.units cylinder id + if coin = id then createCount count else 0 := by
      intro id
      rw [units, units, List.map_cons, List.sum_cons, hunits, hkeep]
      omega
    exact ⟨hapart.wellFormed, fun id => (heq id).le, fun _ => heq, fun _ hret' => absurd hret' hret⟩

variable (g) in
/-- Each stack fits, in the state in which it is added. -/
def AllFit : Given → List (BitVec 16 × BitVec 16) → Prop
  | _, [] => True
  | s, stack :: piles => s.Fits g cylinder flags stack.1 stack.2 ∧
      AllFit (s.give g cylinder flags stack.1 stack.2) piles

/-- No stack adds more coins than it has, and none is lost if and only if each stack fits. -/
theorem giveAll_spec (hcoins : Minted g.types) (piles : List (BitVec 16 × BitVec 16)) :
    ∀ {s : Given}, s.world.WellFormed g.types → (∀ stack ∈ piles, stack.1 ∈ coins) →
      (∀ id, (s.giveAll g cylinder flags piles).units cylinder id ≤
        s.units cylinder id + created piles id) ∧
      ((∀ coin ∈ coins, (s.giveAll g cylinder flags piles).units cylinder coin =
        s.units cylinder coin + created piles coin) ↔ s.AllFit g cylinder flags piles) := by
  induction piles with
  | nil =>
    intro s _ _
    exact ⟨fun id => Nat.le_add_right _ _, iff_of_true (fun coin _ => rfl) trivial⟩
  | cons stack piles ih =>
    intro s h htypes
    have hcoin := htypes stack List.mem_cons_self
    have hspec := give_spec cylinder flags hcoins hcoin h stack.2
    obtain ⟨hle, hiff⟩ := ih hspec.wellFormed fun stack' hs =>
      htypes stack' (List.mem_cons_of_mem _ hs)
    have hgive : s.giveAll g cylinder flags (stack :: piles) =
        (s.give g cylinder flags stack.1 stack.2).giveAll g cylinder flags piles := rfl
    rw [hgive, AllFit, ← hiff]
    refine ⟨fun id => ?_, fun heq => ?_, fun ⟨hfits, hrest⟩ coin hmem => ?_⟩
    · have hid := hspec.le id
      have hid' := hle id
      rw [created_cons]
      omega
    · -- Nothing that is lost comes back with the later stacks.
      have hfits : s.Fits g cylinder flags stack.1 stack.2 := by
        refine hspec.fits ?_
        have hall := heq stack.1 hcoin
        have hid := hspec.le stack.1
        have hid' := hle stack.1
        rw [created_cons] at hall
        rw [if_pos rfl] at hall hid
        omega
      refine ⟨hfits, fun coin hmem => ?_⟩
      have hall := heq coin hmem
      rw [created_cons] at hall
      rw [hspec.eq hfits]
      omega
    · rw [hrest coin hmem, hspec.eq hfits, created_cons]
      omega

/-! ## Coins that all land -/

variable (g) in
/-- Each stack lands, in the state in which it is added: none is dropped. -/
def AllLand : Given → List (BitVec 16 × BitVec 16) → Prop
  | _, [] => True
  | s, stack :: piles =>
    let item := s.world.createItem g.types stack.1 stack.2
    item.2.Lands g cylinder flags item.1 indexWhereEver ∧
      AllLand (s.give g cylinder flags stack.1 stack.2) piles

variable {cylinder flags}

theorem AllLand.fits {piles : List (BitVec 16 × BitVec 16)}
    (h : s.AllLand g cylinder flags piles) :
    s.AllFit g cylinder flags piles ∧ (s.giveAll g cylinder flags piles).tile = s.tile := by
  induction piles generalizing s with
  | nil => exact ⟨trivial, rfl⟩
  | cons stack piles ih =>
    obtain ⟨hland, hrest⟩ := h
    obtain ⟨hfit, htile⟩ := ih hrest
    refine ⟨⟨fun _ => hland, hfit⟩, htile.trans ?_⟩
    rw [World.Lands] at hland
    rw [give, World.ret_internalAddItem, if_neg (not_not.2 hland.1)]

/-- Then the cylinder has all coins that have been made. -/
theorem unitsOf_giveAll (hcoins : Minted g.types) {w : World} (h : w.WellFormed g.types)
    {piles : List (BitVec 16 × BitVec 16)} (htypes : ∀ stack ∈ piles, stack.1 ∈ coins)
    (hland : AllLand g cylinder flags ⟨w, []⟩ piles) (hcoin : coin ∈ coins) :
    (giveAll g cylinder flags ⟨w, []⟩ piles).world.unitsOf cylinder coin =
      w.unitsOf cylinder coin + created piles coin := by
  obtain ⟨hfit, htile⟩ := hland.fits
  have hunits := (giveAll_spec cylinder flags hcoins piles (s := ⟨w, []⟩) h htypes).2.2 hfit
    coin hcoin
  rw [units, units, htile] at hunits
  simpa using hunits

end Given

/-! ## The worth of what is made -/

/-- The number of crystal coins fits 32 bits, and so does their worth; or their worth wraps around
    a multiple of 25 times and there is some gold, and then the other counters leave out just what
    has been too much. -/
def RightAmount (money : ℕ) : Prop :=
  let wraps := money / 10000 * 10000 / 2 ^ 32
  money / 10000 < 2 ^ 32 ∧ 25 ∣ wraps ∧ (wraps = 0 ∨ money % 100 ≠ 0)

/-- The worth of the coins made, by the money. -/
def madeWorth (money : ℕ) : ℕ :=
  let crystalCoins := money / 10000 % 2 ^ 32
  let money := money - crystalCoins * 10000 % 2 ^ 32
  let platinumCoins := money / 100 % 2 ^ 16
  let money := money - platinumCoins * 100
  10000 * crystalCoins + 100 * (platinumCoins % 256) +
    if money = 0 then 0 else if money % 2 ^ 16 = 0 then 1 else money % 2 ^ 16 % 256

/-- The hundreds of a number, and the rest. -/
theorem hundreds_unique {a b c d : ℕ} (hb : b < 100) (hd : d < 100)
    (h : 100 * c + d = 100 * a + b) : c = a ∧ d = b := by
  omega

/-- The coins that remain to be made, of `100 * a + b` and what has wrapped around `k` times: the
    platinum coins of 16 bits, of which 8 are kept, and what is left. -/
theorem platinum_gold_iff {a b k y pc e c f : ℕ} (ha : a < 100) (hb : b < 100) (hy : y < 100)
    (hc : c < 256) (hpc : pc < 65536) (hcf : pc = c + 256 * f)
    (hx : 100 * (pc + 65536 * e) + y = 100 * a + b + 4294967296 * k) :
    100 * c + (if 6553600 * e + y = 0 then 0 else if y = 0 then 1 else y) = 100 * a + b ↔
      25 ∣ k ∧ (k = 0 ∨ b ≠ 0) := by
  constructor
  · intro h
    split_ifs at h with hrest hy₀
    · -- Nothing is left: all of it was in platinum coins.
      obtain ⟨rfl, rfl⟩ : e = 0 ∧ y = 0 := by omega
      have hk : k = 0 := by
        clear hcf h
        omega
      exact ⟨hk ▸ Nat.dvd_zero 25, .inl hk⟩
    · -- An even number is not odd.
      obtain ⟨-, rfl⟩ := hundreds_unique hb (by decide) h
      clear hcf
      omega
    · obtain ⟨-, rfl⟩ := hundreds_unique hb hy h
      clear hcf
      exact ⟨by omega, .inr hy₀⟩
  · rintro ⟨⟨j, rfl⟩, hk⟩
    have hsum : 100 * (pc + 65536 * e) + y = 100 * (a + 1073741824 * j) + b := by omega
    obtain ⟨hpca, rfl⟩ := hundreds_unique hb hy hsum
    obtain ⟨rfl, rfl⟩ : pc = a ∧ e = 16384 * j := by
      clear hcf hx hsum hk
      omega
    obtain rfl : pc = c := by omega
    split_ifs <;> omega

theorem madeWorth_eq_iff (money : ℕ) : madeWorth money = money ↔ RightAmount money := by
  rw [madeWorth, RightAmount]
  by_cases hfew : money / 10000 < 2 ^ 32
  · rw [and_iff_right hfew, Nat.mod_eq_of_lt hfew]
    -- What remains of the money, with what the worth of the crystal coins has lost.
    have hrest : money - money / 10000 * 10000 % 2 ^ 32 =
        100 * (money / 100 % 100) + money % 100 + 2 ^ 32 * (money / 10000 * 10000 / 2 ^ 32) := by
      have hdiv := Nat.div_add_mod (money / 10000 * 10000) (2 ^ 32)
      have hmoney : money = money / 10000 * 10000 + (100 * (money / 100 % 100) + money % 100) := by
        omega
      generalize money / 10000 * 10000 / 2 ^ 32 = k at hdiv ⊢
      generalize money / 10000 * 10000 % 2 ^ 32 = t at hdiv ⊢
      omega
    generalize money - money / 10000 * 10000 % 2 ^ 32 = x at hrest ⊢
    have hx : 100 * (x / 100 % 65536 + 65536 * (x / 100 / 65536)) + x % 100 =
        100 * (money / 100 % 100) + money % 100 +
          4294967296 * (money / 10000 * 10000 / 2 ^ 32) := by
      refine Eq.trans ?_ hrest
      rw [Nat.mod_add_div, Nat.div_add_mod]
    rw [← platinum_gold_iff (Nat.mod_lt _ (by decide)) (Nat.mod_lt _ (by decide))
      (Nat.mod_lt x (by decide)) (Nat.mod_lt (x / 100 % 65536) (by decide : 0 < 256))
      (Nat.mod_lt _ (by decide)) (Nat.mod_add_div _ 256).symm hx]
    have hleft : x - x / 100 % 65536 * 100 = 6553600 * (x / 100 / 65536) + x % 100 := by omega
    have hgold : (6553600 * (x / 100 / 65536) + x % 100) % 65536 = x % 100 := by omega
    have hlt : x % 100 % 256 = x % 100 := Nat.mod_eq_of_lt (by omega)
    have hmoney : money = money / 10000 * 10000 + (100 * (money / 100 % 100) + money % 100) := by
      omega
    have hbits : (2 : ℕ) ^ 16 = 65536 := rfl
    rw [hbits, hleft, hgold, hlt]
    generalize (if 6553600 * (x / 100 / 65536) + x % 100 = 0 then 0
      else if x % 100 = 0 then 1 else x % 100) = gold
    omega
  · refine iff_of_false ?_ fun h => hfew h.1
    have hcrystal : 10000 * (money / 10000 % 2 ^ 32) + 2 ^ 32 * 10000 ≤ money := by omega
    have hlt : ∀ y, y % 2 ^ 16 % 256 < 256 := fun y => Nat.mod_lt _ (by decide)
    have hplatinum := hlt ((money - money / 10000 % 2 ^ 32 * 10000 % 2 ^ 32) / 100)
    generalize (money - money / 10000 % 2 ^ 32 * 10000 % 2 ^ 32) / 100 % 2 ^ 16 % 256 = p at *
    split_ifs with h₀ h₁
    · omega
    · omega
    · have hgold := hlt (money - money / 10000 % 2 ^ 32 * 10000 % 2 ^ 32 -
        (money - money / 10000 % 2 ^ 32 * 10000 % 2 ^ 32) / 100 % 2 ^ 16 * 100)
      omega

/-- The crystal coins, what remains, the platinum coins and what remains then, as numbers. -/
theorem toNat_coinCounts (money : BitVec 64) :
    let crystalCoins : BitVec 32 := (money / 10000).setWidth 32
    let money' := money - (crystalCoins * 10000).setWidth 64
    let platinumCoins : BitVec 16 := (money' / 100).setWidth 16
    crystalCoins.toNat = money.toNat / 10000 % 2 ^ 32 ∧
      money'.toNat = money.toNat - crystalCoins.toNat * 10000 % 2 ^ 32 ∧
      platinumCoins.toNat = money'.toNat / 100 % 2 ^ 16 ∧
      (money' - platinumCoins.setWidth 64 * 100).toNat =
        money'.toNat - platinumCoins.toNat * 100 := by
  intro crystalCoins money' platinumCoins
  have hcrystal : crystalCoins.toNat = money.toNat / 10000 % 2 ^ 32 := by
    rw [BitVec.toNat_setWidth, BitVec.toNat_udiv]
    rfl
  have hworth : ((crystalCoins * 10000).setWidth 64).toNat =
      crystalCoins.toNat * 10000 % 2 ^ 32 := by
    rw [BitVec.toNat_setWidth_of_le (by decide), BitVec.toNat_mul]
    rfl
  have hplatinum : platinumCoins.toNat = money'.toNat / 100 % 2 ^ 16 := by
    rw [BitVec.toNat_setWidth, BitVec.toNat_udiv]
    rfl
  have hworth' : (platinumCoins.setWidth 64 * 100).toNat = platinumCoins.toNat * 100 := by
    rw [BitVec.toNat_mul, BitVec.toNat_setWidth_of_le (by decide)]
    have hlt := platinumCoins.isLt
    have hvalue : BitVec.toNat (100 : BitVec 64) = 100 := rfl
    rw [hvalue]
    exact Nat.mod_eq_of_lt (by omega)
  refine ⟨hcrystal, ?_, hplatinum, ?_⟩
  · rw [BitVec.toNat_sub_of_le, hworth]
    rw [BitVec.le_def, hworth, hcrystal]
    omega
  · rw [BitVec.toNat_sub_of_le, hworth']
    rw [BitVec.le_def, hworth', hplatinum]
    omega

/-- The coins of a type in a stack that is made if there are any. -/
theorem created_ite {p : Prop} [Decidable p] (coin count id : BitVec 16) :
    created (if p then [(coin, count)] else []) id =
      if p ∧ coin = id then createCount count else 0 := by
  by_cases hp : p
  · rw [if_pos hp, created_cons]
    simp only [hp, true_and]
    rfl
  · rw [if_neg hp, if_neg fun h => hp h.1]
    rfl

theorem createCount_eq (count : BitVec 16) :
    createCount count = if count.toNat = 0 then 1 else count.toNat % 256 :=
  if_congr BitVec.toNat_inj.symm rfl rfl

theorem worth_coinStacks (money : BitVec 64) :
    worth (created (coinStacks money)) = madeWorth money.toNat := by
  rcases eq_or_ne money 0 with rfl | hmoney
  · rfl
  · obtain ⟨hcrystal, hrest, hplatinum, hgold⟩ := toNat_coinCounts money
    rw [madeWorth, coinStacks, if_neg hmoney]
    dsimp only
    rw [← hcrystal, ← hrest, ← hplatinum, ← hgold]
    generalize ((money / 10000).setWidth 32 : BitVec 32) = crystalCoins
    generalize money - (crystalCoins * 10000).setWidth 64 = money'
    generalize ((money' / 100).setWidth 16 : BitVec 16) = platinumCoins
    -- Subtracting no platinum coins changes nothing, so the branch can go.
    have hleft : (if platinumCoins ≠ 0 then money' - platinumCoins.setWidth 64 * 100 else money') =
        money' - platinumCoins.setWidth 64 * 100 := by
      split_ifs with hp
      · rfl
      · rw [not_not.1 hp]
        exact (BitVec.sub_zero money').symm
    rw [hleft]
    generalize money' - platinumCoins.setWidth 64 * 100 = rest
    have hrest₀ : rest = 0 ↔ rest.toNat = 0 := by
      rw [← BitVec.toNat_inj]
      rfl
    -- A count whose low 16 bits are 0 still makes one coin.
    have hcount : createCount (rest.setWidth 16) =
        if rest.toNat % 2 ^ 16 = 0 then 1 else rest.toNat % 2 ^ 16 % 256 := by
      rw [createCount_eq, BitVec.toNat_setWidth]
    have hplat : (if platinumCoins ≠ 0 then createCount platinumCoins else 0) =
        platinumCoins.toNat % 256 := by
      split_ifs with hp
      · rw [createCount, if_neg hp]
      · rw [not_not.1 hp]
        rfl
    have hdistinct : itemCrystalCoin ≠ itemGoldCoin ∧ itemCrystalCoin ≠ itemPlatinumCoin ∧
        itemPlatinumCoin ≠ itemGoldCoin := by
      decide
    rw [worth]
    simp only [created_append, created_crystalStacks, created_ite, hdistinct.1, hdistinct.2.1,
      hdistinct.2.2, hdistinct.1.symm, hdistinct.2.1.symm, hdistinct.2.2.symm, if_false, if_true,
      and_false, and_true, hplat, hcount]
    simp only [ne_eq, ite_not, hrest₀]
    omega

theorem worth_coinStacks_iff (money : BitVec 64) :
    worth (created (coinStacks money)) = money.toNat ↔ RightAmount money.toNat := by
  rw [worth_coinStacks, madeWorth_eq_iff]

/-! ## Exactness -/

namespace Given

/-- The coins in the cylinder and on the tile are worth so much more, and none of the coins that
    have been made is lost. -/
structure Exact (cylinder : Cylinder) (s s' : Given) (money : BitVec 64) : Prop where
  worth_eq : worth (s'.units cylinder) = worth (s.units cylinder) + money.toNat
  kept : ∀ coin ∈ coins,
    s'.units cylinder coin = s.units cylinder coin + created (coinStacks money) coin

/-- `addMoney` gives exactly the money if and only if the coins that it makes are worth it and each
    stack of them fits where it is added. -/
theorem addMoney_exact_iff {g : Game} {s : Given} (hcoins : Minted g.types)
    (h : s.world.WellFormed g.types) (cylinder : Cylinder) (flags : Flags) (money : BitVec 64) :
    Exact cylinder s (s.addMoney g cylinder flags money) money ↔
      RightAmount money.toNat ∧ s.AllFit g cylinder flags (coinStacks money) := by
  obtain ⟨-, hiff⟩ := giveAll_spec cylinder flags hcoins (coinStacks money) h
    (mem_coins_of_mem_coinStacks money)
  rw [addMoney_eq, ← worth_coinStacks_iff, ← hiff]
  generalize s.giveAll g cylinder flags (coinStacks money) = s'
  have hworth : (∀ coin ∈ coins,
      s'.units cylinder coin = s.units cylinder coin + created (coinStacks money) coin) →
      worth (s'.units cylinder) =
        worth (s.units cylinder) + worth (created (coinStacks money)) := by
    intro hkept
    rw [worth, worth, worth, hkept _ (by decide), hkept _ (by decide), hkept _ (by decide)]
    omega
  constructor
  · rintro ⟨hworth', hkept⟩
    rw [hworth hkept] at hworth'
    exact ⟨Nat.add_left_cancel hworth', hkept⟩
  · rintro ⟨hmade, hkept⟩
    exact ⟨by rw [hworth hkept, hmade], hkept⟩

end Given

/-! ## A traveller who is short of room -/

/-- Items are coins, or plain. -/
def coinGame : Game where
  types :=
    { server := { quiverlessGame.types.server with
        items := fun id => { id, group := .none, type := .other, stackable := coins.contains id,
                             movable := true, charges := 0, decayTime := 0 } }
      traits := fun _ => { weight := 10 }
      stackable_plain := fun _ _ => ⟨rfl, rfl⟩ }
  maxContainer := 100
  isOwner := fun _ _ => true
  onPlayerEquip := fun _ _ _ => true

theorem minted_coinGame : Minted coinGame.types :=
  ⟨fun _ _ => rfl, fun _ hcoin => List.contains_iff_mem.2 hcoin⟩

def goldCoins (r : Ref) (n : BitVec 8) : Thing :=
  .node { class_ := .item, id := itemGoldCoin, count := n, ref := r } []

/-- A bag with so many places. -/
def bag (r : Ref) (places : BitVec 16) (items : List Thing) : Thing :=
  .node { class_ := .container, id := 2853, count := 1, ref := r,
          storage := some { maxSize := places, maxItems := 100 } } items

/-- A player with a bag of one place, in which there is a gold coin, who may carry 70 more. -/
def traveller : World where
  players := [
    { id := 1, capacity := 720, inventoryWeight := 20,
      inventory := fun slot => if slot = .backpack then some (bag 0 1 [goldCoins 1 1]) else none }]
  tiles := []
  loose := []
  nextRef := 2

theorem wellFormed_traveller : traveller.WellFormed coinGame.types := by
  have hforest : traveller.forest = [bag 0 1 [goldCoins 1 1]] := rfl
  refine ⟨?_, List.nodup_singleton _⟩
  rw [hforest]
  refine ⟨?_, ?_, ?_, ?_⟩ <;>
    simp [Distinct, keys, labels_node, nodes_node, bag, goldCoins, traveller, Object.isStackable,
      coinGame, coins, itemGoldCoin, itemPlatinumCoin, itemCrystalCoin]

theorem coinStacks_fifty : coinStacks 50 = [(itemGoldCoin, 50)] := by
  rw [coinStacks, if_neg (by decide)]
  simp [crystalStacks]

/-- 50 gold coins are given to the one in the bag: the stack has room for 99, which is more than
    the player may carry, hence for none. The coins are gone. -/
theorem traveller_loses_money :
    Minted coinGame.types ∧ traveller.WellFormed coinGame.types ∧
      ¬ Given.Exact (.player 1) ⟨traveller, []⟩
        (Given.addMoney coinGame (.player 1) 0 ⟨traveller, []⟩ 50) 50 := by
  refine ⟨minted_coinGame, wellFormed_traveller, fun hexact => ?_⟩
  have hgold := hexact.kept itemGoldCoin (by decide)
  have hret : (traveller.createItem coinGame.types itemGoldCoin 50).2.addReturn coinGame
      (.player 1) (traveller.createItem coinGame.types itemGoldCoin 50).1 indexWhereEver 0 =
        .noError := by
    decide +kernel
  -- The stack that the coins are added to.
  have hm : (traveller.createItem coinGame.types itemGoldCoin 50).2.merged coinGame
      ((traveller.createItem coinGame.types itemGoldCoin 50).2.queryDestination coinGame
        (.player 1) indexWhereEver (traveller.createItem coinGame.types itemGoldCoin 50).1 none 0)
      (traveller.createItem coinGame.types itemGoldCoin 50).1 = some (goldCoins 1 1) := rfl
  rw [addMoney_eq, coinStacks_fifty, Given.giveAll, List.foldl_cons, List.foldl_nil, Given.give,
    World.internalAddItem_filled hret rfl hm (by decide +kernel)] at hgold
  revert hgold
  decide +kernel

theorem traveller_exact_iff :
    Given.Exact (.player 1) ⟨traveller, []⟩
        (Given.addMoney coinGame (.player 1) 0 ⟨traveller, []⟩ 50) 50 ↔
      RightAmount (50 : BitVec 64).toNat ∧
        Given.AllFit coinGame (.player 1) 0 ⟨traveller, []⟩ (coinStacks 50) :=
  Given.addMoney_exact_iff minted_coinGame wellFormed_traveller (.player 1) 0 50

end Canary.Inventory
