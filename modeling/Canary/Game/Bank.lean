import Canary.Game.Coins
import Canary.Inventory.AddMoney
import Canary.Lib.Transition
import Mathlib.Algebra.BigOperators.Group.Finset.Piecewise
import Mathlib.Algebra.Order.BigOperators.Group.Finset

/-!
# The bank

Players and guilds have a balance, a number of 64 bits, and players hold coins. Money goes
from one balance to another, from a balance to coins (`withdraw`) and from coins to a
balance (`deposit`).

In every run in which no sum exceeds 64 bits, transfers are between players, and the coins
that are given are worth the money and all land (`Sound`), balances and coins together change
by what is credited and debited, each operation changes the balances by its amount if it
succeeds and leaves them if it fails, and no player is looked for where there is none
(`conserved`). A transfer to a guild moves the money and then asks for the name of the player
the guild is not (`transferTo_guild`).

The state has the coins of each player. The inventory they lie in (`Hand`) is an argument of
the calls that give coins, as players rearrange it between the calls; so is the order in which
their stacks are found. What becomes of the coins that are given is the work of `addMoney`.
-/

namespace Canary.Game.Bank

open Transition

/-! ## Inventories -/

/-- The type of the item. -/
def Coin.id : Coin → BitVec 16
  | .gold => Inventory.itemGoldCoin
  | .platinum => Inventory.itemPlatinumCoin
  | .crystal => Inventory.itemCrystalCoin

theorem Coin.id_mem (coin : Coin) : coin.id ∈ Inventory.coins := by
  cases coin <;> decide

/-- A player with the inventory in which his coins lie. -/
structure Hand where
  game : Inventory.Game
  world : Inventory.World
  player : Inventory.PlayerId
  minted : Inventory.Minted game.types
  wellFormed : world.WellFormed game.types

namespace Hand

variable (hand : Hand)

def cylinder : Inventory.Cylinder := .player hand.player

def held : Coins := fun coin => hand.world.unitsOf hand.cylinder coin.id

/-- `Game::addMoney`: what the player holds then. What was dropped on the tile is not his. -/
def addMoney (money : BitVec 64) : Coins := fun coin =>
  (Inventory.Given.addMoney hand.game hand.cylinder 0 ⟨hand.world, []⟩ money).world.unitsOf
    hand.cylinder coin.id

/-- The coins that are made of the money are worth it, and each stack of them lands. -/
def Lands (money : BitVec 64) : Prop :=
  Inventory.RightAmount money.toNat ∧
    Inventory.Given.AllLand hand.game hand.cylinder 0 ⟨hand.world, []⟩
      (Inventory.coinStacks money)

variable {hand}

theorem Lands.addMoney {money : BitVec 64} (h : hand.Lands money) :
    (hand.addMoney money).worth = hand.held.worth + money.toNat ∧
      ∀ coin, hand.held coin ≤ hand.addMoney money coin := by
  obtain ⟨hright, hland⟩ := h
  have hunits : ∀ coin, hand.addMoney money coin =
      hand.held coin + Inventory.created (Inventory.coinStacks money) coin.id := by
    intro coin
    rw [Hand.addMoney, Inventory.addMoney_eq]
    exact Inventory.Given.unitsOf_giveAll hand.minted hand.wellFormed
      (Inventory.mem_coins_of_mem_coinStacks money) hland coin.id_mem
  refine ⟨?_, fun coin => (Nat.le_add_right _ _).trans_eq (hunits coin).symm⟩
  rw [← (Inventory.worth_coinStacks_iff money).2 hright, Coins.worth, hunits, hunits, hunits,
    Coins.worth, Inventory.worth]
  simp only [Coin.id]
  omega

end Hand

/-! ## Balances -/

inductive Bankable where
  | player (name : String) (townId : UInt32)
  | guild
  deriving DecidableEq, Repr

def Bankable.isPlayer : Bankable → Bool
  | .player .. => true
  | .guild => false

def deniedNames : List String :=
  ["accountmanager", "rooksample", "druidsample", "sorcerersample", "knightsample",
    "paladinsample"]

def minTownId : UInt32 := 3

/-- No money is transferred to these players. -/
def Bankable.denied : Bankable → Bool
  | .player name townId =>
    deniedNames.contains (String.ofList (name.toLower.toList.filter (· ≠ ' '))) ||
      townId < minTownId
  | .guild => false

structure State (I : Type*) where
  balance : I → UInt64
  coins : I → Coins
  /-- What was credited and debited, from and to elsewhere. The program does not record it. -/
  credited : Nat
  debited : Nat

variable {I : Type*} [DecidableEq I]

namespace State

def credit (s : State I) (account : I) (amount : UInt64) : State I :=
  { s with balance := Function.update s.balance account (s.balance account + amount) }

/-- The balance is reduced, unless it is too small. -/
def debit (s : State I) (account : I) (amount : UInt64) : Option (State I) :=
  if amount ≤ s.balance account then
    some { s with balance := Function.update s.balance account (s.balance account - amount) }
  else none

/-- The outer `none` is the use of a player that is not there. -/
def transferTo (who : I → Bankable) (s : State I) (source destination : I) (amount : UInt64) :
    Option (Bool × State I) :=
  if (who destination).denied then some (false, s)
  else
    match s.debit source amount with
    | none => some (false, s)
    | some s =>
      -- The metrics have the names of both players.
      if (who destination).isPlayer ∧ (who source).isPlayer then
        some (true, s.credit destination amount)
      else none

def withdraw (s : State I) (account player : I) (amount : UInt64) (hand : Hand) :
    Bool × State I :=
  match s.debit account amount with
  | none => (false, s)
  | some s =>
    (true, { s with coins := Function.update s.coins player (hand.addMoney amount.toBitVec) })

/-- The hand is that of the player when the change is given. -/
def deposit (who : I → Bankable) (s : State I) (account destination : I) (amount : UInt64)
    (items : List Stack) (hand : Hand) : Bool × State I :=
  if (who account).isPlayer then
    match removeMoney (fun _ change => hand.addMoney (BitVec.ofNat 64 change)) items
      (s.coins account) amount.toNat with
    | none => (false, s)
    | some held =>
      (true, State.credit { s with coins := Function.update s.coins account held }
        destination amount)
  else (false, s)

end State

/-- The calls. A call of `deposit` without an amount deposits all coins of the player. -/
inductive Label (I : Type*) where
  | credit (account : I) (amount : UInt64)
  | debit (account : I) (amount : UInt64)
  | transferTo (source destination : I) (amount : UInt64)
  | withdraw (account player : I) (amount : UInt64) (hand : Hand)
  | deposit (account destination : I) (amount : Option UInt64) (items : List Stack) (hand : Hand)

/-- What a call of `deposit` deposits. -/
def depositAmount (s : State I) (account : I) (amount : Option UInt64) : UInt64 :=
  amount.getD (UInt64.ofNat (s.coins account).worth)

/-- What a call answers, and the state it leaves; `none` is the use of a missing player. -/
def run (who : I → Bankable) (s : State I) : Label I → Option (Bool × State I)
  | .credit account amount =>
    some (true, { s.credit account amount with credited := s.credited + amount.toNat })
  | .debit account amount =>
    match s.debit account amount with
    | none => some (false, s)
    | some s' => some (true, { s' with debited := s.debited + amount.toNat })
  | .transferTo source destination amount => s.transferTo who source destination amount
  | .withdraw account player amount hand => some (s.withdraw account player amount hand)
  | .deposit account destination amount items hand =>
    some (s.deposit who account destination (depositAmount s account amount) items hand)

/-- The change of a deposit, if any, and the coins the player holds when it is given. -/
def depositChange (s : State I) (account : I) (amount : Option UInt64) (items : List Stack) :
    Option (Coins × Nat) :=
  changeOf (moneyMap items) (depositAmount s account amount).toNat (s.coins account)

/-- Coins are given to players, and the stacks and the hand of a call are those of the player. -/
def Applicable (who : I → Bankable) (s : State I) : Label I → Prop
  | .withdraw _ player _ hand => (who player).isPlayer = true ∧ hand.held = s.coins player
  | .deposit account _ amount items hand =>
    (who account).isPlayer = true → Splits (s.coins account) items ∧
      ∀ p, depositChange s account amount items = some p → hand.held = p.1
  | _ => True

def system (who : I → Bankable) : System (State I) (Label I) where
  init _ := True
  step s a s' := Applicable who s a ∧ ∃ r, run who s a = some (r, s')

/-! ## Runs -/

/-- By what a call that succeeds changes the balances. -/
def change (s : State I) (a : Label I) (x : I) : Int :=
  match a with
  | .credit account amount => if x = account then amount.toNat else 0
  | .debit account amount => if x = account then -amount.toNat else 0
  | .transferTo source destination amount =>
    (if x = source then -(amount.toNat : Int) else 0) +
      if x = destination then (amount.toNat : Int) else 0
  | .withdraw account _ amount _ => if x = account then -amount.toNat else 0
  | .deposit account destination amount _ _ =>
    if x = destination then (depositAmount s account amount).toNat else 0

/-- A call keeps to 64 bits, to transfers between players and to coins that are worth the money
    and land, if it comes to that. -/
def Sound (who : I → Bankable) (s : State I) : Label I → Prop
  | .credit account amount => (s.balance account).toNat + amount.toNat < 2 ^ 64
  | .debit .. => True
  | .transferTo source destination amount =>
    (who destination).denied = false → amount ≤ s.balance source →
      (who destination).isPlayer = true ∧ (who source).isPlayer = true ∧
        (source ≠ destination → (s.balance destination).toNat + amount.toNat < 2 ^ 64)
  | .withdraw account _ amount hand => amount ≤ s.balance account → hand.Lands amount.toBitVec
  | .deposit account destination amount items hand =>
    (who account).isPlayer = true →
      (depositAmount s account amount).toNat ≤ (items.map Stack.worth).sum →
        (s.balance destination).toNat + (depositAmount s account amount).toNat < 2 ^ 64 ∧
          ∀ p, depositChange s account amount items = some p →
            hand.Lands (BitVec.ofNat 64 p.2)

theorem credit_balance {s : State I} {account : I} {amount : UInt64}
    (h : (s.balance account).toNat + amount.toNat < 2 ^ 64) (x : I) :
    (((s.credit account amount).balance x).toNat : Int) =
      (s.balance x).toNat + if x = account then (amount.toNat : Int) else 0 := by
  rw [State.credit]
  dsimp only
  rcases eq_or_ne x account with rfl | hne
  · rw [Function.update_self, if_pos rfl, UInt64.toNat_add, Nat.mod_eq_of_lt h, Int.natCast_add]
  · rw [Function.update_of_ne hne, if_neg hne, add_zero]

theorem debit_balance {s s' : State I} {account : I} {amount : UInt64}
    (h : s.debit account amount = some s') :
    amount ≤ s.balance account ∧ s'.coins = s.coins ∧ s'.credited = s.credited ∧
      s'.debited = s.debited ∧
      ∀ x, ((s'.balance x).toNat : Int) =
        (s.balance x).toNat + if x = account then -(amount.toNat : Int) else 0 := by
  obtain ⟨hle, h⟩ := Option.ite_none_right_eq_some.1 h
  obtain rfl := Option.some.inj h
  refine ⟨hle, rfl, rfl, rfl, fun x => ?_⟩
  dsimp only
  rcases eq_or_ne x account with rfl | hne
  · have hnat := UInt64.le_iff_toNat_le.1 hle
    rw [Function.update_self, if_pos rfl, UInt64.toNat_sub_of_le _ _ hle]
    omega
  · rw [Function.update_of_ne hne, if_neg hne, add_zero]

variable [Fintype I]

/-- The worth of all coins that are held. -/
def State.worth (s : State I) : Int := ∑ x, ((s.coins x).worth : Int)

/-- All balances and coins. -/
def State.total (s : State I) : Int := ∑ x, ((s.balance x).toNat : Int) + s.worth

/-- By what a call that succeeds changes the worth of the coins. -/
def coinChange (s : State I) : Label I → Int
  | .withdraw _ _ amount _ => amount.toNat
  | .deposit account _ amount _ _ => -(depositAmount s account amount).toNat
  | .credit .. | .debit .. | .transferTo .. => 0

/-- What a call that succeeds credits and debits. -/
def explicit : Label I → Int
  | .credit _ amount => amount.toNat
  | .debit _ amount => -amount.toNat
  | .transferTo .. | .withdraw .. | .deposit .. => 0

/-- What a call does: if it succeeds it changes balances and coins by its amount, and
    otherwise it does not change them. -/
structure Effect (s : State I) (a : Label I) (r : Bool) (s' : State I) : Prop where
  balance : ∀ x, ((s'.balance x).toNat : Int) =
    (s.balance x).toNat + if r then change s a x else 0
  coins : s'.worth = s.worth + if r then coinChange s a else 0
  explicit : (s'.credited : Int) - s'.debited =
    s.credited - s.debited + if r then explicit a else 0

theorem effect_false (s : State I) (a : Label I) : Effect s a false s :=
  ⟨fun _ => (add_zero _).symm, (add_zero _).symm, (add_zero _).symm⟩

/-- The coins of one player change. -/
theorem worth_update (s : State I) (player : I) (held : Coins) :
    ∑ x, ((Function.update s.coins player held x).worth : Int) + (s.coins player).worth =
      s.worth + held.worth := by
  have hrest : ∑ x ∈ Finset.univ.erase player,
      ((Function.update s.coins player held x).worth : Int) =
      ∑ x ∈ Finset.univ.erase player, ((s.coins x).worth : Int) := by
    refine Finset.sum_congr rfl fun x hx => ?_
    rw [Function.update_of_ne (Finset.ne_of_mem_erase hx)]
  rw [State.worth, ← Finset.add_sum_erase _ _ (Finset.mem_univ player), hrest,
    ← Finset.add_sum_erase _ (fun x => ((s.coins x).worth : Int)) (Finset.mem_univ player),
    Function.update_self]
  omega

/-- A sound call uses no player that is missing. -/
theorem run_effect {who : I → Bankable} {s : State I} {a : Label I} (ha : Applicable who s a)
    (hs : Sound who s a) : ∃ r s', run who s a = some (r, s') ∧ Effect s a r s' := by
  cases a with
  | credit account amount =>
    refine ⟨true, _, rfl, credit_balance hs, (add_zero _).symm, ?_⟩
    rw [State.credit, if_pos rfl, explicit]
    dsimp only
    omega
  | debit account amount =>
    rw [run]
    rcases hd : s.debit account amount with _ | s'
    · exact ⟨false, s, rfl, effect_false s _⟩
    · obtain ⟨-, hcoins, hcredited, hdebited, hbal⟩ := debit_balance hd
      refine ⟨true, _, rfl, hbal, ?_, ?_⟩
      · rw [State.worth, State.worth, hcoins, if_pos rfl, coinChange, add_zero]
      · rw [if_pos rfl, explicit]
        dsimp only
        omega
  | transferTo source destination amount =>
    rw [run, State.transferTo]
    rcases hdenied : (who destination).denied with _ | _
    · rw [if_neg Bool.false_ne_true]
      rcases hd : s.debit source amount with _ | s'
      · exact ⟨false, s, rfl, effect_false s _⟩
      · obtain ⟨hle, hcoins, hcredited, hdebited, hbal⟩ := debit_balance hd
        -- Only a transfer that takes place needs the room.
        obtain ⟨hdest, hsource, hfits⟩ := hs hdenied hle
        have hcredit : (s'.balance destination).toNat + amount.toNat < 2 ^ 64 := by
          have hdestination := hbal destination
          by_cases heq : destination = source
          · -- The balance was reduced by the amount before.
            have hlt := (s.balance source).toNat_lt
            have hnat := UInt64.le_iff_toNat_le.1 hle
            rw [if_pos heq] at hdestination
            rw [heq] at hdestination ⊢
            omega
          · have hlt := hfits (Ne.symm heq)
            rw [if_neg heq] at hdestination
            omega
        dsimp only
        rw [if_pos ⟨hdest, hsource⟩]
        refine ⟨true, _, rfl, fun x => ?_, ?_, ?_⟩
        · rw [credit_balance hcredit, hbal, if_pos rfl, change, add_assoc]
        · rw [State.worth, State.worth, State.credit, hcoins, if_pos rfl, coinChange, add_zero]
        · rw [State.credit, if_pos rfl, explicit, hcredited, hdebited, add_zero]
    · rw [if_pos rfl]
      exact ⟨false, s, rfl, effect_false s _⟩
  | withdraw account player amount hand =>
    rw [run, State.withdraw]
    rcases hd : s.debit account amount with _ | s'
    · exact ⟨false, s, rfl, effect_false s _⟩
    · obtain ⟨hle, hcoins, hcredited, hdebited, hbal⟩ := debit_balance hd
      refine ⟨true, _, rfl, hbal, ?_, ?_⟩
      · -- What leaves the balance arrives as coins.
        have hworth := (hs hle).addMoney.1
        have hupdate := worth_update s player (hand.addMoney amount.toBitVec)
        rw [ha.2, UInt64.toNat_toBitVec] at hworth
        rw [State.worth, hcoins, if_pos rfl, coinChange]
        dsimp only
        omega
      · rw [if_pos rfl, explicit, hcredited, hdebited, add_zero]
  | deposit account destination amount items hand =>
    rw [run, State.deposit]
    by_cases hplayer : (who account).isPlayer = true
    · rw [if_pos hplayer]
      rcases hr : removeMoney (fun _ change => hand.addMoney (BitVec.ofNat 64 change)) items
        (s.coins account) (depositAmount s account amount).toNat with _ | held
      · exact ⟨false, s, rfl, effect_false s _⟩
      · -- `removeMoney` has found enough.
        have hle : (depositAmount s account amount).toNat ≤ (items.map Stack.worth).sum := by
          rw [removeMoney] at hr
          split at hr
          · omega
          · exact Nat.not_lt.1 (Option.ite_none_left_eq_some.1 hr).1
        obtain ⟨hsplits, hhand⟩ := ha hplayer
        obtain ⟨hlt, hlands⟩ := hs hplayer hle
        refine ⟨true, _, rfl, credit_balance hlt, ?_, ?_⟩
        · -- What leaves the coins arrives on the balance.
          have hworth : held.worth + (depositAmount s account amount).toNat =
              (s.coins account).worth := by
            refine worth_removeMoney (fun p hp => ?_) hsplits hr
            have hchange := (hlands p hp).addMoney
            have hlt := changeOf_lt hp
            rwa [hhand p hp, BitVec.toNat_ofNat, Nat.mod_eq_of_lt (by omega)] at hchange
          have hupdate := worth_update s account held
          rw [State.worth, State.credit, if_pos rfl, coinChange]
          dsimp only
          omega
        · rw [State.credit, if_pos rfl, explicit, add_zero]
    · rw [if_neg hplayer]
      exact ⟨false, s, rfl, effect_false s _⟩

/-- What a call changes is what it credits and debits. -/
theorem sum_change (s : State I) (a : Label I) :
    ∑ x, change s a x + coinChange s a = explicit a := by
  cases a <;> simp only [change, coinChange, explicit, Finset.sum_add_distrib,
    Finset.sum_ite_eq', Finset.mem_univ, if_true] <;> omega

theorem Effect.total {s s' : State I} {a : Label I} {r : Bool} (h : Effect s a r s') :
    s'.total - (s'.credited - s'.debited) = s.total - (s.credited - s.debited) := by
  have hsum : ∑ x, ((s'.balance x).toNat : Int) =
      ∑ x, ((s.balance x).toNat : Int) + if r then ∑ x, change s a x else 0 := by
    rw [Finset.sum_congr rfl fun x _ => h.balance x, Finset.sum_add_distrib]
    cases r <;> simp
  have hcoins := h.coins
  have hexplicit := h.explicit
  have hchange := sum_change s a
  rw [State.total, State.total, hsum, hcoins, hexplicit]
  cases r
  · simp
  · simp only [if_true]
    omega

/-- In every run of sound calls, balances and coins together change by what is credited and
    debited. No sound call uses a player that is missing, and it changes each balance by its
    amount, without overflow, or, if it fails, not at all. -/
theorem conserved {who : I → Bankable} {s₀ s : State I} {l : List (Label I)}
    (hr : (system who).Run (Sound who) s₀ l s) :
    s.total - s₀.total = ((s.credited : Int) - s₀.credited) - (s.debited - s₀.debited) ∧
      ∀ a, Applicable who s a → Sound who s a →
        ∃ r s', run who s a = some (r, s') ∧ Effect s a r s' := by
  refine ⟨?_, fun a => run_effect⟩
  have htotal : s.total - (s.credited - s.debited) = s₀.total - (s₀.credited - s₀.debited) := by
    refine System.Run.invariant (I := fun _ s => s.total - (s.credited - s.debited) =
      s₀.total - (s₀.credited - s₀.debited)) rfl (fun _ s₁ a s₂ h hs hstep => ?_) hr
    obtain ⟨ha, r, hrun⟩ := hstep
    obtain ⟨r', s', hrun', heffect⟩ := run_effect ha hs
    obtain ⟨rfl, rfl⟩ := Prod.mk.inj (Option.some.inj (hrun.symm.trans hrun'))
    exact heffect.total.trans h
  omega

/-- A player, and a guild. -/
def players : Bool → Bankable
  | true => .player "Rashid" 8
  | false => .guild

/-- Neither has money. -/
def poor : State Bool := ⟨fun _ => 0, fun _ _ => 0, 0, 0⟩

/-- A player with an empty bag. -/
def beginner : Inventory.World where
  players := [
    { id := 1, capacity := 10000, inventoryWeight := 0,
      inventory := fun slot => if slot = .backpack then some (Inventory.bag 0 8 []) else none }]
  tiles := []
  loose := []
  nextRef := 1

theorem wellFormed_beginner : beginner.WellFormed Inventory.coinGame.types := by
  have hforest : beginner.forest = [Inventory.bag 0 8 []] := rfl
  refine ⟨?_, List.nodup_singleton _⟩
  rw [hforest]
  refine ⟨?_, ?_, ?_, ?_⟩ <;>
    simp [RoseTree.Distinct, RoseTree.keys, RoseTree.labels_node, RoseTree.nodes_node,
      Inventory.bag, beginner, Inventory.Object.isStackable, Inventory.coinGame, Inventory.coins,
      Inventory.itemGoldCoin, Inventory.itemPlatinumCoin, Inventory.itemCrystalCoin]

def emptyHand : Hand where
  game := Inventory.coinGame
  world := beginner
  player := 1
  minted := Inventory.minted_coinGame
  wellFormed := wellFormed_beginner

/-- Two platinum coins land in the bag. -/
theorem lands_emptyHand : emptyHand.Lands 200 := by
  have hstacks : Inventory.coinStacks 200 = [(Inventory.itemPlatinumCoin, 2)] := by
    rw [Inventory.coinStacks, if_neg (by decide)]
    simp [Inventory.crystalStacks]
  refine ⟨⟨by decide, by decide, .inl (by decide)⟩, ?_⟩
  rw [hstacks]
  refine ⟨Inventory.World.lands_of_free (by decide +kernel) rfl ?_, trivial⟩
  intro c hc
  obtain rfl := Option.some.inj hc
  exact .inl (by decide +kernel)

/-- The player is credited, and withdraws some of it. -/
theorem conserved_withdraw : ∃ s : State Bool, s.balance true = 300 ∧ s.total = 500 := by
  have hcredit : (system players).Run (Sound players) poor [.credit true 500] _ :=
    .snoc .nil (show (0 : UInt64).toNat + (500 : UInt64).toNat < 2 ^ 64 by decide)
      ⟨trivial, true, rfl⟩
  have hheld : emptyHand.held = poor.coins true := by
    funext coin
    cases coin <;> rfl
  have hwithdraw : (system players).Run (Sound players) poor
      [.credit true 500, .withdraw true true 200 emptyHand] _ :=
    .snoc hcredit (fun _ => lands_emptyHand) ⟨⟨rfl, hheld⟩, true, rfl⟩
  have htotal := (conserved hwithdraw).1
  have hpoor : poor.total = 0 := rfl
  rw [hpoor, sub_zero] at htotal
  exact ⟨_, rfl, htotal⟩

/-- A transfer to a guild asks for the name of a player that is not there. -/
theorem transferTo_guild :
    ¬ ∀ (who : Bool → Bankable) (s₀ s : State Bool) (l : List (Label Bool)),
      (system who).Run (fun _ _ => True) s₀ l s →
      s.total - s₀.total = ((s.credited : Int) - s₀.credited) - (s.debited - s₀.debited) ∧
        ∀ a, Applicable who s a → ∃ r s', run who s a = some (r, s') ∧ Effect s a r s' := by
  intro h
  obtain ⟨r, s', hrun, -⟩ := (h players poor poor [] .nil).2 (.transferTo true false 0) trivial
  cases hrun

end Canary.Game.Bank
