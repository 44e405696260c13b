import Mathlib.Algebra.BigOperators.Group.List.Basic
import Mathlib.Algebra.Order.BigOperators.Group.List
import Mathlib.Data.List.Sort
import Mathlib.Algebra.Order.Ring.Int
import Mathlib.Algebra.Order.Ring.Nat

/-!
# Coins

A player pays with the stacks of coins he holds, in the order of their worth (`removeStacks`). Of
the last one so many coins are taken that they are worth what is left to be paid or more, and the
change is given before.

What is paid is the money if and only if the change comes to the player as a whole
(`worth_removeStacks_iff`).
-/

namespace Canary.Game.Bank

/-! ## Coins -/

inductive Coin where
  | gold
  | platinum
  | crystal
  deriving DecidableEq, Repr

def Coin.value : Coin → Nat
  | .gold => 1
  | .platinum => 100
  | .crystal => 10000

/-- How many coins of each kind are held. -/
abbrev Coins := Coin → Nat

namespace Coins

def worth (held : Coins) : Nat := held .gold + 100 * held .platinum + 10000 * held .crystal

def add (held : Coins) (coin : Coin) (n : Nat) : Coins :=
  Function.update held coin (held coin + n)

def remove (held : Coins) (coin : Coin) (n : Nat) : Coins :=
  Function.update held coin (held coin - n)

end Coins

/-- A stack of coins. -/
structure Stack where
  coin : Coin
  count : UInt8
  deriving DecidableEq, Repr

def Stack.worth (stack : Stack) : Nat := stack.count.toNat * stack.coin.value

/-- The coins that are held after `addMoney`, of those held before and the money. -/
abbrev Gives := Coins → Nat → Coins

/-- The loop of `removeMoney`, through the stacks in the order of their worth. -/
def removeStacks (gives : Gives) : List Stack → Nat → Coins → Coins
  | [], _, held => held
  | stack :: items, money, held =>
    if stack.worth < money then
      removeStacks gives items (money - stack.worth) (held.remove stack.coin stack.count.toNat)
    else if stack.worth > money then
      -- The change is given before the coins are taken.
      let removeCount := (money + stack.coin.value - 1) / stack.coin.value
      (gives held (stack.coin.value * removeCount - money)).remove stack.coin removeCount
    else held.remove stack.coin stack.count.toNat

/-- The stacks in the order of their worth, without those of none. -/
def moneyMap (items : List Stack) : List Stack :=
  (items.filter fun stack => stack.worth ≠ 0).insertionSort fun a b => a.worth ≤ b.worth

/-- `Game::removeMoney`, for a player who holds the stacks. -/
def removeMoney (gives : Gives) (items : List Stack) (held : Coins) (money : Nat) :
    Option Coins :=
  if money = 0 then some held
  else if (items.map Stack.worth).sum < money then none
  else some (removeStacks gives (moneyMap items) money held)

/-- How many coins of a kind are in the stacks. -/
def countOf (items : List Stack) (coin : Coin) : Nat :=
  ((items.filter fun stack => stack.coin = coin).map fun stack => stack.count.toNat).sum

/-- The stacks are the coins a player holds. -/
def Splits (held : Coins) (items : List Stack) : Prop := ∀ coin, countOf items coin = held coin

/-! ## The worth of coins -/

theorem worth_add (held : Coins) (coin : Coin) (n : Nat) :
    (held.add coin n).worth = held.worth + n * coin.value := by
  cases coin <;> simp [Coins.add, Coins.worth, Coin.value, Function.update] <;> omega

theorem worth_remove (held : Coins) (coin : Coin) {n : Nat} (h : n ≤ held coin) :
    (held.remove coin n).worth + n * coin.value = held.worth := by
  cases coin <;> simp [Coins.remove, Coins.worth, Coin.value, Function.update] <;> omega

/-! ## Removing coins -/

theorem countOf_cons (stack : Stack) (items : List Stack) (coin : Coin) :
    countOf (stack :: items) coin =
      (if coin = stack.coin then stack.count.toNat else 0) + countOf items coin := by
  rw [countOf, countOf, List.filter_cons]
  by_cases h : stack.coin = coin
  · rw [if_pos (decide_eq_true h), if_pos h.symm, List.map_cons, List.sum_cons]
  · rw [if_neg (by simpa using h), if_neg (Ne.symm h), Nat.zero_add]

/-- The coins that are held when the change is given, and the change. -/
def changeOf : List Stack → Nat → Coins → Option (Coins × Nat)
  | [], _, _ => none
  | stack :: items, money, held =>
    if stack.worth < money then
      changeOf items (money - stack.worth) (held.remove stack.coin stack.count.toNat)
    else if stack.worth > money then
      let removeCount := (money + stack.coin.value - 1) / stack.coin.value
      some (held, stack.coin.value * removeCount - money)
    else none

/-- The change, if any, is added as a whole. -/
def KeepsChange (gives : Gives) (items : List Stack) (money : Nat) (held : Coins) : Prop :=
  ∀ p, changeOf items money held = some p → (gives p.1 p.2).worth = p.1.worth + p.2

/-- The change is less than a coin. -/
theorem changeOf_lt {items : List Stack} {money : Nat} {held : Coins} {p : Coins × Nat}
    (h : changeOf items money held = some p) : p.2 < 10000 := by
  induction items generalizing money held with
  | nil => cases h
  | cons stack items ih =>
    rw [changeOf] at h
    split at h
    · exact ih h
    · split at h
      · obtain rfl := Option.some.inj h
        have hvalue : 0 < stack.coin.value ∧ stack.coin.value ≤ 10000 := by
          cases stack.coin <;> decide
        have hle := Nat.mul_div_le (money + stack.coin.value - 1) stack.coin.value
        dsimp only
        omega
      · cases h

/-- The coins lose the money, or all if they are worth less, if and only if the change is kept. -/
theorem worth_removeStacks_iff {gives : Gives} {items : List Stack} {money : Nat} {held : Coins}
    (hgives : ∀ p, changeOf items money held = some p → ∀ coin, p.1 coin ≤ gives p.1 p.2 coin)
    (hpos : 0 < money) (hheld : ∀ coin, countOf items coin ≤ held coin) :
    (removeStacks gives items money held).worth + min money (items.map Stack.worth).sum =
      held.worth ↔ KeepsChange gives items money held := by
  induction items generalizing money held with
  | nil =>
    rw [removeStacks, List.map_nil, List.sum_nil, Nat.min_zero, Nat.add_zero]
    exact iff_of_true rfl fun _ h => nomatch h
  | cons stack items ih =>
    have hself := hheld stack.coin
    rw [countOf_cons, if_pos rfl] at hself
    have hcount : stack.count.toNat ≤ held stack.coin := by omega
    have hremove := worth_remove held stack.coin hcount
    rw [← Stack.worth] at hremove
    rw [changeOf] at hgives
    rw [List.map_cons, List.sum_cons, removeStacks, KeepsChange, changeOf]
    split
    · next hlt =>
      rw [if_pos hlt] at hgives
      have hheld' : ∀ coin, countOf items coin ≤ held.remove stack.coin stack.count.toNat coin := by
        intro coin
        have hcoin := hheld coin
        rw [countOf_cons] at hcoin
        rw [Coins.remove]
        rcases eq_or_ne coin stack.coin with rfl | hne
        · rw [if_pos rfl] at hcoin
          rw [Function.update_self]
          omega
        · rw [if_neg hne] at hcoin
          rw [Function.update_of_ne hne]
          omega
      rw [← KeepsChange, ← ih hgives (by omega) hheld']
      omega
    · next hnlt =>
      rw [if_neg hnlt] at hgives
      split
      · -- A part of the stack is removed, and the change is given.
        next hgt =>
        rw [if_pos hgt] at hgives
        have hvalue : 0 < stack.coin.value ∧ stack.coin.value ≤ 10000 := by
          cases stack.coin <;> decide
        -- So many coins are worth the money or more, and one coin less is not.
        obtain ⟨n, hn⟩ : ∃ n, (money + stack.coin.value - 1) / stack.coin.value = n := ⟨_, rfl⟩
        have hlower : money ≤ stack.coin.value * n := by
          have := Nat.lt_div_mul_add hvalue.1 (a := money + stack.coin.value - 1)
          rw [hn, Nat.mul_comm] at this
          omega
        have hupper : stack.coin.value * n ≤ money + stack.coin.value - 1 := by
          rw [← hn]
          exact Nat.mul_div_le _ _
        have hle : n ≤ stack.count.toNat := by
          have hlt : stack.coin.value * n < stack.coin.value * (stack.count.toNat + 1) := by
            rw [Nat.mul_succ]
            have hw : stack.worth = stack.coin.value * stack.count.toNat := Nat.mul_comm _ _
            omega
          exact Nat.lt_succ_iff.1 (Nat.lt_of_mul_lt_mul_left hlt)
        have hmore := hgives _ rfl stack.coin
        dsimp only at hmore
        rw [hn] at hmore
        have hpart := worth_remove (gives held (stack.coin.value * n - money)) stack.coin
          (hle.trans (hcount.trans hmore))
        rw [Nat.mul_comm n] at hpart
        dsimp only
        rw [hn]
        have hiff : (∀ p, some (held, stack.coin.value * n - money) = some p →
            (gives p.1 p.2).worth = p.1.worth + p.2) ↔
            (gives held (stack.coin.value * n - money)).worth =
              held.worth + (stack.coin.value * n - money) :=
          ⟨fun h => h _ rfl, fun h p hp => Option.some.inj hp ▸ h⟩
        rw [hiff]
        omega
      · exact iff_of_true (by omega) fun _ h => nomatch h

theorem countOf_le_of_sublist {items items' : List Stack} (h : items.Sublist items') (coin : Coin) :
    countOf items coin ≤ countOf items' coin :=
  ((h.filter _).map _).sum_le_sum fun _ _ => Nat.zero_le _

theorem sum_worth_filter (items : List Stack) :
    ((items.filter fun stack => stack.worth ≠ 0).map Stack.worth).sum =
      (items.map Stack.worth).sum := by
  induction items with
  | nil => rfl
  | cons stack items ih =>
    rw [List.filter_cons]
    by_cases h : stack.worth = 0
    · rw [if_neg (by simpa using h), ih, List.map_cons, List.sum_cons, h, Nat.zero_add]
    · rw [if_pos (by simpa using h), List.map_cons, List.sum_cons, ih, List.map_cons, List.sum_cons]

/-- In the order of their worth, and without those of none, stacks are worth as much. -/
theorem sum_worth_moneyMap (items : List Stack) :
    ((moneyMap items).map Stack.worth).sum = (items.map Stack.worth).sum := by
  rw [moneyMap, ((List.perm_insertionSort _ _).map _).sum_eq, sum_worth_filter]

theorem countOf_moneyMap_le (items : List Stack) (coin : Coin) :
    countOf (moneyMap items) coin ≤ countOf items coin := by
  have hperm := List.perm_insertionSort (fun a b : Stack => a.worth ≤ b.worth)
    (items.filter fun stack => stack.worth ≠ 0)
  have hsum : countOf (moneyMap items) coin = countOf _ coin := ((hperm.filter _).map _).sum_eq
  rw [hsum]
  exact countOf_le_of_sublist List.filter_sublist coin

/-- What a player pays is what his coins are worth less, if the change comes to him. -/
theorem worth_removeMoney {gives : Gives} {items : List Stack} {held held' : Coins} {money : Nat}
    (hgives : ∀ p, changeOf (moneyMap items) money held = some p →
      (gives p.1 p.2).worth = p.1.worth + p.2 ∧ ∀ coin, p.1 coin ≤ gives p.1 p.2 coin)
    (hsplits : Splits held items) (h : removeMoney gives items held money = some held') :
    held'.worth + money = held.worth := by
  rw [removeMoney] at h
  split at h
  · next hzero =>
    obtain rfl := Option.some.inj h
    rw [hzero, Nat.add_zero]
  · next hzero =>
    split at h
    · cases h
    · next hle =>
      obtain rfl := Option.some.inj h
      have hiff := worth_removeStacks_iff (fun p hp => (hgives p hp).2)
        (Nat.pos_of_ne_zero hzero) fun coin =>
          (countOf_moneyMap_le items coin).trans (hsplits coin).le
      have hworth := hiff.2 fun p hp => (hgives p hp).1
      rwa [sum_worth_moneyMap, Nat.min_eq_left (Nat.not_lt.1 hle)] at hworth

/-! ## How many coins of a stack are taken -/

/-- How many coins of a stack are taken by a player who holds some; the others go to the
    ground, or are lost. -/
abbrev Takes := Coins → Coin → Nat → Nat

/-- The count of an item that is created: 16 bits of it, at least 1, of which 8 are kept. -/
def createCount (n : Nat) : Nat := if n % 2 ^ 16 = 0 then 1 else n % 2 ^ 16 % 2 ^ 8

/-- `internalAddItem`, of a stack of coins. -/
def addStack (takes : Takes) (held : Coins) (coin : Coin) (n : Nat) : Coins :=
  held.add coin (takes held coin (createCount n))

/-- The loop of `addMoney`, by stacks of at most 100 crystal coins. -/
def addCrystalCoins (takes : Takes) (crystalCoins : Nat) (held : Coins) : Coins :=
  if crystalCoins = 0 then held
  else addCrystalCoins takes (crystalCoins - min 100 crystalCoins)
    (addStack takes held .crystal (min 100 crystalCoins))
termination_by crystalCoins

/-- `Game::addMoney`. The number of crystal coins has 32 bits, and so has their worth. -/
def addMoney (takes : Takes) (held : Coins) (money : Nat) : Coins :=
  if money = 0 then held
  else
    let crystalCoins := money / 10000 % 2 ^ 32
    let money := money - crystalCoins * 10000 % 2 ^ 32
    let held := addCrystalCoins takes crystalCoins held
    let platinumCoins := money / 100 % 2 ^ 16
    let held := if platinumCoins ≠ 0 then addStack takes held .platinum platinumCoins else held
    let money := if platinumCoins ≠ 0 then money - platinumCoins * 100 else money
    if money ≠ 0 then addStack takes held .gold money else held

/-- A player has room for all coins. -/
def TakesAll (takes : Takes) : Prop := ∀ held coin n, takes held coin n = n

section

variable {takes : Takes} (htakes : TakesAll takes)

include htakes

theorem worth_addStack (held : Coins) (coin : Coin) {n : Nat} (h₀ : 0 < n) (hn : n < 2 ^ 8) :
    (addStack takes held coin n).worth = held.worth + n * coin.value := by
  have hcount : createCount n = n := by
    rw [createCount, Nat.mod_eq_of_lt (by omega), if_neg (by omega), Nat.mod_eq_of_lt hn]
  rw [addStack, htakes, hcount, worth_add]

theorem worth_addCrystalCoins (n : Nat) (held : Coins) :
    (addCrystalCoins takes n held).worth = held.worth + n * 10000 := by
  induction n, held using addCrystalCoins.induct takes with
  | case1 held => rw [addCrystalCoins, if_pos rfl, Nat.zero_mul, Nat.add_zero]
  | case2 n held hn ih =>
    rw [addCrystalCoins, if_neg hn, ih, worth_addStack htakes held .crystal (by omega) (by omega),
      Coin.value]
    omega

/-- With less than 429497 crystal coins, what is added is the money. -/
theorem worth_addMoney (held : Coins) {money : Nat} (hmoney : money < 4294970000) :
    (addMoney takes held money).worth = held.worth + money := by
  have hcrystal : money / 10000 % 2 ^ 32 = money / 10000 := Nat.mod_eq_of_lt (by omega)
  have hworth : money / 10000 * 10000 % 2 ^ 32 = money / 10000 * 10000 :=
    Nat.mod_eq_of_lt (by omega)
  have hrest : money - money / 10000 * 10000 = money % 10000 := by omega
  have hplatinum : money % 10000 / 100 % 2 ^ 16 = money % 10000 / 100 :=
    Nat.mod_eq_of_lt (by omega)
  rw [addMoney]
  split
  · next h => rw [h, Nat.add_zero]
  · dsimp only
    rw [hcrystal, hworth, hrest, hplatinum]
    have hcrystals := worth_addCrystalCoins htakes (money / 10000) held
    by_cases hp : money % 10000 / 100 = 0
    · rw [if_neg (not_not.2 hp), if_neg (not_not.2 hp)]
      split
      · rw [worth_addStack htakes _ .gold (by omega) (by omega), hcrystals, Coin.value]
        omega
      · omega
    · rw [if_pos hp, if_pos hp]
      have hplat := worth_addStack htakes (addCrystalCoins takes (money / 10000) held) .platinum
        (n := money % 10000 / 100) (by omega) (by omega)
      rw [hcrystals, Coin.value] at hplat
      split
      · rw [worth_addStack htakes _ .gold (by omega) (by omega), hplat, Coin.value]
        omega
      · omega

end

theorem le_add (held : Coins) (coin coin' : Coin) (n : Nat) :
    held coin' ≤ held.add coin n coin' := by
  rw [Coins.add]
  rcases eq_or_ne coin' coin with rfl | hne
  · rw [Function.update_self]
    exact Nat.le_add_right _ _
  · rw [Function.update_of_ne hne]

theorem le_addCrystalCoins (takes : Takes) (n : Nat) (held : Coins) (coin : Coin) :
    held coin ≤ addCrystalCoins takes n held coin := by
  induction n, held using addCrystalCoins.induct takes with
  | case1 held => rw [addCrystalCoins, if_pos rfl]
  | case2 n held hn ih =>
    rw [addCrystalCoins, if_neg hn]
    exact (le_add held .crystal coin _).trans ih

theorem le_addMoney (takes : Takes) (held : Coins) (money : Nat) (coin : Coin) :
    held coin ≤ addMoney takes held money coin := by
  rw [addMoney]
  split
  · exact le_rfl
  · refine (le_addCrystalCoins takes (money / 10000 % 2 ^ 32) held coin).trans ?_
    dsimp only
    split <;> split
    · exact (le_add _ _ _ _).trans (le_add _ _ _ _)
    · exact le_add _ _ _ _
    · exact le_add _ _ _ _
    · exact le_rfl

theorem keepsChange_of_takesAll {takes : Takes} (htakes : TakesAll takes) (items : List Stack)
    (money : Nat) (held : Coins) : KeepsChange (addMoney takes) items money held := by
  intro p hp
  have hlt := changeOf_lt hp
  exact worth_addMoney htakes p.1 (by omega)

end Canary.Game.Bank
