import Canary.Game.Coins
import Canary.Lib.Transition

/-!
# The rent of houses

`payHouses` goes through the houses and charges the owners of those whose rent is due. An owner
whose bank balance is less than the rent is warned instead, by a letter, and loses the house when
seven letters have been sent.

The letters are counted in `rentWarnings`, and the count stays as it is when a rent is paid. So a
house can be lost on the first day its rent is unpaid again (`lapse_lost`). Where no rent is paid
for a house that has warnings, and `removeMoney` takes what it is asked for (`Turn.Sound`), each
call charges the rents that are due and covered, and a house is only lost after seven calls that
found its rent unpaid (`law_of_reachable`).

What `removeMoney` takes is the money (`wealth_removeMoney_iff`) unless the coins and the balance
together exceed 64 bits, or a part of the change does not come to the player.
-/

namespace Canary.Houses.Rent

open Game.Bank Transition

/-! ## Owners -/

inductive RentPeriod where
  | daily
  | weekly
  | monthly
  | yearly
  | never
  deriving DecidableEq, Repr

namespace RentPeriod

def seconds : RentPeriod → ℤ
  | daily => 24 * 60 * 60
  | weekly => 24 * 60 * 60 * 7
  | monthly => 24 * 60 * 60 * 30
  | yearly => 24 * 60 * 60 * 365
  | never => 0

/-- How a letter calls the period. -/
def period : RentPeriod → String
  | daily => "daily"
  | weekly => "weekly"
  | monthly => "monthly"
  | yearly => "annual"
  | never => ""

end RentPeriod

structure Config where
  rentPeriod : RentPeriod
  /-- `HOUSE_LOSE_AFTER_INACTIVITY` -/
  daysToReset : ℤ
  vipKeepHouse : Bool

/-- What `payHouses` asks of a player. -/
structure Player where
  coins : Coins
  /-- The stacks of so many coins, in the order in which they are found. -/
  piles : Coins → List Stack
  splits : ∀ held, Splits held (piles held)
  takes : Takes
  bankBalance : UInt64
  lastLoginSaved : ℤ
  isVip : Bool
  inbox : List String

/-- `getPlayerByGUID`, of the players who are online or in the database. -/
abbrev Players := UInt32 → Option Player

/-- What the loop of `removeMoney` leaves to be paid, or `none` if it returns. -/
def leftMoney : List Stack → ℕ → Option ℕ
  | [], money => some money
  | stack :: items, money =>
    if stack.worth < money then leftMoney items (money - stack.worth) else none

namespace Player

variable (cfg : Config) (player : Player)

def wealth : ℕ := player.coins.worth + player.bankBalance.toNat

/-- The stacks of coins in the order of their worth. -/
def moneyMap : List Stack :=
  ((player.piles player.coins).filter fun stack => stack.worth ≠ 0).insertionSort
    fun a b => a.worth ≤ b.worth

/-- The sum, in 64 bits, of the coins and the balance. -/
def available : ℕ :=
  (((player.piles player.coins).map Stack.worth).sum + player.bankBalance.toNat) % 2 ^ 64

/-- `Game::removeMoney`, of a player and with the balance. -/
def removeMoney (money : ℕ) : Player :=
  if money = 0 then player
  else if player.available < money then player
  else
    let coins := removeStacks (addMoney player.takes) player.moneyMap money player.coins
    match leftMoney player.moneyMap money with
    | none => { player with coins := coins }
    | some left =>
      if player.bankBalance.toNat ≥ left then
        { player with coins := coins, bankBalance := player.bankBalance - UInt64.ofNat left }
      else { player with coins := coins }

/-- The player has not logged in for so long that his houses are reset. -/
def inactive (now : ℤ) : Bool :=
  if cfg.daysToReset > 0 then
    let daysSinceLastLogin := (now - player.lastLoginSaved).tdiv (60 * 60 * 24)
    let vipKeep := cfg.vipKeepHouse && player.isVip
    let activityKeep := decide (daysSinceLastLogin < cfg.daysToReset)
    !vipKeep && !activityKeep
  else false

end Player

/-! ## Houses -/

structure House where
  /-- 0 if nobody owns the house. -/
  owner : UInt32
  /-- There is a town of the number. -/
  hasTown : Bool
  name : String
  rent : UInt32
  paidUntil : ℤ
  rentWarnings : ℕ

namespace House

/-- `setOwner(0)`, of a house that has an owner. -/
def lose (house : House) : House := { house with owner := 0, rentWarnings := 0 }

/-- The rent is to be paid. -/
def Due (house : House) (now : ℤ) : Prop :=
  house.owner ≠ 0 ∧ house.hasTown = true ∧ house.rent ≠ 0 ∧ house.paidUntil ≤ now

def letter (cfg : Config) (house : House) : String :=
  "Warning! \nThe " ++ cfg.rentPeriod.period ++ " rent of " ++ toString house.rent ++
    " gold for your house \"" ++ house.name ++ "\" is payable. Have it within " ++
    toString (7 - house.rentWarnings) ++
    " days or you will lose static_self_cast<HouseTransferItem>() house."

end House

/-- What the loop of `payHouses` does with a house. -/
def payHouse (cfg : Config) (now : ℤ) (house : House) (players : Players) : House × Players :=
  if house.owner = 0 then (house, players)
  else if house.hasTown = false then (house, players)
  else
    match players house.owner with
    | none => (house, players) -- `tryTransferOwnership` at startup leaves the owner.
    | some player =>
      if player.inactive cfg now then (house.lose, players)
      else if house.rent = 0 ∨ house.paidUntil > now then (house, players)
      else if player.bankBalance.toNat ≥ house.rent.toNat then
        ({ house with paidUntil := now + cfg.rentPeriod.seconds },
          Function.update players house.owner (some (player.removeMoney house.rent.toNat)))
      else if house.rentWarnings < 7 then
        ({ house with rentWarnings := house.rentWarnings + 1 },
          Function.update players house.owner
            (some { player with inbox := house.letter cfg :: player.inbox }))
      else (house.lose, players)

/-- A house and the players when the loop comes to it. -/
structure Turn where
  now : ℤ
  house : House
  players : Players

namespace Turn

variable (cfg : Config) (turn : Turn)

def house' : House := (payHouse cfg turn.now turn.house turn.players).1
def players' : Players := (payHouse cfg turn.now turn.house turn.players).2

end Turn

/-- The loop of `payHouses`, house by house. -/
def payLoop (cfg : Config) (now : ℤ) : List House → Players → List Turn
  | [], _ => []
  | house :: houses, players =>
    let turn : Turn := ⟨now, house, players⟩
    turn :: payLoop cfg now houses (turn.players' cfg)

/-! ## Runs -/

/-- A call of `payHouses`, and the players at its time. -/
structure Call where
  now : ℤ
  players : Players

/-- The houses, the time of the last call, and the turns of the calls so far. -/
structure State where
  houses : List House
  time : ℤ
  log : List (List Turn)

/-- The turns of a call. -/
def State.turns (cfg : Config) (s : State) (call : Call) : List Turn :=
  if cfg.rentPeriod = .never then [] else payLoop cfg call.now s.houses call.players

/-- `Houses::payHouses`, at a time that is not before the last one. -/
def State.payHouses (cfg : Config) (s : State) (call : Call) : Option State :=
  if call.now < s.time then none
  else
    let turns := s.turns cfg call
    let houses :=
      if cfg.rentPeriod = .never then s.houses else turns.map fun turn => turn.house' cfg
    some { houses := houses, time := call.now, log := s.log ++ [turns] }

/-- At first there are no warnings. Between calls, the players may change in any way. -/
def system (cfg : Config) : System State Call :=
  .ofNext (fun s => s.log = [] ∧ ∀ house ∈ s.houses, house.rentWarnings = 0) (State.payHouses cfg)

/-- What a call finds at the house of an index. -/
def turnAt (log : List (List Turn)) (k i : ℕ) : Option Turn := log[k]?.bind fun turns => turns[i]?

namespace Turn

variable (cfg : Config) (turn : Turn)

/-- The owner, if any, is there and not inactive. -/
def Active : Prop :=
  turn.house.owner ≠ 0 →
    ∃ player ∈ turn.players turn.house.owner, player.inactive cfg turn.now = false

/-- Nobody is charged. -/
structure Free : Prop where
  wealth : ∀ guid, (turn.players' cfg guid).map Player.wealth =
    (turn.players guid).map Player.wealth
  paidUntil : (turn.house' cfg).paidUntil = turn.house.paidUntil

/-- The owner is charged the rent, for a house whose time has passed and from a balance that
    covers it, and the house is paid for a period. -/
structure Charged : Prop where
  passed : turn.house.paidUntil ≤ turn.now
  owner : ∃ player ∈ turn.players turn.house.owner, ∃ player' ∈ turn.players' cfg turn.house.owner,
    turn.house.rent.toNat ≤ player.bankBalance.toNat ∧
      player'.wealth + turn.house.rent.toNat = player.wealth
  others : ∀ guid ≠ turn.house.owner, turn.players' cfg guid = turn.players guid
  paidUntil : (turn.house' cfg).paidUntil = turn.now + cfg.rentPeriod.seconds

def Removed : Prop := turn.house.owner ≠ 0 ∧ (turn.house' cfg).owner = 0

/-- The rent is due, the balance does not cover it, and it is not paid. -/
def Unpaid : Prop :=
  turn.house.Due turn.now ∧ (turn.house' cfg).paidUntil = turn.house.paidUntil ∧
    ∃ player ∈ turn.players turn.house.owner,
      player.bankBalance.toNat < turn.house.rent.toNat

end Turn

/-- Who is charged is charged the rent, and a house is lost after seven calls in a row that find
    its rent unpaid. -/
structure Law (cfg : Config) (log : List (List Turn)) : Prop where
  charges : ∀ turns ∈ log, ∀ turn ∈ turns, turn.Free cfg ∨ turn.Charged cfg
  removals : ∀ k i, ∀ turn ∈ turnAt log k i, turn.Removed cfg →
    7 ≤ k ∧ ∀ j, k - 7 ≤ j → j < k → ∃ turn' ∈ turnAt log j i, turn'.Unpaid cfg

/-- What is available is not too much for 64 bits, and the change comes to the player. -/
def Player.PaysExactly (player : Player) (money : ℕ) : Prop :=
  money ≤ player.available ∧
    KeepsChange (addMoney player.takes) player.moneyMap money player.coins

/-- A rent that is paid is paid exactly, and for a house without warnings. -/
def Turn.Sound (turn : Turn) : Prop :=
  turn.house.Due turn.now → ∀ player ∈ turn.players turn.house.owner,
    turn.house.rent.toNat ≤ player.bankBalance.toNat →
      turn.house.rentWarnings = 0 ∧ player.PaysExactly turn.house.rent.toNat

/-! ## Payments -/

theorem leftMoney_eq (items : List Stack) {money : ℕ} (hpos : 0 < money) :
    leftMoney items money =
      if (items.map Stack.worth).sum < money then some (money - (items.map Stack.worth).sum)
      else none := by
  induction items generalizing money with
  | nil =>
    rw [leftMoney, List.map_nil, List.sum_nil, if_pos hpos, Nat.sub_zero]
  | cons stack items ih =>
    rw [leftMoney, List.map_cons, List.sum_cons]
    by_cases hlt : stack.worth < money
    · rw [if_pos hlt, ih (by omega), Nat.sub_sub]
      exact if_congr (by omega) rfl rfl
    · rw [if_neg hlt, if_neg (by omega)]

namespace Player

/-- A player whose balance covers it pays the money if and only if he pays exactly. -/
theorem wealth_removeMoney_iff (player : Player) {money : ℕ} (hpos : 0 < money)
    (hle : money ≤ player.bankBalance.toNat) :
    (player.removeMoney money).wealth + money = player.wealth ↔ player.PaysExactly money := by
  have hcoins : _ ↔ KeepsChange (addMoney player.takes) player.moneyMap money player.coins :=
    worth_removeStacks_iff (fun p _ => le_addMoney player.takes p.1 p.2) hpos fun coin =>
      (countOf_moneyMap_le _ coin).trans (player.splits player.coins coin).le
  rw [PaysExactly, ← hcoins, removeMoney, if_neg (by omega)]
  by_cases havailable : player.available < money
  · -- The sum is too much for 64 bits, and nothing is taken.
    rw [if_pos havailable]
    omega
  · rw [if_neg havailable, leftMoney_eq _ hpos, and_iff_right (by omega)]
    by_cases hsum : (player.moneyMap.map Stack.worth).sum < money
    · -- All coins are taken, and what is left is taken from the balance.
      have hleft : (UInt64.ofNat (money - (player.moneyMap.map Stack.worth).sum)).toNat =
          money - (player.moneyMap.map Stack.worth).sum :=
        Nat.mod_eq_of_lt (lt_of_le_of_lt (by omega) player.bankBalance.toNat_lt)
      rw [if_pos hsum]
      dsimp only
      rw [if_pos (by omega), wealth, wealth]
      dsimp only
      rw [UInt64.toNat_sub_of_le _ _ (UInt64.le_iff_toNat_le.2 (by omega)), hleft,
        Nat.min_eq_right hsum.le]
      omega
    · rw [if_neg hsum, wealth, wealth, Nat.min_eq_left (Nat.le_of_not_lt hsum)]
      dsimp only
      omega

end Player

/-! ## A house -/

/-- What `payHouse` does with a house whose owner is active. -/
theorem payHouse_cases {cfg : Config} {turn : Turn} (hactive : turn.Active cfg) :
    (¬ turn.house.Due turn.now ∧
      payHouse cfg turn.now turn.house turn.players = (turn.house, turn.players)) ∨
    turn.house.Due turn.now ∧ ∃ player ∈ turn.players turn.house.owner,
      (turn.house.rent.toNat ≤ player.bankBalance.toNat ∧
        payHouse cfg turn.now turn.house turn.players =
          ({ turn.house with paidUntil := turn.now + cfg.rentPeriod.seconds },
            Function.update turn.players turn.house.owner
              (some (player.removeMoney turn.house.rent.toNat)))) ∨
      player.bankBalance.toNat < turn.house.rent.toNat ∧
        ((turn.house.rentWarnings < 7 ∧ payHouse cfg turn.now turn.house turn.players =
          ({ turn.house with rentWarnings := turn.house.rentWarnings + 1 },
            Function.update turn.players turn.house.owner
              (some { player with inbox := turn.house.letter cfg :: player.inbox }))) ∨
        (7 ≤ turn.house.rentWarnings ∧
          payHouse cfg turn.now turn.house turn.players = (turn.house.lose, turn.players))) := by
  rw [payHouse]
  by_cases howner : turn.house.owner = 0
  · rw [if_pos howner]
    exact .inl ⟨fun h => h.1 howner, rfl⟩
  · rw [if_neg howner]
    by_cases htown : turn.house.hasTown = false
    · rw [if_pos htown]
      exact .inl ⟨fun h => Bool.false_ne_true (htown.symm.trans h.2.1), rfl⟩
    · rw [if_neg htown]
      obtain ⟨player, hplayer, hinactive⟩ := hactive howner
      rw [Option.mem_def] at hplayer
      rw [hplayer]
      dsimp only
      rw [hinactive, if_neg Bool.false_ne_true]
      by_cases hdue : turn.house.rent = 0 ∨ turn.house.paidUntil > turn.now
      · rw [if_pos hdue]
        refine .inl ⟨fun h => ?_, rfl⟩
        rcases hdue with hrent | hpaid
        · exact h.2.2.1 hrent
        · exact absurd h.2.2.2 (not_le.2 hpaid)
      · rw [if_neg hdue]
        rw [not_or, not_lt] at hdue
        refine .inr ⟨⟨howner, Bool.eq_true_of_not_eq_false htown, hdue⟩, player, rfl, ?_⟩
        by_cases hbalance : player.bankBalance.toNat ≥ turn.house.rent.toNat
        · rw [if_pos hbalance]
          exact .inl ⟨hbalance, rfl⟩
        · rw [if_neg hbalance]
          refine .inr ⟨not_le.1 hbalance, ?_⟩
          by_cases hwarnings : turn.house.rentWarnings < 7
          · rw [if_pos hwarnings]
            exact .inl ⟨hwarnings, rfl⟩
          · rw [if_neg hwarnings]
            exact .inr ⟨not_lt.1 hwarnings, rfl⟩

namespace Turn

variable {cfg : Config} {turn : Turn}

/-- A letter is not money. -/
theorem free_of_letter {player : Player} (hplayer : player ∈ turn.players turn.house.owner)
    {next : House} {inbox : List String} (hpaid : next.paidUntil = turn.house.paidUntil)
    (h : payHouse cfg turn.now turn.house turn.players = (next,
      Function.update turn.players turn.house.owner (some { player with inbox := inbox }))) :
    turn.Free cfg := by
  refine ⟨fun guid => ?_, by rw [house', h]; exact hpaid⟩
  rw [players', h]
  dsimp only
  rcases eq_or_ne guid turn.house.owner with rfl | hne
  · rw [Function.update_self, Option.mem_def.1 hplayer]
    rfl
  · rw [Function.update_of_ne hne]

/-- Whoever is charged is charged the rent. -/
theorem free_or_charged (hactive : turn.Active cfg) (hsound : turn.Sound) :
    turn.Free cfg ∨ turn.Charged cfg := by
  rcases payHouse_cases hactive with
    ⟨-, h⟩ | ⟨hdue, player, hplayer, ⟨hbalance, h⟩ | ⟨-, ⟨-, h⟩ | ⟨-, h⟩⟩⟩
  · exact .inl ⟨fun guid => by rw [players', h], by rw [house', h]⟩
  · have hrent : 0 < turn.house.rent.toNat :=
      Nat.pos_of_ne_zero fun hzero => hdue.2.2.1 (UInt32.toNat_inj.1 hzero)
    refine .inr ⟨hdue.2.2.2, ⟨player, hplayer, player.removeMoney turn.house.rent.toNat, ?_,
      hbalance, ?_⟩, fun guid hne => ?_, by rw [house', h]⟩
    · rw [players', h]
      exact Function.update_self ..
    · exact (player.wealth_removeMoney_iff hrent hbalance).2
        (hsound hdue player hplayer hbalance).2
    · rw [players', h]
      exact Function.update_of_ne hne _ _
  · refine .inl (free_of_letter hplayer ?_ h)
    rfl
  · exact .inl ⟨fun guid => by rw [players', h], by rw [house', h]; rfl⟩

/-- A house with warnings is warned once more, or is lost after the seventh warning. -/
theorem warnings_cases (hactive : turn.Active cfg) (hsound : turn.Sound)
    (hdue : 0 < turn.house.rentWarnings → turn.house.Due turn.now)
    (hle : turn.house.rentWarnings ≤ 7) :
    ((turn.house' cfg).rentWarnings = 0 ∧
      (turn.Removed cfg → turn.house.rentWarnings = 7)) ∨
    (turn.house' cfg).rentWarnings = turn.house.rentWarnings + 1 ∧
      turn.house.rentWarnings < 7 ∧ ¬ turn.Removed cfg ∧
        (turn.house' cfg).Due turn.now ∧ turn.Unpaid cfg := by
  rcases payHouse_cases hactive with
    ⟨hnot, h⟩ | ⟨hdue', player, hplayer, ⟨hbalance, h⟩ | ⟨hbalance, ⟨hlt, h⟩ | ⟨hseven, h⟩⟩⟩
  · have hzero : turn.house.rentWarnings = 0 :=
      Nat.eq_zero_of_not_pos fun hpos => hnot (hdue hpos)
    rw [Removed, house', h]
    exact .inl ⟨hzero, fun hremoved => absurd hremoved.2 hremoved.1⟩
  · rw [Removed, house', h]
    exact .inl ⟨(hsound hdue' player hplayer hbalance).1,
      fun hremoved => absurd hremoved.2 hremoved.1⟩
  · rw [Removed, Unpaid, house', h]
    exact .inr ⟨rfl, hlt, fun hremoved => hremoved.1 hremoved.2, hdue', hdue', rfl, player,
      hplayer, hbalance⟩
  · rw [house', h]
    exact .inl ⟨rfl, fun _ => le_antisymm hle hseven⟩

end Turn

/-! ## A call -/

theorem house_payLoop (cfg : Config) (now : ℤ) (houses : List House) (players : Players) :
    (payLoop cfg now houses players).map Turn.house = houses := by
  induction houses generalizing players with
  | nil => rfl
  | cons house houses ih => rw [payLoop, List.map_cons, ih]

theorem now_payLoop (cfg : Config) (now : ℤ) (houses : List House) (players : Players) :
    ∀ turn ∈ payLoop cfg now houses players, turn.now = now := by
  induction houses generalizing players with
  | nil => exact fun _ h => absurd h List.not_mem_nil
  | cons house houses ih =>
    intro turn hturn
    rcases List.mem_cons.1 hturn with rfl | hturn
    · rfl
    · exact ih _ turn hturn

theorem turnAt_concat (log : List (List Turn)) (turns : List Turn) (k i : ℕ) :
    turnAt (log ++ [turns]) k i =
      if k < log.length then turnAt log k i else if k = log.length then turns[i]? else none := by
  rw [turnAt, turnAt]
  by_cases hlt : k < log.length
  · rw [if_pos hlt, List.getElem?_append_left hlt]
  · rw [if_neg hlt, List.getElem?_append_right (Nat.le_of_not_lt hlt)]
    by_cases heq : k = log.length
    · rw [if_pos heq, heq, Nat.sub_self]
      rfl
    · rw [if_neg heq, List.getElem?_eq_none (by rw [List.length_singleton]; omega)]
      rfl

theorem lt_of_turnAt {log : List (List Turn)} {k i : ℕ} {turn : Turn}
    (h : turn ∈ turnAt log k i) : k < log.length := by
  obtain ⟨turns, hturns, -⟩ := Option.bind_eq_some_iff.1 h
  exact (List.getElem?_eq_some_iff.1 hturns).1

/-- The last so many calls found the rent of a house unpaid. -/
def UnpaidLast (cfg : Config) (log : List (List Turn)) (i n : ℕ) : Prop :=
  n ≤ log.length ∧
    ∀ j, log.length - n ≤ j → j < log.length → ∃ turn ∈ turnAt log j i, turn.Unpaid cfg

theorem unpaidLast_zero (cfg : Config) (log : List (List Turn)) (i : ℕ) :
    UnpaidLast cfg log i 0 :=
  ⟨Nat.zero_le _, fun _ hle hlt => absurd hlt (Nat.not_lt.2 hle)⟩

theorem UnpaidLast.concat {cfg : Config} {log : List (List Turn)} {i n : ℕ}
    (h : UnpaidLast cfg log i n) {turns : List Turn} {turn : Turn} (hturn : turns[i]? = some turn)
    (hunpaid : turn.Unpaid cfg) : UnpaidLast cfg (log ++ [turns]) i (n + 1) := by
  have hlength : (log ++ [turns]).length = log.length + 1 := List.length_append
  have hle := h.1
  refine ⟨by omega, fun j hj hlt => ?_⟩
  rw [turnAt_concat]
  by_cases hbefore : j < log.length
  · rw [if_pos hbefore]
    exact h.2 j (by omega) hbefore
  · rw [if_neg hbefore, if_pos (by omega)]
    exact ⟨turn, hturn, hunpaid⟩

/-! ## All calls -/

/-- The warnings of a house count the last calls, which found its rent unpaid, and it is due. -/
structure Counts (cfg : Config) (s : State) (i : ℕ) (house : House) : Prop where
  never : cfg.rentPeriod = .never → house.rentWarnings = 0
  le : house.rentWarnings ≤ 7
  due : 0 < house.rentWarnings → house.Due s.time
  last : UnpaidLast cfg s.log i house.rentWarnings

structure Inv (cfg : Config) (s : State) : Prop where
  counts : ∀ i house, s.houses[i]? = some house → Counts cfg s i house
  law : Law cfg s.log

/-- Every house a call comes to has an active owner or none. -/
def Active (cfg : Config) (s : State) (call : Call) : Prop :=
  ∀ turn ∈ s.turns cfg call, turn.Active cfg

/-- Every rent a call takes is paid exactly, and for a house without warnings. -/
def Sound (cfg : Config) (s : State) (call : Call) : Prop :=
  ∀ turn ∈ s.turns cfg call, turn.Sound

theorem Inv.init {cfg : Config} {s : State} (hlog : s.log = [])
    (h : ∀ house ∈ s.houses, house.rentWarnings = 0) : Inv cfg s := by
  refine ⟨fun i house hhouse => ?_, ?_⟩
  · have hzero := h house (List.mem_of_getElem? hhouse)
    refine ⟨fun _ => hzero, by omega, fun hpos => absurd hzero (by omega), ?_⟩
    rw [hzero]
    exact unpaidLast_zero cfg s.log i
  · rw [hlog]
    exact ⟨fun _ h => absurd h List.not_mem_nil, fun k i turn hturn =>
      absurd (lt_of_turnAt hturn) (Nat.not_lt_zero k)⟩

/-- A house that is due stays due. -/
theorem House.Due.mono {house : House} {time now : ℤ} (h : house.Due time) (hle : time ≤ now) :
    house.Due now :=
  ⟨h.1, h.2.1, h.2.2.1, h.2.2.2.trans hle⟩

theorem Law.concat {cfg : Config} {log : List (List Turn)} (h : Law cfg log) {turns : List Turn}
    (hcharges : ∀ turn ∈ turns, turn.Free cfg ∨ turn.Charged cfg)
    (hremovals : ∀ i turn, turns[i]? = some turn → turn.Removed cfg → UnpaidLast cfg log i 7) :
    Law cfg (log ++ [turns]) := by
  refine ⟨fun turns' hturns' => ?_, fun k i turn hturn hremoved => ?_⟩
  · rcases List.mem_append.1 hturns' with hbefore | hlast
    · exact h.charges turns' hbefore
    · rw [List.mem_singleton.1 hlast]
      exact hcharges
  · have hlast : 7 ≤ k ∧ k ≤ log.length ∧
        ∀ j, k - 7 ≤ j → j < k → ∃ turn' ∈ turnAt log j i, turn'.Unpaid cfg := by
      rw [turnAt_concat] at hturn
      by_cases hlt : k < log.length
      · rw [if_pos hlt] at hturn
        obtain ⟨hseven, hunpaid⟩ := h.removals k i turn hturn hremoved
        exact ⟨hseven, hlt.le, hunpaid⟩
      · rw [if_neg hlt] at hturn
        by_cases heq : k = log.length
        · rw [if_pos heq] at hturn
          obtain ⟨hseven, hunpaid⟩ := hremovals i turn hturn hremoved
          rw [heq]
          exact ⟨hseven, le_rfl, hunpaid⟩
        · rw [if_neg heq] at hturn
          cases hturn
    obtain ⟨hseven, hle, hunpaid⟩ := hlast
    refine ⟨hseven, fun j hj hjk => ?_⟩
    rw [turnAt_concat, if_pos (by omega)]
    exact hunpaid j hj hjk

/-- What a call leaves of the count of a house. -/
theorem Counts.house' {cfg : Config} {s : State} {turns : List Turn} {houses : List House}
    {turn : Turn} {i : ℕ} (hnever : cfg.rentPeriod ≠ .never) (hle : s.time ≤ turn.now)
    (hturn : turns[i]? = some turn) (h : Counts cfg s i turn.house) (hactive : turn.Active cfg)
    (hsound : turn.Sound) :
    Counts cfg ⟨houses, turn.now, s.log ++ [turns]⟩ i (turn.house' cfg) := by
  rcases turn.warnings_cases hactive hsound (fun hpos => (h.due hpos).mono hle) h.le with
    ⟨hzero, -⟩ | ⟨hsucc, hlt, -, hdue, hunpaid⟩
  · refine ⟨fun _ => hzero, by omega, fun hpos => absurd hzero (by omega), ?_⟩
    rw [hzero]
    exact unpaidLast_zero ..
  · refine ⟨fun hn => absurd hn hnever, by omega, fun _ => hdue, ?_⟩
    rw [hsucc]
    exact h.last.concat hturn hunpaid

theorem Inv.step {cfg : Config} {s s' : State} {call : Call} (hs : Inv cfg s)
    (hactive : Active cfg s call) (hsound : Sound cfg s call)
    (hstep : s.payHouses cfg call = some s') : Inv cfg s' := by
  rw [State.payHouses] at hstep
  split at hstep
  · cases hstep
  · next htime =>
    obtain rfl := Option.some.inj hstep
    by_cases hnever : cfg.rentPeriod = .never
    · -- Nothing is done, and there are no warnings.
      rw [State.turns, if_pos hnever, if_pos hnever]
      refine ⟨fun i house hhouse => ?_, hs.law.concat (fun _ h => absurd h List.not_mem_nil)
        fun _ _ h => nomatch h⟩
      have hzero := (hs.counts i house hhouse).never hnever
      refine ⟨fun _ => hzero, by omega, fun hpos => absurd hzero (by omega), ?_⟩
      rw [hzero]
      exact unpaidLast_zero ..
    · have hturns : s.turns cfg call = payLoop cfg call.now s.houses call.players :=
        if_neg hnever
      -- A turn finds the house of its index, whose warnings count.
      have hturn : ∀ i turn, (s.turns cfg call)[i]? = some turn →
          turn ∈ s.turns cfg call ∧ turn.now = call.now ∧ Counts cfg s i turn.house := by
        intro i turn hi
        have hmem := List.mem_of_getElem? hi
        refine ⟨hmem, ?_, hs.counts i turn.house ?_⟩
        · rw [hturns] at hmem
          exact now_payLoop cfg call.now s.houses call.players turn hmem
        · rw [hturns] at hi
          rw [← house_payLoop cfg call.now s.houses call.players, List.getElem?_map, hi]
          rfl
      rw [if_neg hnever]
      refine ⟨fun i house hhouse => ?_, hs.law.concat
        (fun turn hmem => turn.free_or_charged (hactive turn hmem) (hsound turn hmem))
        fun i turn hi hremoved => ?_⟩
      · dsimp only at hhouse
        rw [List.getElem?_map] at hhouse
        obtain ⟨turn, hi, rfl⟩ := Option.map_eq_some_iff.1 hhouse
        obtain ⟨hmem, hnow, hcounts⟩ := hturn i turn hi
        rw [← hnow]
        exact hcounts.house' hnever (by rw [hnow]; exact not_lt.1 htime) hi (hactive turn hmem)
          (hsound turn hmem)
      · obtain ⟨hmem, hnow, hcounts⟩ := hturn i turn hi
        have hdue : 0 < turn.house.rentWarnings → turn.house.Due turn.now := fun hpos =>
          (hcounts.due hpos).mono (by rw [hnow]; exact not_lt.1 htime)
        rcases turn.warnings_cases (hactive turn hmem) (hsound turn hmem) hdue hcounts.le with
          ⟨-, hseven⟩ | ⟨-, -, hnot, -⟩
        · rw [← hseven hremoved]
          exact hcounts.last
        · exact absurd hremoved hnot

theorem inv_of_reachable {cfg : Config} {s : State}
    (hs : (system cfg).ReachableVia (fun s call => Active cfg s call ∧ Sound cfg s call) s) :
    Inv cfg s :=
  hs.invariant (fun _ h => .init h.1 h.2) fun _ _ _ h hok hstep => h.step hok.1 hok.2 hstep

/-- In every run with active owners in which rents are paid exactly and for houses without
    warnings, owners are charged the rents, and houses lost after seven calls in a row that find
    the rent unpaid. -/
theorem law_of_reachable (cfg : Config) (s : State)
    (hs : (system cfg).ReachableVia (fun s call => Active cfg s call ∧ Sound cfg s call) s) :
    Law cfg s.log :=
  (inv_of_reachable hs).law

/-! ## A lapse -/

/-- Coins that lie one by one. -/
def loose (held : Coins) : List Stack :=
  [Coin.gold, .platinum, .crystal].flatMap fun coin => List.replicate (held coin) ⟨coin, 1⟩

theorem splits_loose (held : Coins) : Splits held (loose held) := by
  intro coin
  cases coin <;> simp [loose, countOf, List.filter_append]

/-- A player with a platinum coin and a balance. -/
def tenant (bankBalance : UInt64) : Player where
  coins coin := if coin = .platinum then 1 else 0
  piles := loose
  splits := splits_loose
  takes _ _ n := n
  bankBalance := bankBalance
  lastLoginSaved := 0
  isVip := false
  inbox := []

/-- A call when the owner has such a balance. -/
def visit (now : ℤ) (bankBalance : UInt64) : Call where
  now := now
  players guid := if guid = 7 then some (tenant bankBalance) else none

def daily : Config where
  rentPeriod := .daily
  daysToReset := 0
  vipKeepHouse := false

/-- A house the rent of which is due. -/
def rented : State where
  houses := [{ owner := 7, hasTown := true, name := "Sunset Homes", rent := 30, paidUntil := 0,
               rentWarnings := 0 }]
  time := 0
  log := []

theorem init_rented : (system daily).init rented :=
  ⟨rfl, fun _ h => by rw [List.mem_singleton.1 h]⟩

/-- A rent of 30, which is paid with a platinum coin: 70 gold coins are the change. -/
theorem law_rented : ∃ s : State,
    (turnAt s.log 0 0).map (fun turn => (turn.house' daily).paidUntil) = some 86401 ∧
      Law daily s.log := by
  refine ⟨_, ?_, law_of_reachable daily _ (.step (.init init_rented) (a := visit 1 100)
    ⟨fun turn hturn => ?_, fun turn hturn => ?_⟩ rfl)⟩
  · decide +kernel
  · rw [List.mem_singleton.1 hturn]
    exact fun _ => ⟨tenant 100, rfl, rfl⟩
  · rw [List.mem_singleton.1 hturn]
    intro _ player hplayer _
    obtain rfl := Option.some.inj hplayer
    exact ⟨rfl, by decide +kernel, keepsChange_of_takesAll (fun _ _ _ => rfl) _ _ _⟩

/-- The rent is unpaid, then paid for a day, and then unpaid again. -/
def lapse : List Call :=
  [visit 1 0, visit 2 100, visit 86402 0, visit 86403 0, visit 86404 0, visit 86405 0,
    visit 86406 0, visit 86407 0, visit 86408 0]

instance (cfg : Config) (turn : Turn) : Decidable (turn.Active cfg) :=
  inferInstanceAs (Decidable (_ → ∃ player ∈ _, _))

instance (cfg : Config) (s : State) (call : Call) : Decidable (Active cfg s call) :=
  inferInstanceAs (Decidable (∀ turn ∈ _, _))

/-- After the rent is paid, six warnings are enough for the house to be lost. -/
theorem lapse_lost :
    ∃ s : State, (system daily).ReachableVia (Active daily) s ∧ ¬ Law daily s.log := by
  have hlapse : (lapse.foldlM (fun s call =>
        if Active daily s call then s.payHouses daily call else none) rented).any (fun s =>
      (turnAt s.log 8 0).any (fun turn =>
        turn.house.owner ≠ 0 ∧ (turn.house' daily).owner = 0) &&
      (turnAt s.log 1 0).all fun turn => (turn.players turn.house.owner).all fun player =>
        turn.house.rent.toNat ≤ player.bankBalance.toNat) = true := by
    decide +kernel
  obtain ⟨s, hs, hturns⟩ := (Option.any_eq_true ..).1 hlapse
  refine ⟨s, System.reachableVia_of_foldlM (.init init_rented) hs, fun hlaw => ?_⟩
  rw [Bool.and_eq_true] at hturns
  obtain ⟨turn, hturn, hremoved⟩ := (Option.any_eq_true ..).1 hturns.1
  have hlost : turn.house.owner ≠ 0 ∧ (turn.house' daily).owner = 0 := of_decide_eq_true hremoved
  -- The first of the seven calls before has found the rent covered.
  obtain ⟨turn', hturn', -, -, player, hplayer, hlt⟩ :=
    (hlaw.removals 8 0 turn hturn hlost).2 1 (by omega) (by omega)
  have hcovered := (Option.all_eq_true ..).1 hturns.2 turn' hturn'
  have hle := of_decide_eq_true ((Option.all_eq_true ..).1 hcovered player hplayer)
  omega

end Canary.Houses.Rent
