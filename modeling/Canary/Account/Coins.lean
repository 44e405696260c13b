import Mathlib

/-!
# Coins

An account adds and removes coins of three types, by reading the number from a repository and
writing the new one. Each call of the repository may fail, and then it does nothing. A change with
a detail is also written to the transactions of the account; that this may fail is logged, no more.

`removeCoins` looks at the lower bound of the number, but `addCoins` not at the upper one, which is
that of a `uint32_t`. So after every call of a run the numbers and the transactions are those of the
successful changes exactly if no sum is too large, and no transaction fails to be written
(`coins_exact_iff`).
-/

namespace Canary.Coins

inductive CoinType
  | coin | tournament | transferable
  deriving DecidableEq

inductive CoinTransactionType
  | add | remove
  deriving DecidableEq

inductive Error
  | no | storage | removeCoins | notInitialized
  deriving DecidableEq

structure Transaction where
  id : UInt32
  transactionType : CoinTransactionType
  coins : UInt32
  coinType : CoinType
  description : String
  deriving DecidableEq

/-- What is stored of the accounts. -/
structure Repository where
  coins : UInt32 → CoinType → UInt32
  transactions : List Transaction

/-- Which calls of the repository fail. -/
structure Failures where
  getCoins : Bool
  setCoins : Bool
  registerCoinsTransaction : Bool

structure Account where
  id : UInt32
  accLoaded : Bool

/-- A call of `addCoins` or `removeCoins`. -/
structure Call where
  transactionType : CoinTransactionType
  type : CoinType
  amount : UInt32
  detail : String
  failures : Failures

namespace Repository

variable (r : Repository)

def setCoins (id : UInt32) (type : CoinType) (amount : UInt32) : Repository :=
  { r with coins := Function.update r.coins id (Function.update (r.coins id) type amount) }

def registerCoinsTransaction (transaction : Transaction) : Repository :=
  { r with transactions := r.transactions ++ [transaction] }

end Repository

namespace Account

variable (a : Account) (r : Repository)

def transaction (call : Call) : Transaction :=
  ⟨a.id, call.transactionType, call.amount, call.type, call.detail⟩

def registerCoinTransaction (call : Call) : Repository :=
  if !a.accLoaded then r
  else if call.detail = "" then r
  else if call.failures.registerCoinsTransaction then r
  else r.registerCoinsTransaction (a.transaction call)

def addCoins (call : Call) : Error × Repository :=
  if !a.accLoaded then (.notInitialized, r)
  else if call.amount = 0 then (.no, r)
  else if call.failures.getCoins then (.storage, r)
  else if call.failures.setCoins then (.storage, r)
  else (.no, a.registerCoinTransaction
    (r.setCoins a.id call.type (r.coins a.id call.type + call.amount)) call)

def removeCoins (call : Call) : Error × Repository :=
  if !a.accLoaded then (.notInitialized, r)
  else if call.amount = 0 then (.no, r)
  else if call.failures.getCoins then (.storage, r)
  else if r.coins a.id call.type < call.amount then (.removeCoins, r)
  else if call.failures.setCoins then (.storage, r)
  else (.no, a.registerCoinTransaction
    (r.setCoins a.id call.type (r.coins a.id call.type - call.amount)) call)

def step (call : Call) : Error × Repository :=
  match call.transactionType with
  | .add => a.addCoins r call
  | .remove => a.removeCoins r call

/-- What the calls leave, and the ones that were successful. -/
def run (r : Repository) : List Call → Repository × List Call
  | [] => (r, [])
  | call :: calls =>
    let (error, r) := a.step r call
    let (r, done) := run r calls
    (r, if error = .no then call :: done else done)

end Account

/-! ## The law -/

/-- What a successful call adds to the number of coins of a type. -/
def Call.change (call : Call) (type : CoinType) : ℤ :=
  if call.type = type then
    match call.transactionType with
    | .add => call.amount.toNat
    | .remove => -call.amount.toNat
  else 0

/-- The transaction of a successful call, if there is a change and a detail. -/
def Call.logged (a : Account) (call : Call) : List Transaction :=
  if call.amount = 0 ∨ call.detail = "" then [] else [a.transaction call]

namespace Account

variable (a : Account) (r : Repository)

/-- After the calls, the coins and the transactions are those of the successful ones. -/
def Law (calls : List Call) : Prop :=
  (∀ type, (((a.run r calls).1.coins a.id type).toNat : ℤ) =
      (r.coins a.id type).toNat + ((a.run r calls).2.map (·.change type)).sum) ∧
    (a.run r calls).1.transactions =
      r.transactions ++ (a.run r calls).2.flatMap (Call.logged a)

/-- There is something to change, and the repository and the number of coins let it be changed. -/
def Changes (call : Call) : Prop :=
  a.accLoaded ∧ call.amount ≠ 0 ∧ !call.failures.getCoins ∧ !call.failures.setCoins ∧
    (call.transactionType = .remove → call.amount ≤ r.coins a.id call.type)

/-- If the call changes the number, this fits in 32 bits and the transaction is written. -/
def Fits (call : Call) : Prop :=
  a.Changes r call →
    (call.transactionType = .add →
      (r.coins a.id call.type).toNat + call.amount.toNat < 2 ^ 32) ∧
    (call.detail ≠ "" → !call.failures.registerCoinsTransaction)

/-! ## One call -/

/-- The number after a change. -/
def changed (call : Call) : UInt32 :=
  match call.transactionType with
  | .add => r.coins a.id call.type + call.amount
  | .remove => r.coins a.id call.type - call.amount

variable {a r} {call : Call}

theorem step_of_changes (h : a.Changes r call) :
    a.step r call =
      (.no, a.registerCoinTransaction (r.setCoins a.id call.type (a.changed r call)) call) := by
  obtain ⟨hloaded, hamount, hget, hset, hle⟩ := h
  rw [Bool.not_eq_true'] at hget hset
  unfold step changed
  cases htype : call.transactionType with
  | add => simp [addCoins, hloaded, hamount, hget, hset]
  | remove =>
    have hlt : ¬r.coins a.id call.type < call.amount := UInt32.not_lt.2 (hle htype)
    simp [removeCoins, hloaded, hamount, hget, hset, hlt]

theorem step_of_not_changes (h : ¬a.Changes r call) :
    (a.step r call).2 = r ∧ ((a.step r call).1 = .no → call.amount = 0) := by
  unfold step
  cases htype : call.transactionType with
  | add =>
    have hle : call.transactionType = .remove → call.amount ≤ r.coins a.id call.type := by
      rw [htype]
      exact fun h => nomatch h
    simp only [addCoins]
    split_ifs with h₁ h₂ h₃ h₄
    · exact ⟨rfl, fun h => nomatch h⟩
    · exact ⟨rfl, fun _ => h₂⟩
    · exact ⟨rfl, fun h => nomatch h⟩
    · exact ⟨rfl, fun h => nomatch h⟩
    · exact absurd ⟨by simpa using h₁, h₂, by simpa using h₃, by simpa using h₄, hle⟩ h
  | remove =>
    simp only [removeCoins]
    split_ifs with h₁ h₂ h₃ hlt h₄
    · exact ⟨rfl, fun h => nomatch h⟩
    · exact ⟨rfl, fun _ => h₂⟩
    · exact ⟨rfl, fun h => nomatch h⟩
    · exact ⟨rfl, fun h => nomatch h⟩
    · exact ⟨rfl, fun h => nomatch h⟩
    · exact absurd ⟨by simpa using h₁, h₂, by simpa using h₃, by simpa using h₄,
        fun _ => UInt32.not_lt.1 hlt⟩ h

/-- A call that returns an error changes nothing. -/
theorem step_error (h : (a.step r call).1 ≠ .no) : (a.step r call).2 = r := by
  by_cases hchanges : a.Changes r call
  · rw [step_of_changes hchanges] at h
    exact absurd rfl h
  · exact (step_of_not_changes hchanges).1

theorem coins_registerCoinTransaction :
    (a.registerCoinTransaction r call).coins = r.coins := by
  unfold registerCoinTransaction
  split_ifs <;> rfl

theorem coins_setCoins (n : UInt32) (type : CoinType) :
    (r.setCoins a.id call.type n).coins a.id type =
      if call.type = type then n else r.coins a.id type := by
  simp only [Repository.setCoins, Function.update_self, Function.update_apply, eq_comm]

/-- The number is the exact one if it fits. -/
theorem changed_eq_iff (h : a.Changes r call) :
    ((a.changed r call).toNat : ℤ) = (r.coins a.id call.type).toNat + call.change call.type ↔
      (call.transactionType = .add →
        (r.coins a.id call.type).toNat + call.amount.toNat < 2 ^ 32) := by
  unfold changed Call.change
  rw [if_pos rfl]
  cases htype : call.transactionType with
  | add =>
    have hadd : (r.coins a.id call.type + call.amount).toNat =
        ((r.coins a.id call.type).toNat + call.amount.toNat) % 2 ^ 32 := UInt32.toNat_add ..
    simp only [hadd, forall_const]
    omega
  | remove =>
    have hle := h.2.2.2.2 htype
    have hsub := UInt32.toNat_sub_of_le _ _ hle
    rw [UInt32.le_iff_toNat_le] at hle
    simp only [hsub, reduceCtorEq, false_imp_iff, iff_true]
    omega

/-- The transaction is written if this does not fail. -/
theorem transactions_eq_iff (h : a.Changes r call) (n : UInt32) :
    (a.registerCoinTransaction (r.setCoins a.id call.type n) call).transactions =
        r.transactions ++ call.logged a ↔
      (call.detail ≠ "" → !call.failures.registerCoinsTransaction) := by
  unfold registerCoinTransaction Call.logged
  by_cases hdetail : call.detail = ""
  · simp [h.1, h.2.1, hdetail, Repository.setCoins]
  · cases hfails : call.failures.registerCoinsTransaction <;>
      simp [h.1, h.2.1, hdetail, Repository.setCoins, Repository.registerCoinsTransaction]

/-- The law holds after one call exactly if this fits. -/
theorem law_singleton : a.Law r [call] ↔ a.Fits r call := by
  by_cases h : a.Changes r call
  · have hrun : a.run r [call] =
        (a.registerCoinTransaction (r.setCoins a.id call.type (a.changed r call)) call, [call]) := by
      simp only [run, step_of_changes h, if_pos]
    unfold Law Fits
    simp only [hrun, List.flatMap_singleton, List.map_singleton, List.sum_singleton,
      coins_registerCoinTransaction, coins_setCoins, transactions_eq_iff h, h, true_imp_iff,
      ← changed_eq_iff h]
    refine and_congr_left fun _ => ⟨fun hall => ?_, fun hcall type => ?_⟩
    · simpa using hall call.type
    · split
      · rename_i htype
        rw [← htype]
        exact hcall
      · rename_i htype
        simp [Call.change, htype]
  · obtain ⟨hstep, hamount⟩ := step_of_not_changes h
    refine iff_of_true ?_ fun hchanges => absurd hchanges h
    have hrun : a.run r [call] = (r, if (a.step r call).1 = .no then [call] else []) := by
      simp only [run, hstep]
    unfold Law
    simp only [hrun]
    split
    · rename_i hno
      have hzero := hamount hno
      cases htype : call.transactionType <;> simp [Call.change, Call.logged, hzero, htype]
    · simp

/-! ## Runs -/

theorem run_append (calls calls' : List Call) :
    a.run r (calls ++ calls') = ((a.run (a.run r calls).1 calls').1,
      (a.run r calls).2 ++ (a.run (a.run r calls).1 calls').2) := by
  induction calls generalizing r with
  | nil => rfl
  | cons call calls ih =>
    simp only [List.cons_append, run, ih]
    split <;> rfl

/-- The law goes on with the next call if it holds of this one. -/
theorem law_append_iff {calls : List Call} (h : a.Law r calls) :
    a.Law r (calls ++ [call]) ↔ a.Law (a.run r calls).1 [call] := by
  obtain ⟨hcoins, htransactions⟩ := h
  unfold Law
  simp only [run_append, List.map_append, List.sum_append, List.flatMap_append, hcoins,
    htransactions, List.append_assoc, add_assoc]

/-- A call that returns an error changes nothing. And after every call of a run the coins and the
transactions are those of the successful calls exactly if every call fits. -/
theorem coins_exact_iff (a : Account) (r : Repository) :
    (∀ r call, (a.step r call).1 ≠ .no → (a.step r call).2 = r) ∧
    ∀ calls, (∀ done, done <+: calls → a.Law r done) ↔
      ∀ done call, done ++ [call] <+: calls → a.Fits (a.run r done).1 call := by
  refine ⟨fun r call h => step_error h, fun calls => ⟨fun h done call hdone => ?_, fun h => ?_⟩⟩
  · have hlaw := h done ((List.prefix_append _ _).trans hdone)
    exact law_singleton.1 ((law_append_iff hlaw).1 (h _ hdone))
  · intro done
    induction done using List.reverseRecOn with
    | nil => exact fun _ => ⟨fun type => by simp [run], by simp [run]⟩
    | append_singleton done call ih =>
      intro hdone
      have hlaw := ih ((List.prefix_append _ _).trans hdone)
      exact (law_append_iff hlaw).2 (law_singleton.2 (h done call hdone))

end Account

/-- An account with as many coins as there can be. -/
def rich : Repository where
  coins _ _ := 2 ^ 32 - 1
  transactions := []

def oneMore : Call := ⟨.add, .coin, 1, "ADD Coins", ⟨false, false, false⟩⟩

/-- One coin more, and they are gone. -/
theorem coins_wrap :
    ((Account.mk 1 true).run rich [oneMore]).1.coins 1 .coin = 0 ∧
      ¬(Account.mk 1 true).Law rich [oneMore] := by
  refine ⟨by decide, fun h => ?_⟩
  have hcoins := h.1 .coin
  revert hcoins
  decide

end Canary.Coins
