import Canary.Lib.Transition
import Mathlib.Data.Int.Order.Basic
import Mathlib.Algebra.Order.Ring.Int

/-!
# Premium time

An account stores when its premium time ends (`premiumLastDay`) and how many days of it remain
(`premiumRemainingDays`). The days are those that were left when the account was loaded: they
are not counted down as the clock goes on, but `addPremiumDays` adds to them.

In every run in which days are added only while the stored ones are those that are left, and
none is loaded over days that were not saved (`Fits`), the end of the premium time is where it
was, moved by the days that were added (`premium_kept`). Otherwise the days that went by since
are given once more (`days_given_twice`).

A call takes no time. What the data base finds, and whether it accepts what is saved, are
arguments of the calls. `days * 86400` is undefined where it does not fit in 32 bits.
-/

namespace Canary.Account

open Transition

/-- A `time_t` does not overflow; the numbers of days are kept as such. -/
structure AccountInfo where
  premiumRemainingDays : ℤ
  premiumLastDay : ℤ
  premiumDaysPurchased : ℤ
  creationTime : ℤ
  deriving DecidableEq

def int32 (x : ℤ) : ℤ := x.bmod (2 ^ 32)

def uint32 (x : ℤ) : ℤ := x % 2 ^ 32

/-- The clock, the account and its row in the data base. -/
structure State where
  now : ℤ
  account : AccountInfo
  accLoaded : Bool
  row : AccountInfo
  deriving DecidableEq

inductive Error where
  | no
  | loadingAccount
  | notInitialized
  | storage
  deriving DecidableEq

/-- What a query finds: nothing, an account without a list of its players, or an account. -/
inductive Found where
  | absent
  | noPlayers
  | found
  deriving DecidableEq

namespace State

/-! ## The data base -/

/-- `AccountRepositoryDB::save`. The column of the last day has 32 bits, without a sign. -/
def repositorySave (s : State) (accepted : Bool) : State × Bool :=
  if accepted ∧ 0 ≤ s.account.premiumLastDay ∧ s.account.premiumLastDay < 2 ^ 32 then
    ({ s with row := s.account }, true)
  else (s, false)

def setupLoyaltyInfo (s : State) (accepted : Bool) : State :=
  let acc := s.account
  if acc.premiumDaysPurchased ≥ acc.premiumRemainingDays ∧ acc.creationTime ≠ 0 then s
  else
    let acc := if acc.premiumDaysPurchased < acc.premiumRemainingDays then
      { acc with premiumDaysPurchased := acc.premiumRemainingDays } else acc
    let acc := if acc.creationTime = 0 then { acc with creationTime := uint32 s.now } else acc
    ({ s with account := acc }.repositorySave accepted).1

/-- `AccountRepositoryDB::load`. -/
def repositoryLoad (s : State) (result : Found) (accepted : Bool) : State × Bool :=
  if result = .absent then (s, false)
  else
    let acc := { s.row with
      premiumRemainingDays :=
        if s.row.premiumLastDay > s.now then uint32 ((s.row.premiumLastDay - s.now).tdiv 86400)
        else 0 }
    ({ s with account := acc }.setupLoyaltyInfo accepted, result = .found)

/-! ## The account -/

def save (s : State) (accepted : Bool) : State × Error :=
  if s.accLoaded then
    let (s, saved) := s.repositorySave accepted
    (s, if saved then .no else .storage)
  else (s, .notInitialized)

def setPremiumDays (s : State) (days : ℤ) : Option State :=
  if -2 ^ 31 ≤ days * 86400 ∧ days * 86400 < 2 ^ 31 then
    if days ≤ 0 then
      some { s with account := { s.account with premiumLastDay := 0, premiumRemainingDays := 0 } }
    else
      some { s with account := { s.account with
        premiumRemainingDays := uint32 days
        premiumLastDay := s.now + days * 86400 } }
  else none

def addPremiumDays (s : State) (days : ℤ) : Option State := do
  let timeLeft := max 0 (int32 ((s.account.premiumLastDay - s.now).tmod 86400))
  let s ← s.setPremiumDays (int32 (s.account.premiumRemainingDays + days))
  let acc := { s.account with
    premiumDaysPurchased := uint32 (s.account.premiumDaysPurchased + days) }
  let acc := if timeLeft > 0 then
    { acc with premiumLastDay := acc.premiumLastDay + timeLeft } else acc
  return { s with account := acc }

/-- The first part of `updatePremiumTime`, before the account is saved. -/
def countDays (s : State) : Option State := do
  let lastDay := s.account.premiumLastDay
  let daysLeft := int32 ((lastDay - s.now).tdiv 86400)
  let timeLeft := int32 ((lastDay - s.now).tmod 86400)
  let s := { s with account := { s.account with
    premiumRemainingDays := if daysLeft > 0 then daysLeft else 0 } }
  let s ← if daysLeft = 0 ∧ timeLeft = 0 then s.setPremiumDays 0 else some s
  if lastDay < s.now ∨ lastDay = 0 then s.setPremiumDays 0 else some s

def updatePremiumTime (s : State) (accepted : Bool) : Option State := do
  let remainingDays := s.account.premiumRemainingDays
  let s ← s.countDays
  if remainingDays = s.account.premiumRemainingDays then
    return s
  else
    return (s.save accepted).1

/-- The queries of `Account::load`, one after the other. -/
def loadFrom (accepted : Bool) : List Found → State → Option (State × Error)
  | [], s => (s.updatePremiumTime accepted).map fun s => (s, .loadingAccount)
  | result :: results, s =>
    let (s, loaded) := s.repositoryLoad result accepted
    if loaded then some ({ s with accLoaded := true }, .no)
    else loadFrom accepted results s

/-- A query that is not made finds nothing. -/
def load (s : State) (byID byEmailOrName bySession : Found) (accepted : Bool) :
    Option (State × Error) :=
  loadFrom accepted [byID, byEmailOrName, bySession] s

def getPremiumRemainingDays (s : State) : ℤ :=
  if s.account.premiumLastDay > s.now then
    uint32 ((s.account.premiumLastDay - s.now).tdiv 86400)
  else 0

end State

/-! ## Days and seconds -/

/-- The whole days that are left. -/
def daysLeft (lastDay now : ℤ) : ℤ := if lastDay > now then (lastDay - now) / 86400 else 0

section Seconds

variable {x lastDay now : ℤ}

theorem tdiv_day (h : 0 ≤ x) : x.tdiv 86400 = x / 86400 := Int.tdiv_eq_ediv_of_nonneg h

theorem tmod_day (h : 0 ≤ x) : x.tmod 86400 = x % 86400 := Int.tmod_eq_emod_of_nonneg h

theorem uint32_eq (h : 0 ≤ x) (hlt : x < 2 ^ 32) : uint32 x = x := Int.emod_eq_of_lt h hlt

theorem int32_eq (h : -2 ^ 31 ≤ x) (hlt : x < 2 ^ 31) : int32 x = x :=
  Int.bmod_eq_of_le (by omega) (by omega)

theorem uint32_daysLeft (h : now < lastDay) (hlt : lastDay - now < 2 ^ 33) :
    uint32 ((lastDay - now).tdiv 86400) = daysLeft lastDay now := by
  rw [tdiv_day (by omega), daysLeft, if_pos h, uint32_eq (by omega) (by omega)]

theorem int32_daysLeft (h : now < lastDay) (hlt : lastDay - now < 2 ^ 33) :
    int32 ((lastDay - now).tdiv 86400) = daysLeft lastDay now := by
  rw [tdiv_day (by omega), daysLeft, if_pos h, int32_eq (by omega) (by omega)]

theorem int32_timeLeft (h : now < lastDay) :
    int32 ((lastDay - now).tmod 86400) = (lastDay - now) % 86400 := by
  rw [tmod_day (by omega), int32_eq (by omega) (by omega)]

theorem int32_timeLeft_nonpos (h : lastDay ≤ now) :
    int32 ((lastDay - now).tmod 86400) ≤ 0 := by
  have hneg : (lastDay - now).tmod 86400 = -((now - lastDay) % 86400) := by
    rw [← Int.neg_sub, Int.neg_tmod, tmod_day (by omega)]
  rw [hneg, int32_eq (by omega) (by omega)]
  omega

theorem daysLeft_of_le (h : lastDay ≤ now) : daysLeft lastDay now = 0 := if_neg (by omega)

theorem daysLeft_of_lt (h : now < lastDay) : daysLeft lastDay now = (lastDay - now) / 86400 :=
  if_pos h

/-- The days depend on the end only as far as it lies in the future. -/
theorem daysLeft_congr {lastDay' : ℤ} (h : max lastDay now = max lastDay' now) :
    daysLeft lastDay now = daysLeft lastDay' now := by
  rw [daysLeft, daysLeft]
  split <;> split <;> omega

end Seconds

/-! ## The end of the premium time -/

/-- A run: the state, and where the premium time ends. -/
structure Kept (s : State) (ends : ℤ) : Prop where
  now : 0 ≤ s.now
  row : 0 ≤ s.row.premiumLastDay ∧ s.row.premiumLastDay < 2 ^ 32
  bound : s.account.premiumLastDay - s.now < 2 ^ 33
  loaded : s.accLoaded = true → max s.account.premiumLastDay s.now = max ends s.now
  unloaded : s.accLoaded = false → max s.row.premiumLastDay s.now = max ends s.now

variable {s s' : State} {ends : ℤ} {accepted : Bool}

theorem repositorySave_cases (s : State) (accepted : Bool) :
    (s.repositorySave accepted).1 = s ∨
      ((s.repositorySave accepted).1 = { s with row := s.account } ∧
        0 ≤ s.account.premiumLastDay ∧ s.account.premiumLastDay < 2 ^ 32) := by
  rw [State.repositorySave]
  split
  case isTrue h => exact .inr ⟨rfl, h.2⟩
  case isFalse => exact .inl rfl

theorem Kept.save (h : Kept s ends) (accepted : Bool) : Kept (s.save accepted).1 ends := by
  rw [State.save]
  split
  case isFalse => exact h
  case isTrue hl =>
    have hunloaded : s.accLoaded = false → max s.account.premiumLastDay s.now = max ends s.now :=
      fun hf => by rw [hl] at hf; cases hf
    rcases repositorySave_cases s accepted with heq | ⟨heq, hrange⟩
    · rw [← heq] at h
      exact h
    · change Kept (s.repositorySave accepted).1 ends
      rw [heq]
      exact ⟨h.now, hrange, h.bound, h.loaded, hunloaded⟩

theorem save_account (s : State) (accepted : Bool) :
    (s.save accepted).1.account = s.account ∧ (s.save accepted).1.now = s.now := by
  rw [State.save]
  split
  case isFalse => exact ⟨rfl, rfl⟩
  case isTrue =>
    change (s.repositorySave accepted).1.account = _ ∧ (s.repositorySave accepted).1.now = _
    rcases repositorySave_cases s accepted with heq | ⟨heq, -⟩ <;> rw [heq] <;> exact ⟨rfl, rfl⟩

/-- The premium time is the same, in the account and in its row. -/
structure Same (s s' : State) : Prop where
  now : s'.now = s.now
  accLoaded : s'.accLoaded = s.accLoaded
  lastDay : s'.account.premiumLastDay = s.account.premiumLastDay
  days : s'.account.premiumRemainingDays = s.account.premiumRemainingDays
  row : s'.row.premiumLastDay = s.row.premiumLastDay

theorem same_repositorySave (h : s.row.premiumLastDay = s.account.premiumLastDay)
    (accepted : Bool) : Same s (s.repositorySave accepted).1 := by
  rcases repositorySave_cases s accepted with heq | ⟨heq, -⟩
  · rw [heq]
    exact ⟨rfl, rfl, rfl, rfl, rfl⟩
  · rw [heq]
    exact ⟨rfl, rfl, rfl, rfl, h.symm⟩

theorem same_setupLoyaltyInfo (h : s.row.premiumLastDay = s.account.premiumLastDay)
    (accepted : Bool) : Same s (s.setupLoyaltyInfo accepted) := by
  rw [State.setupLoyaltyInfo]
  split
  case isTrue => exact ⟨rfl, rfl, rfl, rfl, rfl⟩
  case isFalse =>
    -- Purchased days and the day of creation are set before the account is saved.
    have key : ∀ acc : AccountInfo, acc.premiumLastDay = s.account.premiumLastDay →
        acc.premiumRemainingDays = s.account.premiumRemainingDays →
        Same s (({ s with account := acc } : State).repositorySave accepted).1 := by
      intro acc hlast hdays
      have hsame :=
        same_repositorySave (s := { s with account := acc }) (h.trans hlast.symm) accepted
      exact ⟨hsame.now, hsame.accLoaded, hsame.lastDay.trans hlast, hsame.days.trans hdays,
        hsame.row⟩
    exact key _ (by split <;> split <;> rfl) (by split <;> split <;> rfl)

/-- What is read from the row of the account. -/
theorem repositoryLoad_of_ne (h : Kept s ends) {result : Found} (hr : result ≠ .absent)
    (accepted : Bool) :
    Same { s with account := { s.row with
        premiumRemainingDays := daysLeft s.row.premiumLastDay s.now } }
      (s.repositoryLoad result accepted).1 := by
  have hrow := h.row
  have hnow := h.now
  have hdays : (if s.row.premiumLastDay > s.now then
      uint32 ((s.row.premiumLastDay - s.now).tdiv 86400) else 0) =
      daysLeft s.row.premiumLastDay s.now := by
    split
    case isTrue hlt => exact uint32_daysLeft hlt (by omega)
    case isFalse hle => exact (daysLeft_of_le (by omega)).symm
  rw [State.repositoryLoad, if_neg hr]
  simp only [hdays]
  exact same_setupLoyaltyInfo rfl accepted

theorem setPremiumDays_zero (s : State) :
    s.setPremiumDays 0 = some { s with account := { s.account with
      premiumLastDay := 0, premiumRemainingDays := 0 } } := rfl

/-- The account has no premium time any more. -/
def expired (s : State) : State :=
  { s with account := { s.account with premiumLastDay := 0, premiumRemainingDays := 0 } }

theorem countDays_of_le (h : s.account.premiumLastDay ≤ s.now) :
    s.countDays = some (expired s) := by
  by_cases hlt : s.account.premiumLastDay < s.now ∨ s.account.premiumLastDay = 0
  · -- Whatever the days are after the first assignment, they are set to zero.
    rw [State.countDays]
    simp only [setPremiumDays_zero]
    split <;> exact if_pos hlt
  · have heq : s.account.premiumLastDay - s.now = 0 := by omega
    have hdays : int32 (Int.tdiv 0 86400) = 0 ∧ int32 (Int.tmod 0 86400) = 0 := by decide
    rw [State.countDays, heq]
    simp only [setPremiumDays_zero, if_pos hdays]
    exact if_neg hlt

theorem countDays_of_lt (h : s.now < s.account.premiumLastDay) (h0 : 0 ≤ s.now)
    (hbound : s.account.premiumLastDay - s.now < 2 ^ 33) :
    s.countDays = some { s with account := { s.account with
      premiumRemainingDays := daysLeft s.account.premiumLastDay s.now } } := by
  have hleft := daysLeft_of_lt h
  have hnot : ¬(daysLeft s.account.premiumLastDay s.now = 0 ∧
      (s.account.premiumLastDay - s.now) % 86400 = 0) := by
    rw [hleft]
    omega
  have hmax : (if daysLeft s.account.premiumLastDay s.now > 0 then
      daysLeft s.account.premiumLastDay s.now else 0) =
      daysLeft s.account.premiumLastDay s.now := by
    split <;> omega
  have hlast : ¬(s.account.premiumLastDay < s.now ∨ s.account.premiumLastDay = 0) := by omega
  rw [State.countDays, int32_daysLeft h hbound, int32_timeLeft h, if_neg hnot, hmax]
  exact if_neg hlast

/-- `updatePremiumTime` counts the days, and does not move their end. -/
theorem updatePremiumTime_kept (h : Kept s ends) (accepted : Bool) :
    ∃ s', s.updatePremiumTime accepted = some s' ∧ Kept s' ends ∧ s'.now = s.now ∧
      s'.account.premiumRemainingDays = daysLeft s'.account.premiumLastDay s'.now := by
  have hnow := h.now
  have hloaded := h.loaded
  obtain ⟨s₁, hcount, hkept, hs₁, hdays⟩ : ∃ s₁, s.countDays = some s₁ ∧ Kept s₁ ends ∧
      s₁.now = s.now ∧
      s₁.account.premiumRemainingDays = daysLeft s₁.account.premiumLastDay s₁.now := by
    rcases le_or_gt s.account.premiumLastDay s.now with hle | hlt
    · refine ⟨_, countDays_of_le hle, ⟨h.now, h.row, ?_, fun hl => ?_, h.unloaded⟩, rfl, ?_⟩
      · change 0 - s.now < _
        omega
      · have heq := hloaded hl
        change max 0 s.now = max ends s.now
        omega
      · exact (daysLeft_of_le hnow).symm
    · exact ⟨_, countDays_of_lt hlt hnow h.bound,
        ⟨h.now, h.row, h.bound, h.loaded, h.unloaded⟩, rfl, rfl⟩
  rw [State.updatePremiumTime, hcount]
  by_cases heq : s.account.premiumRemainingDays = s₁.account.premiumRemainingDays
  · exact ⟨s₁, if_pos heq, hkept, hs₁, hdays⟩
  · obtain ⟨hacc, htime⟩ := save_account s₁ accepted
    refine ⟨(s₁.save accepted).1, if_neg heq, hkept.save accepted, htime.trans hs₁, ?_⟩
    rw [hacc, htime]
    exact hdays

/-- The row and the account agree where the premium time ends. -/
def Agree (s : State) : Prop := max s.row.premiumLastDay s.now = max s.account.premiumLastDay s.now

theorem repositoryLoad_kept (h : Kept s ends) (hread : s.accLoaded = true → Agree s)
    {result : Found} (hr : result ≠ .absent) (accepted : Bool) :
    Kept (s.repositoryLoad result accepted).1 ends ∧
      max (s.repositoryLoad result accepted).1.account.premiumLastDay s.now = max ends s.now ∧
      Same { s with account := { s.row with
        premiumRemainingDays := daysLeft s.row.premiumLastDay s.now } }
        (s.repositoryLoad result accepted).1 := by
  have hsame := repositoryLoad_of_ne h hr accepted
  have hrow := h.row
  have hnow := h.now
  have hends : max s.row.premiumLastDay s.now = max ends s.now := by
    rcases hl : s.accLoaded with _ | _
    · exact h.unloaded hl
    · exact (hread hl).trans (h.loaded hl)
  obtain ⟨ht, hl, hlast, -, hrow'⟩ := id hsame
  have hlast' : max (s.repositoryLoad result accepted).1.account.premiumLastDay s.now =
      max ends s.now := by rw [hlast]; exact hends
  refine ⟨⟨by rw [ht]; exact hnow, by rw [hrow']; exact hrow, ?_, fun _ => ?_, fun _ => ?_⟩,
    hlast', hsame⟩
  · rw [hlast, ht]
    change s.row.premiumLastDay - s.now < _
    omega
  · rw [ht]
    exact hlast'
  · rw [hrow', ht]
    exact hends

theorem loadFrom_cons (result : Found) (results : List Found) (s : State) :
    State.loadFrom accepted (result :: results) s =
      if (s.repositoryLoad result accepted).2 then
        some ({ (s.repositoryLoad result accepted).1 with accLoaded := true }, .no)
      else State.loadFrom accepted results (s.repositoryLoad result accepted).1 := rfl

/-- `Account::load`: the queries of the list, and at last the days are counted. -/
theorem loadFrom_kept (accepted : Bool) (results : List Found) (h : Kept s ends)
    (hread : (∃ result ∈ results, result ≠ .absent) → s.accLoaded = true → Agree s) :
    ∃ s' e, State.loadFrom accepted results s = some (s', e) ∧ Kept s' ends ∧ s'.now = s.now ∧
      s'.account.premiumRemainingDays = daysLeft s'.account.premiumLastDay s'.now := by
  induction results generalizing s with
  | nil =>
    obtain ⟨s', hs', hkept, hnow, hdays⟩ := updatePremiumTime_kept h accepted
    refine ⟨s', .loadingAccount, ?_, hkept, hnow, hdays⟩
    rw [State.loadFrom, hs']
    rfl
  | cons result results ih =>
    by_cases hr : result = .absent
    · have hskip : s.repositoryLoad result accepted = (s, false) := if_pos hr
      rw [State.loadFrom, hskip]
      exact ih h fun ⟨r, hmem, hne⟩ => hread ⟨r, List.mem_cons_of_mem _ hmem, hne⟩
    · obtain ⟨hkept, hends, hsame⟩ :=
        repositoryLoad_kept h (hread ⟨result, List.mem_cons_self, hr⟩) hr accepted
      have hnow : (s.repositoryLoad result accepted).1.now = s.now := hsame.now
      rw [loadFrom_cons]
      rcases hloaded : (s.repositoryLoad result accepted).2 with _ | _
      · -- The row was read, but the call goes on as if it had not been.
        have hagree : Agree (s.repositoryLoad result accepted).1 := by
          rw [Agree, hsame.row, hsame.lastDay]
        obtain ⟨s', e, hs', hkept', hnow', hdays⟩ := ih hkept fun _ _ => hagree
        exact ⟨s', e, hs', hkept', hnow'.trans hnow, hdays⟩
      · rw [if_pos rfl]
        refine ⟨_, _, rfl, ⟨hkept.now, hkept.row, hkept.bound, fun _ => ?_, fun hf => ?_⟩, hnow, ?_⟩
        · change max (s.repositoryLoad result accepted).1.account.premiumLastDay
            (s.repositoryLoad result accepted).1.now = _
          rw [hnow]
          exact hends
        · cases hf
        · change (s.repositoryLoad result accepted).1.account.premiumRemainingDays =
            daysLeft (s.repositoryLoad result accepted).1.account.premiumLastDay
              (s.repositoryLoad result accepted).1.now
          rw [hsame.days, hsame.lastDay, hnow]

/-! ## Adding days -/

theorem setPremiumDays_of_pos {days : ℤ} (h : 0 < days) (hle : days ≤ 24855) (s : State) :
    s.setPremiumDays days = some { s with account := { s.account with
      premiumRemainingDays := days, premiumLastDay := s.now + days * 86400 } } := by
  rw [State.setPremiumDays, if_pos (by omega), if_neg (by omega), uint32_eq (by omega) (by omega)]

theorem addPremiumDays_eq {s₁ : State} {days total left : ℤ}
    (htotal : int32 (s.account.premiumRemainingDays + days) = total)
    (hleft : max 0 (int32 ((s.account.premiumLastDay - s.now).tmod 86400)) = left)
    (hset : s.setPremiumDays total = some s₁) :
    ∃ s', s.addPremiumDays days = some s' ∧ s'.now = s₁.now ∧ s'.row = s₁.row ∧
      s'.accLoaded = s₁.accLoaded ∧
      s'.account.premiumLastDay = s₁.account.premiumLastDay + left := by
  have hnonneg : 0 ≤ left := hleft ▸ le_max_left _ _
  rw [State.addPremiumDays, htotal, hleft, hset]
  refine ⟨_, rfl, rfl, rfl, rfl, ?_⟩
  change (ite _ _ _ : AccountInfo).premiumLastDay = _
  split
  case isTrue => rfl
  case isFalse h0 =>
    have hzero : left = 0 := by omega
    rw [hzero, Int.add_zero]

/-- Days are added to the end of the premium time, or to the time of the call. -/
theorem addPremiumDays_kept (h : Kept s ends) {days : ℕ} (hl : s.accLoaded = true)
    (hdays : s.account.premiumRemainingDays = daysLeft s.account.premiumLastDay s.now)
    (hpos : s.now < s.account.premiumLastDay → 0 < s.account.premiumRemainingDays + days)
    (hle : s.account.premiumRemainingDays + days ≤ 24855) :
    ∃ s', s.addPremiumDays days = some s' ∧ Kept s' (max ends s.now + days * 86400) := by
  have hnow := h.now
  have hbound := h.bound
  have hends := h.loaded hl
  have hd : 0 ≤ daysLeft s.account.premiumLastDay s.now := by
    rw [daysLeft]
    split <;> omega
  have htotal : int32 (s.account.premiumRemainingDays + days) =
      s.account.premiumRemainingDays + days := int32_eq (by omega) (by omega)
  -- What is left to show of the account that comes out of the two assignments.
  have finish : ∀ (s₁ : State) (left : ℤ),
      s.setPremiumDays (s.account.premiumRemainingDays + days) = some s₁ →
      max 0 (int32 ((s.account.premiumLastDay - s.now).tmod 86400)) = left →
      s₁.now = s.now → s₁.row = s.row → s₁.accLoaded = s.accLoaded →
      s₁.account.premiumLastDay + left - s.now < 2 ^ 33 →
      max (s₁.account.premiumLastDay + left) s.now = max ends s.now + days * 86400 →
      ∃ s', s.addPremiumDays days = some s' ∧ Kept s' (max ends s.now + days * 86400) := by
    intro s₁ left hset hleft ht hr hloaded hlt hmax
    obtain ⟨s', hs', ht', hr', hl', hlast⟩ := addPremiumDays_eq htotal hleft hset
    refine ⟨s', hs', by rw [ht', ht]; exact hnow, by rw [hr', hr]; exact h.row, ?_, fun _ => ?_,
      fun hf => ?_⟩
    · rw [hlast, ht', ht]
      exact hlt
    · rw [hlast, ht', ht, hmax]
      omega
    · rw [hl', hloaded, hl] at hf
      cases hf
  rcases le_or_gt s.account.premiumLastDay s.now with hle' | hlt
  · -- The premium time is over: no days are stored, and no part of a day is left.
    have hleft : max 0 (int32 ((s.account.premiumLastDay - s.now).tmod 86400)) = 0 :=
      max_eq_left (int32_timeLeft_nonpos hle')
    have hzero : s.account.premiumRemainingDays = 0 := hdays.trans (daysLeft_of_le hle')
    rcases Nat.eq_zero_or_pos days with rfl | hdays0
    · refine finish (expired s) 0 ?_ hleft rfl rfl rfl ?_ ?_
      · rw [hzero]
        rfl
      · change 0 + 0 - s.now < _
        omega
      · change max (0 + 0) s.now = _
        omega
    · refine finish _ 0 (setPremiumDays_of_pos (by omega) hle s) hleft rfl rfl rfl ?_ ?_
      · change s.now + (s.account.premiumRemainingDays + days) * 86400 + 0 - s.now < _
        omega
      · change max (s.now + (s.account.premiumRemainingDays + days) * 86400 + 0) s.now = _
        omega
  · -- Days and the part of a day make up the time that is left.
    have hleft : max 0 (int32 ((s.account.premiumLastDay - s.now).tmod 86400)) =
        (s.account.premiumLastDay - s.now) % 86400 := by
      rw [int32_timeLeft hlt]
      omega
    have hx := hdays.trans (daysLeft_of_lt hlt)
    refine finish _ _ (setPremiumDays_of_pos (hpos hlt) hle s) hleft rfl rfl rfl ?_ ?_
    · change s.now + (s.account.premiumRemainingDays + days) * 86400 + _ - s.now < _
      omega
    · change max (s.now + (s.account.premiumRemainingDays + days) * 86400 + _) s.now = _
      omega

/-! ## Runs -/

inductive Op where
  | load (byID byEmailOrName bySession : Found) (accepted : Bool)
  | save (accepted : Bool)
  /-- The clock goes on. -/
  | advance (seconds : ℕ)
  | addPremiumDays (days : ℕ)

def next (s : State) : Op → Option State
  | .load byID byEmailOrName bySession accepted =>
    (s.load byID byEmailOrName bySession accepted).map Prod.fst
  | .save accepted => some (s.save accepted).1
  | .advance seconds => some { s with now := s.now + seconds }
  | .addPremiumDays days => s.addPremiumDays days

/-- Where the premium time has to end: days are added to the end if it lies in the future, and
to the time of the call if not. -/
def nextEnds (s : State) (ends : ℤ) : Op → ℤ
  | .addPremiumDays days => max ends s.now + days * 86400
  | _ => ends

/-- The accounts that are stored, and not loaded yet. -/
def IsInit (p : State × ℤ) : Prop :=
  0 ≤ p.1.now ∧ 0 ≤ p.1.row.premiumLastDay ∧ p.1.row.premiumLastDay < 2 ^ 32 ∧
    p.1.account = ⟨0, 0, 0, 0⟩ ∧ p.1.accLoaded = false ∧ p.2 = p.1.row.premiumLastDay

/-- An account, and where its premium time has to end. -/
def premium : System (State × ℤ) Op :=
  .ofNext IsInit fun p op => (next p.1 op).map fun s => (s, nextEnds p.1 p.2 op)

/-- Days are added to a loaded account whose days are those that are left, at most 24855 days
altogether, and not none to less than a day. What was not saved is not loaded. -/
def Fits (s : State) : Op → Prop
  | .load byID byEmailOrName bySession _ =>
    (∃ result ∈ [byID, byEmailOrName, bySession], result ≠ .absent) → s.accLoaded = true → Agree s
  | .addPremiumDays days => s.accLoaded = true ∧
    s.account.premiumRemainingDays = daysLeft s.account.premiumLastDay s.now ∧
    (s.now < s.account.premiumLastDay → 0 < s.account.premiumRemainingDays + days) ∧
    s.account.premiumRemainingDays + days ≤ 24855
  | _ => True

theorem next_kept (h : Kept s ends) {op : Op} (hfits : Fits s op) :
    ∃ s', next s op = some s' ∧ Kept s' (nextEnds s ends op) := by
  cases op with
  | load byID byEmailOrName bySession accepted =>
    obtain ⟨s', e, hs', hkept, -, -⟩ := loadFrom_kept accepted _ h hfits
    exact ⟨s', congrArg (Option.map Prod.fst) hs', hkept⟩
  | save accepted => exact ⟨_, rfl, h.save accepted⟩
  | advance seconds =>
    obtain ⟨hnow, hrow, hbound, hloaded, hunloaded⟩ := h
    refine ⟨_, rfl, by change 0 ≤ s.now + seconds; omega, hrow, ?_, fun hl => ?_, fun hl => ?_⟩
    · change s.account.premiumLastDay - (s.now + seconds) < _
      omega
    · have heq := hloaded hl
      change max s.account.premiumLastDay (s.now + seconds) = max ends (s.now + seconds)
      omega
    · have heq := hunloaded hl
      change max s.row.premiumLastDay (s.now + seconds) = max ends (s.now + seconds)
      omega
  | addPremiumDays days =>
    obtain ⟨hl, hdays, hpos, hle⟩ := hfits
    exact addPremiumDays_kept h hl hdays hpos hle

theorem kept_of_reachable {p : State × ℤ} (h : premium.ReachableVia (fun p op => Fits p.1 op) p) :
    Kept p.1 p.2 := by
  refine System.ReachableVia.invariant (I := fun p => Kept p.1 p.2) ?_ ?_ h
  · rintro ⟨s, ends⟩ ⟨hnow, h0, hlt, hacc, hl, hends⟩
    simp only at hnow h0 hlt hacc hl hends
    refine ⟨hnow, ⟨h0, hlt⟩, ?_, fun hc => ?_, fun _ => by rw [hends]⟩
    · rw [hacc]
      change 0 - s.now < _
      omega
    · rw [hl] at hc
      cases hc
  · rintro ⟨s, ends⟩ op p' hk hfits hstep
    obtain ⟨s', hs', hk'⟩ := next_kept hk hfits
    change (next s op).map _ = some p' at hstep
    rw [hs'] at hstep
    cases hstep
    exact hk'

/-- In every run whose steps are fit, the premium time of a loaded account ends where it has to,
no step is undefined, and after a load the days that are reported are those that are left. -/
theorem premium_kept {s : State} {ends : ℤ}
    (h : premium.ReachableVia (fun p op => Fits p.1 op) (s, ends)) :
    (s.accLoaded = true → max s.account.premiumLastDay s.now = max ends s.now) ∧
    (∀ op, Fits s op → (next s op).isSome) ∧
    ∀ byID byEmailOrName bySession accepted s',
      Fits s (.load byID byEmailOrName bySession accepted) →
      next s (.load byID byEmailOrName bySession accepted) = some s' → s'.accLoaded = true →
      s'.account.premiumRemainingDays = daysLeft ends s'.now ∧
        s'.getPremiumRemainingDays = daysLeft ends s'.now := by
  have hk : Kept s ends := kept_of_reachable h
  refine ⟨hk.loaded, fun op hop => ?_,
    fun byID byEmailOrName bySession accepted s' hop hs' hl => ?_⟩
  · obtain ⟨s', hs', -⟩ := next_kept hk hop
    rw [hs']
    rfl
  · obtain ⟨s₁, e, hs₁, hkept, -, hdays⟩ := loadFrom_kept accepted _ hk hop
    have heq : next s (.load byID byEmailOrName bySession accepted) = some s₁ :=
      congrArg (Option.map Prod.fst) hs₁
    rw [hs'] at heq
    cases heq
    have hends := daysLeft_congr (hkept.loaded hl)
    have hbound := hkept.bound
    refine ⟨hdays.trans hends, ?_⟩
    rw [← hends, State.getPremiumRemainingDays]
    split
    case isTrue hlt => exact uint32_daysLeft hlt hbound
    case isFalse hle => exact (daysLeft_of_le (by omega)).symm

/-- An account with ten days of premium time, on the eleventh day of the clock. -/
def stored : State := ⟨1000000, ⟨0, 0, 0, 0⟩, false, ⟨10, 1864000, 10, 1⟩⟩

/-- The account, loaded and with five days more. -/
def renewed : State := ⟨1000000, ⟨15, 2296000, 15, 1⟩, true, stored.row⟩

/-- The account, five days after it was loaded and with five days more. -/
def renewedLate : State := ⟨1432000, ⟨15, 2728000, 15, 1⟩, true, stored.row⟩

theorem isInit_stored : IsInit (stored, 1864000) :=
  ⟨by decide, by decide, by decide, rfl, rfl, rfl⟩

theorem premium_kept_stored :
    max renewed.account.premiumLastDay renewed.now = max (1864000 + 5 * 86400) renewed.now := by
  have hload : premium.ReachableVia (fun p op => Fits p.1 op)
      (⟨1000000, stored.row, true, stored.row⟩, 1864000) :=
    .step (a := .load .absent .found .absent true) (.init isInit_stored)
      (fun _ hl => absurd hl (by decide)) (by rfl)
  have hadd : premium.ReachableVia (fun p op => Fits p.1 op) (renewed, 1864000 + 5 * 86400) :=
    .step (a := .addPremiumDays 5) hload ⟨rfl, by decide, by decide, by decide⟩ (by rfl)
  exact (premium_kept hadd).1 rfl

/-- Five days after it was loaded with ten, five days are added: the end moves by ten. -/
theorem days_given_twice :
    premium.Reachable (renewedLate, 1864000 + 5 * 86400) ∧ renewedLate.accLoaded = true ∧
      max renewedLate.account.premiumLastDay renewedLate.now ≠
        max (1864000 + 5 * 86400) renewedLate.now :=
  ⟨System.reachable_of_foldlM (l := [.load .absent .found .absent true, .advance 432000,
    .addPremiumDays 5]) (.init isInit_stored) (by rfl), rfl, by decide⟩

end Canary.Account
