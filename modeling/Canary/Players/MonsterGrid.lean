import Canary.Players.Prey
import Canary.Lib.QuotaSampling
import Mathlib

/-!
# Lists of monsters

The slots for prey and for hunting tasks draw their lists of nine monsters in the same way: races
of the bestiary are drawn until there are nine. A race that is listed already, in this slot or in
another, is passed over. Each level has a quota of monsters for every number of stars; a race
beyond the quota is accepted only if there were ten tries since the last such one.

What is drawn is passed over from then on, even if it was not accepted. So a list can be completed,
whatever was drawn before, if and only if there are as many races that may be accepted as the quota
asks for, for every number of stars (`grid_fills_iff`); otherwise it may happen that all races of
the bestiary are passed over, and the loop does not end.

A list that is completed has nine different races, none of which was listed before.
-/

namespace Canary.Players.Prey

open Transition Sampling

/-! ## Task hunting -/

structure TaskHuntingSlot where
  selectedRaceId : UInt16 := 0
  raceIdList : List UInt16 := []

namespace TaskHuntingSlot

variable (slot : TaskHuntingSlot)

def isOccupied : Bool := slot.selectedRaceId ≠ 0

def reloadMonsterGrid (taskHuntingEnabled : Bool) (c : Config) (blackList : List UInt16)
    (level : ℕ) (draws : List ℕ) : Option TaskHuntingSlot :=
  if !taskHuntingEnabled then some { slot with raceIdList := [] }
  else if c.bestiary.length < 36 then some { slot with raceIdList := [] }
  else ((Grid.new blackList level).fill c draws).map fun l => { slot with raceIdList := l }

end TaskHuntingSlot

def getTaskHuntingBlackList (taskHunting : List TaskHuntingSlot) : List UInt16 :=
  taskHunting.flatMap fun slot =>
    if slot.isOccupied then [slot.selectedRaceId] else slot.raceIdList

/-! ## Stages -/

/-- The stages that the quotas are for. -/
inductive Stage
  | one
  | two
  | three
  | four
  deriving DecidableEq

instance : Fintype Stage where
  elems := {.one, .two, .three, .four}
  complete s := by cases s <;> decide

def Stage.ofStars (bestiaryStars : ℕ) : Stage :=
  if bestiaryStars ≤ 1 then .one
  else if bestiaryStars = 2 then .two
  else if bestiaryStars = 3 then .three
  else .four

/-- The stage of a race that may be accepted: it has a monster, with experience. -/
def Config.stageOf (c : Config) (raceId : UInt16) : Option Stage :=
  (c.getMonsterTypeByRaceId raceId).bind fun mtype =>
    if mtype.experience = 0 then none else some (.ofStars mtype.bestiaryStars)

namespace Grid

variable (g : Grid)

def stage : Stage → ℕ
  | .one => g.stageOne
  | .two => g.stageTwo
  | .three => g.stageThree
  | .four => g.stageFour

/-- The sample that the loop takes of the bestiary. -/
def sample : Sample UInt16 Stage := ⟨g.raceIdList, g.blackList, g.stage⟩

end Grid

def quota (level : ℕ) : Stage → ℕ := (Grid.new [] level).stage

theorem sum_quota (level : ℕ) : ∑ s, quota level s = 9 := by
  rw [quota, Grid.new]
  split_ifs <;> rfl

theorem sample_new (blackList : List UInt16) (level : ℕ) :
    (Grid.new blackList level).sample = ⟨[], blackList, quota level⟩ := by
  rw [quota, Grid.new, Grid.new]
  split_ifs <;> rfl

theorem tries_new (blackList : List UInt16) (level : ℕ) : (Grid.new blackList level).tries = 0 := by
  rw [Grid.new]
  split_ifs <;> rfl

namespace Grid

variable (c : Config)

/-- The race for the number `n`. -/
def race (n : ℕ) : UInt16 := c.bestiary.getD (uniformRandom 0 (c.bestiary.length - 1) n) 0

variable {c} {g : Grid} {n : ℕ}

/-- The grid with one place of a stage taken. -/
def takeStage (g : Grid) : Stage → Grid
  | .one => { g with stageOne := g.stageOne - 1 }
  | .two => { g with stageTwo := g.stageTwo - 1 }
  | .three => { g with stageThree := g.stageThree - 1 }
  | .four => { g with stageFour := g.stageFour - 1 }

theorem sample_takeStage (s : Stage) :
    (g.takeStage s).sample = ⟨g.raceIdList, g.blackList, takeRoom g.stage s⟩ := by
  have hstage : (g.takeStage s).stage = takeRoom g.stage s := by
    funext t
    cases s <;> cases t <;> rfl
  rw [sample, hstage]
  cases s <;> rfl

theorem raceIdList_takeStage (s : Stage) : (g.takeStage s).raceIdList = g.raceIdList := by
  cases s <;> rfl

theorem tries_takeStage (s : Stage) : (g.takeStage s).tries = g.tries := by
  cases s <;> rfl

/-- The grid with a try more, which the race is passed over after. -/
def pass (g : Grid) (raceId : UInt16) : Grid :=
  { g with tries := g.tries + 1, blackList := g.blackList ++ [raceId] }

theorem draw_of_mem (h : race c n ∈ g.blackList) :
    g.draw c n = { g with tries := g.tries + 1 } := by
  rw [draw]
  exact if_pos h

theorem draw_of_stageOf_eq_none (h : race c n ∉ g.blackList)
    (hstage : c.stageOf (race c n) = none) : g.draw c n = g.pass (race c n) := by
  have hrace : c.bestiary.getD (uniformRandom 0 (c.bestiary.length - 1) n) 0 = race c n := rfl
  rw [draw]
  dsimp only
  rw [hrace, if_neg h]
  rw [Config.stageOf] at hstage
  cases hmtype : c.getMonsterTypeByRaceId (race c n) with
  | none => rfl
  | some mtype =>
    rw [hmtype, Option.bind_some] at hstage
    split_ifs at hstage with hexp
    exact if_pos hexp

theorem draw_of_stageOf {s : Stage} (h : race c n ∉ g.blackList)
    (hstage : c.stageOf (race c n) = some s) :
    g.draw c n =
      if g.stage s ≠ 0 then ((g.pass (race c n)).add (race c n)).takeStage s
      else if g.tries + 1 ≥ 10 then { (g.pass (race c n)).add (race c n) with tries := 0 }
      else g.pass (race c n) := by
  have hrace : c.bestiary.getD (uniformRandom 0 (c.bestiary.length - 1) n) 0 = race c n := rfl
  rw [draw]
  dsimp only
  rw [hrace, if_neg h]
  rw [Config.stageOf] at hstage
  cases hmtype : c.getMonsterTypeByRaceId (race c n) with
  | none =>
    rw [hmtype] at hstage
    cases hstage
  | some mtype =>
    rw [hmtype, Option.bind_some] at hstage
    split_ifs at hstage with hexp
    refine (if_neg hexp).trans ?_
    have hstars : mtype.bestiaryStars ≤ 1 ∨ mtype.bestiaryStars = 2 ∨ mtype.bestiaryStars = 3 ∨
        4 ≤ mtype.bestiaryStars := by
      omega
    obtain rfl := Option.some.inj hstage
    rcases hstars with hstars | hstars | hstars | hstars
    · have htwo : mtype.bestiaryStars ≠ 2 := by omega
      have hthree : mtype.bestiaryStars ≠ 3 := by omega
      have hfour : ¬4 ≤ mtype.bestiaryStars := by omega
      simp [Stage.ofStars, stage, takeStage, pass, hstars, htwo, hthree, hfour, add, race]
    · simp [Stage.ofStars, stage, takeStage, pass, hstars, add, race]
    · simp [Stage.ofStars, stage, takeStage, pass, hstars, add, race]
    · have hone : ¬mtype.bestiaryStars ≤ 1 := by omega
      have htwo : mtype.bestiaryStars ≠ 2 := by omega
      have hthree : mtype.bestiaryStars ≠ 3 := by omega
      simp [Stage.ofStars, stage, takeStage, pass, hstars, hone, htwo, hthree, add, race]

/-- What a draw does to the list is a draw of the sample. -/
theorem draw_sample : Draw c.stageOf g.sample (race c n) (g.draw c n).sample := by
  by_cases h : race c n ∈ g.blackList
  · rw [draw_of_mem h]
    exact .again h
  · cases hstage : c.stageOf (race c n) with
    | none =>
      rw [draw_of_stageOf_eq_none h hstage]
      exact .refuse h fun s hs => absurd (hstage.symm.trans hs) nofun
    | some s =>
      rw [draw_of_stageOf h hstage]
      split_ifs with hroom hlate
      · rw [sample_takeStage]
        exact .take h hstage hroom
      · exact .exceed h hstage (not_not.1 hroom)
      · refine .refuse h fun t ht => ?_
        obtain rfl := Option.some.inj (hstage.symm.trans ht)
        exact not_not.1 hroom

/-- In fewer than ten tries nothing is accepted beyond the quota. -/
theorem draw_of_tries_lt (htries : g.tries + 1 < 10) :
    (g.draw c n).tries = g.tries + 1 ∧ (g.draw c n).sample.size = g.sample.size := by
  by_cases h : race c n ∈ g.blackList
  · rw [draw_of_mem h]
    exact ⟨rfl, rfl⟩
  · cases hstage : c.stageOf (race c n) with
    | none =>
      rw [draw_of_stageOf_eq_none h hstage]
      exact ⟨rfl, rfl⟩
    | some s =>
      rw [draw_of_stageOf h hstage]
      split_ifs with hroom hlate
      · rw [sample_takeStage, tries_takeStage]
        exact ⟨rfl, size_take hroom⟩
      · exact absurd hlate (UInt8.not_le.2 htries)
      · exact ⟨rfl, rfl⟩

/-- A draw while there are fewer than nine. -/
def next (c : Config) (g : Grid) (n : ℕ) : Option Grid :=
  if g.raceIdList.length < 9 then some (g.draw c n) else none

/-- The loop of `reloadMonsterGrid`. -/
def loop (c : Config) (blackList : List UInt16) (level : ℕ) : System Grid ℕ :=
  .ofNext (· = new blackList level) (next c)

/-! ## The states of the loop -/

variable {blackList : List UInt16} {level : ℕ} {g' : Grid}

theorem next_eq_some_iff : next c g n = some g' ↔ g.raceIdList.length < 9 ∧ g.draw c n = g' := by
  rw [next, Option.ite_none_right_eq_some, Option.some.injEq]

theorem Reachable.draw (hg : (loop c blackList level).Reachable g)
    (hlength : g.raceIdList.length < 9) (n : ℕ) : (loop c blackList level).Reachable (g.draw c n) :=
  .step hg trivial (next_eq_some_iff.2 ⟨hlength, rfl⟩)

variable (c) in
/-- The races of the bestiary, as a set. -/
def pool : Finset UInt16 := c.bestiary.toFinset

theorem race_mem (hbestiary : c.bestiary ≠ []) (n : ℕ) : race c n ∈ pool c := by
  have hpos := List.length_pos_iff.2 hbestiary
  have hlt : uniformRandom 0 (c.bestiary.length - 1) n < c.bestiary.length := by
    rw [uniformRandom, Nat.sub_zero, Nat.sub_add_cancel hpos, Nat.zero_add]
    exact Nat.mod_lt n hpos
  rw [pool, List.mem_toFinset, race, List.getD_eq_getElem _ _ hlt]
  exact List.getElem_mem hlt

theorem exists_race {raceId : UInt16} (h : raceId ∈ pool c) : ∃ n, race c n = raceId := by
  rw [pool, List.mem_toFinset] at h
  obtain ⟨n, hlt, rfl⟩ := List.mem_iff_getElem.1 h
  refine ⟨n, ?_⟩
  have hrandom : uniformRandom 0 (c.bestiary.length - 1) n = n := by
    rw [uniformRandom, Nat.sub_zero, Nat.zero_add]
    exact Nat.mod_eq_of_lt (by omega)
  rw [race, hrandom, List.getD_eq_getElem _ _ hlt]

/-- What holds in the states of the loop. -/
structure Inv (c : Config) (blackList : List UInt16) (level : ℕ) (g : Grid) : Prop where
  tracks : Tracks c.stageOf (pool c) ⟨[], blackList, quota level⟩ g.sample
  size_ge : 9 ≤ g.sample.size
  length_le : g.raceIdList.length ≤ 9

theorem Inv.draw (hbestiary : c.bestiary ≠ []) (h : Inv c blackList level g)
    (hlength : g.raceIdList.length < 9) (n : ℕ) : Inv c blackList level (g.draw c n) := by
  have hdraw := @draw_sample c g n
  exact ⟨h.tracks.draw (race_mem hbestiary n) hdraw, h.size_ge.trans hdraw.size_le,
    hdraw.length_le.trans hlength⟩

theorem inv_of_reachable (hbestiary : c.bestiary ≠ []) (hg : (loop c blackList level).Reachable g) :
    Inv c blackList level g := by
  refine hg.invariant ?_ ?_
  · rintro _ rfl
    refine ⟨?_, ?_, ?_⟩
    · rw [sample_new]
      exact tracks_refl rfl
    · rw [sample_new, Sample.size, sum_quota]
      exact Nat.le_add_left 9 _
    · change (new blackList level).sample.chosen.length ≤ 9
      rw [sample_new]
      exact Nat.zero_le 9
  · rintro g n g' h - hnext
    obtain ⟨hlength, rfl⟩ := next_eq_some_iff.1 hnext
    exact h.draw hbestiary hlength n

theorem fill_of_ge (h : 9 ≤ g.raceIdList.length) (draws : List ℕ) :
    g.fill c draws = some g.raceIdList := by
  cases draws with
  | nil => exact if_neg (Nat.not_lt.2 h)
  | cons n draws => exact if_neg (Nat.not_lt.2 h)

theorem fill_cons_of_lt (h : g.raceIdList.length < 9) (draws : List ℕ) :
    g.fill c (n :: draws) = (g.draw c n).fill c draws :=
  if_pos h

/-- A list that is completed is that of a state of the loop. -/
theorem Inv.fill (hbestiary : c.bestiary ≠ []) (h : Inv c blackList level g) {draws : List ℕ}
    {l : List UInt16} (hfill : g.fill c draws = some l) :
    ∃ g', Inv c blackList level g' ∧ 9 ≤ g'.raceIdList.length ∧ g'.raceIdList = l := by
  rcases Nat.lt_or_ge g.raceIdList.length 9 with hlength | hlength
  · induction draws generalizing g with
    | nil =>
      rw [Grid.fill, if_pos hlength] at hfill
      exact absurd hfill nofun
    | cons n draws ih =>
      rw [fill_cons_of_lt hlength] at hfill
      have hnext := h.draw hbestiary hlength n
      rcases Nat.lt_or_ge (g.draw c n).raceIdList.length 9 with hlength' | hlength'
      · exact ih hnext hfill hlength'
      · rw [fill_of_ge hlength'] at hfill
        exact ⟨_, hnext, hlength', Option.some.inj hfill⟩
  · rw [fill_of_ge hlength] at hfill
    exact ⟨g, h, hlength, Option.some.inj hfill⟩

/-! ### Enough races -/

/-- There are as many races that may be accepted as the quota asks for. -/
def Enough (c : Config) (blackList : List UInt16) (level : ℕ) : Prop :=
  ∀ s, quota level s ≤ (available c.stageOf (pool c) blackList s).card

theorem Inv.exists_accepted (h : Inv c blackList level g)
    (henough : Enough c blackList level) (hlength : g.raceIdList.length < 9) :
    ∃ n, (g.draw c n).raceIdList.length = g.raceIdList.length + 1 := by
  have hsize := h.size_ge
  rw [Sample.size] at hsize
  have hsum : ∑ s, g.sample.room s ≠ 0 := by
    change 9 ≤ g.raceIdList.length + _ at hsize
    omega
  obtain ⟨s, -, hroom⟩ := Finset.exists_ne_zero_of_sum_ne_zero hsum
  obtain ⟨raceId, hpool, hnew, hstage⟩ := h.tracks.exists_room hroom (henough s)
  obtain ⟨n, rfl⟩ := exists_race hpool
  refine ⟨n, ?_⟩
  have hplace : g.stage s ≠ 0 := hroom
  rw [draw_of_stageOf hnew hstage, if_pos hplace, raceIdList_takeStage]
  exact List.length_append

theorem Inv.exists_draws (hbestiary : c.bestiary ≠ []) (h : Inv c blackList level g)
    (henough : Enough c blackList level) {k : ℕ} (hk : 9 ≤ g.raceIdList.length + k) :
    ∃ draws, (g.fill c draws).isSome := by
  induction k generalizing g with
  | zero => exact ⟨[], by rw [fill_of_ge hk, Option.isSome_some]⟩
  | succ k ih =>
    rcases Nat.lt_or_ge g.raceIdList.length 9 with hlength | hlength
    · obtain ⟨n, hn⟩ := h.exists_accepted henough hlength
      obtain ⟨draws, hdraws⟩ := ih (h.draw hbestiary hlength n) (by omega)
      exact ⟨n :: draws, by rwa [fill_cons_of_lt hlength]⟩
    · exact ⟨[], by rw [fill_of_ge hlength, Option.isSome_some]⟩

/-! ### Too few races -/

/-- Nothing was accepted beyond the quota. -/
def Frugal (g : Grid) : Prop := g.sample.size = 9

theorem Inv.length_lt (h : Inv c blackList level g) (hfrugal : g.Frugal) {s : Stage}
    (hfew : (available c.stageOf (pool c) blackList s).card < quota level s) :
    g.raceIdList.length < 9 := by
  have hroom : g.sample.room s ≠ 0 := h.tracks.room_ne_zero hfew
  have hle := Finset.single_le_sum (fun t _ => Nat.zero_le (g.sample.room t)) (Finset.mem_univ s)
  have hsize : g.raceIdList.length + ∑ s, g.sample.room s = 9 := hfrugal
  omega

/-- The tries go up as often as a race that is passed over is drawn. -/
theorem reachable_tries (hg : (loop c blackList level).Reachable g)
    (hlength : g.raceIdList.length < 9) (hrace : race c n ∈ g.blackList) (m : ℕ) :
    (loop c blackList level).Reachable { g with tries := g.tries + UInt8.ofNat m } := by
  induction m with
  | zero => exact (UInt8.add_zero g.tries).symm ▸ hg
  | succ m ih =>
    have hnext := Reachable.draw ih hlength n
    have hdraw := draw_of_mem (g := { g with tries := g.tries + UInt8.ofNat m }) hrace
    rw [hdraw] at hnext
    have htries : g.tries + UInt8.ofNat (m + 1) = g.tries + UInt8.ofNat m + 1 := by
      rw [UInt8.ofNat_add, ← UInt8.add_assoc]
      rfl
    rw [htries]
    exact hnext

/-- Any races of the bestiary can be passed over, with nothing accepted beyond the quota. -/
theorem exists_passed (hbestiary : c.bestiary ≠ []) {s : Stage}
    (hfew : (available c.stageOf (pool c) blackList s).card < quota level s) {races : List UInt16}
    (hraces : ∀ r ∈ races, r ∈ pool c) :
    ∃ g, (loop c blackList level).Reachable g ∧ g.Frugal ∧ g.tries = 0 ∧
      ∀ r ∈ races, r ∈ g.blackList := by
  induction races with
  | nil =>
    refine ⟨new blackList level, .init rfl, ?_, tries_new blackList level, by simp⟩
    rw [Frugal, sample_new, Sample.size, sum_quota]
    rfl
  | cons r races ih =>
    obtain ⟨g, hg, hfrugal, htries, hpassed⟩ := ih fun r hr => hraces r (List.mem_cons_of_mem _ hr)
    have hlength := (inv_of_reachable hbestiary hg).length_lt hfrugal hfew
    obtain ⟨n, rfl⟩ := exists_race (hraces r List.mem_cons_self)
    have hfirst : g.tries + 1 < 10 := by
      rw [htries]
      decide
    obtain ⟨htries', hsize⟩ := draw_of_tries_lt (c := c) (n := n) hfirst
    have hg' := Reachable.draw hg hlength n
    have hfrugal' : (g.draw c n).Frugal := hsize.trans hfrugal
    have hlength' := (inv_of_reachable hbestiary hg').length_lt hfrugal' hfew
    have hspent := (draw_sample (c := c) (g := g) (n := n)).mem_spent
    have hsubset := (draw_sample (c := c) (g := g) (n := n)).spent_subset
    -- Drawing the race again takes the number of tries round to zero.
    refine ⟨_, reachable_tries hg' hlength' hspent 255, hfrugal', ?_, ?_⟩
    · rw [htries', htries]
      rfl
    · intro r hr
      rcases List.mem_cons.1 hr with rfl | hr
      · exact hspent
      · exact hsubset (hpassed r hr)

/-- When every race of the bestiary is passed over, the loop does not end. -/
theorem fill_of_passed (hbestiary : c.bestiary ≠ []) (hpassed : ∀ r ∈ pool c, r ∈ g.blackList)
    (hlength : g.raceIdList.length < 9) (draws : List ℕ) : g.fill c draws = none := by
  induction draws generalizing g with
  | nil => exact if_pos hlength
  | cons n draws ih =>
    rw [fill_cons_of_lt hlength, draw_of_mem (hpassed _ (race_mem hbestiary n))]
    exact ih hpassed hlength

/-- From every state of the loop with fewer than nine races there are draws that complete
    the list. -/
def Completes (c : Config) (blackList : List UInt16) (level : ℕ) : Prop :=
  ∀ g, (loop c blackList level).Reachable g → g.raceIdList.length < 9 →
    ∃ draws, (g.fill c draws).isSome

theorem completes_of_enough (hbestiary : c.bestiary ≠ []) (henough : Enough c blackList level) :
    Completes c blackList level :=
  fun _ hg _ => (inv_of_reachable hbestiary hg).exists_draws hbestiary henough (Nat.le_add_left 9 _)

theorem not_completes (hbestiary : c.bestiary ≠ []) (hfew : ¬Enough c blackList level) :
    ¬Completes c blackList level := by
  intro hcompletes
  rw [Enough, not_forall] at hfew
  obtain ⟨s, hs⟩ := hfew
  rw [Nat.not_le] at hs
  obtain ⟨g, hg, hfrugal, -, hpassed⟩ :=
    exists_passed hbestiary hs fun r (hr : r ∈ c.bestiary) => List.mem_toFinset.2 hr
  have hlength := (inv_of_reachable hbestiary hg).length_lt hfrugal hs
  obtain ⟨draws, hdraws⟩ := hcompletes g hg hlength
  rw [fill_of_passed hbestiary (fun r hr => hpassed r (List.mem_toFinset.1 hr)) hlength] at hdraws
  exact absurd hdraws nofun

/-- A list of nine different races, none of which was listed before. -/
def Fresh (blackList l : List UInt16) : Prop := l.length = 9 ∧ l.Nodup ∧ ∀ r ∈ l, r ∉ blackList

theorem fresh_of_fill (hbestiary : c.bestiary ≠ []) {draws : List ℕ} {l : List UInt16}
    (hfill : (new blackList level).fill c draws = some l) : Fresh blackList l := by
  have hnew := inv_of_reachable hbestiary (.init (T := loop c blackList level) rfl)
  obtain ⟨g, hg, hlength, rfl⟩ := hnew.fill hbestiary hfill
  exact ⟨Nat.le_antisymm hg.length_le hlength, hg.tracks.nodup, hg.tracks.fresh⟩

end Grid

theorem ne_nil_of_length {c : Config} (hbestiary : 36 ≤ c.bestiary.length) : c.bestiary ≠ [] := by
  rintro h
  rw [h] at hbestiary
  exact absurd hbestiary (by decide)

theorem PreySlot.fresh_of_reloadMonsterGrid {c : Config} (hbestiary : 36 ≤ c.bestiary.length)
    (henabled : c.preyEnabled) {slot slot' : PreySlot} {blackList : List UInt16} {level : ℕ}
    {draws : List ℕ} (hreload : slot.reloadMonsterGrid c blackList level draws = some slot') :
    Grid.Fresh blackList slot'.raceIdList := by
  rw [PreySlot.reloadMonsterGrid, henabled, if_neg (by decide), if_neg (Nat.not_lt.2 hbestiary)]
    at hreload
  obtain ⟨l, hfill, rfl⟩ := Option.map_eq_some_iff.1 hreload
  exact Grid.fresh_of_fill (ne_nil_of_length hbestiary) hfill

theorem TaskHuntingSlot.fresh_of_reloadMonsterGrid {c : Config}
    (hbestiary : 36 ≤ c.bestiary.length) {slot slot' : TaskHuntingSlot} {blackList : List UInt16}
    {level : ℕ} {draws : List ℕ}
    (hreload : slot.reloadMonsterGrid true c blackList level draws = some slot') :
    Grid.Fresh blackList slot'.raceIdList := by
  rw [TaskHuntingSlot.reloadMonsterGrid, if_neg (by decide), if_neg (Nat.not_lt.2 hbestiary)]
    at hreload
  obtain ⟨l, hfill, rfl⟩ := Option.map_eq_some_iff.1 hreload
  exact Grid.fresh_of_fill (ne_nil_of_length hbestiary) hfill

/-- The lists can always be filled: from every state of the loop there are draws that complete the
    list, and a list that is completed is of nine different races that were not listed. -/
structure Fills (c : Config) (blackList : List UInt16) (level : ℕ) : Prop where
  completes : Grid.Completes c blackList level
  fresh_prey : ∀ (slot slot' : PreySlot) (draws : List ℕ), c.preyEnabled →
    slot.reloadMonsterGrid c blackList level draws = some slot' →
    Grid.Fresh blackList slot'.raceIdList
  fresh_taskHunting : ∀ (slot slot' : TaskHuntingSlot) (draws : List ℕ),
    slot.reloadMonsterGrid true c blackList level draws = some slot' →
    Grid.Fresh blackList slot'.raceIdList

/-- For every bestiary that is not too small, whatever races are listed already and for every level:
    the lists can always be filled if and only if there are enough races for each stage. -/
theorem grid_fills_iff (c : Config) (hbestiary : 36 ≤ c.bestiary.length)
    (blackList : List UInt16) (level : ℕ) :
    Fills c blackList level ↔ Grid.Enough c blackList level := by
  have hne := ne_nil_of_length hbestiary
  constructor
  · intro h
    by_contra hfew
    exact Grid.not_completes hne hfew h.completes
  · intro henough
    exact ⟨Grid.completes_of_enough hne henough,
      fun _ _ _ henabled => PreySlot.fresh_of_reloadMonsterGrid hbestiary henabled,
      fun _ _ _ => TaskHuntingSlot.fresh_of_reloadMonsterGrid hbestiary⟩

/-! ### Bestiaries of 36 races -/

def smallBestiary (bestiaryStars : UInt16 → ℕ) : Config where
  preyEnabled := true
  freeThirdSlot := true
  freeRerollTime := 72000
  bonusTime := 7200
  bonusRerollPrice := 1
  selectionListPrice := 5
  rerollPriceLevel := 200
  bestiary := (List.range 36).map UInt16.ofNat
  getMonsterTypeByRaceId raceId := some ⟨100, bestiaryStars raceId⟩

/-- As many races with one star as with two, three and four. -/
def mixedBestiary : Config := smallBestiary fun raceId => raceId.toNat % 4 + 1

/-- All races with one star. -/
def oneStarBestiary : Config := smallBestiary fun _ => 1

theorem fills_mixed : Fills mixedBestiary (blackList [{}, {}, {}]) 8 :=
  (grid_fills_iff mixedBestiary (by decide) (blackList [{}, {}, {}]) 8).2 fun s => by
    cases s <;> decide

/-- Where all races have one star, all of them may be passed over before there are nine. -/
theorem oneStar_stuck :
    ¬∀ c : Config, 36 ≤ c.bestiary.length → ∀ (preys : List PreySlot) (level : ℕ),
      Fills c (blackList preys) level := by
  intro h
  have hfills := h oneStarBestiary (by decide) [{}, {}, {}] 8
  refine Grid.not_completes (by decide) (fun henough => ?_) hfills.completes
  exact absurd (henough .two) (by decide)

end Canary.Players.Prey
