import Canary.Lib.Transition
import Mathlib.Data.Int.Order.Basic
import Mathlib.Logic.Function.Basic

/-!
# Mounts

A player who rides a mount is faster. The mount is recorded three times: by the outfit
(`lookMount`, the client's number of it), by a storage value (`currentMount`) and by the last
mount that was mounted (`lastMount`). The speed is changed by differences, in three functions
that find the mount before and the one after it by different records.

In every run in which whoever asks for a mount outside of a protection zone can wear the outfit,
none is asked for inside of one, and `dismount` is called for those who ride (`Fits`), the sum of
the changes is the speed of the mount that the outfit names (`speed_named`). Inside of a
protection zone a mount that is asked for is taken off the outfit, but its speed is given, again
each time (`speed_twice`).

What is read of the surroundings (the clock, the tile, the outfits and conditions of the player)
is an argument of the calls.
-/

namespace Canary.Players

open Transition

structure Mount where
  id : UInt8
  clientId : UInt16
  speed : ℤ
  premium : Bool
  deriving DecidableEq

abbrev Mounts := List Mount

def Mounts.getMountByID (w : Mounts) (id : UInt8) : Option Mount := w.find? (·.id = id)

def Mounts.getMountByClientID (w : Mounts) (clientId : UInt16) : Option Mount :=
  w.find? (·.clientId = clientId)

/-- What a player's mount depends on. -/
structure Rider where
  /-- `defaultOutfit.lookMount` -/
  lookMount : UInt16
  /-- The storage value `PSTRG_MOUNTS_CURRENTMOUNT`, or -1. -/
  currentMount : ℤ
  /-- `last-mount` of the player's key-value store, as far as there is one. -/
  lastMount : Option UInt8
  /-- The storage values from `PSTRG_MOUNTS_RANGE_START` on, all ones if there is none. -/
  tamed : ℕ → BitVec 32
  randomMount : UInt8
  lastToggleMount : ℤ
  /-- The sum of the changes of his speed. -/
  speed : ℤ

/-- What a call reads of the player and of the world. -/
structure Surroundings where
  now : ℤ
  access : Bool
  isPremium : Bool
  /-- The tile, and whether it is in a protection zone. -/
  tile : Option Bool
  toggleMountInPZ : Bool
  allowChangeOutfit : Bool
  hasConditionOutfit : Bool
  wasMounted : Bool
  /-- `getOutfitByLookType` finds the outfit. -/
  knownOutfit : Bool
  canWear : Bool
  randomIndex : ℕ

namespace Rider

variable (w : Mounts) (env : Surroundings) (p : Rider)

def isMounted : Bool := p.lookMount != 0

def getCurrentMount : UInt8 :=
  if p.currentMount > 0 then UInt8.ofNat p.currentMount.toNat else 0

/-- Nothing is defined if `last-mount` was never set. -/
def getLastMount : Option UInt8 :=
  if p.currentMount > 0 then some (UInt8.ofNat p.currentMount.toNat) else p.lastMount

def setCurrentMount (mount : UInt8) : Rider := { p with currentMount := mount.toNat }

def hasMount (mount : Mount) : Bool :=
  if env.access then true
  else if mount.premium && !env.isPremium then false
  else
    let tmpMountId := (mount.id - 1).toNat
    let value := p.tamed (tmpMountId / 31)
    if value = -1 then false else value.getLsbD (tmpMountId % 31)

def hasAnyMount : Bool := w.any (p.hasMount env)

/-- `at` throws for a player without mounts. -/
def getRandomMountId : Option UInt8 :=
  let playerMounts := (w.filter (p.hasMount env)).map (·.id)
  playerMounts[env.randomIndex % playerMounts.length]?

def changeSpeed (delta : ℤ) : Rider := { p with speed := p.speed + delta }

def dismount : Rider :=
  let p := match w.getMountByID p.getCurrentMount with
    | some mount => if mount.speed > 0 then p.changeSpeed (-mount.speed) else p
    | none => p
  { p with lookMount := 0, currentMount := 0 }

/-- The mount that `toggleMount` looks up. -/
def mountToToggle : Option Mount :=
  (if p.randomMount ≠ 0 then p.getRandomMountId w env else p.getLastMount).bind w.getMountByID

def toggleMount (mount : Bool) : Option (Rider × Bool) :=
  if env.now - p.lastToggleMount < 3000 ∧ !env.wasMounted then some (p, false)
  else if mount then
    if p.isMounted then some (p, false)
    else if !env.toggleMountInPZ ∧ !env.access ∧ env.tile = some true then some (p, false)
    else if !env.knownOutfit then some (p, false)
    else match p.getLastMount with
      | none => none
      | some currentMountId =>
        if currentMountId = 0 then some (p, false)
        else match p.mountToToggle w env with
          | none => some (p, false)
          | some currentMount =>
            if !p.hasMount env currentMount then
              some ({ p.setCurrentMount 0 with lastMount := some 0 }, false)
            else if currentMount.premium ∧ !env.isPremium then some (p, false)
            else if env.hasConditionOutfit then some (p, false)
            else
              let p := { p.setCurrentMount currentMount.id with
                lookMount := currentMount.clientId
                lastMount := some currentMount.id
                lastToggleMount := env.now }
              some (p.changeSpeed currentMount.speed, true)
  else if !p.isMounted then some (p, false)
  else some ({ p.dismount w with lastToggleMount := env.now }, true)

/-- The mount of the outfit that is asked for. A random one is among those the player has. -/
def askedMount (lookMount : UInt16) (isMountRandomized : UInt8) : UInt16 :=
  let lookMount :=
    if isMountRandomized ≠ 0 ∧ lookMount ≠ 0 ∧ p.hasAnyMount w env then
      ((p.getRandomMountId w env).bind w.getMountByID).elim lookMount (·.clientId)
    else lookMount
  if env.knownOutfit then lookMount else 0

/-- The speed that `playerChangeOutfit` adds for a mount. -/
def deltaSpeedChange (mount : Mount) : Option ℤ :=
  if p.isMounted then
    p.getLastMount.map fun id => match w.getMountByID id with
      | some prevMount => mount.speed - prevMount.speed
      | none => mount.speed
  else some mount.speed

/-- The end of `playerChangeOutfit`. -/
def wear (lookMount : UInt16) : Rider :=
  if env.canWear then { p with lookMount := lookMount } else p

/-- `Game::playerChangeOutfit`. -/
def playerChangeOutfit (lookMount : UInt16) (isMountRandomized : UInt8) : Option Rider :=
  if !env.allowChangeOutfit then some p
  else
    let p := { p with randomMount := isMountRandomized }
    let lookMount := p.askedMount w env lookMount isMountRandomized
    if lookMount ≠ 0 then
      match w.getMountByClientID lookMount with
      | none => some p
      | some mount =>
        if !p.hasMount env mount then some p
        else match env.tile with
          | none => some p
          | some protectionZone =>
            (p.deltaSpeedChange w mount).map fun delta =>
              ((p.setCurrentMount mount.id).changeSpeed delta).wear env
                (if protectionZone then 0 else lookMount)
    else if p.isMounted then some ((p.dismount w).wear env lookMount)
    else some (p.wear env lookMount)

def tameMount (mountId : UInt8) : Rider × Bool :=
  if (w.getMountByID mountId).isNone then (p, false)
  else
    let tmpMountId := (mountId - 1).toNat
    let key := tmpMountId / 31
    let bit := BitVec.twoPow 32 (tmpMountId % 31)
    let value := if p.tamed key ≠ -1 then p.tamed key ||| bit else bit
    ({ p with tamed := Function.update p.tamed key value }, true)

def untameMount (mountId : UInt8) : Rider × Bool :=
  if (w.getMountByID mountId).isNone then (p, false)
  else
    let tmpMountId := (mountId - 1).toNat
    let key := tmpMountId / 31
    if p.tamed key = -1 then (p, true)
    else
      let value := p.tamed key &&& ~~~BitVec.twoPow 32 (tmpMountId % 31)
      let p := { p with tamed := Function.update p.tamed key value }
      if p.getCurrentMount = mountId then
        let p := if p.isMounted then p.dismount w else p
        ({ p.setCurrentMount 0 with lastMount := some 0 }, true)
      else (p, true)

end Rider

/-! ## Runs -/

inductive MountOp where
  | toggleMount (env : Surroundings) (mount : Bool)
  | playerChangeOutfit (env : Surroundings) (lookMount : UInt16) (isMountRandomized : UInt8)
  | dismount
  | tameMount (mountId : UInt8)
  | untameMount (mountId : UInt8)

def MountOp.next (w : Mounts) (p : Rider) : MountOp → Option Rider
  | toggleMount env mount => (p.toggleMount w env mount).map Prod.fst
  | playerChangeOutfit env lookMount isMountRandomized =>
    p.playerChangeOutfit w env lookMount isMountRandomized
  | dismount => some (p.dismount w)
  | tameMount mountId => some (p.tameMount w mountId).1
  | untameMount mountId => some (p.untameMount w mountId).1

/-- Players who do not ride, as they log in. A step that reads a `last-mount` which was never set
is none. -/
def riding (w : Mounts) : System Rider MountOp :=
  .ofNext (fun p => p.lookMount = 0 ∧ p.speed = 0) (MountOp.next w)

/-- The speed of the mount that an outfit names. -/
def Mounts.namedSpeed (w : Mounts) (lookMount : UInt16) : ℤ :=
  if lookMount = 0 then 0 else (w.getMountByClientID lookMount).elim 0 (·.speed)

/-- A mount that is found by both its numbers, which are not zero. -/
structure Mounts.Rides (w : Mounts) (mount : Mount) : Prop where
  id : mount.id ≠ 0 ∧ w.getMountByID mount.id = some mount
  clientId : mount.clientId ≠ 0 ∧ w.getMountByClientID mount.clientId = some mount
  speed : 0 ≤ mount.speed

/-- The mount that `playerChangeOutfit` takes, if it gets that far. -/
def Rider.mountToWear (w : Mounts) (env : Surroundings) (p : Rider) (lookMount : UInt16)
    (isMountRandomized : UInt8) : Option Mount :=
  if env.allowChangeOutfit ∧ env.tile.isSome ∧
      p.askedMount w env lookMount isMountRandomized ≠ 0 then
    (w.getMountByClientID (p.askedMount w env lookMount isMountRandomized)).filter
      (p.hasMount env)
  else none

/-- The steps that keep the speed.

* A mount that is got on or asked for is found by both its numbers.
* It is asked for outside of a protection zone with an outfit that can be worn, or it has the
  speed of what the outfit goes on to name.
* `dismount` is called for a rider, or no mount that is faster is his current one. -/
def MountOp.Fits (w : Mounts) (p : Rider) : MountOp → Prop
  | toggleMount env mount => mount = true → ∀ m ∈ p.mountToToggle w env, w.Rides m
  | playerChangeOutfit env lookMount isMountRandomized =>
    ∀ m ∈ p.mountToWear w env lookMount isMountRandomized, w.Rides m ∧
      (env.canWear = true ∧ env.tile = some false ∨
        m.speed = w.namedSpeed (if env.canWear then 0 else p.lookMount))
  | dismount => p.isMounted = true ∨ ∀ m ∈ w.getMountByID p.getCurrentMount, m.speed ≤ 0
  | _ => True

/-! ## The speed of the rider -/

/-- What the three records have to do with each other. -/
structure Consistent (w : Mounts) (p : Rider) : Prop where
  speed : p.speed = w.namedSpeed p.lookMount
  current : p.lookMount ≠ 0 → 0 < p.currentMount ∧
    ∃ c, w.getMountByID p.getCurrentMount = some c ∧ c.speed = p.speed ∧ 0 ≤ c.speed

variable {w : Mounts} {env : Surroundings} {p p' : Rider}

@[simp] theorem namedSpeed_zero (w : Mounts) : w.namedSpeed 0 = 0 := if_pos rfl

theorem Mounts.Rides.namedSpeed {m : Mount} (h : w.Rides m) :
    w.namedSpeed m.clientId = m.speed := by
  rw [Mounts.namedSpeed, if_neg h.clientId.1, h.clientId.2]
  rfl

theorem isMounted_iff (p : Rider) : p.isMounted = true ↔ p.lookMount ≠ 0 := by
  rw [Rider.isMounted, bne_iff_ne]

theorem Consistent.of_unmounted (hl : p.lookMount = 0) (hs : p.speed = 0) : Consistent w p :=
  ⟨by rw [hl, namedSpeed_zero, hs], fun h => absurd hl h⟩

theorem Consistent.speed_eq_zero (h : Consistent w p) (hl : p.lookMount = 0) : p.speed = 0 := by
  rw [h.speed, hl, namedSpeed_zero]

/-- Only the current mount and the outfit matter. -/
theorem Consistent.congr (h : Consistent w p) (hl : p'.lookMount = p.lookMount)
    (hc : p'.currentMount = p.currentMount) (hs : p'.speed = p.speed) : Consistent w p' := by
  have hcur : p'.getCurrentMount = p.getCurrentMount := by
    rw [Rider.getCurrentMount, Rider.getCurrentMount, hc]
  refine ⟨by rw [hs, hl]; exact h.speed, fun hne => ?_⟩
  rw [hc, hcur, hs]
  exact h.current (hl ▸ hne)

theorem toNat_pos {id : UInt8} (h : id ≠ 0) : (0 : ℤ) < id.toNat :=
  Int.natCast_pos.2 (Nat.pos_of_ne_zero fun h0 => h (UInt8.toNat_inj.1 h0))

/-- A mount that is got on. -/
theorem Mounts.Rides.consistent {m : Mount} (h : w.Rides m) (hc : p.currentMount = m.id.toNat)
    (hs : p.speed = m.speed) (hn : p.speed = w.namedSpeed p.lookMount) : Consistent w p := by
  have hpos : 0 < p.currentMount := hc ▸ toNat_pos h.id.1
  have hcur : p.getCurrentMount = m.id := by
    rw [Rider.getCurrentMount, if_pos hpos, hc]
    exact UInt8.ofNat_toNat
  refine ⟨hn, fun _ => ⟨hpos, m, ?_, hs.symm, h.speed⟩⟩
  rw [hcur]
  exact h.id.2

/-- The current mount is the last one, for a rider. -/
theorem Consistent.getLastMount (h : Consistent w p) (hl : p.lookMount ≠ 0) :
    p.getLastMount = some p.getCurrentMount := by
  have hpos := (h.current hl).1
  rw [Rider.getLastMount, Rider.getCurrentMount, if_pos hpos, if_pos hpos]

theorem dismount_speed (h : Consistent w p)
    (hm : p.isMounted = true ∨ ∀ m ∈ w.getMountByID p.getCurrentMount, m.speed ≤ 0) :
    (p.dismount w).speed = 0 := by
  rw [Rider.dismount]
  by_cases hl : p.lookMount = 0
  · have hslow := hm.resolve_left fun hm => (isMounted_iff p).1 hm hl
    rcases hc : w.getMountByID p.getCurrentMount with _ | c
    · exact h.speed_eq_zero hl
    · have hle := hslow c hc
      simp only [if_neg (Int.not_lt.2 hle)]
      exact h.speed_eq_zero hl
  · obtain ⟨-, c, hc, hspeed, h0⟩ := h.current hl
    rw [hc]
    by_cases hpos : c.speed > 0
    · simp only [if_pos hpos]
      change p.speed + -c.speed = 0
      omega
    · simp only [if_neg hpos]
      omega

theorem dismount_consistent (h : Consistent w p)
    (hm : p.isMounted = true ∨ ∀ m ∈ w.getMountByID p.getCurrentMount, m.speed ≤ 0) :
    Consistent w (p.dismount w) :=
  .of_unmounted rfl (dismount_speed h hm)

/-! ### The steps -/

/-- What `toggleMount` can do: nothing, forget the current mount, get on or get off. -/
theorem toggleMount_cases {mount b : Bool} (hp' : p.toggleMount w env mount = some (p', b)) :
    p' = p ∨
    (p.isMounted = false ∧ p'.lookMount = p.lookMount ∧ p'.speed = p.speed) ∨
    (mount = true ∧ p.isMounted = false ∧ ∃ m ∈ p.mountToToggle w env, p'.lookMount = m.clientId ∧
      p'.currentMount = m.id.toNat ∧ p'.speed = p.speed + m.speed) ∨
    (p.isMounted = true ∧ p' = { p.dismount w with lastToggleMount := env.now }) := by
  rw [Rider.toggleMount] at hp'
  by_cases hwait : env.now - p.lastToggleMount < 3000 ∧ !env.wasMounted
  · rw [if_pos hwait] at hp'
    cases hp'
    exact .inl rfl
  rw [if_neg hwait] at hp'
  cases mount with
  | false =>
    simp only [Bool.false_eq_true, if_false] at hp'
    rcases hm : p.isMounted with _ | _
    · simp only [hm] at hp'
      cases hp'
      exact .inl rfl
    · simp only [hm] at hp'
      cases hp'
      exact .inr (.inr (.inr ⟨rfl, rfl⟩))
  | true =>
    simp only [if_true] at hp'
    rcases hm : p.isMounted with _ | _
    case true =>
      simp only [hm] at hp'
      cases hp'
      exact .inl rfl
    simp only [hm, Bool.false_eq_true, if_false] at hp'
    split at hp'
    · cases hp'
      exact .inl rfl
    split at hp'
    · cases hp'
      exact .inl rfl
    split at hp'
    · cases hp'
    split at hp'
    · cases hp'
      exact .inl rfl
    split at hp'
    · cases hp'
      exact .inl rfl
    case _ m hmount =>
      split at hp'
      · cases hp'
        exact .inr (.inl ⟨rfl, rfl, rfl⟩)
      split at hp'
      · cases hp'
        exact .inl rfl
      split at hp'
      · cases hp'
        exact .inl rfl
      · cases hp'
        exact .inr (.inr (.inl ⟨rfl, rfl, m, hmount, rfl, rfl, rfl⟩))

theorem toggleMount_consistent (h : Consistent w p) {mount b : Bool}
    (hfits : mount = true → ∀ m ∈ p.mountToToggle w env, w.Rides m)
    (hp' : p.toggleMount w env mount = some (p', b)) : Consistent w p' := by
  rcases toggleMount_cases hp' with rfl | ⟨hm, hl, hs⟩ |
    ⟨htrue, hm, m, hmem, hl, hc, hs⟩ | ⟨hm, rfl⟩
  · exact h
  · have h0 : p.lookMount = 0 := by simpa [Rider.isMounted] using hm
    exact .of_unmounted (hl.trans h0) (hs.trans (h.speed_eq_zero h0))
  · have h0 : p.lookMount = 0 := by simpa [Rider.isMounted] using hm
    have hrides := hfits htrue m hmem
    have hspeed : p'.speed = m.speed := by rw [hs, h.speed_eq_zero h0, Int.zero_add]
    exact hrides.consistent hc hspeed (by rw [hl, hrides.namedSpeed, hspeed])
  · exact (dismount_consistent h (.inl hm)).congr rfl rfl rfl

theorem wear_speed (p : Rider) (look : UInt16) : (p.wear env look).speed = p.speed := by
  rw [Rider.wear]
  split <;> rfl

theorem wear_currentMount (p : Rider) (look : UInt16) :
    (p.wear env look).currentMount = p.currentMount := by
  rw [Rider.wear]
  split <;> rfl

/-- To be without a mount can be refused to nobody. -/
theorem wear_zero (hl : p.lookMount = 0) (hs : p.speed = 0) : Consistent w (p.wear env 0) := by
  refine .of_unmounted ?_ (by rw [wear_speed, hs])
  rw [Rider.wear]
  split
  · rfl
  · exact hl

/-- The speed that a change of the outfit comes to: that of the mount. -/
theorem deltaSpeedChange_eq (h : Consistent w p) {m : Mount} {delta : ℤ}
    (hd : p.deltaSpeedChange w m = some delta) : p.speed + delta = m.speed := by
  rw [Rider.deltaSpeedChange] at hd
  by_cases hm : p.isMounted = true
  · have hl := (isMounted_iff p).1 hm
    obtain ⟨-, c, hc, hspeed, -⟩ := h.current hl
    rw [if_pos hm, h.getLastMount hl, Option.map_some, hc] at hd
    cases hd
    simp only
    omega
  · rw [if_neg hm] at hd
    cases hd
    have h0 := h.speed_eq_zero (by simpa [Rider.isMounted] using hm)
    omega

theorem playerChangeOutfit_consistent (h : Consistent w p) {look : UInt16} {random : UInt8}
    (hfits : ∀ m ∈ p.mountToWear w env look random, w.Rides m ∧
      (env.canWear = true ∧ env.tile = some false ∨
        m.speed = w.namedSpeed (if env.canWear then 0 else p.lookMount)))
    (hp' : p.playerChangeOutfit w env look random = some p') : Consistent w p' := by
  rw [Rider.playerChangeOutfit] at hp'
  by_cases hallow : env.allowChangeOutfit = false
  · rw [if_pos (by rw [hallow]; rfl)] at hp'
    cases hp'
    exact h
  rw [Bool.not_eq_false] at hallow
  rw [if_neg (by rw [hallow]; decide)] at hp'
  -- Whether the mount is a random one is remembered, and nothing here depends on it.
  have hr : Consistent w { p with randomMount := random } := h.congr rfl rfl rfl
  have hasked : ({ p with randomMount := random } : Rider).askedMount w env look random =
      p.askedMount w env look random := rfl
  simp only [hasked] at hp'
  by_cases hlook : p.askedMount w env look random = 0
  · simp only [hlook, ne_eq, not_true_eq_false, if_false] at hp'
    by_cases hm : p.isMounted = true
    · rw [if_pos (show ({ p with randomMount := random } : Rider).isMounted = true from hm)] at hp'
      cases hp'
      exact wear_zero rfl (dismount_speed hr (.inl hm))
    · rw [if_neg (show ¬({ p with randomMount := random } : Rider).isMounted = true from hm)] at hp'
      cases hp'
      have hl : p.lookMount = 0 := by simpa [Rider.isMounted] using hm
      exact wear_zero hl (h.speed_eq_zero hl)
  · simp only [ne_eq, hlook, not_false_eq_true, if_true] at hp'
    rcases hfind : w.getMountByClientID (p.askedMount w env look random) with _ | m
    · rw [hfind] at hp'
      cases hp'
      exact hr
    · rw [hfind] at hp'
      have hsame : ({ p with randomMount := random } : Rider).hasMount env m =
          p.hasMount env m := rfl
      simp only [hsame] at hp'
      by_cases hhas : p.hasMount env m = true
      case neg =>
        rw [if_pos (by simpa using hhas)] at hp'
        cases hp'
        exact hr
      rw [if_neg (by simpa using hhas)] at hp'
      rcases htile : env.tile with _ | zone
      · rw [htile] at hp'
        cases hp'
        exact hr
      · rw [htile] at hp'
        obtain ⟨delta, hdelta, heq⟩ := Option.map_eq_some_iff.1 hp'
        have hmem : m ∈ p.mountToWear w env look random := by
          rw [Rider.mountToWear, if_pos ⟨hallow, by rw [htile]; rfl, hlook⟩, hfind]
          simp [hhas]
        obtain ⟨hrides, hworn⟩ := hfits m hmem
        have hid : m.clientId = p.askedMount w env look random := by
          simpa using List.find?_some hfind
        have hspeed : p.speed + delta = m.speed := deltaSpeedChange_eq hr hdelta
        have hzone : env.tile = some false → zone = false := fun h => by simpa [htile] using h
        subst heq
        refine hrides.consistent (wear_currentMount _ _) ((wear_speed _ _).trans hspeed) ?_
        rw [wear_speed]
        refine hspeed.trans ?_
        rw [Rider.wear]
        rcases hwear : env.canWear with _ | _
        · change m.speed = w.namedSpeed p.lookMount
          simpa [hwear] using hworn
        · simp only [hwear, if_true, namedSpeed_zero, true_and] at hworn ⊢
          cases zone with
          | false => exact hid ▸ hrides.namedSpeed.symm
          | true =>
            have hstill := hworn.resolve_left fun h => absurd (hzone h) (by decide)
            simpa using hstill

/-- Without a mount, and without a current one. -/
theorem forget_consistent (h : Consistent w p) :
    Consistent w { (if p.isMounted then p.dismount w else p).setCurrentMount 0 with
      lastMount := some 0 } := by
  rcases hm : p.isMounted with _ | _
  · have hl : p.lookMount = 0 := by simpa [Rider.isMounted] using hm
    exact .of_unmounted hl (h.speed_eq_zero hl)
  · exact .of_unmounted rfl (dismount_speed h (.inl hm))

theorem untameMount_consistent (h : Consistent w p) (mountId : UInt8) :
    Consistent w (p.untameMount w mountId).1 := by
  rw [Rider.untameMount]
  split
  · exact h
  simp only
  split
  · exact h
  -- Which mounts are tamed has nothing to do with the speed.
  have ht : ∀ tamed, Consistent w { p with tamed := tamed } := fun _ => h.congr rfl rfl rfl
  split
  · exact forget_consistent (ht _)
  · exact ht _

theorem tameMount_consistent (h : Consistent w p) (mountId : UInt8) :
    Consistent w (p.tameMount w mountId).1 := by
  rw [Rider.tameMount]
  split
  · exact h
  · exact h.congr rfl rfl rfl

theorem Consistent.next_consistent (h : Consistent w p) {op : MountOp} (hfits : op.Fits w p)
    (hp' : op.next w p = some p') : Consistent w p' := by
  cases op with
  | toggleMount env mount =>
    obtain ⟨⟨q, b⟩, hq, rfl⟩ := Option.map_eq_some_iff.1 hp'
    exact toggleMount_consistent h hfits hq
  | playerChangeOutfit env look random => exact playerChangeOutfit_consistent h hfits hp'
  | dismount =>
    cases hp'
    exact dismount_consistent h hfits
  | tameMount mountId =>
    cases hp'
    exact tameMount_consistent h mountId
  | untameMount mountId =>
    cases hp'
    exact untameMount_consistent h mountId

/-- In every run whose steps are fit, the changes of the speed sum up to the speed of the mount
that the outfit names, and to none for a player who does not ride. -/
theorem speed_named (h : (riding w).ReachableVia (fun p op => op.Fits w p) p) :
    p.speed = w.namedSpeed p.lookMount ∧ (p.lookMount = 0 → p.speed = 0) := by
  have hc : Consistent w p := by
    refine System.ReachableVia.invariant (I := Consistent w) ?_ ?_ h
    · rintro p ⟨hl, hs⟩
      exact .of_unmounted hl hs
    · intro p op p' hc hfits hp'
      exact hc.next_consistent hfits hp'
  exact ⟨hc.speed, hc.speed_eq_zero⟩

/-- Outside of a protection zone, with an outfit that can be worn. -/
def outside : Surroundings where
  now := 10000
  access := true
  isPremium := true
  tile := some false
  toggleMountInPZ := false
  allowChangeOutfit := true
  hasConditionOutfit := false
  wasMounted := false
  knownOutfit := true
  canWear := true
  randomIndex := 0

def warBear : Mount := ⟨3, 370, 10, true⟩

/-- A player who has just logged in. -/
def walker : Rider := ⟨0, -1, some 0, fun _ => -1, 0, 0, 0⟩

theorem rides_warBear : Mounts.Rides [warBear] warBear :=
  ⟨by decide, by decide, by decide⟩

/-- The player on the War Bear. -/
def horseman : Rider := { walker with lookMount := 370, currentMount := 3, speed := 10 }

theorem speed_named_horseman :
    horseman.speed = Mounts.namedSpeed [warBear] horseman.lookMount ∧
      (horseman.lookMount = 0 → horseman.speed = 0) := by
  have hfits : MountOp.Fits [warBear] walker (.playerChangeOutfit outside 370 0) := by
    intro m hm
    cases hm
    exact ⟨rides_warBear, .inl ⟨rfl, rfl⟩⟩
  exact speed_named (.step (.init ⟨rfl, rfl⟩) hfits (by rfl))

/-- Inside of a protection zone the War Bear is asked for twice: it is not mounted, but makes
faster twice. -/
theorem speed_twice :
    (riding [warBear]).Reachable { walker with currentMount := 3, speed := 20 } ∧
      ({ walker with currentMount := 3, speed := 20 } : Rider).speed ≠
        Mounts.namedSpeed [warBear] walker.lookMount :=
  ⟨System.reachable_of_foldlM (s := walker)
    (l := [.playerChangeOutfit { outside with tile := some true } 370 0,
      .playerChangeOutfit { outside with tile := some true } 370 0]) (.init ⟨rfl, rfl⟩) (by rfl),
    by decide⟩

end Canary.Players
