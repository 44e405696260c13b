import Mathlib.Data.List.Induction
import Mathlib.Data.List.Nodup
import Mathlib.Algebra.Order.Group.Int
import Mathlib.Algebra.Order.Ring.Int

/-!
# The targets of a monster

A monster keeps references to the creatures that it could attack, and `totalPlayersOnScreen`, how
many of them are players, from which its summons know if they may rest. `addTarget` and
`removeTarget` count; what erases many references at once (`updateTargetList`, `clearTargetList`)
does not.

For a monster with no master and a faction of its own:

* no creature is twice in the list (`Lists.nodup_step`);
* the count is the number of players in the list, in all of a run, exactly if no players are erased
  without `removeTarget`, references are removed for a creature of the same kind, and there are
  less than 2^16 players (`targets_exact_iff`).

What the world answers (who is expired, dead, seen, an opponent) may be anything at each call. The
creature checks of `setIdle` are left out.
-/

namespace Canary.Monsters.Targets

/-- What the lists ask of any creature. -/
class Creature (C : Type*) where
  getID : C → UInt32
  /-- `getPlayer()` is not null. -/
  isPlayer : C → Bool

open Creature

inductive Faction
  | default | player | lion | lionUsurpers | marid | efreet | deepling | deathling | anuma | fafnar
  deriving DecidableEq

/-- What does not change of a monster. -/
structure Monster (C : Type*) where
  this : C
  /-- `getMaster()` is not null. -/
  isSummon : Bool
  faction : Faction

/-- What the world answers at one call. -/
structure World (C : Type*) where
  /-- `lock` gives nothing for references to it. -/
  expired : C → Bool
  getHealth : C → ℤ
  /-- `canSee(creature->getPosition())` -/
  canSee : C → Bool
  isFriend : C → Bool
  isOpponent : C → Bool
  spectators : List C
  /-- `isRemoved()` and `getHealth()` of the monster itself. -/
  thisRemoved : Bool
  thisHealth : ℤ
  conditionsEmpty : Bool
  /-- `totalPlayersOnScreen` of the master, if this is a monster. -/
  masterPlayers : Option UInt16
  held : ∀ creature ∈ spectators, expired creature = false

structure Lists (C : Type*) where
  friendList : List (UInt32 × C)
  targetList : List C
  totalPlayersOnScreen : UInt16
  isIdle : Bool

def Lists.empty (C : Type*) : Lists C := ⟨[], [], 0, true⟩

variable {C : Type*} [Creature C]

namespace World

variable (w : World C)

/-- What `getTargetIterator` looks for. -/
def isTarget (creature ref : C) : Bool := !w.expired ref && getID ref == getID creature

/-- What `updateTargetList` erases. -/
def gone (ref : C) : Bool := w.expired ref || w.getHealth ref ≤ 0 || !w.canSee ref

end World

namespace Lists

variable (m : Monster C) (l : Lists C) (w : World C)

def addFriend (creature : C) : Lists C :=
  if l.friendList.any fun f => f.1 == getID creature then l
  else { l with friendList := (getID creature, creature) :: l.friendList }

def removeFriend (creature : C) : Lists C :=
  { l with friendList :=
      l.friendList.filter fun f => !(w.expired f.2 || getID f.2 == getID creature) }

/-- `!getMaster() && getFaction() != FACTION_DEFAULT && creature->getPlayer()` -/
def counted (creature : C) : Bool := !m.isSummon && m.faction ≠ .default && isPlayer creature

def addTarget (creature : C) (pushFront : Bool) : Lists C × Bool :=
  if l.targetList.any (w.isTarget creature) then (l, false)
  else
    let l := { l with targetList :=
      if pushFront then creature :: l.targetList else l.targetList ++ [creature] }
    (if counted m creature then
      { l with totalPlayersOnScreen := l.totalPlayersOnScreen + 1 } else l, true)

def removeTarget (creature : Option C) : Lists C × Bool :=
  match creature with
  | none => (l, false)
  | some creature =>
    if l.targetList.any (w.isTarget creature) then
      let l := if counted m creature then
        { l with totalPlayersOnScreen := l.totalPlayersOnScreen - 1 } else l
      ({ l with targetList := l.targetList.eraseP (w.isTarget creature) }, true)
    else (l, false)

def clearTargetList : Lists C := { l with targetList := [] }

def clearFriendList : Lists C := { l with friendList := [] }

/-- The references that are left are the result. -/
def getTargetList : Lists C :=
  { l with targetList := l.targetList.filter fun ref => !w.expired ref }

def setIdle (idle : Bool) : Lists C :=
  if w.thisRemoved ∨ w.thisHealth ≤ 0 then l
  else
    let l := { l with isIdle := idle }
    if !idle then l else l.clearTargetList.clearFriendList

def updateIdleStatus : Lists C :=
  let idle :=
    if w.conditionsEmpty then
      if !m.isSummon && l.targetList.isEmpty then true
      else if m.isSummon then
        ((!m.isSummon && l.totalPlayersOnScreen == 0) ||
          (m.isSummon && w.masterPlayers == some 0)) && m.faction ≠ .default
      else false
    else false
  l.setIdle w idle

def onCreatureFound (creature : C) (pushFront : Bool) : Lists C :=
  let l := if w.isFriend creature then l.addFriend creature else l
  let l := if w.isOpponent creature then (l.addTarget m w creature pushFront).1 else l
  l.updateIdleStatus m w

def onCreatureEnter (creature : C) : Lists C := l.onCreatureFound m w creature true

def onCreatureLeave (creature : C) : Lists C :=
  let l := if w.isFriend creature then l.removeFriend w creature else l
  if w.isOpponent creature then
    let l := (l.removeTarget m w (some creature)).1
    if l.targetList.isEmpty then l.updateIdleStatus m w else l
  else l

def updateTargetList [DecidableEq C] : Lists C :=
  let l := { l with
    friendList := l.friendList.filter fun f => !w.gone f.2
    targetList := l.targetList.filter fun ref => !w.gone ref }
  w.spectators.foldl (fun l spectator =>
    if spectator ≠ m.this ∧ w.canSee spectator then l.onCreatureFound m w spectator false else l) l

def onFollowCreatureComplete (creature : Option C) (hasFollowPath : Bool) : Lists C :=
  let (l, removed) := l.removeTarget m w creature
  match creature with
  | some creature =>
    if removed && (hasFollowPath || !m.isSummon) then (l.addTarget m w creature hasFollowPath).1
    else l
  | none => l

end Lists

/-! ## Runs -/

inductive Call (C : Type*)
  | addTarget (creature : C) (pushFront : Bool)
  | removeTarget (creature : Option C)
  | updateTargetList
  | getTargetList
  | clearTargetList
  | setIdle (idle : Bool)
  | updateIdleStatus
  | onCreatureFound (creature : C) (pushFront : Bool)
  | onCreatureEnter (creature : C)
  | onCreatureLeave (creature : C)
  | onFollowCreatureComplete (creature : Option C) (hasFollowPath : Bool)

/-- The creature that is handed over, and so held. -/
def Call.creature : Call C → Option C
  | addTarget creature _ | onCreatureFound creature _ | onCreatureEnter creature
  | onCreatureLeave creature => some creature
  | removeTarget creature | onFollowCreatureComplete creature _ => creature
  | _ => none

structure Event (C : Type*) where
  world : World C
  call : Call C
  held : ∀ creature ∈ call.creature, world.expired creature = false

namespace Lists

variable [DecidableEq C] (m : Monster C)

def step (l : Lists C) (e : Event C) : Lists C :=
  match e.call with
  | .addTarget creature pushFront => (l.addTarget m e.world creature pushFront).1
  | .removeTarget creature => (l.removeTarget m e.world creature).1
  | .updateTargetList => l.updateTargetList m e.world
  | .getTargetList => l.getTargetList e.world
  | .clearTargetList => l.clearTargetList
  | .setIdle idle => l.setIdle e.world idle
  | .updateIdleStatus => l.updateIdleStatus m e.world
  | .onCreatureFound creature pushFront => l.onCreatureFound m e.world creature pushFront
  | .onCreatureEnter creature => l.onCreatureEnter m e.world creature
  | .onCreatureLeave creature => l.onCreatureLeave m e.world creature
  | .onFollowCreatureComplete creature hasFollowPath =>
    l.onFollowCreatureComplete m e.world creature hasFollowPath

def run (events : List (Event C)) : Lists C := events.foldl (step m) (Lists.empty C)

end Lists

/-! ## The count -/

/-- Those of `found` that `known` gets, one after the other. -/
def World.newcomers (w : World C) : List C → List C → List C
  | _, [] => []
  | known, creature :: found =>
    if known.any (w.isTarget creature) then newcomers w known found
    else creature :: newcomers w (known ++ [creature]) found

namespace Lists

variable (m : Monster C) (l : Lists C)

def players : ℕ := l.targetList.countP isPlayer

/-- The counter is the number of players in a list where no creature is twice. -/
def Exact : Prop := l.targetList.Nodup ∧ l.totalPlayersOnScreen.toNat = l.players

/-- How many players a call puts into the list. -/
def gained [DecidableEq C] (e : Event C) : ℕ :=
  match e.call with
  | .addTarget creature _ => (e.world.newcomers l.targetList [creature]).countP isPlayer
  | .onCreatureFound creature _ | .onCreatureEnter creature =>
    (e.world.newcomers l.targetList ([creature].filter e.world.isOpponent)).countP isPlayer
  | .updateTargetList =>
    (e.world.newcomers (l.targetList.filter fun ref => !e.world.gone ref)
      (e.world.spectators.filter fun creature =>
        creature ≠ m.this && e.world.canSee creature && e.world.isOpponent creature)).countP isPlayer
  | _ => 0

/-- The players that are removed for `creature`, less those that are then counted. -/
def miscounted (w : World C) (creature : C) : ℤ :=
  match l.targetList.find? (w.isTarget creature) with
  | some ref => (isPlayer ref).toNat - (isPlayer creature).toNat
  | none => 0

/-- How many players a call takes out of the list without counting them. -/
def missed (e : Event C) : ℤ :=
  match e.call with
  | .updateTargetList => l.targetList.countP fun ref => e.world.gone ref && isPlayer ref
  | .getTargetList => l.targetList.countP fun ref => e.world.expired ref && isPlayer ref
  | .clearTargetList => l.players
  | .setIdle true => if e.world.thisRemoved ∨ e.world.thisHealth ≤ 0 then 0 else l.players
  | .removeTarget (some creature) | .onFollowCreatureComplete (some creature) _ =>
    l.miscounted e.world creature
  | .onCreatureLeave creature =>
    if e.world.isOpponent creature then l.miscounted e.world creature else 0
  | _ => 0

end Lists

/-! ## What a call changes -/

/-- The lists of a monster with a master, or of no faction, are not counted. -/
structure Monster.Counts (m : Monster C) : Prop where
  no_master : m.isSummon = false
  faction : m.faction ≠ .default

namespace Lists

variable {m : Monster C} {l l' l'' : Lists C} {w : World C} {c : C}

/-- By how much the counter is too high. -/
def surplus (l : Lists C) : ℤ := l.totalPlayersOnScreen.toNat - l.players

/-- What becomes of the players and of their count. -/
structure Change (l l' : Lists C) (gained : ℕ) (missed : ℤ) : Prop where
  surplus : (2 : ℤ) ^ 16 ∣ l'.surplus - l.surplus - missed
  players : (l'.players : ℤ) + missed = l.players + gained ∨
    gained = 0 ∧ l'.players + missed ≤ l.players

theorem Change.refl (l : Lists C) : Change l l 0 0 where
  surplus := by simp
  players := by simp

theorem Change.congr {n : ℕ} {missed : ℤ} (h : Change l l' n missed)
    (htargets : l''.targetList = l'.targetList)
    (htotal : l''.totalPlayersOnScreen = l'.totalPlayersOnScreen) : Change l l'' n missed := by
  have hplayers : l''.players = l'.players := congrArg (List.countP isPlayer) htargets
  constructor
  case surplus =>
    have hsurplus : l''.surplus = l'.surplus := by
      unfold Lists.surplus
      rw [hplayers, htotal]
    rw [hsurplus]
    exact h.surplus
  case players =>
    rw [hplayers]
    exact h.players

theorem counted_eq (h : m.Counts) (c : C) :
    counted m c = isPlayer c := by
  simp [counted, h.no_master, h.faction]

@[simp]
theorem targetList_addFriend : (l.addFriend c).targetList = l.targetList := by
  unfold addFriend
  split <;> rfl

@[simp]
theorem totalPlayersOnScreen_addFriend :
    (l.addFriend c).totalPlayersOnScreen = l.totalPlayersOnScreen := by
  unfold addFriend
  split <;> rfl

omit [Creature C] in
theorem totalPlayersOnScreen_setIdle (idle : Bool) :
    (l.setIdle w idle).totalPlayersOnScreen = l.totalPlayersOnScreen := by
  unfold setIdle
  split
  · rfl
  · cases idle <;> rfl

omit [Creature C] in
/-- Without a master, only a monster with no targets rests. -/
@[simp]
theorem targetList_updateIdleStatus (h : m.Counts) :
    (l.updateIdleStatus m w).targetList = l.targetList := by
  simp only [updateIdleStatus, h.no_master]
  unfold setIdle
  cases hempty : l.targetList.isEmpty with
  | true =>
    have hnil := List.isEmpty_iff.1 hempty
    split <;> [rfl; (split <;> simp [clearTargetList, clearFriendList, hnil])]
  | false => split <;> simp

omit [Creature C] in
@[simp]
theorem totalPlayersOnScreen_updateIdleStatus :
    (l.updateIdleStatus m w).totalPlayersOnScreen = l.totalPlayersOnScreen :=
  totalPlayersOnScreen_setIdle _

/-- How the lists change if a creature is put into them. -/
theorem addTarget_eq (h : m.Counts) (pushFront : Bool) :
    (l.addTarget m w c pushFront).1.targetList =
        (if l.targetList.any (w.isTarget c) then l.targetList
        else if pushFront then c :: l.targetList else l.targetList ++ [c]) ∧
      (l.addTarget m w c pushFront).1.totalPlayersOnScreen =
        (if !l.targetList.any (w.isTarget c) && isPlayer c then
          l.totalPlayersOnScreen + 1 else l.totalPlayersOnScreen) := by
  unfold addTarget
  rw [counted_eq h]
  cases l.targetList.any (w.isTarget c) with
  | true => exact ⟨rfl, rfl⟩
  | false => cases isPlayer c <;> exact ⟨rfl, rfl⟩

theorem onCreatureFound_eq (h : m.Counts) (pushFront : Bool) :
    (l.onCreatureFound m w c pushFront).targetList =
        (if w.isOpponent c then (l.addTarget m w c pushFront).1.targetList
        else l.targetList) ∧
      (l.onCreatureFound m w c pushFront).totalPlayersOnScreen =
        (if w.isOpponent c then (l.addTarget m w c pushFront).1.totalPlayersOnScreen
        else l.totalPlayersOnScreen) := by
  simp only [onCreatureFound, targetList_updateIdleStatus h, totalPlayersOnScreen_updateIdleStatus]
  cases w.isOpponent c with
  | true => cases w.isFriend c <;> simp [addTarget_eq h]
  | false => cases w.isFriend c <;> simp

/-- Players are counted when they are added. -/
theorem surplus_add (n : ℕ) (isNew : Bool) (hplayers : l'.players = l.players + n)
    (htotal : l'.totalPlayersOnScreen =
      if isNew then l.totalPlayersOnScreen + 1 else l.totalPlayersOnScreen)
    (hn : n = isNew.toNat) : (2 : ℤ) ^ 16 ∣ l'.surplus - l.surplus := by
  unfold surplus
  rw [hplayers, htotal, hn]
  cases isNew with
  | true =>
    have hadd : (l.totalPlayersOnScreen + 1).toNat = (l.totalPlayersOnScreen.toNat + 1) % 2 ^ 16 :=
      UInt16.toNat_add _ _
    simp only [if_true, hadd, Bool.toNat_true]
    omega
  | false => simp

theorem players_newcomers (known : List C) :
    (w.newcomers known [c]).countP isPlayer =
      (!known.any (w.isTarget c) && isPlayer c).toNat := by
  simp only [World.newcomers]
  cases known.any (w.isTarget c) <;> cases hplayer : isPlayer c <;> simp [hplayer]

theorem change_addTarget (h : m.Counts) (pushFront : Bool) :
    Change l (l.addTarget m w c pushFront).1
      ((w.newcomers l.targetList [c]).countP isPlayer) 0 := by
  obtain ⟨htargets, htotal⟩ := addTarget_eq (l := l) (w := w) (c := c) h pushFront
  have hplayers : (l.addTarget m w c pushFront).1.players =
      l.players + (w.newcomers l.targetList [c]).countP isPlayer := by
    unfold players
    rw [htargets, players_newcomers]
    cases l.targetList.any (w.isTarget c) with
    | true => simp
    | false =>
      cases pushFront <;> cases hplayer : isPlayer c <;> simp [hplayer]
  constructor
  case surplus =>
    rw [sub_zero]
    exact surplus_add _ _ hplayers htotal (players_newcomers _)
  case players => exact .inl (by rw [hplayers]; simp)

theorem change_onCreatureFound (h : m.Counts) (pushFront : Bool) :
    Change l (l.onCreatureFound m w c pushFront)
      ((w.newcomers l.targetList ([c].filter w.isOpponent)).countP isPlayer) 0 := by
  obtain ⟨htargets, htotal⟩ := onCreatureFound_eq (l := l) (w := w) (c := c) h pushFront
  have hadd := change_addTarget (l := l) (w := w) (c := c) h pushFront
  cases hopponent : w.isOpponent c with
  | true =>
    rw [hopponent, if_pos rfl] at htargets htotal
    simp only [List.filter_cons, hopponent, if_true, List.filter_nil]
    exact hadd.congr htargets htotal
  | false =>
    rw [hopponent, if_neg Bool.false_ne_true] at htargets htotal
    simp only [List.filter_cons, hopponent, Bool.false_eq_true, if_false, List.filter_nil]
    exact (Change.refl l).congr htargets htotal

/-- The spectators that are found one after the other are the newcomers. -/
theorem foldl_onCreatureFound [DecidableEq C] (h : m.Counts) (found : List C) :
    (found.foldl (fun l spectator =>
        if spectator ≠ m.this ∧ w.canSee spectator then l.onCreatureFound m w spectator false
        else l) l).targetList =
      l.targetList ++ w.newcomers l.targetList (found.filter fun c =>
        c ≠ m.this && w.canSee c && w.isOpponent c) ∧
    (2 : ℤ) ^ 16 ∣ (found.foldl (fun l spectator =>
        if spectator ≠ m.this ∧ w.canSee spectator then l.onCreatureFound m w spectator false
        else l) l).surplus - l.surplus := by
  induction found generalizing l with
  | nil => simp [World.newcomers]
  | cons c found ih =>
    rw [List.foldl_cons]
    by_cases hseen : c ≠ m.this ∧ w.canSee c
    · rw [if_pos hseen]
      obtain ⟨htargets, hsurplus⟩ := ih (l := l.onCreatureFound m w c false)
      have hfound := (change_onCreatureFound (l := l) (w := w) (c := c) h false).surplus
      refine ⟨?_, by omega⟩
      rw [htargets, (onCreatureFound_eq h false).1, (addTarget_eq h false).1]
      cases hopponent : w.isOpponent c with
      | true =>
        cases hany : l.targetList.any (w.isTarget c) with
        | true => simp [hseen, hopponent, World.newcomers, hany]
        | false => simp [hseen, hopponent, World.newcomers, hany]
      | false => simp [hopponent]
    · rw [if_neg hseen]
      have hfilter : (c ≠ m.this && w.canSee c && w.isOpponent c) = false := by
        rw [← Bool.not_eq_true, Bool.and_eq_true, Bool.and_eq_true]
        exact fun hall => hseen ⟨of_decide_eq_true hall.1.1, hall.1.2⟩
      rw [List.filter_cons_of_neg (by rw [hfilter]; exact Bool.false_ne_true)]
      exact ih

omit [Creature C] in
/-- What a filter leaves, and what it takes. -/
theorem countP_filter_not (p q : C → Bool) (refs : List C) :
    (refs.filter fun ref => !q ref).countP p + refs.countP (fun ref => q ref && p ref) =
      refs.countP p := by
  induction refs with
  | nil => rfl
  | cons ref refs ih =>
    cases hq : q ref <;> cases hp : p ref <;> simp [hq, hp] <;> omega

theorem change_updateTargetList [DecidableEq C] (h : m.Counts) :
    Change l (l.updateTargetList m w)
      ((w.newcomers (l.targetList.filter fun ref => !w.gone ref)
        (w.spectators.filter fun c =>
          c ≠ m.this && w.canSee c && w.isOpponent c)).countP isPlayer)
      (l.targetList.countP fun ref => w.gone ref && isPlayer ref) := by
  obtain ⟨htargets, hsurplus⟩ := foldl_onCreatureFound (w := w) h w.spectators
    (l := { l with
      friendList := l.friendList.filter fun f => !w.gone f.2
      targetList := l.targetList.filter fun ref => !w.gone ref })
  have hkept := countP_filter_not isPlayer w.gone l.targetList
  have hplayers : (l.updateTargetList m w).players = (l.updateTargetList m w).targetList.countP
    isPlayer := rfl
  rw [updateTargetList, htargets, List.countP_append, ← updateTargetList] at hplayers
  rw [← updateTargetList] at hsurplus
  constructor
  case surplus =>
    unfold surplus at hsurplus ⊢
    simp only [players] at hsurplus ⊢
    omega
  case players =>
    left
    rw [hplayers]
    simp only [players]
    omega

theorem change_erase (q : C → Bool)
    (htargets : l'.targetList = l.targetList.filter fun ref => !q ref)
    (htotal : l'.totalPlayersOnScreen = l.totalPlayersOnScreen) :
    Change l l' 0 (l.targetList.countP fun ref => q ref && isPlayer ref) := by
  have hkept := countP_filter_not isPlayer q l.targetList
  have hplayers : l'.players = (l.targetList.filter fun ref => !q ref).countP isPlayer :=
    congrArg (List.countP isPlayer) htargets
  constructor
  case surplus =>
    unfold surplus
    rw [htotal, hplayers, players]
    omega
  case players =>
    left
    rw [hplayers, players]
    omega

theorem change_clearTargetList (htargets : l'.targetList = [])
    (htotal : l'.totalPlayersOnScreen = l.totalPlayersOnScreen) : Change l l' 0 l.players := by
  have hchange := change_erase (l := l) (fun _ => true) (by simpa using htargets) htotal
  simp only [Bool.true_and] at hchange
  exact hchange

theorem change_setIdle (idle : Bool) : Change l (l.setIdle w idle) 0
    (if idle then if w.thisRemoved ∨ w.thisHealth ≤ 0 then 0 else l.players else 0) := by
  unfold setIdle
  cases idle with
  | true =>
    simp only [if_true]
    split
    · exact Change.refl l
    · exact change_clearTargetList rfl rfl
  | false =>
    simp only [Bool.false_eq_true, if_false]
    split
    · exact Change.refl l
    · exact (Change.refl l).congr rfl rfl

/-! ### Removals -/

/-- The first reference to a creature with the id is erased. -/
theorem players_eraseP {q : C → Bool} {ref : C} (h : l.targetList.find? q = some ref) :
    (l.targetList.eraseP q).countP isPlayer + (isPlayer ref).toNat = l.players := by
  obtain ⟨hq, before, after, hlist, hbefore⟩ := List.find?_eq_some_iff_append.1 h
  have hnone : ∀ a ∈ before, ¬q a = true := fun a ha hqa => by simpa [hqa] using hbefore a ha
  unfold players
  rw [hlist, List.eraseP_append_right _ hnone, List.eraseP_cons_of_pos hq, List.countP_append,
    List.countP_append]
  cases hplayer : isPlayer ref with
  | true =>
    rw [List.countP_cons_of_pos hplayer, Bool.toNat_true]
    omega
  | false =>
    rw [List.countP_cons_of_neg (by rw [hplayer]; exact Bool.false_ne_true), Bool.toNat_false]
    omega

theorem removeTarget_of_find?_eq_none (h : l.targetList.find? (w.isTarget c) = none) :
    l.removeTarget m w (some c) = (l, false) := by
  have hany : l.targetList.any (w.isTarget c) = false := by
    rw [← Bool.not_eq_true, List.any_eq_true]
    rintro ⟨ref, href, htarget⟩
    exact List.find?_eq_none.1 h ref href htarget
  simp [removeTarget, hany]

theorem removeTarget_of_find?_eq_some (h : m.Counts) {ref : C}
    (hfind : l.targetList.find? (w.isTarget c) = some ref) :
    (l.removeTarget m w (some c)).1.targetList =
        l.targetList.eraseP (w.isTarget c) ∧
      (l.removeTarget m w (some c)).1.totalPlayersOnScreen =
        (if isPlayer c then l.totalPlayersOnScreen - 1 else l.totalPlayersOnScreen) ∧
      (l.removeTarget m w (some c)).2 = true := by
  have hany : l.targetList.any (w.isTarget c) = true :=
    List.any_eq_true.2 ⟨ref, List.mem_of_find?_eq_some hfind, List.find?_some hfind⟩
  simp only [removeTarget, hany, if_true, counted_eq h]
  cases isPlayer c <;> simp

theorem change_removeTarget (h : m.Counts) :
    Change l (l.removeTarget m w (some c)).1 0 (l.miscounted w c) := by
  have hmiscounted : l.miscounted w c =
      match l.targetList.find? (w.isTarget c) with
      | some ref => (isPlayer ref).toNat - (isPlayer c).toNat
      | none => 0 := rfl
  rw [hmiscounted]
  cases hfind : l.targetList.find? (w.isTarget c) with
  | none =>
    rw [removeTarget_of_find?_eq_none hfind]
    exact Change.refl l
  | some ref =>
    obtain ⟨htargets, htotal, -⟩ := removeTarget_of_find?_eq_some h hfind
    have hplayers := players_eraseP hfind
    rw [← htargets] at hplayers
    change (l.removeTarget m w (some c)).1.players + _ = _ at hplayers
    constructor
    case surplus =>
      unfold surplus
      rw [htotal, ← hplayers]
      cases isPlayer c with
      | true =>
        have hsub : (l.totalPlayersOnScreen - 1).toNat =
            (2 ^ 16 - 1 + l.totalPlayersOnScreen.toNat) % 2 ^ 16 := UInt16.toNat_sub _ _
        simp only [if_true, hsub, Bool.toNat_true]
        omega
      | false =>
        simp only [Bool.false_eq_true, if_false, Bool.toNat_false]
        omega
    case players => exact .inr ⟨rfl, by simp only; omega⟩

theorem removeTarget_congr {l₁ : Lists C} (htargets : l₁.targetList = l.targetList)
    (htotal : l₁.totalPlayersOnScreen = l.totalPlayersOnScreen) :
    (l₁.removeTarget m w (some c)).1.targetList =
        (l.removeTarget m w (some c)).1.targetList ∧
      (l₁.removeTarget m w (some c)).1.totalPlayersOnScreen =
        (l.removeTarget m w (some c)).1.totalPlayersOnScreen := by
  simp only [removeTarget, htargets]
  split
  · cases counted m c <;> simp [htargets, htotal]
  · exact ⟨htargets, htotal⟩

theorem change_onCreatureLeave (h : m.Counts) : Change l (l.onCreatureLeave m w c) 0
    (if w.isOpponent c then l.miscounted w c else 0) := by
  unfold onCreatureLeave
  generalize hfriends : (if w.isFriend c then l.removeFriend w c else l) = l₁
  have htargets : l₁.targetList = l.targetList := by
    rw [← hfriends]
    split <;> rfl
  have htotal : l₁.totalPlayersOnScreen = l.totalPlayersOnScreen := by
    rw [← hfriends]
    split <;> rfl
  cases w.isOpponent c with
  | true =>
    obtain ⟨hremoved, hcount⟩ := removeTarget_congr (m := m) (w := w) (c := c)
      htargets htotal
    have hchange := (change_removeTarget h).congr hremoved hcount
    simp only [if_true]
    split
    · exact hchange.congr (targetList_updateIdleStatus h) totalPlayersOnScreen_updateIdleStatus
    · exact hchange
  | false =>
    simp only [Bool.false_eq_true, if_false]
    exact (Change.refl l).congr htargets htotal

/-- A creature that is followed goes to one of the ends. -/
theorem change_onFollowCreatureComplete (h : m.Counts) (hasFollowPath : Bool) :
    Change l (l.onFollowCreatureComplete m w (some c) hasFollowPath) 0
      (l.miscounted w c) := by
  unfold onFollowCreatureComplete
  cases hfind : l.targetList.find? (w.isTarget c) with
  | none =>
    simp only [removeTarget_of_find?_eq_none hfind, miscounted, hfind]
    exact Change.refl l
  | some ref =>
    obtain ⟨htargets, -, hremoved⟩ := removeTarget_of_find?_eq_some h hfind
    have hplayers := players_eraseP hfind
    rw [← htargets] at hplayers
    change (l.removeTarget m w (some c)).1.players + _ = _ at hplayers
    have hremove := change_removeTarget (l := l) (w := w) (c := c) h
    have hadd := change_addTarget (l := (l.removeTarget m w (some c)).1) (w := w)
      (c := c) h hasFollowPath
    rw [players_newcomers] at hadd
    simp only [hremoved, h.no_master, Bool.not_false, Bool.or_true, Bool.and_true, if_true]
    constructor
    case surplus =>
      have := hremove.surplus
      have := hadd.surplus
      omega
    case players =>
      refine .inr ⟨rfl, ?_⟩
      have hle : ((!(l.removeTarget m w (some c)).1.targetList.any (w.isTarget c)) &&
          isPlayer c).toNat ≤ (isPlayer c).toNat := by
        cases isPlayer c <;> simp [Bool.toNat_le]
      have hmiscounted : l.miscounted w c =
          (isPlayer ref).toNat - (isPlayer c).toNat := by
        simp only [miscounted, hfind]
      have := hadd.players
      omega

/-! ### No creature twice -/

/-- A creature that is held is only added if it is not in the list. -/
theorem nodup_addTarget (h : m.Counts) (hheld : w.expired c = false)
    (hnodup : l.targetList.Nodup) (pushFront : Bool) :
    (l.addTarget m w c pushFront).1.targetList.Nodup := by
  rw [(addTarget_eq h pushFront).1]
  split
  · exact hnodup
  · rename_i hany
    have hnew : c ∉ l.targetList := fun hmem =>
      hany (List.any_eq_true.2 ⟨c, hmem, by simp [World.isTarget, hheld]⟩)
    split
    · exact List.nodup_cons.2 ⟨hnew, hnodup⟩
    · exact List.nodup_append.2 ⟨hnodup, List.nodup_singleton _, by
        rintro a ha b hb rfl
        rw [List.mem_singleton.1 hb] at ha
        exact hnew ha⟩

theorem nodup_onCreatureFound (h : m.Counts) (hheld : w.expired c = false)
    (hnodup : l.targetList.Nodup) (pushFront : Bool) :
    (l.onCreatureFound m w c pushFront).targetList.Nodup := by
  rw [(onCreatureFound_eq h pushFront).1]
  split
  · exact nodup_addTarget h hheld hnodup pushFront
  · exact hnodup

theorem nodup_updateTargetList [DecidableEq C] (h : m.Counts) (hnodup : l.targetList.Nodup) :
    (l.updateTargetList m w).targetList.Nodup := by
  unfold updateTargetList
  refine List.foldlRecOn (motive := fun l' : Lists C => l'.targetList.Nodup) w.spectators _
    (hnodup.filter _) ?_
  intro l' hl' spectator hspectator
  split
  · exact nodup_onCreatureFound h (w.held spectator hspectator) hl' false
  · exact hl'

theorem sublist_removeTarget (removed : Option C) :
    (l.removeTarget m w removed).1.targetList.Sublist l.targetList := by
  unfold removeTarget
  cases removed with
  | none => exact List.Sublist.refl _
  | some c =>
    simp only
    split
    · cases counted m c <;> exact List.eraseP_sublist
    · exact List.Sublist.refl _

theorem nodup_step [DecidableEq C] (h : m.Counts) (hnodup : l.targetList.Nodup) (e : Event C) :
    (l.step m e).targetList.Nodup := by
  obtain ⟨w, call, hheld⟩ := e
  cases call with
  | addTarget c pushFront => exact nodup_addTarget h (hheld _ rfl) hnodup pushFront
  | removeTarget c => exact hnodup.sublist (sublist_removeTarget c)
  | updateTargetList => exact nodup_updateTargetList h hnodup
  | getTargetList => exact hnodup.filter _
  | clearTargetList => exact List.nodup_nil
  | setIdle idle =>
    simp only [step, setIdle]
    split
    · exact hnodup
    · cases idle with
      | true => exact List.nodup_nil
      | false => exact hnodup
  | updateIdleStatus =>
    simp only [step, targetList_updateIdleStatus h]
    exact hnodup
  | onCreatureFound c pushFront =>
    exact nodup_onCreatureFound h (hheld _ rfl) hnodup pushFront
  | onCreatureEnter c => exact nodup_onCreatureFound h (hheld _ rfl) hnodup true
  | onCreatureLeave c =>
    simp only [step, onCreatureLeave]
    -- The friends are another list.
    have hfriends : (if w.isFriend c then l.removeFriend w c
        else l).targetList.Nodup := by split <;> exact hnodup
    generalize (if w.isFriend c then l.removeFriend w c else l) = l₁ at hfriends ⊢
    split
    · have hremoved := hfriends.sublist (sublist_removeTarget (m := m) (w := w) (some c))
      split
      · rw [targetList_updateIdleStatus h]
        exact hremoved
      · exact hremoved
    · exact hfriends
  | onFollowCreatureComplete c hasFollowPath =>
    have hremoved := hnodup.sublist (sublist_removeTarget (m := m) (w := w) c)
    simp only [step, onFollowCreatureComplete]
    cases c with
    | none => exact hremoved
    | some c =>
      simp only
      split
      · exact nodup_addTarget h (hheld _ rfl) hremoved hasFollowPath
      · exact hremoved

/-! ## Runs -/

/-- What every call does to the players and their count. -/
theorem change_step [DecidableEq C] (h : m.Counts) (e : Event C) :
    Change l (l.step m e) (l.gained m e) (l.missed e) := by
  obtain ⟨w, call, hheld⟩ := e
  cases call with
  | addTarget c pushFront => exact change_addTarget h pushFront
  | removeTarget c =>
    cases c with
    | none => exact Change.refl l
    | some c => exact change_removeTarget h
  | updateTargetList => exact change_updateTargetList h
  | getTargetList => exact change_erase w.expired rfl rfl
  | clearTargetList => exact change_clearTargetList rfl rfl
  | setIdle idle =>
    have hchange := change_setIdle (l := l) (w := w) idle
    cases idle <;> exact hchange
  | updateIdleStatus =>
    exact (Change.refl l).congr (targetList_updateIdleStatus h)
      totalPlayersOnScreen_updateIdleStatus
  | onCreatureFound c pushFront => exact change_onCreatureFound h pushFront
  | onCreatureEnter c => exact change_onCreatureFound h true
  | onCreatureLeave c => exact change_onCreatureLeave h
  | onFollowCreatureComplete c hasFollowPath =>
    cases c with
    | none => exact Change.refl l
    | some c => exact change_onFollowCreatureComplete h hasFollowPath

theorem miscounted_bounds : -1 ≤ l.miscounted w c ∧ l.miscounted w c ≤ l.players := by
  unfold miscounted
  cases hfind : l.targetList.find? (w.isTarget c) with
  | none => simp
  | some ref =>
    have hplayers := players_eraseP hfind
    have hle := Bool.toNat_le (isPlayer c)
    simp only
    omega

theorem missed_bounds (e : Event C) : -1 ≤ l.missed e ∧ l.missed e ≤ l.players := by
  have hcount (q : C → Bool) : l.targetList.countP (fun ref => q ref && isPlayer ref) ≤
      l.players :=
    List.countP_mono_left fun ref _ href => (Bool.and_eq_true _ _ ▸ href).2
  obtain ⟨w, call, hheld⟩ := e
  have hmiscounted (c : C) := miscounted_bounds (l := l) (w := w) (c := c)
  cases call with
  | updateTargetList =>
    have := hcount w.gone
    simp only [missed]
    omega
  | getTargetList =>
    have := hcount w.expired
    simp only [missed]
    omega
  | clearTargetList => simp only [missed]; omega
  | setIdle idle =>
    cases idle with
    | true => simp only [missed]; split <;> omega
    | false => simp only [missed]; omega
  | removeTarget c =>
    cases c with
    | none => simp only [missed]; omega
    | some c => exact hmiscounted c
  | onFollowCreatureComplete c hasFollowPath =>
    cases c with
    | none => simp only [missed]; omega
    | some c => exact hmiscounted c
  | onCreatureLeave c =>
    simp only [missed]
    split
    · exact hmiscounted c
    · omega
  | _ => simp only [missed]; omega

/-- A call that erases no players uncounted, and leaves less than 2^16 of them. -/
def Fits [DecidableEq C] (m : Monster C) (l : Lists C) (e : Event C) : Prop :=
  l.missed e = 0 ∧ l.players + l.gained m e < 2 ^ 16

theorem exact_step_iff [DecidableEq C] (h : m.Counts) (hexact : l.Exact) (e : Event C) :
    (l.step m e).Exact ↔ l.Fits m e := by
  obtain ⟨hnodup, hcount⟩ := hexact
  obtain ⟨hsurplus, hplayers⟩ := change_step (l := l) h e
  have hbounds := missed_bounds (l := l) e
  have hlt := l.totalPlayersOnScreen.toNat_lt
  have hlt' := (l.step m e).totalPlayersOnScreen.toNat_lt
  unfold Exact Fits
  rw [and_iff_right (nodup_step h hnodup e)]
  unfold surplus at hsurplus
  omega

theorem run_append [DecidableEq C] (done : List (Event C)) (e : Event C) :
    run m (done ++ [e]) = (run m done).step m e := by
  rw [run, List.foldl_append]
  rfl

/-- The list holds no creature twice and the counter is the number of its players, in every state
of a run, exactly if every call fits. -/
theorem targets_exact_iff [DecidableEq C] (h : m.Counts) (events : List (Event C)) :
    (∀ done, done <+: events → (run m done).Exact) ↔
      ∀ done e, done ++ [e] <+: events → (run m done).Fits m e := by
  constructor
  · intro hexact done e he
    have hdone := hexact done ((List.prefix_append done [e]).trans he)
    rw [← exact_step_iff h hdone, ← run_append]
    exact hexact _ he
  · intro hfits done
    induction done using List.reverseRecOn with
    | nil => exact fun _ => ⟨List.nodup_nil, rfl⟩
    | append_singleton done e ih =>
      intro he
      have hdone := ih ((List.prefix_append done [e]).trans he)
      rw [run_append, exact_step_iff h hdone]
      exact hfits done e he

/-! ### Out of sight -/

/-- Creatures by their ids, players from `playerFirstID` to `playerLastID`. -/
instance : Creature UInt32 where
  getID := id
  isPlayer := fun creature => 0x10000000 ≤ creature && creature ≤ 0x50000000

/-- All that is around are `seen`, and only players are opponents. -/
def around (seen : List UInt32) : World UInt32 where
  expired := fun _ => false
  getHealth := fun _ => 100
  canSee := fun creature => seen.contains creature
  isFriend := fun creature => !isPlayer creature
  isOpponent := isPlayer
  spectators := seen
  thisRemoved := false
  thisHealth := 100
  conditionsEmpty := true
  masterPlayers := none
  held := fun _ _ => rfl

def lion : Monster UInt32 := ⟨0x50000001, false, .lion⟩

/-- The monster moves to where it sees `seen`. -/
def moves (seen : List UInt32) : Event UInt32 := ⟨around seen, .updateTargetList, fun _ _ => rfl⟩

theorem lion_counts : lion.Counts := ⟨rfl, by decide⟩

theorem targets_exact_iff_lion : lion.Counts ∧
    ((∀ done, done <+: [moves [0x10000001], moves []] → (run lion done).Exact) ↔
      ∀ done e, done ++ [e] <+: [moves [0x10000001], moves []] → (run lion done).Fits lion e) :=
  ⟨lion_counts, targets_exact_iff lion_counts _⟩

/-- A lion sees a player and moves away: it has no targets, but one player on the screen. -/
theorem out_of_sight_counted :
    (run lion [moves [0x10000001], moves []]).targetList = [] ∧
      (run lion [moves [0x10000001], moves []]).totalPlayersOnScreen = 1 ∧
      ¬(run lion [moves [0x10000001], moves []]).Exact := by
  refine ⟨by decide, by decide, fun h => ?_⟩
  have hcount := h.2
  revert hcount
  decide

end Lists

end Canary.Monsters.Targets
