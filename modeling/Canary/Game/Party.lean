import Canary.Lib.Transition
import Mathlib.Data.List.Nodup
import Mathlib.Logic.Function.Basic

/-!
# Parties

Who is in a party is kept twice: a player has a party and a list of the parties that invited
the player, and a party has a leader, a list of members and a list of those invited. The
operations are called by players (`playerInviteToParty` and so on) and by scripts, which pass
the checks of the former (`luaPartyAddInvite` and so on); scripts are asked, too, whether a player
may join or leave, and whether the party may be disbanded. What they answer is an argument of
the call.

The two sides agree in every run in which scripts add neither a member to those invited nor
a player who has a party to the members, no leader who is invited passes the leadership, and
no script keeps a party that its last player leaves (`parties_agree_of_reachable`).
-/

namespace Canary.Game.Party

open Transition

/-- The address of a party. -/
abbrev PartyId := ℕ

/-- What players and parties know of each other. (`P` are the players.) -/
structure State (P : Type) where
  /-- `m_party` -/
  party : P → Option PartyId
  invitePartyList : P → List PartyId
  /-- `m_leader`. A party without a leader is disbanded, or not created yet. -/
  leader : PartyId → Option P
  memberList : PartyId → List P
  inviteList : PartyId → List P
  /-- The parties created so far. -/
  created : ℕ

/-- The operations, with what the scripts say. -/
inductive Op (P : Type) where
  | playerInviteToParty (player invitedPlayer : P)
  | playerJoinParty (player leader : P) (onJoin : Bool)
  | playerRevokePartyInvitation (player invitedPlayer : P) (onDisband : Bool)
  | playerPassPartyLeadership (player newLeader : P)
  /-- A player who fights may not leave. -/
  | playerLeaveParty (player : P) (mayLeave onLeave onDisband : Bool)
  /-- A player who logs out leaves the party, and the lists of those invited. -/
  | onRemoveCreature (player : P) (onLeave onDisband : Bool) (onDisbandOf : PartyId → Bool)
  | luaPartyCreate (player : P)
  | luaPartyDisband (party : PartyId) (onDisband : Bool)
  | luaPartySetLeader (party : PartyId) (player : P)
  | luaPartyAddInvite (party : PartyId) (player : P)
  | luaPartyRemoveInvite (party : PartyId) (player : P) (onDisband : Bool)
  | luaPartyAddMember (party : PartyId) (player : P) (onJoin : Bool)
  | luaPartyRemoveMember (party : PartyId) (player : P) (onLeave onDisband : Bool)

variable {P : Type} [DecidableEq P]

/-! ## Players -/

def setParty (s : State P) (player : P) (newParty : Option PartyId) : State P :=
  { s with party := Function.update s.party player newParty }

def setInvitations (s : State P) (player : P) (l : List PartyId) : State P :=
  { s with invitePartyList := Function.update s.invitePartyList player l }

def addPartyInvitation (s : State P) (player : P) (newParty : PartyId) : State P :=
  if newParty ∈ s.invitePartyList player then s
  else setInvitations s player (newParty :: s.invitePartyList player)

def removePartyInvitation (s : State P) (player : P) (remParty : PartyId) : State P :=
  setInvitations s player ((s.invitePartyList player).filter (· ≠ remParty))

/-- `player` is the leader of a party that invites `q`. -/
def isInviting (s : State P) (player q : P) : Bool :=
  match s.party player with
  | some c => s.leader c = some player && q ∈ s.inviteList c
  | none => false

/-! ## Parties -/

def setLists (s : State P) (c : PartyId) (leader : Option P) (memberList inviteList : List P) :
    State P :=
  { s with
    leader := Function.update s.leader c leader
    memberList := Function.update s.memberList c memberList
    inviteList := Function.update s.inviteList c inviteList }

def empty (s : State P) (c : PartyId) : Bool := s.memberList c = [] && s.inviteList c = []

/-- `Party::create` -/
def create (s : State P) (leader : P) : State P :=
  { setParty (setLists s s.created (some leader) [] []) leader (some s.created) with
    created := s.created + 1 }

def disband (s : State P) (c : PartyId) (onDisband : Bool) : State P :=
  if !onDisband then s
  else match s.leader c with
  | none => s
  | some currentLeader =>
    let members := s.memberList c
    let invitees := s.inviteList c
    let s := setParty s currentLeader none
    let s := invitees.foldl (fun s invitee => removePartyInvitation s invitee c) s
    let s := members.foldl (fun s member => setParty s member none) s
    setLists s c none [] []

def passPartyLeadership (s : State P) (c : PartyId) (player : P) : State P :=
  match s.leader c with
  | none => s
  | some oldLeader =>
    if oldLeader = player ∨ s.party player ≠ some c then s
    else setLists s c (some player) (oldLeader :: (s.memberList c).erase player) (s.inviteList c)

/-- The leader leaves nobody behind who could lead, or a single member. -/
def missingLeader (s : State P) (c : PartyId) : Bool :=
  s.memberList c = [] || ((s.memberList c).length = 1 && s.inviteList c = [])

def leaveParty (s : State P) (c : PartyId) (player : P) (onLeave onDisband : Bool) : State P :=
  match s.leader c with
  | none => s
  | some leader =>
    if s.party player ≠ some c ∧ leader ≠ player then s
    else if !onLeave then s
    else
      let missing := leader = player && missingLeader s c
      let s := if leader = player ∧ !missing then
        match s.memberList c with
        | newLeader :: _ => passPartyLeadership s c newLeader
        | [] => s
      else s
      -- since we already passed the leadership, we remove the player from the list
      let s := setLists s c (s.leader c) ((s.memberList c).erase player) (s.inviteList c)
      let s := setParty s player none
      if missing || empty s c then disband s c onDisband else s

def joinParty (s : State P) (c : PartyId) (player : P) (onJoin : Bool) : State P :=
  match s.leader c with
  | none => s
  | some leader =>
    if !onJoin then s
    else if player ∉ s.inviteList c then s
    else
      let s := setLists s c leader (s.memberList c ++ [player]) ((s.inviteList c).erase player)
      removePartyInvitation (setParty s player (some c)) player c

def removeInvite (s : State P) (c : PartyId) (player : P) (removeFromPlayer onDisband : Bool) :
    State P :=
  match s.leader c with
  | none => s
  | some leader =>
    if player ∉ s.inviteList c then s
    else
      let s := setLists s c leader (s.memberList c) ((s.inviteList c).erase player)
      let s := if removeFromPlayer then removePartyInvitation s player c else s
      if empty s c then disband s c onDisband else s

def invitePlayer (s : State P) (c : PartyId) (player : P) : State P :=
  match s.leader c with
  | none => s
  | some leader =>
    if player ∈ s.inviteList c then s
    else
      let s := setLists s c leader (s.memberList c) (s.inviteList c ++ [player])
      addPartyInvitation s player c

def clearPartyInvitations (s : State P) (player : P) (onDisbandOf : PartyId → Bool) : State P :=
  let s := (s.invitePartyList player).foldl
    (fun s c => removeInvite s c player false (onDisbandOf c)) s
  setInvitations s player []

/-! ## The operations -/

def playerInviteToParty (s : State P) (player invitedPlayer : P) : State P :=
  if player = invitedPlayer then s
  else if isInviting s invitedPlayer player then s
  else if (s.party invitedPlayer).isSome then s
  else match s.party player with
  | none => invitePlayer (create s player) s.created invitedPlayer
  | some c => if s.leader c ≠ some player then s else invitePlayer s c invitedPlayer

def playerJoinParty (s : State P) (player leader : P) (onJoin : Bool) : State P :=
  if !isInviting s leader player then s
  else match s.party leader with
  | none => s
  | some c =>
    if s.leader c ≠ some leader then s
    else if (s.party player).isSome then s
    else joinParty s c player onJoin

def playerRevokePartyInvitation (s : State P) (player invitedPlayer : P) (onDisband : Bool) :
    State P :=
  match s.party player with
  | none => s
  | some c =>
    if s.leader c ≠ some player then s
    else if !isInviting s player invitedPlayer then s
    else removeInvite s c invitedPlayer true onDisband

def playerPassPartyLeadership (s : State P) (player newLeader : P) : State P :=
  match s.party player with
  | none => s
  | some c =>
    if s.leader c ≠ some player then s
    -- `isPartner`
    else if player = newLeader ∨ s.party newLeader ≠ some c then s
    else passPartyLeadership s c newLeader

def playerLeaveParty (s : State P) (player : P) (mayLeave onLeave onDisband : Bool) : State P :=
  match s.party player with
  | none => s
  | some c => if !mayLeave then s else leaveParty s c player onLeave onDisband

def onRemoveCreature (s : State P) (player : P) (onLeave onDisband : Bool)
    (onDisbandOf : PartyId → Bool) : State P :=
  let s := match s.party player with
    | none => s
    | some c => leaveParty s c player onLeave onDisband
  clearPartyInvitations s player onDisbandOf

def apply (s : State P) : Op P → State P
  | .playerInviteToParty p q => playerInviteToParty s p q
  | .playerJoinParty p q onJoin => playerJoinParty s p q onJoin
  | .playerRevokePartyInvitation p q onDisband => playerRevokePartyInvitation s p q onDisband
  | .playerPassPartyLeadership p q => playerPassPartyLeadership s p q
  | .playerLeaveParty p mayLeave onLeave onDisband =>
    playerLeaveParty s p mayLeave onLeave onDisband
  | .onRemoveCreature p onLeave onDisband onDisbandOf =>
    onRemoveCreature s p onLeave onDisband onDisbandOf
  | .luaPartyCreate p => if (s.party p).isSome then s else create s p
  | .luaPartyDisband c onDisband => disband s c onDisband
  | .luaPartySetLeader c p => passPartyLeadership s c p
  | .luaPartyAddInvite c p => invitePlayer s c p
  | .luaPartyRemoveInvite c p onDisband => removeInvite s c p true onDisband
  | .luaPartyAddMember c p onJoin => joinParty s c p onJoin
  | .luaPartyRemoveMember c p onLeave onDisband => leaveParty s c p onLeave onDisband

/-- Nobody has a party yet. -/
def initial : State P := ⟨fun _ => none, fun _ => [], fun _ => none, fun _ => [], fun _ => [], 0⟩

/-- Any operations in any order. -/
def system : System (State P) (Op P) where
  init s := s = initial
  step s op s' := s' = apply s op

/-! ## What holds between calls -/

/-- Players and parties agree. -/
structure Consistent (s : State P) : Prop where
  party_iff : ∀ c x, s.party x = some c ↔ s.leader c = some x ∨ x ∈ s.memberList c
  leader_notMem : ∀ c x, s.leader c = some x → x ∉ s.memberList c
  members_nodup : ∀ c, (s.memberList c).Nodup
  invited_nodup : ∀ c, (s.inviteList c).Nodup
  disjoint : ∀ c, (s.memberList c).Disjoint (s.inviteList c)
  invited_iff : ∀ c x, x ∈ s.inviteList c ↔ c ∈ s.invitePartyList x
  /-- No player refers to a disbanded party. -/
  disbanded : ∀ c, s.leader c = none → ∀ x, s.party x ≠ some c ∧ c ∉ s.invitePartyList x

/-- A party and its players agree. A party without a leader is empty. -/
structure Agrees (s : State P) (c : PartyId) : Prop where
  party_iff : ∀ x, s.party x = some c ↔ s.leader c = some x ∨ x ∈ s.memberList c
  leader_notMem : ∀ x, s.leader c = some x → x ∉ s.memberList c
  members_nodup : (s.memberList c).Nodup
  invited_nodup : (s.inviteList c).Nodup
  disjoint : ∀ x ∈ s.memberList c, x ∉ s.inviteList c
  invited_iff : ∀ x, x ∈ s.inviteList c ↔ c ∈ s.invitePartyList x
  empty : s.leader c = none → s.memberList c = [] ∧ s.inviteList c = []

structure Inv (s : State P) : Prop where
  agrees : ∀ c, Agrees s c
  invitations_nodup : ∀ x, (s.invitePartyList x).Nodup
  /-- The parties to be created. -/
  fresh : ∀ c, s.created ≤ c → s.leader c = none

omit [DecidableEq P] in
theorem Inv.consistent {s : State P} (h : Inv s) : Consistent s where
  party_iff c := (h.agrees c).party_iff
  leader_notMem c := (h.agrees c).leader_notMem
  members_nodup c := (h.agrees c).members_nodup
  invited_nodup c := (h.agrees c).invited_nodup
  disjoint c := List.disjoint_left.2 (h.agrees c).disjoint
  invited_iff c := (h.agrees c).invited_iff
  disbanded c hc x := by
    obtain ⟨hmembers, hinvited⟩ := (h.agrees c).empty hc
    rw [Ne, (h.agrees c).party_iff, ← (h.agrees c).invited_iff, hc, hmembers, hinvited]
    exact ⟨not_or.2 ⟨nofun, List.not_mem_nil⟩, List.not_mem_nil⟩

omit [DecidableEq P] in
theorem inv_initial : Inv (initial : State P) where
  agrees _ := ⟨fun _ => ⟨nofun, fun h => h.elim nofun nofun⟩, fun _ => nofun, List.nodup_nil,
    List.nodup_nil, fun _ => nofun, fun _ => ⟨nofun, nofun⟩, fun _ => ⟨rfl, rfl⟩⟩
  invitations_nodup _ := List.nodup_nil
  fresh _ _ := rfl

section

variable {s s' : State P} {c : PartyId} {player : P}

omit [DecidableEq P] in
/-- A party that is left alone. -/
theorem Agrees.congr (h : Agrees s c) (hleader : s'.leader c = s.leader c)
    (hmembers : s'.memberList c = s.memberList c) (hinvited : s'.inviteList c = s.inviteList c)
    (hparty : ∀ x, s'.party x = some c ↔ s.party x = some c)
    (hinvitations : ∀ x, c ∈ s'.invitePartyList x ↔ c ∈ s.invitePartyList x) : Agrees s' c where
  party_iff x := by rw [hparty, hleader, hmembers, h.party_iff]
  leader_notMem x := by rw [hleader, hmembers]; exact h.leader_notMem x
  members_nodup := hmembers ▸ h.members_nodup
  invited_nodup := hinvited ▸ h.invited_nodup
  disjoint := by rw [hmembers, hinvited]; exact h.disjoint
  invited_iff x := by rw [hinvited, hinvitations, h.invited_iff]
  empty := by rw [hleader, hmembers, hinvited]; exact h.empty

omit [DecidableEq P] in
/-- An operation on one party keeps the invariant if that party agrees with its players, and
    players change to and from that party only. -/
theorem Inv.change (h : Inv s) (hc : Agrees s' c)
    (hother : ∀ c', c' ≠ c → s'.leader c' = s.leader c' ∧ s'.memberList c' = s.memberList c' ∧
      s'.inviteList c' = s.inviteList c')
    (hparty : ∀ c' x, c' ≠ c → (s'.party x = some c' ↔ s.party x = some c'))
    (hinvitations : ∀ c' x, c' ≠ c → (c' ∈ s'.invitePartyList x ↔ c' ∈ s.invitePartyList x))
    (hnodup : ∀ x, (s'.invitePartyList x).Nodup)
    (hfresh : ∀ c', s'.created ≤ c' → s'.leader c' = none) : Inv s' where
  agrees c' := by
    by_cases he : c' = c
    · exact he ▸ hc
    · obtain ⟨hleader, hmembers, hinvited⟩ := hother c' he
      exact (h.agrees c').congr hleader hmembers hinvited (fun x => hparty c' x he) fun x =>
        hinvitations c' x he
  invitations_nodup := hnodup
  fresh := hfresh

omit [DecidableEq P] in
/-- The parties to come have no leader, whoever leads one that exists. -/
theorem Inv.fresh_update (h : Inv s) {leader : P} (hleader : s.leader c = some leader)
    (value : Option P) {c' : PartyId} (hc' : s.created ≤ c') :
    (if c' = c then value else s.leader c') = none := by
  rw [if_neg, h.fresh c' hc']
  rintro rfl
  exact absurd (hleader.symm.trans (h.fresh c' hc')) nofun

/-! ## Creating -/

/-- A party is created for a player without one. -/
theorem inv_create (h : Inv s) (hplayer : s.party player = none) : Inv (create s player) := by
  -- The new party is one that nobody refers to yet.
  have hleader := h.fresh s.created (Nat.le_refl _)
  have hfresh := h.agrees s.created
  obtain ⟨hmembers, hinvited⟩ := hfresh.empty hleader
  refine h.change (c := s.created)
    ⟨fun x => ?_, fun x _ => ?_, ?_, ?_, ?_, fun x => ?_, fun hx => ?_⟩ (fun c hc => ?_)
    (fun c x hc => ?_) (fun c x hc => Iff.rfl) h.invitations_nodup fun c hc => ?_
  all_goals simp only [create, setParty, setLists, Function.update_apply] at *
  · have hx := hfresh.party_iff x
    rw [hleader, hmembers] at hx
    by_cases he : x = player
    · simp [he]
    · simpa [he, Ne.symm he] using hx
  · simp
  · simp
  · simp
  · simp
  · rw [← hfresh.invited_iff, hinvited]
    simp
  · simp at hx
  · simp [hc]
  · split_ifs with hx
    · rw [hx, hplayer]
      simp [Ne.symm hc]
    · rfl
  · rw [if_neg (Nat.ne_of_gt hc)]
    exact h.fresh c (Nat.le_of_succ_le hc)

/-! ## Inviting and joining -/

theorem inv_invitePlayer (h : Inv s) (hmember : player ∉ s.memberList c) :
    Inv (invitePlayer s c player) := by
  rw [invitePlayer]
  rcases hleader : s.leader c with _ | leader
  · exact h
  dsimp only
  split_ifs with hinvited
  · exact h
  -- The player does not have the party in the list, so that `addPartyInvitation` adds it.
  have hnew : c ∉ s.invitePartyList player := fun hc =>
    hinvited (((h.agrees c).invited_iff player).2 hc)
  have hlist : addPartyInvitation (setLists s c (some leader) (s.memberList c)
      (s.inviteList c ++ [player])) player c = setInvitations (setLists s c (some leader)
      (s.memberList c) (s.inviteList c ++ [player])) player (c :: s.invitePartyList player) :=
    if_neg hnew
  have hc := h.agrees c
  rw [hlist]
  refine h.change (c := c) ⟨fun x => ?_, fun x hx => ?_, ?_, ?_, fun x hx => ?_, fun x => ?_,
    fun hx => ?_⟩ (fun c' hc' => ?_) (fun _ _ _ => Iff.rfl) (fun c' x hc' => ?_) (fun x => ?_)
    fun c' hc' => ?_
  all_goals simp only [setInvitations, setLists, Function.update_apply, if_true] at *
  · rw [hc.party_iff, hleader]
  · exact hc.leader_notMem x (hleader.trans hx)
  · exact hc.members_nodup
  · rw [List.nodup_append]
    exact ⟨hc.invited_nodup, List.nodup_singleton _, fun x hx y hy => by
      rw [List.mem_singleton.1 hy]
      exact fun he => hinvited (he ▸ hx)⟩
  · rw [List.mem_append, List.mem_singleton]
    exact not_or.2 ⟨hc.disjoint x hx, fun he => hmember (he ▸ hx)⟩
  · rw [List.mem_append, List.mem_singleton, hc.invited_iff]
    split_ifs with he
    · simp [he]
    · simp [he]
  · nomatch hx
  · simp [hc']
  · split_ifs with he
    · simp [he, hc']
    · rfl
  · split_ifs with he
    · exact List.nodup_cons.2 ⟨hnew, h.invitations_nodup player⟩
    · exact h.invitations_nodup x
  · exact h.fresh_update hleader _ hc'

/-- A player without a party joins. -/
theorem inv_joinParty (h : Inv s) {onJoin : Bool}
    (hparty : onJoin = true → player ∈ s.inviteList c → s.party player = none) :
    Inv (joinParty s c player onJoin) := by
  rw [joinParty]
  rcases hleader : s.leader c with _ | leader
  · exact h
  dsimp only
  split_ifs with honJoin hinvited
  · exact h
  swap
  · exact h
  have hc := h.agrees c
  have hnone := hparty (by simpa using honJoin) hinvited
  -- Who has no party plays no part in this one.
  have hno : leader ≠ player ∧ player ∉ s.memberList c := by
    have hx := (hc.party_iff player).not.1 (by rw [hnone]; exact nofun)
    rw [hleader, not_or] at hx
    exact ⟨fun he => hx.1 (congrArg some he), hx.2⟩
  refine h.change (c := c) ⟨fun x => ?_, fun x hx => ?_, ?_, ?_, fun x hx => ?_, fun x => ?_,
    fun hx => ?_⟩ (fun c' hc' => ?_) (fun c' x hc' => ?_) (fun c' x hc' => ?_) (fun x => ?_)
    fun c' hc' => ?_
  all_goals simp only [removePartyInvitation, setInvitations, setParty, setLists,
    Function.update_apply, if_true] at *
  · rw [List.mem_append, List.mem_singleton]
    split_ifs with he
    · simp [he]
    · rw [hc.party_iff, hleader]
      simp [he]
  · rw [List.mem_append, List.mem_singleton]
    refine not_or.2 ⟨hc.leader_notMem x (hleader.trans hx), fun he => ?_⟩
    exact hno.1 ((Option.some.inj hx).trans he)
  · rw [List.nodup_append]
    exact ⟨hc.members_nodup, List.nodup_singleton _, fun x hx y hy => by
      rw [List.mem_singleton.1 hy]
      exact fun he => hno.2 (he ▸ hx)⟩
  · exact hc.invited_nodup.erase _
  · rw [hc.invited_nodup.mem_erase_iff]
    rw [List.mem_append, List.mem_singleton] at hx
    exact fun hand => hx.elim (fun hm => hc.disjoint x hm hand.2) hand.1
  · rw [hc.invited_nodup.mem_erase_iff, hc.invited_iff]
    split_ifs with he
    · simp [he]
    · simp [he]
  · nomatch hx
  · simp [hc']
  · split_ifs with he
    · rw [he, hnone]
      simp [Ne.symm hc']
    · rfl
  · split_ifs with he
    · simp [he, hc']
    · rfl
  · split_ifs with he
    · exact (h.invitations_nodup player).filter _
    · exact h.invitations_nodup x
  · exact h.fresh_update hleader _ hc'

/-! ## Disbanding -/

theorem foldl_setParty (s : State P) (l : List P) :
    l.foldl (fun s member => setParty s member none) s =
      { s with party := fun x => if x ∈ l then none else s.party x } := by
  induction l generalizing s with
  | nil => simp
  | cons a l ih =>
    rw [List.foldl_cons, ih]
    simp only [setParty, State.mk.injEq, and_true]
    funext x
    rw [Function.update_apply]
    by_cases hx : x = a
    · simp [hx]
    · simp [hx]

theorem foldl_removePartyInvitation (s : State P) (c : PartyId) (l : List P) :
    l.foldl (fun s invitee => removePartyInvitation s invitee c) s =
      { s with invitePartyList := fun x => if x ∈ l then (s.invitePartyList x).filter (· ≠ c)
               else s.invitePartyList x } := by
  induction l generalizing s with
  | nil => simp
  | cons a l ih =>
    rw [List.foldl_cons, ih]
    simp only [removePartyInvitation, setInvitations, State.mk.injEq, and_true, true_and]
    funext x
    rw [Function.update_apply]
    by_cases hx : x = a
    · simp [hx, List.filter_filter]
    · simp [hx]

/-- A party is disbanded whose players are those who refer to it, or refer to none. -/
theorem inv_disband_of (leader : P) (hother : ∀ c', c' ≠ c → Agrees s c')
    (hleader : s.leader c = some leader)
    (hparty : ∀ x, s.party x = some c → x = leader ∨ x ∈ s.memberList c)
    (honly : ∀ x, x = leader ∨ x ∈ s.memberList c → ∀ c', s.party x = some c' → c' = c)
    (hinvited : ∀ x, x ∈ s.inviteList c ↔ c ∈ s.invitePartyList x)
    (hnodup : ∀ x, (s.invitePartyList x).Nodup)
    (hfresh : ∀ c', s.created ≤ c' → s.leader c' = none) : Inv (disband s c true) := by
  -- Both loops at once: one over the members, one over those invited.
  have hdisband : disband s c true =
      { s with
        party := fun x => if x = leader ∨ x ∈ s.memberList c then none else s.party x
        invitePartyList := fun x => if x ∈ s.inviteList c then
          (s.invitePartyList x).filter (· ≠ c) else s.invitePartyList x
        leader := Function.update s.leader c none
        memberList := Function.update s.memberList c []
        inviteList := Function.update s.inviteList c [] } := by
    rw [disband]
    simp only [hleader, foldl_removePartyInvitation, foldl_setParty, Bool.not_true,
      Bool.false_eq_true, if_false]
    simp only [setLists, setParty, State.mk.injEq, and_true]
    funext x
    rw [Function.update_apply]
    by_cases hx : x = leader
    · simp [hx]
    · simp [hx]
  rw [hdisband]
  refine ⟨fun c' => ?_, fun x => ?_, fun c' hc' => ?_⟩
  · by_cases he : c' = c
    · -- Nobody refers to the party any more, and nothing is left of it.
      subst he
      refine ⟨fun x => ?_, ?_, ?_, ?_, ?_, fun x => ?_, fun _ => ?_⟩
      all_goals simp only [Function.update_self]
      · split_ifs with hx
        · simp
        · simp only [List.not_mem_nil, or_false, iff_false]
          exact fun hc => hx (hparty x hc)
      · simp
      · simp
      · simp
      · simp
      · split_ifs with hx
        · simp
        · simpa using fun hc => hx ((hinvited x).2 hc)
      · simp
    · -- No player of another party is touched.
      refine (hother c' he).congr ?_ ?_ ?_ (fun x => ?_) fun x => ?_
      all_goals dsimp only
      · rw [Function.update_of_ne he]
      · rw [Function.update_of_ne he]
      · rw [Function.update_of_ne he]
      · split_ifs with hx
        · exact ⟨nofun, fun hc => absurd (honly x hx c' hc) he⟩
        · rfl
      · split_ifs
        · simp [he]
        · rfl
  · dsimp only
    split_ifs
    · exact (hnodup x).filter _
    · exact hnodup x
  · dsimp only
    rw [Function.update_apply]
    split_ifs
    · rfl
    · exact hfresh c' hc'

theorem inv_disband (h : Inv s) (onDisband : Bool) : Inv (disband s c onDisband) := by
  cases onDisband with
  | false => exact h
  | true =>
    rcases hleader : s.leader c with _ | leader
    · rw [disband, hleader]
      exact h
    · have hiff : ∀ x, s.party x = some c ↔ x = leader ∨ x ∈ s.memberList c := by
        intro x
        rw [(h.agrees c).party_iff, hleader, Option.some.injEq, eq_comm]
      refine inv_disband_of _ (fun c' _ => h.agrees c') hleader (fun x => (hiff x).1)
        (fun x hx c' hc' => ?_) (h.agrees c).invited_iff h.invitations_nodup h.fresh
      exact Option.some.inj (hc'.symm.trans ((hiff x).2 hx))

/-- Scripts may keep a party that is empty, but not one that has lost its leader. -/
theorem inv_ite_disband (h : Inv s) (b onDisband : Bool) :
    Inv (if b then disband s c onDisband else s) := by
  split_ifs
  · exact inv_disband h onDisband
  · exact h

/-! ## Removing invitations -/

/-- The party forgets an invitation, and the player the party. -/
theorem inv_erase_invitation (player : P) (h : Inv s) {leader : P}
    (hleader : s.leader c = some leader) {l : List PartyId}
    (hl : ∀ c', c' ∈ l ↔ c' ∈ s.invitePartyList player ∧ c' ≠ c) (hnodup : l.Nodup) :
    Inv (setInvitations (setLists s c (some leader) (s.memberList c)
      ((s.inviteList c).erase player)) player l) := by
  have hc := h.agrees c
  refine h.change (c := c) ⟨fun x => ?_, fun x hx => ?_, ?_, ?_, fun x hx => ?_, fun x => ?_,
    fun hx => ?_⟩ (fun c' hc' => ?_) (fun _ _ _ => Iff.rfl) (fun c' x hc' => ?_) (fun x => ?_)
    fun c' hc' => ?_
  all_goals simp only [setInvitations, setLists, Function.update_apply, if_true] at *
  · rw [hc.party_iff, hleader]
  · exact hc.leader_notMem x (hleader.trans hx)
  · exact hc.members_nodup
  · exact hc.invited_nodup.erase _
  · exact fun hm => hc.disjoint x hx (List.mem_of_mem_erase hm)
  · rw [hc.invited_nodup.mem_erase_iff, hc.invited_iff]
    split_ifs with he
    · simp [he, hl]
    · simp [he]
  · nomatch hx
  · simp [hc']
  · split_ifs with he
    · simp [he, hl, hc']
    · rfl
  · split_ifs
    · exact hnodup
    · exact h.invitations_nodup x
  · exact h.fresh_update hleader _ hc'

theorem inv_removeInvite (h : Inv s) (onDisband : Bool) :
    Inv (removeInvite s c player true onDisband) := by
  rw [removeInvite]
  rcases hleader : s.leader c with _ | leader
  · exact h
  by_cases hinvited : player ∈ s.inviteList c
  · have hremoved : Inv (removePartyInvitation (setLists s c (some leader) (s.memberList c)
        ((s.inviteList c).erase player)) player c) :=
      inv_erase_invitation player h hleader (fun c' => by simp [setLists])
        ((h.invitations_nodup player).filter _)
    simp only [hinvited, not_true_eq_false, if_false, if_true]
    exact inv_ite_disband hremoved _ onDisband
  · simp only [hinvited, not_false_eq_true, if_true]
    exact h

omit [DecidableEq P] in
theorem eq_nil_of_empty (h : empty s c = true) : s.memberList c = [] ∧ s.inviteList c = [] := by
  simpa [empty] using h

/-- A party that invites nobody is disbanded whatever the invitations are. -/
theorem disband_setInvitations (h : s.inviteList c = []) (onDisband : Bool) (l : List PartyId) :
    setInvitations (disband s c onDisband) player l =
      disband (setInvitations s player l) c onDisband := by
  rcases hleader : s.leader c with _ | leader
  · have hleader' : (setInvitations s player l).leader c = none := hleader
    rw [disband, disband, hleader, hleader']
    split_ifs <;> rfl
  · have hleader' : (setInvitations s player l).leader c = some leader := hleader
    have h' : (setInvitations s player l).inviteList c = [] := h
    rw [disband, disband, hleader, hleader']
    split_ifs
    · rfl
    · simp only [h, h', List.foldl_nil, foldl_setParty]
      rfl

/-- The list of the player is kept until all parties have forgotten the player. -/
theorem inv_removeInvite_false {l : List PartyId} (h : Inv (setInvitations s player (c :: l)))
    (onDisband : Bool) :
    Inv (setInvitations (removeInvite s c player false onDisband) player l) := by
  have hlist : (setInvitations s player (c :: l)).invitePartyList player = c :: l :=
    Function.update_self ..
  have hnodup := h.invitations_nodup player
  rw [hlist, List.nodup_cons] at hnodup
  have hinvited : player ∈ s.inviteList c :=
    ((h.agrees c).invited_iff player).2 (by rw [hlist]; exact List.mem_cons_self)
  rw [removeInvite]
  rcases hleader : s.leader c with _ | leader
  · -- A disbanded party invites nobody.
    have hnone := ((h.agrees c).empty hleader).2
    exact absurd (hnone ▸ hinvited : player ∈ ([] : List P)) List.not_mem_nil
  have herase := inv_erase_invitation player h hleader (l := l) (fun c' => by
    rw [hlist, List.mem_cons]
    exact ⟨fun hc' => ⟨.inr hc', fun he => hnodup.1 (he ▸ hc')⟩, fun hc' =>
      hc'.1.resolve_left hc'.2⟩) hnodup.2
  have hset : setInvitations (setLists (setInvitations s player (c :: l)) c (some leader)
      (s.memberList c) ((s.inviteList c).erase player)) player l =
      setInvitations (setLists s c (some leader) (s.memberList c)
        ((s.inviteList c).erase player)) player l := by
    simp only [setInvitations, setLists, Function.update_idem]
  simp only [hinvited, not_true_eq_false, if_false, Bool.false_eq_true]
  replace herase := hset ▸ herase
  split_ifs with hempty
  · rw [disband_setInvitations (eq_nil_of_empty hempty).2]
    exact inv_disband herase onDisband
  · exact herase

theorem inv_clearPartyInvitations (h : Inv s) (onDisbandOf : PartyId → Bool) :
    Inv (clearPartyInvitations s player onDisbandOf) := by
  rw [clearPartyInvitations]
  -- The induction is on the list of the player, which the parties forget one by one.
  have hself : setInvitations s player (s.invitePartyList player) = s := by
    rw [setInvitations, Function.update_eq_self]
  generalize s.invitePartyList player = l at hself ⊢
  rw [← hself] at h
  clear hself
  induction l generalizing s with
  | nil => exact h
  | cons c l ih => exact ih (inv_removeInvite_false h (onDisbandOf c))

/-! ## Passing the leadership and leaving -/

/-- The new leader is a member, and the old one becomes one. -/
theorem inv_passPartyLeadership (h : Inv s)
    (hinvited : ∀ leader, s.leader c = some leader → leader ≠ player →
      s.party player = some c → leader ∉ s.inviteList c) :
    Inv (passPartyLeadership s c player) := by
  rw [passPartyLeadership]
  rcases hleader : s.leader c with _ | leader
  · exact h
  dsimp only
  split_ifs with hskip
  · exact h
  rw [not_or, Ne, not_not] at hskip
  obtain ⟨hne, hparty⟩ := hskip
  have hc := h.agrees c
  have hno := hinvited leader hleader hne hparty
  have hmember : player ∈ s.memberList c :=
    ((hc.party_iff player).1 hparty).resolve_left fun he =>
      hne (Option.some.inj (hleader.symm.trans he))
  refine h.change (c := c) ⟨fun x => ?_, fun x hx => ?_, ?_, ?_, fun x hx => ?_, fun x => ?_,
    fun hx => ?_⟩ (fun c' hc' => ?_) (fun _ _ _ => Iff.rfl) (fun _ _ _ => Iff.rfl)
    h.invitations_nodup fun c' hc' => ?_
  all_goals simp only [setLists, Function.update_apply, if_true] at *
  · rw [hc.party_iff, hleader, List.mem_cons, hc.members_nodup.mem_erase_iff, Option.some.injEq,
      Option.some.injEq]
    by_cases he : x = player
    · simp [he, hmember]
    · simp [he, Ne.symm he, eq_comm]
  · rw [← Option.some.inj hx, List.mem_cons, hc.members_nodup.mem_erase_iff]
    simp [Ne.symm hne]
  · exact List.nodup_cons.2 ⟨fun hm => hc.leader_notMem leader hleader (List.mem_of_mem_erase hm),
      hc.members_nodup.erase _⟩
  · exact hc.invited_nodup
  · rcases List.mem_cons.1 hx with he | hx
    · exact he ▸ hno
    · exact hc.disjoint x (List.mem_of_mem_erase hx)
  · exact hc.invited_iff x
  · nomatch hx
  · simp [hc']
  · exact h.fresh_update hleader _ hc'

/-- A player is taken out of the party, whose other players stay, in any roles. -/
theorem inv_remove (h : Inv s) (hparty : s.party player = some c) {leader : P} {members : List P}
    (hplayers : ∀ x, x = leader ∨ x ∈ members ↔ s.party x = some c ∧ x ≠ player)
    (hleader : leader ∉ members) (hmembers : members.Nodup)
    (hdisjoint : ∀ x ∈ members, x ∉ s.inviteList c) :
    Inv (setParty (setLists s c (some leader) members (s.inviteList c)) player none) := by
  have hc := h.agrees c
  obtain ⟨oldLeader, hold⟩ : ∃ oldLeader, s.leader c = some oldLeader := by
    refine Option.ne_none_iff_exists'.1 fun hnone => ?_
    have hx := (hc.party_iff player).1 hparty
    rw [hnone, (hc.empty hnone).1] at hx
    exact hx.elim nofun nofun
  refine h.change (c := c) ⟨fun x => ?_, fun x hx => ?_, ?_, ?_, ?_, fun x => ?_,
    fun hx => ?_⟩ (fun c' hc' => ?_) (fun c' x hc' => ?_) (fun _ _ _ => Iff.rfl)
    h.invitations_nodup fun c' hc' => ?_
  all_goals simp only [setParty, setLists, Function.update_apply, if_true] at *
  · have hx := hplayers x
    split_ifs with he
    · simp only [he, ne_eq, not_true_eq_false, and_false, iff_false] at hx
      simp [he, eq_comm (a := leader), hx]
    · rw [Option.some.injEq, eq_comm (a := leader), hx]
      simp [he]
  · exact Option.some.inj hx ▸ hleader
  · exact hmembers
  · exact hc.invited_nodup
  · exact hdisjoint
  · exact hc.invited_iff x
  · nomatch hx
  · simp [hc']
  · split_ifs with he
    · rw [he, hparty]
      simp [Ne.symm hc']
    · rfl
  · exact h.fresh_update hold _ hc'

/-- A player who leads nobody, or a single member, leaves, and the party is disbanded. -/
theorem inv_disband_leaderless (h : Inv s) (hleader : s.leader c = some player) :
    Inv (disband (setParty (setLists s c (some player) ((s.memberList c).erase player)
      (s.inviteList c)) player none) c true) := by
  have hc := h.agrees c
  have hparty : s.party player = some c := (hc.party_iff player).2 (.inl hleader)
  have herase : (s.memberList c).erase player = s.memberList c :=
    List.erase_of_not_mem (hc.leader_notMem player hleader)
  refine inv_disband_of player (fun c' hc' => ?_) ?_ (fun x => ?_) (fun x hx c' => ?_)
    (fun x => ?_) h.invitations_nodup fun c' hc' => ?_
  all_goals simp only [setParty, setLists, Function.update_apply, if_true, herase] at *
  · refine (h.agrees c').congr ?_ ?_ ?_ (fun x => ?_) fun _ => Iff.rfl
    · simp [hc']
    · simp [hc']
    · simp [hc']
    · dsimp only
      rw [Function.update_apply]
      split_ifs with hx
      · rw [hx, hparty]
        simp [Ne.symm hc']
      · rfl
  · split_ifs with hx
    · exact nofun
    · rw [hc.party_iff, hleader]
      exact fun hx' => hx'.imp (fun he => (Option.some.inj he).symm) id
  · split_ifs with he
    · exact nofun
    · rw [(hc.party_iff x).2 (.inr (hx.resolve_left he))]
      exact fun he' => (Option.some.inj he').symm
  · exact hc.invited_iff x
  · exact h.fresh_update hleader _ hc'

/-- The state in which a leader has passed the leadership on and left. -/
theorem setLists_passPartyLeadership {newLeader : P} {rest : List P} (h : Inv s)
    (hleader : s.leader c = some player) (hmembers : s.memberList c = newLeader :: rest) :
    setLists (passPartyLeadership s c newLeader) c
        ((passPartyLeadership s c newLeader).leader c)
        (((passPartyLeadership s c newLeader).memberList c).erase player)
        ((passPartyLeadership s c newLeader).inviteList c) =
      setLists s c (some newLeader) rest (s.inviteList c) := by
  have hc := h.agrees c
  have hmem : newLeader ∈ s.memberList c := by
    rw [hmembers]
    exact List.mem_cons_self
  have hskip : ¬ (player = newLeader ∨ s.party newLeader ≠ some c) := by
    rw [not_or, not_not]
    exact ⟨fun he => hc.leader_notMem player hleader (he ▸ hmem),
      (hc.party_iff newLeader).2 (.inr hmem)⟩
  rw [passPartyLeadership, hleader]
  dsimp only
  rw [if_neg hskip]
  simp only [setLists, Function.update_self, hmembers, List.erase_cons_head, Function.update_idem]

theorem inv_leaveParty (h : Inv s) {onLeave onDisband : Bool}
    (hok : s.leader c = some player → missingLeader s c = true → onLeave = true →
      onDisband = true) : Inv (leaveParty s c player onLeave onDisband) := by
  have hc := h.agrees c
  rw [leaveParty]
  rcases hleader : s.leader c with _ | leader
  · exact h
  dsimp only
  by_cases hskip : s.party player ≠ some c ∧ leader ≠ player
  · rw [if_pos hskip]
    exact h
  rw [if_neg hskip]
  cases honLeave : onLeave with
  | false => exact h
  | true =>
  by_cases hlead : leader = player
  · subst hlead
    have hparty : s.party leader = some c := (hc.party_iff leader).2 (.inl hleader)
    cases hmissing : missingLeader s c with
    | true =>
      -- Nobody could lead the party.
      rw [hok hleader hmissing honLeave]
      simpa [hleader] using inv_disband_leaderless h hleader
    | false =>
      -- The first member becomes the leader.
      obtain ⟨newLeader, rest, hmembers⟩ : ∃ m l, s.memberList c = m :: l := by
        refine List.exists_cons_of_ne_nil fun hnil => ?_
        rw [missingLeader, hnil] at hmissing
        nomatch hmissing
      have hlists := setLists_passPartyLeadership h hleader hmembers
      simp only [hmembers, decide_true, Bool.not_false, Bool.and_false, Bool.false_or,
        Bool.not_true, Bool.false_eq_true, if_false, and_self, if_true, hlists]
      have hnodup := hc.members_nodup
      have hnot := hc.leader_notMem leader hleader
      rw [hmembers] at hnodup hnot
      refine inv_ite_disband (inv_remove h hparty (fun x => ?_) (List.nodup_cons.1 hnodup).1
        (List.nodup_cons.1 hnodup).2 fun x hx => ?_) _ onDisband
      · rw [hc.party_iff, hleader, hmembers, List.mem_cons, Option.some.injEq]
        by_cases he : x = leader
        · rw [he]
          rw [List.mem_cons] at hnot
          simp [hnot]
        · simp [he, Ne.symm he]
      · refine hc.disjoint x ?_
        rw [hmembers]
        exact List.mem_cons_of_mem _ hx
  · -- A member leaves.
    have hparty : s.party player = some c := not_not.1 fun hne => hskip ⟨hne, hlead⟩
    simp only [hlead, decide_false, Bool.false_and, Bool.false_or, false_and, if_false,
      Bool.not_true, Bool.false_eq_true, hleader]
    refine inv_ite_disband (inv_remove h hparty (fun x => ?_)
      (fun hm => hc.leader_notMem leader hleader (List.mem_of_mem_erase hm))
      (hc.members_nodup.erase _) fun x hx => hc.disjoint x (List.mem_of_mem_erase hx)) _ onDisband
    rw [hc.party_iff, hleader, hc.members_nodup.mem_erase_iff, Option.some.injEq]
    by_cases he : x = player
    · simp [he, Ne.symm hlead, hlead]
    · simp [he, eq_comm (a := leader)]

end

/-! ## All runs -/

/-- The scripts do not keep a party that the player is the last one to leave. -/
def LeaveOk (s : State P) (c : PartyId) (player : P) (onLeave onDisband : Bool) : Prop :=
  s.leader c = some player → missingLeader s c = true → onLeave = true → onDisband = true

/-- A leader who passes the leadership to `player` is not invited. -/
def PassOk (s : State P) (c : PartyId) (player : P) : Prop :=
  ∀ leader, s.leader c = some leader → leader ≠ player → s.party player = some c →
    leader ∉ s.inviteList c

/-- The operations that keep players and parties in agreement: scripts invite no member, add
    no player who has a party, and keep no party that is left by its last player; no leader
    who is invited passes the leadership. -/
def ok (s : State P) : Op P → Prop
  | .playerPassPartyLeadership player newLeader =>
    ∀ c, s.party player = some c → PassOk s c newLeader
  | .playerLeaveParty player mayLeave onLeave onDisband =>
    ∀ c, s.party player = some c → mayLeave = true → LeaveOk s c player onLeave onDisband
  | .onRemoveCreature player onLeave onDisband _ =>
    ∀ c, s.party player = some c → LeaveOk s c player onLeave onDisband
  | .luaPartySetLeader c player => PassOk s c player
  | .luaPartyAddInvite c player => player ∉ s.memberList c
  | .luaPartyAddMember c player onJoin =>
    onJoin = true → player ∈ s.inviteList c → s.party player = none
  | .luaPartyRemoveMember c player onLeave onDisband => LeaveOk s c player onLeave onDisband
  | _ => True

/-- One operation. -/
theorem inv_apply {s : State P} (h : Inv s) (op : Op P) (hok : ok s op) : Inv (apply s op) := by
  cases op with
  | playerInviteToParty player invitedPlayer =>
    rw [apply, playerInviteToParty]
    split_ifs with hself hinviting hparty
    · exact h
    · exact h
    · exact h
    · rw [Bool.not_eq_true, Option.isSome_eq_false_iff, Option.isNone_iff_eq_none] at hparty
      rcases hplayer : s.party player with _ | c
      -- The party is created with the inviting player as its leader.
      · refine inv_invitePlayer (inv_create h hplayer) ?_
        simp [create, setLists, setParty]
      · dsimp only
        split_ifs
        · exact h
        · refine inv_invitePlayer h fun hm => ?_
          exact absurd (hparty.symm.trans (((h.agrees c).party_iff _).2 (.inr hm))) nofun
  | playerJoinParty player leader onJoin =>
    rw [apply, playerJoinParty]
    rcases s.party leader with _ | c
    · split_ifs <;> exact h
    · dsimp only
      split_ifs with _ _ hparty
      · exact h
      · exact h
      · exact h
      · rw [Bool.not_eq_true, Option.isSome_eq_false_iff, Option.isNone_iff_eq_none] at hparty
        exact inv_joinParty h fun _ _ => hparty
  | playerRevokePartyInvitation player invitedPlayer onDisband =>
    rw [apply, playerRevokePartyInvitation]
    rcases s.party player with _ | c
    · exact h
    · dsimp only
      split_ifs
      · exact h
      · exact h
      · exact inv_removeInvite h onDisband
  | playerPassPartyLeadership player newLeader =>
    rw [apply, playerPassPartyLeadership]
    rcases hplayer : s.party player with _ | c
    · exact h
    · dsimp only
      split_ifs
      · exact h
      · exact h
      · exact inv_passPartyLeadership h (hok c hplayer)
  | playerLeaveParty player mayLeave onLeave onDisband =>
    rw [apply, playerLeaveParty]
    rcases hplayer : s.party player with _ | c
    · exact h
    · dsimp only
      split_ifs with hmay
      · exact h
      · exact inv_leaveParty h (hok c hplayer (by simpa using hmay))
  | onRemoveCreature player onLeave onDisband onDisbandOf =>
    rw [apply, onRemoveCreature]
    -- The player leaves first, then the invitations are dropped.
    refine inv_clearPartyInvitations ?_ onDisbandOf
    rcases hplayer : s.party player with _ | c
    · exact h
    · exact inv_leaveParty h (hok c hplayer)
  | luaPartyCreate player =>
    rw [apply]
    split_ifs with hparty
    · exact h
    · rw [Bool.not_eq_true, Option.isSome_eq_false_iff, Option.isNone_iff_eq_none] at hparty
      exact inv_create h hparty
  | luaPartyDisband c onDisband => exact inv_disband h onDisband
  | luaPartySetLeader c player => exact inv_passPartyLeadership h hok
  | luaPartyAddInvite c player => exact inv_invitePlayer h hok
  | luaPartyRemoveInvite c player onDisband => exact inv_removeInvite h onDisband
  | luaPartyAddMember c player onJoin => exact inv_joinParty h hok
  | luaPartyRemoveMember c player onLeave onDisband => exact inv_leaveParty h hok

/-- Players and parties agree in every run of such operations. -/
theorem parties_agree_of_reachable {s : State P} (h : system.ReachableVia ok s) :
    Consistent s := by
  refine Inv.consistent (h.invariant (I := Inv) ?_ ?_)
  · rintro s rfl
    exact inv_initial
  · rintro s op s' hs hok rfl
    exact inv_apply hs op hok

/-- A player invites another, who joins: all is well. -/
theorem consistent_of_two_players :
    Consistent (apply (apply (initial : State ℕ) (.playerInviteToParty 0 1))
      (.playerJoinParty 1 0 true)) :=
  parties_agree_of_reachable (.step (a := .playerJoinParty 1 0 true)
    (.step (a := .playerInviteToParty 0 1) (.init rfl) trivial rfl) trivial rfl)

/-- The leader leaves the other player, and a script keeps the party: it has a leader who has
    no party. -/
theorem leader_without_party :
    system.Reachable (apply (apply (apply (initial : State ℕ) (.playerInviteToParty 0 1))
        (.playerJoinParty 1 0 true)) (.playerLeaveParty 0 true true false)) ∧
      ¬ Consistent (apply (apply (apply (initial : State ℕ) (.playerInviteToParty 0 1))
        (.playerJoinParty 1 0 true)) (.playerLeaveParty 0 true true false)) := by
  refine ⟨.step (.step (.step (.init rfl) trivial rfl) trivial rfl) trivial rfl, fun h => ?_⟩
  exact absurd ((h.party_iff 0 0).2 (.inl (by decide))) (by decide)

end Canary.Game.Party
