import Canary.Lib.Transition
import Mathlib.Data.List.AList
import Mathlib.Logic.Function.Basic

/-!
# Trade sessions

Two players trade by offering an item each. Every player has a trade state, a
partner and an item, and the game has a map `tradeItems` from the items offered to
their owners. A request offers an item (`internalStartTrade`): the partner, if not
trading yet, acknowledges it, and may then offer an item in turn. When both have
accepted, the items are exchanged; however that ends, the session ends with it.
Closing ends it at any time before (`internalCloseTrade`).

The calls depend on the world: where the players are, which items hold which, what
scripts say, whether the items can be moved. What they make of it is an argument of
the call, so that a run may go through any sequence of worlds. While the items are
being exchanged, other trades may be closed (moving an item tells the players who
see it), but not this one: its players are in the state `TRADE_TRANSFER`.

In every reachable state partners are linked both ways, and the map holds exactly the
items of the players, each with its owner (`consistent_of_reachable`).
-/

namespace Canary.Game

open Transition

/-- `TRADE_NONE`, `TRADE_INITIATED`, and so on. -/
inductive TradeState where
  | none
  | initiated
  | accept
  | acknowledge
  | transfer
  deriving DecidableEq, Repr

/-- What a player keeps of a trade. (`P` are the players, `I` the items.) -/
structure Trader (P I : Type) where
  tradeState : TradeState
  tradePartner : Option P
  tradeItem : Option I

/-- A player who is not trading. -/
def Trader.idle {P I : Type} : Trader P I := ⟨.none, none, none⟩

namespace Trade

variable {P I : Type} [DecidableEq P] [DecidableEq I]

structure State (P I : Type) where
  player : P → Trader P I
  tradeItems : AList fun _ : I => P

/-- What a request depends on, beside the state. -/
structure View (I : Type) where
  /-- The checks before the search for the item among those traded: the players are
      near each other, the item is there, may be picked up and traded, is in reach. -/
  possible : Bool
  isContainer : I → Bool
  /-- The first item is a container that holds the second one, at any depth. -/
  isHoldingItem : I → I → Bool
  /-- The checks after the search, and the scripts. -/
  allowed : Bool
  /-- The item is from the store, or has an owner. -/
  isStoreOrOwned : Bool

/-- The calls that touch trades. -/
inductive Op (P I : Type) where
  | playerRequestTrade (player tradePartner : P) (tradeItem : I) (v : View I)
  /-- A house is offered by means of an item made for it. -/
  | houseStartTrade (player tradePartner : P) (transferItem : I)
  /-- `closed` are the players whose trades are closed while items are moved. -/
  | playerAcceptTrade (player : P) (canThrow eventsAllow : Bool) (closed : List P)
  | playerCloseTrade (player : P)

def setPlayer (s : State P I) (p : P) (t : Trader P I) : State P I :=
  { s with player := Function.update s.player p t }

def setTradeState (s : State P I) (p : P) (state : TradeState) : State P I :=
  setPlayer s p { s.player p with tradeState := state }

/-- Erase an item from the map, if there is one. -/
def unlock (s : State P I) (item : Option I) : State P I :=
  match item with
  | some i => { s with tradeItems := s.tradeItems.erase i }
  | none => s

def internalStartTrade (s : State P I) (player tradePartner : P) (tradeItem : I)
    (isStoreOrOwned : Bool) : State P I :=
  let t := s.player player
  let u := s.player tradePartner
  if t.tradeState ≠ .none ∧ ¬(t.tradeState = .acknowledge ∧ t.tradePartner = some tradePartner) then
    s
  else if u.tradeState ≠ .none ∧ u.tradePartner ≠ some player then s
  else if isStoreOrOwned then s
  else
    let s := setPlayer s player ⟨.initiated, some tradePartner, some tradeItem⟩
    let s := { s with tradeItems := s.tradeItems.insert tradeItem player }
    if (s.player tradePartner).tradeState = .none then
      setPlayer s tradePartner
        { s.player tradePartner with tradeState := .acknowledge, tradePartner := some player }
    else s

/-- The item, or one that it holds or that holds it, is being traded. -/
def alreadyTraded (s : State P I) (tradeItem : I) (v : View I) : Bool :=
  s.tradeItems.keys.any fun item =>
    decide (tradeItem = item) || (v.isContainer tradeItem && v.isHoldingItem tradeItem item) ||
      (v.isContainer item && v.isHoldingItem item tradeItem)

def playerRequestTrade (s : State P I) (player tradePartner : P) (tradeItem : I) (v : View I) :
    State P I :=
  if tradePartner = player then s
  else if !v.possible then s
  else if alreadyTraded s tradeItem v then s
  else if !v.allowed then s
  else internalStartTrade s player tradePartner tradeItem v.isStoreOrOwned

def internalCloseTrade (s : State P I) (player : P) : State P I :=
  let t := s.player player
  if (∃ q ∈ t.tradePartner, (s.player q).tradeState = .transfer) ∨ t.tradeState = .transfer then s
  else
    let s := setPlayer (unlock s t.tradeItem) player .idle
    match t.tradePartner with
    | some q => setPlayer (unlock s (s.player q).tradeItem) q .idle
    | none => s

/-- The exchange. Whether the items could be exchanged or not, the trade ends: what is
    left of the outcome here is which other trades were closed on the way. -/
def transfer (s : State P I) (player tradePartner : P) (closed : List P) : State P I :=
  let item₁ := (s.player player).tradeItem
  let item₂ := (s.player tradePartner).tradeItem
  let s := setTradeState s player .transfer
  let s := setTradeState s tradePartner .transfer
  let s := unlock (unlock s item₁) item₂
  let s := closed.foldl internalCloseTrade s
  setPlayer (setPlayer s player .idle) tradePartner .idle

def playerAcceptTrade (s : State P I) (player : P) (canThrow eventsAllow : Bool)
    (closed : List P) : State P I :=
  let t := s.player player
  if ¬(t.tradeState = .acknowledge ∨ t.tradeState = .initiated) then s
  else
    match t.tradePartner with
    | none => s
    | some tradePartner =>
      if !canThrow then s
      else
        let s := setTradeState s player .accept
        if (s.player tradePartner).tradeState = .accept then
          if !eventsAllow then internalCloseTrade s player
          else transfer s player tradePartner closed
        else s

def apply (s : State P I) : Op P I → State P I
  | .playerRequestTrade p q item v => playerRequestTrade s p q item v
  | .houseStartTrade p q item => internalStartTrade s p q item false
  | .playerAcceptTrade p canThrow eventsAllow closed =>
    playerAcceptTrade s p canThrow eventsAllow closed
  | .playerCloseTrade p => internalCloseTrade s p

/-- Any calls in any order. The item of a house is new, and the partner owns no house, so
    is not the player. -/
def system : System (State P I) (Op P I) where
  init s := s = ⟨fun _ => .idle, ∅⟩
  step s op s' :=
    (∀ p q item, op = .houseStartTrade p q item → p ≠ q ∧ item ∉ s.tradeItems) ∧ s' = apply s op

/-- What holds between calls. -/
structure Consistent (s : State P I) : Prop where
  /-- Partners are linked both ways. -/
  partner_iff : ∀ p q, (s.player p).tradePartner = some q ↔ (s.player q).tradePartner = some p
  partner_ne : ∀ p, (s.player p).tradePartner ≠ some p
  /-- Exactly the players not trading have no partner; they have no item either. -/
  none_iff : ∀ p, (s.player p).tradeState = .none ↔ (s.player p).tradePartner = none
  item_of_none : ∀ p, (s.player p).tradeState = .none → (s.player p).tradeItem = none
  /-- A player who acknowledges has offered nothing, the partner has. -/
  acknowledge : ∀ p q, (s.player p).tradeState = .acknowledge →
    (s.player p).tradePartner = some q → (s.player p).tradeItem = none ∧
      ((s.player q).tradeState = .initiated ∨ (s.player q).tradeState = .accept) ∧
      (s.player q).tradeItem.isSome
  item_of_initiated : ∀ p, (s.player p).tradeState = .initiated → (s.player p).tradeItem.isSome
  /-- No exchange is under way. -/
  ne_transfer : ∀ p, (s.player p).tradeState ≠ .transfer
  /-- The map holds the items of the players, each with its owner. -/
  locked_iff : ∀ item p,
    s.tradeItems.lookup item = some p ↔ (s.player p).tradeItem = some item

/-! ## The invariant, also during an exchange -/

/-- The trade of a player `p` with a player `q`, as `p` sees it. -/
structure Engaged (q : P) (t u : Trader P I) : Prop where
  partner_eq : t.tradePartner = some q
  state_ne : t.tradeState ≠ .none
  acknowledge : t.tradeState = .acknowledge → t.tradeItem = none ∧
    (u.tradeState = .initiated ∨ u.tradeState = .accept) ∧ u.tradeItem.isSome
  item_of_initiated : t.tradeState = .initiated → t.tradeItem.isSome
  transfer : t.tradeState = .transfer → u.tradeState = .transfer

/-- Partners are engaged with each other, everybody else is idle, and the map holds
    the items that are not being exchanged. -/
structure Inv (s : State P I) : Prop where
  engaged : ∀ p q, (s.player p).tradePartner = some q →
    p ≠ q ∧ Engaged q (s.player p) (s.player q) ∧ Engaged p (s.player q) (s.player p)
  idle : ∀ p, (s.player p).tradePartner = none → s.player p = .idle
  locked_iff : ∀ item p, s.tradeItems.lookup item = some p ↔
    (s.player p).tradeItem = some item ∧ (s.player p).tradeState ≠ .transfer

variable {s s' : State P I} {p q : P}

omit [DecidableEq P] in
theorem Inv.consistent (h : Inv s) (hne : ∀ p, (s.player p).tradeState ≠ .transfer) :
    Consistent s where
  partner_iff p q :=
    ⟨fun hp => (h.engaged p q hp).2.2.partner_eq, fun hq => (h.engaged q p hq).2.2.partner_eq⟩
  partner_ne p hp := (h.engaged p p hp).1 rfl
  none_iff p := by
    cases hp : (s.player p).tradePartner with
    | none => simp [h.idle p hp, Trader.idle]
    | some q => simpa using (h.engaged p q hp).2.1.state_ne
  item_of_none p hp := by
    cases hq : (s.player p).tradePartner with
    | none => rw [h.idle p hq]; rfl
    | some q => exact absurd hp (h.engaged p q hq).2.1.state_ne
  acknowledge p q hp hq := (h.engaged p q hq).2.1.acknowledge hp
  item_of_initiated p hp := by
    cases hq : (s.player p).tradePartner with
    | none => rw [h.idle p hq] at hp; exact absurd hp nofun
    | some q => exact (h.engaged p q hq).2.1.item_of_initiated hp
  ne_transfer := hne
  locked_iff item p := (h.locked_iff item p).trans (and_iff_left (hne p))

omit [DecidableEq P] in
/-- Nobody but the two partners is linked to either of them. -/
theorem Inv.not_linked (h : Inv s) (hpq : (s.player p).tradePartner = some q) (r : P)
    (hp : r ≠ p) (hq : r ≠ q) :
    (s.player r).tradePartner ≠ some p ∧ (s.player r).tradePartner ≠ some q := by
  constructor
  · intro hr
    have hback := (h.engaged r p hr).2.2.partner_eq
    exact hq (Option.some.inj (hback.symm.trans hpq))
  · intro hr
    have hback := (h.engaged r q hr).2.2.partner_eq
    have hq' := (h.engaged p q hpq).2.2.partner_eq
    exact hp (Option.some.inj (hback.symm.trans hq'))

/-- Changing two players to whom nobody else is linked keeps the invariant, if they are
    engaged with each other afterwards, or both idle, and the map changes with them. -/
theorem Inv.replace (h : Inv s) (hne : p ≠ q)
    (hlinked : ∀ r, r ≠ p → r ≠ q →
      (s.player r).tradePartner ≠ some p ∧ (s.player r).tradePartner ≠ some q)
    (hother : ∀ r, r ≠ p → r ≠ q → s'.player r = s.player r)
    (hpair : s'.player p = .idle ∧ s'.player q = .idle ∨
      Engaged q (s'.player p) (s'.player q) ∧ Engaged p (s'.player q) (s'.player p))
    (hlock : ∀ item r, s'.tradeItems.lookup item = some r ↔
      if r = p ∨ r = q then
        (s'.player r).tradeItem = some item ∧ (s'.player r).tradeState ≠ .transfer
      else s.tradeItems.lookup item = some r) : Inv s' where
  engaged r x hrx := by
    by_cases hp : r = p
    · subst hp
      rcases hpair with ⟨hidle, -⟩ | ⟨hpq, hqp⟩
      · rw [hidle] at hrx
        exact absurd hrx nofun
      · obtain rfl := Option.some.inj (hpq.partner_eq.symm.trans hrx)
        exact ⟨hne, hpq, hqp⟩
    · by_cases hq : r = q
      · subst hq
        rcases hpair with ⟨-, hidle⟩ | ⟨hpq, hqp⟩
        · rw [hidle] at hrx
          exact absurd hrx nofun
        · obtain rfl := Option.some.inj (hqp.partner_eq.symm.trans hrx)
          exact ⟨hne.symm, hqp, hpq⟩
      · -- The partner of another player is another player, too.
        obtain ⟨hxp, hxq⟩ := hlinked r hp hq
        rw [hother r hp hq] at hrx ⊢
        have hx : s'.player x = s.player x :=
          hother x (fun hx => hxp (hx ▸ hrx)) fun hx => hxq (hx ▸ hrx)
        rw [hx]
        exact h.engaged r x hrx
  idle r hr := by
    by_cases hrpq : r = p ∨ r = q
    · -- Who is engaged has a partner, so that the two are idle.
      rcases hpair with ⟨hp, hq⟩ | ⟨hpq, hqp⟩
      · rcases hrpq with rfl | rfl
        exacts [hp, hq]
      · rcases hrpq with rfl | rfl
        · exact absurd (hr.symm.trans hpq.partner_eq) nofun
        · exact absurd (hr.symm.trans hqp.partner_eq) nofun
    · rw [not_or] at hrpq
      rw [hother r hrpq.1 hrpq.2] at hr ⊢
      exact h.idle r hr
  locked_iff item r := by
    rw [hlock]
    split_ifs with hr
    · rfl
    · rw [not_or] at hr
      rw [hother r hr.1 hr.2]
      exact h.locked_iff item r

/-! ## Updates -/

omit [DecidableEq I] in
@[simp] theorem player_setPlayer (s : State P I) (p : P) (t : Trader P I) (r : P) :
    (setPlayer s p t).player r = if r = p then t else s.player r :=
  Function.update_apply s.player p t r

omit [DecidableEq I] in
@[simp] theorem tradeItems_setPlayer (s : State P I) (p : P) (t : Trader P I) :
    (setPlayer s p t).tradeItems = s.tradeItems := rfl

omit [DecidableEq P] in
@[simp] theorem player_unlock (s : State P I) (item : Option I) :
    (unlock s item).player = s.player := by
  cases item <;> rfl

omit [DecidableEq P] in
theorem lookup_unlock (s : State P I) (o : Option I) (item : I) :
    (unlock s o).tradeItems.lookup item =
      if o = some item then none else s.tradeItems.lookup item := by
  cases o with
  | none => rfl
  | some i =>
    by_cases hi : i = item
    · subst hi
      simp [unlock]
    · rw [if_neg (by simpa using hi)]
      exact AList.lookup_erase_ne (Ne.symm hi)

/-! ## Starting a trade -/

omit [DecidableEq P] in
/-- A player in the state `TRADE_NONE` is idle. -/
theorem Inv.eq_idle (h : Inv s) (hp : (s.player p).tradeState = .none) : s.player p = .idle := by
  cases hq : (s.player p).tradePartner with
  | none => exact h.idle p hq
  | some q => exact absurd hp (h.engaged p q hq).2.1.state_ne

/-- Offering an item puts it into the map, and changes nothing else there. -/
theorem Inv.lookup_insert_iff (h : Inv s) (hne : p ≠ q) {item : I} (hitem : item ∉ s.tradeItems)
    (hnone : (s.player p).tradeItem = none) (hmap : s'.tradeItems = s.tradeItems.insert item p)
    (hp : (s'.player p).tradeItem = some item) (hps : (s'.player p).tradeState ≠ .transfer)
    (hq : (s'.player q).tradeItem = (s.player q).tradeItem)
    (hqs : (s'.player q).tradeState = .transfer ↔ (s.player q).tradeState = .transfer)
    (i : I) (r : P) : s'.tradeItems.lookup i = some r ↔
      if r = p ∨ r = q then (s'.player r).tradeItem = some i ∧ (s'.player r).tradeState ≠ .transfer
      else s.tradeItems.lookup i = some r := by
  have hold : s.tradeItems.lookup item = none := AList.lookup_eq_none.2 hitem
  rw [hmap]
  by_cases hi : i = item
  · subst hi
    rw [AList.lookup_insert, Option.some.injEq, hold]
    split_ifs with hr
    · rcases hr with rfl | rfl
      · simp [hp, hps]
      · refine iff_of_false hne fun hand => ?_
        have := (h.locked_iff i r).2 ⟨hq ▸ hand.1, fun ht => hand.2 (hqs.2 ht)⟩
        exact absurd (hold.symm.trans this) nofun
    · exact iff_of_false (fun he => hr (.inl he.symm)) nofun
  · rw [AList.lookup_insert_ne hi]
    split_ifs with hr
    · rcases hr with rfl | rfl
      · rw [h.locked_iff, hp, hnone]
        simp [Ne.symm hi]
      · rw [h.locked_iff, hq, Ne, Ne, hqs]
    · rfl

/-- An offer of an item that is not in the map keeps the invariant. -/
theorem inv_internalStartTrade (h : Inv s) (hne : p ≠ q) {item : I} (hitem : item ∉ s.tradeItems)
    (isStoreOrOwned : Bool) : Inv (internalStartTrade s p q item isStoreOrOwned) := by
  rw [internalStartTrade]
  split_ifs with hp hq hstore
  · exact h
  · exact h
  · exact h
  rw [not_and, not_not] at hp
  rw [not_and] at hq
  simp only [player_setPlayer, if_neg hne.symm]
  split_ifs with huq
  · -- The partner is idle, and so is the player; the partner acknowledges.
    have hu := h.eq_idle huq
    have ht : s.player p = .idle := by
      by_cases htp : (s.player p).tradeState = .none
      · exact h.eq_idle htp
      · have hback := (h.engaged p q (hp htp).2).2.2.partner_eq
        rw [hu] at hback
        exact absurd hback nofun
    refine h.replace hne (fun r _ _ => ⟨fun hr => ?_, fun hr => ?_⟩) ?_ (.inr ?_)
      (h.lookup_insert_iff hne hitem (by rw [ht]; rfl) rfl ?_ ?_ ?_ ?_)
    · have hback := (h.engaged r p hr).2.2.partner_eq
      rw [ht] at hback
      exact absurd hback nofun
    · have hback := (h.engaged r q hr).2.2.partner_eq
      rw [hu] at hback
      exact absurd hback nofun
    · intro r hrp hrq
      simp [hrp, hrq]
    · simp only [player_setPlayer, if_neg hne, if_true, hu]
      exact ⟨⟨rfl, nofun, nofun, fun _ => rfl, nofun⟩,
        ⟨rfl, nofun, fun _ => ⟨rfl, .inl rfl, rfl⟩, nofun, nofun⟩⟩
    all_goals simp [hne, hu, Trader.idle]
  · -- The partner has offered an item to the player, who has acknowledged it.
    have hback := not_not.1 (hq huq)
    obtain ⟨-, heq, hep⟩ := h.engaged q p hback
    have hack : (s.player p).tradeState = .acknowledge := (hp hep.state_ne).1
    obtain ⟨hnone, hstate, hsome⟩ := hep.acknowledge hack
    refine h.replace hne (h.not_linked hep.partner_eq) ?_ (.inr ?_)
      (h.lookup_insert_iff hne hitem hnone rfl ?_ ?_ ?_ ?_)
    · intro r hrp hrq
      simp [hrp]
    · simp only [player_setPlayer, if_neg hne.symm, if_true]
      refine ⟨⟨rfl, nofun, nofun, fun _ => rfl, nofun⟩,
        ⟨hback, huq, fun ha => ?_, heq.item_of_initiated, fun ht => ?_⟩⟩ <;>
        rcases hstate with hs | hs <;> simp [hs] at *
    all_goals simp [hne.symm]

/-! ## Ending a trade -/

/-- Partners who become idle, their items leaving the map, keep the invariant. -/
theorem Inv.release (h : Inv s) (hpq : (s.player p).tradePartner = some q)
    (hplayer : ∀ r, s'.player r = if r = p ∨ r = q then .idle else s.player r)
    (hlock : ∀ item r, s'.tradeItems.lookup item = some r ↔
      s.tradeItems.lookup item = some r ∧ ¬(r = p ∨ r = q)) : Inv s' := by
  refine h.replace (h.engaged p q hpq).1 (h.not_linked hpq) (fun r hp hq => ?_) (.inl ?_) ?_
  · rw [hplayer, if_neg (not_or.2 ⟨hp, hq⟩)]
  · exact ⟨by rw [hplayer, if_pos (.inl rfl)], by rw [hplayer, if_pos (.inr rfl)]⟩
  · intro item r
    rw [hlock, hplayer]
    split_ifs with hr <;> simp [hr, Trader.idle]

omit [DecidableEq P] in
/-- Without the items of two players, the map holds what it held for the others. -/
theorem Inv.lookup_unlock_iff (h : Inv s) (hp : (s.player p).tradeState ≠ .transfer)
    (hq : (s.player q).tradeState ≠ .transfer) (item : I) (r : P) :
    (unlock (unlock s (s.player p).tradeItem) (s.player q).tradeItem).tradeItems.lookup item =
        some r ↔ s.tradeItems.lookup item = some r ∧ ¬(r = p ∨ r = q) := by
  rw [lookup_unlock, lookup_unlock]
  split_ifs with hiq hip
  · have hown := (h.locked_iff item q).2 ⟨hiq, hq⟩
    refine iff_of_false nofun fun hand => hand.2 (.inr ?_)
    exact Option.some.inj (hand.1.symm.trans hown)
  · have hown := (h.locked_iff item p).2 ⟨hip, hp⟩
    refine iff_of_false nofun fun hand => hand.2 (.inl ?_)
    exact Option.some.inj (hand.1.symm.trans hown)
  · refine (and_iff_left_of_imp fun hr => ?_).symm
    rintro (rfl | rfl)
    · exact hip ((h.locked_iff item r).1 hr).1
    · exact hiq ((h.locked_iff item r).1 hr).1

/-- Closing a trade leaves players alone whose items are being exchanged. -/
theorem player_internalCloseTrade (hp : (s.player p).tradeState = .transfer) (r : P) :
    (internalCloseTrade s r).player p = s.player p := by
  rw [internalCloseTrade]
  split_ifs with ht
  · rfl
  rw [not_or, not_exists] at ht
  have hr : p ≠ r := by
    rintro rfl
    exact ht.2 hp
  cases hq : (s.player r).tradePartner with
  | none => simp [hr]
  | some q =>
    have hpq : p ≠ q := by
      rintro rfl
      exact ht.1 p ⟨hq, hp⟩
    simp [hr, hpq]

theorem inv_internalCloseTrade (h : Inv s) (p : P) : Inv (internalCloseTrade s p) := by
  rw [internalCloseTrade]
  split_ifs with ht
  · exact h
  rw [not_or, not_exists] at ht
  cases hq : (s.player p).tradePartner with
  | none =>
    -- Nothing changes: the player is idle already.
    have hidle := h.idle p hq
    have hs : setPlayer (unlock s (s.player p).tradeItem) p .idle = s := by
      rw [hidle, setPlayer]
      exact congrArg (fun f => (⟨f, s.tradeItems⟩ : State P I))
        (Function.update_eq_self_iff.2 hidle.symm)
    simpa only [hs] using h
  | some q =>
    have hne := (h.engaged p q hq).1
    have hqt : (s.player q).tradeState ≠ .transfer := fun hqt => ht.1 q ⟨hq, hqt⟩
    simp only [player_setPlayer, player_unlock, if_neg hne.symm]
    refine h.release hq (fun r => ?_) fun item r => ?_
    · by_cases hrq : r = q <;> by_cases hrp : r = p <;> simp [hrp, hrq]
    · rw [← h.lookup_unlock_iff ht.2 hqt]
      cases (s.player q).tradeItem <;> rfl

theorem inv_foldl_internalCloseTrade (h : Inv s) (closed : List P) :
    Inv (closed.foldl internalCloseTrade s) := by
  induction closed generalizing s with
  | nil => exact h
  | cons r closed ih => exact ih (inv_internalCloseTrade h r)

theorem player_foldl_internalCloseTrade (hp : (s.player p).tradeState = .transfer)
    (closed : List P) : (closed.foldl internalCloseTrade s).player p = s.player p := by
  induction closed generalizing s with
  | nil => rfl
  | cons r closed ih =>
    have hr := player_internalCloseTrade hp r
    exact (ih (by rwa [hr])).trans hr

/-! ## The exchange -/

theorem inv_transfer (h : Inv s) (hpq : (s.player p).tradePartner = some q)
    (hp : (s.player p).tradeState ≠ .transfer) (hq : (s.player q).tradeState ≠ .transfer)
    (closed : List P) : Inv (transfer s p q closed) := by
  obtain ⟨hne, hep, heq⟩ := h.engaged p q hpq
  rw [transfer]
  -- The state in which the items are exchanged: both players are in `TRADE_TRANSFER`.
  generalize hs₁ : unlock (unlock (setTradeState (setTradeState s p .transfer) q .transfer)
    (s.player p).tradeItem) (s.player q).tradeItem = s₁
  have hplayer : ∀ r, s₁.player r =
      if r = p ∨ r = q then { s.player r with tradeState := .transfer } else s.player r := by
    intro r
    by_cases hrq : r = q <;> by_cases hrp : r = p <;>
      simp [← hs₁, setTradeState, hrp, hrq, hne, hne.symm]
  have hlock : ∀ item r, s₁.tradeItems.lookup item = some r ↔
      s.tradeItems.lookup item = some r ∧ ¬(r = p ∨ r = q) := by
    intro item r
    rw [← h.lookup_unlock_iff hp hq, ← hs₁]
    simp only [lookup_unlock, setTradeState, tradeItems_setPlayer]
  have hp₁ : s₁.player p = { s.player p with tradeState := .transfer } := by simp [hplayer]
  have hq₁ : s₁.player q = { s.player q with tradeState := .transfer } := by simp [hplayer]
  have h₁ : Inv s₁ := by
    refine h.replace hne (h.not_linked hpq) (fun r hrp hrq => ?_) (.inr ?_) fun item r => ?_
    · rw [hplayer, if_neg (not_or.2 ⟨hrp, hrq⟩)]
    · rw [hp₁, hq₁]
      exact ⟨⟨hep.partner_eq, nofun, nofun, nofun, fun _ => rfl⟩,
        ⟨heq.partner_eq, nofun, nofun, nofun, fun _ => rfl⟩⟩
    · rw [hlock, hplayer]
      split_ifs with hr <;> simp [hr]
  have hp₂ := player_foldl_internalCloseTrade (s := s₁) (p := p) (by rw [hp₁]) closed
  have hq₂ := player_foldl_internalCloseTrade (s := s₁) (p := q) (by rw [hq₁]) closed
  have h₂ := inv_foldl_internalCloseTrade h₁ closed
  refine h₂.release (p := p) (q := q) ?_ (fun r => ?_) fun item r => ?_
  · rw [hp₂, hp₁]
    exact hpq
  · by_cases hrq : r = q <;> by_cases hrp : r = p <;> simp [hrp, hrq]
  · refine (and_iff_left_of_imp fun hr => ?_).symm
    have hstate := ((h₂.locked_iff item r).1 hr).2
    rintro (rfl | rfl)
    · exact hstate (by rw [hp₂, hp₁])
    · exact hstate (by rw [hq₂, hq₁])

/-! ## Accepting -/

omit [DecidableEq I] in
theorem player_setTradeState (s : State P I) (p : P) (state : TradeState) (r : P) :
    (setTradeState s p state).player r =
      if r = p then { s.player p with tradeState := state } else s.player r :=
  player_setPlayer s p _ r

/-- A player who has acknowledged an offer, or made one, may accept. -/
theorem inv_accept (h : Inv s) (hpq : (s.player p).tradePartner = some q)
    (hp : (s.player p).tradeState = .acknowledge ∨ (s.player p).tradeState = .initiated) :
    Inv (setTradeState s p .accept) := by
  obtain ⟨hne, hep, heq⟩ := h.engaged p q hpq
  have hpt : (s.player p).tradeState ≠ .transfer := by rcases hp with hp | hp <;> simp [hp]
  refine h.replace hne (h.not_linked hpq) (fun r hr _ => ?_) (.inr ?_) fun item r => ?_
  · rw [player_setTradeState, if_neg hr]
  · rw [player_setTradeState, player_setTradeState, if_pos rfl, if_neg hne.symm]
    refine ⟨⟨hpq, nofun, nofun, nofun, nofun⟩,
      ⟨heq.partner_eq, heq.state_ne, fun ha => ?_, heq.item_of_initiated,
        fun ht => absurd (heq.transfer ht) hpt⟩⟩
    obtain ⟨hnone, -, hsome⟩ := heq.acknowledge ha
    exact ⟨hnone, .inr rfl, hsome⟩
  · rw [player_setTradeState]
    split_ifs with hr hrp
    · subst hrp
      exact (h.locked_iff item r).trans (and_congr_right fun _ => iff_of_true hpt nofun)
    · exact h.locked_iff item r
    · rfl

/-- What accepting does: nothing; or the player has accepted; or both have, and the trade
    is closed or the items are exchanged. -/
theorem playerAcceptTrade_cases (s : State P I) (p : P) (canThrow eventsAllow : Bool)
    (closed : List P) :
    playerAcceptTrade s p canThrow eventsAllow closed = s ∨
      ∃ q, (s.player p).tradePartner = some q ∧
        ((s.player p).tradeState = .acknowledge ∨ (s.player p).tradeState = .initiated) ∧
        (playerAcceptTrade s p canThrow eventsAllow closed = setTradeState s p .accept ∨
          playerAcceptTrade s p canThrow eventsAllow closed =
            internalCloseTrade (setTradeState s p .accept) p ∨
          ((setTradeState s p .accept).player q).tradeState = .accept ∧
            playerAcceptTrade s p canThrow eventsAllow closed =
              transfer (setTradeState s p .accept) p q closed) := by
  rw [playerAcceptTrade]
  by_cases hp : (s.player p).tradeState = .acknowledge ∨ (s.player p).tradeState = .initiated
  · rw [if_neg (not_not.2 hp)]
    cases hpq : (s.player p).tradePartner with
    | none => exact .inl rfl
    | some q =>
      simp only []
      split_ifs with hthrow hacc hev
      · exact .inl rfl
      · exact .inr ⟨q, rfl, hp, .inr (.inl rfl)⟩
      · exact .inr ⟨q, rfl, hp, .inr (.inr ⟨hacc, rfl⟩)⟩
      · exact .inr ⟨q, rfl, hp, .inl rfl⟩
  · exact .inl (if_pos hp)

theorem inv_playerAcceptTrade (h : Inv s) (p : P) (canThrow eventsAllow : Bool)
    (closed : List P) : Inv (playerAcceptTrade s p canThrow eventsAllow closed) := by
  rcases playerAcceptTrade_cases s p canThrow eventsAllow closed with
    hs | ⟨q, hpq, hp, hs | hs | ⟨hacc, hs⟩⟩ <;> rw [hs]
  · exact h
  · exact inv_accept h hpq hp
  · exact inv_internalCloseTrade (inv_accept h hpq hp) p
  · refine inv_transfer (inv_accept h hpq hp) ?_ ?_ ?_ closed
    · rw [player_setTradeState, if_pos rfl]
      exact hpq
    · rw [player_setTradeState, if_pos rfl]
      exact nofun
    · rw [hacc]
      exact nofun

/-! ## Runs -/

/-- No exchange is under way. -/
def AtRest (s : State P I) : Prop := ∀ p, (s.player p).tradeState ≠ .transfer

/-- Closing a trade only makes players idle. -/
theorem player_internalCloseTrade_cases (s : State P I) (p r : P) :
    (internalCloseTrade s p).player r = s.player r ∨ (internalCloseTrade s p).player r = .idle := by
  rw [internalCloseTrade]
  split_ifs
  · exact .inl rfl
  · cases (s.player p).tradePartner with
    | none => by_cases hrp : r = p <;> simp [hrp]
    | some q => by_cases hrp : r = p <;> by_cases hrq : r = q <;> simp [hrp, hrq]

theorem ne_transfer_internalCloseTrade {r : P} (hr : (s.player r).tradeState ≠ .transfer) (p : P) :
    ((internalCloseTrade s p).player r).tradeState ≠ .transfer := by
  rcases player_internalCloseTrade_cases s p r with h | h <;> rw [h]
  · exact hr
  · exact nofun

theorem ne_transfer_foldl {r : P} (hr : (s.player r).tradeState ≠ .transfer) (closed : List P) :
    ((closed.foldl internalCloseTrade s).player r).tradeState ≠ .transfer := by
  induction closed generalizing s with
  | nil => exact hr
  | cons p closed ih => exact ih (ne_transfer_internalCloseTrade hr p)

omit [DecidableEq I] in
theorem AtRest.setPlayer (h : AtRest s) (p : P) {t : Trader P I} (ht : t.tradeState ≠ .transfer) :
    AtRest (setPlayer s p t) := by
  intro r
  rw [player_setPlayer]
  split_ifs
  · exact ht
  · exact h r

theorem AtRest.internalStartTrade (h : AtRest s) (p q : P) (item : I) (isStoreOrOwned : Bool) :
    AtRest (internalStartTrade s p q item isStoreOrOwned) := by
  have h' := h.setPlayer p (t := ⟨.initiated, some q, some item⟩) nofun
  rw [Trade.internalStartTrade]
  split_ifs
  · exact h
  · exact h
  · exact h
  simp only []
  split_ifs
  · exact AtRest.setPlayer (s := ⟨_, s.tradeItems.insert item p⟩) h' q nofun
  · exact h'

/-- The two players of an exchange are idle when it ends. -/
theorem AtRest.transfer (h : AtRest s) (p q : P) (closed : List P) :
    AtRest (transfer s p q closed) := by
  intro r
  rw [Trade.transfer]
  by_cases hrq : r = q
  · simp [hrq, Trader.idle]
  · by_cases hrp : r = p
    · simp [hrp, Trader.idle]
    · simp only [player_setPlayer, if_neg hrq, if_neg hrp]
      refine ne_transfer_foldl ?_ closed
      simpa [player_setTradeState, hrp, hrq] using h r

theorem AtRest.playerAcceptTrade (h : AtRest s) (p : P) (canThrow eventsAllow : Bool)
    (closed : List P) : AtRest (playerAcceptTrade s p canThrow eventsAllow closed) := by
  have h' : AtRest (setTradeState s p .accept) := h.setPlayer p nofun
  rcases playerAcceptTrade_cases s p canThrow eventsAllow closed with
    hs | ⟨q, -, -, hs | hs | ⟨-, hs⟩⟩ <;> rw [hs]
  · exact h
  · exact h'
  · exact fun r => ne_transfer_internalCloseTrade (h' r) p
  · exact h'.transfer p q closed

omit [DecidableEq P] in
/-- A request passes on an item that is not being traded. -/
theorem not_mem_of_not_alreadyTraded {item : I} {v : View I}
    (h : ¬alreadyTraded s item v) : item ∉ s.tradeItems := by
  intro hmem
  refine h (List.any_eq_true.2 ⟨item, AList.mem_keys.1 hmem, ?_⟩)
  simp

/-- Every call keeps the invariant, and leaves no exchange under way. -/
theorem Inv.step (h : Inv s) (hr : AtRest s) {op : Op P I}
    (hop : ∀ p q item, op = .houseStartTrade p q item → p ≠ q ∧ item ∉ s.tradeItems) :
    Inv (apply s op) ∧ AtRest (apply s op) := by
  cases op with
  | playerRequestTrade p q item v =>
    simp only [apply, playerRequestTrade]
    split_ifs with hne _ htraded
    · exact ⟨h, hr⟩
    · exact ⟨h, hr⟩
    · exact ⟨h, hr⟩
    · exact ⟨h, hr⟩
    · exact ⟨inv_internalStartTrade h (Ne.symm hne) (not_mem_of_not_alreadyTraded htraded) _,
        hr.internalStartTrade p q item _⟩
  | houseStartTrade p q item =>
    obtain ⟨hne, hitem⟩ := hop p q item rfl
    exact ⟨inv_internalStartTrade h hne hitem false, hr.internalStartTrade p q item false⟩
  | playerAcceptTrade p canThrow eventsAllow closed =>
    exact ⟨inv_playerAcceptTrade h p canThrow eventsAllow closed,
      hr.playerAcceptTrade p canThrow eventsAllow closed⟩
  | playerCloseTrade p =>
    exact ⟨inv_internalCloseTrade h p, fun r => ne_transfer_internalCloseTrade (hr r) p⟩

theorem inv_of_reachable (hs : (system (P := P) (I := I)).Reachable s) : Inv s ∧ AtRest s := by
  refine hs.invariant (I := fun s => Inv s ∧ AtRest s) ?_ ?_
  · rintro s rfl
    refine ⟨⟨fun p q hp => absurd hp nofun, fun p _ => rfl, fun item p => ?_⟩, fun p => nofun⟩
    simp [Trader.idle]
  · rintro s op s' ⟨h, hr⟩ - ⟨hop, rfl⟩
    exact h.step hr hop

/-- In every state reached by requests, offers of houses, acceptances and closings, in
    any order and any worlds, the trades are consistent: partners are linked both ways,
    who is not trading has neither partner nor item, and the map holds exactly the
    items offered, each with its owner. -/
theorem consistent_of_reachable (s : State P I) (hs : system.Reachable s) : Consistent s :=
  (inv_of_reachable hs).1.consistent (inv_of_reachable hs).2

/-- A request for which nothing stands in the way, of an item that is no container. -/
def plain : View ℕ := ⟨true, fun _ => false, fun _ _ => false, true, false⟩

/-- Two players offer each other an item, and two others are trading a house. -/
def offered : State ℕ ℕ :=
  [.playerRequestTrade 1 2 7 plain, .houseStartTrade 3 4 8, .playerRequestTrade 2 1 9 plain].foldl
    apply ⟨fun _ => .idle, ∅⟩

/-- Both accept. -/
def exchanged : State ℕ ℕ :=
  [.playerAcceptTrade 1 true true [], .playerAcceptTrade 2 true true []].foldl apply offered

/-- The items are exchanged, and the house is still offered. -/
theorem consistent_exchanged :
    Consistent exchanged ∧ (offered.player 1).tradeState = .initiated ∧
      (exchanged.player 1).tradeState = .none ∧ exchanged.tradeItems.lookup 7 = none ∧
      exchanged.tradeItems.lookup 8 = some 3 := by
  have hcall {s : State ℕ ℕ} (h : system.Reachable s) (op : Op ℕ ℕ)
      (hop : ∀ p q item, op ≠ .houseStartTrade p q item) : system.Reachable (apply s op) :=
    .step h trivial ⟨fun p q item hitem => absurd hitem (hop p q item), rfl⟩
  have hfirst : system.Reachable (apply ⟨fun _ => .idle, ∅⟩ (.playerRequestTrade 1 2 7 plain)) :=
    hcall (.init rfl) _ nofun
  have hoffered : system.Reachable offered := by
    refine hcall (.step hfirst trivial (a := .houseStartTrade 3 4 8) ⟨?_, rfl⟩)
      (.playerRequestTrade 2 1 9 plain) nofun
    rintro p q item ⟨⟩
    exact ⟨by decide, by decide⟩
  have hexchanged : system.Reachable exchanged :=
    hcall (hcall hoffered (.playerAcceptTrade 1 true true []) nofun)
      (.playerAcceptTrade 2 true true []) nofun
  exact ⟨consistent_of_reachable exchanged hexchanged, by decide, by decide, by decide, by decide⟩

end Trade

end Canary.Game
