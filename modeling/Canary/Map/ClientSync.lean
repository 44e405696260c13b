import Canary.Map.ClientView
import Canary.Lib.Transition
import Mathlib.Logic.Function.Basic

/-!
# The clients and the map

What the clients hold of the map, while creatures come, go, walk and are teleported, and tiles
change. A change of a tile goes to the spectators of the tile, each of whom tells its client if
the player sees the tile. A tile out of view is not told of, so what a client holds of it is
worth nothing, and the tile has to be described when it comes into view.

Spectators are searched for with the cache of `Canary.Map.Spectators`, which is cleared when a
creature comes, goes or moves, and filled by these and by any other searches. A search that is not
safe there may miss a player: after a search for creatures around a tile, one for players there is
answered from the cache, with a rectangle that is not shifted with the floor. So the searches for
the tile that changes and for the creature that moves are to be safe (`ClientState.Told`).

Two facts carry what follows. The spectators of a tile, searched for over several floors, include
every player who sees it: the view port of the search is wider than the view, on each floor
(`mem_scan_of_sees`). And what comes into view is described (`mem_sendMoveCreature`). So in every
such run, whatever the order, each client holds what is on the squares its player sees, and nothing
else (`client_eq_of_reachable`).

Of a client it is assumed that it applies what it is told, and forgets what goes out of view. A
creature that walks changes the tile it leaves and the one it comes to: these are changes of
tiles as any others.
-/

namespace Canary.Map

open Transition

/-- A search without ranges, over several floors, for players or all creatures. -/
def Spectators.around (pos : Position) (onlyPlayers : Bool) : Spectators.Query :=
  ⟨pos, true, onlyPlayers, 0, 0, 0, 0⟩

/-- The first and the last floor from which something on a floor may be seen. -/
theorem Spectators.floors_multifloor {z : ℤ} (h₀ : 0 ≤ z) (h : z < MAP_MAX_LAYERS) :
    Spectators.floors z true =
      if z > 7 then (z - 2, min (z + 2) 15) else if z = 6 then (0, 8) else if z = 7 then (0, 9)
      else (0, 7) := by
  have hlayers : MAP_MAX_LAYERS = 16 := rfl
  have hsix : (7 : ℤ) - 1 = 6 := rfl
  rw [Spectators.floors, if_pos rfl, MAP_INIT_SURFACE_LAYER, MAP_LAYER_VIEW_LIMIT, hlayers, hsix]
  rw [hlayers] at h
  have hint8 : ∀ n : ℤ, 0 ≤ n → n < 128 → Spectators.toInt8 n = n := fun n hn₀ hn =>
    Int.bmod_eq_of_le (by omega) (by omega)
  split_ifs with h₁ h₂ h₃
  · rw [hint8 (z - 2) (by omega) (by omega), hint8 (z + 2) (by omega) (by omega),
      hint8 (16 - 1) (by decide) (by decide), Spectators.toUInt8, Spectators.toUInt8]
    refine Prod.ext ?_ ?_
    · dsimp only
      omega
    · dsimp only
      omega
  · rfl
  · rfl
  · rfl

/-- A player who sees a tile is one of its spectators. -/
theorem mem_scan_of_sees {w : Placement} {c : Creature} (hc : c ∈ w.creatures) {pos : Position}
    (hpos : pos.iz < MAP_MAX_LAYERS) (hsee : c.position.sees pos = true) {onlyPlayers : Bool}
    (hplayer : onlyPlayers → c.isPlayer) :
    c ∈ Spectators.scan w pos true onlyPlayers (Spectators.around pos onlyPlayers).range := by
  have hc₀ : 0 ≤ c.position.iz := Int.natCast_nonneg _
  have hpos₀ : 0 ≤ pos.iz := Int.natCast_nonneg _
  obtain ⟨hf, hx, hy⟩ := (sees_iff (w.onMap c hc) hpos).1 hsee
  rw [Position.shiftedX] at hx
  rw [Position.shiftedY] at hy
  have honMap := w.onMap c hc
  rw [mem_floors honMap hpos₀ hpos] at hf
  rw [Spectators.mem_scan, Spectators.spotted_iff, Spectators.floors_multifloor hpos₀ hpos]
  rw [MAP_MAX_LAYERS] at hpos honMap
  have hrange : (Spectators.around pos onlyPlayers).range = ⟨-11, 11, -11, 11⟩ := rfl
  rw [hrange, Position.getOffsetZ]
  dsimp only
  refine ⟨hc, hplayer, ?_⟩
  split_ifs with h₁ h₂ h₃
  all_goals
    dsimp only
    omega

/-! ## The system -/

variable (C : Type)

/-- The creatures, what is on the tiles, what the clients of the players hold, and the cache of
    the searches for spectators. -/
structure ClientState where
  placement : Placement
  content : Position → C
  client : ℕ → Position → Option C
  spectators : Spectators.State

variable {C}

namespace ClientState

/-- The creature with a number. -/
def creature (s : ClientState C) (id : ℕ) : Option Creature :=
  s.placement.creatures.find? fun c => c.id = id

/-- `Spectators::find`, with the state it leaves. -/
def find (s : ClientState C) (q : Spectators.Query) : Finset Creature × ClientState C :=
  ((Spectators.find s.placement s.spectators.cache q).1,
    { s with spectators := Spectators.step s.placement s.spectators q })

/-- Creatures come, go or move: the cache is cleared. -/
def place (s : ClientState C) (placement : Placement) : ClientState C :=
  { s with placement := placement, spectators := ⟨∅, fun _ _ => none⟩ }

/-- A client gets a description, and keeps of the rest what its player sees. -/
def describe (s : ClientState C) (id : ℕ) (myPos : Position) (l : List Position) :
    ℕ → Position → Option C :=
  Function.update s.client id fun pos =>
    if myPos.sees pos then if pos ∈ l then some (s.content pos) else s.client id pos else none

/-- A creature comes to the map, and a player among the spectators gets a description of it. -/
def placeCreature (s : ClientState C) (c : Creature) : Option (ClientState C) :=
  if h : c.position.iz < MAP_MAX_LAYERS then
    if s.creature c.id = none then
      let found := (s.place ⟨c :: s.placement.creatures,
        List.forall_mem_cons.2 ⟨h, s.placement.onMap⟩⟩).find (Spectators.around c.position false)
      some { found.2 with
        client := if c.isPlayer ∧ c ∈ found.1 then
            s.describe c.id c.position (mapDescription c.position)
          else s.client }
    else none
  else none

/-- A creature leaves the map. -/
def removeCreature (s : ClientState C) (id : ℕ) : Option (ClientState C) :=
  some (s.place ⟨s.placement.creatures.filter fun c => c.id ≠ id,
    fun c hc => s.placement.onMap c (List.mem_of_mem_filter hc)⟩)

/-- A tile changes. Some changes go to the players found, others to those among the creatures
    found. -/
def changeTile (s : ClientState C) (pos : Position) (onlyPlayers : Bool) (f : C → C) :
    Option (ClientState C) :=
  if pos.iz < MAP_MAX_LAYERS then
    let found := s.find (Spectators.around pos onlyPlayers)
    some { found.2 with
      content := Function.update s.content pos (f (s.content pos))
      client := fun id pos' =>
        if pos' = pos ∧ ∃ c ∈ found.1, c.isPlayer = true ∧ c.position.sees pos = true ∧ c.id = id then
          (s.client id pos).map f
        else s.client id pos' }
  else none

/-- `Position::areInRange<1, 1, 0>`. -/
def areInRange (p q : Position) : Bool :=
  decide (|p.ix - q.ix| ≤ 1 ∧ |p.iy - q.iy| ≤ 1 ∧ |p.iz - q.iz| ≤ 0)

/-- The creatures once one of them is at a new position. -/
def Placement.move (w : Placement) (id : ℕ) (newPos : Position)
    (h : newPos.iz < MAP_MAX_LAYERS) : Placement where
  creatures := w.creatures.map fun c => if c.id = id then { c with position := newPos } else c
  onMap := by
    refine List.forall_mem_map.2 fun c hc => ?_
    split
    · exact h
    · exact w.onMap c hc

/-- `Map::moveCreature`: a step that is none to a neighbouring square with a ground is a
    teleport. The one who moves is told if it is a player among the spectators of the two
    squares. -/
def moveCreature (s : ClientState C) (id : ℕ) (newPos : Position) (oldStackPos : ℤ)
    (forceTeleport hasGround : Bool) : Option (ClientState C) :=
  match s.creature id with
  | none => none
  | some c =>
    if h : newPos.iz < MAP_MAX_LAYERS then
      let teleport := forceTeleport || !hasGround || !areInRange c.position newPos
      let found := s.find (Spectators.around c.position false)
      let found' := found.2.find (Spectators.around newPos false)
      some { s.place (Placement.move s.placement id newPos h) with
        client := if c.isPlayer ∧ (c ∈ found.1 ∨ c ∈ found'.1) then
            s.describe id newPos (sendMoveCreature newPos c.position oldStackPos teleport)
          else s.client }
    else none

end ClientState

/-- What may happen, with the arguments of the calls. -/
inductive ClientEvent (C : Type) where
  | placeCreature (c : Creature)
  | removeCreature (id : ℕ)
  | changeTile (pos : Position) (onlyPlayers : Bool) (f : C → C)
  | moveCreature (id : ℕ) (newPos : Position) (oldStackPos : ℤ) (forceTeleport hasGround : Bool)
  | find (q : Spectators.Query)

namespace ClientState

def next (s : ClientState C) : ClientEvent C → Option (ClientState C)
  | .placeCreature c => s.placeCreature c
  | .removeCreature id => s.removeCreature id
  | .changeTile pos onlyPlayers f => s.changeTile pos onlyPlayers f
  | .moveCreature id newPos oldStackPos forceTeleport hasGround =>
    s.moveCreature id newPos oldStackPos forceTeleport hasGround
  | .find q => some (s.find q).2

/-- The search for those who are to be told of a tile, or of where they are, is safe. -/
def Told (s : ClientState C) : ClientEvent C → Prop
  | .changeTile pos onlyPlayers _ =>
    Spectators.Safe s.spectators (Spectators.around pos onlyPlayers)
  | .moveCreature id _ _ _ _ =>
    ∀ c ∈ s.creature id, Spectators.Safe s.spectators (Spectators.around c.position false)
  | .placeCreature _ | .removeCreature _ | .find _ => True

end ClientState

/-- It begins without creatures and with a cleared cache, with any tiles. -/
def clientSystem (C : Type) : System (ClientState C) (ClientEvent C) :=
  .ofNext (fun s => s.placement.creatures = [] ∧ s.spectators = ⟨∅, fun _ _ => none⟩)
    ClientState.next

/-! ## What the clients hold -/

namespace ClientState

variable {s s' : ClientState C}

/-- Creatures have numbers of their own, the client of a player holds what the player sees, and
    the lists in the cache are right. -/
structure Synced (s : ClientState C) : Prop where
  ids : (s.placement.creatures.map Creature.id).Nodup
  holds : ∀ c ∈ s.placement.creatures, c.isPlayer = true → ∀ pos, pos.iz < MAP_MAX_LAYERS →
    s.client c.id pos = if c.position.sees pos then some (s.content pos) else none
  cache : Spectators.Inv s.placement s.spectators

theorem creature_eq_some {id : ℕ} {c : Creature} (h : s.creature id = some c) :
    c ∈ s.placement.creatures ∧ c.id = id :=
  ⟨List.mem_of_find?_eq_some h, by simpa using List.find?_some h⟩

theorem creature_eq_none {id : ℕ} :
    s.creature id = none ↔ ∀ c ∈ s.placement.creatures, c.id ≠ id := by
  rw [creature, List.find?_eq_none]
  simp only [decide_eq_true_eq, ne_eq]

theorem Synced.eq_of_id (h : Synced s) {c c' : Creature} (hc : c ∈ s.placement.creatures)
    (hc' : c' ∈ s.placement.creatures) (hid : c.id = c'.id) : c = c' :=
  List.inj_on_of_nodup_map h.ids hc hc' hid

theorem describe_of_ne {id id' : ℕ} (hid : id' ≠ id) (myPos : Position) (l : List Position) :
    s.describe id myPos l id' = s.client id' :=
  Function.update_of_ne hid _ _

theorem describe_self (id : ℕ) (myPos : Position) (l : List Position) (pos : Position) :
    s.describe id myPos l id pos =
      if myPos.sees pos then if pos ∈ l then some (s.content pos) else s.client id pos
      else none := by
  rw [describe, Function.update_self]

/-- What is described is held, with what was held and is still seen. -/
theorem describe_eq {id : ℕ} {myPos : Position} {l : List Position} {pos : Position}
    (h : myPos.sees pos = true → pos ∈ l ∨ s.client id pos = some (s.content pos)) :
    s.describe id myPos l id pos = if myPos.sees pos then some (s.content pos) else none := by
  rw [describe_self]
  by_cases hsee : myPos.sees pos = true
  · rw [if_pos hsee, if_pos hsee]
    by_cases hl : pos ∈ l
    · rw [if_pos hl]
    · rw [if_neg hl]
      exact (h hsee).resolve_left hl
  · rw [if_neg hsee, if_neg hsee]

/-- The client of another player is not told. -/
theorem describe_other {p : Prop} [Decidable p] {id id' : ℕ} (hid : id' ≠ id) (myPos : Position)
    (l : List Position) :
    (if p then s.describe id myPos l else s.client) id' = s.client id' := by
  split
  · exact describe_of_ne hid _ _
  · rfl

/-- A search that is safe finds what a scan finds. -/
theorem mem_find {q : Spectators.Query} (h : Spectators.Inv s.placement s.spectators)
    (hq : Spectators.Safe s.spectators q) (c : Creature) : c ∈ (s.find q).1 ↔
      c ∈ Spectators.scan s.placement q.center q.multifloor q.onlyPlayers q.range := by
  rw [find, h.find_eq hq, Spectators.find_empty, List.mem_toFinset]

/-- A creature finds itself around where it is. -/
theorem mem_find_self {c : Creature} (hc : c ∈ s.placement.creatures)
    (h : Spectators.Inv s.placement s.spectators)
    (hq : Spectators.Safe s.spectators (Spectators.around c.position false)) :
    c ∈ (s.find (Spectators.around c.position false)).1 := by
  have hz := s.placement.onMap c hc
  have hself : c.position.sees c.position = true := by
    refine (sees_iff hz hz).2 ⟨?_, ?_⟩
    · have hz₀ : 0 ≤ c.position.iz := Int.natCast_nonneg _
      rw [mem_floors hz hz₀ hz]
      omega
    · rw [Inside, Position.shiftedX, Position.shiftedY]
      omega
  exact (mem_find h hq c).2
    (mem_scan_of_sees hc hz hself fun hp => absurd hp Bool.false_ne_true)

theorem safe_cleared (w : Placement) (q : Spectators.Query) :
    Spectators.Safe (s.place w).spectators q := by
  intro c hc
  cases hc

theorem Synced.find (h : Synced s) (q : Spectators.Query) : Synced (s.find q).2 :=
  ⟨h.ids, h.holds, h.cache.step q⟩

/-- What it takes to come to the map: the player finds itself, and is described what it sees. -/
theorem placeCreature_eq_some {c : Creature} (hs : s.placeCreature c = some s') :
    ∃ h : c.position.iz < MAP_MAX_LAYERS, s.creature c.id = none ∧
      s'.placement =
        ⟨c :: s.placement.creatures, List.forall_mem_cons.2 ⟨h, s.placement.onMap⟩⟩ ∧
      s'.content = s.content ∧
      s'.client = (if c.isPlayer then s.describe c.id c.position (mapDescription c.position)
        else s.client) ∧
      Spectators.Inv s'.placement s'.spectators := by
  rw [ClientState.placeCreature] at hs
  by_cases hz : c.position.iz < MAP_MAX_LAYERS
  · rw [dif_pos hz] at hs
    obtain ⟨hnew, hs⟩ := Option.ite_none_right_eq_some.1 hs
    obtain rfl := Option.some.inj hs
    refine ⟨hz, hnew, rfl, rfl, if_congr ?_ rfl rfl, (Spectators.inv_empty _).step _⟩
    have hself : c ∈ ((s.place ⟨c :: s.placement.creatures,
        List.forall_mem_cons.2 ⟨hz, s.placement.onMap⟩⟩).find
          (Spectators.around c.position false)).1 :=
      mem_find_self List.mem_cons_self (Spectators.inv_empty _) (safe_cleared _ _)
    exact and_iff_left hself
  · rw [dif_neg hz] at hs
    cases hs

theorem Synced.placeCreature (h : Synced s) {c : Creature} (hs : s.placeCreature c = some s') :
    Synced s' := by
  obtain ⟨hz, hnew, hplacement, hcontent, hclient, hcache⟩ := placeCreature_eq_some hs
  rw [creature_eq_none] at hnew
  refine ⟨?_, fun d hd hplayer pos hpos => ?_, hcache⟩
  · rw [hplacement]
    refine List.nodup_cons.2 ⟨fun hmem => ?_, h.ids⟩
    obtain ⟨d, hd, hid⟩ := List.mem_map.1 hmem
    exact hnew d hd hid
  · rw [hplacement] at hd
    rw [hcontent, hclient]
    obtain rfl | hd := List.mem_cons.1 hd
    · rw [if_pos hplayer]
      exact describe_eq fun hsee => .inl (mem_mapDescription_of_position hz hpos hsee)
    · rw [describe_other (hnew d hd)]
      exact h.holds d hd hplayer pos hpos

theorem Synced.removeCreature (h : Synced s) {id : ℕ} (hs : s.removeCreature id = some s') :
    Synced s' := by
  cases hs
  refine ⟨(List.filter_sublist.map _).nodup h.ids, fun c hc hplayer pos hpos => ?_,
    Spectators.inv_empty _⟩
  exact h.holds c (List.mem_of_mem_filter hc) hplayer pos hpos

theorem Synced.changeTile (h : Synced s) {pos : Position} {onlyPlayers : Bool} {f : C → C}
    (hsafe : Spectators.Safe s.spectators (Spectators.around pos onlyPlayers))
    (hs : s.changeTile pos onlyPlayers f = some s') : Synced s' := by
  rw [ClientState.changeTile] at hs
  split_ifs at hs with hz
  cases hs
  refine ⟨h.ids, fun c hc hplayer pos' hpos => ?_, h.cache.step _⟩
  have hheld := h.holds c hc hplayer pos' hpos
  dsimp only
  by_cases heq : pos' = pos
  · subst heq
    rw [Function.update_self]
    by_cases hsee : c.position.sees pos' = true
    · -- Who sees the tile is a spectator of it, and is told.
      have hfound : c ∈ (s.find (Spectators.around pos' onlyPlayers)).1 :=
        (mem_find h.cache hsafe c).2 (mem_scan_of_sees hc hz hsee fun _ => hplayer)
      rw [if_pos ⟨rfl, c, hfound, hplayer, hsee, rfl⟩, if_pos hsee, hheld, if_pos hsee,
        Option.map_some]
    · rw [if_neg hsee] at hheld ⊢
      rw [hheld, Option.map_none, ite_self]
  · rw [if_neg fun hand => heq hand.1, Function.update_of_ne heq]
    exact hheld

/-- What the one who moves sees afterwards is described, or was seen before. -/
theorem mem_sendMoveCreature {oldPos newPos pos : Position} (hold : oldPos.iz < MAP_MAX_LAYERS)
    (hnew : newPos.iz < MAP_MAX_LAYERS) (hpos : pos.iz < MAP_MAX_LAYERS) (oldStackPos : ℤ)
    (forceTeleport hasGround : Bool) (hsee : newPos.sees pos = true) :
    pos ∈ sendMoveCreature newPos oldPos oldStackPos
        (forceTeleport || !hasGround || !areInRange oldPos newPos) ∨
      oldPos.sees pos = true := by
  rw [sendMoveCreature]
  split_ifs with h₁ h₂ h₃ h₄
  · exact .inl (mem_mapDescription_of_position hnew hpos hsee)
  · exact .inl (mem_mapDescription_of_position hnew hpos hsee)
  all_goals
    -- A step that is longer, or to another floor, would be a teleport.
    have hrange : areInRange oldPos newPos = true := by
      by_contra hfalse
      rw [Bool.eq_false_iff.2 hfalse, Bool.not_false, Bool.or_true] at h₂
      exact h₂ rfl
    rw [areInRange, decide_eq_true_iff, abs_sub_comm, abs_sub_comm oldPos.iy, abs_le,
      abs_le] at hrange
    have hz : newPos.iz = oldPos.iz :=
      (sub_eq_zero.1 (abs_nonpos_iff.1 hrange.2.2)).symm
  · omega
  · omega
  · refine (sees_or_mem_of_walk hold hpos hnew hz (abs_le.2 hrange.1) (abs_le.2 hrange.2.1)
      hsee).symm.imp_left (List.mem_append_right _)

/-- What it takes to move: a player who moves finds itself, if the search around it is safe. -/
theorem moveCreature_eq_some {id : ℕ} {newPos : Position} {oldStackPos : ℤ}
    {forceTeleport hasGround : Bool} (hcache : Spectators.Inv s.placement s.spectators)
    (hsafe : ∀ c ∈ s.creature id,
      Spectators.Safe s.spectators (Spectators.around c.position false))
    (hs : s.moveCreature id newPos oldStackPos forceTeleport hasGround = some s') :
    ∃ c ∈ s.placement.creatures, c.id = id ∧ ∃ h : newPos.iz < MAP_MAX_LAYERS,
      s' = { s.place (Placement.move s.placement id newPos h) with
        client :=
          if c.isPlayer then s.describe id newPos (sendMoveCreature newPos c.position oldStackPos
            (forceTeleport || !hasGround || !areInRange c.position newPos))
          else s.client } := by
  rw [ClientState.moveCreature] at hs
  split at hs
  · cases hs
  · next c hcreature =>
    obtain ⟨hc, hid⟩ := creature_eq_some hcreature
    by_cases hz : newPos.iz < MAP_MAX_LAYERS
    · rw [dif_pos hz] at hs
      obtain rfl := Option.some.inj hs
      have hself := mem_find_self hc hcache (hsafe c hcreature)
      refine ⟨c, hc, hid, hz, ?_⟩
      dsimp only
      rw [if_congr (and_iff_left (Or.inl hself)) rfl rfl]
    · rw [dif_neg hz] at hs
      cases hs

theorem Synced.moveCreature (h : Synced s) {id : ℕ} {newPos : Position} {oldStackPos : ℤ}
    {forceTeleport hasGround : Bool}
    (hsafe : ∀ c ∈ s.creature id,
      Spectators.Safe s.spectators (Spectators.around c.position false))
    (hs : s.moveCreature id newPos oldStackPos forceTeleport hasGround = some s') :
    Synced s' := by
  obtain ⟨c, hc, hid, hz, rfl⟩ := moveCreature_eq_some h.cache hsafe hs
  have hids : (Placement.move s.placement id newPos hz).creatures.map Creature.id =
      s.placement.creatures.map Creature.id := by
    rw [Placement.move, List.map_map]
    refine List.map_congr_left fun d _ => ?_
    rw [Function.comp_apply]
    split <;> rfl
  refine ⟨hids ▸ h.ids, fun d' hd' hplayer pos hpos => ?_, Spectators.inv_empty _⟩
  obtain ⟨d, hd, rfl⟩ := List.mem_map.1 hd'
  dsimp only [place] at hplayer ⊢
  by_cases hdid : d.id = id
  · -- The one who moves.
    obtain rfl := h.eq_of_id hd hc (hdid.trans hid.symm)
    rw [if_pos hdid] at hplayer ⊢
    dsimp only at hplayer ⊢
    rw [if_pos hplayer, hdid]
    refine describe_eq fun hsee => ?_
    refine (mem_sendMoveCreature (s.placement.onMap d hd) hz hpos _ _ _ hsee).imp_right ?_
    intro hbefore
    rw [← hdid, h.holds d hd hplayer pos hpos, if_pos hbefore]
  · rw [if_neg hdid] at hplayer ⊢
    rw [describe_other hdid]
    exact h.holds d hd hplayer pos hpos

theorem Synced.next (h : Synced s) {e : ClientEvent C} (htold : s.Told e)
    (hs : s.next e = some s') : Synced s' := by
  cases e with
  | placeCreature c => exact h.placeCreature hs
  | removeCreature id => exact h.removeCreature hs
  | changeTile pos onlyPlayers f => exact h.changeTile htold hs
  | moveCreature id newPos oldStackPos forceTeleport hasGround => exact h.moveCreature htold hs
  | find q =>
    obtain rfl := Option.some.inj hs
    exact h.find q

end ClientState

/-- In every run whose searches for those who are to be told are safe, each client holds what is
    on the squares that its player sees, and nothing else. -/
theorem client_eq_of_reachable {s : ClientState C}
    (hs : (clientSystem C).ReachableVia ClientState.Told s)
    {c : Creature} (hc : c ∈ s.placement.creatures) (hplayer : c.isPlayer = true) {pos : Position}
    (hpos : pos.iz < MAP_MAX_LAYERS) :
    s.client c.id pos = if c.position.sees pos then some (s.content pos) else none := by
  have hsynced : s.Synced := by
    refine hs.invariant (fun s₀ h₀ => ?_) fun s₁ e s₂ h₁ htold hstep => h₁.next htold hstep
    obtain ⟨hnil, hcleared⟩ := h₀
    refine ⟨?_, ?_, hcleared ▸ Spectators.inv_empty _⟩
    · rw [hnil]
      exact List.nodup_nil
    · rw [hnil]
      exact fun c hc => by cases hc
  exact hsynced.holds c hc hplayer pos hpos

/-- A tile changes before a player comes to the map, who takes a step to the east, from which the
    tile is seen. It changes once more. -/
theorem client_eq_after_step :
    let player : Creature := ⟨1, ⟨101, 100, 7⟩, true⟩
    let pos : Position := ⟨110, 100, 7⟩
    ∃ s : ClientState ℕ, (clientSystem ℕ).ReachableVia ClientState.Told s ∧
      player ∈ s.placement.creatures ∧ s.content pos = 2 ∧
      s.client player.id pos = some (s.content pos) := by
  intro player pos
  let start : ClientState ℕ :=
    ⟨⟨[], fun c hc => by cases hc⟩, fun _ => 0, fun _ _ => none, ⟨∅, fun _ _ => none⟩⟩
  have hstart : (clientSystem ℕ).ReachableVia ClientState.Told start := .init ⟨rfl, rfl⟩
  let before : ClientEvent ℕ := .changeTile pos false (· + 1)
  let come : ClientEvent ℕ := .placeCreature ⟨1, ⟨100, 100, 7⟩, true⟩
  let walk : ClientEvent ℕ := .moveCreature 1 ⟨101, 100, 7⟩ 1 false true
  let after : ClientEvent ℕ := .changeTile pos true (· + 1)
  have hbefore := hstart.step (a := before) (fun c hc => by cases hc) rfl
  have hcome := hbefore.step (a := come) trivial rfl
  -- The player was found around the square when it came there.
  have hwalk := hcome.step (a := walk)
    (fun c hc => by
      obtain rfl := Option.some.inj hc
      exact Spectators.safe_again rfl) rfl
  have hreach := hwalk.step (a := after) (fun c hc => by cases hc) rfl
  have hmem : player ∈ _ := List.mem_singleton_self player
  have hpos : pos.iz < MAP_MAX_LAYERS := by decide
  exact ⟨_, hreach, hmem, rfl,
    (client_eq_of_reachable hreach hmem rfl hpos).trans (if_pos (by decide))⟩

end Canary.Map
