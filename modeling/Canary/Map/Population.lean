import Canary.Lib.Buckets
import Canary.Map.QTree

/-!
# The population of the map

Each leaf of the quad tree lists the creatures on its squares, and the players among them. The
lists are kept by hand: a creature is listed when it is placed, changes the list when it moves to
a square of another leaf, and is taken out when it is removed, or, a player, when it dies. Leaves
are made meanwhile, as tiles are set.

In every run the lists are right (`exact_of_reachable`): a creature on the map is listed by the
leaf of its square, once, and by no other, so it is found where it is looked for when it is to be
taken out, and no leaf is missing. And whatever the runs of moves and searches, a search that is
`Safe` (see `Canary.Map.Spectators`) finds the creatures that are in its range now
(`mem_find_of_reachable`): what is in the cache is never out of date, though the cache holds
creatures and not their positions.

The searches that a move makes on its way are searches by themselves. A creature that has been
removed is not placed again; a player that has died is off the map until it comes back. A
player for whom no tile is found then, and who is removed without being listed, is left out.
-/

namespace Canary.Map.Population

open Buckets Spectators Transition

/-- The map: its leaves with their lists, the tiles, and what is known of each creature, which
    stands for its address. -/
structure World where
  tree : QTree
  creatureList : LeafId → List ℕ
  playerList : LeafId → List ℕ
  tiles : Position → Bool
  isPlayer : ℕ → Bool
  /-- The tile of a creature. It is kept when the creature leaves the map. -/
  parent : ℕ → Option Position
  removed : ℕ → Bool
  dead : ℕ → Bool
  spectators : Spectators.State

namespace World

variable (s : World)

/-- A creature, with the position it has now. -/
def creature (c : ℕ) : Creature := ⟨c, (s.parent c).getD ⟨0, 0, 0⟩, s.isPlayer c⟩

/-- `Spectators::clearCache` -/
def clearCache : World := { s with spectators := ⟨∅, fun _ _ => none⟩ }

/-- `QTreeLeafNode::addCreature` -/
def leafAdd (leaf : LeafId) (c : ℕ) : World :=
  { s with
    creatureList := Function.update s.creatureList leaf (s.creatureList leaf ++ [c])
    playerList :=
      if s.isPlayer c then Function.update s.playerList leaf (s.playerList leaf ++ [c])
      else s.playerList }

/-- `QTreeLeafNode::removeCreature`, where the creature has to be found. -/
def leafRemove (leaf : LeafId) (c : ℕ) : Option World := do
  let creatures ← swapErase (s.creatureList leaf) c
  let players ←
    (if s.isPlayer c then swapErase (s.playerList leaf) c else some (s.playerList leaf))
  return { s with
    creatureList := Function.update s.creatureList leaf creatures
    playerList := Function.update s.playerList leaf players }

/-- `Map::setTile` -/
def setTile (pos : Position) : Option World :=
  if MAP_MAX_LAYERS ≤ pos.iz then some s
  else
    let tiles := Function.update s.tiles pos true
    match s.tree.getQTNode pos.x pos.y with
    | some _ => some { s with tiles := tiles }
    | none => (s.tree.getBestLeaf pos.x.toUInt32 pos.y.toUInt32 15).map fun (tree, _) =>
      { s with tiles := tiles, tree := tree }

/-- `Map::placeCreature`, once the tile is found. -/
def placeCreature (c : ℕ) (dest : Position) : Option World := do
  -- internalAddThing
  let s := { s with parent := Function.update s.parent c (some dest) }.clearCache
  let leaf ← s.tree.getQTNode dest.x dest.y
  return s.leafAdd leaf c

/-- `Map::moveCreature` -/
def moveCreature (c : ℕ) (newPos : Position) : Option World := do
  let oldPos ← s.parent c
  -- removeThing
  let s := s.clearCache
  let leaf ← s.tree.getQTNode oldPos.x oldPos.y
  let newLeaf ← s.tree.getQTNode newPos.x newPos.y
  let s ←
    (if leaf ≠ newLeaf then (s.leafRemove leaf c).map fun s => s.leafAdd newLeaf c else some s)
  -- addThing
  return { s.clearCache with parent := Function.update s.parent c (some newPos) }

/-- `Tile::removeCreature` -/
def tileRemoveCreature (c : ℕ) : Option World := do
  let tilePos ← s.parent c
  let leaf ← s.tree.getQTNode tilePos.x tilePos.y
  let s ← s.leafRemove leaf c
  return s.clearCache

/-- `Game::removeCreature` -/
def removeCreature (c : ℕ) : Option World :=
  (s.tileRemoveCreature c).map fun s => { s with removed := Function.update s.removed c true }

/-- `Player::despawn` -/
def despawn (c : ℕ) : Option World :=
  (s.tileRemoveCreature c).map fun s => { s with dead := Function.update s.dead c true }

/-- `Player::spawn` -/
def spawn (c : ℕ) (dest : Position) : Option World :=
  { s with dead := Function.update s.dead c false }.placeCreature c dest

/-! ## Searches -/

/-- The scan along the leaves. -/
def scan (center : Position) (multifloor onlyPlayers : Bool) (r : Range) : List Creature :=
  let minoffset := center.iz - (floors center.iz multifloor).2
  let maxoffset := center.iz - (floors center.iz multifloor).1
  let x1 := clip (center.ix + r.minRangeX + minoffset)
  let y1 := clip (center.iy + r.minRangeY + minoffset)
  let x2 := clip (center.ix + r.maxRangeX + maxoffset)
  let y2 := clip (center.iy + r.maxRangeY + maxoffset)
  (s.tree.leafWalk x1 y1 x2 y2).flatMap fun leaf =>
    ((if onlyPlayers then s.playerList leaf else s.creatureList leaf).map s.creature).filter
      (spotted center multifloor r)

/-- A cached list holds creatures: their positions are those they have now. -/
def listNow (l : List Creature) : List Creature := l.map fun x => s.creature x.id

def floorNow (d : FloorData) : FloorData := ⟨d.floor.map s.listNow, d.multiFloor.map s.listNow⟩

def now (c : SpectatorsCache) : SpectatorsCache :=
  { c with creatures := s.floorNow c.creatures, players := s.floorNow c.players }

/-- `Spectators::find` -/
def find (q : Query) : Finset Creature × World :=
  let entry := (s.spectators.cache.lookup q.center).map s.now
  match entry.bind fun c => c.answer q with
  | some l => (l.toFinset, s)
  | none =>
    let range := scanRange entry q
    let l := s.scan q.center q.multifloor q.onlyPlayers range
    (l.toFinset, { s with spectators :=
      { cache := s.spectators.cache.insert q.center
          ((widened entry q).setList q.multifloor q.onlyPlayers l)
        filled := fun center m =>
          if center = q.center ∧ m = ⟨q.multifloor, q.onlyPlayers⟩ then some range
          else s.spectators.filled center m } })

/-! ## The system -/

inductive Event where
  | setTile (pos : Position)
  | place (c : ℕ) (dest : Position)
  | move (c : ℕ) (newPos : Position)
  | remove (c : ℕ)
  | despawn (c : ℕ)
  | spawn (c : ℕ) (dest : Position)
  | find (q : Query)

/-- A creature is on the map. -/
def onMap (c : ℕ) : Bool := (s.parent c).isSome && !s.removed c && !s.dead c

/-- A creature is on the map, on a tile. -/
structure Placed (c : ℕ) (pos : Position) : Prop where
  parent : s.parent c = some pos
  removed : s.removed c = false
  dead : s.dead c = false

/-- What the callers see to: tiles exist, and creatures are taken out that are on the map. -/
def permits : Event → Bool
  | .setTile _ | .find _ => true
  | .place c dest => (s.parent c).isNone && s.tiles dest
  | .move c newPos => s.onMap c && s.tiles newPos
  | .remove c => s.onMap c
  | .despawn c => s.isPlayer c && s.onMap c
  | .spawn c dest => s.dead c && !s.removed c && s.tiles dest

/-- What an event comes to, unless a leaf or a creature is missing. -/
def next : Event → Option World
  | .setTile pos => s.setTile pos
  | .place c dest => s.placeCreature c dest
  | .move c newPos => s.moveCreature c newPos
  | .remove c => s.removeCreature c
  | .despawn c => s.despawn c
  | .spawn c dest => s.spawn c dest
  | .find q => some (s.find q).2

/-- A map without tiles. -/
def start (isPlayer : ℕ → Bool) : World where
  tree := .empty
  creatureList _ := []
  playerList _ := []
  tiles _ := false
  isPlayer := isPlayer
  parent _ := none
  removed _ := false
  dead _ := false
  spectators := ⟨∅, fun _ _ => none⟩

def system : System World Event := .ofNext (fun s => ∃ isPlayer, s = start isPlayer) World.next

/-- What the callers may make of a map without tiles. -/
abbrev Reachable : World → Prop := system.ReachableVia fun s a => s.permits a = true

/-! ## The lists -/

/-- The lists hold the creatures by a key, which tells the leaf. -/
structure Lists (key : ℕ → Option LeafId) : Prop where
  creatures : Filed s.creatureList key
  players : Filed s.playerList fun c => if s.isPlayer c then key c else none

/-- The leaf of a creature on the map. -/
def leafOf (c : ℕ) : Option LeafId :=
  if s.removed c || s.dead c then none
  else (s.parent c).bind fun pos => s.tree.getQTNode pos.x pos.y

variable {s} {key : ℕ → Option LeafId} {c : ℕ} {leaf : LeafId}

theorem players_update (isPlayer : ℕ → Bool) (key : ℕ → Option LeafId) (c : ℕ)
    (o : Option LeafId) (c' : ℕ) :
    (if isPlayer c' then Function.update key c o c' else none) =
      Function.update (fun c => if isPlayer c then key c else none) c
        (if isPlayer c then o else none) c' := by
  by_cases hc : c' = c
  · subst hc
    rw [Function.update_self, Function.update_self]
  · rw [Function.update_of_ne hc, Function.update_of_ne hc]

theorem Lists.leafAdd (h : s.Lists key) (hc : key c = none) (leaf : LeafId) :
    (s.leafAdd leaf c).Lists (Function.update key c (some leaf)) where
  creatures := h.creatures.add hc leaf
  players := by
    refine Filed.congr ?_ (players_update s.isPlayer key c (some leaf))
    rw [World.leafAdd]
    cases hplayer : s.isPlayer c with
    | true =>
      rw [if_pos rfl, if_pos rfl]
      exact h.players.add (by rw [if_pos hplayer, hc]) leaf
    | false =>
      rw [if_neg Bool.false_ne_true, if_neg Bool.false_ne_true]
      refine h.players.congr fun c' => ?_
      by_cases hc' : c' = c
      · rw [hc', Function.update_self, hplayer, if_neg Bool.false_ne_true]
      · rw [Function.update_of_ne hc']

/-- A creature is found in the lists of its leaf, and taken out. -/
theorem Lists.leafRemove (h : s.Lists key) (hc : key c = some leaf) :
    ∃ creatureList playerList,
      s.leafRemove leaf c = some { s with creatureList := creatureList, playerList := playerList } ∧
      { s with creatureList := creatureList, playerList := playerList }.Lists
        (Function.update key c none) := by
  obtain ⟨creatures, hcreatures, hfiled⟩ := h.creatures.remove hc
  rw [World.leafRemove, hcreatures, Option.bind_eq_bind, Option.bind_some]
  cases hplayer : s.isPlayer c with
  | true =>
    obtain ⟨players, hplayers, hfiled'⟩ := h.players.remove (a := c) (k := leaf)
      (by rw [if_pos hplayer, hc])
    rw [if_pos rfl, hplayers]
    refine ⟨_, _, rfl, hfiled, hfiled'.congr fun c' => ?_⟩
    rw [players_update, if_pos hplayer]
  | false =>
    rw [if_neg Bool.false_ne_true]
    refine ⟨_, _, rfl, hfiled, ?_⟩
    rw [Function.update_eq_self]
    refine h.players.congr fun c' => ?_
    by_cases hc' : c' = c
    · rw [hc', hplayer, if_neg Bool.false_ne_true, if_neg Bool.false_ne_true]
    · dsimp only
      rw [Function.update_of_ne hc']

/-! ## What is known of the map -/

/-- A creature with its position, on the map. -/
structure Lives (s : World) (x : Creature) : Prop where
  placed : s.Placed x.id x.position
  isPlayer : x.isPlayer = s.isPlayer x.id

/-- The lists are right, and so is what is in the cache. -/
structure Sound (s : World) : Prop where
  tree : ∃ calls, QTree.Inv s.tree calls
  tiles : ∀ pos, s.tiles pos = true →
    pos.iz < MAP_MAX_LAYERS ∧ ∃ leaf, s.tree.getQTNode pos.x pos.y = some leaf
  onTile : ∀ c pos, s.Placed c pos → s.tiles pos = true
  unplaced : ∀ c, s.parent c = none → s.removed c = false ∧ s.dead c = false
  lists : s.Lists s.leafOf
  cache : ∀ w : Placement, (∀ x, x ∈ w.creatures ↔ s.Lives x) → Spectators.Inv w s.spectators

theorem Lists.congr (h : s.Lists key) {key' : ℕ → Option LeafId} (heq : ∀ c, key' c = key c) :
    s.Lists key' where
  creatures := h.creatures.congr heq
  players := h.players.congr fun c => by rw [heq]

theorem exists_placed (h : s.onMap c = true) : ∃ pos, s.Placed c pos := by
  rw [onMap, Bool.and_eq_true, Bool.and_eq_true] at h
  obtain ⟨⟨hparent, hremoved⟩, hdead⟩ := h
  obtain ⟨pos, hpos⟩ := Option.isSome_iff_exists.1 hparent
  exact ⟨pos, hpos, by simpa using hremoved, by simpa using hdead⟩

theorem leafOf_of_placed {pos : Position} (h : s.Placed c pos) :
    s.leafOf c = s.tree.getQTNode pos.x pos.y := by
  rw [leafOf, h.removed, h.dead, h.parent]
  rfl

theorem leafOf_eq_some : s.leafOf c = some leaf ↔
    ∃ pos, s.Placed c pos ∧ s.tree.getQTNode pos.x pos.y = some leaf := by
  constructor
  · intro h
    rw [leafOf] at h
    split_ifs at h with hgone
    obtain ⟨pos, hparent, hleaf⟩ := Option.bind_eq_some_iff.1 h
    obtain ⟨hremoved, hdead⟩ := Bool.or_eq_false_iff.1 (Bool.eq_false_of_not_eq_true hgone)
    exact ⟨pos, ⟨hparent, hremoved, hdead⟩, hleaf⟩
  · rintro ⟨pos, hplaced, hleaf⟩
    rw [leafOf_of_placed hplaced, hleaf]

section Steps

variable {s' : World} {pos dest : Position}

theorem lives_iff (hparent : s'.parent = s.parent) (hremoved : s'.removed = s.removed)
    (hdead : s'.dead = s.dead) (hplayer : s'.isPlayer = s.isPlayer) (x : Creature) :
    s'.Lives x ↔ s.Lives x := by
  constructor
  · rintro ⟨⟨hp, hr, hd⟩, hx⟩
    exact ⟨⟨hparent ▸ hp, hremoved ▸ hr, hdead ▸ hd⟩, hplayer ▸ hx⟩
  · rintro ⟨⟨hp, hr, hd⟩, hx⟩
    exact ⟨⟨hparent ▸ hp, hremoved ▸ hr, hdead ▸ hd⟩, hplayer ▸ hx⟩

theorem leafOf_congr (htree : s'.tree = s.tree) (hparent : s'.parent c = s.parent c)
    (hremoved : s'.removed c = s.removed c) (hdead : s'.dead c = s.dead c) :
    s'.leafOf c = s.leafOf c := by
  simp only [leafOf, htree, hparent, hremoved, hdead]

/-- What is known of the map when a creature has come to a tile, new or from elsewhere. -/
theorem Sound.arrive (h : s.Sound) (hdest : s.tiles dest = true)
    (hleaf : s.tree.getQTNode dest.x dest.y = some leaf) (hgone : s.removed c = false)
    (htree : s'.tree = s.tree) (htiles : s'.tiles = s.tiles)
    (hparent : s'.parent = Function.update s.parent c (some dest))
    (hremoved : s'.removed = s.removed) (hdead : s'.dead = Function.update s.dead c false)
    (hlists : s'.Lists (Function.update s.leafOf c (some leaf)))
    (hcleared : s'.spectators = ⟨∅, fun _ _ => none⟩) : s'.Sound where
  tree := htree ▸ h.tree
  tiles := htree ▸ htiles ▸ h.tiles
  onTile c' pos hplaced := by
    obtain ⟨hp, hr, hd⟩ := hplaced
    rw [hparent] at hp
    rw [hremoved] at hr
    rw [hdead] at hd
    rw [htiles]
    by_cases hne : c' = c
    · rw [hne, Function.update_self] at hp
      rwa [← Option.some.inj hp]
    · rw [Function.update_of_ne hne] at hp hd
      exact h.onTile c' pos ⟨hp, hr, hd⟩
  unplaced c' hc' := by
    rw [hparent] at hc'
    rw [hremoved, hdead]
    by_cases hne : c' = c
    · rw [hne, Function.update_self] at hc'
      exact absurd hc' (Option.some_ne_none dest)
    · rw [Function.update_of_ne hne] at hc' ⊢
      exact h.unplaced c' hc'
  lists := by
    refine hlists.congr fun c' => ?_
    by_cases hne : c' = c
    -- The creature that came is listed in the leaf of its tile.
    · have hplaced : s'.Placed c' dest := by
        refine ⟨?_, ?_, ?_⟩
        · rw [hparent, hne, Function.update_self]
        · rw [hremoved, hne, hgone]
        · rw [hdead, hne, Function.update_self]
      rw [leafOf_of_placed hplaced, htree, hleaf, hne, Function.update_self]
    · rw [Function.update_of_ne hne]
      refine leafOf_congr htree ?_ (by rw [hremoved]) ?_
      · rw [hparent, Function.update_of_ne hne]
      · rw [hdead, Function.update_of_ne hne]
  cache w _ := hcleared ▸ inv_empty w

/-- What is known of the map when a creature has left it, and is marked as removed or dead. -/
theorem Sound.depart (h : s.Sound) (hplaced : s.Placed c pos)
    (hgone : (s'.removed c || s'.dead c) = true)
    (hothers : ∀ c', c' ≠ c → s'.removed c' = s.removed c' ∧ s'.dead c' = s.dead c')
    (htree : s'.tree = s.tree) (htiles : s'.tiles = s.tiles) (hparent : s'.parent = s.parent)
    (hlists : s'.Lists (Function.update s.leafOf c none))
    (hcleared : s'.spectators = ⟨∅, fun _ _ => none⟩) : s'.Sound where
  tree := htree ▸ h.tree
  tiles := htree ▸ htiles ▸ h.tiles
  onTile c' pos' hplaced' := by
    have hne : c' ≠ c := by
      rintro rfl
      rw [hplaced'.removed, hplaced'.dead] at hgone
      exact Bool.false_ne_true hgone
    obtain ⟨hremoved, hdead⟩ := hothers c' hne
    rw [htiles]
    refine h.onTile c' pos' ⟨?_, ?_, ?_⟩
    · rw [← hparent, hplaced'.parent]
    · rw [← hremoved, hplaced'.removed]
    · rw [← hdead, hplaced'.dead]
  unplaced c' hc' := by
    rw [hparent] at hc'
    have hne : c' ≠ c := by
      rintro rfl
      exact absurd (hplaced.parent.symm.trans hc') (Option.some_ne_none pos)
    obtain ⟨hremoved, hdead⟩ := hothers c' hne
    rw [hremoved, hdead]
    exact h.unplaced c' hc'
  lists := by
    refine hlists.congr fun c' => ?_
    by_cases hne : c' = c
    · rw [hne, Function.update_self, leafOf, hgone, if_pos rfl]
    · rw [Function.update_of_ne hne]
      obtain ⟨hremoved, hdead⟩ := hothers c' hne
      exact leafOf_congr htree (by rw [hparent]) hremoved hdead
  cache w _ := hcleared ▸ inv_empty w

/-- A creature comes to a tile, new or back from death. -/
theorem Sound.placeCreature (h : s.Sound) (hc : s.leafOf c = none) (hgone : s.removed c = false)
    (hdest : s.tiles dest = true) :
    ∃ s', { s with dead := Function.update s.dead c false }.placeCreature c dest = some s' ∧
      s'.Sound := by
  obtain ⟨-, leaf, hleaf⟩ := h.tiles dest hdest
  rw [World.placeCreature, World.clearCache]
  dsimp only
  rw [hleaf]
  have hlists : ({ s with
      dead := Function.update s.dead c false
      parent := Function.update s.parent c (some dest)
      spectators := ⟨∅, fun _ _ => none⟩ } : World).Lists s.leafOf :=
    ⟨h.lists.creatures, h.lists.players⟩
  exact ⟨_, rfl, h.arrive hdest hleaf hgone rfl rfl rfl rfl rfl (hlists.leafAdd hc leaf) rfl⟩

/-- A creature is taken out of the lists, and is marked. -/
theorem Sound.tileRemoveCreature (h : s.Sound) (hplaced : s.Placed c pos) :
    ∃ s₁, s.tileRemoveCreature c = some s₁ ∧
      ({ s₁ with removed := Function.update s₁.removed c true } : World).Sound ∧
      ({ s₁ with dead := Function.update s₁.dead c true } : World).Sound := by
  obtain ⟨-, leaf, hleaf⟩ := h.tiles pos (h.onTile c pos hplaced)
  have hkey : s.leafOf c = some leaf := leafOf_eq_some.2 ⟨pos, hplaced, hleaf⟩
  obtain ⟨creatureList, playerList, hremove, hlists⟩ := h.lists.leafRemove hkey
  rw [World.tileRemoveCreature, hplaced.parent, Option.bind_eq_bind, Option.bind_some, hleaf,
    Option.bind_eq_bind, Option.bind_some, hremove]
  refine ⟨_, rfl, ?_, ?_⟩
  · refine h.depart hplaced ?_ (fun c' hne => ⟨Function.update_of_ne hne .., rfl⟩) rfl rfl rfl
      ⟨hlists.creatures, hlists.players⟩ rfl
    exact Bool.or_eq_true_iff.2 (.inl (Function.update_self ..))
  · refine h.depart hplaced ?_ (fun c' hne => ⟨rfl, Function.update_of_ne hne ..⟩) rfl rfl rfl
      ⟨hlists.creatures, hlists.players⟩ rfl
    exact Bool.or_eq_true_iff.2 (.inr (Function.update_self ..))

/-- A creature changes the list if it comes to another leaf. -/
theorem Sound.moveCreature (h : s.Sound) (hplaced : s.Placed c pos) (hdest : s.tiles dest = true) :
    ∃ s', s.moveCreature c dest = some s' ∧ s'.Sound := by
  obtain ⟨-, leaf, hleaf⟩ := h.tiles pos (h.onTile c pos hplaced)
  obtain ⟨-, newLeaf, hnewLeaf⟩ := h.tiles dest hdest
  have hkey : s.leafOf c = some leaf := leafOf_eq_some.2 ⟨pos, hplaced, hleaf⟩
  have halive : s.dead = Function.update s.dead c false := by
    rw [← hplaced.dead, Function.update_eq_self]
  rw [World.moveCreature, World.clearCache, hplaced.parent, Option.bind_eq_bind, Option.bind_some]
  dsimp only
  rw [hleaf, Option.bind_eq_bind, Option.bind_some, hnewLeaf, Option.bind_eq_bind,
    Option.bind_some]
  by_cases hsame : leaf = newLeaf
  · -- The creature stays in its list.
    subst hsame
    rw [if_neg (not_not.2 rfl)]
    have hlists : s.Lists (Function.update s.leafOf c (some leaf)) := by
      rw [← hkey, Function.update_eq_self]
      exact h.lists
    exact ⟨_, rfl, h.arrive hdest hnewLeaf hplaced.removed rfl rfl rfl rfl halive
      ⟨hlists.creatures, hlists.players⟩ rfl⟩
  · have hcleared : ({ s with spectators := ⟨∅, fun _ _ => none⟩ } : World).Lists s.leafOf :=
      ⟨h.lists.creatures, h.lists.players⟩
    obtain ⟨creatureList, playerList, hremove, hlists⟩ := hcleared.leafRemove hkey
    have hadded := hlists.leafAdd (Function.update_self ..) newLeaf
    rw [Function.update_idem] at hadded
    rw [if_pos hsame, hremove]
    exact ⟨_, rfl, h.arrive hdest hnewLeaf hplaced.removed rfl rfl rfl rfl halive
      ⟨hadded.creatures, hadded.players⟩ rfl⟩


/-- A tile is set, and its leaf made if there is none. The leaves there are stay. -/
theorem getQTNode_getBestLeaf {calls : List (UInt16 × UInt16)} (h : QTree.Inv s.tree calls)
    (pos : Position) (hnone : s.tree.getQTNode pos.x pos.y = none) :
    ∃ tree id, s.tree.getBestLeaf pos.x.toUInt32 pos.y.toUInt32 15 = some (tree, id) ∧
      QTree.Inv tree (calls ++ [(pos.x, pos.y)]) ∧ tree.getQTNode pos.x pos.y = some id ∧
      ∀ x y leaf, s.tree.getQTNode x y = some leaf → tree.getQTNode x y = some leaf := by
  obtain ⟨tree, id, htree, hinv, hid⟩ := h.getBestLeaf (pos.x, pos.y)
  have hnull : s.tree.root ≠ .null := by
    obtain ⟨child, hroot⟩ := h.root
    rw [hroot]
    intro hnull
    cases hnull
  rw [h.getQTNode] at hnone
  have hroot : tree.root =
      s.tree.root.add s.tree.created (QTreeNode.path 13 pos.x.toUInt32 pos.y.toUInt32) := by
    rw [QTree.getBestLeaf, QTreeNode.createLeaf_eq h.uniform hnull,
      ← QTreeNode.getLeaf_eq_get h.uniform, hnone] at htree
    obtain ⟨rfl, -⟩ := Prod.ext_iff.1 (Option.some.inj htree)
    rfl
  refine ⟨tree, id, htree, hinv, by rw [hinv.getQTNode, hid], fun x y leaf hleaf => ?_⟩
  rw [h.getQTNode] at hleaf
  rw [hinv.getQTNode, hroot, QTreeNode.getLeaf_add h.uniform, if_neg, hleaf]
  rintro ⟨hx, hy⟩
  rw [QTreeNode.getLeaf_congr h.uniform hx hy, hleaf] at hnone
  exact absurd hnone (Option.some_ne_none leaf)

theorem Sound.setTile (h : s.Sound) (pos : Position) :
    ∃ s', s.setTile pos = some s' ∧ s'.Sound := by
  rw [World.setTile]
  by_cases hpos : MAP_MAX_LAYERS ≤ pos.iz
  · rw [if_pos hpos]
    exact ⟨s, rfl, h⟩
  rw [if_neg hpos]
  -- What a new tile and a tree with more leaves leave as it is.
  have hset : ∀ (tree : QTree), (∃ calls, QTree.Inv tree calls) →
      (∃ leaf, tree.getQTNode pos.x pos.y = some leaf) →
      (∀ x y leaf, s.tree.getQTNode x y = some leaf → tree.getQTNode x y = some leaf) →
      ({ s with tiles := Function.update s.tiles pos true, tree := tree } : World).Sound := by
    intro tree htree hleaf hkeeps
    refine ⟨htree, fun pos' hpos' => ?_, fun c pos' hplaced => ?_, h.unplaced, ?_, fun w hw => ?_⟩
    · by_cases hsame : pos' = pos
      · subst hsame
        exact ⟨Int.lt_of_not_ge hpos, hleaf⟩
      · have hold : s.tiles pos' = true := (Function.update_of_ne hsame ..).symm.trans hpos'
        obtain ⟨hlayer, leaf, hleaf'⟩ := h.tiles pos' hold
        exact ⟨hlayer, leaf, hkeeps _ _ _ hleaf'⟩
    · by_cases hsame : pos' = pos
      · rw [hsame]
        exact Function.update_self ..
      · refine (Function.update_of_ne hsame ..).trans (h.onTile c pos' ?_)
        exact ⟨hplaced.parent, hplaced.removed, hplaced.dead⟩
    · refine Lists.congr (s := { s with tiles := Function.update s.tiles pos true, tree := tree })
        ⟨h.lists.creatures, h.lists.players⟩ fun c => ?_
      cases hold : s.leafOf c with
      | some leaf =>
        obtain ⟨pos', hplaced, hleaf'⟩ := leafOf_eq_some.1 hold
        exact leafOf_eq_some.2 ⟨pos', ⟨hplaced.parent, hplaced.removed, hplaced.dead⟩,
          hkeeps _ _ _ hleaf'⟩
      | none =>
        refine Option.eq_none_iff_forall_ne_some.2 fun leaf hnew => ?_
        obtain ⟨pos', hplaced, -⟩ := leafOf_eq_some.1 hnew
        have hplaced' : s.Placed c pos' := ⟨hplaced.parent, hplaced.removed, hplaced.dead⟩
        obtain ⟨-, leaf', hleaf'⟩ := h.tiles pos' (h.onTile c pos' hplaced')
        exact absurd (hold.symm.trans (leafOf_eq_some.2 ⟨pos', hplaced', hleaf'⟩))
          (Option.some_ne_none leaf').symm
    · refine h.cache w fun x => (hw x).trans ?_
      exact lives_iff (by rfl) (by rfl) (by rfl) (by rfl) x
  obtain ⟨calls, htree⟩ := h.tree
  cases hleaf : s.tree.getQTNode pos.x pos.y with
  | some leaf => exact ⟨_, rfl, hset s.tree ⟨calls, htree⟩ ⟨leaf, hleaf⟩ fun _ _ _ hold => hold⟩
  | none =>
    obtain ⟨tree, id, hbest, hinv, hid, hkeeps⟩ := getQTNode_getBestLeaf htree pos hleaf
    rw [hbest]
    exact ⟨_, rfl, hset tree ⟨_, hinv⟩ ⟨id, hid⟩ hkeeps⟩

end Steps

/-! ## What is found -/

section Find

variable {w : Placement}

/-- The creatures on the map are those in the lists of the leaves. -/
theorem Sound.exists_placement (h : s.Sound) :
    ∃ w : Placement, ∀ x, x ∈ w.creatures ↔ s.Lives x := by
  obtain ⟨calls, htree⟩ := h.tree
  have hcreature : ∀ {c pos}, s.Placed c pos → s.creature c = ⟨c, pos, s.isPlayer c⟩ := by
    intro c pos hplaced
    rw [creature, hplaced.parent]
    rfl
  have hmem : ∀ x, x ∈ ((List.range s.tree.created).flatMap s.creatureList).map s.creature ↔
      s.Lives x := by
    intro x
    rw [List.mem_map]
    constructor
    · rintro ⟨c, hc, rfl⟩
      obtain ⟨leaf, -, hleaf⟩ := List.mem_flatMap.1 hc
      obtain ⟨pos, hplaced, -⟩ := leafOf_eq_some.1 ((h.lists.creatures.mem_iff leaf c).1 hleaf)
      rw [hcreature hplaced]
      exact ⟨hplaced, rfl⟩
    · intro hx
      obtain ⟨-, leaf, hleaf⟩ := h.tiles x.position (h.onTile x.id x.position hx.placed)
      have hlt : leaf < s.tree.created := by
        rw [htree.getQTNode] at hleaf
        exact htree.lt_created _ _ _ hleaf
      refine ⟨x.id, List.mem_flatMap.2 ⟨leaf, List.mem_range.2 hlt, ?_⟩, ?_⟩
      · exact (h.lists.creatures.mem_iff leaf x.id).2
          (leafOf_eq_some.2 ⟨x.position, hx.placed, hleaf⟩)
      · rw [hcreature hx.placed, ← hx.isPlayer]
  exact ⟨⟨_, fun x hx => (h.tiles _ (h.onTile _ _ ((hmem x).1 hx).placed)).1⟩, hmem⟩

/-- The list of a leaf. -/
theorem Sound.mem_list (h : s.Sound) {onlyPlayers : Bool} {c : ℕ} {leaf : LeafId} :
    c ∈ (if onlyPlayers then s.playerList leaf else s.creatureList leaf) ↔
      s.leafOf c = some leaf ∧ (onlyPlayers → s.isPlayer c) := by
  cases onlyPlayers with
  | true =>
    rw [if_pos rfl, h.lists.players.mem_iff]
    cases hplayer : s.isPlayer c with
    | true => exact ⟨fun heq => ⟨heq, fun _ => rfl⟩, And.left⟩
    | false =>
      exact ⟨fun heq => absurd heq.symm (Option.some_ne_none leaf), fun hand => absurd (hand.2 rfl)
        Bool.false_ne_true⟩
  | false =>
    rw [if_neg Bool.false_ne_true, h.lists.creatures.mem_iff]
    exact ⟨fun heq => ⟨heq, fun hp => absurd hp Bool.false_ne_true⟩, And.left⟩

/-- The scan along the leaves finds what a scan of the creatures block by block finds. -/
theorem Sound.mem_scan (h : s.Sound) (hw : ∀ x, x ∈ w.creatures ↔ s.Lives x) {center : Position}
    {multifloor onlyPlayers : Bool} {r : Range} {x : Creature} :
    x ∈ s.scan center multifloor onlyPlayers r ↔
      x ∈ Spectators.scan w center multifloor onlyPlayers r := by
  obtain ⟨calls, htree⟩ := h.tree
  constructor
  · intro hx
    rw [World.scan, List.mem_flatMap] at hx
    obtain ⟨leaf, -, hx⟩ := hx
    obtain ⟨hx, hspotted⟩ := List.mem_filter.1 hx
    obtain ⟨c, hc, rfl⟩ := List.mem_map.1 hx
    obtain ⟨hleaf, hplayer⟩ := h.mem_list.1 hc
    obtain ⟨pos, hplaced, -⟩ := leafOf_eq_some.1 hleaf
    have hcreature : s.creature c = ⟨c, pos, s.isPlayer c⟩ := by
      rw [creature, hplaced.parent]
      rfl
    refine Spectators.mem_scan.2 ⟨(hw _).2 ?_, hplayer, hspotted⟩
    rw [hcreature]
    exact ⟨hplaced, rfl⟩
  · intro hx
    obtain ⟨hlives, hplayer, hspotted⟩ := Spectators.mem_scan.1 hx
    have hlives := (hw x).1 hlives
    -- The block of the creature is one of those scanned, and has a leaf.
    rw [Spectators.scan, List.mem_flatMap] at hx
    obtain ⟨ny, hny, hx⟩ := hx
    obtain ⟨nx, hnx, hx⟩ := List.mem_flatMap.1 hx
    rw [Placement.leafList] at hx
    obtain ⟨hx, -⟩ := List.mem_filter.1 hx
    obtain ⟨-, hblock⟩ := List.mem_filter.1 hx
    obtain ⟨hblockX, hblockY, -⟩ := of_decide_eq_true hblock
    obtain ⟨-, leaf, hleaf⟩ := h.tiles x.position (h.onTile x.id x.position hlives.placed)
    have hsame : s.tree.getQTNode (UInt16.ofNat nx) (UInt16.ofNat ny) = some leaf := by
      have hX := x.position.x.toNat_lt
      have hY := x.position.y.toNat_lt
      rw [FLOOR_SIZE] at hblockX hblockY
      rw [htree.getQTNode] at hleaf ⊢
      rw [← hleaf]
      refine QTreeNode.getLeaf_congr htree.uniform ?_ ?_
      · rw [QTree.block_ofNat, QTree.block_toUInt32, FLOOR_SIZE]
        omega
      · rw [QTree.block_ofNat, QTree.block_toUInt32, FLOOR_SIZE]
        omega
    rw [World.scan, List.mem_flatMap]
    refine ⟨leaf, ?_, List.mem_filter.2 ⟨List.mem_map.2 ⟨x.id, ?_, ?_⟩, hspotted⟩⟩
    · rw [htree.leafWalk_eq]
      exact List.mem_flatMap.2 ⟨ny, hny, List.mem_filterMap.2 ⟨nx, hnx, hsame⟩⟩
    · refine h.mem_list.2 ⟨leafOf_eq_some.2 ⟨x.position, hlives.placed, hleaf⟩, fun hp => ?_⟩
      rw [← hlives.isPlayer]
      exact hplayer hp
    · rw [creature, hlives.placed.parent, Option.getD_some, ← hlives.isPlayer]

theorem floorNow_eq {d : FloorData} (hd : ∀ b l, d.list b = some l → s.listNow l = l) :
    s.floorNow d = d := by
  have hopt : ∀ o : Option (List Creature), (∀ l, o = some l → s.listNow l = l) →
      o.map s.listNow = o := by
    intro o ho
    cases o with
    | none => rfl
    | some l => exact congrArg some (ho l rfl)
  rw [floorNow, hopt d.floor fun l hl => hd false l hl, hopt d.multiFloor fun l hl => hd true l hl]

/-- What is in the cache is as it is now. -/
theorem Sound.now_eq (h : s.Sound) {center : Position} {c : SpectatorsCache}
    (hc : s.spectators.cache.lookup center = some c) : s.now c = c := by
  obtain ⟨w, hw⟩ := h.exists_placement
  have hlist : ∀ (m : Mode) (l : List Creature), c.list m = some l → s.listNow l = l := by
    intro m l hl
    obtain ⟨r, -, hmem⟩ := h.cache w hw center c m l hc hl
    refine (List.map_congr_left fun x hx => ?_).trans (List.map_id l)
    have hlives := (hw x).1 (Spectators.mem_scan.1 ((hmem x).1 hx)).1
    rw [creature, hlives.placed.parent, Option.getD_some, ← hlives.isPlayer]
    rfl
  rw [now, floorNow_eq fun b l hl => hlist ⟨b, false⟩ l hl,
    floorNow_eq fun b l hl => hlist ⟨b, true⟩ l hl]

/-- A list is filled with what a scan finds, in whatever order. -/
theorem inv_fill {t : Spectators.State} (ht : Spectators.Inv w t) {q : Query} {l : List Creature}
    (hl : ∀ x, x ∈ l ↔ x ∈ Spectators.scan w q.center q.multifloor q.onlyPlayers
      (scanRange (t.cache.lookup q.center) q)) :
    Spectators.Inv w
      { cache := t.cache.insert q.center
          ((widened (t.cache.lookup q.center) q).setList q.multifloor q.onlyPlayers l)
        filled := fun center m =>
          if center = q.center ∧ m = ⟨q.multifloor, q.onlyPlayers⟩ then
            some (scanRange (t.cache.lookup q.center) q)
          else t.filled center m } := by
  intro center c m l' hc hl'
  dsimp only at hc ⊢
  by_cases hcenter : center = q.center
  · subst hcenter
    rw [AList.lookup_insert, Option.some.injEq] at hc
    rw [← hc, list_setList, list_widened] at hl'
    by_cases hm : m = ⟨q.multifloor, q.onlyPlayers⟩
    · -- The list filled just now.
      rw [if_pos hm, Option.some.injEq] at hl'
      refine ⟨_, if_pos ⟨rfl, hm⟩, fun x => ?_⟩
      rw [← hl', hm]
      exact hl x
    · rw [if_neg hm] at hl'
      obtain ⟨c', hc', hold⟩ := Option.bind_eq_some_iff.1 hl'
      rw [if_neg fun hand => hm hand.2]
      exact ht _ c' m l' hc' hold
  · rw [AList.lookup_insert_ne hcenter] at hc
    rw [if_neg fun hand => hcenter hand.1]
    exact ht center c m l' hc hl'

/-- A search finds what it would find on a plain list of the creatures, with the same cache. -/
theorem Sound.find_eq (h : s.Sound) (hw : ∀ x, x ∈ w.creatures ↔ s.Lives x) (q : Query) :
    (s.find q).1 = (Spectators.find w s.spectators.cache q).1 ∧ (s.find q).2.Sound := by
  have hentry : (s.spectators.cache.lookup q.center).map s.now =
      s.spectators.cache.lookup q.center := by
    cases hc : s.spectators.cache.lookup q.center with
    | none => rfl
    | some c => exact congrArg some (h.now_eq hc)
  rw [World.find, Spectators.find, hentry]
  dsimp only
  cases (s.spectators.cache.lookup q.center).bind fun c => c.answer q with
  | some l => exact ⟨rfl, h⟩
  | none =>
    refine ⟨Finset.ext fun x => ?_, h.tree, h.tiles, ?_, h.unplaced, ?_, fun w' hw' => ?_⟩
    · rw [List.mem_toFinset, List.mem_toFinset]
      exact h.mem_scan hw
    · exact fun c pos hplaced => h.onTile c pos ⟨hplaced.parent, hplaced.removed, hplaced.dead⟩
    · exact ⟨h.lists.creatures, h.lists.players⟩
    · have hlives : ∀ x, x ∈ w'.creatures ↔ s.Lives x := by
        intro x
        rw [hw']
        exact lives_iff (by rfl) (by rfl) (by rfl) (by rfl) x
      exact inv_fill (h.cache w' hlives) fun x => h.mem_scan hlives

end Find

/-! ## Runs -/

theorem sound_start (isPlayer : ℕ → Bool) : (start isPlayer).Sound where
  tree := ⟨[], QTree.inv_empty⟩
  tiles pos hpos := absurd hpos Bool.false_ne_true
  onTile c pos hplaced := absurd hplaced.parent.symm (Option.some_ne_none pos)
  unplaced _ _ := ⟨rfl, rfl⟩
  lists := by
    refine ⟨filed_nil, filed_nil.congr fun c => ?_⟩
    rw [leafOf]
    exact ite_self none
  cache w _ := inv_empty w

/-- Whatever the callers may do is done: no leaf is missing, and no creature is looked for in a
    list in vain. -/
theorem Sound.next (h : s.Sound) {a : Event} (ha : s.permits a = true) :
    ∃ s', s.next a = some s' ∧ s'.Sound := by
  cases a with
  | setTile pos => exact h.setTile pos
  | place c dest =>
    obtain ⟨hnew, hdest⟩ := Bool.and_eq_true_iff.1 ha
    have hparent := Option.isNone_iff_eq_none.1 hnew
    obtain ⟨hremoved, hdead⟩ := h.unplaced c hparent
    have hgone : s.leafOf c = none := by
      rw [leafOf, hparent, Option.bind_none, ite_self]
    have halive : s.dead = Function.update s.dead c false := by
      rw [← hdead, Function.update_eq_self]
    have hplace := h.placeCreature hgone hremoved hdest
    rwa [← halive] at hplace
  | move c newPos =>
    obtain ⟨honMap, hdest⟩ := Bool.and_eq_true_iff.1 ha
    obtain ⟨pos, hplaced⟩ := exists_placed honMap
    exact h.moveCreature hplaced hdest
  | remove c =>
    obtain ⟨pos, hplaced⟩ := exists_placed ha
    obtain ⟨s₁, hs₁, hsound, -⟩ := h.tileRemoveCreature hplaced
    exact ⟨_, by rw [World.next, removeCreature, hs₁]; rfl, hsound⟩
  | despawn c =>
    obtain ⟨pos, hplaced⟩ := exists_placed (Bool.and_eq_true_iff.1 ha).2
    obtain ⟨s₁, hs₁, -, hsound⟩ := h.tileRemoveCreature hplaced
    exact ⟨_, by rw [World.next, World.despawn, hs₁]; rfl, hsound⟩
  | spawn c dest =>
    obtain ⟨hback, hdest⟩ := Bool.and_eq_true_iff.1 ha
    obtain ⟨hdead, hremoved⟩ := Bool.and_eq_true_iff.1 hback
    have hgone : s.leafOf c = none := by
      rw [leafOf, hdead, Bool.or_true, if_pos rfl]
    exact h.placeCreature hgone (by simpa using hremoved) hdest
  | find q =>
    obtain ⟨w, hw⟩ := h.exists_placement
    exact ⟨_, rfl, (h.find_eq hw q).2⟩

theorem sound_of_reachable (hs : Reachable s) : s.Sound := by
  refine hs.invariant (I := Sound) ?_ ?_
  · rintro s₀ ⟨isPlayer, rfl⟩
    exact sound_start isPlayer
  · intro s₁ a s₂ h₁ ha hnext
    obtain ⟨s', hs', hsound⟩ := h₁.next ha
    rwa [Option.some.inj (hnext.symm.trans hs')]

/-- What the lists of the leaves are for. -/
structure Exact (s : World) : Prop where
  /-- The leaf of each tile is there. -/
  leaf : ∀ pos, s.tiles pos = true → ∃ leaf, s.tree.getQTNode pos.x pos.y = some leaf
  mem_creatureList : ∀ leaf c, c ∈ s.creatureList leaf ↔
    ∃ pos, s.Placed c pos ∧ s.tree.getQTNode pos.x pos.y = some leaf
  mem_playerList : ∀ leaf c, c ∈ s.playerList leaf ↔ c ∈ s.creatureList leaf ∧ s.isPlayer c = true
  nodup_creatureList : ∀ leaf, (s.creatureList leaf).Nodup
  nodup_playerList : ∀ leaf, (s.playerList leaf).Nodup

/-- In every run the lists are exact, and each step that the callers may take can be taken. -/
theorem exact_of_reachable (hs : Reachable s) :
    s.Exact ∧ ∀ a, s.permits a = true → (s.next a).isSome = true := by
  have h := sound_of_reachable hs
  refine ⟨⟨fun pos hpos => (h.tiles pos hpos).2, fun leaf c => ?_, fun leaf c => ?_,
    h.lists.creatures.nodup, h.lists.players.nodup⟩, fun a ha => ?_⟩
  · rw [h.lists.creatures.mem_iff, leafOf_eq_some]
  · have hplayers : c ∈ (if true = true then s.playerList leaf else s.creatureList leaf) ↔
        s.leafOf c = some leaf ∧ (true = true → s.isPlayer c) := h.mem_list
    rw [if_pos rfl] at hplayers
    rw [hplayers, h.lists.creatures.mem_iff]
    exact and_congr_right fun _ => ⟨fun hp => hp rfl, fun hp _ => hp⟩
  · obtain ⟨s', hs', -⟩ := h.next ha
    rw [hs']
    rfl

/-- Two creatures are placed on a square, and one of them moves on, to another leaf. -/
def firstEvents : List Event :=
  [.setTile ⟨100, 100, 7⟩, .setTile ⟨110, 100, 7⟩, .place 1 ⟨100, 100, 7⟩, .place 2 ⟨100, 100, 7⟩,
    .find ⟨⟨100, 100, 7⟩, true, false, 0, 0, 0, 0⟩, .move 1 ⟨110, 100, 7⟩]

/-- What comes of the events, each of which the callers may take. -/
def runOf (l : List Event) : Option World :=
  l.foldlM (fun s a => if s.permits a = true then s.next a else none) (start fun c => c == 1)

theorem reachable_runOf {l : List Event} (hl : runOf l = some s) : Reachable s :=
  System.reachableVia_of_foldlM (.init ⟨_, rfl⟩) hl

theorem exact_after_move : ∃ s, runOf firstEvents = some s ∧
    s.creatureList 0 = [2] ∧ s.creatureList 1 = [1] ∧ s.playerList 1 = [1] ∧
    s.Exact ∧ ∀ a, s.permits a = true → (s.next a).isSome = true := by
  obtain ⟨s, hs⟩ := Option.isSome_iff_exists.1 (show (runOf firstEvents).isSome = true by decide)
  have hlists : (runOf firstEvents).map (fun s => (s.creatureList 0, s.creatureList 1,
      s.playerList 1)) = some ([2], [1], [1]) := by decide
  rw [hs] at hlists
  obtain ⟨h₀, h₁⟩ := Prod.ext_iff.1 (Option.some.inj hlists)
  obtain ⟨h₁, h₂⟩ := Prod.ext_iff.1 h₁
  exact ⟨s, hs, h₀, h₁, h₂, exact_of_reachable (reachable_runOf hs)⟩

/-- In every run, a search that is safe finds the creatures that are in its range now, and no
    others. -/
theorem mem_find_of_reachable (hs : Reachable s) {q : Query} (hq : Safe s.spectators q)
    (x : Creature) :
    x ∈ (s.find q).1 ↔ s.Placed x.id x.position ∧ x.isPlayer = s.isPlayer x.id ∧
      (q.onlyPlayers → x.isPlayer) ∧ spotted q.center q.multifloor q.range x = true := by
  have h := sound_of_reachable hs
  obtain ⟨w, hw⟩ := h.exists_placement
  rw [(h.find_eq hw q).1, (h.cache w hw).find_eq hq, find_empty, List.mem_toFinset,
    Spectators.mem_scan, hw]
  constructor
  · rintro ⟨hlives, hplayer, hspotted⟩
    exact ⟨hlives.placed, hlives.isPlayer, hplayer, hspotted⟩
  · rintro ⟨hplaced, hisPlayer, hplayer, hspotted⟩
    exact ⟨⟨hplaced, hisPlayer⟩, hplayer, hspotted⟩

/-- The cache knew the player on the square that it left, and was cleared: it is found where it
    is now. -/
theorem mem_find_after_move : ∃ s, runOf firstEvents = some s ∧
    (⟨1, ⟨110, 100, 7⟩, true⟩ : Creature) ∈
      (s.find ⟨⟨100, 100, 7⟩, true, false, 0, 0, 0, 0⟩).1 := by
  obtain ⟨s, hs⟩ := Option.isSome_iff_exists.1 (show (runOf firstEvents).isSome = true by decide)
  have hplayer : (runOf firstEvents).map (fun s =>
      ((s.spectators.cache.lookup ⟨100, 100, 7⟩).isNone, s.parent 1, s.removed 1, s.dead 1,
        s.isPlayer 1)) = some (true, some ⟨110, 100, 7⟩, false, false, true) := by decide
  rw [hs] at hplayer
  obtain ⟨hcleared, hplayer⟩ := Prod.ext_iff.1 (Option.some.inj hplayer)
  obtain ⟨hparent, hplayer⟩ := Prod.ext_iff.1 hplayer
  obtain ⟨hremoved, hplayer⟩ := Prod.ext_iff.1 hplayer
  obtain ⟨hdead, hisPlayer⟩ := Prod.ext_iff.1 hplayer
  have hsafe : Safe s.spectators ⟨⟨100, 100, 7⟩, true, false, 0, 0, 0, 0⟩ := fun c hc =>
    absurd ((Option.isNone_iff_eq_none.1 hcleared).symm.trans hc) (Option.some_ne_none c).symm
  exact ⟨s, hs, (mem_find_of_reachable (reachable_runOf hs) hsafe _).2
    ⟨⟨hparent, hremoved, hdead⟩, hisPlayer.symm, fun _ => rfl, by decide⟩⟩

end World

end Canary.Map.Population
