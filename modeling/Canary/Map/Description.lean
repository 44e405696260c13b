import Canary.Map.Spectators
import Canary.Tiles.Description

/-!
# Map descriptions

A description of a part of the map goes through its floors, and through the positions of each, and
writes the tile of every position that has one. Positions without a tile are counted, and written
as one marker, their number and 0xFF, before the next tile, at the end, or when the number is as
high as a byte can be.

The client reads a marker behind a tile as the number of positions without one that follow, and
where a tile should start as one more (`decode`). It so finds the tiles at their positions, and
reads the message to its end (`decode_getMapDescription`). But of a tile on which there is nothing
to see, nothing is written: the client takes it for none.
-/

namespace Canary.Map

open Tiles (Tile Thing Viewer)

/-! ## Writing -/

/-- What is written: a marker, or a tile. -/
inductive Emitted
  | skip (skip : ℤ)
  | tile (description : List UInt8)

/-- `addByte` keeps the lowest byte. -/
def Emitted.bytes : Emitted → List UInt8
  | .skip k => [UInt8.ofNat (k % 256).toNat, 0xFF]
  | .tile description => description

/-- The protocol of a player, who looks at a map. -/
structure ProtocolGame (σ : Type) where
  oldProtocol : Bool
  player : ℕ
  position : Position
  canSeeCreature : ℕ → Bool
  /-- `AddItem` and `AddCreature`, with a record of the creatures that the client knows. -/
  write : σ → Thing → List UInt8 × σ
  getTile : Position → Option Tile

namespace ProtocolGame

variable {σ : Type} (p : ProtocolGame σ)

def writeThings : σ → List Thing → List UInt8 × σ
  | known, [] => ([], known)
  | known, thing :: l =>
    let (bytes, known) := p.write known thing
    let (rest, known) := writeThings known l
    (bytes ++ rest, known)

/-- `GetTileDescription`, of the tile at a position. -/
def getTileDescription (known : σ) (pos : Position) (tile : Tile) : List UInt8 × σ :=
  let viewer : Viewer := { player := p.player, own := pos = p.position,
                           canSeeCreature := p.canSeeCreature }
  let (bytes, known) := p.writeThings known (tile.getTileDescription viewer)
  ((if p.oldProtocol then [0, 0] else []) ++ bytes, known)

/-- A message that is being written, and the positions without a tile so far. -/
structure Writer (σ : Type) where
  msg : List Emitted
  skip : ℤ
  known : σ

def addPosition (w : Writer σ) (pos : Position) : Writer σ :=
  match p.getTile pos with
  | some tile =>
    let msg := if w.skip ≥ 0 then w.msg ++ [.skip w.skip] else w.msg
    let (description, known) := p.getTileDescription w.known pos tile
    { msg := msg ++ [.tile description], skip := 0, known := known }
  | none =>
    if w.skip = 0xFE then { w with msg := w.msg ++ [.skip 0xFF], skip := -1 }
    else { w with skip := w.skip + 1 }

/-- The coordinates are cast to those of a position. -/
def castPosition (x y z : ℤ) : Position :=
  ⟨UInt16.ofNat (x % 2 ^ 16).toNat, UInt16.ofNat (y % 2 ^ 16).toNat, UInt8.ofNat (z % 2 ^ 8).toNat⟩

def getFloorDescription (w : Writer σ) (x y z : ℤ) (width height : ℕ) (offset : ℤ) : Writer σ :=
  (List.range width).foldl (fun w nx =>
    (List.range height).foldl (fun w ny =>
      p.addPosition w (castPosition (x + nx + offset) (y + ny + offset) z)) w) w

/-- The floors that are seen from `z`, in order: from two above to two below, if `z` is below the
    surface, else from the surface up. -/
def floors (z : ℤ) : List ℤ :=
  if z > MAP_INIT_SURFACE_LAYER then
    let startz := z - MAP_LAYER_VIEW_LIMIT
    let endz := min (MAP_MAX_LAYERS - 1) (z + MAP_LAYER_VIEW_LIMIT)
    (List.range (endz - startz + 1).toNat).map (startz + ·)
  else (List.range (MAP_INIT_SURFACE_LAYER + 1).toNat).map (MAP_INIT_SURFACE_LAYER - ·)

def getMapDescription (known : σ) (x y z : ℤ) (width height : ℕ) : List Emitted :=
  let w := (floors z).foldl (fun w nz => p.getFloorDescription w x y nz width height (z - nz))
    { msg := [], skip := -1, known := known }
  if w.skip ≥ 0 then w.msg ++ [.skip w.skip] else w.msg

/-- The message. -/
def mapBytes (known : σ) (x y z : ℤ) (width height : ℕ) : List UInt8 :=
  (p.getMapDescription known x y z width height).flatMap Emitted.bytes

/-! ## What there is to write -/

/-- The positions, in the order in which they are visited. -/
def positions (x y z : ℤ) (width height : ℕ) : List Position :=
  (floors z).flatMap fun nz => (List.range width).flatMap fun nx =>
    (List.range height).map fun ny => castPosition (x + nx + (z - nz)) (y + ny + (z - nz)) nz

/-- The descriptions of the tiles, at the positions that have one. -/
def layout : σ → List Position → List (Option (List UInt8))
  | _, [] => []
  | known, pos :: l =>
    match p.getTile pos with
    | some tile =>
      some (p.getTileDescription known pos tile).1 ::
        layout (p.getTileDescription known pos tile).2 l
    | none => none :: layout known l

end ProtocolGame

/-- What is written from here on, with so many positions without a tile before. -/
def emit : ℤ → List (Option (List UInt8)) → List Emitted
  | skip, [] => if skip ≥ 0 then [.skip skip] else []
  | skip, some description :: l =>
    (if skip ≥ 0 then [.skip skip] else []) ++ .tile description :: emit 0 l
  | skip, none :: l => if skip = 0xFE then .skip 0xFF :: emit (-1) l else emit (skip + 1) l

/-! ## Reading -/

/-- A marker at the start. -/
def marker : List UInt8 → Option (ℕ × List UInt8)
  | k :: b :: rest => if b = 0xFF then some (k.toNat, rest) else none
  | _ => none

/-- The client goes through so many positions, the first `skip` of them without a tile. `readTile`
    reads the description of a tile, up to the marker behind it. -/
def decode (readTile : List UInt8 → Option (List UInt8 × List UInt8)) :
    ℕ → ℕ → List UInt8 → Option (List (Option (List UInt8)))
  | 0, _, stream => if stream = [] then some [] else none
  | n + 1, skip + 1, stream => (decode readTile n skip stream).map (none :: ·)
  | n + 1, 0, stream =>
    match marker stream with
    | some (skip, rest) => (decode readTile n skip rest).map (none :: ·)
    | none =>
      match readTile stream with
      | none => none
      | some (description, rest) =>
        match marker rest with
        | none => none
        | some (skip, rest) => (decode readTile n skip rest).map (some description :: ·)

section

variable {readTile : List UInt8 → Option (List UInt8 × List UInt8)}
  {l : List (Option (List UInt8))}

/-- The client can tell where the description of a tile ends: it does not take it for a marker,
    and reads it up to a marker. Or there is none. -/
def Readable (readTile : List UInt8 → Option (List UInt8 × List UInt8))
    (description : List UInt8) : Prop :=
  description = [] ∨ ∀ k rest, marker (description ++ k :: 0xFF :: rest) = none ∧
    readTile (description ++ k :: 0xFF :: rest) = some (description, k :: 0xFF :: rest)

/-- What the client sees: a tile that has a description. -/
def view (l : List (Option (List UInt8))) : List (Option (List UInt8)) :=
  l.map (Option.filter (· ≠ []))

theorem marker_cons {k : UInt8} {rest : List UInt8} :
    marker (k :: 0xFF :: rest) = some (k.toNat, rest) := rfl

theorem bytes_tile {description : List UInt8} :
    (Emitted.tile description).bytes = description := rfl

theorem bytes_skip {k : ℤ} (h₀ : 0 ≤ k) (h₁ : k ≤ 255) :
    ∃ b : UInt8, (Emitted.skip k).bytes = [b, 0xFF] ∧ b.toNat = k.toNat := by
  refine ⟨_, rfl, ?_⟩
  rw [UInt8.toNat_ofNat']
  omega

/-- A tile is read with the marker behind it. -/
theorem decode_tile {description : List UInt8} (hread : Readable readTile description) {b : UInt8}
    {rest : List UInt8} (hrest : decode readTile l.length b.toNat rest = some (view l)) :
    decode readTile (l.length + 1) 0 (description ++ b :: 0xFF :: rest) =
      some (view (some description :: l)) := by
  rcases hread with rfl | hread
  · rw [List.nil_append, decode, marker_cons]
    simp [hrest, view, Option.filter]
  · obtain ⟨hmarker, hread⟩ := hread b rest
    have hne : description ≠ [] := by
      rintro rfl
      exact absurd hmarker (by simp [marker])
    rw [decode, hmarker, hread]
    simp [marker_cons, hrest, view, Option.filter, hne]

/-- Before a marker is due, the stream is what the client expects at the start of a tile. While
    one is, the stream starts with it: its number counts the positions so far, and the client
    goes on behind them. -/
theorem decode_emit (hread : ∀ description, some description ∈ l → Readable readTile description) :
    decode readTile l.length 0 ((emit (-1) l).flatMap Emitted.bytes) = some (view l) ∧
      ∀ skip : ℕ, skip ≤ 0xFE → ∃ (b : UInt8) (rest : List UInt8),
        (emit skip l).flatMap Emitted.bytes = b :: 0xFF :: rest ∧ skip ≤ b.toNat ∧
          decode readTile l.length (b.toNat - skip) rest = some (view l) := by
  induction l with
  | nil =>
    refine ⟨rfl, fun skip hskip => ?_⟩
    obtain ⟨b, hb, hb'⟩ := bytes_skip (k := skip) (by omega) (by omega)
    exact ⟨b, [], by simp [emit, hb], by omega, rfl⟩
  | cons tile l ih =>
    obtain ⟨ihstart, ihskip⟩ := ih fun d hd => hread d (List.mem_cons_of_mem _ hd)
    cases tile with
    | some description =>
      have hd := hread description List.mem_cons_self
      -- The tile is written behind the marker that was due, and another one is due behind it.
      obtain ⟨b, rest, hbytes, -, hrest⟩ := ihskip 0 (by omega)
      have htile := decode_tile hd (Nat.sub_zero b.toNat ▸ hrest)
      rw [← hbytes] at htile
      refine ⟨by simpa [emit, bytes_tile] using htile, fun skip hskip => ?_⟩
      obtain ⟨b', hb, hb'⟩ := bytes_skip (k := skip) (by omega) (by omega)
      refine ⟨b', description ++ (emit 0 l).flatMap Emitted.bytes, ?_, by omega, ?_⟩
      · simp [emit, hb, bytes_tile]
      · rw [show b'.toNat - skip = 0 by omega]
        exact htile
    | none =>
      constructor
      · obtain ⟨b, rest, hbytes, -, hrest⟩ := ihskip 0 (by omega)
        rw [show emit (-1) (none :: l) = emit ((0 : ℕ) : ℤ) l by simp [emit], hbytes,
          List.length_cons, decode, marker_cons]
        simp [show decode readTile l.length b.toNat rest = _ from Nat.sub_zero b.toNat ▸ hrest,
          view]
      · intro skip hskip
        -- After 255 positions a marker is written, and the count begins anew.
        rcases eq_or_ne skip 0xFE with rfl | hne
        · refine ⟨0xFF, (emit (-1) l).flatMap Emitted.bytes, rfl, by decide, ?_⟩
          simp [decode, ihstart, view]
        · obtain ⟨b, rest, hbytes, hle, hrest⟩ := ihskip (skip + 1) (by omega)
          refine ⟨b, rest, ?_, by omega, ?_⟩
          · rw [← hbytes, emit, if_neg (by omega)]
            rfl
          · rw [show b.toNat - skip = b.toNat - (skip + 1) + 1 by omega, List.length_cons, decode,
              hrest]
            rfl

/-- The number of a marker fits in a byte. -/
theorem skip_mem_emit {skip k : ℤ} (h₀ : -1 ≤ skip) (h₁ : skip ≤ 0xFE)
    (h : Emitted.skip k ∈ emit skip l) : 0 ≤ k ∧ k ≤ 255 := by
  induction l generalizing skip with
  | nil =>
    rw [emit] at h
    split_ifs at h with hs
    · simp at h
      omega
    · exact nomatch h
  | cons tile l ih =>
    cases tile with
    | some description =>
      rw [emit] at h
      split_ifs at h with hs
      · simp at h
        rcases h with h | h
        · omega
        · exact ih (by omega) (by omega) h
      · simp at h
        exact ih (by omega) (by omega) h
    | none =>
      rw [emit] at h
      split_ifs at h with hs
      · rcases List.mem_cons.1 h with h | h
        · cases h
          omega
        · exact ih (by omega) (by omega) h
      · exact ih (by omega) (by omega) h

end

/-! ## The message of a map -/

namespace ProtocolGame

variable {σ : Type} {p : ProtocolGame σ}

/-- What has been written, and what will be. -/
theorem foldl_addPosition (l : List Position) (w : Writer σ) :
    (let w' := l.foldl p.addPosition w
      if w'.skip ≥ 0 then w'.msg ++ [.skip w'.skip] else w'.msg) =
      w.msg ++ emit w.skip (p.layout w.known l) := by
  induction l generalizing w with
  | nil => by_cases h : w.skip ≥ 0 <;> simp [layout, emit, h]
  | cons pos l ih =>
    rw [List.foldl_cons, ih, addPosition, layout]
    cases p.getTile pos with
    | some tile =>
      simp only [emit]
      split_ifs <;> simp
    | none =>
      simp only [emit]
      split_ifs <;> simp

theorem getMapDescription_eq {known : σ} {x y z : ℤ} {width height : ℕ} :
    p.getMapDescription known x y z width height =
      emit (-1) (p.layout known (positions x y z width height)) := by
  have h := foldl_addPosition (p := p) (positions x y z width height)
    { msg := [], skip := -1, known := known }
  rw [positions, List.foldl_flatMap] at h
  simp only [List.foldl_flatMap, List.foldl_map] at h
  exact h

theorem length_layout (known : σ) (l : List Position) : (p.layout known l).length = l.length := by
  induction l generalizing known with
  | nil => rfl
  | cons pos l ih =>
    rw [layout]
    cases p.getTile pos <;> exact congrArg (· + 1) (ih _)

/-- The client finds the tiles that have a description at their positions, and reads the message
    to its end. Every marker fits in a byte. -/
theorem decode_getMapDescription (known : σ) (x y z : ℤ) (width height : ℕ)
    {readTile : List UInt8 → Option (List UInt8 × List UInt8)}
    (hread : ∀ description,
      some description ∈ p.layout known (positions x y z width height) →
        Readable readTile description) :
    decode readTile (positions x y z width height).length 0
        (p.mapBytes known x y z width height) =
      some (view (p.layout known (positions x y z width height))) ∧
    ∀ k, Emitted.skip k ∈ p.getMapDescription known x y z width height → 0 ≤ k ∧ k ≤ 255 := by
  rw [mapBytes, getMapDescription_eq, ← p.length_layout known]
  exact ⟨(decode_emit hread).1, fun k hk => skip_mem_emit (by decide) (by decide) hk⟩

/-- A map with at most one tile, at (0, 0, 7). Its ground is of the type 100. -/
def oneTile (tile : Option Tile) : ProtocolGame Unit where
  oldProtocol := false
  player := 0
  position := ⟨5, 5, 7⟩
  canSeeCreature := fun _ => true
  write := fun _ _ => ([100, 0], ())
  getTile := fun pos => if pos = ⟨0, 0, 7⟩ then tile else none

/-- Items of two bytes are read up to a marker. -/
def readPlain : List UInt8 → Option (List UInt8 × List UInt8)
  | a :: b :: rest =>
    if b = 0xFF then some ([], a :: b :: rest)
    else (readPlain rest).map fun (description, rest) => (a :: b :: description, rest)
  | _ => none

/-- A player on a tile with a ground, alone. -/
def lonely : Tiles.Tile :=
  { object := fun r => { id := r }, ground := some 1, items := [], downItemCount := 0,
    creatures := [0], flags := 0 }

theorem decode_oneTile :
    decode readPlain 8 0 ((oneTile (some lonely)).mapBytes () 0 0 7 1 1) =
      some [some [100, 0, 100, 0], none, none, none, none, none, none, none] := by
  refine (decode_getMapDescription (p := oneTile (some lonely)) () 0 0 7 1 1
    (fun description hmem => ?_)).1
  have hlayout : (oneTile (some lonely)).layout () (positions 0 0 7 1 1) =
      [some [100, 0, 100, 0], none, none, none, none, none, none, none] := by decide
  rw [hlayout] at hmem
  obtain rfl : description = [100, 0, 100, 0] := by simpa using hmem
  exact .inr fun k rest => ⟨rfl, rfl⟩

/-- No client can tell a tile with nothing on it from none. -/
theorem empty_tile_like_none :
    ¬ ∃ read : List UInt8 → List Bool, ∀ p : ProtocolGame Unit,
      read (p.mapBytes () 0 0 7 1 1) =
        (positions 0 0 7 1 1).map fun pos => (p.getTile pos).isSome := by
  rintro ⟨read, h⟩
  have hnone := h (oneTile none)
  have hempty := h (oneTile (some (Tiles.Tile.empty fun r => { id := r })))
  have hbytes : (oneTile none).mapBytes () 0 0 7 1 1 =
      (oneTile (some (Tiles.Tile.empty fun r => { id := r }))).mapBytes () 0 0 7 1 1 := by decide
  rw [hbytes, hempty] at hnone
  exact absurd hnone (by decide)

end ProtocolGame

end Canary.Map
