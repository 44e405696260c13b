import Canary.Lib.Interning

/-!
# The map cache

While a map is loaded, equal items share one `BasicItem`, and equal tiles one
`BasicTile`: `staticTryGetItemFromCache` and `staticTryGetTileFromCache` look a value
up by its hash, and return the first one seen with that hash. The caches are emptied
when the map is loaded.

A hash mixes words, one after the other, into a running value: the fields of the
record that are not zero, then the text, the number of items inside, and the words
of these. How a word is mixed in is left open here (`hashCombine`); the sequence of
words is not (`BasicItem.words`). It does not say which field a word is from, so
different values may have the same words, and then the same hash whatever the mixing
is. Up to collisions of the mixing, the caches change nothing exactly if that does not
happen among the values looked up (`getAll_eq_self_iff`).
-/

namespace Canary.Map

open List Interning

/-- The characters of a `std::string`. -/
abbrev Text := List Char

structure BasicItem where
  text : Text := []
  id : UInt16 := 0
  charges : UInt16 := 0
  actionId : UInt16 := 0
  uniqueId : UInt16 := 0
  destX : UInt16 := 0
  destY : UInt16 := 0
  doorOrDepotId : UInt16 := 0
  destZ : UInt8 := 0
  items : List BasicItem := []

structure BasicTile where
  ground : Option BasicItem := none
  items : List BasicItem := []
  flags : UInt32 := 0
  houseId : UInt32 := 0
  type : UInt8 := 0
  isStatic : Bool := false

/-! ## Hashing -/

/-- What is mixed into a hash: an integer, of any width, or a text. -/
inductive Word where
  | int (v : ℕ)
  | text (s : Text)
  deriving DecidableEq

section Hash

variable {H : Type} (hashCombine : H → Word → H)

/-- Mix in the fields that are not zero. -/
def hashFields (h : H) (arr : List ℕ) : H :=
  arr.foldl (fun h v => if 0 < v then hashCombine h (.int v) else h) h

mutual

def BasicItem.hash (h : H) : BasicItem → H
  | ⟨text, id, charges, actionId, uniqueId, destX, destY, doorOrDepotId, destZ, items⟩ =>
    let h := hashFields hashCombine h [id.toNat, charges.toNat, actionId.toNat, uniqueId.toNat,
      destX.toNat, destY.toNat, destZ.toNat, doorOrDepotId.toNat]
    let h := if text = [] then h else hashCombine h (.text text)
    if items = [] then h else hashItems (hashCombine h (.int items.length)) items

def hashItems (h : H) : List BasicItem → H
  | [] => h
  | item :: items => hashItems (item.hash h) items

end

def BasicTile.hash (h : H) (t : BasicTile) : H :=
  let h := hashFields hashCombine h [t.flags.toNat, t.houseId.toNat, t.type.toNat, t.isStatic.toNat]
  let h := (t.ground.map (BasicItem.hash hashCombine h)).getD h
  if t.items = [] then h
  else hashItems hashCombine (hashCombine h (.int t.items.length)) t.items

end Hash

/-! ## The words of a value -/

/-- The words of fields. -/
def fieldWords (arr : List ℕ) : List Word := (arr.filter (0 < ·)).map .int

mutual

/-- The words mixed into the hash of an item, in order. -/
def BasicItem.words : BasicItem → List Word
  | ⟨text, id, charges, actionId, uniqueId, destX, destY, doorOrDepotId, destZ, items⟩ =>
    fieldWords [id.toNat, charges.toNat, actionId.toNat, uniqueId.toNat,
      destX.toNat, destY.toNat, destZ.toNat, doorOrDepotId.toNat] ++
    (if text = [] then [] else [.text text]) ++
    (if items = [] then [] else .int items.length :: wordsOfItems items)

/-- The words of items, one after the other. -/
def wordsOfItems : List BasicItem → List Word
  | [] => []
  | item :: items => item.words ++ wordsOfItems items

end

/-- The words mixed into the hash of a tile, in order. -/
def BasicTile.words (t : BasicTile) : List Word :=
  fieldWords [t.flags.toNat, t.houseId.toNat, t.type.toNat, t.isStatic.toNat] ++
  (t.ground.map BasicItem.words).getD [] ++
  (if t.items = [] then [] else .int t.items.length :: wordsOfItems t.items)

section Hash

variable {H : Type} {hashCombine : H → Word → H}

theorem hashFields_eq (h : H) (arr : List ℕ) :
    hashFields hashCombine h arr = (fieldWords arr).foldl hashCombine h := by
  rw [hashFields, fieldWords, foldl_map, foldl_filter]
  simp

mutual

/-- Hashing an item mixes in its words. -/
theorem BasicItem.hash_eq (h : H) :
    ∀ item : BasicItem, item.hash hashCombine h = item.words.foldl hashCombine h
  | ⟨text, id, charges, actionId, uniqueId, destX, destY, doorOrDepotId, destZ, items⟩ => by
    simp only [BasicItem.hash, BasicItem.words, foldl_append, hashFields_eq]
    have hitems := fun h => hashItems_eq h items
    split_ifs <;> simp [hitems]

theorem hashItems_eq (h : H) :
    ∀ items : List BasicItem, hashItems hashCombine h items =
      (wordsOfItems items).foldl hashCombine h
  | [] => rfl
  | item :: items => by
    rw [hashItems, wordsOfItems, foldl_append, item.hash_eq, hashItems_eq]

end

/-- Hashing a tile mixes in its words. -/
theorem BasicTile.hash_eq (h : H) (t : BasicTile) :
    t.hash hashCombine h = t.words.foldl hashCombine h := by
  simp only [hash, words, foldl_append, hashFields_eq]
  cases t.ground <;> split_ifs <;> simp [hashItems_eq, BasicItem.hash_eq]

end Hash

/-! ## The caches -/

/-- The caches `items` and `tiles`, by hash. -/
structure Cache (H : Type) where
  items : Table H BasicItem
  tiles : Table H BasicTile

/-- The caches after a flush. -/
def Cache.empty {H : Type} : Cache H := ⟨∅, ∅⟩

/-- A call: looking up an item or a tile, or a null pointer. -/
inductive Ref where
  | item (ref : Option BasicItem)
  | tile (ref : Option BasicTile)

section Cache

variable {H : Type} [DecidableEq H] (hashCombine : H → Word → H) (seed : H)

def staticTryGetItemFromCache (c : Cache H) : Option BasicItem → Option BasicItem × Cache H
  | some ref =>
    let r := tryEmplace c.items (ref.hash hashCombine seed) ref
    (some r.1, { c with items := r.2 })
  | none => (none, c)

def staticTryGetTileFromCache (c : Cache H) : Option BasicTile → Option BasicTile × Cache H
  | some ref =>
    let r := tryEmplace c.tiles (ref.hash hashCombine seed) ref
    (some r.1, { c with tiles := r.2 })
  | none => (none, c)

/-- The values returned by a sequence of calls. -/
def getAll (c : Cache H) : List Ref → List Ref
  | [] => []
  | .item ref :: refs =>
    let r := staticTryGetItemFromCache hashCombine seed c ref
    .item r.1 :: getAll r.2 refs
  | .tile ref :: refs =>
    let r := staticTryGetTileFromCache hashCombine seed c ref
    .tile r.1 :: getAll r.2 refs

end Cache

/-- The items among the values of calls. -/
def itemsOf (refs : List Ref) : List BasicItem :=
  refs.filterMap fun | .item ref => ref | .tile _ => none

/-- The tiles among the values of calls. -/
def tilesOf (refs : List Ref) : List BasicTile :=
  refs.filterMap fun | .item _ => none | .tile ref => ref

/-- The mixing tells apart the sequences of words of the values looked up. -/
structure NoCollision {H : Type} (hashCombine : H → Word → H) (seed : H) (refs : List Ref) :
    Prop where
  items : ∀ r ∈ itemsOf refs, ∀ r' ∈ itemsOf refs,
    r.words.foldl hashCombine seed = r'.words.foldl hashCombine seed → r.words = r'.words
  tiles : ∀ t ∈ tilesOf refs, ∀ t' ∈ tilesOf refs,
    t.words.foldl hashCombine seed = t'.words.foldl hashCombine seed → t.words = t'.words

/-- Different values looked up have different words. -/
structure Unambiguous (refs : List Ref) : Prop where
  items : ∀ r ∈ itemsOf refs, ∀ r' ∈ itemsOf refs, r.words = r'.words → r = r'
  tiles : ∀ t ∈ tilesOf refs, ∀ t' ∈ tilesOf refs, t.words = t'.words → t = t'

section Cache

variable {H : Type} [DecidableEq H] {hashCombine : H → Word → H} {seed : H}

/-- The items returned are those interned by their hash, whatever tiles come between. -/
theorem itemsOf_getAll (c : Cache H) (refs : List Ref) :
    itemsOf (getAll hashCombine seed c refs) =
      internAll (fun r => r.hash hashCombine seed) c.items (itemsOf refs) := by
  induction refs generalizing c with
  | nil => rfl
  | cons ref refs ih =>
    rcases ref with (_ | r) | (_ | t) <;>
      simp only [getAll, staticTryGetItemFromCache, staticTryGetTileFromCache, itemsOf,
        filterMap_cons, internAll] at ih ⊢ <;>
      rw [ih]

theorem tilesOf_getAll (c : Cache H) (refs : List Ref) :
    tilesOf (getAll hashCombine seed c refs) =
      internAll (fun t => t.hash hashCombine seed) c.tiles (tilesOf refs) := by
  induction refs generalizing c with
  | nil => rfl
  | cons ref refs ih =>
    rcases ref with (_ | r) | (_ | t) <;>
      simp only [getAll, staticTryGetItemFromCache, staticTryGetTileFromCache, tilesOf,
        filterMap_cons, internAll] at ih ⊢ <;>
      rw [ih]

/-- A call for an item returns an item, one for a tile a tile: it is enough to compare
    the items, and the tiles, on their own. -/
theorem getAll_eq_iff (c : Cache H) (refs : List Ref) :
    getAll hashCombine seed c refs = refs ↔
      itemsOf (getAll hashCombine seed c refs) = itemsOf refs ∧
        tilesOf (getAll hashCombine seed c refs) = tilesOf refs := by
  refine ⟨fun h => by rw [h]; exact ⟨rfl, rfl⟩, ?_⟩
  rintro ⟨hitems, htiles⟩
  induction refs generalizing c with
  | nil => rfl
  | cons ref refs ih =>
    rcases ref with (_ | r) | (_ | t) <;>
      simp only [getAll, staticTryGetItemFromCache, staticTryGetTileFromCache, itemsOf, tilesOf,
        filterMap_cons, cons.injEq] at ih hitems htiles ⊢
    · exact ⟨trivial, ih c hitems htiles⟩
    · exact ⟨by rw [hitems.1], ih _ hitems.2 htiles⟩
    · exact ⟨trivial, ih c hitems htiles⟩
    · exact ⟨by rw [htiles.1], ih _ hitems htiles.2⟩

/-- For every sequence of calls after a flush, and every mixing without a collision
    among the values looked up: the values returned are those looked up exactly if
    different values looked up have different words. -/
theorem getAll_eq_self_iff (hashCombine : H → Word → H) (seed : H) (refs : List Ref)
    (hmix : NoCollision hashCombine seed refs) :
    getAll hashCombine seed .empty refs = refs ↔ Unambiguous refs := by
  rw [getAll_eq_iff, itemsOf_getAll, tilesOf_getAll, Cache.empty, internAll_eq_self_iff,
    internAll_eq_self_iff]
  simp only [BasicItem.hash_eq, BasicTile.hash_eq]
  constructor
  · rintro ⟨hitems, htiles⟩
    exact ⟨fun r hr r' hr' h => hitems r hr r' hr' (by rw [h]),
      fun t ht t' ht' h => htiles t ht t' ht' (by rw [h])⟩
  · rintro ⟨hitems, htiles⟩
    exact ⟨fun r hr r' hr' h => hitems r hr r' hr' (hmix.items r hr r' hr' h),
      fun t ht t' ht' h => htiles t ht t' ht' (hmix.tiles t ht t' ht' h)⟩

end Cache

/-- Mixing that keeps all the words. -/
theorem foldl_concat (w w' : List Word) : w'.foldl (fun h v => h ++ [v]) w = w ++ w' := by
  induction w' generalizing w with
  | nil => simp
  | cons v w' ih => simp [ih]

theorem noCollision_concat (refs : List Ref) : NoCollision (fun h v => h ++ [v]) [] refs where
  items r _ r' _ h := by simpa only [foldl_concat, nil_append] using h
  tiles t _ t' _ h := by simpa only [foldl_concat, nil_append] using h

/-- An item looked up twice is shared, and a tile with it inside is what it was. -/
theorem getAll_eq_self_shared :
    let r : BasicItem := { id := 2148, charges := 5 }
    let refs : List Ref := [.item (some r), .item (some r), .tile (some { items := [r, r] })]
    getAll (fun h v => h ++ [v]) [] .empty refs = refs := by
  intro r refs
  refine (getAll_eq_self_iff _ _ refs (noCollision_concat refs)).2 ⟨?_, ?_⟩
  · simp [refs, itemsOf]
  · simp [refs, tilesOf]

/-- An item with five charges and one with the action id 5 are taken for the same. -/
theorem not_getAll_eq_self :
    ¬∀ (H : Type) (_ : DecidableEq H) (hashCombine : H → Word → H) (seed : H) (refs : List Ref),
      NoCollision hashCombine seed refs → getAll hashCombine seed .empty refs = refs := by
  intro h
  have hget := h (List Word) inferInstance (fun h v => h ++ [v]) []
    [.item (some { id := 2148, charges := 5 }), .item (some { id := 2148, actionId := 5 })]
    (noCollision_concat _)
  rw [getAll_eq_iff, itemsOf_getAll, Cache.empty, internAll_eq_self_iff] at hget
  exact absurd (hget.1 _ (.head _) _ (.tail _ (.head _)) (by decide)) (by simp)

end Canary.Map
