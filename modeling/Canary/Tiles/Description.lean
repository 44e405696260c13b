import Canary.Tiles.Flags

/-!
# What a player sees of a tile

`GetTileDescription` writes the first ten things of a tile: the ground, the items on top, the
creatures that the player can see, those that came first in front, and the down items. The player
himself is always among them, on his own tile: as the tenth thing, if he would not be otherwise.

The client calls a thing by its number in the description. The server finds this number again
without the description (`getStackposOfItem`, `getStackposOfCreature`), and does not take the
player's own tile into account. So server and client agree if and only if the player is among the
first ten things of his tile, and no item among them is in the wrong half of the vector
(`agrees_iff`).
-/

namespace Canary.Tiles

/-- A player who looks at a tile. -/
structure Viewer where
  player : ℕ
  /-- The tile has the position of the player. -/
  own : Bool
  canSeeCreature : ℕ → Bool

namespace Tile

variable (types : ItemTypes) (t : Tile) (v : Viewer)

/-! ## The description -/

/-- The loop over the items on top. When it is through, or at 9 things on the own tile, `rest` is
    written from this count on; when 10 things are, nothing is. -/
def describeTop (rest : ℕ → List Thing) : List ℕ → ℕ → List Thing
  | [], count => rest count
  | r :: l, count =>
    .item r ::
      if count + 1 = 9 ∧ v.own = true then rest (count + 1)
      else if count + 1 = 10 then [] else describeTop rest l (count + 1)

/-- The loop over the creatures, the last of them first. -/
def describeCreatures (rest : ℕ → List Thing) : List ℕ → ℕ → Bool → List Thing
  | [], count, _ => rest count
  | c :: l, count, playerAdded =>
    if v.canSeeCreature c = false then describeCreatures rest l count playerAdded
    else
      let creature := if v.own = true ∧ count = 9 ∧ playerAdded = false then v.player else c
      let playerAdded := playerAdded || creature == v.player
      .creature creature ::
        if count + 1 = 10 then [] else describeCreatures rest l (count + 1) playerAdded

def describeDown : List ℕ → ℕ → List Thing
  | [], _ => []
  | r :: l, count => .item r :: if count + 1 = 10 then [] else describeDown l (count + 1)

/-- The things that are written, in order. -/
def getTileDescription : List Thing :=
  t.ground.toList.map .item ++
    describeTop v
      (fun count =>
        describeCreatures v (fun count => describeDown t.downItems count) t.creatures.reverse count
          false)
      t.topItems t.ground.toList.length

/-! ## The stack positions -/

/-- The loop of `getStackposOfCreature`. -/
def findCreature (creature : ℕ) : List ℕ → ℕ → Option ℕ
  | [], _ => none
  | c :: l, n =>
    if c = creature then some n
    else if v.canSeeCreature c then
      if n + 1 ≥ 10 then none else findCreature creature l (n + 1)
    else findCreature creature l n

/-- It returns -1 if there is none. -/
def getStackposOfCreature (creature : ℕ) : Option ℕ :=
  let n := t.ground.toList.length + t.topItems.length
  if n ≥ 10 then none else findCreature v creature t.creatures.reverse n

/-- The loops of `getStackposOfItem` over items. -/
def findItem (item : ℕ) : List ℕ → ℕ → Option ℕ
  | [], _ => none
  | r :: l, n => if r = item then some n else if n + 1 ≥ 10 then none else findItem item l (n + 1)

/-- The loop over the creatures. -/
def passCreatures (rest : ℕ → Option ℕ) : List ℕ → ℕ → Option ℕ
  | [], n => rest n
  | c :: l, n =>
    if v.canSeeCreature c then if n + 1 ≥ 10 then none else passCreatures rest l (n + 1)
    else passCreatures rest l n

def getStackposOfItem (item : ℕ) : Option ℕ :=
  if t.ground = some item then some 0
  else
    let n := t.ground.toList.length
    if (t.object item).isAlwaysOnTop types then findItem item t.topItems n
    else
      let n := n + t.topItems.length
      if n ≥ 10 then none
      else passCreatures v (fun n => findItem item t.downItems n) t.creatures n

/-- The item, or the creature. -/
def getStackpos : Thing → Option ℕ
  | .item r => t.getStackposOfItem types v r
  | .creature c => t.getStackposOfCreature v c

/-! ## All that can be seen -/

/-- The creatures that the player can see, in the order of the description. -/
def visible : List Thing := (t.creatures.reverse.filter v.canSeeCreature).map .creature

/-- What a description without an end would have. -/
def seen : List Thing :=
  t.ground.toList.map .item ++ (t.topItems.map .item ++ (t.visible v ++ t.downItems.map .item))

/-- An item in the half of the vector that its type says, or a creature. -/
def InHalf : Thing → Prop
  | .item r => t.ground = some r ∨
    if (t.object r).isAlwaysOnTop types then r ∈ t.topItems else r ∈ t.downItems
  | .creature _ => True

/-- For each item of the tile, and each creature that the player can see, the stack position is
    its number in the description, if it has one. -/
def Agrees : Prop :=
  ∀ thing ∈ t.seen v, ∀ i,
    t.getStackpos types v thing = some i ↔ (t.getTileDescription v)[i]? = some thing

end Tile

/-! ## The first things of a list, and the player -/

/-- The first `n` things, the player among them on his own tile. -/
def Viewer.shown (v : Viewer) (l : List Thing) (n : ℕ) : List Thing :=
  if v.own = true ∧ n ≤ l.idxOf (.creature v.player) then l.take (n - 1) ++ [.creature v.player]
  else l.take n

section

variable {v : Viewer} {l : List Thing} {n : ℕ}

theorem Viewer.shown_of_not_own (h : v.own = false) : v.shown l n = l.take n :=
  if_neg fun hn => Bool.false_ne_true (h.symm.trans hn.1)

theorem Viewer.shown_cons {thing : Thing} (h : thing ≠ .creature v.player) :
    v.shown (thing :: l) (n + 2) = thing :: v.shown l (n + 1) := by
  have hle (i : ℕ) : n + 2 ≤ i.succ ↔ n + 1 ≤ i := Nat.succ_le_succ_iff
  rw [shown, shown, List.idxOf_cons_ne _ h]
  simp only [hle]
  split_ifs <;> rfl

/-- The player comes last. -/
theorem Viewer.shown_one (h : v.own = true) (hmem : .creature v.player ∈ l) :
    v.shown l 1 = [.creature v.player] := by
  rw [shown]
  split_ifs with hidx
  · rfl
  · cases l with
    | nil => exact nomatch hmem
    | cons thing l =>
      have : thing = .creature v.player := by
        by_contra hne
        exact hidx ⟨h, by rw [List.idxOf_cons_ne _ hne]; exact Nat.le_add_left _ _⟩
      rw [this]
      rfl

end

namespace Tile

variable {types : ItemTypes} {t : Tile} {v : Viewer}

/-! ## The description is the first ten things -/

section

variable {rest : ℕ → List Thing} {after : List Thing} {l : List ℕ} {count n : ℕ}

theorem describeDown_eq (h : count + (n + 1) = 10) :
    describeDown l count = (l.map .item).take (n + 1) := by
  induction l generalizing count n with
  | nil => rw [describeDown, List.map_nil, List.take_nil]
  | cons r l ih =>
    rw [describeDown, List.map_cons, List.take_succ_cons]
    cases n with
    | zero => rw [if_pos h, List.take_zero]
    | succ n => rw [if_neg (by omega), ih (n := n) (by omega)]

/-- Once the player is written, or on another tile, nothing is special about him. -/
theorem describeCreatures_eq_take (playerAdded : Bool)
    (hrest : ∀ count n, count + (n + 1) = 10 → rest count = after.take (n + 1))
    (h : count + (n + 1) = 10) (hplayer : v.own = false ∨ playerAdded = true) :
    describeCreatures v rest l count playerAdded =
      ((l.filter v.canSeeCreature).map Thing.creature ++ after).take (n + 1) := by
  induction l generalizing count n playerAdded with
  | nil => exact hrest count n h
  | cons c l ih =>
    rw [describeCreatures]
    dsimp only
    by_cases hsee : v.canSeeCreature c = false
    · rw [if_pos hsee, List.filter_cons_of_neg (by simp [hsee])]
      exact ih _ h hplayer
    · have hno : ¬ (v.own = true ∧ count = 9 ∧ playerAdded = false) := by
        rcases hplayer with hp | hp <;> simp [hp]
      rw [if_neg hsee, if_neg hno, List.filter_cons_of_pos (by simpa using hsee), List.map_cons,
        List.cons_append, List.take_succ_cons]
      cases n with
      | zero => rw [if_pos h, List.take_zero]
      | succ n =>
        rw [if_neg (by omega), ih _ (n := n) (by omega) (hplayer.imp_right fun hp => by simp [hp])]

/-- The tenth creature on the player's own tile is the player, if he is not written yet. -/
theorem describeCreatures_eq_shown
    (hrest : ∀ count n, count + (n + 1) = 10 → rest count = after.take (n + 1))
    (h : count + (n + 1) = 10) (hown : v.own = true) (hself : v.canSeeCreature v.player = true)
    (hmem : v.player ∈ l) :
    describeCreatures v rest l count false =
      v.shown ((l.filter v.canSeeCreature).map .creature ++ after) (n + 1) := by
  induction l generalizing count n with
  | nil => exact nomatch hmem
  | cons c l ih =>
    have hvisible : Thing.creature v.player ∈
        ((c :: l).filter v.canSeeCreature).map Thing.creature ++ after :=
      List.mem_append_left _ (List.mem_map_of_mem (List.mem_filter.2 ⟨hmem, hself⟩))
    rw [describeCreatures]
    dsimp only
    by_cases hsee : v.canSeeCreature c = false
    · have hne : v.player ≠ c := fun hc => by simp [← hc, hself] at hsee
      -- A creature that is not seen is passed over, and is not the player.
      rw [if_pos hsee, List.filter_cons_of_neg (by simp [hsee])]
      exact ih h ((List.mem_cons.1 hmem).resolve_left hne)
    · rw [if_neg hsee]
      cases n with
      | zero =>
        rw [if_pos ⟨hown, by omega, rfl⟩, if_pos h, v.shown_one hown hvisible]
      | succ n =>
        rw [if_neg (by omega), if_neg (by omega),
          List.filter_cons_of_pos (by simpa using hsee), List.map_cons, List.cons_append]
        rcases eq_or_ne c v.player with rfl | hne
        · rw [describeCreatures_eq_take _ hrest (n := n) (by omega) (.inr (by simp)), Viewer.shown,
            if_neg (by simp), List.take_succ_cons]
        · rw [v.shown_cons (by simpa using hne), show (false || c == v.player) = false by simpa,
            ih (n := n) (by omega) ((List.mem_cons.1 hmem).resolve_left hne.symm)]

theorem describeTop_eq_take
    (hrest : ∀ count n, count + (n + 1) = 10 → rest count = after.take (n + 1))
    (h : count + (n + 1) = 10) (hown : v.own = false) :
    describeTop v rest l count = (l.map Thing.item ++ after).take (n + 1) := by
  induction l generalizing count n with
  | nil => exact hrest count n h
  | cons r l ih =>
    rw [describeTop, if_neg (by simp [hown]), List.map_cons, List.cons_append,
      List.take_succ_cons]
    cases n with
    | zero => rw [if_pos h, List.take_zero]
    | succ n => rw [if_neg (by omega), ih (n := n) (by omega)]

/-- On the player's own tile the items on top leave a place for him. -/
theorem describeTop_eq_shown
    (hrest : ∀ count n, count + (n + 1) = 10 → rest count = v.shown after (n + 1))
    (h : count + (n + 2) = 10) (hown : v.own = true) (hafter : .creature v.player ∈ after) :
    describeTop v rest l count = v.shown (l.map .item ++ after) (n + 2) := by
  induction l generalizing count n with
  | nil => exact hrest count (n + 1) h
  | cons r l ih =>
    have hne : Thing.item r ≠ .creature v.player := nofun
    rw [describeTop, List.map_cons, List.cons_append, v.shown_cons hne]
    cases n with
    | zero =>
      rw [if_pos ⟨by omega, hown⟩, hrest (count + 1) 0 (by omega), v.shown_one hown hafter,
        v.shown_one hown (List.mem_append_right _ hafter)]
    | succ n => rw [if_neg (by omega), if_neg (by omega), ih (n := n) (by omega)]

end

/-- The description is the first ten things that can be seen, the player among them on his own
    tile. -/
theorem getTileDescription_eq
    (hown : v.own = true → v.player ∈ t.creatures ∧ v.canSeeCreature v.player = true) :
    t.getTileDescription v = v.shown (t.seen v) 10 := by
  have hdown : ∀ count n, count + (n + 1) = 10 →
      describeDown t.downItems count = (t.downItems.map Thing.item).take (n + 1) :=
    fun _ _ h => describeDown_eq h
  cases ho : v.own with
  | false =>
    have htop {count n : ℕ} (h : count + (n + 1) = 10) :=
      describeTop_eq_take (v := v) (l := t.topItems)
        (fun _ _ h => describeCreatures_eq_take (l := t.creatures.reverse) false
          hdown h (.inl ho)) h ho
    rw [Viewer.shown_of_not_own ho, getTileDescription, seen]
    cases t.ground with
    | none => exact htop (n := 9) rfl
    | some ground => exact congrArg (_ :: ·) (htop (n := 8) rfl)
  | true =>
    obtain ⟨hmem, hself⟩ := hown ho
    have hmem' : v.player ∈ t.creatures.reverse := List.mem_reverse.2 hmem
    have hvisible : Thing.creature v.player ∈ t.visible v ++ t.downItems.map Thing.item :=
      List.mem_append_left _ (List.mem_map_of_mem (List.mem_filter.2 ⟨hmem', hself⟩))
    have htop {count n : ℕ} (h : count + (n + 2) = 10) :=
      describeTop_eq_shown (l := t.topItems)
        (fun _ _ h => describeCreatures_eq_shown hdown h ho hself hmem') h ho hvisible
    rw [getTileDescription, seen]
    cases t.ground with
    | none => exact htop (n := 8) rfl
    | some ground =>
      have hne : Thing.item ground ≠ .creature v.player := nofun
      exact (congrArg (_ :: ·) (htop (n := 7) rfl)).trans (v.shown_cons hne).symm

/-! ## Stack positions -/

/-- A number in the rest of a list, counted from `n` on. -/
def countFrom (n : ℕ) (l : List Thing) (thing : Thing) : Option ℕ :=
  (l.idxOf? thing).map (n + ·)

theorem countFrom_cons_self {n : ℕ} {l : List Thing} {thing : Thing} :
    countFrom n (thing :: l) thing = some n := by
  simp [countFrom, List.idxOf?_cons]

theorem countFrom_cons_of_ne {n : ℕ} {l : List Thing} {thing other : Thing} (h : other ≠ thing) :
    countFrom n (other :: l) thing = countFrom (n + 1) l thing := by
  simp only [countFrom, List.idxOf?_cons, beq_iff_eq, if_neg h, Option.map_map]
  congr 1
  funext i
  simp only [Function.comp_apply]
  omega

theorem countFrom_of_notMem {n : ℕ} {l : List Thing} {thing : Thing} (h : thing ∉ l) :
    countFrom n l thing = none := by
  rw [countFrom, List.idxOf?_eq_none_iff.2 h, Option.map_none]

/-- Other things come before. -/
theorem countFrom_take_append {n m : ℕ} {l₁ l₂ : List Thing} {thing : Thing} (h : thing ∉ l₁) :
    countFrom n ((l₁ ++ l₂).take m) thing =
      countFrom (n + l₁.length) (l₂.take (m - l₁.length)) thing := by
  induction l₁ generalizing n m with
  | nil => rfl
  | cons other l₁ ih =>
    obtain ⟨hne, hl⟩ := List.ne_and_not_mem_of_not_mem_cons h
    cases m with
    | zero => simp [countFrom]
    | succ m =>
      rw [List.cons_append, List.take_succ_cons, countFrom_cons_of_ne hne.symm, ih hl,
        List.length_cons, Nat.add_sub_add_right, Nat.add_assoc, Nat.add_comm 1]

/-- Other things come behind. -/
theorem countFrom_take_append_left {n m : ℕ} {l₁ l₂ : List Thing} {thing : Thing}
    (h : thing ∉ l₂) :
    countFrom n ((l₁ ++ l₂).take m) thing = countFrom n (l₁.take m) thing := by
  induction l₁ generalizing n m with
  | nil =>
    rw [List.nil_append, countFrom_of_notMem fun hm => h (List.mem_of_mem_take hm),
      countFrom_of_notMem fun hm => List.not_mem_nil (List.mem_of_mem_take hm)]
  | cons other l₁ ih =>
    cases m with
    | zero => rfl
    | succ m =>
      rw [List.cons_append, List.take_succ_cons, List.take_succ_cons]
      rcases eq_or_ne other thing with rfl | hne
      · rw [countFrom_cons_self, countFrom_cons_self]
      · rw [countFrom_cons_of_ne hne, countFrom_cons_of_ne hne, ih]

section

variable {l : List ℕ} {n k : ℕ}

theorem findCreature_eq {c : ℕ} (hsee : v.canSeeCreature c = true) (h : n + (k + 1) = 10) :
    findCreature v c l n =
      countFrom n (((l.filter v.canSeeCreature).map Thing.creature).take (k + 1))
        (.creature c) := by
  induction l generalizing n k with
  | nil => rfl
  | cons q l ih =>
    rw [findCreature]
    rcases eq_or_ne q c with rfl | hne
    · rw [if_pos rfl, List.filter_cons_of_pos hsee, List.map_cons, List.take_succ_cons,
        countFrom_cons_self]
    rw [if_neg hne]
    by_cases hq : v.canSeeCreature q = true
    · have hne' : Thing.creature q ≠ .creature c := by simpa using hne
      rw [if_pos hq, List.filter_cons_of_pos hq, List.map_cons, List.take_succ_cons,
        countFrom_cons_of_ne hne']
      cases k with
      | zero => rw [if_pos (by omega), List.take_zero]; rfl
      | succ k => rw [if_neg (by omega), ih (k := k) (by omega)]
    · rw [if_neg hq, List.filter_cons_of_neg hq, ih h]

theorem findItem_eq {r : ℕ} (h : n + (k + 1) = 10) :
    findItem r l n = countFrom n ((l.map Thing.item).take (k + 1)) (.item r) := by
  induction l generalizing n k with
  | nil => rfl
  | cons q l ih =>
    rw [findItem, List.map_cons, List.take_succ_cons]
    rcases eq_or_ne q r with rfl | hne
    · rw [if_pos rfl, countFrom_cons_self]
    have hne' : Thing.item q ≠ .item r := by simpa using hne
    rw [if_neg hne, countFrom_cons_of_ne hne']
    cases k with
    | zero => rw [if_pos (by omega), List.take_zero]; rfl
    | succ k => rw [if_neg (by omega), ih (k := k) (by omega)]

theorem passCreatures_eq {rest : ℕ → Option ℕ} (h : n + (k + 1) = 10) :
    passCreatures v rest l n =
      if k + 1 ≤ l.countP v.canSeeCreature then none
      else rest (n + l.countP v.canSeeCreature) := by
  induction l generalizing n k with
  | nil => rfl
  | cons q l ih =>
    rw [passCreatures]
    by_cases hq : v.canSeeCreature q = true
    · rw [if_pos hq, List.countP_cons_of_pos hq]
      cases k with
      | zero => rw [if_pos (by omega), if_pos (by omega)]
      | succ k =>
        rw [if_neg (by omega), ih (k := k) (by omega), Nat.add_right_comm n, Nat.add_assoc n]
        exact if_congr (by omega) rfl rfl
    · rw [if_neg hq, List.countP_cons_of_neg hq, ih h]

end

/-- The stack position of a creature is its number among the first ten things. -/
theorem getStackposOfCreature_eq {c : ℕ} (hsee : v.canSeeCreature c = true) :
    t.getStackposOfCreature v c = countFrom 0 ((t.seen v).take 10) (.creature c) := by
  have hseen : t.seen v = (t.ground.toList.map .item ++ t.topItems.map .item) ++
      (t.visible v ++ t.downItems.map .item) := by simp only [seen, List.append_assoc]
  have hbefore : Thing.creature c ∉
      t.ground.toList.map Thing.item ++ t.topItems.map Thing.item := by simp
  have hbehind : Thing.creature c ∉ t.downItems.map Thing.item := by simp
  rw [hseen, countFrom_take_append hbefore, countFrom_take_append_left hbehind,
    List.length_append, List.length_map, List.length_map, getStackposOfCreature]
  generalize t.ground.toList.length + t.topItems.length = n
  rw [Nat.zero_add]
  split_ifs with hn
  · rw [Nat.sub_eq_zero_of_le hn, List.take_zero]
    rfl
  · obtain ⟨k, hk⟩ : ∃ k, n + (k + 1) = 10 := ⟨9 - n, by omega⟩
    rw [findCreature_eq hsee hk, visible, show 10 - n = k + 1 by omega]

theorem item_mem_map {r : ℕ} {l : List ℕ} : Thing.item r ∈ l.map Thing.item ↔ r ∈ l := by simp

/-- The stack position of an item is its number among the first ten things, if it is in the half
    of the vector where it is looked for. -/
theorem getStackposOfItem_eq (hn : t.onTile.Nodup) {r : ℕ} (hr : t.InHalf types (.item r)) :
    t.getStackposOfItem types v r = countFrom 0 ((t.seen v).take 10) (.item r) := by
  by_cases hground : t.ground = some r
  · rw [getStackposOfItem, if_pos hground, seen, hground]
    exact countFrom_cons_self.symm
  -- Both count: the server the items before this one, the client the things before it.
  have hbefore : Thing.item r ∉ t.ground.toList.map Thing.item := by
    simpa [item_mem_map] using hground
  have hdis : ∀ q ∈ t.downItems, ∀ p ∈ t.topItems, q ≠ p :=
    (List.nodup_append.1 (List.nodup_append.1 (onTile_eq (t := t) ▸ hn)).2.1).2.2
  have hvisible : Thing.item r ∉ t.visible v := by simp [visible]
  rw [getStackposOfItem, if_neg hground, seen, countFrom_take_append hbefore, List.length_map,
    Nat.zero_add]
  have hlen : t.ground.toList.length ≤ 1 := by cases t.ground <;> simp
  obtain ⟨k, hk⟩ : ∃ k, t.ground.toList.length + (k + 1) = 10 :=
    ⟨9 - t.ground.toList.length, by omega⟩
  have hr := Or.resolve_left hr hground
  split_ifs with htop
  · rw [if_pos htop] at hr
    have hbehind : Thing.item r ∉ t.visible v ++ t.downItems.map Thing.item := by
      rw [List.mem_append, item_mem_map]
      exact not_or.2 ⟨hvisible, fun hd => hdis r hd r hr rfl⟩
    rw [findItem_eq hk, countFrom_take_append_left hbehind]
    congr 2
    omega
  · rw [if_neg htop] at hr
    -- A down item: the creatures that can be seen are counted in between.
    have htop' : Thing.item r ∉ t.topItems.map Thing.item := fun ht =>
      hdis r hr r (item_mem_map.1 ht) rfl
    rw [countFrom_take_append htop', List.length_map, countFrom_take_append hvisible,
      Nat.sub_sub, Nat.sub_sub, ← Nat.add_assoc]
    dsimp only
    generalize t.ground.toList.length + t.topItems.length = n
    split_ifs with hn
    · rw [Nat.sub_eq_zero_of_le (by omega), List.take_zero]
      rfl
    · obtain ⟨k, hk⟩ : ∃ k, n + (k + 1) = 10 := ⟨9 - n, by omega⟩
      have hcount : (t.visible v).length = t.creatures.countP v.canSeeCreature := by
        rw [visible, List.length_map, ← List.countP_eq_length_filter, List.countP_reverse]
      rw [passCreatures_eq hk, hcount]
      split_ifs with hp
      · rw [Nat.sub_eq_zero_of_le (by omega), List.take_zero]
        rfl
      · obtain ⟨j, hj⟩ : ∃ j, n + t.creatures.countP v.canSeeCreature + (j + 1) = 10 :=
          ⟨9 - (n + t.creatures.countP v.canSeeCreature), by omega⟩
        rw [findItem_eq hj]
        congr 2
        omega

/-- An item in the wrong half has no stack position. -/
theorem getStackposOfItem_eq_none {r : ℕ} (hr : ¬ t.InHalf types (.item r)) :
    t.getStackposOfItem types v r = none := by
  obtain ⟨hground, hr⟩ := not_or.1 hr
  have hlen : t.ground.toList.length ≤ 1 := by cases t.ground <;> simp
  have hfind {l : List ℕ} {n : ℕ} (hn : n < 10) (hl : r ∉ l) : findItem r l n = none := by
    rw [findItem_eq (k := 9 - n) (by omega)]
    exact countFrom_of_notMem fun hm => hl (item_mem_map.1 (List.mem_of_mem_take hm))
  rw [getStackposOfItem, if_neg hground]
  split_ifs with htop
  · exact hfind (by omega) (by rwa [if_pos htop] at hr)
  · rw [if_neg htop] at hr
    dsimp only
    generalize t.ground.toList.length + t.topItems.length = n
    split_ifs with hn
    · rfl
    · rw [passCreatures_eq (k := 9 - n) (by omega)]
      split_ifs with hp
      · rfl
      · exact hfind (by omega) hr

/-! ## Agreement -/

theorem seen_nodup (hn : t.onTile.Nodup) (hc : t.creatures.Nodup) : (t.seen v).Nodup := by
  have hitem : Function.Injective Thing.item := fun _ _ h => Thing.item.inj h
  have hcreature : Function.Injective Thing.creature := fun _ _ h => Thing.creature.inj h
  have hvisible : (t.visible v).Nodup := ((List.nodup_reverse.2 hc).filter _).map hcreature
  -- The items, and the creatures in front.
  have hitems : (t.ground.toList ++ (t.topItems ++ t.downItems)).Nodup :=
    (onTile_eq (t := t) ▸ hn).perm (List.perm_append_comm.append_left _)
  have hperm : (t.visible v ++ (t.ground.toList ++ (t.topItems ++ t.downItems)).map Thing.item).Perm
      (t.seen v) := by
    rw [List.map_append, List.map_append, seen]
    exact List.perm_append_comm_assoc _ _ _ |>.trans
      ((List.perm_append_comm_assoc _ _ _).append_left _)
  refine hperm.nodup_iff.1 (List.nodup_append.2 ⟨hvisible, hitems.map hitem, ?_⟩)
  intro thing hthing other hother heq
  obtain ⟨c, -, rfl⟩ := List.mem_map.1 hthing
  obtain ⟨r, -, hr⟩ := List.mem_map.1 hother
  cases hr.trans heq.symm

/-- In a list without repetitions the number of a thing says where it is. -/
theorem countFrom_zero_eq_some_iff {l : List Thing} (hn : l.Nodup) {thing : Thing} {i : ℕ} :
    countFrom 0 l thing = some i ↔ l[i]? = some thing := by
  have hid : (fun j : ℕ => 0 + j) = id := funext Nat.zero_add
  rw [countFrom, hid, Option.map_id, id, List.idxOf?_eq_some_iff]
  constructor
  · rintro ⟨hi, hget, -⟩
    rw [List.getElem?_eq_getElem hi, hget]
  · intro hget
    obtain ⟨hi, rfl⟩ := List.getElem?_eq_some_iff.1 hget
    exact ⟨hi, rfl, fun j hj heq => hj.ne ((hn.getElem_inj_iff).1 heq)⟩

/-- Server and client agree if and only if the player is among the first ten things of his own
    tile, and no item among the first ten is in the wrong half. -/
theorem agrees_iff (hn : t.onTile.Nodup) (hc : t.creatures.Nodup)
    (hown : v.own = true → v.player ∈ t.creatures ∧ v.canSeeCreature v.player = true) :
    t.Agrees types v ↔
      (v.own = true → (t.seen v).idxOf (.creature v.player) < 10) ∧
        ∀ thing ∈ (t.seen v).take 10, t.InHalf types thing := by
  have hseen := seen_nodup (v := v) hn hc
  have hten : ((t.seen v).take 10).Nodup := hseen.sublist (List.take_sublist _ _)
  -- The stack position of what can be seen.
  have hpos {thing : Thing} (hthing : thing ∈ t.seen v) (i : ℕ) :
      t.getStackpos types v thing = some i ↔
        t.InHalf types thing ∧ ((t.seen v).take 10)[i]? = some thing := by
    rw [← countFrom_zero_eq_some_iff hten]
    cases thing with
    | item r =>
      by_cases hr : t.InHalf types (.item r)
      · rw [getStackpos, getStackposOfItem_eq hn hr]
        exact ⟨fun h => ⟨hr, h⟩, And.right⟩
      · rw [getStackpos, getStackposOfItem_eq_none hr]
        exact ⟨nofun, fun h => absurd h.1 hr⟩
    | creature c =>
      have hsee : v.canSeeCreature c = true := by
        simp [seen, visible] at hthing
        exact hthing.2
      rw [getStackpos, getStackposOfCreature_eq hsee]
      exact ⟨fun h => ⟨trivial, h⟩, And.right⟩
  rw [Agrees, getTileDescription_eq hown, Viewer.shown]
  constructor
  · intro h
    have hlt : v.own = true → (t.seen v).idxOf (.creature v.player) < 10 := by
      intro ho
      by_contra hidx
      obtain ⟨hmem, hself⟩ := hown ho
      have hplayer : Thing.creature v.player ∈ t.seen v := by
        simpa [seen, visible, hself] using hmem
      have hlen : ((t.seen v).take 9).length = 9 :=
        List.length_take_of_le
          (((Nat.le_succ 9).trans (not_lt.1 hidx)).trans (List.idxOf_lt_length_iff.2 hplayer).le)
      -- He is written as the tenth thing, and is not among the first ten.
      rw [if_pos ⟨ho, not_lt.1 hidx⟩] at h
      have hget := (h _ hplayer 9).2 (by
        rw [List.getElem?_append_right hlen.le, hlen]
        rfl)
      have hten' := List.mem_of_getElem? ((hpos hplayer 9).1 hget).2
      exact hidx ((List.mem_take_iff_idxOf_lt hplayer).1 hten')
    refine ⟨hlt, fun thing hthing => ?_⟩
    rw [if_neg fun hs => hs.2.not_gt (hlt hs.1)] at h
    obtain ⟨i, hi⟩ := List.mem_iff_getElem?.1 hthing
    have hmem := List.mem_of_mem_take hthing
    exact ((hpos hmem i).1 ((h thing hmem i).2 hi)).1
  · rintro ⟨hlt, hhalf⟩ thing hthing i
    rw [if_neg fun hs => hs.2.not_gt (hlt hs.1), hpos hthing]
    exact ⟨And.right, fun hi => ⟨hhalf thing (List.mem_of_getElem? hi), hi⟩⟩

/-- The item 2 lies on top. -/
def someTypes : ItemTypes := fun id =>
  { alwaysOnTopOrder := if id = 2 then 1 else 0, floorChange_mask := zero_and_floorChangeFlags }

/-- Ground, an item on top, five creatures and five other items. -/
def busy : Tile :=
  { object := fun r => { id := r }, ground := some 1, items := [20, 21, 22, 23, 24, 2],
    downItemCount := 5, creatures := [0, 6, 5, 4, 3], flags := 0 }

/-- The player 0, who can see everything. -/
def player : Viewer := { player := 0, own := true, canSeeCreature := fun _ => true }

/-- The player 0, who cannot see the creature 4. -/
def blinded : Viewer := { player with canSeeCreature := (· ≠ 4) }

/-- The last of eleven things is not described. -/
theorem agrees_busy : (busy.seen blinded).length = 11 ∧ busy.Agrees someTypes blinded := by
  refine ⟨by decide, (agrees_iff (by decide) (by decide) fun _ => by decide).2 ?_⟩
  refine ⟨fun _ => by decide, fun thing hthing => ?_⟩
  have hshown : (busy.seen blinded).take 10 = [1, 2].map .item ++ [3, 5, 6, 0].map .creature ++
      [20, 21, 22, 23].map .item := by decide
  rw [hshown, List.mem_append, List.mem_append] at hthing
  rcases hthing with (hthing | hthing) | hthing
  · obtain ⟨r, hr, rfl⟩ := List.mem_map.1 hthing
    rcases List.mem_pair.1 hr with rfl | rfl
    · exact .inl rfl
    · exact .inr (by decide)
  · obtain ⟨c, -, rfl⟩ := List.mem_map.1 hthing
    trivial
  · obtain ⟨r, hr, rfl⟩ := List.mem_map.1 hthing
    have hdown : ∀ r ∈ [20, 21, 22, 23], if (busy.object r).isAlwaysOnTop someTypes then
        r ∈ busy.topItems else r ∈ busy.downItems := by decide
    exact .inr (hdown r hr)

/-- The player came last to a tile with ten creatures. -/
def crowded : Tile :=
  { object := fun r => { id := r }, ground := none, items := [], downItemCount := 0,
    creatures := [0, 10, 9, 8, 7, 6, 5, 4, 3, 2, 1], flags := 0 }

/-- He is written as the tenth thing, and has no stack position; the tenth creature has it. -/
theorem player_without_stackpos :
    crowded.creatures.Nodup ∧ player.player ∈ crowded.creatures ∧
      (crowded.getTileDescription player)[9]? = some (.creature 0) ∧
      crowded.getStackpos (fun _ => {}) player (.creature 0) = none ∧
      crowded.getStackpos (fun _ => {}) player (.creature 10) = some 9 ∧
      ¬ crowded.Agrees (fun _ => {}) player := by
  refine ⟨by decide, by decide, by decide, by decide, by decide, fun h => ?_⟩
  exact absurd ((h (.creature 0) (by decide) 9).2 (by decide)) (by decide)

/-! ## No thing is twice on a tile -/

theorem creatures_removeItem (types : ItemTypes) (t : Tile) (r count : ℕ) :
    (t.removeThing types (.item r) count).creatures = t.creatures := by
  simp only [removeThing]
  split_ifs <;> rfl

theorem creatures_addItem (types : ItemTypes) (t : Tile) (r : ℕ) :
    (t.addItem types r).creatures = t.creatures := by
  have hsplash : (t.removeOldSplash types).creatures = t.creatures := by
    rw [removeOldSplash]
    split
    · exact creatures_removeItem ..
    · rfl
  simp only [addItem]
  split_ifs
  · rfl
  · split <;> rfl
  · exact hsplash
  · rfl
  · split
    · rfl
    · split_ifs
      · exact creatures_removeItem ..
      · rfl
  · rfl

theorem creatures_internalAddItem (types : ItemTypes) (t : Tile) (r : ℕ) :
    (t.internalAddItem types r).creatures = t.creatures := by
  simp only [internalAddItem]
  split_ifs
  · split <;> rfl
  all_goals rfl

theorem creatures_apply_nodup (hn : t.creatures.Nodup) {op : Op} (hc : t.Called types op) :
    (t.apply types op).creatures.Nodup := by
  cases op with
  | addThing thing =>
    cases thing with
    | creature c => exact List.nodup_cons.2 ⟨fun h => hc (creature_mem_things.2 h), hn⟩
    | item r => exact creatures_addItem types t r ▸ hn
  | internalAddThing thing =>
    cases thing with
    | creature c => exact List.nodup_cons.2 ⟨fun h => hc (creature_mem_things.2 h), hn⟩
    | item r => exact creatures_internalAddItem types t r ▸ hn
  | removeThing thing count =>
    cases thing with
    | creature c => exact hn.erase c
    | item r => exact creatures_removeItem types t r count ▸ hn
  | updateThing thing itemId count =>
    cases thing with
    | creature c => exact hn
    | item r =>
      rw [apply, updateThing]
      split_ifs <;> exact hn
  | replaceThing index thing =>
    cases thing with
    | creature c => exact hn
    | item r =>
      rw [apply, replaceThing]
      split
      · exact hn
      next hex => cases exchanged_of_exchange hex <;> exact hn
  | elsewhere object => exact hn

/-- So it is with every tile that the calls made. -/
theorem nodup_of_reachable (h : (system types).Reachable t) :
    t.onTile.Nodup ∧ t.creatures.Nodup := by
  refine h.invariant (I := fun t => t.onTile.Nodup ∧ t.creatures.Nodup) (fun t₀ h₀ => ?_)
    fun t op t' ht _ hstep => ?_
  · obtain ⟨object, rfl⟩ := h₀
    exact ⟨List.nodup_nil, List.nodup_nil⟩
  · obtain ⟨hc, rfl⟩ := hstep
    exact ⟨nodup_apply ht.1 hc, creatures_apply_nodup ht.2 hc⟩

end Tile

end Canary.Tiles
