import Canary.Login.Rows
import Mathlib

/-!
# Loading what was saved

In whatever order the rows come, the map has them in the order of their numbers
(`entries_loadItems`), and in every place are the items whose rows go there, in that order
(`load_rows`). What was saved is restored: the items of a place are those that lay there
(`restores_saved`), with all that is in them, and no item is in two places (`once_saved`).
-/

namespace Canary.Login

variable {α β : Type*} (C : Codec α β)

/-- Every row is that of an item. -/
theorem create_saveItems (itemList : List (ℕ × Item α)) :
    ∀ r ∈ saveItems C itemList, ∃ x, C.create r.item = some x := by
  have hnumber {itemList : List (ℕ × Item α)} {runningId : ℕ} :
      ∀ r ∈ (number itemList runningId).map (row C), ∃ x, C.create r.item = some x := by
    intro r hr
    obtain ⟨e, -, rfl⟩ := List.mem_map.1 hr
    exact ⟨_, C.create_serialize _ _⟩
  have hqueue (queue : Queue α) (runningId : ℕ) :
      ∀ r ∈ saveQueue C queue runningId, ∃ x, C.create r.item = some x := by
    fun_induction saveQueue C queue runningId with
    | case1 => exact fun _ h => absurd h List.not_mem_nil
    | case2 runningId itemlist parentId queue numbered ih =>
      exact fun r hr => (List.mem_append.1 hr).elim (hnumber r) (ih r)
  exact fun r hr => (List.mem_append.1 hr).elim (hnumber r) (hqueue _ _ r)

/-- The entry of a row. -/
def entry (r : Row β) : Option (ℕ × ((α × Bool) × ℕ)) :=
  (C.create r.item).map fun x => (r.sid, x, r.pid)

/-- The map has the rows in the order of their numbers, in whatever order they came. -/
theorem entries_loadItems {rows : List (Row β)} (h : rows.Pairwise fun r r' => r.sid < r'.sid) :
    (loadItems C rows.reverse).entries = rows.filterMap (entry C) := by
  induction rows with
  | nil => rfl
  | cons r rows ih =>
    obtain ⟨hr, hrows⟩ := List.pairwise_cons.1 h
    have hcons : loadItems C (r :: rows).reverse =
        (C.create r.item).elim (loadItems C rows.reverse) fun x =>
          (loadItems C rows.reverse).insert r.sid (x, r.pid) := by
      rw [loadItems, List.reverse_cons, List.foldl_append, List.foldl_cons, List.foldl_nil]
      cases C.create r.item <;> rfl
    rw [hcons, List.filterMap_cons, entry]
    cases C.create r.item with
    | none => exact ih hrows
    | some x =>
      have hgt : ∀ e ∈ (loadItems C rows.reverse).entries, r.sid < e.1 := by
        intro e he
        rw [ih hrows] at he
        obtain ⟨r', hr', he⟩ := List.mem_filterMap.1 he
        obtain ⟨_, -, rfl⟩ := Option.map_eq_some_iff.1 he
        exact hr r' hr'
      exact (SortedMap.insertEntry_of_gt hgt _).trans (congrArg _ (ih hrows))

theorem internalAddThing_self {place : Place} {lists : Lists}
    (h : (∀ s, place ≠ .slot s) ∨ lists place = []) (sid : ℕ) :
    internalAddThing place sid lists place = sid :: lists place := by
  cases place with
  | slot s =>
    have hnil : lists (.slot s) = [] := h.resolve_left fun h => h s rfl
    rw [internalAddThing, if_pos hnil, Function.update_self, hnil]
  | depotChest | inbox | container => simp only [internalAddThing, Function.update_self]

theorem internalAddThing_of_ne {place place' : Place} (h : place' ≠ place) (sid : ℕ)
    (lists : Lists) : internalAddThing place sid lists place' = lists place' := by
  cases place with
  | slot s =>
    rw [internalAddThing]
    split
    · exact Function.update_of_ne h _ _
    · rfl
  | depotChest | inbox | container =>
    simp only [internalAddThing, Function.update_of_ne h]

/-- In a place are the items that go there, in the order of their numbers. There must be one
    of them at most, if it is a slot. -/
theorem load_eq {place : ℕ → Place} {itemsMap : ItemsMap α} {pl : Place}
    (h : (∀ s, pl ≠ .slot s) ∨
      (itemsMap.entries.filter fun e => target place itemsMap e.2.2 = some pl).length ≤ 1) :
    load place itemsMap pl =
      (itemsMap.entries.filter fun e => target place itemsMap e.2.2 = some pl).map (·.1) := by
  rw [load]
  generalize htarget : target place itemsMap = tgt at h ⊢
  generalize itemsMap.entries = entries at h ⊢
  induction entries with
  | nil => rfl
  | cons e entries ih =>
    rw [List.foldr_cons]
    by_cases hgoes : tgt e.2.2 = some pl
    · have hfilter : (e :: entries).filter (fun e => tgt e.2.2 = some pl) =
          e :: entries.filter fun e => tgt e.2.2 = some pl :=
        List.filter_cons_of_pos (decide_eq_true hgoes)
      rw [hfilter] at h ⊢
      have hrest := ih (h.imp_right fun hle => Nat.le_of_succ_le hle)
      rw [hgoes, List.map_cons]
      dsimp only
      rw [internalAddThing_self (h.imp_right fun hle => ?_), hrest]
      -- A slot is empty before the only item that goes there is added.
      rw [hrest, List.eq_nil_of_length_eq_zero (Nat.le_zero.1 (Nat.le_of_succ_le_succ hle)),
        List.map_nil]
    · have hfilter : (e :: entries).filter (fun e => tgt e.2.2 = some pl) =
          entries.filter fun e => tgt e.2.2 = some pl :=
        List.filter_cons_of_neg (by simpa using hgoes)
      rw [hfilter] at h ⊢
      rw [← ih h]
      cases hplace : tgt e.2.2 with
      | none => rfl
      | some pl' =>
        refine internalAddThing_of_ne (fun heq => hgoes ?_) _ _
        rw [hplace, heq]

/-- The entries that go somewhere are those of the rows that go there. -/
theorem map_filter_entry {rows : List (Row β)} (h : ∀ r ∈ rows, ∃ x, C.create r.item = some x)
    (q : ℕ → Bool) :
    ((rows.filterMap (entry C)).filter fun e => q e.2.2).map (·.1) =
      (rows.filter fun r => q r.pid).map (·.sid) := by
  induction rows with
  | nil => rfl
  | cons r rows ih =>
    obtain ⟨x, hx⟩ := h r List.mem_cons_self
    have hrest := ih fun r' hr' => h r' (List.mem_cons_of_mem _ hr')
    rw [List.filterMap_cons, entry, hx, Option.map_some, List.filter_cons, List.filter_cons]
    dsimp only
    split
    · rw [List.map_cons, List.map_cons, hrest]
    · exact hrest

/-- What is in a place, by its rows. -/
theorem load_rows {place : ℕ → Place} {rows : List (Row β)}
    (hsorted : rows.Pairwise fun r r' => r.sid < r'.sid)
    (hcreate : ∀ r ∈ rows, ∃ x, C.create r.item = some x) {pl : Place}
    (hslot : (∀ s, pl ≠ .slot s) ∨ (rows.filter fun r =>
      target place (loadItems C rows.reverse) r.pid = some pl).length ≤ 1) :
    load place (loadItems C rows.reverse) pl = (rows.filter fun r =>
      target place (loadItems C rows.reverse) r.pid = some pl).map (·.sid) := by
  have hentries := entries_loadItems C hsorted
  have hmap := map_filter_entry C hcreate fun pid =>
    target place (loadItems C rows.reverse) pid = some pl
  rw [← hmap, ← hentries]
  refine load_eq (hslot.imp_right fun hle => ?_)
  rw [← hentries] at hmap
  rw [← List.length_map, hmap, List.length_map]
  exact hle

/-- What the map says of an item, and what is in it. -/
def get (itemsMap : ItemsMap α) (sid : ℕ) : Option (α × Bool) := (itemsMap.lookup sid).map (·.1)

def contents (lists : Lists) (sid : ℕ) : List ℕ := lists (.container sid)

/-- Only numbers of items, from 101 on, are those of containers. -/
structure Sorts (place : ℕ → Place) : Prop where
  container : ∀ pid, 100 < pid → place pid = .container pid
  eq : ∀ pid sid, place pid = .container sid → pid = sid

theorem target_of_container {place : ℕ → Place} {itemsMap : ItemsMap α} {pid sid : ℕ}
    (h : place pid = .container sid) {pl : Place} :
    target place itemsMap pid = some pl ↔
      pl = .container sid ∧ ∃ a, get itemsMap sid = some (a, true) := by
  rw [target, h, get]
  dsimp only
  rcases itemsMap.lookup sid with _ | ⟨⟨a, _ | _⟩, pid'⟩
  · simp
  · simp
  · simp [eq_comm]

theorem target_of_root {place : ℕ → Place} {itemsMap : ItemsMap α} {pid : ℕ}
    (h : ∀ sid, place pid ≠ .container sid) :
    target place itemsMap pid = some (place pid) := by
  rw [target]
  split
  · next sid hsid => exact absurd hsid (h sid)
  · rfl

theorem pairwise_saveItems (itemList : List (ℕ × Item α)) :
    (saveItems C itemList).Pairwise fun r r' => r.sid < r'.sid := by
  obtain ⟨k, hk⟩ := sid_saveItems C itemList
  have hlt : ((saveItems C itemList).map (·.sid)).Pairwise (· < ·) := by
    rw [hk]
    exact List.pairwise_lt_range'
  exact List.pairwise_map.1 hlt

section Saved

variable {C} {place : ℕ → Place} {itemList : List (ℕ × Item α)}

/-- The map of what was saved. -/
def saved (C : Codec α β) (itemList : List (ℕ × Item α)) : ItemsMap α :=
  loadItems C (saveItems C itemList).reverse

/-- The `pid` of these items is not that of a container. -/
def Roots (place : ℕ → Place) (itemList : List (ℕ × Item α)) : Prop :=
  ∀ e ∈ itemList, e.1 ≤ 100 ∧ ∀ sid, place e.1 ≠ .container sid

theorem get_saved {r : Row β} (hr : r ∈ saveItems C itemList) {x : α × Bool}
    (hx : C.create r.item = some x) : get (saved C itemList) r.sid = some x := by
  have hentry : (r.sid, x, r.pid) ∈ (saved C itemList).entries := by
    rw [saved, entries_loadItems C (pairwise_saveItems C itemList)]
    exact List.mem_filterMap.2 ⟨r, hr, by rw [entry, hx, Option.map_some]⟩
  rw [get, SortedMap.mem_entries.1 hentry, Option.map_some]

/-- The items that lie in a place that is not a container are saved first. -/
theorem filter_saveItems (pl : Place) (hplace : Sorts place) (hroots : Roots place itemList)
    (hpl : ∀ sid, pl ≠ .container sid) :
    (saveItems C itemList).filter (fun r => target place (saved C itemList) r.pid = some pl) =
      ((number itemList 100).filter fun e => place e.1.1 = pl).map (row C) := by
  -- The rows behind are those of items in containers.
  have hqueue : (saveQueue C (containers (number itemList 100)) (100 + itemList.length)).filter
      (fun r => target place (saved C itemList) r.pid = some pl) = [] := by
    refine List.filter_eq_nil_iff.2 fun r hr hdecide => ?_
    have heq := of_decide_eq_true hdecide
    have hpid : 100 < r.pid := by
      rcases pid_saveQueue C _ _ r hr with hpid | hpid
      · exact (mem_containers hpid).1
      · omega
    exact hpl _ ((target_of_container (hplace.container _ hpid)).1 heq).1
  rw [saveItems, List.filter_append, hqueue, List.append_nil, List.filter_map]
  congr 1
  refine List.filter_congr fun e he => ?_
  have hroot := (hroots e.1 (List.fst_mem_of_mem_zipIdx he)).2
  have htarget : target place (saved C itemList) e.1.1 = some (place e.1.1) :=
    target_of_root hroot
  rw [Function.comp_apply, row, htarget, decide_eq_decide, Option.some_inj]

/-- The list of a container is that of the rows with its number. -/
theorem contents_load (hplace : Sorts place) {sid : ℕ} {a : α} (hsid : 100 < sid)
    (hget : get (saved C itemList) sid = some (a, true)) :
    contents (load place (saved C itemList)) sid = kids (saveItems C itemList) sid := by
  rw [contents, saved, load_rows C (pairwise_saveItems C itemList) (create_saveItems C itemList)
    (.inl fun s => by simp), kids]
  congr 1
  refine List.filter_congr fun r _ => decide_eq_decide.2 ⟨fun h => ?_, fun h => ?_⟩
  · by_cases hcontainer : ∃ c, place r.pid = .container c
    · obtain ⟨c, hc⟩ := hcontainer
      obtain ⟨heq, -⟩ := (target_of_container hc).1 h
      exact (hplace.eq _ _ hc).trans (Place.container.inj heq).symm
    · have htarget := h.symm.trans (target_of_root fun c hc => hcontainer ⟨c, hc⟩)
      exact absurd ⟨sid, (Option.some.inj htarget).symm⟩ hcontainer
  · exact (target_of_container (h ▸ hplace.container sid hsid)).2 ⟨rfl, a, hget⟩

/-- Before the first container is saved, all of them are pending. -/
theorem pending_roots (hroots : Roots place itemList) :
    Pending (containers (number itemList 100)) (100 + itemList.length)
      ((number itemList 100).map (row C)) := by
  have hpid : ∀ r ∈ (number itemList 100).map (row C), r.pid ≤ 100 := by
    intro r hr
    obtain ⟨e, he, rfl⟩ := List.mem_map.1 hr
    exact (hroots e.1 (List.fst_mem_of_mem_zipIdx he)).1
  refine ⟨(containers_sublist _ _).nodup List.nodup_range', fun sid hsid => ?_,
    fun r hr => Nat.le_add_right_of_le (hpid r hr), fun r hr hmem => ?_⟩
  · exact (mem_containers hsid).2
  · exact absurd (hpid r hr) (Nat.not_le.2 (mem_containers hmem).1)

/-- The items are held by the numbers of their rows, and every other row is that of an item in a
    container. -/
theorem holds_saved (hplace : Sorts place) (hroots : Roots place itemList) :
    (∀ e ∈ number itemList 100, Holds (get (saved C itemList))
        (contents (load place (saved C itemList))) e.1.2 e.2) ∧
      ∀ r ∈ saveItems C itemList, ∃ pl, target place (saved C itemList) r.pid = some pl := by
  have hget : ∀ r ∈ saveItems C itemList, ∀ x, C.create r.item = some x →
      get (saved C itemList) r.sid = some x := fun r hr x hx => get_saved hr hx
  have hlist : ∀ sid a, 100 < sid → get (saved C itemList) sid = some (a, true) →
      contents (load place (saved C itemList)) sid = kids (saveItems C itemList) sid :=
    fun sid a hsid hget => contents_load hplace hsid hget
  have hrows : ∀ e ∈ number itemList 100, row C e ∈ saveItems C itemList := fun e he =>
    List.mem_append_left _ (List.mem_map_of_mem he)
  obtain ⟨hqueue, hrest⟩ := holdsAll_saveQueue hget hlist rfl (Nat.le_add_right 100 _)
    (pending_roots hroots) (get_of_mem_containers hget hrows)
  refine ⟨holds_of_mem_number hget hlist (Nat.le_refl _) hrows hqueue, fun r hr => ?_⟩
  rcases List.mem_append.1 hr with hr | hr
  · obtain ⟨e, he, rfl⟩ := List.mem_map.1 hr
    exact ⟨_, target_of_root (hroots e.1 (List.fst_mem_of_mem_zipIdx he)).2⟩
  · by_cases hcontainer : ∃ c, place r.pid = .container c
    · obtain ⟨c, hc⟩ := hcontainer
      exact ⟨_, (target_of_container hc).2 ⟨rfl, hplace.eq _ _ hc ▸ hrest r hr⟩⟩
    · exact ⟨_, target_of_root fun c hc => hcontainer ⟨c, hc⟩⟩

/-- The loaded items in a place are these, and no others. -/
def Restores (C : Codec α β) (place : ℕ → Place) (itemList : List (ℕ × Item α)) (pl : Place)
    (items : List (Item α)) : Prop :=
  ∀ items', HoldsAll (get (saved C itemList)) (contents (load place (saved C itemList))) items'
    (load place (saved C itemList) pl) ↔ items' = items

/-- There are as many items as were saved, and every item is in one place. -/
structure Once (C : Codec α β) (place : ℕ → Place) (itemList : List (ℕ × Item α)) : Prop where
  length : (saved C itemList).entries.length = Item.sizes (itemList.map (·.2))
  once : ∀ e ∈ (saved C itemList).entries, ∃ pl,
    (load place (saved C itemList) pl).count e.1 = 1 ∧
      ∀ pl', pl' ≠ pl → e.1 ∉ load place (saved C itemList) pl'

/-- At most one of the items is for a slot. -/
def OneASlot (place : ℕ → Place) (itemList : List (ℕ × Item α)) : Prop :=
  ∀ s, (itemList.filter fun e => place e.1 = .slot s).length ≤ 1

theorem load_saved (hplace : Sorts place) (hroots : Roots place itemList)
    (hslots : OneASlot place itemList) (pl : Place) :
    load place (saved C itemList) pl = ((saveItems C itemList).filter fun r =>
      target place (saved C itemList) r.pid = some pl).map (·.sid) := by
  refine load_rows C (pairwise_saveItems C itemList) (create_saveItems C itemList) ?_
  cases pl with
  | depotChest | inbox | container => exact .inl fun _ => by simp
  | slot s =>
    right
    -- The second item for a slot would take the place of the first.
    have hfilter := filter_saveItems (C := C) (.slot s) hplace hroots fun _ => by simp
    rw [saved] at hfilter
    have hitems := hslots s
    rw [← List.zipIdx_map_fst 101 itemList, List.filter_map, List.length_map] at hitems
    rw [hfilter, List.length_map]
    exact hitems

/-- The items that lay in a place lie there again. -/
theorem restores_saved (pl : Place) (hplace : Sorts place) (hroots : Roots place itemList)
    (hslots : OneASlot place itemList) (hpl : ∀ sid, pl ≠ .container sid) :
    Restores C place itemList pl ((itemList.filter fun e => place e.1 = pl).map (·.2)) := by
  have hload : load place (saved C itemList) pl =
      ((number itemList 100).filter fun e => place e.1.1 = pl).map (·.2) := by
    rw [load_saved hplace hroots hslots, filter_saveItems pl hplace hroots hpl, List.map_map]
    rfl
  have hitems : ((number itemList 100).filter fun e => place e.1.1 = pl).map (·.1.2) =
      (itemList.filter fun e => place e.1 = pl).map (·.2) := by
    conv_rhs => rw [← List.zipIdx_map_fst 101 itemList, List.filter_map, List.map_map]
    rfl
  have hholds := holdsAll_map ((number itemList 100).filter fun e => place e.1.1 = pl)
    fun e he => (holds_saved (C := C) hplace hroots).1 e (List.mem_of_mem_filter he)
  rw [hitems, ← hload] at hholds
  exact fun items' => ⟨fun h => h.unique hholds, fun h => h ▸ hholds⟩

theorem once_saved (hplace : Sorts place) (hroots : Roots place itemList)
    (hslots : OneASlot place itemList) : Once C place itemList := by
  have hsorted := pairwise_saveItems C itemList
  have hmem (pl : Place) (sid : ℕ) : sid ∈ load place (saved C itemList) pl ↔
      ∃ r ∈ saveItems C itemList, target place (saved C itemList) r.pid = some pl ∧
        r.sid = sid := by
    rw [load_saved hplace hroots hslots, List.mem_map]
    simp only [List.mem_filter, decide_eq_true_eq, and_assoc]
  have hsids : ((saveItems C itemList).map (·.sid)).Nodup :=
    List.pairwise_map.2 (hsorted.imp fun h => Nat.ne_of_lt h)
  have hentries : (saved C itemList).entries = (saveItems C itemList).filterMap (entry C) :=
    entries_loadItems C hsorted
  constructor
  · have hall := map_filter_entry C (create_saveItems C itemList) fun _ => true
    rw [List.filter_true, List.filter_true] at hall
    rw [hentries, ← List.length_map (·.1), hall, List.length_map, length_saveItems]
  · intro e he
    rw [hentries] at he
    obtain ⟨r, hr, he⟩ := List.mem_filterMap.1 he
    obtain ⟨x, -, rfl⟩ := Option.map_eq_some_iff.1 he
    obtain ⟨pl, hpl⟩ := (holds_saved hplace hroots).2 r hr
    refine ⟨pl, List.count_eq_one_of_mem ?_ ((hmem pl _).2 ⟨r, hr, hpl, rfl⟩), ?_⟩
    · rw [load_saved hplace hroots hslots]
      exact hsids.sublist (List.filter_sublist.map _)
    · intro pl' hne hmem'
      obtain ⟨r', hr', hpl', hsid⟩ := (hmem pl' _).1 hmem'
      obtain rfl := List.inj_on_of_nodup_map hsids hr' hr hsid
      exact hne (Option.some.inj (hpl'.symm.trans hpl))

end Saved

end Canary.Login
