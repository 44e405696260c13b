import Canary.Inventory.RemoveCount
import Mathlib

/-!
# The iterator of a container

A container is gone through with a queue of the containers still to be visited, and a position in
the first one of them. The iterator yields all that the container holds, however deep, each item
once, level by level (`yields_levelOrder`), and ends.

So the loops over it count each item once. `Container::getItemTypeCount` is no such loop: it counts
what is right in the container, and `Player::getItemTypeCount` what the player carries.
-/

namespace Canary.Inventory

open RoseTree

structure ContainerIterator where
  /-- The containers still to be visited, the first one up to the position. -/
  over_ : List Thing
  cur : ℕ

namespace ContainerIterator

variable (it : ContainerIterator)

/-- `Container::iterator` -/
def start (t : Thing) : ContainerIterator :=
  if t.size ≠ 0 then ⟨[t], 0⟩ else ⟨[], 0⟩

def hasNext : Bool := it.over_ ≠ []

/-- `operator*` -/
def deref : Option Thing :=
  match it.over_ with
  | [] => none
  | c :: _ => c.children[it.cur]?

def advance : ContainerIterator :=
  let over_ :=
    match it.deref with
    | some i => if Thing.isContainer i ∧ Thing.size i ≠ 0 then it.over_ ++ [i] else it.over_
    | none => it.over_
  let cur := it.cur + 1
  match over_ with
  | [] => ⟨[], cur⟩
  | c :: rest => if cur = c.size then ⟨rest, if rest ≠ [] then 0 else cur⟩ else ⟨over_, cur⟩

/-- The iterator has the items, in order, and then ends. -/
inductive Yields : ContainerIterator → List Thing → Prop
  | done {it : ContainerIterator} : it.hasNext = false → Yields it []
  | next {it : ContainerIterator} {i : Thing} {items : List Thing} :
    it.hasNext = true → it.deref = some i → Yields it.advance items → Yields it (i :: items)

/-- `for (it = ..; it.hasNext(); it.advance())`, at most so many times. -/
def forEach {β : Type} (f : β → Thing → β) : ℕ → ContainerIterator → β → β
  | 0, _, b => b
  | n + 1, it, b =>
    if it.hasNext then
      match it.deref with
      | some i => forEach f n it.advance (f b i)
      | none => b
    else b

/-- Such a loop that returns at the first item that is looked for. -/
def anyOf (p : Thing → Bool) : ℕ → ContainerIterator → Bool
  | 0, _ => false
  | n + 1, it =>
    if it.hasNext then
      match it.deref with
      | some i => if p i then true else anyOf p n it.advance
      | none => false
    else false

end ContainerIterator

namespace Container

open ContainerIterator

variable (types : ItemTable) (t : Thing)

def getItemHoldingCount : BitVec 32 :=
  forEach (fun counter _ => counter + 1) t.nodes.length (start t) 0

def getContainerHoldingCount : BitVec 32 :=
  forEach (fun counter i => if Thing.isContainer i then counter + 1 else counter)
    t.nodes.length (start t) 0

def isHoldingItem (item : Ref) : Bool :=
  anyOf (fun i => i.ref = item) t.nodes.length (start t)

def isHoldingItemWithId (id : BitVec 16) : Bool :=
  anyOf (fun i => i.label.id = id) t.nodes.length (start t)

def getItems (recursive : Bool) : List Thing :=
  if recursive then
    forEach (fun containerItems i => containerItems ++ [i]) t.nodes.length (start t) []
  else t.children

def getItemTypeCount (itemId : BitVec 16) (subType : BitVec 32) : BitVec 32 :=
  t.children.foldl (fun count item =>
    if item.label.id = itemId then count + BitVec.ofNat 32 (item.label.countByType types subType)
    else count) 0

end Container

/-! ## What is yielded -/

namespace ContainerIterator

/-- An item whose own items are visited. -/
def entered (i : Thing) : Bool := Thing.isContainer i ∧ Thing.size i ≠ 0

/-- What is still to come: the rest of the first container, and then the search, with what is
    entered from there on. -/
def remaining : ContainerIterator → List Thing
  | ⟨[], _⟩ => []
  | ⟨c :: rest, cur⟩ => c.children.drop cur ++
      search entered (rest ++ (c.children.drop cur).filter entered)

/-- The position is one of the first container, and the others are not empty. -/
def Inside : ContainerIterator → Prop
  | ⟨[], _⟩ => True
  | ⟨c :: rest, cur⟩ => cur < c.children.length ∧ ∀ c' ∈ rest, c'.children ≠ []

/-- At the start of a queue of containers that are not empty. -/
theorem at_start {over_ : List Thing} (h : ∀ c ∈ over_, c.children ≠ []) (cur : ℕ) :
    Inside ⟨over_, if over_ ≠ [] then 0 else cur⟩ ∧
      remaining ⟨over_, if over_ ≠ [] then 0 else cur⟩ = search entered over_ := by
  rcases over_ with _ | ⟨c, rest⟩
  · exact ⟨trivial, search_nil.symm⟩
  · rw [if_pos (List.cons_ne_nil c rest), remaining, List.drop_zero, search_cons]
    exact ⟨⟨List.length_pos_of_ne_nil (h c List.mem_cons_self),
      fun c' hc' => h c' (List.mem_cons_of_mem _ hc')⟩, rfl⟩

theorem children_of_entered {i : Thing} (h : entered i = true) : i.children ≠ [] :=
  fun hnil => (of_decide_eq_true h).2 (List.length_eq_zero_iff.2 hnil)

theorem advance_eq {c i : Thing} {rest : List Thing} {cur : ℕ}
    (hderef : deref ⟨c :: rest, cur⟩ = some i) : advance ⟨c :: rest, cur⟩ =
      if cur + 1 = c.size then ⟨rest ++ [i].filter entered,
        if rest ++ [i].filter entered ≠ [] then 0 else cur + 1⟩
      else ⟨c :: (rest ++ [i].filter entered), cur + 1⟩ := by
  rw [advance, hderef, List.filter_singleton, entered]
  by_cases he : Thing.isContainer i ∧ Thing.size i ≠ 0
  · simp only [if_pos he, decide_eq_true he, cond_true, List.cons_append]
  · simp only [if_neg he, decide_eq_false he, cond_false, List.append_nil]

/-- One step of the iterator yields the next item of what is still to come. -/
theorem Inside.step {it : ContainerIterator} (h : it.Inside) (hnext : it.hasNext = true) :
    ∃ i, it.deref = some i ∧ it.advance.Inside ∧ it.remaining = i :: it.advance.remaining := by
  obtain ⟨_ | ⟨c, rest⟩, cur⟩ := it
  · exact absurd hnext Bool.false_ne_true
  obtain ⟨hcur, hrest⟩ := h
  have hderef : deref ⟨c :: rest, cur⟩ = some c.children[cur] := List.getElem?_eq_getElem hcur
  have hdrop : c.children.drop cur = c.children[cur] :: c.children.drop (cur + 1) :=
    List.drop_eq_getElem_cons hcur
  generalize c.children[cur] = i at hderef hdrop
  have hentered : ∀ c' ∈ rest ++ [i].filter entered, c'.children ≠ [] := by
    intro c' hc'
    rcases List.mem_append.1 hc' with hc' | hc'
    · exact hrest c' hc'
    · exact children_of_entered (List.mem_filter.1 hc').2
  have hqueue : rest ++ (i :: c.children.drop (cur + 1)).filter entered =
      (rest ++ [i].filter entered) ++ (c.children.drop (cur + 1)).filter entered := by
    rw [List.append_assoc, ← List.filter_append, List.singleton_append]
  refine ⟨i, hderef, ?_⟩
  rw [remaining, hdrop, hqueue, advance_eq hderef]
  by_cases hend : cur + 1 = c.size
  · -- The container ends, and the next one is visited.
    have hnil : c.children.drop (cur + 1) = [] := List.drop_eq_nil_of_le (by rw [hend]; rfl)
    obtain ⟨hinside, hremaining⟩ := at_start hentered (cur + 1)
    rw [if_pos hend, hremaining, hnil, List.filter_nil, List.append_nil, List.singleton_append]
    exact ⟨hinside, rfl⟩
  · rw [if_neg hend, remaining, List.cons_append]
    exact ⟨⟨Nat.lt_of_le_of_ne hcur hend, hentered⟩, rfl⟩

/-- The iterator yields what is still to come. -/
theorem Inside.yields {it : ContainerIterator} (h : it.Inside) : it.Yields it.remaining := by
  obtain ⟨items, hitems⟩ : ∃ items, it.remaining = items := ⟨_, rfl⟩
  rw [hitems]
  induction items generalizing it with
  | nil =>
    refine .done (Bool.eq_false_of_not_eq_true fun hnext => ?_)
    obtain ⟨i, -, -, hremaining⟩ := h.step hnext
    rw [hitems] at hremaining
    nomatch hremaining
  | cons i items ih =>
    have hnext : it.hasNext = true := by
      rw [hasNext, decide_eq_true_eq]
      intro hover
      obtain ⟨over_, cur⟩ := it
      dsimp only at hover
      rw [hover, remaining] at hitems
      nomatch hitems
    obtain ⟨i', hderef, hinside, hremaining⟩ := h.step hnext
    rw [hitems] at hremaining
    obtain ⟨rfl, hrest⟩ := List.cons.inj hremaining
    exact .next hnext hderef (ih hinside hrest.symm)

theorem iterator_eq_search (t : Thing) : Thing.iterator t = search entered [t] := by
  rw [Thing.iterator, Thing.iterate_eq, search, List.flatMap_singleton]
  congr 1
  funext i
  rw [entered, Bool.decide_and, Bool.decide_eq_true]

/-- The iterator of a container yields what the search finds. -/
theorem yields_iterator (t : Thing) : (start t).Yields (Thing.iterator t) := by
  rw [iterator_eq_search, start]
  split_ifs with hsize
  · have hqueue : ∀ c ∈ [t], c.children ≠ [] := by
      intro c hc hnil
      rw [List.mem_singleton.1 hc] at hnil
      exact hsize (List.length_eq_zero_iff.2 hnil)
    obtain ⟨hinside, hremaining⟩ := at_start hqueue 0
    rw [← hremaining]
    exact hinside.yields
  · have hnil : t.children = [] := List.length_eq_zero_iff.1 (not_not.1 hsize)
    rw [search_cons, hnil, List.filter_nil, List.append_nil, List.nil_append, search_nil]
    exact .done rfl

/-! ## Loops -/

theorem Yields.forEach_eq {β : Type} {f : β → Thing → β} {it : ContainerIterator}
    {items : List Thing} (h : it.Yields items) {n : ℕ} (hn : items.length ≤ n) (b : β) :
    forEach f n it b = items.foldl f b := by
  induction h generalizing n b with
  | done hnext =>
    cases n with
    | zero => rfl
    | succ n => rw [forEach, hnext, if_neg Bool.false_ne_true, List.foldl_nil]
  | next hnext hderef _ ih =>
    obtain ⟨n, rfl⟩ := Nat.exists_eq_succ_of_ne_zero (Nat.ne_zero_of_lt hn)
    rw [forEach, hnext, if_pos rfl, hderef, List.foldl_cons]
    exact ih (Nat.le_of_succ_le_succ hn) _

theorem Yields.anyOf_eq {p : Thing → Bool} {it : ContainerIterator} {items : List Thing}
    (h : it.Yields items) {n : ℕ} (hn : items.length ≤ n) : anyOf p n it = items.any p := by
  induction h generalizing n with
  | done hnext =>
    cases n with
    | zero => rfl
    | succ n => rw [anyOf, hnext, if_neg Bool.false_ne_true, List.any_nil]
  | next hnext hderef _ ih =>
    obtain ⟨n, rfl⟩ := Nat.exists_eq_succ_of_ne_zero (Nat.ne_zero_of_lt hn)
    rw [anyOf, hnext, if_pos rfl, hderef, List.any_cons]
    dsimp only
    split_ifs with hp
    · rw [hp, Bool.true_or]
    · rw [Bool.eq_false_of_not_eq_true hp, Bool.false_or, ih (Nat.le_of_succ_le_succ hn)]

end ContainerIterator

namespace Thing

/-- Only containers hold items. -/
def Proper (t : Thing) : Prop := ∀ i ∈ t.nodes, i.label.storage = none → i.children = []

/-- What is in an item, however deep. -/
def below (t : Thing) : List Thing := t.children.flatMap nodes

variable {t : Thing}

theorem entered_eq_false {i : Thing} (hleaf : i.label.storage = none → i.children = [])
    (h : ContainerIterator.entered i = false) : i.children = [] := by
  rw [ContainerIterator.entered, decide_eq_false_iff_not, not_and_or] at h
  rcases h with h | h
  · exact hleaf (Option.not_isSome_iff_eq_none.1 h)
  · exact List.length_eq_zero_iff.1 (not_not.1 h)

theorem length_below (t : Thing) : t.below.length ≤ t.nodes.length := by
  obtain ⟨o, cs⟩ := t
  rw [nodes_node, List.length_cons]
  exact Nat.le_succ _

/-- The iterator goes level by level. -/
theorem Proper.iterator_eq (h : t.Proper) :
    iterator t = levelOrder t.nodes.length t.children := by
  have hbelow : ∀ i ∈ t.children.flatMap nodes, ContainerIterator.entered i = false →
      i.children = [] := by
    intro i hi
    obtain ⟨c, hc, hi⟩ := List.mem_flatMap.1 hi
    exact entered_eq_false (h i (mem_nodes_of_mem_children hc hi))
  have hnodes : t.nodes.length = t.below.length + 1 := by
    obtain ⟨o, cs⟩ := t
    rw [nodes_node, List.length_cons, below, children_node]
  rw [ContainerIterator.iterator_eq_search, search_cons, List.nil_append,
    search_eq_levelOrder hbelow (Nat.le_refl _), hnodes, levelOrder, below]

theorem Proper.iterator_perm (h : t.Proper) : (iterator t).Perm t.below := by
  rw [h.iterator_eq]
  exact levelOrder_perm (length_below t)

theorem Proper.length_iterator (h : t.Proper) : (iterator t).length ≤ t.nodes.length :=
  h.iterator_perm.length_eq.trans_le (length_below t)

end Thing

/-! ## Counts -/

/-- A loop that counts in 32 bits. -/
theorem foldl_count (p : Thing → Bool) (f : Thing → ℕ) (items : List Thing) (n : BitVec 32) :
    items.foldl (fun count i => if p i then count + BitVec.ofNat 32 (f i) else count) n =
      n + BitVec.ofNat 32 ((items.map fun i => if p i then f i else 0).sum) := by
  induction items generalizing n with
  | nil => exact (BitVec.add_zero n).symm
  | cons i items ih =>
    rw [List.foldl_cons, ih, List.map_cons, List.sum_cons]
    split_ifs
    · rw [BitVec.ofNat_add, BitVec.add_assoc]
    · rw [Nat.zero_add]

theorem sum_map_one (p : Thing → Bool) (items : List Thing) :
    (items.map fun i => if p i then 1 else 0).sum = (items.filter p).length := by
  induction items with
  | nil => rfl
  | cons i items ih =>
    rw [List.map_cons, List.sum_cons, ih, List.filter_cons]
    split_ifs
    · rw [List.length_cons, Nat.add_comm]
    · exact Nat.zero_add _

namespace Container

open ContainerIterator

variable {t : Thing}

theorem forEach_start (h : t.Proper) {β : Type} (f : β → Thing → β) (b : β) :
    forEach f t.nodes.length (start t) b = (Thing.iterator t).foldl f b :=
  (yields_iterator t).forEach_eq h.length_iterator b

theorem anyOf_start (h : t.Proper) (p : Thing → Bool) :
    anyOf p t.nodes.length (start t) = true ↔ ∃ i ∈ t.below, p i = true := by
  rw [(yields_iterator t).anyOf_eq h.length_iterator, List.any_eq_true]
  exact exists_congr fun i => and_congr_left fun _ => h.iterator_perm.mem_iff

theorem getItemHoldingCount_eq (h : t.Proper) :
    getItemHoldingCount t = BitVec.ofNat 32 t.below.length := by
  rw [getItemHoldingCount, forEach_start h, ← h.iterator_perm.length_eq]
  refine (foldl_count (fun _ => true) (fun _ => 1) _ 0).trans ?_
  rw [zero_add, sum_map_one (fun _ => true), List.filter_eq_self.2 fun _ _ => rfl]

theorem getContainerHoldingCount_eq (h : t.Proper) :
    getContainerHoldingCount t = BitVec.ofNat 32 (t.below.filter Thing.isContainer).length := by
  rw [getContainerHoldingCount, forEach_start h,
    ← (h.iterator_perm.filter Thing.isContainer).length_eq]
  refine (foldl_count Thing.isContainer (fun _ => 1) _ 0).trans ?_
  rw [zero_add, ← sum_map_one]

theorem isHoldingItem_iff (h : t.Proper) (item : Ref) :
    isHoldingItem t item = true ↔ ∃ i ∈ t.below, i.ref = item := by
  rw [isHoldingItem, anyOf_start h]
  exact exists_congr fun i => and_congr_right fun _ => decide_eq_true_iff

theorem isHoldingItemWithId_iff (h : t.Proper) (id : BitVec 16) :
    isHoldingItemWithId t id = true ↔ ∃ i ∈ t.below, i.label.id = id := by
  rw [isHoldingItemWithId, anyOf_start h]
  exact exists_congr fun i => and_congr_right fun _ => decide_eq_true_iff

theorem getItems_recursive (h : t.Proper) : getItems t true = Thing.iterator t := by
  have hfold : ∀ (items containerItems : List Thing),
      items.foldl (fun containerItems i => containerItems ++ [i]) containerItems =
        containerItems ++ items := by
    intro items
    induction items with
    | nil => exact fun containerItems => (List.append_nil containerItems).symm
    | cons i items ih =>
      intro containerItems
      rw [List.foldl_cons, ih, List.append_assoc, List.singleton_append]
  rw [getItems, if_pos rfl, forEach_start h, hfold, List.nil_append]

/-- The units of an item id and a sub type among items. -/
def unitsOf (types : ItemTable) (itemId : BitVec 16) (subType : BitVec 32) (items : List Thing) :
    ℕ :=
  (items.map fun i =>
    if i.label.id = itemId then i.label.countByType types subType else 0).sum

theorem foldl_unitsOf (types : ItemTable) (itemId : BitVec 16) (subType : BitVec 32)
    (items : List Thing) : items.foldl (fun count item =>
      if item.label.id = itemId then count + BitVec.ofNat 32 (item.label.countByType types subType)
      else count) 0 = BitVec.ofNat 32 (unitsOf types itemId subType items) := by
  have hcount := foldl_count (fun i : Thing => i.label.id = itemId)
    (fun i => i.label.countByType types subType) items 0
  simp only [decide_eq_true_eq, zero_add] at hcount
  rw [hcount, unitsOf]

/-- Only what is right in the container is counted. -/
theorem getItemTypeCount_eq (types : ItemTable) (t : Thing) (itemId : BitVec 16)
    (subType : BitVec 32) : getItemTypeCount types t itemId subType =
      BitVec.ofNat 32 (unitsOf types itemId subType t.children) :=
  foldl_unitsOf types itemId subType t.children

end Container

/-- What the player carries is counted, each item once. -/
theorem Belongings.getItemTypeCount_eq {g : Game} {id : PlayerId} {s : Belongings}
    (h : ∀ t ∈ s.inventory id, t.Proper) (itemId : BitVec 16) (subType : BitVec 32) :
    s.getItemTypeCount g id itemId subType = BitVec.ofNat 32
      (Container.unitsOf g.types itemId subType ((s.inventory id).flatMap nodes)) := by
  have hperm : ((s.inventory id).flatMap fun t => t :: iterated t).Perm
      ((s.inventory id).flatMap nodes) := by
    refine List.Perm.flatMap_left _ fun t ht => ?_
    have hiterated := iterated_perm (h t ht)
    obtain ⟨o, cs⟩ := t
    rw [nodes_node]
    exact hiterated.cons _
  rw [getItemTypeCount, Container.foldl_unitsOf, Container.unitsOf, (hperm.map _).sum_eq,
    Container.unitsOf]

/-! ## Each item once -/

/-- The iterator of a container yields each item below it once, level by level, and ends. So its
    loops count, find and list each of these items once; `Container::getItemTypeCount` counts the
    items right in the container, and `Player::getItemTypeCount` all that the player carries. -/
theorem yields_levelOrder {t : Thing} (h : t.Proper) :
    ((ContainerIterator.start t).Yields (levelOrder t.nodes.length t.children) ∧
      (levelOrder t.nodes.length t.children).Perm t.below) ∧
    Container.getItemHoldingCount t = BitVec.ofNat 32 t.below.length ∧
    Container.getContainerHoldingCount t =
      BitVec.ofNat 32 (t.below.filter Thing.isContainer).length ∧
    (∀ item, Container.isHoldingItem t item = true ↔ ∃ i ∈ t.below, i.ref = item) ∧
    (∀ id, Container.isHoldingItemWithId t id = true ↔ ∃ i ∈ t.below, i.label.id = id) ∧
    Container.getItems t true = levelOrder t.nodes.length t.children ∧
    (∀ types itemId subType, Container.getItemTypeCount types t itemId subType =
      BitVec.ofNat 32 (Container.unitsOf types itemId subType t.children)) ∧
    ∀ (g : Game) (id : PlayerId) (s : Belongings), (∀ t' ∈ s.inventory id, t'.Proper) →
      ∀ itemId subType, s.getItemTypeCount g id itemId subType = BitVec.ofNat 32
        (Container.unitsOf g.types itemId subType ((s.inventory id).flatMap nodes)) := by
  refine ⟨⟨?_, levelOrder_perm (Thing.length_below t)⟩, Container.getItemHoldingCount_eq h,
    Container.getContainerHoldingCount_eq h, Container.isHoldingItem_iff h,
    Container.isHoldingItemWithId_iff h, ?_, fun types => Container.getItemTypeCount_eq types t,
    fun g id s hs => Belongings.getItemTypeCount_eq hs⟩
  · rw [← h.iterator_eq]
    exact ContainerIterator.yields_iterator t
  · rw [Container.getItems_recursive h, h.iterator_eq]

/-- A coin in a bag in a bag. -/
def nested : Thing := bag 0 1 [bag 1 1 [goldCoins 2 1]]

theorem proper_nested : nested.Proper := by
  intro i hi hnone
  simp only [nested, bag, goldCoins, nodes_node, List.flatMap_cons, List.flatMap_nil,
    List.append_nil, List.mem_cons, List.not_mem_nil, or_false] at hi
  rcases hi with rfl | rfl | rfl
  · cases hnone
  · cases hnone
  · rfl

/-- The coin is not counted by `Container::getItemTypeCount`. -/
theorem nested_not_counted : nested.Proper ∧
    Container.getItemTypeCount coinGame.types nested itemGoldCoin (-1) ≠
      BitVec.ofNat 32 (Container.unitsOf coinGame.types itemGoldCoin (-1) nested.below) :=
  ⟨proper_nested, by decide +kernel⟩

theorem nested_yields :
    ((ContainerIterator.start nested).Yields (levelOrder nested.nodes.length nested.children) ∧
      (levelOrder nested.nodes.length nested.children).Perm nested.below) :=
  (yields_levelOrder proper_nested).1

end Canary.Inventory
