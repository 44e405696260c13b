import Canary.Login.Items

/-!
# The rows of saved items

The rows are numbered one after the other (`sid_saveItems`), there is one for each item
(`length_saveItems`), and those of the items in a container have its number, and are one
after the other as well (`Pending.kids_eq`). The containers in the queue are still to be saved
(`Pending`), which the loop over the queue keeps (`Pending.step`).

Hence what is loaded holds the items that were saved, as soon as the map says of every number what
its row says, and the list of a container is that of the rows with its number
(`holdsAll_saveQueue`).
-/

namespace Canary.Login

variable {α β : Type*} (C : Codec α β)

theorem map_number (itemList : List (ℕ × Item α)) (runningId : ℕ) :
    (number itemList runningId).map (·.2) = List.range' (runningId + 1) itemList.length :=
  List.zipIdx_map_snd _ _

theorem map_item_number (itemList : List (ℕ × Item α)) (runningId : ℕ) :
    (number itemList runningId).map (·.1.2) = itemList.map (·.2) := by
  have hfst : (number itemList runningId).map (·.1) = itemList := List.zipIdx_map_fst _ _
  conv_rhs => rw [← hfst, List.map_map]
  rfl

theorem map_sid_number (itemList : List (ℕ × Item α)) (runningId : ℕ) :
    ((number itemList runningId).map (row C)).map (·.sid) =
      List.range' (runningId + 1) itemList.length := by
  rw [← map_number, List.map_map]
  rfl

/-- The containers in the queue have different numbers, those of the items. -/
theorem containers_sublist (itemList : List (ℕ × Item α)) (runningId : ℕ) :
    ((containers (number itemList runningId)).map (·.2)).Sublist
      (List.range' (runningId + 1) itemList.length) := by
  rw [← map_number]
  induction itemList generalizing runningId with
  | nil => exact List.Sublist.refl _
  | cons e itemList ih =>
    rw [number_cons, containers_cons, List.map_append, List.map_cons]
    rcases e with ⟨pid, a | ⟨a, itemlist⟩⟩
    · exact (ih _).cons _
    · exact (ih _).cons_cons _

theorem mem_containers {itemList : List (ℕ × Item α)} {runningId sid : ℕ}
    (h : sid ∈ (containers (number itemList runningId)).map (·.2)) :
    runningId < sid ∧ sid ≤ runningId + itemList.length := by
  have hmem := List.mem_range'_1.1 ((containers_sublist itemList runningId).subset h)
  omega

/-- The numbers of the rows with this `pid`. -/
def kids (rows : List (Row β)) (pid : ℕ) : List ℕ := (rows.filter (·.pid = pid)).map (·.sid)

theorem kids_append (rows rows' : List (Row β)) (pid : ℕ) :
    kids (rows ++ rows') pid = kids rows pid ++ kids rows' pid := by
  rw [kids, List.filter_append, List.map_append]
  rfl

theorem kids_eq_nil {rows : List (Row β)} {pid : ℕ} (h : ∀ r ∈ rows, r.pid ≠ pid) :
    kids rows pid = [] := by
  have hnil : rows.filter (·.pid = pid) = [] :=
    List.filter_eq_nil_iff.2 fun r hr => by simpa using h r hr
  rw [kids, hnil, List.map_nil]

theorem pid_within (itemlist : List (Item α)) (parentId runningId : ℕ) :
    ∀ r ∈ (number (within itemlist parentId) runningId).map (row C), r.pid = parentId := by
  intro r hr
  obtain ⟨e, he, rfl⟩ := List.mem_map.1 hr
  obtain ⟨x, -, hx⟩ := List.mem_map.1 (List.fst_mem_of_mem_zipIdx he)
  rw [row, ← hx]

/-- The rows of a container are one after the other. -/
theorem kids_within (itemlist : List (Item α)) (parentId runningId : ℕ) :
    kids ((number (within itemlist parentId) runningId).map (row C)) parentId =
      List.range' (runningId + 1) itemlist.length := by
  have hall : ((number (within itemlist parentId) runningId).map (row C)).filter
      (·.pid = parentId) = (number (within itemlist parentId) runningId).map (row C) :=
    List.filter_eq_self.2 fun r hr => decide_eq_true (pid_within C _ _ _ r hr)
  rw [kids, hall, map_sid_number, within, List.length_map]

/-- A row is for an item of a container in the queue, or of one that is found later. -/
theorem pid_saveQueue (queue : Queue α) (runningId : ℕ) :
    ∀ r ∈ saveQueue C queue runningId, r.pid ∈ queue.map (·.2) ∨ runningId < r.pid := by
  fun_induction saveQueue C queue runningId with
  | case1 => exact fun _ h => absurd h List.not_mem_nil
  | case2 runningId itemlist parentId queue numbered ih =>
    intro r hr
    rcases List.mem_append.1 hr with hr | hr
    · exact .inl (List.mem_cons.2 (.inl (pid_within C _ _ _ r hr)))
    · rcases ih r hr with hpid | hpid
      · rw [List.map_append] at hpid
        rcases List.mem_append.1 hpid with hpid | hpid
        · exact .inl (List.mem_cons_of_mem _ hpid)
        · exact .inr (mem_containers hpid).1
      · exact .inr (by omega)

/-- The rows are numbered one after the other. -/
theorem sid_saveQueue (queue : Queue α) (runningId : ℕ) :
    ∃ k, (saveQueue C queue runningId).map (·.sid) = List.range' (runningId + 1) k := by
  fun_induction saveQueue C queue runningId with
  | case1 => exact ⟨0, rfl⟩
  | case2 runningId itemlist parentId queue numbered ih =>
    obtain ⟨k, hk⟩ := ih
    refine ⟨itemlist.length + k, ?_⟩
    rw [List.map_append, hk, map_sid_number, within, List.length_map, ← List.range'_append_1]
    congr 2
    omega

theorem sid_saveItems (itemList : List (ℕ × Item α)) :
    ∃ k, (saveItems C itemList).map (·.sid) = List.range' 101 k := by
  obtain ⟨k, hk⟩ := sid_saveQueue C (containers (number itemList 100)) (100 + itemList.length)
  refine ⟨itemList.length + k, ?_⟩
  rw [saveItems, List.map_append, hk, map_sid_number, ← List.range'_append_1]
  congr 2
  omega

section Rows

variable {C} {rows : List (Row β)} {get : ℕ → Option (α × Bool)} {list : ℕ → List ℕ}

/-- An item that has a row is held by its number, if a container holds its items. -/
theorem holds_of_mem_number
    (hget : ∀ r ∈ rows, ∀ x, C.create r.item = some x → get r.sid = some x)
    (hlist : ∀ sid a, 100 < sid → get sid = some (a, true) → list sid = kids rows sid)
    {itemList : List (ℕ × Item α)} {runningId : ℕ} (hid : 100 ≤ runningId)
    (hrows : ∀ e ∈ number itemList runningId, row C e ∈ rows)
    (hcontainers : ∀ e ∈ containers (number itemList runningId),
      HoldsAll get list e.1 (kids rows e.2)) :
    ∀ e ∈ number itemList runningId, Holds get list e.1.2 e.2 := by
  intro e he
  have hrow := hget _ (hrows e he) _ (C.create_serialize _ _)
  have hsid : runningId + 1 ≤ e.2 := List.le_snd_of_mem_zipIdx he
  rcases e with ⟨⟨pid, a | ⟨a, itemlist⟩⟩, sid⟩
  · exact hrow
  · refine ⟨hrow, ?_⟩
    rw [hlist sid a (by omega) hrow]
    exact hcontainers (itemlist, sid) (List.mem_filterMap.2 ⟨_, he, rfl⟩)

theorem holdsAll_map (numbered : List ((ℕ × Item α) × ℕ))
    (h : ∀ e ∈ numbered, Holds get list e.1.2 e.2) :
    HoldsAll get list (numbered.map (·.1.2)) (numbered.map (·.2)) := by
  induction numbered with
  | nil => rfl
  | cons e numbered ih =>
    exact ⟨e.2, _, rfl, h e List.mem_cons_self, ih fun e' he' => h e' (List.mem_cons_of_mem _ he')⟩

/-- Containers that have rows are containers. -/
theorem get_of_mem_containers
    (hget : ∀ r ∈ rows, ∀ x, C.create r.item = some x → get r.sid = some x)
    {itemList : List (ℕ × Item α)} {runningId : ℕ}
    (hrows : ∀ e ∈ number itemList runningId, row C e ∈ rows) :
    ∀ sid ∈ (containers (number itemList runningId)).map (·.2), ∃ a, get sid = some (a, true) := by
  intro sid hsid
  obtain ⟨e, he, rfl⟩ := List.mem_map.1 hsid
  obtain ⟨⟨⟨pid, x⟩, sid⟩, hx, hcontainer⟩ := List.mem_filterMap.1 he
  obtain ⟨itemlist, hitemlist, rfl⟩ := Option.map_eq_some_iff.1 hcontainer
  refine ⟨x.data, hget _ (hrows _ hx) _ ?_⟩
  rw [row, C.create_serialize, hitemlist]
  rfl

/-- The containers of the queue are still to be saved: none of the rows so far is in one. -/
structure Pending (queue : Queue α) (runningId : ℕ) (before : List (Row β)) : Prop where
  nodup : (queue.map (·.2)).Nodup
  le : ∀ sid ∈ queue.map (·.2), sid ≤ runningId
  pid_le : ∀ r ∈ before, r.pid ≤ runningId
  pid_notin : ∀ r ∈ before, r.pid ∉ queue.map (·.2)

variable {queue : Queue α} {runningId parentId : ℕ} {itemlist : List (Item α)}
  {before : List (Row β)}

theorem Pending.notin (h : Pending ((itemlist, parentId) :: queue) runningId before) :
    parentId ∉ (queue ++ containers (number (within itemlist parentId) runningId)).map (·.2) := by
  rw [List.map_append]
  intro hmem
  rcases List.mem_append.1 hmem with hmem | hmem
  · exact (List.nodup_cons.1 h.nodup).1 hmem
  · exact absurd (h.le parentId List.mem_cons_self) (Nat.not_le.2 (mem_containers hmem).1)

/-- The items of the first container are saved, and the containers among them are pending. -/
theorem Pending.step (h : Pending ((itemlist, parentId) :: queue) runningId before) :
    Pending (queue ++ containers (number (within itemlist parentId) runningId))
      (runningId + itemlist.length)
      (before ++ (number (within itemlist parentId) runningId).map (row C)) := by
  have hparent : parentId ≤ runningId := h.le parentId List.mem_cons_self
  have hfound : ∀ sid ∈ (containers (number (within itemlist parentId) runningId)).map (·.2),
      runningId < sid ∧ sid ≤ runningId + itemlist.length := by
    intro sid hsid
    have hsid := mem_containers hsid
    rwa [within, List.length_map] at hsid
  have hpid := pid_within C itemlist parentId runningId
  constructor
  · rw [List.map_append]
    refine List.nodup_append.2 ⟨(List.nodup_cons.1 h.nodup).2,
      (containers_sublist _ _).nodup List.nodup_range', fun sid hsid sid' hsid' heq => ?_⟩
    -- The numbers in the queue were given before those that are found now.
    have hle := h.le sid (List.mem_cons_of_mem _ hsid)
    exact absurd hle (Nat.not_le.2 (heq ▸ (hfound sid' hsid').1))
  · intro sid hsid
    rw [List.map_append] at hsid
    rcases List.mem_append.1 hsid with hsid | hsid
    · exact Nat.le_add_right_of_le (h.le sid (List.mem_cons_of_mem _ hsid))
    · exact (hfound sid hsid).2
  · intro r hr
    rcases List.mem_append.1 hr with hr | hr
    · exact Nat.le_add_right_of_le (h.pid_le r hr)
    · exact Nat.le_add_right_of_le (hpid r hr ▸ hparent)
  · intro r hr
    rcases List.mem_append.1 hr with hr | hr
    · rw [List.map_append]
      intro hmem
      rcases List.mem_append.1 hmem with hmem | hmem
      · exact h.pid_notin r hr (List.mem_cons_of_mem _ hmem)
      · exact absurd (h.pid_le r hr) (Nat.not_le.2 (hfound _ hmem).1)
    · rw [hpid r hr]
      exact h.notin

/-- The items of a container are in the rows that are written for it, and in no others. -/
theorem Pending.kids_eq (h : Pending ((itemlist, parentId) :: queue) runningId before) :
    kids (before ++ ((number (within itemlist parentId) runningId).map (row C) ++
      saveQueue C (queue ++ containers (number (within itemlist parentId) runningId))
        (runningId + itemlist.length))) parentId =
      List.range' (runningId + 1) itemlist.length := by
  have hbefore : kids before parentId = [] :=
    kids_eq_nil fun r hr heq => h.pid_notin r hr (heq ▸ List.mem_cons_self)
  have hafter : kids (saveQueue C
      (queue ++ containers (number (within itemlist parentId) runningId))
      (runningId + itemlist.length)) parentId = [] := by
    refine kids_eq_nil fun r hr heq => ?_
    have hle : parentId ≤ runningId := h.le parentId List.mem_cons_self
    rcases pid_saveQueue C _ _ r hr with hpid | hpid
    · exact h.notin (heq ▸ hpid)
    · omega
  rw [kids_append, kids_append, hbefore, hafter, kids_within, List.nil_append, List.append_nil]

/-- The containers in the queue hold their items, and all that are saved are in one of them. -/
theorem holdsAll_saveQueue
    (hget : ∀ r ∈ rows, ∀ x, C.create r.item = some x → get r.sid = some x)
    (hlist : ∀ sid a, 100 < sid → get sid = some (a, true) → list sid = kids rows sid)
    (hall : rows = before ++ saveQueue C queue runningId) (hid : 100 ≤ runningId)
    (hpending : Pending queue runningId before)
    (hcontainer : ∀ sid ∈ queue.map (·.2), ∃ a, get sid = some (a, true)) :
    (∀ e ∈ queue, HoldsAll get list e.1 (kids rows e.2)) ∧
      ∀ r ∈ saveQueue C queue runningId, ∃ a, get r.pid = some (a, true) := by
  fun_induction saveQueue C queue runningId generalizing before with
  | case1 => exact ⟨fun _ h => absurd h List.not_mem_nil, fun _ h => absurd h List.not_mem_nil⟩
  | case2 runningId itemlist parentId queue numbered =>
    rename_i ih
    have hrows : ∀ e ∈ number (within itemlist parentId) runningId, row C e ∈ rows := by
      intro e he
      rw [hall]
      exact List.mem_append_right _ (List.mem_append_left _ (List.mem_map_of_mem he))
    -- The induction is on the loop; what it holds of is the queue after one container.
    obtain ⟨hqueue, hrest⟩ := ih (hall.trans (List.append_assoc _ _ _).symm)
      (Nat.le_add_right_of_le hid) hpending.step (by
        intro sid hsid
        rw [List.map_append] at hsid
        rcases List.mem_append.1 hsid with hsid | hsid
        · exact hcontainer sid (List.mem_cons_of_mem _ hsid)
        · exact get_of_mem_containers hget hrows sid hsid)
    constructor
    · intro e he
      rcases List.mem_cons.1 he with rfl | he
      · -- The rows of the first container are those that were written here.
        have hholds := holdsAll_map _ (holds_of_mem_number hget hlist hid hrows fun e he =>
          hqueue e (List.mem_append_right _ he))
        rw [map_item_number, map_within, map_number, within, List.length_map] at hholds
        rw [hall, hpending.kids_eq]
        exact hholds
      · exact hqueue e (List.mem_append_left _ he)
    · intro r hr
      rcases List.mem_append.1 hr with hr | hr
      · rw [pid_within C _ _ _ r hr]
        exact hcontainer parentId List.mem_cons_self
      · exact hrest r hr

end Rows

/-- Items are those that are counted, and those in the containers among them. -/
theorem sizes_eq (itemList : List (ℕ × Item α)) (runningId : ℕ) :
    Item.sizes (itemList.map (·.2)) = itemList.length +
      ((containers (number itemList runningId)).map fun e => Item.sizes e.1).sum := by
  induction itemList generalizing runningId with
  | nil => rfl
  | cons e itemList ih =>
    rw [number_cons, containers_cons, List.map_append, List.sum_append, List.map_cons,
      Item.sizes, ih (runningId + 1), List.length_cons]
    rcases e with ⟨pid, a | ⟨a, itemlist⟩⟩
    · simp only [Item.size, Item.getContainer, Option.map_none, Option.toList_none, List.map_nil,
        List.sum_nil]
      omega
    · simp only [Item.size, Item.getContainer, Option.map_some, Option.toList_some,
        List.map_singleton, List.sum_singleton]
      omega

/-- There is a row for every item. -/
theorem length_saveQueue (queue : Queue α) (runningId : ℕ) :
    (saveQueue C queue runningId).length = (queue.map fun e => Item.sizes e.1).sum := by
  fun_induction saveQueue C queue runningId with
  | case1 => rfl
  | case2 runningId itemlist parentId queue numbered ih =>
    have hsizes : Item.sizes ((within itemlist parentId).map (·.2)) =
        (within itemlist parentId).length +
          ((containers numbered).map fun e => Item.sizes e.1).sum := sizes_eq _ _
    have hlength : numbered.length = (within itemlist parentId).length := List.length_zipIdx
    rw [map_within] at hsizes
    rw [List.length_append, List.length_map, hlength, ih, List.map_append, List.sum_append,
      List.map_cons, List.sum_cons, hsizes]
    omega

theorem length_saveItems (itemList : List (ℕ × Item α)) :
    (saveItems C itemList).length = Item.sizes (itemList.map (·.2)) := by
  have hlength : (number itemList 100).length = itemList.length := List.length_zipIdx
  rw [saveItems, List.length_append, List.length_map, hlength, length_saveQueue,
    ← sizes_eq itemList 100]

end Canary.Login
