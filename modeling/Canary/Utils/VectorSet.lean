import Canary.Lib.SortedList
import Canary.Utils.ArrayList

/-!
# Sorted vectors

Two containers keep their elements in a vector, in order: `vector_set` each once, `vector_sort` as
often as they have been added. Elements are added at the back, and the vector is brought into order
when it is next looked at (`update`).

They do what a set and a multiset do (`VectorSet.refines_set`, `VectorSort.refines_multiset`),
unless a value is erased that is not there while a greater one is: whatever is at its place, where
the first element is that is not less, is erased.
-/

namespace Canary.Utils

open SortedList

universe u

variable {T : Type u} [LinearOrder T]

/-! ## Sets -/

/-- A call of a vector set. -/
inductive SetCall (T : Type u)
  | insert (v : T)
  | emplace (v : T)
  | insertAll (list : List T)
  /-- `insert` of a value or of a range, so far from the beginning. -/
  | insertAt (where_ : ℕ) (list : List T)
  | erase (v : T)
  | eraseIf (fnc : T → Bool)
  | contains (v : T)
  | empty
  | size
  | clear
  | iterate
  | data
  | get (i : ℕ)

structure VectorSet (T : Type u) where
  container : List T := []
  needUpdate : Bool := false

namespace VectorSet

variable (s : VectorSet T)

def update : VectorSet T :=
  if !s.needUpdate then s
  else { container := unique (s.container.insertionSort (· ≤ ·)), needUpdate := false }

/-- A call, if it is defined: an index is one of the vector. -/
def step (s : VectorSet T) : SetCall T → Option (ListResult T × VectorSet T)
  | .insert v => some (.none, ⟨s.container ++ [v], true⟩)
  | .emplace v => some (.value v, ⟨s.container ++ [v], true⟩)
  | .insertAll list => some (.none, ⟨s.container ++ list, true⟩)
  | .insertAt where_ list =>
    let s := s.update
    if where_ > s.container.length then none
    else some (.none, ⟨s.container.take where_ ++ list ++ s.container.drop where_, true⟩)
  | .erase v =>
    let s := s.update
    let it := lowerBound s.container v
    if it = s.container.length then some (.bool false, s)
    else some (.bool true, { s with container := s.container.eraseIdx it })
  | .eraseIf fnc =>
    let s := s.update
    let erased := s.container.filter fun v => !fnc v
    some (.bool (s.container.length - erased.length > 0), { s with container := erased })
  | .contains v =>
    let s := s.update
    some (.bool (binarySearch s.container v), s)
  | .empty => some (.bool (s.container = []), s)
  | .size =>
    let s := s.update
    some (.size s.container.length, s)
  | .clear => some (.none, { s with container := [] })
  | .iterate | .data =>
    let s := s.update
    some (.elements s.container, s)
  | .get i =>
    let s := s.update
    s.container[i]?.map fun v => (.value v, s)

/-- A call on a set. -/
def setStep (t : Finset T) : SetCall T → Option (ListResult T × Finset T)
  | .insert v => some (.none, insert v t)
  | .emplace v => some (.value v, insert v t)
  | .insertAll list => some (.none, t ∪ list.toFinset)
  | .insertAt where_ list => if where_ > t.card then none else some (.none, t ∪ list.toFinset)
  | .erase v => some (.bool (v ∈ t), t.erase v)
  | .eraseIf fnc => some (.bool (∃ v ∈ t, fnc v), t.filter fun v => !fnc v)
  | .contains v => some (.bool (v ∈ t), t)
  | .empty => some (.bool (t = ∅), t)
  | .size => some (.size t.card, t)
  | .clear => some (.none, ∅)
  | .iterate | .data => some (.elements t.sort, t)
  | .get i => t.sort[i]?.map fun v => (.value v, t)

def contents : Finset T := s.container.toFinset

/-- A value is erased that is there, or that is greater than all that is. -/
def InOrder (s : VectorSet T) : SetCall T → Prop
  | .erase v => v ∈ s.contents ∨ ∀ x ∈ s.contents, x < v
  | _ => True

/-- The vector has the elements of the set, in order unless an update is pending. -/
structure Represents (s : VectorSet T) (t : Finset T) : Prop where
  contents_eq : s.contents = t
  sorted : s.needUpdate = false → s.container.Pairwise (· < ·)

variable {s} {t : Finset T}

/-- After an update, the vector is the sorted list of the elements. -/
theorem Represents.update (h : s.Represents t) :
    s.update.Represents t ∧ s.update.container = t.sort := by
  obtain ⟨hcontents, hsorted⟩ := h
  have hupdate : s.update.contents = t ∧ s.update.container.Pairwise (· < ·) := by
    rw [VectorSet.update]
    cases hneed : s.needUpdate
    · exact ⟨hcontents, hsorted hneed⟩
    · refine ⟨?_, pairwise_unique (List.pairwise_insertionSort _ _)⟩
      rw [← hcontents, contents, contents]
      ext v
      rw [List.mem_toFinset, List.mem_toFinset, Bool.not_true, if_neg Bool.false_ne_true, mem_unique,
        List.mem_insertionSort]
  refine ⟨⟨hupdate.1, fun _ => hupdate.2⟩, ?_⟩
  rw [eq_sort hupdate.2, ← contents, hupdate.1]

theorem Represents.add (h : s.Represents t) (list : List T) :
    (VectorSet.mk (s.container ++ list) true).Represents (t ∪ list.toFinset) := by
  refine ⟨?_, nofun⟩
  rw [contents, List.toFinset_append, ← contents, h.contents_eq]

theorem represents_sublist {l : List T} (hl : l.Sublist t.sort) {t' : Finset T}
    (ht' : l.toFinset = t') (b : Bool) : (VectorSet.mk l b).Represents t' :=
  ⟨ht', fun _ => (Finset.sortedLT_sort t).pairwise.sublist hl⟩

/-- Where nothing is greater, a value is found if and only if it is there. -/
theorem lowerBound_sort_eq (t : Finset T) (v : T) :
    lowerBound t.sort v = t.sort.length ↔ ∀ x ∈ t, x < v := by
  rw [lowerBound_eq_length_iff]
  exact forall_congr' fun x => by rw [Finset.mem_sort]

/-- A call in order does what it does on the set. -/
theorem Represents.step (h : s.Represents t) {call : SetCall T} (hcall : s.InOrder call) :
    (s.step call = none ∧ setStep t call = none) ∨ ∃ r s' t',
      s.step call = some (r, s') ∧ setStep t call = some (r, t') ∧ s'.Represents t' := by
  obtain ⟨hupdate, hcontainer⟩ := h.update
  have hsorted := Finset.pairwise_sort t (· ≤ ·)
  cases call with
  | insert v =>
    have hadd := h.add [v]
    rw [List.toFinset_cons, List.toFinset_nil, insert_empty_eq, Finset.union_singleton] at hadd
    exact .inr ⟨_, _, _, rfl, rfl, hadd⟩
  | emplace v =>
    have hadd := h.add [v]
    rw [List.toFinset_cons, List.toFinset_nil, insert_empty_eq, Finset.union_singleton] at hadd
    exact .inr ⟨_, _, _, rfl, rfl, hadd⟩
  | insertAll list => exact .inr ⟨_, _, _, rfl, rfl, h.add list⟩
  | insertAt i list =>
    rw [VectorSet.step, setStep, hcontainer, Finset.length_sort]
    split_ifs
    · exact .inl ⟨rfl, rfl⟩
    · refine .inr ⟨_, _, _, rfl, rfl, ⟨?_, nofun⟩⟩
      ext v
      rw [contents, List.mem_toFinset, List.mem_append, List.mem_append, or_right_comm,
        ← List.mem_append, List.take_append_drop, Finset.mem_sort, Finset.mem_union,
        List.mem_toFinset]
  | erase v =>
    rw [VectorSet.step, setStep, hcontainer]
    by_cases hv : v ∈ t
    · have hfound : lowerBound t.sort v ≠ t.sort.length := fun he =>
        lt_irrefl v ((lowerBound_sort_eq t v).1 he v hv)
      rw [if_neg hfound, decide_eq_true hv, eraseIdx_lowerBound hsorted ((Finset.mem_sort _).2 hv)]
      refine .inr ⟨_, _, _, rfl, rfl, represents_sublist List.erase_sublist ?_ _⟩
      ext x
      rw [List.mem_toFinset, (Finset.sort_nodup t _).mem_erase_iff, Finset.mem_sort,
        Finset.mem_erase]
    · have hless : ∀ x ∈ t, x < v := by
        rw [InOrder, h.contents_eq] at hcall
        exact hcall.resolve_left hv
      rw [if_pos ((lowerBound_sort_eq t v).2 hless), decide_eq_false hv,
        Finset.erase_eq_of_notMem hv]
      exact .inr ⟨_, _, _, rfl, rfl, hupdate⟩
  | eraseIf fnc =>
    rw [VectorSet.step, setStep, hcontainer, ArrayList.bool_erased]
    have hany : t.sort.any fnc = decide (∃ v ∈ t, fnc v = true) := by
      rw [Bool.eq_iff_iff, List.any_eq_true, decide_eq_true_eq]
      exact exists_congr fun x => by rw [Finset.mem_sort]
    rw [hany]
    refine .inr ⟨_, _, _, rfl, rfl, represents_sublist List.filter_sublist ?_ _⟩
    ext x
    rw [List.mem_toFinset, List.mem_filter, Finset.mem_sort, Finset.mem_filter]
  | contains v =>
    have hfound : binarySearch t.sort v = decide (v ∈ t) := by
      rw [Bool.eq_iff_iff, binarySearch_iff hsorted, Finset.mem_sort, decide_eq_true_eq]
    rw [VectorSet.step, setStep, hcontainer, hfound]
    exact .inr ⟨_, _, _, rfl, rfl, hupdate⟩
  | empty =>
    have hempty : decide (s.container = []) = decide (t = ∅) := by
      rw [decide_eq_decide, ← h.contents_eq, contents, List.toFinset_eq_empty_iff]
    rw [VectorSet.step, setStep, hempty]
    exact .inr ⟨_, _, _, rfl, rfl, h⟩
  | size =>
    rw [VectorSet.step, setStep, hcontainer, Finset.length_sort]
    exact .inr ⟨_, _, _, rfl, rfl, hupdate⟩
  | clear => exact .inr ⟨_, _, _, rfl, rfl, ⟨rfl, fun _ => .nil⟩⟩
  | iterate =>
    rw [VectorSet.step, setStep, hcontainer]
    exact .inr ⟨_, _, _, rfl, rfl, hupdate⟩
  | data =>
    rw [VectorSet.step, setStep, hcontainer]
    exact .inr ⟨_, _, _, rfl, rfl, hupdate⟩
  | get i =>
    rw [VectorSet.step, setStep, hcontainer]
    generalize (t.sort)[i]? = found
    rcases found with _ | v
    · exact .inl ⟨rfl, rfl⟩
    · exact .inr ⟨_, _, _, rfl, rfl, hupdate⟩

/-- Another value is erased. -/
theorem Represents.step_differs (h : s.Represents t) {call : SetCall T}
    (hcall : ¬ s.InOrder call) : (s.step call).map (fun p => (p.1, p.2.contents)) ≠
      (setStep t call).map fun p => (p.1, id p.2) := by
  cases call with
  | erase v =>
    rw [InOrder, h.contents_eq, not_or, ← lowerBound_sort_eq] at hcall
    intro heq
    rw [VectorSet.step, h.update.2, if_neg hcall.2, setStep, decide_eq_false hcall.1] at heq
    have hresult := (Prod.mk.inj (Option.some.inj heq)).1
    nomatch hresult
  | _ => exact absurd trivial hcall

theorem refines_set : Trace.Refines (step (T := T)) contents setStep id InOrder Represents where
  view_eq h := h.contents_eq
  same h hcall := h.step hcall
  differs h hcall := h.step_differs hcall

end VectorSet

/-! ## Multisets -/

structure VectorSort (T : Type u) where
  container : List T := []
  needUpdate : Bool := false
  partialBegin : ℕ := 0
  partialEnd : ℕ := 0

/-- `partial_sort` has not been called. -/
def VectorSort.Whole (s : VectorSort T) : Prop := s.partialBegin = 0 ∧ s.partialEnd = 0

/-- A call of a sorted vector. Left out are `partial_sort`, and `data`, which returns a reference to
    a pointer that is gone by then. -/
inductive SortCall (T : Type u)
  | pushBack (v : T)
  | emplaceBack (v : T)
  | insertAll (list : List T)
  | join (list : List T)
  /-- `join` of another sorted vector. -/
  | joinSort (list : { list : VectorSort T // list.Whole })
  | erase (v : T)
  | eraseRange (first last : ℕ)
  | eraseIf (fnc : T → Bool)
  | front
  | back
  | popBack
  | contains (v : T)
  | empty
  | size
  | clear
  | notifySort
  | iterate
  | get (i : ℕ)

namespace VectorSort

variable (s : VectorSort T)

/-- The range that `partial_sort` leaves is sorted. -/
def update : VectorSort T :=
  if !s.needUpdate then s
  else
    let last := s.container.length - s.partialEnd
    let range := (s.container.take last).drop s.partialBegin
    { s with
      container := s.container.take s.partialBegin ++ range.insertionSort (· ≤ ·) ++
        s.container.drop last
      needUpdate := false }

def add (list : List T) : VectorSort T :=
  { s with container := s.container ++ list, needUpdate := true }

def clear : VectorSort T := { s with container := [], partialBegin := 0, partialEnd := 0 }

/-- A call, if it is defined. A list that is joined is left with what the result says. -/
def step (s : VectorSort T) : SortCall T → Option (ListResult T × VectorSort T)
  | .pushBack v => some (.none, s.add [v])
  | .emplaceBack v => some (.value v, s.add [v])
  | .insertAll list => some (.none, s.add list)
  | .join list => some (.elements [], s.add list)
  | .joinSort list =>
    let list := list.1.update
    some (.elements list.clear.container, s.add list.container)
  | .erase v =>
    let s := s.update
    let it := lowerBound s.container v
    if it = s.container.length then some (.bool false, s)
    else some (.bool true, { s with container := s.container.eraseIdx it })
  | .eraseRange first last =>
    let s := s.update
    if first > s.container.length ∨ last > s.container.length then some (.bool false, s)
    else if first > last then none
    else some (.bool true,
      { s with container := s.container.take first ++ s.container.drop last })
  | .eraseIf fnc =>
    let s := s.update
    let erased := s.container.filter fun v => !fnc v
    some (.bool (s.container.length - erased.length > 0), { s with container := erased })
  | .front =>
    let s := s.update
    s.container.head?.map fun v => (.value v, s)
  | .back =>
    let s := s.update
    s.container.getLast?.map fun v => (.value v, s)
  | .popBack =>
    let s := s.update
    if s.container = [] then none
    else some (.none, { s with container := s.container.dropLast })
  | .contains v =>
    let s := s.update
    some (.bool (binarySearch s.container v), s)
  | .empty => some (.bool (s.container = []), s)
  | .size => some (.size s.container.length, s)
  | .clear => some (.none, s.clear)
  | .notifySort => some (.none, { s with needUpdate := true })
  | .iterate =>
    let s := s.update
    some (.elements s.container, s)
  | .get i =>
    let s := s.update
    s.container[i]?.map fun v => (.value v, s)

def contents : Multiset T := s.container

/-- A call on a multiset. -/
def multisetStep (t : Multiset T) : SortCall T → Option (ListResult T × Multiset T)
  | .pushBack v => some (.none, v ::ₘ t)
  | .emplaceBack v => some (.value v, v ::ₘ t)
  | .insertAll list => some (.none, t + list)
  | .join list => some (.elements [], t + list)
  | .joinSort list => some (.elements [], t + list.1.contents)
  | .erase v => some (.bool (v ∈ t), t.erase v)
  | .eraseRange first last =>
    if first > t.card ∨ last > t.card then some (.bool false, t)
    else if first > last then none
    else some (.bool true, ↑(t.sort.take first ++ t.sort.drop last))
  | .eraseIf fnc => some (.bool (t.filter (fun v => fnc v) ≠ 0), t.filter fun v => !fnc v)
  | .front => t.sort.head?.map fun v => (.value v, t)
  | .back => t.sort.getLast?.map fun v => (.value v, t)
  | .popBack => if t = 0 then none else some (.none, ↑t.sort.dropLast)
  | .contains v => some (.bool (v ∈ t), t)
  | .empty => some (.bool (t = 0), t)
  | .size => some (.size t.card, t)
  | .clear => some (.none, 0)
  | .notifySort => some (.none, t)
  | .iterate => some (.elements t.sort, t)
  | .get i => t.sort[i]?.map fun v => (.value v, t)

/-- A value is erased that is there, or that is greater than all that is. -/
def InOrder (s : VectorSort T) : SortCall T → Prop
  | .erase v => v ∈ s.contents ∨ ∀ x ∈ s.contents, x < v
  | _ => True

/-- The vector has the elements of the multiset, in order unless an update is pending. -/
structure Represents (s : VectorSort T) (t : Multiset T) : Prop where
  contents_eq : s.contents = t
  sorted : s.needUpdate = false → s.container.Pairwise (· ≤ ·)
  whole : s.Whole

variable {s} {t : Multiset T}

theorem update_of_needUpdate (hs : s.Whole) (hneed : s.needUpdate = true) :
    s.update = { s with container := s.container.insertionSort (· ≤ ·), needUpdate := false } := by
  rw [update, hneed, Bool.not_true, if_neg Bool.false_ne_true, hs.1, hs.2]
  dsimp only
  rw [List.take_zero, List.nil_append, Nat.sub_zero, List.take_length, List.drop_zero,
    List.drop_length, List.append_nil]

theorem update_of_not_needUpdate (hneed : s.needUpdate = false) : s.update = s := by
  rw [update, hneed]
  rfl

/-- An update keeps the elements. -/
theorem Whole.contents_update (hs : s.Whole) : s.update.contents = s.contents := by
  cases hneed : s.needUpdate
  · rw [update_of_not_needUpdate hneed]
  · rw [update_of_needUpdate hs hneed]
    exact Multiset.coe_eq_coe.2 (List.perm_insertionSort _ _)

/-- After an update, the vector is the sorted list of the elements. -/
theorem Represents.update (h : s.Represents t) :
    s.update.Represents t ∧ s.update.container = t.sort := by
  obtain ⟨hcontents, hsorted, hwhole⟩ := h
  have hupdate : s.update.container.Pairwise (· ≤ ·) ∧ s.update.Whole := by
    cases hneed : s.needUpdate
    · rw [update_of_not_needUpdate hneed]
      exact ⟨hsorted hneed, hwhole⟩
    · rw [update_of_needUpdate hwhole hneed]
      exact ⟨List.pairwise_insertionSort _ _, hwhole⟩
  refine ⟨⟨hwhole.contents_update.trans hcontents, fun _ => hupdate.1, hupdate.2⟩, ?_⟩
  have hperm : s.update.container.Perm t.sort := by
    rw [← Multiset.coe_eq_coe, Multiset.sort_eq, ← hcontents, ← hwhole.contents_update, contents]
  exact hperm.eq_of_pairwise' hupdate.1 (Multiset.pairwise_sort t _)

theorem Represents.add (h : s.Represents t) (list : List T) :
    (s.add list).Represents (t + list) := by
  refine ⟨?_, nofun, h.whole⟩
  rw [contents, VectorSort.add, ← Multiset.coe_add, ← contents, h.contents_eq]

theorem Represents.sublist (h : s.Represents t) {l : List T} (hl : l.Sublist t.sort) :
    ({ s with container := l } : VectorSort T).Represents l :=
  ⟨rfl, fun _ => (Multiset.pairwise_sort t _).sublist hl, h.whole⟩

/-- Where nothing is greater, a value is found if and only if it is there. -/
theorem lowerBound_sort_eq (t : Multiset T) (v : T) :
    lowerBound t.sort v = t.sort.length ↔ ∀ x ∈ t, x < v := by
  rw [lowerBound_eq_length_iff]
  exact forall_congr' fun x => by rw [Multiset.mem_sort]

/-- A call in order does what it does on the multiset. -/
theorem Represents.step (h : s.Represents t) {call : SortCall T} (hcall : s.InOrder call) :
    (s.step call = none ∧ multisetStep t call = none) ∨ ∃ r s' t',
      s.step call = some (r, s') ∧ multisetStep t call = some (r, t') ∧ s'.Represents t' := by
  obtain ⟨hupdate, hcontainer⟩ := h.update
  have hsorted := Multiset.pairwise_sort t (· ≤ ·)
  have hlength : t.sort.length = t.card := Multiset.length_sort _
  cases call with
  | pushBack v =>
    have hadd := h.add [v]
    rw [Multiset.coe_singleton, add_comm, Multiset.singleton_add] at hadd
    exact .inr ⟨_, _, _, rfl, rfl, hadd⟩
  | emplaceBack v =>
    have hadd := h.add [v]
    rw [Multiset.coe_singleton, add_comm, Multiset.singleton_add] at hadd
    exact .inr ⟨_, _, _, rfl, rfl, hadd⟩
  | insertAll list => exact .inr ⟨_, _, _, rfl, rfl, h.add list⟩
  | join list => exact .inr ⟨_, _, _, rfl, rfl, h.add list⟩
  | joinSort list =>
    have hadd := h.add list.1.update.container
    rw [← contents, list.2.contents_update] at hadd
    exact .inr ⟨_, _, _, rfl, rfl, hadd⟩
  | erase v =>
    rw [VectorSort.step, multisetStep, hcontainer]
    by_cases hv : v ∈ t
    · have hfound : lowerBound t.sort v ≠ t.sort.length := fun he =>
        lt_irrefl v ((lowerBound_sort_eq t v).1 he v hv)
      rw [if_neg hfound, decide_eq_true hv,
        eraseIdx_lowerBound hsorted ((Multiset.mem_sort _).2 hv)]
      refine .inr ⟨_, _, _, rfl, rfl, ?_⟩
      have hrest := hupdate.sublist (List.erase_sublist (a := v) (l := t.sort))
      rwa [← Multiset.coe_erase, Multiset.sort_eq] at hrest
    · have hless : ∀ x ∈ t, x < v := by
        rw [InOrder, h.contents_eq] at hcall
        exact hcall.resolve_left hv
      rw [if_pos ((lowerBound_sort_eq t v).2 hless), decide_eq_false hv,
        Multiset.erase_of_notMem hv]
      exact .inr ⟨_, _, _, rfl, rfl, hupdate⟩
  | eraseRange first last =>
    rw [VectorSort.step, multisetStep, hcontainer, hlength]
    split_ifs with hin horder
    · exact .inr ⟨_, _, _, rfl, rfl, hupdate⟩
    · exact .inl ⟨rfl, rfl⟩
    · refine .inr ⟨_, _, _, rfl, rfl, hupdate.sublist ?_⟩
      have hdrop : (t.sort.drop last).Sublist (t.sort.drop first) := by
        rw [← Nat.add_sub_cancel' (Nat.not_lt.1 horder), ← List.drop_drop]
        exact List.drop_sublist _ _
      have happend := hdrop.append_left (t.sort.take first)
      rwa [List.take_append_drop] at happend
  | eraseIf fnc =>
    rw [VectorSort.step, multisetStep, hcontainer, ArrayList.bool_erased]
    have hany : t.sort.any fnc = decide (t.filter (fun v => fnc v) ≠ 0) := by
      rw [Bool.eq_iff_iff, List.any_eq_true, decide_eq_true_eq, ne_eq, Multiset.filter_eq_nil]
      simp
    have hfilter : t.filter (fun v => !fnc v) = ↑(t.sort.filter fun v => !fnc v) := by
      conv_lhs => rw [← Multiset.sort_eq t (· ≤ ·), Multiset.filter_coe]
      simp only [Bool.decide_eq_true]
    rw [hany, hfilter]
    exact .inr ⟨_, _, _, rfl, rfl, hupdate.sublist List.filter_sublist⟩
  | front =>
    rw [VectorSort.step, multisetStep, hcontainer]
    generalize (t.sort).head? = found
    rcases found with _ | v
    · exact .inl ⟨rfl, rfl⟩
    · exact .inr ⟨_, _, _, rfl, rfl, hupdate⟩
  | back =>
    rw [VectorSort.step, multisetStep, hcontainer]
    generalize (t.sort).getLast? = found
    rcases found with _ | v
    · exact .inl ⟨rfl, rfl⟩
    · exact .inr ⟨_, _, _, rfl, rfl, hupdate⟩
  | popBack =>
    have hempty : t.sort = [] ↔ t = 0 := by
      rw [← List.length_eq_zero_iff, hlength, Multiset.card_eq_zero]
    rw [VectorSort.step, multisetStep, hcontainer]
    by_cases ht : t = 0
    · rw [if_pos (hempty.2 ht), if_pos ht]
      exact .inl ⟨rfl, rfl⟩
    · rw [if_neg (mt hempty.1 ht), if_neg ht]
      exact .inr ⟨_, _, _, rfl, rfl, hupdate.sublist (List.dropLast_sublist _)⟩
  | contains v =>
    have hfound : binarySearch t.sort v = decide (v ∈ t) := by
      rw [Bool.eq_iff_iff, binarySearch_iff hsorted, Multiset.mem_sort, decide_eq_true_eq]
    rw [VectorSort.step, multisetStep, hcontainer, hfound]
    exact .inr ⟨_, _, _, rfl, rfl, hupdate⟩
  | empty =>
    have hempty : decide (s.container = []) = decide (t = 0) := by
      rw [decide_eq_decide, ← h.contents_eq, contents, Multiset.coe_eq_zero]
    rw [VectorSort.step, multisetStep, hempty]
    exact .inr ⟨_, _, _, rfl, rfl, h⟩
  | size =>
    have hsize : s.container.length = t.card := by
      rw [← h.contents_eq, contents, Multiset.coe_card]
    rw [VectorSort.step, multisetStep, hsize]
    exact .inr ⟨_, _, _, rfl, rfl, h⟩
  | clear => exact .inr ⟨_, _, _, rfl, rfl, ⟨rfl, fun _ => .nil, ⟨rfl, rfl⟩⟩⟩
  | notifySort => exact .inr ⟨_, _, _, rfl, rfl, ⟨h.contents_eq, nofun, h.whole⟩⟩
  | iterate =>
    rw [VectorSort.step, multisetStep, hcontainer]
    exact .inr ⟨_, _, _, rfl, rfl, hupdate⟩
  | get i =>
    rw [VectorSort.step, multisetStep, hcontainer]
    generalize (t.sort)[i]? = found
    rcases found with _ | v
    · exact .inl ⟨rfl, rfl⟩
    · exact .inr ⟨_, _, _, rfl, rfl, hupdate⟩

/-- Another value is erased. -/
theorem Represents.step_differs (h : s.Represents t) {call : SortCall T}
    (hcall : ¬ s.InOrder call) : (s.step call).map (fun p => (p.1, p.2.contents)) ≠
      (multisetStep t call).map fun p => (p.1, id p.2) := by
  cases call with
  | erase v =>
    rw [InOrder, h.contents_eq, not_or, ← lowerBound_sort_eq] at hcall
    intro heq
    rw [VectorSort.step, h.update.2, if_neg hcall.2, multisetStep, decide_eq_false hcall.1] at heq
    have hresult := (Prod.mk.inj (Option.some.inj heq)).1
    nomatch hresult
  | _ => exact absurd trivial hcall

theorem refines_multiset :
    Trace.Refines (step (T := T)) contents multisetStep id InOrder Represents where
  view_eq h := h.contents_eq
  same h hcall := h.step hcall
  differs h hcall := h.step_differs hcall

end VectorSort

/-! ## Both -/

/-- What is seen of the vectors is what is seen of a set and of a multiset, from the empty one on,
    if and only if no value is erased that is not there while a greater one is. -/
theorem sorted_traces_iff :
    (∀ calls : List (SetCall T), Trace.trace VectorSet.step VectorSet.contents {} calls =
        Trace.trace VectorSet.setStep id ∅ calls ↔
      Trace.Meets VectorSet.step VectorSet.InOrder {} calls) ∧
    ∀ calls : List (SortCall T), Trace.trace VectorSort.step VectorSort.contents {} calls =
        Trace.trace VectorSort.multisetStep id 0 calls ↔
      Trace.Meets VectorSort.step VectorSort.InOrder {} calls :=
  ⟨VectorSet.refines_set.traces_agree_iff ⟨rfl, fun _ => .nil⟩,
    VectorSort.refines_multiset.traces_agree_iff ⟨rfl, fun _ => .nil, ⟨rfl, rfl⟩⟩⟩

/-- 2 is erased for 1. -/
theorem erase_of_greater :
    VectorSet.step (T := ℕ) ⟨[2], false⟩ (.erase 1) = some (.bool true, ⟨[], false⟩) ∧
      Trace.trace VectorSet.step VectorSet.contents {} [.insert 2, .erase 1] ≠
        Trace.trace VectorSet.setStep id (∅ : Finset ℕ) [.insert 2, .erase 1] ∧
      Trace.trace VectorSort.step VectorSort.contents {} [.pushBack 2, .erase 1] ≠
        Trace.trace VectorSort.multisetStep id (0 : Multiset ℕ) [.pushBack 2, .erase 1] :=
  ⟨rfl, by decide +kernel, by decide +kernel⟩

end Canary.Utils
