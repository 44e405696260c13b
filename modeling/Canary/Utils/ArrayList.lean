import Canary.Lib.Trace
import Mathlib.Data.List.Basic

/-!
# The array list

An array list has two vectors: elements are added to the back of one, and to the front of the list
by adding them to the back of the other one, which is in reverse order. Most accesses first bring
all elements into one vector (`update`).

An array list does what a sequence does (`refines_sequence`), unless a list is assigned while there
are elements in the front vector, which stay, or the end is asked for before the beginning while an
update is pending, which leaves the end invalid.
-/

namespace Canary.Utils

universe u

/-- An iterator of a vector: when it was made, and its index. -/
structure VectorIterator where
  generation : ℕ
  index : ℕ

structure ArrayList (T : Type u) where
  backContainer : List T := []
  frontContainer : List T := []
  needUpdate : Bool := false
  /-- How often the iterators of `backContainer` may have become invalid. -/
  generation : ℕ := 0

/-- A call of an array list. `beginEnd` and `endBegin` are pairs of iterators, the first one of the
    name being made first. -/
inductive ListCall (T : Type u)
  | pushBack (v : T)
  | pushFront (v : T)
  | emplaceBack (v : T)
  | emplaceFront (v : T)
  | popBack
  | erase (v : T)
  | eraseRange (first last : ℕ)
  | eraseIf (fnc : T → Bool)
  | assign (list : List T)
  | clear
  | contains (v : T)
  | front
  | back
  | empty
  | size
  | get (i : ℕ)
  | data
  | beginEnd
  | endBegin

/-- What a call returns. -/
inductive ListResult (T : Type u)
  | none
  | bool (b : Bool)
  | value (v : T)
  | size (n : ℕ)
  | elements (list : List T)
  | invalid
  deriving DecidableEq

namespace ArrayList

variable {T : Type u} (s : ArrayList T)

def update : ArrayList T :=
  if !s.needUpdate then s
  else
    let frontContainer := s.frontContainer.reverse ++ s.backContainer
    { backContainer := [] ++ frontContainer, frontContainer := [], needUpdate := false,
      generation := s.generation + 1 }

def setBack (backContainer : List T) : ArrayList T :=
  { s with backContainer := backContainer, generation := s.generation + 1 }

def pushFront (v : T) : ArrayList T :=
  { s with needUpdate := true, frontContainer := s.frontContainer ++ [v] }

def size : ℕ := s.backContainer.length + s.frontContainer.length

def begin : VectorIterator × ArrayList T := (⟨s.update.generation, 0⟩, s.update)

def end_ : VectorIterator := ⟨s.generation, s.backContainer.length⟩

/-- The elements between two iterators, if these are valid. -/
def range (first last : VectorIterator) : ListResult T :=
  if first.generation = s.generation ∧ last.generation = s.generation then
    .elements ((s.backContainer.take last.index).drop first.index)
  else .invalid

variable [DecidableEq T]

/-- A call, if it is defined: there is an element to be accessed, and a range is not reversed. -/
def step (s : ArrayList T) : ListCall T → Option (ListResult T × ArrayList T)
  | .pushBack v => some (.none, s.setBack (s.backContainer ++ [v]))
  | .pushFront v => some (.none, s.pushFront v)
  | .emplaceBack v => some (.value v, s.setBack (s.backContainer ++ [v]))
  | .emplaceFront v => some (.value v, s.pushFront v)
  | .popBack =>
    let s := s.update
    if s.backContainer = [] then none else some (.none, s.setBack s.backContainer.dropLast)
  | .erase v =>
    let s := s.update
    if v ∉ s.backContainer then some (.bool false, s)
    else some (.bool true, s.setBack (s.backContainer.erase v))
  | .eraseRange first last =>
    let s := s.update
    if first > s.size ∨ last > s.size then some (.bool false, s)
    else if first > last then none
    else some (.bool true, s.setBack (s.backContainer.take first ++ s.backContainer.drop last))
  | .eraseIf fnc =>
    let s := s.update
    let erased := s.backContainer.filter fun v => !fnc v
    some (.bool (s.backContainer.length - erased.length > 0), s.setBack erased)
  | .assign list => some (.none, s.setBack list)
  | .clear => some (.none, { s.setBack [] with frontContainer := [] })
  | .contains v =>
    let s := s.update
    some (.bool (v ∈ s.backContainer), s)
  | .front =>
    let s := s.update
    s.backContainer.head?.map fun v => (.value v, s)
  | .back =>
    let s := s.update
    s.backContainer.getLast?.map fun v => (.value v, s)
  | .empty => some (.bool (s.backContainer = [] ∧ s.frontContainer = []), s)
  | .size => some (.size s.size, s)
  | .get i =>
    let s := s.update
    s.backContainer[i]?.map fun v => (.value v, s)
  | .data =>
    let s := s.update
    some (.elements s.backContainer, s)
  | .beginEnd =>
    let (first, s) := s.begin
    some (s.range first s.end_, s)
  | .endBegin =>
    let last := s.end_
    let (first, s) := s.begin
    some (s.range first last, s)

end ArrayList

namespace Sequence

variable {T : Type u} [DecidableEq T]

/-- A call on a sequence. -/
def step (l : List T) : ListCall T → Option (ListResult T × List T)
  | .pushBack v => some (.none, l ++ [v])
  | .pushFront v => some (.none, v :: l)
  | .emplaceBack v => some (.value v, l ++ [v])
  | .emplaceFront v => some (.value v, v :: l)
  | .popBack => if l = [] then none else some (.none, l.dropLast)
  | .erase v => some (.bool (v ∈ l), l.erase v)
  | .eraseRange first last =>
    if first > l.length ∨ last > l.length then some (.bool false, l)
    else if first > last then none
    else some (.bool true, l.take first ++ l.drop last)
  | .eraseIf fnc => some (.bool (l.any fnc), l.filter fun v => !fnc v)
  | .assign list => some (.none, list)
  | .clear => some (.none, [])
  | .contains v => some (.bool (v ∈ l), l)
  | .front => l.head?.map fun v => (.value v, l)
  | .back => l.getLast?.map fun v => (.value v, l)
  | .empty => some (.bool (l = []), l)
  | .size => some (.size l.length, l)
  | .get i => l[i]?.map fun v => (.value v, l)
  | .data | .beginEnd | .endBegin => some (.elements l, l)

end Sequence

namespace ArrayList

variable {T : Type u}

/-- The elements, in order. -/
def contents (s : ArrayList T) : List T := s.frontContainer.reverse ++ s.backContainer

/-- A list is assigned to an empty front vector, and the end is not asked for first while an update
    is pending. -/
def InOrder (s : ArrayList T) : ListCall T → Prop
  | .assign _ => s.frontContainer = []
  | .endBegin => s.needUpdate = false
  | _ => True

/-- The array list has the elements of the sequence, and those in the front vector are marked for
    an update. -/
structure Represents (s : ArrayList T) (l : List T) : Prop where
  marked : s.needUpdate = false → s.frontContainer = []
  contents_eq : s.contents = l

variable {s : ArrayList T} {l : List T}

/-- After an update, the elements are in one vector. -/
theorem Represents.update (h : s.Represents l) :
    s.update.Represents l ∧ s.update.frontContainer = [] ∧ s.update.backContainer = l := by
  obtain ⟨hmarked, hcontents⟩ := h
  rw [ArrayList.update]
  cases hneed : s.needUpdate
  · have hfront := hmarked hneed
    refine ⟨⟨hmarked, hcontents⟩, hfront, ?_⟩
    rw [contents, hfront] at hcontents
    exact hcontents
  · exact ⟨⟨fun _ => rfl, hcontents⟩, rfl, hcontents⟩

/-- The back vector is replaced while nothing is in the front vector. -/
theorem represents_setBack (hfront : s.frontContainer = []) (l : List T) :
    (s.setBack l).Represents l := by
  refine ⟨fun _ => hfront, ?_⟩
  rw [contents, setBack, hfront, List.reverse_nil, List.nil_append]

theorem Represents.pushBack (h : s.Represents l) (v : T) :
    (s.setBack (s.backContainer ++ [v])).Represents (l ++ [v]) := by
  refine ⟨h.marked, ?_⟩
  rw [← h.contents_eq, contents, contents, List.append_assoc]
  rfl

theorem Represents.pushFront (h : s.Represents l) (v : T) :
    (s.pushFront v).Represents (v :: l) := by
  refine ⟨nofun, ?_⟩
  rw [contents, ArrayList.pushFront, List.reverse_append, List.reverse_singleton,
    List.singleton_append, List.cons_append, ← contents, h.contents_eq]

theorem Represents.size_eq (h : s.Represents l) : s.size = l.length := by
  rw [← h.contents_eq, contents, List.length_append, List.length_reverse, size, Nat.add_comm]

/-- The beginning, and an end that is asked for while no update is pending. -/
theorem range_update (hs : s.update.backContainer = l) (generation : ℕ)
    (hgeneration : generation = s.update.generation) :
    s.update.range s.begin.1 ⟨generation, l.length⟩ = .elements l := by
  rw [range, if_pos ⟨rfl, hgeneration⟩, hs, List.take_length, begin, List.drop_zero]

theorem update_of_not_needUpdate (h : s.needUpdate = false) : s.update = s := by
  rw [update, h]
  rfl

theorem bool_erased (fnc : T → Bool) (l : List T) :
    decide (l.length - (l.filter fun v => !fnc v).length > 0) = l.any fnc := by
  rw [Bool.eq_iff_iff, decide_eq_true_eq, gt_iff_lt, Nat.sub_pos_iff_lt,
    List.length_filter_lt_length_iff_exists, List.any_eq_true]
  simp

variable [DecidableEq T]

/-- A call in order does what it does on the sequence. -/
theorem Represents.step (h : s.Represents l) {call : ListCall T} (hcall : s.InOrder call) :
    (s.step call = none ∧ Sequence.step l call = none) ∨ ∃ r s' l',
      s.step call = some (r, s') ∧ Sequence.step l call = some (r, l') ∧ s'.Represents l' := by
  -- Most operations call `update` first, after which the back buffer is the whole list.
  obtain ⟨hupdate, hfront, hback⟩ := h.update
  cases call with
  | pushBack v => exact .inr ⟨_, _, _, rfl, rfl, h.pushBack v⟩
  | pushFront v => exact .inr ⟨_, _, _, rfl, rfl, h.pushFront v⟩
  | emplaceBack v => exact .inr ⟨_, _, _, rfl, rfl, h.pushBack v⟩
  | emplaceFront v => exact .inr ⟨_, _, _, rfl, rfl, h.pushFront v⟩
  | popBack =>
    rw [ArrayList.step, Sequence.step, hback]
    split_ifs
    · exact .inl ⟨rfl, rfl⟩
    · exact .inr ⟨_, _, _, rfl, rfl, represents_setBack hfront _⟩
  | erase v =>
    rw [ArrayList.step, Sequence.step, hback]
    by_cases hv : v ∈ l
    · rw [if_neg (not_not.2 hv), decide_eq_true hv]
      exact .inr ⟨_, _, _, rfl, rfl, represents_setBack hfront _⟩
    -- The loop runs to the end and erases nothing.
    · rw [if_pos hv, List.erase_of_not_mem hv, decide_eq_false hv]
      exact .inr ⟨_, _, _, rfl, rfl, hupdate⟩
  | eraseRange first last =>
    rw [ArrayList.step, Sequence.step, hback, hupdate.size_eq]
    split_ifs
    · exact .inr ⟨_, _, _, rfl, rfl, hupdate⟩
    · exact .inl ⟨rfl, rfl⟩
    · exact .inr ⟨_, _, _, rfl, rfl, represents_setBack hfront _⟩
  | eraseIf fnc =>
    rw [ArrayList.step, Sequence.step, hback]
    rw [bool_erased]
    exact .inr ⟨_, _, _, rfl, rfl, represents_setBack hfront _⟩
  | assign list => exact .inr ⟨_, _, _, rfl, rfl, represents_setBack hcall list⟩
  | clear => exact .inr ⟨_, _, _, rfl, rfl, ⟨fun _ => rfl, rfl⟩⟩
  | contains v =>
    rw [ArrayList.step, Sequence.step, hback]
    exact .inr ⟨_, _, _, rfl, rfl, hupdate⟩
  | front =>
    rw [ArrayList.step, Sequence.step, hback]
    rcases l.head? with _ | v
    · exact .inl ⟨rfl, rfl⟩
    · exact .inr ⟨_, _, _, rfl, rfl, hupdate⟩
  | back =>
    rw [ArrayList.step, Sequence.step, hback]
    rcases l.getLast? with _ | v
    · exact .inl ⟨rfl, rfl⟩
    · exact .inr ⟨_, _, _, rfl, rfl, hupdate⟩
  | empty =>
    refine .inr ⟨_, _, _, rfl, ?_, h⟩
    rw [Sequence.step, ← h.contents_eq, contents]
    simp [and_comm]
  | size =>
    rw [ArrayList.step, Sequence.step, h.size_eq]
    exact .inr ⟨_, _, _, rfl, rfl, h⟩
  | get i =>
    rw [ArrayList.step, Sequence.step, hback]
    rcases l[i]? with _ | v
    · exact .inl ⟨rfl, rfl⟩
    · exact .inr ⟨_, _, _, rfl, rfl, hupdate⟩
  | data =>
    rw [ArrayList.step, Sequence.step, hback]
    exact .inr ⟨_, _, _, rfl, rfl, hupdate⟩
  | beginEnd =>
    have hend : s.update.end_ = ⟨s.update.generation, l.length⟩ := by
      rw [end_, hback]
    -- `begin` updates before `end` is taken, so both are of the new buffer.
    have hrange := range_update hback _ rfl
    rw [← hend] at hrange
    exact .inr ⟨_, _, _, congrArg (fun r => some (r, s.update)) hrange, rfl, hupdate⟩
  | endBegin =>
    -- Here `end` is taken first: it is good only if `begin` has nothing to update.
    have hsame := update_of_not_needUpdate hcall
    have hend : s.end_ = ⟨s.generation, l.length⟩ := by
      rw [end_, ← hback, hsame]
    have hrange := range_update hback s.generation (by rw [hsame])
    rw [← hend] at hrange
    exact .inr ⟨_, _, _, congrArg (fun r => some (r, s.update)) hrange, rfl, hupdate⟩

/-- A call that is not in order does something else. -/
theorem step_differs {call : ListCall T} (hcall : ¬ s.InOrder call) (l : List T) :
    (s.step call).map (fun p => (p.1, p.2.contents)) ≠
      (Sequence.step l call).map fun p => (p.1, id p.2) := by
  cases call with
  | assign list =>
    intro heq
    have hview : s.frontContainer.reverse ++ list = list :=
      (Prod.mk.inj (Option.some.inj heq)).2
    have hlength := congrArg List.length hview
    rw [List.length_append, List.length_reverse] at hlength
    exact hcall (List.length_eq_zero_iff.1 (by omega))
  | endBegin =>
    have hneed : s.needUpdate = true := eq_true_of_ne_false hcall
    have hinvalid : s.update.range s.begin.1 s.end_ = .invalid := by
      rw [range, if_neg]
      rintro ⟨-, hgeneration⟩
      rw [end_, ArrayList.update, hneed, Bool.not_true, if_neg Bool.false_ne_true] at hgeneration
      exact absurd hgeneration (Nat.ne_of_lt (Nat.lt_succ_self _))
    intro heq
    have hresult : s.update.range s.begin.1 s.end_ = .elements l :=
      (Prod.mk.inj (Option.some.inj heq)).1
    rw [hinvalid] at hresult
    nomatch hresult
  | _ => exact absurd trivial hcall

/-- An array list refines a sequence, by the calls in order only. -/
theorem refines_sequence : Trace.Refines (step (T := T)) contents Sequence.step id InOrder
    Represents where
  view_eq h := h.contents_eq
  same h hcall := h.step hcall
  differs _ hcall := step_differs hcall _

/-- What is seen of an array list is what is seen of the sequence with the same elements, if and
    only if all calls are in order. -/
theorem trace_eq_iff (list : List T) (calls : List (ListCall T)) :
    Trace.trace step contents { backContainer := list } calls =
        Trace.trace Sequence.step id list calls ↔
      Trace.Meets step InOrder { backContainer := list } calls :=
  refines_sequence.traces_agree_iff ⟨fun _ => rfl, rfl⟩ calls

/-- An element stays when a list is assigned. -/
theorem trace_assign :
    Trace.trace step contents {} [.pushFront 1, .assign [2]] =
        [some (.none, [1]), some (.none, [1, 2])] ∧
      Trace.trace step contents {} [.pushFront 1, .assign [2]] ≠
        Trace.trace Sequence.step id [] [.pushFront 1, .assign [2]] := by
  decide

/-- The end is not valid after the beginning has been asked for. -/
theorem trace_endBegin :
    Trace.trace step contents {} [.pushFront 1, .endBegin] ≠
      Trace.trace Sequence.step id [] [.pushFront 1, .endBegin] := by
  decide

end ArrayList

end Canary.Utils
