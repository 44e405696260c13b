import Mathlib.Tactic.Common

/-!
# Tagged streams

A stream of fields, each a tag byte followed by its payload, up to the tag 0. A reader of
such a stream holds a state and handles one field at a time (`step`): it refuses the field,
goes on with the next one, or ends there.

A writer that writes the fields one after the other, each of which the reader takes in by
some effect on its state, is read back by the effects in the same order
(`readAll_fields`).
-/

namespace Tagged

variable {σ : Type*}

/-- What comes of handling one field: the state and the rest of the stream. -/
inductive Outcome (σ : Type*)
  | error
  | more (st : σ) (s : List UInt8)
  | finish (st : σ) (s : List UInt8)

/-- The rest of the stream, if the field was not refused, is no longer than `s`. -/
def Outcome.Within (s : List UInt8) : Outcome σ → Prop
  | .error => True
  | .more _ s' => s'.length ≤ s.length
  | .finish _ s' => s'.length ≤ s.length

theorem Outcome.Within.trans {s t : List UInt8} {o : Outcome σ} (h : o.Within s)
    (hs : s.length ≤ t.length) : o.Within t := by
  cases o with
  | error => trivial
  | more st s' => exact Nat.le_trans h hs
  | finish st s' => exact Nat.le_trans h hs

variable (step : UInt8 → List UInt8 → σ → Outcome σ)

/-- Handle at most `n` fields. -/
def readFields : Nat → List UInt8 → σ → Option (σ × List UInt8)
  | _, [], st => some (st, [])
  | 0, _ :: _, _ => none
  | n + 1, t :: s, st =>
    if t = 0 then some (st, s)
    else match step t s st with
      | .error => none
      | .more st s => readFields n s st
      | .finish st s => some (st, s)

/-- Handle the fields up to the tag 0 or the end of the stream. -/
def readAll (s : List UInt8) (st : σ) : Option (σ × List UInt8) := readFields step s.length s st

/-- Handling a field never gives bytes back to the stream. -/
def Shrinks : Prop := ∀ t s st, (step t s st).Within s

variable {step}

/-- The stream is as much fuel as reading it takes. -/
theorem readFields_eq_readAll (h : Shrinks step) {n : Nat} {s : List UInt8} (hn : s.length ≤ n)
    (st : σ) : readFields step n s st = readAll step s st := by
  suffices h : ∀ n m (s : List UInt8) st, s.length ≤ n → s.length ≤ m →
      readFields step n s st = readFields step m s st from h n _ s st hn (Nat.le_refl _)
  intro n
  induction n with
  | zero =>
    intro m s st hn _
    have hs : s = [] := List.eq_nil_of_length_eq_zero (by omega)
    subst hs
    simp [readFields]
  | succ n ih =>
    intro m s st hn hm
    cases s with
    | nil => simp [readFields]
    | cons t s =>
      obtain ⟨m, rfl⟩ : ∃ k, m = k + 1 := ⟨m - 1, by simp at hm; omega⟩
      simp only [List.length_cons] at hm hn
      simp only [readFields]
      split
      · rfl
      · have hr := h t s st
        split
        · rfl
        · next st' s' ho =>
          rw [ho] at hr
          exact ih m s' st' (Nat.le_trans hr (by omega)) (Nat.le_trans hr (by omega))
        · rfl

theorem readAll_zero (s : List UInt8) (st : σ) : readAll step (0 :: s) st = some (st, s) := by
  simp [readAll, readFields]

theorem readAll_finish {t : UInt8} (ht : t ≠ 0) {s s' : List UInt8} {st st' : σ}
    (h : step t s st = .finish st' s') : readAll step (t :: s) st = some (st', s') := by
  simp [readAll, readFields, ht, h]

theorem readAll_more (hS : Shrinks step) {t : UInt8} (ht : t ≠ 0) {s s' : List UInt8} {st st' : σ}
    (h : step t s st = .more st' s') : readAll step (t :: s) st = readAll step s' st' := by
  have hl : s'.length ≤ s.length := by
    have := hS t s st
    rwa [h] at this
  rw [readAll, List.length_cons, readFields, if_neg ht, h]
  exact readFields_eq_readAll hS hl st'

/-! ## Written fields -/

/-- A field as its writer leaves it in the stream, nothing if it is left out, and its effect
    on a reader's state. -/
structure TagField (σ : Type*) where
  bytes : List UInt8
  effect : σ → σ

/-- A field written under a condition. -/
def TagField.when (c : Prop) [Decidable c] (t : UInt8) (payload : List UInt8) (upd : σ → σ) :
    TagField σ where
  bytes := if c then t :: payload else []
  effect st := if c then upd st else st

variable (step) in
/-- In the states `P`, which the field does not leave, the reader takes the field in by its
    effect. -/
def TagField.Reads (P : σ → Prop) (f : TagField σ) : Prop :=
  ∀ st s, P st → P (f.effect st) ∧ (f.bytes = [] ∧ f.effect st = st ∨
    ∃ t payload, t ≠ 0 ∧ f.bytes = t :: payload ∧
      step t (payload ++ s) st = .more (f.effect st) s)

theorem TagField.reads_when {P : σ → Prop} {c : Prop} [Decidable c] {t : UInt8} (ht : t ≠ 0)
    {payload : List UInt8} {upd : σ → σ} (hP : ∀ st, P st → P (upd st))
    (h : c → ∀ st s, P st → step t (payload ++ s) st = .more (upd st) s) :
    (TagField.when c t payload upd).Reads step P := by
  intro st s hst
  by_cases hc : c
  · simp only [TagField.when, if_pos hc]
    exact ⟨hP st hst, .inr ⟨t, payload, ht, rfl, h hc st s hst⟩⟩
  · refine ⟨?_, .inl ⟨if_neg hc, if_neg hc⟩⟩
    simpa only [TagField.when, if_neg hc] using hst

theorem readAll_field (hS : Shrinks step) {P : σ → Prop} {f : TagField σ} (h : f.Reads step P)
    {st : σ} (hst : P st) (s : List UInt8) :
    readAll step (f.bytes ++ s) st = readAll step s (f.effect st) := by
  obtain ⟨-, ⟨hb, he⟩ | ⟨t, payload, ht, hb, hs⟩⟩ := h st s hst
  · rw [hb, he, List.nil_append]
  · rw [hb, List.cons_append, readAll_more hS ht hs]

/-- Fields written one after the other are read back by their effects, in the same order. -/
theorem readAll_fields (hS : Shrinks step) {P : σ → Prop} {fs : List (TagField σ)}
    (h : ∀ f ∈ fs, f.Reads step P) {st : σ} (hst : P st) (s : List UInt8) :
    readAll step (fs.flatMap TagField.bytes ++ s) st =
      readAll step s (fs.foldl (fun st f => f.effect st) st) := by
  induction fs generalizing st with
  | nil => rfl
  | cons f fs ih =>
    have hf := h f List.mem_cons_self
    have hst' : P (f.effect st) := (hf st [] hst).1
    rw [List.flatMap_cons, List.append_assoc, readAll_field hS hf hst, List.foldl_cons]
    exact ih (fun g hg => h g (List.mem_cons_of_mem _ hg)) hst'

theorem foldl_effect {P : σ → Prop} {fs : List (TagField σ)} (h : ∀ f ∈ fs, f.Reads step P)
    {st : σ} (hst : P st) : P (fs.foldl (fun st f => f.effect st) st) := by
  induction fs generalizing st with
  | nil => exact hst
  | cons f fs ih =>
    have hf := h f List.mem_cons_self
    exact ih (fun g hg => h g (List.mem_cons_of_mem _ hg)) (hf st [] hst).1

/-- What no field changes, the fields together do not change. -/
theorem foldl_effect_eq {β : Type*} (g : σ → β) {fs : List (TagField σ)}
    (h : ∀ f ∈ fs, ∀ st, g (f.effect st) = g st) (st : σ) :
    g (fs.foldl (fun st f => f.effect st) st) = g st := by
  induction fs generalizing st with
  | nil => rfl
  | cons f fs ih =>
    rw [List.foldl_cons, ih fun f' hf => h f' (List.mem_cons_of_mem _ hf), h f List.mem_cons_self]

end Tagged
