/-!
# Transition systems

A labelled transition system: the initial states, and the steps a label may
take. A label stands for one call of an interface, with its arguments.

Its states are reached by runs whose steps all meet a guard `ok`, a condition on
the label and on the state *before* the step (`ReachableVia`); without a guard
they are the reachable states (`Reachable`). An invariant is proved once, for
the initial states and for one step (`ReachableVia.invariant`).

* `System.ofNext`: the system of a step function, which may refuse a label; a run of
  it can be computed (`reachableVia_of_foldlM`);
* `Answered`: in a history, every call is followed by an answer;
* `Run`: the labels of a run, in order, with its first and last state;
* `Run.invariant`: an invariant relating the state to the labels so far, as a
  refinement needs it: the labels give the abstract state.
-/

namespace Transition

universe u v

/-- A labelled transition system. -/
structure System (σ : Type u) (α : Type v) where
  /-- The initial states. -/
  init : σ → Prop
  /-- The steps: `step s a s'` if the label `a` may take `s` to `s'`. -/
  step : σ → α → σ → Prop

namespace System

variable {σ : Type u} {α : Type v} (T : System σ α)

/-- The states reached by the runs whose steps all meet the guard `ok`. -/
inductive ReachableVia (ok : σ → α → Prop) : σ → Prop
  | init {s : σ} : T.init s → ReachableVia ok s
  | step {s s' : σ} {a : α} : ReachableVia ok s → ok s a → T.step s a s' → ReachableVia ok s'

/-- The states reached by any run. -/
abbrev Reachable : σ → Prop := T.ReachableVia fun _ _ => True

variable {T} {ok ok' : σ → α → Prop}

/-- An invariant holds initially and is preserved by every guarded step. -/
theorem ReachableVia.invariant {I : σ → Prop} (h₀ : ∀ s, T.init s → I s)
    (hstep : ∀ s a s', I s → ok s a → T.step s a s' → I s') {s : σ}
    (hs : T.ReachableVia ok s) : I s := by
  induction hs with
  | init h => exact h₀ _ h
  | step _ hok hst ih => exact hstep _ _ _ ih hok hst

/-- A weaker guard reaches more states. -/
theorem ReachableVia.mono (h : ∀ s a, ok s a → ok' s a) {s : σ} (hs : T.ReachableVia ok s) :
    T.ReachableVia ok' s := by
  induction hs with
  | init h₀ => exact .init h₀
  | step _ hok hst ih => exact .step ih (h _ _ hok) hst

/-- The system of the step function `next`, which may refuse a label. -/
def ofNext (init : σ → Prop) (next : σ → α → Option σ) : System σ α where
  init := init
  step s a s' := next s a = some s'

/-- What a step function computes by guarded steps is reached by a guarded run. -/
theorem reachableVia_of_foldlM {init : σ → Prop} {next : σ → α → Option σ}
    [∀ s a, Decidable (ok s a)] {l : List α} {s s' : σ}
    (hs : (ofNext init next).ReachableVia ok s)
    (hl : l.foldlM (fun s a => if ok s a then next s a else none) s = some s') :
    (ofNext init next).ReachableVia ok s' := by
  induction l generalizing s with
  | nil => exact Option.some.inj hl ▸ hs
  | cons a l ih =>
    rw [List.foldlM_cons] at hl
    obtain ⟨s₁, hs₁, hl⟩ := Option.bind_eq_some_iff.1 hl
    obtain ⟨hok, hs₁⟩ := Option.ite_none_right_eq_some.1 hs₁
    exact ih (.step hs hok hs₁) hl

/-- What a step function computes from a reachable state is reachable. -/
theorem reachable_of_foldlM {init : σ → Prop} {next : σ → α → Option σ} {l : List α} {s s' : σ}
    (hs : (ofNext init next).Reachable s) (hl : l.foldlM next s = some s') :
    (ofNext init next).Reachable s' :=
  reachableVia_of_foldlM hs (by simpa only [if_true] using hl)

variable (T)

/-- A run from `s` with the labels `l`, in order, each step meeting the guard. -/
inductive Run (ok : σ → α → Prop) (s : σ) : List α → σ → Prop
  | nil : Run ok s [] s
  | snoc {l : List α} {s₁ s₂ : σ} {a : α} :
      Run ok s l s₁ → ok s₁ a → T.step s₁ a s₂ → Run ok s (l ++ [a]) s₂

variable {T}

/-- An invariant of the state and of the labels so far. -/
theorem Run.invariant {I : List α → σ → Prop} {s : σ} (h₀ : I [] s)
    (hstep : ∀ l s₁ a s₂, I l s₁ → ok s₁ a → T.step s₁ a s₂ → I (l ++ [a]) s₂)
    {l : List α} {s' : σ} (hr : T.Run ok s l s') : I l s' := by
  induction hr with
  | nil => exact h₀
  | snoc _ hok hst ih => exact hstep _ _ _ _ ih hok hst

end System

/-! ## Response -/

variable {α : Type v}

/-- In a history, the last event at its end: every event that is a call is followed by
    one that answers it. -/
def Answered (call answer : α → Prop) (log : List α) : Prop :=
  ∀ l₁ a l₂, log = l₁ ++ a :: l₂ → call a → ∃ b ∈ l₂, answer b

variable {call answer : α → Prop} {log : List α} {a : α}

theorem answered_nil : Answered call answer [] := by
  intro l₁ b l₂ h
  cases l₁ <;> cases h

/-- An event is in the history before, or is the last one. -/
theorem split_concat {l₁ l₂ : List α} {b : α} (h : log ++ [a] = l₁ ++ b :: l₂) :
    (log = l₁ ∧ a = b ∧ l₂ = []) ∨ ∃ l, l₂ = l ++ [a] ∧ log = l₁ ++ b :: l := by
  rcases List.eq_nil_or_concat l₂ with rfl | ⟨l, c, rfl⟩
  · obtain ⟨h₁, h₂⟩ := List.append_inj' h rfl
    exact .inl ⟨h₁, List.singleton_inj.1 h₂, rfl⟩
  · have h' : log ++ [a] = (l₁ ++ b :: l) ++ [c] := by simpa using h
    obtain ⟨h₁, h₂⟩ := List.append_inj' h' rfl
    obtain rfl := List.singleton_inj.1 h₂
    exact .inr ⟨l, List.concat_eq_append, h₁⟩

/-- What answers, and does not call, answers everything before. -/
theorem answered_concat_of_answer (hans : answer a) (hcall : ¬ call a) :
    Answered call answer (log ++ [a]) := by
  intro l₁ b l₂ h hb
  rcases split_concat h with ⟨-, rfl, -⟩ | ⟨l, rfl, -⟩
  · exact absurd hb hcall
  · exact ⟨a, List.mem_append_right _ List.mem_cons_self, hans⟩

/-- What does not call leaves the calls before answered. -/
theorem Answered.concat (h : Answered call answer log) (hcall : ¬ call a) :
    Answered call answer (log ++ [a]) := by
  intro l₁ b l₂ hl hb
  rcases split_concat hl with ⟨-, rfl, -⟩ | ⟨l, rfl, hlog⟩
  · exact absurd hb hcall
  · obtain ⟨c, hc, hans⟩ := h l₁ b l hlog hb
    exact ⟨c, List.mem_append_left _ hc, hans⟩

end Transition
