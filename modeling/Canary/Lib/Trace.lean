import Mathlib.Tactic.Common

/-!
# Traces

An object is called again and again. A call has a result and leaves a new state, or it is not
defined. What is seen of a run are the results, and after each call what is to be seen of the state
(`trace`); it ends with the first call that is not defined.

An object is compared with another one that has the same calls, its specification, by a relation
between their states. If the calls that meet a condition do the same, and the others do not, the
traces are the same if and only if each call meets the condition (`Refines.traces_agree_iff`).
-/

namespace Canary.Trace

universe u₁ u₂ u₃ u₄ u₅

variable {σ : Type u₁} {τ : Type u₂} {ω : Type u₃} {ρ : Type u₄} {V : Type u₅}

/-- The results, and what is seen of the states. -/
def trace (step : σ → ω → Option (ρ × σ)) (view : σ → V) : σ → List ω → List (Option (ρ × V))
  | _, [] => []
  | s, call :: calls =>
    match step s call with
    | none => [none]
    | some (r, s') => some (r, view s') :: trace step view s' calls

/-- Each call meets the condition in the state before it. -/
def Meets (step : σ → ω → Option (ρ × σ)) (ok : σ → ω → Prop) : σ → List ω → Prop
  | _, [] => True
  | s, call :: calls =>
    ok s call ∧
      match step s call with
      | none => True
      | some (_, s') => Meets step ok s' calls

/-- Calls that meet a condition do the same as those of the specification, and others do not. -/
structure Refines (step : σ → ω → Option (ρ × σ)) (view : σ → V) (step' : τ → ω → Option (ρ × τ))
    (view' : τ → V) (ok : σ → ω → Prop) (R : σ → τ → Prop) : Prop where
  view_eq : ∀ {s t}, R s t → view s = view' t
  same : ∀ {s t call}, R s t → ok s call →
    (step s call = none ∧ step' t call = none) ∨
      ∃ r s' t', step s call = some (r, s') ∧ step' t call = some (r, t') ∧ R s' t'
  differs : ∀ {s t call}, R s t → ¬ ok s call →
    (step s call).map (fun p => (p.1, view p.2)) ≠ (step' t call).map fun p => (p.1, view' p.2)

variable {step : σ → ω → Option (ρ × σ)} {view : σ → V} {step' : τ → ω → Option (ρ × τ)}
  {view' : τ → V} {ok : σ → ω → Prop} {R : σ → τ → Prop}

theorem head?_trace (step : σ → ω → Option (ρ × σ)) (view : σ → V) (s : σ) (call : ω)
    (calls : List ω) : (trace step view s (call :: calls)).head? =
      some ((step s call).map fun p => (p.1, view p.2)) := by
  rw [trace]
  rcases step s call with _ | ⟨r, s'⟩ <;> rfl

theorem Refines.traces_agree_iff (h : Refines step view step' view' ok R) {s : σ} {t : τ}
    (hR : R s t) (calls : List ω) :
    trace step view s calls = trace step' view' t calls ↔ Meets step ok s calls := by
  induction calls generalizing s t with
  | nil => exact iff_of_true rfl trivial
  | cons call calls ih =>
    by_cases hok : ok s call
    · rw [trace, trace, Meets, and_iff_right hok]
      rcases h.same hR hok with ⟨hs, ht⟩ | ⟨r, s', t', hs, ht, hR'⟩
      · rw [hs, ht]
        exact iff_of_true rfl trivial
      · rw [hs, ht]
        dsimp only
        rw [h.view_eq hR', List.cons_inj_right, ih hR']
    · refine iff_of_false (fun heq => h.differs hR hok ?_) fun hmeets => hok hmeets.1
      have hhead := congrArg List.head? heq
      rw [head?_trace, head?_trace] at hhead
      exact Option.some.inj hhead

end Canary.Trace
