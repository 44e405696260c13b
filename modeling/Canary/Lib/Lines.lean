import Mathlib.Data.Int.Basic
import Mathlib.Data.List.Basic

/-!
# Lines

A text is a list, which a separator cuts into lines.

* `getlines` reads line by line. A line ends at a separator or at the end of the text, and nothing
  is read after a separator at the end.
* `closed` writes lines, with a separator after each of them. Lines without a separator in them are
  read as they were written (`getlines_closed`).
* `explode` cuts at the first separators only, up to a number of them. What is left is one line.
-/

namespace Lines

variable {α : Type*} [DecidableEq α] (sep : α)

def getlines : List α → List (List α)
  | [] => []
  | c :: s => if c = sep then [] :: getlines s else
    match getlines s with
    | [] => [[c]]
    | l :: ls => (c :: l) :: ls

/-- The lines after what is read of the first one, with at most `limit` separators. -/
def explodeFrom : List α → List α → ℤ → List (List α)
  | line, [], _ => [line]
  | line, c :: s, limit =>
    if c = sep ∧ limit ≠ 0 then line :: explodeFrom [] s (limit - 1)
    else explodeFrom (line ++ [c]) s limit

/-- A negative limit is none. -/
def explode (s : List α) (limit : ℤ) : List (List α) := explodeFrom sep [] s limit

omit [DecidableEq α] in
def closed (ls : List (List α)) : List α := ls.flatMap (· ++ [sep])

variable {sep} {l s : List α} {ls : List (List α)}

omit [DecidableEq α] in
theorem closed_cons (l : List α) (ls : List (List α)) :
    closed sep (l :: ls) = l ++ sep :: closed sep ls := by
  rw [closed, List.flatMap_cons, List.append_assoc]
  rfl

theorem notMem_of_mem_getlines (h : l ∈ getlines sep s) : sep ∉ l := by
  induction s generalizing l with
  | nil => cases h
  | cons c s ih =>
    rw [getlines] at h
    split_ifs at h with hc
    · rcases List.mem_cons.1 h with rfl | h
      · exact List.not_mem_nil
      · exact ih h
    · have hcons : ∀ {l'}, sep ∉ l' → sep ∉ c :: l' := fun hl =>
        List.not_mem_cons_of_ne_of_not_mem (Ne.symm hc) hl
      rcases hs : getlines sep s with _ | ⟨l', ls⟩
      · rw [hs, List.mem_singleton] at h
        exact h ▸ hcons List.not_mem_nil
      · rw [hs] at h ih
        rcases List.mem_cons.1 h with rfl | h
        · exact hcons (ih List.mem_cons_self)
        · exact ih (List.mem_cons_of_mem _ h)

theorem mem_of_mem_getlines {c : α} (h : l ∈ getlines sep s) (hc : c ∈ l) : c ∈ s := by
  induction s generalizing l with
  | nil => cases h
  | cons b s ih =>
    rw [getlines] at h
    split_ifs at h with hb
    · rcases List.mem_cons.1 h with rfl | h
      · cases hc
      · exact List.mem_cons_of_mem _ (ih h hc)
    · rcases hs : getlines sep s with _ | ⟨l', ls⟩
      · rw [hs, List.mem_singleton] at h
        rw [h, List.mem_singleton] at hc
        exact hc ▸ List.mem_cons_self
      · rw [hs] at h ih
        rcases List.mem_cons.1 h with rfl | h
        · rcases List.mem_cons.1 hc with rfl | hc
          · exact List.mem_cons_self
          · exact List.mem_cons_of_mem _ (ih List.mem_cons_self hc)
        · exact List.mem_cons_of_mem _ (ih (List.mem_cons_of_mem _ h) hc)

theorem getlines_append (hl : sep ∉ l) (s : List α) :
    getlines sep (l ++ sep :: s) = l :: getlines sep s := by
  induction l with
  | nil => rw [List.nil_append, getlines, if_pos rfl]
  | cons c l ih =>
    obtain ⟨hc, hl⟩ := not_or.1 (List.mem_cons.not.1 hl)
    rw [List.cons_append, getlines, if_neg (Ne.symm hc), ih hl]

theorem getlines_closed (h : ∀ l ∈ ls, sep ∉ l) : getlines sep (closed sep ls) = ls := by
  induction ls with
  | nil => rfl
  | cons l ls ih =>
    rw [closed_cons, getlines_append (h l List.mem_cons_self),
      ih fun l' hl' => h l' (List.mem_cons_of_mem _ hl')]

/-- The lines are the pieces of the text, but for an empty one at the end. -/
theorem splitOn_eq (s : List α) :
    s.splitOn sep = getlines sep s ∨ s.splitOn sep = getlines sep s ++ [[]] := by
  induction s with
  | nil => exact .inr rfl
  | cons c s ih =>
    rw [List.splitOn_cons_eq_if_modifyHead, getlines]
    by_cases hc : c = sep
    · rw [if_pos (beq_iff_eq.2 hc), if_pos hc]
      refine ih.imp (congrArg _) fun h => ?_
      rw [h]
      rfl
    · rw [if_neg (beq_iff_eq.not.2 hc), if_neg hc]
      -- The character goes in front of the first line, if there is one.
      rcases hs : getlines sep s with _ | ⟨l, ls⟩
      · rw [hs] at ih
        rcases ih with h | h
        · exact absurd h (List.splitOn_ne_nil sep s)
        · rw [h]
          exact .inl rfl
      · rw [hs] at ih
        refine ih.imp (fun h => ?_) fun h => ?_
        · rw [h]
          rfl
        · rw [h]
          rfl

theorem filter_getlines (s : List α) :
    (getlines sep s).filter (· ≠ []) = (s.splitOn sep).filter (· ≠ []) := by
  rcases splitOn_eq s with h | h
  · rw [h]
  · rw [h, List.filter_append]
    exact (List.append_nil _).symm

theorem explodeFrom_append (hl : sep ∉ l) (line s : List α) (limit : ℤ) :
    explodeFrom sep line (l ++ s) limit = explodeFrom sep (line ++ l) s limit := by
  induction l generalizing line with
  | nil => rw [List.nil_append, List.append_nil]
  | cons c l ih =>
    obtain ⟨hc, hl⟩ := not_or.1 (List.mem_cons.not.1 hl)
    rw [List.cons_append, explodeFrom, if_neg fun h => hc h.1.symm, ih hl, List.append_assoc]
    rfl

theorem mem_of_mem_explode {c : α} {limit : ℤ} (h : l ∈ explode sep s limit) (hc : c ∈ l) :
    c ∈ s := by
  have hfrom : ∀ {line : List α} {limit : ℤ}, l ∈ explodeFrom sep line s limit →
      c ∈ line ∨ c ∈ s := by
    clear h
    intro line limit h
    induction s generalizing line limit with
    | nil => exact .inl (List.mem_singleton.1 h ▸ hc)
    | cons b s ih =>
      rw [explodeFrom] at h
      split_ifs at h
      · rcases List.mem_cons.1 h with rfl | h
        · exact .inl hc
        · exact .inr (List.mem_cons_of_mem _ ((ih h).resolve_left List.not_mem_nil))
      · rcases ih h with hline | hs
        · rcases List.mem_append.1 hline with hline | hb
          · exact .inl hline
          · exact .inr (List.mem_singleton.1 hb ▸ List.mem_cons_self)
        · exact .inr (List.mem_cons_of_mem _ hs)
  exact (hfrom h).resolve_left List.not_mem_nil

/-- Lines within the limit are found as they were written, and nothing after the last one. -/
theorem explode_closed (h : ∀ l ∈ ls, sep ∉ l) {limit : ℤ} (hlimit : ls.length ≤ limit) :
    explode sep (closed sep ls) limit = ls ++ [[]] := by
  rw [explode]
  induction ls generalizing limit with
  | nil => rfl
  | cons l ls ih =>
    rw [List.length_cons, Int.natCast_succ] at hlimit
    have hne : limit ≠ 0 := by omega
    rw [closed_cons, explodeFrom_append (h l List.mem_cons_self), List.nil_append, explodeFrom,
      if_pos ⟨rfl, hne⟩, ih (fun l' hl' => h l' (List.mem_cons_of_mem _ hl')) (by omega)]
    rfl

end Lines
