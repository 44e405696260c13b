import Mathlib.Data.List.Basic
import Mathlib.Data.List.Infix
import Mathlib.Data.List.Range

/-!
# Searching in text

Texts are lists. An occurrence of a pattern is a position the pattern starts at
(`OccursAt`); the empty pattern occurs at every position, the end included. The
searches forward from a position (`find`) and backward to a position (`rfind`)
give the first and the last occurrence in their range (`find_eq_some_iff`,
`rfind_eq_some_iff`).

Replacing all occurrences of a pattern (`replace`) searches, cuts the occurrence
out, and goes on behind the replacement. It ends exactly if the pattern is not
empty, or there is nothing to search: so the loop has a bound on its steps, and
`none` stands for a loop that has not ended within it (`replace_nil_eq_none`).
Replacing by nothing leaves what is left when the occurrences are cut out
(`CutOut`, `replace_eq_some_iff`).

`like` is the pattern matching of SQL. A pattern that ends in a per cent sign matches
the texts with a prefix, if the prefix has no wildcards itself (`like_plain_append`).
-/

namespace Text

open List

variable {α : Type*} [DecidableEq α]

/-- The pattern starts at the position `i` of the text. -/
def OccursAt (pat s : List α) (i : ℕ) : Prop := i ≤ s.length ∧ pat <+: s.drop i

instance (pat s : List α) (i : ℕ) : Decidable (OccursAt pat s i) :=
  inferInstanceAs (Decidable (_ ∧ _))

/-- The first occurrence from the position `pos` on. -/
def find (pat s : List α) (pos : ℕ) : Option ℕ :=
  (range' pos (s.length + 1 - pos)).find? fun i => decide (OccursAt pat s i)

/-- The last occurrence starting at the position `n` or before, trying `n` first. -/
def rfindFrom (pat s : List α) : ℕ → Option ℕ
  | 0 => if OccursAt pat s 0 then some 0 else none
  | n + 1 => if OccursAt pat s (n + 1) then some (n + 1) else rfindFrom pat s n

/-- The last occurrence starting at the position `pos` or before. -/
def rfind (pat s : List α) (pos : ℕ) : Option ℕ := rfindFrom pat s (min pos s.length)

omit [DecidableEq α] in
theorem OccursAt.le {pat s : List α} {i : ℕ} (h : OccursAt pat s i) :
    i + pat.length ≤ s.length := by
  have := h.2.length_le
  rw [length_drop] at this
  have := h.1
  omega

omit [DecidableEq α] in
/-- An occurrence splits the text. -/
theorem OccursAt.exists_eq {pat s : List α} {i : ℕ} (h : OccursAt pat s i) :
    ∃ u v, s = u ++ pat ++ v ∧ u.length = i := by
  obtain ⟨v, hv⟩ := h.2
  refine ⟨s.take i, v, ?_, by simp [h.1]⟩
  rw [append_assoc, hv, take_append_drop]

theorem find_eq_some_iff {pat s : List α} {pos i : ℕ} :
    find pat s pos = some i ↔
      OccursAt pat s i ∧ pos ≤ i ∧ ∀ j, pos ≤ j → j < i → ¬OccursAt pat s j := by
  rw [find, find?_range'_eq_some]
  simp only [decide_eq_true_eq, mem_range'_1, Bool.not_eq_true', decide_eq_false_iff_not]
  constructor
  · rintro ⟨h, hi, hj⟩
    exact ⟨h, hi.1, hj⟩
  · rintro ⟨h, hpos, hj⟩
    have := h.1
    exact ⟨h, ⟨hpos, by omega⟩, hj⟩

theorem find_eq_none_iff {pat s : List α} {pos : ℕ} :
    find pat s pos = none ↔ ∀ i, pos ≤ i → ¬OccursAt pat s i := by
  rw [find, find?_range'_eq_none]
  simp only [Bool.not_eq_true', decide_eq_false_iff_not]
  constructor
  · intro h i hpos ho
    have := ho.1
    exact h i hpos (by omega) ho
  · exact fun h i hpos _ => h i hpos

theorem rfindFrom_eq_some_iff {pat s : List α} {n i : ℕ} :
    rfindFrom pat s n = some i ↔
      OccursAt pat s i ∧ i ≤ n ∧ ∀ j, i < j → j ≤ n → ¬OccursAt pat s j := by
  induction n with
  | zero =>
    rw [rfindFrom]
    split_ifs with h <;> simp only [Option.some.injEq, false_iff]
    · constructor
      · rintro rfl
        exact ⟨h, le_rfl, fun j hj hj' => absurd hj (by omega)⟩
      · exact fun ⟨_, hi, _⟩ => by omega
    · rintro ⟨ho, hi, _⟩
      exact h (Nat.le_zero.1 hi ▸ ho)
  | succ n ih =>
    rw [rfindFrom]
    split_ifs with h
    · rw [Option.some.injEq]
      constructor
      · rintro rfl
        exact ⟨h, le_rfl, fun j hj hj' => absurd hj (by omega)⟩
      · rintro ⟨_, hi, hj⟩
        by_contra hne
        exact hj (n + 1) (by omega) le_rfl h
    · rw [ih]
      refine and_congr_right fun ho => ⟨?_, ?_⟩
      · rintro ⟨hi, hj⟩
        refine ⟨by omega, fun j hij hjn => ?_⟩
        rcases Nat.lt_or_ge n j with hlt | hle
        · exact (by omega : j = n + 1) ▸ h
        · exact hj j hij hle
      · rintro ⟨hi, hj⟩
        have hne : i ≠ n + 1 := fun he => h (he ▸ ho)
        exact ⟨by omega, fun j hij hjn => hj j hij (by omega)⟩

theorem rfind_eq_some_iff {pat s : List α} {pos i : ℕ} :
    rfind pat s pos = some i ↔
      OccursAt pat s i ∧ i ≤ pos ∧ ∀ j, i < j → j ≤ pos → ¬OccursAt pat s j := by
  rw [rfind, rfindFrom_eq_some_iff]
  refine and_congr_right fun ho => ⟨?_, ?_⟩
  · rintro ⟨hi, hj⟩
    exact ⟨by omega, fun j hij hjn hoj => hj j hij (le_min hjn hoj.1) hoj⟩
  · rintro ⟨hi, hj⟩
    exact ⟨le_min hi ho.1, fun j hij hjn => hj j hij (by omega)⟩

/-! ## Replacing all occurrences -/

/-- The loop from the position `pos` on, for at most `n` searches. -/
def replaceLoop (pat rep : List α) : ℕ → List α → ℕ → Option (List α)
  | 0, _, _ => none
  | n + 1, s, pos =>
    match find pat s pos with
    | none => some s
    | some i => replaceLoop pat rep n (s.take i ++ rep ++ s.drop (i + pat.length)) (i + rep.length)

/-- Replace all occurrences of `pat` by `rep`, with at most `n` searches. -/
def replace (n : ℕ) (s pat rep : List α) : Option (List α) :=
  if s = [] then some s else replaceLoop pat rep n s 0

/-- Looking for nothing never ends: the search always finds its own position. -/
theorem replaceLoop_nil (rep : List α) :
    ∀ (n : ℕ) (s : List α) (pos : ℕ), pos ≤ s.length → replaceLoop [] rep n s pos = none
  | 0, _, _, _ => rfl
  | n + 1, s, pos, hpos => by
    have hf : find [] s pos = some pos :=
      find_eq_some_iff.2 ⟨⟨hpos, nil_prefix⟩, le_rfl, fun j hj hj' => absurd hj (by omega)⟩
    rw [replaceLoop, hf]
    exact replaceLoop_nil rep n _ _ (by simp; omega)

theorem replace_nil_eq_none {s : List α} (hs : s ≠ []) (n : ℕ) (rep : List α) :
    replace n s [] rep = none := by
  rw [replace, if_neg hs]
  exact replaceLoop_nil rep n s 0 (Nat.zero_le _)

/-- Looking for something ends: every search leaves less to search. -/
theorem replaceLoop_isSome {pat : List α} (hp : pat ≠ []) (rep : List α) :
    ∀ (n : ℕ) (s : List α) (pos : ℕ), s.length < n + pos → pos ≤ s.length →
      (replaceLoop pat rep n s pos).isSome
  | 0, _, _, hn, hpos => absurd hn (by omega)
  | n + 1, s, pos, hn, hpos => by
    rw [replaceLoop]
    split
    · rfl
    · rename_i i hi
      obtain ⟨ho, hle, _⟩ := find_eq_some_iff.1 hi
      have hlen := ho.le
      have hpos' := length_pos_iff.2 hp
      refine replaceLoop_isSome hp rep n _ _ ?_ ?_ <;>
        simp only [length_append, length_take, length_drop] <;> omega

theorem replace_isSome {pat : List α} (hp : pat ≠ []) (s rep : List α) :
    (replace (s.length + 1) s pat rep).isSome := by
  rw [replace]
  split_ifs
  · rfl
  · exact replaceLoop_isSome hp rep _ s 0 (by omega) (Nat.zero_le _)

/-! ## Cutting out all occurrences -/

/-- The pattern does not occur in the text; in an empty one nothing is searched for. -/
def Absent (pat s : List α) : Prop := s = [] ∨ ¬pat <:+: s

/-- What is left of a text when the occurrences of the pattern are cut out, the first one first, and
then those behind it. -/
inductive CutOut (pat : List α) : List α → List α → Prop
  | absent {s : List α} : Absent pat s → CutOut pat s s
  | cut {u v x : List α} : (∀ j < u.length, ¬OccursAt pat (u ++ pat ++ v) j) → CutOut pat v x →
      CutOut pat (u ++ pat ++ v) (u ++ x)

omit [DecidableEq α] in
theorem occursAt_append (u pat v : List α) : OccursAt pat (u ++ pat ++ v) u.length :=
  ⟨by simp, by simp⟩

omit [DecidableEq α] in
theorem CutOut.nil {s x : List α} (h : CutOut [] s x) : s = [] ∧ x = [] := by
  induction h with
  | absent h =>
    have hs := h.resolve_right (not_not.2 nil_infix)
    exact ⟨hs, hs⟩
  | @cut u v x hfirst _ ih =>
    have hu : u = [] := length_eq_zero_iff.1 (Nat.eq_zero_of_not_pos fun hpos =>
      hfirst 0 hpos ⟨Nat.zero_le _, nil_prefix⟩)
    rw [hu, ih.1, ih.2]
    exact ⟨rfl, rfl⟩

omit [DecidableEq α] in
/-- Where a pattern does not occur, nothing is cut out. -/
theorem cutOut_of_absent {pat s x : List α} (hs : ¬pat <:+: s) : CutOut pat s x ↔ x = s := by
  constructor
  · intro h
    cases h with
    | absent _ => rfl
    | @cut u v x _ _ => exact absurd ⟨u, v, rfl⟩ hs
  · rintro rfl
    exact .absent (.inr hs)

omit [DecidableEq α] in
/-- The first occurrence is cut out first. -/
theorem cutOut_first {pat u v x : List α} (hp : pat ≠ [])
    (hfirst : ∀ j < u.length, ¬OccursAt pat (u ++ pat ++ v) j) :
    CutOut pat (u ++ pat ++ v) x ↔ ∃ y, CutOut pat v y ∧ x = u ++ y := by
  refine ⟨fun h => ?_, fun ⟨y, hy, hx⟩ => hx ▸ .cut hfirst hy⟩
  generalize hs : u ++ pat ++ v = s at h
  cases h with
  | absent h =>
    rcases h with rfl | h
    · exact absurd hs (by simp [hp])
    · exact absurd ⟨u, v, hs⟩ h
  | @cut u' v' y hfirst' hy =>
    have hlen : u.length = u'.length := by
      rcases Nat.lt_trichotomy u.length u'.length with hlt | heq | hgt
      · exact absurd (hs ▸ occursAt_append u pat v) (hfirst' _ hlt)
      · exact heq
      · exact absurd (hs ▸ occursAt_append u' pat v') (hfirst _ hgt)
    obtain ⟨hu, hv⟩ := append_inj (by rwa [append_assoc, append_assoc] at hs) hlen
    exact ⟨y, append_cancel_left hv ▸ hy, by rw [hu]⟩

/-- The loop from behind `w` on cuts out the occurrences that are there. -/
theorem replaceLoop_eq_some_iff {pat : List α} (hp : pat ≠ []) (n : ℕ) :
    ∀ w s y : List α, s.length < n →
      (replaceLoop pat [] n (w ++ s) w.length = some y ↔ ∃ x, CutOut pat s x ∧ y = w ++ x) := by
  induction n with
  | zero => exact fun _ _ _ h => absurd h (Nat.not_lt_zero _)
  | succ n ih =>
    intro w s y hn
    rw [replaceLoop]
    cases hfind : find pat (w ++ s) w.length with
    | none =>
      have habsent : ¬pat <:+: s := by
        rintro ⟨u, v, rfl⟩
        refine find_eq_none_iff.1 hfind (w ++ u).length (by simp) ?_
        have hocc := occursAt_append (w ++ u) pat v
        simpa only [append_assoc] using hocc
      simp only [cutOut_of_absent habsent, exists_eq_left, Option.some.injEq]
      exact eq_comm
    | some i =>
      obtain ⟨hocc, hle, hfirst⟩ := find_eq_some_iff.1 hfind
      obtain ⟨b, v, hs, rfl⟩ := hocc.exists_eq
      -- The occurrence lies behind `w`.
      obtain ⟨u, rfl⟩ : w <+: b := prefix_of_prefix_length_le ⟨s, rfl⟩
        ⟨pat ++ v, by rw [hs, append_assoc]⟩ hle
      obtain rfl : s = u ++ pat ++ v := by
        rw [append_assoc, append_assoc, append_cancel_left_eq] at hs
        rw [hs, append_assoc]
      have hfirst' : ∀ j < u.length, ¬OccursAt pat (u ++ pat ++ v) j := fun j hj ho => by
        refine hfirst (w.length + j) (Nat.le_add_right _ _) (by rw [length_append]; omega) ⟨?_, ?_⟩
        · have := ho.1
          rw [length_append]
          omega
        · rw [← drop_drop, drop_left]
          exact ho.2
      have hcut : (w ++ (u ++ pat ++ v)).take (w ++ u).length ++ [] ++
          (w ++ (u ++ pat ++ v)).drop ((w ++ u).length + pat.length) = w ++ u ++ v := by
        have hall : w ++ (u ++ pat ++ v) = w ++ u ++ pat ++ v := by simp only [append_assoc]
        rw [hall, append_nil, ← length_append, drop_left, append_assoc (w ++ u), take_left]
      have hpos := length_pos_iff.2 hp
      simp only [length_append] at hn
      dsimp only
      rw [hcut, length_nil, Nat.add_zero, ih (w ++ u) v y (by omega)]
      simp only [cutOut_first hp hfirst']
      constructor
      · rintro ⟨x, hx, rfl⟩
        exact ⟨u ++ x, ⟨x, hx, rfl⟩, by rw [append_assoc]⟩
      · rintro ⟨_, ⟨x, hx, rfl⟩, rfl⟩
        exact ⟨x, hx, by rw [append_assoc]⟩

/-- Replacing by nothing is cutting out. -/
theorem replace_eq_some_iff {pat s x : List α} :
    replace (s.length + 1) s pat [] = some x ↔ CutOut pat s x := by
  rcases eq_or_ne s [] with rfl | hs
  · rw [replace, if_pos rfl, Option.some.injEq]
    constructor
    · rintro rfl
      exact .absent (.inl rfl)
    · intro h
      rcases eq_or_ne pat [] with rfl | hp
      · exact h.nil.2.symm
      · exact ((cutOut_of_absent (by simpa using hp)).1 h).symm
  · rcases eq_or_ne pat [] with rfl | hp
    · rw [replace_nil_eq_none hs]
      exact iff_of_false nofun fun h => hs h.nil.1
    · rw [replace, if_neg hs]
      have hloop := replaceLoop_eq_some_iff hp (s.length + 1) [] s x (Nat.lt_succ_self _)
      simpa only [nil_append, length_nil, exists_eq_right'] using hloop

/-! ## SQL patterns -/

/-- `LIKE`: a per cent sign stands for any text, an underscore for any character, and
    a backslash takes the wildcard behind it literally. -/
def like : List Char → List Char → Bool
  | [], s => s.isEmpty
  | '%' :: pat, s => s.tails.any fun t => like pat t
  | '_' :: pat, _ :: s => like pat s
  | '_' :: _, [] => false
  | '\\' :: c :: pat, d :: s => c == d && like pat s
  | '\\' :: _ :: _, [] => false
  | c :: pat, d :: s => c == d && like pat s
  | _ :: _, [] => false

/-- A text without wildcards or backslashes. -/
def Plain (s : List Char) : Prop := '%' ∉ s ∧ '_' ∉ s ∧ '\\' ∉ s

theorem like_cons {c : Char} (hper : c ≠ '%') (hund : c ≠ '_') (hesc : c ≠ '\\')
    (pat s : List Char) :
    like (c :: pat) s = (s.head?.any (c == ·) && like pat s.tail) := by
  conv_lhs => unfold like
  split <;> simp_all

@[simp] theorem like_percent (s : List Char) : like ['%'] s = true := by
  simp [like]

/-- The texts like a plain pattern and a final per cent sign are those it is a prefix of. -/
theorem like_plain_append {pat : List Char} (hp : Plain pat) (s : List Char) :
    like (pat ++ ['%']) s ↔ pat <+: s := by
  obtain ⟨hper, hund, hesc⟩ := hp
  induction pat generalizing s with
  | nil => simp
  | cons c pat ih =>
    rw [mem_cons, not_or] at hper hund hesc
    rw [cons_append, like_cons (Ne.symm hper.1) (Ne.symm hund.1) (Ne.symm hesc.1)]
    cases s with
    | nil => simp
    | cons d s => simp [cons_prefix_cons, ih s hper.2 hund.2 hesc.2]

end Text
