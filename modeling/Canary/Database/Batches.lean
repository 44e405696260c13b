import Canary.Lib.Text
import Mathlib.Algebra.Order.Ring.Int

/-!
# Batches of rows

The values of rows, `(row),(row),…`, are sent with queries of limited size. The place to cut the
values is looked for in their text: the last `),(` that starts within a limit.

The queries have every row once, in order (`SendsOnce`), if and only if every cut falls between two
rows (`CutsBetweenRows`), which a row that is too long, or that has a `),(` in it, may prevent.
They also stay within the size that the limit is for, if and only if each batch is shorter than the
limit (`sendsWithin_iff`): the limit forgets the space in front of it.
-/

namespace Canary.Database

open List

/-- The characters of a `std::string`. -/
abbrev Text := List Char

namespace DBInsert

/-- The text between two rows. -/
def separator : Text := [')', ',', '(']

/-- The query for a batch of values. -/
def batchQuery (baseQuery upsertQuery batch : Text) : Text :=
  baseQuery ++ [' '] ++ (if batch.getLast? = some ',' then batch.dropLast else batch) ++ upsertQuery

/-- Where to cut the values: all of them if they are within the limit, else behind the
    comma of the last separator within the limit. -/
def cutAt (limit : ℕ) (values : Text) : Option ℕ :=
  if limit < values.length then (Text.rfind separator values limit).map (· + 2)
  else some values.length

theorem cutAt_pos {limit : ℕ} {values : Text} (hne : values ≠ []) {n : ℕ}
    (hn : cutAt limit values = some n) : 0 < n := by
  rw [cutAt] at hn
  split_ifs at hn
  · obtain ⟨i, -, rfl⟩ := Option.map_eq_some_iff.1 hn
    exact Nat.succ_pos _
  · exact Option.some.inj hn ▸ length_pos_iff.2 hne

/-- The queries, and whether the end of the values is reached. -/
def sendAt (baseQuery upsertQuery : Text) (limit : ℕ) (values : Text) : Bool × List Text :=
  if _ : values = [] then (true, [])
  else
    match _ : cutAt limit values with
    | none => (false, [])
    | some n =>
      let r := sendAt baseQuery upsertQuery limit (values.drop n)
      (r.1, batchQuery baseQuery upsertQuery (values.take n) :: r.2)
  termination_by values.length
  decreasing_by
    have := cutAt_pos ‹_› ‹_›
    have := length_pos_iff.2 ‹values ≠ []›
    simp only [length_drop]
    omega

/-! ## What the queries insert -/

/-- The values of rows. -/
def join : List Text → Text
  | [] => []
  | [row] => '(' :: row ++ [')']
  | row :: rows => '(' :: row ++ [')'] ++ ',' :: join rows

/-- The query that inserts rows. -/
def render (baseQuery upsertQuery : Text) (rows : List Text) : Text :=
  baseQuery ++ [' '] ++ join rows ++ upsertQuery

/-- All calls succeed, and the queries insert every row once, in order. -/
def SendsOnce (baseQuery upsertQuery : Text) (rows : List Text) (r : Bool × List Text) : Prop :=
  r.1 = true ∧ ∃ groups : List (List Text),
    (∀ g ∈ groups, g ≠ []) ∧ groups.flatten = rows ∧ r.2 = groups.map (render baseQuery upsertQuery)

/-- The values of rows are cut between rows: they are within the limit, or the last
    separator within the limit is one between two rows, and the values of the rows
    behind it are cut between rows again. -/
inductive CutsBetweenRows (limit : ℕ) : List Text → Prop
  | fits {rows : List Text} : (join rows).length ≤ limit → CutsBetweenRows limit rows
  | cut {done rest : List Text} : done ≠ [] → rest ≠ [] →
      limit < (join (done ++ rest)).length →
      Text.rfind separator (join (done ++ rest)) limit = some ((join done).length - 1) →
      CutsBetweenRows limit rest → CutsBetweenRows limit (done ++ rest)

/-! ## The values of rows -/

variable {base up : Text} {limit : ℕ} {rows done rest : List Text}

theorem join_eq_nil_iff : join rows = [] ↔ rows = [] := by
  constructor
  · intro h
    match rows with
    | [] => rfl
    | [_] => simp [join] at h
    | _ :: _ :: _ => simp [join] at h
  · rintro rfl
    rfl

theorem join_cons (row : Text) (hne : rows ≠ []) :
    join (row :: rows) = '(' :: row ++ [')'] ++ ',' :: join rows := by
  cases rows with
  | nil => exact absurd rfl hne
  | cons _ _ => rfl

theorem join_append (hdone : done ≠ []) (hrest : rest ≠ []) :
    join (done ++ rest) = join done ++ ',' :: join rest := by
  induction done with
  | nil => exact absurd rfl hdone
  | cons row done ih =>
    rcases eq_or_ne done [] with rfl | hne
    · rw [cons_append, nil_append, join_cons row hrest, join]
    · rw [cons_append, join_cons row (append_ne_nil_of_left_ne_nil hne rest), ih hne,
        join_cons row hne]
      simp only [append_assoc, cons_append]

/-- The values end with a parenthesis, not with a comma. -/
theorem getLast?_join : (join rows).getLast? ≠ some ',' := by
  induction rows with
  | nil => simp [join]
  | cons row rows ih =>
    rcases eq_or_ne rows [] with rfl | hne
    · rw [join, getLast?_append]
      simp
    · rw [join_cons row hne, getLast?_append, getLast?_cons]
      cases h : (join rows).getLast? with
      | none => exact absurd (getLast?_eq_none_iff.1 h) (by rwa [join_eq_nil_iff])
      | some c => simpa [h] using ih

/-- The length of the values, a comma more than there are: every row adds its own
    length and three characters. -/
theorem length_join (hne : rows ≠ []) :
    (join rows).length + 1 = (rows.map fun row => row.length + 3).sum := by
  induction rows with
  | nil => exact absurd rfl hne
  | cons row rows ih =>
    rcases eq_or_ne rows [] with rfl | hne
    · simp [join]
    · have := ih hne
      rw [join_cons row hne, map_cons, sum_cons, ← this]
      simp only [length_append, length_cons, length_nil]
      omega

/-! ## The batches -/

theorem sendAt_nil : sendAt base up limit [] = (true, []) := by
  rw [sendAt, dif_pos rfl]

theorem sendAt_of_cutAt {values : Text} (hne : values ≠ []) {n : ℕ}
    (hn : cutAt limit values = some n) :
    sendAt base up limit values = ((sendAt base up limit (values.drop n)).1,
      batchQuery base up (values.take n) :: (sendAt base up limit (values.drop n)).2) := by
  rw [sendAt, dif_neg hne]
  split <;> simp_all

theorem sendAt_of_cutAt_eq_none {values : Text} (hne : values ≠ [])
    (hn : cutAt limit values = none) : sendAt base up limit values = (false, []) := by
  rw [sendAt, dif_neg hne]
  split <;> simp_all

theorem batchQuery_join (rows : List Text) :
    batchQuery base up (join rows) = render base up rows := by
  rw [batchQuery, if_neg getLast?_join, render]

theorem batchQuery_join_comma (rows : List Text) :
    batchQuery base up (join rows ++ [',']) = render base up rows := by
  rw [batchQuery, if_pos (by simp), render, dropLast_concat]

/-- Values that are within the limit go out in one query. -/
theorem sendAt_of_fits (hne : rows ≠ []) (hfits : (join rows).length ≤ limit) :
    sendAt base up limit (join rows) = (true, [render base up rows]) := by
  have hcut : cutAt limit (join rows) = some (join rows).length :=
    if_neg (Nat.not_lt.2 hfits)
  rw [sendAt_of_cutAt (by rwa [Ne, join_eq_nil_iff]) hcut, drop_length, sendAt_nil,
    take_length, batchQuery_join]

/-- Values cut between rows: the rows in front of the cut go out first. -/
theorem sendAt_of_cut (hdone : done ≠ []) (hrest : rest ≠ [])
    (hcut : cutAt limit (join (done ++ rest)) = some ((join done).length + 1)) :
    sendAt base up limit (join (done ++ rest)) =
      ((sendAt base up limit (join rest)).1,
        render base up done :: (sendAt base up limit (join rest)).2) := by
  have hjoin : join (done ++ rest) = (join done ++ [',']) ++ join rest := by
    rw [join_append hdone hrest, append_assoc, singleton_append]
  have hlen : (join done).length + 1 = (join done ++ [',']).length := by simp
  rw [sendAt_of_cutAt (by simp [join_eq_nil_iff, hdone]) hcut, hjoin, hlen, drop_left,
    take_left, batchQuery_join_comma]

/-- The cut behind the last separator between two rows. -/
theorem cutAt_of_rfind (hdone : done ≠ []) (hlim : limit < (join (done ++ rest)).length)
    (hlast : Text.rfind separator (join (done ++ rest)) limit = some ((join done).length - 1)) :
    cutAt limit (join (done ++ rest)) = some ((join done).length + 1) := by
  have hpos : 0 < (join done).length := length_pos_iff.2 (by rwa [Ne, join_eq_nil_iff])
  rw [cutAt, if_pos hlim, hlast, Option.map_some, Option.some.injEq]
  omega

/-- Values cut between rows are sent once. -/
theorem CutsBetweenRows.sendsOnce (h : CutsBetweenRows limit rows) :
    SendsOnce base up rows (sendAt base up limit (join rows)) := by
  induction h with
  | @fits rows hfits =>
    rcases eq_or_ne rows [] with rfl | hne
    · exact ⟨by rw [join, sendAt_nil], [], by simp, rfl, by rw [join, sendAt_nil]; rfl⟩
    · rw [sendAt_of_fits hne hfits]
      exact ⟨rfl, [rows], by simpa using hne, by simp, rfl⟩
  | @cut done rest hdone hrest hlim hlast _ ih =>
    obtain ⟨hok, groups, hgroups, rfl, hqueries⟩ := ih
    rw [sendAt_of_cut hdone hrest (cutAt_of_rfind hdone hlim hlast)]
    refine ⟨hok, done :: groups, ?_, rfl, by rw [hqueries, map_cons]⟩
    simpa using ⟨hdone, hgroups⟩

/-- Where the first batch inserts the rows `done`, the cut is behind them. -/
theorem length_join_of_rfind {i : ℕ}
    (hi : Text.rfind separator (join (done ++ rest)) limit = some i)
    (hbatch : batchQuery base up ((join (done ++ rest)).take (i + 2)) = render base up done) :
    (join done).length = i + 1 ∧ rest ≠ [] := by
  obtain ⟨u, v, huv, rfl⟩ := (Text.rfind_eq_some_iff.1 hi).1.exists_eq
  -- The batch ends with the comma of the separator.
  have htake : (join (done ++ rest)).take (u.length + 2) = u ++ [')'] ++ [','] := by
    rw [huv, append_assoc, take_append, take_of_length_le (Nat.le_add_right _ _)]
    simp [separator]
  rw [htake, batchQuery, if_pos (by simp), dropLast_concat, render] at hbatch
  have hjoin : u ++ [')'] = join done := append_cancel_left (append_cancel_right hbatch)
  refine ⟨by simp [← hjoin], ?_⟩
  rintro rfl
  rw [append_nil, ← hjoin] at huv
  have := congrArg List.length huv
  simp [separator] at this

/-- Values sent once are cut between rows. -/
theorem cutsBetweenRows_of_sendAt {groups : List (List Text)} (hgroups : ∀ g ∈ groups, g ≠ [])
    (hok : (sendAt base up limit (join groups.flatten)).1 = true)
    (hqueries : (sendAt base up limit (join groups.flatten)).2 = groups.map (render base up)) :
    CutsBetweenRows limit groups.flatten := by
  induction groups with
  | nil => exact .fits (Nat.zero_le _)
  | cons g groups ih =>
    rw [flatten_cons] at hok hqueries ⊢
    rcases Nat.lt_or_ge limit (join (g ++ groups.flatten)).length with hlim | hfits
    · have hg : g ≠ [] := hgroups g mem_cons_self
      have hne : join (g ++ groups.flatten) ≠ [] := by simp [join_eq_nil_iff, hg]
      cases hlast : Text.rfind separator (join (g ++ groups.flatten)) limit with
      | none =>
        have hcut : cutAt limit (join (g ++ groups.flatten)) = none := by
          rw [cutAt, if_pos hlim, hlast, Option.map_none]
        rw [sendAt_of_cutAt_eq_none hne hcut] at hok
        exact absurd hok (by simp)
      | some i =>
        have hcut : cutAt limit (join (g ++ groups.flatten)) = some (i + 2) := by
          rw [cutAt, if_pos hlim, hlast, Option.map_some]
        have hbatch := hqueries
        rw [sendAt_of_cutAt hne hcut, map_cons, cons.injEq] at hbatch
        obtain ⟨hlen, hrest⟩ := length_join_of_rfind hlast hbatch.1
        have hcut' : cutAt limit (join (g ++ groups.flatten)) = some ((join g).length + 1) := by
          rw [hcut, hlen]
        rw [sendAt_of_cut hg hrest hcut'] at hok hqueries
        refine .cut hg hrest hlim (by rw [hlast, hlen, Nat.add_sub_cancel]) (ih ?_ hok ?_)
        · exact fun g hg => hgroups g (mem_cons_of_mem _ hg)
        · exact (cons.inj hqueries).2
    · exact .fits hfits

theorem sendsOnce_sendAt_iff :
    SendsOnce base up rows (sendAt base up limit (join rows)) ↔
      CutsBetweenRows limit rows := by
  refine ⟨?_, CutsBetweenRows.sendsOnce⟩
  rintro ⟨hok, groups, hgroups, rfl, hqueries⟩
  exact cutsBetweenRows_of_sendAt hgroups hok hqueries

/-! ## The size of the queries -/

/-- The values are cut between rows, and each batch leaves room for the space in front of it. -/
inductive CutsWithin (limit : ℕ) : List Text → Prop
  | nil : CutsWithin limit []
  | fits {rows : List Text} : (join rows).length < limit → CutsWithin limit rows
  | cut {done rest : List Text} : done ≠ [] → rest ≠ [] →
      limit < (join (done ++ rest)).length →
      Text.rfind separator (join (done ++ rest)) limit = some ((join done).length - 1) →
      (join done).length < limit → CutsWithin limit rest → CutsWithin limit (done ++ rest)

theorem length_render_le_iff : (render base up rows).length ≤ base.length + up.length + limit ↔
    (join rows).length < limit := by
  simp only [render, length_append, length_singleton]
  omega

theorem CutsBetweenRows.within (h : CutsBetweenRows limit rows)
    (hsize : ∀ q ∈ (sendAt base up limit (join rows)).2,
      q.length ≤ base.length + up.length + limit) : CutsWithin limit rows := by
  induction h with
  | @fits rows hfits =>
    rcases eq_or_ne rows [] with rfl | hne
    · exact .nil
    · rw [sendAt_of_fits hne hfits] at hsize
      exact .fits (length_render_le_iff.1 (hsize _ mem_cons_self))
  | @cut done rest hdone hrest hlim hlast _ ih =>
    rw [sendAt_of_cut hdone hrest (cutAt_of_rfind hdone hlim hlast)] at hsize
    exact .cut hdone hrest hlim hlast (length_render_le_iff.1 (hsize _ mem_cons_self))
      (ih fun q hq => hsize q (mem_cons_of_mem _ hq))

theorem CutsWithin.betweenRows (h : CutsWithin limit rows) : CutsBetweenRows limit rows := by
  induction h with
  | nil => exact .fits (Nat.zero_le _)
  | fits hfits => exact .fits hfits.le
  | cut hdone hrest hlim hlast _ _ ih => exact .cut hdone hrest hlim hlast ih

theorem CutsWithin.size (h : CutsWithin limit rows) :
    ∀ q ∈ (sendAt base up limit (join rows)).2, q.length ≤ base.length + up.length + limit := by
  induction h with
  | nil =>
    rw [join, sendAt_nil]
    exact nofun
  | @fits rows hfits =>
    rcases eq_or_ne rows [] with rfl | hne
    · rw [join, sendAt_nil]
      exact nofun
    · rw [sendAt_of_fits hne hfits.le]
      exact fun q hq => mem_singleton.1 hq ▸ length_render_le_iff.2 hfits
  | cut hdone hrest hlim hlast hsize _ ih =>
    rw [sendAt_of_cut hdone hrest (cutAt_of_rfind hdone hlim hlast)]
    intro q hq
    rcases mem_cons.1 hq with rfl | hq
    · exact length_render_le_iff.2 hsize
    · exact ih q hq

/-- The queries have every row once and stay within the size that the limit is for, if and only if
    the values are cut so. -/
theorem sendsWithin_iff : (SendsOnce base up rows (sendAt base up limit (join rows)) ∧
    ∀ q ∈ (sendAt base up limit (join rows)).2, q.length ≤ base.length + up.length + limit) ↔
      CutsWithin limit rows := by
  rw [sendsOnce_sendAt_iff]
  exact ⟨fun h => h.1.within h.2, fun h => ⟨h.betweenRows, h.size⟩⟩

end DBInsert

end Canary.Database
