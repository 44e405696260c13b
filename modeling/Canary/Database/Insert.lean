import Canary.Database.Batches
import Mathlib

/-!
# Batched inserts

A `DBInsert` collects rows and inserts them with few queries. `addRow` appends a row
to a buffer of text, `(row),(row),…`; `execute` sends the buffer, cut into queries of
limited size. The place to cut is looked for in the text: the last `),(` that starts
within the limit.

If the query has become longer than a packet may be, `addRow` sends the buffer
first. But it neither empties the buffer nor resets the length: what was sent is
sent again, by the next `addRow` and in the end by `execute`.

So every row is inserted exactly once (`SendsOnce`) in two cases only: there is at
most one row, or the query stays within a packet; and every cut falls between two
rows (`CutsBetweenRows`), which a row that is too long, or that has a `),(` in it,
may prevent. And the queries stay within their size only if each batch is shorter than
the limit, which forgets a space (`executeWithin_iff`).
-/

namespace Canary.Database

open List

def MAX_QUERY_SIZE : ℕ := 8 * 1024 * 1024

structure DBInsert where
  upsertColumns : List Text
  query : Text
  values : Text
  length : ℕ

namespace DBInsert

/-- The constructor. -/
def new (query : Text) : DBInsert := ⟨[], query, [], query.length⟩

def upsert (d : DBInsert) (columns : List Text) : DBInsert := { d with upsertColumns := columns }

/-- The text after the values: every column takes the new value if the key is there already. -/
def upsertQuery (d : DBInsert) : Text :=
  if d.upsertColumns = [] then []
  else " ON DUPLICATE KEY UPDATE ".toList ++ intercalate ", ".toList (d.upsertColumns.map fun c =>
    '`' :: c ++ "` = VALUES(`".toList ++ c ++ "`)".toList)

section Batches

variable (baseQuery upsertQuery : Text)

/-- The limit for the values, computed in a `size_t`. -/
def limit : ℕ :=
  (2 ^ 64 + MAX_QUERY_SIZE - (baseQuery.length + upsertQuery.length) % 2 ^ 64) % 2 ^ 64

/-- Where to cut the values: all of them if they are within the limit, else behind the
    comma of the last separator within the limit. -/
def cutPos (values : Text) : Option ℕ :=
  if limit baseQuery upsertQuery < values.length then
    (Text.rfind separator values (limit baseQuery upsertQuery)).map (· + 2)
  else some values.length

variable {baseQuery upsertQuery} in
theorem cutPos_pos {values : Text} (hne : values ≠ []) {n : ℕ}
    (hn : cutPos baseQuery upsertQuery values = some n) : 0 < n :=
  cutAt_pos hne hn

/-- The queries of the loop of `execute`, and whether it gets to the end of the values. -/
def sendBatches (values : Text) : Bool × List Text :=
  if _ : values = [] then (true, [])
  else
    match _ : cutPos baseQuery upsertQuery values with
    | none => (false, [])
    | some n =>
      let r := sendBatches (values.drop n)
      (r.1, batchQuery baseQuery upsertQuery (values.take n) :: r.2)
  termination_by values.length
  decreasing_by
    have := cutPos_pos ‹_› ‹_›
    have := length_pos_iff.2 ‹values ≠ []›
    simp only [length_drop]
    omega

end Batches

/-- Send the buffer. Every query succeeds. -/
def execute (d : DBInsert) : Bool × List Text :=
  if d.values = [] then (true, []) else sendBatches d.query d.upsertQuery d.values

/-- Append a row to the buffer, in parentheses. -/
def append (d : DBInsert) (row : Text) : DBInsert :=
  if d.values = [] then { d with values := '(' :: row ++ [')'] }
  else { d with values := d.values ++ (',' :: '(' :: row ++ [')']) }

/-- Add a row, sending the buffer first if the query is too long for a packet: whether
    it succeeds, the insert afterwards, and the queries sent. -/
def addRow (maxPacketSize : ℕ) (d : DBInsert) (row : Text) : Bool × DBInsert × List Text :=
  let d := { d with length := d.length + row.length }
  let sent := if maxPacketSize < d.length then d.execute else (true, [])
  if sent.1 then (true, d.append row, sent.2) else (false, d, sent.2)

/-- Add rows in order, then execute: whether every call succeeds, and all the queries. -/
def insertRows (maxPacketSize : ℕ) (d : DBInsert) : List Text → Bool × List Text
  | [] => d.execute
  | row :: rows =>
    let added := d.addRow maxPacketSize row
    let rest := insertRows maxPacketSize added.2.1 rows
    (added.1 && rest.1, added.2.2 ++ rest.2)

/-! ## The values of rows -/

variable {d : DBInsert} {base up : Text} {rows done rest : List Text}

/-- A row more in the buffer. -/
theorem values_append (hd : d.values = join done) (row : Text) :
    (d.append row).values = join (done ++ [row]) := by
  rw [append]
  rcases eq_or_ne done [] with rfl | hne
  · rw [if_pos (show d.values = [] from hd)]
    rfl
  · rw [if_neg (by rwa [hd, join_eq_nil_iff]), join_append hne (cons_ne_nil row []), hd]
    rfl

/-! ## The batches -/

theorem sendBatches_nil : sendBatches base up [] = (true, []) := by
  rw [sendBatches, dif_pos rfl]

theorem sendBatches_of_cutPos {values : Text} (hne : values ≠ []) {n : ℕ}
    (hn : cutPos base up values = some n) :
    sendBatches base up values = ((sendBatches base up (values.drop n)).1,
      batchQuery base up (values.take n) :: (sendBatches base up (values.drop n)).2) := by
  rw [sendBatches, dif_neg hne]
  split <;> simp_all

theorem sendBatches_of_cutPos_eq_none {values : Text} (hne : values ≠ [])
    (hn : cutPos base up values = none) : sendBatches base up values = (false, []) := by
  rw [sendBatches, dif_neg hne]
  split <;> simp_all

theorem execute_eq (d : DBInsert) : d.execute = sendBatches d.query d.upsertQuery d.values := by
  rw [execute]
  split_ifs with h
  · rw [h, sendBatches_nil]
  · rfl

/-- The batches are those within the limit. -/
theorem sendBatches_eq (values : Text) :
    sendBatches base up values = sendAt base up (limit base up) values := by
  fun_induction sendBatches base up values with
  | case1 => exact sendAt_nil.symm
  | case2 values hne hn => exact (sendAt_of_cutAt_eq_none hne hn).symm
  | case3 values hne n hn r ih => rw [sendAt_of_cutAt hne hn, ← ih]

theorem sendsOnce_sendBatches_iff :
    SendsOnce base up rows (sendBatches base up (join rows)) ↔
      CutsBetweenRows (limit base up) rows := by
  rw [sendBatches_eq]
  exact sendsOnce_sendAt_iff

/-! ## What is sent in all

The characters of a run of queries are counted with one more for every query, in
place of the comma its values do not end with. Rows sent a second time count twice. -/

/-- The length of a query without values. -/
def overhead (base up : Text) : ℕ := base.length + 1 + up.length

def weight (queries : List Text) : ℕ := (queries.map fun q => q.length + 1).sum

theorem weight_append (l l' : List Text) : weight (l ++ l') = weight l + weight l' := by
  simp [weight]

theorem overhead_le_batchQuery (batch : Text) :
    overhead base up ≤ (batchQuery base up batch).length := by
  simp only [overhead, batchQuery, length_append, length_singleton]
  omega

theorem length_render (rows : List Text) :
    (render base up rows).length = overhead base up + (join rows).length := by
  simp only [render, overhead, length_append, length_singleton]
  omega

theorem SendsOnce.weight_eq {r : Bool × List Text} (h : SendsOnce base up rows r) :
    weight r.2 = overhead base up * r.2.length + (rows.map fun row => row.length + 3).sum := by
  obtain ⟨-, groups, hgroups, rfl, hqueries⟩ := h
  rw [hqueries, length_map, weight, map_map]
  clear hqueries
  induction groups with
  | nil => rfl
  | cons g groups ih =>
    have hg := length_join (hgroups g mem_cons_self)
    have hgs := ih fun g hg => hgroups g (mem_cons_of_mem _ hg)
    rw [map_cons, sum_cons, hgs, flatten_cons, map_append, sum_append, ← hg, Function.comp_apply,
      length_render, length_cons, Nat.mul_succ]
    omega

theorem overhead_le_of_mem_sendBatches {values q : Text}
    (hq : q ∈ (sendBatches base up values).2) : overhead base up ≤ q.length := by
  fun_induction sendBatches base up values with
  | case1 => simp at hq
  | case2 => simp at hq
  | case3 values hne n hn r ih =>
    rcases mem_cons.1 hq with rfl | hq
    · exact overhead_le_batchQuery _
    · exact ih hq

theorem exists_of_cutPos {values : Text} {n : ℕ} (hn : cutPos base up values = some n) :
    n = values.length ∨ ∃ u v, values = u ++ [')'] ++ [','] ++ '(' :: v ∧ n = u.length + 2 := by
  rw [cutPos] at hn
  split_ifs at hn
  · obtain ⟨i, hi, rfl⟩ := Option.map_eq_some_iff.1 hn
    obtain ⟨u, v, rfl, rfl⟩ := (Text.rfind_eq_some_iff.1 hi).1.exists_eq
    exact .inr ⟨u, v, by simp [separator], rfl⟩
  · exact .inl (Option.some.inj hn).symm

/-- The queries hold the values, each of them without the comma it is cut off at. -/
theorem weight_sendBatches {values : Text} (hne : values ≠ []) (hlast : values.getLast? ≠ some ',')
    (hok : (sendBatches base up values).1 = true) :
    weight (sendBatches base up values).2 =
      overhead base up * (sendBatches base up values).2.length + values.length + 1 := by
  fun_induction sendBatches base up values with
  | case1 => exact absurd rfl hne
  | case2 => exact absurd hok (by simp)
  | case3 values _ n hn r ih =>
    rcases exists_of_cutPos hn with rfl | ⟨u, v, rfl, rfl⟩
    · have hr : r = (true, []) := by rw [← sendBatches_nil, ← drop_length (l := values)]
      simp only [hr, take_length, batchQuery, if_neg hlast, weight, overhead, map_cons, map_nil,
        sum_cons, sum_nil, length_append, length_cons, length_nil]
      omega
    · have hdrop : drop (u.length + 2) (u ++ [')'] ++ [','] ++ '(' :: v) = '(' :: v :=
        drop_left' (by simp)
      have htake : take (u.length + 2) (u ++ [')'] ++ [','] ++ '(' :: v) = u ++ [')'] ++ [','] :=
        take_left' (by simp)
      -- What is left ends as the values do.
      rw [hdrop] at ih
      have hsum := ih (cons_ne_nil _ _) (by simpa [getLast?_append] using hlast)
        (by simpa only [r, hdrop] using hok)
      simp only [r, hdrop, htake, batchQuery, if_pos, getLast?_concat, dropLast_concat]
      rw [weight, map_cons, sum_cons, ← weight, hsum]
      simp only [overhead, length_append, length_cons, length_nil, Nat.mul_succ]
      omega

/-! ## The run -/

/-- The insert after the rows `done` were added: they are all in the buffer, sent or not. -/
structure Buffered (base up : Text) (done : List Text) (d : DBInsert) : Prop where
  query_eq : d.query = base
  upsertQuery_eq : d.upsertQuery = up
  values_eq : d.values = join done
  length_eq : d.length = base.length + (done.map List.length).sum

theorem buffered_new (query : Text) (columns : List Text) :
    Buffered query ((new query).upsert columns).upsertQuery [] ((new query).upsert columns) :=
  ⟨rfl, rfl, rfl, rfl⟩

theorem Buffered.execute_eq (h : Buffered base up done d) :
    d.execute = sendBatches base up (join done) := by
  rw [DBInsert.execute_eq, h.query_eq, h.upsertQuery_eq, h.values_eq]

/-- The insert with the length of a row added. -/
def lengthen (d : DBInsert) (row : Text) : DBInsert := { d with length := d.length + row.length }

theorem Buffered.append (h : Buffered base up done d) (row : Text) :
    Buffered base up (done ++ [row]) ((d.lengthen row).append row) := by
  have hvalues : (d.lengthen row).values = join done := h.values_eq
  refine ⟨?_, ?_, values_append hvalues row, ?_⟩
  · rw [DBInsert.append]
    split_ifs <;> exact h.query_eq
  · rw [DBInsert.append]
    split_ifs <;> exact h.upsertQuery_eq
  · have hlen : ((d.lengthen row).append row).length = d.length + row.length := by
      rw [DBInsert.append]
      split_ifs <;> rfl
    rw [hlen, h.length_eq, map_append, sum_append, map_singleton, sum_singleton, Nat.add_assoc]

/-- What `addRow` sends: the whole buffer, if the query has become too long. -/
def sentEarly (base up : Text) (maxPacketSize : ℕ) (done : List Text) (row : Text) :
    Bool × List Text :=
  if maxPacketSize < base.length + ((done ++ [row]).map List.length).sum then
    sendBatches base up (join done)
  else (true, [])

theorem Buffered.addRow_eq (h : Buffered base up done d) (maxPacketSize : ℕ) (row : Text) :
    d.addRow maxPacketSize row =
      if (sentEarly base up maxPacketSize done row).1 then
        (true, (d.lengthen row).append row, (sentEarly base up maxPacketSize done row).2)
      else (false, d.lengthen row, (sentEarly base up maxPacketSize done row).2) := by
  have hlen : base.length + ((done ++ [row]).map List.length).sum = (d.lengthen row).length := by
    rw [map_append, sum_append, map_singleton, sum_singleton, ← Nat.add_assoc, ← h.length_eq]
    rfl
  have hexec : (d.lengthen row).execute = sendBatches base up (join done) := by
    rw [DBInsert.execute_eq]
    exact (DBInsert.execute_eq d).symm.trans h.execute_eq
  rw [sentEarly, hlen, ← hexec]
  rfl

/-- As long as the query stays within a packet, nothing is sent early. -/
theorem insertRows_of_le {maxPacketSize : ℕ} (h : Buffered base up done d)
    (hle : base.length + ((done ++ rows).map List.length).sum ≤ maxPacketSize) :
    d.insertRows maxPacketSize rows = sendBatches base up (join (done ++ rows)) := by
  induction rows generalizing done d with
  | nil => rw [insertRows, h.execute_eq, append_nil]
  | cons row rows ih =>
    rw [append_cons] at hle ⊢
    have hearly : sentEarly base up maxPacketSize done row = (true, []) := by
      refine if_neg ?_
      rw [map_append, sum_append] at hle
      omega
    have hadd := h.addRow_eq maxPacketSize row
    rw [hearly, if_pos rfl] at hadd
    rw [insertRows, hadd, ih (h.append row) hle]
    simp

/-- In front of a single row there is nothing to send. -/
theorem insertRows_singleton (maxPacketSize : ℕ) (h : Buffered base up [] d) (row : Text) :
    d.insertRows maxPacketSize [row] = sendBatches base up (join [row]) := by
  have hearly : sentEarly base up maxPacketSize [] row = (true, []) := by
    rw [sentEarly, join, sendBatches_nil, ite_self]
  have hadd := h.addRow_eq maxPacketSize row
  rw [hearly, if_pos rfl] at hadd
  rw [insertRows, hadd, insertRows, (h.append row).execute_eq]
  simp

theorem sendBatches_ne_nil {values : Text} (hne : values ≠ [])
    (hok : (sendBatches base up values).1 = true) : (sendBatches base up values).2 ≠ [] := by
  cases hcut : cutPos base up values with
  | none =>
    rw [sendBatches_of_cutPos_eq_none hne hcut] at hok
    exact absurd hok (by simp)
  | some n =>
    rw [sendBatches_of_cutPos hne hcut]
    exact cons_ne_nil _ _

/-- What is sent in all: the queries sent early, and then all the rows. Something is
    sent early when the query becomes too long behind the first row. -/
theorem exists_early {maxPacketSize : ℕ} (h : Buffered base up done d)
    (hok : (d.insertRows maxPacketSize rows).1 = true) :
    ∃ early, (∀ q ∈ early, overhead base up ≤ q.length) ∧
      (sendBatches base up (join (done ++ rows))).1 = true ∧
      (d.insertRows maxPacketSize rows).2 = early ++ (sendBatches base up (join (done ++ rows))).2 ∧
      (maxPacketSize < base.length + ((done ++ rows).map List.length).sum →
        rows ≠ [] → 2 ≤ (done ++ rows).length → early ≠ []) := by
  induction rows generalizing done d with
  | nil =>
    rw [insertRows, h.execute_eq] at hok ⊢
    exact ⟨[], by simp, by rwa [append_nil], by rw [append_nil, nil_append],
      fun _ h => absurd rfl h⟩
  | cons row rows ih =>
    rw [insertRows, h.addRow_eq] at hok ⊢
    cases hsent : (sentEarly base up maxPacketSize done row).1 with
    | false =>
      rw [hsent] at hok
      exact absurd hok (by simp)
    | true =>
      rw [hsent, if_pos rfl] at hok
      rw [if_pos rfl]
      obtain ⟨early, hlen, hlast, hqueries, hne⟩ := ih (h.append row) (by simpa using hok)
      rw [← append_cons] at hlast hqueries hne
      refine ⟨(sentEarly base up maxPacketSize done row).2 ++ early, ?_, hlast, ?_, ?_⟩
      · intro q hq
        rcases mem_append.1 hq with hq | hq
        · rw [sentEarly] at hq
          split_ifs at hq
          · exact overhead_le_of_mem_sendBatches hq
          · simp at hq
        · exact hlen q hq
      · rw [append_assoc, ← hqueries]
      · intro hlong _ htwo
        rcases eq_or_ne rows [] with rfl | hrows
        · -- The row is the last one: the query becomes too long with it.
          rw [sentEarly, if_pos hlong] at hsent ⊢
          refine append_ne_nil_of_left_ne_nil (sendBatches_ne_nil ?_ hsent) _
          rintro hnil
          rw [join_eq_nil_iff.1 hnil] at htwo
          exact absurd htwo (by simp)
        · exact append_ne_nil_of_right_ne_nil _ (hne hlong hrows htwo)

/-- Sending something early sends too much in all. -/
theorem not_sendsOnce_of_early {early : List Text} (hne : early ≠ []) (hrows : rows ≠ [])
    (hlen : ∀ q ∈ early, overhead base up ≤ q.length)
    (hok : (sendBatches base up (join rows)).1 = true) :
    ¬SendsOnce base up rows (true, early ++ (sendBatches base up (join rows)).2) := by
  intro h
  have hweight := h.weight_eq
  have hjoin : join rows ≠ [] := by rwa [Ne, join_eq_nil_iff]
  rw [weight_append, weight_sendBatches hjoin getLast?_join hok, Nat.add_assoc, length_join hrows,
    length_append, Nat.mul_add] at hweight
  have hearly : overhead base up * early.length + early.length ≤ weight early := by
    clear hweight h hne
    induction early with
    | nil => simp [weight]
    | cons q early ih =>
      have hq := hlen q mem_cons_self
      have hqs := ih fun q hq => hlen q (mem_cons_of_mem _ hq)
      rw [weight, map_cons, sum_cons, ← weight, length_cons, Nat.mul_succ]
      omega
  have := length_pos_iff.2 hne
  omega

/-- With a second row, a query that exceeds the packet has its rows sent more than once. -/
theorem not_sendsOnce_of_long {maxPacketSize : ℕ} (h : Buffered base up [] d)
    (htwo : 2 ≤ rows.length)
    (hlong : maxPacketSize < base.length + (rows.map List.length).sum) :
    ¬SendsOnce base up rows (d.insertRows maxPacketSize rows) := by
  intro hsends
  obtain ⟨early, hlen, hok, hqueries, hne⟩ := exists_early h hsends.1
  rw [nil_append] at hok hqueries hne
  have hrows : rows ≠ [] := by
    rintro rfl
    exact absurd htwo (by simp)
  refine not_sendsOnce_of_early (hne hlong hrows htwo) hrows hlen hok ?_
  rw [← hsends.1, ← hqueries]
  exact hsends

/-- Whatever the statement and the columns, the packet size and the rows: adding the
    rows in order and executing inserts every row once, in order, exactly if there is at
    most one row or the query stays within a packet, and the values are cut between rows. -/
theorem insertRows_sendsOnce_iff (query : Text) (columns : List Text) (maxPacketSize : ℕ)
    (rows : List Text) :
    let d := (new query).upsert columns
    SendsOnce query d.upsertQuery rows (d.insertRows maxPacketSize rows) ↔
      (rows.length ≤ 1 ∨ query.length + (rows.map List.length).sum ≤ maxPacketSize) ∧
        CutsBetweenRows (limit query d.upsertQuery) rows := by
  intro d
  have hd : Buffered query d.upsertQuery [] d := buffered_new query columns
  by_cases hshort : rows.length ≤ 1 ∨ query.length + (rows.map List.length).sum ≤ maxPacketSize
  · have hinsert :
        d.insertRows maxPacketSize rows = sendBatches query d.upsertQuery (join rows) := by
      rcases hshort with hone | hle
      · match rows, hone with
        | [], _ => exact hd.execute_eq
        | [row], _ => exact insertRows_singleton maxPacketSize hd row
      · exact insertRows_of_le hd hle
    rw [hinsert, sendsOnce_sendBatches_iff, and_iff_right hshort]
  · refine iff_of_false ?_ fun h => hshort h.1
    rw [not_or, Nat.not_le, Nat.not_le] at hshort
    exact not_sendsOnce_of_long hd hshort.1 hshort.2

/-- Two rows of one character each, where the packet has room for one: the first is sent twice. -/
theorem not_sendsOnce_two_rows :
    ¬∀ (query : Text) (columns : List Text) (maxPacketSize : ℕ) (rows : List Text),
      (∀ row ∈ rows, row.length ≤ MAX_QUERY_SIZE) →
      SendsOnce query ((new query).upsert columns).upsertQuery rows
        (((new query).upsert columns).insertRows maxPacketSize rows) := by
  intro h
  have hsends := h [] [] 1 [['1'], ['2']] (by decide)
  exact not_sendsOnce_of_long (buffered_new [] []) (by decide) (by decide) hsends

/-! ## The size of the queries -/

/-- The limit for the values of a query of some size, computed in a `size_t`. -/
def limitWithin (maxQuerySize : BitVec 64) (base up : Text) : ℕ :=
  (maxQuerySize - BitVec.ofNat 64 base.length - BitVec.ofNat 64 up.length).toNat

/-- `execute`, for queries of some size. -/
def executeWithin (maxQuerySize : BitVec 64) (d : DBInsert) : Bool × List Text :=
  if d.values = [] then (true, [])
  else sendAt d.query d.upsertQuery (limitWithin maxQuerySize d.query d.upsertQuery) d.values

theorem execute_eq_executeWithin (d : DBInsert) :
    d.execute = d.executeWithin (BitVec.ofNat 64 MAX_QUERY_SIZE) := by
  have hlimit : limit d.query d.upsertQuery =
      limitWithin (BitVec.ofNat 64 MAX_QUERY_SIZE) d.query d.upsertQuery := by
    rw [limit, limitWithin, BitVec.toNat_sub, BitVec.toNat_sub, BitVec.toNat_ofNat,
      BitVec.toNat_ofNat, BitVec.toNat_ofNat, MAX_QUERY_SIZE]
    omega
  rw [execute, executeWithin, sendBatches_eq, hlimit]

/-- The insert with rows in the buffer. -/
def withRows (query : Text) (columns rows : List Text) : DBInsert :=
  rows.foldl (fun d row => (d.lengthen row).append row) ((new query).upsert columns)

theorem buffered_withRows (query : Text) (columns rows : List Text) :
    Buffered query ((new query).upsert columns).upsertQuery rows (withRows query columns rows) := by
  induction rows using List.reverseRecOn with
  | nil => exact buffered_new query columns
  | append_singleton rows row ih =>
    rw [withRows, foldl_append]
    exact ih.append row

theorem Buffered.executeWithin_eq (h : Buffered base up done d) (maxQuerySize : BitVec 64) :
    d.executeWithin maxQuerySize = sendAt base up (limitWithin maxQuerySize base up) (join done) := by
  rw [executeWithin, h.query_eq, h.upsertQuery_eq, h.values_eq]
  split_ifs with hnil
  · rw [hnil, sendAt_nil]
  · rfl

/-- Where the statement and the columns are not too long, the limit is what they leave. -/
theorem limitWithin_eq {maxQuerySize : BitVec 64}
    (hfits : base.length + up.length ≤ maxQuerySize.toNat) :
    limitWithin maxQuerySize base up = maxQuerySize.toNat - base.length - up.length := by
  have hmax := maxQuerySize.isLt
  rw [limitWithin, BitVec.toNat_sub, BitVec.toNat_sub, BitVec.toNat_ofNat, BitVec.toNat_ofNat]
  omega

/-- Whatever the statement, the columns and the rows, and any size of queries that has room for
    each single row: the queries have every row once, in order, and stay within the size, if and
    only if the values are cut between rows, into batches that are shorter than the limit. -/
theorem executeWithin_iff (maxQuerySize : BitVec 64) (query : Text) (columns rows : List Text)
    (hfits : ∀ row ∈ rows, (render query ((new query).upsert columns).upsertQuery [row]).length ≤
      maxQuerySize.toNat) :
    let up := ((new query).upsert columns).upsertQuery
    let sent := (withRows query columns rows).executeWithin maxQuerySize
    (SendsOnce query up rows sent ∧ ∀ q ∈ sent.2, q.length ≤ maxQuerySize.toNat) ↔
      CutsWithin (maxQuerySize.toNat - query.length - up.length) rows := by
  intro up sent
  have hsent : sent = sendAt query up (limitWithin maxQuerySize query up) (join rows) :=
    (buffered_withRows query columns rows).executeWithin_eq maxQuerySize
  rcases eq_or_ne rows [] with rfl | hne
  · rw [join, sendAt_nil] at hsent
    rw [hsent]
    exact iff_of_true ⟨⟨rfl, [], List.forall_mem_nil _, rfl, rfl⟩, List.forall_mem_nil _⟩ .nil
  · obtain ⟨row, hrow⟩ := exists_mem_of_ne_nil rows hne
    have hroom : (render query up [row]).length ≤ maxQuerySize.toNat := hfits row hrow
    rw [length_render, overhead] at hroom
    have hlimit : limitWithin maxQuerySize query up =
        maxQuerySize.toNat - query.length - up.length := limitWithin_eq (by omega)
    have hsize : query.length + up.length + (maxQuerySize.toNat - query.length - up.length) =
        maxQuerySize.toNat := by
      omega
    have hiff := @sendsWithin_iff query up (maxQuerySize.toNat - query.length - up.length) rows
    rw [hsize] at hiff
    rw [hsent, hlimit, hiff]

/-! ### Two rows that fill the limit -/

def statement : Text := "INSERT INTO `t` (`k`) VALUES ".toList

/-- A text in quotes, so long that the values with a row of one character are as long as the
    limit. -/
def longRow : Text :=
  '\'' :: replicate (MAX_QUERY_SIZE - statement.length - 8) 'a' ++ ['\'']

theorem length_statement : statement.length = 29 := by decide

theorem length_longRow : longRow.length + 35 = MAX_QUERY_SIZE := by
  rw [longRow, length_append, length_cons, length_replicate, length_statement, length_singleton,
    MAX_QUERY_SIZE]

theorem fits_twoRows : ∀ row ∈ [['1'], longRow],
    (render statement ((new statement).upsert []).upsertQuery [row]).length ≤ MAX_QUERY_SIZE := by
  have hlong := length_longRow
  have hmax : 35 ≤ MAX_QUERY_SIZE := by decide
  have hup : ((new statement).upsert []).upsertQuery = [] := rfl
  intro row hrow
  rw [length_render, overhead, length_statement, hup, join]
  rcases mem_cons.1 hrow with rfl | hrow
  · simp only [length_append, length_cons, length_nil]
    omega
  · have hrow := congrArg List.length (mem_singleton.1 hrow)
    simp only [length_append, length_cons, length_nil]
    omega

/-- Each row has room, and the query with both is a character too long: the space is forgotten. -/
theorem twoRows_too_long :
    (∀ row ∈ [['1'], longRow],
      (render statement ((new statement).upsert []).upsertQuery [row]).length ≤ MAX_QUERY_SIZE) ∧
    ¬ ∀ q ∈ (withRows statement [] [['1'], longRow]).execute.2, q.length ≤ MAX_QUERY_SIZE := by
  have hlong := length_longRow
  have hup : ((new statement).upsert []).upsertQuery = [] := rfl
  have hjoin : (join [['1'], longRow]).length = MAX_QUERY_SIZE - 29 := by
    have hsum := length_join (cons_ne_nil ['1'] [longRow])
    rw [map_cons, map_singleton, sum_cons, sum_singleton, length_singleton] at hsum
    omega
  have hlimit : limitWithin (BitVec.ofNat 64 MAX_QUERY_SIZE) statement [] =
      MAX_QUERY_SIZE - 29 := by
    rw [limitWithin, length_statement]
    rfl
  refine ⟨fits_twoRows, fun hsize => ?_⟩
  rw [execute_eq_executeWithin, (buffered_withRows _ _ _).executeWithin_eq, hup, hlimit,
    sendAt_of_fits (cons_ne_nil _ _) hjoin.le] at hsize
  have hlength := hsize _ mem_cons_self
  rw [length_render, overhead, length_statement, hjoin, length_nil] at hlength
  omega

/-- Three rows that are too long for one query of 40 characters. -/
def threeRows : List Text := [['1'], ['2', '2'], ['3', '3', '3']]

/-- The last one is sent in a query of its own. -/
theorem threeRows_within :
    let up := ((new statement).upsert []).upsertQuery
    let sent := (withRows statement [] threeRows).executeWithin 40
    (40 : BitVec 64).toNat < (render statement up threeRows).length ∧
      SendsOnce statement up threeRows sent ∧ ∀ q ∈ sent.2, q.length ≤ (40 : BitVec 64).toNat := by
  have hcuts : CutsWithin 11 threeRows :=
    @CutsWithin.cut 11 [['1'], ['2', '2']] [['3', '3', '3']] (by decide) (by decide) (by decide)
      (by decide) (by decide) (.fits (by decide))
  exact ⟨by decide, (executeWithin_iff 40 statement [] threeRows (by decide)).2 hcuts⟩

end DBInsert

end Canary.Database
