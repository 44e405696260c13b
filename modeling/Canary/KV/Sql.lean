import Canary.Database.Insert
import Canary.KV.Refinement

/-!
# The key-value store in a SQL table

`KVSQL` keeps the values in a table `kv_store` with a row for every key, the key
being the primary key. Rows are written by an insert that collects them first
(`DBInsert`) and updates the row of a key that is there already. A tombstone
deletes the row of its key at once. The table is exact: it returns what was
written, and no query fails (`Server`).

But a row may be so long that the insert has no query for it, and then nothing
is written. For an eviction nobody looks at that: the value is lost
(`evict_loses`). Saving everything, rows that were sent early stay in the insert
and are written again, with the same values, which does no harm; where the
insert does not cut its text between two rows, rows are lost, too
(`SavesRows`). Apart from that the store refines a map (`sql_refines_map`).
-/

namespace Canary.KV

open List Transition Database Database.DBInsert

variable {δ : Type}

/-- A row of `kv_store`, but for its key. -/
structure Row (δ : Type) where
  value : δ
  timestamp : ℕ
  deriving DecidableEq, Repr

/-- The table `kv_store`. -/
abbrev Table (δ : Type) := AList fun _ : Key => Row δ

namespace KVSQL

def baseQuery : Text :=
  "INSERT INTO `kv_store` (`key_name`, `timestamp`, `value`) VALUES".toList

def dbUpdate : DBInsert :=
  (DBInsert.new baseQuery).upsert ["key_name".toList, "timestamp".toList, "value".toList]

/-- The text of a row, of the texts of its key and value. -/
def formatRow (escapeString : Text → Text) (serialize : δ → Text) (r : Key × Row δ) : Text :=
  escapeString r.1 ++ ", ".toList ++ (Nat.repr r.2.timestamp).toList ++ ", ".toList ++
    escapeString (serialize r.2.value)

/-- Write rows in order, a later row of a key replacing an earlier one. -/
def upsert (rows : List (Key × Row δ)) (t : Table δ) : Table δ :=
  rows.foldl (fun t r => t.insert r.1 r.2) t

/-- A database with an exact table, and how its client and the library for messages write texts. A
query for rows writes these rows. The map is gone through in some order. -/
structure Server (δ : Type) where
  escapeString : Text → Text
  serialize : δ → Text
  maxPacketSize : ℕ
  query : Text → Table δ → Table δ
  query_render : ∀ rows : List (Key × Row δ), rows ≠ [] → ∀ t,
    query (render baseQuery dbUpdate.upsertQuery (rows.map (formatRow escapeString serialize))) t =
      upsert rows t
  order : Store δ → List (Sigma fun _ : Key => Entry δ)
  order_perm : ∀ store, order store ~ store.entries

variable (S : Server δ)

def Server.text (r : Key × Row δ) : Text := formatRow S.escapeString S.serialize r

/-- An insert under way, and the table. -/
abbrev Update (δ : Type) := DBInsert × Table δ

def send (queries : List Text) (t : Table δ) : Table δ := queries.foldl (fun t q => S.query q t) t

/-- Whether all is sent, and the table after what was. -/
def execute (u : Update δ) : Bool × Table δ :=
  let sent := u.1.execute
  (sent.1, send S sent.2 u.2)

def addRow (u : Update δ) (r : Key × Row δ) : Bool × Update δ :=
  let added := u.1.addRow S.maxPacketSize (S.text r)
  (added.1, added.2.1, send S added.2.2 u.2)

/-- The row of an entry. -/
def rowOf (key : Key) (v : ValueWrapper δ) : Key × Row δ := (key, ⟨v.data, v.timestamp⟩)

/-- Whether `addRow` succeeded is not looked at. -/
def prepareSave (key : Key) (v : ValueWrapper δ) (u : Update δ) : Bool × Update δ :=
  if v.isDeleted then (true, u.1, u.2.erase key) else (true, (addRow S u (rowOf key v)).2)

def load (t : Table δ) (key : Key) : Option (ValueWrapper δ) :=
  (t.lookup key).map fun r => ⟨r.value, r.timestamp, false⟩

def save (t : Table δ) (key : Key) (v : ValueWrapper δ) : Bool × Table δ :=
  execute S (prepareSave S key v (dbUpdate, t)).2

/-- The loop over the entries, which ends when one of them cannot be prepared. -/
def prepareAll : List (Sigma fun _ : Key => Entry δ) → Update δ → Bool × Update δ
  | [], u => (true, u)
  | e :: l, u =>
    let prepared := prepareSave S e.1 e.2.value u
    if prepared.1 then prepareAll l prepared.2 else (false, prepared.2)

/-- Save a copy of the map, entry by entry, in one transaction, which is committed in any case.
    Copying locks the mutex, for which a caller that holds it waits for ever. -/
def saveAll (locked : Bool) (store : Store δ) (t : Table δ) : Option (Bool × Table δ) :=
  if locked then none
  else
    let prepared := prepareAll S (S.order store) (dbUpdate, t)
    some (if prepared.1 then execute S prepared.2 else (false, prepared.2.2))

/-- The suffixes of the keys of the rows that match the prefix as a pattern. They are
    got by cutting out *every* occurrence of the prefix, which for the empty prefix
    goes on for ever. -/
def loadPrefix (t : Table δ) (pre : Key) : Option (List Key) :=
  (t.keys.filter fun key => Text.like (pre ++ ['%']) key).mapM fun key =>
    Text.replace (key.length + 1) key pre []

end KVSQL

open KVSQL

/-- The store in a SQL table. -/
def KVSQL (S : Server δ) : Backend δ (Table δ) where
  load := KVSQL.load
  save := KVSQL.save S
  loadPrefix := KVSQL.loadPrefix
  saveAll := KVSQL.saveAll S

namespace KVSQL

/-! ## Writing rows -/

@[simp] theorem upsert_snoc (rows : List (Key × Row δ)) (r : Key × Row δ) (t : Table δ) :
    upsert (rows ++ [r]) t = (upsert rows t).insert r.1 r.2 := by
  simp [upsert]

theorem lookup_insert_eq_ite (t : Table δ) (key : Key) (r : Row δ) (k : Key) :
    (t.insert key r).lookup k = if k = key then some r else t.lookup k := by
  split_ifs with hk
  · subst hk
    simp
  · exact AList.lookup_insert_ne hk

/-- Writing rows does not touch the other keys. -/
theorem lookup_upsert_of_not_mem {rows : List (Key × Row δ)} {t : Table δ} {k : Key}
    (hk : k ∉ rows.map Prod.fst) : (upsert rows t).lookup k = t.lookup k := by
  induction rows using List.reverseRecOn with
  | nil => rfl
  | append_singleton rows r ih =>
    rw [map_append, mem_append, not_or] at hk
    rw [upsert_snoc, AList.lookup_insert_ne (by simpa using hk.2), ih hk.1]

/-- What a key that is written holds afterwards does not depend on the table before. -/
theorem lookup_upsert_of_mem {rows : List (Key × Row δ)} {k : Key} (hk : k ∈ rows.map Prod.fst)
    (t t' : Table δ) : (upsert rows t).lookup k = (upsert rows t').lookup k := by
  induction rows using List.reverseRecOn with
  | nil => simp at hk
  | append_singleton rows r ih =>
    rw [upsert_snoc, upsert_snoc, lookup_insert_eq_ite, lookup_insert_eq_ite]
    split_ifs with hkr
    · rfl
    · rw [map_append, mem_append] at hk
      exact ih (hk.resolve_right (by simpa using hkr))

/-- Writing rows a second time changes nothing. -/
theorem lookup_upsert_upsert (rows : List (Key × Row δ)) (t : Table δ) (k : Key) :
    (upsert rows (upsert rows t)).lookup k = (upsert rows t).lookup k := by
  by_cases hk : k ∈ rows.map Prod.fst
  · exact lookup_upsert_of_mem hk _ _
  · exact lookup_upsert_of_not_mem hk

theorem load_eq_of_lookup {t t' : Table δ} {k : Key} (h : t.lookup k = t'.lookup k) :
    load t k = load t' k := by
  rw [load, load, h]

theorem upsert_append (rows rows' : List (Key × Row δ)) (t : Table δ) :
    upsert (rows ++ rows') t = upsert rows' (upsert rows t) :=
  foldl_append

/-! ## Queries for rows -/

variable {S : Server δ} {rows done : List (Key × Row δ)} {u : Update δ}

/-- The room that a query has for the text of its rows. -/
def room : ℕ := limit baseQuery dbUpdate.upsertQuery

/-- Queries that have the rows once, in order, write them. -/
theorem send_groups {groups : List (List Text)} (hne : ∀ g ∈ groups, g ≠ [])
    (hrows : groups.flatten = rows.map S.text) (t : Table δ) :
    send S (groups.map (render baseQuery dbUpdate.upsertQuery)) t = upsert rows t := by
  induction groups generalizing rows t with
  | nil =>
    obtain rfl : rows = [] := map_eq_nil_iff.1 hrows.symm
    rfl
  | cons g groups ih =>
    obtain ⟨l, l', rfl, hl, hl'⟩ := map_eq_append_iff.1 hrows.symm
    have hne' : l ≠ [] := fun h => hne g mem_cons_self (by rw [← hl, h]; rfl)
    have hquery : S.query (render baseQuery dbUpdate.upsertQuery g) t = upsert l t := by
      rw [← hl]
      exact S.query_render l hne' t
    rw [upsert_append, ← ih (fun g hg => hne g (mem_cons_of_mem _ hg)) hl'.symm, ← hquery]
    rfl

/-- Rows that are cut between rows are written. -/
theorem send_batches (h : CutsBetweenRows room (rows.map S.text)) (t : Table δ) :
    send S (sendBatches baseQuery dbUpdate.upsertQuery (join (rows.map S.text))).2 t =
        upsert rows t ∧
      (sendBatches baseQuery dbUpdate.upsertQuery (join (rows.map S.text))).1 = true := by
  obtain ⟨hok, groups, hne, hflat, hsent⟩ := sendsOnce_sendBatches_iff.2 h
  rw [hsent]
  exact ⟨send_groups hne hflat t, hok⟩

/-! ## Saving -/

/-- The rows `done` were collected, and are all in the insert. -/
def Collected (S : Server δ) (done : List (Key × Row δ)) (u : Update δ) : Prop :=
  Buffered baseQuery dbUpdate.upsertQuery (done.map S.text) u.1

theorem collected_dbUpdate (S : Server δ) (t : Table δ) : Collected S [] (dbUpdate, t) :=
  buffered_new _ _

theorem execute_spec (h : Collected S done u) (hcuts : CutsBetweenRows room (done.map S.text)) :
    execute S u = (true, upsert done u.2) := by
  obtain ⟨hsend, hok⟩ := send_batches hcuts u.2
  rw [execute, Buffered.execute_eq h, hsend, hok]

/-- What is sent early: the query with one more row would be longer than a packet. -/
def Early (S : Server δ) (done : List (Key × Row δ)) (r : Key × Row δ) : Prop :=
  S.maxPacketSize < baseQuery.length + (((done ++ [r]).map S.text).map List.length).sum

/-- A row collected is written in the end, whether or not rows are written early. -/
theorem addRow_spec (h : Collected S done u) {r : Key × Row δ}
    (hearly : Early S done r → CutsBetweenRows room (done.map S.text)) :
    Collected S (done ++ [r]) (addRow S u r).2 ∧ ∀ k,
      (upsert (done ++ [r]) (addRow S u r).2.2).lookup k =
        if k = r.1 then some r.2 else (upsert done u.2).lookup k := by
  have hadd := Buffered.addRow_eq h S.maxPacketSize (S.text r)
  have hcollected := Buffered.append h (S.text r)
  rw [← map_singleton (f := S.text), ← map_append] at hcollected
  rw [sentEarly, ← map_singleton (f := S.text), ← map_append] at hadd
  by_cases hsend : Early S done r
  · obtain ⟨hsent, hok⟩ := send_batches (hearly hsend) u.2
    unfold Early at hsend
    rw [if_pos hsend, if_pos hok] at hadd
    rw [addRow, hadd]
    refine ⟨hcollected, fun k => ?_⟩
    simp only [hsent, upsert_snoc, lookup_insert_eq_ite, lookup_upsert_upsert]
  · unfold Early at hsend
    rw [if_neg hsend, if_pos rfl] at hadd
    rw [addRow, hadd]
    refine ⟨hcollected, fun k => ?_⟩
    simp only [send, foldl_nil, upsert_snoc, lookup_insert_eq_ite]

/-- The rows of the entries that are not tombstones. -/
def liveRows (l : List (Sigma fun _ : Key => Entry δ)) : List (Key × Row δ) :=
  l.filterMap fun e => if e.2.value.isDeleted then none else some (rowOf e.1 e.2.value)

/-- Rows that are all written when they are collected behind the rows `done`: what is sent early,
    and all of them at the end, is cut between rows. -/
structure SavesRows (S : Server δ) (done rows : List (Key × Row δ)) : Prop where
  early : ∀ l r l', rows = l ++ r :: l' → Early S (done ++ l) r →
    CutsBetweenRows room ((done ++ l).map S.text)
  last : CutsBetweenRows room ((done ++ rows).map S.text)

theorem SavesRows.tail {r : Key × Row δ} (h : SavesRows S done (r :: rows)) :
    SavesRows S (done ++ [r]) rows := by
  refine ⟨fun l r' l' hl hearly => ?_, ?_⟩
  · have hcuts := h.early (r :: l) r' l' (by rw [hl, cons_append])
    rw [append_cons] at hcuts
    exact hcuts hearly
  · rw [append_assoc]
    exact h.last

theorem prepareSave_ok (S : Server δ) (key : Key) (v : ValueWrapper δ) (u : Update δ) :
    (prepareSave S key v u).1 = true := by
  rw [prepareSave]
  split_ifs <;> rfl

/-- An entry is prepared: at the end its key will hold its value. -/
theorem prepareSave_spec (h : Collected S done u) {key : Key} (hkey : key ∉ done.map Prod.fst)
    (v : ValueWrapper δ) (hearly : v.isDeleted = false → Early S done (rowOf key v) →
      CutsBetweenRows room (done.map S.text)) :
    let done' := done ++ if v.isDeleted then [] else [rowOf key v]
    let prepared := prepareSave S key v u
    Collected S done' prepared.2 ∧ ∀ k,
      load (upsert done' prepared.2.2) k =
        if k = key then v.live else load (upsert done u.2) k := by
  rw [prepareSave, ValueWrapper.live]
  cases hdel : v.isDeleted with
  | true =>
    -- The row of a tombstone is deleted, and not written afterwards.
    simp only [if_true, append_nil]
    refine ⟨h, fun k => ?_⟩
    split_ifs with hk
    · subst hk
      rw [load, lookup_upsert_of_not_mem hkey, AList.lookup_erase, Option.map_none]
    · refine load_eq_of_lookup ?_
      by_cases hmem : k ∈ done.map Prod.fst
      · exact lookup_upsert_of_mem hmem _ _
      · rw [lookup_upsert_of_not_mem hmem, lookup_upsert_of_not_mem hmem, AList.lookup_erase_ne hk]
  | false =>
    obtain ⟨hcollected, hlookup⟩ := addRow_spec h (hearly hdel)
    simp only [Bool.false_eq_true, if_false]
    refine ⟨hcollected, fun k => ?_⟩
    rw [load, hlookup]
    obtain ⟨data, timestamp, deleted⟩ := v
    obtain rfl : deleted = false := hdel
    by_cases hk : k = key
    · rw [if_pos (show k = (rowOf key _).1 from hk), if_pos hk]
      rfl
    · rw [if_neg (show k ≠ (rowOf key _).1 from hk), if_neg hk, load]

theorem liveRows_cons (e : Sigma fun _ : Key => Entry δ)
    (l : List (Sigma fun _ : Key => Entry δ)) : liveRows (e :: l) =
      (if e.2.value.isDeleted then [] else [rowOf e.1 e.2.value]) ++ liveRows l := by
  rw [liveRows, filterMap_cons]
  split_ifs <;> rfl

/-- Saving entries with distinct keys, in whatever order they come: a key among them
    holds its value afterwards, the other keys what they held before. -/
theorem prepareAll_spec (l : List (Sigma fun _ : Key => Entry δ)) (hl : l.NodupKeys)
    (h : Collected S done u) (hdone : ∀ key ∈ l.keys, key ∉ done.map Prod.fst)
    (hsaves : SavesRows S done (liveRows l)) :
    (prepareAll S l u).1 = true ∧ (execute S (prepareAll S l u).2).1 = true ∧ ∀ k,
      load (execute S (prepareAll S l u).2).2 k =
        ((l.dlookup k).map fun e => e.value.live).getD (load (upsert done u.2) k) := by
  induction l generalizing done u with
  | nil =>
    have hlast := hsaves.last
    rw [liveRows, filterMap_nil, append_nil] at hlast
    rw [prepareAll, execute_spec h hlast]
    exact ⟨rfl, rfl, fun k => rfl⟩
  | cons e l ih =>
    obtain ⟨hnot, hl⟩ := nodupKeys_cons.1 hl
    have hkey := hdone e.1 (by simp)
    rw [liveRows_cons] at hsaves
    -- If `e` does not fit any more, the rows before it are sent first, cut between rows.
    have hearly : e.2.value.isDeleted = false → Early S done (rowOf e.1 e.2.value) →
        CutsBetweenRows room (done.map S.text) := fun hdel hlong => by
      have hcuts := hsaves.early [] (rowOf e.1 e.2.value) (liveRows l) (by simp [hdel])
      rw [append_nil] at hcuts
      exact hcuts hlong
    obtain ⟨hcollected, hload⟩ := prepareSave_spec h hkey e.2.value hearly
    have hdone' : ∀ key ∈ l.keys, key ∉ (done ++ if e.2.value.isDeleted then []
        else [rowOf e.1 e.2.value]).map Prod.fst := fun key hmem => by
      have hne : key ≠ e.1 := fun heq => hnot (heq ▸ hmem)
      have hold := hdone key (by simp [hmem])
      split_ifs <;> simp_all [rowOf]
    have hsaves' : SavesRows S (done ++ if e.2.value.isDeleted then []
        else [rowOf e.1 e.2.value]) (liveRows l) := by
      cases hdel : e.2.value.isDeleted with
      | true => simpa [hdel] using hsaves
      | false =>
        rw [hdel] at hsaves
        exact hsaves.tail
    obtain ⟨hall, hexec, hrest⟩ := ih hl hcollected hdone' hsaves'
    rw [prepareAll, if_pos (prepareSave_ok ..)]
    refine ⟨hall, hexec, fun k => (hrest k).trans ?_⟩
    rw [hload]
    -- Later entries have other keys, so the value of `e` stays.
    by_cases hk : k = e.1
    · subst hk
      rw [dlookup_cons_eq, dlookup_eq_none.2 hnot]
      simp
    · rw [dlookup_cons_ne _ _ hk, if_neg hk]

/-- What is saved: a row alone has room in a query, and the rows of a map are cut between rows. -/
def saves (S : Server δ) : Saves δ where
  one key v := v.isDeleted = false → (S.text (rowOf key v)).length + 2 ≤ room
  all store := SavesRows S [] (liveRows (S.order store))

/-- A row alone is saved as one of a map is. -/
theorem savesRows_one {key : Key} {v : ValueWrapper δ} (h : (saves S).one key v) (it : Option ℕ) :
    SavesRows S [] (liveRows [⟨key, ⟨v, it⟩⟩]) := by
  rw [liveRows_cons]
  cases hdel : v.isDeleted with
  | true => exact ⟨fun l r l' hl => by simp [liveRows] at hl, .fits (Nat.zero_le _)⟩
  | false =>
    refine ⟨fun l r l' hl _ => ?_, .fits ?_⟩
    · obtain rfl : l = [] := by
        rcases l with _ | ⟨_, _⟩ <;> simp [liveRows] at hl ⊢
      exact .fits (Nat.zero_le _)
    · have hroom := h hdel
      simp only [Bool.false_eq_true, if_false, liveRows, filterMap_nil, append_nil, nil_append,
        map_cons, map_nil, join, length_append, length_cons, length_nil]
      omega

/-- The table loads what was last saved. -/
theorem exact (S : Server δ) : (KVSQL S).Exact (saves S) where
  load_live t key v h := by
    obtain ⟨r, _, rfl⟩ := Option.map_eq_some_iff.1 h
    rfl
  load_save t key v hsaves k := by
    have hrow := savesRows_one hsaves none
    obtain ⟨-, -, hload⟩ := prepareAll_spec (u := (dbUpdate, t)) [⟨key, ⟨v, none⟩⟩]
      (nodupKeys_singleton _) (collected_dbUpdate S t) (by simp) hrow
    have hone : prepareAll S [⟨key, ⟨v, none⟩⟩] (dbUpdate, t) =
        prepareSave S key v (dbUpdate, t) := by
      rw [prepareAll, if_pos (prepareSave_ok ..), prepareAll]
      exact Prod.ext (prepareSave_ok ..).symm rfl
    rw [hone] at hload
    refine (hload k).trans ?_
    by_cases hk : k = key
    · subst hk
      rw [dlookup_cons_eq, if_pos rfl]
      rfl
    · rw [dlookup_cons_ne _ _ hk, if_neg hk]
      rfl
  load_saveAll locked store t r h hsaves key := by
    have hnodup := (perm_nodupKeys (S.order_perm store)).2 store.nodupKeys
    obtain ⟨hok, -, hload⟩ := prepareAll_spec (u := (dbUpdate, t)) (S.order store) hnodup
      (collected_dbUpdate S t) (by simp) hsaves
    have hr : KVSQL.saveAll S locked store t = some r := h
    rw [KVSQL.saveAll] at hr
    split_ifs at hr
    obtain rfl := Option.some.inj hr
    rw [if_pos hok]
    refine (hload key).trans ?_
    rw [perm_dlookup key hnodup (S.order_perm store)]
    rfl

/-- What has room in a single query is saved. -/
theorem savesRows_of_fits (h : (join (rows.map S.text)).length ≤ room) : SavesRows S [] rows := by
  refine ⟨fun l r l' hl _ => .fits ?_, .fits h⟩
  rw [nil_append]
  rcases eq_or_ne l [] with rfl | hne
  · exact Nat.zero_le _
  · rw [hl, map_append, join_append (by simpa using hne) (by simp), length_append] at h
    omega

end KVSQL

namespace KVStore

variable [Inhabited δ] {S : Server δ} {maxSize : ℕ}

/-- The calls that load nothing by force that is newer in memory, and save what they have to. -/
def Fits (S : Server δ) (maxSize : ℕ) (s : KVStore δ (Table δ)) (op : Op δ) : Prop :=
  NotNewer (KVSQL S) s op ∧ s.Saving (KVSQL S) (KVSQL.saves S) maxSize op

omit [Inhabited δ] in
/-- Nothing is flushed to the table: `flush` waits for a mutex it holds itself. -/
theorem flush_sql (s : KVStore δ (Table δ)) : s.flush (KVSQL S) = none := rfl

/-- The map and the list stay in agreement, and the abstract state follows the specification. -/
theorem good_and_live_of_run (hm : 0 < maxSize) {t : Table δ} {ops : List (Op δ)}
    {s : KVStore δ (Table δ)}
    (hr : (system (KVSQL S) maxSize).Run (Fits S maxSize) (empty t) ops s) :
    Good maxSize s ∧ s.live (KVSQL S) = Spec.run (KVSQL.load t) ops := by
  refine hr.invariant
    (I := fun ops s => Good maxSize s ∧ s.live (KVSQL S) = Spec.run (KVSQL.load t) ops)
    ⟨⟨inv_empty t, Nat.zero_le _⟩, rfl⟩ ?_
  rintro ops s op s' ⟨hgood, hlive⟩ ⟨hop, hsaves⟩ hst
  have hne : op ≠ .flush := by
    rintro rfl
    simp [system, step, flush_sql] at hst
  refine ⟨hgood.step hm (fun h => absurd h hne) hst, ?_⟩
  rw [live_step (KVSQL.exact S) hgood.1 hne hop hsaves hst, hlive, Spec.run_snoc]

/-- After every run of calls that starts with nothing in memory, does not load by force what is
    newer in memory, and evicts only what is saved: `get` answers with the value last set for the
    key, or nothing if it was last removed, or what the table held if it was never set; and saving
    everything returns, and leaves exactly the live values in the table, if their rows are saved. -/
theorem sql_refines_map (S : Server δ) (maxSize : ℕ) (hm : 0 < maxSize)
    (t : Table δ) (ops : List (Op δ)) (s : KVStore δ (Table δ))
    (hr : (system (KVSQL S) maxSize).Run (Fits S maxSize) (empty t) ops s) :
    (∀ key forceLoad, NotNewer (KVSQL S) s (.get key forceLoad) →
      (s.get (KVSQL S) maxSize key forceLoad).1 = Spec.run (KVSQL.load t) ops key) ∧
    ∃ s', s.saveAll (KVSQL S) = some s' ∧ ((KVSQL.saves S).all s.store →
      ∀ key, KVSQL.load s'.db key = Spec.run (KVSQL.load t) ops key) := by
  obtain ⟨-, hlive⟩ := good_and_live_of_run hm hr
  refine ⟨fun key forceLoad hop => ?_, _, rfl, fun hsaves key => ?_⟩
  · rw [get_eq_live maxSize hop, hlive]
  · rw [← hlive]
    exact congrFun (load_saveAll (KVSQL.exact S) rfl hsaves) key

end KVStore

/-! ## A server

Texts are put in quotes, with a backslash in front of quotes and backslashes. -/

namespace KVSQL

def escapeChar (c : Char) : Text := if c = '\'' ∨ c = '\\' then ['\\', c] else [c]

def quote (s : Text) : Text := '\'' :: s.flatMap escapeChar ++ ['\'']

theorem escapeChar_append_inj {c c' : Char} {a b : Text}
    (h : escapeChar c ++ a = escapeChar c' ++ b) : c = c' ∧ a = b := by
  unfold escapeChar at h
  split_ifs at h with hc hc' hc'
  · exact ⟨(cons.inj (cons.inj h).2).1, (cons.inj (cons.inj h).2).2⟩
  · exact absurd (.inr (cons.inj h).1.symm) hc'
  · exact absurd (.inr (cons.inj h).1) hc
  · exact ⟨(cons.inj h).1, (cons.inj h).2⟩

/-- The closing quote ends a text. -/
theorem escapeChar_ne_quote (c : Char) (a b : Text) : escapeChar c ++ a ≠ '\'' :: b := by
  intro h
  unfold escapeChar at h
  split_ifs at h with hc
  · exact absurd (cons.inj h).1 (by decide)
  · exact hc (.inl (cons.inj h).1)

theorem flatMap_escapeChar_inj {s s' a b : Text}
    (h : s.flatMap escapeChar ++ '\'' :: a = s'.flatMap escapeChar ++ '\'' :: b) :
    s = s' ∧ a = b := by
  induction s generalizing s' with
  | nil =>
    cases s' with
    | nil => exact ⟨rfl, (cons.inj h).2⟩
    | cons c s' =>
      rw [flatMap_cons, append_assoc] at h
      exact absurd h.symm (escapeChar_ne_quote _ _ _)
  | cons c s ih =>
    cases s' with
    | nil =>
      rw [flatMap_cons, append_assoc] at h
      exact absurd h (escapeChar_ne_quote _ _ _)
    | cons c' s' =>
      rw [flatMap_cons, flatMap_cons, append_assoc, append_assoc] at h
      obtain ⟨rfl, hrest⟩ := escapeChar_append_inj h
      obtain ⟨rfl, rfl⟩ := ih hrest
      exact ⟨rfl, rfl⟩

/-- A text in quotes ends where it ends, whatever stands behind it. -/
theorem quote_append_inj {s s' a b : Text} (h : quote s ++ a = quote s' ++ b) :
    s = s' ∧ a = b := by
  have hcons (s a : Text) : quote s ++ a = '\'' :: (s.flatMap escapeChar ++ '\'' :: a) := by
    simp [quote]
  rw [hcons, hcons] at h
  exact flatMap_escapeChar_inj (cons.inj h).2

/-- A comma ends a number. -/
theorem repr_append_inj {m n : ℕ} {a b : Text}
    (h : (Nat.repr m).toList ++ ',' :: a = (Nat.repr n).toList ++ ',' :: b) : m = n ∧ a = b := by
  have hdigit (k : ℕ) : ∀ c ∈ (Nat.repr k).toList, (c != ',') = true := by
    intro c hc
    rw [Nat.toList_repr] at hc
    have hc := Nat.isDigit_of_mem_toDigits (by decide) (by decide) hc
    rw [bne_iff_ne]
    rintro rfl
    exact absurd hc (by decide)
  have htake := congrArg (takeWhile (· != ',')) h
  rw [takeWhile_append_of_pos (hdigit m), takeWhile_append_of_pos (hdigit n),
    takeWhile_cons_of_neg (by decide), takeWhile_cons_of_neg (by decide), append_nil,
    append_nil] at htake
  rw [htake] at h
  exact ⟨Nat.repr_injective (String.toList_inj.1 htake), (cons.inj (append_cancel_left h)).2⟩

theorem formatRow_append (r : Key × Row Text) (a : Text) :
    formatRow quote id r ++ a = quote r.1 ++ ',' :: ' ' :: ((Nat.repr r.2.timestamp).toList ++
      ',' :: ' ' :: (quote r.2.value ++ a)) := by
  rw [formatRow, show ", ".toList = [',', ' '] from rfl]
  simp only [append_assoc, cons_append, nil_append, id]

theorem formatRow_append_inj {r r' : Key × Row Text} {a b : Text}
    (h : formatRow quote id r ++ a = formatRow quote id r' ++ b) : r = r' ∧ a = b := by
  rw [formatRow_append, formatRow_append] at h
  obtain ⟨hkey, hrest⟩ := quote_append_inj h
  obtain ⟨htime, hrest⟩ := repr_append_inj (cons.inj (cons.inj hrest).2).2
  obtain ⟨hvalue, rfl⟩ := quote_append_inj (cons.inj hrest).2
  obtain ⟨key, value, timestamp⟩ := r
  obtain ⟨key', value', timestamp'⟩ := r'
  obtain ⟨rfl, rfl, rfl⟩ : key = key' ∧ timestamp = timestamp' ∧ value = value' :=
    ⟨hkey, htime, hvalue⟩
  exact ⟨rfl, rfl⟩

theorem join_map_cons (r : Key × Row Text) (rows : List (Key × Row Text)) :
    join ((r :: rows).map (formatRow quote id)) = '(' :: (formatRow quote id r ++
      ')' :: if rows = [] then [] else ',' :: join (rows.map (formatRow quote id))) := by
  rcases eq_or_ne rows [] with rfl | hne
  · simp [join]
  · rw [map_cons, join_cons _ (by simpa using hne), if_neg hne]
    simp

/-- The text of rows tells which they are. -/
theorem join_inj {rows rows' : List (Key × Row Text)}
    (h : join (rows.map (formatRow quote id)) = join (rows'.map (formatRow quote id))) :
    rows = rows' := by
  induction rows generalizing rows' with
  | nil => exact (map_eq_nil_iff.1 (join_eq_nil_iff.1 h.symm)).symm
  | cons r rows ih =>
    cases rows' with
    | nil => exact absurd (join_eq_nil_iff.1 h) (cons_ne_nil _ _)
    | cons r' rows' =>
      rw [join_map_cons, join_map_cons] at h
      obtain ⟨rfl, hrest⟩ := formatRow_append_inj (cons.inj h).2
      replace hrest := (cons.inj hrest).2
      rw [cons.injEq, and_iff_right rfl]
      rcases eq_or_ne rows [] with rfl | hne
      · rcases eq_or_ne rows' [] with rfl | hne'
        · rfl
        · rw [if_pos rfl, if_neg hne'] at hrest
          cases hrest
      · rcases eq_or_ne rows' [] with rfl | hne'
        · rw [if_pos rfl, if_neg hne] at hrest
          cases hrest
        · rw [if_neg hne, if_neg hne'] at hrest
          exact ih (cons.inj hrest).2

open Classical in
/-- A query for rows is told by its text. -/
noncomputable def sqlServer : Server Text where
  escapeString := quote
  serialize := id
  maxPacketSize := 2 ^ 24
  query q t :=
    if h : ∃ rows : List (Key × Row Text), rows ≠ [] ∧
        q = render baseQuery dbUpdate.upsertQuery (rows.map (formatRow quote id)) then
      upsert h.choose t
    else t
  query_render rows hne t := by
    have h : ∃ rows' : List (Key × Row Text), rows' ≠ [] ∧
        render baseQuery dbUpdate.upsertQuery (rows.map (formatRow quote id)) =
          render baseQuery dbUpdate.upsertQuery (rows'.map (formatRow quote id)) :=
      ⟨rows, hne, rfl⟩
    have hrows : rows = h.choose :=
      join_inj (append_cancel_left (append_cancel_right h.choose_spec.2))
    rw [dif_pos h, ← hrows]
  order store := store.entries
  order_perm _ := .refl _

end KVSQL

namespace KVStore

/-- With room for two keys, the third key evicts the first one to the table, whence it is read. -/
theorem sql_refines_map_evict :
    let B := KVSQL sqlServer
    let s := ((((empty ∅ : KVStore Text (Table Text)).set B 2 ['a'] ⟨['7'], 1, false⟩).set B 2 ['b']
      ⟨['8'], 2, false⟩).set B 2 ['c'] ⟨['9'], 3, false⟩).remove B 2 ['b']
    (s.get B 2 ['a'] false).1 = some ⟨['7'], 1, false⟩ ∧
      ∃ s', s.saveAll B = some s' ∧ KVSQL.load s'.db ['b'] = none ∧
        KVSQL.load s'.db ['c'] = some ⟨['9'], 3, false⟩ := by
  intro B s
  have hnew (s : KVStore Text (Table Text)) {op : Op Text} (h : ∀ key, op ≠ .get key true) :
      NotNewer B s op := notNewer_of_ne h
  have h₁ : (system B 2).Run (Fits sqlServer 2) (empty ∅) [] (empty ∅) := .nil
  have h₂ := h₁.snoc (a := .set ['a'] ⟨['7'], 1, false⟩)
    ⟨hnew _ nofun, fun _ hfull => absurd hfull (by decide)⟩ rfl
  have h₃ := h₂.snoc (a := .set ['b'] ⟨['8'], 2, false⟩)
    ⟨hnew _ nofun, fun _ hfull => absurd hfull (by decide)⟩ rfl
  have h₄ := h₃.snoc (a := .set ['c'] ⟨['9'], 3, false⟩) ⟨hnew _ nofun, fun _ _ key v hv => by
    obtain ⟨rfl, rfl⟩ : key = ['a'] ∧ v = ⟨['7'], 1, false⟩ :=
      Prod.mk.inj (Option.some.inj hv).symm
    exact fun _ => by decide +kernel⟩ rfl
  have hr := h₄.snoc (a := .remove ['b']) ⟨hnew _ nofun, fun h => absurd h (by decide)⟩ rfl
  obtain ⟨hget, s', hs', hload⟩ := sql_refines_map sqlServer 2 (by decide) ∅ _ s hr
  have hsaved := hload (KVSQL.savesRows_of_fits (by decide +kernel))
  exact ⟨(hget ['a'] false nofun).trans (by decide), s', hs', (hsaved ['b']).trans (by decide),
    (hsaved ['c']).trans (by decide)⟩

/-- Nine mebibytes. -/
def longValue : Text := replicate (9 * 2 ^ 20) 'x'

theorem quote_longValue : KVSQL.quote longValue = '\'' :: longValue ++ ['\''] := by
  have hflat (n : ℕ) : (replicate n 'x').flatMap KVSQL.escapeChar = replicate n 'x' := by
    induction n with
    | zero => rfl
    | succ n ih => rw [replicate_succ, flatMap_cons, ih]; rfl
  rw [KVSQL.quote, longValue, hflat]

/-- A row without a parenthesis has no place to cut it. -/
theorem rfind_join_singleton {t : Text} (ht : ')' ∉ t) (pos : ℕ) :
    Text.rfind separator (join [t]) pos = none := by
  rw [Option.eq_none_iff_forall_ne_some]
  intro i hi
  obtain ⟨u, v, huv, -⟩ := (Text.rfind_eq_some_iff.1 hi).1.exists_eq
  have hlast : '(' :: t = u ++ ')' :: (',' :: '(' :: v).dropLast := by
    have hdrop := congrArg dropLast huv
    rwa [join, dropLast_concat, append_assoc, dropLast_append_of_ne_nil (by simp [separator]),
      separator, cons_append, dropLast_cons_of_ne_nil (by simp)] at hdrop
  have hmem : ')' ∈ '(' :: t := by simp [hlast]
  exact ht ((mem_cons.1 hmem).resolve_left (by decide))

/-- Nothing is sent before the first row is in the insert. -/
theorem addRow_first (S : KVSQL.Server Text) (t : Table Text) (r : Key × Row Text) :
    (KVSQL.addRow S (dbUpdate, t) r).2.2 = t := by
  have hadd := Buffered.addRow_eq (collected_dbUpdate S t) S.maxPacketSize (S.text r)
  have hearly : sentEarly baseQuery dbUpdate.upsertQuery S.maxPacketSize [] (S.text r) =
      (true, []) := by
    rw [sentEarly]
    split_ifs
    · exact sendBatches_nil
    · rfl
  rw [map_nil, hearly, if_pos rfl] at hadd
  rw [KVSQL.addRow, hadd]
  rfl

theorem text_longValue :
    ')' ∉ sqlServer.text (['a'], ⟨longValue, 1⟩) ∧
      longValue.length ≤ (sqlServer.text (['a'], ⟨longValue, 1⟩)).length := by
  have htext : sqlServer.text (['a'], ⟨longValue, 1⟩) =
      ['\'', 'a', '\'', ',', ' ', '1', ',', ' ', '\''] ++ longValue ++ ['\''] := by
    rw [Server.text, formatRow, show sqlServer.serialize longValue = longValue from rfl,
      show sqlServer.escapeString = quote from rfl, quote_longValue]
    rfl
  rw [htext]
  refine ⟨fun hmem => ?_, by simp only [length_append]; omega⟩
  rcases mem_append.1 hmem with hmem | hmem
  · rcases mem_append.1 hmem with hmem | hmem
    · exact absurd hmem (by decide)
    · exact absurd (eq_of_mem_replicate hmem) (by decide)
  · exact absurd hmem (by decide)

/-- No query has room for a row that is too long and has no place to cut it: none is sent. -/
theorem save_of_long {S : KVSQL.Server Text} {key : Key} {data : Text} {timestamp : ℕ}
    (hparen : ')' ∉ S.text (key, ⟨data, timestamp⟩))
    (hlong : room < (S.text (key, ⟨data, timestamp⟩)).length) (t : Table Text) :
    (KVSQL S).save t key ⟨data, timestamp, false⟩ = (false, t) := by
  have hcollected : Collected S [(key, ⟨data, timestamp⟩)]
      (KVSQL.addRow S (dbUpdate, t) (key, ⟨data, timestamp⟩)).2 :=
    (addRow_spec (collected_dbUpdate S t) fun _ => .fits (Nat.zero_le _)).1
  have hcut : cutPos baseQuery dbUpdate.upsertQuery (join [S.text (key, ⟨data, timestamp⟩)]) =
      none := by
    have hjoin : room < (join [S.text (key, ⟨data, timestamp⟩)]).length := by
      rw [join, length_append, length_cons]
      omega
    rw [room] at hjoin
    rw [cutPos, if_pos hjoin, rfind_join_singleton hparen, Option.map_none]
  have hsave : (KVSQL S).save t key ⟨data, timestamp, false⟩ =
      execute S (KVSQL.addRow S (dbUpdate, t) (key, ⟨data, timestamp⟩)).2 := rfl
  rw [hsave, KVSQL.execute, Buffered.execute_eq hcollected, map_singleton,
    sendBatches_of_cutPos_eq_none (by simp [join]) hcut, addRow_first]
  rfl

theorem save_longValue (t : Table Text) :
    (KVSQL sqlServer).save t ['a'] ⟨longValue, 1, false⟩ = (false, t) := by
  obtain ⟨hparen, hlength⟩ := text_longValue
  have hroom : room < longValue.length := by
    rw [longValue, length_replicate]
    decide +kernel
  exact save_of_long hparen (hroom.trans_le hlength) t

/-- What a value that is not saved leaves behind. -/
theorem get_of_not_saved {B : Backend Text (Table Text)} {v : ValueWrapper Text}
    (hsave : B.save ∅ ['a'] v = (false, ∅)) (w : ValueWrapper Text) :
    let s := ((empty ∅ : KVStore Text (Table Text)).set B 1 ['a'] v).set B 1 ['b'] w
    (system B 1).Reachable s ∧ (s.get B 1 ['a'] false).1 = B.load ∅ ['a'] := by
  intro s
  refine ⟨.step (.step (.init ⟨∅, rfl⟩) (a := .set ['a'] v) trivial rfl)
    (a := .set ['b'] w) trivial rfl, ?_⟩
  have hdb : s.db = (B.save ∅ ['a'] v).2 := rfl
  have hmem : ['a'] ∉ s.store := AList.lookup_eq_none.1 rfl
  have hop : NotNewer B s (.get ['a'] false) := notNewer_of_ne nofun
  rw [get_eq_live 1 hop, live_of_not_mem hmem, hdb, hsave]

/-- With room for one key, the second key evicts the first one, whose value is lost. -/
theorem evict_loses :
    let B := KVSQL sqlServer
    let s := ((empty ∅ : KVStore Text (Table Text)).set B 1 ['a'] ⟨longValue, 1, false⟩).set B 1
      ['b'] ⟨['8'], 2, false⟩
    (system B 1).Reachable s ∧ (s.get B 1 ['a'] false).1 = none ∧
      Spec.run (KVSQL.load ∅) [.set ['a'] ⟨longValue, 1, false⟩, .set ['b'] ⟨['8'], 2, false⟩]
        ['a'] = some ⟨longValue, 1, false⟩ := by
  intro B s
  obtain ⟨hreach, hget⟩ := get_of_not_saved (save_longValue ∅) ⟨['8'], 2, false⟩
  exact ⟨hreach, hget, rfl⟩

end KVStore

end Canary.KV
