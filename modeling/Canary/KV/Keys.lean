import Canary.KV.Sql

/-!
# Listing keys

`keys` lists the suffixes of the keys with a given prefix. It merges two scans: of
the keys in memory, and of the rows of the table that match the prefix as a pattern.
It is meant to list what `get` has a value for (`KeysAgree`). A key in memory is
listed as long as its tombstone is there; and a search for the empty prefix, to be cut
out of a key, goes on for ever.

The row of a key is listed as its suffix if it is `Straight`: it matches, and the
prefix stands at its front and nowhere else. The other rows are why the table is
listed wrong:

* a wildcard in the prefix matches rows without the prefix, and a backslash at its
  end hides rows with the prefix;
* further occurrences of the prefix in a key are cut out too.

What is made of them is right only if it happens to be the suffix of a key with a
value, and if each such row that is in the table only is made up for by another
(`Enumerable`). If the prefix is plain, and in no key of the table twice, there are
none (`enumerable_of_plain`).

A `ScopedKV` is a view of the store through a prefix, its scope.
-/

namespace Canary.KV

open List KVSQL

variable {δ : Type} {S : Server δ} {maxSize : ℕ} {s : KVStore δ (Table δ)} {pre : Key}

/-- `keys` returns, and lists the suffixes of the keys that `get` has a value for. -/
def KeysAgree [Inhabited δ] (S : Server δ) (maxSize : ℕ) (s : KVStore δ (Table δ)) (pre : Key) :
    Prop :=
  ∃ ks, s.keys (KVSQL S) pre = some ks ∧
    ∀ x, x ∈ ks ↔ (s.get (KVSQL S) maxSize (pre ++ x) false).1.isSome

/-- A key has a value: a live one in memory, or else a row of the table. -/
def HasValue (s : KVStore δ (Table δ)) (key : Key) : Prop :=
  match s.store.lookup key with
  | some e => e.value.isDeleted = false
  | none => key ∈ s.db

/-- A key matches the prefix as a pattern. -/
def Matches (pre key : Key) : Prop := Text.like (pre ++ ['%']) key = true

/-- A key that matches, starts with the prefix, and has it nowhere behind. -/
def Straight (pre key : Key) : Prop := Matches pre key ∧ ∃ x, key = pre ++ x ∧ Text.Absent pre x

/-- The states and prefixes for which the keys are listed as they should be. -/
structure Enumerable (s : KVStore δ (Table δ)) (pre : Key) : Prop where
  /-- The empty prefix is not searched for in a key. -/
  ends : pre = [] → ∀ key ∈ s.db, key = []
  /-- No key with the prefix is a tombstone in memory. -/
  noTombstone : ∀ key e, pre <+: key → s.store.lookup key = some e → e.value.isDeleted = false
  /-- A row that is not straight and matches leaves, with the prefix cut out of it, by chance the
  suffix of a key with a value. -/
  sound : ∀ key ∈ s.db, ¬Straight pre key → Matches pre key → ∀ x, Text.CutOut pre key x →
    HasValue s (pre ++ x)
  /-- For a row that is not straight, and whose key is not in memory, another row leaves by chance
  the suffix. -/
  complete : ∀ x, pre ++ x ∈ s.db → pre ++ x ∉ s.store → ¬Straight pre (pre ++ x) →
    ∃ key ∈ s.db, Matches pre key ∧ Text.CutOut pre key x

/-! ## The two scans -/

theorem mem_of_mapM {α γ : Type} {f : α → Option γ} {l : List α} {ys : List γ}
    (h : l.mapM f = some ys) (y : γ) : y ∈ ys ↔ ∃ x ∈ l, f x = some y := by
  induction l generalizing ys with
  | nil =>
    obtain rfl : [] = ys := by simpa using h
    simp
  | cons x l ih =>
    simp only [mapM_cons, Option.bind_eq_bind, Option.bind_eq_some_iff, Option.pure_def,
      Option.some.injEq] at h
    obtain ⟨z, hz, zs, hzs, rfl⟩ := h
    simp [ih hzs, hz, eq_comm]

theorem mapM_isSome {α γ : Type} {f : α → Option γ} {l : List α} :
    (l.mapM f).isSome ↔ ∀ x ∈ l, (f x).isSome := by
  induction l with
  | nil => simp
  | cons x l ih =>
    rw [forall_mem_cons, ← ih, mapM_cons]
    cases f x <;> cases l.mapM f <;> simp

/-- The search for the prefix ends in every row, unless there is nothing to search for. -/
theorem loadPrefix_isSome {t : Table δ} :
    (KVSQL.loadPrefix t pre).isSome ↔ (pre = [] → ∀ key ∈ t, key = []) := by
  rw [KVSQL.loadPrefix, mapM_isSome]
  constructor
  · rintro h rfl key hkey
    by_contra hne
    have := h key (mem_filter.2 ⟨AList.mem_keys.1 hkey, by simp⟩)
    rw [Text.replace_nil_eq_none hne] at this
    exact absurd this (by simp)
  · intro h key hkey
    by_cases hpre : pre = []
    · obtain rfl := h hpre key (AList.mem_keys.2 (mem_filter.1 hkey).1)
      rfl
    · exact Text.replace_isSome hpre key []

theorem mem_loadPrefix {t : Table δ} {loaded : List Key} (h : KVSQL.loadPrefix t pre = some loaded)
    (x : Key) : x ∈ loaded ↔ ∃ key ∈ t, Matches pre key ∧ Text.CutOut pre key x := by
  rw [mem_of_mapM h]
  simp only [mem_filter, Matches, ← AList.mem_keys, and_assoc, Text.replace_eq_some_iff]

/-- The suffixes of the keys in memory. -/
theorem mem_map_drop (l : List Key) (x : Key) :
    x ∈ (l.filter fun key => pre.isPrefixOf key).map (fun key => key.drop pre.length) ↔
      pre ++ x ∈ l := by
  simp only [mem_map, mem_filter, isPrefixOf_iff_prefix]
  constructor
  · rintro ⟨_, ⟨hmem, y, rfl⟩, rfl⟩
    simpa using hmem
  · exact fun hmem => ⟨pre ++ x, ⟨hmem, prefix_append _ _⟩, by simp⟩

theorem mem_keys {ks : Finset Key} (h : s.keys (KVSQL S) pre = some ks) (x : Key) :
    x ∈ ks ↔ pre ++ x ∈ s.store ∨ ∃ key ∈ s.db, Matches pre key ∧ Text.CutOut pre key x := by
  obtain ⟨loaded, hloaded, rfl⟩ := Option.map_eq_some_iff.1 h
  rw [mem_toFinset, mem_append, mem_map_drop, AList.mem_keys, mem_loadPrefix hloaded]

theorem hasValue_of_not_mem {key : Key} (h : key ∉ s.store) : HasValue s key ↔ key ∈ s.db := by
  rw [HasValue, AList.lookup_eq_none.2 h]

theorem hasValue_of_lookup {key : Key} {e : Entry δ} (h : s.store.lookup key = some e) :
    HasValue s key ↔ e.value.isDeleted = false := by
  rw [HasValue, h]

/-- A row with the prefix whose key is no tombstone in memory is of a key with a value. -/
theorem hasValue_of_mem {x : Key}
    (htomb : ∀ key e, pre <+: key → s.store.lookup key = some e → e.value.isDeleted = false)
    (hx : pre ++ x ∈ s.db) : HasValue s (pre ++ x) := by
  by_cases hmem : pre ++ x ∈ s.store
  · obtain ⟨e, he⟩ := Option.isSome_iff_exists.1 (AList.lookup_isSome.2 hmem)
    exact (hasValue_of_lookup he).2 (htomb _ e (prefix_append _ _) he)
  · exact (hasValue_of_not_mem hmem).2 hx

/-- What is left of a key that starts with the prefix, and has it nowhere behind, is its suffix. -/
theorem cutOut_append_iff {x y : Key} (hx : Text.Absent pre x) :
    Text.CutOut pre (pre ++ x) y ↔ y = x := by
  rcases eq_or_ne pre [] with rfl | hpre
  · obtain rfl : x = [] := hx.resolve_right (not_not.2 nil_infix)
    refine ⟨fun h => h.nil.2, ?_⟩
    rintro rfl
    exact .absent (.inl rfl)
  · have hfirst := Text.cutOut_first (u := []) (v := x) (x := y) hpre
      fun j hj => absurd hj (Nat.not_lt_zero j)
    rw [nil_append] at hfirst
    rw [hfirst]
    constructor
    · rintro ⟨z, hz, rfl⟩
      rcases hx with rfl | hx
      · exact (Text.cutOut_of_absent (by simpa using hpre)).1 hz
      · exact (Text.cutOut_of_absent hx).1 hz
    · rintro rfl
      exact ⟨y, .absent hx, rfl⟩

/-- A prefix that is not empty, has no wildcard and no backslash, and does not occur a
    second time in a key of the table, lists what it should unless a tombstone of a key
    with the prefix is in memory. -/
theorem enumerable_of_plain (hpre : pre ≠ []) (hplain : Text.Plain pre)
    (honce : ∀ x, pre ++ x ∈ s.db → ¬pre <:+: x)
    (htomb : ∀ key e, pre <+: key → s.store.lookup key = some e → e.value.isDeleted = false) :
    Enumerable s pre := by
  have hstraight : ∀ x, pre ++ x ∈ s.db → Straight pre (pre ++ x) := fun x hx =>
    ⟨(Text.like_plain_append hplain _).2 (prefix_append _ _), x, rfl, .inr (honce x hx)⟩
  refine ⟨fun h => absurd h hpre, htomb, fun key hkey hodd hmatch => ?_,
    fun x hx _ hodd => absurd (hstraight x hx) hodd⟩
  obtain ⟨y, rfl⟩ : pre <+: key := (Text.like_plain_append hplain key).1 hmatch
  exact absurd (hstraight y hkey) hodd

/-! ## The listing -/

variable [Inhabited δ]

theorem get_isSome (S : Server δ) (maxSize : ℕ) (s : KVStore δ (Table δ))
    (key : Key) : (s.get (KVSQL S) maxSize key false).1.isSome ↔ HasValue s key := by
  have hop : KVStore.NotNewer (KVSQL S) s (.get key false) := KVStore.notNewer_of_ne nofun
  rw [KVStore.get_eq_live maxSize hop, HasValue, KVStore.live]
  cases s.store.lookup key with
  | none => simp [KVSQL, KVSQL.load, AList.lookup_isSome]
  | some e => cases h : e.value.isDeleted <;> simp [ValueWrapper.live, h]

theorem Enumerable.keysAgree (h : Enumerable s pre) : KeysAgree S maxSize s pre := by
  obtain ⟨loaded, hloaded⟩ := Option.isSome_iff_exists.1 (loadPrefix_isSome.2 h.ends)
  obtain ⟨ks, hks⟩ : ∃ ks, s.keys (KVSQL S) pre = some ks :=
    ⟨_, Option.map_eq_some_iff.2 ⟨loaded, hloaded, rfl⟩⟩
  refine ⟨ks, hks, fun x => ?_⟩
  rw [mem_keys hks, get_isSome]
  constructor
  · rintro (hmem | ⟨key, hkey, hmatch, hx⟩)
    · obtain ⟨e, he⟩ := Option.isSome_iff_exists.1 (AList.lookup_isSome.2 hmem)
      exact (hasValue_of_lookup he).2 (h.noTombstone _ e (prefix_append _ _) he)
    · by_cases hstraight : Straight pre key
      · obtain ⟨-, y, rfl, hy⟩ := hstraight
        obtain rfl := (cutOut_append_iff hy).1 hx
        exact hasValue_of_mem h.noTombstone hkey
      · exact h.sound key hkey hstraight hmatch x hx
  · intro hx
    by_cases hmem : pre ++ x ∈ s.store
    · exact .inl hmem
    · have hrow := (hasValue_of_not_mem hmem).1 hx
      by_cases hstraight : Straight pre (pre ++ x)
      · obtain ⟨hmatch, y, hxy, hy⟩ := hstraight
        obtain rfl := append_cancel_left hxy
        exact .inr ⟨_, hrow, hmatch, (cutOut_append_iff hy).2 rfl⟩
      · exact .inr (h.complete x hrow hmem hstraight)

theorem KeysAgree.enumerable (h : KeysAgree S maxSize s pre) : Enumerable s pre := by
  obtain ⟨ks, hks, h⟩ := h
  have h' : ∀ x, (pre ++ x ∈ s.store ∨ ∃ key ∈ s.db, Matches pre key ∧ Text.CutOut pre key x) ↔
      HasValue s (pre ++ x) := fun x => by
    rw [← mem_keys hks, h, get_isSome]
  refine ⟨?_, ?_, fun key hkey _ hmatch x hx => (h' x).1 (.inr ⟨key, hkey, hmatch, hx⟩),
    fun x hx hmem _ => ?_⟩
  · obtain ⟨loaded, hloaded, -⟩ := Option.map_eq_some_iff.1 hks
    exact loadPrefix_isSome.1 (Option.isSome_iff_exists.2 ⟨loaded, hloaded⟩)
  · rintro _ e ⟨x, rfl⟩ he
    exact (hasValue_of_lookup he).1 ((h' x).1 (.inl (AList.lookup_isSome.1 (by simp [he]))))
  · exact ((h' x).2 ((hasValue_of_not_mem hmem).2 hx)).resolve_left hmem

/-- In every state, for every prefix, `keys` lists what it should exactly if the state
    and the prefix are `Enumerable`. -/
theorem keysAgree_iff (S : Server δ) (maxSize : ℕ) (s : KVStore δ (Table δ))
    (pre : Key) : KeysAgree S maxSize s pre ↔ Enumerable s pre :=
  ⟨KeysAgree.enumerable, Enumerable.keysAgree⟩

/-- A key set and removed is still listed. -/
theorem not_keysAgree_removed :
    ¬∀ s, (KVStore.system (KVSQL sqlServer) 2).Reachable s → ∀ pre,
      KeysAgree sqlServer 2 s pre := by
  intro hall
  have hr : (KVStore.system (KVSQL sqlServer) 2).Reachable
      (((KVStore.empty ∅).set (KVSQL sqlServer) 2 ['a'] ⟨['7'], 1, false⟩).remove
        (KVSQL sqlServer) 2 ['a']) :=
    .step (.step (.init ⟨∅, rfl⟩) (a := .set ['a'] ⟨['7'], 1, false⟩) trivial rfl)
      (a := .remove ['a']) trivial rfl
  have htomb := (hall _ hr []).enumerable.noTombstone ['a'] ⟨.tombstone, some 0⟩ nil_prefix rfl
  exact absurd htomb (by decide)

/-! ## Scopes -/

/-- A view of the store through a prefix. -/
structure ScopedKV where
  prefix_ : Key

namespace ScopedKV

def buildKey (scope : ScopedKV) (key : Key) : Key := scope.prefix_ ++ ['.'] ++ key

/-- The view through a nested scope. -/
def scope (scope : ScopedKV) (inner : Key) : ScopedKV := ⟨scope.buildKey inner⟩

def get (scope : ScopedKV) (S : Server δ) (maxSize : ℕ)
    (s : KVStore δ (Table δ)) (key : Key) : Option (ValueWrapper δ) × KVStore δ (Table δ) :=
  s.get (KVSQL S) maxSize (scope.buildKey key) false

def keys (scope : ScopedKV) (S : Server δ) (s : KVStore δ (Table δ))
    (pre : Key) : Option (Finset Key) :=
  s.keys (KVSQL S) (scope.buildKey pre)

/-- Through any scope, nested or not, the keys listed are those `get` has a value for,
    provided that the prefix made up of the scope is enumerable. -/
theorem keys_agree (scope : ScopedKV) (pre : Key) (h : Enumerable s (scope.buildKey pre)) :
    ∃ ks, scope.keys S s pre = some ks ∧
      ∀ x, x ∈ ks ↔ (scope.get S maxSize s (pre ++ x)).1.isSome := by
  obtain ⟨ks, hks, hmem⟩ : KeysAgree S maxSize s (scope.buildKey pre) := h.keysAgree
  refine ⟨ks, hks, fun x => ?_⟩
  rw [hmem x, get, buildKey, buildKey, append_assoc]

end ScopedKV

end Canary.KV
