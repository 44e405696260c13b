import Canary.KV.Invariant

/-!
# The store refines a plain map

To its callers the store is a map from keys to live values. Of a concrete store
this map is read off in two steps (`KVStore.live`): the entry of the key in
memory if there is one, a tombstone standing for no value, and what the subclass
loads otherwise.

A subclass is `Exact` if it loads what was last saved, of the values that it does
save. Over an exact subclass every call that saves no others (`Saving`) takes the
map where its specification (`Spec.apply`) does: an eviction and a reload move a
value between memory and subclass, and `live` does not see it. What is evicted and
not saved is lost, as nobody asks whether it was. Loading by force is the one call
that may prefer an old value; it is left out where the entry in memory is newer
(`NotNewer`).
-/

namespace Canary.KV

variable {δ β : Type}

/-- What a value says about its key: a tombstone says that there is no value. -/
def ValueWrapper.live (v : ValueWrapper δ) : Option (ValueWrapper δ) :=
  if v.isDeleted then none else some v

/-- What a subclass saves: a value under a key, and all entries of a map. -/
structure Saves (δ : Type) where
  one : Key → ValueWrapper δ → Prop
  all : Store δ → Prop

/-- A subclass that loads exactly what was last saved, one key or all entries of a map, where it
saves them. -/
structure Backend.Exact (B : Backend δ β) (W : Saves δ) : Prop where
  load_live : ∀ db key v, B.load db key = some v → v.isDeleted = false
  load_save : ∀ db key v, W.one key v → ∀ key',
    B.load (B.save db key v).2 key' = if key' = key then v.live else B.load db key'
  load_saveAll : ∀ locked store db r, B.saveAll locked store db = some r → W.all store → ∀ key,
    B.load r.2 key = ((store.lookup key).map fun e => e.value.live).getD (B.load db key)

/-! ## The specification -/

/-- The abstract state: the live value of every key. -/
abbrev Spec (δ : Type) := Key → Option (ValueWrapper δ)

namespace Spec

/-- What a call does to the abstract state: only `set` and `remove` change it. -/
def apply (m : Spec δ) : Op δ → Spec δ
  | .set key v => fun k => if k = key then v.live else m k
  | .remove key => fun k => if k = key then none else m k
  | .get _ _ | .keys _ | .saveAll | .flush => m

/-- What a sequence of calls does to the abstract state. -/
def run (m : Spec δ) (ops : List (Op δ)) : Spec δ := ops.foldl apply m

theorem run_snoc (m : Spec δ) (ops : List (Op δ)) (op : Op δ) :
    m.run (ops ++ [op]) = (m.run ops).apply op := by
  simp [run]

end Spec

namespace KVStore

variable {B : Backend δ β} {W : Saves δ} {maxSize : ℕ} {s : KVStore δ β}

/-- The abstract state of a store. -/
def live (B : Backend δ β) (s : KVStore δ β) : Spec δ := fun key =>
  ((s.store.lookup key).map fun e => e.value.live).getD (B.load s.db key)

/-- A call does not load by force a key whose entry in memory is newer than what is saved. -/
def NotNewer (B : Backend δ β) (s : KVStore δ β) (op : Op δ) : Prop :=
  ∀ key, op = .get key true → ∀ e, s.store.lookup key = some e → B.load s.db key = e.value.live

theorem notNewer_of_ne {op : Op δ} (h : ∀ key, op ≠ .get key true) : NotNewer B s op :=
  fun key he => absurd he (h key)

theorem live_of_lookup {key : Key} {e : Entry δ} (he : s.store.lookup key = some e) :
    s.live B key = e.value.live := by
  simp [live, he]

theorem live_of_not_mem {key : Key} (hk : key ∉ s.store) : s.live B key = B.load s.db key := by
  simp [live, AList.lookup_eq_none.2 hk]

/-- The abstract state only reads the map and the subclass. -/
theorem live_congr {s' : KVStore δ β} (hs : s'.store = s.store) (hdb : s'.db = s.db) :
    s'.live B = s.live B := by
  unfold live
  rw [hs, hdb]

theorem live_touch (e : Entry δ) : (s.touch e).live B = s.live B := live_congr rfl rfl

theorem live_demote (e : Entry δ) : (s.demote e).live B = s.live B := live_congr rfl rfl

theorem live_insert (key : Key) (e : Entry δ) (q : List (LinkedList.Node Key)) (n : ℕ) (k : Key) :
    live B ⟨s.store.insert key e, q, n, s.db⟩ k = if k = key then e.value.live else s.live B k := by
  rw [live]
  split_ifs with hk
  · subst hk
    simp
  · rw [AList.lookup_insert_ne hk, live]

theorem live_pushFront (key : Key) (value : ValueWrapper δ) (k : Key) :
    (s.pushFront key value).live B k = if k = key then value.live else s.live B k :=
  live_insert key ⟨value, some s.nextAddr⟩ _ _ k

variable [Inhabited δ]

/-- What is evicted, if the map is full, is saved. -/
def SavesVictim (W : Saves δ) (maxSize : ℕ) (s : KVStore δ β) : Prop :=
  maxSize ≤ s.size → ∀ key v, s.victim = some (key, v) → W.one key v

/-- A call that puts a key into the map saves what it evicts for that, and saving everything does
save it. -/
def Saving (B : Backend δ β) (W : Saves δ) (maxSize : ℕ) (s : KVStore δ β) : Op δ → Prop
  | .set key _ | .remove key => s.store.lookup key = none → s.SavesVictim W maxSize
  | .get key _ => s.store.lookup key = none → (B.load s.db key).isSome → s.SavesVictim W maxSize
  | .saveAll => W.all s.store
  | .keys _ | .flush => True

/-- An eviction moves a value from memory to the subclass. -/
theorem live_evict (hB : B.Exact W) (h : Inv s)
    (hsaves : ∀ key v, s.victim = some (key, v) → W.one key v) :
    (s.evict B).live B = s.live B := by
  rw [evict]
  split
  next key value hv =>
    obtain ⟨it, hlook⟩ := (h.evictsOwn (B := B)).saves key value hv
    funext k
    by_cases hk : k = key
    · subst hk
      rw [live_of_not_mem (by simp), live_of_lookup hlook, hB.load_save _ _ _ (hsaves k value hv),
        if_pos rfl]
    · simp only [live, AList.lookup_erase_ne hk, hB.load_save _ _ _ (hsaves key value hv),
        if_neg hk]
  next => rfl

theorem live_setLocked (hB : B.Exact W) (h : Inv s) {key : Key}
    (hsaves : s.store.lookup key = none → s.SavesVictim W maxSize) (value : ValueWrapper δ)
    (k : Key) : (s.setLocked B maxSize key value).live B k =
      if k = key then value.live else s.live B k := by
  rw [setLocked]
  split
  next e he =>
    exact (congrFun (live_touch e) k).trans (live_insert key _ _ _ k)
  next hnone =>
    have hev : (if maxSize ≤ s.size then s.evict B else s).live B = s.live B := by
      split_ifs with hfull
      · exact live_evict hB h (hsaves hnone hfull)
      · rfl
    rw [live_pushFront, hev]

/-- `get` answers by the abstract state. -/
theorem get_eq_live (maxSize : ℕ) {key : Key} {forceLoad : Bool}
    (hop : NotNewer B s (.get key forceLoad)) :
    (s.get B maxSize key forceLoad).1 = s.live B key := by
  have hload : B.load s.db key = s.live B key ∨ ∃ e, forceLoad = false ∧
      s.store.lookup key = some e := by
    cases he : s.store.lookup key with
    | none => exact .inl (live_of_not_mem (AList.lookup_eq_none.1 he)).symm
    | some e =>
      cases forceLoad with
      | false => exact .inr ⟨e, rfl, rfl⟩
      | true => exact .inl ((hop key rfl e he).trans (live_of_lookup he).symm)
  rw [get]
  split
  next e he =>
    cases forceLoad with
    | true => simp at he
    | false =>
      rw [live_of_lookup (by simpa using he), ValueWrapper.live]
      split_ifs <;> rfl
  next hnone =>
    rcases hload with hload | ⟨e, rfl, he⟩
    · rw [← hload]
      cases B.load s.db key <;> rfl
    · simp [he] at hnone

/-- `get` leaves the abstract state alone. -/
theorem live_get (hB : B.Exact W) (h : Inv s) {key : Key} {forceLoad : Bool}
    (hop : NotNewer B s (.get key forceLoad))
    (hsaves : s.Saving B W maxSize (.get key forceLoad)) :
    (s.get B maxSize key forceLoad).2.live B = s.live B := by
  have hans := get_eq_live maxSize hop
  unfold get at hans ⊢
  split at hans
  next e he =>
    split_ifs
    · exact live_demote e
    · exact live_touch e
  next =>
    split at hans
    next value hv =>
      -- The value loaded is live, and it is the one the key already stood for.
      have hvalue : value.live = s.live B key := by
        rw [← hans, ValueWrapper.live, hB.load_live _ _ _ hv]
        rfl
      funext k
      rw [live_setLocked hB h fun hnone => hsaves hnone (by rw [hv]; rfl)]
      split_ifs with hk
      · rw [hvalue, hk]
      · rfl
    next => rfl

omit [Inhabited δ] in
theorem live_saveAll (hB : B.Exact W) {locked : Bool} {r : Bool × β}
    (hr : B.saveAll locked s.store s.db = some r) (hsaves : W.all s.store) :
    { s with db := r.2 }.live B = s.live B := by
  funext key
  simp only [live, hB.load_saveAll _ _ _ _ hr hsaves]
  cases s.store.lookup key <;> rfl

omit [Inhabited δ] in
/-- After everything is saved, the subclass holds the abstract state. -/
theorem load_saveAll (hB : B.Exact W) {s' : KVStore δ β} (hs : s.saveAll B = some s')
    (hsaves : W.all s.store) :
    B.load s'.db = s.live B := by
  obtain ⟨r, hr, rfl⟩ := Option.map_eq_some_iff.1 hs
  funext key
  exact hB.load_saveAll _ _ _ _ hr hsaves key

/-- Every call but `flush` follows its specification. -/
theorem live_step (hB : B.Exact W) (h : Inv s) {s' : KVStore δ β} {op : Op δ} (hne : op ≠ .flush)
    (hop : NotNewer B s op) (hsaves : s.Saving B W maxSize op)
    (hst : s.step B maxSize op = some s') :
    s'.live B = (s.live B).apply op := by
  cases op with
  | set key value =>
    obtain rfl := Option.some.inj hst
    exact funext (live_setLocked hB h hsaves value)
  | get key forceLoad =>
    obtain rfl := Option.some.inj hst
    exact live_get hB h hop hsaves
  | remove key =>
    obtain rfl := Option.some.inj hst
    exact funext (live_setLocked hB h hsaves .tombstone)
  | keys pre =>
    obtain ⟨_, _, rfl⟩ := Option.map_eq_some_iff.1 hst
    rfl
  | saveAll =>
    obtain ⟨r, hr, rfl⟩ := Option.map_eq_some_iff.1 hst
    exact live_saveAll hB hr hsaves
  | flush => exact absurd rfl hne

end KVStore

end Canary.KV
