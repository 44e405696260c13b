import Canary.KV.Store

/-!
# The map and the list agree

In a `Coherent` store the list holds exactly the keys of the map, each once, the
iterator of every entry designates the node of its own key, and the map is within
its capacity. Then an eviction saves an entry of the map, with its current value,
and removes it (`EvictsOwn`).

Every call keeps a store coherent, with one exception: `flush` clears the map but
not the list, so that the keys of the list are left without an entry, unless the
map was empty (`coherent_of_reachable`).
-/

namespace Canary.KV.KVStore

open LinkedList List

variable {δ β : Type} {B : Backend δ β} {maxSize : ℕ}

/-- The list holds exactly the keys of the map, each once, at the node the entry
    of the key designates; and the map is within its capacity. -/
structure Coherent (maxSize : ℕ) (s : KVStore δ β) : Prop where
  nodup : (vals s.lruQueue).Nodup
  mem_iff : ∀ key, key ∈ vals s.lruQueue ↔ key ∈ s.store
  iterator : ∀ key e, s.store.lookup key = some e →
    ∃ a, e.lruIt = some a ∧ find s.lruQueue a = some ⟨a, key⟩
  size_le : s.size ≤ maxSize

/-- An eviction finds an entry unless the map is empty; it saves the entry with its
    current value, and removes it. -/
structure EvictsOwn [Inhabited δ] (B : Backend δ β) (s : KVStore δ β) : Prop where
  exists_victim : s.store ≠ ∅ → s.victim.isSome
  saves : ∀ key value, s.victim = some (key, value) →
    ∃ it, s.store.lookup key = some ⟨value, it⟩
  removes : ∀ key value, s.victim = some (key, value) → key ∉ (s.evict B).store

/-- The condition under which a call keeps the store coherent: a flush finds the map empty. -/
def FlushesEmpty (s : KVStore δ β) (op : Op δ) : Prop := op = .flush → s.store = ∅

/-! ## The invariant -/

/-- The invariant of the list and of the map, but for the capacity: every entry has
    its node, the nodes have distinct addresses below the next one. -/
structure Inv (s : KVStore δ β) : Prop where
  nodup : (vals s.lruQueue).Nodup
  mem_iff : ∀ key, key ∈ vals s.lruQueue ↔ key ∈ s.store
  node : ∀ key e, s.store.lookup key = some e → ∃ a, e.lruIt = some a ∧ ⟨a, key⟩ ∈ s.lruQueue
  addrs_nodup : (addrs s.lruQueue).Nodup
  addrs_lt : ∀ a ∈ addrs s.lruQueue, a < s.nextAddr

theorem Inv.coherent {s : KVStore δ β} (h : Inv s) (hle : s.size ≤ maxSize) :
    Coherent maxSize s where
  nodup := h.nodup
  mem_iff := h.mem_iff
  iterator key e he := by
    obtain ⟨a, ha, hmem⟩ := h.node key e he
    exact ⟨a, ha, find_of_mem h.addrs_nodup hmem⟩
  size_le := hle

/-- The map has as many entries as the list has nodes. -/
theorem Inv.size_eq {s : KVStore δ β} (h : Inv s) : s.size = s.lruQueue.length := by
  have hp : vals s.lruQueue ~ s.store.keys :=
    (perm_ext_iff_of_nodup h.nodup s.store.keys_nodup).2 h.mem_iff
  rw [size, ← hp.length_eq, vals, length_map]

theorem inv_empty (db : β) : Inv (empty db : KVStore δ β) where
  nodup := nodup_nil
  mem_iff key := by simp [empty, vals]
  node key e he := by simp [empty] at he
  addrs_nodup := nodup_nil
  addrs_lt a ha := by simp [empty, addrs] at ha

/-- Permuting the list keeps the invariant. -/
theorem Inv.permute {s : KVStore δ β} (h : Inv s) {q : List (Node Key)} (hq : q ~ s.lruQueue) :
    Inv { s with lruQueue := q } where
  nodup := (hq.map Node.val).nodup_iff.2 h.nodup
  mem_iff key := ((hq.map Node.val).mem_iff).trans (h.mem_iff key)
  node key e he := by
    obtain ⟨a, ha, hmem⟩ := h.node key e he
    exact ⟨a, ha, hq.mem_iff.2 hmem⟩
  addrs_nodup := (hq.map Node.addr).nodup_iff.2 h.addrs_nodup
  addrs_lt a ha := h.addrs_lt a ((hq.map Node.addr).mem_iff.1 ha)

theorem Inv.touch {s : KVStore δ β} (h : Inv s) (e : Entry δ) : Inv (s.touch e) := by
  refine h.permute ?_
  cases e.lruIt with
  | none => exact Perm.refl _
  | some a => exact spliceFront_perm h.addrs_nodup a

theorem Inv.demote {s : KVStore δ β} (h : Inv s) (e : Entry δ) : Inv (s.demote e) := by
  refine h.permute ?_
  cases e.lruIt with
  | none => exact Perm.refl _
  | some a => exact spliceBack_perm h.addrs_nodup a

/-- Changing the value of an entry keeps the invariant. -/
theorem Inv.update {s : KVStore δ β} (h : Inv s) {key : Key} {e : Entry δ}
    (he : s.store.lookup key = some e) (value : ValueWrapper δ) :
    Inv { s with store := s.store.insert key { e with value := value } } where
  nodup := h.nodup
  mem_iff k := by
    rw [AList.mem_insert, h.mem_iff]
    refine ⟨.inr, fun hk => hk.elim (fun hk => hk ▸ ?_) id⟩
    exact AList.lookup_isSome.1 (by simp [he])
  node k e' he' := by
    by_cases hk : k = key
    · subst hk
      obtain rfl : { e with value := value } = e' := by simpa using he'
      exact h.node k e he
    · rw [AList.lookup_insert_ne hk] at he'
      exact h.node k e' he'
  addrs_nodup := h.addrs_nodup
  addrs_lt := h.addrs_lt

theorem Inv.pushFront {s : KVStore δ β} (h : Inv s) {key : Key} (hk : key ∉ s.store)
    (value : ValueWrapper δ) : Inv (s.pushFront key value) where
  nodup := nodup_cons.2 ⟨fun hmem => hk ((h.mem_iff key).1 hmem), h.nodup⟩
  mem_iff k := by
    simp only [KVStore.pushFront, vals_cons, mem_cons, AList.mem_insert, h.mem_iff]
  node k e he := by
    simp only [KVStore.pushFront] at he ⊢
    by_cases hkk : k = key
    · subst hkk
      rw [AList.lookup_insert, Option.some.injEq] at he
      exact ⟨s.nextAddr, he ▸ rfl, mem_cons_self⟩
    · rw [AList.lookup_insert_ne hkk] at he
      obtain ⟨a, ha, hmem⟩ := h.node k e he
      exact ⟨a, ha, mem_cons_of_mem _ hmem⟩
  addrs_nodup := nodup_cons.2 ⟨fun hmem => absurd (h.addrs_lt _ hmem) (lt_irrefl _), h.addrs_nodup⟩
  addrs_lt a ha := by
    simp only [KVStore.pushFront, addrs_cons, mem_cons] at ha ⊢
    rcases ha with rfl | ha
    · exact Nat.lt_succ_self _
    · exact Nat.lt_succ_of_lt (h.addrs_lt a ha)

/-- A coherent list is not empty unless the map is. -/
theorem Inv.exists_last {s : KVStore δ β} (h : Inv s) (hs : s.store ≠ ∅) :
    ∃ q n, s.lruQueue = q ++ [n] := by
  rcases eq_nil_or_concat s.lruQueue with hq | ⟨q, n, hq⟩
  · refine absurd (AList.ext ?_) hs
    have hlen : s.store.keys.length = 0 := by rw [← size, h.size_eq, hq, length_nil]
    simpa [AList.keys, List.keys] using hlen
  · exact ⟨q, n, by simpa using hq⟩

/-! ## The capacity -/

theorem size_insert_of_lookup {s : KVStore δ β} {key : Key} {e : Entry δ}
    (he : s.store.lookup key = some e) (e' : Entry δ) :
    (s.store.insert key e').keys.length = s.size := by
  have hmem : key ∈ s.store.keys := AList.mem_keys.1 (AList.lookup_isSome.1 (by simp [he]))
  rw [AList.keys_insert, size]
  exact (@perm_cons_erase _ instBEqOfDecidableEq _ _ _ hmem).length_eq.symm

theorem size_pushFront {s : KVStore δ β} {key : Key} (hk : key ∉ s.store)
    (value : ValueWrapper δ) : (s.pushFront key value).size = s.size + 1 := by
  simp [size, pushFront, AList.insert_of_notMem hk, AList.keys, List.keys]

/-- What a state reached by calls satisfies. -/
def Good (maxSize : ℕ) (s : KVStore δ β) : Prop := Inv s ∧ s.size ≤ maxSize

/-- The state of the subclass is not part of the invariant. -/
theorem Good.withDb {s : KVStore δ β} (h : Good maxSize s) (db : β) :
    Good maxSize { s with db := db } :=
  ⟨⟨h.1.nodup, h.1.mem_iff, h.1.node, h.1.addrs_nodup, h.1.addrs_lt⟩, h.2⟩

/-- A flush of a map that is not empty leaves the keys of the list without entries. -/
theorem Inv.not_coherent_flush {s s' : KVStore δ β} (h : Inv s) (hs : s.store ≠ ∅)
    (hst : s.flush B = some s') : ¬Coherent maxSize s' := by
  obtain ⟨r, _, rfl⟩ := Option.map_eq_some_iff.1 hst
  intro hc
  obtain ⟨q, n, hq⟩ := h.exists_last hs
  have hmem : n.val ∈ vals s.lruQueue := mem_vals (by simp [hq])
  exact absurd ((hc.mem_iff n.val).1 hmem) (by simp)

/-! ## Evictions -/

section Evict

variable [Inhabited δ]

theorem victim_of_last {s : KVStore δ β} {q : List (Node Key)} {n : Node Key}
    (hq : s.lruQueue = q ++ [n]) : s.victim = some (n.val, (s.entryAt n.val).value) := by
  simp [victim, hq]

theorem evict_of_last {s : KVStore δ β} {q : List (Node Key)} {n : Node Key}
    (hq : s.lruQueue = q ++ [n]) :
    s.evict B = { s with
      db := (B.save s.db n.val (s.entryAt n.val).value).2
      store := s.store.erase n.val
      lruQueue := q } := by
  simp [evict, victim_of_last hq, hq]

/-- An eviction drops the last node, and the entry of its key. -/
theorem Inv.evict {s : KVStore δ β} (h : Inv s) : Inv (s.evict B) := by
  rcases eq_nil_or_concat s.lruQueue with hq | ⟨q, n, hq⟩
  · rwa [KVStore.evict, victim, hq, getLast?_nil, Option.map_none]
  · replace hq : s.lruQueue = q ++ [n] := by simpa using hq
    rw [evict_of_last hq]
    have hvals : vals s.lruQueue = vals q ++ [n.val] := by simp [hq, vals]
    have haddrs : addrs s.lruQueue = addrs q ++ [n.addr] := by simp [hq, addrs]
    obtain ⟨hnd, -, hdisj⟩ := nodup_append'.1 (hvals ▸ h.nodup)
    refine ⟨hnd, fun key => ?_, fun key e he => ?_,
      (nodup_append'.1 (haddrs ▸ h.addrs_nodup)).1, fun a ha => h.addrs_lt a ?_⟩
    · rw [AList.mem_erase, ← h.mem_iff, hvals, mem_append, mem_singleton]
      refine ⟨fun hk => ⟨fun he => hdisj hk (he ▸ mem_singleton_self _), .inl hk⟩, ?_⟩
      rintro ⟨hne, hk | hk⟩
      exacts [hk, absurd hk hne]
    · have hne : key ≠ n.val := by
        rintro rfl
        simp at he
      rw [AList.lookup_erase_ne hne] at he
      obtain ⟨a, ha, hmem⟩ := h.node key e he
      rw [hq, mem_append, mem_singleton] at hmem
      refine ⟨a, ha, hmem.resolve_right ?_⟩
      rintro rfl
      exact hne rfl
    · rw [haddrs]
      exact mem_append_left _ ha

theorem mem_of_mem_evict {s : KVStore δ β} {key : Key} (h : key ∈ (s.evict B).store) :
    key ∈ s.store := by
  unfold KVStore.evict at h
  split at h
  · exact (AList.mem_erase.1 h).2
  · exact h

theorem Inv.size_evict {s : KVStore δ β} (h : Inv s) (hs : s.store ≠ ∅) :
    (s.evict B).size + 1 = s.size := by
  obtain ⟨q, n, hq⟩ := h.exists_last hs
  rw [h.evict.size_eq, h.size_eq, evict_of_last hq, hq, length_append, length_singleton]

theorem Inv.evictsOwn {s : KVStore δ β} (h : Inv s) : EvictsOwn B s where
  exists_victim hs := by
    obtain ⟨q, n, hq⟩ := h.exists_last hs
    simp [victim_of_last hq]
  saves key value hv := by
    rcases eq_nil_or_concat s.lruQueue with hq | ⟨q, n, hq⟩
    · simp [victim, hq] at hv
    · replace hq : s.lruQueue = q ++ [n] := by simpa using hq
      obtain ⟨rfl, rfl⟩ : n.val = key ∧ (s.entryAt n.val).value = value := by
        simpa [victim_of_last hq] using hv
      have hmem : n.val ∈ s.store := (h.mem_iff _).1 (mem_vals (by simp [hq]))
      obtain ⟨e, he⟩ := Option.isSome_iff_exists.1 (AList.lookup_isSome.2 hmem)
      exact ⟨e.lruIt, by simp [entryAt, he]⟩
  removes key value hv := by
    simp [KVStore.evict, hv]

end Evict

/-! ## The calls -/

variable [Inhabited δ]

theorem inv_setLocked {s : KVStore δ β} (h : Inv s) (key : Key) (value : ValueWrapper δ) :
    Inv (s.setLocked B maxSize key value) := by
  unfold setLocked
  split
  · exact (h.update ‹_› value).touch _
  · have hk : key ∉ s.store := AList.lookup_eq_none.1 ‹_›
    split
    · exact h.evict.pushFront (fun hmem => hk (mem_of_mem_evict hmem)) value
    · exact h.pushFront hk value

/-- The capacity is kept: a key is inserted into a full map only after an eviction. -/
theorem size_setLocked {s : KVStore δ β} (h : Inv s) (hm : 0 < maxSize) (hle : s.size ≤ maxSize)
    (key : Key) (value : ValueWrapper δ) : (s.setLocked B maxSize key value).size ≤ maxSize := by
  unfold setLocked
  split
  · exact Nat.le_trans (Nat.le_of_eq (size_insert_of_lookup ‹_› _)) hle
  · have hk : key ∉ s.store := AList.lookup_eq_none.1 ‹_›
    split
    · have hs : s.store ≠ ∅ := by
        intro he
        have : s.size = 0 := by simp [size, he]
        omega
      have hev := h.size_evict (B := B) hs
      rw [size_pushFront (fun hmem => hk (mem_of_mem_evict hmem))]
      omega
    · rw [size_pushFront hk]
      omega

theorem Good.setLocked {s : KVStore δ β} (h : Good maxSize s) (hm : 0 < maxSize) (key : Key)
    (value : ValueWrapper δ) : Good maxSize (s.setLocked B maxSize key value) :=
  ⟨inv_setLocked h.1 key value, size_setLocked h.1 hm h.2 key value⟩

theorem Good.get {s : KVStore δ β} (h : Good maxSize s) (hm : 0 < maxSize) (key : Key)
    (forceLoad : Bool) : Good maxSize (s.get B maxSize key forceLoad).2 := by
  unfold KVStore.get
  split
  · split
    · exact ⟨h.1.demote _, h.2⟩
    · exact ⟨h.1.touch _, h.2⟩
  · split
    · exact h.setLocked hm key _
    · exact h

/-- Every call keeps the invariant; a flush, if it finds the map empty. -/
theorem Good.step {s s' : KVStore δ β} (h : Good maxSize s) (hm : 0 < maxSize) {op : Op δ}
    (hop : FlushesEmpty s op) (hst : s.step B maxSize op = some s') : Good maxSize s' := by
  cases op with
  | set key value =>
    obtain rfl := Option.some.inj hst
    exact h.setLocked hm key value
  | get key forceLoad =>
    obtain rfl := Option.some.inj hst
    exact h.get hm key forceLoad
  | remove key =>
    obtain rfl := Option.some.inj hst
    exact h.setLocked hm key .tombstone
  | keys pre =>
    obtain ⟨_, _, rfl⟩ := Option.map_eq_some_iff.1 hst
    exact h
  | saveAll =>
    obtain ⟨_, _, rfl⟩ := Option.map_eq_some_iff.1 hst
    exact h.withDb _
  | flush =>
    obtain ⟨r, _, rfl⟩ := Option.map_eq_some_iff.1 hst
    have hs : { s with db := r.2, store := ∅ } = { s with db := r.2 } := by rw [← hop rfl]
    exact hs ▸ h.withDb r.2

/-! ## Runs -/

theorem good_of_reachable (hm : 0 < maxSize) {s : KVStore δ β}
    (hs : (system B maxSize).ReachableVia FlushesEmpty s) : Good maxSize s := by
  refine hs.invariant ?_ fun s op s' h hop hst => h.step hm hop hst
  rintro _ ⟨db, rfl⟩
  exact ⟨inv_empty db, Nat.zero_le _⟩

/-- In every run whose flushes all find the map empty, whatever the subclass, the
    map and the list agree in every state reached, and an eviction there saves an
    entry with its own value; and a further call keeps them in agreement exactly
    if it is not a flush of a map that is not empty. -/
theorem coherent_of_reachable (B : Backend δ β) (maxSize : ℕ) (hm : 0 < maxSize)
    (s : KVStore δ β) (hs : (system B maxSize).ReachableVia FlushesEmpty s) :
    Coherent maxSize s ∧ EvictsOwn B s ∧
      ∀ op s', s.step B maxSize op = some s' → (Coherent maxSize s' ↔ FlushesEmpty s op) := by
  have h := good_of_reachable hm hs
  refine ⟨h.1.coherent h.2, h.1.evictsOwn, fun op s' hst => ⟨?_, fun hop => ?_⟩⟩
  · rintro hc rfl
    by_contra hne
    exact h.1.not_coherent_flush hne hst hc
  · have h' := h.step hm hop hst
    exact h'.1.coherent h'.2

/-- With room for one key, setting a second one evicts the first. -/
theorem coherent_of_reachable_evict :
    let s := ((empty () : KVStore ℕ Unit).set (KVMemory ℕ) 1 ['a'] ⟨7, 0, false⟩)
    (system (KVMemory ℕ) 1).ReachableVia FlushesEmpty (s.set (KVMemory ℕ) 1 ['b'] ⟨8, 0, false⟩) ∧
      Coherent 1 (s.set (KVMemory ℕ) 1 ['b'] ⟨8, 0, false⟩) := by
  have hr : (system (KVMemory ℕ) 1).ReachableVia FlushesEmpty
      (((empty () : KVStore ℕ Unit).set (KVMemory ℕ) 1 ['a'] ⟨7, 0, false⟩).set (KVMemory ℕ) 1
        ['b'] ⟨8, 0, false⟩) :=
    .step (.step (.init ⟨(), rfl⟩) (a := .set ['a'] ⟨7, 0, false⟩) nofun rfl)
      (a := .set ['b'] ⟨8, 0, false⟩) nofun rfl
  exact ⟨hr, (coherent_of_reachable (KVMemory ℕ) 1 (by decide) _ hr).1⟩

/-- A flush of one key leaves the key in the list, and no entry in the map. -/
theorem not_coherent_after_flush : ¬∀ s, (system (KVMemory ℕ) 2).Reachable s → Coherent 2 s := by
  intro hall
  have hr : (system (KVMemory ℕ) 2).Reachable ⟨∅, [⟨0, ['a']⟩], 1, ()⟩ :=
    .step (.step (.init ⟨(), rfl⟩) (a := .set ['a'] ⟨7, 0, false⟩) trivial rfl)
      (a := .flush) trivial rfl
  exact absurd (((hall _ hr).mem_iff ['a']).1 (by decide)) (by simp)

end Canary.KV.KVStore
