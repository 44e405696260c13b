import Mathlib.Data.List.Lex
import Mathlib.Algebra.Order.Ring.Int

/-!
# Maps kept in key order

A map from keys to values as the list of its entries in increasing key order, which is the
order it is gone through in. Putting the entries of a map, in that order, into the empty map
gives the map back (`SortedMap.foldl_insert`).

A map is known by what its lookups say (`SortedMap.mem_entries`): those after an update are
given by `lookup_insert`, `lookup_erase` and `lookup_above`; the first entry has the least
key (`head_le`).
-/

/-- A map as the list of its entries, in increasing order of the keys. -/
@[ext] structure SortedMap (K V : Type*) [LinearOrder K] where
  entries : List (K × V)
  sorted : entries.Pairwise fun a b => a.1 < b.1

namespace SortedMap

variable {K V : Type*} [LinearOrder K]

/-- The map without entries. -/
def empty : SortedMap K V := ⟨[], .nil⟩

/-- Put an entry where its key belongs, in place of the one with the same key. -/
def insertEntry (k : K) (v : V) : List (K × V) → List (K × V)
  | [] => [(k, v)]
  | e :: l =>
    if k < e.1 then (k, v) :: e :: l
    else if k = e.1 then (k, v) :: l
    else e :: insertEntry k v l

theorem mem_insertEntry {k : K} {v : V} {l : List (K × V)} {e : K × V}
    (h : e ∈ insertEntry k v l) : e = (k, v) ∨ e ∈ l := by
  induction l with
  | nil => exact .inl (List.mem_singleton.1 h)
  | cons d l ih =>
    rw [insertEntry] at h
    split at h
    · exact List.mem_cons.1 h
    · split at h
      · exact (List.mem_cons.1 h).imp_right (List.mem_cons_of_mem _)
      · rcases List.mem_cons.1 h with rfl | h
        · exact .inr List.mem_cons_self
        · exact (ih h).imp_right (List.mem_cons_of_mem _)

theorem sorted_insertEntry (k : K) (v : V) {l : List (K × V)}
    (h : l.Pairwise fun a b => a.1 < b.1) :
    (insertEntry k v l).Pairwise fun a b => a.1 < b.1 := by
  induction l with
  | nil => exact List.pairwise_singleton _ _
  | cons d l ih =>
    have hd := List.pairwise_cons.1 h
    rw [insertEntry]
    split
    · next hlt =>
      refine List.pairwise_cons.2 ⟨fun e he => ?_, h⟩
      rcases List.mem_cons.1 he with rfl | he
      · exact hlt
      · exact hlt.trans (hd.1 e he)
    · next hle =>
      split
      · next heq =>
        refine List.pairwise_cons.2 ⟨fun e he => ?_, hd.2⟩
        have := hd.1 e he
        rwa [← heq] at this
      · next hne =>
        refine List.pairwise_cons.2 ⟨fun e he => ?_, ih hd.2⟩
        rcases mem_insertEntry he with rfl | he
        · exact lt_of_le_of_ne (not_lt.1 hle) (Ne.symm hne)
        · exact hd.1 e he

/-- Put an entry, in place of the one with the same key. -/
def insert (k : K) (v : V) (m : SortedMap K V) : SortedMap K V :=
  ⟨insertEntry k v m.entries, sorted_insertEntry k v m.sorted⟩

/-- The value under a key. -/
def lookup (k : K) (m : SortedMap K V) : Option V :=
  (m.entries.find? fun e => e.1 = k).map Prod.snd

/-- An entry whose key is greater than all keys goes to the end. -/
theorem insertEntry_of_lt {k : K} {l : List (K × V)} (h : ∀ e ∈ l, e.1 < k) (v : V) :
    insertEntry k v l = l ++ [(k, v)] := by
  induction l with
  | nil => rfl
  | cons d l ih =>
    have hd : d.1 < k := h d List.mem_cons_self
    rw [insertEntry, if_neg hd.asymm, if_neg hd.ne', ih fun e he => h e (List.mem_cons_of_mem _ he)]
    rfl

/-- An entry whose key is less than all keys goes to the front. -/
theorem insertEntry_of_gt {k : K} {l : List (K × V)} (h : ∀ e ∈ l, k < e.1) (v : V) :
    insertEntry k v l = (k, v) :: l := by
  cases l with
  | nil => rfl
  | cons d l => rw [insertEntry, if_pos (h d List.mem_cons_self)]

/-- A map is what putting its entries, one after the other, into the empty map gives. -/
theorem foldl_insert (m : SortedMap K V) :
    m.entries.foldl (fun m e => m.insert e.1 e.2) empty = m := by
  suffices h : ∀ (l : List (K × V)) (m₀ : SortedMap K V),
      (m₀.entries ++ l).Pairwise (fun a b => a.1 < b.1) →
      (l.foldl (fun m e => m.insert e.1 e.2) m₀).entries = m₀.entries ++ l by
    exact SortedMap.ext (h m.entries empty m.sorted)
  intro l
  induction l with
  | nil => exact fun m₀ _ => (List.append_nil _).symm
  | cons e l ih =>
    intro m₀ h
    have hlt : ∀ d ∈ m₀.entries, d.1 < e.1 := fun d hd =>
      (List.pairwise_append.1 h).2.2 d hd e List.mem_cons_self
    have he : (m₀.insert e.1 e.2).entries = m₀.entries ++ [e] := insertEntry_of_lt hlt e.2
    have happ : m₀.entries ++ e :: l = (m₀.insert e.1 e.2).entries ++ l := by
      rw [he, List.append_assoc, List.singleton_append]
    rw [List.foldl_cons, happ]
    exact ih _ (happ ▸ h)

/-! ## Lookups -/

/-- The entries of a map are what its lookups say. -/
theorem mem_entries {m : SortedMap K V} {k : K} {v : V} :
    (k, v) ∈ m.entries ↔ m.lookup k = some v := by
  obtain ⟨l, hl⟩ := m
  rw [lookup]
  dsimp only
  induction l with
  | nil => exact ⟨nofun, nofun⟩
  | cons e l ih =>
    obtain ⟨he, hl'⟩ := List.pairwise_cons.1 hl
    rw [List.find?_cons, List.mem_cons]
    by_cases hk : e.1 = k
    · -- The other keys are greater.
      have hnot : (k, v) ∉ l := fun h => absurd hk (he _ h).ne
      simp only [hk, decide_true, Option.map_some, Option.some.injEq]
      refine ⟨fun h => ?_, fun h => .inl (Prod.ext hk.symm h.symm)⟩
      rw [← h.resolve_right hnot]
    · have hne : (k, v) ≠ e := by
        rintro rfl
        exact hk rfl
      simp only [hk, decide_false]
      exact (or_iff_right hne).trans (ih hl')

theorem mem_insertEntry_iff {k : K} {v : V} {l : List (K × V)}
    (hl : l.Pairwise fun a b => a.1 < b.1) {k' : K} {v' : V} :
    (k', v') ∈ insertEntry k v l ↔ k' = k ∧ v' = v ∨ k' ≠ k ∧ (k', v') ∈ l := by
  induction l with
  | nil => simp [insertEntry]
  | cons e l ih =>
    obtain ⟨he, hl'⟩ := List.pairwise_cons.1 hl
    rw [insertEntry]
    split
    · next hlt =>
      have hne : (k', v') ∈ e :: l → k' ≠ k := fun h => by
        rcases List.mem_cons.1 h with rfl | h
        · exact hlt.ne'
        · exact (hlt.trans (he _ h)).ne'
      rw [List.mem_cons, Prod.mk.injEq]
      exact or_congr_right ⟨fun h => ⟨hne h, h⟩, And.right⟩
    · split
      · next heq =>
        have hne : (k', v') ∈ l → k' ≠ k := fun h => heq ▸ (he _ h).ne'
        have hself : k' ≠ k → (k', v') ≠ e := fun h he' => h (by rw [heq, ← he'])
        rw [List.mem_cons, List.mem_cons, Prod.mk.injEq]
        exact or_congr_right ⟨fun h => ⟨hne h, .inr h⟩, fun h => h.2.resolve_left (hself h.1)⟩
      · next hne =>
        have hself : (k', v') = e → k' ≠ k := by
          rintro rfl rfl
          exact hne rfl
        rw [List.mem_cons, List.mem_cons, ih hl']
        constructor
        · rintro (h | h | ⟨h, h'⟩)
          · exact .inr ⟨hself h, .inl h⟩
          · exact .inl h
          · exact .inr ⟨h, .inr h'⟩
        · rintro (h | ⟨h, h' | h'⟩)
          · exact .inr (.inl h)
          · exact .inl h'
          · exact .inr (.inr ⟨h, h'⟩)

theorem lookup_insert (k : K) (v : V) (m : SortedMap K V) (k' : K) :
    (m.insert k v).lookup k' = if k' = k then some v else m.lookup k' := by
  refine Option.ext fun v' => ?_
  rw [← mem_entries, insert, mem_insertEntry_iff m.sorted]
  split
  · next h => simp [h, eq_comm]
  · next h => simp [h, mem_entries]

/-- Remove the entry with a key. -/
def erase (k : K) (m : SortedMap K V) : SortedMap K V :=
  ⟨m.entries.filter fun e => e.1 ≠ k, m.sorted.filter _⟩

theorem lookup_erase (k : K) (m : SortedMap K V) (k' : K) :
    (m.erase k).lookup k' = if k' = k then none else m.lookup k' := by
  refine Option.ext fun v' => ?_
  rw [← mem_entries, erase, List.mem_filter]
  split
  · next h => simp [h]
  · next h => simp [h, mem_entries]

/-- The map with other values, without those that have none. -/
def filterMap {W : Type*} (f : V → Option W) (m : SortedMap K V) : SortedMap K W where
  entries := m.entries.filterMap fun e => (f e.2).map (e.1, ·)
  sorted := by
    refine m.sorted.filterMap _ fun a b hab c hc d hd => ?_
    obtain ⟨v, -, rfl⟩ := Option.map_eq_some_iff.1 hc
    obtain ⟨w, -, rfl⟩ := Option.map_eq_some_iff.1 hd
    exact hab

theorem lookup_filterMap {W : Type*} (f : V → Option W) (m : SortedMap K V) (k : K) :
    (m.filterMap f).lookup k = (m.lookup k).bind f := by
  refine Option.ext fun w => ?_
  rw [← mem_entries, filterMap, List.mem_filterMap, Option.bind_eq_some_iff]
  constructor
  · rintro ⟨e, he, hw⟩
    obtain ⟨w, hf, heq⟩ := Option.map_eq_some_iff.1 hw
    obtain ⟨rfl, rfl⟩ := Prod.mk.injEq .. ▸ heq
    exact ⟨e.2, mem_entries.1 he, hf⟩
  · rintro ⟨v, hv, hf⟩
    exact ⟨(k, v), mem_entries.2 hv, Option.map_eq_some_iff.2 ⟨w, hf, rfl⟩⟩

/-- The entries up to a key, in order. -/
def upTo (t : K) (m : SortedMap K V) : List (K × V) := m.entries.takeWhile fun e => e.1 ≤ t

/-- The map without the entries up to a key. -/
def above (t : K) (m : SortedMap K V) : SortedMap K V :=
  ⟨m.entries.dropWhile fun e => e.1 ≤ t, m.sorted.sublist (List.dropWhile_sublist _)⟩

/-- In order, what is up to a key comes before the rest. -/
theorem mem_takeWhile_iff {t : K} {l : List (K × V)} (hl : l.Pairwise fun a b => a.1 < b.1)
    {e : K × V} : e ∈ l.takeWhile (fun e => e.1 ≤ t) ↔ e ∈ l ∧ e.1 ≤ t := by
  induction l with
  | nil => simp
  | cons d l ih =>
    obtain ⟨hd, hl'⟩ := List.pairwise_cons.1 hl
    by_cases hle : d.1 ≤ t
    · rw [List.takeWhile_cons_of_pos (by simpa using hle), List.mem_cons, List.mem_cons, ih hl']
      constructor
      · rintro (rfl | ⟨h, h'⟩)
        · exact ⟨.inl rfl, hle⟩
        · exact ⟨.inr h, h'⟩
      · rintro ⟨h | h, h'⟩
        · exact .inl h
        · exact .inr ⟨h, h'⟩
    · rw [List.takeWhile_cons_of_neg (by simpa using hle)]
      refine ⟨nofun, fun ⟨h, h'⟩ => absurd h' ?_⟩
      rcases List.mem_cons.1 h with rfl | h
      · exact hle
      · exact not_le.2 ((not_le.1 hle).trans (hd _ h))

theorem mem_dropWhile_iff {t : K} {l : List (K × V)} (hl : l.Pairwise fun a b => a.1 < b.1)
    {e : K × V} : e ∈ l.dropWhile (fun e => e.1 ≤ t) ↔ e ∈ l ∧ t < e.1 := by
  induction l with
  | nil => simp
  | cons d l ih =>
    obtain ⟨hd, hl'⟩ := List.pairwise_cons.1 hl
    by_cases hle : d.1 ≤ t
    · rw [List.dropWhile_cons_of_pos (by simpa using hle), ih hl', List.mem_cons]
      refine ⟨fun ⟨h, h'⟩ => ⟨.inr h, h'⟩, fun ⟨h, h'⟩ => ⟨h.resolve_left ?_, h'⟩⟩
      rintro rfl
      exact absurd hle (not_le.2 h')
    · rw [List.dropWhile_cons_of_neg (by simpa using hle)]
      refine ⟨fun h => ⟨h, ?_⟩, And.left⟩
      rcases List.mem_cons.1 h with rfl | h
      · exact not_le.1 hle
      · exact (not_le.1 hle).trans (hd _ h)

theorem mem_upTo {t : K} {m : SortedMap K V} {k : K} {v : V} :
    (k, v) ∈ m.upTo t ↔ m.lookup k = some v ∧ k ≤ t := by
  rw [upTo, mem_takeWhile_iff m.sorted, mem_entries]

theorem lookup_above (t : K) (m : SortedMap K V) (k : K) :
    (m.above t).lookup k = if k ≤ t then none else m.lookup k := by
  refine Option.ext fun v => ?_
  rw [← mem_entries, above, mem_dropWhile_iff m.sorted, mem_entries]
  split
  · next h => simp [not_lt.2 h]
  · next h => simp [not_le.1 h]

/-- The first entry is one of the map, and has the least key. -/
theorem lookup_of_head {m : SortedMap K V} {k : K} {v : V} (h : m.entries.head? = some (k, v)) :
    m.lookup k = some v :=
  mem_entries.1 (List.mem_of_mem_head? h)

theorem head_le {m : SortedMap K V} {e : K × V} (h : m.entries.head? = some e) {k : K} {v : V}
    (hk : m.lookup k = some v) : e.1 ≤ k := by
  have hmem := mem_entries.2 hk
  obtain ⟨l, hl⟩ := m
  cases l with
  | nil => cases h
  | cons d l =>
    obtain rfl := Option.some.inj h
    rcases List.mem_cons.1 hmem with heq | hmem
    · exact (congrArg Prod.fst heq).ge
    · exact ((List.pairwise_cons.1 hl).1 _ hmem).le

theorem head_eq_none {m : SortedMap K V} :
    m.entries.head? = none ↔ ∀ k, m.lookup k = none := by
  rw [List.head?_eq_none_iff]
  refine ⟨fun h k => ?_, fun h => List.eq_nil_iff_forall_not_mem.2 fun e he => ?_⟩
  · rw [lookup, h]
    rfl
  · have := mem_entries.1 (show (e.1, e.2) ∈ m.entries from he)
    rw [h] at this
    cases this

end SortedMap
