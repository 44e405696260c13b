import Canary.Decay.Model
import Mathlib.Data.List.Nodup

/-!
# Registration

Whether an item decays is recorded in the map and in two attributes of the item. In every
run in which no decay is stopped of an item that `checkDecay` has taken out of the map and
not come to yet (`StopsNoneTaken`), they agree between the calls: the items in the map are
those in the state `DECAYING_TRUE`, each of them once, in the bucket of its timestamp; and
an item whose decay was stopped is not marked any more (`registered_of_idle`).

An item taken out of the map is still marked. To stop its decay leaves the mark, and
`checkDecay` lets it decay all the same (`stopped_still_marked`).
-/

namespace Canary.Decay

open Transition

variable {I : Type} [DecidableEq I]

/-- An element is removed, up to the order. -/
theorem swapRemove_perm {l : List I} {x : I} (hx : x ∈ l) : (swapRemove l x).Perm (l.erase x) := by
  obtain ⟨a, b, rfl, ha⟩ := List.eq_append_cons_of_mem hx
  have hidx : (a ++ x :: b).idxOf x = a.length := by
    rw [List.idxOf_append_of_notMem ha, List.idxOf_cons_self, Nat.add_zero]
  rw [swapRemove, hidx, List.erase_append_right _ ha, List.erase_cons_head]
  rcases List.eq_nil_or_concat b with rfl | ⟨b, z, rfl⟩
  · simp
  · -- The last element takes the place of the one removed.
    have hset : (a ++ x :: b.concat z).set a.length z = a ++ z :: (b ++ [z]) := by simp
    have hlast : (a ++ x :: b.concat z).getLastD x = z := by
      have hconcat : a ++ x :: b.concat z = (a ++ x :: b) ++ [z] := by simp
      rw [hconcat, List.getLastD_concat]
    rw [hlast, hset]
    have hdrop : (a ++ z :: (b ++ [z])).dropLast = a ++ z :: b := by
      rw [List.dropLast_append_of_ne_nil (List.cons_ne_nil _ _), List.dropLast_cons_of_ne_nil
        (by simp), List.dropLast_concat]
    rw [hdrop, List.concat_eq_append]
    exact (List.perm_append_left_iff a).2 (List.perm_append_singleton z b).symm

namespace State

/-! ## What a call does -/

theorem stopDecay_unmarked {s : State I} {x : I} (h : (s.attributes x).decayState = none) :
    s.stopDecay x = s := by
  simp [stopDecay, h]

theorem stopDecay_untimed {s : State I} {x : I} (h : (s.attributes x).decayState ≠ none)
    (hts : (s.attributes x).durationTimestamp = none) :
    s.stopDecay x = s.setAttributes x { s.attributes x with decayState := none } := by
  have hsome := Option.isSome_iff_ne_none.2 h
  simp only [stopDecay, hts, hsome, if_true]

/-- What the map is without the item, which is in the bucket `l` at `k`. -/
def without (s : State I) (x : I) (k : Int) (l : List I) : SortedMap Int (List I) :=
  if l.length = 1 then s.decayMap.erase k else s.decayMap.insert k (swapRemove l x)

theorem stopDecay_found {s : State I} {x : I} {k : Int} {l : List I}
    (h : (s.attributes x).decayState ≠ none) (hts : (s.attributes x).durationTimestamp = some k)
    (hl : s.decayMap.lookup k = some l) (hx : x ∈ l) :
    s.stopDecay x =
      { s.setAttributes x ((s.attributes x).stopped s.now) with decayMap := s.without x k l } := by
  have hsome := Option.isSome_iff_ne_none.2 h
  simp only [stopDecay, hts, hsome, if_true, hl, without]
  by_cases hlen : l.length = 1
  · obtain ⟨y, rfl⟩ := List.length_eq_one_iff.1 hlen
    obtain rfl := List.mem_singleton.1 hx
    simp
  · simp [hlen, hx]

/-- The items that were taken out of the map, and have not been come to. -/
def taken (s : State I) : List I := (s.checking.map Checking.tempItems).getD []

/-- The item is in the bucket. -/
def InBucket (s : State I) (k : Int) (x : I) : Prop := ∃ l, s.decayMap.lookup k = some l ∧ x ∈ l

end State

/-- What the attributes and the map say of the items agrees, also while `checkDecay` has
    taken items out of the map. -/
structure Consistent (s : State I) : Prop where
  marked : ∀ k x, s.InBucket k x → (s.attributes x).decayState = some .decayingTrue ∧
    (s.attributes x).durationTimestamp = some k
  bucket : ∀ k l, s.decayMap.lookup k = some l → l ≠ [] ∧ l.Nodup
  found : ∀ x, (s.attributes x).decayState = some .decayingTrue →
    x ∈ s.taken ∨ ∃ k, (s.attributes x).durationTimestamp = some k ∧ s.InBucket k x
  taken : ∀ x ∈ s.taken, (s.attributes x).decayState = some .decayingTrue ∧
    ∀ k, ¬ s.InBucket k x
  taken_nodup : s.taken.Nodup
  stale : ∀ x, (s.attributes x).durationTimestamp ≠ none →
    (s.attributes x).decayState = none ∨ (s.attributes x).decayState = some .decayingTrue

omit [DecidableEq I] in
theorem consistent_of_init {s : State I} (h : Init s) : Consistent s := by
  obtain ⟨hmap, -, hch, hattr⟩ := h
  have hlookup : ∀ k, s.decayMap.lookup k = none := fun k => by rw [hmap]; rfl
  have htaken : s.taken = [] := by rw [State.taken, hch]; rfl
  refine ⟨fun k x ⟨l, hl, _⟩ => ?_, fun k l hl => ?_, fun x hx => absurd hx (hattr x).2,
    fun x hx => ?_, ?_, fun x hx => absurd (hattr x).1 hx⟩
  · rw [hlookup] at hl
    cases hl
  · rw [hlookup] at hl
    cases hl
  · rw [htaken] at hx
    cases hx
  · rw [htaken]
    exact .nil

namespace Consistent

variable {s : State I} (hs : Consistent s)

include hs

omit [DecidableEq I] in
/-- An item that is not marked is nowhere. -/
theorem not_inBucket {x : I} (hx : (s.attributes x).decayState ≠ some .decayingTrue) (k : Int) :
    ¬ s.InBucket k x :=
  fun h => hx (hs.marked k x h).1

/-- The attributes of an item that is not marked are changed, and do not mark it. -/
theorem setAttributes {x : I} {a : Attributes}
    (hx : (s.attributes x).decayState ≠ some .decayingTrue)
    (ha : a.decayState ≠ some .decayingTrue)
    (hstale : a.durationTimestamp ≠ none → a.decayState = none) :
    Consistent (s.setAttributes x a) := by
  have hself := s.setAttributes_self x a
  have hother : ∀ y, y ≠ x → (s.setAttributes x a).attributes y = s.attributes y :=
    fun y hy => s.setAttributes_of_ne hy a
  refine ⟨fun k y hy => ?_, hs.bucket, fun y hy => ?_, fun y hy => ?_, hs.taken_nodup,
    fun y hy => ?_⟩
  · have hne : y ≠ x := by
      rintro rfl
      exact hs.not_inBucket hx k hy
    rw [hother y hne]
    exact hs.marked k y hy
  · have hne : y ≠ x := by
      rintro rfl
      rw [hself] at hy
      exact ha hy
    rw [hother y hne] at hy ⊢
    exact hs.found y hy
  · have hne : y ≠ x := by
      rintro rfl
      exact hx (hs.taken y hy).1
    rw [hother y hne]
    exact hs.taken y hy
  · by_cases hne : y = x
    · subst hne
      rw [hself] at hy ⊢
      exact .inl (hstale hy)
    · rw [hother y hne] at hy ⊢
      exact hs.stale y hy

/-- The duration of an item is changed. -/
theorem setDuration (x : I) (duration : Option Int) :
    Consistent (s.setAttributes x { s.attributes x with duration := duration }) := by
  have hsame : ∀ y, ((s.setAttributes x { s.attributes x with duration := duration }).attributes
      y).decayState = (s.attributes y).decayState ∧
      ((s.setAttributes x { s.attributes x with duration := duration }).attributes
        y).durationTimestamp = (s.attributes y).durationTimestamp := by
    intro y
    rcases eq_or_ne y x with rfl | hne
    · simp [State.setAttributes]
    · simp [State.setAttributes, Function.update_of_ne hne]
  refine ⟨fun k y hy => ?_, hs.bucket, fun y => ?_, fun y => ?_, hs.taken_nodup, fun y => ?_⟩
  · rw [(hsame y).1, (hsame y).2]
    exact hs.marked k y hy
  · rw [(hsame y).1, (hsame y).2]
    exact hs.found y
  · rw [(hsame y).1]
    exact hs.taken y
  · rw [(hsame y).1, (hsame y).2]
    exact hs.stale y

omit [DecidableEq I] in
/-- An item is in one bucket at most. -/
theorem inBucket_unique {x : I} {k k' : Int} (h : s.InBucket k x) (h' : s.InBucket k' x) :
    k = k' :=
  Option.some.inj ((hs.marked k x h).2.symm.trans (hs.marked k' x h').2)

/-- An item is taken out of its bucket, and is not marked any more. What remains of the
    bucket, up to the order, is `l'`; without any, the bucket is erased. -/
theorem leave {s' : State I} {x : I} {k : Int} {l l' : List I} (hl : s.decayMap.lookup k = some l)
    (hx : x ∈ l) (hl' : l'.Perm (l.erase x)) (htaken : s'.taken = s.taken)
    (hmap : ∀ k', s'.decayMap.lookup k' =
      if k' = k then if l' = [] then none else some l' else s.decayMap.lookup k')
    (hstate : (s'.attributes x).decayState = none)
    (hother : ∀ y, y ≠ x → s'.attributes y = s.attributes y) :
    Consistent s' ∧ ∀ k', ¬ s'.InBucket k' x := by
  obtain ⟨-, hnodup⟩ := hs.bucket k l hl
  have hin : s.InBucket k x := ⟨l, hl, hx⟩
  have hmem : ∀ y, y ∈ l' ↔ y ≠ x ∧ y ∈ l := fun y => by
    rw [hl'.mem_iff, hnodup.mem_erase_iff]
  -- The others are where they were.
  have hbucket : ∀ k' y, s'.InBucket k' y ↔ y ≠ x ∧ s.InBucket k' y := by
    intro k' y
    rw [State.InBucket, State.InBucket, hmap]
    by_cases hk : k' = k
    · subst hk
      rw [if_pos rfl, hl]
      by_cases hnil : l' = []
      · rw [if_pos hnil]
        refine ⟨nofun, fun ⟨hne, l₁, h₁, hy⟩ => ?_⟩
        obtain rfl := Option.some.inj h₁
        have := (hmem y).2 ⟨hne, hy⟩
        rw [hnil] at this
        cases this
      · rw [if_neg hnil]
        constructor
        · rintro ⟨l₁, h₁, hy⟩
          obtain rfl := Option.some.inj h₁
          exact ⟨((hmem y).1 hy).1, l, rfl, ((hmem y).1 hy).2⟩
        · rintro ⟨hne, l₁, h₁, hy⟩
          obtain rfl := Option.some.inj h₁
          exact ⟨l', rfl, (hmem y).2 ⟨hne, hy⟩⟩
    · rw [if_neg hk]
      refine ⟨fun h => ⟨?_, h⟩, And.right⟩
      rintro rfl
      exact hk (hs.inBucket_unique h hin)
  have hxtaken : x ∉ s.taken := fun h => (hs.taken x h).2 k hin
  refine ⟨⟨fun k' y hy => ?_, fun k' l₁ h₁ => ?_, fun y hy => ?_, fun y hy => ?_, ?_,
    fun y hy => ?_⟩, fun k' h => ((hbucket k' x).1 h).1 rfl⟩
  · obtain ⟨hne, hy⟩ := (hbucket k' y).1 hy
    rw [hother y hne]
    exact hs.marked k' y hy
  · rw [hmap] at h₁
    split at h₁
    · split at h₁
      · cases h₁
      · next hnil =>
        obtain rfl := Option.some.inj h₁
        exact ⟨hnil, hl'.nodup_iff.2 (hnodup.erase x)⟩
    · exact hs.bucket k' l₁ h₁
  · have hne : y ≠ x := by
      rintro rfl
      rw [hstate] at hy
      cases hy
    rw [hother y hne] at hy ⊢
    rw [htaken]
    exact (hs.found y hy).imp_right fun ⟨k', hk', h⟩ => ⟨k', hk', (hbucket k' y).2 ⟨hne, h⟩⟩
  · rw [htaken] at hy
    have hne : y ≠ x := by
      rintro rfl
      exact hxtaken hy
    rw [hother y hne]
    exact ⟨(hs.taken y hy).1, fun k' h => (hs.taken y hy).2 k' ((hbucket k' y).1 h).2⟩
  · rw [htaken]
    exact hs.taken_nodup
  · by_cases hne : y = x
    · subst hne
      exact .inl hstate
    · rw [hother y hne] at hy ⊢
      exact hs.stale y hy

/-- The decay of an item is stopped that was not taken out of the map. -/
theorem stopDecay {x : I} (hx : x ∉ s.taken) :
    Consistent (s.stopDecay x) ∧ (∀ k, ¬ (s.stopDecay x).InBucket k x) ∧
      ((s.stopDecay x).attributes x).decayState = none := by
  rcases hst : (s.attributes x).decayState with _ | st
  · -- Without the attribute, nothing is done.
    have hsame : s.stopDecay x = s := by
      rw [State.stopDecay, hst]
      rfl
    rw [hsame]
    refine ⟨hs, hs.not_inBucket (by rw [hst]; nofun), hst⟩
  · by_cases htrue : st = .decayingTrue
    · subst htrue
      -- A registered item is found in the bucket of its timestamp.
      obtain ⟨k, hts, l, hl, hxl⟩ := (hs.found x hst).resolve_left hx
      obtain ⟨-, hnodup⟩ := hs.bucket k l hl
      have hsome : (s.attributes x).decayState ≠ none := by rw [hst]; nofun
      rw [State.stopDecay_found hsome hts hl hxl]
      have hstate : (Function.update s.attributes x ((s.attributes x).stopped s.now) x).decayState =
          none := by
        rw [Function.update_self]
        rfl
      have hmap : ∀ k', (s.without x k l).lookup k' =
          if k' = k then if swapRemove l x = [] then none else some (swapRemove l x)
          else s.decayMap.lookup k' := by
        intro k'
        have hlen := (swapRemove_perm hxl).length_eq
        rw [List.length_erase_of_mem hxl] at hlen
        rw [State.without]
        split
        · -- It was the only one: the bucket goes.
          next h1 =>
          rw [if_pos (List.length_eq_zero_iff.1 (by omega)), SortedMap.lookup_erase]
        · next h1 =>
          have hpos := List.length_pos_of_mem hxl
          have hne : swapRemove l x ≠ [] := by
            intro hnil
            rw [hnil, List.length_nil] at hlen
            omega
          rw [if_neg hne, SortedMap.lookup_insert]
      have hother : ∀ y, y ≠ x →
          Function.update s.attributes x ((s.attributes x).stopped s.now) y = s.attributes y :=
        fun y hy => Function.update_of_ne hy _ _
      obtain ⟨hcons, hnot⟩ : Consistent { s.setAttributes x ((s.attributes x).stopped s.now) with
          decayMap := s.without x k l } ∧ _ :=
        hs.leave hl hxl (swapRemove_perm hxl) rfl hmap hstate hother
      exact ⟨hcons, hnot, hstate⟩
    · -- The item is not registered, and has no timestamp.
      have hts : (s.attributes x).durationTimestamp = none := by
        by_contra h
        rcases hs.stale x h with h' | h' <;> rw [hst] at h'
        · cases h'
        · exact htrue (Option.some.inj h')
      have hnot : (s.attributes x).decayState ≠ some .decayingTrue := by
        rw [hst]
        exact fun h => htrue (Option.some.inj h)
      rw [State.stopDecay_untimed (by rw [hst]; nofun) hts]
      refine ⟨hs.setAttributes hnot nofun fun _ => rfl, hs.not_inBucket hnot, ?_⟩
      rw [State.setAttributes_self]

/-- An item that is not marked is registered. -/
theorem enter {x : I} (timestamp : Int) (hx : (s.attributes x).decayState ≠ some .decayingTrue) :
    Consistent (s.enter x timestamp) := by
  have hself : (s.enter x timestamp).attributes x = { s.attributes x with
      decayState := some .decayingTrue, durationTimestamp := some timestamp } :=
    Function.update_self _ _ _
  have hother : ∀ y, y ≠ x → (s.enter x timestamp).attributes y = s.attributes y :=
    fun y hy => Function.update_of_ne hy _ _
  have hlookup : ∀ k, (s.enter x timestamp).decayMap.lookup k =
      if k = timestamp then some ((s.decayMap.lookup timestamp).getD [] ++ [x])
      else s.decayMap.lookup k := SortedMap.lookup_insert _ _ _
  have hxout := hs.not_inBucket hx
  have hold : ∀ y, y ∈ (s.decayMap.lookup timestamp).getD [] ↔ s.InBucket timestamp y := by
    intro y
    rw [State.InBucket]
    rcases s.decayMap.lookup timestamp with _ | l <;> simp
  -- The new item is in one bucket, and the others are where they were.
  have hbucket : ∀ k y, (s.enter x timestamp).InBucket k y ↔
      s.InBucket k y ∨ y = x ∧ k = timestamp := by
    intro k y
    rw [State.InBucket, hlookup]
    by_cases hk : k = timestamp
    · subst hk
      rw [if_pos rfl, ← hold]
      simp
    · rw [if_neg hk]
      exact ⟨.inl, fun h => h.resolve_right fun h' => hk h'.2⟩
  refine ⟨fun k y hy => ?_, fun k l hl => ?_, fun y hy => ?_, fun y hy => ?_, hs.taken_nodup,
    fun y hy => ?_⟩
  · rcases (hbucket k y).1 hy with h | ⟨rfl, rfl⟩
    · have hne : y ≠ x := by
        rintro rfl
        exact hxout k h
      rw [hother y hne]
      exact hs.marked k y h
    · rw [hself]
      exact ⟨rfl, rfl⟩
  · rw [hlookup] at hl
    split at hl
    · obtain rfl := Option.some.inj hl
      refine ⟨by simp, List.nodup_append.2 ⟨?_, by simp, ?_⟩⟩
      · rcases hl : s.decayMap.lookup timestamp with _ | l
        · exact .nil
        · exact (hs.bucket timestamp l hl).2
      · rintro y hy z hz rfl
        obtain rfl := List.mem_singleton.1 hz
        exact hxout timestamp ((hold y).1 hy)
    · exact hs.bucket k l hl
  · by_cases hne : y = x
    · subst hne
      exact .inr ⟨timestamp, by rw [hself], (hbucket _ _).2 (.inr ⟨rfl, rfl⟩)⟩
    · rw [hother y hne] at hy ⊢
      exact (hs.found y hy).imp_right fun ⟨k, hk, h⟩ => ⟨k, hk, (hbucket k y).2 (.inl h)⟩
  · have hne : y ≠ x := by
      rintro rfl
      exact hx (hs.taken y hy).1
    rw [hother y hne]
    refine ⟨(hs.taken y hy).1, fun k h => ?_⟩
    rcases (hbucket k y).1 h with h | h
    · exact (hs.taken y hy).2 k h
    · exact hne h.1
  · by_cases hne : y = x
    · subst hne
      rw [hself]
      exact .inr rfl
    · rw [hother y hne] at hy ⊢
      exact hs.stale y hy

end Consistent

omit [DecidableEq I] in
/-- What is said of the items does not depend on the timer. -/
theorem Consistent.congr {s s' : State I} (hs : Consistent s)
    (hattr : s'.attributes = s.attributes) (hmap : s'.decayMap = s.decayMap)
    (htaken : s'.taken = s.taken) : Consistent s' := by
  have hbucket : s'.InBucket = s.InBucket := by
    funext k x
    rw [State.InBucket, State.InBucket, hmap]
  refine ⟨?_, ?_, ?_, ?_, ?_, ?_⟩
  · rw [hbucket, hattr]
    exact hs.marked
  · rw [hmap]
    exact hs.bucket
  · rw [hattr, htaken, hbucket]
    exact hs.found
  · rw [htaken, hattr, hbucket]
    exact hs.taken
  · rw [htaken]
    exact hs.taken_nodup
  · rw [hattr]
    exact hs.stale

omit [DecidableEq I] in
theorem Consistent.startTimer {s : State I} (hs : Consistent s) (timestamp duration : Int) :
    Consistent (s.startTimer timestamp duration) := by
  rw [State.startTimer]
  split
  · exact hs.congr rfl rfl rfl
  · split
    · exact hs.congr rfl rfl rfl
    · exact hs

omit [DecidableEq I] in
theorem startTimer_attributes (s : State I) (timestamp duration : Int) :
    (s.startTimer timestamp duration).attributes = s.attributes := by
  rw [State.startTimer]
  split
  · rfl
  · split <;> rfl

/-- Before it is registered, the decay of an item need not be stopped: a timestamp that is
    left over belongs to an item without a state. -/
theorem register_of_stale {s : State I} {x : I}
    (hstale : (s.attributes x).durationTimestamp ≠ none → (s.attributes x).decayState = none)
    (duration : Int) : s.register x duration =
      (s.startTimer (s.now + duration) duration).enter x (s.now + duration) := by
  rw [State.register]
  split
  · next hts => rw [State.stopDecay_unmarked (hstale (Option.isSome_iff_ne_none.1 hts))]
  · rfl

theorem getDecaying_eq_true {a : Attributes} :
    a.getDecaying = .decayingTrue ↔ a.decayState = some .decayingTrue := by
  rw [Attributes.getDecaying]
  rcases a.decayState with _ | st <;> simp

namespace Consistent

variable {s : State I} (hs : Consistent s)

include hs

theorem register {x : I} (hx : (s.attributes x).decayState ≠ some .decayingTrue)
    (duration : Int) : Consistent (s.register x duration) := by
  rw [register_of_stale fun hts => (hs.stale x hts).resolve_right hx]
  refine (hs.startTimer _ _).enter _ ?_
  rwa [startTimer_attributes]

theorem startDecay {x : I} {canDecay : Bool}
    (hx : s.stopsDecay x canDecay = true → x ∉ s.taken) : Consistent (s.startDecay x canDecay) := by
  rw [State.startDecay]
  split
  · next h => exact (hs.stopDecay (hx h)).1
  · split
    · exact hs
    · next h =>
      split
      · exact hs
      · split
        · exact hs.register (fun htrue => h (.inr (getDecaying_eq_true.2 htrue))) _
        · exact hs

omit [DecidableEq I] hs in
theorem mem_due {x : I} : x ∈ (s.decayMap.upTo s.now).flatMap Prod.snd ↔
    ∃ k ≤ s.now, s.InBucket k x := by
  rw [List.mem_flatMap]
  constructor
  · rintro ⟨⟨k, l⟩, he, hx⟩
    obtain ⟨hl, hk⟩ := SortedMap.mem_upTo.1 he
    exact ⟨k, hk, l, hl, hx⟩
  · rintro ⟨k, hk, l, hl, hx⟩
    exact ⟨(k, l), SortedMap.mem_upTo.2 ⟨hl, hk⟩, hx⟩

omit [DecidableEq I] hs in
theorem inBucket_checkDecay {k : Int} {x : I} :
    s.checkDecay.InBucket k x ↔ s.now < k ∧ s.InBucket k x := by
  rw [State.InBucket, State.InBucket, State.checkDecay, SortedMap.lookup_above]
  split
  · next h => exact ⟨nofun, fun h' => absurd h'.1 (not_lt.2 h)⟩
  · next h => exact ⟨fun h' => ⟨not_le.1 h, h'⟩, And.right⟩

omit [DecidableEq I] in
/-- The items that are due are taken out of the map. -/
theorem checkDecay (htaken : s.taken = []) : Consistent s.checkDecay := by
  refine ⟨fun k x hx => hs.marked k x (inBucket_checkDecay.1 hx).2, fun k l hl => ?_,
    fun x hx => ?_, fun x hx => ?_, ?_, hs.stale⟩
  · rw [State.checkDecay, SortedMap.lookup_above] at hl
    split at hl
    · cases hl
    · exact hs.bucket k l hl
  · obtain ⟨k, hk, h⟩ := (hs.found x hx).resolve_left (by rw [htaken]; exact List.not_mem_nil)
    rcases le_or_gt k s.now with hle | hlt
    · exact .inl (mem_due.2 ⟨k, hle, h⟩)
    · exact .inr ⟨k, hk, inBucket_checkDecay.2 ⟨hlt, h⟩⟩
  · obtain ⟨k, hle, h⟩ := mem_due.1 hx
    refine ⟨(hs.marked k x h).1, fun k' h' => ?_⟩
    obtain ⟨hlt, h'⟩ := inBucket_checkDecay.1 h'
    rw [hs.inBucket_unique h' h] at hlt
    exact absurd hle (not_le.2 hlt)
  · -- Buckets have different keys, and an item is in one of them at most.
    refine List.nodup_flatMap.2 ⟨fun e he => (hs.bucket e.1 e.2 (SortedMap.mem_upTo.1 he).1).2, ?_⟩
    have hsorted : (s.decayMap.upTo s.now).Pairwise fun a b => a.1 < b.1 :=
      s.decayMap.sorted.sublist (List.takeWhile_sublist _)
    refine hsorted.imp_of_mem fun {a b} ha hb hlt x hxa hxb => ?_
    have hxa' : s.InBucket a.1 x := ⟨a.2, (SortedMap.mem_upTo.1 ha).1, hxa⟩
    have hxb' : s.InBucket b.1 x := ⟨b.2, (SortedMap.mem_upTo.1 hb).1, hxb⟩
    exact absurd (hs.inBucket_unique hxa' hxb') hlt.ne

/-- An item that was taken out is come to, and is not marked any more. -/
theorem checkItem {x : I} {tempItems : List I} {it : Option Int}
    (hch : s.checking = some ⟨x :: tempItems, it⟩) (canDecay : Bool) :
    Consistent (s.checkItem x tempItems it canDecay) := by
  have htaken : s.taken = x :: tempItems := by rw [State.taken, hch]; rfl
  have hnodup := hs.taken_nodup
  rw [htaken, List.nodup_cons] at hnodup
  have hx := hs.taken x (by rw [htaken]; exact List.mem_cons_self)
  -- Whether it decays or not, the item has lost its timestamp and its mark.
  have hself : ((s.checkItem x tempItems it canDecay).attributes x).decayState =
      some .decayingFalse ∧
      ((s.checkItem x tempItems it canDecay).attributes x).durationTimestamp = none := by
    simp only [State.checkItem, State.setAttributes_self]
    cases canDecay <;> exact ⟨rfl, rfl⟩
  have hother : ∀ y, y ≠ x → (s.checkItem x tempItems it canDecay).attributes y =
      s.attributes y := fun y hy => s.setAttributes_of_ne hy _
  refine ⟨fun k y hy => ?_, hs.bucket, fun y hy => ?_, fun y hy => ?_, hnodup.2, fun y hy => ?_⟩
  · have hne : y ≠ x := by
      rintro rfl
      exact hx.2 k hy
    rw [hother y hne]
    exact hs.marked k y hy
  · have hne : y ≠ x := by
      rintro rfl
      rw [hself.1] at hy
      cases hy
    rw [hother y hne] at hy ⊢
    have hmem := hs.found y hy
    rw [htaken, List.mem_cons, or_iff_right hne] at hmem
    exact hmem
  · have hne : y ≠ x := by
      rintro rfl
      exact hnodup.1 hy
    rw [hother y hne]
    exact hs.taken y (by rw [htaken]; exact List.mem_cons_of_mem _ hy)
  · have hne : y ≠ x := by
      rintro rfl
      exact hy hself.2
    rw [hother y hne] at hy ⊢
    exact hs.stale y hy

end Consistent

/-! ## Runs -/

/-- No decay is stopped of an item that `checkDecay` has taken out of the map, and not come
    to yet. -/
def StopsNoneTaken (s : State I) : Label I → Prop
  | .stopDecay x => x ∉ s.taken
  | .startDecay x canDecay => s.stopsDecay x canDecay = true → x ∉ s.taken
  | _ => True

instance (s : State I) (a : Label I) : Decidable (StopsNoneTaken s a) :=
  match a with
  | .stopDecay x => inferInstanceAs (Decidable (x ∉ s.taken))
  | .startDecay x canDecay =>
    inferInstanceAs (Decidable (s.stopsDecay x canDecay = true → x ∉ s.taken))
  | .checkDecay _ | .checkItem _ | .endCheck | .tick _ | .otherEvent | .setDuration .. =>
    isTrue trivial

theorem consistent_next {s s' : State I} {a : Label I} (hs : Consistent s)
    (hok : StopsNoneTaken s a) (h : system.step s a s') : Consistent s' := by
  cases a with
  | startDecay x canDecay =>
    obtain rfl := Option.some.inj h
    exact hs.startDecay hok
  | stopDecay x =>
    obtain rfl := Option.some.inj h
    exact (hs.stopDecay hok).1
  | checkDecay e =>
    obtain ⟨⟨-, -, hch⟩, h⟩ := Option.ite_none_right_eq_some.1 h
    obtain rfl := Option.some.inj h
    have htaken : s.taken = [] := by rw [State.taken, Option.isNone_iff_eq_none.1 hch]; rfl
    exact (hs.checkDecay htaken).congr rfl rfl rfl
  | checkItem canDecay =>
    simp only [system, System.ofNext, next] at h
    split at h
    · next x tempItems it hch =>
      obtain rfl := Option.some.inj h
      exact hs.checkItem hch canDecay
    · cases h
  | endCheck =>
    simp only [system, System.ofNext, next] at h
    split at h
    · next it hch =>
      obtain rfl := Option.some.inj h
      have htaken : s.taken = [] := by rw [State.taken, hch]; rfl
      cases it with
      | none => exact hs.congr rfl rfl htaken.symm
      | some first => exact hs.congr rfl rfl htaken.symm
    · cases h
  | tick now =>
    obtain ⟨-, h⟩ := Option.ite_none_right_eq_some.1 h
    obtain rfl := Option.some.inj h
    exact hs.congr rfl rfl rfl
  | otherEvent =>
    obtain rfl := Option.some.inj h
    exact hs.congr rfl rfl rfl
  | setDuration x duration =>
    obtain rfl := Option.some.inj h
    exact hs.setDuration x duration

/-- The map and the attributes of the items agree. -/
structure Registered (s : State I) : Prop where
  decaying : ∀ x, (∃ k, s.InBucket k x) ↔ (s.attributes x).getDecaying = .decayingTrue
  bucket : ∀ k l, s.decayMap.lookup k = some l → l ≠ [] ∧
    ∀ x ∈ l, l.count x = 1 ∧ (s.attributes x).durationTimestamp = some k

/-- The item is not registered, and not marked. -/
def Stopped (s : State I) (x : I) : Prop :=
  (∀ k, ¬ s.InBucket k x) ∧ (s.attributes x).decayState = none

/-- In every run in which no decay is stopped of an item that was taken out of the map, the
    map and the attributes agree whenever no `checkDecay` is at work, and an item is not
    registered and not marked when its decay was stopped. -/
theorem registered_of_idle {s : State I} (hs : system.ReachableVia StopsNoneTaken s) :
    (s.checking = none → Registered s) ∧ ∀ x, x ∉ s.taken → Stopped (s.stopDecay x) x := by
  have hc : Consistent s :=
    hs.invariant (fun _ => consistent_of_init) fun _ _ _ => consistent_next
  refine ⟨fun hidle => ?_, fun x hx => (hc.stopDecay hx).2⟩
  have htaken : s.taken = [] := by rw [State.taken, hidle]; rfl
  refine ⟨fun x => ?_, fun k l hl => ?_⟩
  · rw [getDecaying_eq_true]
    refine ⟨fun ⟨k, h⟩ => (hc.marked k x h).1, fun h => ?_⟩
    obtain ⟨k, -, hk⟩ := (hc.found x h).resolve_left (by rw [htaken]; exact List.not_mem_nil)
    exact ⟨k, hk⟩
  · obtain ⟨hne, hnodup⟩ := hc.bucket k l hl
    exact ⟨hne, fun x hx => ⟨List.count_eq_one_of_mem hnodup hx, (hc.marked k x ⟨l, hl, hx⟩).2⟩⟩

/-- Two items decay, and the decay of the first is stopped. The second is still registered. -/
theorem registered_of_idle_startDecay :
    ∃ s : State Nat, Registered s ∧ s.InBucket 100 1 ∧ Stopped (s.stopDecay 1) 1 := by
  have hs : system.ReachableVia StopsNoneTaken _ :=
    System.reachableVia_of_foldlM (.init init_unregistered)
      (l := [.startDecay 0 true, .startDecay 1 true, .stopDecay 0]) rfl
  obtain ⟨hidle, hstop⟩ := registered_of_idle hs
  exact ⟨_, hidle rfl, ⟨[1], rfl, List.mem_singleton_self 1⟩, hstop 1 List.not_mem_nil⟩

/-- Two items are due, and the transformation of the first stops the decay of the second.
    It is still marked. Stopped and started again, it is registered anew, and comes to decay
    all the same: it is registered, and not marked. -/
theorem stopped_still_marked :
    ¬ ∀ s : State Nat, system.Reachable s →
      (s.checking = none → Registered s) ∧ ∀ x, Stopped (s.stopDecay x) x := by
  intro h
  have hs : system.Reachable _ :=
    System.reachable_of_foldlM (.init init_unregistered)
      (l := [.startDecay 0 true, .startDecay 1 true, .tick 100, .checkDecay ⟨1, 0, 100⟩,
        .checkItem true, .stopDecay 1, .stopDecay 1, .startDecay 1 true, .checkItem true,
        .endCheck]) rfl
  have hmarked := (((h _ hs).1 rfl).decaying 1).1 ⟨200, [1], rfl, List.mem_singleton_self 1⟩
  cases hmarked

end Canary.Decay
