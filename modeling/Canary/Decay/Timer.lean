import Canary.Decay.Registration
import Mathlib

/-!
# The timer

Whether `checkDecay` is scheduled is not recorded, `startDecay` infers it from the map: if
there is an item in it, the event `eventId` is pending, and otherwise none is. In every run
that keeps to this (`KeepsTimer`), exactly one event is pending between the calls when the
map is not empty, in time for the first bucket (`timed_of_idle`).

The map does not tell. An event whose items were all stopped stays pending, and the next
item schedules another one (`two_events`). The same happens when an item is registered by
the transformation of another: `checkDecay` schedules itself for the bucket it stopped at,
whether or not another event is pending by then.
-/

namespace Canary.Decay

open Transition

variable {I : Type} [DecidableEq I]

/-- A number is not made greater by the conversion, unless it is negative. -/
theorem toInt32_le {n : Int} (hn : 0 ≤ n) : toInt32 n ≤ n := by
  rw [toInt32, Int.bmod_def]
  have hmod : n % (2 ^ 32 : Nat) ≤ n := by omega
  split <;> omega

/-- A bound on the time of an event that is scheduled in `d` ms. -/
theorem due_le {d : Int} (now : Int) (hd : 0 ≤ d) :
    now + max State.schedulerMinticks (toInt32 d) ≤
      max (now + State.schedulerMinticks) (now + d) := by
  rw [← max_add_add_left]
  exact max_le_max_left _ (Int.add_le_add_left (toInt32_le hd) now)

/-- An id is kept if it fits in 32 bits. -/
theorem named_of_lt {id : UInt64} (h : id.toNat < 2 ^ 32) : id.toUInt32.toUInt64 = id := by
  refine UInt64.toNat_inj.1 ?_
  rw [UInt32.toNat_toUInt64, UInt64.toNat_toUInt32, Nat.mod_eq_of_lt h]

namespace State

/-- The key of the bucket at which `checkDecay` stopped. -/
def it (s : State I) : Option Int := s.checking.bind Checking.it

/-- There are items to decay at the time. -/
def HasKey (s : State I) (k : Int) : Prop := s.decayMap.lookup k ≠ none

/-! ## What a call does to the timer -/

/-- The item would be found, alone in the bucket at which `checkDecay` stopped. -/
def IsLast (s : State I) (x : I) : Prop :=
  (s.attributes x).decayState ≠ none ∧ (s.attributes x).durationTimestamp.isSome ∧
    (s.attributes x).durationTimestamp = s.it ∧
    (s.attributes x).durationTimestamp.bind s.decayMap.lookup = some [x]

instance (s : State I) (x : I) : Decidable (s.IsLast x) :=
  inferInstanceAs (Decidable (_ ∧ _ ∧ _ ∧ _))

/-- `stopDecay` changes attributes of the item, and may erase its bucket if it is alone in
    it, or leave less of the bucket. -/
theorem stopDecay_cases (s : State I) (x : I) : ∃ a m, s.stopDecay x =
    { s.setAttributes x a with decayMap := m } ∧
    (a = s.attributes x ∨ a.decayState = none ∨ a.durationTimestamp = none) ∧
    (m = s.decayMap ∨ ∃ k l, s.decayMap.lookup k = some l ∧
      (m = s.decayMap.insert k (swapRemove l x) ∨
        m = s.decayMap.erase k ∧ l = [x] ∧ (s.attributes x).decayState ≠ none ∧
          (s.attributes x).durationTimestamp = some k)) := by
  have hsame : s = { s.setAttributes x (s.attributes x) with decayMap := s.decayMap } := by
    rw [State.setAttributes, Function.update_eq_self]
  rw [stopDecay]
  split
  · next hst =>
    split
    · next k hts =>
      split
      · next l hl =>
        split
        · next hlen =>
          split
          · next hhead =>
            obtain ⟨y, rfl⟩ := List.length_eq_one_iff.1 hlen
            obtain rfl := Option.some.inj hhead
            refine ⟨_, _, rfl, .inr (.inl rfl), .inr ⟨k, [y], hl, .inr ⟨rfl, rfl, ?_, hts⟩⟩⟩
            exact Option.isSome_iff_ne_none.1 hst
          · exact ⟨_, _, hsame, .inl rfl, .inl rfl⟩
        · split
          · exact ⟨_, _, rfl, .inr (.inl rfl), .inr ⟨k, l, hl, .inl rfl⟩⟩
          · exact ⟨_, _, rfl, .inr (.inr rfl), .inl rfl⟩
      · exact ⟨_, _, rfl, .inr (.inr rfl), .inl rfl⟩
    · exact ⟨_, _, rfl, .inr (.inl rfl), .inl rfl⟩
  · exact ⟨_, _, hsame, .inl rfl, .inl rfl⟩

/-- The timer is left alone. -/
theorem stopDecay_timer (s : State I) (x : I) : (s.stopDecay x).events = s.events ∧
    (s.stopDecay x).eventId = s.eventId ∧ (s.stopDecay x).lastEventId = s.lastEventId ∧
    (s.stopDecay x).now = s.now ∧ (s.stopDecay x).checking = s.checking := by
  obtain ⟨a, m, h, -, -⟩ := s.stopDecay_cases x
  rw [h]
  exact ⟨rfl, rfl, rfl, rfl, rfl⟩

/-- No bucket is added. -/
theorem hasKey_of_stopDecay {s : State I} {x : I} {k : Int} (h : (s.stopDecay x).HasKey k) :
    s.HasKey k := by
  obtain ⟨a, m, heq, -, hm⟩ := s.stopDecay_cases x
  rw [heq, HasKey] at h
  rcases hm with rfl | ⟨k', l, hl, rfl | ⟨rfl, -⟩⟩
  · exact h
  · rw [SortedMap.lookup_insert] at h
    split at h
    · next hk =>
      rw [HasKey, hk, hl]
      exact nofun
    · exact h
  · rw [SortedMap.lookup_erase] at h
    split at h
    · exact absurd rfl h
    · exact h

/-- The bucket at which `checkDecay` stopped is kept, unless the item is alone in it. -/
theorem hasKey_stopDecay {s : State I} {x : I} {k : Int} (hit : s.it = some k)
    (hx : ¬ s.IsLast x) (h : s.HasKey k) : (s.stopDecay x).HasKey k := by
  obtain ⟨a, m, heq, -, hm⟩ := s.stopDecay_cases x
  rw [heq, HasKey]
  rcases hm with rfl | ⟨k', l, hl, rfl | ⟨rfl, rfl, hst, hts⟩⟩
  · exact h
  · rw [SortedMap.lookup_insert]
    split
    · exact nofun
    · exact h
  · rw [SortedMap.lookup_erase]
    split
    · next hk =>
      subst hk
      refine absurd ⟨hst, ?_, ?_, ?_⟩ hx
      · rw [hts]
        rfl
      · rw [hts, hit]
      · rw [hts]
        exact hl
    · exact h

/-- `startDecay` comes to register the item. -/
def registers (s : State I) (x : I) (canDecay : Bool) : Bool :=
  !s.stopsDecay x canDecay && canDecay && (s.attributes x).getDecaying ≠ .decayingTrue &&
    0 < (s.attributes x).duration.getD 0

/-- A timer is scheduled for an item that is due at the time: there is none before. -/
def schedules (s : State I) (timestamp : Int) : Bool :=
  s.decayMap.entries.head?.all fun first => timestamp < first.1

omit [DecidableEq I] in
theorem startTimer_of_not_schedules {s : State I} {timestamp : Int} (duration : Int)
    (h : s.schedules timestamp = false) : s.startTimer timestamp duration = s := by
  rw [startTimer]
  rw [schedules] at h
  split
  · next hnil =>
    rw [hnil] at h
    cases h
  · next first hfirst =>
    rw [hfirst, Option.all_some, decide_eq_false_iff_not] at h
    rw [if_neg h]

omit [DecidableEq I] in
theorem startTimer_of_schedules {s : State I} {timestamp : Int} (duration : Int)
    (h : s.schedules timestamp = true) (hempty : s.decayMap.entries.head? = none → s.events = [])
    (hstop : s.decayMap.entries.head? ≠ none → s.stopEvent.events = []) :
    s.startTimer timestamp duration =
      { s with
        events := [⟨s.nextId, s.now, s.now + max schedulerMinticks (toInt32 duration)⟩]
        lastEventId := s.nextId
        eventId := s.nextId.toUInt32 } := by
  rw [startTimer]
  rw [schedules] at h
  split
  · next hnil => rw [scheduleEvent, hempty hnil, List.nil_append]
  · next first hfirst =>
    rw [hfirst, Option.all_some, decide_eq_true_eq] at h
    have hnone : s.stopEvent.events = [] := hstop (by rw [hfirst]; intro h; cases h)
    rw [if_pos h, scheduleEvent, hnone]
    rfl

/-- An item is registered where its timestamp says. -/
theorem hasKey_enter {s : State I} {x : I} {timestamp k : Int} :
    (s.enter x timestamp).HasKey k ↔ k = timestamp ∨ s.HasKey k := by
  rw [HasKey, HasKey, enter, SortedMap.lookup_insert]
  split
  · next h => exact ⟨fun _ => .inl h, nofun⟩
  · next h => exact (or_iff_right h).symm

end State

/-! ## The invariant -/

/-- The event is the only one that is pending, `eventId` names it, and it is in time. -/
structure Scheduled (s : State I) (e : Event) : Prop where
  events : s.events = [e]
  named : s.eventId.toUInt64 = e.id
  due : ∀ k, s.HasKey k → e.due ≤ max (e.scheduledAt + State.schedulerMinticks) k

/-- At most one event is pending, and exactly one if there are items to decay; but none as
    long as `checkDecay` is going to schedule itself, for a bucket that is the first one. -/
structure Timed (s : State I) : Prop where
  single : s.events.length ≤ 1
  scheduled : s.it = none → ∀ k, s.HasKey k → ∃ e, Scheduled s e
  stoppedAt : ∀ k, s.it = some k →
    s.events = [] ∧ s.HasKey k ∧ s.now < k ∧ ∀ k', s.HasKey k' → k ≤ k'

omit [DecidableEq I] in
theorem timed_of_init {s : State I} (h : Init s) : Timed s := by
  obtain ⟨hmap, hev, hch, -⟩ := h
  refine ⟨?_, fun _ k hk => ?_, fun k hk => ?_⟩
  · rw [hev]
    exact Nat.zero_le _
  · rw [State.HasKey, hmap] at hk
    exact absurd rfl hk
  · rw [State.it, hch] at hk
    cases hk

namespace Timed

variable {s : State I} (hs : Timed s)

include hs

omit [DecidableEq I] in
/-- No bucket is added, and that at which `checkDecay` stopped is kept. -/
theorem of_hasKey {s' : State I} (hev : s'.events = s.events) (hid : s'.eventId = s.eventId)
    (hnow : s'.now = s.now) (hit : s'.it = s.it) (hkey : ∀ k, s'.HasKey k → s.HasKey k)
    (hkept : ∀ k, s.it = some k → s.HasKey k → s'.HasKey k) : Timed s' := by
  refine ⟨?_, fun h k hk => ?_, fun k h => ?_⟩
  · rw [hev]
    exact hs.single
  · rw [hit] at h
    obtain ⟨e, he⟩ := hs.scheduled h k (hkey k hk)
    refine ⟨e, hev.trans he.events, ?_, fun k' hk' => he.due k' (hkey k' hk')⟩
    rw [hid]
    exact he.named
  · rw [hit] at h
    obtain ⟨hnil, hk, hlt, hle⟩ := hs.stoppedAt k h
    refine ⟨hev.trans hnil, hkept k h hk, ?_, fun k' hk' => hle k' (hkey k' hk')⟩
    rw [hnow]
    exact hlt

theorem stopDecay {x : I} (hx : ¬ s.IsLast x) : Timed (s.stopDecay x) := by
  obtain ⟨hev, hid, -, hnow, hch⟩ := s.stopDecay_timer x
  refine hs.of_hasKey hev hid hnow ?_ (fun k => State.hasKey_of_stopDecay)
    fun k hk => State.hasKey_stopDecay hk hx
  rw [State.it, hch]
  rfl

omit [DecidableEq I] in
/-- The event that was pending, if there are items to decay, is stopped. -/
theorem stopEvent {k : Int} (hit : s.it = none) (hk : s.HasKey k) : s.stopEvent.events = [] := by
  obtain ⟨e, he⟩ := hs.scheduled hit k hk
  rw [State.stopEvent, he.events, he.named]
  simp

/-- An item is registered. If a timer is scheduled for it, none is pending when the map is
    empty, `checkDecay` is not going to schedule itself, and the id of the timer fits. -/
theorem register {x : I} {duration : Int} (hd : 0 < duration)
    (hok : s.schedules (s.now + duration) = true →
      s.it = none ∧ (s.decayMap.entries.head? = none → s.events = []) ∧
        s.nextId.toNat < 2 ^ 32) :
    Timed ((s.startTimer (s.now + duration) duration).enter x (s.now + duration)) := by
  rcases hsch : s.schedules (s.now + duration) with _ | _
  · -- There is a first bucket, not after the new one.
    rw [State.startTimer_of_not_schedules _ hsch]
    have hfirst : ∃ first, s.HasKey first ∧ first ≤ s.now + duration := by
      rw [State.schedules] at hsch
      rcases hhead : s.decayMap.entries.head? with _ | ⟨first, l⟩
      · rw [hhead] at hsch
        cases hsch
      · rw [hhead, Option.all_some, decide_eq_false_iff_not, not_lt] at hsch
        refine ⟨first, ?_, hsch⟩
        rw [State.HasKey, SortedMap.lookup_of_head hhead]
        exact nofun
    obtain ⟨first, hkey, hle⟩ := hfirst
    refine ⟨hs.single, fun hit k _ => ?_, fun k hit => ?_⟩
    · obtain ⟨e, he⟩ := hs.scheduled hit first hkey
      refine ⟨e, he.events, he.named, fun k' hk' => ?_⟩
      rcases State.hasKey_enter.1 hk' with rfl | hk'
      · exact (he.due first hkey).trans (max_le_max_left _ hle)
      · exact he.due k' hk'
    · obtain ⟨hnil, hk, hlt, hmin⟩ := hs.stoppedAt k hit
      refine ⟨hnil, State.hasKey_enter.2 (.inr hk), hlt, fun k' hk' => ?_⟩
      rcases State.hasKey_enter.1 hk' with rfl | hk'
      · exact (hmin first hkey).trans hle
      · exact hmin k' hk'
  · -- The new bucket becomes the first one.
    obtain ⟨hit, hempty, hid⟩ := hok hsch
    -- The timer of the bucket that was first is the one pending, and is stopped.
    have hstop : s.decayMap.entries.head? ≠ none → s.stopEvent.events = [] := by
      intro h
      obtain ⟨⟨k, l⟩, hkl⟩ := Option.ne_none_iff_exists'.1 h
      have hk : s.decayMap.lookup k ≠ none := by
        rw [SortedMap.lookup_of_head hkl]
        exact nofun
      exact hs.stopEvent hit hk
    -- No bucket is earlier than the new one.
    have hmin : ∀ k, s.HasKey k → s.now + duration ≤ k := by
      intro k hk
      obtain ⟨l, hl⟩ := Option.ne_none_iff_exists'.1 hk
      rw [State.schedules] at hsch
      rcases hhead : s.decayMap.entries.head? with _ | first
      · exact absurd (SortedMap.head_eq_none.1 hhead k) hk
      · rw [hhead, Option.all_some, decide_eq_true_eq] at hsch
        exact hsch.le.trans (SortedMap.head_le hhead hl)
    have hdue := due_le s.now hd.le
    rw [State.startTimer_of_schedules _ hsch hempty hstop]
    refine ⟨le_rfl, fun _ k _ => ⟨_, rfl, named_of_lt hid, fun k' hk' => ?_⟩, fun k hk => ?_⟩
    · rcases State.hasKey_enter.1 hk' with rfl | hk'
      · exact hdue
      · exact hdue.trans (max_le_max_left _ (hmin k' hk'))
    · have hk' : s.it = some k := hk
      cases hit.symm.trans hk'

theorem startDecay {x : I} {canDecay : Bool}
    (hstale : (s.attributes x).durationTimestamp ≠ none → (s.attributes x).decayState = none ∨
      (s.attributes x).decayState = some .decayingTrue)
    (hlast : s.stopsDecay x canDecay = true → ¬ s.IsLast x)
    (hok : s.registers x canDecay = true →
      s.schedules (s.now + (s.attributes x).duration.getD 0) = true →
      s.it = none ∧ (s.decayMap.entries.head? = none → s.events = []) ∧
        s.nextId.toNat < 2 ^ 32) :
    Timed (s.startDecay x canDecay) := by
  rw [State.startDecay]
  split
  · next h => exact hs.stopDecay (hlast h)
  · next hstops =>
    split
    · exact hs
    · next h =>
      split
      · exact hs
      · split
        · next hd =>
          obtain ⟨hcan, hnot⟩ := not_or.1 h
          have hregisters : s.registers x canDecay = true := by
            simp [State.registers, hstops, hnot, hd]
            simpa using hcan
          rw [register_of_stale fun hts => (hstale hts).resolve_right
            (mt getDecaying_eq_true.2 hnot)]
          exact hs.register hd (hok hregisters)
        · exact hs

omit [DecidableEq I] in
/-- The buckets that are due are taken out, by the event that was pending. -/
theorem checkDecay {e : Event} (he : e ∈ s.events) :
    Timed { s.checkDecay with events := s.events.erase e } := by
  have hnil : s.events.erase e = [] := by
    rw [← List.length_eq_zero_iff, List.length_erase_of_mem he]
    exact Nat.sub_eq_zero_of_le hs.single
  have hkeys : ∀ k, State.HasKey { s.checkDecay with events := s.events.erase e } k ↔
      (s.decayMap.above s.now).lookup k ≠ none := fun k => Iff.rfl
  refine ⟨?_, fun hit k hk => ?_, fun k hit => ⟨hnil, ?_⟩⟩
  · rw [hnil]
    exact Nat.zero_le _
  · -- The iterator is at the end: no bucket is left.
    have hhead : (s.decayMap.above s.now).entries.head? = none := Option.map_eq_none_iff.1 hit
    exact absurd (SortedMap.head_eq_none.1 hhead k) hk
  · obtain ⟨⟨k', l⟩, hhead, rfl⟩ := Option.map_eq_some_iff.1 hit
    have hl := SortedMap.lookup_of_head hhead
    refine ⟨(hkeys k').2 (by rw [hl]; exact nofun), ?_, fun k hk => ?_⟩
    · rw [SortedMap.lookup_above] at hl
      split at hl
      · cases hl
      · next h => exact not_le.1 h
    · obtain ⟨l', hl'⟩ := Option.ne_none_iff_exists'.1 ((hkeys k).1 hk)
      exact SortedMap.head_le hhead hl'

/-- Another item is come to. -/
theorem checkItem {x : I} {tempItems : List I} {it : Option Int}
    (hch : s.checking = some ⟨x :: tempItems, it⟩) (canDecay : Bool) :
    Timed (s.checkItem x tempItems it canDecay) :=
  hs.of_hasKey rfl rfl rfl (by rw [State.it, State.it, hch]; rfl) (fun _ => id) fun _ _ => id

omit [DecidableEq I] in
/-- `checkDecay` schedules itself, for the bucket of the iterator. -/
theorem endCheck {it : Option Int} (hch : s.checking = some ⟨[], it⟩)
    (hid : it ≠ none → s.nextId.toNat < 2 ^ 32) : Timed (s.endCheck it) := by
  have hit : s.it = it := by rw [State.it, hch]; rfl
  cases it with
  | none =>
    refine ⟨hs.single, fun _ k hk => ?_, nofun⟩
    obtain ⟨e, he⟩ := hs.scheduled hit k hk
    exact ⟨e, he.events, he.named, he.due⟩
  | some first =>
    obtain ⟨hnil, -, hlt, hmin⟩ := hs.stoppedAt first hit
    have hev : (s.endCheck (some first)).events =
        [⟨s.nextId, s.now, s.now + max State.schedulerMinticks (toInt32 (first - s.now))⟩] := by
      rw [State.endCheck, State.scheduleEvent, hnil]
      rfl
    refine ⟨by rw [hev]; exact le_rfl, fun _ k _ => ⟨_, hev, named_of_lt (hid nofun), ?_⟩, nofun⟩
    intro k' hk'
    have hdue := due_le s.now (sub_nonneg.2 hlt.le)
    rw [add_sub_cancel] at hdue
    exact hdue.trans (max_le_max_left _ (hmin k' hk'))

end Timed

/-! ## Runs -/

/-- A timestamp that is left over belongs to an item without a state. -/
def Stale (s : State I) : Prop :=
  ∀ x, (s.attributes x).durationTimestamp ≠ none →
    (s.attributes x).decayState = none ∨ (s.attributes x).decayState = some .decayingTrue

/-- The calls keep to what the map tells of the timer. -/
def KeepsTimer (s : State I) : Label I → Prop
  -- The bucket at which `checkDecay` stopped is not erased.
  | .stopDecay x => ¬ s.IsLast x
  | .startDecay x canDecay =>
    (s.stopsDecay x canDecay = true → ¬ s.IsLast x) ∧
      (s.registers x canDecay = true →
        s.schedules (s.now + (s.attributes x).duration.getD 0) = true →
        -- `checkDecay` is not going to schedule itself, and an empty map has no timer.
        s.it = none ∧ (s.decayMap.entries.head? = none → s.events = []) ∧
          s.nextId.toNat < 2 ^ 32)
  | .endCheck => s.it ≠ none → s.nextId.toNat < 2 ^ 32
  | _ => True

instance (s : State I) (a : Label I) : Decidable (KeepsTimer s a) :=
  match a with
  | .stopDecay x => inferInstanceAs (Decidable (¬ s.IsLast x))
  | .startDecay _ _ => inferInstanceAs (Decidable (_ ∧ (_ → _ → _ ∧ _ ∧ _)))
  | .endCheck => inferInstanceAs (Decidable (_ → _))
  | .checkDecay _ | .checkItem _ | .tick _ | .otherEvent | .setDuration .. => isTrue trivial

theorem stale_setAttributes {s : State I} (hs : Stale s) {x : I} {a : Attributes}
    (ha : a.durationTimestamp ≠ none →
      a.decayState = none ∨ a.decayState = some .decayingTrue) : Stale (s.setAttributes x a) := by
  intro y hy
  rcases eq_or_ne y x with rfl | hne
  · rw [State.setAttributes_self] at hy ⊢
    exact ha hy
  · rw [State.setAttributes_of_ne s hne] at hy ⊢
    exact hs y hy

theorem stale_stopDecay {s : State I} (hs : Stale s) (x : I) : Stale (s.stopDecay x) := by
  obtain ⟨a, m, h, ha, -⟩ := s.stopDecay_cases x
  rw [h]
  refine stale_setAttributes hs fun hts => ?_
  rcases ha with rfl | ha | ha
  · exact hs x hts
  · exact .inl ha
  · exact absurd ha hts

theorem stale_startDecay {s : State I} (hs : Stale s) (x : I) (canDecay : Bool) :
    Stale (s.startDecay x canDecay) := by
  rw [State.startDecay]
  split
  · exact stale_stopDecay hs x
  · split
    · exact hs
    · next h =>
      split
      · exact hs
      · split
        · rw [register_of_stale fun hts => (hs x hts).resolve_right fun htrue =>
            h (.inr (getDecaying_eq_true.2 htrue))]
          have htimer : Stale (s.startTimer (s.now + (s.attributes x).duration.getD 0)
              ((s.attributes x).duration.getD 0)) := by
            intro y
            rw [startTimer_attributes]
            exact hs y
          exact stale_setAttributes htimer fun _ => .inr rfl
        · exact hs

theorem stale_next {s s' : State I} {a : Label I} (hs : Stale s)
    (h : system.step s a s') : Stale s' := by
  cases a with
  | startDecay x canDecay =>
    obtain rfl := Option.some.inj h
    exact stale_startDecay hs x canDecay
  | stopDecay x =>
    obtain rfl := Option.some.inj h
    exact stale_stopDecay hs x
  | checkDecay e =>
    obtain ⟨-, h⟩ := Option.ite_none_right_eq_some.1 h
    obtain rfl := Option.some.inj h
    exact hs
  | checkItem canDecay =>
    simp only [system, System.ofNext, next] at h
    split at h
    · obtain rfl := Option.some.inj h
      refine stale_setAttributes hs fun hts => absurd ?_ hts
      cases canDecay <;> rfl
    · cases h
  | endCheck =>
    simp only [system, System.ofNext, next] at h
    split at h
    · next it _ =>
      obtain rfl := Option.some.inj h
      cases it <;> exact hs
    · cases h
  | tick now =>
    obtain ⟨-, h⟩ := Option.ite_none_right_eq_some.1 h
    obtain rfl := Option.some.inj h
    exact hs
  | otherEvent =>
    obtain rfl := Option.some.inj h
    exact hs
  | setDuration x duration =>
    obtain rfl := Option.some.inj h
    exact stale_setAttributes hs (hs x)

theorem timed_next {s s' : State I} {a : Label I} (hs : Timed s) (hstale : Stale s)
    (hok : KeepsTimer s a) (h : system.step s a s') : Timed s' := by
  cases a with
  | startDecay x canDecay =>
    obtain rfl := Option.some.inj h
    exact hs.startDecay (hstale x) hok.1 hok.2
  | stopDecay x =>
    obtain rfl := Option.some.inj h
    exact hs.stopDecay hok
  | checkDecay e =>
    obtain ⟨⟨he, -, -⟩, h⟩ := Option.ite_none_right_eq_some.1 h
    obtain rfl := Option.some.inj h
    exact hs.checkDecay he
  | checkItem canDecay =>
    simp only [system, System.ofNext, next] at h
    split at h
    · next x tempItems it hch =>
      obtain rfl := Option.some.inj h
      exact hs.checkItem hch canDecay
    · cases h
  | endCheck =>
    simp only [system, System.ofNext, next] at h
    split at h
    · next it hch =>
      obtain rfl := Option.some.inj h
      have hit : s.it = it := by rw [State.it, hch]; rfl
      exact hs.endCheck hch (by rwa [← hit])
    · cases h
  | tick now =>
    obtain ⟨⟨-, hch⟩, h⟩ := Option.ite_none_right_eq_some.1 h
    obtain rfl := Option.some.inj h
    -- Time passes between two checks only, so no check is under way.
    have hit : s.it = none := by rw [State.it, Option.isNone_iff_eq_none.1 hch]; rfl
    refine ⟨hs.single, fun _ k hk => ?_, fun k hk => ?_⟩
    · obtain ⟨e, he⟩ := hs.scheduled hit k hk
      exact ⟨e, he.events, he.named, he.due⟩
    · cases hit.symm.trans hk
  | otherEvent =>
    obtain rfl := Option.some.inj h
    exact hs.of_hasKey rfl rfl rfl rfl (fun _ => id) fun _ _ => id
  | setDuration x duration =>
    obtain rfl := Option.some.inj h
    exact hs.of_hasKey rfl rfl rfl rfl (fun _ => id) fun _ _ => id

/-- In every run that keeps to what the map tells of the timer: when the map is not empty
    and no `checkDecay` is at work, exactly one event is pending, named by `eventId`, and due
    no later than the first bucket or 50 ms after it was scheduled; and when `checkDecay`
    schedules itself, it does for a bucket that is there. -/
theorem timed_of_idle {s : State I} (hs : system.ReachableVia KeepsTimer s) :
    (s.checking = none → ∀ k l, s.decayMap.entries.head? = some (k, l) →
      ∃ e, s.events = [e] ∧ s.eventId.toUInt64 = e.id ∧
        e.due ≤ max (e.scheduledAt + State.schedulerMinticks) k) ∧
    ∀ k, s.checking = some ⟨[], some k⟩ → (s.decayMap.lookup k).isSome := by
  have hboth : Timed s ∧ Stale s :=
    hs.invariant (I := fun s => Timed s ∧ Stale s)
      (fun _ h => ⟨timed_of_init h, fun x hx => absurd (h.2.2.2 x).1 hx⟩)
      fun _ _ _ h hok hstep => ⟨timed_next h.1 h.2 hok hstep, stale_next h.2 hstep⟩
  obtain ⟨htimed, -⟩ := hboth
  refine ⟨fun hidle k l hhead => ?_, fun k hch => ?_⟩
  · have hk : s.HasKey k := by
      rw [State.HasKey, SortedMap.lookup_of_head hhead]
      exact nofun
    have hit : s.it = none := by rw [State.it, hidle]; rfl
    obtain ⟨e, he⟩ := htimed.scheduled hit k hk
    exact ⟨e, he.events, he.named, he.due k hk⟩
  · have hit : s.it = some k := by rw [State.it, hch]; rfl
    exact Option.isSome_iff_ne_none.2 (htimed.stoppedAt k hit).2.1

/-- Two items are registered, the first one decays, and `checkDecay` is scheduled for the
    second. -/
theorem timed_of_idle_checkDecay : ∃ s : State Nat,
    s.decayMap.entries = [(150, [1])] ∧ ∃ e, s.events = [e] ∧ e.due ≤ 150 := by
  have hs : system.ReachableVia KeepsTimer _ :=
    System.reachableVia_of_foldlM (.init init_unregistered)
      (l := [.startDecay 0 true, .tick 50, .startDecay 1 true, .tick 100, .checkDecay ⟨1, 0, 100⟩,
        .checkItem true, .endCheck]) rfl
  obtain ⟨e, hev, -, hdue⟩ := (timed_of_idle hs).1 rfl 150 [1] rfl
  obtain rfl := List.singleton_inj.1 hev
  exact ⟨_, rfl, _, hev, hdue⟩

/-- An item is registered and stopped, and its event stays pending. The next item schedules
    another one. -/
theorem two_events :
    ¬ ∀ s : State Nat, system.Reachable s →
      (s.checking = none → ∀ k l, s.decayMap.entries.head? = some (k, l) →
        ∃ e, s.events = [e] ∧ s.eventId.toUInt64 = e.id ∧
          e.due ≤ max (e.scheduledAt + State.schedulerMinticks) k) ∧
      ∀ k, s.checking = some ⟨[], some k⟩ → (s.decayMap.lookup k).isSome := by
  intro h
  have hs : system.Reachable _ :=
    System.reachable_of_foldlM (.init init_unregistered)
      (l := [.startDecay 0 true, .stopDecay 0, .startDecay 1 true]) rfl
  obtain ⟨e, hev, -⟩ := (h _ hs).1 rfl 100 [1] rfl
  cases hev

end Canary.Decay
