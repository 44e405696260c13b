import Canary.Lib.Transition
import Mathlib.Data.Finset.Card
import Mathlib.Data.Finset.Insert

/-!
# Known creatures

A creature is described in full once, and from then on named by its number. The protocol of a
player keeps a set of the creatures that the client knows, of at most 1300. When there is no room
for another one, a creature is taken out of it, and the client told to forget it with the
description of the new one: the first that the player does not see and that is not a player of
the same party, if there is one, else just anyone.

The client is a set as well, and breaks when a message names a creature that it does not know.
Some messages describe a creature in full without a look at the set, to refresh it, so the two
sets are not the same. Still, in every run of messages, about any creatures, in any state of the
game, the client knows what the protocol takes it to know, and never breaks
(`client_of_reachable`). And a creature that the player sees or is in a party with is forgotten
only if all 1300 are such creatures (`forgotten_of_next`). As the code compares parties, two
players without one are in a party together.

The messages are those that describe creatures, and those about the party, which are sent from
afar. Left out are the others that name a creature, such as its health, speed, outfit and light:
they do not look at the set, and are meant for who sees the creature.

The set is hashed. In which order it is gone through is given with each message.
-/

namespace Canary.Network.KnownCreatures

open Transition

/-- What the game knows of a creature: the party of a player, which may be none, and whether the
    player of the protocol sees it. -/
structure Creature where
  player : Option (Option ℕ)
  canSee : Bool

/-- The game, as the protocol of a player finds it. -/
structure View where
  getCreatureByID : UInt32 → Option Creature
  party : Option ℕ

/-- The creature may be forgotten: it is not seen, and if it is a player, one of another party.
    Two players without a party count as being in the same one. -/
def View.forgettable (v : View) (id : UInt32) : Bool :=
  match v.getCreatureByID id with
  | none => true
  | some creature =>
    match creature.player with
    | some party => decide (v.party ≠ party) && !creature.canSee
    | none => !creature.canSee

/-- How many creatures are known at most. -/
def maxKnown : ℕ := 1300

/-- Just anyone but `id`: the first of the set, or the one behind. -/
def anyone (id : UInt32) : List UInt32 → Option UInt32
  | [] => none
  | a :: l => if a = id then l.head? else some a

/-- Whether the creature is known, which one to forget, and the set. The set with the creature is
    gone through in the order `order`. -/
def checkCreatureAsKnown (v : View) (order : List UInt32) (known : Finset UInt32) (id : UInt32) :
    Bool × UInt32 × Finset UInt32 :=
  if id ∈ known then (true, 0, known)
  else if (insert id known).card > maxKnown then
    match order.find? fun i => i ≠ id && v.forgettable i with
    | some removedKnown => (false, removedKnown, (insert id known).erase removedKnown)
    | none =>
      -- Bad situation.
      match anyone id order with
      | some removedKnown => (false, removedKnown, (insert id known).erase removedKnown)
      | none => (false, 0, insert id known)
  else (false, 0, insert id known)

/-! ## Messages -/

/-- What messages say of a creature: 0x61, with the one to forget, 0x62, or a part of what is shown
    of it, such as its health. -/
inductive Message where
  | unknown (remove id : UInt32)
  | known (id : UInt32)
  | status (id : UInt32)

/-- `AddCreature`. -/
def addCreature (id : UInt32) (known : Bool) (remove : UInt32) : Message :=
  if known then .known id else .unknown remove id

/-- A creature is described, as by `GetTileDescription`, `sendAddCreature` and
    `sendPartyCreatureUpdate`. -/
def describe (v : View) (order : List UInt32) (known : Finset UInt32) (id : UInt32) :
    List Message × Finset UInt32 :=
  let (isKnown, removedKnown, known) := checkCreatureAsKnown v order known id
  ([addCreature id isKnown removedKnown], known)

/-- The messages of a protocol, with the creature they are about. -/
inductive Call where
  | describe (id : UInt32)
  /-- `sendPartyCreatureShield`, `Skull`, `Health` and `sendPartyPlayerVocation`. -/
  | sendParty (id : UInt32)
  /-- `sendPartyPlayerMana` and `sendPartyCreatureShowStatus`, which go on after the update. -/
  | sendPartyAlways (id : UInt32)
  | reloadCreature (id : UInt32)
  | sendUpdateCreature (id : UInt32)
  | sendCreatureEmblem (id : UInt32)

/-- What is sent, and the set afterwards. -/
def send (v : View) (order : List UInt32) (known : Finset UInt32) :
    Call → List Message × Finset UInt32
  | .describe id => describe v order known id
  | .sendParty id =>
    if id ∈ known then ([.status id], known) else describe v order known id
  | .sendPartyAlways id =>
    if id ∈ known then ([.status id], known)
    else ((describe v order known id).1 ++ [.status id], (describe v order known id).2)
  | .reloadCreature id =>
    if id ∈ known then ([addCreature id false 0], known) else describe v order known id
  | .sendUpdateCreature id => ([addCreature id false 0], known)
  | .sendCreatureEmblem id => ([addCreature id false id], known)

/-- The client, which knows some creatures, gets a message. -/
def receive (held : Finset UInt32) : Message → Option (Finset UInt32)
  | .unknown remove id => some (insert id (if remove = 0 then held else held.erase remove))
  | .known id => if id ∈ held then some held else none
  | .status id => if id ∈ held then some held else none

/-! ## The system -/

/-- The set of the protocol, and the client, unless it broke. -/
structure Session where
  known : Finset UInt32
  client : Option (Finset UInt32)

/-- A message, the game at that time, and the order of the set. -/
structure Event where
  view : View
  order : List UInt32
  call : Call

/-- The creature that a message is about. -/
def Call.id : Call → UInt32
  | .describe id | .sendParty id | .sendPartyAlways id | .reloadCreature id
  | .sendUpdateCreature id | .sendCreatureEmblem id => id

/-- The order is one of the set with the creature. -/
def Session.Allows (s : Session) (e : Event) : Prop :=
  e.order.Nodup ∧ ∀ i, i ∈ e.order ↔ i ∈ insert e.call.id s.known

def Session.next (s : Session) (e : Event) : Session where
  known := (send e.view e.order s.known e.call).2
  client := s.client.bind fun held => (send e.view e.order s.known e.call).1.foldlM receive held

def system : System Session Event where
  init s := s.known = ∅ ∧ s.client = some ∅
  step s e s' := s.Allows e ∧ s' = s.next e

/-! ## What is known -/

variable {v : View} {order : List UInt32} {known held : Finset UInt32} {id : UInt32}

/-- What a check finds: the creature is known, or there is room, or one makes room for it. -/
inductive Checked (v : View) (known : Finset UInt32) (id : UInt32) :
    Bool × UInt32 × Finset UInt32 → Prop
  | known (h : id ∈ known) : Checked v known id (true, 0, known)
  | room (h : id ∉ known) (hroom : known.card < maxKnown) :
      Checked v known id (false, 0, insert id known)
  | removed (h : id ∉ known) (hfull : maxKnown ≤ known.card) {r : UInt32} (hr : r ∈ known)
      (hwhy : v.forgettable r = true ∨ ∀ i ∈ known, v.forgettable i = false) :
      Checked v known id (false, r, insert id (known.erase r))

theorem anyone_spec (id : UInt32) (hnodup : order.Nodup) (hlen : 1 < order.length) :
    ∃ r ∈ order, r ≠ id ∧ anyone id order = some r := by
  obtain _ | ⟨a, _ | ⟨b, l⟩⟩ := order
  · exact absurd hlen (by decide)
  · exact absurd hlen (by simp)
  · by_cases h : a = id
    · subst h
      refine ⟨b, by simp, ?_, by simp [anyone]⟩
      rintro rfl
      simp at hnodup
    · exact ⟨a, by simp, h, by simp [anyone, h]⟩

theorem checkCreatureAsKnown_spec (hnodup : order.Nodup)
    (horder : ∀ i, i ∈ order ↔ i ∈ insert id known) :
    Checked v known id (checkCreatureAsKnown v order known id) := by
  rw [checkCreatureAsKnown]
  by_cases hid : id ∈ known
  · rw [if_pos hid]
    exact .known hid
  · rw [if_neg hid, Finset.card_insert_of_notMem hid]
    by_cases hfull : known.card + 1 > maxKnown
    · have hin : ∀ i ∈ order, i ≠ id → i ∈ known := fun i hi hne =>
        (Finset.mem_insert.1 ((horder i).1 hi)).resolve_left hne
      rw [if_pos hfull]
      have hle : maxKnown ≤ known.card := Nat.le_of_lt_succ hfull
      split
      · -- The first that may be forgotten.
        next r hfind =>
        have hr := List.find?_some hfind
        rw [Bool.and_eq_true, decide_eq_true_iff] at hr
        rw [Finset.erase_insert_of_ne hr.1.symm]
        exact .removed hid hle (hin r (List.mem_of_find?_eq_some hfind) hr.1) (.inl hr.2)
      · next hfind =>
        rw [List.find?_eq_none] at hfind
        have hnone : ∀ i ∈ known, v.forgettable i = false := by
          intro i hi
          have hne : i ≠ id := fun heq => hid (heq ▸ hi)
          have hnot := hfind i ((horder i).2 (Finset.mem_insert_of_mem hi))
          rw [Bool.and_eq_true, decide_eq_true_iff] at hnot
          exact Bool.eq_false_iff.2 fun hf => hnot ⟨hne, hf⟩
        have hcard : order.length = known.card + 1 := by
          have hset : order.toFinset = insert id known := by
            refine Finset.ext fun i => ?_
            rw [List.mem_toFinset, horder]
          rw [← List.toFinset_card_of_nodup hnodup, hset, Finset.card_insert_of_notMem hid]
        have hmax : maxKnown = 1300 := rfl
        obtain ⟨r, hr, hne, hany⟩ := anyone_spec id hnodup (by omega)
        rw [hany]
        dsimp only
        rw [Finset.erase_insert_of_ne hne.symm]
        exact .removed hid hle (hin r hr hne) (.inr hnone)
    · rw [if_neg hfull]
      exact .room hid (Nat.lt_of_succ_le (Nat.le_of_not_lt hfull))

/-- The client knows what the protocol takes it to know, which is not too much. -/
structure Knows (known held : Finset UInt32) : Prop where
  subset : known ⊆ held
  card : known.card ≤ maxKnown

/-- A creature is described, and then it is known. -/
theorem Knows.describe (h : Knows known held) (hnodup : order.Nodup)
    (horder : ∀ i, i ∈ order ↔ i ∈ insert id known) :
    ∃ held', (describe v order known id).1.foldlM receive held = some held' ∧
      Knows (describe v order known id).2 held' ∧ id ∈ (describe v order known id).2 := by
  have hspec := checkCreatureAsKnown_spec (v := v) hnodup horder
  rw [KnownCreatures.describe]
  generalize checkCreatureAsKnown v order known id = r at hspec ⊢
  obtain hid | ⟨hid, hroom⟩ | ⟨hid, hfull, hr, -⟩ := hspec
  · exact ⟨held, by simp [addCreature, receive, h.subset hid], h, hid⟩
  · refine ⟨insert id held, by simp [addCreature, receive], ⟨?_, ?_⟩, Finset.mem_insert_self _ _⟩
    · exact Finset.insert_subset_insert _ h.subset
    · exact (Finset.card_insert_le _ _).trans hroom
  · next r =>
    refine ⟨insert id (if r = 0 then held else held.erase r),
      by simp [addCreature, receive], ⟨?_, ?_⟩, Finset.mem_insert_self _ _⟩
    · refine Finset.insert_subset_insert _ ?_
      split
      · exact (Finset.erase_subset _ _).trans h.subset
      · exact Finset.erase_subset_erase _ h.subset
    · have hcard := Finset.card_erase_add_one hr
      have hins := Finset.card_insert_le id (known.erase r)
      have hle := h.card
      dsimp only
      omega

/-- A creature is described in full, and stays known. -/
theorem Knows.refresh (h : Knows known held) (id remove : UInt32) (hr : remove = 0 ∨ remove = id) :
    ∃ held', [addCreature id false remove].foldlM receive held = some held' ∧
      Knows known held' := by
  refine ⟨insert id (if remove = 0 then held else held.erase remove),
    by simp [addCreature, receive], fun i hi => ?_, h.card⟩
  by_cases hid : i = id
  · exact hid ▸ Finset.mem_insert_self _ _
  · refine Finset.mem_insert_of_mem ?_
    split
    · exact h.subset hi
    · next hne =>
      obtain rfl := hr.resolve_left hne
      exact Finset.mem_erase.2 ⟨hid, h.subset hi⟩

/-- A message is about a creature that the client knows, or makes it known. -/
theorem Knows.send (h : Knows known held) (call : Call) (hnodup : order.Nodup)
    (horder : ∀ i, i ∈ order ↔ i ∈ insert call.id known) :
    ∃ held', (send v order known call).1.foldlM receive held = some held' ∧
      Knows (send v order known call).2 held' := by
  cases call with
  | describe id =>
    obtain ⟨held', hrun, hknows, -⟩ := h.describe (v := v) hnodup horder
    exact ⟨held', hrun, hknows⟩
  | sendParty id =>
    rw [KnownCreatures.send]
    split
    · next hid => exact ⟨held, by simp [receive, h.subset hid], h⟩
    · obtain ⟨held', hrun, hknows, -⟩ := h.describe (v := v) hnodup horder
      exact ⟨held', hrun, hknows⟩
  | sendPartyAlways id =>
    rw [KnownCreatures.send]
    split
    · next hid => exact ⟨held, by simp [receive, h.subset hid], h⟩
    · obtain ⟨held', hrun, hknows, hid⟩ := h.describe (v := v) hnodup horder
      refine ⟨held', ?_, hknows⟩
      dsimp only [Call.id] at hrun hid ⊢
      rw [List.foldlM_append, hrun]
      simp [receive, hknows.subset hid]
  | reloadCreature id =>
    rw [KnownCreatures.send]
    split
    · exact h.refresh id 0 (.inl rfl)
    · obtain ⟨held', hrun, hknows, -⟩ := h.describe (v := v) hnodup horder
      exact ⟨held', hrun, hknows⟩
  | sendUpdateCreature id => exact h.refresh id 0 (.inl rfl)
  | sendCreatureEmblem id => exact h.refresh id id (.inr rfl)

/-- What is taken out of the set when a message is sent: one creature at most, if there is no
    room, and it may be forgotten, or none may. -/
structure Forgets (v : View) (known known' : Finset UInt32) (i : UInt32) : Prop where
  full : known.card = maxKnown
  why : v.forgettable i = true ∨ ∀ j ∈ known, v.forgettable j = false
  only : ∀ j ∈ known, j ∉ known' → j = i

theorem Knows.forgets_of_describe (h : Knows known held) (hnodup : order.Nodup)
    (horder : ∀ i, i ∈ order ↔ i ∈ insert id known) {i : UInt32} (hi : i ∈ known)
    (hgone : i ∉ (KnownCreatures.describe v order known id).2) :
    Forgets v known (KnownCreatures.describe v order known id).2 i := by
  have hspec := checkCreatureAsKnown_spec (v := v) hnodup horder
  rw [KnownCreatures.describe] at hgone ⊢
  generalize checkCreatureAsKnown v order known id = r at hspec hgone ⊢
  obtain hid | ⟨hid, hroom⟩ | ⟨hid, hfull, hr, hwhy⟩ := hspec
  · exact absurd hi hgone
  · exact absurd (Finset.mem_insert_of_mem hi) hgone
  · next r =>
    have honly : ∀ j ∈ known, j ∉ insert id (known.erase r) → j = r := by
      intro j hj hgone'
      by_contra hne
      exact hgone' (Finset.mem_insert_of_mem (Finset.mem_erase.2 ⟨hne, hj⟩))
    obtain rfl := honly i hi hgone
    exact ⟨h.card.antisymm hfull, hwhy, honly⟩

theorem Knows.forgets (h : Knows known held) (call : Call) (hnodup : order.Nodup)
    (horder : ∀ i, i ∈ order ↔ i ∈ insert call.id known) {i : UInt32} (hi : i ∈ known)
    (hgone : i ∉ (KnownCreatures.send v order known call).2) :
    Forgets v known (KnownCreatures.send v order known call).2 i := by
  cases call with
  | describe id => exact h.forgets_of_describe hnodup horder hi hgone
  | sendParty id =>
    rw [KnownCreatures.send] at hgone ⊢
    split_ifs at hgone ⊢
    · exact absurd hi hgone
    · exact h.forgets_of_describe hnodup horder hi hgone
  | sendPartyAlways id =>
    rw [KnownCreatures.send] at hgone ⊢
    split_ifs at hgone ⊢
    · exact absurd hi hgone
    · exact h.forgets_of_describe hnodup horder hi hgone
  | reloadCreature id =>
    rw [KnownCreatures.send] at hgone ⊢
    split_ifs at hgone ⊢
    · exact absurd hi hgone
    · exact h.forgets_of_describe hnodup horder hi hgone
  | sendUpdateCreature id => exact absurd hi hgone
  | sendCreatureEmblem id => exact absurd hi hgone

/-- The protocol and the client. -/
def Session.Sound (s : Session) : Prop := ∃ held, s.client = some held ∧ Knows s.known held

theorem Session.Sound.next {s : Session} (h : s.Sound) {e : Event} (he : s.Allows e) :
    (s.next e).Sound := by
  obtain ⟨held, hclient, hknows⟩ := h
  obtain ⟨held', hrun, hknows'⟩ := hknows.send (v := e.view) e.call he.1 he.2
  exact ⟨held', by rw [Session.next, hclient]; exact hrun, hknows'⟩

/-- In every run the client does not break, and knows what the protocol takes it to know, which
    is not more than there is room for; and what the next message makes the protocol forget is
    one creature at most, if there is no room, and one that may be forgotten, or none may. -/
theorem client_of_reachable {s : Session} (hs : system.Reachable s) :
    (∃ held, s.client = some held ∧ s.known ⊆ held) ∧ s.known.card ≤ maxKnown ∧
      ∀ e, s.Allows e → ∀ i ∈ s.known, i ∉ (s.next e).known →
        Forgets e.view s.known (s.next e).known i := by
  have hsound : s.Sound := by
    refine hs.invariant (fun s₀ h₀ => ?_) fun s₁ e s₂ h₁ _ hstep => ?_
    · obtain ⟨hknown, hclient⟩ := h₀
      refine ⟨∅, hclient, hknown ▸ Finset.Subset.refl _, ?_⟩
      rw [hknown]
      exact Nat.zero_le _
    · obtain ⟨hallows, rfl⟩ := hstep
      exact h₁.next hallows
  obtain ⟨held, hclient, hknows⟩ := hsound
  exact ⟨⟨held, hclient, hknows.subset⟩, hknows.card,
    fun e he i hi hgone => hknows.forgets e.call he.1 he.2 hi hgone⟩

/-- A creature is described to a client that knows none. -/
theorem client_of_first :
    ∃ s : Session, system.Reachable s ∧ s.known = {7} ∧
      ∃ held, s.client = some held ∧ s.known ⊆ held := by
  let view : View := ⟨fun _ => none, none⟩
  let start : Session := ⟨∅, some ∅⟩
  have hstart : system.Reachable start := .init ⟨rfl, rfl⟩
  have hstep : system.step start ⟨view, [7], .describe 7⟩ (start.next ⟨view, [7], .describe 7⟩) :=
    ⟨⟨List.nodup_singleton _, fun i => by simp [start, Call.id]⟩, rfl⟩
  have hreach := hstart.step trivial hstep
  exact ⟨_, hreach, rfl, (client_of_reachable hreach).1⟩

end Canary.Network.KnownCreatures
