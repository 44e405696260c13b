import Canary.Map.Spectators
import Mathlib.Data.Finset.Card
import Mathlib.Data.List.Perm.Basic

/-!
# Chain combat

A chain goes from creature to creature, each time to the nearest one around that may be hit and
has not been. What was hit is kept on a stack; when there is nobody around the last one, a chain
with backtracking goes on from the one before it.

For every field of creatures the search ends, whatever the answers of the searches for
spectators (`pickChainTargets_spec`). The creatures it picks are all different; each was found
around one that was picked before, in sight of it, and none of those found there was nearer that
had not been picked or refused before. A chain without backtracking is a path, of one creature
more than asked for at most. A creature that is refused once, because it is out of sight, is not
looked at again from anywhere.

The number of targets is a byte. It is raised by one for a chain that starts at the caster, so
255 becomes 0, and nobody is picked (`pickChainTargets_wraps`).
-/

namespace Canary.Combat.ChainTargets

open Map (Position)

structure Creature where
  id : ℕ
  position : Position
  deriving DecidableEq

/-- The creatures there are, the spectators that the searches find, one after the other, and what
    a creature has to pass to be picked: `canDoCombat`, the script of the spell and the line of
    sight. -/
structure Field where
  creatures : List Creature
  find : ℕ → Position → List Creature
  canDoCombat : Creature → Bool
  onChainCombat : Creature → Bool
  isSightClear : Position → Position → Bool
  find_mem : ∀ n pos, ∀ c ∈ find n pos, c ∈ creatures
  ids : ∀ c ∈ creatures, ∀ c' ∈ creatures, c.id = c'.id → c = c'

namespace Field

variable (f : Field)

def isValidChainTarget (currentTarget potentialTarget : Creature) : Bool :=
  f.canDoCombat potentialTarget && f.onChainCombat potentialTarget &&
    f.isSightClear currentTarget.position potentialTarget.position

/-- The square of the distance on the plane. -/
def distance (c c' : Creature) : ℕ :=
  (c.position.ix - c'.position.ix).natAbs ^ 2 + (c.position.iy - c'.position.iy).natAbs ^ 2

/-- A spectator is looked at, with what was visited and the closest one so far. -/
def look (currentTarget : Creature) (s : Finset ℕ × Option Creature) (spectator : Creature) :
    Finset ℕ × Option Creature :=
  if spectator.id ∈ s.1 then s
  else if !f.isValidChainTarget currentTarget spectator then (insert spectator.id s.1, s.2)
  else
    match s.2 with
    | none => (s.1, some spectator)
    | some closest =>
      if distance currentTarget spectator < distance currentTarget closest then
        (s.1, some spectator)
      else s

/-- The spectators around a target are looked at. -/
def search (n : ℕ) (currentTarget : Creature) (visited : Finset ℕ) : Finset ℕ × Option Creature :=
  (f.find n currentTarget.position).foldl (f.look currentTarget) (visited, none)

end Field

/-- The targets by the position from which they are hit. -/
abbrev ResultMap := List (Position × List ℕ)

/-- A target is added to those hit from a position. -/
def addTarget (pos : Position) (id : ℕ) : ResultMap → ResultMap
  | [] => [(pos, [id])]
  | (pos', vec) :: l =>
    if pos' = pos then (pos', vec ++ [id]) :: l else (pos', vec) :: addTarget pos id l

/-- The loop's variables, with the last target first, and the number of searches so far. -/
structure State where
  targets : List Creature
  visited : Finset ℕ
  resultMap : ResultMap
  searches : ℕ

def maxBacktrackingAttempts : ℕ := 10

def loop (f : Field) (maxTargets : UInt8) (backtracking : Bool) : ℕ → State → Option ResultMap
  | 0, _ => none
  | fuel + 1, s =>
    match s.targets with
    | [] => some s.resultMap
    | currentTarget :: rest =>
      if s.targets.length ≤ maxTargets.toNat then
        let (visited, closest) := f.search s.searches currentTarget s.visited
        match closest with
        | some spectator =>
          loop f maxTargets backtracking fuel
            { targets := spectator :: s.targets
              visited := insert spectator.id visited
              resultMap := addTarget currentTarget.position spectator.id s.resultMap
              searches := s.searches + 1 }
        | none =>
          if backtracking && decide (rest.length ≤ maxBacktrackingAttempts) then
            loop f maxTargets backtracking fuel
              { s with targets := rest, visited := visited, searches := s.searches + 1 }
          else some s.resultMap
      else some s.resultMap

/-- The initial target, if it is one. -/
def firstTarget (caster : Creature) : Option Creature → Option Creature
  | some initialTarget => if initialTarget ≠ caster then some initialTarget else none
  | none => none

def pickChainTargets (f : Field) (fuel : ℕ) (caster : Option Creature)
    (initialTarget : Option Creature) (maxTargets : UInt8) (backtracking : Bool) :
    Option ResultMap :=
  match caster with
  | none => some []
  | some caster =>
    match firstTarget caster initialTarget with
    | some target =>
      loop f maxTargets backtracking fuel
        { targets := [target], visited := {target.id},
          resultMap := [(caster.position, [target.id])], searches := 0 }
    | none =>
      loop f (maxTargets + 1) backtracking fuel
        { targets := [caster], visited := ∅, resultMap := [], searches := 0 }

/-! ## A search -/

/-- What is known after some spectators were looked at. -/
structure Searched (f : Field) (currentTarget : Creature) (before : Finset ℕ) (l : List Creature)
    (s : Finset ℕ × Option Creature) : Prop where
  visited : before ⊆ s.1
  refused : ∀ i ∈ s.1, i ∈ before ∨
    ∃ c ∈ l, c.id = i ∧ f.isValidChainTarget currentTarget c = false
  fresh : ∀ t, s.2 = some t → t ∈ l ∧ t.id ∉ s.1 ∧ f.isValidChainTarget currentTarget t = true
  nearest : ∀ t, s.2 = some t → ∀ c ∈ l, c.id ∈ s.1 ∨
    Field.distance currentTarget t ≤ Field.distance currentTarget c
  none : s.2 = none → ∀ c ∈ l, c.id ∈ s.1

section Search

variable {f : Field} {currentTarget : Creature} {visited : Finset ℕ} {l : List Creature}
  {s : Finset ℕ × Option Creature}

/-- One more creature that was visited. -/
theorem Searched.skip (h : Searched f currentTarget visited l s) {c : Creature} (hc : c.id ∈ s.1) :
    Searched f currentTarget visited (l ++ [c]) s where
  visited := h.visited
  refused i hi := (h.refused i hi).imp_right fun ⟨d, hd, hrest⟩ =>
    ⟨d, List.mem_append_left _ hd, hrest⟩
  fresh t ht := ⟨List.mem_append_left _ (h.fresh t ht).1, (h.fresh t ht).2⟩
  nearest t ht d hd := (List.mem_append.1 hd).elim (h.nearest t ht d) fun hd =>
    .inl (List.mem_singleton.1 hd ▸ hc)
  none ht d hd := (List.mem_append.1 hd).elim (h.none ht d) fun hd => List.mem_singleton.1 hd ▸ hc

/-- One that is refused. -/
theorem Searched.refuse (h : Searched f currentTarget visited l s) (hl : ∀ d ∈ l, d ∈ f.creatures)
    {c : Creature} (hmem : c ∈ f.creatures)
    (hc : f.isValidChainTarget currentTarget c = false) :
    Searched f currentTarget visited (l ++ [c]) (insert c.id s.1, s.2) where
  visited := h.visited.trans (Finset.subset_insert _ _)
  refused i hi := by
    obtain rfl | hi := Finset.mem_insert.1 hi
    · exact .inr ⟨c, List.mem_append_right _ (List.mem_singleton_self c), rfl, hc⟩
    · exact (h.refused i hi).imp_right fun ⟨d, hd, hrest⟩ =>
        ⟨d, List.mem_append_left _ hd, hrest⟩
  fresh t ht := by
    obtain ⟨htl, hvisited, hvalid⟩ := h.fresh t ht
    refine ⟨List.mem_append_left _ htl, fun hin => ?_, hvalid⟩
    obtain hid | hin := Finset.mem_insert.1 hin
    · -- The closest one was not refused.
      rw [f.ids t (hl t htl) c hmem hid, hc] at hvalid
      exact Bool.false_ne_true hvalid
    · exact hvisited hin
  nearest t ht d hd := by
    obtain hd | hd := List.mem_append.1 hd
    · exact (h.nearest t ht d hd).imp_left (Finset.mem_insert_of_mem ·)
    · exact .inl (List.mem_singleton.1 hd ▸ Finset.mem_insert_self _ _)
  none ht d hd := by
    obtain hd | hd := List.mem_append.1 hd
    · exact Finset.mem_insert_of_mem (h.none ht d hd)
    · exact List.mem_singleton.1 hd ▸ Finset.mem_insert_self _ _

/-- One that is the closest so far. -/
theorem Searched.take (h : Searched f currentTarget visited l s) {c : Creature} (hc : c.id ∉ s.1)
    (hvalid : f.isValidChainTarget currentTarget c = true)
    (hcloser : ∀ t, s.2 = some t →
      Field.distance currentTarget c ≤ Field.distance currentTarget t) :
    Searched f currentTarget visited (l ++ [c]) (s.1, some c) where
  visited := h.visited
  refused i hi := (h.refused i hi).imp_right fun ⟨d, hd, hrest⟩ =>
    ⟨d, List.mem_append_left _ hd, hrest⟩
  fresh t ht := by
    obtain rfl := Option.some.inj ht
    exact ⟨List.mem_append_right _ (List.mem_singleton_self _), hc, hvalid⟩
  nearest t ht d hd := by
    obtain rfl := Option.some.inj ht
    obtain hd | hd := List.mem_append.1 hd
    · obtain hnone | ⟨t, ht⟩ := Option.eq_none_or_eq_some s.2
      · exact .inl (h.none hnone d hd)
      · exact (h.nearest t ht d hd).imp_right (hcloser t ht).trans
    · exact .inr (List.mem_singleton.1 hd ▸ le_rfl)
  none ht := by cases ht

/-- One that is not closer. -/
theorem Searched.leave (h : Searched f currentTarget visited l s) {c t : Creature}
    (ht : s.2 = some t) (hfar : Field.distance currentTarget t ≤ Field.distance currentTarget c) :
    Searched f currentTarget visited (l ++ [c]) s where
  visited := h.visited
  refused i hi := (h.refused i hi).imp_right fun ⟨d, hd, hrest⟩ =>
    ⟨d, List.mem_append_left _ hd, hrest⟩
  fresh t ht := ⟨List.mem_append_left _ (h.fresh t ht).1, (h.fresh t ht).2⟩
  nearest t' ht' d hd := by
    obtain hd | hd := List.mem_append.1 hd
    · exact h.nearest t' ht' d hd
    · obtain rfl := Option.some.inj (ht.symm.trans ht')
      exact .inr (List.mem_singleton.1 hd ▸ hfar)
  none hnone := by rw [ht] at hnone; cases hnone

theorem Searched.look (h : Searched f currentTarget visited l s) (hl : ∀ d ∈ l, d ∈ f.creatures)
    {c : Creature} (hmem : c ∈ f.creatures) :
    Searched f currentTarget visited (l ++ [c]) (f.look currentTarget s c) := by
  rw [Field.look]
  by_cases hvisited : c.id ∈ s.1
  · rw [if_pos hvisited]
    exact h.skip hvisited
  rw [if_neg hvisited]
  by_cases hvalid : f.isValidChainTarget currentTarget c = true
  · rw [hvalid, Bool.not_true, if_neg Bool.false_ne_true]
    obtain hnone | ⟨t, ht⟩ := Option.eq_none_or_eq_some s.2
    · rw [hnone]
      exact h.take hvisited hvalid fun t ht => by rw [hnone] at ht; cases ht
    · rw [ht]
      dsimp only
      split
      · next hlt =>
        refine h.take hvisited hvalid fun t' ht' => ?_
        obtain rfl := Option.some.inj (ht.symm.trans ht')
        exact hlt.le
      · next hge => exact h.leave ht (Nat.le_of_not_lt hge)
  · rw [Bool.eq_false_iff.2 hvalid, Bool.not_false, if_pos rfl]
    exact h.refuse hl hmem (Bool.eq_false_iff.2 hvalid)

/-- A search passes over what was visited and what it refuses, and takes the nearest of the
    others. -/
theorem search_spec (f : Field) (n : ℕ) (currentTarget : Creature) (visited : Finset ℕ) :
    Searched f currentTarget visited (f.find n currentTarget.position)
      (f.search n currentTarget visited) := by
  have hall : ∀ l : List Creature, (∀ d ∈ l, d ∈ f.creatures) →
      Searched f currentTarget visited l (l.foldl (f.look currentTarget) (visited, none)) := by
    intro l
    induction l using List.reverseRecOn with
    | nil =>
      intro _
      exact ⟨Finset.Subset.refl _, fun i hi => .inl hi,
        fun t ht => (Option.some_ne_none t ht.symm).elim,
        fun t ht => (Option.some_ne_none t ht.symm).elim,
        fun _ d hd => absurd hd List.not_mem_nil⟩
    | append_singleton l c ih =>
      intro hl
      have hprefix : ∀ d ∈ l, d ∈ f.creatures := fun d hd => hl d (List.mem_append_left _ hd)
      rw [List.foldl_concat]
      exact (ih hprefix).look hprefix
        (hl c (List.mem_append_right _ (List.mem_singleton_self c)))
  exact hall _ (f.find_mem n _)

end Search

/-! ## Chains -/

/-- A step of a chain, with what was visited before it. -/
structure Link where
  source : Creature
  target : Creature
  passed : Finset ℕ

/-- Where a chain starts: at a target that is picked, or at the caster. -/
structure Start where
  creature : Creature
  picked : Bool

def Start.ids (start : Start) : List ℕ := if start.picked then [start.creature.id] else []

section Chains

variable (f : Field) (start : Start)

/-- Where a chain may go on, the last one first. -/
def sources (links : List Link) : List Creature := links.map Link.target ++ [start.creature]

/-- What was picked, the last one first. -/
def picked (links : List Link) : List ℕ := links.map (fun k => k.target.id) ++ start.ids

/-- A creature that was visited was picked, or refused from one of the sources. -/
def Visited (links : List Link) (i : ℕ) : Prop :=
  i ∈ picked start links ∨ ∃ source ∈ sources start links, ∃ c ∈ f.creatures,
    c.id = i ∧ f.isValidChainTarget source c = false

/-- A link that follows others. -/
structure Follows (links : List Link) (k : Link) : Prop where
  source : k.source ∈ sources start links
  valid : f.isValidChainTarget k.source k.target = true
  nearest : ∃ n, k.target ∈ f.find n k.source.position ∧
    ∀ c ∈ f.find n k.source.position, c.id ∈ k.passed ∨
      Field.distance k.source k.target ≤ Field.distance k.source c
  fresh : k.target.id ∉ k.passed
  hits : ∀ i ∈ picked start links, i ∈ k.passed
  passed : ∀ i ∈ k.passed, Visited f start links i

/-- The links of a chain, the last one first. -/
inductive Chain : List Link → Prop
  | nil : Chain []
  | cons {links : List Link} {k : Link} : Chain links → Follows f start links k → Chain (k :: links)

/-- The targets under the positions from which they are hit. -/
def group (init : ResultMap) (links : List Link) : ResultMap :=
  links.foldr (fun k m => addTarget k.source.position k.target.id m) init

end Chains

variable {f : Field} {start : Start} {links : List Link}

/-- No creature is picked twice. -/
theorem Chain.nodup (h : Chain f start links) : (picked start links).Nodup := by
  induction h with
  | nil =>
    rw [picked, List.map_nil, List.nil_append, Start.ids]
    split
    · exact List.nodup_singleton _
    · exact List.nodup_nil
  | @cons links k _ hk ih =>
    exact List.nodup_cons.2 ⟨fun hmem => hk.fresh (hk.hits _ hmem), ih⟩

theorem flatMap_addTarget (pos : Position) (id : ℕ) (m : ResultMap) :
    ((addTarget pos id m).flatMap Prod.snd).Perm (id :: m.flatMap Prod.snd) := by
  induction m with
  | nil => exact List.Perm.refl _
  | cons entry m ih =>
    obtain ⟨pos', vec⟩ := entry
    rw [addTarget]
    split
    · rw [List.flatMap_cons, List.flatMap_cons, List.append_assoc]
      exact List.perm_middle
    · rw [List.flatMap_cons, List.flatMap_cons]
      exact (ih.append_left vec).trans List.perm_middle

/-- The map holds what was picked. -/
theorem flatMap_group {init : ResultMap} (hinit : init.flatMap Prod.snd = start.ids) :
    ((group init links).flatMap Prod.snd).Perm (picked start links) := by
  induction links with
  | nil =>
    rw [group, List.foldr_nil, hinit]
    exact List.Perm.refl _
  | cons k links ih => exact (flatMap_addTarget _ _ _).trans (ih.cons _)

theorem Visited.mono {k : Link} {i : ℕ} (h : Visited f start links i) :
    Visited f start (k :: links) i := by
  obtain hpicked | ⟨source, hsource, hrest⟩ := h
  · exact .inl (List.mem_cons_of_mem _ hpicked)
  · exact .inr ⟨source, List.mem_cons_of_mem _ hsource, hrest⟩

/-! ## The loop -/

/-- The loop's variables, when the links `links` have been made. -/
structure Inv (f : Field) (start : Start) (init : ResultMap) (maxTargets : UInt8)
    (backtracking : Bool) (links : List Link) (s : State) : Prop where
  chain : Chain f start links
  targets : ∀ t ∈ s.targets, t ∈ sources start links
  hits : ∀ i ∈ picked start links, i ∈ s.visited
  visited : ∀ i ∈ s.visited, Visited f start links i
  result : s.resultMap = group init links
  bounded : s.targets.length ≤ maxTargets.toNat + 1
  path : backtracking = false → s.targets = sources start links ∧
    links.map Link.source = (sources start links).tail

/-- What the loop has still to do at most. -/
def State.rest (f : Field) (s : State) : ℕ :=
  2 * ((f.creatures.map Creature.id).toFinset \ s.visited).card + s.targets.length

section Loop

variable {init : ResultMap} {maxTargets : UInt8} {backtracking : Bool} {s : State}
  {currentTarget : Creature} {rest : List Creature} {visited : Finset ℕ}

/-- What a search finds, of the state. -/
theorem Inv.searched (h : Inv f start init maxTargets backtracking links s)
    (htargets : s.targets = currentTarget :: rest) {closest : Option Creature}
    (hsearch : Searched f currentTarget s.visited (f.find s.searches currentTarget.position)
      (visited, closest)) :
    (∀ i ∈ picked start links, i ∈ visited) ∧ ∀ i ∈ visited, Visited f start links i := by
  refine ⟨fun i hi => hsearch.visited (h.hits i hi), fun i hi => ?_⟩
  obtain hi | ⟨c, hc, hid, hinvalid⟩ := hsearch.refused i hi
  · exact h.visited i hi
  · have hsource := h.targets currentTarget (htargets ▸ List.mem_cons_self)
    exact .inr ⟨currentTarget, hsource, c, f.find_mem _ _ c hc, hid, hinvalid⟩

/-- The chain goes on to the creature that was found. -/
theorem Inv.push (h : Inv f start init maxTargets backtracking links s)
    (htargets : s.targets = currentTarget :: rest)
    (hle : s.targets.length ≤ maxTargets.toNat) {spectator : Creature}
    (hsearch : Searched f currentTarget s.visited (f.find s.searches currentTarget.position)
      (visited, some spectator)) :
    Inv f start init maxTargets backtracking (⟨currentTarget, spectator, visited⟩ :: links)
      { targets := spectator :: s.targets
        visited := insert spectator.id visited
        resultMap := addTarget currentTarget.position spectator.id s.resultMap
        searches := s.searches + 1 } := by
  obtain ⟨hpicked, hvisited⟩ := h.searched htargets hsearch
  obtain ⟨hfound, hfresh, hvalid⟩ := hsearch.fresh spectator rfl
  refine ⟨.cons h.chain ⟨?_, hvalid, ⟨s.searches, hfound, hsearch.nearest spectator rfl⟩, hfresh,
    hpicked, hvisited⟩, ?_, ?_, ?_, ?_, ?_, ?_⟩
  · exact h.targets currentTarget (htargets ▸ List.mem_cons_self)
  · intro t ht
    obtain rfl | ht := List.mem_cons.1 ht
    · exact List.mem_cons_self
    · exact List.mem_cons_of_mem _ (h.targets t ht)
  · intro i hi
    obtain rfl | hi := List.mem_cons.1 hi
    · exact Finset.mem_insert_self _ _
    · exact Finset.mem_insert_of_mem (hpicked i hi)
  · intro i hi
    obtain rfl | hi := Finset.mem_insert.1 hi
    · exact .inl List.mem_cons_self
    · exact (hvisited i hi).mono
  · dsimp only
    rw [h.result]
    rfl
  · exact Nat.succ_le_succ hle
  · intro hb
    obtain ⟨hall, hsources⟩ := h.path hb
    refine ⟨congrArg (spectator :: ·) hall, ?_⟩
    -- The source is the last target, since none was taken off the stack.
    have hhead : currentTarget :: rest = sources start links := htargets.symm.trans hall
    have htail : (sources start (⟨currentTarget, spectator, visited⟩ :: links)).tail =
        sources start links := rfl
    rw [htail, List.map_cons, hsources, ← hhead, List.tail_cons]

/-- The last target is taken off the stack. -/
theorem Inv.pop (h : Inv f start init maxTargets backtracking links s)
    (htargets : s.targets = currentTarget :: rest) (hb : backtracking = true)
    (hsearch : Searched f currentTarget s.visited (f.find s.searches currentTarget.position)
      (visited, none)) :
    Inv f start init maxTargets backtracking links
      { s with targets := rest, visited := visited, searches := s.searches + 1 } := by
  obtain ⟨hpicked, hvisited⟩ := h.searched htargets hsearch
  refine ⟨h.chain, fun t ht => h.targets t (htargets ▸ List.mem_cons_of_mem _ ht), hpicked,
    hvisited, h.result, ?_, fun hfalse => ?_⟩
  · have hbounded := h.bounded
    rw [htargets, List.length_cons] at hbounded
    exact Nat.le_of_succ_le hbounded
  · rw [hb] at hfalse
    cases hfalse

/-- The loop ends, with a chain. -/
theorem loop_spec (h : Inv f start init maxTargets backtracking links s) {fuel : ℕ}
    (hfuel : s.rest f < fuel) :
    ∃ links, loop f maxTargets backtracking fuel s = some (group init links) ∧
      Chain f start links ∧ (backtracking = false → links.length ≤ maxTargets.toNat ∧
        links.map Link.source = (sources start links).tail) := by
  induction fuel generalizing s links with
  | zero => exact absurd hfuel (Nat.not_lt_zero _)
  | succ fuel ih =>
    have hend : Chain f start links ∧ (backtracking = false → links.length ≤ maxTargets.toNat ∧
        links.map Link.source = (sources start links).tail) := by
      refine ⟨h.chain, fun hb => ⟨?_, (h.path hb).2⟩⟩
      have hbounded := h.bounded
      rw [(h.path hb).1, sources, List.length_append, List.length_map] at hbounded
      exact Nat.le_of_succ_le_succ hbounded
    rw [loop]
    split
    · exact ⟨links, by rw [h.result], hend⟩
    · next currentTarget rest htargets =>
      split
      · next hle =>
        have hsearch := search_spec f s.searches currentTarget s.visited
        generalize f.search s.searches currentTarget s.visited = r at hsearch ⊢
        obtain ⟨visited, closest⟩ := r
        have hsdiff : ((f.creatures.map Creature.id).toFinset \ visited).card ≤
            ((f.creatures.map Creature.id).toFinset \ s.visited).card :=
          Finset.card_le_card (Finset.sdiff_subset_sdiff (Finset.Subset.refl _) hsearch.visited)
        have hlength : s.targets.length = rest.length + 1 := by rw [htargets, List.length_cons]
        rw [State.rest] at hfuel
        dsimp only
        split
        · next spectator =>
          -- One more creature is visited, and one more is on the stack.
          refine ih (h.push htargets hle hsearch) ?_
          obtain ⟨hfound, hfresh, -⟩ := hsearch.fresh spectator rfl
          have hid : spectator.id ∈ (f.creatures.map Creature.id).toFinset \ visited :=
            Finset.mem_sdiff.2 ⟨List.mem_toFinset.2
              (List.mem_map_of_mem (f.find_mem _ _ _ hfound)), hfresh⟩
          have herase : (f.creatures.map Creature.id).toFinset \ insert spectator.id visited =
              ((f.creatures.map Creature.id).toFinset \ visited).erase spectator.id :=
            Finset.sdiff_insert _ _ _
          have hcard := Finset.card_erase_add_one hid
          rw [State.rest]
          dsimp only
          rw [herase, List.length_cons]
          omega
        · split
          · next hpop =>
            rw [Bool.and_eq_true] at hpop
            refine ih (h.pop htargets hpop.1 hsearch) ?_
            rw [State.rest]
            dsimp only
            omega
          · exact ⟨links, by rw [h.result], hend⟩
      · exact ⟨links, by rw [h.result], hend⟩

end Loop

/-! ## The targets -/

/-- Where the chain of a caster starts. -/
def chainStart (caster : Creature) (initialTarget : Option Creature) : Start :=
  match firstTarget caster initialTarget with
  | some target => ⟨target, true⟩
  | none => ⟨caster, false⟩

/-- The targets there are at the start. -/
def firstTargets (caster : Creature) (initialTarget : Option Creature) : ResultMap :=
  match firstTarget caster initialTarget with
  | some target => [(caster.position, [target.id])]
  | none => []

/-- At the start there are no links. -/
theorem inv_start (f : Field) (start : Start) (init : ResultMap) (maxTargets : UInt8)
    (backtracking : Bool) :
    Inv f start init maxTargets backtracking []
      { targets := [start.creature], visited := start.ids.toFinset, resultMap := init,
        searches := 0 } where
  chain := .nil
  targets _ ht := ht
  hits _ hi := List.mem_toFinset.2 hi
  visited _ hi := .inl (List.mem_toFinset.1 hi)
  result := rfl
  bounded := Nat.succ_le_succ (Nat.zero_le _)
  path _ := ⟨rfl, rfl⟩

/-- The search for targets ends. It picks creatures that are all different, along a chain that
    starts at the initial target or at the caster; without backtracking along a path, and at most
    one more than asked for. -/
theorem pickChainTargets_spec (f : Field) (caster : Creature) (initialTarget : Option Creature)
    (maxTargets : UInt8) (backtracking : Bool) {fuel : ℕ}
    (hfuel : 2 * f.creatures.length + 1 < fuel) :
    ∃ links, pickChainTargets f fuel (some caster) initialTarget maxTargets backtracking =
        some (group (firstTargets caster initialTarget) links) ∧
      Chain f (chainStart caster initialTarget) links ∧
      ((group (firstTargets caster initialTarget) links).flatMap Prod.snd).Perm
        (picked (chainStart caster initialTarget) links) ∧
      (picked (chainStart caster initialTarget) links).Nodup ∧
      (backtracking = false →
        (picked (chainStart caster initialTarget) links).length ≤ maxTargets.toNat + 1 ∧
        links.map Link.source = (sources (chainStart caster initialTarget) links).tail) := by
  have hrest : ∀ s : State, s.targets.length = 1 → s.rest f < fuel := by
    intro s hs
    have hcard : ((f.creatures.map Creature.id).toFinset \ s.visited).card ≤
        f.creatures.length :=
      (Finset.card_le_card Finset.sdiff_subset).trans
        ((List.toFinset_card_le _).trans (List.length_map _).le)
    rw [State.rest, hs]
    omega
  rw [pickChainTargets, chainStart, firstTargets]
  obtain hnone | ⟨target, htarget⟩ := Option.eq_none_or_eq_some (firstTarget caster initialTarget)
  · -- From the caster, who is not picked.
    rw [hnone]
    obtain ⟨links, hloop, hchain, hpath⟩ :=
      loop_spec (inv_start f ⟨caster, false⟩ [] (maxTargets + 1) backtracking) (hrest _ rfl)
    refine ⟨links, hloop, hchain, flatMap_group rfl, hchain.nodup, fun hb => ?_⟩
    obtain ⟨hlen, hsources⟩ := hpath hb
    refine ⟨?_, hsources⟩
    have hwrap : (maxTargets + 1).toNat ≤ maxTargets.toNat + 1 := by
      rw [UInt8.toNat_add]
      exact Nat.mod_le _ _
    have hpicked : (picked ⟨caster, false⟩ links).length = links.length := by
      rw [picked, List.length_append, List.length_map]
      rfl
    exact hpicked.trans_le (hlen.trans hwrap)
  · -- From the initial target.
    rw [htarget]
    obtain ⟨links, hloop, hchain, hpath⟩ :=
      loop_spec (inv_start f ⟨target, true⟩ [(caster.position, [target.id])] maxTargets
        backtracking) (hrest _ rfl)
    refine ⟨links, hloop, hchain, flatMap_group rfl, hchain.nodup, fun hb => ?_⟩
    obtain ⟨hlen, hsources⟩ := hpath hb
    refine ⟨?_, hsources⟩
    have hpicked : (picked ⟨target, true⟩ links).length = links.length + 1 := by
      rw [picked, List.length_append, List.length_map]
      rfl
    exact hpicked.trans_le (Nat.succ_le_succ hlen)

/-- Four creatures in a row, two squares apart, of whom the first cannot be hit. -/
def row : Field where
  creatures := [⟨0, ⟨100, 100, 7⟩⟩, ⟨1, ⟨102, 100, 7⟩⟩, ⟨2, ⟨104, 100, 7⟩⟩, ⟨3, ⟨106, 100, 7⟩⟩]
  find _ _ := [⟨3, ⟨106, 100, 7⟩⟩, ⟨2, ⟨104, 100, 7⟩⟩, ⟨1, ⟨102, 100, 7⟩⟩, ⟨0, ⟨100, 100, 7⟩⟩]
  canDoCombat c := c.id ≠ 0
  onChainCombat _ := true
  isSightClear _ _ := true
  find_mem _ _ := by decide
  ids := by decide

/-- With one target asked for, the first of the row hits the two next to it. -/
theorem pickChainTargets_row :
    pickChainTargets row 10 (some ⟨0, ⟨100, 100, 7⟩⟩) none 1 false =
      some [(⟨100, 100, 7⟩, [1]), (⟨102, 100, 7⟩, [2])] ∧
    ∃ links, pickChainTargets row 10 (some ⟨0, ⟨100, 100, 7⟩⟩) none 1 false =
        some (group (firstTargets ⟨0, ⟨100, 100, 7⟩⟩ none) links) ∧
      Chain row (chainStart ⟨0, ⟨100, 100, 7⟩⟩ none) links := by
  have hfuel : 2 * row.creatures.length + 1 < 10 := by decide
  refine ⟨by decide, ?_⟩
  obtain ⟨links, hpick, hchain, -⟩ :=
    pickChainTargets_spec row ⟨0, ⟨100, 100, 7⟩⟩ none 1 false hfuel
  exact ⟨links, hpick, hchain⟩

/-- A chain of 255 targets from the caster picks nobody. -/
theorem pickChainTargets_wraps (f : Field) (fuel : ℕ) (caster : Creature) (backtracking : Bool) :
    pickChainTargets f (fuel + 1) (some caster) none 255 backtracking = some [] := rfl

end Canary.Combat.ChainTargets
