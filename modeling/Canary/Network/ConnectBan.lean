import Canary.Lib.Transition
import Mathlib.Logic.Function.Basic
import Mathlib.Algebra.Order.Ring.Int

/-!
# Too many connections

The server counts the connections of each address. Connections that follow each other within five
seconds are counted on; the sixth is refused, if it came within half a second of the one before,
and the address is blocked for three seconds. If it came later it is accepted, and the count
begins anew. An address that tries again while it is blocked is blocked for longer.

So in any half second at most six connections of an address are accepted, whatever the other
addresses do (`accepted_in_half_second`): among seven that are accepted, the last comes more than
half a second after the first. And an address that is refused and goes on to try every quarter of
a second, or more often, is not accepted again (`refused_while_trying`). Who keeps more than half
a second between the connections is never refused (`accepts_slow`).

Times are in milliseconds. The clock does not go back, and no block is made so long that its end
does not fit into 64 bits.
-/

namespace Canary.Network.ConnectBan

open Transition

structure ConnectBlock where
  lastAttempt : ℕ
  blockTime : ℕ
  count : ℕ

/-- What becomes of an address that has connected before: whether it is accepted, and its entry. -/
def ConnectBlock.attempt (connectBlock : ConnectBlock) (currentTime : ℕ) : Bool × ConnectBlock :=
  if connectBlock.blockTime > currentTime then
    (false, { connectBlock with blockTime := connectBlock.blockTime + 250 })
  else
    let timeDiff : ℤ := currentTime - connectBlock.lastAttempt
    let connectBlock := { connectBlock with lastAttempt := currentTime }
    if timeDiff ≤ 5000 then
      let connectBlock := { connectBlock with count := connectBlock.count + 1 }
      if connectBlock.count > 5 then
        let connectBlock := { connectBlock with count := 0 }
        if timeDiff ≤ 500 then (false, { connectBlock with blockTime := currentTime + 3000 })
        else (true, connectBlock)
      else (true, connectBlock)
    else (true, { connectBlock with count := 1 })

/-- `Ban::acceptConnection`, on the entry of the address. -/
def acceptConnection (entry : Option ConnectBlock) (currentTime : ℕ) : Bool × ConnectBlock :=
  match entry with
  | none => (true, ⟨currentTime, 0, 1⟩)
  | some connectBlock => connectBlock.attempt currentTime

/-! ## The system -/

/-- The entries of the addresses, the time of the last attempt of all, and, as history, the times
    at which the attempts of an address were accepted, the last one first. -/
structure State where
  ipConnectMap : UInt32 → Option ConnectBlock
  now : ℕ
  accepted : UInt32 → List ℕ

/-- An address tries to connect. -/
def State.connect (s : State) (clientIP : UInt32) (currentTime : ℕ) : State :=
  let (accept, connectBlock) := acceptConnection (s.ipConnectMap clientIP) currentTime
  { ipConnectMap := Function.update s.ipConnectMap clientIP (some connectBlock)
    now := currentTime
    accepted :=
      if accept then Function.update s.accepted clientIP (currentTime :: s.accepted clientIP)
      else s.accepted }

/-- Addresses connect, one after the other. -/
def State.connects (s : State) (l : List (UInt32 × ℕ)) : State :=
  l.foldl (fun s (clientIP, currentTime) => s.connect clientIP currentTime) s

/-- The entries are empty at the start, and times do not go back. -/
def system : System State (UInt32 × ℕ) where
  init s := (∀ clientIP, s.ipConnectMap clientIP = none) ∧ ∀ clientIP, s.accepted clientIP = []
  step s a s' := s.now ≤ a.2 ∧ s' = s.connect a.1 a.2

/-- At the start no address is known. -/
def start : State where
  ipConnectMap _ := none
  now := 0
  accepted _ := []

theorem reachable_connects {s : State} (hs : system.Reachable s) {l : List (UInt32 × ℕ)}
    (hl : (s.now :: l.map Prod.snd).IsChain (· ≤ ·)) : system.Reachable (s.connects l) := by
  induction l generalizing s with
  | nil => exact hs
  | cons a l ih =>
    obtain ⟨hle, hrest⟩ := List.isChain_cons_cons.1 hl
    have hnow : (s.connect a.1 a.2).now = a.2 := rfl
    exact ih (hs.step trivial ⟨hle, rfl⟩) (hnow ▸ hrest)

/-! ## An address by itself -/

/-- The times at which an address tries to connect. -/
def times (clientIP : UInt32) (l : List (UInt32 × ℕ)) : List ℕ :=
  (l.filter fun a => a.1 == clientIP).map Prod.snd

/-- The entry of an address and the times at which it was accepted, after one more attempt. -/
def visit (e : Option ConnectBlock × List ℕ) (t : ℕ) : Option ConnectBlock × List ℕ :=
  let (accept, connectBlock) := acceptConnection e.1 t
  (some connectBlock, if accept then t :: e.2 else e.2)

/-- What the server knows of an address. -/
def State.entry (s : State) (clientIP : UInt32) : Option ConnectBlock × List ℕ :=
  (s.ipConnectMap clientIP, s.accepted clientIP)

theorem State.entry_connect_self (s : State) (clientIP : UInt32) (t : ℕ) :
    (s.connect clientIP t).entry clientIP = visit (s.entry clientIP) t := by
  rw [State.connect, State.entry, visit, State.entry]
  generalize acceptConnection (s.ipConnectMap clientIP) t = r
  obtain ⟨accept, b⟩ := r
  cases accept with
  | true => exact Prod.ext (Function.update_self ..) (Function.update_self ..)
  | false => exact Prod.ext (Function.update_self ..) rfl

/-- The attempts of an address do not touch the others. -/
theorem State.entry_connect_of_ne (s : State) {clientIP ip : UInt32} (t : ℕ) (h : ip ≠ clientIP) :
    (s.connect clientIP t).entry ip = s.entry ip := by
  rw [State.connect, State.entry, State.entry]
  generalize acceptConnection (s.ipConnectMap clientIP) t = r
  obtain ⟨accept, b⟩ := r
  cases accept with
  | true => exact Prod.ext (Function.update_of_ne h ..) (Function.update_of_ne h ..)
  | false => exact Prod.ext (Function.update_of_ne h ..) rfl

theorem times_cons_self (clientIP : UInt32) (t : ℕ) (l : List (UInt32 × ℕ)) :
    times clientIP ((clientIP, t) :: l) = t :: times clientIP l := by
  simp [times]

theorem times_cons_of_ne {clientIP ip : UInt32} (t : ℕ) (l : List (UInt32 × ℕ)) (h : clientIP ≠ ip) :
    times ip ((clientIP, t) :: l) = times ip l := by
  simp [times, h]

/-- What becomes of an address depends on its own attempts alone. -/
theorem State.entry_connects (s : State) (l : List (UInt32 × ℕ)) (clientIP : UInt32) :
    (s.connects l).entry clientIP = (times clientIP l).foldl visit (s.entry clientIP) := by
  induction l generalizing s with
  | nil => rfl
  | cons a l ih =>
    have hrest : (s.connects (a :: l)).entry clientIP =
        (times clientIP l).foldl visit ((s.connect a.1 a.2).entry clientIP) := ih _
    rw [hrest]
    by_cases ha : a.1 = clientIP
    · subst ha
      rw [s.entry_connect_self, times_cons_self]
      rfl
    · rw [s.entry_connect_of_ne _ (Ne.symm ha), times_cons_of_ne _ _ ha]

/-! ## One attempt -/

/-- What an attempt comes to. -/
inductive Attempt (b : ConnectBlock) (t : ℕ) : Bool × ConnectBlock → Prop
  /-- The address is blocked, and for longer. -/
  | blocked (h : t < b.blockTime) :
      Attempt b t (false, { b with blockTime := b.blockTime + 250 })
  /-- It tries too often, and is blocked. -/
  | refused (h : b.blockTime ≤ t) (hdiff : (t : ℤ) - b.lastAttempt ≤ 500) (hcount : 5 ≤ b.count) :
      Attempt b t (false, ⟨t, t + 3000, 0⟩)
  /-- It is counted. -/
  | counted (h : b.blockTime ≤ t) (hdiff : (t : ℤ) - b.lastAttempt ≤ 5000) (hcount : b.count < 5) :
      Attempt b t (true, ⟨t, b.blockTime, b.count + 1⟩)
  /-- The count begins anew. -/
  | anew (h : b.blockTime ≤ t) (hdiff : 500 < (t : ℤ) - b.lastAttempt) (count : ℕ) (hle : count ≤ 1) :
      Attempt b t (true, ⟨t, b.blockTime, count⟩)

theorem attempt_spec (b : ConnectBlock) (t : ℕ) : Attempt b t (b.attempt t) := by
  rw [ConnectBlock.attempt]
  by_cases hblock : b.blockTime > t
  · rw [if_pos hblock]
    exact .blocked hblock
  rw [if_neg hblock]
  have hfree : b.blockTime ≤ t := Nat.le_of_not_lt hblock
  dsimp only
  by_cases hdiff : (t : ℤ) - b.lastAttempt ≤ 5000
  · rw [if_pos hdiff]
    by_cases hcount : b.count + 1 > 5
    · rw [if_pos hcount]
      by_cases hfast : (t : ℤ) - b.lastAttempt ≤ 500
      · rw [if_pos hfast]
        exact .refused hfree hfast (Nat.le_of_lt_succ hcount)
      · rw [if_neg hfast]
        exact .anew hfree (Int.lt_of_not_ge hfast) 0 (Nat.zero_le _)
    · rw [if_neg hcount]
      exact .counted hfree hdiff (by omega)
  · rw [if_neg hdiff]
    exact .anew hfree (by omega) 1 le_rfl

/-! ## The rate -/

/-- What is known of an address that has connected: if its next attempt, at a time when it is not
    blocked, came within half a second of some accepted ones, these would have been counted. -/
structure Counted (now : ℕ) (b : ConnectBlock) (accepted : List ℕ) : Prop where
  last : b.lastAttempt ≤ now
  times : ∀ t ∈ accepted, t ≤ b.lastAttempt
  recent : ∀ t, now ≤ t → b.blockTime ≤ t → ∀ k t', accepted[k]? = some t' → t ≤ t' + 500 →
    k ≤ b.count

/-- Among seven accepted connections the last comes more than half a second after the first. -/
def Spread (accepted : List ℕ) : Prop :=
  ∀ k t t', accepted[k]? = some t → accepted[k + 6]? = some t' → t' + 500 < t

section Rate

variable {now t : ℕ} {b b' : ConnectBlock} {accepted : List ℕ}

theorem Spread.cons (h : Spread accepted) (hnew : ∀ t', accepted[5]? = some t' → t' + 500 < t) :
    Spread (t :: accepted) := by
  intro k u u' hu hu'
  obtain _ | k := k
  · obtain rfl := Option.some.inj hu
    exact hnew u' hu'
  · exact h k u u' hu hu'

theorem Counted.mono (h : Counted now b accepted) {now' : ℕ} (hle : now ≤ now') :
    Counted now' b accepted where
  last := h.last.trans hle
  times := h.times
  recent t ht := h.recent t (hle.trans ht)

/-- An address that is new. -/
theorem counted_new (t : ℕ) : Counted t ⟨t, 0, 1⟩ [t] where
  last := le_rfl
  times _ hu := (List.mem_singleton.1 hu).le
  recent u _ _ k t' hk _ := by
    obtain _ | k := k
    · exact Nat.zero_le _
    · cases hk

/-- The connections of the last half second, when one more is accepted and counted as `count`. -/
theorem Counted.accept (h : Counted now b accepted) (ht : now ≤ t) (hfree : b.blockTime ≤ t)
    {count : ℕ} (hcount : count = b.count + 1 ∨ 500 < (t : ℤ) - b.lastAttempt) :
    Counted t ⟨t, b.blockTime, count⟩ (t :: accepted) where
  last := le_rfl
  times u hu := (List.mem_cons.1 hu).elim le_of_eq fun hu =>
    (h.times u hu).trans (h.last.trans ht)
  recent u hu _ k t' hk hin := by
    obtain _ | k := k
    · exact Nat.zero_le _
    · have hin' : t ≤ t' + 500 := hu.trans hin
      obtain rfl | hslow := hcount
      · exact Nat.succ_le_succ (h.recent t ht hfree k t' hk hin')
      · -- None of the others is within half a second.
        have hlast := h.times t' (List.mem_of_getElem? hk)
        omega

/-- A connection is accepted, and it is not the seventh in half a second. -/
theorem Counted.next (h : Counted now b accepted) (ht : now ≤ t) (hspread : Spread accepted)
    (hb : Attempt b t (true, b')) : Counted t b' (t :: accepted) ∧ Spread (t :: accepted) := by
  have hlast : ∀ t', accepted[5]? = some t' → t' ≤ b.lastAttempt := fun t' hk =>
    h.times t' (List.mem_of_getElem? hk)
  cases hb with
  | counted hfree _ hcount =>
    refine ⟨h.accept ht hfree (.inl rfl), hspread.cons fun t' hk => ?_⟩
    by_contra hnear
    have hle := h.recent t ht hfree 5 t' hk (Nat.le_of_not_lt hnear)
    omega
  | anew hfree hdiff count hle =>
    refine ⟨h.accept ht hfree (.inr hdiff), hspread.cons fun t' hk => ?_⟩
    have htimes := hlast t' hk
    omega

/-- A connection is refused, and none is accepted for as long as the address is blocked. -/
theorem Counted.refused (h : Counted now b accepted) (ht : now ≤ t)
    (hb : Attempt b t (false, b')) : Counted t b' accepted := by
  cases hb with
  | blocked hblocked =>
    refine ⟨h.last.trans ht, h.times, fun u hu hfree => h.recent u (ht.trans hu) ?_⟩
    exact (Nat.le_add_right _ _).trans hfree
  | refused hfree _ _ =>
    refine ⟨le_rfl, fun u hu => (h.times u hu).trans (h.last.trans ht), ?_⟩
    intro u hu hblock k t' hk hin
    have hlast := h.times t' (List.mem_of_getElem? hk)
    have hnow := h.last
    dsimp only at hblock
    omega

end Rate

/-! ## Runs -/

theorem spread_nil : Spread [] := fun _ _ _ h => by cases h

theorem spread_singleton (t : ℕ) : Spread [t] := spread_nil.cons fun _ h => by cases h

/-- What is known of an address. -/
def Sound (now : ℕ) : Option ConnectBlock × List ℕ → Prop
  | (none, accepted) => accepted = []
  | (some b, accepted) => Counted now b accepted ∧ Spread accepted

theorem Sound.mono {now now' : ℕ} {e : Option ConnectBlock × List ℕ} (h : Sound now e)
    (hle : now ≤ now') : Sound now' e := by
  obtain ⟨_ | b, accepted⟩ := e
  · exact h
  · exact ⟨h.1.mono hle, h.2⟩

theorem Sound.visit {now t : ℕ} {e : Option ConnectBlock × List ℕ} (h : Sound now e)
    (ht : now ≤ t) : Sound t (visit e t) := by
  obtain ⟨_ | b, accepted⟩ := e
  · obtain rfl : accepted = [] := h
    exact ⟨counted_new t, spread_singleton t⟩
  · obtain ⟨hcounted, hspread⟩ := h
    have hspec := attempt_spec b t
    rw [ConnectBan.visit, acceptConnection]
    generalize b.attempt t = r at hspec ⊢
    obtain ⟨accept, b'⟩ := r
    cases accept with
    | true => exact hcounted.next ht hspread hspec
    | false => exact ⟨hcounted.refused ht hspec, hspread⟩

theorem sound_of_reachable {s : State} (hs : system.Reachable s) (clientIP : UInt32) :
    Sound s.now (s.entry clientIP) := by
  refine hs.invariant (I := fun s => ∀ clientIP, Sound s.now (s.entry clientIP))
    (fun s₀ h₀ ip => ?_) (fun s₁ a s₂ h₁ _ hstep ip => ?_) clientIP
  · rw [State.entry, h₀.1 ip, h₀.2 ip]
    rfl
  · obtain ⟨hle, rfl⟩ := hstep
    by_cases hip : ip = a.1
    · subst hip
      rw [s₁.entry_connect_self]
      exact (h₁ a.1).visit hle
    · rw [s₁.entry_connect_of_ne _ hip]
      exact (h₁ ip).mono hle

/-- In every run, among seven connections of an address that are accepted the last comes more
    than half a second after the first. -/
theorem accepted_in_half_second {s : State} (hs : system.Reachable s) (clientIP : UInt32) :
    Spread (s.accepted clientIP) := by
  have hsound := sound_of_reachable hs clientIP
  rw [State.entry] at hsound
  obtain hnone | ⟨b, hsome⟩ := Option.eq_none_or_eq_some (s.ipConnectMap clientIP)
  · rw [hnone] at hsound
    have hnil : s.accepted clientIP = [] := hsound
    rw [hnil]
    exact spread_nil
  · rw [hsome] at hsound
    exact hsound.2

/-- Five at once, the sixth too late to be refused: then five more are accepted with it. -/
theorem accepted_six_at_once :
    (start.connects (List.replicate 5 (1, 0) ++ List.replicate 7 (1, 501))).accepted 1 =
        List.replicate 6 501 ++ List.replicate 5 0 ∧
      Spread ((start.connects
        (List.replicate 5 (1, 0) ++ List.replicate 7 (1, 501))).accepted 1) :=
  ⟨by decide, accepted_in_half_second
    (reachable_connects (.init ⟨fun _ => rfl, fun _ => rfl⟩) (by decide)) 1⟩

/-! ## Trying again -/

/-- An address that is refused is blocked for more than a quarter of a second. -/
theorem blocked_of_refused {entry : Option ConnectBlock} {t : ℕ}
    (h : (acceptConnection entry t).1 = false) :
    t + 250 < (acceptConnection entry t).2.blockTime := by
  cases entry with
  | none => exact absurd h Bool.true_eq_false_eq_False
  | some b =>
    have hspec := attempt_spec b t
    rw [acceptConnection] at h ⊢
    generalize b.attempt t = r at hspec h ⊢
    cases hspec with
    | blocked hblocked => exact Nat.add_lt_add_right hblocked 250
    | refused hfree hdiff hcount => exact Nat.add_lt_add_left (by decide) t
    | counted => exact absurd h Bool.true_eq_false_eq_False
    | anew => exact absurd h Bool.true_eq_false_eq_False

/-- An address that is blocked, and comes every quarter of a second. -/
theorem foldl_visit_blocked {ts : List ℕ} {b : ConnectBlock} {accepted : List ℕ} {t : ℕ}
    (hb : t + 250 < b.blockTime) (hgaps : (t :: ts).IsChain fun t t' => t' ≤ t + 250) :
    (ts.foldl visit (some b, accepted)).2 = accepted := by
  induction ts generalizing b t with
  | nil => rfl
  | cons t' ts ih =>
    obtain ⟨hle, hrest⟩ := List.isChain_cons_cons.1 hgaps
    have hblocked : b.blockTime > t' := hle.trans_lt hb
    have hvisit : visit (some b, accepted) t' =
        (some { b with blockTime := b.blockTime + 250 }, accepted) := by
      rw [visit, acceptConnection, ConnectBlock.attempt, if_pos hblocked]
      rfl
    rw [List.foldl_cons, hvisit]
    exact ih (Nat.add_lt_add_right hblocked 250) hrest

/-- An address that was refused, and from then on tries each quarter of a second or more often, is
    not accepted, for as long as it does so. -/
theorem refused_while_trying (s : State) {clientIP : UInt32} {t : ℕ}
    (hrefused : (acceptConnection (s.ipConnectMap clientIP) t).1 = false)
    (l : List (UInt32 × ℕ))
    (hgaps : (t :: times clientIP l).IsChain fun t t' => t' ≤ t + 250) :
    ((s.connect clientIP t).connects l).accepted clientIP = s.accepted clientIP := by
  have hentry := (s.connect clientIP t).entry_connects l clientIP
  have hfirst : visit (s.entry clientIP) t =
      (some (acceptConnection (s.ipConnectMap clientIP) t).2, s.accepted clientIP) := by
    change (some _, if (acceptConnection (s.ipConnectMap clientIP) t).1 = true then _ else _) = _
    rw [hrefused, if_neg Bool.false_ne_true]
    rfl
  rw [s.entry_connect_self, hfirst] at hentry
  calc ((s.connect clientIP t).connects l).accepted clientIP
      = (((s.connect clientIP t).connects l).entry clientIP).2 := rfl
    _ = s.accepted clientIP := by
      rw [hentry]
      exact foldl_visit_blocked (blocked_of_refused hrefused) hgaps

/-- The sixth is refused, and so it is for the next second. -/
theorem refused_for_a_second :
    (((start.connects (List.replicate 5 (1, 0))).connect 1 0).connects
      [(1, 250), (2, 300), (1, 500), (1, 750), (1, 1000)]).accepted 1 =
      (start.connects (List.replicate 5 (1, 0))).accepted 1 :=
  refused_while_trying _ (by decide) _ (by decide)

/-- An address that has never been blocked, and comes more slowly than twice a second. -/
theorem foldl_visit_slow {ts : List ℕ} {b : ConnectBlock} {accepted : List ℕ}
    (hb : b.blockTime = 0) (hgaps : (b.lastAttempt :: ts).IsChain fun t t' => t + 500 < t') :
    (ts.foldl visit (some b, accepted)).2 = ts.reverse ++ accepted := by
  induction ts generalizing b accepted with
  | nil => rfl
  | cons t ts ih =>
    obtain ⟨hlt, hrest⟩ := List.isChain_cons_cons.1 hgaps
    have hspec := attempt_spec b t
    have hvisit : ∃ count, visit (some b, accepted) t = (some ⟨t, 0, count⟩, t :: accepted) := by
      rw [visit, acceptConnection]
      generalize b.attempt t = r at hspec
      cases hspec with
      | blocked hblocked => omega
      | refused _ hdiff _ => omega
      | counted => exact ⟨_, by rw [hb]; rfl⟩
      | anew => exact ⟨_, by rw [hb]; rfl⟩
    obtain ⟨count, hvisit⟩ := hvisit
    rw [List.foldl_cons, hvisit, ih rfl hrest, List.reverse_cons, List.append_assoc]
    rfl

/-- An address that keeps more than half a second between its attempts is always accepted. -/
theorem accepts_slow {s : State} (hs : system.init s) (l : List (UInt32 × ℕ)) (clientIP : UInt32)
    (hgaps : (times clientIP l).IsChain fun t t' => t + 500 < t') :
    (s.connects l).accepted clientIP = (times clientIP l).reverse := by
  have hentry := s.entry_connects l clientIP
  have hfirst : s.entry clientIP = (none, []) := Prod.ext (hs.1 clientIP) (hs.2 clientIP)
  rw [hfirst] at hentry
  have haccepted : (s.connects l).accepted clientIP = ((s.connects l).entry clientIP).2 := rfl
  rw [haccepted, hentry]
  generalize times clientIP l = ts at hgaps ⊢
  cases ts with
  | nil => rfl
  | cons t ts =>
    have hrest : (ts.foldl visit (some ⟨t, 0, 1⟩, [t])).2 = ts.reverse ++ [t] :=
      foldl_visit_slow rfl hgaps
    rw [List.reverse_cons, ← hrest]
    rfl

/-- Eight connections, less than five seconds apart. -/
theorem accepts_eight :
    (start.connects ((List.range 8).map fun k => (1, 501 * k))).accepted 1 =
      (times 1 ((List.range 8).map fun k => (1, 501 * k))).reverse :=
  accepts_slow ⟨fun _ => rfl, fun _ => rfl⟩ _ 1 (by decide)

end Canary.Network.ConnectBan
