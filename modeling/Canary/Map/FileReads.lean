import Canary.Map.FileStream

/-!
# Reads from any bytes

The reads of a map file in any order, from any bytes whatsoever. A number is read when the data
have as many bytes as it takes, but of these some may be escapes: a read stays inside of the
data exactly if the bytes that remain also hold as many bytes without their escapes
(`Read.Inside`, `run_inside_iff`).
-/

namespace Canary.Map

open OTB FileStream

/-- A read of the stream. -/
inductive Read where
  | getU8
  | getU16
  | getU32
  | getU64
  | getString
  | isProp (prop : UInt8) (toNext : Bool)
  | startNode (type : UInt8)
  | endNode
  deriving DecidableEq

inductive Answer where
  | number (n : Nat)
  | text (str : List UInt8)
  | flag (b : Bool)
  deriving DecidableEq

def Read.perform : Read → Reader Answer
  | getU8 => do return .number (← FileStream.getU8).toNat
  | getU16 => do return .number (← FileStream.getU16)
  | getU32 => do return .number (← FileStream.getU32)
  | getU64 => do return .number (← FileStream.getU64)
  | getString => do return .text (← FileStream.getString)
  | isProp prop toNext => do return .flag (← FileStream.isProp prop toNext)
  | startNode type => do return .flag (← FileStream.startNode type)
  | endNode => do return .flag (← FileStream.endNode)

/-- Some reads, one after the other: what each answers, and where it leaves the stream. -/
def run : List Read → Reader (List (Answer × Nat))
  | [] => return []
  | r :: rs => do
    let a ← r.perform
    let s ← get
    let l ← run rs
    return (a, s.pos.toNat) :: l

namespace FileStream

variable {s t u : FileStream} {b c : UInt8} {e : Fault}

/-! ## The tests -/

def backed (s : FileStream) : FileStream := { s with pos := s.pos - 1 }

theorem backed_pos (h : 0 < s.pos.toNat) : s.backed.pos.toNat = s.pos.toNat - 1 := by
  have hle : (1 : UInt32) ≤ s.pos := by
    rw [UInt32.le_iff_toNat_le, UInt32.toNat_one]
    exact h
  exact UInt32.toNat_sub_of_le _ _ hle

theorem isProp_of_getU8 (h : getU8 s = .ok (b, t)) (prop : UInt8) (toNext : Bool) :
    isProp prop toNext s = .ok (decide (b = prop), if b = prop ∧ toNext then t else t.backed) := by
  rw [isProp, bind_of_ok h]
  by_cases hb : b = prop
  · cases toNext <;> simp only [hb] <;> rfl
  · simp only [hb]
    rfl

theorem endNode_of_getU8 (h : getU8 s = .ok (b, t)) :
    endNode s =
      .ok (decide (b = END), if b = END then { t with nodes := t.nodes - 1 } else t.backed) := by
  rw [endNode, bind_of_ok h]
  by_cases hb : b = END
  · simp only [hb]
    rfl
  · simp only [hb]
    rfl

theorem startNode_of_ne (h : getU8 s = .ok (b, t)) (hb : b ≠ START) (type : UInt8) :
    startNode type s = .ok (false, t.backed) := by
  rw [startNode, bind_of_ok h]
  simp only [hb]
  rfl

theorem startNode_zero (h : getU8 s = .ok (START, t)) :
    startNode 0 s = .ok (true, { t with nodes := t.nodes + 1 }) := by
  rw [startNode, bind_of_ok h]
  rfl

theorem startNode_of_getU8 (h : getU8 s = .ok (START, t)) (hu : getU8 t = .ok (c, u))
    {type : UInt8} (ht : type ≠ 0) :
    startNode type s = .ok (decide (c = type),
      if c = type then { u with nodes := u.nodes + 1 } else u.backed.backed) := by
  rw [startNode, bind_of_ok h, if_pos rfl, if_neg ht, bind_of_ok hu]
  by_cases hc : c = type
  · simp only [hc]
    rfl
  · simp only [hc]
    rfl

theorem startNode_of_error (h : getU8 s = .ok (START, t)) (hu : getU8 t = .error e)
    {type : UInt8} (ht : type ≠ 0) : startNode type s = .error e := by
  rw [startNode, bind_of_ok h, if_pos rfl, if_neg ht]
  exact bind_of_error hu

/-! ## Where a read leaves the stream -/

/-- The stream has moved within its data. -/
structure Moved (s t : FileStream) : Prop where
  data : t.data = s.data
  fits : t.Fits

theorem Moved.trans {s t u : FileStream} (h : Moved s t) (h' : Moved t u) : Moved s u :=
  ⟨h'.data.trans h.data, h'.fits⟩

theorem Fits.moved_backed (h : s.Fits) (h0 : 0 < s.pos.toNat) : Moved s s.backed :=
  ⟨rfl, h.length, by
    have hpos := h.pos
    have hback := backed_pos h0
    change s.backed.pos.toNat ≤ s.data.length
    omega⟩

theorem Fits.moved_nodes (h : s.Fits) (n : UInt32) : Moved s { s with nodes := n } :=
  ⟨rfl, h.length, h.pos⟩

theorem answer_eq_ok {α : Type} {s t : FileStream} {r : Option (α × List UInt8)} {a : α}
    (h : s.answer r = .ok (a, t)) : ∃ l, r = some (a, l) ∧ t = s.leave l := by
  rcases r with _ | ⟨a', l⟩
  · cases h
  · cases h
    exact ⟨l, rfl, rfl⟩

theorem answer_eq_outside {α : Type} {r : Option (α × List UInt8)} :
    s.answer r = .error .outside ↔ r = none := by
  rcases r with _ | ⟨a, l⟩ <;> simp [answer]

/-- Data for which no test for the end of the data overflows. -/
def Small (s : FileStream) : Prop := s.data.length + 8192 ≤ 2 ^ 32

theorem Moved.small (h : Moved s t) (hs : s.Small) : t.Small := by
  rw [Small, h.data]
  exact hs

theorem Fits.getU8_of_small (h : s.Fits) (hs : s.Small) :
    getU8 s = if s.rest = [] then .error .failure
      else s.answer (takeByte (0 < s.nodes) s.rest) :=
  h.getU8_eq (.inr (by rw [Small] at hs; omega))

theorem Fits.getU8_advances (h : s.Fits) (hend : s.rest ≠ [] ∨ s.data.length + 1 < 2 ^ 32)
    (hr : getU8 s = .ok (b, t)) : Moved s t ∧ s.pos.toNat < t.pos.toNat := by
  rw [h.getU8_eq hend] at hr
  split at hr
  case isTrue => cases hr
  case isFalse =>
    obtain ⟨l, hl, rfl⟩ := answer_eq_ok hr
    have hlt := (takeByte_suffix hl).2
    have hpos := h.pos
    refine ⟨⟨rfl, h.leave l⟩, ?_⟩
    rw [leave_pos h.length]
    rw [s.length_rest] at hlt
    omega

theorem Fits.getU8_moved (h : s.Fits) (hs : s.Small) (hr : getU8 s = .ok (b, t)) :
    Moved s t ∧ s.pos.toNat < t.pos.toNat :=
  h.getU8_advances (.inr (by rw [Small] at hs; omega)) hr

theorem Fits.getNumber_moved (h : s.Fits) {n k : Nat} (hr : getNumber n s = .ok (k, t)) :
    Moved s t := by
  rw [h.getNumber_eq] at hr
  split at hr
  case isTrue => cases hr
  case isFalse =>
    obtain ⟨l, -, rfl⟩ := answer_eq_ok hr
    exact ⟨rfl, h.leave l⟩

/-- The test that `getString` makes of the length it has read. -/
def stringOf (t : FileStream) (len : Nat) : Except Fault (List UInt8 × FileStream) :=
  if len = 0 then .ok ([], t)
  else if len < 8192 ∧ len ≤ t.rest.length then .ok (t.rest.take len, t.leave (t.rest.drop len))
  else .error .failure

theorem getString_of_error (h : getU16 s = .error e) : getString s = .error e := bind_of_error h

theorem getString_of_getU16 {len : Nat} (ht : t.Fits)
    (hwrap : len ≤ t.rest.length ∨ t.Small) (h : getU16 s = .ok (len, t)) :
    getString s = t.stringOf len := by
  have hpos := ht.pos
  have hlen := t.length_rest
  have hlt := ht.length
  rw [getString, bind_of_ok h, stringOf]
  by_cases h0 : len = 0
  · subst h0
    rfl
  · rw [if_neg h0]
    by_cases hlarge : len < 8192
    · have hadd : (t.pos + UInt32.ofNat len).toNat = t.pos.toNat + len := by
        rw [UInt32.toNat_add, UInt32.toNat_ofNat', Nat.add_mod_mod, Nat.mod_eq_of_lt]
        rcases hwrap with hwrap | hwrap
        · omega
        · rw [Small] at hwrap
          omega
      rw [if_pos ⟨Nat.pos_of_ne_zero h0, hlarge⟩, bind_of_ok rfl]
      by_cases hle : len ≤ t.rest.length
      · have hfits : ¬t.data.length < (t.pos + UInt32.ofNat len).toNat := by omega
        rw [if_neg hfits, if_pos ⟨hlarge, hle⟩, ht.copy_eq]
        simp only [takeBytes, Bool.false_eq_true, if_false, if_pos hle]
        rfl
      · have hends : t.data.length < (t.pos + UInt32.ofNat len).toNat := by omega
        rw [if_pos hends, if_neg fun hc => hle hc.2]
        rfl
    · rw [if_neg fun hc => hlarge hc.2, if_pos h0, if_neg fun hc => hlarge hc.1]
      rfl

/-! ## Reads inside of the data -/

/-- What the bytes stand for. -/
def decoded (escape : Bool) (l : List UInt8) : List UInt8 :=
  if escape then Escape.unescape ESCAPE l else l

/-- If there are `n` bytes, then they are so many without their escapes as well. -/
def Holds (n : Nat) (escape : Bool) (l : List UInt8) : Prop :=
  n ≤ l.length → n ≤ (decoded escape l).length

theorem takeByte_eq_none {escape : Bool} {l : List UInt8} (hl : l ≠ []) :
    takeByte escape l = none ↔ ¬Holds 1 escape l := by
  have hlen : 1 ≤ l.length := List.length_pos_iff.2 hl
  rw [← Option.not_isSome_iff_eq_none, Holds]
  refine not_congr ⟨fun h _ => ?_, fun h => ?_⟩
  · cases escape with
    | true => exact Escape.read_isSome_iff.1 h
    | false => exact hlen
  · cases escape with
    | true => exact Escape.read_isSome_iff.2 (h hlen)
    | false => exact Option.isSome_iff_ne_none.2 (takeByte_false_eq_none hl)

theorem takeBytes_eq_none {escape : Bool} {n : Nat} {l : List UInt8} (hl : n ≤ l.length) :
    takeBytes escape n l = none ↔ ¬Holds n escape l := by
  rw [← Option.not_isSome_iff_eq_none, Holds]
  refine not_congr ⟨fun h _ => ?_, fun h => ?_⟩
  · cases escape with
    | true => exact Escape.readMany_isSome_iff.1 h
    | false => exact hl
  · cases escape with
    | true => exact Escape.readMany_isSome_iff.2 (h hl)
    | false => exact congrArg Option.isSome (if_pos hl)

theorem Fits.getU8_outside_iff (h : s.Fits) (hs : s.Small) :
    getU8 s = .error .outside ↔ ¬Holds 1 (0 < s.nodes) s.rest := by
  rw [h.getU8_of_small hs]
  by_cases hr : s.rest = []
  · rw [if_pos hr, hr]
    simp [Holds]
  · rw [if_neg hr, answer_eq_outside, takeByte_eq_none hr]

theorem Fits.getNumber_outside_iff (h : s.Fits) (n : Nat) :
    getNumber n s = .error .outside ↔ ¬Holds n (0 < s.nodes) s.rest := by
  rw [h.getNumber_eq]
  by_cases hr : s.rest.length < n
  · rw [if_pos hr]
    simp [Holds, Nat.not_le_of_lt hr]
  · rw [if_neg hr, answer_eq_outside, takeNumber, Option.map_eq_none_iff,
      takeBytes_eq_none (Nat.le_of_not_lt hr)]

theorem stringOf_ne_outside (t : FileStream) (len : Nat) :
    t.stringOf len ≠ .error .outside := by
  rw [stringOf]
  split
  · simp
  · split <;> simp

theorem Fits.stringOf_moved {len : Nat} {str : List UInt8} (h : t.Fits)
    (hr : t.stringOf len = .ok (str, u)) : Moved t u := by
  rw [stringOf] at hr
  split at hr
  · cases hr
    exact ⟨rfl, h⟩
  · split at hr
    · cases hr
      exact ⟨rfl, h.leave _⟩
    · cases hr

end FileStream

open FileStream

/-- The read needs no byte behind the end of the data, of which `l` remains. -/
def Read.Inside : Read → Bool → List UInt8 → Prop
  | getU8, e, l => Holds 1 e l
  | getU16, e, l => Holds 2 e l
  | getU32, e, l => Holds 4 e l
  | getU64, e, l => Holds 8 e l
  | getString, e, l => Holds 2 e l
  | isProp _ _, e, l => Holds 1 e l
  | startNode type, e, l =>
    Holds 1 e l ∧ (type ≠ 0 → ∀ l', takeByte e l = some (START, l') → Holds 1 e l')
  | endNode, e, l => Holds 1 e l

section Step

variable {s t : FileStream} {α : Type} {m : Reader α} {f : α → Answer}

theorem answered_outside_iff :
    (do return f (← m) : Reader Answer) s = .error .outside ↔ m s = .error .outside := by
  rcases hm : m s with e | ⟨a, t⟩
  · rw [bind_of_error hm]
    exact ⟨fun h => by cases h; rfl, fun h => by cases h; rfl⟩
  · rw [bind_of_ok hm]
    exact iff_of_false (fun h => by cases h) fun h => by cases h

theorem answered_eq_ok {a : Answer} (h : (do return f (← m) : Reader Answer) s = .ok (a, t)) :
    ∃ v, m s = .ok (v, t) ∧ f v = a := by
  rcases hm : m s with e | ⟨v, u⟩
  · rw [bind_of_error hm] at h
    cases h
  · rw [bind_of_ok hm] at h
    cases h
    exact ⟨v, rfl, rfl⟩

end Step

section Perform

variable {s t : FileStream}

/-- A test of one byte is not outside of the data if the byte is not, and stays in the data. -/
theorem startNode_outside_iff (h : s.Fits) (hs : s.Small) (type : UInt8) :
    FileStream.startNode type s = .error .outside ↔
      ¬(Read.startNode type).Inside (0 < s.nodes) s.rest := by
  have hone := h.getU8_outside_iff hs
  have heq := h.getU8_of_small hs
  rcases hr : FileStream.getU8 s with e | ⟨b, t⟩
  · have herr : FileStream.startNode type s = .error e := bind_of_error hr
    rw [hr, Except.error.injEq] at hone
    rw [herr, Except.error.injEq, hone]
    refine not_congr ⟨fun h1 => ⟨h1, fun _ l' hl => ?_⟩, And.left⟩
    -- The first byte is not there: then it is not `START` either.
    rw [hr] at heq
    split at heq
    case isTrue hnil =>
      have hlt := (takeByte_suffix hl).2
      rw [hnil] at hlt
      exact absurd hlt (Nat.not_lt_zero _)
    case isFalse =>
      rw [hl] at heq
      cases heq
  · have hholds : Holds 1 (0 < s.nodes) s.rest := by
      by_contra hc
      rw [hone.2 hc] at hr
      cases hr
    have hmoved := h.getU8_moved hs hr
    rw [hr] at heq
    split at heq
    case isTrue => cases heq
    case isFalse =>
      obtain ⟨l, hl, rfl⟩ := answer_eq_ok heq.symm
      have hsuf : l <:+ s.data := (takeByte_suffix hl).1.trans s.rest_suffix
      by_cases hb : b = START
      · subst hb
        by_cases htype : type = 0
        · subst htype
          rw [startNode_zero hr]
          exact iff_of_false (fun h => by cases h) fun h => h ⟨hholds, fun h0 => absurd rfl h0⟩
        · have htwo := hmoved.1.fits.getU8_outside_iff (hmoved.1.small hs)
          rw [rest_leave h.length hsuf, leave_nodes] at htwo
          have hinside : (Read.startNode type).Inside (0 < s.nodes) s.rest ↔
              Holds 1 (0 < s.nodes) l := by
            refine ⟨fun hi => hi.2 htype l hl, fun hi => ⟨hholds, fun _ l' hl' => ?_⟩⟩
            rw [hl] at hl'
            cases hl'
            exact hi
          rw [hinside, ← htwo]
          rcases hu : FileStream.getU8 (s.leave l) with e | ⟨c, u⟩
          · rw [startNode_of_error hr hu htype, Except.error.injEq, Except.error.injEq]
          · rw [startNode_of_getU8 hr hu htype]
            exact iff_of_false (fun h => by cases h) fun h => by cases h
      · rw [startNode_of_ne hr hb]
        refine iff_of_false (fun h => by cases h) fun h => h ⟨hholds, fun _ l' hl' => ?_⟩
        rw [hl] at hl'
        cases hl'
        exact absurd rfl hb

theorem startNode_moved (h : s.Fits) (hs : s.Small) {type : UInt8} {v : Bool}
    (hr : FileStream.startNode type s = .ok (v, t)) : Moved s t := by
  rcases hg : FileStream.getU8 s with e | ⟨b, u⟩
  · have herr : FileStream.startNode type s = .error e := bind_of_error hg
    rw [herr] at hr
    cases hr
  · obtain ⟨hu, hpos⟩ := h.getU8_moved hs hg
    by_cases hb : b = START
    · subst hb
      by_cases htype : type = 0
      · subst htype
        rw [startNode_zero hg] at hr
        cases hr
        exact hu.trans (hu.fits.moved_nodes _)
      · rcases hw : FileStream.getU8 u with e | ⟨c, w⟩
        · rw [startNode_of_error hg hw htype] at hr
          cases hr
        · obtain ⟨hmw, hposw⟩ := hu.fits.getU8_moved (hu.small hs) hw
          rw [startNode_of_getU8 hg hw htype] at hr
          cases hr
          split
          · exact hu.trans (hmw.trans (hmw.fits.moved_nodes _))
          · have hback := hmw.fits.moved_backed (Nat.zero_lt_of_lt hposw)
            have hbpos := backed_pos (Nat.zero_lt_of_lt hposw)
            exact hu.trans (hmw.trans (hback.trans (hback.fits.moved_backed (by omega))))
    · rw [startNode_of_ne hg hb] at hr
      cases hr
      exact hu.trans (hu.fits.moved_backed (Nat.zero_lt_of_lt hpos))

theorem isProp_outside_iff (prop : UInt8) (toNext : Bool) :
    FileStream.isProp prop toNext s = .error .outside ↔
      FileStream.getU8 s = .error .outside := by
  rcases hg : FileStream.getU8 s with e | ⟨b, u⟩
  · have herr : FileStream.isProp prop toNext s = .error e := bind_of_error hg
    rw [herr, Except.error.injEq, Except.error.injEq]
  · rw [isProp_of_getU8 hg]
    exact iff_of_false (fun h => by cases h) fun h => by cases h

theorem isProp_moved (h : s.Fits) (hs : s.Small) {prop : UInt8} {toNext v : Bool}
    (hr : FileStream.isProp prop toNext s = .ok (v, t)) : Moved s t := by
  rcases hg : FileStream.getU8 s with e | ⟨b, u⟩
  · have herr : FileStream.isProp prop toNext s = .error e := bind_of_error hg
    rw [herr] at hr
    cases hr
  · obtain ⟨hu, hpos⟩ := h.getU8_moved hs hg
    rw [isProp_of_getU8 hg] at hr
    cases hr
    split
    · exact hu
    · exact hu.trans (hu.fits.moved_backed (Nat.zero_lt_of_lt hpos))

theorem endNode_outside_iff :
    FileStream.endNode s = .error .outside ↔ FileStream.getU8 s = .error .outside := by
  rcases hg : FileStream.getU8 s with e | ⟨b, u⟩
  · have herr : FileStream.endNode s = .error e := bind_of_error hg
    rw [herr, Except.error.injEq, Except.error.injEq]
  · rw [endNode_of_getU8 hg]
    exact iff_of_false (fun h => by cases h) fun h => by cases h

theorem endNode_moved (h : s.Fits) (hs : s.Small) {v : Bool}
    (hr : FileStream.endNode s = .ok (v, t)) : Moved s t := by
  rcases hg : FileStream.getU8 s with e | ⟨b, u⟩
  · have herr : FileStream.endNode s = .error e := bind_of_error hg
    rw [herr] at hr
    cases hr
  · obtain ⟨hu, hpos⟩ := h.getU8_moved hs hg
    rw [endNode_of_getU8 hg] at hr
    cases hr
    split
    · exact hu.trans (hu.fits.moved_nodes _)
    · exact hu.trans (hu.fits.moved_backed (Nat.zero_lt_of_lt hpos))

theorem getString_outside_iff (h : s.Fits) (hs : s.Small) :
    FileStream.getString s = .error .outside ↔ FileStream.getU16 s = .error .outside := by
  rcases hg : FileStream.getU16 s with e | ⟨len, u⟩
  · rw [getString_of_error hg, Except.error.injEq, Except.error.injEq]
  · have hu := h.getNumber_moved hg
    rw [getString_of_getU16 hu.fits (.inr (hu.small hs)) hg]
    exact iff_of_false (stringOf_ne_outside _ _) fun h => by cases h

theorem getString_moved (h : s.Fits) (hs : s.Small) {str : List UInt8}
    (hr : FileStream.getString s = .ok (str, t)) : Moved s t := by
  rcases hg : FileStream.getU16 s with e | ⟨len, u⟩
  · rw [getString_of_error hg] at hr
    cases hr
  · have hu := h.getNumber_moved hg
    rw [getString_of_getU16 hu.fits (.inr (hu.small hs)) hg] at hr
    exact hu.trans (hu.fits.stringOf_moved hr)

/-- Where the read is not outside of the data. -/
theorem perform_outside_iff (h : s.Fits) (hs : s.Small) (r : Read) :
    r.perform s = .error .outside ↔ ¬r.Inside (0 < s.nodes) s.rest := by
  cases r with
  | getU8 => exact answered_outside_iff.trans (h.getU8_outside_iff hs)
  | getU16 => exact answered_outside_iff.trans (h.getNumber_outside_iff 2)
  | getU32 => exact answered_outside_iff.trans (h.getNumber_outside_iff 4)
  | getU64 => exact answered_outside_iff.trans (h.getNumber_outside_iff 8)
  | getString =>
    exact answered_outside_iff.trans
      ((getString_outside_iff h hs).trans (h.getNumber_outside_iff 2))
  | isProp prop toNext =>
    exact answered_outside_iff.trans
      ((isProp_outside_iff prop toNext).trans (h.getU8_outside_iff hs))
  | startNode type => exact answered_outside_iff.trans (startNode_outside_iff h hs type)
  | endNode =>
    exact answered_outside_iff.trans (endNode_outside_iff.trans (h.getU8_outside_iff hs))

theorem perform_moved (h : s.Fits) (hs : s.Small) {r : Read} {a : Answer}
    (hr : r.perform s = .ok (a, t)) : Moved s t := by
  cases r with
  | getU8 =>
    obtain ⟨v, hv, -⟩ := answered_eq_ok hr
    exact (h.getU8_moved hs hv).1
  | getU16 =>
    obtain ⟨v, hv, -⟩ := answered_eq_ok hr
    exact h.getNumber_moved hv
  | getU32 =>
    obtain ⟨v, hv, -⟩ := answered_eq_ok hr
    exact h.getNumber_moved hv
  | getU64 =>
    obtain ⟨v, hv, -⟩ := answered_eq_ok hr
    exact h.getNumber_moved hv
  | getString =>
    obtain ⟨v, hv, -⟩ := answered_eq_ok hr
    exact getString_moved h hs hv
  | isProp prop toNext =>
    obtain ⟨v, hv, -⟩ := answered_eq_ok hr
    exact isProp_moved h hs hv
  | startNode type =>
    obtain ⟨v, hv, -⟩ := answered_eq_ok hr
    exact startNode_moved h hs hv
  | endNode =>
    obtain ⟨v, hv, -⟩ := answered_eq_ok hr
    exact endNode_moved h hs hv

/-- Every read of the run is inside of the data. -/
def AllInside : List Read → FileStream → Prop
  | [], _ => True
  | r :: rs, s => r.Inside (0 < s.nodes) s.rest ∧
      ∀ a t, r.perform s = .ok (a, t) → AllInside rs t

theorem run_cons_of_error {r : Read} {e : Fault} (h : r.perform s = .error e) (rs : List Read) :
    run (r :: rs) s = .error e := bind_of_error h

theorem run_cons_of_ok {r : Read} {a : Answer} (h : r.perform s = .ok (a, t)) (rs : List Read) :
    run (r :: rs) s = (do let l ← run rs; return (a, t.pos.toNat) :: l : Reader _) t :=
  bind_of_ok h

/-- A run does not read behind the end of the data if and only if its reads are inside. -/
theorem run_inside_iff (h : s.Fits) (hs : s.Small) (rs : List Read) :
    run rs s ≠ .error .outside ↔ AllInside rs s := by
  induction rs generalizing s with
  | nil => exact iff_of_true (fun h => by cases h) trivial
  | cons r rs ih =>
    have hout := perform_outside_iff h hs r
    rw [AllInside]
    rcases hr : r.perform s with e | ⟨a, t⟩
    · rw [run_cons_of_error hr, ← not_iff_not, not_not, Except.error.injEq]
      rw [hr, Except.error.injEq] at hout
      rw [hout]
      exact not_congr ⟨fun hi => ⟨hi, fun _ _ hc => by cases hc⟩, And.left⟩
    · have hmoved := perform_moved h hs hr
      have hin : r.Inside (0 < s.nodes) s.rest := by
        by_contra hc
        rw [hout.2 hc] at hr
        cases hr
      have hrest := ih hmoved.fits (hmoved.small hs)
      rw [run_cons_of_ok hr]
      rcases hl : run rs t with e | ⟨l, u⟩
      · rw [bind_of_error hl, Ne, Except.error.injEq]
        rw [hl, Ne, Except.error.injEq] at hrest
        rw [hrest]
        exact ⟨fun hi => ⟨hin, fun _ _ hc => by cases hc; exact hi⟩, fun hi => hi.2 a t rfl⟩
      · rw [bind_of_ok hl]
        rw [hl] at hrest
        exact iff_of_true (fun h => by cases h)
          ⟨hin, fun _ _ hc => by cases hc; exact hrest.1 (fun h => by cases h)⟩

end Perform

end Canary.Map
