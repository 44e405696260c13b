import Canary.Lib.Bytes
import Canary.Lib.Escape

/-!
# Reading a map file

`FileStream` reads the bytes of a map: `START` and `END` enclose a node, and `ESCAPE` stands in
front of a byte of its properties that is one of the three.

A read either throws, when it finds that the data end, or it may look at a byte behind the data
all the same (`Fault.outside`). What it does is a function of the bytes that remain
(`getU8_eq`, `read_eq`): `leave l` is the stream of which the bytes `l` remain.
-/

namespace Canary.Map

namespace OTB

def ESCAPE : UInt8 := 0xFD
def START : UInt8 := 0xFE
def END : UInt8 := 0xFF

end OTB

structure FileStream where
  data : List UInt8
  pos : UInt32
  nodes : UInt32
  deriving DecidableEq

/-- Why there is no result: an exception, or a read of a byte that is not part of the data. -/
inductive Fault where
  | failure
  | outside
  deriving DecidableEq

namespace FileStream

open OTB

abbrev Reader := StateT FileStream (Except Fault)

/-- `m_data[m_pos]`. -/
def current : Reader UInt8 := fun s =>
  match s.data[s.pos.toNat]? with
  | some b => .ok (b, s)
  | none => .error .outside

/-- `memcpy` of `size` bytes from `&m_data[m_pos]`. -/
def copy (size : Nat) : Reader (List UInt8) := fun s =>
  if s.pos.toNat + size ≤ s.data.length then .ok ((s.data.drop s.pos.toNat).take size, s)
  else .error .outside

def advance (n : UInt32) : Reader Unit := modify fun s => { s with pos := s.pos + n }

def back : Reader Unit := modify fun s => { s with pos := s.pos - 1 }

/-- One byte, with `ESCAPE` in front of it if `escape` is set. -/
def next (escape : Bool) : Reader UInt8 := do
  if escape then
    if (← current) = ESCAPE then
      advance 1
  let v ← current
  advance 1
  return v

/-- The loop of `read`, for bytes that may be escaped. -/
def readEscaped : Nat → Reader (List UInt8)
  | 0 => return []
  | n + 1 => do
    let b ← next true
    let l ← readEscaped n
    return b :: l

def read (size : Nat) (escape : Bool) : Reader (List UInt8) := do
  let s ← get
  if s.data.length < s.pos.toNat + size then
    throw .failure
  else if escape then
    readEscaped size
  else
    let l ← copy size
    advance (UInt32.ofNat size)
    return l

def getU8 : Reader UInt8 := do
  let s ← get
  if s.data.length < (s.pos + 1).toNat then
    throw .failure
  else
    next (0 < s.nodes)

/-- `getU16`, `getU32` and `getU64`: a number of the given size. -/
def getNumber (size : Nat) : Reader Nat := do
  let s ← get
  let l ← read size (0 < s.nodes)
  return Bytes.decode l

def getU16 : Reader Nat := getNumber 2

def getU32 : Reader Nat := getNumber 4

def getU64 : Reader Nat := getNumber 8

def getString : Reader (List UInt8) := do
  let len ← getU16
  if 0 < len ∧ len < 8192 then
    let s ← get
    if s.data.length < (s.pos + UInt32.ofNat len).toNat then
      throw .failure
    else
      let str ← copy len
      advance (UInt32.ofNat len)
      return str
  else if len ≠ 0 then
    throw .failure
  else
    return []

def isProp (prop : UInt8) (toNext : Bool) : Reader Bool := do
  if (← getU8) = prop then
    if !toNext then
      back
    return true
  back
  return false

def startNode (type : UInt8) : Reader Bool := do
  if (← getU8) = START then
    if type = 0 then
      modify fun s => { s with nodes := s.nodes + 1 }
      return true
    if (← getU8) = type then
      modify fun s => { s with nodes := s.nodes + 1 }
      return true
    back
  back
  return false

def endNode : Reader Bool := do
  if (← getU8) = END then
    modify fun s => { s with nodes := s.nodes - 1 }
    return true
  back
  return false

/-! ## The bytes that remain -/

def rest (s : FileStream) : List UInt8 := s.data.drop s.pos.toNat

/-- The stream of which `l` remains. -/
def leave (s : FileStream) (l : List UInt8) : FileStream :=
  { s with pos := UInt32.ofNat (s.data.length - l.length) }

/-- The position is one of the data, or the end of them. -/
structure Fits (s : FileStream) : Prop where
  length : s.data.length < 2 ^ 32
  pos : s.pos.toNat ≤ s.data.length

variable {s : FileStream} {l : List UInt8}

theorem leave_pos (h : s.data.length < 2 ^ 32) :
    (s.leave l).pos.toNat = s.data.length - l.length := by
  rw [leave, UInt32.toNat_ofNat']
  exact Nat.mod_eq_of_lt (by omega)

theorem rest_leave (h : s.data.length < 2 ^ 32) (hl : l <:+ s.data) : (s.leave l).rest = l := by
  rw [rest, leave_pos h]
  exact (List.suffix_iff_eq_drop.1 hl).symm

theorem Fits.leave (h : s.Fits) (l : List UInt8) : (s.leave l).Fits :=
  ⟨h.length, by rw [leave_pos h.length]; exact Nat.sub_le _ _⟩

theorem length_rest (s : FileStream) : s.rest.length = s.data.length - s.pos.toNat :=
  List.length_drop

theorem rest_suffix (s : FileStream) : s.rest <:+ s.data := List.drop_suffix _ _

/-- A stream is told by its bytes that remain. -/
theorem Fits.leave_rest (h : s.Fits) : s.leave s.rest = s := by
  have hpos := h.pos
  have heq : s.data.length - s.rest.length = s.pos.toNat := by rw [s.length_rest]; omega
  rw [FileStream.leave, heq, UInt32.ofNat_toNat]

@[simp] theorem leave_data (s : FileStream) (l : List UInt8) : (s.leave l).data = s.data := rfl

@[simp] theorem leave_nodes (s : FileStream) (l : List UInt8) : (s.leave l).nodes = s.nodes := rfl

@[simp] theorem leave_leave (s : FileStream) (l l' : List UInt8) :
    (s.leave l).leave l' = s.leave l' := rfl

/-- Steps over the bytes `l'`. -/
theorem Fits.advance (h : s.Fits) (l' : List UInt8) (hr : s.rest = l' ++ l) :
    { s with pos := s.pos + UInt32.ofNat l'.length } = s.leave l := by
  have hlen := s.length_rest
  have hpos := h.pos
  rw [hr, List.length_append] at hlen
  have heq : s.data.length - l.length = s.pos.toNat + l'.length := by omega
  rw [FileStream.leave, heq, UInt32.ofNat_add, UInt32.ofNat_toNat]

/-- Steps back over the byte `b`. -/
theorem leave_back {b : UInt8} (hl : b :: l <:+ s.data) :
    { s.leave l with pos := (s.leave l).pos - 1 } = s.leave (b :: l) := by
  have hle := hl.length_le
  rw [List.length_cons] at hle
  have heq : s.data.length - l.length = s.data.length - (b :: l).length + 1 := by
    rw [List.length_cons]
    omega
  have hpos : (s.leave l).pos - 1 = UInt32.ofNat (s.data.length - (b :: l).length) := by
    rw [FileStream.leave, heq, UInt32.ofNat_add]
    exact UInt32.add_sub_cancel _ _
  rw [hpos]
  rfl

theorem current_eq (s : FileStream) :
    current s = match s.rest with
      | [] => .error .outside
      | b :: _ => .ok (b, s) := by
  rw [current, rest, ← List.head?_drop]
  rcases s.data.drop s.pos.toNat with _ | ⟨b, l⟩ <;> rfl

/-! ## What a read does -/

section Bind

variable {α β : Type} {m : Reader α} {f : α → Reader β} {s' : FileStream} {a : α} {e : Fault}

theorem bind_of_ok (h : m s = .ok (a, s')) : (m >>= f) s = f a s' := by
  change (m s).bind _ = _
  rw [h]
  rfl

theorem bind_of_error (h : m s = .error e) : (m >>= f) s = .error e := by
  change (m s).bind _ = _
  rw [h]
  rfl

end Bind

theorem current_of_rest {b : UInt8} (h : s.rest = b :: l) : current s = .ok (b, s) := by
  rw [current_eq, h]

theorem current_of_end (h : s.rest = []) : current s = .error .outside := by
  rw [current_eq, h]

theorem Fits.advance_one (h : s.Fits) {b : UInt8} (hr : s.rest = b :: l) :
    FileStream.advance 1 s = .ok ((), s.leave l) :=
  congrArg (fun t => Except.ok ((), t)) (h.advance [b] hr)

/-- One byte of those that remain. -/
def takeByte (escape : Bool) (l : List UInt8) : Option (UInt8 × List UInt8) :=
  if escape then Escape.read ESCAPE l else l.head?.map fun b => (b, l.tail)

/-- Some bytes of those that remain. -/
def takeBytes (escape : Bool) (n : Nat) (l : List UInt8) : Option (List UInt8 × List UInt8) :=
  if escape then Escape.readMany ESCAPE n l
  else if n ≤ l.length then some (l.take n, l.drop n) else none

/-- A read that is given what remains, and leaves some of it; or there is too little of it. -/
def answer {α : Type} (s : FileStream) : Option (α × List UInt8) → Except Fault (α × FileStream)
  | none => .error .outside
  | some (a, l) => .ok (a, s.leave l)

/-- `m_data[m_pos++]`. -/
theorem Fits.current_advance (h : s.Fits) :
    (do let v ← current; FileStream.advance 1; return v : Reader UInt8) s =
      s.answer (takeByte false s.rest) := by
  rcases hs : s.rest with _ | ⟨b, l⟩
  · rw [bind_of_error (current_of_end hs)]
    rfl
  · rw [bind_of_ok (current_of_rest hs), bind_of_ok (h.advance_one hs)]
    rfl

theorem Fits.next_eq (h : s.Fits) (escape : Bool) :
    next escape s = s.answer (takeByte escape s.rest) := by
  cases escape with
  | false => exact h.current_advance
  | true =>
    rw [next, takeByte, if_pos rfl]
    simp only [if_pos]
    rcases hs : s.rest with _ | ⟨b, l⟩
    · rw [bind_of_error (current_of_end hs)]
      rfl
    · rw [bind_of_ok (current_of_rest hs)]
      by_cases hb : b = ESCAPE
      · -- The byte behind the escape is the one that is read.
        subst hb
        have hl : l <:+ s.data := (List.suffix_cons _ _).trans (hs ▸ s.rest_suffix)
        rw [if_pos rfl, bind_of_ok (h.advance_one hs), (h.leave l).current_advance,
          rest_leave h.length hl]
        cases l with
        | nil => rfl
        | cons c l => rfl
      · rw [if_neg hb, h.current_advance, hs, Escape.read_cons_of_ne hb]
        rfl

theorem Fits.readEscaped_eq (h : s.Fits) (n : Nat) :
    readEscaped n s = s.answer (Escape.readMany ESCAPE n s.rest) := by
  induction n generalizing s with
  | zero =>
    rw [Escape.readMany, answer, h.leave_rest]
    rfl
  | succ n ih =>
    have hnext := h.next_eq true
    rw [readEscaped, Escape.readMany]
    rcases hr : Escape.read ESCAPE s.rest with _ | ⟨b, l⟩
    · rw [takeByte, if_pos rfl, hr] at hnext
      exact bind_of_error hnext
    · rw [takeByte, if_pos rfl, hr] at hnext
      have hl : l <:+ s.data := (Escape.read_suffix hr).1.trans s.rest_suffix
      have hmany := ih (h.leave l)
      rw [rest_leave h.length hl] at hmany
      rw [bind_of_ok hnext, Option.bind_some]
      rcases hm : Escape.readMany ESCAPE n l with _ | ⟨bs, l'⟩
      · rw [hm] at hmany
        exact bind_of_error hmany
      · rw [hm] at hmany
        exact bind_of_ok hmany

theorem takeByte_false_eq_none {l : List UInt8} (h : l ≠ []) : takeByte false l ≠ none := by
  cases l with
  | nil => exact absurd rfl h
  | cons b l => exact Option.some_ne_none _

theorem takeByte_suffix {escape : Bool} {l l' : List UInt8} {b : UInt8}
    (h : takeByte escape l = some (b, l')) : l' <:+ l ∧ l'.length < l.length := by
  cases escape with
  | true => exact Escape.read_suffix h
  | false =>
    cases l with
    | nil => cases h
    | cons c l =>
      cases h
      exact ⟨List.suffix_cons _ _, Nat.lt_succ_self _⟩

theorem Fits.copy_eq (h : s.Fits) (n : Nat) :
    (do let l ← copy n; FileStream.advance (UInt32.ofNat n); return l : Reader (List UInt8)) s =
      s.answer (takeBytes false n s.rest) := by
  have hpos := h.pos
  have hlen := s.length_rest
  simp only [takeBytes, Bool.false_eq_true, if_false]
  by_cases hn : n ≤ s.rest.length
  · have hcopy : copy n s = .ok (s.rest.take n, s) := if_pos (by omega)
    have hadv := h.advance _ (List.take_append_drop n s.rest).symm
    rw [List.length_take_of_le hn] at hadv
    rw [if_pos hn, bind_of_ok hcopy, answer, ← hadv]
    rfl
  · have hcopy : copy n s = .error .outside := if_neg (by omega)
    rw [if_neg hn, bind_of_error hcopy]
    rfl

theorem Fits.read_eq (h : s.Fits) (n : Nat) (escape : Bool) :
    read n escape s = if s.rest.length < n then .error .failure
      else s.answer (takeBytes escape n s.rest) := by
  have hpos := h.pos
  have hiff : s.data.length < s.pos.toNat + n ↔ s.rest.length < n := by
    rw [s.length_rest]
    omega
  rw [read, bind_of_ok rfl]
  simp only [hiff]
  by_cases hn : s.rest.length < n
  · rw [if_pos hn, if_pos hn]
    rfl
  · rw [if_neg hn, if_neg hn]
    cases escape with
    | true => exact h.readEscaped_eq n
    | false => exact h.copy_eq n

/-- The number whose bytes come next. -/
def takeNumber (escape : Bool) (n : Nat) (l : List UInt8) : Option (Nat × List UInt8) :=
  (takeBytes escape n l).map fun p => (Bytes.decode p.1, p.2)

theorem Fits.getNumber_eq (h : s.Fits) (n : Nat) :
    getNumber n s = if s.rest.length < n then .error .failure
      else s.answer (takeNumber (0 < s.nodes) n s.rest) := by
  have hread := h.read_eq n (0 < s.nodes)
  rw [getNumber, bind_of_ok rfl]
  by_cases hn : s.rest.length < n
  · rw [if_pos hn] at hread ⊢
    exact bind_of_error hread
  · rw [if_neg hn] at hread ⊢
    rw [takeNumber]
    rcases hb : takeBytes (0 < s.nodes) n s.rest with _ | ⟨bs, l⟩
    · rw [hb] at hread
      exact bind_of_error hread
    · rw [hb] at hread
      exact bind_of_ok hread

/-- At the end of the longest data that a position can be in, the test for the end overflows. -/
theorem Fits.getU8_eq (h : s.Fits) (hend : s.rest ≠ [] ∨ s.data.length + 1 < 2 ^ 32) :
    getU8 s = if s.rest = [] then .error .failure
      else s.answer (takeByte (0 < s.nodes) s.rest) := by
  have hpos := h.pos
  have hlen := s.length_rest
  have hlt := h.length
  have hnil : s.rest = [] ↔ s.rest.length = 0 := List.length_eq_zero_iff.symm
  have hone : (s.pos + 1).toNat = s.pos.toNat + 1 := by
    rw [UInt32.toNat_add, UInt32.toNat_one, Nat.mod_eq_of_lt]
    rcases hend with hend | hend
    · have := mt hnil.2 hend
      omega
    · omega
  have hiff : s.data.length < (s.pos + 1).toNat ↔ s.rest = [] := by
    rw [hone, hnil]
    omega
  rw [getU8, bind_of_ok rfl]
  simp only [hiff]
  by_cases hn : s.rest = []
  · rw [if_pos hn, if_pos hn]
    rfl
  · rw [if_neg hn, if_neg hn]
    exact h.next_eq _

end FileStream

end Canary.Map
