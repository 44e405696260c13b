import Mathlib.Tactic.Common

/-!
# Streams of fields

A record is read from a stream of bytes as fields, each a tag and its parts, up to an end tag or
to the end of the stream. A table gives the parts of each tag, as their numbers of bytes, and what
a field does to the state of the reader. A field may also ask for more than the state has room
for: then the record lies outside of it.

Reading is scanning (`scan`), which knows the numbers of bytes only, and then applying the fields
(`applyAll`, `read_eq`). So fields that are written, with an end tag, are read back as what
applying them gives (`read_write`), and whether a record lies outside is said about the fields that
are scanned.
-/

namespace FieldStream

variable {σ : Type*}

/-- A field: its tag and its parts. -/
abbrev Entry := UInt8 × List (List UInt8)

/-- How a tag is read: the sizes of its parts, and what they do, if there is room. -/
structure Handler (σ : Type*) where
  sizes : List ℕ
  apply : List (List UInt8) → σ → Option σ

/-- What comes of reading a record. After the last two, and before a field that is refused, the
stream goes on. -/
inductive Outcome (σ : Type*)
  | outside
  | refused (s : List UInt8)
  | done (st : σ) (s : List UInt8)
  deriving DecidableEq

/-- Read the parts. Where the stream is too short for one, those before it have been taken. -/
def readParts : List ℕ → List UInt8 → Option (List (List UInt8)) × List UInt8
  | [], s => (some [], s)
  | n :: ns, s =>
    if s.length < n then (none, s)
    else ((readParts ns (s.drop n)).1.map (s.take n :: ·), (readParts ns (s.drop n)).2)

variable (stop : UInt8) (table : UInt8 → Option (Handler σ))

/-- Read at most `n` fields. -/
def readFields : ℕ → List UInt8 → σ → Option (Outcome σ)
  | _, [], st => some (.done st [])
  | 0, _ :: _, _ => none
  | n + 1, t :: s, st =>
    if t = stop then some (.done st s)
    else match table t with
      | none => some (.refused s)
      | some f =>
        match readParts f.sizes s with
        | (none, s) => some (.refused s)
        | (some parts, s) =>
          match f.apply parts st with
          | none => some .outside
          | some st => readFields n s st

/-- The fields up to the end tag, whether they end so, and what is left. -/
def scanFields : ℕ → List UInt8 → List Entry × Bool × List UInt8
  | _, [] => ([], true, [])
  | 0, s => ([], false, s)
  | n + 1, t :: s =>
    if t = stop then ([], true, s)
    else match table t with
      | none => ([], false, s)
      | some f =>
        match readParts f.sizes s with
        | (none, s) => ([], false, s)
        | (some parts, s) => ((t, parts) :: (scanFields n s).1, (scanFields n s).2)

def scan (s : List UInt8) : List Entry × Bool × List UInt8 := scanFields stop table s.length s

/-- Read a record. The stream is as much fuel as that takes (`read_eq`). -/
def read (s : List UInt8) (st : σ) : Option (Outcome σ) := readFields stop table s.length s st

/-- Apply fields in turn. -/
def applyAll : List Entry → σ → Option σ
  | [], st => some st
  | (t, parts) :: l, st => (table t).bind fun f => (f.apply parts st).bind (applyAll l)

variable {stop table}

theorem readParts_length (ns : List ℕ) (s : List UInt8) :
    (readParts ns s).2.length ≤ s.length := by
  induction ns generalizing s with
  | nil => exact Nat.le_refl _
  | cons n ns ih =>
    rw [readParts]
    split
    · exact Nat.le_refl _
    · exact Nat.le_trans (ih _) (by simp)

theorem readParts_flatten {ns : List ℕ} {parts : List (List UInt8)}
    (h : parts.map List.length = ns) (s : List UInt8) :
    readParts ns (parts.flatten ++ s) = (some parts, s) := by
  subst h
  induction parts with
  | nil => rfl
  | cons part parts ih =>
    rw [List.map_cons, readParts, List.flatten_cons, List.append_assoc, if_neg (by simp),
      List.take_left, List.drop_left, ih]
    rfl

/-- Reading is scanning and applying, with as much fuel as there are bytes. -/
theorem readFields_eq {n : ℕ} {s : List UInt8} (hn : s.length ≤ n) (st : σ) :
    readFields stop table n s st = some (
      match applyAll table (scanFields stop table n s).1 st with
      | none => .outside
      | some st =>
        if (scanFields stop table n s).2.1 then .done st (scanFields stop table n s).2.2
        else .refused (scanFields stop table n s).2.2) := by
  induction n generalizing s st with
  | zero =>
    rw [List.eq_nil_of_length_eq_zero (Nat.le_zero.1 hn)]
    rfl
  | succ n ih =>
    cases s with
    | nil => rfl
    | cons t s =>
      rw [readFields, scanFields]
      by_cases ht : t = stop
      · simp only [if_pos ht]
        rfl
      · simp only [if_neg ht]
        rcases hf : table t with _ | f
        · rfl
        · rcases hp : readParts f.sizes s with ⟨_ | parts, s'⟩
          · simp only [hp]
            rfl
          · have hlen : s'.length ≤ n := by
              have hle := readParts_length f.sizes s
              rw [hp] at hle
              rw [List.length_cons] at hn
              exact Nat.le_trans hle (Nat.le_of_succ_le_succ hn)
            simp only [hp, applyAll, hf, Option.bind_some]
            rcases hap : f.apply parts st with _ | st'
            · rfl
            · simp only [ih hlen, Option.bind_some]

theorem read_eq (s : List UInt8) (st : σ) :
    read stop table s st = some (
      match applyAll table (scan stop table s).1 st with
      | none => .outside
      | some st =>
        if (scan stop table s).2.1 then .done st (scan stop table s).2.2
        else .refused (scan stop table s).2.2) := readFields_eq (Nat.le_refl _) st

/-- What is left is no longer than the stream. -/
theorem scan_length (s : List UInt8) : (scan stop table s).2.2.length ≤ s.length := by
  suffices h : ∀ n (s : List UInt8), (scanFields stop table n s).2.2.length ≤ s.length from h _ s
  intro n
  induction n with
  | zero =>
    intro s
    cases s <;> exact Nat.le_refl _
  | succ n ih =>
    intro s
    cases s with
    | nil => exact Nat.le_refl _
    | cons t s =>
      rw [scanFields, List.length_cons]
      split
      · exact Nat.le_succ _
      · split
        · exact Nat.le_succ _
        · rename_i f _
          have hle := readParts_length f.sizes s
          split
          · rename_i s' hp
            rw [hp] at hle
            exact Nat.le_succ_of_le hle
          · rename_i parts s' hp
            rw [hp] at hle
            exact Nat.le_succ_of_le (Nat.le_trans (ih s') hle)

/-! ## Written fields -/

/-- The bytes of fields. -/
def write (l : List Entry) : List UInt8 := l.flatMap fun e => e.1 :: e.2.flatten

/-- The field has the parts that the table gives for its tag. -/
def Fits (stop : UInt8) (table : UInt8 → Option (Handler σ)) (e : Entry) : Prop :=
  e.1 ≠ stop ∧ ∃ f, table e.1 = some f ∧ e.2.map List.length = f.sizes

theorem scanFields_write {l : List Entry} (h : ∀ e ∈ l, Fits stop table e) (s : List UInt8)
    {n : ℕ} (hn : l.length < n) :
    scanFields stop table n (write l ++ stop :: s) = (l, true, s) := by
  induction l generalizing n with
  | nil =>
    obtain ⟨n, rfl⟩ := Nat.exists_eq_succ_of_ne_zero (Nat.ne_of_gt hn)
    simp [write, scanFields]
  | cons e l ih =>
    obtain ⟨n, rfl⟩ := Nat.exists_eq_succ_of_ne_zero (Nat.ne_zero_of_lt hn)
    obtain ⟨hne, f, hf, hlen⟩ := h e List.mem_cons_self
    have hn' : l.length < n := by simpa using hn
    have hbytes : write (e :: l) ++ stop :: s = e.1 :: (e.2.flatten ++ (write l ++ stop :: s)) := by
      simp [write]
    rw [hbytes, scanFields, if_neg hne]
    simp only [hf, readParts_flatten hlen,
      ih (fun e he => h e (List.mem_cons_of_mem _ he)) hn']

theorem readParts_parts {ns : List ℕ} {s s' : List UInt8} {parts : List (List UInt8)}
    (h : readParts ns s = (some parts, s')) : parts.map List.length = ns := by
  induction ns generalizing s s' parts with
  | nil =>
    cases h
    rfl
  | cons n ns ih =>
    rw [readParts] at h
    split at h
    · cases h
    · rename_i hn
      rcases hrest : readParts ns (s.drop n) with ⟨_ | rest, s''⟩
      · rw [hrest] at h
        cases h
      · rw [hrest] at h
        cases h
        rw [List.map_cons, ih hrest, List.length_take, Nat.min_eq_left (Nat.le_of_not_lt hn)]

/-- The fields that are scanned have the parts that the table gives. -/
theorem scan_fits (s : List UInt8) : ∀ e ∈ (scan stop table s).1, Fits stop table e := by
  suffices h : ∀ n (s : List UInt8), ∀ e ∈ (scanFields stop table n s).1, Fits stop table e from
    h _ s
  intro n
  induction n with
  | zero =>
    intro s e he
    cases s <;> exact absurd he List.not_mem_nil
  | succ n ih =>
    intro s e he
    cases s with
    | nil => exact absurd he List.not_mem_nil
    | cons t s =>
      rw [scanFields] at he
      split at he
      · exact absurd he List.not_mem_nil
      · rename_i hne
        split at he
        · exact absurd he List.not_mem_nil
        · rename_i f hf
          split at he
          · exact absurd he List.not_mem_nil
          · rename_i parts s' hp
            rcases List.mem_cons.1 he with rfl | he
            · exact ⟨hne, f, hf, readParts_parts hp⟩
            · exact ih s' e he

theorem length_le_write (l : List Entry) : l.length ≤ (write l).length := by
  induction l with
  | nil => exact Nat.le_refl _
  | cons e l ih =>
    have hcons : write (e :: l) = e.1 :: e.2.flatten ++ write l := List.flatMap_cons
    rw [hcons, List.length_append, List.length_cons, List.length_cons]
    omega

theorem scan_write {l : List Entry} (h : ∀ e ∈ l, Fits stop table e) (s : List UInt8) :
    scan stop table (write l ++ stop :: s) = (l, true, s) := by
  refine scanFields_write h s ?_
  have hle := length_le_write l
  rw [List.length_append, List.length_cons]
  omega

/-- Fields that are written are read back as applying them gives, and nothing else is read. -/
theorem read_write {l : List Entry} (h : ∀ e ∈ l, Fits stop table e) {st st' : σ}
    (hap : applyAll table l st = some st') (s : List UInt8) :
    read stop table (write l ++ stop :: s) st = some (.done st' s) := by
  rw [read_eq, scan_write h, hap]
  rfl

theorem applyAll_append (l l' : List Entry) (st : σ) :
    applyAll table (l ++ l') st = (applyAll table l st).bind (applyAll table l') := by
  induction l generalizing st with
  | nil => rfl
  | cons e l ih =>
    rw [List.cons_append, applyAll, applyAll, Option.bind_assoc]
    refine congrArg _ (funext fun f => ?_)
    rw [Option.bind_assoc]
    exact congrArg _ (funext fun st => ih st)

/-- Fields that never ask for more room than there is. -/
theorem applyAll_isSome {l : List Entry} (hl : ∀ e ∈ l, Fits stop table e)
    (h : ∀ t f, table t = some f → ∀ parts st, (f.apply parts st).isSome) (st : σ) :
    (applyAll table l st).isSome := by
  induction l generalizing st with
  | nil => rfl
  | cons e l ih =>
    obtain ⟨-, f, hf, -⟩ := hl e List.mem_cons_self
    obtain ⟨st', hst'⟩ := Option.isSome_iff_exists.1 (h e.1 f hf e.2 st)
    rw [applyAll, hf, Option.bind_some, hst', Option.bind_some]
    exact ih (fun e he => hl e (List.mem_cons_of_mem _ he)) st'

end FieldStream
