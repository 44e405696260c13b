import Mathlib.Data.Nat.Init
import Mathlib.Tactic.Common
import Mathlib.Algebra.Order.Ring.Int

/-!
# Byte streams

Numbers and strings in a stream of bytes: a number takes a fixed number of bytes, the lowest
first, and a string its length in two bytes and then its characters. A `Scalar` is a
fixed-width integer type; its values are kept widened to 64 bits.

Reading what was written gives the value back, as the type can hold it, and the rest of the
stream (`Scalar.read_write`, `readString_writeString`).
-/

namespace Bytes

/-- The lowest `n` bytes of a number, the lowest first. -/
def encode : Nat → Nat → List UInt8
  | 0, _ => []
  | n + 1, v => UInt8.ofNat v :: encode n (v / 256)

/-- The number whose bytes are given, the lowest first. -/
def decode : List UInt8 → Nat
  | [] => 0
  | b :: l => b.toNat + 256 * decode l

@[simp] theorem length_encode (n v : Nat) : (encode n v).length = n := by
  induction n generalizing v with
  | zero => rfl
  | succ n ih => rw [encode, List.length_cons, ih]

theorem decode_encode (n v : Nat) : decode (encode n v) = v % 256 ^ n := by
  induction n generalizing v with
  | zero => simp [encode, decode, Nat.mod_one]
  | succ n ih =>
    have hb : (UInt8.ofNat v).toNat = v % 256 := by simp
    rw [encode, decode, ih, hb, Nat.pow_succ', Nat.mod_mul]

theorem decode_append (l l' : List UInt8) :
    decode (l ++ l') = decode l + 256 ^ l.length * decode l' := by
  induction l with
  | nil => rw [List.nil_append, decode, List.length_nil, Nat.pow_zero, Nat.one_mul, Nat.zero_add]
  | cons b l ih =>
    rw [List.cons_append, decode, decode, ih, List.length_cons, Nat.pow_succ', Nat.mul_add,
      Nat.mul_assoc, Nat.add_assoc]

theorem decode_lt (l : List UInt8) : decode l < 256 ^ l.length := by
  induction l with
  | nil => exact Nat.one_pos
  | cons b l ih =>
    have hb := b.toNat_lt
    rw [decode, List.length_cons, Nat.pow_succ']
    omega

/-- Bytes are those of the number they make. -/
theorem encode_decode (l : List UInt8) : encode l.length (decode l) = l := by
  induction l with
  | nil => rfl
  | cons b l ih =>
    have hb := b.toNat_lt
    have hmod : (b.toNat + 256 * decode l) % 256 = b.toNat := by omega
    have hdiv : (b.toNat + 256 * decode l) / 256 = decode l := by omega
    rw [decode, List.length_cons, encode, hdiv, ih]
    congr 1
    refine UInt8.toNat_inj.1 ?_
    rw [UInt8.toNat_ofNat', hmod]

/-- The low bytes come first, and then the high ones. -/
theorem encode_add (n k v : Nat) : encode (n + k) v = encode n v ++ encode k (v / 256 ^ n) := by
  induction n generalizing v with
  | zero => rw [Nat.zero_add, encode, List.nil_append, Nat.pow_zero, Nat.div_one]
  | succ n ih =>
    rw [Nat.succ_add, encode, ih, encode, List.cons_append, Nat.div_div_eq_div_mul, Nat.pow_succ']

/-- The lowest bytes are those of the remainder. -/
theorem encode_mod (n v : Nat) : encode n (v % 256 ^ n) = encode n v := by
  have h := encode_decode (encode n v)
  rwa [length_encode, decode_encode] at h

theorem encode_zero (k : Nat) : encode k 0 = List.replicate k 0 := by
  induction k with
  | zero => rfl
  | succ k ih =>
    rw [encode, Nat.zero_div, ih, List.replicate_succ]
    rfl

/-- The bytes behind the highest one of a number are zero. -/
theorem encode_add_of_lt {n v : Nat} (h : v < 256 ^ n) (k : Nat) :
    encode (n + k) v = encode n v ++ List.replicate k 0 := by
  rw [encode_add, Nat.div_eq_of_lt h, encode_zero]

/-- Take `n` bytes off the stream. -/
def take (n : Nat) (s : List UInt8) : Option (List UInt8 × List UInt8) :=
  if s.length < n then none else some (s.take n, s.drop n)

theorem take_append {n : Nat} {l : List UInt8} (h : l.length = n) (s : List UInt8) :
    take n (l ++ s) = some (l, s) := by
  have hn : ¬(l ++ s).length < n := by simp [h]
  rw [take, if_neg hn, List.take_left' h, List.drop_left' h]

theorem take_length {n : Nat} {s l s' : List UInt8} (h : take n s = some (l, s')) :
    s'.length + n = s.length := by
  unfold take at h
  split at h
  · cases h
  · cases h
    rw [List.length_drop]
    omega

/-! ## Integers -/

/-- A fixed-width integer type of at most 64 bits. -/
structure Scalar where
  bytes : Nat
  signed : Bool
  bytes_le : bytes ≤ 8

namespace Scalar

def u8 : Scalar := ⟨1, false, by decide⟩
def i8 : Scalar := ⟨1, true, by decide⟩
def u16 : Scalar := ⟨2, false, by decide⟩
def i32 : Scalar := ⟨4, true, by decide⟩
def u32 : Scalar := ⟨4, false, by decide⟩
def i64 : Scalar := ⟨8, true, by decide⟩
def u64 : Scalar := ⟨8, false, by decide⟩

variable (T : Scalar)

/-- The value of the type with the bits of a number, widened to 64 bits. -/
def ofNat (n : Nat) : BitVec 64 :=
  let v := BitVec.ofNat (8 * T.bytes) n
  if T.signed then v.signExtend 64 else v.setWidth 64

/-- What a 64-bit value becomes as a value of the type. -/
def cast (v : BitVec 64) : BitVec 64 := T.ofNat v.toNat

/-- Append a value to the stream. -/
def write (v : BitVec 64) : List UInt8 := encode T.bytes v.toNat

/-- Take a value off the stream. -/
def read (s : List UInt8) : Option (BitVec 64 × List UInt8) :=
  (take T.bytes s).map fun (l, s) => (T.ofNat (decode l), s)

variable {T}

theorem ofNat_mod (n : Nat) : T.ofNat (n % 256 ^ T.bytes) = T.ofNat n := by
  have hw : 256 ^ T.bytes = 2 ^ (8 * T.bytes) := by rw [Nat.pow_mul]
  have hn : BitVec.ofNat (8 * T.bytes) (n % 256 ^ T.bytes) = BitVec.ofNat (8 * T.bytes) n := by
    rw [hw]
    exact BitVec.eq_of_toNat_eq (by simp)
  rw [ofNat, ofNat, hn]

theorem read_write (v : BitVec 64) (s : List UInt8) :
    T.read (T.write v ++ s) = some (T.cast v, s) := by
  rw [read, write, take_append (length_encode _ _)]
  simp only [Option.map_some, decode_encode, ofNat_mod, cast]

theorem read_length_add {s s' : List UInt8} {v : BitVec 64} (h : T.read s = some (v, s')) :
    s'.length + T.bytes = s.length := by
  rw [read, Option.map_eq_some_iff] at h
  obtain ⟨⟨l, t⟩, ht, h⟩ := h
  cases h
  exact take_length ht

theorem read_length {s s' : List UInt8} {v : BitVec 64} (h : T.read s = some (v, s')) :
    s'.length ≤ s.length := Nat.le.intro (read_length_add h)

/-- The bits a type keeps are the same after widening. -/
theorem setWidth_ofNat (n : Nat) : (T.ofNat n).setWidth (8 * T.bytes) = BitVec.ofNat _ n := by
  have h64 : 8 * T.bytes ≤ 64 := by have := T.bytes_le; omega
  rw [ofNat]
  split
  · ext i hi
    rw [BitVec.getElem_setWidth, BitVec.getLsbD_signExtend]
    simp [hi, Nat.lt_of_lt_of_le hi h64]
  · rw [BitVec.setWidth_setWidth_of_le _ h64, BitVec.setWidth_eq]

@[simp] theorem cast_ofNat (n : Nat) : T.cast (T.ofNat n) = T.ofNat n := by
  have h : BitVec.ofNat (8 * T.bytes) (T.ofNat n).toNat = BitVec.ofNat (8 * T.bytes) n := by
    rw [BitVec.ofNat_toNat, setWidth_ofNat]
  rw [cast, ofNat, h, ofNat]

/-- A value that has the width of the type stays, widened and cast. -/
theorem setWidth_cast (x : BitVec (8 * T.bytes)) :
    (T.cast (x.setWidth 64)).setWidth (8 * T.bytes) = x := by
  have h64 : 8 * T.bytes ≤ 64 := by have := T.bytes_le; omega
  rw [cast, setWidth_ofNat, BitVec.ofNat_toNat, BitVec.setWidth_setWidth_of_le _ h64,
    BitVec.setWidth_eq]

/-- A value that fits in an unsigned type stays. -/
theorem cast_of_lt (hT : T.signed = false) {v : BitVec 64} (h : v.toNat < 2 ^ (8 * T.bytes)) :
    T.cast v = v := by
  have h64 : 8 * T.bytes ≤ 64 := by have := T.bytes_le; omega
  rw [cast, ofNat, if_neg (by simp [hT])]
  refine BitVec.eq_of_toNat_eq ?_
  rw [BitVec.toNat_setWidth, BitVec.toNat_ofNat, Nat.mod_eq_of_lt h, Nat.mod_eq_of_lt v.isLt]

@[simp] theorem cast_zero : T.cast 0 = 0 := by
  have h₀ : (0 : BitVec 64).toNat = 0 := rfl
  rw [cast, ofNat, h₀]
  split
  · ext i hi
    simp [BitVec.getElem_signExtend]
  · exact BitVec.setWidth_zero ..

/-- A value that is of the type already stays. -/
@[simp] theorem cast_cast (v : BitVec 64) : T.cast (T.cast v) = T.cast v := cast_ofNat _

end Scalar

/-! ## Strings -/

/-- Append a string to the stream: one too long for its length to fit goes as the empty one. -/
def writeString (str : List UInt8) : List UInt8 :=
  if str.length > 65535 then Scalar.u16.write 0
  else Scalar.u16.write (BitVec.ofNat 64 str.length) ++ str

/-- Take a string off the stream. -/
def readString (s : List UInt8) : Option (List UInt8 × List UInt8) :=
  match Scalar.u16.read s with
  | none => none
  | some (strLen, s) => take strLen.toNat s

theorem readString_writeString {str : List UInt8} (h : str.length ≤ 65535) (s : List UInt8) :
    readString (writeString str ++ s) = some (str, s) := by
  have hlen : (Scalar.u16.cast (BitVec.ofNat 64 str.length)).toNat = str.length := by
    simp [Scalar.cast, Scalar.ofNat, Scalar.u16]
    omega
  rw [writeString, if_neg (by omega), List.append_assoc, readString, Scalar.read_write]
  simp only [hlen]
  exact take_append rfl s

theorem readString_length {s s' str : List UInt8} (h : readString s = some (str, s')) :
    s'.length ≤ s.length := by
  unfold readString at h
  split at h
  · cases h
  · next hr =>
    have h₁ := take_length h
    have h₂ := Scalar.read_length hr
    omega

end Bytes
