import Canary.Lib.Bytes
import Mathlib.Algebra.Order.Group.Nat

/-!
# SHA-1

The hash function SHA-1, as its standard defines it.

A message is padded with the byte 0x80, zeros, and its length in bits as a number of 64 bits, the
highest byte first, to a multiple of 64 bytes (`pad`). Each block of 64 bytes is 16 words, from
which the schedule makes 80 (`schedule`): with them, the 80 steps of `compress` change a state of
five words, and the result is added to it. The state after all blocks is the digest.

Blocks are hashed one after the other (`hash_append`), so an implementation can do so while it
reads the message.
-/

namespace Sha1

abbrev Word := BitVec 32

/-- The working variables. -/
@[ext] structure State where
  a : Word
  b : Word
  c : Word
  d : Word
  e : Word
  deriving DecidableEq

def State.add (s t : State) : State := ⟨s.a + t.a, s.b + t.b, s.c + t.c, s.d + t.d, s.e + t.e⟩

/-- The initial hash value. -/
def initial : State := ⟨0x67452301, 0xEFCDAB89, 0x98BADCFE, 0x10325476, 0xC3D2E1F0⟩

def ch (x y z : Word) : Word := (x &&& y) ^^^ (~~~x &&& z)

def parity (x y z : Word) : Word := x ^^^ y ^^^ z

def maj (x y z : Word) : Word := (x &&& y) ^^^ (x &&& z) ^^^ (y &&& z)

/-- The function of a step. -/
def f (t : ℕ) : Word → Word → Word → Word :=
  if t < 20 then ch else if t < 40 then parity else if t < 60 then maj else parity

/-- The constant of a step. -/
def k (t : ℕ) : Word :=
  if t < 20 then 0x5A827999 else if t < 40 then 0x6ED9EBA1 else if t < 60 then 0x8F1BBCDC
  else 0xCA62C1D6

/-- The message schedule. -/
def schedule (M : ℕ → Word) (t : ℕ) : Word :=
  if t < 16 then M t
  else
    (schedule M (t - 3) ^^^ schedule M (t - 8) ^^^ schedule M (t - 14) ^^^
      schedule M (t - 16)).rotateLeft 1

def step (W : ℕ → Word) (s : State) (t : ℕ) : State :=
  ⟨s.a.rotateLeft 5 + f t s.b s.c s.d + s.e + W t + k t, s.a, s.b.rotateLeft 30, s.c, s.d⟩

/-- A block, given by its 16 words. -/
def compress (M : ℕ → Word) (H : State) : State :=
  H.add ((List.range 80).foldl (step (schedule M)) H)

/-- The words of a block, the highest byte first. -/
def words (block : List UInt8) (i : ℕ) : Word :=
  (block.getD (4 * i) 0).toBitVec ++ (block.getD (4 * i + 1) 0).toBitVec ++
    (block.getD (4 * i + 2) 0).toBitVec ++ (block.getD (4 * i + 3) 0).toBitVec

/-- All blocks, one after the other. -/
def hash (H : State) (l : List UInt8) : State :=
  if l.length < 64 then H else hash (compress (words (l.take 64)) H) (l.drop 64)
termination_by l.length
decreasing_by
  rw [List.length_drop]
  omega

/-- The zeros fill the last block. -/
def pad (message : List UInt8) : List UInt8 :=
  message ++ 0x80 :: (List.replicate ((119 - message.length % 64) % 64) 0 ++
    (Bytes.encode 8 (8 * message.length)).reverse)

/-- The bytes of the words, the highest one first. -/
def State.bytes (H : State) : List UInt8 :=
  [H.a, H.b, H.c, H.d, H.e].flatMap fun w => (Bytes.encode 4 w.toNat).reverse

def digest (message : List UInt8) : List UInt8 := (hash initial (pad message)).bytes

/-- The hexadecimal digits of bytes. -/
def hex (l : List UInt8) : List Char :=
  l.flatMap fun b => [Nat.digitChar (b.toNat / 16), Nat.digitChar (b.toNat % 16)]

/-! ## Blocks -/

theorem hash_of_lt {H : State} {l : List UInt8} (h : l.length < 64) : hash H l = H := by
  rw [hash, if_pos h]

theorem hash_block_append {block : List UInt8} (h : block.length = 64) (H : State)
    (l : List UInt8) : hash H (block ++ l) = hash (compress (words block) H) l := by
  have hle : ¬(block ++ l).length < 64 := by
    rw [List.length_append]
    omega
  rw [hash, if_neg hle, List.take_left' h, List.drop_left' h]

theorem hash_block {block : List UInt8} (h : block.length = 64) (H : State) :
    hash H block = compress (words block) H := by
  have hnil := hash_block_append h H []
  rw [List.append_nil] at hnil
  exact hnil.trans (hash_of_lt (Nat.zero_lt_succ 63))

/-- Whole blocks are hashed first. -/
theorem hash_append {p : List UInt8} (hp : p.length % 64 = 0) (H : State) (l : List UInt8) :
    hash H (p ++ l) = hash (hash H p) l := by
  induction H, p using hash.induct with
  | case1 H p hlt =>
    obtain rfl : p = [] := List.eq_nil_of_length_eq_zero (by omega)
    rw [List.nil_append, hash_of_lt hlt]
  | case2 H p hle ih =>
    have hblock : (p.take 64).length = 64 := by
      rw [List.length_take]
      omega
    have hrest : (p.drop 64).length % 64 = 0 := by
      rw [List.length_drop]
      omega
    calc hash H (p ++ l) = hash H (p.take 64 ++ (p.drop 64 ++ l)) := by
          rw [← List.append_assoc, List.take_append_drop]
      _ = hash (compress (words (p.take 64)) H) (p.drop 64 ++ l) := hash_block_append hblock H _
      _ = hash (hash (compress (words (p.take 64)) H) (p.drop 64)) l := ih hrest
      _ = hash (hash H p) l := by rw [hash.eq_def H p, if_neg hle]

theorem length_digest (message : List UInt8) : (digest message).length = 20 := rfl

end Sha1
