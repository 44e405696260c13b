import Canary.Lib.Sha1
import Mathlib.Data.List.Basic
import Mathlib.Data.List.GetD

/-!
# Digests

`transformToSHA1` hashes a text while it reads it. The bytes are put into a block, which is
processed when it has 64 bytes; the length in bits is counted by two words. What is left in the
block at the end is padded: in this block if the length still fits, else in this one and the next.

The text that it returns are the hexadecimal digits of the digest of the standard, for every text
(`transformToSHA1_eq`). The length is counted modulo 2^64, as the padding of the standard has it.
-/

namespace Canary.Utils

open Sha1

/-! ## Blocks -/

def circularShift (bits : ℕ) (value : Word) : Word := value <<< bits ||| value >>> (32 - bits)

def byteAt (messageBlock : List UInt8) (i : ℕ) : Word :=
  (messageBlock.getD i 0).toBitVec.setWidth 32

/-- The first 16 words of `W`. -/
def blockWords (messageBlock : List UInt8) : List Word :=
  (List.range 16).map fun i =>
    let offset := i <<< 2
    byteAt messageBlock offset <<< 24 ||| byteAt messageBlock (offset + 1) <<< 16 |||
      byteAt messageBlock (offset + 2) <<< 8 ||| byteAt messageBlock (offset + 3)

/-- The word of `W` at `i`, from 16 on. -/
def extend (W : List Word) (i : ℕ) : List Word :=
  W ++ [circularShift 1
    (W.getD (i - 3) 0 ^^^ W.getD (i - 8) 0 ^^^ W.getD (i - 14) 0 ^^^ W.getD (i - 16) 0)]

/-- One of the four loops: 20 rounds with a function and a constant. -/
def rounds (f : Word → Word → Word → Word) (constant : Word) (W : List Word) (start : ℕ)
    (s : State) : State :=
  (List.range' start 20).foldl
    (fun s i =>
      let tmp := circularShift 5 s.a + f s.b s.c s.d + s.e + W.getD i 0 + constant
      { a := tmp, b := s.a, c := circularShift 30 s.b, d := s.c, e := s.d }) s

def processSHA1MessageBlock (messageBlock : List UInt8) (H : State) : State :=
  let W := (List.range' 16 64).foldl extend (blockWords messageBlock)
  let s := rounds (fun B C D => (B &&& C) ||| (~~~B &&& D)) 0x5A827999 W 0 H
  let s := rounds (fun B C D => B ^^^ C ^^^ D) 0x6ED9EBA1 W 20 s
  let s := rounds (fun B C D => (B &&& C) ||| (B &&& D) ||| (C &&& D)) 0x8F1BBCDC W 40 s
  let s := rounds (fun B C D => B ^^^ C ^^^ D) 0xCA62C1D6 W 60 s
  H.add s

/-! ## Texts -/

/-- The variables of the loop. The block is the list of the bytes that were put into it, so that
    `index` is its length. -/
structure Hasher where
  H : State
  messageBlock : List UInt8
  length_low : Word
  length_high : Word

/-- A character. -/
def Hasher.push (s : Hasher) (ch : UInt8) : Hasher :=
  let messageBlock := s.messageBlock ++ [ch]
  let length_low := s.length_low + 8
  let length_high := if length_low = 0 then s.length_high + 1 else s.length_high
  if messageBlock.length = 64 then
    ⟨processSHA1MessageBlock messageBlock s.H, [], length_low, length_high⟩
  else ⟨s.H, messageBlock, length_low, length_high⟩

/-- Zeros up to an index. -/
def fill (index : ℕ) (messageBlock : List UInt8) : List UInt8 :=
  messageBlock ++ List.replicate (index - messageBlock.length) 0

/-- The bytes of a word, the highest one first. -/
def wordBytes (w : Word) : List UInt8 :=
  [24, 16, 8, 0].map fun shift => UInt8.ofBitVec ((w >>> shift).setWidth 8)

/-- The padding. -/
def Hasher.finish (s : Hasher) : State :=
  let messageBlock := s.messageBlock ++ [0x80]
  let (messageBlock, H) :=
    if messageBlock.length > 56 then ([], processSHA1MessageBlock (fill 64 messageBlock) s.H)
    else (messageBlock, s.H)
  processSHA1MessageBlock
    (fill 56 messageBlock ++ wordBytes s.length_high ++ wordBytes s.length_low) H

def hexDigits : List Char :=
  ['0', '1', '2', '3', '4', '5', '6', '7', '8', '9', 'a', 'b', 'c', 'd', 'e', 'f']

/-- A word of the state by its index. -/
def wordAt (H : State) (i : ℕ) : Word := [H.a, H.b, H.c, H.d, H.e].getD i 0

/-- A byte of the state by its index. The bits of an index below 0 are those of its remainder. -/
def hashByte (H : State) (i : ℕ) : UInt8 :=
  UInt8.ofBitVec ((wordAt H (i >>> 2) >>> (((3 - i : ℤ) % 4).toNat <<< 3)).setWidth 8)

/-- The two digits of a byte. -/
def hexByte (byte : UInt8) : List Char :=
  [hexDigits.getD (byte >>> 4).toNat '0', hexDigits.getD (byte &&& 15).toNat '0']

def transformToSHA1 (input : List UInt8) : List Char :=
  let H : State := ⟨0x67452301, 0xEFCDAB89, 0x98BADCFE, 0x10325476, 0xC3D2E1F0⟩
  let H := (input.foldl Hasher.push ⟨H, [], 0, 0⟩).finish
  (List.range 20).flatMap fun i => hexByte (hashByte H i)

/-! ## The blocks of the standard -/

theorem circularShift_eq {bits : ℕ} (h : bits < 32) (value : Word) :
    circularShift bits value = value.rotateLeft bits := by
  rw [circularShift, BitVec.rotateLeft_def, Nat.mod_eq_of_lt h]

theorem or_eq_ch (x y z : Word) : (x &&& y) ||| (~~~x &&& z) = ch x y z := by
  ext i hi
  simp only [ch, BitVec.getElem_or, BitVec.getElem_xor, BitVec.getElem_and, BitVec.getElem_not]
  cases x[i] <;> simp

theorem or_eq_maj (x y z : Word) : (x &&& y) ||| (x &&& z) ||| (y &&& z) = maj x y z := by
  ext i hi
  simp only [maj, BitVec.getElem_or, BitVec.getElem_xor, BitVec.getElem_and]
  cases x[i] <;> cases y[i] <;> cases z[i] <;> rfl

theorem toNat_shift {b : BitVec 8} {n : ℕ} (hn : n ≤ 24) :
    (b.setWidth 32 <<< n).toNat = b.toNat <<< n := by
  have hlt : b.toNat <<< n < 2 ^ 32 := by
    rw [Nat.shiftLeft_eq]
    calc b.toNat * 2 ^ n < 2 ^ 8 * 2 ^ n := Nat.mul_lt_mul_of_pos_right b.isLt (Nat.two_pow_pos n)
      _ ≤ 2 ^ 8 * 2 ^ 24 := Nat.mul_le_mul_left _ (Nat.pow_le_pow_right (by decide) hn)
  rw [BitVec.toNat_shiftLeft, BitVec.toNat_setWidth,
    Nat.mod_eq_of_lt (Nat.lt_trans b.isLt (by decide)), Nat.mod_eq_of_lt hlt]

/-- Four bytes that are shifted to their places make a word. -/
theorem or_eq_append (a b c d : BitVec 8) :
    (a.setWidth 32 <<< 24 ||| b.setWidth 32 <<< 16 ||| c.setWidth 32 <<< 8 ||| d.setWidth 32) =
      a ++ b ++ c ++ d := by
  refine BitVec.eq_of_toNat_eq ?_
  have hd : (d.setWidth 32).toNat = d.toNat :=
    (BitVec.toNat_setWidth _ _).trans (Nat.mod_eq_of_lt (Nat.lt_trans d.isLt (by decide)))
  simp only [BitVec.toNat_or, toNat_shift (Nat.le_refl 24), toNat_shift (by decide : 16 ≤ 24),
    toNat_shift (by decide : 8 ≤ 24), hd, BitVec.toNat_append, Nat.shiftLeft_or_distrib,
    ← Nat.shiftLeft_add]

theorem getD_blockWords (messageBlock : List UInt8) {i : ℕ} (h : i < 16) :
    (blockWords messageBlock).getD i 0 = words messageBlock i := by
  have hoff : i <<< 2 = 4 * i := by omega
  rw [blockWords, List.getD_eq_getElem?_getD, List.getElem?_map, List.getElem?_range h,
    Option.map_some, Option.getD_some, hoff]
  exact or_eq_append _ _ _ _

/-- The list holds the first `n` words of the schedule. -/
structure Schedules (M : ℕ → Word) (n : ℕ) (W : List Word) : Prop where
  length : W.length = n
  getD : ∀ t < n, W.getD t 0 = schedule M t

variable {M : ℕ → Word} {W : List Word} {n : ℕ}

theorem schedules_blockWords (messageBlock : List UInt8) :
    Schedules (words messageBlock) 16 (blockWords messageBlock) where
  length := by rw [blockWords, List.length_map, List.length_range]
  getD t ht := by rw [getD_blockWords messageBlock ht, schedule, if_pos ht]

theorem Schedules.extend (h : Schedules M n W) (hn : 16 ≤ n) :
    Schedules M (n + 1) (extend W n) where
  length := by rw [Utils.extend, List.length_append, h.length, List.length_singleton]
  getD t ht := by
    rw [Utils.extend]
    by_cases hlt : t < n
    · rw [List.getD_append _ _ _ _ (h.length.symm ▸ hlt)]
      exact h.getD t hlt
    · obtain rfl : t = n := by omega
      rw [List.getD_append_right _ _ _ _ (Nat.le_of_eq h.length), h.length, Nat.sub_self,
        circularShift_eq (by decide), schedule, if_neg (by omega), h.getD _ (by omega),
        h.getD _ (by omega), h.getD _ (by omega), h.getD _ (by omega)]
      rfl

theorem Schedules.foldl_extend (h : Schedules M 16 W) (n : ℕ) :
    Schedules M (16 + n) ((List.range' 16 n).foldl Utils.extend W) := by
  induction n with
  | zero => exact h
  | succ n ih =>
    rw [List.range'_concat, Nat.one_mul, List.foldl_append]
    exact ih.extend (Nat.le_add_right _ _)

/-- A loop does the steps that have its function and its constant. -/
theorem Schedules.rounds_eq (h : Schedules M 80 W) {g : Word → Word → Word → Word}
    {constant : Word} {start : ℕ} (hstart : start + 20 ≤ 80)
    (hf : ∀ t, start ≤ t → t < start + 20 → f t = g ∧ k t = constant) (s : State) :
    rounds g constant W start s = (List.range' start 20).foldl (step (schedule M)) s := by
  refine List.foldl_ext _ _ _ fun s t ht => ?_
  obtain ⟨hle, hlt⟩ := List.mem_range'_1.1 ht
  obtain ⟨hf, hk⟩ := hf t hle hlt
  rw [step, hf, hk, ← h.getD t (by omega), ← circularShift_eq (by decide),
    ← circularShift_eq (by decide)]

theorem steps_ch {t : ℕ} (ht : t < 20) :
    f t = (fun B C D => (B &&& C) ||| (~~~B &&& D)) ∧ k t = 0x5A827999 := by
  refine ⟨?_, if_pos ht⟩
  rw [f, if_pos ht]
  funext B C D
  exact (or_eq_ch B C D).symm

theorem steps_parity {t : ℕ} (hle : 20 ≤ t) (ht : t < 40) :
    f t = (fun B C D => B ^^^ C ^^^ D) ∧ k t = 0x6ED9EBA1 := by
  rw [f, k, if_neg (Nat.not_lt.2 hle), if_neg (Nat.not_lt.2 hle), if_pos ht, if_pos ht]
  exact ⟨rfl, rfl⟩

theorem steps_maj {t : ℕ} (hle : 40 ≤ t) (ht : t < 60) :
    f t = (fun B C D => (B &&& C) ||| (B &&& D) ||| (C &&& D)) ∧ k t = 0x8F1BBCDC := by
  have h₂₀ : ¬t < 20 := by omega
  rw [f, k, if_neg h₂₀, if_neg h₂₀, if_neg (Nat.not_lt.2 hle), if_neg (Nat.not_lt.2 hle),
    if_pos ht, if_pos ht]
  refine ⟨?_, rfl⟩
  funext B C D
  exact (or_eq_maj B C D).symm

theorem steps_last {t : ℕ} (hle : 60 ≤ t) :
    f t = (fun B C D => B ^^^ C ^^^ D) ∧ k t = 0xCA62C1D6 := by
  have h₂₀ : ¬t < 20 := by omega
  have h₄₀ : ¬t < 40 := by omega
  rw [f, k, if_neg h₂₀, if_neg h₂₀, if_neg h₄₀, if_neg h₄₀, if_neg (Nat.not_lt.2 hle),
    if_neg (Nat.not_lt.2 hle)]
  exact ⟨rfl, rfl⟩

/-- A block is processed as the standard has it. -/
theorem processSHA1MessageBlock_eq (messageBlock : List UInt8) (H : State) :
    processSHA1MessageBlock messageBlock H = compress (words messageBlock) H := by
  have h := (schedules_blockWords messageBlock).foldl_extend 64
  have hrange : List.range 80 =
      List.range' 0 20 ++ List.range' 20 20 ++ List.range' 40 20 ++ List.range' 60 20 := by decide
  rw [processSHA1MessageBlock, compress, hrange, List.foldl_append, List.foldl_append,
    List.foldl_append, ← h.rounds_eq (by decide) fun _ _ ht => steps_ch ht,
    ← h.rounds_eq (by decide) fun _ hle ht => steps_parity hle ht,
    ← h.rounds_eq (by decide) fun _ hle ht => steps_maj hle ht,
    ← h.rounds_eq (by decide) fun _ hle _ => steps_last hle]

/-! ## The text -/

/-- After the text `input`: whole blocks were processed, and the rest is in the block. -/
structure Reads (input : List UInt8) (s : Hasher) : Prop where
  messageBlock_lt : s.messageBlock.length < 64
  processed : ∃ p, input = p ++ s.messageBlock ∧ p.length % 64 = 0 ∧ s.H = hash initial p
  length_low : s.length_low.toNat = 8 * input.length % 2 ^ 32
  length_high : s.length_high.toNat = 8 * input.length / 2 ^ 32 % 2 ^ 32

/-- The lower word of the length. -/
theorem toNat_length_low {low : Word} {l : ℕ} (h : low.toNat = 8 * l % 2 ^ 32) :
    (low + 8).toNat = 8 * (l + 1) % 2 ^ 32 := by
  have h₈ : (8 : Word).toNat = 8 := rfl
  rw [BitVec.toNat_add, h₈, h]
  omega

/-- The upper word counts how often the lower one becomes 0. -/
theorem toNat_length_high {low high : Word} {l : ℕ} (h : low.toNat = 8 * (l + 1) % 2 ^ 32)
    (hhigh : high.toNat = 8 * l / 2 ^ 32 % 2 ^ 32) :
    (if low = 0 then high + 1 else high).toNat = 8 * (l + 1) / 2 ^ 32 % 2 ^ 32 := by
  have hzero : low = 0 ↔ 8 * (l + 1) % 2 ^ 32 = 0 := by
    rw [← h]
    exact ⟨fun h => by rw [h]; rfl, fun h => BitVec.eq_of_toNat_eq h⟩
  by_cases hlow : low = 0
  · have hone : (1 : Word).toNat = 1 := rfl
    have hmod := hzero.1 hlow
    rw [if_pos hlow, BitVec.toNat_add, hone, hhigh]
    omega
  · have hmod := hzero.not.1 hlow
    rw [if_neg hlow, hhigh]
    omega

theorem Reads.push {input : List UInt8} {s : Hasher} (h : Reads input s) (ch : UInt8) :
    Reads (input ++ [ch]) (s.push ch) := by
  obtain ⟨p, hinput, hmod, hH⟩ := h.processed
  have hlen : (s.messageBlock ++ [ch]).length = s.messageBlock.length + 1 := List.length_append
  have hlow := toNat_length_low h.length_low
  have hhigh := toNat_length_high hlow h.length_high
  have hsucc : (input ++ [ch]).length = input.length + 1 := List.length_append
  rw [← hsucc] at hlow hhigh
  have hcons : input ++ [ch] = p ++ (s.messageBlock ++ [ch]) := by
    rw [← List.append_assoc, ← hinput]
  rw [Hasher.push]
  by_cases hfull : (s.messageBlock ++ [ch]).length = 64
  · rw [if_pos hfull]
    refine ⟨Nat.zero_lt_succ 63, ⟨input ++ [ch], (List.append_nil _).symm, ?_, ?_⟩, hlow, hhigh⟩
    · rw [hcons, List.length_append, hfull]
      omega
    · rw [hcons, hash_append hmod, hash_block hfull, ← hH]
      exact processSHA1MessageBlock_eq _ _
  · rw [if_neg hfull]
    have hlt : (s.messageBlock ++ [ch]).length < 64 := by
      have := h.messageBlock_lt
      omega
    exact ⟨hlt, ⟨p, hcons, hmod, hH⟩, hlow, hhigh⟩

theorem Reads.foldl {p : List UInt8} {s : Hasher} (h : Reads p s) (input : List UInt8) :
    Reads (p ++ input) (input.foldl Hasher.push s) := by
  induction input generalizing p s with
  | nil => rwa [List.append_nil]
  | cons ch input ih =>
    have hnext := ih (h.push ch)
    rwa [List.append_assoc] at hnext

theorem reads_nil : Reads [] ⟨initial, [], 0, 0⟩ where
  messageBlock_lt := by decide
  processed := ⟨[], rfl, rfl, (hash_of_lt (by decide)).symm⟩
  length_low := rfl
  length_high := rfl

theorem byte_eq (w : Word) (shift : ℕ) :
    UInt8.ofBitVec ((w >>> shift).setWidth 8) = UInt8.ofNat (w.toNat / 2 ^ shift) := by
  refine UInt8.toNat_inj.1 ?_
  rw [UInt8.toNat_ofBitVec, BitVec.toNat_setWidth, BitVec.toNat_ushiftRight,
    Nat.shiftRight_eq_div_pow, UInt8.toNat_ofNat']

theorem wordBytes_eq (w : Word) : wordBytes w = (Bytes.encode 4 w.toNat).reverse := by
  simp only [wordBytes, List.map_cons, List.map_nil, byte_eq, Bytes.encode,
    Nat.div_div_eq_div_mul, List.reverse_cons, List.reverse_nil, List.nil_append,
    List.cons_append, Nat.reducePow, Nat.reduceMul, Nat.div_one]

/-- The two words are the length of 64 bits. -/
theorem wordBytes_append {high low : Word} {l : ℕ} (hhigh : high.toNat = l / 2 ^ 32 % 2 ^ 32)
    (hlow : low.toNat = l % 2 ^ 32) :
    wordBytes high ++ wordBytes low = (Bytes.encode 8 l).reverse := by
  have hpow : 2 ^ 32 = 256 ^ 4 := rfl
  rw [hpow] at hhigh hlow
  rw [wordBytes_eq, wordBytes_eq, hhigh, hlow, Bytes.encode_mod, Bytes.encode_mod,
    ← List.reverse_append, ← Bytes.encode_add]

/-- The padding ends the message in one block or two. -/
theorem Reads.finish {input : List UInt8} {s : Hasher} (h : Reads input s) :
    s.finish = hash initial (pad input) := by
  obtain ⟨p, hinput, hmod, hH⟩ := h.processed
  have hlt := h.messageBlock_lt
  have hsize : (s.messageBlock ++ [0x80]).length = s.messageBlock.length + 1 := List.length_append
  have hlen : input.length % 64 = s.messageBlock.length := by
    rw [hinput, List.length_append]
    omega
  have hlength := wordBytes_append h.length_high h.length_low
  have hwords : (wordBytes s.length_high ++ wordBytes s.length_low).length = 8 := rfl
  have hpad : pad input = p ++ (s.messageBlock ++ [0x80] ++
      List.replicate ((119 - s.messageBlock.length) % 64) 0 ++
        (wordBytes s.length_high ++ wordBytes s.length_low)) := by
    rw [pad, hlen, hlength, hinput]
    simp only [List.append_assoc, List.cons_append, List.nil_append]
  rw [Hasher.finish, hpad, hash_append hmod, ← hH]
  dsimp only
  rw [processSHA1MessageBlock_eq, hsize, List.append_assoc _ (wordBytes s.length_high)]
  by_cases hmore : s.messageBlock.length + 1 > 56
  · -- The length does not fit into the block.
    have hfirst : (fill 64 (s.messageBlock ++ [0x80])).length = 64 := by
      rw [fill, List.length_append, List.length_replicate]
      omega
    have hzeros : (119 - s.messageBlock.length) % 64 =
        64 - (s.messageBlock ++ [0x80]).length + 56 := by omega
    have hlast : (fill 56 [] ++ (wordBytes s.length_high ++ wordBytes s.length_low)).length = 64 :=
      rfl
    rw [if_pos hmore, hzeros, List.replicate_add, ← List.append_assoc _ (List.replicate _ _),
      List.append_assoc _ (List.replicate 56 _)]
    dsimp only
    rw [processSHA1MessageBlock_eq, ← hash_block hlast]
    exact (hash_block_append hfirst _ _).symm
  · have hzeros : (119 - s.messageBlock.length) % 64 =
        56 - (s.messageBlock ++ [0x80]).length := by omega
    have hblock : (fill 56 (s.messageBlock ++ [0x80]) ++
        (wordBytes s.length_high ++ wordBytes s.length_low)).length = 64 := by
      rw [List.length_append, fill, List.length_append, List.length_replicate]
      omega
    rw [if_neg hmore, hzeros]
    exact (hash_block hblock _).symm

/-! ## The digits -/

theorem map_hashByte (H : State) : (List.range 20).map (hashByte H) = H.bytes := by
  simp only [State.bytes, ← wordBytes_eq]
  rfl

theorem getD_hexDigits : ∀ n < 16, hexDigits.getD n '0' = Nat.digitChar n := by decide

theorem hexByte_eq (byte : UInt8) :
    hexByte byte = [Nat.digitChar (byte.toNat / 16), Nat.digitChar (byte.toNat % 16)] := by
  have hlt := byte.toNat_lt
  have hhigh : (byte >>> 4).toNat = byte.toNat / 16 := by
    rw [UInt8.toNat_shiftRight, Nat.shiftRight_eq_div_pow]
    rfl
  have hlow : (byte &&& 15).toNat = byte.toNat % 16 := by
    rw [UInt8.toNat_and]
    exact Nat.and_two_pow_sub_one_eq_mod byte.toNat 4
  rw [hexByte, hhigh, hlow, getD_hexDigits _ (by omega), getD_hexDigits _ (by omega)]

/-- The text is the digest of the standard, in hexadecimal digits. -/
theorem transformToSHA1_eq (input : List UInt8) :
    transformToSHA1 input = hex (digest input) := by
  have hreads := (reads_nil.foldl input).finish
  rw [List.nil_append] at hreads
  rw [hex, digest, ← hreads, ← map_hashByte, List.flatMap_map]
  exact List.flatMap_congr fun i _ => hexByte_eq _

/-- The test of the standard, with the text of three letters. -/
example : transformToSHA1 [0x61, 0x62, 0x63] =
    ['a', '9', '9', '9', '3', 'e', '3', '6', '4', '7', '0', '6', '8', '1', '6', 'a', 'b', 'a',
      '3', 'e', '2', '5', '7', '1', '7', '8', '5', '0', 'c', '2', '6', 'c', '9', 'c', 'd', '0',
      'd', '8', '9', 'd'] := by
  decide +kernel

end Canary.Utils
