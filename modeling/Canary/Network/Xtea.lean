import Canary.Lib.Bytes
import Canary.Lib.Memory
import Mathlib

/-!
# XTEA

The cipher of the messages works on blocks of 8 bytes, taken as two numbers of 32 bits, the
lowest byte first. A block goes through 32 rounds, each of which changes one number by the
other one and a control sum made from the key, and then the other one by the first.

Decryption goes through the rounds backwards, with the control sums in the opposite order
(`decryptControlSum_eq`), and gives the block back (`decryptBlock_encryptBlock`).
-/

namespace Canary.Network

/-- `std::array<uint32_t, 4>`. -/
abbrev Key := Fin 4 → UInt32

section

local instance neZero_four : NeZero 4 := ⟨by decide⟩

/-- `key[i & 3]`. -/
def Key.get (key : Key) (i : UInt32) : UInt32 := key (Fin.ofNat 4 (i &&& 3).toNat)

end

def delta : UInt32 := 0x61C88647

/-- `precachedControlSum` of `XTEA_encrypt`: that of `n` rounds, beginning with `sum`. -/
def encryptControlSum (key : Key) : Nat → UInt32 → List (UInt32 × UInt32)
  | 0, _ => []
  | n + 1, sum =>
    (sum + key.get sum, sum - delta + key.get ((sum - delta) >>> 11)) ::
      encryptControlSum key n (sum - delta)

/-- `precachedControlSum` of `XTEA_decrypt`. -/
def decryptControlSum (key : Key) : Nat → UInt32 → List (UInt32 × UInt32)
  | 0, _ => []
  | n + 1, sum =>
    (sum + key.get (sum >>> 11), sum + delta + key.get (sum + delta)) ::
      decryptControlSum key n (sum + delta)

/-- What a number contributes to the change of the other one. -/
def mix (v : UInt32) : UInt32 := ((v <<< 4) ^^^ (v >>> 5)) + v

/-- A round of `XTEA_encrypt`. -/
def encryptRound (v control : UInt32 × UInt32) : UInt32 × UInt32 :=
  let v₀ := v.1 + (mix v.2 ^^^ control.1)
  let v₁ := v.2 + (mix v₀ ^^^ control.2)
  (v₀, v₁)

/-- A round of `XTEA_decrypt`. -/
def decryptRound (v control : UInt32 × UInt32) : UInt32 × UInt32 :=
  let v₁ := v.2 - (mix v.1 ^^^ control.1)
  let v₀ := v.1 - (mix v₁ ^^^ control.2)
  (v₀, v₁)

/-- Eight bytes as two numbers. -/
def words (block : List UInt8) : UInt32 × UInt32 :=
  (UInt32.ofNat (Bytes.decode (block.take 4)), UInt32.ofNat (Bytes.decode (block.drop 4)))

/-- Two numbers as eight bytes. -/
def bytes (v : UInt32 × UInt32) : List UInt8 :=
  Bytes.encode 4 v.1.toNat ++ Bytes.encode 4 v.2.toNat

def encryptBlock (key : Key) (block : List UInt8) : List UInt8 :=
  bytes ((encryptControlSum key 32 0).foldl encryptRound (words block))

def decryptBlock (key : Key) (block : List UInt8) : List UInt8 :=
  bytes ((decryptControlSum key 32 0xC6EF3720).foldl decryptRound (words block))

/-! ## Decryption -/

theorem decryptRound_encryptRound (v control : UInt32 × UInt32) :
    decryptRound (encryptRound v control) control.swap = v := by
  obtain ⟨v₀, v₁⟩ := v
  rw [encryptRound, decryptRound]
  simp only [Prod.fst_swap, Prod.snd_swap, UInt32.add_sub_cancel]

/-- The rounds are undone from the last one to the first. -/
theorem foldl_decryptRound (controls : List (UInt32 × UInt32)) (v : UInt32 × UInt32) :
    (controls.reverse.map Prod.swap).foldl decryptRound (controls.foldl encryptRound v) = v := by
  induction controls generalizing v with
  | nil => rfl
  | cons control controls ih =>
    rw [List.foldl_cons, List.reverse_cons, List.map_append, List.foldl_append, ih]
    exact decryptRound_encryptRound v control

/-- The last of the control sums. -/
theorem decryptControlSum_succ (key : Key) (n : Nat) (sum : UInt32) :
    decryptControlSum key (n + 1) sum = decryptControlSum key n sum ++
      [(sum + UInt32.ofNat n * delta + key.get ((sum + UInt32.ofNat n * delta) >>> 11),
        sum + UInt32.ofNat n * delta + delta +
          key.get (sum + UInt32.ofNat n * delta + delta))] := by
  induction n generalizing sum with
  | zero =>
    have h : sum + UInt32.ofNat 0 * delta = sum := by simp
    rw [h]
    rfl
  | succ n ih =>
    have h : sum + delta + UInt32.ofNat n * delta = sum + UInt32.ofNat (n + 1) * delta := by
      rw [UInt32.ofNat_add]
      grind
    rw [decryptControlSum, ih, h]
    rfl

/-- The control sums of decryption are those of encryption in the opposite order. -/
theorem decryptControlSum_eq (key : Key) (n : Nat) (sum : UInt32) :
    decryptControlSum key n (sum - UInt32.ofNat n * delta) =
      (encryptControlSum key n sum).reverse.map Prod.swap := by
  induction n generalizing sum with
  | zero => rfl
  | succ n ih =>
    have hrest : sum - UInt32.ofNat (n + 1) * delta = sum - delta - UInt32.ofNat n * delta := by
      rw [UInt32.ofNat_add]
      grind
    have hlast : sum - delta - UInt32.ofNat n * delta + UInt32.ofNat n * delta = sum - delta :=
      UInt32.sub_add_cancel _ _
    rw [hrest, decryptControlSum_succ, ih, encryptControlSum, List.reverse_cons, List.map_append,
      hlast, UInt32.sub_add_cancel]
    rfl

theorem words_bytes (v : UInt32 × UInt32) : words (bytes v) = v := by
  have hword : ∀ w : UInt32, UInt32.ofNat (Bytes.decode (Bytes.encode 4 w.toNat)) = w := by
    intro w
    have hlt : w.toNat < 256 ^ 4 := w.toNat_lt
    rw [Bytes.decode_encode, Nat.mod_eq_of_lt hlt]
    exact UInt32.ofNat_toNat
  rw [words, bytes, List.take_left' (Bytes.length_encode _ _),
    List.drop_left' (Bytes.length_encode _ _), hword, hword]

theorem bytes_words {block : List UInt8} (h : block.length = 8) : bytes (words block) = block := by
  have hword : ∀ l : List UInt8, l.length = 4 →
      Bytes.encode 4 (UInt32.ofNat (Bytes.decode l)).toNat = l := by
    intro l hl
    have hlt : Bytes.decode l < 2 ^ 32 := by
      have := Bytes.decode_lt l
      rw [hl] at this
      exact this
    have hself := Bytes.encode_decode l
    rw [hl] at hself
    rw [UInt32.toNat_ofNat', Nat.mod_eq_of_lt hlt, hself]
  rw [bytes, words, hword _ (by rw [List.length_take, h]; rfl),
    hword _ (by rw [List.length_drop, h]), List.take_append_drop]

theorem length_bytes (v : UInt32 × UInt32) : (bytes v).length = 8 := by
  rw [bytes, List.length_append, Bytes.length_encode, Bytes.length_encode]

theorem length_encryptBlock (key : Key) (block : List UInt8) :
    (encryptBlock key block).length = 8 :=
  length_bytes _

theorem length_decryptBlock (key : Key) (block : List UInt8) :
    (decryptBlock key block).length = 8 :=
  length_bytes _

/-- With the same key, decryption gives the block back. -/
theorem decryptBlock_encryptBlock (key : Key) {block : List UInt8} (h : block.length = 8) :
    decryptBlock key (encryptBlock key block) = block := by
  have hsum : (0xC6EF3720 : UInt32) = 0 - UInt32.ofNat 32 * delta := rfl
  rw [decryptBlock, encryptBlock, words_bytes, hsum, decryptControlSum_eq, foldl_decryptRound,
    bytes_words h]

end Canary.Network
