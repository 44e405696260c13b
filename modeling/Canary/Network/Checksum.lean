import Canary.Network.Reads
import Canary.Lib.RunningSums
import Mathlib.Data.ZMod.Basic
import Mathlib.Tactic.NormNum.Prime

/-!
# The Adler checksum

`adlerChecksum` adds up to 5552 bytes before it reduces its sums. In 32 bits that is just
enough: the sums never wrap around, and what comes out is what Adler-32 is, two running sums
modulo 65521 that are reduced at every byte (`adlerChecksum_eq`).

65521 is prime and greater than the longest packet, so the packets that a protocol with this
checksum accepts are far from each other: two of them that are equally long and not the same
differ in three bytes or more (`three_le_distance`). A packet in which one or two bytes were
changed on the way, be it in the checksum or behind it, is not passed on.
-/

namespace Canary.Network

open RunningSums

/-- The modulus, a `uint16_t`. -/
def adlerModulus : Nat := 65521

/-- Adler-32, with both sums reduced at every byte. -/
def adler (s : Nat × Nat) (data : List UInt8) : Nat × Nat :=
  data.foldl (fun s d =>
    ((s.1 + d.toNat) % adlerModulus, (s.2 + (s.1 + d.toNat)) % adlerModulus)) s

/-- The residue of a byte. -/
def residue (d : UInt8) : ZMod adlerModulus := d.toNat

/-- The residues of two sums. -/
def residues (s : Nat × Nat) : ZMod adlerModulus × ZMod adlerModulus := (s.1, s.2)

/-- Both sums are reduced. -/
def Reduced (s : Nat × Nat) : Prop := s.1 < adlerModulus ∧ s.2 < adlerModulus

instance : Fact (Nat.Prime adlerModulus) := ⟨by rw [adlerModulus]; norm_num⟩

theorem Reduced.eq {s s' : Nat × Nat} (h : Reduced s) (h' : Reduced s')
    (heq : residues s = residues s') : s = s' := by
  rw [residues, residues, Prod.mk.injEq, ZMod.natCast_eq_natCast_iff',
    ZMod.natCast_eq_natCast_iff', Nat.mod_eq_of_lt h.1, Nat.mod_eq_of_lt h'.1,
    Nat.mod_eq_of_lt h.2, Nat.mod_eq_of_lt h'.2] at heq
  exact Prod.ext heq.1 heq.2

/-- Bytes are less than the modulus, so they are told apart. -/
theorem residue_injective : residue.Injective := by
  intro d d' h
  have hmodulus : adlerModulus = 65521 := rfl
  have hd := d.toNat_lt
  have hd' := d'.toNat_lt
  rw [residue, residue, ZMod.natCast_eq_natCast_iff', Nat.mod_eq_of_lt (by omega),
    Nat.mod_eq_of_lt (by omega)] at h
  exact UInt8.toNat_inj.1 h

/-! ## The sums -/

/-- At every byte the residues are added, and the sums are reduced. -/
theorem adler_spec {s : Nat × Nat} (h : Reduced s) (data : List UInt8) :
    Reduced (adler s data) ∧
      residues (adler s data) = sums (residues s).1 (residues s).2 (data.map residue) := by
  induction data generalizing s with
  | nil => exact ⟨h, rfl⟩
  | cons d data ih =>
    have hpos : 0 < adlerModulus := Nat.zero_lt_succ _
    have hnext : Reduced ((s.1 + d.toNat) % adlerModulus,
        (s.2 + (s.1 + d.toNat)) % adlerModulus) := ⟨Nat.mod_lt _ hpos, Nat.mod_lt _ hpos⟩
    obtain ⟨hreduced, hres⟩ := ih hnext
    refine ⟨hreduced, hres.trans ?_⟩
    rw [residues, ZMod.natCast_mod, ZMod.natCast_mod, Nat.cast_add, Nat.cast_add, Nat.cast_add]
    rfl

/-- What the sums may be before `n` bytes so that they do not overflow. -/
def Room (a b : UInt32) (n : Nat) : Prop :=
  2 * b.toNat + 2 * (n * a.toNat) + 255 * (n * (n + 1)) < 2 ^ 33

/-- Before a block of 5552 bytes there is room. -/
theorem room_of_reduced {a b : UInt32} (h : Reduced (a.toNat, b.toNat)) {n : Nat}
    (hn : n ≤ 5552) : Room a b n := by
  obtain ⟨ha, hb⟩ := h
  rw [adlerModulus] at ha hb
  have hna : n * a.toNat ≤ 5552 * 65520 := Nat.mul_le_mul hn (Nat.le_of_lt_succ ha)
  have hnn : n * (n + 1) ≤ 5552 * 5553 := Nat.mul_le_mul hn (Nat.succ_le_succ hn)
  rw [Room]
  dsimp only at hb
  omega

theorem Room.step {a b : UInt32} {n : Nat} (h : Room a b (n + 1)) (d : UInt8) :
    (a + d.toUInt32).toNat = a.toNat + d.toNat ∧
      (b + (a + d.toUInt32)).toNat = b.toNat + (a.toNat + d.toNat) ∧
      Room (a + d.toUInt32) (b + (a + d.toUInt32)) n := by
  have hd := d.toNat_lt
  rw [Room] at h
  have h₁ : (n + 1) * a.toNat = n * a.toNat + a.toNat := Nat.succ_mul _ _
  have h₂ : (n + 1) * (n + 1 + 1) = n * (n + 1) + 2 * (n + 1) := by ring
  have h₃ : n * d.toNat ≤ n * 255 := Nat.mul_le_mul_left n (Nat.le_of_lt_succ hd)
  have ha : (a + d.toUInt32).toNat = a.toNat + d.toNat := by
    rw [UInt32.toNat_add, UInt8.toNat_toUInt32, Nat.mod_eq_of_lt (by omega)]
  have hb : (b + (a + d.toUInt32)).toNat = b.toNat + (a.toNat + d.toNat) := by
    rw [UInt32.toNat_add, ha, Nat.mod_eq_of_lt (by omega)]
  refine ⟨ha, hb, ?_⟩
  have h₄ : n * (a.toNat + d.toNat) = n * a.toNat + n * d.toNat := Nat.mul_add _ _ _
  rw [Room, ha, hb, h₄]
  omega

/-- A block is added without an overflow. -/
theorem block_toNat {a b : UInt32} {data : List UInt8} (h : Room a b data.length) :
    Prod.map UInt32.toNat UInt32.toNat
        (data.foldl (fun (a, b) d => (a + d.toUInt32, b + (a + d.toUInt32))) (a, b)) =
      sums a.toNat b.toNat (data.map UInt8.toNat) := by
  induction data generalizing a b with
  | nil => rfl
  | cons d data ih =>
    obtain ⟨ha, hb, hroom⟩ := h.step d
    rw [List.foldl_cons, ih hroom, ha, hb]
    rfl

/-- The sums of `adlerSums`, as numbers. -/
def adlerNumbers (a b : UInt32) (data : List UInt8) : Nat × Nat :=
  ((adlerSums a b data).1.toNat, (adlerSums a b data).2.toNat)

/-- The blocks add up to the sums of all bytes. -/
theorem adlerNumbers_spec {a b : UInt32} (h : Reduced (a.toNat, b.toNat)) (data : List UInt8) :
    Reduced (adlerNumbers a b data) ∧
      residues (adlerNumbers a b data) = sums (a.toNat : ZMod adlerModulus) b.toNat
        (data.map residue) := by
  induction hlen : data.length using Nat.strong_induction_on generalizing a b data with
  | _ n ih =>
    rw [adlerNumbers, adlerSums]
    by_cases hnil : data = []
    · rw [if_pos hnil, hnil]
      exact ⟨h, rfl⟩
    · have hpos := List.length_pos_iff.2 hnil
      have hroom : Room a b (data.take 5552).length :=
        room_of_reduced h (List.length_take_le _ _)
      have hblock := block_toNat hroom
      rw [if_neg hnil]
      generalize (data.take 5552).foldl _ (a, b) = s at hblock ⊢
      -- The sums of the block, reduced, are what the next one begins with.
      have hmod : (65521 : UInt32).toNat = adlerModulus := rfl
      have hred : Reduced ((s.1 % 65521).toNat, (s.2 % 65521).toNat) := by
        rw [UInt32.toNat_mod, UInt32.toNat_mod, hmod]
        exact ⟨Nat.mod_lt _ (Nat.zero_lt_succ _), Nat.mod_lt _ (Nat.zero_lt_succ _)⟩
      have hdrop : (data.drop 5552).length < n := by
        rw [List.length_drop]
        omega
      obtain ⟨hreduced, hres⟩ := ih _ hdrop hred (data.drop 5552) rfl
      refine ⟨hreduced, hres.trans ?_⟩
      have hcast := congrArg (Prod.map (Nat.cast : Nat → ZMod adlerModulus)
        (Nat.cast : Nat → ZMod adlerModulus)) hblock
      rw [map_sums Nat.cast_add, List.map_map] at hcast
      rw [UInt32.toNat_mod, UInt32.toNat_mod, hmod, ZMod.natCast_mod, ZMod.natCast_mod]
      have hsplit : data.map residue =
          (data.take 5552).map residue ++ (data.drop 5552).map residue := by
        rw [← List.map_append, List.take_append_drop]
      rw [hsplit, sums, sums, List.foldl_append]
      exact congrArg (fun s => List.foldl _ s _) hcast

/-- The sums that are reduced once a block are those that are reduced at every byte. -/
theorem adlerNumbers_eq (data : List UInt8) : adlerNumbers 1 0 data = adler (1, 0) data := by
  have hstart : Reduced ((1 : UInt32).toNat, (0 : UInt32).toNat) := ⟨by decide, by decide⟩
  obtain ⟨hred, hres⟩ := adlerNumbers_spec hstart data
  obtain ⟨hred', hres'⟩ := adler_spec (s := (1, 0)) ⟨by decide, by decide⟩ data
  exact hred.eq hred' (hres.trans hres'.symm)

/-- `adlerChecksum` is Adler-32 of what fits a message, with the second sum in the upper half. -/
theorem adlerChecksum_eq (data : List UInt8) (h : data.length ≤ NETWORKMESSAGE_MAXSIZE) :
    (adlerChecksum data).toNat = (adler (1, 0) data).2 * 2 ^ 16 + (adler (1, 0) data).1 := by
  have hred : Reduced (adlerNumbers 1 0 data) :=
    (adlerNumbers_spec (a := 1) (b := 0) ⟨by decide, by decide⟩ data).1
  rw [← adlerNumbers_eq, adlerChecksum, if_neg (Nat.not_lt.2 h), UInt32.toNat_or,
    UInt32.toNat_shiftLeft]
  obtain ⟨ha, hb⟩ := hred
  rw [adlerNumbers, adlerModulus] at ha hb
  have hshift : (16 : UInt32).toNat % 32 = 16 := rfl
  dsimp only [adlerNumbers] at ha hb ⊢
  rw [hshift, Nat.shiftLeft_eq, Nat.mod_eq_of_lt (by omega), ← Nat.shiftLeft_eq,
    Nat.shiftLeft_add_eq_or_of_lt (by omega)]

/-- The bytes of "Wikipedia". -/
theorem adlerChecksum_wikipedia :
    let data : List UInt8 := [87, 105, 107, 105, 112, 101, 100, 105, 97]
    data.length ≤ NETWORKMESSAGE_MAXSIZE ∧ (adlerChecksum data).toNat = 0x11E60398 := by
  intro data
  have h : data.length ≤ NETWORKMESSAGE_MAXSIZE := by decide
  exact ⟨h, (adlerChecksum_eq data h).trans (by decide)⟩

/-! ## Packets -/

/-- How often a byte is counted is not a multiple of the modulus. -/
theorem cast_ne_zero {data : List UInt8} (hmax : data.length ≤ NETWORKMESSAGE_MAXSIZE) (n : Nat)
    (h : 1 ≤ n) (hle : n ≤ (data.map residue).length) : (n : ZMod adlerModulus) ≠ 0 := by
  rw [List.length_map] at hle
  rw [NETWORKMESSAGE_MAXSIZE] at hmax
  rw [Ne, ZMod.natCast_eq_zero_iff]
  exact Nat.not_dvd_of_pos_of_lt h (by rw [adlerModulus]; omega)

/-- Numbers of two bytes that are not the same differ in one of them. -/
theorem one_le_distance_encode {m n : Nat} (hm : m < 256 ^ 2) (hn : n < 256 ^ 2) (h : m ≠ n) :
    1 ≤ distance (Bytes.encode 2 m) (Bytes.encode 2 n) := by
  refine Nat.one_le_iff_ne_zero.2 fun hzero => h ?_
  rw [distance_eq_zero (by rw [Bytes.length_encode, Bytes.length_encode])] at hzero
  have hdecode := congrArg Bytes.decode hzero
  rwa [Bytes.decode_encode, Bytes.decode_encode, Nat.mod_eq_of_lt hm,
    Nat.mod_eq_of_lt hn] at hdecode

/-- The sums of a content, as residues. -/
theorem adler_start (data : List UInt8) :
    Reduced (adler (1, 0) data) ∧
      residues (adler (1, 0) data) = sums 1 0 (data.map residue) := by
  obtain ⟨hred, hres⟩ := adler_spec (s := (1, 0)) ⟨by decide, by decide⟩ data
  refine ⟨hred, hres.trans ?_⟩
  rw [residues, Nat.cast_one, Nat.cast_zero]

section Content

variable {data data' : List UInt8} (hlen : data.length = data'.length)
include hlen

theorem length_residues : (data.map residue).length = (data'.map residue).length := by
  rw [List.length_map, List.length_map, hlen]

/-- A content that differs in one byte has both sums different. -/
theorem adler_ne_of_one (hmax : data.length ≤ NETWORKMESSAGE_MAXSIZE)
    (h : distance data data' = 1) :
    (adler (1, 0) data).1 ≠ (adler (1, 0) data').1 ∧
      (adler (1, 0) data).2 ≠ (adler (1, 0) data').2 := by
  have hmap := (distance_map residue_injective data data').trans h
  refine ⟨fun heq => ?_, fun heq => ?_⟩
  · refine first_ne (1 : ZMod adlerModulus) 0 (length_residues hlen) hmap ?_
    rw [← (adler_start data).2, ← (adler_start data').2, residues, residues, heq]
  · refine second_ne (1 : ZMod adlerModulus) 0 (length_residues hlen) (cast_ne_zero hmax) hmap ?_
    rw [← (adler_start data).2, ← (adler_start data').2, residues, residues, heq]

/-- A content that differs in one byte or two has one of the sums different. -/
theorem adler_ne (hmax : data.length ≤ NETWORKMESSAGE_MAXSIZE) (h : 1 ≤ distance data data')
    (h' : distance data data' ≤ 2) :
    (adler (1, 0) data).1 ≠ (adler (1, 0) data').1 ∨
      (adler (1, 0) data).2 ≠ (adler (1, 0) data').2 := by
  have hmap := distance_map residue_injective data data'
  have hne := sums_ne (1 : ZMod adlerModulus) 0 (length_residues hlen) (cast_ne_zero hmax)
    (by rw [hmap]; exact h) (by rw [hmap]; exact h')
  by_contra hboth
  obtain ⟨h₁, h₂⟩ := not_or.1 hboth
  refine hne ?_
  rw [← (adler_start data).2, ← (adler_start data').2,
    Prod.ext (not_not.1 h₁) (not_not.1 h₂)]

end Content

/-- The checksum in a packet: the first sum, and behind it the second. -/
theorem take_of_matches {p : Protocol} (hm : p.checksumMethod = .adler32) {packet : List UInt8}
    (hlen : 4 < packet.length) (hmax : packet.length ≤ INPUTMESSAGE_MAXSIZE)
    (h : checksumMatches p packet) :
    packet.take 4 = Bytes.encode 2 (adler (1, 0) (packet.drop 4)).1 ++
      Bytes.encode 2 (adler (1, 0) (packet.drop 4)).2 := by
  rw [checksumMatches, hm] at h
  dsimp only at h
  have hdrop : (packet.drop 4).length ≤ NETWORKMESSAGE_MAXSIZE := by
    rw [List.length_drop, NETWORKMESSAGE_MAXSIZE]
    rw [INPUTMESSAGE_MAXSIZE] at hmax
    omega
  obtain ⟨hfirst, hsecond⟩ := (adler_start (packet.drop 4)).1
  rw [if_pos hlen, adlerChecksum_eq _ hdrop] at h
  rw [adlerModulus] at hfirst hsecond
  generalize adler (1, 0) (packet.drop 4) = s at h hfirst hsecond ⊢
  have htake : (packet.take 4).length = 4 := by
    rw [List.length_take]
    omega
  have hbytes := Bytes.encode_decode (packet.take 4)
  rw [htake, h] at hbytes
  have hdiv : (s.2 * 2 ^ 16 + s.1) / 256 ^ 2 = s.2 := by omega
  have hmod : (s.2 * 2 ^ 16 + s.1) % 256 ^ 2 = s.1 := by omega
  rw [← hbytes, Bytes.encode_add 2 2, hdiv, ← Bytes.encode_mod 2 (s.2 * 2 ^ 16 + s.1), hmod]

/-- Two packets with a right checksum that are equally long and not the same differ in three
    bytes or more. -/
theorem three_le_distance_of_matches {p p' : Protocol} (hm : p.checksumMethod = .adler32)
    (hm' : p'.checksumMethod = .adler32) {packet packet' : List UInt8}
    (hlen : packet.length = packet'.length) (hfour : 4 ≤ packet.length)
    (hmax : packet.length ≤ INPUTMESSAGE_MAXSIZE) (h : checksumMatches p packet)
    (h' : checksumMatches p' packet') (hne : packet ≠ packet') :
    3 ≤ distance packet packet' := by
  have htake : (packet.take 4).length = (packet'.take 4).length := by
    rw [List.length_take, List.length_take, hlen]
  have hdrop : (packet.drop 4).length = (packet'.drop 4).length := by
    rw [List.length_drop, List.length_drop, hlen]
  have hsplit : distance packet packet' = distance (packet.take 4) (packet'.take 4) +
      distance (packet.drop 4) (packet'.drop 4) := by
    rw [← distance_append htake, List.take_append_drop, List.take_append_drop]
  obtain hfour | hmore := hfour.eq_or_lt
  · -- Nothing is behind the checksum, which is 0 in both.
    have hzero : Bytes.decode (packet.take 4) = 0 := by
      rw [checksumMatches, hm] at h
      exact h.trans (if_neg (Nat.not_lt.2 hfour.ge))
    have hzero' : Bytes.decode (packet'.take 4) = 0 := by
      rw [checksumMatches, hm'] at h'
      exact h'.trans (if_neg (Nat.not_lt.2 (hlen ▸ hfour.ge)))
    refine absurd ?_ hne
    rw [← List.take_of_length_le hfour.ge, ← List.take_of_length_le (l := packet') (hlen ▸ hfour.ge),
      ← Bytes.encode_decode (packet.take 4), ← Bytes.encode_decode (packet'.take 4), hzero, hzero',
      htake]
  · have hsums := take_of_matches hm hmore hmax h
    have hsums' := take_of_matches hm' (hlen ▸ hmore) (hlen ▸ hmax) h'
    obtain ⟨ha, hb⟩ := (adler_start (packet.drop 4)).1
    obtain ⟨ha', hb'⟩ := (adler_start (packet'.drop 4)).1
    rw [adlerModulus] at ha hb ha' hb'
    have hcontent : (packet.drop 4).length ≤ NETWORKMESSAGE_MAXSIZE := by
      rw [List.length_drop, NETWORKMESSAGE_MAXSIZE]
      rw [INPUTMESSAGE_MAXSIZE] at hmax
      omega
    have hhead : distance (packet.take 4) (packet'.take 4) =
        distance (Bytes.encode 2 (adler (1, 0) (packet.drop 4)).1)
            (Bytes.encode 2 (adler (1, 0) (packet'.drop 4)).1) +
          distance (Bytes.encode 2 (adler (1, 0) (packet.drop 4)).2)
            (Bytes.encode 2 (adler (1, 0) (packet'.drop 4)).2) := by
      rw [hsums, hsums', distance_append (by rw [Bytes.length_encode, Bytes.length_encode])]
    -- By the number of bytes that differ behind the checksum.
    obtain hzero | hone | htwo | hthree : distance (packet.drop 4) (packet'.drop 4) = 0 ∨
        distance (packet.drop 4) (packet'.drop 4) = 1 ∨
        distance (packet.drop 4) (packet'.drop 4) = 2 ∨
        3 ≤ distance (packet.drop 4) (packet'.drop 4) := by omega
    · -- None: then the checksums are the same as well.
      have hrest := (distance_eq_zero hdrop).1 hzero
      refine absurd ?_ hne
      rw [← List.take_append_drop 4 packet, ← List.take_append_drop 4 packet', hsums, hsums', hrest]
    · -- One: both sums differ, each in one byte or two.
      obtain ⟨hfirst, hsecond⟩ := adler_ne_of_one hdrop hcontent hone
      have h₁ := one_le_distance_encode (by omega) (by omega) hfirst
      have h₂ := one_le_distance_encode (by omega) (by omega) hsecond
      omega
    · -- Two: one of the sums differs.
      obtain hfirst | hsecond := adler_ne hdrop hcontent (by omega) htwo.le
      · have h₁ := one_le_distance_encode (by omega) (by omega) hfirst
        omega
      · have h₂ := one_le_distance_encode (by omega) (by omega) hsecond
        omega
    · omega

/-- Whether a packet is passed on to `parsePacket`. -/
def accepts (p : Protocol) (stale : NetworkMessage) (packet : List UInt8) : Bool :=
  (p.onRecvMessage (stale.receive (Bytes.encode 2 packet.length) packet)).1

theorem matches_of_accepts {p : Protocol} (hm : p.checksumMethod = .adler32)
    {stale : NetworkMessage} {packet : List UInt8} (hfour : 4 ≤ packet.length)
    (hmax : packet.length ≤ INPUTMESSAGE_MAXSIZE) (h : accepts p stale packet = true) :
    checksumMatches p packet := by
  have hne : p.checksumMethod ≠ .none := by rw [hm]; decide
  obtain ⟨p', msg, -, -, -, -, -, -, hcases⟩ := onRecvMessage_cases p stale hne hfour hmax
  rw [accepts] at h
  obtain ⟨hmatch, -⟩ | ⟨-, hrefused⟩ := hcases
  · exact hmatch
  · rw [hrefused] at h
    exact absurd h Bool.false_ne_true

/-- Two packets that are passed on, to whichever protocols with this checksum, are the same or
    differ in three bytes or more, if they are equally long. -/
theorem three_le_distance {p p' : Protocol} {stale stale' : NetworkMessage}
    {packet packet' : List UInt8} (hm : p.checksumMethod = .adler32)
    (hm' : p'.checksumMethod = .adler32) (hlen : packet.length = packet'.length)
    (hfour : 4 ≤ packet.length) (hmax : packet.length ≤ INPUTMESSAGE_MAXSIZE)
    (h : accepts p stale packet = true) (h' : accepts p' stale' packet' = true) :
    packet = packet' ∨ 3 ≤ distance packet packet' := by
  refine or_iff_not_imp_left.2 fun hne => ?_
  exact three_le_distance_of_matches hm hm' hlen hfour hmax (matches_of_accepts hm hfour hmax h)
    (matches_of_accepts hm' (hlen ▸ hfour) (hlen ▸ hmax) h') hne

/-- Before messages are encrypted, a packet is passed on if its checksum is right. -/
theorem accepts_of_matches {p : Protocol} (hm : p.checksumMethod = .adler32)
    (hplain : p.encryptionEnabled = false) (stale : NetworkMessage) {packet : List UInt8}
    (hfour : 4 ≤ packet.length) (hmax : packet.length ≤ INPUTMESSAGE_MAXSIZE)
    (h : checksumMatches p packet) : accepts p stale packet = true := by
  have hne : p.checksumMethod ≠ .none := by rw [hm]; decide
  obtain ⟨p', msg, -, -, henc, -, -, -, hcases⟩ := onRecvMessage_cases p stale hne hfour hmax
  obtain ⟨-, hpassed⟩ | ⟨hrefused, -⟩ := hcases
  · rw [accepts, hpassed, Protocol.sendRecvMessageCallback, henc, hplain]
    rfl
  · exact absurd h hrefused

/-- Two first packets of one byte, 1 and 2, which differ in three. -/
theorem three_le_distance_first :
    let p : Protocol := ⟨none, fun _ => 0, 0, 0, .adler32, false, false⟩
    let packet : List UInt8 := [2, 0, 2, 0, 1]
    let packet' : List UInt8 := [3, 0, 3, 0, 2]
    let stale := (OutputMessage.new fun _ => 255).toNetworkMessage
    accepts p stale packet = true ∧ accepts p stale packet' = true ∧
      (packet = packet' ∨ 3 ≤ distance packet packet') := by
  intro p packet packet' stale
  have hone : (adlerChecksum [1]).toNat = 2 * 2 ^ 16 + 2 := adlerChecksum_eq [1] (by decide)
  have htwo : (adlerChecksum [2]).toNat = 3 * 2 ^ 16 + 3 := adlerChecksum_eq [2] (by decide)
  have h : accepts p stale packet = true :=
    accepts_of_matches rfl rfl stale (by decide) (by decide) hone.symm
  have h' : accepts p stale packet' = true :=
    accepts_of_matches rfl rfl stale (by decide) (by decide) htwo.symm
  exact ⟨h, h', three_le_distance rfl rfl rfl (by decide) (by decide) h h'⟩

end Canary.Network
