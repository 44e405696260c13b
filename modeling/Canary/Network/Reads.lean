import Canary.Network.Pipeline

/-!
# Where a packet is read

The buffer of a connection holds bytes of earlier packets behind the last one. What is read
of a packet that comes in, to check and to decrypt it and then by `parsePacket`, is inside
of it, and, when it was decrypted, inside of the part that its inner length tells, exactly
for the packets that are `Contained` (`readsInside_iff`).

`canRead` takes the message to begin at the 8th byte of the buffer, as it does when it was
encrypted and has a checksum (`runReads_inside`). Without a checksum it begins at the 4th,
and without encryption the length counts the headers: bytes behind the message are read as
well (`runReads_getByte`).
-/

namespace Canary.Network

open NetworkMessage

/-- The functions that read a message. -/
inductive Read where
  | getByte
  | get (size : Nat)
  | getString (stringLen : Nat)
  | getPosition

def Read.run (msg : NetworkMessage) : Read → NetworkMessage
  | .getByte => msg.getByte.2
  | .get size => (msg.get size).2
  | .getString stringLen => (msg.getString stringLen).2
  | .getPosition => msg.getPosition.2

/-- Some reads, one after the other. -/
def runReads (msg : NetworkMessage) (reads : List Read) : NetworkMessage := reads.foldl Read.run msg

/-! ## Reads -/

/-- The message was read between `start` and the end that `canRead` assumes. -/
structure Inside (start : Nat) (msg : NetworkMessage) : Prop where
  position : start ≤ msg.position
  touched : ∀ i ∈ msg.touched, start ≤ i ∧ i < msg.length + 8

theorem getBytes_length (msg : NetworkMessage) (size : Nat) :
    (msg.getBytes size).2.length = msg.length := by
  rw [getBytes]
  split <;> rfl

theorem getBytes_of_canRead {msg : NetworkMessage} {size : Nat} (h : msg.canRead size = true) :
    (msg.getBytes size).2 = { msg with
      position := msg.position + size
      touched := msg.touched ++ List.range' msg.position size } :=
  congrArg Prod.snd (get_of_canRead h)

theorem Inside.getBytes {start : Nat} {msg : NetworkMessage} (h : Inside start msg) (size : Nat) :
    Inside start (msg.getBytes size).2 := by
  rcases hcan : msg.canRead size with _ | _
  · rw [NetworkMessage.getBytes, hcan]
    exact ⟨h.position, h.touched⟩
  · have hle := (canRead_eq_true.1 hcan).1
    rw [getBytes_of_canRead hcan]
    refine ⟨Nat.le_add_right_of_le h.position, fun i hi => ?_⟩
    rcases List.mem_append.1 hi with hi | hi
    · exact h.touched i hi
    · obtain ⟨hge, hlt⟩ := List.mem_range'_1.1 hi
      have hstart := h.position
      exact ⟨by omega, Nat.lt_of_lt_of_le hlt hle⟩

/-- Every read is made of reads of bytes. -/
theorem run_cases (msg : NetworkMessage) (r : Read) :
    ∃ sizes : List Nat, r.run msg = sizes.foldl (fun msg size => (msg.getBytes size).2) msg := by
  cases r with
  | getByte => exact ⟨[1], rfl⟩
  | get size => exact ⟨[size], rfl⟩
  | getString stringLen =>
    by_cases h : stringLen = 0
    · refine ⟨[2, (msg.get 2).1], ?_⟩
      rw [Read.run, getString, if_pos h]
      rfl
    · refine ⟨[stringLen], ?_⟩
      rw [Read.run, getString, if_neg h]
      rfl
  | getPosition => exact ⟨[2, 2, 1], rfl⟩

theorem Inside.run {start : Nat} {msg : NetworkMessage} (h : Inside start msg) (r : Read) :
    Inside start (r.run msg) ∧ (r.run msg).length = msg.length := by
  obtain ⟨sizes, hr⟩ := run_cases msg r
  rw [hr]
  clear hr
  induction sizes generalizing msg with
  | nil => exact ⟨h, rfl⟩
  | cons size sizes ih =>
    obtain ⟨hin, hlen⟩ := ih (h.getBytes size)
    exact ⟨hin, hlen.trans (getBytes_length msg size)⟩

/-- No read goes beyond the end that `canRead` assumes. -/
theorem runReads_inside {start : Nat} {msg : NetworkMessage} (h : Inside start msg)
    (reads : List Read) :
    Inside start (runReads msg reads) ∧ (runReads msg reads).length = msg.length := by
  induction reads generalizing msg with
  | nil => exact ⟨h, rfl⟩
  | cons r reads ih =>
    obtain ⟨hin, hlen⟩ := h.run r
    obtain ⟨hin', hlen'⟩ := ih hin
    exact ⟨hin', hlen'.trans hlen⟩

/-- Byte by byte, a message is read up to that end. -/
theorem runReads_getByte {msg : NetworkMessage} {n : Nat} (hn : msg.position + n ≤ msg.length + 8)
    (hlen : msg.length + 8 < NETWORKMESSAGE_MAXSIZE) :
    (runReads msg (List.replicate n .getByte)).touched =
      msg.touched ++ List.range' msg.position n := by
  induction n generalizing msg with
  | zero => exact (List.append_nil _).symm
  | succ n ih =>
    have hcan : msg.canRead 1 = true := canRead_eq_true.2 ⟨by omega, by omega⟩
    have hget : (Read.getByte.run msg) = { msg with
        position := msg.position + 1
        touched := msg.touched ++ List.range' msg.position 1 } := getBytes_of_canRead hcan
    have hread : (Read.getByte.run msg).position + n ≤ (Read.getByte.run msg).length + 8 := by
      rw [hget]
      dsimp only
      omega
    have hrest := ih hread (by rw [hget]; exact hlen)
    rw [List.replicate_succ, runReads, List.foldl_cons]
    refine hrest.trans ?_
    rw [hget, List.append_assoc, List.range'_append_1, Nat.add_comm 1]

/-! ## Packets -/

/-- The end of the message that goes to `parsePacket`. -/
def payloadEnd (p : Protocol) (msg : NetworkMessage) (packet : List UInt8) : Nat :=
  if p.encryptionEnabled then msg.position + msg.length else HEADER_LENGTH + packet.length

/-- A packet was read inside of it, to check and to decrypt it, and, if it was accepted, it is
    read inside of the message it holds, whatever is read of it. -/
def Within (p : Protocol) (packet : List UInt8) (accepted : Bool) (msg : NetworkMessage) : Prop :=
  (∀ i ∈ msg.touched, HEADER_LENGTH ≤ i ∧ i < HEADER_LENGTH + packet.length) ∧
    (accepted = true → ∀ reads, ∀ i ∈ (runReads { msg with touched := [] } reads).touched,
      msg.position ≤ i ∧ i < payloadEnd p msg packet)

/-- A packet that comes in is read inside of it. -/
def ReadsInside (p : Protocol) (stale : NetworkMessage) (packet : List UInt8) : Prop :=
  let msg := stale.receive (Bytes.encode 2 packet.length) packet
  Within p packet (p.onRecvMessage msg).1 (p.onRecvMessage msg).2.2

/-- The checksum of a packet is right. -/
def checksumMatches (p : Protocol) (packet : List UInt8) : Prop :=
  match p.checksumMethod with
  | .none => True
  | .adler32 => Bytes.decode (packet.take 4) =
      if packet.length > 4 then (adlerChecksum (packet.drop 4)).toNat else 0
  | .sequence => Bytes.decode (packet.take 4) ≠ 0 ∧
      Bytes.decode (packet.take 4) = (p.clientSequenceNumber + 1).toNat

/-- The inner length of a packet without a checksum. -/
def innerLength (p : Protocol) (packet : List UInt8) : Nat :=
  Bytes.decode ((decryptBlock p.key (packet.take 8)).take 2)

/-- With a checksum, the packet holds it, and if it is right, messages are encrypted and the
    packet holds more than it. Without, they are encrypted, and the packet is refused. -/
def Contained (p : Protocol) (packet : List UInt8) : Prop :=
  if p.checksumMethod = .none then
    p.encryptionEnabled = true ∧
      ¬ (packet.length % 8 = 0 ∧ innerLength p packet + 2 ≤ packet.length)
  else
    4 ≤ packet.length ∧
      (checksumMatches p packet → p.encryptionEnabled = true ∧ packet.length ≠ 4)

/-! ## Decryption -/

/-- What `xteaDecrypt` does with `n` bytes behind the checksum. -/
theorem xteaDecrypt_cases (p : Protocol) {msg : NetworkMessage} {n : Nat}
    (hlen : msg.length = prefixLength p.checksumMethod + n) (hpos : msg.position ≤ 6)
    (hn : n < 2 ^ 15) :
    n % 8 ≠ 0 ∧ p.xteaDecrypt msg = (false, msg) ∨
    n % 8 = 0 ∧ ∃ inner msg', msg'.position = msg.position + 2 ∧
      msg'.touched = msg.touched ++ List.range' msg.position n ++ List.range' msg.position 2 ∧
      (n ≠ 0 → inner =
        Bytes.decode ((decryptBlock p.key (msg.buffer.read msg.position 8)).take 2)) ∧
      p.xteaDecrypt msg =
        if inner + 2 ≤ n then (true, { msg' with length := inner }) else (false, msg') := by
  have hbuffer : NETWORKMESSAGE_MAXSIZE = 65500 := rfl
  have hmsgLength := p.msgSize_sub_prefix hlen (by omega)
  have hprefix : 2 ≤ prefixLength p.checksumMethod := by cases p.checksumMethod <;> decide
  by_cases hmod : n % 8 = 0
  · refine .inr ⟨hmod, ?_⟩
    -- Whole blocks: the loop decrypts what was received, and the inner length can be read.
    have hblocks : (n + 7) / 8 * 8 = n := by omega
    have hcan : NetworkMessage.canRead { msg with
        buffer := msg.buffer.mapBlocks (decryptBlock p.key) 8 ((n + 7) / 8) msg.position
        touched := msg.touched ++ List.range' msg.position n } 2 = true :=
      canRead_eq_true.2 ⟨by dsimp only; omega, by dsimp only; omega⟩
    refine ⟨Bytes.decode ((msg.buffer.mapBlocks (decryptBlock p.key) 8 ((n + 7) / 8)
      msg.position).read msg.position 2), { msg with
        buffer := msg.buffer.mapBlocks (decryptBlock p.key) 8 ((n + 7) / 8) msg.position
        position := msg.position + 2
        touched := msg.touched ++ List.range' msg.position n ++ List.range' msg.position 2 },
      rfl, rfl, fun hne => ?_, ?_⟩
    · -- The inner length is in the first block.
      obtain ⟨k, hk⟩ : ∃ k, (n + 7) / 8 = k + 1 := ⟨(n + 7) / 8 - 1, by omega⟩
      have hfirst := Memory.read_mapBlocks_first (fun l _ => length_decryptBlock p.key l) k
        msg.position msg.buffer
      rw [hk, ← hfirst, Memory.read_add _ _ 2 6, List.take_left' (Memory.length_read _ _ _)]
    · rw [Protocol.xteaDecrypt]
      simp only [hmsgLength, if_neg (not_not.2 hmod), hblocks, get_of_canRead hcan]
      split
      · next h => rw [if_neg (by omega)]
      · next h => rw [if_pos (by omega)]
  · exact .inl ⟨hmod, by rw [Protocol.xteaDecrypt]; simp only [hmsgLength, if_pos hmod]⟩

/-- What was touched stays touched. -/
theorem touched_callback (p : Protocol) (msg : NetworkMessage) :
    ∀ i ∈ msg.touched, i ∈ (p.sendRecvMessageCallback msg).2.touched := by
  intro i hi
  have hget : ∀ m : NetworkMessage, i ∈ m.touched → i ∈ (m.get 2).2.touched := by
    intro m hm
    rw [NetworkMessage.get, getBytes]
    split
    · exact List.mem_append_left _ hm
    · exact hm
  rw [Protocol.sendRecvMessageCallback]
  split
  · rw [Protocol.xteaDecrypt]
    generalize msgSize _ = n
    dsimp only
    split
    · exact hi
    · split
      · exact hget _ (List.mem_append_left _ hi)
      · exact hget _ (List.mem_append_left _ hi)
  · exact hi

/-- A message of which bytes behind its end can be read. -/
theorem not_within {p : Protocol} {packet : List UInt8} {msg : NetworkMessage}
    (hpos : msg.position < msg.length + 8) (hend : payloadEnd p msg packet < msg.length + 8)
    (hlen : msg.length + 8 < NETWORKMESSAGE_MAXSIZE) : ¬ Within p packet true msg := by
  rintro ⟨-, h⟩
  have hn : msg.position + (msg.length + 8 - msg.position) ≤ msg.length + 8 := by omega
  have hreads : (runReads { msg with touched := [] } _).touched = _ := runReads_getByte hn hlen
  -- As many bytes are read as reach 8 behind the length of the message.
  have hlast := h rfl (List.replicate (msg.length + 8 - msg.position) .getByte) (msg.length + 7)
  rw [hreads, List.nil_append, List.mem_range'_1] at hlast
  have := (hlast (by dsimp only; omega)).2
  omega

/-- Without encryption, the length counts the headers as well. -/
theorem not_within_of_plain {p : Protocol} {packet : List UInt8} (msg : NetworkMessage)
    (henc : p.encryptionEnabled = false) (hlen : msg.length = packet.length + 2)
    (hpos : msg.position ≤ 6) (hmax : packet.length ≤ INPUTMESSAGE_MAXSIZE) :
    ¬ Within p packet true msg := by
  have hbuffer : NETWORKMESSAGE_MAXSIZE = 65500 := rfl
  have hinput : INPUTMESSAGE_MAXSIZE = 4096 := rfl
  refine not_within (by omega) ?_ (by omega)
  rw [payloadEnd, henc, if_neg Bool.false_ne_true, HEADER_LENGTH]
  omega

/-! ## Checksums -/

/-- A checksum that is in the packet is read and compared; if it is right, the rest goes to
    `sendRecvMessageCallback`. -/
theorem onRecvMessage_cases (p : Protocol) (stale : NetworkMessage) {packet : List UInt8}
    (hm : p.checksumMethod ≠ .none) (hfour : 4 ≤ packet.length)
    (hmax : packet.length ≤ INPUTMESSAGE_MAXSIZE) :
    ∃ (p' : Protocol) (msg : NetworkMessage), p'.key = p.key ∧
      p'.checksumMethod = p.checksumMethod ∧ p'.encryptionEnabled = p.encryptionEnabled ∧
      msg.length = packet.length + 2 ∧ msg.position = 6 ∧
      (∀ i ∈ msg.touched, 2 ≤ i ∧ i < 2 + packet.length) ∧
      (checksumMatches p packet ∧
          p.onRecvMessage (stale.receive (Bytes.encode 2 packet.length) packet) =
            ((p'.sendRecvMessageCallback msg).1, p', (p'.sendRecvMessageCallback msg).2) ∨
        ¬ checksumMatches p packet ∧
          p.onRecvMessage (stale.receive (Bytes.encode 2 packet.length) packet) =
            (false, p', msg)) := by
  have hinput : INPUTMESSAGE_MAXSIZE = 4096 := rfl
  obtain ⟨hl, hp, hr⟩ := stale.receive_spec packet (by omega)
  have htouched : (stale.receive (Bytes.encode 2 packet.length) packet).touched = [] := rfl
  generalize stale.receive (Bytes.encode 2 packet.length) packet = m at hl hp hr htouched ⊢
  -- The first four bytes are the checksum, the others what it is for.
  have hsplit : packet.length = 4 + (packet.length - 4) := by omega
  rw [hsplit, Memory.read_add] at hr
  have htake : packet.take 4 = m.buffer.read 2 4 := by
    rw [← hr, List.take_left' (Memory.length_read _ _ _)]
  have hdrop : packet.drop 4 = m.buffer.read 6 (packet.length - 4) := by
    conv_lhs => rw [← hr]
    exact List.drop_left' (Memory.length_read _ _ _)
  have hcan : m.canRead 4 = true := canRead_eq_true.2 ⟨by omega, by rw [hp]; decide⟩
  have hget := get_of_canRead hcan
  rw [hp, htouched, List.nil_append, ← htake] at hget
  have hin : ∀ i ∈ List.range' 2 4, 2 ≤ i ∧ i < 2 + packet.length := fun i hi => by
    obtain ⟨hge, hlt⟩ := List.mem_range'_1.1 hi
    omega
  rw [Protocol.onRecvMessage, checksumMatches]
  rcases hmethod : p.checksumMethod with _ | _ | _
  · exact absurd hmethod hm
  · -- Adler: the checksum is that of the rest, or 0 if there is none.
    have hlen : m.length - 6 = packet.length - 4 := by omega
    have hiff : packet.length - 4 > 0 ↔ packet.length > 4 := by omega
    have hsum : (if packet.length - 4 > 0 then adlerChecksum (packet.drop 4) else 0).toNat =
        if packet.length > 4 then (adlerChecksum (packet.drop 4)).toNat else 0 := by
      rw [apply_ite UInt32.toNat, if_congr hiff rfl rfl]
      rfl
    refine ⟨p, { m with
      position := 6, touched := List.range' 2 4 ++ List.range' 6 (packet.length - 4) },
      rfl, hmethod.symm ▸ rfl, rfl, hl, rfl, fun i hi => ?_, ?_⟩
    · rcases List.mem_append.1 hi with hi | hi
      · exact hin i hi
      · obtain ⟨hge, hlt⟩ := List.mem_range'_1.1 hi
        omega
    · dsimp only
      rw [hget]
      dsimp only
      rw [hlen, ← hdrop, hsum]
      by_cases h : Bytes.decode (packet.take 4) =
          if packet.length > 4 then (adlerChecksum (packet.drop 4)).toNat else 0
      · rw [if_neg (not_not.2 h)]
        exact .inl ⟨h, rfl⟩
      · rw [if_pos h]
        exact .inr ⟨h, rfl⟩
  · -- Sequence numbers: 0 is refused, any other is compared with the next one.
    have hmsg : m.position + 4 = 6 := by omega
    by_cases hzero : Bytes.decode (packet.take 4) = 0
    · refine ⟨p, { m with position := 6, touched := List.range' 2 4 }, rfl, hmethod.symm ▸ rfl,
        rfl, hl, rfl, hin, .inr ⟨fun h => h.1 hzero, ?_⟩⟩
      dsimp only
      rw [hget]
      dsimp only
      rw [if_pos hzero]
    · refine ⟨{ p with
          clientSequenceNumber := Protocol.nextSequence (p.clientSequenceNumber + 1)
          checksumMethod := .sequence },
        { m with position := 6, touched := List.range' 2 4 }, rfl, rfl, rfl, hl, rfl, hin, ?_⟩
      dsimp only
      rw [hget]
      dsimp only
      rw [if_neg hzero]
      by_cases h : Bytes.decode (packet.take 4) = (p.clientSequenceNumber + 1).toNat
      · rw [if_neg (not_not.2 h)]
        exact .inl ⟨⟨hzero, h⟩, rfl⟩
      · rw [if_pos h]
        exact .inr ⟨fun h' => h h'.2, rfl⟩

/-- The checksum is read, even if the packet does not hold it. -/
theorem mem_touched_checksum (p : Protocol) (stale : NetworkMessage) {packet : List UInt8}
    (hm : p.checksumMethod ≠ .none) (hmax : packet.length ≤ INPUTMESSAGE_MAXSIZE) {i : Nat}
    (hi : i ∈ List.range' 2 4) : i ∈ (p.onRecvMessage
      (stale.receive (Bytes.encode 2 packet.length) packet)).2.2.touched := by
  have hinput : INPUTMESSAGE_MAXSIZE = 4096 := rfl
  obtain ⟨hl, hp, -⟩ := stale.receive_spec packet (by omega)
  generalize stale.receive (Bytes.encode 2 packet.length) packet = m at hl hp ⊢
  have hcan : m.canRead 4 = true := canRead_eq_true.2 ⟨by omega, by rw [hp]; decide⟩
  have hget := get_of_canRead hcan
  rw [hp] at hget
  have hmem : i ∈ m.touched ++ List.range' 2 4 := List.mem_append_right _ hi
  rw [Protocol.onRecvMessage]
  rcases hmethod : p.checksumMethod with _ | _ | _
  · exact absurd hmethod hm
  · dsimp only
    rw [hget]
    generalize UInt32.toNat _ = checksum
    split
    · exact List.mem_append_left _ hmem
    · exact touched_callback _ _ _ (List.mem_append_left _ hmem)
  · dsimp only
    rw [hget]
    split
    · exact hmem
    · split
      · exact hmem
      · exact touched_callback _ _ _ hmem

/-! ## The packets that are read inside of them -/

/-- A message that begins at the 8th byte, or is not accepted. -/
theorem within_of_position {p : Protocol} {packet : List UInt8} {accepted : Bool}
    {msg : NetworkMessage} (henc : p.encryptionEnabled = true)
    (htouched : ∀ i ∈ msg.touched, 2 ≤ i ∧ i < 2 + packet.length)
    (hpos : accepted = true → msg.position = 8) : Within p packet accepted msg := by
  refine ⟨htouched, fun h reads i hi => ?_⟩
  have hstart : Inside msg.position { msg with touched := [] } := ⟨Nat.le_refl _, nofun⟩
  obtain ⟨hin, hlen⟩ := runReads_inside hstart reads
  obtain ⟨hge, hlt⟩ := hin.touched i hi
  rw [hlen] at hlt
  refine ⟨hge, ?_⟩
  rw [payloadEnd, henc, if_pos rfl, hpos h, Nat.add_comm]
  exact hlt

/-- Encrypted messages with a checksum. -/
theorem within_callback {p p' : Protocol} {packet : List UInt8} {msg : NetworkMessage}
    (hm : p.checksumMethod ≠ .none) (hmethod : p'.checksumMethod = p.checksumMethod)
    (hp' : p'.encryptionEnabled = p.encryptionEnabled) (henc : p.encryptionEnabled = true)
    (hmax : packet.length ≤ INPUTMESSAGE_MAXSIZE) (hfour : 4 ≤ packet.length)
    (hlen : msg.length = packet.length + 2) (hpos : msg.position = 6)
    (htouched : ∀ i ∈ msg.touched, 2 ≤ i ∧ i < 2 + packet.length) :
    Within p packet (p'.sendRecvMessageCallback msg).1 (p'.sendRecvMessageCallback msg).2 ↔
      packet.length ≠ 4 := by
  have hinput : INPUTMESSAGE_MAXSIZE = 4096 := rfl
  have hprefix : prefixLength p'.checksumMethod = 6 := by
    rw [hmethod]
    rcases hc : p.checksumMethod with _ | _ | _
    · exact absurd hc hm
    · rfl
    · rfl
  rw [Protocol.sendRecvMessageCallback, if_pos (hp'.trans henc)]
  have hrest : msg.length = prefixLength p'.checksumMethod + (packet.length - 4) := by omega
  rcases xteaDecrypt_cases p' hrest (by omega) (by omega) with
    ⟨hmod, h⟩ | ⟨hmod, inner, msg', hpos', htouched', -, h⟩
  · rw [h]
    refine ⟨fun _ hfour => hmod (by omega), fun _ => ?_⟩
    exact within_of_position henc htouched (by intro h; cases h)
  · have hnew : ∀ i ∈ msg'.touched, packet.length ≠ 4 → 2 ≤ i ∧ i < 2 + packet.length := by
      intro i hi hne
      rw [htouched', List.append_assoc, List.mem_append, List.mem_append, List.mem_range'_1,
        List.mem_range'_1] at hi
      rcases hi with hi | hi | hi
      · exact htouched i hi
      · omega
      · omega
    rw [h]
    constructor
    · -- The two bytes of the inner length are behind a packet of 4 bytes.
      intro hwithin hfour
      have hmem : 7 ∈ msg'.touched := by
        rw [htouched']
        exact List.mem_append_right _ (List.mem_range'_1.2 (by omega))
      have hheader : HEADER_LENGTH = 2 := rfl
      split at hwithin
      · have := (hwithin.1 7 hmem).2
        omega
      · have := (hwithin.1 7 hmem).2
        omega
    · intro hne
      split
      · exact within_of_position henc (fun i hi => hnew i hi hne) fun _ => by dsimp only; omega
      · exact within_of_position henc (fun i hi => hnew i hi hne) (by intro h; cases h)

/-- Messages without a checksum. -/
theorem within_none {p : Protocol} (stale : NetworkMessage) {packet : List UInt8}
    (hm : p.checksumMethod = .none) (hne : packet ≠ [])
    (hmax : packet.length ≤ INPUTMESSAGE_MAXSIZE) :
    ReadsInside p stale packet ↔ p.encryptionEnabled = true ∧
      ¬ (packet.length % 8 = 0 ∧ innerLength p packet + 2 ≤ packet.length) := by
  have hinput : INPUTMESSAGE_MAXSIZE = 4096 := rfl
  have hbuffer : NETWORKMESSAGE_MAXSIZE = 65500 := rfl
  have hpos := List.length_pos_iff.2 hne
  obtain ⟨hl, hp, hr⟩ := stale.receive_spec packet (by omega)
  have htouched : (stale.receive (Bytes.encode 2 packet.length) packet).touched = [] := rfl
  rw [ReadsInside]
  generalize stale.receive (Bytes.encode 2 packet.length) packet = m at hl hp hr htouched ⊢
  rw [Protocol.onRecvMessage, hm]
  dsimp only
  rw [Protocol.sendRecvMessageCallback]
  rcases henc : p.encryptionEnabled with _ | _
  · rw [if_neg Bool.false_ne_true]
    exact ⟨fun h => absurd h (not_within_of_plain m henc hl (by omega) hmax),
      fun h => absurd h.1 Bool.false_ne_true⟩
  · have hlen : m.length = prefixLength p.checksumMethod + packet.length := by
      rw [hm, hl, prefixLength, Nat.add_comm]
    rw [if_pos rfl]
    rcases xteaDecrypt_cases p hlen (by omega) (by omega) with
      ⟨hmod, h⟩ | ⟨hmod, inner, msg', hpos', htouched', hinner, h⟩
    · rw [h]
      exact ⟨fun _ => ⟨rfl, fun h => hmod h.1⟩,
        fun _ => within_of_position henc (by rw [htouched]; intro i hi; cases hi)
          (by intro h; cases h)⟩
    · have hnew : ∀ i ∈ msg'.touched, 2 ≤ i ∧ i < 2 + packet.length := by
        intro i hi
        rw [htouched', htouched, List.nil_append, hp, List.mem_append, List.mem_range'_1,
          List.mem_range'_1] at hi
        omega
      -- The inner length is the one that the sender encrypted.
      have hfirst : innerLength p packet = inner := by
        have hsplit : packet.length = 8 + (packet.length - 8) := by omega
        rw [hsplit, Memory.read_add] at hr
        rw [hinner (by omega), hp, innerLength, ← hr, List.take_left' (Memory.length_read _ _ _)]
      rw [h, hfirst]
      split
      · next hle =>
        refine ⟨fun hwithin => absurd hwithin ?_, fun hcond => absurd ⟨hmod, hle⟩ hcond.2⟩
        refine not_within (by dsimp only; omega) ?_ (by dsimp only; omega)
        rw [payloadEnd, henc, if_pos rfl]
        dsimp only
        omega
      · next hle =>
        exact ⟨fun _ => ⟨rfl, fun hcond => hle hcond.2⟩,
          fun _ => within_of_position henc hnew (by intro h; cases h)⟩

/-- Messages with a checksum. -/
theorem within_checksum {p : Protocol} (stale : NetworkMessage) {packet : List UInt8}
    (hm : p.checksumMethod ≠ .none) (hmax : packet.length ≤ INPUTMESSAGE_MAXSIZE) :
    ReadsInside p stale packet ↔ 4 ≤ packet.length ∧
      (checksumMatches p packet → p.encryptionEnabled = true ∧ packet.length ≠ 4) := by
  have hinput : INPUTMESSAGE_MAXSIZE = 4096 := rfl
  rw [ReadsInside]
  by_cases hfour : 4 ≤ packet.length
  · -- What is read behind the checksum depends on whether the checksum is right.
    obtain ⟨p', msg, -, hmethod, hp', hlen, hpos, htouched, ⟨hmatch, h⟩ | ⟨hmatch, h⟩⟩ :=
      onRecvMessage_cases p stale hm hfour hmax
    · rw [h]
      dsimp only
      rcases henc : p.encryptionEnabled with _ | _
      · have hmsg : p'.sendRecvMessageCallback msg = (true, msg) := by
          have hplain : ¬ p'.encryptionEnabled = true := by
            rw [hp', henc]
            exact Bool.false_ne_true
          rw [Protocol.sendRecvMessageCallback, if_neg hplain]
        rw [hmsg]
        refine ⟨fun hwithin => absurd hwithin ?_,
          fun hcond => absurd (hcond.2 hmatch).1 Bool.false_ne_true⟩
        exact not_within_of_plain msg henc hlen (by omega) hmax
      · rw [within_callback hm hmethod hp' henc hmax hfour hlen hpos htouched]
        exact ⟨fun hne => ⟨hfour, fun _ => ⟨rfl, hne⟩⟩, fun hcond => (hcond.2 hmatch).2⟩
    · rw [h]
      refine ⟨fun _ => ⟨hfour, fun hmatch' => absurd hmatch' hmatch⟩,
        fun _ => ⟨htouched, by intro h; cases h⟩⟩
  · -- The checksum is not in the packet, and is read all the same.
    have hfive : 5 ∈ List.range' 2 4 := by decide
    have hmem := mem_touched_checksum p stale hm hmax hfive
    refine ⟨fun hwithin => absurd (hwithin.1 5 hmem).2 ?_, fun hcond => absurd hcond.1 hfour⟩
    rw [HEADER_LENGTH]
    omega

/-- Exactly the contained packets are read inside of them, whatever the buffer held before. -/
theorem readsInside_iff (p : Protocol) (stale : NetworkMessage) {packet : List UInt8}
    (hne : packet ≠ []) (hmax : packet.length ≤ INPUTMESSAGE_MAXSIZE) :
    ReadsInside p stale packet ↔ Contained p packet := by
  rw [Contained]
  split
  · next hm => exact within_none stale hm hne hmax
  · next hm => exact within_checksum stale hm hmax

/-- A client without a checksum, and one with sequence numbers. -/
def client (checksumMethod : ChecksumMethod) : Protocol where
  deflate := none
  key := fun _ => 0
  serverSequenceNumber := 0
  clientSequenceNumber := 0
  checksumMethod := checksumMethod
  encryptionEnabled := true
  rawMessages := false

/-- A packet with the right sequence number. -/
theorem readsInside_iff_sequence :
    ReadsInside (client .sequence) (OutputMessage.new fun _ => 0).toNetworkMessage
      [1, 0, 0, 0, 9, 8, 7, 6, 5, 4, 3, 2] :=
  (readsInside_iff (client .sequence) _ (List.cons_ne_nil _ _) (by decide)).2
    ⟨by decide, fun _ => ⟨rfl, by decide⟩⟩

/-- Without a checksum, a message that fills its packet is read up to 4 bytes behind it. -/
theorem not_readsInside :
    ¬ ∀ (p : Protocol) (stale : NetworkMessage) (packet : List UInt8), packet ≠ [] →
      packet.length ≤ INPUTMESSAGE_MAXSIZE → ReadsInside p stale packet := by
  intro h
  have hlength := length_encryptBlock (client .none).key [6, 0, 1, 2, 3, 4, 5, 6]
  have hinner : innerLength (client .none)
      (encryptBlock (client .none).key [6, 0, 1, 2, 3, 4, 5, 6]) = 6 := by
    have htake := List.take_of_length_le (Nat.le_of_eq hlength)
    rw [innerLength, htake, decryptBlock_encryptBlock (client .none).key rfl]
    rfl
  have hin := h (client .none) (OutputMessage.new fun _ => 0).toNetworkMessage
    (encryptBlock (client .none).key [6, 0, 1, 2, 3, 4, 5, 6])
    (List.ne_nil_of_length_pos (by rw [hlength]; decide)) (by rw [hlength]; decide)
  rw [within_none _ rfl (List.ne_nil_of_length_pos (by rw [hlength]; decide))
    (by rw [hlength]; decide), hinner, hlength] at hin
  exact hin.2 (by decide)

end Canary.Network
