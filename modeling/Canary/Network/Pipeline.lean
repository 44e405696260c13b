import Canary.Network.Message

/-!
# Sending and receiving

What `onSendMessage` makes of a message with encryption, and without compression, is
accepted by `onRecvMessage` of a peer with the same key and checksum method, whose sequence
number is that of the sender, and gives the body of the message back (`onRecvMessage_spec`).
The sequence numbers are in step again, so that this goes on for a whole run of messages, in
which they may begin anew (`exchange_eq_some`).

Headers go in front of what is to be sent (`addHeader_spec`), and padding behind it.
-/

namespace Canary.Network

/-! ## Sending -/

namespace OutputMessage

/-- The position is behind what is to be sent. -/
def Aligned (msg : OutputMessage) : Prop := msg.position = msg.outputBufferStart + msg.length

/-- A message that was written, and not sent yet. -/
structure Holds (msg : OutputMessage) (body : List UInt8) : Prop where
  start : msg.outputBufferStart = INITIAL_BUFFER_POSITION
  aligned : msg.Aligned
  length : msg.length = body.length
  output : msg.output = body
  fits : body.length ≤ MAX_BODY_LENGTH

theorem length_output (msg : OutputMessage) : msg.output.length = msg.length :=
  Memory.length_read _ _ _

/-- A header is in front of what was to be sent before. -/
theorem addHeader_spec (msg : OutputMessage) (size value : Nat)
    (hsize : size ≤ msg.outputBufferStart) (hlen : msg.length + size < 2 ^ 16) :
    ∃ msg', msg.addHeader size value = some msg' ∧
      msg'.outputBufferStart = msg.outputBufferStart - size ∧
      msg'.length = msg.length + size ∧ msg'.position = msg.position ∧
      msg'.output = Bytes.encode size value ++ msg.output := by
  rw [addHeader, if_pos hsize]
  refine ⟨_, rfl, rfl, Nat.mod_eq_of_lt hlen, rfl, ?_⟩
  have hlength : msgSize (msg.length + size) = size + msg.length := by
    rw [msgSize, Nat.mod_eq_of_lt hlen, Nat.add_comm]
  have hstart : msg.outputBufferStart - size + size = msg.outputBufferStart :=
    Nat.sub_add_cancel hsize
  rw [output, hlength, Memory.read_add, hstart]
  congr 1
  · have h := msg.buffer.read_write (msg.outputBufferStart - size) (Bytes.encode size value)
    rwa [Bytes.length_encode] at h
  · refine Memory.read_write_of_disjoint _ (.inr (Nat.le_of_eq ?_))
    rw [Bytes.length_encode, hstart]

/-- A header leaves the end of what is to be sent where it is. -/
theorem addHeader_end (msg : OutputMessage) (size value : Nat)
    (hsize : size ≤ msg.outputBufferStart) (hlen : msg.length + size < 2 ^ 16) :
    ∃ msg', msg.addHeader size value = some msg' ∧
      msg'.outputBufferStart = msg.outputBufferStart - size ∧
      msg'.outputBufferStart + msg'.length = msg.outputBufferStart + msg.length := by
  obtain ⟨msg', h, hstart, hlength, -, -⟩ := msg.addHeader_spec size value hsize hlen
  exact ⟨msg', h, hstart, by omega⟩

theorem addCryptoHeader_end {msg : OutputMessage} (hstart : msg.outputBufferStart = 6)
    (hlen : msg.length + 6 < 2 ^ 16) (addChecksum : Bool) (checksum : UInt32) :
    ∃ msg', msg.addCryptoHeader addChecksum checksum = some msg' ∧
      msg'.outputBufferStart + msg'.length = 6 + msg.length := by
  cases addChecksum with
  | false =>
    obtain ⟨msg₁, h₁, -, hend₁⟩ :=
      msg.addHeader_end 2 msg.length (by omega) (by omega)
    exact ⟨msg₁, h₁, hend₁.trans (by rw [hstart])⟩
  | true =>
    obtain ⟨msg₁, h₁, hstart₁, hend₁⟩ :=
      msg.addHeader_end 4 checksum.toNat (by omega) (by omega)
    obtain ⟨msg₂, h₂, -, hend₂⟩ :=
      msg₁.addHeader_end 2 msg₁.length (by omega) (by omega)
    refine ⟨msg₂, ?_, by omega⟩
    rw [addCryptoHeader, if_pos rfl, h₁]
    exact h₂

end OutputMessage

namespace NetworkMessage

/-- Bytes that are put at the position are behind what is to be sent. -/
theorem read_put (msg : NetworkMessage) (bytes : List UInt8) {start : Nat}
    (h : msg.position = start + msg.length) :
    (msg.put bytes).buffer.read start (msg.length + bytes.length) =
      msg.buffer.read start msg.length ++ bytes := by
  rw [Memory.read_add, put, h]
  dsimp only
  rw [Memory.read_write, Memory.read_write_of_disjoint _ (.inl (Nat.le_refl _))]

end NetworkMessage

namespace OutputMessage

theorem holds_put {msg : OutputMessage} {body bytes : List UInt8} (h : msg.Holds body)
    (hfits : body.length + bytes.length ≤ MAX_BODY_LENGTH) :
    Holds { msg with toNetworkMessage := msg.put bytes } (body ++ bytes) := by
  have hmax : MAX_BODY_LENGTH = 65486 := rfl
  have hinit : INITIAL_BUFFER_POSITION = 8 := rfl
  have hpos : msg.position = 8 + body.length := by rw [h.aligned, h.start, h.length, hinit]
  have hlength : (msg.put bytes).length = body.length + bytes.length := by
    rw [NetworkMessage.put, h.length]
    exact Nat.mod_eq_of_lt (by omega)
  refine ⟨h.start, ?_, by rw [List.length_append, hlength], ?_, by rwa [List.length_append]⟩
  · have hmod : msgSize (8 + body.length + bytes.length) = 8 + (body.length + bytes.length) := by
      rw [Nat.add_assoc]
      exact Nat.mod_eq_of_lt (by omega)
    rw [Aligned, hlength, h.start, hinit, NetworkMessage.put, hpos, hmod]
  · rw [output, hlength, ← h.length, NetworkMessage.read_put _ _ h.aligned]
    exact congrArg (· ++ bytes) h.output

theorem holds_new (buffer : Memory UInt8) : (new buffer).Holds [] :=
  ⟨rfl, rfl, rfl, rfl, Nat.zero_le _⟩

/-- If there is room, what is written is added to the body. -/
theorem length_le_of_canAdd {msg : OutputMessage} {body : List UInt8} (h : msg.Holds body)
    {size : Nat} (hadd : msg.canAdd size = true) : body.length + size ≤ MAX_BODY_LENGTH := by
  have hlt : size + msg.position < MAX_BODY_LENGTH := of_decide_eq_true hadd
  have hpos : msg.position = INITIAL_BUFFER_POSITION + body.length := by
    rw [h.aligned, h.start, h.length]
  omega

theorem holds_addBytes {msg : OutputMessage} {body bytes : List UInt8} (h : msg.Holds body)
    (hadd : msg.canAdd bytes.length = true) :
    Holds { msg with toNetworkMessage := msg.addBytes bytes } (body ++ bytes) := by
  have hle := length_le_of_canAdd h hadd
  have hmax : MAX_BODY_LENGTH ≤ NETWORKMESSAGE_MAXSIZE := by decide
  rw [NetworkMessage.addBytes, if_pos hadd, if_neg (by omega)]
  exact holds_put h hle

end OutputMessage

/-- What is encrypted: the length of the body, the body, and padding to a multiple of 8. -/
def plain (body : List UInt8) : List UInt8 :=
  Bytes.encode 2 body.length ++ body ++ List.replicate ((8 - (body.length + 2) % 8) % 8) 0x33

theorem length_plain (body : List UInt8) :
    (plain body).length = (body.length + 2 + 7) / 8 * 8 := by
  rw [plain, List.length_append, List.length_append, Bytes.length_encode, List.length_replicate]
  omega

/-- The bytes `cipher` are the blocks of `text`, encrypted. -/
def Encrypts (key : Key) (text cipher : List UInt8) : Prop :=
  ∃ (m : Memory UInt8) (p n : Nat), text.length = n * 8 ∧ m.read p (n * 8) = text ∧
    (m.mapBlocks (encryptBlock key) 8 n p).read p (n * 8) = cipher

theorem Encrypts.length_eq {key : Key} {text cipher : List UInt8} (h : Encrypts key text cipher) :
    cipher.length = text.length := by
  obtain ⟨m, p, n, hlen, -, rfl⟩ := h
  rw [Memory.length_read, hlen]

/-- Decrypted, wherever they are, the bytes are the text again. -/
theorem Encrypts.decrypt {key : Key} {text cipher : List UInt8} (h : Encrypts key text cipher)
    {m : Memory UInt8} {p n : Nat} (hn : text.length = n * 8)
    (hm : m.read p (n * 8) = cipher) :
    (m.mapBlocks (decryptBlock key) 8 n p).read p (n * 8) = text := by
  obtain ⟨m₀, p₀, n₀, hlen, htext, hcipher⟩ := h
  obtain rfl : n₀ = n := by omega
  have henc : ∀ l : List UInt8, l.length = 8 → (encryptBlock key l).length = 8 :=
    fun l _ => length_encryptBlock key l
  have hdec : ∀ l : List UInt8, l.length = 8 → (decryptBlock key l).length = 8 :=
    fun l _ => length_decryptBlock key l
  rw [Memory.read_mapBlocks_congr hdec (hm.trans hcipher.symm),
    Memory.read_mapBlocks_mapBlocks henc hdec fun _ => decryptBlock_encryptBlock key, htext]

namespace Protocol

/-- What is encrypted is the message, padded. -/
theorem xteaEncrypt_spec (p : Protocol) {msg : OutputMessage} {body : List UInt8}
    (hal : msg.Aligned) (hstart : msg.outputBufferStart = 6)
    (hlen : msg.length = body.length + 2) (hfits : body.length ≤ MAX_BODY_LENGTH)
    (hout : msg.output = Bytes.encode 2 body.length ++ body) :
    (p.xteaEncrypt msg).outputBufferStart = 6 ∧
      (p.xteaEncrypt msg).length = (plain body).length ∧
      Encrypts p.key (plain body) (p.xteaEncrypt msg).output := by
  have hmax : MAX_BODY_LENGTH = 65486 := rfl
  have hsize : NETWORKMESSAGE_MAXSIZE = 65500 := rfl
  have hplain := length_plain body
  -- The padded message, before it is encrypted.
  obtain ⟨m, hm, hpadded⟩ : ∃ m : Memory UInt8, p.xteaEncrypt msg = { msg with
      buffer := m.mapBlocks (encryptBlock p.key) 8 (((plain body).length + 7) / 8) 6
      length := (plain body).length } ∧ m.read 6 (plain body).length = plain body := by
    have hread : msg.buffer.read 6 msg.length = Bytes.encode 2 body.length ++ body := by
      rw [← hout, OutputMessage.output, hstart]
    rw [xteaEncrypt, hlen]
    by_cases hpad : (body.length + 2) % 8 = 0
    · -- Whole blocks need no padding.
      have hnil : (8 - (body.length + 2) % 8) % 8 = 0 := by omega
      have hlength : (plain body).length = msg.length := by omega
      refine ⟨msg.buffer, ?_, ?_⟩
      · dsimp only
        rw [if_neg (not_not.2 hpad), hstart, hlength]
      · rw [hlength, hread, plain, hnil, List.replicate_zero, List.append_nil]
    · have hpos : msg.position = 6 + msg.length := by rw [hal, hstart]
      have hroom : 8 - (body.length + 2) % 8 + msg.position < NETWORKMESSAGE_MAXSIZE := by omega
      have hn : (8 - (body.length + 2) % 8) % 8 = 8 - (body.length + 2) % 8 := by omega
      have hlength : (plain body).length = msg.length + (8 - (body.length + 2) % 8) := by omega
      refine ⟨msg.buffer.write msg.position
        (List.replicate (8 - (body.length + 2) % 8) 0x33), ?_, ?_⟩
      · have hmod : msgSize (msg.length + (8 - (body.length + 2) % 8)) = (plain body).length := by
          rw [hlength]
          exact Nat.mod_eq_of_lt (by omega)
        dsimp only
        rw [if_pos hpad, NetworkMessage.addPaddingBytes, if_pos hroom]
        dsimp only
        rw [hmod, hstart]
      · have hput := NetworkMessage.read_put msg.toNetworkMessage
          (List.replicate (8 - (body.length + 2) % 8) 0x33) hpos
        rw [List.length_replicate, ← hlength, hread] at hput
        have hp : plain body = Bytes.encode 2 body.length ++ body ++
            List.replicate (8 - (body.length + 2) % 8) 0x33 := by rw [plain, hn]
        exact hput.trans hp.symm
  rw [hm]
  refine ⟨hstart, rfl, m, 6, (body.length + 2 + 7) / 8, hplain, ?_, ?_⟩
  · rw [← hplain, hpadded]
  · have hblocks : ((plain body).length + 7) / 8 = (body.length + 2 + 7) / 8 := by omega
    rw [OutputMessage.output, hblocks, hstart, ← hplain]

/-- The bytes that `onSendMessage` puts between the length and what is encrypted. -/
def checksumBytes (p : Protocol) (cipher : List UInt8) : List UInt8 :=
  match p.checksumMethod with
  | .none => []
  | .adler32 => Bytes.encode 4 (adlerChecksum cipher).toNat
  | .sequence => Bytes.encode 4 (p.serverSequenceNumber + 1).toNat

theorem length_checksumBytes (p : Protocol) (cipher : List UInt8) :
    (p.checksumBytes cipher).length ≤ 4 := by
  rw [checksumBytes]
  rcases p.checksumMethod with _ | _ | _
  · exact Nat.zero_le _
  · exact Nat.le_of_eq (Bytes.length_encode _ _)
  · exact Nat.le_of_eq (Bytes.length_encode _ _)

/-- The protocol when it has sent a message. -/
def sent (p : Protocol) : Protocol :=
  match p.checksumMethod with
  | .sequence => { p with serverSequenceNumber := nextSequence (p.serverSequenceNumber + 1) }
  | _ => p

theorem addCryptoHeader_spec {msg : OutputMessage} (hstart : msg.outputBufferStart = 6)
    (hlen : msg.length + 6 < 2 ^ 16) (checksum : UInt32) :
    (∃ msg', msg.addCryptoHeader true checksum = some msg' ∧
      msg'.output = Bytes.encode 2 (msg.length + 4) ++
        (Bytes.encode 4 checksum.toNat ++ msg.output)) ∧
    ∃ msg', msg.addCryptoHeader false checksum = some msg' ∧
      msg'.output = Bytes.encode 2 msg.length ++ msg.output := by
  constructor
  · obtain ⟨msg₁, h₁, hstart₁, hlen₁, -, hout₁⟩ :=
      msg.addHeader_spec 4 checksum.toNat (by omega) (by omega)
    obtain ⟨msg₂, h₂, -, -, -, hout₂⟩ :=
      msg₁.addHeader_spec 2 msg₁.length (by omega) (by omega)
    refine ⟨msg₂, ?_, by rw [hout₂, hout₁, hlen₁]⟩
    rw [OutputMessage.addCryptoHeader, if_pos rfl, h₁]
    exact h₂
  · obtain ⟨msg₂, h₂, -, -, -, hout₂⟩ :=
      msg.addHeader_spec 2 msg.length (by omega) (by omega)
    exact ⟨msg₂, h₂, hout₂⟩

/-- A message as it is sent. -/
theorem onSendMessage_spec {p : Protocol} (henc : p.encryptionEnabled = true)
    (hraw : p.rawMessages = false) (hdeflate : p.deflate = none) {msg : OutputMessage}
    {body : List UInt8} (h : msg.Holds body) :
    ∃ msg' cipher, p.onSendMessage msg = some (p.sent, msg') ∧
      Encrypts p.key (plain body) cipher ∧
      msg'.output = Bytes.encode 2 ((p.checksumBytes cipher).length + cipher.length) ++
        (p.checksumBytes cipher ++ cipher) := by
  have hmax : MAX_BODY_LENGTH = 65486 := rfl
  have hfits := h.fits
  have hstart : msg.outputBufferStart = 8 := h.start
  have hcompressed : (if msg.length ≥ 128 then p.compression msg else none) = none := by
    have hnone : p.compression msg = none := by
      rw [compression, hdeflate]
      exact ite_self none
    rw [hnone, ite_self]
  obtain ⟨msg₁, h₁, hstart₁, hlen₁, hpos₁, hout₁⟩ :=
    msg.addHeader_spec 2 msg.length (by omega) (by have := h.length; omega)
  have hal₁ : msg₁.Aligned := by
    have hal := h.aligned
    rw [OutputMessage.Aligned] at hal ⊢
    omega
  rw [h.output, h.length] at hout₁
  rw [h.length] at hlen₁
  obtain ⟨hstart₂, hlen₂, hcipher⟩ :=
    p.xteaEncrypt_spec hal₁ (by omega) hlen₁ h.fits hout₁
  have hcut : (p.xteaEncrypt msg₁).length + 6 < 2 ^ 16 := by
    rw [hlen₂, length_plain]
    omega
  have hcl := OutputMessage.length_output (p.xteaEncrypt msg₁)
  -- What is encrypted is cut off by a header, which depends on the checksum alone.
  have hsend : p.onSendMessage msg = match p.checksumMethod with
      | .none => ((p.xteaEncrypt msg₁).addCryptoHeader false 0).map fun msg => (p, msg)
      | .adler32 => ((p.xteaEncrypt msg₁).addCryptoHeader true
          (adlerChecksum (p.xteaEncrypt msg₁).output)).map fun msg => (p, msg)
      | .sequence => ((p.xteaEncrypt msg₁).addCryptoHeader true
          (p.serverSequenceNumber + 1)).map fun msg => ({ p with
            serverSequenceNumber := nextSequence (p.serverSequenceNumber + 1) }, msg) := by
    have hlength : msg.writeMessageLength = some msg₁ := h₁
    rw [onSendMessage, hraw, if_neg Bool.false_ne_true, hcompressed]
    cases p.checksumMethod <;>
      simp only [Option.getD_none, hlength, Option.bind_some, henc, Bool.not_true,
        Bool.false_eq_true, if_false, Option.isSome_none, UInt32.zero_or]
  rw [hsend]
  rcases hmethod : p.checksumMethod with _ | _ | _
  · obtain ⟨-, msg₃, h₃, hout₃⟩ := addCryptoHeader_spec hstart₂ hcut 0
    refine ⟨msg₃, (p.xteaEncrypt msg₁).output, ?_, hcipher, ?_⟩
    · simp only [h₃, Option.map_some, sent, hmethod]
    · rw [hout₃, checksumBytes, hmethod, hcl, List.length_nil, Nat.zero_add, List.nil_append]
  · obtain ⟨⟨msg₃, h₃, hout₃⟩, -⟩ :=
      addCryptoHeader_spec hstart₂ hcut (adlerChecksum (p.xteaEncrypt msg₁).output)
    refine ⟨msg₃, (p.xteaEncrypt msg₁).output, ?_, hcipher, ?_⟩
    · simp only [h₃, Option.map_some, sent, hmethod]
    · rw [hout₃, checksumBytes, hmethod, hcl, Bytes.length_encode, Nat.add_comm 4]
  · obtain ⟨⟨msg₃, h₃, hout₃⟩, -⟩ :=
      addCryptoHeader_spec hstart₂ hcut (p.serverSequenceNumber + 1)
    refine ⟨msg₃, (p.xteaEncrypt msg₁).output, ?_, hcipher, ?_⟩
    · simp only [h₃, Option.map_some, sent, hmethod]
    · rw [hout₃, checksumBytes, hmethod, hcl, Bytes.length_encode, Nat.add_comm 4]

/-- What zlib makes of a message is written like any other message. -/
theorem holds_compression (p : Protocol) {msg msg' : OutputMessage}
    (hstart : msg.outputBufferStart = INITIAL_BUFFER_POSITION)
    (h : p.compression msg = some msg') : ∃ body, msg'.Holds body := by
  rw [compression] at h
  split at h
  · cases h
  split at h
  · cases h
  split at h
  · cases h
  split at h
  · cases h
  · cases h
  next compressed _ _ =>
    obtain rfl := Option.some.inj h
    have hreset : OutputMessage.Holds { msg with
        length := 0, position := INITIAL_BUFFER_POSITION, overrun := false } [] :=
      ⟨hstart, hstart.symm, rfl, rfl, Nat.zero_le _⟩
    by_cases hadd : NetworkMessage.canAdd { msg.toNetworkMessage with
        length := 0, position := INITIAL_BUFFER_POSITION, overrun := false } compressed.length
    · exact ⟨_, OutputMessage.holds_addBytes hreset hadd⟩
    · rw [NetworkMessage.addBytes, if_neg hadd]
      exact ⟨[], hreset⟩

/-- However a message is sent, its headers, its body and the padding stay in the buffer. -/
theorem onSendMessage_fits (p : Protocol) {msg : OutputMessage} {body : List UInt8}
    (h : msg.Holds body) :
    ∃ p' msg', p.onSendMessage msg = some (p', msg') ∧
      msg'.outputBufferStart + msg'.length ≤ NETWORKMESSAGE_MAXSIZE := by
  have hmax : MAX_BODY_LENGTH = 65486 := rfl
  have hinit : INITIAL_BUFFER_POSITION = 8 := rfl
  have hsize : NETWORKMESSAGE_MAXSIZE = 65500 := rfl
  rw [onSendMessage]
  split
  · have hstart := h.start
    have hlen := h.length
    have hfits := h.fits
    exact ⟨p, msg, rfl, by omega⟩
  -- The message that is sent, compressed or not.
  obtain ⟨body', h'⟩ : ∃ body', OutputMessage.Holds
      ((if msg.length ≥ 128 then p.compression msg else none).getD msg) body' := by
    cases hc : if msg.length ≥ 128 then p.compression msg else none with
    | none => exact ⟨body, h⟩
    | some msg' =>
      rw [Option.ite_none_right_eq_some] at hc
      exact p.holds_compression h.start hc.2
  generalize (if msg.length ≥ 128 then p.compression msg else none) = compressed at h' ⊢
  dsimp only
  generalize compressed.getD msg = msg₀ at h' ⊢
  have hfits := h'.fits
  have hlen := h'.length
  have hstart := h'.start
  obtain ⟨msg₁, h₁, hstart₁, hlen₁, hpos₁, hout₁⟩ :=
    msg₀.addHeader_spec 2 msg₀.length (by omega) (by omega)
  rw [OutputMessage.writeMessageLength, h₁, Option.bind_some]
  split
  · exact ⟨p, msg₁, rfl, by omega⟩
  have hal₁ : msg₁.Aligned := by
    have hal := h'.aligned
    rw [OutputMessage.Aligned] at hal ⊢
    omega
  rw [h'.output, hlen] at hout₁
  obtain ⟨hstart₂, hlen₂, -⟩ := p.xteaEncrypt_spec hal₁ (by omega) (by omega) hfits hout₁
  have hplain := length_plain body'
  have hheader := OutputMessage.addCryptoHeader_end hstart₂ (by omega)
  split
  · obtain ⟨msg₃, h₃, hend⟩ := hheader false 0
    exact ⟨p, msg₃, by rw [h₃, Option.map_some], by omega⟩
  · obtain ⟨msg₃, h₃, hend⟩ := hheader true (adlerChecksum (p.xteaEncrypt msg₁).output)
    exact ⟨p, msg₃, by rw [h₃, Option.map_some], by omega⟩
  · obtain ⟨msg₃, h₃, hend⟩ := hheader true
      ((if compressed.isSome = true then 0x80000000 else 0) ||| (p.serverSequenceNumber + 1))
    exact ⟨_, msg₃, by rw [h₃, Option.map_some], by omega⟩

end Protocol

/-! ## Receiving -/

namespace NetworkMessage

/-- A packet in the buffer, with its header. -/
theorem receive_spec (stale : NetworkMessage) (packet : List UInt8)
    (hlen : packet.length + 2 < 2 ^ 16) :
    (stale.receive (Bytes.encode 2 packet.length) packet).length = packet.length + 2 ∧
      (stale.receive (Bytes.encode 2 packet.length) packet).position = 2 ∧
      (stale.receive (Bytes.encode 2 packet.length) packet).buffer.read 2 packet.length =
        packet := by
  have hread : (stale.buffer.write 0 (Bytes.encode 2 packet.length)).read 0 2 =
      Bytes.encode 2 packet.length := by
    have h := stale.buffer.read_write 0 (Bytes.encode 2 packet.length)
    rwa [Bytes.length_encode] at h
  refine ⟨?_, rfl, Memory.read_write _ _ _⟩
  rw [receive, getLengthHeader]
  dsimp only
  rw [HEADER_LENGTH, hread, Bytes.decode_encode, Nat.mod_eq_of_lt (by omega)]
  exact Nat.mod_eq_of_lt hlen

theorem canRead_eq_true {msg : NetworkMessage} {size : Nat} : msg.canRead size = true ↔
    msg.position + size ≤ msg.length + 8 ∧ size + msg.position < NETWORKMESSAGE_MAXSIZE := by
  rw [canRead]
  simp only [Bool.not_eq_true', Bool.or_eq_false_iff, decide_eq_false_iff_not, ge_iff_le,
    gt_iff_lt, Nat.not_lt, Nat.not_le]

/-- A number is read. -/
theorem get_of_canRead {msg : NetworkMessage} {size : Nat} (h : msg.canRead size = true) :
    msg.get size = (Bytes.decode (msg.buffer.read msg.position size), { msg with
      position := msg.position + size
      touched := msg.touched ++ List.range' msg.position size }) := by
  have hlt := (canRead_eq_true.1 h).2
  have hmod : msgSize (msg.position + size) = msg.position + size := by
    rw [NETWORKMESSAGE_MAXSIZE] at hlt
    exact Nat.mod_eq_of_lt (by omega)
  rw [get, getBytes, if_pos h, hmod]
  rfl

end NetworkMessage

/-- How long what comes before the encrypted bytes is, with the header. -/
def prefixLength : ChecksumMethod → Nat
  | .none => 2
  | _ => 6

namespace Protocol

/-- The length of what is encrypted, which `xteaDecrypt` counts in 16 bits. -/
theorem msgSize_sub_prefix (p : Protocol) {msg : NetworkMessage} {n : Nat}
    (hlen : msg.length = prefixLength p.checksumMethod + n) (hn : n < 2 ^ 16) :
    msgSize (msg.length + 2 ^ 16 - if p.checksumMethod = .none then 2 else 6) = n := by
  have hpre : (if p.checksumMethod = .none then 2 else 6) = prefixLength p.checksumMethod := by
    cases p.checksumMethod <;> rfl
  have hsum : msg.length + 2 ^ 16 - prefixLength p.checksumMethod = n + 2 ^ 16 := by omega
  rw [hpre, hsum, msgSize, Nat.add_mod_right, Nat.mod_eq_of_lt hn]

/-- The body is decrypted. -/
theorem xteaDecrypt_spec (p : Protocol) (msg : NetworkMessage) {body cipher : List UInt8}
    (hpos : msg.position ≤ 6) (hlen : msg.length = prefixLength p.checksumMethod + cipher.length)
    (hcipher : Encrypts p.key (plain body) cipher)
    (hread : msg.buffer.read msg.position cipher.length = cipher)
    (hfits : body.length ≤ MAX_BODY_LENGTH) :
    ∃ msg', p.xteaDecrypt msg = (true, msg') ∧ msg'.payload = body := by
  have hmax : MAX_BODY_LENGTH = 65486 := rfl
  have hbuffer : NETWORKMESSAGE_MAXSIZE = 65500 := rfl
  have hplain := length_plain body
  have hcl := hcipher.length_eq
  have hmsgLength := p.msgSize_sub_prefix hlen (by omega)
  have hmultiple : ¬ cipher.length % 8 ≠ 0 := by omega
  obtain ⟨n, hn⟩ : ∃ n, (plain body).length = n * 8 := ⟨_, hplain⟩
  have hblocks : (cipher.length + 7) / 8 = n := by omega
  -- What the message is when it is decrypted.
  have hdec := hcipher.decrypt hn (m := msg.buffer) (p := msg.position)
    (by rw [← hn, ← hcl]; exact hread)
  obtain ⟨buffer, hb⟩ : ∃ buffer, msg.buffer.mapBlocks (decryptBlock p.key) 8 n msg.position =
    buffer := ⟨_, rfl⟩
  rw [hb] at hdec
  have hsplit : n * 8 = 2 + (body.length + (8 - (body.length + 2) % 8) % 8) := by omega
  rw [hsplit, Memory.read_add, Memory.read_add, plain, List.append_assoc] at hdec
  obtain ⟨hinner, hrest⟩ := List.append_inj hdec
    (by rw [Memory.length_read, Bytes.length_encode])
  obtain ⟨hbody, -⟩ := List.append_inj hrest (Memory.length_read _ _ _)
  have hcan : NetworkMessage.canRead { msg with
      buffer := buffer, touched := msg.touched ++ List.range' msg.position (n * 8) } 2 = true :=
    NetworkMessage.canRead_eq_true.2 ⟨by dsimp only; omega, by dsimp only; omega⟩
  have hlength : Bytes.decode (buffer.read msg.position 2) = body.length := by
    rw [hinner, Bytes.decode_encode, Nat.mod_eq_of_lt (by omega)]
  have hle : ¬ ((body.length : Int) > (cipher.length : Int) - 2) := by omega
  rw [xteaDecrypt]
  simp only [hmsgLength, if_neg hmultiple, hblocks, hb, NetworkMessage.get_of_canRead hcan,
    hlength, if_neg hle]
  exact ⟨_, rfl, hbody⟩

/-- The protocol when it has received a message. -/
def received (p : Protocol) : Protocol :=
  match p.checksumMethod with
  | .sequence => { p with clientSequenceNumber := nextSequence (p.clientSequenceNumber + 1) }
  | _ => p

end Protocol

/-- The peer has the key and the checksum method of the sender, and its sequence number. -/
structure InStep (s r : Protocol) : Prop where
  deflate : s.deflate = none
  rawMessages : s.rawMessages = false
  encrypts : s.encryptionEnabled = true
  decrypts : r.encryptionEnabled = true
  key : r.key = s.key
  checksumMethod : r.checksumMethod = s.checksumMethod
  sequence : r.clientSequenceNumber = s.serverSequenceNumber
  sequence_lt : s.serverSequenceNumber < 0x7FFFFFFF

theorem InStep.next {s r : Protocol} (h : InStep s r) : InStep s.sent r.received := by
  rw [Protocol.sent, Protocol.received, h.checksumMethod]
  rcases hm : s.checksumMethod with _ | _ | _
  · exact h
  · exact h
  · refine ⟨h.deflate, h.rawMessages, h.encrypts, h.decrypts, h.key, rfl, ?_, ?_⟩
    · dsimp only
      rw [h.sequence]
    · dsimp only
      rw [Protocol.nextSequence]
      split
      · decide
      · next hlt => exact UInt32.not_le.1 hlt

/-- The checksum is read, and what is left is what was encrypted. -/
theorem receive_checksum (stale : NetworkMessage) (checksum : UInt32) (cipher : List UInt8)
    (hlen : cipher.length + 6 < 2 ^ 16) :
    ∃ msg, (stale.receive (Bytes.encode 2 (4 + cipher.length))
        (Bytes.encode 4 checksum.toNat ++ cipher)).get 4 = (checksum.toNat, msg) ∧
      msg.length = 6 + cipher.length ∧ msg.position = 6 ∧
      msg.buffer.read 6 cipher.length = cipher := by
  have hpacket : (Bytes.encode 4 checksum.toNat ++ cipher).length = 4 + cipher.length := by
    rw [List.length_append, Bytes.length_encode]
  obtain ⟨hl, hp, hr⟩ := stale.receive_spec (Bytes.encode 4 checksum.toNat ++ cipher) (by omega)
  rw [hpacket] at hl hp hr
  rw [Memory.read_add] at hr
  obtain ⟨hchecksum, hcipher⟩ := List.append_inj hr
    (by rw [Memory.length_read, Bytes.length_encode])
  have hcan : (stale.receive (Bytes.encode 2 (4 + cipher.length))
      (Bytes.encode 4 checksum.toNat ++ cipher)).canRead 4 = true :=
    NetworkMessage.canRead_eq_true.2 ⟨by omega, by rw [hp]; decide⟩
  have hlt : checksum.toNat < 256 ^ 4 := checksum.toNat_lt
  rw [NetworkMessage.get_of_canRead hcan, hp, hchecksum, Bytes.decode_encode,
    Nat.mod_eq_of_lt hlt]
  exact ⟨_, rfl, by dsimp only; omega, rfl, hcipher⟩

/-- What was sent is accepted, and is the body of the message. -/
theorem onRecvMessage_spec {s r : Protocol} (h : InStep s r) {body cipher : List UInt8}
    (hcipher : Encrypts s.key (plain body) cipher) (hfits : body.length ≤ MAX_BODY_LENGTH)
    (stale : NetworkMessage) :
    ∃ msg, r.onRecvMessage (stale.receive
        (Bytes.encode 2 ((s.checksumBytes cipher).length + cipher.length))
        (s.checksumBytes cipher ++ cipher)) = (true, r.received, msg) ∧ msg.payload = body := by
  have hmax : MAX_BODY_LENGTH = 65486 := rfl
  have hplain := length_plain body
  have hcl := hcipher.length_eq
  rw [← h.key] at hcipher
  rw [Protocol.onRecvMessage, Protocol.checksumBytes, Protocol.received]
  rcases hm : s.checksumMethod with _ | _ | _ <;> rw [h.checksumMethod, hm] <;> dsimp only
  · -- Without a checksum.
    obtain ⟨hl, hp, hr⟩ := stale.receive_spec cipher (by omega)
    rw [List.length_nil, Nat.zero_add, List.nil_append, Protocol.sendRecvMessageCallback,
      if_pos h.decrypts]
    have hmethod : r.checksumMethod = .none := h.checksumMethod.trans hm
    obtain ⟨msg, hmsg, hbody⟩ := r.xteaDecrypt_spec _ (by rw [hp]; decide)
      (by rw [hl, hmethod, prefixLength, Nat.add_comm]) hcipher (by rw [hp]; exact hr) hfits
    exact ⟨msg, by rw [hmsg], hbody⟩
  · -- With an Adler checksum of what was encrypted.
    have hmethod : r.checksumMethod = .adler32 := h.checksumMethod.trans hm
    obtain ⟨m, hm₁, hl, hp, hr⟩ := receive_checksum stale (adlerChecksum cipher) cipher (by omega)
    have hrest : m.length - 6 = cipher.length := by omega
    have hpos : cipher.length > 0 := by omega
    obtain ⟨msg, hmsg, hbody⟩ := r.xteaDecrypt_spec { m with
        touched := m.touched ++ List.range' m.position cipher.length } (by dsimp only; omega)
      (by rw [hmethod]; exact hl) hcipher (by rw [hp]; exact hr) hfits
    rw [Bytes.length_encode]
    simp only [hm₁, hp, hrest, if_pos hpos, hr, ne_eq, not_true_eq_false, if_false,
      Protocol.sendRecvMessageCallback, h.decrypts, if_true]
    rw [hp] at hmsg
    exact ⟨msg, by rw [hmsg], hbody⟩
  · -- With a sequence number, which is not 0 and is the one expected.
    have hmethod : r.checksumMethod = .sequence := h.checksumMethod.trans hm
    obtain ⟨m, hm₁, hl, hp, hr⟩ :=
      receive_checksum stale (s.serverSequenceNumber + 1) cipher (by omega)
    have hnumber : (s.serverSequenceNumber + 1).toNat ≠ 0 := by
      have hlt := UInt32.lt_iff_toNat_lt.1 h.sequence_lt
      have hmaxseq : (0x7FFFFFFF : UInt32).toNat = 0x7FFFFFFF := rfl
      rw [UInt32.toNat_add, Nat.mod_eq_of_lt (by simp; omega)]
      simp
    obtain ⟨msg, hmsg, hbody⟩ := Protocol.xteaDecrypt_spec
      { r with clientSequenceNumber := Protocol.nextSequence (r.clientSequenceNumber + 1) } m
      (by omega) (by dsimp only; rw [hmethod]; exact hl) hcipher
      (by rw [hp]; exact hr) hfits
    rw [Bytes.length_encode]
    simp only [hm₁, if_neg hnumber, h.sequence, ne_eq, not_true_eq_false, if_false,
      Protocol.sendRecvMessageCallback, h.decrypts, if_true]
    rw [h.sequence, hmethod, h.decrypts] at hmsg
    exact ⟨msg, by rw [hmsg], hbody⟩

/-! ## A run of messages -/

/-- Messages are sent, and received one after the other, into the same buffer. A packet is as
    long as its header says. -/
def exchange (stale : NetworkMessage) (s r : Protocol) :
    List OutputMessage → Option (List (List UInt8) × Protocol × Protocol)
  | [] => some ([], s, r)
  | msg :: msgs => do
    let (s, msg) ← s.onSendMessage msg
    let header := msg.output.take 2
    let packet := msg.output.drop 2
    if Bytes.decode header ≠ packet.length then none
    else
      match r.onRecvMessage (stale.receive header packet) with
      | (false, _, _) => none
      | (true, r, received) => do
        let (bodies, s, r) ← exchange received s r msgs
        some (received.payload :: bodies, s, r)

/-- Every message of a run is accepted and gives its body back, and the sequence numbers
    stay in step. -/
theorem exchange_eq_some {s r : Protocol} (h : InStep s r) {msgs : List OutputMessage}
    {bodies : List (List UInt8)} (hmsgs : List.Forall₂ OutputMessage.Holds msgs bodies)
    (stale : NetworkMessage) :
    ∃ s' r', exchange stale s r msgs = some (bodies, s', r') ∧ InStep s' r' := by
  induction hmsgs generalizing s r stale with
  | nil => exact ⟨s, r, rfl, h⟩
  | @cons msg body msgs bodies hmsg _ ih =>
    obtain ⟨out, cipher, hsend, hcipher, hout⟩ :=
      Protocol.onSendMessage_spec h.encrypts h.rawMessages h.deflate hmsg
    obtain ⟨received, hrecv, hbody⟩ := onRecvMessage_spec h hcipher hmsg.fits stale
    obtain ⟨s', r', hex, hstep⟩ := ih h.next received
    refine ⟨s', r', ?_, hstep⟩
    have hheader : out.output.take 2 =
        Bytes.encode 2 ((s.checksumBytes cipher).length + cipher.length) := by
      rw [hout, List.take_left' (Bytes.length_encode _ _)]
    have hpacket : out.output.drop 2 = s.checksumBytes cipher ++ cipher := by
      rw [hout, List.drop_left' (Bytes.length_encode _ _)]
    have hframed : Bytes.decode (Bytes.encode 2 ((s.checksumBytes cipher).length +
        cipher.length)) = (s.checksumBytes cipher ++ cipher).length := by
      have hmax : MAX_BODY_LENGTH = 65486 := rfl
      have hfits := hmsg.fits
      have hplain := length_plain body
      have hcl := hcipher.length_eq
      have hchecksum := s.length_checksumBytes cipher
      rw [Bytes.decode_encode, List.length_append]
      exact Nat.mod_eq_of_lt (by omega)
    rw [exchange, hsend]
    simp only [Option.bind_eq_bind, Option.bind_some, hheader, hpacket, hframed, ne_eq,
      not_true_eq_false, if_false, hrecv, hex, hbody]

/-- Two peers whose sequence numbers are at their end: the first message has the greatest
    one, and the second begins anew. -/
theorem exchange_eq_some_wrap :
    let p : Protocol := ⟨none, fun i => 7 * i.val.toUInt32, 0x7FFFFFFE, 0x7FFFFFFE, .sequence, true,
      false⟩
    let msg (bytes : List UInt8) : OutputMessage :=
      ⟨(OutputMessage.new fun _ => 0).addBytes bytes, INITIAL_BUFFER_POSITION⟩
    ∃ s r, exchange (OutputMessage.new fun _ => 255).toNetworkMessage p p
      [msg [1, 2, 3], msg [4, 5, 6, 7, 8, 9]] = some ([[1, 2, 3], [4, 5, 6, 7, 8, 9]], s, r) ∧
        InStep s r := by
  intro p msg
  have hstep : InStep p p := ⟨rfl, rfl, rfl, rfl, rfl, rfl, rfl, by decide⟩
  refine exchange_eq_some hstep (.cons ?_ (.cons ?_ .nil)) _
  · exact OutputMessage.holds_addBytes (OutputMessage.holds_new _) (by decide)
  · exact OutputMessage.holds_addBytes (OutputMessage.holds_new _) (by decide)

end Canary.Network
