import Canary.Network.Xtea

/-!
# Network messages

A message is a buffer of bytes, with the position at which it is read or written next, and
a length. The buffer of a connection is used for one packet after the other, what is behind
a packet are bytes of earlier ones.

An outgoing message is written from the 8th byte on. Before it is sent, `onSendMessage` puts
its headers in front, backwards: the length of the body, and, when all of this is encrypted,
a checksum or a sequence number, if the protocol has one, and the length of the packet.
`onRecvMessage` goes through the headers of a packet that came in, and decrypts it.

Numbers go as they are in memory, the lowest byte first. What zlib does with a message is an
argument of the protocol, which has none if messages are not compressed.
-/

namespace Canary.Network

def NETWORKMESSAGE_MAXSIZE : Nat := 65500

/-- The longest packet that is read from a client. -/
def INPUTMESSAGE_MAXSIZE : Nat := 4096

def HEADER_LENGTH : Nat := 2

def CHECKSUM_LENGTH : Nat := 4

def XTEA_MULTIPLE : Nat := 8

def MAX_BODY_LENGTH : Nat :=
  NETWORKMESSAGE_MAXSIZE - HEADER_LENGTH - CHECKSUM_LENGTH - XTEA_MULTIPLE

def INITIAL_BUFFER_POSITION : Nat := 8

/-- A number as a `MsgSize_t`. -/
def msgSize (n : Nat) : Nat := n % 2 ^ 16

/-- The sums of at most 5552 bytes each, which do not overflow. -/
def adlerSums (a b : UInt32) (data : List UInt8) : UInt32 × UInt32 :=
  if data = [] then (a, b)
  else
    let sums := (data.take 5552).foldl
      (fun (a, b) d => (a + d.toUInt32, b + (a + d.toUInt32))) (a, b)
    adlerSums (sums.1 % 65521) (sums.2 % 65521) (data.drop 5552)
termination_by data.length
decreasing_by
  rw [List.length_drop]
  exact Nat.sub_lt (List.length_pos_iff.2 ‹_›) (by decide)

def adlerChecksum (data : List UInt8) : UInt32 :=
  if data.length > NETWORKMESSAGE_MAXSIZE then 0
  else (adlerSums 1 0 data).2 <<< 16 ||| (adlerSums 1 0 data).1

structure NetworkMessage where
  buffer : Memory UInt8
  length : Nat
  position : Nat
  overrun : Bool
  /-- Where the buffer was read since the packet came in. The program does not record it. -/
  touched : List Nat

namespace NetworkMessage

/-! ## Reading -/

def canRead (msg : NetworkMessage) (size : Nat) : Bool :=
  !(msg.position + size > msg.length + 8 ||
    size + msg.position ≥ NETWORKMESSAGE_MAXSIZE)

/-- The next bytes, unless `canRead` refuses, which is recorded. -/
def getBytes (msg : NetworkMessage) (size : Nat) : Option (List UInt8) × NetworkMessage :=
  if msg.canRead size then
    (some (msg.buffer.read msg.position size),
      { msg with
        position := msgSize (msg.position + size)
        touched := msg.touched ++ List.range' msg.position size })
  else (none, { msg with overrun := true })

/-- `get<T>`, for a number of `size` bytes. -/
def get (msg : NetworkMessage) (size : Nat) : Nat × NetworkMessage :=
  (((msg.getBytes size).1.map Bytes.decode).getD 0, (msg.getBytes size).2)

def getByte (msg : NetworkMessage) : Nat × NetworkMessage := msg.get 1

def getString (msg : NetworkMessage) (stringLen : Nat) : List UInt8 × NetworkMessage :=
  let (stringLen, msg) := if stringLen = 0 then msg.get 2 else (stringLen, msg)
  ((msg.getBytes stringLen).1.getD [], (msg.getBytes stringLen).2)

def getPosition (msg : NetworkMessage) : (Nat × Nat × Nat) × NetworkMessage :=
  let (x, msg) := msg.get 2
  let (y, msg) := msg.get 2
  let (z, msg) := msg.getByte
  ((x, y, z), msg)

/-- `buffer[0] | buffer[1] << 8`. -/
def getLengthHeader (msg : NetworkMessage) : Nat := Bytes.decode (msg.buffer.read 0 HEADER_LENGTH)

/-- The connection reads the header, and then the packet, into the buffer. -/
def receive (msg : NetworkMessage) (header packet : List UInt8) : NetworkMessage :=
  let msg := { msg with buffer := msg.buffer.write 0 header }
  { msg with
    length := msgSize (msg.getLengthHeader + HEADER_LENGTH)
    position := HEADER_LENGTH
    buffer := msg.buffer.write HEADER_LENGTH packet
    touched := [] }

/-- The message, from the position on. -/
def payload (msg : NetworkMessage) : List UInt8 := msg.buffer.read msg.position msg.length

/-! ## Writing -/

def canAdd (msg : NetworkMessage) (size : Nat) : Bool := size + msg.position < MAX_BODY_LENGTH

/-- Bytes are copied to the position. -/
def put (msg : NetworkMessage) (bytes : List UInt8) : NetworkMessage :=
  { msg with
    buffer := msg.buffer.write msg.position bytes
    position := msgSize (msg.position + bytes.length)
    length := msgSize (msg.length + bytes.length) }

def addBytes (msg : NetworkMessage) (bytes : List UInt8) : NetworkMessage :=
  if msg.canAdd bytes.length then
    if bytes.length > NETWORKMESSAGE_MAXSIZE then msg else msg.put bytes
  else msg

/-- The position stays where it is. -/
def addPaddingBytes (msg : NetworkMessage) (n : Nat) : NetworkMessage :=
  if n + msg.position < NETWORKMESSAGE_MAXSIZE then
    { msg with
      buffer := msg.buffer.write msg.position (List.replicate n 0x33)
      length := msgSize (msg.length + n) }
  else msg

end NetworkMessage

structure OutputMessage extends NetworkMessage where
  outputBufferStart : Nat

namespace OutputMessage

/-- A new message, the buffer of which is not initialised. -/
def new (buffer : Memory UInt8) : OutputMessage where
  buffer := buffer
  length := 0
  position := INITIAL_BUFFER_POSITION
  overrun := false
  touched := []
  outputBufferStart := INITIAL_BUFFER_POSITION

/-- A header of `size` bytes in front, for which there is room (the assertion). -/
def addHeader (msg : OutputMessage) (size value : Nat) : Option OutputMessage :=
  if size ≤ msg.outputBufferStart then
    some { msg with
      outputBufferStart := msg.outputBufferStart - size
      buffer := msg.buffer.write (msg.outputBufferStart - size) (Bytes.encode size value)
      length := msgSize (msg.length + size) }
  else none

def writeMessageLength (msg : OutputMessage) : Option OutputMessage := msg.addHeader 2 msg.length

def addCryptoHeader (msg : OutputMessage) (addChecksum : Bool) (checksum : UInt32) :
    Option OutputMessage := do
  let msg ← if addChecksum then msg.addHeader 4 checksum.toNat else some msg
  msg.writeMessageLength

/-- What is sent: `getLength()` bytes from `getOutputBuffer()` on. -/
def output (msg : OutputMessage) : List UInt8 := msg.buffer.read msg.outputBufferStart msg.length

end OutputMessage

/-- `ChecksumMethods_t`. -/
inductive ChecksumMethod where
  | none
  | adler32
  | sequence
  deriving DecidableEq, Repr

structure Protocol where
  /-- What zlib makes of a message, when messages are compressed. -/
  deflate : Option (List UInt8 → Option (List UInt8))
  key : Key
  serverSequenceNumber : UInt32
  clientSequenceNumber : UInt32
  checksumMethod : ChecksumMethod
  encryptionEnabled : Bool
  rawMessages : Bool

namespace Protocol

/-- The number behind a sequence number that was used. -/
def nextSequence (number : UInt32) : UInt32 := if number ≥ 0x7FFFFFFF then 0 else number

def compression (p : Protocol) (msg : OutputMessage) : Option OutputMessage :=
  if p.checksumMethod ≠ .sequence then none
  else
    match p.deflate with
    | none => none
    | some deflate =>
      if msg.length > NETWORKMESSAGE_MAXSIZE then none
      else
        match deflate msg.output with
        | none => none
        | some [] => none
        | some compressed =>
          -- `reset()`, which leaves the start of the output where it is.
          let reset := { msg.toNetworkMessage with
            length := 0, position := INITIAL_BUFFER_POSITION, overrun := false }
          some { msg with toNetworkMessage := reset.addBytes compressed }

def xteaEncrypt (p : Protocol) (msg : OutputMessage) : OutputMessage :=
  -- The message must be a multiple of 8.
  let paddingBytes := msg.length % 8
  let msg := if paddingBytes ≠ 0 then
    { msg with toNetworkMessage := msg.addPaddingBytes (8 - paddingBytes) } else msg
  { msg with
    buffer := msg.buffer.mapBlocks (encryptBlock p.key) 8 ((msg.length + 7) / 8)
      msg.outputBufferStart }

def onSendMessage (p : Protocol) (msg : OutputMessage) : Option (Protocol × OutputMessage) :=
  if p.rawMessages then some (p, msg)
  else
    let compressed := if msg.length ≥ 128 then p.compression msg else none
    let sendMessageChecksum : UInt32 := if compressed.isSome then 0x80000000 else 0
    ((compressed.getD msg).writeMessageLength).bind fun msg =>
      if !p.encryptionEnabled then some (p, msg)
      else
        let msg := p.xteaEncrypt msg
        match p.checksumMethod with
        | .none => (msg.addCryptoHeader false 0).map fun msg => (p, msg)
        | .adler32 =>
          (msg.addCryptoHeader true (adlerChecksum msg.output)).map fun msg => (p, msg)
        | .sequence =>
          let number := p.serverSequenceNumber + 1
          (msg.addCryptoHeader true (sendMessageChecksum ||| number)).map fun msg =>
            ({ p with serverSequenceNumber := nextSequence number }, msg)

def xteaDecrypt (p : Protocol) (msg : NetworkMessage) : Bool × NetworkMessage :=
  let msgLength := msgSize (msg.length + 2 ^ 16 - if p.checksumMethod = .none then 2 else 6)
  if msgLength % 8 ≠ 0 then (false, msg)
  else
    let blocks := (msgLength + 7) / 8
    let msg := { msg with
      buffer := msg.buffer.mapBlocks (decryptBlock p.key) 8 blocks msg.position
      touched := msg.touched ++ List.range' msg.position (blocks * 8) }
    let (innerLength, msg) := msg.get 2
    if (innerLength : Int) > msgLength - 2 then (false, msg)
    else (true, { msg with length := innerLength })

/-- Whether the message goes to `parsePacket`. -/
def sendRecvMessageCallback (p : Protocol) (msg : NetworkMessage) : Bool × NetworkMessage :=
  if p.encryptionEnabled then p.xteaDecrypt msg else (true, msg)

def onRecvMessage (p : Protocol) (msg : NetworkMessage) : Bool × Protocol × NetworkMessage :=
  match p.checksumMethod with
  | .none => ((p.sendRecvMessageCallback msg).1, p, (p.sendRecvMessageCallback msg).2)
  | .sequence =>
    let (recvChecksum, msg) := msg.get 4
    -- The checksum 0 indicates a connection ping.
    if recvChecksum = 0 then (false, p, msg)
    else
      let checksum := p.clientSequenceNumber + 1
      let p := { p with clientSequenceNumber := nextSequence checksum }
      if recvChecksum ≠ checksum.toNat then (false, p, msg)
      else ((p.sendRecvMessageCallback msg).1, p, (p.sendRecvMessageCallback msg).2)
  | .adler32 =>
    let (recvChecksum, msg) := msg.get 4
    let len := msg.length - msg.position
    let checksum := if len > 0 then adlerChecksum (msg.buffer.read msg.position len) else 0
    let msg := { msg with touched := msg.touched ++ List.range' msg.position len }
    if recvChecksum ≠ checksum.toNat then (false, p, msg)
    else ((p.sendRecvMessageCallback msg).1, p, (p.sendRecvMessageCallback msg).2)

end Protocol

end Canary.Network
