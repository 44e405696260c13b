import Canary.Lib.Transition
import Canary.Network.Pipeline

/-!
# The output buffer

The messages to a player are gathered in an output buffer (`writeToOutputBuffer`), which is sent
when the next message does not fit any more, and by a task that sends what there is every few
milliseconds (`sendAll`). The connection is open: what is sent stands in its queue.

In every run the buffers that were sent, and the one that is being written, hold the messages one
after the other (`written_of_run`), and each has room for its headers and for the padding.
-/

namespace Canary.Network

open Transition

/-- The longest message that is written to the output buffer. -/
def MAX_PROTOCOL_BODY_LENGTH : Nat := MAX_BODY_LENGTH - 10

/-- What a message holds: `getLength()` bytes from the 8th on. -/
def NetworkMessage.body (msg : NetworkMessage) : List UInt8 :=
  msg.buffer.read INITIAL_BUFFER_POSITION msg.length

namespace OutputMessage

/-- `append`: the bytes of a message are copied to the position. -/
def append (out : OutputMessage) (msg : NetworkMessage) : OutputMessage :=
  { out with toNetworkMessage := out.put msg.body }

end OutputMessage

/-- The output buffer of a protocol, and the messages that it has sent. -/
structure Output where
  outputBuffer : Option OutputMessage
  sent : List OutputMessage

namespace Output

/-- The calls. A new buffer is made of the memory that it finds. -/
inductive Op
  | writeToOutputBuffer (msg : NetworkMessage) (memory : Memory UInt8)
  | sendAll

def send (s : Output) (msg : OutputMessage) : Output := { s with sent := s.sent ++ [msg] }

/-- The buffer to which the next `size` bytes are written. -/
def getOutputBuffer (s : Output) (size : Nat) (memory : Memory UInt8) : Output × OutputMessage :=
  match s.outputBuffer with
  | none => (s, .new memory)
  | some out =>
    if out.length + size > MAX_PROTOCOL_BODY_LENGTH then (s.send out, .new memory) else (s, out)

def writeToOutputBuffer (s : Output) (msg : NetworkMessage) (memory : Memory UInt8) : Output :=
  let (s, out) := s.getOutputBuffer msg.length memory
  { s with outputBuffer := some (out.append msg) }

/-- The task of `OutputMessagePool`, for this protocol. -/
def sendAll (s : Output) : Output :=
  match s.outputBuffer with
  | none => s
  | some out => { s.send out with outputBuffer := none }

def system : System Output Op where
  init s := s = { outputBuffer := none, sent := [] }
  step s op s' :=
    match op with
    | .writeToOutputBuffer msg memory => s' = s.writeToOutputBuffer msg memory
    | .sendAll => s' = s.sendAll

/-- A message is not longer than the body of a protocol. -/
def Short (_ : Output) : Op → Prop
  | .writeToOutputBuffer msg _ => msg.length ≤ MAX_PROTOCOL_BODY_LENGTH
  | .sendAll => True

/-- What a call writes. -/
def written : Op → List UInt8
  | .writeToOutputBuffer msg _ => msg.body
  | .sendAll => []

/-- The buffer holds a body that is not too long, and has room for the padding. -/
def Fits (out : OutputMessage) : Prop :=
  out.Holds out.output ∧ out.length ≤ MAX_PROTOCOL_BODY_LENGTH

/-- The buffers, those sent and the current one. -/
def buffers (s : Output) : List OutputMessage := s.sent ++ s.outputBuffer.toList

theorem fits_append {out : OutputMessage} {msg : NetworkMessage} (h : Fits out)
    (hlen : out.length + msg.length ≤ MAX_PROTOCOL_BODY_LENGTH) :
    Fits (out.append msg) ∧ (out.append msg).output = out.output ++ msg.body := by
  have hbody : msg.body.length = msg.length := Memory.length_read _ _ _
  have hlength : out.output.length = out.length := OutputMessage.length_output out
  have hholds : (out.append msg).Holds (out.output ++ msg.body) := by
    refine OutputMessage.holds_put h.1 ?_
    rw [hbody, hlength]
    exact Nat.le_trans hlen (by decide)
  refine ⟨⟨hholds.output.symm ▸ hholds, ?_⟩, hholds.output⟩
  rw [hholds.length, List.length_append, hbody, hlength]
  exact hlen

theorem fits_new (memory : Memory UInt8) : Fits (.new memory) :=
  ⟨OutputMessage.holds_new memory, Nat.zero_le _⟩

/-- The bytes of all buffers, in order. -/
def bytes (s : Output) : List UInt8 := (s.buffers.map (·.output)).flatten

/-- The current buffer is sent behind the others. -/
theorem sent_send {s : Output} {out : OutputMessage} (h : s.outputBuffer = some out) :
    (s.send out).sent = s.buffers := by
  rw [buffers, h]
  rfl

/-- The buffer to which a message is written has room for it. -/
theorem getOutputBuffer_spec {s s' : Output} {out : OutputMessage} {size : Nat}
    {memory : Memory UInt8} (h : ∀ out ∈ s.buffers, Fits out)
    (hsize : size ≤ MAX_PROTOCOL_BODY_LENGTH)
    (hget : s.getOutputBuffer size memory = (s', out)) :
    (∀ out ∈ s'.sent, Fits out) ∧ Fits out ∧ out.length + size ≤ MAX_PROTOCOL_BODY_LENGTH ∧
      (s'.sent.map (·.output)).flatten ++ out.output = s.bytes := by
  have hnew : (OutputMessage.new memory).length + size ≤ MAX_PROTOCOL_BODY_LENGTH := by
    rwa [OutputMessage.new, Nat.zero_add]
  rw [getOutputBuffer] at hget
  cases hbuffer : s.outputBuffer with
  | none =>
    rw [hbuffer] at hget
    obtain ⟨rfl, rfl⟩ := Prod.mk.inj hget
    have hs : s.buffers = s.sent := by rw [buffers, hbuffer, Option.toList_none, List.append_nil]
    refine ⟨hs ▸ h, fits_new memory, hnew, ?_⟩
    rw [bytes, hs]
    exact List.append_nil _
  | some old =>
    rw [hbuffer] at hget
    have hs : s.buffers = s.sent ++ [old] := by rw [buffers, hbuffer, Option.toList_some]
    have hold : Fits old := h old (hs ▸ List.mem_append_right _ List.mem_cons_self)
    dsimp only at hget
    -- A buffer without room is sent, and a new one takes its place.
    split at hget
    · obtain ⟨rfl, rfl⟩ := Prod.mk.inj hget
      refine ⟨(sent_send hbuffer).symm ▸ h, fits_new memory, hnew, ?_⟩
      rw [bytes, sent_send hbuffer]
      exact List.append_nil _
    · obtain ⟨rfl, rfl⟩ := Prod.mk.inj hget
      refine ⟨fun out hout => h out (hs ▸ List.mem_append_left _ hout), hold, by omega, ?_⟩
      rw [bytes, hs, List.map_append, List.flatten_append, List.map_singleton,
        List.flatten_singleton]

/-- Whatever buffer it goes to, a message is written behind all that was written before. -/
theorem writeToOutputBuffer_spec {s : Output} {msg : NetworkMessage} {memory : Memory UInt8}
    (h : ∀ out ∈ s.buffers, Fits out) (hlen : msg.length ≤ MAX_PROTOCOL_BODY_LENGTH) :
    (∀ out ∈ (s.writeToOutputBuffer msg memory).buffers, Fits out) ∧
      (s.writeToOutputBuffer msg memory).bytes = s.bytes ++ msg.body := by
  rw [writeToOutputBuffer]
  rcases hget : s.getOutputBuffer msg.length memory with ⟨s', out⟩
  obtain ⟨hsent, hout, hroom, hbytes⟩ := getOutputBuffer_spec h hlen hget
  obtain ⟨hfits, happend⟩ := fits_append hout hroom
  dsimp only
  constructor
  · intro out' hmem
    rcases List.mem_append.1 hmem with hmem | hmem
    · exact hsent out' hmem
    · rwa [List.mem_singleton.1 hmem]
  · rw [bytes, buffers, Option.toList_some, List.map_append, List.flatten_append,
      List.map_singleton, List.flatten_singleton, happend, ← List.append_assoc, hbytes]

/-- The task sends what there is. -/
theorem sendAll_spec (s : Output) :
    s.sendAll.outputBuffer = none ∧ s.sendAll.buffers = s.buffers := by
  rw [sendAll]
  cases hbuffer : s.outputBuffer with
  | none => exact ⟨hbuffer, rfl⟩
  | some out => exact ⟨rfl, (List.append_nil _).trans (sent_send hbuffer)⟩

/-- What the calls of a run have written is what the buffers hold. -/
theorem fits_of_run {s : Output} {l : List Op}
    (hr : system.Run Short { outputBuffer := none, sent := [] } l s) :
    (∀ out ∈ s.buffers, Fits out) ∧ s.bytes = (l.map written).flatten := by
  refine System.Run.invariant
    (I := fun l s => (∀ out ∈ s.buffers, Fits out) ∧ s.bytes = (l.map written).flatten)
    ⟨fun out hout => absurd hout List.not_mem_nil, rfl⟩ ?_ hr
  rintro l s₁ op s₂ ⟨hfits, hbytes⟩ hshort hstep
  rw [List.map_append, List.flatten_append, ← hbytes, List.map_singleton,
    List.flatten_singleton]
  cases op with
  | writeToOutputBuffer msg memory =>
    obtain rfl : s₂ = s₁.writeToOutputBuffer msg memory := hstep
    exact writeToOutputBuffer_spec hfits hshort
  | sendAll =>
    obtain rfl : s₂ = s₁.sendAll := hstep
    have hbuffers := (sendAll_spec s₁).2
    rw [bytes, bytes, hbuffers, written, List.append_nil]
    exact ⟨hfits, rfl⟩

/-- In every run, the buffers that were sent have room for their headers and for the padding,
    whatever becomes of them, and their bodies, with what is in the current buffer, are the
    messages in the order in which they were written. -/
theorem written_of_run {s : Output} {l : List Op}
    (hr : system.Run Short { outputBuffer := none, sent := [] } l s) :
    (s.buffers.map (·.output)).flatten = (l.map written).flatten ∧
      (s.sendAll.sent.map (·.output)).flatten = (l.map written).flatten ∧
      ∀ out ∈ s.sent,
        out.outputBufferStart = INITIAL_BUFFER_POSITION ∧
        out.outputBufferStart + out.length + (XTEA_MULTIPLE - 1) < NETWORKMESSAGE_MAXSIZE ∧
        ∀ p : Protocol, ∃ p' out', p.onSendMessage out = some (p', out') ∧
          out'.outputBufferStart + out'.length ≤ NETWORKMESSAGE_MAXSIZE := by
  obtain ⟨hfits, hbytes⟩ := fits_of_run hr
  refine ⟨hbytes, ?_, fun out hout => ?_⟩
  · obtain ⟨hnone, hbuffers⟩ := sendAll_spec s
    rw [buffers, hnone, Option.toList_none, List.append_nil] at hbuffers
    rw [hbuffers]
    exact hbytes
  · obtain ⟨hholds, hlen⟩ := hfits out (List.mem_append_left _ hout)
    refine ⟨hholds.start, ?_, fun p => p.onSendMessage_fits hholds⟩
    rw [hholds.start]
    have hmax : MAX_PROTOCOL_BODY_LENGTH = 65476 := rfl
    have hinit : INITIAL_BUFFER_POSITION = 8 := rfl
    have hxtea : XTEA_MULTIPLE = 8 := rfl
    have hsize : NETWORKMESSAGE_MAXSIZE = 65500 := rfl
    omega

/-- A ping, the opcode of which is all it holds. -/
def ping : NetworkMessage where
  buffer := fun _ => 0x1E
  length := 1
  position := 9
  overrun := false
  touched := []

/-- A message that is as long as a body may be. -/
def long : NetworkMessage where
  buffer := fun _ => 0
  length := MAX_PROTOCOL_BODY_LENGTH
  position := INITIAL_BUFFER_POSITION + MAX_PROTOCOL_BODY_LENGTH
  overrun := false
  touched := []

/-- A ping is written, then a message for which its buffer has no room, and then the task sends
    what there is. -/
theorem written_long :
    let s := (((⟨none, []⟩ : Output).writeToOutputBuffer ping fun _ => 0).writeToOutputBuffer
      long fun _ => 0).sendAll
    s.sent.length = 2 ∧ (s.buffers.map (·.output)).flatten = ping.body ++ long.body := by
  have h₀ : system.Run Short ⟨none, []⟩ [] ⟨none, []⟩ := .nil
  have hping (s : Output) : s.Short (.writeToOutputBuffer ping fun _ => 0) :=
    (by decide : 1 ≤ MAX_PROTOCOL_BODY_LENGTH)
  have hlong (s : Output) : s.Short (.writeToOutputBuffer long fun _ => 0) := Nat.le_refl _
  have h₁ := h₀.snoc (hping _) rfl
  have h₂ := h₁.snoc (hlong _) rfl
  have hsend (s : Output) : s.Short .sendAll := trivial
  have h₃ := h₂.snoc (hsend _) rfl
  have hbodies : [ping.body, long.body, []].flatten = ping.body ++ long.body := by
    rw [List.flatten_cons, List.flatten_cons, List.flatten_singleton, List.append_nil]
  exact ⟨by decide, (written_of_run h₃).1.trans hbodies⟩

end Output

end Canary.Network
