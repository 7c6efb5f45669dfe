import UcxClient.Lib.Transition
import UcxClient.Xmodem.Reassembly

/-!
# A receiver and the line to it

The receiver of a transfer is outside the repository; this is what is assumed of it. It expects block 1
first. A valid frame with the expected number is stored and acknowledged, a valid repeat of the block
before it is acknowledged, a corrupted frame is answered with NAK and EOT with ACK. Besides it may
send NAK whenever its receive timer expires, and the start signal.

The line is FIFO in both directions and takes any time. What is written arrives intact or corrupted,
and of an incomplete write nothing or a corrupted frame. A response is on the line with the frame that
it answers, so that one can say which block an ACK was sent for.
-/

open ByteMem Transition

namespace Xmodem

/-- What a receiver can make out in what arrives. -/
inductive Frame where
  | block (num : UInt8) (data : List UInt8)
  | eot
  | corrupted
  deriving DecidableEq

/-- The packet has the form of a block: its start byte and length, the complement of its number and
its CRC. -/
def IsBlock (packet : List UInt8) : Prop :=
  (packet.headD 0 = soh ∧ packet.length = blockSize128 + 5 ∨
      packet.headD 0 = stx ∧ packet.length = blockSize1K + 5) ∧
    packet.getD 2 0 = ~~~(number packet) ∧
    packet.drop (packet.length - 2) =
      [(xmodemCrc16 (payload packet) >>> 8).toUInt8, (xmodemCrc16 (payload packet)).toUInt8]

instance (packet : List UInt8) : Decidable (IsBlock packet) := by
  unfold IsBlock
  infer_instance

def frame (packet : List UInt8) : Frame :=
  if packet = [eot] then .eot
  else if IsBlock packet then .block (number packet) (payload packet)
  else .corrupted

/-- The receiver. -/
structure Receiver where
  expected : UInt8
  stored : List (List UInt8)

def Receiver.init : Receiver := ⟨1, []⟩

/-- What the receiver does with a frame, and its answer. -/
def Receiver.receive (rx : Receiver) : Frame → Receiver × Option UInt8
  | .corrupted => (rx, some nak)
  | .eot => (rx, some ack)
  | .block num data =>
    if num = rx.expected then (⟨rx.expected + 1, rx.stored ++ [data]⟩, some ack)
    else if num + 1 = rx.expected ∧ rx.stored ≠ [] then (rx, some ack)
    else (rx, none)

/-- A byte on its way to the sender, and the packet that it answers. -/
structure Response where
  byte : UInt8
  answers : Option (List UInt8)
  deriving DecidableEq

/-- The receiver and the line. A packet on its way is `none` if it is corrupted; `written` is the packet
that was written last. -/
structure Link where
  rx : Receiver
  toReceiver : List (Option (List UInt8))
  toSender : List Response
  written : List UInt8

def Link.init : Link := ⟨.init, [], [], []⟩

/-- What becomes of a packet that is written. -/
inductive Arrival where
  | intact
  | corrupted
  | nothing
  deriving DecidableEq

inductive Action where
  /-- the sender does this; what it writes arrives like that -/
  | sender (e : Event) (arrival : Arrival)
  /-- the receiver takes what arrives next -/
  | deliver
  /-- its receive timer expires -/
  | expire
  /-- it asks for the transfer to start -/
  | ready
  deriving DecidableEq

/-- The event on the sender's side. -/
def Action.event : Action → Option Event
  | .sender e _ => some e
  | _ => none

namespace Link

/-- The packets that the line takes from a write of `pData` with the result `n`. -/
def take (pData : List UInt8) (n : Int) : Arrival → Option (List (Option (List UInt8)))
  | .intact => if n = pData.length then some [some pData] else none
  | .corrupted => some [none]
  | .nothing => if n = pData.length then none else some []

def step (l : Link) : Action → Option Link
  | .sender (.wrote pData n) arrival =>
    (take pData n arrival).map fun ps =>
      { l with toReceiver := l.toReceiver ++ ps, written := pData }
  | .sender (.read none) _ => some l
  | .sender (.read (some b)) _ =>
    match l.toSender with
    | [] => none
    | r :: toSender => if r.byte = b then some { l with toSender } else none
  | .sender (.progress ..) _ => some l
  | .deliver =>
    match l.toReceiver with
    | [] => none
    | packet :: toReceiver =>
      let (rx, answer) := l.rx.receive ((packet.map frame).getD .corrupted)
      some { l with
        rx, toReceiver
        toSender := l.toSender ++ answer.toList.map fun b => ⟨b, packet⟩ }
  | .expire => some { l with toSender := l.toSender ++ [⟨nak, none⟩] }
  | .ready => some { l with toSender := l.toSender ++ [⟨cchr, none⟩] }

/-- An ACK that the sender reads while it waits for the answer to a block was sent for that block. -/
def inTime (l : Link) : Action → Bool
  | .sender (.read (some b)) _ =>
    b != ack || l.written == [eot] || (l.toSender.head?.bind Response.answers) == some l.written
  | _ => true

end Link

/-! ## The packets of the sender -/

theorem blockSize_eq (cfg : Config) :
    cfg.blockSize = blockSize128 ∨ cfg.blockSize = blockSize1K := by
  unfold Config.blockSize
  split
  · exact .inr rfl
  · exact .inl rfl

/-- The packets of the sender are valid frames. -/
theorem frame_blockPacket (cfg : Config) (blockNum : UInt8) (pData : List UInt8) :
    frame (blockPacket blockNum pData cfg.blockSize) =
      .block blockNum (padBlock cfg.blockSize pData) := by
  have hpay := payload_blockPacket blockNum pData cfg.blockSize
  have hblock : IsBlock (blockPacket blockNum pData cfg.blockSize) := by
    refine ⟨?_, rfl, ?_⟩
    · rw [length_blockPacket]
      rcases blockSize_eq cfg with h | h <;> rw [h]
      · exact .inl ⟨rfl, rfl⟩
      · exact .inr ⟨rfl, rfl⟩
    · rw [hpay, length_blockPacket]
      simp [blockPacket, length_padBlock]
  rw [frame, if_neg (blockPacket_ne_eot blockNum pData cfg.blockSize), if_pos hblock, hpay]
  rfl

end Xmodem
