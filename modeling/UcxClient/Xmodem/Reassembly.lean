import UcxClient.Lib.Blocks
import UcxClient.Xmodem.Trace

/-!
# Reassembly

`ackedBlocks` reads off the events on the UART which blocks were acknowledged: those written last,
and completely, before an ACK. A transfer of `data` that returns 0 `Reassembles` them if the payloads
of these blocks are the data and less than a block of padding, and the block numbers count from 1 modulo
256. With a data callback that keeps its contract (`Job.Obeys`) it does so if and only if the callback
fills its blocks, except where nobody can tell (`PadsOnlyEnd`, `reassembles_iff`): after a shorter count
`xmodemSendBlock` pads the block and `uCxXmodemSend` goes on behind the count.
-/

open ByteMem Blocks

universe u

namespace Xmodem

variable {υ : Type u}

/-! ## The acknowledged blocks -/

/-- The packets that were acknowledged, when `last` is written and not acknowledged yet. -/
def acknowledged : Option (List UInt8) → List Event → List (List UInt8)
  | _, [] => []
  | last, .wrote pData n :: es =>
    acknowledged (if n = pData.length then some pData else last) es
  | last, .read byte :: es =>
    if byte = some ack then last.toList ++ acknowledged none es else acknowledged last es
  | last, .progress .. :: es => acknowledged last es

/-- The acknowledged packets but for EOT. -/
def ackedBlocks (es : List Event) : List (List UInt8) := (acknowledged none es).filter (· ≠ [eot])

/-- The payload of a packet. -/
def payload (packet : List UInt8) : List UInt8 := (packet.drop 3).take (packet.length - 5)

/-- The block number of a packet. -/
def number (packet : List UInt8) : UInt8 := packet.getD 1 0

/-- The blocks in a row are the data, and their numbers count from 1. -/
def Reassembles (blockSize : Nat) (data : List UInt8) (blocks : List (List UInt8)) : Prop :=
  (∃ m, m < blockSize ∧ (blocks.map payload).flatten = data ++ List.replicate m padding) ∧
    blocks.map number = (List.range blocks.length).map fun i => UInt8.ofNat (i + 1)

instance (blockSize : Nat) (data : List UInt8) (blocks : List (List UInt8)) :
    Decidable (Reassembles blockSize data blocks) := by
  unfold Reassembles
  infer_instance

theorem acknowledged_reads (bytes : List (Option UInt8)) (es : List Event) :
    acknowledged none (bytes.map .read ++ es) = acknowledged none es := by
  induction bytes with
  | nil => rfl
  | cons byte bytes ih => simpa [acknowledged] using ih

theorem acknowledged_pending {packet : List UInt8} {pre : List Event}
    (hpre : ∀ e ∈ pre, e.Pending packet) (last : Option (List UInt8)) (es : List Event) :
    acknowledged last (pre ++ es) =
      acknowledged (if .wrote packet packet.length ∈ pre then some packet else last) es := by
  induction pre generalizing last with
  | nil => rfl
  | cons e pre ih =>
    have he := hpre e List.mem_cons_self
    have hrest := fun e he => hpre e (List.mem_cons_of_mem _ he)
    cases e with
    | wrote pData n =>
      obtain rfl : pData = packet := he
      rw [List.cons_append, acknowledged, ih hrest]
      by_cases hn : n = pData.length
      · simp [hn]
      · have hne : ¬(pData.length : Int) = n := fun h => hn h.symm
        simp [hn, hne]
    | read byte =>
      have hne : byte ≠ some ack := he
      rw [List.cons_append, acknowledged, if_neg hne, ih hrest]
      simp
    | progress total sent pUserData =>
      rw [List.cons_append, acknowledged, ih hrest]
      simp

theorem Acked.acknowledged {packet : List UInt8} {es : List Event} (h : Acked packet es)
    (last : Option (List UInt8)) (es' : List Event) :
    acknowledged last (es ++ es') = packet :: acknowledged none es' := by
  obtain ⟨pre, rfl, hpre, hw⟩ := h
  rw [List.append_assoc, acknowledged_pending hpre, if_pos hw]
  simp [Xmodem.acknowledged]

theorem AckedAll.acknowledged {ps : List (List UInt8)} {es : List Event} (h : AckedAll ps es) :
    acknowledged none es = ps := by
  induction h with
  | nil => rfl
  | cons ha _ ih => rw [ha.acknowledged, ih]

/-! ## The packets -/

theorem padBlock_eq {blockSize : Nat} {pData : List UInt8} (h : pData.length ≤ blockSize) :
    padBlock blockSize pData = pad blockSize padding pData := by
  have hrep : List.replicate blockSize padding =
      List.replicate pData.length padding ++ List.replicate (blockSize - pData.length) padding := by
    rw [List.replicate_append_replicate]
    congr 1
    omega
  rw [padBlock, hrep, store_append_left _ _ _ _ (by simp), store_all _ _ (by simp), pad]

theorem length_padBlock (blockSize : Nat) (pData : List UInt8) :
    (padBlock blockSize pData).length = blockSize := by
  simp [padBlock]

theorem length_blockPacket (blockNum : UInt8) (pData : List UInt8) (blockSize : Nat) :
    (blockPacket blockNum pData blockSize).length = blockSize + 5 := by
  simp [blockPacket, length_padBlock]

theorem payload_blockPacket (blockNum : UInt8) (pData : List UInt8) (blockSize : Nat) :
    payload (blockPacket blockNum pData blockSize) = padBlock blockSize pData := by
  simp [payload, blockPacket, length_padBlock]

@[simp] theorem number_blockPacket (blockNum : UInt8) (pData : List UInt8) (blockSize : Nat) :
    number (blockPacket blockNum pData blockSize) = blockNum := rfl

theorem blockPacket_ne_eot (blockNum : UInt8) (pData : List UInt8) (blockSize : Nat) :
    blockPacket blockNum pData blockSize ≠ [eot] := by
  simp [blockPacket]

theorem length_packets (blockSize : Nat) (blockNum : UInt8) (cs : List (List UInt8)) :
    (packets blockSize blockNum cs).length = cs.length := by
  induction cs generalizing blockNum with
  | nil => rfl
  | cons c cs ih => simp [packets, ih]

theorem number_packets (blockSize i : Nat) (cs : List (List UInt8)) :
    (packets blockSize (UInt8.ofNat (i + 1)) cs).map number =
      (List.range cs.length).map fun j => UInt8.ofNat (i + j + 1) := by
  induction cs generalizing i with
  | nil => rfl
  | cons c cs ih =>
    have hsucc : UInt8.ofNat (i + 1) + 1 = UInt8.ofNat (i + 1 + 1) := by
      simp [UInt8.ofNat_add]
    simp only [packets, List.map_cons, number_blockPacket, hsucc, ih, List.length_cons,
      List.range_succ_eq_map, List.map_map, Nat.add_zero]
    congr 1
    apply List.map_congr_left
    intro j _
    simp only [Function.comp]
    congr 1
    omega

theorem payload_packets {blockSize : Nat} {cs : List (List UInt8)}
    (hcs : ∀ c ∈ cs, c.length ≤ blockSize) (blockNum : UInt8) :
    (packets blockSize blockNum cs).map payload = cs.map (pad blockSize padding) := by
  induction cs generalizing blockNum with
  | nil => rfl
  | cons c cs ih =>
    simp only [packets, List.map_cons, payload_blockPacket, padBlock_eq (hcs c List.mem_cons_self)]
    rw [ih fun c hc => hcs c (List.mem_cons_of_mem _ hc)]

theorem packets_ne_eot (blockSize : Nat) (blockNum : UInt8) (cs : List (List UInt8)) :
    ∀ p ∈ packets blockSize blockNum cs, p ≠ [eot] := by
  induction cs generalizing blockNum with
  | nil => nofun
  | cons c cs ih =>
    intro p hp
    rcases List.mem_cons.1 hp with rfl | hp
    · exact blockPacket_ne_eot blockNum c blockSize
    · exact ih _ p hp

/-! ## The data callback -/

/-- The data callback writes the data from `offset` on and returns how many bytes it wrote, at least
one and at most as many as asked for. -/
def Job.Obeys (job : Job υ) (data : List UInt8) : Prop :=
  ∀ user blockBuffer offset maxLen, 0 < maxLen → offset + maxLen ≤ data.length →
    let a := job.dataCallback job.pUserData user blockBuffer offset maxLen
    ∃ n : Nat, 0 < n ∧ n ≤ maxLen ∧ a.bytesRead = n ∧ a.blockBuffer.take n = (data.drop offset).take n

theorem Config.blockSize_pos (cfg : Config) : 0 < cfg.blockSize := by
  unfold Config.blockSize
  split <;> decide

theorem Job.requestLen_eq (job : Job υ) (offset : Nat) :
    job.requestLen offset = min (job.dataLen - offset) job.cfg.blockSize := by
  simp only [Job.requestLen]
  split <;> omega

theorem Job.Obeys.request {job : Job υ} {data : List UInt8} (h : job.Obeys data)
    (hlen : job.dataLen = data.length) {offset : Nat} (hlt : offset < job.dataLen) (user : υ)
    (blockBuffer : List UInt8) :
    ∃ n : Nat, 0 < n ∧ n ≤ job.cfg.blockSize ∧ offset + n ≤ job.dataLen ∧
      (job.request user blockBuffer offset).bytesRead = n ∧
      (job.request user blockBuffer offset).blockBuffer.take n = (data.drop offset).take n := by
  have hreq := job.requestLen_eq offset
  have hbs := job.cfg.blockSize_pos
  obtain ⟨n, hn, hle, hret, htake⟩ :=
    h user blockBuffer offset (job.requestLen offset) (by omega) (by omega)
  exact ⟨n, hn, by omega, by omega, hret, htake⟩

/-- The blocks are pieces of the data. -/
theorem Job.Obeys.chunks {job : Job υ} {data : List UInt8} (h : job.Obeys data)
    (hlen : job.dataLen = data.length) (n : Nat) (user : υ) (blockBuffer : List UInt8) (offset : Nat)
    (hn : job.dataLen < n + offset) :
    (job.chunks n user blockBuffer offset).flatten = data.drop offset ∧
      ∀ c ∈ job.chunks n user blockBuffer offset, c.length ≤ job.cfg.blockSize := by
  induction n generalizing user blockBuffer offset with
  | zero =>
    rw [List.drop_eq_nil_of_le (by omega)]
    exact ⟨rfl, by rintro _ ⟨⟩⟩
  | succ n ih =>
    simp only [Job.chunks]
    split
    · next hlt =>
      obtain ⟨k, hk, hkb, hkl, hret, htake⟩ := h.request hlen hlt user blockBuffer
      rw [hret, Int.toNat_natCast, htake]
      obtain ⟨h1, h2⟩ := ih (job.request user blockBuffer offset).user
        (job.request user blockBuffer offset).blockBuffer (offset + k) (by omega)
      refine ⟨?_, ?_⟩
      · rw [List.flatten_cons, h1, ← List.drop_drop, List.take_append_drop]
      · intro c hc
        rcases List.mem_cons.1 hc with rfl | hc
        · rw [List.length_take]
          omega
        · exact h2 c hc
    · rw [List.drop_eq_nil_of_le (by omega)]
      exact ⟨rfl, by rintro _ ⟨⟩⟩

/-! ## The result -/

/-- The blocks are full up to a short one, behind which there is nothing but bytes like the padding,
and no more blocks than the data need. -/
def PadsOnlyEnd (blockSize : Nat) (cs : List (List UInt8)) : Prop :=
  (∀ b ∈ (cs.dropWhile (·.length = blockSize)).tail.flatten, b = padding) ∧
    blockSize * cs.length < cs.flatten.length + blockSize

theorem acked_of_send {job : Job υ} {user : υ} {blockBuffer : List UInt8} {io io' : Port}
    (h : uCxXmodemSend job user blockBuffer io = some (0, io')) (htr : io.uart.trace = []) :
    ackedBlocks io'.uart.trace = packets job.cfg.blockSize 1
      (job.chunks (job.dataLen + 1) user blockBuffer 0) := by
  obtain ⟨bytes, es, htrace, hes⟩ := uCxXmodemSend_trace h
  have hne := packets_ne_eot job.cfg.blockSize 1 (job.chunks (job.dataLen + 1) user blockBuffer 0)
  rw [htrace, htr, List.nil_append, ackedBlocks, acknowledged_reads, hes.acknowledged,
    List.filter_append, List.filter_eq_self.2 (by simpa using hne)]
  simp

/-- **Reassembly.** -/
theorem reassembles_iff {job : Job υ} {data : List UInt8} (hobeys : job.Obeys data)
    (hlen : job.dataLen = data.length) {user : υ} {blockBuffer : List UInt8} {io io' : Port}
    (htr : io.uart.trace = []) (h : uCxXmodemSend job user blockBuffer io = some (0, io')) :
    Reassembles job.cfg.blockSize data (ackedBlocks io'.uart.trace) ↔
      PadsOnlyEnd job.cfg.blockSize (job.chunks (job.dataLen + 1) user blockBuffer 0) := by
  obtain ⟨hflat, hle⟩ := hobeys.chunks hlen (job.dataLen + 1) user blockBuffer 0 (by omega)
  rw [acked_of_send h htr, Reassembles, payload_packets hle, PadsOnlyEnd, ← flatten_pad_iff hle, hflat,
    length_packets]
  refine and_iff_left ?_
  have := number_packets job.cfg.blockSize 0 (job.chunks (job.dataLen + 1) user blockBuffer 0)
  simpa using this

/-- A data callback that writes one byte at a time. -/
def byteAtATime (data : List UInt8) : DataCallback Unit := fun _ user _ offset _ =>
  ⟨1, (data.drop offset).take 1, user⟩

theorem byteAtATime_obeys (job : Job Unit) (data : List UInt8)
    (h : job.dataCallback = byteAtATime data) : job.Obeys data := by
  intro user blockBuffer offset maxLen hpos hle
  rw [h]
  exact ⟨1, by omega, by omega, rfl, List.take_take.trans rfl⟩

/-- Two bytes of data, which such a callback delivers in two blocks. -/
def shortJob : Job Unit where
  cfg := { use1K := false, timeoutMs := 15000, opened := true }
  dataLen := 2
  dataCallback := byteAtATime [0x41, 0x42]
  progressCallback := false
  pUserData := 0

/-- A receiver that takes both blocks and EOT. -/
def shortPort : Port :=
  ⟨⟨[some cchr, some ack, some ack, some ack], [133, 133, 1], []⟩, List.replicate 8 0⟩

def shortTrace : List Event :=
  [.read (some cchr), .wrote (blockPacket 1 [0x41] 128) 133, .read (some ack),
    .wrote (blockPacket 2 [0x42] 128) 133, .read (some ack), .wrote [eot] 1, .read (some ack)]

theorem shortJob_sent :
    uCxXmodemSend shortJob () [] shortPort = some (0, ⟨⟨[], [], shortTrace⟩, []⟩) := by
  have hlen := length_blockPacket
  have h0 : toInt32 0 = 0 := rfl
  simp [uCxXmodemSend, shortJob, shortPort, shortTrace, xmodemWaitForStart, Port.getTimeMs, startLoop,
    Uart.read, h0, startTimeoutMs, sendLoop, Job.request, byteAtATime, xmodemSendBlock,
    Config.blockSize, blockSize128, maxRetries, retryLoop, Uart.write, hlen, responseLoop, Job.report,
    Job.pauseBefore, blockSize1K, xmodemSendEot, eotLoop]

theorem reassembles_iff_short :
    Reassembles shortJob.cfg.blockSize [0x41, 0x42] (ackedBlocks shortTrace) ↔
      PadsOnlyEnd shortJob.cfg.blockSize (shortJob.chunks (shortJob.dataLen + 1) () [] 0) := by
  have h := reassembles_iff (byteAtATime_obeys shortJob [0x41, 0x42] rfl) rfl rfl shortJob_sent
  exact h

theorem short_counts_pad_inside :
    ¬∀ (job : Job Unit) (data : List UInt8) (io io' : Port), job.Obeys data →
      job.dataLen = data.length → io.uart.trace = [] →
      uCxXmodemSend job () [] io = some (0, io') →
      Reassembles job.cfg.blockSize data (ackedBlocks io'.uart.trace) := by
  intro h
  obtain ⟨⟨m, hm, hflat⟩, -⟩ := h shortJob [0x41, 0x42] shortPort _
    (byteAtATime_obeys _ _ rfl) rfl rfl shortJob_sent
  have hlen := congrArg List.length hflat
  have hm : m < 128 := hm
  simp [ackedBlocks, shortTrace, acknowledged, blockPacket_ne_eot, length_blockPacket,
    payload_blockPacket, length_padBlock] at hlen
  omega

end Xmodem
