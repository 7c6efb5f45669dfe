import UcxClient.Lib.Bytes
import UcxClient.Lib.CInt

/-!
# The XMODEM sender (`src/u_cx_xmodem.c`)

What the sender finds outside is its `Port`: the results of the coming reads and writes of the UART
and the coming clock readings, and in `trace` what it has done so far. A loop that needs one more of
them than there is has no result. Readings of the clock that are only logged are left out, and so are
the loggings. A read that does not return one byte has the result `none`.

The data callback is a function of the state `υ` of what it reads from; it returns its count and what
is in the buffer afterwards. The pointers `pConfig` and `dataCallback` are not NULL.
-/

open ByteMem

universe u

namespace Xmodem

/-- `U_CX_XMODEM_SOH` -/
def soh : UInt8 := 0x01

/-- `U_CX_XMODEM_STX` -/
def stx : UInt8 := 0x02

/-- `U_CX_XMODEM_EOT` -/
def eot : UInt8 := 0x04

/-- `U_CX_XMODEM_ACK` -/
def ack : UInt8 := 0x06

/-- `U_CX_XMODEM_NAK` -/
def nak : UInt8 := 0x15

/-- `U_CX_XMODEM_CAN` -/
def can : UInt8 := 0x18

/-- `U_CX_XMODEM_CCHR` -/
def cchr : UInt8 := 0x43

/-- The byte that fills a block up. -/
def padding : UInt8 := 0x1A

/-- `U_CX_XMODEM_BLOCK_SIZE_128` -/
def blockSize128 : Nat := 128

/-- `U_CX_XMODEM_BLOCK_SIZE_1K` -/
def blockSize1K : Nat := 1024

/-- `U_CX_XMODEM_MAX_RETRIES` -/
def maxRetries : Nat := 3

/-- `U_CX_XMODEM_START_TIMEOUT_MS` -/
def startTimeoutMs : Int := 10000

/-- The fields of `uCxXmodemConfig_t` that the transfer reads. -/
structure Config where
  use1K : Bool
  timeoutMs : Int
  opened : Bool

def Config.blockSize (cfg : Config) : Nat := if cfg.use1K then blockSize1K else blockSize128

/-! ## What the sender does outside -/

inductive Event where
  /-- `uPortUartWrite` of the bytes and its result -/
  | wrote (pData : List UInt8) (bytesWritten : Int)
  /-- `uPortUartRead` of one byte -/
  | read (byte : Option UInt8)
  /-- the progress callback -/
  | progress (totalBytes bytesTransferred pUserData : Nat)
  deriving DecidableEq

structure Uart where
  reads : List (Option UInt8)
  writes : List Int
  trace : List Event
  deriving DecidableEq

structure Port where
  uart : Uart
  clock : List Int
  deriving DecidableEq

def Uart.write (io : Uart) (pData : List UInt8) : Option (Int × Uart) :=
  match io.writes with
  | [] => none
  | n :: writes => some (n, { io with writes, trace := io.trace ++ [.wrote pData n] })

def Uart.read (io : Uart) : Option (Option UInt8 × Uart) :=
  match io.reads with
  | [] => none
  | byte :: reads => some (byte, { io with reads, trace := io.trace ++ [.read byte] })

/-- `U_CX_PORT_GET_TIME_MS` -/
def Port.getTimeMs (io : Port) : Option (Int × Port) :=
  match io.clock with
  | [] => none
  | now :: clock => some (now, { io with clock })

/-! ## Packets -/

/-- One turn of the inner loop of `xmodemCrc16`. -/
def crcShift (crc : UInt16) : UInt16 :=
  if crc &&& 0x8000 ≠ 0 then (crc <<< 1) ^^^ 0x1021 else crc <<< 1

def crcByte (crc : UInt16) (b : UInt8) : UInt16 :=
  Nat.repeat crcShift 8 (crc ^^^ (b.toUInt16 <<< 8))

def xmodemCrc16 (pBuf : List UInt8) : UInt16 := pBuf.foldl crcByte 0

/-- The data in a block of padding. What does not fit is overwritten by the CRC or not sent. -/
def padBlock (blockSize : Nat) (pData : List UInt8) : List UInt8 :=
  store (List.replicate blockSize padding) 0 pData

/-- The packet that `xmodemSendBlock` builds. -/
def blockPacket (blockNum : UInt8) (pData : List UInt8) (blockSize : Nat) : List UInt8 :=
  let block := padBlock blockSize pData
  let crc := xmodemCrc16 block
  [if blockSize = blockSize1K then stx else soh, blockNum, ~~~blockNum] ++ block ++
    [(crc >>> 8).toUInt8, crc.toUInt8]

/-! ## The transfer -/

/-- The loop of `xmodemWaitForStart`. -/
def startLoop (timeoutMs startTime : Int) (uart : Uart) : List Int → Option (Int × Port)
  | [] => none
  | now :: clock =>
    if toInt32 (now - startTime) < timeoutMs then
      match uart.read with
      | none => none
      | some (byte, uart) =>
        if byte = some cchr then some (0, ⟨uart, clock⟩)
        else if byte = some nak then some (-2, ⟨uart, clock⟩)
        else if byte = some can then some (-3, ⟨uart, clock⟩)
        else startLoop timeoutMs startTime uart clock
    else some (-1, ⟨uart, clock⟩)

def xmodemWaitForStart (timeoutMs : Int) (io : Port) : Option (Int × Port) := do
  let (startTime, io) ← io.getTimeMs
  startLoop timeoutMs startTime io.uart io.clock

/-- The wait for the response to a block: the value to return, or `none` for another try. -/
def responseLoop (timeoutMs startTime : Int) (uart : Uart) :
    List Int → Option (Option Int × Port)
  | [] => none
  | now :: clock =>
    if toInt32 (now - startTime) < timeoutMs then
      match uart.read with
      | none => none
      | some (byte, uart) =>
        if byte = some ack then some (some 0, ⟨uart, clock⟩)
        else if byte = some nak then some (none, ⟨uart, clock⟩)
        else if byte = some can then some (some (-3), ⟨uart, clock⟩)
        else responseLoop timeoutMs startTime uart clock
    else some (none, ⟨uart, clock⟩)

/-- The tries of `xmodemSendBlock`, when that many are left. -/
def retryLoop (timeoutMs : Int) (packet : List UInt8) : Nat → Port → Option (Int × Port)
  | 0, io => some (-1, io)
  | retries + 1, io => do
    let (bytesWritten, uart) ← io.uart.write packet
    if bytesWritten ≠ packet.length then retryLoop timeoutMs packet retries ⟨uart, io.clock⟩
    else
      let (startTime, io) ← Port.getTimeMs ⟨uart, io.clock⟩
      let (ret, io) ← responseLoop timeoutMs startTime io.uart io.clock
      match ret with
      | some ret => some (ret, io)
      | none => retryLoop timeoutMs packet retries io

def xmodemSendBlock (timeoutMs : Int) (blockNum : UInt8) (pData : List UInt8) (blockSize : Nat)
    (io : Port) : Option (Int × Port) :=
  retryLoop timeoutMs (blockPacket blockNum pData blockSize) maxRetries io

/-- The loop of `xmodemSendEot`. -/
def eotLoop (timeoutMs startTime : Int) (uart : Uart) : List Int → Option (Int × Port)
  | [] => none
  | now :: clock =>
    if toInt32 (now - startTime) < timeoutMs then
      match uart.read with
      | none => none
      | some (byte, uart) =>
        if byte = some ack then some (0, ⟨uart, clock⟩)
        else eotLoop timeoutMs startTime uart clock
    else some (-1, ⟨uart, clock⟩)

def xmodemSendEot (timeoutMs : Int) (io : Port) : Option (Int × Port) := do
  let (bytesWritten, uart) ← io.uart.write [eot]
  if bytesWritten ≠ 1 then some (-1, ⟨uart, io.clock⟩)
  else
    let (startTime, io) ← Port.getTimeMs ⟨uart, io.clock⟩
    eotLoop timeoutMs startTime io.uart io.clock

/-- `while (U_CX_PORT_GET_TIME_MS() < delayEnd)`: the readings left behind the loop. -/
def delayLoop (delayEnd : Int) : List Int → Option (List Int)
  | [] => none
  | now :: clock => if now < delayEnd then delayLoop delayEnd clock else some clock

/-- The pause between two blocks. -/
def pause (io : Port) : Option Port := do
  let (now, io) ← io.getTimeMs
  let clock ← delayLoop (toInt32 (now + 10)) io.clock
  some { io with clock }

/-- What a call of the data callback returns and leaves. -/
structure Answer (υ : Type u) where
  bytesRead : Int
  blockBuffer : List UInt8
  user : υ

/-- `uCxXmodemDataCallback_t`: a function of the pointer `pUserData`, the state, the buffer, `offset`
and `maxLen`. -/
abbrev DataCallback (υ : Type u) := Nat → υ → List UInt8 → Nat → Nat → Answer υ

/-- The arguments of `uCxXmodemSend`. -/
structure Job (υ : Type u) where
  cfg : Config
  dataLen : Nat
  dataCallback : DataCallback υ
  /-- whether there is a progress callback -/
  progressCallback : Bool
  pUserData : Nat

/-- The variables of the loop of `uCxXmodemSend`. -/
structure Progress (υ : Type u) where
  blockNum : UInt8
  offset : Nat
  blockBuffer : List UInt8
  user : υ
  io : Port

variable {υ : Type u}

/-- `progressCallback(dataLen, offset, pUserData)`, if there is one. -/
def Job.report (job : Job υ) (offset : Nat) (io : Port) : Port :=
  if job.progressCallback then
    { io with uart.trace := io.uart.trace ++ [.progress job.dataLen offset job.pUserData] }
  else io

/-- The length that the data callback is asked for at `offset`. -/
def Job.requestLen (job : Job υ) (offset : Nat) : Nat :=
  let remainingBytes := job.dataLen - offset
  if remainingBytes < job.cfg.blockSize then remainingBytes else job.cfg.blockSize

/-- The call of the data callback for the block at `offset`. -/
def Job.request (job : Job υ) (user : υ) (blockBuffer : List UInt8) (offset : Nat) : Answer υ :=
  job.dataCallback job.pUserData user blockBuffer offset (job.requestLen offset)

/-- What follows a block: the pause, if another one comes. -/
def Job.pauseBefore (job : Job υ) (offset : Nat) (io : Port) : Option Port :=
  if job.cfg.blockSize = blockSize1K ∧ offset < job.dataLen then pause io else some io

/-- The loop of `uCxXmodemSend`, for that many turns at most. Each advances by a byte or more
(`sendLoop_enough`). -/
def sendLoop (job : Job υ) : Nat → Progress υ → Option (Int × Port)
  | 0, _ => none
  | n + 1, x =>
    if x.offset < job.dataLen then
      let a := job.request x.user x.blockBuffer x.offset
      if a.bytesRead < 0 then some (-4, x.io)
      else if a.bytesRead = 0 ∧ 0 < job.dataLen - x.offset then some (-4, x.io)
      else if a.blockBuffer.length < a.bytesRead then none
      else do
        let pData := a.blockBuffer.take a.bytesRead.toNat
        let (result, io) ←
          xmodemSendBlock job.cfg.timeoutMs x.blockNum pData job.cfg.blockSize x.io
        if result ≠ 0 then some (result, io)
        else
          let offset := x.offset + a.bytesRead.toNat
          let io ← job.pauseBefore offset (job.report offset io)
          sendLoop job n
            { blockNum := x.blockNum + 1, offset, blockBuffer := a.blockBuffer, user := a.user, io }
    else xmodemSendEot job.cfg.timeoutMs x.io

/-- More turns than there are bytes left change nothing. -/
theorem sendLoop_enough (job : Job υ) {n m : Nat} {x : Progress υ} (hn : job.dataLen - x.offset < n)
    (hm : job.dataLen - x.offset < m) : sendLoop job n x = sendLoop job m x := by
  induction n generalizing m x with
  | zero => exact absurd hn (by omega)
  | succ n ih =>
    obtain - | m := m
    · exact absurd hm (by omega)
    simp only [sendLoop]
    split
    · next hlt =>
      split
      · rfl
      · next hneg =>
        split
        · rfl
        · next hzero =>
          split
          · rfl
          · congr 1
            funext r
            split
            · rfl
            · congr 1
              funext io
              have hpos : 0 < (job.request x.user x.blockBuffer x.offset).bytesRead.toNat := by omega
              exact ih (by simp only; omega) (by simp only; omega)
    · rfl

/-- `uCxXmodemSend`; `blockBuffer` is what happens to be in the buffer at its start. -/
def uCxXmodemSend (job : Job υ) (user : υ) (blockBuffer : List UInt8) (io : Port) :
    Option (Int × Port) :=
  if !job.cfg.opened ∨ job.dataLen = 0 then some (-1, io)
  else do
    let (result, io) ← xmodemWaitForStart startTimeoutMs io
    if result ≠ 0 then some (result, io)
    else sendLoop job (job.dataLen + 1) { blockNum := 1, offset := 0, blockBuffer, user, io }

/-! ## The transfer of a file -/

/-- An open file: what `ftell` says at its end, and `fseek` and `fread` as functions of the state of the
stream. -/
structure File (υ : Type u) where
  fileSize : Int
  fseek : υ → Nat → Bool × υ
  fread : υ → Nat → List UInt8 × υ

/-- The context that `pUserData` points to has this file. -/
def fileDataCallback (pFile : File υ) : DataCallback υ := fun _ user blockBuffer offset maxLen =>
  let (found, user) := pFile.fseek user offset
  if !found then ⟨-1, blockBuffer, user⟩
  else
    let (bytes, user) := pFile.fread user maxLen
    ⟨toInt32 bytes.length, store blockBuffer 0 bytes, user⟩

/-- The arguments of `uCxXmodemSendFile`. -/
structure FileJob (υ : Type u) where
  cfg : Config
  /-- what `fopen` makes of `pFilePath` -/
  pFile : Option (File υ)
  progressCallback : Bool
  pUserData : Nat
  /-- the address of `fileCtx` -/
  pFileCtx : Nat

/-- The arguments with which `uCxXmodemSendFile` calls `uCxXmodemSend`, if it comes to that. -/
def FileJob.job (x : FileJob υ) : Option (Job υ) :=
  match x.pFile with
  | none => none
  | some pFile =>
    if pFile.fileSize ≤ 0 then none
    else some
      { cfg := x.cfg
        dataLen := pFile.fileSize.toNat
        dataCallback := fileDataCallback pFile
        progressCallback := x.progressCallback
        pUserData := x.pFileCtx }

def uCxXmodemSendFile (x : FileJob υ) (user : υ) (blockBuffer : List UInt8) (io : Port) :
    Option (Int × Port) :=
  match x.job with
  | none => some (-1, io)
  | some job => uCxXmodemSend job user blockBuffer io

end Xmodem
