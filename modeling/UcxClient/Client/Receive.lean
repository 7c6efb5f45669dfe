import UcxClient.Client.Defs

/-!
# The receiver (`src/u_cx_at_client.c`)

Lines are parsed by `parseLine`, characters by `parseIncomingChar`. The source's `handleBinaryRx` is
in parts: `readHeader` is its read of the two length bytes and what it does when it has both
(`startTransfer`), `readPayload` one turn of its loop, and `binaryRxDone` what follows when no byte
of the payload remains.

`handleRxData` and `handleBinaryRx` are loops around `uPortUartRead`. `rxStep` is what they do with
the result of one read, up to the next read or the return; `wants` is the length the next read asks
for. The bytes of a `got` result never are more than that.
-/

open ByteMem UrcQueue

namespace AtClient

/-! ## Lines -/

/-- `pClient->pExpectedRsp` is neither NULL nor empty and the line starts with it. -/
def expects (c : AtClient) (pLine : List UInt8) : Bool :=
  match c.pExpectedRsp with
  | some p => !p.isEmpty && p.isPrefixOf pLine
  | none => false

/-- The line starts like a URC. -/
def isUrcLine (pLine : List UInt8) : Bool := pLine.headD 0 == ch '+' || pLine.headD 0 == ch '*'

/-- The status reported by a line that starts with `ERROR`, if it is well formed. -/
def errorStatus (pLine : List UInt8) : Option Int :=
  if pLine.getD 5 0 = 0 then some errorStatusError
  else if pLine.getD 5 0 = ch ':' then
    let pCodeStr := pLine.drop 6
    let (code, pEnd) := strtol 10 pCodeStr
    if isdigit (pCodeStr.headD 0) ∧ pEnd = [] then
      some (toInt32 (extendedErrorOffset - toInt32 code))
    else none
  else none

/-- The part of `parseLine` for a client that is executing a command. -/
def parseCmdLine (c : AtClient) (pLine : List UInt8) : AtClient × ParserCode :=
  if c.expects pLine then
    ({ c with pRspParams := some (pLine.drop (c.pExpectedRsp.getD []).length) }, .gotRsp)
  else if pLine = text "OK" then ({ c with status := 0 }, .gotStatus)
  else if (text "ERROR").isPrefixOf pLine then
    match errorStatus pLine with
    | some status => ({ c with status }, .gotStatus)
    | none => (c, .nop)
  else if !isUrcLine pLine ∧ ¬(text "AT+").isPrefixOf pLine then
    ({ c with pRspParams := some pLine }, .gotRsp)
  else (c, .nop)

/-- The part of `parseLine` for a line that concerns no command. -/
def parseUrcLine (t : Nat) (c : AtClient) (pLine : List UInt8) : AtClient × ParserCode :=
  if isUrcLine pLine then
    let (queued, urcQueue) := uCxAtUrcQueueEnqueueBegin t c.urcQueue pLine
    ({ c with urcQueue }, if queued then .gotUrc else .nop)
  else (c, .nop)

/-- `parseLine`, called by thread `t`. -/
def parseLine (t : Nat) (c : AtClient) (pLine : List UInt8) : AtClient × ParserCode :=
  if pLine.all fun b => b = ch '\n' ∨ b = ch '\r' then (c, .nop)
  else
    let (c, ret) := if c.executingCmd then c.parseCmdLine pLine else (c, .nop)
    if ret = .nop then c.parseUrcLine t pLine else (c, ret)

def parseIncomingChar (t : Nat) (c : AtClient) (b : UInt8) : AtClient × ParserCode :=
  if b = sohChar then (c, .startBinary)
  else if b = ch '\r' ∨ b = ch '\n' then
    let (c, ret) := c.parseLine t c.rxBuffer
    let c := { c with rxBuffer := [] }
    if ret = .gotUrc then
      ({ c with urcQueue := uCxAtUrcQueueEnqueueEnd t c.urcQueue 0 }, .nop)
    else (c, ret)
  else if isprint b then
    let rxBuffer := c.rxBuffer ++ [b]
    -- Overflow: everything is discarded
    ({ c with rxBuffer := if rxBuffer.length = c.rxBufferLen then [] else rxBuffer }, .nop)
  else (c, .nop)

def setupBinaryRxBuffer (c : AtClient) (state : BinaryState) (pBuffer : BinaryDest)
    (bufferSize remainingBytes : Nat) : AtClient :=
  { c with binaryRx := { c.binaryRx with
      bufferPos := 0, pBuffer, bufferSize, state, remainingDataBytes := remainingBytes } }

end AtClient

/-- Store bytes in buffer `b` of a caller. -/
def CallerMem.store (m : CallerMem) (b off : Nat) (bytes : List UInt8) : CallerMem :=
  { m with bytes := fun b' i =>
      if b' = b ∧ off ≤ i ∧ i < off + bytes.length then bytes.getD (i - off) 0 else m.bytes b' i }

/-- Assign to a length variable, if there is one. -/
def CallerMem.setLength (m : CallerMem) (v : Option Nat) (n : Nat) : CallerMem :=
  { m with length := fun v' => if v = some v' then n else m.length v' }

/-- The record of a transfer after `n` more bytes, which were stored if `stored`. -/
def BinaryRx.advance (r : BinaryRx) (stored : Bool) (n : Nat) : BinaryRx :=
  { r with
    bufferPos := if stored then r.bufferPos + n else r.bufferPos
    remainingDataBytes := r.remainingDataBytes - n }

namespace AtState

/-- `CHECK_READ_ERROR` when the read has failed. -/
def readError (s : AtState) (err : Int) : AtState :=
  { s with client := { s.client with lastIoError := err, status := errorIo } }

/-! ## Binary transfers -/

def setupBinaryTransfer (t : Nat) (s : AtState) (parserRet : ParserCode) (binLength : Nat) :
    AtState :=
  let c := s.client
  match parserRet with
  | .gotRsp =>
    let length := (c.rspBinaryBuf.pBufferLength.map s.mem.length).getD 0
    let pBuffer := (c.rspBinaryBuf.pBuffer.map BinaryDest.caller).getD .null
    { s with
      client := c.setupBinaryRxBuffer .rsp pBuffer length binLength
      mem := s.mem.setLength c.rspBinaryBuf.pBufferLength 0 }
  | .gotUrc =>
    let (pPtr, len) := uCxAtUrcQueueEnqueueGetPayloadPtr c.urcQueue
    if binLength < len then
      { s with client := c.setupBinaryRxBuffer .urc (.urcBuffer pPtr) len binLength }
    else
      let c := { c with urcQueue := uCxAtUrcQueueEnqueueAbort t c.urcQueue }
      { s with client := c.setupBinaryRxBuffer .flush .null 0 binLength }
  | _ => { s with client := c.setupBinaryRxBuffer .flush .null 0 binLength }

def binaryRxDone (t : Nat) (s : AtState) : AtState × ParserCode :=
  let binRx := s.client.binaryRx
  let c := { s.client with
    binaryRx := { binRx with state := .flush, rxHeaderCount := 0 }, isBinaryRx := false }
  match binRx.state with
  | .rsp =>
    ({ s with client := c, mem := s.mem.setLength c.rspBinaryBuf.pBufferLength binRx.bufferPos },
      .gotRsp)
  | .urc =>
    let urcQueue := uCxAtUrcQueueEnqueueEnd t c.urcQueue binRx.bufferPos
    ({ s with client := { c with urcQueue } }, .nop)
  | .flush => ({ s with client := c }, .nop)

/-- The head of the payload loop: another read, or the end of the transfer. -/
def binaryRxNext (t : Nat) (s : AtState) : AtState × Option ParserCode :=
  if 0 < s.client.binaryRx.remainingDataBytes then (s, none)
  else
    let (s, ret) := s.binaryRxDone t
    (s, some ret)

/-- Store bytes in `lengthBuf` from index `i` on. -/
def storeLengthBuf (lengthBuf : UInt8 × UInt8) : Nat → List UInt8 → UInt8 × UInt8
  | _, [] => lengthBuf
  | 0, b :: bs => storeLengthBuf (b, lengthBuf.2) 1 bs
  | _ + 1, b :: _ => (lengthBuf.1, b)

/-- `handleBinaryRx` once both length bytes have been received. -/
def startTransfer (t : Nat) (s : AtState) : AtState × Option ParserCode :=
  let length := s.lengthBuf.1.toNat * 256 + s.lengthBuf.2.toNat
  let (c, parseCode) := s.client.parseLine t s.client.rxBuffer
  let s := setupBinaryTransfer t { s with client := c } parseCode length
  binaryRxNext t { s with client := { s.client with rxBuffer := [] } }

/-- The state with `bytes` received behind the length bytes before. -/
def storeHeader (s : AtState) (bytes : List UInt8) : AtState :=
  let binRx := s.client.binaryRx
  { s with
    lengthBuf := storeLengthBuf s.lengthBuf binRx.rxHeaderCount bytes
    client := { s.client with
      binaryRx := { binRx with rxHeaderCount := binRx.rxHeaderCount + bytes.length } } }

def readHeader (t : Nat) (s : AtState) (bytes : List UInt8) : AtState × Option ParserCode :=
  let s := s.storeHeader bytes
  if s.client.binaryRx.rxHeaderCount < 2 then (s, some .nop) else s.startTransfer t

/-- The bytes of the buffer of a transfer that are not in use yet. -/
def remainingBuf (s : AtState) : Nat := s.client.binaryRx.bufferSize - s.client.binaryRx.bufferPos

/-- Store payload bytes where the transfer has got to. -/
def storePayload (s : AtState) (bytes : List UInt8) : AtState :=
  match s.client.binaryRx.pBuffer with
  | .null => s
  | .caller b => { s with mem := s.mem.store b s.client.binaryRx.bufferPos bytes }
  | .urcBuffer off =>
    let q := s.client.urcQueue
    let pBuffer := ByteMem.store q.pBuffer (off + s.client.binaryRx.bufferPos) bytes
    { s with client := { s.client with urcQueue := { q with pBuffer } } }

/-- The state after payload bytes. -/
def takePayload (s : AtState) (bytes : List UInt8) : AtState :=
  let stored : Bool := 0 < s.remainingBuf
  let s := if stored then s.storePayload bytes else s
  { s with client := { s.client with
    binaryRx := s.client.binaryRx.advance stored bytes.length } }

def readPayload (t : Nat) (s : AtState) (bytes : List UInt8) : AtState × Option ParserCode :=
  let s := s.takePayload bytes
  if bytes = [] then (s, some .nop) else s.binaryRxNext t

/-! ## One read -/

/-- The length the next `uPortUartRead` asks for. -/
def wants (s : AtState) : Nat :=
  let binRx := s.client.binaryRx
  if !s.client.isBinaryRx then 1
  else if binRx.rxHeaderCount < 2 then 2 - binRx.rxHeaderCount
  else if 0 < s.remainingBuf then min s.remainingBuf binRx.remainingDataBytes
  else min 64 binRx.remainingDataBytes

/-- Character mode: a read that does not deliver a character ends `handleRxData`. -/
def readChar (t : Nat) (s : AtState) (bytes : List UInt8) : AtState × Option ParserCode :=
  match bytes with
  | [b] =>
    match s.client.parseIncomingChar t b with
    | (c, .nop) => ({ s with client := c }, none)
    | (c, .startBinary) => ({ s with client := { c with isBinaryRx := true } }, none)
    | (c, ret) => ({ s with client := c }, some ret)
  | _ => (s, some .nop)

/-- What `handleRxData` does with the result of one read: the code it returns, if it does. -/
def rxStep (t : Nat) (s : AtState) : ReadStatus → AtState × Option ParserCode
  | .failed err => (s.readError err, some .error)
  | .got bytes =>
    if !s.client.isBinaryRx then s.readChar t bytes
    else if s.client.binaryRx.rxHeaderCount < 2 then s.readHeader t bytes
    else s.readPayload t bytes

/-- `handleRxData`. Once the schedule is used up, nothing more arrives and a read returns 0. -/
def handleRxData (t : Nat) (s : AtState) (rx : List UInt8) :
    List Arrival → AtState × Uart × ParserCode
  | [] => (s, ⟨rx, []⟩, .nop)
  | a :: sched =>
    let (r, rx) := a.read rx s.wants
    match s.rxStep t r with
    | (s, none) => handleRxData t s rx sched
    | (s, some ret) => (s, ⟨rx, sched⟩, ret)

end AtState
