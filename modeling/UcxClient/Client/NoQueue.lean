import UcxClient.Client.UrcStream

/-!
# The receiver without the URC queue

The functions of `src/u_cx_at_client.c` as they are compiled where `U_CX_USE_URC_QUEUE` is 0. A URC is
not queued: `parseLine` calls the URC callback itself, and `calls` is what the callback has been given so
far. The queue of the client does not exist in this build, and nothing here reads or changes it.

`setupBinaryTransfer` and `handleBinaryRx` have a branch for the payload of a URC, which goes behind the
line in `pRxBuffer`; `rxMem` holds the bytes there, and `.urcBuffer off` is the offset `off` in it. As
`parseLine` never returns `AT_PARSER_GOT_URC`, the payload of a URC is never received (`rxStep_noUrc`).
-/

open ByteMem AtClient

/-- A client without a URC queue, and the calls of its URC callback. -/
structure NoQueueState extends AtState where
  rxMem : List UInt8
  calls : List Urc

namespace NoQueueState

/-- A call of the URC callback, if there is one. -/
def callback (s : NoQueueState) (u : Urc) : NoQueueState :=
  if s.client.urcCallback then { s with calls := s.calls ++ [u] } else s

/-! ## Lines -/

/-- The part of `parseLine` for a line that concerns no command. -/
def parseUrcLine (s : NoQueueState) (pLine : List UInt8) : NoQueueState × ParserCode :=
  if isUrcLine pLine then (s.callback ⟨s.client.rxBuffer, []⟩, .nop) else (s, .nop)

def parseLine (s : NoQueueState) (pLine : List UInt8) : NoQueueState × ParserCode :=
  if pLine.all fun b => b = ch '\n' ∨ b = ch '\r' then (s, .nop)
  else
    let (client, ret) := if s.client.executingCmd then s.client.parseCmdLine pLine else (s.client, .nop)
    let s := { s with client }
    if ret = .nop then s.parseUrcLine pLine else (s, ret)

def parseIncomingChar (s : NoQueueState) (b : UInt8) : NoQueueState × ParserCode :=
  if b = sohChar then (s, .startBinary)
  else if b = ch '\r' ∨ b = ch '\n' then
    let (s, ret) := s.parseLine s.client.rxBuffer
    ({ s with client := { s.client with rxBuffer := [] } }, ret)
  else if isprint b then
    let rxBuffer := s.client.rxBuffer ++ [b]
    -- Overflow: everything is discarded
    let rxBuffer := if rxBuffer.length = s.client.rxBufferLen then [] else rxBuffer
    ({ s with client := { s.client with rxBuffer } }, .nop)
  else (s, .nop)

/-! ## Binary transfers -/

def setupBinaryTransfer (s : NoQueueState) (parserRet : ParserCode) (binLength : Nat) : NoQueueState :=
  let c := s.client
  match parserRet with
  | .gotRsp =>
    let length := (c.rspBinaryBuf.pBufferLength.map s.mem.length).getD 0
    let pBuffer := (c.rspBinaryBuf.pBuffer.map BinaryDest.caller).getD .null
    { s with
      client := c.setupBinaryRxBuffer .rsp pBuffer length binLength
      mem := s.mem.setLength c.rspBinaryBuf.pBufferLength 0 }
  | .gotUrc =>
    let bufPos := c.rxBuffer.length
    let len := sizeSub c.rxBufferLen bufPos
    if binLength < len then
      -- the size of the buffer is a `uint16_t`
      { s with client := c.setupBinaryRxBuffer .urc (.urcBuffer bufPos) (len % 65536) binLength }
    else { s with client := c.setupBinaryRxBuffer .flush .null 0 binLength }
  | _ => { s with client := c.setupBinaryRxBuffer .flush .null 0 binLength }

/-- The bytes that a transfer has stored in `pRxBuffer`. -/
def payload (s : NoQueueState) : List UInt8 :=
  match s.client.binaryRx.pBuffer with
  | .urcBuffer off => load s.rxMem off s.client.binaryRx.bufferPos
  | _ => []

def binaryRxDone (s : NoQueueState) : NoQueueState × ParserCode :=
  let binRx := s.client.binaryRx
  let c := { s.client with
    binaryRx := { binRx with state := .flush, rxHeaderCount := 0 }, isBinaryRx := false }
  match binRx.state with
  | .rsp =>
    ({ s with client := c, mem := s.mem.setLength c.rspBinaryBuf.pBufferLength binRx.bufferPos }, .gotRsp)
  | .urc => ({ s with client := c }.callback ⟨c.rxBuffer, s.payload⟩, .nop)
  | .flush => ({ s with client := c }, .nop)

/-- The head of the payload loop: another read, or the end of the transfer. -/
def binaryRxNext (s : NoQueueState) : NoQueueState × Option ParserCode :=
  if 0 < s.client.binaryRx.remainingDataBytes then (s, none)
  else
    let (s, ret) := s.binaryRxDone
    (s, some ret)

/-- `handleBinaryRx` once both length bytes have been received. -/
def startTransfer (s : NoQueueState) : NoQueueState × Option ParserCode :=
  let length := s.lengthBuf.1.toNat * 256 + s.lengthBuf.2.toNat
  let (s, parseCode) := s.parseLine s.client.rxBuffer
  let s := s.setupBinaryTransfer parseCode length
  binaryRxNext { s with client := { s.client with rxBuffer := [] } }

def readHeader (s : NoQueueState) (bytes : List UInt8) : NoQueueState × Option ParserCode :=
  let s := { s with toAtState := s.storeHeader bytes }
  if s.client.binaryRx.rxHeaderCount < 2 then (s, some .nop) else s.startTransfer

/-- Store payload bytes where the transfer has got to. -/
def storePayload (s : NoQueueState) (bytes : List UInt8) : NoQueueState :=
  match s.client.binaryRx.pBuffer with
  | .null => s
  | .caller b => { s with mem := s.mem.store b s.client.binaryRx.bufferPos bytes }
  | .urcBuffer off => { s with rxMem := store s.rxMem (off + s.client.binaryRx.bufferPos) bytes }

/-- The state after payload bytes. -/
def takePayload (s : NoQueueState) (bytes : List UInt8) : NoQueueState :=
  let stored : Bool := 0 < s.remainingBuf
  let s := if stored then s.storePayload bytes else s
  { s with client := { s.client with
    binaryRx := s.client.binaryRx.advance stored bytes.length } }

def readPayload (s : NoQueueState) (bytes : List UInt8) : NoQueueState × Option ParserCode :=
  let s := s.takePayload bytes
  if bytes = [] then (s, some .nop) else s.binaryRxNext

/-! ## Reads and calls -/

/-- Character mode: a read that does not deliver a character ends `handleRxData`. -/
def readChar (s : NoQueueState) (bytes : List UInt8) : NoQueueState × Option ParserCode :=
  match bytes with
  | [b] =>
    match s.parseIncomingChar b with
    | (s, .nop) => (s, none)
    | (s, .startBinary) => ({ s with client := { s.client with isBinaryRx := true } }, none)
    | (s, ret) => (s, some ret)
  | _ => (s, some .nop)

/-- What `handleRxData` does with the result of one read: the code it returns, if it does. -/
def rxStep (s : NoQueueState) : ReadStatus → NoQueueState × Option ParserCode
  | .failed err => ({ s with toAtState := s.readError err }, some .error)
  | .got bytes =>
    if !s.client.isBinaryRx then s.readChar bytes
    else if s.client.binaryRx.rxHeaderCount < 2 then s.readHeader bytes
    else s.readPayload bytes

/-- `handleRxData`. Once the schedule is used up, nothing more arrives and a read returns 0. -/
def handleRxData (s : NoQueueState) (rx : List UInt8) :
    List Arrival → NoQueueState × Uart × ParserCode
  | [] => (s, ⟨rx, []⟩, .nop)
  | a :: sched =>
    let (r, rx) := a.read rx s.wants
    match s.rxStep r with
    | (s, none) => handleRxData s rx sched
    | (s, some ret) => (s, ⟨rx, sched⟩, ret)

def uCxAtClientHandleRx (t : Nat) (s : NoQueueState) (uart : Uart) : NoQueueState × Uart :=
  if !s.client.opened then (s, uart)
  else
    let s := { s with client := { s.client with cmdMutex := s.client.cmdMutex.lock t } }
    let (s, uart) := if s.client.executingCmd then (s, uart) else
      let (s, uart, _) := s.handleRxData uart.rx uart.sched
      (s, uart)
    ({ s with client := { s.client with cmdMutex := s.client.cmdMutex.unlock t } }, uart)

/-- Calls of `uCxAtClientHandleRx`. -/
def receive (t : Nat) : Nat → NoQueueState → Uart → NoQueueState × Uart
  | 0, s, uart => (s, uart)
  | k + 1, s, uart =>
    let (s, uart) := s.uCxAtClientHandleRx t uart
    receive t k s uart

/-! ## The payload of a URC is never received -/

/-- What the parser does with a line of a kind. -/
def onLine (s : NoQueueState) : LineKind → NoQueueState × ParserCode
  | .status status => ({ s with client := { s.client with status } }, .gotStatus)
  | .rsp p => ({ s with client := { s.client with pRspParams := some p } }, .gotRsp)
  | .urc => (s.callback ⟨s.client.rxBuffer, []⟩, .nop)
  | .other => (s, .nop)

section
variable (s : NoQueueState)

theorem toAtState_callback (u : Urc) : (s.callback u).toAtState = s.toAtState := by
  unfold callback
  split <;> rfl

theorem parseUrcLine_eq (pLine : List UInt8) : s.parseUrcLine pLine = s.onLine (urcKind pLine) := by
  unfold parseUrcLine urcKind
  split <;> rfl

/-- The specification of `parseLine`. -/
theorem parseLine_eq (pLine : List UInt8) :
    s.parseLine pLine = s.onLine (lineKind s.client.executingCmd s.client.pExpectedRsp pLine) := by
  have hexp : s.client.expects pLine = expectedBy s.client.pExpectedRsp pLine := rfl
  unfold parseLine lineKind
  split
  · rfl
  by_cases hx : s.client.executingCmd = true
  · simp only [if_pos hx]
    unfold parseCmdLine cmdKind
    rw [hexp]
    split
    · rfl
    split
    · rfl
    split
    · cases errorStatus pLine with
      | some v => rfl
      | none => exact parseUrcLine_eq s pLine
    split
    · rfl
    · exact parseUrcLine_eq s pLine
  · simp only [if_neg hx]
    exact parseUrcLine_eq s pLine

/-- No line is taken for a URC whose payload is still to come. -/
theorem parseLine_ne_gotUrc (pLine : List UInt8) : (s.parseLine pLine).2 ≠ .gotUrc := by
  rw [parseLine_eq]
  cases lineKind s.client.executingCmd s.client.pExpectedRsp pLine <;> nofun

theorem binaryRx_parseLine (pLine : List UInt8) :
    (s.parseLine pLine).1.client.binaryRx = s.client.binaryRx := by
  rw [parseLine_eq]
  cases lineKind s.client.executingCmd s.client.pExpectedRsp pLine with
  | urc => rw [onLine, toAtState_callback]
  | _ => rfl

theorem setupBinaryTransfer_noUrc {ret : ParserCode} (hret : ret ≠ .gotUrc) (n : Nat) :
    (s.setupBinaryTransfer ret n).client.binaryRx.state ≠ .urc := by
  cases ret with
  | gotUrc => exact absurd rfl hret
  | _ => simp [setupBinaryTransfer, setupBinaryRxBuffer]

theorem client_binaryRxDone : s.binaryRxDone.1.client = { s.client with
    binaryRx := { s.client.binaryRx with state := .flush, rxHeaderCount := 0 }, isBinaryRx := false } := by
  simp only [binaryRxDone]
  split
  · rfl
  · rw [toAtState_callback]
  · rfl

theorem binaryRxNext_noUrc (h : s.client.binaryRx.state ≠ .urc) :
    s.binaryRxNext.1.client.binaryRx.state ≠ .urc := by
  unfold binaryRxNext
  split
  · exact h
  · simp only [client_binaryRxDone]
    nofun

theorem startTransfer_noUrc : s.startTransfer.1.client.binaryRx.state ≠ .urc :=
  binaryRxNext_noUrc _ (setupBinaryTransfer_noUrc _ (s.parseLine_ne_gotUrc s.client.rxBuffer) _)

theorem parseIncomingChar_binaryRx (b : UInt8) :
    (s.parseIncomingChar b).1.client.binaryRx = s.client.binaryRx := by
  unfold parseIncomingChar
  split
  · rfl
  split
  · exact s.binaryRx_parseLine s.client.rxBuffer
  split <;> rfl

theorem readChar_binaryRx (bytes : List UInt8) : (s.readChar bytes).1.client.binaryRx = s.client.binaryRx := by
  unfold readChar
  split
  · next b =>
    have hb := s.parseIncomingChar_binaryRx b
    rcases hp : s.parseIncomingChar b with ⟨s1, ret⟩
    rw [hp] at hb
    cases ret <;> exact hb
  · rfl

theorem takePayload_client (bytes : List UInt8) : (∃ bufferPos, (s.takePayload bytes).client = { s.client with
      binaryRx := { s.client.binaryRx with
        bufferPos, remainingDataBytes := s.client.binaryRx.remainingDataBytes - bytes.length } }) ∧
    (s.takePayload bytes).calls = s.calls := by
  unfold takePayload storePayload BinaryRx.advance
  cases s.client.binaryRx.pBuffer <;> simp only <;> split <;> exact ⟨⟨_, rfl⟩, rfl⟩

/-- **No read starts to receive the payload of a URC.** -/
theorem rxStep_noUrc (h : s.client.binaryRx.state ≠ .urc) (r : ReadStatus) :
    (s.rxStep r).1.client.binaryRx.state ≠ .urc := by
  cases r with
  | failed err => exact h
  | got bytes =>
    simp only [rxStep]
    split
    · rw [readChar_binaryRx]
      exact h
    split
    · simp only [readHeader]
      split
      · exact h
      · exact startTransfer_noUrc _
    · have htake : (s.takePayload bytes).client.binaryRx.state ≠ .urc := by
        obtain ⟨⟨bufferPos, hclient⟩, -⟩ := s.takePayload_client bytes
        rw [hclient]
        exact h
      simp only [readPayload]
      split
      · exact htake
      · exact binaryRxNext_noUrc _ htake

/-! ## What a read keeps -/

theorem parseLine_setup (pLine : List UInt8) :
    (s.parseLine pLine).1.client.setup = s.client.setup := by
  rw [parseLine_eq]
  cases lineKind s.client.executingCmd s.client.pExpectedRsp pLine with
  | urc => rw [onLine, toAtState_callback]
  | _ => rfl

theorem readChar_setup (bytes : List UInt8) : (s.readChar bytes).1.client.setup = s.client.setup := by
  have hchar : ∀ b, (s.parseIncomingChar b).1.client.setup = s.client.setup := by
    intro b
    unfold parseIncomingChar
    split
    · rfl
    split
    · exact s.parseLine_setup s.client.rxBuffer
    split <;> rfl
  unfold readChar
  split
  · next b =>
    have hb := hchar b
    rcases hp : s.parseIncomingChar b with ⟨s1, ret⟩
    rw [hp] at hb
    cases ret <;> exact hb
  · rfl

theorem binaryRxNext_setup : s.binaryRxNext.1.client.setup = s.client.setup := by
  unfold binaryRxNext
  split
  · rfl
  · simp only [client_binaryRxDone]
    rfl

theorem startTransfer_setup : s.startTransfer.1.client.setup = s.client.setup := by
  have hsetup : ∀ (s : NoQueueState) ret n, (s.setupBinaryTransfer ret n).client.setup = s.client.setup := by
    intro s ret n
    cases ret with
    | gotUrc =>
      simp only [setupBinaryTransfer]
      split <;> rfl
    | _ => rfl
  exact (binaryRxNext_setup _).trans ((hsetup _ _ _).trans (s.parseLine_setup s.client.rxBuffer))

theorem rxStep_setup (r : ReadStatus) : (s.rxStep r).1.client.setup = s.client.setup := by
  cases r with
  | failed err => rfl
  | got bytes =>
    simp only [rxStep]
    split
    · exact s.readChar_setup bytes
    split
    · simp only [readHeader]
      split
      · rfl
      · exact startTransfer_setup _
    · obtain ⟨⟨bufferPos, hclient⟩, -⟩ := s.takePayload_client bytes
      have htake : (s.takePayload bytes).client.setup = s.client.setup := by
        rw [hclient]
        rfl
      simp only [readPayload]
      split
      · exact htake
      · exact (binaryRxNext_setup _).trans htake

end

end NoQueueState
