import UcxClient.Lib.Ascii
import UcxClient.Queue.Defs

/-!
# The state of the AT client (`src/u_cx_at_client.h`)

`AtClient` holds the fields of `uCxAtClient_t` that the receiver and the commands use. The line
buffer is represented by the bytes received so far, so that `rxBufferPos` is its length; a pointer
to a string is the string. The buffers that callers pass for binary responses are outside the
client, in `CallerMem`, under the numbers that stand for their addresses.
-/

/-- `NO_STATUS`, that is `INT_MAX`. -/
def noStatus : Int := 2147483647

/-- `U_CX_ERROR_CMD_TIMEOUT` -/
def errorCmdTimeout : Int := -0x10000

/-- `U_CX_ERROR_IO` -/
def errorIo : Int := -0x10001

/-- `U_CX_ERROR_STATUS_ERROR` -/
def errorStatusError : Int := -1

/-- `U_CX_EXTENDED_ERROR_OFFSET` -/
def extendedErrorOffset : Int := 0

/-- `U_CX_DEFAULT_CMD_TIMEOUT_MS` -/
def defaultCmdTimeoutMs : Int := 10000

/-- `U_CX_SOH_CHAR` -/
def sohChar : UInt8 := 1

/-- `enum uCxAtParserCode` -/
inductive ParserCode where
  | nop
  | gotStatus
  | gotRsp
  | gotUrc
  | startBinary
  | error
  deriving DecidableEq

/-- `uCxAtBinaryState_t` -/
inductive BinaryState where
  | flush
  | rsp
  | urc
  deriving DecidableEq

/-- Where the bytes of a binary transfer go. -/
inductive BinaryDest where
  | null
  /-- buffer `b` of a caller -/
  | caller (b : Nat)
  /-- offset `off` of the URC buffer -/
  | urcBuffer (off : Nat)
  deriving DecidableEq

/-- `uCxAtBinaryRx_t` -/
structure BinaryRx where
  state : BinaryState
  rxHeaderCount : Nat
  remainingDataBytes : Nat
  pBuffer : BinaryDest
  bufferSize : Nat
  bufferPos : Nat
  deriving DecidableEq

/-- `uCxAtBinaryResponseBuf_t` -/
structure BinaryResponseBuf where
  pBuffer : Option Nat
  pBufferLength : Option Nat
  deriving DecidableEq

/-- `uCxAtClient_t` with its configuration. -/
structure AtClient where
  rxBufferLen : Nat
  /-- the first `rxBufferPos` bytes of `pRxBuffer` -/
  rxBuffer : List UInt8
  executingCmd : Bool
  opened : Bool
  cmdStartTime : Int
  cmdTimeout : Int
  cmdTimeoutLastPerm : Int
  pExpectedRsp : Option (List UInt8)
  pRspParams : Option (List UInt8)
  status : Int
  lastIoError : Int
  /-- `urcCallback` is not NULL -/
  urcCallback : Bool
  urcQueue : UrcQueue
  isBinaryRx : Bool
  binaryRx : BinaryRx
  rspBinaryBuf : BinaryResponseBuf
  cmdMutex : Mutex
  deriving DecidableEq

/-- The memory of the callers: their buffers and their length variables (`uint16_t`). -/
structure CallerMem where
  bytes : Nat → Nat → UInt8
  length : Nat → Nat

/-- A client, the callers' memory and the function-local `static uint8_t lengthBuf[2]`. -/
structure AtState where
  client : AtClient
  mem : CallerMem
  lengthBuf : UInt8 × UInt8

/-- `uCxAtClientInit`, on a port whose mutexes are reentrant or not. -/
def uCxAtClientInit (reentrant : Bool) (rxBufferLen : Nat) (pUrcBuffer : List UInt8) :
    AtClient where
  rxBufferLen
  rxBuffer := []
  executingCmd := false
  opened := false
  cmdStartTime := 0
  cmdTimeout := defaultCmdTimeoutMs
  cmdTimeoutLastPerm := defaultCmdTimeoutMs
  pExpectedRsp := none
  pRspParams := none
  status := 0
  lastIoError := 0
  urcCallback := false
  urcQueue := .init reentrant pUrcBuffer
  isBinaryRx := false
  binaryRx := ⟨.flush, 0, 0, .null, 0, 0⟩
  rspBinaryBuf := ⟨none, none⟩
  cmdMutex := .create reentrant

/-! ## The UART -/

/-- The result of `uPortUartRead`. -/
inductive ReadStatus where
  /-- a negative return value -/
  | failed (err : Int)
  | got (bytes : List UInt8)
  deriving DecidableEq

/-- What a read finds: an error, or at most `n` bytes that have arrived. -/
inductive Arrival where
  | failed (err : Int)
  | avail (n : Nat)
  deriving DecidableEq

/-- The incoming bytes and what the coming reads find. -/
structure Uart where
  rx : List UInt8
  sched : List Arrival

/-- `uPortUartRead(handle, &buf, length, timeoutMs)` when it finds `a`. -/
def Arrival.read (rx : List UInt8) (length : Nat) : Arrival → ReadStatus × List UInt8
  | .failed err => (.failed err, rx)
  | .avail n => (.got (rx.take (min n length)), rx.drop (min n length))
