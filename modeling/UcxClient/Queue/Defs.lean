import UcxClient.Lib.Bytes
import UcxClient.Lib.CInt
import UcxClient.Lib.Mutex

/-!
# The URC queue (`src/u_cx_at_urc_queue.c`)

The queue is a byte buffer. Entries are laid out one after the other from its start, each as the
struct `uUrcEntry_t`: the 16 bit fields `strLineLen` and `payloadSize`, the line with its null
terminator, the payload. A pointer to an entry is its offset in the buffer.

Every function takes the calling thread `t`. `uCxAtUrcQueueEnqueueBegin` returns with `queueMutex`
locked when it returns true; `uCxAtUrcQueueEnqueueEnd` and `uCxAtUrcQueueEnqueueAbort` unlock it.
`uCxAtUrcQueueDequeueBegin` is split where it releases a lock (`tryLockDequeue`, `peekEntry`,
`handEntry`), as is `uCxAtUrcQueueDequeueEnd` (`popEntry`, `releaseDequeue`), so that other threads
can run in between. A failed assertion is recorded and execution goes on, as in a build where
`U_CX_AT_PORT_ASSERT` is defined to nothing.
-/

open ByteMem

/-- `uCxAtUrcQueue_t`. `pBuffer` holds the bytes of the buffer itself. -/
structure UrcQueue where
  pBuffer : List UInt8
  bufferLen : Nat
  bufferPos : Nat
  queueMutex : Mutex
  dequeueMutex : Mutex
  pEnqueueEntry : Option Nat
  pDequeueEntry : Option Nat
  /-- an assertion has failed -/
  assertFailed : Bool
  deriving DecidableEq

namespace UrcQueue

/-- `sizeof(uUrcEntry_t)`: the two length fields. -/
def sizeofUrcEntry : Nat := 4

/-- `U_CX_AT_PORT_ASSERT`. -/
def assert (q : UrcQueue) (cond : Bool) : UrcQueue :=
  if cond then q else { q with assertFailed := true }

def getUnusedBuf (q : UrcQueue) : Nat := sizeSub q.bufferLen q.bufferPos

/-- `pEntry->strLineLen`. -/
def strLineLen (q : UrcQueue) (pEntry : Nat) : Nat := getU16 q.pBuffer pEntry

/-- `pEntry->payloadSize`. -/
def payloadSize (q : UrcQueue) (pEntry : Nat) : Nat := getU16 q.pBuffer (pEntry + 2)

/-- `U_URC_ENTRY_SIZE(pEntry)`. -/
def entrySize (q : UrcQueue) (pEntry : Nat) : Nat :=
  q.strLineLen pEntry + 1 + q.payloadSize pEntry

/-- `uCxAtUrcQueueInit`. -/
def init (reentrant : Bool) (pBuffer : List UInt8) : UrcQueue where
  pBuffer
  bufferLen := pBuffer.length
  bufferPos := 0
  queueMutex := .create reentrant
  dequeueMutex := .create reentrant
  pEnqueueEntry := none
  pDequeueEntry := none
  assertFailed := false

/-! ## Enqueueing -/

/-- The comparison `availableDataSpace >= (int32_t)urcLineLen + 1`. -/
def hasSpaceFor (q : UrcQueue) (urcLineLen : Nat) : Bool :=
  toInt32 urcLineLen + 1 ≤ toInt32 ((q.getUnusedBuf : Int) - sizeofUrcEntry)

/-- The bytes of a new entry: its length fields, the line and the null terminator. -/
def newEntry (pUrcLine : List UInt8) : List UInt8 :=
  u16Bytes pUrcLine.length ++ u16Bytes 0 ++ pUrcLine ++ [0]

def uCxAtUrcQueueEnqueueBegin (t : Nat) (q : UrcQueue) (pUrcLine : List UInt8) : Bool × UrcQueue :=
  let q := { q with queueMutex := q.queueMutex.lock t }.assert q.pEnqueueEntry.isNone
  if q.hasSpaceFor pUrcLine.length then
    (true, { q with
      pBuffer := store q.pBuffer q.bufferPos (newEntry pUrcLine)
      bufferPos := q.bufferPos + (sizeofUrcEntry + pUrcLine.length + 1)
      pEnqueueEntry := some q.bufferPos })
  else
    (false, { q with queueMutex := q.queueMutex.unlock t })

/-- The payload pointer and the space behind it, as a `uint16_t`. -/
def uCxAtUrcQueueEnqueueGetPayloadPtr (q : UrcQueue) : Nat × Nat :=
  let pEntry := q.pEnqueueEntry.getD 0
  (pEntry + sizeofUrcEntry + q.strLineLen pEntry + 1, q.getUnusedBuf % 65536)

def uCxAtUrcQueueEnqueueEnd (t : Nat) (q : UrcQueue) (payloadSize : Nat) : UrcQueue :=
  let q := (q.assert q.pEnqueueEntry.isSome).assert (payloadSize ≤ q.getUnusedBuf)
  { q with
    pBuffer := store q.pBuffer (q.pEnqueueEntry.getD 0 + 2) (u16Bytes payloadSize)
    bufferPos := q.bufferPos + payloadSize
    pEnqueueEntry := none
    queueMutex := q.queueMutex.unlock t }

def uCxAtUrcQueueEnqueueAbort (t : Nat) (q : UrcQueue) : UrcQueue :=
  let q := q.assert q.pEnqueueEntry.isSome
  { q with
    bufferPos := q.pEnqueueEntry.getD 0
    pEnqueueEntry := none
    queueMutex := q.queueMutex.unlock t }

/-! ## Dequeueing -/

/-- `uCxAtUrcQueueDequeueBegin` up to the try-lock: false when `dequeueMutex` is taken. -/
def tryLockDequeue (t : Nat) (q : UrcQueue) : Bool × UrcQueue :=
  if q.dequeueMutex.available t then
    (true, { q with dequeueMutex := q.dequeueMutex.lock t }.assert q.pDequeueEntry.isNone)
  else (false, q)

/-- The entry that `uCxAtUrcQueueDequeueBegin` finds while it holds `queueMutex`. -/
def peekEntry (q : UrcQueue) : Option Nat := if 0 < q.bufferPos then some 0 else none

/-- The end of `uCxAtUrcQueueDequeueBegin`, after it has unlocked `queueMutex`. -/
def handEntry (t : Nat) (q : UrcQueue) : Option Nat → UrcQueue
  | some pEntry => { q with pDequeueEntry := some pEntry }
  | none => { q with dequeueMutex := q.dequeueMutex.unlock t }

/-- `uCxAtUrcQueueDequeueEnd` while it holds `queueMutex`: the bytes behind the entry move to the
start of the buffer. -/
def popEntry (q : UrcQueue) (pEntry : Nat) : UrcQueue :=
  let q := (q.assert q.pDequeueEntry.isSome).assert (q.pDequeueEntry == some pEntry)
  let totEntrySize := sizeofUrcEntry + q.entrySize pEntry
  let remainingData := toInt32 q.bufferPos - toInt32 totEntrySize
  if 0 < remainingData then
    { q with
      pBuffer := moveDown q.pBuffer totEntrySize remainingData.toNat
      bufferPos := sizeSub q.bufferPos totEntrySize }
  else
    { q with bufferPos := 0 }

/-- The end of `uCxAtUrcQueueDequeueEnd`, after it has unlocked `queueMutex`. -/
def releaseDequeue (t : Nat) (q : UrcQueue) : UrcQueue :=
  { q with pDequeueEntry := none, dequeueMutex := q.dequeueMutex.unlock t }

/-! ## An assertion changes nothing but its record -/

section
variable (q : UrcQueue) (cond : Bool)

@[simp] theorem pBuffer_assert : (q.assert cond).pBuffer = q.pBuffer := by
  unfold assert; split <;> rfl
@[simp] theorem bufferLen_assert : (q.assert cond).bufferLen = q.bufferLen := by
  unfold assert; split <;> rfl
@[simp] theorem bufferPos_assert : (q.assert cond).bufferPos = q.bufferPos := by
  unfold assert; split <;> rfl
@[simp] theorem queueMutex_assert : (q.assert cond).queueMutex = q.queueMutex := by
  unfold assert; split <;> rfl
@[simp] theorem dequeueMutex_assert : (q.assert cond).dequeueMutex = q.dequeueMutex := by
  unfold assert; split <;> rfl
@[simp] theorem pEnqueueEntry_assert : (q.assert cond).pEnqueueEntry = q.pEnqueueEntry := by
  unfold assert; split <;> rfl
@[simp] theorem pDequeueEntry_assert : (q.assert cond).pDequeueEntry = q.pDequeueEntry := by
  unfold assert; split <;> rfl
@[simp] theorem getUnusedBuf_assert : (q.assert cond).getUnusedBuf = q.getUnusedBuf := by
  simp [getUnusedBuf]
@[simp] theorem hasSpaceFor_assert (n : Nat) : (q.assert cond).hasSpaceFor n = q.hasSpaceFor n := by
  simp [hasSpaceFor]
@[simp] theorem entrySize_assert (e : Nat) : (q.assert cond).entrySize e = q.entrySize e := by
  simp [entrySize, strLineLen, payloadSize]

@[simp] theorem assert_true : q.assert true = q := rfl

end

/-! ## The lock of an enqueue -/

section
variable (t : Nat) (q : UrcQueue)

theorem queueMutex_enqueueBegin (line : List UInt8) :
    (uCxAtUrcQueueEnqueueBegin t q line).2.queueMutex =
      if (uCxAtUrcQueueEnqueueBegin t q line).1 then q.queueMutex.lock t
      else (q.queueMutex.lock t).unlock t := by
  simp only [uCxAtUrcQueueEnqueueBegin]
  split <;> simp

theorem pEnqueueEntry_refused {t : Nat} {q : UrcQueue} {line : List UInt8}
    (h : (uCxAtUrcQueueEnqueueBegin t q line).1 = false) :
    (uCxAtUrcQueueEnqueueBegin t q line).2.pEnqueueEntry = q.pEnqueueEntry := by
  simp only [uCxAtUrcQueueEnqueueBegin] at h ⊢
  split at h
  · cases h
  · next hs =>
    rw [if_neg hs]
    simp only [pEnqueueEntry_assert]

@[simp] theorem queueMutex_enqueueEnd (n : Nat) :
    (uCxAtUrcQueueEnqueueEnd t q n).queueMutex = q.queueMutex.unlock t := by
  simp [uCxAtUrcQueueEnqueueEnd]

@[simp] theorem queueMutex_enqueueAbort :
    (uCxAtUrcQueueEnqueueAbort t q).queueMutex = q.queueMutex.unlock t := by
  simp [uCxAtUrcQueueEnqueueAbort]

/-- What an enqueue leaves alone. -/
def fixed (q : UrcQueue) : Mutex × Nat := (q.dequeueMutex, q.bufferLen)

@[simp] theorem fixed_enqueueBegin (line : List UInt8) :
    (uCxAtUrcQueueEnqueueBegin t q line).2.fixed = q.fixed := by
  simp only [uCxAtUrcQueueEnqueueBegin, fixed]
  split <;> simp

@[simp] theorem fixed_enqueueEnd (n : Nat) : (uCxAtUrcQueueEnqueueEnd t q n).fixed = q.fixed := by
  simp [uCxAtUrcQueueEnqueueEnd, fixed]

@[simp] theorem fixed_enqueueAbort : (uCxAtUrcQueueEnqueueAbort t q).fixed = q.fixed := by
  simp [uCxAtUrcQueueEnqueueAbort, fixed]

end

/-! ## What popping the head keeps -/

section
variable (q : UrcQueue) (e : Nat)

@[simp] theorem bufferLen_popEntry : (q.popEntry e).bufferLen = q.bufferLen := by
  simp only [popEntry]; split <;> simp
@[simp] theorem queueMutex_popEntry : (q.popEntry e).queueMutex = q.queueMutex := by
  simp only [popEntry]; split <;> simp
@[simp] theorem dequeueMutex_popEntry : (q.popEntry e).dequeueMutex = q.dequeueMutex := by
  simp only [popEntry]; split <;> simp
@[simp] theorem pEnqueueEntry_popEntry : (q.popEntry e).pEnqueueEntry = q.pEnqueueEntry := by
  simp only [popEntry]; split <;> simp

end

end UrcQueue
