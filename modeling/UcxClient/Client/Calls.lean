import UcxClient.Client.Command
import UcxClient.Queue.Layout

/-!
# Calls of the API by one thread

The calls as a single thread makes them, without another thread in between. What a call finds
outside the client is its `Host`: the UART and the coming clock readings. A call whose loop needs
one more clock reading than there is has no result.
-/

open ByteMem

/-- The UART and the clock. -/
structure Host where
  uart : Uart
  clock : List Int

/-- A URC callback that calls nothing of the client: the data bytes that it leaves in the entry. -/
abbrev Callback := List UInt8 → List UInt8

namespace UrcQueue

def uCxAtUrcQueueDequeueBegin (t : Nat) (q : UrcQueue) : Option Nat × UrcQueue :=
  let (locked, q) := tryLockDequeue t q
  if locked then
    let pEntry := q.peekEntry
    (pEntry, handEntry t { q with queueMutex := (q.queueMutex.lock t).unlock t } pEntry)
  else (none, q)

def uCxAtUrcQueueDequeueEnd (t : Nat) (q : UrcQueue) (pEntry : Nat) : UrcQueue :=
  let q := { q with queueMutex := q.queueMutex.lock t }.popEntry pEntry
  releaseDequeue t { q with queueMutex := q.queueMutex.unlock t }

/-- The data bytes of an entry: the line with its terminator, and the payload. -/
def entryData (q : UrcQueue) (pEntry : Nat) : List UInt8 :=
  load q.pBuffer (pEntry + sizeofUrcEntry) (q.entrySize pEntry)

/-- What the URC callback is given of an entry. -/
def viewEntry (q : UrcQueue) (pEntry : Nat) : Urc.View :=
  ⟨q.strLineLen pEntry, q.payloadSize pEntry, q.entryData pEntry⟩

/-- The entry after the URC callback has changed its data. -/
def editEntry (q : UrcQueue) (pEntry : Nat) (edit : Callback) : UrcQueue :=
  let data := q.entryData pEntry
  { q with
    pBuffer := store q.pBuffer (pEntry + sizeofUrcEntry) ((edit data).take data.length) }

/-! ## The end of a dequeue -/

section
variable (t : Nat) (q : UrcQueue) (queueMutex : Mutex)

theorem pBuffer_releaseDequeue :
    (releaseDequeue t { q with queueMutex }).pBuffer = q.pBuffer := rfl

theorem bufferLen_releaseDequeue :
    (releaseDequeue t { q with queueMutex }).bufferLen = q.bufferLen := rfl

theorem bufferPos_releaseDequeue :
    (releaseDequeue t { q with queueMutex }).bufferPos = q.bufferPos := rfl

theorem pEnqueueEntry_releaseDequeue :
    (releaseDequeue t { q with queueMutex }).pEnqueueEntry = q.pEnqueueEntry := rfl

theorem queueMutex_releaseDequeue :
    (releaseDequeue t { q with queueMutex }).queueMutex = queueMutex := rfl

theorem dequeueMutex_releaseDequeue :
    (releaseDequeue t { q with queueMutex }).dequeueMutex = q.dequeueMutex.unlock t := rfl

end

end UrcQueue

open UrcQueue

namespace AtClient

/-- The queue once the URC callback, if there is one, has been called for the entry. -/
def afterCallback (c : AtClient) (edit : Callback) (q : UrcQueue) (pEntry : Nat) : UrcQueue :=
  if c.urcCallback then q.editEntry pEntry edit else q

/-- `processUrcs`: the client and the entry at each call of the URC callback. An entry takes at
least one byte, so that the loop ends within `fuel = bufferPos + 1` rounds. -/
def processUrcs (t : Nat) (edit : Callback) :
    Nat → AtClient → Option (List (AtClient × Urc.View) × AtClient)
  | 0, _ => none
  | fuel + 1, c =>
    match uCxAtUrcQueueDequeueBegin t c.urcQueue with
    | (none, q) => some ([], { c with urcQueue := q })
    | (some pEntry, q) =>
      let q' := c.afterCallback edit q pEntry
      let c' := { c with urcQueue := uCxAtUrcQueueDequeueEnd t q' pEntry }
      (c'.processUrcs t edit fuel).map fun (calls, c') =>
        (if c.urcCallback then ({ c with urcQueue := q }, q.viewEntry pEntry) :: calls else calls, c')

/-! ## `processUrcs` comes to an end -/

theorem getU16_lt (m : List UInt8) (off : Nat) : getU16 m off < 65536 := by
  have h0 := (m.getD off 0).toNat_lt
  have h1 := (m.getD (off + 1) 0).toNat_lt
  unfold getU16
  omega

/-- An entry is never empty. -/
theorem bufferPos_popEntry_lt {q : UrcQueue} (e : Nat) (h : 0 < q.bufferPos) :
    (q.popEntry e).bufferPos < q.bufferPos := by
  have hl : q.strLineLen e < 65536 := getU16_lt _ _
  have hp : q.payloadSize e < 65536 := getU16_lt _ _
  simp only [popEntry, bufferPos_assert, entrySize_assert]
  split
  · next hrem =>
    simp only
    by_cases hle : sizeofUrcEntry + q.entrySize e ≤ q.bufferPos
    · rw [sizeSub_of_le hle]
      simp only [sizeofUrcEntry, entrySize] at hle ⊢
      omega
    · rw [toInt32_of_lt, toInt32_of_lt] at hrem <;>
        simp only [sizeofUrcEntry, entrySize] at hle hrem ⊢ <;> omega
  · exact h

theorem dequeueEnd_lt (t e : Nat) {q : UrcQueue} (h : 0 < q.bufferPos) :
    (uCxAtUrcQueueDequeueEnd t q e).bufferPos < q.bufferPos := by
  unfold uCxAtUrcQueueDequeueEnd
  rw [bufferPos_releaseDequeue]
  exact bufferPos_popEntry_lt (q := { q with queueMutex := q.queueMutex.lock t }) e h

/-- An entry is handed out only if there is one, and none of its bytes change. -/
theorem dequeueBegin_some {t e : Nat} {q q' : UrcQueue}
    (h : uCxAtUrcQueueDequeueBegin t q = (some e, q')) :
    0 < q.bufferPos ∧ e = 0 ∧ q'.bufferPos = q.bufferPos ∧ q'.pBuffer = q.pBuffer := by
  unfold uCxAtUrcQueueDequeueBegin tryLockDequeue at h
  by_cases hav : q.dequeueMutex.available t = true
  · simp only [hav, ↓reduceIte, peekEntry, bufferPos_assert] at h
    by_cases hpos : 0 < q.bufferPos
    · simp only [hpos, ↓reduceIte, handEntry, Prod.mk.injEq, Option.some.injEq] at h
      obtain ⟨rfl, rfl⟩ := h
      exact ⟨hpos, rfl, by simp, by simp⟩
    · simp [hpos] at h
  · simp [hav] at h

/-- Of the client `processUrcs` changes only the queue. -/
theorem processUrcs_total (t : Nat) (edit : Callback) {fuel : Nat} {c : AtClient}
    (hf : c.urcQueue.bufferPos < fuel) :
    ∃ calls urcQueue, c.processUrcs t edit fuel = some (calls, { c with urcQueue }) := by
  induction fuel generalizing c with
  | zero => omega
  | succ fuel ih =>
    unfold processUrcs
    rcases hq : uCxAtUrcQueueDequeueBegin t c.urcQueue with ⟨_ | pEntry, q⟩
    · exact ⟨_, _, rfl⟩
    · obtain ⟨hpos, -, hsame, -⟩ := dequeueBegin_some hq
      have hedit : (c.afterCallback edit q pEntry).bufferPos = c.urcQueue.bufferPos := by
        unfold afterCallback
        split <;> exact hsame
      have hf' := dequeueEnd_lt t pEntry (hedit.symm ▸ hpos)
      rw [hedit] at hf'
      obtain ⟨calls, q', h⟩ := ih (c := { c with
        urcQueue := uCxAtUrcQueueDequeueEnd t (c.afterCallback edit q pEntry) pEntry })
        (Nat.lt_of_lt_of_le hf' (Nat.le_of_lt_succ hf))
      simp only [h, Option.map_some]
      exact ⟨_, _, rfl⟩

end AtClient

namespace AtState

/-- The loop of `uCxAtClientCmdGetRspParamLine`. -/
def rspLoop (t : Nat) (s : AtState) (uart : Uart) :
    List Int → Option (Option (List UInt8) × AtState × Host)
  | [] => if s.client.status = noStatus then none else some (none, s, ⟨uart, []⟩)
  | now :: clock =>
    if s.client.status = noStatus then
      let (s, uart, ret) := s.handleRxData t uart.rx uart.sched
      if ret = .gotRsp then some (s.client.pRspParams, s, ⟨uart, now :: clock⟩)
      else if s.client.timedOut now then some (none, s, ⟨uart, clock⟩)
      else rspLoop t s uart clock
    else some (none, s, ⟨uart, now :: clock⟩)

def uCxAtClientCmdGetRspParamLine (t : Nat) (s : AtState) (pExpectedRsp : Option (List UInt8))
    (buf : BinaryResponseBuf) (h : Host) : Option (Option (List UInt8) × AtState × Host) :=
  let client := s.client.expectRsp pExpectedRsp buf.pBuffer buf.pBufferLength
  rspLoop t { s with client } h.uart h.clock

/-- The loop of `cmdEnd`. -/
def endLoop (t : Nat) (s : AtState) (uart : Uart) : List Int → Option (AtState × Host)
  | [] => if s.client.status = noStatus then none else some (s, ⟨uart, []⟩)
  | now :: clock =>
    if s.client.status = noStatus then
      let (s, uart, _) := s.handleRxData t uart.rx uart.sched
      let (client, leave) := s.client.cmdEndCheck now
      let s := { s with client }
      if leave then some (s, ⟨uart, clock⟩) else endLoop t s uart clock
    else some (s, ⟨uart, now :: clock⟩)

/-- `cmdEnd` up to the unlock of `cmdMutex`. -/
def cmdEndRx (t : Nat) (s : AtState) (h : Host) : Option (AtState × Host) :=
  (s.endLoop t h.uart h.clock).map fun (s, h) => ({ s with client := s.client.finishCmd t }, h)

/-- The outcome of a `cmdEnd`: what it returns, and the calls of the URC callback. -/
structure CmdOutcome where
  ret : Int
  calls : List (AtClient × Urc.View)

/-- `cmdEnd`, but for its assertion. -/
def cmdEnd (t : Nat) (edit : Callback) (s : AtState) (h : Host) :
    Option (CmdOutcome × AtState × Host) :=
  (s.cmdEndRx t h).bind fun (s, h) =>
    (s.client.processUrcs t edit (s.client.urcQueue.bufferPos + 1)).map fun (calls, client) =>
      (⟨client.status, calls⟩, { s with client }, h)

/-- `cmdBeginF`, but for its assertion and what it writes to the UART. -/
def cmdBeginF (t : Nat) (s : AtState) (now : Int) : AtState :=
  { s with client := { s.client with cmdMutex := s.client.cmdMutex.lock t }.beginCmd now }

def uCxAtClientExecSimpleCmdF (t : Nat) (edit : Callback) (s : AtState) (now : Int) (h : Host) :
    Option (CmdOutcome × AtState × Host) :=
  (s.cmdBeginF t now).cmdEnd t edit h

/-- The part of `uCxAtClientHandleRx` that holds `cmdMutex`. -/
def handleRxLocked (t : Nat) (s : AtState) (uart : Uart) : AtState × Uart :=
  let s := { s with client := { s.client with cmdMutex := s.client.cmdMutex.lock t } }
  let (s, uart) := if s.client.executingCmd then (s, uart) else
    let (s, uart, _) := s.handleRxData t uart.rx uart.sched
    (s, uart)
  ({ s with client := { s.client with cmdMutex := s.client.cmdMutex.unlock t } }, uart)

/-- `uCxAtClientHandleRx`, with the calls of the URC callback. -/
def uCxAtClientHandleRx (t : Nat) (edit : Callback) (s : AtState) (uart : Uart) :
    Option (List (AtClient × Urc.View) × AtState × Uart) :=
  if !s.client.opened then some ([], s, uart)
  else
    let (s, uart) := s.handleRxLocked t uart
    (s.client.processUrcs t edit (s.client.urcQueue.bufferPos + 1)).map fun (calls, client) =>
      (calls, { s with client }, uart)

end AtState
