import UcxClient.Client.RxQueue
import UcxClient.Client.UrcStream

/-!
# Handling the URCs of a stream

A client that executes no command keeps the URCs of its stream in the queue (`InQueue`), and every call of
`uCxAtClientHandleRx` that does not return within the payload of a URC hands all of them to the callback
(`receive_urcs`).
-/

open ByteMem UrcQueue AtClient

namespace UrcQueue

/-- A URC whose line and payload the queue has room for, where the space that is reported is a `uint16_t`. -/
theorem Stored.room {q : UrcQueue} {us : List Urc} (h : Stored q us) (t : Nat) (hsmall : q.bufferLen < 2 ^ 31)
    {line : List UInt8} (length : Nat)
    (hroom : (encodeAll us).length + (4 + line.length + 1 + length) < q.bufferLen % 65536) :
    q.hasSpaceFor line.length = true ∧ Opened t (uCxAtUrcQueueEnqueueBegin t q line).2 us line [] ∧
      ∃ space, length < space ∧
        uCxAtUrcQueueEnqueueGetPayloadPtr (uCxAtUrcQueueEnqueueBegin t q line).2 =
          ((uCxAtUrcQueueEnqueueBegin t q line).2.bufferPos, space) := by
  have hpos := h.pos
  obtain ⟨hs, hopen⟩ : q.hasSpaceFor line.length = true ∧
      Opened t (uCxAtUrcQueueEnqueueBegin t q line).2 us line [] := h.enqueueLine t (by omega) hsmall
  refine ⟨hs, hopen, _, ?_, hopen.payloadPtr (by omega)⟩
  obtain ⟨-, -, hlen', hpos'⟩ := enqueueBegin_accepted (t := t) hs
  rw [length_newEntry] at hpos'
  rw [getUnusedBuf, hlen', hpos', sizeSub_of_le (by omega)]
  omega

end UrcQueue

namespace AtState

section
variable {t n : Nat} {s : AtState} {r : UrcReader} {us : List Urc}

/-- The queue holds the URCs `us`, and behind them the entry of the URC whose payload is being read. -/
def InQueue (t : Nat) (us : List Urc) (s : AtState) : ReadPhase → Prop
  | .payload (some line) data left =>
    Opened t s.client.urcQueue us line data ∧ s.client.binaryRx.state = .urc ∧
      s.client.binaryRx.pBuffer = .urcBuffer (s.client.urcQueue.bufferPos) ∧
      s.client.binaryRx.bufferPos = data.length ∧ data.length + left < s.client.binaryRx.bufferSize ∧
      s.client.urcQueue.bufferPos + data.length + left ≤ s.client.urcQueue.bufferLen
  | .payload none _ _ =>
    Stored s.client.urcQueue us ∧ s.client.binaryRx.state = .flush ∧ s.remainingBuf = 0
  | _ => Stored s.client.urcQueue us

/-! ## The end of a line -/

theorem phase_lineEnd_zero (line : List UInt8) : (UrcReader.lineEnd line 0).1.phase = .text := by
  unfold UrcReader.lineEnd
  split <;> rfl

theorem lineEnd_other {line : List UInt8} (h : isUrcLine line ≠ true) (length : Nat) :
    UrcReader.lineEnd line length =
      (⟨[], if length = 0 then .text else .payload none [] length⟩, []) := by
  rw [UrcReader.lineEnd, if_neg h]

/-- The end of a line without a transfer. -/
theorem inQueue_lineDone (hidle : s.client.executingCmd = false) (hq : Stored s.client.urcQueue us)
    (hsmall : s.client.urcQueue.bufferLen < 2 ^ 31)
    (hroom : (encodeAll us).length + UrcEvent.needs (UrcReader.lineEnd s.client.rxBuffer 0).2 <
      s.client.urcQueue.bufferLen % 65536) :
    Stored ((s.client.parseLine t s.client.rxBuffer).1.lineDone t
      (s.client.parseLine t s.client.rxBuffer).2).urcQueue
      (us ++ UrcEvent.urcs (UrcReader.lineEnd s.client.rxBuffer 0).2) := by
  have hk : lineKind s.client.executingCmd s.client.pExpectedRsp s.client.rxBuffer =
      if isUrcLine s.client.rxBuffer then .urc else .other := by rw [hidle, lineKind_idle]
  rw [parseLine_eq, hk]
  by_cases hurc : isUrcLine s.client.rxBuffer = true
  · rw [UrcReader.lineEnd, if_pos hurc] at hroom ⊢
    obtain ⟨hs, hopen, -⟩ := hq.room t hsmall 0 hroom
    simp only [if_pos hurc, onLine, enqueueBegin_fst, hs, if_true, lineDone]
    exact hopen.enqueueEnd
  · rw [lineEnd_other hurc, if_neg hurc]
    simpa [onLine, lineDone, UrcEvent.urcs] using hq

/-- The end of a line with a transfer. -/
theorem inQueue_startTransfer (hidle : s.client.executingCmd = false) (hq : Stored s.client.urcQueue us)
    (hsmall : s.client.urcQueue.bufferLen < 2 ^ 31) {high low : UInt8}
    (hroom : (encodeAll us).length +
      UrcEvent.needs (UrcReader.lineEnd s.client.rxBuffer (announcedLength high low)).2 <
        s.client.urcQueue.bufferLen % 65536) :
    InQueue t (us ++ UrcEvent.urcs (UrcReader.lineEnd s.client.rxBuffer (announcedLength high low)).2)
      ((s.withLength high low).startTransfer t).1
      (UrcReader.lineEnd s.client.rxBuffer (announcedLength high low)).1.phase := by
  have hnone : us ++ UrcEvent.urcs [] = us := List.append_nil us
  by_cases hurc : isUrcLine s.client.rxBuffer = true
  · rw [UrcReader.lineEnd, if_pos hurc] at hroom ⊢
    have hk : s.client.bufferedKind = .urc := by
      rw [AtClient.bufferedKind, hidle, lineKind_idle, if_pos hurc]
    have hroom' : (encodeAll us).length + (4 + s.client.rxBuffer.length + 1 + announcedLength high low) <
        s.client.urcQueue.bufferLen % 65536 := by
      by_cases hzero : announcedLength high low = 0
      · rw [if_pos hzero] at hroom
        rw [hzero]
        exact hroom
      · rw [if_neg hzero] at hroom
        exact hroom
    obtain ⟨hs, hopen, space, hlt, hptr⟩ := hq.room t hsmall _ hroom'
    rw [startTransfer_urc t hk hs]
    simp only [lineQueue, hptr, hlt, if_true]
    by_cases hzero : announcedLength high low = 0
    · rw [if_pos hzero, binaryRxNext, if_neg (by simp [started, hzero])]
      exact hopen.enqueueEnd
    · rw [if_neg hzero, binaryRxNext, if_pos (by simp only [started]; omega)]
      have hpos : (uCxAtUrcQueueEnqueueBegin t s.client.urcQueue s.client.rxBuffer).2.bufferPos =
          (encodeAll us).length + (4 + s.client.rxBuffer.length + 1) := by
        rw [hopen.pos, length_newEntry]
      refine ⟨?_, rfl, rfl, rfl, ?_, ?_⟩
      · exact (List.append_nil us).symm ▸ hopen
      · simp only [started, List.length_nil]
        omega
      · simp only [started, List.length_nil, hpos, bufferLen_enqueueBegin]
        omega
  · rw [startTransfer_refused t hidle (fun h => absurd h hurc), refusedQueue, if_neg hurc,
      lineEnd_other hurc, hnone]
    by_cases hzero : announcedLength high low = 0
    · rw [if_pos hzero, binaryRxNext, if_neg (by simp [started, hzero])]
      exact hq
    · rw [if_neg hzero, binaryRxNext, if_pos (by simp only [started]; omega)]
      exact ⟨hq, rfl, rfl⟩

/-! ## One byte -/

/-- A byte of a payload that is flushed. -/
theorem inQueue_flush {data : List UInt8} {left : Nat} (hq : InQueue t us s (.payload none data left))
    (hleft : s.client.binaryRx.remainingDataBytes = left) (b : UInt8) :
    InQueue t us ((s.takePayload [b]).binaryRxNext t).1
      (if left ≤ 1 then .text else .payload none (data ++ [b]) (left - 1)) := by
  obtain ⟨hstored, hst, hroom⟩ := hq
  rw [takePayload_discard (by omega), hleft, List.length_singleton]
  by_cases hlast : left ≤ 1
  · rw [if_pos hlast, binaryRxNext, if_neg (by simp only; omega)]
    simp only [binaryRxDone, hst]
    exact hstored
  · rw [if_neg hlast, binaryRxNext, if_pos (by simp only; omega)]
    exact ⟨hstored, hst, hroom⟩

/-- A byte of the payload of a URC. -/
theorem inQueue_payload {line data : List UInt8} {left : Nat}
    (hq : InQueue t us s (.payload (some line) data left))
    (hleft : s.client.binaryRx.remainingDataBytes = left) (hpos : 0 < left) (b : UInt8) :
    if left ≤ 1 then
      Stored ((s.takePayload [b]).binaryRxNext t).1.client.urcQueue (us ++ [⟨line, data ++ [b]⟩])
    else InQueue t us ((s.takePayload [b]).binaryRxNext t).1 (.payload (some line) (data ++ [b]) (left - 1)) := by
  obtain ⟨hopen, hst, hdest, hused, hsize, hfits⟩ := hq
  have hfits' : s.client.urcQueue.bufferPos + data.length + [b].length ≤ s.client.urcQueue.bufferLen := by
    rw [List.length_singleton]
    omega
  have hopen' := hopen.store rfl hfits'
  have hlength : s.client.binaryRx.bufferPos + 1 = (data ++ [b]).length := by
    rw [hused, List.length_append, List.length_singleton]
  rw [takePayload_store (by rw [remainingBuf]; omega), hleft, List.length_singleton, hlength]
  simp only [storePayload, hdest, hused]
  by_cases hlast : left ≤ 1
  · rw [if_pos hlast, binaryRxNext, if_neg (by simp only; omega)]
    simp only [binaryRxDone, hst]
    exact hopen'.enqueueEnd
  · rw [if_neg hlast, binaryRxNext, if_pos (by simp only; omega)]
    refine ⟨hopen', hst, rfl, rfl, ?_, ?_⟩
    · simp only [List.length_append, List.length_singleton]
      omega
    · simp only [List.length_append, List.length_singleton]
      omega

/-- **A byte completes a URC in the queue when it does so for the reader.** -/
theorem rxByte_inQueue (h : Reads n r s) (hq : InQueue t us s r.phase)
    (hsmall : s.client.urcQueue.bufferLen < 2 ^ 31) (b : UInt8)
    (hroom : (encodeAll us).length + r.phase.needs + UrcEvent.needs (UrcReader.step n r b).2 <
      s.client.urcQueue.bufferLen % 65536) :
    InQueue t (us ++ UrcEvent.urcs (UrcReader.step n r b).2) (rxByte t s b).1
      (UrcReader.step n r b).1.phase := by
  obtain ⟨line, phase⟩ := r
  have hline : s.client.rxBuffer = line := h.line
  have hphase := h.phase
  have hnone : us ++ UrcEvent.urcs [] = us := List.append_nil us
  cases phase with
  | text =>
    obtain ⟨hchar, -⟩ := hphase
    have hstored : Stored s.client.urcQueue us := hq
    by_cases hsoh : b = sohChar
    · subst hsoh
      rw [rxByte, rxStep_char hchar, readChar_soh]
      simp only [UrcReader.step, if_true, hnone]
      exact hstored
    by_cases heol : isEol b = true
    · simp only [UrcReader.step, if_neg hsoh, if_pos heol, ReadPhase.needs, ← hline] at hroom ⊢
      rw [rxByte, rxStep_char hchar, readChar_eol t s heol, phase_lineEnd_zero]
      exact inQueue_lineDone h.idle hstored hsmall hroom
    · rw [rxByte_text t hchar hsoh (by simpa using heol)]
      simp only [UrcReader.step, if_neg hsoh, if_neg heol]
      by_cases hprint : isprint b = true
      · rw [if_pos hprint, if_pos hprint, hnone]
        exact hstored
      · rw [if_neg hprint, if_neg hprint, hnone]
        exact hstored
  | length =>
    obtain ⟨hbin, hcount⟩ := hphase
    rw [(rxByte_length t hbin hcount b).1]
    simp only [UrcReader.step, hnone]
    exact hq
  | length1 high =>
    obtain ⟨hbin, hcount, hhigh⟩ := hphase
    rw [rxByte_length1 t hbin hcount hhigh]
    simp only [UrcReader.step, ReadPhase.needs, ← hline] at hroom ⊢
    exact inQueue_startTransfer h.idle hq hsmall hroom
  | payload urc data left =>
    obtain ⟨hbin, hge, hleft, hpos, -⟩ := hphase
    rw [rxByte_payload t hbin hge]
    simp only [UrcReader.step]
    cases urc with
    | none =>
      have hflush := inQueue_flush hq hleft b
      by_cases hlast : left ≤ 1
      · rw [if_pos hlast] at hflush ⊢
        exact hnone.symm ▸ hflush
      · rw [if_neg hlast] at hflush ⊢
        exact hnone.symm ▸ hflush
    | some l =>
      have hpayload := inQueue_payload hq hleft hpos b
      by_cases hlast : left ≤ 1
      · rw [if_pos hlast] at hpayload ⊢
        exact hpayload
      · rw [if_neg hlast] at hpayload ⊢
        exact hnone.symm ▸ hpayload

/-! ## Any number of bytes -/

/-- A client that has got as far as the reader, with the URCs `us` in a queue of `len` bytes. -/
structure Keeps (t n len : Nat) (r : UrcReader) (us : List Urc) (s : AtState) : Prop where
  reads : Reads n r s
  queue : InQueue t us s r.phase
  length : s.client.urcQueue.bufferLen = len
  opened : s.client.opened = true
  callback : s.client.urcCallback = true

section
variable {len : Nat}

theorem Reads.pending (h : Reads n r s) : r.phase.Pending := by
  obtain ⟨line, phase⟩ := r
  have hin := h.phase
  cases phase with
  | payload urc data left => exact hin.2.2.2.1
  | _ => trivial

theorem rxByte_keeps (h : Keeps t n len r us s) (hsmall : len < 2 ^ 31) (b : UInt8)
    (hroom : (encodeAll us).length + r.phase.needs + UrcEvent.needs (UrcReader.step n r b).2 < len % 65536) :
    Keeps t n len (UrcReader.step n r b).1 (us ++ UrcEvent.urcs (UrcReader.step n r b).2)
      (rxByte t s b).1 := by
  have hlen := h.length
  have heff := rxStep_effect t s (.got [b])
  exact ⟨rxByte_reads h.reads b, rxByte_inQueue h.reads h.queue (hlen ▸ hsmall) b (hlen ▸ hroom),
    heff.bufferLen.trans hlen, (congrArg Setup.opened heff.setup).trans h.opened,
    (congrArg Setup.urcCallback heff.setup).trans h.callback⟩

/-- The bytes that the URCs of the stream need stay the same on the way. -/
theorem rxBytes_keeps (h : Keeps t n len r us s) (hsmall : len < 2 ^ 31) (bs : List UInt8)
    (hroom : (encodeAll us).length + r.phase.needs + UrcEvent.needs (UrcReader.read n r bs).2 < len % 65536) :
    Keeps t n len (UrcReader.read n r bs).1 (us ++ UrcEvent.urcs (UrcReader.read n r bs).2)
      (rxBytes t s bs).1 := by
  induction bs generalizing r us s with
  | nil => exact (List.append_nil us).symm ▸ h
  | cons b bs ih =>
    rw [UrcReader.read_cons, UrcEvent.needs_append] at hroom
    have hneeds := UrcReader.step_needs n h.reads.pending b
    have hstep := rxByte_keeps h hsmall b (by omega)
    have hrest := ih hstep (by rw [encodeAll_append, List.length_append]; omega)
    rw [UrcReader.read_cons, UrcEvent.urcs_append, ← List.append_assoc]
    exact hrest

/-! ## Calls -/

/-- What the reader has no part in. -/
theorem Reads.congr (h : Reads n r s) (status lastIoError : Int) (urcQueue : UrcQueue) (cmdMutex : Mutex) :
    Reads n r { s with client := { s.client with status, lastIoError, urcQueue, cmdMutex } } := by
  obtain ⟨line, phase⟩ := r
  refine ⟨h.idle, h.size, h.line, ?_⟩
  cases phase <;> exact h.phase

theorem Keeps.congr (h : Keeps t n len r us s) (status lastIoError : Int) (cmdMutex : Mutex) :
    Keeps t n len r us { s with client := { s.client with status, lastIoError, cmdMutex } } := by
  refine ⟨h.reads.congr status lastIoError s.client.urcQueue cmdMutex, ?_, h.length, h.opened, h.callback⟩
  have hq := h.queue
  rcases hphase : r.phase with _ | _ | _ | ⟨_ | _, _, _⟩ <;>
    · rw [hphase] at hq
      exact hq

/-- The payload of a URC is received while its entry is open. -/
theorem Keeps.receiving_iff (h : Keeps t n len r us s) :
    s.client.Receiving .urc ↔ r.phase.needs ≠ 0 := by
  obtain ⟨line, phase⟩ := r
  have hin := h.reads.phase
  have hq := h.queue
  cases phase with
  | text => exact ⟨fun hr => absurd hr.1 (by simp [hin.1]), fun hn => absurd rfl hn⟩
  | length => exact ⟨fun hr => absurd hr.2.1 (by simp [hin.2]), fun hn => absurd rfl hn⟩
  | length1 high => exact ⟨fun hr => absurd hr.2.1 (by simp [hin.2.1]), fun hn => absurd rfl hn⟩
  | payload urc data left =>
    cases urc with
    | none => exact ⟨fun hr => absurd (hr.2.2.symm.trans hq.2.1) nofun, fun hn => absurd rfl hn⟩
    | some l =>
      refine ⟨fun _ => ?_, fun _ => ⟨hin.1, hin.2.1, hq.2.1⟩⟩
      simp only [ReadPhase.needs]
      omega

/-- Outside the payload of a URC no entry is open. -/
theorem Keeps.stored (h : Keeps t n len r us s) (hout : r.phase.needs = 0) :
    Stored s.client.urcQueue us := by
  obtain ⟨line, phase⟩ := r
  have hq := h.queue
  cases phase with
  | payload urc data left =>
    cases urc with
    | none => exact hq.1
    | some l =>
      simp only [ReadPhase.needs] at hout
      omega
  | _ => exact hq

theorem Keeps.withQueue (h : Keeps t n len r us s) (hout : r.phase.needs = 0) {q : UrcQueue}
    {vs : List Urc} (hq : Stored q vs) (hlen : q.bufferLen = len) :
    Keeps t n len r vs { s with client := { s.client with urcQueue := q } } := by
  refine ⟨h.reads.congr s.client.status s.client.lastIoError q s.client.cmdMutex, ?_, hlen, h.opened,
    h.callback⟩
  obtain ⟨line, phase⟩ := r
  have hqueue := h.queue
  cases phase with
  | payload urc data left =>
    cases urc with
    | none => exact ⟨hq, hqueue.2⟩
    | some l =>
      simp only [ReadPhase.needs] at hout
      omega
  | _ => exact hq

theorem handleRxLocked_idle (t : Nat) (hidle : s.client.executingCmd = false) (uart : Uart) :
    s.handleRxLocked t uart =
      let x := handleRxData t { s with client := { s.client with cmdMutex := s.client.cmdMutex.lock t } }
        uart.rx uart.sched
      ({ x.1 with client := { x.1.client with cmdMutex := x.1.client.cmdMutex.unlock t } }, x.2.1) := by
  rw [handleRxLocked]
  dsimp only
  rw [if_neg (by simp [hidle])]

/-- The bytes that a call takes. -/
def taken (t : Nat) (s : AtState) (uart : Uart) : List UInt8 :=
  uart.rx.take (uart.rx.length - (s.handleRxLocked t uart).2.rx.length)

/-- A call takes the client as far as the bytes that it takes, up to an error of a read. -/
theorem handleRxLocked_taken (t : Nat) (hidle : s.client.executingCmd = false) (uart : Uart) :
    uart.rx = s.taken t uart ++ (s.handleRxLocked t uart).2.rx ∧ ∃ s' status lastIoError,
      s' = (rxBytes t { s with client := { s.client with cmdMutex := s.client.cmdMutex.lock t } }
        (s.taken t uart)).1 ∧
      (s.handleRxLocked t uart).1 = { s' with client := { s'.client with
        status, lastIoError, cmdMutex := s'.client.cmdMutex.unlock t } } := by
  obtain ⟨bs, hrx, hs, -⟩ := handleRxData_bytes t
    { s with client := { s.client with cmdMutex := s.client.cmdMutex.lock t } } uart.rx uart.sched
  have hlocked := handleRxLocked_idle t hidle uart
  dsimp only at hlocked
  have htaken : s.taken t uart = bs := by
    rw [taken, hlocked]
    dsimp only
    generalize (handleRxData t { s with client := { s.client with cmdMutex := s.client.cmdMutex.lock t } }
      uart.rx uart.sched).2.1.rx = rest at hrx ⊢
    rw [hrx, List.length_append, Nat.add_sub_cancel, List.take_left]
  rw [htaken, hlocked]
  refine ⟨hrx, ?_⟩
  dsimp only
  generalize (rxBytes t { s with client := { s.client with cmdMutex := s.client.cmdMutex.lock t } } bs).1 = s' at hs ⊢
  rcases hs with hs | ⟨err, -, hs⟩
  · exact ⟨s', s'.client.status, s'.client.lastIoError, rfl, by rw [hs]⟩
  · exact ⟨s', errorIo, err, rfl, by rw [hs]; rfl⟩

/-- A call takes the client as far as the reader, up to `processUrcs`. -/
theorem handleRxLocked_keeps (h : Keeps t n len r us s) (hsmall : len < 2 ^ 31) (uart : Uart)
    (hroom : (encodeAll us).length + r.phase.needs + UrcEvent.needs (UrcReader.read n r (s.taken t uart)).2 <
      len % 65536) :
    Keeps t n len (UrcReader.read n r (s.taken t uart)).1
      (us ++ UrcEvent.urcs (UrcReader.read n r (s.taken t uart)).2) (s.handleRxLocked t uart).1 := by
  have hlocked := h.congr s.client.status s.client.lastIoError (s.client.cmdMutex.lock t)
  obtain ⟨-, s', status, lastIoError, rfl, heq⟩ := handleRxLocked_taken t h.reads.idle uart
  rw [heq]
  exact (rxBytes_keeps hlocked hsmall _ hroom).congr _ _ _

end

end

/-- Calls of `uCxAtClientHandleRx`, and the URCs that they hand to the callback. -/
def receive (t : Nat) (edit : Callback) : Nat → AtState → Uart → Option (List Urc × AtState × Uart)
  | 0, s, uart => some ([], s, uart)
  | k + 1, s, uart =>
    (s.uCxAtClientHandleRx t edit uart).bind fun (calls, s, uart) =>
      (receive t edit k s uart).map fun (urcs, s, uart) => (calls.map (·.2.urc) ++ urcs, s, uart)

/-- None of the calls returns from `handleRxData` within the payload of a URC. -/
def returnsOutside (t : Nat) (edit : Callback) : Nat → AtState → Uart → Bool
  | 0, _, _ => true
  | k + 1, s, uart =>
    !decide ((s.handleRxLocked t uart).1.client.Receiving .urc) &&
      (s.uCxAtClientHandleRx t edit uart).all fun (_, s, uart) => returnsOutside t edit k s uart

/-- In each of the calls a queue of `len` bytes has room for the URCs that the call announces and for the one that
has been announced before. -/
def roomInCalls (t : Nat) (edit : Callback) (n len : Nat) : Nat → UrcReader → AtState → Uart → Bool
  | 0, _, _, _ => true
  | k + 1, r, s, uart =>
    let (r', events) := UrcReader.read n r (s.taken t uart)
    decide (r.phase.needs + UrcEvent.needs events < len % 65536) &&
      (s.uCxAtClientHandleRx t edit uart).all fun (_, s, uart) => roomInCalls t edit n len k r' s uart

section
variable {t n len : Nat} {s : AtState} {r : UrcReader} (edit : Callback)

theorem roomInCalls_succ {k : Nat} {uart : Uart} (h : roomInCalls t edit n len (k + 1) r s uart = true) :
    r.phase.needs + UrcEvent.needs (UrcReader.read n r (s.taken t uart)).2 < len % 65536 ∧
      ∀ calls s' uart', s.uCxAtClientHandleRx t edit uart = some (calls, s', uart') →
        roomInCalls t edit n len k (UrcReader.read n r (s.taken t uart)).1 s' uart' = true := by
  rw [roomInCalls, Bool.and_eq_true, decide_eq_true_eq] at h
  refine ⟨h.1, fun calls s' uart' hcall => ?_⟩
  have hall := h.2
  rwa [hcall] at hall

theorem returnsOutside_succ {k : Nat} {uart : Uart} (h : returnsOutside t edit (k + 1) s uart = true) :
    ¬(s.handleRxLocked t uart).1.client.Receiving .urc ∧
      ∀ calls s' uart', s.uCxAtClientHandleRx t edit uart = some (calls, s', uart') →
        returnsOutside t edit k s' uart' = true := by
  rw [returnsOutside, Bool.and_eq_true, Bool.not_eq_true', decide_eq_false_iff_not] at h
  refine ⟨h.1, fun calls s' uart' hcall => ?_⟩
  have hall := h.2
  rwa [hcall] at hall

/-- A call leaves the client open and without a command, and the bytes that it does not take. -/
theorem handleRx_idle (hidle : s.client.executingCmd = false) (hopen : s.client.opened = true) (uart : Uart) :
    ∃ calls s', s.uCxAtClientHandleRx t edit uart = some (calls, s', (s.handleRxLocked t uart).2) ∧
      s'.client.executingCmd = false ∧ s'.client.opened = true := by
  have hnotOpened : (!s.client.opened) = false := by rw [hopen]; rfl
  have hsetup := handleRxData_setup t { s with client := { s.client with cmdMutex := s.client.cmdMutex.lock t } }
    uart.rx uart.sched
  obtain ⟨calls, urcQueue, htotal⟩ := AtClient.processUrcs_total t edit
    (Nat.lt_succ_self (s.handleRxLocked t uart).1.client.urcQueue.bufferPos)
  simp only [uCxAtClientHandleRx, hnotOpened, Bool.false_eq_true, if_false, htotal, Option.map_some]
  refine ⟨calls, _, rfl, ?_⟩
  rw [handleRxLocked_idle t hidle]
  exact ⟨(congrArg Setup.executingCmd hsetup).trans hidle, (congrArg Setup.opened hsetup).trans hopen⟩

/-- Room for all the URCs of a stream is room in every call. -/
theorem roomInCalls_of_needs (hidle : s.client.executingCmd = false) (hopen : s.client.opened = true)
    (hr : r.phase.Pending) (k : Nat) (uart : Uart)
    (hroom : r.phase.needs + UrcEvent.needs (UrcReader.read n r uart.rx).2 < len % 65536) :
    roomInCalls t edit n len k r s uart = true := by
  induction k generalizing r s uart with
  | zero => rfl
  | succ k ih =>
    obtain ⟨calls, s', hcall, hidle', hopen'⟩ := handleRx_idle edit hidle hopen uart
    obtain ⟨hrx, -⟩ := handleRxLocked_taken t hidle uart
    have hneeds := UrcReader.read_needs n hr (s.taken t uart)
    rw [hrx, UrcReader.read_append, UrcEvent.needs_append] at hroom
    have hlater := ih hidle' hopen' (UrcReader.read_pending n hr (s.taken t uart)) (s.handleRxLocked t uart).2
      (by omega)
    rw [roomInCalls, Bool.and_eq_true, decide_eq_true_eq, hcall]
    exact ⟨by omega, hlater⟩

theorem fits_of_length {us : List Urc} (h : (encodeAll us).length < 65536) : ∀ u ∈ us, u.Fits := by
  intro u hu
  obtain ⟨before, after, rfl⟩ := List.append_of_mem hu
  rw [encodeAll_append, encodeAll_cons, List.length_append, List.length_append, Urc.length_encode,
    Urc.length_data] at h
  exact ⟨by omega, by omega⟩

/-- A call that returns outside the payload of a URC hands out every URC that it completes. -/
theorem handleRx_views (h : Keeps t n len r [] s) (hsmall : len < 2 ^ 31) (uart : Uart)
    (hroom : r.phase.needs + UrcEvent.needs (UrcReader.read n r (s.taken t uart)).2 < len % 65536)
    (hout : ¬(s.handleRxLocked t uart).1.client.Receiving .urc) :
    ∃ calls s' uart', s.uCxAtClientHandleRx t edit uart = some (calls, s', uart') ∧
      uart.rx = s.taken t uart ++ uart'.rx ∧
      calls.map Prod.snd = (UrcEvent.urcs (UrcReader.read n r (s.taken t uart)).2).map Urc.view ∧
      Keeps t n len (UrcReader.read n r (s.taken t uart)).1 [] s' ∧
      (UrcReader.read n r (s.taken t uart)).1.phase.needs = 0 := by
  have hkeeps := handleRxLocked_keeps h hsmall uart (by simpa using hroom)
  obtain ⟨hrx, -⟩ := handleRxLocked_taken t h.reads.idle uart
  rw [List.nil_append] at hkeeps
  generalize s.taken t uart = bs at hroom hkeeps hrx ⊢
  have houtside : (UrcReader.read n r bs).1.phase.needs = 0 :=
    Decidable.of_not_not fun hn => hout (hkeeps.receiving_iff.2 hn)
  have hnotOpened : (!s.client.opened) = false := by rw [h.opened]; rfl
  simp only [uCxAtClientHandleRx, hnotOpened, Bool.false_eq_true, if_false]
  generalize s.handleRxLocked t uart = x at hrx hkeeps ⊢
  obtain ⟨s1, uart1⟩ := x
  have hstored := hkeeps.stored houtside
  have hbytes : (encodeAll (UrcEvent.urcs (UrcReader.read n r bs).2)).length < 65536 := by
    have hneeds := UrcReader.read_needs n h.reads.pending bs
    omega
  obtain ⟨calls, q', hcalls, hempty, hlen, hviews, -⟩ := processUrcs_stored t edit (fits_of_length hbytes)
    hstored hkeeps.callback (by rw [hstored.pos]; omega) (Nat.lt_succ_self _)
  simp only [hcalls, Option.map_some]
  exact ⟨calls, _, uart1, rfl, hrx, hviews,
    hkeeps.withQueue houtside hempty (hlen.trans hkeeps.length), houtside⟩

theorem handleRx_urcs (h : Keeps t n len r [] s) (hsmall : len < 2 ^ 31) (uart : Uart)
    (hroom : r.phase.needs + UrcEvent.needs (UrcReader.read n r (s.taken t uart)).2 < len % 65536)
    (hout : ¬(s.handleRxLocked t uart).1.client.Receiving .urc) :
    ∃ calls s' uart', s.uCxAtClientHandleRx t edit uart = some (calls, s', uart') ∧
      uart.rx = s.taken t uart ++ uart'.rx ∧
      calls.map (·.2.urc) = UrcEvent.urcs (UrcReader.read n r (s.taken t uart)).2 ∧
      Keeps t n len (UrcReader.read n r (s.taken t uart)).1 [] s' ∧
      (UrcReader.read n r (s.taken t uart)).1.phase.needs = 0 := by
  obtain ⟨calls, s', uart', hcall, hrx, hviews, hkeeps, houtside⟩ :=
    handleRx_views edit h hsmall uart hroom hout
  refine ⟨calls, s', uart', hcall, hrx, ?_, hkeeps, houtside⟩
  have hurcs := congrArg (List.map Urc.View.urc) hviews
  simpa [List.map_map, Function.comp_def, Urc.urc_view] using hurcs

/-- **Calls that return outside the payloads hand out every URC that is complete**, once and in order. -/
theorem receive_urcs (h : Keeps t n len r [] s) (hstart : r.phase.needs = 0) (hsmall : len < 2 ^ 31) (k : Nat)
    (uart : Uart) (hroom : roomInCalls t edit n len k r s uart = true)
    (hout : returnsOutside t edit k s uart = true) :
    ∃ bs s' uart', s.receive t edit k uart = some (UrcEvent.urcs (UrcReader.read n r bs).2, s', uart') ∧
      uart.rx = bs ++ uart'.rx ∧ (UrcReader.read n r bs).1.phase.needs = 0 := by
  induction k generalizing r s uart with
  | zero => exact ⟨[], s, uart, rfl, rfl, hstart⟩
  | succ k ih =>
    obtain ⟨hneeds, hroom'⟩ := roomInCalls_succ edit hroom
    obtain ⟨hreturns, hout'⟩ := returnsOutside_succ edit hout
    obtain ⟨calls, s1, uart1, hcall, hrx, hurcs, hkeeps, hphase⟩ := handleRx_urcs edit h hsmall uart hneeds hreturns
    obtain ⟨cs, s2, uart2, hreceive, hrx', hphase'⟩ :=
      ih hkeeps hphase uart1 (hroom' _ _ _ hcall) (hout' _ _ _ hcall)
    refine ⟨s.taken t uart ++ cs, s2, uart2, ?_, ?_, ?_⟩
    · simp only [receive, hcall, Option.bind_some, hreceive, Option.map_some, hurcs]
      rw [UrcReader.read_append, UrcEvent.urcs_append]
    · rw [List.append_assoc, ← hrx', hrx]
    · rw [UrcReader.read_append]
      exact hphase'

/-- Where no URC has a payload, no call returns within one. -/
theorem returnsOutside_of_noPayload (h : Keeps t n len r [] s) (hstart : r.phase.needs = 0)
    (hsmall : len < 2 ^ 31) (k : Nat) (uart : Uart) (hroom : roomInCalls t edit n len k r s uart = true)
    (hno : UrcEvent.NoPayload (UrcReader.read n r uart.rx).2) :
    returnsOutside t edit k s uart = true := by
  induction k generalizing r s uart with
  | zero => rfl
  | succ k ih =>
    obtain ⟨hneeds, hroom'⟩ := roomInCalls_succ edit hroom
    obtain ⟨hrx, -⟩ := handleRxLocked_taken t h.reads.idle uart
    rw [hrx, UrcReader.read_append, UrcEvent.noPayload_append] at hno
    have hout : ¬(s.handleRxLocked t uart).1.client.Receiving .urc := fun hr =>
      (handleRxLocked_keeps h hsmall uart (by simpa using hneeds)).receiving_iff.1 hr
        (UrcReader.read_outside n hstart hno.1).1
    obtain ⟨calls, s1, uart1, hcall, hrx1, -, hkeeps, hphase⟩ := handleRx_urcs edit h hsmall uart hneeds hout
    rw [List.append_cancel_left (hrx.symm.trans hrx1)] at hno
    have hlater := ih hkeeps hphase uart1 (hroom' _ _ _ hcall) hno.2
    simp only [returnsOutside, hout, hcall, Option.all_some, hlater, decide_false, Bool.not_false,
      Bool.and_self]

end

end AtState
