import UcxClient.Client.NoQueue
import UcxClient.Client.UrcHandling

/-!
# The two builds on one stream

A client without the URC queue goes where the reader of the stream goes, and its callback is given each
URC when it is announced, without a payload (`receive_bareUrcs`). So the callback is given the same URCs
in both builds exactly if none of them has a payload (`configurations_agree_iff`).
-/

open ByteMem UrcQueue AtClient

theorem UrcReader.bareUrcs_lineEnd (line : List UInt8) (length : Nat) :
    UrcEvent.bareUrcs (lineEnd line length).2 = if isUrcLine line then [⟨line, []⟩] else [] := by
  unfold lineEnd
  split
  · split <;> rfl
  · rfl

/-- Bytes of a payload announce nothing. -/
theorem UrcReader.read_payload (n : Nat) (line : List UInt8) (urc : Option (List UInt8)) (data : List UInt8)
    {left : Nat} (hpos : 0 < left) {bytes : List UInt8} (hle : bytes.length ≤ left) :
    (read n ⟨line, .payload urc data left⟩ bytes).1 =
      (if bytes.length < left then ⟨line, .payload urc (data ++ bytes) (left - bytes.length)⟩
        else ⟨line, .text⟩) ∧
    UrcEvent.bareUrcs (read n ⟨line, .payload urc data left⟩ bytes).2 = [] := by
  induction bytes generalizing data left with
  | nil =>
    rw [List.length_nil, if_pos hpos, List.append_nil]
    exact ⟨rfl, rfl⟩
  | cons b bs ih =>
    rw [List.length_cons] at hle ⊢
    rw [read_cons]
    by_cases hlast : left ≤ 1
    · obtain rfl : bs = [] := List.length_eq_zero_iff.1 (by omega)
      have hstep : step n ⟨line, .payload urc data left⟩ b =
          (⟨line, .text⟩, (urc.map fun line => UrcEvent.complete ⟨line, data ++ [b]⟩).toList) := if_pos hlast
      rw [hstep, List.length_nil, if_neg (by omega)]
      exact ⟨rfl, by cases urc <;> rfl⟩
    · have hstep : step n ⟨line, .payload urc data left⟩ b =
          (⟨line, .payload urc (data ++ [b]) (left - 1)⟩, []) := if_neg hlast
      obtain ⟨hreader, hnone⟩ := @ih (data ++ [b]) (left - 1) (by omega) (by omega)
      rw [hstep]
      refine ⟨?_, hnone⟩
      rw [hreader, List.append_assoc, List.singleton_append, Nat.sub_sub, Nat.add_comm 1]
      by_cases hmore : bs.length + 1 < left
      · rw [if_pos hmore, if_pos (by omega)]
      · rw [if_neg hmore, if_neg (by omega)]

namespace NoQueueState

/-- A client that executes no command, where the reader is, whose callback has been given `us`. -/
structure Reads (n : Nat) (r : UrcReader) (us : List Urc) (s : NoQueueState) : Prop where
  reads : AtState.Reads n r s.toAtState
  noUrc : s.client.binaryRx.state ≠ .urc
  callback : s.client.urcCallback = true
  opened : s.client.opened = true
  calls : s.calls = us

section
variable {n : Nat} {s : NoQueueState} {r : UrcReader} {us : List Urc}

/-! ## The end of a line -/

/-- The line of a client that executes no command, whatever the length of a payload behind it. -/
theorem parseLine_idle (hidle : s.client.executingCmd = false) (hcb : s.client.urcCallback = true)
    (length : Nat) : s.parseLine s.client.rxBuffer =
      ({ s with calls := s.calls ++ UrcEvent.bareUrcs (UrcReader.lineEnd s.client.rxBuffer length).2 },
        .nop) := by
  rw [parseLine_eq, hidle, AtState.lineKind_idle, UrcReader.bareUrcs_lineEnd]
  by_cases hurc : isUrcLine s.client.rxBuffer = true
  · simp only [if_pos hurc, onLine, NoQueueState.callback, hcb, if_true]
  · simp only [if_neg hurc, onLine, List.append_nil]

theorem binaryRxNext_flush (h : s.client.binaryRx.state = .flush) :
    s.binaryRxNext.1 = if 0 < s.client.binaryRx.remainingDataBytes then s else { s with
      client := { s.client with
        binaryRx := { s.client.binaryRx with state := .flush, rxHeaderCount := 0 }, isBinaryRx := false } } := by
  unfold binaryRxNext
  split
  · rfl
  · simp only [binaryRxDone, h]

/-! ## One read -/

theorem readChar_reads {line : List UInt8} (h : Reads n ⟨line, .text⟩ us s) (b : UInt8) :
    AtState.Reads n (UrcReader.step n ⟨line, .text⟩ b).1 (s.readChar [b]).1.toAtState ∧
      (s.readChar [b]).1.calls = us ++ UrcEvent.bareUrcs (UrcReader.step n ⟨line, .text⟩ b).2 := by
  have hidle := h.reads.idle
  obtain rfl : s.client.rxBufferLen = n := h.reads.size
  obtain rfl : s.client.rxBuffer = line := h.reads.line
  obtain ⟨hchar, hcount⟩ := h.reads.phase
  have hnone : us ++ UrcEvent.bareUrcs [] = us := List.append_nil us
  simp only [readChar, parseIncomingChar, UrcReader.step]
  by_cases hsoh : b = sohChar
  · simp only [if_pos hsoh, hnone]
    exact ⟨⟨hidle, rfl, rfl, rfl, hcount⟩, h.calls⟩
  by_cases heol : isEol b = true
  · have heol' : b = ch '\r' ∨ b = ch '\n' := of_decide_eq_true heol
    simp only [if_neg hsoh, if_pos heol, if_pos heol', parseLine_idle hidle h.callback 0, h.calls]
    refine ⟨⟨hidle, rfl, (AtState.lineEnd_line _ 0).symm, ?_⟩, trivial⟩
    exact AtState.inPhase_lineEnd (fun _ => ⟨hchar, hcount⟩) fun hpos => absurd hpos (Nat.lt_irrefl 0)
  have heol' : ¬(b = ch '\r' ∨ b = ch '\n') := fun hor => heol (decide_eq_true hor)
  by_cases hprint : isprint b = true
  · simp only [if_neg hsoh, if_neg heol, if_neg heol', if_pos hprint, hnone, List.length_append,
      List.length_singleton]
    exact ⟨⟨hidle, rfl, rfl, hchar, hcount⟩, h.calls⟩
  · simp only [if_neg hsoh, if_neg heol, if_neg heol', if_neg hprint, hnone]
    exact ⟨⟨hidle, rfl, rfl, hchar, hcount⟩, h.calls⟩

/-- The end of a line with a transfer. -/
theorem startTransfer_reads (hidle : s.client.executingCmd = false) (hcb : s.client.urcCallback = true)
    (hbin : s.client.isBinaryRx = true) (hcount : s.client.binaryRx.rxHeaderCount = 2) {high low : UInt8}
    (hlength : s.lengthBuf = (high, low)) :
    AtState.Reads s.client.rxBufferLen
        (UrcReader.lineEnd s.client.rxBuffer (announcedLength high low)).1 s.startTransfer.1.toAtState ∧
      s.startTransfer.1.calls = s.calls ++
        UrcEvent.bareUrcs (UrcReader.lineEnd s.client.rxBuffer (announcedLength high low)).2 := by
  have hannounced : s.lengthBuf.1.toNat * 256 + s.lengthBuf.2.toNat = announcedLength high low := by
    rw [hlength]
    rfl
  simp only [startTransfer, parseLine_idle hidle hcb (announcedLength high low), setupBinaryTransfer,
    setupBinaryRxBuffer, hannounced]
  rw [binaryRxNext_flush rfl]
  by_cases hpos : 0 < announcedLength high low
  · rw [if_pos hpos]
    refine ⟨⟨hidle, rfl, (AtState.lineEnd_line _ _).symm, ?_⟩, rfl⟩
    refine AtState.inPhase_lineEnd (fun hzero => absurd hzero (Nat.ne_of_gt hpos)) fun _ _ => ?_
    exact ⟨hbin, Nat.le_of_eq hcount.symm, rfl, hpos, by rintro ⟨⟩⟩
  · rw [if_neg hpos]
    refine ⟨⟨hidle, rfl, (AtState.lineEnd_line _ _).symm, ?_⟩, rfl⟩
    exact AtState.inPhase_lineEnd (fun _ => ⟨rfl, rfl⟩) fun hpos' => absurd hpos' hpos

/-- Bytes of a payload are for no URC. -/
theorem readPayload_reads {line data : List UInt8} {urc : Option (List UInt8)} {left : Nat}
    (h : Reads n ⟨line, .payload urc data left⟩ us s) {bytes : List UInt8} (hle : bytes.length ≤ left) :
    AtState.Reads n (UrcReader.read n ⟨line, .payload urc data left⟩ bytes).1
        (s.readPayload bytes).1.toAtState ∧ (s.readPayload bytes).1.calls = us := by
  obtain ⟨hbin, hge, hleft, hpos, hrsp⟩ := h.reads.phase
  have hflush : s.client.binaryRx.state = .flush := by
    cases hst : s.client.binaryRx.state with
    | flush => rfl
    | rsp => exact absurd hst hrsp
    | urc => exact absurd hst h.noUrc
  obtain ⟨⟨bufferPos, hclient⟩, hcalls⟩ := s.takePayload_client bytes
  rw [hleft] at hclient
  rw [(UrcReader.read_payload n line urc data hpos hle).1]
  have hnext := binaryRxNext_flush (s := s.takePayload bytes) (by rw [hclient]; exact hflush)
  by_cases hmore : bytes.length < left
  · have hstays : (s.readPayload bytes).1 = s.takePayload bytes := by
      simp only [readPayload]
      split
      · rfl
      · rw [hnext, hclient, if_pos (by simp only; omega)]
    rw [if_pos hmore, hstays]
    refine ⟨⟨?_, ?_, ?_, ?_⟩, hcalls.trans h.calls⟩
    · rw [hclient]
      exact h.reads.idle
    · rw [hclient]
      exact h.reads.size
    · rw [hclient]
      exact h.reads.line
    · rw [AtState.InPhase, hclient]
      exact ⟨hbin, hge, rfl, Nat.sub_pos_of_lt hmore, hrsp⟩
  · have hne : bytes ≠ [] := fun hnil => hmore (hnil ▸ hpos)
    rw [if_neg hmore]
    simp only [readPayload, if_neg hne, hnext, hclient]
    rw [if_neg (by omega)]
    exact ⟨⟨h.reads.idle, h.reads.size, h.reads.line, rfl, rfl⟩, hcalls.trans h.calls⟩

/-- The length bytes of a transfer. -/
theorem readHeader_reads (h : Reads n r us s) {bytes : List UInt8} (hbin : s.client.isBinaryRx = true)
    (hcount : s.client.binaryRx.rxHeaderCount < 2)
    (hle : bytes.length ≤ 2 - s.client.binaryRx.rxHeaderCount) :
    AtState.Reads n (UrcReader.read n r bytes).1 (s.readHeader bytes).1.toAtState ∧
      (s.readHeader bytes).1.calls = us ++ UrcEvent.bareUrcs (UrcReader.read n r bytes).2 := by
  obtain ⟨line, phase⟩ := r
  obtain rfl : s.client.rxBufferLen = n := h.reads.size
  obtain rfl : s.client.rxBuffer = line := h.reads.line
  have hphase := h.reads.phase
  have hnone : us ++ UrcEvent.bareUrcs [] = us := List.append_nil us
  cases phase with
  | text => exact absurd (hbin.symm.trans hphase.1) (by rintro ⟨⟩)
  | payload urc data left => exact absurd hphase.2.1 (Nat.not_le.2 hcount)
  | length =>
    obtain ⟨-, hzero⟩ := hphase
    rw [hzero] at hle
    obtain _ | ⟨high, _ | ⟨low, _ | ⟨_, _⟩⟩⟩ := bytes
    · simp only [readHeader, AtState.storeHeader_nil, if_pos hcount]
      exact ⟨h.reads, hnone.symm ▸ h.calls⟩
    · have hone : (s.storeHeader [high]).client.binaryRx.rxHeaderCount = 1 := by
        simp only [AtState.storeHeader, hzero, List.length_singleton]
      simp only [readHeader, hone, Nat.one_lt_two, if_true]
      refine ⟨⟨h.reads.idle, rfl, rfl, hbin, hone, ?_⟩, hnone.symm ▸ h.calls⟩
      simp only [AtState.storeHeader, hzero, AtState.storeLengthBuf]
    · have htwo : (s.storeHeader [high, low]).client.binaryRx.rxHeaderCount = 2 := by
        simp only [AtState.storeHeader, hzero, List.length_cons, List.length_nil]
      have hread : UrcReader.read s.client.rxBufferLen ⟨s.client.rxBuffer, .length⟩ [high, low] =
          UrcReader.lineEnd s.client.rxBuffer (announcedLength high low) := by
        simp [UrcReader.read, Machine.feed, UrcReader.step]
      simp only [readHeader, htwo, Nat.lt_irrefl, if_false, hread, ← h.calls]
      refine startTransfer_reads (s := { s with toAtState := s.storeHeader [high, low] }) h.reads.idle
        h.callback hbin htwo ?_
      simp only [AtState.storeHeader, hzero, AtState.storeLengthBuf]
    · simp only [List.length_cons] at hle
      omega
  | length1 high =>
    obtain ⟨-, hone, hhigh⟩ := hphase
    rw [hone] at hle
    obtain _ | ⟨low, _ | ⟨_, _⟩⟩ := bytes
    · simp only [readHeader, AtState.storeHeader_nil, if_pos hcount]
      exact ⟨h.reads, hnone.symm ▸ h.calls⟩
    · have htwo : (s.storeHeader [low]).client.binaryRx.rxHeaderCount = 2 := by
        simp only [AtState.storeHeader, hone, List.length_singleton]
      have hread : UrcReader.read s.client.rxBufferLen ⟨s.client.rxBuffer, .length1 high⟩ [low] =
          UrcReader.lineEnd s.client.rxBuffer (announcedLength high low) := by
        simp [UrcReader.read, UrcReader.step]
      simp only [readHeader, htwo, Nat.lt_irrefl, if_false, hread, ← h.calls]
      refine startTransfer_reads (s := { s with toAtState := s.storeHeader [low] }) h.reads.idle
        h.callback hbin htwo ?_
      simp only [AtState.storeHeader, hone, AtState.storeLengthBuf, hhigh]
    · simp only [List.length_cons] at hle
      omega

/-- **A read takes the client as far as the reader.** -/
theorem rxStep_reads (h : Reads n r us s) {bytes : List UInt8} (hle : bytes.length ≤ s.wants) :
    Reads n (UrcReader.read n r bytes).1 (us ++ UrcEvent.bareUrcs (UrcReader.read n r bytes).2)
      (s.rxStep (.got bytes)).1 := by
  have hsetup := s.rxStep_setup (.got bytes)
  suffices hread : AtState.Reads n (UrcReader.read n r bytes).1 (s.rxStep (.got bytes)).1.toAtState ∧
      (s.rxStep (.got bytes)).1.calls = us ++ UrcEvent.bareUrcs (UrcReader.read n r bytes).2 from
    ⟨hread.1, s.rxStep_noUrc h.noUrc _, (congrArg Setup.urcCallback hsetup).trans h.callback,
      (congrArg Setup.opened hsetup).trans h.opened, hread.2⟩
  have header : s.client.isBinaryRx = true → s.client.binaryRx.rxHeaderCount < 2 → _ := fun hbin hlt => by
    have hwants : s.wants = 2 - s.client.binaryRx.rxHeaderCount := by simp [AtState.wants, hbin, hlt]
    have hstep : s.rxStep (.got bytes) = s.readHeader bytes := by simp [rxStep, hbin, hlt]
    exact hstep ▸ readHeader_reads h hbin hlt (hwants ▸ hle)
  obtain ⟨line, phase⟩ := r
  have hphase := h.reads.phase
  cases phase with
  | length => exact header hphase.1 (by rw [hphase.2]; decide)
  | length1 high => exact header hphase.1 (by rw [hphase.2.1]; decide)
  | text =>
    obtain ⟨hchar, -⟩ := hphase
    have hwants : s.wants = 1 := by simp [AtState.wants, hchar]
    have hstep : s.rxStep (.got bytes) = s.readChar bytes := by simp [rxStep, hchar]
    rw [hwants] at hle
    rw [hstep]
    obtain _ | ⟨b, _ | ⟨_, _⟩⟩ := bytes
    · exact ⟨h.reads, h.calls.trans (List.append_nil us).symm⟩
    · rw [UrcReader.read, Machine.feed_singleton]
      exact readChar_reads h b
    · simp only [List.length_cons] at hle
      omega
  | payload urc data left =>
    obtain ⟨hbin, hge, hleft, hpos, -⟩ := hphase
    have hstep : s.rxStep (.got bytes) = s.readPayload bytes := by
      simp [rxStep, hbin, Nat.not_lt.2 hge]
    have hfit := AtState.payload_le hbin hge hle
    rw [hleft] at hfit
    rw [hstep, (UrcReader.read_payload n line urc data hpos hfit).2, List.append_nil]
    exact readPayload_reads h hfit

/-! ## Calls -/

theorem handleRxData_reads (h : Reads n r us s) (rx : List UInt8) (sched : List Arrival) :
    ∃ bs, rx = bs ++ (s.handleRxData rx sched).2.1.rx ∧
      Reads n (UrcReader.read n r bs).1 (us ++ UrcEvent.bareUrcs (UrcReader.read n r bs).2)
        (s.handleRxData rx sched).1 := by
  have hnone : us ++ UrcEvent.bareUrcs [] = us := List.append_nil us
  induction sched generalizing s r us rx with
  | nil => exact ⟨[], rfl, hnone.symm ▸ h⟩
  | cons a sched ih =>
    cases a with
    | failed err =>
      refine ⟨[], rfl, ⟨?_, h.noUrc, h.callback, h.opened, h.calls.trans hnone.symm⟩⟩
      exact h.reads.congr errorIo err s.client.urcQueue s.client.cmdMutex
    | avail m =>
      have hsplit := (List.take_append_drop (min m s.wants) rx).symm
      have hle : (rx.take (min m s.wants)).length ≤ s.wants := by
        rw [List.length_take]
        omega
      have hread := rxStep_reads h hle
      simp only [handleRxData, Arrival.read]
      rcases hr : s.rxStep (.got (rx.take (min m s.wants))) with ⟨s1, _ | code⟩
      · rw [hr] at hread
        obtain ⟨bs, hrx, hlater⟩ := ih hread (rx.drop (min m s.wants)) (List.append_nil _)
        refine ⟨rx.take (min m s.wants) ++ bs, ?_, ?_⟩
        · rw [List.append_assoc, ← hrx]
          exact hsplit
        · rw [UrcReader.read_append, UrcEvent.bareUrcs_append, ← List.append_assoc]
          exact hlater
      · rw [hr] at hread
        exact ⟨_, hsplit, hread⟩

theorem Reads.withMutex (h : Reads n r us s) (cmdMutex : Mutex) :
    Reads n r us { s with client := { s.client with cmdMutex } } :=
  ⟨h.reads.congr s.client.status s.client.lastIoError s.client.urcQueue cmdMutex, h.noUrc, h.callback,
    h.opened, h.calls⟩

theorem handleRx_reads (t : Nat) (h : Reads n r us s) (uart : Uart) :
    ∃ bs, uart.rx = bs ++ (s.uCxAtClientHandleRx t uart).2.rx ∧
      Reads n (UrcReader.read n r bs).1 (us ++ UrcEvent.bareUrcs (UrcReader.read n r bs).2)
        (s.uCxAtClientHandleRx t uart).1 := by
  have hidle := h.reads.idle
  have hlocked := h.withMutex (s.client.cmdMutex.lock t)
  obtain ⟨bs, hrx, hreads⟩ := handleRxData_reads hlocked uart.rx uart.sched
  unfold uCxAtClientHandleRx
  dsimp only
  rw [if_neg (by simp [h.opened]), if_neg (by simp [hidle])]
  exact ⟨bs, hrx, hreads.withMutex _⟩

/-- **Every URC is handed to the callback when it is announced, without a payload.** -/
theorem receive_bareUrcs (t k : Nat) (h : Reads n r us s) (uart : Uart) :
    ∃ bs, uart.rx = bs ++ (s.receive t k uart).2.rx ∧
      (s.receive t k uart).1.calls = us ++ UrcEvent.bareUrcs (UrcReader.read n r bs).2 := by
  induction k generalizing s r us uart with
  | zero => exact ⟨[], rfl, h.calls.trans (List.append_nil us).symm⟩
  | succ k ih =>
    obtain ⟨bs, hrx, hreads⟩ := handleRx_reads t h uart
    obtain ⟨cs, hrx', hcalls⟩ := ih hreads (s.uCxAtClientHandleRx t uart).2
    refine ⟨bs ++ cs, ?_, ?_⟩
    · rw [hrx, hrx', List.append_assoc]
      rfl
    · rw [UrcReader.read_append, UrcEvent.bareUrcs_append, ← List.append_assoc]
      exact hcalls

end

end NoQueueState

/-! ## Both builds -/

namespace AtState

/-- A client that executes no command and receives no binary transfer, with a URC callback and an empty
URC queue. -/
structure Idle (s : AtState) : Prop where
  opened : s.client.opened = true
  executingCmd : s.client.executingCmd = false
  urcCallback : s.client.urcCallback = true
  isBinaryRx : s.client.isBinaryRx = false
  rxHeaderCount : s.client.binaryRx.rxHeaderCount = 0
  state : s.client.binaryRx.state = .flush
  queue : Stored s.client.urcQueue []

/-- What a stream brings to a client that is not in a binary transfer. -/
def urcEvents (s : AtState) (bs : List UInt8) : List UrcEvent :=
  (UrcReader.read s.client.rxBufferLen ⟨s.client.rxBuffer, .text⟩ bs).2

/-- The URCs handed to the callback in `k` calls of the build with the queue and in `k'` calls of that
without it are the same. -/
def Agree (t : Nat) (edit : Callback) (s : AtState) (rxMem bs : List UInt8) (k : Nat) (sched : List Arrival)
    (k' : Nat) (sched' : List Arrival) : Prop :=
  (s.receive t edit k ⟨bs, sched⟩).map (·.1) =
    some (NoQueueState.receive t k' ⟨s, rxMem, []⟩ ⟨bs, sched'⟩).1.calls

/-- **The two builds hand the same URCs to the callback if and only if none has a payload.** However the
stream `bs` is split into reads and calls in each of them, they agree if no URC has a payload; and if a
URC has one they do not, where no call returns within it. -/
theorem configurations_agree_iff (t : Nat) (edit : Callback) {s : AtState} (hs : s.Idle) (rxMem bs : List UInt8)
    (hroom : UrcEvent.needs (s.urcEvents bs) < s.client.urcQueue.bufferLen % 65536)
    (hsmall : s.client.urcQueue.bufferLen < 2 ^ 31) {k k' : Nat} {sched sched' : List Arrival}
    (hall : (s.receive t edit k ⟨bs, sched⟩).map (·.2.2.rx) = some [])
    (hall' : (NoQueueState.receive t k' ⟨s, rxMem, []⟩ ⟨bs, sched'⟩).2.rx = []) :
    (UrcEvent.NoPayload (s.urcEvents bs) → Agree t edit s rxMem bs k sched k' sched') ∧
    (returnsOutside t edit k s ⟨bs, sched⟩ = true → Agree t edit s rxMem bs k sched k' sched' →
      UrcEvent.NoPayload (s.urcEvents bs)) := by
  obtain ⟨n, hn⟩ : ∃ n, n = s.client.rxBufferLen := ⟨_, rfl⟩
  obtain ⟨r, hr⟩ : ∃ r : UrcReader, r = ⟨s.client.rxBuffer, .text⟩ := ⟨_, rfl⟩
  have hevents : s.urcEvents bs = (UrcReader.read n r bs).2 := by rw [urcEvents, hn, hr]
  have hreads : Reads n r s := by
    rw [hn, hr]
    exact ⟨hs.executingCmd, rfl, rfl, hs.isBinaryRx, hs.rxHeaderCount⟩
  have hstart : r.phase.needs = 0 := by
    rw [hr]
    rfl
  have hkeeps : Keeps t n s.client.urcQueue.bufferLen r [] s := by
    refine ⟨hreads, ?_, rfl, hs.opened, hs.urcCallback⟩
    rw [hr]
    exact hs.queue
  rw [hevents] at hroom ⊢
  have hcalls : (NoQueueState.receive t k' ⟨s, rxMem, []⟩ ⟨bs, sched'⟩).1.calls =
      UrcEvent.bareUrcs (UrcReader.read n r bs).2 := by
    have hdirect : NoQueueState.Reads n r [] ⟨s, rxMem, []⟩ :=
      ⟨hreads, hs.state ▸ nofun, hs.urcCallback, hs.opened, rfl⟩
    obtain ⟨bs', hrx, hcalls⟩ := NoQueueState.receive_bareUrcs t k' hdirect ⟨bs, sched'⟩
    rw [hall', List.append_nil] at hrx
    obtain rfl : bs = bs' := hrx
    exact hcalls
  have hroom' : roomInCalls t edit n s.client.urcQueue.bufferLen k r s ⟨bs, sched⟩ = true :=
    roomInCalls_of_needs edit hs.executingCmd hs.opened hreads.pending k ⟨bs, sched⟩ (by simpa [hstart] using hroom)
  have hurcs : returnsOutside t edit k s ⟨bs, sched⟩ = true →
      (s.receive t edit k ⟨bs, sched⟩).map (·.1) = some (UrcEvent.urcs (UrcReader.read n r bs).2) ∧
      (UrcReader.read n r bs).1.phase.needs = 0 := by
    intro hout
    obtain ⟨bs', s', uart', hreceive, hrx, hphase⟩ :=
      receive_urcs edit hkeeps hstart hsmall k ⟨bs, sched⟩ hroom' hout
    rw [hreceive] at hall ⊢
    obtain hnil : uart'.rx = [] := Option.some.inj hall
    rw [hnil, List.append_nil] at hrx
    obtain rfl : bs = bs' := hrx
    exact ⟨rfl, hphase⟩
  rw [Agree, hcalls]
  refine ⟨fun hno => ?_, fun hout hagree => ?_⟩
  · have hout := returnsOutside_of_noPayload edit hkeeps hstart hsmall k ⟨bs, sched⟩ hroom' hno
    rw [(hurcs hout).1, (UrcReader.read_outside n hstart hno).2]
  · obtain ⟨hreceive, hphase⟩ := hurcs hout
    rw [hreceive] at hagree
    -- the entries of the queue and of the callback take the same bytes
    have hneeds := UrcReader.read_needs n hreads.pending bs
    rw [Option.some.inj hagree, hphase, hstart, Nat.zero_add, Nat.add_zero] at hneeds
    exact (UrcEvent.length_bareUrcs _).2 hneeds

/-- An opened client with a URC callback, a line buffer of 8 bytes and a URC buffer of 32. -/
def opened : AtState :=
  ⟨{ uCxAtClientInit false 8 (List.replicate 32 0) with opened := true, urcCallback := true },
    ⟨fun _ _ => 0, fun _ => 0⟩, (0, 0)⟩

theorem idle_opened : opened.Idle :=
  ⟨rfl, rfl, rfl, rfl, rfl, rfl, ⟨⟨_, rfl⟩, rfl, rfl, rfl, ⟨rfl, rfl⟩, ⟨rfl, rfl⟩⟩⟩

/-- Two URCs without payloads and a transfer that belongs to no URC. -/
theorem configurations_agree_lines : Agree 0 id opened [] (text "+A\rx" ++ [sohChar, 0, 2] ++ text "ab+B\r")
    5 (List.replicate 20 (.avail 1)) 3 (List.replicate 20 (.avail 9)) :=
  (configurations_agree_iff 0 id idle_opened [] _ (by decide) (by decide) (by decide) (by decide)).1 (by decide)

/-- A URC with a payload of one byte: with the queue it is handed out with its payload, without the queue
it is not. -/
theorem configurations_disagree :
    UrcEvent.needs (opened.urcEvents (text "+A" ++ [sohChar, 0, 1, ch 'x'])) < 32 ∧
    (opened.receive 0 id 2 ⟨text "+A" ++ [sohChar, 0, 1, ch 'x'], List.replicate 8 (.avail 9)⟩).map
      (fun x => (x.1, x.2.2.rx)) = some ([⟨text "+A", text "x"⟩], []) ∧
    (NoQueueState.receive 0 2 ⟨opened, [], []⟩ ⟨text "+A" ++ [sohChar, 0, 1, ch 'x'],
      List.replicate 8 (.avail 9)⟩).2.rx = [] ∧
    (NoQueueState.receive 0 2 ⟨opened, [], []⟩ ⟨text "+A" ++ [sohChar, 0, 1, ch 'x'],
      List.replicate 8 (.avail 9)⟩).1.calls = [⟨text "+A", []⟩] ∧
    ¬Agree 0 id opened [] (text "+A" ++ [sohChar, 0, 1, ch 'x']) 2 (List.replicate 8 (.avail 9))
      2 (List.replicate 8 (.avail 9)) := by
  refine ⟨by decide, by decide, by decide, by decide, ?_⟩
  unfold Agree
  decide

end AtState
