import UcxClient.Client.Overlong
import UcxClient.Client.UrcRoom

/-!
# The URCs of a byte stream

`UrcReader` reads a stream apart from any client: lines of text, each of which may be followed by a binary
transfer. It reports a URC when its line and the length of its payload are known (`announced`), and when
its payload has been read as well (`complete`). A client that executes no command is where the reader is
(`Reads`), and every byte takes both on (`rxByte_reads`).
-/

open UrcQueue AtClient

/-- Where a reader of the stream is. -/
inductive ReadPhase where
  | text
  /-- behind the character that starts a transfer -/
  | length
  /-- behind the first length byte -/
  | length1 (high : UInt8)
  /-- in a payload of which `left` bytes are to come; it belongs to the URC with this line, if to one -/
  | payload (urc : Option (List UInt8)) (data : List UInt8) (left : Nat)

inductive UrcEvent where
  | announced (line : List UInt8) (length : Nat)
  | complete (u : Urc)

structure UrcReader where
  line : List UInt8
  phase : ReadPhase

namespace UrcReader

/-- The end of a line, behind which a payload of this length begins. -/
def lineEnd (line : List UInt8) (length : Nat) : UrcReader × List UrcEvent :=
  if isUrcLine line then
    if length = 0 then (⟨[], .text⟩, [.announced line 0, .complete ⟨line, []⟩])
    else (⟨[], .payload (some line) [] length⟩, [.announced line length])
  else (⟨[], if length = 0 then .text else .payload none [] length⟩, [])

/-- One byte, for lines of less than `n` characters. -/
def step (n : Nat) (r : UrcReader) (b : UInt8) : UrcReader × List UrcEvent :=
  match r.phase with
  | .text =>
    if b = sohChar then (⟨r.line, .length⟩, [])
    else if isEol b then lineEnd r.line 0
    else if isprint b then (⟨if r.line.length + 1 = n then [] else r.line ++ [b], .text⟩, [])
    else (r, [])
  | .length => (⟨r.line, .length1 b⟩, [])
  | .length1 high => lineEnd r.line (announcedLength high b)
  | .payload urc data left =>
    if left ≤ 1 then
      (⟨r.line, .text⟩, (urc.map fun line => UrcEvent.complete ⟨line, data ++ [b]⟩).toList)
    else (⟨r.line, .payload urc (data ++ [b]) (left - 1)⟩, [])

/-- The bytes one after the other. -/
def read (n : Nat) : UrcReader → List UInt8 → UrcReader × List UrcEvent := Machine.feed (step n)

theorem read_cons (n : Nat) (r : UrcReader) (b : UInt8) (bs : List UInt8) :
    read n r (b :: bs) =
      ((read n (step n r b).1 bs).1, (step n r b).2 ++ (read n (step n r b).1 bs).2) :=
  Machine.feed_cons r b bs

theorem read_append (n : Nat) (r : UrcReader) (bs cs : List UInt8) :
    read n r (bs ++ cs) = ((read n (read n r bs).1 cs).1, (read n r bs).2 ++ (read n (read n r bs).1 cs).2) :=
  Machine.feed_append r bs cs

end UrcReader

namespace UrcEvent

/-- The URCs that have been received completely. -/
def urcs (es : List UrcEvent) : List Urc :=
  es.filterMap fun
    | complete u => some u
    | announced _ _ => none

/-- The URCs that have been announced, without their payloads. -/
def bareUrcs (es : List UrcEvent) : List Urc :=
  es.filterMap fun
    | announced line _ => some ⟨line, []⟩
    | complete _ => none

/-- The bytes of the queue that the URCs need. -/
def needs (es : List UrcEvent) : Nat :=
  (es.map fun
    | announced line length => 4 + line.length + 1 + length
    | complete _ => 0).sum

theorem needs_append (es fs : List UrcEvent) : needs (es ++ fs) = needs es + needs fs := by
  simp [needs]

theorem urcs_append (es fs : List UrcEvent) : urcs (es ++ fs) = urcs es ++ urcs fs := by
  simp [urcs]

theorem bareUrcs_append (es fs : List UrcEvent) : bareUrcs (es ++ fs) = bareUrcs es ++ bareUrcs fs := by
  simp [bareUrcs]

/-- The length of the payload that is announced. -/
def payloadLength : UrcEvent → Nat
  | announced _ length => length
  | complete _ => 0

/-- No URC has a payload. -/
def NoPayload (es : List UrcEvent) : Prop := ∀ e ∈ es, e.payloadLength = 0

instance (es : List UrcEvent) : Decidable (NoPayload es) :=
  inferInstanceAs (Decidable (∀ e ∈ es, e.payloadLength = 0))

theorem noPayload_append (es fs : List UrcEvent) :
    NoPayload (es ++ fs) ↔ NoPayload es ∧ NoPayload fs := by
  simp only [NoPayload, List.mem_append, or_imp, forall_and]

theorem noPayload_cons (e : UrcEvent) (es : List UrcEvent) :
    NoPayload (e :: es) ↔ NoPayload [e] ∧ NoPayload es := noPayload_append [e] es

/-- Without their payloads the URCs need less, unless none has one. -/
theorem length_bareUrcs (es : List UrcEvent) : (encodeAll (bareUrcs es)).length ≤ needs es ∧
    ((encodeAll (bareUrcs es)).length = needs es → NoPayload es) := by
  induction es with
  | nil => exact ⟨Nat.le_refl 0, fun _ _ hmem => absurd hmem List.not_mem_nil⟩
  | cons e es ih =>
    obtain ⟨hle, hno⟩ := ih
    rw [noPayload_cons]
    cases e with
    | announced line length =>
      have hbare : (encodeAll (bareUrcs (announced line length :: es))).length =
          4 + line.length + 1 + (encodeAll (bareUrcs es)).length := by
        simp [bareUrcs]
        omega
      have hneeds : needs (announced line length :: es) = 4 + line.length + 1 + length + needs es := by
        simp [needs]
      rw [hbare, hneeds]
      refine ⟨by omega, fun heq => ⟨fun e hmem => ?_, hno (by omega)⟩⟩
      rw [List.mem_singleton.1 hmem, payloadLength]
      omega
    | complete u =>
      have hbare : bareUrcs (complete u :: es) = bareUrcs es := rfl
      have hneeds : needs (complete u :: es) = needs es := Nat.zero_add _
      rw [hbare, hneeds]
      exact ⟨hle, fun heq => ⟨fun e hmem => List.mem_singleton.1 hmem ▸ rfl, hno heq⟩⟩

end UrcEvent

/-- The bytes of the queue that an open entry needs. -/
def ReadPhase.needs : ReadPhase → Nat
  | .payload (some line) data left => 4 + line.length + 1 + data.length + left
  | _ => 0

/-- A payload that is being read has bytes to come. -/
def ReadPhase.Pending : ReadPhase → Prop
  | .payload _ _ left => 0 < left
  | _ => True

namespace UrcReader

/-- The end of a line announces what is complete or open behind it. -/
theorem lineEnd_needs (line : List UInt8) (length : Nat) :
    (encodeAll (UrcEvent.urcs (lineEnd line length).2)).length + (lineEnd line length).1.phase.needs =
      UrcEvent.needs (lineEnd line length).2 := by
  unfold lineEnd
  by_cases hurc : isUrcLine line = true
  · rw [if_pos hurc]
    by_cases hzero : length = 0
    · simp [hzero, UrcEvent.urcs, UrcEvent.needs, ReadPhase.needs, Nat.add_assoc]
    · simp [hzero, UrcEvent.urcs, UrcEvent.needs, ReadPhase.needs]
  · rw [if_neg hurc]
    by_cases hzero : length = 0 <;> simp [hzero, UrcEvent.urcs, UrcEvent.needs, ReadPhase.needs]

/-- What a byte announces is complete or open behind it. -/
theorem step_needs (n : Nat) {r : UrcReader} (hr : r.phase.Pending) (b : UInt8) :
    (encodeAll (UrcEvent.urcs (step n r b).2)).length + (step n r b).1.phase.needs =
      r.phase.needs + UrcEvent.needs (step n r b).2 := by
  obtain ⟨line, phase⟩ := r
  have hnone : (encodeAll (UrcEvent.urcs [])).length = 0 := rfl
  have hneeds : UrcEvent.needs [] = 0 := rfl
  cases phase with
  | text =>
    simp only [step]
    by_cases hsoh : b = sohChar
    · simp only [if_pos hsoh, ReadPhase.needs, hnone, hneeds]
    by_cases heol : isEol b = true
    · simp only [if_neg hsoh, if_pos heol, ReadPhase.needs, Nat.zero_add]
      exact lineEnd_needs line 0
    by_cases hprint : isprint b = true
    · simp only [if_neg hsoh, if_neg heol, if_pos hprint, ReadPhase.needs, hnone, hneeds]
    · simp only [if_neg hsoh, if_neg heol, if_neg hprint, ReadPhase.needs, hnone, hneeds]
  | length => rfl
  | length1 high =>
    simp only [step, ReadPhase.needs, Nat.zero_add]
    exact lineEnd_needs line (announcedLength high b)
  | payload urc data left =>
    have hleft : 0 < left := hr
    simp only [step]
    by_cases hlast : left ≤ 1
    · rw [if_pos hlast]
      cases urc with
      | none => simp [UrcEvent.urcs, UrcEvent.needs, ReadPhase.needs]
      | some l =>
        simp only [Option.map_some, Option.toList_some, UrcEvent.urcs, UrcEvent.needs, ReadPhase.needs,
          List.filterMap_cons, List.filterMap_nil, encodeAll_cons, encodeAll_nil, List.append_nil,
          Urc.length_encode, Urc.length_data, List.length_append, List.length_singleton, List.map_cons,
          List.map_nil, List.sum_cons, List.sum_nil]
        omega
    · rw [if_neg hlast]
      cases urc with
      | none => rfl
      | some l =>
        simp only [hnone, hneeds, ReadPhase.needs, List.length_append, List.length_singleton]
        omega

theorem lineEnd_pending (line : List UInt8) (length : Nat) : (lineEnd line length).1.phase.Pending := by
  unfold lineEnd
  by_cases hzero : length = 0
  · simp only [if_pos hzero]
    split <;> trivial
  · simp only [if_neg hzero]
    split <;> exact Nat.pos_of_ne_zero hzero

theorem step_pending (n : Nat) {r : UrcReader} (hr : r.phase.Pending) (b : UInt8) :
    (step n r b).1.phase.Pending := by
  obtain ⟨line, phase⟩ := r
  cases phase with
  | text =>
    simp only [step]
    by_cases hsoh : b = sohChar
    · rw [if_pos hsoh]
      trivial
    by_cases heol : isEol b = true
    · rw [if_neg hsoh, if_pos heol]
      exact lineEnd_pending line 0
    · rw [if_neg hsoh, if_neg heol]
      split <;> trivial
  | length => trivial
  | length1 high => exact lineEnd_pending line (announcedLength high b)
  | payload urc data left =>
    simp only [step]
    by_cases hlast : left ≤ 1
    · rw [if_pos hlast]
      trivial
    · rw [if_neg hlast]
      show 0 < left - 1
      omega

theorem read_pending (n : Nat) {r : UrcReader} (hr : r.phase.Pending) (bs : List UInt8) :
    (read n r bs).1.phase.Pending := by
  induction bs generalizing r with
  | nil => exact hr
  | cons b bs ih =>
    rw [read_cons]
    exact ih (step_pending n hr b)

/-- What a stream announces is complete or open at its end. -/
theorem read_needs (n : Nat) {r : UrcReader} (hr : r.phase.Pending) (bs : List UInt8) :
    (encodeAll (UrcEvent.urcs (read n r bs).2)).length + (read n r bs).1.phase.needs =
      r.phase.needs + UrcEvent.needs (read n r bs).2 := by
  induction bs generalizing r with
  | nil => exact Nat.add_comm _ _
  | cons b bs ih =>
    have hstep := step_needs n hr b
    have hrest := ih (step_pending n hr b)
    rw [read_cons, UrcEvent.urcs_append, UrcEvent.needs_append, encodeAll_append, List.length_append]
    simp only
    omega

/-- URCs without payloads are complete when they are announced, and no entry is open behind them. -/
theorem lineEnd_outside {line : List UInt8} {length : Nat}
    (hno : UrcEvent.NoPayload (lineEnd line length).2) : (lineEnd line length).1.phase.needs = 0 ∧
      UrcEvent.urcs (lineEnd line length).2 = UrcEvent.bareUrcs (lineEnd line length).2 := by
  unfold lineEnd at hno ⊢
  by_cases hzero : length = 0
  · simp only [if_pos hzero]
    split <;> exact ⟨rfl, rfl⟩
  · by_cases hurc : isUrcLine line = true
    · simp only [if_pos hurc, if_neg hzero] at hno
      exact absurd (hno _ List.mem_cons_self) hzero
    · simp only [if_neg hurc, if_neg hzero]
      exact ⟨rfl, rfl⟩

theorem step_outside (n : Nat) {r : UrcReader} (hr : r.phase.needs = 0) {b : UInt8}
    (hno : UrcEvent.NoPayload (step n r b).2) : (step n r b).1.phase.needs = 0 ∧
      UrcEvent.urcs (step n r b).2 = UrcEvent.bareUrcs (step n r b).2 := by
  obtain ⟨line, phase⟩ := r
  cases phase with
  | text =>
    simp only [step] at hno ⊢
    by_cases hsoh : b = sohChar
    · rw [if_pos hsoh]
      exact ⟨rfl, rfl⟩
    by_cases heol : isEol b = true
    · rw [if_neg hsoh, if_pos heol] at hno ⊢
      exact lineEnd_outside hno
    · rw [if_neg hsoh, if_neg heol]
      split <;> exact ⟨rfl, rfl⟩
  | length => exact ⟨rfl, rfl⟩
  | length1 high => exact lineEnd_outside hno
  | payload urc data left =>
    cases urc with
    | none =>
      simp only [step]
      split <;> exact ⟨rfl, rfl⟩
    | some l =>
      simp only [ReadPhase.needs] at hr
      omega

theorem read_outside (n : Nat) {r : UrcReader} (hr : r.phase.needs = 0) {bs : List UInt8}
    (hno : UrcEvent.NoPayload (read n r bs).2) : (read n r bs).1.phase.needs = 0 ∧
      UrcEvent.urcs (read n r bs).2 = UrcEvent.bareUrcs (read n r bs).2 := by
  induction bs generalizing r with
  | nil => exact ⟨hr, rfl⟩
  | cons b bs ih =>
    rw [read_cons, UrcEvent.noPayload_append] at hno
    obtain ⟨hphase, hstep⟩ := step_outside n hr hno.1
    obtain ⟨hlast, hrest⟩ := ih hphase hno.2
    refine ⟨hlast, ?_⟩
    rw [read_cons, UrcEvent.urcs_append, UrcEvent.bareUrcs_append, hstep, hrest]

end UrcReader

namespace AtState

/-- A line that is received by a client that executes no command. -/
theorem lineKind_idle (pExpectedRsp : Option (List UInt8)) (line : List UInt8) :
    lineKind false pExpectedRsp line = if isUrcLine line then .urc else .other := by
  unfold lineKind
  split
  · next hall =>
    rw [if_neg]
    intro hurc
    cases line with
    | nil => cases hurc
    | cons b line =>
      rw [List.all_cons, Bool.and_eq_true, decide_eq_true_eq] at hall
      rcases hall.1 with rfl | rfl <;> exact absurd hurc (by simp [isUrcLine]; decide)
  · rfl

/-- A client in a phase of the stream. -/
def InPhase (s : AtState) : ReadPhase → Prop
  | .text => s.client.isBinaryRx = false ∧ s.client.binaryRx.rxHeaderCount = 0
  | .length => s.client.isBinaryRx = true ∧ s.client.binaryRx.rxHeaderCount = 0
  | .length1 high => s.client.isBinaryRx = true ∧ s.client.binaryRx.rxHeaderCount = 1 ∧ s.lengthBuf.1 = high
  | .payload _ _ left =>
    s.client.isBinaryRx = true ∧ 2 ≤ s.client.binaryRx.rxHeaderCount ∧
      s.client.binaryRx.remainingDataBytes = left ∧ 0 < left ∧ s.client.binaryRx.state ≠ .rsp

/-- A client that executes no command, where the reader is. -/
structure Reads (n : Nat) (r : UrcReader) (s : AtState) : Prop where
  idle : s.client.executingCmd = false
  size : s.client.rxBufferLen = n
  line : s.client.rxBuffer = r.line
  phase : s.InPhase r.phase

section
variable {t n : Nat} {s : AtState} {r : UrcReader}

/-! ## The start of a transfer -/

/-- The queue behind a line that is not accepted. -/
def refusedQueue (t : Nat) (c : AtClient) : UrcQueue :=
  if isUrcLine c.rxBuffer then c.lineQueue t else c.urcQueue

theorem parseLine_refused (t : Nat) {c : AtClient} (hidle : c.executingCmd = false)
    (hno : isUrcLine c.rxBuffer = true → c.urcQueue.hasSpaceFor c.rxBuffer.length = false) :
    c.parseLine t c.rxBuffer = ({ c with urcQueue := refusedQueue t c }, .nop) := by
  have hk : lineKind c.executingCmd c.pExpectedRsp c.rxBuffer =
      if isUrcLine c.rxBuffer then .urc else .other := by rw [hidle, lineKind_idle]
  rw [parseLine_eq, hk, refusedQueue]
  by_cases hurc : isUrcLine c.rxBuffer = true
  · rw [if_pos hurc, if_pos hurc, onLine, enqueueBegin_fst, hno hurc]
    rfl
  · rw [if_neg hurc, if_neg hurc]
    rfl

/-- The payload of a line that is not accepted is flushed. -/
theorem startTransfer_refused (t : Nat) (hidle : s.client.executingCmd = false)
    (hno : isUrcLine s.client.rxBuffer = true →
      s.client.urcQueue.hasSpaceFor s.client.rxBuffer.length = false) (high low : UInt8) :
    (s.withLength high low).startTransfer t =
      binaryRxNext t (s.started high low (refusedQueue t s.client) .flush .null 0) := by
  obtain ⟨m, hm, hnext⟩ := (s.withLength high low).startTransfer_eq t
    (parseLine_refused t (c := (s.withLength high low).client) hidle hno)
  rw [hnext, ← hm]
  rfl

/-- A transfer that begins while no command is executing. -/
theorem startTransfer_idle (t : Nat) (hidle : s.client.executingCmd = false) (high low : UInt8) :
    ∃ q st dest size, st ≠ BinaryState.rsp ∧ (s.withLength high low).startTransfer t =
      binaryRxNext t (s.started high low q st dest size) := by
  by_cases hno : isUrcLine s.client.rxBuffer = true →
      s.client.urcQueue.hasSpaceFor s.client.rxBuffer.length = false
  · exact ⟨_, .flush, _, _, nofun, startTransfer_refused t hidle hno high low⟩
  · obtain ⟨hurc, hs⟩ := Classical.not_imp.1 hno
    have hk : s.client.bufferedKind = .urc := by
      rw [AtClient.bufferedKind, hidle, lineKind_idle, if_pos hurc]
    rw [startTransfer_urc t hk (by simpa using hs)]
    dsimp only
    split
    · exact ⟨_, .urc, _, _, nofun, rfl⟩
    · exact ⟨_, .flush, _, _, nofun, rfl⟩

/-! ## One byte -/

theorem lineEnd_line (line : List UInt8) (length : Nat) : (UrcReader.lineEnd line length).1.line = [] := by
  unfold UrcReader.lineEnd
  split
  · split <;> rfl
  · rfl

/-- The phase behind a line depends on the length of the payload alone. -/
theorem inPhase_lineEnd {line : List UInt8} {length : Nat} (hzero : length = 0 → s.InPhase .text)
    (hpos : 0 < length → ∀ urc, s.InPhase (.payload urc [] length)) :
    s.InPhase (UrcReader.lineEnd line length).1.phase := by
  unfold UrcReader.lineEnd
  by_cases h : length = 0
  · rw [if_pos h, if_pos h]
    split <;> exact hzero h
  · rw [if_neg h, if_neg h]
    split <;> exact hpos (Nat.pos_of_ne_zero h) _

/-- The end of a transfer. -/
theorem inPhase_done (t : Nat) (s : AtState) : (s.binaryRxDone t).1.InPhase .text :=
  ⟨(s.binaryRxDone_client t).1, (s.binaryRxDone_ok t).idle (s.binaryRxDone_client t).1⟩

theorem rxBuffer_binaryRxNext (t : Nat) (s : AtState) :
    (s.binaryRxNext t).1.client.rxBuffer = s.client.rxBuffer := by
  rcases s.binaryRxNext_cases t with ⟨-, heq⟩ | ⟨-, heq⟩
  · rw [heq]
  · rw [heq]
    simp only [binaryRxDone]
    split <;> rfl

/-- The phase behind the length of a transfer. -/
theorem inPhase_started (t : Nat) (s : AtState) (high low : UInt8) (q : UrcQueue) {st : BinaryState}
    (hst : st ≠ .rsp) (dest : BinaryDest) (size : Nat) (line : List UInt8) :
    (binaryRxNext t (s.started high low q st dest size)).1.InPhase
      (UrcReader.lineEnd line (announcedLength high low)).1.phase := by
  rcases binaryRxNext_cases t (s.started high low q st dest size) with ⟨hpos, heq⟩ | ⟨hzero, heq⟩
  · rw [heq]
    refine inPhase_lineEnd (fun h => ?_) fun h _ => ⟨rfl, Nat.le_refl 2, rfl, h, hst⟩
    exact absurd h (Nat.ne_of_gt hpos)
  · rw [heq]
    refine inPhase_lineEnd (fun _ => inPhase_done t _) fun h => ?_
    exact absurd hzero (Nat.ne_of_gt h)

/-- The first length byte. -/
theorem rxByte_length (t : Nat) (hbin : s.client.isBinaryRx = true)
    (hcount : s.client.binaryRx.rxHeaderCount = 0) (b : UInt8) :
    (rxByte t s b).1 = s.storeHeader [b] ∧
      (s.storeHeader [b]).client.binaryRx.rxHeaderCount = 1 := by
  have hone : (s.storeHeader [b]).client.binaryRx.rxHeaderCount = 1 := by
    simp only [storeHeader, hcount, List.length_singleton]
  refine ⟨?_, hone⟩
  rw [rxByte, rxStep_header hbin (by omega), readHeader, if_pos (by omega)]

/-- The second length byte. -/
theorem rxByte_length1 (t : Nat) (hbin : s.client.isBinaryRx = true)
    (hcount : s.client.binaryRx.rxHeaderCount = 1) {high : UInt8} (hhigh : s.lengthBuf.1 = high)
    (low : UInt8) : (rxByte t s low).1 = ((s.withLength high low).startTransfer t).1 := by
  have hheader : s.storeHeader [low] = s.withLength high low := by
    simp only [storeHeader, withLength, hcount, storeLengthBuf, hhigh, ← hbin, List.length_singleton]
  rw [rxByte, rxStep_header hbin (by omega), readHeader, hheader, if_neg (by simp [withLength])]

/-- A byte of a payload. -/
theorem rxByte_payload (t : Nat) (hbin : s.client.isBinaryRx = true)
    (hge : 2 ≤ s.client.binaryRx.rxHeaderCount) (b : UInt8) :
    (rxByte t s b).1 = ((s.takePayload [b]).binaryRxNext t).1 := by
  rw [rxByte, rxStep_payload hbin hge, readPayload, if_neg (List.cons_ne_nil b [])]

/-- **A byte takes the client where it takes the reader.** -/
theorem rxByte_reads (h : Reads n r s) (b : UInt8) :
    Reads n (UrcReader.step n r b).1 (rxByte t s b).1 := by
  have hsetup := (rxStep_effect t s (.got [b])).setup
  have hidle : (rxByte t s b).1.client.executingCmd = false :=
    (congrArg Setup.executingCmd hsetup).trans h.idle
  have hsize : (rxByte t s b).1.client.rxBufferLen = n :=
    (congrArg Setup.rxBufferLen hsetup).trans h.size
  suffices hplace : (rxByte t s b).1.client.rxBuffer = (UrcReader.step n r b).1.line ∧
      (rxByte t s b).1.InPhase (UrcReader.step n r b).1.phase from ⟨hidle, hsize, hplace.1, hplace.2⟩
  obtain ⟨line, phase⟩ := r
  have hline : s.client.rxBuffer = line := h.line
  have hphase := h.phase
  cases phase with
  | text =>
    obtain ⟨hchar, hcount⟩ := hphase
    by_cases hsoh : b = sohChar
    · subst hsoh
      rw [rxByte, rxStep_char hchar, readChar_soh]
      exact ⟨hline, rfl, hcount⟩
    by_cases heol : isEol b = true
    · rcases hp : s.client.parseLine t s.client.rxBuffer with ⟨c, ret⟩
      obtain ⟨-, hbin, hrx⟩ := parseLine_setup hp
      rw [rxByte, rxStep_char hchar, readChar_eol t s heol, hp]
      simp only [UrcReader.step, if_neg hsoh, if_pos heol, lineEnd_line]
      refine ⟨?_, inPhase_lineEnd (fun _ => ⟨?_, ?_⟩) fun h => absurd h (Nat.lt_irrefl 0)⟩
      · unfold lineDone
        split <;> rfl
      · simp only [isBinaryRx_lineDone]
        exact hbin.trans hchar
      · simp only [binaryRx_lineDone]
        rw [hrx]
        exact hcount
    · rw [rxByte_text t hchar hsoh (by simpa using heol)]
      simp only [UrcReader.step, if_neg hsoh, if_neg heol]
      by_cases hprint : isprint b = true
      · rw [if_pos hprint, if_pos hprint, h.size, ← hline]
        exact ⟨rfl, hchar, hcount⟩
      · rw [if_neg hprint, if_neg hprint]
        exact ⟨hline, hchar, hcount⟩
  | length =>
    obtain ⟨hbin, hcount⟩ := hphase
    obtain ⟨heq, hone⟩ := rxByte_length t hbin hcount b
    rw [heq]
    refine ⟨hline, hbin, hone, ?_⟩
    simp only [storeHeader, hcount, storeLengthBuf]
  | length1 high =>
    obtain ⟨hbin, hcount, hhigh⟩ := hphase
    obtain ⟨q, st, dest, size, hst, hstart⟩ := startTransfer_idle t h.idle high b
    rw [rxByte_length1 t hbin hcount hhigh, hstart]
    simp only [UrcReader.step, lineEnd_line]
    exact ⟨rxBuffer_binaryRxNext t _, inPhase_started t s high b q hst dest size line⟩
  | payload urc data left =>
    obtain ⟨hbin, hge, hleft, hpos, hst⟩ := hphase
    obtain ⟨-, h1, h2, h3, -⟩ := s.takePayload_client [b]
    have hremaining := s.takePayload_remaining [b]
    rw [hleft, List.length_singleton] at hremaining
    have hempty : (s.takePayload [b]).client.rxBuffer = s.client.rxBuffer := by
      obtain ⟨_, _, heq⟩ := s.takePayload_client_eq [b]
      rw [heq]
    rw [rxByte_payload t hbin hge]
    have hrx := (rxBuffer_binaryRxNext t (s.takePayload [b])).trans hempty
    simp only [UrcReader.step]
    rcases (s.takePayload [b]).binaryRxNext_cases t with ⟨hmore, heq⟩ | ⟨hdone, heq⟩
    · rw [if_neg (by omega)]
      refine ⟨hrx.trans hline, ?_⟩
      rw [heq]
      exact ⟨h1.trans hbin, h2 ▸ hge, hremaining, by omega, h3 ▸ hst⟩
    · rw [if_pos (by omega)]
      refine ⟨hrx.trans hline, ?_⟩
      rw [heq]
      exact inPhase_done t _

end

end AtState
