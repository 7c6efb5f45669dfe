import UcxClient.Client.Calls
import UcxClient.Client.RxFacts

/-!
# Receiving from states that are alike

`AtState.Alike` relates two states in which a command is executing that awaits no response: they agree
on what decides about the status of the command and the URCs, but not on what earlier commands left
behind in `pExpectedRsp` and `rspBinaryBuf`. A read is `Disturbed` if it completes a line about which
these decide. Every other read keeps the states alike and changes no memory (`Alike.rxStep`), and so
does the whole loop of `cmdEnd` (`Alike.endLoop`).
-/

open ByteMem UrcQueue

/-! ## Queues that are alike -/

namespace UrcQueue

/-- The queues hold the same bytes, up to `n` bytes behind the used part. -/
structure SameQueue (n : Nat) (q q' : UrcQueue) : Prop where
  bufferLen : q.bufferLen = q'.bufferLen
  bufferPos : q.bufferPos = q'.bufferPos
  bytes : AgreeBelow (q.bufferPos + n) q.pBuffer q'.pBuffer

namespace SameQueue

variable {n : Nat} {q q' : UrcQueue}

theorem mono (h : SameQueue n q q') {k : Nat} (hk : k ≤ n) : SameQueue k q q' :=
  ⟨h.bufferLen, h.bufferPos, h.bytes.mono (by omega)⟩

theorem getUnusedBuf (h : SameQueue n q q') : q.getUnusedBuf = q'.getUnusedBuf := by
  rw [UrcQueue.getUnusedBuf, UrcQueue.getUnusedBuf, h.bufferLen, h.bufferPos]

theorem hasSpaceFor (h : SameQueue n q q') (k : Nat) : q.hasSpaceFor k = q'.hasSpaceFor k := by
  rw [UrcQueue.hasSpaceFor, UrcQueue.hasSpaceFor, h.getUnusedBuf]

theorem enqueueBegin (h : SameQueue 0 q q') (t : Nat) (line : List UInt8) :
    (uCxAtUrcQueueEnqueueBegin t q line).1 = (uCxAtUrcQueueEnqueueBegin t q' line).1 ∧
    SameQueue 0 (uCxAtUrcQueueEnqueueBegin t q line).2 (uCxAtUrcQueueEnqueueBegin t q' line).2 := by
  have hsp := h.hasSpaceFor line.length
  rw [enqueueBegin_fst, enqueueBegin_fst]
  refine ⟨hsp, ?_⟩
  cases hq : q.hasSpaceFor line.length with
  | true =>
    obtain ⟨h1, -, h2, h3⟩ := enqueueBegin_accepted (t := t) hq
    obtain ⟨h1', -, h2', h3'⟩ := enqueueBegin_accepted (t := t) (hsp.symm.trans hq)
    refine ⟨by rw [h2, h2', h.bufferLen], by rw [h3, h3', h.bufferPos], ?_⟩
    rw [h1, h1', h3, Nat.add_zero, ← h.bufferPos]
    exact h.bytes.store_next (newEntry line)
  | false =>
    obtain ⟨h1, h2, h3⟩ := enqueueBegin_refused_bytes t hq
    obtain ⟨h1', h2', h3'⟩ := enqueueBegin_refused_bytes t (hsp.symm.trans hq)
    exact ⟨by rw [h2, h2', h.bufferLen], by rw [h3, h3', h.bufferPos], by rw [h1, h1', h3]; exact h.bytes⟩

/-- The payload becomes part of the used bytes. -/
theorem enqueueEnd (h : SameQueue n q q') (he : q.pEnqueueEntry = q'.pEnqueueEntry) (t : Nat) :
    SameQueue 0 (uCxAtUrcQueueEnqueueEnd t q n) (uCxAtUrcQueueEnqueueEnd t q' n) := by
  refine ⟨by simp [uCxAtUrcQueueEnqueueEnd, h.bufferLen],
    by simp [uCxAtUrcQueueEnqueueEnd, h.bufferPos], ?_⟩
  have := h.bytes.store (q.pEnqueueEntry.getD 0 + 2) (u16Bytes n)
  simpa [uCxAtUrcQueueEnqueueEnd, he] using this

/-- The space of an entry is given back. -/
theorem enqueueAbort (h : SameQueue n q q') (he : q.pEnqueueEntry = q'.pEnqueueEntry)
    (hle : q.pEnqueueEntry.getD 0 ≤ q.bufferPos) (t : Nat) :
    SameQueue 0 (uCxAtUrcQueueEnqueueAbort t q) (uCxAtUrcQueueEnqueueAbort t q') := by
  refine ⟨by simp [uCxAtUrcQueueEnqueueAbort, h.bufferLen],
    by simp [uCxAtUrcQueueEnqueueAbort, he], ?_⟩
  have := h.bytes.mono (show q.pEnqueueEntry.getD 0 ≤ q.bufferPos + n by omega)
  simpa [uCxAtUrcQueueEnqueueAbort] using this

end SameQueue

/-- The payload of an accepted line that fits goes right behind the bytes in use. -/
theorem payloadPtr_accepted {t : Nat} {q : UrcQueue} {line : List UInt8}
    (hs : q.hasSpaceFor line.length = true) (hlen : line.length < 65536)
    (hfit : q.bufferPos + (newEntry line).length ≤ q.pBuffer.length) :
    (uCxAtUrcQueueEnqueueGetPayloadPtr (uCxAtUrcQueueEnqueueBegin t q line).2).1 =
      (uCxAtUrcQueueEnqueueBegin t q line).2.bufferPos := by
  obtain ⟨h1, h2, -, h3⟩ := enqueueBegin_accepted (t := t) hs
  have hsplit : store q.pBuffer q.bufferPos (newEntry line) = q.pBuffer.take q.bufferPos ++
      newEntry line ++ q.pBuffer.drop (q.bufferPos + (newEntry line).length) := by
    have := store_mid (q.pBuffer.take q.bufferPos)
      ((q.pBuffer.drop q.bufferPos).take (newEntry line).length)
      (q.pBuffer.drop (q.bufferPos + (newEntry line).length)) (newEntry line) q.bufferPos
      (by rw [List.length_take]; omega) (by rw [List.length_take, List.length_drop]; omega)
    rw [List.append_assoc, ← List.drop_drop, List.take_append_drop, List.take_append_drop] at this
    rw [this, List.drop_drop]
  have hlenEq : (uCxAtUrcQueueEnqueueBegin t q line).2.strLineLen q.bufferPos = line.length := by
    rw [strLineLen, h1, hsplit, newEntry]
    have := getU16_u16Bytes (q.pBuffer.take q.bufferPos)
      (u16Bytes 0 ++ line ++ [0] ++ q.pBuffer.drop (q.bufferPos + (newEntry line).length))
      line.length q.bufferPos (by rw [List.length_take]; omega) hlen
    simpa [List.append_assoc, newEntry] using this
  rw [uCxAtUrcQueueEnqueueGetPayloadPtr, h2, Option.getD_some, hlenEq, h3, length_newEntry]
  simp only [sizeofUrcEntry]
  omega

end UrcQueue

/-! ## Clients that are alike -/

/-- The same kind of line, but for the parameters of a response. -/
def LineKind.Same : LineKind → LineKind → Prop
  | .rsp _, .rsp _ => True
  | k, k' => k = k'

def LineKind.isRsp : LineKind → Bool
  | .rsp _ => true
  | _ => false

theorem LineKind.isRsp_iff (k : LineKind) : k.isRsp = true ↔ ∃ p, k = .rsp p := by
  cases k <;> simp [isRsp]

theorem LineKind.Same.refl (k : LineKind) : k.Same k := by
  cases k with
  | rsp p => trivial
  | _ => rfl

namespace AtClient

/-- Two clients that execute a command, alike in what the command depends on while it receives text.
Of the bytes behind the used part of the URC buffer, `n` are the same. -/
structure Alike (n : Nat) (c c' : AtClient) : Prop where
  executing : c.executingCmd = true
  executing' : c'.executingCmd = true
  rxBufferLen : c.rxBufferLen = c'.rxBufferLen
  rxBuffer : c.rxBuffer = c'.rxBuffer
  cmdStartTime : c.cmdStartTime = c'.cmdStartTime
  cmdTimeout : c.cmdTimeout = c'.cmdTimeout
  status : c.status = c'.status
  isBinaryRx : c.isBinaryRx = c'.isBinaryRx
  rxHeaderCount : c.binaryRx.rxHeaderCount = c'.binaryRx.rxHeaderCount
  urcQueue : SameQueue n c.urcQueue c'.urcQueue

/-- The records of a transfer whose payload is received. -/
structure AlikeRx (c c' : AtClient) : Prop where
  state : c.binaryRx.state = c'.binaryRx.state
  remaining : c.binaryRx.remainingDataBytes = c'.binaryRx.remainingDataBytes
  /-- the payload of a URC goes behind the used part of the URC buffer -/
  urc : c.binaryRx.state = .urc → c.binaryRx = c'.binaryRx ∧
    c.binaryRx.pBuffer = .urcBuffer c.urcQueue.bufferPos ∧
    c.urcQueue.pEnqueueEntry = c'.urcQueue.pEnqueueEntry
  /-- no other payload is stored -/
  full : c.binaryRx.state ≠ .urc → c.binaryRx.bufferSize ≤ c.binaryRx.bufferPos ∧
    c'.binaryRx.bufferSize ≤ c'.binaryRx.bufferPos
  noLength : c.binaryRx.state = .rsp → c.rspBinaryBuf.pBufferLength = none ∧
    c'.rspBinaryBuf.pBufferLength = none

/-- The payload bytes of a URC that have been received. -/
def urcReceived (c : AtClient) : Nat := if c.Receiving .urc then c.binaryRx.bufferPos else 0

/-- The line is taken for a response only because of the prefix that is expected. -/
def Stolen (c : AtClient) : Prop :=
  expectedBy c.pExpectedRsp c.rxBuffer = true ∧
  (lineKind c.executingCmd none c.rxBuffer).isRsp = false

instance (c : AtClient) : Decidable c.Stolen := inferInstanceAs (Decidable (_ ∧ _))

/-- The queue accepts the line, but the line does not fit or its length is no `uint16_t`. -/
def Overlong (c : AtClient) : Prop :=
  c.bufferedKind = .urc ∧ c.urcQueue.hasSpaceFor c.rxBuffer.length = true ∧
  (65536 ≤ c.rxBuffer.length ∨
    c.urcQueue.pBuffer.length < c.urcQueue.bufferPos + (newEntry c.rxBuffer).length)

instance (c : AtClient) : Decidable c.Overlong := inferInstanceAs (Decidable (_ ∧ _ ∧ (_ ∨ _)))

/-- What is expected changes only which lines are responses. -/
theorem lineKind_eq {p : Option (List UInt8)} {line : List UInt8}
    (h : expectedBy p line = false) : lineKind true p line = lineKind true none line := by
  unfold lineKind cmdKind
  rw [h]
  rfl

theorem lineKind_expected {p : Option (List UInt8)} {line : List UInt8} (h : expectedBy p line = true)
    (hne : (lineKind true none line).isRsp = true) : ∃ q, lineKind true p line = .rsp q := by
  obtain ⟨q, hq⟩ := (LineKind.isRsp_iff _).1 hne
  unfold lineKind at hq ⊢
  split at hq
  · cases hq
  · rename_i hall
    simp only [↓reduceIte, cmdKind, h] at hq ⊢
    exact ⟨_, if_neg hall⟩

theorem bufferedKind_same {n : Nat} {c c' : AtClient} (h : Alike n c c') (hs : ¬c.Stolen)
    (hs' : ¬c'.Stolen) : LineKind.Same c.bufferedKind c'.bufferedKind := by
  have key : ∀ d : AtClient, d.executingCmd = true → ¬d.Stolen →
      LineKind.Same d.bufferedKind (lineKind true none d.rxBuffer) ∧
      LineKind.Same (lineKind true none d.rxBuffer) d.bufferedKind := by
    intro d hx hd
    unfold bufferedKind
    rw [hx]
    cases he : expectedBy d.pExpectedRsp d.rxBuffer with
    | false =>
      rw [lineKind_eq he]
      exact ⟨.refl _, .refl _⟩
    | true =>
      have hq : (lineKind true none d.rxBuffer).isRsp = true := by
        apply Classical.byContradiction
        intro hno
        exact hd ⟨he, by rw [hx]; simpa using hno⟩
      obtain ⟨q', hq'⟩ := lineKind_expected he hq
      obtain ⟨q, hq⟩ := (LineKind.isRsp_iff _).1 hq
      rw [hq, hq']
      exact ⟨trivial, trivial⟩
  have h1 := (key c h.executing hs).1
  have h2 := (key c' h.executing' hs').2
  rw [← h.rxBuffer] at h2
  revert h1 h2
  cases c.bufferedKind <;> cases c'.bufferedKind <;> cases lineKind true none c.rxBuffer <;>
    simp +contextual [LineKind.Same]

/-! ## A line -/

section
variable {n : Nat} {c c' : AtClient} {t : Nat}

theorem Alike.parseLine (h : Alike 0 c c') (hk : LineKind.Same c.bufferedKind c'.bufferedKind)
    (t : Nat) : (c.parseLine t c.rxBuffer).2 = (c'.parseLine t c'.rxBuffer).2 ∧
      Alike 0 (c.parseLine t c.rxBuffer).1 (c'.parseLine t c'.rxBuffer).1 := by
  obtain ⟨h1, h2, h3, h4, h5, h6, h7, h8, h9, h10⟩ := h
  have hq := h10.enqueueBegin t c.rxBuffer
  rw [parseLine_eq, parseLine_eq]
  unfold bufferedKind at hk
  rw [h4] at hk hq ⊢
  rcases hk1 : lineKind c.executingCmd c.pExpectedRsp c'.rxBuffer with v | p | _ | _ <;>
    rcases hk2 : lineKind c'.executingCmd c'.pExpectedRsp c'.rxBuffer with v' | p' | _ | _ <;>
    rw [hk1, hk2] at hk <;> try cases hk
  · exact ⟨rfl, h1, h2, h3, h4, h5, h6, rfl, h8, h9, h10⟩
  · exact ⟨rfl, h1, h2, h3, h4, h5, h6, h7, h8, h9, h10⟩
  · simp only [onLine, hq.1]
    exact ⟨trivial, h1, h2, h3, h4, h5, h6, h7, h8, h9, hq.2⟩
  · exact ⟨rfl, h1, h2, h3, h4, h5, h6, h7, h8, h9, h10⟩

/-- The entry that a URC line opens. -/
theorem parseLine_gotUrc {line : List UInt8} (h : (c.parseLine t line).2 = .gotUrc) :
    lineKind c.executingCmd c.pExpectedRsp line = .urc ∧
    c.urcQueue.hasSpaceFor line.length = true ∧
    (c.parseLine t line).1.urcQueue = (uCxAtUrcQueueEnqueueBegin t c.urcQueue line).2 := by
  rw [parseLine_eq] at h ⊢
  cases hk : lineKind c.executingCmd c.pExpectedRsp line with
  | urc =>
    rw [hk] at h
    refine ⟨rfl, ?_, rfl⟩
    rw [← enqueueBegin_fst t]
    simp only [onLine] at h
    split at h
    · assumption
    · cases h
  | _ => rw [hk] at h; cases h

theorem Alike.entry (h : Alike 0 c c') (hr : (c.parseLine t c.rxBuffer).2 = .gotUrc)
    (hr' : (c'.parseLine t c'.rxBuffer).2 = .gotUrc) :
    (c.parseLine t c.rxBuffer).1.urcQueue.pEnqueueEntry = some c.urcQueue.bufferPos ∧
    (c'.parseLine t c'.rxBuffer).1.urcQueue.pEnqueueEntry = some c.urcQueue.bufferPos := by
  obtain ⟨-, hs, hq⟩ := parseLine_gotUrc hr
  obtain ⟨-, hs', hq'⟩ := parseLine_gotUrc hr'
  rw [hq, hq', h.urcQueue.bufferPos]
  exact ⟨h.urcQueue.bufferPos ▸ (enqueueBegin_accepted hs).2.1, (enqueueBegin_accepted hs').2.1⟩

theorem Alike.lineDone (h : Alike 0 c c') (hk : LineKind.Same c.bufferedKind c'.bufferedKind)
    (t : Nat) : Alike 0 ((c.parseLine t c.rxBuffer).1.lineDone t (c.parseLine t c.rxBuffer).2)
      ((c'.parseLine t c'.rxBuffer).1.lineDone t (c'.parseLine t c'.rxBuffer).2) := by
  obtain ⟨hret, hp⟩ := h.parseLine hk t
  unfold AtClient.lineDone
  rw [← hret]
  obtain ⟨h1, h2, h3, h4, h5, h6, h7, h8, h9, h10⟩ := hp
  split
  · next hu =>
    have he := h.entry hu (hret.symm.trans hu)
    exact ⟨h1, h2, h3, rfl, h5, h6, h7, h8, h9, h10.enqueueEnd (he.1.trans he.2.symm) t⟩
  · exact ⟨h1, h2, h3, rfl, h5, h6, h7, h8, h9, h10⟩

end

end AtClient

/-! ## States that are alike -/

namespace AtState

open AtClient

structure Alike (s s' : AtState) : Prop where
  client : AtClient.Alike s.client.urcReceived s.client s'.client
  idle : s.client.isBinaryRx = false → s.client.binaryRx.rxHeaderCount = 0
  header : s.client.isBinaryRx = true → s.client.binaryRx.rxHeaderCount = 1 →
    s.lengthBuf.1 = s'.lengthBuf.1
  transfer : s.client.isBinaryRx = true → 2 ≤ s.client.binaryRx.rxHeaderCount →
    AlikeRx s.client s'.client

/-- What an earlier command left behind decides about the line that the read completes. -/
def Disturbed (s : AtState) (r : ReadStatus) : Prop :=
  s.LineEnds r ∧ (s.client.Stolen ∨ s.client.Overlong ∨
    (s.client.isBinaryRx = true ∧ s.client.bufferedKind.isRsp = true ∧
      s.client.rspBinaryBuf.pBufferLength ≠ none))

instance (s : AtState) (r : ReadStatus) : Decidable (s.Disturbed r) :=
  inferInstanceAs (Decidable (_ ∧ (_ ∨ _ ∨ (_ ∧ _ ∧ _))))

/-- What the two states do with a read is alike, and changes no memory. -/
def SameStep (s s' : AtState) (x x' : AtState × Option ParserCode) : Prop :=
  x.2 = x'.2 ∧ Alike x.1 x'.1 ∧ x.1.mem = s.mem ∧ x'.1.mem = s'.mem

theorem urcReceived_of_not_binary {c : AtClient} (h : c.isBinaryRx = false) : c.urcReceived = 0 := by
  apply if_neg
  intro hr
  exact nomatch h.symm.trans hr.1

theorem urcReceived_of_header {c : AtClient} (h : c.binaryRx.rxHeaderCount < 2) :
    c.urcReceived = 0 := by
  apply if_neg
  intro hr
  have := hr.2.1
  omega

theorem alike_of_not_binary {s s' : AtState} (h : AtClient.Alike 0 s.client s'.client)
    (hb : s.client.isBinaryRx = false) (hc : s.client.binaryRx.rxHeaderCount = 0) : Alike s s' := by
  refine ⟨by rw [urcReceived_of_not_binary hb]; exact h, fun _ => hc, fun hb' => ?_, fun hb' => ?_⟩ <;>
  · rw [hb] at hb'; cases hb'

section
variable {s s' : AtState} {t : Nat}

theorem Alike.wants (h : Alike s s') : s.wants = s'.wants := by
  have hb := h.client.isBinaryRx
  have hc := h.client.rxHeaderCount
  simp only [AtState.wants, ← hb, ← hc]
  by_cases hbin : s.client.isBinaryRx = true
  · simp only [hbin, Bool.not_true, Bool.false_eq_true, ↓reduceIte]
    split
    · rfl
    · next hge =>
      have hx := h.transfer hbin (Nat.not_lt.1 hge)
      rw [← hx.remaining]
      unfold remainingBuf
      by_cases hu : s.client.binaryRx.state = .urc
      · rw [(hx.urc hu).1]
      · obtain ⟨h1, h2⟩ := hx.full hu
        rw [if_neg (by omega), if_neg (by omega)]
  · simp [hbin]

/-! ## One read -/

/-- In the middle of a payload of a URC its bytes are received. -/
theorem urcReceived_of_receiving {c : AtClient} (hbin : c.isBinaryRx = true)
    (hge : 2 ≤ c.binaryRx.rxHeaderCount) (hu : c.binaryRx.state = .urc) :
    c.urcReceived = c.binaryRx.bufferPos := if_pos ⟨hbin, hge, hu⟩

theorem urcReceived_of_other {c : AtClient} (hu : c.binaryRx.state ≠ .urc) : c.urcReceived = 0 := by
  apply if_neg
  intro hr
  exact hu hr.2.2

/-- While the payload of a URC is received. -/
theorem alike_of_urc (h : AtClient.Alike s.client.binaryRx.bufferPos s.client s'.client)
    (hbin : s.client.isBinaryRx = true) (hge : 2 ≤ s.client.binaryRx.rxHeaderCount)
    (hu : s.client.binaryRx.state = .urc) (heq : s.client.binaryRx = s'.client.binaryRx)
    (hptr : s.client.binaryRx.pBuffer = .urcBuffer s.client.urcQueue.bufferPos)
    (hent : s.client.urcQueue.pEnqueueEntry = s'.client.urcQueue.pEnqueueEntry) : Alike s s' := by
  refine ⟨by rw [urcReceived_of_receiving hbin hge hu]; exact h, fun hb => ?_, fun _ hc => by omega,
    fun _ _ => ?_⟩
  · rw [hbin] at hb; cases hb
  exact ⟨by rw [heq], by rw [heq], fun _ => ⟨heq, hptr, hent⟩, fun hn => absurd hu hn,
    fun hn => nomatch hu.symm.trans hn⟩

/-- While another payload is received. -/
theorem alike_of_other (h : AtClient.Alike 0 s.client s'.client)
    (hbin : s.client.isBinaryRx = true) (hge : 2 ≤ s.client.binaryRx.rxHeaderCount)
    (hu : s.client.binaryRx.state ≠ .urc)
    (hst : s.client.binaryRx.state = s'.client.binaryRx.state)
    (hrem : s.client.binaryRx.remainingDataBytes = s'.client.binaryRx.remainingDataBytes)
    (hf : s.client.binaryRx.bufferSize ≤ s.client.binaryRx.bufferPos)
    (hf' : s'.client.binaryRx.bufferSize ≤ s'.client.binaryRx.bufferPos)
    (hl : s.client.binaryRx.state = .rsp → s.client.rspBinaryBuf.pBufferLength = none ∧
      s'.client.rspBinaryBuf.pBufferLength = none) : Alike s s' := by
  refine ⟨by rw [urcReceived_of_other hu]; exact h, fun hb => ?_, fun _ hc => by omega,
    fun _ _ => ?_⟩
  · rw [hbin] at hb; cases hb
  exact ⟨hst, hrem, fun hn => absurd hn hu, fun _ => ⟨hf, hf'⟩, hl⟩

theorem Alike.takePayload (h : Alike s s') (hbin : s.client.isBinaryRx = true)
    (hge : 2 ≤ s.client.binaryRx.rxHeaderCount) (bytes : List UInt8) :
    Alike (s.takePayload bytes) (s'.takePayload bytes) ∧ (s.takePayload bytes).mem = s.mem ∧
      (s'.takePayload bytes).mem = s'.mem := by
  have hx := h.transfer hbin hge
  obtain ⟨h1, h2, h3, h4, h5, h6, h7, h8, h9, h10⟩ := h.client
  by_cases hu : s.client.binaryRx.state = .urc
  · obtain ⟨heq, hptr, hent⟩ := hx.urc hu
    rw [urcReceived_of_receiving hbin hge hu] at h10
    have hrem : s.remainingBuf = s'.remainingBuf := by unfold remainingBuf; rw [heq]
    by_cases hr : 0 < s.remainingBuf
    · have hr' : 0 < s'.remainingBuf := hrem ▸ hr
      have hb := h10.bytes.store_next bytes
      rw [Nat.add_assoc] at hb
      simp only [AtState.takePayload, hr, hr', decide_true, ↓reduceIte, storePayload, hptr, ← heq]
      exact ⟨alike_of_urc ⟨h1, h2, h3, h4, h5, h6, h7, h8, rfl, ⟨h10.bufferLen, h10.bufferPos, hb⟩⟩
        hbin hge hu rfl hptr hent, trivial, trivial⟩
    · have hr' : ¬0 < s'.remainingBuf := hrem ▸ hr
      simp only [AtState.takePayload, hr, hr', decide_false, Bool.false_eq_true, ↓reduceIte, ← heq]
      exact ⟨alike_of_urc ⟨h1, h2, h3, h4, h5, h6, h7, h8, rfl, h10⟩ hbin hge hu rfl hptr hent,
        trivial, trivial⟩
  · obtain ⟨hf, hf'⟩ := hx.full hu
    have hr : ¬0 < s.remainingBuf := by unfold remainingBuf; omega
    have hr' : ¬0 < s'.remainingBuf := by unfold remainingBuf; omega
    rw [urcReceived_of_other hu] at h10
    simp only [AtState.takePayload, hr, hr', decide_false, Bool.false_eq_true, ↓reduceIte]
    exact ⟨alike_of_other ⟨h1, h2, h3, h4, h5, h6, h7, h8, h9, h10⟩ hbin hge hu hx.state
      (by simp only [BinaryRx.advance, hx.remaining]) hf hf' hx.noLength, trivial, trivial⟩

theorem setLength_none (m : CallerMem) (n : Nat) : m.setLength none n = m := by
  simp [CallerMem.setLength]

theorem Alike.binaryRxNext (h : Alike s s') (hbin : s.client.isBinaryRx = true)
    (hge : 2 ≤ s.client.binaryRx.rxHeaderCount) (t : Nat) :
    SameStep s s' (s.binaryRxNext t) (s'.binaryRxNext t) := by
  have hx := h.transfer hbin hge
  unfold AtState.binaryRxNext
  rw [← hx.remaining]
  split
  · exact ⟨rfl, h, rfl, rfl⟩
  · obtain ⟨h1, h2, h3, h4, h5, h6, h7, h8, h9, h10⟩ := h.client
    cases hst : s.client.binaryRx.state with
    | rsp =>
      have hst' := hx.state.symm.trans hst
      obtain ⟨hl, hl'⟩ := hx.noLength hst
      simp only [binaryRxDone, hst, hst', hl, hl', setLength_none]
      rw [urcReceived_of_other (by simp [hst])] at h10
      exact ⟨rfl, alike_of_not_binary ⟨h1, h2, h3, h4, h5, h6, h7, rfl, rfl, h10⟩ rfl rfl, rfl, rfl⟩
    | urc =>
      obtain ⟨heq, -, hent⟩ := hx.urc hst
      rw [urcReceived_of_receiving hbin hge hst] at h10
      have hq := h10.enqueueEnd hent t
      simp only [binaryRxDone, hst, ← heq]
      exact ⟨rfl, alike_of_not_binary ⟨h1, h2, h3, h4, h5, h6, h7, rfl, rfl, hq⟩ rfl rfl, rfl, rfl⟩
    | flush =>
      have hst' := hx.state.symm.trans hst
      simp only [binaryRxDone, hst, hst']
      rw [urcReceived_of_other (by simp [hst])] at h10
      exact ⟨rfl, alike_of_not_binary ⟨h1, h2, h3, h4, h5, h6, h7, rfl, rfl, h10⟩ rfl rfl, rfl, rfl⟩

/-- The receiver after the line of a transfer, once the transfer has been set up. -/
theorem setupBinaryTransfer_alike {c c' : AtClient} (h : AtClient.Alike 0 c c')
    (hbin : c.isBinaryRx = true) (hge : 2 ≤ c.binaryRx.rxHeaderCount) {ret : ParserCode}
    (hrsp : ret = .gotRsp → c.rspBinaryBuf.pBufferLength = none ∧
      c'.rspBinaryBuf.pBufferLength = none)
    (hurc : ret = .gotUrc → c.urcQueue.pEnqueueEntry = c'.urcQueue.pEnqueueEntry ∧
      c.urcQueue.pEnqueueEntry.getD 0 ≤ c.urcQueue.bufferPos ∧
      (uCxAtUrcQueueEnqueueGetPayloadPtr c.urcQueue).1 = c.urcQueue.bufferPos ∧
      (uCxAtUrcQueueEnqueueGetPayloadPtr c'.urcQueue).1 = c.urcQueue.bufferPos) (t n : Nat)
    (hs : s.client = c) (hs' : s'.client = c') :
    Alike (AtState.setupBinaryTransfer t s ret n) (AtState.setupBinaryTransfer t s' ret n) ∧
      (AtState.setupBinaryTransfer t s ret n).mem = s.mem ∧
      (AtState.setupBinaryTransfer t s' ret n).mem = s'.mem := by
  subst hs hs'
  obtain ⟨h1, h2, h3, h4, h5, h6, h7, h8, h9, h10⟩ := h
  have flush : ∀ {q q' : UrcQueue}, SameQueue 0 q q' →
      Alike { s with client := { s.client with urcQueue := q }.setupBinaryRxBuffer .flush .null 0 n }
        { s' with client :=
          { s'.client with urcQueue := q' }.setupBinaryRxBuffer .flush .null 0 n } := by
    intro q q' hq
    exact alike_of_other ⟨h1, h2, h3, h4, h5, h6, h7, h8, h9, hq⟩ hbin hge (by rintro ⟨⟩) rfl rfl
      (Nat.le_refl 0) (Nat.le_refl 0) (by rintro ⟨⟩)
  cases ret with
  | gotRsp =>
    obtain ⟨hl, hl'⟩ := hrsp rfl
    simp only [AtState.setupBinaryTransfer, hl, hl', setLength_none]
    exact ⟨alike_of_other ⟨h1, h2, h3, h4, h5, h6, h7, h8, h9, h10⟩ hbin hge (by rintro ⟨⟩) rfl rfl
      (Nat.le_refl 0) (Nat.le_refl 0) fun _ => ⟨hl, hl'⟩, trivial, trivial⟩
  | gotUrc =>
    obtain ⟨he, hle, hptr, hptr'⟩ := hurc rfl
    have hlen : (uCxAtUrcQueueEnqueueGetPayloadPtr s.client.urcQueue).2 =
        (uCxAtUrcQueueEnqueueGetPayloadPtr s'.client.urcQueue).2 := by
      simp only [uCxAtUrcQueueEnqueueGetPayloadPtr, h10.getUnusedBuf]
    simp only [AtState.setupBinaryTransfer, ← hlen, hptr']
    rw [hptr]
    split
    · exact ⟨alike_of_urc ⟨h1, h2, h3, h4, h5, h6, h7, h8, h9, h10⟩ hbin hge rfl
        (by simp only [setupBinaryRxBuffer, h9]) rfl he, rfl, rfl⟩
    · exact ⟨flush (h10.enqueueAbort he hle t), rfl, rfl⟩
  | _ => exact ⟨flush h10, rfl, rfl⟩

/-- The length of a transfer, once both of its bytes are there. -/
theorem storeLengthBuf_eq {lb lb' : UInt8 × UInt8} {n : Nat} {bytes : List UInt8} (hn : n < 2)
    (hge : 2 ≤ n + bytes.length) (h : n = 1 → lb.1 = lb'.1) :
    storeLengthBuf lb n bytes = storeLengthBuf lb' n bytes := by
  rcases n with _ | _ | n
  · rcases bytes with _ | ⟨b, _ | ⟨b', bs⟩⟩
    · simp at hge
    · simp at hge
    · rfl
  · rcases bytes with _ | ⟨b, bs⟩
    · simp at hge
    · simp only [storeLengthBuf, h rfl]
  · omega

/-- The entry that the line of a transfer opens. -/
theorem urc_entry {c : AtClient} (ho : ¬c.Overlong) (hr : (c.parseLine t c.rxBuffer).2 = .gotUrc) :
    (c.parseLine t c.rxBuffer).1.urcQueue.pEnqueueEntry = some c.urcQueue.bufferPos ∧
    c.urcQueue.bufferPos ≤ (c.parseLine t c.rxBuffer).1.urcQueue.bufferPos ∧
    (uCxAtUrcQueueEnqueueGetPayloadPtr (c.parseLine t c.rxBuffer).1.urcQueue).1 =
      (c.parseLine t c.rxBuffer).1.urcQueue.bufferPos := by
  obtain ⟨hk, hs, hq⟩ := parseLine_gotUrc hr
  obtain ⟨-, he, -, hpos⟩ := enqueueBegin_accepted (t := t) hs
  rw [hq]
  refine ⟨he, by omega, payloadPtr_accepted hs ?_ ?_⟩
  · apply Classical.byContradiction
    intro hl
    exact ho ⟨hk, hs, .inl (by omega)⟩
  · apply Classical.byContradiction
    intro hl
    exact ho ⟨hk, hs, .inr (by omega)⟩

theorem Alike.clearLine (h : Alike s s') :
    Alike { s with client := { s.client with rxBuffer := [] } }
      { s' with client := { s'.client with rxBuffer := [] } } := by
  obtain ⟨⟨h1, h2, h3, h4, h5, h6, h7, h8, h9, h10⟩, hi, hh, hx⟩ := h
  refine ⟨⟨h1, h2, h3, rfl, h5, h6, h7, h8, h9, h10⟩, hi, hh, fun hbin hge => ?_⟩
  obtain ⟨x1, x2, x3, x4, x5⟩ := hx hbin hge
  exact ⟨x1, x2, x3, x4, x5⟩

theorem Alike.startTransfer (h : Alike s s') (hbin : s.client.isBinaryRx = true)
    {bytes : List UInt8} (hlt : s.client.binaryRx.rxHeaderCount < 2)
    (hge : 2 ≤ s.client.binaryRx.rxHeaderCount + bytes.length) (t : Nat)
    (hd : ¬s.Disturbed (.got bytes)) (hd' : ¬s'.Disturbed (.got bytes)) :
    SameStep s s' ((s.storeHeader bytes).startTransfer t) ((s'.storeHeader bytes).startTransfer t) := by
  have hbin' : s'.client.isBinaryRx = true := h.client.isBinaryRx.symm.trans hbin
  have hcount := h.client.rxHeaderCount
  have hends : s.LineEnds (.got bytes) := by simp only [LineEnds, hbin, ↓reduceIte]; exact ⟨hlt, hge⟩
  have hends' : s'.LineEnds (.got bytes) := by
    simp only [LineEnds, hbin', ↓reduceIte]
    exact ⟨hcount ▸ hlt, hcount ▸ hge⟩
  have hnot : ¬s.client.Stolen ∧ ¬s.client.Overlong := ⟨fun hx => hd ⟨hends, .inl hx⟩,
    fun hx => hd ⟨hends, .inr (.inl hx)⟩⟩
  have hnot' : ¬s'.client.Stolen ∧ ¬s'.client.Overlong := ⟨fun hx => hd' ⟨hends', .inl hx⟩,
    fun hx => hd' ⟨hends', .inr (.inl hx)⟩⟩
  have hk := bufferedKind_same h.client hnot.1 hnot'.1
  have hzero := urcReceived_of_header hlt
  have hcl : AtClient.Alike 0 (s.storeHeader bytes).client (s'.storeHeader bytes).client := by
    obtain ⟨h1, h2, h3, h4, h5, h6, h7, h8, h9, h10⟩ := h.client
    rw [hzero] at h10
    exact ⟨h1, h2, h3, h4, h5, h6, h7, h8, by simp only [AtState.storeHeader, h9], h10⟩
  obtain ⟨hret, hpar⟩ := hcl.parseLine hk t
  have hlb : (s.storeHeader bytes).lengthBuf = (s'.storeHeader bytes).lengthBuf := by
    simp only [AtState.storeHeader, ← hcount]
    exact storeLengthBuf_eq hlt hge (h.header hbin)
  rcases hp : (s.storeHeader bytes).client.parseLine t (s.storeHeader bytes).client.rxBuffer
    with ⟨c, ret⟩
  rcases hp' : (s'.storeHeader bytes).client.parseLine t (s'.storeHeader bytes).client.rxBuffer
    with ⟨c', ret'⟩
  rw [hp, hp'] at hret hpar
  obtain rfl : ret = ret' := hret
  obtain ⟨hset, hb, hr⟩ := parseLine_setup hp
  have hbuf : c.rspBinaryBuf = s.client.rspBinaryBuf := congrArg Setup.rspBinaryBuf hset
  have hbuf' : c'.rspBinaryBuf = s'.client.rspBinaryBuf :=
    congrArg Setup.rspBinaryBuf (parseLine_setup hp').1
  have hcount2 : 2 ≤ c.binaryRx.rxHeaderCount := by rw [hr]; exact hge
  have hbin2 : c.isBinaryRx = true := hb.trans hbin
  have hrsp : ret = .gotRsp → c.rspBinaryBuf.pBufferLength = none ∧
      c'.rspBinaryBuf.pBufferLength = none := by
    intro hret
    have hp2 := (LineKind.isRsp_iff _).2 <| (parseLine_gotRsp t _ _).1 ((congrArg Prod.snd hp).trans hret)
    have hp2' := (LineKind.isRsp_iff _).2 <| (parseLine_gotRsp t _ _).1 ((congrArg Prod.snd hp').trans hret)
    rw [hbuf, hbuf']
    constructor
    · apply Classical.byContradiction
      intro hl
      exact hd ⟨hends, .inr (.inr ⟨hbin, hp2, hl⟩)⟩
    · apply Classical.byContradiction
      intro hl
      exact hd' ⟨hends', .inr (.inr ⟨hbin', hp2', hl⟩)⟩
  have hurc : ret = .gotUrc → c.urcQueue.pEnqueueEntry = c'.urcQueue.pEnqueueEntry ∧
      c.urcQueue.pEnqueueEntry.getD 0 ≤ c.urcQueue.bufferPos ∧
      (uCxAtUrcQueueEnqueueGetPayloadPtr c.urcQueue).1 = c.urcQueue.bufferPos ∧
      (uCxAtUrcQueueEnqueueGetPayloadPtr c'.urcQueue).1 = c.urcQueue.bufferPos := by
    intro hret
    obtain ⟨e1, e2, e3⟩ := urc_entry (c := (s.storeHeader bytes).client) hnot.2 ((congrArg Prod.snd hp).trans hret)
    obtain ⟨e1', -, e3'⟩ := urc_entry (c := (s'.storeHeader bytes).client) hnot'.2
      ((congrArg Prod.snd hp').trans hret)
    rw [hp] at e1 e2 e3
    rw [hp'] at e1' e3'
    refine ⟨?_, by rw [e1]; exact e2, e3, e3'.trans hpar.urcQueue.bufferPos.symm⟩
    rw [e1, e1']
    exact congrArg some hcl.urcQueue.bufferPos
  obtain ⟨n, hn, he⟩ := (s.storeHeader bytes).startTransfer_eq t hp
  obtain ⟨n', hn', he'⟩ := (s'.storeHeader bytes).startTransfer_eq t hp'
  obtain rfl : n = n' := by rw [← hn, ← hn', hlb]
  obtain ⟨hal, hm, hm'⟩ := setupBinaryTransfer_alike hpar hbin2 hcount2 hrsp hurc t n
    (show { s.storeHeader bytes with client := c }.client = c from rfl)
    (show { s'.storeHeader bytes with client := c' }.client = c' from rfl)
  obtain ⟨hb3, hc3, -⟩ :=
    setupBinaryTransfer_client t { s.storeHeader bytes with client := c } ret n
  have hnext := hal.clearLine.binaryRxNext (hb3.trans hbin2) (by rw [← hc3] at hcount2; exact hcount2) t
  rw [he, he']
  exact ⟨hnext.1, hnext.2.1, hnext.2.2.1.trans hm, hnext.2.2.2.trans hm'⟩

/-- Before the length of a transfer is complete. -/
theorem alike_of_header (h : AtClient.Alike 0 s.client s'.client)
    (hbin : s.client.isBinaryRx = true) (hlt : s.client.binaryRx.rxHeaderCount < 2)
    (hlb : s.client.binaryRx.rxHeaderCount = 1 → s.lengthBuf.1 = s'.lengthBuf.1) : Alike s s' := by
  refine ⟨by rw [urcReceived_of_header hlt]; exact h, fun hb => ?_, fun _ => hlb, fun _ hge => by omega⟩
  rw [hbin] at hb
  cases hb

/-- After one length byte both states have it. -/
theorem storeHeader_lengthBuf {bytes : List UInt8}
    (hone : (s.storeHeader bytes).client.binaryRx.rxHeaderCount = 1)
    (hc : s.client.binaryRx.rxHeaderCount = s'.client.binaryRx.rxHeaderCount)
    (h : s.client.binaryRx.rxHeaderCount = 1 → s.lengthBuf.1 = s'.lengthBuf.1) :
    (s.storeHeader bytes).lengthBuf.1 = (s'.storeHeader bytes).lengthBuf.1 := by
  have hlen : s.client.binaryRx.rxHeaderCount + bytes.length = 1 := hone
  simp only [AtState.storeHeader, ← hc]
  rcases bytes with _ | ⟨b, bs⟩
  · rw [List.length_nil] at hlen
    exact h hlen
  · rw [List.length_cons] at hlen
    obtain rfl : bs = [] := List.eq_nil_of_length_eq_zero (by omega)
    rw [show s.client.binaryRx.rxHeaderCount = 0 by omega]
    rfl

/-- The line that the read completes is of one kind. -/
theorem Alike.kind (h : Alike s s') {r : ReadStatus} (hends : s.LineEnds r)
    (hd : ¬s.Disturbed r) (hd' : ¬s'.Disturbed r) :
    s'.LineEnds r ∧ LineKind.Same s.client.bufferedKind s'.client.bufferedKind := by
  have hends' : s'.LineEnds r := by
    cases r with
    | failed err => exact hends
    | got bytes =>
      unfold LineEnds at hends ⊢
      rw [← h.client.isBinaryRx, ← h.client.rxHeaderCount]
      exact hends
  refine ⟨hends', bufferedKind_same h.client ?_ ?_⟩
  · exact fun hx => hd ⟨hends, .inl hx⟩
  · exact fun hx => hd' ⟨hends', .inl hx⟩

theorem Alike.readChar (h : Alike s s') (hbin : s.client.isBinaryRx = false) (t : Nat)
    {bytes : List UInt8} (hd : ¬s.Disturbed (.got bytes)) (hd' : ¬s'.Disturbed (.got bytes)) :
    SameStep s s' (s.readChar t bytes) (s'.readChar t bytes) := by
  have hcount := h.idle hbin
  have hcl : AtClient.Alike 0 s.client s'.client := by
    have := h.client
    rwa [urcReceived_of_not_binary hbin] at this
  cases charRead bytes with
  | none hone =>
    rw [readChar_none t s hone, readChar_none t s' hone]
    exact ⟨rfl, h, rfl, rfl⟩
  | @eol b heol =>
    have hends : s.LineEnds (.got [b]) := by
      simp only [LineEnds, hbin, Bool.false_eq_true, ↓reduceIte]
      exact ⟨rfl, heol⟩
    have hk := (h.kind hends hd hd').2
    have hp : s.client.parseLine t s.client.rxBuffer = (_, _) := (Prod.eta _).symm
    obtain ⟨-, hb, hc⟩ := parseLine_setup hp
    rw [readChar_eol t s heol, readChar_eol t s' heol]
    refine ⟨congrArg lineRet (hcl.parseLine hk t).1, alike_of_not_binary (hcl.lineDone hk t) ?_ ?_,
      rfl, rfl⟩
    · rw [isBinaryRx_lineDone]; exact hb.trans hbin
    · rw [binaryRx_lineDone, hc]; exact hcount
  | soh =>
    obtain ⟨h1, h2, h3, h4, h5, h6, h7, h8, h9, h10⟩ := hcl
    exact ⟨rfl, alike_of_header ⟨h1, h2, h3, h4, h5, h6, h7, rfl, h9, h10⟩ rfl
      (show s.client.binaryRx.rxHeaderCount < 2 by omega)
      (fun hone => absurd (hcount.symm.trans hone) (by decide)), rfl, rfl⟩
  | print hpr =>
    obtain ⟨h1, h2, h3, h4, h5, h6, h7, h8, h9, h10⟩ := hcl
    rw [readChar_print t s hpr, readChar_print t s' hpr]
    refine ⟨rfl, alike_of_not_binary ⟨h1, h2, h3, ?_, h5, h6, h7, h8, h9, h10⟩ hbin hcount, rfl, rfl⟩
    simp only [h3, h4]
  | skip hsoh heol hpr =>
    rw [readChar_skip t s hsoh heol hpr, readChar_skip t s' hsoh heol hpr]
    exact ⟨rfl, h, rfl, rfl⟩

/-- **A read that is not disturbed.** -/
theorem Alike.rxStep (h : Alike s s') (t : Nat) {r : ReadStatus} (hd : ¬s.Disturbed r)
    (hd' : ¬s'.Disturbed r) : SameStep s s' (s.rxStep t r) (s'.rxStep t r) := by
  have hb := h.client.isBinaryRx
  have hc := h.client.rxHeaderCount
  cases r with
  | failed err =>
    obtain ⟨⟨h1, h2, h3, h4, h5, h6, h7, h8, h9, h10⟩, hi, hh, hx⟩ := h
    refine ⟨rfl, ⟨⟨h1, h2, h3, h4, h5, h6, rfl, h8, h9, h10⟩, hi, hh, fun hbin hge => ?_⟩, rfl, rfl⟩
    obtain ⟨x1, x2, x3, x4, x5⟩ := hx hbin hge
    exact ⟨x1, x2, x3, x4, x5⟩
  | got bytes =>
    simp only [AtState.rxStep, ← hb, ← hc]
    by_cases hbin : s.client.isBinaryRx = true
    · by_cases hlt : s.client.binaryRx.rxHeaderCount < 2
      · simp only [hbin, Bool.not_true, Bool.false_eq_true, hlt, ↓reduceIte, readHeader]
        by_cases hge : 2 ≤ s.client.binaryRx.rxHeaderCount + bytes.length
        · have hn : ¬(s.storeHeader bytes).client.binaryRx.rxHeaderCount < 2 := Nat.not_lt.2 hge
          have hn' : ¬(s'.storeHeader bytes).client.binaryRx.rxHeaderCount < 2 := by
            simp only [storeHeader]
            omega
          rw [if_neg hn, if_neg hn']
          exact h.startTransfer hbin hlt hge t hd hd'
        · have hn : (s.storeHeader bytes).client.binaryRx.rxHeaderCount < 2 := Nat.not_le.1 hge
          have hn' : (s'.storeHeader bytes).client.binaryRx.rxHeaderCount < 2 := by
            simp only [storeHeader]
            omega
          rw [if_pos hn, if_pos hn']
          obtain ⟨h1, h2, h3, h4, h5, h6, h7, h8, h9, h10⟩ := h.client
          rw [urcReceived_of_header hlt] at h10
          refine ⟨rfl, alike_of_header ⟨h1, h2, h3, h4, h5, h6, h7, h8, ?_, h10⟩ hbin hn ?_, rfl, rfl⟩
          · simp only [storeHeader, h9]
          · intro hone
            exact storeHeader_lengthBuf hone hc (h.header hbin)
      · simp only [hbin, Bool.not_true, Bool.false_eq_true, hlt, ↓reduceIte, readPayload]
        have hge := Nat.not_lt.1 hlt
        obtain ⟨hal, hm, hm'⟩ := h.takePayload hbin hge bytes
        obtain ⟨-, h1, h2, -⟩ := s.takePayload_client bytes
        split
        · exact ⟨rfl, hal, hm, hm'⟩
        · obtain ⟨k1, k2, k3, k4⟩ :=
            hal.binaryRxNext (h1.trans hbin) (by rw [h2]; exact hge) t
          exact ⟨k1, k2, k3.trans hm, k4.trans hm'⟩
    · have hfalse : s.client.isBinaryRx = false := by simpa using hbin
      simp only [hfalse, Bool.not_false, ↓reduceIte]
      exact h.readChar hfalse t hd hd'

end

/-! ## A whole command -/

/-- The reads that `handleRxData` makes, each with the state before it. -/
def rxReads (t : Nat) (s : AtState) (rx : List UInt8) : List Arrival → List (AtState × ReadStatus)
  | [] => []
  | a :: sched =>
    let (r, rx) := a.read rx s.wants
    (s, r) :: match s.rxStep t r with
      | (s, none) => rxReads t s rx sched
      | (_, some _) => []

/-- The reads of the loop of `cmdEnd`. -/
def endReads (t : Nat) (s : AtState) (uart : Uart) : List Int → List (AtState × ReadStatus)
  | [] => []
  | now :: clock =>
    if s.client.status = noStatus then
      s.rxReads t uart.rx uart.sched ++
        let (s, uart, _) := s.handleRxData t uart.rx uart.sched
        let (client, leave) := s.client.cmdEndCheck now
        if leave then [] else endReads t { s with client } uart clock
    else []

/-- The outcomes of two commands: the same status, the same URCs in the queue, the same input left,
and no memory has been changed. -/
def SameOutcome (m m' : CallerMem) (x x' : AtState × Host) : Prop :=
  x.1.client.status = x'.1.client.status ∧
  SameQueue 0 x.1.client.urcQueue x'.1.client.urcQueue ∧
  x.2 = x'.2 ∧ x.1.mem = m ∧ x'.1.mem = m'

section
variable {s s' : AtState} {t : Nat}

theorem Alike.handleRxData (h : Alike s s') {rx : List UInt8} {sched : List Arrival}
    (hd : ∀ p ∈ s.rxReads t rx sched, ¬p.1.Disturbed p.2)
    (hd' : ∀ p ∈ s'.rxReads t rx sched, ¬p.1.Disturbed p.2) :
    Alike (s.handleRxData t rx sched).1 (s'.handleRxData t rx sched).1 ∧
    (s.handleRxData t rx sched).2 = (s'.handleRxData t rx sched).2 ∧
    (s.handleRxData t rx sched).1.mem = s.mem ∧ (s'.handleRxData t rx sched).1.mem = s'.mem := by
  induction sched generalizing s s' rx with
  | nil => exact ⟨h, rfl, rfl, rfl⟩
  | cons a sched ih =>
    simp only [rxReads, AtState.handleRxData, ← h.wants] at hd hd' ⊢
    rcases hr : a.read rx s.wants with ⟨r, rx1⟩
    rw [hr] at hd hd'
    obtain ⟨hret, hal, hm, hm'⟩ := h.rxStep t (hd _ List.mem_cons_self) (hd' _ List.mem_cons_self)
    rcases hs : s.rxStep t r with ⟨s1, ret⟩
    rcases hs' : s'.rxStep t r with ⟨s1', ret'⟩
    rw [hs, hs'] at hret
    rw [hs] at hd hal hm
    rw [hs'] at hd' hal hm'
    obtain rfl : ret = ret' := hret
    cases ret with
    | none =>
      obtain ⟨k1, k2, k3, k4⟩ := ih hal (fun p hp => hd p (List.mem_cons_of_mem _ hp))
        fun p hp => hd' p (List.mem_cons_of_mem _ hp)
      exact ⟨k1, k2, k3.trans hm, k4.trans hm'⟩
    | some code => exact ⟨hal, rfl, hm, hm'⟩

theorem Alike.cmdEndCheck (h : Alike s s') (now : Int) :
    (s.client.cmdEndCheck now).2 = (s'.client.cmdEndCheck now).2 ∧
    Alike { s with client := (s.client.cmdEndCheck now).1 }
      { s' with client := (s'.client.cmdEndCheck now).1 } := by
  obtain ⟨⟨h1, h2, h3, h4, h5, h6, h7, h8, h9, h10⟩, hi, hh, hx⟩ := h
  have hto : s.client.timedOut now = s'.client.timedOut now := by
    rw [AtClient.timedOut, AtClient.timedOut, h5, h6]
  unfold AtClient.cmdEndCheck
  rw [hto]
  split
  · refine ⟨rfl, ⟨h1, h2, h3, h4, h5, h6, rfl, h8, h9, h10⟩, hi, hh, fun hbin hge => ?_⟩
    obtain ⟨x1, x2, x3, x4, x5⟩ := hx hbin hge
    exact ⟨x1, x2, x3, x4, x5⟩
  · exact ⟨by rw [h7], ⟨h1, h2, h3, h4, h5, h6, h7, h8, h9, h10⟩, hi, hh, hx⟩

theorem Alike.endLoop (h : Alike s s') {uart : Uart} {clock : List Int}
    (hd : ∀ p ∈ s.endReads t uart clock, ¬p.1.Disturbed p.2)
    (hd' : ∀ p ∈ s'.endReads t uart clock, ¬p.1.Disturbed p.2) :
    Option.Rel (SameOutcome s.mem s'.mem) (s.endLoop t uart clock) (s'.endLoop t uart clock) := by
  induction clock generalizing s s' uart with
  | nil =>
    simp only [AtState.endLoop, ← h.client.status]
    split
    · exact .none
    · exact .some ⟨h.client.status, h.client.urcQueue.mono (Nat.zero_le _), rfl, rfl, rfl⟩
  | cons now clock ih =>
    simp only [AtState.endLoop, endReads, ← h.client.status] at hd hd' ⊢
    split
    · next hst =>
      rw [if_pos hst] at hd hd'
      obtain ⟨hal, hu, hm, hm'⟩ := h.handleRxData (fun p hp => hd p (List.mem_append_left _ hp))
        fun p hp => hd' p (List.mem_append_left _ hp)
      rcases hs : s.handleRxData t uart.rx uart.sched with ⟨s1, uart1, ret⟩
      rcases hs' : s'.handleRxData t uart.rx uart.sched with ⟨s1', uart1', ret'⟩
      rw [hs] at hd hal hu hm
      rw [hs'] at hd' hal hu hm'
      obtain ⟨rfl, rfl⟩ := Prod.mk.inj hu
      obtain ⟨hleave, hal2⟩ := hal.cmdEndCheck now
      simp only [← hleave] at hd' ⊢
      split
      · exact .some ⟨hal2.client.status, hal2.client.urcQueue.mono (Nat.zero_le _), rfl, hm, hm'⟩
      · next hstay =>
        rw [if_neg hstay] at hd hd'
        have hrel := ih hal2 (fun p hp => hd p (List.mem_append_right _ hp))
          fun p hp => hd' p (List.mem_append_right _ hp)
        rw [← hm, ← hm']
        exact hrel
    · exact .some ⟨h.client.status, h.client.urcQueue.mono (Nat.zero_le _), rfl, rfl, rfl⟩

end

end AtState
