import UcxClient.Client.Awaited
import UcxClient.Client.Overlong
import UcxClient.Text.Framing

/-!
# The payload of a response

`LeavesRsp`: some input has left a response line in the line buffer. If a binary transfer follows, its
payload goes to the caller's buffer as far as this has room, in one part that is stored and one that is
discarded (`firstRsp_rspPayload`). `binary_rsp_captured`: whatever the reads bring, the call returns the
line only behind the whole payload, with the first bytes of it in the buffer and their number in the
length variable.
-/

open UrcQueue AtClient

namespace AtState

section
variable {t : Nat} {s : AtState}

/-! ## The bytes of a payload -/

/-- The end of the payload of a response. -/
theorem binaryRxNext_rsp (t : Nat) (hst : s.client.binaryRx.state = .rsp) : s.binaryRxNext t =
    if 0 < s.client.binaryRx.remainingDataBytes then (s, none)
    else ((s.binaryRxDone t).1, some .gotRsp) := by
  unfold binaryRxNext
  split
  · rfl
  · simp [binaryRxDone, hst]

/-- A part of the payload of a response that is read at once. -/
theorem firstRsp_take (h : s.client.Receiving .rsp) (hst : s.client.status = noStatus)
    {bytes : List UInt8} (hne : bytes ≠ []) (hle : bytes.length ≤ s.wants) (rest : List UInt8) :
    firstRsp t s (bytes ++ rest) =
      if bytes.length < s.client.binaryRx.remainingDataBytes then firstRsp t (s.takePayload bytes) rest
      else some (((s.takePayload bytes).binaryRxDone t).1, rest) := by
  obtain ⟨hbin, hge, hrsp⟩ := h
  obtain ⟨-, -, -, h3, -⟩ := s.takePayload_client bytes
  have hread := firstRsp_read (t := t) hst hle rest
  rw [rxStep_payload hbin hge, readPayload, if_neg hne, binaryRxNext_rsp t (h3.trans hrsp),
    takePayload_remaining] at hread
  rw [hread]
  by_cases hlt : bytes.length < s.client.binaryRx.remainingDataBytes
  · have hmore : 0 < s.client.binaryRx.remainingDataBytes - bytes.length := by omega
    simp only [hmore, hlt, if_true, reduceCtorEq, if_false]
  · have hdone : ¬0 < s.client.binaryRx.remainingDataBytes - bytes.length := by omega
    simp only [hdone, hlt, if_true, if_false]

/-- A payload for which there is no room. -/
theorem firstRsp_discard (h : s.client.Receiving .rsp) (hst : s.client.status = noStatus)
    (hroom : s.remainingBuf = 0) {bytes : List UInt8} (hne : bytes ≠ [])
    (hlen : s.client.binaryRx.remainingDataBytes = bytes.length) (rest : List UInt8) :
    firstRsp t s (bytes ++ rest) = some (((s.takePayload bytes).binaryRxDone t).1, rest) := by
  induction bytes generalizing s with
  | nil => exact absurd rfl hne
  | cons b bs ih =>
    rw [List.length_cons] at hlen
    have hwants : [b].length ≤ s.wants := by
      simp only [wants, h.1, Nat.not_lt.2 h.2.1, hroom, hlen, List.length_singleton]
      simp only [Bool.not_true, Bool.false_eq_true, if_false, Nat.lt_irrefl]
      omega
    have htake := firstRsp_take (t := t) h hst (List.cons_ne_nil b []) hwants (bs ++ rest)
    rw [hlen] at htake
    rw [show b :: bs ++ rest = [b] ++ (bs ++ rest) from rfl, htake]
    by_cases hbs : bs = []
    · subst hbs
      rfl
    · have hpos : 0 < bs.length := List.length_pos_iff.2 hbs
      obtain ⟨h0, h1, h2, h3, -⟩ := s.takePayload_client [b]
      have hsplit : s.takePayload (b :: bs) = (s.takePayload [b]).takePayload bs :=
        s.takePayload_cons b fun hr => by omega
      rw [if_pos (by rw [List.length_singleton]; omega), hsplit]
      refine ih ⟨h1.trans h.1, h2 ▸ h.2.1, h3.trans h.2.2⟩ (h0.trans hst) ?_ hbs ?_
      · rw [takePayload_remainingBuf, hroom, Nat.zero_sub]
      · rw [takePayload_remaining, hlen, List.length_singleton, Nat.add_sub_cancel]

/-- The state after the payload: what there is room for is stored, the rest is discarded. -/
def takeAll (s : AtState) (payload : List UInt8) : AtState :=
  (s.takePayload (payload.take s.remainingBuf)).takePayload (payload.drop s.remainingBuf)

/-- **The payload of a response.** -/
theorem firstRsp_rspPayload (h : s.client.Receiving .rsp) (hst : s.client.status = noStatus)
    {payload : List UInt8} (hne : payload ≠ [])
    (hlen : s.client.binaryRx.remainingDataBytes = payload.length) (rest : List UInt8) :
    firstRsp t s (payload ++ rest) = some (((s.takeAll payload).binaryRxDone t).1, rest) := by
  by_cases hroom : s.remainingBuf = 0
  · rw [takeAll, hroom, List.take_zero, List.drop_zero, takePayload_nil]
    exact firstRsp_discard h hst hroom hne hlen rest
  have hpos : 0 < s.remainingBuf := Nat.pos_of_ne_zero hroom
  have hwants : (payload.take s.remainingBuf).length ≤ s.wants := by
    simp only [wants, h.1, Nat.not_lt.2 h.2.1, hlen, List.length_take, hpos, if_true]
    simp
  have htake : payload.take s.remainingBuf ≠ [] := by
    rw [← List.length_pos_iff, List.length_take]
    have := List.length_pos_iff.2 hne
    omega
  have hsplit : payload ++ rest =
      payload.take s.remainingBuf ++ (payload.drop s.remainingBuf ++ rest) := by
    rw [← List.append_assoc, List.take_append_drop]
  rw [hsplit, firstRsp_take h hst htake hwants, hlen, takeAll]
  by_cases hfits : payload.length ≤ s.remainingBuf
  · rw [List.take_of_length_le hfits, if_neg (Nat.lt_irrefl _), List.drop_eq_nil_of_le hfits, takePayload_nil]
    rfl
  · -- the rest is discarded
    obtain ⟨h0, h1, h2, h3, -⟩ := s.takePayload_client (payload.take s.remainingBuf)
    have hdrop : payload.drop s.remainingBuf ≠ [] := by
      rw [← List.length_pos_iff, List.length_drop]
      omega
    rw [if_pos (by rw [List.length_take]; omega)]
    refine firstRsp_discard ⟨h1.trans h.1, h2 ▸ h.2.1, h3.trans h.2.2⟩ (h0.trans hst) ?_ hdrop ?_ rest
    · rw [takePayload_remainingBuf, List.length_take]
      omega
    · rw [takePayload_remaining, hlen, List.length_take, List.length_drop]
      omega

/-! ## The whole transfer -/

/-- The state behind the length of a transfer that belongs to a response with the parameters `p`. -/
def startedRsp (s : AtState) (p : List UInt8) (high low : UInt8) : AtState where
  client := { s.client with
    isBinaryRx := true
    pRspParams := some p
    rxBuffer := []
    binaryRx := {
      state := .rsp
      rxHeaderCount := 2
      remainingDataBytes := announcedLength high low
      pBuffer := (s.client.rspBinaryBuf.pBuffer.map BinaryDest.caller).getD .null
      bufferSize := (s.client.rspBinaryBuf.pBufferLength.map s.mem.length).getD 0
      bufferPos := 0 } }
  mem := s.mem.setLength s.client.rspBinaryBuf.pBufferLength 0
  lengthBuf := (high, low)

theorem firstRsp_header (hok : RxOk s.client) (hst : s.client.status = noStatus)
    (hchar : s.client.isBinaryRx = false) {p : List UInt8} (hk : s.client.bufferedKind = .rsp p)
    (high low : UInt8) (rest : List UInt8) :
    firstRsp t s (sohChar :: high :: low :: rest) =
      if 0 < announcedLength high low then firstRsp t (s.startedRsp p high low) rest
      else some (((s.startedRsp p high low).binaryRxDone t).1, rest) := by
  obtain ⟨s1, hs1⟩ : ∃ s1 : AtState, s1 = { s with client := { s.client with isBinaryRx := true } } :=
    ⟨_, rfl⟩
  have hcount : s1.client.binaryRx.rxHeaderCount = 0 := hs1 ▸ hok.idle hchar
  have hbin : s1.client.isBinaryRx = true := hs1 ▸ rfl
  have hsoh : firstRsp t s (sohChar :: high :: low :: rest) = firstRsp t s1 (high :: low :: rest) := by
    rw [firstRsp_cons hst, rxStep_char hchar, readChar_soh, if_neg nofun, hs1]
  obtain ⟨hwants, hlength⟩ := rxStep_length t hcount hbin high low
  have hread := firstRsp_read (t := t) (s := s1) (hs1 ▸ hst) hwants rest
  have hstart : s1.rxStep t (.got [high, low]) = (s.startedRsp p high low).binaryRxNext t := by
    obtain ⟨n, hn, hnext⟩ :=
      (s1.withLength high low).startTransfer_eq t (parseLine_rsp t (p := p) (hs1 ▸ hk))
    rw [hlength, hnext, ← hn, hs1]
    rfl
  rw [hsoh, show high :: low :: rest = [high, low] ++ rest from rfl, hread, hstart, binaryRxNext_rsp t rfl]
  by_cases hpos : 0 < announcedLength high low
  · have hpos' : 0 < (s.startedRsp p high low).client.binaryRx.remainingDataBytes := hpos
    simp only [hpos, hpos', if_true, reduceCtorEq, if_false]
  · have hpos' : ¬0 < (s.startedRsp p high low).client.binaryRx.remainingDataBytes := hpos
    simp only [hpos, hpos', if_true, if_false]

/-- **A response line with a binary transfer.** -/
theorem firstRsp_transfer (hok : RxOk s.client) (hst : s.client.status = noStatus)
    (hchar : s.client.isBinaryRx = false) {p : List UInt8} (hk : s.client.bufferedKind = .rsp p)
    {high low : UInt8} {payload : List UInt8} (hlen : payload.length = announcedLength high low)
    (rest : List UInt8) : firstRsp t s (sohChar :: high :: low :: (payload ++ rest)) =
      some ((((s.startedRsp p high low).takeAll payload).binaryRxDone t).1, rest) := by
  rw [firstRsp_header hok hst hchar hk]
  by_cases hpos : 0 < announcedLength high low
  · rw [if_pos hpos]
    refine firstRsp_rspPayload (s := s.startedRsp p high low) ⟨rfl, Nat.le_refl 2, rfl⟩ hst ?_ hlen.symm rest
    rw [← List.length_pos_iff, hlen]
    exact hpos
  · obtain rfl : payload = [] := List.length_eq_zero_iff.1 (by omega)
    rw [if_neg hpos, takeAll, List.take_nil, List.drop_nil, takePayload_nil, takePayload_nil]
    rfl

/-! ## What is in the caller's memory -/

/-- Where there is no room nothing is stored. -/
theorem takePayload_full (hroom : s.remainingBuf = 0) (bytes : List UInt8) :
    (s.takePayload bytes).mem = s.mem ∧
    (s.takePayload bytes).client.binaryRx.bufferPos = s.client.binaryRx.bufferPos := by
  rw [takePayload_discard (by omega)]
  exact ⟨rfl, rfl⟩

/-- What is behind the room changes neither the memory nor the position. -/
theorem takeAll_stored (s : AtState) (payload : List UInt8) :
    (s.takeAll payload).mem = (s.takePayload (payload.take s.remainingBuf)).mem ∧
    (s.takeAll payload).client.binaryRx.bufferPos =
      (s.takePayload (payload.take s.remainingBuf)).client.binaryRx.bufferPos := by
  unfold takeAll
  by_cases hfits : payload.length ≤ s.remainingBuf
  · rw [List.drop_eq_nil_of_le hfits, takePayload_nil]
    exact ⟨rfl, rfl⟩
  · refine takePayload_full ?_ _
    rw [takePayload_remainingBuf, List.length_take]
    omega

theorem takeAll_bufferPos (s : AtState) (payload : List UInt8) :
    (s.takeAll payload).client.binaryRx.bufferPos =
      s.client.binaryRx.bufferPos + min s.remainingBuf payload.length := by
  rw [(s.takeAll_stored payload).2]
  by_cases hroom : 0 < s.remainingBuf
  · rw [takePayload_store hroom, ← List.length_take]
  · have h0 : s.remainingBuf = 0 := by omega
    rw [(takePayload_full h0 _).2, h0, Nat.zero_min, Nat.add_zero]

/-- The part of the payload that there is room for is in the caller's buffer. -/
theorem takeAll_mem_caller {b : Nat} (hb : s.client.binaryRx.pBuffer = .caller b) (payload : List UInt8) :
    (s.takeAll payload).mem =
      s.mem.store b s.client.binaryRx.bufferPos (payload.take s.remainingBuf) := by
  rw [(s.takeAll_stored payload).1]
  by_cases hroom : 0 < s.remainingBuf
  · rw [takePayload_store hroom, storePayload, hb]
  · have h0 : s.remainingBuf = 0 := by omega
    rw [(takePayload_full h0 _).1, h0, List.take_zero, storeMem_nil]

theorem takeAll_mem_full (hroom : s.remainingBuf = 0) (payload : List UInt8) :
    (s.takeAll payload).mem = s.mem := by
  rw [(s.takeAll_stored payload).1, (takePayload_full hroom _).1]

/-- The room that a caller announces for a payload: none without a length variable. -/
def capacity (m : CallerMem) (buf : BinaryResponseBuf) : Nat := (buf.pBufferLength.map m.length).getD 0

/-- The buffer holds the first bytes of the payload, as many as there is room for, the length variable
their number, and no other byte or variable has changed. -/
def Captured (m m' : CallerMem) (buf : BinaryResponseBuf) (payload : List UInt8) : Prop :=
  (∀ b i, m'.bytes b i =
    if buf.pBuffer = some b ∧ i < min payload.length (capacity m buf) then payload.getD i 0
    else m.bytes b i) ∧
  ∀ v, m'.length v =
    if buf.pBufferLength = some v then min payload.length (capacity m buf) else m.length v

theorem takeAll_client_eq (s : AtState) (payload : List UInt8) : ∃ binaryRx urcQueue,
    (s.takeAll payload).client = { s.client with binaryRx, urcQueue } := by
  obtain ⟨_, _, h1⟩ := s.takePayload_client_eq (payload.take s.remainingBuf)
  obtain ⟨binaryRx, urcQueue, h2⟩ :=
    (s.takePayload (payload.take s.remainingBuf)).takePayload_client_eq (payload.drop s.remainingBuf)
  exact ⟨binaryRx, urcQueue, by rw [takeAll, h2, h1]⟩

theorem takeAll_state (s : AtState) (payload : List UInt8) :
    (s.takeAll payload).client.binaryRx.state = s.client.binaryRx.state := by
  obtain ⟨-, -, -, h1, -⟩ := s.takePayload_client (payload.take s.remainingBuf)
  obtain ⟨-, -, -, h2, -⟩ :=
    (s.takePayload (payload.take s.remainingBuf)).takePayload_client (payload.drop s.remainingBuf)
  exact h2.trans h1

theorem binaryRxDone_rsp (t : Nat) (hst : s.client.binaryRx.state = .rsp) :
    (s.binaryRxDone t).1.client.pRspParams = s.client.pRspParams ∧
    (s.binaryRxDone t).1.client.isBinaryRx = false ∧
    (s.binaryRxDone t).1.client.rxBuffer = s.client.rxBuffer ∧
    (s.binaryRxDone t).1.mem =
      s.mem.setLength s.client.rspBinaryBuf.pBufferLength s.client.binaryRx.bufferPos := by
  simp [binaryRxDone, hst]

/-- The memory behind the transfer. -/
theorem takeAll_captured (p : List UInt8) (high low : UInt8) (payload : List UInt8)
    (hbuf : s.client.rspBinaryBuf.pBuffer = none → capacity s.mem s.client.rspBinaryBuf = 0) :
    Captured s.mem
      (((s.startedRsp p high low).takeAll payload).mem.setLength s.client.rspBinaryBuf.pBufferLength
        (min payload.length (capacity s.mem s.client.rspBinaryBuf))) s.client.rspBinaryBuf payload := by
  have hroom : (s.startedRsp p high low).remainingBuf = capacity s.mem s.client.rspBinaryBuf := rfl
  have hmem : (s.startedRsp p high low).mem = s.mem.setLength s.client.rspBinaryBuf.pBufferLength 0 := rfl
  have hlength : ∀ m : CallerMem, m.length = (s.startedRsp p high low).mem.length → ∀ n v,
      (m.setLength s.client.rspBinaryBuf.pBufferLength n).length v =
        if s.client.rspBinaryBuf.pBufferLength = some v then n else s.mem.length v := by
    intro m hm n v
    simp only [CallerMem.setLength, hm, hmem]
    split <;> rfl
  cases hb : s.client.rspBinaryBuf.pBuffer with
  | none =>
    rw [takeAll_mem_full (hroom.trans (hbuf hb))]
    refine ⟨fun b i => ?_, hlength _ rfl _⟩
    rw [if_neg (by simp [hb])]
    rfl
  | some dest =>
    have hdest : (s.startedRsp p high low).client.binaryRx.pBuffer = .caller dest := by
      simp [startedRsp, hb]
    rw [takeAll_mem_caller hdest, hroom]
    refine ⟨fun b i => ?_, hlength _ rfl _⟩
    have hpos : (s.startedRsp p high low).client.binaryRx.bufferPos = 0 := rfl
    simp only [CallerMem.setLength, CallerMem.store, hpos, hmem, hb, List.length_take, Nat.zero_le,
      true_and, Nat.zero_add, Nat.sub_zero, Option.some.injEq]
    by_cases h : dest = b ∧ i < min payload.length (capacity s.mem s.client.rspBinaryBuf)
    · obtain ⟨rfl, hi⟩ := h
      rw [if_pos ⟨rfl, by omega⟩, if_pos ⟨rfl, hi⟩, List.getD_eq_getElem?_getD, List.getElem?_take,
        if_pos (by omega), List.getD_eq_getElem?_getD]
    · rw [if_neg h, if_neg]
      rintro ⟨rfl, hi⟩
      exact h ⟨rfl, by omega⟩

/-! ## The input before the transfer -/

/-- As long as no response line has come no memory of a caller changes. -/
theorem rxStep_mem (t : Nat) (hok : RxOk s.client) (hr : ¬s.client.Receiving .rsp) {b : UInt8}
    (hk : s.LineEnds (.got [b]) → ∀ p, s.client.bufferedKind ≠ .rsp p) :
    (s.rxStep t (.got [b])).1.mem = s.mem := by
  rcases (rxStep_effect t s (.got [b])).mem with h | ⟨hbin, hge, h⟩ | ⟨⟨⟨_, hbytes, hge⟩, hbin, hcount, p, hp⟩, -⟩
  · exact h
  · obtain ⟨hd, hv⟩ := destBuffer_lengthVar hok hbin hge fun hst => hr ⟨hbin, hge, hst⟩
    rw [hd, hv] at h
    exact h.eq
  · cases hbytes
    refine absurd hp (hk ?_ p)
    simp only [LineEnds, hbin, if_true]
    exact ⟨hcount, hge⟩

theorem rxByte_quiet {b : UInt8} (h : (rxByte t s b).2 = []) : (s.rxStep t (.got [b])).2 ≠ some .gotRsp := by
  intro hret
  simp only [rxByte, hret] at h
  cases h

/-- The payload of a response goes on as long as none is reported. -/
theorem rxBytes_receiving (h : s.client.Receiving .rsp) {bs : List UInt8} (hev : (rxBytes t s bs).2 = []) :
    (rxBytes t s bs).1.client.Receiving .rsp := by
  induction bs generalizing s with
  | nil => exact h
  | cons b bs ih =>
    obtain ⟨hev1, hev2⟩ := List.append_eq_nil_iff.1 hev
    obtain ⟨-, -, hmore⟩ := rxStep_receiving_rsp t h b
    exact ih (hmore (rxByte_quiet hev1)) hev2

/-- Bytes without a response leave the memory of the callers alone, unless they end within the payload of
one. -/
theorem rxBytes_mem (hok : RxOk s.client) (hr : ¬s.client.Receiving .rsp) {bs : List UInt8}
    (hev : (rxBytes t s bs).2 = []) :
    (rxBytes t s bs).1.client.Receiving .rsp ∨ (rxBytes t s bs).1.mem = s.mem := by
  induction bs generalizing s with
  | nil => exact .inr rfl
  | cons b bs ih =>
    obtain ⟨hev1, hev2⟩ := List.append_eq_nil_iff.1 hev
    by_cases hrsp : s.LineEnds (.got [b]) ∧ ∃ p, s.client.bufferedKind = .rsp p
    · obtain ⟨hends, p, hk⟩ := hrsp
      obtain ⟨-, hmore⟩ := rxStep_line_rsp t hends hk
      exact .inl (rxBytes_receiving (hmore (rxByte_quiet hev1)) hev2)
    · have hno : s.LineEnds (.got [b]) → ∀ p, s.client.bufferedKind ≠ .rsp p :=
        fun hends p hk => hrsp ⟨hends, p, hk⟩
      obtain ⟨-, hr'⟩ := rxStep_no_rsp t hok hr hno
      have hmem := rxStep_mem t hok hr hno
      rcases ih ((rxStep_effect t s (.got [b])).ok hok) hr' hev2 with h | h
      · exact .inl h
      · exact .inr (h.trans hmem)

/-- The bytes bring neither a response nor a status, and leave in the line buffer a response line with the
parameters `p`. -/
structure LeavesRsp (t : Nat) (s : AtState) (bs p : List UInt8) : Prop where
  quiet : (rxBytes t s bs).2 = []
  status : ∀ pre, pre <+: bs → (rxBytes t s pre).1.client.status = noStatus
  char : (rxBytes t s bs).1.client.isBinaryRx = false
  line : (rxBytes t s bs).1.client.bufferedKind = .rsp p

/-- The text of a response line is such bytes. -/
theorem leavesRsp_text (hst : s.client.status = noStatus) (hbin : s.client.isBinaryRx = false)
    (hbuf : s.client.rxBuffer = []) (hn : 0 < s.client.rxBufferLen) {bytes p : List UInt8}
    (htext : IsText bytes) (hk : lineKind s.client.executingCmd s.client.pExpectedRsp
      (leftOver s.client.rxBufferLen (bytes.filter isprint)) = .rsp p) : LeavesRsp t s bytes p := by
  have heq := rxBytes_text t hbin hbuf hn htext
  refine ⟨by rw [heq], fun pre hpre => ?_, by rw [heq]; exact hbin, by rw [heq]; exact hk⟩
  have htext' : IsText pre := fun b hb => htext b (hpre.subset hb)
  rw [rxBytes_text t hbin hbuf hn htext']
  exact hst

theorem LeavesRsp.not_receiving {bs p : List UInt8} (h : LeavesRsp t s bs p) :
    ¬s.client.Receiving .rsp := by
  intro hr
  have hbin := (rxBytes_receiving hr h.quiet).1
  rw [h.char] at hbin
  cases hbin

/-- The first response of such an input is the line with its transfer. -/
theorem firstRsp_leavesRsp (hok : RxOk s.client)
    (hbuf : s.client.rspBinaryBuf.pBuffer = none → capacity s.mem s.client.rspBinaryBuf = 0)
    {bs p : List UInt8} (hbs : LeavesRsp t s bs p) {high low : UInt8} {payload : List UInt8}
    (hlen : payload.length = announcedLength high low) (rest : List UInt8) :
    ∃ s', firstRsp t s (bs ++ sohChar :: high :: low :: (payload ++ rest)) = some (s', rest) ∧
      s'.client.pRspParams = some p ∧ s'.client.isBinaryRx = false ∧ s'.client.rxBuffer = [] ∧
      Captured s.mem s'.mem s.client.rspBinaryBuf payload := by
  obtain ⟨hsetup, hok'⟩ := rxBytes_setup_ok (t := t) hok bs
  have hbin := hbs.char
  have hmem : (rxBytes t s bs).1.mem = s.mem :=
    (rxBytes_mem hok hbs.not_receiving hbs.quiet).resolve_left fun h => by rw [h.1] at hbin; cases hbin
  have hrb : (rxBytes t s bs).1.client.rspBinaryBuf = s.client.rspBinaryBuf :=
    congrArg Setup.rspBinaryBuf hsetup
  have hfirst := firstRsp_transfer (t := t) hok' (hbs.status bs (List.prefix_refl bs)) hbin hbs.line hlen rest
  rw [← firstRsp_append hbs.quiet hbs.status] at hfirst
  have hcap := takeAll_captured (s := (rxBytes t s bs).1) p high low payload (by rw [hmem, hrb]; exact hbuf)
  rw [hmem, hrb] at hcap
  obtain ⟨h1, h2, h3, h4⟩ := binaryRxDone_rsp t
    ((((rxBytes t s bs).1.startedRsp p high low).takeAll_state payload).trans rfl)
  obtain ⟨_, _, hclient⟩ := ((rxBytes t s bs).1.startedRsp p high low).takeAll_client_eq payload
  refine ⟨_, hfirst, ?_, h2, ?_, ?_⟩
  · rw [h1, hclient]
    rfl
  · rw [h3, hclient]
    rfl
  · have hrb' : (((rxBytes t s bs).1.startedRsp p high low).takeAll payload).client.rspBinaryBuf =
        s.client.rspBinaryBuf := by
      rw [hclient]
      exact hrb
    have hpos : (((rxBytes t s bs).1.startedRsp p high low).takeAll payload).client.binaryRx.bufferPos =
        min payload.length (capacity s.mem s.client.rspBinaryBuf) := by
      rw [takeAll_bufferPos, Nat.min_comm, ← hmem, ← hrb]
      exact Nat.zero_add _
    rw [h4, hrb', hpos]
    exact hcap

/-- **Binary response capture.** Whatever the reads bring, the call returns the response line only when all
of the payload has been consumed, with its first bytes in the caller's buffer; the byte behind the
payload is the first of a new line. Without failed reads and timeouts the call returns nothing else, and it
returns if the reads deliver the input. A caller without a buffer announces no room. -/
theorem binary_rsp_captured (t : Nat) {s : AtState} (hok : RxOk s.client)
    (pExpectedRsp : Option (List UInt8)) {buf : BinaryResponseBuf}
    (hbuf : buf.pBuffer = none → capacity s.mem buf = 0) {bs p : List UInt8}
    (hbs : LeavesRsp t (s.expecting pExpectedRsp buf) bs p) {high low : UInt8} {payload : List UInt8}
    (hlen : payload.length = announcedLength high low) (rest : List UInt8) (sched : List Arrival)
    (clock : List Int) {input : List UInt8}
    (hinput : input = bs ++ sohChar :: high :: low :: (payload ++ rest)) :
    (∀ line s' h', s.uCxAtClientCmdGetRspParamLine t pExpectedRsp buf ⟨⟨input, sched⟩, clock⟩ =
        some (some line, s', h') → line = p ∧ h'.uart.rx = rest ∧ Captured s.mem s'.mem buf payload ∧
        s'.client.isBinaryRx = false ∧ s'.client.rxBuffer = []) ∧
    ((∀ a ∈ sched, ∃ n, a = .avail n) → (∀ now ∈ clock, s.client.timedOut now = false) →
      (∀ line s' h', s.uCxAtClientCmdGetRspParamLine t pExpectedRsp buf ⟨⟨input, sched⟩, clock⟩ =
        some (line, s', h') → line = some p) ∧
      (Transaction.Delivers input sched → sched.length ≤ clock.length →
        ∃ s' h', s.uCxAtClientCmdGetRspParamLine t pExpectedRsp buf ⟨⟨input, sched⟩, clock⟩ =
          some (some p, s', h'))) := by
  have hok' := rxOk_expecting hok pExpectedRsp buf
  obtain ⟨s2, hfirst, hparams, hchar, hline, hcap⟩ :=
    firstRsp_leavesRsp (s := s.expecting pExpectedRsp buf) hok' hbuf hbs hlen rest
  rw [← hinput] at hfirst
  refine ⟨?_, fun hgood htime => ⟨?_, ?_⟩⟩
  · intro line s' h' hcall
    obtain ⟨hfirst', hp⟩ := rspLoop_firstRsp (s := s.expecting pExpectedRsp buf) hcall
    obtain ⟨rfl, hrest⟩ := Prod.mk.inj (Option.some.inj (hfirst.symm.trans hfirst'))
    exact ⟨Option.some.inj (hp.symm.trans hparams), hrest.symm, hcap, hchar, hline⟩
  · intro line s' h' hcall
    rw [← hparams]
    exact rspLoop_good (s := s.expecting pExpectedRsp buf) hgood htime hfirst hcall
  · intro hd hclock
    obtain ⟨h', hcall, -⟩ := rspLoop_of_firstRsp hok' hd hclock htime hfirst
    rw [hparams] at hcall
    exact ⟨s2, h', hcall⟩

end

/-- A command whose caller has 4 bytes for a payload. -/
def roomForFour : AtState := { inCommand with mem := ⟨fun _ _ => 0, fun _ => 4⟩ }

/-- A response with a payload of 6 bytes, and a status line. -/
def sixBytes : List UInt8 := text "+R:" ++ sohChar :: 0 :: 6 :: (text "abcdef" ++ text "OK\r")

/-- Of a payload of 6 bytes the first 4 are stored. -/
theorem binary_rsp_captured_four : ∃ s' h', roomForFour.uCxAtClientCmdGetRspParamLine 0 (some (text "+R:"))
      ⟨some 0, some 0⟩ (input sixBytes) = some (some [], s', h') ∧ h'.uart.rx = text "OK\r" ∧
    Captured roomForFour.mem s'.mem ⟨some 0, some 0⟩ (text "abcdef") := by
  have hleaves : LeavesRsp 0 (roomForFour.expecting (some (text "+R:")) ⟨some 0, some 0⟩)
      (text "+R:") [] :=
    leavesRsp_text rfl rfl rfl (by decide) (by decide +kernel) (by decide +kernel)
  have hlen : (text "abcdef").length = announcedLength 0 6 := by decide
  have htime : ∀ now ∈ sixBytes.map fun _ => (0 : Int), roomForFour.client.timedOut now = false := by
    intro now hnow
    obtain ⟨-, -, rfl⟩ := List.mem_map.1 hnow
    decide
  have hdelivers := Transaction.delivers_map sixBytes
  obtain ⟨hsafe, hlive⟩ := binary_rsp_captured 0 (s := roomForFour) (rxOk_of_not_binary rfl rfl)
    (some (text "+R:")) (fun h => absurd h (Option.some_ne_none 0)) hleaves hlen (text "OK\r")
    (sixBytes.map fun _ => .avail 1)
    (sixBytes.map fun _ => 0) rfl
  obtain ⟨s', h', hcall⟩ := (hlive hdelivers.1 htime).2 hdelivers (by simp)
  obtain ⟨-, hrest, hcap, -⟩ := hsafe _ s' h' hcall
  exact ⟨s', h', hcall, hrest, hcap⟩

end AtState
