import UcxClient.Client.Alike
import UcxClient.Client.ByteWise

/-!
# What earlier commands leave in a client

`Left` are the fields in which a client that has been in use differs from a fresh one between two
lines. `Twin` relates the two, as long as neither of them is in a transfer that the other is not in.
`Twin.rxStep`: a read keeps that and has the same result, unless the expected prefix or the response
buffer that are left over decide about the line that it completes (`LeftDecides`). Once
`uCxAtClientCmdGetRspParamLine` has been called (`asked`), both clients expect the same and no read is
excepted.
-/

open UrcQueue

/-- The fields of a client that calls leave behind. -/
structure Left where
  status : Int
  lastIoError : Int
  cmdStartTime : Int
  pRspParams : Option (List UInt8)
  pExpectedRsp : Option (List UInt8)
  rspBinaryBuf : BinaryResponseBuf
  binaryRx : BinaryRx

def Left.setupBinaryRxBuffer (l : Left) (state : BinaryState) (pBuffer : BinaryDest)
    (bufferSize remainingBytes : Nat) : Left :=
  { l with binaryRx := { l.binaryRx with
      bufferPos := 0, pBuffer, bufferSize, state, remainingDataBytes := remainingBytes } }

namespace AtClient

def withLeft (c : AtClient) (l : Left) : AtClient :=
  { c with
    status := l.status
    lastIoError := l.lastIoError
    cmdStartTime := l.cmdStartTime
    pRspParams := l.pRspParams
    pExpectedRsp := l.pExpectedRsp
    rspBinaryBuf := l.rspBinaryBuf
    binaryRx := l.binaryRx }

/-- The records of one transfer. Where nothing is stored, it does not matter where it would go. -/
structure SameRx (c : AtClient) (l : Left) : Prop where
  place : ∃ pBuffer, l.binaryRx = { c.binaryRx with pBuffer } ∧
    (0 < c.binaryRx.bufferSize → pBuffer = c.binaryRx.pBuffer)
  lengthVar : c.binaryRx.state = .rsp →
    l.rspBinaryBuf.pBufferLength = c.rspBinaryBuf.pBufferLength

/-- What the fields `l` have in common with those of `c`. -/
structure Fits (asked : Bool) (c : AtClient) (l : Left) : Prop where
  count : l.binaryRx.rxHeaderCount = c.binaryRx.rxHeaderCount
  begun : c.executingCmd = true → l.status = c.status ∧ l.cmdStartTime = c.cmdStartTime
  fresh : asked = false → l.pExpectedRsp = none ∧ l.rspBinaryBuf.pBufferLength = none
  asked : asked = true → l.pRspParams = c.pRspParams ∧ l.pExpectedRsp = c.pExpectedRsp ∧
    l.rspBinaryBuf = c.rspBinaryBuf

end AtClient

namespace AtState

open AtClient

def withLeft (s : AtState) (l : Left) : AtState := { s with client := s.client.withLeft l }

/-- The states differ only in what is left over, and they are in the same transfer, if in any. -/
def Twin (asked : Bool) (s s' : AtState) : Prop :=
  ∃ l, s' = s.withLeft l ∧ s.client.Fits asked l ∧
    (s.client.isBinaryRx = true → 2 ≤ s.client.binaryRx.rxHeaderCount → s.client.SameRx l)

/-- The read completes a line, and what is left over decides what becomes of it. -/
def LeftDecides (s : AtState) (r : ReadStatus) : Prop :=
  s.LineEnds r ∧ s.client.executingCmd = true ∧ (s.client.Stolen ∨
    (s.client.isBinaryRx = true ∧ s.client.bufferedKind.isRsp = true ∧
      s.client.rspBinaryBuf.pBufferLength ≠ none))

instance (s : AtState) (r : ReadStatus) : Decidable (s.LeftDecides r) :=
  inferInstanceAs (Decidable (_ ∧ _ ∧ (_ ∨ (_ ∧ _ ∧ _))))

end AtState

/-! ## A line -/

namespace AtClient

theorem kind_same {x : Bool} {p : Option (List UInt8)} {line : List UInt8}
    (h : x = true → expectedBy p line = true → (lineKind x none line).isRsp = true) :
    LineKind.Same (lineKind x p line) (lineKind x none line) := by
  cases x with
  | false => exact .refl _
  | true =>
    cases he : expectedBy p line with
    | false =>
      rw [lineKind_eq he]
      exact .refl _
    | true =>
      obtain ⟨q, hq⟩ := (LineKind.isRsp_iff _).1 (h rfl he)
      obtain ⟨q', hq'⟩ := lineKind_expected he (h rfl he)
      rw [hq, hq']
      trivial

section
variable {asked : Bool} {c : AtClient} {l : Left}

theorem Fits.bufferedKind (h : c.Fits asked l)
    (hd : asked = false → c.executingCmd = true → ¬c.Stolen) :
    LineKind.Same c.bufferedKind (c.withLeft l).bufferedKind ∧
    (asked = true → (c.withLeft l).bufferedKind = c.bufferedKind) := by
  cases ha : asked with
  | true =>
    have heq : (c.withLeft l).bufferedKind = c.bufferedKind := by
      unfold AtClient.bufferedKind
      rw [← (h.asked ha).2.1]
      rfl
    rw [heq]
    exact ⟨.refl _, fun _ => rfl⟩
  | false =>
    refine ⟨?_, nofun⟩
    have hnone : (c.withLeft l).bufferedKind = lineKind c.executingCmd none c.rxBuffer := by
      unfold AtClient.bufferedKind
      rw [← (h.fresh ha).1]
      rfl
    rw [hnone]
    apply kind_same
    intro hx he
    apply Classical.byContradiction
    intro hno
    exact hd ha hx ⟨he, by simpa using hno⟩

/-- Both clients do the same with the line in the line buffer. -/
theorem Fits.parseLine (h : c.Fits asked l)
    (hd : asked = false → c.executingCmd = true → ¬c.Stolen) (t : Nat) :
    ∃ l', (c.withLeft l).parseLine t c.rxBuffer =
        ((c.parseLine t c.rxBuffer).1.withLeft l', (c.parseLine t c.rxBuffer).2) ∧
      (c.parseLine t c.rxBuffer).1.Fits asked l' := by
  obtain ⟨hk, heq⟩ := h.bufferedKind hd
  have hfits : ∀ c' l', c'.binaryRx = c.binaryRx →
      l'.binaryRx = l.binaryRx → c'.executingCmd = c.executingCmd →
      c'.pExpectedRsp = c.pExpectedRsp → c'.rspBinaryBuf = c.rspBinaryBuf →
      l'.pExpectedRsp = l.pExpectedRsp → l'.rspBinaryBuf = l.rspBinaryBuf →
      (c.executingCmd = true → l'.status = c'.status ∧ l'.cmdStartTime = c'.cmdStartTime) →
      (asked = true → l'.pRspParams = c'.pRspParams) → Fits asked c' l' := by
    intro c' l' h2 h3 h4 h5 h6 h7 h8 h9 h10
    refine ⟨?_, ?_, ?_, ?_⟩
    · rw [h2, h3]
      exact h.count
    · rw [h4]
      exact h9
    · rw [h7, h8]
      exact h.fresh
    · intro ha
      rw [h5, h6, h7, h8]
      exact ⟨h10 ha, (h.asked ha).2⟩
  have hst : c.executingCmd = true → l.status = c.status ∧ l.cmdStartTime = c.cmdStartTime := h.begun
  have hpar : asked = true → l.pRspParams = c.pRspParams := fun ha => (h.asked ha).1
  rw [parseLine_eq, parseLine_eq]
  unfold AtClient.bufferedKind at hk heq
  rw [show (c.withLeft l).rxBuffer = c.rxBuffer from rfl] at hk heq
  rcases hk1 : lineKind c.executingCmd c.pExpectedRsp c.rxBuffer with v | p | _ | _ <;>
    rcases hk2 : lineKind (c.withLeft l).executingCmd (c.withLeft l).pExpectedRsp c.rxBuffer
      with v' | p' | _ | _ <;> rw [hk1, hk2] at hk heq <;> try cases hk
  · refine ⟨{ l with status := v }, rfl, hfits _ _ rfl rfl rfl rfl rfl rfl rfl ?_ hpar⟩
    exact fun hx => ⟨rfl, (hst hx).2⟩
  · refine ⟨{ l with pRspParams := some p' }, rfl,
      hfits _ _ rfl rfl rfl rfl rfl rfl rfl hst fun ha => ?_⟩
    cases heq ha
    rfl
  · exact ⟨l, rfl, hfits _ _ rfl rfl rfl rfl rfl rfl rfl hst hpar⟩
  · exact ⟨l, rfl, h⟩

/-- Both records of a transfer move on. -/
theorem SameRx.advance (hx : SameRx c l) (stored : Bool) (n : Nat) (q : UrcQueue) :
    SameRx { c with binaryRx := c.binaryRx.advance stored n, urcQueue := q }
      { l with binaryRx := l.binaryRx.advance stored n } := by
  obtain ⟨⟨pBuffer, hl, hsame⟩, hlen⟩ := hx
  refine ⟨⟨pBuffer, ?_, hsame⟩, hlen⟩
  rw [hl]
  rfl

/-- Both records of a transfer are set up, with the same place if anything is stored. -/
theorem SameRx.setup {state : BinaryState} {pBuffer pBuffer' : BinaryDest} {size : Nat}
    (hc : l.binaryRx.rxHeaderCount = c.binaryRx.rxHeaderCount) (hp : 0 < size → pBuffer' = pBuffer)
    (hlen : state = .rsp → l.rspBinaryBuf.pBufferLength = c.rspBinaryBuf.pBufferLength)
    (n : Nat) (q : UrcQueue) :
    SameRx { c.setupBinaryRxBuffer state pBuffer size n with urcQueue := q }
      (l.setupBinaryRxBuffer state pBuffer' size n) :=
  ⟨⟨pBuffer', by simp only [setupBinaryRxBuffer, Left.setupBinaryRxBuffer, hc], hp⟩, hlen⟩

end

end AtClient

/-! ## Transfers -/

namespace AtState

open AtClient

section
variable {asked : Bool} {s s' : AtState} {l : Left}

theorem binaryRxDone_withLeft (hf : s.client.Fits asked l) (hx : SameRx s.client l) (t : Nat) :
    ((s.withLeft l).binaryRxDone t).2 = (s.binaryRxDone t).2 ∧
    Twin asked (s.binaryRxDone t).1 ((s.withLeft l).binaryRxDone t).1 := by
  obtain ⟨⟨pBuffer, hl, -⟩, hlen⟩ := hx
  have hst : l.binaryRx.state = s.client.binaryRx.state := by rw [hl]
  have hpos : l.binaryRx.bufferPos = s.client.binaryRx.bufferPos := by rw [hl]
  have hfits : ∀ q, Fits asked { s.client with
        binaryRx := { s.client.binaryRx with state := .flush, rxHeaderCount := 0 }
        isBinaryRx := false
        urcQueue := q } { l with
        binaryRx := { l.binaryRx with state := .flush, rxHeaderCount := 0 } } := by
    intro q
    refine ⟨rfl, hf.begun, hf.fresh, hf.asked⟩
  have hst' : (s.withLeft l).client.binaryRx.state = s.client.binaryRx.state := hst
  cases hs : s.client.binaryRx.state <;> rw [hs] at hst' <;>
    simp only [binaryRxDone, hs, hst', true_and]
  · exact ⟨_, rfl, hfits _, by rintro ⟨⟩⟩
  · refine ⟨_, ?_, hfits s.client.urcQueue, by rintro ⟨⟩⟩
    have := hlen hs
    simp only [withLeft, AtClient.withLeft, this, hpos]
  · refine ⟨_, ?_, hfits _, by rintro ⟨⟩⟩
    simp only [withLeft, AtClient.withLeft, hpos]

theorem binaryRxNext_withLeft (hf : s.client.Fits asked l) (hx : SameRx s.client l) (t : Nat) :
    ((s.withLeft l).binaryRxNext t).2 = (s.binaryRxNext t).2 ∧
    Twin asked (s.binaryRxNext t).1 ((s.withLeft l).binaryRxNext t).1 := by
  have hrem : (s.withLeft l).client.binaryRx.remainingDataBytes =
      s.client.binaryRx.remainingDataBytes := by
    obtain ⟨⟨pBuffer, hl, -⟩, -⟩ := hx
    exact (congrArg BinaryRx.remainingDataBytes hl :)
  simp only [binaryRxNext, hrem]
  split
  · exact ⟨rfl, l, rfl, hf, fun _ _ => hx⟩
  · obtain ⟨h1, h2⟩ := binaryRxDone_withLeft hf hx t
    exact ⟨congrArg some h1, h2⟩

theorem storePayload_withLeft (hx : SameRx s.client l) (hpos : 0 < s.remainingBuf)
    (bytes : List UInt8) : (s.withLeft l).storePayload bytes = (s.storePayload bytes).withLeft l := by
  obtain ⟨⟨pBuffer, hl, hsame⟩, -⟩ := hx
  have hsize : 0 < s.client.binaryRx.bufferSize := by
    unfold remainingBuf at hpos
    omega
  have hrx : (s.withLeft l).client.binaryRx = s.client.binaryRx := by
    rw [show (s.withLeft l).client.binaryRx = l.binaryRx from rfl, hl, hsame hsize]
  unfold storePayload
  rw [hrx]
  cases s.client.binaryRx.pBuffer <;> rfl

theorem takePayload_withLeft (hf : s.client.Fits asked l) (hx : SameRx s.client l)
    (bytes : List UInt8) : ∃ l', (s.withLeft l).takePayload bytes =
      (s.takePayload bytes).withLeft l' ∧ (s.takePayload bytes).client.Fits asked l' ∧
      SameRx (s.takePayload bytes).client l' := by
  have hrem : (s.withLeft l).remainingBuf = s.remainingBuf := by
    obtain ⟨⟨pBuffer, hl, -⟩, -⟩ := hx
    unfold remainingBuf
    rw [show (s.withLeft l).client.binaryRx = { s.client.binaryRx with pBuffer } from hl]
  obtain ⟨st, hst⟩ : ∃ st, st =
      (if decide (0 < s.remainingBuf) = true then s.storePayload bytes else s) := ⟨_, rfl⟩
  have hst' : (if decide (0 < s.remainingBuf) = true then (s.withLeft l).storePayload bytes
      else s.withLeft l) = st.withLeft l := by
    rw [hst]
    split
    · next hpos => exact storePayload_withLeft hx (of_decide_eq_true hpos) bytes
    · rfl
  obtain ⟨q, hcl⟩ : ∃ q, st.client = { s.client with urcQueue := q } := by
    rw [hst]
    unfold storePayload
    split
    · split <;> exact ⟨_, rfl⟩
    · exact ⟨_, rfl⟩
  have hadv := hx.advance (decide (0 < s.remainingBuf)) bytes.length q
  simp only [takePayload, hrem, ← hst, hst', hcl]
  refine ⟨{ l with binaryRx := l.binaryRx.advance (decide (0 < s.remainingBuf)) bytes.length }, ?_,
    ⟨hf.count, hf.begun, hf.fresh, hf.asked⟩, hadv⟩
  simp only [withLeft, AtClient.withLeft, hcl]

/-- What a transfer starts with. The response buffers differ at most where nothing is stored. -/
theorem setupBinaryTransfer_withLeft (hf : s.client.Fits asked l) (t n : Nat) {ret : ParserCode}
    (hlen : ret = .gotRsp → l.rspBinaryBuf.pBufferLength = s.client.rspBinaryBuf.pBufferLength)
    (hnone : ret = .gotRsp → asked = false → s.client.rspBinaryBuf.pBufferLength = none) :
    ∃ l', setupBinaryTransfer t (s.withLeft l) ret n =
      (setupBinaryTransfer t s ret n).withLeft l' ∧
      (setupBinaryTransfer t s ret n).client.Fits asked l' ∧
      SameRx (setupBinaryTransfer t s ret n).client l' := by
  have hset : ∀ {state pBuffer pBuffer' size} q, (0 < size → pBuffer' = pBuffer) →
      (state = .rsp → ret = .gotRsp) →
      Fits asked { s.client.setupBinaryRxBuffer state pBuffer size n with urcQueue := q }
        (l.setupBinaryRxBuffer state pBuffer' size n) ∧
      SameRx { s.client.setupBinaryRxBuffer state pBuffer size n with urcQueue := q }
        (l.setupBinaryRxBuffer state pBuffer' size n) := by
    intro state pBuffer pBuffer' size q hp hst
    have hl := fun h => hlen (hst h)
    exact ⟨⟨hf.count, hf.begun, hf.fresh, hf.asked⟩, .setup hf.count hp hl n q⟩
  cases ret with
  | gotRsp =>
    refine ⟨l.setupBinaryRxBuffer .rsp ((l.rspBinaryBuf.pBuffer.map BinaryDest.caller).getD .null)
      ((s.client.rspBinaryBuf.pBufferLength.map s.mem.length).getD 0) n, ?_,
      hset s.client.urcQueue ?_ fun _ => rfl⟩
    · simp only [setupBinaryTransfer, withLeft, AtClient.withLeft, AtClient.setupBinaryRxBuffer,
        Left.setupBinaryRxBuffer, hlen rfl]
    · intro hpos
      cases ha : asked with
      | true => rw [(hf.asked ha).2.2]
      | false =>
        rw [hnone rfl ha] at hpos
        exact absurd hpos (Nat.lt_irrefl 0)
  | gotUrc =>
    rcases hq : uCxAtUrcQueueEnqueueGetPayloadPtr s.client.urcQueue with ⟨pPtr, len⟩
    have hq' : uCxAtUrcQueueEnqueueGetPayloadPtr (s.withLeft l).client.urcQueue = (pPtr, len) := hq
    simp only [setupBinaryTransfer, hq, hq']
    split
    · exact ⟨l.setupBinaryRxBuffer .urc (.urcBuffer pPtr) len n, rfl,
        hset s.client.urcQueue (fun _ => rfl) (by rintro ⟨⟩)⟩
    · exact ⟨l.setupBinaryRxBuffer .flush .null 0 n, rfl, hset _ (fun _ => rfl) (by rintro ⟨⟩)⟩
  | _ => exact ⟨l.setupBinaryRxBuffer .flush .null 0 n, rfl, hset s.client.urcQueue (fun _ => rfl) (by rintro ⟨⟩)⟩

/-! ## One read -/

theorem storeHeader_withLeft (hf : s.client.Fits asked l) (bytes : List UInt8) :
    (s.withLeft l).storeHeader bytes = (s.storeHeader bytes).withLeft { l with
      binaryRx := { l.binaryRx with rxHeaderCount := l.binaryRx.rxHeaderCount + bytes.length } } := by
  simp only [storeHeader, withLeft, AtClient.withLeft, hf.count]

theorem startTransfer_withLeft (hf : s.client.Fits asked l) (t : Nat)
    (hd : asked = false → s.client.executingCmd = true → ¬s.client.Stolen)
    (hnone : asked = false → s.client.executingCmd = true → s.client.bufferedKind.isRsp = true →
      s.client.rspBinaryBuf.pBufferLength = none) :
    ((s.withLeft l).startTransfer t).2 = (s.startTransfer t).2 ∧
    Twin asked (s.startTransfer t).1 ((s.withLeft l).startTransfer t).1 := by
  obtain ⟨l1, hp, hf1⟩ := hf.parseLine hd t
  rcases hp0 : s.client.parseLine t s.client.rxBuffer with ⟨c, ret⟩
  rw [hp0] at hp hf1
  obtain ⟨n, hn, he⟩ := s.startTransfer_eq t hp0
  obtain ⟨n', hn', he'⟩ := (s.withLeft l).startTransfer_eq t hp
  obtain rfl : n = n' := hn.symm.trans hn'
  have hset := (parseLine_setup hp0).1
  have hnone' : ret = .gotRsp → asked = false → c.rspBinaryBuf.pBufferLength = none := by
    intro hret ha
    obtain ⟨q, hq⟩ := (parseLine_gotRsp t _ _).1 ((congrArg Prod.snd hp0).trans hret)
    rw [show c.rspBinaryBuf = s.client.rspBinaryBuf from congrArg Setup.rspBinaryBuf hset]
    exact hnone ha (executing_of_lineKind (.inr ⟨q, hq⟩)) ((LineKind.isRsp_iff _).2 ⟨q, hq⟩)
  have hlen : ret = .gotRsp → l1.rspBinaryBuf.pBufferLength = c.rspBinaryBuf.pBufferLength := by
    intro hret
    cases ha : asked with
    | true => rw [(hf1.asked ha).2.2]
    | false => rw [hnone' hret ha, (hf1.fresh ha).2]
  obtain ⟨l2, h2, hf2, hx2⟩ :=
    setupBinaryTransfer_withLeft (s := { s with client := c }) hf1 t n hlen hnone'
  have h2' : setupBinaryTransfer t { s.withLeft l with client := c.withLeft l1 } ret n =
      (setupBinaryTransfer t { s with client := c } ret n).withLeft l2 := h2
  rw [he, he', h2']
  generalize setupBinaryTransfer t { s with client := c } ret n = s2 at hf2 hx2
  exact binaryRxNext_withLeft (s := { s2 with client := { s2.client with rxBuffer := [] } })
    ⟨hf2.count, hf2.begun, hf2.fresh, hf2.asked⟩
    ⟨hx2.place, hx2.lengthVar⟩ t

theorem readChar_withLeft (hf : s.client.Fits asked l) (hbin : s.client.isBinaryRx = false)
    (hok : RxOk s.client) (t : Nat) {bytes : List UInt8}
    (hd : asked = false → ¬s.LeftDecides (.got bytes)) :
    ((s.withLeft l).readChar t bytes).2 = (s.readChar t bytes).2 ∧
    Twin asked (s.readChar t bytes).1 ((s.withLeft l).readChar t bytes).1 := by
  cases charRead bytes with
  | none hone =>
    rw [readChar_none t s hone, readChar_none t _ hone]
    exact ⟨rfl, l, rfl, hf, fun hb' => absurd (hbin.symm.trans hb') (by rintro ⟨⟩)⟩
  | @eol b heol =>
    have hends : s.LineEnds (.got [b]) := by
      simp only [LineEnds, hbin, Bool.false_eq_true, ↓reduceIte]
      exact ⟨rfl, heol⟩
    obtain ⟨l1, hp, hf1⟩ := hf.parseLine
      (fun ha hx hst => hd ha ⟨hends, hx, .inl hst⟩) t
    have hp' : (s.withLeft l).client.parseLine t (s.withLeft l).client.rxBuffer = _ := hp
    have hb : (s.client.parseLine t s.client.rxBuffer).1.isBinaryRx = false :=
      (parseLine_setup (Prod.eta _).symm).2.1.trans hbin
    rw [readChar_eol t s heol, readChar_eol t _ heol, hp']
    refine ⟨rfl, l1, ?_, ?_, fun hb' => ?_⟩
    · simp only [withLeft, AtClient.withLeft, lineDone]
      split <;> rfl
    · unfold lineDone
      split <;> exact ⟨hf1.count, hf1.begun, hf1.fresh, hf1.asked⟩
    · rw [isBinaryRx_lineDone, hb] at hb'
      cases hb'
  | soh =>
    refine ⟨rfl, l, rfl, ⟨hf.count, hf.begun, hf.fresh, hf.asked⟩, fun _ hc => ?_⟩
    have h0 := hok.idle hbin
    have hc' : 2 ≤ s.client.binaryRx.rxHeaderCount := hc
    omega
  | print hpr =>
    rw [readChar_print t s hpr, readChar_print t _ hpr]
    refine ⟨rfl, l, rfl, ⟨hf.count, hf.begun, hf.fresh, hf.asked⟩, fun hb' => ?_⟩
    rw [hbin] at hb'
    cases hb'
  | skip hsoh heol hpr =>
    rw [readChar_skip t s hsoh heol hpr, readChar_skip t _ hsoh heol hpr]
    exact ⟨rfl, l, rfl, hf, fun hb' => absurd (hbin.symm.trans hb') (by rintro ⟨⟩)⟩

/-- Both ask for the same number of bytes. -/
theorem Twin.wants (h : Twin asked s s') : s'.wants = s.wants := by
  obtain ⟨l, rfl, hf, hx⟩ := h
  have hc : (s.withLeft l).client.binaryRx.rxHeaderCount = s.client.binaryRx.rxHeaderCount := hf.count
  simp only [AtState.wants, show (s.withLeft l).client.isBinaryRx = s.client.isBinaryRx from rfl, hc]
  by_cases hbin : s.client.isBinaryRx = true
  · by_cases hlt : s.client.binaryRx.rxHeaderCount < 2
    · simp only [hlt, ↓reduceIte]
    · obtain ⟨pBuffer, hl, -⟩ := (hx hbin (Nat.not_lt.1 hlt)).place
      simp only [remainingBuf,
        show (s.withLeft l).client.binaryRx = { s.client.binaryRx with pBuffer } from hl]
      rfl
  · simp only [hbin, Bool.not_false, ↓reduceIte]

/-- **A read does the same to both**, unless what is left over decides. -/
theorem Twin.rxStep (h : Twin asked s s') (hok : RxOk s.client) (t : Nat) {r : ReadStatus}
    (hd : asked = false → ¬s.LeftDecides r) :
    (s'.rxStep t r).2 = (s.rxStep t r).2 ∧ Twin asked (s.rxStep t r).1 (s'.rxStep t r).1 := by
  obtain ⟨l, rfl, hf, hx⟩ := h
  cases r with
  | failed err =>
    refine ⟨rfl, { l with lastIoError := err, status := errorIo }, rfl, ⟨hf.count,
      fun he => ⟨rfl, (hf.begun he).2⟩, hf.fresh, hf.asked⟩, fun hb hc => ?_⟩
    exact ⟨(hx hb hc).place, (hx hb hc).lengthVar⟩
  | got bytes =>
    have hb' : (s.withLeft l).client.isBinaryRx = s.client.isBinaryRx := rfl
    have hc' : (s.withLeft l).client.binaryRx.rxHeaderCount = s.client.binaryRx.rxHeaderCount :=
      hf.count
    simp only [AtState.rxStep, hb', hc']
    by_cases hbin : s.client.isBinaryRx = true
    · by_cases hlt : s.client.binaryRx.rxHeaderCount < 2
      · simp only [hbin, Bool.not_true, Bool.false_eq_true, hlt, ↓reduceIte, readHeader]
        have hcount : ((s.withLeft l).storeHeader bytes).client.binaryRx.rxHeaderCount =
            (s.storeHeader bytes).client.binaryRx.rxHeaderCount := by
          simp only [storeHeader, hc']
        have hf' : (s.storeHeader bytes).client.Fits asked { l with
            binaryRx := { l.binaryRx with
              rxHeaderCount := l.binaryRx.rxHeaderCount + bytes.length } } := by
          refine ⟨?_, hf.begun, hf.fresh, hf.asked⟩
          simp only [storeHeader, hf.count]
        rw [hcount, storeHeader_withLeft hf]
        by_cases hn : (s.storeHeader bytes).client.binaryRx.rxHeaderCount < 2
        · rw [if_pos hn, if_pos hn]
          exact ⟨rfl, _, rfl, hf', fun _ hc => absurd hn (Nat.not_lt.2 hc)⟩
        · rw [if_neg hn, if_neg hn]
          have hends : s.LineEnds (.got bytes) := by
            simp only [LineEnds, hbin, ↓reduceIte]
            exact ⟨hlt, Nat.not_lt.1 hn⟩
          refine startTransfer_withLeft hf' t (fun ha hx hst => hd ha ⟨hends, hx, .inl hst⟩) ?_
          intro ha hx hrsp
          apply Classical.byContradiction
          intro hne
          exact hd ha ⟨hends, hx, .inr ⟨hbin, hrsp, hne⟩⟩
      · simp only [hbin, Bool.not_true, Bool.false_eq_true, hlt, ↓reduceIte, readPayload]
        obtain ⟨l1, h1, hf1, hx1⟩ :=
          takePayload_withLeft hf (hx hbin (Nat.not_lt.1 hlt)) bytes
        rw [h1]
        split
        · exact ⟨rfl, l1, rfl, hf1, fun _ _ => hx1⟩
        · exact binaryRxNext_withLeft hf1 hx1 t
    · have hfalse : s.client.isBinaryRx = false := by simpa using hbin
      simp only [hfalse, Bool.not_false, ↓reduceIte]
      exact readChar_withLeft hf hfalse hok t hd

end

end AtState
