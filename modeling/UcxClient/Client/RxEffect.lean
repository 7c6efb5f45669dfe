import UcxClient.Client.Receive

/-!
# What a read can do

`lineKind` classifies a line by what `parseLine` does with it (`parseLine_eq`). `rxStep_effect` lists
the outcomes of a read: an error (`failed`), a byte in character mode that completes no line
(`quiet`), the end of a line (`line`), a first length byte (`header`), the last one (`start`),
nothing while a payload is due (`stalled`) and bytes of the payload (`payload`).
-/

open UrcQueue

/-- What a line is to the parser. -/
inductive LineKind where
  | status (status : Int)
  | rsp (params : List UInt8)
  | urc
  | other
  deriving DecidableEq

/-- The line starts with the prefix that the command expects. -/
def expectedBy (pExpectedRsp : Option (List UInt8)) (pLine : List UInt8) : Bool :=
  match pExpectedRsp with
  | some p => !p.isEmpty && p.isPrefixOf pLine
  | none => false

/-- A line that concerns no command. -/
def urcKind (pLine : List UInt8) : LineKind := if AtClient.isUrcLine pLine then .urc else .other

/-- A line that is received while a command is executing. -/
def cmdKind (pExpectedRsp : Option (List UInt8)) (pLine : List UInt8) : LineKind :=
  if expectedBy pExpectedRsp pLine then .rsp (pLine.drop (pExpectedRsp.getD []).length)
  else if pLine = text "OK" then .status 0
  else if (text "ERROR").isPrefixOf pLine then
    match AtClient.errorStatus pLine with
    | some status => .status status
    | none => urcKind pLine
  else if !AtClient.isUrcLine pLine ∧ ¬(text "AT+").isPrefixOf pLine then .rsp pLine
  else urcKind pLine

def lineKind (executingCmd : Bool) (pExpectedRsp : Option (List UInt8)) (pLine : List UInt8) :
    LineKind :=
  if pLine.all fun b => b = ch '\n' ∨ b = ch '\r' then .other
  else if executingCmd then cmdKind pExpectedRsp pLine
  else urcKind pLine

namespace AtClient

/-- The kind of the line in the line buffer. -/
def bufferedKind (c : AtClient) : LineKind := lineKind c.executingCmd c.pExpectedRsp c.rxBuffer

/-- What the parser does with a line of a kind. -/
def onLine (t : Nat) (c : AtClient) (pLine : List UInt8) : LineKind → AtClient × ParserCode
  | .status status => ({ c with status }, .gotStatus)
  | .rsp p => ({ c with pRspParams := some p }, .gotRsp)
  | .urc =>
    ({ c with urcQueue := (uCxAtUrcQueueEnqueueBegin t c.urcQueue pLine).2 },
      if (uCxAtUrcQueueEnqueueBegin t c.urcQueue pLine).1 then .gotUrc else .nop)
  | .other => (c, .nop)

theorem parseUrcLine_eq (t : Nat) (c : AtClient) (pLine : List UInt8) :
    c.parseUrcLine t pLine = c.onLine t pLine (urcKind pLine) := by
  unfold parseUrcLine urcKind
  split <;> rfl

theorem parseCmdLine_eq (t : Nat) (c : AtClient) (pLine : List UInt8) :
    (if (c.parseCmdLine pLine).2 = .nop then (c.parseCmdLine pLine).1.parseUrcLine t pLine
      else c.parseCmdLine pLine) = c.onLine t pLine (cmdKind c.pExpectedRsp pLine) := by
  have hexp : c.expects pLine = expectedBy c.pExpectedRsp pLine := rfl
  unfold parseCmdLine cmdKind
  rw [hexp]
  split
  · rfl
  split
  · rfl
  split
  · cases errorStatus pLine with
    | some v => rfl
    | none => exact parseUrcLine_eq t c pLine
  split
  · rfl
  · exact parseUrcLine_eq t c pLine

/-- The specification of `parseLine`. -/
theorem parseLine_eq (t : Nat) (c : AtClient) (pLine : List UInt8) :
    c.parseLine t pLine = c.onLine t pLine (lineKind c.executingCmd c.pExpectedRsp pLine) := by
  unfold parseLine lineKind
  split
  · rfl
  by_cases hx : c.executingCmd = true
  · simp only [if_pos hx]
    exact parseCmdLine_eq t c pLine
  · simp only [if_neg hx]
    exact parseUrcLine_eq t c pLine

theorem urcKind_cases (pLine : List UInt8) : urcKind pLine = .urc ∨ urcKind pLine = .other := by
  unfold urcKind
  split
  · exact .inl rfl
  · exact .inr rfl

/-- Only a command gets a status or a response. -/
theorem executing_of_lineKind {x : Bool} {p : Option (List UInt8)} {pLine : List UInt8}
    (h : (∃ v, lineKind x p pLine = .status v) ∨ ∃ q, lineKind x p pLine = .rsp q) : x = true := by
  cases x with
  | true => rfl
  | false =>
    have hk : lineKind false p pLine = .urc ∨ lineKind false p pLine = .other := by
      unfold lineKind
      split
      · exact .inr rfl
      · exact urcKind_cases pLine
    rcases h with ⟨v, h⟩ | ⟨q, h⟩ <;> rcases hk with hk | hk <;> rw [hk] at h <;> cases h

theorem parseLine_cases {t : Nat} {c c' : AtClient} {pLine : List UInt8} {ret : ParserCode}
    (h : c.parseLine t pLine = (c', ret)) :
    (ret = .gotStatus ∧ c.executingCmd = true ∧ ∃ status, c' = { c with status }) ∨
    (ret = .gotRsp ∧ c.executingCmd = true ∧ ∃ p, c' = { c with pRspParams := some p }) ∨
    (ret = .gotUrc ∧ (uCxAtUrcQueueEnqueueBegin t c.urcQueue pLine).1 = true ∧
      c' = { c with urcQueue := (uCxAtUrcQueueEnqueueBegin t c.urcQueue pLine).2 }) ∨
    (ret = .nop ∧ c' = c) ∨
    (ret = .nop ∧ (uCxAtUrcQueueEnqueueBegin t c.urcQueue pLine).1 = false ∧
      c' = { c with urcQueue := (uCxAtUrcQueueEnqueueBegin t c.urcQueue pLine).2 }) := by
  rw [parseLine_eq] at h
  cases hk : lineKind c.executingCmd c.pExpectedRsp pLine with
  | status v =>
    rw [hk] at h; cases h
    exact .inl ⟨rfl, executing_of_lineKind (.inl ⟨v, hk⟩), v, rfl⟩
  | rsp p =>
    rw [hk] at h; cases h
    exact .inr (.inl ⟨rfl, executing_of_lineKind (.inr ⟨p, hk⟩), p, rfl⟩)
  | urc =>
    rw [hk, onLine] at h
    cases hq : (uCxAtUrcQueueEnqueueBegin t c.urcQueue pLine).1 with
    | true => rw [hq] at h; cases h; exact .inr (.inr (.inl ⟨rfl, rfl, rfl⟩))
    | false => rw [hq] at h; cases h; exact .inr (.inr (.inr (.inr ⟨rfl, rfl, rfl⟩)))
  | other => rw [hk] at h; cases h; exact .inr (.inr (.inr (.inl ⟨rfl, rfl⟩)))

/-- A line is taken for a response exactly if it is of that kind. -/
theorem parseLine_gotRsp (t : Nat) (c : AtClient) (pLine : List UInt8) :
    (c.parseLine t pLine).2 = .gotRsp ↔
      ∃ p, lineKind c.executingCmd c.pExpectedRsp pLine = .rsp p := by
  rw [parseLine_eq]
  cases lineKind c.executingCmd c.pExpectedRsp pLine with
  | urc => simp only [onLine]; split <;> simp
  | _ => simp [onLine]

/-- The end of a line in character mode: a URC is complete. -/
def lineDone (t : Nat) (c : AtClient) (ret : ParserCode) : AtClient :=
  if ret = .gotUrc then
    { c with rxBuffer := [], urcQueue := uCxAtUrcQueueEnqueueEnd t c.urcQueue 0 }
  else { c with rxBuffer := [] }

@[simp] theorem isBinaryRx_lineDone (t : Nat) (c : AtClient) (ret : ParserCode) :
    (c.lineDone t ret).isBinaryRx = c.isBinaryRx := by unfold lineDone; split <;> rfl

@[simp] theorem binaryRx_lineDone (t : Nat) (c : AtClient) (ret : ParserCode) :
    (c.lineDone t ret).binaryRx = c.binaryRx := by unfold lineDone; split <;> rfl

@[simp] theorem status_lineDone (t : Nat) (c : AtClient) (ret : ParserCode) :
    (c.lineDone t ret).status = c.status := by unfold lineDone; split <;> rfl

/-- The end of a line ends `handleRxData` if the line is a status or a response. -/
def lineRet (ret : ParserCode) : Option ParserCode :=
  if ret = .gotStatus ∨ ret = .gotRsp then some ret else none

end AtClient

/-- The byte ends a line. -/
def isEol (b : UInt8) : Bool := b = ch '\r' ∨ b = ch '\n'

namespace AtState

open AtClient

/-- The read completes the line in the line buffer. -/
def LineEnds (s : AtState) : ReadStatus → Prop
  | .failed _ => False
  | .got bytes =>
    if s.client.isBinaryRx then
      s.client.binaryRx.rxHeaderCount < 2 ∧ 2 ≤ s.client.binaryRx.rxHeaderCount + bytes.length
    else bytes.length = 1 ∧ isEol (bytes.headD 0) = true

instance (s : AtState) (r : ReadStatus) : Decidable (s.LineEnds r) :=
  match r with
  | .failed _ => inferInstanceAs (Decidable False)
  | .got bytes => inferInstanceAs (Decidable (if s.client.isBinaryRx then
      s.client.binaryRx.rxHeaderCount < 2 ∧ 2 ≤ s.client.binaryRx.rxHeaderCount + bytes.length
    else bytes.length = 1 ∧ isEol (bytes.headD 0) = true))

/-- The effect of a read. -/
inductive RxEffect (t : Nat) (s : AtState) : ReadStatus → AtState → Option ParserCode → Prop
  | failed (err : Int) : RxEffect t s (.failed err) (s.readError err) (some .error)
  | quiet {bytes rxBuffer : List UInt8} {isBinaryRx : Bool} {ret : Option ParserCode} :
      s.client.isBinaryRx = false → ret = none ∨ ret = some .nop →
      RxEffect t s (.got bytes) { s with client := { s.client with rxBuffer, isBinaryRx } } ret
  | line {b : UInt8} {c : AtClient} {ret : ParserCode} :
      s.client.isBinaryRx = false → isEol b = true →
      s.client.parseLine t s.client.rxBuffer = (c, ret) →
      RxEffect t s (.got [b]) { s with client := c.lineDone t ret } (lineRet ret)
  | header {bytes : List UInt8} : s.client.isBinaryRx = true →
      s.client.binaryRx.rxHeaderCount + bytes.length < 2 →
      RxEffect t s (.got bytes) (s.storeHeader bytes) (some .nop)
  | start {bytes : List UInt8} : s.client.isBinaryRx = true →
      s.client.binaryRx.rxHeaderCount < 2 →
      2 ≤ s.client.binaryRx.rxHeaderCount + bytes.length →
      RxEffect t s (.got bytes) ((s.storeHeader bytes).startTransfer t).1
        ((s.storeHeader bytes).startTransfer t).2
  | stalled : s.client.isBinaryRx = true → 2 ≤ s.client.binaryRx.rxHeaderCount →
      RxEffect t s (.got []) (s.takePayload []) (some .nop)
  | payload {bytes : List UInt8} : bytes ≠ [] → s.client.isBinaryRx = true →
      2 ≤ s.client.binaryRx.rxHeaderCount →
      RxEffect t s (.got bytes) ((s.takePayload bytes).binaryRxNext t).1
        ((s.takePayload bytes).binaryRxNext t).2

/-- The end of a line in character mode. -/
theorem readChar_eol (t : Nat) (s : AtState) {b : UInt8} (hb : isEol b = true) :
    s.readChar t [b] =
      ({ s with
          client := (s.client.parseLine t s.client.rxBuffer).1.lineDone t
            (s.client.parseLine t s.client.rxBuffer).2 },
        lineRet (s.client.parseLine t s.client.rxBuffer).2) := by
  have heol : b = ch '\r' ∨ b = ch '\n' := of_decide_eq_true hb
  have hsoh : b ≠ sohChar := by
    rcases heol with rfl | rfl <;> decide
  rcases hp : s.client.parseLine t s.client.rxBuffer with ⟨c, ret⟩
  simp only [readChar, parseIncomingChar, if_neg hsoh, if_pos heol, hp]
  rcases parseLine_cases hp with ⟨rfl, -⟩ | ⟨rfl, -⟩ | ⟨rfl, -⟩ | ⟨rfl, -⟩ | ⟨rfl, -⟩ <;>
    simp [lineDone, lineRet]

theorem readChar_soh (t : Nat) (s : AtState) :
    s.readChar t [sohChar] = ({ s with client := { s.client with isBinaryRx := true } }, none) := rfl

/-- A character of a line. -/
theorem readChar_print (t : Nat) (s : AtState) {b : UInt8} (hb : isprint b = true) :
    s.readChar t [b] = ({ s with client := { s.client with
      rxBuffer := if (s.client.rxBuffer ++ [b]).length = s.client.rxBufferLen then []
        else s.client.rxBuffer ++ [b] } }, none) := by
  have hsoh : b ≠ sohChar := by
    rintro rfl
    exact absurd hb (by decide)
  have heol : ¬(b = ch '\r' ∨ b = ch '\n') := by
    rintro (rfl | rfl) <;> exact absurd hb (by decide)
  simp only [readChar, parseIncomingChar, if_neg hsoh, if_neg heol, if_pos hb]

/-- Any other character is skipped. -/
theorem readChar_skip (t : Nat) (s : AtState) {b : UInt8} (hsoh : b ≠ sohChar)
    (heol : isEol b = false) (hb : isprint b = false) : s.readChar t [b] = (s, none) := by
  have heol' : ¬(b = ch '\r' ∨ b = ch '\n') := of_decide_eq_false heol
  simp only [readChar, parseIncomingChar, if_neg hsoh, if_neg heol', hb, Bool.false_eq_true,
    ↓reduceIte]

/-- A read that brings no character. -/
theorem readChar_none (t : Nat) (s : AtState) {bytes : List UInt8} (h : ¬∃ b, bytes = [b]) :
    s.readChar t bytes = (s, some .nop) := by
  unfold readChar
  split
  · exact absurd ⟨_, rfl⟩ h
  · rfl

/-- What a read in character mode brings. -/
inductive CharRead : List UInt8 → Prop
  | none {bytes : List UInt8} (h : ¬∃ b, bytes = [b]) : CharRead bytes
  | eol {b : UInt8} (h : isEol b = true) : CharRead [b]
  | soh : CharRead [sohChar]
  | print {b : UInt8} (h : isprint b = true) : CharRead [b]
  | skip {b : UInt8} (hsoh : b ≠ sohChar) (heol : isEol b = false) (h : isprint b = false) : CharRead [b]

theorem charRead (bytes : List UInt8) : CharRead bytes := by
  by_cases hone : ∃ b, bytes = [b]
  · obtain ⟨b, rfl⟩ := hone
    by_cases heol : isEol b = true
    · exact .eol heol
    by_cases hsoh : b = sohChar
    · exact hsoh ▸ .soh
    by_cases hpr : isprint b = true
    · exact .print hpr
    · exact .skip hsoh (by simpa using heol) (by simpa using hpr)
  · exact .none hone

theorem readChar_effect (t : Nat) (s : AtState) (bytes : List UInt8)
    (hbin : s.client.isBinaryRx = false) :
    RxEffect t s (.got bytes) (s.readChar t bytes).1 (s.readChar t bytes).2 := by
  cases charRead bytes with
  | none hone =>
    rw [readChar_none t s hone]
    exact .quiet hbin (.inr rfl)
  | eol heol =>
    rw [readChar_eol t s heol]
    exact .line hbin heol (Prod.eta _).symm
  | soh => exact .quiet hbin (.inl rfl)
  | print hpr =>
    rw [readChar_print t s hpr]
    exact .quiet hbin (.inl rfl)
  | skip hsoh heol hpr =>
    rw [readChar_skip t s hsoh heol hpr]
    exact .quiet hbin (.inl rfl)

theorem rxStep_effect (t : Nat) (s : AtState) (r : ReadStatus) :
    RxEffect t s r (s.rxStep t r).1 (s.rxStep t r).2 := by
  cases r with
  | failed err => exact .failed err
  | got bytes =>
    simp only [rxStep]
    by_cases hbin : s.client.isBinaryRx = true
    · by_cases hcount : s.client.binaryRx.rxHeaderCount < 2
      · simp only [hbin, Bool.not_true, Bool.false_eq_true, hcount, ↓reduceIte, readHeader]
        split
        · rename_i hlt
          exact .header hbin hlt
        · rename_i hge
          exact .start hbin hcount (Nat.not_lt.1 hge)
      · simp only [hbin, Bool.not_true, Bool.false_eq_true, hcount, ↓reduceIte, readPayload]
        split
        · rename_i hnil
          subst hnil
          exact .stalled hbin (Nat.not_lt.1 hcount)
        · rename_i hne
          exact .payload hne hbin (Nat.not_lt.1 hcount)
    · have hfalse : s.client.isBinaryRx = false := by simpa using hbin
      simp only [hfalse, Bool.not_false, ↓reduceIte]
      exact readChar_effect t s bytes hfalse

end AtState
