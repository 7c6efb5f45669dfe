import UcxClient.Client.FinalStatus
import UcxClient.Text.Parse

/-!
# Response parameters (`uCxAtClientCmdGetRspParamsF`)

`rspEnd` is how the wait for a response line ends: by a response, by a status that has been recorded
(a final status line or an error of the UART) or by the timeout. `ReportsEnd` is what the return value
should say of it, that is a timeout only when there was one, and an error status when that ended the
wait.

* `getRspParamsF_reports_end`: this holds exactly if no status ended the wait, and neither did the
  response of an earlier wait (`WaitEnd.Told`).
* `rspEnd_params`: a response has its parameters unless its payload was being received at the call.
* `error_reported_as_timeout`: a command answered by `ERROR:9` has timed out, says the return value.
-/

/-- How the wait for a response line ends. -/
inductive WaitEnd where
  /-- a response; its parameters are lost if the wait began behind its line -/
  | rsp (pRspParams : Option (List UInt8))
  /-- a recorded status -/
  | status (status : Int)
  | timeout
  deriving DecidableEq

/-- The outcome of `uCxAtClientCmdGetRspParamsF`: what it returns, and the outputs it stores. -/
structure RspOutcome where
  ret : Int
  outputs : List Output
  deriving DecidableEq

namespace AtState

/-- `uCxAtClientCmdGetRspParamsF`; `pre` is what stands before the parameters in the line buffer, that is
the expected prefix if the line starts with it. -/
def uCxAtClientCmdGetRspParamsF (t : Nat) (s : AtState) (pExpectedRsp : Option (List UInt8))
    (buf : BinaryResponseBuf) (pParamFmt pre : List UInt8) (h : Host) :
    Option (RspOutcome × AtState × Host) :=
  (s.uCxAtClientCmdGetRspParamLine t pExpectedRsp buf h).bind fun
    | (none, s, h) => some (⟨errorCmdTimeout, []⟩, s, h)
    | (some pRspParams, s, h) =>
      (uCxAtUtilParseParamsVaList (pre ++ pRspParams ++ [0]) pre.length pParamFmt).map fun parsed =>
        (⟨parsed.ret, parsed.outputs⟩, s, h)

/-! ## The end of the wait -/

/-- How the loop of `uCxAtClientCmdGetRspParamLine` ends. A status that is recorded together with the
clock reading of a timeout is a status. -/
def rspWait (t : Nat) (s : AtState) (uart : Uart) : List Int → Option WaitEnd
  | [] => if s.client.status = noStatus then none else some (.status s.client.status)
  | now :: clock =>
    if s.client.status = noStatus then
      let (s, uart, ret) := s.handleRxData t uart.rx uart.sched
      if ret = .gotRsp then some (.rsp s.client.pRspParams)
      else if s.client.status ≠ noStatus then some (.status s.client.status)
      else if s.client.timedOut now then some .timeout
      else rspWait t s uart clock
    else some (.status s.client.status)

/-- How the wait of a call ends. -/
def rspEnd (t : Nat) (s : AtState) (pExpectedRsp : Option (List UInt8)) (buf : BinaryResponseBuf)
    (h : Host) : Option WaitEnd :=
  let client := s.client.expectRsp pExpectedRsp buf.pBuffer buf.pBufferLength
  rspWait t { s with client } h.uart h.clock

/-- What `uCxAtClientCmdGetRspParamLine` returns for an end: anything but a response is `NULL`. -/
def rspLine : WaitEnd → Option (List UInt8)
  | .rsp pRspParams => pRspParams
  | .status _ => none
  | .timeout => none

/-- The loop returns when the wait ends. -/
theorem rspLoop_eq (t : Nat) (s : AtState) (uart : Uart) (clock : List Int) :
    (s.rspLoop t uart clock).map (·.1) = (s.rspWait t uart clock).map rspLine := by
  induction clock generalizing s uart with
  | nil =>
    rw [rspLoop, rspWait]
    split <;> rfl
  | cons now clock ih =>
    rw [rspLoop, rspWait]
    by_cases hst : s.client.status = noStatus
    · rw [if_pos hst, if_pos hst]
      rcases s.handleRxData t uart.rx uart.sched with ⟨s1, uart1, ret⟩
      simp only
      by_cases hret : ret = .gotRsp
      · rw [if_pos hret, if_pos hret]
        rfl
      rw [if_neg hret, if_neg hret]
      by_cases hst1 : s1.client.status = noStatus
      · simp only [ne_eq, hst1, not_true_eq_false, if_false]
        split
        · rfl
        · exact ih s1 uart1
      · -- the status ends the loop at its next check, if the timeout does not
        simp only [ne_eq, hst1, not_false_eq_true, if_true]
        have hnext : (s1.rspLoop t uart1 clock).map (·.1) = some none := by
          cases clock <;> rw [rspLoop, if_neg hst1] <;> rfl
        split
        · rfl
        · exact hnext
    · rw [if_neg hst, if_neg hst]
      rfl

/-! ## The return value -/

/-- The return value reports a timeout only if there was one, and an error that ended the wait. -/
def ReportsEnd (ret : Int) : WaitEnd → Prop
  | .rsp _ => ret ≠ errorCmdTimeout
  | .status v => ret ≠ errorCmdTimeout ∧ (v ≠ 0 → ret = v)
  | .timeout => True

/-- Parameter number `n` is the first one that is not parsed. -/
def FailsAt (n : Nat) (pParamFmt pre pRspParams : List UInt8) : Prop :=
  ∃ parsed, uCxAtUtilParseParamsVaList (pre ++ pRspParams ++ [0]) pre.length pParamFmt = some parsed ∧
    parsed.ret = -n

/-- The ends that the return value tells apart: a response with its parameters, unless the return value
for a parameter that is not parsed is that of a timeout, and the timeout. -/
def Told (pParamFmt pre : List UInt8) : WaitEnd → Prop
  | .rsp (some pRspParams) => ¬FailsAt 0x10000 pParamFmt pre pRspParams
  | .rsp none => False
  | .status _ => False
  | .timeout => True

/-- The return value when the wait ends so. -/
def rspRet (pParamFmt pre : List UInt8) (e : WaitEnd) : Option Int :=
  match rspLine e with
  | none => some errorCmdTimeout
  | some pRspParams =>
    (uCxAtUtilParseParamsVaList (pre ++ pRspParams ++ [0]) pre.length pParamFmt).map (·.ret)

theorem getRspParamsF_eq (t : Nat) (s : AtState) (pExpectedRsp : Option (List UInt8))
    (buf : BinaryResponseBuf) (pParamFmt pre : List UInt8) (h : Host) :
    (s.uCxAtClientCmdGetRspParamsF t pExpectedRsp buf pParamFmt pre h).map (·.1.ret) =
      (s.rspEnd t pExpectedRsp buf h).bind (rspRet pParamFmt pre) := by
  have hloop := rspLoop_eq t
    { s with client := s.client.expectRsp pExpectedRsp buf.pBuffer buf.pBufferLength } h.uart h.clock
  rw [uCxAtClientCmdGetRspParamsF, uCxAtClientCmdGetRspParamLine, rspEnd]
  cases hend : rspWait t
      { s with client := s.client.expectRsp pExpectedRsp buf.pBuffer buf.pBufferLength }
      h.uart h.clock with
  | none =>
    rw [hend, Option.map_none, Option.map_eq_none_iff] at hloop
    rw [hloop]
    rfl
  | some e =>
    rw [hend, Option.map_some, Option.map_eq_some_iff] at hloop
    obtain ⟨⟨line, s1, h1⟩, heq, hline⟩ := hloop
    rw [heq, Option.bind_some, Option.bind_some, rspRet, ← hline]
    cases line with
    | none => rfl
    | some pRspParams => simp [Option.map_map, Function.comp_def]

/-- **The return value reports how the wait ended** exactly if it ended by the timeout or by a response
that came in this wait. -/
theorem getRspParamsF_reports_end (t : Nat) (s : AtState) (pExpectedRsp : Option (List UInt8))
    (buf : BinaryResponseBuf) (pParamFmt pre : List UInt8) (h : Host) :
    (∀ e out s' h', s.rspEnd t pExpectedRsp buf h = some e →
        s.uCxAtClientCmdGetRspParamsF t pExpectedRsp buf pParamFmt pre h = some (out, s', h') →
        ReportsEnd out.ret e) ↔
      ∀ e, s.rspEnd t pExpectedRsp buf h = some e → Told pParamFmt pre e := by
  have heq := s.getRspParamsF_eq t pExpectedRsp buf pParamFmt pre h
  have hret : ∀ {e : WaitEnd} {v : Int}, s.rspEnd t pExpectedRsp buf h = some e →
      rspRet pParamFmt pre e = some v →
      ∃ out s' h', s.uCxAtClientCmdGetRspParamsF t pExpectedRsp buf pParamFmt pre h =
        some (out, s', h') ∧ out.ret = v := by
    intro e v he hv
    rw [he, Option.bind_some, hv, Option.map_eq_some_iff] at heq
    obtain ⟨⟨out, s', h'⟩, hcall, hout⟩ := heq
    exact ⟨out, s', h', hcall, hout⟩
  constructor
  · intro hall e he
    match e with
    | .timeout => trivial
    | .status v =>
      obtain ⟨out, s', h', hcall, hout⟩ := hret he rfl
      exact (hall _ _ _ _ he hcall).1 hout
    | .rsp none =>
      obtain ⟨out, s', h', hcall, hout⟩ := hret he rfl
      exact hall _ _ _ _ he hcall hout
    | .rsp (some pRspParams) =>
      intro ⟨parsed, hparsed, hfails⟩
      obtain ⟨out, s', h', hcall, hout⟩ := hret (v := parsed.ret) he (by
        simp only [rspRet, rspLine, hparsed, Option.map_some])
      exact hall _ _ _ _ he hcall (hout.trans hfails)
  · intro hall e out s' h' he hcall
    have htold := hall e he
    rw [hcall, he, Option.map_some, Option.bind_some] at heq
    match e with
    | .timeout => trivial
    | .status v => exact htold.elim
    | .rsp none => exact htold.elim
    | .rsp (some pRspParams) =>
      intro hout
      obtain ⟨parsed, hparsed, hpret⟩ := Option.map_eq_some_iff.1 heq.symm
      exact htold ⟨parsed, hparsed, hpret.trans hout⟩

/-! ## Responses with their parameters -/

/-- While the payload of a response is received, its parameters are there. -/
def RspKept (c : AtClient) : Prop :=
  2 ≤ c.binaryRx.rxHeaderCount → c.binaryRx.state = .rsp → c.pRspParams ≠ none

theorem binaryRxNext_rspKept {t : Nat} {s : AtState}
    (h : s.client.binaryRx.state = .rsp → s.client.pRspParams ≠ none) :
    RspKept (s.binaryRxNext t).1.client ∧
      ((s.binaryRxNext t).2 = some .gotRsp → (s.binaryRxNext t).1.client.pRspParams ≠ none) := by
  rcases s.binaryRxNext_cases t with ⟨-, heq⟩ | ⟨-, heq⟩
  · rw [heq]
    exact ⟨fun _ => h, by rintro ⟨⟩⟩
  · rw [heq]
    cases hst : s.client.binaryRx.state with
    | rsp =>
      simp only [binaryRxDone, hst]
      exact ⟨fun _ => by rintro ⟨⟩, fun _ => h hst⟩
    | urc =>
      simp only [binaryRxDone, hst]
      exact ⟨fun _ => by rintro ⟨⟩, by rintro ⟨⟩⟩
    | flush =>
      simp only [binaryRxDone, hst]
      exact ⟨fun _ => by rintro ⟨⟩, by rintro ⟨⟩⟩

theorem takePayload_pRspParams (s : AtState) (bytes : List UInt8) :
    (s.takePayload bytes).client.pRspParams = s.client.pRspParams := by
  simp only [takePayload, storePayload]
  split
  · split <;> rfl
  · rfl

theorem setupBinaryTransfer_pRspParams (t : Nat) (s : AtState) (ret : ParserCode) (n : Nat) :
    (setupBinaryTransfer t s ret n).client.pRspParams = s.client.pRspParams := by
  cases ret with
  | gotUrc =>
    simp only [setupBinaryTransfer]
    split <;> rfl
  | _ => rfl

theorem parseLine_pRspParams {t : Nat} {c c' : AtClient} {pLine : List UInt8} {ret : ParserCode}
    (h : c.parseLine t pLine = (c', ret)) :
    (ret = .gotRsp → c'.pRspParams ≠ none) ∧ (c.pRspParams ≠ none → c'.pRspParams ≠ none) := by
  rcases AtClient.parseLine_cases h with ⟨rfl, -, v, rfl⟩ | ⟨-, -, p, rfl⟩ | ⟨rfl, -, rfl⟩ | ⟨rfl, rfl⟩ |
    ⟨rfl, -, rfl⟩
  · exact ⟨nofun, id⟩
  · exact ⟨fun _ => nofun, fun _ => nofun⟩
  all_goals exact ⟨nofun, id⟩

theorem lineDone_pRspParams (t : Nat) (c : AtClient) (ret : ParserCode) :
    (c.lineDone t ret).pRspParams = c.pRspParams := by
  unfold AtClient.lineDone
  split <;> rfl

theorem rxStep_rspKept {t : Nat} {s : AtState} {r : ReadStatus} (h : RspKept s.client) :
    RspKept (s.rxStep t r).1.client ∧
      ((s.rxStep t r).2 = some .gotRsp → (s.rxStep t r).1.client.pRspParams ≠ none) := by
  have heff := rxStep_effect t s r
  generalize (s.rxStep t r).1 = s' at heff ⊢
  generalize (s.rxStep t r).2 = ret at heff ⊢
  cases heff with
  | failed err => exact ⟨h, by rintro ⟨⟩⟩
  | quiet _ hret => exact ⟨h, fun hr => by rcases hret with rfl | rfl <;> cases hr⟩
  | @line b c ret hbin heol hp =>
    obtain ⟨hgot, hkept⟩ := parseLine_pRspParams hp
    obtain ⟨-, -, hrx⟩ := AtClient.parseLine_setup hp
    refine ⟨fun h2 hrsp => ?_, fun hr => ?_⟩
    · rw [AtClient.binaryRx_lineDone, hrx] at h2 hrsp
      rw [lineDone_pRspParams]
      exact hkept (h h2 hrsp)
    · rw [lineDone_pRspParams]
      unfold AtClient.lineRet at hr
      split at hr
      · exact hgot (Option.some.inj hr)
      · cases hr
  | header _ hlt => exact ⟨fun h2 => by simp only [storeHeader] at h2; omega, by rintro ⟨⟩⟩
  | @start bytes hbin hcount hge =>
    rcases hp : (s.storeHeader bytes).client.parseLine t (s.storeHeader bytes).client.rxBuffer
      with ⟨c, code⟩
    obtain ⟨n, -, hn⟩ := (s.storeHeader bytes).startTransfer_eq t hp
    rw [hn]
    refine binaryRxNext_rspKept fun hst => ?_
    dsimp only at hst ⊢
    rw [setupBinaryTransfer_pRspParams]
    rcases setupBinaryTransfer_state t { s.storeHeader bytes with client := c } code n with
      ⟨rfl, -⟩ | ⟨-, h1, -⟩ | ⟨-, h1, -⟩ | ⟨-, -, h1, -⟩
    · exact (parseLine_pRspParams hp).1 rfl
    all_goals rw [h1] at hst; cases hst
  | stalled _ hge =>
    obtain ⟨-, -, -, hst, -⟩ := s.takePayload_client []
    refine ⟨fun _ hrsp => ?_, by rintro ⟨⟩⟩
    rw [takePayload_pRspParams]
    exact h hge (hst ▸ hrsp)
  | @payload bytes _ _ hge =>
    obtain ⟨-, -, -, hst, -⟩ := s.takePayload_client bytes
    refine binaryRxNext_rspKept fun hrsp => ?_
    rw [takePayload_pRspParams]
    exact h hge (hst ▸ hrsp)

theorem handleRxData_rspKept (t : Nat) {s : AtState} (h : RspKept s.client) (rx : List UInt8)
    (sched : List Arrival) :
    RspKept (s.handleRxData t rx sched).1.client ∧
      ((s.handleRxData t rx sched).2.2 = .gotRsp →
        (s.handleRxData t rx sched).1.client.pRspParams ≠ none) := by
  induction sched generalizing s rx with
  | nil => exact ⟨h, nofun⟩
  | cons a sched ih =>
    rw [handleRxData]
    have hs := rxStep_rspKept (t := t) (r := (a.read rx s.wants).1) h
    rcases hr : s.rxStep t (a.read rx s.wants).1 with ⟨s1, _ | ret⟩
    · rw [hr] at hs
      simp only [hr]
      exact ih hs.1 _
    · rw [hr] at hs
      simp only [hr]
      exact ⟨hs.1, fun hret => hs.2 (congrArg some hret)⟩

theorem rspWait_params (t : Nat) {s : AtState} (h : RspKept s.client) (uart : Uart)
    (clock : List Int) : s.rspWait t uart clock ≠ some (.rsp none) := by
  induction clock generalizing s uart with
  | nil =>
    rw [rspWait]
    split <;> simp
  | cons now clock ih =>
    rw [rspWait]
    by_cases hst : s.client.status = noStatus
    · rw [if_pos hst]
      have hs := handleRxData_rspKept t h uart.rx uart.sched
      rcases hrx : s.handleRxData t uart.rx uart.sched with ⟨s1, uart1, ret⟩
      rw [hrx] at hs
      dsimp only at hs ⊢
      split
      · next hret => simpa using hs.2 hret
      split
      · simp
      split
      · simp
      · exact ih hs.1 uart1
    · rw [if_neg hst]
      simp

/-- **A response has its parameters**, unless its payload was being received at the call. -/
theorem rspEnd_params (t : Nat) {s : AtState} (pExpectedRsp : Option (List UInt8))
    (buf : BinaryResponseBuf) (h : Host)
    (hleft : ¬(2 ≤ s.client.binaryRx.rxHeaderCount ∧ s.client.binaryRx.state = .rsp)) :
    s.rspEnd t pExpectedRsp buf h ≠ some (.rsp none) :=
  rspWait_params t (fun h2 hrsp => absurd ⟨h2, hrsp⟩ hleft) h.uart h.clock

/-- The response `+X:5` has the parameter 5. -/
theorem rspEnd_params_five :
    inCommand.rspEnd 0 (some (text "+X:")) ⟨none, none⟩ (input (text "+X:5\rOK\r")) =
      some (.rsp (some (text "5"))) ∧
    inCommand.rspEnd 0 (some (text "+X:")) ⟨none, none⟩ (input (text "+X:5\rOK\r")) ≠ some (.rsp none) :=
  ⟨by decide, rspEnd_params 0 (some (text "+X:")) ⟨none, none⟩ (input (text "+X:5\rOK\r"))
    (s := inCommand) (by decide)⟩

/-- The query of a command that is answered by `ERROR:9` at once. -/
def failedQuery : Option (RspOutcome × AtState × Host) :=
  inCommand.uCxAtClientCmdGetRspParamsF 0 (some (text "+X:")) ⟨none, none⟩ (text "d") (text "+X:")
    (input (text "ERROR:9\r"))

theorem error_reported_as_timeout :
    failedQuery.map (·.1.ret) = some errorCmdTimeout ∧
    inCommand.rspEnd 0 (some (text "+X:")) ⟨none, none⟩ (input (text "ERROR:9\r")) =
      some (.status (-9)) ∧
    ¬∀ e out s' h',
      inCommand.rspEnd 0 (some (text "+X:")) ⟨none, none⟩ (input (text "ERROR:9\r")) = some e →
      failedQuery = some (out, s', h') → ReportsEnd out.ret e := by
  have hret : failedQuery.map (·.1.ret) = some errorCmdTimeout := by decide
  have hend : inCommand.rspEnd 0 (some (text "+X:")) ⟨none, none⟩ (input (text "ERROR:9\r")) =
      some (.status (-9)) := by decide
  refine ⟨hret, hend, fun hall => ?_⟩
  obtain ⟨⟨out, s', h'⟩, hcall, hout⟩ := Option.map_eq_some_iff.1 hret
  exact (hall _ _ _ _ hend hcall).1 hout

end AtState
