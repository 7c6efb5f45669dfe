import UcxClient.Api.Answers
import UcxClient.Client.BinaryAnswer

/-!
# Reading from a socket

`socket_read`: a response with a payload puts the first bytes of the payload into the buffer of the application,
and the function returns their number. The length that is asked for is taken modulo 65536. If the response
comes as text and its parameter is accepted, the function returns the length although nothing has been read
(`socket_read_text`). The answer arrives as one to a query does (`AnsweredBinary`, `Answered`).
-/

open AtClient Transaction UrcQueue

namespace Api

/-- The module answers `a`, which has a payload, to the command that begins now: the client is idle, its URC queue has
room for the URCs, and the bytes arrive before the timeout with no read failing. -/
structure AnsweredBinary (t : Nat) {P : List UInt8} {n : Nat} (a : BinaryAnswer P n) (sys : ApiSys) : Prop where
  rxBufferLen : sys.state.client.rxBufferLen = n
  ready : Ready sys.state.client
  small : sys.state.client.urcQueue.bufferLen < 2 ^ 31
  room : Room a.urcs sys.state.client.urcQueue
  fits : ∀ u ∈ a.urcs, u.Fits
  arrives : ∃ now clock, sys.host.clock = now :: clock ∧
    Arrives (sys.state.cmdBeginF t now).client a.bytes ⟨sys.host.uart, clock⟩

/-- No transfer is open and none will come, and the memory of the application is `mem`. -/
structure Plain (mem : CallerMem) (sys : ApiSys) : Prop where
  isBinaryRx : sys.state.client.isBinaryRx = false
  soh : sohChar ∉ sys.host.uart.rx
  mem : sys.state.mem = mem

section
variable {t : Nat} {edit : Callback} {mem : CallerMem}

/-- A command that is begun changes no memory of the application. -/
theorem cmdBeginF_plain (pCmd pParamFmt : List UInt8) (args : List Arg) :
    Triple (Plain mem) (cmdBeginF t pCmd pParamFmt args) fun _ => Plain mem := by
  rintro sys ⟨hbin, hsoh, hmem⟩ _ sys' hrun
  have hrun' : cmdBeginF t pCmd pParamFmt args sys = some ((), sys') := hrun
  rw [cmdBeginF] at hrun'
  split at hrun'
  · cases hrun'
  split at hrun'
  · cases hrun'
  · obtain ⟨bytes, -, heq⟩ := Option.map_eq_some_iff.1 hrun'
    cases heq
    exact ⟨hbin, hsoh, hmem⟩

theorem cmdGetRspParamsF_plain (pExpectedRsp : List UInt8) (buf : BinaryResponseBuf) (pParamFmt : List UInt8) :
    Triple (Plain mem) (cmdGetRspParamsF t pExpectedRsp buf pParamFmt) fun _ => Plain mem := by
  have hline : Triple (Plain mem) (cmdGetRspParamLine t pExpectedRsp buf) fun _ => Plain mem := by
    rintro sys ⟨hbin, hsoh, hmem⟩ line sys' hrun
    obtain ⟨⟨line, state, host⟩, hloop, heq⟩ := Option.map_eq_some_iff.1 hrun
    cases heq
    obtain ⟨hbin', hmem', hsoh'⟩ := AtState.rspLoop_plain (s := sys.state.expecting (some pExpectedRsp) buf) t hbin
      hsoh hloop
    exact ⟨hbin', hsoh', hmem'.trans hmem⟩
  refine hline.bind fun line => ?_
  cases line with
  | none => exact .pure _ fun _ h => h
  | some p =>
    have hparse : Triple (Plain mem) (parseParamsF (pExpectedRsp ++ p ++ [0]) pExpectedRsp.length pParamFmt)
        fun _ => Plain mem := by
      intro sys hsys r sys' hrun
      obtain ⟨r, -, heq⟩ := Option.map_eq_some_iff.1 hrun
      cases heq
      exact hsys
    exact hparse.bind fun r => .pure _ fun _ h => h

/-- The end of a command over text changes no memory of the application. -/
theorem alwaysEnd_mem (ret : Int) : Triple (Plain mem) (alwaysEnd t edit ret) fun _ sys => sys.state.mem = mem := by
  have hend : Triple (Plain mem) (cmdEnd t edit) fun _ sys => sys.state.mem = mem := by
    rintro sys ⟨hbin, hsoh, rfl⟩ r sys' hrun
    obtain ⟨-, o, state, host, hend, rfl, rfl⟩ := of_cmdEnd_runs hrun
    obtain ⟨⟨s1, h1⟩, hrx, hurcs⟩ := Option.bind_eq_some_iff.1 hend
    obtain ⟨⟨calls, c⟩, -, heq⟩ := Option.map_eq_some_iff.1 hurcs
    cases heq
    obtain ⟨⟨s0, h0⟩, hloop, heq⟩ := Option.map_eq_some_iff.1 hrx
    cases heq
    show s0.mem = sys.state.mem
    exact AtState.endLoop_mem t hbin hsoh hloop
  exact hend.bind fun endRet => .pure _ fun sys hsys => hsys

/-- A query whose response comes as text. -/
theorem query_mem (pCmd pParamFmt : List UInt8) (args : List Arg) (pExpectedRsp : List UInt8)
    (buf : BinaryResponseBuf) (rspFmt : List UInt8) :
    Triple (Plain mem) (query t edit pCmd pParamFmt args pExpectedRsp buf rspFmt)
      fun _ sys => sys.state.mem = mem :=
  (cmdBeginF_plain pCmd pParamFmt args).bind fun _ =>
    (cmdGetRspParamsF_plain pExpectedRsp buf rspFmt).bind fun r =>
      (alwaysEnd_mem r.1).bind fun _ => .pure _ fun _ h => h

end

theorem soh_bytes {P : List UInt8} {n : Nat} (a : Answer P n) : sohChar ∉ a.bytes := by
  intro h
  obtain ⟨l, hl, hmem⟩ := List.mem_flatMap.1 h
  exact (a.lines_ok l hl).soh hmem

/-- What the functions return for the result of their query and a payload. -/
def readResult (r : Int × List Arg) (n : Nat) : Int × List Arg := (if 0 ≤ r.1 then n else r.1, r.2)

/-- A URC before the response, a payload of three bytes with an end of line in it, and a URC behind it. -/
def sampleAnswer (P params : List UInt8)
    (hP : P.isPrefixOf (text "+UEWLD:0,1") = false ∧ P.isPrefixOf (text "+UEWLU:0") = false)
    (hparams : (∀ b ∈ P ++ params, isprint b = true) ∧ (P ++ params).length < 64) : BinaryAnswer P 64 where
  before := [(.urc (text "+UEWLD:0,1"), text "\r\n")]
  params
  payload := [97, 13, 98]
  after := {
    items := [(.urc (text "+UEWLU:0"), text "\r\n")]
    final := .ok
    eols := text "\r\n"
    items_ok := by
      simp only [List.forall_mem_cons, List.not_mem_nil, IsEmpty.forall_iff, implies_true, and_true]
      exact ⟨⟨rfl, hP.2⟩, List.all_eq_true.1 rfl, (by decide : (text "+UEWLU:0").length < 64),
        List.cons_ne_nil _ _, List.all_eq_true.1 rfl⟩
    final_ok := ok_line }
  before_ok := by
    simp only [List.forall_mem_cons, List.not_mem_nil, IsEmpty.forall_iff, implies_true, and_true]
    exact ⟨fun _ => Item.noConfusion, ⟨rfl, hP.1⟩, List.all_eq_true.1 rfl,
      (by decide : (text "+UEWLD:0,1").length < 64), List.cons_ne_nil _ _, List.all_eq_true.1 rfl⟩
  params_ok := hparams
  payload_short := by decide

/-- A fresh client is answered when the answer is its input. -/
theorem answeredBinary_fresh {P : List UInt8} (a : BinaryAnswer P 64)
    (hroom : Room a.urcs (client 64 64).client.urcQueue) (hfits : ∀ u ∈ a.urcs, u.Fits) :
    AnsweredBinary 0 a (fresh a.bytes) :=
  ⟨rfl, ready_client 64 64, (by decide : 64 < 2 ^ 31), hroom, hfits, arrives_fresh a.bytes⟩

section
variable {t : Nat} {edit : Callback} {P : List UInt8} {n : Nat} {sys : ApiSys}

variable (edit) in
/-- A query whose response has a payload. -/
theorem query_binary (hP : isUrcLine P = true) {a : BinaryAnswer P n} (h : AnsweredBinary t a sys)
    {pCmd pParamFmt : List UInt8} {args : List Arg} {bytes : List UInt8}
    (hbytes : uCxAtClientSendCmdVaList pCmd pParamFmt args = some bytes) {buf : BinaryResponseBuf}
    (hbuf : buf.pBuffer = none → AtState.capacity sys.state.mem buf = 0) (rspFmt : List UInt8) :
    ∃ sys', (query t edit pCmd pParamFmt args P buf rspFmt).run sys =
        some (queryResult rspFmt (some a.params) a.after.final.status, sys') ∧
      AtState.Captured sys.state.mem sys'.state.mem buf a.payload ∧
      Done sys.state.client.cmdMutex a.urcs (sys.sent ++ bytes) sys.calls sys' := by
  obtain ⟨hn, hready, hsmall, hroom, hfits, now, clock, hclock, harrives⟩ := h
  have hv := Final.status_ne a.after.final_ok.1
  have hne : P ≠ [] := fun he => absurd (he ▸ hP) (by decide)
  have h0 : 0 ∉ a.params := fun h0 => by
    cases a.params_ok.1 0 (List.mem_append_right P h0)
  have hbegin := cmdBeginF_run (t := t) hready hclock hbytes
  obtain ⟨k, s1, h1, hk, hmutex, hcb, hline, hcap, hbin, hrest, hstage⟩ :=
    a.received hP hready hsmall hn hroom t now harrives hbuf
  have hget : (cmdGetRspParamsF t P buf rspFmt).run { sys with
      state := sys.state.cmdBeginF t now
      host := { sys.host with clock }
      sent := sys.sent ++ bytes } = some (rspParams rspFmt (some a.params), { sys with
      state := s1
      host := h1
      sent := sys.sent ++ bytes }) := by
    have hline' : (cmdGetRspParamLine t P buf).run { sys with
        state := sys.state.cmdBeginF t now
        host := { sys.host with clock }
        sent := sys.sent ++ bytes } = some (some a.params, { sys with
        state := s1
        host := h1
        sent := sys.sent ++ bytes }) := congrArg (Option.map _) hline
    exact (runs_bind hline' _).trans (parse_rspParams hne h0 rspFmt _)
  have hanswering : Answering t sys.state.client.cmdMutex P a.after.final.status a.urcs (sys.sent ++ bytes) sys.calls
      a.after.params { sys with
        state := s1
        host := h1
        sent := sys.sent ++ bytes } :=
    ⟨rfl, rfl, nulFree_params a.after, k, hk, hmutex, hcb, hstage⟩
  obtain ⟨ret, sys', hend, rfl, hdone⟩ := alwaysEnd_returns edit hv hready.cmdFree hfits
    (rspParams rspFmt (some a.params)).1 _ hanswering
  have hmem := alwaysEnd_mem (rspParams rspFmt (some a.params)).1 _
    ⟨hbin, hrest ▸ soh_bytes a.after, rfl⟩ _ _ hend
  refine ⟨sys', (runs_bind hbegin _).trans ((runs_bind hget _).trans (runs_bind hend _)), ?_, hdone⟩
  rw [hmem]
  exact hcap

/-- A function that reads into the buffer `b`: it stores the first bytes of the payload, as many as the length
asks for, and returns their number. -/
theorem readBinary_answered (hP : isUrcLine P = true) {a : BinaryAnswer P n} (h : AnsweredBinary t a sys)
    {pCmd : List UInt8} {args : List Arg} {bytes : List UInt8}
    (hbytes : uCxAtClientSendCmdVaList pCmd (text "dd") args = some bytes) (rspFmt : List UInt8)
    (binBufferLen b : Nat) (length : Int32) :
    ∃ sys', (readBinary t edit pCmd args P rspFmt binBufferLen length (some b)).run sys =
        some (readResult (queryResult rspFmt (some a.params) a.after.final.status)
          (min a.payload.length (toUInt16 length)), sys') ∧
      (∀ b' i, sys'.state.mem.bytes b' i = if b' = b ∧ i < min a.payload.length (toUInt16 length) then
        a.payload.getD i 0 else sys.state.mem.bytes b' i) ∧
      Done sys.state.client.cmdMutex a.urcs (sys.sent ++ bytes) sys.calls sys' := by
  obtain ⟨sys1, hsys1⟩ : ∃ sys1 : ApiSys, sys1 = { sys with state := { sys.state with
    mem := sys.state.mem.setLength (some binBufferLen) (toUInt16 length) } } := ⟨_, rfl⟩
  have hset : (setBinBufferLen binBufferLen length).run sys = some ((), sys1) := hsys1 ▸ rfl
  have h1 : AnsweredBinary t a sys1 := by
    rw [hsys1]
    exact ⟨h.rxBufferLen, h.ready, h.small, h.room, h.fits, h.arrives⟩
  have hcap : AtState.capacity sys1.state.mem ⟨some b, some binBufferLen⟩ = toUInt16 length := by
    rw [hsys1]
    exact if_pos rfl
  have hbuf : (⟨some b, some binBufferLen⟩ : BinaryResponseBuf).pBuffer = none →
      AtState.capacity sys1.state.mem ⟨some b, some binBufferLen⟩ = 0 := fun h => absurd h (Option.some_ne_none b)
  obtain ⟨sys2, hquery, ⟨hmem, hlength⟩, hdone⟩ := query_binary edit hP h1 hbytes hbuf rspFmt
  rw [hcap] at hmem hlength
  refine ⟨sys2, (runs_bind hset _).trans ((runs_bind hquery _).trans ?_), fun b' i => ?_, ?_⟩
  · dsimp only
    rw [readResult]
    split
    · have hvar := hlength binBufferLen
      rw [if_pos rfl] at hvar
      rw [← hvar]
      rfl
    · rfl
  · rw [hmem b' i, hsys1]
    simp only [Option.some.injEq, @eq_comm _ b b']
    rfl
  · rw [hsys1] at hdone
    exact hdone

def readSample : BinaryAnswer (text "+USORB:") 64 :=
  sampleAnswer (text "+USORB:") (text "0") (by decide) ⟨List.all_eq_true.1 rfl, by decide⟩

def receiveFromSample : BinaryAnswer (text "+USORFB:") 64 :=
  sampleAnswer (text "+USORFB:") (text "0,192.168.0.1,8080") (by decide) ⟨List.all_eq_true.1 rfl, by decide⟩

/-- **A response as text.** If the response to the read has no payload, nothing is stored, and yet the function
returns the length that the application has asked for, unless its parameter is refused or the module says no OK. -/
theorem socket_read_text {a : Answer (text "+USORB:") n} (h : Answered t a sys) (binBufferLen : Nat)
    (socketHandle length : Int32) (pDataBuf : Option Nat) :
    ∃ sys', (uCxSocketRead t edit binBufferLen socketHandle length pDataBuf).run sys =
        some (readResult (queryResult (text "-") a.params.head? a.final.status) (toUInt16 length), sys') ∧
      sys'.state.mem = sys.state.mem.setLength (some binBufferLen) (toUInt16 length) ∧
      Done sys.state.client.cmdMutex a.urcs
        (sys.sent ++ cmdBytes (text "AT+USORB=") (text "dd") [.int socketHandle, .int length]) sys.calls sys' := by
  obtain ⟨sys1, hsys1⟩ : ∃ sys1 : ApiSys, sys1 = { sys with state := { sys.state with
    mem := sys.state.mem.setLength (some binBufferLen) (toUInt16 length) } } := ⟨_, rfl⟩
  have hset : (setBinBufferLen binBufferLen length).run sys = some ((), sys1) := hsys1 ▸ rfl
  have h1 : Answered t a sys1 := by
    rw [hsys1]
    exact ⟨h.rxBufferLen, h.ready, h.small, h.room, h.short, h.arrives⟩
  have hsoh : sohChar ∉ sys1.host.uart.rx := by
    obtain ⟨now, clock, -, harrives⟩ := h1.arrives
    rw [show sys1.host.uart.rx = a.bytes from harrives.1]
    exact soh_bytes a
  obtain ⟨_, sys2, hquery, rfl, hdone⟩ := query_answered edit (by decide) h1
    (show uCxAtClientSendCmdVaList (text "AT+USORB=") (text "dd") [.int socketHandle, .int length] = _ from rfl)
    ⟨pDataBuf, some binBufferLen⟩ (text "-") sys1 rfl
  have hmem := query_mem _ _ _ _ _ _ sys1 ⟨h1.ready.idle.isBinaryRx, hsoh, rfl⟩ _ _ hquery
  refine ⟨sys2, (runs_bind hset _).trans ((runs_bind hquery _).trans ?_), ?_, ?_⟩
  · dsimp only
    rw [readResult]
    split
    · have hvar : sys2.state.mem.length binBufferLen = toUInt16 length := by
        rw [hmem, hsys1]
        exact if_pos rfl
      rw [← hvar]
      rfl
    · rfl
  · rw [hmem, hsys1]
  · rw [hsys1] at hdone
    exact hdone

end

/-- The module tells the length of what it does not send. -/
def readTextAnswer : Answer (text "+USORB:") 64 :=
  rspAnswer (text "+USORB:") (text "0,5") ⟨List.all_eq_true.1 rfl, by decide⟩

theorem socket_read_text_five : ∃ sys',
    (uCxSocketRead 0 id 0 0 5 (some 7)).run (fresh readTextAnswer.bytes) = some ((5, []), sys') ∧
    sys'.state.mem = (client 64 64).mem.setLength (some 0) 5 ∧
    Done (Mutex.create false) [] (text "AT+USORB=0,5\r") [] sys' := by
  have hresult : readResult (queryResult (text "-") readTextAnswer.params.head? readTextAnswer.final.status)
      (toUInt16 5) = (5, []) := by
    decide +kernel
  obtain ⟨sys', hrun, hmem, hdone⟩ := socket_read_text (answered_rsp (p := text "0,5") _) 0 0 5 (some 7)
  exact ⟨sys', hresult ▸ hrun, hmem, hdone⟩

end Api
