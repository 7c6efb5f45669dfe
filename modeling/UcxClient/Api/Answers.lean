import UcxClient.Api.Socket
import UcxClient.Api.Urc
import UcxClient.Client.Awaited

/-!
# What the functions make of an answer

`socket_query_answered`: what a query returns for what the module answers, with URCs and echoes between.
Where the response is missing that is the code of a timeout, whatever the status; where a parameter is not what the
format asks for it is the number of that parameter, negated. `socket_list_status`: a listing returns the items
in order, and then the status. The module answers in time with lines that fit the line buffer, URCs that have room
and a status that is no error or one between 1 and 65535 (`Answered`).
-/

open AtClient Transaction UrcQueue

namespace Api

/-! ## A command on the way -/

/-- The command has begun; the module brings the responses `ps` to the prefix `P`, the URCs `us` and the status
`v`. The bytes `w` have been sent, and the URC callback has been called with `cs`. -/
structure Begun (t : Nat) (m : Mutex) (P : List UInt8) (v : Int) (us : List Urc) (w : List UInt8)
    (cs : List (AtClient × Urc.View)) (ps : List (List UInt8)) (sys : ApiSys) : Prop where
  sent : sys.sent = w
  calls : sys.calls = cs
  nulFree : ∀ p ∈ ps, 0 ∉ p
  stage : ∃ k, Started k P ∧ k.cmdMutex = m.lock t ∧ k.urcCallback = true ∧
    ∀ buf, Stage k P v us ps (sys.state.expecting (some P) buf) sys.host

/-- The same behind the call that expects the first response. -/
structure Answering (t : Nat) (m : Mutex) (P : List UInt8) (v : Int) (us : List Urc) (w : List UInt8)
    (cs : List (AtClient × Urc.View)) (ps : List (List UInt8)) (sys : ApiSys) : Prop where
  sent : sys.sent = w
  calls : sys.calls = cs
  nulFree : ∀ p ∈ ps, 0 ∉ p
  stage : ∃ k, Started k P ∧ k.cmdMutex = m.lock t ∧ k.urcCallback = true ∧ Stage k P v us ps sys.state sys.host

/-- The command has ended, and the URC callback has been called with its URCs. -/
structure Done (m : Mutex) (us : List Urc) (w : List UInt8) (cs : List (AtClient × Urc.View)) (sys : ApiSys) :
    Prop where
  sent : sys.sent = w
  executingCmd : sys.state.client.executingCmd = false
  cmdMutex : sys.state.client.cmdMutex = m
  calls : ∃ calls, sys.calls = cs ++ calls ∧ calls.map Prod.snd = us.map Urc.view

/-- The module answers `a` to the command that begins now: the client is idle, its URC queue has room for the URCs,
and the bytes arrive before the timeout with no read failing. -/
structure Answered (t : Nat) {P : List UInt8} {n : Nat} (a : Answer P n) (sys : ApiSys) : Prop where
  rxBufferLen : sys.state.client.rxBufferLen = n
  ready : Ready sys.state.client
  small : sys.state.client.urcQueue.bufferLen < 2 ^ 31
  room : Room a.urcs sys.state.client.urcQueue
  short : ∀ line ∈ a.urcLines, line.length ≤ 65535
  arrives : ∃ now clock, sys.host.clock = now :: clock ∧
    Arrives (sys.state.cmdBeginF t now).client a.bytes ⟨sys.host.uart, clock⟩

section
variable {t : Nat} (edit : Callback) {m : Mutex} {P : List UInt8} {v : Int} {us : List Urc} {w : List UInt8}
  {cs : List (AtClient × Urc.View)} {ps : List (List UInt8)}

theorem Answering.begun {sys : ApiSys} (h : Answering t m P v us w cs ps sys) : Begun t m P v us w cs ps sys := by
  obtain ⟨k, hk, hmutex, hcb, hstage⟩ := h.stage
  exact ⟨h.sent, h.calls, h.nulFree, k, hk, hmutex, hcb, hstage.expectRsp hk⟩

theorem nulFree_params {n : Nat} (a : Answer P n) : ∀ p ∈ a.params, 0 ∉ p := by
  intro p hp h0
  obtain ⟨⟨item, eols⟩, hx, hitem⟩ := List.mem_filterMap.1 hp
  cases item with
  | rsp params =>
    cases hitem
    have hprint := (a.items_ok _ hx).2.printable 0 (List.mem_append_right P h0)
    cases hprint
  | urc => cases hitem
  | echo => cases hitem

theorem cmdBeginF_run {sys : ApiSys} (hready : Ready sys.state.client) {now : Int} {clock : List Int}
    (hclock : sys.host.clock = now :: clock) {pCmd pParamFmt : List UInt8} {args : List Arg} {bytes : List UInt8}
    (hbytes : uCxAtClientSendCmdVaList pCmd pParamFmt args = some bytes) :
    (cmdBeginF t pCmd pParamFmt args).run sys = some ((), { sys with
      state := sys.state.cmdBeginF t now
      host := { sys.host with clock }
      sent := sys.sent ++ bytes }) := by
  have hcan : ¬(sys.state.client.cmdMutex.available t = false ∨ sys.state.client.executingCmd = true) := by
    rw [hready.cmdFree.available t, hready.idle.executingCmd]
    simp
  show cmdBeginF t pCmd pParamFmt args sys = _
  rw [cmdBeginF, if_neg hcan, hclock]
  simp only [hbytes, Option.map_some]

theorem cmdBeginF_returns (hP : isUrcLine P = true) {n : Nat} (a : Answer P n) {sys : ApiSys} (h : Answered t a sys)
    {pCmd pParamFmt : List UInt8} {args : List Arg} {bytes : List UInt8}
    (hbytes : uCxAtClientSendCmdVaList pCmd pParamFmt args = some bytes) :
    Returns (· = sys) (cmdBeginF t pCmd pParamFmt args) fun _ => Begun t sys.state.client.cmdMutex P a.final.status
      a.urcs (sys.sent ++ bytes) sys.calls a.params := by
  rintro sys rfl
  obtain ⟨hn, hready, hsmall, hroom, -, now, clock, hclock, harrives⟩ := h
  subst hn
  exact ⟨(), _, cmdBeginF_run hready hclock hbytes, rfl, rfl, nulFree_params a,
    { (sys.state.cmdBeginF t now).client with pExpectedRsp := some P },
    ⟨rfl, hready.idle.isBinaryRx, rfl, rfl⟩, rfl, hready.callback,
    begun_stage hP a hready hsmall hroom t now harrives⟩

theorem cmdGetRspParamLine_returns (hv : v ≠ noStatus) (buf : BinaryResponseBuf) :
    Returns (Begun t m P v us w cs ps) (cmdGetRspParamLine t P buf) fun line sys =>
      line = ps.head? ∧ Answering t m P v us w cs ps.tail sys := by
  rintro sys ⟨hsent, hcalls, hnul, k, hk, hmutex, hcb, hstage⟩
  obtain ⟨s', h', hloop, hstage'⟩ := (hstage buf).rspLoop hk hv t
  refine ⟨ps.head?, { sys with state := s', host := h' }, ?_, rfl, hsent, hcalls,
    fun p hp => hnul p (List.mem_of_mem_tail hp), k, hk, hmutex, hcb, hstage'⟩
  show Option.map _ (AtState.uCxAtClientCmdGetRspParamLine t sys.state (some P) buf sys.host) = _
  rw [show AtState.uCxAtClientCmdGetRspParamLine t sys.state (some P) buf sys.host = _ from hloop]
  rfl

/-- What `uCxAtClientCmdGetRspParamsF` comes to for a response with these parameters, or without a response. -/
def rspParams (pParamFmt : List UInt8) : Option (List UInt8) → Int × List Arg
  | none => (errorCmdTimeout, [])
  | some p => (returned 0 (pParamFmt.zip (tokens p)), values (accepted (pParamFmt.zip (tokens p))))

/-- The parse of the parameters of a response. -/
theorem parse_rspParams (hP : P ≠ []) {p : List UInt8} (h0 : 0 ∉ p) (pParamFmt : List UInt8) (sys : ApiSys) :
    (parseParamsF (P ++ p ++ [0]) P.length pParamFmt >>= fun r =>
      (return (r.ret, r.outputs.map (Output.value r.m)) : Api (Int × List Arg))).run sys =
        some (rspParams pParamFmt (some p), sys) := by
  rcases loop_tokens pParamFmt h0 P [] 0 [] with ⟨hnone, -⟩ | ⟨p', new, -, hloop, hnew⟩
  · exact absurd hnone (loop_defined pParamFmt (List.length_pos_iff.2 hP) 0 [])
  · have hparse : (parseParamsF (P ++ p ++ [0]) P.length pParamFmt).run sys = some (_, sys) :=
      congrArg (Option.map fun r => (r, sys)) hloop
    refine (runs_bind hparse _).trans ?_
    rw [rspParams, ← hnew]
    rfl

theorem cmdGetRspParamsF_returns (hP : P ≠ []) (hv : v ≠ noStatus) (buf : BinaryResponseBuf)
    (pParamFmt : List UInt8) :
    Returns (Begun t m P v us w cs ps) (cmdGetRspParamsF t P buf pParamFmt) fun r sys =>
      r = rspParams pParamFmt ps.head? ∧ Answering t m P v us w cs ps.tail sys := by
  intro sys hsys
  obtain ⟨line, sys', hrun, rfl, hsys'⟩ := cmdGetRspParamLine_returns hv buf sys hsys
  refine ⟨rspParams pParamFmt ps.head?, sys', (runs_bind hrun _).trans ?_, rfl, hsys'⟩
  cases ps with
  | nil => rfl
  | cons p ps => exact parse_rspParams hP (hsys.nulFree p List.mem_cons_self) pParamFmt sys'

theorem cmdEnd_returns (hv : v ≠ noStatus) (hfree : m.Free) (hfits : ∀ u ∈ us, u.Fits) :
    Returns (Answering t m P v us w cs ps) (cmdEnd t edit) fun ret sys => ret = v ∧ Done m us w cs sys := by
  rintro sys ⟨hsent, hcalls, -, k, hk, hmutex, hcb, hstage⟩
  obtain ⟨s', h', hloop, hend⟩ := hstage.endLoop hk hv t
  obtain ⟨rxBuffer, pRspParams, rspBinaryBuf, urcQueue, hc⟩ := hend.client
  have hcb' : (s'.client.finishCmd t).urcCallback = true := by
    rw [AtClient.finishCmd, hc]
    exact hcb
  obtain ⟨calls, q, hurcs, -, hviews, -⟩ :=
    processUrcs_holds t edit hfits (c := s'.client.finishCmd t) hend.queue hcb' (Nat.lt_succ_self _)
  refine ⟨v, { sys with
      state := { s' with client := { s'.client.finishCmd t with urcQueue := q } }
      host := h'
      calls := sys.calls ++ calls }, ?_, rfl, hsent, rfl, ?_, calls, congrArg (· ++ calls) hcalls, hviews⟩
  · have hexec : ¬sys.state.client.executingCmd = false := by
      have hsetup : s'.client.executingCmd = sys.state.client.executingCmd :=
        congrArg Setup.executingCmd (AtState.endLoop_setup t hloop)
      rw [← hsetup, hc]
      exact (Bool.not_eq_false _).mpr hk.executingCmd
    have hstatus : (s'.client.finishCmd t).status = v := by
      rw [AtClient.finishCmd, hc]
    show cmdEnd t edit sys = _
    rw [cmdEnd, if_neg hexec, AtState.cmdEnd, AtState.cmdEndRx, hloop, Option.map_some, Option.bind_some]
    simp only [hurcs, Option.map_some, hstatus]
  · show (s'.client.finishCmd t).cmdMutex = m
    rw [AtClient.finishCmd, hc]
    exact (congrArg (Mutex.unlock · t) hmutex).trans (hfree.unlock_lock t)

theorem alwaysEnd_returns (hv : v ≠ noStatus) (hfree : m.Free) (hfits : ∀ u ∈ us, u.Fits) (ret : Int) :
    Returns (Answering t m P v us w cs ps) (alwaysEnd t edit ret) fun r sys =>
      r = (if 0 ≤ ret then v else ret) ∧ Done m us w cs sys := by
  refine (cmdEnd_returns edit hv hfree hfits).bind fun endRet => ?_
  refine .pure _ ?_
  rintro sys ⟨rfl, hdone⟩
  exact ⟨rfl, hdone⟩

end

/-! ## One response -/

/-- What a query returns for the parameters of its response, if there is one, and the status of the command. -/
def queryResult (rspFmt : List UInt8) (p : Option (List UInt8)) (status : Int) : Int × List Arg :=
  let (ret, values) := rspParams rspFmt p
  (if 0 ≤ ret then status else ret, values)

/-- The URCs fit their fields. -/
theorem Answered.fits {t : Nat} {P : List UInt8} {n : Nat} {a : Answer P n} {sys : ApiSys} (h : Answered t a sys) :
    ∀ u ∈ a.urcs, u.Fits := by
  intro u hu
  obtain ⟨line, hline, rfl⟩ := List.mem_map.1 hu
  exact ⟨Nat.lt_succ_of_le (h.short line hline), Nat.zero_lt_succ _⟩

section
variable {t : Nat} (edit : Callback) {P : List UInt8} {n : Nat} {a : Answer P n} {sys : ApiSys}

theorem query_answered (hP : isUrcLine P = true) (h : Answered t a sys) {pCmd pParamFmt : List UInt8}
    {args : List Arg} {bytes : List UInt8} (hbytes : uCxAtClientSendCmdVaList pCmd pParamFmt args = some bytes)
    (buf : BinaryResponseBuf) (rspFmt : List UInt8) :
    Returns (· = sys) (query t edit pCmd pParamFmt args P buf rspFmt) fun r sys' =>
      r = queryResult rspFmt a.params.head? a.final.status ∧
      Done sys.state.client.cmdMutex a.urcs (sys.sent ++ bytes) sys.calls sys' := by
  have hv := Final.status_ne a.final_ok.1
  have hne : P ≠ [] := fun he => absurd (he ▸ hP) (by decide)
  refine (cmdBeginF_returns hP a h hbytes).bind fun _ => ?_
  refine (cmdGetRspParamsF_returns hne hv buf rspFmt).bind fun (ret, values) => ?_
  rintro sys1 ⟨hr, hsys1⟩
  obtain ⟨_, sys2, hend, rfl, hdone⟩ := alwaysEnd_returns edit hv h.ready.cmdFree h.fits ret sys1 hsys1
  refine ⟨_, sys2, runs_bind hend _, ?_, hdone⟩
  rw [queryResult, ← hr]

end

theorem SocketQuery.sends (q : SocketQuery) :
    uCxAtClientSendCmdVaList q.command.1 q.command.2.1 q.command.2.2 = some q.bytes := by
  cases q <;> rfl

/-- The line with OK. -/
theorem ok_line : Final.Ok .ok ∧ Line.Ok 64 ⟨Final.chars .ok, text "\r\n"⟩ :=
  ⟨trivial, List.all_eq_true.1 rfl, by decide, by decide, List.all_eq_true.1 rfl⟩

/-- The line with the error 42. -/
theorem error_line : Final.Ok (.code (text "42")) ∧ Line.Ok 64 ⟨Final.chars (.code (text "42")), text "\r\n"⟩ :=
  ⟨⟨List.cons_ne_nil _ _, List.all_eq_true.1 rfl, by decide, by decide⟩, List.all_eq_true.1 rfl, by decide, by decide,
    List.all_eq_true.1 rfl⟩

/-- A URC, an echo and a response to a query of the status of a socket. -/
def statusAnswer : Answer (SocketQuery.getStatus 1).pExpectedRsp 64 where
  items := [(.urc (text "+UEWLD:0,1"), text "\r\n"), (.echo (text "USOST=1"), text "\r"),
    (.rsp (text "1,6,2"), text "\r\n")]
  final := .ok
  eols := text "\r\n"
  items_ok := by
    simp only [List.forall_mem_cons, List.not_mem_nil, IsEmpty.forall_iff, implies_true, and_true]
    refine ⟨⟨⟨by decide, by decide⟩, ?_⟩, ⟨trivial, ?_⟩, ⟨trivial, ?_⟩⟩ <;>
    exact ⟨List.all_eq_true.1 rfl, by decide, by decide, List.all_eq_true.1 rfl⟩
  final_ok := ok_line

/-- The input of a fresh client arrives byte by byte. -/
theorem arrives_fresh (bs : List UInt8) : ∃ now clock, (fresh bs).host.clock = now :: clock ∧
    Arrives ((fresh bs).state.cmdBeginF 0 now).client bs ⟨(fresh bs).host.uart, clock⟩ := by
  refine ⟨0, List.replicate (2 * bs.length) 0, rfl, rfl, delivers_map bs, ?_, ?_⟩
  · show (bs.map fun _ => Arrival.avail 1).length ≤ (List.replicate (2 * bs.length) (0 : Int)).length
    rw [List.length_map, List.length_replicate]
    omega
  · intro now hnow
    rw [List.eq_of_mem_replicate hnow]
    exact (rfl : (client 0 0 |>.cmdBeginF 0 0).client.timedOut 0 = false)

/-- A fresh client is answered when the answer is its input. -/
theorem answered_fresh {P : List UInt8} (a : Answer P 64) (hroom : Room a.urcs (client 64 64).client.urcQueue)
    (hshort : ∀ line ∈ a.urcLines, line.length ≤ 65535) : Answered 0 a (fresh a.bytes) :=
  ⟨rfl, ready_client 64 64, (by decide : 64 < 2 ^ 31), hroom, hshort, arrives_fresh a.bytes⟩

/-- An application that asks for the next socket while there is one, at most `n` times. -/
def nextSockets (t : Nat) : Nat → Api (List (List Arg))
  | 0 => return []
  | n + 1 => do
    let (more, socket) ← uCxSocketListStatusGetNext t
    if more then
      let sockets ← nextSockets t n
      return socket :: sockets
    else return []

/-- An application that lists the sockets. -/
def listSockets (t : Nat) (edit : Callback) (n : Nat) : Api (List (List Arg) × Int) := do
  uCxSocketListStatusBegin t
  let sockets ← nextSockets t n
  let ret ← uCxEnd t edit
  return (sockets, ret)

/-- The values of the responses before the first one that is refused. -/
def listed (rspFmt : List UInt8) (ps : List (List UInt8)) : List (List Arg) :=
  ((ps.map fun p => rspParams rspFmt (some p)).takeWhile fun r => 0 ≤ r.1).map Prod.snd

section
variable {t : Nat} {edit : Callback}

theorem getNext_returns {m : Mutex} {P : List UInt8} {v : Int} {us : List Urc} {w : List UInt8}
    {cs : List (AtClient × Urc.View)} {ps : List (List UInt8)} (hP : P ≠ []) (hv : v ≠ noStatus)
    (rspFmt : List UInt8) :
    Returns (Begun t m P v us w cs ps) (getNext t P rspFmt) fun r sys =>
      r = (decide (0 ≤ (rspParams rspFmt ps.head?).1), (rspParams rspFmt ps.head?).2) ∧
      Answering t m P v us w cs ps.tail sys := by
  refine (cmdGetRspParamsF_returns hP hv ⟨none, none⟩ rspFmt).bind fun r => .pure _ ?_
  rintro sys ⟨rfl, hsys⟩
  exact ⟨rfl, hsys⟩

/-- By induction on the responses that are still to come. -/
theorem nextSockets_returns {m : Mutex} {v : Int} {us : List Urc} {w : List UInt8}
    {cs : List (AtClient × Urc.View)} (hv : v ≠ noStatus) (ps : List (List UInt8)) {k : Nat} (hk : ps.length < k) :
    Returns (Begun t m (text "+USOST:") v us w cs ps) (nextSockets t k) fun sockets sys =>
      sockets = listed (text "ddd") ps ∧ ∃ ps', Answering t m (text "+USOST:") v us w cs ps' sys := by
  induction ps generalizing k with
  | nil =>
    obtain ⟨k, rfl⟩ : ∃ k', k = k' + 1 := ⟨k - 1, by omega⟩
    intro sys hsys
    obtain ⟨_, sys1, hnext, rfl, hsys1⟩ := getNext_returns (by decide) hv (text "ddd") sys hsys
    exact ⟨[], sys1, runs_bind hnext _, rfl, _, hsys1⟩
  | cons p ps ih =>
    obtain ⟨k, rfl⟩ : ∃ k', k = k' + 1 := ⟨k - 1, by omega⟩
    intro sys hsys
    obtain ⟨_, sys1, hnext, rfl, hsys1⟩ := getNext_returns (by decide) hv (text "ddd") sys hsys
    have hlisted : listed (text "ddd") (p :: ps) = if 0 ≤ (rspParams (text "ddd") (some p)).1 then
        (rspParams (text "ddd") (some p)).2 :: listed (text "ddd") ps else [] := by
      rw [listed, List.map_cons, List.takeWhile_cons]
      split <;> simp_all [listed]
    by_cases hret : 0 ≤ (rspParams (text "ddd") (p :: ps).head?).1
    · obtain ⟨_, sys2, hrest, rfl, hsys2⟩ := ih (Nat.lt_of_succ_lt_succ hk) sys1 hsys1.begun
      refine ⟨listed (text "ddd") (p :: ps), sys2, (runs_bind hnext _).trans ?_, rfl, hsys2⟩
      rw [hlisted, if_pos (show 0 ≤ (rspParams (text "ddd") (some p)).1 from hret)]
      dsimp only
      rw [if_pos (decide_eq_true hret)]
      exact runs_bind hrest _
    · refine ⟨[], sys1, (runs_bind hnext _).trans ?_, ?_, _, hsys1⟩
      · dsimp only
        rw [if_neg fun h => hret (of_decide_eq_true h)]
        rfl
      · rw [hlisted, if_neg (show ¬0 ≤ (rspParams (text "ddd") (some p)).1 from hret)]

/-- **A listing.** An application that asks often enough gets the values of the responses in order, up to the
first one that is refused, and then the status of the command, whether it has read all responses or not. -/
theorem socket_list_status {n : Nat} {a : Answer (text "+USOST:") n} {sys : ApiSys} (h : Answered t a sys) {k : Nat}
    (hk : a.params.length < k) :
    ∃ sys', (listSockets t edit k).run sys = some ((listed (text "ddd") a.params, a.final.status), sys') ∧
      Done sys.state.client.cmdMutex a.urcs (sys.sent ++ text "AT+USOST?\r") sys.calls sys' := by
  have hv := Final.status_ne a.final_ok.1
  obtain ⟨_, sys1, hbegin, hsys1⟩ := cmdBeginF_returns (by decide) a h (show uCxAtClientSendCmdVaList
    (text "AT+USOST?") (text "") [] = some (text "AT+USOST?\r") from rfl) sys rfl
  obtain ⟨_, sys2, hnext, rfl, ps', hsys2⟩ := nextSockets_returns hv a.params hk sys1 hsys1
  obtain ⟨_, sys3, hend, rfl, hdone⟩ := cmdEnd_returns edit hv h.ready.cmdFree h.fits sys2 hsys2
  exact ⟨sys3, (runs_bind hbegin _).trans ((runs_bind hnext _).trans (runs_bind hend _)), hdone⟩

end

/-- Two sockets, of which the second one comes without its status, and an error. -/
def listAnswer : Answer (text "+USOST:") 64 where
  items := [(.rsp (text "0,6,1"), text "\r\n"), (.urc (text "+UEWLD:0,1"), text "\r\n"),
    (.rsp (text "1,17"), text "\r")]
  final := .code (text "42")
  eols := text "\r\n"
  items_ok := by
    simp only [List.forall_mem_cons, List.not_mem_nil, IsEmpty.forall_iff, implies_true, and_true]
    refine ⟨⟨trivial, ?_⟩, ⟨⟨by decide, by decide⟩, ?_⟩, ⟨trivial, ?_⟩⟩ <;>
    exact ⟨List.all_eq_true.1 rfl, by decide, by decide, List.all_eq_true.1 rfl⟩
  final_ok := error_line

theorem socket_list_status_two : ∃ sys', (listSockets 0 id 5).run (fresh listAnswer.bytes) =
      some (([[.int 0, .int 6, .int 1], [.int 1, .int 17]], -42), sys') ∧
    Done (Mutex.create false) [⟨text "+UEWLD:0,1", []⟩] (text "AT+USOST?\r") [] sys' := by
  have hresult : (listed (text "ddd") listAnswer.params, listAnswer.final.status) =
      ([[.int 0, .int 6, .int 1], [.int 1, .int 17]], -42) := by
    decide +kernel
  rw [← hresult]
  exact socket_list_status (answered_fresh listAnswer (by unfold Room; decide) (by decide)) (by decide)

/-! ## A write -/

/-- What a write returns for the result of its query. -/
def writeResult (r : Int × List Arg) : Option Int := if 0 ≤ r.1 then writtenLength r.2 else some r.1

/-- A parameter that the format `d` accepts is a number. -/
theorem decode_d {tok : Token} (h : refused (ch 'd', tok) = false) :
    ∃ i, decode (ch 'd') tok.chars = some (.int i) := by
  have hd : assigns (ch 'd') = true := by decide
  simp only [refused, hd, Bool.true_and, Bool.or_eq_false_iff] at h
  have hvalue := h.2
  simp only [decode, if_true] at hvalue ⊢
  split at hvalue
  · cases hvalue
  next h =>
    rw [if_neg h]
    exact ⟨_, rfl⟩

/-- A response to a write has one parameter, a number as its second one, or a parameter that is refused. -/
theorem rspParams_write (p : List UInt8) :
    (∃ t, tokens p = [⟨t, false⟩] ∧ rspParams (text "-d") (some p) = (1, [])) ∨
    (∃ i, rspParams (text "-d") (some p) = (2, [.int i])) ∨ (rspParams (text "-d") (some p)).1 < 0 := by
  obtain ⟨⟨t, malformed⟩, ts, htokens⟩ : ∃ tok ts, tokens p = tok :: ts := ⟨_, _, rfl⟩
  have hfmt : text "-d" = [ch '-', ch 'd'] := rfl
  rw [rspParams, htokens, hfmt, List.zip_cons_cons]
  cases malformed with
  | true =>
    refine .inr (.inr ?_)
    rw [returned_cons_refused rfl]
    exact (by decide : (-(0 + 1) : Int) < 0)
  | false =>
    have hdash : refused (ch '-', ⟨t, false⟩) = false := rfl
    rw [returned_cons hdash, values_accepted_cons hdash]
    cases ts with
    | nil => exact .inl ⟨t, rfl, rfl⟩
    | cons tok ts =>
      rw [List.zip_cons_cons, List.zip_nil_left]
      cases href : refused (ch 'd', tok) with
      | true =>
        refine .inr (.inr ?_)
        rw [returned_cons_refused href]
        exact (by decide : (-(0 + 1 + 1) : Int) < 0)
      | false =>
        obtain ⟨i, hi⟩ := decode_d href
        refine .inr (.inl ⟨i, ?_⟩)
        rw [returned_cons href, values_accepted_cons href, hi]
        rfl

/-- What a write returns is told by its query. -/
theorem write_answered {t : Nat} (edit : Callback) {n : Nat} {a : Answer (text "+USOWB:") n} {sys : ApiSys}
    (h : Answered t a sys) (socketHandle : Int32) {binaryData : List UInt8} (hdata : binaryData ≠ []) :
    ∃ sys', (uCxSocketWrite t edit socketHandle binaryData).run sys =
      (writeResult (queryResult (text "-d") a.params.head? a.final.status)).map (·, sys') := by
  obtain ⟨bytes, hbytes⟩ : ∃ bytes, uCxAtClientSendCmdVaList (text "AT+USOWB=") (text "dB")
      [.int socketHandle, .binary binaryData] = some bytes := by
    cases binaryData with
    | nil => exact absurd rfl hdata
    | cons b bs => exact ⟨_, rfl⟩
  obtain ⟨r, sys', hrun, rfl, -⟩ :=
    query_answered edit (by decide) h hbytes ⟨none, none⟩ (text "-d") sys rfl
  refine ⟨sys', (runs_bind hrun _).trans ?_⟩
  rw [writeResult]
  dsimp only
  split
  · cases writtenLength (queryResult (text "-d") a.params.head? a.final.status).2 <;> rfl
  · rfl

/-- **What a write returns.** It returns the second parameter of the response when the module says OK, or the
error. It reads a variable that is not initialized if the module says OK and the response has one parameter
only. -/
theorem socket_write_unassigned_iff {t : Nat} {edit : Callback} {n : Nat} {a : Answer (text "+USOWB:") n}
    {sys : ApiSys} (h : Answered t a sys) (socketHandle : Int32) {binaryData : List UInt8}
    (hdata : binaryData ≠ []) :
    (uCxSocketWrite t edit socketHandle binaryData).run sys = none ↔
      a.final = .ok ∧ ∃ p tok, a.params.head? = some p ∧ tokens p = [⟨tok, false⟩] := by
  obtain ⟨sys', hrun⟩ := write_answered edit h socketHandle hdata
  rw [hrun, Option.map_eq_none_iff, writeResult, queryResult]
  have hstatus : 0 ≤ a.final.status ↔ a.final = .ok := by
    have hok := a.final_ok.1
    cases hfinal : a.final with
    | ok => exact iff_of_true (by decide) rfl
    | error => exact iff_of_false (by decide) Final.noConfusion
    | code digits =>
      rw [hfinal] at hok
      have hpos := hok.2.2.1
      simp only [Final.status, reduceCtorEq, iff_false]
      omega
  rw [← hstatus]
  cases a.params.head? with
  | none => simp [rspParams, errorCmdTimeout]
  | some p =>
    have hone : ∀ tok, tokens p = [⟨tok, false⟩] → rspParams (text "-d") (some p) = (1, []) := by
      intro tok htokens
      rw [rspParams, htokens]
      rfl
    rcases rspParams_write p with ⟨t, htokens, hr⟩ | ⟨i, hr⟩ | hr
    · rw [hr]
      by_cases hok : 0 ≤ a.final.status <;> simp [hok, htokens, writtenLength]
    · have htwo : ∀ tok, tokens p ≠ [⟨tok, false⟩] := fun tok htokens => by
        cases hr.symm.trans (hone tok htokens)
      rw [hr]
      by_cases hok : 0 ≤ a.final.status <;> simp [hok, htwo, writtenLength]
    · have hrefused : ∀ tok, tokens p ≠ [⟨tok, false⟩] := fun tok htokens => by
        rw [hone tok htokens] at hr
        exact absurd hr (by decide)
      simp [Int.not_le.2 hr, hrefused]

/-- A response and OK. -/
def rspAnswer (P p : List UInt8) (h : (∀ b ∈ P ++ p, isprint b = true) ∧ (P ++ p).length < 64) : Answer P 64 where
  items := [(.rsp p, text "\r\n")]
  final := .ok
  eols := text "\r\n"
  items_ok := by
    simp only [List.forall_mem_cons, List.not_mem_nil, IsEmpty.forall_iff, implies_true, and_true]
    exact ⟨trivial, h.1, h.2, List.cons_ne_nil _ _, List.all_eq_true.1 rfl⟩
  final_ok := ok_line

/-- A fresh client is answered so when that is its input. -/
theorem answered_rsp {P p : List UInt8} (h : (∀ b ∈ P ++ p, isprint b = true) ∧ (P ++ p).length < 64) :
    Answered 0 (rspAnswer P p h) (fresh (rspAnswer P p h).bytes) :=
  answered_fresh (rspAnswer P p h) (Nat.zero_le _) fun _ hline => nomatch hline

/-- The module tells the socket but not the length. -/
def writeAnswer : Answer (text "+USOWB:") 64 :=
  rspAnswer (text "+USOWB:") (text "1") ⟨List.all_eq_true.1 rfl, by decide⟩

theorem socket_write_unassigned_iff_one : (uCxSocketWrite 0 id 1 [104, 105]).run (fresh writeAnswer.bytes) = none :=
  (socket_write_unassigned_iff (answered_rsp (p := text "1") _) 1 (by decide)).2
    ⟨rfl, text "1", text "1", by decide +kernel, by decide +kernel⟩

end Api
