import UcxClient.Api.Answers
import UcxClient.Text.Reparse
import UcxClient.Text.RoundTrip

/-!
# Responses of more than one syntax

Seven getters of `u_cx_wifi.c`, `u_cx_mqtt.c` and `u_cx_security.c` parse a line twice. `rspSyntaxVal` is the
parameter that tells the syntax; the line is put back and parsed with the format of the syntax.

* `syntax_getters_read`: those that look at the first parameter return what the second parse makes of the line, and
  the values of a response that is written in one of its syntaxes (`syntax_getters_written`).
* `ap_get_security_open_iff`: one of them ends its command itself, but not where it is left early.
* `second_selector_fails`: those that skip the first parameter never succeed, as their parse returns 2 when it
  has assigned `rspSyntaxVal`, and they take 1 for a success. So `uCxWifiStationGetIpConfig` never ends its command
  (`station_get_ip_config_open`). Both leave out the runs that read `rspSyntaxVal` without a value
  (`second_selector_unassigned_iff`).
-/

open AtClient Transaction UrcQueue

namespace Api

section
variable (t : Nat) (edit : Callback)

/-! ## The getters -/

/-- The value of `rspSyntaxVal`, if the parse has assigned it. -/
def rspSyntaxVal : List Output → Api Int
  | [.int i] => return i.toInt
  | _ => failure

/-- The two parses of a line: `none` where the function is left, else what the second parse returns, its format and
the values. -/
def syntaxParams (pExpectedRsp pParamsLine selectorFmt : List UInt8) (syntaxes : Int → Option (List UInt8)) :
    Api (Option (Int × List UInt8 × List Arg)) := do
  let m := pExpectedRsp ++ pParamsLine ++ [0]
  let paramsLen := (cstr m pExpectedRsp.length).length
  let r ← parseParamsF m pExpectedRsp.length selectorFmt
  if r.ret ≠ 1 then return none
  else
    let syntaxVal ← rspSyntaxVal r.outputs
    let m := uCxAtUtilReplaceChar r.m pExpectedRsp.length paramsLen 0 (ch ',')
    match syntaxes syntaxVal with
    | none => return none
    | some rspFmt =>
      let r ← parseParamsF m pExpectedRsp.length rspFmt
      return some (r.ret, rspFmt, r.outputs.map (Output.value r.m))

def syntaxRsp (pCmd pParamFmt : List UInt8) (args : List Arg) (pExpectedRsp selectorFmt : List UInt8)
    (syntaxes : Int → Option (List UInt8)) : Api (Option (Int × List UInt8 × List Arg)) := do
  cmdBeginF t pCmd pParamFmt args
  match ← cmdGetRspParamLine t pExpectedRsp ⟨none, none⟩ with
  | none => return none
  | some pParamsLine => syntaxParams pExpectedRsp pParamsLine selectorFmt syntaxes

/-- What the getters return that leave the command to `uCxEnd`: the format is that of the member of the union
in the response, which its `type` tells. -/
def beginResult : Option (Int × List UInt8 × List Arg) → Bool × List UInt8 × List Arg
  | none => (false, [], [])
  | some (ret, rspFmt, values) => (decide (0 ≤ ret), rspFmt, values)

def syntaxBegin (pCmd pParamFmt : List UInt8) (args : List Arg) (pExpectedRsp selectorFmt : List UInt8)
    (syntaxes : Int → Option (List UInt8)) : Api (Bool × List UInt8 × List Arg) := do
  let r ← syntaxRsp t pCmd pParamFmt args pExpectedRsp selectorFmt syntaxes
  return beginResult r

/-- The getters that end the command; where they are left early they return `false`, that is 0. -/
def syntaxQuery (pCmd pParamFmt : List UInt8) (args : List Arg) (pExpectedRsp selectorFmt : List UInt8)
    (syntaxes : Int → Option (List UInt8)) : Api (Int × List UInt8 × List Arg) := do
  match ← syntaxRsp t pCmd pParamFmt args pExpectedRsp selectorFmt syntaxes with
  | none => return (0, [], [])
  | some (ret, rspFmt, values) =>
    let ret ← alwaysEnd t edit ret
    return (ret, rspFmt, values)

/-- The security of a station. -/
def stationSecuritySyntaxes : Int → Option (List UInt8)
  | 1 => some (text "-dd")
  | 0 => some (text "-d")
  | -1 => some (text "-dssss")
  | 2 => some (text "-ddssss")
  | -2 => some (text "-dss")
  | 3 => some (text "-ddss")
  | _ => none

def uCxWifiStationGetSecurityBegin (wlanHandle : Int32) : Api (Bool × List UInt8 × List Arg) :=
  syntaxBegin t (text "AT+UWSS=") (text "d") [.int wlanHandle] (text "+UWSS:") (text "-d") stationSecuritySyntaxes

/-- The IP configuration of a station: the mode, and five addresses if they are static. -/
def ipConfigSyntaxes : Int → Option (List UInt8)
  | 0 => some (text "-d")
  | 1 => some (text "-diiiii")
  | _ => none

def uCxWifiStationGetIpConfig (wlanHandle : Int32) : Api (Int × List UInt8 × List Arg) :=
  syntaxQuery t edit (text "AT+UWSIP=") (text "d") [.int wlanHandle] (text "+UWSIP:") (text "-d")
    ipConfigSyntaxes

/-- The status of a station: its SSID, its BSSID or a number. -/
def stationStatusSyntaxes : Int → Option (List UInt8)
  | 0 => some (text "ds")
  | 1 => some (text "dm")
  | 2 => some (text "dd")
  | 3 => some (text "dd")
  | 4 => some (text "dd")
  | _ => none

def uCxWifiStationStatusBegin (statusId : Int32) : Api (Bool × List UInt8 × List Arg) :=
  syntaxBegin t (text "AT+UWSST=") (text "d") [.int statusId] (text "+UWSST:") (text "d") stationStatusSyntaxes

/-- The security of an access point: the mode, and the version of WPA if it is in use. -/
def apSecuritySyntaxes : Int → Option (List UInt8)
  | 1 => some (text "dd")
  | 0 => some (text "d")
  | _ => none

def uCxWifiApGetSecurity : Api (Int × List UInt8 × List Arg) :=
  syntaxQuery t edit (text "AT+UWAPS?") (text "") [] (text "+UWAPS:") (text "d") apSecuritySyntaxes

/-- The TLS of an MQTT client: the version, and the names of the certificates if it is in use. -/
def mqttTLSSyntaxes : Int → Option (List UInt8)
  | 1 => some (text "-dsss")
  | 2 => some (text "-dsss")
  | 3 => some (text "-dsss")
  | 4 => some (text "-dsss")
  | 0 => some (text "-d")
  | _ => none

def uCxMqttGetTLSBegin (mqttId : Int32) : Api (Bool × List UInt8 × List Arg) :=
  syntaxBegin t (text "AT+UMQTLS=") (text "d") [.int mqttId] (text "+UMQTLS:") (text "-d") mqttTLSSyntaxes

/-- The details of a certificate: bytes or a number. -/
def certificateSyntaxes : Int → Option (List UInt8)
  | 0 => some (text "dh")
  | 1 => some (text "dd")
  | _ => none

def uCxSecurityReadAllCertificatesDetailsBegin (name : CString) : Api (Bool × List UInt8 × List Arg) :=
  syntaxBegin t (text "AT+USECD=") (text "s") [.str name] (text "+USECD:") (text "d") certificateSyntaxes

def uCxSecurityReadCertificatesDetailsBegin (name : CString) (certDetailId : Int32) :
    Api (Bool × List UInt8 × List Arg) :=
  syntaxBegin t (text "AT+USECD=") (text "sd") [.str name, .int certDetailId] (text "+USECD:") (text "d")
    certificateSyntaxes

end

/-! ## The first parameter -/

/-- What the parse of the first parameter comes to. -/
theorem rspParams_d (p : List UInt8) : rspParams (text "d") (some p) = (-1, []) ∨
    ∃ i, rspParams (text "d") (some p) = (1, [.int i]) := by
  obtain ⟨tok, ts, htokens⟩ : ∃ tok ts, tokens p = tok :: ts := ⟨_, _, rfl⟩
  have hfmt : text "d" = [ch 'd'] := rfl
  rw [rspParams, htokens, hfmt, List.zip_cons_cons, List.zip_nil_left]
  cases href : refused (ch 'd', tok) with
  | true =>
    rw [returned_cons_refused href, accepted_cons_refused href]
    exact .inl rfl
  | false =>
    obtain ⟨i, hi⟩ := decode_d href
    rw [returned_cons href, values_accepted_cons href, hi]
    exact .inr ⟨i, rfl⟩

/-- What a getter makes of the parameters of its response, or without one: the syntax is that of the first
parameter, if that is the number of one. -/
def selected (syntaxes : Int → Option (List UInt8)) (p : Option (List UInt8)) :
    Option (Int × List UInt8 × List Arg) :=
  match (rspParams (text "d") p).2 with
  | [.int i] => (syntaxes i.toInt).map fun fmt => ((rspParams fmt p).1, fmt, (rspParams fmt p).2)
  | _ => none

theorem outputs_int {m : List UInt8} {outputs : List Output} {i : Int32}
    (h : outputs.map (Output.value m) = [.int i]) : outputs = [.int i] := by
  obtain ⟨o, rfl, ho⟩ := List.map_eq_singleton_iff.1 h
  cases o <;> cases ho
  rfl

/-- The two parses of a line. -/
theorem syntaxParams_run {P : List UInt8} (hP : P ≠ []) {p : List UInt8} (h0 : 0 ∉ p)
    (syntaxes : Int → Option (List UInt8)) (sys : ApiSys) :
    (syntaxParams P p (text "d") syntaxes).run sys = some (selected syntaxes (some p), sys) := by
  have hkeeps : ∀ c ∈ text "d", c ∈ text "-dim" := List.forall_mem_singleton.2 (by decide)
  obtain ⟨r, cut, hloop, hm, hrev⟩ := loop_reverts hkeeps h0 P [] 0 []
  have hparse : (parseParamsF (P ++ p ++ [0]) P.length (text "d")).run sys = some (r, sys) :=
    congrArg (Option.map fun r => (r, sys)) hloop
  have hr : (r.ret, r.outputs.map (Output.value r.m)) = rspParams (text "d") (some p) := by
    have hfirst := parse_rspParams hP h0 (text "d") sys
    rw [runs_bind hparse] at hfirst
    exact (Prod.mk.inj (Option.some.inj hfirst)).1
  refine (runs_bind hparse _).trans ?_
  rw [selected]
  rcases rspParams_d p with hd | ⟨i, hd⟩
  · rw [hd] at hr ⊢
    obtain ⟨hret, -⟩ := Prod.mk.inj hr
    dsimp only
    rw [hret]
    rfl
  · rw [hd] at hr ⊢
    obtain ⟨hret, hvalues⟩ := Prod.mk.inj hr
    have hlen : (cstr (P ++ p ++ [0]) P.length).length = cut.length := by
      rw [cstr_mid h0 P [], hrev.length_eq]
    have hback : uCxAtUtilReplaceChar r.m P.length cut.length 0 (ch ',') = P ++ p ++ [0] := by
      rw [hm, replaceChar_mid, hrev]
    dsimp only
    rw [hret, outputs_int hvalues, hlen, hback, if_neg (not_not.2 rfl)]
    refine (runs_bind (show (rspSyntaxVal [.int i]).run sys = some (i.toInt, sys) from rfl) _).trans ?_
    cases syntaxes i.toInt with
    | none => rfl
    | some fmt =>
      obtain ⟨r2, sys2, hsecond, hret2⟩ := of_runs_bind (parse_rspParams hP h0 fmt sys)
      obtain ⟨hr2, rfl⟩ := Prod.mk.inj (Option.some.inj hret2)
      refine (runs_bind hsecond _).trans ?_
      rw [Option.map_some, ← hr2]
      rfl

section
variable {t : Nat} {edit : Callback} {b : Bool} {m : Mutex} {w : List UInt8}

/-- Whatever is read, the command is open behind it. -/
theorem syntaxRsp_spec (pCmd pParamFmt : List UInt8) (args : List Arg) (pExpectedRsp selectorFmt : List UInt8)
    (syntaxes : Int → Option (List UInt8)) :
    Triple (Is b m w) (syntaxRsp t pCmd pParamFmt args pExpectedRsp selectorFmt syntaxes) fun _ =>
      Is true (m.lock t) (w ++ cmdBytes pCmd pParamFmt args) := by
  refine ((cmdBeginF_spec pCmd pParamFmt args).mono (fun _ h => h) fun _ _ h => h.2.2).bind fun _ => ?_
  refine (cmdGetRspParamLine_spec pExpectedRsp ⟨none, none⟩).bind fun line => ?_
  cases line with
  | none => exact .pure _ fun _ h => h
  | some p =>
    refine (parseParamsF_spec _ _ _).bind fun r => .ite (fun _ => .pure _ fun _ h => h) fun _ => ?_
    have hval : Triple (Is true (m.lock t) (w ++ cmdBytes pCmd pParamFmt args)) (rspSyntaxVal r.outputs) fun _ =>
        Is true (m.lock t) (w ++ cmdBytes pCmd pParamFmt args) := by
      unfold rspSyntaxVal
      split
      · exact .pure _ fun _ h => h
      · exact fun _ _ _ _ hrun => nomatch hrun
    refine hval.bind fun i => ?_
    cases syntaxes i with
    | none => exact .pure _ fun _ h => h
    | some fmt => exact (parseParamsF_spec _ _ _).bind fun r => .pure _ fun _ h => h

end

/-- The response that the module brings is read in its syntax. -/
theorem syntaxRsp_returns {t : Nat} {P : List UInt8} {n : Nat} {a : Answer P n} {sys : ApiSys}
    (hP : isUrcLine P = true) (h : Answered t a sys) {pCmd pParamFmt : List UInt8} {args : List Arg}
    {bytes : List UInt8} (hbytes : uCxAtClientSendCmdVaList pCmd pParamFmt args = some bytes)
    (syntaxes : Int → Option (List UInt8)) :
    Returns (· = sys) (syntaxRsp t pCmd pParamFmt args P (text "d") syntaxes) fun r sys' =>
      r = selected syntaxes a.params.head? ∧
      Answering t sys.state.client.cmdMutex P a.final.status a.urcs (sys.sent ++ bytes) sys.calls a.params.tail
        sys' := by
  have hv := Final.status_ne a.final_ok.1
  have hne : P ≠ [] := fun he => absurd (he ▸ hP) (by decide)
  rintro _ rfl
  obtain ⟨_, sys1, hbegin, hsys1⟩ := cmdBeginF_returns hP a h hbytes _ rfl
  obtain ⟨_, sys2, hline, rfl, hsys2⟩ := cmdGetRspParamLine_returns hv ⟨none, none⟩ sys1 hsys1
  refine ⟨_, sys2, (runs_bind hbegin _).trans ((runs_bind hline _).trans ?_), rfl, hsys2⟩
  cases hp : a.params.head? with
  | none => rfl
  | some p => exact syntaxParams_run hne (nulFree_params a p (List.mem_of_head? hp)) syntaxes sys2

/-- The getters that look at the first parameter and leave the command to `uCxEnd`. -/
inductive SyntaxGetter where
  | stationStatus (statusId : Int32)
  | readAllCertificatesDetails (name : CString)
  | readCertificatesDetails (name : CString) (certDetailId : Int32)

namespace SyntaxGetter

def run (t : Nat) : SyntaxGetter → Api (Bool × List UInt8 × List Arg)
  | stationStatus statusId => uCxWifiStationStatusBegin t statusId
  | readAllCertificatesDetails name => uCxSecurityReadAllCertificatesDetailsBegin t name
  | readCertificatesDetails name certDetailId => uCxSecurityReadCertificatesDetailsBegin t name certDetailId

/-- The command, its format and its arguments. -/
def command : SyntaxGetter → List UInt8 × List UInt8 × List Arg
  | stationStatus statusId => (text "AT+UWSST=", text "d", [.int statusId])
  | readAllCertificatesDetails name => (text "AT+USECD=", text "s", [.str name])
  | readCertificatesDetails name certDetailId => (text "AT+USECD=", text "sd", [.str name, .int certDetailId])

def pExpectedRsp : SyntaxGetter → List UInt8
  | stationStatus _ => text "+UWSST:"
  | readAllCertificatesDetails _ => text "+USECD:"
  | readCertificatesDetails _ _ => text "+USECD:"

def syntaxes : SyntaxGetter → Int → Option (List UInt8)
  | stationStatus _ => stationStatusSyntaxes
  | readAllCertificatesDetails _ => certificateSyntaxes
  | readCertificatesDetails _ _ => certificateSyntaxes

/-- What is written to the UART. -/
def bytes (g : SyntaxGetter) : List UInt8 := cmdBytes g.command.1 g.command.2.1 g.command.2.2

theorem run_eq (t : Nat) (g : SyntaxGetter) : g.run t =
    syntaxBegin t g.command.1 g.command.2.1 g.command.2.2 g.pExpectedRsp (text "d") g.syntaxes := by
  cases g <;> rfl

theorem sends (g : SyntaxGetter) :
    uCxAtClientSendCmdVaList g.command.1 g.command.2.1 g.command.2.2 = some g.bytes := by
  cases g <;> rfl

end SyntaxGetter

/-- An application that reads a response and ends the command. -/
def readAndEnd {α : Type} (t : Nat) (edit : Callback) (c : Api α) : Api (α × Int) := do
  let r ← c
  let ret ← uCxEnd t edit
  return (r, ret)

/-- **A response is parsed twice, and read as if it had been parsed once**, with the format that its first parameter
tells. Where that is not the number of a syntax the getter fails, and `uCxEnd` still returns the status. -/
theorem syntax_getters_read {t : Nat} {edit : Callback} (g : SyntaxGetter) {n : Nat} {a : Answer g.pExpectedRsp n}
    {sys : ApiSys} (h : Answered t a sys) :
    ∃ sys', (readAndEnd t edit (g.run t)).run sys =
        some ((beginResult (selected g.syntaxes a.params.head?), a.final.status), sys') ∧
      Done sys.state.client.cmdMutex a.urcs (sys.sent ++ g.bytes) sys.calls sys' := by
  have hP : isUrcLine g.pExpectedRsp = true := by
    cases g <;> rfl
  obtain ⟨_, sys1, hread, rfl, hsys1⟩ := syntaxRsp_returns hP h g.sends g.syntaxes sys rfl
  have hbegin : (g.run t).run sys = some (beginResult (selected g.syntaxes a.params.head?), sys1) := by
    rw [g.run_eq]
    exact runs_bind hread _
  obtain ⟨_, sys2, hend, rfl, hdone⟩ :=
    cmdEnd_returns edit (Final.status_ne a.final_ok.1) h.ready.cmdFree h.fits sys1 hsys1
  exact ⟨sys2, (runs_bind hbegin _).trans (runs_bind hend _), hdone⟩

/-- There is no status 7. -/
theorem syntax_getters_read_unknown : ∃ sys',
    (readAndEnd 0 id (SyntaxGetter.run 0 (.stationStatus 7))).run (fresh (text "+UWSST:7,5\r\nOK\r\n")) =
      some (((false, [], []), 0), sys') ∧ sys'.sent = text "AT+UWSST=7\r" := by
  have h : Answered 0 _ (fresh _) :=
    answered_rsp (P := text "+UWSST:") (p := text "7,5") ⟨List.all_eq_true.1 rfl, by decide⟩
  have hresult : beginResult (selected stationStatusSyntaxes (some (text "7,5"))) = (false, [], []) := by
    decide +kernel
  obtain ⟨sys', hrun, hdone⟩ := syntax_getters_read (.stationStatus 7) h
  exact ⟨sys', hresult ▸ hrun, hdone.sent⟩

/-! ## A response that is written in a syntax -/

/-- Parameters that are written as arguments are. -/
theorem rspParams_written {args : List Arg} (hargs : ∀ a ∈ args, a.Parsable) :
    rspParams (args.map Arg.fmt) (some (commaSeparated (args.map Arg.token))) = ((args.length : Int), args) := by
  have h0 := zero_notMem_commaSeparated hargs
  obtain ⟨rest, new, hdecodes, hnew⟩ := loop_decodes hargs [0] [] 0 []
  rcases loop_tokens (args.map Arg.fmt) h0 [0] [] 0 [] with ⟨hnone, -⟩ | ⟨p', new', -, hloop, hnew'⟩
  · rw [hnone] at hdecodes
    cases hdecodes
  · rw [hdecodes] at hloop
    injection Option.some.inj hloop with hret hm houtputs
    rw [rspParams, ← hret, ← hnew', ← hm, ← List.nil_append new', ← houtputs, List.nil_append, hnew]
    simp

/-- The first parameter of such a response. -/
theorem rspParams_d_written {i : Int32} {args : List Arg} (hargs : ∀ a ∈ Arg.int i :: args, a.Parsable) :
    (rspParams (text "d") (some (commaSeparated ((Arg.int i :: args).map Arg.token)))).2 = [.int i] := by
  have hall := rspParams_written hargs
  obtain ⟨tok, ts, htokens⟩ : ∃ tok ts, tokens (commaSeparated ((Arg.int i :: args).map Arg.token)) = tok :: ts :=
    ⟨_, _, rfl⟩
  have hfmt : text "d" = [ch 'd'] := rfl
  have hd : Arg.fmt (.int i) = ch 'd' := rfl
  rw [rspParams, htokens] at hall ⊢
  rw [List.map_cons, hd, List.zip_cons_cons] at hall
  rw [hfmt, List.zip_cons_cons, List.zip_nil_left]
  obtain ⟨hret, hvalues⟩ := Prod.mk.inj hall
  cases href : refused (ch 'd', tok) with
  | true =>
    rw [returned_cons_refused href, List.length_cons] at hret
    omega
  | false =>
    obtain ⟨j, hj⟩ := decode_d href
    rw [values_accepted_cons href, hj] at hvalues ⊢
    obtain ⟨heq, -⟩ := List.cons.inj hvalues
    rw [heq]
    rfl

/-- **A response that is written in a syntax is read in it**, with the values that were written. -/
theorem syntax_getters_written {t : Nat} {edit : Callback} (g : SyntaxGetter) {n : Nat} {a : Answer g.pExpectedRsp n}
    {sys : ApiSys} (h : Answered t a sys) {i : Int32} {args : List Arg} (hargs : ∀ a ∈ Arg.int i :: args, a.Parsable)
    (hformat : g.syntaxes i.toInt = some ((Arg.int i :: args).map Arg.fmt))
    (hrsp : a.params.head? = some (commaSeparated ((Arg.int i :: args).map Arg.token))) :
    ∃ sys', (readAndEnd t edit (g.run t)).run sys =
        some (((true, (Arg.int i :: args).map Arg.fmt, Arg.int i :: args), a.final.status), sys') ∧
      Done sys.state.client.cmdMutex a.urcs (sys.sent ++ g.bytes) sys.calls sys' := by
  have hP : isUrcLine g.pExpectedRsp = true := by
    cases g <;> rfl
  have hselected : selected g.syntaxes a.params.head? =
      some (((Arg.int i :: args).length : Int), (Arg.int i :: args).map Arg.fmt, Arg.int i :: args) := by
    rw [hrsp, selected, rspParams_d_written hargs]
    dsimp only
    rw [hformat, Option.map_some, rspParams_written hargs]
  obtain ⟨_, sys1, hread, rfl, hsys1⟩ := syntaxRsp_returns hP h g.sends g.syntaxes sys rfl
  obtain ⟨_, sys2, hend, rfl, hdone⟩ :=
    cmdEnd_returns edit (Final.status_ne a.final_ok.1) h.ready.cmdFree h.fits sys1 hsys1
  have hbegin : (g.run t).run sys =
      some ((true, (Arg.int i :: args).map Arg.fmt, Arg.int i :: args), sys1) := by
    rw [g.run_eq]
    refine (runs_bind hread _).trans ?_
    rw [hselected, beginResult, decide_eq_true (Int.natCast_nonneg _)]
    rfl
  exact ⟨sys2, (runs_bind hbegin _).trans (runs_bind hend _), hdone⟩

/-- The strength of a signal. -/
theorem syntax_getters_written_rssi : ∃ sys',
    (readAndEnd 0 id (SyntaxGetter.run 0 (.stationStatus 4))).run (fresh (text "+UWSST:4,-60\r\nOK\r\n")) =
      some (((true, text "dd", [.int 4, .int (-60)]), 0), sys') ∧ sys'.sent = text "AT+UWSST=4\r" := by
  have h : Answered 0 _ (fresh _) :=
    answered_rsp (P := text "+UWSST:") (p := text "4,-60") ⟨List.all_eq_true.1 rfl, by decide⟩
  have hargs : ∀ a ∈ [Arg.int 4, .int (-60)], a.Parsable :=
    List.forall_mem_cons.2 ⟨Arg.parsable_int 4, List.forall_mem_singleton.2 (Arg.parsable_int (-60))⟩
  obtain ⟨sys', hrun, hdone⟩ := syntax_getters_written (.stationStatus 4) h hargs rfl (by decide +kernel)
  exact ⟨sys', hrun, hdone.sent⟩

/-! ## A command that stays open -/

/-- What `uCxWifiApGetSecurity` returns for its response and the status of the command. -/
def apResult (status : Int) : Option (Int × List UInt8 × List Arg) → Int × List UInt8 × List Arg
  | none => (0, [], [])
  | some (ret, rspFmt, values) => (if 0 ≤ ret then status else ret, rspFmt, values)

/-- **The command of `uCxWifiApGetSecurity` stays open** exactly if there is no response or its first parameter is
not the number of a syntax; the function returns 0 then, as for a success. -/
theorem ap_get_security_open_iff {t : Nat} {edit : Callback} {n : Nat} {a : Answer (text "+UWAPS:") n} {sys : ApiSys}
    (h : Answered t a sys) :
    ∃ sys', (uCxWifiApGetSecurity t edit).run sys =
        some (apResult a.final.status (selected apSecuritySyntaxes a.params.head?), sys') ∧
      sys'.sent = sys.sent ++ text "AT+UWAPS?\r" ∧
      (sys'.state.client.executingCmd = true ↔ selected apSecuritySyntaxes a.params.head? = none) ∧
      sys'.state.client.cmdMutex = if selected apSecuritySyntaxes a.params.head? = none
        then sys.state.client.cmdMutex.lock t else sys.state.client.cmdMutex := by
  have hsends : uCxAtClientSendCmdVaList (text "AT+UWAPS?") (text "") [] = some (text "AT+UWAPS?\r") := rfl
  obtain ⟨_, sys1, hrun, rfl, hsys1⟩ := syntaxRsp_returns (by decide) h hsends apSecuritySyntaxes sys rfl
  have hopen := syntaxRsp_spec _ _ _ _ _ _ sys ⟨h.ready.idle.executingCmd, rfl, rfl⟩ _ _ hrun
  cases hsel : selected apSecuritySyntaxes a.params.head? with
  | none =>
    rw [hsel] at hrun
    exact ⟨sys1, runs_bind hrun _, hopen.sent, iff_of_true hopen.executingCmd rfl, hopen.cmdMutex⟩
  | some r =>
    obtain ⟨ret, rspFmt, values⟩ := r
    rw [hsel] at hrun
    obtain ⟨_, sys2, hend, rfl, hdone⟩ :=
      alwaysEnd_returns edit (Final.status_ne a.final_ok.1) h.ready.cmdFree h.fits ret sys1 hsys1
    refine ⟨sys2, (runs_bind hrun _).trans (runs_bind hend _), hdone.sent, iff_of_false ?_ (Option.some_ne_none _),
      hdone.cmdMutex⟩
    rw [hdone.executingCmd]
    exact Bool.false_ne_true

theorem ap_get_security_open_iff_unknown : ∃ sys',
    (uCxWifiApGetSecurity 0 id).run (fresh (text "+UWAPS:7\r\nOK\r\n")) = some ((0, [], []), sys') ∧
    sys'.state.client.executingCmd = true := by
  have hnone : selected apSecuritySyntaxes (some (text "7")) = none := by
    decide +kernel
  obtain ⟨sys', hrun, -, hopen, -⟩ := ap_get_security_open_iff
    (answered_rsp (P := text "+UWAPS:") (p := text "7") ⟨List.all_eq_true.1 rfl, by decide⟩)
  exact ⟨sys', hrun.trans (congrArg (fun r => some (apResult 0 r, sys')) hnone), hopen.2 hnone⟩

/-! ## The second parameter -/

/-- A parse that skips the first parameter returns 1 only if there is no other, and then it assigns nothing. -/
theorem outputs_second {m : List UInt8} {pParams : Nat} {r : ParseParams.Parsed}
    (h : uCxAtUtilParseParamsVaList m pParams (text "-d") = some r) (hret : r.ret = 1) : r.outputs = [] := by
  have hfmt : text "-d" = [ch '-', ch 'd'] := rfl
  rw [uCxAtUtilParseParamsVaList, hfmt, ParseParams.loop] at h
  dsimp only at h
  split at h
  · cases h
    cases hret
  next len _ =>
  rw [param_of_not_assigns (by decide)] at h
  dsimp only at h
  split at h
  · cases h
    rfl
  · have htwo : ∀ m p, ParseParams.loop [ch 'd'] m p (0 + 1) ([] ++ Option.toList none) = some r →
        r.ret = -2 ∨ r.ret = 2 := by
      intro m p h
      rw [ParseParams.loop] at h
      dsimp only at h
      split at h
      · cases h
        exact .inl rfl
      split at h
      · cases h
      · cases h
        exact .inl rfl
      · split at h <;> cases h <;> exact .inr rfl
    rcases htwo _ _ h with htwo | htwo <;> rw [htwo] at hret <;> cases hret

section
variable {t : Nat} {edit : Callback} {b : Bool} {m : Mutex} {w : List UInt8}

/-- The getters that skip the first parameter have no response in any syntax. -/
theorem syntaxRsp_second (pCmd pParamFmt : List UInt8) (args : List Arg) (pExpectedRsp : List UInt8)
    (syntaxes : Int → Option (List UInt8)) :
    Triple (fun _ => True) (syntaxRsp t pCmd pParamFmt args pExpectedRsp (text "-d") syntaxes)
      fun r _ => r = none := by
  refine Triple.bind (Q := fun _ _ => True) (fun _ _ _ _ _ => trivial) fun _ => ?_
  refine Triple.bind (Q := fun _ _ => True) (fun _ _ _ _ _ => trivial) fun line => ?_
  cases line with
  | none => exact .pure _ fun _ _ => rfl
  | some p =>
    have hparse : Triple (fun _ => True) (parseParamsF (pExpectedRsp ++ p ++ [0]) pExpectedRsp.length (text "-d"))
        fun r _ => r.ret = 1 → r.outputs = [] := by
      intro sys _ r sys' hrun
      obtain ⟨r, hr, heq⟩ := Option.map_eq_some_iff.1 hrun
      cases heq
      exact outputs_second hr
    refine hparse.bind fun r => .ite (fun _ => .pure _ fun _ _ => rfl) fun hret => ?_
    intro sys hnone _ _ hrun
    rw [hnone (not_not.1 hret)] at hrun
    cases hrun

end

/-- The getters that skip the first parameter and leave the command to `uCxEnd`. -/
inductive SecondGetter where
  | stationGetSecurity (wlanHandle : Int32)
  | mqttGetTLS (mqttId : Int32)

namespace SecondGetter

def run (t : Nat) : SecondGetter → Api (Bool × List UInt8 × List Arg)
  | stationGetSecurity wlanHandle => uCxWifiStationGetSecurityBegin t wlanHandle
  | mqttGetTLS mqttId => uCxMqttGetTLSBegin t mqttId

/-- The command, its format and its arguments. -/
def command : SecondGetter → List UInt8 × List UInt8 × List Arg
  | stationGetSecurity wlanHandle => (text "AT+UWSS=", text "d", [.int wlanHandle])
  | mqttGetTLS mqttId => (text "AT+UMQTLS=", text "d", [.int mqttId])

def pExpectedRsp : SecondGetter → List UInt8
  | stationGetSecurity _ => text "+UWSS:"
  | mqttGetTLS _ => text "+UMQTLS:"

def syntaxes : SecondGetter → Int → Option (List UInt8)
  | stationGetSecurity _ => stationSecuritySyntaxes
  | mqttGetTLS _ => mqttTLSSyntaxes

theorem run_eq (t : Nat) (g : SecondGetter) : g.run t =
    syntaxBegin t g.command.1 g.command.2.1 g.command.2.2 g.pExpectedRsp (text "-d") g.syntaxes := by
  cases g <;> rfl

theorem sends (g : SecondGetter) : ∃ bytes,
    uCxAtClientSendCmdVaList g.command.1 g.command.2.1 g.command.2.2 = some bytes := by
  cases g <;> exact ⟨_, rfl⟩

end SecondGetter

/-- **The getters of the security of a station and of the TLS of an MQTT client never succeed**, whatever the module
answers: they return `false` or read `rspSyntaxVal` without a value. -/
theorem second_selector_fails {t : Nat} (g : SecondGetter) {sys sys' : ApiSys} {r : Bool × List UInt8 × List Arg}
    (hrun : (g.run t).run sys = some (r, sys')) : r = (false, [], []) := by
  rw [g.run_eq] at hrun
  obtain ⟨r0, sys1, hrsp, hret⟩ := of_runs_bind hrun
  obtain rfl := syntaxRsp_second _ _ _ _ _ sys trivial r0 sys1 hrsp
  exact (Prod.mk.inj (Option.some.inj hret)).1.symm

/-- The two parses of a line when the first one skips a parameter. -/
theorem syntaxParams_second_run {P : List UInt8} (hP : P ≠ []) {p : List UInt8} (h0 : 0 ∉ p)
    (syntaxes : Int → Option (List UInt8)) (sys : ApiSys) :
    (syntaxParams P p (text "-d") syntaxes).run sys = none ↔ ∃ tok, tokens p = [⟨tok, false⟩] := by
  obtain ⟨r, sys1, hparse, hpure⟩ := of_runs_bind (parse_rspParams hP h0 (text "-d") sys)
  obtain ⟨hr, rfl⟩ := Prod.mk.inj (Option.some.inj hpure)
  have hrun : (syntaxParams P p (text "-d") syntaxes).run sys1 = _ := runs_bind hparse _
  rw [hrun]
  rcases rspParams_write p with ⟨tok, htokens, hone⟩ | hother
  · rw [hone] at hr
    obtain ⟨hret, hvalues⟩ := Prod.mk.inj hr
    have hout : r.outputs = [] := List.map_eq_nil_iff.1 hvalues
    dsimp only
    rw [hret, hout, if_neg (not_not.2 rfl)]
    exact iff_of_true rfl ⟨tok, htokens⟩
  · have hret : r.ret ≠ 1 := by
      rw [← hr] at hother
      rcases hother with ⟨i, htwo⟩ | hneg
      · rw [(Prod.mk.inj htwo).1]
        decide
      · intro hone
        rw [hone] at hneg
        exact absurd hneg (by decide : ¬(1 : Int) < 0)
    dsimp only
    rw [if_pos hret]
    refine iff_of_false (Option.some_ne_none _) ?_
    rintro ⟨tok, htokens⟩
    have hone : rspParams (text "-d") (some p) = (1, []) := by
      rw [rspParams, htokens]
      rfl
    rw [hone] at hr
    exact hret (Prod.mk.inj hr).1

/-- TLS of version 1.2 with its certificates. -/
theorem second_selector_fails_tls : ∃ r sys', (SecondGetter.run 0 (.mqttGetTLS 1)).run
      (fresh (text "+UMQTLS:1,2,a,b,c\r\nOK\r\n")) = some (r, sys') ∧ r = (false, [], []) := by
  obtain ⟨⟨r, sys'⟩, hrun⟩ := Option.isSome_iff_exists.1 (show ((SecondGetter.run 0 (.mqttGetTLS 1)).run
    (fresh (text "+UMQTLS:1,2,a,b,c\r\nOK\r\n"))).isSome = true by decide +kernel)
  exact ⟨r, sys', hrun, second_selector_fails (.mqttGetTLS 1) hrun⟩

theorem syntaxBegin_run (t : Nat) (pCmd pParamFmt : List UInt8) (args : List Arg)
    (pExpectedRsp selectorFmt : List UInt8) (syntaxes : Int → Option (List UInt8)) (sys : ApiSys) :
    (syntaxBegin t pCmd pParamFmt args pExpectedRsp selectorFmt syntaxes).run sys =
      ((syntaxRsp t pCmd pParamFmt args pExpectedRsp selectorFmt syntaxes).run sys).map
        fun r => (beginResult r.1, r.2) := by
  rw [syntaxBegin, StateT.run_bind]
  cases (syntaxRsp t pCmd pParamFmt args pExpectedRsp selectorFmt syntaxes).run sys <;> rfl

/-- **They read a variable that is not initialized** exactly if the response has one parameter only. -/
theorem second_selector_unassigned_iff {t : Nat} (g : SecondGetter) {n : Nat} {a : Answer g.pExpectedRsp n}
    {sys : ApiSys} (h : Answered t a sys) :
    (g.run t).run sys = none ↔ ∃ p tok, a.params.head? = some p ∧ tokens p = [⟨tok, false⟩] := by
  have hP : isUrcLine g.pExpectedRsp = true := by
    cases g <;> rfl
  have hne : g.pExpectedRsp ≠ [] := fun he => absurd (he ▸ hP) (by decide)
  obtain ⟨bytes, hbytes⟩ := g.sends
  obtain ⟨_, sys1, hbegin, hsys1⟩ := cmdBeginF_returns hP a h hbytes sys rfl
  obtain ⟨_, sys2, hline, rfl, hsys2⟩ :=
    cmdGetRspParamLine_returns (Final.status_ne a.final_ok.1) ⟨none, none⟩ sys1 hsys1
  rw [g.run_eq, syntaxBegin_run, Option.map_eq_none_iff]
  have hrsp : (syntaxRsp t g.command.1 g.command.2.1 g.command.2.2 g.pExpectedRsp (text "-d") g.syntaxes).run sys =
      _ := (runs_bind hbegin _).trans (runs_bind hline _)
  rw [hrsp]
  cases hp : a.params.head? with
  | none =>
    simp only [reduceCtorEq, false_and, exists_false, iff_false]
    exact Option.some_ne_none _
  | some p =>
    have h0 := nulFree_params a p (List.mem_of_head? hp)
    simpa using syntaxParams_second_run hne h0 g.syntaxes sys2

theorem second_selector_unassigned_iff_one :
    (SecondGetter.run 0 (.mqttGetTLS 1)).run (fresh (text "+UMQTLS:1\r\nOK\r\n")) = none :=
  (second_selector_unassigned_iff (.mqttGetTLS 1)
    (answered_rsp (P := text "+UMQTLS:") (p := text "1") ⟨List.all_eq_true.1 rfl, by decide⟩)).2
      ⟨text "1", text "1", rfl, by decide +kernel⟩

/-! ## A session with a command that stays open -/

/-- While a command is open nothing returns but a call that reads a response. -/
theorem reads_of_open {calls : List SocketCall} (hend : .uCxEnd ∉ calls) {b : Bool}
    (h : calls.foldlM (fun b call => call.effect.next b) true = some b) :
    ∀ call ∈ calls, call = .listStatusGetNext := by
  induction calls with
  | nil => exact nofun
  | cons call calls ih =>
    obtain ⟨hcall, hcalls⟩ := not_or.1 (List.mem_cons.not.1 hend)
    rw [List.foldlM_cons] at h
    have hreads : call = .listStatusGetNext := by
      cases call <;> first | rfl | cases h | exact absurd rfl hcall
    rw [hreads] at h
    exact List.forall_mem_cons.2 ⟨hreads, ih hcalls h⟩

/-- **`uCxWifiStationGetIpConfig` never ends its command.** Whatever the module answers, when it returns (and has not
read `rspSyntaxVal` without a value) it returns 0, stores nothing and leaves the command open. Behind it no function
of the sockets returns but one that reads a response, until `uCxEnd` is called. -/
theorem station_get_ip_config_open {t : Nat} {edit : Callback} {wlanHandle : Int32} {sys sys' sys'' : ApiSys}
    {r : Int × List UInt8 × List Arg} (hfree : sys.state.client.cmdMutex.Free)
    (hrun : (uCxWifiStationGetIpConfig t edit wlanHandle).run sys = some (r, sys')) {calls : List SocketCall}
    (hcalls : (calls.forM (SocketCall.run t edit)).run sys' = some ((), sys'')) (hend : .uCxEnd ∉ calls) :
    r = (0, [], []) ∧ sys'.state.client.executingCmd = true ∧
      sys'.state.client.cmdMutex = sys.state.client.cmdMutex.lock t ∧ ∀ call ∈ calls, call = .listStatusGetNext := by
  obtain ⟨r0, sys1, hrsp, hret⟩ := of_runs_bind hrun
  obtain rfl := syntaxRsp_second _ _ _ _ _ sys trivial r0 sys1 hrsp
  have hopen := syntaxRsp_spec _ _ _ _ _ _ sys ⟨rfl, rfl, rfl⟩ _ _ hrsp
  obtain ⟨rfl, rfl⟩ := Prod.mk.inj (Option.some.inj hret)
  obtain ⟨b, hfold, -⟩ := Does.forM (SocketCall.run_does hfree) calls true _ sys1 hopen _ _ hcalls
  exact ⟨rfl, hopen.executingCmd, hopen.cmdMutex, reads_of_open hend hfold⟩

/-- The module answers that a station has its address by DHCP. -/
theorem station_get_ip_config_open_dhcp : ∃ r sys' sys'',
    (uCxWifiStationGetIpConfig 0 id 0).run (fresh (text "+UWSIP:0,0\r\nOK\r\n")) = some (r, sys') ∧
    ([SocketCall.listStatusGetNext].forM (SocketCall.run 0 id)).run sys' = some ((), sys'') ∧
    r = (0, [], []) ∧ sys'.state.client.executingCmd = true := by
  have hruns : (((uCxWifiStationGetIpConfig 0 id 0).run (fresh (text "+UWSIP:0,0\r\nOK\r\n"))).bind (fun x =>
      ([SocketCall.listStatusGetNext].forM (SocketCall.run 0 id)).run x.2)).isSome = true := by
    decide +kernel
  obtain ⟨⟨⟨⟩, sys''⟩, hruns⟩ := Option.isSome_iff_exists.1 hruns
  obtain ⟨⟨r, sys'⟩, hrun, hcalls⟩ := Option.bind_eq_some_iff.1 hruns
  obtain ⟨hr, hopen, -⟩ := station_get_ip_config_open (show (fresh _).state.client.cmdMutex.Free from ⟨rfl, rfl⟩) hrun
    hcalls (by simp)
  exact ⟨r, sys', sys'', hrun, hcalls, hr, hopen⟩

end Api
