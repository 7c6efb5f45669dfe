import UcxClient.Client.FinalStatus
import UcxClient.Lib.Triple
import UcxClient.Text.Parse
import UcxClient.Text.Values

/-!
# The commands of the API (`src/ucx_api/generated`)

The generated functions are a few calls of the AT client each, and most of them the same ones: `query` for those
that read one response, `queryBegin` for those that leave the command to `uCxEnd`. A call is a computation over the
client and what is around it (`ApiSys`). It has no result if it waits for a mutex for ever, if an assertion fails,
or if it reads a variable that is not initialized.

The formats of the responses here have no `b`, so that what stands before the parameters of a line does not
matter; it is taken to be the prefix that is expected.
-/

/-- The client and its host, the bytes that it has written to the UART, and the calls of its URC callback. -/
structure ApiSys where
  state : AtState
  host : Host
  sent : List UInt8
  calls : List (AtClient × Urc.View)

abbrev Api := StateT ApiSys Option

namespace Api

section
variable (t : Nat) (edit : Callback)

/-! ## The AT client -/

/-- `uCxAtClientCmdBeginF` -/
def cmdBeginF (pCmd pParamFmt : List UInt8) (args : List Arg) : Api PUnit := fun sys =>
  if sys.state.client.cmdMutex.available t = false ∨ sys.state.client.executingCmd = true then none
  else match sys.host.clock with
    | [] => none
    | now :: clock => (uCxAtClientSendCmdVaList pCmd pParamFmt args).map fun bytes =>
      ((), { sys with
        state := sys.state.cmdBeginF t now
        host := { sys.host with clock }
        sent := sys.sent ++ bytes })

def cmdGetRspParamLine (pExpectedRsp : List UInt8) (buf : BinaryResponseBuf) : Api (Option (List UInt8)) :=
  fun sys => (sys.state.uCxAtClientCmdGetRspParamLine t (some pExpectedRsp) buf sys.host).map
    fun (line, state, host) => (line, { sys with state, host })

/-- `uCxAtUtilParseParamsF` of the parameters at index `pParams`. -/
def parseParamsF (m : List UInt8) (pParams : Nat) (pParamFmt : List UInt8) : Api ParseParams.Parsed :=
  fun sys => (uCxAtUtilParseParamsVaList m pParams pParamFmt).map fun r => (r, sys)

/-- `uCxAtClientCmdGetRspParamsF`: what it returns, and the values that it stores. -/
def cmdGetRspParamsF (pExpectedRsp : List UInt8) (buf : BinaryResponseBuf) (pParamFmt : List UInt8) :
    Api (Int × List Arg) := do
  match ← cmdGetRspParamLine t pExpectedRsp buf with
  | none => return (errorCmdTimeout, [])
  | some pRspParams =>
    let r ← parseParamsF (pExpectedRsp ++ pRspParams ++ [0]) pExpectedRsp.length pParamFmt
    return (r.ret, r.outputs.map (Output.value r.m))

/-- `uCxAtClientCmdEnd`. The loop in front of its assertion leaves `executingCmd` as it is. -/
def cmdEnd : Api Int := fun sys =>
  if sys.state.client.executingCmd = false then none
  else (sys.state.cmdEnd t edit sys.host).map fun (o, state, host) =>
    (o.ret, { sys with state, host, calls := sys.calls ++ o.calls })

/-- `uCxAtClientExecSimpleCmdF` -/
def execSimpleCmdF (pCmd pParamFmt : List UInt8) (args : List Arg) : Api Int := do
  cmdBeginF t pCmd pParamFmt args
  cmdEnd t edit

/-! ## The shapes of the functions -/

/-- The end of a command, whatever has failed before. -/
def alwaysEnd (ret : Int) : Api Int := do
  let endRet ← cmdEnd t edit
  return if 0 ≤ ret then endRet else ret

/-- A command with one response: what is returned, and the values that are stored. -/
def query (pCmd pParamFmt : List UInt8) (args : List Arg) (pExpectedRsp : List UInt8) (buf : BinaryResponseBuf)
    (rspFmt : List UInt8) : Api (Int × List Arg) := do
  cmdBeginF t pCmd pParamFmt args
  let (ret, values) ← cmdGetRspParamsF t pExpectedRsp buf rspFmt
  let ret ← alwaysEnd t edit ret
  return (ret, values)

/-- One more response of a command that is not ended yet. -/
def getNext (pExpectedRsp rspFmt : List UInt8) : Api (Bool × List Arg) := do
  let (ret, values) ← cmdGetRspParamsF t pExpectedRsp ⟨none, none⟩ rspFmt
  return (decide (0 ≤ ret), values)

/-- A command with one response that is left to `uCxEnd`. -/
def queryBegin (pCmd pParamFmt : List UInt8) (args : List Arg) (pExpectedRsp rspFmt : List UInt8) :
    Api (Bool × List Arg) := do
  cmdBeginF t pCmd pParamFmt args
  getNext t pExpectedRsp rspFmt

/-- `uCxEnd` -/
def uCxEnd : Api Int := cmdEnd t edit

end

/-! ## What the functions do with the command -/

/-- Whether a command is executing, the mutex of the commands, and what has been written. -/
structure Is (executingCmd : Bool) (cmdMutex : Mutex) (sent : List UInt8) (sys : ApiSys) : Prop where
  executingCmd : sys.state.client.executingCmd = executingCmd
  cmdMutex : sys.state.client.cmdMutex = cmdMutex
  sent : sys.sent = sent

/-- The bytes of a command. -/
def cmdBytes (pCmd pParamFmt : List UInt8) (args : List Arg) : List UInt8 :=
  (uCxAtClientSendCmdVaList pCmd pParamFmt args).getD []

end Api

namespace AtState

/-- Receiving keeps what belongs to the command. -/
theorem rspLoop_setup (t : Nat) {s s' : AtState} {uart : Uart} {clock : List Int} {line : Option (List UInt8)}
    {h : Host} (hloop : s.rspLoop t uart clock = some (line, s', h)) : s'.client.setup = s.client.setup := by
  induction clock generalizing s uart with
  | nil =>
    rw [rspLoop] at hloop
    split at hloop <;> cases hloop
    rfl
  | cons now clock ih =>
    rw [rspLoop] at hloop
    have hsetup := handleRxData_setup t s uart.rx uart.sched
    split at hloop
    · dsimp only at hloop
      split at hloop
      · cases hloop
        exact hsetup
      split at hloop
      · cases hloop
        exact hsetup
      · exact (ih hloop).trans hsetup
    · cases hloop
      rfl

theorem endLoop_setup (t : Nat) {s s' : AtState} {uart : Uart} {clock : List Int} {h : Host}
    (hloop : s.endLoop t uart clock = some (s', h)) : s'.client.setup = s.client.setup := by
  induction clock generalizing s uart with
  | nil =>
    rw [endLoop] at hloop
    split at hloop <;> cases hloop
    rfl
  | cons now clock ih =>
    rw [endLoop] at hloop
    have hsetup := handleRxData_setup t s uart.rx uart.sched
    have hcheck : ∀ c : AtClient, (c.cmdEndCheck now).1.setup = c.setup := by
      intro c
      unfold AtClient.cmdEndCheck
      split <;> rfl
    split at hloop
    · dsimp only at hloop
      split at hloop
      · cases hloop
        exact (hcheck _).trans hsetup
      · exact (ih hloop).trans ((hcheck _).trans hsetup)
    · cases hloop
      rfl

end AtState

namespace Api

section
variable {t : Nat} {edit : Callback} {b : Bool} {m : Mutex} {w : List UInt8}

theorem cmdBeginF_spec (pCmd pParamFmt : List UInt8) (args : List Arg) :
    Triple (Is b m w) (cmdBeginF t pCmd pParamFmt args) fun _ sys =>
      b = false ∧ m.available t = true ∧ Is true (m.lock t) (w ++ cmdBytes pCmd pParamFmt args) sys := by
  rintro sys ⟨hexec, hmutex, hsent⟩ _ sys' hrun
  have hrun' : cmdBeginF t pCmd pParamFmt args sys = some ((), sys') := hrun
  rw [cmdBeginF, hexec, hmutex] at hrun'
  split at hrun'
  · cases hrun'
  next hcan =>
  rw [not_or, Bool.not_eq_false, Bool.not_eq_true] at hcan
  cases hclock : sys.host.clock with
  | nil =>
    rw [hclock] at hrun'
    cases hrun'
  | cons now clock =>
    rw [hclock] at hrun'
    obtain ⟨bytes, hbytes, heq⟩ := Option.map_eq_some_iff.1 hrun'
    cases heq
    refine ⟨hcan.2, hcan.1, rfl, ?_, ?_⟩
    · exact congrArg (Mutex.lock · t) hmutex
    · rw [cmdBytes, hbytes, hsent]
      rfl

theorem cmdGetRspParamLine_spec (pExpectedRsp : List UInt8) (buf : BinaryResponseBuf) :
    Triple (Is b m w) (cmdGetRspParamLine t pExpectedRsp buf) fun _ => Is b m w := by
  rintro sys ⟨hexec, hmutex, hsent⟩ line sys' hrun
  obtain ⟨⟨line, state, host⟩, hline, heq⟩ := Option.map_eq_some_iff.1 hrun
  cases heq
  have hsetup := AtState.rspLoop_setup t hline
  exact ⟨(congrArg Setup.executingCmd hsetup).trans hexec, (congrArg Setup.cmdMutex hsetup).trans hmutex, hsent⟩

theorem parseParamsF_spec (mem : List UInt8) (pParams : Nat) (pParamFmt : List UInt8) :
    Triple (Is b m w) (parseParamsF mem pParams pParamFmt) fun _ => Is b m w := by
  intro sys hsys r sys' hrun
  obtain ⟨r, -, heq⟩ := Option.map_eq_some_iff.1 hrun
  cases heq
  exact hsys

/-- What has come out of `cmdEnd` has met its assertion. -/
theorem of_cmdEnd_runs {sys sys' : ApiSys} {ret : Int} (hrun : (cmdEnd t edit).run sys = some (ret, sys')) :
    sys.state.client.executingCmd = true ∧ ∃ o state host, sys.state.cmdEnd t edit sys.host = some (o, state, host) ∧
      ret = o.ret ∧ sys' = { sys with state, host, calls := sys.calls ++ o.calls } := by
  have hrun' : cmdEnd t edit sys = some (ret, sys') := hrun
  rw [cmdEnd] at hrun'
  split at hrun'
  · cases hrun'
  next hexec =>
  obtain ⟨⟨o, state, host⟩, hend, heq⟩ := Option.map_eq_some_iff.1 hrun'
  cases heq
  exact ⟨(Bool.not_eq_false _).mp hexec, o, state, host, hend, rfl, rfl⟩

theorem cmdEnd_spec : Triple (Is b m w) (cmdEnd t edit) fun _ sys => b = true ∧ Is false (m.unlock t) w sys := by
  rintro sys ⟨hexec, hmutex, hsent⟩ ret sys' hrun
  obtain ⟨htrue, o, state, host, hend, rfl, rfl⟩ := of_cmdEnd_runs hrun
  obtain ⟨⟨s1, h1⟩, hrx, hurcs⟩ := Option.bind_eq_some_iff.1 hend
  obtain ⟨⟨calls, c⟩, hcalls, heq⟩ := Option.map_eq_some_iff.1 hurcs
  cases heq
  obtain ⟨⟨s0, h0⟩, hloop, heq⟩ := Option.map_eq_some_iff.1 hrx
  cases heq
  have hsetup := AtState.endLoop_setup t hloop
  obtain ⟨calls', q, htotal⟩ := AtClient.processUrcs_total t edit (Nat.lt_succ_self
    (s0.client.finishCmd t).urcQueue.bufferPos)
  obtain ⟨-, rfl⟩ := Prod.mk.inj (Option.some.inj (hcalls.symm.trans htotal))
  refine ⟨hexec.symm.trans htrue, rfl, ?_, hsent⟩
  exact congrArg (Mutex.unlock · t) ((congrArg Setup.cmdMutex hsetup).trans hmutex)

end

/-! ## Sessions -/

/-- What a function does with the command: it begins one and ends it, it leaves it open, it reads a response, or
it ends the command. -/
inductive Effect where
  | whole
  | begins
  | reads
  | ends
  deriving DecidableEq

/-- Whether a command is executing behind the function. It does not return if it begins one while one is
executing, or ends one while none is. -/
def Effect.next : Effect → Bool → Option Bool
  | .whole, false => some false
  | .begins, false => some true
  | .whole, true => none
  | .begins, true => none
  | .reads, b => some b
  | .ends, true => some false
  | .ends, false => none

/-- Between the functions that a thread calls: `cmdMutex` is held for the command that is executing and is `m`
otherwise. -/
def Between (t : Nat) (m : Mutex) (b : Bool) (w : List UInt8) : ApiSys → Prop :=
  Is b (if b then m.lock t else m) w

/-- A function with that effect, which writes `text`. -/
def Does {α : Type} (t : Nat) (m : Mutex) (effect : Effect) (text : List UInt8) (c : Api α) : Prop :=
  ∀ b w, Triple (Between t m b w) c fun _ sys =>
    ∃ b', effect.next b = some b' ∧ Between t m b' (w ++ text) sys

/-- Two effects one after the other. -/
def Effect.Seq (e e' e'' : Effect) : Prop := ∀ b, (e.next b).bind e'.next = e''.next b

section
variable {t : Nat} {edit : Callback} {m : Mutex} {α β : Type}

theorem Does.seq {c : Api α} {f : α → Api β} {e e' e'' : Effect} {w w' : List UInt8} (h : Does t m e w c)
    (h' : ∀ a, Does t m e' w' (f a)) (he : e.Seq e' e'') : Does t m e'' (w ++ w') (c >>= f) := by
  intro b v
  refine (h b v).bind fun a => ?_
  rintro sys ⟨b', hnext, hsys⟩ x sys' hrun
  obtain ⟨b'', hnext', hsys'⟩ := h' a b' (v ++ w) sys hsys x sys' hrun
  refine ⟨b'', ?_, List.append_assoc .. ▸ hsys'⟩
  rw [← he b, hnext]
  exact hnext'

theorem Does.pure (a : α) : Does t m .reads [] (Pure.pure a) :=
  fun b w => .pure a fun sys hsys => ⟨b, by cases b <;> rfl, (List.append_nil w).symm ▸ hsys⟩

/-- What keeps all that `Is` tells reads. -/
theorem Does.of_keeps {c : Api α} (h : ∀ b m' w, Triple (Is b m' w) c fun _ => Is b m' w) : Does t m .reads [] c :=
  fun b w => (h b _ w).mono (fun _ hsys => hsys) fun _ sys hsys =>
    ⟨b, by cases b <;> rfl, (List.append_nil w).symm ▸ hsys⟩

theorem Effect.seq_reads (e : Effect) : e.Seq .reads e := by
  intro b
  cases e <;> cases b <;> rfl

/-- A function that goes on with what it has read. -/
theorem Does.reads {c : Api α} {f : α → Api β} {e : Effect} {w : List UInt8} (h : Does t m e w c)
    (h' : ∀ a, Does t m .reads [] (f a)) : Does t m e w (c >>= f) :=
  List.append_nil w ▸ h.seq h' e.seq_reads

theorem Does.bind_pure {c : Api α} {e : Effect} {w : List UInt8} (h : Does t m e w c) (f : α → β) :
    Does t m e w (c >>= fun a => Pure.pure (f a)) := h.reads fun a => .pure (f a)

/-- A function that ends the command that it has begun. -/
theorem Does.ends {c : Api α} {f : α → Api β} {w : List UInt8} (h : Does t m .begins w c)
    (h' : ∀ a, Does t m .ends [] (f a)) : Does t m .whole w (c >>= f) :=
  List.append_nil w ▸ h.seq h' (by intro b; cases b <;> rfl)

theorem does_failure (e : Effect) (w : List UInt8) : Does t m e w (failure : Api α) :=
  fun _ _ _ _ _ _ hrun => nomatch hrun

variable (t m edit) in
theorem cmdBeginF_does (pCmd pParamFmt : List UInt8) (args : List Arg) :
    Does t m .begins (cmdBytes pCmd pParamFmt args) (cmdBeginF t pCmd pParamFmt args) := by
  intro b w
  refine (cmdBeginF_spec pCmd pParamFmt args).mono (fun _ hsys => hsys) ?_
  rintro - sys ⟨rfl, -, hsys⟩
  exact ⟨true, rfl, hsys⟩

theorem cmdEnd_does (hm : m.Free) : Does t m .ends [] (cmdEnd t edit) := by
  intro b w
  refine cmdEnd_spec.mono (fun _ hsys => hsys) ?_
  rintro - sys ⟨rfl, hsys⟩
  rw [if_pos rfl, hm.unlock_lock t, ← List.append_nil w] at hsys
  exact ⟨false, rfl, hsys⟩

theorem cmdGetRspParamsF_does (pExpectedRsp : List UInt8) (buf : BinaryResponseBuf) (pParamFmt : List UInt8) :
    Does t m .reads [] (cmdGetRspParamsF t pExpectedRsp buf pParamFmt) := by
  refine (Does.of_keeps fun b m' w => cmdGetRspParamLine_spec pExpectedRsp buf).reads ?_
  rintro (_ | pRspParams)
  · exact .pure _
  · exact (Does.of_keeps fun b m' w => parseParamsF_spec _ _ _).bind_pure _

theorem execSimpleCmdF_does (hm : m.Free) (pCmd pParamFmt : List UInt8) (args : List Arg) :
    Does t m .whole (cmdBytes pCmd pParamFmt args) (execSimpleCmdF t edit pCmd pParamFmt args) :=
  (cmdBeginF_does t m pCmd pParamFmt args).ends fun _ => cmdEnd_does hm

theorem query_does (hm : m.Free) (pCmd pParamFmt : List UInt8) (args : List Arg) (pExpectedRsp : List UInt8)
    (buf : BinaryResponseBuf) (rspFmt : List UInt8) : Does t m .whole (cmdBytes pCmd pParamFmt args)
      (query t edit pCmd pParamFmt args pExpectedRsp buf rspFmt) := by
  have hend : ∀ r : Int × List Arg, Does t m .ends [] (do
      let ret ← alwaysEnd t edit r.1
      return (ret, r.2)) := fun r => ((cmdEnd_does hm).bind_pure _).bind_pure _
  refine (cmdBeginF_does t m pCmd pParamFmt args).ends fun _ => ?_
  refine (cmdGetRspParamsF_does pExpectedRsp buf rspFmt).seq hend fun b => ?_
  cases b <;> rfl

theorem getNext_does (pExpectedRsp rspFmt : List UInt8) : Does t m .reads [] (getNext t pExpectedRsp rspFmt) :=
  (cmdGetRspParamsF_does pExpectedRsp ⟨none, none⟩ rspFmt).bind_pure fun (ret, values) => (decide (0 ≤ ret), values)

theorem queryBegin_does (pCmd pParamFmt : List UInt8) (args : List Arg) (pExpectedRsp rspFmt : List UInt8) :
    Does t m .begins (cmdBytes pCmd pParamFmt args) (queryBegin t pCmd pParamFmt args pExpectedRsp rspFmt) :=
  (cmdBeginF_does t m pCmd pParamFmt args).reads fun _ => getNext_does pExpectedRsp rspFmt

/-- Functions one after the other: their effects follow from each other, and so do their texts. -/
theorem Does.forM {ι : Type} {effect : ι → Effect} {command : ι → List UInt8} {run : ι → Api PUnit}
    (h : ∀ i, Does t m (effect i) (command i) (run i)) (is : List ι) (b : Bool) (w : List UInt8) :
    Triple (Between t m b w) (is.forM run) fun _ sys =>
      ∃ b', is.foldlM (fun b i => (effect i).next b) b = some b' ∧ Between t m b' (w ++ is.flatMap command) sys := by
  have hfold : ∀ k : Bool × List UInt8,
      is.foldlM (fun k i => ((effect i).next k.1).map (·, k.2 ++ command i)) k =
        (is.foldlM (fun b i => (effect i).next b) k.1).map (·, k.2 ++ is.flatMap command) := by
    intro k
    induction is generalizing k with
    | nil => simp
    | cons i is ih =>
      rw [List.foldlM_cons, List.foldlM_cons, List.flatMap_cons]
      cases (effect i).next k.1 with
      | none => rfl
      | some b => simpa using ih (b, k.2 ++ command i)
  have hstep : ∀ i ∈ is, ∀ k : Bool × List UInt8, Triple (Between t m k.1 k.2) (run i) fun _ sys =>
      ∃ k', ((effect i).next k.1).map (·, k.2 ++ command i) = some k' ∧ Between t m k'.1 k'.2 sys := by
    intro i _ k
    refine (h i k.1 k.2).mono (fun _ hsys => hsys) ?_
    rintro - sys ⟨b', hnext, hsys⟩
    exact ⟨(b', k.2 ++ command i), by rw [hnext]; rfl, hsys⟩
  refine (Triple.forM hstep (b, w)).mono (fun _ hsys => hsys) ?_
  rintro - sys ⟨k', hrun, hsys⟩
  rw [hfold] at hrun
  obtain ⟨b', hb, rfl⟩ := Option.map_eq_some_iff.1 hrun
  exact ⟨b', hb, hsys⟩

end

end Api
