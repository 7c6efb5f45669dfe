import UcxClient.Client.Alike

/-!
# What a command leaves behind for the next

A command begins with `pExpectedRsp` and `rspBinaryBuf` as an earlier command has left them.
`execSimpleCmd_independent`: a command that awaits no response behaves alike from two idle states
that agree on configuration, timeouts and queued URCs, as long as no read that it makes is
`Disturbed` by what was left behind. A URC that starts with an old prefix is lost
(`leftover_prefix_takes_urc`).
-/

open UrcQueue

namespace AtClient

/-- No command is executing, no transfer is open and the line buffer is empty. -/
structure Idle (c : AtClient) : Prop where
  executingCmd : c.executingCmd = false
  isBinaryRx : c.isBinaryRx = false
  rxHeaderCount : c.binaryRx.rxHeaderCount = 0
  rxBuffer : c.rxBuffer = []

/-- The clients agree on configuration, timeouts and queued URCs. -/
structure Agree (c c' : AtClient) : Prop where
  rxBufferLen : c.rxBufferLen = c'.rxBufferLen
  cmdTimeout : c.cmdTimeout = c'.cmdTimeout
  urcQueue : SameQueue 0 c.urcQueue c'.urcQueue

end AtClient

namespace AtState

open AtClient

section
variable {s s' : AtState}

theorem alike_cmdBeginF (hi : s.client.Idle) (hi' : s'.client.Idle) (ha : Agree s.client s'.client)
    (t : Nat) (now : Int) : Alike (s.cmdBeginF t now) (s'.cmdBeginF t now) := by
  refine alike_of_not_binary ⟨rfl, rfl, ha.rxBufferLen, ?_, rfl, ha.cmdTimeout, rfl, ?_, ?_,
    ha.urcQueue⟩ hi.isBinaryRx hi.rxHeaderCount
  · exact hi.rxBuffer.trans hi'.rxBuffer.symm
  · exact hi.isBinaryRx.trans hi'.isBinaryRx.symm
  · exact hi.rxHeaderCount.trans hi'.rxHeaderCount.symm

/-- `uCxAtClientExecSimpleCmdF` returns the status that `cmdEnd` recorded. -/
theorem execSimpleCmdF_ret (t : Nat) (edit : Callback) (s : AtState) (now : Int) (h : Host) :
    (s.uCxAtClientExecSimpleCmdF t edit now h).map (fun x => x.1.ret) =
      ((s.cmdBeginF t now).cmdEndRx t h).map fun x => x.1.client.status := by
  unfold uCxAtClientExecSimpleCmdF cmdEnd
  cases (s.cmdBeginF t now).cmdEndRx t h with
  | none => rfl
  | some x =>
    obtain ⟨calls, q, hp⟩ := processUrcs_total t edit (Nat.lt_succ_self x.1.client.urcQueue.bufferPos)
    simp only [Option.bind_some, hp, Option.map_some]

/-- **A command does not depend on the commands before it**, as long as nothing that they left behind
decides about a line it receives: it returns the same status, the same URCs are queued when it
unlocks `cmdMutex`, and no caller's memory changes. -/
theorem execSimpleCmd_independent (hi : s.client.Idle) (hi' : s'.client.Idle)
    (ha : Agree s.client s'.client) (t : Nat) (edit : Callback) (now : Int) (h : Host)
    (hd : ∀ p ∈ (s.cmdBeginF t now).endReads t h.uart h.clock, ¬p.1.Disturbed p.2)
    (hd' : ∀ p ∈ (s'.cmdBeginF t now).endReads t h.uart h.clock, ¬p.1.Disturbed p.2) :
    (s.uCxAtClientExecSimpleCmdF t edit now h).map (fun x => x.1.ret) =
      (s'.uCxAtClientExecSimpleCmdF t edit now h).map (fun x => x.1.ret) ∧
    Option.Rel (SameOutcome s.mem s'.mem) ((s.cmdBeginF t now).cmdEndRx t h)
      ((s'.cmdBeginF t now).cmdEndRx t h) := by
  have hrel : Option.Rel (SameOutcome s.mem s'.mem) ((s.cmdBeginF t now).cmdEndRx t h)
      ((s'.cmdBeginF t now).cmdEndRx t h) := by
    have hloop := (alike_cmdBeginF hi hi' ha t now).endLoop hd hd'
    unfold cmdEndRx
    generalize (s.cmdBeginF t now).endLoop t h.uart h.clock = x at hloop ⊢
    generalize (s'.cmdBeginF t now).endLoop t h.uart h.clock = x' at hloop ⊢
    cases hloop with
    | none => exact .none
    | some hx =>
      obtain ⟨h1, h2, h3, h4, h5⟩ := hx
      exact .some ⟨h1, ⟨h2.bufferLen, h2.bufferPos, h2.bytes⟩, h3, h4, h5⟩
  refine ⟨?_, hrel⟩
  rw [execSimpleCmdF_ret, execSimpleCmdF_ret]
  generalize (s.cmdBeginF t now).cmdEndRx t h = x at hrel ⊢
  generalize (s'.cmdBeginF t now).cmdEndRx t h = x' at hrel ⊢
  cases hrel with
  | none => rfl
  | some hx => exact congrArg some hx.1

end

/-- A client with a line buffer of 64 bytes and a URC buffer of 64 bytes. -/
def fresh : AtState := ⟨uCxAtClientInit false 64 (List.replicate 64 0), ⟨fun _ _ => 0, fun _ => 0⟩, (0, 0)⟩

/-- The input `bs` arrives byte by byte; the clock stands still. -/
def input (bs : List UInt8) : Host := ⟨⟨bs, bs.map fun _ => .avail 1⟩, bs.map fun _ => 0⟩

/-- The state after a command that awaited a response with prefix `+A` and got none. -/
def afterQuery : Option AtState :=
  ((fresh.cmdBeginF 0 0).uCxAtClientCmdGetRspParamLine 0 (some (text "+A")) ⟨some 3, some 4⟩
    (input (text "OK\r"))).bind fun x => (x.2.1.cmdEnd 0 id x.2.2).map fun y => y.2.1

/-- The states before and after that command are idle and agree. -/
theorem afterQuery_idle : ∃ s, afterQuery = some s ∧ fresh.client.Idle ∧ s.client.Idle ∧
    Agree fresh.client s.client := by
  obtain ⟨s, hs, hp⟩ := Option.map_eq_some_iff.1 (show afterQuery.map (fun s =>
      ([s.client.executingCmd, s.client.isBinaryRx], s.client.rxBuffer, s.client.cmdTimeout,
        [s.client.binaryRx.rxHeaderCount, s.client.rxBufferLen, s.client.urcQueue.bufferLen,
          s.client.urcQueue.bufferPos, s.client.urcQueue.pBuffer.length])) =
    some ([false, false], [], defaultCmdTimeoutMs, [0, 64, 64, 0, 64]) by decide)
  simp only [Prod.mk.injEq, List.cons.injEq, and_true] at hp
  obtain ⟨⟨h1, h2⟩, h4, h6, h3, h5, h7, h8, h9⟩ := hp
  refine ⟨s, hs, ⟨rfl, rfl, rfl, rfl⟩, ⟨h1, h2, h3, h4⟩, h5.symm, h6.symm, h7.symm, h8.symm, ?_⟩
  exact ⟨h9.symm, fun i hi => absurd hi (Nat.not_lt_zero i)⟩

/-- A URC with another prefix is received alike. -/
theorem execSimpleCmd_independent_other_prefix : ∃ s, afterQuery = some s ∧
    (fresh.uCxAtClientExecSimpleCmdF 0 id 0 (input (text "+B\rOK\r"))).map (fun x => x.1.ret) =
      (s.uCxAtClientExecSimpleCmdF 0 id 0 (input (text "+B\rOK\r"))).map fun x => x.1.ret := by
  obtain ⟨s, hs, hi, hi', ha⟩ := afterQuery_idle
  have hd : ∀ p ∈ (fresh.cmdBeginF 0 0).endReads 0 (input (text "+B\rOK\r")).uart
      (input (text "+B\rOK\r")).clock, ¬p.1.Disturbed p.2 := by decide
  have hd' : afterQuery.all (fun s => ((s.cmdBeginF 0 0).endReads 0 (input (text "+B\rOK\r")).uart
      (input (text "+B\rOK\r")).clock).all fun p => !decide (p.1.Disturbed p.2)) = true := by decide
  rw [hs, Option.all_some, List.all_eq_true] at hd'
  have hd2 : ∀ p ∈ (s.cmdBeginF 0 0).endReads 0 (input (text "+B\rOK\r")).uart
      (input (text "+B\rOK\r")).clock, ¬p.1.Disturbed p.2 := by
    intro p hp
    simpa using hd' p hp
  exact ⟨s, hs, (execSimpleCmd_independent hi hi' ha 0 id 0 (input (text "+B\rOK\r")) hd hd2).1⟩

/-- The URC `+A` is queued by a command of a fresh client, but after the query it is lost. -/
theorem leftover_prefix_takes_urc : ∃ s, afterQuery = some s ∧ fresh.client.Idle ∧ s.client.Idle ∧
    Agree fresh.client s.client ∧
    ¬Option.Rel (SameOutcome fresh.mem s.mem)
      ((fresh.cmdBeginF 0 0).cmdEndRx 0 (input (text "+A\rOK\r")))
      ((s.cmdBeginF 0 0).cmdEndRx 0 (input (text "+A\rOK\r"))) := by
  obtain ⟨s, hs, hi, hi', ha⟩ := afterQuery_idle
  refine ⟨s, hs, hi, hi', ha, fun hrel => ?_⟩
  have hfresh : ((fresh.cmdBeginF 0 0).cmdEndRx 0 (input (text "+A\rOK\r"))).map
      (fun x => x.1.client.urcQueue.bufferPos) = some 7 := by decide
  have hafter : (afterQuery.bind fun s => (s.cmdBeginF 0 0).cmdEndRx 0
      (input (text "+A\rOK\r"))).map (fun x => x.1.client.urcQueue.bufferPos) = some 0 := by decide
  rw [hs, Option.bind_some] at hafter
  obtain ⟨x, hx, h7⟩ := Option.map_eq_some_iff.1 hfresh
  obtain ⟨x', hx', h0⟩ := Option.map_eq_some_iff.1 hafter
  rw [hx, hx'] at hrel
  obtain ⟨-, hq, -⟩ : SameOutcome fresh.mem s.mem x x' := by
    cases hrel with
    | some h => exact h
  rw [hq.bufferPos, h0] at h7
  cases h7

end AtState
