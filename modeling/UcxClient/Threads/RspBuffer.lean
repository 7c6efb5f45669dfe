import UcxClient.Threads.QueueLock

/-!
# Who the memory of a response belongs to

`setupBinaryTransfer` keeps a pointer to the buffer that the caller of
`uCxAtClientCmdGetRspParamLine` passed, and the receiver writes through it until the payload is
complete. `writes_only_passed`: as long as the payloads of responses flow (`Flows .rsp`), and a
response with a payload comes only to a command that asked for one, no such payload is due once the
command has ended, and the receiver changes only memory that was passed to the command that is
executing. A command that times out inside a payload leaves the pointer behind
(`timeout_leaves_buffer_open`).
-/

open Transition

namespace Sys

/-- The payload of a response flows, and belongs to a command that called
`uCxAtClientCmdGetRspParamLine` or to no length variable at all. -/
def RspFlows (s : Sys) (ta : Nat × Act) : Prop :=
  Flows .rsp s ta ∧
  (s.passed = [] → s.st.client.rspBinaryBuf.pBufferLength ≠ none →
    ∀ r now, ta.2 = .read r now → ¬s.st.StartsRsp r)

structure RspBuffer (s : Sys) : Prop where
  closed : s.st.client.executingCmd = false → ¬s.st.client.Receiving .rsp
  dest : s.st.client.Receiving .rsp → s.st.client.binaryRx.bufferSize = 0 ∨
    ∃ buf ∈ s.passed,
      s.st.client.binaryRx.pBuffer = (buf.pBuffer.map BinaryDest.caller).getD .null
  own : s.passed ≠ [] →
    s.st.client.executingCmd = true ∧ s.st.client.rspBinaryBuf ∈ s.passed
  unset : s.passed = [] → s.st.client.Receiving .rsp →
    s.st.client.rspBinaryBuf.pBufferLength = none

section
variable {s s' : Sys} {t : Nat} {a : Act}

theorem rspBuffer_of_closed (hr : ¬s.st.client.Receiving .rsp) (hp : s.passed = []) :
    RspBuffer s :=
  ⟨fun _ => hr, fun h => absurd h hr, fun hne => absurd hp hne, fun _ h => absurd h hr⟩

/-- A step that passes no buffer, reads nothing and ends no command. -/
theorem RspBuffer.keep (h : RspBuffer s) (hp : s'.passed = s.passed)
    (hb : s'.st.client.isBinaryRx = s.st.client.isBinaryRx)
    (hr : s'.st.client.binaryRx = s.st.client.binaryRx)
    (hx : s'.st.client.executingCmd = s.st.client.executingCmd)
    (hbuf : s'.st.client.rspBinaryBuf = s.st.client.rspBinaryBuf) : RspBuffer s' := by
  have hrec : s'.st.client.Receiving .rsp ↔ s.st.client.Receiving .rsp := by
    rw [AtClient.Receiving, AtClient.Receiving, hb, hr]
  refine ⟨fun h0 => ?_, fun h0 => ?_, ?_, fun hnil h0 => ?_⟩
  · rw [hrec]; exact h.closed (hx ▸ h0)
  · rw [hr, hp]; exact h.dest (hrec.1 h0)
  · rw [hp, hx, hbuf]; exact h.own
  · rw [hbuf]; exact h.unset (hp ▸ hnil) (hrec.1 h0)

/-- A command passes a buffer. -/
theorem RspBuffer.pass (h : RspBuffer s) (hx : s.st.client.executingCmd = true)
    {buf : BinaryResponseBuf} (hp : s'.passed = buf :: s.passed)
    (hb : s'.st.client.isBinaryRx = s.st.client.isBinaryRx)
    (hr : s'.st.client.binaryRx = s.st.client.binaryRx)
    (hx' : s'.st.client.executingCmd = s.st.client.executingCmd)
    (hbuf : s'.st.client.rspBinaryBuf = buf) : RspBuffer s' := by
  have hrec : s'.st.client.Receiving .rsp ↔ s.st.client.Receiving .rsp := by
    rw [AtClient.Receiving, AtClient.Receiving, hb, hr]
  refine ⟨fun h0 => ?_, fun h0 => ?_, fun _ => ⟨hx'.trans hx, ?_⟩, fun hnil => ?_⟩
  · rw [hx', hx] at h0; cases h0
  · rw [hr, hp]
    rcases h.dest (hrec.1 h0) with h0 | ⟨b, hmem, hb⟩
    · exact .inl h0
    · exact .inr ⟨b, List.mem_cons_of_mem _ hmem, hb⟩
  · rw [hp, hbuf]; exact List.mem_cons_self
  · rw [hp] at hnil; cases hnil

/-- The record of the transfer after a read. -/
theorem RspBuffer.read (h : RspBuffer s) (hok : AtState.RxOk s.st.client) {r : ReadStatus}
    {now : Int} (hflow : RspFlows s (t, .read r now)) {st : AtState} {ret : Option ParserCode}
    (hrx : AfterRx s t r st ret) : RspBuffer { s with st } := by
  have hbuf : st.client.rspBinaryBuf = s.st.client.rspBinaryBuf :=
    congrArg Setup.rspBinaryBuf hrx.effect.setup
  refine ⟨fun hx hr => ?_, fun hr => ?_, fun hne => ?_, fun hnil hr => ?_⟩
  · have hx0 := hrx.executingCmd.symm.trans hx
    rcases hrx.effect.rsp hok hr with ⟨hr0, -⟩ | ⟨⟨-, -, -, p, hk⟩, -⟩
    · exact h.closed hx0 hr0
    · rw [AtClient.executing_of_lineKind (.inr ⟨p, hk⟩)] at hx0; cases hx0
  · rcases hrx.effect.rsp hok hr with ⟨hr0, hd, hsize⟩ | ⟨hstart, hd, hsize⟩
    · rw [hd, hsize]; exact h.dest hr0
    · by_cases hne : s.passed = []
      · left
        cases hl : s.st.client.rspBinaryBuf.pBufferLength with
        | none => rw [hsize, hl]; rfl
        | some v => exact absurd hstart (hflow.2 hne (by simp [hl]) r now rfl)
      · exact .inr ⟨_, (h.own hne).2, hd⟩
  · exact ⟨hrx.executingCmd.trans (h.own hne).1, by rw [hbuf]; exact (h.own hne).2⟩
  · rw [hbuf]
    rcases hrx.effect.rsp hok hr with ⟨hr0, -⟩ | ⟨hstart, -⟩
    · exact h.unset hnil hr0
    · apply Classical.byContradiction
      intro hl
      exact hflow.2 hnil hl r now rfl hstart

theorem RspBuffer.step (h : RspBuffer s) (ho : Owned s) (hw : Waiting .rsp s)
    (hok : RspFlows s (t, a)) (he : Effect s t a s') : RspBuffer s' := by
  cases he with
  | begin now hu hav hx => exact rspBuffer_of_closed (h.closed hx) rfl
  | expect p buf hfs hst =>
    exact h.pass (ho.executing (t := t) (by simp [hfs])).1 rfl rfl rfl rfl rfl
  | expectLate p buf hfs hst =>
    exact h.pass (ho.executing (t := t) (by simp [hfs])).1 rfl rfl rfl rfl rfl
  | endNow hfs hst => exact rspBuffer_of_closed (hw.endNow ho hfs hst) rfl
  | rxClosed => exact h
  | user hu hc =>
    obtain ⟨_, _, _, _, _, rfl⟩ := hc
    exact h.keep rfl rfl rfl rfl rfl
  | endWait | rxBusy | rxIdle | writeMem | callbackReturn | urc | urcsDone =>
    exact h.keep rfl rfl rfl rfl rfl
  | readMore hrx => exact h.read hw.rxOk hok hrx
  | readStay hrx => exact h.read hw.rxOk hok hrx
  | rxDone hrx hfs => exact (h.read hw.rxOk hok hrx).keep rfl rfl rfl rfl rfl
  | rspDone hrx hfs => exact (h.read hw.rxOk hok hrx).keep rfl rfl rfl rfl rfl
  | endDone hrx hfs hst =>
    have hclosed := hw.endDone nofun ho hok.1 hrx hfs hst
    exact rspBuffer_of_closed hclosed rfl

/-- The buffer that a response is stored in was passed. -/
theorem RspBuffer.destBuffer (h : RspBuffer s) (hr : s.st.client.Receiving .rsp) {b : Nat}
    (hd : s.st.destBuffer = some b) : ∃ buf ∈ s.passed, buf.pBuffer = some b := by
  have hb : s.st.client.binaryRx.pBuffer = .caller b ∧ 0 < s.st.remainingBuf := by
    unfold AtState.destBuffer at hd
    split at hd
    · next b' hb' =>
      split at hd
      · next hrem =>
        cases hd
        exact ⟨hb', hrem⟩
      · cases hd
    · cases hd
  rcases h.dest hr with hz | ⟨buf, hmem, hbuf⟩
  · have := hb.2
    unfold AtState.remainingBuf at this
    omega
  · refine ⟨buf, hmem, ?_⟩
    rw [hb.1] at hbuf
    cases hp : buf.pBuffer with
    | none => rw [hp] at hbuf; cases hbuf
    | some b' => rw [hp] at hbuf; cases hbuf; rfl

/-- The length variable was passed, or there is none. -/
theorem RspBuffer.lengthVar (h : RspBuffer s)
    (hn : s.passed = [] → s.st.client.rspBinaryBuf.pBufferLength = none) {v : Nat}
    (hv : s.st.client.rspBinaryBuf.pBufferLength = some v) :
    ∃ buf ∈ s.passed, buf.pBufferLength = some v := by
  by_cases hne : s.passed = []
  · rw [hn hne] at hv; cases hv
  · exact ⟨_, (h.own hne).2, hv⟩

/-- The buffers and length variables that a read changes were passed to the command. -/
theorem RspBuffer.mem (h : RspBuffer s) (hok : AtState.RxOk s.st.client) {r : ReadStatus}
    {now : Int} (hflow : RspFlows s (t, .read r now)) {st : AtState} {ret : Option ParserCode}
    (hrx : AfterRx s t r st ret) :
    (∀ b i, st.mem.bytes b i = s.st.mem.bytes b i ∨ ∃ buf ∈ s.passed, buf.pBuffer = some b) ∧
    (∀ v, st.mem.length v = s.st.mem.length v ∨ ∃ buf ∈ s.passed, buf.pBufferLength = some v) := by
  rcases hrx.effect.mem with hsame | ⟨hbin, hge, hbut⟩ | ⟨hstart, hbut⟩
  · rw [hsame]
    exact ⟨fun _ _ => .inl rfl, fun _ => .inl rfl⟩
  · by_cases hst : s.st.client.binaryRx.state = .rsp
    · have hrec : s.st.client.Receiving .rsp := ⟨hbin, hge, hst⟩
      rw [AtState.lengthVar, if_pos hst] at hbut
      exact ⟨fun b i => (hbut.1 b i).imp_right (h.destBuffer hrec),
        fun v => (hbut.2 v).imp_right (h.lengthVar fun hnil => h.unset hnil hrec)⟩
    · obtain ⟨h1, h2⟩ := AtState.destBuffer_lengthVar hok hbin hge hst
      rw [h1, h2] at hbut
      exact ⟨fun b i => (hbut.1 b i).imp_right (by rintro ⟨⟩), fun v => (hbut.2 v).imp_right (by rintro ⟨⟩)⟩
  · have hn : s.passed = [] → s.st.client.rspBinaryBuf.pBufferLength = none := by
      intro hnil
      apply Classical.byContradiction
      intro hl
      exact hflow.2 hnil hl r now rfl hstart
    exact ⟨fun b i => (hbut.1 b i).imp_right (by rintro ⟨⟩),
      fun v => (hbut.2 v).imp_right (h.lengthVar hn)⟩

/-- Only an application and the receiver change memory. -/
theorem Effect.mem (he : Effect s t a s') :
    s'.st.mem = s.st.mem ∨ (∃ mem, a = .writeMem mem) ∨
    ∃ r now st ret, a = .read r now ∧ AfterRx s t r st ret ∧ s'.st.mem = st.mem := by
  cases he with
  | writeMem mem hu => exact .inr (.inl ⟨mem, rfl⟩)
  | readMore hrx | readStay hrx | rxDone hrx | rspDone hrx | endDone hrx =>
    exact .inr (.inr ⟨_, _, _, _, rfl, hrx, rfl⟩)
  | _ => exact .inl rfl

end

/-! ## The main theorem -/

theorem rspBuffer_of_reach {s : Sys} (h : Reach step RspFlows Started s) :
    Owned s ∧ Waiting .rsp s ∧ RspBuffer s := by
  refine h.invariant (I := fun s => Owned s ∧ Waiting .rsp s ∧ RspBuffer s) ?_ ?_
  · rintro s ⟨reentrant, n, pUrcBuffer, mem, rfl⟩
    have hrec : ∀ st, ¬(init reentrant n pUrcBuffer mem).st.client.Receiving st := by
      intro st h
      cases h.1
    exact ⟨owned_init _ _ _ _, ⟨AtState.rxOk_of_not_binary rfl rfl, nofun, nofun⟩,
      rspBuffer_of_closed (hrec .rsp) rfl⟩
  · intro s ⟨t, a⟩ s' ⟨ho, hw, hb⟩ hok hs
    have he := step_effect hs
    exact ⟨ho.step he, hw.step nofun ho hok.1 he, hb.step ho hw hok he⟩

/-- **The receiver writes only what was passed to the command that is executing**: once a command has
ended no response is being received, and nothing counts as passed. -/
theorem writes_only_passed {s : Sys} (h : Reach step RspFlows Started s) :
    (s.st.client.executingCmd = false → ¬s.st.client.Receiving .rsp ∧ s.passed = []) ∧
    (∀ t a s', RspFlows s (t, a) → s.step (t, a) = some s' → (∀ mem, a ≠ .writeMem mem) →
      (∀ b i, s'.st.mem.bytes b i = s.st.mem.bytes b i ∨ ∃ buf ∈ s.passed, buf.pBuffer = some b) ∧
      (∀ v, s'.st.mem.length v = s.st.mem.length v ∨
        ∃ buf ∈ s.passed, buf.pBufferLength = some v)) := by
  obtain ⟨ho, hw, hb⟩ := rspBuffer_of_reach h
  refine ⟨fun hx => ⟨hb.closed hx, ?_⟩, fun t a s' hok hs hne => ?_⟩
  · apply Classical.byContradiction
    intro hp
    have := (hb.own hp).1
    rw [hx] at this
    cases this
  · rcases (step_effect hs).mem with hsame | ⟨mem, rfl⟩ | ⟨r, now, st, ret, rfl, hrx, hmem⟩
    · rw [hsame]; exact ⟨fun _ _ => .inl rfl, fun _ => .inl rfl⟩
    · exact absurd rfl (hne mem)
    · rw [hmem]
      exact hb.mem hw.rxOk hok hrx

/-- Thread 0 receives a response with a payload of 5 bytes, up to the first of them, into buffer 3,
with the length variable 4. -/
def rspBegun : List (Nat × Act) :=
  [(0, .writeMem ⟨fun _ _ => 0, fun _ => 10⟩), (0, .clientOpen), (0, .cmdBeginF 0),
    (0, .getRspParamLine (some (text "+P")) ⟨some 3, some 4⟩)] ++
  reads 0 (text "+P" ++ [sohChar]) ++ [(0, .read (.got [0, 5]) 0), (0, .read (.got [7]) 0)]

/-- In the middle of a payload the next byte changes at most buffer 3. -/
theorem writes_only_passed_open_payload : ∃ s, Reach step RspFlows Started s ∧
    s.st.client.Receiving .rsp ∧ ∀ s', s.step (0, .read (.got [8]) 0) = some s' →
      ∀ b i, s'.st.mem.bytes b i = s.st.mem.bytes b i ∨ b = 3 := by
  let check (s : Sys) (ta : Nat × Act) : Bool :=
    ta.2.flows && (decide (s.passed ≠ []) || decide (s.st.client.rspBinaryBuf.pBufferLength = none))
  have hcheck : ∀ s ta, check s ta = true → RspFlows s ta := by
    intro s ta h
    obtain ⟨h1, h2⟩ := Bool.and_eq_true_iff.1 h
    refine ⟨flows_of_act h1 s, fun hnil hne => ?_⟩
    simp [hnil, hne] at h2
  obtain ⟨s, hs, hp⟩ := Option.map_eq_some_iff.1 (show (runIf check step small rspBegun).map
    (fun s => (s.passed, decide (s.st.client.Receiving .rsp))) =
      some ([⟨some 3, some 4⟩], true) by decide)
  have hr : Reach step RspFlows Started s := (Reach.start ⟨_, _, _, _, rfl⟩).runIf hcheck hs
  have hpassed : s.passed = [⟨some 3, some 4⟩] := congrArg Prod.fst hp
  refine ⟨s, hr, of_decide_eq_true (congrArg Prod.snd hp), fun s' hs' b i => ?_⟩
  have hok : RspFlows s (0, .read (.got [8]) 0) := by
    refine ⟨flows_of_act rfl s, fun hnil => ?_⟩
    rw [hpassed] at hnil
    cases hnil
  rcases ((writes_only_passed hr).2 0 _ s' hok hs' nofun).1 b i with h | ⟨buf, hmem, hb⟩
  · exact .inl h
  · rw [hpassed] at hmem
    cases List.mem_singleton.1 hmem
    exact .inr (Option.some.inj hb).symm

/-- The command times out inside the payload of its response. When it has ended, the transfer into
its buffer is still open, and `uCxAtClientHandleRx` goes on to write there. -/
theorem timeout_leaves_buffer_open : ∃ s s', Reach step anyStep Started s ∧
    s.st.client.executingCmd = false ∧ s.st.client.Receiving .rsp ∧
    s.step (0, .read (.got [8]) 0) = some s' ∧ s'.st.mem.bytes 3 1 ≠ s.st.mem.bytes 3 1 := by
  obtain ⟨s, hs, hp⟩ := Option.map_eq_some_iff.1 (show (run step small (rspBegun ++
    [(0, .read (.got []) 20000), (0, .cmdEnd), (0, .read (.got []) 20000)] ++
    List.replicate 4 (0, .next) ++ [(0, .handleRx)])).map
    (fun s => (s.st.client.executingCmd, decide (s.st.client.Receiving .rsp),
      s.st.mem.bytes 3 1, (s.step (0, .read (.got [8]) 0)).map fun s => s.st.mem.bytes 3 1)) =
      some (false, true, 0, some 8) by decide)
  simp only [Prod.mk.injEq, decide_eq_true_eq] at hp
  obtain ⟨hx, hrec, h0, h8⟩ := hp
  obtain ⟨s', hs', h8⟩ := Option.map_eq_some_iff.1 h8
  have hr : Reach step anyStep Started small := .start ⟨_, _, _, _, rfl⟩
  refine ⟨s, s', hr.run (fun _ _ _ => trivial) hs, hx, hrec, hs', ?_⟩
  rw [h0, h8]
  decide

end Sys
