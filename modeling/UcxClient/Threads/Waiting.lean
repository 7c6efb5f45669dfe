import UcxClient.Threads.Ownership

/-!
# Commands that wait while a payload is received

`Flows st` is a condition on a step: while a payload of kind `st` is received, no read fails, and no
read that brings nothing ends the call that is waiting for it, because that call is
`uCxAtClientHandleRx` or because the command timeout has expired in `cmdEnd`. Under this condition a
command has no status while such a payload is received (`Waiting.step`), and the payload is complete
when a call that received it is left (`Waiting.rxDone`, `Waiting.endDone`).
-/

open Transition

namespace Sys

/-- The reads of a payload of kind `st` go on until it is complete. -/
def Flows (st : BinaryState) (s : Sys) (ta : Nat × Act) : Prop :=
  s.st.client.Receiving st → ∀ r now, ta.2 = .read r now →
    (∀ err, r ≠ .failed err) ∧
    (r = .got [] → ∀ fs, s.threads ta.1 ≠ .handleRx :: fs ∧
      (s.threads ta.1 = .cmdEnd :: fs → s.st.client.timedOut now = false))

/-- The action is not a read that fails or brings nothing. -/
def Act.flows : Act → Bool
  | .read (.failed _) _ | .read (.got []) _ => false
  | _ => true

theorem flows_of_act {st : BinaryState} {ta : Nat × Act} (h : ta.2.flows = true) (s : Sys) :
    Flows st s ta := by
  intro _ r now hr
  rw [hr] at h
  refine ⟨fun err hf => ?_, fun hnil => ?_⟩
  · subst hf; cases h
  · subst hnil; cases h

/-- The command that is executing waits for its status. -/
structure Waiting (st : BinaryState) (s : Sys) : Prop where
  rxOk : AtState.RxOk s.st.client
  waiting : ∀ t, inRx (s.threads t) = true → s.st.client.executingCmd = true →
    s.st.client.status = noStatus ∨ s.st.client.Receiving .flush
  status : s.st.client.Receiving st → s.st.client.executingCmd = true →
    s.st.client.status = noStatus

section
variable {st : BinaryState} {s s' : Sys} {t : Nat} {a : Act} {fs' : List Frame}

theorem AfterRx.timedOut {r : ReadStatus} {st : AtState} {ret : Option ParserCode}
    (h : AfterRx s t r st ret) (now : Int) : st.client.timedOut now = s.st.client.timedOut now := by
  have h1 : st.client.cmdTimeout = s.st.client.cmdTimeout := congrArg Setup.cmdTimeout h.effect.setup
  have h2 : st.client.cmdStartTime = s.st.client.cmdStartTime :=
    congrArg Setup.cmdStartTime h.effect.setup
  rw [AtClient.timedOut, AtClient.timedOut, h1, h2]

/-- A payload is complete when the receiver is left from `uCxAtClientHandleRx` or `cmdEnd`. -/
theorem Waiting.returned (h : Waiting st s) (hflush : st ≠ .flush) {r : ReadStatus} {now : Int}
    {st' : AtState} {code : ParserCode} (hok : Flows st s (t, .read r now))
    (hrx : AfterRx s t r st' (some code)) (hr : st'.client.Receiving st) :
    s.st.client.Receiving st ∧ st'.client.status = s.st.client.status ∧
      (∀ fs, s.threads t ≠ .handleRx :: fs) ∧
      ∀ fs, s.threads t = .cmdEnd :: fs → st'.client.timedOut now = false := by
  obtain ⟨hs, hcase⟩ := hrx.effect.returned h.rxOk nofun hr
  obtain ⟨hfail, hempty⟩ := hok hs r now rfl
  rcases hcase with hnil | ⟨err, hf⟩
  · refine ⟨hs, ?_, fun fs => (hempty hnil fs).1, fun fs hfs => ?_⟩
    · rcases hrx.effect.status with h1 | ⟨err, h1⟩ | ⟨-, h1⟩
      · exact h1
      · exact absurd h1 (hfail err)
      · exact absurd (h1 st hr) hflush
    · rw [hrx.timedOut]
      exact (hempty hnil fs).2 hfs
  · exact absurd hf (hfail err)

/-- The client after a read that `handleRxData` goes on from, or returns to a waiting command. -/
theorem Waiting.read (h : Waiting st s) (hflush : st ≠ .flush) {r : ReadStatus} {now : Int}
    {st' : AtState} {ret : Option ParserCode} (hok : Flows st s (t, .read r now))
    (hrx : AfterRx s t r st' ret) (hr : st'.client.Receiving st)
    (hx : s.st.client.executingCmd = true) : st'.client.status = noStatus := by
  have hstatus : st'.client.status = s.st.client.status := by
    rcases hrx.effect.status with h1 | ⟨err, rfl⟩ | ⟨-, h1⟩
    · exact h1
    · have hs : s.st.client.Receiving st := by
        have he := hrx.effect
        cases he
        exact hr
      exact absurd rfl ((hok hs _ now rfl).1 err)
    · exact absurd (h1 st hr) hflush
  rw [hstatus]
  by_cases hs : s.st.client.Receiving st
  · exact h.status hs hx
  · rcases h.waiting t hrx.inRx hx with h1 | h1
    · exact h1
    · exact absurd (hrx.effect.same_kind h1 hr).symm hflush

/-- A step that reads nothing. -/
theorem Waiting.keep (h : Waiting st s) (hth : s'.threads = Function.update s.threads t fs')
    (hb : s'.st.client.isBinaryRx = s.st.client.isBinaryRx)
    (hr : s'.st.client.binaryRx = s.st.client.binaryRx)
    (hx : s'.st.client.executingCmd = true → s'.st.client.status = noStatus ∨
      (s.st.client.executingCmd = true ∧ s'.st.client.status = s.st.client.status ∧
        (inRx fs' = true → s.threads t = fs'))) : Waiting st s' := by
  have hrec : ∀ {k}, s'.st.client.Receiving k ↔ s.st.client.Receiving k := by
    intro k
    rw [AtClient.Receiving, AtClient.Receiving, hb, hr]
  refine ⟨h.rxOk.congr hb hr, fun u hin hxu => ?_, fun hs hxu => ?_⟩
  · rcases hx hxu with h0 | ⟨hxs, h0, hfs⟩
    · exact .inl h0
    · rw [h0, hrec]
      refine h.waiting u ?_ hxs
      rw [hth] at hin
      by_cases hut : u = t
      · subst hut
        rw [Function.update_self] at hin
        rwa [hfs hin]
      · rwa [Function.update_of_ne hut] at hin
  · rcases hx hxu with h0 | ⟨hxs, h0, -⟩
    · exact h0
    · rw [h0]; exact h.status (hrec.1 hs) hxs

/-- **Every step that lets the payload go on keeps a command waiting.** -/
theorem Waiting.step (h : Waiting st s) (hflush : st ≠ .flush) (ho : Owned s)
    (hok : Flows st s (t, a)) (he : Effect s t a s') : Waiting st s' := by
  have wf := ho.wf t
  cases he with
  | begin now hu hav hx => exact h.keep rfl rfl rfl fun _ => .inl rfl
  | expect p buf hfs hst => exact h.keep rfl rfl rfl fun _ => .inl hst
  | expectLate p buf hfs hst => exact h.keep rfl rfl rfl fun hx => .inr ⟨hx, rfl, nofun⟩
  | endWait hfs hst => exact h.keep rfl rfl rfl fun _ => .inl hst
  | endNow hfs hst => exact h.keep rfl rfl rfl fun hx => nomatch hx
  | rxClosed => exact h
  | rxBusy hu hav hx => exact h.keep rfl rfl rfl fun hx => .inr ⟨hx, rfl, nofun⟩
  | rxIdle hu hav hx => exact h.keep rfl rfl rfl fun hx' => nomatch hx.symm.trans hx'
  | user hu hc =>
    obtain ⟨_, _, _, _, _, rfl⟩ := hc
    exact h.keep rfl rfl rfl fun hx => .inr ⟨hx, rfl, fun _ => rfl⟩
  | writeMem mem hu => exact ⟨h.rxOk, h.waiting, h.status⟩
  | callbackReturn hfs => exact h.keep rfl rfl rfl fun hx => .inr ⟨hx, rfl, nofun⟩
  | urc hfs _ _ _ _ _ => exact h.keep rfl rfl rfl fun hx => .inr ⟨hx, rfl, nofun⟩
  | urcsDone hfs =>
    rw [hfs] at wf
    refine h.keep rfl rfl rfl fun hx => .inr ⟨hx, rfl, fun hin => ?_⟩
    rw [not_inRx_of_userCode wf.1] at hin
    cases hin
  | readMore hrx =>
    refine ⟨hrx.effect.ok h.rxOk, fun u hin hx => ?_, fun hr hx => ?_⟩
    · have hxs := hrx.executingCmd.symm.trans hx
      obtain rfl := ho.receiver_unique hxs hrx.inRx hin
      obtain ⟨hst, hrec⟩ := hrx.effect.more
      rcases hst with hst | hst
      · rcases h.waiting u hin hxs with h0 | h0
        · exact .inl (hst.trans h0)
        · exact .inr (hrec _ h0)
      · exact .inr hst
    · exact h.read hflush hok hrx hr (hrx.executingCmd.symm.trans hx)
  | @readStay r now st' code hrx hnrx hend hrsp =>
    have hst : s.st.client.executingCmd = true → st'.client.status = noStatus := by
      intro hx
      rcases hfs : s.threads t with _ | ⟨_ | _ | _ | _ | _, fs⟩ <;>
        have hin := hrx.inRx <;> rw [hfs] at hin wf <;> try cases hin
      · obtain ⟨⟨p, fs', rfl⟩, -⟩ := wf
        exact hrsp p fs' hfs
      · exact (hend fs hfs).2
      · exact absurd hfs (hnrx fs)
    exact ⟨hrx.effect.ok h.rxOk, fun u _ hx => .inl (hst (hrx.executingCmd.symm.trans hx)),
      fun _ hx => hst (hrx.executingCmd.symm.trans hx)⟩
  | @rxDone r now st' code fs hrx hfs =>
    have hx : st'.client.executingCmd = false := hrx.executingCmd.trans (ho.rx t _ hfs)
    exact ⟨(hrx.effect.ok h.rxOk).congr rfl rfl, fun _ _ hx' => (nomatch hx.symm.trans hx'),
      fun _ hx' => (nomatch hx.symm.trans hx')⟩
  | @rspDone r now st' code p pRet fs hrx hfs =>
    refine ⟨(hrx.effect.ok h.rxOk).congr rfl rfl, fun u hin hx => ?_, fun hr hx => ?_⟩
    · have hth : (({ s with st := st' } : Sys).set t st'.client (.cmd pRet :: fs)).threads =
          Function.update s.threads t (.cmd pRet :: fs) := rfl
      rw [hth] at hin
      by_cases hut : u = t
      · subst hut
        simp [Sys.inRx] at hin
      · rw [Function.update_of_ne hut] at hin
        exact absurd (ho.receiver_unique (hrx.executingCmd.symm.trans hx) hrx.inRx hin) hut
    · exact h.read hflush hok hrx hr (hrx.executingCmd.symm.trans hx)
  | endDone hrx hfs hst =>
    exact ⟨(hrx.effect.ok h.rxOk).congr rfl rfl, fun _ _ hx => (nomatch hx), fun _ hx => (nomatch hx)⟩

/-! ## The payload is complete when the call that received it is left -/

theorem Waiting.endNow (h : Waiting st s) (ho : Owned s) {pRet : Option (List UInt8)}
    {fs : List Frame} (hfs : s.threads t = .cmd pRet :: fs) (hst : s.st.client.status ≠ noStatus) :
    ¬s.st.client.Receiving st :=
  fun hr => hst (h.status hr (ho.executing (t := t) (by simp [hfs])).1)

section
variable {r : ReadStatus} {now : Int} {st' : AtState} {code : ParserCode} {fs : List Frame}

theorem Waiting.rxDone (h : Waiting st s) (hflush : st ≠ .flush)
    (hok : Flows st s (t, .read r now)) (hrx : AfterRx s t r st' (some code))
    (hfs : s.threads t = .handleRx :: fs) : ¬st'.client.Receiving st :=
  fun hr => (h.returned hflush hok hrx hr).2.2.1 fs hfs

theorem Waiting.endDone (h : Waiting st s) (hflush : st ≠ .flush) (ho : Owned s)
    (hok : Flows st s (t, .read r now)) (hrx : AfterRx s t r st' (some code))
    (hfs : s.threads t = .cmdEnd :: fs) {status : Int}
    (hst : (st'.client.timedOut now = true ∧ status = errorCmdTimeout) ∨
      (status = st'.client.status ∧ status ≠ noStatus)) : ¬st'.client.Receiving st := by
  intro hr
  obtain ⟨hs, hsame, -, hto⟩ := h.returned hflush hok hrx hr
  rcases hst with ⟨hto', -⟩ | ⟨rfl, hne⟩
  · rw [hto fs hfs] at hto'; cases hto'
  · exact hne (hsame.trans (h.status hs (ho.executing (t := t) (by simp [hfs])).1))

end

end

end Sys
