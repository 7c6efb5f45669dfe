import UcxClient.Client.Twin
import UcxClient.Threads.Status

/-!
# Closing and opening a client again

`uCxAtClientClose` and `uCxAtClientOpen` change nothing that the receiver looks at. `reopened_like_fresh`:
a client that is closed between two lines, outside of any transfer, and opened again goes on like a
freshly initialised one, whatever the threads then call and whatever arrives; otherwise some input is
received differently. Excepted are the inputs that meet the expected prefix or the response buffer of an
earlier command (`LeftDecides`), as after any command.
-/

open Transition

namespace Sys

open AtState

/-- The queue without an entry whose payload is still being received. -/
def queuedUrcs (c : AtClient) : UrcQueue :=
  if c.Receiving .urc then
    { c.urcQueue with
      bufferPos := c.urcQueue.pEnqueueEntry.getD c.urcQueue.bufferPos
      pEnqueueEntry := none
      queueMutex := .create c.urcQueue.queueMutex.reentrant }
  else c.urcQueue

/-- The client has been freshly initialised and opened, with the same configuration and queued
URCs. -/
def fresh (s : Sys) : Sys :=
  { s with st := { s.st with client :=
    { uCxAtClientInit false s.st.client.rxBufferLen [] with
      opened := true
      cmdTimeout := s.st.client.cmdTimeout
      cmdTimeoutLastPerm := s.st.client.cmdTimeoutLastPerm
      urcCallback := s.st.client.urcCallback
      urcQueue := queuedUrcs s.st.client
      cmdMutex := s.st.client.cmdMutex } } }

/-- No line and no transfer is being received. -/
def Between (c : AtClient) : Prop := c.rxBuffer = [] ∧ c.isBinaryRx = false

/-- Until `uCxAtClientCmdGetRspParamLine` is called, nothing that is left over decides about a line. -/
def Undisturbed : Sys → List (Nat × Act) → Prop
  | _, [] => True
  | _, (_, .getRspParamLine _ _) :: _ => True
  | s, (t, a) :: as => (∀ r now, a = .read r now → ¬s.st.LeftDecides r) ∧
      ∀ s', s.step (t, a) = some s' → Undisturbed s' as

/-- What the calls of the threads have returned, and the queued URCs. -/
def seen (s : Sys) : (Nat → List Frame) × UrcQueue := (s.threads, s.st.client.urcQueue)

/-- Whatever is called and arrives, `view` is the same as for a fresh client. -/
def LikeFresh {β : Type} (view : Sys → β) (s : Sys) : Prop :=
  ∀ as, s.Undisturbed as → (run step s as).map view = (run step s.fresh as).map view

/-! ## One step -/

structure Paired (asked : Bool) (s s' : Sys) : Prop where
  owned : Owned s
  rxOk : RxOk s.st.client
  threads : s'.threads = s.threads
  twin : s.st.Twin asked s'.st
  unasked : asked = false → ∀ u fs, s.threads u ≠ .getRsp :: fs

/-- The outcomes of a step of both. -/
def Matched (asked : Bool) : Option Sys → Option Sys → Prop :=
  Option.Rel fun s s' => s'.threads = s.threads ∧ s.st.Twin asked s'.st

theorem rxOk_step {s s' : Sys} {t : Nat} {a : Act} (h : RxOk s.st.client)
    (hs : s.step (t, a) = some s') : RxOk s'.st.client := by
  cases step_effect hs with
  | user hu hc =>
    obtain ⟨_, _, _, _, _, rfl⟩ := hc
    exact h.congr rfl rfl
  | readMore hrx | readStay hrx | rxDone hrx | rspDone hrx | endDone hrx =>
    exact (hrx.effect.ok h).congr rfl rfl
  | _ => exact h.congr rfl rfl

section
variable {asked : Bool} {s s' : Sys} {t : Nat} {a : Act} {fs : List Frame}

theorem Paired.status (h : Paired asked s s') (ht : 0 < execs (s.threads t)) :
    s'.st.client.status = s.st.client.status ∧
    s'.st.client.cmdStartTime = s.st.client.cmdStartTime := by
  obtain ⟨l, hl, hf, -⟩ := h.twin
  rw [hl]
  exact hf.begun (h.owned.executing ht).1

theorem matched_urcStep {l : Left} {passed : List BinaryResponseBuf}
    (hf : s.st.client.Fits asked l)
    (hx : s.st.client.isBinaryRx = true → 2 ≤ s.st.client.binaryRx.rxHeaderCount →
      s.st.client.SameRx l) (k : Option Int) (fs : List Frame) (pc : UrcPc) :
    Matched asked (s.urcStep t k fs pc)
      (urcStep ⟨s.st.withLeft l, s.threads, passed⟩ t k fs pc) := by
  have queue : ∀ urcQueue fs, Matched asked (some (s.set t { s.st.client with urcQueue } fs))
      (some (set ⟨s.st.withLeft l, s.threads, passed⟩ t
        { (s.st.withLeft l).client with urcQueue } fs)) := by
    intro urcQueue fs
    exact .some ⟨rfl, l, rfl, ⟨hf.count, hf.begun, hf.fresh, hf.asked⟩,
      fun hb hc => ⟨(hx hb hc).place, (hx hb hc).lengthVar⟩⟩
  have hq : (s.st.withLeft l).client.urcQueue = s.st.client.urcQueue := rfl
  cases pc with
  | start => exact queue _ _
  | locked =>
    simp only [urcStep, hq]
    split
    · exact queue _ _
    · exact .none
  | checked pEntry => cases pEntry <;> exact queue _ _
  | callback pEntry => exact .none
  | called pEntry =>
    simp only [urcStep, hq]
    split
    · exact queue _ _
    · exact .none
  | popped => exact queue _ _
  | done => exact queue s.st.client.urcQueue fs

/-- The end of a command. -/
theorem matched_leaveCmdEnd {c d d' : AtClient} {l : Left} {mem : CallerMem}
    {lengthBuf : UInt8 × UInt8} {passed passed' : List BinaryResponseBuf} (hst : l.status = c.status)
    (hf : c.Fits asked l)
    (hx : c.isBinaryRx = true → 2 ≤ c.binaryRx.rxHeaderCount → c.SameRx l) (fs : List Frame) :
    Matched asked (some (leaveCmdEnd ⟨⟨d, mem, lengthBuf⟩, s.threads, passed⟩ t c fs))
      (some (leaveCmdEnd ⟨⟨d', mem, lengthBuf⟩, s.threads, passed'⟩ t (c.withLeft l) fs)) := by
  refine .some ⟨?_, l, rfl, ⟨hf.count, nofun, hf.fresh, hf.asked⟩,
    fun hb hc => ⟨(hx hb hc).place, (hx hb hc).lengthVar⟩⟩
  simp only [leaveCmdEnd, set, show (c.withLeft l).status = c.status from hst]

/-- What is done with the result of a read. -/
theorem matched_afterRead {st st' : AtState} {passed : List BinaryResponseBuf} (h : st.Twin asked st')
    (hexec : 0 < execs (s.threads t) → st.client.executingCmd = true)
    (hask : asked = false → ∀ fs, s.threads t ≠ .getRsp :: fs) (ret : Option ParserCode) (now : Int) :
    Matched asked (some (({ s with st } : Sys).afterRead t ret now))
      (some (afterRead ⟨st', s.threads, passed⟩ t ret now)) := by
  obtain ⟨l, rfl, hf, hx⟩ := h
  have stay : Matched asked (some { s with st }) (some ⟨st.withLeft l, s.threads, passed⟩) :=
    .some ⟨rfl, l, rfl, hf, hx⟩
  cases ret with
  | none => exact stay
  | some code =>
    rcases hfs : s.threads t with _ | ⟨_ | _ | _ | _ | _, fs⟩
    · simpa only [afterRead, hfs] using stay
    · simpa only [afterRead, hfs] using stay
    · rcases fs with _ | ⟨_ | _ | _ | _ | _, fs⟩ <;> try simpa only [afterRead, hfs] using stay
      obtain ⟨hst, hstart⟩ := hf.begun (hexec (by simp [hfs]))
      have ha : asked = true := by
        cases asked with
        | true => rfl
        | false => exact absurd hfs (hask rfl _)
      have hto : (st.withLeft l).client.timedOut now = st.client.timedOut now := by
        simp only [AtClient.timedOut, withLeft, AtClient.withLeft, hstart]
      have hst' : (st.withLeft l).client.status = st.client.status := hst
      have hpar : (st.withLeft l).client.pRspParams = st.client.pRspParams := (hf.asked ha).1
      simp only [afterRead, hfs, hto, hst', hpar]
      split
      · exact .some ⟨rfl, l, rfl, hf, hx⟩
      split
      · exact .some ⟨rfl, l, rfl, hf, hx⟩
      · exact stay
    · obtain ⟨hst, hstart⟩ := hf.begun (hexec (by simp [hfs]))
      have hto : (st.withLeft l).client.timedOut now = st.client.timedOut now := by
        simp only [AtClient.timedOut, withLeft, AtClient.withLeft, hstart]
      have hst' : (st.withLeft l).client.status = st.client.status := hst
      simp only [afterRead, hfs, AtClient.cmdEndCheck, hto, hst']
      split
      · refine matched_leaveCmdEnd (c := { st.client with status := errorCmdTimeout })
          (l := { l with status := errorCmdTimeout }) rfl ⟨hf.count, ?_, hf.fresh, hf.asked⟩ ?_ fs
        · exact fun _ => ⟨rfl, hstart⟩
        · exact fun hb hc => ⟨(hx hb hc).place, (hx hb hc).lengthVar⟩
      split
      · exact matched_leaveCmdEnd hst hf hx fs
      · exact stay
    · simp only [afterRead, hfs]
      exact .some ⟨rfl, l, rfl, ⟨hf.count, hf.begun, hf.fresh, hf.asked⟩,
        fun hb hc => ⟨(hx hb hc).place, (hx hb hc).lengthVar⟩⟩
    · simpa only [afterRead, hfs] using stay

/-- **A step of both.** -/
theorem Paired.step_matched (h : Paired asked s s')
    (hd : asked = false → ∀ r now, a = .read r now → ¬s.st.LeftDecides r)
    (hask : ∀ p buf, a ≠ .getRspParamLine p buf) :
    Matched asked (s.step (t, a)) (s'.step (t, a)) := by
  obtain ⟨st', threads', passed'⟩ := s'
  obtain rfl : threads' = s.threads := h.threads
  obtain ⟨l, hl, hf, hx⟩ := h.twin
  obtain rfl : st' = s.st.withLeft l := hl
  have hcl : (s.st.withLeft l).client = s.st.client.withLeft l := rfl
  have put : ∀ {c : AtClient} {fs : List Frame}, c.Fits asked l →
      (c.isBinaryRx = true → 2 ≤ c.binaryRx.rxHeaderCount → c.SameRx l) →
      Matched asked (some (s.set t c fs))
        (some (set ⟨s.st.withLeft l, s.threads, passed'⟩ t (c.withLeft l) fs)) := by
    intro c fs hf hx
    exact .some ⟨rfl, l, rfl, hf, hx⟩
  -- a setter, or a URC callback that changes its entry
  have user : ∀ {c : AtClient}, c.Fits asked l →
      (c.isBinaryRx = true → 2 ≤ c.binaryRx.rxHeaderCount → c.SameRx l) →
      Matched asked (if userCode (s.threads t) then some (s.set t c (s.threads t)) else none)
        (if userCode (s.threads t) then some (set ⟨s.st.withLeft l, s.threads, passed'⟩ t
          (c.withLeft l) (s.threads t)) else none) := by
    intro c hf hx
    split
    · exact put hf hx
    · exact .none
  have hfits : ∀ {c : AtClient}, c.binaryRx = s.st.client.binaryRx →
      c.executingCmd = s.st.client.executingCmd → c.status = s.st.client.status →
      c.cmdStartTime = s.st.client.cmdStartTime → c.pRspParams = s.st.client.pRspParams →
      c.pExpectedRsp = s.st.client.pExpectedRsp → c.rspBinaryBuf = s.st.client.rspBinaryBuf →
      c.Fits asked l := by
    intro c h1 h2 h3 h4 h5 h6 h7
    refine ⟨by rw [h1]; exact hf.count, by rw [h2, h3, h4]; exact hf.begun, hf.fresh, ?_⟩
    rw [h5, h6, h7]
    exact hf.asked
  have hsame : ∀ {c : AtClient}, c.isBinaryRx = s.st.client.isBinaryRx →
      c.binaryRx = s.st.client.binaryRx → c.rspBinaryBuf = s.st.client.rspBinaryBuf →
      c.isBinaryRx = true → 2 ≤ c.binaryRx.rxHeaderCount → c.SameRx l := by
    intro c h1 h2 h3 hb hc
    rw [h1] at hb
    rw [h2] at hc
    obtain ⟨hp, hlen⟩ := hx hb hc
    exact ⟨by rw [h2]; exact hp, by rw [h2, h3]; exact hlen⟩
  cases a with
  | cmdBeginF now =>
    simp only [step, hcl, AtClient.withLeft]
    split
    · refine .some ⟨rfl, { l with pRspParams := none, status := noStatus, cmdStartTime := now }, rfl,
        ⟨hf.count, fun _ => ⟨rfl, rfl⟩, hf.fresh, fun ha => ⟨rfl, (hf.asked ha).2⟩⟩, ?_⟩
      exact fun hb hc => ⟨(hx hb hc).place, (hx hb hc).lengthVar⟩
    · exact .none
  | getRspParamLine p buf => exact absurd rfl (hask p buf)
  | cmdEnd =>
    rcases hfs : s.threads t with _ | ⟨_ | _ | _ | _ | _, fs⟩ <;> simp only [step, hfs] <;>
      try exact .none
    have hst := (h.status (t := t) (by simp [hfs])).1
    rw [hst]
    split
    · exact put hf hx
    · exact matched_leaveCmdEnd hst hf hx fs
  | handleRx =>
    simp only [step, hcl, AtClient.withLeft]
    split
    · split
      · exact .some ⟨rfl, l, rfl, hf, hx⟩
      split
      · split
        · exact put (hfits rfl rfl rfl rfl rfl rfl rfl) (hsame rfl rfl rfl)
        · exact put (hfits rfl rfl rfl rfl rfl rfl rfl) (hsame rfl rfl rfl)
      · exact .none
    · exact .none
  | setCommandTimeout ms perm =>
    exact user (hfits rfl rfl rfl rfl rfl rfl rfl) (hsame rfl rfl rfl)
  | setUrcCallback b => exact user (hfits rfl rfl rfl rfl rfl rfl rfl) (hsame rfl rfl rfl)
  | clientOpen => exact user (hfits rfl rfl rfl rfl rfl rfl rfl) (hsame rfl rfl rfl)
  | clientClose => exact user (hfits rfl rfl rfl rfl rfl rfl rfl) (hsame rfl rfl rfl)
  | writeMem mem =>
    simp only [step]
    split
    · exact .some ⟨rfl, l, rfl, hf, hx⟩
    · exact .none
  | writeEntry i b =>
    rcases hfs : s.threads t with _ | ⟨_ | _ | _ | _ | ⟨k, _ | _ | _ | _ | _ | _ | _⟩, fs⟩ <;>
      simp only [step, hfs] <;> try exact .none
    rw [hcl, show (s.st.client.withLeft l).urcQueue = s.st.client.urcQueue from rfl]
    split
    · rw [← hfs]
      exact user (hfits rfl rfl rfl rfl rfl rfl rfl) (hsame rfl rfl rfl)
    · exact .none
  | callbackReturn =>
    simp only [step]
    split
    · exact put hf hx
    · exact .none
  | read r now =>
    obtain ⟨hret, htw⟩ := h.twin.rxStep h.rxOk t fun ha => hd ha r now rfl
    simp only [step, h.twin.wants]
    split
    · next hg =>
      rcases hs1 : s.st.rxStep t r with ⟨st1, ret⟩
      rcases hs1' : (s.st.withLeft l).rxStep t r with ⟨st1', ret'⟩
      rw [hs1, hs1'] at hret htw
      obtain rfl : ret' = ret := hret
      have hq : st1'.client.urcQueue = st1.client.urcQueue := by
        obtain ⟨l1, hl1, -⟩ := htw
        rw [show st1' = st1.withLeft l1 from hl1]
        rfl
      simp only [hq]
      split
      · exact .none
      · next hb =>
        have hrx : AfterRx s t r st1 ret' := ⟨hg.1, hg.2, hs1, by simpa using hb⟩
        refine matched_afterRead htw (fun hpos => ?_) (fun ha => h.unasked ha t) ret' now
        rw [hrx.executingCmd]
        exact (h.owned.executing hpos).1
    · exact .none
  | next =>
    simp only [step]
    split
    · exact matched_urcStep hf hx _ _ _
    · exact .none

/-- `uCxAtClientCmdGetRspParamLine` replaces what is left over. -/
theorem Paired.step_asked (h : Paired asked s s') (p : Option (List UInt8)) (buf : BinaryResponseBuf) :
    Matched true (s.step (t, .getRspParamLine p buf)) (s'.step (t, .getRspParamLine p buf)) := by
  obtain ⟨st', threads', passed'⟩ := s'
  obtain rfl : threads' = s.threads := h.threads
  obtain ⟨l, hl, hf, hx⟩ := h.twin
  obtain rfl : st' = s.st.withLeft l := hl
  rcases hfs : s.threads t with _ | ⟨_ | _ | _ | _ | _, fs⟩ <;> simp only [step, hfs] <;>
    try exact .none
  have hst := (h.status (t := t) (by simp [hfs])).1
  have hst' : ((s.st.withLeft l).client.expectRsp p buf.pBuffer buf.pBufferLength).status =
      (s.st.client.expectRsp p buf.pBuffer buf.pBufferLength).status := hst
  rw [hst']
  refine .some ⟨rfl, { l with
    rspBinaryBuf := ⟨buf.pBuffer, buf.pBufferLength⟩, pRspParams := none, pExpectedRsp := p }, rfl,
    ⟨hf.count, hf.begun, by rintro ⟨⟩, fun _ => ⟨rfl, rfl, rfl⟩⟩, fun hb hc => ⟨(hx hb hc).place, fun _ => rfl⟩⟩

/-- Only `uCxAtClientCmdGetRspParamLine` waits for a response. -/
theorem unasked_step {s1 : Sys} (ho : Owned s) (hs : s.step (t, a) = some s1)
    (hask : ∀ p buf, a ≠ .getRspParamLine p buf) (h : ∀ u fs, s.threads u ≠ .getRsp :: fs) (u : Nat)
    (fs : List Frame) : s1.threads u ≠ .getRsp :: fs := by
  by_cases hut : u = t
  · subst hut
    cases step_effect hs with
    | expect p buf | expectLate p buf => exact absurd rfl (hask p buf)
    | rxClosed | writeMem | readMore | readStay => exact h u fs
    | user =>
      simp only [set, Function.update_self]
      exact h u fs
    | rspDone _ hfs => exact absurd hfs (h u _)
    | urcsDone hfs =>
      have hu : userCode _ = true := (hfs ▸ ho.wf u).1
      simp only [set, Function.update_self]
      rintro rfl
      cases hu
    | _ => simp [set, leaveCmdEnd]
  · rw [step_threads hs hut]
    exact h u fs

theorem Paired.next {asked' : Bool} {s1 s1' : Sys} (h : Paired asked s s')
    (hs : s.step (t, a) = some s1) (hth : s1'.threads = s1.threads) (htw : s1.st.Twin asked' s1'.st)
    (hun : asked' = false → ∀ u fs, s1.threads u ≠ .getRsp :: fs) : Paired asked' s1 s1' :=
  ⟨h.owned.step (step_effect hs), rxOk_step h.rxOk hs, hth, htw, hun⟩

/-- **A run of both.** -/
theorem Paired.run {as : List (Nat × Act)} (h : Paired asked s s')
    (hd : asked = false → Undisturbed s as) :
    (Transition.run step s as).map seen = (Transition.run step s' as).map seen := by
  induction as generalizing asked s s' with
  | nil =>
    obtain ⟨l, hl, -⟩ := h.twin
    simp only [Transition.run, Option.map_some, seen, h.threads, hl]
    rfl
  | cons ta as ih =>
    obtain ⟨t, a⟩ := ta
    have after : ∀ {asked'}, Matched asked' (s.step (t, a)) (s'.step (t, a)) →
        (∀ s1, s.step (t, a) = some s1 →
          asked' = false → (∀ u fs, s1.threads u ≠ .getRsp :: fs) ∧ Undisturbed s1 as) →
        (Transition.run step s ((t, a) :: as)).map seen =
          (Transition.run step s' ((t, a) :: as)).map seen := by
      intro asked' hm hnext
      simp only [Transition.run]
      generalize hs : s.step (t, a) = x at hm hnext ⊢
      generalize s'.step (t, a) = x' at hm ⊢
      cases hm with
      | none => rfl
      | some hm =>
        obtain ⟨hth, htw⟩ := hm
        have hnext := hnext _ rfl
        exact ih (h.next hs hth htw fun ha => (hnext ha).1) fun ha => (hnext ha).2
    by_cases hask : ∃ p buf, a = .getRspParamLine p buf
    · obtain ⟨p, buf, rfl⟩ := hask
      exact after (h.step_asked p buf) fun _ _ ha => Bool.noConfusion ha
    · have hask' : ∀ p buf, a ≠ .getRspParamLine p buf := fun p buf ha => hask ⟨p, buf, ha⟩
      have hund : asked = false → (∀ r now, a = .read r now → ¬s.st.LeftDecides r) ∧
          ∀ s1, s.step (t, a) = some s1 → Undisturbed s1 as := by
        intro ha
        have := hd ha
        cases a with
        | getRspParamLine p buf => exact absurd rfl (hask' p buf)
        | _ => exact this
      refine after (h.step_matched (fun ha => (hund ha).1) hask') fun s1 hs ha => ⟨?_, ?_⟩
      · exact unasked_step h.owned hs hask' (h.unasked ha)
      · exact (hund ha).2 s1 hs

theorem paired_fresh (ho : Owned s) (hok : RxOk s.st.client)
    (hx : s.st.client.executingCmd = false) (hopen : s.st.client.opened = true)
    (hb : Between s.st.client) : Paired false s s.fresh := by
  obtain ⟨hline, hbin⟩ := hb
  have hq : queuedUrcs s.st.client = s.st.client.urcQueue :=
    if_neg fun hr => Bool.false_ne_true (hbin.symm.trans hr.1)
  refine ⟨ho, hok, rfl, ⟨⟨0, 0, 0, none, none, ⟨none, none⟩, ⟨.flush, 0, 0, .null, 0, 0⟩⟩, ?_, ?_, ?_⟩, ?_⟩
  · simp only [fresh, hq, withLeft, AtClient.withLeft]
    simp only [uCxAtClientInit, hline, hx, hopen, hbin]
  · exact ⟨(hok.idle hbin).symm, fun h => absurd (hx.symm.trans h) (by rintro ⟨⟩), fun _ => ⟨rfl, rfl⟩, by rintro ⟨⟩⟩
  · exact fun h => absurd (hbin.symm.trans h) (by rintro ⟨⟩)
  · intro _ u fs hfs
    have h0 := ho.not_executing hx u
    obtain ⟨⟨p, fs', rfl⟩, -⟩ := hfs ▸ ho.wf u
    rw [hfs] at h0
    cases h0

/-! ## Another start of the receiver -/

/-- The line buffer is empty while a payload is due. -/
def LineTaken (c : AtClient) : Prop :=
  c.isBinaryRx = true → 2 ≤ c.binaryRx.rxHeaderCount → c.rxBuffer = []

theorem takePayload_line (st : AtState) (bytes : List UInt8) :
    (st.takePayload bytes).client.rxBuffer = st.client.rxBuffer ∧
    (st.takePayload bytes).client.pRspParams = st.client.pRspParams := by
  simp only [takePayload, storePayload]
  split
  · split <;> exact ⟨rfl, rfl⟩
  · exact ⟨rfl, rfl⟩

theorem binaryRxDone_line (st : AtState) :
    (st.binaryRxDone t).1.client.rxBuffer = st.client.rxBuffer ∧
    (st.binaryRxDone t).1.client.pRspParams = st.client.pRspParams := by
  simp only [binaryRxDone]
  split <;> exact ⟨rfl, rfl⟩

theorem lineTaken_next {st : AtState} (h : LineTaken st.client) : LineTaken (st.binaryRxNext t).1.client := by
  rcases st.binaryRxNext_cases t with ⟨-, heq⟩ | ⟨-, heq⟩
  · rw [heq]
    exact h
  · rw [heq]
    intro hb
    rw [(st.binaryRxDone_client t).1] at hb
    cases hb

theorem lineTaken_read {st st' : AtState} {r : ReadStatus} {ret : Option ParserCode}
    (h : LineTaken st.client) (hok : RxOk st.client) (he : RxEffect t st r st' ret) :
    LineTaken st'.client := by
  cases he with
  | failed err => exact h
  | quiet hbin _ =>
    intro _ hc
    have h0 := hok.idle hbin
    have hc' : 2 ≤ st.client.binaryRx.rxHeaderCount := hc
    omega
  | line hbin _ hp =>
    intro hb
    rw [AtClient.isBinaryRx_lineDone, (AtClient.parseLine_setup hp).2.1, hbin] at hb
    cases hb
  | header _ hlt => exact fun _ hc => absurd hc (Nat.not_le.2 hlt)
  | start =>
    obtain ⟨n, -, heq⟩ := (st.storeHeader _).startTransfer_eq t (Prod.eta _).symm
    rw [heq]
    exact lineTaken_next fun _ _ => rfl
  | stalled | payload =>
    have hpay : ∀ bytes, LineTaken (st.takePayload bytes).client := by
      intro bytes hb hc
      obtain ⟨-, hb', hc', -⟩ := st.takePayload_client bytes
      rw [(takePayload_line st bytes).1]
      exact h (hb' ▸ hb) (hc' ▸ hc)
    first
      | exact hpay _
      | exact lineTaken_next (hpay _)

/-- What every step keeps. -/
structure Steady (s : Sys) : Prop where
  rxOk : RxOk s.st.client
  lineTaken : LineTaken s.st.client
  unblocked : s.st.client.urcQueue.queueMutex.blocked = false

theorem Steady.read (h : Steady s) {r : ReadStatus} {st : AtState} {ret : Option ParserCode}
    (hrx : AfterRx s t r st ret) : Steady { s with st } :=
  ⟨hrx.effect.ok h.rxOk, lineTaken_read h.lineTaken h.rxOk hrx.effect, hrx.granted⟩

theorem Steady.step (h : Steady s) (hs : s.step (t, a) = some s') : Steady s' := by
  cases step_effect hs with
  | user hu hc =>
    obtain ⟨_, _, _, _, _, rfl⟩ := hc
    exact ⟨h.rxOk.congr rfl rfl, h.lineTaken, h.unblocked⟩
  | readMore hrx | readStay hrx | rxDone hrx | rspDone hrx | endDone hrx =>
    have hrd := h.read hrx
    exact ⟨hrd.rxOk.congr rfl rfl, hrd.lineTaken, hrd.unblocked⟩
  | urc _ _ _ _ hm _ => exact ⟨h.rxOk.congr rfl rfl, h.lineTaken, hm ▸ h.unblocked⟩
  | _ => exact ⟨h.rxOk.congr rfl rfl, h.lineTaken, h.unblocked⟩

/-- Without an expected prefix a response is the whole line. -/
theorem rsp_none {x : Bool} {line p : List UInt8} (h : lineKind x none line = .rsp p) : p = line := by
  have hu : urcKind line ≠ .rsp p := by
    rcases AtClient.urcKind_cases line with hk | hk <;> rw [hk] <;> nofun
  unfold lineKind at h
  split at h
  · cases h
  split at h
  · simp only [cmdKind, expectedBy, Bool.false_eq_true, ↓reduceIte] at h
    split at h
    · cases h
    split at h
    · split at h
      · cases h
      · exact absurd h hu
    split at h
    · cases h
      rfl
    · exact absurd h hu
  · exact absurd h hu

/-- A payload of which the read leaves something. -/
theorem rxStep_more {st : AtState} (hbin : st.client.isBinaryRx = true)
    (hc : 2 ≤ st.client.binaryRx.rxHeaderCount) (b : UInt8)
    (hn : 1 < st.client.binaryRx.remainingDataBytes) :
    st.rxStep t (.got [b]) = (st.takePayload [b], none) := by
  rw [rxStep_payload hbin hc]
  unfold readPayload binaryRxNext
  rw [if_neg (by simp), st.takePayload_remaining, if_pos]
  rw [List.length_singleton]
  omega

/-- The last byte of a payload. -/
theorem rxStep_last {st : AtState} (hbin : st.client.isBinaryRx = true)
    (hc : 2 ≤ st.client.binaryRx.rxHeaderCount) (b : UInt8)
    (hn : st.client.binaryRx.remainingDataBytes = 1) :
    (st.rxStep t (.got [b])).1.client.pRspParams = st.client.pRspParams ∧
    (st.rxStep t (.got [b])).1.client.rxBuffer = st.client.rxBuffer ∧
    (st.rxStep t (.got [b])).1.client.isBinaryRx = false := by
  have heq : st.rxStep t (.got [b]) = (((st.takePayload [b]).binaryRxDone t).1,
      some ((st.takePayload [b]).binaryRxDone t).2) := by
    rw [rxStep_payload hbin hc]
    unfold readPayload binaryRxNext
    rw [if_neg (by simp), st.takePayload_remaining, hn, List.length_singleton, if_neg (by omega)]
  obtain ⟨h1, h2⟩ := takePayload_line st [b]
  obtain ⟨h3, h4⟩ := binaryRxDone_line (t := t) (st.takePayload [b])
  rw [heq]
  exact ⟨h4.trans h2, h3.trans h1, ((st.takePayload [b]).binaryRxDone_client t).1⟩

/-- The first length byte. -/
theorem rxStep_header_more {st : AtState} (hbin : st.client.isBinaryRx = true)
    (hc : st.client.binaryRx.rxHeaderCount = 0) (b : UInt8) :
    st.rxStep t (.got [b]) = (st.storeHeader [b], some .nop) := by
  rw [rxStep_header hbin (by omega)]
  unfold readHeader
  rw [if_pos]
  simp only [storeHeader, hc, List.length_singleton]
  omega

/-- The second length byte, if it is not zero: a payload follows. -/
theorem rxStep_header_last {st : AtState} (hbin : st.client.isBinaryRx = true)
    (hc : st.client.binaryRx.rxHeaderCount = 1) {b : UInt8} (hb : 1 < b.toNat) :
    (st.rxStep t (.got [b])).2 = none ∧ (st.rxStep t (.got [b])).1.client.isBinaryRx = true ∧
    2 ≤ (st.rxStep t (.got [b])).1.client.binaryRx.rxHeaderCount ∧
    1 < (st.rxStep t (.got [b])).1.client.binaryRx.remainingDataBytes := by
  have hstart : st.rxStep t (.got [b]) = (st.storeHeader [b]).startTransfer t := by
    rw [rxStep_header hbin (by omega)]
    unfold readHeader
    rw [if_neg]
    simp only [storeHeader, hc, List.length_singleton]
    omega
  obtain ⟨n, hn, heq⟩ := (st.storeHeader [b]).startTransfer_eq t (Prod.eta _).symm
  have hcount : (st.storeHeader [b]).client.binaryRx.rxHeaderCount = 2 := by
    simp only [storeHeader, hc, List.length_singleton]
  have hlb : (st.storeHeader [b]).lengthBuf.2 = b := by
    simp only [storeHeader, hc, storeLengthBuf]
  rw [hlb] at hn
  obtain ⟨h1, h2, h3, -⟩ := setupBinaryTransfer_client t { st.storeHeader [b] with
    client := ((st.storeHeader [b]).client.parseLine t (st.storeHeader [b]).client.rxBuffer).1 }
    ((st.storeHeader [b]).client.parseLine t (st.storeHeader [b]).client.rxBuffer).2 n
  have hparse : (st.storeHeader [b]).client.parseLine t (st.storeHeader [b]).client.rxBuffer =
      (_, _) := (Prod.eta _).symm
  obtain ⟨-, h4, h5⟩ := AtClient.parseLine_setup hparse
  rw [hstart, heq]
  unfold binaryRxNext
  rw [if_pos (by simp only [h3]; omega)]
  refine ⟨rfl, h1.trans (h4.trans hbin), ?_, ?_⟩
  · exact Nat.le_of_eq (h2.trans ((congrArg BinaryRx.rxHeaderCount h5).trans hcount)).symm
  · simp only [h3]
    omega

/-- The response that a carriage return completes. -/
theorem rxStep_cr {st : AtState} (hbin : st.client.isBinaryRx = false)
    (hexp : st.client.pExpectedRsp = none) (h : (st.rxStep t (.got [ch '\r'])).2 = some .gotRsp) :
    (st.rxStep t (.got [ch '\r'])).1.client.pRspParams = some st.client.rxBuffer := by
  rw [rxStep_char hbin, readChar_eol t st (by decide)] at h ⊢
  have hret : (st.client.parseLine t st.client.rxBuffer).2 = .gotRsp := by
    unfold AtClient.lineRet at h
    split at h
    · exact Option.some.inj h
    · cases h
  obtain ⟨p, hp⟩ := (AtClient.parseLine_gotRsp t _ _).1 hret
  rw [AtClient.lineDone, if_neg (by rw [hret]; rintro ⟨⟩), AtClient.parseLine_eq, hp]
  rw [hexp] at hp
  exact congrArg some (rsp_none hp)

/-- Unless the receiver is between two lines, `a` and a carriage return give no response `a`. -/
theorem no_response {st : AtState} (hok : RxOk st.client) (htaken : LineTaken st.client)
    (hexp : st.client.pExpectedRsp = none) (hpar : st.client.pRspParams = none)
    (hnot : ¬Between st.client)
    (h : ((st.rxStep t (.got [ch 'a'])).1.rxStep t (.got [ch '\r'])).2 = some .gotRsp) :
    ((st.rxStep t (.got [ch 'a'])).1.rxStep t (.got [ch '\r'])).1.client.pRspParams ≠
      some [ch 'a'] := by
  have hexp' : (st.rxStep t (.got [ch 'a'])).1.client.pExpectedRsp = none :=
    (congrArg Setup.pExpectedRsp (rxStep_effect t st (.got [ch 'a'])).setup).trans hexp
  by_cases hbin : st.client.isBinaryRx = true
  · by_cases hc : st.client.binaryRx.rxHeaderCount < 2
    · by_cases h0 : st.client.binaryRx.rxHeaderCount = 0
      · -- both bytes are taken for the length
        rw [rxStep_header_more hbin h0] at h
        have hone : (st.storeHeader [ch 'a']).client.binaryRx.rxHeaderCount = 1 := by
          simp only [storeHeader, h0, List.length_singleton]
        have hbin' : (st.storeHeader [ch 'a']).client.isBinaryRx = true := hbin
        rw [(rxStep_header_last hbin' hone (by decide)).1] at h
        cases h
      · -- the second of them is payload
        obtain ⟨-, hb, hc, hn⟩ :=
          rxStep_header_last (t := t) hbin (b := ch 'a') (by omega) (by decide)
        rw [rxStep_more hb hc _ hn] at h
        cases h
    · have hge := Nat.not_lt.1 hc
      have hpos := hok.pending hbin hge
      by_cases h1 : st.client.binaryRx.remainingDataBytes = 1
      · obtain ⟨-, hline, hb⟩ := rxStep_last (t := t) hbin hge (ch 'a') h1
        rw [rxStep_cr hb hexp' h, hline, htaken hbin hge]
        rintro ⟨⟩
      · obtain ⟨-, hb, hc', -⟩ := st.takePayload_client [ch 'a']
        have hrem := st.takePayload_remaining [ch 'a']
        rw [List.length_singleton] at hrem
        rw [rxStep_more hbin hge _ (by omega)] at h ⊢
        by_cases h2 : st.client.binaryRx.remainingDataBytes = 2
        · rw [(rxStep_last (hb.trans hbin) (by rw [hc']; exact hge) _ (by omega)).1,
            (takePayload_line st [ch 'a']).2, hpar]
          rintro ⟨⟩
        · rw [rxStep_more (hb.trans hbin) (by rw [hc']; exact hge) _ (by omega)] at h
          cases h
  · have hfalse : st.client.isBinaryRx = false := by simpa using hbin
    have hline : st.client.rxBuffer ≠ [] := fun hl => hnot ⟨hl, hfalse⟩
    have heq := rxStep_char (t := t) hfalse [ch 'a']
    have hb : (st.rxStep t (.got [ch 'a'])).1.client.isBinaryRx = false := by
      rw [heq, readChar_print t st (by decide)]
      exact hfalse
    have hl : (st.rxStep t (.got [ch 'a'])).1.client.rxBuffer =
        if (st.client.rxBuffer ++ [ch 'a']).length = st.client.rxBufferLen then []
        else st.client.rxBuffer ++ [ch 'a'] := by
      rw [heq, readChar_print t st (by decide)]
    rw [rxStep_cr hb hexp' h, hl, ne_eq, Option.some.injEq]
    split
    · rintro ⟨⟩
    · simpa using hline

/-- A thread has begun a command and waits for any response to it. -/
def awaiting (s : Sys) (t : Nat) : Sys :=
  let c := { s.st.client with cmdMutex := s.st.client.cmdMutex.lock t }
  { st := { s.st with client := (c.beginCmd 0).expectRsp none none none }
    threads := Function.update s.threads t (.getRsp :: .cmd none :: s.threads t)
    passed := [⟨none, none⟩] }

def await (t : Nat) : List (Nat × Act) :=
  [(t, .cmdBeginF 0), (t, .getRspParamLine none ⟨none, none⟩)]

/-- The line `a` in answer to the command. -/
def answer (t : Nat) : List (Nat × Act) :=
  [(t, .read (.got [ch 'a']) 0), (t, .read (.got [ch '\r']) 0)]

theorem run_await (hu : userCode (s.threads t) = true)
    (hav : s.st.client.cmdMutex.available t = true) (hx : s.st.client.executingCmd = false) :
    Transition.run step s (await t) = some (s.awaiting t) := by
  have hst : ∀ c : AtClient, ((c.beginCmd 0).expectRsp none none none).status = noStatus :=
    fun _ => rfl
  simp only [await, Transition.run, step, hu, hav, hx, Bool.false_eq_true, not_false_eq_true,
    and_self, ↓reduceIte, Option.bind_some, set, Function.update_self, hst, Function.update_idem,
    List.cons_append, List.nil_append, awaiting]

/-- A read of a thread that waits for a response. -/
theorem read_getRsp {s1 : Sys} {p : Option (List UInt8)} {r : ReadStatus} {now : Int}
    (hfs : s.threads t = .getRsp :: .cmd p :: fs) (h : s.step (t, .read r now) = some s1) :
    s1.st = (s.st.rxStep t r).1 ∧ (s1.threads t = s.threads t ∨ s1.threads t = .cmd none :: fs ∨
      ((s.st.rxStep t r).2 = some .gotRsp ∧
        s1.threads t = .cmd (s.st.rxStep t r).1.client.pRspParams :: fs)) := by
  simp only [step] at h
  split at h
  · rcases hrx : s.st.rxStep t r with ⟨st, ret⟩
    rw [hrx] at h
    simp only at h
    split at h
    · cases h
    · obtain rfl := Option.some.inj h
      cases ret with
      | none => exact ⟨rfl, .inl rfl⟩
      | some code =>
        simp only [afterRead, hfs]
        split
        · next hc =>
          subst hc
          exact ⟨rfl, .inr (.inr ⟨rfl, by simp [set]⟩)⟩
        split
        · exact ⟨rfl, .inr (.inl (by simp [set]))⟩
        · exact ⟨rfl, .inl hfs⟩
  · cases h

/-- What the two reads have brought if `a` is returned. -/
theorem run_answer {s1 : Sys} (hfs : s.threads t = .getRsp :: .cmd none :: fs)
    (h : Transition.run step s (answer t) = some s1)
    (hth : s1.threads t = .cmd (some [ch 'a']) :: fs) :
    ((s.st.rxStep t (.got [ch 'a'])).1.rxStep t (.got [ch '\r'])).2 = some .gotRsp ∧
    ((s.st.rxStep t (.got [ch 'a'])).1.rxStep t (.got [ch '\r'])).1.client.pRspParams =
      some [ch 'a'] := by
  obtain ⟨s2, h1, h2⟩ := Option.bind_eq_some_iff.1 h
  obtain ⟨s3, h3, h4⟩ := Option.bind_eq_some_iff.1 h2
  obtain rfl : s3 = s1 := Option.some.inj h4
  obtain ⟨hst, hcase⟩ := read_getRsp hfs h1
  have hwait : s2.threads t = .getRsp :: .cmd none :: fs := by
    rcases hcase with hc | hc | ⟨-, hc⟩
    · exact hc.trans hfs
    -- a thread that has left the loop does not read
    all_goals
      simp only [step, hc, inRx, Bool.false_eq_true, false_and, ↓reduceIte] at h3
      cases h3
  obtain ⟨-, hcase⟩ := read_getRsp hwait h3
  rw [← hst]
  rcases hcase with hc | hc | ⟨hret, hc⟩
  · rw [hc, hwait] at hth
    cases hth
  · rw [hc] at hth
    cases hth
  · rw [hc] at hth
    exact ⟨hret, Frame.cmd.inj (List.cons.inj hth).1⟩

/-- Between two lines, `a` is returned. -/
theorem answered (hfs : s.threads t = .getRsp :: .cmd none :: fs) (hb : Between s.st.client)
    (hx : s.st.client.executingCmd = true) (hexp : s.st.client.pExpectedRsp = none)
    (hlen : 2 ≤ s.st.client.rxBufferLen)
    (hblocked : s.st.client.urcQueue.queueMutex.blocked = false) :
    ∃ s1, Transition.run step s (answer t) = some s1 ∧ s1.threads t = .cmd (some [ch 'a']) :: fs := by
  obtain ⟨hline, hbin⟩ := hb
  obtain ⟨st, hst⟩ : ∃ st, st = { s.st with client := { s.st.client with rxBuffer := [ch 'a'] } } :=
    ⟨_, rfl⟩
  have h1 : s.st.rxStep t (.got [ch 'a']) = (st, none) := by
    have hne : ¬([] ++ [ch 'a']).length = s.st.client.rxBufferLen := by
      simp only [List.nil_append, List.length_singleton]
      omega
    rw [rxStep_char hbin, readChar_print t s.st (by decide), hline, if_neg hne, hst, List.nil_append]
  have h2 : st.rxStep t (.got [ch '\r']) = ({ st with client := { st.client with
      pRspParams := some [ch 'a'], rxBuffer := [] } }, some .gotRsp) := by
    have hk : lineKind st.client.executingCmd st.client.pExpectedRsp st.client.rxBuffer =
        .rsp [ch 'a'] := by
      rw [hst]
      simp only [hx, hexp]
      decide
    rw [rxStep_char (by rw [hst]; exact hbin), readChar_eol t st (by decide), AtClient.parseLine_eq, hk]
    rfl
  have hread : ∀ (s1 : Sys) {b : UInt8} {st1 : AtState} {ret : Option ParserCode},
      s1.threads t = .getRsp :: .cmd none :: fs → s1.st.client.isBinaryRx = false →
      s1.st.rxStep t (.got [b]) = (st1, ret) → st1.client.urcQueue.queueMutex.blocked = false →
      s1.step (t, .read (.got [b]) 0) = some (({ s1 with st := st1 } : Sys).afterRead t ret 0) := by
    intro s1 b st1 ret hfs hbin hrx hbl
    have hfits : ReadStatus.fits s1.st.wants (.got [b]) = true := by
      simp [ReadStatus.fits, wants, hbin]
    simp only [step, hfs, inRx, hfits, and_self, ↓reduceIte, hrx, hbl, Bool.false_eq_true]
  have hb2 : st.client.isBinaryRx = false := by rw [hst]; exact hbin
  have hbl2 : st.client.urcQueue.queueMutex.blocked = false := by rw [hst]; exact hblocked
  have hs2 := hread { s with st } hfs hb2 h2 hbl2
  simp only [answer, Transition.run, hread s hfs hbin h1 hbl2, Option.bind_some, afterRead, hs2, hfs,
    ↓reduceIte]
  exact ⟨_, rfl, by simp [set]⟩

theorem Steady.fresh (h : Steady s) : Steady s.fresh := by
  refine ⟨rxOk_of_not_binary rfl rfl, nofun, ?_⟩
  show (queuedUrcs s.st.client).queueMutex.blocked = false
  unfold queuedUrcs
  split
  · rfl
  · exact h.unblocked

/-- A client that returns `a` to a command, like a fresh one, is between two lines. -/
theorem between_of_answer (h : Steady s) (hu : userCode (s.threads t) = true)
    (hav : s.st.client.cmdMutex.available t = true) (hx : s.st.client.executingCmd = false)
    (hlen : 2 ≤ s.st.client.rxBufferLen)
    (hlike : (Transition.run step s (await t ++ answer t)).map Sys.threads =
      (Transition.run step s.fresh (await t ++ answer t)).map Sys.threads) : Between s.st.client := by
  rw [run_append, run_append, run_await hu hav hx, run_await (s := s.fresh) hu hav rfl,
    Option.bind_some, Option.bind_some] at hlike
  have hfs : ∀ s : Sys, (s.awaiting t).threads t = .getRsp :: .cmd none :: s.threads t := by
    intro s
    simp [awaiting]
  obtain ⟨s1, h1, hth⟩ := answered (s := s.fresh.awaiting t) (hfs s.fresh) ⟨rfl, rfl⟩ rfl rfl hlen
    h.fresh.unblocked
  rw [h1] at hlike
  obtain ⟨s2, h2, hth2⟩ := Option.map_eq_some_iff.1 hlike
  obtain ⟨hret, hpar⟩ := run_answer (hfs s) h2 ((congrFun hth2 t).trans hth)
  apply Classical.byContradiction
  intro hnot
  have hok : RxOk (s.awaiting t).st.client := h.rxOk.congr rfl rfl
  exact no_response hok h.lineTaken rfl rfl hnot hret hpar

theorem handleRx_of_held (wf : WellFormed fs) (h0 : execs fs = 0) (hpos : 0 < held fs) :
    ∃ fs', fs = .handleRx :: fs' := by
  induction fs with
  | nil => cases hpos
  | cons f fs ih =>
    cases f with
    | cmd | cmdEnd => simp at h0
    | getRsp =>
      obtain ⟨⟨p, fs', rfl⟩, -⟩ := wf
      simp at h0
    | handleRx => exact ⟨fs, rfl⟩
    | urcs k pc =>
      obtain ⟨fs', rfl⟩ := ih wf.2 h0 hpos
      cases wf.1

/-- While no command is executing, only `uCxAtClientHandleRx` can have locked `cmdMutex`. -/
theorem handleRx_of_unavailable (ho : Owned s) (hx : s.st.client.executingCmd = false)
    (hav : s.st.client.cmdMutex.available t = false) : ∃ u fs, s.threads u = .handleRx :: fs := by
  have hown : s.st.client.cmdMutex.owner ≠ none := by
    intro hn
    simp [Mutex.available, hn] at hav
  obtain ⟨u, hu⟩ := Option.ne_none_iff_exists'.1 hown
  have hpos : 0 < held (s.threads u) := by
    rw [ho.mutex.holds u, if_pos hu]
    exact Nat.pos_of_ne_zero (mt ho.mutex.free.2 hown)
  exact ⟨u, handleRx_of_held (ho.wf u) (ho.not_executing hx u) hpos⟩

/-- A read that brings nothing ends `uCxAtClientHandleRx`. -/
theorem step_handleRx_nil (h : Steady s) {u : Nat} (hfs : s.threads u = .handleRx :: fs) :
    s.step (u, .read (.got []) 0) = some (s.set u
      { s.st.client with cmdMutex := s.st.client.cmdMutex.unlock u } (.urcs none .start :: fs)) := by
  simp only [step, hfs, inRx, ReadStatus.fits, List.length_nil, Nat.zero_le, decide_true, and_self,
    ↓reduceIte, rxStep_nil, h.unblocked, Bool.false_eq_true, afterRead]

theorem between_of_likeFresh (ho : Owned s) (h : Steady s) (hu : userCode (s.threads t) = true)
    (hx : s.st.client.executingCmd = false) (hlen : 2 ≤ s.st.client.rxBufferLen)
    (hlike : LikeFresh Sys.threads s) : Between s.st.client := by
  have hund : ∀ s, Undisturbed s (await t ++ answer t) :=
    fun s => ⟨fun _ _ ha => Act.noConfusion ha, fun _ _ => trivial⟩
  cases hav : s.st.client.cmdMutex.available t with
  | true => exact between_of_answer h hu hav hx hlen (hlike _ (hund s))
  | false =>
    -- first `uCxAtClientHandleRx` of another thread returns
    obtain ⟨u, fs, hfs⟩ := handleRx_of_unavailable ho hx hav
    have hs := step_handleRx_nil h hfs
    have hs' := step_handleRx_nil h.fresh (show s.fresh.threads u = .handleRx :: fs from hfs)
    have hut : t ≠ u := by
      rintro rfl
      rw [hfs] at hu
      cases hu
    obtain ⟨s1, hs1⟩ : ∃ s1, s1 = s.set u
      { s.st.client with cmdMutex := s.st.client.cmdMutex.unlock u } (.urcs none .start :: fs) :=
      ⟨_, rfl⟩
    rw [← hs1] at hs
    have ho1 := ho.step (step_effect hs)
    have hav1 : s1.st.client.cmdMutex.available t = true := by
      apply Classical.byContradiction
      intro hno
      obtain ⟨v, fs', hv⟩ := handleRx_of_unavailable ho1 (by rw [hs1]; exact hx) (by simpa using hno)
      by_cases hvu : v = u
      · subst hvu
        simp [hs1, set] at hv
      · rw [step_threads hs hvu] at hv
        exact hvu (ho.mutex.exclusive (t := v) (by simp [hv]) (by simp [hfs]))
    have hrun := hlike ((u, .read (.got []) 0) :: (await t ++ answer t)) ⟨?_, fun _ _ => hund _⟩
    · have hfresh : s.fresh.set u { s.fresh.st.client with
          cmdMutex := s.fresh.st.client.cmdMutex.unlock u } (.urcs none .start :: fs) = s1.fresh := by
        rw [hs1]
        rfl
      simp only [Transition.run, hs, hs', hfresh, Option.bind_some] at hrun
      have := between_of_answer (t := t) (h.step hs) (by rw [step_threads hs hut]; exact hu) hav1
        (by rw [hs1]; exact hx) (by rw [hs1]; exact hlen) hrun
      rw [hs1] at this
      exact this
    · intro r now hr
      cases hr
      rintro ⟨hends, -⟩
      simp only [LineEnds] at hends
      split at hends
      · simp only [List.length_nil] at hends
        omega
      · cases hends.1

end

/-! ## The main theorem -/

/-- The client is open. -/
def reopened (s : Sys) : Sys := { s with st := { s.st with client := { s.st.client with opened := true } } }

theorem run_reopen (s : Sys) (t : Nat) :
    Transition.run step s [(t, .clientClose), (t, .clientOpen)] =
      if userCode (s.threads t) then some s.reopened else none := by
  cases hu : userCode (s.threads t) with
  | true =>
    simp only [Transition.run, step, hu, ↓reduceIte, Option.bind_some, set, Function.update_eq_self]
    rfl
  | false => simp only [Transition.run, step, hu, Bool.false_eq_true, ↓reduceIte, Option.bind_none]

theorem rxBufferLen_step {s s' : Sys} {t : Nat} {a : Act} (hs : s.step (t, a) = some s') :
    s'.st.client.rxBufferLen = s.st.client.rxBufferLen := by
  cases step_effect hs with
  | user hu hc =>
    obtain ⟨_, _, _, _, _, rfl⟩ := hc
    rfl
  | readMore hrx | readStay hrx | rxDone hrx | rspDone hrx | endDone hrx =>
    exact (congrArg Setup.rxBufferLen hrx.effect.setup :)
  | _ => rfl

/-- **A client that was closed between two lines starts afresh when it is opened again**, and only
such a client does. -/
theorem reopened_like_fresh {reentrant : Bool} {rxBufferLen : Nat} {pUrcBuffer : List UInt8}
    {mem : CallerMem} {s s' : Sys} {t : Nat}
    (hr : Reach step anyStep (· = init reentrant rxBufferLen pUrcBuffer mem) s)
    (hx : s.st.client.executingCmd = false)
    (hs : Transition.run step s [(t, .clientClose), (t, .clientOpen)] = some s') :
    (Between s.st.client → LikeFresh seen s') ∧
    (2 ≤ rxBufferLen → LikeFresh Sys.threads s' → Between s.st.client) := by
  obtain ⟨ho, hst, hlen⟩ := hr.invariant (I := fun s => Owned s ∧ Steady s ∧
      s.st.client.rxBufferLen = rxBufferLen)
    (by
      rintro _ rfl
      exact ⟨owned_init _ _ _ _, ⟨rxOk_of_not_binary rfl rfl, nofun, rfl⟩, rfl⟩)
    (by
      rintro s ⟨t, a⟩ s' ⟨ho, hst, hlen⟩ - hs
      exact ⟨ho.step (step_effect hs), hst.step hs, (rxBufferLen_step hs).trans hlen⟩)
  rw [run_reopen] at hs
  split at hs
  case isFalse => cases hs
  case isTrue hu =>
  obtain rfl := Option.some.inj hs
  refine ⟨fun hb as hund => ?_, fun h2 hlike => ?_⟩
  · have hp := paired_fresh (s := s.reopened) (ho.same rfl rfl rfl) (hst.rxOk.congr rfl rfl) hx rfl hb
    exact hp.run fun _ => hund
  · exact between_of_likeFresh (s := s.reopened) (ho.same rfl rfl rfl)
      ⟨hst.rxOk.congr rfl rfl, hst.lineTaken, hst.unblocked⟩ hu hx (hlen ▸ h2) hlike

/-- `uCxAtClientHandleRx` receives `bs`, and then nothing. -/
def received (bs : List UInt8) : List (Nat × Act) :=
  [(0, .handleRx)] ++ reads 0 bs ++ [(0, .read (.got []) 0)]

/-- The client is closed by the callback for a URC. -/
theorem reopened_like_fresh_urc : ∃ s s', Reach step anyStep (· = small) s ∧
    s.st.client.urcQueue.bufferPos = 7 ∧
    Transition.run step s [(0, .clientClose), (0, .clientOpen)] = some s' ∧ LikeFresh seen s' := by
  obtain ⟨s, hs, hp⟩ := Option.map_eq_some_iff.1 (show (Transition.run step small
    ([(0, .clientOpen), (0, .setUrcCallback true)] ++ received (text "+A\r") ++
      List.replicate 3 (0, .next))).map (fun s => (userCode (s.threads 0), s.st.client.executingCmd,
        s.st.client.rxBuffer, s.st.client.isBinaryRx, s.st.client.urcQueue.bufferPos)) =
    some (true, false, [], false, 7) by decide)
  simp only [Prod.mk.injEq] at hp
  obtain ⟨hu, hx, hline, hbin, hpos⟩ := hp
  have h0 : Reach step anyStep (· = small) small := .start rfl
  have hr := h0.run (fun _ _ _ => trivial) hs
  have hopen : Transition.run step s [(0, .clientClose), (0, .clientOpen)] = some s.reopened := by
    rw [run_reopen, if_pos hu]
  exact ⟨s, s.reopened, hr, hpos, hopen, (reopened_like_fresh hr hx hopen).1 ⟨hline, hbin⟩⟩

/-- The client is closed in the middle of the line `+AB`, of which the rest comes when it is open
again. -/
theorem partial_line_survives : ∃ s s' r r', Reach step anyStep (· = small) s ∧
    s.st.client.executingCmd = false ∧
    Transition.run step s [(0, .clientClose), (0, .clientOpen)] = some s' ∧
    Transition.run step s' (received (text "B\r")) = some r ∧
    Transition.run step s'.fresh (received (text "B\r")) = some r' ∧
    r.st.client.urcQueue.viewEntry 0 = ⟨3, 0, text "+AB" ++ [0]⟩ ∧
    r'.st.client.urcQueue.bufferPos = 0 := by
  obtain ⟨s, hs, hp⟩ := Option.map_eq_some_iff.1 (show (Transition.run step small
    ([(0, .clientOpen)] ++ received (text "+A") ++ List.replicate 4 (0, .next))).map (fun s =>
      ((userCode (s.threads 0), s.st.client.executingCmd),
        (Transition.run step s.reopened (received (text "B\r"))).map
          fun r => r.st.client.urcQueue.viewEntry 0,
        (Transition.run step s.reopened.fresh (received (text "B\r"))).map
          fun r => r.st.client.urcQueue.bufferPos)) =
      some ((true, false), some ⟨3, 0, text "+AB" ++ [0]⟩, some 0) by decide)
  simp only [Prod.mk.injEq, Option.map_eq_some_iff] at hp
  obtain ⟨⟨hu, hx⟩, ⟨r, hr, hv⟩, r', hr', hv'⟩ := hp
  have h0 : Reach step anyStep (· = small) small := .start rfl
  exact ⟨s, s.reopened, r, r', h0.run (fun _ _ _ => trivial) hs, hx, by rw [run_reopen, if_pos hu],
    hr, hr', hv, hv'⟩

end Sys
