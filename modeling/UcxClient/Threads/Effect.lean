import UcxClient.Threads.System
import UcxClient.Client.RxFacts

/-!
# What a step of a thread can do

`step_effect` lists the outcomes of a step, each with the state it leads to. The invariants of the
system are derived from that list.
-/

namespace Sys

open AtState

/-- The fields that a call of a setter, or a URC callback, changes. -/
def SameCore (c c' : AtClient) : Prop :=
  ∃ cmdTimeout cmdTimeoutLastPerm urcCallback opened pBuffer, c' = { c with
    cmdTimeout, cmdTimeoutLastPerm, urcCallback, opened, urcQueue := { c.urcQueue with pBuffer } }

/-- The state after the receiver has handled a read. -/
structure AfterRx (s : Sys) (t : Nat) (r : ReadStatus) (st : AtState) (ret : Option ParserCode) :
    Prop where
  inRx : inRx (s.threads t) = true
  fits : ReadStatus.fits s.st.wants r = true
  rx : s.st.rxStep t r = (st, ret)
  granted : st.client.urcQueue.queueMutex.blocked = false

inductive Effect (s : Sys) (t : Nat) : Act → Sys → Prop
  | begin (now : Int) : userCode (s.threads t) = true →
      s.st.client.cmdMutex.available t = true → s.st.client.executingCmd = false →
      Effect s t (.cmdBeginF now)
        { s.set t (AtClient.beginCmd
            { s.st.client with cmdMutex := s.st.client.cmdMutex.lock t } now)
          (.cmd none :: s.threads t) with passed := [] }
  | expect (p : Option (List UInt8)) (buf : BinaryResponseBuf) {pRet fs} :
      s.threads t = .cmd pRet :: fs → s.st.client.status = noStatus →
      Effect s t (.getRspParamLine p buf)
        { s.set t (s.st.client.expectRsp p buf.pBuffer buf.pBufferLength)
          (.getRsp :: .cmd none :: fs) with passed := buf :: s.passed }
  | expectLate (p : Option (List UInt8)) (buf : BinaryResponseBuf) {pRet fs} :
      s.threads t = .cmd pRet :: fs → s.st.client.status ≠ noStatus →
      Effect s t (.getRspParamLine p buf)
        { s.set t (s.st.client.expectRsp p buf.pBuffer buf.pBufferLength)
          (.cmd none :: fs) with passed := buf :: s.passed }
  | endWait {pRet fs} : s.threads t = .cmd pRet :: fs → s.st.client.status = noStatus →
      Effect s t .cmdEnd (s.set t s.st.client (.cmdEnd :: fs))
  | endNow {pRet fs} : s.threads t = .cmd pRet :: fs → s.st.client.status ≠ noStatus →
      Effect s t .cmdEnd (s.leaveCmdEnd t s.st.client fs)
  | rxClosed : Effect s t .handleRx s
  | rxBusy : userCode (s.threads t) = true → s.st.client.cmdMutex.available t = true →
      s.st.client.executingCmd = true →
      Effect s t .handleRx (s.set t
        { s.st.client with cmdMutex := (s.st.client.cmdMutex.lock t).unlock t }
        (.urcs none .start :: s.threads t))
  | rxIdle : userCode (s.threads t) = true → s.st.client.cmdMutex.available t = true →
      s.st.client.executingCmd = false →
      Effect s t .handleRx (s.set t
        { s.st.client with cmdMutex := s.st.client.cmdMutex.lock t } (.handleRx :: s.threads t))
  | user {a client} : userCode (s.threads t) = true → SameCore s.st.client client →
      Effect s t a (s.set t client (s.threads t))
  | writeMem (mem : CallerMem) : userCode (s.threads t) = true →
      Effect s t (.writeMem mem) { s with st := { s.st with mem } }
  | callbackReturn {k p fs} : s.threads t = .urcs k (.callback p) :: fs →
      Effect s t .callbackReturn (s.set t s.st.client (.urcs k (.called p) :: fs))
  | readMore {r now st} : AfterRx s t r st none → Effect s t (.read r now) { s with st }
  | readStay {r now st code} : AfterRx s t r st (some code) →
      (∀ fs, s.threads t ≠ .handleRx :: fs) →
      (∀ fs, s.threads t = .cmdEnd :: fs →
        st.client.timedOut now = false ∧ st.client.status = noStatus) →
      (∀ p fs, s.threads t = .getRsp :: .cmd p :: fs → st.client.status = noStatus) →
      Effect s t (.read r now) { s with st }
  | rxDone {r now st code fs} : AfterRx s t r st (some code) → s.threads t = .handleRx :: fs →
      Effect s t (.read r now) (({ s with st } : Sys).set t
        { st.client with cmdMutex := st.client.cmdMutex.unlock t } (.urcs none .start :: fs))
  | rspDone {r now st code p pRet fs} : AfterRx s t r st (some code) →
      s.threads t = .getRsp :: .cmd p :: fs →
      Effect s t (.read r now) (({ s with st } : Sys).set t st.client (.cmd pRet :: fs))
  | endDone {r now st code fs status} : AfterRx s t r st (some code) →
      s.threads t = .cmdEnd :: fs →
      (st.client.timedOut now = true ∧ status = errorCmdTimeout) ∨
        (status = st.client.status ∧ status ≠ noStatus) →
      Effect s t (.read r now)
        (({ s with st } : Sys).leaveCmdEnd t { st.client with status } fs)
  | urc {k pc fs pc'} {urcQueue : UrcQueue} : s.threads t = .urcs k pc :: fs → pc ≠ .done →
      (∀ p, pc ≠ .callback p) →
      (pc = .locked ∨ (∃ p, pc = .called p) →
        s.st.client.urcQueue.queueMutex.available t = true) →
      urcQueue.queueMutex = s.st.client.urcQueue.queueMutex →
      urcQueue.pEnqueueEntry = s.st.client.urcQueue.pEnqueueEntry →
      Effect s t .next (s.set t { s.st.client with urcQueue } (.urcs k pc' :: fs))
  | urcsDone {k fs} : s.threads t = .urcs k .done :: fs →
      Effect s t .next (s.set t s.st.client fs)

theorem noStatus_ne_timeout : errorCmdTimeout ≠ noStatus := by decide

theorem urcStep_effect {s s' : Sys} {t : Nat} {k : Option Int} {pc : UrcPc} {fs : List Frame}
    (ht : s.threads t = .urcs k pc :: fs) (h : s.urcStep t k fs pc = some s') :
    Effect s t .next s' := by
  cases pc with
  | start =>
    simp only [urcStep] at h
    cases h
    have hq : (UrcQueue.tryLockDequeue t s.st.client.urcQueue).2.queueMutex =
        s.st.client.urcQueue.queueMutex ∧
        (UrcQueue.tryLockDequeue t s.st.client.urcQueue).2.pEnqueueEntry =
          s.st.client.urcQueue.pEnqueueEntry := by
      unfold UrcQueue.tryLockDequeue
      split <;> simp
    exact .urc ht nofun nofun (by simp) hq.1 hq.2
  | locked =>
    simp only [urcStep] at h
    split at h
    · cases h
      exact .urc ht nofun nofun (fun _ => ‹_›) rfl rfl
    · cases h
  | checked pEntry =>
    cases pEntry <;>
    · cases h
      exact .urc ht nofun nofun (by simp) rfl rfl
  | callback p => cases h
  | called p =>
    simp only [urcStep] at h
    split at h
    · obtain rfl := Option.some.inj h
      exact .urc ht nofun nofun (fun _ => ‹_›) (by simp) (by simp)
    · cases h
  | popped =>
    cases h
    exact .urc ht nofun nofun (by simp) rfl rfl
  | done =>
    cases h
    exact .urcsDone ht

theorem afterRead_effect {s : Sys} {t : Nat} {r : ReadStatus} {now : Int} {st : AtState}
    {ret : Option ParserCode} (h : AfterRx s t r st ret) :
    Effect s t (.read r now) (({ s with st } : Sys).afterRead t ret now) := by
  cases ret with
  | none => exact .readMore h
  | some code =>
    simp only [afterRead]
    split
    · rename_i heq; cases heq
    · rename_i fs heq hfs
      exact .rxDone h hfs
    · rename_i ret p fs heq hfs
      cases heq
      split
      · exact .rspDone h hfs
      split
      · exact .rspDone h hfs
      · rename_i hns
        refine .readStay h (fun fs' h' => ?_) (fun fs' h' => ?_) (fun _ _ _ => ?_)
        · rw [hfs] at h'; cases h'
        · rw [hfs] at h'; cases h'
        · exact Classical.byContradiction fun hne => hns (.inr hne)
    · rename_i fs heq hfs
      unfold AtClient.cmdEndCheck
      by_cases hto : st.client.timedOut now = true
      · simp only [hto, ↓reduceIte]
        exact .endDone h hfs (.inl ⟨hto, rfl⟩)
      · by_cases hst : st.client.status = noStatus
        · simp only [hto, hst, bne_self_eq_false, Bool.false_eq_true, ↓reduceIte]
          refine .readStay h (fun fs' h' => ?_) (fun _ _ => ⟨by simpa using hto, hst⟩)
            (fun _ _ h' => ?_)
          · rw [hfs] at h'; cases h'
          · rw [hfs] at h'; cases h'
        · have hne : (st.client.status != noStatus) = true := by simpa using hst
          simp only [hto, hne, Bool.false_eq_true, ↓reduceIte]
          exact .endDone h hfs (.inr ⟨rfl, hst⟩)
    · rename_i h1 h2 h3
      exact .readStay h (fun fs h' => h1 _ fs rfl h') (fun fs h' => (h3 _ fs rfl h').elim)
        (fun p fs h' => (h2 _ _ _ rfl h').elim)

/-- **A step has one of these effects.** -/
theorem step_effect {s s' : Sys} {t : Nat} {a : Act} (h : s.step (t, a) = some s') :
    Effect s t a s' := by
  have user : ∀ {a client}, SameCore s.st.client client →
      (if userCode (s.threads t) then some (s.set t client (s.threads t)) else none) = some s' →
      Effect s t a s' := by
    intro a client hc h
    split at h
    · cases h; exact .user ‹_› hc
    · cases h
  cases a with
  | cmdBeginF now =>
    simp only [step] at h
    split at h
    · rename_i hg
      cases h
      exact .begin now hg.1 hg.2.1 (by simpa using hg.2.2)
    · cases h
  | getRspParamLine p buf =>
    simp only [step] at h
    split at h
    · rename_i pRet fs hfs
      cases h
      by_cases hst : s.st.client.status = noStatus
      · have : (s.st.client.expectRsp p buf.pBuffer buf.pBufferLength).status = noStatus := hst
        rw [if_pos this]
        exact .expect p buf hfs hst
      · have : ¬(s.st.client.expectRsp p buf.pBuffer buf.pBufferLength).status = noStatus := hst
        rw [if_neg this]
        exact .expectLate p buf hfs hst
    · cases h
  | cmdEnd =>
    simp only [step] at h
    split at h
    · rename_i pRet fs hfs
      split at h
      · cases h; exact .endWait hfs ‹_›
      · cases h; exact .endNow hfs ‹_›
    · cases h
  | handleRx =>
    simp only [step] at h
    split at h
    · rename_i hu
      split at h
      · cases h; exact .rxClosed
      split at h
      · rename_i hav
        split at h
        · cases h; exact .rxBusy hu hav ‹_›
        · rename_i hx
          cases h; exact .rxIdle hu hav (by simpa using hx)
      · cases h
    · cases h
  | setCommandTimeout ms perm => exact user ⟨_, _, _, _, _, rfl⟩ h
  | setUrcCallback b => exact user ⟨_, _, _, _, _, rfl⟩ h
  | clientOpen => exact user ⟨_, _, _, _, _, rfl⟩ h
  | clientClose => exact user ⟨_, _, _, _, _, rfl⟩ h
  | writeMem mem =>
    simp only [step] at h
    split at h
    · cases h; exact .writeMem mem ‹_›
    · cases h
  | writeEntry i b =>
    simp only [step] at h
    split at h
    · split at h
      · exact user ⟨_, _, _, _, _, rfl⟩ h
      · cases h
    · cases h
  | callbackReturn =>
    simp only [step] at h
    split at h
    · cases h; exact .callbackReturn ‹_›
    · cases h
  | read r now =>
    simp only [step] at h
    split at h
    · rename_i hg
      rcases hrx : s.st.rxStep t r with ⟨st, ret⟩
      rw [hrx] at h
      simp only at h
      split at h
      · cases h
      · rename_i hb
        cases h
        exact afterRead_effect ⟨hg.1, hg.2, hrx, by simpa using hb⟩
    · cases h
  | next =>
    simp only [step] at h
    split at h
    · exact urcStep_effect ‹_› h
    · cases h

end Sys
