import UcxClient.Threads.Effect

/-!
# Who holds `cmdMutex`

`Owned` relates `cmdMutex` and `executingCmd` to the calls the threads are in: a thread holds
`cmdMutex` once for each of its frames that locked it, at most one command is executing, and
`uCxAtClientHandleRx` receives only while none is. Every step keeps it (`Owned.step`).
-/

open Transition

namespace Sys

/-- The number of calls on a stack that hold `cmdMutex`. -/
@[simp] def held : List Frame → Nat
  | [] => 0
  | .cmd _ :: fs | .cmdEnd :: fs | .handleRx :: fs => held fs + 1
  | .getRsp :: fs | .urcs _ _ :: fs => held fs

/-- The number of commands on a stack that are executing. -/
@[simp] def execs : List Frame → Nat
  | [] => 0
  | .cmd _ :: fs | .cmdEnd :: fs => execs fs + 1
  | .getRsp :: fs | .handleRx :: fs | .urcs _ _ :: fs => execs fs

theorem execs_le_held (fs : List Frame) : execs fs ≤ held fs := by
  induction fs with
  | nil => exact Nat.le_refl 0
  | cons f fs ih => cases f <;> simp <;> omega

/-- Below a call is the code that called it. -/
def WellFormed : List Frame → Prop
  | [] => True
  | .getRsp :: fs => (∃ p fs', fs = .cmd p :: fs') ∧ WellFormed fs
  | _ :: fs => userCode fs = true ∧ WellFormed fs

structure Owned (s : Sys) : Prop where
  wf : ∀ u, WellFormed (s.threads u)
  mutex : Mutex.Accounts s.st.client.cmdMutex fun u => held (s.threads u)
  exec : (s.st.client.executingCmd = false ∧ ∀ u, execs (s.threads u) = 0) ∨
    (s.st.client.executingCmd = true ∧
      ∃ t, execs (s.threads t) = 1 ∧ ∀ u, u ≠ t → execs (s.threads u) = 0)
  rx : ∀ u fs, s.threads u = .handleRx :: fs → s.st.client.executingCmd = false

theorem owned_init (reentrant : Bool) (n : Nat) (pUrcBuffer : List UInt8) (mem : CallerMem) :
    Owned (init reentrant n pUrcBuffer mem) where
  wf := fun _ => trivial
  mutex := .create reentrant
  exec := .inl ⟨rfl, fun _ => rfl⟩
  rx := nofun

section
variable {s s' : Sys} {t : Nat} {a : Act} {fs fs' : List Frame}

/-- A thread that is in a command is the one whose command is executing. -/
theorem Owned.executing (h : Owned s) (ht : 0 < execs (s.threads t)) :
    s.st.client.executingCmd = true ∧ execs (s.threads t) = 1 ∧
      ∀ u, u ≠ t → execs (s.threads u) = 0 := by
  rcases h.exec with ⟨-, h0⟩ | ⟨hx, v, hv, h0⟩
  · rw [h0 t] at ht; omega
  · by_cases htv : t = v
    · subst htv; exact ⟨hx, hv, h0⟩
    · rw [h0 t htv] at ht; omega

theorem Owned.not_executing (h : Owned s) (hx : s.st.client.executingCmd = false) (u : Nat) :
    execs (s.threads u) = 0 := by
  rcases h.exec with ⟨-, h0⟩ | ⟨hx', -⟩
  · exact h0 u
  · rw [hx] at hx'; cases hx'

/-- The stacks after thread `t` changed its own. -/
theorem threads_update (hth : s'.threads = Function.update s.threads t fs') (P : Nat → List Frame → Prop)
    (ht : P t fs') (hu : ∀ u, u ≠ t → P u (s.threads u)) (u : Nat) : P u (s'.threads u) := by
  rw [hth]
  by_cases hut : u = t
  · subst hut; simpa using ht
  · rw [Function.update_of_ne hut]; exact hu u hut

/-- A step that neither starts nor ends a command. -/
theorem Owned.keepExec (h : Owned s) (hth : s'.threads = Function.update s.threads t fs')
    (hm : Mutex.Accounts s'.st.client.cmdMutex fun u => held (s'.threads u))
    (hx : s'.st.client.executingCmd = s.st.client.executingCmd) (hwf : WellFormed fs')
    (hexec : execs fs' = execs (s.threads t))
    (hrx : ∀ fs, fs' = .handleRx :: fs → s.st.client.executingCmd = false) : Owned s' := by
  have hexecs : ∀ u, execs (s'.threads u) = execs (s.threads u) :=
    threads_update hth (fun u fs => execs fs = execs (s.threads u)) hexec fun _ _ => rfl
  refine ⟨threads_update hth (fun _ => WellFormed) hwf fun u _ => h.wf u, hm, ?_, ?_⟩
  · simp only [hx, hexecs]
    exact h.exec
  · rw [hx]
    exact threads_update hth (fun _ fs1 => ∀ fs, fs1 = .handleRx :: fs →
      s.st.client.executingCmd = false) hrx fun u _ => h.rx u

/-- A step that neither locks nor unlocks `cmdMutex`. -/
theorem Owned.keep (h : Owned s) (hth : s'.threads = Function.update s.threads t fs')
    (hm : s'.st.client.cmdMutex = s.st.client.cmdMutex)
    (hx : s'.st.client.executingCmd = s.st.client.executingCmd) (hwf : WellFormed fs')
    (hheld : held fs' = held (s.threads t)) (hexec : execs fs' = execs (s.threads t))
    (hrx : ∀ fs, fs' = .handleRx :: fs → s.threads t = fs') : Owned s' := by
  refine h.keepExec hth ?_ hx hwf hexec fun fs hfs => h.rx t fs ((hrx fs hfs).trans hfs)
  have : (fun u => held (s'.threads u)) = fun u => held (s.threads u) := funext fun u =>
    threads_update hth (fun u fs => held fs = held (s.threads u)) hheld (fun _ _ => rfl) u
  rw [hm, this]
  exact h.mutex

/-- A step that locks `cmdMutex`. -/
theorem Owned.acquire (h : Owned s) (hth : s'.threads = Function.update s.threads t fs')
    (hav : s.st.client.cmdMutex.available t = true)
    (hm : s'.st.client.cmdMutex = s.st.client.cmdMutex.lock t)
    (hheld : held fs' = held (s.threads t) + 1) :
    Mutex.Accounts s'.st.client.cmdMutex fun u => held (s'.threads u) := by
  rw [hm]
  refine h.mutex.lock hav ?_ fun u hu => ?_
  · rw [hth]; simpa using hheld
  · rw [hth, Function.update_of_ne hu]

/-- A step that unlocks `cmdMutex`. -/
theorem Owned.release (h : Owned s) (hth : s'.threads = Function.update s.threads t fs')
    (hm : s'.st.client.cmdMutex = s.st.client.cmdMutex.unlock t)
    (hheld : held (s.threads t) = held fs' + 1) :
    Mutex.Accounts s'.st.client.cmdMutex fun u => held (s'.threads u) := by
  rw [hm]
  refine h.mutex.unlock ?_ fun u hu => ?_
  · rw [hth]; simpa using hheld
  · rw [hth, Function.update_of_ne hu]

/-- Nobody receives in `uCxAtClientHandleRx` while another thread can lock `cmdMutex`. -/
theorem Owned.no_rx (h : Owned s) (hu : userCode (s.threads t) = true)
    (hav : s.st.client.cmdMutex.available t = true) (u : Nat) :
    s.threads u ≠ .handleRx :: fs := by
  intro hfs
  have hpos : 0 < held (s.threads u) := by simp [hfs]
  obtain ⟨rfl, -⟩ := h.mutex.available_eq hav hpos
  rw [hfs] at hu
  cases hu

/-- The end of a command. -/
theorem Owned.finish (h : Owned s) (hth : s'.threads = Function.update s.threads t fs')
    (hm : s'.st.client.cmdMutex = s.st.client.cmdMutex.unlock t)
    (hx : s'.st.client.executingCmd = false) (hwf : WellFormed fs')
    (hheld : held (s.threads t) = held fs' + 1) (hexec : execs (s.threads t) = execs fs' + 1) :
    Owned s' := by
  obtain ⟨-, h1, h0⟩ := h.executing (t := t) (by omega)
  refine ⟨threads_update hth (fun _ => WellFormed) hwf fun u _ => h.wf u, h.release hth hm hheld,
    .inl ⟨hx, ?_⟩, fun _ _ _ => hx⟩
  exact threads_update hth (fun _ fs => execs fs = 0) (by omega) h0

/-- A thread that receives does so for its command, or for nobody. -/
theorem Owned.receiver (h : Owned s) (hin : inRx (s.threads t) = true) :
    (s.st.client.executingCmd = true ∧ 0 < execs (s.threads t)) ∨
    (s.st.client.executingCmd = false ∧ ∃ fs, s.threads t = .handleRx :: fs) := by
  have wf := h.wf t
  rcases hfs : s.threads t with _ | ⟨_ | _ | _ | _ | _, fs⟩ <;> rw [hfs] at hin wf <;>
    try cases hin
  · obtain ⟨⟨p, fs', rfl⟩, -⟩ := wf
    exact .inl ⟨(h.executing (t := t) (by simp [hfs])).1, by simp⟩
  · exact .inl ⟨(h.executing (t := t) (by simp [hfs])).1, by simp⟩
  · exact .inr ⟨h.rx t fs hfs, fs, rfl⟩

/-- While a command is executing, only its thread receives. -/
theorem Owned.receiver_unique (h : Owned s) (hx : s.st.client.executingCmd = true) {u : Nat}
    (ht : inRx (s.threads t) = true) (hu : inRx (s.threads u) = true) : u = t := by
  have pos : ∀ {v}, inRx (s.threads v) = true → 0 < execs (s.threads v) := fun hv => by
    rcases h.receiver hv with ⟨-, hpos⟩ | ⟨hx', -⟩
    · exact hpos
    · rw [hx] at hx'; cases hx'
  obtain ⟨-, -, h0⟩ := h.executing (pos ht)
  apply Classical.byContradiction
  intro hut
  have := pos hu
  rw [h0 u hut] at this
  cases this

theorem not_inRx_of_userCode (h : userCode fs = true) : inRx fs = false := by
  rcases fs with _ | ⟨_ | _ | _ | _ | ⟨_, _⟩, _⟩ <;> first | rfl | cases h

/-! ## One step -/

theorem AfterRx.effect {r : ReadStatus} {st : AtState} {ret : Option ParserCode}
    (h : AfterRx s t r st ret) : AtState.RxEffect t s.st r st ret := by
  have := AtState.rxStep_effect t s.st r
  rwa [h.rx] at this

theorem AfterRx.le_wants {r : ReadStatus} {st : AtState} {ret : Option ParserCode}
    (h : AfterRx s t r st ret) (bytes : List UInt8) (hr : r = .got bytes) :
    bytes.length ≤ s.st.wants := by
  subst hr
  simpa [ReadStatus.fits] using h.fits

theorem AfterRx.cmdMutex {r : ReadStatus} {st : AtState} {ret : Option ParserCode}
    (h : AfterRx s t r st ret) : st.client.cmdMutex = s.st.client.cmdMutex :=
  congrArg Setup.cmdMutex h.effect.setup

theorem AfterRx.executingCmd {r : ReadStatus} {st : AtState} {ret : Option ParserCode}
    (h : AfterRx s t r st ret) : st.client.executingCmd = s.st.client.executingCmd :=
  congrArg Setup.executingCmd h.effect.setup

/-- A step that is a read, and what is done with its result. -/
theorem read_after {r : ReadStatus} {now : Int} (hs : s.step (t, .read r now) = some s') :
    ∃ st ret, AfterRx s t r st ret ∧ s'.st.client.isBinaryRx = st.client.isBinaryRx ∧
      s'.st.client.binaryRx = st.client.binaryRx := by
  cases step_effect hs with
  | user hu =>
    simp only [step] at hs
    split at hs
    · next hg => exact absurd hg.1 (by simp [not_inRx_of_userCode hu])
    · cases hs
  | readMore hrx | readStay hrx | rxDone hrx | rspDone hrx | endDone hrx => exact ⟨_, _, hrx, rfl, rfl⟩

/-- A step of thread `t` changes no other stack. -/
theorem step_threads (hs : s.step (t, a) = some s') {u : Nat} (hu : u ≠ t) :
    s'.threads u = s.threads u := by
  have update : ∀ fs', Function.update s.threads t fs' u = s.threads u :=
    fun _ => Function.update_of_ne hu _ _
  cases step_effect hs with
  | rxClosed | writeMem | readMore | readStay => rfl
  | _ => exact update _

/-- A step that changes no stack. -/
theorem Owned.same (h : Owned s) (hth : s'.threads = s.threads)
    (hm : s'.st.client.cmdMutex = s.st.client.cmdMutex)
    (hx : s'.st.client.executingCmd = s.st.client.executingCmd) : Owned s' := by
  refine ⟨by rw [hth]; exact h.wf, by rw [hth, hm]; exact h.mutex, ?_, by rw [hth, hx]; exact h.rx⟩
  rw [hth, hx]
  exact h.exec

/-- **Every step keeps `Owned`.** -/
theorem Owned.step (h : Owned s) (he : Effect s t a s') : Owned s' := by
  have wf := h.wf t
  cases he with
  | begin now hu hav hx =>
    have hth : _ = Function.update s.threads t (.cmd none :: s.threads t) := rfl
    have hwf : WellFormed (.cmd none :: s.threads t) := ⟨hu, wf⟩
    refine ⟨threads_update hth (fun _ => WellFormed) hwf fun u _ => h.wf u,
      h.acquire hth hav rfl (by simp), .inr ⟨rfl, t, ?_, fun u hut => ?_⟩, ?_⟩
    · simpa [set] using h.not_executing hx t
    · simpa [set, Function.update_of_ne hut] using h.not_executing hx u
    · intro u fs hfs
      by_cases hut : u = t
      · subst hut; simp [set] at hfs
      · simp only [set, Function.update_of_ne hut] at hfs
        exact absurd hfs (h.no_rx hu hav u)
  | expect p buf hfs hst =>
    rw [hfs] at wf
    exact h.keep rfl rfl rfl ⟨⟨_, _, rfl⟩, wf⟩ (by simp [hfs])
      (by simp [hfs]) nofun
  | expectLate p buf hfs hst =>
    rw [hfs] at wf
    exact h.keep rfl rfl rfl wf (by simp [hfs])
      (by simp [hfs]) nofun
  | endWait hfs hst =>
    rw [hfs] at wf
    exact h.keep rfl rfl rfl wf (by simp [hfs])
      (by simp [hfs]) nofun
  | endNow hfs hst =>
    rw [hfs] at wf
    exact h.finish rfl rfl rfl wf (by simp [hfs])
      (by simp [hfs])
  | rxClosed => exact h
  | rxBusy hu hav hx =>
    have hth : _ = Function.update s.threads t (.urcs none .start :: s.threads t) := rfl
    refine h.keepExec hth ?_ rfl ⟨hu, wf⟩ rfl nofun
    have hlock : Mutex.Accounts (s.st.client.cmdMutex.lock t)
        fun u => if u = t then held (s.threads t) + 1 else held (s.threads u) :=
      h.mutex.lock hav (by simp) fun u hut => by simp [hut]
    refine hlock.unlock ?_ ?_
    · simp [set]
    · intro u hut
      simp [set, hut]
  | rxIdle hu hav hx =>
    have hth : _ = Function.update s.threads t (.handleRx :: s.threads t) := rfl
    exact h.keepExec hth (h.acquire hth hav rfl (by simp)) rfl ⟨hu, wf⟩ rfl fun _ _ => hx
  | user hu hc =>
    obtain ⟨_, _, _, _, _, rfl⟩ := hc
    exact h.keep rfl rfl rfl wf rfl rfl fun _ h => h ▸ rfl
  | writeMem mem hu => exact h.same rfl rfl rfl
  | callbackReturn hfs =>
    rw [hfs] at wf
    exact h.keep rfl rfl rfl wf (by simp [hfs])
      (by simp [hfs]) nofun
  | readMore hrx => exact h.same rfl hrx.cmdMutex hrx.executingCmd
  | readStay hrx => exact h.same rfl hrx.cmdMutex hrx.executingCmd
  | @rxDone r now st code fs hrx hfs =>
    rw [hfs] at wf
    have hth : _ = Function.update s.threads t (.urcs none .start :: fs) := rfl
    refine h.keepExec hth (h.release hth ?_ (by simp [hfs])) hrx.executingCmd wf (by simp [hfs]) nofun
    simp [set, hrx.cmdMutex]
  | rspDone hrx hfs =>
    rw [hfs] at wf
    refine h.keep rfl hrx.cmdMutex hrx.executingCmd wf.2 (by simp [hfs])
      (by simp [hfs]) nofun
  | endDone hrx hfs hst =>
    rw [hfs] at wf
    refine h.finish rfl ?_ rfl wf (by simp [hfs])
      (by simp [hfs])
    simp [set, leaveCmdEnd, AtClient.finishCmd, hrx.cmdMutex]
  | urc hfs _ _ _ _ _ =>
    rw [hfs] at wf
    exact h.keep rfl rfl rfl wf (by simp [hfs])
      (by simp [hfs]) nofun
  | urcsDone hfs =>
    rw [hfs] at wf
    refine h.keep rfl rfl rfl wf.2 (by simp [hfs])
      (by simp [hfs]) fun fs' hfs' => ?_
    rw [hfs'] at wf
    cases wf.1

end

end Sys
