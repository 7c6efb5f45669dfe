import UcxClient.Client.Calls
import UcxClient.Threads.Status

/-!
# `uCxAtClientHandleRx` during a command

`uCxAtClientHandleRx` locks `cmdMutex` before it looks at `executingCmd`, and the thread of a command
holds `cmdMutex` from `cmdBeginF` to `cmdEnd` (`Owned.holder`). So a call by that thread is harmless
only if the client is not open (`handleRx_harmless_iff`); else, with a mutex that is not reentrant, the
lock is never granted (`handleRx_never_granted`).
-/

open Transition

namespace AtState

/-- A call of `uCxAtClientHandleRx` by thread `t` leaves the client and the UART as they are and hands
out nothing, and it does not request a `cmdMutex` that it cannot get. -/
structure HarmlessRx (t : Nat) (edit : Callback) (st : AtState) (uart : Uart) : Prop where
  unchanged : uCxAtClientHandleRx t edit st uart = some ([], st, uart)
  granted : ∀ calls st' uart', uCxAtClientHandleRx t edit st uart = some (calls, st', uart') →
    st'.client.cmdMutex.blocked = false

/-- The call on a client that is not open. -/
theorem harmlessRx_closed {t : Nat} {edit : Callback} {st : AtState} {uart : Uart}
    (hopen : st.client.opened = false) (hb : st.client.cmdMutex.blocked = false) :
    HarmlessRx t edit st uart := by
  have h : uCxAtClientHandleRx t edit st uart = some ([], st, uart) := by
    simp [uCxAtClientHandleRx, hopen]
  refine ⟨h, fun calls st' uart' h' => ?_⟩
  rw [h] at h'
  cases h'
  exact hb

/-- The call on an open client whose `cmdMutex` is not to be had. -/
theorem handleRx_blocked {t : Nat} {edit : Callback} {st : AtState} {uart : Uart}
    (hopen : st.client.opened = true) (hx : st.client.executingCmd = true)
    (hav : st.client.cmdMutex.available t = false) :
    ∃ calls st' uart', uCxAtClientHandleRx t edit st uart = some (calls, st', uart') ∧
      st'.client.cmdMutex.blocked = true := by
  have hlock : (st.client.cmdMutex.lock t).blocked = true := by simp [Mutex.lock, hav]
  have hlocked : (st.handleRxLocked t uart).1.client.cmdMutex.blocked = true := by
    simp [handleRxLocked, hx, hlock]
  obtain ⟨calls, urcQueue, h⟩ := AtClient.processUrcs_total t edit
    (Nat.lt_succ_self (st.handleRxLocked t uart).1.client.urcQueue.bufferPos)
  refine ⟨calls, { (st.handleRxLocked t uart).1 with
    client := { (st.handleRxLocked t uart).1.client with urcQueue } }, (st.handleRxLocked t uart).2, ?_,
    hlocked⟩
  simp [uCxAtClientHandleRx, hopen, h]

end AtState

namespace Sys

open AtState

section
variable {s s' : Sys} {t : Nat}

/-- `cmdMutex` is not reentrant, and no step has requested it in vain. -/
structure PlainCmdMutex (s : Sys) : Prop where
  plain : s.st.client.cmdMutex.reentrant = false
  unblocked : s.st.client.cmdMutex.blocked = false

theorem PlainCmdMutex.lock (h : PlainCmdMutex s) (hav : s.st.client.cmdMutex.available t = true)
    (hm : s'.st.client.cmdMutex = s.st.client.cmdMutex.lock t) : PlainCmdMutex s' := by
  refine ⟨by rw [hm, Mutex.reentrant_lock]; exact h.plain, ?_⟩
  rw [hm, Mutex.lock, if_pos hav]
  exact h.unblocked

theorem PlainCmdMutex.unlock (h : PlainCmdMutex s)
    (hm : s'.st.client.cmdMutex = s.st.client.cmdMutex.unlock t) : PlainCmdMutex s' :=
  ⟨by rw [hm, Mutex.reentrant_unlock]; exact h.plain,
    by rw [hm, Mutex.blocked_unlock]; exact h.unblocked⟩

theorem PlainCmdMutex.keep (h : PlainCmdMutex s)
    (hm : s'.st.client.cmdMutex = s.st.client.cmdMutex) : PlainCmdMutex s' :=
  ⟨hm ▸ h.plain, hm ▸ h.unblocked⟩

theorem PlainCmdMutex.step {a : Act} (h : PlainCmdMutex s) (he : Effect s t a s') :
    PlainCmdMutex s' := by
  cases he with
  | begin now hu hav hx => exact h.lock hav rfl
  | rxIdle hu hav hx => exact h.lock hav rfl
  | endNow => exact h.unlock rfl
  | rxBusy hu hav hx =>
    have hl : PlainCmdMutex (s.set t
        { s.st.client with cmdMutex := s.st.client.cmdMutex.lock t } []) := h.lock hav rfl
    exact hl.unlock rfl
  | rxDone hrx | endDone hrx =>
    have hk : PlainCmdMutex { s with st := _ } := h.keep hrx.cmdMutex
    exact hk.unlock rfl
  | readMore hrx | readStay hrx | rspDone hrx => exact h.keep hrx.cmdMutex
  | user hu hc =>
    obtain ⟨_, _, _, _, _, rfl⟩ := hc
    exact h.keep rfl
  | expect | expectLate | endWait | rxClosed | writeMem | callbackReturn | urc | urcsDone =>
    exact h.keep rfl

/-- The thread of the command that is executing holds `cmdMutex`. -/
theorem Owned.holder (h : Owned s) (ht : 0 < execs (s.threads t)) :
    s.st.client.cmdMutex.owner = some t := by
  have := execs_le_held (s.threads t)
  exact h.mutex.owner (t := t) (by omega)

theorem Owned.unavailable (h : Owned s) (hm : PlainCmdMutex s) (ht : 0 < execs (s.threads t)) :
    s.st.client.cmdMutex.available t = false := by
  simp [Mutex.available, h.holder ht, hm.plain]

theorem plain_of_reach {rxBufferLen : Nat} {pUrcBuffer : List UInt8} {mem : CallerMem}
    (h : Reach step anyStep (· = init false rxBufferLen pUrcBuffer mem) s) :
    Owned s ∧ PlainCmdMutex s := by
  refine h.invariant (I := fun s => Owned s ∧ PlainCmdMutex s) ?_ ?_
  · rintro s rfl
    exact ⟨owned_init _ _ _ _, rfl, rfl⟩
  · rintro s ⟨u, a⟩ s' ⟨ho, hm⟩ - hs
    exact ⟨ho.step (step_effect hs), hm.step (step_effect hs)⟩

/-- What the other threads do leaves the thread of a command where it is. -/
theorem run_others {as : List (Nat × Act)} (has : ∀ a ∈ as, a.1 ≠ t) (ho : Owned s)
    (hm : PlainCmdMutex s) (h : run step s as = some s') :
    Owned s' ∧ PlainCmdMutex s' ∧ s'.threads t = s.threads t := by
  induction as generalizing s with
  | nil =>
    cases h
    exact ⟨ho, hm, rfl⟩
  | cons a as ih =>
    obtain ⟨u, a⟩ := a
    obtain ⟨s1, h1, h2⟩ := Option.bind_eq_some_iff.1 h
    have he := step_effect h1
    have hut : u ≠ t := has _ List.mem_cons_self
    obtain ⟨ho', hm', hth⟩ := ih (fun b hb => has b (List.mem_cons_of_mem _ hb)) (ho.step he) (hm.step he) h2
    exact ⟨ho', hm', hth.trans (step_threads h1 (Ne.symm hut))⟩

end

/-- **The lock is never granted**: whatever the other threads do, the thread of a command cannot get
`cmdMutex` a second time. -/
theorem handleRx_never_granted {rxBufferLen : Nat} {pUrcBuffer : List UInt8} {mem : CallerMem}
    {s s' : Sys} (h : Reach step anyStep (· = init false rxBufferLen pUrcBuffer mem) s) {t : Nat}
    (ht : 0 < execs (s.threads t)) {as : List (Nat × Act)} (has : ∀ a ∈ as, a.1 ≠ t)
    (hs : run step s as = some s') : s'.st.client.cmdMutex.available t = false := by
  obtain ⟨ho, hm⟩ := plain_of_reach h
  obtain ⟨ho', hm', hth⟩ := run_others has ho hm hs
  exact ho'.unavailable hm' (by rwa [hth])

/-- Not even after another thread has closed the client. -/
theorem handleRx_never_granted_closed : ∃ s s', Reach step anyStep (· = small) s ∧ 0 < execs (s.threads 0) ∧
    run step s [(1, .setUrcCallback true), (1, .clientClose)] = some s' ∧
    s'.st.client.cmdMutex.available 0 = false := by
  obtain ⟨s, hs, hp⟩ := Option.map_eq_some_iff.1 (show (run step small [(0, .clientOpen), (0, .cmdBeginF 0)]).map
    (fun s => (execs (s.threads 0),
      (run step s [(1, .setUrcCallback true), (1, .clientClose)]).isSome)) = some (1, true) by decide)
  obtain ⟨hexec, hsome⟩ := Prod.mk.injEq .. ▸ hp
  obtain ⟨s', hs'⟩ := Option.isSome_iff_exists.1 hsome
  have hr : Reach step anyStep (· = small) s := Reach.run (.start rfl) (fun _ _ _ => trivial) hs
  have ht : 0 < execs (s.threads 0) := by rw [hexec]; decide
  exact ⟨s, s', hr, ht, hs', handleRx_never_granted hr ht (by simp) hs'⟩

/-- **A call of `uCxAtClientHandleRx` by the thread of a command is harmless exactly if the client is not
open.** -/
theorem handleRx_harmless_iff {rxBufferLen : Nat} {pUrcBuffer : List UInt8} {mem : CallerMem} {s : Sys}
    (h : Reach step anyStep (· = init false rxBufferLen pUrcBuffer mem) s) {t : Nat}
    (ht : 0 < execs (s.threads t)) (edit : Callback) (uart : Uart) :
    HarmlessRx t edit s.st uart ↔ s.st.client.opened = false := by
  obtain ⟨ho, hm⟩ := plain_of_reach h
  refine ⟨fun hharm => ?_, fun hopen => harmlessRx_closed hopen hm.unblocked⟩
  cases hopen : s.st.client.opened with
  | false => rfl
  | true =>
    obtain ⟨calls, st', uart', hcall, hblocked⟩ :=
      @handleRx_blocked t edit s.st uart hopen (ho.executing ht).1 (ho.unavailable hm ht)
    rw [hharm.granted _ _ _ hcall] at hblocked
    cases hblocked

/-- A command that is begun on a client that is not open. -/
theorem handleRx_harmless_closed : ∃ s, Reach step anyStep (· = small) s ∧ 0 < execs (s.threads 0) ∧
    HarmlessRx 0 id s.st ⟨text "OK\r", []⟩ := by
  obtain ⟨s, hs, hp⟩ := Option.map_eq_some_iff.1 (show (run step small [(0, .cmdBeginF 0)]).map
    (fun s => (execs (s.threads 0), s.st.client.opened)) = some (1, false) by decide)
  have h0 : Reach step anyStep (· = small) small := .start rfl
  have hr := h0.run (fun _ _ _ => trivial) hs
  have hexec : execs (s.threads 0) = 1 := congrArg Prod.fst hp
  have ht : 0 < execs (s.threads 0) := by rw [hexec]; decide
  exact ⟨s, hr, ht, (handleRx_harmless_iff hr ht id _).2 (congrArg Prod.snd hp)⟩

/-- A command on an open client: its thread waits for the lock for ever. -/
theorem handleRx_locks_again : ∃ s, Reach step anyStep (· = small) s ∧ 0 < execs (s.threads 0) ∧
    ¬HarmlessRx 0 id s.st ⟨[], []⟩ := by
  obtain ⟨s, hs, hp⟩ := Option.map_eq_some_iff.1 (show (run step small
    [(0, .clientOpen), (0, .cmdBeginF 0)]).map (fun s => (execs (s.threads 0), s.st.client.opened,
        s.st.client.executingCmd, s.st.client.cmdMutex.available 0)) = some (1, true, true, false) by decide)
  have h0 : Reach step anyStep (· = small) small := .start rfl
  have hr := h0.run (fun _ _ _ => trivial) hs
  simp only [Prod.mk.injEq] at hp
  obtain ⟨hexec, hopen, hx, hav⟩ := hp
  refine ⟨s, hr, by rw [hexec]; decide, fun hharm => ?_⟩
  obtain ⟨calls, st', uart', hcall, hblocked⟩ :=
    @handleRx_blocked 0 id s.st ⟨[], []⟩ hopen hx hav
  rw [hharm.granted _ _ _ hcall] at hblocked
  cases hblocked

end Sys
