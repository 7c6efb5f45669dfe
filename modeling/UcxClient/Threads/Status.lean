import UcxClient.Threads.Ownership

/-!
# The value that a command returns

`cmdEnd` unlocks `cmdMutex`, handles the queued URCs and then returns `pClient->status`. Between the
unlock and the return the frame `.urcs (some r) _` remembers the status `r` that was recorded for
the command. `cmdEnd_returns_recorded`: as long as no command is begun, and no read fails, while some
`cmdEnd` is between its unlock and its return, each `cmdEnd` returns the status recorded for its
command. A command that is begun in between overwrites the status (`nested_command_overwrites`).
-/

open Transition

namespace Sys

/-- The action neither begins a command nor is a failed read. -/
def Act.keepsStatus : Act → Bool
  | .cmdBeginF _ => false
  | .read (.failed _) _ => false
  | _ => true

/-- While a `cmdEnd` is between its unlock and its return, no command is begun and no read fails. -/
def StatusKept (s : Sys) (ta : Nat × Act) : Prop :=
  (∃ u r pc, Frame.urcs (some r) pc ∈ s.threads u) → ta.2.keepsStatus = true

/-- An initialised client that nobody uses yet. -/
def Started (s : Sys) : Prop :=
  ∃ reentrant rxBufferLen pUrcBuffer mem, s = init reentrant rxBufferLen pUrcBuffer mem

/-- The status of a command that has been unlocked is still there. -/
def Recorded (s : Sys) : Prop :=
  ∀ u r pc, Frame.urcs (some r) pc ∈ s.threads u →
    s.st.client.executingCmd = false ∧ s.st.client.status = r ∧ r ≠ noStatus

section
variable {s s' : Sys} {t : Nat} {a : Act} {fs' : List Frame}

theorem Recorded.absent (h : Recorded s) (hx : s.st.client.executingCmd = true) (u : Nat)
    (r : Int) (pc : UrcPc) : Frame.urcs (some r) pc ∉ s.threads u := fun hm => by
  have := (h u r pc hm).1
  rw [hx] at this
  cases this

/-- A step that adds no frame of that kind. -/
theorem Recorded.keep (h : Recorded s) (hth : s'.threads = Function.update s.threads t fs')
    (hx : s'.st.client.executingCmd = s.st.client.executingCmd)
    (hst : s'.st.client.status = s.st.client.status)
    (hsub : ∀ r pc, Frame.urcs (some r) pc ∈ fs' → ∃ pc', Frame.urcs (some r) pc' ∈ s.threads t) :
    Recorded s' := by
  intro u r pc hm
  rw [hx, hst]
  rw [hth] at hm
  by_cases hut : u = t
  · subst hut
    rw [Function.update_self] at hm
    obtain ⟨pc', hm'⟩ := hsub r pc hm
    exact h u r pc' hm'
  · rw [Function.update_of_ne hut] at hm
    exact h u r pc hm

/-- A step of the handling of URCs. -/
theorem Recorded.goOn (h : Recorded s) {pRet : Option Int} {pc pc' : UrcPc} {fs : List Frame}
    (hfs : s.threads t = .urcs pRet pc :: fs)
    (hth : s'.threads = Function.update s.threads t (.urcs pRet pc' :: fs))
    (hx : s'.st.client.executingCmd = s.st.client.executingCmd)
    (hst : s'.st.client.status = s.st.client.status) : Recorded s' := by
  refine h.keep hth hx hst fun r pc hm => ?_
  rw [hfs]
  rcases List.mem_cons.1 hm with heq | hm
  · cases heq
    exact ⟨_, List.mem_cons_self⟩
  · exact ⟨pc, List.mem_cons_of_mem _ hm⟩

/-- A step where there is no frame of that kind, and that adds none. -/
theorem Recorded.of_none (h : ∀ u r pc, Frame.urcs (some r) pc ∉ s.threads u)
    (hth : s'.threads = Function.update s.threads t fs')
    (hsub : ∀ r pc, Frame.urcs (some r) pc ∈ fs' → Frame.urcs (some r) pc ∈ s.threads t) :
    Recorded s' := by
  intro u r pc hm
  rw [hth] at hm
  by_cases hut : u = t
  · subst hut
    rw [Function.update_self] at hm
    exact absurd (hsub r pc hm) (h u r pc)
  · rw [Function.update_of_ne hut] at hm
    exact absurd hm (h u r pc)

/-- The end of a command records its status. -/
theorem Recorded.finish (h : ∀ u r pc, Frame.urcs (some r) pc ∉ s.threads u) {c : AtClient}
    {fs : List Frame} (hsub : ∀ f ∈ fs, f ∈ s.threads t) (hst : c.status ≠ noStatus) :
    Recorded (s.leaveCmdEnd t c fs) := by
  intro u r pc hm
  have hth : (s.leaveCmdEnd t c fs).threads =
      Function.update s.threads t (.urcs (some c.status) .start :: fs) := rfl
  rw [hth] at hm
  by_cases hut : u = t
  · subst hut
    rw [Function.update_self] at hm
    rcases List.mem_cons.1 hm with heq | hm
    · cases heq
      exact ⟨rfl, rfl, hst⟩
    · exact absurd (hsub _ hm) (h u r pc)
  · rw [Function.update_of_ne hut] at hm
    exact absurd hm (h u r pc)

/-- A read leaves the status of a command that has been unlocked. -/
theorem Recorded.read (h : Recorded s) {r : ReadStatus} {now : Int} {st : AtState}
    {ret : Option ParserCode} (hok : StatusKept s (t, .read r now)) (hrx : AfterRx s t r st ret) :
    Recorded { s with st } := by
  by_cases hx : s.st.client.executingCmd = true
  · intro u r pc hm
    exact absurd hm (h.absent hx u r pc)
  · intro u r' pc hm
    obtain ⟨h1, h2, h3⟩ := h u r' pc hm
    refine ⟨hrx.executingCmd.trans h1, ?_, h3⟩
    rcases hrx.effect.status with hs | ⟨err, rfl⟩ | ⟨hx', -⟩
    · exact hs.trans h2
    · exact nomatch hok ⟨u, r', pc, hm⟩
    · exact absurd hx' hx

theorem Recorded.step (h : Recorded s) (ho : Owned s) (hok : StatusKept s (t, a))
    (he : Effect s t a s') : Recorded s' := by
  have exec : ∀ {fs f}, s.threads t = f :: fs → 0 < execs (f :: fs) →
      s.st.client.executingCmd = true := fun hfs hpos => (ho.executing (by rw [hfs]; exact hpos)).1
  cases he with
  | begin now hu hav hx =>
    refine Recorded.of_none (fun u r pc hm => ?_)
      (show _ = Function.update s.threads t (.cmd none :: s.threads t) from rfl) (by simp)
    exact nomatch hok ⟨u, r, pc, hm⟩
  | expect p buf hfs hst =>
    exact .of_none (h.absent (exec hfs (by simp))) rfl (by simp [hfs])
  | expectLate p buf hfs hst =>
    exact .of_none (h.absent (exec hfs (by simp))) rfl (by simp [hfs])
  | endWait hfs hst => exact .of_none (h.absent (exec hfs (by simp))) rfl (by simp [hfs])
  | endNow hfs hst => exact .finish (h.absent (exec hfs (by simp))) (by simp +contextual [hfs]) hst
  | rxClosed => exact h
  | rxBusy hu hav hx => exact h.keep rfl rfl rfl fun r pc hm => ⟨pc, by simpa using hm⟩
  | rxIdle hu hav hx => exact h.keep rfl rfl rfl fun r pc hm => ⟨pc, by simpa using hm⟩
  | user hu hc =>
    obtain ⟨_, _, _, _, _, rfl⟩ := hc
    exact h.keep rfl rfl rfl fun r pc hm => ⟨pc, hm⟩
  | writeMem mem hu => exact h
  | callbackReturn hfs => exact h.goOn hfs rfl rfl rfl
  | readMore hrx => exact h.read hok hrx
  | readStay hrx => exact h.read hok hrx
  | rxDone hrx hfs =>
    refine (h.read hok hrx).keep rfl rfl rfl fun r pc hm => ⟨pc, ?_⟩
    simpa [hfs] using hm
  | rspDone hrx hfs =>
    have hx := exec hfs (by simp)
    exact .of_none (h.absent hx) rfl (by simp [hfs])
  | endDone hrx hfs hst =>
    have hx := exec hfs (by simp)
    refine Recorded.finish (h.absent hx) (by simp +contextual [hfs]) ?_
    rcases hst with ⟨-, rfl⟩ | ⟨-, hne⟩
    · exact noStatus_ne_timeout
    · exact hne
  | urc hfs _ _ _ _ _ => exact h.goOn hfs rfl rfl rfl
  | urcsDone hfs => exact h.keep rfl rfl rfl fun r pc hm => ⟨pc, by simp [hfs, hm]⟩

/-- A step of another thread leaves the status of a command that is executing. -/
theorem status_of_other (ho : Owned s) {u : Nat} (hexec : 0 < execs (s.threads t)) (hut : u ≠ t)
    (he : Effect s u a s') : s'.st.client.status = s.st.client.status := by
  obtain ⟨hx, -, h0⟩ := ho.executing hexec
  have other : ∀ {fs f}, s.threads u = f :: fs → 0 < execs (f :: fs) → False := fun hfs hpos => by
    have := h0 u hut
    rw [hfs] at this
    omega
  cases he with
  | begin now hu hav hx' => rw [hx] at hx'; cases hx'
  | expect | expectLate | endWait | endNow | rxClosed | rxBusy | rxIdle | writeMem | callbackReturn
    | urc | urcsDone => rfl
  | user hu hc => obtain ⟨_, _, _, _, _, rfl⟩ := hc; rfl
  | readMore hrx | readStay hrx | rxDone hrx | rspDone hrx | endDone hrx =>
    rcases ho.receiver hrx.inRx with ⟨-, hpos⟩ | ⟨hx', -⟩
    · exact absurd (h0 u hut) (by omega)
    · rw [hx] at hx'; cases hx'

end

/-! ## The main theorem -/

theorem recorded_of_reach {s : Sys} (h : Reach step StatusKept Started s) :
    Owned s ∧ Recorded s := by
  refine h.invariant (I := fun s => Owned s ∧ Recorded s) ?_ ?_
  · rintro s ⟨reentrant, n, pUrcBuffer, mem, rfl⟩
    exact ⟨owned_init _ _ _ _, fun u r pc hm => by simp [init] at hm⟩
  · intro s ⟨t, a⟩ s' ⟨ho, hr⟩ hok hs
    exact ⟨ho.step (step_effect hs), hr.step ho hok (step_effect hs)⟩

/-- **A command returns its own status**, the one recorded when it unlocked `cmdMutex`, and no other
thread touches the status while the command is executing. -/
theorem cmdEnd_returns_recorded {s : Sys} (h : Reach step StatusKept Started s) :
    (∀ t r fs, s.threads t = .urcs (some r) .done :: fs →
      s.st.client.status = r ∧ r ≠ noStatus) ∧
    (∀ t u a s', 0 < execs (s.threads t) → u ≠ t → s.step (u, a) = some s' →
      s'.st.client.status = s.st.client.status) := by
  obtain ⟨ho, hr⟩ := recorded_of_reach h
  refine ⟨fun t r fs hfs => (hr t r .done (by simp [hfs])).2, fun t u a s' hexec hut hs => ?_⟩
  exact status_of_other ho hexec hut (step_effect hs)

/-- The steps of a thread that receives the bytes of `bs`. -/
def reads (t : Nat) (bs : List UInt8) : List (Nat × Act) := bs.map fun b => (t, .read (.got [b]) 0)

/-- A client with a line buffer of 64 bytes and a URC buffer of 64 bytes. -/
def small : Sys := init false 64 (List.replicate 64 0) ⟨fun _ _ => 0, fun _ => 0⟩

/-- A command that is answered by `OK` returns 0. -/
theorem cmdEnd_returns_recorded_ok : ∃ s, Reach step StatusKept Started s ∧
    s.threads 0 = [.urcs (some 0) .done] ∧ s.st.client.status = 0 := by
  let rest := [(0, .cmdEnd)] ++ reads 0 (text "OK\r") ++ List.replicate 3 (0, .next)
  have hbegin : StatusKept small (0, .cmdBeginF 0) := by
    intro ⟨u, r, pc, hm⟩
    cases hm
  have hrest : ∀ a ∈ rest, ∀ s, StatusKept s a := by
    have : ∀ a ∈ rest, a.2.keepsStatus = true := by decide
    exact fun a ha _ _ => this a ha
  obtain ⟨s, hs, hth⟩ := Option.map_eq_some_iff.1 (show ((step small (0, .cmdBeginF 0)).bind
    (run step · rest)).map (fun s => s.threads 0) = some [.urcs (some 0) .done] by decide)
  obtain ⟨s1, h1, h2⟩ := Option.bind_eq_some_iff.1 hs
  have hr : Reach step StatusKept Started s :=
    ((Reach.start ⟨_, _, _, _, rfl⟩).next hbegin h1).run hrest h2
  exact ⟨s, hr, hth, ((cmdEnd_returns_recorded hr).1 0 0 [] hth).1⟩

/-- A URC callback runs a command that succeeds after the command that is being ended has failed:
the failed command returns 0. -/
theorem nested_command_overwrites : ∃ s, Reach step anyStep Started s ∧
    s.threads 0 = [.urcs (some errorStatusError) .done] ∧ s.st.client.status = 0 := by
  obtain ⟨s, hs, hp⟩ := Option.map_eq_some_iff.1 (show (run step small
    ([(0, .setUrcCallback true), (0, .cmdBeginF 0), (0, .cmdEnd)] ++ reads 0 (text "+A\rERROR\r") ++
      List.replicate 3 (0, .next) ++ [(0, .cmdBeginF 0), (0, .cmdEnd)] ++ reads 0 (text "OK\r") ++
      List.replicate 2 (0, .next) ++ [(0, .callbackReturn)] ++ List.replicate 5 (0, .next))).map
    (fun s => (s.threads 0, s.st.client.status)) =
      some ([.urcs (some errorStatusError) .done], 0) by decide)
  have hr : Reach step anyStep Started small := .start ⟨_, _, _, _, rfl⟩
  exact ⟨s, hr.run (fun _ _ _ => trivial) hs, congrArg Prod.fst hp, congrArg Prod.snd hp⟩

end Sys
