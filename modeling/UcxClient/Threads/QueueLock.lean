import UcxClient.Threads.Waiting
import UcxClient.Threads.Status

/-!
# No thread locks `queueMutex` twice

`parseLine` locks `queueMutex` for a URC with a payload, and `handleBinaryRx` unlocks it when the
payload is complete, perhaps several reads later. `never_locks_twice`: with ordinary mutexes, as long
as the payloads of URCs flow (`Flows .urc`), a thread that is about to lock `queueMutex` does not
hold it. If `uCxAtClientHandleRx` returns inside a payload, it goes on to dequeue while it holds the
mutex itself (`stalled_urc_locks_twice`).
-/

open Transition

namespace Sys

/-- The thread is in the receiver, or in a command between two calls of it. -/
def Busy (fs : List Frame) : Prop := inRx fs = true ∨ ∃ pRet fs', fs = .cmd pRet :: fs'

structure QueueLock (s : Sys) : Prop where
  cmdPlain : s.st.client.cmdMutex.reentrant = false
  ordinary : s.st.client.urcQueue.queueMutex.Ordinary
  /-- the mutex is held while the payload of a URC is received -/
  taken : s.st.client.Receiving .urc ↔ s.st.client.urcQueue.queueMutex.owner ≠ none
  holder : ∀ t, s.st.client.urcQueue.queueMutex.owner = some t → Busy (s.threads t)
  unblocked : s.st.client.urcQueue.queueMutex.blocked = false
  entry : ¬s.st.client.Receiving .urc → s.st.client.urcQueue.pEnqueueEntry = none

section
variable {s s' : Sys} {t : Nat} {a : Act} {fs' : List Frame}

theorem Busy.held {fs : List Frame} (h : Busy fs) (wf : WellFormed fs) : 0 < held fs := by
  rcases h with h | ⟨pRet, fs', rfl⟩
  · rcases fs with _ | ⟨_ | _ | _ | _ | _, fs⟩ <;> try cases h
    · obtain ⟨⟨p, fs', rfl⟩, -⟩ := wf
      simp
    · simp
    · simp
  · simp

/-- The thread that is busy is the only one. -/
theorem busy_unique (ho : Owned s) {u : Nat} (ht : Busy (s.threads t)) (hu : Busy (s.threads u)) :
    u = t := ho.mutex.exclusive (hu.held (ho.wf u)) (ht.held (ho.wf t))

/-- A thread in `processUrcs` does not hold `queueMutex`. -/
theorem QueueLock.not_holder (h : QueueLock s) {k : Option Int} {pc : UrcPc} {fs : List Frame}
    (hfs : s.threads t = .urcs k pc :: fs) : s.st.client.urcQueue.queueMutex.owner ≠ some t := by
  intro ho
  rcases h.holder t ho with hb | ⟨p, fs', hb⟩ <;> rw [hfs] at hb <;> cases hb

/-- A step that neither reads nor locks `queueMutex`. -/
theorem QueueLock.keep (h : QueueLock s) (hth : s'.threads = Function.update s.threads t fs')
    (hr : s'.st.client.cmdMutex.reentrant = s.st.client.cmdMutex.reentrant)
    (hm : s'.st.client.urcQueue.queueMutex = s.st.client.urcQueue.queueMutex)
    (hp : s'.st.client.urcQueue.pEnqueueEntry = s.st.client.urcQueue.pEnqueueEntry)
    (hb : s'.st.client.isBinaryRx = s.st.client.isBinaryRx)
    (hx : s'.st.client.binaryRx = s.st.client.binaryRx)
    (ht : s.st.client.urcQueue.queueMutex.owner = some t → Busy fs') : QueueLock s' := by
  have hrec : s'.st.client.Receiving .urc ↔ s.st.client.Receiving .urc := by
    rw [AtClient.Receiving, AtClient.Receiving, hb, hx]
  refine ⟨hr.trans h.cmdPlain, hm ▸ h.ordinary, by rw [hm, hrec]; exact h.taken, fun u ho => ?_,
    by rw [hm]; exact h.unblocked, fun hn => hp.trans (h.entry (mt hrec.2 hn))⟩
  · rw [hm] at ho
    rw [hth]
    by_cases hut : u = t
    · subst hut; simpa using ht ho
    · rw [Function.update_of_ne hut]; exact h.holder u ho

/-- The mutex after a read: the reader has it exactly if the payload goes on. -/
theorem QueueLock.read (h : QueueLock s) (ho : Owned s) (hok : AtState.RxOk s.st.client)
    {r : ReadStatus} {st : AtState} {ret : Option ParserCode} (hrx : AfterRx s t r st ret) :
    st.client.urcQueue.queueMutex.Ordinary ∧
    ((st.client.Receiving .urc ∧ st.client.urcQueue.queueMutex.owner = some t) ∨
      (¬st.client.Receiving .urc ∧ st.client.urcQueue.queueMutex.owner = none)) := by
  obtain ⟨h1, h2⟩ := hrx.effect.queueMutex hok
  have hg := hrx.granted
  by_cases hrec : s.st.client.Receiving .urc
  · obtain ⟨v, hv⟩ := Option.ne_none_iff_exists'.1 (h.taken.1 hrec)
    obtain rfl : v = t := busy_unique ho (.inl hrx.inRx) (h.holder v hv)
    rcases h1 hrec with ⟨hm, hr⟩ | ⟨hm, hr⟩
    · rw [hm]
      exact ⟨h.ordinary, .inl ⟨hr, hv⟩⟩
    · rw [hm]
      obtain ⟨hn, hord⟩ := h.ordinary.unlock v
      exact ⟨hord, .inr ⟨hr, hn⟩⟩
  · have hn : s.st.client.urcQueue.queueMutex.owner = none :=
      Classical.byContradiction fun hne => hrec (h.taken.2 hne)
    rcases h2 hrec with ⟨hm, hr⟩ | ⟨hm, hr⟩ | ⟨hm, hr⟩
    · rw [hm]
      exact ⟨h.ordinary, .inr ⟨hr, hn⟩⟩
    · rw [hm] at hg ⊢
      obtain ⟨-, hown, hord⟩ := h.ordinary.lock hg
      exact ⟨hord, .inl ⟨hr, hown⟩⟩
    · rw [hm, Mutex.blocked_unlock] at hg
      obtain ⟨-, -, hord⟩ := h.ordinary.lock hg
      obtain ⟨hn', hord'⟩ := hord.unlock t
      rw [hm]
      exact ⟨hord', .inr ⟨hr, hn'⟩⟩

/-- The invariant after a read, given where it leaves the reader. -/
theorem QueueLock.afterRead (h : QueueLock s) (ho : Owned s) (hok : AtState.RxOk s.st.client)
    {r : ReadStatus} {st : AtState} {ret : Option ParserCode} (hrx : AfterRx s t r st ret)
    (hth : s'.threads = Function.update s.threads t fs')
    (hr : s'.st.client.cmdMutex.reentrant = st.client.cmdMutex.reentrant)
    (hq : s'.st.client.urcQueue = st.client.urcQueue)
    (hb : s'.st.client.isBinaryRx = st.client.isBinaryRx)
    (hx : s'.st.client.binaryRx = st.client.binaryRx)
    (ht : st.client.Receiving .urc → Busy fs') : QueueLock s' := by
  obtain ⟨hord, hcase⟩ := h.read ho hok hrx
  have hown : ∀ u, st.client.urcQueue.queueMutex.owner = some u → u = t ∧ st.client.Receiving .urc := by
    intro u hu
    rcases hcase with ⟨hrec, hown⟩ | ⟨-, hown⟩
    · rw [hown] at hu; exact ⟨(Option.some.inj hu).symm, hrec⟩
    · rw [hown] at hu; cases hu
  have hrec' : s'.st.client.Receiving .urc ↔ st.client.Receiving .urc := by
    rw [AtClient.Receiving, AtClient.Receiving, hb, hx]
  refine ⟨?_, hq ▸ hord, ?_, fun u hu => ?_, by rw [hq]; exact hrx.granted, fun hn => ?_⟩
  · rw [hr, hrx.cmdMutex]; exact h.cmdPlain
  · rw [hq, hrec']
    rcases hcase with ⟨hrec, hown⟩ | ⟨hrec, hown⟩
    · exact ⟨fun _ => by simp [hown], fun _ => hrec⟩
    · exact ⟨fun h => absurd h hrec, fun h => absurd hown h⟩
  · rw [hq] at hu
    obtain ⟨rfl, hrec⟩ := hown u hu
    rw [hth, Function.update_self]
    exact ht hrec
  · rw [hq]
    exact hrx.effect.entry h.entry (mt hrec'.2 hn)

theorem QueueLock.step (h : QueueLock s) (ho : Owned s) (hw : Waiting .urc s)
    (hok : Flows .urc s (t, a)) (he : Effect s t a s') : QueueLock s' := by
  cases he with
  | begin now hu hav hx =>
    exact h.keep rfl (Mutex.reentrant_lock _ _) rfl rfl rfl rfl fun _ => .inr ⟨_, _, rfl⟩
  | expect p buf hfs hst => exact h.keep rfl rfl rfl rfl rfl rfl fun _ => .inl rfl
  | expectLate p buf hfs hst => exact h.keep rfl rfl rfl rfl rfl rfl fun _ => .inr ⟨_, _, rfl⟩
  | endWait hfs hst => exact h.keep rfl rfl rfl rfl rfl rfl fun _ => .inl rfl
  | endNow hfs hst =>
    refine h.keep rfl (Mutex.reentrant_unlock _ _) rfl rfl rfl rfl fun hown => ?_
    exact absurd (h.taken.2 (by simp [hown])) (hw.endNow ho hfs hst)
  | rxClosed => exact h
  | rxBusy hu hav hx =>
    rcases ho.exec with ⟨hx', -⟩ | ⟨-, v, hv, -⟩
    · rw [hx] at hx'; cases hx'
    · have hpos : 0 < held (s.threads v) := by have := execs_le_held (s.threads v); omega
      have := (ho.mutex.available_eq hav hpos).2
      rw [h.cmdPlain] at this
      cases this
  | rxIdle hu hav hx =>
    exact h.keep rfl (Mutex.reentrant_lock _ _) rfl rfl rfl rfl fun _ => .inl rfl
  | user hu hc =>
    obtain ⟨_, _, _, _, _, rfl⟩ := hc
    exact h.keep rfl rfl rfl rfl rfl rfl fun hown => h.holder t hown
  | writeMem mem hu =>
    exact ⟨h.cmdPlain, h.ordinary, h.taken, h.holder, h.unblocked, h.entry⟩
  | callbackReturn hfs =>
    exact h.keep rfl rfl rfl rfl rfl rfl fun hown => absurd hown (h.not_holder hfs)
  | urc hfs _ _ _ hm hp => exact h.keep rfl rfl hm hp rfl rfl fun hown => absurd hown (h.not_holder hfs)
  | urcsDone hfs => exact h.keep rfl rfl rfl rfl rfl rfl fun hown => absurd hown (h.not_holder hfs)
  | readMore hrx =>
    exact h.afterRead ho hw.rxOk hrx (Function.update_eq_self t s.threads).symm rfl rfl rfl rfl
      fun _ => .inl hrx.inRx
  | readStay hrx =>
    exact h.afterRead ho hw.rxOk hrx (Function.update_eq_self t s.threads).symm rfl rfl rfl rfl
      fun _ => .inl hrx.inRx
  | rxDone hrx hfs =>
    exact h.afterRead ho hw.rxOk hrx rfl (Mutex.reentrant_unlock _ _) rfl rfl rfl
      fun hr => absurd hr (hw.rxDone nofun hok hrx hfs)
  | rspDone hrx hfs =>
    exact h.afterRead ho hw.rxOk hrx rfl rfl rfl rfl rfl fun _ => .inr ⟨_, _, rfl⟩
  | endDone hrx hfs hst =>
    exact h.afterRead ho hw.rxOk hrx rfl (Mutex.reentrant_unlock _ _) rfl rfl rfl
      fun hr => absurd hr (hw.endDone nofun ho hok hrx hfs hst)

end

/-! ## The main theorem -/

/-- An initialised client on a port with ordinary mutexes. -/
def StartedPlain (s : Sys) : Prop :=
  ∃ rxBufferLen pUrcBuffer mem, s = init false rxBufferLen pUrcBuffer mem

theorem queueLock_of_reach {s : Sys} (h : Reach step (Flows .urc) StartedPlain s) :
    Owned s ∧ Waiting .urc s ∧ QueueLock s := by
  refine h.invariant (I := fun s => Owned s ∧ Waiting .urc s ∧ QueueLock s) ?_ ?_
  · rintro s ⟨n, pUrcBuffer, mem, rfl⟩
    have hrec : ∀ st, ¬(init false n pUrcBuffer mem).st.client.Receiving st := fun st h => nomatch h.1
    refine ⟨owned_init _ _ _ _, ⟨AtState.rxOk_of_not_binary rfl rfl, nofun, nofun⟩, rfl,
      Mutex.ordinary_create, ⟨fun h => absurd h (hrec _), fun h => absurd rfl h⟩, nofun, rfl,
      fun _ => rfl⟩
  · intro s ⟨t, a⟩ s' ⟨ho, hw, hl⟩ hok hs
    have he := step_effect hs
    exact ⟨ho.step he, hw.step nofun ho hok he, hl.step ho hw hok he⟩

/-- **No thread tries to lock `queueMutex` while it holds it**: not in `processUrcs`, where an open
enqueue is that of another thread, and not while it receives. -/
theorem never_locks_twice {s : Sys} (h : Reach step (Flows .urc) StartedPlain s) :
    (∀ t k pc fs, s.threads t = .urcs k pc :: fs →
      s.st.client.urcQueue.queueMutex.owner ≠ some t ∧
      (s.st.client.urcQueue.pEnqueueEntry ≠ none →
        ∃ u, u ≠ t ∧ s.st.client.urcQueue.queueMutex.owner = some u)) ∧
    (∀ t r, s.st.client.urcQueue.queueMutex.owner = some t →
      (s.st.rxStep t r).1.client.urcQueue.queueMutex.blocked = false) := by
  obtain ⟨ho, hw, hl⟩ := queueLock_of_reach h
  refine ⟨fun t k pc fs hfs => ⟨hl.not_holder hfs, fun hne => ?_⟩, fun t r hown => ?_⟩
  · have hrec : s.st.client.Receiving .urc :=
      Classical.byContradiction fun hn => hne (hl.entry hn)
    obtain ⟨u, hu⟩ := Option.ne_none_iff_exists'.1 (hl.taken.1 hrec)
    refine ⟨u, fun hut => ?_, hu⟩
    subst hut
    exact hl.not_holder hfs hu
  · have hrec := hl.taken.2 (by simp [hown])
    rcases (AtState.rxStep_effect t s.st r).queueMutex hw.rxOk |>.1 hrec with ⟨hm, -⟩ | ⟨hm, -⟩
    · rw [hm]; exact hl.unblocked
    · rw [hm, Mutex.blocked_unlock]; exact hl.unblocked

/-- Thread 0 receives a URC with a payload of 5 bytes up to the first of them. -/
def urcBegun : List (Nat × Act) :=
  reads 0 (text "+A" ++ [sohChar]) ++ [(0, .read (.got [0, 5]) 0), (0, .read (.got [7]) 0)]

/-- Thread 1 is about to dequeue while thread 0 receives the payload of a URC. -/
theorem never_locks_twice_open_enqueue : ∃ s, Reach step (Flows .urc) StartedPlain s ∧
    s.threads 1 = [.urcs none .start] ∧ s.st.client.urcQueue.pEnqueueEntry = some 0 ∧
    ∃ u, u ≠ 1 ∧ s.st.client.urcQueue.queueMutex.owner = some u := by
  let check (s : Sys) (ta : Nat × Act) : Bool := ta.2.flows || !decide (s.st.client.Receiving .urc)
  have hcheck : ∀ s ta, check s ta = true → Flows .urc s ta := by
    intro s ta h
    rcases Bool.or_eq_true_iff.1 h with h | h
    · exact flows_of_act h s
    · intro hr
      simp [hr] at h
  obtain ⟨s, hs, hp⟩ := Option.map_eq_some_iff.1 (show (runIf check step small
    ([(0, .clientOpen), (1, .handleRx), (1, .read (.got []) 0), (0, .handleRx)] ++ urcBegun)).map
    (fun s => (s.threads 1, s.st.client.urcQueue.pEnqueueEntry)) =
      some ([.urcs none .start], some 0) by decide)
  have hr : Reach step (Flows .urc) StartedPlain s := (Reach.start ⟨_, _, _, rfl⟩).runIf hcheck hs
  have hth : s.threads 1 = [.urcs none .start] := congrArg Prod.fst hp
  have hpe : s.st.client.urcQueue.pEnqueueEntry = some 0 := congrArg Prod.snd hp
  refine ⟨s, hr, hth, hpe, ?_⟩
  exact ((never_locks_twice hr).1 1 none .start [] hth).2 (by simp [hpe])

/-- A read that brings nothing in the payload of a URC: `uCxAtClientHandleRx` goes on to
`uCxAtUrcQueueDequeueBegin`, which waits for the mutex that its own thread holds. -/
theorem stalled_urc_locks_twice : ∃ s, Reach step anyStep StartedPlain s ∧
    s.threads 0 = [.urcs none .locked] ∧ s.st.client.urcQueue.queueMutex.owner = some 0 ∧
    s.st.client.urcQueue.pEnqueueEntry = some 0 ∧ s.step (0, .next) = none := by
  obtain ⟨s, hs, hp⟩ := Option.map_eq_some_iff.1 (show (run step small
    ([(0, .clientOpen), (0, .handleRx)] ++ urcBegun ++ [(0, .read (.got []) 0), (0, .next)])).map
    (fun s => (s.threads 0, s.st.client.urcQueue.queueMutex.owner,
      s.st.client.urcQueue.pEnqueueEntry, (s.step (0, .next)).isNone)) =
      some ([.urcs none .locked], some 0, some 0, true) by decide)
  have hr : Reach step anyStep StartedPlain small := .start ⟨_, _, _, rfl⟩
  simp only [Prod.mk.injEq, Option.isNone_iff_eq_none] at hp
  exact ⟨s, hr.run (fun _ _ _ => trivial) hs, hp⟩

end Sys
