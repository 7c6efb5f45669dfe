import UcxClient.Client.RxQueue
import UcxClient.Threads.Status

/-!
# The URCs that are handed to the callback

`observe` is a step together with what it does to the queue of URCs. `Sim s qs a` relates the
client to the queue system of `UcxClient.Queue.System`: the dequeue call a thread is in is that of
the only frame of its stack that has got past the try-lock (`deqPc`, `Alone`).

A URC callback may run commands, whose `cmdEnd` calls `processUrcs` again. With ordinary mutexes the
try-lock of that call fails and it leaves. A reentrant mutex is granted to its owner: the nested call
finds `pDequeueEntry` set and hands out the entry that is being processed (`nested_processUrcs`).
`handed_in_order`: as long as no thread locks a mutex of the queue again that way (`Relocks`), every
URC is handed out once and in order.
-/

open Transition UrcQueue

/-- The call has got past the try-lock. -/
@[simp] def UrcPc.active : UrcPc → Bool
  | .start | .done => false
  | _ => true

namespace Sys

/-- Thread `t` is about to lock again a mutex of the queue that it holds: `dequeueMutex`, or
`queueMutex` for the sake of an open enqueue. -/
def Relocks (s : Sys) (t : Nat) : Prop :=
  let q := s.st.client.urcQueue
  match s.threads t with
  | .urcs _ .start :: _ => q.dequeueMutex.reentrant = true ∧ q.dequeueMutex.owner = some t
  | .urcs _ .locked :: _ | .urcs _ (.called _) :: _ =>
    q.queueMutex.reentrant = true ∧ q.queueMutex.owner = some t ∧ q.pEnqueueEntry ≠ none
  | _ => False

theorem not_relocks {s : Sys} (hd : s.st.client.urcQueue.dequeueMutex.reentrant = false)
    (hq : s.st.client.urcQueue.queueMutex.reentrant = false) (t : Nat) : ¬s.Relocks t := by
  intro hr
  unfold Relocks at hr
  split at hr
  · exact absurd hr.1 (by simp [hd])
  · exact absurd hr.1 (by simp [hq])
  · exact absurd hr.1 (by simp [hq])
  · exact hr

/-- No accepted line has 65536 bytes or more, and no thread locks a mutex of the queue again. -/
structure Guarded (s : Sys) (ta : Nat × Act) : Prop where
  short : ∀ r now, ta.2 = .read r now → s.st.ShortUrc r
  relock : ta.2 = .next → ¬s.Relocks ta.1

/-- What a step that leads to `s'` does to the queue. -/
def emitted (s : Sys) (ta : Nat × Act) (s' : Sys) : Option QueueSys.Ev :=
  let q := s.st.client.urcQueue
  match ta.2, s.threads ta.1 with
  | .read _ _, _ => (q.queued s'.st.client.urcQueue).map .push
  | .next, .urcs _ .locked :: _ => if q.peekEntry = none then some .empty else none
  | .next, .urcs _ (.checked (some _)) :: _ => some (.front q.viewHead)
  | .next, .urcs _ (.called _) :: _ => some .pop
  | _, _ => none

def observe (s : Sys) (ta : Nat × Act) : Option (Sys × Option QueueSys.Ev) :=
  (s.step ta).map fun s' => (s', s.emitted ta s')

/-- What is observed of a run is a run. -/
theorem reach_of_trace {ok : Sys → Nat × Act → Prop} {s₀ s : Sys} {es : List QueueSys.Ev}
    (h : Trace observe ok s₀ s es) : Reach step ok (· = s₀) s := by
  induction h with
  | nil => exact .start rfl
  | snoc _ ha hs ih =>
    obtain ⟨s', h1, h2⟩ := Option.map_eq_some_iff.1 hs
    cases h2
    exact .next ih ha h1

/-! ## The dequeue call of a stack -/

/-- The dequeue call that a thread is in. -/
@[simp] def deqPc : List Frame → QueueSys.DeqPc
  | [] => .idle
  | .urcs _ .locked :: _ => .locked
  | .urcs _ (.checked p) :: _ => .checked p
  | .urcs _ (.callback p) :: _ | .urcs _ (.called p) :: _ => .holding p
  | .urcs _ .popped :: _ => .ending
  | .urcs _ .start :: fs | .urcs _ .done :: fs => deqPc fs
  | .cmd _ :: fs | .getRsp :: fs | .cmdEnd :: fs | .handleRx :: fs => deqPc fs

/-- Below a call that is past the try-lock there is no other. -/
@[simp] def Alone : List Frame → Prop
  | [] => True
  | .urcs _ pc :: fs => (pc.active = true → deqPc fs = .idle) ∧ Alone fs
  | .cmd _ :: fs | .getRsp :: fs | .cmdEnd :: fs | .handleRx :: fs => Alone fs

/-- The number of entries that a stack is processing. -/
@[simp] def processing : List Frame → Nat
  | [] => 0
  | .urcs _ (.callback _) :: fs | .urcs _ (.called _) :: fs => processing fs + 1
  | _ :: fs => processing fs

theorem Alone.processing {fs : List Frame} (h : Alone fs) :
    Sys.processing fs ≤ 1 ∧ (0 < Sys.processing fs → ∃ p, deqPc fs = .holding p) := by
  have idle : ∀ {fs : List Frame}, (0 < Sys.processing fs → ∃ p, deqPc fs = .holding p) →
      deqPc fs = .idle → Sys.processing fs = 0 := by
    intro fs hp hd
    apply Nat.eq_zero_of_not_pos
    intro hpos
    obtain ⟨p, hp⟩ := hp hpos
    rw [hd] at hp
    cases hp
  induction fs with
  | nil => exact ⟨Nat.zero_le 1, nofun⟩
  | cons f fs ih =>
    cases f with
    | urcs k pc =>
      obtain ⟨ha, hfs⟩ := h
      obtain ⟨h1, h2⟩ := ih hfs
      cases pc with
      | start | done => exact ⟨h1, h2⟩
      | callback p | called p =>
        refine ⟨?_, fun _ => ⟨p, rfl⟩⟩
        simp [idle h2 (ha rfl)]
      | _ => simp [idle h2 (ha rfl)]
    | _ => exact ih h

/-! ## The simulation -/

structure Sim (s : Sys) (qs : QueueSys) (a : Fifo.State Urc) : Prop where
  linked : s.st.Linked qs a
  deq : ∀ t, qs.deq t = deqPc (s.threads t)
  alone : ∀ t, Alone (s.threads t)
  lock : Mutex.HeldAlike s.st.client.urcQueue.dequeueMutex qs.q.dequeueMutex
  /-- the thread that receives the payload of a URC holds `queueMutex` -/
  held : s.st.client.Receiving .urc → s.st.client.urcQueue.queueMutex.owner ≠ none
  rxOk : AtState.RxOk s.st.client
  apart : AtState.RspApart s.st.client

theorem sim_init (reentrant : Bool) (n : Nat) {pUrcBuffer : List UInt8} (mem : CallerMem)
    (h : pUrcBuffer.length < 2 ^ 31) :
    Sim (init reentrant n pUrcBuffer mem) (QueueSys.init pUrcBuffer) Fifo.empty where
  linked := ⟨⟨⟨rfl, rfl, rfl, rfl, rfl, rfl⟩, QueueSys.rep_init h, QueueSys.asserted_init _⟩,
    fun _ => rfl, fun hr => nomatch hr.1⟩
  deq := fun _ => rfl
  alone := fun _ => trivial
  lock := ⟨rfl, rfl, fun _ => rfl, Nat.zero_le 1⟩
  held := fun hr => nomatch hr.1
  rxOk := AtState.rxOk_of_not_binary rfl rfl
  apart := fun hr => nomatch hr.1

section
variable {s s' : Sys} {t : Nat} {a : Act} {fs' : List Frame} {qs qs' : QueueSys}
  {q : Fifo.State Urc}

theorem update_stack {β : Type} (f : List Frame → β) (threads : Nat → List Frame) (t : Nat)
    {fs' : List Frame} (h : f fs' = f (threads t)) (u : Nat) :
    f (Function.update threads t fs' u) = f (threads u) := by
  by_cases hut : u = t
  · subst hut
    rw [Function.update_self, h]
  · rw [Function.update_of_ne hut]

theorem alone_update {threads : Nat → List Frame} (h : ∀ u, Alone (threads u)) (t : Nat)
    {fs' : List Frame} (hfs : Alone fs') (u : Nat) : Alone (Function.update threads t fs' u) := by
  by_cases hut : u = t
  · subst hut
    rwa [Function.update_self]
  · rw [Function.update_of_ne hut]
    exact h u

/-- A step that concerns neither the queue nor the receiver. -/
theorem Sim.keep (h : Sim s qs q) (hth : s'.threads = Function.update s.threads t fs')
    (hq : s'.st.client.urcQueue = s.st.client.urcQueue)
    (hb : s'.st.client.isBinaryRx = s.st.client.isBinaryRx)
    (hx : s'.st.client.binaryRx = s.st.client.binaryRx) (hl : s'.st.lengthBuf = s.st.lengthBuf)
    (hd : deqPc fs' = deqPc (s.threads t)) (ha : Alone fs') : Sim s' qs q := by
  have hrec : ∀ st, s'.st.client.Receiving st ↔ s.st.client.Receiving st := by
    intro st
    rw [AtClient.Receiving, AtClient.Receiving, hb, hx]
  have hann : s'.st.announced = s.st.announced := by
    rw [AtState.announced, AtState.announced, hl]
  refine ⟨⟨hq ▸ h.linked.tracks, fun hn => h.linked.closed (mt (hrec _).2 hn), fun hr => ?_⟩,
    fun u => ?_, fun u => ?_, hq ▸ h.lock, fun hr => ?_, h.rxOk.congr hb hx, fun hr => ?_⟩
  · have ho := h.linked.payload ((hrec _).1 hr)
    refine ⟨ho.enq, hx ▸ ho.pBuffer, hx ▸ ho.bufferSize, ?_, ?_⟩
    · rw [hx, hann]
      exact ho.received
    · rw [hann]
      exact ho.room
  · rw [h.deq u, hth]
    exact (update_stack deqPc s.threads t hd u).symm
  · rw [hth]
    exact alone_update h.alone t ha u
  · rw [hq]
    exact h.held ((hrec _).1 hr)
  · rw [hx]
    exact h.apart ((hrec _).1 hr)

theorem AfterRx.reentrant {r : ReadStatus} {st : AtState} {ret : Option ParserCode}
    (hrx : AfterRx s t r st ret) (hok : AtState.RxOk s.st.client) :
    st.client.urcQueue.queueMutex.reentrant = s.st.client.urcQueue.queueMutex.reentrant := by
  obtain ⟨h1, h2⟩ := hrx.effect.queueMutex hok
  by_cases hrec : s.st.client.Receiving .urc
  · rcases h1 hrec with ⟨hq, -⟩ | ⟨hq, -⟩ <;> simp [hq]
  · rcases h2 hrec with ⟨hq, -⟩ | ⟨hq, -⟩ | ⟨hq, -⟩ <;> simp [hq]

/-- The thread that receives the payload of a URC holds `queueMutex`. -/
theorem AfterRx.held {r : ReadStatus} {st : AtState} {ret : Option ParserCode}
    (hrx : AfterRx s t r st ret) (hok : AtState.RxOk s.st.client)
    (h : s.st.client.Receiving .urc → s.st.client.urcQueue.queueMutex.owner ≠ none)
    (hr : st.client.Receiving .urc) : st.client.urcQueue.queueMutex.owner ≠ none := by
  obtain ⟨h1, h2⟩ := hrx.effect.queueMutex hok
  have hg := hrx.granted
  by_cases hrec : s.st.client.Receiving .urc
  · rcases h1 hrec with ⟨hq, -⟩ | ⟨-, hn⟩
    · rw [hq]
      exact h hrec
    · exact absurd hr hn
  · rcases h2 hrec with ⟨-, hn⟩ | ⟨hq, -⟩ | ⟨-, hn⟩
    · exact absurd hr hn
    · rw [hq] at hg ⊢
      rw [Mutex.owner_lock hg]
      nofun
    · exact absurd hr hn

/-- A read. -/
theorem Sim.read (h : Sim s qs q) {r : ReadStatus} {st : AtState} {ret : Option ParserCode}
    (hrx : AfterRx s t r st ret) (hshort : s.st.ShortUrc r) :
    ∃ qs', Sim { s with st } qs'
      (q.push (s.st.client.urcQueue.queued st.client.urcQueue)) := by
  obtain ⟨qs', hl, hsame⟩ := h.linked.read h.rxOk h.apart hrx.effect hrx.le_wants hshort
  have hm := hrx.effect.dequeueMutex
  refine ⟨qs', hl, fun u => ?_, h.alone, ?_, fun hr => hrx.held h.rxOk h.held hr,
    hrx.effect.ok h.rxOk, h.apart.read h.rxOk hrx.effect⟩
  · rw [hsame.deq]
    exact h.deq u
  · rw [hm, hsame.dequeueMutex]
    exact h.lock

/-! ## The steps of `processUrcs` -/

/-- A step of thread `t` in `processUrcs`, matched by a step of the queue system. -/
theorem Sim.urc (h : Sim s qs q) (t : Nat) (k : Option Int) (pc : UrcPc) (fs : List Frame)
    {urcQueue uq : UrcQueue} {act : QueueSys.Act} {e : Option QueueSys.Ev}
    (hs : qs.step act =
      some (⟨uq, qs.enq, Function.update qs.deq t (deqPc (.urcs k pc :: fs))⟩, e))
    (hact : ∀ line, act ≠ .enqueueBegin line) (hdata : SameData urcQueue uq)
    (hqm : urcQueue.queueMutex = s.st.client.urcQueue.queueMutex)
    (hlock : Mutex.HeldAlike urcQueue.dequeueMutex uq.dequeueMutex)
    (hpos : qs.enq ≠ none → uq.bufferPos = qs.q.bufferPos) (ha : Alone (.urcs k pc :: fs)) :
    ∃ qs' q', accepts (Fifo.step Urc.view) q e.toList = some q' ∧
      Sim (s.set t { s.st.client with urcQueue } (.urcs k pc :: fs)) qs' q' := by
  have htr := h.linked.tracks
  obtain ⟨q', hacc, hrep⟩ :=
    QueueSys.step_rep htr.rep (fun line hl _ => absurd hl (hact line)) hs
  have hass := QueueSys.step_asserted htr.rep htr.asserted hs
  have hlen : uq.bufferLen = qs.q.bufferLen := QueueSys.bufferLen_step hs
  refine ⟨⟨uq, qs.enq, Function.update qs.deq t (deqPc (.urcs k pc :: fs))⟩, q', hacc,
    ⟨⟨hdata, hrep, hass⟩, fun hn => h.linked.closed hn, fun hr => ?_⟩,
    fun u => ?_, alone_update h.alone t ha, hlock, fun hr => ?_, h.rxOk.congr rfl rfl,
    fun hr => h.apart hr⟩
  · -- the payload area of the open entry stays where it is
    have ho := h.linked.payload hr
    obtain ⟨line, hl⟩ := Option.ne_none_iff_exists'.1 ho.enq
    have hptr := (hrep.payloadPtr_eq hl).1.trans ((hpos ho.enq).trans
      (htr.rep.payloadPtr_eq hl).1.symm)
    have hspace : (uCxAtUrcQueueEnqueueGetPayloadPtr uq).2 = qs.space := by
      simp only [QueueSys.space, uCxAtUrcQueueEnqueueGetPayloadPtr, getUnusedBuf, hpos ho.enq, hlen]
    exact ⟨ho.enq, ho.pBuffer.trans (by rw [hptr]), ho.bufferSize.trans hspace.symm, ho.received,
      Nat.lt_of_lt_of_eq ho.room hspace.symm⟩
  · by_cases hut : u = t
    · subst hut
      simp [set]
    · simp [set, Function.update_of_ne hut, h.deq u]
  · simp only [set, hqm]
    exact h.held hr

/-- A thread that finds `queueMutex` free, and not for the sake of its own open enqueue. -/
theorem Sim.closed (h : Sim s qs q) (hav : s.st.client.urcQueue.queueMutex.available t = true)
    (hn : ¬(s.st.client.urcQueue.queueMutex.reentrant = true ∧
      s.st.client.urcQueue.queueMutex.owner = some t ∧
      s.st.client.urcQueue.pEnqueueEntry ≠ none)) :
    qs.enq = none ∧ qs.q.queueMutex.available t = true := by
  have hrep := h.linked.tracks.rep
  have he : qs.enq = none := by
    apply Classical.byContradiction
    intro hne
    have hheld : s.st.client.urcQueue.queueMutex.owner ≠ none := by
      apply h.held
      exact Classical.byContradiction fun hnr => hne (h.linked.closed hnr)
    apply hn
    simp only [Mutex.available, Bool.or_eq_true, Option.isNone_iff_eq_none, hheld, false_or,
      Bool.and_eq_true, beq_iff_eq] at hav
    refine ⟨hav.1, hav.2, ?_⟩
    obtain ⟨used, free, -, -, -, hp⟩ := hrep.layout
    obtain ⟨line, hl⟩ := Option.ne_none_iff_exists'.1 hne
    rw [h.linked.tracks.data.pEnqueueEntry, hp, hl]
    rintro ⟨⟩
  exact ⟨he, by simp [Mutex.available, (hrep.queueMutex he).1]⟩

/-- The try-lock. -/
theorem Sim.tryLock (h : Sim s qs q) {k : Option Int} {fs : List Frame}
    (hfs : s.threads t = .urcs k .start :: fs) (hok : ¬s.Relocks t)
    (hs : s.urcStep t k fs .start = some s') : ∃ qs', Sim s' qs' q := by
  have htr := h.linked.tracks
  have hdeq := h.deq t
  have hal := h.alone t
  rw [hfs] at hdeq hal
  simp only [Relocks, hfs] at hok
  by_cases ho : s.st.client.urcQueue.dequeueMutex.owner = none
  · have ho' : qs.q.dequeueMutex.owner = none := h.lock.owner ▸ ho
    have hidle : qs.deq t = .idle := by
      apply Classical.byContradiction
      intro hne
      have := htr.rep.dequeueMutex t hne
      rw [ho'] at this
      cases this
    have hav : s.st.client.urcQueue.dequeueMutex.available t = true := by
      simp [Mutex.available, ho]
    have hav' : qs.q.dequeueMutex.available t = true := by
      simp [Mutex.available, ho']
    simp only [urcStep, tryLockDequeue, hav, ↓reduceIte] at hs
    obtain rfl := Option.some.inj hs
    have hst : qs.step (.dequeueTryLock t) = some
        (⟨UrcQueue.assert { qs.q with dequeueMutex := qs.q.dequeueMutex.lock t }
          qs.q.pDequeueEntry.isNone, qs.enq, Function.update qs.deq t .locked⟩, none) := by
      simp only [QueueSys.step, hidle, tryLockDequeue, hav', ↓reduceIte]
    have h0 := htr.data
    have hdata : SameData { s.st.client.urcQueue with
          dequeueMutex := s.st.client.urcQueue.dequeueMutex.lock t }
        { qs.q with dequeueMutex := qs.q.dequeueMutex.lock t } :=
      ⟨h0.1, h0.2, h0.3, h0.4, h0.5, h0.6⟩
    obtain ⟨qs', q', hacc, hsim⟩ := h.urc t k .locked fs hst (by rintro _ ⟨⟩)
      (hdata.assert (congrArg Option.isNone h0.pDequeueEntry)) (queueMutex_assert _ _)
      (by
        rw [dequeueMutex_assert, dequeueMutex_assert]
        exact h.lock.lock t ho)
      (fun _ => bufferPos_assert _ _) ⟨fun _ => hdeq.symm.trans hidle, hal.2⟩
    obtain rfl : q = q' := Option.some.inj hacc
    exact ⟨_, hsim⟩
  · -- the lock is taken, and not by this thread if it is reentrant
    have hav : s.st.client.urcQueue.dequeueMutex.available t = false := by
      apply Bool.eq_false_iff.2
      intro hav
      simp only [Mutex.available, Bool.or_eq_true, Option.isNone_iff_eq_none, ho, false_or,
        Bool.and_eq_true, beq_iff_eq] at hav
      exact hok hav
    simp only [urcStep, tryLockDequeue, hav, Bool.false_eq_true, ↓reduceIte] at hs
    obtain rfl := Option.some.inj hs
    refine ⟨qs, h.keep rfl rfl rfl rfl rfl ?_ ⟨by rintro ⟨⟩, hal.2⟩⟩
    rw [hfs]
    rfl

theorem Sim.next (h : Sim s qs q) {k : Option Int} {pc : UrcPc} {fs : List Frame}
    (hfs : s.threads t = .urcs k pc :: fs) (hrelock : ¬s.Relocks t)
    (hs : s.urcStep t k fs pc = some s') :
    ∃ q', accepts (Fifo.step Urc.view) q (s.emitted (t, .next) s').toList = some q' ∧
      ∃ qs', Sim s' qs' q' := by
  have htr := h.linked.tracks
  have hdeq := h.deq t
  have hal := h.alone t
  rw [hfs] at hdeq hal
  obtain ⟨hhead, halone⟩ := hal
  have hok := hrelock
  simp only [Relocks, hfs] at hok
  simp only [emitted, hfs]
  cases pc with
  | start => exact ⟨q, rfl, h.tryLock hfs hrelock hs⟩
  | locked =>
    simp only [urcStep] at hs
    split at hs
    · next hav =>
      obtain rfl := Option.some.inj hs
      obtain ⟨he, hav'⟩ := h.closed hav hok
      have hpeek : s.st.client.urcQueue.peekEntry = qs.q.peekEntry := by
        rw [peekEntry, peekEntry, htr.data.bufferPos]
      have hst : qs.step (.dequeuePeek t) = some (⟨qs.q, qs.enq,
          Function.update qs.deq t (.checked qs.q.peekEntry)⟩,
          if qs.q.peekEntry = none then some .empty else none) := by
        simp only [QueueSys.step, hdeq, deqPc, hav', and_self, ↓reduceIte]
      rw [hpeek]
      obtain ⟨qs', q', hacc, hsim⟩ := h.urc t k (.checked qs.q.peekEntry) fs hst
        (by rintro _ ⟨⟩) htr.data rfl h.lock (fun _ => rfl) ⟨fun _ => hhead rfl, halone⟩
      exact ⟨q', hacc, qs', hsim⟩
    · cases hs
  | checked p =>
    cases p with
    | none =>
      obtain rfl := Option.some.inj hs
      have hown : s.st.client.urcQueue.dequeueMutex.owner = some t :=
        h.lock.owner.trans (htr.rep.dequeueMutex t (by simp [hdeq]))
      have hst : qs.step (.dequeueHand t) = some (⟨handEntry t qs.q none, qs.enq,
          Function.update qs.deq t (deqPc fs)⟩, none) := by
        simp only [QueueSys.step, hdeq, deqPc, hhead rfl]
      have h0 := htr.data
      obtain ⟨qs', q', hacc, hsim⟩ := h.urc t k .done fs hst (by rintro _ ⟨⟩)
        (show SameData (handEntry t s.st.client.urcQueue none) (handEntry t qs.q none) from
          ⟨h0.1, h0.2, h0.3, h0.4, h0.5, h0.6⟩) rfl (h.lock.unlock hown) (fun _ => rfl) ⟨by rintro ⟨⟩, halone⟩
      exact ⟨q', hacc, qs', hsim⟩
    | some p =>
      obtain rfl := Option.some.inj hs
      have h0 := htr.data
      have hview : s.st.client.urcQueue.viewHead = qs.q.viewHead := by
        rw [viewHead, viewHead, h0.strLineLen, h0.payloadSize, h0.entrySize, h0.pBuffer]
      have hst : qs.step (.dequeueHand t) = some (⟨handEntry t qs.q (some p), qs.enq,
          Function.update qs.deq t (.holding p)⟩, some (.front qs.q.viewHead)) := by
        simp only [QueueSys.step, hdeq, deqPc]
      have hmain : ∀ pc : UrcPc, pc = .callback p ∨ pc = .called p →
          ∃ qs' q', accepts (Fifo.step Urc.view) q [.front qs.q.viewHead] = some q' ∧
            Sim (s.set t { s.st.client with urcQueue := handEntry t s.st.client.urcQueue (some p) }
              (.urcs k pc :: fs)) qs' q' := by
        intro pc hpc
        have hdp : deqPc (.urcs k pc :: fs) = .holding p := by
          rcases hpc with rfl | rfl <;> rfl
        rw [← hdp] at hst
        exact h.urc t k pc fs hst (by rintro _ ⟨⟩) ⟨h0.1, h0.2, h0.3, h0.4, rfl, h0.6⟩ rfl h.lock
          (fun _ => rfl) ⟨fun _ => hhead rfl, halone⟩
      obtain ⟨qs', q', hacc, hsim⟩ :=
        hmain (if s.st.client.urcCallback then .callback p else .called p) (by split <;> simp)
      rw [hview]
      exact ⟨q', hacc, qs', hsim⟩
  | callback p => cases hs
  | called p =>
    simp only [urcStep] at hs
    split at hs
    · next hav =>
      obtain rfl := Option.some.inj hs
      obtain ⟨he, hav'⟩ := h.closed hav hok
      have hst : qs.step (.dequeuePop t) = some (⟨qs.q.popEntry p, qs.enq,
          Function.update qs.deq t .ending⟩, some .pop) := by
        simp only [QueueSys.step, hdeq, deqPc, hav', ↓reduceIte]
      have hlock : Mutex.HeldAlike (s.st.client.urcQueue.popEntry p).dequeueMutex
          (qs.q.popEntry p).dequeueMutex := by
        rw [dequeueMutex_popEntry, dequeueMutex_popEntry]
        exact h.lock
      obtain ⟨qs', q', hacc, hsim⟩ := h.urc t k .popped fs hst (by rintro _ ⟨⟩) (htr.data.popEntry p)
        (queueMutex_popEntry _ _) hlock (fun hne => absurd he hne) ⟨fun _ => hhead rfl, halone⟩
      exact ⟨q', hacc, qs', hsim⟩
    · cases hs
  | popped =>
    obtain rfl := Option.some.inj hs
    have hown : s.st.client.urcQueue.dequeueMutex.owner = some t :=
      h.lock.owner.trans (htr.rep.dequeueMutex t (by simp [hdeq]))
    have hst : qs.step (.dequeueRelease t) = some (⟨releaseDequeue t qs.q, qs.enq,
        Function.update qs.deq t (deqPc fs)⟩, none) := by
      simp only [QueueSys.step, hdeq, deqPc, hhead rfl, ↓reduceIte]
    have h0 := htr.data
    obtain ⟨qs', q', hacc, hsim⟩ := h.urc t k .start fs hst (by rintro _ ⟨⟩)
      (show SameData (releaseDequeue t s.st.client.urcQueue) (releaseDequeue t qs.q) from
        ⟨h0.1, h0.2, h0.3, h0.4, rfl, h0.6⟩) rfl (h.lock.unlock hown) (fun _ => rfl) ⟨by rintro ⟨⟩, halone⟩
    exact ⟨q', hacc, qs', hsim⟩
  | done =>
    obtain rfl := Option.some.inj hs
    refine ⟨q, rfl, qs, h.keep rfl rfl rfl rfl rfl ?_ halone⟩
    rw [hfs]
    rfl

/-- A URC callback changes a data byte of its entry. -/
theorem Sim.writeEntry (h : Sim s qs q) {i : Nat} {b : UInt8}
    (hs : s.step (t, .writeEntry i b) = some s') : ∃ qs', Sim s' qs' q := by
  simp only [step] at hs
  split at hs
  · next k p fs hfs =>
    have htr := h.linked.tracks
    have hdeq := h.deq t
    have hal := h.alone t
    rw [hfs] at hdeq hal
    split at hs
    · next hi =>
      rw [hfs] at hs
      obtain rfl := Option.some.inj hs
      rw [htr.data.entrySize] at hi
      have hst : qs.step (.writeData t i b) = some (⟨{ qs.q with
          pBuffer := ByteMem.store qs.q.pBuffer (p + sizeofUrcEntry + i) [b] }, qs.enq,
          Function.update qs.deq t (deqPc (.urcs k (.callback p) :: fs))⟩, none) := by
        have hself : Function.update qs.deq t (.holding p) = qs.deq := by
          rw [show QueueSys.DeqPc.holding p = qs.deq t from hdeq.symm]
          exact Function.update_eq_self t qs.deq
        simp only [deqPc] at hdeq
        simp only [QueueSys.step, deqPc, hdeq, hi, ↓reduceIte, hself]
      obtain ⟨qs', q', hacc, hsim⟩ := h.urc t k (.callback p) fs hst (by rintro _ ⟨⟩) (htr.data.store _ [b]) rfl
        h.lock (fun _ => rfl) hal
      obtain rfl : q = q' := Option.some.inj hacc
      exact ⟨qs', hsim⟩
    · cases hs
  · cases hs

/-- **Each step does to the abstract queue what it is observed to do.** -/
theorem Sim.step (h : Sim s qs q) (hok : Guarded s (t, a)) (hs : s.step (t, a) = some s') :
    ∃ q', accepts (Fifo.step Urc.view) q (s.emitted (t, a) s').toList = some q' ∧
      ∃ qs', Sim s' qs' q' := by
  have quiet : s.emitted (t, a) s' = none → (∃ qs', Sim s' qs' q) →
      ∃ q', accepts (Fifo.step Urc.view) q (s.emitted (t, a) s').toList = some q' ∧
        ∃ qs', Sim s' qs' q' := by
    intro he hsim
    rw [he]
    exact ⟨q, rfl, hsim⟩
  have hal := h.alone t
  have user : ∀ client : AtClient, client.urcQueue = s.st.client.urcQueue →
      client.isBinaryRx = s.st.client.isBinaryRx → client.binaryRx = s.st.client.binaryRx →
      (if userCode (s.threads t) then some (s.set t client (s.threads t)) else none) = some s' →
      ∃ qs', Sim s' qs' q := by
    intro client hq hb hx hs
    split at hs
    · obtain rfl := Option.some.inj hs
      exact ⟨qs, h.keep rfl hq hb hx rfl rfl hal⟩
    · cases hs
  cases a with
  | next =>
    simp only [Sys.step] at hs
    split at hs
    · next k pc fs hfs => exact h.next hfs (hok.relock rfl) hs
    · cases hs
  | writeEntry i b => exact quiet rfl (h.writeEntry hs)
  | setCommandTimeout ms perm =>
    exact quiet rfl (user (s.st.client.setCommandTimeout ms perm) rfl rfl rfl hs)
  | setUrcCallback urcCallback =>
    exact quiet rfl (user { s.st.client with urcCallback } rfl rfl rfl hs)
  | clientOpen => exact quiet rfl (user { s.st.client with opened := true } rfl rfl rfl hs)
  | clientClose => exact quiet rfl (user { s.st.client with opened := false } rfl rfl rfl hs)
  | read r now =>
    have done : ∀ st : AtState, s'.st.client.urcQueue = st.client.urcQueue →
        (∃ qs', Sim s' qs' (q.push (s.st.client.urcQueue.queued st.client.urcQueue))) →
        ∃ q', accepts (Fifo.step Urc.view) q (s.emitted (t, .read r now) s').toList = some q' ∧
          ∃ qs', Sim s' qs' q' := by
      intro st hq hsim
      refine ⟨_, ?_, hsim⟩
      simp only [emitted, hq]
      cases s.st.client.urcQueue.queued st.client.urcQueue with
      | none => simp [accepts, run, Fifo.State.push_none]
      | some u => simp [accepts, run, Fifo.step, Fifo.State.push]
    have hshort := hok.short r now rfl
    cases step_effect hs with
    | user hu hc =>
      simp only [Sys.step] at hs
      split at hs
      · next hg =>
        exact absurd hg.1 (by simp [not_inRx_of_userCode hu])
      · cases hs
    | readMore hrx => exact done _ rfl (h.read hrx hshort)
    | readStay hrx => exact done _ rfl (h.read hrx hshort)
    | rxDone hrx hfs =>
      obtain ⟨qs', hsim⟩ := h.read hrx hshort
      rw [hfs] at hal
      refine done _ rfl ⟨qs', hsim.keep rfl rfl rfl rfl rfl ?_ ⟨by rintro ⟨⟩, hal⟩⟩
      simp [hfs]
    | rspDone hrx hfs =>
      obtain ⟨qs', hsim⟩ := h.read hrx hshort
      rw [hfs] at hal
      refine done _ rfl ⟨qs', hsim.keep rfl rfl rfl rfl rfl ?_ hal⟩
      simp [hfs]
    | endDone hrx hfs =>
      obtain ⟨qs', hsim⟩ := h.read hrx hshort
      rw [hfs] at hal
      refine done _ rfl ⟨qs', hsim.keep rfl rfl rfl rfl rfl ?_ ⟨by rintro ⟨⟩, hal⟩⟩
      simp [hfs]
  | cmdBeginF now =>
    apply quiet rfl
    simp only [Sys.step] at hs
    split at hs
    · obtain rfl := Option.some.inj hs
      exact ⟨qs, h.keep rfl rfl rfl rfl rfl rfl hal⟩
    · cases hs
  | getRspParamLine p buf =>
    apply quiet rfl
    simp only [Sys.step] at hs
    split at hs
    · next pRet fs hfs =>
      rw [hfs] at hal
      obtain rfl := Option.some.inj hs
      refine ⟨qs, h.keep rfl rfl rfl rfl rfl ?_ ?_⟩
      · split <;> simp [hfs]
      · split <;> exact hal
    · cases hs
  | cmdEnd =>
    apply quiet rfl
    simp only [Sys.step] at hs
    split at hs
    · next pRet fs hfs =>
      rw [hfs] at hal
      split at hs
      · obtain rfl := Option.some.inj hs
        exact ⟨qs, h.keep rfl rfl rfl rfl rfl (by simp [hfs]) hal⟩
      · obtain rfl := Option.some.inj hs
        exact ⟨qs, h.keep rfl rfl rfl rfl rfl (by simp [hfs]) ⟨by rintro ⟨⟩, hal⟩⟩
    · cases hs
  | handleRx =>
    apply quiet rfl
    simp only [Sys.step] at hs
    split at hs
    · split at hs
      · cases hs
        exact ⟨qs, h⟩
      split at hs
      · split at hs
        · obtain rfl := Option.some.inj hs
          exact ⟨qs, h.keep rfl rfl rfl rfl rfl rfl ⟨by rintro ⟨⟩, hal⟩⟩
        · obtain rfl := Option.some.inj hs
          exact ⟨qs, h.keep rfl rfl rfl rfl rfl rfl hal⟩
      · cases hs
    · cases hs
  | writeMem mem =>
    apply quiet rfl
    simp only [Sys.step] at hs
    split at hs
    · obtain rfl := Option.some.inj hs
      exact ⟨qs, h.keep (Function.update_eq_self t s.threads).symm rfl rfl rfl rfl rfl hal⟩
    · cases hs
  | callbackReturn =>
    apply quiet rfl
    simp only [Sys.step] at hs
    split at hs
    · next k p fs hfs =>
      rw [hfs] at hal
      obtain rfl := Option.some.inj hs
      exact ⟨qs, h.keep rfl rfl rfl rfl rfl (by simp [hfs]) hal⟩
    · cases hs

end

/-! ## The main theorem -/

section
variable {reentrant : Bool} {rxBufferLen : Nat} {pUrcBuffer : List UInt8} {mem : CallerMem} {s : Sys}
  {es : List QueueSys.Ev}

theorem sim_of_trace (hlen : pUrcBuffer.length < 2 ^ 31)
    (h : Trace observe Guarded (init reentrant rxBufferLen pUrcBuffer mem) s es) :
    ∃ q, accepts (Fifo.step Urc.view) Fifo.empty es = some q ∧ ∃ qs, Sim s qs q := by
  refine trace_refines (R := fun s q => ∃ qs, Sim s qs q) ⟨_, sim_init reentrant rxBufferLen mem hlen⟩
    (fun s q ta s' e hR hok hs => ?_) h
  obtain ⟨qs, hsim⟩ := hR
  obtain ⟨s1, h1, h2⟩ := Option.map_eq_some_iff.1 hs
  cases h2
  exact hsim.step hok h1

/-- An empty queue: every URC has been handed out. -/
theorem handed_of_empty (hlen : pUrcBuffer.length < 2 ^ 31)
    (h : Trace observe Guarded (init reentrant rxBufferLen pUrcBuffer mem) s es)
    (hpos : s.st.client.urcQueue.bufferPos = 0) :
    Fifo.handed es = (Fifo.pushed es).map Urc.view := by
  obtain ⟨q, hacc, qs, hsim⟩ := sim_of_trace hlen h
  have htr := hsim.linked.tracks
  have hitems : q.items = [] := htr.rep.items_nil (htr.data.bufferPos ▸ hpos)
  have := Fifo.conservation (by simp [Fifo.empty]) hacc
  simpa [Fifo.State.waiting, Fifo.empty, hitems] using this.symm

/-- **Every URC is handed out once and in order**, and the assertions of the queue hold. -/
theorem handed_in_order (hlen : pUrcBuffer.length < 2 ^ 31)
    (h : Trace observe Guarded (init reentrant rxBufferLen pUrcBuffer mem) s es) :
    Fifo.handed es <+: (Fifo.pushed es).map Urc.view ∧
    (s.st.client.urcQueue.bufferPos = 0 → Fifo.handed es = (Fifo.pushed es).map Urc.view) ∧
    s.st.client.urcQueue.assertFailed = false ∧
    ∀ t, processing (s.threads t) ≤ 1 ∧
      (0 < processing (s.threads t) → ∀ u, u ≠ t → processing (s.threads u) = 0) := by
  obtain ⟨q, hacc, qs, hsim⟩ := sim_of_trace hlen h
  have htr := hsim.linked.tracks
  refine ⟨Fifo.handed_prefix hacc, handed_of_empty hlen h, ?_, fun t => ?_⟩
  · rw [htr.data.assertFailed]
    exact htr.asserted.passed
  · obtain ⟨h1, h2⟩ := (hsim.alone t).processing
    refine ⟨h1, fun hpos u hut => ?_⟩
    obtain ⟨p, hp⟩ := h2 hpos
    have hni : qs.deq t ≠ .idle := by
      rw [hsim.deq t, hp]
      nofun
    have hidle := htr.rep.idle_of_ne hni hut
    rw [hsim.deq u] at hidle
    apply Nat.eq_zero_of_not_pos
    intro hu
    obtain ⟨p', hp'⟩ := (hsim.alone u).processing.2 hu
    rw [hidle] at hp'
    cases hp'

end

/-- A client with a line buffer of 16 bytes and a URC buffer of 32 bytes. -/
def tiny (reentrant : Bool) : Sys :=
  init reentrant 16 (List.replicate 32 0) ⟨fun _ _ => 0, fun _ => 0⟩

/-- The URC `+A` is handed to a callback that runs a command, up to the `processUrcs` of its
`cmdEnd`. -/
def commandInCallback : List (Nat × Act) :=
  [(0, .clientOpen), (0, .setUrcCallback true), (0, .handleRx)] ++ reads 0 (text "+A\r") ++
    [(0, .read (.got []) 0), (0, .next), (0, .next), (0, .next), (0, .cmdBeginF 0), (0, .cmdEnd)] ++
    reads 0 (text "OK\r")

/-- With ordinary mutexes `processUrcs` returns at once; the outer one goes on and finds nothing
more. -/
theorem handed_in_order_command_in_callback : ∃ s es,
    Trace observe Guarded (tiny false) s es ∧
    s.threads 0 = [] ∧ Fifo.handed es = [⟨2, 0, [43, 65, 0]⟩] ∧
    Fifo.handed es = (Fifo.pushed es).map Urc.view := by
  let check (s : Sys) (_ : Nat × Act) : Bool := decide (s.st.client.rxBuffer.length < 65536) &&
    !s.st.client.urcQueue.dequeueMutex.reentrant && !s.st.client.urcQueue.queueMutex.reentrant
  have hcheck : ∀ s ta, check s ta = true → Guarded s ta := by
    intro s ta h
    simp only [check, Bool.and_eq_true, decide_eq_true_eq, Bool.not_eq_true'] at h
    exact ⟨fun _ _ _ _ _ _ => h.1.1, fun _ => not_relocks h.1.2 h.2 ta.1⟩
  obtain ⟨⟨s, es⟩, hs, hp⟩ := Option.map_eq_some_iff.1 (show (traceIf check observe (tiny false)
    (commandInCallback ++ List.replicate 2 (0, .next) ++ [(0, .callbackReturn)] ++
      List.replicate 6 (0, .next))).map
    (fun r => (r.1.threads 0, Fifo.handed r.2, r.1.st.client.urcQueue.bufferPos)) =
      some ([], [⟨2, 0, [43, 65, 0]⟩], 0) by decide)
  have htr : Trace observe Guarded (tiny false) s es := Trace.nil.traceIf hcheck hs
  simp only [Prod.mk.injEq] at hp
  exact ⟨s, es, htr, hp.1, hp.2.1, (handed_in_order (by decide) htr).2.1 hp.2.2⟩

/-- A mutex that its owner can lock again: the `processUrcs` of the command hands out the entry that
the callback is processing, and the assertion `pDequeueEntry == NULL` fails. -/
theorem nested_processUrcs : ∃ s es, Trace observe anyStep (tiny true) s es ∧
    Fifo.pushed es = [⟨[43, 65], []⟩] ∧
    Fifo.handed es = [⟨2, 0, [43, 65, 0]⟩, ⟨2, 0, [43, 65, 0]⟩] ∧
    processing (s.threads 0) = 2 ∧ s.st.client.urcQueue.assertFailed = true := by
  obtain ⟨⟨s, es⟩, hs, hp⟩ := Option.map_eq_some_iff.1 (show (traceIf (fun _ _ => true) observe
    (tiny true) (commandInCallback ++ List.replicate 3 (0, .next))).map
    (fun r => (Fifo.pushed r.2, Fifo.handed r.2, processing (r.1.threads 0),
      r.1.st.client.urcQueue.assertFailed)) =
      some ([⟨[43, 65], []⟩], [⟨2, 0, [43, 65, 0]⟩, ⟨2, 0, [43, 65, 0]⟩], 2, true) by decide)
  have htr : Trace observe anyStep (tiny true) s es := Trace.nil.traceIf (fun _ _ _ => trivial) hs
  simp only [Prod.mk.injEq] at hp
  exact ⟨s, es, htr, hp⟩

end Sys
