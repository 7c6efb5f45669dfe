import UcxClient.Threads.Handed
import UcxClient.Threads.QueueLock

/-!
# URCs that nobody hands out

`processUrcs` gives up when `dequeueMutex` is taken, for its holder will look at the queue again,
unless it has already found it empty. `none_stranded`: with ordinary mutexes, as long as no thread
gives up on a holder that has (`Overtakes`), the queue is empty when all calls have returned. The
invariant is `Awaited`: while there are entries, some thread is in a call that is going to look.
-/

open Transition UrcQueue

/-- The call is past the try-lock of `uCxAtUrcQueueDequeueBegin`. -/
def Frame.dequeues : Frame → Bool
  | .urcs _ pc => pc.active
  | _ => false

/-- The call is going to look at the queue. -/
def Frame.pending : Frame → Bool
  | .urcs _ .done | .urcs _ (.checked none) => false
  | _ => true

namespace Sys

/-- Thread `t` is about to give up on a thread that has found the queue empty, while it is not. -/
def Overtakes (s : Sys) (t : Nat) : Prop :=
  (∃ k fs, s.threads t = .urcs k .start :: fs) ∧ 0 < s.st.client.urcQueue.committed ∧
  ∃ u k, s.st.client.urcQueue.dequeueMutex.owner = some u ∧
    Frame.urcs k (.checked none) ∈ s.threads u

/-- A thread that gives up leaves the queue to one that will look at it. -/
def Attended (s : Sys) (ta : Nat × Act) : Prop := ta.2 = .next → ¬s.Overtakes ta.1

structure Awaited (s : Sys) : Prop where
  plain : s.st.client.urcQueue.queueMutex.reentrant = false
  ordinary : s.st.client.urcQueue.dequeueMutex.Ordinary
  holder : ∀ u, s.st.client.urcQueue.dequeueMutex.owner = some u →
    ∃ f ∈ s.threads u, f.dequeues = true
  held : s.st.client.Receiving .urc → s.st.client.urcQueue.queueMutex.owner ≠ none
  entry : ¬s.st.client.Receiving .urc → s.st.client.urcQueue.pEnqueueEntry = none
  rxOk : AtState.RxOk s.st.client
  awaited : 0 < s.st.client.urcQueue.committed → ∃ u, ∃ f ∈ s.threads u, f.pending = true

theorem awaited_init (n : Nat) (pUrcBuffer : List UInt8) (mem : CallerMem) :
    Awaited (init false n pUrcBuffer mem) where
  plain := rfl
  ordinary := Mutex.ordinary_create
  holder := nofun
  held := fun hr => nomatch hr.1
  entry := fun _ => rfl
  rxOk := AtState.rxOk_of_not_binary rfl rfl
  awaited := nofun

section
variable {s s' : Sys} {t : Nat} {a : Act} {fs' : List Frame}

/-- What is on the stack of some thread stays there if it is not on that of `t`, or stays there. -/
theorem mem_update {threads : Nat → List Frame} {p : Frame → Bool} {u : Nat}
    (h : ∃ f ∈ threads u, p f = true)
    (hsub : ∀ f ∈ threads t, p f = true → ∃ f' ∈ fs', p f' = true) :
    ∃ f ∈ Function.update threads t fs' u, p f = true := by
  obtain ⟨f, hf, hp⟩ := h
  by_cases hut : u = t
  · subst hut
    rw [Function.update_self]
    exact hsub f hf hp
  · rw [Function.update_of_ne hut]
    exact ⟨f, hf, hp⟩

/-- A step that changes neither the entries nor the locks of the queue. -/
theorem Awaited.keep (h : Awaited s) (hth : s'.threads = Function.update s.threads t fs')
    (hq : SameData s'.st.client.urcQueue { s.st.client.urcQueue with
      pBuffer := s'.st.client.urcQueue.pBuffer })
    (hm : s'.st.client.urcQueue.queueMutex = s.st.client.urcQueue.queueMutex)
    (hd : s'.st.client.urcQueue.dequeueMutex = s.st.client.urcQueue.dequeueMutex)
    (hb : s'.st.client.isBinaryRx = s.st.client.isBinaryRx)
    (hx : s'.st.client.binaryRx = s.st.client.binaryRx)
    (hdeq : ∀ f ∈ s.threads t, f.dequeues = true → ∃ f' ∈ fs', f'.dequeues = true)
    (hpend : ∀ f ∈ s.threads t, f.pending = true → ∃ f' ∈ fs', f'.pending = true) : Awaited s' := by
  have hrec : s'.st.client.Receiving .urc ↔ s.st.client.Receiving .urc := by
    rw [AtClient.Receiving, AtClient.Receiving, hb, hx]
  have hcom : s'.st.client.urcQueue.committed = s.st.client.urcQueue.committed := hq.committed
  refine ⟨by rw [hm]; exact h.plain, by rw [hd]; exact h.ordinary, fun u hu => ?_, fun hr => ?_,
    fun hn => ?_, h.rxOk.congr hb hx, fun hpos => ?_⟩
  · rw [hd] at hu
    rw [hth]
    exact mem_update (h.holder u hu) hdeq
  · rw [hm]
    exact h.held (hrec.1 hr)
  · exact hq.pEnqueueEntry.trans (h.entry (mt hrec.2 hn))
  · rw [hcom] at hpos
    obtain ⟨u, hu⟩ := h.awaited hpos
    rw [hth]
    exact ⟨u, mem_update hu hpend⟩

/-- A call that is going to look at the queue is on the stack now. -/
theorem Awaited.top (h : Awaited s) (hth : s'.threads = Function.update s.threads t fs')
    (hm : s'.st.client.urcQueue.queueMutex = s.st.client.urcQueue.queueMutex)
    (hord : s'.st.client.urcQueue.dequeueMutex.Ordinary)
    (hown : ∀ u, s'.st.client.urcQueue.dequeueMutex.owner = some u →
      ∃ f ∈ s'.threads u, f.dequeues = true)
    (hp : s'.st.client.urcQueue.pEnqueueEntry = s.st.client.urcQueue.pEnqueueEntry)
    (hb : s'.st.client.isBinaryRx = s.st.client.isBinaryRx)
    (hx : s'.st.client.binaryRx = s.st.client.binaryRx)
    (hpend : ∃ f ∈ fs', f.pending = true) : Awaited s' := by
  have hrec : s'.st.client.Receiving .urc ↔ s.st.client.Receiving .urc := by
    rw [AtClient.Receiving, AtClient.Receiving, hb, hx]
  refine ⟨by rw [hm]; exact h.plain, hord, hown, fun hr => ?_, fun hn => ?_, h.rxOk.congr hb hx,
    fun _ => ⟨t, ?_⟩⟩
  · rw [hm]
    exact h.held (hrec.1 hr)
  · exact hp.trans (h.entry (mt hrec.2 hn))
  · rw [hth, Function.update_self]
    exact hpend

/-- A thread that may lock `queueMutex` finds no open enqueue. -/
theorem Awaited.closed (h : Awaited s) (hav : s.st.client.urcQueue.queueMutex.available t = true) :
    s.st.client.urcQueue.pEnqueueEntry = none := by
  apply h.entry
  intro hr
  have hown := h.held hr
  simp only [Mutex.available, h.plain, Bool.false_and, Bool.or_false,
    Option.isNone_iff_eq_none] at hav
  exact hown hav

/-- The try-lock. -/
theorem Awaited.tryLock (h : Awaited s) {k : Option Int} {fs : List Frame}
    (hfs : s.threads t = .urcs k .start :: fs) (hok : ¬s.Overtakes t)
    (hs : s.urcStep t k fs .start = some s') : Awaited s' := by
  by_cases hown : s.st.client.urcQueue.dequeueMutex.owner = none
  · have hav : s.st.client.urcQueue.dequeueMutex.available t = true := by
      simp [Mutex.available, hown]
    simp only [urcStep, tryLockDequeue, hav, ↓reduceIte] at hs
    obtain rfl := Option.some.inj hs
    have hl := Mutex.lock_of_free t hown
    refine h.top rfl (queueMutex_assert _ _) ?_ ?_ (pEnqueueEntry_assert _ _) rfl rfl
      ⟨_, List.mem_cons_self, rfl⟩
    · simp only [set, dequeueMutex_assert, hl]
      exact ⟨h.ordinary.plain, by rintro ⟨⟩, by simp [h.ordinary.free hown]⟩
    · intro u hu
      simp only [set, dequeueMutex_assert, hl, Option.some.injEq] at hu
      subst hu
      exact ⟨.urcs k .locked, by simp [set], rfl⟩
  · have hav : s.st.client.urcQueue.dequeueMutex.available t = false := by
      simp [Mutex.available, h.ordinary.plain, Option.isSome_iff_ne_none, hown]
    simp only [urcStep, tryLockDequeue, hav, Bool.false_eq_true, ↓reduceIte] at hs
    obtain rfl := Option.some.inj hs
    have hdeq : ∀ f ∈ s.threads t, f.dequeues = true →
        ∃ f' ∈ Frame.urcs k .done :: fs, f'.dequeues = true := by
      intro f hf hd
      rw [hfs] at hf
      rcases List.mem_cons.1 hf with rfl | hf
      · cases hd
      · exact ⟨f, List.mem_cons_of_mem _ hf, hd⟩
    refine ⟨h.plain, h.ordinary, fun u hu => mem_update (h.holder u hu) hdeq, h.held, h.entry,
      h.rxOk.congr rfl rfl, fun hpos => ?_⟩
    -- the holder is going to look at the queue again
    obtain ⟨u, hu⟩ := Option.ne_none_iff_exists'.1 hown
    obtain ⟨f, hf, hd⟩ := h.holder u hu
    have hpend : f.dequeues = true ∧ f.pending = true := by
      refine ⟨hd, ?_⟩
      cases f with
      | urcs k' pc =>
        cases pc with
        | checked p =>
          cases p with
          | none => exact absurd ⟨⟨k, fs, hfs⟩, hpos, u, k', hu, hf⟩ hok
          | some p => rfl
        | done => cases hd
        | _ => rfl
      | _ => cases hd
    have hboth : ∃ f ∈ s.threads u, (f.dequeues && f.pending) = true :=
      ⟨f, hf, by simp [hpend.1, hpend.2]⟩
    obtain ⟨f', hf', hd'⟩ := mem_update hboth (show ∀ g ∈ s.threads t,
        (g.dequeues && g.pending) = true →
        ∃ g' ∈ Frame.urcs k .done :: fs, (g'.dequeues && g'.pending) = true by
      intro g hg hp
      rw [hfs] at hg
      rcases List.mem_cons.1 hg with rfl | hg
      · cases hp
      · exact ⟨g, List.mem_cons_of_mem _ hg, hp⟩)
    exact ⟨u, f', hf', (Bool.and_eq_true_iff.1 hd').2⟩

theorem Awaited.next (h : Awaited s) {k : Option Int} {pc : UrcPc} {fs : List Frame}
    (hfs : s.threads t = .urcs k pc :: fs) (hok : ¬s.Overtakes t)
    (hs : s.urcStep t k fs pc = some s') : Awaited s' := by
  -- a frame of `t` that is not the one on top stays where it is
  have below : ∀ {p : Frame → Bool} {pc' : UrcPc}, p (.urcs k pc) = false →
      ∀ f ∈ s.threads t, p f = true → ∃ f' ∈ Frame.urcs k pc' :: fs, p f' = true := by
    intro p pc' hp f hf hpf
    rw [hfs] at hf
    rcases List.mem_cons.1 hf with rfl | hf
    · rw [hp] at hpf
      cases hpf
    · exact ⟨f, List.mem_cons_of_mem _ hf, hpf⟩
  -- a thread that goes on dequeuing is the holder
  have holds : ∀ {pc' : UrcPc}, pc'.active = true → ∀ u,
      s.st.client.urcQueue.dequeueMutex.owner = some u →
      ∃ f ∈ Function.update s.threads t (.urcs k pc' :: fs) u, f.dequeues = true := by
    intro pc' hpc u hu
    exact mem_update (h.holder u hu) fun _ _ _ => ⟨_, List.mem_cons_self, hpc⟩
  have released := h.ordinary.unlock t
  cases pc with
  | start => exact h.tryLock hfs hok hs
  | locked =>
    simp only [urcStep] at hs
    split at hs
    · next hav =>
      obtain rfl := Option.some.inj hs
      refine ⟨h.plain, h.ordinary, holds rfl, h.held, h.entry, h.rxOk.congr rfl rfl, fun hpos => ?_⟩
      have hpeek : s.st.client.urcQueue.peekEntry = some 0 := by
        have hpos' : 0 < s.st.client.urcQueue.committed := hpos
        rw [committed, h.closed hav] at hpos'
        exact if_pos hpos'
      refine ⟨t, .urcs k (.checked (some 0)), ?_, rfl⟩
      simp [set, hpeek]
    · cases hs
  | checked p =>
    cases p with
    | none =>
      obtain rfl := Option.some.inj hs
      refine ⟨h.plain, released.2, fun u hu => ?_, h.held, h.entry, h.rxOk.congr rfl rfl,
        fun hpos => ?_⟩
      · simp only [set, handEntry, released.1] at hu
        cases hu
      · obtain ⟨u, hu⟩ := h.awaited hpos
        exact ⟨u, mem_update hu (below rfl)⟩
    | some p =>
      obtain rfl := Option.some.inj hs
      by_cases hcb : s.st.client.urcCallback = true
      · simp only [hcb, ↓reduceIte]
        exact h.top rfl rfl h.ordinary (holds rfl) rfl rfl rfl ⟨_, List.mem_cons_self, rfl⟩
      · simp only [hcb, Bool.false_eq_true, ↓reduceIte]
        exact h.top rfl rfl h.ordinary (holds rfl) rfl rfl rfl ⟨_, List.mem_cons_self, rfl⟩
  | callback p => cases hs
  | called p =>
    simp only [urcStep] at hs
    split at hs
    · obtain rfl := Option.some.inj hs
      have popped : ∀ uq : UrcQueue, uq.queueMutex = s.st.client.urcQueue.queueMutex →
          uq.dequeueMutex = s.st.client.urcQueue.dequeueMutex →
          uq.pEnqueueEntry = s.st.client.urcQueue.pEnqueueEntry →
          Awaited (s.set t { s.st.client with urcQueue := uq } (.urcs k .popped :: fs)) := by
        intro uq hm hd hp
        refine h.top rfl hm ?_ ?_ hp rfl rfl ⟨_, List.mem_cons_self, rfl⟩
        · exact hd ▸ h.ordinary
        · intro u hu
          exact holds rfl u (hd ▸ hu)
      exact popped _ (queueMutex_popEntry _ _) (dequeueMutex_popEntry _ _) (pEnqueueEntry_popEntry _ _)
    · cases hs
  | popped =>
    obtain rfl := Option.some.inj hs
    refine h.top rfl rfl released.2 (fun u hu => ?_) rfl rfl rfl ⟨_, List.mem_cons_self, rfl⟩
    simp only [set, releaseDequeue, released.1] at hu
    cases hu
  | done =>
    obtain rfl := Option.some.inj hs
    have rest : ∀ {p : Frame → Bool}, p (.urcs k .done) = false →
        ∀ f ∈ s.threads t, p f = true → ∃ f' ∈ fs, p f' = true := by
      intro p hp f hf hpf
      rw [hfs] at hf
      rcases List.mem_cons.1 hf with rfl | hf
      · rw [hp] at hpf
        cases hpf
      · exact ⟨f, hf, hpf⟩
    exact h.keep rfl (SameData.refl _) rfl rfl rfl rfl (rest rfl) (rest rfl)

/-- A read, behind which the thread is still in a call that is going to look at the queue. -/
theorem Awaited.read (h : Awaited s) {r : ReadStatus} {st : AtState} {ret : Option ParserCode}
    (hrx : AfterRx s t r st ret) (hth : s'.threads = Function.update s.threads t fs')
    (hq : s'.st.client.urcQueue = st.client.urcQueue)
    (hb : s'.st.client.isBinaryRx = st.client.isBinaryRx)
    (hx : s'.st.client.binaryRx = st.client.binaryRx)
    (hdeq : ∀ f ∈ s.threads t, f.dequeues = true → ∃ f' ∈ fs', f'.dequeues = true)
    (hpend : ∃ f ∈ fs', f.pending = true) : Awaited s' := by
  have hrec : s'.st.client.Receiving .urc ↔ st.client.Receiving .urc := by
    rw [AtClient.Receiving, AtClient.Receiving, hb, hx]
  have hd := hrx.effect.dequeueMutex
  refine ⟨?_, ?_, fun u hu => ?_, fun hr => ?_, fun hn => ?_, (hrx.effect.ok h.rxOk).congr hb hx,
    fun _ => ⟨t, ?_⟩⟩
  · rw [hq, hrx.reentrant h.rxOk]
    exact h.plain
  · rw [hq, hd]
    exact h.ordinary
  · rw [hq, hd] at hu
    rw [hth]
    exact mem_update (h.holder u hu) hdeq
  · rw [hq]
    exact hrx.held h.rxOk h.held (hrec.1 hr)
  · rw [hq]
    exact hrx.effect.entry h.entry (mt hrec.2 hn)
  · rw [hth, Function.update_self]
    exact hpend

theorem pending_of_inRx {fs : List Frame} (h : inRx fs = true) : ∃ f ∈ fs, f.pending = true := by
  rcases fs with _ | ⟨f, fs⟩
  · cases h
  · refine ⟨f, List.mem_cons_self, ?_⟩
    cases f with
    | urcs k pc => cases h
    | _ => rfl

/-- **While there are entries, some thread is going to look at the queue.** -/
theorem Awaited.step (h : Awaited s) (hok : Attended s (t, a)) (hs : s.step (t, a) = some s') :
    Awaited s' := by
  -- the frames that a call pushes, or leaves on the stack
  have push : ∀ {p : Frame → Bool} (top : List Frame), ∀ f ∈ s.threads t, p f = true →
      ∃ f' ∈ top ++ s.threads t, p f' = true := by
    intro p top f hf hp
    exact ⟨f, List.mem_append_right _ hf, hp⟩
  have replace : ∀ {p : Frame → Bool} {g : Frame} {fs : List Frame} (top : List Frame), s.threads t = g :: fs →
      p g = false → ∀ f ∈ s.threads t, p f = true → ∃ f' ∈ top ++ fs, p f' = true := by
    intro p g fs top hfs hg f hf hp
    rw [hfs] at hf
    rcases List.mem_cons.1 hf with rfl | hf
    · rw [hg] at hp
      cases hp
    · exact ⟨f, List.mem_append_right _ hf, hp⟩
  by_cases hnext : a = .next
  · subst hnext
    simp only [Sys.step] at hs
    split at hs
    · next k pc fs hfs => exact h.next hfs (hok rfl) hs
    · cases hs
  have holds : ∀ {fs' : List Frame},
      (∀ f ∈ s.threads t, f.dequeues = true → ∃ f' ∈ fs', f'.dequeues = true) →
      ∀ u, s.st.client.urcQueue.dequeueMutex.owner = some u →
      ∃ f ∈ Function.update s.threads t fs' u, f.dequeues = true :=
    fun hsub u hu => mem_update (h.holder u hu) hsub
  cases step_effect hs with
  | begin now hu hav hx =>
    exact h.top rfl rfl h.ordinary (holds (push [_])) rfl rfl rfl
      ⟨_, List.mem_cons_self, rfl⟩
  | expect p buf hfs hst =>
    exact h.top rfl rfl h.ordinary (holds (replace [_, _] hfs rfl)) rfl rfl rfl
      ⟨_, List.mem_cons_self, rfl⟩
  | expectLate p buf hfs hst =>
    exact h.top rfl rfl h.ordinary (holds (replace [_] hfs rfl)) rfl rfl rfl
      ⟨_, List.mem_cons_self, rfl⟩
  | endWait hfs hst =>
    exact h.top rfl rfl h.ordinary (holds (replace [_] hfs rfl)) rfl rfl rfl
      ⟨_, List.mem_cons_self, rfl⟩
  | endNow hfs hst =>
    exact h.top rfl rfl h.ordinary (holds (replace [_] hfs rfl)) rfl rfl rfl
      ⟨_, List.mem_cons_self, rfl⟩
  | rxClosed => exact h
  | rxBusy hu hav hx =>
    exact h.top rfl rfl h.ordinary (holds (push [_])) rfl rfl rfl
      ⟨_, List.mem_cons_self, rfl⟩
  | rxIdle hu hav hx =>
    exact h.top rfl rfl h.ordinary (holds (push [_])) rfl rfl rfl
      ⟨_, List.mem_cons_self, rfl⟩
  | user hu hc =>
    obtain ⟨_, _, _, _, _, rfl⟩ := hc
    exact h.keep rfl ⟨rfl, rfl, rfl, rfl, rfl, rfl⟩ rfl rfl rfl rfl (fun f hf hp => ⟨f, hf, hp⟩)
      fun f hf hp => ⟨f, hf, hp⟩
  | writeMem mem hu =>
    exact ⟨h.plain, h.ordinary, h.holder, h.held, h.entry, h.rxOk, h.awaited⟩
  | callbackReturn hfs =>
    refine h.top rfl rfl h.ordinary (holds fun _ _ _ => ⟨_, List.mem_cons_self, rfl⟩) rfl rfl rfl
      ⟨_, List.mem_cons_self, rfl⟩
  | urc | urcsDone => exact absurd rfl hnext
  | readMore hrx =>
    exact h.read hrx (Function.update_eq_self t s.threads).symm rfl rfl rfl
      (fun f hf hp => ⟨f, hf, hp⟩) (pending_of_inRx hrx.inRx)
  | readStay hrx =>
    exact h.read hrx (Function.update_eq_self t s.threads).symm rfl rfl rfl
      (fun f hf hp => ⟨f, hf, hp⟩) (pending_of_inRx hrx.inRx)
  | rxDone hrx hfs =>
    exact h.read hrx rfl rfl rfl rfl (replace [_] hfs rfl) ⟨_, List.mem_cons_self, rfl⟩
  | rspDone hrx hfs =>
    exact h.read hrx rfl rfl rfl rfl
      (fun f hf hp => by
        rw [hfs] at hf
        rcases List.mem_cons.1 hf with rfl | hf
        · cases hp
        rcases List.mem_cons.1 hf with rfl | hf
        · cases hp
        · exact ⟨f, List.mem_cons_of_mem _ hf, hp⟩)
      ⟨_, List.mem_cons_self, rfl⟩
  | endDone hrx hfs =>
    exact h.read hrx rfl rfl rfl rfl (replace [_] hfs rfl) ⟨_, List.mem_cons_self, rfl⟩

end

/-! ## The main theorem -/

section
variable {rxBufferLen : Nat} {pUrcBuffer : List UInt8} {mem : CallerMem} {s : Sys}
  {es : List QueueSys.Ev}

theorem awaited_of_trace
    (h : Trace observe Attended (init false rxBufferLen pUrcBuffer mem) s es) : Awaited s := by
  refine (reach_of_trace h).invariant (I := Awaited) ?_ fun s ta s' hI hok hs => hI.step hok hs
  rintro s rfl
  exact awaited_init rxBufferLen pUrcBuffer mem

/-- **No entry is left when every call has returned**, or is about to, and no enqueue is open: every
URC that was queued has been handed out. -/
theorem none_stranded (h : Trace observe Attended (init false rxBufferLen pUrcBuffer mem) s es)
    (hleft : ∀ u, ∀ f ∈ s.threads u, ∃ k, f = .urcs k .done)
    (hclosed : s.st.client.urcQueue.pEnqueueEntry = none) :
    s.st.client.urcQueue.bufferPos = 0 ∧
    (pUrcBuffer.length < 2 ^ 31 →
      Trace observe Guarded (init false rxBufferLen pUrcBuffer mem) s es →
      Fifo.handed es = (Fifo.pushed es).map Urc.view) := by
  have hcom : s.st.client.urcQueue.committed = s.st.client.urcQueue.bufferPos := by
    rw [committed, hclosed]
    rfl
  have hzero : s.st.client.urcQueue.bufferPos = 0 := by
    apply Nat.eq_zero_of_not_pos
    intro hpos
    obtain ⟨u, f, hf, hp⟩ := (awaited_of_trace h).awaited (hcom ▸ hpos)
    obtain ⟨k, rfl⟩ := hleft u f hf
    cases hp
  exact ⟨hzero, fun hlen hg => handed_of_empty hlen hg hzero⟩

end

/-- A step of one of the first two threads. -/
def TwoThreads (_ : Sys) (ta : Nat × Act) : Prop := ta.1 < 2

/-- The other threads stay where they are. -/
theorem idle_of_reach {s₀ s : Sys} (h : Reach step TwoThreads (· = s₀) s) {u : Nat} (hu : 2 ≤ u) :
    s.threads u = s₀.threads u := by
  refine h.invariant (I := fun s => s.threads u = s₀.threads u) (fun _ h => h ▸ rfl) ?_
  intro s ⟨t, a⟩ s' hI hok hs
  have hut : u ≠ t := by
    have : t < 2 := hok
    omega
  exact (step_threads hs hut).trans hI

/-- Thread 0 runs a command up to the point where `processUrcs` has found the queue empty; then
thread 1 receives the URC `+A`. -/
def urcBehindCheck : List (Nat × Act) :=
  [(0, .clientOpen), (0, .setUrcCallback true), (0, .cmdBeginF 0), (0, .cmdEnd)] ++
    reads 0 (text "OK\r") ++ [(0, .next), (0, .next), (1, .handleRx)] ++
    reads 1 (text "+A\r") ++ [(1, .read (.got []) 0)]

/-- Steps of two threads, of which none finds `dequeueMutex` locked. -/
def findsUnlocked (s : Sys) (ta : Nat × Act) : Bool :=
  decide (ta.1 < 2) && match s.threads ta.1 with
    | .urcs _ .start :: _ => s.st.client.urcQueue.dequeueMutex.owner.isNone
    | _ => true

/-- If thread 0 unlocks `dequeueMutex` first, thread 1 hands out the URC. -/
theorem none_stranded_two_threads : ∃ s es, Trace observe Attended (tiny false) s es ∧
    (∀ u, s.threads u = []) ∧ Fifo.pushed es = [⟨[43, 65], []⟩] ∧
    s.st.client.urcQueue.bufferPos = 0 := by
  have hcheck : ∀ s ta, findsUnlocked s ta = true → TwoThreads s ta ∧ Attended s ta := by
    intro s ta h
    obtain ⟨h1, h2⟩ := Bool.and_eq_true_iff.1 h
    refine ⟨show ta.1 < 2 from of_decide_eq_true h1, fun _ ho => ?_⟩
    obtain ⟨⟨k, fs, hfs⟩, -, u, -, hown, -⟩ := ho
    rw [hfs] at h2
    simp [hown] at h2
  obtain ⟨⟨s, es⟩, hs, hp⟩ := Option.map_eq_some_iff.1 (show (traceIf findsUnlocked observe (tiny false)
    (urcBehindCheck ++ List.replicate 2 (0, .next) ++ List.replicate 3 (1, .next) ++
      [(1, .callbackReturn)] ++ List.replicate 6 (1, .next))).map
    (fun r => (r.1.threads 0, r.1.threads 1, Fifo.pushed r.2,
      r.1.st.client.urcQueue.pEnqueueEntry)) = some ([], [], [⟨[43, 65], []⟩], none) by decide)
  have htr : Trace observe (fun s ta => TwoThreads s ta ∧ Attended s ta) (tiny false) s es :=
    Trace.nil.traceIf hcheck hs
  simp only [Prod.mk.injEq] at hp
  have hidle : ∀ u, s.threads u = [] := by
    intro u
    obtain _ | _ | u := u
    · exact hp.1
    · exact hp.2.1
    · exact idle_of_reach ((reach_of_trace htr).mono fun _ _ h => h.1) (by omega)
  have hatt := htr.mono fun _ _ h => h.2
  refine ⟨s, es, hatt, hidle, hp.2.2.1, (none_stranded hatt (fun u f hf => ?_) hp.2.2.2).1⟩
  rw [hidle u] at hf
  cases hf

/-- Otherwise the try-lock of thread 1 fails and nobody hands out the URC. -/
theorem urc_stranded : ∃ s es, Trace observe anyStep (tiny false) s es ∧
    (∀ u, s.threads u = []) ∧ s.st.client.urcQueue.pEnqueueEntry = none ∧
    Fifo.pushed es = [⟨[43, 65], []⟩] ∧ Fifo.handed es = [] ∧
    s.st.client.urcQueue.bufferPos = 7 := by
  obtain ⟨⟨s, es⟩, hs, hp⟩ := Option.map_eq_some_iff.1 (show (traceIf
    (fun _ ta => decide (ta.1 < 2)) observe (tiny false) (urcBehindCheck ++
      List.replicate 2 (1, .next) ++ List.replicate 2 (0, .next))).map
    (fun r => ((r.1.threads 0, r.1.threads 1, r.1.st.client.urcQueue.pEnqueueEntry),
      Fifo.pushed r.2, Fifo.handed r.2, r.1.st.client.urcQueue.bufferPos)) =
      some (([], [], none), [⟨[43, 65], []⟩], [], 7) by decide)
  have htr : Trace observe TwoThreads (tiny false) s es :=
    Trace.nil.traceIf (fun _ ta h => show ta.1 < 2 from of_decide_eq_true h) hs
  simp only [Prod.mk.injEq] at hp
  refine ⟨s, es, htr.mono fun _ _ _ => trivial, fun u => ?_, hp.1.2.2, hp.2⟩
  match u with
  | 0 => exact hp.1.1
  | 1 => exact hp.1.2.1
  | u + 2 => exact idle_of_reach (reach_of_trace htr) (by omega)

end Sys
