import UcxClient.Lib.Transition

/-!
# The RX threads of the POSIX port (`ports/os/u_port_posix.c`)

All clients share the one record `gRxContext`. `uPortBgRxTaskCreate` clears it, puts its client there and
starts a thread of `rxTask`, which reads the record anew in every turn; `uPortBgRxTaskDestroy` sets the flag in
it and waits for the thread that it names, whichever client it is called for.

`RxSys` runs the calls of `uCxAtClientInit` and `uCxAtClientDeinit`, which come one after another, a statement
at a time between the turns of the RX threads; what they do to the client itself is left out.
`RxSys.rx_threads_separate`: while `uCxAtClientInit` is called with no client initialised only (`OneAtATime`),
each client has its own thread. A second client takes over the thread of the first
(`RxSys.second_init_redirects`), and no call that the condition excludes is harmless
(`RxSys.oneAtATime_needed`).
-/

open Transition

namespace Posix

/-! ## The threads -/

/-- `uPortRxContext_t` -/
structure RxContext where
  pClient : Option Nat
  rxThread : Option Nat
  terminateRxTask : Bool
  deriving DecidableEq

/-- Where a thread of `rxTask` is. -/
inductive RxPc where
  /-- at the condition of the loop -/
  | test
  | sleep
  | handleRx (pClient : Option Nat)
  | terminated
  | joined
  deriving DecidableEq

/-- `rxTask`, up to its next access to the record or the end of a call. -/
def rxTask (pCtx : RxContext) : RxPc → Option RxPc
  | .test => some (if pCtx.terminateRxTask then .terminated else .sleep)
  | .sleep => some (.handleRx pCtx.pClient)
  | .handleRx (some _) => some .test
  -- `uCxAtClientHandleRx` dereferences its argument
  | .handleRx none => none
  | .terminated | .joined => none

namespace RxPc

def running : RxPc → Bool
  | .terminated | .joined => false
  | _ => true

/-- The client on which the thread calls `uCxAtClientHandleRx`, now or next. -/
def client (pCtx : RxContext) : RxPc → Option Nat
  | .test => if pCtx.terminateRxTask then none else pCtx.pClient
  | .sleep => pCtx.pClient
  | .handleRx pClient => pClient
  | .terminated | .joined => none

end RxPc

/-- A thread and the client whose `uCxAtClientInit` created it. -/
structure RxThread where
  createdFor : Nat
  pc : RxPc
  deriving DecidableEq

/-! ## The calls -/

/-- The next statement of `uPortBgRxTaskCreate`. -/
inductive CreatePc where
  | memset | setClient | clearFlag | create
  deriving DecidableEq

/-- The next statement of `uPortBgRxTaskDestroy`. -/
inductive DestroyPc where
  | setFlag | join
  deriving DecidableEq

/-- A call of `uCxAtClientInit` or `uCxAtClientDeinit` that has not returned. -/
inductive Call where
  | init (pClient : Nat) (pc : CreatePc)
  | deinit (pClient : Nat) (pc : DestroyPc)
  deriving DecidableEq

structure RxSys where
  gRxContext : RxContext
  /-- all threads created so far, by their number -/
  threads : List RxThread
  /-- the clients initialised and not yet deinitialised -/
  initialised : List Nat
  call : Option Call
  deriving DecidableEq

inductive RxAct where
  | init (pClient : Nat)
  | deinit (pClient : Nat)
  /-- the next statement of the call -/
  | call
  /-- `pthread_create` fails -/
  | createFails
  | rx (t : Nat)

/-- Within a call, or between two of them. -/
def RxAct.Within : RxAct → Prop
  | .call | .rx _ => True
  | _ => False

/-- The turns that are left once the flag is set. -/
def RxPc.turnsLeft : RxPc → Nat
  | .sleep => 3
  | .handleRx _ => 2
  | .test => 1
  | .terminated | .joined => 0

namespace RxSys

/-- Before the first call. -/
def start : RxSys := ⟨⟨none, none, false⟩, [], [], none⟩

def uPortBgRxTaskCreate (s : RxSys) (pClient : Nat) : CreatePc → RxSys
  | .memset => { s with gRxContext := ⟨none, none, false⟩, call := some (.init pClient .setClient) }
  | .setClient => { s with gRxContext.pClient := some pClient, call := some (.init pClient .clearFlag) }
  | .clearFlag => { s with gRxContext.terminateRxTask := false, call := some (.init pClient .create) }
  | .create =>
    { s with
      gRxContext.rxThread := some s.threads.length
      threads := s.threads ++ [⟨pClient, .test⟩]
      initialised := pClient :: s.initialised
      call := none }

/-- It waits for the thread to end, and what waiting for no thread does is undefined. -/
def uPortBgRxTaskDestroy (s : RxSys) (pClient : Nat) : DestroyPc → Option RxSys
  | .setFlag => some { s with gRxContext.terminateRxTask := true, call := some (.deinit pClient .join) }
  | .join => do
    let t ← s.gRxContext.rxThread
    let thread ← s.threads[t]?
    if thread.pc = .terminated then
      some { s with
        threads := s.threads.set t { thread with pc := .joined }
        initialised := s.initialised.erase pClient
        call := none }
    else none

def step (s : RxSys) : RxAct → Option RxSys
  | .init pClient => if s.call = none then some { s with call := some (.init pClient .memset) } else none
  | .deinit pClient => if s.call = none then some { s with call := some (.deinit pClient .setFlag) } else none
  | .call =>
    match s.call with
    | none => none
    | some (.init pClient pc) => some (s.uPortBgRxTaskCreate pClient pc)
    | some (.deinit pClient pc) => s.uPortBgRxTaskDestroy pClient pc
  | .createFails =>
    match s.call with
    | some (.init pClient .create) => some { s with initialised := pClient :: s.initialised, call := none }
    | _ => none
  | .rx t => do
    let thread ← s.threads[t]?
    let pc ← rxTask s.gRxContext thread.pc
    some { s with threads := s.threads.set t { thread with pc } }

/-! ## What each client is promised -/

/-- The clients on which running RX threads call `uCxAtClientHandleRx`. -/
def served (s : RxSys) : List Nat := s.threads.filterMap (·.pc.client s.gRxContext)

def Running (s : RxSys) (t : Nat) : Prop := (s.threads[t]?).any (·.pc.running) = true

def CreatedFor (s : RxSys) (t c : Nat) : Prop := (s.threads[t]?).map (·.createdFor) = some c

/-- The call can return. -/
def CanReturn (s : RxSys) : Prop :=
  ∃ as s', (∀ a ∈ as, a.Within) ∧ run step s as = some s' ∧ s'.call = none

/-- Each client is served by one thread, its own. -/
structure ServedByOwn (s : RxSys) : Prop where
  calls : ∀ thread ∈ s.threads, ∀ c, thread.pc.client s.gRxContext = some c → thread.createdFor = c
  served : s.call = none → ∀ c, c ∈ s.served ↔ c ∈ s.initialised
  one : s.call = none → ∀ c ∈ s.initialised, ∃ t, ∀ u, s.Running u ∧ s.CreatedFor u c ↔ u = t

/-- `uCxAtClientDeinit` stops the threads of its client and no other. -/
structure DeinitStops (s : RxSys) (c : Nat) : Prop where
  returns : ∀ as s', (∀ a ∈ as, a.Within) → run step s (.deinit c :: as) = some s' → s'.CanReturn
  exactly : ∀ as s', (∀ a ∈ as, a.Within) → run step s (.deinit c :: as) = some s' → s'.call = none →
    ∀ t, s'.Running t ↔ s.Running t ∧ ¬s.CreatedFor t c

/-- `uCxAtClientInit` is called while no client is initialised, `uCxAtClientDeinit` for one that is, and
`pthread_create` succeeds. -/
def OneAtATime (s : RxSys) : RxAct → Prop
  | .init _ => s.initialised = []
  | .deinit c => c ∈ s.initialised
  | .createFails => False
  | .call | .rx _ => True

instance (s : RxSys) : (a : RxAct) → Decidable (s.OneAtATime a)
  | .init _ => inferInstanceAs (Decidable (s.initialised = []))
  | .deinit c => inferInstanceAs (Decidable (c ∈ s.initialised))
  | .createFails => inferInstanceAs (Decidable False)
  | .call | .rx _ => inferInstanceAs (Decidable True)

/-! ## The invariant -/

/-- No thread is left. -/
def Quiet (s : RxSys) : Prop := ∀ thread ∈ s.threads, thread.pc = .joined

/-- Thread `t` serves the only client, and all other threads are gone. -/
structure Owned (s : RxSys) (c t : Nat) : Prop where
  initialised : s.initialised = [c]
  pClient : s.gRxContext.pClient = some c
  rxThread : s.gRxContext.rxThread = some t
  thread : ∃ pc, s.threads[t]? = some ⟨c, pc⟩ ∧ pc ≠ .joined ∧
    (pc = .terminated → s.gRxContext.terminateRxTask = true) ∧ ∀ p, pc = .handleRx p → p = some c
  others : ∀ u (thread : RxThread), s.threads[u]? = some thread → u ≠ t → thread.pc = .joined

/-- The record before a statement of `uPortBgRxTaskCreate`. -/
def Prepared (c : Nat) : CreatePc → RxContext → Prop
  | .memset, _ => True
  | .setClient, pCtx => pCtx = ⟨none, none, false⟩
  | .clearFlag, pCtx | .create, pCtx => pCtx = ⟨some c, none, false⟩

def Inv (s : RxSys) : Prop :=
  match s.call with
  | none => s.initialised = [] ∧ s.Quiet ∨ ∃ c t, s.Owned c t ∧ s.gRxContext.terminateRxTask = false
  | some (.init c pc) => s.initialised = [] ∧ s.Quiet ∧ Prepared c pc s.gRxContext
  | some (.deinit c .setFlag) => ∃ t, s.Owned c t ∧ s.gRxContext.terminateRxTask = false
  | some (.deinit c .join) => ∃ t, s.Owned c t ∧ s.gRxContext.terminateRxTask = true

section
variable {s s' : RxSys} {c t u : Nat}

theorem step_init (hs : s.step (.init c) = some s') :
    s.call = none ∧ s' = { s with call := some (.init c .memset) } := by
  simp only [step] at hs
  split at hs
  · next hcall => exact ⟨hcall, (Option.some.inj hs).symm⟩
  · cases hs

theorem step_deinit (hs : s.step (.deinit c) = some s') :
    s.call = none ∧ s' = { s with call := some (.deinit c .setFlag) } := by
  simp only [step] at hs
  split at hs
  · next hcall => exact ⟨hcall, (Option.some.inj hs).symm⟩
  · cases hs

theorem step_rx (h : s.step (.rx u) = some s') : ∃ thread pc, s.threads[u]? = some thread ∧
    rxTask s.gRxContext thread.pc = some pc ∧
    s' = { s with threads := s.threads.set u { thread with pc } } := by
  simp only [step, Option.bind_eq_bind, Option.bind_eq_some_iff, Option.some.injEq] at h
  obtain ⟨thread, ht, pc, hpc, rfl⟩ := h
  exact ⟨thread, pc, ht, hpc, rfl⟩

/-- The wait returns for a thread that has ended. -/
theorem uPortBgRxTaskDestroy_join (h : s.uPortBgRxTaskDestroy c .join = some s') :
    ∃ t thread, s.gRxContext.rxThread = some t ∧ s.threads[t]? = some thread ∧ thread.pc = .terminated ∧
      s' = { s with
        threads := s.threads.set t { thread with pc := .joined }
        initialised := s.initialised.erase c
        call := none } := by
  simp only [uPortBgRxTaskDestroy, Option.bind_eq_bind, Option.bind_eq_some_iff] at h
  obtain ⟨t, hrx, thread, ht, h⟩ := h
  split at h
  · next hterm => exact ⟨t, thread, hrx, ht, hterm, (Option.some.inj h).symm⟩
  · cases h

theorem within_cases {a : RxAct} (h : a.Within) : a = .call ∨ ∃ u, a = .rx u := by
  cases a with
  | call => exact .inl rfl
  | rx u => exact .inr ⟨u, rfl⟩
  | init _ => exact h.elim
  | deinit _ => exact h.elim
  | createFails => exact h.elim

theorem Quiet.no_rx (h : s.Quiet) : s.step (.rx u) = none := by
  cases hs : s.step (.rx u) with
  | none => rfl
  | some s' =>
    obtain ⟨thread, pc, ht, hpc, -⟩ := step_rx hs
    rw [h thread (List.mem_of_getElem? ht)] at hpc
    cases hpc

theorem Inv.idle (h : s.Inv) (hcall : s.call = none) : s.initialised = [] ∧ s.Quiet ∨
    ∃ c t, s.Owned c t ∧ s.gRxContext.terminateRxTask = false := by
  simpa only [Inv, hcall] using h

/-- A turn of the thread keeps it where it may be. -/
theorem Owned.rx (h : s.Owned c t) (hs : s.step (.rx u) = some s') :
    s'.Owned c t ∧ s'.gRxContext = s.gRxContext ∧ s'.call = s.call := by
  obtain ⟨thread, pc, ht, hpc, rfl⟩ := step_rx hs
  obtain ⟨pc₀, hget, hj, hterm, hcall⟩ := h.thread
  by_cases hu : u = t
  · subst hu
    obtain rfl : ⟨c, pc₀⟩ = thread := Option.some.inj (hget.symm.trans ht)
    have hlt : u < s.threads.length := (List.getElem?_eq_some_iff.1 ht).1
    refine ⟨{ h with thread := ⟨pc, by rw [List.getElem?_set_self hlt], ?_⟩, others := ?_ }, rfl, rfl⟩
    · cases pc₀ with
      | test =>
        by_cases hf : s.gRxContext.terminateRxTask = true
        · simp only [rxTask, hf, if_pos, Option.some.injEq] at hpc
          subst hpc
          exact ⟨nofun, fun _ => hf, nofun⟩
        · simp only [rxTask, hf, Bool.false_eq_true, if_false, Option.some.injEq] at hpc
          subst hpc
          exact ⟨nofun, nofun, nofun⟩
      | sleep =>
        cases hpc
        refine ⟨nofun, nofun, fun p hp => ?_⟩
        cases hp
        exact h.pClient
      | handleRx p =>
        obtain rfl := hcall p rfl
        cases hpc
        exact ⟨nofun, nofun, nofun⟩
      | terminated => cases hpc
      | joined => cases hpc
    · intro v thread hv hne
      rw [List.getElem?_set_ne (Ne.symm hne)] at hv
      exact h.others v thread hv hne
  · rw [h.others u thread ht hu] at hpc
    cases hpc

theorem Owned.quiet (h : s.Owned c t) (thread : RxThread) :
    ∀ other ∈ s.threads.set t { thread with pc := .joined }, other.pc = .joined := by
  intro other hmem
  obtain ⟨v, hv⟩ := List.mem_iff_getElem?.1 hmem
  by_cases hvt : v = t
  · subst hvt
    obtain ⟨pc, hget, -⟩ := h.thread
    rw [List.getElem?_set_self (List.getElem?_eq_some_iff.1 hget).1] at hv
    cases hv
    rfl
  · rw [List.getElem?_set_ne (Ne.symm hvt)] at hv
    exact h.others v other hv hvt

/-- The new thread is the only one. -/
theorem Quiet.owned (h : s.Quiet) (hi : s.initialised = []) (hc : s.gRxContext = ⟨some c, none, false⟩) :
    (s.uPortBgRxTaskCreate c .create).Owned c s.threads.length where
  initialised := by simp [uPortBgRxTaskCreate, hi]
  pClient := by simp [uPortBgRxTaskCreate, hc]
  rxThread := rfl
  thread := ⟨.test, by simp [uPortBgRxTaskCreate], nofun, nofun, nofun⟩
  others := by
    intro u thread hu hne
    simp only [uPortBgRxTaskCreate] at hu
    have hlt : u < s.threads.length := by
      have := (List.getElem?_eq_some_iff.1 hu).1
      simp only [List.length_append, List.length_singleton] at this
      omega
    rw [List.getElem?_append_left hlt] at hu
    exact h thread (List.mem_of_getElem? hu)

theorem Inv.rx (h : s.Inv) (hs : s.step (.rx u) = some s') : s'.Inv := by
  unfold Inv at h ⊢
  have owned : ∀ {c t flag}, s.Owned c t ∧ s.gRxContext.terminateRxTask = flag →
      s'.call = s.call ∧ s'.Owned c t ∧ s'.gRxContext.terminateRxTask = flag := by
    rintro c t flag ⟨ho, hf⟩
    obtain ⟨ho', hctx, hcall⟩ := ho.rx hs
    exact ⟨hcall, ho', by rw [hctx, hf]⟩
  have quiet : ¬s.Quiet := fun hq => by
    rw [hq.no_rx] at hs
    cases hs
  cases hcall : s.call with
  | none =>
    rw [hcall] at h
    obtain ⟨-, hq⟩ | ⟨c, t, ho⟩ := h
    · exact absurd hq quiet
    · obtain ⟨hcall', ho'⟩ := owned ho
      rw [hcall', hcall]
      exact .inr ⟨c, t, ho'⟩
  | some call =>
    rw [hcall] at h
    match call, h with
    | .init c pc, h => exact absurd h.2.1 quiet
    | .deinit c .setFlag, ⟨t, ho⟩ =>
      obtain ⟨hcall', ho'⟩ := owned ho
      rw [hcall', hcall]
      exact ⟨t, ho'⟩
    | .deinit c .join, ⟨t, ho⟩ =>
      obtain ⟨hcall', ho'⟩ := owned ho
      rw [hcall', hcall]
      exact ⟨t, ho'⟩

theorem Inv.call (h : s.Inv) (hs : s.step .call = some s') : s'.Inv := by
  unfold Inv at h
  simp only [step] at hs
  cases hcall : s.call with
  | none =>
    rw [hcall] at hs
    cases hs
  | some call =>
    rw [hcall] at h hs
    match call, h, hs with
    | .init c .memset, ⟨hi, hq, _⟩, rfl => exact ⟨hi, hq, rfl⟩
    | .init c .setClient, ⟨hi, hq, hp⟩, rfl =>
      have hp : s.gRxContext = ⟨none, none, false⟩ := hp
      exact ⟨hi, hq, by simp only [uPortBgRxTaskCreate, Prepared, hp]⟩
    | .init c .clearFlag, ⟨hi, hq, hp⟩, rfl =>
      have hp : s.gRxContext = ⟨some c, none, false⟩ := hp
      exact ⟨hi, hq, by simp only [uPortBgRxTaskCreate, Prepared, hp]⟩
    | .init c .create, ⟨hi, hq, hp⟩, rfl =>
      exact .inr ⟨c, _, hq.owned hi hp, congrArg RxContext.terminateRxTask hp⟩
    | .deinit c .setFlag, ⟨t, ho, _⟩, rfl =>
      obtain ⟨pc, hget, hj, _, hp⟩ := ho.thread
      exact ⟨t, { ho with thread := ⟨pc, hget, hj, fun _ => rfl, hp⟩ }, rfl⟩
    | .deinit c .join, ⟨t, ho, _⟩, hs =>
      obtain ⟨u, thread, hrx, -, -, rfl⟩ := uPortBgRxTaskDestroy_join hs
      obtain rfl := Option.some.inj (ho.rxThread.symm.trans hrx)
      exact .inl ⟨by simp [ho.initialised], ho.quiet thread⟩

theorem inv_step (h : s.Inv) {a : RxAct} (hok : s.OneAtATime a) (hs : s.step a = some s') : s'.Inv := by
  cases a with
  | init c =>
    obtain ⟨hcall, rfl⟩ := step_init hs
    have hi : s.initialised = [] := hok
    obtain ⟨-, hq⟩ | ⟨d, t, ho, -⟩ := h.idle hcall
    · exact ⟨hi, hq, trivial⟩
    · rw [ho.initialised] at hi
      cases hi
  | deinit c =>
    obtain ⟨hcall, rfl⟩ := step_deinit hs
    have hmem : c ∈ s.initialised := hok
    obtain ⟨hi, -⟩ | ⟨d, t, ho, hf⟩ := h.idle hcall
    · rw [hi] at hmem
      cases hmem
    · rw [ho.initialised, List.mem_singleton] at hmem
      subst hmem
      exact ⟨t, { ho with }, hf⟩
  | call => exact h.call hs
  | createFails => exact hok.elim
  | rx u => exact h.rx hs

theorem reach_inv (h : Reach step OneAtATime (· = start) s) : s.Inv :=
  h.invariant (by rintro s rfl; exact .inl ⟨rfl, nofun⟩) fun _ _ _ hinv hok hs => inv_step hinv hok hs

theorem Inv.threads (h : s.Inv) : s.Quiet ∨ ∃ c t, s.Owned c t := by
  unfold Inv at h
  split at h
  · obtain ⟨-, hq⟩ | ⟨c, t, ho, -⟩ := h
    · exact .inl hq
    · exact .inr ⟨c, t, ho⟩
  · exact .inl h.2.1
  · exact .inr ⟨_, h.choose, h.choose_spec.1⟩
  · exact .inr ⟨_, h.choose, h.choose_spec.1⟩

/-! ## The threads between the calls -/

theorem Quiet.not_running (h : s.Quiet) (t : Nat) : ¬s.Running t := by
  intro hr
  obtain ⟨thread, hget, hrun⟩ := (Option.any_eq_true _ _).1 hr
  rw [h thread (List.mem_of_getElem? hget)] at hrun
  cases hrun

theorem Quiet.served (h : s.Quiet) : s.served = [] :=
  List.filterMap_eq_nil_iff.2 fun thread hmem => by rw [h thread hmem]; rfl

theorem Owned.createdFor (h : s.Owned c t) : s.CreatedFor t c := by
  obtain ⟨pc, hget, -⟩ := h.thread
  rw [CreatedFor, hget]
  rfl

/-- No other client is served, and no other thread serves it. -/
theorem Owned.client (h : s.Owned c t) {thread : RxThread} (hmem : thread ∈ s.threads) {d : Nat}
    (hd : thread.pc.client s.gRxContext = some d) : d = c ∧ thread.createdFor = c := by
  obtain ⟨u, hu⟩ := List.mem_iff_getElem?.1 hmem
  by_cases hut : u = t
  · subst hut
    obtain ⟨pc, hget, -, -, hp⟩ := h.thread
    obtain rfl : ⟨c, pc⟩ = thread := Option.some.inj (hget.symm.trans hu)
    refine ⟨Option.some.inj (hd.symm.trans ?_), rfl⟩
    cases pc with
    | test =>
      simp only [RxPc.client] at hd ⊢
      split at hd
      · cases hd
      · next hf => rw [if_neg hf, h.pClient]
    | sleep => exact h.pClient
    | handleRx p => exact hp p rfl
    | terminated => cases hd
    | joined => cases hd
  · rw [h.others u thread hu hut] at hd
    cases hd

theorem Owned.running_eq (h : s.Owned c t) (hr : s.Running u) : u = t := by
  obtain ⟨thread, hget, hrun⟩ := (Option.any_eq_true _ _).1 hr
  apply Classical.byContradiction
  intro hne
  rw [h.others u thread hget hne] at hrun
  cases hrun

/-- Unless it has been told to end, the thread runs and serves its client. -/
theorem Owned.serves (h : s.Owned c t) (hf : s.gRxContext.terminateRxTask = false) :
    s.Running t ∧ c ∈ s.served := by
  obtain ⟨pc, hget, hj, hterm, hp⟩ := h.thread
  have hclient : pc.running = true ∧ pc.client s.gRxContext = some c := by
    cases pc with
    | test => exact ⟨rfl, by rw [RxPc.client, hf, if_neg nofun, h.pClient]⟩
    | sleep => exact ⟨rfl, h.pClient⟩
    | handleRx p => exact ⟨rfl, hp p rfl⟩
    | terminated => rw [hterm rfl] at hf; cases hf
    | joined => exact absurd rfl hj
  refine ⟨?_, List.mem_filterMap.2 ⟨_, List.mem_of_getElem? hget, hclient.2⟩⟩
  rw [Running, hget]
  exact hclient.1

theorem Inv.servedByOwn (h : s.Inv) : s.ServedByOwn where
  calls := by
    intro thread hmem d hd
    obtain hq | ⟨c, t, ho⟩ := h.threads
    · rw [hq thread hmem] at hd
      cases hd
    · obtain ⟨rfl, hfor⟩ := ho.client hmem hd
      exact hfor
  served := by
    intro hcall d
    obtain ⟨hi, hq⟩ | ⟨c, t, ho, hf⟩ := h.idle hcall
    · rw [hq.served, hi]
    · rw [ho.initialised, List.mem_singleton]
      constructor
      · intro hd
        obtain ⟨thread, hmem, hclient⟩ := List.mem_filterMap.1 hd
        exact (ho.client hmem hclient).1
      · rintro rfl
        exact (ho.serves hf).2
  one := by
    intro hcall d hd
    obtain ⟨hi, -⟩ | ⟨c, t, ho, hf⟩ := h.idle hcall
    · rw [hi] at hd
      cases hd
    · rw [ho.initialised, List.mem_singleton] at hd
      subst hd
      refine ⟨t, fun u => ⟨fun hu => ho.running_eq hu.1, ?_⟩⟩
      rintro rfl
      exact ⟨(ho.serves hf).1, ho.createdFor⟩

/-! ## `uCxAtClientDeinit` -/

/-- Once the flag is set the thread comes to its end, and the wait for it is over. -/
theorem Owned.joined {d : Nat} (h : s.Owned c t) (hf : s.gRxContext.terminateRxTask = true)
    (hcall : s.call = some (.deinit d .join)) : ∃ as s', (∀ a ∈ as, a.Within) ∧ run step s as = some s' ∧
      s'.call = none ∧ s'.initialised = [c].erase d ∧ s'.Quiet := by
  obtain ⟨pc, hget, hj, -, hp⟩ := h.thread
  induction hn : pc.turnsLeft using Nat.strongRecOn generalizing s pc with
  | ind n ih =>
    have hlt : t < s.threads.length := (List.getElem?_eq_some_iff.1 hget).1
    have turn : ∀ pc', rxTask s.gRxContext pc = some pc' → pc' ≠ .joined → pc'.turnsLeft < n →
        ∃ as s', (∀ a ∈ as, a.Within) ∧ run step s as = some s' ∧
          s'.call = none ∧ s'.initialised = [c].erase d ∧ s'.Quiet := by
      intro pc' hpc hj' hless
      have hs : s.step (.rx t) = some { s with threads := s.threads.set t ⟨c, pc'⟩ } := by
        simp only [step, hget, hpc, Option.bind_eq_bind, Option.bind_some]
      obtain ⟨ho, -, -⟩ := h.rx hs
      have hget' : (s.threads.set t ⟨c, pc'⟩)[t]? = some ⟨c, pc'⟩ := List.getElem?_set_self hlt
      obtain ⟨_, hsame, _, _, hp'⟩ := ho.thread
      obtain rfl := congrArg RxThread.pc (Option.some.inj (hget'.symm.trans hsame))
      obtain ⟨as, s', has, hrun, hend⟩ := ih _ hless ho hf hcall pc' hget' hj' hp' rfl
      exact ⟨.rx t :: as, s', List.forall_mem_cons.2 ⟨trivial, has⟩, by rw [run, hs]; exact hrun, hend⟩
    cases pc with
    | test => exact turn .terminated (by rw [rxTask, hf]; rfl) (by rintro ⟨⟩) (by subst hn; exact Nat.lt_succ_self 0)
    | sleep => exact turn (.handleRx _) rfl (by rintro ⟨⟩) (by subst hn; exact Nat.lt_succ_self 2)
    | handleRx p =>
      obtain rfl := hp p rfl
      exact turn .test rfl (by rintro ⟨⟩) (by subst hn; exact Nat.lt_succ_self 1)
    | terminated =>
      refine ⟨[.call], { s with
        threads := s.threads.set t ⟨c, .joined⟩
        initialised := s.initialised.erase d
        call := none }, List.forall_mem_singleton.2 trivial, ?_, rfl, ?_, h.quiet ⟨c, .terminated⟩⟩
      · simp only [run, step, hcall, uPortBgRxTaskDestroy, h.rxThread, hget, Option.bind_eq_bind,
          Option.bind_some, if_pos]
      · rw [h.initialised]
    | joined => exact absurd rfl hj

/-- The thread of the client ends in the same way if the flag is still to be set, and whichever client the call
is for. -/
theorem Owned.stopped {d : Nat} {pc : DestroyPc} (h : s.Owned c t)
    (hcall : s.call = some (.deinit d pc)) (hf : s.gRxContext.terminateRxTask = (pc == .join)) :
    ∃ as s', (∀ a ∈ as, a.Within) ∧ run step s as = some s' ∧
      s'.call = none ∧ s'.initialised = [c].erase d ∧ s'.Quiet := by
  cases pc with
  | join => exact h.joined hf hcall
  | setFlag =>
    have hs : s.step .call =
        some { s with gRxContext.terminateRxTask := true, call := some (.deinit d .join) } := by
      simp only [step, hcall, uPortBgRxTaskDestroy]
    obtain ⟨pc, hget, hj, -, hp⟩ := h.thread
    obtain ⟨as, s', has, hrun, hend⟩ := Owned.joined (s := { s with
      gRxContext.terminateRxTask := true, call := some (.deinit d .join) })
      { h with thread := ⟨pc, hget, hj, fun _ => rfl, hp⟩ } rfl rfl
    exact ⟨.call :: as, s', List.forall_mem_cons.2 ⟨trivial, has⟩, by rw [run, hs]; exact hrun, hend⟩

theorem Inv.canReturn {pc : DestroyPc} (h : s.Inv) (hcall : s.call = some (.deinit c pc)) : s.CanReturn := by
  have ho : ∃ t, s.Owned c t ∧ s.gRxContext.terminateRxTask = (pc == .join) := by
    simp only [Inv, hcall] at h
    cases pc with
    | setFlag => exact h
    | join => exact h
  obtain ⟨t, ho, hf⟩ := ho
  obtain ⟨as, s', has, hrun, hend, -⟩ := ho.stopped hcall hf
  exact ⟨as, s', has, hrun, hend⟩

/-- What steps within the call leave of it. -/
theorem deinit_within {r : RxSys} {as : List RxAct} (hs : s.step (.deinit c) = some s')
    (has : ∀ a ∈ as, a.Within) (hrun : run step s' as = some r) :
    (∃ pc, r.call = some (.deinit c pc)) ∧ r.initialised = s.initialised ∨
      r.call = none ∧ r.initialised = s.initialised.erase c := by
  have hreach : Reach step (fun _ a => a.Within) (fun r => r = s') r :=
    Reach.run (.start rfl) (fun a ha _ => has a ha) hrun
  clear hrun
  induction hreach with
  | start hi =>
    obtain ⟨-, rfl⟩ := step_deinit hs
    subst hi
    exact .inl ⟨⟨_, rfl⟩, rfl⟩
  | @next r r' a _ ha hstep hr =>
    obtain rfl | ⟨u, rfl⟩ := within_cases ha
    · obtain ⟨⟨pc, hcall⟩, hi⟩ | ⟨hcall, -⟩ := hr
      · simp only [step, hcall] at hstep
        cases pc with
        | setFlag =>
          cases hstep
          exact .inl ⟨⟨_, rfl⟩, hi⟩
        | join =>
          obtain ⟨t, thread, -, -, -, rfl⟩ := uPortBgRxTaskDestroy_join hstep
          exact .inr ⟨rfl, by rw [hi]⟩
      · simp only [step, hcall] at hstep
        cases hstep
    · obtain ⟨_, _, _, _, rfl⟩ := step_rx hstep
      exact hr

theorem oneAtATime_within {a : RxAct} (h : a.Within) (s : RxSys) : s.OneAtATime a := by
  obtain rfl | ⟨u, rfl⟩ := within_cases h
  · trivial
  · trivial

theorem Inv.deinitStops (h : s.Inv) (hc : c ∈ s.initialised) : s.DeinitStops c := by
  have inv : ∀ {s₁ as r}, s.step (.deinit c) = some s₁ → (∀ a ∈ as, a.Within) → run step s₁ as = some r →
      r.Inv := by
    intro s₁ as r hs₁ has hrun
    have hreach : Reach step OneAtATime Inv s₁ := .next (.start h) (show OneAtATime s (.deinit c) from hc) hs₁
    exact (hreach.run (fun a ha r => oneAtATime_within (has a ha) r) hrun).invariant (fun _ h => h)
      fun _ _ _ hinv hok hs => inv_step hinv hok hs
  refine ⟨fun as r has hrun => ?_, fun as r has hrun hret t => ?_⟩
  · obtain ⟨s₁, hs₁, hrun⟩ := Option.bind_eq_some_iff.1 hrun
    obtain ⟨⟨pc, hcall⟩, -⟩ | ⟨hcall, -⟩ := deinit_within hs₁ has hrun
    · exact (inv hs₁ has hrun).canReturn hcall
    · exact ⟨[], r, nofun, rfl, hcall⟩
  · obtain ⟨s₁, hs₁, hrun⟩ := Option.bind_eq_some_iff.1 hrun
    obtain ⟨d, u, ho⟩ : ∃ d u, s.Owned d u := by
      obtain ⟨hi, -⟩ | ⟨d, u, ho, -⟩ := h.idle (step_deinit hs₁).1
      · rw [hi] at hc
        cases hc
      · exact ⟨d, u, ho⟩
    rw [ho.initialised, List.mem_singleton] at hc
    subst hc
    have hquiet : r.Quiet := by
      obtain ⟨-, hq⟩ | ⟨e, v, hr, -⟩ := (inv hs₁ has hrun).idle hret
      · exact hq
      · obtain ⟨⟨pc, hcall⟩, -⟩ | ⟨-, hi⟩ := deinit_within hs₁ has hrun
        · rw [hret] at hcall
          cases hcall
        · rw [hr.initialised, ho.initialised, List.erase_cons_head] at hi
          cases hi
    refine ⟨fun hr => absurd hr (hquiet.not_running t), fun ⟨hr, hnot⟩ => ?_⟩
    rw [ho.running_eq hr] at hnot
    exact absurd ho.createdFor hnot

end

/-- **One client at a time.** -/
theorem rx_threads_separate {s : RxSys} (h : Reach step OneAtATime (· = start) s) :
    s.ServedByOwn ∧ ∀ c ∈ s.initialised, s.DeinitStops c :=
  ⟨(reach_inv h).servedByOwn, fun _ hc => (reach_inv h).deinitStops hc⟩

/-- A second client after the first has been deinitialised. -/
theorem rx_threads_separate_second : ∃ s, Reach step OneAtATime (· = start) s ∧ s.call = none ∧
    s.initialised = [2] ∧ s.served = [2] ∧ s.ServedByOwn ∧ s.DeinitStops 2 := by
  have h : runIf (fun s a => decide (s.OneAtATime a)) step start
      [.init 1, .call, .call, .call, .call, .rx 0, .deinit 1, .call, .rx 0, .rx 0, .rx 0, .call,
        .init 2, .call, .call, .call, .call, .rx 1, .rx 1] =
      some ⟨⟨some 2, some 1, false⟩, [⟨1, .joined⟩, ⟨2, .handleRx (some 2)⟩], [2], none⟩ := by decide
  have hr : Reach step OneAtATime (· = start) _ := Reach.runIf (.start rfl) (fun _ _ => of_decide_eq_true) h
  exact ⟨_, hr, rfl, rfl, rfl, (rx_threads_separate hr).1, (rx_threads_separate hr).2 2 (by decide)⟩

/-- While client 1 is initialised `uCxAtClientInit` is called for client 2: both threads serve client 2, and
`uCxAtClientDeinit` of client 1 stops the thread of client 2 and leaves the one of client 1 running. -/
theorem second_init_redirects : ∃ s s', Reach step anyStep (· = start) s ∧ s.call = none ∧
    s.initialised = [2, 1] ∧ s.served = [2, 2] ∧ s.CreatedFor 0 1 ∧ s.CreatedFor 1 2 ∧
    run step s [.rx 0, .deinit 1, .call, .rx 1, .call] = some s' ∧ s'.call = none ∧
    s'.Running 0 ∧ ¬s'.Running 1 := by
  have h : run step start [.init 1, .call, .call, .call, .call, .init 2, .call, .call, .call, .call] =
      some ⟨⟨some 2, some 1, false⟩, [⟨1, .test⟩, ⟨2, .test⟩], [2, 1], none⟩ := by decide
  have h' : run step ⟨⟨some 2, some 1, false⟩, [⟨1, .test⟩, ⟨2, .test⟩], [2, 1], none⟩
      [.rx 0, .deinit 1, .call, .rx 1, .call] =
      some ⟨⟨some 2, some 1, true⟩, [⟨1, .sleep⟩, ⟨2, .joined⟩], [2], none⟩ := by decide
  exact ⟨_, _, Reach.run (.start rfl) (fun _ _ _ => trivial) h, rfl, rfl, rfl, rfl, rfl, h', rfl, rfl, nofun⟩

/-! ## The condition is needed -/

section
variable {s s' : RxSys} {c d t : Nat}

/-- A thread between two calls of `uCxAtClientHandleRx` goes to the client in the record. -/
theorem not_servedByOwn {rxThread : Option Nat} (hctx : s.gRxContext = ⟨some d, rxThread, false⟩) (hcd : c ≠ d)
    {pc : RxPc} (hmem : ⟨c, pc⟩ ∈ s.threads) (hpc : pc = .test ∨ pc = .sleep) : ¬s.ServedByOwn := by
  intro hown
  refine hcd (hown.calls _ hmem d ?_)
  rw [hctx]
  obtain rfl | rfl := hpc
  · rfl
  · rfl

/-- A second `uCxAtClientInit` turns the thread to another client, or starts another one for its client. -/
theorem Owned.init_breaks (h : s.Owned c t) (hf : s.gRxContext.terminateRxTask = false)
    (hcall : s.call = some (.init d .memset)) :
    ∃ as s', (∀ a ∈ as, a.Within) ∧ run step s as = some s' ∧ ¬s'.ServedByOwn := by
  have hrunning := (h.serves hf).1
  obtain ⟨pc, hget, hj, hterm, hp⟩ := h.thread
  have hlt : t < s.threads.length := (List.getElem?_eq_some_iff.1 hget).1
  let r : RxSys := ⟨⟨some d, some s.threads.length, false⟩, s.threads ++ [⟨d, .test⟩], d :: s.initialised, none⟩
  have hrun : run step s [.call, .call, .call, .call] = some r := by
    simp only [run, step, hcall, uPortBgRxTaskCreate, Option.bind_some, r]
  have hr : r.threads[t]? = s.threads[t]? := List.getElem?_append_left hlt
  have hwithin : ∀ a ∈ [RxAct.call, .call, .call, .call], a.Within := by simp [RxAct.Within]
  by_cases hcd : c = d
  · subst hcd
    refine ⟨_, r, hwithin, hrun, fun hown => ?_⟩
    obtain ⟨u, hu⟩ := hown.one rfl c List.mem_cons_self
    have hnew : s.threads.length = u := (hu _).1 ⟨by simp [Running, r, RxPc.running], by simp [CreatedFor, r]⟩
    have hold : t = u := (hu t).1 (by rw [Running, CreatedFor, hr]; exact ⟨hrunning, h.createdFor⟩)
    omega
  · rw [hget] at hr
    cases pc with
    | test => exact ⟨_, r, hwithin, hrun, not_servedByOwn rfl hcd (List.mem_of_getElem? hr) (.inl rfl)⟩
    | sleep => exact ⟨_, r, hwithin, hrun, not_servedByOwn rfl hcd (List.mem_of_getElem? hr) (.inr rfl)⟩
    | handleRx p =>
      obtain rfl := hp p rfl
      have hs : r.step (.rx t) = some { r with threads := r.threads.set t ⟨c, .test⟩ } := by
        simp only [step, hr, rxTask, Option.bind_eq_bind, Option.bind_some]
      refine ⟨_ ++ [.rx t], _, List.forall_mem_append.2 ⟨hwithin, by simp [RxAct.Within]⟩,
        by rw [run_append, hrun, Option.bind_some, run, hs]; rfl, not_servedByOwn rfl hcd ?_ (.inl rfl)⟩
      exact List.mem_set (List.getElem?_eq_some_iff.1 hr).1 _
    | terminated =>
      rw [hterm rfl] at hf
      cases hf
    | joined => exact absurd rfl hj

/-- There is nothing to wait for, and waiting is undefined. -/
theorem Quiet.deinit_stuck (h : s.Quiet) {pc : DestroyPc} (hcall : s.call = some (.deinit d pc)) :
    ¬s.CanReturn := by
  rintro ⟨as, r, has, hrun, hret⟩
  have hreach : Reach step (fun _ a => a.Within) (fun r => r = s) r :=
    Reach.run (.start rfl) (fun a ha _ => has a ha) hrun
  have hinv : (∃ pc, r.call = some (.deinit d pc)) ∧ r.Quiet := by
    clear hrun hret
    induction hreach with
    | start hi =>
      subst hi
      exact ⟨⟨pc, hcall⟩, h⟩
    | @next r r' a _ ha hstep hr =>
      obtain ⟨⟨pc, hcall⟩, hq⟩ := hr
      obtain rfl | ⟨u, rfl⟩ := within_cases ha
      · simp only [step, hcall] at hstep
        cases pc with
        | setFlag =>
          cases hstep
          exact ⟨⟨_, rfl⟩, hq⟩
        | join =>
          obtain ⟨t, thread, -, hget, hterm, -⟩ := uPortBgRxTaskDestroy_join hstep
          rw [hq thread (List.mem_of_getElem? hget)] at hterm
          cases hterm
      · rw [hq.no_rx] at hstep
        cases hstep
  obtain ⟨⟨pc, hcall'⟩, -⟩ := hinv
  rw [hret] at hcall'
  cases hcall'

/-- Whenever a step is the first that does not meet the condition, either the clients are no longer served as
they should be later on, or a call waits for no thread. -/
theorem oneAtATime_needed (h : Reach step OneAtATime (· = start) s) {a : RxAct} (hs : s.step a = some s')
    (hok : ¬s.OneAtATime a) :
    ∃ as r, (∀ a ∈ as, a.Within) ∧ run step s' as = some r ∧ (¬r.ServedByOwn ∨ ¬r.CanReturn) := by
  have hinv := reach_inv h
  cases a with
  | init d =>
    obtain ⟨hcall, rfl⟩ := step_init hs
    obtain ⟨hi, -⟩ | ⟨c, t, ho, hf⟩ := hinv.idle hcall
    · exact absurd hi hok
    · obtain ⟨as, r, has, hrun, hr⟩ := Owned.init_breaks (s := { s with call := some (.init d .memset) })
        { ho with } hf rfl
      exact ⟨as, r, has, hrun, .inl hr⟩
  | deinit d =>
    obtain ⟨hcall, rfl⟩ := step_deinit hs
    obtain ⟨-, hq⟩ | ⟨c, t, ho, hf⟩ := hinv.idle hcall
    · have hstuck := Quiet.deinit_stuck (s := { s with call := some (.deinit d .setFlag) }) hq rfl
      exact ⟨[], _, nofun, rfl, .inr hstuck⟩
    · have hdc : c ≠ d := by
        rintro rfl
        exact hok (by rw [OneAtATime, ho.initialised]; exact List.mem_singleton_self c)
      obtain ⟨as, r, has, hrun, hret, hi, hq⟩ := Owned.stopped
        (s := { s with call := some (.deinit d .setFlag) }) { ho with } rfl hf
      refine ⟨as, r, has, hrun, .inl fun hown => ?_⟩
      have hmem := (hown.served hret c).2 (by rw [hi, List.erase_of_not_mem (by simpa using Ne.symm hdc)]; simp)
      rw [hq.served] at hmem
      cases hmem
  | createFails =>
    simp only [step] at hs
    split at hs
    · next d hcall =>
      cases hs
      simp only [Inv, hcall] at hinv
      refine ⟨[], _, nofun, rfl, .inl fun hown => ?_⟩
      have hmem := (hown.served rfl d).2 List.mem_cons_self
      rw [Quiet.served (s := { s with initialised := d :: s.initialised, call := none }) hinv.2.1] at hmem
      cases hmem
    · cases hs
  | call => exact absurd trivial hok
  | rx u => exact absurd trivial hok

/-- The first call that does not meet the condition is the one for client 2. -/
theorem oneAtATime_needed_second : ∃ s s', Reach step OneAtATime (· = start) s ∧ s.step (.init 2) = some s' ∧
    ¬s.OneAtATime (.init 2) ∧
    ∃ as r, (∀ a ∈ as, a.Within) ∧ run step s' as = some r ∧ (¬r.ServedByOwn ∨ ¬r.CanReturn) := by
  have h : runIf (fun s a => decide (s.OneAtATime a)) step start [.init 1, .call, .call, .call, .call] =
      some ⟨⟨some 1, some 0, false⟩, [⟨1, .test⟩], [1], none⟩ := by decide
  have hr : Reach step OneAtATime (· = start) _ := Reach.runIf (.start rfl) (fun _ _ => of_decide_eq_true) h
  have hno : ¬OneAtATime ⟨⟨some 1, some 0, false⟩, [⟨1, .test⟩], [1], none⟩ (.init 2) := by decide
  exact ⟨_, _, hr, rfl, hno, oneAtATime_needed hr rfl hno⟩

end

end RxSys

end Posix
