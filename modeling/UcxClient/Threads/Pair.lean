import UcxClient.Lib.Shared
import UcxClient.Threads.Status

/-!
# Two clients

The buffers, the UART and the callers of two clients are separate, but `handleBinaryRx` keeps the
length bytes of a transfer in a `static` array, which all clients use. `Pair` are two clients with that
array.

`clients_independent`: as long as no client reads a first length byte while the other has received
exactly one of its two, each does what it does alone. `length_bytes_mixed`: otherwise the length of a
transfer can be made of bytes that two clients have received.
-/

open AtState Transition

/-- Exactly one of the two length bytes of a transfer has been received. -/
def AtClient.midHeader (c : AtClient) : Bool := c.binaryRx.rxHeaderCount == 1

namespace AtState

/-- The state with other bytes in `lengthBuf`. -/
def withLengthBuf (lengthBuf : UInt8 × UInt8) (s : AtState) : AtState := { s with lengthBuf }

/-- The states differ at most in `lengthBuf`, and not in a length byte that is still needed. -/
def SameLength (s s' : AtState) : Prop :=
  ∃ lb, s' = s.withLengthBuf lb ∧ (s.client.midHeader = true → lb.1 = s.lengthBuf.1)

theorem SameLength.refl (s : AtState) : SameLength s s := ⟨s.lengthBuf, rfl, fun _ => rfl⟩

/-! ## The receiver -/

section
variable (t : Nat) (s : AtState) (lb : UInt8 × UInt8)

theorem readChar_withLengthBuf (bytes : List UInt8) :
    (s.withLengthBuf lb).readChar t bytes =
      ((s.readChar t bytes).1.withLengthBuf lb, (s.readChar t bytes).2) := by
  unfold readChar
  split
  · have hc : (s.withLengthBuf lb).client = s.client := rfl
    rw [hc]
    split <;> rfl
  · rfl

/-- Character mode leaves the transfer alone. -/
theorem readChar_keeps (hbin : s.client.isBinaryRx = false) (bytes : List UInt8) :
    (s.readChar t bytes).1.lengthBuf = s.lengthBuf ∧
      (s.readChar t bytes).1.client.binaryRx = s.client.binaryRx := by
  have h := readChar_effect t s bytes hbin
  generalize (s.readChar t bytes).1 = s', (s.readChar t bytes).2 = ret at h ⊢
  cases h with
  | quiet _ _ => exact ⟨rfl, rfl⟩
  | line _ _ hp => exact ⟨rfl, by simp [(AtClient.parseLine_setup hp).2.2]⟩
  | header hbin' _ | start hbin' _ _ | stalled hbin' _ | payload _ hbin' _ =>
    rw [hbin] at hbin'
    cases hbin'

theorem binaryRxNext_withLengthBuf : (s.withLengthBuf lb).binaryRxNext t =
    ((s.binaryRxNext t).1.withLengthBuf lb, (s.binaryRxNext t).2) := by
  have hdone : (s.withLengthBuf lb).binaryRxDone t =
      ((s.binaryRxDone t).1.withLengthBuf lb, (s.binaryRxDone t).2) := by
    simp only [binaryRxDone]
    have hc : (s.withLengthBuf lb).client = s.client := rfl
    rw [hc]
    cases s.client.binaryRx.state <;> rfl
  unfold binaryRxNext
  have hc : (s.withLengthBuf lb).client = s.client := rfl
  rw [hc]
  split
  · rfl
  · rw [hdone]

theorem takePayload_withLengthBuf (bytes : List UInt8) :
    (s.withLengthBuf lb).takePayload bytes = (s.takePayload bytes).withLengthBuf lb := by
  unfold takePayload storePayload
  have hc : (s.withLengthBuf lb).client = s.client := rfl
  have hr : (s.withLengthBuf lb).remainingBuf = s.remainingBuf := rfl
  rw [hr, hc]
  cases decide (0 < s.remainingBuf) with
  | false => rfl
  | true => cases s.client.binaryRx.pBuffer <;> rfl

end

/-- The array has both bytes of the transfer, whatever it held before. -/
theorem storeLengthBuf_congr {lb lb' : UInt8 × UInt8} {n : Nat} {bytes : List UInt8} (hn : n < 2)
    (hlen : 2 ≤ n + bytes.length) (h : n = 1 → lb'.1 = lb.1) :
    storeLengthBuf lb' n bytes = storeLengthBuf lb n bytes := by
  match n, bytes with
  | 0, b :: c :: _ => simp [storeLengthBuf]
  | 1, b :: _ => simp [storeLengthBuf, h rfl]
  | 0, [_] => simp at hlen
  | 0, [] => simp at hlen
  | 1, [] => simp at hlen

theorem midHeader_false_of_binaryRxNext {t : Nat} {s : AtState}
    (h : s.client.binaryRx.rxHeaderCount ≠ 1) : (s.binaryRxNext t).1.client.midHeader = false := by
  rcases s.binaryRxNext_cases t with ⟨-, heq⟩ | ⟨-, heq⟩
  · rw [heq]
    simp [AtClient.midHeader, h]
  · rw [heq]
    have h0 : (s.binaryRxDone t).1.client.binaryRx.rxHeaderCount = 0 := by
      simp only [binaryRxDone]
      split <;> rfl
    simp [AtClient.midHeader, h0]

/-- **A read** does the same in both states. -/
theorem SameLength.rxStep (t : Nat) {s s' : AtState} (h : SameLength s s') (r : ReadStatus) :
    SameLength (s.rxStep t r).1 (s'.rxStep t r).1 ∧ (s'.rxStep t r).2 = (s.rxStep t r).2 := by
  obtain ⟨lb, rfl, hlb⟩ := h
  cases r with
  | failed err => exact ⟨⟨lb, rfl, hlb⟩, rfl⟩
  | got bytes =>
    have hc : (s.withLengthBuf lb).client = s.client := rfl
    simp only [AtState.rxStep, hc]
    by_cases hbin : s.client.isBinaryRx = true
    · by_cases hcount : s.client.binaryRx.rxHeaderCount < 2
      · simp only [hbin, Bool.not_true, Bool.false_eq_true, hcount, ↓reduceIte, readHeader]
        have hcl : ((s.withLengthBuf lb).storeHeader bytes).client = (s.storeHeader bytes).client := rfl
        rw [hcl]
        split
        · next hlt =>
          refine ⟨⟨((s.withLengthBuf lb).storeHeader bytes).lengthBuf, rfl, fun hmid => ?_⟩, rfl⟩
          -- one byte: it is the first one, or it came before this read
          have hmid' : s.client.binaryRx.rxHeaderCount + bytes.length = 1 := by
            simpa [AtClient.midHeader, storeHeader] using hmid
          simp only [storeHeader, withLengthBuf]
          obtain hn | hn : s.client.binaryRx.rxHeaderCount = 0 ∨ s.client.binaryRx.rxHeaderCount = 1 := by
            omega
          · obtain ⟨b, rfl⟩ := List.length_eq_one_iff.1 (show bytes.length = 1 by omega)
            simp [hn, storeLengthBuf]
          · obtain rfl := List.length_eq_zero_iff.1 (show bytes.length = 0 by omega)
            simp only [storeLengthBuf]
            exact hlb (by simp [AtClient.midHeader, hn])
        · next hge =>
          have hsame : (s.withLengthBuf lb).storeHeader bytes = s.storeHeader bytes := by
            have hlen : 2 ≤ s.client.binaryRx.rxHeaderCount + bytes.length := Nat.not_lt.1 hge
            have hbuf : storeLengthBuf lb s.client.binaryRx.rxHeaderCount bytes =
                storeLengthBuf s.lengthBuf s.client.binaryRx.rxHeaderCount bytes :=
              storeLengthBuf_congr hcount hlen fun h1 => hlb (by simp [AtClient.midHeader, h1])
            unfold storeHeader withLengthBuf
            simp only
            rw [hbuf]
          rw [hsame]
          exact ⟨.refl _, rfl⟩
      · simp only [hbin, Bool.not_true, Bool.false_eq_true, hcount, ↓reduceIte, readPayload,
          takePayload_withLengthBuf]
        have hne : (s.takePayload bytes).client.binaryRx.rxHeaderCount ≠ 1 := by
          rw [(s.takePayload_client bytes).2.2.1]
          omega
        split
        · refine ⟨⟨lb, rfl, fun hmid => ?_⟩, rfl⟩
          simp [AtClient.midHeader, hne] at hmid
        · rw [binaryRxNext_withLengthBuf]
          refine ⟨⟨lb, rfl, fun hmid => ?_⟩, rfl⟩
          rw [midHeader_false_of_binaryRxNext hne] at hmid
          cases hmid
    · have hfalse : s.client.isBinaryRx = false := by simpa using hbin
      simp only [hfalse, Bool.not_false, ↓reduceIte, readChar_withLengthBuf]
      refine ⟨⟨lb, rfl, fun hmid => ?_⟩, trivial⟩
      obtain ⟨hbuf, hrx⟩ := readChar_keeps t s hfalse bytes
      rw [hbuf]
      exact hlb (by rwa [AtClient.midHeader, hrx] at hmid)

/-! ## The bytes of the array -/

/-- The read brings a first length byte, and not the one that the array holds. -/
def replacesFirst (s : AtState) : ReadStatus → Bool
  | .got (b :: _) =>
    s.client.isBinaryRx && s.client.binaryRx.rxHeaderCount == 0 && b != s.lengthBuf.1
  | _ => false

theorem binaryRxNext_lengthBuf (t : Nat) (s : AtState) :
    (s.binaryRxNext t).1.lengthBuf = s.lengthBuf := by
  rcases s.binaryRxNext_cases t with ⟨-, heq⟩ | ⟨-, heq⟩
  · rw [heq]
  · rw [heq]
    simp only [binaryRxDone]
    split <;> rfl

theorem takePayload_lengthBuf (s : AtState) (bytes : List UInt8) :
    (s.takePayload bytes).lengthBuf = s.lengthBuf := by
  unfold takePayload storePayload
  cases decide (0 < s.remainingBuf) with
  | false => rfl
  | true => cases s.client.binaryRx.pBuffer <;> rfl

theorem startTransfer_lengthBuf (t : Nat) (s : AtState) :
    (s.startTransfer t).1.lengthBuf = s.lengthBuf := by
  unfold startTransfer
  rcases s.client.parseLine t s.client.rxBuffer with ⟨c, code⟩
  simp only [binaryRxNext_lengthBuf]
  cases code with
  | gotUrc =>
    simp only [setupBinaryTransfer]
    split <;> rfl
  | _ => rfl

theorem storeHeader_fst {s : AtState} {bytes : List UInt8} (hbin : s.client.isBinaryRx = true)
    (h : s.replacesFirst (.got bytes) = false) :
    (s.storeHeader bytes).lengthBuf.1 = s.lengthBuf.1 := by
  show (storeLengthBuf s.lengthBuf s.client.binaryRx.rxHeaderCount bytes).1 = s.lengthBuf.1
  match hn : s.client.binaryRx.rxHeaderCount, bytes with
  | _, [] => simp [storeLengthBuf]
  | _ + 1, _ :: _ => simp [storeLengthBuf]
  | 0, b :: bs =>
    have hb : b = s.lengthBuf.1 := by simpa [replacesFirst, hbin, hn] using h
    cases bs <;> simp [storeLengthBuf, hb]

/-- **The first byte of the array** changes only in a read that brings another first length byte. -/
theorem RxEffect.lengthBuf_fst {t : Nat} {s s' : AtState} {r : ReadStatus} {ret : Option ParserCode}
    (he : RxEffect t s r s' ret) (h : s.replacesFirst r = false) :
    s'.lengthBuf.1 = s.lengthBuf.1 := by
  cases he with
  | failed err => rfl
  | quiet | line => rfl
  | header hbin _ => exact storeHeader_fst hbin h
  | start hbin _ _ =>
    rw [startTransfer_lengthBuf]
    exact storeHeader_fst hbin h
  | stalled => rw [takePayload_lengthBuf]
  | payload => rw [binaryRxNext_lengthBuf, takePayload_lengthBuf]

end AtState

namespace Sys

/-- The system with other bytes in `lengthBuf`. -/
def withLengthBuf (lengthBuf : UInt8 × UInt8) (s : Sys) : Sys :=
  { s with st := s.st.withLengthBuf lengthBuf }

/-- The systems differ at most in `lengthBuf`, and not in a length byte that is still needed. -/
def SameLength (s s' : Sys) : Prop :=
  ∃ lb, s' = s.withLengthBuf lb ∧ (s.st.client.midHeader = true → lb.1 = s.st.lengthBuf.1)

/-- What `handleRxData` returns to does not look at the array. -/
theorem afterRead_withLengthBuf (s : Sys) (t : Nat) (ret : Option ParserCode) (now : Int)
    (lb : UInt8 × UInt8) :
    (s.withLengthBuf lb).afterRead t ret now = (s.afterRead t ret now).withLengthBuf lb := by
  have hc : (s.withLengthBuf lb).st.client = s.st.client := rfl
  have hth : (s.withLengthBuf lb).threads = s.threads := rfl
  simp only [afterRead]
  rw [hth, hc]
  split
  · rfl
  · rfl
  · split
    · rfl
    split <;> rfl
  · split <;> rfl
  · rfl

theorem afterRead_keeps (s : Sys) (t : Nat) (ret : Option ParserCode) (now : Int) :
    (s.afterRead t ret now).st.lengthBuf = s.st.lengthBuf ∧
      (s.afterRead t ret now).st.client.binaryRx = s.st.client.binaryRx := by
  simp only [afterRead]
  split
  · exact ⟨rfl, rfl⟩
  · exact ⟨rfl, rfl⟩
  · split
    · exact ⟨rfl, rfl⟩
    split <;> exact ⟨rfl, rfl⟩
  · simp only [AtClient.cmdEndCheck]
    split
    · exact ⟨rfl, rfl⟩
    split <;> exact ⟨rfl, rfl⟩
  · exact ⟨rfl, rfl⟩

/-- A step other than a read does the same in both systems. -/
theorem step_withLengthBuf (s : Sys) (lb : UInt8 × UInt8) (t : Nat) {a : Act}
    (h : ∀ r now, a ≠ .read r now) :
    (s.withLengthBuf lb).step (t, a) = (s.step (t, a)).map (withLengthBuf lb) := by
  have hc : (s.withLengthBuf lb).st.client = s.st.client := rfl
  have hth : (s.withLengthBuf lb).threads = s.threads := rfl
  cases a with
  | read r now => exact absurd rfl (h r now)
  | getRspParamLine p buf =>
    simp only [step]
    rw [hth, hc]
    split <;> rfl
  | cmdBeginF now =>
    simp only [step]
    rw [hth, hc]
    split <;> rfl
  | cmdEnd =>
    simp only [step]
    rw [hth, hc]
    split
    · split <;> rfl
    · rfl
  | handleRx =>
    simp only [step]
    rw [hth, hc]
    split
    · split
      · rfl
      split
      · split <;> rfl
      · rfl
    · rfl
  | setCommandTimeout ms perm | setUrcCallback cb | clientOpen | clientClose | writeMem mem =>
    simp only [step]
    rw [hth]
    split <;> rfl
  | writeEntry i b =>
    simp only [step]
    rw [hth, hc]
    split
    · split
      · split <;> rfl
      · rfl
    · rfl
  | callbackReturn =>
    simp only [step]
    rw [hth]
    split <;> rfl
  | next =>
    simp only [step]
    rw [hth]
    split
    · next k pc fs _ =>
      cases pc with
      | checked p => cases p <;> rfl
      | locked | called p =>
        simp only [urcStep]
        rw [hc]
        split <;> rfl
      | _ => rfl
    · rfl

theorem Effect.keeps {s s' : Sys} {t : Nat} {a : Act} (he : Effect s t a s')
    (h : ∀ r now, a ≠ .read r now) :
    s'.st.lengthBuf = s.st.lengthBuf ∧ s'.st.client.binaryRx = s.st.client.binaryRx := by
  cases he with
  | user hu hc =>
    obtain ⟨_, _, _, _, _, rfl⟩ := hc
    exact ⟨rfl, rfl⟩
  | readMore hrx | readStay hrx | rxDone hrx | rspDone hrx | endDone hrx => exact absurd rfl (h _ _)
  | _ => exact ⟨rfl, rfl⟩

/-- A read does the same in both systems. -/
theorem SameLength.read {s s' : Sys} (h : SameLength s s') (t : Nat) (r : ReadStatus) (now : Int) :
    Option.Rel SameLength (s.step (t, .read r now)) (s'.step (t, .read r now)) := by
  obtain ⟨lb, rfl, hlb⟩ := h
  obtain ⟨⟨lb', hst, hlb'⟩, hret⟩ := AtState.SameLength.rxStep t ⟨lb, rfl, hlb⟩ r
  have hsys : (s.withLengthBuf lb).st = s.st.withLengthBuf lb := rfl
  have hth : (s.withLengthBuf lb).threads = s.threads := rfl
  have hwants : (s.st.withLengthBuf lb).wants = s.st.wants := rfl
  simp only [Sys.step]
  rw [hsys, hth, hwants]
  by_cases hg : inRx (s.threads t) = true ∧ ReadStatus.fits s.st.wants r = true
  · rw [if_pos hg, if_pos hg]
    rcases hrx : s.st.rxStep t r with ⟨st, ret⟩
    rcases hrx' : (s.st.withLengthBuf lb).rxStep t r with ⟨st', ret'⟩
    rw [hrx] at hst hlb' hret
    rw [hrx'] at hst hret
    dsimp only at hst hlb' hret ⊢
    subst hst hret
    have hblocked : (st.withLengthBuf lb').client.urcQueue = st.client.urcQueue := rfl
    rw [hblocked]
    cases st.client.urcQueue.queueMutex.blocked with
    | true => exact .none
    | false =>
      obtain ⟨hbuf, hbin⟩ := afterRead_keeps { s with st } t ret' now
      refine .some ⟨lb', afterRead_withLengthBuf { s with st } t ret' now lb', fun hmid => ?_⟩
      rw [hbuf]
      exact hlb' (by rwa [AtClient.midHeader, hbin] at hmid)
  · rw [if_neg hg, if_neg hg]
    exact .none

/-- **A step** does the same in both systems. -/
theorem SameLength.step {s s' : Sys} (h : SameLength s s') (ta : Nat × Act) :
    Option.Rel SameLength (s.step ta) (s'.step ta) := by
  obtain ⟨t, a⟩ := ta
  by_cases hread : ∃ r now, a = .read r now
  · obtain ⟨r, now, rfl⟩ := hread
    exact h.read t r now
  · have hother : ∀ r now, a ≠ .read r now := fun r now heq => hread ⟨r, now, heq⟩
    obtain ⟨lb, rfl, hlb⟩ := h
    rw [step_withLengthBuf s lb t hother]
    cases hs : s.step (t, a) with
    | none => exact .none
    | some s1 =>
      obtain ⟨hbuf, hrx⟩ := (step_effect hs).keeps hother
      refine .some ⟨lb, rfl, fun hmid => ?_⟩
      rw [hbuf]
      exact hlb (by rwa [AtClient.midHeader, hrx] at hmid)

/-- The step is a read that replaces the first byte of the array. -/
def Act.replacesFirst (st : AtState) : Act → Bool
  | .read r _ => st.replacesFirst r
  | _ => false

/-- **The first byte of the array** is changed by no other step. -/
theorem lengthBuf_fst {s s' : Sys} {t : Nat} {a : Act} (h : a.replacesFirst s.st = false)
    (hs : s.step (t, a) = some s') : s'.st.lengthBuf.1 = s.st.lengthBuf.1 := by
  have he := step_effect hs
  by_cases hread : ∃ r now, a = .read r now
  · obtain ⟨r, now, rfl⟩ := hread
    cases he with
    | user hu hc =>
      obtain ⟨_, _, _, _, _, rfl⟩ := hc
      rfl
    | readMore hrx | readStay hrx | rxDone hrx | rspDone hrx | endDone hrx =>
      exact hrx.effect.lengthBuf_fst h
  · rw [(he.keeps fun r now heq => hread ⟨r, now, heq⟩).1]

end Sys

/-! ## The two clients -/

/-- Two clients, and the array that both use. -/
abbrev Pair := Shared.State Bool Sys (UInt8 × UInt8)

namespace Pair

/-- A step of one of the clients. -/
def step : Pair → Bool × (Nat × Sys.Act) → Option Pair :=
  Shared.step Sys.step Sys.withLengthBuf fun s => s.st.lengthBuf

/-- Client `i` as it finds the array. -/
def view (p : Pair) (i : Bool) : Sys := Shared.view Sys.withLengthBuf p i

/-- The step does not replace a first length byte that the other client has received and not used. -/
def undisturbed (p : Pair) (ia : Bool × (Nat × Sys.Act)) : Bool :=
  !(ia.2.2.replacesFirst (p.view ia.1).st && (p.comp (!ia.1)).st.client.midHeader)

theorem sameLength_of_foreign (p : Pair) (i : Bool) (ta : Nat × Sys.Act) (s : Sys) (j : Bool)
    (x : Sys) (hij : j ≠ i) (hok : undisturbed p (i, ta) = true) (hs : (p.view i).step ta = some s)
    (hx : Sys.SameLength x (p.view j)) :
    Sys.SameLength x ((p.comp j).withLengthBuf s.st.lengthBuf) := by
  obtain ⟨lb, heq, hlb⟩ := hx
  have hcl : x.st.client = (p.comp j).st.client :=
    (congrArg (fun s : Sys => s.st.client) heq).symm
  have hshared : p.shared = lb := congrArg (fun s : Sys => s.st.lengthBuf) heq
  have hcomp : ((p.view j).withLengthBuf s.st.lengthBuf) =
      (x.withLengthBuf lb).withLengthBuf s.st.lengthBuf := by rw [heq]
  refine ⟨s.st.lengthBuf, hcomp, fun hmid => ?_⟩
  obtain rfl : j = !i := Bool.eq_not.2 hij
  have hfirst : ta.2.replacesFirst (p.view i).st = false := by
    rw [hcl] at hmid
    simpa [undisturbed, hmid] using hok
  rw [Sys.lengthBuf_fst hfirst hs, ← hlb hmid, ← hshared]
  rfl

/-- **Two clients do not interfere** as long as neither replaces a first length byte that the other
still needs: the callers, the memory and the fields of each are those it has when it runs alone. -/
theorem clients_independent {p p' : Pair} {acts : List (Bool × (Nat × Sys.Act))}
    (h0 : ∀ i, (p.comp i).st.client.midHeader = false)
    (h : runIf undisturbed step p acts = some p') (i : Bool) :
    ∃ s, run Sys.step (p.comp i) (Shared.own i acts) = some s ∧
      s.threads = (p'.comp i).threads ∧ s.passed = (p'.comp i).passed ∧
      s.st.client = (p'.comp i).st.client ∧ s.st.mem = (p'.comp i).st.mem ∧
      ∀ ta, (step p' (i, ta)).isSome = (s.step ta).isSome := by
  have hstart : Sys.SameLength (p.comp i) (p.view i) :=
    ⟨p.shared, rfl, fun hmid => by rw [h0 i] at hmid; cases hmid⟩
  obtain ⟨s, hrun, ⟨lb, heq, -⟩, hsome⟩ := Shared.independent (fun _ => rfl)
    (fun _ _ ta hsame => hsame.step ta) sameLength_of_foreign h hstart
  refine ⟨s, hrun, (congrArg Sys.threads heq).symm, (congrArg Sys.passed heq).symm,
    (congrArg (fun s : Sys => s.st.client) heq).symm,
    (congrArg (fun s : Sys => s.st.mem) heq).symm, hsome⟩

/-- Two clients that nobody uses yet. -/
def fresh : Pair := ⟨fun _ => Sys.small, (0, 0)⟩

/-- Steps of client `i`. -/
def steps (i : Bool) (acts : List (Nat × Sys.Act)) : List (Bool × (Nat × Sys.Act)) := acts.map (i, ·)

/-- `uCxAtClientHandleRx` of a client that has been opened finds `bytes`. -/
def openAndRead (bytes : List UInt8) : List (Nat × Sys.Act) :=
  [(0, .clientOpen), (0, .handleRx)] ++ Sys.reads 0 bytes

/-- `uCxAtClientHandleRx` finds a line and the first length byte `b`. -/
def untilFirst (pLine : List UInt8) (b : UInt8) : List (Nat × Sys.Act) :=
  openAndRead (pLine ++ [sohChar, b]) ++ List.replicate 4 (0, .next)

/-- `uCxAtClientHandleRx` finds the second length byte 1 and the payload. -/
def fromSecond : List (Nat × Sys.Act) := [(0, .handleRx)] ++ Sys.reads 0 [1, 7]

/-- A client is between its length bytes while the other reads a line. -/
theorem clients_independent_other_line : ∃ p' s,
    runIf undisturbed step fresh (steps true (untilFirst (text "+A") 0) ++
      steps false (openAndRead (text "+B\r")) ++ steps true fromSecond) = some p' ∧
    run Sys.step Sys.small (untilFirst (text "+A") 0 ++ fromSecond) = some s ∧
    s.st.client = (p'.comp true).st.client := by
  obtain ⟨p', h, -⟩ := Option.map_eq_some_iff.1 (show (runIf undisturbed step fresh
    (steps true (untilFirst (text "+A") 0) ++ steps false (openAndRead (text "+B\r")) ++
      steps true fromSecond)).map (fun _ => ()) = some () by decide)
  obtain ⟨s, hs, -, -, hc, -⟩ := clients_independent (by decide) h true
  exact ⟨p', s, h, hs, hc⟩

/-- The other client receives its first length byte in between: a URC with a payload of one byte is
taken for one of 257 bytes, for which there is no room. -/
theorem length_bytes_mixed :
    (run step fresh (steps true (untilFirst (text "+A") 0) ++
      steps false (untilFirst (text "+B") 1) ++ steps true fromSecond)).map
        (fun p => (p.comp true).st.client.urcQueue.peekEntry) = some none ∧
    (run Sys.step Sys.small (untilFirst (text "+A") 0 ++ fromSecond)).map
      (fun s => s.st.client.urcQueue.peekEntry) = some (some 0) := by
  decide

end Pair
