import UcxClient.Client.Leftover
import UcxClient.Lib.Strtol

/-!
# The final status of a command

What the receiver records in `pClient->status` is what `cmdEnd` is meant to return.

* `error_status_negative`: a line that starts with `ERROR` records a negative status exactly if it has
  no number, or a number that is from 1 to 2^31 modulo 2^32. `ERROR:0` is taken for success, and
  `ERROR:2147483649` for `NO_STATUS`.
* `cmdEnd_keeps_status`: `cmdEnd` leaves the status that was recorded exactly if the clock reading that
  follows it is not past the deadline.
-/

/-! ## The code of an error line -/

/-- All of a string that starts with a digit is read as a number. -/
theorem strtol_all_digits {s : List UInt8} {v : Int} (hd : isdigit (s.headD 0) = true)
    (h : strtol 10 s = (v, [])) : v = clampLong (ofDigits 10 0 s) := by
  rcases strtol_numeral h with ⟨-, rfl⟩ | ⟨g, n, rfl, hnum, rfl⟩
  · cases hd
  · rw [List.append_nil] at hd ⊢
    rw [(hnum.digits hd).2]

namespace AtClient

/-- The number behind `ERROR:`, as far as a `long` holds it. -/
def errorNumber (pLine : List UInt8) : Nat := min (ofDigits 10 0 (pLine.drop 6)) (2 ^ 63 - 1)

/-- The line has no number, or one that is from 1 to 2^31 modulo 2^32. -/
def HasErrorCode (pLine : List UInt8) : Prop :=
  pLine.getD 5 0 = 0 ∨ 1 ≤ errorNumber pLine % 2 ^ 32 ∧ errorNumber pLine % 2 ^ 32 ≤ 2 ^ 31

instance (pLine : List UInt8) : Decidable (HasErrorCode pLine) :=
  inferInstanceAs (Decidable (_ ∨ _ ∧ _))

theorem neg_toInt32_lt (n : Nat) :
    toInt32 (extendedErrorOffset - toInt32 n) < 0 ↔ 1 ≤ n % 2 ^ 32 ∧ n % 2 ^ 32 ≤ 2 ^ 31 := by
  have hn : toInt32 n = if n % 2 ^ 32 < 2 ^ 31 then (n % 2 ^ 32 : Int) else n % 2 ^ 32 - 2 ^ 32 := by
    unfold toInt32
    rw [Int.bmod_def]
    split <;> split <;> omega
  rw [hn, extendedErrorOffset, toInt32, Int.bmod_def]
  split <;> split <;> omega

theorem errorStatus_negative {pLine : List UInt8} {v : Int} (h : errorStatus pLine = some v) :
    v < 0 ↔ HasErrorCode pLine := by
  unfold errorStatus at h
  split at h
  · next h0 =>
    cases h
    exact ⟨fun _ => .inl h0, fun _ => by decide⟩
  · next h0 =>
    split at h
    · next hcolon =>
      rcases hs : strtol 10 (pLine.drop 6) with ⟨code, pEnd⟩
      simp only [hs] at h
      split at h
      · next hg =>
        obtain ⟨hd, rfl⟩ := hg
        have hcode : code = (errorNumber pLine : Int) := by
          rw [strtol_all_digits hd hs, clampLong, errorNumber]
          omega
        obtain rfl := Option.some.inj h
        rw [hcode, neg_toInt32_lt]
        exact ⟨.inr, fun h => h.resolve_left h0⟩
      · cases h
    · cases h

/-- Only a line that is a status is taken for one. -/
theorem status_of_gotStatus {t : Nat} {c : AtClient} {pLine : List UInt8}
    (h : (c.parseLine t pLine).2 = .gotStatus) :
    ∃ status, lineKind c.executingCmd c.pExpectedRsp pLine = .status status := by
  rw [parseLine_eq] at h
  cases hk : lineKind c.executingCmd c.pExpectedRsp pLine with
  | status v => exact ⟨v, rfl⟩
  | rsp p => simp [hk, onLine] at h
  | urc =>
    rw [hk, onLine] at h
    dsimp only at h
    split at h <;> cases h
  | other => simp [hk, onLine] at h

/-- The status that an `ERROR` line records. -/
theorem parseLine_error {t : Nat} {c c' : AtClient} {pLine : List UInt8}
    (hpre : (text "ERROR").isPrefixOf pLine = true) (h : c.parseLine t pLine = (c', .gotStatus)) :
    ∃ status, errorStatus pLine = some status ∧ c' = { c with status } := by
  obtain ⟨status, hk⟩ := status_of_gotStatus (by rw [h])
  have hx : c.executingCmd = true := executing_of_lineKind (.inl ⟨status, hk⟩)
  rw [parseLine_eq, hk] at h
  cases h
  refine ⟨status, ?_, rfl⟩
  have hne : pLine ≠ text "OK" := by
    rintro rfl
    exact absurd hpre (by decide)
  rw [hx] at hk
  unfold lineKind at hk
  split at hk
  · cases hk
  · simp only [↓reduceIte, cmdKind, hne, hpre] at hk
    split at hk
    · cases hk
    · cases he : errorStatus pLine with
      | some v =>
        rw [he] at hk
        exact congrArg some (LineKind.status.inj hk)
      | none =>
        rw [he] at hk
        rcases urcKind_cases pLine with hu | hu <;> simp [hu] at hk

end AtClient

namespace AtState

open AtClient

/-- `cmdEnd` returns at once when a status has been recorded before. -/
theorem cmdEnd_of_status (t : Nat) (edit : Callback) {s : AtState} (h : Host)
    (hst : s.client.status ≠ noStatus) :
    ∃ calls s', s.cmdEnd t edit h = some (⟨s.client.status, calls⟩, s', h) := by
  have hloop : s.endLoop t h.uart h.clock = some (s, h) := by
    obtain ⟨uart, clock⟩ := h
    cases clock <;> rw [endLoop, if_neg hst]
  obtain ⟨calls, urcQueue, hp⟩ :=
    processUrcs_total t edit (Nat.lt_succ_self (s.client.finishCmd t).urcQueue.bufferPos)
  refine ⟨calls, { s with client := { s.client.finishCmd t with urcQueue } }, ?_⟩
  rw [cmdEnd, cmdEndRx, hloop]
  simp only [Option.map_some, Option.bind_some, hp]
  rfl

/-- **A line that starts with `ERROR`** and is taken for a final status records a negative status
exactly if it has no number or a number that is from 1 to 2^31 modulo 2^32. The command then ends:
`cmdEnd` leaves its loop, and returns a negative value. -/
theorem error_status_negative (t : Nat) (edit : Callback) {c c' : AtClient} {pLine : List UInt8}
    (hpre : (text "ERROR").isPrefixOf pLine = true) (hp : c.parseLine t pLine = (c', .gotStatus)) :
    (c'.status < 0 ∧ c'.status ≠ noStatus ∧
      (∀ now, (c'.cmdEndCheck now).2 = true ∧ (c'.cmdEndCheck now).1.status < 0) ∧
      ∀ mem lengthBuf h, ∃ calls s', (AtState.mk c' mem lengthBuf).cmdEnd t edit h =
        some (⟨c'.status, calls⟩, s', h)) ↔ HasErrorCode pLine := by
  obtain ⟨status, he, rfl⟩ := parseLine_error hpre hp
  constructor
  · intro hneg
    exact (errorStatus_negative he).1 hneg.1
  · intro hcode
    have hneg : status < 0 := (errorStatus_negative he).2 hcode
    have hne : status ≠ noStatus := by
      have : (0 : Int) < noStatus := by decide
      omega
    refine ⟨hneg, hne, fun now => ?_, fun mem lengthBuf h => cmdEnd_of_status t edit h hne⟩
    unfold cmdEndCheck
    split
    · exact ⟨rfl, (by decide : errorCmdTimeout < 0)⟩
    · exact ⟨by simpa using hne, hneg⟩

/-- A client that executes a command. -/
def inCommand : AtState := fresh.cmdBeginF 0 0

theorem error_status_negative_code :
    (inCommand.client.parseLine 0 (text "ERROR:9")).1.status < 0 := by
  have hp : inCommand.client.parseLine 0 (text "ERROR:9") =
      ((inCommand.client.parseLine 0 (text "ERROR:9")).1, .gotStatus) := Prod.ext rfl (by decide)
  exact ((error_status_negative 0 id rfl hp).2 (by decide)).1

/-- The status of `ERROR:0` is that of `OK`, that of `ERROR:2147483649` is `NO_STATUS`, and a number
that no `long` holds gives a positive status. -/
theorem error_status_not_negative :
    inCommand.client.parseLine 0 (text "ERROR:0") =
      ({ inCommand.client with status := 0 }, .gotStatus) ∧
    inCommand.client.parseLine 0 (text "ERROR:2147483649") =
      ({ inCommand.client with status := noStatus }, .gotStatus) ∧
    inCommand.client.parseLine 0 (text "ERROR:9999999999999999999") =
      ({ inCommand.client with status := 1 }, .gotStatus) := by
  decide

/-! ## The deadline -/

/-- The status that a `handleRxData` has recorded before `cmdEnd` or in its loop, and the clock reading
that follows in the loop. -/
def recorded (t : Nat) (s : AtState) (uart : Uart) : List Int → Option (Int × Option Int)
  | [] => if s.client.status = noStatus then none else some (s.client.status, none)
  | now :: clock =>
    if s.client.status = noStatus then
      let (s, uart, _) := s.handleRxData t uart.rx uart.sched
      if s.client.status ≠ noStatus then some (s.client.status, some now)
      else if s.client.timedOut now then none
      else recorded t s uart clock
    else some (s.client.status, none)

/-- The clock reading is not past the deadline of the command. -/
def InTime (c : AtClient) (now : Option Int) : Prop := ∀ n ∈ now, c.timedOut n = false

theorem handleRxData_timedOut (t : Nat) (s : AtState) (rx : List UInt8) (sched : List Arrival)
    (now : Int) : (s.handleRxData t rx sched).1.client.timedOut now = s.client.timedOut now := by
  have hsetup := handleRxData_setup t s rx sched
  have h1 := congrArg Setup.cmdStartTime hsetup
  have h2 := congrArg Setup.cmdTimeout hsetup
  simp only [AtClient.setup] at h1 h2
  rw [AtClient.timedOut, AtClient.timedOut, h1, h2]

/-- The loop of `cmdEnd` is left with the status recorded in time, or with that of a timeout. -/
theorem endLoop_of_recorded (t : Nat) {s : AtState} {uart : Uart} {clock : List Int} {v : Int}
    {now : Option Int} (h : s.recorded t uart clock = some (v, now)) :
    ∃ s' h', s.endLoop t uart clock = some (s', h') ∧
      (InTime s.client now ∧ s'.client.status = v ∨
        ¬InTime s.client now ∧ s'.client.status = errorCmdTimeout) := by
  induction clock generalizing s uart with
  | nil =>
    by_cases hst : s.client.status = noStatus
    · simp [recorded, hst] at h
    · simp only [recorded, hst, ↓reduceIte, Option.some.injEq, Prod.mk.injEq] at h
      obtain ⟨rfl, rfl⟩ := h
      exact ⟨s, ⟨uart, []⟩, by rw [endLoop, if_neg hst], .inl ⟨nofun, rfl⟩⟩
  | cons n clock ih =>
    by_cases hst : s.client.status = noStatus
    · have hto := handleRxData_timedOut t s uart.rx uart.sched
      rcases hrx : s.handleRxData t uart.rx uart.sched with ⟨s1, uart1, ret⟩
      rw [hrx] at hto
      dsimp only at hto
      simp only [recorded, hst, ↓reduceIte, hrx] at h
      rw [endLoop, if_pos hst]
      simp only [hrx, cmdEndCheck]
      by_cases hst1 : s1.client.status = noStatus
      · rw [if_neg (by simpa using hst1)] at h
        by_cases hlate : s1.client.timedOut n = true
        · simp [hlate] at h
        · simp only [hlate, Bool.false_eq_true, ↓reduceIte, hst1, bne_self_eq_false] at h ⊢
          obtain ⟨s', h', hend, hout⟩ := ih h
          refine ⟨s', h', hend, ?_⟩
          simpa only [InTime, hto] using hout
      · rw [if_pos hst1] at h
        obtain ⟨rfl, rfl⟩ := Prod.mk.inj (Option.some.inj h)
        by_cases hlate : s1.client.timedOut n = true
        · simp only [hlate, ↓reduceIte]
          refine ⟨_, _, rfl, .inr ⟨fun hin => ?_, rfl⟩⟩
          have := hin n rfl
          rw [← hto, hlate] at this
          cases this
        · have hne : (s1.client.status != noStatus) = true := by simpa using hst1
          simp only [hlate, hne, Bool.false_eq_true, ↓reduceIte]
          refine ⟨_, _, rfl, .inl ⟨fun m hm => ?_, rfl⟩⟩
          obtain rfl := Option.some.inj hm
          rw [← hto]
          simpa using hlate
    · simp only [recorded, hst, ↓reduceIte, Option.some.injEq, Prod.mk.injEq] at h
      obtain ⟨rfl, rfl⟩ := h
      exact ⟨s, ⟨uart, n :: clock⟩, by rw [endLoop, if_neg hst], .inl ⟨nofun, rfl⟩⟩

/-- **A recorded status** is what `cmdEnd` leaves, and not the status of a timeout, exactly if the
clock reading that follows is in time and the status is not itself that of a timeout. -/
theorem cmdEnd_keeps_status (t : Nat) {s : AtState} {h : Host} {v : Int} {now : Option Int}
    (hrec : s.recorded t h.uart h.clock = some (v, now)) :
    ∃ s' h', s.cmdEndRx t h = some (s', h') ∧ s'.client.executingCmd = false ∧
      ((s'.client.status = v ∧ s'.client.status ≠ errorCmdTimeout) ↔
        InTime s.client now ∧ v ≠ errorCmdTimeout) := by
  obtain ⟨s1, h', hend, hout⟩ := endLoop_of_recorded t hrec
  refine ⟨{ s1 with client := s1.client.finishCmd t }, h', by rw [cmdEndRx, hend]; rfl, rfl, ?_⟩
  show (s1.client.status = v ∧ s1.client.status ≠ errorCmdTimeout) ↔ _
  rcases hout with ⟨hin, rfl⟩ | ⟨hlate, hst⟩
  · exact ⟨fun hkept => ⟨hin, hkept.2⟩, fun hkept => ⟨rfl, hkept.2⟩⟩
  · exact ⟨fun hkept => absurd hst hkept.2, fun hkept => absurd hkept.1 hlate⟩

/-- A command that is answered by `OK` at time `now`. -/
def answeredAt (now : Int) : Host := ⟨⟨text "OK\r", List.replicate 3 (.avail 1)⟩, [now]⟩

theorem cmdEnd_keeps_status_ok : ∃ s' h', inCommand.cmdEndRx 0 (answeredAt 9000) = some (s', h') ∧
    s'.client.status = 0 := by
  obtain ⟨s', h', hend, -, hkept⟩ := cmdEnd_keeps_status (s := inCommand) (h := answeredAt 9000)
    (v := 0) 0 (show _ = some (0, some 9000) by decide)
  refine ⟨s', h', hend, (hkept.2 ⟨fun n hn => ?_, by decide⟩).1⟩
  obtain rfl := Option.some.inj hn
  decide

/-- An `OK` that is read behind the deadline is replaced. -/
theorem late_status_replaced :
    inCommand.recorded 0 (answeredAt 10001).uart (answeredAt 10001).clock = some (0, some 10001) ∧
    (inCommand.cmdEndRx 0 (answeredAt 10001)).map (fun x => x.1.client.status) =
      some errorCmdTimeout := by
  decide

end AtState
