import UcxClient.Xmodem.Defs

/-!
# Waiting for a byte

The waits of the sender for the start signal, for the response to a block and for the ACK of EOT are one
loop, `awaitByte`: it reads until it has an answer to the byte that is read, or until the time is over
(`awaitByte_trace`).
-/

universe u

namespace Xmodem

/-! ## The calls of the UART -/

theorem Uart.write_eq {io io' : Uart} {pData : List UInt8} {n : Int}
    (h : io.write pData = some (n, io')) : io'.trace = io.trace ++ [.wrote pData n] := by
  unfold Uart.write at h
  split at h
  · cases h
  · cases h
    rfl

theorem Uart.read_eq {io io' : Uart} {byte : Option UInt8} (h : io.read = some (byte, io')) :
    io'.trace = io.trace ++ [.read byte] := by
  unfold Uart.read at h
  split at h
  · cases h
  · cases h
    rfl

theorem Port.getTimeMs_uart {io io' : Port} {now : Int} (h : io.getTimeMs = some (now, io')) :
    io'.uart = io.uart := by
  unfold Port.getTimeMs at h
  split at h
  · cases h
  · cases h
    rfl

theorem pause_uart {io io' : Port} (h : pause io = some io') : io'.uart = io.uart := by
  obtain ⟨⟨now, io1⟩, h1, h⟩ := Option.bind_eq_some_iff.1 h
  obtain ⟨clock, -, h⟩ := Option.bind_eq_some_iff.1 h
  cases h
  have := Port.getTimeMs_uart h1
  exact this

/-! ## The loop -/

section
variable {α : Type u} (answer : Option UInt8 → Option α) (expired : α)

/-- Read until there is an answer to a byte, or until the time is over. -/
def awaitByte (timeoutMs startTime : Int) (uart : Uart) : List Int → Option (α × Port)
  | [] => none
  | now :: clock =>
    if toInt32 (now - startTime) < timeoutMs then
      match uart.read with
      | none => none
      | some (byte, uart) =>
        match answer byte with
        | some a => some (a, ⟨uart, clock⟩)
        | none => awaitByte timeoutMs startTime uart clock
    else some (expired, ⟨uart, clock⟩)

variable {answer expired}

/-- **What a wait does**: reads without an answer, and then one with an answer unless the time is over. -/
theorem awaitByte_trace {timeoutMs startTime : Int} {uart : Uart} {clock : List Int} {a : α} {io : Port}
    (h : awaitByte answer expired timeoutMs startTime uart clock = some (a, io)) :
    ∃ ignored : List (Option UInt8), (∀ byte ∈ ignored, answer byte = none) ∧
      (a = expired ∧ io.uart.trace = uart.trace ++ ignored.map .read ∨
        ∃ byte, answer byte = some a ∧
          io.uart.trace = uart.trace ++ ignored.map .read ++ [.read byte]) := by
  induction clock generalizing uart with
  | nil => cases h
  | cons now clock ih =>
    simp only [awaitByte] at h
    split at h
    · split at h
      · cases h
      · next byte uart' hread =>
        have htr := Uart.read_eq hread
        split at h
        · next a' hanswer =>
          cases h
          exact ⟨[], nofun, .inr ⟨byte, hanswer, by simpa using htr⟩⟩
        · next hanswer =>
          obtain ⟨ignored, hnone, hend⟩ := ih h
          refine ⟨byte :: ignored, List.forall_mem_cons.2 ⟨hanswer, hnone⟩, ?_⟩
          simpa [htr] using hend
    · cases h
      exact ⟨[], nofun, .inl ⟨rfl, by simp⟩⟩

end

/-! ## The three waits -/

def startAnswer (byte : Option UInt8) : Option Int :=
  if byte = some cchr then some 0
  else if byte = some nak then some (-2)
  else if byte = some can then some (-3)
  else none

/-- An answer without a value is another try. -/
def responseAnswer (byte : Option UInt8) : Option (Option Int) :=
  if byte = some ack then some (some 0)
  else if byte = some nak then some none
  else if byte = some can then some (some (-3))
  else none

def eotAnswer (byte : Option UInt8) : Option Int := if byte = some ack then some 0 else none

section
variable (timeoutMs startTime : Int) (uart : Uart) (clock : List Int)

theorem startLoop_eq : startLoop timeoutMs startTime uart clock =
    awaitByte startAnswer (-1) timeoutMs startTime uart clock := by
  induction clock generalizing uart with
  | nil => rfl
  | cons now clock ih =>
    rw [startLoop, awaitByte]
    congr 1
    cases uart.read with
    | none => rfl
    | some r =>
      simp only [startAnswer, ih]
      repeat' split
      all_goals simp_all

theorem responseLoop_eq : responseLoop timeoutMs startTime uart clock =
    awaitByte responseAnswer none timeoutMs startTime uart clock := by
  induction clock generalizing uart with
  | nil => rfl
  | cons now clock ih =>
    rw [responseLoop, awaitByte]
    congr 1
    cases uart.read with
    | none => rfl
    | some r =>
      simp only [responseAnswer, ih]
      repeat' split
      all_goals simp_all

theorem eotLoop_eq : eotLoop timeoutMs startTime uart clock =
    awaitByte eotAnswer (-1) timeoutMs startTime uart clock := by
  induction clock generalizing uart with
  | nil => rfl
  | cons now clock ih =>
    rw [eotLoop, awaitByte]
    congr 1
    cases uart.read with
    | none => rfl
    | some r =>
      simp only [eotAnswer, ih]
      repeat' split
      all_goals simp_all

end

end Xmodem
