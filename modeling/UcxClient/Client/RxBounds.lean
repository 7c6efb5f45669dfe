import UcxClient.Client.RxFacts

/-!
# The bounds of the receiver

`RxBounds`: the line buffer is not full and holds printable characters, at most two length bytes
have been counted and a transfer has not written past its buffer. A read that returns no more than
was asked for keeps this (`rxStep_bounds`).
-/

namespace AtState

open AtClient

structure RxBounds (c : AtClient) : Prop where
  rxBufferPos : c.rxBuffer.length < c.rxBufferLen
  printable : ∀ b ∈ c.rxBuffer, isprint b = true
  headerCount : c.binaryRx.rxHeaderCount ≤ 2
  bufferPos : c.binaryRx.bufferPos ≤ c.binaryRx.bufferSize

theorem rxBounds_init (reentrant : Bool) {rxBufferLen : Nat} (pUrcBuffer : List UInt8)
    (h : 1 ≤ rxBufferLen) : RxBounds (uCxAtClientInit reentrant rxBufferLen pUrcBuffer) :=
  ⟨h, nofun, Nat.zero_le 2, Nat.le_refl 0⟩

section
variable {t : Nat} {s : AtState}

theorem RxBounds.congr {c c' : AtClient} (h : RxBounds c) (h1 : c'.rxBuffer = c.rxBuffer)
    (h2 : c'.rxBufferLen = c.rxBufferLen) (h3 : c'.binaryRx = c.binaryRx) : RxBounds c' := by
  refine ⟨?_, ?_, ?_, ?_⟩
  · rw [h1, h2]
    exact h.rxBufferPos
  · rw [h1]
    exact h.printable
  · rw [h3]
    exact h.headerCount
  · rw [h3]
    exact h.bufferPos

/-- The line buffer has been emptied. -/
theorem RxBounds.cleared {c c' : AtClient} (h : RxBounds c) (h1 : c'.rxBuffer = [])
    (h2 : c'.rxBufferLen = c.rxBufferLen)
    (h3 : c'.binaryRx.rxHeaderCount ≤ 2) (h4 : c'.binaryRx.bufferPos ≤ c'.binaryRx.bufferSize) :
    RxBounds c' := by
  refine ⟨?_, ?_, h3, h4⟩
  · rw [h1, h2]
    exact Nat.lt_of_le_of_lt (Nat.zero_le _) h.rxBufferPos
  · rw [h1]
    nofun

theorem binaryRxNext_bounds (t : Nat) (h : RxBounds s.client) : RxBounds (s.binaryRxNext t).1.client := by
  rcases s.binaryRxNext_cases t with ⟨-, heq⟩ | ⟨-, heq⟩
  · rw [heq]
    exact h
  · rw [heq]
    simp only [binaryRxDone]
    split <;> exact ⟨h.rxBufferPos, h.printable, Nat.zero_le 2, h.bufferPos⟩

theorem setupBinaryTransfer_bufferPos (t : Nat) (s : AtState) (ret : ParserCode) (n : Nat) :
    (setupBinaryTransfer t s ret n).client.binaryRx.bufferPos = 0 := by
  cases ret with
  | gotUrc =>
    simp only [setupBinaryTransfer]
    split <;> rfl
  | _ => rfl

theorem readChar_bounds (h : RxBounds s.client) (bytes : List UInt8) :
    RxBounds (s.readChar t bytes).1.client := by
  cases charRead bytes with
  | none hone =>
    rw [readChar_none t s hone]
    exact h
  | eol heol =>
    rw [readChar_eol t s heol]
    rcases hp : s.client.parseLine t s.client.rxBuffer with ⟨c, ret⟩
    obtain ⟨hset, -, hx⟩ := parseLine_setup hp
    have hlen : c.rxBufferLen = s.client.rxBufferLen := congrArg Setup.rxBufferLen hset
    refine h.cleared ?_ ?_ ?_ ?_
    · unfold lineDone
      split <;> rfl
    · refine .trans ?_ hlen
      unfold lineDone
      split <;> rfl
    · rw [binaryRx_lineDone, hx]
      exact h.headerCount
    · rw [binaryRx_lineDone, hx]
      exact h.bufferPos
  | soh => exact h.congr rfl rfl rfl
  | @print b hpr =>
    rw [readChar_print t s hpr]
    have hpos := h.rxBufferPos
    by_cases hfull : (s.client.rxBuffer ++ [b]).length = s.client.rxBufferLen
    · simp only [hfull, ↓reduceIte]
      exact h.cleared rfl rfl h.headerCount h.bufferPos
    · simp only [hfull, ↓reduceIte]
      refine ⟨?_, ?_, h.headerCount, h.bufferPos⟩
      · simp only [List.length_append, List.length_singleton] at hfull ⊢
        omega
      · intro b' hb'
        rcases List.mem_append.1 hb' with hb' | hb'
        · exact h.printable b' hb'
        · rw [List.mem_singleton.1 hb']
          exact hpr
  | skip hsoh heol hpr =>
    rw [readChar_skip t s hsoh heol hpr]
    exact h

theorem readHeader_bounds (h : RxBounds s.client) {bytes : List UInt8}
    (hfit : s.client.binaryRx.rxHeaderCount + bytes.length ≤ 2) :
    RxBounds (s.readHeader t bytes).1.client := by
  simp only [readHeader]
  split
  · exact ⟨h.rxBufferPos, h.printable, hfit, h.bufferPos⟩
  · rcases hp : (s.storeHeader bytes).client.parseLine t (s.storeHeader bytes).client.rxBuffer
      with ⟨c, code⟩
    obtain ⟨n, -, hn⟩ := (s.storeHeader bytes).startTransfer_eq t hp
    obtain ⟨hset, -, hx⟩ := parseLine_setup hp
    have hsetup := setupBinaryTransfer_setup t { s.storeHeader bytes with client := c } code n
    obtain ⟨-, hc, -⟩ := setupBinaryTransfer_client t { s.storeHeader bytes with client := c } code n
    rw [hn]
    refine binaryRxNext_bounds t (h.cleared rfl ?_ ?_ ?_)
    · exact (congrArg Setup.rxBufferLen hsetup).trans (congrArg Setup.rxBufferLen hset)
    · simp only [hc, hx]
      exact hfit
    · simp only [setupBinaryTransfer_bufferPos, Nat.zero_le]

theorem takePayload_bounds (h : RxBounds s.client) {bytes : List UInt8}
    (hfit : 0 < s.remainingBuf → bytes.length ≤ s.remainingBuf) :
    RxBounds (s.takePayload bytes).client := by
  have hset := s.takePayload_setup bytes
  obtain ⟨-, -, hc, -⟩ := s.takePayload_client bytes
  have hbuf : (s.takePayload bytes).client.rxBuffer = s.client.rxBuffer := by
    simp only [takePayload, storePayload]
    split
    · split <;> rfl
    · rfl
  refine ⟨?_, ?_, hc ▸ h.headerCount, ?_⟩
  · rw [hbuf, show (s.takePayload bytes).client.rxBufferLen = s.client.rxBufferLen from
      congrArg Setup.rxBufferLen hset]
    exact h.rxBufferPos
  · rw [hbuf]
    exact h.printable
  · rw [s.takePayload_bufferSize bytes]
    have hpos := h.bufferPos
    by_cases hrem : 0 < s.remainingBuf
    · have hle := hfit hrem
      have heq : (s.takePayload bytes).client.binaryRx.bufferPos =
          s.client.binaryRx.bufferPos + bytes.length := by
        simp only [takePayload, storePayload, hrem, decide_true, ↓reduceIte, BinaryRx.advance]
        split <;> rfl
      unfold remainingBuf at hle
      omega
    · have heq : (s.takePayload bytes).client.binaryRx.bufferPos = s.client.binaryRx.bufferPos := by
        simp only [takePayload, hrem, decide_false, Bool.false_eq_true, ↓reduceIte, BinaryRx.advance]
      omega

/-- **A read that returns no more than was asked for keeps the bounds.** -/
theorem rxStep_bounds (h : RxBounds s.client) {r : ReadStatus}
    (hfit : ∀ bytes, r = .got bytes → bytes.length ≤ s.wants) :
    RxBounds (s.rxStep t r).1.client := by
  cases r with
  | failed err => exact h.congr rfl rfl rfl
  | got bytes =>
    have hle := hfit bytes rfl
    simp only [rxStep]
    by_cases hbin : s.client.isBinaryRx = true
    · by_cases hcount : s.client.binaryRx.rxHeaderCount < 2
      · simp only [wants, hbin, Bool.not_true, Bool.false_eq_true, hcount, ↓reduceIte] at hle ⊢
        exact readHeader_bounds h (by omega)
      · simp only [wants, hbin, Bool.not_true, Bool.false_eq_true, hcount, ↓reduceIte] at hle ⊢
        have hb : RxBounds (s.takePayload bytes).client := takePayload_bounds h fun hrem => by
          rw [if_pos hrem] at hle
          omega
        simp only [readPayload]
        split
        · exact hb
        · exact binaryRxNext_bounds t hb
    · simp only [hbin, Bool.not_false, ↓reduceIte]
      exact readChar_bounds h bytes

end

end AtState
