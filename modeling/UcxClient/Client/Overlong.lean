import UcxClient.Client.ByteWise
import UcxClient.Queue.Layout

/-!
# Lines that are too long

When the line buffer is full it is emptied and the line goes on. Of a line of any length the last
characters are left in the buffer at its end, as many as its length is more than a multiple of the
buffer's (`leftOver`, `rxBytes_text`), and they are parsed as a line of their own. So the line is without
effect exactly if what is left of it is no line that the parser acts on (`overlong_discarded_iff`).
-/

open UrcQueue AtClient

namespace UrcQueue

/-- A refused line changes at most the lock and the record of a failed assertion. -/
theorem enqueueBegin_refused_eq (t : Nat) {q : UrcQueue} {line : List UInt8}
    (hs : q.hasSpaceFor line.length = false) : ∃ queueMutex assertFailed,
    (uCxAtUrcQueueEnqueueBegin t q line).2 = { q with queueMutex, assertFailed } := by
  have hs' : ({ q with queueMutex := q.queueMutex.lock t } : UrcQueue).hasSpaceFor line.length
      = false := hs
  simp only [uCxAtUrcQueueEnqueueBegin, hasSpaceFor_assert, hs', Bool.false_eq_true, ↓reduceIte]
  unfold UrcQueue.assert
  split
  · exact ⟨_, q.assertFailed, rfl⟩
  · exact ⟨_, true, rfl⟩

end UrcQueue

namespace AtState

/-! ## The line buffer -/

/-- What a line buffer of `n` bytes holds of a line at its end. -/
def leftOver (n : Nat) (line : List UInt8) : List UInt8 := line.drop (line.length / n * n)

theorem leftOver_of_lt {n : Nat} {line : List UInt8} (h : line.length < n) : leftOver n line = line := by
  rw [leftOver, Nat.div_eq_of_lt h, Nat.zero_mul, List.drop_zero]

/-- A full buffer is forgotten. -/
theorem leftOver_append {n : Nat} (hn : 0 < n) {full : List UInt8} (h : full.length = n)
    (line : List UInt8) : leftOver n (full ++ line) = leftOver n line := by
  have hdiv : (full ++ line).length / n * n = full.length + line.length / n * n := by
    rw [List.length_append, h, Nat.add_div_left _ hn, Nat.succ_mul, Nat.add_comm]
  rw [leftOver, leftOver, hdiv, ← List.drop_drop, List.drop_left]

/-- The state with other characters in the line buffer. -/
def withLine (s : AtState) (rxBuffer : List UInt8) : AtState :=
  { s with client := { s.client with rxBuffer } }

/-- The bytes belong to the text of a line: none of them ends it or starts a binary transfer. The
printable ones are its characters, the others are skipped. -/
def IsText (bytes : List UInt8) : Prop := ∀ b ∈ bytes, b ≠ sohChar ∧ isEol b = false

instance (bytes : List UInt8) : Decidable (IsText bytes) :=
  inferInstanceAs (Decidable (∀ b ∈ bytes, b ≠ sohChar ∧ isEol b = false))

section
variable {s : AtState}

/-- A byte of the text. -/
theorem rxByte_text (t : Nat) (hbin : s.client.isBinaryRx = false) {b : UInt8} (hsoh : b ≠ sohChar)
    (heol : isEol b = false) : rxByte t s b =
      (if isprint b then
        s.withLine (if s.client.rxBuffer.length + 1 = s.client.rxBufferLen then []
          else s.client.rxBuffer ++ [b])
      else s, []) := by
  rw [rxByte, rxStep_char hbin]
  by_cases hb : isprint b = true
  · rw [readChar_print t s hb, if_pos hb, List.length_append, List.length_singleton]
    rfl
  · rw [readChar_skip t s hsoh heol (by simpa using hb), if_neg hb]
    rfl

/-- The text of a line that has begun. -/
theorem rxBytes_text_from (t : Nat) (hbin : s.client.isBinaryRx = false)
    (hlt : s.client.rxBuffer.length < s.client.rxBufferLen) {bytes : List UInt8}
    (htext : IsText bytes) : rxBytes t s bytes =
      (s.withLine (leftOver s.client.rxBufferLen (s.client.rxBuffer ++ bytes.filter isprint)), []) := by
  induction bytes generalizing s with
  | nil =>
    rw [List.filter_nil, List.append_nil, leftOver_of_lt hlt]
    rfl
  | cons b bytes ih =>
    obtain ⟨hsoh, heol⟩ := htext b List.mem_cons_self
    have hrest : IsText bytes := fun d hd => htext d (List.mem_cons_of_mem b hd)
    have hcons : rxBytes t s (b :: bytes) =
        ((rxBytes t (rxByte t s b).1 bytes).1, (rxByte t s b).2 ++ (rxBytes t (rxByte t s b).1 bytes).2) :=
      Machine.feed_cons s b bytes
    rw [hcons, rxByte_text t hbin hsoh heol]
    by_cases hb : isprint b = true
    · rw [if_pos hb, List.filter_cons_of_pos hb,
        List.append_cons s.client.rxBuffer b (bytes.filter isprint)]
      by_cases hfull : s.client.rxBuffer.length + 1 = s.client.rxBufferLen
      · -- the buffer is full
        have hpos : 0 < s.client.rxBufferLen := by omega
        rw [if_pos hfull, ih (s := s.withLine []) hbin hpos hrest,
          leftOver_append hpos (by rw [List.length_append]; exact hfull)]
        rfl
      · have hlt' : (s.client.rxBuffer ++ [b]).length < s.client.rxBufferLen := by
          rw [List.length_append, List.length_singleton]
          omega
        rw [if_neg hfull, ih (s := s.withLine (s.client.rxBuffer ++ [b])) hbin hlt' hrest]
        rfl
    · rw [if_neg hb, List.filter_cons_of_neg hb, ih hbin hlt hrest]
      rfl

/-- **The text of a line.** -/
theorem rxBytes_text (t : Nat) (hbin : s.client.isBinaryRx = false) (hbuf : s.client.rxBuffer = [])
    (hn : 0 < s.client.rxBufferLen) {bytes : List UInt8} (htext : IsText bytes) :
    rxBytes t s bytes = (s.withLine (leftOver s.client.rxBufferLen (bytes.filter isprint)), []) := by
  have h := rxBytes_text_from t hbin (by rw [hbuf]; exact hn) htext
  rwa [hbuf, List.nil_append] at h

/-! ## The end of the line -/

/-- The end of a line of which `line` is in the buffer. -/
theorem rxStep_eol (t : Nat) (hbin : s.client.isBinaryRx = false) (line : List UInt8) {b : UInt8}
    (hb : isEol b = true) : (s.withLine line).rxStep t (.got [b]) =
      (let (c, ret) := (s.withLine line).client.onLine t line
        (lineKind s.client.executingCmd s.client.pExpectedRsp line)
      ({ s with client := c.lineDone t ret }, lineRet ret)) := by
  have hparse := parseLine_eq t (s.withLine line).client line
  rw [rxStep_char (s := s.withLine line) hbin, readChar_eol t _ hb,
    show (s.withLine line).client.rxBuffer = line from rfl, hparse]
  rfl

theorem rxByte_eol (t : Nat) (hbin : s.client.isBinaryRx = false) (line : List UInt8) {b : UInt8}
    (hb : isEol b = true) : rxByte t (s.withLine line) b =
      (let (c, ret) := (s.withLine line).client.onLine t line
        (lineKind s.client.executingCmd s.client.pExpectedRsp line)
      ({ s with client := c.lineDone t ret },
        rxEvent { s with client := c.lineDone t ret } (lineRet ret))) := by
  rw [rxByte, rxStep_eol t hbin line hb]

/-- The bytes report nothing and change nothing but the lock of the queue and its record of a failed
assertion. Whatever follows is received as if they had not been there. -/
def WithoutEffect (t : Nat) (s : AtState) (bytes : List UInt8) : Prop :=
  ∃ queueMutex assertFailed, rxBytes t s bytes =
    ({ s with client := { s.client with
      urcQueue := { s.client.urcQueue with queueMutex, assertFailed } } }, [])

/-- The parser does not act on the line: it is none of those that it knows, or a URC for which the
queue has no room. -/
def Ignores (c : AtClient) (line : List UInt8) : Prop :=
  lineKind c.executingCmd c.pExpectedRsp line = .other ∨
  (lineKind c.executingCmd c.pExpectedRsp line = .urc ∧ c.urcQueue.hasSpaceFor line.length = false)

/-- **A line of any length has no effect** exactly if what is left of it in the buffer is a line that the
parser does not act on. -/
theorem overlong_discarded_iff (t : Nat) (hbin : s.client.isBinaryRx = false)
    (hbuf : s.client.rxBuffer = []) (hn : 0 < s.client.rxBufferLen) {bytes : List UInt8}
    (htext : IsText bytes) {b : UInt8} (hb : isEol b = true) :
    WithoutEffect t s (bytes ++ [b]) ↔
      Ignores s.client (leftOver s.client.rxBufferLen (bytes.filter isprint)) := by
  have hrx : rxBytes t s (bytes ++ [b]) =
      rxByte t (s.withLine (leftOver s.client.rxBufferLen (bytes.filter isprint))) b := by
    have happ : Machine.feed (rxByte t) s (bytes ++ [b]) = _ := Machine.feed_append s bytes [b]
    rw [Machine.feed_singleton] at happ
    rw [rxBytes, happ, ← rxBytes, rxBytes_text t hbin hbuf hn htext]
    rfl
  generalize leftOver s.client.rxBufferLen (bytes.filter isprint) = line at hrx ⊢
  have hempty : ({ s.client with rxBuffer := [] } : AtClient) = s.client := by rw [← hbuf]
  unfold WithoutEffect Ignores
  rw [hrx, rxByte_eol t hbin line hb]
  cases hk : lineKind s.client.executingCmd s.client.pExpectedRsp line with
  | status v =>
    refine iff_of_false ?_ (by simp)
    rintro ⟨_, _, h⟩
    cases (Prod.mk.inj h).2
  | rsp p =>
    refine iff_of_false ?_ (by simp)
    rintro ⟨_, _, h⟩
    cases (Prod.mk.inj h).2
  | other =>
    refine iff_of_true ⟨s.client.urcQueue.queueMutex, s.client.urcQueue.assertFailed, ?_⟩ (.inl rfl)
    simp only [onLine, lineDone, withLine]
    exact Prod.ext (congrArg (fun c => { s with client := c }) hempty) rfl
  | urc =>
    simp only [onLine, enqueueBegin_fst]
    cases hs : s.client.urcQueue.hasSpaceFor line.length with
    | true =>
      -- the queue has grown by the entry
      refine iff_of_false ?_ (by simp)
      rintro ⟨_, _, h⟩
      obtain ⟨-, -, -, hpos⟩ := enqueueBegin_accepted (t := t) hs
      have hpos' := congrArg (fun x => x.1.client.urcQueue.bufferPos) h
      simp only [withLine, hs, ↓reduceIte, lineDone, uCxAtUrcQueueEnqueueEnd, bufferPos_assert, hpos,
        length_newEntry] at hpos'
      omega
    | false =>
      refine iff_of_true ?_ (.inr ⟨trivial, rfl⟩)
      obtain ⟨queueMutex, assertFailed, hq⟩ := enqueueBegin_refused_eq t hs
      refine ⟨queueMutex, assertFailed, ?_⟩
      simp only [withLine, hs, Bool.false_eq_true, ↓reduceIte, lineDone, hq]
      refine Prod.ext ?_ rfl
      simp only [reduceCtorEq, ↓reduceIte, hbuf]

end

/-- A client with a line buffer of 8 bytes, executing a command. -/
def executing : AtState :=
  ⟨{ uCxAtClientInit false 8 (List.replicate 32 0) with executingCmd := true, status := noStatus },
    ⟨fun _ _ => 0, fun _ => 0⟩, (0, 0)⟩

/-- A line whose length is a multiple of the buffer's. -/
theorem overlong_discarded_sixteen : WithoutEffect 0 executing (List.replicate 16 (ch 'X') ++ [ch '\r']) :=
  (overlong_discarded_iff 0 rfl rfl (by decide) (by decide +kernel) (by decide)).2 (.inl (by decide +kernel))

/-- A line of ten characters, of which the last two are OK. -/
def trailingOK : List UInt8 := text "XXXXXXXXOK"

/-- It ends the command. -/
theorem overlong_reported : executing.client.rxBufferLen ≤ trailingOK.length ∧
    (∀ b ∈ trailingOK, isprint b = true) ∧ ¬WithoutEffect 0 executing (trailingOK ++ [ch '\r']) ∧
    (rxBytes 0 executing (trailingOK ++ [ch '\r'])).1.client.status = 0 := by
  refine ⟨by decide, by decide +kernel, ?_, by decide +kernel⟩
  intro ⟨_, _, h⟩
  have hev : (rxBytes 0 executing (trailingOK ++ [ch '\r'])).2.isEmpty = false := by
    decide +kernel
  rw [h] at hev
  cases hev

end AtState
