import UcxClient.Lib.Access
import UcxClient.Text.Reference
import UcxClient.Text.Values

/-!
# Escaped strings in a buffer

`uCxAtUtilWriteEscString` with its stores. The check before each character leaves room for its escape
sequence and the closing quote, so the loop stops exactly at the first character that does not fit
(`run_writeEscLoop`); what it has written by then stays in the buffer.

`writeEscString_exact`: no store is outside the buffer, and the value that is returned is the length of the text
if and only if this is less than the size. The text is one token of the tokenizer.
-/

open ByteMem Logged

theorem length_escapedForm (s : List UInt8) :
    (escapedForm s).length = (s.flatMap escapeCharacter).length + 2 := by
  simp [escapedForm]

namespace Accesses

/-- The loop of `uCxAtUtilWriteEscString`: the next index to write to, unless there is no room. -/
def writeEscLoop (pEnd : Nat) : List UInt8 → Nat → Logged (Option Nat)
  | [], pWrite => return some pWrite
  | c :: cs, pWrite => do
    let escaped := escapeCharacter c
    if pEnd ≤ pWrite + escaped.length + 1 then
      return none
    else
      storeRange pWrite escaped
      writeEscLoop pEnd cs (pWrite + escaped.length)

/-- `uCxAtUtilWriteEscString` to the `outBufSize` bytes from index `pOutBuf` on: the return value. -/
def uCxAtUtilWriteEscString (pStr : List UInt8) (pOutBuf outBufSize : Nat) : Logged Nat := do
  if outBufSize < 3 then
    return 0
  else
    store pOutBuf (ch '"')
    match ← writeEscLoop (pOutBuf + outBufSize) pStr (pOutBuf + 1) with
    | none => return 0
    | some pWrite =>
      store pWrite (ch '"')
      return pWrite + 1 - pOutBuf

/-- The loop writes whole escape sequences, and all of them if and only if the closing quote still fits. -/
theorem run_writeEscLoop (pEnd : Nat) (s : List UInt8) {pWrite : Nat} (hroom : pWrite + 1 < pEnd)
    (m : List UInt8) :
    ∃ written, pWrite + written.length + 1 < pEnd ∧
      (pWrite + (s.flatMap escapeCharacter).length + 1 < pEnd → written = s.flatMap escapeCharacter) ∧
      (writeEscLoop pEnd s pWrite).run m =
        (if pWrite + (s.flatMap escapeCharacter).length + 1 < pEnd then
          some (pWrite + (s.flatMap escapeCharacter).length) else none, stores pWrite written) := by
  induction s generalizing pWrite m with
  | nil =>
    refine ⟨[], hroom, fun _ => rfl, ?_⟩
    rw [List.flatMap_nil, List.length_nil, if_pos (by omega)]
    rfl
  | cons c s ih =>
    rw [List.flatMap_cons, List.length_append, writeEscLoop]
    by_cases hfit : pEnd ≤ pWrite + (escapeCharacter c).length + 1
    · refine ⟨[], hroom, fun h => by omega, ?_⟩
      rw [if_pos hfit, if_neg (by omega)]
      rfl
    · obtain ⟨written, hlt, hall, hrun⟩ := ih (Nat.lt_of_not_le hfit) (ByteMem.store m pWrite (escapeCharacter c))
      rw [Nat.add_assoc pWrite] at hlt hall hrun
      refine ⟨escapeCharacter c ++ written, by rw [List.length_append]; omega, fun h => ?_, ?_⟩
      · rw [hall (by omega)]
      · rw [if_neg hfit, stores_append]
        refine bind_eq (run_storeRange _ _ _) ?_
        rw [replay_stores, hrun, Nat.add_assoc pWrite]

/-- A call writes the text if it is shorter than the buffer, or as much of it as has fitted by then. -/
theorem run_writeEscString (s m : List UInt8) (pOutBuf outBufSize : Nat) :
    ∃ written, written.length ≤ outBufSize ∧
      (uCxAtUtilWriteEscString s pOutBuf outBufSize).run m =
        if (escapedForm s).length < outBufSize then
          ((escapedForm s).length, stores pOutBuf (escapedForm s))
        else (0, stores pOutBuf written) := by
  have hlen := length_escapedForm s
  by_cases hsize : outBufSize < 3
  · refine ⟨[], Nat.zero_le _, ?_⟩
    rw [uCxAtUtilWriteEscString, if_pos hsize, if_neg (by omega)]
    rfl
  obtain ⟨written, hlt, hall, hrun⟩ := run_writeEscLoop (pOutBuf + outBufSize) s
    (show pOutBuf + 1 + 1 < pOutBuf + outBufSize by omega) (m.set pOutBuf (ch '"'))
  refine ⟨ch '"' :: written, by rw [List.length_cons]; omega, ?_⟩
  rw [uCxAtUtilWriteEscString, if_neg hsize]
  by_cases hfit : (escapedForm s).length < outBufSize
  · rw [if_pos (by omega)] at hrun
    rw [if_pos hfit]
    have hwritten := hall (by omega)
    have htext : stores pOutBuf (escapedForm s) = [.store pOutBuf (ch '"')] ++ (stores (pOutBuf + 1) written ++
        ([.store (pOutBuf + 1 + (s.flatMap escapeCharacter).length) (ch '"')] ++ [])) := by
      rw [escapedForm, List.cons_append, stores, stores_append, hwritten]
      rfl
    rw [htext]
    refine bind_eq (run_store _ _ _) (bind_eq hrun (bind_eq (run_store _ _ _) ?_))
    rw [run_pure]
    congr 1
    omega
  · rw [if_neg (by omega)] at hrun
    rw [if_neg hfit]
    have hwritten : stores pOutBuf (ch '"' :: written) =
        [.store pOutBuf (ch '"')] ++ (stores (pOutBuf + 1) written ++ []) := by
      rw [List.append_nil]
      rfl
    rw [hwritten]
    exact bind_eq (run_store _ _ _) (bind_eq hrun (run_pure _ _))

end Accesses

/-! ## The text -/

theorem zero_notMem_escapedForm (s : List UInt8) : 0 ∉ escapedForm s := by
  intro h
  simp only [escapedForm, List.mem_append, List.mem_cons, List.mem_flatMap, List.not_mem_nil, or_false] at h
  have hquote : (0 : UInt8) ≠ ch '"' := by decide
  rcases h with (h | ⟨c, -, h⟩) | h
  · exact hquote h
  · exact absurd (isprint_escapeCharacter h) (by decide)
  · exact hquote h

theorem closed_escapedForm (s : List UInt8) : Closed (escapedForm s) := (Spells.of_escapes s).closed

/-- The tokenizer finds the end of the text behind its closing quote. -/
theorem findParamEnd_escapedForm (s pre post : List UInt8) :
    uCxAtUtilFindParamEnd (cstr (pre ++ escapedForm s ++ 0 :: post) pre.length) =
        some (escapedForm s).length ∧
      uCxAtUtilFindParamEnd (cstr (pre ++ escapedForm s ++ ch ',' :: post) pre.length) =
        some (escapedForm s).length := by
  constructor
  · rw [cstr_mid (zero_notMem_escapedForm s), findParamEnd_end (closed_escapedForm s)]
  · have htake : cstr (pre ++ escapedForm s ++ ch ',' :: post) pre.length =
        escapedForm s ++ ch ',' :: post.takeWhile (· ≠ 0) := by
      have hall : ∀ c ∈ escapedForm s, decide (c ≠ 0) = true := by
        intro c hc
        exact decide_eq_true fun h => zero_notMem_escapedForm s (h ▸ hc)
      rw [cstr, List.append_assoc, List.drop_left, List.takeWhile_append_of_pos hall,
        List.takeWhile_cons_of_pos (by decide)]
    rw [htake, findParamEnd_comma (closed_escapedForm s)]

/-- The stores of a call are those of the text that `uCxAtUtilWriteEscString` stands for elsewhere. -/
theorem writeEscString_text (s m : List UInt8) (pOutBuf outBufSize : Nat) :
    uCxAtUtilWriteEscString s outBufSize =
      if ((Accesses.uCxAtUtilWriteEscString s pOutBuf outBufSize).run m).1 = 0 then none
      else some (escapedForm s) := by
  have hlen := length_escapedForm s
  obtain ⟨written, -, hrun⟩ := Accesses.run_writeEscString s m pOutBuf outBufSize
  have htext : uCxAtUtilWriteEscString s outBufSize =
      if (escapedForm s).length < outBufSize then some (escapedForm s) else none := by
    by_cases hsize : outBufSize < 3
    · rw [uCxAtUtilWriteEscString, if_pos hsize, if_neg (by omega)]
    · exact writeEscString_eq s (Nat.le_of_not_lt hsize)
  rw [hrun, htext]
  by_cases hfit : (escapedForm s).length < outBufSize
  · rw [if_pos hfit, if_pos hfit]
    exact (if_neg (by omega)).symm
  · rw [if_neg hfit, if_neg hfit, if_pos rfl]

/-- What a call for `s` returns and writes: nothing outside the buffer, and the whole text or 0. -/
structure EscWritten (s m : List UInt8) (pOutBuf outBufSize : Nat) (r : Nat × List Access) : Prop where
  inside : ∀ i b, .store i b ∈ r.2 → pOutBuf ≤ i ∧ i < pOutBuf + outBufSize
  fits : r.1 ≠ 0 ↔ (escapedForm s).length < outBufSize
  text : r.1 ≠ 0 → r.1 = (escapedForm s).length ∧ replay m r.2 = store m pOutBuf (escapedForm s)

/-- **An escaped string respects its buffer.** -/
theorem writeEscString_exact (s m : List UInt8) (pOutBuf outBufSize : Nat) :
    EscWritten s m pOutBuf outBufSize ((Accesses.uCxAtUtilWriteEscString s pOutBuf outBufSize).run m) ∧
      ∀ pre post,
        uCxAtUtilFindParamEnd (cstr (pre ++ escapedForm s ++ 0 :: post) pre.length) =
            some (escapedForm s).length ∧
          uCxAtUtilFindParamEnd (cstr (pre ++ escapedForm s ++ ch ',' :: post) pre.length) =
            some (escapedForm s).length := by
  refine ⟨?_, findParamEnd_escapedForm s⟩
  have hlen := length_escapedForm s
  obtain ⟨written, hwritten, hrun⟩ := Accesses.run_writeEscString s m pOutBuf outBufSize
  rw [hrun]
  by_cases hfit : (escapedForm s).length < outBufSize
  · rw [if_pos hfit]
    refine ⟨fun i b hmem => ?_, iff_of_true (show (escapedForm s).length ≠ 0 by omega) hfit,
      fun _ => ⟨rfl, replay_stores _ _ _⟩⟩
    have hrange := mem_stores hmem
    omega
  · rw [if_neg hfit]
    refine ⟨fun i b hmem => ?_, iff_of_false (fun h => h rfl) hfit, fun h => absurd rfl h⟩
    have hrange := mem_stores hmem
    omega
