import Mathlib.Data.List.Forall2
import Mathlib.Data.List.TakeDrop
import UcxClient.Lib.CInt
import UcxClient.Text.Send

/-!
# What the UART takes of a command

`uCxAtClientSendCmdVaList` hands a command to `uPortUartWrite` part by part (`commandParts`) and looks at no
result, so that a part that is cut is followed by the next one.

* `Linux.command_written`: on Linux the UART takes the command exactly if no call of `write` fails.
* `Zephyr.command_fits`: on Zephyr it does exactly if each part finds room in the FIFO of the device.
-/

namespace SendCmd

/-! ## The parts of a command -/

/-- The parts of an integer list, the first one behind `buf[0] = c`. -/
def intListParts : UInt8 → List Int16 → List (List UInt8)
  | _, [] => [[ch ']']]
  | c, v :: vs => (c :: formatInt v.toInt) :: intListParts (ch ',') vs

/-- A string, which is one part if its escaped form fits in `buf`. -/
def stringParts (s : List UInt8) : List (List UInt8) :=
  match uCxAtUtilWriteEscString s bufSize with
  | some escaped => [escaped]
  | none => [[ch '"'], s, [ch '"']]

/-- The chunks of a byte array. -/
def hexParts : Nat → List UInt8 → Option (List (List UInt8))
  | 0, _ => some []
  | n + 1, pData =>
    if pData = [] then some []
    else do
      let chunkSize := (bufSize - 1) / 2
      let chunk ← uCxAtUtilBinaryToHex (pData.take chunkSize) bufSize
      let rest ← hexParts n (pData.drop chunkSize)
      some (chunk :: rest)

/-- The case of the format character of an argument: the parts written. -/
def argParts : Arg → Option (List (List UInt8))
  | .int i => some [formatInt i.toInt]
  | .intList pValues => some (if pValues = [] then [text "[]"] else intListParts (ch '[') pValues)
  | .str pStr => some (stringParts pStr.chars)
  | .binStr pStr => some (stringParts pStr)
  | .ipAddress pIpAddr => (uCxIpAddressToString pIpAddr bufSize).map ([·])
  | .macAddress pMacAddr => (uCxMacAddressToString pMacAddr bufSize).map ([·])
  | .btLeAddress pBtLeAddr => (uCxBdAddressToString pBtLeAddr bufSize).map ([·])
  | .binary pData =>
    if pData = [] then none
    else some [[1, UInt8.ofNat (pData.length / 256), UInt8.ofNat pData.length], pData]
  | .bytes pData => hexParts pData.length pData

/-- The loop over the format: the parts written, and whether a binary transfer was among them. -/
def paramParts : Bool → List UInt8 → List Arg → Option (List (List UInt8) × Bool)
  | _, [], _ => some ([], false)
  | first, c :: fmt, args => do
    let comma := if !first && c != ch 'B' then [[ch ',']] else []
    if takesArg c then
      match args with
      | [] => none
      | arg :: args =>
        if arg.fmt ≠ c then none
        else
          let parts ← argParts arg
          if c = ch 'B' then (if fmt = [] then some (comma ++ parts, true) else none)
          else
            let (rest, binaryTransfer) ← paramParts false fmt args
            some (comma ++ parts ++ rest, binaryTransfer)
    else
      let (rest, binaryTransfer) ← paramParts false fmt args
      some (comma ++ rest, binaryTransfer)

end SendCmd

/-- The calls of `uPortUartWrite` by `uCxAtClientSendCmdVaList`. -/
def commandParts (pCmd pParamFmt : List UInt8) (args : List Arg) : Option (List (List UInt8)) :=
  (SendCmd.paramParts true pParamFmt args).map fun (parts, binaryTransfer) =>
    pCmd :: parts ++ if binaryTransfer then [] else [[ch '\r']]

namespace SendCmd

theorem flatten_intListParts (c : UInt8) (vs : List Int16) : (intListParts c vs).flatten = intListText c vs := by
  induction vs generalizing c with
  | nil => rfl
  | cons v vs ih => rw [intListParts, List.flatten_cons, ih, intListText]

theorem flatten_stringParts (s : List UInt8) : (stringParts s).flatten = stringText s := by
  rw [stringParts, stringText]
  cases uCxAtUtilWriteEscString s bufSize with
  | none => simp
  | some escaped => simp

theorem flatten_hexParts (n : Nat) (pData : List UInt8) :
    (hexParts n pData).map List.flatten = hexLoop n pData := by
  induction n generalizing pData with
  | zero => rfl
  | succ n ih =>
    rw [hexParts, hexLoop]
    split
    · rfl
    · dsimp only
      rw [← ih]
      cases uCxAtUtilBinaryToHex (pData.take ((bufSize - 1) / 2)) bufSize with
      | none => rfl
      | some chunk => cases hexParts n (pData.drop ((bufSize - 1) / 2)) <;> rfl

theorem flatten_argParts (a : Arg) : (argParts a).map List.flatten = argText a := by
  have hone : ∀ o : Option (List UInt8), (o.map fun bytes => [bytes]).map List.flatten = o := by
    intro o
    cases o <;> simp
  cases a with
  | int i => simp [argParts, argText]
  | intList vs =>
    rw [argParts, argText, Option.map_some]
    split
    · rfl
    · rw [flatten_intListParts]
  | str s => rw [argParts, argText, Option.map_some, flatten_stringParts]
  | binStr s => rw [argParts, argText, Option.map_some, flatten_stringParts]
  | ipAddress ip => exact hone _
  | macAddress mac => exact hone _
  | btLeAddress bd => exact hone _
  | binary pData =>
    rw [argParts, argText]
    split
    · rfl
    · simp
  | bytes pData => exact flatten_hexParts _ _

theorem flatten_paramParts (first : Bool) (fmt : List UInt8) (args : List Arg) :
    (paramParts first fmt args).map (fun (parts, binaryTransfer) => (parts.flatten, binaryTransfer)) =
      paramLoop first fmt args := by
  induction fmt generalizing first args with
  | nil => rfl
  | cons c fmt ih =>
    have hcomma : (if !first && c != ch 'B' then [[ch ',']] else []).flatten =
        if !first && c != ch 'B' then [ch ','] else [] := by
      split <;> rfl
    rw [paramParts.eq_def, paramLoop.eq_def]
    dsimp only
    rw [← hcomma]
    split
    · cases args with
      | nil => rfl
      | cons arg args =>
        dsimp only
        split
        · rfl
        · rw [← flatten_argParts arg, ← ih false args]
          cases argParts arg with
          | none => rfl
          | some parts =>
            simp only [Option.map_some, Option.bind_eq_bind, Option.bind_some]
            split
            · split <;> simp
            · cases paramParts false fmt args <;> simp
    · rw [← ih false args]
      cases paramParts false fmt args <;> simp

end SendCmd

/-- **The parts are the command.** -/
theorem flatten_commandParts (pCmd pParamFmt : List UInt8) (args : List Arg) :
    (commandParts pCmd pParamFmt args).map List.flatten = uCxAtClientSendCmdVaList pCmd pParamFmt args := by
  rw [commandParts, uCxAtClientSendCmdVaList, ← SendCmd.flatten_paramParts]
  cases SendCmd.paramParts true pParamFmt args with
  | none => rfl
  | some r =>
    obtain ⟨parts, binaryTransfer⟩ := r
    cases binaryTransfer <;> simp

/-! ## Parts that are cut -/

/-- `uPortUartWrite` of a port: what it returns, what the UART takes, and the state behind it. There is no result
where the call does not return, or where the state does not say what happens. -/
abbrev UartWrite (σ : Type) := List UInt8 → σ → Option (Int × List UInt8 × σ)

/-- The parts one after the other, whatever is returned: what the UART takes of each. -/
def writeParts {σ : Type} (uPortUartWrite : UartWrite σ) : List (List UInt8) → σ → Option (List (List UInt8) × σ)
  | [], s => some ([], s)
  | part :: parts, s => do
    let (_, taken, s) ← uPortUartWrite part s
    let (takens, s) ← writeParts uPortUartWrite parts s
    some (taken :: takens, s)

section
variable {α : Type} {as bs : List (List α)}

theorem length_flatten_prefixes (h : List.Forall₂ (· <+: ·) as bs) : as.flatten.length ≤ bs.flatten.length := by
  induction h with
  | nil => exact Nat.le_refl 0
  | cons hab _ ih =>
    rw [List.flatten_cons, List.flatten_cons, List.length_append, List.length_append]
    exact Nat.add_le_add hab.length_le ih

/-- Beginnings put together are the whole only if each is all of its part. -/
theorem flatten_prefixes_eq_iff (h : List.Forall₂ (· <+: ·) as bs) : as.flatten = bs.flatten ↔ as = bs := by
  refine ⟨fun heq => ?_, congrArg List.flatten⟩
  induction h with
  | nil => rfl
  | @cons a b as bs hab htail ih =>
    obtain ⟨rest, rfl⟩ := hab
    rw [List.flatten_cons, List.flatten_cons, List.append_assoc, List.append_cancel_left_eq] at heq
    have hlen := length_flatten_prefixes htail
    rw [heq, List.length_append] at hlen
    obtain rfl : rest = [] := List.length_eq_zero_iff.1 (by omega)
    rw [List.append_nil, ih heq]

end

/-- Beginnings of the parts are the command only if none is cut. -/
theorem taken_command_iff {pCmd pParamFmt : List UInt8} {args : List Arg} {parts takens : List (List UInt8)}
    (hparts : commandParts pCmd pParamFmt args = some parts) (hpre : List.Forall₂ (· <+: ·) takens parts) :
    uCxAtClientSendCmdVaList pCmd pParamFmt args = some takens.flatten ↔ takens = parts := by
  rw [← flatten_commandParts, hparts, Option.map_some, Option.some.injEq, eq_comm, flatten_prefixes_eq_iff hpre]

namespace Linux

/-! ## Linux (`src/ports/uart/u_port_uart_linux.c`) -/

/-- What a call of `write` comes to: it takes bytes, `n` of them or as many as there are, or it is interrupted by a
signal, or it fails. -/
inductive Written where
  | took (n : Nat)
  | interrupted
  | failed
  deriving DecidableEq

/-- The loop of `uPortUartWrite`. -/
def writeLoop (pData : List UInt8) : List Written → Nat → Option (Int × List UInt8 × List Written)
  | [], totalWritten => if totalWritten < pData.length then none else some (toInt32 totalWritten, [], [])
  | w :: ws, totalWritten =>
    if totalWritten < pData.length then
      match w with
      | .took n =>
        let written := min n (pData.length - totalWritten)
        (writeLoop pData ws (totalWritten + written)).map fun (ret, taken, ws) =>
          (ret, (pData.drop totalWritten).take written ++ taken, ws)
      | .interrupted => writeLoop pData ws totalWritten
      | .failed => some (-1, [], ws)
    else some (toInt32 totalWritten, [], w :: ws)

def uPortUartWrite : UartWrite (List Written) := fun pData ws =>
  if pData.length = 0 then some (-1, [], ws) else writeLoop pData ws 0

/-- What is taken is the beginning of what is left, and all of it if no call fails. -/
theorem writeLoop_spec {pData : List UInt8} {ws ws' : List Written} {totalWritten : Nat} {ret : Int}
    {taken : List UInt8} (hle : totalWritten ≤ pData.length)
    (h : writeLoop pData ws totalWritten = some (ret, taken, ws')) :
    ∃ used left, ws = used ++ ws' ∧ taken ++ left = pData.drop totalWritten ∧ (left = [] ↔ .failed ∉ used) := by
  induction ws generalizing totalWritten ret taken with
  | nil =>
    rw [writeLoop] at h
    split at h
    · cases h
    · simp only [Option.some.injEq, Prod.mk.injEq] at h
      obtain ⟨-, rfl, rfl⟩ := h
      exact ⟨[], [], rfl, (List.drop_eq_nil_of_le (by omega)).symm, by simp⟩
  | cons w ws ih =>
    rw [writeLoop.eq_def] at h
    dsimp only at h
    split at h
    next hlt =>
      cases w with
      | took n =>
        obtain ⟨⟨r, taken', ws''⟩, hloop, heq⟩ := Option.map_eq_some_iff.1 h
        simp only [Prod.mk.injEq] at heq
        obtain ⟨-, rfl, rfl⟩ := heq
        obtain ⟨used, left, rfl, htaken, hleft⟩ := ih (by omega) hloop
        refine ⟨.took n :: used, left, rfl, ?_, by simpa using hleft⟩
        rw [List.append_assoc, htaken, ← List.drop_drop, List.take_append_drop]
      | interrupted =>
        obtain ⟨used, left, rfl, htaken, hleft⟩ := ih hle h
        exact ⟨.interrupted :: used, left, rfl, htaken, by simpa using hleft⟩
      | failed =>
        simp only [Option.some.injEq, Prod.mk.injEq] at h
        obtain ⟨-, rfl, rfl⟩ := h
        have hne : pData.drop totalWritten ≠ [] := by
          rw [Ne, List.drop_eq_nil_iff]
          omega
        exact ⟨[.failed], pData.drop totalWritten, rfl, rfl, by simpa using hne⟩
    next hge =>
      simp only [Option.some.injEq, Prod.mk.injEq] at h
      obtain ⟨-, rfl, rfl⟩ := h
      exact ⟨[], [], rfl, (List.drop_eq_nil_of_le (by omega)).symm, by simp⟩

/-- A call takes the beginning of its bytes, and all of them exactly if no call of `write` fails. -/
theorem write_spec {pData : List UInt8} {ws ws' : List Written} {ret : Int} {taken : List UInt8}
    (h : uPortUartWrite pData ws = some (ret, taken, ws')) :
    ∃ used, ws = used ++ ws' ∧ taken <+: pData ∧ (taken = pData ↔ .failed ∉ used) := by
  rw [uPortUartWrite] at h
  split at h
  next hnil =>
    simp only [Option.some.injEq, Prod.mk.injEq] at h
    obtain ⟨-, rfl, rfl⟩ := h
    exact ⟨[], rfl, List.nil_prefix, iff_of_true (List.length_eq_zero_iff.1 hnil).symm List.not_mem_nil⟩
  next =>
    obtain ⟨used, left, hws, htaken, hleft⟩ := writeLoop_spec (Nat.zero_le _) h
    rw [List.drop_zero] at htaken
    refine ⟨used, hws, ⟨left, htaken⟩, ?_⟩
    rw [← hleft, ← htaken]
    simp

/-- The parts one after the other. -/
theorem writeParts_spec {parts takens : List (List UInt8)} {ws ws' : List Written}
    (h : writeParts uPortUartWrite parts ws = some (takens, ws')) :
    ∃ used, ws = used ++ ws' ∧ List.Forall₂ (· <+: ·) takens parts ∧ (takens = parts ↔ .failed ∉ used) := by
  induction parts generalizing ws takens with
  | nil =>
    cases h
    exact ⟨[], rfl, .nil, by simp⟩
  | cons part parts ih =>
    obtain ⟨⟨ret, taken, ws1⟩, hpart, hrest⟩ := Option.bind_eq_some_iff.1 h
    obtain ⟨⟨takens1, ws2⟩, hparts, heq⟩ := Option.bind_eq_some_iff.1 hrest
    cases heq
    obtain ⟨used, rfl, hpre, hall⟩ := write_spec hpart
    obtain ⟨used1, rfl, hpres, halls⟩ := ih hparts
    refine ⟨used ++ used1, (List.append_assoc ..).symm, .cons hpre hpres, ?_⟩
    rw [List.cons.injEq, hall, halls, List.mem_append, not_or]

/-- **What Linux takes of a command**, whatever the calls of `write` come to: the beginning of each part, and the
command as it is exactly if none of them fails. Short writes and interruptions change nothing. -/
theorem command_written {pCmd pParamFmt : List UInt8} {args : List Arg} {parts takens : List (List UInt8)}
    (hparts : commandParts pCmd pParamFmt args = some parts) {ws ws' : List Written}
    (hrun : writeParts uPortUartWrite parts ws = some (takens, ws')) :
    ∃ used, ws = used ++ ws' ∧ List.Forall₂ (· <+: ·) takens parts ∧
      (uCxAtClientSendCmdVaList pCmd pParamFmt args = some takens.flatten ↔ .failed ∉ used) := by
  obtain ⟨used, hws, hpre, hall⟩ := writeParts_spec hrun
  exact ⟨used, hws, hpre, (taken_command_iff hparts hpre).trans hall⟩

/-- The name of the command is cut by an error, and the parameters follow. -/
theorem command_written_cut : ∃ used,
    [Written.took 2, .failed, .took 1, .interrupted, .took 9, .took 1, .took 1] = used ++ [] ∧
    List.Forall₂ (· <+: ·) [text "AT", text "1", text ",", text "2", text "\r"]
      [text "AT+X=", text "1", text ",", text "2", text "\r"] ∧
    (uCxAtClientSendCmdVaList (text "AT+X=") (text "dd") [.int 1, .int 2] =
      some [text "AT", text "1", text ",", text "2", text "\r"].flatten ↔ .failed ∉ used) :=
  command_written (show commandParts (text "AT+X=") (text "dd") [.int 1, .int 2] = some _ by rfl) (by decide)

end Linux

namespace Zephyr

/-! ## Zephyr (`src/ports/uart/u_port_uart_zephyr.c`) -/

/-- `uPortUartWrite`, which is one call of `uart_fifo_fill`: that takes what there is room for. The rooms are those
that the calls find. -/
def uPortUartWrite : UartWrite (List Nat) := fun pData rooms =>
  if pData.length = 0 then some (-1, [], rooms)
  else match rooms with
    | [] => none
    | room :: rooms => some (toInt32 (min room pData.length : Nat), pData.take room, rooms)

/-- A part of a command finds room. -/
def Fits (part : List UInt8) (room : Nat) : Prop := part.length ≤ room

theorem writeParts_spec {parts takens : List (List UInt8)} {rooms rooms' : List Nat}
    (h : writeParts uPortUartWrite parts rooms = some (takens, rooms')) :
    ∃ used, rooms = used ++ rooms' ∧ List.Forall₂ (· <+: ·) takens parts ∧
      (takens = parts ↔ List.Forall₂ Fits (parts.filter (· ≠ [])) used) := by
  induction parts generalizing rooms takens with
  | nil =>
    cases h
    exact ⟨[], rfl, .nil, iff_of_true rfl .nil⟩
  | cons part parts ih =>
    obtain ⟨⟨ret, taken, rooms1⟩, hpart, hrest⟩ := Option.bind_eq_some_iff.1 h
    obtain ⟨⟨takens1, rooms2⟩, hparts, heq⟩ := Option.bind_eq_some_iff.1 hrest
    cases heq
    obtain ⟨used, rfl, hpre, hall⟩ := ih hparts
    rw [uPortUartWrite.eq_def] at hpart
    split at hpart
    next hlen =>
      -- nothing is asked of the device
      obtain rfl := List.length_eq_zero_iff.1 hlen
      simp only [Option.some.injEq, Prod.mk.injEq] at hpart
      obtain ⟨-, rfl, rfl⟩ := hpart
      refine ⟨used, rfl, .cons List.nil_prefix hpre, ?_⟩
      simpa using hall
    next hlen =>
      have hne : part ≠ [] := fun hnil => hlen (List.length_eq_zero_iff.2 hnil)
      cases rooms with
      | nil => cases hpart
      | cons room rooms =>
        simp only [Option.some.injEq, Prod.mk.injEq] at hpart
        obtain ⟨-, rfl, rfl⟩ := hpart
        refine ⟨room :: used, rfl, .cons (List.take_prefix room part) hpre, ?_⟩
        rw [List.cons.injEq, hall, List.filter_cons_of_pos (by simpa using hne), List.forall₂_cons, Fits,
          List.take_eq_self_iff]

/-- **What Zephyr takes of a command**: the beginning of each part, and the command as it is exactly if each part
that is not empty finds room for all of it. -/
theorem command_fits {pCmd pParamFmt : List UInt8} {args : List Arg} {parts takens : List (List UInt8)}
    (hparts : commandParts pCmd pParamFmt args = some parts) {rooms rooms' : List Nat}
    (hrun : writeParts uPortUartWrite parts rooms = some (takens, rooms')) :
    ∃ used, rooms = used ++ rooms' ∧ List.Forall₂ (· <+: ·) takens parts ∧
      (uCxAtClientSendCmdVaList pCmd pParamFmt args = some takens.flatten ↔
        List.Forall₂ Fits (parts.filter (· ≠ [])) used) := by
  obtain ⟨used, hrooms, hpre, hall⟩ := writeParts_spec hrun
  exact ⟨used, hrooms, hpre, (taken_command_iff hparts hpre).trans hall⟩

/-- The FIFO is full behind the first four bytes, and is emptied while the other parts follow. -/
theorem command_fits_full : ∃ used, [4, 0, 2, 0, 4] = used ++ [] ∧
    List.Forall₂ (· <+: ·) [text "AT+X", text "", text ",", text "", text "\r"]
      [text "AT+X=", text "1", text ",", text "2", text "\r"] ∧
    (uCxAtClientSendCmdVaList (text "AT+X=") (text "dd") [.int 1, .int 2] =
      some [text "AT+X", text "", text ",", text "", text "\r"].flatten ↔
        List.Forall₂ Fits ([text "AT+X=", text "1", text ",", text "2", text "\r"].filter (· ≠ [])) used) :=
  command_fits (show commandParts (text "AT+X=") (text "dd") [.int 1, .int 2] = some _ by rfl) (by decide)

end Zephyr
