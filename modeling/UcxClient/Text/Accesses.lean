import UcxClient.Lib.Access
import UcxClient.Text.Parse

/-!
# The parser with its accesses

The functions of `src/u_cx_at_util.c` and `src/u_cx_at_params.c` that decode a parameter in its place, with
each read and store of the characters in the order of the code. `strlen` and the loop that counts commas
read ahead of the decoder without converting anything; what they read is not listed, and neither is what
the conversions that do not write to the line read.
-/

open ByteMem Logged

namespace Accesses

/-! ## Escaped strings -/

/-- `*pWrite++ = *pRead++`: the two indices behind it. -/
def copy (pRead pWrite : Nat) : Logged (Nat × Nat) := do
  let c ← read pRead
  store pWrite c
  return (pRead + 1, pWrite + 1)

/-- The `switch` of `unescapeString`, for the character behind a backslash. -/
def unescapeSwitch (pRead pWrite : Nat) : Logged (Nat × Nat) := do
  let c ← read pRead
  if c = ch 'x' then
    let high ← read (pRead + 1)
    if high = 0 then
      copy pRead pWrite
    else
      let low ← read (pRead + 2)
      if low = 0 then
        copy pRead pWrite
      else
        match uCxAtUtilHexToByte high low with
        | none => copy pRead pWrite
        | some byte =>
          store pWrite byte
          return (pRead + 3, pWrite + 1)
  else
    match unescapeCharacter c with
    | [b] =>
      store pWrite b
      return (pRead + 1, pWrite + 1)
    | _ =>
      -- an unknown escape keeps its backslash
      store pWrite (ch '\\')
      copy pRead (pWrite + 1)

/-- A turn of the loop of `unescapeString`. -/
def unescapeTurn (pRead pWrite : Nat) : Logged (Nat × Nat) := do
  let c ← read pRead
  if c = ch '\\' then
    let c ← read (pRead + 1)
    if c = 0 then
      copy pRead pWrite
    else
      unescapeSwitch (pRead + 1) pWrite
  else
    copy pRead pWrite

/-- The loop of `unescapeString` and the terminator behind it: the last `pWrite`, or `none` if that many tests
of `*pRead` do not end the loop. -/
def unescapeLoop : Nat → Nat → Nat → Logged (Option Nat)
  | 0, _, _ => return none
  | n + 1, pRead, pWrite => do
    let c ← read pRead
    if c = 0 then
      store pWrite 0
      return some pWrite
    else
      let (pRead, pWrite) ← unescapeTurn pRead pWrite
      unescapeLoop n pRead pWrite

/-- `unescapeString`: the length of the string. -/
def unescapeString (n pStr : Nat) : Logged (Option Nat) := do
  let pWrite ← unescapeLoop n pStr pStr
  return pWrite.map (· - pStr)

/-! ## Byte arrays -/

/-- The loop of the case `h` over the bytes from number `i` on: whether it succeeds. -/
def hexLoop (pParam : Nat) : Nat → Nat → Logged Bool
  | 0, _ => return true
  | n + 1, i => do
    let high ← read (pParam + i * 2)
    let low ← read (pParam + i * 2 + 1)
    match uCxAtUtilHexToByte high low with
    | none => return false
    | some byte =>
      store (pParam + i) byte
      hexLoop pParam n (i + 1)

/-! ## Integer lists -/

/-- `strtol` at `pParse`, in base 10: the number and `pEnd`. What it passes is read, and the character that
ends it. -/
def strtolAt (pParse : Nat) : Logged (Int × Nat) := do
  let s := cstr (← block) pParse
  let (value, rest) := strtol 10 s
  readRange pParse (s.length - rest.length + 1)
  return (value, pParse + (s.length - rest.length))

/-- The loop of `uCxStringToIntList` when that many integers follow behind number `i`: where it stops unless
it fails. -/
def intListLoop (pStr : Nat) : Nat → Nat → Nat → Logged (Option Nat)
  | more, i, pParse => do
    let (value, pEnd) ← strtolAt pParse
    if pParse = pEnd ∨ value < -32768 ∨ 32767 < value then
      return none
    else
      storeRange (pStr + 2 * i) (i16Bytes (Int16.ofInt value))
      match more with
      | 0 => return some pEnd
      | more + 1 =>
        let c ← read pEnd
        if c ≠ ch ',' then
          return none
        else
          intListLoop pStr more (i + 1) (pEnd + 1)

/-- `uCxStringToIntList` of the string at index `p`. -/
def uCxStringToIntList (p : Nat) : Logged (Option IntList) := do
  let s := cstr (← block) p
  if 2 ≤ s.length ∧ s.headD 0 = ch '[' ∧ s.getD 1 0 = ch ']' then
    return some ⟨none, 0⟩
  else if s.length < 3 ∨ s.headD 0 ≠ ch '[' then
    return none
  else
    -- the bracket has been read by then
    let _ ← read p
    let commas := (s.drop 1).dropLast.count (ch ',')
    match ← intListLoop p commas 0 (p + 1) with
    | none => return none
    | some pParse =>
      let c ← read pParse
      return if c = ch ']' then some ⟨some p, commas + 1⟩ else none

/-! ## Parameters -/

/-- What becomes of a parameter, without the memory. -/
inductive Outcome where
  | undefined
  | failed
  | done (output : Option Output)

/-- With the memory behind it. -/
def Outcome.result (m : List UInt8) : Outcome → ParseParams.Result
  | .undefined => .undefined
  | .failed => .failed m
  | .done output => .done m output

def outcome : ParseParams.Result → Outcome
  | .undefined => .undefined
  | .failed _ => .failed
  | .done _ output => .done output

/-- The quotes of the case `s`: the start of the string. -/
def skipQuotes (pParam pParamEnd : Nat) : Logged Nat := do
  let c ← read pParam
  if c = ch '"' then
    store (pParamEnd - 1) 0
    return pParam + 1
  else
    return pParam

/-- The quotes of the case `$`. -/
def skipQuotesBin (pParam pParamEnd : Nat) : Logged Nat := do
  let c ← read pParam
  if c = ch '"' then
    if pParam + 1 < pParamEnd then
      let last ← read (pParamEnd - 1)
      if last = ch '"' then
        store (pParamEnd - 1) 0
        return pParam + 1
      else
        return pParam + 1
    else
      return pParam + 1
  else
    return pParam

/-- `unescapeString` of a string in the block, which has a character or more for each turn of the loop. -/
def unescape (pStr : Nat) : Logged (Option Nat) := do
  let m ← block
  unescapeString (m.length - pStr) pStr

/-- The case of a format character. -/
def param (c : UInt8) (pParam pParamEnd : Nat) : Logged Outcome := do
  if c = ch 's' then
    let pParam ← skipQuotes pParam pParamEnd
    match ← unescape pParam with
    | none => return .undefined
    | some _ => return .done (some (.str pParam))
  else if c = ch '$' then
    let pParam ← skipQuotesBin pParam pParamEnd
    match ← unescape pParam with
    | none => return .undefined
    | some len => return .done (some (.binStr pParam len))
  else if c = ch 'l' then
    match ← uCxStringToIntList pParam with
    | none => return .failed
    | some intList => return .done (some (.intList intList))
  else if c = ch 'h' then
    let len := (cstr (← block) pParam).length
    if len % 2 ≠ 0 then
      return .failed
    else if ← hexLoop pParam (len / 2) 0 then
      return .done (some (.bytes pParam (len / 2)))
    else
      return .failed
  else
    -- the other cases do not write to the line
    return outcome (ParseParams.param c (← block) pParam pParamEnd)

/-- The terminator of a parameter: whether it is the last one. -/
def terminate (pParamEnd : Nat) : Logged Bool := do
  let c ← read pParamEnd
  if c = 0 then
    return true
  else
    store pParamEnd 0
    return false

/-- A turn of the loop over the format: whether the parameter is the last one, and what becomes of it. -/
def turn (c : UInt8) (pParam pParamEnd : Nat) : Logged (Bool × Outcome) := do
  let last ← terminate pParamEnd
  let outcome ← param c pParam pParamEnd
  return (last, outcome)

/-- A parameter that the parser has visited: its format character, the first character and the end of its
token, the memory before it and the accesses to it. -/
structure Visit where
  c : UInt8
  pParam : Nat
  pParamEnd : Nat
  m : List UInt8
  accesses : List Access

/-- The loop over the format: the parameters it visits and what `ParseParams.loop` returns. -/
def loop : List UInt8 → List UInt8 → Nat → Int → List Output → List Visit × Option ParseParams.Parsed
  | [], m, _, ret, outputs => ([], some ⟨ret, m, outputs⟩)
  | c :: fmt, m, pParam, ret, outputs =>
    let ret := ret + 1
    match uCxAtUtilFindParamEnd (cstr m pParam) with
    | none => ([], some ⟨-ret, m, outputs⟩)
    | some len =>
      let pParamEnd := pParam + len
      let ((last, outcome), accesses) := (turn c pParam pParamEnd).run m
      let visit : Visit := ⟨c, pParam, pParamEnd, m, accesses⟩
      let m := replay m accesses
      match outcome with
      | .undefined => ([visit], none)
      | .failed => ([visit], some ⟨-ret, m, outputs⟩)
      | .done output =>
        if last then ([visit], some ⟨ret, m, outputs ++ output.toList⟩)
        else
          let (visits, parsed) := loop fmt m (pParamEnd + 1) ret (outputs ++ output.toList)
          (visit :: visits, parsed)

/-- `uCxAtUtilParseParamsVaList` of the line at index `pParams`. -/
def uCxAtUtilParseParamsVaList (m : List UInt8) (pParams : Nat) (pParamFmt : List UInt8) :
    List Visit × Option ParseParams.Parsed :=
  loop pParamFmt m pParams 0 []

end Accesses
