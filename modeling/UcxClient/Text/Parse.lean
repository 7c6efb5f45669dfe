import UcxClient.Text.Params

/-!
# Parsing parameters (`uCxAtUtilParseParamsVaList` of `src/u_cx_at_util.c`)

The line is a block of memory, which is decoded in place; the outputs are reported with the indices they
point to. An output that a failing parameter leaves behind is not reported. There is no result when
something outside the block is read.
-/

open ByteMem

/-- What is stored for a format character. -/
inductive Output where
  | int (i : Int32)
  | str (pStr : Nat)
  | binStr (pData length : Nat)
  | ipAddress (ipAddr : SockIpAddress)
  | macAddress (macAddr : MacAddress)
  | btLeAddress (btLeAddr : BtLeAddress)
  | intList (intList : IntList)
  | bytes (pData length : Nat)
  deriving DecidableEq

namespace ParseParams

/-- The loop of the case `h` over the bytes from number `i` on: the memory and whether it succeeds. -/
def hexLoop (pParam : Nat) : Nat → Nat → List UInt8 → List UInt8 × Bool
  | 0, _, m => (m, true)
  | n + 1, i, m =>
    match uCxAtUtilHexToByte (m.getD (pParam + i * 2) 0) (m.getD (pParam + i * 2 + 1) 0) with
    | none => (m, false)
    | some byte => hexLoop pParam n (i + 1) (m.set (pParam + i) byte)

/-- What becomes of a parameter. -/
inductive Result where
  | undefined
  | failed (m : List UInt8)
  | done (m : List UInt8) (output : Option Output)

/-- A conversion that does not change the memory. -/
def converted (m : List UInt8) : Option Output → Result
  | none => .failed m
  | some output => .done m (some output)

/-- The case of a format character, for the parameter from `pParam` to the terminator at `pParamEnd`. -/
def param (c : UInt8) (m : List UInt8) (pParam pParamEnd : Nat) : Result :=
  let s := cstr m pParam
  if c = ch 'd' then
    let (value, pEnd) := strtol 10 s
    converted m (if (s.headD 0 ≠ ch '-' ∧ !isdigit (s.headD 0)) ∨ pEnd ≠ [] then none
      else some (.int (Int32.ofInt value)))
  else if c = ch 's' then
    let quoted := m.getD pParam 0 = ch '"'
    let m := if quoted then m.set (pParamEnd - 1) 0 else m
    let pParam := if quoted then pParam + 1 else pParam
    .done (unescapeString m pParam).1 (some (.str pParam))
  else if c = ch '$' then
    let quoted := m.getD pParam 0 = ch '"'
    let pParam := if quoted then pParam + 1 else pParam
    let m := if quoted ∧ pParam < pParamEnd ∧ m.getD (pParamEnd - 1) 0 = ch '"' then
      m.set (pParamEnd - 1) 0 else m
    let (m, len) := unescapeString m pParam
    .done m (some (.binStr pParam len))
  else if c = ch 'i' then converted m ((uCxStringToIpAddress s).map .ipAddress)
  else if c = ch 'm' then converted m ((uCxStringToMacAddress s).map .macAddress)
  else if c = ch 'b' then
    match uCxStringToBdAddress m pParam with
    | none => .undefined
    | some btLeAddr => converted m (btLeAddr.map .btLeAddress)
  else if c = ch 'l' then
    match uCxStringToIntList m pParam with
    | (m, intList) => converted m (intList.map .intList)
  else if c = ch 'h' then
    let len := s.length
    if len % 2 ≠ 0 then .failed m
    else
      match hexLoop pParam (len / 2) 0 m with
      | (m, ok) => converted m (if ok then some (.bytes pParam (len / 2)) else none)
  else .done m none

/-- The return value, the memory and the outputs. -/
structure Parsed where
  ret : Int
  m : List UInt8
  outputs : List Output

/-- The loop over the format. -/
def loop : List UInt8 → List UInt8 → Nat → Int → List Output → Option Parsed
  | [], m, _, ret, outputs => some ⟨ret, m, outputs⟩
  | c :: fmt, m, pParam, ret, outputs =>
    let ret := ret + 1
    match uCxAtUtilFindParamEnd (cstr m pParam) with
    | none => some ⟨-ret, m, outputs⟩
    | some len =>
      let pParamEnd := pParam + len
      let last := m.getD pParamEnd 0 == 0
      let m := if last then m else m.set pParamEnd 0
      match param c m pParam pParamEnd with
      | .undefined => none
      | .failed m => some ⟨-ret, m, outputs⟩
      | .done m output =>
        if last then some ⟨ret, m, outputs ++ output.toList⟩
        else loop fmt m (pParamEnd + 1) ret (outputs ++ output.toList)

end ParseParams

/-- `uCxAtUtilParseParamsVaList` of the line at index `pParams`. -/
def uCxAtUtilParseParamsVaList (m : List UInt8) (pParams : Nat) (pParamFmt : List UInt8) :
    Option ParseParams.Parsed :=
  ParseParams.loop pParamFmt m pParams 0 []
