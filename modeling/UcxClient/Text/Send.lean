import UcxClient.Text.Params

/-!
# Sending a command (`uCxAtClientSendCmdVaList` of `src/u_cx_at_client.c`)

`Arg` are the arguments of the format characters, as typed values: an argument of another type than
its format character asks for is undefined, and so is a failed assertion. A function without a defined
result returns `none`. The bytes written are those handed to `uPortUartWrite`, one call after the
other.
-/

/-- A string argument: the characters before the terminator. -/
structure CString where
  chars : List UInt8
  nulFree : 0 ∉ chars
  deriving DecidableEq

/-- The arguments of a command. -/
inductive Arg where
  /-- `d` -/
  | int (i : Int32)
  /-- `l` -/
  | intList (pValues : List Int16)
  /-- `s` -/
  | str (pStr : CString)
  /-- `$` -/
  | binStr (pStr : List UInt8)
  /-- `i` -/
  | ipAddress (pIpAddr : SockIpAddress)
  /-- `m` -/
  | macAddress (pMacAddr : MacAddress)
  /-- `b` -/
  | btLeAddress (pBtLeAddr : BtLeAddress)
  /-- `B` -/
  | binary (pData : List UInt8)
  /-- `h` -/
  | bytes (pData : List UInt8)
  deriving DecidableEq

/-- The format character of an argument. -/
def Arg.fmt : Arg → UInt8
  | .int _ => ch 'd'
  | .intList _ => ch 'l'
  | .str _ => ch 's'
  | .binStr _ => ch '$'
  | .ipAddress _ => ch 'i'
  | .macAddress _ => ch 'm'
  | .btLeAddress _ => ch 'b'
  | .binary _ => ch 'B'
  | .bytes _ => ch 'h'

/-- The format characters that take an argument. -/
def takesArg (c : UInt8) : Bool := (text "dls$imbBh").contains c

namespace SendCmd

/-- The size of `buf`. -/
def bufSize : Nat := ipStringMaxLengthBytes

/-- The bytes for the integers of a list, the first one behind `buf[0] = c`. -/
def intListText : UInt8 → List Int16 → List UInt8
  | _, [] => [ch ']']
  | c, v :: vs => c :: formatInt v.toInt ++ intListText (ch ',') vs

/-- The loop over the integers of a list with what is in `buf`: the bytes written. -/
def intListWrites : List UInt8 → List Int16 → List UInt8
  | _, [] => [ch ']']
  | buf, v :: vs =>
    let (buf, written) := snprintf buf 1 (bufSize - 1) (formatInt v.toInt)
    ByteMem.load buf 0 (written + 1) ++ intListWrites (buf.set 0 (ch ',')) vs

/-- The case `l`, with the zeroed `buf`: the bytes written. -/
def intListBytes (pValues : List Int16) : List UInt8 :=
  if pValues = [] then text "[]" else intListWrites ((List.replicate bufSize 0).set 0 (ch '[')) pValues

/-- A string, escaped if that fits in `buf`. -/
def stringText (s : List UInt8) : List UInt8 :=
  match uCxAtUtilWriteEscString s bufSize with
  | some escaped => escaped
  | none => ch '"' :: s ++ [ch '"']

/-- The chunks of a byte array. -/
def hexLoop : Nat → List UInt8 → Option (List UInt8)
  | 0, _ => some []
  | n + 1, pData =>
    if pData = [] then some []
    else do
      let chunkSize := (bufSize - 1) / 2
      let chunk ← uCxAtUtilBinaryToHex (pData.take chunkSize) bufSize
      let rest ← hexLoop n (pData.drop chunkSize)
      some (chunk ++ rest)

/-- The case of the format character of an argument: the bytes written. -/
def argText : Arg → Option (List UInt8)
  | .int i => some (formatInt i.toInt)
  | .intList pValues =>
    some (if pValues = [] then text "[]" else intListText (ch '[') pValues)
  | .str pStr => some (stringText pStr.chars)
  | .binStr pStr => some (stringText pStr)
  | .ipAddress pIpAddr => uCxIpAddressToString pIpAddr bufSize
  | .macAddress pMacAddr => uCxMacAddressToString pMacAddr bufSize
  | .btLeAddress pBtLeAddr => uCxBdAddressToString pBtLeAddr bufSize
  | .binary pData =>
    if pData = [] then none
    else some (1 :: UInt8.ofNat (pData.length / 256) :: UInt8.ofNat pData.length :: pData)
  | .bytes pData => hexLoop pData.length pData

/-- The loop over the format: the bytes written, and whether a binary transfer was among them. -/
def paramLoop : Bool → List UInt8 → List Arg → Option (List UInt8 × Bool)
  | _, [], _ => some ([], false)
  | first, c :: fmt, args => do
    let comma := if !first && c != ch 'B' then [ch ','] else []
    if takesArg c then
      match args with
      | [] => none
      | arg :: args =>
        if arg.fmt ≠ c then none
        else
          let bytes ← argText arg
          -- a binary transfer must always be the last parameter
          if c = ch 'B' then (if fmt = [] then some (comma ++ bytes, true) else none)
          else
            let (rest, binaryTransfer) ← paramLoop false fmt args
            some (comma ++ bytes ++ rest, binaryTransfer)
    else
      let (rest, binaryTransfer) ← paramLoop false fmt args
      some (comma ++ rest, binaryTransfer)

end SendCmd

/-- `uCxAtClientSendCmdVaList`: the bytes written. -/
def uCxAtClientSendCmdVaList (pCmd pParamFmt : List UInt8) (args : List Arg) : Option (List UInt8) :=
  (SendCmd.paramLoop true pParamFmt args).map fun (bytes, binaryTransfer) =>
    pCmd ++ bytes ++ if binaryTransfer then [] else [ch '\r']
