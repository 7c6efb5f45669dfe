import UcxClient.Lib.Ascii
import UcxClient.Lib.Bytes

/-!
# Text utilities (`src/u_cx_at_util.c`)

A string that is only read is the list of its characters without the terminator. What is decoded in place
is a block of memory `m` and the index of its first character; `cstr m p` is the string at `p`, and
what is read outside the block is a terminator. A buffer that is written is the list of what is written to
it.
-/

open ByteMem

/-- The string at index `p`. -/
def cstr (m : List UInt8) (p : Nat) : List UInt8 := (m.drop p).takeWhile (· ≠ 0)

/-! ## Hexadecimal digits -/

def nibbleToHex (nibble : UInt8) : UInt8 :=
  if nibble < 10 then ch '0' + nibble else ch 'A' + nibble - 10

def hexToNibble (hexChar : UInt8) : Int :=
  if ch '0' ≤ hexChar ∧ hexChar ≤ ch '9' then (hexChar.toNat : Int) - 48
  else if ch 'a' ≤ hexChar ∧ hexChar ≤ ch 'f' then (hexChar.toNat : Int) - 97 + 10
  else if ch 'A' ≤ hexChar ∧ hexChar ≤ ch 'F' then (hexChar.toNat : Int) - 65 + 10
  else -1

/-- The two characters of a byte. -/
def uCxAtUtilByteToHex (byte : UInt8) : List UInt8 :=
  [nibbleToHex (byte >>> 4), nibbleToHex (byte &&& 0x0F)]

/-- The byte of two characters, or `none` for the return value -1. -/
def uCxAtUtilHexToByte (high low : UInt8) : Option UInt8 :=
  let highNibble := hexToNibble high
  let lowNibble := hexToNibble low
  if highNibble < 0 ∨ lowNibble < 0 then none
  else some (UInt8.ofNat (highNibble.toNat * 16 + lowNibble.toNat))

/-- The bytes that `uCxAtUtilHexToBinary` stores, and how many they are. -/
def uCxAtUtilHexToBinary : List UInt8 → Nat → List UInt8
  | high :: low :: rest, bufSize + 1 =>
    match uCxAtUtilHexToByte high low with
    | none => []
    | some byte => byte :: uCxAtUtilHexToBinary rest bufSize
  | _, _ => []

/-- `binaryToHex` of data: the string, or `none` if it does not fit. -/
def binaryToHex (pData : List UInt8) (bufSize : Nat) (reverse : Bool) : Option (List UInt8) :=
  if bufSize < 2 * pData.length + 1 then none
  else some ((if reverse then pData.reverse else pData).flatMap uCxAtUtilByteToHex)

def uCxAtUtilBinaryToHex (pData : List UInt8) (bufSize : Nat) : Option (List UInt8) :=
  binaryToHex pData bufSize false

/-! ## The tokenizer -/

/-- The variables of the loop of `uCxAtUtilFindParamEnd`. -/
structure Scan where
  insideString : Bool
  insideBracket : Bool
  escape : Bool
  deriving DecidableEq

def Scan.init : Scan := ⟨false, false, false⟩

/-- What the loop does with a character; `none` is the `break`. -/
def Scan.step (st : Scan) (c : UInt8) : Option Scan :=
  if st.escape then some { st with escape := false }
  else if c = ch '\\' then some { st with escape := true }
  else if st.insideString then
    some (if c = ch '"' then { st with insideString := false } else st)
  else if c = ch '"' then some { st with insideString := true }
  else if c = ch '[' then some { st with insideBracket := true }
  else if c = ch ']' then some { st with insideBracket := false }
  else if c = ch ',' ∧ ¬st.insideBracket then none
  else some st

/-- The loop: the variables behind it and the characters it has passed. -/
def Scan.loop : Scan → List UInt8 → Scan × Nat
  | st, [] => (st, 0)
  | st, c :: cs =>
    match st.step c with
    | none => (st, 0)
    | some st' => ((Scan.loop st' cs).1, (Scan.loop st' cs).2 + 1)

/-- `uCxAtUtilFindParamEnd`: where the parameter ends, counted from the start of the string. -/
def uCxAtUtilFindParamEnd (pStr : List UInt8) : Option Nat :=
  let (st, n) := Scan.init.loop pStr
  if st.insideString ∨ st.escape ∨ st.insideBracket then none else some n

/-- The loop of `uCxAtUtilReplaceChar` for that many characters from number `i` on. -/
def replaceCharLoop (pData : Nat) (fromChar toChar : UInt8) : Nat → Nat → List UInt8 → List UInt8
  | 0, _, m => m
  | n + 1, i, m =>
    replaceCharLoop pData fromChar toChar n (i + 1)
      (if m.getD (pData + i) 0 = fromChar then m.set (pData + i) toChar else m)

/-- `uCxAtUtilReplaceChar` of the `dataLen` characters from index `pData` on: the memory. -/
def uCxAtUtilReplaceChar (m : List UInt8) (pData dataLen : Nat) (fromChar toChar : UInt8) : List UInt8 :=
  replaceCharLoop pData fromChar toChar dataLen 0 m

/-! ## Escaped strings -/

/-- What `escapeCharacter` writes for a character. -/
def escapeCharacter (c : UInt8) : List UInt8 :=
  if c = ch '\r' then text "\\r"
  else if c = ch '\n' then text "\\n"
  else if c = ch '\t' then text "\\t"
  else if c = 8 then text "\\b"
  else if c = ch '"' then text "\\\""
  else if c = ch '\\' then text "\\\\"
  else if c = 0 then text "\\0"
  else if isprint c then [c]
  else [ch '\\', ch 'x', nibbleToHex (c >>> 4), nibbleToHex (c &&& 0x0F)]

/-- The loop of `uCxAtUtilWriteEscString`: what is written behind `pos` characters. -/
def writeEscLoop (outBufSize : Nat) : Nat → List UInt8 → Option (List UInt8)
  | _, [] => some []
  | pos, c :: cs =>
    let escaped := escapeCharacter c
    if outBufSize ≤ pos + escaped.length + 1 then none
    else (writeEscLoop outBufSize (pos + escaped.length) cs).map (escaped ++ ·)

/-- `uCxAtUtilWriteEscString`: the string, or `none` for the return value 0. -/
def uCxAtUtilWriteEscString (pStr : List UInt8) (outBufSize : Nat) : Option (List UInt8) :=
  if outBufSize < 3 then none
  else (writeEscLoop outBufSize 1 pStr).map fun s => ch '"' :: s ++ [ch '"']

/-- The characters that an escape sequence other than `\x` stands for, from the one behind the
backslash. -/
def unescapeCharacter (c : UInt8) : List UInt8 :=
  if c = ch 'r' then [ch '\r']
  else if c = ch 'n' then [ch '\n']
  else if c = ch 't' then [ch '\t']
  else if c = ch 'b' then [8]
  else if c = ch '"' then [ch '"']
  else if c = ch '\\' then [ch '\\']
  else if c = ch '0' then [0]
  else [ch '\\', c]

/-- One turn of the loop of `unescapeString`: what it writes, and how many characters it has read. -/
def unescapeTurn (m : List UInt8) (pRead : Nat) : List UInt8 × Nat :=
  let c := m.getD pRead 0
  let c1 := m.getD (pRead + 1) 0
  if c = ch '\\' ∧ c1 ≠ 0 then
    if c1 = ch 'x' then
      let c2 := m.getD (pRead + 2) 0
      let c3 := m.getD (pRead + 3) 0
      if c2 ≠ 0 ∧ c3 ≠ 0 then
        match uCxAtUtilHexToByte c2 c3 with
        | some byte => ([byte], 4)
        | none => ([c1], 2)
      else ([c1], 2)
    else (unescapeCharacter c1, 2)
  else ([c], 1)

/-- The loop of `unescapeString`, for at most that many turns: the memory and `pWrite` behind it. -/
def unescapeLoop : Nat → List UInt8 → Nat → Nat → List UInt8 × Nat
  | 0, m, _, pWrite => (m, pWrite)
  | n + 1, m, pRead, pWrite =>
    if m.getD pRead 0 = 0 then (m, pWrite)
    else
      let (written, read) := unescapeTurn m pRead
      unescapeLoop n (store m pWrite written) (pRead + read) (pWrite + written.length)

/-- `unescapeString`: the memory and the length of the string. It reads a character or more in each
turn. -/
def unescapeString (m : List UInt8) (pStr : Nat) : List UInt8 × Nat :=
  let (m, pWrite) := unescapeLoop (m.length - pStr) m pStr pStr
  (m.set pWrite 0, pWrite - pStr)
