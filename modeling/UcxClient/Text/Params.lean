import UcxClient.Lib.CInt
import UcxClient.Text.Util

/-!
# Parameter conversions (`src/u_cx_at_params.c`)

The conversions of an address to text return what they write to a buffer of `sizeBytes` characters, or `none`
for a negative return value; that of a list of integers takes the memory and returns it. An address whose type
is none of the two does not exist.
-/

open ByteMem

/-! ## Numerals -/

/-- The decimal numeral of `%u`. -/
def formatUnsigned (n : Nat) : List UInt8 := (Nat.toDigits 10 n).map ch

/-- The numeral of `%d`. -/
def formatInt (n : Int) : List UInt8 :=
  if n < 0 then ch '-' :: formatUnsigned n.natAbs else formatUnsigned n.natAbs

/-- A digit of `%x`. -/
def hexDigit (n : Nat) : UInt8 := if n < 10 then ch '0' + UInt8.ofNat n else ch 'a' + UInt8.ofNat (n - 10)

/-- `%04x` of a 16 bit number. -/
def formatHex4 (n : Nat) : List UInt8 :=
  [hexDigit (n / 4096 % 16), hexDigit (n / 256 % 16), hexDigit (n / 16 % 16), hexDigit (n % 16)]

/-! ## Types -/

/-- `U_IP_STRING_MAX_LENGTH_BYTES` -/
def ipStringMaxLengthBytes : Nat := 42

/-- `U_BD_STRING_MAX_LENGTH_BYTES` -/
def bdStringMaxLengthBytes : Nat := 14

/-- `uSockIpAddress_t`; the words of an IPv6 address are those of the array from index 0 on. -/
inductive SockIpAddress where
  | v4 (ipv4 : UInt32)
  | v6 (w0 w1 w2 w3 : UInt32)
  deriving DecidableEq

/-- `uBdAddressType_t` -/
inductive BdAddressType where
  | typeRandom
  | typePublic
  | typeUnknown
  deriving DecidableEq

/-- `uBtLeAddress_t` -/
structure BtLeAddress where
  address : Vector UInt8 6
  type : BdAddressType
  deriving DecidableEq

/-- `uMacAddress_t` -/
structure MacAddress where
  address : Vector UInt8 6
  deriving DecidableEq

/-! ## IP addresses -/

/-- The loop of `ipv4StringToIpAddress` when that many groups follow behind this one. -/
def ipv4Groups : Nat → List UInt8 → Option (List UInt32)
  | more, pStrPtr =>
    if !isdigit (pStrPtr.headD 0) then none
    else
      let (value, pEnd) := strtol 10 pStrPtr
      if value < 0 ∨ 255 < value then none
      else match more with
        | 0 => if pEnd = [] then some [UInt32.ofNat value.toNat] else none
        | more + 1 =>
          if pEnd.headD 0 ≠ ch '.' then none
          else (ipv4Groups more (pEnd.drop 1)).map (UInt32.ofNat value.toNat :: ·)

def ipv4StringToIpAddress (pAddressString : List UInt8) : Option SockIpAddress :=
  match ipv4Groups 3 pAddressString with
  | some [d0, d1, d2, d3] => some (.v4 (d0 <<< 24 ||| d1 <<< 16 ||| d2 <<< 8 ||| d3))
  | _ => none

/-- The loop of `ipv6StringToIpAddress` when that many groups follow behind this one; `blockChar` says
that the string started with `[`. -/
def ipv6Groups (blockChar : Bool) : Nat → List UInt8 → Option (List UInt32)
  | more, pStrPtr =>
    if pStrPtr = [] then none
    else
      let (value, pTmp) := strtol 16 pStrPtr
      let digits := UInt32.ofNat (value % 65536).toNat
      if 4 < pStrPtr.length - pTmp.length then none
      else match more with
        | 0 =>
          if blockChar ∧ pTmp.headD 0 ≠ ch ']' then none
          else if (if blockChar then pTmp.drop 1 else pTmp) ≠ [] then none
          else some [digits]
        | more + 1 =>
          if pTmp.headD 0 ≠ ch ':' then none
          else (ipv6Groups blockChar more (pTmp.drop 1)).map (digits :: ·)

def ipv6StringToIpAddress (pAddressString : List UInt8) : Option SockIpAddress :=
  let blockChar := pAddressString.headD 0 == ch '['
  match ipv6Groups blockChar 7 (if blockChar then pAddressString.drop 1 else pAddressString) with
  | some [d0, d1, d2, d3, d4, d5, d6, d7] =>
    some (.v6 (d6 <<< 16 ||| d7) (d4 <<< 16 ||| d5) (d2 <<< 16 ||| d3) (d0 <<< 16 ||| d1))
  | _ => none

def uCxStringToIpAddress (pAddressString : List UInt8) : Option SockIpAddress :=
  if pAddressString.contains (ch '.') then ipv4StringToIpAddress pAddressString
  else ipv6StringToIpAddress pAddressString

/-- The two groups of a word of an IPv6 address. -/
def formatIpv6Word (w : UInt32) : List UInt8 :=
  formatHex4 (w.toNat / 65536) ++ ch ':' :: formatHex4 (w.toNat % 65536)

def uCxIpAddressToString (pIpAddress : SockIpAddress) (sizeBytes : Nat) : Option (List UInt8) :=
  match pIpAddress with
  | .v4 ipv4 =>
    let s := formatUnsigned (ipv4.toNat / 2 ^ 24 % 256) ++ ch '.' ::
      formatUnsigned (ipv4.toNat / 2 ^ 16 % 256) ++ ch '.' ::
      formatUnsigned (ipv4.toNat / 2 ^ 8 % 256) ++ ch '.' :: formatUnsigned (ipv4.toNat % 256)
    if sizeBytes ≤ s.length then none else some s
  | .v6 w0 w1 w2 w3 =>
    if sizeBytes ≤ 41 then none
    else some (ch '[' :: formatIpv6Word w3 ++ ch ':' :: formatIpv6Word w2 ++ ch ':' ::
      formatIpv6Word w1 ++ ch ':' :: formatIpv6Word w0 ++ [ch ']'])

/-! ## Bluetooth and MAC addresses -/

/-- The character before index `p + n`, or `none` if that is outside the block. -/
def charBefore (m : List UInt8) (p n : Nat) : Option UInt8 :=
  if p + n = 0 then none else some (m.getD (p + n - 1) 0)

/-- The type of the address at index `pStr`. The character that is read is the one before the string if
that is empty, and the function has no result if this is outside the block. -/
def findBdAddressType (m : List UInt8) (pStr : Nat) : Option (Option BdAddressType) :=
  let length := (cstr m pStr).length
  (charBefore m pStr length).map fun c =>
    if c = ch 'r' then some .typeRandom
    else if c = ch 'p' then some .typePublic
    else if length = 12 then some .typePublic
    else none

/-- `uCxStringToBdAddress` of the string at index `p`. -/
def uCxStringToBdAddress (m : List UInt8) (p : Nat) : Option (Option BtLeAddress) :=
  (findBdAddressType m p).map fun type? =>
    match type? with
    | none => none
    | some type =>
      let address := uCxAtUtilHexToBinary (cstr m p) 6
      if h : address.length = 6 then some ⟨⟨address.toArray, by simpa using h⟩, type⟩ else none

def uCxBdAddressToString (pBtLeAddr : BtLeAddress) (sizeBytes : Nat) : Option (List UInt8) :=
  if sizeBytes < bdStringMaxLengthBytes then none
  else (uCxAtUtilBinaryToHex pBtLeAddr.address.toList sizeBytes).map fun s =>
    s ++ [if pBtLeAddr.type = .typeRandom then ch 'r' else ch 'p']

def uCxStringToMacAddress (pMacString : List UInt8) : Option MacAddress :=
  if pMacString.length ≠ 12 then none
  else
    let address := uCxAtUtilHexToBinary pMacString 6
    if h : address.length = 6 then some ⟨⟨address.toArray, by simpa using h⟩⟩ else none

def uCxMacAddressToString (pMac : MacAddress) (sizeBytes : Nat) : Option (List UInt8) :=
  uCxAtUtilBinaryToHex pMac.address.toList sizeBytes

/-! ## Integer lists -/

/-- The two bytes of an `int16_t`. -/
def i16Bytes (v : Int16) : List UInt8 := u16Bytes v.toUInt16.toNat

/-- The `int16_t` at index `p`. -/
def getI16 (m : List UInt8) (p : Nat) : Int16 := (UInt16.ofNat (getU16 m p)).toInt16

/-- The loop of `uCxStringToIntList` when that many integers follow behind number `i`: the memory, and
where it stops unless it fails. -/
def intListLoop (pStr : Nat) : Nat → Nat → List UInt8 → Nat → List UInt8 × Option Nat
  | more, i, m, pParse =>
    let s := cstr m pParse
    let (value, rest) := strtol 10 s
    if rest.length = s.length ∨ value < -32768 ∨ 32767 < value then (m, none)
    else
      let m := store m (pStr + 2 * i) (i16Bytes (Int16.ofInt value))
      let pParse := pParse + (s.length - rest.length)
      match more with
      | 0 => (m, some pParse)
      | more + 1 =>
        if m.getD pParse 0 ≠ ch ',' then (m, none)
        else intListLoop pStr more (i + 1) m (pParse + 1)

/-- `uIntList_t`: the index of the values, if there are any, and how many they are. -/
structure IntList where
  pIntValues : Option Nat
  length : Nat
  deriving DecidableEq

/-- `uCxStringToIntList` of the string at index `p`, whose memory the values take: the memory, and the
list unless it fails. -/
def uCxStringToIntList (m : List UInt8) (p : Nat) : List UInt8 × Option IntList :=
  let s := cstr m p
  if 2 ≤ s.length ∧ s.headD 0 = ch '[' ∧ s.getD 1 0 = ch ']' then (m, some ⟨none, 0⟩)
  else if s.length < 3 ∨ s.headD 0 ≠ ch '[' then (m, none)
  else
    let commas := (s.drop 1).dropLast.count (ch ',')
    let (m, pParse) := intListLoop p commas 0 m (p + 1)
    match pParse with
    | none => (m, none)
    | some pParse => (m, if m.getD pParse 0 = ch ']' then some ⟨some p, commas + 1⟩ else none)

/-- `snprintf` of the text `s` to the `size` bytes from index `p` on: the memory, and the length of `s`. -/
def snprintf (m : List UInt8) (p size : Nat) (s : List UInt8) : List UInt8 × Nat :=
  (if size = 0 then m else store m p (s.take (size - 1) ++ [0]), s.length)

/-- The body of the loop of `uCxIntListToString` for integer number `i`: the memory, and the next index to
write to unless there is no room. -/
def intListItem (pEnd i : Nat) (pIntValue : Int16) (m : List UInt8) (pWrite : Nat) : List UInt8 × Option Nat :=
  if 0 < i ∧ pEnd - 1 ≤ pWrite then (m, none)
  else
    let (m, pWrite) := if 0 < i then (m.set pWrite (ch ','), pWrite + 1) else (m, pWrite)
    let (m, written) := snprintf m pWrite (pEnd - pWrite) (formatInt pIntValue.toInt)
    if pEnd - 1 ≤ pWrite + written then (m, none) else (m, some (pWrite + written))

/-- The loop of `uCxIntListToString` from integer number `i` on. -/
def intListItems (pEnd : Nat) : Nat → List Int16 → List UInt8 → Nat → List UInt8 × Option Nat
  | _, [], m, pWrite => (m, some pWrite)
  | i, pIntValue :: pIntValues, m, pWrite =>
    match intListItem pEnd i pIntValue m pWrite with
    | (m, none) => (m, none)
    | (m, some pWrite) => intListItems pEnd (i + 1) pIntValues m pWrite

/-- `uCxIntListToString` to the `sizeBytes` bytes from index `pBuffer` on: the memory and the return value. -/
def uCxIntListToString (pIntList : List Int16) (m : List UInt8) (pBuffer sizeBytes : Nat) : List UInt8 × Int :=
  if sizeBytes < 3 then (m, -1)
  else if pIntList.length = 0 then
    (((m.set pBuffer (ch '[')).set (pBuffer + 1) (ch ']')).set (pBuffer + 2) 0, 2)
  else
    let pEnd := pBuffer + sizeBytes
    match intListItems pEnd 0 pIntList (m.set pBuffer (ch '[')) (pBuffer + 1) with
    | (m, none) => (m, -1)
    | (m, some pWrite) =>
      if pEnd - 1 ≤ pWrite then (m, -1)
      else ((m.set pWrite (ch ']')).set (pWrite + 1) 0, toInt32 (pWrite + 1 - pBuffer : Nat))
