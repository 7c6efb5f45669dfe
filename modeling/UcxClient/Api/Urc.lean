import UcxClient.Text.RoundTrip
import UcxClient.Text.Strict

/-!
# URCs of the API (`src/ucx_api/u_cx.c`, `src/ucx_api/generated/u_cx_urc.c`)

`urcCallback` splits the line of a URC at its first colon, and `uCxUrcParse` compares what is before it with
the names of the URCs. The parser of a URC parses the parameters with the format of the callback and calls
that if it is set. The length of the parameters, which is handed on but not used, is left out.

`urcCallback_heard` says which callback is called for a line, and with which values: those of the reference
tokens of the parameters.
-/

open ParseParams

/-! ## The URCs -/

/-- The fields of `uUrcCallbacks`. -/
inductive UrcName where
  | startup | uebtc | uebtdc | uebtb | uebtuc | uebtupd | uebtupe | uebtphyu | uebtbgd | uebtgcn | uebtgci
  | uebtgcw | uebtgrr | uebtgic | uespsc | uespsdc | uespsds | uespsdb | uespsda | uewlu | uewld | uewsnu
  | uewsnd | uewsrsi | uewsrsf | uewsrsc | uewapnu | uewapnd | uewapu | uewapd | uewapsa | uewapsda | uesoc
  | uesoda | uesods | uesodsf | uesodb | uesodbf | uesocl | uesoic | uemqc | uemqdc | uemqda | uemqdd
  | uemqpc | uemqsc | uehtcdc | uehtcrs | uedgpc | uedgp | uedgi
  deriving DecidableEq

/-- A call of a URC callback, with the values of its arguments. An argument whose parameter the line does not
have is not initialized; it is not in the list. -/
structure UrcCall where
  callback : UrcName
  args : List Arg
  deriving DecidableEq

/-- What the parser of a URC returns, the calls that it makes, and the memory. -/
structure UrcParsed where
  ret : Int
  calls : List UrcCall
  m : List UInt8
  deriving DecidableEq

/-- A parser of the parameters at index `pParams`; `callbacks` are the callbacks that are not NULL. -/
abbrev UrcParser := (UrcName → Bool) → List UInt8 → Nat → Option UrcParsed

/-- What the parsers of the URCs have in common. -/
def parseUrc (callback : UrcName) (pParamFmt : List UInt8) : UrcParser := fun callbacks m pParams =>
  (uCxAtUtilParseParamsVaList m pParams pParamFmt).map fun r =>
    let call : UrcCall := ⟨callback, r.outputs.map (Output.value r.m)⟩
    ⟨r.ret, if 0 ≤ r.ret ∧ callbacks callback then [call] else [], r.m⟩

def parseSTARTUP : UrcParser := parseUrc .startup (text "")
def parseUEBTC : UrcParser := parseUrc .uebtc (text "db")
def parseUEBTDC : UrcParser := parseUrc .uebtdc (text "d")
def parseUEBTB : UrcParser := parseUrc .uebtb (text "bd")
def parseUEBTUC : UrcParser := parseUrc .uebtuc (text "bd")
def parseUEBTUPD : UrcParser := parseUrc .uebtupd (text "bd")
def parseUEBTUPE : UrcParser := parseUrc .uebtupe (text "b")
def parseUEBTPHYU : UrcParser := parseUrc .uebtphyu (text "dddd")
def parseUEBTBGD : UrcParser := parseUrc .uebtbgd (text "bdsdh")
def parseUEBTGCN : UrcParser := parseUrc .uebtgcn (text "ddh")
def parseUEBTGCI : UrcParser := parseUrc .uebtgci (text "ddh")
def parseUEBTGCW : UrcParser := parseUrc .uebtgcw (text "ddhd")
def parseUEBTGRR : UrcParser := parseUrc .uebtgrr (text "dd")
def parseUEBTGIC : UrcParser := parseUrc .uebtgic (text "dd")
def parseUESPSC : UrcParser := parseUrc .uespsc (text "d")
def parseUESPSDC : UrcParser := parseUrc .uespsdc (text "d")
def parseUESPSDS : UrcParser := parseUrc .uespsds (text "d$")
def parseUESPSDB : UrcParser := parseUrc .uespsdb (text "d")
def parseUESPSDA : UrcParser := parseUrc .uespsda (text "dd")
def parseUEWLU : UrcParser := parseUrc .uewlu (text "dmd")
def parseUEWLD : UrcParser := parseUrc .uewld (text "dd")
def parseUEWSNU : UrcParser := parseUrc .uewsnu (text "")
def parseUEWSND : UrcParser := parseUrc .uewsnd (text "")
def parseUEWSRSI : UrcParser := parseUrc .uewsrsi (text "")
def parseUEWSRSF : UrcParser := parseUrc .uewsrsf (text "")
def parseUEWSRSC : UrcParser := parseUrc .uewsrsc (text "dmd")
def parseUEWAPNU : UrcParser := parseUrc .uewapnu (text "")
def parseUEWAPND : UrcParser := parseUrc .uewapnd (text "")
def parseUEWAPU : UrcParser := parseUrc .uewapu (text "")
def parseUEWAPD : UrcParser := parseUrc .uewapd (text "")
def parseUEWAPSA : UrcParser := parseUrc .uewapsa (text "m")
def parseUEWAPSDA : UrcParser := parseUrc .uewapsda (text "m")
def parseUESOC : UrcParser := parseUrc .uesoc (text "d")
def parseUESODA : UrcParser := parseUrc .uesoda (text "dd")
def parseUESODS : UrcParser := parseUrc .uesods (text "d$")
def parseUESODSF : UrcParser := parseUrc .uesodsf (text "did$")
def parseUESODB : UrcParser := parseUrc .uesodb (text "d")
def parseUESODBF : UrcParser := parseUrc .uesodbf (text "did")
def parseUESOCL : UrcParser := parseUrc .uesocl (text "d")
def parseUESOIC : UrcParser := parseUrc .uesoic (text "did")
def parseUEMQC : UrcParser := parseUrc .uemqc (text "d")
def parseUEMQDC : UrcParser := parseUrc .uemqdc (text "dd")
def parseUEMQDA : UrcParser := parseUrc .uemqda (text "dd")
def parseUEMQDD : UrcParser := parseUrc .uemqdd (text "dd")
def parseUEMQPC : UrcParser := parseUrc .uemqpc (text "ddd")
def parseUEMQSC : UrcParser := parseUrc .uemqsc (text "dd")
def parseUEHTCDC : UrcParser := parseUrc .uehtcdc (text "d")
def parseUEHTCRS : UrcParser := parseUrc .uehtcrs (text "dds")
def parseUEDGPC : UrcParser := parseUrc .uedgpc (text "dddd")
def parseUEDGP : UrcParser := parseUrc .uedgp (text "dd")
def parseUEDGI : UrcParser := parseUrc .uedgi (text "s")

/-- The names that `uCxUrcParse` compares with, in the order of the comparisons. -/
def urcParsers : List (List UInt8 × UrcParser) :=
  [(text "+STARTUP", parseSTARTUP), (text "+UEBTC", parseUEBTC), (text "+UEBTDC", parseUEBTDC),
   (text "+UEBTB", parseUEBTB), (text "+UEBTUC", parseUEBTUC), (text "+UEBTUPD", parseUEBTUPD),
   (text "+UEBTUPE", parseUEBTUPE), (text "+UEBTPHYU", parseUEBTPHYU), (text "+UEBTBGD", parseUEBTBGD),
   (text "+UEBTGCN", parseUEBTGCN), (text "+UEBTGCI", parseUEBTGCI), (text "+UEBTGCW", parseUEBTGCW),
   (text "+UEBTGRR", parseUEBTGRR), (text "+UEBTGIC", parseUEBTGIC), (text "+UESPSC", parseUESPSC),
   (text "+UESPSDC", parseUESPSDC), (text "+UESPSDS", parseUESPSDS), (text "+UESPSDB", parseUESPSDB),
   (text "+UESPSDA", parseUESPSDA), (text "+UEWLU", parseUEWLU), (text "+UEWLD", parseUEWLD),
   (text "+UEWSNU", parseUEWSNU), (text "+UEWSND", parseUEWSND), (text "+UEWSRSI", parseUEWSRSI),
   (text "+UEWSRSF", parseUEWSRSF), (text "+UEWSRSC", parseUEWSRSC), (text "+UEWAPNU", parseUEWAPNU),
   (text "+UEWAPND", parseUEWAPND), (text "+UEWAPU", parseUEWAPU), (text "+UEWAPD", parseUEWAPD),
   (text "+UEWAPSA", parseUEWAPSA), (text "+UEWAPSDA", parseUEWAPSDA), (text "+UESOC", parseUESOC),
   (text "+UESODA", parseUESODA), (text "+UESODS", parseUESODS), (text "+UESODSF", parseUESODSF),
   (text "+UESODB", parseUESODB), (text "+UESODBF", parseUESODBF), (text "+UESOCL", parseUESOCL),
   (text "+UESOIC", parseUESOIC), (text "+UEMQC", parseUEMQC), (text "+UEMQDC", parseUEMQDC),
   (text "+UEMQDA", parseUEMQDA), (text "+UEMQDD", parseUEMQDD), (text "+UEMQPC", parseUEMQPC),
   (text "+UEMQSC", parseUEMQSC), (text "+UEHTCDC", parseUEHTCDC), (text "+UEHTCRS", parseUEHTCRS),
   (text "+UEDGPC", parseUEDGPC), (text "+UEDGP", parseUEDGP), (text "+UEDGI", parseUEDGI)]

def uCxUrcParse (callbacks : UrcName → Bool) (pUrcName m : List UInt8) (pParams : Nat) : Option UrcParsed :=
  match urcParsers.lookup pUrcName with
  | some parse => parse callbacks m pParams
  | none => some ⟨-1, [], m⟩

/-- The loop of `urcCallback` over that many characters from index `pParams` on: the memory, and where the
parameters start. -/
def urcParams : Nat → List UInt8 → Nat → List UInt8 × Nat
  | 0, m, pParams => (m, pParams)
  | paramLen + 1, m, pParams =>
    if m.getD pParams 0 = ch ':' then (m.set pParams 0, pParams + 1)
    else urcParams paramLen m (pParams + 1)

/-- `urcCallback` for the line of `lineLength` characters at the start of the memory. -/
def urcCallback (callbacks : UrcName → Bool) (pLine : List UInt8) (lineLength : Nat) : Option UrcParsed :=
  let (m, pParams) := urcParams lineLength pLine 0
  uCxUrcParse callbacks (cstr m 0) m pParams

/-! ## What the URCs look like -/

namespace UrcName

/-- The URCs, in the order of the comparisons. -/
def all : List UrcName :=
  [.startup, .uebtc, .uebtdc, .uebtb, .uebtuc, .uebtupd, .uebtupe, .uebtphyu, .uebtbgd, .uebtgcn, .uebtgci,
   .uebtgcw, .uebtgrr, .uebtgic, .uespsc, .uespsdc, .uespsds, .uespsdb, .uespsda, .uewlu, .uewld, .uewsnu,
   .uewsnd, .uewsrsi, .uewsrsf, .uewsrsc, .uewapnu, .uewapnd, .uewapu, .uewapd, .uewapsa, .uewapsda, .uesoc,
   .uesoda, .uesods, .uesodsf, .uesodb, .uesodbf, .uesocl, .uesoic, .uemqc, .uemqdc, .uemqda, .uemqdd,
   .uemqpc, .uemqsc, .uehtcdc, .uehtcrs, .uedgpc, .uedgp, .uedgi]

/-- The name in the line. -/
def chars : UrcName → List UInt8
  | .startup => text "+STARTUP"
  | .uebtc => text "+UEBTC"
  | .uebtdc => text "+UEBTDC"
  | .uebtb => text "+UEBTB"
  | .uebtuc => text "+UEBTUC"
  | .uebtupd => text "+UEBTUPD"
  | .uebtupe => text "+UEBTUPE"
  | .uebtphyu => text "+UEBTPHYU"
  | .uebtbgd => text "+UEBTBGD"
  | .uebtgcn => text "+UEBTGCN"
  | .uebtgci => text "+UEBTGCI"
  | .uebtgcw => text "+UEBTGCW"
  | .uebtgrr => text "+UEBTGRR"
  | .uebtgic => text "+UEBTGIC"
  | .uespsc => text "+UESPSC"
  | .uespsdc => text "+UESPSDC"
  | .uespsds => text "+UESPSDS"
  | .uespsdb => text "+UESPSDB"
  | .uespsda => text "+UESPSDA"
  | .uewlu => text "+UEWLU"
  | .uewld => text "+UEWLD"
  | .uewsnu => text "+UEWSNU"
  | .uewsnd => text "+UEWSND"
  | .uewsrsi => text "+UEWSRSI"
  | .uewsrsf => text "+UEWSRSF"
  | .uewsrsc => text "+UEWSRSC"
  | .uewapnu => text "+UEWAPNU"
  | .uewapnd => text "+UEWAPND"
  | .uewapu => text "+UEWAPU"
  | .uewapd => text "+UEWAPD"
  | .uewapsa => text "+UEWAPSA"
  | .uewapsda => text "+UEWAPSDA"
  | .uesoc => text "+UESOC"
  | .uesoda => text "+UESODA"
  | .uesods => text "+UESODS"
  | .uesodsf => text "+UESODSF"
  | .uesodb => text "+UESODB"
  | .uesodbf => text "+UESODBF"
  | .uesocl => text "+UESOCL"
  | .uesoic => text "+UESOIC"
  | .uemqc => text "+UEMQC"
  | .uemqdc => text "+UEMQDC"
  | .uemqda => text "+UEMQDA"
  | .uemqdd => text "+UEMQDD"
  | .uemqpc => text "+UEMQPC"
  | .uemqsc => text "+UEMQSC"
  | .uehtcdc => text "+UEHTCDC"
  | .uehtcrs => text "+UEHTCRS"
  | .uedgpc => text "+UEDGPC"
  | .uedgp => text "+UEDGP"
  | .uedgi => text "+UEDGI"

/-- The types of the arguments of the callback, as format characters. -/
def fmt : UrcName → List UInt8
  | .startup | .uewsnu | .uewsnd | .uewsrsi | .uewsrsf | .uewapnu | .uewapnd | .uewapu | .uewapd => text ""
  | .uebtc => text "db"
  | .uebtdc | .uespsc | .uespsdc | .uespsdb | .uesoc | .uesodb | .uesocl | .uemqc | .uehtcdc => text "d"
  | .uebtb | .uebtuc | .uebtupd => text "bd"
  | .uebtupe => text "b"
  | .uebtphyu | .uedgpc => text "dddd"
  | .uebtbgd => text "bdsdh"
  | .uebtgcn | .uebtgci => text "ddh"
  | .uebtgcw => text "ddhd"
  | .uebtgrr | .uebtgic | .uespsda | .uewld | .uesoda | .uemqdc | .uemqda | .uemqdd | .uemqsc | .uedgp => text "dd"
  | .uespsds | .uesods => text "d$"
  | .uewlu | .uewsrsc => text "dmd"
  | .uewapsa | .uewapsda => text "m"
  | .uesodsf => text "did$"
  | .uesodbf | .uesoic => text "did"
  | .uemqpc => text "ddd"
  | .uehtcrs => text "dds"
  | .uedgi => text "s"

end UrcName

theorem UrcName.mem_all (n : UrcName) : n ∈ all := by
  cases n <;> decide

/-- The URC with this name, if there is one. -/
def UrcName.ofChars (pUrcName : List UInt8) : Option UrcName := all.find? fun n => pUrcName == n.chars

/-- A table with a column of keys. -/
theorem lookup_map {α κ β : Type} [BEq κ] (key : α → κ) (value : α → β) (as : List α) (k : κ) :
    (as.map fun a => (key a, value a)).lookup k = (as.find? fun a => k == key a).map value := by
  induction as with
  | nil => rfl
  | cons a as ih =>
    rw [List.map_cons, List.lookup_cons, List.find?_cons]
    cases k == key a with
    | true => rfl
    | false => exact ih

/-- The parser of a URC has the format and the callback of that URC. -/
theorem urcParsers_eq : urcParsers = UrcName.all.map fun n => (n.chars, parseUrc n n.fmt) := rfl

theorem UrcName.ofChars_chars (n : UrcName) : ofChars n.chars = some n := by
  have hall : ∀ n ∈ all, ofChars n.chars = some n := by decide +kernel
  exact hall n (mem_all n)

theorem uCxUrcParse_eq (callbacks : UrcName → Bool) (pUrcName m : List UInt8) (pParams : Nat) :
    uCxUrcParse callbacks pUrcName m pParams = match UrcName.ofChars pUrcName with
      | some n => parseUrc n n.fmt callbacks m pParams
      | none => some ⟨-1, [], m⟩ := by
  rw [uCxUrcParse, urcParsers_eq, lookup_map, UrcName.ofChars]
  cases UrcName.all.find? fun n => pUrcName == n.chars <;> rfl

/-! ## The parameters of a line -/

theorem urcParams_colon {name : List UInt8} (h : ch ':' ∉ name) (n : Nat) (pre rest : List UInt8) :
    urcParams (name.length + 1 + n) (pre ++ name ++ ch ':' :: rest) pre.length =
      (pre ++ name ++ 0 :: rest, pre.length + name.length + 1) := by
  induction name generalizing pre with
  | nil =>
    have hlen : ([] : List UInt8).length + 1 + n = n + 1 := by
      rw [List.length_nil]
      omega
    rw [hlen, urcParams, List.append_nil, getD_mid, if_pos rfl]
    simp
  | cons c name ih =>
    obtain ⟨hc, hname⟩ := not_or.1 (List.mem_cons.not.1 h)
    have hlen : (c :: name).length + 1 + n = name.length + 1 + n + 1 := by
      rw [List.length_cons]
      omega
    have hm : ∀ d, pre ++ c :: name ++ d :: rest = pre ++ [c] ++ name ++ d :: rest := by simp
    have hrest := ih hname (pre ++ [c])
    rw [List.length_append, List.length_singleton] at hrest
    rw [hlen, urcParams, List.append_assoc, List.cons_append, getD_mid, if_neg (Ne.symm hc),
      ← List.cons_append, ← List.append_assoc, hm, hrest, hm, List.length_cons]
    simp only [Prod.mk.injEq, true_and]
    omega

theorem urcParams_none {line : List UInt8} (h : ch ':' ∉ line) (pre rest : List UInt8) :
    urcParams line.length (pre ++ line ++ rest) pre.length =
      (pre ++ line ++ rest, pre.length + line.length) := by
  induction line generalizing pre with
  | nil => simp [urcParams]
  | cons c line ih =>
    obtain ⟨hc, hline⟩ := not_or.1 (List.mem_cons.not.1 h)
    have hm : pre ++ c :: line ++ rest = pre ++ [c] ++ line ++ rest := by simp
    have hrest := ih hline (pre ++ [c])
    rw [List.length_append, List.length_singleton] at hrest
    rw [List.length_cons, urcParams, List.append_assoc, List.cons_append, getD_mid, if_neg (Ne.symm hc),
      ← List.cons_append, ← List.append_assoc, hm, hrest]
    simp only [Prod.mk.injEq, true_and]
    omega

theorem converted_defined (m : List UInt8) (o : Option Output) : converted m o ≠ .undefined := by
  cases o <;> exact Result.noConfusion

/-- Behind the start of the memory there always is a character before the parameter. -/
theorem param_defined (c : UInt8) (m : List UInt8) {p : Nat} (hp : 0 < p) (e : Nat) :
    ParseParams.param c m p e ≠ .undefined := by
  have hpos : p + (cstr m p).length ≠ 0 := by omega
  unfold ParseParams.param
  dsimp only
  split
  · exact converted_defined _ _
  split
  · exact Result.noConfusion
  split
  · exact Result.noConfusion
  split
  · exact converted_defined _ _
  split
  · exact converted_defined _ _
  split
  · -- a Bluetooth address
    rw [uCxStringToBdAddress, findBdAddressType, charBefore, if_neg hpos]
    exact converted_defined _ _
  split
  · exact converted_defined _ _
  split
  · split
    · exact Result.noConfusion
    · exact converted_defined _ _
  · exact Result.noConfusion

theorem loop_defined (fmt : List UInt8) {m : List UInt8} {p : Nat} (hp : 0 < p) (ret : Int)
    (outputs : List Output) : ParseParams.loop fmt m p ret outputs ≠ none := by
  induction fmt generalizing m p ret outputs with
  | nil => exact Option.some_ne_none _
  | cons c fmt ih =>
    rw [ParseParams.loop]
    cases uCxAtUtilFindParamEnd (cstr m p) with
    | none => exact Option.some_ne_none _
    | some len =>
      dsimp only
      generalize (if (m.getD (p + len) 0 == 0) = true then m else m.set (p + len) 0) = m'
      cases hres : ParseParams.param c m' p (p + len) with
      | undefined => exact absurd hres (param_defined c m' hp _)
      | failed => exact Option.some_ne_none _
      | done =>
        dsimp only
        split
        · exact Option.some_ne_none _
        · exact ih (Nat.succ_pos _) _ _

/-! ## What a line is heard as -/

/-- The part of a line before its first colon. -/
def urcNameOf (line : List UInt8) : List UInt8 := line.takeWhile (· ≠ ch ':')

/-- The tokens of the part of a line behind its first colon. -/
def urcTokens (line : List UInt8) : List Token := tokens ((line.dropWhile (· ≠ ch ':')).drop 1)

section
variable {name : List UInt8} (h : ch ':' ∉ name)
include h

theorem takeWhile_name (rest : List UInt8) :
    (name ++ rest).takeWhile (· ≠ ch ':') = name ++ rest.takeWhile (· ≠ ch ':') :=
  List.takeWhile_append_of_pos fun _ hc => decide_eq_true (ne_of_mem_of_not_mem hc h)

theorem dropWhile_name (rest : List UInt8) :
    (name ++ rest).dropWhile (· ≠ ch ':') = rest.dropWhile (· ≠ ch ':') :=
  List.dropWhile_append_of_pos fun _ hc => decide_eq_true (ne_of_mem_of_not_mem hc h)

theorem urcNameOf_colon (params : List UInt8) : urcNameOf (name ++ ch ':' :: params) = name := by
  rw [urcNameOf, takeWhile_name h, List.takeWhile_cons_of_neg (by simp), List.append_nil]

theorem urcTokens_colon (params : List UInt8) : urcTokens (name ++ ch ':' :: params) = tokens params := by
  rw [urcTokens, dropWhile_name h, List.dropWhile_cons_of_neg (by simp)]
  rfl

theorem urcNameOf_bare : urcNameOf name = name := by
  have htake := takeWhile_name h []
  rwa [List.append_nil, List.takeWhile_nil, List.append_nil] at htake

theorem urcTokens_bare : urcTokens name = tokens [] := by
  have hdrop := dropWhile_name h []
  rw [List.append_nil, List.dropWhile_nil] at hdrop
  rw [urcTokens, hdrop]
  rfl

end

/-- The calls for tokens that stand for the parameters of a URC: one if its callback is set and no token is
refused. -/
def heardAs (callbacks : UrcName → Bool) (n : UrcName) (ts : List Token) : List UrcCall :=
  if callbacks n ∧ (n.fmt.zip ts).all (fun p => !refused p) then [⟨n, values (n.fmt.zip ts)⟩] else []

/-- The calls for a line: none if what is before the colon is not the name of a URC. -/
def heard (callbacks : UrcName → Bool) (line : List UInt8) : List UrcCall :=
  match UrcName.ofChars (urcNameOf line) with
  | none => []
  | some n => heardAs callbacks n (urcTokens line)

example : heard (fun _ => true) (text "+UEWLU:2,0102030405ff,11") =
    [⟨.uewlu, [.int 2, .macAddress ⟨#v[1, 2, 3, 4, 5, 255]⟩, .int 11]⟩] := by
  decide +kernel

/-- The second argument is missing. -/
example : heard (fun _ => true) (text "+UEBTC:1") = [⟨.uebtc, [.int 1]⟩] := by
  decide +kernel

section
variable (callbacks : UrcName → Bool)

/-- The parser of a URC, for parameters behind the start of the memory. -/
theorem parseUrc_tokens (n : UrcName) {params : List UInt8} (h0 : 0 ∉ params) {pre : List UInt8}
    (hpre : pre ≠ []) (post : List UInt8) :
    ∃ params' ret, params'.length = params.length ∧
      parseUrc n n.fmt callbacks (pre ++ params ++ 0 :: post) pre.length =
        some ⟨ret, heardAs callbacks n (tokens params), pre ++ params' ++ 0 :: post⟩ := by
  rcases loop_tokens n.fmt h0 pre post 0 [] with ⟨hnone, -⟩ | ⟨params', new, hlen, hloop, hnew⟩
  · exact absurd hnone (loop_defined n.fmt (List.length_pos_iff.2 hpre) 0 [])
  refine ⟨params', returned 0 (n.fmt.zip (tokens params)), hlen, ?_⟩
  rw [parseUrc, uCxAtUtilParseParamsVaList, hloop, Option.map_some, heardAs]
  simp only [List.nil_append, hnew, Option.some.injEq, UrcParsed.mk.injEq, true_and, and_true]
  cases hfind : (n.fmt.zip (tokens params)).findIdx? refused with
  | none =>
    obtain ⟨hacc, hall⟩ := accepted_of_none hfind
    have hret : 0 ≤ returned 0 (n.fmt.zip (tokens params)) := by
      simp only [returned, hfind]
      omega
    have hall' : (n.fmt.zip (tokens params)).all (fun p => !refused p) = true :=
      List.all_eq_true.2 fun p hp => by rw [hall p hp]; rfl
    simp only [hret, hall', hacc, true_and, and_true]
  | some i =>
    have hret : ¬0 ≤ returned 0 (n.fmt.zip (tokens params)) := by
      simp only [returned, hfind]
      omega
    have hall' : ¬(n.fmt.zip (tokens params)).all (fun p => !refused p) = true := by
      intro hall
      have hnone : (n.fmt.zip (tokens params)).findIdx? refused = none :=
        List.findIdx?_eq_none_iff.2 fun p hp => by simpa using List.all_eq_true.1 hall p hp
      rw [hnone] at hfind
      cases hfind
    rw [if_neg fun h => hret h.1, if_neg fun h => hall' h.2]

/-- `uCxUrcParse` of a name; where the name is that of a URC, the parameters are behind the start of the
memory. -/
theorem uCxUrcParse_tokens (pUrcName : List UInt8) {params : List UInt8} (h0 : 0 ∉ params) {pre : List UInt8}
    (hpre : pre = [] → UrcName.ofChars pUrcName = none) (post : List UInt8) :
    ∃ params' ret, params'.length = params.length ∧
      uCxUrcParse callbacks pUrcName (pre ++ params ++ 0 :: post) pre.length = some ⟨ret,
        match UrcName.ofChars pUrcName with
        | none => []
        | some n => heardAs callbacks n (tokens params), pre ++ params' ++ 0 :: post⟩ := by
  rw [uCxUrcParse_eq]
  cases hname : UrcName.ofChars pUrcName with
  | none => exact ⟨params, -1, rfl, rfl⟩
  | some n =>
    have hne : pre ≠ [] := fun h => Option.some_ne_none n (hname.symm.trans (hpre h))
    exact parseUrc_tokens callbacks n h0 hne post

/-- A line with a colon. -/
theorem urcCallback_colon {name : List UInt8} (h0 : 0 ∉ name) (hname : ch ':' ∉ name)
    (params payload : List UInt8) :
    urcCallback callbacks (name ++ ch ':' :: params ++ 0 :: payload) (name ++ ch ':' :: params).length =
      uCxUrcParse callbacks name (name ++ [0] ++ params ++ 0 :: payload) (name ++ [0]).length := by
  have hlen : (name ++ ch ':' :: params).length = name.length + 1 + params.length := by
    rw [List.length_append, List.length_cons]
    omega
  have hsplit := urcParams_colon hname params.length [] (params ++ 0 :: payload)
  have hcstr := cstr_mid h0 [] (params ++ 0 :: payload)
  rw [List.nil_append] at hsplit hcstr
  rw [urcCallback, hlen, List.append_assoc, List.cons_append]
  simp only [List.length_nil, Nat.zero_add] at hsplit hcstr
  rw [hsplit]
  dsimp only
  rw [hcstr]
  simp

/-- A line without one. -/
theorem urcCallback_bare {line : List UInt8} (h0 : 0 ∉ line) (hline : ch ':' ∉ line) (payload : List UInt8) :
    urcCallback callbacks (line ++ 0 :: payload) line.length =
      uCxUrcParse callbacks line (line ++ [] ++ 0 :: payload) line.length := by
  have hsplit := urcParams_none hline [] (0 :: payload)
  have hcstr := cstr_mid h0 [] payload
  rw [List.nil_append] at hsplit hcstr
  simp only [List.length_nil, Nat.zero_add] at hsplit hcstr
  rw [urcCallback, hsplit]
  dsimp only
  rw [hcstr, List.append_nil]

/-- **The callback of a URC gets the values of the reference tokens.** Of the memory only the line changes. -/
theorem urcCallback_heard {line : List UInt8} (h0 : 0 ∉ line) (payload : List UInt8) :
    ∃ line' ret, line'.length = line.length ∧
      urcCallback callbacks (line ++ 0 :: payload) line.length =
        some ⟨ret, heard callbacks line, line' ++ 0 :: payload⟩ := by
  by_cases hcolon : ch ':' ∈ line
  · obtain ⟨name, params, rfl, hname⟩ := List.eq_append_cons_of_mem hcolon
    have h0n : 0 ∉ name := fun h => h0 (List.mem_append_left _ h)
    have h0p : 0 ∉ params := fun h => h0 (List.mem_append_right _ (List.mem_cons_of_mem _ h))
    have hpre : name ++ [0] = [] → UrcName.ofChars name = none := fun h => absurd h (by simp)
    obtain ⟨params', ret, hlen, hparse⟩ := uCxUrcParse_tokens callbacks name h0p hpre payload
    refine ⟨name ++ [0] ++ params', ret, by simp [hlen], ?_⟩
    rw [urcCallback_colon callbacks h0n hname, hparse, heard, urcNameOf_colon hname, urcTokens_colon hname]
  · have hpre : line = [] → UrcName.ofChars line = none := fun h => h ▸ rfl
    have h0p : (0 : UInt8) ∉ [] := List.not_mem_nil
    obtain ⟨params', ret, hlen, hparse⟩ := uCxUrcParse_tokens callbacks line h0p hpre payload
    obtain rfl := List.length_eq_zero_iff.1 hlen
    refine ⟨line, ret, rfl, ?_⟩
    rw [urcCallback_bare callbacks h0 hcolon, hparse, heard, urcNameOf_bare hcolon, urcTokens_bare hcolon,
      List.append_nil]

theorem urcCallback_heard_uewlu : ∃ line' ret, line'.length = (text "+UEWLU:2,0102030405ff,11").length ∧
    urcCallback (fun _ => true) (text "+UEWLU:2,0102030405ff,11" ++ 0 :: [7])
        (text "+UEWLU:2,0102030405ff,11").length =
      some ⟨ret, heard (fun _ => true) (text "+UEWLU:2,0102030405ff,11"), line' ++ 0 :: [7]⟩ :=
  urcCallback_heard (fun _ => true) (by decide) [7]

/-! ## Arguments that are not initialized -/

theorem decode_fmt {c : UInt8} {t : List UInt8} {a : Arg} (h : decode c t = some a) : a.fmt = c := by
  have hmap : ∀ {α : Type} {f : α → Arg} {o : Option α} (d : UInt8), (∀ x, (f x).fmt = d) →
      o.map f = some a → a.fmt = d := by
    intro α f o d hf ho
    obtain ⟨x, -, rfl⟩ := Option.map_eq_some_iff.1 ho
    exact hf x
  have hc : assigns c = true := by
    cases ha : assigns c with
    | true => rfl
    | false =>
      rw [decode_of_not_assigns ha] at h
      cases h
  rcases assigns_iff.1 hc with rfl | rfl | rfl | rfl | rfl | rfl | rfl | rfl
  · rw [decode, if_pos rfl] at h
    split at h
    · cases h
    · cases h
      rfl
  · cases h
    rfl
  · cases h
    rfl
  · exact hmap (ch 'i') (fun _ => rfl) h
  · exact hmap (ch 'm') (fun _ => rfl) h
  · exact hmap (ch 'b') (fun _ => rfl) h
  · exact hmap (ch 'l') (fun _ => rfl) h
  · exact hmap (ch 'h') (fun _ => rfl) h

theorem UrcName.assigns_fmt (n : UrcName) : n.fmt.all assigns = true := by
  cases n <;> decide

/-- The values of parameters that are not refused, one for each. -/
theorem map_fmt_values {ps : List (UInt8 × Token)} (hassigns : ∀ p ∈ ps, assigns p.1 = true)
    (h : ∀ p ∈ ps, refused p = false) : (values ps).map Arg.fmt = ps.map Prod.fst := by
  induction ps with
  | nil => rfl
  | cons p ps ih =>
    have hp := h p List.mem_cons_self
    have ha := hassigns p List.mem_cons_self
    obtain ⟨a, hd⟩ : ∃ a, decode p.1 p.2.chars = some a := by
      rw [refused, ha, Bool.true_and, Bool.or_eq_false_iff] at hp
      exact Option.isSome_iff_exists.1 (by cases hs : decode p.1 p.2.chars <;> simp_all)
    have hrest := ih (fun q hq => hassigns q (List.mem_cons_of_mem _ hq))
      fun q hq => h q (List.mem_cons_of_mem _ hq)
    rw [values] at hrest ⊢
    rw [List.filterMap_cons, hd, List.map_cons, List.map_cons, decode_fmt hd, hrest]

/-- **A callback is called with an argument that is not initialized exactly if the line has too few
parameters**: those that it has are there, of the types of the callback. -/
theorem args_missing_iff {line payload : List UInt8} (h0 : 0 ∉ line) {r : UrcParsed}
    (hr : urcCallback callbacks (line ++ 0 :: payload) line.length = some r) {call : UrcCall}
    (hcall : call ∈ r.calls) :
    call.args.map Arg.fmt = call.callback.fmt.take (urcTokens line).length ∧
      (call.args.length < call.callback.fmt.length ↔ (urcTokens line).length < call.callback.fmt.length) := by
  obtain ⟨line', ret, -, hheard⟩ := urcCallback_heard callbacks h0 payload
  rw [hr] at hheard
  rw [Option.some.inj hheard] at hcall
  have hfmt : call.args.map Arg.fmt = call.callback.fmt.take (urcTokens line).length := by
    dsimp only at hcall
    rw [heard] at hcall
    split at hcall
    · cases hcall
    · next n _ =>
      rw [heardAs] at hcall
      split at hcall
      · next hok =>
        obtain rfl := List.mem_singleton.1 hcall
        have hassigns := List.all_eq_true.1 n.assigns_fmt
        have hle : ((n.fmt.zip (urcTokens line)).map Prod.fst).length ≤ (urcTokens line).length := by
          rw [List.length_map, List.length_zip]
          exact Nat.min_le_right _ _
        have hzip : ((n.fmt.zip (urcTokens line)).map Prod.fst).take (urcTokens line).length = _ :=
          take_map_fst_zip (Nat.le_refl _)
        rw [List.take_of_length_le hle] at hzip
        dsimp only
        rw [map_fmt_values, hzip]
        · exact fun p hp => hassigns p.1 (List.of_mem_zip hp).1
        · intro p hp
          simpa using List.all_eq_true.1 hok.2 p hp
      · cases hcall
  refine ⟨hfmt, ?_⟩
  have hlen := congrArg List.length hfmt
  rw [List.length_map, List.length_take] at hlen
  omega

/-- The address is not initialized. -/
theorem args_missing_iff_uebtc : ∃ r, urcCallback (fun _ => true) (text "+UEBTC:1" ++ 0 :: []) 8 = some r ∧
    ∃ call ∈ r.calls, call.callback = .uebtc ∧ call.args.length < UrcName.uebtc.fmt.length := by
  have h0 : 0 ∉ text "+UEBTC:1" := by decide
  have hr : urcCallback (fun _ => true) (text "+UEBTC:1" ++ 0 :: []) (text "+UEBTC:1").length =
      some ⟨1, [⟨.uebtc, [.int 1]⟩], text "+UEBTC" ++ 0 :: text "1" ++ [0]⟩ := by decide +kernel
  have hcall : (⟨.uebtc, [.int 1]⟩ : UrcCall) ∈ [(⟨.uebtc, [.int 1]⟩ : UrcCall)] := List.mem_singleton.2 rfl
  exact ⟨_, hr, _, hcall, rfl, (args_missing_iff (fun _ => true) h0 hr hcall).2.2 (by decide +kernel)⟩

end
