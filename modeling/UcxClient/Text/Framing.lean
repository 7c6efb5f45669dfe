import UcxClient.Client.Defs
import UcxClient.Text.Args

/-!
# Binary transfers

A binary transfer is SOH, the length in two bytes, high byte first, and that many bytes. `receiveFrame` is
this rule for who receives it, as `handleBinaryRx` follows it; the format character `B` writes one
(`sendCmd_binary`). Its header has the low 16 bits of the length, so that the two agree exactly up to 65535
bytes (`binary_frame_iff`).
-/

open SendCmd

/-- The length that a header announces. -/
def announcedLength (high low : UInt8) : Nat := high.toNat * 256 + low.toNat

/-- What is received of a binary transfer, and what is left over. -/
def receiveFrame : List UInt8 → Option (List UInt8 × List UInt8)
  | soh :: high :: low :: rest =>
    if soh = sohChar ∧ announcedLength high low ≤ rest.length then
      some (rest.take (announcedLength high low), rest.drop (announcedLength high low))
    else none
  | _ => none

/-- What the format character `B` writes. -/
def binaryFrame (pData : List UInt8) : List UInt8 :=
  sohChar :: UInt8.ofNat (pData.length / 256) :: UInt8.ofNat pData.length :: pData

/-- The header keeps 16 bits. -/
theorem announcedLength_ofNat (n : Nat) :
    announcedLength (UInt8.ofNat (n / 256)) (UInt8.ofNat n) = n % 65536 := by
  simp only [announcedLength, UInt8.toNat_ofNat']
  omega

theorem receiveFrame_binaryFrame (pData : List UInt8) : receiveFrame (binaryFrame pData) =
    some (pData.take (pData.length % 65536), pData.drop (pData.length % 65536)) := by
  have hle : pData.length % 65536 ≤ pData.length := Nat.mod_le _ _
  rw [binaryFrame, receiveFrame, announcedLength_ofNat, if_pos ⟨rfl, hle⟩]

/-- Parameters and a binary transfer behind them. -/
theorem paramLoop_binary (first : Bool) {args : List Arg} (h : ∀ a ∈ args, a.isBinary = false)
    {pData : List UInt8} (hne : pData ≠ []) :
    paramLoop first (args.map Arg.fmt ++ [ch 'B']) (args ++ [.binary pData]) =
      some ((if first then commaSeparated (args.map Arg.token)
        else (args.map Arg.token).flatMap (ch ',' :: ·)) ++ binaryFrame pData, true) := by
  induction args generalizing first with
  | nil =>
    have htakes : takesArg (ch 'B') = true := rfl
    have htext : argText (.binary pData) = some (binaryFrame pData) := by
      rw [argText, if_neg hne]
      rfl
    rw [List.map_nil, List.nil_append, List.nil_append, paramLoop, if_pos htakes]
    simp only [Arg.fmt, ne_eq, not_true_eq_false, if_false, htext, bne_self_eq_false, Bool.and_false,
      Bool.false_eq_true]
    cases first <;> simp [commaSeparated]
  | cons a args ih =>
    have hb := h a List.mem_cons_self
    have hfmt := fmt_ne_B hb
    rw [List.map_cons, List.cons_append, List.cons_append, paramLoop, if_pos (takesArg_fmt a)]
    simp only [ne_eq, not_true_eq_false, if_false, argText_eq hb, hfmt,
      ih false fun b hb => h b (List.mem_cons_of_mem _ hb)]
    cases first <;> simp [commaSeparated, hfmt]

/-- The bytes of a command that ends with a binary transfer; no CR follows. -/
theorem sendCmd_binary (pCmd : List UInt8) {args : List Arg} (h : ∀ a ∈ args, a.isBinary = false)
    {pData : List UInt8} (hne : pData ≠ []) :
    uCxAtClientSendCmdVaList pCmd (args.map Arg.fmt ++ [ch 'B']) (args ++ [.binary pData]) =
      some (pCmd ++ commaSeparated (args.map Arg.token) ++ binaryFrame pData) := by
  rw [uCxAtClientSendCmdVaList, paramLoop_binary true h hne]
  simp

/-- **A binary transfer is received as it was sent** exactly if its length fits in the header. -/
theorem binary_frame_iff (pCmd : List UInt8) (args : List Arg) (h : ∀ a ∈ args, a.isBinary = false)
    (pData : List UInt8) (hne : pData ≠ []) :
    (∃ bytes, uCxAtClientSendCmdVaList pCmd (args.map Arg.fmt ++ [ch 'B']) (args ++ [.binary pData]) =
        some (pCmd ++ commaSeparated (args.map Arg.token) ++ bytes) ∧
      receiveFrame bytes = some (pData, [])) ↔ pData.length ≤ 65535 := by
  rw [sendCmd_binary pCmd h hne]
  constructor
  · intro ⟨bytes, heq, hreceive⟩
    obtain rfl := List.append_cancel_left (Option.some.inj heq)
    rw [receiveFrame_binaryFrame] at hreceive
    simp only [Option.some.injEq, Prod.mk.injEq, List.drop_eq_nil_iff] at hreceive
    omega
  · intro hlen
    refine ⟨_, rfl, ?_⟩
    rw [receiveFrame_binaryFrame, Nat.mod_eq_of_lt (by omega), List.take_length, List.drop_length]

theorem binary_frame_iff_three_bytes :
    (∃ bytes, uCxAtClientSendCmdVaList (text "AT+FOO=") (text "dB") [.int 5, .binary [1, 2, 3]] =
        some (text "AT+FOO=" ++ commaSeparated [text "5"] ++ bytes) ∧
      receiveFrame bytes = some ([1, 2, 3], [])) ↔ [(1 : UInt8), 2, 3].length ≤ 65535 :=
  binary_frame_iff (text "AT+FOO=") [.int 5] (by decide) [1, 2, 3] (by decide)

/-- Of a transfer of 65536 bytes nothing is received, and all of them are left over. -/
theorem long_transfer_left_over : ∃ pData : List UInt8, pData.length = 65536 ∧
    uCxAtClientSendCmdVaList (text "AT+FOO=") (text "B") [.binary pData] =
      some (text "AT+FOO=" ++ binaryFrame pData) ∧
    receiveFrame (binaryFrame pData) = some ([], pData) := by
  obtain ⟨pData, hlen⟩ : ∃ pData : List UInt8, pData.length = 65536 :=
    ⟨List.replicate 65536 (ch 'A'), List.length_replicate⟩
  have hne : pData ≠ [] := List.ne_nil_of_length_pos (by omega)
  have hsend := @sendCmd_binary (text "AT+FOO=") [] nofun pData hne
  have hmod : 65536 % 65536 = 0 := rfl
  refine ⟨pData, hlen, ?_, ?_⟩
  · exact hsend
  · rw [receiveFrame_binaryFrame, hlen, hmod, List.take_zero, List.drop_zero]
