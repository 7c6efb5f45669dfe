import UcxClient.Text.Decode
import UcxClient.Text.HexBinary

/-!
# Which texts are Bluetooth addresses

`BdText s a`: the text `s` is the address `a`, twelve hexadecimal digits and perhaps `r` or `p` behind them.
`uCxStringToBdAddress` looks at the last character, at the length if that is another one, and at the first
twelve characters. So it reads exactly the addresses (`readsBdExactly_iff`) but for two kinds of texts: before
an empty one it looks at the character in front of it, and from one with twelve digits that ends in `r` or `p`
it takes the digits whatever there is in between.
-/

open ByteMem

/-! ## Addresses as texts -/

/-- The bytes of pairs of hexadecimal digits. -/
def pairBytes : List UInt8 → List UInt8
  | high :: low :: rest => UInt8.ofNat (digitVal high * 16 + digitVal low) :: pairBytes rest
  | _ => []

/-- What may stand behind the digits. -/
inductive BdSuffix : List UInt8 → BdAddressType → Prop
  | none : BdSuffix [] .typePublic
  | r : BdSuffix [ch 'r'] .typeRandom
  | p : BdSuffix [ch 'p'] .typePublic

structure BdText (s : List UInt8) (a : BtLeAddress) : Prop where
  digits : ∀ c ∈ s.take 12, digitVal c < 16
  length : 12 ≤ s.length
  address : a.address.toList = pairBytes (s.take 12)
  suffix : BdSuffix (s.drop 12) a.type

/-- Wherever the string is, `uCxStringToBdAddress` reads it without a look at what is around it, and takes it if
and only if it is an address, and as that one. -/
def ReadsBdExactly (s : List UInt8) : Prop :=
  ∀ pre post, ∃ r, uCxStringToBdAddress (pre ++ s ++ 0 :: post) pre.length = some r ∧
    ∀ a, r = some a ↔ BdText s a

/-- Twelve digits, more characters and then `r` or `p`. -/
structure BdGap (s : List UInt8) : Prop where
  digits : ∀ c ∈ s.take 12, digitVal c < 16
  length : 14 ≤ s.length
  last : s.getLast? = some (ch 'r') ∨ s.getLast? = some (ch 'p')

/-! ## Pairs of digits -/

theorem take_pair (n : Nat) (high low : UInt8) (rest : List UInt8) :
    (high :: low :: rest).take (2 * (n + 1)) = high :: low :: rest.take (2 * n) := rfl

/-- `uCxAtUtilHexToBinary` fills the buffer if there are enough digits in front. -/
theorem hexToBinary_full {n : Nat} {s : List UInt8} :
    (uCxAtUtilHexToBinary s n).length = n ↔ 2 * n ≤ s.length ∧ ∀ c ∈ s.take (2 * n), digitVal c < 16 := by
  induction n generalizing s with
  | zero => simp [uCxAtUtilHexToBinary]
  | succ n ih =>
    obtain _ | ⟨high, _ | ⟨low, rest⟩⟩ := s
    · simp [uCxAtUtilHexToBinary]
    · simp [uCxAtUtilHexToBinary]
      omega
    · rw [uCxAtUtilHexToBinary, hexToByte_eq, take_pair]
      simp only [List.forall_mem_cons, List.length_cons]
      by_cases hd : digitVal high < 16 ∧ digitVal low < 16
      · rw [if_pos hd]
        simp only [List.length_cons, Nat.add_right_cancel_iff, ih, hd.1, hd.2, true_and]
        refine and_congr_left fun _ => ?_
        omega
      · rw [if_neg hd, List.length_nil]
        exact ⟨fun h => by omega, fun h => absurd ⟨h.2.1, h.2.2.1⟩ hd⟩

theorem hexToBinary_eq {n : Nat} {s : List UInt8} (h : (uCxAtUtilHexToBinary s n).length = n) :
    uCxAtUtilHexToBinary s n = pairBytes (s.take (2 * n)) := by
  induction n generalizing s with
  | zero => simp [uCxAtUtilHexToBinary, pairBytes]
  | succ n ih =>
    obtain _ | ⟨high, _ | ⟨low, rest⟩⟩ := s
    · simp [uCxAtUtilHexToBinary] at h
    · simp [uCxAtUtilHexToBinary] at h
    · rw [uCxAtUtilHexToBinary, hexToByte_eq] at h ⊢
      rw [take_pair, pairBytes]
      by_cases hd : digitVal high < 16 ∧ digitVal low < 16
      · rw [if_pos hd] at h ⊢
        rw [ih (Nat.add_right_cancel h)]
      · rw [if_neg hd, List.length_nil] at h
        omega

/-! ## Reading -/

/-- The type by the last character of a string of that length. -/
def bdType (c : UInt8) (length : Nat) : Option BdAddressType :=
  if c = ch 'r' then some .typeRandom
  else if c = ch 'p' then some .typePublic
  else if length = 12 then some .typePublic
  else none

theorem findBdAddressType_mid {body pre post : List UInt8} {c : UInt8} (h0 : 0 ∉ body ++ [c]) :
    findBdAddressType (pre ++ (body ++ [c]) ++ 0 :: post) pre.length =
      some (bdType c (body ++ [c]).length) := by
  simp only [findBdAddressType, cstr_mid h0 pre post, charBefore_mid, Option.map_some, bdType]

theorem stringToBdAddress_iff {body pre post : List UInt8} {c : UInt8} (h0 : 0 ∉ body ++ [c]) :
    ∃ r, uCxStringToBdAddress (pre ++ (body ++ [c]) ++ 0 :: post) pre.length = some r ∧
      ∀ a, r = some a ↔ bdType c (body ++ [c]).length = some a.type ∧ 12 ≤ (body ++ [c]).length ∧
        (∀ d ∈ (body ++ [c]).take 12, digitVal d < 16) ∧
        a.address.toList = pairBytes ((body ++ [c]).take 12) := by
  simp only [uCxStringToBdAddress, findBdAddressType_mid h0, cstr_mid h0 pre post, Option.map_some]
  refine ⟨_, rfl, fun a => ?_⟩
  cases bdType c (body ++ [c]).length with
  | none => exact ⟨by rintro ⟨⟩, fun h => by cases h.1⟩
  | some type =>
    have hfull : _ ↔ 2 * 6 ≤ (body ++ [c]).length ∧ _ := hexToBinary_full
    dsimp only
    split
    · next h6 =>
      obtain ⟨hlen, hdigits⟩ := hfull.1 h6
      have hbytes := hexToBinary_eq h6
      rw [Option.some.injEq]
      constructor
      · rintro rfl
        exact ⟨rfl, hlen, hdigits, by simpa using hbytes⟩
      · rintro ⟨htype, -, -, haddress⟩
        cases htype
        rw [← hbytes] at haddress
        cases a with
        | mk address type =>
          rw [BtLeAddress.mk.injEq]
          exact ⟨Vector.toList_inj.1 (by simpa using haddress.symm), rfl⟩
    · next h6 => exact ⟨by rintro ⟨⟩, fun h => absurd (hfull.2 ⟨h.2.1, h.2.2.1⟩) h6⟩

theorem BdSuffix.length_le {t : List UInt8} {type : BdAddressType} (h : BdSuffix t type) : t.length ≤ 1 := by
  cases h <;> decide

/-- What the type and the length say of what is behind the digits. -/
theorem bdSuffix_iff {body : List UInt8} {c : UInt8} {type : BdAddressType}
    (hlen : 12 ≤ (body ++ [c]).length) (hdigits : ∀ d ∈ (body ++ [c]).take 12, digitVal d < 16)
    (hgap : ¬BdGap (body ++ [c])) :
    bdType c (body ++ [c]).length = some type ↔ BdSuffix ((body ++ [c]).drop 12) type := by
  have hlast : (body ++ [c]).getLast? = some c := List.getLast?_concat
  rw [List.length_append, List.length_singleton] at hlen ⊢
  unfold bdType
  by_cases h12 : body.length = 11
  · -- the last character is a digit
    have hc : digitVal c < 16 := hdigits c (by rw [List.take_of_length_le (by simp; omega)]; simp)
    have hne : c ≠ ch 'r' ∧ c ≠ ch 'p' := by
      constructor
      · rintro rfl
        exact absurd hc (by decide)
      · rintro rfl
        exact absurd hc (by decide)
    rw [if_neg hne.1, if_neg hne.2, if_pos (by omega), List.drop_of_length_le (by simp; omega)]
    exact ⟨fun h => Option.some.inj h ▸ .none, fun h => by cases h; rfl⟩
  · rw [if_neg (show ¬body.length + 1 = 12 by omega)]
    by_cases h13 : body.length = 12
    · have hdrop : (body ++ [c]).drop 12 = [c] := by rw [← h13, List.drop_left]
      rw [hdrop]
      constructor
      · intro h
        split at h
        · next hc =>
          cases h
          exact hc ▸ .r
        · split at h
          · next hc =>
            cases h
            exact hc ▸ .p
          · cases h
      · intro h
        cases h with
        | r => rfl
        | p => rfl
    · have hlong : 14 ≤ (body ++ [c]).length := by
        rw [List.length_append, List.length_singleton]
        omega
      have hne : c ≠ ch 'r' ∧ c ≠ ch 'p' := by
        constructor
        · rintro rfl
          exact hgap ⟨hdigits, hlong, .inl hlast⟩
        · rintro rfl
          exact hgap ⟨hdigits, hlong, .inr hlast⟩
      rw [if_neg hne.1, if_neg hne.2]
      refine ⟨nofun, fun h => ?_⟩
      have := h.length_le
      rw [List.length_drop] at this
      omega

/-- With something between the digits and `r` or `p`, the digits are taken. -/
theorem bdGap_read {s : List UInt8} (h : BdGap s) (h0 : 0 ∉ s) :
    ∃ a, uCxStringToBdAddress (s ++ [0]) 0 = some (some a) ∧ ¬BdText s a := by
  obtain ⟨hdigits, hlen, hlast⟩ := h
  obtain ⟨body, c, rfl⟩ : ∃ body c, s = body ++ [c] :=
    ⟨_, _, (List.dropLast_concat_getLast (List.length_pos_iff.1 (by omega))).symm⟩
  rw [List.getLast?_concat, Option.some.injEq, Option.some.injEq] at hlast
  obtain ⟨type, htype⟩ : ∃ type, bdType c (body ++ [c]).length = some type := by
    rcases hlast with rfl | rfl
    · exact ⟨_, rfl⟩
    · exact ⟨_, rfl⟩
  have h6 : (uCxAtUtilHexToBinary (body ++ [c]) 6).length = 6 := hexToBinary_full.2 ⟨by omega, hdigits⟩
  have hbytes := hexToBinary_eq h6
  obtain ⟨r, hr, hiff⟩ := @stringToBdAddress_iff body [] [] c h0
  refine ⟨⟨⟨(uCxAtUtilHexToBinary (body ++ [c]) 6).toArray, by simpa using h6⟩, type⟩, ?_, fun htext => ?_⟩
  · exact hr.trans (congrArg some ((hiff _).2 ⟨htype, by omega, hdigits, by simpa using hbytes⟩))
  · have := htext.suffix.length_le
    rw [List.length_drop] at this
    omega

/-- **`uCxStringToBdAddress` reads exactly the addresses**, unless the string is empty or has something between
its digits and its last character. -/
theorem readsBdExactly_iff {s : List UInt8} (h0 : 0 ∉ s) :
    ReadsBdExactly s ↔ s ≠ [] ∧ ¬BdGap s := by
  constructor
  · intro h
    obtain ⟨r, hr, hiff⟩ := h [] []
    constructor
    · rintro rfl
      cases hr
    · intro hgap
      obtain ⟨a, ha, hno⟩ := bdGap_read hgap h0
      exact hno ((hiff a).1 (Option.some.inj (hr.symm.trans ha)))
  · intro ⟨hne, hgap⟩ pre post
    obtain ⟨body, c, rfl⟩ : ∃ body c, s = body ++ [c] :=
      ⟨_, _, (List.dropLast_concat_getLast hne).symm⟩
    obtain ⟨r, hr, hiff⟩ := @stringToBdAddress_iff body pre post c h0
    refine ⟨r, hr, fun a => (hiff a).trans ⟨?_, ?_⟩⟩
    · intro ⟨htype, hlen, hdigits, haddress⟩
      exact ⟨hdigits, hlen, haddress, (bdSuffix_iff hlen hdigits hgap).1 htype⟩
    · intro ⟨hdigits, hlen, haddress, hsuffix⟩
      exact ⟨(bdSuffix_iff hlen hdigits hgap).2 hsuffix, hlen, hdigits, haddress⟩

theorem readsBdExactly_iff_public : ReadsBdExactly (text "0012F398DD12p") ↔
    text "0012F398DD12p" ≠ [] ∧ ¬BdGap (text "0012F398DD12p") :=
  readsBdExactly_iff (by decide)

/-- Neither the empty string nor one with more than digits before its `p` is read so. -/
theorem bd_read_beyond : ¬ReadsBdExactly [] ∧ ¬ReadsBdExactly (text "0012F398DD12, 34p") := by
  constructor
  · intro h
    obtain ⟨r, hr, -⟩ := h [] []
    cases hr
  · intro h
    have hdigits : ((text "0012F398DD12, 34p").take 12).all (fun c => decide (digitVal c < 16)) = true := rfl
    obtain ⟨a, ha, hno⟩ := bdGap_read (s := text "0012F398DD12, 34p")
      ⟨fun c hc => of_decide_eq_true (List.all_eq_true.1 hdigits c hc), by decide, .inr (by decide)⟩ (by decide)
    obtain ⟨r, hr, hiff⟩ := h [] []
    exact hno ((hiff a).1 (Option.some.inj (hr.symm.trans ha)))
