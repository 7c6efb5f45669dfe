import UcxClient.Text.Parse
import UcxClient.Text.Send
import UcxClient.Text.Tokens

/-!
# Parameters in memory

`Output.value` is the argument that an output stands for, read from the memory behind the call. The cases
of `ParseParams.param` are stated one by one, and the lemmas on blocks `before ++ field ++ after` say what
they find there: the string up to its terminator (`cstr_mid`), a character (`getD_mid`), integers
(`loadI16s_i16Bytes`).
-/

open ByteMem

/-! ## Values -/

theorem zero_notMem_cstr (m : List UInt8) (p : Nat) : 0 ∉ cstr m p := by
  intro h
  simpa using List.all_eq_true.1 (List.all_takeWhile (p := (· ≠ 0)) (l := m.drop p)) _ h

/-- The integers from index `p` on. -/
def loadI16s (m : List UInt8) : Nat → Nat → List Int16
  | _, 0 => []
  | p, n + 1 => getI16 m p :: loadI16s m (p + 2) n

/-- The argument that an output stands for. -/
def Output.value (m : List UInt8) : Output → Arg
  | .int i => .int i
  | .str pStr => .str ⟨cstr m pStr, zero_notMem_cstr m pStr⟩
  | .binStr pData length => .binStr (load m pData length)
  | .ipAddress ipAddr => .ipAddress ipAddr
  | .macAddress macAddr => .macAddress macAddr
  | .btLeAddress btLeAddr => .btLeAddress btLeAddr
  | .intList ints => .intList (loadI16s m (ints.pIntValues.getD 0) ints.length)
  | .bytes pData length => .bytes (load m pData length)

/-! ## The cases of the parser -/

namespace ParseParams

variable (m : List UInt8) (p e : Nat)

theorem param_d : param (ch 'd') m p e =
    converted m (if ((cstr m p).headD 0 ≠ ch '-' ∧ !isdigit ((cstr m p).headD 0)) ∨
        (strtol 10 (cstr m p)).2 ≠ [] then none
      else some (.int (Int32.ofInt (strtol 10 (cstr m p)).1))) := rfl

theorem param_s (h : m.getD p 0 = ch '"') : param (ch 's') m p e =
    .done (unescapeString (m.set (e - 1) 0) (p + 1)).1 (some (.str (p + 1))) := by
  simp only [param, h, if_true]
  rfl

theorem param_binStr (h : m.getD p 0 = ch '"') (hp : p + 1 < e) (h' : m.getD (e - 1) 0 = ch '"') :
    param (ch '$') m p e = .done (unescapeString (m.set (e - 1) 0) (p + 1)).1
      (some (.binStr (p + 1) (unescapeString (m.set (e - 1) 0) (p + 1)).2)) := by
  simp only [param, h, h', hp, if_true, and_self]
  rfl

theorem param_i : param (ch 'i') m p e =
    converted m ((uCxStringToIpAddress (cstr m p)).map .ipAddress) := rfl

theorem param_m : param (ch 'm') m p e =
    converted m ((uCxStringToMacAddress (cstr m p)).map .macAddress) := rfl

theorem param_b {bd : Option BtLeAddress} (h : uCxStringToBdAddress m p = some bd) :
    param (ch 'b') m p e = converted m (bd.map .btLeAddress) := by
  simp only [param, h]
  rfl

theorem param_l : param (ch 'l') m p e =
    converted (uCxStringToIntList m p).1 ((uCxStringToIntList m p).2.map .intList) := rfl

theorem param_h (h : (cstr m p).length % 2 = 0) : param (ch 'h') m p e =
    converted (hexLoop p ((cstr m p).length / 2) 0 m).1
      (if (hexLoop p ((cstr m p).length / 2) 0 m).2 then some (.bytes p ((cstr m p).length / 2))
        else none) := by
  simp only [param, h]
  rfl

end ParseParams

/-! ## Strings in memory -/

theorem cstr_mid {t : List UInt8} (h : 0 ∉ t) (pre post : List UInt8) :
    cstr (pre ++ t ++ 0 :: post) pre.length = t := by
  have hall : ∀ c ∈ t, (decide (c ≠ 0)) = true := fun c hc => by
    simpa using fun h0 : c = 0 => h (h0 ▸ hc)
  rw [cstr, List.append_assoc, List.drop_left, List.takeWhile_append_of_pos hall]
  simp

theorem getD_mid (pre : List UInt8) (c : UInt8) (post : List UInt8) :
    (pre ++ c :: post).getD pre.length 0 = c := by
  simp [List.getD_eq_getElem?_getD]

/-- The character behind a text. -/
theorem getD_behind (pre t : List UInt8) (c : UInt8) (post : List UInt8) :
    (pre ++ t ++ c :: post).getD (pre.length + t.length) 0 = c := by
  rw [← List.length_append]
  exact getD_mid _ _ _

/-- The last character of a text. -/
theorem getD_last (pre body : List UInt8) (c : UInt8) (post : List UInt8) :
    (pre ++ (body ++ [c]) ++ post).getD (pre.length + (body ++ [c]).length - 1) 0 = c := by
  have hidx : pre.length + (body ++ [c]).length - 1 = pre.length + body.length := by simp
  have hget := getD_behind pre body c post
  rw [hidx, ← hget]
  simp

theorem charBefore_mid (pre body : List UInt8) (c : UInt8) (post : List UInt8) :
    charBefore (pre ++ (body ++ [c]) ++ post) pre.length (body ++ [c]).length = some c := by
  rw [charBefore, if_neg (by simp), getD_last]

/-- The last character of a token becomes a terminator. -/
theorem set_last (pre body : List UInt8) (c : UInt8) (post : List UInt8) :
    (pre ++ (body ++ [c]) ++ post).set (pre.length + (body ++ [c]).length - 1) 0 =
      pre ++ body ++ 0 :: post := by
  have h := store_mid (pre ++ body) [c] post [0] (pre.length + (body ++ [c]).length - 1)
    (by simp only [List.length_append, List.length_cons, List.length_nil]; omega) rfl
  rw [← List.append_assoc pre]
  refine h.trans ?_
  simp

/-- What is stored takes the first bytes of a range. -/
theorem store_prefix (pre mid post bs : List UInt8) (h : bs.length ≤ mid.length) :
    ∃ gap, (bs ++ gap).length = mid.length ∧
      store (pre ++ mid ++ post) pre.length bs = pre ++ (bs ++ gap) ++ post := by
  refine ⟨mid.drop bs.length, by simp; omega, ?_⟩
  have hsplit : pre ++ mid ++ post =
      pre ++ mid.take bs.length ++ (mid.drop bs.length ++ post) := by
    rw [List.append_assoc pre (mid.take _), ← List.append_assoc (mid.take _),
      List.take_append_drop, List.append_assoc]
  rw [hsplit, store_mid _ _ _ _ _ rfl (by simp; omega)]
  simp

/-! ## Integers in memory -/

theorem getI16_i16Bytes (pre post : List UInt8) (v : Int16) :
    getI16 (pre ++ i16Bytes v ++ post) pre.length = v := by
  have hlt := v.toUInt16.toNat_lt
  rw [getI16, i16Bytes, getU16_u16Bytes pre post _ _ rfl (by omega), UInt16.ofNat_toNat]
  rfl

theorem loadI16s_i16Bytes (vs : List Int16) (pre post : List UInt8) :
    loadI16s (pre ++ vs.flatMap i16Bytes ++ post) pre.length vs.length = vs := by
  induction vs generalizing pre with
  | nil => rfl
  | cons v vs ih =>
    have hhead := getI16_i16Bytes pre (vs.flatMap i16Bytes ++ post) v
    have htail := ih (pre ++ i16Bytes v)
    have hlen : (pre ++ i16Bytes v).length = pre.length + 2 := by simp [i16Bytes]
    rw [hlen] at htail
    simp only [List.append_assoc] at hhead htail
    simp only [List.flatMap_cons, List.length_cons, loadI16s, List.append_assoc, hhead, htail]

theorem length_i16Bytes (vs : List Int16) : (vs.flatMap i16Bytes).length = 2 * vs.length := by
  induction vs with
  | nil => rfl
  | cons v vs ih =>
    rw [List.flatMap_cons, List.length_append, ih, List.length_cons]
    simp only [i16Bytes, length_u16Bytes]
    omega
