import UcxClient.Text.Numerals
import UcxClient.Text.Values

/-!
# Hexadecimal strings and binary data in buffers

`uCxAtUtilHexToBinary` and the two encoders of `src/u_cx_at_util.c` with their buffers. A buffer is the
block of its `bufSize` bytes.

`hexPairs s` are the bytes of the longest prefix of pairs of hexadecimal digits. The loop of the decoder counts
characters and bytes in a `uint32_t` each, so behind 2^31 pairs it is back at the first character, and behind
2^32 bytes at the first byte (`turn_some`). It fills its buffer with the pairs, over and over if it gets that
far (`loop_turns`), or it does not end (`loop_none`).

`hexLaws_iff`: the laws of the conversions hold exactly if no call gets that far, or the pairs that it takes
for a second time are what it should have taken.
-/

open ByteMem

/-! ## Pairs of digits -/

/-- The bytes of the longest prefix of pairs of hexadecimal digits. -/
def hexPairs : List UInt8 → List UInt8
  | high :: low :: rest =>
    if digitVal high < 16 ∧ digitVal low < 16 then
      UInt8.ofNat (digitVal high * 16 + digitVal low) :: hexPairs rest
    else []
  | _ => []

theorem hexToNibble_eq : ∀ c, hexToNibble c = if digitVal c < 16 then (digitVal c : Int) else -1 := by
  apply forall_byte
  decide +kernel

theorem hexToByte_eq (high low : UInt8) : uCxAtUtilHexToByte high low =
    if digitVal high < 16 ∧ digitVal low < 16 then
      some (UInt8.ofNat (digitVal high * 16 + digitVal low)) else none := by
  simp only [uCxAtUtilHexToByte, hexToNibble_eq]
  by_cases hh : digitVal high < 16
  · by_cases hl : digitVal low < 16
    · rw [if_pos hh, if_pos hl, if_neg (by omega), if_pos ⟨hh, hl⟩]
      rfl
    · rw [if_pos hh, if_neg hl, if_pos (by omega), if_neg (by omega)]
  · rw [if_neg hh, if_pos (by omega), if_neg (by omega)]

theorem hexPairs_cons (high low : UInt8) (rest : List UInt8) : hexPairs (high :: low :: rest) =
    match uCxAtUtilHexToByte high low with
    | none => []
    | some byte => byte :: hexPairs rest := by
  rw [hexPairs, hexToByte_eq]
  by_cases h : digitVal high < 16 ∧ digitVal low < 16
  · rw [if_pos h, if_pos h]
  · rw [if_neg h, if_neg h]

/-- The bytes are those of the pairs in their places. -/
theorem hexPairs_get {s : List UInt8} {p : Nat} (h : p < (hexPairs s).length) :
    2 * p + 1 < s.length ∧
      uCxAtUtilHexToByte (s.getD (2 * p) 0) (s.getD (2 * p + 1) 0) = (hexPairs s)[p]? := by
  induction p generalizing s with
  | zero =>
    match s, h with
    | high :: low :: rest, h =>
      rw [hexPairs_cons] at h ⊢
      cases hb : uCxAtUtilHexToByte high low with
      | none =>
        rw [hb] at h
        exact absurd h (Nat.lt_irrefl 0)
      | some byte => exact ⟨by simp, hb⟩
  | succ p ih =>
    match s, h with
    | high :: low :: rest, h =>
      rw [hexPairs_cons] at h ⊢
      cases hb : uCxAtUtilHexToByte high low with
      | none =>
        rw [hb] at h
        exact absurd h (Nat.not_lt_zero _)
      | some byte =>
        rw [hb] at h
        obtain ⟨hlen, hget⟩ := ih (Nat.lt_of_succ_lt_succ h)
        refine ⟨by simp only [List.length_cons]; omega, ?_⟩
        rw [show 2 * (p + 1) = 2 * p + 1 + 1 from rfl]
        simpa using hget

/-- Behind the prefix the string ends, or something stands that is no pair of digits. -/
theorem hexPairs_end (s : List UInt8) (h : 2 * (hexPairs s).length + 1 < s.length) :
    uCxAtUtilHexToByte (s.getD (2 * (hexPairs s).length) 0) (s.getD (2 * (hexPairs s).length + 1) 0) =
      none := by
  induction hn : (hexPairs s).length generalizing s with
  | zero =>
    match s, h with
    | high :: low :: rest, h =>
      rw [hexPairs_cons] at hn
      cases hb : uCxAtUtilHexToByte high low with
      | none => exact hb
      | some byte =>
        rw [hb] at hn
        cases hn
    | [], h => exact absurd h (Nat.not_lt_zero _)
    | [_], h =>
      simp only [List.length_cons, List.length_nil] at h
      omega
  | succ n ih =>
    rw [hn] at h
    match s, h with
    | high :: low :: rest, h =>
      rw [hexPairs_cons] at hn
      cases hb : uCxAtUtilHexToByte high low with
      | none =>
        rw [hb] at hn
        cases hn
      | some byte =>
        rw [hb] at hn
        have hn' : (hexPairs rest).length = n := Nat.succ.inj hn
        simp only [List.length_cons] at h
        have hrest := ih rest (by rw [hn']; omega) hn'
        rw [show 2 * (n + 1) = 2 * n + 1 + 1 from rfl]
        simpa using hrest

namespace HexBinary

/-! ## The decoder -/

/-- The buffer and the variables of the loop of `uCxAtUtilHexToBinary`. -/
structure State where
  pBuf : List UInt8
  i : UInt32
  toIndex : UInt32

/-- A turn of the loop, or `none` if it ends. -/
def turn (pHexString : List UInt8) (st : State) : Option State :=
  if st.toIndex.toNat < st.pBuf.length ∧ (st.i + 1).toNat < pHexString.length then
    match uCxAtUtilHexToByte (pHexString.getD st.i.toNat 0) (pHexString.getD (st.i.toNat + 1) 0) with
    | none => none
    | some byte => some ⟨st.pBuf.set st.toIndex.toNat byte, st.i + 2, st.toIndex + 1⟩
  else none

/-- The loop, if it ends within that many turns. -/
def loop (pHexString : List UInt8) : Nat → State → Option State
  | 0, _ => none
  | n + 1, st =>
    match turn pHexString st with
    | none => some st
    | some st' => loop pHexString n st'

/-- `uCxAtUtilHexToBinary` returns with that buffer and that value. -/
def Returns (pHexString pBuf pBuf' : List UInt8) (ret : UInt32) : Prop :=
  ∃ n i, loop pHexString n ⟨pBuf, 0, 0⟩ = some ⟨pBuf', i, ret⟩

/-! ## The encoders -/

/-- The loop of `binaryToHex` for that many bytes from number `i` on: the buffer. -/
def encodeLoop (pData : List UInt8) (dataLen : Nat) (reverse : Bool) : Nat → Nat → List UInt8 → List UInt8
  | 0, _, pBuf => pBuf
  | n + 1, i, pBuf =>
    let dataIndex := if reverse then dataLen - i - 1 else i
    let pBuf := pBuf.set (i * 2) (nibbleToHex (pData.getD dataIndex 0 >>> 4))
    let pBuf := pBuf.set (i * 2 + 1) (nibbleToHex (pData.getD dataIndex 0 &&& 0x0F))
    encodeLoop pData dataLen reverse n (i + 1) pBuf

/-- `strncpy(pBuf, s, bufSize)` -/
def strncpy (pBuf s : List UInt8) : List UInt8 :=
  (s ++ List.replicate (pBuf.length - s.length) 0).take pBuf.length

/-- `binaryToHex` of the array `pData`, or of `NULL`: the buffer and the return value. -/
def binaryToHex (pData : Option (List UInt8)) (dataLen : Nat) (pBuf : List UInt8) (reverse : Bool) :
    List UInt8 × Bool :=
  if pBuf.length < 2 * dataLen + 1 then (pBuf.set 0 0, false)
  else
    let pBuf := pBuf.set (2 * dataLen) 0
    match pData with
    | some pData => (encodeLoop pData dataLen reverse dataLen 0 pBuf, true)
    | none => (strncpy pBuf (text "(null)"), true)

def uCxAtUtilBinaryToHex (pData : Option (List UInt8)) (dataLen : Nat) (pBuf : List UInt8) :
    List UInt8 × Bool := binaryToHex pData dataLen pBuf false

def uCxAtUtilReverseBinaryToHex (pData : Option (List UInt8)) (dataLen : Nat) (pBuf : List UInt8) :
    List UInt8 × Bool := binaryToHex pData dataLen pBuf true

/-! ## The laws -/

/-- The longest prefix is converted, as far as there is room, and counted; the rest of the buffer is left. -/
def ConvertsPrefix (s pBuf : List UInt8) : Prop :=
  ∃ ret, Returns s pBuf ((hexPairs s).take pBuf.length ++ pBuf.drop (hexPairs s).length) ret ∧
    ret.toNat = min (hexPairs s).length pBuf.length

/-- The string in `pText` that an encoder has written for `bytes` is decoded to these bytes. -/
def DecodesTo (r : List UInt8 × Bool) (bytes pBuf : List UInt8) : Prop :=
  r.2 = true ∧ ∃ ret, Returns (cstr r.1 0) pBuf (bytes ++ pBuf.drop bytes.length) ret ∧
    ret.toNat = bytes.length

/-- No buffer for the string of the array: false, and an empty string. -/
def Rejects (r : List UInt8 × Bool) : Prop := r.2 = false ∧ cstr r.1 0 = []

/-- The laws of the conversions, for a string and a buffer to decode it to, and for an array, a buffer for its
string and a buffer to decode that to. -/
structure HexLaws (s pBuf data pText pBin : List UInt8) : Prop where
  longest : ConvertsPrefix s pBuf
  roundTrip : 2 * data.length + 1 ≤ pText.length → data.length ≤ pBin.length →
    DecodesTo (uCxAtUtilBinaryToHex (some data) data.length pText) data pBin
  reversed : 2 * data.length + 1 ≤ pText.length → data.length ≤ pBin.length →
    DecodesTo (uCxAtUtilReverseBinaryToHex (some data) data.length pText) data.reverse pBin
  insufficient : 0 < pText.length → pText.length < 2 * data.length + 1 →
    Rejects (uCxAtUtilBinaryToHex (some data) data.length pText) ∧
      Rejects (uCxAtUtilReverseBinaryToHex (some data) data.length pText)

/-- Fewer than 2^31 pairs or a buffer for no more; or a buffer that is full behind 2^31 pairs and more, which
repeat those at the front as far as it goes. -/
def IndexFits (pairs : List UInt8) (bufSize : Nat) : Prop :=
  pairs.length < 2 ^ 31 ∨ bufSize ≤ 2 ^ 31 ∨
    (bufSize < 2 ^ 32 ∧ bufSize ≤ pairs.length ∧
      ∀ j, 2 ^ 31 ≤ j → j < bufSize → pairs[j]? = pairs[j - 2 ^ 31]?)

/-! ## Running the loop -/

theorem toNat_index (t : Nat) : (UInt32.ofNat (2 * t)).toNat = 2 * (t % 2 ^ 31) := by
  rw [UInt32.toNat_ofNat']
  omega

theorem toNat_index_succ (t : Nat) : (UInt32.ofNat (2 * t) + 1).toNat = 2 * (t % 2 ^ 31) + 1 := by
  have h1 : (1 : UInt32).toNat = 1 := rfl
  rw [UInt32.toNat_add, toNat_index]
  omega

/-- **A turn** converts pair number `t`, modulo 2^31. -/
theorem turn_some {s pBuf : List UInt8} {t : Nat} {toIndex : UInt32} (ht : t % 2 ^ 31 < (hexPairs s).length)
    (hroom : toIndex.toNat < pBuf.length) :
    turn s ⟨pBuf, UInt32.ofNat (2 * t), toIndex⟩ =
      some ⟨pBuf.set toIndex.toNat ((hexPairs s).getD (t % 2 ^ 31) 0), UInt32.ofNat (2 * (t + 1)),
        toIndex + 1⟩ := by
  obtain ⟨hlen, hbyte⟩ := hexPairs_get ht
  have hstep : UInt32.ofNat (2 * t) + 2 = UInt32.ofNat (2 * (t + 1)) := by
    rw [Nat.mul_succ, UInt32.ofNat_add]
    rfl
  rw [turn, toNat_index_succ, toNat_index, if_pos ⟨hroom, hlen⟩, hbyte, hstep, List.getD_eq_getElem?_getD,
    List.getElem?_eq_getElem ht]
  rfl

/-- The loop ends when the buffer is full, and behind the prefix. -/
theorem turn_none {s pBuf : List UInt8} {t : Nat} {toIndex : UInt32}
    (h : pBuf.length ≤ toIndex.toNat ∨ t % 2 ^ 31 = (hexPairs s).length) :
    turn s ⟨pBuf, UInt32.ofNat (2 * t), toIndex⟩ = none := by
  rw [turn, toNat_index_succ, toNat_index]
  split
  · next hgo =>
    have ht := h.resolve_left (Nat.not_le.2 hgo.1)
    rw [ht] at hgo ⊢
    rw [hexPairs_end s hgo.2]
  · rfl

/-- The bytes that `n` turns store. -/
def stored (pairs : List UInt8) (n : Nat) : List UInt8 :=
  (List.range n).map fun t => pairs.getD (t % 2 ^ 31) 0

/-- Turns in a row, as long as there are pairs and room. -/
theorem loop_turns {s pBuf : List UInt8} {j : Nat} (n : Nat) (hj : j ≤ pBuf.length) (hj' : j < 2 ^ 32)
    (hpairs : ∀ t, t < j → t % 2 ^ 31 < (hexPairs s).length) :
    loop s (n + j) ⟨pBuf, 0, 0⟩ =
      loop s n ⟨store pBuf 0 (stored (hexPairs s) j), UInt32.ofNat (2 * j), UInt32.ofNat j⟩ := by
  induction j generalizing n with
  | zero => rfl
  | succ j ih =>
    have hroom : (UInt32.ofNat j).toNat < (store pBuf 0 (stored (hexPairs s) j)).length := by
      rw [UInt32.toNat_ofNat', length_store]
      omega
    have hstored : stored (hexPairs s) (j + 1) =
        stored (hexPairs s) j ++ [(hexPairs s).getD (j % 2 ^ 31) 0] := by
      rw [stored, List.range_succ, List.map_append]
      rfl
    have hidx : (UInt32.ofNat j).toNat = 0 + (stored (hexPairs s) j).length := by
      rw [UInt32.toNat_ofNat', stored, List.length_map, List.length_range]
      omega
    rw [show n + (j + 1) = n + 1 + j by omega,
      ih (n + 1) (by omega) (by omega) fun t ht => hpairs t (by omega), loop,
      turn_some (hpairs j (by omega)) hroom, hstored, store_append, hidx, UInt32.ofNat_add]
    rfl

/-- The loop ends at a full buffer or behind the prefix. -/
theorem returns_of_turns {s pBuf : List UInt8} {j : Nat} (hj : j ≤ pBuf.length) (hj' : j < 2 ^ 32)
    (hpairs : ∀ t, t < j → t % 2 ^ 31 < (hexPairs s).length)
    (hend : pBuf.length = j ∨ j % 2 ^ 31 = (hexPairs s).length) :
    Returns s pBuf (stored (hexPairs s) j ++ pBuf.drop j) (UInt32.ofNat j) := by
  have hlen : (stored (hexPairs s) j).length = j := by rw [stored, List.length_map, List.length_range]
  have hfront : store pBuf 0 (stored (hexPairs s) j) = stored (hexPairs s) j ++ pBuf.drop j := by
    have hsplit := (List.take_append_drop j pBuf).symm
    have hmid := store_mid [] (pBuf.take j) (pBuf.drop j) (stored (hexPairs s) j) 0 rfl
      (by rw [List.length_take, hlen]; omega)
    rwa [List.nil_append, ← hsplit] at hmid
  refine ⟨1 + j, UInt32.ofNat (2 * j), ?_⟩
  rw [loop_turns 1 hj hj' hpairs, loop, turn_none, hfront]
  rw [length_store, UInt32.toNat_ofNat']
  exact hend.imp (fun h => by omega) id

theorem loop_more {s : List UInt8} {st r : State} {n : Nat} (h : loop s n st = some r) (j : Nat) :
    loop s (n + j) st = some r := by
  induction n generalizing st with
  | zero => cases h
  | succ n ih =>
    rw [Nat.add_right_comm, loop]
    rw [loop] at h
    cases hturn : turn s st with
    | none => rwa [hturn] at h
    | some st' =>
      rw [hturn] at h
      exact ih h

/-- A call returns in one way. -/
theorem Returns.unique {s pBuf b b' : List UInt8} {r r' : UInt32} (h : Returns s pBuf b r)
    (h' : Returns s pBuf b' r') : b = b' ∧ r = r' := by
  obtain ⟨n, i, h⟩ := h
  obtain ⟨n', i', h'⟩ := h'
  have hsame := (loop_more h n').symm.trans (Nat.add_comm n n' ▸ loop_more h' n)
  cases hsame
  exact ⟨rfl, rfl⟩

/-- With 2^31 pairs and a buffer of 2^32 bytes neither index ever ends the loop. -/
theorem loop_none {s : List UInt8} (hk : 2 ^ 31 ≤ (hexPairs s).length) (n : Nat) {pBuf : List UInt8}
    (hN : 2 ^ 32 ≤ pBuf.length) (t : Nat) (toIndex : UInt32) :
    loop s n ⟨pBuf, UInt32.ofNat (2 * t), toIndex⟩ = none := by
  induction n generalizing pBuf t toIndex with
  | zero => rfl
  | succ n ih =>
    have hroom := toIndex.toNat_lt
    rw [loop, turn_some (by omega) (by omega)]
    exact ih (by rwa [List.length_set]) _ _

/-! ## When the longest prefix is converted -/

theorem getElem?_stored (pairs : List UInt8) {n j : Nat} (h : j < n) :
    (stored pairs n)[j]? = some (pairs.getD (j % 2 ^ 31) 0) := by
  rw [stored, List.getElem?_map, List.getElem?_range h]
  rfl

/-- What is stored are the pairs in their order, if no index wraps or the wrong ones are equal. -/
theorem stored_eq {pairs : List UInt8} {n : Nat} (hn : n ≤ pairs.length)
    (h : ∀ j, j < n → pairs[j % 2 ^ 31]? = pairs[j]?) : stored pairs n = pairs.take n := by
  refine List.ext_getElem? fun j => ?_
  by_cases hj : j < n
  · rw [getElem?_stored pairs hj, List.getElem?_take, if_pos hj, List.getD_eq_getElem?_getD, h j hj,
      List.getElem?_eq_getElem (by omega)]
    rfl
  · rw [List.getElem?_take, if_neg hj, List.getElem?_eq_none]
    rw [stored, List.length_map, List.length_range]
    omega

theorem take_min_append_drop (xs ys : List UInt8) :
    xs.take (min xs.length ys.length) ++ ys.drop (min xs.length ys.length) =
      xs.take ys.length ++ ys.drop xs.length := by
  by_cases h : xs.length ≤ ys.length
  · rw [Nat.min_eq_left h, List.take_length, List.take_of_length_le h]
  · rw [Nat.min_eq_right (by omega), List.drop_length, List.drop_of_length_le (by omega)]

theorem convertsPrefix_iff (s pBuf : List UInt8) :
    ConvertsPrefix s pBuf ↔ IndexFits (hexPairs s) pBuf.length := by
  by_cases hsmall : (hexPairs s).length < 2 ^ 31 ∨ pBuf.length ≤ 2 ^ 31
  · -- no index wraps
    refine iff_of_true ?_ (hsmall.imp_right .inl)
    have hreturns := @returns_of_turns s pBuf (min (hexPairs s).length pBuf.length) (Nat.min_le_right _ _)
      (by omega) (fun t ht => by omega) (by omega)
    rw [stored_eq (Nat.min_le_left _ _) fun j hj => by rw [Nat.mod_eq_of_lt (by omega)],
      take_min_append_drop] at hreturns
    refine ⟨_, hreturns, ?_⟩
    rw [UInt32.toNat_ofNat']
    omega
  · rw [not_or] at hsmall
    obtain ⟨hk, hN⟩ := hsmall
    by_cases hbig : 2 ^ 32 ≤ pBuf.length
    · -- the loop does not end
      refine iff_of_false (fun ⟨ret, ⟨n, i, hloop⟩, _⟩ => ?_) fun h => ?_
      · have hnone : loop s n ⟨pBuf, 0, 0⟩ = none := loop_none (by omega) n hbig 0 0
        rw [hnone] at hloop
        cases hloop
      · rcases h with h | h | ⟨h, -⟩ <;> omega
    · -- the buffer is filled
      have hreturns := @returns_of_turns s pBuf pBuf.length (Nat.le_refl _) (by omega)
        (fun t ht => by omega) (.inl rfl)
      rw [List.drop_length, List.append_nil] at hreturns
      constructor
      · intro ⟨ret, hret, hcount⟩
        obtain ⟨hbytes, hval⟩ := hret.unique hreturns
        rw [hval, UInt32.toNat_ofNat'] at hcount
        have hfull : pBuf.length ≤ (hexPairs s).length := by omega
        refine .inr (.inr ⟨by omega, hfull, fun j hj hj' => ?_⟩)
        rw [List.drop_of_length_le hfull, List.append_nil] at hbytes
        have hget := congrArg (fun l => l[j]?) hbytes
        simp only [getElem?_stored _ hj', List.getElem?_take, if_pos hj'] at hget
        rw [hget, show j % 2 ^ 31 = j - 2 ^ 31 by omega, List.getD_eq_getElem?_getD,
          List.getElem?_eq_getElem (by omega)]
        rfl
      · intro h
        rcases h with h | h | ⟨-, hfull, hrepeat⟩
        · omega
        · omega
        · rw [stored_eq hfull fun j hj => ?_] at hreturns
          · refine ⟨UInt32.ofNat pBuf.length, ?_, ?_⟩
            · rw [List.drop_of_length_le hfull, List.append_nil]
              exact hreturns
            · rw [UInt32.toNat_ofNat']
              omega
          · by_cases hlow : j < 2 ^ 31
            · rw [Nat.mod_eq_of_lt hlow]
            · rw [hrepeat j (by omega) hj, show j % 2 ^ 31 = j - 2 ^ 31 by omega]

/-! ## Encoding -/

/-- The loop writes the two characters of each byte that is left. -/
theorem encodeLoop_eq {pData : List UInt8} {dataLen : Nat} {reverse : Bool} {done todo : List UInt8}
    (hlen : dataLen = done.length + todo.length)
    (hdata : ∀ i, i < dataLen → pData.getD (if reverse then dataLen - i - 1 else i) 0 =
      (done ++ todo).getD i 0) {mid post : List UInt8} (hmid : mid.length = 2 * todo.length) :
    encodeLoop pData dataLen reverse todo.length done.length
        (done.flatMap uCxAtUtilByteToHex ++ mid ++ post) =
      (done ++ todo).flatMap uCxAtUtilByteToHex ++ post := by
  induction todo generalizing done mid with
  | nil =>
    obtain rfl := List.eq_nil_of_length_eq_zero hmid
    rw [List.append_nil, List.append_nil]
    rfl
  | cons b todo ih =>
    match mid, hmid with
    | x :: y :: mid, hmid =>
      have hb : pData.getD (if reverse then dataLen - done.length - 1 else done.length) 0 = b := by
        rw [hdata _ (by rw [hlen, List.length_cons]; omega)]
        simp
      have hhex : (done.flatMap uCxAtUtilByteToHex).length = done.length * 2 := by
        rw [length_byteToHex, Nat.mul_comm]
      have hset : ((done.flatMap uCxAtUtilByteToHex ++ x :: y :: mid ++ post).set (done.length * 2)
          (nibbleToHex (b >>> 4))).set (done.length * 2 + 1) (nibbleToHex (b &&& 0x0F)) =
            (done ++ [b]).flatMap uCxAtUtilByteToHex ++ mid ++ post := by
        have hstore := store_mid (done.flatMap uCxAtUtilByteToHex) [x, y] (mid ++ post) (uCxAtUtilByteToHex b)
          (done.length * 2) hhex.symm rfl
        simpa only [List.flatMap_append, List.flatMap_singleton, uCxAtUtilByteToHex, store,
          List.append_assoc, List.cons_append, List.nil_append] using hstore
      rw [List.length_cons, encodeLoop]
      simp only [hb, hset]
      have hnext := @ih (done ++ [b]) (by simp [hlen]; omega) (by simpa using hdata) mid
        (by simp only [List.length_cons] at hmid; omega)
      simpa using hnext

/-- The array, as the encoder goes through it. -/
def ordered (data : List UInt8) (reverse : Bool) : List UInt8 := if reverse then data.reverse else data

theorem length_ordered (data : List UInt8) (reverse : Bool) : (ordered data reverse).length = data.length := by
  cases reverse
  · rfl
  · exact List.length_reverse

/-- **An encoder with room** writes the characters of the bytes and a terminator. -/
theorem binaryToHex_eq (data : List UInt8) (reverse : Bool) {pText : List UInt8}
    (hroom : 2 * data.length + 1 ≤ pText.length) :
    binaryToHex (some data) data.length pText reverse =
      ((ordered data reverse).flatMap uCxAtUtilByteToHex ++ 0 :: pText.drop (2 * data.length + 1), true) := by
  have hlen := length_ordered data reverse
  have hterm : pText.set (2 * data.length) 0 =
      [] ++ pText.take (2 * data.length) ++ 0 :: pText.drop (2 * data.length + 1) := by
    rw [List.nil_append]
    exact List.set_eq_take_append_cons_drop.trans (if_pos (by omega))
  have hdata : ∀ i, i < data.length →
      data.getD (if reverse then data.length - i - 1 else i) 0 = ([] ++ ordered data reverse).getD i 0 := by
    intro i hi
    cases reverse with
    | false => rfl
    | true =>
      rw [List.nil_append, ordered, if_pos rfl, if_pos rfl, List.getD_eq_getElem?_getD,
        List.getD_eq_getElem?_getD, List.getElem?_reverse hi]
      congr 2
      omega
  have hloop := @encodeLoop_eq data data.length reverse [] (ordered data reverse) (by simp [hlen]) hdata
    (pText.take (2 * data.length)) (0 :: pText.drop (2 * data.length + 1))
    (by rw [List.length_take, hlen]; omega)
  rw [hlen] at hloop
  rw [binaryToHex, if_neg (by omega), hterm]
  simp only [Prod.mk.injEq, and_true]
  exact hloop

/-- The string of an encoder, read up to its terminator, has the pairs of the bytes. -/
theorem hexPairs_byteToHex (bs : List UInt8) : hexPairs (bs.flatMap uCxAtUtilByteToHex) = bs := by
  induction bs with
  | nil => rfl
  | cons b bs ih =>
    obtain ⟨high, low, hb, hv, -⟩ := byteToHex_spec b
    rw [List.flatMap_cons, hb]
    simp only [List.cons_append, List.nil_append, hexPairs_cons, hv, ih]

theorem zero_notMem_byteToHex (bs : List UInt8) : 0 ∉ bs.flatMap uCxAtUtilByteToHex :=
  fun h => absurd (isNumeral_byteToHex bs 0 h) (by decide)

/-- The string of an encoder is decoded to its bytes as the longest prefix of a string is. -/
theorem decodesTo_iff (data : List UInt8) (reverse : Bool) {pText pBin : List UInt8}
    (hroom : 2 * data.length + 1 ≤ pText.length) (hbin : data.length ≤ pBin.length) :
    DecodesTo (binaryToHex (some data) data.length pText reverse) (ordered data reverse) pBin ↔
      IndexFits (ordered data reverse) pBin.length := by
  have hlen := length_ordered data reverse
  have hstr := cstr_mid (zero_notMem_byteToHex (ordered data reverse)) [] (pText.drop (2 * data.length + 1))
  rw [List.nil_append, List.length_nil] at hstr
  have hiff := convertsPrefix_iff ((ordered data reverse).flatMap uCxAtUtilByteToHex) pBin
  rw [ConvertsPrefix, hexPairs_byteToHex, List.take_of_length_le (by omega), Nat.min_eq_left (by omega)] at hiff
  rw [DecodesTo, binaryToHex_eq data reverse hroom, hstr, ← hiff]
  exact and_iff_right rfl

/-- **An encoder without room** leaves an empty string. -/
theorem binaryToHex_rejects (data : List UInt8) (reverse : Bool) {pText : List UInt8}
    (hne : 0 < pText.length) (hroom : pText.length < 2 * data.length + 1) :
    Rejects (binaryToHex (some data) data.length pText reverse) := by
  rw [binaryToHex, if_pos hroom]
  refine ⟨rfl, ?_⟩
  match pText, hne with
  | c :: cs, _ => rfl

/-- **The laws hold** exactly if the indices of the decoder fit its string and its buffer in each call. -/
theorem hexLaws_iff (s pBuf data pText pBin : List UInt8) :
    HexLaws s pBuf data pText pBin ↔
      IndexFits (hexPairs s) pBuf.length ∧
        (2 * data.length + 1 ≤ pText.length → data.length ≤ pBin.length →
          IndexFits data pBin.length ∧ IndexFits data.reverse pBin.length) := by
  constructor
  · intro h
    refine ⟨(convertsPrefix_iff s pBuf).1 h.longest, fun hroom hbin => ⟨?_, ?_⟩⟩
    · exact (decodesTo_iff data false hroom hbin).1 (h.roundTrip hroom hbin)
    · exact (decodesTo_iff data true hroom hbin).1 (h.reversed hroom hbin)
  · intro ⟨hs, hdata⟩
    refine ⟨(convertsPrefix_iff s pBuf).2 hs, fun hroom hbin => ?_, fun hroom hbin => ?_,
      fun hne hroom => ⟨binaryToHex_rejects data false hne hroom, binaryToHex_rejects data true hne hroom⟩⟩
    · exact (decodesTo_iff data false hroom hbin).2 (hdata hroom hbin).1
    · exact (decodesTo_iff data true hroom hbin).2 (hdata hroom hbin).2

theorem hexPairs_zeros (n : Nat) : hexPairs (List.replicate (2 * n) (ch '0')) = List.replicate n 0 := by
  induction n with
  | zero => rfl
  | succ n ih =>
    have hbyte : uCxAtUtilHexToByte (ch '0') (ch '0') = some 0 := by decide
    rw [Nat.mul_succ, List.replicate_succ, List.replicate_succ, hexPairs_cons, hbyte]
    exact congrArg (0 :: ·) ih

/-- 2^31 pairs, and a buffer with room for one byte more. -/
theorem hex_index_wraps :
    ¬HexLaws (List.replicate (2 ^ 32) (ch '0')) (List.replicate (2 ^ 31 + 1) 0xFF) [] [] [] := by
  intro h
  have hfits := (convertsPrefix_iff _ _).1 h.longest
  rw [show (2 ^ 32 : Nat) = 2 * 2 ^ 31 from rfl, hexPairs_zeros] at hfits
  rcases hfits with hlt | hlt | ⟨-, hle, -⟩
  · rw [List.length_replicate] at hlt
    omega
  · rw [List.length_replicate] at hlt
    omega
  · rw [List.length_replicate, List.length_replicate] at hle
    omega

end HexBinary

/-! ## The strings without their buffers -/

/-- What the decoder stores elsewhere, where its buffer is small. -/
theorem hexToBinary_take (s : List UInt8) (bufSize : Nat) :
    uCxAtUtilHexToBinary s bufSize = (hexPairs s).take bufSize := by
  induction bufSize generalizing s with
  | zero => rw [List.take_zero]; unfold uCxAtUtilHexToBinary; split <;> simp_all
  | succ n ih =>
    match s with
    | [] => rfl
    | [_] => rfl
    | high :: low :: rest =>
      rw [uCxAtUtilHexToBinary, hexPairs_cons]
      cases uCxAtUtilHexToByte high low with
      | none => rfl
      | some byte => exact congrArg (byte :: ·) (ih rest)

/-- The string that an encoder leaves in its buffer. -/
theorem binaryToHex_string (data pText : List UInt8) (reverse : Bool) :
    binaryToHex data pText.length reverse =
      if (HexBinary.binaryToHex (some data) data.length pText reverse).2 then
        some (cstr (HexBinary.binaryToHex (some data) data.length pText reverse).1 0)
      else none := by
  by_cases hroom : pText.length < 2 * data.length + 1
  · rw [binaryToHex, HexBinary.binaryToHex, if_pos hroom, if_pos hroom]
    rfl
  · have hstr := cstr_mid (HexBinary.zero_notMem_byteToHex (HexBinary.ordered data reverse)) []
      (pText.drop (2 * data.length + 1))
    rw [List.nil_append, List.length_nil] at hstr
    rw [binaryToHex, if_neg hroom, HexBinary.binaryToHex_eq data reverse (Nat.le_of_not_lt hroom), hstr]
    rfl
