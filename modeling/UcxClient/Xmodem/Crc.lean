import Mathlib.Data.Nat.Bitwise
import Mathlib.Tactic.ComputeDegree
import UcxClient.Lib.Crc
import UcxClient.Xmodem.Reassembly

/-!
# The CRC of a packet

`xmodemCrc16` computes the check of its bytes for the generator `x^16 + x^12 + x^5 + 1`
(`checkPoly_xmodemCrc16`): a turn of its inner loop is multiplication by `x` (`checkPoly_crcShift`). So a
packet carries the check of its block, and an error within 16 bits in a row of the block and its check is
found (`packet_protected`).
-/

open Polynomial Crc

namespace Xmodem

/-- The generator, without its highest coefficient the `0x1021` of the code. -/
noncomputable def generator : (ZMod 2)[X] := X ^ 16 + X ^ 12 + X ^ 5 + 1

/-- The bits of bytes, in the order in which they are sent. -/
def byteBits (bs : List UInt8) : List Bool := bs.flatMap fun b => bitsOf 8 b.toNat

/-- The polynomial of a CRC. -/
noncomputable def checkPoly (crc : UInt16) : (ZMod 2)[X] := ofBits (bitsOf 16 crc.toNat)

theorem generator_natDegree : generator.natDegree = 16 := by
  unfold generator
  compute_degree!

theorem generator_monic : generator.Monic := by
  unfold generator
  monicity!

theorem generator_coprime : IsCoprime generator X := by
  refine ⟨1, -(X ^ 15 + X ^ 11 + X ^ 4), ?_⟩
  unfold generator
  ring

theorem length_byteBits (bs : List UInt8) : (byteBits bs).length = 8 * bs.length := by
  induction bs with
  | nil => rfl
  | cons b bs ih =>
    simp only [byteBits, List.flatMap_cons, List.length_append, length_bitsOf, List.length_cons] at ih ⊢
    omega

theorem byteBits_xor {as bs : List UInt8} (h : as.length = bs.length) :
    byteBits (List.zipWith (· ^^^ ·) as bs) = List.zipWith xor (byteBits as) (byteBits bs) := by
  induction as generalizing bs with
  | nil => simp [byteBits]
  | cons a as ih =>
    obtain - | ⟨b, bs⟩ := bs
    · cases h
    · have hlen : as.length = bs.length := by simpa using h
      have := ih hlen
      simp only [byteBits] at this ⊢
      rw [List.zipWith_cons_cons, List.flatMap_cons, this, UInt8.toNat_xor, bitsOf_xor, List.flatMap_cons,
        List.flatMap_cons, List.zipWith_append (by simp)]

/-! ## The loops of `xmodemCrc16` -/

theorem checkPoly_xor (a b : UInt16) : checkPoly (a ^^^ b) = checkPoly a + checkPoly b := by
  rw [checkPoly, UInt16.toNat_xor, bitsOf_xor, ofBits_xor (by simp)]
  rfl

theorem checkPoly_0x1021 : checkPoly 0x1021 = X ^ 12 + X ^ 5 + 1 := by
  have hbits : bitsOf 16 (0x1021 : UInt16).toNat = [false, false, false, true, false, false, false, false,
      false, false, true, false, false, false, false, true] := by decide
  rw [checkPoly, hbits]
  simp [ofBits_cons, Crc.coeff, add_assoc]

/-- The bit that falls out has the weight of `x^16`. -/
theorem checkPoly_shiftLeft (crc : UInt16) :
    checkPoly (crc <<< 1) = checkPoly crc * X + C (Crc.coeff (crc.toNat.testBit 15)) * X ^ 16 := by
  have hnat : (crc <<< 1).toNat = 2 * crc.toNat % 2 ^ 16 := by
    rw [UInt16.toNat_shiftLeft]
    simp [Nat.shiftLeft_eq, Nat.mul_comm]
  have hdouble := ofBits_bitsOf_double 16 crc.toNat
  rw [bitsOf_succ, ofBits_cons, length_bitsOf, Nat.testBit_succ, Nat.mul_div_cancel_left _ (by decide)]
    at hdouble
  rw [checkPoly, hnat, bitsOf_mod (Nat.le_refl 16), checkPoly, ← hdouble, add_right_comm,
    CharTwo.add_self_eq_zero, zero_add]

theorem highBit_iff (crc : UInt16) : crc &&& 0x8000 ≠ 0 ↔ crc.toNat.testBit 15 = true := by
  have hnat : (crc &&& 0x8000).toNat = (crc.toNat.testBit 15).toNat * 2 ^ 15 := by
    rw [UInt16.toNat_and]
    exact Nat.and_two_pow crc.toNat 15
  rw [Ne, ← UInt16.toNat_inj, hnat]
  cases crc.toNat.testBit 15 <;> decide

/-- **A turn of the inner loop is multiplication by `x`**, up to a multiple of the generator. -/
theorem checkPoly_crcShift (crc : UInt16) :
    checkPoly (crcShift crc) = checkPoly crc * X + C (Crc.coeff (crc.toNat.testBit 15)) * generator := by
  unfold crcShift
  split
  · next hbit =>
    rw [highBit_iff] at hbit
    rw [checkPoly_xor, checkPoly_shiftLeft, checkPoly_0x1021, hbit, Crc.coeff, if_pos rfl, C_1, generator]
    ring
  · next hbit =>
    rw [highBit_iff, Bool.not_eq_true] at hbit
    rw [checkPoly_shiftLeft, hbit, Crc.coeff, if_neg (by decide), C_0, zero_mul, zero_mul]

theorem checkPoly_repeat (n : Nat) (crc : UInt16) :
    AdjoinRoot.mk generator (checkPoly (Nat.repeat crcShift n crc)) =
      AdjoinRoot.mk generator (checkPoly crc * X ^ n) := by
  induction n with
  | zero => simp [Nat.repeat]
  | succ n ih =>
    have hmod : ∀ p : (ZMod 2)[X], AdjoinRoot.mk generator (p * generator) = 0 := fun p => by
      rw [map_mul, AdjoinRoot.mk_self, mul_zero]
    rw [Nat.repeat, checkPoly_crcShift, map_add, hmod, add_zero, map_mul, ih, ← map_mul, pow_succ, mul_assoc]

theorem checkPoly_highByte (b : UInt8) : checkPoly (b.toUInt16 <<< 8) = ofBits (bitsOf 8 b.toNat) * X ^ 8 := by
  have hnat : (b.toUInt16 <<< 8).toNat = b.toNat * 2 ^ 8 := by
    have := b.toNat_lt
    rw [UInt16.toNat_shiftLeft]
    simp [Nat.shiftLeft_eq]
    omega
  rw [checkPoly, hnat]
  exact ofBits_bitsOf_mul_pow 8 b.toNat 8

theorem checkPoly_crcByte (crc : UInt16) (b : UInt8) :
    AdjoinRoot.mk generator (checkPoly (crcByte crc b)) = AdjoinRoot.mk generator
      (checkPoly crc * X ^ (bitsOf 8 b.toNat).length + ofBits (bitsOf 8 b.toNat) * X ^ generator.natDegree) := by
  rw [crcByte, checkPoly_repeat, checkPoly_xor, checkPoly_highByte, length_bitsOf, generator_natDegree]
  congr 1
  ring

/-- **`xmodemCrc16` is the remainder.** -/
theorem checkPoly_xmodemCrc16 (bs : List UInt8) :
    checkPoly (xmodemCrc16 bs) = remainder generator (byteBits bs) := by
  have hdeg : (checkPoly (xmodemCrc16 bs)).degree < generator.degree := by
    rw [degree_eq_natDegree generator_monic.ne_zero, generator_natDegree]
    have := degree_ofBits_lt (bitsOf 16 (xmodemCrc16 bs).toNat)
    rwa [length_bitsOf] at this
  rw [remainder_eq_iff generator_monic hdeg, xmodemCrc16,
    foldl_congr checkPoly (fun b : UInt8 => bitsOf 8 b.toNat) crcByte checkPoly_crcByte]
  have hzero : checkPoly 0 = 0 := ofBits_zeros 16
  rw [hzero, zero_mul, zero_add]
  rfl

theorem checkPoly_eq_zero_iff (crc : UInt16) : checkPoly crc = 0 ↔ crc = 0 := by
  refine ⟨fun h => ?_, fun h => by rw [h]; exact ofBits_zeros 16⟩
  rw [← UInt16.toNat_inj]
  refine eq_zero_of_ofBits crc.toNat_lt fun b hb => ?_
  cases b with
  | false => rfl
  | true => exact absurd h (ofBits_ne_zero hb)

/-! ## Packets -/

/-- An error of one bit or more, all within 16 bits in a row. -/
def Burst (e : List UInt8) : Prop :=
  ∃ i j w, byteBits e = List.replicate i false ++ w ++ List.replicate j false ∧ w.length ≤ 16 ∧ true ∈ w

/-- The bytes of a packet behind its header are `block` and the two bytes of its CRC. -/
structure Protected (packet : List UInt8) (blockNum : UInt8) (pData : List UInt8) (blockSize : Nat) :
    Prop where
  header : packet.take 3 = [if blockSize = blockSize1K then stx else soh, blockNum, ~~~blockNum]
  complement : blockNum.toNat + (~~~blockNum).toNat = 255
  length : packet.length = 3 + blockSize + 2
  block : (packet.drop 3).take blockSize =
    pData ++ List.replicate (blockSize - pData.length) padding
  crc : ofBits (byteBits (packet.drop (3 + blockSize))) =
    (ofBits (byteBits ((packet.drop 3).take blockSize)) * X ^ 16) %ₘ (X ^ 16 + X ^ 12 + X ^ 5 + 1)
  residue : xmodemCrc16 (packet.drop 3) = 0
  burst : ∀ e : List UInt8, e.length = (packet.drop 3).length → Burst e →
    xmodemCrc16 (List.zipWith (· ^^^ ·) (packet.drop 3) e) ≠ 0

/-- The two bytes of a CRC, the high byte first. -/
theorem byteBits_crc (crc : UInt16) :
    byteBits [(crc >>> 8).toUInt8, crc.toUInt8] = bitsOf 16 crc.toNat := by
  have hhigh : (crc >>> 8).toUInt8.toNat = crc.toNat / 2 ^ 8 % 2 ^ 8 := by
    rw [UInt16.toNat_toUInt8, UInt16.toNat_shiftRight, Nat.shiftRight_eq_div_pow]
    rfl
  rw [bitsOf_add 8 8, byteBits, List.flatMap_cons, List.flatMap_cons, List.flatMap_nil, List.append_nil, hhigh,
    UInt16.toNat_toUInt8, bitsOf_mod (Nat.le_refl 8), bitsOf_mod (Nat.le_refl 8)]

/-- **The CRC of a block and its CRC is 0.** -/
theorem residue_zero (block : List UInt8) :
    xmodemCrc16 (block ++ [(xmodemCrc16 block >>> 8).toUInt8, (xmodemCrc16 block).toUInt8]) = 0 := by
  have hsplit : byteBits (block ++ [(xmodemCrc16 block >>> 8).toUInt8, (xmodemCrc16 block).toUInt8]) =
      byteBits block ++ bitsOf 16 (xmodemCrc16 block).toNat := by
    rw [byteBits, List.flatMap_append, ← byteBits, ← byteBits_crc]
    rfl
  rw [← checkPoly_eq_zero_iff, checkPoly_xmodemCrc16, hsplit]
  exact remainder_append_self generator_monic (by rw [length_bitsOf, generator_natDegree])
    (checkPoly_xmodemCrc16 block)

/-- **An error within 16 bits in a row makes the CRC other than 0**, if it was 0 before. -/
theorem burst_detected {bs e : List UInt8} (hbs : xmodemCrc16 bs = 0) (hlen : e.length = bs.length)
    (he : Burst e) : xmodemCrc16 (List.zipWith (· ^^^ ·) bs e) ≠ 0 := by
  obtain ⟨i, j, w, hbits, hw, hmem⟩ := he
  have hlen' : (byteBits bs).length = (byteBits e).length := by
    rw [length_byteBits, length_byteBits, hlen]
  rw [Ne, ← checkPoly_eq_zero_iff, checkPoly_xmodemCrc16, byteBits_xor hlen.symm, remainder_xor hlen',
    ← checkPoly_xmodemCrc16, hbs, hbits, (checkPoly_eq_zero_iff 0).2 rfl, zero_add]
  exact remainder_burst_ne_zero generator_monic generator_coprime hmem (by rwa [generator_natDegree])

/-- **Every packet is well formed and protected.** -/
theorem packet_protected (blockNum : UInt8) {pData : List UInt8} {blockSize : Nat}
    (hlen : pData.length ≤ blockSize) :
    Protected (blockPacket blockNum pData blockSize) blockNum pData blockSize := by
  let block := padBlock blockSize pData
  let crc := [(xmodemCrc16 block >>> 8).toUInt8, (xmodemCrc16 block).toUInt8]
  have hblock : block.length = blockSize := length_padBlock blockSize pData
  have htail : (blockPacket blockNum pData blockSize).drop 3 = block ++ crc := rfl
  have htake : (block ++ crc).take blockSize = block := by
    rw [← hblock, List.take_left]
  have hdrop : (blockPacket blockNum pData blockSize).drop (3 + blockSize) = crc := by
    rw [← List.drop_drop, htail, ← hblock, List.drop_left]
  refine ⟨rfl, ?_, ?_, ?_, ?_, residue_zero block,
    fun e he hburst => burst_detected (residue_zero block) he hburst⟩
  · have := blockNum.toNat_lt
    rw [UInt8.toNat_not]
    simp only [UInt8.size]
    omega
  · simp [blockPacket, length_padBlock]
    omega
  · rw [htail, htake]
    exact padBlock_eq hlen
  · rw [hdrop, htail, htake, byteBits_crc]
    have := checkPoly_xmodemCrc16 block
    rwa [remainder, generator_natDegree] at this

/-- A block of one byte. -/
theorem packet_protected_one_byte :
    ([0x41] : List UInt8).length ≤ blockSize128 ∧
      Protected (blockPacket 1 [0x41] blockSize128) 1 [0x41] blockSize128 :=
  ⟨by decide, packet_protected 1 (by decide)⟩

end Xmodem
