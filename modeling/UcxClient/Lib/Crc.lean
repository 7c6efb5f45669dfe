import Mathlib.Algebra.CharP.Two
import Mathlib.Algebra.Field.ZMod
import Mathlib.RingTheory.AdjoinRoot
import Mathlib.RingTheory.Polynomial.Basic

/-!
# Cyclic redundancy checks

A bit string stands for a polynomial over GF(2), its first bit for the highest coefficient (`ofBits`).
The check of a string for the generator `g` of degree `n` is the remainder of its polynomial times `X ^ n`
(`remainder`); a string followed by its check has the check 0 (`remainder_append_self`), and the check is
additive (`remainder_xor`). An error that lies within `n` bits in a row is never a multiple of a generator
that has no factor `X` (`not_dvd_burst`).

`foldl_congr` is the rule for a register that takes in the string piece by piece: it holds the check of
what it has taken in as a residue if each piece does what multiplication by powers of `X` does.
-/

open Polynomial

namespace Crc

/-- A bit as an element of GF(2). -/
def coeff (b : Bool) : ZMod 2 := if b then 1 else 0

theorem coeff_xor (a b : Bool) : coeff (a ^^ b) = coeff a + coeff b := by
  cases a <;> cases b <;> decide

/-- The polynomial of a bit string. -/
noncomputable def ofBits : List Bool → (ZMod 2)[X]
  | [] => 0
  | b :: bs => C (coeff b) * X ^ bs.length + ofBits bs

@[simp] theorem ofBits_nil : ofBits [] = 0 := rfl

theorem ofBits_cons (b : Bool) (bs : List Bool) :
    ofBits (b :: bs) = C (coeff b) * X ^ bs.length + ofBits bs := rfl

theorem ofBits_append (as bs : List Bool) :
    ofBits (as ++ bs) = ofBits as * X ^ bs.length + ofBits bs := by
  induction as with
  | nil => simp
  | cons a as ih =>
    rw [List.cons_append, ofBits_cons, ofBits_cons, ih, List.length_append, pow_add]
    ring

theorem ofBits_zeros (n : Nat) : ofBits (List.replicate n false) = 0 := by
  induction n with
  | zero => rfl
  | succ n ih => simp [List.replicate_succ, ofBits_cons, ih, coeff]

theorem ofBits_xor {as bs : List Bool} (h : as.length = bs.length) :
    ofBits (List.zipWith xor as bs) = ofBits as + ofBits bs := by
  induction as generalizing bs with
  | nil =>
    obtain rfl := List.length_eq_zero_iff.1 h.symm
    simp
  | cons a as ih =>
    obtain - | ⟨b, bs⟩ := bs
    · cases h
    · have hlen : as.length = bs.length := by simpa using h
      rw [List.zipWith_cons_cons, ofBits_cons, ofBits_cons, ofBits_cons, ih hlen, coeff_xor, C_add,
        List.length_zipWith, hlen, Nat.min_self]
      ring

/-! ## Numbers -/

/-- The `w` low bits of a number, the highest first. -/
def bitsOf : Nat → Nat → List Bool
  | 0, _ => []
  | w + 1, n => n.testBit w :: bitsOf w n

theorem bitsOf_succ (w n : Nat) : bitsOf (w + 1) n = n.testBit w :: bitsOf w n := rfl

@[simp] theorem length_bitsOf (w n : Nat) : (bitsOf w n).length = w := by
  induction w with
  | zero => rfl
  | succ w ih => simp [bitsOf, ih]

theorem bitsOf_xor (w a b : Nat) : bitsOf w (a ^^^ b) = List.zipWith xor (bitsOf w a) (bitsOf w b) := by
  induction w with
  | zero => rfl
  | succ w ih => simp [bitsOf, ih, Nat.testBit_xor]

theorem bitsOf_mod {w v : Nat} (h : w ≤ v) (n : Nat) : bitsOf w (n % 2 ^ v) = bitsOf w n := by
  induction w with
  | zero => rfl
  | succ w ih =>
    have hw : w < v := by omega
    rw [bitsOf, bitsOf, ih (by omega), Nat.testBit_mod_two_pow, decide_eq_true hw, Bool.true_and]

theorem bitsOf_add (v w n : Nat) : bitsOf (v + w) n = bitsOf v (n / 2 ^ w) ++ bitsOf w n := by
  induction v with
  | zero => simp [bitsOf]
  | succ v ih => rw [Nat.succ_add, bitsOf_succ, ih, bitsOf_succ, Nat.testBit_div_two_pow]; rfl

theorem testBit_mem_bitsOf {w i : Nat} (n : Nat) (hi : i < w) : n.testBit i ∈ bitsOf w n := by
  induction w with
  | zero => omega
  | succ w ih =>
    by_cases hiw : i = w
    · rw [hiw]
      exact List.mem_cons_self
    · exact List.mem_cons_of_mem _ (ih (by omega))

/-- A number without bits is 0. -/
theorem eq_zero_of_ofBits {w n : Nat} (hn : n < 2 ^ w) (h : ∀ b ∈ bitsOf w n, b = false) : n = 0 := by
  apply Nat.eq_of_testBit_eq
  intro i
  rw [Nat.zero_testBit]
  by_cases hi : i < w
  · exact h _ (testBit_mem_bitsOf n hi)
  · exact Nat.testBit_lt_two_pow (Nat.lt_of_lt_of_le hn (Nat.pow_le_pow_right (by decide) (by omega)))

/-- Multiplication by 2 is multiplication by `X`. -/
theorem ofBits_bitsOf_double (w n : Nat) : ofBits (bitsOf (w + 1) (2 * n)) = ofBits (bitsOf w n) * X := by
  induction w with
  | zero => simp [bitsOf, ofBits_cons, coeff, Nat.testBit_zero]
  | succ w ih =>
    rw [bitsOf_succ (w + 1), ofBits_cons, ih, bitsOf_succ w n, ofBits_cons, length_bitsOf, length_bitsOf,
      Nat.testBit_succ, Nat.mul_div_cancel_left _ (by decide)]
    ring

theorem ofBits_bitsOf_mul_pow (w n k : Nat) :
    ofBits (bitsOf (w + k) (n * 2 ^ k)) = ofBits (bitsOf w n) * X ^ k := by
  induction k with
  | zero => simp
  | succ k ih =>
    have hdouble : n * 2 ^ (k + 1) = 2 * (n * 2 ^ k) := by rw [Nat.pow_succ]; ring
    rw [← Nat.add_assoc, hdouble, ofBits_bitsOf_double, ih]
    ring

/-! ## Degrees -/

theorem degree_ofBits_lt (bs : List Bool) : (ofBits bs).degree < bs.length := by
  induction bs with
  | nil => simp
  | cons b bs ih =>
    rw [ofBits_cons, List.length_cons]
    have hlt : ((bs.length : Nat) : WithBot Nat) < ((bs.length + 1 : Nat) : WithBot Nat) := by
      exact_mod_cast Nat.lt_succ_self _
    refine lt_of_le_of_lt (degree_add_le _ _) (max_lt ?_ (ih.trans hlt))
    exact lt_of_le_of_lt (degree_C_mul_X_pow_le _ _) hlt

/-- A bit string with a bit that is set stands for a polynomial other than 0. -/
theorem ofBits_ne_zero {bs : List Bool} (h : true ∈ bs) : ofBits bs ≠ 0 := by
  induction bs with
  | nil => cases h
  | cons b bs ih =>
    cases b with
    | false =>
      have hbs : true ∈ bs := by simpa using h
      simpa [ofBits_cons, coeff] using ih hbs
    | true =>
      intro hzero
      rw [ofBits_cons, coeff, if_pos rfl, C_1, one_mul] at hzero
      have hdeg := degree_ofBits_lt bs
      have hpow : (X ^ bs.length : (ZMod 2)[X]) = -ofBits bs := eq_neg_of_add_eq_zero_left hzero
      rw [← degree_neg, ← hpow, degree_X_pow] at hdeg
      exact lt_irrefl _ hdeg

/-! ## Checks -/

section
variable (g : (ZMod 2)[X])

/-- The check of a bit string. -/
noncomputable def remainder (bs : List Bool) : (ZMod 2)[X] := (ofBits bs * X ^ g.natDegree) %ₘ g

variable {g}

/-- Two checks are the same if the polynomials are congruent. -/
theorem remainder_eq_iff (hg : g.Monic) {bs : List Bool} {p : (ZMod 2)[X]} (hp : p.degree < g.degree) :
    p = remainder g bs ↔ AdjoinRoot.mk g p = AdjoinRoot.mk g (ofBits bs * X ^ g.natDegree) := by
  rw [AdjoinRoot.mk_eq_mk]
  constructor
  · rintro rfl
    refine ⟨-(ofBits bs * X ^ g.natDegree /ₘ g), ?_⟩
    rw [remainder, modByMonic_eq_sub_mul_div]
    ring
  · intro ⟨q, hq⟩
    refine (div_modByMonic_unique (-q) p hg ⟨?_, hp⟩).2.symm
    have hfull := eq_add_of_sub_eq hq
    rw [hfull]
    ring

/-- **A string followed by its check has the check 0.** -/
theorem remainder_append_self (hg : g.Monic) {bs check : List Bool} (hlen : check.length = g.natDegree)
    (h : ofBits check = remainder g bs) : remainder g (bs ++ check) = 0 := by
  have hsum : ofBits (bs ++ check) = ofBits bs * X ^ g.natDegree + remainder g bs := by
    rw [ofBits_append, hlen, h]
  have hdvd : g ∣ ofBits (bs ++ check) := by
    refine ⟨ofBits bs * X ^ g.natDegree /ₘ g, ?_⟩
    rw [hsum, remainder, ← CharTwo.sub_eq_add, modByMonic_eq_sub_mul_div, sub_sub_cancel]
  rw [remainder]
  exact (modByMonic_eq_zero_iff_dvd hg).2 (hdvd.mul_right _)

/-- **The check is additive.** -/
theorem remainder_xor {as bs : List Bool} (h : as.length = bs.length) :
    remainder g (List.zipWith xor as bs) = remainder g as + remainder g bs := by
  rw [remainder, remainder, remainder, ofBits_xor h, add_mul, add_modByMonic]

/-- **An error within as many bits as the generator has is found.** -/
theorem not_dvd_burst (hX : IsCoprime g X) {i j : Nat} {w : List Bool} (hw : true ∈ w)
    (hlen : w.length ≤ g.natDegree) (n : Nat) :
    ¬g ∣ ofBits (List.replicate i false ++ w ++ List.replicate j false) * X ^ n := by
  intro hdvd
  rw [List.append_assoc, ofBits_append, ofBits_zeros, zero_mul, zero_add, ofBits_append, ofBits_zeros,
    add_zero, mul_assoc, ← pow_add] at hdvd
  have hdvd' : g ∣ ofBits w := (hX.pow_right).dvd_of_dvd_mul_right hdvd
  have hdeg := degree_le_of_dvd hdvd' (ofBits_ne_zero hw)
  have hlt := degree_ofBits_lt w
  have hne : g ≠ 0 := by
    rintro rfl
    exact ofBits_ne_zero hw (zero_dvd_iff.1 hdvd')
  rw [degree_eq_natDegree hne] at hdeg
  have hcast : ((w.length : Nat) : WithBot Nat) ≤ ((g.natDegree : Nat) : WithBot Nat) := by
    exact_mod_cast hlen
  exact absurd (hdeg.trans_lt hlt) (not_lt_of_ge hcast)

theorem remainder_burst_ne_zero (hg : g.Monic) (hX : IsCoprime g X) {i j : Nat} {w : List Bool}
    (hw : true ∈ w) (hlen : w.length ≤ g.natDegree) :
    remainder g (List.replicate i false ++ w ++ List.replicate j false) ≠ 0 := by
  rw [remainder, Ne, modByMonic_eq_zero_iff_dvd hg]
  exact not_dvd_burst hX hw hlen _

end

/-! ## Registers -/

section
variable {ρ : Type*} {β : Type*} {g : (ZMod 2)[X]} (value : ρ → (ZMod 2)[X]) (bits : β → List Bool)
  (step : ρ → β → ρ)

/-- **A register that takes in a string piece by piece.** -/
theorem foldl_congr
    (hstep : ∀ r b, AdjoinRoot.mk g (value (step r b)) =
      AdjoinRoot.mk g (value r * X ^ (bits b).length + ofBits (bits b) * X ^ g.natDegree))
    (r : ρ) (bs : List β) :
    AdjoinRoot.mk g (value (bs.foldl step r)) = AdjoinRoot.mk g
      (value r * X ^ (bs.flatMap bits).length + ofBits (bs.flatMap bits) * X ^ g.natDegree) := by
  induction bs generalizing r with
  | nil => simp
  | cons b bs ih =>
    rw [List.foldl_cons, ih, List.flatMap_cons, ofBits_append, List.length_append]
    simp only [map_add, map_mul, map_pow, hstep] 
    ring

end

end Crc
