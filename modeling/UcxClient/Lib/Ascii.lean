import Mathlib.Algebra.Group.Int.Defs
import Mathlib.Algebra.GroupWithZero.Nat

/-!
# ASCII characters and numerals

Characters are bytes. `isprint`, `isdigit`, `isspace` and `strtol` are the C functions (in the C
locale, with a 64 bit `long`); a string argument is the list of its characters without the
terminator, and `strtol` returns the rest of the string in place of its end pointer.
-/

/-- The byte of an ASCII character. -/
def ch (c : Char) : UInt8 := c.toUInt8

/-- The bytes of an ASCII text. -/
def text (s : String) : List UInt8 := s.toList.map ch

def isprint (c : UInt8) : Bool := 0x20 ≤ c && c ≤ 0x7e

def isdigit (c : UInt8) : Bool := ch '0' ≤ c && c ≤ ch '9'

def isspace (c : UInt8) : Bool := c == ch ' ' || (9 ≤ c && c ≤ 13)

/-- The value of a digit or letter as a digit; 36 for any other character. -/
def digitVal (c : UInt8) : Nat :=
  if isdigit c then c.toNat - 48
  else if ch 'a' ≤ c ∧ c ≤ ch 'z' then c.toNat - 97 + 10
  else if ch 'A' ≤ c ∧ c ≤ ch 'Z' then c.toNat - 65 + 10
  else 36

/-- The digits at the front of a string, on top of the value `acc` of those before. -/
def strtolDigits (base acc : Nat) : List UInt8 → Nat × List UInt8
  | [] => (acc, [])
  | c :: cs =>
    if digitVal c < base then strtolDigits base (acc * base + digitVal c) cs else (acc, c :: cs)

/-- An optional sign. -/
def strtolSign : List UInt8 → Bool × List UInt8
  | c :: cs => if c = ch '-' then (true, cs) else if c = ch '+' then (false, cs) else (false, c :: cs)
  | [] => (false, [])

/-- The optional prefix `0x` of a hexadecimal number. -/
def strtolPrefix (base : Nat) : List UInt8 → List UInt8
  | z :: x :: d :: cs =>
    if base = 16 ∧ z = ch '0' ∧ (x = ch 'x' ∨ x = ch 'X') ∧ digitVal d < 16 then d :: cs
    else z :: x :: d :: cs
  | cs => cs

/-- Clamp to the range of a `long`. -/
def clampLong (n : Int) : Int := max (-(2 ^ 63)) (min (2 ^ 63 - 1) n)

/-- `strtol(s, &end, base)`: the value and what is left at `end`, all of `s` when it does not start
with a number. -/
def strtol (base : Nat) (s : List UInt8) : Int × List UInt8 :=
  let (neg, s1) := strtolSign (s.dropWhile isspace)
  match strtolPrefix base s1 with
  | [] => (0, s)
  | c :: cs =>
    if digitVal c < base then
      let (v, rest) := strtolDigits base 0 (c :: cs)
      (clampLong (if neg then -(v : Int) else v), rest)
    else (0, s)

example : strtol 10 (text " -42,7") = (-42, text ",7") := by decide

example : strtol 16 (text "0dB8:") = (0xdb8, text ":") := by decide

/-! ## `strtol` on numerals -/

/-- The number that digits denote, behind digits that denote `acc`. -/
def ofDigits (base acc : Nat) (ds : List UInt8) : Nat :=
  ds.foldl (fun acc c => acc * base + digitVal c) acc

/-- The digits end where `rest` starts. -/
theorem strtolDigits_append {base : Nat} {ds rest : List UInt8} (acc : Nat)
    (hds : ∀ c ∈ ds, digitVal c < base) (hrest : ∀ c ∈ rest.head?, ¬digitVal c < base) :
    strtolDigits base acc (ds ++ rest) = (ofDigits base acc ds, rest) := by
  induction ds generalizing acc with
  | nil =>
    cases rest with
    | nil => rfl
    | cons c rest => simp [strtolDigits, hrest c rfl, ofDigits]
  | cons c ds ih =>
    rw [List.cons_append, strtolDigits, if_pos (hds c List.mem_cons_self)]
    exact ih _ fun c hc => hds c (List.mem_cons_of_mem _ hc)

theorem digitVal_of_isdigit {c : UInt8} (h : isdigit c = true) : digitVal c = c.toNat - 48 := by
  simp [digitVal, h]

theorem isdigit_iff {c : UInt8} : isdigit c = true ↔ 48 ≤ c.toNat ∧ c.toNat ≤ 57 := by
  simp only [isdigit, Bool.and_eq_true, decide_eq_true_eq, UInt8.le_iff_toNat_le]
  exact Iff.rfl

theorem digitVal_lt_ten {c : UInt8} (h : isdigit c = true) : digitVal c < 10 := by
  have := isdigit_iff.1 h
  rw [digitVal_of_isdigit h]
  omega

/-- A `long` holds the number. -/
theorem clampLong_eq {n : Int} (h1 : -(2 ^ 63) ≤ n) (h2 : n < 2 ^ 63) : clampLong n = n := by
  unfold clampLong
  omega

/-- A decidable property of bytes holds of all if it holds of the 256 numbers. -/
theorem forall_byte {p : UInt8 → Prop} (h : ∀ n < 256, p (UInt8.ofNat n)) (c : UInt8) : p c := by
  have := h c.toNat c.toNat_lt
  rwa [UInt8.ofNat_toNat] at this

/-- Characters of different classes differ. -/
theorem ne_of_class {p : UInt8 → Bool} {c d : UInt8} (hc : p c = true) (hd : p d = false) : c ≠ d := by
  intro h
  rw [h, hd] at hc
  cases hc

theorem not_space_of_isdigit :
    ∀ c, isdigit c = true → isspace c = false ∧ c ≠ ch '-' ∧ c ≠ ch '+' := by
  apply forall_byte
  decide +kernel

theorem isdigit_of_digitVal : ∀ c, digitVal c < 10 → isdigit c = true := by
  apply forall_byte
  decide +kernel
