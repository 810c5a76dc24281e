/-
  StackCalc.Decimal.Binary64
  ──────────────────────────
  **THE MAGNITUDES OF BINARY64, AND ROUNDING TO THE NEAREST.**

  The bit pattern of a binary64 number is a sign and a 63-bit *code*.  The codes
  below `infinity` enumerate the finite magnitudes in ascending order; each is a
  whole number of *units* of 2⁻¹⁰⁷⁴:

      units code = (code - t · 2⁵²) · 2ᵗ      where t = code / 2⁵² - 1

  (the subtraction of naturals stops at zero, which is what makes one formula
  serve the subnormal and the normal numbers).  `nearest n d` is the code whose
  magnitude is nearest to `n / d` units, of two equally near ones the even one;
  a magnitude too large for the format becomes `infinity`.
-/

namespace StackCalc.Binary64

/-! ## §1. Codes. -/

/-- The number of codes with one exponent. -/
def binade : Nat := Nat.pow 2 52

/-- The code of infinity; the codes above it are those of no number. -/
def infinity : Nat := 2047 * binade

/-- The number of binary places after the point that a magnitude can have. -/
def places : Nat := 1074

/-- One is this many units. -/
def one : Nat := Nat.pow 2 places

/-- The magnitude of a finite code, in units. -/
def units (code : Nat) : Nat :=
  let t := code / binade - 1
  (code - t * binade) * Nat.pow 2 t

/-! ## §2. Rounding. -/

/-- The natural number nearest to `n / d`, of two equally near ones the even
one. -/
def roundQuotient (n d : Nat) : Nat :=
  let q := n / d
  let r := n % d
  if 2 * r < d ∨ (2 * r = d ∧ q % 2 = 0) then q else q + 1

/-- The code nearest to `n / d` units.  `t` is the exponent of the result: 53
binary digits are kept, or as many as there are above the last unit. -/
def nearest (n d : Nat) : Nat :=
  let t := (n / d).log2 - 52
  min infinity (t * binade + roundQuotient n (d * Nat.pow 2 t))

/-! ## §3. Signs. -/

/-- The weight of the sign in a bit pattern. -/
def signWeight : Nat := Nat.pow 2 63

/-- The number with a given sign and code. -/
def compose (negative : Bool) (code : Nat) : Float :=
  Float.ofBits (UInt64.ofNat (code + if negative then signWeight else 0))

/-- Whether the sign of a number is set; it is for `-0` too. -/
def isNegative (x : Float) : Bool :=
  signWeight ≤ x.toBits.toNat

/-- The code of a number. -/
def code (x : Float) : Nat :=
  x.toBits.toNat % signWeight

/-- The value that is no number. -/
def notANumber : Float :=
  compose false (infinity + binade / 2)

end StackCalc.Binary64
