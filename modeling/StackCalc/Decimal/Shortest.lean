/-
  StackCalc.Decimal.Shortest
  ──────────────────────────
  **WRITING A NUMBER.**

  A number is written with the fewest decimal digits that read back as the same
  number; of the decimals with so few digits the nearest is taken, and of two
  equally near ones the larger.  It is always written in positional notation,
  with a point only where digits follow it: `5`, `-0.25`, `0.0000001`,
  `1000000000000000000000`.  Zero has its sign, and the other values are `inf`,
  `-inf` and `NaN`.

  The search walks the grids of multiples of 10ᵍ from the coarsest that can hold
  a decimal near the value to finer ones.  On each grid it asks the *reader*
  (`Decimal.code`) whether the value's lower or upper neighbour reads back.  The
  value itself lies on the grid of 10⁻¹⁰⁷⁴, so an answer always exists.
-/
import StackCalc.Decimal.Numeral

namespace StackCalc

namespace Decimal

open Binary64

/-! ## §1. The neighbours of a value on a grid. -/

/-- A magnitude of `u` units as a multiple of 10 ^ `g`: a numerator and a
denominator. -/
def onGrid (u : Nat) : Int → Nat × Nat
  | .ofNat k => (u, one * Nat.pow 10 k)
  | .negSucc k => (u * Nat.pow 10 (k + 1), one)

/-- The neighbour of a finite magnitude on the grid of 10 ^ `g` that reads back
as this magnitude, if one does; of two that do the nearer, and the upper one if
both are equally near. -/
def neighbour? (c : Nat) (g : Int) : Option Decimal :=
  let (n, d) := onGrid (units c) g
  let lower : Decimal := ⟨n / d, g⟩
  let upper : Decimal := ⟨n / d + 1, g⟩
  if upper.code = c ∧ (d ≤ 2 * (n % d) ∨ lower.code ≠ c) then some upper
  else if lower.code = c then some lower
  else none

/-! ## §2. The search. -/

/-- The first of `n` grids, the coarsest being that of 10 ^ `g`, on which a
neighbour reads back. -/
def search (c : Nat) : Nat → Int → Option Decimal
  | 0, _ => none
  | n + 1, g => (neighbour? c g).or (search c n (g - 1))

/-- The magnitude of a code as a decimal, digit for digit. -/
def exact (c : Nat) : Decimal :=
  ⟨units c * Nat.pow 5 places, -places⟩

/-- A grid that is at least as coarse as the first digit of the magnitude, since
30103 / 100000 is an upper bound of the decimal logarithm of two. -/
def coarsest (c : Nat) : Int :=
  (((units c).log2 : Int) + 1 - places) * 30103 / 100000 + 1

/-- The decimal with the fewest digits that reads back as a finite magnitude.
Seventeen digits always suffice, and the first digit lies at most a few grids
below the coarsest one. -/
def shortest (c : Nat) : Decimal :=
  (search c 24 (coarsest c)).getD (exact c)

/-! ## §3. Positional notation. -/

/-- The digits of a decimal in positional notation, with a point if and only if
the exponent is negative. -/
def positional (d : Decimal) : List Char :=
  let digits := Nat.toDigits 10 d.coefficient
  match d.exponent with
  | .ofNat k => digits ++ List.replicate k '0'
  | .negSucc k =>
    let padded := List.replicate (k + 2 - digits.length) '0' ++ digits
    let whole := padded.length - (k + 1)
    padded.take whole ++ '.' :: padded.drop whole

end Decimal

/-! ## §4. Numbers. -/

/-- The text of a magnitude. -/
def writeMagnitude (c : Nat) : List Char :=
  if c = 0 then ['0']
  else if c = Binary64.infinity then ['i', 'n', 'f']
  else (Decimal.shortest c).positional

/-- The text of a number. -/
def writeNumber (x : Float) : String :=
  if Binary64.infinity < Binary64.code x then "NaN"
  else
    String.ofList
      ((if Binary64.isNegative x then ['-'] else []) ++ writeMagnitude (Binary64.code x))

end StackCalc
