/-
  StackCalc.Decimal.Numeral
  ─────────────────────────
  **READING A NUMBER.**

  The text of a number is an optional sign and then either

      digits, optionally a point and digits (at least one digit in all),
      optionally `e` or `E`, an optional sign and digits

  or one of the words `inf`, `infinity` and `nan` in any case.  Only ASCII
  characters occur in it, and nothing stands around it.

  A decimal `coefficient · 10 ^ exponent` is read as the nearest binary64
  number, computed in exact natural arithmetic: `Decimal.code`.
-/
import StackCalc.Decimal.Binary64

namespace StackCalc

/-! ## §1. Decimals and the numbers nearest to them. -/

/-- The magnitude `coefficient · 10 ^ exponent`. -/
structure Decimal where
  coefficient : Nat
  exponent : Int
  deriving DecidableEq, Repr

namespace Decimal

open Binary64

/-- The code of the binary64 magnitude nearest to a decimal.  Decimals far
outside the range are settled without forming a power of ten: a coefficient
that is not zero makes anything above 10⁴⁰⁰ infinite, and since 10ᵏ ≥ 8ᵏ a
large `k` leaves less than half a unit. -/
def code (d : Decimal) : Nat :=
  if d.coefficient = 0 then 0
  else match d.exponent with
    | .ofNat k =>
      if 400 < k then infinity else nearest (d.coefficient * Nat.pow 10 k * one) 1
    | .negSucc k =>
      if d.coefficient.log2 + places + 2 ≤ 3 * (k + 1) then 0
      else nearest (d.coefficient * one) (Nat.pow 10 (k + 1))

end Decimal

/-! ## §2. What a text of a number says. -/

/-- A number as it is written. -/
inductive Numeral where
  /-- A sign and a decimal. -/
  | finite (negative : Bool) (decimal : Decimal)
  /-- A sign and the word for infinity. -/
  | infinite (negative : Bool)
  /-- The word for no number, whatever its sign. -/
  | nan
  deriving DecidableEq, Repr

namespace Numeral

/-- The binary64 value that a numeral denotes. -/
def value : Numeral → Float
  | finite negative decimal => Binary64.compose negative decimal.code
  | infinite negative => Binary64.compose negative Binary64.infinity
  | nan => Binary64.notANumber

/-! ## §3. The grammar. -/

/-- An optional sign and what follows it; the sign is set for a minus. -/
def sign : List Char → Bool × List Char
  | '-' :: cs => (true, cs)
  | '+' :: cs => (false, cs)
  | cs => (false, cs)

/-- The natural number that a list of digits writes, 0 for no digit. -/
def natural (digits : List Char) : Nat :=
  Nat.ofDigitChars 10 digits 0

/-- What follows the digits: nothing, which means the exponent 0, or a mark,
an optional sign and at least one digit. -/
def scale? : List Char → Option Int
  | [] => some 0
  | c :: cs =>
    if c = 'e' ∨ c = 'E' then
      let (negative, digits) := sign cs
      if digits ≠ [] ∧ digits.all Char.isDigit then
        some (if negative then - (natural digits : Int) else natural digits)
      else none
    else none

/-- The digits after a point, and what follows them; without a point there are
none. -/
def fraction : List Char → List Char × List Char
  | '.' :: cs => (cs.takeWhile Char.isDigit, cs.dropWhile Char.isDigit)
  | cs => ([], cs)

/-- A decimal without a sign.  The digits before and after the point form the
coefficient, and each digit after the point lowers the exponent by one. -/
def decimal? (cs : List Char) : Option Decimal :=
  let whole := cs.takeWhile Char.isDigit
  let (part, rest) := fraction (cs.dropWhile Char.isDigit)
  if whole ++ part = [] then none
  else (scale? rest).map fun e =>
    { coefficient := natural (whole ++ part), exponent := e - part.length }

/-- A numeral without its sign. -/
def unsigned? (negative : Bool) (cs : List Char) : Option Numeral :=
  let word := cs.map Char.toLower
  if word = ['i', 'n', 'f'] ∨ word = ['i', 'n', 'f', 'i', 'n', 'i', 't', 'y'] then
    some (infinite negative)
  else if word = ['n', 'a', 'n'] then some nan
  else (decimal? cs).map (finite negative)

/-- The numeral that a list of characters spells, if it spells one. -/
def ofChars? (cs : List Char) : Option Numeral :=
  let (negative, rest) := sign cs
  unsigned? negative rest

end Numeral

/-! ## §4. Numbers. -/

/-- The number that a text spells, if it spells one. -/
def readNumber? (s : String) : Option Float :=
  (Numeral.ofChars? s.toList).map Numeral.value

end StackCalc
