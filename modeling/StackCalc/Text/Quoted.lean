/-
  StackCalc.Text.Quoted
  ─────────────────────
  **QUOTED TEXT.**

  A prompt is written between double quotes.  Inside, a double quote and a
  backslash are preceded by a backslash; every other character stands for
  itself.
-/

namespace StackCalc.Text

/-! ## §1. Escaping. -/

/-- The characters of a quoted text as they are written between the quotes. -/
def escape : List Char → List Char
  | [] => []
  | c :: cs =>
    if c = '"' ∨ c = '\\' then '\\' :: c :: escape cs else c :: escape cs

/-! ## §2. Quoting. -/

/-- A text between double quotes. -/
def quote (s : String) : String :=
  "\"" ++ String.ofList (escape s.toList) ++ "\""

end StackCalc.Text
