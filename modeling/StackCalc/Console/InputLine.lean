/-
  StackCalc.Console.InputLine
  ───────────────────────────
  **LINES OF STANDARD INPUT.**

  Standard input is a row of bytes.  It is cut into lines as a text is, and each
  line is decoded on its own, so that bytes that are no UTF-8 text spoil the line
  that holds them and no other.
-/
import StackCalc.Text.Lines

namespace StackCalc.Console

/-! ## §1. Decoding. -/

/-- The text that bytes encode in UTF-8, if they encode one. -/
def decode? (bytes : List UInt8) : Option String :=
  String.fromUTF8? ⟨bytes.toArray⟩

/-- What is said of bytes that are no UTF-8 text. -/
def notText : String := "stream did not contain valid UTF-8"

/-! ## §2. Lines. -/

/-- A line of standard input. -/
inductive InputLine where
  | text (line : String)
  /-- The bytes of the line are no UTF-8 text. -/
  | garbled
  deriving DecidableEq, Repr

namespace InputLine

/-- The line that the given bytes make. -/
def ofBytes (bytes : List UInt8) : InputLine :=
  match decode? bytes with
  | some line => text line
  | none => garbled

/-- The lines of standard input. -/
def split (bytes : List UInt8) : List InputLine :=
  (Text.splitLines 0x0A 0x0D bytes).map ofBytes

end InputLine

end StackCalc.Console
