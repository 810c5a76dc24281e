/-
  StackCalc.Source.Error
  ──────────────────────
  **WHAT CAN BE WRONG WITH A SOURCE TEXT.**

  An error is the number of a line, counted from one, and what is wrong there.
-/

namespace StackCalc.Source

/-! ## §1. Causes. -/

/-- What is wrong with a line. -/
inductive Cause where
  /-- The first word of the line is no mnemonic. -/
  | unknownInstruction (word : String)
  /-- The argument of `mnemonic` is missing. -/
  | missingArgument (mnemonic : String)
  /-- The argument of a `PUSH` is no number. -/
  | invalidNumber (text : String)
  /-- A token stands where it does not belong. -/
  | unexpectedToken (spelling : String)
  /-- A quoted text is open at the end of the line. -/
  | unterminatedString
  /-- An instruction stands before the first header. -/
  | outsideRoutine
  /-- A header repeats the name of an earlier one. -/
  | duplicateRoutine (name : String)
  deriving DecidableEq, Repr

/-- The report of a cause. -/
def Cause.message : Cause → String
  | unknownInstruction word => "unknown instruction '" ++ word ++ "'"
  | missingArgument mnemonic => mnemonic ++ " expects 1 argument(s)"
  | invalidNumber text => "invalid number '" ++ text ++ "'"
  | unexpectedToken spelling => "unexpected token '" ++ spelling ++ "'"
  | unterminatedString => "unterminated string"
  | outsideRoutine => "instruction outside of a FUNC block"
  | duplicateRoutine name => "function '" ++ name ++ "' is already defined"

/-! ## §2. Errors. -/

/-- What is wrong with a source text, and in which line. -/
structure Error where
  line : Nat
  cause : Cause
  deriving DecidableEq, Repr

/-- The report of an error. -/
def Error.message (e : Error) : String :=
  "line " ++ e.line.repr ++ ": " ++ e.cause.message

end StackCalc.Source
