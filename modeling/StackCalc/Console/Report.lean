/-
  StackCalc.Console.Report
  ────────────────────────
  **WHAT A COMMAND LEAVES BEHIND.**

  Whatever is written to standard output and to standard error is written in
  whole lines.
-/
import StackCalc.Text.Lines

namespace StackCalc.Console

/-! ## §1. Exit codes. -/

/-- How a command ends. -/
inductive Ending where
  /-- All went well. -/
  | success
  /-- The arguments, a file or the input are at fault. -/
  | misuse
  /-- The program is at fault. -/
  | fault
  /-- The program made as many steps as it was allowed to. -/
  | exhausted
  deriving DecidableEq, Repr

/-- The exit code of an ending. -/
def Ending.code : Ending → Nat
  | success => 0
  | misuse => 1
  | fault => 3
  | exhausted => 4

/-! ## §2. Reports. -/

/-- The ending of a command and the lines that it writes. -/
structure Report where
  ending : Ending
  /-- The lines on standard output. -/
  out : List String := []
  /-- The lines on standard error. -/
  err : List String := []
  deriving DecidableEq, Repr

namespace Report

/-- All of standard output. -/
def outText (r : Report) : String :=
  Text.unlines r.out

/-- All of standard error. -/
def errText (r : Report) : String :=
  Text.unlines r.err

end Report

end StackCalc.Console
