/-
  StackCalc.Console.CommandLine
  ─────────────────────────────
  **THE COMMANDS.**

  An invocation, the text of its file or the reason why there is none, and the
  lines of standard input determine all that a command writes and how it ends.
-/
import StackCalc.Console.Folder
import StackCalc.Console.Invocation
import StackCalc.Console.Run
import StackCalc.Console.Session
import StackCalc.Source.Assembly

namespace StackCalc.Console

/-! ## §1. Programs from files. -/

/-- The file of an invocation. -/
def Invocation.file : Invocation → String
  | run file _ _ | debug file | list file => file

/-- The program in a file, or the line that says why there is none. -/
def programOf (file : String) (text : Except ReadFailure String) :
    Except String Program :=
  match text with
  | .error failure =>
    .error ("error: cannot read '" ++ file ++ "': " ++ failure.message)
  | .ok text =>
    match Source.assemble text with
    | .error e => .error ("error: " ++ e.message)
    | .ok p => .ok p

/-! ## §2. Commands. -/

/-- What a session leaves behind. -/
def sessionReport : Except Fault Session.Transcript → Report
  | .error fault => { ending := .fault, err := ["runtime error: " ++ fault.message] }
  | .ok t =>
    if t.garbled then { ending := .misuse, out := t.out, err := ["error: " ++ notText] }
    else { ending := .success, out := t.out }

/-- Carries out an invocation with a program. -/
def carryOut (p : Program) (input : List InputLine) : Invocation → Report
  | .run _ strategy limit => Run.report (Run.run p strategy limit input)
  | .debug _ => sessionReport (Session.run p input)
  | .list _ => { ending := .success, out := p.listingLines }

/-- Carries out an invocation. -/
def perform (invocation : Invocation) (text : Except ReadFailure String)
    (input : List InputLine) : Report :=
  match programOf invocation.file text with
  | .error line => { ending := .misuse, err := [line] }
  | .ok p => carryOut p input invocation

end StackCalc.Console
