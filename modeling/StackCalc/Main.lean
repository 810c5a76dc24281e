/-
  StackCalc.Main
  ──────────────
  **THE PROGRAM.**

  The outer layer of the command line: it reads the file and standard input, hands
  them to `StackCalc.Console` piece by piece, and writes what comes back.  Input is
  read a line at a time and only when it is needed, so that a session can be held
  with a person.
-/
import StackCalc.Console.CommandLine

namespace StackCalc.Console

/-! ## §1. Files and lines. -/

/-- The failure that an error of the system stands for.  Some calls give the number
of the error and some its negation. -/
def ReadFailure.ofError (e : IO.Error) : ReadFailure :=
  match e with
  | .noFileOrDirectory _ _ _ => .notFound
  | .inappropriateType _ code details =>
    if code = 21 ∨ code = 0 - 21 then .isFolder
    else if code = 20 ∨ code = 0 - 20 then .notFolder
    else .other details
  | e => .other (toString e)

/-- The text of the file at a path. -/
def readText (path : String) : IO (Except ReadFailure String) := do
  match ← (IO.FS.readBinFile path).toBaseIO with
  | .ok contents => return textOf contents.data.toList
  | .error e => return .error (.ofError e)

/-- The bytes up to the next line feed, the line feed included; `read` holds those
that were read before, last one first. -/
partial def readLine (input : IO.FS.Stream) (read : List UInt8) : IO (List UInt8) := do
  let bytes ← input.read 1
  match bytes.data.toList with
  | [] => return read.reverse
  | byte :: _ =>
    if byte = 0x0A then return (byte :: read).reverse
    else readLine input (byte :: read)

/-- The next line of standard input, if there is one. -/
def nextLine : IO (Option InputLine) := do
  return (InputLine.split (← readLine (← IO.getStdin) [])).head?

/-- Writes lines to standard output at once. -/
def say (lines : List String) : IO Unit := do
  let output ← IO.getStdout
  output.putStr (Text.unlines lines)
  output.flush

/-- Writes lines to standard error. -/
def complain (lines : List String) : IO Unit := do
  IO.eprint (Text.unlines lines)

/-- Writes a report, and gives its exit code. -/
def deliver (r : Report) : IO UInt32 := do
  say r.out
  complain r.err
  return UInt32.ofNat r.ending.code

/-! ## §2. Sessions. -/

/-- Takes commands from standard input until the session is over. -/
partial def converseLive (m : Machine) : IO UInt32 := do
  match ← nextLine with
  | none => return 0
  | some line =>
    match Session.hear m line with
    | .over => return 0
    | .garbled => deliver { ending := .misuse, err := ["error: " ++ notText] }
    | .goOn next out =>
      say out
      converseLive next

/-- Holds a session over a program. -/
def sessionLive (p : Program) : IO UInt32 := do
  let r := (Machine.load {} p).machine.start
  match r.reply with
  | .failed fault => deliver (sessionReport (.error fault))
  | _ =>
    say (Session.view r.machine)
    converseLive r.machine

/-! ## §3. Runs. -/

/-- Writes what a run has said so far. -/
def voice (p : Run.Progress) : IO Run.Progress := do
  complain p.said.reverse
  return { p with said := [] }

/-- Answers the `INPUT` that waits, if one does, from standard input. -/
partial def answerLive (p : Run.Progress) : IO (Run.Progress × Option Run.Verdict) := do
  if p.machine.isWaiting then
    match ← nextLine with
    | none => return (p, some .starved)
    | some line =>
      match p.offer line with
      | .error verdict => return (p, some verdict)
      | .ok p => answerLive (← voice p)
  else return (p, none)

/-- Answers and steps until the run ends; `budget` of the `limit` steps are left. -/
def driveLive (strategy : Strategy) (limit : Nat) :
    Nat → Run.Progress → IO (Run.Progress × Run.Verdict)
  | 0, p => do
    match ← answerLive p with
    | (p, some verdict) => return (p, verdict)
    | (p, none) => return (p, .exhausted limit p.machine.cursor)
  | budget + 1, p => do
    match ← answerLive p with
    | (p, some verdict) => return (p, verdict)
    | (p, none) =>
      let (p, reply) := p.step strategy
      let p ← voice p
      match reply with
      | .failed fault => return (p, .faulted fault)
      | .stepped => driveLive strategy limit budget p
      | _ => return (p, .finished)

/-- Runs a program. -/
def runLive (p : Program) (strategy : Strategy) (limit : Nat) : IO UInt32 := do
  let r := ((Machine.load {} p).machine.listen true).machine.start
  match r.reply with
  | .failed fault => deliver (Run.report ({ machine := r.machine }, .faulted fault))
  | _ => deliver (Run.report (← driveLive strategy limit limit { machine := r.machine }))

/-! ## §4. Commands. -/

/-- How the program is used. -/
def usageLines : List String :=
  [ "usage: stackcalc COMMAND FILE",
    "  run FILE [--step-over] [--max-steps N]   run a program",
    "  debug FILE                               step through a program",
    "  list FILE                                print the listing of a program" ]

/-- Carries out an invocation. -/
def performLive (invocation : Invocation) : IO UInt32 := do
  match programOf invocation.file (← readText invocation.file) with
  | .error line => deliver { ending := .misuse, err := [line] }
  | .ok p =>
    match invocation with
    | .run _ strategy limit => runLive p strategy limit
    | .debug _ => sessionLive p
    | .list _ => deliver (carryOut p [] invocation)

end StackCalc.Console

open StackCalc.Console in
/-- The command line. -/
def main (arguments : List String) : IO UInt32 := do
  match Invocation.parse arguments with
  | .ok invocation => performLive invocation
  | .error usage =>
    match usage with
    | .help => say usageLines
    | .misuse => complain usageLines
    return UInt32.ofNat usage.code
