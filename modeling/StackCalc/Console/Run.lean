/-
  StackCalc.Console.Run
  ─────────────────────
  **RUNNING A PROGRAM TO ITS END.**

  A program is started and stepped until it finishes, a step fails, or it has made
  as many steps as it may.  Before each step an `INPUT` that waits is answered from
  standard input: lines that are no number are reported and passed over, and it is
  an error if the input ends, or a line is no text, before a number is found.
  Prompts and reports go to standard error; at the end the values go to standard
  output, the bottom one first.

  The loop is split into `Progress.offer` (one line of input) and `Progress.step`
  (one step), and `Progress.drive` repeats them.
-/
import StackCalc.Console.InputLine
import StackCalc.Console.Report
import StackCalc.Machine.Step

namespace StackCalc.Console.Run

/-! ## §1. Verdicts. -/

/-- How a run ends. -/
inductive Verdict where
  /-- The program finished. -/
  | finished
  /-- The program did not start, or a step failed. -/
  | faulted (fault : Fault)
  /-- The input ended while a value was waited for. -/
  | starved
  /-- A line of input was no text. -/
  | garbled
  /-- The program had made `limit` steps when it reached `place`. -/
  | exhausted (limit : Nat) (place : Location)
  deriving DecidableEq, Repr

namespace Verdict

/-- The ending of the command. -/
def ending : Verdict → Ending
  | finished => .success
  | faulted _ => .fault
  | starved | garbled => .misuse
  | exhausted _ _ => .exhausted

/-- The last line on standard error; a program that finished has none. -/
def lastWords : Verdict → List String
  | finished => []
  | faulted fault => ["runtime error: " ++ fault.message]
  | starved => ["error: input ended while the program was waiting for a value"]
  | garbled => ["error: cannot read input: " ++ notText]
  | exhausted limit place =>
    ["error: step limit of " ++ limit.repr ++ " exceeded at " ++ place.render]

end Verdict

/-! ## §2. Progress. -/

/-- How far a run has come. -/
structure Progress where
  machine : Machine
  /-- The lines on standard error, the last one first. -/
  said : List String := []
  /-- The number of steps asked of the machine. -/
  calls : Nat := 0

namespace Progress

/-- Takes a line of input for the `INPUT` that waits; one that is no number is
reported, and the `INPUT` waits on. -/
def offer (p : Progress) : InputLine → Except Verdict Progress
  | .garbled => .error .garbled
  | .text line =>
    let word := Text.trim line
    match readNumber? word with
    | some value => .ok { p with machine := (p.machine.provide value).machine }
    | none => .ok { p with said := ("invalid number '" ++ word ++ "', try again") :: p.said }

/-- Answers the `INPUT` that waits, if one does, from the lines of input; the
lines that are not needed are left.  With them comes the verdict if there is no
answer. -/
def answer (p : Progress) : List InputLine → Progress × List InputLine × Option Verdict
  | [] => (p, [], if p.machine.isWaiting then some .starved else none)
  | line :: rest =>
    if p.machine.isWaiting then
      match p.offer line with
      | .error verdict => (p, rest, some verdict)
      | .ok p => p.answer rest
    else (p, line :: rest, none)

/-- Makes one step; the answer tells how it went. -/
def step (p : Progress) (strategy : Strategy) : Progress × Reply :=
  let r := p.machine.step strategy
  ( { machine := r.machine, said := r.announced.reverse ++ p.said, calls := p.calls + 1 },
    r.reply )

/-- Answers and steps until the run ends; `budget` of the `limit` steps are left. -/
def drive (strategy : Strategy) (limit : Nat) :
    (budget : Nat) → Progress → List InputLine → Progress × Verdict
  | 0, p, input =>
    match p.answer input with
    | (p, _, some verdict) => (p, verdict)
    | (p, _, none) => (p, .exhausted limit p.machine.cursor)
  | budget + 1, p, input =>
    match p.answer input with
    | (p, _, some verdict) => (p, verdict)
    | (p, input, none) =>
      match p.step strategy with
      | (p, .failed fault) => (p, .faulted fault)
      | (p, .stepped) => drive strategy limit budget p input
      | (p, _) => (p, .finished)

end Progress

/-! ## §3. Whole runs. -/

/-- A run of at most `limit` steps. -/
def run (p : Program) (strategy : Strategy) (limit : Nat) (input : List InputLine) :
    Progress × Verdict :=
  let loaded := ((Machine.load {} p).machine.listen true).machine
  let r := loaded.start
  match r.reply with
  | .failed fault => ({ machine := r.machine }, .faulted fault)
  | _ => Progress.drive strategy limit limit { machine := r.machine } input

/-- What a run writes: the values only if the program finished. -/
def report : Progress × Verdict → Report
  | (p, verdict) =>
    { ending := verdict.ending,
      out := if verdict = .finished then p.machine.values.map writeNumber else [],
      err := p.said.reverse ++ verdict.lastWords }

end StackCalc.Console.Run
