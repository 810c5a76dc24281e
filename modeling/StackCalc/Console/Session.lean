/-
  StackCalc.Console.Session
  ─────────────────────────
  **STEPPING THROUGH A PROGRAM.**

  A session takes one command from each line of input and shows where the program
  stands.  The first word of a line is the command:

      s, step      n, next      i, input <v>
      stack        where        help            q, quit

  A fault is shown and changes nothing, so the program can be looked at and the
  step tried again.  The session is over at `q`, at the end of the input, and at a
  line that is no text.
-/
import StackCalc.Console.InputLine
import StackCalc.Machine.Step

namespace StackCalc.Console.Session

/-! ## §1. Commands. -/

/-- What a line asks for. -/
inductive Command where
  /-- Nothing: the line has no words. -/
  | blank
  | step (strategy : Strategy)
  /-- Answer an `INPUT`. -/
  | provide (value : Float)
  /-- Answer an `INPUT` with a word that is no number. -/
  | provideWord
  /-- Answer an `INPUT` with nothing. -/
  | provideNothing
  /-- Show the values. -/
  | stack
  /-- Show the open calls and the cursor. -/
  | place
  /-- List the commands. -/
  | help
  | quit
  | unknown (word : String)
  deriving Repr

namespace Command

/-- The command to answer an `INPUT` with the words after it, of which the first
counts. -/
def ofValue : List String → Command
  | [] => provideNothing
  | word :: _ =>
    match readNumber? word with
    | some value => provide value
    | none => provideWord

/-- The command that a line gives. -/
def ofLine (line : String) : Command :=
  match Text.words line with
  | [] => blank
  | word :: rest =>
    if word = "s" ∨ word = "step" then step .into
    else if word = "n" ∨ word = "next" then step .over
    else if word = "i" ∨ word = "input" then ofValue rest
    else if word = "stack" then stack
    else if word = "where" then place
    else if word = "help" then help
    else if word = "q" ∨ word = "quit" then quit
    else unknown word

end Command

/-! ## §2. What is shown. -/

/-- The values, the bottom one first. -/
def stackLine (m : Machine) : String :=
  "stack: [" ++ ", ".intercalate (m.values.map writeNumber) ++ "]"

/-- The cursor and the instruction there. -/
def cursorLine (m : Machine) : String :=
  let shown :=
    match m.current? with
    | some i => i.operation.render
    | none => "<end of function>"
  m.cursor.render ++ "  " ++ shown

/-- Where the program stands: the cursor, the values and the prompt that waits
for a value. -/
def view (m : Machine) : List String :=
  let pending :=
    match m.pending? with
    | some prompt => ["waiting for input: " ++ prompt]
    | none => []
  cursorLine m :: stackLine m :: pending

/-- The open calls, the outermost first, and the cursor. -/
def placeLines (m : Machine) : List String :=
  m.callers.map (fun frame => "  called from " ++ frame.render)
    ++ ["  at " ++ m.cursor.render]

/-- The commands. -/
def helpLines : List String :=
  [ "commands:",
    "  s, step          step into",
    "  n, next          step over",
    "  i, input <v>     answer a pending INPUT",
    "  stack            print the value stack",
    "  where            print the call stack and cursor",
    "  help             list commands",
    "  q, quit          end the session" ]

/-- What is shown of a response. -/
def responseLines (r : Response) : List String :=
  match r.reply with
  | .done | .stepped => view r.machine
  | .finished => ["finished", stackLine r.machine]
  | .idle => ["program is not running"]
  | .failed fault => ["error: " ++ fault.message]

/-! ## §3. Turns. -/

/-- What becomes of a session after a line of input. -/
inductive Turn where
  /-- The session goes on, after these lines were written. -/
  | goOn (machine : Machine) (out : List String)
  /-- The session is over. -/
  | over
  /-- The line was no text. -/
  | garbled

/-- The session goes on with the machine of a response. -/
def Turn.ofResponse (r : Response) : Turn :=
  .goOn r.machine (responseLines r)

/-- Carries out a command. -/
def obey (m : Machine) : Command → Turn
  | .blank => .goOn m []
  | .step strategy => .ofResponse (m.step strategy)
  | .provide value => .ofResponse (m.provide value)
  | .provideWord => .goOn m ["invalid number, try again"]
  | .provideNothing => .goOn m ["usage: input <value>"]
  | .stack => .goOn m [stackLine m]
  | .place => .goOn m (placeLines m)
  | .help => .goOn m helpLines
  | .quit => .over
  | .unknown word => .goOn m ["unknown command '" ++ word ++ "' (try 'help')"]

/-- Takes a line of input. -/
def hear (m : Machine) : InputLine → Turn
  | .text line => obey m (Command.ofLine line)
  | .garbled => .garbled

/-! ## §4. Whole sessions. -/

/-- A session from its first line to its last. -/
structure Transcript where
  /-- The lines written. -/
  out : List String
  /-- The machine at the end. -/
  machine : Machine
  /-- Whether a line that is no text ended the session. -/
  garbled : Bool := false

/-- The session that takes its commands from the given lines. -/
def converse (m : Machine) : List InputLine → Transcript
  | [] => { out := [], machine := m }
  | line :: rest =>
    match hear m line with
    | .over => { out := [], machine := m }
    | .garbled => { out := [], machine := m, garbled := true }
    | .goOn next out =>
      let t := converse next rest
      { t with out := out ++ t.out }

/-- A session over a program: the program is started, where it stands is shown,
and commands are taken; a program that does not start is a fault. -/
def run (p : Program) (input : List InputLine) : Except Fault Transcript :=
  let r := (Machine.load {} p).machine.start
  match r.reply with
  | .failed fault => .error fault
  | _ =>
    let t := converse r.machine input
    .ok { t with out := view r.machine ++ t.out }

end StackCalc.Console.Session
