/-
  StackCalc.Machine.Step
  ──────────────────────
  **WHAT THE MACHINE DOES.**

  Loading a program discards the run before it, starting one begins at the entry
  with empty stacks, and a step carries out the instruction at the cursor or, past
  the end of a routine, returns to its caller.  A machine that waits for a value
  does not move until the value is provided.

  There are two ways to step.  They differ in the code that handles a `CALL` and
  in nothing else: neither runs the routine that is called to its end.
-/
import StackCalc.Machine.Basic
import StackCalc.Operation.Effect

namespace StackCalc

namespace Machine

/-! ## §1. Loading, starting, providing. -/

/-- A machine at the entry of its program, with empty stacks, in a given phase. -/
def rewound (m : Machine) (phase : Phase) : Machine :=
  { m with phase, stack := [], frames := [], cursor := entry }

/-- Loads a program; whatever the machine was doing is discarded. -/
def load (m : Machine) (p : Program) : Response :=
  done { m.rewound .ready with image := some (Image.ofProgram p) }

/-- Begins a run at the entry. -/
def start (m : Machine) : Response :=
  match m.image with
  | none => m.fail .noProgram
  | some image =>
    if image.isEmpty then m.fail .noProgram
    else if image.contains entryName then done (m.rewound .running)
    else m.fail .noMain

/-- Gives the value that an `INPUT` waits for. -/
def provide (m : Machine) (value : Float) : Response :=
  match m.phase with
  | .waiting _ => done { m with phase := .running, stack := value :: m.stack }
  | _ => m.fail .notAwaitingInput

/-- Begins or ends to announce prompts. -/
def listen (m : Machine) (on : Bool) : Response :=
  done { m with listening := on }

/-! ## §2. Carrying out an instruction. -/

/-- Goes on at the next position. -/
def advance (m : Machine) : Machine :=
  { m with cursor := m.cursor.next }

/-- Asks for a value and goes on at the next position once it is there. -/
def ask (m : Machine) (prompt : String) : Response where
  machine := { m.advance with phase := .waiting prompt }
  reply := .stepped
  announced := if m.listening then [prompt] else []

/-- Goes on at a label, in the routine at the cursor. -/
def jump (m : Machine) (image : Image) (name : String) : Response :=
  match image.label? name with
  | none => m.fail (.unknownLabel name m.cursor)
  | some position => stepped { m with cursor := { m.cursor with position } }

/-- Opens a call. -/
def enter (m : Machine) (image : Image) (name : String) : Response :=
  if image.contains name then
    stepped { m with frames := m.cursor :: m.frames, cursor := ⟨name, 0⟩ }
  else m.fail (.unknownRoutine name m.cursor)

/-- Returns after the call that is open, or ends the run if none is. -/
def leave (m : Machine) : Response :=
  match m.frames with
  | [] => { machine := { m with phase := .finished }, reply := .finished }
  | frame :: frames => stepped { m with frames, cursor := frame.next }

/-- Carries out an operation.  That the stack holds enough values is checked
first, and that a divisor is not zero next. -/
def execute (m : Machine) (image : Image) (op : Operation) : Response :=
  match op.effect? m.stack with
  | none => m.fail (.stackUnderflow op.opcode m.cursor)
  | some stack =>
    if op.dividesByZero m.stack then m.fail (.divisionByZero m.cursor)
    else
      match op with
      | .input prompt => m.ask prompt
      | .goto name => m.jump image name
      | .call name => m.enter image name
      | _ => stepped { m.advance with stack }

/-! ## §3. Steps. -/

/-- One step, with a given way to carry out the operation at the cursor. -/
def stepWith (m : Machine) (carryOut : Image → Operation → Response) : Response :=
  match m.phase with
  | .ready | .finished => { machine := m, reply := .idle }
  | .waiting _ => m.stepped
  | .running =>
    match m.image with
    | none => m.fail .noProgram
    | some image =>
      match image.body? m.cursor.routine with
      | none => m.fail (.unknownRoutine m.cursor.routine m.cursor)
      | some body =>
        match body[m.cursor.position]? with
        | none => m.leave
        | some i => carryOut image i.operation

/-- A step that follows calls. -/
def stepInto (m : Machine) : Response :=
  m.stepWith m.execute

/-- A step that treats a call as an instruction of its own kind. -/
def stepOver (m : Machine) : Response :=
  m.stepWith fun image op =>
    match op with
    | .call name => m.enter image name
    | op => m.execute image op

end Machine

/-- The two ways to step. -/
inductive Strategy where
  | into
  | over
  deriving DecidableEq, Repr

namespace Machine

/-- One step in a given way. -/
def step (m : Machine) : Strategy → Response
  | .into => m.stepInto
  | .over => m.stepOver

/-! ## §4. Many steps. -/

/-- The outcome of a number of steps in a row. -/
structure Burst where
  /-- The machine after the last step. -/
  machine : Machine
  /-- The answer to the last step. -/
  reply : Reply
  /-- The number of steps. -/
  calls : Nat
  /-- The prompts announced by all of them, in order. -/
  announced : List String

/-- Steps once and then up to `more` times again, until the answer is other than
that a step was made. -/
def burst (m : Machine) (strategy : Strategy) (more : Nat) : Burst :=
  go more m 1 []
where
  /-- `calls` counts the step to come, and `announced` holds the prompts so
  far. -/
  go (more : Nat) (m : Machine) (calls : Nat) (announced : List String) : Burst :=
    let r := m.step strategy
    let announced := announced ++ r.announced
    match more with
    | 0 => ⟨r.machine, r.reply, calls, announced⟩
    | more + 1 =>
      if r.reply = .stepped then go more r.machine (calls + 1) announced
      else ⟨r.machine, r.reply, calls, announced⟩

end Machine

end StackCalc
