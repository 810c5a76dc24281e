/-
  StackCalc.Machine.Basic
  ───────────────────────
  **THE MACHINE.**

  The machine holds an image, a stack of values, a stack of calls and a cursor,
  and goes through four phases:

      ready ──start──▶ running ──INPUT──▶ waiting
                        │  ▲                │
                 end of main └───provide────┘
                        ▼
                     finished

  This module has its state, what can be seen of it, and the form of its answers;
  `StackCalc.Machine.Step` has what it does.  Under the machine there is an engine that
  keeps the phase in separate flags and works in smaller pieces (`StackCalc.Engine.Basic`);
  both answer alike (`StackCalc.Proofs.Engine.Refinement`).
-/
import StackCalc.Machine.Fault
import StackCalc.Machine.Image

namespace StackCalc

/-! ## §1. State. -/

/-- How far a run has come. -/
inductive Phase where
  /-- No run has begun since the last program was loaded. -/
  | ready
  /-- The next step carries out an instruction or leaves a routine. -/
  | running
  /-- An `INPUT` with this prompt waits for its value. -/
  | waiting (prompt : String)
  /-- The first routine was left. -/
  | finished
  deriving DecidableEq, Repr

/-- The name of the routine with which a run begins. -/
def entryName : String := "main"

/-- Where a run begins. -/
def entry : Location := ⟨entryName, 0⟩

/-- The state of the machine. -/
structure Machine where
  /-- The program, once one is loaded. -/
  image : Option Image := none
  phase : Phase := .ready
  /-- The values, the topmost first. -/
  stack : List Float := []
  /-- The calls that are open, the innermost first, each by the place of its
  `CALL`. -/
  frames : List Location := []
  /-- The place of the next instruction. -/
  cursor : Location := entry
  /-- Whether prompts are announced to a listener. -/
  listening : Bool := false

namespace Machine

/-! ## §2. What can be seen. -/

/-- Whether a run has begun and not finished; it may be waiting. -/
def isRunning (m : Machine) : Bool :=
  match m.phase with
  | .running | .waiting _ => true
  | .ready | .finished => false

/-- The prompt of the `INPUT` that waits for a value. -/
def pending? (m : Machine) : Option String :=
  match m.phase with
  | .waiting prompt => some prompt
  | _ => none

/-- Whether an `INPUT` waits for a value. -/
def isWaiting (m : Machine) : Bool :=
  m.pending?.isSome

/-- The body of the routine at the cursor. -/
def body? (m : Machine) : Option (List Instruction) :=
  m.image.bind fun image => image.body? m.cursor.routine

/-- The instruction at the cursor; none past the end of a routine. -/
def current? (m : Machine) : Option Instruction :=
  m.body?.bind fun body => body[m.cursor.position]?

/-- The values, the bottom one first. -/
def values (m : Machine) : List Float :=
  m.stack.reverse

/-- The open calls, the outermost first. -/
def callers (m : Machine) : List Location :=
  m.frames.reverse

end Machine

/-! ## §3. Answers. -/

/-- What the machine answers to a request. -/
inductive Reply where
  /-- A request other than a step was carried out. -/
  | done
  /-- A step was made, or the machine waits for a value. -/
  | stepped
  /-- The step left the first routine, and the run is over. -/
  | finished
  /-- There was no step to make, since no run is going on. -/
  | idle
  /-- The request failed. -/
  | failed (fault : Fault)
  deriving DecidableEq, Repr

/-- The outcome of a request: the machine after it, the answer, and the prompts
that were announced to the listener. -/
structure Response where
  machine : Machine
  reply : Reply
  announced : List String := []

namespace Machine

/-- The request fails, and the machine stays as it is. -/
def fail (m : Machine) (fault : Fault) : Response :=
  { machine := m, reply := .failed fault }

/-- The request was carried out and left the machine in this state. -/
def done (m : Machine) : Response :=
  { machine := m, reply := .done }

/-- The step left the machine in this state. -/
def stepped (m : Machine) : Response :=
  { machine := m, reply := .stepped }

end Machine

end StackCalc
