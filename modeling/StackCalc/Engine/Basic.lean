/-
  StackCalc.Engine.Basic
  ──────────────────────
  **THE ENGINE UNDER THE MACHINE.**

  The engine does what the machine does, in smaller pieces.  Where the machine is in
  one phase, the engine has three flags and a prompt,

      started    running    blocked    pending,

  each of them set on its own.  Where the machine carries out an operation at once,
  the engine counts its values, takes them off the stack and puts the result on it,
  one after another, and each of these may fail.

  What an engine does is an action (`Engine.Action`).  An action that fails leaves the
  engine as it is at that moment: nothing that was done before is undone.

  This module has the state of the engine and its actions on values, questions and
  calls; `StackCalc.Engine.Step` has the steps that are made of them.
-/
import StackCalc.Machine.History

namespace StackCalc

/-! ## §1. State. -/

/-- The state of the engine. -/
structure Engine where
  /-- The program, once one is loaded. -/
  image : Option Image := none
  /-- The values, the topmost first. -/
  stack : List Float := []
  /-- The calls that are open, the innermost first, each by the place of its
  `CALL`. -/
  frames : List Location := []
  /-- The routine of the next instruction. -/
  routine : String := entryName
  /-- The position of the next instruction. -/
  position : Nat := 0
  /-- Whether a run has begun and not finished. -/
  running : Bool := false
  /-- Whether an `INPUT` waits for a value. -/
  blocked : Bool := false
  /-- Whether the program that is loaded was started. -/
  started : Bool := false
  /-- The prompt of the `INPUT` that waits for a value. -/
  pending : Option String := none
  /-- Whether there is a listener. -/
  listening : Bool := false
  /-- The prompts that listeners have heard, in order. -/
  heard : List String := []

/-- How far a run has come, as clients see it. -/
inductive Status where
  | notStarted
  | running
  | blocked
  | finished
  deriving DecidableEq, Repr

/-- What a request that does not fail comes to. -/
inductive Outcome where
  /-- A request other than a step was carried out. -/
  | done
  /-- A step was made, or the engine waits for a value. -/
  | stepped
  /-- The step left the first routine, and the run is over. -/
  | finished
  /-- There was no step to make, since no run is going on. -/
  | idle
  deriving DecidableEq, Repr

namespace Engine

/-- The place of the next instruction. -/
def cursor (e : Engine) : Location :=
  ⟨e.routine, e.position⟩

/-- The status is read off the flags in this order. -/
def status (e : Engine) : Status :=
  if e.started = false then .notStarted
  else if e.blocked then .blocked
  else if e.running then .running
  else .finished

/-- Something that an engine does.  It has a result or fails, and it leaves an engine
in both cases. -/
abbrev Action (α : Type) := EStateM Fault Engine α

/-! ## §2. Values. -/

/-- Puts a value on the stack. -/
def push (value : Float) : Action Unit :=
  modify fun e => { e with stack := value :: e.stack }

/-- Fails unless the stack holds the values that the opcode needs. -/
def require (opcode : Opcode) : Action Unit := do
  let e ← get
  if e.stack.length < opcode.arity then throw (.stackUnderflow opcode e.cursor)

/-- Takes the topmost value off the stack, for an operation with this opcode. -/
def pop (opcode : Opcode) : Action Float := do
  let e ← get
  match e.stack with
  | [] => throw (.stackUnderflow opcode e.cursor)
  | value :: stack =>
    set { e with stack }
    return value

/-- Replaces the two topmost values, `a` on `b`, by `f b a`. -/
def binary (opcode : Opcode) (f : Float → Float → Float) : Action Unit := do
  require opcode
  let a ← pop opcode
  let b ← pop opcode
  push (f b a)

/-- Replaces the topmost value. -/
def unary (opcode : Opcode) (f : Float → Float) : Action Unit := do
  require opcode
  let a ← pop opcode
  push (f a)

/-- Divides, unless the divisor is zero.  The divisor is looked at before it is taken
off the stack, so that the values are counted here, and in `binary` again. -/
def divide : Action Unit := do
  require .div
  let e ← get
  if e.stack.head?.any (· == 0) then throw (.divisionByZero e.cursor)
  else binary .div fun b a => b / a

/-- Repeats the topmost value. -/
def duplicate : Action Unit := do
  require .dup
  let a ← pop .dup
  push a
  push a

/-! ## §3. Questions. -/

/-- Asks for a value, also the listener if there is one. -/
def ask (prompt : String) : Action Unit := do
  modify fun e => { e with blocked := true }
  modify fun e => { e with pending := some prompt }
  if (← get).listening then modify fun e => { e with heard := e.heard ++ [prompt] }

/-- Takes the value that an `INPUT` waits for. -/
def provide (value : Float) : Action Unit := do
  if (← get).blocked then
    modify fun e => { e with blocked := false }
    modify fun e => { e with pending := none }
    push value
  else throw .notAwaitingInput

/-! ## §4. Calls. -/

/-- The position that a label names. -/
def target (name : String) : Action Nat := do
  let e ← get
  match e.image.bind (·.label? name) with
  | none => throw (.unknownLabel name e.cursor)
  | some position => return position

/-- Opens a call. -/
def enter (name : String) : Action Unit := do
  let e ← get
  if e.image.any (·.contains name) then
    modify fun e => { e with frames := e.cursor :: e.frames, routine := name }
    modify fun e => { e with position := 0 }
  else throw (.unknownRoutine name e.cursor)

/-- Returns after the call that is open, or ends the run if none is. -/
def leave : Action Outcome := do
  match (← get).frames with
  | [] =>
    modify fun e => { e with running := false }
    return .finished
  | frame :: frames =>
    modify fun e => { e with frames }
    modify fun e => { e with routine := frame.routine }
    modify fun e => { e with position := frame.position + 1 }
    return .stepped

end Engine

end StackCalc
