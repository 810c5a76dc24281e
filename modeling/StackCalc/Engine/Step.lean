/-
  StackCalc.Engine.Step
  ─────────────────────
  **WHAT THE ENGINE DOES.**

  A step fetches the instruction at the cursor, carries out its operation, and then
  moves the cursor as the operation says (`Engine.Flow`).  Requests and replies are those
  of the machine.
-/
import StackCalc.Engine.Basic

namespace StackCalc

namespace Engine

/-! ## §1. Carrying out an operation. -/

/-- How the cursor moves after an operation. -/
inductive Flow where
  /-- On to the next position. -/
  | next
  /-- To this position of the same routine. -/
  | jump (position : Nat)
  /-- It has moved already, to the routine that was called. -/
  | entered
  deriving DecidableEq, Repr

/-- Carries out an operation, except that the cursor stays unless it is a `CALL`. -/
def execute : Operation → Action Flow
  | .push value => do push value; return .next
  | .add => do binary .add (fun b a => b + a); return .next
  | .sub => do binary .sub (fun b a => b - a); return .next
  | .mul => do binary .mul (fun b a => b * a); return .next
  | .div => do divide; return .next
  | .sin => do unary .sin Float.sin; return .next
  | .cos => do unary .cos Float.cos; return .next
  | .tan => do unary .tan Float.tan; return .next
  | .dup => do duplicate; return .next
  | .input prompt => do ask prompt; return .next
  | .label _ => return .next
  | .goto name => do return .jump (← target name)
  | .call name => do enter name; return .entered

/-- Moves the cursor. -/
def advance : Flow → Action Unit
  | .next => modify fun e => { e with position := e.position + 1 }
  | .jump position => modify fun e => { e with position }
  | .entered => return

/-- Carries out an operation and moves the cursor. -/
def perform (op : Operation) : Action Unit := do
  advance (← execute op)

/-! ## §2. Steps. -/

/-- The instruction at the cursor; none past the end of a routine. -/
def fetch : Action (Option Instruction) := do
  let e ← get
  match e.image with
  | none => throw .noProgram
  | some image =>
    match image.body? e.routine with
    | none => throw (.unknownRoutine e.routine e.cursor)
    | some body => return body[e.position]?

/-- One step, with a given way to carry out the operation at the cursor. -/
def stepWith (carryOut : Operation → Action Unit) : Action Outcome := do
  let e ← get
  if e.running = false then return .idle
  else if e.blocked then return .stepped
  else
    match ← fetch with
    | none => leave
    | some i =>
      carryOut i.operation
      return .stepped

/-- A step that follows calls. -/
def stepInto : Action Outcome :=
  stepWith perform

/-- A step that treats a call as an instruction of its own kind. -/
def stepOver : Action Outcome :=
  stepWith fun
    | .call name => enter name
    | op => perform op

/-! ## §3. Requests and histories. -/

/-- Loads a program; whatever the engine was doing is discarded. -/
def load (p : Program) : Action Unit :=
  modify fun e =>
    { e with
      image := some (Image.ofProgram p), stack := [], frames := [], routine := entryName,
      position := 0, running := false, blocked := false, started := false, pending := none }

/-- Begins a run at the entry. -/
def start : Action Unit := do
  match (← get).image with
  | none => throw .noProgram
  | some image =>
    if image.isEmpty then throw .noProgram
    else if image.contains entryName then
      modify fun e =>
        { e with
          stack := [], frames := [], routine := entryName, position := 0, running := true,
          blocked := false, started := true, pending := none }
    else throw .noMain

/-- A listener comes or goes. -/
def listen (on : Bool) : Action Unit :=
  modify fun e => { e with listening := on }

/-- What is done on a request. -/
def serve : Request → Action Outcome
  | .load program => do load program; return .done
  | .start => do start; return .done
  | .step .into => stepInto
  | .step .over => stepOver
  | .provide value => do provide value; return .done
  | .listen on => do listen on; return .done

/-- The reply that tells an outcome. -/
def replyOf : Outcome → Reply
  | .done => .done
  | .stepped => .stepped
  | .finished => .finished
  | .idle => .idle

/-- The answer to a request: the engine after it, also after a failure, and the
reply. -/
structure Answer where
  engine : Engine
  reply : Reply

/-- The answer that tells what an action came to. -/
def Answer.of : EStateM.Result Fault Engine Outcome → Answer
  | .ok outcome e => ⟨e, replyOf outcome⟩
  | .error fault e => ⟨e, .failed fault⟩

/-- The engine answers a request. -/
def handle (e : Engine) (r : Request) : Answer :=
  .of ((serve r).run e)

/-- The engine after a history. -/
def after (e : Engine) (history : List Request) : Engine :=
  history.foldl (fun e request => (e.handle request).engine) e

/-- The answers to the requests of a history, in order. -/
def answers (e : Engine) : List Request → List Answer
  | [] => []
  | request :: rest =>
    let answer := e.handle request
    answer :: answer.engine.answers rest

/-- The states that a new engine can reach. -/
def Reachable (e : Engine) : Prop :=
  ∃ history, e = after {} history

end Engine

end StackCalc
