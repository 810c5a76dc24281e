/-
  StackCalc.Machine.Fault
  ───────────────────────
  **WHAT CAN GO WRONG WHILE A PROGRAM RUNS.**

  Nothing about a program is checked before it runs.  What is wrong with it shows
  when it starts or when an instruction is carried out; in the second case the
  fault says where.
-/
import StackCalc.Operation.Opcode

namespace StackCalc

/-! ## §1. Locations. -/

/-- A place in a program: a routine and a position in its body. -/
structure Location where
  routine : String
  position : Nat
  deriving DecidableEq, Repr

namespace Location

/-- A location as reports name it. -/
def render (l : Location) : String :=
  l.routine ++ ":" ++ l.position.repr

/-- The place after this one. -/
def next (l : Location) : Location :=
  { l with position := l.position + 1 }

end Location

/-! ## §2. Faults. -/

/-- Why a request to the machine fails. -/
inductive Fault where
  /-- There is no routine to run. -/
  | noProgram
  /-- There is no routine to begin with. -/
  | noMain
  /-- The stack holds fewer values than the opcode needs. -/
  | stackUnderflow (opcode : Opcode) (place : Location)
  /-- The divisor is zero. -/
  | divisionByZero (place : Location)
  /-- No label has the name that a `GOTO` gives. -/
  | unknownLabel (name : String) (place : Location)
  /-- No routine has the name that a `CALL` gives. -/
  | unknownRoutine (name : String) (place : Location)
  /-- A value is given that was not asked for. -/
  | notAwaitingInput
  deriving DecidableEq, Repr

/-- The report of a fault. -/
def Fault.message : Fault → String
  | noProgram => "no program loaded"
  | noMain => "no 'main' function found"
  | stackUnderflow opcode place =>
    "not enough values on stack for " ++ opcode.mnemonic ++ " at " ++ place.render
  | divisionByZero place => "division by zero at " ++ place.render
  | unknownLabel name place => "label not found: '" ++ name ++ "' at " ++ place.render
  | unknownRoutine name place =>
    "function not found: '" ++ name ++ "' at " ++ place.render
  | notAwaitingInput => "engine is not waiting for input"

end StackCalc
