/-
  StackCalc.Program.Basic
  ───────────────────────
  **STORED PROGRAMS.**

  A program is stored as two lists of rows: the routines, each with an id and a
  name, and the instructions, each with the id of the routine that owns it and
  its position there.  Nothing is required of the rows: names and ids may repeat,
  positions may have gaps or repeat, instructions may have no owner, and the rows
  may stand in any order.

      routine? name   the first routine of a name
      body r          the instructions that `r` owns, by position
-/
import StackCalc.Operation.Basic

namespace StackCalc

/-! ## §1. Rows. -/

/-- A named routine. -/
structure Routine where
  id : Int
  name : String
  deriving DecidableEq, Repr

/-- One instruction of a routine. -/
structure Instruction where
  id : Int
  /-- The id of the routine that the instruction belongs to. -/
  owner : Int
  /-- Where the instruction stands in its routine. -/
  position : Nat
  operation : Operation
  deriving BEq, Repr

/-- A stored program. -/
structure Program where
  routines : List Routine
  instructions : List Instruction
  deriving BEq, Repr

/-! ## §2. Order by position. -/

/-- Whether one instruction may stand before another. -/
def Instruction.notAfter (i j : Instruction) : Bool :=
  i.position ≤ j.position

/-- Instructions by ascending position; those with equal positions keep their
order. -/
def byPosition (code : List Instruction) : List Instruction :=
  code.mergeSort Instruction.notAfter

namespace Program

/-! ## §3. Look-up. -/

/-- The first routine of a name. -/
def routine? (p : Program) (name : String) : Option Routine :=
  p.routines.find? fun r => r.name = name

/-- The instructions that a routine owns, by position. -/
def body (p : Program) (r : Routine) : List Instruction :=
  byPosition (p.instructions.filter fun i => i.owner = r.id)

/-- The number of instructions, those without an owner included. -/
def size (p : Program) : Nat :=
  p.instructions.length

/-- Whether the program has no instruction. -/
def isEmpty (p : Program) : Bool :=
  p.instructions.isEmpty

end Program

end StackCalc
