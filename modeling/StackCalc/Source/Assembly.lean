/-
  StackCalc.Source.Assembly
  ─────────────────────────
  **ASSEMBLING A SOURCE TEXT.**

  The lines of a text are read from the first to the last, and the program grows
  with them (`Draft`): a header adds a routine, an operation adds an instruction
  to the last routine.  Ids count routines and instructions from one in the order
  of the text, and positions count the instructions of a routine from zero.

  The first line that cannot be read is the error; lines after it are not looked
  at.
-/
import StackCalc.Source.Statement

namespace StackCalc.Source

/-! ## §1. Drafts. -/

/-- The program that the lines read so far describe. -/
structure Draft where
  routines : Array Routine := #[]
  instructions : Array Instruction := #[]
  /-- The position of the next instruction of the last routine. -/
  next : Nat := 0

namespace Draft

/-- The program of a draft. -/
def program (d : Draft) : Program where
  routines := d.routines.toList
  instructions := d.instructions.toList

/-- Opens a routine, unless one of this name exists. -/
def openRoutine (d : Draft) (name : String) : Except Cause Draft :=
  if d.routines.any fun r => r.name = name then .error (.duplicateRoutine name)
  else
    .ok { d with routines := d.routines.push ⟨d.routines.size + 1, name⟩, next := 0 }

/-- Adds an operation to the last routine, if there is one. -/
def addOperation (d : Draft) (op : Operation) : Except Cause Draft :=
  if d.routines.isEmpty then .error .outsideRoutine
  else
    let i : Instruction := ⟨d.instructions.size + 1, d.routines.size, d.next, op⟩
    .ok { d with instructions := d.instructions.push i, next := d.next + 1 }

/-- Adds what a line says. -/
def add (d : Draft) : Option Statement → Except Cause Draft
  | none => .ok d
  | some (.header name) => d.openRoutine name
  | some (.operation op) => d.addOperation op

/-! ## §2. Reading lines. -/

/-- Reads one line. -/
def readLine (d : Draft) (line : String) : Except Cause Draft :=
  match Statement.ofLine line with
  | .error cause => .error cause
  | .ok statement => d.add statement

/-- Reads lines, the first of which has the number `n`. -/
def readLines (d : Draft) (n : Nat) : List String → Except Error Draft
  | [] => .ok d
  | line :: rest =>
    match d.readLine line with
    | .error cause => .error ⟨n, cause⟩
    | .ok d => d.readLines (n + 1) rest

end Draft

/-! ## §3. Texts. -/

/-- The program that a source text describes. -/
def assemble (text : String) : Except Error Program :=
  (({} : Draft).readLines 1 (Text.lines text)).map Draft.program

end StackCalc.Source
