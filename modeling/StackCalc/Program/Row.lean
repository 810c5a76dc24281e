/-
  StackCalc.Program.Row
  ─────────────────────
  **THE STORED FORM OF AN INSTRUCTION.**

  A row holds an instruction the way a store keeps it: the mnemonic and the
  argument as texts.  `Instruction.ofRow` decodes a row and `Instruction.toRow`
  gives the canonical row of an instruction.
-/
import StackCalc.Program.Basic

namespace StackCalc

/-! ## §1. Rows. -/

/-- An instruction as it is stored. -/
structure Row where
  id : Int
  owner : Int
  position : Nat
  /-- The mnemonic. -/
  tag : String
  argument : Option String
  deriving DecidableEq, Repr

namespace Instruction

/-! ## §2. Decoding and encoding. -/

/-- The instruction that a row stores.  The mnemonic is looked at before the
argument. -/
def ofRow (r : Row) : Except DecodeError Instruction :=
  match Opcode.ofMnemonic? r.tag with
  | none => .error (.unknownOpcode r.tag)
  | some o =>
    (Operation.ofParts o r.argument).map fun operation =>
      { id := r.id, owner := r.owner, position := r.position, operation }

/-- The canonical row of an instruction. -/
def toRow (i : Instruction) : Row where
  id := i.id
  owner := i.owner
  position := i.position
  tag := i.operation.opcode.mnemonic
  argument := i.operation.argument?

end Instruction

/-! ## §3. Programs from rows. -/

/-- The program that has the given routines and the instructions that the given
rows store, in their order; the first row that cannot be decoded is the error. -/
def Program.ofRows (routines : List Routine) (rows : List Row) :
    Except DecodeError Program :=
  (rows.mapM Instruction.ofRow).map fun instructions => { routines, instructions }

end StackCalc
