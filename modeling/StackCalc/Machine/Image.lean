/-
  StackCalc.Machine.Image
  ───────────────────────
  **THE PROGRAM AS THE MACHINE RUNS IT.**

  An image has a body for each name of a routine, in the order in which the names
  first occur, and the position of each label.  It is built from any stored
  program:

    • of the routines with one name the first counts;
    • each routine takes the instructions that carry its id, so of the routines
      that count and share an id the first takes them all;
    • a body is ordered by position;
    • labels form one space of names for the whole program, and of the labels
      with one name the last counts, going through the bodies in order.
-/
import StackCalc.Program.Basic

namespace StackCalc

/-! ## §1. Images. -/

/-- A program that can be run. -/
structure Image where
  /-- The names of the routines and their bodies, in the order of the names. -/
  bodies : List (String × List Instruction)
  /-- The labels and their positions, the last one first. -/
  labels : List (String × Nat)
  deriving Repr

namespace Image

/-- The names of the routines. -/
def names (m : Image) : List String :=
  m.bodies.map (·.1)

/-- The body of a routine. -/
def body? (m : Image) (name : String) : Option (List Instruction) :=
  m.bodies.lookup name

/-- Whether there is a routine of this name. -/
def contains (m : Image) (name : String) : Bool :=
  (m.body? name).isSome

/-- The position that a label names. -/
def label? (m : Image) (name : String) : Option Nat :=
  m.labels.lookup name

/-- Whether there is no routine. -/
def isEmpty (m : Image) : Bool :=
  m.bodies.isEmpty

/-! ## §2. Building an image. -/

/-- The bodies of `routines`, which take their instructions from `code`; the
names in `seen` have one already. -/
def bodiesOf (seen : List String) (code : List Instruction) :
    List Routine → List (String × List Instruction)
  | [] => []
  | r :: rs =>
    if r.name ∈ seen then bodiesOf seen code rs
    else
      (r.name, byPosition (code.filter fun i => i.owner = r.id))
        :: bodiesOf (r.name :: seen) (code.filter fun i => i.owner ≠ r.id) rs

/-- The label that an instruction defines. -/
def labelOf? (i : Instruction) : Option (String × Nat) :=
  match i.operation with
  | .label name => some (name, i.position)
  | _ => none

/-- The labels of the bodies, in order. -/
def labelsOf (bodies : List (String × List Instruction)) : List (String × Nat) :=
  bodies.flatMap fun b => b.2.filterMap labelOf?

/-- The image of a stored program. -/
def ofProgram (p : Program) : Image :=
  let bodies := bodiesOf [] p.instructions p.routines
  { bodies, labels := (labelsOf bodies).reverse }

end Image

end StackCalc
