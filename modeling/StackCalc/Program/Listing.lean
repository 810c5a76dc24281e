/-
  StackCalc.Program.Listing
  ─────────────────────────
  **THE LISTING OF A PROGRAM.**

  The listing shows the routines in the order of their rows.  A routine is a
  header and, indented, its instructions by position; an empty line stands before
  every header but the first.  Instructions without an owner are not shown.
-/
import StackCalc.Program.Basic
import StackCalc.Text.Lines

namespace StackCalc

/-! ## §1. Lines. -/

/-- The word that opens a routine in a listing and in a source text. -/
def headerWord : String := "FUNC"

namespace Program

/-- The lines that show one routine. -/
def block (p : Program) (r : Routine) : List String :=
  (headerWord ++ " " ++ r.name) :: (p.body r).map fun i => "  " ++ i.operation.render

/-- The lines of the listing. -/
def listingLines (p : Program) : List String :=
  match p.routines with
  | [] => []
  | r :: rs => p.block r ++ rs.flatMap fun r => "" :: p.block r

/-! ## §2. Text. -/

/-- The listing of a program. -/
def listing (p : Program) : String :=
  Text.unlines p.listingLines

end Program

end StackCalc
