/-
  StackCalc.Console.Folder
  ────────────────────────
  **WHAT A PATH LEADS TO.**

  A folder holds files by name and no other folders.  A path is followed from the
  folder, name by name: an empty name and `.` stay where they are, `..` leaves the
  folder, and outside of it there are folders but no file that is known.
-/
import StackCalc.Console.InputLine

namespace StackCalc.Console

/-! ## §1. Failures. -/

/-- Why a file cannot be read. -/
inductive ReadFailure where
  /-- There is no such file. -/
  | notFound
  /-- The path leads to a folder. -/
  | isFolder
  /-- The path goes on after a file. -/
  | notFolder
  /-- The contents are no UTF-8 text. -/
  | notText
  /-- Another reason that the system gives. -/
  | other (reason : String)
  deriving DecidableEq, Repr

/-- The report of a failure. -/
def ReadFailure.message : ReadFailure → String
  | notFound => "No such file or directory (os error 2)"
  | isFolder => "Is a directory (os error 21)"
  | notFolder => "Not a directory (os error 20)"
  | notText => Console.notText
  | other reason => reason

/-- The text of a file with the given contents. -/
def textOf (contents : List UInt8) : Except ReadFailure String :=
  match decode? contents with
  | some text => .ok text
  | none => .error .notText

/-! ## §2. Folders. -/

/-- The files of a folder. -/
structure Folder where
  files : List (String × List UInt8)

/-- Where a path has led so far. -/
inductive Place where
  /-- The folder itself. -/
  | here
  /-- A folder outside. -/
  | outside
  /-- A file with these contents. -/
  | file (contents : List UInt8)

namespace Folder

/-- Follows one name of a path. -/
def follow (f : Folder) (place : Place) (name : String) : Except ReadFailure Place :=
  match place with
  | .file _ => .error .notFolder
  | .here =>
    if name = "" ∨ name = "." then .ok .here
    else if name = ".." then .ok .outside
    else
      match f.files.lookup name with
      | some contents => .ok (.file contents)
      | none => .error .notFound
  | .outside =>
    if name = "" ∨ name = "." ∨ name = ".." then .ok .outside else .error .notFound

/-- Follows the names of a path. -/
def followAll (f : Folder) (place : Place) : List String → Except ReadFailure Place
  | [] => .ok place
  | name :: rest =>
    match f.follow place name with
    | .error failure => .error failure
    | .ok place => f.followAll place rest

/-- The text of the file that a path leads to. -/
def readText (f : Folder) (path : String) : Except ReadFailure String :=
  let origin := if ['/'].isPrefixOf path.toList then Place.outside else Place.here
  match f.followAll origin (path.splitOn "/") with
  | .error failure => .error failure
  | .ok (.file contents) => textOf contents
  | .ok _ => .error .isFolder

end Folder

end StackCalc.Console
