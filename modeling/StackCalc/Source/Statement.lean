/-
  StackCalc.Source.Statement
  ──────────────────────────
  **WHAT A LINE SAYS.**

  A line without tokens says nothing.  Any other line is a header, which opens a
  routine, or an operation; its first token is the word for it, in any case.

      FUNC name
      PUSH number     LABEL name     GOTO name     CALL name
      INPUT prompt    a word or a quoted text
      ADD  SUB  MUL  DIV  SIN  COS  TAN  DUP

  The tokens are checked from left to right, and the form of a number last.
-/
import StackCalc.Operation.Basic
import StackCalc.Program.Listing
import StackCalc.Source.Error
import StackCalc.Source.Token
import StackCalc.Text.Capital

namespace StackCalc.Source

/-! ## §1. Statements. -/

/-- What a line says. -/
inductive Statement where
  /-- Open the routine `name`. -/
  | header (name : String)
  /-- Add an operation to the routine that is open. -/
  | operation (op : Operation)
  deriving BEq, Repr

/-! ## §2. Arguments. -/

/-- Checks that nothing follows. -/
def noToken : List Token → Except Cause Unit
  | [] => .ok ()
  | t :: _ => .error (.unexpectedToken t.spelling)

/-- The one word that has to follow `mnemonic`. -/
def oneWord (mnemonic : String) : List Token → Except Cause String
  | [] => .error (.missingArgument mnemonic)
  | .word s :: rest => (noToken rest).map fun _ => s
  | .quoted s :: _ => .error (.unexpectedToken (Token.quoted s).spelling)

/-- The one token, a word or a quoted text, that has to follow `mnemonic`. -/
def oneText (mnemonic : String) : List Token → Except Cause String
  | [] => .error (.missingArgument mnemonic)
  | t :: rest => (noToken rest).map fun _ => t.text

/-- The argument of an opcode: what has to follow its mnemonic. -/
def argumentOf (o : Opcode) (rest : List Token) : Except Cause (Option String) :=
  match o with
  | .input => (oneText o.mnemonic rest).map some
  | .push | .label | .goto | .call => (oneWord o.mnemonic rest).map some
  | _ => (noToken rest).map fun _ => none

/-! ## §3. Lines. -/

/-- A decoding error as the cause of an error in a line. -/
def Cause.ofDecodeError : DecodeError → Cause
  | .unknownOpcode tag => .unknownInstruction tag
  | .invalidNumber text => .invalidNumber text

/-- The operation that an opcode and the tokens after its mnemonic describe. -/
def operationOf (o : Opcode) (rest : List Token) : Except Cause Operation :=
  match argumentOf o rest with
  | .error cause => .error cause
  | .ok argument => (Operation.ofParts o argument).mapError Cause.ofDecodeError

namespace Statement

/-- What the tokens of a line say; nothing if there are none. -/
def ofTokens : List Token → Except Cause (Option Statement)
  | [] => .ok none
  | .quoted s :: _ => .error (.unexpectedToken (Token.quoted s).spelling)
  | .word s :: rest =>
    if Text.capitals s = headerWord then
      (oneWord headerWord rest).map fun name => some (header name)
    else
      match Opcode.ofMnemonic? (Text.capitals s) with
      | none => .error (.unknownInstruction s)
      | some o => (operationOf o rest).map fun op => some (operation op)

/-- What a line says. -/
def ofLine (line : String) : Except Cause (Option Statement) :=
  match tokens? line with
  | none => .error .unterminatedString
  | some ts => ofTokens ts

end Statement

end StackCalc.Source
