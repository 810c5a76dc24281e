/-
  StackCalc.Operation.Basic
  ─────────────────────────
  **OPERATIONS.**

  An operation is an opcode with its argument in the form the machine uses: a
  number for `PUSH`, a prompt for `INPUT`, a name for `LABEL`, `GOTO` and `CALL`.

      ofParts      an opcode and the text of an argument, decoded
      argument?    the argument as text
      render       the operation as it stands in a listing

  Decoding is lax where the stored form is: a missing number is zero, a missing
  text is empty, and an argument that does not belong to the opcode is ignored.
-/
import StackCalc.Decimal.Shortest
import StackCalc.Operation.Opcode
import StackCalc.Text.Blank
import StackCalc.Text.Quoted

namespace StackCalc

/-! ## §1. Operations. -/

/-- One thing for the machine to do.  Two operations are compared (`==`) by the
numerical equality of their literals, so that `PUSH 0` equals `PUSH -0` and
`PUSH NaN` differs from itself. -/
inductive Operation where
  /-- Put `value` on the stack. -/
  | push (value : Float)
  | add
  | sub
  | mul
  | div
  | sin
  | cos
  | tan
  | dup
  /-- Ask for a value, showing `prompt`. -/
  | input (prompt : String)
  /-- Name this position. -/
  | label (name : String)
  /-- Go on at the position called `name`. -/
  | goto (name : String)
  /-- Enter the routine called `name`. -/
  | call (name : String)
  deriving BEq, Repr

/-- Why a stored operation cannot be decoded. -/
inductive DecodeError where
  /-- `tag` is no mnemonic. -/
  | unknownOpcode (tag : String)
  /-- The argument `text` of a `PUSH` is no number. -/
  | invalidNumber (text : String)
  deriving DecidableEq, Repr

/-- The report of a decoding error. -/
def DecodeError.message : DecodeError → String
  | unknownOpcode tag => "unknown instruction type '" ++ tag ++ "'"
  | invalidNumber text => "invalid number '" ++ text ++ "'"

namespace Operation

/-- The opcode of an operation. -/
def opcode : Operation → Opcode
  | push _ => .push
  | add => .add
  | sub => .sub
  | mul => .mul
  | div => .div
  | sin => .sin
  | cos => .cos
  | tan => .tan
  | dup => .dup
  | input _ => .input
  | label _ => .label
  | goto _ => .goto
  | call _ => .call

/-! ## §2. Decoding. -/

/-- The literal of a `PUSH`: the number that the argument spells, blanks around
it aside, and zero without an argument. -/
def literal : Option String → Except DecodeError Float
  | none => .ok 0
  | some text =>
    match readNumber? (Text.trim text) with
    | some x => .ok x
    | none => .error (.invalidNumber text)

/-- The operation that an opcode and an argument describe. -/
def ofParts (o : Opcode) (argument : Option String) : Except DecodeError Operation :=
  match o with
  | .push => (literal argument).map push
  | .add => .ok add
  | .sub => .ok sub
  | .mul => .ok mul
  | .div => .ok div
  | .sin => .ok sin
  | .cos => .ok cos
  | .tan => .ok tan
  | .dup => .ok dup
  | .input => .ok (input (argument.getD ""))
  | .label => .ok (label (argument.getD ""))
  | .goto => .ok (goto (argument.getD ""))
  | .call => .ok (call (argument.getD ""))

/-! ## §3. Text. -/

/-- The argument of an operation as text, if one belongs to its opcode. -/
def argument? : Operation → Option String
  | push value => some (writeNumber value)
  | input text | label text | goto text | call text => some text
  | _ => none

/-- The operation as it stands in a listing: the mnemonic and, after a space,
the argument, which is quoted if it is a prompt. -/
def render : Operation → String
  | push value => Opcode.push.mnemonic ++ " " ++ writeNumber value
  | input prompt => Opcode.input.mnemonic ++ " " ++ Text.quote prompt
  | label name => Opcode.label.mnemonic ++ " " ++ name
  | goto name => Opcode.goto.mnemonic ++ " " ++ name
  | call name => Opcode.call.mnemonic ++ " " ++ name
  | plain => plain.opcode.mnemonic

end Operation

end StackCalc
