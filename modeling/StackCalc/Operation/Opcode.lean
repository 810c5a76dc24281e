/-
  StackCalc.Operation.Opcode
  ──────────────────────────
  **THE THIRTEEN OPCODES.**

  An opcode has a mnemonic, which is unique, says whether an argument belongs to
  it, and how many values it needs on the stack.  A mnemonic is looked up exactly
  as it is written, in capital letters; whoever accepts other spellings turns
  them into capitals first.

      ofMnemonic? s = some o   ↔   o.mnemonic = s
-/

namespace StackCalc

/-! ## §1. The opcodes. -/

/-- What kind of thing an operation does. -/
inductive Opcode where
  /-- Put a number on the stack. -/
  | push
  /-- Add the two topmost values. -/
  | add
  /-- Subtract the topmost value from the one below it. -/
  | sub
  /-- Multiply the two topmost values. -/
  | mul
  /-- Divide the value below the topmost one by it. -/
  | div
  /-- Replace the topmost value by its sine. -/
  | sin
  /-- Replace the topmost value by its cosine. -/
  | cos
  /-- Replace the topmost value by its tangent. -/
  | tan
  /-- Repeat the topmost value. -/
  | dup
  /-- Ask for a value. -/
  | input
  /-- Name a position. -/
  | label
  /-- Go on at a named position. -/
  | goto
  /-- Enter a routine. -/
  | call
  deriving DecidableEq, Repr

namespace Opcode

/-- The opcodes in their canonical order. -/
def all : List Opcode :=
  [push, add, sub, mul, div, sin, cos, tan, dup, input, label, goto, call]

/-- The place of an opcode in the canonical order, counted from zero. -/
def index (o : Opcode) : Nat :=
  all.idxOf o

/-! ## §2. Mnemonics. -/

/-- How an opcode is spelled. -/
def mnemonic : Opcode → String
  | push => "PUSH"
  | add => "ADD"
  | sub => "SUB"
  | mul => "MUL"
  | div => "DIV"
  | sin => "SIN"
  | cos => "COS"
  | tan => "TAN"
  | dup => "DUP"
  | input => "INPUT"
  | label => "LABEL"
  | goto => "GOTO"
  | call => "CALL"

/-- The opcode with a given mnemonic. -/
def ofMnemonic? (s : String) : Option Opcode :=
  all.find? fun o => o.mnemonic = s

theorem mnemonic_injective {o p : Opcode} (h : o.mnemonic = p.mnemonic) : o = p := by
  revert h
  cases o <;> cases p <;> decide

/-- Looking up a mnemonic finds exactly the opcode that has it. -/
theorem ofMnemonic?_eq_some_iff {s : String} {o : Opcode} :
    ofMnemonic? s = some o ↔ o.mnemonic = s := by
  constructor
  · intro h
    simpa using List.find?_some h
  · rintro rfl
    cases o <;> decide

/-! ## §3. What an opcode needs. -/

/-- Whether an argument belongs to the opcode. -/
def takesArgument : Opcode → Bool
  | push | input | label | goto | call => true
  | _ => false

/-- The number of values the opcode needs on the stack. -/
def arity : Opcode → Nat
  | add | sub | mul | div => 2
  | sin | cos | tan | dup => 1
  | _ => 0

end Opcode

end StackCalc
