/-
  StackCalc.Operation.Effect
  ──────────────────────────
  **WHAT AN OPERATION DOES TO THE VALUE STACK.**

  The stack is a list, its top first.  With `a` on top of `b`, the arithmetic
  operations leave `b + a`, `b - a`, `b * a` and `b / a`.  An operation needs as
  many values as the arity of its opcode says, and no more than these are looked
  at:

      (op.effect? s).isSome   ↔   op.opcode.arity ≤ s.length
-/
import StackCalc.Operation.Basic

namespace StackCalc.Operation

/-! ## §1. The effect. -/

/-- The stack after an operation, if it holds the values that the operation
needs.  The operations that ask, name, jump and call leave it alone. -/
def effect? : Operation → List Float → Option (List Float)
  | push value, s => some (value :: s)
  | add, a :: b :: s => some ((b + a) :: s)
  | sub, a :: b :: s => some ((b - a) :: s)
  | mul, a :: b :: s => some ((b * a) :: s)
  | div, a :: b :: s => some ((b / a) :: s)
  | sin, a :: s => some (a.sin :: s)
  | cos, a :: s => some (a.cos :: s)
  | tan, a :: s => some (a.tan :: s)
  | dup, a :: s => some (a :: a :: s)
  | input _, s => some s
  | label _, s => some s
  | goto _, s => some s
  | call _, s => some s
  | _, _ => none

/-- Whether an operation would divide by zero, of either sign. -/
def dividesByZero : Operation → List Float → Bool
  | div, a :: _ => a == 0
  | _, _ => false

/-! ## §2. Arity. -/

/-- An operation has an effect exactly on the stacks that hold as many values as
its opcode needs. -/
theorem isSome_effect?_iff (op : Operation) (s : List Float) :
    (op.effect? s).isSome ↔ op.opcode.arity ≤ s.length := by
  cases op <;> rcases s with _ | ⟨a, _ | ⟨b, s⟩⟩ <;>
    simp [effect?, opcode, Opcode.arity]

end StackCalc.Operation
