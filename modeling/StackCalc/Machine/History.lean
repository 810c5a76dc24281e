/-
  StackCalc.Machine.History
  ─────────────────────────
  **REQUESTS AND HISTORIES.**

  Everything that is done to a machine is a request, and a list of requests is a
  history.  Statements about every state that a machine can reach are statements
  about all histories of a new machine.
-/
import StackCalc.Machine.Step

namespace StackCalc

/-! ## §1. Requests. -/

/-- Something that is asked of the machine. -/
inductive Request where
  | load (program : Program)
  | start
  | step (strategy : Strategy)
  | provide (value : Float)
  /-- Begin or end to announce prompts. -/
  | listen (on : Bool)
  deriving Repr

namespace Machine

/-- The machine answers a request. -/
def handle (m : Machine) : Request → Response
  | .load program => m.load program
  | .start => m.start
  | .step strategy => m.step strategy
  | .provide value => m.provide value
  | .listen on => m.listen on

/-! ## §2. Histories. -/

/-- The machine after a history. -/
def after (m : Machine) (history : List Request) : Machine :=
  history.foldl (fun m request => (m.handle request).machine) m

/-- The responses to the requests of a history, in order. -/
def responses (m : Machine) : List Request → List Response
  | [] => []
  | request :: rest =>
    let r := m.handle request
    r :: r.machine.responses rest

/-- The states that a new machine can reach. -/
def Reachable (m : Machine) : Prop :=
  ∃ history, m = after {} history

end Machine

end StackCalc
