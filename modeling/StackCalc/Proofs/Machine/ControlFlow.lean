/-
  StackCalc.Proofs.Machine.ControlFlow
  ────────────────────────────────────
  **CONTROL FLOW DOES NOT DEPEND ON DATA.**

  Take two programs that differ by the literals of their `PUSH`es, and let them
  be stepped in the same way and given any values.  No operation looks at a value
  to decide where to go on, and how many values an operation takes and leaves is
  fixed by its opcode:

      (op.effect? s).length   =   s.length - arity + results

  So the two runs go through the same places, ask the same questions and fail in
  the same way.  The one exception is a division, which looks whether its divisor
  is zero; up to the first division by zero in either run they cannot be told
  apart without looking at values.
-/
import StackCalc.Proofs.Machine.Coupling
import StackCalc.Proofs.Machine.Image

namespace StackCalc

/-! ## §1. How many values an operation leaves. -/

/-- The number of values that an opcode puts in the place of those it needs. -/
def Opcode.results : Opcode → Nat
  | push | add | sub | mul | div | sin | cos | tan => 1
  | dup => 2
  | input | label | goto | call => 0

/-- The depth of the stack after an operation depends on nothing but its opcode
and the depth before. -/
theorem Operation.map_length_effect? (op : Operation) (s : List Float) :
    (op.effect? s).map List.length
      = if op.opcode.arity ≤ s.length then some (s.length - op.opcode.arity + op.opcode.results)
        else none := by
  cases op <;> rcases s with _ | ⟨a, _ | ⟨b, s⟩⟩ <;>
    simp [effect?, opcode, Opcode.arity, Opcode.results]

/-! ## §2. Programs that differ by their literals. -/

def Instruction.skeleton (i : Instruction) : Instruction :=
  { i with operation := i.operation.skeleton }

/-- A program without the values of its literals. -/
def Program.skeleton (p : Program) : Program :=
  { p with instructions := p.instructions.map Instruction.skeleton }

namespace Image

theorem labelOf?_skeleton (i : Instruction) : labelOf? i.skeleton = labelOf? i := by
  unfold labelOf? Instruction.skeleton
  cases i.operation <;> rfl

theorem bodies_ofProgram_skeleton (p : Program) :
    (ofProgram p.skeleton).bodies
      = (ofProgram p).bodies.map fun b => (b.1, b.2.map Instruction.skeleton) :=
  bodiesOf_map (g := Instruction.skeleton) (fun _ => rfl) (fun _ => rfl) [] p.instructions p.routines

theorem labels_ofProgram_skeleton (p : Program) :
    (ofProgram p.skeleton).labels = (ofProgram p).labels := by
  show (labelsOf (ofProgram p.skeleton).bodies).reverse = (labelsOf (ofProgram p).bodies).reverse
  rw [bodies_ofProgram_skeleton, labelsOf_map labelOf?_skeleton]

end Image

/-! ## §3. Machines that differ by their values. -/

/-- Machines that differ by literals and values, with stacks of one depth. -/
def Coupling.depth : Coupling where
  operation a b := a.skeleton = b.skeleton
  value _ _ := True
  stack s t := s.length = t.length
  skeleton h := h
  cons _ h := by rw [List.length_cons, List.length_cons, h]

theorem Coupling.depth_reflexive : depth.Reflexive where
  operation _ := rfl
  value _ := trivial
  stack _ := rfl

theorem Image.coupled_of_skeleton_eq {p q : Program} (h : p.skeleton = q.skeleton) :
    (ofProgram p).Coupled .depth (ofProgram q) := by
  -- building an image commutes with forgetting literals, and labels have none
  refine coupled_of_map_eq Instruction.skeleton ?_ ?_ ?_
  · intro i j hij
    exact congrArg Instruction.operation hij
  · rw [← bodies_ofProgram_skeleton, ← bodies_ofProgram_skeleton, h]
  · rw [← labels_ofProgram_skeleton p, ← labels_ofProgram_skeleton q, h]

/-- Operations that differ by a literal take and leave as many values. -/
theorem Coupling.rel_effect? {a b : Operation} {s t : List Float} (hop : depth.operation a b)
    (hst : depth.stack s t) : Option.Rel depth.stack (a.effect? s) (b.effect? t) := by
  have hlength : s.length = t.length := hst
  apply rel_of_map_eq
  rw [a.map_length_effect?, b.map_length_effect?, Operation.opcode_eq_of_skeleton_eq hop, hlength]

/-! ## §4. Steps without a division by zero. -/

/-- Whether the request failed by a zero divisor. -/
def Response.dividesByZero (r : Response) : Bool :=
  match r.reply with
  | .failed (.divisionByZero _) => true
  | _ => false

namespace Machine

variable {m n : Machine}

theorem execute_of_dividesByZero {op : Operation} (heffect : (op.effect? m.stack).isSome)
    (hzero : op.dividesByZero m.stack = true) (image : Image) :
    m.execute image op = m.fail (.divisionByZero m.cursor) := by
  obtain ⟨stack, hstack⟩ := Option.isSome_iff_exists.1 heffect
  unfold execute
  simp only [hstack, if_pos hzero]

/-- If a step does not fail by a zero divisor, there is none at the cursor. -/
theorem dividesByZero_eq_false {i : Instruction} (hphase : m.phase = .running)
    (hi : m.current? = some i) (hstep : m.stepInto.dividesByZero = false)
    (heffect : (i.operation.effect? m.stack).isSome) :
    i.operation.dividesByZero m.stack = false := by
  obtain ⟨image, himage⟩ := stepInto_eq_execute hphase hi
  by_cases hzero : i.operation.dividesByZero m.stack = true
  · rw [himage, execute_of_dividesByZero heffect hzero] at hstep
    cases hstep
  · exact Bool.eq_false_iff.2 hzero

/-- A step that divides by zero in neither machine keeps them coupled. -/
theorem Coupled.depth_stepInto (h : m.Coupled .depth n) (hm : m.stepInto.dividesByZero = false)
    (hn : n.stepInto.dividesByZero = false) : m.stepInto.Coupled .depth n.stepInto := by
  apply h.stepInto
  intro i j hphase hi hj hop
  have heffect := Coupling.rel_effect? hop h.stack
  refine ⟨heffect, ?_⟩
  -- this is the one test of a value; by `hm` and `hn` it fails in both machines
  intro hsome
  have hsome' : (j.operation.effect? n.stack).isSome := by
    rcases rel_cases heffect with ⟨hs, -⟩ | ⟨s, t, -, ht, -⟩
    · rw [hs] at hsome
      cases hsome
    · rw [ht]
      rfl
  rw [dividesByZero_eq_false hphase hi hm hsome,
    dividesByZero_eq_false (h.phase ▸ hphase) hj hn hsome']

end Machine

/-! ## §5. Histories. -/

/-- Requests that differ by values alone: by the literals of the program that is
loaded, or by the value that is provided. -/
inductive Request.Alike : Request → Request → Prop
  | load {p q : Program} (h : p.skeleton = q.skeleton) : Alike (.load p) (.load q)
  | start : Alike .start .start
  | step (strategy : Strategy) : Alike (.step strategy) (.step strategy)
  | provide (v w : Float) : Alike (.provide v) (.provide w)
  | listen (on : Bool) : Alike (.listen on) (.listen on)

theorem Request.Alike.coupled {r s : Request} (h : r.Alike s) : r.Coupled .depth s := by
  cases h with
  | load h => exact .load rfl (Image.coupled_of_skeleton_eq h)
  | start => exact .start rfl
  | step strategy => exact .step strategy
  | provide v w => exact .provide trivial
  | listen on => exact .listen on

/-- What can be seen of a machine without looking at values. -/
structure Control where
  phase : Phase
  cursor : Location
  callers : List Location
  /-- How many values there are on the stack. -/
  depth : Nat
  deriving DecidableEq, Repr

def Machine.control (m : Machine) : Control where
  phase := m.phase
  cursor := m.cursor
  callers := m.callers
  depth := m.stack.length

/-- What can be seen of a response without looking at values. -/
def Response.control (r : Response) : Reply × List String × Control :=
  (r.reply, r.announced, r.machine.control)

theorem Response.Coupled.control_eq {r s : Response} (h : r.Coupled .depth s) :
    r.control = s.control := by
  have hdepth : r.machine.stack.length = s.machine.stack.length := h.machine.stack
  unfold control Machine.control Machine.callers
  rw [h.reply, h.announced, h.machine.phase, h.machine.cursor, h.machine.frames, hdepth]

theorem Machine.responses_take (m : Machine) (history : List Request) (k : Nat) :
    m.responses (history.take k) = (m.responses history).take k := by
  induction history generalizing m k with
  | nil => rw [List.take_nil, responses, List.take_nil]
  | cons r history ih =>
    cases k with
    | zero => rfl
    | succ k =>
      show _ :: _ = _ :: _
      rw [ih]

/-- **Control flow does not depend on data.**  Let two histories of a machine
differ by literals and provided values alone.  For as long as no response of
either is a division by zero, the responses and the states after them agree on
everything but values. -/
theorem control_eq_of_alike (m : Machine) {history history' : List Request}
    (halike : List.Forall₂ Request.Alike history history') (k : Nat)
    (hzero : ∀ r ∈ (m.responses history).take k, r.dividesByZero = false)
    (hzero' : ∀ r ∈ (m.responses history').take k, r.dividesByZero = false) :
    ((m.responses history).take k).map Response.control
      = ((m.responses history').take k).map Response.control := by
  -- the first `k` responses are those to the first `k` requests
  rw [← m.responses_take] at hzero hzero' ⊢
  rw [← m.responses_take]
  have hrequests : List.Forall₂ (Request.Coupled .depth) (history.take k) (history'.take k) :=
    (List.forall₂_take k halike).imp fun _ _ => Request.Alike.coupled
  have hresponses := Machine.Coupled.responses (fun _ _ => Machine.Coupled.depth_stepInto)
    hrequests (m.coupled_refl Coupling.depth_reflexive) hzero hzero'
  rw [← List.forall₂_eq_eq_eq, List.forall₂_map_left_iff, List.forall₂_map_right_iff]
  exact hresponses.imp fun _ _ => Response.Coupled.control_eq

/-- A program that asks for a number and divides it by `v`. -/
def quotientProgram (v : Float) : Program where
  routines := [⟨1, "main"⟩]
  instructions := [⟨1, 1, 0, .input "x?"⟩, ⟨2, 1, 1, .push v⟩, ⟨3, 1, 2, .div⟩]

/-- A run of `quotientProgram v` on `x`, with a listener. -/
def quotientHistory (v x : Float) : List Request :=
  [.load (quotientProgram v), .listen true, .start, .step .into, .provide x, .step .over, .step .into,
    .step .into]

theorem ofProgram_quotientProgram (v : Float) :
    Image.ofProgram (quotientProgram v) = ⟨[("main", (quotientProgram v).instructions)], []⟩ := by
  have hbody : byPosition (quotientProgram v).instructions = (quotientProgram v).instructions :=
    byPosition_eq_self rfl
  show (⟨[("main", byPosition (quotientProgram v).instructions)],
    (Image.labelsOf [("main", byPosition (quotientProgram v).instructions)]).reverse⟩ : Image) = _
  rw [hbody]
  rfl

/-- The responses to `quotientHistory` with the image written out. -/
theorem responses_quotientHistory (v x : Float) :
    Machine.responses {} (quotientHistory v x)
      = Machine.done { image := some ⟨[("main", (quotientProgram v).instructions)], []⟩ }
        :: Machine.responses { image := some ⟨[("main", (quotientProgram v).instructions)], []⟩ }
          (quotientHistory v x).tail := by
  rw [← ofProgram_quotientProgram]
  rfl

theorem control_eq_of_alike_quotientHistory :
    List.Forall₂ Request.Alike (quotientHistory 2 8) (quotientHistory (-4) 3)
      ∧ (∀ r ∈ (Machine.responses {} (quotientHistory 2 8)).take 8, r.dividesByZero = false)
      ∧ (∀ r ∈ (Machine.responses {} (quotientHistory (-4) 3)).take 8, r.dividesByZero = false)
      ∧ ((Machine.responses {} (quotientHistory 2 8)).take 8).map Response.control
        = ((Machine.responses {} (quotientHistory (-4) 3)).take 8).map Response.control := by
  have halike : List.Forall₂ Request.Alike (quotientHistory 2 8) (quotientHistory (-4) 3) :=
    .cons (.load rfl) (.cons (.listen true) (.cons .start (.cons (.step .into)
      (.cons (.provide 8 3) (.cons (.step .over) (.cons (.step .into) (.cons (.step .into) .nil)))))))
  have hzero : ∀ r ∈ (Machine.responses {} (quotientHistory 2 8)).take 8,
      r.dividesByZero = false := by
    rw [responses_quotientHistory]
    decide +kernel
  have hzero' : ∀ r ∈ (Machine.responses {} (quotientHistory (-4) 3)).take 8,
      r.dividesByZero = false := by
    rw [responses_quotientHistory]
    decide +kernel
  exact ⟨halike, hzero, hzero', control_eq_of_alike {} halike 8 hzero hzero'⟩

end StackCalc
