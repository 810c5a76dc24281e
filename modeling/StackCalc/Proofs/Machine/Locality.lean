/-
  StackCalc.Proofs.Machine.Locality
  ─────────────────────────────────
  **VALUES BELOW THOSE THAT ARE NEEDED DO NOT MATTER.**

  An operation looks at as many values as its arity says, counted from the top, and
  keeps the others:

      op.effect? s = some s'   →   op.effect? (s ++ below) = some (s' ++ below)

  So a run that always finds the values that it needs makes the same steps on top of
  any other values, asks the same questions and fails in the same way, and these
  values lie where they were when it is over (`Machine.above`).  The one fault that
  further values can mend is that there are too few.
-/
import StackCalc.Proofs.Machine.Bracket
import StackCalc.Proofs.Machine.Coupling
import StackCalc.Proofs.Machine.Move

namespace StackCalc

/-! ## §1. Operations. -/

namespace Operation

variable {op : Operation} {s s' : List Float}

/-- An operation that finds the values it needs keeps those below them. -/
theorem effect?_append (h : op.effect? s = some s') (below : List Float) :
    op.effect? (s ++ below) = some (s' ++ below) := by
  have hneeded : op.opcode.arity ≤ s.length := by
    rw [← isSome_effect?_iff, h]
    rfl
  cases op with
  | push | input | label | goto | call =>
    cases h
    rfl
  | sin | cos | tan | dup =>
    match s, hneeded with
    | a :: s, _ =>
      cases h
      rfl
  | add | sub | mul | div =>
    match s, hneeded with
    | a :: b :: s, _ =>
      cases h
      rfl

/-- The divisor is on top. -/
theorem dividesByZero_append (h : op.effect? s = some s') (below : List Float) :
    op.dividesByZero (s ++ below) = op.dividesByZero s := by
  cases op with
  | div =>
    match s, h with
    | a :: b :: s, _ => rfl
  | _ => rfl

end Operation

/-! ## §2. Machines. -/

/-- The machine with further values below those on its stack, the bottom one first. -/
def Machine.above (m : Machine) (below : List Float) : Machine :=
  { m with stack := m.stack ++ below.reverse }

/-- The response that leaves a machine with these values below its own. -/
def Response.above (r : Response) (below : List Float) : Response :=
  { r with machine := r.machine.above below }

/-- Whether the request failed for want of values. -/
def Response.underflows (r : Response) : Bool :=
  match r.reply with
  | .failed (.stackUnderflow _ _) => true
  | _ => false

theorem Machine.values_above (m : Machine) (below : List Float) :
    (m.above below).values = below ++ m.values := by
  unfold values above
  rw [List.reverse_append, List.reverse_reverse]

/-- Machines of which the second has further values below those of the first. -/
def Coupling.above (below : List Float) : Coupling where
  operation a b := a = b
  value v w := v = w
  stack s t := t = s ++ below.reverse
  skeleton h := congrArg Operation.skeleton h
  cons := by
    rintro v w s t rfl rfl
    rfl

variable {below : List Float}

theorem Machine.coupled_above (m : Machine) (below : List Float) :
    m.Coupled (.above below) (m.above below) where
  image := by
    show Option.Rel _ m.image m.image
    cases m.image with
    | none => exact .none
    | some image => exact .some (image.coupled_refl fun _ => rfl)
  phase := rfl
  stack := rfl
  frames := rfl
  cursor := rfl
  listening := rfl

theorem Request.coupled_above {r : Request} (hr : r.continues = true) :
    r.Coupled (.above below) r := by
  cases r with
  | load program => cases hr
  | start => cases hr
  | step strategy => exact .step strategy
  | provide value => exact .provide rfl
  | listen on => exact .listen on

/-- Coupled responses on one image differ by the values below and by nothing else. -/
theorem Response.Coupled.eq_above {r s : Response} (h : r.Coupled (.above below) s)
    (himage : s.machine.image = r.machine.image) : s = r.above below := by
  obtain ⟨hreply, hannounced, -, hphase, hstack, hframes, hcursor, hlistening⟩ := h
  obtain ⟨⟨image, phase, stack, frames, cursor, listening⟩, reply, announced⟩ := r
  obtain ⟨⟨image', phase', stack', frames', cursor', listening'⟩, reply', announced'⟩ := s
  cases himage
  cases hreply
  cases hannounced
  cases hphase
  cases hstack
  cases hframes
  cases hcursor
  cases hlistening
  rfl

/-! ## §3. Steps. -/

namespace Machine

variable {m n : Machine}

/-- If a step does not fail for want of values, they are there. -/
theorem exists_effect {i : Instruction} (hphase : m.phase = .running)
    (hi : m.current? = some i) (hstep : m.stepInto.underflows = false) :
    ∃ stack, i.operation.effect? m.stack = some stack := by
  cases heffect : i.operation.effect? m.stack with
  | some stack => exact ⟨stack, rfl⟩
  | none =>
    obtain ⟨image, hexecute⟩ := stepInto_eq_execute hphase hi
    have hfail : m.execute image i.operation
        = m.fail (.stackUnderflow i.operation.opcode m.cursor) := by
      unfold execute
      rw [heffect]
    rw [hexecute, hfail] at hstep
    cases hstep

/-- A step that finds the values it needs keeps the others below. -/
theorem Coupled.above_stepInto (h : m.Coupled (.above below) n)
    (hstep : m.stepInto.underflows = false) : m.stepInto.Coupled (.above below) n.stepInto := by
  apply h.stepInto
  -- the coupled machines carry out one operation, with the same values on top
  intro i j hphase hi _ hop
  obtain ⟨stack, heffect⟩ := exists_effect hphase hi hstep
  have hsame : i.operation = j.operation := hop
  have hstack : n.stack = m.stack ++ below.reverse := h.stack
  rw [← hsame, hstack]
  constructor
  · rw [heffect, Operation.effect?_append heffect]
    exact .some rfl
  · intro _
    rw [Operation.dividesByZero_append heffect]

/-- **One request above other values.** -/
theorem handle_above {r : Request} (hr : r.continues = true)
    (hunderflow : (m.handle r).underflows = false) :
    (m.above below).handle r = (m.handle r).above below := by
  refine Response.Coupled.eq_above ?_ ?_
  · refine (m.coupled_above below).handle (Request.coupled_above hr) ?_
    rintro strategy rfl
    rw [handle_step] at hunderflow
    exact (m.coupled_above below).above_stepInto hunderflow
  · rw [image_handle hr, image_handle hr]
    rfl

/-- **A run above other values.** -/
theorem run_above (below : List Float) {run : List Request} (hrun : ∀ r ∈ run, r.continues = true)
    (hunderflow : ∀ r ∈ m.responses run, r.underflows = false) :
    (m.above below).responses run = (m.responses run).map (·.above below)
      ∧ (m.above below).after run = (m.after run).above below := by
  induction run generalizing m with
  | nil => exact ⟨rfl, rfl⟩
  | cons r run ih =>
    have hfirst : (m.above below).handle r = (m.handle r).above below :=
      handle_above (hrun r List.mem_cons_self) (hunderflow _ List.mem_cons_self)
    obtain ⟨hresponses, hafter⟩ := ih (m := (m.handle r).machine)
      (fun x hx => hrun x (List.mem_cons_of_mem _ hx))
      fun x hx => hunderflow x (List.mem_cons_of_mem _ hx)
    constructor
    · rw [responses, responses, List.map_cons, hfirst, ← hresponses]
      rfl
    · show ((m.above below).handle r).machine.after run
        = ((m.handle r).machine.after run).above below
      rw [hfirst]
      exact hafter

end Machine

/-- **A run does not touch the values below those that it needs.**  Take a machine in any state,
and put values below those on its stack.  A run, of any length, that does not fail for want of
values gets the same answers and announces the same prompts, comes to the same states but for
these values, and leaves them where they were put. -/
theorem run_leaves_values_below (m : Machine) (below : List Float) {run : List Request}
    (hrun : ∀ r ∈ run, r.continues = true)
    (hunderflow : ∀ r ∈ m.responses run, r.underflows = false) :
    (m.above below).responses run = (m.responses run).map (·.above below)
      ∧ (m.above below).after run = (m.after run).above below
      ∧ ((m.above below).after run).values = below ++ (m.after run).values := by
  obtain ⟨hresponses, hafter⟩ := Machine.run_above below hrun hunderflow
  refine ⟨hresponses, hafter, ?_⟩
  rw [hafter, Machine.values_above]

theorem run_leaves_values_below_doublingRunToEnd :
    (∀ r ∈ doublingRunToEnd, r.continues = true)
      ∧ (∀ r ∈ doublingMachine.responses doublingRunToEnd, r.underflows = false)
      ∧ (doublingMachine.responses doublingRunToEnd).map (·.reply)
        = [.stepped, .stepped, .stepped, .done, .failed .notAwaitingInput, .stepped, .stepped,
          .stepped, .finished]
      ∧ (doublingMachine.above [7, -1]).responses doublingRunToEnd
        = (doublingMachine.responses doublingRunToEnd).map (·.above [7, -1])
      ∧ ((doublingMachine.above [7, -1]).after doublingRunToEnd).values = [7, -1, 6] := by
  have hrun : ∀ r ∈ doublingRunToEnd, r.continues = true := by decide
  have hunderflow : ∀ r ∈ doublingMachine.responses doublingRunToEnd, r.underflows = false := by
    decide +kernel
  have hvalues : (doublingMachine.after doublingRunToEnd).values = [6] := by decide +kernel
  obtain ⟨hresponses, -, hbelow⟩ :=
    run_leaves_values_below doublingMachine [7, -1] hrun hunderflow
  rw [hvalues] at hbelow
  exact ⟨hrun, hunderflow, by decide +kernel, hresponses, hbelow⟩

end StackCalc
