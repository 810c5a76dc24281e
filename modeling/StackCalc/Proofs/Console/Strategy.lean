/-
  StackCalc.Proofs.Console.Strategy
  ─────────────────────────────────
  **THE WAY TO STEP DOES NOT MATTER.**

  A step that treats a call as an instruction of its own kind and a step that follows
  it open the call alike, so

      m.stepOver = m.stepInto

  for every machine (`Machine.stepOver_eq_stepInto`).  Whatever drives a machine can
  therefore take the one for the other, at any of its steps, without anybody noticing:
  a client with a history of requests, a run from beginning to end, and a person in a
  session.
-/
import StackCalc.Console.CommandLine
import StackCalc.Proofs.Machine.Move

namespace StackCalc

/-! ## §1. Histories. -/

/-- Requests that are equal, or ask for a step in two ways. -/
inductive Request.StepAlike : Request → Request → Prop
  | same (r : Request) : StepAlike r r
  | step (strategy strategy' : Strategy) : StepAlike (.step strategy) (.step strategy')

theorem Request.StepAlike.handle_eq {r r' : Request} (h : r.StepAlike r') (m : Machine) :
    m.handle r = m.handle r' := by
  cases h with
  | same _ => rfl
  | step strategy strategy' => rw [m.handle_step, m.handle_step]

theorem Machine.responses_eq_of_stepAlike {history history' : List Request}
    (h : List.Forall₂ Request.StepAlike history history') (m : Machine) :
    m.responses history = m.responses history' := by
  induction h generalizing m with
  | nil => rfl
  | cons hr _ ih =>
    rw [responses, responses, hr.handle_eq m]
    show _ :: _ = _ :: _
    rw [ih]

namespace Console

/-! ## §2. Runs. -/

namespace Run

theorem Progress.step_eq (p : Progress) (strategy strategy' : Strategy) :
    p.step strategy = p.step strategy' := by
  unfold step
  rw [p.machine.step_eq_stepInto strategy, p.machine.step_eq_stepInto strategy']

theorem Progress.drive_eq (strategy strategy' : Strategy) (limit budget : Nat) (p : Progress)
    (input : List InputLine) :
    drive strategy limit budget p input = drive strategy' limit budget p input := by
  induction budget generalizing p input with
  | zero => rfl
  | succ budget ih =>
    -- the machine is stepped, and the rest of the run is alike
    simp only [drive, step_eq _ strategy strategy', ih]

theorem run_eq (p : Program) (strategy strategy' : Strategy) (limit : Nat)
    (input : List InputLine) : run p strategy limit input = run p strategy' limit input := by
  unfold run
  simp only [Progress.drive_eq strategy strategy']

end Run

/-! ## §3. Sessions. -/

namespace Session

/-- The commands that ask for a step. -/
def stepWords : List String := ["s", "step", "n", "next"]

/-- Whether a line asks for a step: by its first word. -/
def asksToStep : InputLine → Bool
  | .text line => (Text.words line).head?.any (· ∈ stepWords)
  | .garbled => false

/-- Lines that are equal, or ask for a step in two ways. -/
inductive StepAlike : InputLine → InputLine → Prop
  | same (line : InputLine) : StepAlike line line
  | step {line line' : InputLine} (h : asksToStep line = true) (h' : asksToStep line' = true) :
      StepAlike line line'

/-- A line that asks for a step gets one, in one way or the other. -/
theorem hear_of_asksToStep {line : InputLine} (h : asksToStep line = true) (m : Machine) :
    hear m line = .ofResponse m.stepInto := by
  cases line with
  | garbled => cases h
  | text line =>
    have hcommand : ∃ strategy, Command.ofLine line = .step strategy := by
      have hfirst : (Text.words line).head?.any (· ∈ stepWords) = true := h
      unfold Command.ofLine
      cases hwords : Text.words line with
      | nil =>
        rw [hwords] at hfirst
        cases hfirst
      | cons word rest =>
        rw [hwords] at hfirst
        have hword : word ∈ stepWords := of_decide_eq_true hfirst
        simp only [stepWords, List.mem_cons, List.not_mem_nil, or_false] at hword
        rcases hword with rfl | rfl | rfl | rfl
        · exact ⟨.into, rfl⟩
        · exact ⟨.into, rfl⟩
        · exact ⟨.over, rfl⟩
        · exact ⟨.over, rfl⟩
    obtain ⟨strategy, hstrategy⟩ := hcommand
    show obey m (Command.ofLine line) = _
    rw [hstrategy]
    show Turn.ofResponse (m.step strategy) = _
    rw [m.step_eq_stepInto]

theorem StepAlike.hear_eq {line line' : InputLine} (h : StepAlike line line') (m : Machine) :
    hear m line = hear m line' := by
  cases h with
  | same => rfl
  | step h h' => rw [hear_of_asksToStep h, hear_of_asksToStep h']

theorem converse_eq_of_stepAlike {input input' : List InputLine}
    (h : List.Forall₂ StepAlike input input') (m : Machine) :
    converse m input = converse m input' := by
  induction h generalizing m with
  | nil => rfl
  | cons hline _ ih =>
    rw [converse, converse, hline.hear_eq m]
    simp only [ih]

theorem run_eq_of_stepAlike {input input' : List InputLine}
    (h : List.Forall₂ StepAlike input input') (p : Program) : run p input = run p input' := by
  unfold run
  simp only [converse_eq_of_stepAlike h]

end Session

/-! ## §4. All of it. -/

/-- The report of a command depends on what it makes of the program in its file. -/
theorem perform_congr {a b : Invocation} {input input' : List InputLine} (hfile : a.file = b.file)
    (h : ∀ p, carryOut p input a = carryOut p input' b) (text : Except ReadFailure String) :
    perform a text input = perform b text input' := by
  unfold perform
  rw [hfile]
  cases programOf b.file text with
  | error line => rfl
  | ok p => exact h p

end Console

open Console in
/-- **The two ways to step agree**: in every state of a machine, in every history of
requests, in every run of a file and in every session over one. -/
theorem strategies_agree :
    (∀ m : Machine, m.stepOver = m.stepInto)
      ∧ (∀ (m : Machine) (history history' : List Request),
          List.Forall₂ Request.StepAlike history history' →
          m.responses history = m.responses history')
      ∧ (∀ (file : String) (limit : Nat) (text : Except ReadFailure String)
          (input : List InputLine),
          perform (.run file .over limit) text input = perform (.run file .into limit) text input)
      ∧ ∀ (file : String) (text : Except ReadFailure String) (input input' : List InputLine),
          List.Forall₂ Session.StepAlike input input' →
          perform (.debug file) text input = perform (.debug file) text input' := by
  refine ⟨Machine.stepOver_eq_stepInto, ?_, ?_, ?_⟩
  · intro m history history' h
    exact m.responses_eq_of_stepAlike h
  · intro file limit text input
    refine perform_congr ?_ ?_ text
    · rfl
    intro p
    exact congrArg Run.report (Run.run_eq p .over .into limit input)
  · intro file text input input' h
    refine perform_congr rfl ?_ text
    intro p
    exact congrArg sessionReport (Session.run_eq_of_stepAlike h p)

open Console in
theorem strategies_agree_doublingProgram :
    List.Forall₂ Request.StepAlike [.load doublingProgram, .start, .step .into, .step .over]
        [.load doublingProgram, .start, .step .over, .step .into]
      ∧ Machine.responses {} [.load doublingProgram, .start, .step .into, .step .over]
        = Machine.responses {} [.load doublingProgram, .start, .step .over, .step .into]
      ∧ List.Forall₂ Session.StepAlike [.text "step", .text " s 2", .text "i 3"]
        [.text "next", .text "n", .text "i 3"]
      ∧ perform (.debug "p") (.ok doublingProgram.listing) [.text "step", .text " s 2", .text "i 3"]
        = perform (.debug "p") (.ok doublingProgram.listing)
            [.text "next", .text "n", .text "i 3"] := by
  have hrequests : List.Forall₂ Request.StepAlike
      [.load doublingProgram, .start, .step .into, .step .over]
      [.load doublingProgram, .start, .step .over, .step .into] :=
    .cons (.same _) (.cons (.same _) (.cons (.step _ _) (.cons (.step _ _) .nil)))
  have hlines : List.Forall₂ Session.StepAlike [.text "step", .text " s 2", .text "i 3"]
      [.text "next", .text "n", .text "i 3"] :=
    .cons (.step (by decide) (by decide)) (.cons (.step (by decide) (by decide))
      (.cons (.same _) .nil))
  obtain ⟨-, hresponses, -, hsession⟩ := strategies_agree
  exact ⟨hrequests, hresponses {} _ _ hrequests, hlines, hsession "p" _ _ _ hlines⟩

end StackCalc
