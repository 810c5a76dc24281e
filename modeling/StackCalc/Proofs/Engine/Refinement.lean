/-
  StackCalc.Proofs.Engine.Refinement
  ──────────────────────────────────
  **THE MACHINE REFINES THE ENGINE.**

  A machine stands for an engine (`Engine.ofMachine`): its phase says what the flags are,

                  started   running   blocked   pending
      ready       no        no        no        none
      running     yes       yes       no        none
      waiting p   yes       yes       yes       some p
      finished    yes       no        no        none,

  and every request is answered alike by both,

      (ofMachine m).handle r   ⟷   m.handle r,

  with the states after it standing for each other again.  So after any history a new
  engine has its flags as one of the phases says, although each request sets them one by
  one, and what holds of every reachable machine holds of every reachable engine.
-/
import StackCalc.Proofs.Engine.Failure
import StackCalc.Proofs.Machine.Move

namespace StackCalc

/-! ## §1. The engine of a machine. -/

/-- Whether the program that is loaded was started. -/
def Machine.isStarted (m : Machine) : Bool :=
  match m.phase with
  | .ready => false
  | .running | .waiting _ | .finished => true

namespace Engine

variable {m : Machine} {image : Image} {e e' : Engine} {fault : Fault}

/-- The engine that a machine stands for, if these prompts were heard. -/
def ofMachine (m : Machine) (heard : List String) : Engine where
  image := m.image
  stack := m.stack
  frames := m.frames
  routine := m.cursor.routine
  position := m.cursor.position
  running := m.isRunning
  blocked := m.isWaiting
  started := m.isStarted
  pending := m.pending?
  listening := m.listening
  heard := heard

/-- The answer that a response stands for, if these prompts were heard before. -/
def Answer.ofResponse (heard : List String) (r : Response) : Answer :=
  ⟨ofMachine r.machine (heard ++ r.announced), r.reply⟩

theorem Answer.ofResponse_of_silent {r : Response} (h : r.announced = []) (heard : List String) :
    ofResponse heard r = ⟨ofMachine r.machine heard, r.reply⟩ := by
  unfold ofResponse
  rw [h, List.append_nil]

theorem answer_of_ok {act : Action Unit} (outcome : Outcome) (h : act.run e = .ok () e') :
    Answer.of ((do act; return outcome : Action Outcome).run e) = ⟨e', replyOf outcome⟩ :=
  congrArg Answer.of (run_bind_of_ok _ h)

theorem answer_of_error {act : Action Unit} (outcome : Outcome) (h : act.run e = .error fault e') :
    Answer.of ((do act; return outcome : Action Outcome).run e) = ⟨e', .failed fault⟩ :=
  congrArg Answer.of (run_bind_of_error _ h)

/-! ## §2. Loading, starting, providing. -/

theorem load_ofMachine (m : Machine) (heard : List String) (program : Program) :
    (ofMachine m heard).handle (.load program) = .ofResponse heard (m.load program) := by
  rw [Answer.ofResponse_of_silent rfl]
  rfl

theorem listen_ofMachine (m : Machine) (heard : List String) (on : Bool) :
    (ofMachine m heard).handle (.listen on) = .ofResponse heard (m.listen on) := by
  rw [Answer.ofResponse_of_silent rfl]
  rfl

theorem start_ofMachine (m : Machine) (heard : List String) :
    (ofMachine m heard).handle .start = .ofResponse heard m.start := by
  rcases m with ⟨_ | image, phase, stack, frames, cursor, listening⟩
  · rw [Answer.ofResponse_of_silent rfl]
    exact answer_of_error .done (run_start _)
  · have hrun := run_start (ofMachine ⟨some image, phase, stack, frames, cursor, listening⟩ heard)
    show _ = Answer.ofResponse heard
      (if image.isEmpty then Machine.fail _ _
        else if image.contains entryName then Machine.done _ else Machine.fail _ _)
    -- both make the same two checks in the same order
    by_cases hempty : image.isEmpty = true
    · rw [if_pos hempty, Answer.ofResponse_of_silent rfl]
      exact answer_of_error .done (hrun.trans (if_pos hempty))
    · rw [if_neg hempty]
      by_cases hentry : image.contains entryName = true
      · rw [if_pos hentry, Answer.ofResponse_of_silent rfl]
        exact answer_of_ok .done (hrun.trans ((if_neg hempty).trans (if_pos hentry)))
      · rw [if_neg hentry, Answer.ofResponse_of_silent rfl]
        exact answer_of_error .done (hrun.trans ((if_neg hempty).trans (if_neg hentry)))

theorem provide_ofMachine (m : Machine) (heard : List String) (value : Float) :
    (ofMachine m heard).handle (.provide value) = .ofResponse heard (m.provide value) := by
  rcases m with ⟨image, phase, stack, frames, cursor, listening⟩
  cases phase with
  | waiting prompt =>
    rw [Answer.ofResponse_of_silent rfl]
    exact answer_of_ok .done (run_provide value _)
  | ready | running | finished =>
    rw [Answer.ofResponse_of_silent rfl]
    exact answer_of_error .done (run_provide value _)

/-! ## §3. Steps. -/

theorem leave_ofMachine (heard : List String) (hphase : m.phase = .running) :
    Answer.of (leave.run (ofMachine m heard)) = .ofResponse heard m.leave := by
  rcases m with ⟨image, phase, stack, _ | ⟨frame, frames⟩, cursor, listening⟩
  · cases hphase
    rw [Answer.ofResponse_of_silent rfl]
    rfl
  · rw [Answer.ofResponse_of_silent rfl]
    rfl

/-- A question puts both flags up and is heard by the listener. -/
theorem ask_ofMachine (heard : List String) (hphase : m.phase = .running) (prompt : String) :
    (perform (.input prompt)).run (ofMachine m heard)
      = .ok () (ofMachine (m.ask prompt).machine (heard ++ (m.ask prompt).announced)) := by
  rcases m with ⟨image, phase, stack, frames, cursor, listening⟩
  cases hphase
  exact run_perform_of_ok (run_execute_input prompt _)

theorem goto_ofMachine (heard : List String) (himage : m.image = some image) (name : String) :
    Answer.of ((do perform (.goto name); return .stepped : Action Outcome).run (ofMachine m heard))
      = .ofResponse heard (m.jump image name) := by
  have hlabel : (ofMachine m heard).image.bind (·.label? name) = image.label? name := by
    show m.image.bind _ = _
    rw [himage, Option.bind_some]
  have hrun := run_execute_goto name (ofMachine m heard)
  rw [hlabel] at hrun
  unfold Machine.jump
  cases hposition : image.label? name with
  | none =>
    rw [hposition] at hrun
    rw [Answer.ofResponse_of_silent rfl]
    exact answer_of_error .stepped (run_perform_of_error hrun)
  | some position =>
    rw [hposition] at hrun
    rw [Answer.ofResponse_of_silent rfl]
    exact answer_of_ok .stepped (run_perform_of_ok hrun)

theorem call_ofMachine (heard : List String) (himage : m.image = some image) (name : String) :
    Answer.of ((do perform (.call name); return .stepped : Action Outcome).run (ofMachine m heard))
      = .ofResponse heard (m.enter image name) := by
  have hknown : (ofMachine m heard).image.any (·.contains name) = image.contains name := by
    show m.image.any _ = _
    rw [himage, Option.any_some]
  have hrun := run_execute_call name (ofMachine m heard)
  rw [hknown] at hrun
  unfold Machine.enter
  by_cases hname : image.contains name = true
  · rw [if_pos hname] at hrun ⊢
    rw [Answer.ofResponse_of_silent rfl]
    exact answer_of_ok .stepped (run_perform_of_ok hrun)
  · rw [if_neg hname] at hrun ⊢
    rw [Answer.ofResponse_of_silent rfl]
    exact answer_of_error .stepped (run_perform_of_error hrun)

/-- **Carrying out an operation bit by bit comes to the same as at once.** -/
theorem perform_ofMachine (heard : List String) (himage : m.image = some image)
    (hphase : m.phase = .running) (op : Operation) :
    Answer.of ((do perform op; return .stepped : Action Outcome).run (ofMachine m heard))
      = .ofResponse heard (m.execute image op) := by
  unfold Machine.execute
  cases heffect : op.effect? m.stack with
  | none =>
    have hcounted : m.stack.length < op.opcode.arity := by
      rw [← Nat.not_le, ← op.isSome_effect?_iff, heffect]
      exact Bool.false_ne_true
    rw [Answer.ofResponse_of_silent rfl]
    exact answer_of_error .stepped (run_perform_of_error (run_execute_of_lt hcounted))
  | some stack =>
    have hcounted : op.opcode.arity ≤ m.stack.length := arity_le_of_effect? heffect
    cases hzero : op.dividesByZero m.stack with
    | true =>
      rw [Answer.ofResponse_of_silent rfl]
      exact answer_of_error .stepped
        (run_perform_of_error (run_execute_of_dividesByZero hcounted hzero))
    | false =>
      cases op with
      | input prompt => exact answer_of_ok .stepped (ask_ofMachine heard hphase prompt)
      | goto name => exact goto_ofMachine heard himage name
      | call name => exact call_ofMachine heard himage name
      | _ =>
        rw [Answer.ofResponse_of_silent rfl]
        exact answer_of_ok .stepped (run_perform_of_ok
          (run_execute_of_effect? (by simp) (by simp) (by simp) heffect hzero))

theorem stepInto_ofMachine_of_running (heard : List String) (hphase : m.phase = .running) :
    Answer.of (stepInto.run (ofMachine m heard)) = .ofResponse heard m.stepInto := by
  have hrun : stepInto.run (ofMachine m heard) = _ :=
    run_stepWith_of_running perform (by simp [ofMachine, Machine.isRunning, hphase])
      (by simp [ofMachine, Machine.isWaiting, Machine.pending?, hphase])
  have hfetch := run_fetch (ofMachine m heard)
  rw [hrun]
  unfold Machine.stepInto Machine.stepWith
  rw [hphase]
  -- the engine fetches from the same image, routine and position
  cases himage : m.image with
  | none =>
    rw [show (ofMachine m heard).image = none from himage] at hfetch
    rw [run_bind_of_error _ hfetch, Answer.ofResponse_of_silent rfl]
    rfl
  | some image =>
    rw [show (ofMachine m heard).image = some image from himage] at hfetch
    cases hbody : image.body? m.cursor.routine with
    | none =>
      simp only [show image.body? (ofMachine m heard).routine = none from hbody] at hfetch
      rw [run_bind_of_error _ hfetch]
      simp only [hbody]
      rw [Answer.ofResponse_of_silent rfl]
      rfl
    | some body =>
      simp only [show image.body? (ofMachine m heard).routine = some body from hbody] at hfetch
      rw [run_bind_of_ok _ hfetch]
      simp only [hbody]
      cases hi : body[m.cursor.position]? with
      | none =>
        simp only [show body[(ofMachine m heard).position]? = none from hi]
        exact leave_ofMachine heard hphase
      | some i =>
        simp only [show body[(ofMachine m heard).position]? = some i from hi]
        exact perform_ofMachine heard himage hphase i.operation

theorem stepInto_ofMachine (m : Machine) (heard : List String) :
    Answer.of (stepInto.run (ofMachine m heard)) = .ofResponse heard m.stepInto := by
  cases hphase : m.phase with
  | running => exact stepInto_ofMachine_of_running heard hphase
  | ready | finished =>
    have hrun : stepInto.run (ofMachine m heard) = _ :=
      run_stepWith_of_idle perform (by simp [ofMachine, Machine.isRunning, hphase])
    rw [hrun]
    unfold Machine.stepInto Machine.stepWith
    rw [hphase, Answer.ofResponse_of_silent rfl]
    rfl
  | waiting prompt =>
    have hrun : stepInto.run (ofMachine m heard) = _ :=
      run_stepWith_of_blocked perform (by simp [ofMachine, Machine.isRunning, hphase])
        (by simp [ofMachine, Machine.isWaiting, Machine.pending?, hphase])
    rw [hrun]
    unfold Machine.stepInto Machine.stepWith
    rw [hphase, Answer.ofResponse_of_silent rfl]
    rfl

/-! ## §4. Requests and histories. -/

/-- **The engine answers every request as the machine does.** -/
theorem handle_ofMachine (m : Machine) (heard : List String) (r : Request) :
    (ofMachine m heard).handle r = .ofResponse heard (m.handle r) := by
  cases r with
  | load program => exact load_ofMachine m heard program
  | start => exact start_ofMachine m heard
  | step strategy =>
    rw [Machine.handle_step, handle_step]
    exact stepInto_ofMachine m heard
  | provide value => exact provide_ofMachine m heard value
  | listen on => exact listen_ofMachine m heard on

/-- After a history they stand for each other still, and what was heard is what was
announced. -/
theorem after_ofMachine (m : Machine) (heard : List String) (history : List Request) :
    (ofMachine m heard).after history
      = ofMachine (m.after history) (heard ++ (m.responses history).flatMap (·.announced)) := by
  induction history generalizing m heard with
  | nil =>
    show ofMachine m heard = ofMachine m (heard ++ [])
    rw [List.append_nil]
  | cons r history ih =>
    show ((ofMachine m heard).handle r).engine.after history = _
    rw [handle_ofMachine]
    show (ofMachine (m.handle r).machine (heard ++ (m.handle r).announced)).after history = _
    rw [ih, List.append_assoc]
    rfl

/-- **Every engine that can be reached is that of a machine that can.** -/
theorem Reachable.exists_machine {e : Engine} (h : e.Reachable) :
    ∃ m heard, m.Reachable ∧ e = ofMachine m heard := by
  obtain ⟨history, rfl⟩ := h
  exact ⟨_, _, ⟨history, rfl⟩, after_ofMachine {} [] history⟩

end Engine

end StackCalc
