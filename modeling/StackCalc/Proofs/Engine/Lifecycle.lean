/-
  StackCalc.Proofs.Engine.Lifecycle
  ─────────────────────────────────
  **THE LIFE OF AN ENGINE.**

  The flags of an engine are set by six requests, each of which has to leave them in
  agreement with each other, with the cursor and with the open calls.  They are: of every
  reachable engine

      pending  ↔  blocked  →  running  →  started,

  an engine that is not started is at the entry with empty stacks, a blocked one has just
  carried out the `INPUT` whose prompt is pending, and a finished one is past the end of
  the first routine (`Engine.Lifecycle`).

  The status changes along these arrows and no others (`Status.Turn`):

      any ──load──▶ notStarted     running ──step──▶ running, blocked, finished
      any ──start──▶ running       blocked ──provide──▶ running

  From blocked to finished there is no way but by a value that is taken or by another
  program.  By another program there is one (`finished_across_load`).
-/
import StackCalc.Proofs.Engine.Refinement
import StackCalc.Proofs.Machine.Lifecycle

namespace StackCalc

/-! ## §1. The arrows. -/

/-- How a request takes an engine from one status to another, with the reply. -/
inductive Status.Turn : Request → Status → Reply → Status → Prop
  | load (program : Program) (status : Status) : Turn (.load program) status .done .notStarted
  | start (status : Status) : Turn .start status .done .running
  | startFails (status : Status) (fault : Fault) : Turn .start status (.failed fault) status
  | go (strategy : Strategy) : Turn (.step strategy) .running .stepped .running
  | ask (strategy : Strategy) : Turn (.step strategy) .running .stepped .blocked
  | finish (strategy : Strategy) : Turn (.step strategy) .running .finished .finished
  | stepFails (strategy : Strategy) (fault : Fault) :
      Turn (.step strategy) .running (.failed fault) .running
  /-- A step while the engine waits for a value. -/
  | poll (strategy : Strategy) : Turn (.step strategy) .blocked .stepped .blocked
  /-- A step while there is no run. -/
  | idle (strategy : Strategy) {status : Status} (h : status = .notStarted ∨ status = .finished) :
      Turn (.step strategy) status .idle status
  | provide (value : Float) : Turn (.provide value) .blocked .done .running
  | provideFails (value : Float) {status : Status} (h : status ≠ .blocked) :
      Turn (.provide value) status (.failed .notAwaitingInput) status
  | listen (on : Bool) (status : Status) : Turn (.listen on) status .done status

/-- The status of an engine in this phase. -/
def Phase.status : Phase → Status
  | .ready => .notStarted
  | .running => .running
  | .waiting _ => .blocked
  | .finished => .finished

theorem Phase.eq_ready_of_status {phase : Phase} (h : phase.status = .notStarted) :
    phase = .ready := by
  cases phase with
  | ready => rfl
  | _ => cases h

theorem Phase.eq_waiting_of_status {phase : Phase} (h : phase.status = .blocked) :
    ∃ prompt, phase = .waiting prompt := by
  cases phase with
  | waiting prompt => exact ⟨prompt, rfl⟩
  | _ => cases h

theorem Phase.eq_finished_of_status {phase : Phase} (h : phase.status = .finished) :
    phase = .finished := by
  cases phase with
  | finished => rfl
  | _ => cases h

namespace Machine

theorem turn_step (m : Machine) (strategy : Strategy) :
    Status.Turn (.step strategy) m.phase.status m.stepInto.reply
      m.stepInto.machine.phase.status := by
  cases hphase : m.phase with
  | ready | finished =>
    unfold stepInto stepWith
    rw [hphase]
    show Status.Turn (.step strategy) _ .idle m.phase.status
    rw [hphase]
    exact .idle strategy (by simp [Phase.status])
  | waiting prompt =>
    unfold stepInto stepWith
    rw [hphase]
    show Status.Turn (.step strategy) _ .stepped m.phase.status
    rw [hphase]
    exact .poll strategy
  | running =>
    rcases stepInto_cases hphase with ⟨image, -, hmoves⟩ | ⟨fault, -, hfail⟩
    · rcases hmoves.phase_cases with ⟨hreply, hsame, -⟩ | ⟨prompt, hreply, hwaiting, -⟩ |
        ⟨hreply, hfinished, -⟩
      · rw [hreply, hsame, hphase]
        exact .go strategy
      · rw [hreply, hwaiting]
        exact .ask strategy
      · rw [hreply, hfinished]
        exact .finish strategy
    · rw [hfail]
      show Status.Turn (.step strategy) _ (.failed fault) m.phase.status
      rw [hphase]
      exact .stepFails strategy fault

theorem turn_provide (m : Machine) (value : Float) :
    Status.Turn (.provide value) m.phase.status (m.provide value).reply
      (m.provide value).machine.phase.status := by
  unfold provide
  cases hphase : m.phase with
  | waiting prompt => exact .provide value
  | ready | running | finished =>
    show Status.Turn (.provide value) _ (.failed .notAwaitingInput) m.phase.status
    rw [hphase]
    exact .provideFails value Status.noConfusion

/-- Every request takes a machine along one of the arrows. -/
theorem turn_handle (m : Machine) (r : Request) :
    Status.Turn r m.phase.status (m.handle r).reply (m.handle r).machine.phase.status := by
  cases r with
  | load program => exact .load program m.phase.status
  | start =>
    show Status.Turn .start m.phase.status m.start.reply m.start.machine.phase.status
    rcases m.start_cases with ⟨-, hdone⟩ | ⟨fault, hfail⟩
    · rw [hdone]
      exact .start m.phase.status
    · rw [hfail]
      exact .startFails m.phase.status fault
  | step strategy =>
    rw [handle_step]
    exact m.turn_step strategy
  | provide value => exact m.turn_provide value
  | listen on => exact .listen on m.phase.status

end Machine

namespace Engine

variable {m : Machine} {e : Engine}

theorem status_ofMachine (m : Machine) (heard : List String) :
    (ofMachine m heard).status = m.phase.status := by
  rcases m with ⟨image, phase, stack, frames, cursor, listening⟩
  cases phase <;> rfl

/-- **Every request takes a reachable engine along one of the arrows.** -/
theorem Reachable.turn (h : e.Reachable) (r : Request) :
    Status.Turn r e.status (e.handle r).reply (e.handle r).engine.status := by
  obtain ⟨m, heard, -, rfl⟩ := h.exists_machine
  rw [handle_ofMachine, status_ofMachine]
  show Status.Turn r _ _ (ofMachine (m.handle r).machine _).status
  rw [status_ofMachine]
  exact m.turn_handle r

/-! ## §2. What the flags say. -/

/-- What a client may rely on in every state. -/
structure Lifecycle (e : Engine) : Prop where
  pending_iff : e.pending.isSome = true ↔ e.blocked = true
  running_of_blocked : e.blocked = true → e.running = true
  started_of_running : e.running = true → e.started = true
  /-- The instruction before the cursor is the `INPUT` whose prompt is pending. -/
  blocked : e.blocked = true → 1 ≤ e.position
    ∧ ∃ image prompt, e.image = some image ∧ e.pending = some prompt
      ∧ image.operation? ⟨e.routine, e.position - 1⟩ = some (.input prompt)
  notStarted : e.status = .notStarted → e.stack = [] ∧ e.frames = [] ∧ e.cursor = entry
  /-- The cursor is at or past the end of the first routine. -/
  finished : e.status = .finished → e.running = false ∧ e.frames = [] ∧ e.routine = entryName
    ∧ ∃ image body, e.image = some image ∧ image.body? entryName = some body
      ∧ body.length ≤ e.position

/-- A machine that can be reached stands for an engine that is as it should be.  That the
flags are always those of one phase, whichever request has set them, is `handle_ofMachine`;
here it remains to say what the flags of a phase are, and what the phase tells of the
rest. -/
theorem lifecycle_ofMachine (hm : m.Reachable) (heard : List String) :
    (ofMachine m heard).Lifecycle where
  pending_iff := Iff.rfl
  running_of_blocked := by
    show m.isWaiting = true → m.isRunning = true
    unfold Machine.isWaiting Machine.pending? Machine.isRunning
    cases m.phase <;> simp
  started_of_running := by
    show m.isRunning = true → m.isStarted = true
    unfold Machine.isRunning Machine.isStarted
    cases m.phase <;> simp
  blocked := by
    intro hblocked
    obtain ⟨prompt, hpending⟩ := Option.isSome_iff_exists.1 hblocked
    obtain ⟨image, l, himage, hop, hcursor⟩ :=
      hm.consistent.waiting prompt (Machine.phase_of_pending? hpending)
    show 1 ≤ m.cursor.position ∧ ∃ image prompt, m.image = some image ∧ m.pending? = some prompt
      ∧ image.operation? ⟨m.cursor.routine, m.cursor.position - 1⟩ = some (.input prompt)
    rw [hcursor]
    exact ⟨Nat.le_add_left 1 l.position, image, prompt, himage, hpending, hop⟩
  notStarted := by
    rw [status_ofMachine]
    intro hstatus
    exact hm.consistent.ready (Phase.eq_ready_of_status hstatus)
  finished := by
    rw [status_ofMachine]
    intro hstatus
    have hphase := Phase.eq_finished_of_status hstatus
    obtain ⟨image, himage, hend, hframes⟩ := hm.consistent.finished hphase
    obtain ⟨image', himage', hchain⟩ := hm.linked (by simp [hphase])
    obtain rfl : image' = image := Option.some.inj (himage'.symm.trans himage)
    have hrunning : m.isRunning = false := by
      unfold Machine.isRunning
      rw [hphase]
    -- no call is open, so the chain of calls is the first routine alone
    rw [Machine.places, hframes] at hchain
    cases hchain with
    | first hname hknown =>
      obtain ⟨body, hbody⟩ := Option.isSome_iff_exists.1 hknown
      refine ⟨hrunning, hframes, hname, _, body, himage, hname ▸ hbody, ?_⟩
      exact (Image.operation?_eq_none_iff hbody).1 hend

theorem Reachable.lifecycle (h : e.Reachable) : e.Lifecycle := by
  obtain ⟨m, heard, hm, rfl⟩ := h.exists_machine
  exact lifecycle_ofMachine hm heard

/-! ## §3. Steps that are none, and the way from blocked to finished. -/

/-- An engine that is not running does not take a step. -/
theorem Reachable.step_eq_self (h : e.Reachable) (hstatus : e.status ≠ .running)
    (strategy : Strategy) : (e.handle (.step strategy)).engine = e := by
  rw [handle_step, stepInto]
  cases hrunning : e.running with
  | false => rw [run_stepWith_of_idle perform hrunning, Answer.of]
  | true =>
    have hblocked : e.blocked = true := by
      by_contra hblocked
      refine hstatus ?_
      simp [status, h.lifecycle.started_of_running hrunning, hblocked, hrunning]
    rw [run_stepWith_of_blocked perform hrunning hblocked, Answer.of]

/-- **From blocked to finished there is no way but by a value that is taken or another
program.** -/
theorem Reachable.provided_or_loaded {history : List Request} (h : e.Reachable)
    (hblocked : e.status = .blocked) (hfinished : (e.after history).status = .finished) :
    (∃ before value rest, history = before ++ .provide value :: rest
        ∧ ((e.after before).handle (.provide value)).reply = .done)
      ∨ ∃ program, .load program ∈ history := by
  obtain ⟨m, heard, hm, rfl⟩ := h.exists_machine
  rw [status_ofMachine] at hblocked
  rw [after_ofMachine, status_ofMachine] at hfinished
  obtain ⟨prompt, hwaiting⟩ := Phase.eq_waiting_of_status hblocked
  by_contra hnone
  rw [not_or, not_exists] at hnone
  obtain ⟨hprovide, hload⟩ := hnone
  refine hm.phase_ne_finished hwaiting (not_exists.1 hload) ?_
    (Phase.eq_finished_of_status hfinished)
  intro before value rest hsplit hdone
  refine hprovide before ⟨value, rest, hsplit, ?_⟩
  rw [after_ofMachine, handle_ofMachine]
  exact hdone

end Engine

/-! ## §4. The life of an engine. -/

/-- **The life of every reachable engine.**  Its flags, its cursor and its stacks fit
together, every request takes the status along one of the arrows, an engine that is not
running does not take a step, and one that is blocked does not finish unless a value is
taken or a program loaded on the way. -/
theorem lifecycle_of_reachable {e : Engine} (he : e.Reachable) :
    e.Lifecycle
      ∧ (∀ r, Status.Turn r e.status (e.handle r).reply (e.handle r).engine.status)
      ∧ (∀ strategy, e.status ≠ .running → (e.handle (.step strategy)).engine = e)
      ∧ ∀ history, e.status = .blocked → (e.after history).status = .finished →
          (∃ before value rest, history = before ++ .provide value :: rest
              ∧ ((e.after before).handle (.provide value)).reply = .done)
            ∨ ∃ program, .load program ∈ history :=
  ⟨he.lifecycle, he.turn, fun strategy hstatus => he.step_eq_self hstatus strategy,
    fun _ hblocked hfinished => he.provided_or_loaded hblocked hfinished⟩

/-- An engine that has `doublingProgram` loaded, with the image written out. -/
theorem Engine.after_load_doublingProgram (history : List Request) :
    Engine.after {} (.load doublingProgram :: history)
      = Engine.after { image := some doublingImage } history := by
  rw [← ofProgram_doublingProgram]
  rfl

/-- `doublingProgram` from its question to its end, started anew on the way. -/
def doublingAnswer : List Request :=
  [.start, .step .into, .step .into, .step .into, .provide 3, .step .over, .step .over,
    .step .into, .step .into]

theorem lifecycle_of_reachable_doublingHistory :
    let e := Engine.after {} doublingHistory
    e.status = .blocked ∧ e.Lifecycle ∧ e.cursor = ⟨"twice", 1⟩
      ∧ (∃ image prompt, e.image = some image ∧ e.pending = some prompt
          ∧ image.operation? ⟨"twice", 0⟩ = some (.input prompt))
      ∧ (e.handle (.step .over)).engine = e
      ∧ Status.Turn (.provide 3) .blocked (e.handle (.provide 3)).reply
          (e.handle (.provide 3)).engine.status
      ∧ (e.after doublingAnswer).status = .finished
      ∧ ((∃ before value rest, doublingAnswer = before ++ .provide value :: rest
            ∧ ((e.after before).handle (.provide value)).reply = .done)
          ∨ ∃ program, .load program ∈ doublingAnswer) := by
  intro e
  have he : e.Reachable := ⟨doublingHistory, rfl⟩
  have hloaded : e = Engine.after { image := some doublingImage } doublingHistory.tail :=
    Engine.after_load_doublingProgram _
  have hstatus : e.status = .blocked := by
    rw [hloaded]
    decide +kernel
  have hcursor : e.cursor = ⟨"twice", 1⟩ := by
    rw [hloaded]
    decide +kernel
  have hblocked : e.blocked = true := by
    rw [hloaded]
    decide +kernel
  have hfinished : (e.after doublingAnswer).status = .finished := by
    rw [hloaded]
    decide +kernel
  obtain ⟨hlife, hturn, hstep, hvalue⟩ := lifecycle_of_reachable he
  have hquestion := (hlife.blocked hblocked).2
  rw [show e.routine = "twice" from congrArg Location.routine hcursor,
    show e.position = 1 from congrArg Location.position hcursor] at hquestion
  have hprovide := hturn (.provide 3)
  rw [hstatus] at hprovide
  refine ⟨hstatus, hlife, hcursor, hquestion, hstep .over ?_, hprovide, hfinished, ?_⟩
  · rw [hstatus]
    exact Status.noConfusion
  · exact hvalue doublingAnswer hstatus hfinished

/-- A program that does nothing. -/
def idleProgram : Program where
  routines := [⟨1, "main"⟩]
  instructions := []

/-- Another program is loaded and run to its end. -/
def idleRun : List Request :=
  [.load idleProgram, .start, .step .into]

/-- A load drops an open question: an engine that is blocked comes to be finished, by way
of another program, and no value is provided in between. -/
theorem finished_across_load :
    let e := Engine.after {} [.load doublingProgram, .start, .step .into, .step .into]
    e.Reachable ∧ e.status = .blocked ∧ (e.after idleRun).status = .finished
      ∧ ∀ value, .provide value ∉ idleRun := by
  intro e
  have hloaded : e = Engine.after { image := some doublingImage }
      [.start, .step .into, .step .into] := Engine.after_load_doublingProgram _
  refine ⟨⟨_, rfl⟩, ?_, ?_, ?_⟩
  · rw [hloaded]
    decide +kernel
  · rw [hloaded]
    decide +kernel
  · simp [idleRun]

end StackCalc
