/-
  StackCalc.Proofs.Engine.Failure
  ───────────────────────────────
  **A REQUEST THAT FAILS CHANGES NOTHING.**

  Nothing is undone when an action of the engine fails, so a failure leaves the engine
  as it was only if nothing was changed before it.  This is so for every request: what
  can fail comes before what changes anything,

      Reads    then  Atomic      is  Atomic
      Atomic   then  Sure        is  Atomic,

  and where an action that changes the engine is followed by one that could fail, as a
  `pop` by a `pop`, the values have been counted before (`atomic_execute`).

  It follows that a step that failed fails in the same way however often and in
  whichever way it is made again.
-/
import StackCalc.Proofs.Engine.Action

namespace StackCalc

namespace Engine

variable {α β : Type} {e : Engine} {fault : Fault}

/-! ## §1. Actions that read, that cannot fail, that change nothing when they fail. -/

/-- The action leaves the engine as it was whenever it fails. -/
def Atomic (act : Action α) : Prop :=
  ∀ e fault e', act.run e = .error fault e' → e' = e

/-- The action looks at the engine only. -/
def Reads (act : Action α) : Prop :=
  ∀ e, (∃ result, act.run e = .ok result e) ∨ ∃ fault, act.run e = .error fault e

/-- The action does not fail. -/
def Sure (act : Action α) : Prop :=
  ∀ e, ∃ result e', act.run e = .ok result e'

/-- A `pop` after a `pop` is not atomic: the first value is lost. -/
example : (do let _ ← pop .add; pop .add : Action Float).run { stack := [1] }
    = .error (.stackUnderflow .add entry) { stack := [] } :=
  rfl

theorem Sure.atomic {act : Action α} (h : Sure act) : Atomic act := by
  intro e fault e' herror
  obtain ⟨result, e'', hok⟩ := h e
  rw [hok] at herror
  cases herror

theorem Reads.bind {act : Action α} {f : α → Action β} (h : Reads act)
    (hf : ∀ result, Atomic (f result)) : Atomic (act >>= f) := by
  intro e fault e' herror
  rcases h e with ⟨result, hok⟩ | ⟨fault', hfault⟩
  · rw [run_bind_of_ok f hok] at herror
    exact hf result e fault e' herror
  · rw [run_bind_of_error f hfault] at herror
    cases herror
    rfl

theorem Atomic.bind {act : Action α} {f : α → Action β} (h : Atomic act)
    (hf : ∀ result, Sure (f result)) : Atomic (act >>= f) := by
  intro e fault e' herror
  cases hact : act.run e with
  | ok result e'' =>
    obtain ⟨result', e₁, hok⟩ := hf result e''
    rw [run_bind_of_ok f hact, hok] at herror
    cases herror
  | error fault' e'' =>
    rw [run_bind_of_error f hact] at herror
    cases herror
    exact h e fault e' hact

theorem sure_pure (result : α) : Sure (pure result) :=
  fun e => ⟨result, e, rfl⟩

theorem reads_get : Reads get :=
  fun e => .inl ⟨e, rfl⟩

/-! ## §2. The actions. -/

theorem reads_target (name : String) : Reads (target name) := by
  intro e
  rw [run_target]
  split
  · exact .inr ⟨_, rfl⟩
  · exact .inl ⟨_, rfl⟩

theorem reads_fetch : Reads fetch := by
  intro e
  rw [run_fetch]
  split
  · exact .inr ⟨_, rfl⟩
  · split
    · exact .inr ⟨_, rfl⟩
    · exact .inl ⟨_, rfl⟩

theorem sure_ask (prompt : String) : Sure (ask prompt) :=
  fun e => ⟨_, _, run_ask prompt e⟩

theorem sure_leave : Sure leave := by
  intro e
  rw [run_leave]
  split
  · exact ⟨_, _, rfl⟩
  · exact ⟨_, _, rfl⟩

theorem sure_advance (flow : Flow) : Sure (advance flow) := by
  intro e
  cases flow with
  | next | jump position | entered => exact ⟨_, _, rfl⟩

theorem atomic_enter (name : String) : Atomic (enter name) := by
  intro e fault e' herror
  rw [run_enter] at herror
  split at herror
  · cases herror
  · cases herror
    rfl

theorem atomic_provide (value : Float) : Atomic (provide value) := by
  intro e fault e' herror
  rw [run_provide] at herror
  split at herror
  · cases herror
  · cases herror
    rfl

theorem atomic_start : Atomic start := by
  intro e fault e' herror
  rw [run_start] at herror
  split at herror
  · cases herror
    rfl
  · split at herror
    · cases herror
      rfl
    · split at herror
      · cases herror
      · cases herror
        rfl

/-- **No operation fails after it has changed something.** -/
theorem atomic_execute (op : Operation) : Atomic (execute op) := by
  intro e fault e' herror
  by_cases hcounted : op.opcode.arity ≤ e.stack.length
  · obtain ⟨stack, heffect⟩ :=
      Option.isSome_iff_exists.1 ((op.isSome_effect?_iff e.stack).2 hcounted)
    cases hzero : op.dividesByZero e.stack with
    | true =>
      rw [run_execute_of_dividesByZero hcounted hzero] at herror
      cases herror
      rfl
    | false =>
      cases op with
      | input prompt => exact (sure_ask prompt).atomic.bind (fun _ => sure_pure _) e fault e' herror
      | goto name =>
        exact (reads_target name).bind (fun _ => (sure_pure _).atomic) e fault e' herror
      | call name => exact (atomic_enter name).bind (fun _ => sure_pure _) e fault e' herror
      | _ =>
        -- the values are there, so the operation has its effect and does not fail
        rw [run_execute_of_effect? (by simp) (by simp) (by simp) heffect hzero] at herror
        cases herror
  · rw [run_execute_of_lt (Nat.not_le.1 hcounted)] at herror
    cases herror
    rfl

theorem atomic_perform (op : Operation) : Atomic (perform op) :=
  (atomic_execute op).bind sure_advance

theorem atomic_stepInto : Atomic stepInto := by
  refine reads_get.bind fun e => ?_
  split
  · exact (sure_pure _).atomic
  · split
    · exact (sure_pure _).atomic
    · refine reads_fetch.bind fun i => ?_
      cases i with
      | none => exact sure_leave.atomic
      | some i => exact (atomic_perform i.operation).bind fun _ => sure_pure _

theorem atomic_serve (r : Request) : Atomic (serve r) := by
  cases r with
  | load program => exact Sure.atomic fun e => ⟨_, _, rfl⟩
  | start => exact atomic_start.bind fun _ => sure_pure _
  | step strategy =>
    rw [serve_step]
    exact atomic_stepInto
  | provide value => exact (atomic_provide value).bind fun _ => sure_pure _
  | listen on => exact Sure.atomic fun e => ⟨_, _, rfl⟩

/-! ## §3. Requests. -/

/-- **A request that fails leaves the engine as it is.** -/
theorem handle_of_failed {r : Request} (h : (e.handle r).reply = .failed fault) :
    e.handle r = ⟨e, .failed fault⟩ := by
  cases hrun : (serve r).run e with
  | ok outcome e' =>
    rw [handle_of_ok hrun] at h
    cases outcome <;> cases h
  | error fault' e' =>
    rw [handle_of_error hrun] at h ⊢
    cases h
    rw [atomic_serve r e fault e' hrun]

/-- A step that fails is answered in the same way every time. -/
theorem answers_of_failed {strategy : Strategy}
    (h : e.handle (.step strategy) = ⟨e, .failed fault⟩) (strategies : List Strategy) :
    e.answers (strategies.map .step) = strategies.map fun _ => ⟨e, .failed fault⟩ := by
  induction strategies with
  | nil => rfl
  | cons strategy' strategies ih =>
    have hfirst : e.handle (.step strategy') = ⟨e, .failed fault⟩ := by
      rw [← h, handle_step, handle_step]
    rw [List.map_cons, answers, hfirst]
    show ⟨e, .failed fault⟩ :: e.answers (strategies.map .step) = _
    rw [ih, List.map_cons]

end Engine

/-! ## §4. Failures. -/

/-- **Failures are atomic and can be reproduced.**  A request that fails leaves every
part of the engine as it was, and nothing was heard by a listener; and if it was a step,
then however often and in whichever way it is made again, it fails with the same fault,
and still nothing has changed. -/
theorem unchanged_of_failed {e : Engine} {r : Request} {fault : Fault}
    (h : (e.handle r).reply = .failed fault) :
    (e.handle r).engine = e
      ∧ ∀ strategy, r = .step strategy → ∀ strategies : List Strategy,
          e.answers (strategies.map .step) = strategies.map fun _ => ⟨e, .failed fault⟩ := by
  have hfail := Engine.handle_of_failed h
  refine ⟨congrArg Engine.Answer.engine hfail, ?_⟩
  rintro strategy rfl strategies
  exact Engine.answers_of_failed hfail strategies

/-- An engine at a division of 8 by -0, with a listener. -/
def dividingEngine : Engine where
  image := some ⟨[("main", [⟨1, 1, 0, .div⟩])], []⟩
  stack := [-0, 8]
  running := true
  started := true
  listening := true
  heard := ["x?"]

theorem unchanged_of_failed_dividingEngine :
    (dividingEngine.handle (.step .over)).reply = .failed (.divisionByZero ⟨"main", 0⟩)
      ∧ (dividingEngine.handle (.step .over)).engine = dividingEngine
      ∧ dividingEngine.answers [.step .into, .step .over]
        = [⟨dividingEngine, .failed (.divisionByZero ⟨"main", 0⟩)⟩,
          ⟨dividingEngine, .failed (.divisionByZero ⟨"main", 0⟩)⟩] := by
  have hfailed : (dividingEngine.handle (.step .over)).reply
      = .failed (.divisionByZero ⟨"main", 0⟩) := by decide +kernel
  obtain ⟨hengine, hagain⟩ := unchanged_of_failed hfailed
  exact ⟨hfailed, hengine, hagain .over rfl [.into, .over]⟩

end StackCalc
