/-
  StackCalc.Proofs.Engine.Action
  ──────────────────────────────
  **WHAT EACH ACTION OF THE ENGINE COMES TO.**

  An action of the engine is a sequence of small ones, each of which may fail.  Here
  every action gets its equation, which says what it comes to on each engine.

  The arithmetic actions carry the argument.  After `require` has counted the values,
  the `pop`s that follow it find them,

      require     fails, or  arity ≤ length
      pop, pop    do not fail on a stack of that length
      push        does not fail,

  so that an operation on values is its effect on the stack
  (`run_execute_of_effect?`), or fails with the stack as it was
  (`run_execute_of_lt`, `run_execute_of_dividesByZero`).  This is so since the arity of
  an opcode is the number of values that are taken off for it: with a smaller one the
  second `pop` would fail after the first has changed the stack.
-/
import StackCalc.Engine.Step

namespace StackCalc.Engine

variable {α β : Type} {e e' : Engine} {fault : Fault} {opcode : Opcode} {op : Operation}
  {a b : Float} {rest stack : List Float}

/-! ## §1. One action after another. -/

theorem run_bind_of_ok {act : Action α} {result : α} (f : α → Action β)
    (h : act.run e = .ok result e') : (act >>= f).run e = (f result).run e' := by
  rw [EStateM.run_bind, h]

/-- What comes after an action that fails is not done. -/
theorem run_bind_of_error {act : Action α} (f : α → Action β)
    (h : act.run e = .error fault e') : (act >>= f).run e = .error fault e' := by
  rw [EStateM.run_bind, h]

theorem run_bind_get (f : Engine → Action α) (e : Engine) : (get >>= f).run e = (f e).run e :=
  rfl

/-! ## §2. Values. -/

theorem run_require_of_lt (h : e.stack.length < opcode.arity) :
    (require opcode).run e = .error (.stackUnderflow opcode e.cursor) e := by
  show (if e.stack.length < opcode.arity then _ else _ : Action Unit).run e = _
  rw [if_pos h]
  rfl

theorem run_require_of_le (h : opcode.arity ≤ e.stack.length) :
    (require opcode).run e = .ok () e := by
  show (if e.stack.length < opcode.arity then _ else _ : Action Unit).run e = _
  rw [if_neg (Nat.not_lt.2 h)]
  rfl

theorem run_pop_of_cons (opcode : Opcode) (h : e.stack = a :: rest) :
    (pop opcode).run e = .ok a { e with stack := rest } := by
  unfold pop
  rw [run_bind_get]
  simp only [h]
  rfl

/-- With two values on the stack both `pop`s succeed. -/
theorem run_binary_of_cons (f : Float → Float → Float) (harity : opcode.arity = 2)
    (h : e.stack = a :: b :: rest) :
    (binary opcode f).run e = .ok () { e with stack := f b a :: rest } := by
  have hcounted : opcode.arity ≤ e.stack.length := by simp [harity, h]
  have hsecond : (pop opcode).run { e with stack := b :: rest } = .ok b { e with stack := rest } :=
    run_pop_of_cons opcode rfl
  calc (binary opcode f).run e
      = (do let a ← pop opcode; let b ← pop opcode; push (f b a) : Action Unit).run e :=
        run_bind_of_ok _ (run_require_of_le hcounted)
    _ = (do let b ← pop opcode; push (f b a) : Action Unit).run { e with stack := b :: rest } :=
        run_bind_of_ok _ (run_pop_of_cons opcode h)
    _ = (push (f b a)).run { e with stack := rest } := run_bind_of_ok _ hsecond
    _ = .ok () { e with stack := f b a :: rest } := rfl

theorem run_unary_of_cons (f : Float → Float) (harity : opcode.arity = 1) (h : e.stack = a :: rest) :
    (unary opcode f).run e = .ok () { e with stack := f a :: rest } := by
  have hcounted : opcode.arity ≤ e.stack.length := by simp [harity, h]
  calc (unary opcode f).run e
      = (do let a ← pop opcode; push (f a) : Action Unit).run e :=
        run_bind_of_ok _ (run_require_of_le hcounted)
    _ = (push (f a)).run { e with stack := rest } := run_bind_of_ok _ (run_pop_of_cons opcode h)
    _ = .ok () { e with stack := f a :: rest } := rfl

theorem run_duplicate_of_cons (h : e.stack = a :: rest) :
    duplicate.run e = .ok () { e with stack := a :: a :: rest } := by
  have hcounted : Opcode.dup.arity ≤ e.stack.length := by simp [Opcode.arity, h]
  calc duplicate.run e
      = (do let a ← pop .dup; push a; push a : Action Unit).run e :=
        run_bind_of_ok _ (run_require_of_le hcounted)
    _ = (do push a; push a : Action Unit).run { e with stack := rest } :=
        run_bind_of_ok _ (run_pop_of_cons .dup h)
    _ = .ok () { e with stack := a :: a :: rest } := rfl

/-- Once the values are counted, the divisor decides. -/
theorem run_divide_of_le (h : Opcode.div.arity ≤ e.stack.length) :
    divide.run e = if e.stack.head?.any (· == 0) then .error (.divisionByZero e.cursor) e
      else (binary .div fun b a => b / a).run e := by
  calc divide.run e
      = (if e.stack.head?.any (· == 0) then throw (.divisionByZero e.cursor)
          else binary .div fun b a => b / a : Action Unit).run e :=
        run_bind_of_ok _ (run_require_of_le h)
    _ = _ := by
      split
      · rfl
      · rfl

/-! ## §3. Operations on values. -/

/-- An operation on too few values fails, whichever it is: it begins with counting them. -/
theorem run_execute_of_lt (h : e.stack.length < op.opcode.arity) :
    (execute op).run e = .error (.stackUnderflow op.opcode e.cursor) e := by
  cases op with
  | add | sub | mul | div | sin | cos | tan | dup =>
    exact run_bind_of_error _ (run_bind_of_error _ (run_require_of_lt h))
  | push | input | label | goto | call => exact absurd h (Nat.not_lt_zero _)

/-- The divisor is the topmost value. -/
theorem dividesByZero_div (s : List Float) :
    Operation.div.dividesByZero s = s.head?.any (· == 0) := by
  cases s <;> rfl

theorem run_execute_of_dividesByZero (hcounted : op.opcode.arity ≤ e.stack.length)
    (hzero : op.dividesByZero e.stack = true) :
    (execute op).run e = .error (.divisionByZero e.cursor) e := by
  cases op with
  | div =>
    rw [dividesByZero_div] at hzero
    exact run_bind_of_error _ ((run_divide_of_le hcounted).trans (if_pos hzero))
  | _ => cases hzero

/-- An operation that has an effect has its values. -/
theorem arity_le_of_effect? {s : List Float} (h : op.effect? s = some stack) :
    op.opcode.arity ≤ s.length := by
  rw [← op.isSome_effect?_iff, h]
  rfl

theorem exists_cons_cons_of_effect? {s : List Float} (harity : op.opcode.arity = 2)
    (h : op.effect? s = some stack) : ∃ a b rest, s = a :: b :: rest := by
  have hlength := arity_le_of_effect? h
  rw [harity] at hlength
  match s, hlength with
  | a :: b :: rest, _ => exact ⟨a, b, rest, rfl⟩

theorem exists_cons_of_effect? {s : List Float} (harity : op.opcode.arity = 1)
    (h : op.effect? s = some stack) : ∃ a rest, s = a :: rest := by
  have hlength := arity_le_of_effect? h
  rw [harity] at hlength
  match s, hlength with
  | a :: rest, _ => exact ⟨a, rest, rfl⟩

/-- **An operation on values is its effect on the stack.** -/
theorem run_execute_of_effect? (hinput : ∀ prompt, op ≠ .input prompt)
    (hgoto : ∀ name, op ≠ .goto name) (hcall : ∀ name, op ≠ .call name)
    (heffect : op.effect? e.stack = some stack) (hzero : op.dividesByZero e.stack = false) :
    (execute op).run e = .ok .next { e with stack } := by
  cases op with
  | add | sub | mul =>
    obtain ⟨a, b, rest, hstack⟩ := exists_cons_cons_of_effect? rfl heffect
    rw [hstack] at heffect
    cases heffect
    exact run_bind_of_ok _ (run_binary_of_cons _ rfl hstack)
  | div =>
    obtain ⟨a, b, rest, hstack⟩ := exists_cons_cons_of_effect? rfl heffect
    -- the values are counted a second time, with the same result
    have hdivides : divide.run e = (binary .div fun b a => b / a).run e := by
      rw [dividesByZero_div] at hzero
      rw [run_divide_of_le (arity_le_of_effect? heffect), hzero]
      rfl
    rw [hstack] at heffect
    cases heffect
    exact run_bind_of_ok _ (hdivides.trans (run_binary_of_cons _ rfl hstack))
  | sin | cos | tan =>
    obtain ⟨a, rest, hstack⟩ := exists_cons_of_effect? rfl heffect
    rw [hstack] at heffect
    cases heffect
    exact run_bind_of_ok _ (run_unary_of_cons _ rfl hstack)
  | dup =>
    obtain ⟨a, rest, hstack⟩ := exists_cons_of_effect? rfl heffect
    rw [hstack] at heffect
    cases heffect
    exact run_bind_of_ok _ (run_duplicate_of_cons hstack)
  | push value =>
    cases heffect
    rfl
  | label name =>
    cases heffect
    rfl
  | input prompt => exact absurd rfl (hinput prompt)
  | goto name => exact absurd rfl (hgoto name)
  | call name => exact absurd rfl (hcall name)

/-! ## §4. Questions, jumps and calls. -/

theorem run_ask (prompt : String) (e : Engine) :
    (ask prompt).run e = .ok () { e with
      blocked := true, pending := some prompt,
      heard := e.heard ++ if e.listening then [prompt] else [] } := by
  show (if e.listening then _ else _ : Action Unit).run { e with
    blocked := true, pending := some prompt } = _
  cases e.listening with
  | true => rfl
  | false =>
    rw [if_neg Bool.false_ne_true, if_neg Bool.false_ne_true, List.append_nil]
    rfl

theorem run_provide (value : Float) (e : Engine) :
    (provide value).run e =
      if e.blocked then
        .ok () { e with stack := value :: e.stack, blocked := false, pending := none }
      else .error .notAwaitingInput e := by
  show (if e.blocked then _ else _ : Action Unit).run e = _
  split
  · rfl
  · rfl

theorem run_target (name : String) (e : Engine) :
    (target name).run e =
      match e.image.bind (·.label? name) with
      | none => .error (.unknownLabel name e.cursor) e
      | some position => .ok position e := by
  unfold target
  rw [run_bind_get]
  cases e.image.bind (·.label? name) <;> rfl

theorem run_enter (name : String) (e : Engine) :
    (enter name).run e =
      if e.image.any (·.contains name) then
        .ok () { e with frames := e.cursor :: e.frames, routine := name, position := 0 }
      else .error (.unknownRoutine name e.cursor) e := by
  show (if e.image.any (·.contains name) then _ else _ : Action Unit).run e = _
  split
  · rfl
  · rfl

theorem run_execute_input (prompt : String) (e : Engine) :
    (execute (.input prompt)).run e = .ok .next { e with
      blocked := true, pending := some prompt,
      heard := e.heard ++ if e.listening then [prompt] else [] } :=
  run_bind_of_ok _ (run_ask prompt e)

theorem run_execute_goto (name : String) (e : Engine) :
    (execute (.goto name)).run e =
      match e.image.bind (·.label? name) with
      | none => .error (.unknownLabel name e.cursor) e
      | some position => .ok (.jump position) e := by
  unfold execute
  rw [EStateM.run_bind, run_target]
  cases e.image.bind (·.label? name) <;> rfl

theorem run_execute_call (name : String) (e : Engine) :
    (execute (.call name)).run e =
      if e.image.any (·.contains name) then
        .ok .entered { e with frames := e.cursor :: e.frames, routine := name, position := 0 }
      else .error (.unknownRoutine name e.cursor) e := by
  unfold execute
  rw [EStateM.run_bind, run_enter]
  by_cases hname : e.image.any (·.contains name) = true
  · rw [if_pos hname, if_pos hname]
    rfl
  · rw [if_neg hname, if_neg hname]

theorem run_perform_of_ok {flow : Flow} (h : (execute op).run e = .ok flow e') :
    (perform op).run e = (advance flow).run e' :=
  run_bind_of_ok _ h

theorem run_perform_of_error (h : (execute op).run e = .error fault e') :
    (perform op).run e = .error fault e' :=
  run_bind_of_error _ h

theorem run_leave (e : Engine) :
    leave.run e =
      match e.frames with
      | [] => .ok .finished { e with running := false }
      | frame :: frames => .ok .stepped { e with
          frames, routine := frame.routine, position := frame.position + 1 } := by
  rcases e with ⟨_, _, _ | ⟨frame, frames⟩⟩
  · rfl
  · rfl

/-! ## §5. Steps and requests. -/

theorem run_fetch (e : Engine) :
    fetch.run e =
      match e.image with
      | none => .error .noProgram e
      | some image =>
        match image.body? e.routine with
        | none => .error (.unknownRoutine e.routine e.cursor) e
        | some body => .ok body[e.position]? e := by
  unfold fetch
  rw [run_bind_get]
  cases e.image with
  | none => rfl
  | some image =>
    simp only
    cases image.body? e.routine <;> rfl

theorem run_stepWith_of_idle (carryOut : Operation → Action Unit) (hrunning : e.running = false) :
    (stepWith carryOut).run e = .ok .idle e := by
  unfold stepWith
  rw [run_bind_get, if_pos hrunning]
  rfl

theorem run_stepWith_of_blocked (carryOut : Operation → Action Unit) (hrunning : e.running = true)
    (hblocked : e.blocked = true) : (stepWith carryOut).run e = .ok .stepped e := by
  unfold stepWith
  rw [run_bind_get, if_neg (by simp [hrunning]), if_pos hblocked]
  rfl

theorem run_stepWith_of_running (carryOut : Operation → Action Unit) (hrunning : e.running = true)
    (hblocked : e.blocked = false) :
    (stepWith carryOut).run e =
      (do match ← fetch with
          | none => leave
          | some i => do carryOut i.operation; return .stepped : Action Outcome).run e := by
  unfold stepWith
  rw [run_bind_get, if_neg (by simp [hrunning])]
  exact congrArg (EStateM.run · e) (if_neg (by simp [hblocked]))

theorem run_start (e : Engine) :
    start.run e =
      match e.image with
      | none => .error .noProgram e
      | some image =>
        if image.isEmpty then .error .noProgram e
        else if image.contains entryName then
          .ok () { e with
            stack := [], frames := [], routine := entryName, position := 0, running := true,
            blocked := false, started := true, pending := none }
        else .error .noMain e := by
  rcases e with ⟨_ | image⟩
  · rfl
  · show (if image.isEmpty then _ else if image.contains entryName then _ else _ :
      Action Unit).run _ = if image.isEmpty then _ else if image.contains entryName then _ else _
    split
    · rfl
    · split
      · rfl
      · rfl

/-- The two ways to step are one: a `CALL` that is carried out has entered its routine, and
the cursor is not moved again. -/
theorem stepOver_eq_stepInto : stepOver = stepInto := by
  unfold stepOver stepInto
  congr
  funext op
  cases op with
  | call name =>
    show enter name = _
    simp [perform, execute, advance]
  | _ => rfl

theorem serve_step (strategy : Strategy) : serve (.step strategy) = stepInto := by
  cases strategy
  · rfl
  · exact stepOver_eq_stepInto

theorem handle_step (e : Engine) (strategy : Strategy) :
    e.handle (.step strategy) = .of (stepInto.run e) := by
  unfold handle
  rw [serve_step]

theorem handle_of_ok {r : Request} {outcome : Outcome} (h : (serve r).run e = .ok outcome e') :
    e.handle r = ⟨e', replyOf outcome⟩ :=
  congrArg Answer.of h

theorem handle_of_error {r : Request} (h : (serve r).run e = .error fault e') :
    e.handle r = ⟨e', .failed fault⟩ :=
  congrArg Answer.of h

end StackCalc.Engine
