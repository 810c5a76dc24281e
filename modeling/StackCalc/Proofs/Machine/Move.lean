/-
  StackCalc.Proofs.Machine.Move
  ─────────────────────────────
  **WHAT A STEP CAN DO.**

  A step of a running machine moves it (`Machine.Moves`) or is refused
  (`Machine.Refuses`), and there are six moves:

      next     carry out an operation that changes the stack at most
      ask      carry out an `INPUT`
      jump     carry out a `GOTO`
      enter    carry out a `CALL`
      leave    return to the caller, past the end of a routine
      finish   end the run, past the end of the first routine

  Every invariant of the machine is derived from these cases.  For what concerns
  the open calls three of them do: seen as a stack of places, the machine goes on
  in the innermost routine, opens one, or leaves it (`Image.Shift`).
-/
import StackCalc.Proofs.Machine.Coupling
import StackCalc.Proofs.Machine.Image

namespace StackCalc

/-! ## §1. Places. -/

namespace Image

variable {image : Image} {l : Location} {op : Operation}

/-- The operation at a place; none past the end of a routine. -/
def operation? (image : Image) (l : Location) : Option Operation :=
  (image.body? l.routine).bind fun body => body[l.position]?.map (·.operation)

/-- Where a routine goes on after the operation at a place.  After a `CALL` this is
the place to which the call returns. -/
def successor? (image : Image) (l : Location) : Option Location :=
  match image.operation? l with
  | none => none
  | some (.goto name) => (image.label? name).map fun position => { l with position }
  | some _ => some l.next

theorem successor?_of_ne_goto (hop : image.operation? l = some op)
    (hgoto : ∀ name, op ≠ .goto name) : image.successor? l = some l.next := by
  unfold successor?
  rw [hop]
  cases op with
  | goto name => exact absurd rfl (hgoto name)
  | _ => rfl

theorem successor?_goto {name : String} {position : Nat}
    (hop : image.operation? l = some (.goto name)) (hlabel : image.label? name = some position) :
    image.successor? l = some { l with position } := by
  unfold successor?
  simp only [hop, hlabel, Option.map_some]

/-- A routine goes on in itself. -/
theorem routine_of_successor? {l' : Location} (h : image.successor? l = some l') :
    l'.routine = l.routine := by
  unfold successor? at h
  split at h
  · cases h
  · obtain ⟨position, -, rfl⟩ := Option.map_eq_some_iff.1 h
    rfl
  · cases h
    rfl

/-- Past the end of a routine there is no operation, and there only. -/
theorem operation?_eq_none_iff {body : List Instruction} (hbody : image.body? l.routine = some body) :
    image.operation? l = none ↔ body.length ≤ l.position := by
  unfold operation?
  rw [hbody, Option.bind_some, Option.map_eq_none_iff, List.getElem?_eq_none_iff]

end Image

namespace Machine

variable {m : Machine} {image : Image}

/-- The places of the open routines, the innermost first: the cursor, and then the
calls that wait. -/
def places (m : Machine) : List Location :=
  m.cursor :: m.frames

theorem reverse_places (m : Machine) : m.places.reverse = m.callers ++ [m.cursor] :=
  List.reverse_cons

theorem operation?_cursor (himage : m.image = some image) :
    image.operation? m.cursor = m.current?.map (·.operation) := by
  unfold Image.operation? current? body?
  rw [himage, Option.bind_some]
  cases image.body? m.cursor.routine <;> rfl

/-! ## §2. Steps. -/

/-- A running machine carries out the operation at its cursor. -/
theorem stepInto_of_operation? {op : Operation} (himage : m.image = some image)
    (hphase : m.phase = .running) (hop : image.operation? m.cursor = some op) :
    m.stepInto = m.execute image op := by
  rw [operation?_cursor himage] at hop
  obtain ⟨i, hi, rfl⟩ := Option.map_eq_some_iff.1 hop
  rw [stepInto_of_running hphase, himage]
  cases hbody : m.body? with
  | none => simp [current?, hbody] at hi
  | some body => simp only [hi]

/-- The steps that move a machine, with the responses to them. -/
inductive Moves (image : Image) (m : Machine) : Response → Prop
  | next {op : Operation} {stack : List Float} (hop : image.operation? m.cursor = some op)
      (hinput : ∀ prompt, op ≠ .input prompt) (hgoto : ∀ name, op ≠ .goto name)
      (hcall : ∀ name, op ≠ .call name) (heffect : op.effect? m.stack = some stack) :
      Moves image m (stepped { m.advance with stack })
  | ask {prompt : String} (hop : image.operation? m.cursor = some (.input prompt)) :
      Moves image m (m.ask prompt)
  | jump {name : String} {position : Nat} (hop : image.operation? m.cursor = some (.goto name))
      (hlabel : image.label? name = some position) :
      Moves image m (stepped { m with cursor := { m.cursor with position } })
  | enter {name : String} (hop : image.operation? m.cursor = some (.call name))
      (hname : image.contains name = true) :
      Moves image m (stepped { m with frames := m.cursor :: m.frames, cursor := ⟨name, 0⟩ })
  | leave {frame : Location} {frames : List Location} (hend : image.operation? m.cursor = none)
      (hframes : m.frames = frame :: frames) :
      Moves image m (stepped { m with frames, cursor := frame.next })
  | finish (hend : image.operation? m.cursor = none) (hframes : m.frames = []) :
      Moves image m { machine := { m with phase := .finished }, reply := .finished }

/-- The faults by which a step of a running machine is refused. -/
inductive Refuses (m : Machine) : Fault → Prop
  | noProgram (himage : m.image = none) : Refuses m .noProgram
  /-- The routine at the cursor is none of the program. -/
  | lost {image : Image} (himage : m.image = some image)
      (hbody : image.contains m.cursor.routine = false) :
      Refuses m (.unknownRoutine m.cursor.routine m.cursor)
  | underflow {image : Image} {op : Operation} (himage : m.image = some image)
      (hop : image.operation? m.cursor = some op) (heffect : op.effect? m.stack = none) :
      Refuses m (.stackUnderflow op.opcode m.cursor)
  | division {image : Image} {op : Operation} (himage : m.image = some image)
      (hop : image.operation? m.cursor = some op) (hzero : op.dividesByZero m.stack = true) :
      Refuses m (.divisionByZero m.cursor)
  | label {image : Image} {name : String} (himage : m.image = some image)
      (hop : image.operation? m.cursor = some (.goto name)) (hlabel : image.label? name = none) :
      Refuses m (.unknownLabel name m.cursor)
  | routine {image : Image} {name : String} (himage : m.image = some image)
      (hop : image.operation? m.cursor = some (.call name)) (hname : image.contains name = false) :
      Refuses m (.unknownRoutine name m.cursor)

theorem leave_moves (hend : image.operation? m.cursor = none) : m.Moves image m.leave := by
  cases hframes : m.frames with
  | nil =>
    have hleave : m.leave = { machine := { m with phase := .finished }, reply := .finished } := by
      unfold leave
      rw [hframes]
    rw [hleave]
    exact .finish hend hframes
  | cons frame frames =>
    have hleave : m.leave = stepped { m with frames, cursor := frame.next } := by
      unfold leave
      rw [hframes]
    rw [hleave]
    exact .leave hend hframes

theorem jump_cases {name : String} (himage : m.image = some image)
    (hop : image.operation? m.cursor = some (.goto name)) :
    m.Moves image (m.jump image name)
      ∨ ∃ fault, m.Refuses fault ∧ m.jump image name = m.fail fault := by
  unfold jump
  cases hlabel : image.label? name with
  | none => exact .inr ⟨_, .label himage hop hlabel, rfl⟩
  | some position => exact .inl (.jump hop hlabel)

theorem enter_cases {name : String} (himage : m.image = some image)
    (hop : image.operation? m.cursor = some (.call name)) :
    m.Moves image (m.enter image name)
      ∨ ∃ fault, m.Refuses fault ∧ m.enter image name = m.fail fault := by
  unfold enter
  by_cases hname : image.contains name = true
  · rw [if_pos hname]
    exact .inl (.enter hop hname)
  · rw [if_neg hname]
    exact .inr ⟨_, .routine himage hop (Bool.eq_false_iff.2 hname), rfl⟩

/-- Carrying out the operation at the cursor moves the machine or is refused. -/
theorem execute_cases {op : Operation} (himage : m.image = some image)
    (hop : image.operation? m.cursor = some op) :
    m.Moves image (m.execute image op)
      ∨ ∃ fault, m.Refuses fault ∧ m.execute image op = m.fail fault := by
  unfold execute
  cases heffect : op.effect? m.stack with
  | none => exact .inr ⟨_, .underflow himage hop heffect, rfl⟩
  | some stack =>
    by_cases hzero : op.dividesByZero m.stack = true
    · exact .inr ⟨_, .division himage hop hzero, if_pos hzero⟩
    · simp only [if_neg hzero]
      cases op with
      | input prompt => exact .inl (.ask hop)
      | goto name => exact jump_cases himage hop
      | call name => exact enter_cases himage hop
      | _ => exact .inl (.next hop (by simp) (by simp) (by simp) heffect)

/-- **What a step of a running machine does.** -/
theorem stepInto_cases (hphase : m.phase = .running) :
    (∃ image, m.image = some image ∧ m.Moves image m.stepInto)
      ∨ ∃ fault, m.Refuses fault ∧ m.stepInto = m.fail fault := by
  rw [stepInto_of_running hphase]
  cases himage : m.image with
  | none => exact .inr ⟨_, .noProgram himage, rfl⟩
  | some image =>
    have hcursor := operation?_cursor himage
    cases hbody : m.body? with
    | none =>
      have hlost : image.contains m.cursor.routine = false := by
        unfold body? at hbody
        rw [himage, Option.bind_some] at hbody
        unfold Image.contains
        rw [hbody]
        rfl
      exact .inr ⟨_, .lost himage hlost, rfl⟩
    | some body =>
      cases hi : m.current? with
      | none =>
        rw [hi, Option.map_none] at hcursor
        exact .inl ⟨image, rfl, leave_moves hcursor⟩
      | some i =>
        rw [hi, Option.map_some] at hcursor
        rcases execute_cases himage hcursor with h | h
        · exact .inl ⟨image, rfl, h⟩
        · exact .inr h

/-- A move is answered as a step, unless it ends the run. -/
theorem Moves.reply_cases {r : Response} (h : m.Moves image r) :
    r.reply = .stepped
      ∨ r = { machine := { m with phase := .finished }, reply := .finished }
        ∧ image.operation? m.cursor = none ∧ m.frames = [] := by
  cases h with
  | finish hend hframes => exact .inr ⟨rfl, hend, hframes⟩
  | _ => exact .inl rfl

theorem Moves.image_eq {r : Response} (h : m.Moves image r) : r.machine.image = m.image := by
  cases h <;> rfl

/-! ## §3. The stack of places. -/

end Machine

/-- How a move changes the stack of places, and which operation is carried out
with it. -/
inductive Image.Shift (image : Image) : List Location → Option Operation → List Location → Prop
  | along {l l' : Location} {op : Operation} {ls : List Location}
      (hop : image.operation? l = some op) (hcall : ∀ name, op ≠ .call name)
      (hnext : image.successor? l = some l') : Shift image (l :: ls) (some op) (l' :: ls)
  | enter {l : Location} {name : String} {ls : List Location}
      (hop : image.operation? l = some (.call name)) (hname : image.contains name = true) :
      Shift image (l :: ls) (some (.call name)) (⟨name, 0⟩ :: l :: ls)
  | leave {l caller : Location} {ls : List Location} (hend : image.operation? l = none) :
      Shift image (l :: caller :: ls) none (caller.next :: ls)

namespace Machine

variable {m : Machine} {image : Image}

/-- A move that does not end the run shifts the places. -/
theorem Moves.shift {r : Response} (h : m.Moves image r) (hreply : r.reply ≠ .finished) :
    image.Shift m.places (image.operation? m.cursor) r.machine.places := by
  unfold places
  cases h with
  | next hop _ hgoto hcall _ =>
    rw [hop]
    exact .along hop hcall (Image.successor?_of_ne_goto hop hgoto)
  | ask hop =>
    rw [hop]
    exact .along hop (by simp) (Image.successor?_of_ne_goto hop (by simp))
  | jump hop hlabel =>
    rw [hop]
    exact .along hop (by simp) (Image.successor?_goto hop hlabel)
  | enter hop hname =>
    rw [hop]
    exact .enter hop hname
  | leave hend hframes =>
    rw [hend, hframes]
    exact .leave hend
  | finish _ _ => exact absurd rfl hreply

end Machine

/-! ## §4. Requests that continue a run. -/

/-- Whether a request keeps the program and the run that goes on. -/
def Request.continues : Request → Bool
  | .load _ | .start => false
  | .step _ | .provide _ | .listen _ => true

namespace Machine

variable {m : Machine} {image : Image} {r : Request}

/-- The operation that a request makes the machine carry out. -/
def carriedOut? (m : Machine) (r : Request) : Option Operation :=
  match r with
  | .step strategy =>
    if m.phase = .running ∧ (m.step strategy).reply = .stepped then m.current?.map (·.operation)
    else none
  | _ => none

/-- The request leaves the machine at its place; at most it gives the value that an
`INPUT` waits for. -/
structure Rests (m : Machine) (r : Request) : Prop where
  image : (m.handle r).machine.image = m.image
  places : (m.handle r).machine.places = m.places
  phase : (m.handle r).machine.phase = m.phase
    ∨ (∃ prompt, m.phase = .waiting prompt) ∧ (m.handle r).machine.phase = .running
  reply : (m.handle r).reply ≠ .finished
  carriedOut : m.carriedOut? r = none

/-- The request moves the machine, which runs the program `image`. -/
structure MovedBy (m : Machine) (image : Image) (r : Request) : Prop where
  loaded : m.image = some image
  running : m.phase = .running
  step : ∃ strategy, r = .step strategy
  moves : m.Moves image (m.handle r)
  carriedOut : m.carriedOut? r = image.operation? m.cursor

theorem handle_step (m : Machine) (strategy : Strategy) :
    m.handle (.step strategy) = m.stepInto :=
  m.step_eq_stepInto strategy

/-- A machine that is not running does not take a step. -/
theorem machine_stepInto_of_ne_running (hphase : m.phase ≠ .running) : m.stepInto.machine = m := by
  unfold stepInto stepWith
  cases h : m.phase with
  | running => exact absurd h hphase
  | ready | waiting | finished => rfl

theorem reply_stepInto_of_ne_running (hphase : m.phase ≠ .running) :
    m.stepInto.reply = .idle ∨ m.stepInto.reply = .stepped := by
  unfold stepInto stepWith
  cases h : m.phase with
  | running => exact absurd h hphase
  | ready | finished => exact .inl rfl
  | waiting prompt => exact .inr rfl

theorem carriedOut?_of_ne_running (hphase : m.phase ≠ .running) : m.carriedOut? r = none := by
  unfold carriedOut?
  split
  · exact if_neg fun h => hphase h.1
  · rfl

theorem rests_of_machine_eq (hmachine : (m.handle r).machine = m)
    (hreply : (m.handle r).reply ≠ .finished) (hcarried : m.carriedOut? r = none) : m.Rests r where
  image := by rw [hmachine]
  places := by rw [hmachine]
  phase := .inl (by rw [hmachine])
  reply := hreply
  carriedOut := hcarried

theorem rests_step_of_ne_running (hphase : m.phase ≠ .running) (strategy : Strategy) :
    m.Rests (.step strategy) := by
  refine rests_of_machine_eq ?_ ?_ (carriedOut?_of_ne_running hphase)
  · rw [handle_step]
    exact machine_stepInto_of_ne_running hphase
  · rw [handle_step]
    rcases reply_stepInto_of_ne_running hphase with hreply | hreply <;> simp [hreply]

theorem carriedOut?_of_ne_stepped {strategy : Strategy}
    (hreply : (m.handle (.step strategy)).reply ≠ .stepped) :
    m.carriedOut? (.step strategy) = none :=
  if_neg fun h => hreply h.2

/-- A step of a running machine fails or moves it. -/
theorem step_fails_or_moves (hphase : m.phase = .running) (strategy : Strategy) :
    (∃ fault, m.handle (.step strategy) = m.fail fault)
      ∨ ∃ image, m.MovedBy image (.step strategy) := by
  have hstep := m.handle_step strategy
  rcases stepInto_cases hphase with ⟨image, himage, hmoves⟩ | ⟨fault, -, hfail⟩
  · right
    rw [← hstep] at hmoves
    refine ⟨image, himage, hphase, ⟨strategy, rfl⟩, hmoves, ?_⟩
    rcases hmoves.reply_cases with hreply | ⟨hfinish, hend, -⟩
    · rw [operation?_cursor himage]
      exact if_pos ⟨hphase, hreply⟩
    · rw [hend]
      refine carriedOut?_of_ne_stepped ?_
      rw [hfinish]
      exact Reply.noConfusion
  · exact .inl ⟨fault, hstep.trans hfail⟩

/-- A step of a running machine moves it or leaves it as it is. -/
theorem step_cases (hphase : m.phase = .running) (strategy : Strategy) :
    m.Rests (.step strategy) ∨ ∃ image, m.MovedBy image (.step strategy) := by
  rcases step_fails_or_moves hphase strategy with ⟨fault, hfail⟩ | hmoved
  · left
    refine rests_of_machine_eq ?_ ?_ (carriedOut?_of_ne_stepped ?_)
    · rw [hfail]
      rfl
    · rw [hfail]
      exact Reply.noConfusion
    · rw [hfail]
      exact Reply.noConfusion
  · exact .inr hmoved

/-- What comes of a value that is provided. -/
theorem provide_cases (m : Machine) (value : Float) :
    (∃ prompt, m.phase = .waiting prompt)
        ∧ m.provide value = done { m with phase := .running, stack := value :: m.stack }
      ∨ m.provide value = m.fail .notAwaitingInput := by
  unfold provide
  cases m.phase with
  | waiting prompt => exact .inl ⟨⟨prompt, rfl⟩, rfl⟩
  | _ => exact .inr rfl

theorem rests_provide (m : Machine) (value : Float) : m.Rests (.provide value) := by
  have hhandle : m.handle (.provide value) = m.provide value := rfl
  rcases m.provide_cases value with ⟨hwaiting, hprovide⟩ | hfail
  · rw [← hhandle] at hprovide
    exact
      { image := by rw [hprovide]; rfl
        places := by rw [hprovide]; rfl
        phase := .inr ⟨hwaiting, by rw [hprovide]; rfl⟩
        reply := by rw [hprovide]; exact Reply.noConfusion
        carriedOut := rfl }
  · rw [← hhandle] at hfail
    refine rests_of_machine_eq ?_ ?_ rfl
    · rw [hfail]
      rfl
    · rw [hfail]
      exact Reply.noConfusion

theorem rests_listen (m : Machine) (on : Bool) : m.Rests (.listen on) :=
  ⟨rfl, rfl, .inl rfl, Reply.noConfusion, rfl⟩

/-- **What a request does that continues a run.** -/
theorem handle_cases (m : Machine) (hr : r.continues = true) :
    m.Rests r ∨ ∃ image, m.MovedBy image r := by
  cases r with
  | load program => cases hr
  | start => cases hr
  | step strategy =>
    by_cases hphase : m.phase = .running
    · exact step_cases hphase strategy
    · exact .inl (rests_step_of_ne_running hphase strategy)
  | provide value => exact .inl (m.rests_provide value)
  | listen on => exact .inl (m.rests_listen on)

theorem image_handle (hr : r.continues = true) : (m.handle r).machine.image = m.image := by
  rcases m.handle_cases hr with h | ⟨image, h⟩
  · exact h.image
  · exact h.moves.image_eq

/-- Such a request keeps the places, or shifts them by the operation that it makes
the machine carry out. -/
theorem shift_cases (himage : m.image = some image) (hr : r.continues = true) :
    ((m.handle r).machine.places = m.places ∧ m.carriedOut? r = none)
      ∨ image.Shift m.places (m.carriedOut? r) (m.handle r).machine.places := by
  rcases m.handle_cases hr with h | ⟨image', h⟩
  · exact .inl ⟨h.places, h.carriedOut⟩
  · obtain rfl : image' = image := Option.some.inj (h.loaded.symm.trans himage)
    rw [h.carriedOut]
    rcases h.moves.reply_cases with hreply | ⟨hfinish, hend, -⟩
    · refine .inr (h.moves.shift ?_)
      rw [hreply]
      exact Reply.noConfusion
    · left
      rw [hfinish]
      exact ⟨rfl, hend⟩

/-! ## §5. Histories. -/

theorem after_append (m : Machine) (history history' : List Request) :
    m.after (history ++ history') = (m.after history).after history' :=
  List.foldl_append

theorem image_after {run : List Request} (hrun : ∀ r ∈ run, r.continues = true) :
    (m.after run).image = m.image := by
  induction run generalizing m with
  | nil => rfl
  | cons r run ih =>
    have hrest := ih (m := (m.handle r).machine) fun x hx => hrun x (List.mem_cons_of_mem _ hx)
    exact hrest.trans (image_handle (hrun r List.mem_cons_self))

/-- A start rewinds the machine if the program has a routine to begin with, and
else it fails. -/
theorem start_cases (m : Machine) :
    (∃ image, m.image = some image ∧ image.contains entryName = true)
        ∧ m.start = done (m.rewound .running)
      ∨ ∃ fault, m.start = m.fail fault := by
  unfold start
  cases m.image with
  | none => exact .inr ⟨_, rfl⟩
  | some image =>
    by_cases hempty : image.isEmpty = true
    · exact .inr ⟨_, if_pos hempty⟩
    · by_cases hentry : image.contains entryName = true
      · exact .inl ⟨⟨image, rfl, hentry⟩, (if_neg hempty).trans (if_pos hentry)⟩
      · exact .inr ⟨_, (if_neg hempty).trans (if_neg hentry)⟩

theorem start_of_done (h : m.start.reply = .done) :
    (∃ image, m.image = some image ∧ image.contains entryName = true)
      ∧ m.start = done (m.rewound .running) := by
  rcases m.start_cases with hdone | ⟨fault, hfail⟩
  · exact hdone
  · rw [hfail] at h
    cases h

theorem start_of_failed {fault : Fault} (h : m.start.reply = .failed fault) :
    m.start = m.fail fault := by
  rcases m.start_cases with ⟨-, hdone⟩ | ⟨fault', hfail⟩
  · rw [hdone] at h
    cases h
  · rw [hfail] at h
    cases h
    exact hfail

theorem provide_of_failed {value : Float} {fault : Fault}
    (h : (m.provide value).reply = .failed fault) : m.provide value = m.fail fault := by
  rcases m.provide_cases value with ⟨-, hdone⟩ | hfail
  · rw [hdone] at h
    cases h
  · rw [hfail] at h
    cases h
    exact hfail

/-- A step fails only while the machine is running, and a move is answered as a step or
as the end of the run. -/
theorem step_of_failed {strategy : Strategy} {fault : Fault}
    (h : (m.handle (.step strategy)).reply = .failed fault) :
    m.handle (.step strategy) = m.fail fault := by
  have hphase : m.phase = .running := by
    by_contra hphase
    rw [handle_step] at h
    rcases reply_stepInto_of_ne_running hphase with hreply | hreply
    · rw [hreply] at h
      cases h
    · rw [hreply] at h
      cases h
  rcases step_fails_or_moves hphase strategy with ⟨fault', hfail⟩ | ⟨image, hmoved⟩
  · rw [hfail] at h
    cases h
    exact hfail
  · rcases hmoved.moves.reply_cases with hreply | ⟨hfinish, -, -⟩
    · rw [hreply] at h
      cases h
    · rw [hfinish] at h
      cases h

/-- A request that is answered by a fault is one that fails. -/
theorem handle_of_failed {fault : Fault} (h : (m.handle r).reply = .failed fault) :
    m.handle r = m.fail fault := by
  cases r with
  | load program => cases h
  | start => exact start_of_failed h
  | step strategy => exact step_of_failed h
  | provide value => exact provide_of_failed h
  | listen on => cases h

/-- Only a load changes the image. -/
theorem image_handle_of_ne_load (h : ∀ program, r ≠ .load program) :
    (m.handle r).machine.image = m.image := by
  cases r with
  | load program => exact absurd rfl (h program)
  | start =>
    show m.start.machine.image = m.image
    rcases m.start_cases with ⟨-, hdone⟩ | ⟨fault, hfail⟩
    · rw [hdone]
      rfl
    · rw [hfail]
      rfl
  | _ => exact image_handle rfl

/-- What holds of a machine that is new, loaded or started, and is kept by the requests
that continue a run, holds of every reachable machine. -/
theorem Reachable.induction {P : Machine → Prop} (hnew : P {})
    (hload : ∀ (m : Machine) program, P (m.load program).machine)
    (hstart : ∀ (m : Machine) (image : Image), m.image = some image →
      image.contains entryName = true → P (m.rewound .running))
    (hcontinue : ∀ m r, r.continues = true → P m → P (m.handle r).machine)
    (h : m.Reachable) : P m := by
  have hhandle : ∀ m r, P m → P (m.handle r).machine := by
    intro m r hm
    cases r with
    | load program => exact hload m program
    | start =>
      show P m.start.machine
      rcases m.start_cases with ⟨⟨image, himage, hentry⟩, hdone⟩ | ⟨fault, hfail⟩
      · rw [hdone]
        exact hstart m image himage hentry
      · rw [hfail]
        exact hm
    | _ => exact hcontinue m _ rfl hm
  obtain ⟨history, rfl⟩ := h
  have hafter : ∀ n : Machine, P n → P (n.after history) := by
    induction history with
    | nil => exact fun _ hn => hn
    | cons r history ih => exact fun n hn => ih _ (hhandle n r hn)
  exact hafter {} hnew

end Machine

/-! ## §6. An example. -/

/-- A program that calls a routine, which asks for a number and doubles it. -/
def doublingProgram : Program where
  routines := [⟨1, "main"⟩, ⟨2, "twice"⟩]
  instructions :=
    [⟨1, 1, 0, .call "twice"⟩, ⟨2, 2, 0, .input "x?"⟩, ⟨3, 2, 1, .dup⟩, ⟨4, 2, 2, .add⟩]

def doublingImage : Image where
  bodies :=
    [("main", [⟨1, 1, 0, .call "twice"⟩]),
      ("twice", [⟨2, 2, 0, .input "x?"⟩, ⟨3, 2, 1, .dup⟩, ⟨4, 2, 2, .add⟩])]
  labels := []

theorem ofProgram_doublingProgram : Image.ofProgram doublingProgram = doublingImage := by
  rw [Image.ofProgram_eq_owned (by decide) (by decide) (by decide)]
  rfl

/-- A machine that has `doublingProgram` loaded, with the image written out. -/
theorem after_load_doublingProgram (history : List Request) :
    Machine.after {} (.load doublingProgram :: history)
      = Machine.after { image := some doublingImage } history := by
  rw [← ofProgram_doublingProgram]
  rfl

end StackCalc
