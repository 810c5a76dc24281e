/-
  StackCalc.Proofs.Console.Course
  ───────────────────────────────
  **THE COURSE OF A RUN.**

  A run goes in rounds.  In each of them one step is made, and if it asks a question,
  this is answered from the lines of input that were not read before: lines of text
  that are no number are rejected one by one, and the first that is a number is the
  answer (`Round`).  After `k` rounds the run has come to a machine and has lines left
  (`Course`), and it ends in one of these ways (`Ends`):

      refused      the program does not start
      finished     the next step finishes, within the limit
      faulted      the next step fails, within the limit
      starved      its question finds no number before the input ends
      garbled      its question finds no number before a line that is no text
      exhausted    as many steps as allowed were made

  Every run ends in one of these ways (`exists_ends`), and how it ends is what the loop
  computes (`run_eq_of_ends`), so the loop and the relation say the same.
-/
import StackCalc.Console.Run
import StackCalc.Proofs.Machine.Lifecycle

namespace StackCalc.Console

/-! ## §1. Lines. -/

namespace InputLine

/-- The number that a line gives, blanks around it aside. -/
def number? : InputLine → Option Float
  | .text line => readNumber? (Text.trim line)
  | .garbled => none

/-- What is found in a line of text that gives no number. -/
def strayWord? : InputLine → Option String
  | .text line =>
    match readNumber? (Text.trim line) with
    | some _ => none
    | none => some (Text.trim line)
  | .garbled => none

/-- Whether a line is text and gives no number. -/
def isStray (line : InputLine) : Bool :=
  line.strayWord?.isSome

theorem strayWord?_of_number? {line : InputLine} {value : Float} (h : line.number? = some value) :
    line.strayWord? = none := by
  cases line with
  | garbled => rfl
  | text line =>
    have hread : readNumber? (Text.trim line) = some value := h
    unfold strayWord?
    simp only [hread]

/-- What a question finds among the lines: nothing but stray lines, or after these a
line that is no text, or a number. -/
theorem lines_cases (input : List InputLine) :
    (∀ line ∈ input, line.isStray = true)
      ∨ (∃ stray rest, input = stray ++ .garbled :: rest ∧ ∀ line ∈ stray, line.isStray = true)
      ∨ ∃ stray line value rest, input = stray ++ line :: rest
          ∧ (∀ line ∈ stray, line.isStray = true) ∧ line.number? = some value := by
  induction input with
  | nil => exact .inl fun line hline => absurd hline List.not_mem_nil
  | cons line input ih =>
    cases hvalue : line.number? with
    | some value => exact .inr (.inr ⟨[], line, value, input, rfl, by simp, hvalue⟩)
    | none =>
      cases line with
      | garbled => exact .inr (.inl ⟨[], input, rfl, by simp⟩)
      | text line =>
        have hline : InputLine.isStray (.text line) = true := by
          have hread : readNumber? (Text.trim line) = none := hvalue
          simp [isStray, strayWord?, hread]
        -- a stray line comes before what the other lines hold
        rcases ih with hall | ⟨stray, rest, rfl, hstray⟩ | ⟨stray, l, value, rest, rfl, hstray, hl⟩
        · exact .inl (List.forall_mem_cons.2 ⟨hline, hall⟩)
        · exact .inr (.inl ⟨_ :: stray, rest, rfl, List.forall_mem_cons.2 ⟨hline, hstray⟩⟩)
        · exact .inr (.inr ⟨_ :: stray, l, value, rest, rfl,
            List.forall_mem_cons.2 ⟨hline, hstray⟩, hl⟩)

end InputLine

namespace Run

/-! ## §2. Rounds, courses and ends. -/

/-- Something that a run writes to standard error on its way. -/
inductive Remark where
  /-- The prompt of an `INPUT`. -/
  | prompt (text : String)
  /-- The word that a stray line has in the place of a number. -/
  | rejection (word : String)

namespace Remark

/-- The line that is written. -/
def line : Remark → String
  | prompt text => text
  | rejection word => "invalid number '" ++ word ++ "', try again"

/-- The word that is rejected. -/
def rejected? : Remark → Option String
  | prompt _ => none
  | rejection word => some word

def isPrompt (r : Remark) : Bool :=
  r.rejected?.isNone

end Remark

/-- The remarks about lines that are read and are no number. -/
def rejections (lines : List InputLine) : List Remark :=
  (lines.filterMap InputLine.strayWord?).map .rejection

/-- The remarks about the prompts that a response announces. -/
def prompts (r : Response) : List Remark :=
  r.announced.map .prompt

/-- The start of a run. -/
def begun (p : Program) : Response :=
  ((Machine.load {} p).machine.listen true).machine.start

/-- From one machine and the lines that are left to the next: a step is made, and its
question, if it asks one, is answered by the first line that is a number. -/
inductive Round (strategy : Strategy) (m : Machine) :
    List InputLine → List Remark → Machine → List InputLine → Prop
  /-- The step asks nothing, and no line is read. -/
  | quiet (input : List InputLine) (hreply : (m.step strategy).reply = .stepped)
      (hquiet : (m.step strategy).machine.isWaiting = false) :
      Round strategy m input (prompts (m.step strategy)) (m.step strategy).machine input
  /-- The step asks for a number and gets one. -/
  | answered {stray : List InputLine} {line : InputLine} {value : Float} (rest : List InputLine)
      (hreply : (m.step strategy).reply = .stepped)
      (hasks : (m.step strategy).machine.isWaiting = true)
      (hstray : ∀ line ∈ stray, line.isStray = true) (hline : line.number? = some value) :
      Round strategy m (stray ++ line :: rest) (prompts (m.step strategy) ++ rejections stray)
        ((m.step strategy).machine.provide value).machine rest

/-- The program was started and `k` rounds were made, with these remarks; now it has
come to this machine, and these lines are left. -/
inductive Course (p : Program) (strategy : Strategy) (input : List InputLine) :
    Nat → List Remark → Machine → List InputLine → Prop
  | start (hstart : (begun p).reply = .done) :
      Course p strategy input 0 [] (begun p).machine input
  | round {k : Nat} {remarks later : List Remark} {m m' : Machine} {rest rest' : List InputLine}
      (h : Course p strategy input k remarks m rest)
      (hround : Round strategy m rest later m' rest') :
      Course p strategy input (k + 1) (remarks ++ later) m' rest'

/-- How a run of at most `limit` steps ends: the number of steps that were asked for,
the verdict, the remarks, the machine, and the lines that were not read. -/
inductive Ends (p : Program) (strategy : Strategy) (limit : Nat) (input : List InputLine) :
    Nat → Verdict → List Remark → Machine → List InputLine → Prop
  /-- The program does not start. -/
  | refused {fault : Fault} (hstart : (begun p).reply = .failed fault) :
      Ends p strategy limit input 0 (.faulted fault) [] (begun p).machine input
  /-- The next step finishes the run. -/
  | finished {k : Nat} {remarks : List Remark} {m : Machine} {rest : List InputLine}
      (h : Course p strategy input k remarks m rest) (hk : k < limit)
      (hreply : (m.step strategy).reply = .finished) :
      Ends p strategy limit input (k + 1) .finished remarks (m.step strategy).machine rest
  /-- The next step fails. -/
  | faulted {k : Nat} {remarks : List Remark} {m : Machine} {rest : List InputLine} {fault : Fault}
      (h : Course p strategy input k remarks m rest) (hk : k < limit)
      (hreply : (m.step strategy).reply = .failed fault) :
      Ends p strategy limit input (k + 1) (.faulted fault) remarks (m.step strategy).machine rest
  /-- The next step asks for a number, and there is none before the input ends. -/
  | starved {k : Nat} {remarks : List Remark} {m : Machine} {stray : List InputLine}
      (h : Course p strategy input k remarks m stray) (hk : k < limit)
      (hreply : (m.step strategy).reply = .stepped)
      (hasks : (m.step strategy).machine.isWaiting = true)
      (hstray : ∀ line ∈ stray, line.isStray = true) :
      Ends p strategy limit input (k + 1) .starved
        (remarks ++ (prompts (m.step strategy) ++ rejections stray)) (m.step strategy).machine []
  /-- The next step asks for a number, and there is none before a line that is no text. -/
  | garbled {k : Nat} {remarks : List Remark} {m : Machine} {stray rest : List InputLine}
      (h : Course p strategy input k remarks m (stray ++ .garbled :: rest)) (hk : k < limit)
      (hreply : (m.step strategy).reply = .stepped)
      (hasks : (m.step strategy).machine.isWaiting = true)
      (hstray : ∀ line ∈ stray, line.isStray = true) :
      Ends p strategy limit input (k + 1) .garbled
        (remarks ++ (prompts (m.step strategy) ++ rejections stray)) (m.step strategy).machine rest
  /-- All steps that are allowed were made, and their questions answered. -/
  | exhausted {remarks : List Remark} {m : Machine} {rest : List InputLine}
      (h : Course p strategy input limit remarks m rest) :
      Ends p strategy limit input limit (.exhausted limit m.cursor) remarks m rest

/-! ## §3. Every run ends. -/

variable {p : Program} {strategy : Strategy} {limit k : Nat} {input rest : List InputLine}
variable {remarks : List Remark} {m : Machine}

/-- A value that is waited for sets the machine going again. -/
theorem phase_provide (h : m.isWaiting = true) (value : Float) :
    (m.provide value).machine.phase = .running := by
  obtain ⟨prompt, hpending⟩ := Option.isSome_iff_exists.1 h
  unfold Machine.provide
  rw [Machine.phase_of_pending? hpending]
  rfl

/-- What a step of a running machine may be answered with, and what follows. -/
theorem step_running_cases (h : m.phase = .running) (strategy : Strategy) :
    ((m.step strategy).reply = .stepped
        ∧ ((m.step strategy).machine.phase = .running
          ∨ (m.step strategy).machine.isWaiting = true))
      ∨ (m.step strategy).reply = .finished
      ∨ ∃ fault, (m.step strategy).reply = .failed fault := by
  rw [m.step_eq_stepInto]
  rcases Machine.stepInto_cases h with ⟨image, -, hmoves⟩ | ⟨fault, -, hfail⟩
  · rcases hmoves.phase_cases with ⟨hreply, hsame, -⟩ | ⟨prompt, hreply, hwaiting, -⟩ | ⟨hreply, -⟩
    · exact .inl ⟨hreply, .inl (hsame.trans h)⟩
    · exact .inl ⟨hreply, .inr (Machine.isWaiting_of_waiting hwaiting)⟩
    · exact .inr (.inl hreply)
  · exact .inr (.inr ⟨fault, congrArg Response.reply hfail⟩)

/-- After every round the machine is running. -/
theorem Course.running (h : Course p strategy input k remarks m rest) : m.phase = .running := by
  induction h with
  | start hstart =>
    have hdone := (Machine.start_of_done hstart).2
    exact congrArg (·.machine.phase) hdone
  | round h hround ih =>
    cases hround with
    | quiet _ hreply hquiet =>
      rcases step_running_cases ih strategy with ⟨-, hphase | hasks⟩ | hreply' | ⟨fault, hreply'⟩
      · exact hphase
      · rw [hquiet] at hasks
        cases hasks
      · rw [hreply] at hreply'
        cases hreply'
      · rw [hreply] at hreply'
        cases hreply'
    | answered _ _ hasks _ _ => exact phase_provide hasks _

/-- A run that may make another step ends with it, or goes through another round.  Either way
its remarks come after those that it has made. -/
theorem Course.next (h : Course p strategy input k remarks m rest) (hk : k < limit) :
    (∃ calls verdict later n rest',
        Ends p strategy limit input calls verdict (remarks ++ later) n rest')
      ∨ ∃ later n rest', Course p strategy input (k + 1) (remarks ++ later) n rest' := by
  rcases step_running_cases h.running strategy with ⟨hreply, hphase | hasks⟩ | hreply |
    ⟨fault, hreply⟩
  · exact .inr ⟨_, _, _, h.round (.quiet rest hreply (Machine.isWaiting_of_running hphase))⟩
  · rcases InputLine.lines_cases rest with hall | ⟨stray, rest', rfl, hstray⟩ |
      ⟨stray, line, value, rest', rfl, hstray, hline⟩
    · exact .inl ⟨_, _, _, _, _, .starved h hk hreply hasks hall⟩
    · exact .inl ⟨_, _, _, _, _, .garbled h hk hreply hasks hstray⟩
    · exact .inr ⟨_, _, _, h.round (.answered rest' hreply hasks hstray hline)⟩
  · have hends := Ends.finished h hk hreply
    rw [← List.append_nil remarks] at hends
    exact .inl ⟨_, _, _, _, _, hends⟩
  · have hends := Ends.faulted h hk hreply
    rw [← List.append_nil remarks] at hends
    exact .inl ⟨_, _, _, _, _, hends⟩

/-- **A run that has come so far ends in one of the ways**, and its remarks begin with those
that it has made. -/
theorem Course.exists_ends (h : Course p strategy input k remarks m rest) (hk : k ≤ limit) :
    ∃ calls verdict later n rest',
      Ends p strategy limit input calls verdict (remarks ++ later) n rest' := by
  obtain ⟨budget, rfl⟩ := Nat.exists_eq_add_of_le hk
  induction budget generalizing k remarks m rest with
  | zero =>
    have hends := Ends.exhausted h
    rw [← List.append_nil remarks] at hends
    exact ⟨_, _, _, _, _, hends⟩
  | succ budget ih =>
    have hless : k < k + (budget + 1) := by omega
    rcases h.next hless with hends | ⟨later, n, rest', hround⟩
    · exact hends
    · have hlimit : k + (budget + 1) = k + 1 + budget := by omega
      obtain ⟨calls, verdict, later', n', rest'', hends⟩ := ih hround (by omega)
      rw [hlimit]
      rw [List.append_assoc] at hends
      exact ⟨calls, verdict, later ++ later', n', rest'', hends⟩

/-- **Every run ends in one of the ways.** -/
theorem exists_ends (p : Program) (strategy : Strategy) (limit : Nat) (input : List InputLine) :
    ∃ calls verdict remarks n rest, Ends p strategy limit input calls verdict remarks n rest := by
  rcases Machine.start_cases ((Machine.load {} p).machine.listen true).machine with
    ⟨-, hdone⟩ | ⟨fault, hfail⟩
  · have hstart : (begun p).reply = .done := congrArg Response.reply hdone
    exact (Course.start hstart).exists_ends (Nat.zero_le limit)
  · have hstart : (begun p).reply = .failed fault := congrArg Response.reply hfail
    exact ⟨_, _, _, _, _, .refused hstart⟩

/-! ## §4. Answers. -/

namespace Progress

variable {q q' : Progress} {line : InputLine} {stray : List InputLine}

/-- Further remarks. -/
def remark (q : Progress) (remarks : List Remark) : Progress :=
  { q with said := (remarks.map Remark.line).reverse ++ q.said }

theorem remark_append (q : Progress) (remarks later : List Remark) :
    q.remark (remarks ++ later) = (q.remark remarks).remark later := by
  unfold remark
  rw [List.map_append, List.reverse_append, List.append_assoc]

/-- Where a run is after `k` steps, with what it has remarked. -/
def reached (k : Nat) (remarks : List Remark) (m : Machine) : Progress :=
  remark { machine := m, calls := k } remarks

theorem remark_reached (k : Nat) (remarks later : List Remark) (m : Machine) :
    (reached k remarks m).remark later = reached k (remarks ++ later) m :=
  (remark_append _ remarks later).symm

theorem answer_of_quiet (h : q.machine.isWaiting = false) (input : List InputLine) :
    q.answer input = (q, input, none) := by
  cases input with
  | nil => simp [answer, h]
  | cons line input => simp [answer, h]

/-- Stray lines are rejected, one after the other. -/
theorem answer_stray (h : q.machine.isWaiting = true)
    (hstray : ∀ line ∈ stray, line.isStray = true) (rest : List InputLine) :
    q.answer (stray ++ rest) = (q.remark (rejections stray)).answer rest := by
  -- with every rejection there is one more line said, so `q` varies
  induction stray generalizing q with
  | nil => rfl
  | cons line stray ih =>
    obtain ⟨hline, hothers⟩ := List.forall_mem_cons.1 hstray
    cases line with
    | garbled => cases hline
    | text line =>
      have hread : readNumber? (Text.trim line) = none := by
        cases hread : readNumber? (Text.trim line) with
        | none => rfl
        | some value => simp [InputLine.isStray, InputLine.strayWord?, hread] at hline
      have hrejections : rejections (.text line :: stray)
          = [.rejection (Text.trim line)] ++ rejections stray := by
        simp [rejections, InputLine.strayWord?, hread]
      have hoffer : q.offer (.text line) = .ok (q.remark [.rejection (Text.trim line)]) := by
        simp only [offer, hread]
        rfl
      rw [List.cons_append, answer, if_pos h, hoffer, hrejections, remark_append]
      exact ih (q := q.remark [.rejection (Text.trim line)]) h hothers

theorem answer_nil (h : q.machine.isWaiting = true) : q.answer [] = (q, [], some .starved) := by
  rw [answer, if_pos h]

theorem answer_garbled (h : q.machine.isWaiting = true) (rest : List InputLine) :
    q.answer (.garbled :: rest) = (q, rest, some .garbled) := by
  rw [answer, if_pos h]
  rfl

theorem answer_number {value : Float} (h : q.machine.isWaiting = true)
    (hline : line.number? = some value) (rest : List InputLine) :
    q.answer (line :: rest)
      = ({ q with machine := (q.machine.provide value).machine }, rest, none) := by
  have hoffer : q.offer line = .ok { q with machine := (q.machine.provide value).machine } := by
    cases line with
    | garbled => cases hline
    | text line =>
      have hread : readNumber? (Text.trim line) = some value := hline
      simp only [offer, hread]
  rw [answer, if_pos h, hoffer]
  exact answer_of_quiet (Machine.isWaiting_of_running (phase_provide h value)) rest

theorem answer_reached (h : m.isWaiting = true) (hstray : ∀ line ∈ stray, line.isStray = true)
    (rest : List InputLine) :
    (reached k remarks m).answer (stray ++ rest)
      = (reached k (remarks ++ rejections stray) m).answer rest := by
  rw [← remark_reached]
  exact answer_stray (q := reached k remarks m) h hstray rest

/-! ## §5. The loop. -/

/-- Before its first step the loop answers the question that is asked. -/
theorem drive_of_answer (h : q.answer input = (q', rest, none))
    (hquiet : q'.machine.isWaiting = false) (budget : Nat) :
    drive strategy limit budget q input = drive strategy limit budget q' rest := by
  cases budget with
  | zero => simp only [drive, h, answer_of_quiet hquiet]
  | succ budget => simp only [drive, h, answer_of_quiet hquiet]

theorem drive_of_verdict {verdict : Verdict} (h : q.answer input = (q', rest, some verdict))
    (budget : Nat) : drive strategy limit budget q input = (q', verdict) := by
  cases budget with
  | zero => simp only [drive, h]
  | succ budget => simp only [drive, h]

/-- One step of the loop, by the answer to it. -/
theorem drive_succ (h : q.machine.isWaiting = false) (budget : Nat) :
    drive strategy limit (budget + 1) q input
      = match (q.machine.step strategy).reply with
        | .failed fault => ((q.step strategy).1, .faulted fault)
        | .stepped => drive strategy limit budget (q.step strategy).1 input
        | _ => ((q.step strategy).1, .finished) := by
  have hreply : (q.machine.step strategy).reply = (q.step strategy).2 := rfl
  simp only [drive, answer_of_quiet h]
  rw [hreply]
  rcases q.step strategy with ⟨q', reply⟩
  cases reply with
  | _ => rfl

/-- A step in the loop, with what is said about it. -/
theorem step_reached (k : Nat) (remarks : List Remark) (m : Machine) (strategy : Strategy) :
    ((reached k remarks m).step strategy).1
      = reached (k + 1) (remarks ++ prompts (m.step strategy)) (m.step strategy).machine := by
  have hlines : (prompts (m.step strategy)).map Remark.line = (m.step strategy).announced := by
    unfold prompts
    rw [List.map_map]
    exact List.map_id _
  rw [← remark_reached]
  unfold remark
  rw [hlines]
  rfl

theorem drive_of_stepped (hquiet : m.isWaiting = false)
    (hreply : (m.step strategy).reply = .stepped) (budget : Nat) :
    drive strategy limit (budget + 1) (reached k remarks m) rest
      = drive strategy limit budget
          (reached (k + 1) (remarks ++ prompts (m.step strategy)) (m.step strategy).machine)
          rest := by
  have hreply' : ((reached k remarks m).machine.step strategy).reply = .stepped := hreply
  rw [drive_succ (q := reached k remarks m) hquiet, hreply', step_reached]

/-- A round is a step of the loop. -/
theorem drive_of_round {later : List Remark} {m' : Machine} {rest' : List InputLine}
    (h : Round strategy m rest later m' rest') (hquiet : m.isWaiting = false) (budget : Nat) :
    drive strategy limit (budget + 1) (reached k remarks m) rest
      = drive strategy limit budget (reached (k + 1) (remarks ++ later) m') rest' := by
  cases h with
  | quiet _ hreply _ => exact drive_of_stepped hquiet hreply budget
  | @answered stray line value _ hreply hasks hstray hline =>
    rw [drive_of_stepped hquiet hreply, ← List.append_assoc]
    have hanswer := (answer_reached hasks hstray (line :: rest')).trans
      (answer_number
        (q := reached (k + 1) (remarks ++ prompts (m.step strategy) ++ rejections stray)
          (m.step strategy).machine) hasks hline rest')
    exact drive_of_answer hanswer (Machine.isWaiting_of_running (phase_provide hasks value)) budget

end Progress

open Progress

theorem run_of_started (hstart : (begun p).reply = .done) (strategy : Strategy) (limit : Nat)
    (input : List InputLine) :
    run p strategy limit input
      = drive strategy limit limit (reached 0 [] (begun p).machine) input := by
  unfold begun at hstart ⊢
  simp only [run, hstart]
  rfl

theorem run_of_refused {fault : Fault} (hstart : (begun p).reply = .failed fault)
    (strategy : Strategy) (limit : Nat) (input : List InputLine) :
    run p strategy limit input = (reached 0 [] (begun p).machine, .faulted fault) := by
  unfold begun at hstart ⊢
  simp only [run, hstart]
  rfl

theorem Course.started (h : Course p strategy input k remarks m rest) :
    (begun p).reply = .done := by
  induction h with
  | start hstart => exact hstart
  | round _ _ ih => exact ih

/-- The loop goes through the rounds. -/
theorem Course.drive_eq (h : Course p strategy input k remarks m rest) (budget : Nat) :
    drive strategy limit (k + budget) (reached 0 [] (begun p).machine) input
      = drive strategy limit budget (reached k remarks m) rest := by
  -- from the last round backwards: each one needs a step more in the budget before it
  induction h generalizing budget with
  | start _ => rw [Nat.zero_add]
  | @round k remarks later m m' rest rest' h hround ih =>
    rw [Nat.add_assoc, Nat.add_comm 1 budget, ih (budget + 1)]
    exact drive_of_round hround (Machine.isWaiting_of_running h.running) budget

theorem Course.run_eq (h : Course p strategy input k remarks m rest) (budget : Nat)
    (hlimit : limit = k + budget) :
    run p strategy limit input = drive strategy limit budget (reached k remarks m) rest := by
  rw [run_of_started h.started]
  -- the limit that the loop would report stays; only its budget is divided
  nth_rewrite 2 [hlimit]
  exact h.drive_eq budget

/-- A step that ends the run, one way or the other, announces nothing and asks nothing. -/
theorem Course.quiet_of_ne_stepped (h : Course p strategy input k remarks m rest)
    (hreply : (m.step strategy).reply ≠ .stepped) :
    prompts (m.step strategy) = [] ∧ (m.step strategy).machine.isWaiting = false := by
  rw [m.step_eq_stepInto] at hreply ⊢
  rcases Machine.stepInto_cases h.running with ⟨image, -, hmoves⟩ | ⟨fault, -, hfail⟩
  · rcases hmoves.reply_cases with hstepped | ⟨hfinish, -, -⟩
    · exact absurd hstepped hreply
    · rw [hfinish]
      exact ⟨rfl, rfl⟩
  · rw [hfail]
    exact ⟨rfl, Machine.isWaiting_of_running h.running⟩

/-- The next step of the loop ends it, if this is how the step is answered. -/
theorem Course.run_eq_of_ne_stepped (h : Course p strategy input k remarks m rest) (hk : k < limit)
    (hreply : (m.step strategy).reply ≠ .stepped) :
    run p strategy limit input
      = (reached (k + 1) remarks (m.step strategy).machine,
          match (m.step strategy).reply with
          | .failed fault => .faulted fault
          | _ => .finished) := by
  obtain ⟨budget, hlimit⟩ := Nat.exists_eq_add_of_lt hk
  rw [h.run_eq (budget + 1) hlimit,
    drive_succ (q := reached k remarks m) (Machine.isWaiting_of_running h.running), step_reached,
    (h.quiet_of_ne_stepped hreply).1, List.append_nil]
  show (match (m.step strategy).reply with | .failed _ => _ | .stepped => _ | _ => _) = _
  cases hreply' : (m.step strategy).reply with
  | stepped => exact absurd hreply' hreply
  | _ => rfl

/-- A question that is not answered ends the loop. -/
theorem Course.run_eq_of_verdict {stray rest' : List InputLine} {verdict : Verdict}
    (h : Course p strategy input k remarks m (stray ++ rest)) (hk : k < limit)
    (hreply : (m.step strategy).reply = .stepped)
    (hasks : (m.step strategy).machine.isWaiting = true)
    (hstray : ∀ line ∈ stray, line.isStray = true)
    (hverdict : ∀ {q : Progress}, q.machine.isWaiting = true →
      q.answer rest = (q, rest', some verdict)) :
    run p strategy limit input
      = (reached (k + 1) (remarks ++ (prompts (m.step strategy) ++ rejections stray))
          (m.step strategy).machine, verdict) := by
  obtain ⟨budget, hlimit⟩ := Nat.exists_eq_add_of_lt hk
  rw [h.run_eq (budget + 1) hlimit, drive_of_stepped (Machine.isWaiting_of_running h.running) hreply,
    ← List.append_assoc]
  have hanswer := (answer_reached hasks hstray rest).trans
    (hverdict (q := reached (k + 1) (remarks ++ prompts (m.step strategy) ++ rejections stray)
      (m.step strategy).machine) hasks)
  exact drive_of_verdict hanswer budget

/-- **The loop computes how the run ends.** -/
theorem run_eq_of_ends {calls : Nat} {verdict : Verdict} {n : Machine}
    (h : Ends p strategy limit input calls verdict remarks n rest) :
    run p strategy limit input = (reached calls remarks n, verdict) := by
  cases h with
  | refused hstart => exact run_of_refused hstart strategy limit input
  | finished h hk hreply =>
    rw [h.run_eq_of_ne_stepped hk (by simp [hreply]), hreply]
  | faulted h hk hreply =>
    rw [h.run_eq_of_ne_stepped hk (by simp [hreply]), hreply]
  | @starved k remarks m stray h hk hreply hasks hstray =>
    rw [← List.append_nil stray] at h
    exact h.run_eq_of_verdict hk hreply hasks hstray answer_nil
  | @garbled k remarks m stray rest h hk hreply hasks hstray =>
    exact h.run_eq_of_verdict hk hreply hasks hstray fun hq => answer_garbled hq rest
  | exhausted h =>
    -- no question is open any more when the limit is noticed
    rw [h.run_eq 0 (Nat.add_zero limit).symm, drive, answer_of_quiet]
    · rfl
    · exact Machine.isWaiting_of_running h.running

end Run

end StackCalc.Console
