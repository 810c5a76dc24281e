/-
  StackCalc.Proofs.Console.Agreement
  ──────────────────────────────────
  **A SESSION CAN REPEAT A RUN.**

  A run reads its numbers from standard input, one on each line.  The same can be done
  by hand in a session: step as often as the run does, and after each step that asks for
  a number give the next one,

      run        8          2
      session    s   i 8    s   i 2    s   s

  The session has no listener and the run has one, and this is all in which their
  machines differ.  So round by round the session goes where the run goes
  (`Course.follows`), and its last step shows what the run writes: the values if the
  program finishes, and the fault if the step fails.
-/
import StackCalc.Proofs.Console.Account
import StackCalc.Proofs.Console.Strategy
import StackCalc.Proofs.Machine.NormalForm
import StackCalc.Proofs.Text.Words

namespace StackCalc.Console

/-! ## §1. Commands. -/

namespace Session

/-- The commands that make `n` steps from `m` and, after each of them that asks for a
number, give the next of the words. -/
def commands : Nat → Machine → List String → List String
  | 0, _, _ => []
  | n + 1, m, words =>
    let stepped := (converse m [.text "s"]).machine
    match stepped.isWaiting, words with
    | true, word :: words =>
      let answer := "i " ++ word
      "s" :: answer :: commands n (converse stepped [.text answer]).machine words
    | _, words => "s" :: commands n stepped words

/-- The commands for a session over a program. -/
def script (p : Program) (n : Nat) (words : List String) : List String :=
  commands n (Machine.load {} p).machine.start.machine words

theorem hear_step (m : Machine) : hear m (.text "s") = .ofResponse m.stepInto :=
  hear_of_asksToStep (by decide) m

/-- A word that spells a number is given as this number. -/
theorem hear_provide {word : String} {value : Float} (h : readNumber? word = some value)
    (m : Machine) : hear m (.text ("i " ++ word)) = .ofResponse (m.provide value) := by
  have hi : Source.IsWord "i" := by decide
  have hwords : Text.words ("i " ++ word) = ["i", word] := by
    have hline : "i " ++ word = "i" ++ " " ++ word := rfl
    rw [hline, Text.words_word_space hi, Text.words_word (isWord_of_readNumber? h)]
  have hcommand : Command.ofLine ("i " ++ word) = .provide value := by
    unfold Command.ofLine
    rw [hwords]
    show Command.ofValue [word] = _
    simp only [Command.ofValue, h]
  show obey m (Command.ofLine ("i " ++ word)) = _
  rw [hcommand]
  rfl

theorem converse_of_hear {m : Machine} {line : InputLine} {r : Response}
    (h : hear m line = .ofResponse r) (rest : List InputLine) :
    converse m (line :: rest)
      = { converse r.machine rest with
          out := responseLines r ++ (converse r.machine rest).out } := by
  rw [converse, h]
  rfl

theorem machine_of_hear {m : Machine} {line : InputLine} {r : Response}
    (h : hear m line = .ofResponse r) : (converse m [line]).machine = r.machine := by
  rw [converse_of_hear h]
  rfl

theorem responseLines_of_finished {r : Response} (h : r.reply = .finished) :
    responseLines r = ["finished", stackLine r.machine] := by
  unfold responseLines
  rw [h]

theorem responseLines_of_failed {r : Response} {fault : Fault} (h : r.reply = .failed fault) :
    responseLines r = ["error: " ++ fault.message] := by
  unfold responseLines
  rw [h]

theorem commands_of_quiet {m : Machine} (h : m.stepInto.machine.isWaiting = false) (n : Nat)
    (words : List String) :
    commands (n + 1) m words = "s" :: commands n m.stepInto.machine words := by
  simp only [commands, machine_of_hear (hear_step m), h]

theorem commands_of_asks {m : Machine} {word : String} {value : Float}
    (h : m.stepInto.machine.isWaiting = true) (hword : readNumber? word = some value) (n : Nat)
    (words : List String) :
    commands (n + 1) m (word :: words)
      = "s" :: ("i " ++ word) :: commands n (m.stepInto.machine.provide value).machine words := by
  have hprovide := machine_of_hear (hear_provide hword m.stepInto.machine)
  simp only [commands, machine_of_hear (hear_step m), h, hprovide]

/-! ## §2. Where commands lead. -/

/-- The commands lead from one machine to the other, whatever comes after them. -/
def Leads (m : Machine) (commands : List String) (n : Machine) : Prop :=
  ∀ later, ∃ before, converse m (commands.map .text ++ later)
    = { converse n later with out := before ++ (converse n later).out }

theorem leads_nil (m : Machine) : Leads m [] m := by
  intro later
  exact ⟨[], rfl⟩

theorem Leads.trans {m n k : Machine} {first second : List String} (h : Leads m first n)
    (h' : Leads n second k) : Leads m (first ++ second) k := by
  intro later
  obtain ⟨before, hbefore⟩ := h (second.map .text ++ later)
  obtain ⟨before', hbefore'⟩ := h' later
  refine ⟨before ++ before', ?_⟩
  rw [List.map_append, List.append_assoc, hbefore, hbefore', List.append_assoc]

theorem leads_of_hear {m : Machine} {command : String} {r : Response}
    (h : hear m (.text command) = .ofResponse r) : Leads m [command] r.machine := by
  intro later
  exact ⟨responseLines r, converse_of_hear h later⟩

/-- The script comes, `k` steps later, from one machine and the words that are left to
the other. -/
def Follows (m : Machine) (words : List String) (k : Nat) (m' : Machine)
    (words' : List String) : Prop :=
  ∃ first, Leads m first m' ∧ ∀ n, commands (k + n) m words = first ++ commands n m' words'

theorem follows_zero (m : Machine) (words : List String) : Follows m words 0 m words := by
  refine ⟨[], leads_nil m, ?_⟩
  intro n
  rw [Nat.zero_add, List.nil_append]

theorem Follows.trans {m m' m'' : Machine} {words words' words'' : List String} {k l : Nat}
    (h : Follows m words k m' words') (h' : Follows m' words' l m'' words'') :
    Follows m words (k + l) m'' words'' := by
  obtain ⟨first, hleads, hcommands⟩ := h
  obtain ⟨second, hleads', hcommands'⟩ := h'
  refine ⟨first ++ second, hleads.trans hleads', ?_⟩
  intro n
  rw [Nat.add_assoc, hcommands, hcommands', List.append_assoc]

/-- A step that asks nothing is one command. -/
theorem follows_step {m : Machine} (h : m.stepInto.machine.isWaiting = false)
    (words : List String) : Follows m words 1 m.stepInto.machine words := by
  refine ⟨["s"], leads_of_hear (hear_step m), ?_⟩
  intro n
  rw [Nat.add_comm, commands_of_quiet h]
  rfl

/-- A step that asks for a number is two, the second of which gives the next word. -/
theorem follows_answer {m : Machine} {word : String} {value : Float}
    (h : m.stepInto.machine.isWaiting = true) (hword : readNumber? word = some value)
    (words : List String) :
    Follows m (word :: words) 1 (m.stepInto.machine.provide value).machine words := by
  refine ⟨["s", "i " ++ word],
    (leads_of_hear (hear_step m)).trans (leads_of_hear (hear_provide hword _)), ?_⟩
  intro n
  rw [Nat.add_comm, commands_of_asks h hword]
  rfl

/-- The last step shows its response at the end of the session. -/
theorem Follows.converse_eq {m m' : Machine} {words words' : List String} {k : Nat}
    (h : Follows m words k m' words') (hquiet : m'.stepInto.machine.isWaiting = false) :
    ∃ before, converse m ((commands (k + 1) m words).map .text)
      = { out := before ++ responseLines m'.stepInto, machine := m'.stepInto.machine } := by
  obtain ⟨first, hleads, hcommands⟩ := h
  obtain ⟨before, hbefore⟩ := hleads [.text "s"]
  have hlast : commands 1 m' words' = ["s"] := commands_of_quiet hquiet 0 words'
  refine ⟨before, ?_⟩
  rw [hcommands, hlast, List.map_append]
  show converse m (first.map .text ++ [.text "s"]) = _
  rw [hbefore, converse_of_hear (hear_step m')]
  simp [converse]

end Session

/-! ## §3. The course of a session. -/

namespace Run

variable {p : Program} {strategy : Strategy} {k : Nat} {rest : List InputLine}
variable {remarks later : List Remark} {m m' : Machine} {words : List String}

/-- Every word spells a number. -/
def AllNumbers (words : List String) : Prop :=
  ∀ word ∈ words, (readNumber? word).isSome = true

instance (words : List String) : Decidable (AllNumbers words) :=
  inferInstanceAs (Decidable (∀ word ∈ words, _))

theorem number?_text {word : String} {value : Float} (h : readNumber? word = some value) :
    InputLine.number? (.text word) = some value := by
  show readNumber? (Text.trim word) = _
  rw [(isWord_of_readNumber? h).trim_eq, h]

/-- Where all words are numbers, the first of them is the answer. -/
theorem words_of_answered {stray : List InputLine} {line : InputLine} {value : Float}
    (hwords : AllNumbers words) (hinput : words.map .text = stray ++ line :: rest)
    (hstray : ∀ line ∈ stray, line.isStray = true) (hline : line.number? = some value) :
    ∃ word words', words = word :: words' ∧ readNumber? word = some value
      ∧ rest = words'.map .text := by
  cases words with
  | nil => simp at hinput
  | cons word words =>
    obtain ⟨number, hnumber⟩ := Option.isSome_iff_exists.1 (hwords word List.mem_cons_self)
    have htext := number?_text hnumber
    cases stray with
    | nil =>
      obtain ⟨rfl, rfl⟩ := List.cons.inj hinput
      rw [htext] at hline
      exact ⟨word, words, rfl, hnumber.trans hline, rfl⟩
    | cons first stray =>
      -- the first line would be rejected, but it is a number
      obtain ⟨rfl, -⟩ := List.cons.inj hinput
      have hfirst := hstray _ List.mem_cons_self
      rw [InputLine.isStray, InputLine.strayWord?_of_number? htext] at hfirst
      cases hfirst

/-- The session steps as the run does, but for the listener. -/
theorem stepInto_mute_eq (m : Machine) (strategy : Strategy) :
    m.mute.stepInto = (m.step strategy).mute := by
  rw [m.stepInto_mute, m.step_eq_stepInto]

/-- A round of a run is a step of the session, with its answer. -/
theorem Round.follows {input : List InputLine} (h : Round strategy m input later m' rest)
    (hinput : input = words.map .text) (hwords : AllNumbers words) :
    ∃ words', rest = words'.map .text ∧ AllNumbers words'
      ∧ Session.Follows m.mute words 1 m'.mute words' := by
  have hstep : m.mute.stepInto.machine = (m.step strategy).machine.mute :=
    congrArg Response.machine (stepInto_mute_eq m strategy)
  cases h with
  | quiet _ hreply hquiet =>
    refine ⟨words, hinput, hwords, ?_⟩
    rw [← hstep]
    apply Session.follows_step
    rw [hstep]
    exact hquiet
  | @answered stray line value _ hreply hasks hstray hline =>
    obtain ⟨word, words', rfl, hword, hrest⟩ := words_of_answered hwords hinput.symm hstray hline
    have hprovide : (m.mute.stepInto.machine.provide value).machine
        = ((m.step strategy).machine.provide value).machine.mute := by
      rw [hstep, Machine.provide_mute]
      rfl
    refine ⟨words', hrest, fun w hw => hwords w (List.mem_cons_of_mem _ hw), ?_⟩
    rw [← hprovide]
    apply Session.follows_answer _ hword
    rw [hstep]
    exact hasks

/-- **Round by round the session goes where the run goes.** -/
theorem Course.follows (h : Course p strategy (words.map .text) k remarks m rest)
    (hwords : AllNumbers words) :
    ∃ words', rest = words'.map .text ∧ AllNumbers words'
      ∧ Session.Follows (begun p).machine.mute words k m.mute words' := by
  induction h with
  | start _ => exact ⟨words, rfl, hwords, Session.follows_zero _ words⟩
  | round _ hround ih =>
    obtain ⟨words', hrest, hwords', hfollows⟩ := ih
    obtain ⟨words'', hrest', hwords'', hfollows'⟩ := hround.follows hrest hwords'
    exact ⟨words'', hrest', hwords'', hfollows.trans hfollows'⟩

/-- A program starts in the session as it does in a run, but for the listener. -/
theorem start_eq_begun (p : Program) : (Machine.load {} p).machine.start = (begun p).mute :=
  Machine.start_mute ((Machine.load {} p).machine.listen true).machine

theorem session_of_started (hstart : (begun p).reply = .done) (input : List InputLine) :
    Session.run p input
      = .ok { Session.converse (begun p).machine.mute input with
          out := Session.view (begun p).machine.mute
            ++ (Session.converse (begun p).machine.mute input).out } := by
  have hreply : (begun p).mute.reply = .done := hstart
  unfold Session.run
  simp only [start_eq_begun, hreply]
  rfl

/-- The session ends with what its last step shows. -/
theorem Course.sessionReport_eq (h : Course p strategy (words.map .text) k remarks m rest)
    (hwords : AllNumbers words) (hreply : (m.step strategy).reply ≠ .stepped) :
    ∃ before, sessionReport (Session.run p ((Session.script p (k + 1) words).map .text))
      = { ending := .success, out := before ++ Session.responseLines (m.step strategy).mute } := by
  obtain ⟨words', -, -, hfollows⟩ := h.follows hwords
  have hstep := stepInto_mute_eq m strategy
  have hquiet : m.mute.stepInto.machine.isWaiting = false := by
    rw [hstep]
    exact (h.quiet_of_ne_stepped hreply).2
  obtain ⟨before, hbefore⟩ := hfollows.converse_eq hquiet
  refine ⟨Session.view (begun p).machine.mute ++ before, ?_⟩
  have hscript : Session.script p (k + 1) words
      = Session.commands (k + 1) (begun p).machine.mute words := by
    unfold Session.script
    rw [start_eq_begun]
    rfl
  rw [hscript, session_of_started h.started, hbefore, hstep, List.append_assoc]
  rfl

end Run

end StackCalc.Console

namespace StackCalc

open Console

/-! ## §4. Files. -/

/-- **A session can repeat a run of a file.**  Given the numbers of the run, one after each
step that asks for one, it ends with the values that the run writes if this finishes, and
with the fault that the run reports if a step of it fails. -/
theorem session_repeats_run {text : String} {p : Program} (h : Source.assemble text = .ok p)
    (file : String) (strategy : Strategy) (limit : Nat) (words : List String)
    (hwords : Run.AllNumbers words) :
    let input : List InputLine := words.map .text
    let run := perform (.run file strategy limit) (.ok text) input
    let calls := (Run.run p strategy limit input).1.calls
    let script := Session.script p calls words
    let session := perform (.debug file) (.ok text) (script.map .text)
    (run.ending.code = 0 →
        session.ending.code = 0
          ∧ ["finished", "stack: [" ++ ", ".intercalate run.out ++ "]"] <:+ session.out)
      ∧ (run.ending.code = 3 → 0 < calls →
          session.ending.code = 0
            ∧ ∃ message, ["runtime error: " ++ message] <:+ run.err
                ∧ ["error: " ++ message] <:+ session.out) := by
  intro input run calls script session
  obtain ⟨steps, verdict, remarks, n, rest, hends⟩ := Run.exists_ends p strategy limit input
  have hrun : run = _ := (perform_run h file strategy limit input).trans (Run.report_of_ends hends)
  have hcalls : calls = steps := by
    show (Run.run p strategy limit input).1.calls = steps
    rw [Run.run_eq_of_ends hends]
    rfl
  have hsession : session
      = sessionReport (Session.run p ((Session.script p steps words).map .text)) := by
    rw [← hcalls]
    exact perform_of_assemble h (.debug file) (script.map .text)
  rw [hrun, hsession, hcalls]
  -- the exit codes tell the two ways to end from the others
  constructor
  · intro hcode
    cases hends with
    | refused | faulted | starved | garbled | exhausted => cases hcode
    | @finished k _ m _ hcourse _ hreply =>
      obtain ⟨before, hbefore⟩ := hcourse.sessionReport_eq hwords (by simp [hreply])
      rw [hbefore, Session.responseLines_of_finished (r := (m.step strategy).mute) hreply]
      exact ⟨rfl, before, rfl⟩
  · intro hcode hpos
    cases hends with
    | refused => exact absurd hpos (Nat.lt_irrefl 0)
    | finished | starved | garbled | exhausted => cases hcode
    | @faulted k _ m _ fault hcourse _ hreply =>
      obtain ⟨before, hbefore⟩ := hcourse.sessionReport_eq hwords (by simp [hreply])
      rw [hbefore, Session.responseLines_of_failed (r := (m.step strategy).mute) hreply]
      exact ⟨rfl, fault.message, ⟨remarks.map Run.Remark.line, rfl⟩, before, rfl⟩

/-- The text of a program that reads two numbers and divides the first by the second. -/
def ratioText : String :=
  "FUNC main\n  INPUT a\n  INPUT b\n  DIV\n"

/-- The program of `ratioText`. -/
def ratioProgram : Program where
  routines := [⟨1, "main"⟩]
  instructions := [⟨1, 1, 0, .input "a"⟩, ⟨2, 1, 1, .input "b"⟩, ⟨3, 1, 2, .div⟩]

theorem assemble_ratioText : Source.assemble ratioText = .ok ratioProgram := by
  cbv

theorem load_ratioProgram : (Machine.load {} ratioProgram).machine
    = { image := some ⟨[("main", ratioProgram.instructions)], []⟩ } := by
  have hbody : byPosition ratioProgram.instructions = ratioProgram.instructions :=
    byPosition_eq_self rfl
  show ({ image := some ⟨[("main", byPosition ratioProgram.instructions)],
    (Image.labelsOf [("main", byPosition ratioProgram.instructions)]).reverse⟩ } : Machine) = _
  rw [hbody]
  rfl

/-- The fourth step finishes if the second number is 2, and the third fails if it is a
zero. -/
theorem session_repeats_run_ratioText :
    let run := fun words : List String =>
      perform (.run "p" .over 9) (.ok ratioText) (words.map .text)
    let session := fun commands : List String =>
      perform (.debug "p") (.ok ratioText) (commands.map .text)
    run ["8", "2"] = ⟨.success, ["4"], ["a", "b"]⟩
      ∧ ["finished", "stack: [4]"] <:+ (session ["s", "i 8", "s", "i 2", "s", "s"]).out
      ∧ run ["8", "-0"] = ⟨.fault, [], ["a", "b", "runtime error: division by zero at main:2"]⟩
      ∧ ∃ message, ["runtime error: " ++ message] <:+ (run ["8", "-0"]).err
          ∧ ["error: " ++ message] <:+ (session ["s", "i 8", "s", "i -0", "s"]).out := by
  intro run session
  have hrun : ∀ words, run words
      = Run.report (Run.run ratioProgram .over 9 (words.map .text)) :=
    fun words => perform_run assemble_ratioText "p" .over 9 _
  have hfinished : run ["8", "2"] = ⟨.success, ["4"], ["a", "b"]⟩ := by
    rw [hrun, Run.run, load_ratioProgram]
    decide +kernel
  have hfault : run ["8", "-0"]
      = ⟨.fault, [], ["a", "b", "runtime error: division by zero at main:2"]⟩ := by
    rw [hrun, Run.run, load_ratioProgram]
    decide +kernel
  have hfour : (Run.run ratioProgram .over 9 [.text "8", .text "2"]).1.calls = 4 := by
    rw [Run.run, load_ratioProgram]
    decide +kernel
  have hthree : (Run.run ratioProgram .over 9 [.text "8", .text "-0"]).1.calls = 3 := by
    rw [Run.run, load_ratioProgram]
    decide +kernel
  have hscript : Session.script ratioProgram 4 ["8", "2"]
      = ["s", "i 8", "s", "i 2", "s", "s"] := by
    rw [Session.script, load_ratioProgram]
    decide +kernel
  have hscript' : Session.script ratioProgram 3 ["8", "-0"]
      = ["s", "i 8", "s", "i -0", "s"] := by
    rw [Session.script, load_ratioProgram]
    decide +kernel
  have hnumbers : Run.AllNumbers ["8", "2"] ∧ Run.AllNumbers ["8", "-0"] := by
    decide +kernel
  refine ⟨hfinished, ?_, hfault, ?_⟩
  · have hends := session_repeats_run assemble_ratioText "p" .over 9 ["8", "2"] hnumbers.1
    have hlast : ["finished", "stack: [" ++ ", ".intercalate (run ["8", "2"]).out ++ "]"]
        <:+ (session (Session.script ratioProgram
          (Run.run ratioProgram .over 9 [.text "8", .text "2"]).1.calls ["8", "2"])).out :=
      (hends.1 (congrArg (·.ending.code) hfinished)).2
    have hline : "stack: [" ++ ", ".intercalate ["4"] ++ "]" = "stack: [4]" := by decide
    rwa [hfour, hscript, hfinished, hline] at hlast
  · have hends := session_repeats_run assemble_ratioText "p" .over 9 ["8", "-0"] hnumbers.2
    have hpositive : 0 < (Run.run ratioProgram .over 9 [.text "8", .text "-0"]).1.calls := by
      omega
    have hlast : ∃ message, ["runtime error: " ++ message] <:+ (run ["8", "-0"]).err
        ∧ ["error: " ++ message] <:+ (session (Session.script ratioProgram
          (Run.run ratioProgram .over 9 [.text "8", .text "-0"]).1.calls ["8", "-0"])).out :=
      (hends.2 (congrArg (·.ending.code) hfault) hpositive).2
    rwa [hthree, hscript'] at hlast

end StackCalc
