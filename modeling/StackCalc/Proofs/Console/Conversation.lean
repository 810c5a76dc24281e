/-
  StackCalc.Proofs.Console.Conversation
  ─────────────────────────────────────
  **SESSIONS COMPOSE, AND LOOKING CHANGES NOTHING.**

  A session hears its lines up to the first that ends it.  Some of them ask something of
  the machine, to make a step or to take a value, and the others only look at it.  Each
  line is answered in the state to which the requests before it have led,

      out      = view m ++ answer₀ ++ answer₁ ++ …
      answerᵢ  = said (m.after (requests (heard.take i))) lineᵢ

  so a line that only looks can be taken out, and nothing but its own answer goes with
  it.  A request that fails leaves the machine as it is, and is answered in the same way
  when it is made again.
-/
import StackCalc.Proofs.Console.Agreement

namespace StackCalc.Console.Session

variable {m : Machine} {line : InputLine}

/-! ## §1. Lines. -/

/-- What a line asks of the machine: a step, or to take the first word after the command
as a value. -/
def request? : InputLine → Option Request
  | .garbled => none
  | .text line =>
    match Text.words line with
    | [] => none
    | word :: rest =>
      if word ∈ ["s", "step"] then some (.step .into)
      else if word ∈ ["n", "next"] then some (.step .over)
      else if word ∈ ["i", "input"] then (rest.head?.bind readNumber?).map .provide
      else none

/-- Whether a line asks to end the session. -/
def isQuit : InputLine → Bool
  | .garbled => false
  | .text line => (Text.words line).head?.any (· ∈ ["q", "quit"])

/-- Whether the session ends at a line. -/
def isLast (line : InputLine) : Bool :=
  line = .garbled || isQuit line

theorem isLast_text (line : String) : isLast (.text line) = isQuit (.text line) := by
  simp [isLast]

/-- Whether a line only looks: it is a text that asks nothing of the machine and does not
end the session. -/
def observes (line : InputLine) : Bool :=
  !isLast line && (request? line).isNone

/-- The requests that lines make, in order. -/
def requests (lines : List InputLine) : List Request :=
  lines.filterMap request?

/-- The lines before the first that ends the session. -/
def heard (input : List InputLine) : List InputLine :=
  input.takeWhile (!isLast ·)

/-! ## §2. Commands. -/

namespace Command

/-- What a command asks of the machine. -/
def request? : Command → Option Request
  | step strategy => some (.step strategy)
  | provide value => some (.provide value)
  | _ => none

/-- Whether a command ends the session. -/
def isQuit : Command → Bool
  | quit => true
  | _ => false

theorem request?_ofValue (words : List String) :
    (ofValue words).request? = (words.head?.bind readNumber?).map .provide := by
  cases words with
  | nil => rfl
  | cons word _ =>
    simp only [ofValue, List.head?_cons, Option.bind_some]
    cases readNumber? word with
    | none => rfl
    | some value => rfl

theorem isQuit_ofValue (words : List String) : (ofValue words).isQuit = false := by
  cases words with
  | nil => rfl
  | cons word _ =>
    simp only [ofValue]
    cases readNumber? word with
    | none => rfl
    | some value => rfl

theorem request?_ofLine (line : String) :
    (ofLine line).request? = Session.request? (.text line) := by
  cases hwords : Text.words line with
  | nil => simp only [ofLine, Session.request?, hwords, request?]
  | cons word rest =>
    simp only [ofLine, Session.request?, hwords, apply_ite request?, request?_ofValue,
      List.mem_cons, List.not_mem_nil, or_false]
    simp only [request?, ite_self]

theorem isQuit_ofLine (line : String) :
    (ofLine line).isQuit = Session.isQuit (.text line) := by
  cases hwords : Text.words line with
  | nil => simp only [ofLine, Session.isQuit, hwords, isQuit, List.head?_nil, Option.any_none]
  | cons word rest =>
    by_cases hquit : word = "q" ∨ word = "quit"
    · -- neither word is one of those that are looked for before
      rcases hquit with rfl | rfl
      · simp [ofLine, Session.isQuit, hwords, isQuit]
      · simp [ofLine, Session.isQuit, hwords, isQuit]
    · simp only [ofLine, Session.isQuit, hwords, if_neg hquit, apply_ite isQuit, isQuit_ofValue]
      simpa [isQuit] using hquit

end Command

/-! ## §3. One line. -/

/-- What a line is answered with in a session that is at `m`. -/
def said (m : Machine) (line : InputLine) : List String :=
  (converse m [line]).out

theorem said_of_hear {next : Machine} {out : List String} (h : hear m line = .goOn next out) :
    said m line = out := by
  unfold said
  rw [converse, h]
  exact List.append_nil out

/-- A request is passed on to the machine. -/
theorem hear_of_request? {r : Request} (h : request? line = some r) (m : Machine) :
    hear m line = .ofResponse (m.handle r) := by
  cases line with
  | garbled => cases h
  | text line =>
    rw [← Command.request?_ofLine] at h
    show obey m (Command.ofLine line) = _
    cases hcommand : Command.ofLine line with
    | step _ | provide _ =>
      rw [hcommand] at h
      cases h
      rfl
    | _ =>
      rw [hcommand] at h
      cases h

theorem hear_of_isQuit (h : isQuit line = true) (m : Machine) : hear m line = .over := by
  cases line with
  | garbled => cases h
  | text line =>
    rw [← Command.isQuit_ofLine] at h
    show obey m (Command.ofLine line) = _
    cases hcommand : Command.ofLine line with
    | quit => rfl
    | _ =>
      rw [hcommand] at h
      cases h

/-- A line that is answered, and leaves the machine as it is. -/
def Inert (m : Machine) (line : InputLine) : Prop :=
  hear m line = .goOn m (said m line)

/-- **A line that only looks leaves the machine as it is.** -/
theorem inert_of_observes (h : observes line = true) (m : Machine) : Inert m line := by
  cases line with
  | garbled => cases h
  | text line =>
    have hcommand : (Command.ofLine line).isQuit = false
        ∧ (Command.ofLine line).request? = none := by
      rw [Command.isQuit_ofLine, Command.request?_ofLine]
      simpa [observes, isLast_text] using h
    have hturn : ∃ out, hear m (.text line) = .goOn m out := by
      show ∃ out, obey m (Command.ofLine line) = .goOn m out
      obtain ⟨hquit, hrequest⟩ := hcommand
      cases hcase : Command.ofLine line with
      | step _ | provide _ =>
        rw [hcase] at hrequest
        cases hrequest
      | quit =>
        rw [hcase] at hquit
        cases hquit
      | _ => exact ⟨_, rfl⟩
    obtain ⟨out, hout⟩ := hturn
    rw [Inert, said_of_hear hout]
    exact hout

/-- **A line that does not end the session is answered, and the machine goes where its
request leads.** -/
theorem hear_of_heard (h : isLast line = false) (m : Machine) :
    hear m line = .goOn (m.after (requests [line])) (said m line) := by
  cases hrequest : request? line with
  | some r =>
    have hhear := hear_of_request? hrequest m
    have hmachine : m.after (requests [line]) = (m.handle r).machine := by
      simp [requests, hrequest, Machine.after]
    rw [said_of_hear hhear, hmachine]
    exact hhear
  | none =>
    have hmachine : m.after (requests [line]) = m := by
      simp [requests, hrequest, Machine.after]
    rw [hmachine]
    exact inert_of_observes (by simp [observes, h, hrequest]) m

/-! ## §4. All lines. -/

/-- What each line of a session that begins at `m` is answered with: the answer to a line
depends on it and on the state to which the requests before it lead. -/
def answers (m : Machine) (input : List InputLine) : List (List String) :=
  (heard input).mapIdx fun i line => said (m.after (requests ((heard input).take i))) line

theorem requests_cons (line : InputLine) (rest : List InputLine) :
    requests (line :: rest) = requests [line] ++ requests rest :=
  List.filterMap_append (l := [line])

theorem heard_cons (h : isLast line = false) (rest : List InputLine) :
    heard (line :: rest) = line :: heard rest :=
  List.takeWhile_cons_of_pos (by simp [h])

theorem heard_of_isLast (h : isLast line = true) (rest : List InputLine) :
    heard (line :: rest) = [] :=
  List.takeWhile_cons_of_neg (by simp [h])

theorem answers_cons (h : isLast line = false) (m : Machine) (rest : List InputLine) :
    answers m (line :: rest) = said m line :: answers (m.after (requests [line])) rest := by
  unfold answers
  rw [heard_cons h, List.mapIdx_cons]
  -- the requests before a later line are those of this line and those between the two
  simp only [List.take_zero, List.take_succ_cons, requests_cons line (List.take _ _),
    Machine.after_append]
  rfl

theorem answers_of_isLast (h : isLast line = true) (m : Machine) (rest : List InputLine) :
    answers m (line :: rest) = [] := by
  unfold answers
  rw [heard_of_isLast h]
  rfl

theorem converse_of_isLast (h : isLast line = true) (m : Machine) (rest : List InputLine) :
    converse m (line :: rest) = { out := [], machine := m, garbled := line = .garbled } := by
  cases line with
  | garbled => rfl
  | text line =>
    rw [isLast_text] at h
    rw [converse, hear_of_isQuit h]
    simp

theorem converse_of_heard (h : isLast line = false) (m : Machine) (rest : List InputLine) :
    converse m (line :: rest)
      = { converse (m.after (requests [line])) rest with
          out := said m line ++ (converse (m.after (requests [line])) rest).out } := by
  rw [converse, hear_of_heard h]

/-- **The answers make up the session.** -/
theorem converse_eq (m : Machine) (input : List InputLine) :
    converse m input
      = { out := (answers m input).flatten,
          machine := m.after (requests (heard input)),
          garbled := input.find? isLast = some .garbled } := by
  induction input generalizing m with
  | nil => rfl
  | cons line rest ih =>
    cases hlast : isLast line with
    | true =>
      rw [converse_of_isLast hlast, answers_of_isLast hlast, heard_of_isLast hlast,
        List.find?_cons_of_pos hlast]
      simp [requests, Machine.after]
    | false =>
      have hmachine : m.after (requests (line :: heard rest))
          = (m.after (requests [line])).after (requests (heard rest)) := by
        rw [requests_cons, Machine.after_append]
      rw [converse_of_heard hlast, ih, answers_cons hlast, heard_cons hlast, hmachine,
        List.find?_cons_of_neg (by simp [hlast]), List.flatten_cons]

/-- What comes after the line that ends a session is not heard. -/
theorem converse_append_quit (h : isQuit line = true) (m : Machine)
    (before after : List InputLine) : converse m (before ++ line :: after) = converse m before := by
  induction before generalizing m with
  | nil =>
    show converse m (line :: after) = _
    simp only [converse, hear_of_isQuit h]
  | cons first before ih =>
    show converse m (first :: (before ++ line :: after)) = _
    rw [converse, converse]
    simp only [ih]

/-! ## §5. Lines that change nothing. -/

theorem Inert.isLast_eq (h : Inert m line) : isLast line = false := by
  cases hlast : isLast line with
  | false => rfl
  | true =>
    cases line with
    | garbled => cases h
    | text line =>
      rw [isLast_text] at hlast
      rw [Inert, hear_of_isQuit hlast] at h
      cases h

theorem Inert.after_eq (h : Inert m line) : m.after (requests [line]) = m := by
  have hhear := hear_of_heard h.isLast_eq m
  rw [h] at hhear
  exact (Turn.goOn.inj hhear).1.symm

/-- An inert line adds its own answer to the session and nothing else.  The state in which
it has to be inert is the one in which it is heard. -/
theorem insertIdx_of_inert {input : List InputLine} {k : Nat}
    (h : Inert (m.after (requests (input.take k))) line) :
    answers m (input.insertIdx k line)
        = (answers m input).insertIdx k (said (m.after (requests (input.take k))) line)
      ∧ m.after (requests (heard (input.insertIdx k line))) = m.after (requests (heard input))
      ∧ (input.insertIdx k line).find? isLast = input.find? isLast := by
  -- by induction on the place of the line
  induction k generalizing m input with
  | zero =>
    have hline : Inert m line := h
    have hlast := hline.isLast_eq
    rw [List.insertIdx_zero, List.insertIdx_zero, answers_cons hlast, heard_cons hlast,
      requests_cons line (heard input), Machine.after_append, hline.after_eq,
      List.find?_cons_of_neg (by simp [hlast])]
    exact ⟨rfl, rfl, rfl⟩
  | succ k ih =>
    cases input with
    | nil => exact ⟨rfl, rfl, rfl⟩
    | cons first rest =>
      cases hfirst : isLast first with
      | true =>
        -- neither the one session nor the other comes to the line
        rw [List.insertIdx_succ_cons, answers_of_isLast hfirst, answers_of_isLast hfirst,
          heard_of_isLast hfirst, heard_of_isLast hfirst, List.find?_cons_of_pos hfirst,
          List.find?_cons_of_pos hfirst]
        exact ⟨rfl, rfl, rfl⟩
      | false =>
        have hstate : m.after (requests ((first :: rest).take (k + 1)))
            = (m.after (requests [first])).after (requests (rest.take k)) := by
          rw [List.take_succ_cons, requests_cons, Machine.after_append]
        rw [hstate] at h ⊢
        obtain ⟨hanswers, hmachine, hfind⟩ := ih h
        refine ⟨?_, ?_, ?_⟩
        · rw [List.insertIdx_succ_cons, answers_cons hfirst, answers_cons hfirst, hanswers,
            List.insertIdx_succ_cons]
        · rw [List.insertIdx_succ_cons, heard_cons hfirst, heard_cons hfirst, requests_cons,
            requests_cons first (heard rest), Machine.after_append, Machine.after_append, hmachine]
        · rw [List.insertIdx_succ_cons, List.find?_cons_of_neg (by simp [hfirst]),
            List.find?_cons_of_neg (by simp [hfirst]), hfind]

/-- Only a failure is answered with one line that reports an error. -/
theorem failed_of_responseLines {r : Response} {message : String}
    (h : responseLines r = ["error: " ++ message]) : ∃ fault, r.reply = .failed fault := by
  unfold responseLines at h
  cases hreply : r.reply with
  | failed fault => exact ⟨fault, rfl⟩
  | idle =>
    rw [hreply] at h
    have hfirst := congrArg (·.toList.head?) (List.cons.inj h).1
    simp at hfirst
  | done | stepped | finished =>
    -- more than one line is shown
    rw [hreply] at h
    have hrest := (List.cons.inj h).2
    cases hrest

/-- **A line that is answered with an error leaves the machine as it is.** -/
theorem inert_of_error {message : String} (h : said m line = ["error: " ++ message]) :
    Inert m line := by
  cases hlast : isLast line with
  | true =>
    -- a line that ends the session is not answered
    unfold said at h
    rw [converse_of_isLast hlast] at h
    cases h
  | false =>
    cases hrequest : request? line with
    | none => exact inert_of_observes (by simp [observes, hlast, hrequest]) m
    | some r =>
      have hhear := hear_of_request? hrequest m
      have hsaid : said m line = responseLines (m.handle r) := said_of_hear hhear
      obtain ⟨fault, hfault⟩ := failed_of_responseLines (hsaid.symm.trans h)
      unfold Inert
      rw [hsaid, hhear, Machine.handle_of_failed hfault]
      rfl

/-! ## §6. Sessions over a program. -/

/-- The transcript of a session over the machine `m`, in which the lines are answered as
given: it begins with where the program stands, and is garbled if the line at which it ends
is no text. -/
def transcript (m : Machine) (input : List InputLine) (answers : List (List String)) :
    Transcript where
  out := view m ++ answers.flatten
  machine := m.after (requests (heard input))
  garbled := input.find? isLast = some .garbled

theorem run_of_done {p : Program} (h : (Machine.load {} p).machine.start.reply = .done)
    (input : List InputLine) :
    run p input
      = .ok (transcript (Machine.load {} p).machine.start.machine input
          (answers (Machine.load {} p).machine.start.machine input)) := by
  unfold run
  simp only [h, converse_eq]
  rfl

/-- An inert line that is put in puts in its answer. -/
theorem transcript_insertIdx {input : List InputLine} {k : Nat}
    (h : Inert (m.after (requests (input.take k))) line) :
    transcript m (input.insertIdx k line) (answers m (input.insertIdx k line))
      = transcript m input ((answers m input).insertIdx k
          (said (m.after (requests (input.take k))) line)) := by
  obtain ⟨hanswers, hmachine, hfind⟩ := insertIdx_of_inert h
  unfold transcript
  rw [hanswers, hmachine, hfind]

/-- A line that is inert in every state, taken out, takes out its answer. -/
theorem transcript_eraseIdx {input : List InputLine} {k : Nat} (hk : input[k]? = some line)
    (h : ∀ n, Inert n line) :
    transcript m (input.eraseIdx k) (answers m (input.eraseIdx k))
      = transcript m input ((answers m input).eraseIdx k) := by
  -- the line put back gives the session from which it was taken out
  have hinput : (input.eraseIdx k).insertIdx k line = input := by
    obtain ⟨hlt, rfl⟩ := List.getElem?_eq_some_iff.1 hk
    exact List.insertIdx_eraseIdx_getElem hlt
  have hinert : Inert (m.after (requests ((input.eraseIdx k).take k))) line := h _
  obtain ⟨hanswers, hmachine, hfind⟩ := insertIdx_of_inert hinert
  rw [hinput] at hanswers hmachine hfind
  unfold transcript
  rw [hanswers, List.eraseIdx_insertIdx_self, hmachine, hfind]

/-- An answer is the answer to the line in its place. -/
theorem said_of_answers {input : List InputLine} {k : Nat} {out : List String}
    (hk : input[k]? = some line) (h : (answers m input)[k]? = some out) :
    said (m.after (requests (input.take k))) line = out := by
  unfold answers at h
  rw [List.getElem?_mapIdx, Option.map_eq_some_iff] at h
  obtain ⟨line', hline', hout⟩ := h
  -- the lines that are heard are the first lines of the input
  obtain ⟨rest, hrest⟩ : heard input <+: input := List.takeWhile_prefix _
  have hlt : k < (heard input).length := (List.getElem?_eq_some_iff.1 hline').1
  have htake : input.take k = (heard input).take k := by
    conv_lhs => rw [← hrest]
    exact List.take_append_of_le_length (Nat.le_of_lt hlt)
  have hsame : line' = line := by
    rw [← hrest, List.getElem?_append_left hlt, hline'] at hk
    exact Option.some.inj hk
  rw [htake, ← hsame]
  exact hout

end StackCalc.Console.Session

namespace StackCalc

open Console

/-- **Sessions compose, and looking is inert.**  For a program that starts, a session shows
where the program stands and then the answers to its lines, each in the state to which the
steps and values before it lead, up to the first line that ends it; and it is garbled if and
only if this line is no text.  A text that neither asks something of the machine nor ends
the session leaves every machine as it is, so without it the session is the same but for its
own answer.  A line that is answered with an error leaves the machine as it is, and once
more in its place is answered in the same way.  What follows `q` has no effect. -/
theorem sessions_compose {p : Program}
    (hstart : (Machine.load {} p).machine.start.reply = .done) :
    let m := (Machine.load {} p).machine.start.machine
    (∀ input, Session.run p input
        = .ok (Session.transcript m input (Session.answers m input)))
      ∧ (∀ line, Session.observes line = true → ∀ n, Session.Inert n line)
      ∧ (∀ input k line, input[k]? = some line → Session.observes line = true →
          Session.run p (input.eraseIdx k)
            = .ok (Session.transcript m input ((Session.answers m input).eraseIdx k)))
      ∧ (∀ input k line message, input[k]? = some line →
          (Session.answers m input)[k]? = some ["error: " ++ message] →
          Session.Inert (m.after (Session.requests (input.take k))) line
            ∧ Session.run p (input.insertIdx k line)
              = .ok (Session.transcript m input
                  ((Session.answers m input).insertIdx k ["error: " ++ message])))
      ∧ ∀ before line after, Session.isQuit line = true →
          Session.run p (before ++ line :: after) = Session.run p before := by
  intro m
  have hrun := Session.run_of_done hstart
  refine ⟨hrun, ?_, ?_, ?_, ?_⟩
  · intro line hline n
    exact Session.inert_of_observes hline n
  · intro input k line hk hline
    rw [hrun, Session.transcript_eraseIdx hk (Session.inert_of_observes hline)]
  · intro input k line message hk herror
    have hsaid := Session.said_of_answers hk herror
    have hinert := Session.inert_of_error hsaid
    refine ⟨hinert, ?_⟩
    rw [hrun, Session.transcript_insertIdx hinert, hsaid]
  · intro before line after hquit
    unfold Session.run
    simp only [Session.converse_append_quit hquit]

/-- The bytes of a session over `ratioProgram`.  The second line is written with a no-break
space, the fifth gives a value that nothing asks for, the eighth divides by zero, and the
one after `q` is no UTF-8 text. -/
def ratioSession : List UInt8 :=
  "s\n\u00A0where\r\ni x\ni 4\ninput 5\nstep\ni -0 1\nn\nq\n".toUTF8.toList ++ [0xFF, 0x0A]

/-- The lines of `ratioSession`. -/
def ratioLines : List InputLine :=
  [.text "s", .text "\u00A0where", .text "i x", .text "i 4", .text "input 5", .text "step",
    .text "i -0 1", .text "n", .text "q", .garbled]

theorem split_ratioSession : InputLine.split ratioSession = ratioLines := by
  decide +kernel

/-- The machine with which a session over `ratioProgram` begins. -/
def ratioMachine : Machine where
  image := some ⟨[("main", ratioProgram.instructions)], []⟩
  phase := .running

theorem answers_ratioLines : Session.answers ratioMachine ratioLines
    = [["main:1  INPUT \"b\"", "stack: []", "waiting for input: a"],
      ["  at main:1"],
      ["invalid number, try again"],
      ["main:1  INPUT \"b\"", "stack: [4]"],
      ["error: engine is not waiting for input"],
      ["main:2  DIV", "stack: [4]", "waiting for input: b"],
      ["main:2  DIV", "stack: [4, -0]"],
      ["error: division by zero at main:2"]] := by
  decide +kernel

theorem start_ratioProgram :
    (Machine.load {} ratioProgram).machine.start = Machine.done ratioMachine := by
  rw [load_ratioProgram]
  rfl

/-- The session ends at `q`, so the bytes after it do no harm; the second line can be taken
out, and the division that fails can be tried again. -/
theorem sessions_compose_ratioSession :
    let answers := Session.answers ratioMachine ratioLines
    (Machine.load {} ratioProgram).machine.start.reply = .done
      ∧ Session.run ratioProgram (InputLine.split ratioSession)
        = .ok (Session.transcript ratioMachine ratioLines answers)
      ∧ (Session.transcript ratioMachine ratioLines answers).garbled = false
      ∧ answers[1]? = some ["  at main:1"]
      ∧ Session.run ratioProgram (ratioLines.eraseIdx 1)
        = .ok (Session.transcript ratioMachine ratioLines (answers.eraseIdx 1))
      ∧ answers[7]? = some ["error: division by zero at main:2"]
      ∧ Session.run ratioProgram (ratioLines.insertIdx 7 (.text "n"))
        = .ok (Session.transcript ratioMachine ratioLines
            (answers.insertIdx 7 ["error: division by zero at main:2"]))
      ∧ Session.run ratioProgram ratioLines = Session.run ratioProgram (ratioLines.take 8) := by
  intro answers
  have hstart : (Machine.load {} ratioProgram).machine.start.reply = .done := by
    rw [start_ratioProgram]
    rfl
  have hcompose := sessions_compose hstart
  rw [start_ratioProgram] at hcompose
  obtain ⟨hrun, -, herase, herror, hquit⟩ := hcompose
  have hlook : answers[1]? = some ["  at main:1"] := by
    show (Session.answers ratioMachine ratioLines)[1]? = _
    rw [answers_ratioLines]
    rfl
  have hfails : answers[7]? = some ["error: division by zero at main:2"] := by
    show (Session.answers ratioMachine ratioLines)[7]? = _
    rw [answers_ratioLines]
    rfl
  refine ⟨hstart, ?_, by decide +kernel, hlook, ?_, hfails, ?_, ?_⟩
  · rw [split_ratioSession]
    exact hrun ratioLines
  · exact herase ratioLines 1 _ rfl (by decide +kernel)
  · exact (herror ratioLines 7 _ "division by zero at main:2" rfl hfails).2
  · exact hquit (ratioLines.take 8) (.text "q") [.garbled] (by decide +kernel)

end StackCalc
