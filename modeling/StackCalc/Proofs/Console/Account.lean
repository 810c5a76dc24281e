/-
  StackCalc.Proofs.Console.Account
  ────────────────────────────────
  **WHAT A RUN COMES TO.**

  The report on a run says how the run ended, and the exit code tells the ways apart:

      0   finished      1   starved or garbled
      3   faulted       4   exhausted

  Values are written by the first of them only.  As for the input, a run reads

      input = read ++ rest,

  where the rest makes no difference (`Ends.reads`); and a stray line in what it reads
  is answered with a line on standard error, and makes no other difference
  (`Ends.tidy`).
-/
import Mathlib
import StackCalc.Console.CommandLine
import StackCalc.Proofs.Console.Course

namespace StackCalc

namespace Console

namespace Run

variable {p : Program} {strategy : Strategy} {limit k calls : Nat} {input rest : List InputLine}
variable {remarks later : List Remark} {m m' n : Machine} {verdict : Verdict}

/-! ## §1. The lines that are read. -/

@[simp] theorem rejected_prompts (r : Response) :
    (prompts r).filterMap Remark.rejected? = [] := by
  simp [prompts, Remark.rejected?]

@[simp] theorem rejected_rejections (lines : List InputLine) :
    (rejections lines).filterMap Remark.rejected? = lines.filterMap InputLine.strayWord? := by
  unfold rejections
  rw [List.filterMap_map]
  exact List.filterMap_some

/-- A round reads the lines up to its answer and rejects those that are stray; it is the
same whatever lines come after. -/
theorem Round.reads (h : Round strategy m input later m' rest) :
    ∃ read, input = read ++ rest
      ∧ later.filterMap Remark.rejected? = read.filterMap InputLine.strayWord?
      ∧ ∀ other, Round strategy m (read ++ other) later m' other := by
  cases h with
  | quiet _ hreply hquiet =>
    exact ⟨[], rfl, rejected_prompts _, fun other => .quiet other hreply hquiet⟩
  | @answered stray line value _ hreply hasks hstray hline =>
    refine ⟨stray ++ [line], by simp, ?_, ?_⟩
    · simp [InputLine.strayWord?_of_number? hline]
    · intro other
      rw [List.append_assoc]
      exact .answered other hreply hasks hstray hline

theorem Course.reads (h : Course p strategy input k remarks m rest) :
    ∃ read, input = read ++ rest
      ∧ remarks.filterMap Remark.rejected? = read.filterMap InputLine.strayWord?
      ∧ ∀ other, Course p strategy (read ++ other) k remarks m other := by
  induction h with
  | start hstart => exact ⟨[], rfl, rfl, fun other => .start hstart⟩
  | round _ hround ih =>
    obtain ⟨read, hinput, hrejected, hcourse⟩ := ih
    obtain ⟨read', rfl, hrejected', hround'⟩ := hround.reads
    refine ⟨read ++ read', by rw [hinput, List.append_assoc], ?_, ?_⟩
    · rw [List.filterMap_append, List.filterMap_append, hrejected, hrejected']
    · intro other
      rw [List.append_assoc]
      exact (hcourse (read' ++ other)).round (hround' other)

/-- **The lines after those that a run reads make no difference to it**, unless it reads
all there are and wants more. -/
theorem Ends.reads (h : Ends p strategy limit input calls verdict remarks n rest) :
    ∃ read, input = read ++ rest
      ∧ remarks.filterMap Remark.rejected? = read.filterMap InputLine.strayWord?
      ∧ (verdict ≠ .starved →
          ∀ other, Ends p strategy limit (read ++ other) calls verdict remarks n other) := by
  cases h with
  | refused hstart => exact ⟨[], rfl, rfl, fun _ other => .refused hstart⟩
  | finished h hk hreply =>
    obtain ⟨read, hinput, hrejected, hcourse⟩ := h.reads
    exact ⟨read, hinput, hrejected, fun _ other => .finished (hcourse other) hk hreply⟩
  | faulted h hk hreply =>
    obtain ⟨read, hinput, hrejected, hcourse⟩ := h.reads
    exact ⟨read, hinput, hrejected, fun _ other => .faulted (hcourse other) hk hreply⟩
  | @starved k remarks m stray h hk hreply hasks hstray =>
    obtain ⟨read, hinput, hrejected, -⟩ := h.reads
    -- all lines are read, and another one could have been the answer
    refine ⟨read ++ stray, by rw [hinput, List.append_nil], ?_, fun hne => absurd rfl hne⟩
    simp [hrejected]
  | @garbled k remarks m stray rest h hk hreply hasks hstray =>
    obtain ⟨read, hinput, hrejected, hcourse⟩ := h.reads
    -- the line that is no text is read, too, before the run is given up
    refine ⟨read ++ stray ++ [.garbled], by simp [hinput], ?_, ?_⟩
    · simp [hrejected, InputLine.strayWord?]
    · intro _ other
      have h' := hcourse (stray ++ .garbled :: other)
      rw [List.append_assoc, List.append_assoc]
      exact .garbled h' hk hreply hasks hstray
  | exhausted h =>
    obtain ⟨read, hinput, hrejected, hcourse⟩ := h.reads
    exact ⟨read, hinput, hrejected, fun _ other => .exhausted (hcourse other)⟩

/-! ## §2. Stray lines. -/

/-- The lines that are not stray. -/
def tidy (lines : List InputLine) : List InputLine :=
  lines.filter (!·.isStray)

theorem tidy_append (lines lines' : List InputLine) :
    tidy (lines ++ lines') = tidy lines ++ tidy lines' :=
  List.filter_append lines lines'

theorem tidy_stray {stray : List InputLine} (h : ∀ line ∈ stray, line.isStray = true) :
    tidy stray = [] := by
  refine List.filter_eq_nil_iff.2 ?_
  intro line hline
  simp [h line hline]

theorem tidy_cons_of_number? {line : InputLine} {value : Float} (h : line.number? = some value)
    (lines : List InputLine) : tidy (line :: lines) = line :: tidy lines := by
  refine List.filter_cons_of_pos ?_
  simp [InputLine.isStray, InputLine.strayWord?_of_number? h]

@[simp] theorem filter_prompts (r : Response) :
    (prompts r).filter Remark.isPrompt = prompts r := by
  refine List.filter_eq_self.2 ?_
  intro remark hremark
  obtain ⟨text, -, rfl⟩ := List.mem_map.1 hremark
  rfl

@[simp] theorem filter_rejections (lines : List InputLine) :
    (rejections lines).filter Remark.isPrompt = [] := by
  refine List.filter_eq_nil_iff.2 ?_
  intro remark hremark
  obtain ⟨word, -, rfl⟩ := List.mem_map.1 hremark
  exact Bool.false_ne_true

/-- Without the stray lines a round has the same answer and does not reject anything. -/
theorem Round.tidy (h : Round strategy m input later m' rest) :
    Round strategy m (Run.tidy input) (later.filter Remark.isPrompt) m' (Run.tidy rest) := by
  cases h with
  | quiet _ hreply hquiet =>
    rw [filter_prompts]
    exact .quiet _ hreply hquiet
  | @answered stray line value _ hreply hasks hstray hline =>
    rw [tidy_append, tidy_stray hstray, tidy_cons_of_number? hline, List.filter_append,
      filter_prompts, filter_rejections]
    exact .answered (Run.tidy rest) hreply hasks (fun _ hmem => absurd hmem List.not_mem_nil) hline

theorem Course.tidy (h : Course p strategy input k remarks m rest) :
    Course p strategy (Run.tidy input) k (remarks.filter Remark.isPrompt) m (Run.tidy rest) := by
  induction h with
  | start hstart => exact .start hstart
  | round _ hround ih =>
    rw [List.filter_append]
    exact ih.round hround.tidy

/-- **A run ends in the same way if there are no stray lines**, and its prompts are the
same. -/
theorem Ends.tidy (h : Ends p strategy limit input calls verdict remarks n rest) :
    Ends p strategy limit (Run.tidy input) calls verdict (remarks.filter Remark.isPrompt) n
      (Run.tidy rest) := by
  have hnone : ∀ line ∈ ([] : List InputLine), line.isStray = true :=
    fun _ hmem => absurd hmem List.not_mem_nil
  cases h with
  | refused hstart => exact .refused hstart
  | finished h hk hreply => exact .finished h.tidy hk hreply
  | faulted h hk hreply => exact .faulted h.tidy hk hreply
  | starved h hk hreply hasks hstray =>
    have h' := h.tidy
    rw [tidy_stray hstray] at h'
    rw [List.filter_append, List.filter_append, filter_prompts, filter_rejections]
    exact .starved h' hk hreply hasks hnone
  | garbled h hk hreply hasks hstray =>
    have h' := h.tidy
    rw [tidy_append, tidy_stray hstray] at h'
    rw [List.filter_append, List.filter_append, filter_prompts, filter_rejections]
    exact .garbled h' hk hreply hasks hnone
  | exhausted h => exact .exhausted h.tidy

/-! ## §3. Reports. -/

theorem report_of_ends (h : Ends p strategy limit input calls verdict remarks n rest) :
    report (run p strategy limit input)
      = { ending := verdict.ending,
          out := if verdict = .finished then n.values.map writeNumber else [],
          err := remarks.map Remark.line ++ verdict.lastWords } := by
  rw [run_eq_of_ends h]
  simp [report, Progress.reached, Progress.remark]

/-- The run ends with this verdict. -/
def EndsWith (p : Program) (strategy : Strategy) (limit : Nat) (input : List InputLine)
    (verdict : Verdict) : Prop :=
  ∃ calls remarks n rest, Ends p strategy limit input calls verdict remarks n rest

theorem endsWith_iff (h : Ends p strategy limit input calls verdict remarks n rest) (v : Verdict) :
    EndsWith p strategy limit input v ↔ verdict = v := by
  constructor
  · rintro ⟨calls', remarks', n', rest', h'⟩
    exact congrArg Prod.snd ((run_eq_of_ends h).symm.trans (run_eq_of_ends h'))
  · rintro rfl
    exact ⟨calls, remarks, n, rest, h⟩

/-- What the exit code and standard output say of a run. -/
structure Outcome (p : Program) (strategy : Strategy) (limit : Nat) (input : List InputLine)
    (r : Report) : Prop where
  /-- It succeeds if one of its steps finishes, and the values that are left then are
  written, the bottom one first. -/
  success : ∀ lines, r.ending.code = 0 ∧ r.out = lines ↔
    ∃ calls remarks n rest, Ends p strategy limit input calls .finished remarks n rest
      ∧ lines = n.values.map writeNumber
  /-- The program is at fault if it does not start or one of its steps fails. -/
  fault : r.ending.code = 3 ↔ ∃ fault, EndsWith p strategy limit input (.faulted fault)
  /-- The input is at fault if one of the questions finds no number before the end or
  before a line that is no text. -/
  misuse : r.ending.code = 1 ↔
    EndsWith p strategy limit input .starved ∨ EndsWith p strategy limit input .garbled
  /-- The steps are exhausted if nothing of this happens. -/
  exhausted : r.ending.code = 4 ↔
    ¬ EndsWith p strategy limit input .finished
      ∧ (∀ fault, ¬ EndsWith p strategy limit input (.faulted fault))
      ∧ ¬ EndsWith p strategy limit input .starved ∧ ¬ EndsWith p strategy limit input .garbled
  silent : r.ending.code ≠ 0 → r.out = []

/-- What a run has read of its input, and what difference this makes to the report. -/
structure Reading (p : Program) (strategy : Strategy) (limit : Nat)
    (report : List InputLine → Report) (read rest : List InputLine) (verdict : Verdict)
    (remarks : List Remark) : Prop where
  ends : ∃ calls n, Ends p strategy limit (read ++ rest) calls verdict remarks n rest
  err : (report (read ++ rest)).err = remarks.map Remark.line ++ verdict.lastWords
  /-- Every stray line that is read is rejected, in their order. -/
  rejected : remarks.filterMap Remark.rejected? = read.filterMap InputLine.strayWord?
  /-- The lines that are not read could be any others. -/
  unread : verdict ≠ .starved → ∀ other, report (read ++ other) = report (read ++ rest)
  /-- Without stray lines all is the same but for the rejections. -/
  tidy : report (tidy (read ++ rest))
    = { report (read ++ rest) with
        err := (remarks.filter Remark.isPrompt).map Remark.line ++ verdict.lastWords }

theorem outcome_report (p : Program) (strategy : Strategy) (limit : Nat)
    (input : List InputLine) :
    Outcome p strategy limit input (report (run p strategy limit input)) := by
  obtain ⟨calls, verdict, remarks, n, rest, h⟩ := exists_ends p strategy limit input
  have hreport := report_of_ends h
  have hwith := endsWith_iff h
  constructor
  case success =>
    intro lines
    constructor
    · rintro ⟨hcode, rfl⟩
      rw [hreport] at hcode ⊢
      cases verdict with
      | finished => exact ⟨calls, remarks, n, rest, h, rfl⟩
      | _ => cases hcode
    · rintro ⟨calls', remarks', n', rest', h', rfl⟩
      rw [report_of_ends h']
      exact ⟨rfl, rfl⟩
  case silent =>
    intro hcode
    rw [hreport] at hcode ⊢
    cases verdict with
    | finished => exact absurd rfl hcode
    | _ => rfl
  -- every other exit code belongs to some of the verdicts and to no others
  all_goals
    simp only [hwith, hreport]
    cases verdict <;> simp [Verdict.ending, Ending.code]

theorem reading_report (p : Program) (strategy : Strategy) (limit : Nat)
    (input : List InputLine) :
    ∃ read rest verdict remarks, input = read ++ rest
      ∧ Reading p strategy limit (fun input => report (run p strategy limit input)) read rest
          verdict remarks := by
  obtain ⟨calls, verdict, remarks, n, rest, h⟩ := exists_ends p strategy limit input
  obtain ⟨read, rfl, hrejected, hother⟩ := h.reads
  refine ⟨read, rest, verdict, remarks, rfl, ?_⟩
  have hreport := report_of_ends h
  exact
    { ends := ⟨calls, n, h⟩
      err := by rw [hreport]
      rejected := hrejected
      unread := fun hverdict other => by rw [hreport, report_of_ends (hother hverdict other)]
      tidy := by rw [hreport, report_of_ends h.tidy] }

end Run

/-- A command works on the program that its file assembles to. -/
theorem perform_of_assemble {text : String} {p : Program} (h : Source.assemble text = .ok p)
    (invocation : Invocation) (input : List InputLine) :
    perform invocation (.ok text) input = carryOut p input invocation := by
  have hprogram : programOf invocation.file (.ok text) = .ok p := by
    simp only [programOf, h]
  simp only [perform, hprogram]

/-- The report on a run of a file. -/
theorem perform_run {text : String} {p : Program} (h : Source.assemble text = .ok p)
    (file : String) (strategy : Strategy) (limit : Nat) (input : List InputLine) :
    perform (.run file strategy limit) (.ok text) input
      = Run.report (Run.run p strategy limit input) :=
  perform_of_assemble h (.run file strategy limit) input

end Console

open Console in
/-- **What a run of a file comes to**: the exit code and the values tell how the run
ended, the lines that it does not read make no difference, and a stray line only the
one that it is rejected. -/
theorem account_of_assemble {text : String} {p : Program} (h : Source.assemble text = .ok p)
    (file : String) (strategy : Strategy) (limit : Nat) (input : List InputLine) :
    Run.Outcome p strategy limit input (perform (.run file strategy limit) (.ok text) input)
      ∧ ∃ read rest verdict remarks, input = read ++ rest
          ∧ Run.Reading p strategy limit (perform (.run file strategy limit) (.ok text)) read rest
              verdict remarks := by
  have hperform : perform (.run file strategy limit) (.ok text)
      = fun input => Run.report (Run.run p strategy limit input) :=
    funext fun input => perform_run h file strategy limit input
  rw [hperform]
  exact ⟨Run.outcome_report p strategy limit input, Run.reading_report p strategy limit input⟩

/-- The text of a program that reads a number and doubles it. -/
def doublingText : String :=
  "FUNC main\n  CALL twice\nFUNC twice\n  INPUT \"x?\"\n  DUP\n  ADD\n"

theorem assemble_doublingText : Source.assemble doublingText = .ok doublingProgram := by
  cbv

open Console in
theorem account_of_assemble_doublingText :
    Source.assemble doublingText = .ok doublingProgram
      ∧ perform (.run "p" .into 6) (.ok doublingText) [.text "x", .text " 3 ", .garbled]
        = { ending := .success, out := ["6"], err := ["x?", "invalid number 'x', try again"] }
      ∧ Run.Outcome doublingProgram .into 6 [.text "x", .text " 3 ", .garbled]
          (perform (.run "p" .into 6) (.ok doublingText) [.text "x", .text " 3 ", .garbled])
      ∧ ∃ read rest verdict remarks, [.text "x", .text " 3 ", .garbled] = read ++ rest
          ∧ Run.Reading doublingProgram .into 6 (perform (.run "p" .into 6) (.ok doublingText))
              read rest verdict remarks := by
  refine ⟨assemble_doublingText, ?_, account_of_assemble assemble_doublingText "p" .into 6 _⟩
  rw [perform_run assemble_doublingText]
  unfold Run.run Machine.load
  rw [ofProgram_doublingProgram]
  decide +kernel

end StackCalc
