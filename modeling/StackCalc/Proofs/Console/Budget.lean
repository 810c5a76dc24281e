/-
  StackCalc.Proofs.Console.Budget
  ───────────────────────────────
  **A LIMIT CUTS A RUN SHORT AND DOES NOTHING ELSE.**

  The number of steps that a run may make is looked at only when a run would make one
  more.  So a run that ends by itself ends alike under every larger limit,

      report N = report M          for N ≤ M, if N suffices,

  and a run that is cut short has written the beginning of what it would have written,

      (report N).err = before ++ [last line]   and   before <+: (report M).err.

  For a file and an input there is then one threshold at most: below it every run is
  cut short, and from it on the report does not change any more.
-/
import Mathlib.Data.Nat.Find
import StackCalc.Proofs.Console.Account

namespace StackCalc.Console

/-! ## §1. Two limits. -/

namespace Run

variable {p : Program} {strategy : Strategy} {limit limit' calls : Nat} {input rest : List InputLine}
variable {remarks : List Remark} {n : Machine} {verdict : Verdict}

/-- A run that ends by itself ends alike if it may make more steps. -/
theorem Ends.mono (h : Ends p strategy limit input calls verdict remarks n rest)
    (hle : limit ≤ limit') (hverdict : verdict.ending ≠ .exhausted) :
    Ends p strategy limit' input calls verdict remarks n rest := by
  cases h with
  | refused hstart => exact .refused hstart
  | finished h hk hreply => exact .finished h (by omega) hreply
  | faulted h hk hreply => exact .faulted h (by omega) hreply
  | starved h hk hreply hasks hstray => exact .starved h (by omega) hreply hasks hstray
  | garbled h hk hreply hasks hstray => exact .garbled h (by omega) hreply hasks hstray
  | exhausted h => exact absurd rfl hverdict

/-- A run that is cut short has gone through as many rounds as it may. -/
theorem Ends.course (h : Ends p strategy limit input calls verdict remarks n rest)
    (hverdict : verdict.ending = .exhausted) :
    calls = limit ∧ verdict = .exhausted limit n.cursor
      ∧ Course p strategy input limit remarks n rest := by
  cases h with
  | exhausted h => exact ⟨rfl, rfl, h⟩
  | refused | finished | faulted | starved | garbled => cases hverdict

/-- What is left of a run that is cut short by its limit, beside the report on the same run
under a larger one. -/
structure CutShort (p : Program) (strategy : Strategy) (limit : Nat) (input : List InputLine)
    (short long : Report) : Prop where
  out : short.out = []
  /-- All it has written but the last line is the beginning of what the other has written. -/
  err : ∃ before place, short.err = before ++ (Verdict.exhausted limit place).lastWords
    ∧ before <+: long.err
  calls : (run p strategy limit input).1.calls = limit
  /-- Every step that was asked for was made. -/
  rounds : ∃ remarks m rest, Course p strategy input limit remarks m rest
    ∧ run p strategy limit input = (.reached limit remarks m, .exhausted limit m.cursor)

theorem code_eq_four_iff (e : Ending) : e.code = 4 ↔ e = .exhausted := by
  cases e <;> simp [Ending.code]

theorem report_eq_of_le (hle : limit ≤ limit')
    (hcode : (report (run p strategy limit input)).ending.code ≠ 4) :
    report (run p strategy limit' input) = report (run p strategy limit input) := by
  obtain ⟨calls, verdict, remarks, n, rest, h⟩ := exists_ends p strategy limit input
  rw [report_of_ends h] at hcode ⊢
  have hverdict : verdict.ending ≠ .exhausted := by
    intro hexhausted
    exact hcode ((code_eq_four_iff verdict.ending).2 hexhausted)
  rw [report_of_ends (h.mono hle hverdict)]

theorem cutShort_of_le (hle : limit ≤ limit')
    (hcode : (report (run p strategy limit input)).ending.code = 4) :
    CutShort p strategy limit input (report (run p strategy limit input))
      (report (run p strategy limit' input)) := by
  obtain ⟨calls, verdict, remarks, n, rest, h⟩ := exists_ends p strategy limit input
  rw [report_of_ends h] at hcode
  obtain ⟨rfl, rfl, hcourse⟩ := h.course ((code_eq_four_iff verdict.ending).1 hcode)
  -- under the larger limit the same rounds are made, and then others
  obtain ⟨calls', verdict', later, n', rest', h'⟩ := hcourse.exists_ends hle
  have hrun := run_eq_of_ends h
  rw [report_of_ends h, report_of_ends h']
  refine ⟨rfl, ⟨remarks.map Remark.line, n.cursor, rfl, ?_⟩, by rw [hrun]; rfl,
    remarks, n, rest, hcourse, hrun⟩
  show remarks.map Remark.line <+: (remarks ++ later).map Remark.line ++ verdict'.lastWords
  rw [List.map_append, List.append_assoc]
  exact List.prefix_append _ _

end Run

/-! ## §2. Thresholds. -/

/-- The limit below which every run is cut short, and from which on there is one answer. -/
structure IsThreshold (report : Nat → Report) (threshold : Nat) : Prop where
  below : ∀ limit, limit < threshold → (report limit).ending.code = 4
  above : ∃ answer, answer.ending.code ≠ 4 ∧ ∀ limit, threshold ≤ limit → report limit = answer

/-- There is but one threshold, since the runs below one are cut short and those above are
not. -/
theorem IsThreshold.unique {report : Nat → Report} {a b : Nat} (ha : IsThreshold report a)
    (hb : IsThreshold report b) : a = b := by
  have hle : ∀ {a b : Nat}, IsThreshold report a → IsThreshold report b → a ≤ b := by
    intro a b ha hb
    by_contra hlt
    obtain ⟨answer, hanswer, hsame⟩ := hb.above
    apply hanswer
    rw [← hsame b (Nat.le_refl b)]
    exact ha.below b (by omega)
  exact Nat.le_antisymm (hle ha hb) (hle hb ha)

/-- Where a larger limit changes nothing once the limit suffices, there is a threshold unless
no limit suffices. -/
theorem exists_unique_threshold {report : Nat → Report}
    (hsame : ∀ limit limit', limit ≤ limit' → (report limit).ending.code ≠ 4 →
      report limit' = report limit) :
    (∀ limit, (report limit).ending.code = 4) ∨ ∃! threshold, IsThreshold report threshold := by
  by_cases hall : ∀ limit, (report limit).ending.code = 4
  · exact .inl hall
  · right
    have hsome : ∃ limit, (report limit).ending.code ≠ 4 := not_forall.1 hall
    have hthreshold : IsThreshold report (Nat.find hsome) := by
      constructor
      · intro limit hlimit
        exact not_not.1 (Nat.find_min hsome hlimit)
      · have hfirst := Nat.find_spec hsome
        exact ⟨_, hfirst, fun limit hle => hsame _ limit hle hfirst⟩
    exact ⟨_, hthreshold, fun other hother => hother.unique hthreshold⟩

end StackCalc.Console

namespace StackCalc

open Console

/-! ## §3. Files. -/

/-- **A limit cuts the run of a file short and does nothing else.**  A run that is not cut
short has the same report under every larger limit; one that is has made all its steps and
written the beginning of what it would have written; and there is one threshold between the
two, if any limit suffices. -/
theorem limit_only_cuts (file : String) (strategy : Strategy) (text : Except ReadFailure String)
    (input : List InputLine) :
    let report := fun limit => perform (.run file strategy limit) text input
    (∀ limit limit', limit ≤ limit' →
        ((report limit).ending.code ≠ 4 → report limit' = report limit)
          ∧ ((report limit).ending.code = 4 → ∃ p, programOf file text = .ok p
              ∧ Run.CutShort p strategy limit input (report limit) (report limit')))
      ∧ ((∀ limit, (report limit).ending.code = 4)
          ∨ ∃! threshold, IsThreshold report threshold) := by
  intro report
  have hpair : ∀ limit limit', limit ≤ limit' →
      ((report limit).ending.code ≠ 4 → report limit' = report limit)
        ∧ ((report limit).ending.code = 4 → ∃ p, programOf file text = .ok p
            ∧ Run.CutShort p strategy limit input (report limit) (report limit')) := by
    intro limit limit' hle
    cases hprogram : programOf file text with
    | error line =>
      -- without a program there is no run to be cut short
      have hreport : ∀ limit, report limit = { ending := .misuse, err := [line] } := by
        intro limit
        simp only [report, perform, Invocation.file, hprogram]
      rw [hreport, hreport]
      exact ⟨fun _ => rfl, fun hcode => by cases hcode⟩
    | ok p =>
      have hreport : ∀ limit, report limit = Run.report (Run.run p strategy limit input) := by
        intro limit
        simp only [report, perform, Invocation.file, hprogram]
        rfl
      rw [hreport, hreport]
      exact ⟨Run.report_eq_of_le hle, fun hcode => ⟨p, rfl, Run.cutShort_of_le hle hcode⟩⟩
  exact ⟨hpair, exists_unique_threshold fun limit limit' hle => (hpair limit limit' hle).1⟩

/-- The run of `doublingText`, with the image written out. -/
theorem perform_doublingText (limit : Nat) (input : List InputLine) :
    perform (.run "p" .into limit) (.ok doublingText) input
      = Run.report (Run.Progress.drive .into limit limit
          { machine := { image := some doublingImage, phase := .running, listening := true } }
          input) := by
  rw [perform_run assemble_doublingText]
  unfold Run.run Machine.load
  rw [ofProgram_doublingProgram]
  rfl

/-- The second step of `doublingText` asks, the sixth finishes. -/
theorem limit_only_cuts_doublingText :
    let input : List InputLine := [.text "x", .text "3"]
    let report := fun limit => perform (.run "p" .into limit) (.ok doublingText) input
    report 2 = ⟨.exhausted, [], ["x?", "invalid number 'x', try again",
        "error: step limit of 2 exceeded at twice:1"]⟩
      ∧ report 6 = ⟨.success, ["6"], ["x?", "invalid number 'x', try again"]⟩
      ∧ report 9 = report 6
      ∧ (∃ p, programOf "p" (.ok doublingText) = .ok p
          ∧ Run.CutShort p .into 2 input (report 2) (report 6))
      ∧ ∃! threshold, IsThreshold report threshold := by
  intro input report
  have hshort : report 2 = ⟨.exhausted, [], ["x?", "invalid number 'x', try again",
      "error: step limit of 2 exceeded at twice:1"]⟩ := by
    rw [show report 2 = _ from perform_doublingText 2 input]
    decide +kernel
  have hlong : report 6 = ⟨.success, ["6"], ["x?", "invalid number 'x', try again"]⟩ := by
    rw [show report 6 = _ from perform_doublingText 6 input]
    decide +kernel
  obtain ⟨hpair, hthreshold⟩ := limit_only_cuts "p" .into (.ok doublingText) input
  refine ⟨hshort, hlong, (hpair 6 9 (by omega)).1 ?_, (hpair 2 6 (by omega)).2 ?_, ?_⟩
  · show (report 6).ending.code ≠ 4
    rw [hlong]
    decide
  · show (report 2).ending.code = 4
    rw [hshort]
    rfl
  · rcases hthreshold with hall | hunique
    · have hsix : (report 6).ending.code = 4 := hall 6
      rw [hlong] at hsix
      cases hsix
    · exact hunique

end StackCalc
