/-
  StackCalc.Proofs.Source.FirstError
  ──────────────────────────────────
  **THE FIRST LINE THAT CANNOT BE READ DECIDES.**

  Reading stops at one line.  The lines before it are read, this one cannot be added to
  what they say, and those after it are not looked at:

      readLines o n ls = error e
        ↔   ls = before ++ line :: after, and `e` is what is wrong with `line` after `before`

  So a text whose first lines are those of another has its error, if the error is there,
  and if there is none the first lines describe the first rows of the program.
-/
import StackCalc.Proofs.Source.RoundTrip

namespace StackCalc

open Source

/-! ## §1. The line that stops the reading. -/

namespace Outline

/-- **Reading fails at the first line that cannot be read**, and only there. -/
theorem readLines_eq_error_iff {o : Outline} {n : Nat} {ls : List String} {e : Error} :
    o.readLines n ls = .error e
      ↔ ∃ before line after o', ls = before ++ line :: after ∧ o.readLines n before = .ok o'
          ∧ o'.readLine line = .error e.cause ∧ e.line = n + before.length := by
  constructor
  · intro h
    induction ls generalizing o n with
    | nil => cases h
    | cons l ls ih =>
      cases hl : o.readLine l with
      | error cause =>
        rw [readLines, hl] at h
        cases h
        exact ⟨[], l, ls, o, rfl, rfl, hl, rfl⟩
      | ok o₁ =>
        rw [readLines_cons hl] at h
        obtain ⟨before, line, after, o', rfl, hbefore, hline, hnumber⟩ := ih h
        refine ⟨l :: before, line, after, o', rfl, ?_, hline, ?_⟩
        · rw [readLines_cons hl]
          exact hbefore
        · rw [hnumber, List.length_cons]
          omega
  · intro h
    obtain ⟨before, line, after, o', rfl, hbefore, hline, hnumber⟩ := h
    rw [readLines_append, hbefore]
    show o'.readLines (n + before.length) (line :: after) = _
    rw [readLines, hline, ← hnumber]

end Outline

/-! ## §2. Rows that are there stay first. -/

/-- The rows of a program are the first rows of another. -/
def Program.Begins (p q : Program) : Prop :=
  p.routines <+: q.routines ∧ p.instructions <+: q.instructions

theorem Program.begins_refl (p : Program) : p.Begins p :=
  ⟨List.prefix_rfl, List.prefix_rfl⟩

theorem Program.Begins.trans {p q r : Program} (h : p.Begins q) (h' : q.Begins r) : p.Begins r :=
  ⟨h.1.trans h'.1, h.2.trans h'.2⟩

namespace Outline

/-- A header adds a row at the end, and so does an operation. -/
theorem begins_add {o o' : Outline} {st : Option Statement} (h : o.add st = .ok o') :
    o.numbered.Begins o'.numbered := by
  rcases add_eq_ok h with ⟨-, rfl⟩ | ⟨name, -, -, rfl⟩ | ⟨op, l, name, ops, -, rfl, rfl⟩
  · exact Program.begins_refl _
  · rw [numbered_open]
    exact ⟨List.prefix_append _ _, List.prefix_rfl⟩
  · rw [numbered_add]
    exact ⟨List.prefix_rfl, List.prefix_append _ _⟩

/-- So do any number of lines. -/
theorem begins_readLines {o o' : Outline} {n : Nat} {ls : List String}
    (h : o.readLines n ls = .ok o') : o.numbered.Begins o'.numbered := by
  induction ls generalizing o n with
  | nil =>
    cases h
    exact Program.begins_refl _
  | cons l ls ih =>
    obtain ⟨o₁, hline, hlater⟩ := exists_of_readLines_cons h
    obtain ⟨st, -, hadd⟩ := exists_of_readLine hline
    exact (begins_add hadd).trans (ih hlater)

end Outline

/-! ## §3. Texts. -/

namespace Source

theorem assemble_eq_error_iff_readLines {text : String} {e : Error} :
    assemble text = .error e ↔ Outline.readLines [] 1 (Text.lines text) = .error e := by
  rw [assemble_eq]
  cases Outline.readLines [] 1 (Text.lines text) <;> simp [Except.map]

theorem assemble_eq_ok_iff_readLines {text : String} {p : Program} :
    assemble text = .ok p
      ↔ ∃ o, Outline.readLines [] 1 (Text.lines text) = .ok o ∧ o.numbered = p := by
  rw [assemble_eq, map_eq_ok_iff]

/-- The error of a text is the cause that its line has after the lines above it, which
assemble. -/
theorem exists_line_of_assemble_eq_error {text : String} {e : Error}
    (h : assemble text = .error e) :
    ∃ before line after, Text.lines text = before ++ line :: after
      ∧ e.line = before.length + 1
      ∧ (∀ u, Text.lines u = before → ∃ p, assemble u = .ok p)
      ∧ ∀ u later, Text.lines u = before ++ line :: later → assemble u = .error e := by
  obtain ⟨before, line, after, o, hlines, hbefore, hline, hnumber⟩ :=
    Outline.readLines_eq_error_iff.1 (assemble_eq_error_iff_readLines.1 h)
  refine ⟨before, line, after, hlines, by omega, ?_, ?_⟩
  · intro u hu
    rw [← hu] at hbefore
    exact ⟨o.numbered, assemble_eq_ok_iff_readLines.2 ⟨o, hbefore, rfl⟩⟩
  · intro u later hu
    exact assemble_eq_error_iff_readLines.2
      (Outline.readLines_eq_error_iff.2 ⟨before, line, later, o, hu, hbefore, hline, hnumber⟩)

/-- The first lines of a text that assembles describe the first rows of its program. -/
theorem exists_begins_of_assemble {text u : String} {p : Program} {j : Nat}
    (h : assemble text = .ok p) (hu : Text.lines u = (Text.lines text).take j) :
    ∃ q, assemble u = .ok q ∧ q.Begins p := by
  obtain ⟨o, ho, rfl⟩ := assemble_eq_ok_iff_readLines.1 h
  rw [← List.take_append_drop j (Text.lines text)] at ho
  obtain ⟨o₁, hfirst, hlater⟩ := Outline.exists_of_readLines_append ho
  rw [← hu] at hfirst
  exact ⟨o₁.numbered, assemble_eq_ok_iff_readLines.2 ⟨o₁, hfirst, rfl⟩,
    Outline.begins_readLines hlater⟩

/-- **The first error decides, and only the lines up to it matter.**  The lines before it
assemble, and every text with the same lines up to it has the same error.  If there is no
error, any number of first lines assemble, to the first rows of the program. -/
theorem first_error_decides (text : String) :
    (∀ j, Text.lines (Text.firstLines j text) = (Text.lines text).take j)
      ∧ (∀ e, assemble text = .error e →
          1 ≤ e.line ∧ e.line ≤ (Text.lines text).length
            ∧ (∀ u, Text.lines u = (Text.lines text).take (e.line - 1) → ∃ p, assemble u = .ok p)
            ∧ ∀ u, (Text.lines u).take e.line = (Text.lines text).take e.line →
                assemble u = .error e)
      ∧ ∀ p, assemble text = .ok p → ∀ j u, Text.lines u = (Text.lines text).take j →
          ∃ q, assemble u = .ok q ∧ q.routines <+: p.routines
            ∧ q.instructions <+: p.instructions := by
  refine ⟨fun j => Text.lines_firstLines j text, ?_, ?_⟩
  · intro e he
    obtain ⟨before, line, after, hlines, hnumber, habove, hsame⟩ :=
      exists_line_of_assemble_eq_error he
    -- the lines up to the error are those before it and its own
    have htake : (Text.lines text).take e.line = before ++ [line] := by
      rw [hlines, hnumber, List.append_cons]
      exact List.take_left' (by simp)
    have hlength : (Text.lines text).length = before.length + 1 + after.length := by
      rw [hlines, List.append_cons, List.length_append, List.length_append,
        List.length_singleton]
    refine ⟨by omega, by omega, ?_, ?_⟩
    · intro u hu
      apply habove
      rw [hu, hlines, hnumber]
      exact List.take_left' (by omega)
    · intro u hu
      apply hsame u ((Text.lines u).drop e.line)
      rw [List.append_cons, ← htake, ← hu, List.take_append_drop]
  · intro p hp j u hu
    exact exists_begins_of_assemble hp hu

/-- The second line has a word too many; the same first lines with another end fail alike, and
the first line alone assembles. -/
theorem first_error_decides_strayWord :
    assemble "FUNC main\nADD 1\n\"" = .error ⟨2, .unexpectedToken "1"⟩
      ∧ assemble "FUNC main\nADD 1\nFUNC main" = .error ⟨2, .unexpectedToken "1"⟩
      ∧ ∃ p, assemble "FUNC main\n" = .ok p := by
  have herror : assemble "FUNC main\nADD 1\n\"" = .error ⟨2, .unexpectedToken "1"⟩ := by
    cbv
  obtain ⟨-, hfails, -⟩ := first_error_decides "FUNC main\nADD 1\n\""
  obtain ⟨-, -, habove, hsame⟩ := hfails _ herror
  exact ⟨herror, hsame _ (by decide), habove _ (by decide)⟩

end Source

end StackCalc
