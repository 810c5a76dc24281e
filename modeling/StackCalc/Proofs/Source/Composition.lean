/-
  StackCalc.Proofs.Source.Composition
  ───────────────────────────────────
  **ONE TEXT BELOW ANOTHER.**

  A text that stands below another describes the same routines and instructions as it does
  alone, and their ids go on where those of the text above end:

      assemble (t ++ u) = ok (p.append q)

  The texts know of each other only by the names of their routines.  If the lower one opens
  a routine that the upper one has, its first such header is the error.

  What carries the proof is that reading commutes with an outline above: line by line, a
  reading that starts at `u` and one that starts at `o ++ u` make the same steps, up to the
  first header that `o` has already.
-/
import StackCalc.Proofs.Source.FirstError

namespace StackCalc

open Source

/-! ## §1. One program below another. -/

/-- A routine whose id counts on from `n`. -/
def Routine.shift (n : Nat) (r : Routine) : Routine :=
  { r with id := r.id + n }

/-- An instruction whose id counts on from `k`, and the id of its routine from `n`.  Its
position is counted in the routine and stays. -/
def Instruction.shift (k n : Nat) (i : Instruction) : Instruction :=
  { i with id := i.id + k, owner := i.owner + n }

/-- The rows of a program and below them those of another, with ids that count on. -/
def Program.append (p q : Program) : Program where
  routines := p.routines ++ q.routines.map (Routine.shift p.routines.length)
  instructions := p.instructions
    ++ q.instructions.map (Instruction.shift p.instructions.length p.routines.length)

namespace Outline

/-- The places of the lower outline move by the number of routines above it. -/
theorem places_append_eq_map (o u : Outline) :
    places (o ++ u) = o.places ++ u.places.map fun x => (x.1 + o.length, x.2) := by
  have hshift : u.zipIdx (1 + o.length) = (u.zipIdx 1).map (Prod.map id (· + o.length)) := by
    rw [List.map_snd_add_zipIdx_eq_zipIdx, Nat.add_comm]
  rw [places_append, hshift, List.flatMap_map]
  unfold places
  rw [List.map_flatMap]
  simp only [List.map_map]
  rfl

/-- **The numbering of an outline below another counts on.** -/
theorem numbered_append (o u : Outline) : numbered (o ++ u) = o.numbered.append u.numbered := by
  unfold Program.append
  rw [length_routines_numbered, length_instructions_numbered]
  unfold numbered
  rw [places_append_eq_map]
  simp only [List.zipIdx_append, List.map_append, List.zipIdx_map, List.map_map]
  -- what is left are the rows of the lower outline, numbered from where the upper one ends
  rw [Nat.add_comm 1 o.length, Nat.add_comm 1 o.places.length,
    ← List.map_snd_add_zipIdx_eq_zipIdx, ← List.map_snd_add_zipIdx_eq_zipIdx]
  simp only [List.map_map]
  rfl

end Outline

/-! ## §2. Reading below an outline. -/

namespace Source

/-- The line is the header of the routine `name`. -/
def Opens (line name : String) : Prop :=
  Statement.ofLine line = .ok (some (.header name))

end Source

namespace Outline

variable {o u u' : Outline} {line : String} {ls : List String}

/-- What can be added can be added below another outline, unless it is a header that stands
there. -/
theorem add_below {st : Option Statement} (h : u.add st = .ok u')
    (hfresh : ∀ name, st = some (.header name) → name ∉ o.names) :
    add (o ++ u) st = .ok (o ++ u') := by
  rcases add_eq_ok h with ⟨rfl, rfl⟩ | ⟨name, rfl, hname, rfl⟩ | ⟨op, l, name, ops, rfl, rfl, rfl⟩
  · rfl
  · have hnew : name ∉ names (o ++ u) := by
      rw [names_append, List.mem_append]
      intro hmem
      rcases hmem with hmem | hmem
      · exact hfresh name rfl hmem
      · exact hname hmem
    rw [add_header hnew, List.append_assoc]
  · -- the last routine of the lower outline is the last of both
    rw [← List.append_assoc, add_operation, List.append_assoc]

theorem readLine_below (h : u.readLine line = .ok u')
    (hfresh : ∀ name, Opens line name → name ∉ o.names) :
    readLine (o ++ u) line = .ok (o ++ u') := by
  obtain ⟨st, hst, hadd⟩ := exists_of_readLine h
  rw [readLine, hst]
  apply add_below hadd
  intro name hname
  apply hfresh name
  show Statement.ofLine line = _
  rw [hst, hname]

/-- A header that stands above is the error. -/
theorem readLine_clash {name : String} (hopens : Opens line name) (h : name ∈ o.names) :
    readLine (o ++ u) line = .error (.duplicateRoutine name) := by
  have hmem : name ∈ names (o ++ u) := by
    rw [names_append]
    exact List.mem_append_left _ h
  unfold Opens at hopens
  rw [readLine, hopens]
  show add (o ++ u) (some (.header name)) = _
  rw [add, if_pos hmem]

/-- **Lines are read below an outline as they are alone**, if none of them is a header that
stands there. -/
theorem readLines_below {m n : Nat} (h : u.readLines m ls = .ok u')
    (hfresh : ∀ l ∈ ls, ∀ name, Opens l name → name ∉ o.names) :
    readLines (o ++ u) n ls = .ok (o ++ u') := by
  induction ls generalizing u m n with
  | nil =>
    cases h
    rfl
  | cons l ls ih =>
    obtain ⟨u₁, hline, hlater⟩ := exists_of_readLines_cons h
    have hbelow : readLine (o ++ u) l = .ok (o ++ u₁) :=
      readLine_below hline (hfresh l List.mem_cons_self)
    rw [readLines_cons hbelow]
    exact ih hlater fun l' hl' => hfresh l' (List.mem_cons_of_mem l hl')

/-- A line that is read adds the name that it opens, and no other. -/
theorem mem_names_readLine (h : u.readLine line = .ok u') (name : String) :
    name ∈ u'.names ↔ name ∈ u.names ∨ Opens line name := by
  obtain ⟨st, hst, hadd⟩ := exists_of_readLine h
  unfold Opens
  rw [hst]
  rcases add_eq_ok hadd with ⟨rfl, rfl⟩ | ⟨other, rfl, -, rfl⟩ |
    ⟨op, l, other, ops, rfl, rfl, rfl⟩
  · simp
  · simp [names, eq_comm]
  · simp [names]

theorem mem_names_readLines {m : Nat} (h : u.readLines m ls = .ok u') (name : String) :
    name ∈ u'.names ↔ name ∈ u.names ∨ ∃ l ∈ ls, Opens l name := by
  induction ls generalizing u m with
  | nil =>
    cases h
    simp
  | cons l ls ih =>
    obtain ⟨u₁, hline, hlater⟩ := exists_of_readLines_cons h
    rw [ih hlater, mem_names_readLine hline, or_assoc]
    simp

end Outline

/-! ## §3. Texts. -/

namespace Source

/-- Where some line opens one of the names, there is a first such line. -/
theorem exists_first_clash {ls : List String} {names : List String}
    (h : ∃ l ∈ ls, ∃ name ∈ names, Opens l name) :
    ∃ before line after name, ls = before ++ line :: after ∧ Opens line name ∧ name ∈ names
      ∧ ∀ l ∈ before, ∀ other, Opens l other → other ∉ names := by
  induction ls with
  | nil =>
    obtain ⟨l, hl, -⟩ := h
    exact absurd hl List.not_mem_nil
  | cons l ls ih =>
    by_cases hclash : ∃ name ∈ names, Opens l name
    · obtain ⟨name, hname, hopens⟩ := hclash
      exact ⟨[], l, ls, name, rfl, hopens, hname, fun l' hl' => absurd hl' List.not_mem_nil⟩
    · -- this line is none of them, so the first is among the others
      have hlater : ∃ l' ∈ ls, ∃ name ∈ names, Opens l' name := by
        obtain ⟨l', hl', hopens⟩ := h
        rcases List.mem_cons.1 hl' with rfl | hl'
        · exact absurd hopens hclash
        · exact ⟨l', hl', hopens⟩
      obtain ⟨before, line, after, name, rfl, hopens, hname, hbefore⟩ := ih hlater
      refine ⟨l :: before, line, after, name, rfl, hopens, hname, ?_⟩
      refine List.forall_mem_cons.2 ⟨?_, hbefore⟩
      intro other hother hmem
      exact hclash ⟨other, hmem, hother⟩

section Below

variable {t u : String} {o v : Outline}
variable (ht : Text.EndsLine t) (ho : Outline.readLines [] 1 (Text.lines t) = .ok o)

include ht ho

/-- A text below another is read from the outline of the one above. -/
theorem readLines_append_text (u : String) :
    Outline.readLines [] 1 (Text.lines (t ++ u))
      = o.readLines (1 + (Text.lines t).length) (Text.lines u) := by
  rw [Text.lines_append ht, Outline.readLines_append, ho]
  rfl

/-- Where no name stands above, the outlines are put together. -/
theorem readLines_of_fresh (hv : Outline.readLines [] 1 (Text.lines u) = .ok v)
    (hfresh : ∀ l ∈ Text.lines u, ∀ name, Opens l name → name ∉ o.names) :
    Outline.readLines [] 1 (Text.lines (t ++ u)) = .ok (o ++ v) := by
  have hbelow := Outline.readLines_below (n := 1 + (Text.lines t).length) hv hfresh
  rw [List.append_nil] at hbelow
  rw [readLines_append_text ht ho, hbelow]

/-- The first header that stands above is the error, at its line below all lines of the text
above. -/
theorem readLines_of_clash (hv : Outline.readLines [] 1 (Text.lines u) = .ok v)
    {before after : List String} {line name : String}
    (hlines : Text.lines u = before ++ line :: after) (hline : Opens line name)
    (hmem : name ∈ o.names) (hbefore : ∀ l ∈ before, ∀ other, Opens l other → other ∉ o.names) :
    Outline.readLines [] 1 (Text.lines (t ++ u))
      = .error ⟨before.length + 1 + (Text.lines t).length, .duplicateRoutine name⟩ := by
  -- alone, the lines before the header are read; so they are below `o`
  rw [hlines] at hv
  obtain ⟨v₁, hv₁, -⟩ := Outline.exists_of_readLines_append hv
  have hbelow := Outline.readLines_below (n := 1 + (Text.lines t).length) hv₁ hbefore
  rw [List.append_nil] at hbelow
  rw [readLines_append_text ht ho, hlines]
  refine Outline.readLines_eq_error_iff.2 ⟨before, line, after, o ++ v₁, rfl, hbelow, ?_, ?_⟩
  · exact Outline.readLine_clash hline hmem
  · show before.length + 1 + (Text.lines t).length = 1 + (Text.lines t).length + before.length
    omega

end Below

/-- **A text below another describes what it describes alone**, with ids that count on, if no
name occurs in both.  Otherwise the first header of the lower text whose name occurs in the
upper one is the error. -/
theorem texts_compose {t u : String} {p q : Program} (ht : Text.EndsLine t)
    (hp : assemble t = .ok p) (hq : assemble u = .ok q) :
    ((∀ r ∈ q.routines, r.name ∉ p.routines.map (·.name)) →
        assemble (t ++ u) = .ok (p.append q))
      ∧ ((∃ r ∈ q.routines, r.name ∈ p.routines.map (·.name)) →
          ∃ before line after name, Text.lines u = before ++ line :: after
            ∧ Opens line name ∧ name ∈ p.routines.map (·.name)
            ∧ (∀ l ∈ before, ∀ other, Opens l other → other ∉ p.routines.map (·.name))
            ∧ assemble (t ++ u)
                = .error ⟨before.length + 1 + (Text.lines t).length, .duplicateRoutine name⟩) := by
  obtain ⟨o, ho, rfl⟩ := assemble_eq_ok_iff_readLines.1 hp
  obtain ⟨v, hv, rfl⟩ := assemble_eq_ok_iff_readLines.1 hq
  -- the names of the lower program are those that the lines of its text open
  have hopened : ∀ name, (∃ r ∈ v.numbered.routines, r.name = name)
      ↔ ∃ l ∈ Text.lines u, Opens l name := by
    intro name
    rw [← List.mem_map, Outline.names_numbered, Outline.mem_names_readLines hv]
    simp [Outline.names]
  rw [Outline.names_numbered]
  constructor
  · intro hfresh
    have hlines : ∀ l ∈ Text.lines u, ∀ name, Opens l name → name ∉ o.names := by
      intro l hl name hname
      obtain ⟨r, hr, rfl⟩ := (hopened name).2 ⟨l, hl, hname⟩
      exact hfresh r hr
    rw [← Outline.numbered_append]
    exact assemble_eq_ok_iff_readLines.2 ⟨o ++ v, readLines_of_fresh ht ho hv hlines, rfl⟩
  · intro hclash
    obtain ⟨r, hr, hname⟩ := hclash
    obtain ⟨l, hl, hopens⟩ := (hopened r.name).1 ⟨r, hr, rfl⟩
    obtain ⟨before, line, after, name, hlines, hline, hmem, hbefore⟩ :=
      exists_first_clash ⟨l, hl, r.name, hname, hopens⟩
    refine ⟨before, line, after, name, hlines, hline, hmem, hbefore, ?_⟩
    exact assemble_eq_error_iff_readLines.2
      (readLines_of_clash ht ho hv hlines hline hmem hbefore)

/-- A routine that calls the one above it, and a text whose second header repeats the name
above. -/
theorem texts_compose_calledRoutine :
    assemble ("FUNC f\n DUP\n" ++ "\nFUNC g\n CALL f\n ADD")
        = .ok ⟨[⟨1, "f"⟩, ⟨2, "g"⟩], [⟨1, 1, 0, .dup⟩, ⟨2, 2, 0, .call "f"⟩, ⟨3, 2, 1, .add⟩]⟩
      ∧ ∃ before line after name, Text.lines "FUNC g\n\nFUNC f" = before ++ line :: after
          ∧ Opens line name ∧ name ∈ ["f"]
          ∧ (∀ l ∈ before, ∀ other, Opens l other → other ∉ ["f"])
          ∧ assemble ("FUNC f\n DUP\n" ++ "FUNC g\n\nFUNC f")
              = .error ⟨before.length + 1 + 2, .duplicateRoutine name⟩ := by
  have hends : Text.EndsLine "FUNC f\n DUP\n" := .inr ⟨"FUNC f\n DUP", rfl⟩
  have hupper : assemble "FUNC f\n DUP\n" = .ok ⟨[⟨1, "f"⟩], [⟨1, 1, 0, .dup⟩]⟩ := by
    cbv
  have hlower : assemble "\nFUNC g\n CALL f\n ADD"
      = .ok ⟨[⟨1, "g"⟩], [⟨1, 1, 0, .call "f"⟩, ⟨2, 1, 1, .add⟩]⟩ := by
    cbv
  have hclash : assemble "FUNC g\n\nFUNC f" = .ok ⟨[⟨1, "g"⟩, ⟨2, "f"⟩], []⟩ := by
    cbv
  exact ⟨(texts_compose hends hupper hlower).1 (by decide),
    (texts_compose hends hupper hclash).2 (by decide)⟩

end Source

end StackCalc
