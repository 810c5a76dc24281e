/-
  StackCalc.Proofs.Source.Assembly
  ────────────────────────────────
  **ASSEMBLING IS READING AN OUTLINE AND NUMBERING IT.**

  The draft that grows with the lines of a text holds ids, positions and a
  counter.  None of them matters for what the lines say: line by line, the draft
  holds the numbering of an outline that grows with the same lines
  (`Outline.readLines`), and both stop at the same error.

      assemble text = (readLines [] 1 (lines text)).map numbered

  So everything about assembling splits into a fact about outlines, which have no
  numbers, and a fact about the numbering.
-/
import Mathlib.Data.List.ModifyLast
import StackCalc.Proofs.Program.Outline
import StackCalc.Source.Assembly

namespace StackCalc

open Source

/-! ## §1. Outlines that grow line by line. -/

namespace Outline

/-- Adds what a line says. -/
def add (o : Outline) : Option Statement → Except Cause Outline
  | none => .ok o
  | some (.header name) =>
    if name ∈ o.names then .error (.duplicateRoutine name) else .ok (o ++ [(name, [])])
  | some (.operation op) =>
    if o = [] then .error .outsideRoutine
    else .ok (o.modifyLast fun b => (b.1, b.2 ++ [op]))

/-- Reads one line. -/
def readLine (o : Outline) (line : String) : Except Cause Outline :=
  match Statement.ofLine line with
  | .error cause => .error cause
  | .ok statement => o.add statement

/-- Reads lines, the first of which has the number `n`. -/
def readLines (o : Outline) (n : Nat) : List String → Except Error Outline
  | [] => .ok o
  | line :: rest =>
    match o.readLine line with
    | .error cause => .error ⟨n, cause⟩
    | .ok o => readLines o (n + 1) rest

theorem add_header {o : Outline} {name : String} (h : name ∉ o.names) :
    o.add (some (.header name)) = .ok (o ++ [(name, [])]) := by
  rw [add, if_neg h]

theorem add_operation (o : Outline) (name : String) (ops : List Operation) (op : Operation) :
    add (o ++ [(name, ops)]) (some (.operation op)) = .ok (o ++ [(name, ops ++ [op])]) := by
  rw [add, if_neg (List.append_ne_nil_of_right_ne_nil _ (List.cons_ne_nil _ _)),
    List.modifyLast_concat]

/-- What a line can do to an outline that it does not spoil. -/
theorem add_eq_ok {o o' : Outline} {st : Option Statement} (h : o.add st = .ok o') :
    (st = none ∧ o' = o)
      ∨ (∃ name, st = some (.header name) ∧ name ∉ o.names ∧ o' = o ++ [(name, [])])
      ∨ ∃ op l name ops, st = some (.operation op) ∧ o = l ++ [(name, ops)]
          ∧ o' = l ++ [(name, ops ++ [op])] := by
  match st with
  | none =>
    cases h
    exact .inl ⟨rfl, rfl⟩
  | some (.header name) =>
    rw [add] at h
    split at h
    · exact absurd h (by simp)
    · next hname =>
      cases h
      exact .inr (.inl ⟨name, rfl, hname, rfl⟩)
  | some (.operation op) =>
    rcases List.eq_nil_or_concat o with rfl | ⟨l, ⟨name, ops⟩, rfl⟩
    · exact absurd h (by simp [add])
    · rw [List.concat_eq_append, add_operation] at h
      cases h
      exact .inr (.inr ⟨op, l, name, ops, rfl, List.concat_eq_append, rfl⟩)

/-- Reading lines one after another. -/
theorem readLines_append (o : Outline) (n : Nat) (ls ms : List String) :
    o.readLines n (ls ++ ms)
      = (o.readLines n ls).bind fun o' => o'.readLines (n + ls.length) ms := by
  induction ls generalizing o n with
  | nil => rfl
  | cons l ls ih =>
    rw [List.cons_append, readLines, readLines]
    cases o.readLine l with
    | error cause => rfl
    | ok o' =>
      show readLines o' (n + 1) (ls ++ ms) = _
      rw [ih, List.length_cons, Nat.add_assoc, Nat.add_comm 1]

/-- A line that is read says something that can be added. -/
theorem exists_of_readLine {o o' : Outline} {line : String} (h : o.readLine line = .ok o') :
    ∃ st, Statement.ofLine line = .ok st ∧ o.add st = .ok o' := by
  unfold readLine at h
  split at h
  · cases h
  · next st hst => exact ⟨st, hst, h⟩

theorem readLines_cons {o o₁ : Outline} {l : String} (h : o.readLine l = .ok o₁) (n : Nat)
    (ls : List String) : o.readLines n (l :: ls) = o₁.readLines (n + 1) ls := by
  rw [readLines, h]

/-- Lines are read if the first of them are and then the others. -/
theorem exists_of_readLines_append {o o₂ : Outline} {n : Nat} {ls ms : List String}
    (h : o.readLines n (ls ++ ms) = .ok o₂) :
    ∃ o₁, o.readLines n ls = .ok o₁ ∧ o₁.readLines (n + ls.length) ms = .ok o₂ := by
  rw [readLines_append] at h
  cases hls : o.readLines n ls with
  | error e =>
    rw [hls] at h
    cases h
  | ok o₁ =>
    rw [hls] at h
    exact ⟨o₁, rfl, h⟩

theorem exists_of_readLines_cons {o o₂ : Outline} {n : Nat} {l : String} {ls : List String}
    (h : o.readLines n (l :: ls) = .ok o₂) :
    ∃ o₁, o.readLine l = .ok o₁ ∧ o₁.readLines (n + 1) ls = .ok o₂ := by
  cases hl : o.readLine l with
  | error cause =>
    rw [readLines, hl] at h
    cases h
  | ok o₁ =>
    rw [readLines_cons hl] at h
    exact ⟨o₁, rfl, h⟩

theorem names_numbered (o : Outline) : o.numbered.routines.map (·.name) = o.names := by
  rw [← Program.names_outline, outline_numbered]

end Outline

/-! ## §2. A draft holds the numbering of an outline. -/

namespace Source

/-- The draft is the numbering of the outline, and counts the operations of its
last routine. -/
structure Draft.Holds (d : Draft) (o : Outline) : Prop where
  program : d.program = o.numbered
  next : ∀ l name ops, o = l ++ [(name, ops)] → d.next = ops.length

/-- Two readings that both fail alike or both succeed, the draft holding the
outline. -/
def Agree {ε : Type} : Except ε Draft → Except ε Outline → Prop
  | .ok d, .ok o => d.Holds o
  | .error e, .error e' => e = e'
  | _, _ => False

namespace Draft

variable {d : Draft} {o : Outline}

theorem Holds.routines (h : d.Holds o) : d.routines.toList = o.numbered.routines :=
  congrArg Program.routines h.program

theorem Holds.instructions (h : d.Holds o) : d.instructions.toList = o.numbered.instructions :=
  congrArg Program.instructions h.program

theorem Holds.size (h : d.Holds o) : d.routines.size = o.length := by
  rw [← Array.length_toList, h.routines, Outline.length_routines_numbered]

theorem holds_empty : ({} : Draft).Holds [] where
  program := rfl
  next := by
    intro l name ops h
    exact absurd h (by simp)

theorem Holds.any_name (h : d.Holds o) (name : String) :
    (d.routines.any fun r => r.name = name) = true ↔ name ∈ o.names := by
  rw [← Array.any_toList, h.routines, List.any_eq_true, ← Outline.names_numbered, List.mem_map]
  simp only [decide_eq_true_eq]

theorem Holds.openRoutine (h : d.Holds o) (name : String) :
    Agree (d.openRoutine name) (o.add (some (.header name))) := by
  unfold Draft.openRoutine
  -- the draft looks for the name in its rows, which carry the names of the outline
  by_cases hname : name ∈ o.names
  · rw [Outline.add, if_pos hname, if_pos ((h.any_name name).2 hname)]
    rfl
  · rw [Outline.add_header hname, if_neg fun e => hname ((h.any_name name).1 e)]
    refine ⟨?_, ?_⟩
    · unfold Draft.program
      rw [Outline.numbered_open, Array.toList_push, h.routines, h.instructions, h.size]
    · -- the new routine has no operations, and the counter is back at zero
      intro l name' ops heq
      obtain ⟨-, hlast⟩ := List.append_inj' heq rfl
      cases hlast
      rfl

theorem Holds.addOperation (h : d.Holds o) (op : Operation) :
    Agree (d.addOperation op) (o.add (some (.operation op))) := by
  unfold Draft.addOperation
  rcases List.eq_nil_or_concat o with rfl | ⟨l, ⟨name, ops⟩, rfl⟩
  · -- there is no routine to add to, on either side
    have hempty : d.routines.isEmpty = true := by
      rw [Array.isEmpty_iff_size_eq_zero, h.size]
      rfl
    rw [if_pos hempty]
    rfl
  · rw [List.concat_eq_append] at h ⊢
    have hsize : d.routines.size = l.length + 1 := by
      rw [h.size, List.length_append, List.length_singleton]
    have hfull : ¬ d.routines.isEmpty = true := by
      rw [Array.isEmpty_iff_size_eq_zero]
      omega
    have hcount : d.instructions.size = (Outline.numbered (l ++ [(name, ops)])).instructions.length := by
      rw [← Array.length_toList, h.instructions]
    rw [if_neg hfull, Outline.add_operation]
    refine ⟨?_, ?_⟩
    · -- the new row has the next id, the number of the last routine and the counter
      unfold Draft.program
      rw [Outline.numbered_add, Array.toList_push, h.routines, h.instructions, hcount, hsize,
        h.next l name ops rfl]
      rfl
    · intro l' name' ops' heq
      obtain ⟨-, hlast⟩ := List.append_inj' heq rfl
      cases hlast
      rw [List.length_append, List.length_singleton, h.next l name ops rfl]

/-! ## §3. Reading lines. -/

/-- One line keeps a draft and its outline together. -/
theorem Holds.readLine (h : d.Holds o) (line : String) :
    Agree (d.readLine line) (o.readLine line) := by
  unfold Draft.readLine Outline.readLine
  cases Statement.ofLine line with
  | error cause => rfl
  | ok st =>
    match st with
    | none => exact h
    | some (.header name) => exact h.openRoutine name
    | some (.operation op) => exact h.addOperation op

/-- Any number of lines does. -/
theorem Holds.readLines (h : d.Holds o) (n : Nat) (ls : List String) :
    Agree (d.readLines n ls) (o.readLines n ls) := by
  induction ls generalizing d o n with
  | nil => exact h
  | cons l ls ih =>
    have hline := h.readLine l
    unfold Draft.readLines Outline.readLines
    -- `Agree` leaves two of the four cases: both fail, or both go on
    cases hd : d.readLine l <;> cases ho : o.readLine l <;> rw [hd, ho] at hline
    · exact congrArg (Error.mk n) hline
    · exact hline.elim
    · exact hline.elim
    · exact ih hline (n + 1)

end Draft

/-- **Assembling is reading an outline and numbering it.** -/
theorem assemble_eq (text : String) :
    assemble text = (Outline.readLines [] 1 (Text.lines text)).map Outline.numbered := by
  have h := Draft.holds_empty.readLines 1 (Text.lines text)
  unfold assemble
  cases hd : ({} : Draft).readLines 1 (Text.lines text) <;>
    cases ho : Outline.readLines [] 1 (Text.lines text) <;> rw [hd, ho] at h
  · exact congrArg Except.error h
  · exact h.elim
  · exact h.elim
  · exact congrArg Except.ok h.program

end Source

end StackCalc
