/-
  StackCalc.Proofs.Program.Row
  ────────────────────────────
  **EVERY INSTRUCTION HAS ONE CANONICAL ROW.**

  Decoding a row is lax: a missing argument stands for zero or for the empty text, an
  argument that does not belong to the opcode is ignored, and a number may be spelled
  in any way, with blanks around it.  So one instruction is stored by many rows.
  Encoding picks one of them,

      ofRow i.toRow = ok i,

  and the rows that it picks are those whose argument is there exactly where one
  belongs, with numbers in the form in which they are written.  A row that stores no
  instruction has an unknown tag or a `PUSH` whose argument is no number.
-/
import StackCalc.Program.Row
import StackCalc.Proofs.Source.Statement

namespace StackCalc

/-! ## §1. Tags. -/

namespace Opcode

/-- The mnemonics, as they are spelled. -/
def mnemonics : List String :=
  ["PUSH", "ADD", "SUB", "MUL", "DIV", "SIN", "COS", "TAN", "DUP", "INPUT", "LABEL", "GOTO", "CALL"]

theorem map_mnemonic_all : all.map mnemonic = mnemonics := rfl

/-- A tag is that of no opcode if it is not spelled exactly as a mnemonic. -/
theorem ofMnemonic?_eq_none_iff {tag : String} : ofMnemonic? tag = none ↔ tag ∉ mnemonics := by
  rw [← map_mnemonic_all, List.mem_map, ofMnemonic?, List.find?_eq_none]
  simp

end Opcode

/-! ## §2. Arguments. -/

namespace Operation

variable {o : Opcode} {argument : Option String} {op : Operation}

theorem opcode_of_ofParts (h : ofParts o argument = .ok op) : op.opcode = o := by
  cases o with
  | push =>
    obtain ⟨x, -, rfl⟩ := Source.map_eq_ok_iff.1 h
    rfl
  | _ =>
    cases h
    rfl

/-- **An operation is described by its opcode and its argument.** -/
theorem ofParts_argument? (op : Operation) : ofParts op.opcode op.argument? = .ok op := by
  cases op with
  | push x =>
    show (literal (some (writeNumber x))).map push = .ok (push x)
    rw [literal_writeNumber]
    rfl
  | _ => rfl

theorem literal_eq_error_iff {e : DecodeError} :
    literal argument = .error e ↔ ∃ text, argument = some text
      ∧ readNumber? (Text.trim text) = none ∧ e = .invalidNumber text := by
  cases argument with
  | none => simp [literal]
  | some text =>
    cases hread : readNumber? (Text.trim text) with
    | none => simp [literal, hread, eq_comm]
    | some x => simp [literal, hread]

/-- The argument of a `PUSH` is the only one that can be wrong. -/
theorem ofParts_eq_error_iff {e : DecodeError} :
    ofParts o argument = .error e ↔ o = .push ∧ ∃ text, argument = some text
      ∧ readNumber? (Text.trim text) = none ∧ e = .invalidNumber text := by
  cases o with
  | push =>
    rw [← literal_eq_error_iff]
    unfold ofParts
    cases literal argument <;> simp [Except.map]
  | _ => simp [ofParts]

/-- The argument is there exactly where one belongs, and a number is in the form in which it is
written. -/
structure Canonical (op : Operation) (argument : Option String) : Prop where
  plain : op.opcode.takesArgument = false → argument = none
  text : op.opcode ∈ [.input, .label, .goto, .call] → argument.isSome = true
  number : ∀ value, op = .push value → argument = some (writeNumber value)

/-- An argument that describes an operation is the one that is written for it just if it is
canonical. -/
theorem argument?_eq_iff (h : ofParts o argument = .ok op) :
    op.argument? = argument ↔ op.Canonical argument := by
  -- a name or a prompt is kept as it is, so it is enough that there is one
  have htext : some (argument.getD "") = argument ↔ argument.isSome = true := by
    cases argument <;> simp
  cases o with
  | push =>
    obtain ⟨x, -, rfl⟩ := Source.map_eq_ok_iff.1 h
    constructor
    · rintro rfl
      exact ⟨by simp [opcode, Opcode.takesArgument], by simp [opcode], by simp [argument?]⟩
    · intro hcanonical
      exact (hcanonical.number x rfl).symm
  | input | label | goto | call =>
    cases h
    refine htext.trans ⟨fun hsome => ⟨?_, fun _ => hsome, by simp⟩, fun hcanonical => ?_⟩
    · simp [opcode, Opcode.takesArgument]
    · exact hcanonical.text (by simp [opcode])
  | add | sub | mul | div | sin | cos | tan | dup =>
    cases h
    constructor
    · rintro rfl
      exact ⟨fun _ => rfl, by simp [opcode], by simp⟩
    · intro hcanonical
      exact (hcanonical.plain rfl).symm

end Operation

/-! ## §3. Rows. -/

namespace Instruction

variable {r : Row} {i : Instruction}

theorem ofRow_eq_ok_iff : ofRow r = .ok i ↔ ∃ o op, o.mnemonic = r.tag
    ∧ Operation.ofParts o r.argument = .ok op ∧ i = ⟨r.id, r.owner, r.position, op⟩ := by
  unfold ofRow
  cases htag : Opcode.ofMnemonic? r.tag with
  | none =>
    have hnone : ∀ o : Opcode, o.mnemonic ≠ r.tag := by
      intro o ho
      rw [Opcode.ofMnemonic?_eq_some_iff.2 ho] at htag
      cases htag
    simp [hnone]
  | some o =>
    have ho : o.mnemonic = r.tag := Opcode.ofMnemonic?_eq_some_iff.1 htag
    constructor
    · intro h
      obtain ⟨op, hop, rfl⟩ := Source.map_eq_ok_iff.1 h
      exact ⟨o, op, ho, hop, rfl⟩
    · rintro ⟨o', op, ho', hop, rfl⟩
      obtain rfl := Opcode.mnemonic_injective (ho'.trans ho.symm)
      exact Source.map_eq_ok_iff.2 ⟨op, hop, rfl⟩

/-- **The row of an instruction stores it.** -/
theorem ofRow_toRow (i : Instruction) : ofRow i.toRow = .ok i :=
  ofRow_eq_ok_iff.2 ⟨_, _, rfl, i.operation.ofParts_argument?, rfl⟩

/-- The rows that store nothing. -/
theorem ofRow_eq_error_iff {e : DecodeError} :
    ofRow r = .error e ↔ r.tag ∉ Opcode.mnemonics ∧ e = .unknownOpcode r.tag
      ∨ r.tag = "PUSH" ∧ ∃ text, r.argument = some text
          ∧ readNumber? (Text.trim text) = none ∧ e = .invalidNumber text := by
  unfold ofRow
  cases htag : Opcode.ofMnemonic? r.tag with
  | none =>
    have hunknown := Opcode.ofMnemonic?_eq_none_iff.1 htag
    have hpush : r.tag ≠ "PUSH" := by
      intro h
      exact hunknown (h ▸ List.mem_cons_self)
    simp [hunknown, hpush, eq_comm]
  | some o =>
    have hknown : r.tag ∈ Opcode.mnemonics := by
      by_contra h
      rw [Opcode.ofMnemonic?_eq_none_iff.2 h] at htag
      cases htag
    have hpush : r.tag = "PUSH" ↔ o = .push := by
      rw [← Opcode.ofMnemonic?_eq_some_iff.1 htag]
      exact ⟨fun h => Opcode.mnemonic_injective h, fun h => h ▸ rfl⟩
    have hmap : ∀ x : Except DecodeError Operation, ∀ f : Operation → Instruction,
        x.map f = .error e ↔ x = .error e := by
      intro x f
      cases x <;> simp [Except.map]
    rw [hmap, Operation.ofParts_eq_error_iff, hpush]
    simp [hknown]

theorem toRow_injective {i j : Instruction} (h : i.toRow = j.toRow) : i = j := by
  have hdecoded := ofRow_toRow i
  rw [h, ofRow_toRow] at hdecoded
  exact (Except.ok.inj hdecoded).symm

/-- A row is that of the instruction that it stores, just if its argument is canonical. -/
theorem toRow_eq_iff (h : ofRow r = .ok i) : i.toRow = r ↔ i.operation.Canonical r.argument := by
  obtain ⟨o, op, htag, hop, rfl⟩ := ofRow_eq_ok_iff.1 h
  rw [← Operation.argument?_eq_iff hop]
  have hopcode := Operation.opcode_of_ofParts hop
  constructor
  · intro hrow
    exact congrArg Row.argument hrow
  · intro hargument
    unfold toRow
    simp only [hopcode, htag, hargument]

end Instruction

/-- The canonical row of the instruction that a row stores. -/
def Row.canonical (r : Row) : Except DecodeError Row :=
  (Instruction.ofRow r).map Instruction.toRow

theorem Row.canonical_of_ofRow {r : Row} {i : Instruction} (h : Instruction.ofRow r = .ok i) :
    r.canonical = .ok i.toRow := by
  unfold canonical
  rw [h]
  rfl

/-- **Rows and their canonical form.**  Every instruction is stored by its row.  A row stores
nothing if its tag is no mnemonic, whatever its argument, or if it is a `PUSH` with an argument
that is no number, and for no other reason.  The canonical row of a row that stores an
instruction stores the same, is its own canonical row, is shared by exactly the rows that store
this instruction, and is the row itself just if its argument is canonical. -/
theorem rows_have_canonical_form :
    (∀ i : Instruction, Instruction.ofRow i.toRow = .ok i)
      ∧ (∀ (r : Row) (e : DecodeError), Instruction.ofRow r = .error e ↔
          r.tag ∉ Opcode.mnemonics ∧ e = .unknownOpcode r.tag
            ∨ r.tag = "PUSH" ∧ ∃ text, r.argument = some text
                ∧ readNumber? (Text.trim text) = none ∧ e = .invalidNumber text)
      ∧ ∀ (r : Row) (i : Instruction), Instruction.ofRow r = .ok i →
          r.canonical = .ok i.toRow
            ∧ Instruction.ofRow i.toRow = .ok i
            ∧ i.toRow.canonical = .ok i.toRow
            ∧ (∀ r' : Row, r'.canonical = r.canonical ↔ Instruction.ofRow r' = .ok i)
            ∧ (i.toRow = r ↔ i.operation.Canonical r.argument) := by
  refine ⟨Instruction.ofRow_toRow, fun r e => Instruction.ofRow_eq_error_iff, ?_⟩
  intro r i h
  have hi := Instruction.ofRow_toRow i
  refine ⟨Row.canonical_of_ofRow h, hi, Row.canonical_of_ofRow hi, ?_, Instruction.toRow_eq_iff h⟩
  intro r'
  rw [Row.canonical_of_ofRow h]
  constructor
  · intro hsame
    obtain ⟨j, hj, hrow⟩ := Source.map_eq_ok_iff.1 hsame
    rw [hj, Instruction.toRow_injective hrow]
  · exact Row.canonical_of_ofRow

/-- A row with blanks around its number. -/
def looseRow : Row := ⟨7, 1, 0, "PUSH", some " +2.50 "⟩

theorem rows_have_canonical_form_looseRow :
    let i : Instruction := ⟨7, 1, 0, .push 2.5⟩
    Instruction.ofRow looseRow = .ok i
      ∧ i.toRow = ⟨7, 1, 0, "PUSH", some "2.5"⟩
      ∧ looseRow.canonical = .ok i.toRow
      ∧ i.toRow.canonical = .ok i.toRow
      ∧ i.toRow ≠ looseRow := by
  intro i
  have hread : readNumber? (Text.trim " +2.50 ") = some 2.5 := by decide +kernel
  have hwritten : writeNumber 2.5 = "2.5" := by decide +kernel
  have hrow : Instruction.ofRow looseRow = .ok i := by
    refine Instruction.ofRow_eq_ok_iff.2 ⟨.push, .push 2.5, rfl, ?_, rfl⟩
    show (Operation.literal (some " +2.50 ")).map Operation.push = .ok (Operation.push 2.5)
    rw [Operation.literal, hread]
    rfl
  obtain ⟨hcanonical, -, hself, -, hiff⟩ := rows_have_canonical_form.2.2 looseRow i hrow
  refine ⟨hrow, ?_, hcanonical, hself, ?_⟩
  · show (⟨7, 1, 0, "PUSH", some (writeNumber 2.5)⟩ : Row) = _
    rw [hwritten]
  · intro hsame
    have hargument := (hiff.1 hsame).number 2.5 rfl
    rw [hwritten] at hargument
    exact absurd hargument (by decide)

end StackCalc
