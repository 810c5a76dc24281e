/-
  StackCalc.Proofs.Source.Grammar
  ───────────────────────────────
  **THE GRAMMAR OF A SOURCE TEXT, AND WHAT A TEXT DENOTES.**

  The lines of a text that have tokens are phrases, each of which makes a statement
  (`Phrase`, `Says`).  The first statement is a header, and no two headers have one name
  (`WellOrdered`).  Such statements denote a program (`denote`): the headers are numbered
  in their order, and so are the operations; an operation belongs to the nearest header
  above it, and its position is the number of operations between the two.

      assemble text = ok p   ↔   the text says statements in good order that denote `p`
-/
import Mathlib.Data.List.DropRight
import StackCalc.Proofs.Source.Assembly
import StackCalc.Proofs.Source.Lexical
import StackCalc.Proofs.Text.Words

namespace StackCalc.Source

/-! ## §1. Phrases. -/

/-- The words that make an operation alone, in capital letters. -/
def plainWords : List (String × Operation) :=
  [("ADD", .add), ("SUB", .sub), ("MUL", .mul), ("DIV", .div), ("SIN", .sin), ("COS", .cos),
    ("TAN", .tan), ("DUP", .dup)]

/-- The words that make an operation with the name after them. -/
def namedWords : List (String × (String → Operation)) :=
  [("LABEL", .label), ("GOTO", .goto), ("CALL", .call)]

/-- The tokens of a line and the statement that they make.  The first is a word in any
case. -/
inductive Phrase : List Token → Statement → Prop
  | header {w : String} (name : String) (hw : Text.capitals w = "FUNC") :
      Phrase [.word w, .word name] (.header name)
  | plain {w : String} {op : Operation} (hw : (Text.capitals w, op) ∈ plainWords) :
      Phrase [.word w] (.operation op)
  | push {w s : String} {x : Float} (hw : Text.capitals w = "PUSH")
      (hs : readNumber? s = some x) : Phrase [.word w, .word s] (.operation (.push x))
  | named {w : String} {op : String → Operation} (name : String)
      (hw : (Text.capitals w, op) ∈ namedWords) :
      Phrase [.word w, .word name] (.operation (op name))
  /-- The prompt is a word or a quoted text. -/
  | input {w : String} (t : Token) (hw : Text.capitals w = "INPUT") :
      Phrase [.word w, t] (.operation (.input t.text))

/-- A word that makes an operation alone is the mnemonic of an opcode. -/
theorem exists_opcode_of_mem_plainWords {word : String} {op : Operation}
    (h : (word, op) ∈ plainWords) : ∃ o : Opcode, word = o.mnemonic ∧ operationOf o [] = .ok op := by
  simp only [plainWords, List.mem_cons, Prod.mk.injEq, List.not_mem_nil, or_false] at h
  rcases h with ⟨rfl, rfl⟩ | ⟨rfl, rfl⟩ | ⟨rfl, rfl⟩ | ⟨rfl, rfl⟩ | ⟨rfl, rfl⟩ | ⟨rfl, rfl⟩ |
    ⟨rfl, rfl⟩ | ⟨rfl, rfl⟩
  · exact ⟨.add, rfl, rfl⟩
  · exact ⟨.sub, rfl, rfl⟩
  · exact ⟨.mul, rfl, rfl⟩
  · exact ⟨.div, rfl, rfl⟩
  · exact ⟨.sin, rfl, rfl⟩
  · exact ⟨.cos, rfl, rfl⟩
  · exact ⟨.tan, rfl, rfl⟩
  · exact ⟨.dup, rfl, rfl⟩

/-- So is one that makes an operation with a name. -/
theorem exists_opcode_of_mem_namedWords {word : String} {op : String → Operation}
    (h : (word, op) ∈ namedWords) :
    ∃ o : Opcode, word = o.mnemonic ∧ ∀ name, operationOf o [.word name] = .ok (op name) := by
  simp only [namedWords, List.mem_cons, Prod.mk.injEq, List.not_mem_nil, or_false] at h
  rcases h with ⟨rfl, rfl⟩ | ⟨rfl, rfl⟩ | ⟨rfl, rfl⟩
  · exact ⟨.label, rfl, fun name => rfl⟩
  · exact ⟨.goto, rfl, fun name => rfl⟩
  · exact ⟨.call, rfl, fun name => rfl⟩

/-- A line that begins with a word for an opcode says the operation that follows from its
argument. -/
theorem ofTokens_of_operationOf {w : String} {o : Opcode} {rest : List Token} {op : Operation}
    (hw : Text.capitals w = o.mnemonic) (h : operationOf o rest = .ok op) :
    Statement.ofTokens (.word w :: rest) = .ok (some (.operation op)) := by
  rw [ofTokens_of_capitals hw, h]
  rfl

/-- A phrase says its statement. -/
theorem Phrase.ofTokens_eq {ts : List Token} {st : Statement} (h : Phrase ts st) :
    Statement.ofTokens ts = .ok (some st) := by
  cases h with
  | @header w name hw =>
    have hcapitals : Text.capitals w = headerWord := hw
    rw [Statement.ofTokens, if_pos hcapitals]
    rfl
  | plain hw =>
    obtain ⟨o, ho, hop⟩ := exists_opcode_of_mem_plainWords hw
    exact ofTokens_of_operationOf ho hop
  | @push w s x hw hs =>
    have hliteral : Operation.literal (some s) = .ok x := by
      rw [Operation.literal, (isWord_of_readNumber? hs).trim_eq, hs]
    have hop : operationOf .push [.word s] = .ok (.push x) := by
      refine operationOf_eq_ok_iff.2 ⟨some s, rfl, ?_⟩
      rw [Operation.ofParts, hliteral]
      rfl
    exact ofTokens_of_operationOf (o := .push) hw hop
  | named name hw =>
    obtain ⟨o, ho, hop⟩ := exists_opcode_of_mem_namedWords hw
    exact ofTokens_of_operationOf ho (hop name)
  | input t hw => exact ofTokens_of_operationOf (o := .input) hw rfl

/-- The number after a `PUSH` has no blanks around it, since it is a word. -/
theorem readNumber?_of_literal {s : String} {x : Float} (hs : IsWord s)
    (h : Operation.literal (some s) = .ok x) : readNumber? s = some x := by
  unfold Operation.literal at h
  simp only [hs.trim_eq] at h
  split at h
  · next hread =>
    cases h
    exact hread
  · cases h

/-- What an opcode and its argument describe is what the phrase of this opcode says. -/
theorem phrase_of_operationOf {w : String} {o : Opcode} {rest : List Token} {op : Operation}
    (hrest : ∀ s, .word s ∈ rest → IsWord s) (hw : Text.capitals w = o.mnemonic)
    (h : operationOf o rest = .ok op) : Phrase (.word w :: rest) (.operation op) := by
  obtain ⟨argument, hargument, hop⟩ := operationOf_eq_ok_iff.1 h
  cases o with
  | push =>
    obtain ⟨s, hs, rfl⟩ := map_eq_ok_iff.1 hargument
    rw [Operation.ofParts] at hop
    obtain ⟨x, hx, rfl⟩ := map_eq_ok_iff.1 hop
    rw [oneWord_eq_ok_iff.1 hs] at hrest ⊢
    exact .push hw (readNumber?_of_literal (hrest s List.mem_cons_self) hx)
  | input =>
    obtain ⟨s, hs, rfl⟩ := map_eq_ok_iff.1 hargument
    obtain ⟨t, rfl, rfl⟩ := oneText_eq_ok_iff.1 hs
    cases hop
    exact .input t hw
  | label | goto | call =>
    obtain ⟨s, hs, rfl⟩ := map_eq_ok_iff.1 hargument
    cases hop
    rw [oneWord_eq_ok_iff.1 hs]
    refine .named s ?_
    rw [hw]
    simp [namedWords, Opcode.mnemonic]
  | add | sub | mul | div | sin | cos | tan | dup =>
    obtain ⟨u, hu, -⟩ := map_eq_ok_iff.1 hargument
    cases hop
    rw [noToken_eq_ok_iff.1 hu]
    refine .plain ?_
    rw [hw]
    simp [plainWords, Opcode.mnemonic]

/-- **The lines that say something are the phrases.** -/
theorem ofTokens_eq_some_iff {ts : List Token} {st : Statement}
    (hts : ∀ s, .word s ∈ ts → IsWord s) :
    Statement.ofTokens ts = .ok (some st) ↔ Phrase ts st := by
  refine ⟨fun h => ?_, fun h => h.ofTokens_eq⟩
  match ts with
  | [] => cases h
  | .quoted _ :: _ => cases h
  | .word w :: rest =>
    rw [Statement.ofTokens] at h
    split at h
    · next hw =>
      obtain ⟨name, hname, hst⟩ := map_eq_ok_iff.1 h
      cases hst
      rw [oneWord_eq_ok_iff.1 hname]
      exact .header name hw
    · split at h
      · cases h
      · next o ho =>
        obtain ⟨op, hop, hst⟩ := map_eq_ok_iff.1 h
        cases hst
        have hw : Text.capitals w = o.mnemonic := (Opcode.ofMnemonic?_eq_some_iff.1 ho).symm
        exact phrase_of_operationOf (fun s hs => hts s (List.mem_cons_of_mem _ hs)) hw hop

theorem ofTokens_eq_none_iff {ts : List Token} : Statement.ofTokens ts = .ok none ↔ ts = [] := by
  refine ⟨fun h => ?_, fun h => by rw [h]; rfl⟩
  match ts with
  | [] => rfl
  | .quoted _ :: _ => cases h
  | .word w :: rest =>
    rw [Statement.ofTokens] at h
    split at h
    · obtain ⟨name, -, hst⟩ := map_eq_ok_iff.1 h
      cases hst
    · split at h
      · cases h
      · obtain ⟨op, -, hst⟩ := map_eq_ok_iff.1 h
        cases hst

/-! ## §2. What lines say. -/

/-- Every line can be cut into tokens, and the lines that have tokens are the phrases that
make the statements. -/
inductive Says : List String → List Statement → Prop
  | nil : Says [] []
  | silent {line : String} {lines : List String} {sts : List Statement}
      (hline : Lexes line.toList []) (h : Says lines sts) : Says (line :: lines) sts
  | phrase {line : String} {ts : List Token} {st : Statement} {lines : List String}
      {sts : List Statement} (hline : Lexes line.toList ts) (hst : Phrase ts st)
      (h : Says lines sts) : Says (line :: lines) (st :: sts)

theorem ofLine_eq_none_iff {line : String} :
    Statement.ofLine line = .ok none ↔ Lexes line.toList [] := by
  rw [← tokens?_eq_some_iff]
  unfold Statement.ofLine
  cases htokens : tokens? line with
  | none => simp
  | some ts => simp [ofTokens_eq_none_iff]

theorem ofLine_eq_some_iff {line : String} {st : Statement} :
    Statement.ofLine line = .ok (some st) ↔ ∃ ts, Lexes line.toList ts ∧ Phrase ts st := by
  simp only [← tokens?_eq_some_iff]
  unfold Statement.ofLine
  cases htokens : tokens? line with
  | none => simp
  | some ts =>
    have hts : ∀ s, .word s ∈ ts → IsWord s := fun s hs => (tokens?_eq_some_iff.1 htokens).isWord hs
    simp [ofTokens_eq_some_iff hts]

/-- A line is read if it says nothing, or says what can be added. -/
theorem readLine_eq_ok_iff {o o' : Outline} {line : String} :
    o.readLine line = .ok o'
      ↔ (Lexes line.toList [] ∧ o = o')
        ∨ ∃ ts st, Lexes line.toList ts ∧ Phrase ts st ∧ o.add (some st) = .ok o' := by
  constructor
  · intro h
    unfold Outline.readLine at h
    split at h
    · cases h
    · next statement hline =>
      cases statement with
      | none =>
        cases h
        exact .inl ⟨ofLine_eq_none_iff.1 hline, rfl⟩
      | some st =>
        obtain ⟨ts, hts, hst⟩ := ofLine_eq_some_iff.1 hline
        exact .inr ⟨ts, st, hts, hst, h⟩
  · rintro (⟨hline, rfl⟩ | ⟨ts, st, hts, hst, hadd⟩)
    · rw [Outline.readLine, ofLine_eq_none_iff.2 hline]
      rfl
    · rw [Outline.readLine, ofLine_eq_some_iff.2 ⟨ts, hts, hst⟩]
      exact hadd

/-- An outline grows by statements, one after another. -/
inductive Grows : Outline → List Statement → Outline → Prop
  | nil (o : Outline) : Grows o [] o
  | cons {o o₁ o₂ : Outline} {st : Statement} {sts : List Statement}
      (hst : o.add (some st) = .ok o₁) (h : Grows o₁ sts o₂) : Grows o (st :: sts) o₂

/-- Lines are read if and only if they say statements by which the outline grows. -/
theorem readLines_eq_ok_iff {o o' : Outline} {n : Nat} {lines : List String} :
    o.readLines n lines = .ok o' ↔ ∃ sts, Says lines sts ∧ Grows o sts o' := by
  induction lines generalizing o n with
  | nil =>
    constructor
    · intro h
      cases h
      exact ⟨[], .nil, .nil _⟩
    · rintro ⟨sts, hsays, hgrows⟩
      cases hsays
      cases hgrows
      rfl
  | cons line lines ih =>
    constructor
    · intro h
      unfold Outline.readLines at h
      split at h
      · cases h
      · next o₁ hline =>
        obtain ⟨sts, hsays, hgrows⟩ := ih.1 h
        rcases readLine_eq_ok_iff.1 hline with ⟨hsilent, rfl⟩ | ⟨ts, st, hts, hst, hadd⟩
        · exact ⟨sts, .silent hsilent hsays, hgrows⟩
        · exact ⟨st :: sts, .phrase hts hst hsays, .cons hadd hgrows⟩
    · rintro ⟨sts, hsays, hgrows⟩
      cases hsays with
      | silent hline hsays =>
        rw [Outline.readLines, readLine_eq_ok_iff.2 (.inl ⟨hline, rfl⟩)]
        exact ih.2 ⟨sts, hsays, hgrows⟩
      | phrase hline hst hsays =>
        cases hgrows with
        | cons hadd hgrows =>
          rw [Outline.readLines, readLine_eq_ok_iff.2 (.inr ⟨_, _, hline, hst, hadd⟩)]
          exact ih.2 ⟨_, hsays, hgrows⟩

/-! ## §3. What statements denote. -/

namespace Statement

/-- The name of a header. -/
def name? : Statement → Option String
  | header name => some name
  | operation _ => none

def isOperation (st : Statement) : Bool :=
  st.name?.isNone

/-- The names of the headers, in their order. -/
def names (sts : List Statement) : List String :=
  sts.filterMap name?

/-- The place of an operation below other statements: the number of the nearest header
above it, which is the last of the headers there, and the number of operations between the
two. -/
def place? (above : List Statement) : Statement → Option (Nat × Nat × Operation)
  | header _ => none
  | operation op => some ((names above).length, (above.rtakeWhile isOperation).length, op)

/-- The operations in their order, each with its place below the statements above it. -/
def places (sts : List Statement) : List (Nat × Nat × Operation) :=
  sts.zipIdx.filterMap fun st => st.1.place? (sts.take st.2)

/-- The program that statements denote: ids count the headers and the operations from one. -/
def denote (sts : List Statement) : Program where
  routines := ((names sts).zipIdx 1).map fun r => ⟨r.2, r.1⟩
  instructions := ((places sts).zipIdx 1).map fun i => ⟨i.2, i.1.1, i.1.2.1, i.1.2.2⟩

theorem names_append (sts later : List Statement) :
    names (sts ++ later) = names sts ++ names later :=
  List.filterMap_append

/-- A further statement has its place below all the others, and does not change theirs. -/
theorem places_concat (sts : List Statement) (st : Statement) :
    places (sts ++ [st]) = places sts ++ (st.place? sts).toList := by
  have habove : ∀ x ∈ sts.zipIdx,
      x.1.place? ((sts ++ [st]).take x.2) = x.1.place? (sts.take x.2) := by
    intro x hx
    have hlt : x.2 < sts.length + 0 := List.snd_lt_of_mem_zipIdx hx
    rw [List.take_append_of_le_length (by omega)]
  have hlast : ([st].zipIdx (0 + sts.length)).filterMap
      (fun x => x.1.place? ((sts ++ [st]).take x.2)) = (st.place? sts).toList := by
    cases hplace : st.place? sts <;> simp [hplace]
  unfold places
  rw [List.zipIdx_append, List.filterMap_append, List.filterMap_congr habove, hlast]

end Statement

open Statement

/-- A header comes first, and no two headers have one name. -/
structure WellOrdered (sts : List Statement) : Prop where
  headed : ∀ st, sts.head? = some st → ∃ name, st = .header name
  distinct : (names sts).Nodup

/-- Whether a statement can stand below others. -/
def Statement.Fits (above : List Statement) : Statement → Prop
  | .header name => name ∉ names above
  | .operation _ => above ≠ []

theorem wellOrdered_nil : WellOrdered [] := by
  constructor
  · intro st hst
    cases hst
  · exact List.nodup_nil

/-- The statements before others are in good order, too. -/
theorem WellOrdered.append_left {sts later : List Statement} (h : WellOrdered (sts ++ later)) :
    WellOrdered sts := by
  constructor
  · intro st hst
    apply h.headed
    rw [List.head?_append, hst]
    rfl
  · have hdistinct := h.distinct
    rw [names_append] at hdistinct
    exact hdistinct.of_append_left

/-- Where there are statements in good order there is a header. -/
theorem WellOrdered.names_ne_nil {sts : List Statement} (h : WellOrdered sts) (hne : sts ≠ []) :
    names sts ≠ [] := by
  cases sts with
  | nil => exact absurd rfl hne
  | cons st sts =>
    obtain ⟨name, rfl⟩ := h.headed st rfl
    exact List.cons_ne_nil name (names sts)

theorem wellOrdered_concat_iff {above : List Statement} {st : Statement} :
    WellOrdered (above ++ [st]) ↔ WellOrdered above ∧ st.Fits above := by
  constructor
  · intro h
    refine ⟨h.append_left, ?_⟩
    cases st with
    | header name =>
      have hdistinct := h.distinct
      rw [names_append] at hdistinct
      intro hmem
      exact (List.disjoint_of_nodup_append hdistinct) hmem List.mem_cons_self
    | operation op =>
      rintro rfl
      obtain ⟨name, hname⟩ := h.headed _ rfl
      cases hname
  · rintro ⟨h, hfits⟩
    constructor
    · intro first hfirst
      cases above with
      | cons st' above => exact h.headed first hfirst
      | nil =>
        cases st with
        | header name =>
          cases hfirst
          exact ⟨name, rfl⟩
        | operation op => exact absurd rfl hfits
    · rw [names_append]
      cases st with
      | header name =>
        show (names above ++ [name]).Nodup
        rw [← List.concat_eq_append]
        exact h.distinct.concat hfits
      | operation op =>
        show (names above ++ []).Nodup
        rw [List.append_nil]
        exact h.distinct

/-! ## §4. The outline that grows with the statements. -/

/-- The outline has the names and the places that the statements have, and its last routine
as many operations as follow the last header. -/
structure Describes (o : Outline) (sts : List Statement) : Prop where
  names : o.names = names sts
  places : o.places = places sts
  last : ∀ l name ops, o = l ++ [(name, ops)] → (sts.rtakeWhile isOperation).length = ops.length

theorem describes_nil : Describes [] [] := by
  refine ⟨rfl, rfl, ?_⟩
  intro l name ops h
  simp at h

theorem Describes.numbered_eq {o : Outline} {sts : List Statement} (h : Describes o sts) :
    o.numbered = denote sts := by
  have hroutines : (o.zipIdx 1).map (fun b => (⟨b.2, b.1.1⟩ : Routine))
      = (o.names.zipIdx 1).map fun r => ⟨r.2, r.1⟩ := by
    unfold Outline.names
    rw [List.zipIdx_map, List.map_map]
    rfl
  unfold Outline.numbered denote
  rw [hroutines, h.names, h.places]

/-- A statement can be added exactly where it fits. -/
theorem Describes.exists_add_iff {o : Outline} {sts : List Statement} (h : Describes o sts)
    (hsts : WellOrdered sts) (st : Statement) :
    (∃ o', o.add (some st) = .ok o') ↔ st.Fits sts := by
  cases st with
  | header name =>
    show _ ↔ name ∉ Statement.names sts
    rw [← h.names, Outline.add]
    by_cases hname : name ∈ o.names <;> simp [hname]
  | operation op =>
    have hempty : o = [] ↔ sts = [] := by
      constructor
      · rintro rfl
        by_contra hne
        exact hsts.names_ne_nil hne h.names.symm
      · rintro rfl
        exact List.map_eq_nil_iff.1 h.names
    show _ ↔ sts ≠ []
    rw [Ne, ← hempty, Outline.add]
    by_cases ho : o = [] <;> simp [ho]

/-- And then the outline describes one statement more. -/
theorem Describes.add {o o' : Outline} {sts : List Statement} {st : Statement}
    (h : Describes o sts) (hadd : o.add (some st) = .ok o') : Describes o' (sts ++ [st]) := by
  rcases Outline.add_eq_ok hadd with ⟨hst, -⟩ | ⟨name, hst, -, rfl⟩ |
    ⟨op, l, name, ops, hst, rfl, rfl⟩
  · cases hst
  · cases hst
    refine ⟨?_, ?_, ?_⟩
    · rw [Outline.names_append, Statement.names_append, h.names]
      rfl
    · rw [Outline.places_open, places_concat, h.places]
      exact (List.append_nil _).symm
    · intro l name' ops heq
      obtain ⟨-, hlast⟩ := List.append_inj' heq rfl
      cases hlast
      rw [List.rtakeWhile_concat_neg _ _ _ (by simp [isOperation, name?])]
      rfl
  · cases hst
    -- the operation goes to the last routine, whose number is the number of routines
    have hlength : (Statement.names sts).length = l.length + 1 := by
      rw [← h.names, Outline.names, List.length_map, List.length_append, List.length_singleton]
    have hlast := h.last l name ops rfl
    refine ⟨?_, ?_, ?_⟩
    · rw [Statement.names_append, ← h.names, Outline.names_append, Outline.names_append]
      exact (List.append_nil _).symm
    · rw [Outline.places_add, places_concat, h.places, place?, hlength, hlast]
      rfl
    · intro l' name' ops' heq
      obtain ⟨-, hsame⟩ := List.append_inj' heq rfl
      cases hsame
      rw [List.rtakeWhile_concat_pos _ _ _ rfl, List.length_append, List.length_append, hlast]
      rfl

/-- What grows by statements is in good order if it was, and describes them all. -/
theorem Grows.describes {o o' : Outline} {sts later : List Statement} (h : Grows o later o')
    (ho : Describes o sts) (hsts : WellOrdered sts) :
    WellOrdered (sts ++ later) ∧ Describes o' (sts ++ later) := by
  induction h generalizing sts with
  | nil o =>
    rw [List.append_nil]
    exact ⟨hsts, ho⟩
  | @cons o o₁ o₂ st later hadd _ ih =>
    have hfits : st.Fits sts := (ho.exists_add_iff hsts st).1 ⟨o₁, hadd⟩
    rw [List.append_cons]
    exact ih (ho.add hadd) (wellOrdered_concat_iff.2 ⟨hsts, hfits⟩)

/-- Statements in good order can be added one after another. -/
theorem exists_grows {o : Outline} {sts later : List Statement} (ho : Describes o sts)
    (h : WellOrdered (sts ++ later)) : ∃ o', Grows o later o' := by
  induction later generalizing o sts with
  | nil => exact ⟨o, .nil o⟩
  | cons st later ih =>
    rw [List.append_cons] at h
    obtain ⟨hsts, hfits⟩ := wellOrdered_concat_iff.1 h.append_left
    obtain ⟨o₁, hadd⟩ := (ho.exists_add_iff hsts st).2 hfits
    obtain ⟨o₂, hgrows⟩ := ih (ho.add hadd) h
    exact ⟨o₂, .cons hadd hgrows⟩

/-! ## §5. Texts. -/

theorem assemble_eq_ok_iff {text : String} {p : Program} :
    assemble text = .ok p
      ↔ ∃ sts, Says (Text.lines text) sts ∧ WellOrdered sts ∧ p = denote sts := by
  rw [assemble_eq, map_eq_ok_iff]
  constructor
  · rintro ⟨o, ho, rfl⟩
    obtain ⟨sts, hsays, hgrows⟩ := readLines_eq_ok_iff.1 ho
    obtain ⟨hordered, hdescribes⟩ := hgrows.describes describes_nil wellOrdered_nil
    exact ⟨sts, hsays, hordered, hdescribes.numbered_eq⟩
  · rintro ⟨sts, hsays, hordered, rfl⟩
    obtain ⟨o, hgrows⟩ := exists_grows describes_nil hordered
    obtain ⟨-, hdescribes⟩ := hgrows.describes describes_nil wellOrdered_nil
    exact ⟨o, readLines_eq_ok_iff.2 ⟨sts, hsays, hgrows⟩, hdescribes.numbered_eq⟩

/-- **The texts that assemble are the grammatical ones**, and each assembles to the program
that it denotes. -/
theorem assemble_accepts_grammar (text : String) :
    ((∃ p, assemble text = .ok p) ↔ ∃ sts, Says (Text.lines text) sts ∧ WellOrdered sts)
      ∧ ∀ p, assemble text = .ok p
          ↔ ∃ sts, Says (Text.lines text) sts ∧ WellOrdered sts ∧ p = denote sts := by
  refine ⟨⟨?_, ?_⟩, fun p => assemble_eq_ok_iff⟩
  · rintro ⟨p, hp⟩
    obtain ⟨sts, hsays, hordered, -⟩ := assemble_eq_ok_iff.1 hp
    exact ⟨sts, hsays, hordered⟩
  · rintro ⟨sts, hsays, hordered⟩
    exact ⟨denote sts, assemble_eq_ok_iff.2 ⟨sts, hsays, hordered, rfl⟩⟩

-- positions begin again below each header, and ids go on
example : denote [.header "f", .operation .dup, .header "g", .operation .add,
      .operation (.goto "L")]
    = ⟨[⟨1, "f"⟩, ⟨2, "g"⟩], [⟨1, 1, 0, .dup⟩, ⟨2, 2, 0, .add⟩, ⟨3, 2, 1, .goto "L"⟩]⟩ := by
  rfl

end StackCalc.Source
