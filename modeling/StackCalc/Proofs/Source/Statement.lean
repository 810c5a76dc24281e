/-
  StackCalc.Proofs.Source.Statement
  ─────────────────────────────────
  **A LINE OF A LISTING, AND WHAT A LINE CAN SAY.**

  An operation is *printable* if its name is a word or its prompt has no line
  feed.  The line that a listing shows for a printable operation says this
  operation, and the header of a routine whose name is a word says this header:

      Statement.ofLine ("  " ++ op.render)          = ok (operation op)
      Statement.ofLine (headerWord ++ " " ++ name)  = ok (header name)

  In the other direction, whatever a line says is printable.  Numbers need no
  condition: the text of a number is a word and reads back.
-/
import StackCalc.Decimal.RoundTrip
import StackCalc.Proofs.Source.Token
import StackCalc.Source.Statement

namespace StackCalc

open Source

/-! ## §1. The text of a number is a word. -/

/-- No blank has a code among those of the digits and the letters. -/
theorem isBlank_eq_false_of_toNat {c : Char} (hlow : 48 ≤ c.toNat) (hhigh : c.toNat ≤ 122) :
    Text.isBlank c = false := by
  unfold Text.isBlank
  simp only [Bool.or_eq_false_iff, Bool.and_eq_false_iff, decide_eq_false_iff_not,
    beq_eq_false_iff_ne]
  omega

theorem wordChar_of_isDigit {c : Char} (h : c.isDigit = true) : WordChar c := by
  have hlow : 48 ≤ c.toNat := (Char.isDigit_iff_toNat.1 h).1
  have hhigh : c.toNat ≤ 57 := (Char.isDigit_iff_toNat.1 h).2
  refine ⟨isBlank_eq_false_of_toNat hlow (by omega), ?_, ?_⟩
  · rintro rfl
    exact absurd h (by decide)
  · rintro rfl
    exact absurd h (by decide)

theorem wordChar_of_mem_positional (d : Decimal) : ∀ c ∈ d.positional, WordChar c := by
  obtain ⟨n, k | k⟩ := d
  · intro c hc
    rcases List.mem_append.1 hc with hc | hc
    · exact wordChar_of_isDigit (Decimal.isDigit_of_mem_toDigits c hc)
    · exact wordChar_of_isDigit (Decimal.isDigit_of_mem_replicate c hc)
  · obtain ⟨whole, part, heq, -, -, hdigits, -⟩ := Decimal.positional_negSucc n k
    intro c hc
    rw [heq] at hc
    -- digits, a point, digits
    rcases List.mem_append.1 hc with hc | hc
    · exact wordChar_of_isDigit (hdigits c (List.mem_append_left _ hc))
    · rcases List.mem_cons.1 hc with rfl | hc
      · decide
      · exact wordChar_of_isDigit (hdigits c (List.mem_append_right _ hc))

theorem wordChar_of_mem_writeMagnitude (n : Nat) : ∀ c ∈ writeMagnitude n, WordChar c := by
  have hzero : IsWord "0" := by decide
  have hinf : IsWord "inf" := by decide
  unfold writeMagnitude
  split
  · exact hzero.2
  · split
    · exact hinf.2
    · exact wordChar_of_mem_positional _

theorem writeMagnitude_ne_nil (n : Nat) : writeMagnitude n ≠ [] := by
  unfold writeMagnitude
  split
  · exact List.cons_ne_nil _ _
  · split
    · exact List.cons_ne_nil _ _
    · obtain ⟨c, cs, heq, -⟩ := Decimal.positional_eq_cons (Decimal.shortest n)
      rw [heq]
      exact List.cons_ne_nil _ _

/-- **The text of a number is a word.** -/
theorem isWord_writeNumber (x : Float) : IsWord (writeNumber x) := by
  unfold writeNumber
  split
  · decide
  · refine isWord_ofList (List.append_ne_nil_of_right_ne_nil _ (writeMagnitude_ne_nil _)) ?_
    intro c hc
    -- the sign, then the magnitude
    rcases List.mem_append.1 hc with hc | hc
    · split at hc
      · rw [List.mem_singleton.1 hc]
        decide
      · exact absurd hc List.not_mem_nil
    · exact wordChar_of_mem_writeMagnitude _ c hc

/-- So no blanks have to be taken off it, and as a literal it is the number. -/
theorem Operation.literal_writeNumber (x : Float) : literal (some (writeNumber x)) = .ok x := by
  rw [literal, (isWord_writeNumber x).trim_eq, readNumber?_writeNumber]

/-! ## §2. Printable operations. -/

/-- Whether an operation can be shown on a line of its own: the names that it
carries are words, and its prompt has no line feed. -/
def Operation.Printable : Operation → Prop
  | .label name | .goto name | .call name => IsWord name
  | .input prompt => '\n' ∉ prompt.toList
  | _ => True

instance : DecidablePred Operation.Printable
  | .label name | .goto name | .call name => inferInstanceAs (Decidable (IsWord name))
  | .input prompt => inferInstanceAs (Decidable ('\n' ∉ prompt.toList))
  | .push _ | .add | .sub | .mul | .div | .sin | .cos | .tan | .dup => isTrue trivial

namespace Source

/-- Whether what a line says can be shown on a line. -/
def Statement.Printable : Statement → Prop
  | .header name => IsWord name
  | .operation op => op.Printable

/-! ## §3. A line of a listing says what it shows. -/

theorem isWord_mnemonic (o : Opcode) : IsWord o.mnemonic := by
  cases o <;> decide

theorem capitals_mnemonic (o : Opcode) : Text.capitals o.mnemonic = o.mnemonic := by
  cases o <;> decide

theorem mnemonic_ne_headerWord (o : Opcode) : o.mnemonic ≠ headerWord := by
  cases o <;> decide

/-- After a word for an opcode come the tokens of its argument. -/
theorem ofTokens_of_capitals {w : String} {o : Opcode} (hw : Text.capitals w = o.mnemonic)
    (rest : List Token) :
    Statement.ofTokens (.word w :: rest)
      = (operationOf o rest).map fun op => some (.operation op) := by
  have hfound : Opcode.ofMnemonic? o.mnemonic = some o := Opcode.ofMnemonic?_eq_some_iff.2 rfl
  rw [Statement.ofTokens, hw, if_neg (mnemonic_ne_headerWord o), hfound]

theorem ofTokens_mnemonic (o : Opcode) (rest : List Token) :
    Statement.ofTokens (.word o.mnemonic :: rest)
      = (operationOf o rest).map fun op => some (.operation op) :=
  ofTokens_of_capitals (capitals_mnemonic o) rest

theorem ofLine_blank : Statement.ofLine "" = .ok none := by
  rfl

/-- **The header of a routine reads back.** -/
theorem ofLine_header {name : String} (h : IsWord name) :
    Statement.ofLine (headerWord ++ " " ++ name) = .ok (some (.header name)) := by
  have htokens : tokens? (headerWord ++ " " ++ name) = some [.word headerWord, .word name] := by
    rw [tokens?_word_space (by decide), tokens?_word h]
    rfl
  have hcapitals : Text.capitals headerWord = headerWord := by decide
  rw [Statement.ofLine, htokens]
  show Statement.ofTokens _ = _
  rw [Statement.ofTokens, if_pos hcapitals]
  rfl

/-- The line of an operation that has no argument. -/
theorem ofLine_plain {o : Opcode} {op : Operation} (hop : operationOf o [] = .ok op) :
    Statement.ofLine ("  " ++ o.mnemonic) = .ok (some (.operation op)) := by
  rw [Statement.ofLine, tokens?_indent, tokens?_word (isWord_mnemonic o)]
  show Statement.ofTokens _ = _
  rw [ofTokens_mnemonic, hop]
  rfl

/-- The line of an operation whose argument is written as `text`, which reads as
one token. -/
theorem ofLine_argument {o : Opcode} {op : Operation} {text : String} {t : Token}
    (ht : tokens? text = some [t]) (hop : operationOf o [t] = .ok op) :
    Statement.ofLine ("  " ++ (o.mnemonic ++ " " ++ text)) = .ok (some (.operation op)) := by
  rw [Statement.ofLine, tokens?_indent, tokens?_word_space (isWord_mnemonic o), ht]
  show Statement.ofTokens _ = _
  rw [ofTokens_mnemonic, hop]
  rfl

/-- The text of a number after `PUSH` describes the number. -/
theorem operationOf_push (x : Float) :
    operationOf .push [.word (writeNumber x)] = .ok (.push x) := by
  simp only [operationOf, argumentOf, oneWord, noToken, Except.map, Operation.ofParts,
    Operation.literal_writeNumber, Except.mapError]

/-- **The line of a printable operation reads back.** -/
theorem ofLine_render {op : Operation} (h : op.Printable) :
    Statement.ofLine ("  " ++ op.render) = .ok (some (.operation op)) := by
  -- an argument is written as one token: a name as a word, a prompt between quotes
  cases op with
  | push x => exact ofLine_argument (tokens?_word (isWord_writeNumber x)) (operationOf_push x)
  | input prompt => exact ofLine_argument (tokens?_quote prompt) rfl
  | label name => exact ofLine_argument (tokens?_word h) rfl
  | goto name => exact ofLine_argument (tokens?_word h) rfl
  | call name => exact ofLine_argument (tokens?_word h) rfl
  | add | sub | mul | div | sin | cos | tan | dup => exact ofLine_plain rfl

theorem isLine_header {name : String} (h : IsWord name) :
    Text.IsLine (headerWord ++ " " ++ name) :=
  h.isLine.append (by decide) h.1

theorem isLine_mnemonic (o : Opcode) : Text.IsLine ("  " ++ o.mnemonic) :=
  (isWord_mnemonic o).isLine.append (by decide) (isWord_mnemonic o).1

theorem isLine_mnemonic_space (o : Opcode) {text : String} (ht : Text.IsLine text)
    (hne : text ≠ "") : Text.IsLine ("  " ++ (o.mnemonic ++ " " ++ text)) := by
  have hbefore : '\n' ∉ ("  " ++ (o.mnemonic ++ " ")).toList := by
    cases o <;> decide
  rw [← String.append_assoc]
  exact ht.append hbefore hne

/-- The line of a printable operation is a line. -/
theorem isLine_render {op : Operation} (h : op.Printable) : Text.IsLine ("  " ++ op.render) := by
  cases op with
  | push x =>
    have hword := isWord_writeNumber x
    exact isLine_mnemonic_space .push hword.isLine hword.1
  | input prompt => exact isLine_mnemonic_space .input (isLine_quote h) (by simp [Text.quote])
  | label name => exact isLine_mnemonic_space .label h.isLine h.1
  | goto name => exact isLine_mnemonic_space .goto h.isLine h.1
  | call name => exact isLine_mnemonic_space .call h.isLine h.1
  | add | sub | mul | div | sin | cos | tan | dup => exact isLine_mnemonic _

/-! ## §4. What a line says is printable. -/

theorem map_eq_ok_iff {ε α β : Type} {x : Except ε α} {f : α → β} {b : β} :
    x.map f = .ok b ↔ ∃ a, x = .ok a ∧ f a = b := by
  cases x <;> simp [Except.map]

theorem mapError_eq_ok_iff {ε δ α : Type} {x : Except ε α} {f : ε → δ} {a : α} :
    x.mapError f = .ok a ↔ x = .ok a := by
  cases x <;> simp [Except.mapError]

theorem noToken_eq_ok_iff {ts : List Token} {u : Unit} : noToken ts = .ok u ↔ ts = [] := by
  cases ts <;> simp [noToken]

theorem oneWord_eq_ok_iff {mnemonic s : String} {ts : List Token} :
    oneWord mnemonic ts = .ok s ↔ ts = [.word s] := by
  match ts with
  | [] => simp [oneWord]
  | .quoted _ :: _ => simp [oneWord]
  | .word w :: rest => simp [oneWord, map_eq_ok_iff, noToken_eq_ok_iff, and_comm]

theorem oneText_eq_ok_iff {mnemonic s : String} {ts : List Token} :
    oneText mnemonic ts = .ok s ↔ ∃ t, ts = [t] ∧ t.text = s := by
  match ts with
  | [] => simp [oneText]
  | t :: rest => simp [oneText, map_eq_ok_iff, noToken_eq_ok_iff, and_assoc]

theorem sound_of_oneWord {mnemonic s : String} {ts : List Token} (hts : ∀ t ∈ ts, t.Sound)
    (h : oneWord mnemonic ts = .ok s) : IsWord s := by
  rw [oneWord_eq_ok_iff.1 h] at hts
  exact hts (.word s) List.mem_cons_self

/-- A prompt is a word, which has no line feed, or a quoted text. -/
theorem feed_notMem_of_oneText {mnemonic s : String} {ts : List Token}
    (hts : ∀ t ∈ ts, t.Sound) (h : oneText mnemonic ts = .ok s) : '\n' ∉ s.toList := by
  obtain ⟨t, rfl, rfl⟩ := oneText_eq_ok_iff.1 h
  have ht := hts t List.mem_cons_self
  cases t with
  | word w => exact IsWord.feed_notMem ht
  | quoted q => exact ht

/-- An operation and the argument that describes it. -/
theorem operationOf_eq_ok_iff {o : Opcode} {ts : List Token} {op : Operation} :
    operationOf o ts = .ok op
      ↔ ∃ argument, argumentOf o ts = .ok argument ∧ Operation.ofParts o argument = .ok op := by
  unfold operationOf
  cases argumentOf o ts with
  | error cause => simp
  | ok argument => simp [mapError_eq_ok_iff]

theorem printable_of_operationOf {o : Opcode} {ts : List Token} {op : Operation}
    (hts : ∀ t ∈ ts, t.Sound) (h : operationOf o ts = .ok op) : op.Printable := by
  obtain ⟨argument, hargument, hop⟩ := operationOf_eq_ok_iff.1 h
  -- only the names and the prompt come from tokens as they are
  cases o with
  | push =>
    obtain ⟨x, -, rfl⟩ := map_eq_ok_iff.1 hop
    trivial
  | input =>
    obtain ⟨prompt, hprompt, rfl⟩ := map_eq_ok_iff.1 hargument
    cases hop
    exact feed_notMem_of_oneText hts hprompt
  | label | goto | call =>
    obtain ⟨name, hname, rfl⟩ := map_eq_ok_iff.1 hargument
    cases hop
    exact sound_of_oneWord hts hname
  | add | sub | mul | div | sin | cos | tan | dup =>
    cases hop
    trivial

theorem printable_of_ofTokens {ts : List Token} {st : Statement} (hts : ∀ t ∈ ts, t.Sound)
    (h : Statement.ofTokens ts = .ok (some st)) : st.Printable := by
  match ts with
  | [] => exact absurd h (by simp [Statement.ofTokens])
  | .quoted _ :: _ => exact absurd h (by simp [Statement.ofTokens])
  | .word s :: rest =>
    have hrest : ∀ t ∈ rest, t.Sound := fun t ht => hts t (List.mem_cons_of_mem _ ht)
    rw [Statement.ofTokens] at h
    split at h
    · obtain ⟨name, hname, heq⟩ := map_eq_ok_iff.1 h
      cases heq
      exact sound_of_oneWord hrest hname
    · -- not a header, so a mnemonic or an error
      split at h
      · exact absurd h (by simp)
      · obtain ⟨op, hop, heq⟩ := map_eq_ok_iff.1 h
        cases heq
        exact printable_of_operationOf hrest hop

/-- **What a line without a line feed says is printable.** -/
theorem printable_of_ofLine {line : String} {st : Statement} (hline : '\n' ∉ line.toList)
    (h : Statement.ofLine line = .ok (some st)) : st.Printable := by
  unfold Statement.ofLine at h
  split at h
  · exact absurd h (by simp)
  · next ts hts => exact printable_of_ofTokens (sound_of_tokens? hline hts) h

end Source

end StackCalc
