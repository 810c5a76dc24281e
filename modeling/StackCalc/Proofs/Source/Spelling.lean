/-
  StackCalc.Proofs.Source.Spelling
  ────────────────────────────────
  **WHEN A SPELLING IS THE TOKEN.**

  A report names a token by its spelling: a quoted text stands between quotes with its
  escapes resolved.  Read again as a line, this is the token and nothing else if and only
  if nothing in it had to be escaped,

      tokens? t.spelling = some [t]   ↔   t.IsPlain

  An escape makes what is written longer than the text, and a spelling is exactly as long
  as the text and two quotes; so it has no room for one.  The listing writes a quoted text
  with its escapes, and reads back whatever the text is.
-/
import StackCalc.Proofs.Source.Lexical
import StackCalc.Source.Statement

namespace StackCalc.Source

/-! ## §1. Plain texts. -/

/-- A text that holds nothing that has to be escaped. -/
def IsPlainText (cs : List Char) : Prop :=
  '"' ∉ cs ∧ '\\' ∉ cs

instance : DecidablePred IsPlainText := fun _ => inferInstanceAs (Decidable (_ ∧ _))

theorem isPlainText_cons {c : Char} {cs : List Char} (hquote : c ≠ '"') (hslash : c ≠ '\\')
    (h : IsPlainText cs) : IsPlainText (c :: cs) := by
  refine ⟨?_, ?_⟩
  · rw [List.mem_cons, not_or]
    exact ⟨hquote.symm, h.1⟩
  · rw [List.mem_cons, not_or]
    exact ⟨hslash.symm, h.2⟩

/-- What is written between two quotes is at least as long as the text. -/
theorem Escaped.length_le {body text : List Char} (h : Escaped body text) :
    text.length ≤ body.length := by
  induction h with
  | nil => exact Nat.le_refl 0
  | plain _ _ _ ih =>
    simp only [List.length_cons]
    omega
  | escape c _ ih =>
    simp only [List.length_cons]
    omega

/-- If it is no longer, then nothing was escaped. -/
theorem Escaped.isPlainText {body text : List Char} (h : Escaped body text)
    (hlength : body.length ≤ text.length) : IsPlainText text := by
  induction h with
  | nil => exact ⟨List.not_mem_nil, List.not_mem_nil⟩
  | plain hquote hslash _ ih =>
    exact isPlainText_cons hquote hslash (ih (Nat.le_of_succ_le_succ hlength))
  | escape c hbody _ =>
    -- the backslash is one character too many
    have hle := hbody.length_le
    simp only [List.length_cons] at hlength
    omega

theorem escape_eq_self_iff {cs : List Char} : Text.escape cs = cs ↔ IsPlainText cs := by
  constructor
  · intro h
    have hescaped := escaped_escape cs
    rw [h] at hescaped
    exact hescaped.isPlainText (Nat.le_refl _)
  · intro h
    induction cs with
    | nil => rfl
    | cons c cs ih =>
      obtain ⟨hquote, hslash⟩ := h
      rw [List.mem_cons, not_or] at hquote hslash
      have hc : ¬ (c = '"' ∨ c = '\\') := by
        rintro (e | e)
        · exact hquote.1 e.symm
        · exact hslash.1 e.symm
      rw [Text.escape, if_neg hc, ih ⟨hquote.2, hslash.2⟩]

/-! ## §2. Spellings. -/

/-- A word, or a quoted text that holds nothing that has to be escaped. -/
def Token.IsPlain : Token → Prop
  | .word _ => True
  | .quoted s => IsPlainText s.toList

instance : DecidablePred Token.IsPlain
  | .word _ => inferInstanceAs (Decidable True)
  | .quoted _ => inferInstanceAs (Decidable (IsPlainText _))

theorem toList_spelling_quoted (s : String) :
    (Token.quoted s).spelling.toList = '"' :: (s.toList ++ ['"']) := by
  simp [Token.spelling]

/-- A plain text is spelled as the listing writes it, and no other is. -/
theorem spelling_eq_quote_iff {s : String} :
    (Token.quoted s).spelling = Text.quote s ↔ IsPlainText s.toList := by
  rw [← String.toList_inj, toList_spelling_quoted, toList_quote, List.cons_inj_right,
    List.append_left_inj, eq_comm, escape_eq_self_iff]

/-- A spelling from which its own text is read has no room for an escape. -/
theorem isPlainText_of_tokens?_spelling {s : String} {ts : List Token}
    (h : tokens? (Token.quoted s).spelling = some (.quoted s :: ts)) : IsPlainText s.toList := by
  unfold tokens? at h
  rw [toList_spelling_quoted, Scan.tokens?, if_neg (by decide), if_neg (by decide),
    if_pos rfl] at h
  obtain ⟨body, text, rest, us, hsplit, hbody, -, htokens⟩ := Scan.completes_of_tokens? h
  have htext : s.toList = text := by
    have hs := (List.cons.inj htokens).1
    rw [List.append_nil, Token.ofQuoted, List.reverse_reverse] at hs
    rw [Token.quoted.inj hs, String.toList_ofList]
  -- what was read ends at a quote of the spelling, so it is no longer than the text
  have hlength := congrArg List.length hsplit
  simp only [List.length_append, List.length_cons, List.length_nil, htext] at hlength
  rw [htext]
  exact hbody.isPlainText (by omega)

theorem tokens?_spelling_quoted_iff {s : String} :
    tokens? (Token.quoted s).spelling = some [.quoted s] ↔ IsPlainText s.toList := by
  constructor
  · intro h
    exact isPlainText_of_tokens?_spelling h
  · intro h
    rw [spelling_eq_quote_iff.2 h, tokens?_quote]

/-! ## §3. The tokens of a line. -/

/-- **A token of a line reads back from its spelling if and only if it is plain**: a word
always, and a quoted text if it holds no quote and no backslash.  This is also when the
spelling of a quoted text is what the listing writes, which reads back in any case. -/
theorem spelling_reads_back_iff {line : String} {ts : List Token} {t : Token}
    (h : tokens? line = some ts) (ht : t ∈ ts) :
    (tokens? t.spelling = some [t] ↔ t.IsPlain)
      ∧ ∀ s, t = .quoted s →
          tokens? (Text.quote s) = some [t] ∧ (t.spelling = Text.quote s ↔ t.IsPlain) := by
  cases t with
  | word w =>
    have hw : IsWord w := (tokens?_eq_some_iff.1 h).isWord ht
    refine ⟨⟨fun _ => trivial, fun _ => tokens?_word hw⟩, ?_⟩
    intro s hs
    cases hs
  | quoted w =>
    refine ⟨tokens?_spelling_quoted_iff, ?_⟩
    intro s hs
    cases hs
    exact ⟨tokens?_quote w, spelling_eq_quote_iff⟩

/-- A semicolon and a blank are plain, and an escaped quote is not. -/
theorem spelling_reads_back_iff_twoPrompts :
    tokens? "INPUT\"a; b\" \"say \\\"c\\\"\""
        = some [.word "INPUT", .quoted "a; b", .quoted "say \"c\""]
      ∧ tokens? (Token.word "INPUT").spelling = some [.word "INPUT"]
      ∧ tokens? (Token.quoted "a; b").spelling = some [.quoted "a; b"]
      ∧ tokens? (Token.quoted "say \"c\"").spelling ≠ some [.quoted "say \"c\""]
      ∧ tokens? (Text.quote "say \"c\"") = some [.quoted "say \"c\""] := by
  have h : tokens? "INPUT\"a; b\" \"say \\\"c\\\"\""
      = some [.word "INPUT", .quoted "a; b", .quoted "say \"c\""] := by decide
  have hword := spelling_reads_back_iff h (t := .word "INPUT") (by decide)
  have hplain := spelling_reads_back_iff h (t := .quoted "a; b") (by decide)
  have hescaped := spelling_reads_back_iff h (t := .quoted "say \"c\"") (by decide)
  refine ⟨h, hword.1.2 trivial, hplain.1.2 (by decide), ?_, (hescaped.2 _ rfl).1⟩
  intro hreads
  exact absurd (hescaped.1.1 hreads) (by decide)

/-- A quote in the text closes its spelling early and leaves another one open, as in the
report of an unexpected token; and a backslash in the text is taken for an escape, so that
another token is read. -/
theorem spelling_misread :
    tokens? "  ADD \"a\\\"b\"" = some [.word "ADD", .quoted "a\"b"]
      ∧ tokens? (Token.quoted "a\"b").spelling = none
      ∧ Statement.ofLine "  ADD \"a\\\"b\"" = .error (.unexpectedToken "\"a\"b\"")
      ∧ tokens? "INPUT \"c\\\\d\"" = some [.word "INPUT", .quoted "c\\d"]
      ∧ tokens? (Token.quoted "c\\d").spelling = some [.quoted "cd"] := by
  exact ⟨by decide, by decide, rfl, by decide, by decide⟩

end StackCalc.Source
