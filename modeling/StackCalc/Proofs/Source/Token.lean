/-
  StackCalc.Proofs.Source.Token
  ─────────────────────────────
  **WHAT THE SCANNER MAKES OF WORDS AND QUOTED TEXTS.**

  A word is a text that is not empty and holds no blank, no semicolon and no
  double quote.  The scanner and the two ways to write a token are inverse to each
  other:

      a word reads as this word, whatever blank follows it
      an escaped text between quotes reads as this text, whatever follows it
      every word that the scanner finds is a word in the sense above

  A line has no line feed, so no token of it has one.
-/
import StackCalc.Proofs.Text.Lines
import StackCalc.Source.Token
import StackCalc.Text.Quoted

namespace StackCalc.Source

/-! ## §1. Words. -/

/-- A character that can stand in a word. -/
def WordChar (c : Char) : Prop :=
  Text.isBlank c = false ∧ c ≠ ';' ∧ c ≠ '"'

instance : DecidablePred WordChar := fun _ => inferInstanceAs (Decidable (_ ∧ _))

/-- A text that reads as one word. -/
def IsWord (s : String) : Prop :=
  s ≠ "" ∧ ∀ c ∈ s.toList, WordChar c

-- the list is given, since there are finitely many characters to go through as well
instance : DecidablePred IsWord := fun s =>
  @instDecidableAnd _ _ _ (List.decidableBAll WordChar s.toList)

theorem IsWord.toList_ne_nil {s : String} (h : IsWord s) : s.toList ≠ [] :=
  fun e => h.1 (String.toList_eq_nil_iff.1 e)

theorem isWord_ofList {cs : List Char} (hne : cs ≠ []) (h : ∀ c ∈ cs, WordChar c) :
    IsWord (String.ofList cs) := by
  refine ⟨fun e => hne ?_, ?_⟩
  · have hcs := congrArg String.toList e
    rwa [String.toList_ofList] at hcs
  · rw [String.toList_ofList]
    exact h

/-- A line feed is a blank, so no word holds one. -/
theorem IsWord.feed_notMem {s : String} (h : IsWord s) : '\n' ∉ s.toList := by
  intro hmem
  have hblank := (h.2 '\n' hmem).1
  revert hblank
  decide

/-- So is a carriage return, and a word stays one line. -/
theorem IsWord.isLine {s : String} (h : IsWord s) : Text.IsLine s := by
  refine ⟨h.feed_notMem, fun hlast => ?_⟩
  have hblank := (h.2 '\r' (List.mem_of_getLast? hlast)).1
  revert hblank
  decide

/-- A word has no blanks around it. -/
theorem IsWord.trim_eq {s : String} (h : IsWord s) : Text.trim s = s := by
  -- the first character is kept, from whichever end the text is read
  have hkeep : ∀ cs : List Char, (∀ c ∈ cs, WordChar c) → cs.dropWhile Text.isBlank = cs := by
    intro cs hcs
    cases cs with
    | nil => rfl
    | cons c cs => rw [List.dropWhile_cons_of_neg (by simp [(hcs c List.mem_cons_self).1])]
  unfold Text.trim Text.trimChars
  rw [hkeep s.toList h.2, hkeep s.toList.reverse (fun c hc => h.2 c (List.mem_reverse.1 hc)),
    List.reverse_reverse, String.ofList_toList]

/-! ## §2. Scanning what was written. -/

/-- What stands between two quotes, and the text that it spells: a backslash makes the
character after it stand for itself, and quotes and backslashes need one. -/
inductive Escaped : List Char → List Char → Prop
  | nil : Escaped [] []
  | plain {c : Char} {body text : List Char} (hquote : c ≠ '"') (hslash : c ≠ '\\')
      (h : Escaped body text) : Escaped (c :: body) (c :: text)
  | escape (c : Char) {body text : List Char} (h : Escaped body text) :
      Escaped ('\\' :: c :: body) (c :: text)

theorem escaped_escape (cs : List Char) : Escaped (Text.escape cs) cs := by
  induction cs with
  | nil => exact .nil
  | cons c cs ih =>
    rw [Text.escape]
    by_cases hc : c = '"' ∨ c = '\\'
    · rw [if_pos hc]
      exact .escape c ih
    · rw [if_neg hc]
      exact .plain (fun e => hc (.inl e)) (fun e => hc (.inr e)) ih

namespace Scan

theorem tokens?_gap_blank {c : Char} (h : Text.isBlank c = true) (cs : List Char) :
    tokens? gap (c :: cs) = tokens? gap cs := by
  rw [tokens?, if_pos h]

theorem tokens?_word_blank {c : Char} (h : Text.isBlank c = true) (read cs : List Char) :
    tokens? (word read) (c :: cs) = (tokens? gap cs).map (.ofWord read :: ·) := by
  rw [tokens?, if_pos h]

/-- The characters of a word go into the word that is being read. -/
theorem tokens?_word_append {cs : List Char} (h : ∀ c ∈ cs, WordChar c)
    (read rest : List Char) :
    tokens? (word read) (cs ++ rest) = tokens? (word (cs.reverse ++ read)) rest := by
  induction cs generalizing read with
  | nil => rfl
  | cons c cs ih =>
    have ⟨hblank, hsemi, hquote⟩ := h c List.mem_cons_self
    rw [List.cons_append, tokens?, if_neg (by simp [hblank]), if_neg hsemi, if_neg hquote,
      ih fun d hd => h d (List.mem_cons_of_mem _ hd), List.reverse_cons, List.append_assoc]
    rfl

/-- Between two tokens, a word opens itself. -/
theorem tokens?_gap_append {cs : List Char} (hne : cs ≠ []) (h : ∀ c ∈ cs, WordChar c)
    (rest : List Char) :
    tokens? gap (cs ++ rest) = tokens? (word cs.reverse) rest := by
  cases cs with
  | nil => exact absurd rfl hne
  | cons c cs =>
    have ⟨hblank, hsemi, hquote⟩ := h c List.mem_cons_self
    rw [List.cons_append, tokens?, if_neg (by simp [hblank]), if_neg hsemi, if_neg hquote,
      tokens?_word_append fun d hd => h d (List.mem_cons_of_mem _ hd), List.reverse_cons]

/-- A quoted text ends at the first quote that is not escaped, and reads as the
text that was escaped. -/
theorem tokens?_quoted_append {body text : List Char} (h : Escaped body text)
    (read rest : List Char) :
    tokens? (quoted read) (body ++ '"' :: rest)
      = (tokens? gap rest).map (.ofQuoted (text.reverse ++ read) :: ·) := by
  induction h generalizing read with
  | nil => rw [List.nil_append, tokens?, if_pos rfl, List.reverse_nil, List.nil_append]
  | plain hquote hslash _ ih =>
    rw [List.cons_append, tokens?, if_neg hquote, if_neg hslash, ih, List.reverse_cons,
      List.append_assoc, List.singleton_append]
  | escape c _ ih =>
    -- a backslash comes first, which takes the scanner to `escape` and back
    rw [List.cons_append, List.cons_append, tokens?, if_neg (by decide), if_pos rfl, tokens?, ih,
      List.reverse_cons, List.append_assoc, List.singleton_append]

end Scan

/-! ## §3. Lines of one or two tokens. -/

theorem ofWord_reverse_toList (s : String) : Token.ofWord s.toList.reverse = .word s := by
  rw [Token.ofWord, List.reverse_reverse, String.ofList_toList]

theorem ofQuoted_reverse_toList (s : String) : Token.ofQuoted s.toList.reverse = .quoted s := by
  rw [Token.ofQuoted, List.reverse_reverse, String.ofList_toList]

/-- An indented line has the tokens of the line. -/
theorem tokens?_indent (line : String) : tokens? ("  " ++ line) = tokens? line := by
  unfold tokens?
  rw [String.toList_append]
  show Scan.tokens? .gap (' ' :: ' ' :: line.toList) = _
  rw [Scan.tokens?_gap_blank (by decide), Scan.tokens?_gap_blank (by decide)]

theorem tokens?_word {s : String} (h : IsWord s) : tokens? s = some [.word s] := by
  unfold tokens?
  have hscan := Scan.tokens?_gap_append h.toList_ne_nil h.2 []
  rw [List.append_nil] at hscan
  rw [hscan, Scan.tokens?, Scan.finish, ofWord_reverse_toList]

/-- A word and a space put the word before the tokens of what follows. -/
theorem tokens?_word_space {s : String} (h : IsWord s) (rest : String) :
    tokens? (s ++ " " ++ rest) = (tokens? rest).map (.word s :: ·) := by
  unfold tokens?
  rw [String.toList_append, String.toList_append, List.append_assoc]
  show Scan.tokens? .gap (s.toList ++ ' ' :: rest.toList) = _
  rw [Scan.tokens?_gap_append h.toList_ne_nil h.2, Scan.tokens?_word_blank (by decide),
    ofWord_reverse_toList]

theorem toList_quote (s : String) :
    (Text.quote s).toList = '"' :: (Text.escape s.toList ++ ['"']) := by
  simp [Text.quote]

theorem mem_of_mem_escape {c : Char} {cs : List Char} (hc : c ≠ '\\')
    (h : c ∈ Text.escape cs) : c ∈ cs := by
  induction cs with
  | nil => exact h
  | cons d cs ih =>
    rw [Text.escape] at h
    split at h
    · rcases List.mem_cons.1 h with e | h
      · exact absurd e hc
      · rcases List.mem_cons.1 h with rfl | h
        · exact List.mem_cons_self
        · exact List.mem_cons_of_mem _ (ih h)
    · rcases List.mem_cons.1 h with rfl | h
      · exact List.mem_cons_self
      · exact List.mem_cons_of_mem _ (ih h)

/-- A quoted text ends in a quote, so a return inside it is not at the end. -/
theorem isLine_quote {s : String} (h : '\n' ∉ s.toList) : Text.IsLine (Text.quote s) := by
  have hbody : '\n' ∉ Text.escape s.toList := fun m => h (mem_of_mem_escape (by decide) m)
  unfold Text.IsLine
  rw [toList_quote, ← List.cons_append, List.getLast?_concat]
  simp [hbody]

theorem tokens?_quote (s : String) : tokens? (Text.quote s) = some [.quoted s] := by
  unfold tokens?
  rw [toList_quote, Scan.tokens?, if_neg (by decide), if_neg (by decide), if_pos rfl,
    Scan.tokens?_quoted_append (escaped_escape s.toList), List.append_nil, ofQuoted_reverse_toList]
  rfl

/-! ## §4. What can be found in a line. -/

/-- A word is a word in the sense above, and a quoted text holds no line feed. -/
def Token.Sound : Token → Prop
  | .word s => IsWord s
  | .quoted s => '\n' ∉ s.toList

/-- The same of a token that is being read. -/
def Scan.Sound : Scan → Prop
  | .gap => True
  | .word read => read ≠ [] ∧ ∀ c ∈ read, WordChar c
  | .quoted read | .escape read => '\n' ∉ read

theorem sound_ofWord {read : List Char} (h : (Scan.word read).Sound) :
    (Token.ofWord read).Sound :=
  isWord_ofList (fun e => h.1 (List.reverse_eq_nil_iff.1 e))
    fun c hc => h.2 c (List.mem_reverse.1 hc)

theorem sound_ofQuoted {read : List Char} (h : (Scan.quoted read).Sound) :
    (Token.ofQuoted read).Sound := by
  show '\n' ∉ (String.ofList read.reverse).toList
  rw [String.toList_ofList, List.mem_reverse]
  exact h

/-- One sound token before sound tokens. -/
theorem sound_of_map_cons {t : Token} {o : Option (List Token)} {ts : List Token}
    (h : o.map (t :: ·) = some ts) (ht : t.Sound)
    (ho : ∀ us, o = some us → ∀ u ∈ us, u.Sound) : ∀ u ∈ ts, u.Sound := by
  obtain ⟨us, hus, rfl⟩ := Option.map_eq_some_iff.1 h
  intro u hu
  rcases List.mem_cons.1 hu with rfl | hu
  · exact ht
  · exact ho us hus u hu

theorem Scan.sound_tokens? {s : Scan} {cs : List Char} {ts : List Token} (hs : s.Sound)
    (hcs : '\n' ∉ cs) (h : s.tokens? cs = some ts) : ∀ t ∈ ts, t.Sound := by
  -- by induction on the rest of the line; what a state has read stays sound
  induction cs generalizing s ts with
  | nil =>
    cases s with
    | gap => cases h; simp
    | word read =>
      cases h
      intro t ht
      rw [List.mem_singleton.1 ht]
      exact sound_ofWord hs
    -- a quote that stays open gives no tokens at all
    | quoted read => exact absurd h (by simp [tokens?, finish])
    | escape read => exact absurd h (by simp [tokens?, finish])
  | cons c cs ih =>
    have hc : c ≠ '\n' := fun e => hcs (e ▸ List.mem_cons_self)
    have hrest : '\n' ∉ cs := fun m => hcs (List.mem_cons_of_mem _ m)
    have hmore : ∀ read : List Char, '\n' ∉ read → '\n' ∉ c :: read := by
      intro read hread m
      rcases List.mem_cons.1 m with e | m
      · exact hc e.symm
      · exact hread m
    cases s with
    | gap =>
      rw [tokens?] at h
      split at h
      · exact ih (s := gap) trivial hrest h
      · next hblank =>
        split at h
        · cases h; simp
        · next hsemi =>
          split at h
          · exact ih (s := quoted []) List.not_mem_nil hrest h
          · next hquote =>
            -- the three tests that `c` failed are what makes it a character of a word
            refine ih (s := word [c]) ⟨List.cons_ne_nil _ _, ?_⟩ hrest h
            intro d hd
            rw [List.mem_singleton.1 hd]
            exact ⟨Bool.eq_false_iff.2 hblank, hsemi, hquote⟩
    | word read =>
      rw [tokens?] at h
      split at h
      · exact sound_of_map_cons h (sound_ofWord hs) fun us => ih (s := gap) trivial hrest
      · next hblank =>
        split at h
        · cases h
          intro t ht
          rw [List.mem_singleton.1 ht]
          exact sound_ofWord hs
        · next hsemi =>
          split at h
          · exact sound_of_map_cons h (sound_ofWord hs)
              fun us => ih (s := quoted []) List.not_mem_nil hrest
          · next hquote =>
            refine ih (s := word (c :: read)) ⟨List.cons_ne_nil _ _, ?_⟩ hrest h
            intro d hd
            rcases List.mem_cons.1 hd with rfl | hd
            · exact ⟨Bool.eq_false_iff.2 hblank, hsemi, hquote⟩
            · exact hs.2 d hd
    | quoted read =>
      rw [tokens?] at h
      split at h
      · exact sound_of_map_cons h (sound_ofQuoted hs) fun us => ih (s := gap) trivial hrest
      · split at h
        · exact ih (s := escape read) hs hrest h
        · exact ih (s := quoted (c :: read)) (hmore read hs) hrest h
    | escape read =>
      -- whatever is escaped is read, but it is no line feed
      rw [tokens?] at h
      exact ih (s := quoted (c :: read)) (hmore read hs) hrest h

/-- **Every token of a line without a line feed is sound.** -/
theorem sound_of_tokens? {line : String} {ts : List Token} (hline : '\n' ∉ line.toList)
    (h : tokens? line = some ts) : ∀ t ∈ ts, t.Sound :=
  Scan.sound_tokens? (s := .gap) trivial hline h

end StackCalc.Source
