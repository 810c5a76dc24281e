/-
  StackCalc.Proofs.Source.Lexical
  ───────────────────────────────
  **THE LEXICAL GRAMMAR OF A LINE.**

  A line is made of blanks, words and quoted texts, and a comment may end it.  A word is
  as long as it can be, and a quoted text reaches to the first quote that is not escaped
  (`Lexes`).  The scanner finds the tokens of a line if and only if the line is made of
  them:

      tokens? line = some ts   ↔   Lexes line.toList ts
-/
import StackCalc.Proofs.Source.Token

namespace StackCalc.Source

/-! ## §1. The grammar. -/

/-- A character that can stand in a word does not come next. -/
def EndsWord (rest : List Char) : Prop :=
  ∀ c, rest.head? = some c → ¬ WordChar c

/-- The characters of a line and the tokens that they make. -/
inductive Lexes : List Char → List Token → Prop
  | done : Lexes [] []
  /-- A semicolon makes a comment of the rest. -/
  | comment (cs : List Char) : Lexes (';' :: cs) []
  | blank {c : Char} {cs : List Char} {ts : List Token} (hc : Text.isBlank c = true)
      (h : Lexes cs ts) : Lexes (c :: cs) ts
  | word {s : String} {rest : List Char} {ts : List Token} (hs : IsWord s)
      (hend : EndsWord rest) (h : Lexes rest ts) : Lexes (s.toList ++ rest) (.word s :: ts)
  | quoted {body : List Char} {s : String} {rest : List Char} {ts : List Token}
      (hbody : Escaped body s.toList) (h : Lexes rest ts) :
      Lexes ('"' :: (body ++ '"' :: rest)) (.quoted s :: ts)

/-- The words among the tokens are words. -/
theorem Lexes.isWord {cs : List Char} {ts : List Token} (h : Lexes cs ts) {s : String}
    (hs : .word s ∈ ts) : IsWord s := by
  induction h with
  | done => cases hs
  | comment _ => cases hs
  | blank _ _ ih => exact ih hs
  | word hword _ _ ih =>
    rcases List.mem_cons.1 hs with e | hs
    · cases e
      exact hword
    · exact ih hs
  | quoted _ _ ih =>
    rcases List.mem_cons.1 hs with e | hs
    · cases e
    · exact ih hs

/-! ## §2. The scanner finds what is there. -/

/-- A word that cannot go on is complete. -/
theorem Scan.tokens?_word_of_endsWord {rest : List Char} (h : EndsWord rest)
    (read : List Char) :
    tokens? (word read) rest = (tokens? gap rest).map (.ofWord read :: ·) := by
  cases rest with
  | nil => rfl
  | cons c rest =>
    by_cases hblank : Text.isBlank c = true
    · rw [tokens?_word_blank hblank, tokens?_gap_blank hblank]
    · by_cases hsemi : c = ';'
      · rw [tokens?, tokens?, if_neg hblank, if_neg hblank, if_pos hsemi, if_pos hsemi]
        rfl
      · by_cases hquote : c = '"'
        · rw [tokens?, tokens?, if_neg hblank, if_neg hblank, if_neg hsemi, if_neg hsemi,
            if_pos hquote, if_pos hquote]
        · exact absurd ⟨Bool.eq_false_iff.2 hblank, hsemi, hquote⟩ (h c rfl)

theorem Lexes.tokens? {cs : List Char} {ts : List Token} (h : Lexes cs ts) :
    Scan.gap.tokens? cs = some ts := by
  induction h with
  | done => rfl
  | comment cs => rfl
  | blank hc _ ih => rw [Scan.tokens?_gap_blank hc, ih]
  | word hs hend _ ih =>
    rw [Scan.tokens?_gap_append hs.toList_ne_nil hs.2, Scan.tokens?_word_of_endsWord hend, ih,
      ofWord_reverse_toList]
    rfl
  | quoted hbody _ ih =>
    rw [Scan.tokens?, if_neg (by decide), if_neg (by decide), if_pos rfl,
      Scan.tokens?_quoted_append hbody, ih, List.append_nil, ofQuoted_reverse_toList]
    rfl

/-! ## §3. What the scanner finds is there. -/

/-- The rest of a line completes what the scanner is in the middle of, and makes the
tokens. -/
def Scan.Completes : Scan → List Char → List Token → Prop
  | gap, cs, ts => Lexes cs ts
  | word read, cs, ts => ∃ more rest us, cs = more ++ rest ∧ (∀ c ∈ more, WordChar c)
      ∧ EndsWord rest ∧ Lexes rest us ∧ ts = .ofWord (more.reverse ++ read) :: us
  | quoted read, cs, ts => ∃ body text rest us, cs = body ++ '"' :: rest ∧ Escaped body text
      ∧ Lexes rest us ∧ ts = .ofQuoted (text.reverse ++ read) :: us
  | escape read, cs, ts => ∃ c body text rest us, cs = c :: (body ++ '"' :: rest)
      ∧ Escaped body text ∧ Lexes rest us ∧ ts = .ofQuoted (text.reverse ++ c :: read) :: us

namespace Scan

/-- A word that is opened and completed is a word of the line. -/
theorem lexes_of_word {c : Char} {cs : List Char} {ts : List Token} (hc : WordChar c)
    (h : (word [c]).Completes cs ts) : Lexes (c :: cs) ts := by
  obtain ⟨more, rest, us, rfl, hmore, hend, hrest, rfl⟩ := h
  have hword : IsWord (String.ofList (c :: more)) :=
    isWord_ofList (List.cons_ne_nil _ _) (List.forall_mem_cons.2 ⟨hc, hmore⟩)
  have hline := Lexes.word hword hend hrest
  rw [String.toList_ofList] at hline
  rw [Token.ofWord, List.reverse_append, List.reverse_reverse]
  exact hline

/-- A quoted text that is opened and completed is a quoted text of the line. -/
theorem lexes_of_quoted {cs : List Char} {ts : List Token}
    (h : (quoted []).Completes cs ts) : Lexes ('"' :: cs) ts := by
  obtain ⟨body, text, rest, us, rfl, hbody, hrest, rfl⟩ := h
  rw [Token.ofQuoted, List.append_nil, List.reverse_reverse]
  refine .quoted ?_ hrest
  rwa [String.toList_ofList]

/-- What ends a word completes it. -/
theorem completes_of_endsWord {read rest : List Char} {us : List Token} (hend : EndsWord rest)
    (h : Lexes rest us) : (word read).Completes rest (.ofWord read :: us) :=
  ⟨[], rest, us, rfl, fun _ hc => absurd hc List.not_mem_nil, hend, h, rfl⟩

theorem endsWord_cons {c : Char} (h : ¬ WordChar c) (cs : List Char) : EndsWord (c :: cs) := by
  intro d hd
  cases hd
  exact h

/-! One lemma for each state says what the next character does, if the characters after it
complete whatever state it leads to. -/

section Next

variable {c : Char} {cs read : List Char} {ts : List Token}
variable (ih : ∀ {s : Scan} {us : List Token}, s.tokens? cs = some us → s.Completes cs us)

include ih

theorem completes_gap (h : gap.tokens? (c :: cs) = some ts) : gap.Completes (c :: cs) ts := by
  rw [tokens?] at h
  split at h
  · next hblank => exact .blank hblank (ih (s := gap) h)
  · next hblank =>
    split at h
    · next hsemi =>
      cases h
      rw [hsemi]
      exact .comment cs
    · next hsemi =>
      split at h
      · next hquote =>
        rw [hquote]
        exact lexes_of_quoted (ih h)
      · next hquote =>
        exact lexes_of_word ⟨Bool.eq_false_iff.2 hblank, hsemi, hquote⟩ (ih h)

theorem completes_word (h : (word read).tokens? (c :: cs) = some ts) :
    (word read).Completes (c :: cs) ts := by
  rw [tokens?] at h
  split at h
  · next hblank =>
    obtain ⟨us, hus, rfl⟩ := Option.map_eq_some_iff.1 h
    have hend : ¬ WordChar c := fun hc => by simp [hc.1] at hblank
    exact completes_of_endsWord (endsWord_cons hend cs) (.blank hblank (ih (s := gap) hus))
  · next hblank =>
    split at h
    · next hsemi =>
      cases h
      subst hsemi
      exact completes_of_endsWord (endsWord_cons (by decide) cs) (.comment cs)
    · next hsemi =>
      split at h
      · next hquote =>
        obtain ⟨us, hus, rfl⟩ := Option.map_eq_some_iff.1 h
        subst hquote
        exact completes_of_endsWord (endsWord_cons (by decide) cs) (lexes_of_quoted (ih hus))
      · next hquote =>
        -- the word goes on
        obtain ⟨more, rest, us, rfl, hmore, hend, hrest, rfl⟩ := ih h
        refine ⟨c :: more, rest, us, rfl, ?_, hend, hrest, by simp⟩
        exact List.forall_mem_cons.2 ⟨⟨Bool.eq_false_iff.2 hblank, hsemi, hquote⟩, hmore⟩

theorem completes_quoted (h : (quoted read).tokens? (c :: cs) = some ts) :
    (quoted read).Completes (c :: cs) ts := by
  rw [tokens?] at h
  split at h
  · next hquote =>
    obtain ⟨us, hus, rfl⟩ := Option.map_eq_some_iff.1 h
    subst hquote
    exact ⟨[], [], cs, us, rfl, .nil, ih (s := gap) hus, rfl⟩
  · next hquote =>
    split at h
    · next hslash =>
      obtain ⟨d, body, text, rest, us, rfl, hbody, hrest, rfl⟩ := ih h
      subst hslash
      exact ⟨_, _, rest, us, rfl, .escape d hbody, hrest, by simp⟩
    · next hslash =>
      obtain ⟨body, text, rest, us, rfl, hbody, hrest, rfl⟩ := ih h
      exact ⟨_, _, rest, us, rfl, .plain hquote hslash hbody, hrest, by simp⟩

end Next

theorem completes_of_tokens? {s : Scan} {cs : List Char} {ts : List Token}
    (h : s.tokens? cs = some ts) : s.Completes cs ts := by
  -- by induction on the rest of the line
  induction cs generalizing s ts with
  | nil =>
    cases s with
    | gap =>
      cases h
      exact .done
    | word read =>
      cases h
      exact completes_of_endsWord (fun c hc => by cases hc) .done
    -- a quote that stays open gives no tokens at all
    | quoted read => cases h
    | escape read => cases h
  | cons c cs ih =>
    cases s with
    | gap => exact completes_gap ih h
    | word read => exact completes_word ih h
    | quoted read => exact completes_quoted ih h
    | escape read =>
      -- whatever comes after a backslash is read
      rw [tokens?] at h
      obtain ⟨body, text, rest, us, rfl, hbody, hrest, rfl⟩ := ih h
      exact ⟨c, body, text, rest, us, rfl, hbody, hrest, rfl⟩

end Scan

/-- **The scanner finds the tokens that a line is made of.** -/
theorem tokens?_eq_some_iff {line : String} {ts : List Token} :
    tokens? line = some ts ↔ Lexes line.toList ts := by
  constructor
  · intro h
    exact Scan.completes_of_tokens? (s := .gap) h
  · intro h
    exact h.tokens?

end StackCalc.Source
