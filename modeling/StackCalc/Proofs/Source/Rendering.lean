/-
  StackCalc.Proofs.Source.Rendering
  ─────────────────────────────────
  **THE WAYS TO WRITE TOKENS ON A LINE.**

  Tokens are written with blanks before, between and after them: at least one between
  two words, which would run together without it, and any number elsewhere.  A comment
  may follow.  A word is written as it is.  A quoted text stands between quotes, each of
  its characters alone or after a backslash; a quote and a backslash need the backslash.

      tokens? line = some ts   ↔   Renders ts line.toList

  So the scanner undoes every such way to write, and a line that is no rendering at all
  is the one kind of line it gives up on: a quoted text is open at its end.
-/
import StackCalc.Proofs.Source.Lexical
import StackCalc.Source.Assembly

namespace StackCalc.Source

/-! ## §1. Renderings. -/

/-- The ways to write a token. -/
inductive Token.Written : Token → List Char → Prop
  | word {s : String} (hs : IsWord s) : Written (.word s) s.toList
  | quoted {s : String} {body : List Char} (hbody : Escaped body s.toList) :
      Written (.quoted s) ('"' :: (body ++ ['"']))

/-- Two words run together if no blank is between them. -/
def Token.RunsInto : Token → Token → Prop
  | .word _, .word _ => True
  | _, _ => False

/-- A run of blanks, which may be empty. -/
def IsGap (cs : List Char) : Prop :=
  ∀ c ∈ cs, Text.isBlank c = true

/-- Nothing, or a semicolon and whatever follows it. -/
def IsComment (cs : List Char) : Prop :=
  cs = [] ∨ ∃ rest, cs = ';' :: rest

/-- A rendering from its first token on: after each token comes a gap, and after the last
gap a comment. -/
inductive Shows : List Token → List Char → Prop
  | comment {cs : List Char} (hcs : IsComment cs) : Shows [] cs
  | token {t : Token} {written gap rest : List Char} {ts : List Token}
      (ht : t.Written written) (hgap : IsGap gap)
      (hapart : gap = [] → ∀ u, ts.head? = some u → ¬ t.RunsInto u) (h : Shows ts rest) :
      Shows (t :: ts) (written ++ (gap ++ rest))

/-- A rendering of tokens: a gap comes before the first of them. -/
def Renders (ts : List Token) (cs : List Char) : Prop :=
  ∃ gap rest, cs = gap ++ rest ∧ IsGap gap ∧ Shows ts rest

theorem isGap_nil : IsGap [] := by
  intro c hc
  exact absurd hc List.not_mem_nil

theorem IsGap.cons {c : Char} {gap : List Char} (hc : Text.isBlank c = true) (h : IsGap gap) :
    IsGap (c :: gap) :=
  List.forall_mem_cons.2 ⟨hc, h⟩

/-! ## §2. A rendering is made of its tokens. -/

/-- Blanks in front change nothing. -/
theorem Lexes.of_gap {gap cs : List Char} {ts : List Token} (hgap : IsGap gap)
    (h : Lexes cs ts) : Lexes (gap ++ cs) ts := by
  induction gap with
  | nil => exact h
  | cons c gap ih =>
    have hc : Text.isBlank c = true := hgap c List.mem_cons_self
    have hrest : IsGap gap := fun d hd => hgap d (List.mem_cons_of_mem c hd)
    exact .blank hc (ih hrest)

/-- Unless a word comes first, a rendering does not begin in the middle of one. -/
theorem Shows.endsWord {ts : List Token} {cs : List Char} (h : Shows ts cs) (s : String)
    (hfirst : ∀ u, ts.head? = some u → ¬ (Token.word s).RunsInto u) : EndsWord cs := by
  cases h with
  | comment hcs =>
    rcases hcs with rfl | ⟨rest, rfl⟩
    · intro c hc
      cases hc
    · exact Scan.endsWord_cons (by decide) rest
  | token ht _ _ _ =>
    cases ht with
    | word hs => exact absurd trivial (hfirst _ rfl)
    | quoted hbody => exact Scan.endsWord_cons (by decide) _

/-- What follows a word ends it: a blank, or something that is no word. -/
theorem Shows.endsWord_gap {ts : List Token} {gap rest : List Char} (h : Shows ts rest)
    (s : String) (hgap : IsGap gap)
    (hapart : gap = [] → ∀ u, ts.head? = some u → ¬ (Token.word s).RunsInto u) :
    EndsWord (gap ++ rest) := by
  cases gap with
  | nil => exact h.endsWord s (hapart rfl)
  | cons c gap =>
    have hblank : Text.isBlank c = true := hgap c List.mem_cons_self
    have hend : ¬ WordChar c := by
      intro hc
      simp [hc.1] at hblank
    exact Scan.endsWord_cons hend _

theorem Shows.lexes {ts : List Token} {cs : List Char} (h : Shows ts cs) : Lexes cs ts := by
  induction h with
  | comment hcs =>
    rcases hcs with rfl | ⟨rest, rfl⟩
    · exact .done
    · exact .comment rest
  | @token t written gap rest ts ht hgap hapart hrest ih =>
    have htail : Lexes (gap ++ rest) ts := ih.of_gap hgap
    cases ht with
    | @word s hs => exact .word hs (hrest.endsWord_gap s hgap hapart) htail
    | @quoted s body hbody =>
      -- the closing quote stands between the body and what follows the token
      show Lexes ('"' :: ((body ++ ['"']) ++ (gap ++ rest))) _
      rw [List.append_assoc, List.singleton_append]
      exact .quoted hbody htail

/-! ## §3. What is made of tokens renders them. -/

/-- A rendering that begins with a word does not end the word before it. -/
theorem Shows.not_endsWord {s : String} {ts : List Token} {cs : List Char}
    (h : Shows (.word s :: ts) cs) : ¬ EndsWord cs := by
  intro hend
  cases h with
  | @token _ written gap rest _ ht _ _ _ =>
    cases ht with
    | word hs =>
      cases hcs : s.toList with
      | nil => exact hs.toList_ne_nil hcs
      | cons c cs =>
        have hc : WordChar c := by
          apply hs.2
          rw [hcs]
          exact List.mem_cons_self
        rw [hcs] at hend
        exact hend c rfl hc

theorem Lexes.renders {cs : List Char} {ts : List Token} (h : Lexes cs ts) : Renders ts cs := by
  induction h with
  | done => exact ⟨[], [], rfl, isGap_nil, .comment (.inl rfl)⟩
  | comment cs => exact ⟨[], _, rfl, isGap_nil, .comment (.inr ⟨cs, rfl⟩)⟩
  | @blank c cs ts hc _ ih =>
    obtain ⟨gap, rest, rfl, hgap, hrest⟩ := ih
    exact ⟨c :: gap, rest, rfl, hgap.cons hc, hrest⟩
  | @word s rest ts hs hend _ ih =>
    obtain ⟨gap, rest, rfl, hgap, hrest⟩ := ih
    refine ⟨[], _, rfl, isGap_nil, .token (.word hs) hgap ?_ hrest⟩
    -- a word that came next without a gap would have gone on with this one
    intro hempty u hu hruns
    subst hempty
    cases u with
    | quoted q => exact hruns
    | word w =>
      obtain ⟨us, rfl⟩ := List.head?_eq_some_iff.1 hu
      exact hrest.not_endsWord hend
  | @quoted body s rest ts hbody _ ih =>
    obtain ⟨gap, rest, rfl, hgap, hrest⟩ := ih
    have hapart : gap = [] → ∀ u, ts.head? = some u → ¬ (Token.quoted s).RunsInto u := by
      intro _ u _ hruns
      exact hruns
    refine ⟨[], _, ?_, isGap_nil, .token (.quoted hbody) hgap hapart hrest⟩
    simp

/-- **The renderings of tokens are the lines that are made of them.** -/
theorem renders_iff_lexes {ts : List Token} {cs : List Char} : Renders ts cs ↔ Lexes cs ts := by
  constructor
  · intro h
    obtain ⟨gap, rest, rfl, hgap, hrest⟩ := h
    exact hrest.lexes.of_gap hgap
  · intro h
    exact h.renders

/-! ## §4. Lines. -/

theorem readLines_of_tokens?_eq_none {line : String} (h : tokens? line = none) (d : Draft)
    (n : Nat) (later : List String) :
    d.readLines n (line :: later) = .error ⟨n, .unterminatedString⟩ := by
  have hline : d.readLine line = .error .unterminatedString := by
    unfold Draft.readLine Statement.ofLine
    rw [h]
  rw [Draft.readLines, hline]

/-- **The scanner undoes rendering**: it finds the tokens `ts` in the renderings of `ts` and
in no other line, and a line that renders no tokens at all is reported, with its number, as
one with a quoted text that is open at its end. -/
theorem scanner_undoes_rendering (line : String) :
    (∀ ts, tokens? line = some ts ↔ Renders ts line.toList)
      ∧ ((∀ ts, ¬ Renders ts line.toList) → tokens? line = none
          ∧ ∀ (d : Draft) (n : Nat) (later : List String),
              d.readLines n (line :: later) = .error ⟨n, .unterminatedString⟩) := by
  have hexact : ∀ ts, tokens? line = some ts ↔ Renders ts line.toList := by
    intro ts
    rw [tokens?_eq_some_iff, renders_iff_lexes]
  refine ⟨hexact, ?_⟩
  intro hnone
  have hopen : tokens? line = none := by
    rw [Option.eq_none_iff_forall_ne_some]
    intro ts hts
    exact hnone ts ((hexact ts).1 hts)
  exact ⟨hopen, readLines_of_tokens?_eq_none hopen⟩

/-- A quote touches a word and a semicolon stands inside it; a backslash at the end of a line
leaves the quote open. -/
theorem scanner_undoes_rendering_touchingQuote :
    Renders [.word "INPUT", .quoted "a\";b"] "INPUT\"a\\\";\\b\";c".toList
      ∧ (∀ ts, ¬ Renders ts "INPUT \"a\\".toList)
      ∧ Draft.readLines {} 7 ["INPUT \"a\\"] = .error ⟨7, .unterminatedString⟩ := by
  have hnone : ∀ ts, ¬ Renders ts "INPUT \"a\\".toList := by
    intro ts hts
    have hsome := ((scanner_undoes_rendering "INPUT \"a\\").1 ts).2 hts
    have hopen : tokens? "INPUT \"a\\" = none := by decide
    rw [hopen] at hsome
    cases hsome
  refine ⟨?_, hnone, ?_⟩
  · exact ((scanner_undoes_rendering "INPUT\"a\\\";\\b\";c").1 _).1 (by decide)
  · exact ((scanner_undoes_rendering "INPUT \"a\\").2 hnone).2 {} 7 []

end StackCalc.Source
