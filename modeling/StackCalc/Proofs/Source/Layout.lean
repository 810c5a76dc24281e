/-
  StackCalc.Proofs.Source.Layout
  ──────────────────────────────
  **LAYOUT DOES NOT MATTER.**

  What a text describes is decided by what its lines say one by one (`readings`).  Three
  changes of the layout leave that alone, or change it in a way that can be told in
  advance, whether or not the text assembles:

      a return before every line feed       the same readings
      a line of blanks, or a comment        one more reading, of a line that says nothing
      the case of the first word of a line  the same readings, or a report on this word

  A line end takes one carriage return with it, and a return that stays at the end of a
  line is a blank there.  It is inside a quoted text only if this text is open at the end
  of the line, and then there are no tokens with or without it.
-/
import StackCalc.Proofs.Source.FirstError
import StackCalc.Proofs.Source.Grammar
import StackCalc.Proofs.Source.Rendering
import StackCalc.Proofs.Text.Words

namespace StackCalc

open Source

/-! ## §1. What the lines of a text say. -/

namespace Source

/-- What the lines of a text say, one by one. -/
def readings (text : String) : List (Except Cause (Option Statement)) :=
  (Text.lines text).map Statement.ofLine

end Source

/-- Lines that say the same are read alike. -/
theorem Outline.readLines_congr {ls ms : List String}
    (h : ls.map Statement.ofLine = ms.map Statement.ofLine) (o : Outline) (n : Nat) :
    o.readLines n ls = o.readLines n ms := by
  induction ls generalizing ms o n with
  | nil =>
    rw [List.map_nil, eq_comm, List.map_eq_nil_iff] at h
    rw [h]
  | cons l ls ih =>
    obtain ⟨m, ms, rfl, hm, hms⟩ := List.map_eq_cons_iff.1 h.symm
    have hline : o.readLine l = o.readLine m := by
      unfold readLine
      rw [hm]
    rw [readLines, readLines, hline]
    cases o.readLine m with
    | error cause => rfl
    | ok o' => exact ih hms.symm o' (n + 1)

namespace Source

/-- A text may be assembled from any lines that say what its own lines say. -/
theorem assemble_of_readings {t : String} {ls : List String}
    (h : readings t = ls.map Statement.ofLine) :
    assemble t = (Outline.readLines [] 1 ls).map Outline.numbered := by
  rw [assemble_eq, Outline.readLines_congr h]

theorem assemble_congr {t t' : String} (h : readings t = readings t') :
    assemble t = assemble t' := by
  rw [assemble_of_readings h, assemble_eq]

theorem readings_append {s : String} (hs : Text.EndsLine s) (t : String) :
    readings (s ++ t) = readings s ++ readings t := by
  unfold readings
  rw [Text.lines_append hs, List.map_append]

/-! ## §2. A return at the end of a line. -/

/-- A blank at the end of a line changes nothing. -/
theorem Scan.tokens?_concat_blank {c : Char} (hc : Text.isBlank c = true) (s : Scan)
    (cs : List Char) : s.tokens? (cs ++ [c]) = s.tokens? cs := by
  induction cs generalizing s with
  | nil =>
    cases s with
    | gap => exact tokens?_gap_blank hc []
    | word read => exact tokens?_word_blank hc read []
    -- the blank goes into a quoted text that stays open
    | quoted read =>
      have hquote : c ≠ '"' := by
        rintro rfl
        exact absurd hc (by decide)
      have hslash : c ≠ '\\' := by
        rintro rfl
        exact absurd hc (by decide)
      show (if c = '"' then _ else if c = '\\' then _ else tokens? (quoted (c :: read)) []) = none
      rw [if_neg hquote, if_neg hslash]
      rfl
    | escape read => rfl
  | cons d cs ih =>
    rw [List.cons_append]
    cases s <;> simp only [tokens?, ih]

theorem ofLine_concat_blank {c : Char} (hc : Text.isBlank c = true) (cs : List Char) :
    Statement.ofLine (String.ofList (cs ++ [c])) = Statement.ofLine (String.ofList cs) := by
  unfold Statement.ofLine tokens?
  rw [String.toList_ofList, String.toList_ofList, Scan.tokens?_concat_blank hc]

/-- So it does not matter whether a line end takes a return with it. -/
theorem ofLine_dropReturn (line : List Char) :
    Statement.ofLine (String.ofList (Text.dropReturn '\r' line).reverse)
      = Statement.ofLine (String.ofList line.reverse) := by
  cases line with
  | nil => rfl
  | cons c cs =>
    rw [Text.dropReturn]
    split
    · next hc =>
      rw [hc, List.reverse_cons, ofLine_concat_blank (by decide)]
    · rfl

/-- A line says the same at the end of a text and above others. -/
theorem readings_line {l : String} (hl : '\n' ∉ l.toList) (hne : l ≠ "") :
    readings l = [Statement.ofLine l] := by
  have hempty : ¬ (l.toList.reverse ++ []).isEmpty = true := by
    simp [hne]
  have hcut : Text.splitLines.go '\n' '\r' [] (l.toList ++ [])
      = Text.splitLines.go '\n' '\r' (l.toList.reverse ++ []) [] :=
    Text.splitLines_go_append hl [] []
  rw [List.append_nil, Text.splitLines.go, if_neg hempty, List.append_nil,
    List.reverse_reverse] at hcut
  unfold readings Text.lines Text.splitLines
  rw [hcut, List.map_singleton, List.map_singleton, String.ofList_toList]

theorem readings_line_feed {l : String} (hl : '\n' ∉ l.toList) :
    readings (l ++ "\n") = [Statement.ofLine l] := by
  have hcut : Text.splitLines.go '\n' '\r' [] (l.toList ++ ['\n'])
      = Text.splitLines.go '\n' '\r' (l.toList.reverse ++ []) ['\n'] :=
    Text.splitLines_go_append hl [] ['\n']
  rw [Text.splitLines.go, if_pos rfl, List.append_nil] at hcut
  unfold readings Text.lines Text.splitLines
  rw [String.toList_append]
  show ((Text.splitLines.go '\n' '\r' [] (l.toList ++ ['\n'])).map _).map _ = _
  rw [hcut]
  show [Statement.ofLine (String.ofList (Text.dropReturn '\r' l.toList.reverse).reverse)] = _
  rw [ofLine_dropReturn, List.reverse_reverse, String.ofList_toList]

end Source

/-! ## §3. A return before every line feed. -/

/-- A text with a carriage return before every line feed. -/
def Text.withReturns (s : String) : String :=
  String.ofList (s.toList.flatMap fun c => if c = '\n' then ['\r', '\n'] else [c])

namespace Source

theorem map_ofLine_splitLines_go (line xs : List Char) :
    (Text.splitLines.go '\n' '\r' line
        (xs.flatMap fun c => if c = '\n' then ['\r', '\n'] else [c])).map
        (fun l => Statement.ofLine (String.ofList l))
      = (Text.splitLines.go '\n' '\r' line xs).map
          (fun l => Statement.ofLine (String.ofList l)) := by
  induction xs generalizing line with
  | nil => rfl
  | cons x xs ih =>
    rw [List.flatMap_cons]
    by_cases hx : x = '\n'
    · -- the line end takes the new return with it, and leaves one that was there
      rw [if_pos hx, Text.splitLines.go, if_pos hx]
      show Statement.ofLine (String.ofList line.reverse)
        :: List.map _ (Text.splitLines.go '\n' '\r' [] (xs.flatMap _)) = _
      rw [ih [], List.map_cons, ofLine_dropReturn]
    · rw [if_neg hx, List.singleton_append, Text.splitLines.go, if_neg hx, Text.splitLines.go,
        if_neg hx, ih]

/-- **A return before every line feed leaves what the lines say.** -/
theorem readings_withReturns (t : String) : readings (Text.withReturns t) = readings t := by
  unfold readings Text.lines Text.withReturns
  rw [List.map_map, List.map_map, String.toList_ofList]
  exact map_ofLine_splitLines_go [] t.toList

end Source

/-! ## §4. A line that says nothing. -/

namespace Source

/-- An error in a line below the first `n` lines moves down by one. -/
def Error.below (n : Nat) (e : Error) : Error :=
  if n < e.line then { e with line := e.line + 1 } else e

/-- A line of blanks, or of blanks and a comment. -/
def IsVoid (b : String) : Prop :=
  '\n' ∉ b.toList ∧ ∃ gap rest, b.toList = gap ++ rest ∧ IsGap gap ∧ IsComment rest

theorem IsVoid.ofLine_eq {b : String} (h : IsVoid b) : Statement.ofLine b = .ok none := by
  obtain ⟨-, gap, rest, hb, hgap, hrest⟩ := h
  rw [ofLine_eq_none_iff, ← renders_iff_lexes]
  exact ⟨gap, rest, hb, hgap, .comment hrest⟩

/-- A line `b` is put into a text, below the first `n` lines: above other lines, at the end,
or at the end of a text whose last line has no line feed as yet. -/
inductive Inserts (b : String) : Nat → String → String → Prop
  | above {s : String} (hs : Text.EndsLine s) (u : String) :
      Inserts b (Text.lines s).length (s ++ u) (s ++ (b ++ "\n") ++ u)
  | last {s : String} (hs : Text.EndsLine s) (hb : b ≠ "") :
      Inserts b (Text.lines s).length s (s ++ b)
  | afterOpen {s l t : String} (hs : Text.EndsLine s) (hl : '\n' ∉ l.toList) (hne : l ≠ "")
      (h : Inserts b ((Text.lines s).length + 1) (s ++ (l ++ "\n")) t) :
      Inserts b ((Text.lines s).length + 1) (s ++ l) t

end Source

namespace Outline

/-- Errors below the first `k` lines move with the lines. -/
theorem readLines_succ {k n : Nat} (h : k < n) (o : Outline) (ls : List String) :
    o.readLines (n + 1) ls = (o.readLines n ls).mapError (Error.below k) := by
  induction ls generalizing o n with
  | nil => rfl
  | cons l ls ih =>
    rw [readLines, readLines]
    cases o.readLine l with
    | error cause =>
      show _ = Except.error (Error.below k ⟨n, cause⟩)
      rw [Error.below, if_pos h]
    | ok o' => exact ih (Nat.lt_succ_of_lt h) o'

/-- Errors in the first `k` lines stay where they are. -/
theorem mapError_below_readLines {k n : Nat} (o : Outline) {ls : List String}
    (h : n + ls.length ≤ k + 1) :
    (o.readLines n ls).mapError (Error.below k) = o.readLines n ls := by
  cases hls : o.readLines n ls with
  | ok o' => rfl
  | error e =>
    obtain ⟨before, line, after, -, rfl, -, -, hnumber⟩ := readLines_eq_error_iff.1 hls
    rw [List.length_append, List.length_cons] at h
    show Except.error (Error.below k e) = _
    rw [Error.below, if_neg (by omega)]

/-- A line that says nothing moves the lines below it. -/
theorem readLines_insert {b : String} (hb : Statement.ofLine b = .ok none) (ls ms : List String) :
    readLines [] 1 (ls ++ b :: ms)
      = (readLines [] 1 (ls ++ ms)).mapError (Error.below ls.length) := by
  have hnone : ∀ o : Outline, o.readLine b = .ok o := by
    intro o
    unfold readLine
    rw [hb]
    rfl
  have hfirst : (readLines [] 1 ls).mapError (Error.below ls.length) = readLines [] 1 ls :=
    mapError_below_readLines [] (by omega)
  rw [readLines_append, readLines_append]
  cases hls : readLines [] 1 ls with
  | error e =>
    rw [hls] at hfirst
    exact hfirst.symm
  | ok o =>
    show o.readLines (1 + ls.length) (b :: ms) = (o.readLines (1 + ls.length) ms).mapError _
    rw [readLines_cons (hnone o), readLines_succ (k := ls.length) (by omega)]

end Outline

namespace Source

theorem assemble_insert {b t t' : String} (hb : Statement.ofLine b = .ok none)
    (ls ms : List String) (ht : readings t = (ls ++ ms).map Statement.ofLine)
    (ht' : readings t' = (ls ++ b :: ms).map Statement.ofLine) :
    assemble t' = (assemble t).mapError (Error.below ls.length) := by
  rw [assemble_of_readings ht, assemble_of_readings ht', Outline.readLines_insert hb]
  cases Outline.readLines [] 1 (ls ++ ms) <;> rfl

/-- **A line that says nothing moves the errors below it, and does nothing else.** -/
theorem Inserts.assemble_eq {b t t' : String} {n : Nat} (h : Inserts b n t t') (hb : IsVoid b) :
    assemble t' = (assemble t).mapError (Error.below n) := by
  induction h with
  | @above s hs u =>
    have hends : Text.EndsLine (s ++ (b ++ "\n")) := .inr ⟨s ++ b, by rw [String.append_assoc]⟩
    refine assemble_insert hb.ofLine_eq (Text.lines s) (Text.lines u) ?_ ?_
    · rw [readings_append hs, List.map_append]
      rfl
    · rw [readings_append hends, readings_append hs, readings_line_feed hb.1, List.append_assoc,
        List.singleton_append, List.map_append, List.map_cons]
      rfl
  | @last s hs hne =>
    refine assemble_insert hb.ofLine_eq (Text.lines s) [] ?_ ?_
    · rw [List.append_nil]
      rfl
    · rw [readings_append hs, readings_line hb.1 hne, List.map_append, List.map_singleton]
      rfl
  | @afterOpen s l t hs hl hne _ ih =>
    -- a line feed closes the last line first
    have hclosed : assemble (s ++ (l ++ "\n")) = assemble (s ++ l) := by
      apply assemble_congr
      rw [readings_append hs, readings_append hs, readings_line_feed hl, readings_line hl hne]
    rw [ih, hclosed]

end Source

/-! ## §5. The case of the first word. -/

/-- Texts that differ at most in the case of ASCII letters. -/
def Text.SameLetters (s t : String) : Prop :=
  s.toList.map Char.toLower = t.toList.map Char.toLower

namespace Text

/-- A capital ASCII letter is one of twenty-six characters. -/
theorem exists_code_of_isUpper {c : Char} (h : c.isUpper = true) :
    ∃ n, n < 91 ∧ 65 ≤ n ∧ c = Char.ofNat n := by
  have hcode : 65 ≤ c.toNat ∧ c.toNat ≤ 90 := by
    simpa [Char.isUpper, UInt32.le_iff_toNat_le] using h
  exact ⟨c.toNat, by omega, hcode.1, (Char.ofNat_toNat c).symm⟩

theorem capital_toLower (c : Char) : capital c.toLower = capital c := by
  by_cases hupper : c.isUpper = true
  · have hletters : ∀ n < 91, 65 ≤ n →
        capital (Char.ofNat n).toLower = capital (Char.ofNat n) := by
      decide
    obtain ⟨n, hn, hn', rfl⟩ := exists_code_of_isUpper hupper
    exact hletters n hn hn'
  · rw [Char.toLower_eq_of_not_isUpper hupper]

theorem wordChar_toLower {c : Char} (h : WordChar c) : WordChar c.toLower := by
  by_cases hupper : c.isUpper = true
  · have hletters : ∀ n < 91, 65 ≤ n → WordChar (Char.ofNat n).toLower := by
      decide
    obtain ⟨n, hn, hn', rfl⟩ := exists_code_of_isUpper hupper
    exact hletters n hn hn'
  · rwa [Char.toLower_eq_of_not_isUpper hupper]

namespace SameLetters

variable {w w' : String}

theorem append (h : SameLetters w w') (more : String) :
    SameLetters (w ++ more) (w' ++ more) := by
  unfold SameLetters at h ⊢
  rw [String.toList_append, String.toList_append, List.map_append, List.map_append, h]

/-- Words are looked up by their capitals, which do not depend on the case. -/
theorem capitals_eq (h : SameLetters w w') : capitals w' = capitals w := by
  have hlower : ∀ cs : List Char, (cs.map Char.toLower).flatMap capital = cs.flatMap capital := by
    intro cs
    rw [List.flatMap_map]
    simp only [capital_toLower]
  unfold capitals
  rw [← hlower, ← hlower w.toList, h]

theorem isWord (h : SameLetters w w') (hw : IsWord w) : IsWord w' := by
  have hlower : ∀ d ∈ w'.toList.map Char.toLower, WordChar d := by
    rw [← h]
    intro d hd
    obtain ⟨c, hc, rfl⟩ := List.mem_map.1 hd
    exact wordChar_toLower (hw.2 c hc)
  refine ⟨?_, fun c hc => Numeral.wordChar_of_toLower (hlower _ (List.mem_map_of_mem hc))⟩
  rintro rfl
  exact hw.toList_ne_nil (List.map_eq_nil_iff.1 h)

end SameLetters

end Text

namespace Source

/-- The word that a line begins with, or a first part of it, is written in another case. -/
inductive Recased : String → String → Prop
  | intro {s gap w w' : String} (hs : Text.EndsLine s) (hgap : IsGap gap.toList)
      (hline : '\n' ∉ gap.toList) (hw : IsWord w) (h : Text.SameLetters w w') (u : String) :
      Recased (s ++ (gap ++ w ++ u)) (s ++ (gap ++ w' ++ u))

/-- The same reading, or reports that both times the first word is unknown. -/
def Respelled (r r' : Except Cause (Option Statement)) : Prop :=
  r' = r ∨ ∃ v v', r = .error (.unknownInstruction v) ∧ r' = .error (.unknownInstruction v')
    ∧ Text.SameLetters v v'

theorem respelled_ofTokens {w w' : String} (h : Text.SameLetters w w') (ts : List Token) :
    Respelled (Statement.ofTokens (.word w :: ts)) (Statement.ofTokens (.word w' :: ts)) := by
  rw [Statement.ofTokens, Statement.ofTokens, h.capitals_eq]
  split
  · exact .inl rfl
  · cases Opcode.ofMnemonic? (Text.capitals w) with
    | none => exact .inr ⟨w, w', rfl, rfl, h⟩
    | some o => exact .inl rfl

/-- Blanks in front of a line change nothing. -/
theorem Scan.tokens?_of_gap {gap : List Char} (hgap : IsGap gap) (cs : List Char) :
    tokens? .gap (gap ++ cs) = tokens? .gap cs := by
  induction gap with
  | nil => rfl
  | cons c gap ih =>
    have hc : Text.isBlank c = true := hgap c List.mem_cons_self
    have hrest : IsGap gap := fun d hd => hgap d (List.mem_cons_of_mem c hd)
    rw [List.cons_append, tokens?_gap_blank hc, ih hrest]

/-- What follows the first word of a line may go on with this word, and has the other tokens. -/
theorem exists_first_word (x : String) :
    ∃ (more : String) (o : Option (List Token)), ∀ gap w : String, IsGap gap.toList → IsWord w →
      tokens? (gap ++ w ++ x) = o.map (.word (w ++ more) :: ·) := by
  let more := x.toList.takeWhile fun c => WordChar c
  let rest := x.toList.dropWhile fun c => WordChar c
  have hx : x.toList = more ++ rest := List.takeWhile_append_dropWhile.symm
  have hmore : ∀ c ∈ more, WordChar c := fun c hc => by simpa using List.mem_takeWhile_imp hc
  have hrest : EndsWord rest := by
    intro c hc hword
    have hnot := List.head?_dropWhile_not (fun c => decide (WordChar c)) x.toList
    rw [hc] at hnot
    simp [hword] at hnot
  refine ⟨String.ofList more, Scan.gap.tokens? rest, ?_⟩
  intro gap w hgap hw
  have hne : w.toList ++ more ≠ [] := List.append_ne_nil_of_left_ne_nil hw.toList_ne_nil _
  have hword : ∀ c ∈ w.toList ++ more, WordChar c := by
    intro c hc
    rcases List.mem_append.1 hc with hc | hc
    · exact hw.2 c hc
    · exact hmore c hc
  unfold tokens?
  rw [String.toList_append, String.toList_append, List.append_assoc, Scan.tokens?_of_gap hgap, hx,
    ← List.append_assoc, Scan.tokens?_gap_append hne hword, Scan.tokens?_word_of_endsWord hrest,
    Token.ofWord, List.reverse_reverse, String.ofList_append, String.ofList_toList]

theorem respelled_ofLine {gap w w' : String} (hgap : IsGap gap.toList) (hw : IsWord w)
    (h : Text.SameLetters w w') (x : String) :
    Respelled (Statement.ofLine (gap ++ w ++ x)) (Statement.ofLine (gap ++ w' ++ x)) := by
  obtain ⟨more, o, hfirst⟩ := exists_first_word x
  unfold Statement.ofLine
  rw [hfirst gap w hgap hw, hfirst gap w' hgap (h.isWord hw)]
  cases o with
  | none => exact .inl rfl
  | some ts => exact respelled_ofTokens (h.append more) ts

/-- What follows the start of a line has the rest of it, and the other lines. -/
theorem exists_first_line (u : String) :
    ∃ x later, ∀ l : String, '\n' ∉ l.toList → l ≠ "" →
      readings (l ++ u) = ((l ++ x) :: later).map Statement.ofLine := by
  by_cases hu : '\n' ∈ u.toList
  · -- the line ends at the first line feed
    obtain ⟨cs, ds, hsplit, hcs⟩ := List.eq_append_cons_of_mem hu
    refine ⟨String.ofList cs, Text.lines (String.ofList ds), ?_⟩
    intro l hl _
    have htext : l ++ u = l ++ String.ofList cs ++ "\n" ++ String.ofList ds := by
      apply String.toList_injective
      simp [hsplit]
    have hline : '\n' ∉ (l ++ String.ofList cs).toList := by
      rw [String.toList_append, String.toList_ofList, List.mem_append]
      exact not_or.2 ⟨hl, hcs⟩
    rw [htext, readings_append (.inr ⟨_, rfl⟩), readings_line_feed hline, List.singleton_append,
      List.map_cons]
    rfl
  · refine ⟨u, [], ?_⟩
    intro l hl hne
    have hline : '\n' ∉ (l ++ u).toList := by
      rw [String.toList_append, List.mem_append]
      exact not_or.2 ⟨hl, hu⟩
    exact readings_line hline fun e => hne (String.append_eq_empty_iff.1 e).1

end Source

/-- Where one line is respelled, the reading is the same or stops at this line. -/
theorem Outline.readLines_respelled {l l' : String}
    (h : Respelled (Statement.ofLine l) (Statement.ofLine l')) (o : Outline) (n : Nat)
    (ls ms : List String) :
    o.readLines n (ls ++ l' :: ms) = o.readLines n (ls ++ l :: ms)
      ∨ ∃ line v v', o.readLines n (ls ++ l :: ms) = .error ⟨line, .unknownInstruction v⟩
          ∧ o.readLines n (ls ++ l' :: ms) = .error ⟨line, .unknownInstruction v'⟩
          ∧ Text.SameLetters v v' := by
  rcases h with hsame | ⟨v, v', hl, hl', hletters⟩
  · refine .inl (readLines_congr ?_ o n)
    rw [List.map_append, List.map_append, List.map_cons, List.map_cons, hsame]
  · rw [readLines_append, readLines_append]
    cases o.readLines n ls with
    | error e => exact .inl rfl
    | ok o' =>
      have hstop : ∀ {k : String} {cause : Cause}, Statement.ofLine k = .error cause →
          o'.readLines (n + ls.length) (k :: ms) = .error ⟨n + ls.length, cause⟩ := by
        intro k cause hk
        rw [readLines, readLine, hk]
      exact .inr ⟨n + ls.length, v, v', hstop hl, hstop hl', hletters⟩

namespace Source

/-- **The case of the word that a line begins with matters only to a report that the word is
unknown.** -/
theorem Recased.assemble {t t' : String} (h : Recased t t') :
    assemble t' = assemble t
      ∨ ∃ line v v', assemble t = .error ⟨line, .unknownInstruction v⟩
          ∧ assemble t' = .error ⟨line, .unknownInstruction v'⟩ ∧ Text.SameLetters v v' := by
  cases h with
  | @intro s gap w w' hs hgap hfeed hw hletters u =>
    obtain ⟨x, later, hfirst⟩ := exists_first_line u
    have hlines : ∀ v, IsWord v → readings (s ++ (gap ++ v ++ u))
        = (Text.lines s ++ (gap ++ v ++ x) :: later).map Statement.ofLine := by
      intro v hv
      have hfeed' : '\n' ∉ (gap ++ v).toList := by
        rw [String.toList_append, List.mem_append]
        exact not_or.2 ⟨hfeed, hv.feed_notMem⟩
      have hne : gap ++ v ≠ "" := fun e => hv.1 (String.append_eq_empty_iff.1 e).2
      rw [readings_append hs, hfirst (gap ++ v) hfeed' hne, List.map_append]
      rfl
    rw [assemble_of_readings (hlines w hw), assemble_of_readings (hlines w' (hletters.isWord hw))]
    have hline := respelled_ofLine hgap hw hletters x
    rcases Outline.readLines_respelled hline [] 1 (Text.lines s) later
      with hsame | ⟨line, v, v', hv, hv', hspelled⟩
    · rw [hsame]
      exact .inl rfl
    · rw [hv, hv']
      exact .inr ⟨line, v, v', rfl, rfl, hspelled⟩

/-- **Layout does not matter.**  For every text, a carriage return before every line feed
changes nothing.  A line of blanks or a comment that is put in moves an error below it by one
line, and changes nothing else.  The case of the word that a line begins with changes at most
the spelling in a report that this word is unknown. -/
theorem layout_does_not_matter (t : String) :
    assemble (Text.withReturns t) = assemble t
      ∧ (∀ b n t', IsVoid b → Inserts b n t t' →
          assemble t' = (assemble t).mapError (Error.below n))
      ∧ ∀ t', Recased t t' → assemble t' = assemble t
          ∨ ∃ line v v', assemble t = .error ⟨line, .unknownInstruction v⟩
              ∧ assemble t' = .error ⟨line, .unknownInstruction v'⟩ ∧ Text.SameLetters v v' :=
  ⟨assemble_congr (readings_withReturns t), fun _ _ _ hb h => h.assemble_eq hb,
    fun _ h => h.assemble⟩

/-- The third line begins with an unknown word.  A comment above it moves the report, and a
line below it does not. -/
theorem layout_does_not_matter_unknownWord :
    assemble (Text.withReturns "FUNC f\r\n DUP\n jump 2")
        = .error ⟨3, .unknownInstruction "jump"⟩
      ∧ assemble "FUNC f\r\n DUP\n\t; \"\n jump 2" = .error ⟨4, .unknownInstruction "jump"⟩
      ∧ assemble "FUNC f\r\n DUP\n jump 2\n " = .error ⟨3, .unknownInstruction "jump"⟩
      ∧ ∃ v, assemble "FUNC f\r\n DUP\n Jump 2" = .error ⟨3, .unknownInstruction v⟩
          ∧ Text.SameLetters "jump" v := by
  have ht : assemble "FUNC f\r\n DUP\n jump 2" = .error ⟨3, .unknownInstruction "jump"⟩ := by
    rw [assemble_eq]
    rfl
  have hends : Text.EndsLine "FUNC f\r\n DUP\n" := .inr ⟨"FUNC f\r\n DUP", rfl⟩
  have hcomment : IsVoid "\t; \"" :=
    ⟨by decide, ['\t'], [';', ' ', '"'], rfl, by simp [IsGap, Text.isBlank], .inr ⟨_, rfl⟩⟩
  have hblank : IsVoid " " := ⟨by decide, [' '], [], rfl, by simp [IsGap, Text.isBlank], .inl rfl⟩
  obtain ⟨hreturns, hinserts, hcase⟩ := layout_does_not_matter "FUNC f\r\n DUP\n jump 2"
  rw [ht] at hreturns hinserts hcase
  refine ⟨hreturns, ?_, ?_, ?_⟩
  · exact hinserts "\t; \"" 2 _ hcomment (.above hends " jump 2")
  · exact hinserts " " 3 _ hblank (.afterOpen hends (l := " jump 2") (by decide) (by decide)
      (.last (.inr ⟨"FUNC f\r\n DUP\n jump 2", rfl⟩) (by decide)))
  · have hcapital : Recased "FUNC f\r\n DUP\n jump 2" "FUNC f\r\n DUP\n Jump 2" :=
      @Recased.intro _ " " "jump" "Jump" hends (by simp [IsGap, Text.isBlank]) (by decide)
        (by decide) rfl " 2"
    rcases hcase _ hcapital with hsame | ⟨line, v, v', hv, hv', hletters⟩
    · exact ⟨"jump", hsame, rfl⟩
    · cases hv
      exact ⟨v', hv', hletters⟩

end Source

end StackCalc
