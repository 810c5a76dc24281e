/-
  StackCalc.Proofs.Text.Words
  ───────────────────────────
  **THE WORDS OF A TEXT, AND THE TEXTS THAT SPELL A NUMBER.**

  A word stays whole when a text is cut at its blanks:

      words (s ++ " " ++ rest) = s :: words rest

  A text that reads as a number is a word.  A numeral is a sign and a word of letters,
  or a sign, digits, a point, digits, a mark, a sign and digits, and none of these
  characters is a blank, a semicolon or a quote.
-/
import StackCalc.Proofs.Source.Statement

namespace StackCalc

open Source

/-! ## §1. Words. -/

namespace Text

theorem wordsOf_go_append {cs : List Char} (h : ∀ c ∈ cs, WordChar c) (word rest : List Char) :
    wordsOf.go word (cs ++ rest) = wordsOf.go (cs.reverse ++ word) rest := by
  induction cs generalizing word with
  | nil => rfl
  | cons c cs ih =>
    have hblank : ¬ isBlank c = true := by
      simp [(h c List.mem_cons_self).1]
    rw [List.cons_append, wordsOf.go, if_neg hblank,
      ih fun d hd => h d (List.mem_cons_of_mem _ hd), List.reverse_cons, List.append_assoc]
    rfl

theorem wordsOf_close {cs : List Char} (hne : cs ≠ []) (rest : List (List Char)) :
    wordsOf.close (cs.reverse ++ []) rest = cs :: rest := by
  have hempty : ¬ (cs.reverse ++ []).isEmpty = true := by
    simp [hne]
  rw [wordsOf.close, if_neg hempty, List.append_nil, List.reverse_reverse]

/-- A word has itself as its only word. -/
theorem words_word {s : String} (h : IsWord s) : words s = [s] := by
  have hgo := wordsOf_go_append h.2 [] []
  rw [List.append_nil, wordsOf.go, wordsOf_close h.toList_ne_nil] at hgo
  unfold words wordsOf
  rw [hgo, List.map_singleton, String.ofList_toList]

/-- A word and a space put the word before the words of what follows. -/
theorem words_word_space {s : String} (h : IsWord s) (rest : String) :
    words (s ++ " " ++ rest) = s :: words rest := by
  have hspace : isBlank ' ' = true := by decide
  unfold words wordsOf
  rw [String.toList_append, String.toList_append, List.append_assoc, wordsOf_go_append h.2]
  show (wordsOf.go (s.toList.reverse ++ []) (' ' :: rest.toList)).map String.ofList = _
  rw [wordsOf.go, if_pos hspace, wordsOf_close h.toList_ne_nil, List.map_cons,
    String.ofList_toList]

end Text

/-! ## §2. Numerals. -/

namespace Numeral

theorem wordChar_of_mem_sign {cs : List Char} (h : ∀ c ∈ (sign cs).2, WordChar c) :
    ∀ c ∈ cs, WordChar c := by
  unfold sign at h
  split at h
  · exact List.forall_mem_cons.2 ⟨by decide, h⟩
  · exact List.forall_mem_cons.2 ⟨by decide, h⟩
  · exact h

theorem wordChar_of_scale? {cs : List Char} {e : Int} (h : scale? cs = some e) :
    ∀ c ∈ cs, WordChar c := by
  cases cs with
  | nil => exact fun c hc => absurd hc List.not_mem_nil
  | cons c cs =>
    rw [scale?] at h
    split at h
    · next hmark =>
      have hc : WordChar c := by
        rcases hmark with rfl | rfl <;> decide
      simp only at h
      split at h
      · next hdigits =>
        refine List.forall_mem_cons.2 ⟨hc, wordChar_of_mem_sign ?_⟩
        intro d hd
        exact wordChar_of_isDigit (List.all_eq_true.1 hdigits.2 d hd)
      · cases h
    · cases h

/-- Digits come before what follows them. -/
theorem wordChar_of_dropWhile {cs : List Char}
    (h : ∀ c ∈ cs.dropWhile Char.isDigit, WordChar c) : ∀ c ∈ cs, WordChar c := by
  intro c hc
  rw [← List.takeWhile_append_dropWhile (p := Char.isDigit) (l := cs)] at hc
  rcases List.mem_append.1 hc with hc | hc
  · exact wordChar_of_isDigit (List.mem_takeWhile_imp hc)
  · exact h c hc

theorem wordChar_of_fraction {cs : List Char} (h : ∀ c ∈ (fraction cs).2, WordChar c) :
    ∀ c ∈ cs, WordChar c := by
  unfold fraction at h
  split at h
  · exact List.forall_mem_cons.2 ⟨by decide, wordChar_of_dropWhile h⟩
  · exact h

theorem wordChar_of_decimal? {cs : List Char} {d : Decimal} (h : decimal? cs = some d) :
    ∀ c ∈ cs, WordChar c := by
  unfold decimal? at h
  simp only at h
  split at h
  · cases h
  · obtain ⟨e, he, -⟩ := Option.map_eq_some_iff.1 h
    exact wordChar_of_dropWhile (wordChar_of_fraction (wordChar_of_scale? he))

/-- Only a capital letter has another small form, and it can stand in a word. -/
theorem wordChar_of_toLower {c : Char} (h : WordChar c.toLower) : WordChar c := by
  by_cases hupper : c.isUpper = true
  · have hcode : 65 ≤ c.toNat ∧ c.toNat ≤ 90 := by
      simpa [Char.isUpper, UInt32.le_iff_toNat_le] using hupper
    refine ⟨isBlank_eq_false_of_toNat (by omega) (by omega), ?_, ?_⟩
    · rintro rfl
      exact absurd hupper (by decide)
    · rintro rfl
      exact absurd hupper (by decide)
  · rwa [Char.toLower_eq_of_not_isUpper hupper] at h

theorem wordChar_of_map_toLower {cs : List Char} {word : String} (hword : IsWord word)
    (h : cs.map Char.toLower = word.toList) : ∀ c ∈ cs, WordChar c := by
  intro c hc
  apply wordChar_of_toLower
  apply hword.2
  rw [← h]
  exact List.mem_map_of_mem hc

theorem wordChar_of_unsigned? {negative : Bool} {cs : List Char} {x : Numeral}
    (h : unsigned? negative cs = some x) : ∀ c ∈ cs, WordChar c := by
  have hinf : IsWord "inf" := by decide
  have hinfinity : IsWord "infinity" := by decide
  have hnan : IsWord "nan" := by decide
  unfold unsigned? at h
  simp only at h
  split at h
  · next hword =>
    rcases hword with hword | hword
    · exact wordChar_of_map_toLower hinf hword
    · exact wordChar_of_map_toLower hinfinity hword
  · split at h
    · next hword => exact wordChar_of_map_toLower hnan hword
    · obtain ⟨d, hd, -⟩ := Option.map_eq_some_iff.1 h
      exact wordChar_of_decimal? hd

end Numeral

/-- **A text that spells a number is a word.** -/
theorem isWord_of_readNumber? {s : String} {x : Float} (h : readNumber? s = some x) :
    IsWord s := by
  obtain ⟨numeral, hnumeral, -⟩ := Option.map_eq_some_iff.1 h
  refine ⟨?_, Numeral.wordChar_of_mem_sign (Numeral.wordChar_of_unsigned? hnumeral)⟩
  rintro rfl
  cases hnumeral

end StackCalc
