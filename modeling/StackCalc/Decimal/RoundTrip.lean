/-
  StackCalc.Decimal.RoundTrip
  ───────────────────────────
  **WHAT IS WRITTEN READS BACK.**

      readNumber? (writeNumber x) = some x

  for every number `x`, the infinities, both zeros and the value that is no number
  included.  There are three steps: a decimal that the search finds has the code it
  was searched for, by the test that the search makes, and the exact value has it
  because rounding leaves a magnitude alone; the positional form of a decimal reads
  as a decimal with the same code; and the sign goes through unchanged.
-/
import Mathlib
import StackCalc.Decimal.Pattern
import StackCalc.Decimal.Shortest

namespace StackCalc

/-! ## §1. Rounding leaves a magnitude alone. -/

namespace Binary64

theorem binade_eq : binade = 4503599627370496 := by
  decide

/-- A quotient without remainder is not rounded. -/
theorem roundQuotient_mul (q : Nat) {d : Nat} (pos : 0 < d) : roundQuotient (q * d) d = q := by
  simp [roundQuotient, Nat.mul_div_cancel q pos, pos]

/-- A code as an exponent and a mantissa, and its magnitude in their terms. -/
theorem exists_units_eq (c : Nat) :
    ∃ t m, c = t * binade + m ∧ m < 2 * binade ∧ (t = 0 ∨ binade ≤ m)
      ∧ units c = m * 2 ^ t := by
  refine ⟨c / binade - 1, c - (c / binade - 1) * binade, ?_, ?_, ?_, rfl⟩ <;>
    rw [binade_eq] <;> omega

/-- Only the code zero has the magnitude zero. -/
theorem units_pos {c : Nat} (pos : 0 < c) : 0 < units c := by
  obtain ⟨t, m, rfl, _, low, eq⟩ := exists_units_eq c
  rw [eq]
  refine Nat.mul_pos ?_ (Nat.two_pow_pos t)
  rw [binade_eq] at *
  omega

/-- The logarithm of a magnitude gives its exponent. -/
theorem log2_mul_two_pow_sub {t m : Nat} (high : m < 2 * binade) (low : t = 0 ∨ binade ≤ m) :
    (m * 2 ^ t).log2 - 52 = t := by
  rw [binade_eq] at high low
  rcases low with rfl | low
  · rcases Nat.eq_zero_or_pos m with rfl | pos
    · decide
    · have := (Nat.log2_lt (Nat.ne_of_gt pos)).2 (show m < 2 ^ 53 by omega)
      rw [Nat.pow_zero, Nat.mul_one]
      omega
  · have scale := Nat.two_pow_pos t
    have lower : 2 ^ (t + 52) ≤ m * 2 ^ t := by
      rw [Nat.pow_add, Nat.mul_comm]
      exact Nat.mul_le_mul_right _ low
    have upper : m * 2 ^ t < 2 ^ (t + 52 + 1) := by
      rw [Nat.add_assoc, Nat.pow_add, Nat.mul_comm (2 ^ t)]
      exact Nat.mul_lt_mul_of_pos_right high scale
    have full : (m * 2 ^ t).log2 = t + 52 :=
      (Nat.log2_eq_iff (Nat.ne_of_gt (Nat.mul_pos (by omega) scale))).2 ⟨lower, upper⟩
    omega

/-- Rounding finds the code whose magnitude is the quotient. -/
theorem nearest_units_mul {c d : Nat} (finite : c < infinity) (pos : 0 < d) :
    nearest (units c * d) d = c := by
  obtain ⟨t, m, rfl, high, low, eq⟩ := exists_units_eq c
  have exponent : (units (t * binade + m) * d / d).log2 - 52 = t := by
    rw [Nat.mul_div_cancel _ pos, eq, log2_mul_two_pow_sub high low]
  have rounded : roundQuotient (units (t * binade + m) * d) (d * Nat.pow 2 t) = m := by
    rw [eq, Nat.mul_assoc, Nat.mul_comm (2 ^ t) d]
    exact roundQuotient_mul m (Nat.mul_pos pos (Nat.two_pow_pos t))
  simp only [nearest, exponent, rounded]
  exact Nat.min_eq_right (Nat.le_of_lt finite)

end Binary64

/-! ## §2. The shortest decimal has the code it was searched for. -/

namespace Decimal

open Binary64

/-- The code of a multiple of a power of five: since 5ᵏ ≥ 4ᵏ, it is not settled by
the size of the coefficient. -/
theorem code_mul_five_pow {n k : Nat} (pos : 0 < n) (small : k < places) :
    code ⟨n * Nat.pow 5 (k + 1), .negSucc k⟩
      = nearest (n * Nat.pow 5 (k + 1) * one) (Nat.pow 10 (k + 1)) := by
  have power : 2 ^ (2 * (k + 1)) ≤ n * Nat.pow 5 (k + 1) :=
    calc 2 ^ (2 * (k + 1)) = 4 ^ (k + 1) := Nat.pow_mul 2 2 (k + 1)
      _ ≤ 5 ^ (k + 1) := Nat.pow_le_pow_left (by decide) (k + 1)
      _ ≤ n * 5 ^ (k + 1) := Nat.le_mul_of_pos_left _ pos
  have nonzero := Nat.ne_of_gt (Nat.lt_of_lt_of_le (Nat.two_pow_pos _) power)
  have large := (Nat.le_log2 nonzero).2 power
  simp only [code, if_neg nonzero]
  exact if_neg (by omega)

/-- The exact value of a magnitude reads back. -/
theorem code_exact {c : Nat} (pos : 0 < c) (finite : c < infinity) : (exact c).code = c := by
  obtain ⟨k, last⟩ : ∃ k, places = k + 1 := ⟨1073, rfl⟩
  have tens : Nat.pow 5 (k + 1) * Nat.pow 2 (k + 1) = Nat.pow 10 (k + 1) :=
    (Nat.mul_pow 5 2 (k + 1)).symm
  have unit : one = Nat.pow 2 (k + 1) := by
    rw [← last]
    delta one
    rfl
  rw [exact, last]
  refine (code_mul_five_pow (units_pos pos) (by omega)).trans ?_
  rw [unit, Nat.mul_assoc, tens]
  exact nearest_units_mul finite (Nat.pow_pos (by decide))

/-- A neighbour that is found reads back. -/
theorem code_of_neighbour? {c : Nat} {g : Int} {d : Decimal} (h : neighbour? c g = some d) :
    d.code = c := by
  simp only [neighbour?] at h
  split at h
  · rename_i reads
    obtain rfl := Option.some.inj h
    exact reads.1
  · split at h
    · rename_i reads
      obtain rfl := Option.some.inj h
      exact reads
    · contradiction

/-- What the search finds reads back. -/
theorem code_of_search {c : Nat} {d : Decimal} {n : Nat} {g : Int}
    (h : search c n g = some d) : d.code = c := by
  induction n generalizing g with
  | zero => contradiction
  | succ n ih =>
    rcases Option.or_eq_some_iff.1 h with found | ⟨_, later⟩
    · exact code_of_neighbour? found
    · exact ih later

/-- The shortest decimal reads back. -/
theorem code_shortest {c : Nat} (pos : 0 < c) (finite : c < infinity) :
    (shortest c).code = c := by
  unfold shortest
  cases found : search c 24 (coarsest c) with
  | none => exact code_exact pos finite
  | some d => exact code_of_search found

/-- The code of a decimal without places after the point that is not settled by its
exponent. -/
theorem code_ofNat {n k : Nat} (nonzero : n ≠ 0) (near : k ≤ 400) :
    code ⟨n, .ofNat k⟩ = nearest (n * Nat.pow 10 k * one) 1 := by
  simp only [code, if_neg nonzero, if_neg (Nat.not_lt.2 near)]

/-- A power of ten that leaves a decimal finite may be moved into its
coefficient. -/
theorem code_mul_ten_pow {n k : Nat} (finite : code ⟨n, .ofNat k⟩ < infinity) :
    code ⟨n * 10 ^ k, .ofNat 0⟩ = code ⟨n, .ofNat k⟩ := by
  by_cases zero : n = 0
  · simp [code, zero]
  · have scaled : n * 10 ^ k ≠ 0 := Nat.mul_ne_zero zero (Nat.ne_of_gt (Nat.pow_pos (by decide)))
    have near : k ≤ 400 := by
      refine Nat.not_lt.1 fun far => ?_
      simp [code, zero, far] at finite
    rw [code_ofNat scaled (by decide), code_ofNat zero near, Nat.pow_eq, Nat.pow_eq,
      Nat.pow_zero, Nat.mul_one]

/-! ## §3. The positional form of a decimal. -/

theorem isDigit_of_mem_toDigits {n : Nat} : ∀ c ∈ Nat.toDigits 10 n, c.isDigit := fun _ h =>
  Nat.isDigit_of_mem_toDigits (by decide) (by decide) h

theorem isDigit_of_mem_replicate {k : Nat} : ∀ c ∈ List.replicate k '0', c.isDigit := by
  simp +contextual [List.mem_replicate]

/-- With places after the point, the positional form has digits on both sides of
it, which together write the coefficient. -/
theorem positional_negSucc (n k : Nat) :
    ∃ whole part, (⟨n, .negSucc k⟩ : Decimal).positional = whole ++ '.' :: part
      ∧ whole ≠ [] ∧ part.length = k + 1 ∧ (∀ c ∈ whole ++ part, c.isDigit)
      ∧ Nat.ofDigitChars 10 (whole ++ part) 0 = n := by
  let digits := Nat.toDigits 10 n
  let padded := List.replicate (k + 2 - digits.length) '0' ++ digits
  have length : k + 2 ≤ padded.length := by
    simp only [padded, List.length_append, List.length_replicate]
    omega
  refine ⟨padded.take (padded.length - (k + 1)), padded.drop (padded.length - (k + 1)),
    rfl, ?_, ?_, ?_, ?_⟩
  · intro empty
    have := congrArg List.length empty
    simp only [List.length_take, List.length_nil] at this
    omega
  · rw [List.length_drop]
    omega
  · rw [List.take_append_drop]
    exact List.forall_mem_append.2 ⟨isDigit_of_mem_replicate, isDigit_of_mem_toDigits⟩
  · rw [List.take_append_drop, Nat.ofDigitChars_append, Nat.ofDigitChars_replicate_zero,
      Nat.mul_zero]
    exact Nat.ofDigitChars_ten_toDigits

/-- The positional form starts with a digit. -/
theorem positional_eq_cons (d : Decimal) :
    ∃ c cs, d.positional = c :: cs ∧ c.isDigit := by
  obtain ⟨n, k | k⟩ := d
  · cases eq : Nat.toDigits 10 n with
    | nil => exact absurd eq Nat.toDigits_ne_nil
    | cons c cs =>
      have first : c ∈ Nat.toDigits 10 n := by simp [eq]
      refine ⟨c, cs ++ List.replicate k '0', ?_, isDigit_of_mem_toDigits c first⟩
      simp only [positional, eq, List.cons_append]
  · obtain ⟨whole, part, eq, nonempty, _, digits, _⟩ := positional_negSucc n k
    cases whole with
    | nil => contradiction
    | cons c cs => exact ⟨c, cs ++ '.' :: part, eq, digits c (by simp)⟩

end Decimal

/-! ## §4. Reading the positional form. -/

namespace Numeral

/-- Reading digits stops where they stop. -/
theorem span_digits {ds : List Char} (digits : ∀ c ∈ ds, c.isDigit) (rest : List Char)
    (stop : ∀ c, rest.head? = some c → c.isDigit = false) :
    (ds ++ rest).takeWhile Char.isDigit = ds ∧ (ds ++ rest).dropWhile Char.isDigit = rest := by
  induction ds with
  | nil => cases rest <;> simp_all
  | cons d ds ih => simp_all

/-- Digits alone read as their number. -/
theorem decimal?_digits {ds : List Char} (digits : ∀ c ∈ ds, c.isDigit) (nonempty : ds ≠ []) :
    decimal? ds = some ⟨natural ds, 0⟩ := by
  have ⟨whole, rest⟩ := span_digits digits [] (by simp)
  rw [List.append_nil] at whole rest
  simp [decimal?, whole, rest, fraction, scale?, nonempty]

/-- Digits around a point read as their number, scaled by the digits after the
point. -/
theorem decimal?_point {ds es : List Char} (digits : ∀ c ∈ ds ++ es, c.isDigit)
    (nonempty : ds ≠ []) :
    decimal? (ds ++ '.' :: es) = some ⟨natural (ds ++ es), - (es.length : Int)⟩ := by
  have ⟨first, second⟩ := List.forall_mem_append.1 digits
  have ⟨whole, point⟩ := span_digits first ('.' :: es) (by simp)
  have ⟨part, rest⟩ := span_digits second [] (by simp)
  rw [List.append_nil] at part rest
  simp [decimal?, whole, point, fraction, part, rest, scale?, nonempty]

/-- The positional form of a decimal reads as a decimal with the same code. -/
theorem code_decimal?_positional {d : Decimal} (finite : d.code < Binary64.infinity) :
    ∃ e, decimal? d.positional = some e ∧ e.code = d.code := by
  obtain ⟨n, k | k⟩ := d
  · refine ⟨⟨natural (Nat.toDigits 10 n ++ List.replicate k '0'), 0⟩, ?_, ?_⟩
    · have nonempty : Nat.toDigits 10 n ++ List.replicate k '0' ≠ [] := by
        simp [Nat.toDigits_ne_nil]
      exact decimal?_digits (List.forall_mem_append.2
        ⟨Decimal.isDigit_of_mem_toDigits, Decimal.isDigit_of_mem_replicate⟩) nonempty
    · rw [natural, Nat.ofDigitChars_append, Nat.ofDigitChars_ten_toDigits,
        Nat.ofDigitChars_replicate_zero, Nat.mul_comm]
      exact Decimal.code_mul_ten_pow finite
  · obtain ⟨whole, part, eq, nonempty, length, digits, value⟩ := Decimal.positional_negSucc n k
    refine ⟨⟨n, .negSucc k⟩, ?_, rfl⟩
    rw [eq, decimal?_point digits nonempty, natural, value, length]
    rfl

/-- A text that starts with a digit has no sign. -/
theorem sign_of_isDigit {c : Char} {cs : List Char} (digit : c.isDigit) :
    sign (c :: cs) = (false, c :: cs) := by
  unfold sign
  split <;> simp_all

/-- A digit has no case. -/
theorem toLower_of_isDigit {c : Char} (digit : c.isDigit) : c.toLower = c := by
  have ⟨_, high⟩ := Char.isDigit_iff_toNat.1 digit
  have bound : c.toNat ≤ 57 := high
  unfold Char.toLower
  refine dif_neg fun letter => ?_
  have : 65 ≤ c.toNat := letter.1
  omega

/-- A text that starts with a digit is none of the words. -/
theorem unsigned?_of_isDigit {negative : Bool} {c : Char} {cs : List Char}
    (digit : c.isDigit) :
    unsigned? negative (c :: cs) = (decimal? (c :: cs)).map (finite negative) := by
  have noWord (d : Char) (h : d.isDigit = false) : c ≠ d := fun eq => by simp_all
  simp [unsigned?, toLower_of_isDigit digit, noWord]

/-- The text of a magnitude has no sign. -/
theorem sign_writeMagnitude (c : Nat) :
    sign (writeMagnitude c) = (false, writeMagnitude c) := by
  unfold writeMagnitude
  split
  · rfl
  · split
    · rfl
    · obtain ⟨d, ds, eq, digit⟩ := Decimal.positional_eq_cons (Decimal.shortest c)
      rw [eq, sign_of_isDigit digit]

/-- The text of a magnitude reads back under either sign. -/
theorem value_unsigned?_writeMagnitude {c : Nat} (bound : c ≤ Binary64.infinity)
    (negative : Bool) :
    (unsigned? negative (writeMagnitude c)).map value
      = some (Binary64.compose negative c) := by
  unfold writeMagnitude
  split
  · rename_i zero
    subst zero
    rfl
  · rename_i nonzero
    split
    · rename_i top
      subst top
      rfl
    · rename_i top
      have pos : 0 < c := Nat.pos_of_ne_zero nonzero
      have finite : c < Binary64.infinity := Nat.lt_of_le_of_ne bound top
      have reads := Decimal.code_shortest pos finite
      obtain ⟨d, ds, eq, digit⟩ := Decimal.positional_eq_cons (Decimal.shortest c)
      obtain ⟨e, read, same⟩ := code_decimal?_positional (reads.symm ▸ finite)
      rw [eq] at read ⊢
      rw [unsigned?_of_isDigit digit, read]
      simp only [Option.map_some, value, same, reads]

end Numeral

/-! ## §5. Numbers. -/

/-- What is written reads back. -/
theorem readNumber?_writeNumber (x : Float) : readNumber? (writeNumber x) = some x := by
  unfold writeNumber
  split
  · rename_i none
    rw [Binary64.eq_notANumber_of_infinity_lt_code none]
    rfl
  · rename_i number
    have bound := Nat.not_lt.1 number
    have whole := Binary64.compose_isNegative_code x
    rw [readNumber?, String.toList_ofList]
    cases negative : Binary64.isNegative x <;> rw [negative] at whole
    · have reads := Numeral.value_unsigned?_writeMagnitude bound false
      rw [whole] at reads
      simpa only [Numeral.ofChars?, Bool.false_eq_true, if_false, List.nil_append,
        Numeral.sign_writeMagnitude] using reads
    · have reads := Numeral.value_unsigned?_writeMagnitude bound true
      rw [whole] at reads
      exact reads

end StackCalc
