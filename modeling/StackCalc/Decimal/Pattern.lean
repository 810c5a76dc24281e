/-
  StackCalc.Decimal.Pattern
  ─────────────────────────
  **A NUMBER IS ITS SIGN AND ITS CODE.**

  The reader makes a number from a sign and a code, and the writer takes a number
  apart into them.  Nothing is lost on the way:

      compose (isNegative x) (code x) = x

  There is one value that is no number, and it is the one whose code lies above
  that of infinity.
-/
import Mathlib
import StackCalc.Decimal.Binary64

namespace StackCalc.Binary64

open Float.Model
open Float.Model.UnpackedFloat (Sign packComponents unpackSign unpackExponent unpackMantissa)

/-! ## §1. Taking a bit pattern apart. -/

/-- The sign, exponent and mantissa of a bit pattern make it up. -/
theorem packComponents_unpack (b : BitVec Format.binary64.numBits) :
    packComponents .binary64 (.ofBitVec (unpackSign b)) (unpackExponent b) (unpackMantissa b)
      = b := by
  have sign (v : BitVec 1) : (Sign.ofBitVec v).toBitVec = v := by
    revert v; decide
  have bound : b.toNat < 18446744073709551616 := b.isLt
  apply BitVec.eq_of_toNat_eq
  unfold packComponents unpackSign unpackExponent unpackMantissa
  simp only [sign, BitVec.toNat_append, BitVec.toNat_cast, BitVec.extractLsb_toNat,
    Nat.shiftRight_eq_div_pow]
  rw [← Nat.shiftLeft_add_eq_or_of_lt (Nat.mod_lt _ (by decide)),
    ← Nat.shiftLeft_add_eq_or_of_lt (Nat.mod_lt _ (by decide))]
  simp only [Nat.shiftLeft_eq, Nat.reduceAdd, Nat.reduceSub, Nat.reducePow]
  omega

/-- A mantissa below the hidden bit is that of a subnormal number. -/
theorem pack_subnormal (s : Sign) {m : BitVec 52} (pos : 0 < m.toNat) :
    UnpackedFloat.pack .binary64 (.finite s m.toNat (-1074) pos)
      = packComponents .binary64 s 0#11 m := by
  have small : m.toNat.log2 + 1 ≠ Format.binary64.mantissaBits := by
    have := (Nat.log2_lt (Nat.ne_of_gt pos)).2 m.isLt
    simp only [Format.mantissaBits]
    omega
  simp only [UnpackedFloat.pack]
  rw [if_neg (by decide), if_neg small, BitVec.ofNat_toNat, BitVec.setWidth_eq]

/-- A mantissa with the hidden bit is that of a normal number. -/
theorem pack_normal (s : Sign) {m : BitVec 52} {e : BitVec 11} (finite : e ≠ -1#11)
    (pos : 0 < (1#1 ++ m).toNat) :
    UnpackedFloat.pack .binary64 (.finite s (1#1 ++ m).toNat (e.toNat - 1075) pos)
      = packComponents .binary64 s e m := by
  have low := m.isLt
  have high := e.isLt
  have top : e.toNat ≠ 2047 := fun h => finite (BitVec.eq_of_toNat_eq h)
  have value : (1#1 ++ m).toNat = 2 ^ 52 + m.toNat := by
    rw [BitVec.toNat_append, ← Nat.shiftLeft_add_eq_or_of_lt low]
    rfl
  have full : (1#1 ++ m).toNat.log2 = 52 :=
    (Nat.log2_eq_iff (Nat.ne_of_gt pos)).2 (by omega)
  have biased : ((e.toNat : Int) - 1075 + Format.binary64.exponentBias
      + Format.binary64.mantissaBitsWithoutImplicit).toNat = e.toNat := by
    simp [Format.exponentBias]
    omega
  have mantissa : BitVec.ofNat 52 (1#1 ++ m).toNat = m := by
    apply BitVec.eq_of_toNat_eq
    rw [value, BitVec.toNat_ofNat]
    omega
  simp only [UnpackedFloat.pack, full]
  rw [biased, if_neg (by simp; omega), if_pos (by decide), mantissa, BitVec.ofNat_toNat,
    BitVec.setWidth_eq]

/-- Taking a valid bit pattern apart and putting it together again changes
nothing. -/
theorem pack_unpack {b : BitVec Format.binary64.numBits} (valid : Format.binary64.Valid b) :
    UnpackedFloat.pack .binary64 (.unpack .binary64 b) = b := by
  have parts := packComponents_unpack b
  rw [UnpackedFloat.unpack]
  split
  · rename_i top
    rw [top] at parts
    split
    · rename_i zero
      rw [zero] at parts
      exact parts
    · rename_i nonzero
      exact (valid.eq_packedNaN top nonzero).symm
  · rename_i finite
    split
    · rename_i bottom
      rw [bottom] at parts
      split
      · rename_i zero
        rw [zero] at parts
        exact parts
      · rw [bottom]
        exact (pack_subnormal _ _).trans parts
    · exact (pack_normal _ finite _).trans parts

/-! ## §2. Numbers. -/

/-- A number is given by its bit pattern. -/
theorem ofBits_toBits (x : Float) : Float.ofBits x.toBits = x := by
  obtain ⟨⟨bits, valid⟩⟩ := x
  have same := pack_unpack valid
  simp only [Float.ofBits, Float.toBits, Float.Model.ofBits, Float.Model.pack, same]

/-- A number is given by its sign and its code. -/
theorem compose_isNegative_code (x : Float) : compose (isNegative x) (code x) = x := by
  have bound : x.toBits.toNat < 18446744073709551616 := x.toBits.toNat_lt
  have whole : code x + (if isNegative x then signWeight else 0) = x.toBits.toNat := by
    have weight : signWeight = 9223372036854775808 := by decide
    simp only [code, isNegative, weight, decide_eq_true_eq]
    split <;> omega
  rw [compose, whole, UInt64.ofNat_toNat, ofBits_toBits]

/-- A code above that of infinity has the highest exponent and a mantissa that is
not zero, and only one valid bit pattern is of this kind. -/
theorem eq_notANumber_of_infinity_lt_code {x : Float} (h : infinity < code x) :
    x = notANumber := by
  have above : 9218868437227405312 < x.toBits.toNat % 9223372036854775808 := h
  have bound : x.toBits.toNat < 18446744073709551616 := x.toBits.toNat_lt
  have top : @unpackExponent .binary64 x.toBits.toBitVec = -1#11 := by
    apply BitVec.eq_of_toNat_eq
    change x.toBits.toNat >>> 52 % 2048 = 2047
    rw [Nat.shiftRight_eq_div_pow]
    omega
  have nonzero : @unpackMantissa .binary64 x.toBits.toBitVec ≠ 0#52 := by
    intro zero
    have := congrArg BitVec.toNat zero
    change x.toBits.toNat >>> 0 % 4503599627370496 = 0 at this
    rw [Nat.shiftRight_zero] at this
    omega
  have only := x.toModel.valid.eq_packedNaN top nonzero
  have bits : x.toBits = notANumber.toBits := by
    apply UInt64.toBitVec_inj.1
    exact only.trans (by decide)
  rw [← ofBits_toBits x, bits, ofBits_toBits]

end StackCalc.Binary64
