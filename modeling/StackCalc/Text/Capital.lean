/-
  StackCalc.Text.Capital
  ──────────────────────
  **CAPITAL LETTERS.**

  A mnemonic may be written in any case.  It is looked up by its capital form,
  character by character; a few characters have a capital form of more than one
  letter, and a few letters outside ASCII have one inside it.
-/

namespace StackCalc.Text

/-! ## §1. One character. -/

/-- The capital form of a character, for the characters whose capital form is
made of ASCII letters: the small ASCII letters, the dotless i, the long s, the
sharp s and the Latin ligatures.  Every other character stands for itself; no
capital form that is left out here is a text over the ASCII letters, so none
can change which mnemonic a word spells. -/
def capital (c : Char) : List Char :=
  match c.toNat with
  | 0x00DF => ['S', 'S']
  | 0x0131 => ['I']
  | 0x017F => ['S']
  | 0xFB00 => ['F', 'F']
  | 0xFB01 => ['F', 'I']
  | 0xFB02 => ['F', 'L']
  | 0xFB03 => ['F', 'F', 'I']
  | 0xFB04 => ['F', 'F', 'L']
  | 0xFB05 => ['S', 'T']
  | 0xFB06 => ['S', 'T']
  | _ => [c.toUpper]

/-! ## §2. Texts. -/

/-- A text in capital letters. -/
def capitals (s : String) : String :=
  String.ofList (s.toList.flatMap capital)

end StackCalc.Text
