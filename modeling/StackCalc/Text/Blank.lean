/-
  StackCalc.Text.Blank
  ────────────────────
  **BLANK CHARACTERS.**

  What separates the words of a source line, of a command and of a number
  given on the console is a *blank*: a character with the Unicode property
  `White_Space`.  There are twenty-five of them.

      isBlank   the property
      trim      a text without the blanks around it
      words     the maximal runs of characters that are not blank
-/

namespace StackCalc.Text

/-! ## §1. The property. -/

/-- The characters with the Unicode property `White_Space`: the controls from
tab to carriage return, the space, next line (U+0085), the no-break space, the
ogham space mark, the spaces of the block from U+2000 to U+200A, the line and
paragraph separators, the narrow no-break space, the medium mathematical space
and the ideographic space. -/
def isBlank (c : Char) : Bool :=
  let n := c.toNat
  (0x09 ≤ n && n ≤ 0x0D) || n == 0x20 || n == 0x85 || n == 0xA0 || n == 0x1680
    || (0x2000 ≤ n && n ≤ 0x200A) || n == 0x2028 || n == 0x2029 || n == 0x202F
    || n == 0x205F || n == 0x3000

/-! ## §2. Texts without the blanks around them. -/

/-- The characters of `cs` without the blanks that lead and the blanks that
trail. -/
def trimChars (cs : List Char) : List Char :=
  ((cs.dropWhile isBlank).reverse.dropWhile isBlank).reverse

/-- A text without the blanks around it. -/
def trim (s : String) : String :=
  String.ofList (trimChars s.toList)

/-! ## §3. Words. -/

/-- The maximal runs of characters that are not blank, in order. -/
def wordsOf (cs : List Char) : List (List Char) :=
  go [] cs
where
  /-- `word` holds the run being read, last character first. -/
  go (word : List Char) : List Char → List (List Char)
    | [] => close word []
    | c :: cs => if isBlank c then close word (go [] cs) else go (c :: word) cs
  /-- A run that is not empty is a word, and stands before those that follow. -/
  close (word : List Char) (rest : List (List Char)) : List (List Char) :=
    if word.isEmpty then rest else word.reverse :: rest

/-- The words of a text, in order. -/
def words (s : String) : List String :=
  (wordsOf s.toList).map String.ofList

end StackCalc.Text
