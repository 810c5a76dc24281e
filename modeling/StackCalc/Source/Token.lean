/-
  StackCalc.Source.Token
  ──────────────────────
  **THE TOKENS OF A LINE.**

  A line of source text is a row of words and quoted texts.  Blanks separate
  words, a semicolon outside a quoted text starts a comment that reaches to the
  end of the line, and inside a quoted text a backslash makes the character after
  it stand for itself.  A line has no tokens at all if and only if a quoted text
  is still open at its end.

  The scanner reads one character at a time and remembers only what it is in the
  middle of (`Scan`), so that everything about it is an induction on the line.
-/
import StackCalc.Text.Blank

namespace StackCalc.Source

/-! ## §1. Tokens. -/

/-- A token of a line. -/
inductive Token where
  /-- A run of characters without blanks, semicolons and double quotes. -/
  | word (text : String)
  /-- A text between double quotes, escapes resolved. -/
  | quoted (text : String)
  deriving DecidableEq, Repr

namespace Token

/-- The text of a token, without the quotes around it. -/
def text : Token → String
  | word s | quoted s => s

/-- A token as a report names it: a quoted text stands between double quotes,
with its escapes resolved. -/
def spelling : Token → String
  | word s => s
  | quoted s => "\"" ++ s ++ "\""

end Token

/-! ## §2. The scanner. -/

/-- What the scanner is in the middle of.  The characters of a token that is
being read are held last one first. -/
inductive Scan where
  /-- Between two tokens. -/
  | gap
  /-- Inside a word. -/
  | word (read : List Char)
  /-- Inside a quoted text. -/
  | quoted (read : List Char)
  /-- Inside a quoted text, after a backslash. -/
  | escape (read : List Char)
  deriving DecidableEq, Repr

/-- The word whose characters were read. -/
def Token.ofWord (read : List Char) : Token :=
  .word (String.ofList read.reverse)

/-- The quoted text whose characters were read. -/
def Token.ofQuoted (read : List Char) : Token :=
  .quoted (String.ofList read.reverse)

namespace Scan

/-- The tokens that are complete at the end of a line; none if a quoted text is
open. -/
def finish : Scan → Option (List Token)
  | gap => some []
  | word read => some [.ofWord read]
  | quoted _ | escape _ => none

/-- The tokens that the rest of a line completes. -/
def tokens? (s : Scan) : List Char → Option (List Token)
  | [] => s.finish
  | c :: cs =>
    match s with
    | gap =>
      if Text.isBlank c then tokens? gap cs
      else if c = ';' then some []
      else if c = '"' then tokens? (quoted []) cs
      else tokens? (word [c]) cs
    | word read =>
      if Text.isBlank c then (tokens? gap cs).map (.ofWord read :: ·)
      else if c = ';' then some [.ofWord read]
      else if c = '"' then (tokens? (quoted []) cs).map (.ofWord read :: ·)
      else tokens? (word (c :: read)) cs
    | quoted read =>
      if c = '"' then (tokens? gap cs).map (.ofQuoted read :: ·)
      else if c = '\\' then tokens? (escape read) cs
      else tokens? (quoted (c :: read)) cs
    | escape read => tokens? (quoted (c :: read)) cs

end Scan

/-! ## §3. Lines. -/

/-- The tokens of a line, if no quoted text is open at its end. -/
def tokens? (line : String) : Option (List Token) :=
  Scan.gap.tokens? line.toList

end StackCalc.Source
