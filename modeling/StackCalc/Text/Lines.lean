/-
  StackCalc.Text.Lines
  ────────────────────
  **LINES.**

  One rule cuts a source text into lines and the bytes of standard input into
  lines: a line ends at a line feed, which is not part of it, nor is one
  carriage return right before it; what follows the last line feed is a line of
  its own unless it is empty.  The rule is stated once, over any type of
  elements.

      splitLines   the lines of a list, for a given line feed and return
      lines        the lines of a text
      unlines      a text from its lines, a line feed after each
-/

namespace StackCalc.Text

/-! ## §1. Cutting a list into lines. -/

section Split

variable {α : Type} [DecidableEq α]

/-- A line that is held last element first, without the `ret` that ends it. -/
def dropReturn (ret : α) : List α → List α
  | [] => []
  | x :: xs => if x = ret then xs else x :: xs

/-- The lines of a list.  A line ends at a `feed`; one `ret` before the `feed`
is dropped, and a last line without a `feed` is kept as it is. -/
def splitLines (feed ret : α) (xs : List α) : List (List α) :=
  go [] xs
where
  /-- `line` holds the line being read, last element first. -/
  go (line : List α) : List α → List (List α)
    | [] => if line.isEmpty then [] else [line.reverse]
    | x :: xs =>
      if x = feed then (dropReturn ret line).reverse :: go [] xs
      else go (x :: line) xs

end Split

/-! ## §2. Texts. -/

/-- The lines of a text. -/
def lines (s : String) : List String :=
  (splitLines '\n' '\r' s.toList).map String.ofList

/-- The text that has the given lines, a line feed after each of them. -/
def unlines (ls : List String) : String :=
  String.join (ls.map (· ++ "\n"))

/-- The characters of a text from its lines. -/
theorem toList_unlines (ls : List String) :
    (unlines ls).toList = ls.flatMap fun l => l.toList ++ ['\n'] := by
  simp [unlines, String.toList_join, List.flatMap_map]

end StackCalc.Text
