/-
  StackCalc.Proofs.Text.Lines
  ───────────────────────────
  **LINES AND THE TEXT THAT IS MADE OF THEM.**

  Cutting a text into lines gives back the lines it was made of,

      lines (unlines ls) = ls

  unless a line holds a line feed, which would end it early, or ends in a
  carriage return, which the cut takes for a part of the line end.  In the other
  direction, no line of a text holds a line feed.

  A text may be cut at any of its line feeds, and two texts may be joined there:

      lines (firstLines n s) = (lines s).take n
      lines (s ++ t)         = lines s ++ lines t
-/
import StackCalc.Text.Lines

namespace StackCalc.Text

/-! ## §1. Cutting a list. -/

section Split

variable {α : Type} [DecidableEq α] {feed ret : α}

/-- Elements other than a feed go into the line that is being read. -/
theorem splitLines_go_append {xs : List α} (h : feed ∉ xs) (line rest : List α) :
    splitLines.go feed ret line (xs ++ rest)
      = splitLines.go feed ret (xs.reverse ++ line) rest := by
  induction xs generalizing line with
  | nil => rfl
  | cons x xs ih =>
    have hx : x ≠ feed := fun e => h (e ▸ List.mem_cons_self)
    have hxs : feed ∉ xs := fun m => h (List.mem_cons_of_mem _ m)
    -- the line that is being read is kept in reverse
    rw [List.cons_append, splitLines.go, if_neg hx, ih hxs, List.reverse_cons,
      List.append_assoc]
    rfl

theorem dropReturn_reverse {line : List α} (h : line.getLast? ≠ some ret) :
    dropReturn ret line.reverse = line.reverse := by
  -- a line in reverse begins with its last element
  cases hl : line.reverse with
  | nil => rfl
  | cons x xs =>
    have hx : x ≠ ret := by
      rintro rfl
      apply h
      rw [List.getLast?_eq_head?_reverse, hl, List.head?_cons]
    rw [dropReturn, if_neg hx]

/-- Lines that hold no feed and end in no return, a feed after each, are cut
where they were joined. -/
theorem splitLines_flatMap {ls : List (List α)}
    (h : ∀ l ∈ ls, feed ∉ l ∧ l.getLast? ≠ some ret) :
    splitLines feed ret (ls.flatMap fun l => l ++ [feed]) = ls := by
  unfold splitLines
  induction ls with
  | nil => rfl
  | cons l ls ih =>
    have ⟨hfeed, hret⟩ := h l List.mem_cons_self
    rw [List.flatMap_cons, List.append_assoc, splitLines_go_append hfeed, List.append_nil,
      List.singleton_append, splitLines.go, if_pos rfl, dropReturn_reverse hret,
      List.reverse_reverse, ih fun l' hl' => h l' (List.mem_cons_of_mem _ hl')]

theorem mem_of_mem_dropReturn {x : α} {line : List α} (h : x ∈ dropReturn ret line) :
    x ∈ line := by
  cases line with
  | nil => exact h
  | cons y ys =>
    rw [dropReturn] at h
    split at h
    · exact List.mem_cons_of_mem _ h
    · exact h

theorem feed_notMem_splitLines_go {xs line : List α} (h : feed ∉ line) :
    ∀ l ∈ splitLines.go feed ret line xs, feed ∉ l := by
  induction xs generalizing line with
  | nil =>
    intro l hl
    unfold splitLines.go at hl
    split at hl
    · exact absurd hl List.not_mem_nil
    · -- what is left at the end is a line too
      rw [List.mem_singleton.1 hl, List.mem_reverse]
      exact h
  | cons x xs ih =>
    intro l hl
    unfold splitLines.go at hl
    split at hl
    · -- a feed ends the line that is being read, and the next one begins empty
      rcases List.mem_cons.1 hl with rfl | hl
      · rw [List.mem_reverse]
        exact fun m => h (mem_of_mem_dropReturn m)
      · exact ih List.not_mem_nil l hl
    · next hx =>
      refine ih ?_ l hl
      intro m
      rcases List.mem_cons.1 m with rfl | m
      · exact hx rfl
      · exact h m

/-- The elements up to the `n`-th feed, which is included; all of them if there are fewer
feeds. -/
def throughFeed (feed : α) : Nat → List α → List α
  | 0, _ => []
  | _ + 1, [] => []
  | n + 1, x :: xs =>
    if x = feed then x :: throughFeed feed n xs else x :: throughFeed feed (n + 1) xs

/-- In the middle of a line, the rest up to a feed has the line and those that follow. -/
theorem splitLines_go_throughFeed (n : Nat) (line xs : List α) :
    splitLines.go feed ret line (throughFeed feed (n + 1) xs)
      = (splitLines.go feed ret line xs).take (n + 1) := by
  induction xs generalizing n line with
  | nil =>
    show splitLines.go feed ret line [] = _
    unfold splitLines.go
    split <;> simp
  | cons x xs ih =>
    by_cases hx : x = feed
    · rw [throughFeed, if_pos hx, splitLines.go, if_pos hx, splitLines.go, if_pos hx,
        List.take_succ_cons]
      congr 1
      -- the next line is empty as yet, and may be one too many
      cases n with
      | zero =>
        rw [throughFeed, List.take_zero]
        rfl
      | succ n => exact ih n []
    · rw [throughFeed, if_neg hx, splitLines.go, if_neg hx, splitLines.go, if_neg hx, ih]

theorem splitLines_throughFeed (n : Nat) (xs : List α) :
    splitLines feed ret (throughFeed feed n xs) = (splitLines feed ret xs).take n := by
  cases n with
  | zero =>
    rw [throughFeed, List.take_zero]
    rfl
  | succ n => exact splitLines_go_throughFeed n [] xs

/-- After a feed a new line begins, whatever came before. -/
theorem splitLines_go_append_feed (line xs ys : List α) :
    splitLines.go feed ret line (xs ++ feed :: ys)
      = splitLines.go feed ret line (xs ++ [feed]) ++ splitLines.go feed ret [] ys := by
  induction xs generalizing line with
  | nil =>
    show splitLines.go feed ret line (feed :: ys)
      = splitLines.go feed ret line [feed] ++ splitLines.go feed ret [] ys
    rw [splitLines.go, if_pos rfl, splitLines.go, if_pos rfl]
    rfl
  | cons x xs ih =>
    rw [List.cons_append, List.cons_append, splitLines.go, splitLines.go]
    by_cases hx : x = feed
    · rw [if_pos hx, if_pos hx, ih, List.cons_append]
    · rw [if_neg hx, if_neg hx, ih]

end Split

/-! ## §2. Texts. -/

/-- A text that stays one line when a line feed follows it. -/
def IsLine (s : String) : Prop :=
  '\n' ∉ s.toList ∧ s.toList.getLast? ≠ some '\r'

theorem isLine_empty : IsLine "" :=
  ⟨by simp, by simp⟩

theorem IsLine.append {s t : String} (hs : '\n' ∉ s.toList) (ht : IsLine t) (hne : t ≠ "") :
    IsLine (s ++ t) := by
  have hcs : t.toList ≠ [] := fun e => hne (String.toList_eq_nil_iff.1 e)
  unfold IsLine
  -- since `t` is not empty, the last character is its last one
  rw [String.toList_append, List.getLast?_append, List.getLast?_eq_some_getLast hcs]
  refine ⟨fun m => ?_, ?_⟩
  · rcases List.mem_append.1 m with m | m
    · exact hs m
    · exact ht.1 m
  · rw [Option.some_or, ← List.getLast?_eq_some_getLast hcs]
    exact ht.2

/-- **A text made of lines is cut into these lines.** -/
theorem lines_unlines {ls : List String} (h : ∀ l ∈ ls, IsLine l) : lines (unlines ls) = ls := by
  have hls : ∀ l ∈ ls.map String.toList, '\n' ∉ l ∧ l.getLast? ≠ some '\r' := by
    intro l hl
    obtain ⟨s, hs, rfl⟩ := List.mem_map.1 hl
    exact h s hs
  have hcut := splitLines_flatMap hls
  rw [List.flatMap_map] at hcut
  rw [lines, toList_unlines, hcut, List.map_map]
  simp

/-- No line of a text holds a line feed. -/
theorem feed_notMem_of_mem_lines {s l : String} (h : l ∈ lines s) : '\n' ∉ l.toList := by
  obtain ⟨cs, hcs, rfl⟩ := List.mem_map.1 h
  rw [String.toList_ofList]
  exact feed_notMem_splitLines_go List.not_mem_nil cs hcs

/-! ## §3. Cutting and joining at a line feed. -/

/-- The text that ends with the `n`-th line; all of it if it has no more lines. -/
def firstLines (n : Nat) (s : String) : String :=
  String.ofList (throughFeed '\n' n s.toList)

/-- **A text up to the end of a line has the lines up to this one.** -/
theorem lines_firstLines (n : Nat) (s : String) : lines (firstLines n s) = (lines s).take n := by
  unfold lines firstLines
  rw [String.toList_ofList, splitLines_throughFeed, List.map_take]

/-- A text that another can follow without changing its last line. -/
def EndsLine (s : String) : Prop :=
  s = "" ∨ ∃ r, s = r ++ "\n"

/-- **Texts that are joined at a line end keep their lines.** -/
theorem lines_append {s : String} (h : EndsLine s) (t : String) :
    lines (s ++ t) = lines s ++ lines t := by
  rcases h with rfl | ⟨r, rfl⟩
  · rw [String.empty_append]
    rfl
  · have hcut : splitLines '\n' '\r' (r.toList ++ '\n' :: t.toList)
        = splitLines '\n' '\r' (r.toList ++ ['\n']) ++ splitLines '\n' '\r' t.toList :=
      splitLines_go_append_feed [] r.toList t.toList
    unfold lines
    rw [String.toList_append, String.toList_append, List.append_assoc]
    show (splitLines '\n' '\r' (r.toList ++ '\n' :: t.toList)).map String.ofList = _
    rw [hcut, List.map_append]
    rfl

end StackCalc.Text
