/-
  StackCalc.Proofs.Source.RoundTrip
  ─────────────────────────────────
  **WHICH PROGRAMS A LISTING CAN SHOW.**

  A program is *listable* if the names of its routines are different words, and
  every instruction that a routine owns is printable.  Two facts meet here:

      whatever is assembled is listable                  (no line can say more)
      the listing of a listable outline reads as it      (no line says less)

  The first makes the second exact: a listing that reads back as its program is
  the listing of a listable program.  For a program that was assembled the
  numbers read back as well.
-/
import StackCalc.Proofs.Source.Assembly
import StackCalc.Proofs.Source.Statement

namespace StackCalc

open Source

/-! ## §1. Listable outlines and programs. -/

/-- An outline that a listing can show. -/
structure Outline.Listable (o : Outline) : Prop where
  names : o.names.Nodup
  words : ∀ b ∈ o, IsWord b.1
  operations : ∀ b ∈ o, ∀ op ∈ b.2, op.Printable

/-- A program that a listing can show: the names of the routines are pairwise
different and words, the names in owned instructions are words, and the prompts
of owned instructions have no line feed. -/
structure Program.Listable (p : Program) : Prop where
  names : (p.routines.map (·.name)).Nodup
  words : ∀ r ∈ p.routines, IsWord r.name
  operations : ∀ i ∈ p.instructions, (∃ r ∈ p.routines, i.owner = r.id) → i.operation.Printable

instance : DecidablePred Program.Listable := fun p =>
  decidable_of_iff ((p.routines.map (·.name)).Nodup ∧ (∀ r ∈ p.routines, IsWord r.name)
      ∧ ∀ i ∈ p.instructions, (∃ r ∈ p.routines, i.owner = r.id) → i.operation.Printable)
    ⟨fun ⟨hnames, hwords, hops⟩ => ⟨hnames, hwords, hops⟩,
      fun h => ⟨h.names, h.words, h.operations⟩⟩

/-- A program is listable as its outline is. -/
theorem Program.listable_iff (p : Program) : p.Listable ↔ p.outline.Listable := by
  constructor
  · intro h
    -- the operations of a routine are those of the instructions that it owns
    refine ⟨by rw [p.names_outline]; exact h.names, ?_, ?_⟩
    · intro b hb
      obtain ⟨r, hr, rfl⟩ := List.mem_map.1 hb
      exact h.words r hr
    · intro b hb op hop
      obtain ⟨r, hr, rfl⟩ := List.mem_map.1 hb
      obtain ⟨i, hi, rfl⟩ := List.mem_map.1 hop
      have ⟨hmem, howner⟩ := mem_body.1 hi
      exact h.operations i hmem ⟨r, hr, howner⟩
  · intro h
    refine ⟨by rw [← p.names_outline]; exact h.names, ?_, ?_⟩
    · intro r hr
      exact h.words _ (List.mem_map_of_mem hr)
    · rintro i hi ⟨r, hr, howner⟩
      exact h.operations _ (List.mem_map_of_mem hr) _
        (List.mem_map_of_mem (mem_body.2 ⟨hi, howner⟩))

/-! ## §2. Whatever is read is listable. -/

namespace Outline

theorem listable_nil : Listable [] where
  names := List.nodup_nil
  words := by simp
  operations := by simp

theorem Listable.append_left {o u : Outline} (h : Listable (o ++ u)) : o.Listable where
  names := by
    have hnames := h.names
    rw [names_append] at hnames
    exact (List.nodup_append.1 hnames).1
  words := fun b hb => h.words b (List.mem_append_left _ hb)
  operations := fun b hb => h.operations b (List.mem_append_left _ hb)

/-- An outline with one more routine. -/
theorem listable_concat_iff {o : Outline} {b : String × List Operation} :
    Listable (o ++ [b])
      ↔ o.Listable ∧ b.1 ∉ o.names ∧ IsWord b.1 ∧ ∀ op ∈ b.2, op.Printable := by
  have hnames : names (o ++ [b]) = o.names ++ [b.1] := names_append o [b]
  constructor
  · intro h
    have hb : b ∈ o ++ [b] := List.mem_append_right _ List.mem_cons_self
    refine ⟨h.append_left, ?_, h.words b hb, h.operations b hb⟩
    have hnodup := h.names
    rw [hnames, List.nodup_append] at hnodup
    exact fun hmem => hnodup.2.2 _ hmem _ List.mem_cons_self rfl
  · rintro ⟨ho, hfresh, hword, hops⟩
    refine ⟨?_, ?_, ?_⟩
    · rw [hnames, ← List.concat_eq_append]
      exact ho.names.concat hfresh
    · intro b' hb'
      rcases List.mem_append.1 hb' with hb' | hb'
      · exact ho.words b' hb'
      · rw [List.mem_singleton.1 hb']
        exact hword
    · intro b' hb'
      rcases List.mem_append.1 hb' with hb' | hb'
      · exact ho.operations b' hb'
      · rw [List.mem_singleton.1 hb']
        exact hops

/-- A header of a new name and an operation keep an outline listable. -/
theorem Listable.add {o o' : Outline} {st : Option Statement} (h : o.Listable)
    (hst : ∀ s, st = some s → s.Printable) (hadd : o.add st = .ok o') : o'.Listable := by
  rcases add_eq_ok hadd with ⟨rfl, rfl⟩ | ⟨name, rfl, hname, rfl⟩
    | ⟨op, l, name, ops, rfl, rfl, rfl⟩
  · exact h
  · have hword : IsWord name := hst _ rfl
    exact listable_concat_iff.2 ⟨h, hname, hword, fun _ hop => absurd hop List.not_mem_nil⟩
  · -- the last routine keeps its name, and gets one operation that the line says
    have hop : op.Printable := hst _ rfl
    obtain ⟨hl, hfresh, hword, hops⟩ := listable_concat_iff.1 h
    refine listable_concat_iff.2 ⟨hl, hfresh, hword, ?_⟩
    intro op' hop'
    rcases List.mem_append.1 hop' with hop' | hop'
    · exact hops op' hop'
    · rw [List.mem_singleton.1 hop']
      exact hop

theorem Listable.readLine {o o' : Outline} {line : String} (h : o.Listable)
    (hline : '\n' ∉ line.toList) (hread : o.readLine line = .ok o') : o'.Listable := by
  obtain ⟨st, hst, hadd⟩ := exists_of_readLine hread
  refine h.add ?_ hadd
  rintro s rfl
  exact printable_of_ofLine hline hst

/-- Lines without line feeds keep an outline listable. -/
theorem Listable.readLines {o o' : Outline} {n : Nat} {ls : List String} (h : o.Listable)
    (hls : ∀ l ∈ ls, '\n' ∉ l.toList) (hread : o.readLines n ls = .ok o') : o'.Listable := by
  induction ls generalizing o n with
  | nil =>
    cases hread
    exact h
  | cons l ls ih =>
    obtain ⟨o₁, ho₁, hlater⟩ := exists_of_readLines_cons hread
    exact ih (h.readLine (hls l List.mem_cons_self) ho₁)
      (fun l' hl' => hls l' (List.mem_cons_of_mem _ hl')) hlater

/-! ## §3. A listing reads as the outline that it shows. -/

/-- The lines of operations add them to the last routine. -/
theorem readLines_operations {ops : List Operation} (h : ∀ op ∈ ops, op.Printable)
    (o : Outline) (name : String) (before : List Operation) (n : Nat) :
    readLines (o ++ [(name, before)]) n (ops.map fun op => "  " ++ op.render)
      = .ok (o ++ [(name, before ++ ops)]) := by
  induction ops generalizing before n with
  | nil =>
    rw [List.append_nil]
    rfl
  | cons op ops ih =>
    have hline : readLine (o ++ [(name, before)]) ("  " ++ op.render)
        = .ok (o ++ [(name, before ++ [op])]) := by
      rw [readLine, ofLine_render (h op List.mem_cons_self)]
      exact add_operation o name before op
    rw [List.map_cons, readLines_cons hline, ih fun op' hop' => h op' (List.mem_cons_of_mem _ hop'),
      List.append_assoc, List.singleton_append]

/-- The lines of a routine add it. -/
theorem readLines_block {o : Outline} {b : String × List Operation}
    (h : Listable (o ++ [b])) (n : Nat) : o.readLines n (block b) = .ok (o ++ [b]) := by
  obtain ⟨-, hfresh, hword, hops⟩ := listable_concat_iff.1 h
  have hline : o.readLine (headerWord ++ " " ++ b.1) = .ok (o ++ [(b.1, [])]) := by
    rw [readLine, ofLine_header hword]
    exact add_header hfresh
  rw [block, readLines_cons hline, readLines_operations hops, List.nil_append]

/-- The lines of further routines, an empty line before each, add them. -/
theorem readLines_blocks {o u : Outline} (h : Listable (o ++ u)) (n : Nat) :
    o.readLines n (u.flatMap fun b => "" :: block b) = .ok (o ++ u) := by
  induction u generalizing o n with
  | nil =>
    rw [List.append_nil]
    rfl
  | cons b u ih =>
    -- the first routine goes to the outline that was read already
    have h' : Listable ((o ++ [b]) ++ u) := by
      rw [List.append_assoc]
      exact h
    have hblank : o.readLine "" = .ok o := by
      rw [readLine, ofLine_blank]
      rfl
    rw [List.flatMap_cons, readLines_append, readLines_cons hblank, readLines_block h'.append_left]
    show readLines (o ++ [b]) _ _ = _
    rw [ih h', List.append_assoc]
    rfl

/-- **The listing of a listable outline reads as it.** -/
theorem readLines_listingLines {o : Outline} (h : o.Listable) (n : Nat) :
    readLines [] n o.listingLines = .ok o := by
  cases o with
  | nil => rfl
  | cons b u =>
    have hfirst : Listable ([] ++ [b]) := Listable.append_left (u := u) h
    rw [listingLines, readLines_append, readLines_block hfirst]
    exact readLines_blocks h _

theorem Listable.isLine {o : Outline} (h : o.Listable) : ∀ l ∈ o.listingLines, Text.IsLine l := by
  have hblock : ∀ b ∈ o, ∀ l ∈ block b, Text.IsLine l := by
    intro b hb l hl
    rcases List.mem_cons.1 hl with rfl | hl
    · exact isLine_header (h.words b hb)
    · obtain ⟨op, hop, rfl⟩ := List.mem_map.1 hl
      exact isLine_render (h.operations b hb op hop)
  intro l hl
  cases o with
  | nil => exact absurd hl List.not_mem_nil
  | cons b u =>
    rcases List.mem_append.1 hl with hl | hl
    · exact hblock b List.mem_cons_self l hl
    · obtain ⟨c, hc, hl⟩ := List.mem_flatMap.1 hl
      rcases List.mem_cons.1 hl with rfl | hl
      · exact Text.isLine_empty
      · exact hblock c (List.mem_cons_of_mem _ hc) l hl

end Outline

/-! ## §4. Texts and programs. -/

namespace Source

/-- A listable outline is what its listing assembles to, numbered. -/
theorem assemble_unlines_listingLines {o : Outline} (h : o.Listable) :
    assemble (Text.unlines o.listingLines) = .ok o.numbered := by
  rw [assemble_eq, Text.lines_unlines h.isLine, Outline.readLines_listingLines h]
  rfl

/-- What is assembled numbers a listable outline. -/
theorem exists_listable_of_assemble {text : String} {p : Program} (h : assemble text = .ok p) :
    ∃ o : Outline, o.Listable ∧ p = o.numbered := by
  rw [assemble_eq] at h
  obtain ⟨o, ho, rfl⟩ := map_eq_ok_iff.1 h
  exact ⟨o, Outline.listable_nil.readLines (fun _ => Text.feed_notMem_of_mem_lines) ho, rfl⟩

/-- **The listing of an assembled program assembles to this program**, with the
same routines, ids, positions and operations in the same order. -/
theorem assemble_listing {text : String} {p : Program} (h : assemble text = .ok p) :
    assemble p.listing = .ok p := by
  obtain ⟨o, ho, rfl⟩ := exists_listable_of_assemble h
  rw [Program.listing_eq, Outline.outline_numbered]
  exact assemble_unlines_listingLines ho

/-- A text with a line end of two characters, a number in another spelling, escapes
in a prompt, a comment, and a last line without a line feed. -/
def untidyText : String :=
  "func main\r\n push 1.50\n input \"a\\\"b;\\\\\" ; ask\nfunc Sq\n label L"

theorem assemble_listing_untidyText :
    ∃ p, assemble untidyText = .ok p
      ∧ p.instructions.map (fun i => (i.owner, i.position, i.operation.argument?))
          = [(1, 0, some "1.5"), (1, 1, some "a\"b;\\"), (2, 0, some "L")]
      ∧ assemble p.listing = .ok p := by
  -- floats have no decidable equality, so the rows are compared by their arguments
  have hread : (assemble untidyText).toOption.map
        (fun p => p.instructions.map fun i => (i.owner, i.position, i.operation.argument?))
      = some [(1, 0, some "1.5"), (1, 1, some "a\"b;\\"), (2, 0, some "L")] := by
    decide +kernel
  cases h : assemble untidyText with
  | error e =>
    rw [h] at hread
    exact absurd hread (by simp [Except.toOption])
  | ok p =>
    rw [h] at hread
    exact ⟨p, rfl, Option.some.inj hread, assemble_listing h⟩

/-- **A listing reads back as its program exactly for the listable programs**, and
then the program that it reads as has the same listing. -/
theorem listing_reads_back_iff (p : Program) :
    ((∃ q, assemble p.listing = .ok q ∧ q.outline = p.outline) ↔ p.Listable)
      ∧ (p.Listable → ∃ q, assemble p.listing = .ok q ∧ q.outline = p.outline
          ∧ q.listing = p.listing) := by
  have hreads : p.Listable → ∃ q, assemble p.listing = .ok q ∧ q.outline = p.outline
      ∧ q.listing = p.listing := by
    intro h
    -- the listing reads as the numbering of the outline that it shows
    have hsame := p.outline.outline_numbered
    refine ⟨p.outline.numbered, ?_, hsame, ?_⟩
    · rw [Program.listing_eq]
      exact assemble_unlines_listingLines (p.listable_iff.1 h)
    · rw [Program.listing_eq, hsame, Program.listing_eq]
  refine ⟨⟨?_, fun h => ?_⟩, hreads⟩
  · -- what is assembled is listable, and listable depends on the outline alone
    rintro ⟨q, hq, hsame⟩
    obtain ⟨o, ho, rfl⟩ := exists_listable_of_assemble hq
    rw [p.listable_iff, ← hsame, o.outline_numbered]
    exact ho
  · obtain ⟨q, hq, hsame, -⟩ := hreads h
    exact ⟨q, hq, hsame⟩

-- an instruction without an owner is not shown, so its name does not matter
example : Program.Listable ⟨[⟨1, "main"⟩], [⟨1, 1, 0, .input "x\r"⟩, ⟨2, 9, 0, .label "a b"⟩]⟩
    ∧ ¬ Program.Listable ⟨[⟨1, "main"⟩, ⟨1, "f"⟩], [⟨1, 1, 0, .goto "a b"⟩]⟩ := by
  decide

end Source

end StackCalc
