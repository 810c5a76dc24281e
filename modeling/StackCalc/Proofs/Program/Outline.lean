/-
  StackCalc.Proofs.Program.Outline
  ────────────────────────────────
  **WHAT A PROGRAM SAYS, APART FROM ITS NUMBERS.**

  The outline of a program is the list of its routines, each a name and a list of
  operations; ids, positions and instructions without an owner are left out.  The
  listing shows the outline and nothing else.

  Among the programs with one outline there is one that numbers everything in the
  order of the listing (`Outline.numbered`): ids from one, positions from zero in
  each routine.

      (numbered o).outline = o
-/
import Mathlib.Data.List.Basic
import StackCalc.Program.Listing
import StackCalc.Proofs.Program.Order

namespace StackCalc

/-! ## §1. Outlines. -/

/-- The routines of a program by name, each with its operations in order. -/
abbrev Outline := List (String × List Operation)

namespace Outline

/-- The names of the routines. -/
def names (o : Outline) : List String :=
  o.map (·.1)

theorem names_append (o u : Outline) : names (o ++ u) = o.names ++ u.names :=
  List.map_append

/-- The lines that show one routine. -/
def block (b : String × List Operation) : List String :=
  (headerWord ++ " " ++ b.1) :: b.2.map fun op => "  " ++ op.render

/-- The lines of the listing of an outline. -/
def listingLines : Outline → List String
  | [] => []
  | b :: o => block b ++ o.flatMap fun b => "" :: block b

end Outline

namespace Program

/-- The outline of a program. -/
def outline (p : Program) : Outline :=
  p.routines.map fun r => (r.name, (p.body r).map (·.operation))

theorem names_outline (p : Program) : p.outline.names = p.routines.map (·.name) := by
  unfold outline Outline.names
  rw [List.map_map]
  rfl

theorem block_eq (p : Program) (r : Routine) :
    p.block r = Outline.block (r.name, (p.body r).map (·.operation)) := by
  unfold block Outline.block
  rw [List.map_map]
  rfl

/-- The listing of a program shows its outline. -/
theorem listingLines_eq (p : Program) : p.listingLines = p.outline.listingLines := by
  unfold listingLines outline
  cases p.routines with
  | nil => rfl
  | cons r rs =>
    rw [List.map_cons, Outline.listingLines, List.flatMap_map]
    simp only [block_eq]

theorem listing_eq (p : Program) : p.listing = Text.unlines p.outline.listingLines := by
  rw [listing, listingLines_eq]

/-- The instructions that a routine owns, in the order of their rows. -/
def owned (p : Program) (r : Routine) : List Instruction :=
  p.instructions.filter fun i => i.owner = r.id

theorem body_eq (p : Program) (r : Routine) : p.body r = byPosition (p.owned r) := rfl

theorem mem_body {p : Program} {r : Routine} {i : Instruction} :
    i ∈ p.body r ↔ i ∈ p.instructions ∧ i.owner = r.id := by
  rw [body_eq, (perm_byPosition _).mem_iff, owned, List.mem_filter, decide_eq_true_iff]

end Program

/-! ## §2. Positions that count from zero. -/

/-- A body whose positions ascend is in order. -/
theorem byPosition_eq_self {code : List Instruction}
    (h : code.map (·.position) = List.range code.length) : byPosition code = code := by
  apply byPosition_of_pairwise
  rw [← List.pairwise_map, h]
  exact List.pairwise_lt_range.imp Nat.le_of_lt

/-- In a body that counts its positions from zero, index and position are the same number. -/
theorem zipIdx_map_operation {code : List Instruction}
    (h : code.map (·.position) = List.range code.length) :
    (code.map (·.operation)).zipIdx = code.map fun i => (i.operation, i.position) := by
  rw [List.zipIdx_eq_zip_range', List.length_map, ← List.range_eq_range', ← h, List.zip_map']

/-- The instructions carry the positions from zero on, each once, in any order. -/
def Contiguous (code : List Instruction) : Prop :=
  (code.map (·.position)).Perm (List.range code.length)

instance : DecidablePred Contiguous := fun _ => inferInstanceAs (Decidable (List.Perm _ _))

/-- Ordered by position, such instructions stand where their positions say. -/
theorem Contiguous.map_position {code : List Instruction} (h : Contiguous code) :
    (byPosition code).map (·.position) = List.range (byPosition code).length := by
  have hperm : ((byPosition code).map (·.position)).Perm (List.range code.length) :=
    ((perm_byPosition code).map _).trans h
  have hsorted : ((byPosition code).map (·.position)).Pairwise (· ≤ ·) :=
    List.pairwise_map.2 (pairwise_byPosition code)
  -- two ascending lists with the same elements are equal
  have hrange : (List.range code.length).Pairwise (· ≤ ·) :=
    List.pairwise_lt_range.imp Nat.le_of_lt
  rw [(perm_byPosition code).length_eq]
  exact hperm.eq_of_pairwise (fun _ _ _ _ => Nat.le_antisymm) hsorted hrange

/-- The ids tell the routines apart, and the positions say where the instructions
of each routine stand. -/
structure Program.Orderly (p : Program) : Prop where
  ids : (p.routines.map (·.id)).Nodup
  bodies : ∀ r ∈ p.routines, Contiguous (p.owned r)

instance : DecidablePred Program.Orderly := fun p =>
  decidable_of_iff ((p.routines.map (·.id)).Nodup ∧ ∀ r ∈ p.routines, Contiguous (p.owned r))
    ⟨fun ⟨hids, hbodies⟩ => ⟨hids, hbodies⟩, fun h => ⟨h.ids, h.bodies⟩⟩

/-! ## §3. The numbering in the order of the listing. -/

namespace Outline

/-- The place of every operation: the number of its routine, from one, and its
position there. -/
def places (o : Outline) : List (Nat × Nat × Operation) :=
  (o.zipIdx 1).flatMap fun b => b.1.2.zipIdx.map fun op => (b.2, op.2, op.1)

/-- The program that numbers an outline in its order. -/
def numbered (o : Outline) : Program where
  routines := (o.zipIdx 1).map fun b => ⟨b.2, b.1.1⟩
  instructions := (o.places.zipIdx 1).map fun i => ⟨i.2, i.1.1, i.1.2.1, i.1.2.2⟩

theorem length_routines_numbered (o : Outline) : o.numbered.routines.length = o.length := by
  simp [numbered]

theorem length_instructions_numbered (o : Outline) :
    o.numbered.instructions.length = o.places.length := by
  simp [numbered]

theorem places_append (o u : Outline) :
    places (o ++ u)
      = o.places ++ (u.zipIdx (1 + o.length)).flatMap
          fun b => b.1.2.zipIdx.map fun op => (b.2, op.2, op.1) := by
  unfold places
  rw [List.zipIdx_append, List.flatMap_append]

/-- A routine without operations has no places. -/
theorem places_open (o : Outline) (name : String) : places (o ++ [(name, [])]) = o.places := by
  rw [places_append]
  simp

/-- One more operation of the last routine has the next position there. -/
theorem places_add (o : Outline) (name : String) (ops : List Operation) (op : Operation) :
    places (o ++ [(name, ops ++ [op])])
      = places (o ++ [(name, ops)]) ++ [(o.length + 1, ops.length, op)] := by
  rw [places_append, places_append]
  simp [List.zipIdx_append, Nat.add_comm]

/-- A routine without operations adds one row. -/
theorem numbered_open (o : Outline) (name : String) :
    numbered (o ++ [(name, [])])
      = { o.numbered with routines := o.numbered.routines ++ [⟨o.length + 1, name⟩] } := by
  unfold numbered
  rw [places_open, List.zipIdx_append, List.map_append]
  simp [Nat.add_comm]

/-- One more operation of the last routine adds one row. -/
theorem numbered_add (o : Outline) (name : String) (ops : List Operation) (op : Operation) :
    numbered (o ++ [(name, ops ++ [op])])
      = { numbered (o ++ [(name, ops)]) with
          instructions := (numbered (o ++ [(name, ops)])).instructions
            ++ [⟨(numbered (o ++ [(name, ops)])).instructions.length + 1, o.length + 1,
                ops.length, op⟩] } := by
  rw [length_instructions_numbered]
  unfold numbered
  rw [places_add, List.zipIdx_append, List.map_append]
  simp [List.zipIdx_append, Int.add_comm]

/-- The rows of one routine, ids aside, are its places. -/
theorem map_filter_instructions (o : Outline) (k : Nat) :
    (o.numbered.instructions.filter fun i => i.owner = (k : Int)).map
        (fun i => (i.position, i.operation))
      = (o.places.filter fun x => x.1 = k).map (·.2) := by
  -- the ids count on while the filter drops rows, so they may begin anywhere
  have hrows : ∀ (xs : List (Nat × Nat × Operation)) (s : Nat),
      (((xs.zipIdx s).map fun i => (⟨i.2, i.1.1, i.1.2.1, i.1.2.2⟩ : Instruction)).filter
          fun i => i.owner = (k : Int)).map (fun i => (i.position, i.operation))
        = (xs.filter fun x => x.1 = k).map (·.2) := by
    intro xs
    induction xs with
    | nil => intro s; rfl
    | cons x xs ih =>
      intro s
      rw [List.zipIdx_cons, List.map_cons]
      by_cases hx : x.1 = k
      · rw [List.filter_cons_of_pos (by simp [hx]), List.filter_cons_of_pos (by simp [hx]),
          List.map_cons, List.map_cons, ih]
      · have howner : (x.1 : Int) ≠ k := by omega
        rw [List.filter_cons_of_neg (by simp [howner]), List.filter_cons_of_neg (by simp [hx]), ih]
  exact hrows o.places 1

/-- The places in one routine are those of its operations. -/
theorem filter_places (l r : Outline) (b : String × List Operation) :
    (places (l ++ b :: r)).filter (fun x => x.1 = l.length + 1)
      = b.2.zipIdx.map fun op => (l.length + 1, op.2, op.1) := by
  -- routines before and after have other numbers, so only the one in between is left
  have hother : ∀ (u : Outline) (s : Nat), (∀ b ∈ u.zipIdx s, b.2 ≠ l.length + 1) →
      ((u.zipIdx s).flatMap fun b => b.1.2.zipIdx.map fun op => (b.2, op.2, op.1)).filter
        (fun x => x.1 = l.length + 1) = [] := by
    intro u s hu
    rw [List.filter_eq_nil_iff]
    intro x hx
    obtain ⟨c, hc, hx⟩ := List.mem_flatMap.1 hx
    obtain ⟨op, -, rfl⟩ := List.mem_map.1 hx
    simpa using hu c hc
  rw [places_append, List.zipIdx_cons, List.flatMap_cons, List.filter_append, List.filter_append,
    places, hother l 1, hother r, List.nil_append, List.append_nil, List.filter_eq_self.2]
  · simp only [Nat.add_comm]
  · intro x hx
    obtain ⟨op, -, rfl⟩ := List.mem_map.1 hx
    simp [Nat.add_comm]
  · intro c hc
    have := List.le_snd_of_mem_zipIdx hc
    omega
  · intro c hc
    have := List.snd_lt_of_mem_zipIdx hc
    omega

/-- The rows that the routine of `b` owns, ids aside. -/
theorem map_owned_numbered (l r : Outline) (b : String × List Operation) :
    ((numbered (l ++ b :: r)).owned ⟨(l.length + 1 : Nat), b.1⟩).map
        (fun i => (i.position, i.operation))
      = b.2.zipIdx.map Prod.swap := by
  show ((numbered (l ++ b :: r)).instructions.filter fun i => i.owner = ((l.length + 1 : Nat) : Int)).map
      (fun i => (i.position, i.operation)) = _
  rw [map_filter_instructions, filter_places, List.map_map]
  rfl

theorem map_position_owned (l r : Outline) (b : String × List Operation) :
    ((numbered (l ++ b :: r)).owned ⟨(l.length + 1 : Nat), b.1⟩).map (·.position)
      = List.range b.2.length := by
  have h := congrArg (List.map Prod.fst) (map_owned_numbered l r b)
  rw [List.map_map, List.map_map] at h
  refine h.trans ?_
  show b.2.zipIdx.map Prod.snd = _
  rw [List.zipIdx_map_snd, List.range_eq_range']

theorem map_operation_owned (l r : Outline) (b : String × List Operation) :
    ((numbered (l ++ b :: r)).owned ⟨(l.length + 1 : Nat), b.1⟩).map (·.operation) = b.2 := by
  have h := congrArg (List.map Prod.snd) (map_owned_numbered l r b)
  rw [List.map_map, List.map_map] at h
  refine h.trans ?_
  show b.2.zipIdx.map Prod.fst = _
  rw [List.zipIdx_map_fst]

theorem length_owned (l r : Outline) (b : String × List Operation) :
    ((numbered (l ++ b :: r)).owned ⟨(l.length + 1 : Nat), b.1⟩).length = b.2.length := by
  rw [← map_operation_owned l r b, List.length_map]

/-- The rows of a numbered program are in order already. -/
theorem body_numbered (l r : Outline) (b : String × List Operation) :
    (numbered (l ++ b :: r)).body ⟨(l.length + 1 : Nat), b.1⟩
      = (numbered (l ++ b :: r)).owned ⟨(l.length + 1 : Nat), b.1⟩ := by
  rw [Program.body_eq]
  apply byPosition_eq_self
  rw [map_position_owned, length_owned]

/-- A number stands for one place in the outline. -/
theorem eq_append_of_mem_zipIdx {o : Outline} {b : String × List Operation} {k s : Nat}
    (h : (b, k) ∈ o.zipIdx s) : ∃ l r, o = l ++ b :: r ∧ k = l.length + s := by
  induction o generalizing s with
  | nil => exact absurd h List.not_mem_nil
  | cons c o ih =>
    rw [List.zipIdx_cons] at h
    rcases List.mem_cons.1 h with heq | h
    · obtain ⟨rfl, rfl⟩ := Prod.mk.inj heq
      exact ⟨[], o, rfl, (Nat.zero_add k).symm⟩
    · obtain ⟨l, r, rfl, rfl⟩ := ih h
      refine ⟨c :: l, r, rfl, ?_⟩
      rw [List.length_cons]
      omega

/-- **Numbering an outline keeps it.** -/
theorem outline_numbered (o : Outline) : o.numbered.outline = o := by
  have hroutine : ∀ x ∈ o.zipIdx 1,
      (x.1.1, (o.numbered.body ⟨x.2, x.1.1⟩).map (·.operation)) = x.1 := by
    rintro ⟨b, k⟩ hb
    -- `b` is the routine with `k - 1` others before it
    obtain ⟨l, r, rfl, rfl⟩ := eq_append_of_mem_zipIdx hb
    show (b.1, _) = b
    rw [body_numbered, map_operation_owned]
  calc o.numbered.outline
      = (o.zipIdx 1).map fun x => (x.1.1, (o.numbered.body ⟨x.2, x.1.1⟩).map (·.operation)) :=
        List.map_map
    _ = (o.zipIdx 1).map Prod.fst := List.map_congr_left hroutine
    _ = o := List.zipIdx_map_fst 1 o

theorem orderly_numbered (o : Outline) : o.numbered.Orderly where
  ids := by
    have hids : o.numbered.routines.map (·.id) = (List.range' 1 o.length).map Nat.cast := by
      rw [← List.zipIdx_map_snd, List.map_map]
      exact List.map_map
    rw [hids]
    exact List.Pairwise.map _ (fun _ _ => mt Int.ofNat.inj) List.nodup_range'
  bodies := by
    intro row hrow
    obtain ⟨⟨b, k⟩, hb, rfl⟩ := List.mem_map.1 hrow
    obtain ⟨l, r, rfl, rfl⟩ := eq_append_of_mem_zipIdx hb
    show List.Perm _ _
    rw [map_position_owned, length_owned]

end Outline

end StackCalc
