/-
  StackCalc.Proofs.Source.Numbering
  ─────────────────────────────────
  **WHICH PROGRAMS A TEXT DESCRIBES.**

  The rows of a program that was assembled are numbered as they stand: ids count from one,
  the instructions of a routine stand together in the order of the routines, and positions
  count from zero in each of them (`Program.Serial`).  A program that is numbered so is what
  numbering its outline gives,

      p.outline.numbered = p

  so the texts describe exactly the serial programs that a listing can show.  In a serial
  program an instruction stands in its body at the index that its position says, which is
  what lets a machine use the one for the other.
-/
import StackCalc.Proofs.Machine.Image
import StackCalc.Proofs.Source.RoundTrip

namespace StackCalc

open Source

/-! ## §1. Serial programs. -/

/-- The ids from one to `n`. -/
def idsTo (n : Nat) : List Int :=
  (List.range' 1 n).map fun k : Nat => (k : Int)

/-- The rows are numbered as they stand. -/
structure Program.Serial (p : Program) : Prop where
  routineIds : p.routines.map (·.id) = idsTo p.routines.length
  instructionIds : p.instructions.map (·.id) = idsTo p.instructions.length
  owners : ∀ i ∈ p.instructions, 1 ≤ i.owner ∧ i.owner ≤ p.routines.length
  ascending : (p.instructions.map (·.owner)).Pairwise (· ≤ ·)
  positions : ∀ r ∈ p.routines, (p.owned r).map (·.position) = List.range (p.owned r).length

instance : DecidablePred Program.Serial := fun p =>
  decidable_of_iff (p.routines.map (·.id) = idsTo p.routines.length
      ∧ p.instructions.map (·.id) = idsTo p.instructions.length
      ∧ (∀ i ∈ p.instructions, 1 ≤ i.owner ∧ i.owner ≤ p.routines.length)
      ∧ (p.instructions.map (·.owner)).Pairwise (· ≤ ·)
      ∧ ∀ r ∈ p.routines, (p.owned r).map (·.position) = List.range (p.owned r).length)
    ⟨fun ⟨hr, hi, ho, ha, hp⟩ => ⟨hr, hi, ho, ha, hp⟩,
      fun h => ⟨h.routineIds, h.instructionIds, h.owners, h.ascending, h.positions⟩⟩

theorem mem_idsTo {n : Nat} {k : Int} : k ∈ idsTo n ↔ 1 ≤ k ∧ k ≤ n := by
  unfold idsTo
  rw [List.mem_map]
  simp only [List.mem_range'_1]
  constructor
  · intro h
    obtain ⟨m, hm, rfl⟩ := h
    omega
  · intro h
    exact ⟨k.toNat, by omega, by omega⟩

theorem nodup_idsTo (n : Nat) : (idsTo n).Nodup :=
  List.Pairwise.map _ (fun _ _ => mt Int.ofNat.inj) List.nodup_range'

/-- Rows stand under the numbers from one. -/
theorem map_zipIdx_eq_idsTo {α : Type} (rows : List α) :
    (rows.zipIdx 1).map (fun x => (x.2 : Int)) = idsTo rows.length := by
  unfold idsTo
  rw [← List.zipIdx_map_snd, List.map_map]
  rfl

/-- Rows whose ids count from one carry the numbers under which they stand. -/
theorem id_of_mem_zipIdx {α : Type} {id : α → Int} {rows : List α}
    (h : rows.map id = idsTo rows.length) : ∀ x ∈ rows.zipIdx 1, id x.1 = x.2 := by
  have hids : (rows.zipIdx 1).map (fun x => id x.1) = rows.map id := by
    have hfst := congrArg (List.map id) (List.zipIdx_map_fst 1 rows)
    rwa [List.map_map] at hfst
  exact List.map_inj_left.1 (hids.trans (h.trans (map_zipIdx_eq_idsTo rows).symm))

namespace Program.Serial

variable {p : Program}

theorem nodup_ids (h : p.Serial) : (p.routines.map (·.id)).Nodup := by
  rw [h.routineIds]
  exact nodup_idsTo _

/-- Every instruction belongs to a routine. -/
theorem exists_owner (h : p.Serial) {i : Instruction} (hi : i ∈ p.instructions) :
    ∃ r ∈ p.routines, i.owner = r.id := by
  have hid : i.owner ∈ p.routines.map (·.id) := by
    rw [h.routineIds, mem_idsTo]
    exact h.owners i hi
  obtain ⟨r, hr, hid⟩ := List.mem_map.1 hid
  exact ⟨r, hr, hid.symm⟩

/-- So no instruction is left out of the listing, and all of them have to be printable. -/
theorem listable_iff (h : p.Serial) :
    p.Listable ↔ (p.routines.map (·.name)).Nodup ∧ (∀ r ∈ p.routines, IsWord r.name)
      ∧ ∀ i ∈ p.instructions, i.operation.Printable := by
  constructor
  · intro hp
    exact ⟨hp.names, hp.words, fun i hi => hp.operations i hi (h.exists_owner hi)⟩
  · intro hp
    exact ⟨hp.1, hp.2.1, fun i hi _ => hp.2.2 i hi⟩

theorem body_eq_owned (h : p.Serial) {r : Routine} (hr : r ∈ p.routines) :
    p.body r = p.owned r :=
  byPosition_eq_self (h.positions r hr)

/-- **An instruction stands in its body at the index that its position says.** -/
theorem position_of_getElem? (h : p.Serial) {r : Routine} (hr : r ∈ p.routines) {k : Nat}
    {i : Instruction} (hi : (p.body r)[k]? = some i) : i.position = k := by
  rw [h.body_eq_owned hr] at hi
  have hk : k < (p.owned r).length := (List.getElem?_eq_some_iff.1 hi).1
  have hrange : ((p.owned r).map (·.position))[k]? = some k := by
    rw [h.positions r hr, List.getElem?_range hk]
  rw [List.getElem?_map, hi] at hrange
  exact Option.some.inj hrange

end Program.Serial

/-! ## §2. Numbering an outline gives a serial program. -/

namespace Outline

/-- The routines come in the order of their numbers, and each has its places together. -/
theorem pairwise_places (o : Outline) : o.places.Pairwise fun x y => x.1 ≤ y.1 := by
  unfold places
  rw [List.pairwise_flatMap]
  constructor
  · intro b _
    rw [List.pairwise_map]
    exact List.pairwise_of_forall fun _ _ => Nat.le_refl b.2
  · have hnumbers : ((o.zipIdx 1).map (·.2)).Pairwise (· < ·) := by
      rw [List.zipIdx_map_snd]
      exact List.pairwise_lt_range'
    refine (List.pairwise_map.1 hnumbers).imp ?_
    intro b c hbc x hx y hy
    obtain ⟨_, _, rfl⟩ := List.mem_map.1 hx
    obtain ⟨_, _, rfl⟩ := List.mem_map.1 hy
    exact Nat.le_of_lt hbc

theorem number_of_mem_places {o : Outline} {x : Nat × Nat × Operation} (h : x ∈ o.places) :
    1 ≤ x.1 ∧ x.1 ≤ o.length := by
  obtain ⟨b, hb, hx⟩ := List.mem_flatMap.1 h
  obtain ⟨op, -, rfl⟩ := List.mem_map.1 hx
  have hlow : 1 ≤ b.2 := List.le_snd_of_mem_zipIdx hb
  have hhigh : b.2 < o.length + 1 := List.snd_lt_of_mem_zipIdx hb
  exact ⟨hlow, by omega⟩

theorem map_owner_numbered (o : Outline) :
    o.numbered.instructions.map (·.owner) = o.places.map fun x => (x.1 : Int) := by
  have hfst := congrArg (List.map fun x => (x.1 : Int)) (List.zipIdx_map_fst 1 o.places)
  rw [List.map_map] at hfst
  rw [← hfst]
  exact List.map_map

theorem serial_numbered (o : Outline) : o.numbered.Serial where
  routineIds := by
    rw [length_routines_numbered, ← map_zipIdx_eq_idsTo]
    exact List.map_map
  instructionIds := by
    rw [length_instructions_numbered, ← map_zipIdx_eq_idsTo]
    exact List.map_map
  owners := by
    intro i hi
    have howner : i.owner ∈ o.places.map fun x => (x.1 : Int) := by
      rw [← map_owner_numbered]
      exact List.mem_map_of_mem hi
    obtain ⟨x, hx, hid⟩ := List.mem_map.1 howner
    have hnumber := number_of_mem_places hx
    rw [length_routines_numbered]
    omega
  ascending := by
    rw [map_owner_numbered, List.pairwise_map]
    refine o.pairwise_places.imp ?_
    intro x y hxy
    omega
  positions := by
    intro row hrow
    obtain ⟨⟨b, k⟩, hb, rfl⟩ := List.mem_map.1 hrow
    -- `b` is the routine with `k - 1` others before it
    obtain ⟨l, r, rfl, rfl⟩ := eq_append_of_mem_zipIdx hb
    show ((numbered (l ++ b :: r)).owned ⟨(l.length + 1 : Nat), b.1⟩).map (·.position)
      = List.range ((numbered (l ++ b :: r)).owned ⟨(l.length + 1 : Nat), b.1⟩).length
    rw [map_position_owned, length_owned]

end Outline

/-! ## §3. A serial program numbers its outline. -/

/-- Of instructions whose owners do not descend, those of the least owner come first. -/
theorem filter_owner_append {code : List Instruction} {k : Int}
    (hascending : (code.map (·.owner)).Pairwise (· ≤ ·)) (hleast : ∀ i ∈ code, k ≤ i.owner) :
    (code.filter fun i => i.owner = k) ++ (code.filter fun i => i.owner ≠ k) = code := by
  induction code with
  | nil => rfl
  | cons i code ih =>
    rw [List.map_cons, List.pairwise_cons] at hascending
    by_cases hi : i.owner = k
    · have hrest := ih hascending.2 fun j hj => hleast j (List.mem_cons_of_mem i hj)
      rw [List.filter_cons_of_pos (by simp [hi]), List.filter_cons_of_neg (by simp [hi]),
        List.cons_append, hrest]
    · -- from here on all owners are greater
      have hgreater : ∀ j ∈ i :: code, j.owner ≠ k := by
        have hki : k ≤ i.owner := hleast i List.mem_cons_self
        refine List.forall_mem_cons.2 ⟨hi, ?_⟩
        intro j hj
        have hij : i.owner ≤ j.owner := hascending.1 _ (List.mem_map_of_mem hj)
        omega
      rw [List.filter_eq_nil_iff.2, List.nil_append, List.filter_eq_self.2]
      · intro j hj
        simpa using hgreater j hj
      · intro j hj
        simpa using hgreater j hj

/-- Instructions whose owners do not descend are those of each owner, one after another. -/
theorem flatMap_filter_owner {code : List Instruction} {s n : Nat}
    (hascending : (code.map (·.owner)).Pairwise (· ≤ ·))
    (hbounds : ∀ i ∈ code, s ≤ i.owner ∧ i.owner < s + n) :
    ((List.range' s n).flatMap fun k : Nat => code.filter fun i => i.owner = (k : Int)) = code := by
  -- by induction on the number of owners; the first one takes its instructions away
  induction n generalizing s code with
  | zero =>
    have hempty : code = [] := by
      rw [List.eq_nil_iff_forall_not_mem]
      intro i hi
      have := hbounds i hi
      omega
    rw [hempty]
    rfl
  | succ n ih =>
    have hrest : (code.filter fun i => i.owner ≠ (s : Int)).Sublist code := List.filter_sublist
    have hlater := ih (s := s + 1) (hascending.sublist (hrest.map _)) (by
      intro i hi
      have howner : i.owner ≠ s := by simpa using (List.mem_filter.1 hi).2
      have := hbounds i (hrest.subset hi)
      omega)
    rw [List.range'_succ, List.flatMap_cons]
    calc _ = (code.filter fun i => i.owner = (s : Int))
          ++ (List.range' (s + 1) n).flatMap fun k : Nat =>
              (code.filter fun i => i.owner ≠ (s : Int)).filter fun i => i.owner = (k : Int) := by
            congr 1
            apply List.flatMap_congr
            intro k hk
            have hk' : s + 1 ≤ k := (List.mem_range'_1.1 hk).1
            rw [List.filter_filter]
            apply List.filter_congr
            intro i _
            by_cases howner : i.owner = (k : Int)
            · simp [howner]
              omega
            · simp [howner]
      _ = code := by
            rw [hlater]
            exact filter_owner_append hascending fun i hi => (hbounds i hi).1

namespace Program.Serial

variable {p : Program}

/-- The routines in their order own the instructions in their order. -/
theorem flatMap_owned (h : p.Serial) : p.routines.flatMap p.owned = p.instructions := by
  have hbounds : ∀ i ∈ p.instructions,
      ((1 : Nat) : Int) ≤ i.owner ∧ i.owner < (1 : Nat) + p.routines.length := by
    intro i hi
    have := h.owners i hi
    omega
  calc p.routines.flatMap p.owned
      = (p.routines.map (·.id)).flatMap fun k => p.instructions.filter fun i => i.owner = k := by
        rw [List.flatMap_map]
        rfl
    _ = p.instructions := by
        rw [h.routineIds, idsTo, List.flatMap_map]
        exact flatMap_filter_owner h.ascending hbounds

/-- The place of an instruction is its owner and its position. -/
theorem places_outline (h : p.Serial) :
    p.outline.places = p.instructions.map fun i => (i.owner.toNat, i.position, i.operation) := by
  unfold Outline.places Program.outline
  rw [List.zipIdx_map, List.flatMap_map, ← h.flatMap_owned, List.map_flatMap]
  conv_rhs => rw [← List.zipIdx_map_fst 1 p.routines, List.flatMap_map]
  apply List.flatMap_congr
  intro x hx
  have hmem : x.1 ∈ p.routines := List.fst_mem_of_mem_zipIdx hx
  show ((p.body x.1).map (·.operation)).zipIdx.map (fun op => (x.2, op.2, op.1)) = _
  rw [h.body_eq_owned hmem, zipIdx_map_operation (h.positions x.1 hmem), List.map_map]
  apply List.map_congr_left
  intro i hi
  -- the number of the routine is its id, which the instruction carries
  have howner : i.owner = x.1.id := by simpa using (List.mem_filter.1 hi).2
  have hid : x.1.id = x.2 := id_of_mem_zipIdx h.routineIds x hx
  have hnumber : i.owner.toNat = x.2 := by omega
  rw [hnumber]
  rfl

/-- **A serial program is the numbering of its outline.** -/
theorem numbered_outline (h : p.Serial) : p.outline.numbered = p := by
  have hroutines : p.outline.numbered.routines = p.routines := by
    unfold Outline.numbered Program.outline
    rw [List.zipIdx_map, List.map_map]
    refine Eq.trans (List.map_congr_left ?_) (List.zipIdx_map_fst 1 p.routines)
    intro x hx
    have hid : x.1.id = x.2 := id_of_mem_zipIdx h.routineIds x hx
    show (⟨x.2, x.1.name⟩ : Routine) = x.1
    rw [← hid]
  have hinstructions : p.outline.numbered.instructions = p.instructions := by
    unfold Outline.numbered
    rw [h.places_outline, List.zipIdx_map, List.map_map]
    refine Eq.trans (List.map_congr_left ?_) (List.zipIdx_map_fst 1 p.instructions)
    intro x hx
    have hmem : x.1 ∈ p.instructions := List.fst_mem_of_mem_zipIdx hx
    have hid : x.1.id = x.2 := id_of_mem_zipIdx h.instructionIds x hx
    have howner : (x.1.owner.toNat : Int) = x.1.owner := by
      have := h.owners x.1 hmem
      omega
    show (⟨x.2, x.1.owner.toNat, x.1.position, x.1.operation⟩ : Instruction) = x.1
    rw [← hid, howner]
  calc p.outline.numbered
      = ⟨p.outline.numbered.routines, p.outline.numbered.instructions⟩ := rfl
    _ = p := by rw [hroutines, hinstructions]

end Program.Serial

/-! ## §4. Texts. -/

namespace Source

theorem serial_of_assemble {text : String} {p : Program} (h : assemble text = .ok p) :
    p.Serial ∧ p.Listable := by
  obtain ⟨o, ho, rfl⟩ := exists_listable_of_assemble h
  refine ⟨o.serial_numbered, ?_⟩
  rw [Program.listable_iff, Outline.outline_numbered]
  exact ho

/-- The listing of a serial program describes it, if it can be shown at all. -/
theorem assemble_listing_of_serial {p : Program} (h : p.Serial) (hp : p.Listable) :
    assemble p.listing = .ok p := by
  rw [Program.listing_eq, assemble_unlines_listingLines (p.listable_iff.1 hp),
    h.numbered_outline]

/-- **The texts describe the serial programs with different names, all of them words, and
printable operations**, and these only.  In a program that a text describes the body that the
machine runs is the one that the listing shows, and every instruction stands there at the
index that its position says. -/
theorem assembled_iff_serial (p : Program) :
    ((∃ text, assemble text = .ok p)
        ↔ p.Serial ∧ (p.routines.map (·.name)).Nodup ∧ (∀ r ∈ p.routines, IsWord r.name)
            ∧ ∀ i ∈ p.instructions, i.operation.Printable)
      ∧ ∀ text, assemble text = .ok p → ∀ r ∈ p.routines,
          (Image.ofProgram p).body? r.name = some (p.body r)
            ∧ ∀ (k : Nat) (i : Instruction), (p.body r)[k]? = some i → i.position = k := by
  refine ⟨⟨?_, ?_⟩, ?_⟩
  · intro h
    obtain ⟨text, htext⟩ := h
    obtain ⟨hserial, hlistable⟩ := serial_of_assemble htext
    exact ⟨hserial, hserial.listable_iff.1 hlistable⟩
  · intro h
    exact ⟨p.listing, assemble_listing_of_serial h.1 (h.1.listable_iff.2 h.2)⟩
  · intro text htext r hr
    obtain ⟨hserial, hlistable⟩ := serial_of_assemble htext
    refine ⟨Image.body?_ofProgram hlistable.names hserial.nodup_ids hr, ?_⟩
    intro k i hi
    exact hserial.position_of_getElem? hr hi

/-- A routine without instructions, and one whose second instruction asks for a value: its
index in the image is its position. -/
theorem assembled_iff_serial_emptyRoutine :
    let p : Program := ⟨[⟨1, "f"⟩, ⟨2, "main"⟩],
      [⟨1, 2, 0, .call "f"⟩, ⟨2, 2, 1, .input "a \"b\";"⟩]⟩
    (∃ text, assemble text = .ok p)
      ∧ (Image.ofProgram p).body? "main" = some (p.body ⟨2, "main"⟩)
      ∧ ¬ ∃ text, assemble text = .ok ⟨p.routines, p.instructions.reverse⟩ := by
  intro p
  obtain ⟨text, htext⟩ := (assembled_iff_serial p).1.2 (by decide)
  refine ⟨⟨text, htext⟩, ?_, ?_⟩
  · exact ((assembled_iff_serial p).2 text htext ⟨2, "main"⟩ (by decide)).1
  · intro h
    exact absurd ((assembled_iff_serial _).1.1 h).1 (by decide)

end Source

end StackCalc
