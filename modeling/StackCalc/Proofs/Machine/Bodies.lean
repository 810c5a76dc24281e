/-
  StackCalc.Proofs.Machine.Bodies
  ───────────────────────────────
  **WHICH BODY A NAME HAS.**

  The rows of a program may repeat names and share ids.  Building an image goes
  through them once.  A row counts if no row before it has its name
  (`Program.Leads`), and it takes all instructions that carry its id, so of the
  rows that count and share an id the first has them all and the others have
  none (`Program.Preempted`):

      body? name = (routine? name).map fun r => if Preempted r then [] else body r

  So apart from shared ids the machine runs what the listing shows, and every
  instruction that belongs to a row that counts stands in exactly one body.
-/
import Mathlib.Data.List.Pairwise
import StackCalc.Proofs.Machine.Image

namespace StackCalc

/-! ## §1. Rows that count. -/

namespace Program

/-- The row is the first of its name. -/
def Leads (p : Program) (r : Routine) : Prop :=
  p.routine? r.name = some r

/-- The rows before the first of a name. -/
def rowsAbove (p : Program) (name : String) : List Routine :=
  p.routines.takeWhile fun r => r.name ≠ name

/-- The instructions of the row were taken: a row above it has the same id and is
the first of its own name. -/
def Preempted (p : Program) (r : Routine) : Prop :=
  ∃ r' ∈ p.rowsAbove r.name, p.Leads r' ∧ r'.id = r.id

/-- The instruction belongs to a row that is the first of its name. -/
def Placed (p : Program) (i : Instruction) : Prop :=
  ∃ r ∈ p.routines, p.Leads r ∧ r.id = i.owner

instance (p : Program) : DecidablePred p.Leads := fun _ => inferInstanceAs (Decidable (_ = _))

instance (p : Program) : DecidablePred p.Preempted := fun r =>
  inferInstanceAs (Decidable (∃ r' ∈ p.rowsAbove r.name, p.Leads r' ∧ r'.id = r.id))

instance (p : Program) : DecidablePred p.Placed := fun i =>
  inferInstanceAs (Decidable (∃ r ∈ p.routines, p.Leads r ∧ r.id = i.owner))

end Program

namespace Image

/-- The rows of `rs` that count, if the names in `seen` have a body already. -/
def leading (seen : List String) : List Routine → List Routine
  | [] => []
  | r :: rs =>
    if r.name ∈ seen then leading seen rs else r :: leading (r.name :: seen) rs

variable {seen : List String} {code : List Instruction} {rs : List Routine}

/-- The rows that count are those that a search for their names finds. -/
theorem mem_leading {r : Routine} :
    r ∈ leading seen rs ↔ r.name ∉ seen ∧ rs.find? (fun s => s.name = r.name) = some r := by
  induction rs generalizing seen with
  | nil => simp [leading]
  | cons s rs ih =>
    by_cases hname : s.name = r.name
    · -- the search stops here, and further rows of this name do not count
      rw [List.find?_cons_of_pos (by simpa using hname), leading]
      by_cases hseen : s.name ∈ seen
      · rw [if_pos hseen, ih]
        simp [← hname, hseen]
      · rw [if_neg hseen, List.mem_cons, ih]
        simp [← hname, hseen, eq_comm]
    · have hne : r ≠ s := fun e => hname (by rw [e])
      rw [List.find?_cons_of_neg (by simpa using hname), leading]
      by_cases hseen : s.name ∈ seen
      · rw [if_pos hseen, ih]
      · rw [if_neg hseen, List.mem_cons, ih]
        simp [hne, Ne.symm hname]

/-- Of the first rows of a program those count that count among all. -/
theorem mem_leading_iff_leads {p : Program} {above below : List Routine}
    (hrows : p.routines = above ++ below) {r : Routine} :
    r ∈ leading [] above ↔ r ∈ above ∧ p.Leads r := by
  unfold Program.Leads Program.routine?
  rw [mem_leading, hrows, List.find?_append]
  constructor
  · intro h
    exact ⟨List.mem_of_find?_eq_some h.2, by rw [h.2, Option.some_or]⟩
  · intro h
    -- the name occurs above, so the search ends there
    have hfound : (above.find? fun s => s.name = r.name).isSome = true :=
      List.find?_isSome.2 ⟨r, h.1, by simp⟩
    obtain ⟨s, hs⟩ := Option.isSome_iff_exists.1 hfound
    rw [hs, Option.some_or] at h
    exact ⟨List.not_mem_nil, hs.trans h.2⟩

/-- The names of the rows that count come in the order in which they first occur. -/
theorem pairwise_leading : (leading seen rs).Pairwise fun r s =>
    (rs.map (·.name)).idxOf r.name < (rs.map (·.name)).idxOf s.name := by
  induction rs generalizing seen with
  | nil => exact .nil
  | cons t rs ih =>
    -- one more row above moves every other name by one
    have hmove : ∀ r : Routine, r.name ≠ t.name →
        (((t :: rs).map (·.name)).idxOf r.name) = (rs.map (·.name)).idxOf r.name + 1 :=
      fun r hr => List.idxOf_cons_ne _ hr.symm
    have hlater : ∀ seen', (∀ r ∈ leading seen' rs, r.name ≠ t.name) →
        (leading seen' rs).Pairwise fun r s =>
          ((t :: rs).map (·.name)).idxOf r.name < ((t :: rs).map (·.name)).idxOf s.name := by
      intro seen' hother
      refine List.Pairwise.imp_of_mem ?_ ih
      intro r s hr hs hrs
      rw [hmove r (hother r hr), hmove s (hother s hs)]
      omega
    rw [leading]
    by_cases hseen : t.name ∈ seen
    · rw [if_pos hseen]
      apply hlater
      intro r hr e
      exact (mem_leading.1 hr).1 (e ▸ hseen)
    · rw [if_neg hseen, List.pairwise_cons]
      have hother : ∀ r ∈ leading (t.name :: seen) rs, r.name ≠ t.name := by
        intro r hr e
        exact (mem_leading.1 hr).1 (e ▸ List.mem_cons_self)
      refine ⟨?_, hlater _ hother⟩
      intro r hr
      rw [hmove r (hother r hr), List.map_cons, List.idxOf_cons_self]
      omega

/-! ## §2. Bodies, row by row. -/

/-- The rows that count give the names. -/
theorem map_fst_bodiesOf :
    (bodiesOf seen code rs).map (·.1) = (leading seen rs).map (·.name) := by
  induction rs generalizing seen code with
  | nil => rfl
  | cons r rs ih =>
    rw [bodiesOf, leading]
    by_cases hseen : r.name ∈ seen
    · rw [if_pos hseen, if_pos hseen, ih]
    · rw [if_neg hseen, if_neg hseen, List.map_cons, List.map_cons, ih]

/-- Rows below others find their names among those seen, and their instructions among those
that were left. -/
theorem bodiesOf_append (above below : List Routine) :
    bodiesOf seen code (above ++ below)
      = bodiesOf seen code above
        ++ bodiesOf (((leading seen above).map (·.name)).reverse ++ seen)
            (code.filter fun i => i.owner ∉ (leading seen above).map (·.id)) below := by
  induction above generalizing seen code with
  | nil => simp [bodiesOf, leading]
  | cons r above ih =>
    rw [List.cons_append, bodiesOf, bodiesOf, leading]
    by_cases hseen : r.name ∈ seen
    · rw [if_pos hseen, if_pos hseen, if_pos hseen, ih]
    · rw [if_neg hseen, if_neg hseen, if_neg hseen, ih, List.cons_append, List.filter_filter]
      congr 3
      · simp
      · apply List.filter_congr
        intro i _
        by_cases howner : i.owner = r.id <;> simp [howner]

/-- What the rows that count take, all together. -/
theorem flatMap_bodiesOf_perm : ((bodiesOf seen code rs).flatMap (·.2)).Perm
    (code.filter fun i => i.owner ∈ (leading seen rs).map (·.id)) := by
  induction rs generalizing seen code with
  | nil => simp [bodiesOf, leading]
  | cons r rs ih =>
    rw [bodiesOf, leading]
    by_cases hseen : r.name ∈ seen
    · rw [if_pos hseen, if_pos hseen]
      exact ih
    · rw [if_neg hseen, if_neg hseen, List.flatMap_cons]
      -- `r` takes the instructions with its id, and the rows below it those of the others
      have hsplit := List.filter_append_perm (fun i : Instruction => decide (i.owner = r.id))
        (code.filter fun i => i.owner ∈ (r :: leading (r.name :: seen) rs).map (·.id))
      have hfirst :
          ((code.filter fun i => i.owner ∈ (r :: leading (r.name :: seen) rs).map (·.id)).filter
            fun i => decide (i.owner = r.id)) = code.filter fun i => i.owner = r.id := by
        rw [List.filter_filter]
        apply List.filter_congr
        intro i _
        simp +contextual
      have hlater :
          ((code.filter fun i => i.owner ∈ (r :: leading (r.name :: seen) rs).map (·.id)).filter
            fun i => !decide (i.owner = r.id))
          = (code.filter fun i => i.owner ≠ r.id).filter
              fun i => i.owner ∈ (leading (r.name :: seen) rs).map (·.id) := by
        rw [List.filter_filter, List.filter_filter]
        apply List.filter_congr
        intro i _
        by_cases howner : i.owner = r.id <;> simp [howner]
      rw [hfirst, hlater] at hsplit
      exact ((perm_byPosition _).append ih).trans hsplit

/-- No two bodies have instructions of one owner. -/
theorem pairwise_owner_bodiesOf : (bodiesOf seen code rs).Pairwise fun b c =>
    ∀ i ∈ b.2, ∀ j ∈ c.2, i.owner ≠ j.owner := by
  have hfrom : ∀ {seen code} {rs : List Routine}, ∀ b ∈ bodiesOf seen code rs, ∀ i ∈ b.2,
      i ∈ code := by
    intro seen code rs b hb i hi
    have hmem : i ∈ (bodiesOf seen code rs).flatMap (·.2) := List.mem_flatMap.2 ⟨b, hb, hi⟩
    exact (List.mem_filter.1 (flatMap_bodiesOf_perm.mem_iff.1 hmem)).1
  induction rs generalizing seen code with
  | nil => exact .nil
  | cons r rs ih =>
    rw [bodiesOf]
    by_cases hseen : r.name ∈ seen
    · rw [if_pos hseen]
      exact ih
    · rw [if_neg hseen, List.pairwise_cons]
      refine ⟨?_, ih⟩
      intro c hc i hi j hj hij
      have hi' : i.owner = r.id := by
        simpa using (List.mem_filter.1 ((perm_byPosition _).mem_iff.1 hi)).2
      have hj' : j.owner ≠ r.id := by
        simpa using (List.mem_filter.1 (hfrom c hc j hj)).2
      exact hj' (hij ▸ hi')

/-! ## §3. Images. -/

section OfProgram

variable (p : Program)

theorem names_ofProgram : (ofProgram p).names = (leading [] p.routines).map (·.name) :=
  map_fst_bodiesOf

theorem mem_names_ofProgram {name : String} :
    name ∈ (ofProgram p).names ↔ ∃ r ∈ p.routines, r.name = name := by
  rw [names_ofProgram, List.mem_map]
  constructor
  · intro h
    obtain ⟨r, hr, rfl⟩ := h
    exact ⟨r, List.mem_of_find?_eq_some (mem_leading.1 hr).2, rfl⟩
  · intro h
    obtain ⟨s, hs, rfl⟩ := h
    have hfound : (p.routines.find? fun r => r.name = s.name).isSome = true :=
      List.find?_isSome.2 ⟨s, hs, by simp⟩
    obtain ⟨r, hr⟩ := Option.isSome_iff_exists.1 hfound
    have hname : r.name = s.name := by simpa using List.find?_some hr
    exact ⟨r, mem_leading.2 ⟨List.not_mem_nil, by rw [hname, hr]⟩, hname⟩

theorem nodup_names_ofProgram : (ofProgram p).names.Nodup := by
  rw [names_ofProgram]
  refine List.pairwise_map.2 (pairwise_leading.imp ?_)
  intro r s hrs e
  rw [e] at hrs
  exact Nat.lt_irrefl _ hrs

/-- Every entry is what its name is looked up to. -/
theorem body?_eq_some_iff {name : String} {body : List Instruction} :
    (ofProgram p).body? name = some body ↔ (name, body) ∈ (ofProgram p).bodies := by
  unfold body?
  rw [List.lookup_eq_some_iff]
  constructor
  · intro h
    obtain ⟨before, after, hbodies, -⟩ := h
    rw [hbodies]
    exact List.mem_append_right _ List.mem_cons_self
  · intro h
    obtain ⟨before, after, hbodies⟩ := List.append_of_mem h
    refine ⟨before, after, hbodies, ?_⟩
    intro b hb
    have hnodup := nodup_names_ofProgram p
    rw [names, hbodies, List.map_append, List.nodup_append] at hnodup
    have hne := hnodup.2.2 _ (List.mem_map_of_mem hb) name (List.mem_map_of_mem List.mem_cons_self)
    simpa using hne.symm

/-- The row that the name of a routine is looked up to takes the instructions with its id, if
none of the rows above that count has them. -/
theorem body?_of_routine? {name : String} {r : Routine} (h : p.routine? name = some r) :
    (ofProgram p).body? name = some (if p.Preempted r then [] else p.body r) := by
  obtain ⟨hname, above, below, hrows, habove⟩ := List.find?_eq_some_iff_append.1 h
  obtain rfl : r.name = name := by simpa using hname
  have hother : ∀ s ∈ above, s.name ≠ r.name := by
    intro s hs
    simpa using habove s hs
  have hfresh : r.name ∉ ((leading [] above).map (·.name)).reverse ++ [] := by
    simp only [List.append_nil, List.mem_reverse, List.mem_map, not_exists, not_and]
    intro s hs
    exact hother s ((mem_leading_iff_leads hrows).1 hs).1
  have hrowsAbove : p.rowsAbove r.name = above := by
    unfold Program.rowsAbove
    rw [hrows, List.takeWhile_append_of_pos (by simpa using hother),
      List.takeWhile_cons_of_neg (by simp), List.append_nil]
  have hpreempted : p.Preempted r ↔ r.id ∈ (leading [] above).map (·.id) := by
    unfold Program.Preempted
    rw [hrowsAbove, List.mem_map]
    simp only [mem_leading_iff_leads hrows, and_assoc]
  show ((bodiesOf [] p.instructions p.routines).lookup r.name) = _
  rw [hrows, bodiesOf_append, bodiesOf, if_neg hfresh, List.lookup_append, List.lookup_cons_self,
    List.lookup_eq_none_iff.2, Option.none_or, List.filter_filter]
  · congr 1
    by_cases htaken : r.id ∈ (leading [] above).map (·.id)
    · rw [if_pos (hpreempted.2 htaken), List.filter_eq_nil_iff.2]
      · exact List.mergeSort_nil
      · intro i _
        simp only [Bool.and_eq_true, decide_eq_true_eq, not_and, not_not]
        intro howner
        rw [howner]
        exact htaken
    · rw [if_neg fun h => htaken (hpreempted.1 h), Program.body_eq, Program.owned]
      congr 1
      apply List.filter_congr
      intro i _
      by_cases howner : i.owner = r.id
      · simpa [howner] using htaken
      · simp [howner]
  · intro b hb
    have hmem : b.1 ∈ (leading [] above).map (·.name) :=
      map_fst_bodiesOf ▸ List.mem_map_of_mem hb
    have hne : r.name ≠ b.1 := by
      intro e
      exact hfresh (by simpa [e] using hmem)
    simpa using hne

/-- **The body of a name.** -/
theorem body?_eq (name : String) :
    (ofProgram p).body? name
      = (p.routine? name).map fun r => if p.Preempted r then [] else p.body r := by
  cases hr : p.routine? name with
  | some r => exact body?_of_routine? p hr
  | none =>
    unfold body?
    rw [Option.map_none, List.lookup_eq_none_iff]
    intro b hb
    have hmem : b.1 ∈ (ofProgram p).names := List.mem_map_of_mem hb
    obtain ⟨r, hr', hname⟩ := (mem_names_ofProgram p).1 hmem
    have hne : name ≠ b.1 := by
      rintro rfl
      have hnone := List.find?_eq_none.1 hr r hr'
      simp [hname] at hnone
    simpa using hne

theorem body?_eq_none_iff {name : String} :
    (ofProgram p).body? name = none ↔ ∀ r ∈ p.routines, r.name ≠ name := by
  rw [body?_eq, Option.map_eq_none_iff, Program.routine?, List.find?_eq_none]
  simp

/-- The instructions in the bodies are those that belong to a row that counts. -/
theorem flatMap_bodies_perm : ((ofProgram p).bodies.flatMap (·.2)).Perm
    (p.instructions.filter fun i => p.Placed i) := by
  have hplaced : ∀ i, i.owner ∈ (leading [] p.routines).map (·.id) ↔ p.Placed i := by
    intro i
    have hleads : ∀ r, r ∈ leading [] p.routines ↔ r ∈ p.routines ∧ p.Leads r :=
      fun r => mem_leading_iff_leads (List.append_nil _).symm
    unfold Program.Placed
    rw [List.mem_map]
    simp only [hleads, and_assoc]
  have hperm : ((bodiesOf [] p.instructions p.routines).flatMap (·.2)).Perm
      (p.instructions.filter fun i => i.owner ∈ (leading [] p.routines).map (·.id)) :=
    flatMap_bodiesOf_perm
  simp only [hplaced] at hperm
  exact hperm

theorem mem_bodies_iff {i : Instruction} :
    (∃ name body, (ofProgram p).body? name = some body ∧ i ∈ body)
      ↔ i ∈ p.instructions ∧ p.Placed i := by
  have hmem : i ∈ (ofProgram p).bodies.flatMap (·.2) ↔ i ∈ p.instructions ∧ p.Placed i := by
    rw [(flatMap_bodies_perm p).mem_iff, List.mem_filter, decide_eq_true_iff]
  rw [← hmem, List.mem_flatMap]
  simp only [body?_eq_some_iff, Prod.exists]

/-- An instruction stands in one body at most. -/
theorem name_unique {name name' : String} {body body' : List Instruction} {i : Instruction}
    (h : (ofProgram p).body? name = some body) (hi : i ∈ body)
    (h' : (ofProgram p).body? name' = some body') (hi' : i ∈ body') : name = name' := by
  rw [body?_eq_some_iff] at h h'
  by_contra hne
  have hapart : (ofProgram p).bodies.Pairwise fun b c => ∀ i ∈ b.2, ∀ j ∈ c.2, i.owner ≠ j.owner :=
    pairwise_owner_bodiesOf
  have hsymm : Std.Symm fun b c : String × List Instruction =>
      ∀ i ∈ b.2, ∀ j ∈ c.2, i.owner ≠ j.owner :=
    ⟨fun b c hbc j hj i hi => (hbc i hi j hj).symm⟩
  have hentries : (name, body) ≠ (name', body') := fun e => hne (congrArg Prod.fst e)
  exact hapart.forall h h' hentries i hi i hi' rfl

end OfProgram

/-! ## §4. What an image shows. -/

/-- What an image has to say of a stored program. -/
structure Shows (image : Image) (p : Program) : Prop where
  /-- A name has a body unless no row has the name. -/
  known : ∀ name, image.body? name = none ↔ ∀ r ∈ p.routines, r.name ≠ name
  /-- It is the body of the first row of the name, and empty if a row above that is the first
  of its own name has the same id. -/
  body : ∀ name, image.body? name
    = (p.routine? name).map fun r => if p.Preempted r then [] else p.body r
  /-- Bodies go by position, and where positions are equal by the order of the rows. -/
  order : ∀ r, ((p.body r).Pairwise fun i j => i.position ≤ j.position)
    ∧ ∀ k, ((p.body r).filter fun i => i.position = k)
        = p.instructions.filter fun i => i.owner = r.id ∧ i.position = k
  /-- Each name is listed once. -/
  distinct : image.names.Nodup
  listed : ∀ name, name ∈ image.names ↔ ∃ r ∈ p.routines, r.name = name
  /-- The names come in the order in which they first occur. -/
  ordered : image.names.Pairwise fun a b =>
    (p.routines.map (·.name)).idxOf a < (p.routines.map (·.name)).idxOf b
  /-- An instruction that belongs to the first row of a name stands in exactly one body. -/
  placed : ∀ i ∈ p.instructions, p.Placed i →
    ∃! name, ∃ body, image.body? name = some body ∧ i ∈ body
  /-- Any other instruction stands in none. -/
  dropped : ∀ i, ¬ p.Placed i → ∀ name body, image.body? name = some body → i ∉ body
  /-- The bodies hold these instructions as often as the rows do. -/
  counted : (image.bodies.flatMap (·.2)).Perm (p.instructions.filter fun i => p.Placed i)

end Image

/-- **The image that a machine runs shows the stored program**, whatever its rows are. -/
theorem image_shows_program (p : Program) : (Image.ofProgram p).Shows p where
  known _ := Image.body?_eq_none_iff p
  body := Image.body?_eq p
  order := by
    intro r
    rw [Program.body_eq]
    refine ⟨pairwise_byPosition _, ?_⟩
    intro k
    rw [filter_byPosition, Program.owned, List.filter_filter]
    apply List.filter_congr
    intro i _
    simp [Bool.and_comm]
  distinct := Image.nodup_names_ofProgram p
  listed _ := Image.mem_names_ofProgram p
  ordered := by
    rw [Image.names_ofProgram, List.pairwise_map]
    exact Image.pairwise_leading
  placed := by
    intro i hi hplaced
    obtain ⟨name, body, hbody, hmem⟩ := (Image.mem_bodies_iff p).2 ⟨hi, hplaced⟩
    refine ⟨name, ⟨body, hbody, hmem⟩, ?_⟩
    intro name' h
    obtain ⟨body', hbody', hmem'⟩ := h
    exact Image.name_unique p hbody' hmem' hbody hmem
  dropped := by
    intro i hplaced name body hbody hmem
    exact hplaced ((Image.mem_bodies_iff p).1 ⟨name, body, hbody, hmem⟩).2
  counted := Image.flatMap_bodies_perm p

-- the second row does not count, so it takes nothing; the last one finds its id taken
example :
    let p : Program := ⟨[⟨1, "a"⟩, ⟨2, "a"⟩, ⟨2, "b"⟩, ⟨1, "c"⟩], []⟩
    ¬ p.Preempted ⟨2, "b"⟩ ∧ p.Preempted ⟨1, "c"⟩ := by
  decide

end StackCalc
