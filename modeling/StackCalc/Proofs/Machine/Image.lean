/-
  StackCalc.Proofs.Machine.Image
  ──────────────────────────────
  **BUILDING AN IMAGE.**

  Two ways to know an image without building it:

    • a change of the instructions that keeps owners, positions and labels
      changes the bodies of the image in the same way, and no label;
    • the image of a program whose routines have different names and ids, and
      whose bodies count their positions from zero, is given by the outline of
      the program: its bodies are those of the program, and a label names the
      index at which it stands.
-/
import StackCalc.Machine.Image
import StackCalc.Proofs.Program.Outline

namespace StackCalc

/-! ## §1. Changing instructions in place. -/

namespace Image

variable {g : Instruction → Instruction}

theorem byPosition_map (hposition : ∀ i, (g i).position = i.position)
    (code : List Instruction) : byPosition (code.map g) = (byPosition code).map g := by
  unfold byPosition
  refine (List.map_mergeSort ?_).symm
  intro i _ j _
  unfold Instruction.notAfter
  rw [hposition, hposition]

/-- Instructions changed in place give bodies changed in place. -/
theorem bodiesOf_map (howner : ∀ i, (g i).owner = i.owner)
    (hposition : ∀ i, (g i).position = i.position) (seen : List String)
    (code : List Instruction) (rs : List Routine) :
    bodiesOf seen (code.map g) rs
      = (bodiesOf seen code rs).map fun b => (b.1, b.2.map g) := by
  -- whether an instruction is taken or left depends on its owner alone
  have hfilter : ∀ (keep : Int → Bool) (code : List Instruction),
      (code.map g).filter (fun i => keep i.owner)
        = (code.filter fun i => keep i.owner).map g := by
    intro keep code
    rw [List.filter_map]
    congr 2
    funext i
    show keep (g i).owner = keep i.owner
    rw [howner]
  induction rs generalizing seen code with
  | nil => rfl
  | cons r rs ih =>
    unfold bodiesOf
    by_cases hseen : r.name ∈ seen
    · rw [if_pos hseen, if_pos hseen, ih]
    · rw [if_neg hseen, if_neg hseen, List.map_cons, hfilter (fun k => decide (k = r.id)),
        hfilter (fun k => decide (k ≠ r.id)), byPosition_map hposition, ih]

/-- Labels that stay where they are are found where they were. -/
theorem labelsOf_map (hlabel : ∀ i, labelOf? (g i) = labelOf? i)
    (bodies : List (String × List Instruction)) :
    labelsOf (bodies.map fun b => (b.1, b.2.map g)) = labelsOf bodies := by
  unfold labelsOf
  rw [List.flatMap_map]
  congr 1
  funext b
  rw [List.filterMap_map]
  congr 1
  funext i
  exact hlabel i

/-! ## §2. Routines of different names and ids. -/

/-- Of such routines each takes its own instructions. -/
theorem bodiesOf_eq_map {seen : List String} {rs : List Routine} (code : List Instruction)
    (hseen : ∀ r ∈ rs, r.name ∉ seen) (hnames : (rs.map (·.name)).Nodup)
    (hids : (rs.map (·.id)).Nodup) :
    bodiesOf seen code rs
      = rs.map fun r => (r.name, byPosition (code.filter fun i => i.owner = r.id)) := by
  induction rs generalizing seen code with
  | nil => rfl
  | cons r rs ih =>
    rw [List.map_cons, List.nodup_cons] at hnames hids
    have hnext : ∀ r' ∈ rs, r'.name ∉ r.name :: seen := by
      intro r' hr' hmem
      rcases List.mem_cons.1 hmem with e | hmem
      · exact hnames.1 (e ▸ List.mem_map_of_mem hr')
      · exact hseen r' (List.mem_cons_of_mem _ hr') hmem
    rw [bodiesOf, if_neg (hseen r List.mem_cons_self), List.map_cons,
      ih _ hnext hnames.2 hids.2]
    congr 1
    apply List.map_congr_left
    intro r' hr'
    -- the instructions of `r'` are not among those that `r` took
    have hother : r'.id ≠ r.id := fun e => hids.1 (e ▸ List.mem_map_of_mem hr')
    rw [List.filter_filter]
    congr 3
    funext i
    by_cases howner : i.owner = r'.id
    · simp [howner, hother]
    · simp [howner]

theorem bodies_ofProgram {p : Program} (hnames : (p.routines.map (·.name)).Nodup)
    (hids : (p.routines.map (·.id)).Nodup) :
    (ofProgram p).bodies = p.routines.map fun r => (r.name, p.body r) :=
  bodiesOf_eq_map p.instructions (fun _ _ => List.not_mem_nil) hnames hids

/-- Where the rows of each routine stand in order already, they are its body. -/
theorem ofProgram_eq_owned {p : Program} (hnames : (p.routines.map (·.name)).Nodup)
    (hids : (p.routines.map (·.id)).Nodup)
    (hpositions : ∀ r ∈ p.routines, (p.owned r).map (·.position) = List.range (p.owned r).length) :
    ofProgram p = ⟨p.routines.map fun r => (r.name, p.owned r),
      (labelsOf (p.routines.map fun r => (r.name, p.owned r))).reverse⟩ := by
  have hbodies : (ofProgram p).bodies = p.routines.map fun r => (r.name, p.owned r) := by
    rw [bodies_ofProgram hnames hids]
    apply List.map_congr_left
    intro r hr
    rw [Program.body_eq, byPosition_eq_self (hpositions r hr)]
  show (⟨(ofProgram p).bodies, (labelsOf (ofProgram p).bodies).reverse⟩ : Image) = _
  rw [hbodies]

/-- The body of a routine of such a program is the one that the program shows. -/
theorem body?_ofProgram {p : Program} (hnames : (p.routines.map (·.name)).Nodup)
    (hids : (p.routines.map (·.id)).Nodup) {r : Routine} (hr : r ∈ p.routines) :
    (ofProgram p).body? r.name = some (p.body r) := by
  obtain ⟨before, after, hrows⟩ := List.append_of_mem hr
  have hfirst : ∀ r' ∈ before, r.name ≠ r'.name := by
    rw [hrows, List.map_append, List.nodup_append] at hnames
    intro r' hr'
    exact (hnames.2.2 _ (List.mem_map_of_mem hr') _ List.mem_cons_self).symm
  -- a look-up stops at the first of the name, which is this routine
  unfold body?
  rw [bodies_ofProgram hnames hids, List.lookup_eq_some_iff]
  refine ⟨before.map fun r => (r.name, p.body r), after.map fun r => (r.name, p.body r), ?_, ?_⟩
  · rw [hrows, List.map_append, List.map_cons]
  · intro b hb
    obtain ⟨r', hr', rfl⟩ := List.mem_map.1 hb
    simpa using hfirst r' hr'

/-! ## §3. Labels by index. -/

/-- The label that an operation at index `k` defines. -/
def labelAt? (op : Operation × Nat) : Option (String × Nat) :=
  match op.1 with
  | .label name => some (name, op.2)
  | _ => none

/-- In a body that counts its positions from zero a label names its index. -/
theorem filterMap_labelOf? {code : List Instruction}
    (h : code.map (·.position) = List.range code.length) :
    code.filterMap labelOf? = (code.map (·.operation)).zipIdx.filterMap labelAt? := by
  rw [zipIdx_map_operation h, List.filterMap_map]
  rfl

/-- The labels of the routines, in order. -/
def labelsOfOutline (o : Outline) : List (String × Nat) :=
  o.flatMap fun b => b.2.zipIdx.filterMap labelAt?

theorem labels_ofProgram {p : Program} (hnames : (p.routines.map (·.name)).Nodup)
    (hp : p.Orderly) : (ofProgram p).labels = (labelsOfOutline p.outline).reverse := by
  show (labelsOf (ofProgram p).bodies).reverse = _
  rw [bodies_ofProgram hnames hp.ids]
  unfold labelsOf labelsOfOutline Program.outline
  rw [List.flatMap_map, List.flatMap_map]
  congr 1
  apply List.flatMap_congr
  intro r hr
  exact filterMap_labelOf? (hp.bodies r hr).map_position

end Image

end StackCalc
