/-
  StackCalc.Proofs.Machine.Labels
  ───────────────────────────────
  **WHERE A LABEL IS, AND WHERE A JUMP LANDS.**

  The labels of all routines share one space of names.  An image is scanned body
  by body in the order of its names (`Image.scan`), and the last instruction of
  the scan that defines a label gives the label its position:

      label? name = some k   ↔   the last `LABEL name` of the scan is stored at k

  A jump goes to this number in the routine at the cursor.  In a regular image,
  whose bodies count their positions from zero, the number is the index of the
  last `LABEL name` in the body of the last routine that has one.  If this is the
  routine that jumps, the jump lands on the label, and otherwise on whatever
  stands there at the same index, which may be past the end.
-/
import StackCalc.Proofs.Machine.Bodies
import StackCalc.Proofs.Machine.Move
import StackCalc.Proofs.Source.RoundTrip

namespace StackCalc

/-! ## §1. The last definition of a label. -/

/-- Of the instructions in `code` that define the label, `i` is the last, and `before` is what
stands before it. -/
def IsLastLabel (name : String) (code before : List Instruction) (i : Instruction) : Prop :=
  i.operation = .label name
    ∧ ∃ after, code = before ++ i :: after ∧ ∀ j ∈ after, j.operation ≠ .label name

theorem exists_isLastLabel {name : String} {code : List Instruction}
    (h : ∃ i ∈ code, i.operation = .label name) : ∃ before i, IsLastLabel name code before i := by
  induction code with
  | nil =>
    obtain ⟨i, hi, -⟩ := h
    exact absurd hi List.not_mem_nil
  | cons i code ih =>
    by_cases hlater : ∃ j ∈ code, j.operation = .label name
    · obtain ⟨before, j, hj, after, rfl, hafter⟩ := ih hlater
      exact ⟨i :: before, j, hj, after, rfl, hafter⟩
    · -- no other one follows, so it is the first instruction
      obtain ⟨j, hj, hlabel⟩ := h
      rcases List.mem_cons.1 hj with rfl | hj
      · exact ⟨[], j, hlabel, code, rfl, fun k hk hk' => hlater ⟨k, hk, hk'⟩⟩
      · exact absurd ⟨j, hj, hlabel⟩ hlater

/-- What is put around the code does not matter, if nothing after it defines the label. -/
theorem IsLastLabel.append {name : String} {code before : List Instruction} {i : Instruction}
    (h : IsLastLabel name code before i) (above : List Instruction) {below : List Instruction}
    (hbelow : ∀ j ∈ below, j.operation ≠ .label name) :
    IsLastLabel name (above ++ (code ++ below)) (above ++ before) i := by
  obtain ⟨hlabel, after, rfl, hafter⟩ := h
  refine ⟨hlabel, after ++ below, by simp, ?_⟩
  intro j hj
  rcases List.mem_append.1 hj with hj | hj
  · exact hafter j hj
  · exact hbelow j hj

theorem IsLastLabel.getElem? {name : String} {code before : List Instruction} {i : Instruction}
    (h : IsLastLabel name code before i) : code[before.length]? = some i := by
  obtain ⟨-, after, rfl, -⟩ := h
  simp

namespace Image

theorem labelOf?_eq_some_iff {i : Instruction} {x : String × Nat} :
    labelOf? i = some x ↔ i.operation = .label x.1 ∧ i.position = x.2 := by
  unfold labelOf?
  cases i.operation <;> simp [Prod.ext_iff]

/-- The labels are looked up from the last to the first. -/
theorem lookup_labels_eq_some_iff {name : String} {code : List Instruction} {k : Nat} :
    (code.filterMap labelOf?).reverse.lookup name = some k
      ↔ ∃ before i, IsLastLabel name code before i ∧ i.position = k := by
  rw [List.lookup_eq_some_iff]
  constructor
  · intro h
    obtain ⟨later, earlier, hlabels, hlater⟩ := h
    rw [List.reverse_eq_iff, List.reverse_append, List.reverse_cons, List.append_assoc,
      List.singleton_append] at hlabels
    -- the label comes from an instruction, and the labels after it from those that follow
    obtain ⟨code₁, code₂, rfl, -, hcode₂⟩ := List.filterMap_eq_append_iff.1 hlabels
    obtain ⟨quiet, i, after, rfl, -, hi, hafter⟩ := List.filterMap_eq_cons_iff.1 hcode₂
    obtain ⟨hlabel, hposition⟩ := labelOf?_eq_some_iff.1 hi
    refine ⟨code₁ ++ quiet, i, ⟨hlabel, after, by simp, ?_⟩, hposition⟩
    intro j hj hlabel'
    have hmem : (name, j.position) ∈ later := by
      rw [← List.mem_reverse, ← hafter]
      exact List.mem_filterMap.2 ⟨j, hj, labelOf?_eq_some_iff.2 ⟨hlabel', rfl⟩⟩
    simpa using hlater _ hmem
  · intro h
    obtain ⟨before, i, ⟨hlabel, after, rfl, hafter⟩, rfl⟩ := h
    have hi : labelOf? i = some (name, i.position) := labelOf?_eq_some_iff.2 ⟨hlabel, rfl⟩
    refine ⟨(after.filterMap labelOf?).reverse, (before.filterMap labelOf?).reverse, ?_, ?_⟩
    · rw [List.filterMap_append, List.filterMap_cons_some hi]
      simp
    · intro x hx
      obtain ⟨j, hj, hx⟩ := List.mem_filterMap.1 (List.mem_reverse.1 hx)
      have hne : name ≠ x.1 := by
        rintro rfl
        exact hafter j hj (labelOf?_eq_some_iff.1 hx).1
      simpa using hne

/-! ## §2. The scan. -/

/-- The instructions of an image, body by body in the order of the names. -/
def scan (image : Image) : List Instruction :=
  image.names.flatMap fun name => (image.body? name).getD []

section OfProgram

variable (p : Program)

theorem scan_ofProgram : (ofProgram p).scan = (ofProgram p).bodies.flatMap (·.2) := by
  unfold scan names
  rw [List.flatMap_map]
  apply List.flatMap_congr
  intro b hb
  rw [(body?_eq_some_iff p).2 hb, Option.getD_some]

theorem mem_scan {i : Instruction} :
    i ∈ (ofProgram p).scan ↔ ∃ name body, (ofProgram p).body? name = some body ∧ i ∈ body := by
  rw [scan_ofProgram, List.mem_flatMap]
  simp only [body?_eq_some_iff, Prod.exists]

/-- **A label is where the scan defines it last.** -/
theorem label?_eq_some_iff {name : String} {k : Nat} :
    (ofProgram p).label? name = some k
      ↔ ∃ before i, IsLastLabel name (ofProgram p).scan before i ∧ i.position = k := by
  have hlabels : (ofProgram p).labels = ((ofProgram p).scan.filterMap labelOf?).reverse := by
    rw [scan_ofProgram, List.filterMap_flatMap]
    rfl
  unfold label?
  rw [hlabels, lookup_labels_eq_some_iff]

theorem label?_eq_none_iff {name : String} :
    (ofProgram p).label? name = none ↔ ∀ i ∈ (ofProgram p).scan, i.operation ≠ .label name := by
  constructor
  · intro h i hi hlabel
    obtain ⟨before, j, hj⟩ := exists_isLastLabel ⟨i, hi, hlabel⟩
    rw [(label?_eq_some_iff p).2 ⟨before, j, hj, rfl⟩] at h
    cases h
  · intro h
    rw [Option.eq_none_iff_forall_ne_some]
    intro k hk
    obtain ⟨before, i, ⟨hlabel, after, hscan, -⟩, -⟩ := (label?_eq_some_iff p).1 hk
    refine h i ?_ hlabel
    rw [hscan]
    exact List.mem_append_right _ List.mem_cons_self

end OfProgram

/-! ## §3. The routine that settles a label. -/

/-- The routine defines the label. -/
def Defines (image : Image) (routine name : String) : Prop :=
  ∃ body, image.body? routine = some body ∧ ∃ i ∈ body, i.operation = .label name

/-- Of the routines that define the label, this is the last. -/
def Settles (image : Image) (routine name : String) : Prop :=
  image.Defines routine name
    ∧ ∃ before after, image.names = before ++ routine :: after
        ∧ ∀ other ∈ after, ¬ image.Defines other name

/-- Every body carries the positions from zero on, each once. -/
def Regular (image : Image) : Prop :=
  ∀ name body, image.body? name = some body → Contiguous body

variable {p : Program}

/-- The last routine that defines a label gives it the position of its last definition. -/
theorem Settles.label?_eq {routine name : String} (h : (ofProgram p).Settles routine name) :
    ∃ body before i, (ofProgram p).body? routine = some body ∧ IsLastLabel name body before i
      ∧ (ofProgram p).label? name = some i.position := by
  obtain ⟨⟨body, hbody, hdefines⟩, above, below, hnames, hbelow⟩ := h
  obtain ⟨before, i, hi⟩ := exists_isLastLabel hdefines
  refine ⟨body, before, i, hbody, hi, ?_⟩
  have hquiet : ∀ j ∈ below.flatMap fun other => ((ofProgram p).body? other).getD [],
      j.operation ≠ .label name := by
    intro j hj hlabel
    obtain ⟨other, hother, hj⟩ := List.mem_flatMap.1 hj
    cases hcode : (ofProgram p).body? other with
    | none => simp [hcode] at hj
    | some code =>
      rw [hcode, Option.getD_some] at hj
      exact hbelow other hother ⟨code, hcode, j, hj, hlabel⟩
  have hscan : IsLastLabel name (ofProgram p).scan
      ((above.flatMap fun other => ((ofProgram p).body? other).getD []) ++ before) i := by
    unfold scan
    rw [hnames, List.flatMap_append, List.flatMap_cons, hbody, Option.getD_some]
    exact hi.append _ hquiet
  exact (label?_eq_some_iff p).2 ⟨_, i, hscan, rfl⟩

/-- In a regular image an instruction stands at the index that its position says. -/
theorem Regular.position_eq (h : (ofProgram p).Regular) {routine : String}
    {body before after : List Instruction} {i : Instruction}
    (hbody : (ofProgram p).body? routine = some body) (hcode : body = before ++ i :: after) :
    i.position = before.length := by
  have hsorted : body.Pairwise fun i j => i.position ≤ j.position := by
    rw [body?_eq, Option.map_eq_some_iff] at hbody
    obtain ⟨r, -, rfl⟩ := hbody
    split
    · exact .nil
    · exact pairwise_byPosition _
  have hrange := (h routine body hbody).map_position
  rw [byPosition_of_pairwise hsorted, hcode] at hrange
  have hget := congrArg (·[before.length]?) hrange
  simpa using hget

/-- A program whose routines count their positions from zero has a regular image, and so has
every program that a text describes. -/
theorem regular_of_orderly (h : p.Orderly) : (ofProgram p).Regular := by
  intro name body hbody
  rw [body?_eq, Option.map_eq_some_iff] at hbody
  obtain ⟨r, hr, rfl⟩ := hbody
  split
  · exact List.Perm.refl []
  · have hcode := perm_byPosition (p.owned r)
    show ((byPosition (p.owned r)).map (·.position)).Perm
      (List.range (byPosition (p.owned r)).length)
    rw [hcode.length_eq]
    exact (hcode.map _).trans (h.bodies r (List.mem_of_find?_eq_some hr))

theorem regular_of_assemble {text : String} (h : Source.assemble text = .ok p) :
    (ofProgram p).Regular := by
  obtain ⟨o, -, rfl⟩ := Source.exists_listable_of_assemble h
  exact regular_of_orderly o.orderly_numbered

end Image

/-! ## §4. Jumps. -/

namespace Machine

variable {m : Machine} {image : Image}

/-- The machine at another position of the routine at its cursor; all else stays. -/
def movedTo (m : Machine) (position : Nat) : Machine :=
  { m with cursor := { m.cursor with position } }

/-- A jump to a label that is known moves the cursor to its position, and does nothing else. -/
theorem step_goto {name : String} {k : Nat} (himage : m.image = some image)
    (hphase : m.phase = .running) (hgoto : m.current?.map (·.operation) = some (.goto name))
    (hlabel : image.label? name = some k) (strategy : Strategy) :
    m.step strategy = (m.movedTo k).stepped := by
  rw [← operation?_cursor himage] at hgoto
  rw [step_eq_stepInto, stepInto_of_operation? himage hphase hgoto]
  show m.jump image name = _
  unfold jump
  rw [hlabel]
  rfl

/-- Past the end of its routine a machine leaves it. -/
theorem step_of_past_end {body : List Instruction} (himage : m.image = some image)
    (hphase : m.phase = .running) (hbody : image.body? m.cursor.routine = some body)
    (hend : body.length ≤ m.cursor.position) (strategy : Strategy) :
    m.step strategy = m.leave := by
  have hbody' : m.body? = some body := by
    unfold body?
    rw [himage, Option.bind_some, hbody]
  have hcurrent : m.current? = none := by
    unfold current?
    rw [hbody', Option.bind_some, List.getElem?_eq_none_iff]
    exact hend
  rw [step_eq_stepInto, stepInto_of_running hphase, himage, hbody', hcurrent]

theorem current?_movedTo {body : List Instruction} (himage : m.image = some image)
    (hbody : image.body? m.cursor.routine = some body) (k : Nat) :
    (m.movedTo k).current? = body[k]? := by
  unfold current? body? movedTo
  simp only [himage, Option.bind_some, hbody]

end Machine

/-- **Labels are settled by their last definition, and jumps land at its position.**  In the
last part the machine is in any state in which it is about to carry out a `GOTO`: it goes to
the index at which the routine that settles the label has its last `LABEL`, and nothing else
of it changes.  If this is the routine that jumps, the label is what stands there; past the
end of the routine that jumps, the next step leaves it. -/
theorem labels_settled_and_jumps_land (p : Program) :
    (∀ name, (Image.ofProgram p).label? name = none
        ↔ ∀ routine body, (Image.ofProgram p).body? routine = some body →
            ∀ i ∈ body, i.operation ≠ .label name)
      ∧ (∀ name k, (Image.ofProgram p).label? name = some k
          ↔ ∃ before i, IsLastLabel name (Image.ofProgram p).scan before i ∧ i.position = k)
      ∧ (∀ text, Source.assemble text = .ok p → (Image.ofProgram p).Regular)
      ∧ ((Image.ofProgram p).Regular → ∀ (m : Machine) (name routine : String),
          m.image = some (Image.ofProgram p) → m.phase = .running →
          m.current?.map (·.operation) = some (.goto name) →
          (Image.ofProgram p).Settles routine name →
          ∃ body before i, (Image.ofProgram p).body? routine = some body
            ∧ IsLastLabel name body before i
            ∧ (∀ strategy, m.step strategy = (m.movedTo before.length).stepped)
            ∧ (routine = m.cursor.routine → (m.movedTo before.length).current? = some i)
            ∧ ∀ here, (Image.ofProgram p).body? m.cursor.routine = some here →
                (m.movedTo before.length).current? = here[before.length]?
                  ∧ (here.length ≤ before.length → ∀ strategy,
                      (m.movedTo before.length).step strategy
                        = (m.movedTo before.length).leave)) := by
  refine ⟨?_, fun name k => Image.label?_eq_some_iff p, fun text => Image.regular_of_assemble, ?_⟩
  · intro name
    rw [Image.label?_eq_none_iff]
    constructor
    · intro h routine body hbody i hi
      exact h i ((Image.mem_scan p).2 ⟨routine, body, hbody, hi⟩)
    · intro h i hi
      obtain ⟨routine, body, hbody, hi⟩ := (Image.mem_scan p).1 hi
      exact h routine body hbody i hi
  · intro hregular m name routine himage hphase hgoto hsettles
    obtain ⟨body, before, i, hbody, hlast, hlabel⟩ := hsettles.label?_eq
    have hposition : i.position = before.length := by
      obtain ⟨-, after, hcode, -⟩ := hlast
      exact hregular.position_eq hbody hcode
    rw [hposition] at hlabel
    refine ⟨body, before, i, hbody, hlast, ?_, ?_, ?_⟩
    · exact Machine.step_goto himage hphase hgoto hlabel
    · rintro rfl
      rw [Machine.current?_movedTo himage hbody]
      exact hlast.getElem?
    · intro here hhere
      exact ⟨Machine.current?_movedTo himage hhere _,
        Machine.step_of_past_end (m := m.movedTo before.length) himage hphase hhere⟩

/-- Two routines that define one label; the first of them jumps to it, and is shorter than the
position that the second gives the label. -/
def crossingProgram : Program where
  routines := [⟨1, "main"⟩, ⟨2, "aside"⟩]
  instructions :=
    [⟨3, 2, 0, .add⟩, ⟨1, 1, 0, .label "L"⟩, ⟨4, 2, 1, .add⟩, ⟨2, 1, 1, .goto "L"⟩,
      ⟨5, 2, 2, .label "L"⟩]

/-- A run of `crossingProgram` up to its jump. -/
def crossingHistory : List Request :=
  [.load crossingProgram, .start, .step .into]

theorem labels_settled_and_jumps_land_crossingHistory :
    let m := Machine.after {} crossingHistory
    m.Reachable ∧ m.image = some (Image.ofProgram crossingProgram)
      ∧ (Image.ofProgram crossingProgram).Regular ∧ m.phase = .running
      ∧ m.current?.map (·.operation) = some (.goto "L")
      ∧ (Image.ofProgram crossingProgram).Settles "aside" "L"
      ∧ (∀ strategy, m.step strategy = (m.movedTo 2).stepped)
      ∧ ∀ strategy, (m.movedTo 2).step strategy = (m.movedTo 2).leave := by
  intro m
  have himage : Image.ofProgram crossingProgram
      = ⟨[("main", [⟨1, 1, 0, .label "L"⟩, ⟨2, 1, 1, .goto "L"⟩]),
          ("aside", [⟨3, 2, 0, .add⟩, ⟨4, 2, 1, .add⟩, ⟨5, 2, 2, .label "L"⟩])],
        [("L", 2), ("L", 0)]⟩ := by
    rw [Image.ofProgram_eq_owned (by decide) (by decide) (by decide)]
    rfl
  have hm : m = Machine.after { image := some (Image.ofProgram crossingProgram) }
      [.start, .step .into] := rfl
  have hloaded : m.image = some (Image.ofProgram crossingProgram) := by
    rw [hm, himage]
    rfl
  have hphase : m.phase = .running := by
    rw [hm, himage]
    rfl
  have hgoto : m.current?.map (·.operation) = some (.goto "L") := by
    rw [hm, himage]
    rfl
  have hmain : (Image.ofProgram crossingProgram).body? m.cursor.routine
      = some [⟨1, 1, 0, .label "L"⟩, ⟨2, 1, 1, .goto "L"⟩] := by
    rw [hm, himage]
    rfl
  have haside : (Image.ofProgram crossingProgram).body? "aside"
      = some [⟨3, 2, 0, .add⟩, ⟨4, 2, 1, .add⟩, ⟨5, 2, 2, .label "L"⟩] := by
    rw [himage]
    rfl
  have hregular : (Image.ofProgram crossingProgram).Regular :=
    Image.regular_of_orderly (by decide)
  have hsettles : (Image.ofProgram crossingProgram).Settles "aside" "L" := by
    refine ⟨⟨_, haside, ⟨5, 2, 2, .label "L"⟩, by simp, rfl⟩, ["main"], [], ?_, by simp⟩
    rw [himage]
    rfl
  obtain ⟨body, before, i, hbody, ⟨hlabel, after, hcode, -⟩, hstep, -, hhere⟩ :=
    (labels_settled_and_jumps_land crossingProgram).2.2.2 hregular m "L" "aside" hloaded hphase
      hgoto hsettles
  -- the third instruction is the only one that defines the label
  have hindex : before.length = 2 := by
    have hposition := hregular.position_eq hbody hcode
    have hmem : i ∈ body := by
      rw [hcode]
      exact List.mem_append_right _ List.mem_cons_self
    obtain rfl := Option.some.inj (haside.symm.trans hbody)
    simp only [List.mem_cons, List.not_mem_nil, or_false] at hmem
    rcases hmem with rfl | rfl | rfl
    · cases hlabel
    · cases hlabel
    · exact hposition.symm
  rw [hindex] at hstep hhere
  exact ⟨⟨crossingHistory, rfl⟩, hloaded, hregular, hphase, hgoto, hsettles, hstep,
    (hhere _ hmain).2 (Nat.le_refl 2)⟩

end StackCalc
