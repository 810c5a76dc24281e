/-
  StackCalc.Proofs.Machine.Leaving
  ────────────────────────────────
  **HOW A ROUTINE IS LEFT.**

  No operation looks at a value to decide where to go on, so which operations are
  carried out from a place until its routine is left is a matter of the program
  alone, if the routine is ever left.  `Image.Leaves` says which, and they are
  determined by the place:

      Leaves l ops  →  Leaves l ops'  →  ops = ops'

  A run that finishes leaves every routine that is open, and what it carries out is
  the operations of these routines one after the other (`unwinds_of_finished`).
-/
import StackCalc.Proofs.Machine.Move

namespace StackCalc

/-! ## §1. Leaving a routine. -/

/-- From a place these operations are carried out, in order, and then the routine is
left.  Those of the routines that it calls are among them. -/
inductive Image.Leaves (image : Image) : Location → List Operation → Prop
  | past {l : Location} (hend : image.operation? l = none) : Leaves image l []
  | along {l l' : Location} {op : Operation} {ops : List Operation}
      (hop : image.operation? l = some op) (hcall : ∀ name, op ≠ .call name)
      (hnext : image.successor? l = some l') (h : Leaves image l' ops) :
      Leaves image l (op :: ops)
  | call {l : Location} {name : String} {inner ops : List Operation}
      (hop : image.operation? l = some (.call name)) (hinner : Leaves image ⟨name, 0⟩ inner)
      (h : Leaves image l.next ops) : Leaves image l (.call name :: (inner ++ ops))

namespace Image

variable {image : Image} {l l' : Location} {ops : List Operation}

theorem Leaves.eq_nil (h : image.Leaves l ops) (hend : image.operation? l = none) : ops = [] := by
  cases h with
  | past _ => rfl
  | along hop _ _ _ | call hop _ _ =>
    rw [hend] at hop
    cases hop

theorem Leaves.of_along {op : Operation} (h : image.Leaves l ops)
    (hop : image.operation? l = some op) (hcall : ∀ name, op ≠ .call name)
    (hnext : image.successor? l = some l') :
    ∃ rest, ops = op :: rest ∧ image.Leaves l' rest := by
  cases h with
  | past hend =>
    rw [hop] at hend
    cases hend
  | along hop' _ hnext' h =>
    rw [hop] at hop'
    rw [hnext] at hnext'
    cases hop'
    cases hnext'
    exact ⟨_, rfl, h⟩
  | call hop' _ _ =>
    rw [hop] at hop'
    cases hop'
    exact absurd rfl (hcall _)

theorem Leaves.of_call {name : String} (h : image.Leaves l ops)
    (hop : image.operation? l = some (.call name)) :
    ∃ inner rest, ops = .call name :: (inner ++ rest) ∧ image.Leaves ⟨name, 0⟩ inner
      ∧ image.Leaves l.next rest := by
  cases h with
  | past hend =>
    rw [hop] at hend
    cases hend
  | along hop' hcall _ _ =>
    rw [hop] at hop'
    cases hop'
    exact absurd rfl (hcall _)
  | call hop' hinner h =>
    rw [hop] at hop'
    cases hop'
    exact ⟨_, _, rfl, hinner, h⟩

/-- **What is carried out until a routine is left is determined by the place.** -/
theorem Leaves.unique {ops' : List Operation} (h : image.Leaves l ops) (h' : image.Leaves l ops') :
    ops = ops' := by
  induction h generalizing ops' with
  | past hend => exact (h'.eq_nil hend).symm
  | along hop hcall hnext _ ih =>
    obtain ⟨rest, rfl, hrest⟩ := h'.of_along hop hcall hnext
    rw [ih hrest]
  | call hop _ _ ihinner ih =>
    obtain ⟨inner, rest, rfl, hinner, hrest⟩ := h'.of_call hop
    rw [ihinner hinner, ih hrest]

/-- Where a routine goes on, less is left to be carried out. -/
theorem Leaves.of_successor? (h : image.Leaves l ops) (hnext : image.successor? l = some l') :
    ∃ rest, image.Leaves l' rest ∧ rest.length < ops.length := by
  cases h with
  | past hend =>
    unfold successor? at hnext
    rw [hend] at hnext
    cases hnext
  | along _ _ hnext' h =>
    rw [hnext] at hnext'
    cases hnext'
    exact ⟨_, h, Nat.lt_succ_self _⟩
  | call hop _ h =>
    rw [successor?_of_ne_goto hop (by simp)] at hnext
    cases hnext
    refine ⟨_, h, ?_⟩
    rw [List.length_cons, List.length_append]
    omega

/-! ## §2. Leaving all routines that are open. -/

/-- Going on at the first of these places, its routine is left after the first of the
operations, then the routine of the second place is left, and so on. -/
inductive Unwinds (image : Image) : List Location → List Operation → Prop
  | nil : Unwinds image [] []
  | cons {l : Location} {ls : List Location} {ops rest : List Operation}
      (h : image.Leaves l ops) (hrest : Unwinds image ls rest) :
      Unwinds image (l :: ls) (ops ++ rest)

theorem unwinds_singleton_iff : image.Unwinds [l] ops ↔ image.Leaves l ops := by
  constructor
  · intro h
    cases h with
    | cons h hrest =>
      cases hrest
      rw [List.append_nil]
      exact h
  · intro h
    rw [← List.append_nil ops]
    exact .cons h .nil

variable {ls ls' : List Location} {op : Option Operation}

/-- One step back: what is to be carried out before a move.  A call that waits goes on
at the next place. -/
theorem Shift.unwinds (hshift : image.Shift (l :: ls) op (l' :: ls'))
    (h : image.Unwinds (l' :: ls'.map Location.next) ops) :
    image.Unwinds (l :: ls.map Location.next) (op.toList ++ ops) := by
  cases hshift with
  | along hop hcall hnext =>
    cases h with
    | cons h hrest =>
      rw [← List.append_assoc]
      exact .cons (.along hop hcall hnext h) hrest
  | enter hop _ =>
    cases h with
    | cons hinner hrest =>
      cases hrest with
      | cons h hrest =>
        have hcall := Unwinds.cons (Leaves.call hop hinner h) hrest
        rw [List.cons_append, List.append_assoc] at hcall
        exact hcall
  | leave hend => exact .cons (.past hend) h

/-- One step forward: what is to be carried out after a move. -/
theorem Unwinds.shift (h : image.Unwinds (l :: ls.map Location.next) ops)
    (hshift : image.Shift (l :: ls) op (l' :: ls')) :
    ∃ rest, ops = op.toList ++ rest ∧ image.Unwinds (l' :: ls'.map Location.next) rest := by
  cases h with
  | cons hleaves hrest =>
    cases hshift with
    | along hop hcall hnext =>
      obtain ⟨rest, rfl, hnext⟩ := hleaves.of_along hop hcall hnext
      exact ⟨_, rfl, .cons hnext hrest⟩
    | enter hop _ =>
      obtain ⟨inner, rest, rfl, hinner, hnext⟩ := hleaves.of_call hop
      refine ⟨_, ?_, .cons hinner (.cons hnext hrest)⟩
      rw [List.cons_append, List.append_assoc]
      rfl
    | leave hend =>
      rw [hleaves.eq_nil hend]
      exact ⟨_, rfl, hrest⟩

end Image

/-! ## §3. Runs that finish. -/

namespace Machine

variable {m : Machine} {image : Image} {r : Request} {run : List Request}

/-- The places at which the open routines go on, the innermost first. -/
def resumptions (m : Machine) : List Location :=
  m.cursor :: m.frames.map Location.next

theorem resumptions_eq_of_places_eq {n : Machine} (h : n.places = m.places) :
    n.resumptions = m.resumptions := by
  obtain ⟨hcursor, hframes⟩ := List.cons.inj h
  unfold resumptions
  rw [hcursor, hframes]

/-- The operations that a run carries out, in order. -/
def trace (m : Machine) : List Request → List Operation
  | [] => []
  | r :: run => (m.carriedOut? r).toList ++ (m.handle r).machine.trace run

/-- A run that is over stays so. -/
theorem phase_handle_of_finished (hphase : m.phase = .finished) (hr : r.continues = true) :
    (m.handle r).machine.phase = .finished := by
  rcases m.handle_cases hr with hrests | ⟨image, hmoved⟩
  · rcases hrests.phase with heq | ⟨⟨prompt, hwaiting⟩, -⟩
    · rw [heq, hphase]
    · rw [hphase] at hwaiting
      cases hwaiting
  · rw [hmoved.running] at hphase
    cases hphase

theorem trace_of_finished (hphase : m.phase = .finished) (hrun : ∀ r ∈ run, r.continues = true) :
    m.trace run = [] := by
  induction run generalizing m with
  | nil => rfl
  | cons r run ih =>
    have hne : m.phase ≠ .running := by
      rw [hphase]
      exact Phase.noConfusion
    rw [trace, carriedOut?_of_ne_running hne,
      ih (phase_handle_of_finished hphase (hrun r List.mem_cons_self)) fun x hx =>
        hrun x (List.mem_cons_of_mem _ hx)]
    rfl

/-- **A run that finishes leaves every open routine**, and carries out what this
takes. -/
theorem unwinds_of_finished (himage : m.image = some image)
    (hrun : ∀ r ∈ run, r.continues = true) (hfinished : ∃ x ∈ m.responses run, x.reply = .finished) :
    image.Unwinds m.resumptions (m.trace run) := by
  -- backwards from the end, by induction on the run
  induction run generalizing m with
  | nil =>
    obtain ⟨x, hx, -⟩ := hfinished
    exact absurd hx List.not_mem_nil
  | cons r run ih =>
    have hr : r.continues = true := hrun r List.mem_cons_self
    have hrest : ∀ x ∈ run, x.continues = true := fun x hx => hrun x (List.mem_cons_of_mem _ hx)
    have hlater : (m.handle r).reply ≠ .finished →
        image.Unwinds (m.handle r).machine.resumptions ((m.handle r).machine.trace run) := by
      intro hreply
      refine ih ((image_handle hr).trans himage) hrest ?_
      obtain ⟨x, hx, hfinish⟩ := hfinished
      rcases List.mem_cons.1 hx with rfl | hx
      · exact absurd hfinish hreply
      · exact ⟨x, hx, hfinish⟩
    rw [trace]
    rcases m.handle_cases hr with hrests | ⟨image', hmoved⟩
    · rw [hrests.carriedOut, ← resumptions_eq_of_places_eq hrests.places]
      exact hlater hrests.reply
    · obtain rfl : image' = image := Option.some.inj (hmoved.loaded.symm.trans himage)
      rw [hmoved.carriedOut]
      rcases hmoved.moves.reply_cases with hreply | ⟨hfinish, hend, hframes⟩
      · have hne : (m.handle r).reply ≠ .finished := by
          rw [hreply]
          exact Reply.noConfusion
        exact (hmoved.moves.shift hne).unwinds (hlater hne)
      · -- this is the end: there is one routine left, and nothing to carry out in it
        have htrace : (m.handle r).machine.trace run = [] := by
          refine trace_of_finished ?_ hrest
          rw [hfinish]
        rw [htrace, hend, resumptions, hframes]
        exact Image.unwinds_singleton_iff.2 (.past hend)

/-- A run from a start that finishes carries out what it takes to leave the first
routine. -/
theorem leaves_of_finished (himage : m.image = some image) (hstart : m.start.reply = .done)
    (hrun : ∀ r ∈ run, r.continues = true)
    (hfinished : ∃ x ∈ m.start.machine.responses run, x.reply = .finished) :
    image.Leaves entry (m.start.machine.trace run) := by
  rw [(start_of_done hstart).2] at hfinished ⊢
  have himage' : (m.rewound .running).image = some image := himage
  exact Image.unwinds_singleton_iff.1 (unwinds_of_finished himage' hrun hfinished)

end Machine

end StackCalc
