/-
  StackCalc.Proofs.Machine.Listing
  ────────────────────────────────
  **A LISTING RUNS AS ITS PROGRAM DOES.**

  Assembling a listing gives new ids to everything, orders the rows and drops
  those that no routine owns.  For an orderly program none of this can be told
  from its runs:

      outline p = outline q   →   images of p and q are coupled by equality
                              →   all responses look the same

  The order of the positions matters.  A `GOTO` goes to the index that its label
  was stored at, so with gaps in the positions a listing may jump elsewhere than
  its program.
-/
import StackCalc.Proofs.Machine.Coupling
import StackCalc.Proofs.Machine.Image
import StackCalc.Proofs.Source.RoundTrip

namespace StackCalc

/-! ## §1. What a client sees. -/

/-- What can be seen of a machine, ids of instructions aside. -/
structure View where
  phase : Phase
  values : List Float
  callers : List Location
  cursor : Location
  /-- What the next step carries out. -/
  current : Option Operation

def Machine.view (m : Machine) : View where
  phase := m.phase
  values := m.values
  callers := m.callers
  cursor := m.cursor
  current := m.current?.map (·.operation)

/-- What can be seen of a response. -/
def Response.view (r : Response) : Reply × List String × View :=
  (r.reply, r.announced, r.machine.view)

/-! ## §2. Machines that differ by ids. -/

/-- Machines that differ by nothing but ids. -/
def Coupling.exact : Coupling where
  operation := Eq
  value := Eq
  stack := Eq
  skeleton h := congrArg Operation.skeleton h
  cons hv hs := by rw [hv, hs]

theorem Coupling.exact_reflexive : exact.Reflexive where
  operation _ := rfl
  value _ := rfl
  stack _ := rfl

theorem Coupling.exact_matches (op : Operation) (s : List Float) : exact.Matches op op s s where
  effect := by
    cases op.effect? s with
    | none => exact .none
    | some t => exact .some rfl
  divides _ := rfl

namespace Machine

variable {m n : Machine}

theorem Coupled.view_eq (h : m.Coupled .exact n) : m.view = n.view := by
  have hcurrent : m.current?.map (·.operation) = n.current?.map (·.operation) := by
    rcases rel_cases h.current? with ⟨hm, hn⟩ | ⟨i, j, hm, hn, hij⟩
    · rw [hm, hn]
    · rw [hm, hn]
      exact congrArg some hij
  unfold view values callers
  rw [h.phase, h.stack, h.frames, h.cursor, hcurrent]

theorem Coupled.exact_stepInto (h : m.Coupled .exact n) :
    m.stepInto.Coupled .exact n.stepInto := by
  apply h.stepInto
  intro i j _ _ _ hij
  have hop : i.operation = j.operation := hij
  have hstack : m.stack = n.stack := h.stack
  rw [hop, hstack]
  exact Coupling.exact_matches j.operation n.stack

end Machine

theorem Response.Coupled.view_eq {r s : Response} (h : r.Coupled .exact s) : r.view = s.view := by
  unfold view
  rw [h.reply, h.announced, h.machine.view_eq]

/-! ## §3. Programs with one outline. -/

/-- The bodies of an image are those that the outline of its program shows. -/
theorem Image.map_bodies_ofProgram {p : Program} (hnames : (p.routines.map (·.name)).Nodup)
    (hids : (p.routines.map (·.id)).Nodup) :
    ((ofProgram p).bodies.map fun b => (b.1, b.2.map (·.operation))) = p.outline := by
  rw [bodies_ofProgram hnames hids, List.map_map]
  rfl

/-- Orderly programs with one outline have images that differ by ids. -/
theorem Image.coupled_of_outline_eq {p q : Program} (hp : p.Orderly) (hq : q.Orderly)
    (hnames : (p.routines.map (·.name)).Nodup) (h : p.outline = q.outline) :
    (ofProgram p).Coupled .exact (ofProgram q) := by
  -- the names are part of the outline
  have hnames' : (q.routines.map (·.name)).Nodup := by
    rw [← q.names_outline, ← h, p.names_outline]
    exact hnames
  refine coupled_of_map_eq (·.operation) (fun _ _ hij => hij) ?_ ?_
  · rw [map_bodies_ofProgram hnames hp.ids, map_bodies_ofProgram hnames' hq.ids, h]
  · rw [labels_ofProgram hnames hp, labels_ofProgram hnames' hq, h]

/-- Programs whose images differ by ids answer every history alike. -/
theorem Machine.view_responses {p q : Program}
    (h : (Image.ofProgram p).Coupled .exact (Image.ofProgram q)) (m : Machine)
    (history : List Request) :
    (m.responses (.load p :: history)).map Response.view
      = (m.responses (.load q :: history)).map Response.view := by
  have hrequests : List.Forall₂ (Request.Coupled .exact) (.load p :: history) (.load q :: history) :=
    .cons (.load rfl h) (List.forall₂_same.2 fun r _ => r.coupled_refl Coupling.exact_reflexive)
  -- no step has to be left out, so nothing is asked of the responses
  have hresponses := Coupled.responses (P := fun _ => True) (Q := fun _ => True)
    (fun _ _ hmn _ _ => hmn.exact_stepInto) hrequests
    (m.coupled_refl Coupling.exact_reflexive) (fun _ _ => trivial) fun _ _ => trivial
  rw [← List.forall₂_eq_eq_eq, List.forall₂_map_left_iff, List.forall₂_map_right_iff]
  exact hresponses.imp fun _ _ => Response.Coupled.view_eq

/-! ## §4. Listings. -/

/-- **A listing runs as its program does.**  The listing of a listable and orderly
program assembles, and whatever is asked of a machine after loading one or the
other, it answers alike and is seen in the same state after every request. -/
theorem listing_runs_alike {p : Program} (hlist : p.Listable) (hp : p.Orderly) :
    ∃ q, Source.assemble p.listing = .ok q
      ∧ ∀ (m : Machine) (history : List Request),
          (m.responses (.load p :: history)).map Response.view
            = (m.responses (.load q :: history)).map Response.view := by
  refine ⟨p.outline.numbered, ?_, ?_⟩
  · rw [Program.listing_eq]
    exact Source.assemble_unlines_listingLines (p.listable_iff.1 hlist)
  · exact Machine.view_responses (Image.coupled_of_outline_eq hp p.outline.orderly_numbered
      hlist.names p.outline.outline_numbered.symm)

/-- A program whose rows are out of order, with ids in no order, a loop, and a row
that no routine owns. -/
def shuffledProgram : Program where
  routines := [⟨7, "main"⟩, ⟨-2, "twice"⟩]
  instructions :=
    [⟨5, 7, 2, .call "twice"⟩, ⟨9, -2, 0, .dup⟩, ⟨1, 7, 0, .label "again"⟩, ⟨4, 3, 0, .label "a b"⟩,
      ⟨8, 7, 3, .goto "again"⟩, ⟨2, 7, 1, .input "x?"⟩, ⟨6, -2, 1, .add⟩]

theorem listing_runs_alike_shuffledProgram :
    shuffledProgram.Listable ∧ shuffledProgram.Orderly
      ∧ ∃ q, Source.assemble shuffledProgram.listing = .ok q
        ∧ ∀ (m : Machine) (history : List Request),
            (m.responses (.load shuffledProgram :: history)).map Response.view
              = (m.responses (.load q :: history)).map Response.view := by
  have hlist : shuffledProgram.Listable := by decide
  have hp : shuffledProgram.Orderly := by decide
  exact ⟨hlist, hp, listing_runs_alike hlist hp⟩

end StackCalc
