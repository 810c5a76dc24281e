/-
  StackCalc.Proofs.Machine.RowOrder
  ─────────────────────────────────
  **THE ORDER OF THE ROWS DOES NOT MATTER.**

  A store may give the rows of a program in any order.  If no two instructions of a
  routine have one position, the order of the instructions makes no difference: the
  image and the listing are the same.

  The order of the routines makes a difference to the names in an image, and to a
  label that two routines define.  If there is no such label, and names and ids tell
  the routines apart, all look-ups are answered alike (`Image.Agrees`).  A machine
  sees its image through look-ups only, so the runs are alike then:

      Agrees a b   →   machines on a and b answer every history alike
-/
import StackCalc.Proofs.Machine.Labels
import StackCalc.Proofs.Machine.Listing

namespace StackCalc

/-! ## §1. The order of the instructions. -/

/-- The instructions of one owner are ordered alike, if no two of them have one position. -/
theorem byPosition_filter_eq_of_perm {code code' : List Instruction} (h : code.Perm code')
    (hplaces : (code.map fun i => (i.owner, i.position)).Nodup) (k : Int) :
    byPosition (code.filter fun i => i.owner = k)
      = byPosition (code'.filter fun i => i.owner = k) := by
  apply byPosition_eq_of_perm (h.filter _)
  -- among these instructions the place is told by the position alone
  have hsame : ((code.filter fun i => i.owner = k).map (·.position)).map (fun n => (k, n))
      = (code.filter fun i => i.owner = k).map fun i => (i.owner, i.position) := by
    rw [List.map_map]
    apply List.map_congr_left
    intro i hi
    have howner : i.owner = k := by simpa using (List.mem_filter.1 hi).2
    rw [howner]
    rfl
  apply List.Nodup.of_map (fun n => (k, n))
  rw [hsame]
  exact hplaces.sublist (List.filter_sublist.map _)

theorem Image.bodiesOf_eq_of_perm {seen : List String} {code code' : List Instruction}
    (h : code.Perm code') (hplaces : (code.map fun i => (i.owner, i.position)).Nodup)
    (rs : List Routine) : bodiesOf seen code rs = bodiesOf seen code' rs := by
  induction rs generalizing seen code code' with
  | nil => rfl
  | cons r rs ih =>
    rw [bodiesOf, bodiesOf, byPosition_filter_eq_of_perm h hplaces, ih h hplaces,
      ih (h.filter _) (hplaces.sublist (List.filter_sublist.map _))]

section

variable {p q : Program} (hcode : p.instructions.Perm q.instructions)
variable (hplaces : (p.instructions.map fun i => (i.owner, i.position)).Nodup)

include hcode hplaces

theorem Program.body_eq_of_perm (r : Routine) : p.body r = q.body r :=
  byPosition_filter_eq_of_perm hcode hplaces r.id

/-- Routines in the same order have the same listing. -/
theorem Program.listing_eq_of_perm (hrows : p.routines = q.routines) : p.listing = q.listing := by
  rw [listing_eq, listing_eq]
  unfold outline
  simp only [hrows, body_eq_of_perm hcode hplaces]

/-- And the same image. -/
theorem Image.ofProgram_eq_of_perm (hrows : p.routines = q.routines) :
    ofProgram p = ofProgram q := by
  have hbodies : bodiesOf [] p.instructions p.routines = bodiesOf [] q.instructions q.routines := by
    rw [bodiesOf_eq_of_perm hcode hplaces, hrows]
  unfold ofProgram
  rw [hbodies]

end

/-! ## §2. The order of the routines. -/

/-- No label is defined in two routines. -/
def Program.LabelsApart (p : Program) : Prop :=
  ∀ name, ∀ r ∈ p.routines, ∀ s ∈ p.routines, (∃ i ∈ p.body r, i.operation = .label name) →
    (∃ j ∈ p.body s, j.operation = .label name) → r = s

/-- Two images answer all look-ups alike. -/
structure Image.Agrees (a b : Image) : Prop where
  bodies : ∀ name, a.body? name = b.body? name
  labels : ∀ name, a.label? name = b.label? name

namespace Image

theorem agrees_refl (a : Image) : a.Agrees a :=
  ⟨fun _ => rfl, fun _ => rfl⟩

theorem Agrees.contains {a b : Image} (h : a.Agrees b) (name : String) :
    a.contains name = b.contains name := by
  unfold Image.contains
  rw [h.bodies]

theorem isEmpty_iff (a : Image) : a.isEmpty = true ↔ ∀ name, a.body? name = none := by
  unfold isEmpty body?
  cases a.bodies with
  | nil => simp
  | cons b bodies =>
    simp only [List.isEmpty_cons, Bool.false_eq_true, false_iff, not_forall]
    exact ⟨b.1, by simp⟩

/-- Images that answer alike differ by nothing that a machine looks at. -/
theorem Agrees.coupled {a b : Image} (h : a.Agrees b) : a.Coupled .exact b where
  bodies := by
    intro name
    rw [h.bodies]
    cases b.body? name with
    | none => exact .none
    | some body => exact .some (List.forall₂_same.2 fun _ _ => rfl)
  labels := h.labels
  isEmpty := by
    rw [Bool.eq_iff_iff, isEmpty_iff, isEmpty_iff]
    simp only [h.bodies]

theorem Defines.mem_names {p : Program} {routine name : String}
    (h : (ofProgram p).Defines routine name) : routine ∈ (ofProgram p).names := by
  obtain ⟨body, hbody, -⟩ := h
  exact List.mem_map.2 ⟨(routine, body), (body?_eq_some_iff p).1 hbody, rfl⟩

/-- A routine settles a label that it alone defines, whatever its place among the names. -/
theorem Defines.settles {p : Program} {routine name : String}
    (h : (ofProgram p).Defines routine name)
    (hsole : ∀ other, (ofProgram p).Defines other name → other = routine) :
    (ofProgram p).Settles routine name := by
  obtain ⟨before, after, hnames⟩ := List.append_of_mem h.mem_names
  refine ⟨h, before, after, hnames, ?_⟩
  intro other hother hdefines
  have hnodup := nodup_names_ofProgram p
  rw [hnames, List.nodup_append, List.nodup_cons] at hnodup
  exact hnodup.2.1.1 (hsole other hdefines ▸ hother)

/-- Images with the same bodies have the same labels, if no label is defined in two of them. -/
theorem label?_eq_of_bodies {p q : Program}
    (hbodies : ∀ name, (ofProgram p).body? name = (ofProgram q).body? name)
    (hsole : ∀ name r s, (ofProgram p).Defines r name → (ofProgram p).Defines s name → s = r)
    (name : String) : (ofProgram p).label? name = (ofProgram q).label? name := by
  have hdefines : ∀ r, (ofProgram p).Defines r name ↔ (ofProgram q).Defines r name := by
    intro r
    unfold Defines
    rw [hbodies]
  by_cases hknown : ∃ r, (ofProgram p).Defines r name
  · obtain ⟨r, hr⟩ := hknown
    -- the routine that defines the label settles it in both images
    have hp : (ofProgram p).Settles r name := hr.settles fun s => hsole name r s hr
    have hq : (ofProgram q).Settles r name :=
      ((hdefines r).1 hr).settles fun s hs => hsole name r s hr ((hdefines s).2 hs)
    obtain ⟨body, before, i, hbody, hi, hlabel⟩ := hp.label?_eq
    obtain ⟨body', before', j, hbody', hj, hlabel'⟩ := hq.label?_eq
    obtain rfl : body = body' := Option.some.inj ((hbody.symm.trans (hbodies r)).trans hbody')
    have hposition : some i.position = some j.position :=
      (lookup_labels_eq_some_iff.2 ⟨before, i, hi, rfl⟩).symm.trans
        (lookup_labels_eq_some_iff.2 ⟨before', j, hj, rfl⟩)
    rw [hlabel, hlabel', hposition]
  · have hnone : ∀ x : Program, (∀ r, ¬ (ofProgram x).Defines r name) →
        (ofProgram x).label? name = none := by
      intro x hx
      refine (label?_eq_none_iff x).2 fun i hi hlabel => ?_
      obtain ⟨r, body, hbody, hi⟩ := (mem_scan x).1 hi
      exact hx r ⟨body, hbody, i, hi, hlabel⟩
    rw [hnone p fun r hr => hknown ⟨r, hr⟩, hnone q fun r hr => hknown ⟨r, (hdefines r).2 hr⟩]

/-- **Rows in another order give an image that answers alike.** -/
theorem agrees_of_perm {p q : Program} (hcode : p.instructions.Perm q.instructions)
    (hplaces : (p.instructions.map fun i => (i.owner, i.position)).Nodup)
    (hrows : p.routines.Perm q.routines) (hnames : (p.routines.map (·.name)).Nodup)
    (hids : (p.routines.map (·.id)).Nodup) (hlabels : p.LabelsApart) :
    (ofProgram p).Agrees (ofProgram q) := by
  have hnames' : (q.routines.map (·.name)).Nodup := (hrows.map _).nodup_iff.1 hnames
  have hids' : (q.routines.map (·.id)).Nodup := (hrows.map _).nodup_iff.1 hids
  have hbodies : ∀ name, (ofProgram p).body? name = (ofProgram q).body? name := by
    intro name
    by_cases hname : ∃ r ∈ p.routines, r.name = name
    · obtain ⟨r, hr, rfl⟩ := hname
      rw [body?_ofProgram hnames hids hr, body?_ofProgram hnames' hids' (hrows.mem_iff.1 hr),
        Program.body_eq_of_perm hcode hplaces]
    · rw [(body?_eq_none_iff p).2 fun r hr e => hname ⟨r, hr, e⟩,
        (body?_eq_none_iff q).2 fun r hr e => hname ⟨r, hrows.mem_iff.2 hr, e⟩]
  refine ⟨hbodies, label?_eq_of_bodies hbodies ?_⟩
  -- a routine that defines a label is a row with such a body
  have hrow : ∀ routine name, (ofProgram p).Defines routine name →
      ∃ r ∈ p.routines, r.name = routine ∧ ∃ i ∈ p.body r, i.operation = .label name := by
    intro routine name h
    obtain ⟨r, hr, rfl⟩ := (mem_names_ofProgram p).1 h.mem_names
    obtain ⟨body, hbody, hi⟩ := h
    rw [body?_ofProgram hnames hids hr] at hbody
    obtain rfl := Option.some.inj hbody
    exact ⟨r, hr, rfl, hi⟩
  intro name a b ha hb
  obtain ⟨r, hr, rfl, hi⟩ := hrow a name ha
  obtain ⟨s, hs, rfl, hj⟩ := hrow b name hb
  rw [hlabels name r hr s hs hi hj]

end Image

/-! ## §3. Runs. -/

/-- Requests that differ at most by loading `q` in place of `p`. -/
inductive Request.Swaps (p q : Program) : Request → Request → Prop
  | load : Swaps p q (.load p) (.load q)
  | same (r : Request) : Swaps p q r r

/-- Everything that can be seen of a response: the answer, the prompts, the state of the
machine apart from its program, and the instruction at its cursor. -/
def Response.observed (r : Response) : Reply × List String × Machine × Option Instruction :=
  (r.reply, r.announced, { r.machine with image := none }, r.machine.current?)

namespace Machine

variable {m n : Machine} {p q : Program}

/-- Machines in one state, on images that answer alike. -/
structure Twins (m n : Machine) : Prop where
  coupled : m.Coupled .exact n
  image : Option.Rel Image.Agrees m.image n.image

theorem twins_refl (m : Machine) : m.Twins m where
  coupled := m.coupled_refl Coupling.exact_reflexive
  image := by
    cases m.image with
    | none => exact .none
    | some image => exact .some image.agrees_refl

theorem Twins.current?_eq (h : m.Twins n) : m.current? = n.current? := by
  unfold current? body?
  rw [h.coupled.cursor]
  rcases rel_cases h.image with ⟨hm, hn⟩ | ⟨a, b, hm, hn, hab⟩
  · rw [hm, hn]
  · simp only [hm, hn, Option.bind_some, hab.bodies]

theorem Twins.apart_eq (h : m.Twins n) :
    ({ m with image := none } : Machine) = { n with image := none } := by
  have hstack : m.stack = n.stack := h.coupled.stack
  rw [Machine.mk.injEq]
  exact ⟨rfl, h.coupled.phase, hstack, h.coupled.frames, h.coupled.cursor, h.coupled.listening⟩

/-- Twins answer a request alike, and stay twins. -/
theorem Twins.handle (h : m.Twins n) (hpq : (Image.ofProgram p).Agrees (Image.ofProgram q))
    {r r' : Request} (hr : r.Swaps p q r') :
    (m.handle r).Coupled .exact (n.handle r')
      ∧ (m.handle r).machine.Twins (n.handle r').machine := by
  have hstep : ∀ strategy, r = .step strategy → m.stepInto.Coupled .exact n.stepInto :=
    fun _ _ => h.coupled.exact_stepInto
  cases hr with
  | load =>
    have hhandle : (m.handle (.load p)).Coupled .exact (n.handle (.load q)) :=
      h.coupled.handle (.load rfl hpq.coupled) hstep
    exact ⟨hhandle, hhandle.machine, .some hpq⟩
  | same =>
    have hhandle : (m.handle r).Coupled .exact (n.handle r) :=
      h.coupled.handle (r.coupled_refl Coupling.exact_reflexive) hstep
    refine ⟨hhandle, hhandle.machine, ?_⟩
    by_cases hload : ∃ program, r = .load program
    · obtain ⟨program, rfl⟩ := hload
      exact .some (Image.agrees_refl _)
    · rw [image_handle_of_ne_load fun program e => hload ⟨program, e⟩,
        image_handle_of_ne_load fun program e => hload ⟨program, e⟩]
      exact h.image

/-- **Twins answer every history alike.** -/
theorem Twins.responses (h : m.Twins n) (hpq : (Image.ofProgram p).Agrees (Image.ofProgram q))
    {history history' : List Request} (hswaps : List.Forall₂ (Request.Swaps p q) history history') :
    (m.responses history).map Response.observed = (n.responses history').map Response.observed := by
  induction hswaps generalizing m n with
  | nil => rfl
  | @cons r r' _ _ hr _ ih =>
    obtain ⟨hresponse, htwins⟩ := h.handle hpq hr
    have hobserved : Response.observed (m.handle r) = Response.observed (n.handle r') := by
      unfold Response.observed
      rw [hresponse.reply, hresponse.announced, htwins.apart_eq, htwins.current?_eq]
    unfold Machine.responses
    rw [List.map_cons, List.map_cons, hobserved, ih htwins]

/-- Programs with one image are the same to a machine. -/
theorem responses_eq_of_swaps (hpq : Image.ofProgram p = Image.ofProgram q) (m : Machine)
    {history history' : List Request} (hswaps : List.Forall₂ (Request.Swaps p q) history history') :
    m.responses history = m.responses history' := by
  induction hswaps generalizing m with
  | nil => rfl
  | @cons r r' rest rest' hr _ ih =>
    have hhandle : m.handle r = m.handle r' := by
      cases hr with
      | load =>
        show m.load p = m.load q
        unfold load
        rw [hpq]
      | same => rfl
    show m.handle r :: (m.handle r).machine.responses rest
      = m.handle r' :: (m.handle r').machine.responses rest'
    rw [hhandle, ih]

end Machine

/-- **The order of the rows does not matter.**  Let the instructions of two programs be the
same but for their order, no two of them at one place.  With the same routines in the same
order the programs have the same image and listing, and all responses are equal.  With the
routines in another order all look-ups are answered alike and nothing that can be seen of a
run differs, if names and ids tell the routines apart and no label is defined in two of
them. -/
theorem row_order_does_not_matter {p q : Program} (hcode : p.instructions.Perm q.instructions)
    (hplaces : (p.instructions.map fun i => (i.owner, i.position)).Nodup) :
    (p.routines = q.routines →
        (∀ name, (Image.ofProgram p).body? name = (Image.ofProgram q).body? name)
          ∧ (∀ name, (Image.ofProgram p).label? name = (Image.ofProgram q).label? name)
          ∧ (Image.ofProgram p).names = (Image.ofProgram q).names
          ∧ p.listing = q.listing
          ∧ ∀ (m : Machine) (history history' : List Request),
              List.Forall₂ (Request.Swaps p q) history history' →
              m.responses history = m.responses history')
      ∧ (p.routines.Perm q.routines → (p.routines.map (·.name)).Nodup →
          (p.routines.map (·.id)).Nodup → p.LabelsApart →
          (∀ name, (Image.ofProgram p).body? name = (Image.ofProgram q).body? name)
            ∧ (∀ name, (Image.ofProgram p).label? name = (Image.ofProgram q).label? name)
            ∧ (∀ name, (Image.ofProgram p).contains name = (Image.ofProgram q).contains name)
            ∧ ∀ (m : Machine) (history history' : List Request),
                List.Forall₂ (Request.Swaps p q) history history' →
                (m.responses history).map Response.observed
                  = (m.responses history').map Response.observed) := by
  constructor
  · intro hrows
    have himage := Image.ofProgram_eq_of_perm hcode hplaces hrows
    rw [himage]
    exact ⟨fun _ => rfl, fun _ => rfl, rfl, Program.listing_eq_of_perm hcode hplaces hrows,
      fun m _ _ => m.responses_eq_of_swaps himage⟩
  · intro hrows hnames hids hlabels
    have hagrees := Image.agrees_of_perm hcode hplaces hrows hnames hids hlabels
    exact ⟨hagrees.bodies, hagrees.labels, hagrees.contains,
      fun m _ _ => m.twins_refl.responses hagrees⟩

theorem row_order_does_not_matter_shuffledProgram :
    let p := shuffledProgram
    let q : Program := { p with instructions := p.instructions.reverse }
    let q' : Program := ⟨p.routines.reverse, p.instructions.reverse⟩
    p.instructions ≠ q.instructions ∧ p.listing = q.listing
      ∧ (Image.ofProgram p).names = (Image.ofProgram q).names
      ∧ p.LabelsApart
      ∧ (Image.ofProgram p).label? "again" = (Image.ofProgram q').label? "again"
      ∧ ∀ m : Machine,
          (m.responses [.load p, .start, .step .into]).map Response.observed
            = (m.responses [.load q', .start, .step .into]).map Response.observed := by
  intro p q q'
  have hcode : p.instructions.Perm p.instructions.reverse := (List.reverse_perm _).symm
  have hplaces : (p.instructions.map fun i => (i.owner, i.position)).Nodup := by decide
  -- the routine "twice" defines no label
  have htwice : ∀ i ∈ p.instructions, i.owner = -2 → i.operation = .dup ∨ i.operation = .add := by
    simp [p, shuffledProgram]
  have hmain : ∀ name, ∀ r ∈ p.routines, (∃ i ∈ p.body r, i.operation = .label name) →
      r = ⟨7, "main"⟩ := by
    intro name r hr hdefined
    obtain ⟨i, hbody, hlabel⟩ := hdefined
    obtain ⟨hi, howner⟩ := Program.mem_body.1 hbody
    have hr' : r = ⟨7, "main"⟩ ∨ r = ⟨-2, "twice"⟩ := by
      simpa [p, shuffledProgram] using hr
    rcases hr' with rfl | rfl
    · rfl
    · have hcases := htwice i hi howner
      simp [hlabel] at hcases
  have hlabels : p.LabelsApart := by
    intro name r hr s hs hi hj
    rw [hmain name r hr hi, hmain name s hs hj]
  obtain ⟨-, -, hnames, hlisting, -⟩ :=
    (row_order_does_not_matter (p := p) (q := q) hcode hplaces).1 rfl
  obtain ⟨-, hlabel, -, hruns⟩ :=
    (row_order_does_not_matter (p := p) (q := q') hcode hplaces).2 (List.reverse_perm _).symm
      (by decide) (by decide) hlabels
  refine ⟨by simp [q, p, shuffledProgram], hlisting, hnames, hlabels, hlabel "again", ?_⟩
  intro m
  apply hruns
  exact .cons .load (List.forall₂_same.2 fun r _ => .same r)

end StackCalc
