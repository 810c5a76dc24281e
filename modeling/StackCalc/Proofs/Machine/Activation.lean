/-
  StackCalc.Proofs.Machine.Activation
  ───────────────────────────────────
  **A RUN THAT FINISHES NEITHER RECURSES NOR LOOPS.**

  What is carried out from a place until its routine is left is a matter of the
  program (`Image.Leaves`), and it gets shorter

    • where a routine goes on after an operation, and
    • where a routine is called.

  In a run that finishes the first routine is left, and so is every routine in the
  chain of calls below it.  So along the chain the beginnings of the routines need
  fewer and fewer operations, and no routine occurs twice; and while one routine is
  active its places need fewer and fewer operations, and none is come to twice.
-/
import Mathlib.Data.List.Dedup
import Mathlib.Data.List.Perm.Subperm
import Mathlib.Logic.Relation
import StackCalc.Proofs.Machine.Bracket
import StackCalc.Proofs.Machine.CallChain
import StackCalc.Proofs.Machine.Leaving

namespace StackCalc

open Relation

/-! ## §1. The way through a routine. -/

namespace Image

variable {image : Image} {l l' : Location} {ls ls' : List Location} {ops : List Operation}

/-- A routine goes on from one place at the other. -/
def Follows (image : Image) (l l' : Location) : Prop :=
  image.successor? l = some l'

theorem Leaves.of_transGen (h : image.Leaves l ops) (hway : TransGen image.Follows l l') :
    ∃ rest, image.Leaves l' rest ∧ rest.length < ops.length := by
  induction hway with
  | single hnext => exact h.of_successor? hnext
  | tail _ hnext ih =>
    obtain ⟨rest, hrest, hlt⟩ := ih
    obtain ⟨rest', hrest', hlt'⟩ := hrest.of_successor? hnext
    exact ⟨rest', hrest', hlt'.trans hlt⟩

theorem Leaves.of_reflTransGen (h : image.Leaves l ops) (hway : ReflTransGen image.Follows l l') :
    ∃ rest, image.Leaves l' rest ∧ rest.length ≤ ops.length := by
  rcases reflTransGen_iff_eq_or_transGen.1 hway with rfl | hway
  · exact ⟨ops, h, Nat.le_refl _⟩
  · obtain ⟨rest, hrest, hlt⟩ := h.of_transGen hway
    exact ⟨rest, hrest, hlt.le⟩

/-- A routine that is left does not come to a place twice. -/
theorem Leaves.ne_of_transGen (h : image.Leaves l ops) (hway : TransGen image.Follows l l') :
    l' ≠ l := by
  rintro rfl
  obtain ⟨rest, hrest, hlt⟩ := h.of_transGen hway
  rw [h.unique hrest] at hlt
  exact Nat.lt_irrefl _ hlt

theorem routine_of_transGen (hway : TransGen image.Follows l l') : l'.routine = l.routine := by
  induction hway with
  | single hnext => exact routine_of_successor? hnext
  | tail _ hnext ih => exact (routine_of_successor? hnext).trans ih

/-- A call that waits goes on at the next place. -/
theorem Chain.follows_next (h : image.Chain (l :: ls)) {caller : Location} (hcaller : caller ∈ ls) :
    image.Follows caller caller.next := by
  obtain ⟨name, hop⟩ := h.exists_call caller hcaller
  exact successor?_of_ne_goto hop (by simp)

/-- Each of the places is come to from the beginning of its routine. -/
def Walked (image : Image) (ls : List Location) : Prop :=
  ∀ l ∈ ls, ReflTransGen image.Follows ⟨l.routine, 0⟩ l

theorem Walked.cons (hls : image.Walked ls) (h : ReflTransGen image.Follows ⟨l.routine, 0⟩ l) :
    image.Walked (l :: ls) :=
  List.forall_mem_cons.2 ⟨h, hls⟩

theorem Walked.follow (h : image.Walked (l :: ls)) (hnext : image.Follows l l') :
    image.Walked (l' :: ls) := by
  refine Walked.cons (fun x hx => h x (List.mem_cons_of_mem _ hx)) ?_
  rw [routine_of_successor? hnext]
  exact (h l List.mem_cons_self).tail hnext

theorem Walked.shift {op : Option Operation} (h : image.Walked ls) (hchain : image.Chain ls)
    (hshift : image.Shift ls op ls') : image.Walked ls' := by
  cases hshift with
  | along _ _ hnext => exact h.follow hnext
  | enter _ _ => exact h.cons .refl
  | leave _ =>
    have hrest : image.Walked _ := fun x hx => h x (List.mem_cons_of_mem _ hx)
    exact hrest.follow (hchain.follows_next List.mem_cons_self)

/-! ## §2. No recursion. -/

/-- From the first routine inwards, the routines of a chain take fewer and fewer
operations to be left. -/
theorem Chain.exists_leaves (hchain : image.Chain (l :: ls)) (hwalked : image.Walked (l :: ls))
    (hentry : image.Leaves entry ops) :
    ∃ inner, image.Leaves ⟨l.routine, 0⟩ inner
      ∧ ∀ caller ∈ ls, ∃ outer, image.Leaves ⟨caller.routine, 0⟩ outer
          ∧ inner.length < outer.length := by
  generalize hplaces : l :: ls = places at hchain
  induction hchain generalizing l ls with
  | first hname _ =>
    cases hplaces
    refine ⟨ops, ?_, fun caller hcaller => absurd hcaller List.not_mem_nil⟩
    rw [hname]
    exact hentry
  | call hop _ _ ih =>
    cases hplaces
    have hwalked' : image.Walked _ := fun x hx => hwalked x (List.mem_cons_of_mem _ hx)
    obtain ⟨outer, houter, hcallers⟩ := ih hwalked' rfl
    -- what is left at the call is no more than the whole of its routine
    obtain ⟨rest, hrest, hle⟩ := houter.of_reflTransGen (hwalked' _ List.mem_cons_self)
    obtain ⟨inner, after, rfl, hinner, -⟩ := hrest.of_call hop
    have hlt : inner.length < outer.length := by
      rw [List.length_cons, List.length_append] at hle
      omega
    refine ⟨inner, hinner, ?_⟩
    intro caller hcaller
    rcases List.mem_cons.1 hcaller with rfl | hcaller
    · exact ⟨outer, houter, hlt⟩
    · obtain ⟨outer', houter', hlt'⟩ := hcallers caller hcaller
      exact ⟨outer', houter', hlt.trans hlt'⟩

/-- **If the first routine is left, no routine occurs twice in a chain of calls.** -/
theorem Chain.nodup (hchain : image.Chain ls) (hwalked : image.Walked ls)
    (hentry : image.Leaves entry ops) : (ls.map (·.routine)).Nodup := by
  induction hchain with
  | first _ _ => exact List.nodup_singleton _
  | call hop hknown hchain ih =>
    rw [List.map_cons, List.nodup_cons]
    refine ⟨?_, ih fun x hx => hwalked x (List.mem_cons_of_mem _ hx)⟩
    intro hmem
    obtain ⟨caller, hcaller, hname⟩ := List.mem_map.1 hmem
    obtain ⟨inner, hinner, hcallers⟩ := (Chain.call hop hknown hchain).exists_leaves hwalked hentry
    obtain ⟨outer, houter, hlt⟩ := hcallers caller hcaller
    rw [hname] at houter
    rw [hinner.unique houter] at hlt
    exact Nat.lt_irrefl _ hlt

/-- Every place of a chain leaves its routine, if the first does. -/
theorem Chain.leaves_head (hchain : image.Chain (l :: ls)) (hwalked : image.Walked (l :: ls))
    (hentry : image.Leaves entry ops) : ∃ rest, image.Leaves l rest := by
  obtain ⟨inner, hinner, -⟩ := hchain.exists_leaves hwalked hentry
  obtain ⟨rest, hrest, -⟩ := hinner.of_reflTransGen (hwalked l List.mem_cons_self)
  exact ⟨rest, hrest⟩

/-- The routines of an image are routines of its program. -/
theorem mem_of_contains_ofProgram {p : Program} {name : String}
    (h : (ofProgram p).contains name = true) : name ∈ p.routines.map (·.name) := by
  have hbodies : ∀ (rs : List Routine) (seen : List String) (code : List Instruction),
      ((bodiesOf seen code rs).lookup name).isSome = true → name ∈ rs.map (·.name) := by
    intro rs
    induction rs with
    | nil =>
      intro seen code h
      cases h
    | cons r rs ih =>
      intro seen code h
      rw [List.map_cons, List.mem_cons]
      unfold bodiesOf at h
      by_cases hseen : r.name ∈ seen
      · rw [if_pos hseen] at h
        exact .inr (ih _ _ h)
      · rw [if_neg hseen, List.lookup_cons] at h
        by_cases hname : name = r.name
        · exact .inl hname
        · rw [beq_false_of_ne hname] at h
          exact .inr (ih _ _ h)
  exact hbodies p.routines [] p.instructions h

end Image

/-! ## §3. No loop. -/

namespace Image

variable {image : Image} {l l' x : Location} {ls ls' base : List Location} {op : Option Operation}

/-- The innermost routine stays at its place while it calls another one, or goes on. -/
theorem Shift.innermost (hshift : image.Shift (l :: base) op (l' :: ls'))
    (hdepth : base.length ≤ ls'.length) :
    (l :: base) <:+ l' :: ls' ∨ ∃ y, image.Follows l y ∧ (y :: base) <:+ l' :: ls' := by
  cases hshift with
  | along _ _ hnext => exact .inr ⟨l', hnext, List.suffix_rfl⟩
  | enter _ _ => exact .inl (List.suffix_cons _ _)
  | leave _ =>
    rw [List.length_cons] at hdepth
    omega

/-- Carrying out an operation, the innermost routine goes on, or waits for the call that
it makes. -/
theorem Shift.carriedOut (hshift : image.Shift (l :: base) op (l' :: ls')) (hop : op.isSome = true) :
    (∃ y, image.Follows l y ∧ (y :: base) <:+ l' :: ls') ∨ (l :: base) <:+ ls' := by
  cases hshift with
  | along _ _ hnext => exact .inl ⟨l', hnext, List.suffix_rfl⟩
  | enter _ _ => exact .inr List.suffix_rfl
  | leave _ => cases hop

/-- A routine that waits for a call goes on waiting, or goes on. -/
theorem Shift.waiting (hshift : image.Shift (l :: ls) op (l' :: ls'))
    (hchain : image.Chain (l :: ls)) (h : (x :: base) <:+ ls) :
    (x :: base) <:+ ls' ∨ ∃ y, image.Follows x y ∧ (y :: base) <:+ l' :: ls' := by
  rcases hshift.suffix_cases h with hwaits | ⟨rfl, rfl⟩
  · exact .inl hwaits
  · exact .inr ⟨x.next, hchain.follows_next (h.subset List.mem_cons_self), List.suffix_rfl⟩

end Image

namespace Machine

variable {m : Machine} {image : Image} {r : Request} {run : List Request}
variable {l : Location} {base : List Location}

/-- The machine is in a chain of calls, at places that are come to from the beginnings
of their routines. -/
structure OnTrack (m : Machine) (image : Image) : Prop where
  loaded : m.image = some image
  chain : image.Chain m.places
  walked : image.Walked m.places

theorem OnTrack.handle (h : m.OnTrack image) (hr : r.continues = true) :
    (m.handle r).machine.OnTrack image := by
  have himage := (image_handle hr).trans h.loaded
  rcases shift_cases h.loaded hr with ⟨hplaces, -⟩ | hshift
  · exact ⟨himage, hplaces ▸ h.chain, hplaces ▸ h.walked⟩
  · exact ⟨himage, h.chain.shift hshift, h.walked.shift h.chain hshift⟩

theorem OnTrack.after (h : m.OnTrack image) (hrun : ∀ r ∈ run, r.continues = true) :
    (m.after run).OnTrack image := by
  induction run generalizing m with
  | nil => exact h
  | cons r run ih =>
    exact ih (h.handle (hrun r List.mem_cons_self)) fun x hx => hrun x (List.mem_cons_of_mem _ hx)

theorem OnTrack.after_take (h : m.OnTrack image) (hrun : ∀ r ∈ run, r.continues = true) (k : Nat) :
    (m.after (run.take k)).OnTrack image :=
  h.after fun x hx => hrun x (List.mem_of_mem_take hx)

theorem onTrack_start (himage : m.image = some image) (hstart : m.start.reply = .done) :
    m.start.machine.OnTrack image := by
  obtain ⟨⟨image', himage', hentry⟩, hdone⟩ := start_of_done hstart
  obtain rfl : image' = image := Option.some.inj (himage'.symm.trans himage)
  rw [hdone]
  refine ⟨himage, .first rfl hentry, ?_⟩
  intro l hl
  rw [List.mem_singleton.1 hl]
  exact .refl

/-- The routine that is active above the calls `base` has carried out the operation
at `l`: it has come to a later place, or it waits for the call that it made there. -/
def HasPassed (m : Machine) (image : Image) (l : Location) (base : List Location) : Prop :=
  (∃ l', TransGen image.Follows l l' ∧ (l' :: base) <:+ m.places) ∨ (l :: base) <:+ m.frames

/-- A routine that has passed a place has passed it for as long as it is active. -/
theorem HasPassed.handle (h : m.HasPassed image l base) (htrack : m.OnTrack image)
    (hr : r.continues = true) (hdepth : base.length ≤ (m.handle r).machine.frames.length) :
    (m.handle r).machine.HasPassed image l base := by
  rcases shift_cases htrack.loaded hr with ⟨hplaces, -⟩ | hshift
  · unfold HasPassed
    rw [hplaces, (List.cons.inj hplaces).2]
    exact h
  · rcases h with ⟨l', hway, hplace⟩ | hwaits
    · rcases List.suffix_cons_iff.1 hplace with hinnermost | hwaits
      · obtain ⟨rfl, rfl⟩ := List.cons.inj hinnermost
        rcases hshift.innermost hdepth with hstays | ⟨y, hnext, hplace⟩
        · exact .inl ⟨_, hway, hstays⟩
        · exact .inl ⟨y, hway.tail hnext, hplace⟩
      · rcases hshift.waiting htrack.chain hwaits with hwaits | ⟨y, hnext, hplace⟩
        · exact .inl ⟨l', hway, hwaits.trans (List.suffix_cons _ _)⟩
        · exact .inl ⟨y, hway.tail hnext, hplace⟩
    · rcases hshift.waiting htrack.chain hwaits with hwaits | ⟨y, hnext, hplace⟩
      · exact .inr hwaits
      · exact .inl ⟨y, .single hnext, hplace⟩

theorem HasPassed.after (h : m.HasPassed image l base) (htrack : m.OnTrack image)
    (hrun : ∀ r ∈ run, r.continues = true)
    (hdepth : ∀ k ≤ run.length, base.length ≤ (m.after (run.take k)).frames.length) :
    (m.after run).HasPassed image l base := by
  induction run generalizing m with
  | nil => exact h
  | cons r run ih =>
    have hr : r.continues = true := hrun r List.mem_cons_self
    have hfirst : base.length ≤ (m.handle r).machine.frames.length :=
      hdepth 1 (Nat.succ_le_succ (Nat.zero_le _))
    refine ih (h.handle htrack hr hfirst) (htrack.handle hr)
      (fun x hx => hrun x (List.mem_cons_of_mem _ hx)) ?_
    intro k hk
    exact hdepth (k + 1) (Nat.succ_le_succ hk)

/-- Carrying out an operation is passing its place. -/
theorem hasPassed_of_carriedOut (himage : m.image = some image) (hr : r.continues = true)
    (hcarried : (m.carriedOut? r).isSome = true) :
    (m.handle r).machine.HasPassed image m.cursor m.frames := by
  rcases shift_cases himage hr with ⟨-, hnone⟩ | hshift
  · rw [hnone] at hcarried
    cases hcarried
  · rcases hshift.carriedOut hcarried with ⟨y, hnext, hplace⟩ | hwaits
    · exact .inl ⟨y, .single hnext, hplace⟩
    · exact .inr hwaits

/-- The innermost routine is at a later place than those that it has passed. -/
theorem HasPassed.transGen (h : m.HasPassed image l base) (hdepth : m.frames.length = base.length) :
    TransGen image.Follows l m.cursor := by
  rcases h with ⟨l', hway, hplace⟩ | hwaits
  · have heq : l' :: base = m.places := hplace.eq_of_length (by simp [places, hdepth])
    rw [(List.cons.inj heq).1] at hway
    exact hway
  · have hlength := hwaits.length_le
    rw [List.length_cons] at hlength
    omega

/-! ## §4. Runs that finish. -/

/-- The moments `j` and `k` of a run belong to one activation of a routine: as many
calls are open at both, and there were never fewer in between. -/
def SameActivation (m : Machine) (run : List Request) (j k : Nat) : Prop :=
  (m.after (run.take k)).frames.length = (m.after (run.take j)).frames.length
    ∧ ∀ i, j ≤ i → i ≤ k →
        (m.after (run.take j)).frames.length ≤ (m.after (run.take i)).frames.length

theorem after_take_add {j : Nat} (hr : run[j]? = some r) (i : Nat) :
    m.after (run.take (j + i + 1))
      = ((m.after (run.take j)).handle r).machine.after ((run.drop (j + 1)).take i) := by
  rw [Nat.add_right_comm, List.take_add, after_append, List.take_add_one, hr, after_append]
  rfl

/-- In one activation the run goes from an operation that is carried out to later
places of the routine. -/
theorem SameActivation.transGen {j k : Nat} (h : m.SameActivation run j k) (hjk : j < k)
    (htrack : m.OnTrack image) (hrun : ∀ r ∈ run, r.continues = true) (hr : run[j]? = some r)
    (hcarried : ((m.after (run.take j)).carriedOut? r).isSome = true) :
    TransGen image.Follows (m.after (run.take j)).cursor (m.after (run.take k)).cursor := by
  obtain ⟨hdepth, hbetween⟩ := h
  obtain ⟨i, rfl⟩ := Nat.exists_eq_add_of_lt hjk
  have hcontinues : r.continues = true := hrun r (List.mem_of_getElem? hr)
  have htrack' := htrack.after_take hrun j
  have hpassed := hasPassed_of_carriedOut (htrack'.loaded) hcontinues hcarried
  apply HasPassed.transGen _ hdepth
  rw [after_take_add hr]
  refine hpassed.after (htrack'.handle hcontinues) ?_ ?_
  · intro x hx
    exact hrun x (List.mem_of_mem_drop (List.mem_of_mem_take hx))
  · intro k hk
    have hki : k ≤ i := hk.trans (List.length_take_le _ _)
    rw [List.take_take, Nat.min_eq_left hki, ← after_take_add hr]
    exact hbetween _ (by omega) (by omega)

end Machine

/-- **A run that finishes neither recurses nor loops.**  Let a run from a start finish.
Then at every moment the routines that are active are different ones, so that fewer
calls are open than the program has names; and once an activation of a routine has
carried out the operation at a position, it does not come to this position again. -/
theorem straight_of_finished {p : Program} {m : Machine} {run : List Request}
    (hprogram : m.image = some (Image.ofProgram p)) (hstart : m.start.reply = .done)
    (hrun : ∀ r ∈ run, r.continues = true)
    (hfinished : ∃ x ∈ m.start.machine.responses run, x.reply = .finished) :
    (∀ k, ((m.start.machine.after (run.take k)).places.map (·.routine)).Nodup
        ∧ (m.start.machine.after (run.take k)).callers.length
          < (p.routines.map (·.name)).dedup.length)
      ∧ ∀ j k r, j < k → run[j]? = some r →
          ((m.start.machine.after (run.take j)).carriedOut? r).isSome = true →
          m.start.machine.SameActivation run j k →
          (m.start.machine.after (run.take k)).cursor.position
            ≠ (m.start.machine.after (run.take j)).cursor.position := by
  have hentry := Machine.leaves_of_finished hprogram hstart hrun hfinished
  have htrack := Machine.onTrack_start hprogram hstart
  have hmoment : ∀ k, (m.start.machine.after (run.take k)).OnTrack (Image.ofProgram p) :=
    htrack.after_take hrun
  refine ⟨?_, ?_⟩
  · intro k
    have hnodup := (hmoment k).chain.nodup (hmoment k).walked hentry
    refine ⟨hnodup, ?_⟩
    have hsubset : (m.start.machine.after (run.take k)).places.map (·.routine)
        ⊆ (p.routines.map (·.name)).dedup := by
      intro name hname
      obtain ⟨l, hl, rfl⟩ := List.mem_map.1 hname
      exact List.mem_dedup.2 (Image.mem_of_contains_ofProgram ((hmoment k).chain.contains l hl))
    have hlength := (List.subperm_of_subset hnodup hsubset).length_le
    rw [List.length_map, Machine.places, List.length_cons] at hlength
    rw [Machine.length_callers]
    omega
  · intro j k r hjk hr hcarried hsame hposition
    have hway := hsame.transGen hjk htrack hrun hr hcarried
    obtain ⟨rest, hleaves⟩ := (hmoment j).chain.leaves_head (hmoment j).walked hentry
    refine hleaves.ne_of_transGen hway ?_
    -- the two places are of one routine
    have hroutine := Image.routine_of_transGen hway
    generalize (m.start.machine.after (run.take k)).cursor = l' at hposition hroutine ⊢
    generalize (m.start.machine.after (run.take j)).cursor = l at hposition hroutine ⊢
    cases l
    cases l'
    subst hposition hroutine
    rfl

theorem straight_of_finished_doublingRunToEnd :
    let m : Machine := { image := some doublingImage }
    (∃ x ∈ m.start.machine.responses doublingRunToEnd, x.reply = .finished)
      ∧ (∀ k, ((m.start.machine.after (doublingRunToEnd.take k)).places.map (·.routine)).Nodup
          ∧ (m.start.machine.after (doublingRunToEnd.take k)).callers.length < 2)
      ∧ m.start.machine.SameActivation doublingRunToEnd 1 6
      ∧ (m.start.machine.after (doublingRunToEnd.take 6)).cursor.position
        ≠ (m.start.machine.after (doublingRunToEnd.take 1)).cursor.position := by
  intro m
  have hprogram : m.image = some (Image.ofProgram doublingProgram) :=
    congrArg some ofProgram_doublingProgram.symm
  have hfinished : ∃ x ∈ m.start.machine.responses doublingRunToEnd, x.reply = .finished := by
    decide +kernel
  have hbetween : ∀ i ≤ 6, 1 ≤ i →
      (m.start.machine.after (doublingRunToEnd.take 1)).frames.length
        ≤ (m.start.machine.after (doublingRunToEnd.take i)).frames.length := by
    decide +kernel
  have hsame : m.start.machine.SameActivation doublingRunToEnd 1 6 :=
    ⟨by decide +kernel, fun i hi hk => hbetween i hk hi⟩
  obtain ⟨hnodup, hpositions⟩ := straight_of_finished hprogram (by decide +kernel) (by decide)
    hfinished
  exact ⟨hfinished, hnodup, hsame,
    hpositions 1 6 (.step .into) (by decide) rfl (by decide +kernel) hsame⟩

end StackCalc
