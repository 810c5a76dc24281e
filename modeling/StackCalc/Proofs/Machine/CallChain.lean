/-
  StackCalc.Proofs.Machine.CallChain
  ──────────────────────────────────
  **THE CHAIN OF CALLS.**

  A machine that was started stands in a chain of calls that begins at the first
  routine: with the places

      g₀:p₀, g₁:p₁, …, gₖ:pₖ        the outermost first, the cursor last,

  `g₀` is the entry, every `gᵢ` is a routine of the program, and the instruction at
  `gᵢ:pᵢ` is a call of `gᵢ₊₁`.  Whatever is asked of a machine keeps it so.  Hence a
  step always finds the routine that it is in, and the faults that say otherwise
  never come of a step.
-/
import Mathlib.Data.List.Chain
import StackCalc.Proofs.Machine.Move

namespace StackCalc

/-! ## §1. Chains. -/

/-- A chain of calls, the innermost place first. -/
inductive Image.Chain (image : Image) : List Location → Prop
  | first {l : Location} (hname : l.routine = entryName) (hknown : image.contains l.routine = true) :
      Chain image [l]
  | call {l caller : Location} {ls : List Location}
      (hop : image.operation? caller = some (.call l.routine))
      (hknown : image.contains l.routine = true) (h : Chain image (caller :: ls)) :
      Chain image (l :: caller :: ls)

namespace Image

variable {image : Image} {l l' : Location} {ls : List Location}

/-- The innermost place may be any of its routine. -/
theorem Chain.replace (h : image.Chain (l :: ls)) (hl : l'.routine = l.routine) :
    image.Chain (l' :: ls) := by
  cases h with
  | first hname hknown =>
    rw [← hl] at hname hknown
    exact .first hname hknown
  | call hop hknown h =>
    rw [← hl] at hop hknown
    exact .call hop hknown h

/-- Going on, entering and leaving keep a chain. -/
theorem Chain.shift {ls' : List Location} {op : Option Operation} (h : image.Chain ls)
    (hshift : image.Shift ls op ls') : image.Chain ls' := by
  cases hshift with
  | along _ _ hnext => exact h.replace (routine_of_successor? hnext)
  | enter hop hname => exact .call hop hname h
  | leave _ =>
    cases h with
    | call _ _ h => exact h.replace rfl

theorem Chain.contains (h : image.Chain ls) : ∀ l ∈ ls, image.contains l.routine = true := by
  induction h with
  | first _ hknown =>
    intro l hl
    rw [List.mem_singleton.1 hl]
    exact hknown
  | call _ hknown _ ih =>
    intro l hl
    rcases List.mem_cons.1 hl with rfl | hl
    · exact hknown
    · exact ih l hl

theorem Chain.getLast? (h : image.Chain ls) : (ls.map (·.routine)).getLast? = some entryName := by
  induction h with
  | first hname _ => exact congrArg some hname
  | call _ _ _ ih =>
    rw [List.map_cons, List.map_cons, List.getLast?_cons_cons]
    exact ih

theorem Chain.isChain (h : image.Chain ls) :
    ls.IsChain fun callee caller => image.operation? caller = some (.call callee.routine) := by
  induction h with
  | first _ _ => exact .singleton _
  | call hop _ _ ih => exact List.isChain_cons_cons.2 ⟨hop, ih⟩

/-- A call that waits stands at a `CALL`. -/
theorem Chain.exists_call (h : image.Chain (l :: ls)) :
    ∀ caller ∈ ls, ∃ name, image.operation? caller = some (.call name) := by
  generalize hplaces : l :: ls = places at h
  induction h generalizing l ls with
  | first _ _ =>
    cases hplaces
    exact fun caller hcaller => absurd hcaller List.not_mem_nil
  | call hop _ _ ih =>
    cases hplaces
    intro caller hcaller
    rcases List.mem_cons.1 hcaller with rfl | hcaller
    · exact ⟨_, hop⟩
    · exact ih rfl caller hcaller

end Image

/-! ## §2. Every reachable machine. -/

namespace Machine

variable {m : Machine} {image : Image} {r : Request}

/-- The places of the machine are a chain of calls of its program. -/
def Linked (m : Machine) : Prop :=
  ∃ image, m.image = some image ∧ image.Chain m.places

theorem Linked.handle (h : m.Linked) (hr : r.continues = true) : (m.handle r).machine.Linked := by
  obtain ⟨image, himage, hchain⟩ := h
  refine ⟨image, (image_handle hr).trans himage, ?_⟩
  rcases shift_cases himage hr with ⟨hplaces, -⟩ | hshift
  · rw [hplaces]
    exact hchain
  · exact hchain.shift hshift

/-- A request that continues a run does not make a machine ready. -/
theorem phase_ne_ready_of_handle (hr : r.continues = true)
    (h : (m.handle r).machine.phase ≠ .ready) : m.phase ≠ .ready := by
  rcases m.handle_cases hr with hrests | ⟨image, hmoved⟩
  · rcases hrests.phase with hphase | ⟨⟨prompt, hphase⟩, -⟩
    · rw [← hphase]
      exact h
    · rw [hphase]
      exact Phase.noConfusion
  · rw [hmoved.running]
    exact Phase.noConfusion

/-- **A machine that was started stands in a chain of calls.** -/
theorem Reachable.linked (h : m.Reachable) : m.phase ≠ .ready → m.Linked := by
  refine h.induction (P := fun m => m.phase ≠ .ready → m.Linked) ?_ ?_ ?_ ?_
  · exact fun hphase => absurd rfl hphase
  · exact fun _ _ hphase => absurd rfl hphase
  · intro m image himage hentry _
    exact ⟨image, himage, .first rfl hentry⟩
  · intro m r hr ih hphase
    exact (ih (phase_ne_ready_of_handle hr hphase)).handle hr

/-! ## §3. Faults of a step. -/

/-- A machine in a chain of calls finds its program and its routine, so a step is
refused by what the instruction at the cursor asks for. -/
theorem Linked.operation_of_refuses {fault : Fault} (h : m.Linked) (hfault : m.Refuses fault) :
    ∃ image op, m.image = some image ∧ image.operation? m.cursor = some op
      ∧ fault ≠ .noProgram ∧ fault ≠ .noMain
      ∧ ∀ name place, fault = .unknownRoutine name place →
          place = m.cursor ∧ op = .call name ∧ image.contains name = false := by
  obtain ⟨image, himage, hchain⟩ := h
  cases hfault with
  | noProgram hnone =>
    rw [himage] at hnone
    cases hnone
  | lost himage' hlost =>
    obtain rfl := Option.some.inj (himage.symm.trans himage')
    have hknown := hchain.contains m.cursor List.mem_cons_self
    rw [hlost] at hknown
    cases hknown
  | underflow himage' hop _ => exact ⟨_, _, himage', hop, by simp, by simp, by simp⟩
  | division himage' hop _ => exact ⟨_, _, himage', hop, by simp, by simp, by simp⟩
  | label himage' hop _ => exact ⟨_, _, himage', hop, by simp, by simp, by simp⟩
  | routine himage' hop hname =>
    refine ⟨_, _, himage', hop, by simp, by simp, ?_⟩
    intro name place hfault
    cases hfault
    exact ⟨rfl, rfl, hname⟩

/-! ## §4. The next instruction. -/

/-- Whether a request is a step that takes effect. -/
def isEffective (m : Machine) (r : Request) : Bool :=
  match r, m.phase, (m.handle r).reply with
  | .step _, .running, .failed _ => false
  | .step _, .running, _ => true
  | _, _, _ => false

/-- Whether the requests continue a run and no step among them takes effect. -/
def pauses (m : Machine) : List Request → Bool
  | [] => true
  | r :: run => r.continues && !m.isEffective r && (m.handle r).machine.pauses run

theorem MovedBy.isEffective_eq (h : m.MovedBy image r) : m.isEffective r = true := by
  obtain ⟨strategy, rfl⟩ := h.step
  unfold Machine.isEffective
  rw [h.running]
  rcases h.moves.reply_cases with hreply | ⟨hfinish, -, -⟩
  · rw [hreply]
  · rw [hfinish]

/-- A pause leaves a machine at its place. -/
theorem after_of_pauses {run : List Request} (h : m.pauses run = true) :
    (m.after run).image = m.image ∧ (m.after run).places = m.places := by
  induction run generalizing m with
  | nil => exact ⟨rfl, rfl⟩
  | cons r run ih =>
    rw [pauses, Bool.and_eq_true, Bool.and_eq_true, Bool.not_eq_true'] at h
    obtain ⟨⟨hr, heffective⟩, hrun⟩ := h
    have hrests : m.Rests r := by
      rcases m.handle_cases hr with hrests | ⟨image, hmoved⟩
      · exact hrests
      · rw [hmoved.isEffective_eq] at heffective
        cases heffective
    obtain ⟨himage, hplaces⟩ := ih hrun
    exact ⟨himage.trans hrests.image, hplaces.trans hrests.places⟩

theorem current?_eq_of_places_eq {n : Machine} (himage : n.image = m.image)
    (hplaces : n.places = m.places) : n.current? = m.current? := by
  have hcursor : n.cursor = m.cursor := (List.cons.inj hplaces).1
  unfold current? body?
  rw [himage, hcursor]

/-- A running machine in a chain of calls carries out the instruction at its cursor,
or leaves its routine where there is none. -/
theorem Linked.stepInto_eq (h : m.Linked) (hphase : m.phase = .running) :
    ∃ image, m.image = some image
      ∧ m.stepInto = match m.current? with
        | none => m.leave
        | some i => m.execute image i.operation := by
  obtain ⟨image, himage, hchain⟩ := h
  have hknown := hchain.contains m.cursor List.mem_cons_self
  obtain ⟨body, hbody⟩ := Option.isSome_iff_exists.1 hknown
  have hbody' : m.body? = some body := by
    unfold body?
    rw [himage]
    exact hbody
  have hstep := stepInto_of_running hphase
  rw [himage, hbody'] at hstep
  exact ⟨image, himage, hstep⟩

/-- With this response the machine left a routine: the run is over, or a call is
closed. -/
def LeftBy (m : Machine) (r : Response) : Prop :=
  r.reply = .finished ∨ r.machine.frames.length < m.frames.length

theorem Moves.leftBy_iff {r : Response} (h : m.Moves image r) :
    m.LeftBy r ↔ image.operation? m.cursor = none := by
  unfold LeftBy
  cases h with
  | next hop _ _ _ _ => simp [hop, stepped, advance]
  | ask hop => simp [hop, Machine.ask, advance]
  | jump hop _ => simp [hop, stepped]
  | enter hop _ => simp [hop, stepped]
  | leave hend hframes => simp [hend, hframes, stepped]
  | finish hend _ => simp [hend]

/-- A step leaves a routine exactly where there is no instruction. -/
theorem Linked.leftBy_stepInto_iff (h : m.Linked) (hphase : m.phase = .running) :
    m.LeftBy m.stepInto ↔ m.current? = none := by
  rcases stepInto_cases hphase with ⟨image, himage, hmoves⟩ | ⟨fault, hfault, hfail⟩
  · rw [hmoves.leftBy_iff, operation?_cursor himage, Option.map_eq_none_iff]
  · obtain ⟨image, op, himage, hop, -⟩ := h.operation_of_refuses hfault
    rw [operation?_cursor himage] at hop
    obtain ⟨i, hi, -⟩ := Option.map_eq_some_iff.1 hop
    rw [hfail, hi]
    simp [LeftBy, fail]

end Machine

/-- What is to be known of the calls that a machine has open.  Its places are listed
the outermost first, the cursor last. -/
structure Machine.CallChain (m : Machine) (image : Image) : Prop where
  loaded : m.image = some image
  /-- The first routine is the entry. -/
  entry : ((m.callers ++ [m.cursor]).map (·.routine)).head? = some entryName
  /-- All are routines of the program. -/
  known : ∀ l ∈ m.callers ++ [m.cursor], image.contains l.routine = true
  /-- At each place but the last there is a call of the routine of the next. -/
  links : (m.callers ++ [m.cursor]).IsChain fun caller callee =>
    image.operation? caller = some (.call callee.routine)

theorem Machine.Linked.callChain {m : Machine} (h : m.Linked) : ∃ image, m.CallChain image := by
  obtain ⟨image, himage, hchain⟩ := h
  refine ⟨image, himage, ?_, ?_, ?_⟩
  · rw [← reverse_places, List.map_reverse, List.head?_reverse]
    exact hchain.getLast?
  · rw [← reverse_places]
    intro l hl
    exact hchain.contains l (List.mem_reverse.1 hl)
  · rw [← reverse_places, List.isChain_reverse]
    exact hchain.isChain

/-- **The chain of calls of every reachable machine.**  After a start the open calls
form a chain from the entry.  So no step fails for want of a program or of the
routine at the cursor, and the instruction that is seen at the cursor is the one
that the next step to take effect carries out, whatever is asked for in between;
where none is seen, that step leaves the routine, and only there. -/
theorem callChain_of_reachable {m : Machine} (hm : m.Reachable) :
    (m.phase ≠ .ready → ∃ image, m.CallChain image)
      ∧ (∀ strategy, (m.step strategy).reply ≠ .failed .noProgram
          ∧ (m.step strategy).reply ≠ .failed .noMain
          ∧ ∀ name place, (m.step strategy).reply = .failed (.unknownRoutine name place) →
              place = m.cursor ∧ ∃ image, m.image = some image
                ∧ image.operation? m.cursor = some (.call name) ∧ image.contains name = false)
      ∧ ∀ run strategy, m.phase ≠ .ready → m.pauses run = true → (m.after run).phase = .running →
          (∃ image, m.image = some image
            ∧ (m.after run).step strategy = match m.current? with
              | none => (m.after run).leave
              | some i => (m.after run).execute image i.operation)
          ∧ ((m.after run).LeftBy ((m.after run).step strategy) ↔ m.current? = none) := by
  refine ⟨fun hphase => (hm.linked hphase).callChain, ?_, ?_⟩
  · intro strategy
    rw [m.step_eq_stepInto]
    by_cases hphase : m.phase = .running
    · have hlinked : m.Linked := hm.linked (by rw [hphase]; exact Phase.noConfusion)
      rcases Machine.stepInto_cases hphase with ⟨image, -, hmoves⟩ | ⟨fault, hfault, hfail⟩
      · rcases hmoves.reply_cases with hreply | ⟨hfinish, -⟩
        · simp [hreply]
        · simp [hfinish]
      · obtain ⟨image, op, himage, hop, hprogram, hmain, hroutine⟩ :=
          hlinked.operation_of_refuses hfault
        rw [hfail]
        refine ⟨fun h => hprogram (Reply.failed.inj h), fun h => hmain (Reply.failed.inj h), ?_⟩
        intro name place hreply
        obtain ⟨hplace, rfl, hname⟩ := hroutine name place (Reply.failed.inj hreply)
        exact ⟨hplace, image, himage, hop, hname⟩
    · -- the answer is that there is no step to make, or to wait
      rcases Machine.reply_stepInto_of_ne_running hphase with hreply | hreply <;> simp [hreply]
  · intro run strategy hready hpauses hrunning
    obtain ⟨himage, hplaces⟩ := Machine.after_of_pauses hpauses
    have hcurrent := Machine.current?_eq_of_places_eq himage hplaces
    have hlinked : (m.after run).Linked := by
      obtain ⟨image, hloaded, hchain⟩ := hm.linked hready
      exact ⟨image, himage.trans hloaded, hplaces ▸ hchain⟩
    rw [Machine.step_eq_stepInto, ← hcurrent, ← himage]
    exact ⟨hlinked.stepInto_eq hrunning, hlinked.leftBy_stepInto_iff hrunning⟩

/-- A run of `doublingProgram` up to its question. -/
def doublingHistory : List Request :=
  [.load doublingProgram, .start, .step .into, .step .over]

theorem callChain_of_reachable_doublingHistory :
    let m := Machine.after {} doublingHistory
    let n := m.after [.step .into, .provide 3]
    m.Reachable ∧ m.phase = .waiting "x?" ∧ m.callers = [⟨"main", 0⟩] ∧ n.phase = .running
      ∧ (∃ image, m.CallChain image)
      ∧ (m.step .into).reply ≠ .failed .noProgram
      ∧ (∃ image, m.image = some image
          ∧ n.step .into = match m.current? with
            | none => n.leave
            | some i => n.execute image i.operation)
      ∧ (n.LeftBy (n.step .into) ↔ m.current? = none) := by
  have hm : Machine.Reachable (Machine.after {} doublingHistory) := ⟨doublingHistory, rfl⟩
  have hphase : (Machine.after {} doublingHistory).phase = .waiting "x?" := by
    rw [doublingHistory, after_load_doublingProgram]
    decide +kernel
  have hcallers : (Machine.after {} doublingHistory).callers = [⟨"main", 0⟩] := by
    rw [doublingHistory, after_load_doublingProgram]
    decide +kernel
  have hpauses : (Machine.after {} doublingHistory).pauses [.step .into, .provide 3] = true := by
    rw [doublingHistory, after_load_doublingProgram]
    decide +kernel
  have hrunning : ((Machine.after {} doublingHistory).after [.step .into, .provide 3]).phase
      = .running := by
    rw [doublingHistory, after_load_doublingProgram]
    decide +kernel
  have hready : (Machine.after {} doublingHistory).phase ≠ .ready := by
    rw [hphase]
    exact Phase.noConfusion
  obtain ⟨hchain, hfaults, hnext⟩ := callChain_of_reachable hm
  exact ⟨hm, hphase, hcallers, hrunning, hchain hready, (hfaults .into).1,
    hnext _ .into hready hpauses hrunning⟩

end StackCalc
