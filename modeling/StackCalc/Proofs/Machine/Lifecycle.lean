/-
  StackCalc.Proofs.Machine.Lifecycle
  ──────────────────────────────────
  **WHAT THE PHASE OF A MACHINE SAYS.**

  In each phase the rest of the machine is as the phase says (`Machine.Consistent`): a
  ready machine is at the entry with empty stacks, a waiting one has just carried out the
  `INPUT` whose prompt is pending, and a finished one is past the end of the first
  routine.

  A question that a run has asked once it asks again whenever it is started anew, so
  from waiting to finished there is no way but by a value that is taken or by another
  program (`Machine.Reachable.phase_ne_finished`).
-/
import StackCalc.Proofs.Machine.CallChain
import StackCalc.Proofs.Machine.Leaving

namespace StackCalc

/-! ## §1. What the phases say. -/

namespace Machine

variable {m : Machine} {image : Image} {r : Request}

theorem phase_of_pending? {prompt : String} (h : m.pending? = some prompt) :
    m.phase = .waiting prompt := by
  unfold pending? at h
  cases hphase : m.phase with
  | waiting prompt' =>
    rw [hphase] at h
    rw [Option.some.inj h]
  | _ =>
    rw [hphase] at h
    cases h

theorem isWaiting_of_waiting {prompt : String} (h : m.phase = .waiting prompt) :
    m.isWaiting = true := by
  unfold isWaiting pending?
  rw [h]
  rfl

theorem isWaiting_of_running (h : m.phase = .running) : m.isWaiting = false := by
  unfold isWaiting pending?
  rw [h]
  rfl

/-- The phase that a move leads to. -/
theorem Moves.phase_cases {r : Response} (h : m.Moves image r) :
    (r.reply = .stepped ∧ r.machine.phase = m.phase
        ∧ ∀ prompt, image.operation? m.cursor ≠ some (.input prompt))
      ∨ (∃ prompt, r.reply = .stepped ∧ r.machine.phase = .waiting prompt
          ∧ image.operation? m.cursor = some (.input prompt) ∧ r.machine.cursor = m.cursor.next)
      ∨ r.reply = .finished ∧ r.machine.phase = .finished ∧ r.machine.places = m.places
          ∧ image.operation? m.cursor = none ∧ m.frames = [] := by
  cases h with
  | next hop hinput _ _ _ =>
    refine .inl ⟨rfl, rfl, fun prompt h => hinput prompt ?_⟩
    exact Option.some.inj (hop.symm.trans h)
  | ask hop => exact .inr (.inl ⟨_, rfl, rfl, hop, rfl⟩)
  | jump hop _ => exact .inl ⟨rfl, rfl, by simp [hop]⟩
  | enter hop _ => exact .inl ⟨rfl, rfl, by simp [hop]⟩
  | leave hend _ => exact .inl ⟨rfl, rfl, by simp [hend]⟩
  | finish hend hframes => exact .inr (.inr ⟨rfl, rfl, rfl, hend, hframes⟩)

/-- The rest of the machine is as its phase says. -/
structure Consistent (m : Machine) : Prop where
  ready : m.phase = .ready → m.stack = [] ∧ m.frames = [] ∧ m.cursor = entry
  /-- The operation before the cursor asked the question. -/
  waiting : ∀ prompt, m.phase = .waiting prompt → ∃ image l, m.image = some image
    ∧ image.operation? l = some (.input prompt) ∧ m.cursor = l.next
  finished : m.phase = .finished → ∃ image, m.image = some image
    ∧ image.operation? m.cursor = none ∧ m.frames = []

theorem consistent_of_running (hphase : m.phase = .running) : m.Consistent := by
  constructor <;> simp [hphase]

theorem consistent_of_ready (hphase : m.phase = .ready) (hstack : m.stack = [])
    (hframes : m.frames = []) (hcursor : m.cursor = entry) : m.Consistent := by
  constructor <;> simp [hphase, hstack, hframes, hcursor]

/-- A ready machine that is not started keeps its values. -/
theorem stack_handle_of_ready (hphase : m.phase = .ready) (hr : r.continues = true) :
    (m.handle r).machine.stack = m.stack := by
  cases r with
  | load program => cases hr
  | start => cases hr
  | step strategy => rw [handle_step, machine_stepInto_of_ne_running (by simp [hphase])]
  | provide value =>
    rcases m.provide_cases value with ⟨⟨prompt, hwaiting⟩, -⟩ | hfail
    · rw [hphase] at hwaiting
      cases hwaiting
    · exact congrArg (·.machine.stack) hfail
  | listen on => rfl

/-- A request that leaves the machine at its place keeps it consistent. -/
theorem Consistent.rests (h : m.Consistent) (hr : r.continues = true) (hrests : m.Rests r) :
    (m.handle r).machine.Consistent := by
  rcases hrests.phase with hphase | ⟨-, hrunning⟩
  · obtain ⟨hcursor, hframes⟩ := List.cons.inj hrests.places
    constructor
    · rw [hphase]
      intro hready
      rw [hcursor, hframes, stack_handle_of_ready hready hr]
      exact h.ready hready
    · rw [hphase, hrests.image, hcursor]
      exact h.waiting
    · rw [hphase, hrests.image, hcursor, hframes]
      exact h.finished
  · exact consistent_of_running hrunning

/-- A move leads to a consistent machine. -/
theorem MovedBy.consistent (h : m.MovedBy image r) : (m.handle r).machine.Consistent := by
  rcases h.moves.phase_cases with ⟨-, hsame, -⟩ | ⟨prompt, -, hwaiting, hop, hcursor⟩ |
    ⟨-, hfinished, hplaces, hend, hframes⟩
  · exact consistent_of_running (hsame.trans h.running)
  · constructor
    · simp [hwaiting]
    · intro prompt' hwaiting'
      rw [hwaiting] at hwaiting'
      cases hwaiting'
      exact ⟨image, m.cursor, h.moves.image_eq.trans h.loaded, hop, hcursor⟩
    · simp [hwaiting]
  · obtain ⟨hcursor', hframes'⟩ := List.cons.inj hplaces
    constructor
    · simp [hfinished]
    · simp [hfinished]
    · intro _
      rw [hcursor', hframes']
      exact ⟨image, h.moves.image_eq.trans h.loaded, hend, hframes⟩

/-- **Every reachable machine is consistent.** -/
theorem Reachable.consistent (h : m.Reachable) : m.Consistent := by
  refine h.induction (consistent_of_ready rfl rfl rfl rfl) ?_ ?_ ?_
  · exact fun _ _ => consistent_of_ready rfl rfl rfl rfl
  · exact fun _ _ _ _ => consistent_of_running rfl
  · intro m r hr hm
    rcases m.handle_cases hr with hrests | ⟨image, hmoved⟩
    · exact hm.rests hr hrests
    · exact hmoved.consistent

end Machine

/-! ## §2. Questions. -/

namespace Image

variable {image : Image} {l l' : Location} {ls ls' : List Location} {op : Option Operation}

/-- Going on at these places, all their routines are left without a question. -/
def Quiet (image : Image) (ls : List Location) : Prop :=
  ∃ ops, image.Unwinds ls ops ∧ ∀ prompt, .input prompt ∉ ops

/-- A move that is no question makes no difference to whether there is one to come. -/
theorem Shift.quiet_iff (hshift : image.Shift (l :: ls) op (l' :: ls'))
    (hop : ∀ prompt, op ≠ some (.input prompt)) :
    image.Quiet (l' :: ls'.map Location.next) ↔ image.Quiet (l :: ls.map Location.next) := by
  constructor
  · rintro ⟨ops, hunwinds, hquiet⟩
    refine ⟨_, hshift.unwinds hunwinds, ?_⟩
    intro prompt hmem
    rcases List.mem_append.1 hmem with hmem | hmem
    · exact hop prompt (Option.mem_toList.1 hmem)
    · exact hquiet prompt hmem
  · rintro ⟨ops, hunwinds, hquiet⟩
    obtain ⟨rest, rfl, hrest⟩ := hunwinds.shift hshift
    exact ⟨rest, hrest, fun prompt hmem => hquiet prompt (List.mem_append_right _ hmem)⟩

theorem Shift.not_quiet {prompt : String}
    (hshift : image.Shift (l :: ls) (some (.input prompt)) (l' :: ls')) :
    ¬ image.Quiet (l :: ls.map Location.next) := by
  rintro ⟨ops, hunwinds, hquiet⟩
  obtain ⟨rest, rfl, -⟩ := hunwinds.shift hshift
  exact hquiet prompt (List.mem_append_left _ (Option.mem_toList.2 rfl))

end Image

namespace Machine

variable {m : Machine} {image : Image} {r : Request}

/-- What a move says of the questions to come. -/
theorem MovedBy.quiet_cases (h : m.MovedBy image r) :
    ((m.handle r).machine.phase = .running
        ∧ (image.Quiet (m.handle r).machine.resumptions ↔ image.Quiet m.resumptions))
      ∨ (∃ prompt, (m.handle r).machine.phase = .waiting prompt) ∧ ¬ image.Quiet m.resumptions
      ∨ (m.handle r).machine.phase = .finished
        ∧ (m.handle r).machine.resumptions = m.resumptions ∧ image.Quiet m.resumptions := by
  rcases h.moves.phase_cases with ⟨hreply, hsame, hinput⟩ | ⟨prompt, hreply, hwaiting, hop, -⟩ |
    ⟨-, hfinished, hplaces, hend, hframes⟩
  · have hshift := h.moves.shift (by simp [hreply])
    exact .inl ⟨hsame.trans h.running, hshift.quiet_iff hinput⟩
  · have hshift := h.moves.shift (by simp [hreply])
    rw [hop] at hshift
    exact .inr (.inl ⟨⟨prompt, hwaiting⟩, hshift.not_quiet⟩)
  · refine .inr (.inr ⟨hfinished, resumptions_eq_of_places_eq hplaces, [], ?_, by simp⟩)
    rw [resumptions, hframes]
    exact Image.unwinds_singleton_iff.2 (.past hend)

/-- A program that can be left without a question never asks one. -/
theorem Reachable.quiet (h : m.Reachable) : ∀ image, m.image = some image →
    image.Quiet [entry] → m.phase ≠ .ready →
    image.Quiet m.resumptions ∧ ∀ prompt, m.phase ≠ .waiting prompt := by
  refine h.induction (P := fun m => ∀ image, m.image = some image → image.Quiet [entry] →
    m.phase ≠ .ready → image.Quiet m.resumptions ∧ ∀ prompt, m.phase ≠ .waiting prompt) ?_ ?_ ?_ ?_
  · exact fun _ _ _ hready => absurd rfl hready
  · exact fun _ _ _ _ _ hready => absurd rfl hready
  · exact fun _ _ _ _ _ _ hentry _ => ⟨hentry, fun _ => Phase.noConfusion⟩
  · intro m r hr ih image himage hentry hready
    rw [image_handle hr] at himage
    obtain ⟨hquiet, hwaiting⟩ := ih image himage hentry (phase_ne_ready_of_handle hr hready)
    rcases m.handle_cases hr with hrests | ⟨image', hmoved⟩
    · rw [resumptions_eq_of_places_eq hrests.places]
      refine ⟨hquiet, ?_⟩
      rcases hrests.phase with hphase | ⟨-, hphase⟩
      · rw [hphase]
        exact hwaiting
      · simp [hphase]
    · obtain rfl : image' = image := Option.some.inj (hmoved.loaded.symm.trans himage)
      rcases hmoved.quiet_cases with ⟨hphase, hiff⟩ | ⟨-, hasks⟩ | ⟨hphase, hsame, -⟩
      · exact ⟨hiff.2 hquiet, by simp [hphase]⟩
      · exact absurd hquiet hasks
      · rw [hsame]
        exact ⟨hquiet, by simp [hphase]⟩

/-- There is a question to be answered before the run can finish. -/
structure Unanswered (m : Machine) (image : Image) : Prop where
  loaded : m.image = some image
  asks : (∃ prompt, m.phase = .waiting prompt) ∨ m.phase = .running ∧ ¬ image.Quiet m.resumptions

/-- It stays so unless a value is taken, also if the program is started anew. -/
theorem Unanswered.handle (h : m.Unanswered image) (hentry : ¬ image.Quiet [entry])
    (hload : ∀ program, r ≠ .load program)
    (hprovide : ∀ value, r = .provide value → (m.handle r).reply ≠ .done) :
    (m.handle r).machine.Unanswered image := by
  cases r with
  | load program => exact absurd rfl (hload program)
  | provide value =>
    have hrefused : (m.provide value).reply ≠ .done := hprovide value rfl
    show (m.provide value).machine.Unanswered image
    rcases m.provide_cases value with ⟨-, hdone⟩ | hfail
    · rw [hdone] at hrefused
      exact absurd rfl hrefused
    · rw [hfail]
      exact h
  | listen on => exact ⟨h.loaded, h.asks⟩
  | start =>
    show m.start.machine.Unanswered image
    rcases m.start_cases with ⟨-, hdone⟩ | ⟨fault, hfail⟩
    · rw [hdone]
      exact ⟨h.loaded, .inr ⟨rfl, hentry⟩⟩
    · rw [hfail]
      exact h
  | step strategy =>
    rcases h.asks with ⟨prompt, hwaiting⟩ | ⟨hrunning, hasks⟩
    · rw [handle_step, machine_stepInto_of_ne_running (by simp [hwaiting])]
      exact h
    · rcases step_cases hrunning strategy with hrests | ⟨image', hmoved⟩
      · have hphase : (m.handle (.step strategy)).machine.phase = .running := by
          rcases hrests.phase with hsame | ⟨-, hphase⟩
          · exact hsame.trans hrunning
          · exact hphase
        refine ⟨hrests.image.trans h.loaded, .inr ⟨hphase, ?_⟩⟩
        rw [resumptions_eq_of_places_eq hrests.places]
        exact hasks
      · obtain rfl : image' = image := Option.some.inj (hmoved.loaded.symm.trans h.loaded)
        refine ⟨hmoved.moves.image_eq.trans h.loaded, ?_⟩
        rcases hmoved.quiet_cases with ⟨hphase, hiff⟩ | ⟨hwaiting, -⟩ | ⟨-, -, hquiet⟩
        · exact .inr ⟨hphase, fun hquiet => hasks (hiff.1 hquiet)⟩
        · exact .inl hwaiting
        · exact absurd hquiet hasks

theorem Unanswered.after {history : List Request} (h : m.Unanswered image)
    (hentry : ¬ image.Quiet [entry]) (hload : ∀ program, .load program ∉ history)
    (hprovide : ∀ before value rest, history = before ++ .provide value :: rest →
      ((m.after before).handle (.provide value)).reply ≠ .done) :
    (m.after history).Unanswered image := by
  induction history generalizing m with
  | nil => exact h
  | cons r history ih =>
    have hfirst : (m.handle r).machine.Unanswered image := by
      refine h.handle hentry ?_ ?_
      · rintro program rfl
        exact hload program List.mem_cons_self
      · rintro value rfl
        exact hprovide [] value history rfl
    refine ih hfirst (fun program hp => hload program (List.mem_cons_of_mem _ hp)) ?_
    rintro before value rest rfl
    exact hprovide (r :: before) value rest rfl

/-- **From waiting to finished there is no way but by a value that is taken or another
program.** -/
theorem Reachable.phase_ne_finished {prompt : String} {history : List Request} (h : m.Reachable)
    (hwaiting : m.phase = .waiting prompt) (hload : ∀ program, .load program ∉ history)
    (hprovide : ∀ before value rest, history = before ++ .provide value :: rest →
      ((m.after before).handle (.provide value)).reply ≠ .done) :
    (m.after history).phase ≠ .finished := by
  obtain ⟨image, -, himage, -, -⟩ := h.consistent.waiting prompt hwaiting
  have hentry : ¬ image.Quiet [entry] := by
    intro hquiet
    exact (h.quiet image himage hquiet (by simp [hwaiting])).2 prompt hwaiting
  have hunanswered : m.Unanswered image := ⟨himage, .inl ⟨prompt, hwaiting⟩⟩
  rcases (hunanswered.after hentry hload hprovide).asks with ⟨prompt', hphase⟩ | ⟨hphase, -⟩
  · simp [hphase]
  · simp [hphase]

end Machine

end StackCalc
