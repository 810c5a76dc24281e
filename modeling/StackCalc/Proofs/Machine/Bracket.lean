/-
  StackCalc.Proofs.Machine.Bracket
  ────────────────────────────────
  **CALLS AND RETURNS ARE BRACKETED.**

  A `CALL` at `f:p` puts this place on top of the open calls `C`.  Until it is
  taken off again, whatever the routine that is called does, the stack of calls is

      C, f:p, …

  and when it is taken off, the stack is `C` and the run goes on at `f:p+1`.  What one
  request does to a stack with a given part at the bottom is in `frames_handle`; the
  rest is induction over the run.
-/
import StackCalc.Proofs.Machine.Move

namespace StackCalc

namespace Machine

/-! ## §1. One request. -/

theorem length_callers (m : Machine) : m.callers.length = m.frames.length :=
  List.length_reverse

end Machine

variable {image : Image} {frame : Location} {base : List Location}

/-- A call that waits goes on waiting, or is the one that is returned to. -/
theorem Image.Shift.suffix_cases {l l' : Location} {ls ls' : List Location} {op : Option Operation}
    (hshift : image.Shift (l :: ls) op (l' :: ls')) (h : (frame :: base) <:+ ls) :
    (frame :: base) <:+ ls' ∨ ls' = base ∧ l' = frame.next := by
  cases hshift with
  | along _ _ _ => exact .inl h
  | enter _ _ => exact .inl (h.trans (List.suffix_cons _ _))
  | leave _ =>
    -- the innermost call is closed: either `frame` itself or one above it
    rcases List.suffix_cons_iff.1 h with heq | hsuffix
    · obtain ⟨rfl, rfl⟩ := List.cons.inj heq
      exact .inr ⟨rfl, rfl⟩
    · exact .inl hsuffix

namespace Machine

variable {m : Machine} {r : Request} {run : List Request}

theorem frames_handle (himage : m.image = some image) (hr : r.continues = true)
    (h : (frame :: base) <:+ m.frames) :
    (frame :: base) <:+ (m.handle r).machine.frames
      ∨ (m.handle r).machine.frames = base ∧ (m.handle r).machine.cursor = frame.next := by
  rcases shift_cases himage hr with ⟨hplaces, -⟩ | hshift
  · rw [(List.cons.inj hplaces).2]
    exact .inl h
  · exact hshift.suffix_cases h

/-! ## §2. Runs. -/

/-- A call waits as long as the stack has not come back to what is below it. -/
theorem frames_after (himage : m.image = some image) (hrun : ∀ r ∈ run, r.continues = true)
    (h : (frame :: base) <:+ m.frames)
    (hopen : ∀ k ≤ run.length, (m.after (run.take k)).frames.length ≠ base.length) :
    (frame :: base) <:+ (m.after run).frames := by
  induction run generalizing m with
  | nil => exact h
  | cons r run ih =>
    have hr : r.continues = true := hrun r List.mem_cons_self
    rcases frames_handle himage hr h with hwaits | ⟨hbase, -⟩
    · refine ih ((image_handle hr).trans himage) (fun x hx => hrun x (List.mem_cons_of_mem _ hx))
        hwaits ?_
      intro k hk
      exact hopen (k + 1) (Nat.succ_le_succ hk)
    · have hback : (m.after ((r :: run).take 1)).frames.length = base.length :=
        congrArg List.length hbase
      exact absurd hback (hopen 1 (Nat.succ_le_succ (Nat.zero_le _)))

/-- When the stack has first come back to what is below a call, the run goes on after
this call. -/
theorem after_of_first_return (himage : m.image = some image)
    (hrun : ∀ r ∈ run, r.continues = true) (h : (frame :: base) <:+ m.frames)
    (hopen : ∀ k < run.length, (m.after (run.take k)).frames.length ≠ base.length)
    (hback : (m.after run).frames.length = base.length) :
    (m.after run).frames = base ∧ (m.after run).cursor = frame.next := by
  rcases List.eq_nil_or_concat run with rfl | ⟨init, r, rfl⟩
  · -- at first there is the call above
    have hlength := h.length_le
    rw [List.length_cons] at hlength
    have hfirst : m.frames.length = base.length := hback
    omega
  · rw [List.concat_eq_append] at hrun hopen hback ⊢
    rw [List.length_append, List.length_singleton] at hopen
    have hinit : ∀ x ∈ init, x.continues = true := fun x hx => hrun x (List.mem_append_left _ hx)
    have hwaits : (frame :: base) <:+ (m.after init).frames := by
      refine frames_after himage hinit h ?_
      intro k hk
      have hk' := hopen k (Nat.lt_succ_of_le hk)
      rwa [List.take_append_of_le_length hk] at hk'
    have hlast : m.after (init ++ [r]) = ((m.after init).handle r).machine := m.after_append init [r]
    rw [hlast] at hback ⊢
    rcases frames_handle ((image_after hinit).trans himage) (hrun r (by simp)) hwaits with
      hwaits | hreturn
    · have hlength := hwaits.length_le
      rw [List.length_cons] at hlength
      omega
    · exact hreturn

/-! ## §3. The bracket. -/

/-- The response opens a call from the cursor of `m`, and whatever continues the run
closes it as it was opened. -/
structure Brackets (m : Machine) (callee : String) (opened : Response) : Prop where
  reply : opened.reply = .stepped
  callers : opened.machine.callers = m.callers ++ [m.cursor]
  cursor : opened.machine.cursor = ⟨callee, 0⟩
  /-- Before the depth of the calls has come back, the call waits above the ones that
  were open. -/
  inside : ∀ run : List Request, (∀ r ∈ run, r.continues = true) →
    (∀ k ≤ run.length, (opened.machine.after (run.take k)).callers.length ≠ m.callers.length) →
    (m.callers ++ [m.cursor]) <+: (opened.machine.after run).callers
  /-- When it first has, the same calls are open and the run goes on after the call. -/
  back : ∀ run : List Request, (∀ r ∈ run, r.continues = true) →
    (∀ k < run.length, (opened.machine.after (run.take k)).callers.length ≠ m.callers.length) →
    (opened.machine.after run).callers.length = m.callers.length →
    (opened.machine.after run).callers = m.callers
      ∧ (opened.machine.after run).cursor = m.cursor.next

theorem brackets_of_opened {callee : String} {opened : Response} (hreply : opened.reply = .stepped)
    (hframes : opened.machine.frames = m.cursor :: m.frames)
    (hcursor : opened.machine.cursor = ⟨callee, 0⟩) (himage : opened.machine.image = some image) :
    m.Brackets callee opened where
  reply := hreply
  callers := by
    unfold Machine.callers
    rw [hframes, List.reverse_cons]
  cursor := hcursor
  inside := by
    intro run hrun hopen
    simp only [length_callers] at hopen
    have hwaits : (m.cursor :: m.frames) <:+ (opened.machine.after run).frames :=
      frames_after himage hrun (hframes ▸ List.suffix_rfl) hopen
    rw [← List.reverse_prefix, List.reverse_cons] at hwaits
    exact hwaits
  back := by
    intro run hrun hopen hback
    simp only [length_callers] at hopen hback
    have hreturn : (opened.machine.after run).frames = m.frames
        ∧ (opened.machine.after run).cursor = m.cursor.next :=
      after_of_first_return himage hrun (hframes ▸ List.suffix_rfl) hopen hback
    exact ⟨congrArg List.reverse hreturn.1, hreturn.2⟩

/-- The run is over only where no call is open. -/
theorem callers_of_finished (h : (m.handle r).reply = .finished) :
    m.callers = [] ∧ (m.handle r).machine.callers = [] := by
  by_cases hr : r.continues = true
  · rcases m.handle_cases hr with hrests | ⟨image, hmoved⟩
    · exact absurd h hrests.reply
    · rcases hmoved.moves.reply_cases with hreply | ⟨hfinish, -, hframes⟩
      · rw [h] at hreply
        cases hreply
      · have hcallers : m.callers = [] := congrArg List.reverse hframes
        rw [hfinish]
        exact ⟨hcallers, hcallers⟩
  · cases r with
    | load program => cases h
    | start =>
      have hstart : m.start.reply = .finished := h
      rcases m.start_cases with ⟨-, hdone⟩ | ⟨fault, hfail⟩
      · rw [hdone] at hstart
        cases hstart
      · rw [hfail] at hstart
        cases hstart
    | _ => exact absurd rfl hr

end Machine

/-- **Calls and returns are bracketed.**  A step of a running machine at a call of a
known routine opens the call, whatever continues the run closes it as it was opened,
and a run ends only where all calls are closed. -/
theorem brackets_of_call :
    (∀ (m : Machine) (image : Image) (i : Instruction) (callee : String) (strategy : Strategy),
        m.image = some image → m.phase = .running → m.current? = some i →
        i.operation = .call callee → image.contains callee = true →
        m.Brackets callee (m.step strategy))
      ∧ ∀ (m : Machine) (r : Request), (m.handle r).reply = .finished →
          m.callers = [] ∧ (m.handle r).machine.callers = [] := by
  refine ⟨?_, fun _ _ => Machine.callers_of_finished⟩
  intro m image i callee strategy himage hphase hi hop hknown
  have hcursor : image.operation? m.cursor = some (.call callee) := by
    rw [Machine.operation?_cursor himage, hi, Option.map_some, hop]
  have hstep : m.step strategy = m.enter image callee := by
    rw [m.step_eq_stepInto, Machine.stepInto_of_operation? himage hphase hcursor,
      Machine.execute_call]
  rw [hstep, Machine.enter, if_pos hknown]
  exact Machine.brackets_of_opened rfl rfl rfl himage

/-- `doublingProgram`, started. -/
def doublingMachine : Machine where
  image := some doublingImage
  phase := .running

/-- The call of `doublingProgram` returns after a question and a failed attempt to
answer it twice. -/
def doublingRun : List Request :=
  [.step .into, .step .into, .provide 3, .provide 4, .step .over, .step .over, .step .into]

/-- A run of `doublingProgram` from its start to its end, with a question that is
looked at again before it is answered. -/
def doublingRunToEnd : List Request :=
  .step .over :: (doublingRun ++ [.step .into])

theorem brackets_of_call_doublingMachine :
    doublingMachine.Brackets "twice" (doublingMachine.step .over)
      ∧ ((doublingMachine.step .over).machine.after doublingRun).callers = doublingMachine.callers
      ∧ ((doublingMachine.step .over).machine.after doublingRun).cursor = ⟨"main", 1⟩
      ∧ (((doublingMachine.step .over).machine.after doublingRun).handle (.step .into)).reply
        = .finished
      ∧ ((doublingMachine.step .over).machine.after doublingRun).callers = [] := by
  have hbrackets : doublingMachine.Brackets "twice" (doublingMachine.step .over) :=
    brackets_of_call.1 doublingMachine doublingImage ⟨1, 1, 0, .call "twice"⟩ "twice" .over
      rfl rfl rfl rfl (by decide +kernel)
  have hfinished : (((doublingMachine.step .over).machine.after doublingRun).handle
      (.step .into)).reply = .finished := by decide +kernel
  obtain ⟨hcallers, hcursor⟩ := hbrackets.back doublingRun (by decide) (by decide +kernel)
    (by decide +kernel)
  exact ⟨hbrackets, hcallers, hcursor, hfinished, (brackets_of_call.2 _ _ hfinished).1⟩

end StackCalc
