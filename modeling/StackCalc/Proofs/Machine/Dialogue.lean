/-
  StackCalc.Proofs.Machine.Dialogue
  ─────────────────────────────────
  **EVERY QUESTION GETS ONE ANSWER.**

  Between a machine and its client there is a dialogue: an `INPUT` that is carried out
  asks a question, and a value that is taken answers it.  Since a program was started or
  loaded last

      questions = answers + (1 if the machine waits, else 0),

  each answer goes on top of the stack as it was when its question was asked, before
  anything else is carried out, and a listener hears every question once.  Whether there
  is a listener makes no other difference.  Loading a program drops a question that is
  open (`unbalanced_across_load`).

  An exchange asks, answers, or does neither (`Exchange.Dialogue`), and everything here is
  an induction over the exchanges of a run (`Machine.thisRun_induction`).
-/
import StackCalc.Proofs.Machine.Lifecycle
import StackCalc.Proofs.Machine.NormalForm

namespace StackCalc

/-! ## §1. Questions and answers. -/

namespace Exchange

/-- The response to the request. -/
def response (e : Exchange) : Response :=
  e.before.handle e.request

/-- The prompt of the `INPUT` that was carried out. -/
def asked? (e : Exchange) : Option String :=
  match e.before.carriedOut? e.request with
  | some (.input prompt) => some prompt
  | _ => none

/-- The value that was taken. -/
def accepted? (e : Exchange) : Option Float :=
  match e.request with
  | .provide value => if e.response.reply = .done then some value else none
  | _ => none

/-- What an exchange adds to the dialogue. -/
inductive Dialogue (e : Exchange) : Prop
  /-- Nothing is asked or answered; a machine that waits goes on to wait. -/
  | quiet (hasked : e.asked? = none) (haccepted : e.accepted? = none)
      (hannounced : e.response.announced = [])
      (hwaiting : e.response.machine.isWaiting = e.before.isWaiting)
      (heffect : e.before.isWaiting = true → e.effect? = none)
  /-- A question is asked. -/
  | asks (prompt : String) (hasked : e.asked? = some prompt) (haccepted : e.accepted? = none)
      (hbefore : e.before.isWaiting = false) (hresponse : e.response = e.before.ask prompt)
  /-- A question is answered. -/
  | answers (value : Float) (hasked : e.asked? = none) (haccepted : e.accepted? = some value)
      (hbefore : e.before.isWaiting = true)
      (hresponse : e.response
        = Machine.done { e.before with phase := .running, stack := value :: e.before.stack })

variable {m : Machine} {r : Request}

theorem asked?_of_carriedOut?_eq_none (h : m.carriedOut? r = none) : asked? ⟨m, r⟩ = none := by
  simp only [asked?, h]

/-- A request that leaves the machine as it is adds nothing. -/
theorem dialogue_of_machine_eq (hmachine : (m.handle r).machine = m)
    (hannounced : (m.handle r).announced = []) (hcarried : m.carriedOut? r = none)
    (haccepted : accepted? ⟨m, r⟩ = none) (heffect : m.isWaiting = true → effect? ⟨m, r⟩ = none) :
    Dialogue ⟨m, r⟩ := by
  refine .quiet (asked?_of_carriedOut?_eq_none hcarried) haccepted hannounced ?_ heffect
  exact congrArg Machine.isWaiting hmachine

theorem dialogue_provide (m : Machine) (value : Float) : Dialogue ⟨m, .provide value⟩ := by
  rcases m.provide_cases value with ⟨⟨prompt, hphase⟩, hdone⟩ | hfail
  · refine .answers value rfl ?_ ?_ hdone
    · have hreply : (m.provide value).reply = .done := congrArg Response.reply hdone
      exact if_pos hreply
    · exact Machine.isWaiting_of_waiting hphase
  · have hreply : (m.provide value).reply ≠ .done := by
      rw [hfail]
      exact Reply.noConfusion
    refine dialogue_of_machine_eq ?_ ?_ rfl (if_neg hreply) fun _ => if_neg hreply
    · exact congrArg Response.machine hfail
    · exact congrArg Response.announced hfail

end Exchange

/-- A move asks a question if it carries out an `INPUT`, and else it is silent. -/
theorem Machine.Moves.ask_cases {m : Machine} {image : Image} {r : Response}
    (h : m.Moves image r) :
    (∃ prompt, image.operation? m.cursor = some (.input prompt) ∧ r = m.ask prompt)
      ∨ (∀ prompt, image.operation? m.cursor ≠ some (.input prompt)) ∧ r.announced = []
        ∧ (r.machine.phase = m.phase ∨ r.machine.phase = .finished) := by
  cases h with
  | ask hop => exact .inl ⟨_, hop, rfl⟩
  | next hop hinput _ _ _ =>
    refine .inr ⟨fun prompt h => hinput prompt ?_, rfl, .inl rfl⟩
    exact Option.some.inj (hop.symm.trans h)
  | jump hop _ => exact .inr ⟨by simp [hop], rfl, .inl rfl⟩
  | enter hop _ => exact .inr ⟨by simp [hop], rfl, .inl rfl⟩
  | leave hend _ => exact .inr ⟨by simp [hend], rfl, .inl rfl⟩
  | finish hend _ => exact .inr ⟨by simp [hend], rfl, .inr rfl⟩

namespace Exchange

variable {m : Machine} {r : Request}

theorem dialogue_of_movedBy {image : Image} {strategy : Strategy}
    (h : m.MovedBy image (.step strategy)) : Dialogue ⟨m, .step strategy⟩ := by
  have hbefore : m.isWaiting = false := Machine.isWaiting_of_running h.running
  rcases h.moves.ask_cases with ⟨prompt, hop, hresponse⟩ | ⟨hop, hannounced, hphase⟩
  · refine .asks prompt ?_ rfl hbefore hresponse
    simp only [asked?, h.carriedOut, hop]
  · refine .quiet ?_ rfl hannounced ?_ ?_
    · unfold asked?
      rw [h.carriedOut]
      split
      · next prompt hprompt => exact absurd hprompt (hop prompt)
      · rfl
    · -- the machine goes on running, or it has finished
      show (m.handle (.step strategy)).machine.isWaiting = m.isWaiting
      rw [hbefore]
      rcases hphase with hphase | hphase
      · exact Machine.isWaiting_of_running (hphase.trans h.running)
      · simp [Machine.isWaiting, Machine.pending?, hphase]
    · intro hwaiting
      exact absurd hwaiting (by simp [hbefore])

theorem dialogue_step (m : Machine) (strategy : Strategy) : Dialogue ⟨m, .step strategy⟩ := by
  by_cases hphase : m.phase = .running
  · rcases Machine.step_fails_or_moves hphase strategy with ⟨fault, hfail⟩ | ⟨image, hmoved⟩
    · have hreply : (m.handle (.step strategy)).reply ≠ .stepped := by
        rw [hfail]
        exact Reply.noConfusion
      refine dialogue_of_machine_eq ?_ ?_ (Machine.carriedOut?_of_ne_stepped hreply) rfl ?_
      · exact congrArg Response.machine hfail
      · exact congrArg Response.announced hfail
      · intro hwaiting
        rw [Machine.isWaiting_of_running hphase] at hwaiting
        cases hwaiting
    · exact dialogue_of_movedBy hmoved
  · have hstep := m.handle_step strategy
    refine dialogue_of_machine_eq ?_ ?_ (Machine.carriedOut?_of_ne_running hphase) rfl fun _ => ?_
    · rw [hstep]
      exact Machine.machine_stepInto_of_ne_running hphase
    · rw [hstep]
      unfold Machine.stepInto Machine.stepWith
      cases h : m.phase with
      | running => exact absurd h hphase
      | ready | waiting | finished => rfl
    · refine if_neg fun heffective => hphase ?_
      exact Machine.phase_of_isEffective heffective

/-- **Every exchange that goes on with a run asks, answers, or does neither.** -/
theorem dialogue {e : Exchange} (hload : e.loaded? = none) (hstart : e.starts = false) :
    e.Dialogue := by
  obtain ⟨m, r⟩ := e
  cases r with
  | load program => cases hload
  | start =>
    rcases m.start_cases with ⟨-, hdone⟩ | ⟨fault, hfail⟩
    · have hreply : m.start.reply = .done := congrArg Response.reply hdone
      exact absurd hreply (of_decide_eq_false hstart)
    · refine dialogue_of_machine_eq ?_ ?_ rfl rfl fun _ => rfl
      · exact congrArg Response.machine hfail
      · exact congrArg Response.announced hfail
  | step strategy => exact dialogue_step m strategy
  | provide value => exact dialogue_provide m value
  | listen on => exact .quiet rfl rfl rfl rfl fun _ => rfl

end Exchange

/-! ## §2. The run that is going on. -/

namespace Exchange

/-- The exchanges since a program was started or loaded last. -/
def thisRun (es : List Exchange) : List Exchange :=
  sinceStart (sinceLoad es)

variable {es : List Exchange} {e : Exchange}

theorem thisRun_suffix (es : List Exchange) : thisRun es <:+ es :=
  (List.rtakeWhile_suffix _ _).trans (List.rtakeWhile_suffix _ es)

theorem thisRun_concat_load {program : Program} (h : e.loaded? = some program) :
    thisRun (es ++ [e]) = [] := by
  unfold thisRun
  rw [sinceLoad_concat_load h]
  rfl

theorem thisRun_concat_start (hload : e.loaded? = none) (hstart : e.starts = true) :
    thisRun (es ++ [e]) = [] := by
  unfold thisRun
  rw [sinceLoad_concat hload, sinceStart_concat_start hstart]

theorem thisRun_concat (hload : e.loaded? = none) (hstart : e.starts = false) :
    thisRun (es ++ [e]) = thisRun es ++ [e] := by
  unfold thisRun
  rw [sinceLoad_concat hload, sinceStart_concat hstart]

end Exchange

/-- What holds of every machine that is ready or just started, and is kept by every exchange
that goes on with the run, holds of the run that is going on. -/
theorem Machine.thisRun_induction {P : List Exchange → Machine → Prop}
    (hready : ∀ m : Machine, m.phase = .ready → P [] m)
    (hstart : ∀ m : Machine, P [] (m.rewound .running))
    (hmore : ∀ (run : List Exchange) (e : Exchange), e.loaded? = none → e.starts = false →
      P run e.before → P (run ++ [e]) e.response.machine)
    (history : List Request) :
    P (Exchange.thisRun (exchanges {} history)) (after {} history) := by
  induction history using List.reverseRecOn with
  | nil => exact hready {} rfl
  | append_singleton history r ih =>
    rw [exchanges_concat, after_append]
    show P _ ((after {} history).handle r).machine
    generalize after {} history = m at ih ⊢
    have hother : ∀ e : Exchange, e.before = m → e.loaded? = none → e.starts = false →
        P (Exchange.thisRun (exchanges {} history ++ [e])) e.response.machine := by
      rintro e rfl hload hstarts
      rw [Exchange.thisRun_concat hload hstarts]
      exact hmore _ e hload hstarts ih
    cases r with
    | load program =>
      rw [Exchange.thisRun_concat_load rfl]
      exact hready _ rfl
    | start =>
      by_cases hstarts : Exchange.starts ⟨m, .start⟩ = true
      · have hdone : m.start = done (m.rewound .running) :=
          (start_of_done (of_decide_eq_true hstarts)).2
        show P _ m.start.machine
        rw [Exchange.thisRun_concat_start rfl hstarts, hdone]
        exact hstart m
      · exact hother ⟨m, .start⟩ rfl rfl (Bool.eq_false_iff.2 hstarts)
    | step | provide | listen => exact hother ⟨m, _⟩ rfl rfl rfl

/-! ## §3. Counting, delivering, announcing. -/

namespace Exchange

/-- As many questions were asked as were answered, and one more if the machine waits. -/
def Balanced (run : List Exchange) (m : Machine) : Prop :=
  (run.filterMap asked?).length
    = (run.filterMap accepted?).length + if m.isWaiting then 1 else 0

theorem balanced_concat {run : List Exchange} {e : Exchange} (h : e.Dialogue)
    (hrun : Balanced run e.before) : Balanced (run ++ [e]) e.response.machine := by
  unfold Balanced at hrun ⊢
  rw [List.filterMap_append, List.filterMap_append, List.length_append, List.length_append, hrun]
  cases h with
  | quiet hasked haccepted _ hwaiting _ => simp [hasked, haccepted, hwaiting]
  | asks prompt hasked haccepted hbefore hresponse =>
    have hafter : e.response.machine.isWaiting = true := by
      rw [hresponse]
      rfl
    simp [hasked, haccepted, hbefore, hafter]
  | answers value hasked haccepted hbefore hresponse =>
    have hafter : e.response.machine.isWaiting = false := by
      rw [hresponse]
      rfl
    simp [hasked, haccepted, hbefore, hafter]

/-- The last exchange of the run to take effect has asked this question, and since then the
machine has stayed as it was. -/
structure Open (run : List Exchange) (m : Machine) (ask : Exchange) (prompt : String) :
    Prop where
  split : ∃ before polls, run = before ++ ask :: polls ∧ ∀ e ∈ polls, e.effect? = none
  asked : ask.asked? = some prompt
  machine : m.mute = (ask.before.ask prompt).machine.mute

theorem open_concat {run : List Exchange} {e : Exchange} (hload : e.loaded? = none)
    (hstart : e.starts = false)
    (hrun : e.before.isWaiting = true → ∃ ask prompt, Open run e.before ask prompt)
    (hwaiting : e.response.machine.isWaiting = true) :
    ∃ ask prompt, Open (run ++ [e]) e.response.machine ask prompt := by
  cases dialogue hload hstart with
  | quiet _ _ _ hsame heffect =>
    rw [hsame] at hwaiting
    obtain ⟨ask, prompt, ⟨before, polls, rfl, hpolls⟩, hasked, hmachine⟩ := hrun hwaiting
    have hnone := heffect hwaiting
    refine ⟨ask, prompt, ⟨before, polls ++ [e], by simp, ?_⟩, hasked, ?_⟩
    · intro e' he'
      rcases List.mem_append.1 he' with he' | he'
      · exact hpolls e' he'
      · rw [List.mem_singleton.1 he']
        exact hnone
    · exact (Machine.mute_handle_of_effect?_eq_none hload hstart hnone).trans hmachine
  | asks prompt hasked _ _ hresponse =>
    refine ⟨e, prompt, ⟨run, [], rfl, by simp⟩, hasked, ?_⟩
    rw [hresponse]
  | answers _ _ _ _ hresponse =>
    rw [hresponse] at hwaiting
    cases hwaiting

theorem Dialogue.announced_eq {e : Exchange} (h : e.Dialogue)
    (hlistening : e.before.listening = true) : e.response.announced = e.asked?.toList := by
  cases h with
  | quiet hasked _ hannounced _ _ => rw [hasked, hannounced, Option.toList_none]
  | asks prompt hasked _ _ hresponse =>
    rw [hasked, hresponse, Machine.ask, if_pos hlistening, Option.toList_some]
  | answers _ hasked _ _ hresponse =>
    rw [hasked, hresponse, Option.toList_none]
    rfl

/-- With a listener an exchange announces what it asks.  Loading and starting a program do
neither. -/
theorem announced_eq {e : Exchange} (hlistening : e.before.listening = true) :
    e.response.announced = e.asked?.toList := by
  cases hload : e.loaded? with
  | some program =>
    obtain ⟨m, r⟩ := e
    cases r with
    | load program => rfl
    | start | step | provide | listen => cases hload
  | none =>
    by_cases hstart : e.starts = true
    · obtain ⟨m, r⟩ := e
      cases r with
      | start =>
        have hdone := (Machine.start_of_done (of_decide_eq_true hstart)).2
        exact congrArg Response.announced hdone
      | load | step | provide | listen => cases hstart
    · exact (dialogue hload (Bool.eq_false_iff.2 hstart)).announced_eq hlistening

end Exchange

/-! ## §4. Listeners. -/

namespace Machine

/-- Without a listener a request is answered in the same way. -/
theorem handle_mute (m : Machine) (r : Request) : (m.mute.handle r).mute = (m.handle r).mute := by
  cases r with
  | load program => rfl
  | start =>
    show m.mute.start.mute = m.start.mute
    rw [start_mute]
    rfl
  | step strategy =>
    rw [handle_step, handle_step, stepInto_mute]
    rfl
  | provide value =>
    show (m.mute.provide value).mute = (m.provide value).mute
    rw [provide_mute]
    rfl
  | listen on => rfl

/-- Machines that differ in their listener at most answer all requests in the same way. -/
theorem responses_of_mute_eq {m n : Machine} (h : n.mute = m.mute) (history : List Request) :
    (n.responses history).map Response.mute = (m.responses history).map Response.mute := by
  induction history generalizing m n with
  | nil => rfl
  | cons r history ih =>
    have hfirst : (n.handle r).mute = (m.handle r).mute := by
      rw [← n.handle_mute, ← m.handle_mute, h]
    have hnext : (n.handle r).machine.mute = (m.handle r).machine.mute :=
      congrArg Response.machine hfirst
    show (n.handle r).mute :: ((n.handle r).machine.responses history).map Response.mute
      = (m.handle r).mute :: ((m.handle r).machine.responses history).map Response.mute
    rw [hfirst, ih hnext]

end Machine

/-! ## §5. The dialogue of a run. -/

namespace Machine

theorem balanced_thisRun (history : List Request) :
    Exchange.Balanced (Exchange.thisRun (exchanges {} history)) (after {} history) := by
  refine thisRun_induction ?_ ?_ ?_ history
  · intro m hphase
    simp [Exchange.Balanced, isWaiting, pending?, hphase]
  · intro m
    rfl
  · intro run e hload hstart hrun
    exact Exchange.balanced_concat (Exchange.dialogue hload hstart) hrun

/-- A machine that waits has an open question in the run that is going on. -/
theorem open_thisRun (history : List Request) (h : (after {} history).isWaiting = true) :
    ∃ ask prompt,
      Exchange.Open (Exchange.thisRun (exchanges {} history)) (after {} history) ask prompt := by
  refine thisRun_induction
    (P := fun run m => m.isWaiting = true → ∃ ask prompt, Exchange.Open run m ask prompt)
    ?_ ?_ ?_ history h
  · intro m hphase hwaiting
    simp [isWaiting, pending?, hphase] at hwaiting
  · intro m hwaiting
    cases hwaiting
  · intro run e hload hstart hrun hwaiting
    exact Exchange.open_concat hload hstart hrun hwaiting

/-- A listener that is there all the time hears what is asked, in its order. -/
theorem flatMap_announced {es : List Exchange} (h : ∀ e ∈ es, e.before.listening = true) :
    es.flatMap (fun e => e.response.announced) = es.filterMap Exchange.asked? := by
  rw [List.filterMap_eq_flatMap_toList]
  refine List.flatMap_congr ?_
  intro e he
  exact Exchange.announced_eq (h e he)

/-- A value that is taken goes on top of the stack as it was at the question. -/
theorem provide_of_open {m : Machine} {run : List Exchange} {ask : Exchange} {prompt : String}
    (h : Exchange.Open run m ask prompt) {value : Float} (hreply : (m.provide value).reply = .done) :
    (m.provide value).machine = { ask.before with
      phase := .running, cursor := ask.before.cursor.next,
      stack := value :: ask.before.stack, listening := m.listening } := by
  have hmachine := h.machine
  rcases m.provide_cases value with ⟨-, hdone⟩ | hfail
  · have hfields : Machine.mk m.image m.phase m.stack m.frames m.cursor false
        = Machine.mk ask.before.image (.waiting prompt) ask.before.stack ask.before.frames
            ask.before.cursor.next false := hmachine
    injection hfields with himage _ hstack hframes hcursor
    rw [hdone]
    show Machine.mk m.image .running (value :: m.stack) m.frames m.cursor m.listening = _
    rw [himage, hstack, hframes, hcursor]
  · rw [hfail] at hreply
    cases hreply

end Machine

/-- **Every question gets one answer.**  Since a program was started or loaded last, as many
questions were asked as were answered, and one more if the machine waits; a value that is taken
is on top of the stack as it was at the last question, with nothing carried out in between; a
listener that was there since any moment has heard every question since then once; and whether
there is one makes no other difference to whatever is asked of the machine. -/
theorem every_question_answered_once (history : List Request) :
    let m := Machine.after {} history
    let es := Machine.exchanges {} history
    let run := Exchange.thisRun es
    (run.filterMap Exchange.asked?).length
        = (run.filterMap Exchange.accepted?).length + (if m.isWaiting then 1 else 0)
      ∧ (∀ value, (m.provide value).reply = .done →
          ∃ before ask polls prompt, run = before ++ ask :: polls
            ∧ Exchange.asked? ask = some prompt ∧ (∀ e ∈ polls, Exchange.effect? e = none)
            ∧ (m.provide value).machine = { ask.before with
                phase := .running, cursor := ask.before.cursor.next,
                stack := value :: ask.before.stack, listening := m.listening })
      ∧ (∀ since, since <:+ es → (∀ e ∈ since, e.before.listening = true) →
          since.flatMap (fun e => e.response.announced) = since.filterMap Exchange.asked?)
      ∧ ∀ on later, ((m.listen on).machine.responses later).map Response.mute
          = (m.responses later).map Response.mute := by
  intro m es run
  refine ⟨Machine.balanced_thisRun history, ?_, ?_, ?_⟩
  · intro value hreply
    have hwaiting : m.isWaiting = true := by
      rcases m.provide_cases value with ⟨⟨prompt, hphase⟩, -⟩ | hfail
      · exact Machine.isWaiting_of_waiting hphase
      · rw [hfail] at hreply
        cases hreply
    obtain ⟨ask, prompt, hopen⟩ := Machine.open_thisRun history hwaiting
    obtain ⟨before, polls, hsplit, hpolls⟩ := hopen.split
    exact ⟨before, ask, polls, prompt, hsplit, hopen.asked, hpolls,
      Machine.provide_of_open hopen hreply⟩
  · intro since _ hlistening
    exact Machine.flatMap_announced hlistening
  · intro on later
    have hsame : (m.listen on).machine.mute = m.mute := rfl
    exact Machine.responses_of_mute_eq hsame later

/-- `doublingProgram` up to its question, with a listener and a step that only waits. -/
def doublingQuestion : List Request :=
  [.load doublingProgram, .listen true, .start, .step .into, .step .over, .step .into]

/-- Its exchanges, with the image written out. -/
theorem exchanges_doublingQuestion :
    Machine.exchanges {} doublingQuestion
      = ⟨{}, .load doublingProgram⟩
        :: Machine.exchanges { image := some doublingImage } doublingQuestion.tail := by
  rw [← ofProgram_doublingProgram]
  rfl

theorem every_question_answered_once_doublingQuestion :
    let m := Machine.after {} doublingQuestion
    let run := Exchange.thisRun (Machine.exchanges {} doublingQuestion)
    run.filterMap Exchange.asked? = ["x?"] ∧ (run.filterMap Exchange.accepted?).length = 0
      ∧ m.isWaiting = true ∧ (m.provide 3).reply = .done
      ∧ (∃ before ask polls prompt, run = before ++ ask :: polls
          ∧ Exchange.asked? ask = some prompt ∧ (∀ e ∈ polls, Exchange.effect? e = none)
          ∧ (m.provide 3).machine.stack = 3 :: ask.before.stack)
      ∧ (∀ e ∈ run, e.before.listening = true)
      ∧ run.flatMap (fun e => e.response.announced) = ["x?"] := by
  intro m run
  have hloaded : m = Machine.after { image := some doublingImage } doublingQuestion.tail :=
    after_load_doublingProgram _
  have hasked : run.filterMap Exchange.asked? = ["x?"] := by
    rw [show run = Exchange.thisRun _ from congrArg Exchange.thisRun exchanges_doublingQuestion]
    decide +kernel
  have hlistening : ∀ e ∈ run, e.before.listening = true := by
    rw [show run = Exchange.thisRun _ from congrArg Exchange.thisRun exchanges_doublingQuestion]
    decide +kernel
  have hwaiting : m.isWaiting = true := by
    rw [hloaded]
    decide +kernel
  have hreply : (m.provide 3).reply = .done := by
    rw [hloaded]
    decide +kernel
  obtain ⟨hcount, hvalue, hheard, -⟩ := every_question_answered_once doublingQuestion
  obtain ⟨before, ask, polls, prompt, hsplit, hprompt, hpolls, hmachine⟩ := hvalue 3 hreply
  refine ⟨hasked, ?_, hwaiting, hreply, ⟨before, ask, polls, prompt, hsplit, hprompt, hpolls, ?_⟩,
    hlistening, ?_⟩
  · rw [show List.filterMap _ _ = _ from hasked, if_pos hwaiting] at hcount
    exact (Nat.succ.inj hcount).symm
  · exact congrArg Machine.stack hmachine
  · exact (hheard run (Exchange.thisRun_suffix _) hlistening).trans hasked

/-- `doublingProgram` up to its question, and loaded once more. -/
def doublingReload : List Request :=
  [.load doublingProgram, .start, .step .into, .step .into, .load doublingProgram]

/-- Loading a program drops an open question: since the last start, which was before the
load, one question was asked and none was answered, but the machine does not wait. -/
theorem unbalanced_across_load :
    let m := Machine.after {} doublingReload
    let run := Exchange.sinceStart (Machine.exchanges {} doublingReload)
    (run.filterMap Exchange.asked?).length = 1
      ∧ (run.filterMap Exchange.accepted?).length = 0 ∧ m.isWaiting = false
      ∧ (run.filterMap Exchange.asked?).length
        ≠ (run.filterMap Exchange.accepted?).length + (if m.isWaiting then 1 else 0) := by
  intro m run
  have hexchanges : Machine.exchanges {} doublingReload
      = ⟨{}, .load doublingProgram⟩
        :: Machine.exchanges { image := some doublingImage } doublingReload.tail := by
    rw [← ofProgram_doublingProgram]
    rfl
  have hasked : (run.filterMap Exchange.asked?).length = 1 := by
    rw [show run = Exchange.sinceStart _ from congrArg Exchange.sinceStart hexchanges]
    decide +kernel
  have haccepted : (run.filterMap Exchange.accepted?).length = 0 := by
    rw [show run = Exchange.sinceStart _ from congrArg Exchange.sinceStart hexchanges]
    decide +kernel
  have hwaiting : m.isWaiting = false := rfl
  refine ⟨hasked, haccepted, hwaiting, ?_⟩
  rw [hasked, haccepted, hwaiting]
  decide

end StackCalc
