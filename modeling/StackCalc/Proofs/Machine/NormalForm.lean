/-
  StackCalc.Proofs.Machine.NormalForm
  ───────────────────────────────────
  **THE NORMAL FORM OF A HISTORY.**

  Of all that was asked of a machine this much counts:

      load p, start, c₁, …, cₖ

  the last program that was loaded, one start if a start has succeeded since, and then,
  in their order, the requests after the last such start that took effect: the steps
  that a running machine made, and the values that were taken.  A new machine of which
  only this is asked ends in the same state (`after_normalForm`).  Everything else has
  left no trace: what was done before, steps while the machine waits or is not running,
  whatever failed, the way in which a step was asked for, and the listener.
-/
import Mathlib.Data.List.DropRight
import StackCalc.Proofs.Machine.CallChain

namespace StackCalc

/-! ## §1. The listener. -/

/-- The machine without its listener. -/
def Machine.mute (m : Machine) : Machine :=
  { m with listening := false }

/-- The response without the listener and what was announced to it. -/
def Response.mute (r : Response) : Response where
  machine := r.machine.mute
  reply := r.reply

namespace Machine

variable {m : Machine}

theorem leave_mute (m : Machine) : m.mute.leave = m.leave.mute := by
  have hframes : m.mute.frames = m.frames := rfl
  unfold leave
  rw [hframes]
  cases m.frames <;> rfl

theorem jump_mute (m : Machine) (image : Image) (name : String) :
    m.mute.jump image name = (m.jump image name).mute := by
  unfold jump
  cases image.label? name <;> rfl

theorem enter_mute (m : Machine) (image : Image) (name : String) :
    m.mute.enter image name = (m.enter image name).mute := by
  unfold enter
  by_cases hname : image.contains name = true
  · rw [if_pos hname, if_pos hname]
    rfl
  · rw [if_neg hname, if_neg hname]
    rfl

theorem execute_mute (m : Machine) (image : Image) (op : Operation) :
    m.mute.execute image op = (m.execute image op).mute := by
  have hstack : m.mute.stack = m.stack := rfl
  unfold execute
  rw [hstack]
  cases op.effect? m.stack with
  | none => rfl
  | some stack =>
    by_cases hzero : op.dividesByZero m.stack = true
    · simp only [if_pos hzero]
      rfl
    · simp only [if_neg hzero]
      cases op with
      | goto name => exact m.jump_mute image name
      | call name => exact m.enter_mute image name
      | _ => rfl

theorem stepInto_mute (m : Machine) : m.mute.stepInto = m.stepInto.mute := by
  by_cases hphase : m.phase = .running
  · have hphase' : m.mute.phase = .running := hphase
    have himage : m.mute.image = m.image := rfl
    have hbody : m.mute.body? = m.body? := rfl
    have hcurrent : m.mute.current? = m.current? := rfl
    rw [stepInto_of_running hphase, stepInto_of_running hphase', himage, hbody, hcurrent]
    cases m.image with
    | none => rfl
    | some image =>
      cases m.body? with
      | none => rfl
      | some body =>
        cases m.current? with
        | none => exact m.leave_mute
        | some i => exact m.execute_mute image i.operation
  · have hsame : m.mute.phase = m.phase := rfl
    unfold stepInto stepWith
    rw [hsame]
    cases h : m.phase with
    | running => exact absurd h hphase
    | _ => rfl

theorem start_mute (m : Machine) : m.mute.start = m.start.mute := by
  have himage : m.mute.image = m.image := rfl
  unfold start
  rw [himage]
  cases m.image with
  | none => rfl
  | some image =>
    by_cases hempty : image.isEmpty = true
    · simp only [if_pos hempty]
      rfl
    · by_cases hentry : image.contains entryName = true
      · simp only [if_neg hempty, if_pos hentry]
        rfl
      · simp only [if_neg hempty, if_neg hentry]
        rfl

theorem provide_mute (m : Machine) (value : Float) :
    m.mute.provide value = (m.provide value).mute := by
  have hphase : m.mute.phase = m.phase := rfl
  unfold provide
  rw [hphase]
  cases m.phase <;> rfl

end Machine

/-! ## §2. Exchanges. -/

/-- A request, with the machine of which it was asked. -/
structure Exchange where
  before : Machine
  request : Request

namespace Exchange

/-- The program that was loaded. -/
def loaded? (e : Exchange) : Option Program :=
  match e.request with
  | .load program => some program
  | _ => none

/-- Whether a run was started. -/
def starts (e : Exchange) : Bool :=
  match e.request with
  | .start => (e.before.handle e.request).reply = .done
  | _ => false

/-- The request, if it took effect in a run: a step that a running machine made, whose
strategy does not matter, or a value that was taken. -/
def effect? (e : Exchange) : Option Request :=
  match e.request with
  | .step strategy => if e.before.isEffective (.step strategy) then some (.step .into) else none
  | .provide value =>
    if (e.before.provide value).reply = .done then some (.provide value) else none
  | _ => none

end Exchange

/-- The exchanges of a history. -/
def Machine.exchanges (m : Machine) : List Request → List Exchange
  | [] => []
  | r :: history => ⟨m, r⟩ :: (m.handle r).machine.exchanges history

theorem Machine.exchanges_concat (m : Machine) (history : List Request) (r : Request) :
    m.exchanges (history ++ [r]) = m.exchanges history ++ [⟨m.after history, r⟩] := by
  induction history generalizing m with
  | nil => rfl
  | cons r' history ih =>
    rw [List.cons_append, exchanges, exchanges, ih]
    rfl

/-! ## §3. The normal form. -/

namespace Exchange

/-- The last program that was loaded. -/
def lastLoaded? (es : List Exchange) : Option Program :=
  (es.filterMap loaded?).getLast?

/-- The exchanges after the last program was loaded. -/
def sinceLoad (es : List Exchange) : List Exchange :=
  es.rtakeWhile fun e => e.loaded?.isNone

/-- The exchanges after the last start that succeeded. -/
def sinceStart (es : List Exchange) : List Exchange :=
  es.rtakeWhile fun e => !e.starts

/-- What of the exchanges counts. -/
def essence (es : List Exchange) : List Request :=
  match lastLoaded? es with
  | none => []
  | some program =>
    .load program ::
      if (sinceLoad es).any starts then .start :: (sinceStart (sinceLoad es)).filterMap effect?
      else []

variable {es : List Exchange} {e : Exchange} {program : Program}

theorem lastLoaded?_concat (es : List Exchange) (e : Exchange) :
    lastLoaded? (es ++ [e]) = e.loaded?.or (lastLoaded? es) := by
  unfold lastLoaded?
  rw [List.filterMap_append, List.getLast?_append]
  cases h : e.loaded? <;> simp [h]

theorem sinceLoad_concat_load (h : e.loaded? = some program) : sinceLoad (es ++ [e]) = [] :=
  List.rtakeWhile_concat_neg _ _ _ (by simp [h])

/-- A program that is loaded makes all before it irrelevant. -/
theorem essence_concat_load (h : e.loaded? = some program) :
    essence (es ++ [e]) = [.load program] := by
  unfold essence
  rw [lastLoaded?_concat, h, sinceLoad_concat_load h]
  rfl

theorem sinceLoad_concat (h : e.loaded? = none) : sinceLoad (es ++ [e]) = sinceLoad es ++ [e] :=
  List.rtakeWhile_concat_pos _ _ _ (by simp [h])

theorem sinceStart_concat_start (h : e.starts = true) : sinceStart (es ++ [e]) = [] :=
  List.rtakeWhile_concat_neg _ _ _ (by simp [h])

theorem sinceStart_concat (h : e.starts = false) : sinceStart (es ++ [e]) = sinceStart es ++ [e] :=
  List.rtakeWhile_concat_pos _ _ _ (by simp [h])

theorem any_starts_concat (h : e.starts = false) : (es ++ [e]).any starts = es.any starts := by
  rw [List.any_append, List.any_cons, List.any_nil, h, Bool.or_false, Bool.or_false]

/-- A start makes all that happened since the load irrelevant. -/
theorem essence_concat_start (hload : e.loaded? = none) (hlast : lastLoaded? es = some program)
    (h : e.starts = true) : essence (es ++ [e]) = [.load program, .start] := by
  unfold essence
  rw [lastLoaded?_concat, hload, Option.none_or, hlast, sinceLoad_concat hload]
  simp [h, sinceStart_concat_start]

/-- Any other exchange adds what took effect in it to a run. -/
theorem essence_concat (hload : e.loaded? = none) (hstart : e.starts = false)
    (h : e.effect? = none ∨ ∃ program, lastLoaded? es = some program
      ∧ (sinceLoad es).any starts = true) :
    essence (es ++ [e]) = essence es ++ e.effect?.toList := by
  have heffect : (sinceStart (sinceLoad es) ++ [e]).filterMap effect?
      = (sinceStart (sinceLoad es)).filterMap effect? ++ e.effect?.toList := by
    rw [List.filterMap_append]
    cases h : e.effect? <;> simp [h]
  unfold essence
  rw [lastLoaded?_concat, hload, Option.none_or, sinceLoad_concat hload,
    any_starts_concat hstart, sinceStart_concat hstart, heffect]
  rcases h with hnone | ⟨program, hlast, hstarted⟩
  · rw [hnone, Option.toList_none, List.append_nil, List.append_nil]
  · rw [hlast]
    simp only [hstarted, if_true]
    rfl

theorem continues_of_effect? {r : Request} (h : e.effect? = some r) : r.continues = true := by
  unfold effect? at h
  split at h
  · split at h
    · cases h
      rfl
    · cases h
  · split at h
    · cases h
      rfl
    · cases h
  · cases h

/-- What counts begins with the last load, so this is the program in the machine. -/
theorem image_after_essence (h : lastLoaded? es = some program) :
    (Machine.after {} (essence es)).image = some (Image.ofProgram program) := by
  unfold essence
  rw [h]
  by_cases hstarted : (sinceLoad es).any starts = true
  · simp only [if_pos hstarted]
    have hrun : ∀ r ∈ (sinceStart (sinceLoad es)).filterMap effect?, r.continues = true := by
      intro r hr
      obtain ⟨e, -, he⟩ := List.mem_filterMap.1 hr
      exact continues_of_effect? he
    refine (Machine.image_after hrun).trans ?_
    show (Machine.start (Machine.load {} program).machine).machine.image = _
    rcases (Machine.load {} program).machine.start_cases with ⟨-, hdone⟩ | ⟨fault, hfail⟩
    · rw [hdone]
      rfl
    · rw [hfail]
      rfl
  · simp only [if_neg hstarted]
    rfl

/-- What counts leads to a machine that was started only if it has a start. -/
theorem exists_of_phase_ne_ready (h : (Machine.after {} (essence es)).phase ≠ .ready) :
    ∃ program, lastLoaded? es = some program ∧ (sinceLoad es).any starts = true := by
  unfold essence at h
  cases hlast : lastLoaded? es with
  | none =>
    rw [hlast] at h
    exact absurd rfl h
  | some program =>
    refine ⟨program, rfl, ?_⟩
    by_contra hstarted
    rw [hlast] at h
    simp only [if_neg hstarted] at h
    exact h rfl

end Exchange

/-! ## §4. What leaves a trace. -/

namespace Machine

variable {m : Machine} {r : Request}

/-- A step that a running machine does not make fails. -/
theorem exists_fault_of_not_isEffective {strategy : Strategy} (hphase : m.phase = .running)
    (h : m.isEffective (.step strategy) = false) :
    ∃ fault, (m.handle (.step strategy)).reply = .failed fault := by
  unfold isEffective at h
  rw [hphase] at h
  cases hreply : (m.handle (.step strategy)).reply with
  | failed fault => exact ⟨fault, rfl⟩
  | _ =>
    rw [hreply] at h
    cases h

theorem phase_of_isEffective {strategy : Strategy} (h : m.isEffective (.step strategy) = true) :
    m.phase = .running := by
  unfold isEffective at h
  cases hphase : m.phase with
  | running => rfl
  | _ =>
    rw [hphase] at h
    cases h

/-- A request that neither loads, nor starts, nor takes effect leaves no trace. -/
theorem mute_handle_of_effect?_eq_none (hload : Exchange.loaded? ⟨m, r⟩ = none)
    (hstart : Exchange.starts ⟨m, r⟩ = false) (heffect : Exchange.effect? ⟨m, r⟩ = none) :
    (m.handle r).machine.mute = m.mute := by
  have hfailed : ∀ fault, (m.handle r).reply = .failed fault →
      (m.handle r).machine.mute = m.mute := by
    intro fault hreply
    rw [handle_of_failed hreply]
    rfl
  cases r with
  | load program => cases hload
  | start =>
    rcases m.start_cases with ⟨-, hdone⟩ | ⟨fault, hfail⟩
    · have hreply : m.start.reply = .done := congrArg Response.reply hdone
      exact absurd hreply (of_decide_eq_false hstart)
    · exact hfailed fault (congrArg Response.reply hfail)
  | step strategy =>
    have hnone : m.isEffective (.step strategy) = false := by
      by_contra h
      rw [Bool.not_eq_false] at h
      simp [Exchange.effect?, h] at heffect
    by_cases hphase : m.phase = .running
    · obtain ⟨fault, hreply⟩ := exists_fault_of_not_isEffective hphase hnone
      exact hfailed fault hreply
    · rw [handle_step, machine_stepInto_of_ne_running hphase]
  | provide value =>
    rcases m.provide_cases value with ⟨-, hdone⟩ | hfail
    · have hreply : (m.provide value).reply = .done := congrArg Response.reply hdone
      simp [Exchange.effect?, hreply] at heffect
    · exact hfailed _ (congrArg Response.reply hfail)
  | listen on => rfl

/-- A request that takes effect does so in a run, and does the same without a
listener. -/
theorem handle_mute_of_effect?_eq_some {r' : Request} (h : Exchange.effect? ⟨m, r⟩ = some r') :
    m.phase ≠ .ready ∧ (m.mute.handle r').machine = (m.handle r).machine.mute := by
  unfold Exchange.effect? at h
  cases r with
  | step strategy =>
    simp only [Option.ite_none_right_eq_some, Option.some.injEq] at h
    obtain ⟨heffective, rfl⟩ := h
    refine ⟨by simp [phase_of_isEffective heffective], ?_⟩
    rw [handle_step, handle_step, stepInto_mute]
    rfl
  | provide value =>
    simp only [Option.ite_none_right_eq_some, Option.some.injEq] at h
    obtain ⟨hreply, rfl⟩ := h
    refine ⟨?_, congrArg Response.machine (m.provide_mute value)⟩
    rcases m.provide_cases value with ⟨⟨prompt, hwaiting⟩, -⟩ | hfail
    · simp [hwaiting]
    · rw [hfail] at hreply
      cases hreply
  | _ => cases h

/-- Whether a start succeeds is a matter of the program. -/
theorem start_eq_of_image_eq {n : Machine} (himage : n.image = m.image)
    (h : m.start.reply = .done) : n.start = done (n.rewound .running) := by
  unfold start at h ⊢
  rw [himage]
  cases himage' : m.image with
  | none =>
    rw [himage'] at h
    cases h
  | some image =>
    rw [himage'] at h
    by_cases hempty : image.isEmpty = true
    · simp only [if_pos hempty] at h
      cases h
    · by_cases hentry : image.contains entryName = true
      · simp only [if_neg hempty, if_pos hentry]
      · simp only [if_neg hempty, if_neg hentry] at h
        cases h

end Machine

/-! ## §5. One more exchange. -/

/-- What counts of the exchanges leads a new machine to the state of `m`, the listener
aside. -/
def Exchange.LeadTo (es : List Exchange) (m : Machine) : Prop :=
  Machine.after {} (essence es) = m.mute

namespace Exchange.LeadTo

variable {es : List Exchange} {m : Machine} {r : Request}

theorem load (program : Program) :
    LeadTo (es ++ [⟨m, .load program⟩]) (m.load program).machine := by
  unfold LeadTo
  rw [essence_concat_load rfl]
  rfl

theorem start (h : LeadTo es m) (hstart : starts ⟨m, .start⟩ = true) :
    LeadTo (es ++ [⟨m, .start⟩]) m.start.machine := by
  unfold LeadTo at h ⊢
  have hdone : m.start.reply = .done := of_decide_eq_true hstart
  obtain ⟨⟨image, himage, -⟩, hrewound⟩ := Machine.start_of_done hdone
  have hkept : (Machine.after {} (essence es)).image = m.image := by
    rw [h]
    rfl
  cases hlast : lastLoaded? es with
  | none =>
    -- without a program there is no start
    rw [essence, hlast, himage] at hkept
    cases hkept
  | some program =>
    rw [image_after_essence hlast] at hkept
    have hstarted :=
      Machine.start_eq_of_image_eq (n := (Machine.load {} program).machine) hkept hdone
    rw [essence_concat_start rfl hlast hstart, hrewound]
    show (Machine.load {} program).machine.start.machine = (m.rewound .running).mute
    rw [hstarted]
    show Machine.mk (some (Image.ofProgram program)) .running [] [] entry false
      = Machine.mk m.image .running [] [] entry false
    rw [hkept]

theorem other (h : LeadTo es m) (hload : loaded? ⟨m, r⟩ = none) (hstart : starts ⟨m, r⟩ = false) :
    LeadTo (es ++ [⟨m, r⟩]) (m.handle r).machine := by
  unfold LeadTo at h ⊢
  cases heffect : effect? ⟨m, r⟩ with
  | none =>
    rw [essence_concat hload hstart (.inl heffect), heffect, Option.toList_none, List.append_nil, h]
    exact (Machine.mute_handle_of_effect?_eq_none hload hstart heffect).symm
  | some r' =>
    obtain ⟨hphase, hsame⟩ := Machine.handle_mute_of_effect?_eq_some heffect
    have hstarted : (Machine.after {} (essence es)).phase ≠ .ready := by
      rw [h]
      exact hphase
    rw [essence_concat hload hstart (.inr (exists_of_phase_ne_ready hstarted)), heffect,
      Machine.after_append, h]
    exact hsame

/-- **One more exchange.** -/
theorem concat (h : LeadTo es m) (r : Request) :
    LeadTo (es ++ [⟨m, r⟩]) (m.handle r).machine := by
  cases r with
  | load program => exact load program
  | start =>
    by_cases hstart : starts ⟨m, .start⟩ = true
    · exact h.start hstart
    · exact h.other rfl (Bool.eq_false_iff.2 hstart)
  | _ => exact h.other rfl rfl

end Exchange.LeadTo

/-! ## §6. Histories. -/

/-- What of the history of a new machine counts: the last load, a start if one has
succeeded since, and the requests that took effect after the last such start. -/
def normalForm (history : List Request) : List Request :=
  Exchange.essence (Machine.exchanges {} history)

/-- **Nothing but the normal form of a history leaves a trace.**  Whatever was asked of
a machine, it is, its listener aside, in the state of a new machine of which only the
normal form was asked. -/
theorem after_normalForm (history : List Request) :
    Machine.after {} (normalForm history)
      = { Machine.after {} history with listening := false } := by
  show Exchange.LeadTo (Machine.exchanges {} history) (Machine.after {} history)
  induction history using List.reverseRecOn with
  | nil => exact (rfl : Machine.after {} [] = Machine.mute {})
  | append_singleton history r ih =>
    rw [Machine.exchanges_concat, Machine.after_append]
    exact ih.concat r

end StackCalc
